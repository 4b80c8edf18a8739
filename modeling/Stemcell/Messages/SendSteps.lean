import Stemcell.Messages.Standing

/-!
# The events of a send

One lemma says what an event of a send leaves alone, and one lemma for each event says
that the custody and the standing of the message itself outlive it.

Main results:

- Theorem `sendStep_of_next`: what an event of a send changes at most.
- Theorem `MessageInv.send`: the message of a send outlives its events.
-/

namespace Stemcell
namespace Messages

open Lib Maintenance

/-! ## Copies -/

/-- The forms in which a message travels. -/
inductive Copy (p : Platform) (item : QueueItem) : QueueItem → Prop
  | plain : Copy p item item
  | prepared (leaseId : String) : Copy p item (item.prepare p leaseId)
  | refused (leaseId : String) :
      Copy p item { item.prepare p leaseId with reconcileOnly := false }

variable {p : Platform} {table : CallTable} {host : Host} {d d' d₁ : Exchange}
  {queueId contactId leaseId : String} {item copy : QueueItem} {sending : Sending} {t : Seconds}

theorem Copy.id_eq (h : Copy p item copy) : copy.queueId = item.queueId := by
  cases h <;> rfl

theorem Copy.drainContext (h : Copy p item copy) :
    drainContext p table copy = drainContext p table item := by
  cases h <;> rfl

/-- A copy that is to be reconciled only is prepared. -/
theorem Copy.prepared_of_only (hplain : Plain item) (h : Copy p item copy)
    (honly : copy.reconcileOnly = true) : copy.lineagePrepared = true := by
  cases h with
  | plain =>
      rw [hplain.reconcileOnly] at honly
      cases honly
  | prepared leaseId => rfl
  | refused leaseId => rfl

theorem Copy.lineageContext (hplain : Plain item) (h : Copy p item copy)
    (hprepared : copy.lineagePrepared = true) : copy.lineageContext = lineageContext p item := by
  cases h with
  | plain =>
      rw [hplain.lineagePrepared] at hprepared
      cases hprepared
  | prepared leaseId => rfl
  | refused leaseId => rfl

theorem Copy.refuse (hplain : Plain item) (h : Copy p item copy)
    (hprepared : copy.lineagePrepared = true) :
    Copy p item { copy with reconcileOnly := false } := by
  cases h with
  | plain =>
      rw [hplain.lineagePrepared] at hprepared
      cases hprepared
  | prepared leaseId => exact .refused leaseId
  | refused leaseId => exact .refused leaseId

/-! ## What an event of a send changes -/

/-- What a transaction may do to the queue file. -/
inductive QueueStep (queue : ManagerQueue) : ManagerQueue → Prop
  | same : QueueStep queue queue
  | append (contactId : String) (item : QueueItem) (after : ManagerQueue)
      (h : appendManagerQueueItem queue contactId item = .ok after) : QueueStep queue after
  | remove (queueIds : List String) : QueueStep queue (removeManagerQueueIds queue queueIds)

/-- Before the send itself goes on: at most the coordinator, the records of the message and
its roots change. -/
structure SendBase (p : Platform) (sending : Sending) (d d' : Exchange) : Prop where
  sends : d'.sends = d.sends
  queue : QueueStep d.queue d'.queue
  items : ∀ contact copy, (contact, copy) ∈ d'.queue.items →
    (contact, copy) ∈ d.queue.items ∨ contact = sending.contactId ∧ Copy p sending.item copy
  stored : ∀ contact copy, copy.queueId ≠ sending.item.queueId →
    (contact, copy) ∈ d.queue.items → (contact, copy) ∈ d'.queue.items
  pass : d'.pass = d.pass
  issued : d'.issued = d.issued
  reported : d'.reported = d.reported
  roots : ∃ adds root, root.queueId = sending.item.queueId ∧
    d'.roots = d.roots ++ rootAdded adds root

/-- What an event of a send changes at most. -/
structure SendStep (p : Platform) (sending : Sending) (d d' : Exchange) : Prop where
  sends : ∀ queueId, queueId ≠ sending.item.queueId →
    d'.sends.get? queueId = d.sends.get? queueId
  own : ∀ later, d'.sends.get? sending.item.queueId = some later →
    later.contactId = sending.contactId ∧ later.item = sending.item
  queue : QueueStep d.queue d'.queue
  items : ∀ contact copy, (contact, copy) ∈ d'.queue.items →
    (contact, copy) ∈ d.queue.items ∨ contact = sending.contactId ∧ Copy p sending.item copy
  stored : ∀ contact copy, copy.queueId ≠ sending.item.queueId →
    (contact, copy) ∈ d.queue.items → (contact, copy) ∈ d'.queue.items
  pass : d'.pass = d.pass
  issued : d'.issued = d.issued
  reported : ∀ queueId, queueId ≠ sending.item.queueId → queueId ∈ d'.reported →
    queueId ∈ d.reported
  roots : ∃ adds root, root.queueId = sending.item.queueId ∧
    d'.roots = d.roots ++ rootAdded adds root

/-- Nothing but the coordinator changes. -/
theorem SendBase.world (w : World) : SendBase p sending d { d with world := w } where
  sends := rfl
  queue := .same
  items _ _ h := .inl h
  stored _ _ _ h := h
  pass := rfl
  issued := rfl
  reported := rfl
  roots := ⟨false, ⟨sending.item.queueId, "", .ingress⟩, rfl, by simp [rootAdded]⟩

theorem SendBase.refl : SendBase p sending d d :=
  SendBase.world d.world

theorem SendBase.transfer (context leaseId : String) (t : Seconds) :
    SendBase p sending d
      (d.transferCall p sending.contactId context leaseId sending.item.queueId t) where
  sends := rfl
  queue := .same
  items _ _ h := .inl h
  stored _ _ _ h := h
  pass := rfl
  issued := rfl
  reported := rfl
  roots := ⟨_, _, rfl, rfl⟩

theorem SendBase.append {queue : ManagerQueue} (hcopy : Copy p sending.item copy)
    (h : appendManagerQueueItem d.queue sending.contactId copy = .ok queue) :
    SendBase p sending d { d with queue := queue } where
  sends := rfl
  queue := .append _ _ _ h
  items contact other hmem := by
    rcases (mem_items_append h).mp hmem with hold | hnew
    · exact .inl hold
    · cases hnew
      exact .inr ⟨rfl, hcopy⟩
  stored contact other _ hmem := (mem_items_append h).mpr (.inl hmem)
  pass := rfl
  issued := rfl
  reported := rfl
  roots := ⟨false, ⟨sending.item.queueId, "", .ingress⟩, rfl, by simp [rootAdded]⟩

theorem SendBase.remove :
    SendBase p sending d
      { d with queue := removeManagerQueueIds d.queue [sending.item.queueId] } where
  sends := rfl
  queue := .remove _
  items _ _ hmem := .inl (mem_items_remove.mp hmem).1
  stored contact other hne hmem := by
    apply mem_items_remove.mpr
    refine ⟨hmem, ?_⟩
    rwa [List.mem_singleton]
  pass := rfl
  issued := rfl
  reported := rfl
  roots := ⟨false, ⟨sending.item.queueId, "", .ingress⟩, rfl, by simp [rootAdded]⟩

/-- Then the send goes on. -/
theorem SendBase.goes (h : SendBase p sending d d₁) (stage : Stage) :
    SendStep p sending d (d₁.goes sending stage) where
  sends q hne := by
    rw [Exchange.goes, Dict.get?_set_of_ne _ _ hne.symm, h.sends]
  own later hget := by
    rw [Exchange.goes, Dict.get?_set_self] at hget
    cases hget
    exact ⟨rfl, rfl⟩
  queue := h.queue
  items := h.items
  stored := h.stored
  pass := h.pass
  issued := h.issued
  reported q _ hmem := by
    rw [Exchange.goes, h.reported] at hmem
    exact hmem
  roots := h.roots

/-- Or it is over. -/
theorem SendBase.finishes (h : SendBase p sending d d₁) (accepted : Bool) :
    SendStep p sending d (d₁.finishes sending.item.queueId accepted) where
  sends q hne := by
    rw [Exchange.finishes, Dict.get?_pop_of_ne _ hne.symm, h.sends]
  own later hget := by
    rw [Exchange.finishes, Dict.get?_pop_self] at hget
    cases hget
  queue := h.queue
  items := h.items
  stored := h.stored
  pass := h.pass
  issued := h.issued
  reported q hne hmem := by
    rw [Exchange.finishes, h.reported] at hmem
    cases accepted
    · exact hmem
    · rcases List.mem_cons.mp hmem with heq | hmem
      · exact absurd heq hne
      · exact hmem
  roots := h.roots

theorem acquire_sendStep {activityId : String} (h : d.acquire p sending activityId t = some d') :
    SendStep p sending d d' := by
  unfold Exchange.acquire at h
  split at h
  · simp only at h
    split at h
    · cases h
      exact (SendBase.world _).goes _
    · cases h
      exact (SendBase.world _).goes _
  · cases h

theorem prepare_sendStep (h : d.prepare p sending = some d') : SendStep p sending d d' := by
  unfold Exchange.prepare at h
  split at h
  · split at h
    · rename_i happend
      cases h
      exact (SendBase.append (.prepared _) happend).goes _
    · cases h
      exact SendBase.refl.goes _
  · cases h

theorem transfer_sendStep (h : d.transfer p sending t = some d') : SendStep p sending d d' := by
  unfold Exchange.transfer at h
  simp only at h
  split at h
  · split at h
    · cases h
      exact (SendBase.transfer _ _ _).finishes true
    · cases h
      exact (SendBase.transfer _ _ _).goes _
  · split at h
    · cases h
      exact (SendBase.transfer _ _ _).goes _
    · cases h
      exact (SendBase.transfer _ _ _).goes _
  · cases h

theorem retract_sendStep (h : d.retract sending = some d') : SendStep p sending d d' := by
  unfold Exchange.retract at h
  split at h
  · cases h
    exact SendBase.remove.goes _
  · cases h

theorem release_sendStep (h : d.release p sending t = some d') : SendStep p sending d d' := by
  unfold Exchange.release at h
  split at h
  · cases h
    exact (SendBase.world _).goes _
  · cases h

theorem settle_sendStep (h : d.settle sending = some d') : SendStep p sending d d' := by
  unfold Exchange.settle at h
  split at h
  · cases h
    exact SendBase.remove.finishes true
  · cases h

theorem fallBack_sendStep (h : d.fallBack sending = some d') : SendStep p sending d d' := by
  unfold Exchange.fallBack at h
  split at h
  · split at h
    · rename_i happend
      cases h
      exact (SendBase.append .plain happend).finishes true
    · cases h
      exact SendBase.refl.finishes false
  · cases h

theorem raises_sendStep : SendStep p sending d (d.raises sending) := by
  unfold Exchange.raises
  cases sending.stage with
  | begun parent => exact SendBase.refl.goes _
  | leased leaseId => exact SendBase.refl.goes _
  | prepared leaseId => exact SendBase.refl.finishes true
  | refused leaseId => exact SendBase.refl.goes _
  | taken => exact SendBase.refl.finishes true
  | releasing leaseId => exact SendBase.refl.goes _
  | fallingBack => exact SendBase.refl.finishes false

/-- The send of another message is none of a message's business. -/
theorem SendStep.aside (h : SendStep p sending d d') (hne : queueId ≠ sending.item.queueId) :
    Aside host queueId d d' := by
  have hitems : ∀ contact copy, copy.queueId = queueId → (contact, copy) ∈ d'.queue.items →
      (contact, copy) ∈ d.queue.items := by
    intro contact copy hid hmem
    rcases h.items contact copy hmem with hold | ⟨-, hcopy⟩
    · exact hold
    · exact absurd (hid.symm.trans hcopy.id_eq) hne
  have hnarrows : Narrows queueId d d' := by
    apply Narrows.of_queue _ hitems h.pass
    intro later hget
    rw [h.sends queueId hne] at hget
    exact ⟨later, hget, .refl _⟩
  constructor
  · intro later hget
    rwa [h.sends queueId hne] at hget
  · exact hnarrows.waits
  · exact hnarrows.unchecked
  · exact h.reported queueId hne
  · rintro ⟨contact, copy, hmem, hid⟩
    right
    refine ⟨contact, copy, h.stored contact copy ?_ hmem, hid⟩
    rwa [hid]
  · exact .of_eq h.pass

theorem SendStep.count (h : SendStep p sending d d') (hne : queueId ≠ sending.item.queueId)
    (kind : RootKind) : rootCount d' queueId kind = rootCount d queueId kind := by
  rcases h.roots with ⟨adds, root, hid, hroots⟩
  rw [rootCount_append _ _ _ adds root hroots kind, if_neg, Nat.add_zero]
  rintro ⟨-, hroot, -⟩
  exact hne (hroot.symm.trans hid)

/-! ## The message of a send -/

/-- A call that queues nothing leaves every message alone. -/
theorem calm_of_op (op : Op) (hreach : (coordinator host).Reachable d.world)
    (hknown : op.Known host d.world.state.uuidsDrawn) (hmeets : Meets host d queueId t)
    (hnew : ∀ id, ¬ op.newId host d.world.state.uuidsDrawn id)
    (hworld : d'.world = d.world.after host op t) (hroots : d'.roots = d.roots) :
    Calm host queueId d d' := by
  refine Calm.of_step (e := ⟨op, t⟩) hreach ⟨hmeets.clock, hknown, hworld⟩ hmeets (hnew _)
    (hnew _) fun kind => ?_
  rw [rootCount, hroots, rootCount]

/-- The lease that a call opened is drawn. -/
theorem leaseOpened_drawn (hreach : (coordinator host).Reachable d.world) {op : Op}
    (h : leaseOpened host d.world op t = some leaseId) :
    Drawn host (d.world.after host op t).state.uuidsDrawn leaseId := by
  unfold leaseOpened at h
  split at h
  · rename_i token s' hcall
    rw [Option.map_eq_some_iff] at h
    rcases h with ⟨token', htoken, hlease⟩
    rw [World.after_ok hcall, ← hlease]
    have hmatch := reply_tokensMatch ((reachable_wellFormed hreach).prune t) hcall token'
    apply (hmatch _).drawn
    rw [htoken]
    exact List.mem_singleton_self _
  · cases h

theorem Calm.goes (d : Exchange) (sending : Sending) (stage : Stage) :
    Calm host queueId d (d.goes sending stage) :=
  .of_eq rfl rfl

theorem Calm.finishes (d : Exchange) (id : String) (accepted : Bool) :
    Calm host queueId d (d.finishes id accepted) :=
  .of_eq rfl rfl

theorem get?_goes (d : Exchange) (sending : Sending) (stage : Stage) :
    (d.goes sending stage).sends.get? sending.item.queueId =
      some { sending with stage := stage } :=
  Dict.get?_set_self _ _ _

theorem get?_finishes (d : Exchange) (queueId : String) (accepted : Bool) :
    (d.finishes queueId accepted).sends.get? queueId = none :=
  Dict.get?_pop_self _ _

theorem Unchecked.of_eq (hqueue : d'.queue = d.queue) (hpass : d'.pass = d.pass)
    (h : Unchecked d' contactId copy) : Unchecked d contactId copy := by
  rcases h with hmem | ⟨pass, hsome, hmem⟩
  · rw [hqueue] at hmem
    exact .stored hmem
  · rw [hpass] at hsome
    exact .read pass hsome hmem

theorem Waits.of_eq (hqueue : d'.queue = d.queue) (hpass : d'.pass = d.pass)
    (h : Waits d' contactId copy) : Waits d contactId copy := by
  rcases h with hmem | ⟨pass, hsome, hmem⟩
  · rw [hqueue] at hmem
    exact .stored hmem
  · rw [hpass] at hsome
    exact .read pass hsome hmem

/-- A message that is nowhere but in its send gets a lease. -/
theorem MessageInv.leases (h : MessageInv p table d queueId contactId item)
    (hget : d.sends.get? queueId = some sending) (hearly : sending.stage.unrecorded = true)
    (hsends : d'.sends.get? queueId = some { sending with stage := .leased leaseId })
    (hqueue : d'.queue = d.queue) (hpass : d'.pass = d.pass) (hreported : d'.reported = d.reported)
    (hcalm : Calm p.host queueId d d')
    (hdrawn : Drawn p.host d'.world.state.uuidsDrawn leaseId) :
    MessageInv p table d' queueId contactId item := by
  rcases h.standing.unrecorded sending hget hearly with ⟨hnone, hrooted⟩
  have hmay : ∀ a, MayTransfer d' queueId a → a = leaseId := by
    rintro a (⟨later, hlater, hpresents⟩ | ⟨contact, copy, hcopy, hid, -, -⟩)
    · rw [hsends] at hlater
      cases hlater
      exact (Option.some.inj hpresents).symm
    · exact absurd (hcopy.of_eq hqueue hpass) (not_recorded_of_unchecked hnone hid)
  have hnone' : ¬ Recorded d' queueId := by
    rintro ⟨contact, copy, hwaits, hid⟩
    exact hnone ⟨contact, copy, hwaits.of_eq hqueue hpass, hid⟩
  have hrooted' : ¬ Rooted p.host d' queueId := fun hr => hrooted (hr.calm hcalm)
  constructor
  · apply h.custody.gains hcalm
    · intro hgoes
      exfalso
      rcases hgoes with hreceipt | ⟨contact, copy, hwaits, hid, -⟩ | ⟨later, hlater, hfalls⟩
      · exact hrooted' (.inr hreceipt)
      · exact hnone' ⟨contact, copy, hwaits, hid⟩
      · rw [hsends] at hlater
        cases hlater
        cases hfalls
    · intro a b ha hb
      rw [hmay a ha, hmay b hb]
    · intro a ha
      rw [hmay a ha]
      exact hdrawn
  · refine h.standing.goes hget hsends hreported hcalm.keeps (.of_eq hpass) ⟨?_, ?_, ?_⟩
    · intro _
      exact ⟨hnone', hrooted'⟩
    · intro _ heq
      cases heq
    · intro heq
      cases heq

/-- The record of a prepared message is in the queue file. -/
theorem MessageInv.records (h : MessageInv p table d queueId contactId item)
    (hget : d.sends.get? queueId = some sending) (hstage : sending.stage = .leased leaseId)
    (hid : sending.item.queueId = queueId) {queue : ManagerQueue}
    (happend : appendManagerQueueItem d.queue sending.contactId (sending.item.prepare p leaseId) =
      .ok queue) :
    MessageInv p table (Exchange.goes { d with queue := queue } sending (.prepared leaseId))
      queueId contactId item := by
  subst hid
  rcases h.standing.unrecorded sending hget (by rw [hstage]; rfl) with ⟨hnone, hrooted⟩
  have hsends := get?_goes { d with queue := queue } sending (.prepared leaseId)
  have hitems : ∀ contact copy, copy.queueId = sending.item.queueId →
      (contact, copy) ∈ queue.items → copy = sending.item.prepare p leaseId := by
    intro contact copy hid hmem
    rcases (mem_items_append happend).mp hmem with hold | hnew
    · exact absurd ⟨contact, copy, .stored hold, hid⟩ hnone
    · cases hnew
      rfl
  have hmay : ∀ a, MayTransfer (Exchange.goes { d with queue := queue } sending
      (.prepared leaseId)) sending.item.queueId a → a = leaseId := by
    rintro a (⟨later, hlater, hpresents⟩ | ⟨contact, copy, hcopy, hid, -, hlease⟩)
    · rw [hsends] at hlater
      cases hlater
      exact (Option.some.inj hpresents).symm
    · rcases hcopy with hmem | ⟨pass, hpass, hmem⟩
      · rw [hitems contact copy hid hmem] at hlease
        exact hlease.symm
      · exact absurd (.read pass hpass hmem) (not_recorded_of_unchecked hnone hid)
  have hcalm : Calm p.host sending.item.queueId d
      (Exchange.goes { d with queue := queue } sending (.prepared leaseId)) := .of_eq rfl rfl
  constructor
  · apply h.custody.gains hcalm
    · intro hgoes
      exfalso
      rcases hgoes with hreceipt | ⟨contact, copy, hwaits, hid, honly⟩ | ⟨later, hlater, hfalls⟩
      · exact hrooted (.inr hreceipt)
      · rcases hwaits with hmem | ⟨pass, hpass, hmem⟩
        · rw [hitems contact copy hid hmem] at honly
          cases honly
        · exact hnone ⟨contact, copy, .read pass hpass hmem, hid⟩
      · rw [hsends] at hlater
        cases hlater
        cases hfalls
    · intro a b ha hb
      rw [hmay a ha, hmay b hb]
    · intro a ha
      rw [hmay a ha]
      exact h.custody.drawn leaseId (.sender sending hget (by rw [hstage]; rfl))
  · refine h.standing.goes hget hsends rfl hcalm.keeps (.of_eq rfl) ⟨?_, ?_, ?_⟩
    · intro hearly
      cases hearly
    · intro _ _
      right
      exact ⟨sending.contactId, _, (mem_items_append happend).mpr (.inr rfl), rfl⟩
    · intro heq
      cases heq

section Own

variable (h : MessageInv p table d sending.item.queueId contactId item)
  (hget : d.sends.get? sending.item.queueId = some sending)
include h hget

theorem MessageInv.acquire {activityId : String}
    (hreach : (coordinator p.host).Reachable d.world)
    (hmeets : Meets p.host d sending.item.queueId t)
    (hnext : d.acquire p sending activityId t = some d') :
    MessageInv p table d' sending.item.queueId contactId item := by
  unfold Exchange.acquire at hnext
  split at hnext
  swap
  · cases hnext
  rename_i parent hstage
  simp only at hnext
  have hearly : sending.stage.unrecorded = true := by rw [hstage]; rfl
  split at hnext
  · rename_i leaseId hopened
    cases hnext
    exact h.leases hget hearly (get?_goes _ _ _) rfl rfl rfl
      (calm_of_op (.acquireActivity "manager_handoff" activityId sending.contactId
        (some parent) leaseTtlSeconds) hreach trivial hmeets (fun _ hfalse => hfalse) rfl rfl)
      (leaseOpened_drawn hreach hopened)
  · cases hnext
    exact h.falls hget hearly rfl (get?_goes _ _ _) rfl rfl rfl
      (calm_of_op (.acquireActivity "manager_handoff" activityId sending.contactId
        (some parent) leaseTtlSeconds) hreach trivial hmeets (fun _ hfalse => hfalse) rfl rfl)

theorem MessageInv.prepare (hnext : d.prepare p sending = some d') :
    MessageInv p table d' sending.item.queueId contactId item := by
  unfold Exchange.prepare at hnext
  split at hnext
  swap
  · cases hnext
  rename_i leaseId reference hstage hcall
  split at hnext
  · rename_i queue happend
    cases hnext
    exact h.records hget hstage rfl happend
  · cases hnext
    exact h.falls hget (by rw [hstage]; rfl) rfl (get?_goes _ _ _) rfl rfl rfl (.of_eq rfl rfl)

theorem MessageInv.transfer (hreach : (coordinator p.host).Reachable d.world)
    (hknown : Known p.host d sending.item.queueId)
    (hmeets : Meets p.host d sending.item.queueId t) (hcontact : sending.contactId = contactId)
    (hitem : sending.item = item) (hnext : d.transfer p sending t = some d') :
    MessageInv p table d' sending.item.queueId contactId item := by
  unfold Exchange.transfer at hnext
  simp only at hnext
  have hcall : ∀ leaseId, sending.stage.presents = some leaseId → _ := fun leaseId hpresents =>
    h.custody.transfer hreach hknown hmeets (.sender sending hget hpresents)
  rw [← hcontact, ← hitem] at hcall
  split at hnext
  · rename_i leaseId hstage hwork
    rcases hcall leaseId (by rw [hstage]; rfl) with ⟨hcustody, hkeeps, houtcome⟩
    have hearly : sending.stage.unrecorded = true := by rw [hstage]; rfl
    rcases h.standing.unrecorded sending hget hearly with ⟨hnone, -⟩
    split at hnext <;> rename_i hanswer
    · rw [hanswer] at houtcome
      cases hnext
      cases houtcome with
      | taken hreceipt =>
          rw [← hcontact, ← hitem]
          constructor
          · refine hcustody.narrows ?_ (Calm.finishes _ _ _)
            refine Narrows.of_queue ?_ (fun _ _ _ hmem => hmem) rfl
            intro later hlater
            rw [get?_finishes] at hlater
            cases hlater
          · exact h.standing.finishes (get?_finishes _ _ _) (fun _ => .inl (.inl hreceipt))
              ⟨hkeeps.continuation, hkeeps.ingress⟩ (.of_eq rfl)
    · rw [Bool.not_eq_true] at hanswer
      rw [hanswer] at houtcome
      cases hnext
      cases houtcome with
      | refused hreceipt hgone =>
          rw [← hcontact, ← hitem]
          constructor
          · apply hcustody.falls (Calm.goes _ sending _) rfl rfl hreceipt
            · rintro ⟨contact, copy, hwaits, hid⟩
              have hold : Waits d contact copy := hwaits.of_eq (by rfl) (by rfl)
              exact hnone ⟨contact, copy, hold, hid⟩
            · intro later hlater
              rw [get?_goes] at hlater
              cases hlater
              rfl
          · exact h.standing.goes hget (get?_goes _ _ _) rfl
              ⟨hkeeps.continuation, hkeeps.ingress⟩ (.of_eq rfl) (.later rfl)
  · rename_i leaseId hstage
    rcases hcall leaseId (by rw [hstage]; rfl) with ⟨hcustody, hkeeps, houtcome⟩
    split at hnext <;> rename_i hanswer
    · rw [hanswer] at houtcome
      cases hnext
      cases houtcome with
      | taken hreceipt =>
          rw [← hcontact, ← hitem]
          constructor
          · refine hcustody.narrows ?_ (Calm.goes _ _ _)
            refine Narrows.of_queue ?_ (fun _ _ _ hmem => hmem) rfl
            intro later hlater
            rw [get?_goes] at hlater
            cases hlater
            exact ⟨sending, hget, (fun _ hpresents => nomatch hpresents),
              (fun hfalls => nomatch hfalls)⟩
          · refine h.standing.goes hget (get?_goes _ _ _) rfl
              ⟨hkeeps.continuation, hkeeps.ingress⟩ (.of_eq rfl) ⟨?_, ?_, ?_⟩
            · intro hearly
              cases hearly
            · intro _ heq
              cases heq
            · intro _
              exact hreceipt
    · rw [Bool.not_eq_true] at hanswer
      rw [hanswer] at houtcome
      cases hnext
      cases houtcome with
      | refused hreceipt hgone =>
          -- Whoever else may present a lease for the message presents this one.
          have hfrom : ∀ a, MayTransfer (Exchange.goes (d.transferCall p sending.contactId
              (lineageContext p sending.item) leaseId sending.item.queueId t) sending
              (.refused leaseId)) sending.item.queueId a →
              MayTransfer d sending.item.queueId a := by
            rintro a (⟨later, hlater, hpresents⟩ | ⟨contact, copy, hcopy, hid, hprep, hlease⟩)
            · rw [get?_goes] at hlater
              cases hlater
              cases hpresents
            · have hold : Unchecked d contact copy := hcopy.of_eq (by rfl) (by rfl)
              exact .record contact copy hold hid hprep hlease
          have hsame : ∀ a, MayTransfer d sending.item.queueId a → a = leaseId := fun a ha =>
            h.custody.single a leaseId ha (.sender sending hget (by rw [hstage]; rfl))
          rw [← hcontact, ← hitem]
          constructor
          · apply hcustody.gains (Calm.goes _ sending _)
            · intro _
              refine ⟨hreceipt, fun a ha => ?_⟩
              rw [hsame a (hfrom a ha)]
              exact hgone
            · intro a b ha hb
              rw [hsame a (hfrom a ha), hsame b (hfrom b hb)]
            · intro a ha
              rw [hsame a (hfrom a ha)]
              exact hgone.1
          · exact h.standing.goes hget (get?_goes _ _ _) rfl
              ⟨hkeeps.continuation, hkeeps.ingress⟩ (.of_eq rfl) (.later rfl)
  · cases hnext

theorem MessageInv.retract (hnext : d.retract sending = some d') :
    MessageInv p table d' sending.item.queueId contactId item := by
  unfold Exchange.retract at hnext
  split at hnext
  · rename_i leaseId hstage
    cases hnext
    exact h.weakens hget rfl (by rw [hstage]; rfl) (get?_goes _ _ _)
      (fun _ _ hmem => (mem_items_remove.mp hmem).1) rfl rfl (.of_eq rfl rfl)
  · cases hnext

theorem MessageInv.release (hreach : (coordinator p.host).Reachable d.world)
    (hmeets : Meets p.host d sending.item.queueId t) (hnext : d.release p sending t = some d') :
    MessageInv p table d' sending.item.queueId contactId item := by
  unfold Exchange.release at hnext
  split at hnext
  · rename_i leaseId hstage
    cases hnext
    exact h.weakens hget rfl (by rw [hstage]; rfl) (get?_goes _ _ _) (fun _ _ hmem => hmem)
      rfl rfl (calm_of_op (.release leaseId) hreach trivial hmeets (fun _ hfalse => hfalse) rfl rfl)
  · cases hnext

theorem MessageInv.settle (hnext : d.settle sending = some d') :
    MessageInv p table d' sending.item.queueId contactId item := by
  unfold Exchange.settle at hnext
  split at hnext
  · rename_i hstage
    cases hnext
    exact h.ends (get?_finishes _ _ _) (fun _ _ hmem => (mem_items_remove.mp hmem).1) rfl
      (.of_eq rfl rfl) fun _ => .inl (.inl (h.standing.taken sending hget hstage))
  · cases hnext

theorem MessageInv.fallBack (hplain : Plain sending.item)
    (hnext : d.fallBack sending = some d') :
    MessageInv p table d' sending.item.queueId contactId item := by
  unfold Exchange.fallBack at hnext
  split at hnext
  swap
  · cases hnext
  rename_i hstage
  split at hnext
  · rename_i queue happend
    cases hnext
    have hfrom : ∀ a, MayTransfer (Exchange.finishes { d with queue := queue }
        sending.item.queueId true) sending.item.queueId a →
        MayTransfer d sending.item.queueId a := by
      rintro a (⟨later, hlater, -⟩ | ⟨contact, copy, hcopy, hid, hprep, hlease⟩)
      · rw [get?_finishes] at hlater
        cases hlater
      · rcases hcopy with hmem | ⟨pass, hpass, hmem⟩
        · rcases (mem_items_append happend).mp hmem with hold | hnew
          · exact .record contact copy (.stored hold) hid hprep hlease
          · cases hnew
            rw [hplain.lineagePrepared] at hprep
            cases hprep
        · exact .record contact copy (.read pass hpass hmem) hid hprep hlease
    have hgoes := h.custody.goes (.sender sending hget (by rw [hstage]; rfl))
    have hcalm : Calm p.host sending.item.queueId d (Exchange.finishes { d with queue := queue }
        sending.item.queueId true) := .of_eq rfl rfl
    constructor
    · apply h.custody.gains hcalm
      · intro _
        exact ⟨hgoes.1, fun a ha => hgoes.2 a (hfrom a ha)⟩
      · intro a b ha hb
        exact h.custody.single a b (hfrom a ha) (hfrom b hb)
      · intro a ha
        exact h.custody.drawn a (hfrom a ha)
    · refine h.standing.finishes (get?_finishes _ _ _) (fun _ => .inr ?_)
        hcalm.keeps (.of_eq rfl)
      exact ⟨sending.contactId, sending.item, (mem_items_append happend).mpr (.inr rfl), rfl⟩
  · cases hnext
    refine h.ends (get?_finishes _ _ _) (fun _ _ hmem => hmem) rfl (.of_eq rfl rfl) fun hmem => ?_
    exact absurd hmem (h.standing.unreported hget)

theorem MessageInv.raises : MessageInv p table (d.raises sending) sending.item.queueId contactId
    item := by
  unfold Exchange.raises
  cases hstage : sending.stage with
  | begun parent =>
      exact h.falls hget (by rw [hstage]; rfl) rfl (get?_goes _ _ _) rfl rfl rfl (.of_eq rfl rfl)
  | leased leaseId =>
      exact h.falls hget (by rw [hstage]; rfl) rfl (get?_goes _ _ _) rfl rfl rfl (.of_eq rfl rfl)
  | prepared leaseId =>
      exact h.ends (get?_finishes _ _ _) (fun _ _ hmem => hmem) rfl (.of_eq rfl rfl)
        fun _ => h.standing.prepared sending leaseId hget hstage
  | refused leaseId =>
      exact h.weakens hget rfl (by rw [hstage]; rfl) (get?_goes _ _ _) (fun _ _ hmem => hmem)
        rfl rfl (.of_eq rfl rfl)
  | taken =>
      exact h.ends (get?_finishes _ _ _) (fun _ _ hmem => hmem) rfl (.of_eq rfl rfl)
        fun _ => .inl (.inl (h.standing.taken sending hget hstage))
  | releasing leaseId =>
      exact h.weakens hget rfl (by rw [hstage]; rfl) (get?_goes _ _ _) (fun _ _ hmem => hmem)
        rfl rfl (.of_eq rfl rfl)
  | fallingBack =>
      refine h.ends (get?_finishes _ _ _) (fun _ _ hmem => hmem) rfl (.of_eq rfl rfl) fun hmem => ?_
      exact absurd hmem (h.standing.unreported hget)

end Own

end Messages
end Stemcell
