import Stemcell.Messages.Custody

/-!
# Where a message stands

What is true of a message at each stage of its send and in the hands of a pass, and how
the events of its own send change that.

Main results:

- Definition `Standing`: what the stage of a send and the pass say of a message.
- Theorem `Standing.aside`: it outlives events that are about other messages.
- Theorems `MessageInv.falls`, `MessageInv.weakens` and `MessageInv.ends`: a message outlives
  the stages that only take away from its send.
-/

namespace Stemcell
namespace Messages

open Lib Maintenance

/-! ## Standing -/

/-- The stage of its send and the pass tell of a message what is true. -/
structure Standing (host : Host) (d : Exchange) (queueId : String) : Prop where
  unrecorded : ∀ sending, d.sends.get? queueId = some sending →
    sending.stage.unrecorded = true → ¬ Recorded d queueId ∧ ¬ Rooted host d queueId
  prepared : ∀ sending leaseId, d.sends.get? queueId = some sending →
    sending.stage = .prepared leaseId → Rooted host d queueId ∨ Stored d queueId
  taken : ∀ sending, d.sends.get? queueId = some sending → sending.stage = .taken →
    d.world.state.continuationReceipts.get? queueId ≠ none
  active : queueId ∈ d.reported → d.sends.get? queueId = none
  kept : queueId ∈ d.reported → Rooted host d queueId ∨ Stored d queueId
  delivered : ∀ pass, d.pass = some pass → queueId ∈ pass.delivered → Rooted host d queueId
  resumed : ∀ pass first rest, d.pass = some pass → pass.resumed = true →
    pass.rest = first :: rest → first.queueId = queueId → first.reconcileOnly = true →
    d.world.state.continuationReceipts.get? queueId ≠ none

/-- Custody and standing of a message. -/
structure MessageInv (p : Platform) (table : CallTable) (d : Exchange)
    (queueId contactId : String) (item : QueueItem) : Prop where
  custody : Custody p table d queueId contactId item
  standing : Standing p.host d queueId

/-- The pass has no more to tell of a message than before. -/
structure SamePass (host : Host) (queueId : String) (d d' : Exchange) : Prop where
  delivered : ∀ pass, d'.pass = some pass → queueId ∈ pass.delivered →
    Rooted host d queueId ∨ ∃ before, d.pass = some before ∧ queueId ∈ before.delivered
  resumed : ∀ pass first rest, d'.pass = some pass → pass.resumed = true →
    pass.rest = first :: rest → first.queueId = queueId → first.reconcileOnly = true →
    d.world.state.continuationReceipts.get? queueId ≠ none ∨
      ∃ before others, d.pass = some before ∧ before.resumed = true ∧
        before.rest = first :: others

/-- An event that is about other messages. -/
structure Aside (host : Host) (queueId : String) (d d' : Exchange) : Prop where
  sends : ∀ later, d'.sends.get? queueId = some later → d.sends.get? queueId = some later
  waits : ∀ contactId item, item.queueId = queueId → Waits d' contactId item →
    Waits d contactId item
  unchecked : ∀ contactId item, item.queueId = queueId → Unchecked d' contactId item →
    Unchecked d contactId item
  reported : queueId ∈ d'.reported → queueId ∈ d.reported
  stored : Stored d queueId → Rooted host d queueId ∨ Stored d' queueId
  pass : SamePass host queueId d d'

variable {p : Platform} {table : CallTable} {host : Host} {d d' : Exchange}
  {queueId contactId leaseId : String} {item : QueueItem} {sending : Sending}

theorem SamePass.of_eq (h : d'.pass = d.pass) : SamePass host queueId d d' := by
  constructor
  · intro pass hpass hmem
    rw [h] at hpass
    exact .inr ⟨pass, hpass, hmem⟩
  · intro pass first rest hpass hresumed hrest _ _
    rw [h] at hpass
    exact .inr ⟨pass, rest, hpass, hresumed, hrest⟩

theorem Aside.narrows (h : Aside host queueId d d') : Narrows queueId d d' where
  sends later hget := ⟨later, h.sends later hget, .refl _⟩
  waits := h.waits
  unchecked := h.unchecked

theorem Recorded.narrows (hnarrows : Narrows queueId d d') (h : Recorded d' queueId) :
    Recorded d queueId := by
  rcases h with ⟨contact, copy, hwaits, hid⟩
  exact ⟨contact, copy, hnarrows.waits contact copy hid hwaits, hid⟩

theorem Rooted.calm (hcalm : Calm host queueId d d') (h : Rooted host d' queueId) :
    Rooted host d queueId := by
  rcases h with h | h
  · rw [hcalm.continuation.receipt] at h
    exact .inl h
  · rw [hcalm.ingress.receipt] at h
    exact .inr h

theorem Standing.delivered_kept (h : Standing host d queueId) (hkeeps : Keeps host queueId d d')
    (hpass : SamePass host queueId d d') : ∀ pass, d'.pass = some pass →
      queueId ∈ pass.delivered → Rooted host d' queueId := by
  intro pass hsome hmem
  apply hkeeps.rooted
  rcases hpass.delivered pass hsome hmem with hrooted | ⟨before, hbefore, hmem⟩
  · exact hrooted
  · exact h.delivered before hbefore hmem

theorem Standing.resumed_kept (h : Standing host d queueId) (hkeeps : Keeps host queueId d d')
    (hpass : SamePass host queueId d d') : ∀ pass first rest, d'.pass = some pass →
      pass.resumed = true → pass.rest = first :: rest → first.queueId = queueId →
      first.reconcileOnly = true → d'.world.state.continuationReceipts.get? queueId ≠ none := by
  intro pass first rest hsome hresumed hrest hid honly
  apply hkeeps.continuation
  rcases hpass.resumed pass first rest hsome hresumed hrest hid honly with
    hreceipt | ⟨before, others, hbefore, hwas, hfirst⟩
  · exact hreceipt
  · exact h.resumed before first others hbefore hwas hfirst hid honly

/-- Standing outlives events that are about other messages. -/
theorem Standing.aside (h : Standing host d queueId) (ha : Aside host queueId d d')
    (hcalm : Calm host queueId d d') : Standing host d' queueId where
  unrecorded later hget hstage := by
    rcases h.unrecorded later (ha.sends later hget) hstage with ⟨hrecorded, hrooted⟩
    exact ⟨fun hr => hrecorded (hr.narrows ha.narrows), fun hr => hrooted (hr.calm hcalm)⟩
  prepared later leaseId hget hstage := by
    rcases h.prepared later leaseId (ha.sends later hget) hstage with hrooted | hstored
    · exact .inl (hcalm.keeps.rooted hrooted)
    · rcases ha.stored hstored with hrooted | hstored
      · exact .inl (hcalm.keeps.rooted hrooted)
      · exact .inr hstored
  taken later hget hstage := hcalm.keeps.continuation (h.taken later (ha.sends later hget) hstage)
  active hmem := by
    rw [Option.eq_none_iff_forall_ne_some]
    intro later hget
    have hnone := h.active (ha.reported hmem)
    rw [ha.sends later hget] at hnone
    cases hnone
  kept hmem := by
    rcases h.kept (ha.reported hmem) with hrooted | hstored
    · exact .inl (hcalm.keeps.rooted hrooted)
    · rcases ha.stored hstored with hrooted | hstored
      · exact .inl (hcalm.keeps.rooted hrooted)
      · exact .inr hstored
  delivered := h.delivered_kept hcalm.keeps ha.pass
  resumed := h.resumed_kept hcalm.keeps ha.pass

theorem MessageInv.aside (h : MessageInv p table d queueId contactId item)
    (ha : Aside p.host queueId d d') (hcalm : Calm p.host queueId d d') :
    MessageInv p table d' queueId contactId item :=
  ⟨h.custody.narrows ha.narrows hcalm, h.standing.aside ha hcalm⟩

/-! ## Events of a send -/

/-- A message whose send is at this stage was not reported. -/
theorem Standing.unreported (h : Standing host d queueId)
    (hget : d.sends.get? queueId = some sending) : queueId ∉ d.reported := by
  intro hmem
  rw [h.active hmem] at hget
  cases hget

/-- What the next stage of a send has to bring along. -/
structure Reaches (host : Host) (d : Exchange) (queueId : String) (stage : Stage) : Prop where
  unrecorded : stage.unrecorded = true → ¬ Recorded d queueId ∧ ¬ Rooted host d queueId
  prepared : ∀ leaseId, stage = .prepared leaseId → Rooted host d queueId ∨ Stored d queueId
  taken : stage = .taken → d.world.state.continuationReceipts.get? queueId ≠ none

/-- The send of the message goes on to another stage. -/
theorem Standing.goes (h : Standing host d queueId) (hget : d.sends.get? queueId = some sending)
    {stage : Stage} (hsends : d'.sends.get? queueId = some { sending with stage := stage })
    (hreported : d'.reported = d.reported) (hkeeps : Keeps host queueId d d')
    (hpass : SamePass host queueId d d') (hreaches : Reaches host d' queueId stage) :
    Standing host d' queueId where
  unrecorded later hlater hstage := by
    rw [hsends] at hlater
    cases hlater
    exact hreaches.unrecorded hstage
  prepared later leaseId hlater hstage := by
    rw [hsends] at hlater
    cases hlater
    exact hreaches.prepared leaseId hstage
  taken later hlater hstage := by
    rw [hsends] at hlater
    cases hlater
    exact hreaches.taken hstage
  active hmem := by
    rw [hreported] at hmem
    exact absurd hmem (h.unreported hget)
  kept hmem := by
    rw [hreported] at hmem
    exact absurd hmem (h.unreported hget)
  delivered := h.delivered_kept hkeeps hpass
  resumed := h.resumed_kept hkeeps hpass

/-- The send of the message is over. -/
theorem Standing.finishes (h : Standing host d queueId) (hsends : d'.sends.get? queueId = none)
    (hkept : queueId ∈ d'.reported → Rooted host d' queueId ∨ Stored d' queueId)
    (hkeeps : Keeps host queueId d d') (hpass : SamePass host queueId d d') :
    Standing host d' queueId where
  unrecorded later hget := by
    rw [hsends] at hget
    cases hget
  prepared later leaseId hget := by
    rw [hsends] at hget
    cases hget
  taken later hget := by
    rw [hsends] at hget
    cases hget
  active _ := hsends
  kept := hkept
  delivered := h.delivered_kept hkeeps hpass
  resumed := h.resumed_kept hkeeps hpass

/-- A stage that asks for nothing. -/
theorem Reaches.later {stage : Stage} (hfalls : stage.fallsBack = true) :
    Reaches host d queueId stage := by
  cases stage <;> simp [Stage.fallsBack] at hfalls
  all_goals exact ⟨(fun h => nomatch h), (fun _ h => nomatch h), (fun h => nomatch h)⟩

theorem Stage.presents_of_fallsBack {stage : Stage} (h : stage.fallsBack = true) :
    stage.presents = none := by
  cases stage <;> simp [Stage.fallsBack] at h
  all_goals rfl

/-- Nothing recorded is left to a pass. -/
theorem not_recorded_of_unchecked (hnone : ¬ Recorded d queueId) {contact : String}
    {copy : QueueItem} (hid : copy.queueId = queueId) : ¬ Unchecked d contact copy := by
  rintro (hmem | ⟨pass, hpass, hmem⟩)
  · exact hnone ⟨contact, copy, .stored hmem, hid⟩
  · refine hnone ⟨contact, copy, .read pass hpass ?_, hid⟩
    unfold Pass.unresumed at hmem
    unfold Pass.waiting
    split at hmem
    · rcases List.mem_append.mp hmem with hmem | hmem
      · rcases List.mem_map.mp hmem with ⟨other, hother, heq⟩
        exact List.mem_append_left _ (List.mem_map.mpr ⟨other, List.mem_of_mem_tail hother, heq⟩)
      · exact List.mem_append_right _ hmem
    · exact hmem

/-- A message that is nowhere but in its send gives its lease up. -/
theorem Custody.falls (h : Custody p table d queueId contactId item)
    (hcalm : Calm p.host queueId d d') (hqueue : d'.queue = d.queue) (hpass : d'.pass = d.pass)
    (hreceipt : d.world.state.continuationReceipts.get? queueId = none)
    (hnone : ¬ Recorded d queueId) (hsends : ∀ later, d'.sends.get? queueId = some later →
      later.stage.fallsBack = true) : Custody p table d' queueId contactId item := by
  have hmay : ∀ leaseId, ¬ MayTransfer d' queueId leaseId := by
    rintro leaseId (⟨later, hget, hpresents⟩ | ⟨contact, copy, hcopy, hid, -, -⟩)
    · rw [Stage.presents_of_fallsBack (hsends later hget)] at hpresents
      cases hpresents
    · apply not_recorded_of_unchecked hnone hid
      rcases hcopy with hmem | ⟨pass, hsome, hmem⟩
      · rw [hqueue] at hmem
        exact .stored hmem
      · rw [hpass] at hsome
        exact .read pass hsome hmem
  apply h.gains hcalm
  · intro _
    exact ⟨hreceipt, fun leaseId hyes => absurd hyes (hmay leaseId)⟩
  · intro a b ha
    exact absurd ha (hmay a)
  · intro leaseId hyes
    exact absurd hyes (hmay leaseId)

theorem not_rooted_receipt (h : ¬ Rooted host d queueId) :
    d.world.state.continuationReceipts.get? queueId = none := by
  by_contra hsome
  exact h (.inl hsome)

/-- The first stages of a send, cut short. -/
theorem MessageInv.falls (h : MessageInv p table d queueId contactId item)
    (hget : d.sends.get? queueId = some sending) (hearly : sending.stage.unrecorded = true)
    {stage : Stage} (hfalls : stage.fallsBack = true)
    (hsends : d'.sends.get? queueId = some { sending with stage := stage })
    (hqueue : d'.queue = d.queue) (hpass : d'.pass = d.pass) (hreported : d'.reported = d.reported)
    (hcalm : Calm p.host queueId d d') : MessageInv p table d' queueId contactId item := by
  rcases h.standing.unrecorded sending hget hearly with ⟨hnone, hrooted⟩
  constructor
  · apply h.custody.falls hcalm hqueue hpass (not_rooted_receipt hrooted) hnone
    intro later hlater
    rw [hsends] at hlater
    cases hlater
    exact hfalls
  · exact h.standing.goes hget hsends hreported hcalm.keeps (.of_eq hpass) (.later hfalls)

/-- The send goes on to a stage that leaves it less. -/
theorem MessageInv.weakens (h : MessageInv p table d queueId contactId item)
    (hget : d.sends.get? queueId = some sending) {stage : Stage}
    (hfalls : stage.fallsBack = true) (hwas : sending.stage.fallsBack = true)
    (hsends : d'.sends.get? queueId = some { sending with stage := stage })
    (hqueue : ∀ contact copy, (contact, copy) ∈ d'.queue.items → (contact, copy) ∈ d.queue.items)
    (hpass : d'.pass = d.pass) (hreported : d'.reported = d.reported)
    (hcalm : Calm p.host queueId d d') : MessageInv p table d' queueId contactId item := by
  constructor
  · apply h.custody.narrows _ hcalm
    apply Narrows.of_queue _ (fun contact copy _ hmem => hqueue contact copy hmem) hpass
    intro later hlater
    rw [hsends] at hlater
    cases hlater
    refine ⟨sending, hget, ⟨fun leaseId hpresents => ?_, fun _ => hwas⟩⟩
    have hnone := Stage.presents_of_fallsBack hfalls
    rw [show ({ sending with stage := stage } : Sending).stage = stage from rfl, hnone]
      at hpresents
    cases hpresents
  · exact h.standing.goes hget hsends hreported hcalm.keeps (.of_eq hpass) (.later hfalls)

/-- The send is over and leaves everything else as it was, or drops records. -/
theorem MessageInv.ends (h : MessageInv p table d queueId contactId item)
    (hsends : d'.sends.get? queueId = none)
    (hqueue : ∀ contact copy, (contact, copy) ∈ d'.queue.items → (contact, copy) ∈ d.queue.items)
    (hpass : d'.pass = d.pass) (hcalm : Calm p.host queueId d d')
    (hkept : queueId ∈ d'.reported → Rooted p.host d' queueId ∨ Stored d' queueId) :
    MessageInv p table d' queueId contactId item := by
  constructor
  · apply h.custody.narrows _ hcalm
    apply Narrows.of_queue _ (fun contact copy _ hmem => hqueue contact copy hmem) hpass
    intro later hlater
    rw [hsends] at hlater
    cases hlater
  · exact h.standing.finishes hsends hkept hcalm.keeps (.of_eq hpass)

end Messages
end Stemcell
