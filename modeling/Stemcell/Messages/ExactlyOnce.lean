import Stemcell.Messages.Invariant
import Stemcell.Messages.Replays

/-!
# Every accepted message becomes one root

Sends with and without a lineage, durable passes, ends of processes and other calls of
the coordinator, in any order.  A message that was reported as accepted becomes one root,
or it is still in the queue file, and a pass takes the messages of a recipient in the
order of the queue.

Main results:

- Theorem `inv_step`: every event keeps the invariant of an exchange.
- Theorem `queue_order`: no event reorders the queue of a recipient.
- Theorem `exchange_law`: exactly once and in order, in every reachable state.

Current gaps:

- A transaction that raises after its document was written is not modelled.
-/

namespace Stemcell
namespace Messages

open Lib Maintenance

variable {p : Platform} {table : CallTable} {host : Host} {d d' : Exchange}
  {queueId contactId : String} {item copy : QueueItem} {sending : Sending} {pass : Pass}
  {t : Seconds} {e : ExchangeEvent}

/-! ## Events that are not of a pass -/

/-- A message that was not sent is nowhere. -/
theorem Shape.unsent (h : Shape p d) (hnone : d.issued.get? queueId = none) :
    ¬ Recorded d queueId := by
  rintro ⟨contact, copy, hwaits, hid⟩
  rcases h.waits contact copy hwaits with ⟨item, hissued, -⟩
  rw [hid, hnone] at hissued
  cases hissued

theorem Fresh.unsent (h : Fresh host d queueId) : d.issued.get? queueId = none := by
  rw [Option.eq_none_iff_forall_ne_some]
  intro message hissued
  exact (h.others queueId message hissued).1 rfl

theorem send_sends (d : Exchange) (contactId : String) (item : QueueItem)
    (parent : Option ActivityToken) (q : String) :
    (d.send contactId item parent).sends.get? q =
      if item.queueId = q then
        some
          { contactId := contactId
            item := item
            stage :=
              match parent with
              | none => .fallingBack
              | some token => .begun token }
      else d.sends.get? q :=
  Dict.get?_set _ _ _ _

theorem send_issued (d : Exchange) (contactId : String) (item : QueueItem)
    (parent : Option ActivityToken) (q : String) :
    (d.send contactId item parent).issued.get? q =
      if item.queueId = q then some (contactId, item) else d.issued.get? q :=
  Dict.get?_set _ _ _ _

/-- The message of a new send. -/
theorem MessageInv.begins (h : Inv p table d) (hfresh : Fresh p.host d item.queueId)
    (contactId : String) (parent : Option ActivityToken) :
    MessageInv p table (d.send contactId item parent) item.queueId contactId item := by
  have hnone := hfresh.unsent
  have hrecorded := h.shape.unsent hnone
  have hcount : ∀ kind, rootCount (d.send contactId item parent) item.queueId kind = 0 := by
    intro kind
    refine List.countP_eq_zero.mpr fun root hmem => ?_
    rw [Bool.and_eq_true, decide_eq_true_eq]
    rintro ⟨hid, -⟩
    apply h.shape.roots root hmem
    rw [hid]
    exact hnone
  have hstage : ∀ later, (d.send contactId item parent).sends.get? item.queueId = some later →
      later.stage.presents = none ∧ later.stage ≠ .taken ∧
        ∀ leaseId, later.stage ≠ .prepared leaseId := by
    intro later hget
    rw [send_sends, if_pos rfl] at hget
    cases hget
    cases parent
    · exact ⟨rfl, (fun hne => nomatch hne), (fun _ hne => nomatch hne)⟩
    · exact ⟨rfl, (fun hne => nomatch hne), (fun _ hne => nomatch hne)⟩
  have hmay : ∀ leaseId, ¬ MayTransfer (d.send contactId item parent) item.queueId leaseId := by
    rintro leaseId (⟨later, hget, hpresents⟩ | ⟨contact, copy, hcopy, hid, -, -⟩)
    · rw [(hstage later hget).1] at hpresents
      cases hpresents
    · have hold : Unchecked d contact copy := hcopy.of_eq (by rfl) (by rfl)
      exact not_recorded_of_unchecked hrecorded hid hold
  constructor
  · refine ⟨.none hfresh.unheard.1 hfresh.unqueued.1 (hcount _),
      .none hfresh.unheard.2 hfresh.unqueued.2 (hcount _), ?_, ?_, ?_⟩
    · intro _
      exact ⟨hfresh.unheard.1, fun leaseId hyes => absurd hyes (hmay leaseId)⟩
    · intro a b ha
      exact absurd ha (hmay a)
    · intro a ha
      exact absurd ha (hmay a)
  · have hreported : item.queueId ∉ d.reported := fun hmem => h.shape.reported _ hmem hnone
    refine ⟨?_, ?_, ?_, ?_, ?_, ?_, ?_⟩
    · intro later _ _
      constructor
      · rintro ⟨contact, copy, hwaits, hid⟩
        have hold : Waits d contact copy := hwaits.of_eq (by rfl) (by rfl)
        exact hrecorded ⟨contact, copy, hold, hid⟩
      · rintro (hreceipt | hreceipt)
        · exact hreceipt hfresh.unheard.1
        · exact hreceipt hfresh.unheard.2
    · intro later leaseId hget heq
      exact absurd heq ((hstage later hget).2.2 leaseId)
    · intro later hget heq
      exact absurd heq (hstage later hget).2.1
    · intro hmem
      exact absurd hmem hreported
    · intro hmem
      exact absurd hmem hreported
    · intro held hpass hmem
      exact absurd hnone (h.shape.delivered held hpass _ hmem)
    · intro held first rest hpass _ hrest hid _
      rcases h.first hpass hrest with ⟨_, hissued, -⟩
      rw [hid, hnone] at hissued
      cases hissued

theorem Inv.begins (h : Inv p table d) (hfresh : Fresh p.host d item.queueId)
    (hplain : Plain item) (contactId : String) (parent : Option ActivityToken) :
    Inv p table (d.send contactId item parent) := by
  have hnone := hfresh.unsent
  have hissued : ∀ q m, (d.send contactId item parent).issued.get? q = some m →
      q = item.queueId ∧ m = (contactId, item) ∨ q ≠ item.queueId ∧ d.issued.get? q = some m := by
    intro q m hm
    by_cases hq : q = item.queueId
    · rw [send_issued, if_pos hq.symm] at hm
      exact .inl ⟨hq, (Option.some.inj hm).symm⟩
    · rw [send_issued, if_neg (Ne.symm hq)] at hm
      exact .inr ⟨hq, hm⟩
  have hkept : ∀ q, d.issued.get? q ≠ none →
      (d.send contactId item parent).issued.get? q = d.issued.get? q := by
    intro q hq
    rw [send_issued, if_neg]
    intro heq
    rw [← heq] at hq
    exact hq hnone
  have hsome : ∀ q, d.issued.get? q ≠ none →
      (d.send contactId item parent).issued.get? q ≠ none := by
    intro q hq
    rw [hkept q hq]
    exact hq
  refine ⟨⟨h.shape.reach, ?_, ?_, ?_, ?_, ?_, ?_, ?_⟩, ?_, h.order⟩
  · intro q m hm
    rcases hissued q m hm with ⟨rfl, rfl⟩ | ⟨-, hold⟩
    · exact ⟨rfl, hplain, hfresh.named, hfresh.seen, hfresh.apart⟩
    · rcases h.shape.message q m hold with ⟨hid, hwas, hknown⟩
      exact ⟨hid, hwas, hknown.mono le_rfl⟩
  · intro a m b n ha hb hne
    rcases hissued a m ha with ⟨rfl, -⟩ | ⟨-, ha⟩
    · rcases hissued b n hb with ⟨rfl, -⟩ | ⟨-, hb⟩
      · exact absurd rfl hne
      · exact ⟨(hfresh.others b n hb).2.1, (hfresh.others b n hb).2.2.2⟩
    · rcases hissued b n hb with ⟨rfl, -⟩ | ⟨-, hb⟩
      · exact ⟨(hfresh.others a m ha).2.2.1.symm, (hfresh.others a m ha).2.2.2.symm⟩
      · exact h.shape.apart a m b n ha hb hne
  · intro q later hget
    by_cases hq : q = item.queueId
    · rw [send_sends, if_pos hq.symm] at hget
      cases hget
      rw [send_issued, if_pos hq.symm]
      exact ⟨hq.symm, rfl⟩
    · rw [send_sends, if_neg (Ne.symm hq)] at hget
      rcases h.shape.sends q later hget with ⟨hid, hold⟩
      refine ⟨hid, ?_⟩
      rw [hkept q (by rw [hold]; exact Option.some_ne_none _)]
      exact hold
  · intro contact copy hwaits
    have hold : Waits d contact copy := hwaits.of_eq (by rfl) (by rfl)
    rcases h.shape.waits contact copy hold with ⟨original, horiginal, hcopy⟩
    refine ⟨original, ?_, hcopy⟩
    rw [hkept _ (by rw [horiginal]; exact Option.some_ne_none _)]
    exact horiginal
  · intro q hmem
    exact hsome q (h.shape.reported q hmem)
  · intro held hpass q hmem
    exact hsome q (h.shape.delivered held hpass q hmem)
  · intro root hmem
    exact hsome _ (h.shape.roots root hmem)
  · intro q contact original hm
    rcases hissued q _ hm with ⟨rfl, heq⟩ | ⟨hq, hold⟩
    · cases heq
      exact .begins h hfresh contactId parent
    · have haside : Aside p.host q d (d.send contactId item parent) := by
        refine ⟨?_, fun c i _ hw => hw.of_eq (by rfl) (by rfl),
          fun c i _ hu => hu.of_eq (by rfl) (by rfl), fun hmem => hmem, .inr, .of_eq rfl⟩
        intro later hget
        rwa [send_sends, if_neg (Ne.symm hq)] at hget
      exact (h.message q contact original hold).aside haside (.of_eq rfl rfl)

/-- The end of a process takes its send away. -/
theorem Inv.endSend (h : Inv p table d) (queueId : String) :
    Inv p table { d with sends := d.sends.pop queueId } := by
  have hsends : ∀ q later, (d.sends.pop queueId).get? q = some later →
      d.sends.get? q = some later := by
    intro q later hget
    rw [Dict.get?_pop_eq_some_iff] at hget
    exact hget.2
  have haside : ∀ q, Aside p.host q d { d with sends := d.sends.pop queueId } := fun q =>
    ⟨hsends q, fun c i _ hw => hw.of_eq (by rfl) (by rfl),
      fun c i _ hu => hu.of_eq (by rfl) (by rfl), fun hmem => hmem, .inr, .of_eq rfl⟩
  refine ⟨?_, ?_, h.order⟩
  · refine h.shape.keeps h.shape.reach le_rfl (by rfl) ?_ ?_ ?_ ?_ ?_
    · intro q later hget
      exact ⟨later, hsends q later hget, rfl, rfl⟩
    · intro contact copy hwaits
      exact .inl (hwaits.of_eq (by rfl) (by rfl))
    · intro q hmem
      exact .inl hmem
    · exact h.shape.delivered
    · intro root hmem
      exact .inl hmem
  · intro q contact original hm
    exact (h.message q contact original hm).aside (haside q) (.of_eq rfl rfl)

/-- Other calls of the coordinator. -/
theorem Inv.coordinator {e : Event} (h : Inv p table d) (hmeets : MeetsReceipts p.host d e.time)
    (hknown : e.op.Known p.host d.world.state.uuidsDrawn)
    (hforeign : ∀ q m, d.issued.get? q = some m →
      ¬ e.op.newId p.host d.world.state.uuidsDrawn q ∧
        ¬ e.op.newId p.host d.world.state.uuidsDrawn (ingressOf p.host q)) :
    Inv p table { d with world := d.world.after p.host e.op e.time } := by
  have hstep : (Maintenance.coordinator p.host).step d.world e
      (d.world.after p.host e.op e.time) := ⟨hmeets.1, hknown, rfl⟩
  refine ⟨?_, ?_, h.order⟩
  · refine h.shape.keeps (h.shape.reach.step hstep) (step_uuidsDrawn h.shape.reach hstep) (by rfl)
      ?_ ?_ ?_ ?_ ?_
    · intro q later hget
      exact ⟨later, hget, rfl, rfl⟩
    · intro contact copy hwaits
      exact .inl (hwaits.of_eq (by rfl) (by rfl))
    · intro q hmem
      exact .inl hmem
    · exact h.shape.delivered
    · intro root hmem
      exact .inl hmem
  · intro q contact original hm
    refine (h.message q contact original hm).aside ?_ ?_
    · exact ⟨fun _ hget => hget, fun c i _ hw => hw.of_eq (by rfl) (by rfl),
        fun c i _ hu => hu.of_eq (by rfl) (by rfl), fun hmem => hmem, .inr, .of_eq rfl⟩
    · exact Calm.of_step h.shape.reach hstep (hmeets.meets hm) (hforeign q _ hm).1
        (hforeign q _ hm).2 fun _ => rfl

/-! ## The coordinator in the events of a send -/

theorem acquire_world {activityId : String} (h : d.acquire p sending activityId t = some d') :
    ∃ parent, d'.world = d.world.after p.host (.acquireActivity "manager_handoff" activityId
      sending.contactId (some parent) leaseTtlSeconds) t := by
  unfold Exchange.acquire at h
  split at h
  · simp only at h
    split at h
    · cases h
      exact ⟨_, rfl⟩
    · cases h
      exact ⟨_, rfl⟩
  · cases h

theorem transfer_world (h : d.transfer p sending t = some d') :
    ∃ leaseId, d'.world = d.world.after p.host (transferOp sending.contactId
      (lineageContext p sending.item) leaseId sending.item.queueId) t := by
  unfold Exchange.transfer at h
  simp only at h
  split at h
  · split at h
    · cases h
      exact ⟨_, rfl⟩
    · cases h
      exact ⟨_, rfl⟩
  · split at h
    · cases h
      exact ⟨_, rfl⟩
    · cases h
      exact ⟨_, rfl⟩
  · cases h

theorem release_world (h : d.release p sending t = some d') :
    ∃ leaseId, d'.world = d.world.after p.host (.release leaseId) t := by
  unfold Exchange.release at h
  split at h
  · cases h
    exact ⟨_, rfl⟩
  · cases h

theorem prepare_world (h : d.prepare p sending = some d') : d'.world = d.world := by
  unfold Exchange.prepare at h
  split at h
  · split at h
    · cases h
      rfl
    · cases h
      rfl
  · cases h

theorem retract_world (h : d.retract sending = some d') : d'.world = d.world := by
  unfold Exchange.retract at h
  split at h
  · cases h
    rfl
  · cases h

theorem settle_world (h : d.settle sending = some d') : d'.world = d.world := by
  unfold Exchange.settle at h
  split at h
  · cases h
    rfl
  · cases h

theorem fallBack_world (h : d.fallBack sending = some d') : d'.world = d.world := by
  unfold Exchange.fallBack at h
  split at h
  · split at h
    · cases h
      rfl
    · cases h
      rfl
  · cases h

theorem raises_world : (d.raises sending).world = d.world := by
  unfold Exchange.raises
  cases sending.stage <;> rfl

/-! ## Every event -/

theorem inv_init (h : (exchange p table).init d) : Inv p table d := by
  rcases h with ⟨hreach, hqueue, hsends, hpass, hissued, hreported, hroots⟩
  have hnone : ∀ q, d.issued.get? q = none := by
    intro q
    rw [hissued]
    exact Dict.get?_empty q
  refine ⟨⟨hreach, ?_, ?_, ?_, ?_, ?_, ?_, ?_⟩, ?_, ?_⟩
  · intro q m hm
    rw [hnone] at hm
    cases hm
  · intro a m b n ha
    rw [hnone] at ha
    cases ha
  · intro q later hget
    rw [hsends, Dict.get?_empty] at hget
    cases hget
  · rintro contact copy (hmem | ⟨pass, hsome, -⟩)
    · rw [hqueue] at hmem
      cases hmem
    · rw [hpass] at hsome
      cases hsome
  · intro q hmem
    rw [hreported] at hmem
    cases hmem
  · intro pass hsome
    rw [hpass] at hsome
    cases hsome
  · intro root hmem
    rw [hroots] at hmem
    cases hmem
  · intro q contact original hm
    rw [hnone] at hm
    cases hm
  · intro pass hsome
    rw [hpass] at hsome
    cases hsome

/-- Every event keeps the invariant. -/
theorem inv_step (h : Inv p table d) (hstep : (exchange p table).step d e d') :
    Inv p table d' := by
  rcases hstep with ⟨hallowed, hnext⟩
  cases e <;> simp only [Exchange.next, Option.bind_eq_some_iff, Option.map_eq_some_iff,
    Option.some.injEq] at hnext
  case send contactId item parent =>
    subst hnext
    exact h.begins hallowed.1 hallowed.2 contactId parent
  case acquire q activityId time =>
    rcases hnext with ⟨sending, hget, hnext⟩
    rcases acquire_world hnext with ⟨parent, hworld⟩
    rcases h.shape.sends q sending hget with ⟨rfl, hissued⟩
    exact h.send_call hget (acquire_sendStep hnext) hallowed hworld trivial
      (fun _ hfalse => False.elim hfalse) fun hown =>
        hown.acquire hget h.shape.reach (hallowed.meets hissued) hnext
  case prepare q =>
    rcases hnext with ⟨sending, hget, hnext⟩
    rcases h.shape.sends q sending hget with ⟨rfl, hissued⟩
    exact h.send_rest hget (prepare_sendStep hnext) (prepare_world hnext) fun hown =>
      hown.prepare hget hnext
  case transfer q time =>
    rcases hnext with ⟨sending, hget, hnext⟩
    rcases transfer_world hnext with ⟨leaseId, hworld⟩
    rcases h.shape.sends q sending hget with ⟨rfl, hissued⟩
    have hknown := (h.shape.message _ _ hissued).2.2
    refine h.send_call hget (transfer_sendStep hnext) hallowed hworld hknown.seen ?_ fun hown =>
      hown.transfer hget h.shape.reach hknown (hallowed.meets hissued) rfl rfl hnext
    intro id hid
    rw [transferOp, Op.newId, orElse, if_neg hknown.named] at hid
    exact hid
  case retract q =>
    rcases hnext with ⟨sending, hget, hnext⟩
    rcases h.shape.sends q sending hget with ⟨rfl, hissued⟩
    exact h.send_rest hget (retract_sendStep hnext) (retract_world hnext) fun hown =>
      hown.retract hget hnext
  case release q time =>
    rcases hnext with ⟨sending, hget, hnext⟩
    rcases release_world hnext with ⟨leaseId, hworld⟩
    rcases h.shape.sends q sending hget with ⟨rfl, hissued⟩
    exact h.send_call hget (release_sendStep hnext) hallowed hworld trivial
      (fun _ hfalse => False.elim hfalse) fun hown =>
        hown.release hget h.shape.reach (hallowed.meets hissued) hnext
  case settle q =>
    rcases hnext with ⟨sending, hget, hnext⟩
    rcases h.shape.sends q sending hget with ⟨rfl, hissued⟩
    exact h.send_rest hget (settle_sendStep hnext) (settle_world hnext) fun hown =>
      hown.settle hget hnext
  case fallBack q =>
    rcases hnext with ⟨sending, hget, hnext⟩
    rcases h.shape.sends q sending hget with ⟨rfl, hissued⟩
    exact h.send_rest hget (fallBack_sendStep hnext) (fallBack_world hnext) fun hown =>
      hown.fallBack hget (h.shape.message _ _ hissued).2.1 hnext
  case raises q =>
    rcases hnext with ⟨sending, hget, rfl⟩
    rcases h.shape.sends q sending hget with ⟨rfl, hissued⟩
    exact h.send_rest hget raises_sendStep raises_world fun hown => hown.raises hget
  case endSend q =>
    subst hnext
    exact h.endSend q
  case passBegin => exact h.passBegin hnext
  case passContact =>
    rcases hnext with ⟨pass, hpass, hnext⟩
    exact h.passContact hpass hnext
  case passResume time =>
    rcases hnext with ⟨pass, hpass, hnext⟩
    exact h.passResume hallowed hpass hnext
  case passSettle =>
    rcases hnext with ⟨pass, hpass, hnext⟩
    exact h.passSettle hpass hnext
  case passIngress time =>
    rcases hnext with ⟨pass, hpass, hnext⟩
    exact h.passIngress hallowed hpass hnext
  case passBreak =>
    rcases hnext with ⟨pass, hpass, rfl⟩
    exact h.passBreak hpass
  case passEnd =>
    rcases hnext with ⟨pass, hpass, hnext⟩
    exact h.passEnd hpass hnext
  case endPass =>
    subst hnext
    exact h.endPass
  case coordinator e =>
    subst hnext
    exact h.coordinator hallowed.1 hallowed.2.1 hallowed.2.2

/-- Every reachable state of an exchange keeps the invariant. -/
theorem reachable_inv (h : (exchange p table).Reachable d) : Inv p table d :=
  h.invariant (fun _ hinit => inv_init hinit) fun _ _ _ _ hinv hstep => inv_step hinv hstep

/-! ## Once -/

/-- How often a message became a root. -/
def timesRooted (d : Exchange) (queueId : String) : Nat :=
  rootCount d queueId .continuation + rootCount d queueId .ingress

theorem Accounted.count {receipt : Option Receipt} {queued : Prop} {count : Nat}
    {received : Seconds → Receipt} (h : Accounted receipt queued count received) :
    receipt = .none ∧ count = 0 ∨ receipt ≠ .none ∧ count = 1 := by
  cases h with
  | none hreceipt _ hcount => exact .inl ⟨hreceipt, hcount⟩
  | one since hreceipt hcount =>
      right
      rw [hreceipt]
      exact ⟨Option.some_ne_none _, hcount⟩

/-- A message has one root when a table has it, and none otherwise. -/
theorem Custody.timesRooted (h : Custody p table d queueId contactId item) :
    Rooted p.host d queueId ∧ timesRooted d queueId = 1 ∨
      ¬ Rooted p.host d queueId ∧ timesRooted d queueId = 0 := by
  unfold Messages.timesRooted
  rcases h.continued.count with ⟨hcontinued, hc⟩ | ⟨hcontinued, hc⟩
  · rcases h.ingressed.count with ⟨hingressed, hi⟩ | ⟨hingressed, hi⟩
    · right
      rw [hc, hi]
      refine ⟨?_, rfl⟩
      rintro (hsome | hsome)
      · exact hsome hcontinued
      · exact hsome hingressed
    · left
      rw [hc, hi]
      exact ⟨.inr hingressed, rfl⟩
  · rcases h.ingressed.count with ⟨hingressed, hi⟩ | ⟨hingressed, hi⟩
    · left
      rw [hc, hi]
      exact ⟨.inl hcontinued, rfl⟩
    · -- The two tables never both have it.
      exact absurd (h.goes (.accepted hingressed)).1 hcontinued

/-! ## In order -/

/-- The queue of a recipient. -/
def queueOf (d : Exchange) (contactId : String) : List QueueItem :=
  (d.queue.get? contactId).getD []

/-- What stays in the queue of a recipient stays in order, and what is new comes last. -/
def InOrder (d d' : Exchange) : Prop :=
  ∀ contactId, ∃ kept added, kept.Sublist (queueOf d contactId) ∧
    queueOf d' contactId = kept ++ added

theorem QueueStep.inOrder (h : QueueStep d.queue d'.queue) : InOrder d d' := by
  intro contact
  unfold queueOf
  generalize d'.queue = after at h
  cases h with
  | same => exact ⟨_, [], .refl _, (List.append_nil _).symm⟩
  | append contactId item _ happend =>
      unfold appendManagerQueueItem at happend
      split at happend
      · split at happend
        · cases happend
          exact ⟨_, [], .refl _, (List.append_nil _).symm⟩
        · cases happend
      split at happend
      · cases happend
      cases happend
      refine ⟨_, if contactId = contact then [item] else [], .refl _, ?_⟩
      rw [Dict.get?_set]
      by_cases hc : contactId = contact
      · rw [if_pos hc, if_pos hc, hc]
        rfl
      · rw [if_neg hc, if_neg hc, List.append_nil]
  | remove queueIds =>
      refine ⟨_, [], ?_, (List.append_nil _).symm⟩
      rw [removeManagerQueueIds, Dict.get?_filter, Dict.get?_mapValues]
      cases d.queue.get? contact with
      | none => exact .refl _
      | some items =>
          rw [Option.map_some, Option.filter_some]
          split
          · exact List.filter_sublist
          · exact List.nil_sublist _

/-- What a pass does to the queue file and to the roots on record. -/
structure PassStep (pass : Pass) (d d' : Exchange) : Prop where
  queue : QueueStep d.queue d'.queue
  roots : d'.roots = d.roots ∨ ∃ first rest adds kind, pass.rest = first :: rest ∧
    d'.roots = d.roots ++ rootAdded adds
      { queueId := first.queueId, contactId := pass.contactId, kind := kind }

theorem passContact_passStep (h : d.passContact pass = some d') : PassStep pass d d' := by
  unfold Exchange.passContact at h
  split at h
  · cases h
    exact ⟨.same, .inl rfl⟩
  · cases h

theorem passResume_passStep (h : d.passResume p pass t = some d') : PassStep pass d d' := by
  unfold Exchange.passResume at h
  split at h
  · cases h
  rename_i first rest hrest
  split at h
  · cases h
    exact ⟨.same, .inr ⟨first, rest, _, _, hrest, rfl⟩⟩
  · cases h

theorem passSettle_passStep (h : d.passSettle pass = some d') : PassStep pass d d' := by
  unfold Exchange.passSettle at h
  split at h
  · cases h
  split at h
  · cases h
    exact ⟨.same, .inl rfl⟩
  · cases h

theorem passIngress_passStep (h : d.passIngress p table pass t = some d') :
    PassStep pass d d' := by
  unfold Exchange.passIngress at h
  split at h
  · cases h
  rename_i first rest hrest
  split at h
  · cases h
    exact ⟨.same, .inr ⟨first, rest, _, _, hrest, rfl⟩⟩
  · cases h

theorem passEnd_passStep (h : d.passEnd pass = some d') : PassStep pass d d' := by
  unfold Exchange.passEnd at h
  split at h
  · cases h
    exact ⟨.remove _, .inl rfl⟩
  · cases h

/-- No event reorders the queue of a recipient. -/
theorem queue_order (hstep : (exchange p table).step d e d') : InOrder d d' := by
  apply QueueStep.inOrder
  rcases hstep with ⟨-, hnext⟩
  cases e <;> simp only [Exchange.next, Option.bind_eq_some_iff, Option.map_eq_some_iff,
    Option.some.injEq] at hnext
  case send => exact hnext ▸ .same
  case acquire =>
    rcases hnext with ⟨sending, -, hnext⟩
    exact (acquire_sendStep hnext).queue
  case prepare =>
    rcases hnext with ⟨sending, -, hnext⟩
    exact (prepare_sendStep hnext).queue
  case transfer =>
    rcases hnext with ⟨sending, -, hnext⟩
    exact (transfer_sendStep hnext).queue
  case retract =>
    rcases hnext with ⟨sending, -, hnext⟩
    exact (retract_sendStep (p := p) hnext).queue
  case release =>
    rcases hnext with ⟨sending, -, hnext⟩
    exact (release_sendStep hnext).queue
  case settle =>
    rcases hnext with ⟨sending, -, hnext⟩
    exact (settle_sendStep (p := p) hnext).queue
  case fallBack =>
    rcases hnext with ⟨sending, -, hnext⟩
    exact (fallBack_sendStep (p := p) hnext).queue
  case raises =>
    rcases hnext with ⟨sending, -, rfl⟩
    exact (raises_sendStep (p := p)).queue
  case endSend => exact hnext ▸ .same
  case passBegin =>
    unfold Exchange.passBegin at hnext
    split at hnext
    · cases hnext
    · cases hnext
      exact .same
  case passContact =>
    rcases hnext with ⟨pass, -, hnext⟩
    exact (passContact_passStep hnext).queue
  case passResume =>
    rcases hnext with ⟨pass, -, hnext⟩
    exact (passResume_passStep hnext).queue
  case passSettle =>
    rcases hnext with ⟨pass, -, hnext⟩
    exact (passSettle_passStep hnext).queue
  case passIngress =>
    rcases hnext with ⟨pass, -, hnext⟩
    exact (passIngress_passStep hnext).queue
  case passBreak =>
    rcases hnext with ⟨pass, -, rfl⟩
    exact .same
  case passEnd =>
    rcases hnext with ⟨pass, -, hnext⟩
    exact (passEnd_passStep hnext).queue
  case endPass => exact hnext ▸ .same
  case coordinator => exact hnext ▸ .same

/-! ## The law -/

/-- The events of a durable pass. -/
def ExchangeEvent.ofPass : ExchangeEvent → Bool
  | .passBegin | .passContact | .passResume _ | .passSettle | .passIngress _ => true
  | .passBreak | .passEnd | .endPass => true
  | _ => false

/-- Exactly once, and in the order of the queue. -/
structure ExchangeLaw (p : Platform) (table : CallTable) (d : Exchange) : Prop where
  /-- No message has two roots, of one kind or of two. -/
  once : ∀ queueId message, d.issued.get? queueId = some message → timesRooted d queueId ≤ 1
  /-- A message that was reported as accepted has its root or is in the queue file. -/
  accepted : ∀ queueId ∈ d.reported, timesRooted d queueId = 1 ∨ Stored d queueId
  /-- No event reorders the queue of a recipient. -/
  queue : ∀ e d', (exchange p table).step d e d' → InOrder d d'
  /-- When a pass queues a root for a message, every message before it in the list that
  the pass read for the recipient has its root. -/
  fifo : ∀ e d', (exchange p table).step d e d' → e.ofPass = true → ∀ added,
    d'.roots = d.roots ++ added → ∀ root ∈ added,
      ∃ pass items earlier later, d.pass = some pass ∧ (root.contactId, items) ∈ pass.read ∧
        items.map QueueItem.queueId = earlier ++ root.queueId :: later ∧
        ∀ queueId ∈ earlier, timesRooted d queueId = 1

theorem Inv.timesRooted (h : Inv p table d) (hissued : d.issued.get? queueId ≠ none) :
    Rooted p.host d queueId ∧ timesRooted d queueId = 1 ∨
      ¬ Rooted p.host d queueId ∧ timesRooted d queueId = 0 := by
  rcases Option.ne_none_iff_exists'.mp hissued with ⟨message, hmessage⟩
  exact (h.message queueId message.1 message.2 hmessage).custody.timesRooted

/-- What a pass queues comes after what it dealt with. -/
theorem PassStep.fifo (h : Inv p table d) (hpass : d.pass = some pass)
    (hstep : PassStep pass d d') {added : List MessageRoot} (hadded : d'.roots = d.roots ++ added)
    {root : MessageRoot} (hroot : root ∈ added) :
    ∃ held items earlier later, d.pass = some held ∧ (root.contactId, items) ∈ held.read ∧
      items.map QueueItem.queueId = earlier ++ root.queueId :: later ∧
      ∀ queueId ∈ earlier, timesRooted d queueId = 1 := by
  rcases hstep.roots with hsame | ⟨first, rest, adds, kind, hrest, hroots⟩
  · rw [hsame] at hadded
    rw [List.self_eq_append_right.mp hadded] at hroot
    cases hroot
  rw [hroots] at hadded
  rw [← List.append_cancel_left hadded] at hroot
  have heq : root = { queueId := first.queueId, contactId := pass.contactId, kind := kind } := by
    cases adds
    · cases hroot
    · exact List.mem_singleton.mp hroot
  have horder := h.order pass hpass
  rcases horder.order with ⟨-, hempty⟩ | ⟨items, dropped, hread, hids⟩
  · rw [hrest] at hempty
    cases hempty
  refine ⟨pass, items, pass.earlier.map QueueItem.queueId,
    rest.map QueueItem.queueId ++ dropped, hpass, ?_, ?_, ?_⟩
  · rw [heq]
    exact hread
  · rw [hids, hrest, heq, List.map_append, List.map_cons, List.append_assoc, List.cons_append]
  · intro q hmem
    rcases List.mem_map.mp hmem with ⟨i, hi, rfl⟩
    have hdelivered := horder.earlier i hi
    have hissued := h.shape.delivered pass hpass _ hdelivered
    rcases Option.ne_none_iff_exists'.mp hissued with ⟨message, hmessage⟩
    have hrooted := (h.message _ message.1 message.2 hmessage).standing.delivered pass hpass
      hdelivered
    rcases h.timesRooted hissued with ⟨-, hone⟩ | ⟨hnot, -⟩
    · exact hone
    · exact absurd hrooted hnot

/-- Exactly once and in order.  However sends, passes, expiring leases and ends of
processes are interleaved, a message has one root at most, of one kind only; one that was
reported as accepted has its root or is in the queue file; and a pass takes the messages
of a recipient in the order of the queue. -/
theorem exchange_law (hreach : (exchange p table).Reachable d) : ExchangeLaw p table d where
  once q message hissued := by
    rcases @Inv.timesRooted _ _ _ q (reachable_inv hreach)
      (by rw [hissued]; exact Option.some_ne_none _) with ⟨-, hcount⟩ | ⟨-, hcount⟩
    · omega
    · omega
  accepted q hmem := by
    have h := reachable_inv hreach
    rcases Option.ne_none_iff_exists'.mp (h.shape.reported q hmem) with ⟨message, hmessage⟩
    rcases (h.message q message.1 message.2 hmessage).standing.kept hmem with hrooted | hstored
    · left
      rcases h.timesRooted (h.shape.reported q hmem) with ⟨-, hone⟩ | ⟨hnot, -⟩
      · exact hone
      · exact absurd hrooted hnot
    · exact .inr hstored
  queue e d' hstep := queue_order hstep
  fifo e d' hstep hpassing added hadded root hroot := by
    have h := reachable_inv hreach
    have hnone : d'.roots = d.roots → False := by
      intro hsame
      rw [hsame] at hadded
      rw [List.self_eq_append_right.mp hadded] at hroot
      cases hroot
    rcases hstep with ⟨-, hnext⟩
    cases e <;> simp only [ExchangeEvent.ofPass, Bool.false_eq_true] at hpassing <;>
      simp only [Exchange.next, Option.bind_eq_some_iff, Option.map_eq_some_iff,
        Option.some.injEq] at hnext
    case passBegin =>
      unfold Exchange.passBegin at hnext
      split at hnext
      · cases hnext
      · cases hnext
        exact absurd rfl hnone
    case passContact =>
      rcases hnext with ⟨pass, hpass, hnext⟩
      exact (passContact_passStep hnext).fifo h hpass hadded hroot
    case passResume time =>
      rcases hnext with ⟨pass, hpass, hnext⟩
      exact (passResume_passStep hnext).fifo h hpass hadded hroot
    case passSettle =>
      rcases hnext with ⟨pass, hpass, hnext⟩
      exact (passSettle_passStep hnext).fifo h hpass hadded hroot
    case passIngress time =>
      rcases hnext with ⟨pass, hpass, hnext⟩
      exact (passIngress_passStep hnext).fifo h hpass hadded hroot
    case passBreak =>
      rcases hnext with ⟨pass, hpass, rfl⟩
      exact absurd rfl hnone
    case passEnd =>
      rcases hnext with ⟨pass, hpass, hnext⟩
      exact (passEnd_passStep hnext).fifo h hpass hadded hroot
    case endPass =>
      subst hnext
      exact absurd rfl hnone

/-! ## A message that is sent without a lineage -/

/-- A first message. -/
def greeting : QueueItem where
  queueId := "q1"
  fromContactId := "a"
  fromCarbonId := ""
  senderLabel := ""
  message := "hello"
  workCall := none
  reconcileOnly := false
  lineagePrepared := false
  lineageContext := ""
  lineageLeaseId := ""

/-- Before the first message. -/
def Exchange.opening : Exchange where
  world := .initial 0
  queue := .empty
  sends := .empty
  pass := none
  issued := .empty
  reported := []
  roots := []

def plainTable : CallTable where
  workCall _ := ⟨.blank, "", "", false, none⟩
  inbound _ := .blank

/-- The message is in the queue file. -/
def greeted : Exchange :=
  ((Exchange.opening.send "b" greeting none).next plainPlatform plainTable
    (.fallBack "q1")).getD .opening

theorem opening_fresh : Fresh plainPlatform.host .opening "q1" where
  named := by decide
  seen k hk := absurd (congrArg String.toList hk)
    (by simp [plainPlatform, countingHost, List.replicate_succ])
  apart := by decide
  others _ _ h := by cases h
  unheard := ⟨rfl, rfl⟩
  unqueued := ⟨(fun ⟨_, h, _⟩ => nomatch h), (fun ⟨_, h, _⟩ => nomatch h)⟩

theorem greeted_reachable : (exchange plainPlatform plainTable).Reachable greeted := by
  have hopening : (exchange plainPlatform plainTable).Reachable .opening :=
    .init ⟨.init ⟨0, rfl⟩, rfl, rfl, rfl, rfl, rfl, rfl⟩
  have hsent : (exchange plainPlatform plainTable).Reachable
      (Exchange.opening.send "b" greeting none) :=
    hopening.step (e := .send "b" greeting none) ⟨⟨opening_fresh, rfl, rfl⟩, rfl⟩
  refine hsent.step (e := .fallBack "q1") ⟨trivial, ?_⟩
  rfl

/-- It was reported as accepted and waits for a pass. -/
theorem exchange_law_greeted :
    ExchangeLaw plainPlatform plainTable greeted ∧ greeted.reported = ["q1"] ∧
      greeted.roots = [] :=
  ⟨exchange_law greeted_reachable, by decide, by decide⟩

end Messages
end Stemcell
