import Stemcell.Maintenance.Receipts

/-!
# Idempotent ingress

A source record may be delivered again and again.  While its receipt is retained,
`enqueue_ingress_root` takes every delivery for the first one, whatever became of the
root in the meantime.

Main results:

- Definition `addsIngressRoot`: the call queues a root for the source record.
- Theorem `ingress_idempotent`: over a run this happens once at most, the same text is
  accepted again, and another one is refused.
-/

namespace Stemcell
namespace Maintenance

open Lib

/-- The receipt of the source record is retained when the call comes. -/
def Recent (host : Host) (ingressId : String) (w : World) (e : Event) : Prop :=
  RetainedAt maxIngressReceipts ingressReceiptTtlSeconds w.state.ingressReceipts e.time
    (ingressQueueId host ingressId)

/-- The call delivers this source record and queues a root for it. -/
def addsIngressRoot (host : Host) (ingressId : String) (w : World) (e : Event) : Bool :=
  match e.op with
  | .enqueueIngressRoot _ _ id =>
      id = ingressId &&
        w.state.rootQueue.length < (w.after host e.op e.time).state.rootQueue.length
  | _ => false

/-- How many calls of a run queue a root for the source record. -/
def ingressRootsAdded (host : Host) (ingressId : String) : World → List Event → Nat :=
  TransitionSystem.occurrences (fun w e => w.after host e.op e.time)
    (addsIngressRoot host ingressId)

/-- The call accepts this text for the source record. -/
def AcceptsIngress (host : Host) (ingressId contactId context : String) (w : World) (e : Event) :
    Prop :=
  e.op = .enqueueIngressRoot contactId context ingressId ∧
    ∃ s', call host e.op w.state e.time = .ok (.flag true, s')

/-- No other text has the hash of the accepted one. -/
def NoCollision (host : Host) (contactId context : String) : Prop :=
  ∀ text, host.sha256 text = host.sha256 (contactId ++ "\x1f" ++ context) →
    text = contactId ++ "\x1f" ++ context

/-- What a delivery of the source record is answered at time `t`: the accepted text
again, any other one with a conflict that stores nothing. -/
structure AnswersIngress (host : Host) (ingressId contactId context : String) (w : World)
    (t : Seconds) : Prop where
  same : call host (.enqueueIngressRoot contactId context ingressId) w.state t =
    .ok (.flag true, prune w.state t)
  other : ∀ contact text, contact ≠ contactId ∨ text ≠ context →
    call host (.enqueueIngressRoot contact text ingressId) w.state t = .error .ingressConflict ∧
      (w.after host (.enqueueIngressRoot contact text ingressId) t).state = w.state

/-- The ingress law of a run from `w` to `w'`. -/
structure IngressIdempotent (host : Host) (ingressId : String) (w : World) (es : List Event)
    (w' : World) : Prop where
  once : ingressRootsAdded host ingressId w es ≤ 1
  answers : ∀ contactId context, NoCollision host contactId context →
    ∀ v before e later, (coordinator host).Run w before v → es = before ++ e :: later →
      AcceptsIngress host ingressId contactId context v e →
        ∀ t, Recent host ingressId w' ⟨.read, t⟩ →
          AnswersIngress host ingressId contactId context w' t

variable {host : Host} {ingressId contactId context : String} {w w' : World} {e : Event}
  {receipt : Receipt} {op : Op} {now : Seconds} {s s' : State}

/-- A retained receipt survives a mutation. -/
theorem receipt_mutation {queueId : String} {r : Reply}
    (h : mutation host op s now = .ok (r, s'))
    (hget : s.ingressReceipts.get? queueId = some receipt) :
    s'.ingressReceipts.get? queueId = some receipt := by
  by_cases hop : ∃ contact text ingress, op = .enqueueIngressRoot contact text ingress
  · rcases hop with ⟨contact, text, ingress, rfl⟩
    rcases Mutation.reply_ok h with ⟨value, hvalue, -⟩
    rcases (enqueueIngressRoot_cases hvalue).2 with
      ⟨-, -, -, -, hsame⟩ | ⟨item, -, -, -, -, hsame⟩ | ⟨hnew, -, hreceipts⟩
    · rw [hsame]
      exact hget
    · -- The receipt that is written belongs to another id, or there was none.
      by_cases hid : ingressQueueId host ingress = queueId
      · subst hid
        unfold enqueueIngressRoot at hvalue
        split at hvalue
        · cases hvalue
        simp only [hget] at hvalue
        split at hvalue
        · cases hvalue
        · rcases Prod.mk.inj (Except.ok.inj hvalue) with ⟨-, hs⟩
          rw [← hs]
          exact hget
      · rw [hsame]
        exact (Dict.get?_set_of_ne _ _ hid).trans hget
    · by_cases hid : ingressQueueId host ingress = queueId
      · subst hid
        exact absurd (.inl ⟨receipt, hget⟩) hnew
      · rw [hreceipts, Dict.get?_set_of_ne _ _ hid]
        exact hget
  · have hsame := ingressReceipts_same h fun contact text ingress heq =>
      hop ⟨contact, text, ingress, heq⟩
    rw [hsame]
    exact hget

/-- A retained receipt survives a call. -/
theorem receipt_step (hrecent : Recent host ingressId w e)
    (hget : w.state.ingressReceipts.get? (ingressQueueId host ingressId) = some receipt) :
    (w.after host e.op e.time).state.ingressReceipts.get? (ingressQueueId host ingressId) =
      some receipt := by
  cases hcall : call host e.op w.state e.time with
  | error err =>
      rw [World.after_error hcall]
      exact hget
  | ok result =>
      rw [@World.after_ok _ _ _ _ result.1 result.2 hcall]
      refine receipt_mutation hcall ?_
      rw [prune_ingressReceipts]
      exact pruneReceipts_retainedAt hget hrecent

/-- A delivery of a source record whose receipt is in the pruned document. -/
theorem call_receipted {contact text : String} {t : Seconds} (hid : ingressId ≠ "")
    (hget : (prune s t).ingressReceipts.get? (ingressQueueId host ingressId) = some receipt) :
    call host (.enqueueIngressRoot contact text ingressId) s t =
      if receipt.fingerprint ≠ fingerprint host contact text ∨ receipt.contactId ≠ contact then
        .error .ingressConflict
      else .ok (.flag true, prune s t) := by
  rw [call, transaction, mutation, Mutation.reply, enqueueIngressRoot, if_neg hid]
  simp only [hget]
  split <;> rename_i h
  · split at h <;> simp_all
  · split at h <;> simp_all

theorem pruned_receipt {t : Seconds} (hrecent : Recent host ingressId w ⟨op, t⟩)
    (hget : w.state.ingressReceipts.get? (ingressQueueId host ingressId) = some receipt) :
    (prune w.state t).ingressReceipts.get? (ingressQueueId host ingressId) = some receipt := by
  rw [prune_ingressReceipts]
  exact pruneReceipts_retainedAt hget hrecent

theorem length_prune (s : State) (t : Seconds) :
    (prune s t).rootQueue.length = s.rootQueue.length := by
  rw [prune_rootQueue, List.length_map]

/-- A delivery of a source record with a retained receipt leaves the queue alone. -/
theorem receipt_adds (hrecent : Recent host ingressId w e)
    (hget : w.state.ingressReceipts.get? (ingressQueueId host ingressId) = some receipt) :
    addsIngressRoot host ingressId w e = false := by
  unfold addsIngressRoot
  split <;> rename_i hop
  swap
  · rfl
  rename_i contact text id
  rw [Bool.and_eq_false_iff]
  by_cases hsame : id = ingressId
  · right
    subst hsame
    refine decide_eq_false ?_
    rw [hop]
    by_cases hid : id = ""
    · have hcall : call host (.enqueueIngressRoot contact text id) w.state e.time =
          .error .ingressIdRequired := by
        rw [call, transaction, mutation, Mutation.reply, enqueueIngressRoot, if_pos hid]
      rw [World.after_error hcall]
      exact lt_irrefl _
    have hpruned : (prune w.state e.time).ingressReceipts.get? (ingressQueueId host id) =
        some receipt := pruned_receipt hrecent hget
    have hcall := @call_receipted host id receipt w.state contact text e.time hid hpruned
    split at hcall
    · rw [World.after_error hcall]
      exact lt_irrefl _
    · rw [World.after_ok hcall]
      simp only [length_prune]
      exact lt_irrefl _
  · exact .inl (decide_eq_false hsame)

/-- A delivery that is accepted leaves a receipt of its text. -/
theorem accepted_receipt (h : AcceptsIngress host ingressId contactId context w e) :
    ∃ since, (w.after host e.op e.time).state.ingressReceipts.get?
      (ingressQueueId host ingressId) =
        some { contactId := contactId
               fingerprint := fingerprint host contactId context
               acceptedAt := since } := by
  rcases h with ⟨hop, s', hcall⟩
  rw [hop] at hcall
  rw [hop, World.after_ok hcall]
  rcases Mutation.reply_ok hcall with ⟨value, hvalue, -⟩
  rcases (enqueueIngressRoot_cases hvalue).2 with
    ⟨receipt, hget, hcontact, hprint, hsame⟩ | ⟨item, -, -, -, -, hsame⟩ | ⟨-, -, hreceipts⟩
  · refine ⟨receipt.acceptedAt, ?_⟩
    rw [hsame, hget, ← hprint, ← hcontact]
  · refine ⟨item.enqueuedAt, ?_⟩
    rw [hsame]
    exact Dict.get?_set_self _ _ _
  · refine ⟨e.time, ?_⟩
    rw [hreceipts]
    exact Dict.get?_set_self _ _ _

/-- A call that queues a root for the source record accepts its text. -/
theorem adds_accepts (h : addsIngressRoot host ingressId w e = true) :
    ∃ contactId context, AcceptsIngress host ingressId contactId context w e := by
  unfold addsIngressRoot at h
  split at h <;> rename_i hop
  swap
  · cases h
  rename_i contact text id
  rw [Bool.and_eq_true, decide_eq_true_eq, decide_eq_true_eq] at h
  rcases h with ⟨rfl, hlonger⟩
  refine ⟨contact, text, hop, ?_⟩
  rw [hop] at hlonger
  cases hcall : call host (.enqueueIngressRoot contact text id) w.state e.time with
  | error err =>
      rw [World.after_error hcall] at hlonger
      exact absurd hlonger (lt_irrefl _)
  | ok result =>
      rcases Mutation.reply_ok hcall with ⟨value, hvalue, hreply⟩
      have hvalue' := (enqueueIngressRoot_cases hvalue).1
      subst hvalue'
      refine ⟨result.2, ?_⟩
      rw [← hreply, hop]
      exact hcall

/-! ## Runs -/

theorem step_after (h : (coordinator host).step w e w') : w' = w.after host e.op e.time :=
  h.2.2

theorem run_play {es : List Event} (h : (coordinator host).Run w es w') :
    w' = w.play host es := by
  induction h with
  | nil => rfl
  | cons hstep _ ih =>
      rw [ih, step_after hstep]
      rfl

/-- A receipt that is retained all along is still there. -/
theorem receipt_run {es : List Event}
    (hrun : ((coordinator host).restrict (Recent host ingressId)).Run w es w')
    (hget : w.state.ingressReceipts.get? (ingressQueueId host ingressId) = some receipt) :
    w'.state.ingressReceipts.get? (ingressQueueId host ingressId) = some receipt := by
  apply hrun.keeps _ hget
  intro v e v' hrecent hstep hv
  rw [step_after hstep]
  exact receipt_step hrecent hv

/-- Over a run a source record is queued once at most: the call that queues it leaves a
receipt. -/
theorem ingressRootsAdded_le {es : List Event}
    (hrun : ((coordinator host).restrict (Recent host ingressId)).Run w es w') :
    ingressRootsAdded host ingressId w es ≤ 1 := by
  apply @TransitionSystem.Run.occurrences_le_one _ _ _ _ _ _
    (fun v => ∃ receipt,
      v.state.ingressReceipts.get? (ingressQueueId host ingressId) = some receipt)
    _ _ _ _ _ _ _ hrun
  · intro v e v' hstep
    exact step_after hstep
  · intro v e v' _ hstep hadds
    rcases adds_accepts hadds with ⟨contactId, context, haccepts⟩
    rcases accepted_receipt haccepts with ⟨since, hreceipt⟩
    rw [step_after hstep]
    exact ⟨_, hreceipt⟩
  · intro v e v' hrecent hstep hmark
    rcases hmark with ⟨receipt, hget⟩
    rw [step_after hstep]
    exact ⟨receipt, receipt_step hrecent hget⟩
  · intro v e hrecent hmark
    rcases hmark with ⟨receipt, hget⟩
    exact receipt_adds hrecent hget

/-- The ingress law.  As long as the receipt of a source record is retained when a call
comes, the record is queued once at most, whatever happens to its root; the accepted text
is accepted again, and any other one is refused without a trace. -/
theorem ingress_idempotent {es : List Event}
    (hrun : ((coordinator host).restrict (Recent host ingressId)).Run w es w') :
    IngressIdempotent host ingressId w es w' where
  once := ingressRootsAdded_le hrun
  answers contactId context hsha v before e later hbefore hsplit haccepts t hrecent := by
    subst hsplit
    rcases hrun.split with ⟨v', hfirst, hrest⟩
    have hv : v' = v := (run_play hfirst.of_restrict).trans (run_play hbefore).symm
    subst hv
    have hid : ingressId ≠ "" := by
      rintro rfl
      rcases haccepts.2 with ⟨s', hcall⟩
      rw [haccepts.1, call, transaction, mutation, Mutation.reply, enqueueIngressRoot,
        if_pos rfl] at hcall
      cases hcall
    rcases accepted_receipt haccepts with ⟨since, hreceipt⟩
    cases hrest with
    | cons hstep hlater =>
        rw [← step_after hstep.2] at hreceipt
        have hpruned := pruned_receipt hrecent (receipt_run hlater hreceipt)
        constructor
        · rw [call_receipted hid hpruned, if_neg (by simp)]
        · intro contact text hother
          have hcall : call host (.enqueueIngressRoot contact text ingressId) w'.state t =
              .error .ingressConflict := by
            rw [call_receipted hid hpruned, if_pos]
            by_cases hcontact : contactId = contact
            · subst hcontact
              left
              intro hsame
              have htext := hsha (contactId ++ "\x1f" ++ text) hsame.symm
              rw [String.append_right_inj] at htext
              rcases hother with hne | hne
              · exact hne rfl
              · exact hne htext
            · exact .inr hcontact
          refine ⟨hcall, ?_⟩
          rw [World.after_error hcall]

/-! ## A second delivery -/

/-- One record is delivered twice. -/
def deliveredTwice : List Event :=
  [⟨.enqueueIngressRoot "c1" "hello" "m1", 0⟩, ⟨.enqueueIngressRoot "c1" "hello" "m1", 60⟩]

/-- The second delivery comes a minute later. -/
theorem ingress_idempotent_twice :
    IngressIdempotent countingHost "m1" (.initial 0) deliveredTwice
      ((World.initial 0).play countingHost deliveredTwice) := by
  refine ingress_idempotent (.cons ⟨?_, ?_, trivial, rfl⟩ (.cons ⟨?_, ?_, trivial, rfl⟩ (.nil _)))
  · unfold Recent
    decide +kernel
  · exact le_refl 0
  · unfold Recent
    decide +kernel
  · rw [World.after_now]
    decide

end Maintenance
end Stemcell
