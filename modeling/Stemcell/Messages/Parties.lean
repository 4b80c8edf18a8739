import Stemcell.Maintenance.Claims
import Stemcell.Maintenance.Tokens
import Stemcell.Messages.Queue

/-!
# What each party may still do with a message

The two deduplication tables of the coordinator do not know of each other.  A message
becomes one root because of what is left to its parties: whoever may still hand it over
as an ingress root does so only after the lease that could continue its lineage is gone.

Main results:

- Definition `MayTransfer`: someone may still present this lease for the message.
- Definition `GoesIngress`: the message is, or may still be, handed over as an ingress root.
- Theorems `continuationQuiet_step` and `ingressQuiet_step`: calls under other ids leave a
  message alone.
- Theorems `transfer_again`, `transfer_refused` and `transfer_accepted`, `ingress_again` and
  `ingress_accepted`: what the two calls do for it.
-/

namespace Stemcell
namespace Messages

open Lib Maintenance

/-! ## Runs -/

/-- The queue id of the ingress root of a message. -/
def ingressOf (host : Host) (queueId : String) : String :=
  ingressQueueId host (ingressIdOf queueId)

/-- The receipts of the messages are retained when a call comes at time `t`. -/
def Retained (host : Host) (d : Exchange) (t : Seconds) : Prop :=
  ∀ queueId message, d.issued.get? queueId = some message →
    RetainedAt maxContinuationReceipts continuationReceiptTtlSeconds
        d.world.state.continuationReceipts t queueId ∧
      RetainedAt maxIngressReceipts ingressReceiptTtlSeconds d.world.state.ingressReceipts t
        (ingressOf host queueId)

/-- A new queue id: `uuid4` and `sha256` do not collide. -/
structure Fresh (host : Host) (d : Exchange) (queueId : String) : Prop where
  named : queueId ≠ ""
  seen : Seen host d.world.state.uuidsDrawn queueId
  apart : queueId ≠ ingressOf host queueId
  others : ∀ other message, d.issued.get? other = some message →
    queueId ≠ other ∧ queueId ≠ ingressOf host other ∧ ingressOf host queueId ≠ other ∧
      ingressOf host queueId ≠ ingressOf host other
  unheard : d.world.state.continuationReceipts.get? queueId = none ∧
    d.world.state.ingressReceipts.get? (ingressOf host queueId) = none
  unqueued : ¬ Queued d.world.state queueId ∧ ¬ Queued d.world.state (ingressOf host queueId)

/-- A message as `send_manager_message` makes it. -/
structure Plain (item : QueueItem) : Prop where
  reconcileOnly : item.reconcileOnly = false
  lineagePrepared : item.lineagePrepared = false

/-- A call at time `t` meets retained receipts. -/
def MeetsReceipts (host : Host) (d : Exchange) (t : Seconds) : Prop :=
  d.world.now ≤ t ∧ Retained host d t

/-- When an event may happen. -/
def Allowed (host : Host) (d : Exchange) : ExchangeEvent → Prop
  | .send _ item _ => Fresh host d item.queueId ∧ Plain item
  | .acquire _ _ t => MeetsReceipts host d t
  | .transfer _ t => MeetsReceipts host d t
  | .release _ t => MeetsReceipts host d t
  | .passResume t => MeetsReceipts host d t
  | .passIngress t => MeetsReceipts host d t
  | .coordinator e =>
      MeetsReceipts host d e.time ∧ e.op.Known host d.world.state.uuidsDrawn ∧
        ∀ queueId message, d.issued.get? queueId = some message →
          ¬ e.op.newId host d.world.state.uuidsDrawn queueId ∧
            ¬ e.op.newId host d.world.state.uuidsDrawn (ingressOf host queueId)
  | _ => True

/-- Sends, passes, ends of processes and other calls of the coordinator, in any order. -/
def exchange (p : Platform) (table : CallTable) : TransitionSystem Exchange ExchangeEvent where
  init d :=
    (coordinator p.host).Reachable d.world ∧ d.queue = .empty ∧ d.sends = .empty ∧
      d.pass = none ∧ d.issued = .empty ∧ d.reported = [] ∧ d.roots = []
  step d e d' := Allowed p.host d e ∧ d.next p table e = some d'

/-! ## What is left to the parties -/

/-- The items a pass has still to deal with. -/
def Pass.waiting (pass : Pass) : List (String × QueueItem) :=
  pass.rest.map (fun item => (pass.contactId, item)) ++
    pass.later.flatMap fun entry => entry.2.map fun item => (entry.1, item)

/-- Those of them that have their lineage check before them. -/
def Pass.unresumed (pass : Pass) : List (String × QueueItem) :=
  (if pass.resumed then pass.rest.tail else pass.rest).map
      (fun item => (pass.contactId, item)) ++
    pass.later.flatMap fun entry => entry.2.map fun item => (entry.1, item)

/-- The lease that a send at this stage may still present. -/
def Stage.presents : Stage → Option String
  | .leased leaseId => some leaseId
  | .prepared leaseId => some leaseId
  | _ => none

/-- From this stage a send goes on to the queue file. -/
def Stage.fallsBack : Stage → Bool
  | .refused _ => true
  | .releasing _ => true
  | .fallingBack => true
  | _ => false

/-- At this stage the message is nowhere but in its send. -/
def Stage.unrecorded : Stage → Bool
  | .begun _ => true
  | .leased _ => true
  | _ => false

/-- The item is in the queue file or in the hands of the pass. -/
inductive Waits (d : Exchange) (contactId : String) (item : QueueItem) : Prop
  | stored (hmem : (contactId, item) ∈ d.queue.items)
  | read (pass : Pass) (hpass : d.pass = some pass) (hmem : (contactId, item) ∈ pass.waiting)

/-- The same, with the lineage check of the item to come. -/
inductive Unchecked (d : Exchange) (contactId : String) (item : QueueItem) : Prop
  | stored (hmem : (contactId, item) ∈ d.queue.items)
  | read (pass : Pass) (hpass : d.pass = some pass) (hmem : (contactId, item) ∈ pass.unresumed)

/-- The queue file has the message. -/
def Stored (d : Exchange) (queueId : String) : Prop :=
  ∃ contactId item, (contactId, item) ∈ d.queue.items ∧ item.queueId = queueId

/-- The queue file or the pass has the message. -/
def Recorded (d : Exchange) (queueId : String) : Prop :=
  ∃ contactId item, Waits d contactId item ∧ item.queueId = queueId

/-- Someone may still present this lease for the message. -/
inductive MayTransfer (d : Exchange) (queueId leaseId : String) : Prop
  | sender (sending : Sending) (hget : d.sends.get? queueId = some sending)
      (hstage : sending.stage.presents = some leaseId)
  | record (contactId : String) (item : QueueItem) (hitem : Unchecked d contactId item)
      (hid : item.queueId = queueId) (hprepared : item.lineagePrepared = true)
      (hlease : item.lineageLeaseId = leaseId)

/-- The lease was drawn and is gone: it will never be found again. -/
def LeaseGone (host : Host) (w : World) (leaseId : String) : Prop :=
  Drawn host w.state.uuidsDrawn leaseId ∧ w.state.leases.get? leaseId = none

/-- The message was, or may still be, handed over as an ingress root. -/
inductive GoesIngress (host : Host) (d : Exchange) (queueId : String) : Prop
  | accepted (h : d.world.state.ingressReceipts.get? (ingressOf host queueId) ≠ none)
  | record (contactId : String) (item : QueueItem) (hitem : Waits d contactId item)
      (hid : item.queueId = queueId) (hplain : item.reconcileOnly = false)
  | sender (sending : Sending) (hget : d.sends.get? queueId = some sending)
      (hstage : sending.stage.fallsBack = true)

/-- The message became a root. -/
def Rooted (host : Host) (d : Exchange) (queueId : String) : Prop :=
  d.world.state.continuationReceipts.get? queueId ≠ none ∨
    d.world.state.ingressReceipts.get? (ingressOf host queueId) ≠ none

/-- How often the message entered the root queue this way. -/
def rootCount (d : Exchange) (queueId : String) (kind : RootKind) : Nat :=
  d.roots.countP fun root => root.queueId = queueId && root.kind = kind

/-! ## Other calls of the coordinator -/

variable {p : Platform} {table : CallTable} {host : Host} {w w' : World} {e : Event}
  {queueId contactId context leaseId : String}

/-- A step of the coordinator leaves one root id and its receipt in a table alone. -/
structure ContinuationQuiet (queueId : String) (w w' : World) : Prop where
  receipt : w'.state.continuationReceipts.get? queueId =
    w.state.continuationReceipts.get? queueId
  queued : ¬ Queued w.state queueId → ¬ Queued w'.state queueId

structure IngressQuiet (host : Host) (queueId : String) (w w' : World) : Prop where
  receipt : w'.state.ingressReceipts.get? (ingressOf host queueId) =
    w.state.ingressReceipts.get? (ingressOf host queueId)
  queued : ¬ Queued w.state (ingressOf host queueId) → ¬ Queued w'.state (ingressOf host queueId)

/-- A lease that is gone stays gone. -/
theorem leaseGone_step (hreach : (coordinator host).Reachable w)
    (hstep : (coordinator host).step w e w') (h : LeaseGone host w leaseId) :
    LeaseGone host w' leaseId := by
  refine ⟨h.1.mono (step_uuidsDrawn hreach hstep), ?_⟩
  rcases step_cases hstep with hw' | ⟨r, s', hcall, hw'⟩
  · rw [hw']
    exact h.2
  rw [hw']
  have heffs := (reachable_wellFormed hreach).call_effects hstep.2.1 hcall
  have hkept : ∀ {op : Op} {s t : State}, Effects host op e.time s t →
      Drawn host s.uuidsDrawn leaseId ∧ s.leases.get? leaseId = none →
      Drawn host t.uuidsDrawn leaseId ∧ t.leases.get? leaseId = none := by
    intro op s t heffs hs
    refine heffs.invariant
      (I := fun u => Drawn host u.uuidsDrawn leaseId ∧ u.leases.get? leaseId = none) ?_ hs
    intro a b heff ha
    refine ⟨ha.1.mono heff.uuidsDrawn_le, ?_⟩
    rw [Option.eq_none_iff_forall_ne_some]
    intro lease hget
    rcases lease_effect heff _ lease ha.1 hget with ⟨old, hold, -⟩
    rw [ha.2] at hold
    cases hold
  exact (hkept heffs.2 (hkept heffs.1 h)).2

/-- A call under other ids leaves the continuation of a message alone. -/
theorem continuationQuiet_step (hreach : (coordinator host).Reachable w)
    (hstep : (coordinator host).step w e w')
    (hretained : RetainedAt maxContinuationReceipts continuationReceiptTtlSeconds
      w.state.continuationReceipts e.time queueId)
    (hid : ¬ e.op.newId host w.state.uuidsDrawn queueId) : ContinuationQuiet queueId w w' := by
  refine ⟨?_, queued_stays_out hreach hstep hid⟩
  cases hget : w.state.continuationReceipts.get? queueId with
  | some receipt =>
      rw [step_after hstep]
      exact continuationReceipt_step hretained hget
  | none =>
      rw [Option.eq_none_iff_forall_ne_some]
      intro receipt hnew
      rcases step_cases hstep with hw' | ⟨r, s', hcall, hw'⟩
      · rw [hw'] at hnew
        rw [hget] at hnew
        cases hnew
      rw [hw'] at hnew
      have hpruned : (prune w.state e.time).continuationReceipts.get? queueId = none := by
        rw [Option.eq_none_iff_forall_ne_some]
        intro old hold
        rw [prune_continuationReceipts] at hold
        rw [pruneReceipts_get? hold] at hget
        cases hget
      by_cases hop : ∃ contact text lease queue, e.op = .enqueueContinuation contact text lease queue
      · rcases hop with ⟨contact, text, lease, queue, hop⟩
        rw [hop] at hcall hid
        have hne : queueId ≠ continuationId host w.state queue := hid
        rcases continuation_call hcall with ⟨-, source, hover⟩ | ⟨accepted, -, hsame⟩
        · simp only [hover.receipts] at hnew
          rw [Dict.get?_set_of_ne _ _ hne.symm, hpruned] at hnew
          cases hnew
        · have hothers := hsame.others queueId hne
          simp only [hothers] at hnew
          rw [hpruned] at hnew
          cases hnew
      · have hreceipts : s'.continuationReceipts = (prune w.state e.time).continuationReceipts :=
          continuationReceipts_same hcall fun contact text lease queue heq =>
            hop ⟨contact, text, lease, queue, heq⟩
        simp only [hreceipts] at hnew
        rw [hpruned] at hnew
        cases hnew

/-- A call under other ids leaves the ingress root of a message alone. -/
theorem ingressQuiet_step (hreach : (coordinator host).Reachable w)
    (hstep : (coordinator host).step w e w')
    (hretained : RetainedAt maxIngressReceipts ingressReceiptTtlSeconds
      w.state.ingressReceipts e.time (ingressOf host queueId))
    (hid : ¬ e.op.newId host w.state.uuidsDrawn (ingressOf host queueId)) :
    IngressQuiet host queueId w w' := by
  refine ⟨?_, queued_stays_out hreach hstep hid⟩
  cases hget : w.state.ingressReceipts.get? (ingressOf host queueId) with
  | some receipt =>
      rw [step_after hstep]
      exact receipt_step hretained hget
  | none =>
      rw [Option.eq_none_iff_forall_ne_some]
      intro receipt hnew
      rcases step_cases hstep with hw' | ⟨r, s', hcall, hw'⟩
      · rw [hw', hget] at hnew
        cases hnew
      rw [hw'] at hnew
      have hingests : ¬ e.op.ingests host (ingressOf host queueId) := by
        intro hyes
        apply hid
        cases hop : e.op with
        | enqueueIngressRoot contact text ingress =>
            rw [hop] at hyes
            exact hyes
        | _ => simp [hop, Op.ingests] at hyes
      have hold := ingressReceipt_effects hingests
        ((reachable_wellFormed hreach).call_effects hstep.2.1 hcall).2 hnew
      rw [prune_ingressReceipts] at hold
      rw [pruneReceipts_get? hold] at hget
      cases hget

/-! ## The calls for a message -/

section OwnCalls

variable {t : Seconds} {since : Seconds}

/-- The receipt that a call leaves for this text. -/
def receiptOf (host : Host) (contactId context : String) (since : Seconds) : Receipt where
  contactId := contactId
  fingerprint := fingerprint host contactId context
  acceptedAt := since

theorem continuationId_self (hid : queueId ≠ "") (s : State) :
    continuationId host s queueId = queueId := by
  rw [continuationId, orElse, if_neg hid]

theorem addsContinuation_iff (hid : queueId ≠ "") :
    addsContinuation host queueId w ⟨transferOp contactId context leaseId queueId, t⟩ = true ↔
      w.state.rootQueue.length <
        (w.after host (transferOp contactId context leaseId queueId) t).state.rootQueue.length := by
  rw [transferOp, addsContinuation]
  simp [continuationId_self hid]

/-- A call queues nothing when it leaves the pruned document. -/
theorem addsContinuation_prune (hid : queueId ≠ "")
    (hafter : (w.after host (transferOp contactId context leaseId queueId) t).state =
      prune w.state t) :
    addsContinuation host queueId w ⟨transferOp contactId context leaseId queueId, t⟩ = false := by
  rw [← Bool.not_eq_true, addsContinuation_iff hid, hafter, length_prune]
  exact lt_irrefl _

/-- What a call answers. -/
theorem answersTrue_of_call {op : Op} {answer : Bool} {s' : State}
    (h : call host op w.state t = .ok (.flag answer, s')) : answersTrue host w op t = answer := by
  rw [answersTrue, h]
  cases answer
  · rfl
  · rfl

variable (host contactId context leaseId)

/-- A transfer that was accepted before is accepted again and queues nothing. -/
theorem transfer_again (hid : queueId ≠ "")
    (hrecent : RetainedAt maxContinuationReceipts continuationReceiptTtlSeconds
      w.state.continuationReceipts t queueId)
    (hget : w.state.continuationReceipts.get? queueId =
      some (receiptOf host contactId context since)) :
    answersTrue host w (transferOp contactId context leaseId queueId) t = true ∧
      addsContinuation host queueId w ⟨transferOp contactId context leaseId queueId, t⟩ = false ∧
      (w.after host (transferOp contactId context leaseId queueId) t).state = prune w.state t := by
  have hpruned : (prune w.state t).continuationReceipts.get? queueId =
      some (receiptOf host contactId context since) := by
    rw [prune_continuationReceipts]
    exact pruneReceipts_retainedAt hget hrecent
  have hcall := @replay_receipted host t w.state queueId _ hid hpruned contactId context leaseId
  rw [decide_eq_true (show (receiptOf host contactId context since).fingerprint =
    fingerprint host contactId context ∧
      (receiptOf host contactId context since).contactId = contactId from ⟨rfl, rfl⟩)] at hcall
  have hafter := congrArg World.state (World.after_ok (w := w) hcall)
  exact ⟨answersTrue_of_call hcall, addsContinuation_prune hid hafter, hafter⟩

/-- Pruning queues nothing under an id. -/
theorem findRoot_prune (h : ¬ Queued w.state queueId) :
    findRoot (prune w.state t).rootQueue queueId = none := by
  cases hfind : findRoot (prune w.state t).rootQueue queueId with
  | none => rfl
  | some item =>
      exfalso
      rcases mem_of_findRoot hfind with ⟨hmem, hid⟩
      rcases prune_noNewRoot queueId w.state t item hmem hid with ⟨old, hold, holdId, -⟩
      exact h ⟨old, hold, holdId⟩

theorem receipt_prune (h : w.state.continuationReceipts.get? queueId = none) :
    (prune w.state t).continuationReceipts.get? queueId = none := by
  rw [Option.eq_none_iff_forall_ne_some]
  intro receipt hget
  rw [prune_continuationReceipts] at hget
  rw [pruneReceipts_get? hget] at h
  cases h

/-- A call that leaves the pruned document leaves every retained message alone. -/
theorem continuationQuiet_prune
    (hrecent : RetainedAt maxContinuationReceipts continuationReceiptTtlSeconds
      w.state.continuationReceipts t queueId)
    (hafter : w'.state = prune w.state t) : ContinuationQuiet queueId w w' := by
  constructor
  · rw [hafter]
    cases hget : w.state.continuationReceipts.get? queueId with
    | none => exact receipt_prune hget
    | some receipt =>
        rw [prune_continuationReceipts]
        exact pruneReceipts_retainedAt hget hrecent
  · rintro hqueued ⟨item, hmem, hid⟩
    rw [hafter] at hmem
    rcases prune_noNewRoot queueId w.state t item hmem hid with ⟨old, hold, holdId, -⟩
    exact hqueued ⟨old, hold, holdId⟩

theorem ingressQuiet_prune {host : Host}
    (hrecent : RetainedAt maxIngressReceipts ingressReceiptTtlSeconds w.state.ingressReceipts t
      (ingressOf host queueId))
    (hafter : w'.state = prune w.state t) : IngressQuiet host queueId w w' := by
  constructor
  · rw [hafter, prune_ingressReceipts]
    cases hget : w.state.ingressReceipts.get? (ingressOf host queueId) with
    | none =>
        rw [Option.eq_none_iff_forall_ne_some]
        intro receipt hpruned
        rw [pruneReceipts_get? hpruned] at hget
        cases hget
    | some receipt => exact pruneReceipts_retainedAt hget hrecent
  · rintro hqueued ⟨item, hmem, hid⟩
    rw [hafter] at hmem
    rcases prune_noNewRoot _ w.state t item hmem hid with ⟨old, hold, holdId, -⟩
    exact hqueued ⟨old, hold, holdId⟩

/-- A transfer under a new id is refused when the lease is gone, and changes nothing. -/
theorem transfer_refused (hid : queueId ≠ "")
    (hreceipt : w.state.continuationReceipts.get? queueId = none)
    (hqueued : ¬ Queued w.state queueId)
    (hlease : (prune w.state t).leases.get? leaseId = none) :
    answersTrue host w (transferOp contactId context leaseId queueId) t = false ∧
      addsContinuation host queueId w ⟨transferOp contactId context leaseId queueId, t⟩ = false ∧
      (w.after host (transferOp contactId context leaseId queueId) t).state = prune w.state t := by
  have hcall : call host (transferOp contactId context leaseId queueId) w.state t =
      .ok (.flag false, prune w.state t) := by
    rw [transferOp, call, transaction, mutation, Mutation.reply, enqueueContinuation, if_neg hid,
      transferContinuation]
    simp only [receipt_prune hreceipt, findRoot_prune hqueued, hlease]
  have hafter := congrArg World.state (World.after_ok (w := w) hcall)
  exact ⟨answersTrue_of_call hcall, addsContinuation_prune hid hafter, hafter⟩

/-- A transfer under a new id of a lease that is there queues a root. -/
theorem transfer_accepted (hid : queueId ≠ "")
    (hreceipt : w.state.continuationReceipts.get? queueId = none)
    (hqueued : ¬ Queued w.state queueId) {lease : Lease}
    (hlease : (prune w.state t).leases.get? leaseId = some lease) :
    answersTrue host w (transferOp contactId context leaseId queueId) t = true ∧
      addsContinuation host queueId w ⟨transferOp contactId context leaseId queueId, t⟩ = true ∧
      (w.after host (transferOp contactId context leaseId queueId) t).state.continuationReceipts.get?
        queueId = some (receiptOf host contactId context t) := by
  have hcall : ∃ s', call host (transferOp contactId context leaseId queueId) w.state t =
      .ok (.flag true, s') ∧ s'.rootQueue.length = w.state.rootQueue.length + 1 ∧
        s'.continuationReceipts.get? queueId = some (receiptOf host contactId context t) := by
    rw [transferOp, call, transaction, mutation, Mutation.reply, enqueueContinuation, if_neg hid,
      transferContinuation]
    simp only [receipt_prune hreceipt, findRoot_prune hqueued, hlease]
    refine ⟨_, rfl, ?_, ?_⟩
    · rw [List.length_append, length_prune, List.length_singleton]
    · exact Dict.get?_set_self _ _ _
  rcases hcall with ⟨s', hcall, hlength, hget⟩
  have hafter := congrArg World.state (World.after_ok (w := w) hcall)
  refine ⟨answersTrue_of_call hcall, ?_, ?_⟩
  · rw [addsContinuation_iff hid, hafter, hlength]
    exact Nat.lt_succ_self _
  · rw [hafter]
    exact hget

theorem ingressIdOf_ne (queueId : String) : ingressIdOf queueId ≠ "" := by
  intro h
  have hlength := congrArg String.length h
  rw [ingressIdOf, String.length_append] at hlength
  have hfront : "manager:".length = 8 := by decide
  rw [hfront, String.length_empty] at hlength
  omega

/-- A message that was accepted before is accepted again and queues nothing. -/
theorem ingress_again
    (hrecent : RetainedAt maxIngressReceipts ingressReceiptTtlSeconds w.state.ingressReceipts t
      (ingressOf host queueId))
    (hget : w.state.ingressReceipts.get? (ingressOf host queueId) =
      some (receiptOf host contactId context since)) :
    answersTrue host w (.enqueueIngressRoot contactId context (ingressIdOf queueId)) t = true ∧
      addsIngressRoot host (ingressIdOf queueId) w
        ⟨.enqueueIngressRoot contactId context (ingressIdOf queueId), t⟩ = false ∧
      (w.after host (.enqueueIngressRoot contactId context (ingressIdOf queueId)) t).state =
        prune w.state t := by
  have hpruned : (prune w.state t).ingressReceipts.get? (ingressOf host queueId) =
      some (receiptOf host contactId context since) := by
    rw [prune_ingressReceipts]
    exact pruneReceipts_retainedAt hget hrecent
  have hcall : call host (.enqueueIngressRoot contactId context (ingressIdOf queueId)) w.state t =
      .ok (.flag true, prune w.state t) := by
    rw [call, transaction, mutation, Mutation.reply, enqueueIngressRoot,
      if_neg (ingressIdOf_ne queueId)]
    rw [ingressOf] at hpruned
    simp only [hpruned]
    rw [if_neg (by simp [receiptOf])]
  have hafter := congrArg World.state (World.after_ok (w := w) hcall)
  refine ⟨answersTrue_of_call hcall, ?_, hafter⟩
  rw [addsIngressRoot]
  simp only [Bool.and_eq_false_iff, decide_eq_false_iff_not]
  right
  rw [hafter, length_prune]
  exact lt_irrefl _

/-- A message that is new to the coordinator queues a root. -/
theorem ingress_accepted
    (hreceipt : w.state.ingressReceipts.get? (ingressOf host queueId) = none)
    (hqueued : ¬ Queued w.state (ingressOf host queueId)) :
    answersTrue host w (.enqueueIngressRoot contactId context (ingressIdOf queueId)) t = true ∧
      addsIngressRoot host (ingressIdOf queueId) w
        ⟨.enqueueIngressRoot contactId context (ingressIdOf queueId), t⟩ = true ∧
      (w.after host (.enqueueIngressRoot contactId context (ingressIdOf queueId))
        t).state.ingressReceipts.get? (ingressOf host queueId) =
          some (receiptOf host contactId context t) := by
  have hpruned : (prune w.state t).ingressReceipts.get?
      (ingressQueueId host (ingressIdOf queueId)) = none := by
    rw [Option.eq_none_iff_forall_ne_some]
    intro receipt hget
    rw [prune_ingressReceipts] at hget
    rw [ingressOf, pruneReceipts_get? hget] at hreceipt
    cases hreceipt
  have hfind : findRoot (prune w.state t).rootQueue
      (ingressQueueId host (ingressIdOf queueId)) = none := findRoot_prune hqueued
  have hcall : ∃ s', enqueueIngressRoot host contactId context (ingressIdOf queueId)
      (prune w.state t) t = .ok (true, s') := by
    rw [enqueueIngressRoot, if_neg (ingressIdOf_ne queueId)]
    simp only [hpruned, hfind]
    exact ⟨_, rfl⟩
  rcases hcall with ⟨s', hvalue⟩
  have hcall : call host (.enqueueIngressRoot contactId context (ingressIdOf queueId)) w.state t =
      .ok (.flag true, s') := by
    rw [call, transaction, mutation, Mutation.reply, hvalue]
  have hafter := congrArg World.state (World.after_ok (w := w) hcall)
  rcases (enqueueIngressRoot_cases hvalue).2 with
    ⟨receipt, hget, -⟩ | ⟨item, hmem, hitem, -⟩ | ⟨-, hqueue, hreceipts⟩
  · rw [hpruned] at hget
    cases hget
  · rcases prune_noNewRoot _ w.state t item hmem hitem with ⟨old, hold, holdId, -⟩
    exact absurd ⟨old, hold, holdId⟩ hqueued
  · refine ⟨answersTrue_of_call hcall, ?_, ?_⟩
    · rw [addsIngressRoot]
      simp only [Bool.and_eq_true, decide_eq_true_eq, true_and]
      rw [hafter]
      simp only
      rw [hqueue, List.length_append, length_prune, List.length_singleton]
      exact Nat.lt_succ_self _
    · rw [hafter]
      simp only
      rw [hreceipts, ingressOf, Dict.get?_set_self]
      rfl

end OwnCalls

end Messages
end Stemcell
