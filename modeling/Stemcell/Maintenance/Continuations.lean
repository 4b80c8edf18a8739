import Stemcell.Maintenance.Idempotence
import Stemcell.Maintenance.RootLedger

/-!
# Continuations

A worker that ends hands its lease over to a queued root that continues its lineage.
Between the two nothing may count as quiet: the lineage is always carried by a pending
root, by a lease, or by a claim that the next transaction gives back.

Main results:

- Theorem `ClaimsLineage.effect`: the lease of a claimed continuation carries its lineage.
- Theorem `transferContinuation_cases`: what a hand-over does to the document.
- Theorem `continuation_law`: the hand-over law of every run.
-/

namespace Stemcell
namespace Maintenance

open Lib

/-! ## The lineage of a claimed continuation -/

/-- The lease that a queued continuation names carries its lineage. -/
def ClaimsLineage (s : State) : Prop :=
  ∀ item ∈ s.rootQueue, ∀ c, item.continuation = some c →
    ∀ lease, s.leases.get? item.leaseId = some lease → lease.lineageId = c.lineageId

variable {host : Host} {op : Op} {now t : Seconds} {s s' : State} {w w' : World} {e : Event}
  {queueId leaseId contactId context : String} {c : Continuation}

/-- A pending root names no lease. -/
theorem WellFormed.no_lease_of_blank (hwf : WellFormed host s) {item : RootItem}
    (h : item.leaseId = "") : s.leases.get? item.leaseId = none := by
  rw [h, Option.eq_none_iff_forall_ne_some]
  intro lease hget
  exact (hwf.leaseDrawn _ _ hget).1.ne_empty rfl

/-- No queued root names a lease that is not drawn yet. -/
theorem WellFormed.leaseId_ne (hwf : WellFormed host s) {item : RootItem}
    (hmem : item ∈ s.rootQueue) {k : Nat} (hk : s.uuidsDrawn ≤ k) :
    host.uuid4 k ≠ item.leaseId := by
  cases hstatus : item.status with
  | pending =>
      rw [(hwf.pendingBlank item hmem hstatus).2]
      exact host.uuid4_ne_empty k
  | claimed => exact (hwf.claimDrawn item hmem hstatus).2.ne_uuid4 hk

/-- Roots keep their lease and continuation, and leases keep their lineage. -/
theorem ClaimsLineage.shrink (h : ClaimsLineage s)
    (hroots : ∀ item ∈ s'.rootQueue, ∀ lease, s'.leases.get? item.leaseId = some lease →
      ∃ old ∈ s.rootQueue, item.continuation = old.continuation ∧ item.leaseId = old.leaseId)
    (hleases : ∀ id lease, s'.leases.get? id = some lease →
      ∃ old, s.leases.get? id = some old ∧ lease.lineageId = old.lineageId) :
    ClaimsLineage s' := by
  intro item hmem c hc lease hget
  rcases hroots item hmem lease hget with ⟨old, hold, hcont, hid⟩
  rcases hleases _ _ hget with ⟨lease', hget', hlineage⟩
  rw [hlineage]
  exact h old hold c (hcont ▸ hc) lease' (hid ▸ hget')

theorem ClaimsLineage.effect (h : ClaimsLineage s) (hwf : WellFormed host s)
    (heff : Effect host op now s s') : ClaimsLineage s' := by
  have hroots : ∀ (leases : Dict String Lease), ∀ item ∈ s.rootQueue, ∀ lease,
      leases.get? item.leaseId = some lease →
      ∃ old ∈ s.rootQueue, item.continuation = old.continuation ∧ item.leaseId = old.leaseId :=
    fun _ item hmem _ _ => ⟨item, hmem, rfl, rfl⟩
  have hleases : ∀ id lease, s.leases.get? id = some lease →
      ∃ old, s.leases.get? id = some old ∧ lease.lineageId = old.lineageId :=
    fun id lease hget => ⟨lease, hget, rfl⟩
  cases heff with
  | bookkeep hcore =>
      intro item hmem c hc lease hget
      rw [hcore.rootQueue] at hmem
      rw [hcore.leases] at hget
      exact h item hmem c hc lease hget
  | dropLeases keep _ =>
      refine h.shrink (hroots _) fun id lease hget => ?_
      rw [Dict.get?_filter_eq_some_iff] at hget
      exact ⟨lease, hget.1, rfl⟩
  | openLease new _ _ _ =>
      intro item hmem c hc lease hget
      rw [Dict.get?_set_of_ne _ _ (hwf.leaseId_ne hmem le_rfl)] at hget
      exact h item hmem c hc lease hget
  | beat leaseId lease expiresAt _ hbeaten =>
      apply h.shrink
      · intro item hmem _ _
        rcases List.mem_map.mp hmem with ⟨old, hold, rfl⟩
        refine ⟨old, hold, ?_⟩
        split <;> exact ⟨rfl, rfl⟩
      · intro id l hget
        rw [Dict.get?_set] at hget
        split at hget <;> rename_i hid
        · cases hget
          exact ⟨lease, hid ▸ hbeaten, rfl⟩
        · exact ⟨l, hget, rfl⟩
  | enqueue new henters _ =>
      intro item hmem c hc lease hget
      rcases List.mem_append.mp hmem with hmem | hmem
      · exact h item hmem c hc lease hget
      · rw [List.mem_singleton.mp hmem, hwf.no_lease_of_blank henters.leaseId] at hget
        cases hget
  | transfer new leaseId lease henters _ _ _ =>
      intro item hmem c hc other hget
      rw [Dict.get?_pop_eq_some_iff] at hget
      rcases List.mem_append.mp hmem with hmem | hmem
      · exact h item hmem c hc other hget.2
      · rw [List.mem_singleton.mp hmem, hwf.no_lease_of_blank henters.leaseId] at hget
        cases hget.2
  | claim before after root hqueue _ _ _ =>
      intro item hmem c hc lease hget
      have hroot : root ∈ s.rootQueue := by simp [hqueue]
      have hother : item ∈ s.rootQueue → lease.lineageId = c.lineageId := by
        intro hold
        rw [Dict.get?_set_of_ne _ _ (hwf.leaseId_ne hold (Nat.le_succ _))] at hget
        exact h item hold c hc lease hget
      rw [List.mem_append, List.mem_cons] at hmem
      rcases hmem with hmem | rfl | hmem
      · exact hother (by rw [hqueue]; exact List.mem_append_left _ hmem)
      · -- The new lease takes the lineage of the continuation.
        have hcont : root.continuation = some c := hc
        have hnew : (s.leases.set (host.uuid4 (s.uuidsDrawn + 1))
            (claimLease host s root now)).get? (host.uuid4 (s.uuidsDrawn + 1)) = some lease := hget
        rw [Dict.get?_set_self] at hnew
        cases hnew
        have hlineage := (hwf.transferDead root hroot c hcont).2.2
        simp [claimLease, makeLease, claimLineage, hcont, orElse, hlineage]
      · exact hother (by rw [hqueue]; exact List.mem_append_right _ (List.mem_cons_of_mem _ hmem))
  | giveBack f hf =>
      intro item hmem c hc lease hget
      rcases List.mem_map.mp hmem with ⟨old, hold, rfl⟩
      rcases hf old hold with heq | ⟨⟨attempts, notBefore, heq⟩, -⟩
      · rw [heq] at hc hget
        exact h old hold c hc lease hget
      · rw [heq] at hget
        have hblank : s.leases.get? old.repend.leaseId = none := hwf.no_lease_of_blank rfl
        rw [show ({ old.repend with attempts := attempts, notBefore := notBefore } :
          RootItem).leaseId = old.repend.leaseId from rfl, hblank] at hget
        cases hget
  | remove keep _ =>
      intro item hmem c hc lease hget
      exact h item (List.mem_filter.mp hmem).1 c hc lease hget
  | raiseFence => exact h.shrink (hroots _) hleases
  | reopen => exact h.shrink (hroots _) hleases
  | advance => exact h.shrink (hroots _) hleases
  | revoke => exact h.shrink (hroots _) hleases
  | acknowledge => exact h.shrink (hroots _) hleases
  | receipts => exact h.shrink (hroots _) hleases

/-- In every reachable document the lease of a claimed continuation carries its lineage. -/
theorem reachable_claimsLineage (h : (coordinator host).Reachable w) : ClaimsLineage w.state :=
  reachable_invariant (I := ClaimsLineage) (by simp [ClaimsLineage, defaultState])
    (fun _ _ _ _ hwf heff hs => hs.effect hwf heff) h

/-! ## The hand-over -/

/-- The queue id under which a call queues a continuation. -/
def continuationId (host : Host) (s : State) (queue : String) : String :=
  orElse queue (host.uuid4 s.uuidsDrawn)

/-- The lease is handed over: it leaves the document, and a pending root continues its
lineage. -/
structure HandsOver (host : Host) (queueId contactId context leaseId : String) (lease : Lease)
    (now : Seconds) (s s' : State) : Prop where
  source : s.leases.get? leaseId = some lease
  unknown : s.continuationReceipts.get? queueId = none
  queue : s'.rootQueue = s.rootQueue ++
    [pendingRoot s now queueId contactId context (some (continuationOf leaseId lease))]
  leases : s'.leases = s.leases.pop leaseId
  receipts : s'.continuationReceipts = s.continuationReceipts.set queueId
    { contactId := contactId
      fingerprint := fingerprint host contactId context
      acceptedAt := now }

/-- The call recognises its root: it opens, drops and queues nothing. -/
structure Recognises (host : Host) (queueId contactId context : String) (accepted : Bool)
    (s s' : State) : Prop where
  queue : s'.rootQueue = s.rootQueue
  leases : s'.leases = s.leases
  others : ∀ id ≠ queueId, s'.continuationReceipts.get? id = s.continuationReceipts.get? id
  kept : ∀ receipt, s.continuationReceipts.get? queueId = some receipt → s' = s ∧
    accepted = decide (receipt.fingerprint = fingerprint host contactId context ∧
      receipt.contactId = contactId)
  receipt : accepted = true → ∃ since, s'.continuationReceipts.get? queueId = some
    { contactId := contactId
      fingerprint := fingerprint host contactId context
      acceptedAt := since }

/-- A hand-over answers with `True`; any other call leaves the queue and the leases
alone. -/
theorem transferContinuation_cases {r : Bool}
    (h : transferContinuation host contactId context leaseId queueId s now = .ok (r, s')) :
    (r = true ∧ ∃ lease, HandsOver host queueId contactId context leaseId lease now s s') ∨
      Recognises host queueId contactId context r s s' := by
  unfold transferContinuation at h
  simp only at h
  split at h <;> rename_i hreceipt
  · rename_i receipt
    rcases Prod.mk.inj (Except.ok.inj h) with ⟨rfl, rfl⟩
    right
    refine ⟨rfl, rfl, fun _ _ => rfl, ?_, ?_⟩
    · intro receipt' hget
      rw [hreceipt] at hget
      cases hget
      exact ⟨rfl, rfl⟩
    · intro hsame
      rw [decide_eq_true_eq] at hsame
      refine ⟨receipt.acceptedAt, ?_⟩
      rw [hreceipt, ← hsame.1, ← hsame.2]
  have hnone : ∀ receipt, s.continuationReceipts.get? queueId = some receipt → s' = s ∧
      r = decide (receipt.fingerprint = fingerprint host contactId context ∧
        receipt.contactId = contactId) := by
    intro receipt hget
    rw [hreceipt] at hget
    cases hget
  split at h
  · split at h
    · rcases Prod.mk.inj (Except.ok.inj h) with ⟨rfl, rfl⟩
      right
      exact ⟨rfl, rfl, fun id hid => Dict.get?_set_of_ne _ _ hid.symm, hnone,
        fun _ => ⟨_, Dict.get?_set_self _ _ _⟩⟩
    · rcases Prod.mk.inj (Except.ok.inj h) with ⟨rfl, rfl⟩
      right
      exact ⟨rfl, rfl, fun _ _ => rfl, hnone, fun hfalse => absurd hfalse Bool.false_ne_true⟩
  split at h <;> rename_i hlease
  · rcases Prod.mk.inj (Except.ok.inj h) with ⟨rfl, rfl⟩
    right
    exact ⟨rfl, rfl, fun _ _ => rfl, hnone, fun hfalse => absurd hfalse Bool.false_ne_true⟩
  · rcases Prod.mk.inj (Except.ok.inj h) with ⟨rfl, rfl⟩
    left
    exact ⟨rfl, _, hlease, hreceipt, rfl, rfl, rfl⟩

/-- The same for the public method: a missing id is drawn first. -/
theorem enqueueContinuation_cases {queue : String} {r : Bool}
    (h : enqueueContinuation host contactId context leaseId queue s now = .ok (r, s')) :
    (r = true ∧ ∃ lease, HandsOver host (continuationId host s queue) contactId context leaseId
      lease now s s') ∨
      Recognises host (continuationId host s queue) contactId context r
        { s with uuidsDrawn := s'.uuidsDrawn } s' := by
  unfold enqueueContinuation at h
  split at h <;> rename_i hqueue
  · rw [continuationId, orElse, if_pos hqueue]
    have hdrawn : s'.uuidsDrawn = s.uuidsDrawn + 1 := by
      unfold transferContinuation at h
      simp only at h
      repeat' split at h
      all_goals
        rcases Prod.mk.inj (Except.ok.inj h) with ⟨-, rfl⟩
        rfl
    rw [hdrawn]
    rcases transferContinuation_cases h with ⟨hr, lease, hover⟩ | hsame
    · exact .inl ⟨hr, lease, hover.source, hover.unknown, hover.queue, hover.leases,
        hover.receipts⟩
    · exact .inr hsame
  · rw [continuationId, orElse, if_neg hqueue]
    have hdrawn : s'.uuidsDrawn = s.uuidsDrawn := by
      unfold transferContinuation at h
      simp only at h
      repeat' split at h
      all_goals
        rcases Prod.mk.inj (Except.ok.inj h) with ⟨-, rfl⟩
        rfl
    rw [hdrawn]
    exact transferContinuation_cases h

/-- A successful call of `enqueue_continuation`. -/
theorem continuation_call {queue : String} {r : Reply}
    (h : call host (.enqueueContinuation contactId context leaseId queue) s now = .ok (r, s')) :
    (r = .flag true ∧ ∃ lease, HandsOver host (continuationId host s queue) contactId context
      leaseId lease now (prune s now) s') ∨
      ∃ accepted, r = .flag accepted ∧
        Recognises host (continuationId host s queue) contactId context accepted
          { prune s now with uuidsDrawn := s'.uuidsDrawn } s' := by
  rcases Mutation.reply_ok h with ⟨value, hvalue, rfl⟩
  have hid : continuationId host (prune s now) queue = continuationId host s queue := by
    rw [continuationId, prune_uuidsDrawn, continuationId]
  have hcases := enqueueContinuation_cases hvalue
  rw [hid] at hcases
  rcases hcases with ⟨rfl, hover⟩ | hsame
  · exact .inl ⟨rfl, hover⟩
  · exact .inr ⟨value, rfl, hsame⟩

/-! ## Counting hand-overs -/

/-- The receipt of the continuation is retained when the call comes. -/
def RecentContinuation (queueId : String) (w : World) (e : Event) : Prop :=
  RetainedAt maxContinuationReceipts continuationReceiptTtlSeconds w.state.continuationReceipts
    e.time queueId

/-- The call hands a lease over under this queue id and queues a root for it. -/
def addsContinuation (host : Host) (queueId : String) (w : World) (e : Event) : Bool :=
  match e.op with
  | .enqueueContinuation _ _ _ queue =>
      continuationId host w.state queue = queueId &&
        w.state.rootQueue.length < (w.after host e.op e.time).state.rootQueue.length
  | _ => false

/-- How many calls of a run queue a root under this id. -/
def continuationsAdded (host : Host) (queueId : String) : World → List Event → Nat :=
  TransitionSystem.occurrences (fun w e => w.after host e.op e.time)
    (addsContinuation host queueId)

/-- The call is made under this queue id, for this lease and text, and is accepted. -/
def AcceptsContinuation (host : Host) (queueId contactId context leaseId : String) (w : World)
    (e : Event) : Prop :=
  ∃ queue, e.op = .enqueueContinuation contactId context leaseId queue ∧
    continuationId host w.state queue = queueId ∧
    ∃ s', call host e.op w.state e.time = .ok (.flag true, s')

/-- A call that queues a root is accepted and hands the presented lease over. -/
theorem adds_handsOver (h : addsContinuation host queueId w e = true) :
    ∃ contactId context leaseId lease,
      AcceptsContinuation host queueId contactId context leaseId w e ∧
        HandsOver host queueId contactId context leaseId lease e.time (prune w.state e.time)
          (w.after host e.op e.time).state := by
  unfold addsContinuation at h
  split at h <;> rename_i hop
  swap
  · cases h
  rename_i contactId context leaseId queue
  rw [Bool.and_eq_true, decide_eq_true_eq, decide_eq_true_eq] at h
  rcases h with ⟨hid, hlonger⟩
  cases hcall : call host e.op w.state e.time with
  | error err =>
      rw [World.after_error hcall] at hlonger
      exact absurd hlonger (lt_irrefl _)
  | ok result =>
      rcases result with ⟨r, s'⟩
      rw [World.after_ok hcall] at hlonger ⊢
      have hcall' := hcall
      rw [hop] at hcall'
      rcases continuation_call hcall' with ⟨rfl, lease, hover⟩ | ⟨accepted, -, hsame⟩
      · rw [hid] at hover
        exact ⟨contactId, context, leaseId, lease, ⟨queue, hop, hid, s', hcall⟩, hover⟩
      · rw [hsame.queue] at hlonger
        simp only [length_prune] at hlonger
        exact absurd hlonger (lt_irrefl _)

/-- An accepted call leaves a receipt of its text. -/
theorem accepts_receipt (h : AcceptsContinuation host queueId contactId context leaseId w e) :
    ∃ since, (w.after host e.op e.time).state.continuationReceipts.get? queueId = some
      { contactId := contactId
        fingerprint := fingerprint host contactId context
        acceptedAt := since } := by
  rcases h with ⟨queue, hop, hid, s', hcall⟩
  rw [World.after_ok hcall]
  rw [hop] at hcall
  rcases continuation_call hcall with ⟨-, lease, hover⟩ | ⟨accepted, haccepted, hsame⟩
  · rw [hid] at hover
    refine ⟨e.time, ?_⟩
    simp only [hover.receipts]
    exact Dict.get?_set_self _ _ _
  · rw [hid] at hsame
    cases haccepted
    exact hsame.receipt rfl

/-- A retained receipt survives a call. -/
theorem continuationReceipt_step {receipt : Receipt} (hrecent : RecentContinuation queueId w e)
    (hget : w.state.continuationReceipts.get? queueId = some receipt) :
    (w.after host e.op e.time).state.continuationReceipts.get? queueId = some receipt := by
  have hpruned : (prune w.state e.time).continuationReceipts.get? queueId = some receipt := by
    rw [prune_continuationReceipts]
    exact pruneReceipts_retainedAt hget hrecent
  cases hcall : call host e.op w.state e.time with
  | error err =>
      rw [World.after_error hcall]
      exact hget
  | ok result =>
      rcases result with ⟨r, s'⟩
      rw [World.after_ok hcall]
      by_cases hop : ∃ contact text lease queue, e.op = .enqueueContinuation contact text lease queue
      · rcases hop with ⟨contact, text, lease, queue, hop⟩
        rw [hop] at hcall
        rcases continuation_call hcall with ⟨-, source, hover⟩ | ⟨accepted, -, hsame⟩
        · by_cases hid : continuationId host w.state queue = queueId
          · rw [← hid, hover.unknown] at hpruned
            cases hpruned
          · simp only [hover.receipts]
            rw [Dict.get?_set_of_ne _ _ hid]
            exact hpruned
        · by_cases hid : continuationId host w.state queue = queueId
          · rw [hid] at hsame
            rcases hsame.kept receipt hpruned with ⟨hs', -⟩
            rw [hs']
            exact hpruned
          · exact (hsame.others queueId (Ne.symm hid)).trans hpruned
      · have hreceipts : s'.continuationReceipts = (prune w.state e.time).continuationReceipts :=
          continuationReceipts_same hcall fun contact text lease queue heq =>
            hop ⟨contact, text, lease, queue, heq⟩
        simp only [hreceipts]
        exact hpruned

/-- Over a run one queue id is handed over once at most. -/
theorem continuationsAdded_le {es : List Event}
    (hrun : ((coordinator host).restrict (RecentContinuation queueId)).Run w es w') :
    continuationsAdded host queueId w es ≤ 1 := by
  apply @TransitionSystem.Run.occurrences_le_one _ _ _ _ _ _
    (fun v => ∃ receipt, v.state.continuationReceipts.get? queueId = some receipt)
    _ _ _ _ _ _ _ hrun
  · intro v e v' hstep
    exact step_after hstep
  · intro v e v' _ hstep hadds
    rcases adds_handsOver hadds with ⟨contactId, context, leaseId, lease, haccepts, -⟩
    rcases accepts_receipt haccepts with ⟨since, hreceipt⟩
    rw [step_after hstep]
    exact ⟨_, hreceipt⟩
  · intro v e v' hrecent hstep hmark
    rcases hmark with ⟨receipt, hget⟩
    rw [step_after hstep]
    exact ⟨receipt, continuationReceipt_step hrecent hget⟩
  · intro v e hrecent hmark
    rcases hmark with ⟨receipt, hget⟩
    rw [← Bool.not_eq_true]
    intro hadds
    rcases adds_handsOver hadds with ⟨contactId, context, leaseId, lease, -, hover⟩
    have hpruned : (prune v.state e.time).continuationReceipts.get? queueId = some receipt := by
      rw [prune_continuationReceipts]
      exact pruneReceipts_retainedAt hget hrecent
    rw [hover.unknown] at hpruned
    cases hpruned

/-! ## No gap -/

/-- How a continuation stands at time `t`: it waits, a live lease carries its lineage, or
its lease is gone and the next transaction gives it back to the queue. -/
inductive Carried (c : Continuation) (s : State) (t : Seconds) (item : RootItem) : Prop
  | waits (hpending : item.status = .pending)
  | runs (lease : Lease) (hclaimed : item.status = .claimed)
      (hget : s.leases.get? item.leaseId = some lease) (hlive : t < lease.expiresAt)
      (hlineage : lease.lineageId = c.lineageId)
  | orphaned (hclaimed : item.status = .claimed)
      (hdead : ∀ lease, s.leases.get? item.leaseId = some lease → lease.expiresAt ≤ t)
      (hnext : ∀ t', t ≤ t' → item.repend ∈ (prune s t').rootQueue)

/-- What the root of a continuation says. -/
def SaysContinuation (queueId contactId context : String) (c : Continuation) (item : RootItem) :
    Prop :=
  item.queueId = queueId ∧ item.contactId = contactId ∧ item.context = context ∧
    item.continuation = some c

/-- From `now` on the lineage is carried, and the runtime is not taken for quiet. -/
structure NoGap (host : Host) (queueId contactId context : String) (c : Continuation)
    (s : State) (now : Seconds) : Prop where
  carried : ∀ t, now ≤ t →
    HasRoot s fun item => SaysContinuation queueId contactId context c item ∧ Carried c s t item
  busy : ∀ t, now ≤ t → ∀ epoch secured flushed pid r s',
    call host (.acknowledgeRuntimeQuiescent epoch secured flushed pid) s t = .ok (r, s') →
      r = .flag false

theorem saysContinuation_sameRoot {item item' : RootItem} (hsame : item.SameRoot item')
    (h : SaysContinuation queueId contactId context c item) :
    SaysContinuation queueId contactId context c item' :=
  ⟨hsame.queueId.trans h.1, hsame.contactId.trans h.2.1, hsame.context.trans h.2.2.1,
    hsame.continuation.trans h.2.2.2⟩

/-- A queued continuation is carried at any time. -/
theorem carried_of_says {item : RootItem} (hlineage : ClaimsLineage s)
    (hmem : item ∈ s.rootQueue) (hcont : item.continuation = some c) (t : Seconds) :
    Carried c s t item := by
  cases hstatus : item.status with
  | pending => exact .waits hstatus
  | claimed =>
      by_cases hlive : ∃ lease, s.leases.get? item.leaseId = some lease ∧ t < lease.expiresAt
      · rcases hlive with ⟨lease, hget, hlive⟩
        exact .runs lease hstatus hget hlive (hlineage item hmem c hcont lease hget)
      · have hdead : ∀ lease, s.leases.get? item.leaseId = some lease → lease.expiresAt ≤ t := by
          intro lease hget
          by_contra hlt
          exact hlive ⟨lease, hget, not_le.mp hlt⟩
        apply Carried.orphaned hstatus hdead
        intro t' ht
        rw [prune_rootQueue]
        have hgone : (prune s t').leases.get? item.leaseId = none := by
          rw [Option.eq_none_iff_forall_ne_some]
          intro lease hget
          rw [prune_leases, Dict.get?_filter_eq_some_iff, decide_eq_true_eq] at hget
          exact absurd hget.2 (not_lt.mpr ((hdead lease hget.1).trans ht))
        refine List.mem_map.mpr ⟨item, hmem, ?_⟩
        rw [pruneRoot, if_pos]
        have halive : claimAlive (prune s t').leases t' item = false := by
          rw [claimAlive, Dict.contains, hgone]
          rfl
        rw [halive]
        exact ⟨hstatus, Bool.false_ne_true⟩

/-- While a continuation is queued, the runtime is not taken for quiet. -/
theorem acknowledge_refused (h : HasRoot s fun item => item.continuation = some c)
    {epoch : Int} {secured flushed : Option Bool} {pid : Option Int} {r : Reply}
    (hcall : call host (.acknowledgeRuntimeQuiescent epoch secured flushed pid) s t =
      .ok (r, s')) : r = .flag false := by
  have hpruned : HasRoot (prune s t) fun item => item.continuation = some c := by
    apply h.prune _ t host
    intro item item' hsame hcont
    exact hsame.continuation.trans hcont
  rcases hpruned with ⟨item, hmem, hcont⟩
  rcases Mutation.reply_ok hcall with ⟨value, hvalue, rfl⟩
  unfold acknowledgeRuntimeQuiescent at hvalue
  simp only at hvalue
  split at hvalue <;> rename_i hguard
  · rcases Prod.mk.inj (Except.ok.inj hvalue) with ⟨rfl, -⟩
    rfl
  · exfalso
    apply hguard
    right
    right
    cases hstatus : item.status with
    | pending =>
        right
        left
        refine List.any_eq_true.mpr ⟨item, hmem, ?_⟩
        simp [RootItem.pendingContinuation, hstatus, hcont]
    | claimed =>
        left
        intro hempty
        have hlease := (prune_claimed hmem hstatus).1
        rw [Dict.isEmpty_iff] at hempty
        rw [Dict.contains, hempty item.leaseId] at hlease
        cases hlease

/-- A continuation that nobody completes is carried all along. -/
theorem noGap_run {es : List Event} (hreach : (coordinator host).Reachable w)
    (hrun : ((coordinator host).restrict fun v e => ¬ Completes queueId v e).Run w es w')
    (h : HasRoot w.state (SaysContinuation queueId contactId context c)) :
    NoGap host queueId contactId context c w'.state w'.now := by
  have hend : HasRoot w'.state (SaysContinuation queueId contactId context c) := by
    apply hrun.preserves (I := fun v => HasRoot v.state
      (SaysContinuation queueId contactId context c)) hreach _ h
    intro v e v' hv hguard hroot hstep
    apply hroot.step _ _ hv hguard hstep
    · intro item item' hsame hsays
      exact saysContinuation_sameRoot hsame hsays
    · intro item hsays
      exact hsays.1
  rcases hend with ⟨item, hmem, hsays⟩
  have hlineage := reachable_claimsLineage (hreach.run hrun.of_restrict)
  constructor
  · intro t _
    exact ⟨item, hmem, hsays, carried_of_says hlineage hmem hsays.2.2.2 t⟩
  · intro t _ epoch secured flushed pid r s' hcall
    exact acknowledge_refused ⟨item, hmem, hsays.2.2.2⟩ hcall

/-! ## The law -/

/-- What a replay of an accepted call is answered at time `t`: `True` for the accepted
contact and context only, and no lease but the expired ones leaves the document. -/
def AnswersReplay (host : Host) (queueId contactId context : String) (w : World) (t : Seconds) :
    Prop :=
  ∀ contact text leaseId,
    call host (.enqueueContinuation contact text leaseId queueId) w.state t =
      .ok (.flag (decide (contact = contactId ∧ text = context)), prune w.state t)

/-- The hand-over law of the runs from `w`. -/
structure ContinuationLaw (host : Host) (w : World) : Prop where
  /-- While its receipt is retained, a queue id is handed over once at most. -/
  once : ∀ queueId es w',
    ((coordinator host).restrict (RecentContinuation queueId)).Run w es w' →
      continuationsAdded host queueId w es ≤ 1
  /-- An accepted call hands the presented lease over, or it recognises its root and
  moves neither a lease nor a root. -/
  accepts : ∀ e queueId contactId context leaseId,
    AcceptsContinuation host queueId contactId context leaseId w e →
      (∃ lease, HandsOver host queueId contactId context leaseId lease e.time
          (prune w.state e.time) (w.after host e.op e.time).state) ∨
        (w.after host e.op e.time).state.rootQueue = (prune w.state e.time).rootQueue ∧
          (w.after host e.op e.time).state.leases = (prune w.state e.time).leases
  /-- From a hand-over until its root is completed there is no gap. -/
  noGap : ∀ e v queueId contactId context leaseId lease, (coordinator host).step w e v →
    HandsOver host queueId contactId context leaseId lease e.time (prune w.state e.time)
      v.state →
    ∀ es w', ((coordinator host).restrict fun u e => ¬ Completes queueId u e).Run v es w' →
      NoGap host queueId contactId context (continuationOf leaseId lease) w'.state w'.now
  /-- A replay is answered by the receipt, as long as that is retained. -/
  replay : ∀ e v queueId contactId context leaseId, NoCollision host contactId context →
    (coordinator host).step w e v →
    AcceptsContinuation host queueId contactId context leaseId w e →
    ∀ es w', ((coordinator host).restrict (RecentContinuation queueId)).Run v es w' →
      ∀ t, RecentContinuation queueId w' ⟨.read, t⟩ →
        AnswersReplay host queueId contactId context w' t

/-- A replay whose receipt is in the pruned document. -/
theorem replay_receipted {receipt : Receipt} (hqueue : queueId ≠ "")
    (hget : (prune s t).continuationReceipts.get? queueId = some receipt)
    {contact text leaseId : String} :
    call host (.enqueueContinuation contact text leaseId queueId) s t =
      .ok (.flag (decide (receipt.fingerprint = fingerprint host contact text ∧
        receipt.contactId = contact)), prune s t) := by
  rw [call, transaction, mutation, Mutation.reply, enqueueContinuation, if_neg hqueue,
    transferContinuation]
  simp only [hget]

/-- The receipt of an accepted text stands for that text alone. -/
theorem receipt_states (hsha : NoCollision host contactId context) {contact text : String} :
    (fingerprint host contactId context = fingerprint host contact text ∧ contactId = contact) ↔
      contact = contactId ∧ text = context := by
  constructor
  · rintro ⟨hprint, hcontact⟩
    subst hcontact
    have htext := hsha (contactId ++ "\x1f" ++ text) hprint.symm
    rw [String.append_right_inj] at htext
    exact ⟨rfl, htext⟩
  · rintro ⟨hcontact, htext⟩
    rw [hcontact, htext]
    exact ⟨rfl, rfl⟩

/-- The hand-over law.  A lease that is handed over leaves the document in the call that
queues its continuation.  Until that root is completed, it waits, runs under a live lease
of the same lineage or is given back by the next transaction, so the runtime is never
taken for quiet.  As long as the receipt is retained, the queue id is handed over once
and a replay takes nothing. -/
theorem continuation_law (hreach : (coordinator host).Reachable w) : ContinuationLaw host w where
  once queueId es w' hrun := continuationsAdded_le hrun
  accepts e queueId contactId context leaseId haccepts := by
    rcases haccepts with ⟨queue, hop, hid, s', hcall⟩
    rw [World.after_ok hcall]
    rw [hop] at hcall
    rcases continuation_call hcall with ⟨-, lease, hover⟩ | ⟨accepted, -, hsame⟩
    · rw [hid] at hover
      exact .inl ⟨lease, hover⟩
    · exact .inr ⟨hsame.queue, hsame.leases⟩
  noGap e v queueId contactId context leaseId lease hstep hover es w' hrun := by
    apply noGap_run (hreach.step hstep) hrun
    refine ⟨pendingRoot (prune w.state e.time) e.time queueId contactId context
      (some (continuationOf leaseId lease)), ?_, rfl, rfl, rfl, rfl⟩
    rw [hover.queue]
    exact List.mem_append_right _ (List.mem_singleton_self _)
  replay e v queueId contactId context leaseId hsha hstep haccepts es w' hrun t hrecent := by
    intro contact text lease
    rcases accepts_receipt haccepts with ⟨since, hreceipt⟩
    rw [← step_after hstep] at hreceipt
    have hkept := hrun.keeps (I := fun u => u.state.continuationReceipts.get? queueId = some
      { contactId := contactId
        fingerprint := fingerprint host contactId context
        acceptedAt := since }) (fun u e u' hu hst hget => by
          rw [step_after hst]
          exact continuationReceipt_step hu hget) hreceipt
    have hpruned : (prune w'.state t).continuationReceipts.get? queueId = some
        { contactId := contactId
          fingerprint := fingerprint host contactId context
          acceptedAt := since } := by
      rw [prune_continuationReceipts]
      exact pruneReceipts_retainedAt hkept hrecent
    have hqueue : queueId ≠ "" := by
      rcases haccepts with ⟨queue, -, hid, -⟩
      rw [← hid]
      exact orElse_ne_empty (host.uuid4_ne_empty _)
    rw [replay_receipted hqueue hpruned]
    simp only [receipt_states hsha]

/-! ## A second hand-over -/

/-- A week after its root is completed, another lease is handed over under the queue id. -/
def handedOverTwice : List Event :=
  [⟨.acquireActivity "worker" "job" "c1" none 90, 0⟩,
    ⟨.enqueueContinuation "c1" "done" "a" "q1", 10⟩,
    ⟨.claimPendingRoots 1 [] true, 20⟩,
    ⟨.completeRoots [⟨"q1", "aa", "c1", "done", ⟨"aaa", "a", 0, "manager_root", "a"⟩⟩], 30⟩,
    ⟨.acquireActivity "worker" "job" "c1" none 90, 700000⟩,
    ⟨.enqueueContinuation "c1" "done" "aaaa" "q1", 700010⟩]

theorem handedOverTwice_run :
    (coordinator countingHost).Run (.initial 0) handedOverTwice
      ((World.initial 0).play countingHost handedOverTwice) := by
  apply play_run
  · decide +kernel
  · intro e he n
    simp only [handedOverTwice, List.mem_cons, List.not_mem_nil, or_false] at he
    rcases he with rfl | rfl | rfl | rfl | rfl | rfl
    all_goals
      first
      | exact trivial
      | exact fun k hk => absurd (congrArg String.toList hk) (by simp [countingHost, List.replicate_succ])

/-- The second hand-over queues a second root. -/
theorem second_handOver :
    (coordinator countingHost).Run (.initial 0) handedOverTwice
        ((World.initial 0).play countingHost handedOverTwice) ∧
      continuationsAdded countingHost "q1" (.initial 0) handedOverTwice = 2 :=
  ⟨handedOverTwice_run, by decide +kernel⟩

/-- The law of the runs from the first world. -/
theorem continuation_law_initial : ContinuationLaw countingHost (.initial 0) :=
  continuation_law (.init ⟨0, rfl⟩)

end Maintenance
end Stemcell
