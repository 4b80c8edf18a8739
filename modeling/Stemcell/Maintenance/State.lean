import Mathlib.Algebra.Order.Field.Rat
import Mathlib.Data.List.Sort
import Mathlib.Tactic.Linarith
import Stemcell.Lib.Dict

/-!
# The maintenance document

The updater and the running Stemcell coordinate through one JSON document that
every operation of `core/maintenance.py` rewrites under a file lock.  This
module fixes the typed form of that document: leases, queued roots, receipts,
notices and the update phase, together with the pruning that opens every
transaction.

The document of a coordinator that starts from the default state is always in
the normal form `_normalize` produces, so the typed fields have no missing or
ill-typed case.  Clock readings are rationals.  The number of `uuid4` draws made
so far is carried along with the document; it is the only field that is not
stored.

Main results:

- Definition `prune`: the clean-up that opens a transaction.
- Theorem `pruneReceipts_get?`: pruning only forgets receipts.
- Theorem `mem_rootQueue_prune`: what pruning does to one queued root.
- Theorem `prune_claimed`: a root that is claimed after pruning names a lease
  that is live after pruning, and its claim has not expired.

Current gaps:

- `version`, `updated_at` and the `occurred_at` of a public event are not
  modelled: no operation reads them.
-/

namespace Stemcell
namespace Maintenance

open Lib

/-- Clock readings and durations, in seconds. -/
abbrev Seconds := ℚ

def leaseTtlSeconds : Seconds := 90
def rootClaimTtlSeconds : Seconds := 120
def noticeClaimTtlSeconds : Seconds := 60
def maxPublicEvents : Nat := 200
def maxDeliveredNotices : Nat := 200
def maxContinuationReceipts : Nat := 2000
def continuationReceiptTtlSeconds : Seconds := 7 * 24 * 60 * 60
def maxIngressReceipts : Nat := 5000
def ingressReceiptTtlSeconds : Seconds := 7 * 24 * 60 * 60
def retryBackoffCapSeconds : Seconds := 300
def retryBackoffMaxDoublings : Nat := 6

/-- Back off failed root admission without allowing retry storms. -/
def retryBackoffSeconds (delay : Seconds) (attempts : Nat) : Seconds :=
  let base := max 0 delay
  let doublings := min (attempts - 1) retryBackoffMaxDoublings
  min (base * 2 ^ doublings) retryBackoffCapSeconds

/-- The digits `uuid4().hex` is written with. -/
def hexDigits : List Char := "0123456789abcdef".toList

/-- What the coordinator takes from its process: fresh identifiers, the hash of
a text and the process id.

`uuid4 n` is the `n`-th draw of `uuid4().hex`; draws never collide. -/
structure Host where
  uuid4 : Nat → String
  uuid4_injective : Function.Injective uuid4
  uuid4_ne_empty : ∀ n, uuid4 n ≠ ""
  uuid4_hex : ∀ n, ∀ c ∈ (uuid4 n).toList, c ∈ hexDigits
  sha256 : String → String
  getpid : Int

/-! ## Records of the document -/

/-- Update phases. -/
inductive Phase
  | available
  | draining
  | updating
  | validating
  | rollingBack
deriving DecidableEq, Repr

/-- The phase as the document spells it. -/
def Phase.text : Phase → String
  | available => "available"
  | draining => "draining"
  | updating => "updating"
  | validating => "validating"
  | rollingBack => "rolling_back"

/-- Public text for each phase. -/
def publicMessage : Phase → String
  | .available => "Silicon is available."
  | .draining =>
      "Silicon is finishing its current work before updating. " ++
        "Your message is safely queued; you don't need to resend it."
  | .updating =>
      "Silicon is updating. Your message is safely queued; you don't need to resend it."
  | .validating => "Silicon is restarting and being checked. Your message is safely queued."
  | .rollingBack =>
      "The update could not be completed. Silicon is resuming its previous version."

/-- Errors an operation raises; the stored document is then left alone. -/
inductive MaintenanceError
  | differentOperation
  | idMismatch
  | invalidPhase (phase : Phase)
  | invalidTransition (current requested : Phase)
  | notSafeToStop
  | ingressIdRequired
  | ingressConflict
deriving DecidableEq, Repr

/-- The text of each error. -/
def MaintenanceError.message : MaintenanceError → String
  | differentOperation => "A different Silicon maintenance operation is already active."
  | idMismatch => "maintenance id does not match the active update"
  | invalidPhase phase => "invalid maintenance phase: " ++ phase.text
  | invalidTransition current requested =>
      "invalid maintenance transition: " ++ current.text ++ " -> " ++ requested.text
  | notSafeToStop => "runtime has not reached safe_to_stop"
  | ingressIdRequired => "A durable ingress identity is required."
  | ingressConflict => "Durable ingress identity conflicts with an accepted root."

/-- A lease: proof that some accepted work is still running. -/
structure Lease where
  kind : String
  activityId : String
  contactId : String
  lineageId : String
  parentLeaseId : String
  admittedEpoch : Nat
  ownerPid : Int
  acquiredAt : Seconds
  heartbeatAt : Seconds
  expiresAt : Seconds
deriving DecidableEq, Repr

/-- The handle a lease holder keeps. -/
structure ActivityToken where
  leaseId : String
  lineageId : String
  admittedEpoch : Nat
  kind : String
  parentLeaseId : String
deriving DecidableEq, Repr

/-- The extra fields of a queued root that continues an accepted lineage. -/
structure Continuation where
  admittedEpoch : Nat
  lineageId : String
  transferLeaseId : String
deriving DecidableEq, Repr

/-- Status of a queued root. -/
inductive RootStatus
  | pending
  | claimed
deriving DecidableEq, Repr

/-- One entry of `root_queue`. -/
structure RootItem where
  queueId : String
  contactId : String
  context : String
  enqueuedAt : Seconds
  enqueuedEpoch : Nat
  status : RootStatus
  claimToken : String
  claimUntil : Seconds
  leaseId : String
  attempts : Nat
  notBefore : Seconds
  continuation : Option Continuation
deriving DecidableEq, Repr

/-- The right to run one claimed root. -/
structure RootAdmission where
  queueId : String
  claimToken : String
  contactId : String
  context : String
  activity : ActivityToken
deriving DecidableEq, Repr

/-- Answer of `enqueue_root`. -/
structure RootEnqueueResult where
  admission : Option RootAdmission
  queuedForMaintenance : Bool
  maintenanceId : String
  publicState : Phase
deriving DecidableEq, Repr

/-- Receipt of an accepted continuation or ingress root. -/
structure Receipt where
  contactId : String
  fingerprint : String
  acceptedAt : Seconds
deriving DecidableEq, Repr

/-- Status of a maintenance notice. -/
inductive NoticeStatus
  | pending
  | claimed
  | delivered
deriving DecidableEq, Repr

/-- A notice that tells a contact about the running maintenance. -/
structure Notice where
  noticeId : String
  maintenanceId : String
  contactId : String
  phase : Phase
  message : String
  createdAt : Seconds
  status : NoticeStatus
  claimToken : String
  claimUntil : Seconds
  deliveredAt : Seconds
deriving DecidableEq, Repr

/-- A process that has acknowledged the running maintenance. -/
structure Participant where
  epoch : Int
  pid : Int
  acknowledgedAt : Seconds
deriving DecidableEq, Repr

/-- A body-free public event. -/
structure PublicEvent where
  sequence : Nat
  event : String
  epoch : Nat
  maintenanceId : String
  phase : Phase
  outcome : String
deriving DecidableEq, Repr

/-- The stored document, with the number of `uuid4` draws made so far. -/
structure State where
  epoch : Nat
  phase : Phase
  maintenanceId : String
  requestedAt : Seconds
  deadlineAt : Seconds
  safeToStop : Bool
  lastOutcome : String
  leases : Dict String Lease
  rootQueue : List RootItem
  continuationReceipts : Dict String Receipt
  ingressReceipts : Dict String Receipt
  notices : List Notice
  publicEvents : List PublicEvent
  eventSequence : Nat
  participants : Dict String Participant
  uuidsDrawn : Nat

/-- `_default_state()`. -/
def defaultState : State where
  epoch := 0
  phase := .available
  maintenanceId := ""
  requestedAt := 0
  deadlineAt := 0
  safeToStop := false
  lastOutcome := ""
  leases := .empty
  rootQueue := []
  continuationReceipts := .empty
  ingressReceipts := .empty
  notices := []
  publicEvents := []
  eventSequence := 0
  participants := .empty
  uuidsDrawn := 0

/-- `value[:n]` for a text. -/
def clip (n : Nat) (text : String) : String :=
  String.ofList (text.toList.take n)

/-- `value or default` for a text. -/
def orElse (text default : String) : String :=
  if text = "" then default else text

/-- `_token_from_lease`. -/
def tokenFromLease (leaseId : String) (lease : Lease) : ActivityToken where
  leaseId := leaseId
  lineageId := orElse lease.lineageId leaseId
  admittedEpoch := lease.admittedEpoch
  kind := orElse lease.kind "activity"
  parentLeaseId := lease.parentLeaseId

/-- `item.get("transfer_lease_id") or ""`. -/
def RootItem.transferLeaseId (item : RootItem) : String :=
  match item.continuation with
  | none => ""
  | some c => c.transferLeaseId

/-- Give a claimed root back to the queue. -/
def RootItem.repend (item : RootItem) : RootItem :=
  { item with status := .pending, claimToken := "", claimUntil := 0, leaseId := "" }

/-- The identity of a root's content, as receipts record it. -/
def fingerprint (host : Host) (contactId context : String) : String :=
  host.sha256 (contactId ++ "\x1f" ++ context)

/-! ## Pruning -/

/-- `_emit`. -/
def emit (state : State) (event : String) (phase : Option Phase) (outcome : String) : State :=
  let item : PublicEvent :=
    { sequence := state.eventSequence + 1
      event := event
      epoch := state.epoch
      maintenanceId := state.maintenanceId
      phase := phase.getD state.phase
      outcome := outcome }
  let events := state.publicEvents ++ [item]
  { state with
    eventSequence := state.eventSequence + 1
    publicEvents := events.drop (events.length - maxPublicEvents) }

/-- A drain whose deadline has passed. -/
def State.DrainExpired (state : State) (now : Seconds) : Prop :=
  state.phase = .draining ∧ 0 < state.deadlineAt ∧ state.deadlineAt ≤ now

instance (state : State) (now : Seconds) : Decidable (state.DrainExpired now) :=
  inferInstanceAs (Decidable (_ ∧ _ ∧ _))

/-- `_cancel_expired_drain`. -/
def cancelExpiredDrain (state : State) (now : Seconds) : State :=
  if state.DrainExpired now then
    emit
      { state with
        phase := .available
        safeToStop := false
        lastOutcome := "deadline_expired"
        participants := .empty }
      "maintenance.cancelled" (some .available) "deadline_expired"
  else state

/-- Drop the leases that have run out. -/
def pruneLeases (state : State) (now : Seconds) : State :=
  let expired := state.leases.filter fun _ lease => lease.expiresAt ≤ now
  let kept := { state with leases := state.leases.filter fun _ lease => now < lease.expiresAt }
  if expired.isEmpty then kept else emit kept "activity.expired" none ""

/-- Drop the receipts older than `ttl`, then the oldest ones beyond `limit`. -/
def pruneReceipts (limit : Nat) (ttl : Seconds) (receipts : Dict String Receipt)
    (now : Seconds) : Dict String Receipt :=
  let kept := receipts.filter fun _ receipt => now - receipt.acceptedAt < ttl
  if limit < kept.size then
    let ordered := kept.entries.insertionSort fun a b => a.2.acceptedAt ≤ b.2.acceptedAt
    let dropped := (ordered.take (kept.size - limit)).map Prod.fst
    kept.filter fun queueId _ => queueId ∉ dropped
  else kept

def pruneContinuationReceipts : Dict String Receipt → Seconds → Dict String Receipt :=
  pruneReceipts maxContinuationReceipts continuationReceiptTtlSeconds

def pruneIngressReceipts : Dict String Receipt → Seconds → Dict String Receipt :=
  pruneReceipts maxIngressReceipts ingressReceiptTtlSeconds

/-- A claim survives pruning while its lease is there and it has not run out. -/
def claimAlive (leases : Dict String Lease) (now : Seconds) (item : RootItem) : Bool :=
  leases.contains item.leaseId && now < item.claimUntil

/-- Return a claimed root whose lease or claim is gone to `pending`. -/
def pruneRoot (leases : Dict String Lease) (now : Seconds) (item : RootItem) : RootItem :=
  if item.status = .claimed ∧ ¬ claimAlive leases now item then item.repend else item

/-- Return a notice whose claim has run out to `pending`. -/
def pruneNotice (now : Seconds) (notice : Notice) : Notice :=
  if notice.status = .claimed ∧ notice.claimUntil ≤ now then
    { notice with status := .pending, claimToken := "", claimUntil := 0 }
  else notice

/-- Keep only the newest delivered notices. -/
def trimDelivered (notices : List Notice) : List Notice :=
  let delivered := notices.filter fun notice => notice.status = .delivered
  if maxDeliveredNotices < delivered.length then
    let removed :=
      (delivered.take (delivered.length - maxDeliveredNotices)).map Notice.noticeId
    notices.filter fun notice => notice.noticeId ∉ removed
  else notices

/-- Withdraw an acknowledgement that no longer describes the document. -/
def revokeSafeToStop (state : State) : State :=
  if state.phase ≠ .draining then { state with safeToStop := false }
  else if state.safeToStop ∧ ¬ state.leases.isEmpty then { state with safeToStop := false }
  else state

/-- `_prune`. -/
def prune (state : State) (now : Seconds) : State :=
  let state := pruneLeases (cancelExpiredDrain state now) now
  revokeSafeToStop
    { state with
      continuationReceipts := pruneContinuationReceipts state.continuationReceipts now
      ingressReceipts := pruneIngressReceipts state.ingressReceipts now
      rootQueue := state.rootQueue.map (pruneRoot state.leases now)
      notices := trimDelivered (state.notices.map (pruneNotice now)) }

/-! ## What pruning does to each field -/

section Emit

variable (state : State) (event outcome : String) (phase : Option Phase)

@[simp] theorem emit_epoch :
    (emit state event phase outcome).epoch = state.epoch := by
  simp only [emit]

@[simp] theorem emit_phase :
    (emit state event phase outcome).phase = state.phase := by
  simp only [emit]

@[simp] theorem emit_safeToStop :
    (emit state event phase outcome).safeToStop = state.safeToStop := by
  simp only [emit]

@[simp] theorem emit_leases :
    (emit state event phase outcome).leases = state.leases := by
  simp only [emit]

@[simp] theorem emit_rootQueue :
    (emit state event phase outcome).rootQueue = state.rootQueue := by
  simp only [emit]

@[simp] theorem emit_continuationReceipts :
    (emit state event phase outcome).continuationReceipts = state.continuationReceipts := by
  simp only [emit]

@[simp] theorem emit_ingressReceipts :
    (emit state event phase outcome).ingressReceipts = state.ingressReceipts := by
  simp only [emit]

@[simp] theorem emit_participants :
    (emit state event phase outcome).participants = state.participants := by
  simp only [emit]

@[simp] theorem emit_uuidsDrawn :
    (emit state event phase outcome).uuidsDrawn = state.uuidsDrawn := by
  simp only [emit]

end Emit

section Prune

variable (state : State) (now : Seconds)

theorem cancelExpiredDrain_of_expired (h : state.DrainExpired now) :
    (cancelExpiredDrain state now).phase = .available ∧
      (cancelExpiredDrain state now).safeToStop = false ∧
      (cancelExpiredDrain state now).participants = .empty := by
  simp [cancelExpiredDrain, h]

theorem cancelExpiredDrain_of_not_expired (h : ¬ state.DrainExpired now) :
    cancelExpiredDrain state now = state := by
  simp [cancelExpiredDrain, h]

/-- Fields that cancelling an expired drain leaves alone. -/
theorem cancelExpiredDrain_frame :
    (cancelExpiredDrain state now).epoch = state.epoch ∧
      (cancelExpiredDrain state now).leases = state.leases ∧
      (cancelExpiredDrain state now).rootQueue = state.rootQueue ∧
      (cancelExpiredDrain state now).continuationReceipts = state.continuationReceipts ∧
      (cancelExpiredDrain state now).ingressReceipts = state.ingressReceipts ∧
      (cancelExpiredDrain state now).uuidsDrawn = state.uuidsDrawn := by
  by_cases h : state.DrainExpired now <;> simp [cancelExpiredDrain, h]

theorem pruneLeases_leases :
    (pruneLeases state now).leases =
      state.leases.filter fun _ lease => now < lease.expiresAt := by
  simp only [pruneLeases]
  split <;> simp

/-- Fields that dropping leases leaves alone. -/
theorem pruneLeases_frame :
    (pruneLeases state now).epoch = state.epoch ∧
      (pruneLeases state now).phase = state.phase ∧
      (pruneLeases state now).safeToStop = state.safeToStop ∧
      (pruneLeases state now).rootQueue = state.rootQueue ∧
      (pruneLeases state now).continuationReceipts = state.continuationReceipts ∧
      (pruneLeases state now).ingressReceipts = state.ingressReceipts ∧
      (pruneLeases state now).participants = state.participants ∧
      (pruneLeases state now).uuidsDrawn = state.uuidsDrawn := by
  simp only [pruneLeases]
  split <;> simp

theorem revokeSafeToStop_eq :
    revokeSafeToStop state =
      { state with safeToStop := (revokeSafeToStop state).safeToStop } := by
  unfold revokeSafeToStop
  split
  · rfl
  · split <;> rfl

@[simp]
theorem prune_epoch : (prune state now).epoch = state.epoch := by
  rw [prune, revokeSafeToStop_eq]
  exact (pruneLeases_frame _ now).1.trans (cancelExpiredDrain_frame state now).1

@[simp]
theorem prune_leases :
    (prune state now).leases = state.leases.filter fun _ lease => now < lease.expiresAt := by
  rw [prune, revokeSafeToStop_eq]
  exact (pruneLeases_leases _ now).trans
    (congrArg (Dict.filter · _) (cancelExpiredDrain_frame state now).2.1)

@[simp]
theorem prune_uuidsDrawn : (prune state now).uuidsDrawn = state.uuidsDrawn := by
  rw [prune, revokeSafeToStop_eq]
  exact (pruneLeases_frame _ now).2.2.2.2.2.2.2.trans
    (cancelExpiredDrain_frame state now).2.2.2.2.2

@[simp]
theorem prune_rootQueue :
    (prune state now).rootQueue =
      state.rootQueue.map (pruneRoot (prune state now).leases now) := by
  rw [prune, revokeSafeToStop_eq]
  have hqueue := (pruneLeases_frame (cancelExpiredDrain state now) now).2.2.2.1
  rw [(cancelExpiredDrain_frame state now).2.2.1] at hqueue
  simp only [hqueue]

@[simp]
theorem prune_continuationReceipts :
    (prune state now).continuationReceipts =
      pruneContinuationReceipts state.continuationReceipts now := by
  rw [prune, revokeSafeToStop_eq]
  have hreceipts := (pruneLeases_frame (cancelExpiredDrain state now) now).2.2.2.2.1
  rw [(cancelExpiredDrain_frame state now).2.2.2.1] at hreceipts
  simp only [hreceipts]

@[simp]
theorem prune_ingressReceipts :
    (prune state now).ingressReceipts = pruneIngressReceipts state.ingressReceipts now := by
  rw [prune, revokeSafeToStop_eq]
  have hreceipts := (pruneLeases_frame (cancelExpiredDrain state now) now).2.2.2.2.2.1
  rw [(cancelExpiredDrain_frame state now).2.2.2.2.1] at hreceipts
  simp only [hreceipts]

theorem prune_phase : (prune state now).phase = (cancelExpiredDrain state now).phase := by
  rw [prune, revokeSafeToStop_eq]
  exact (pruneLeases_frame _ now).2.1

theorem prune_participants :
    (prune state now).participants = (cancelExpiredDrain state now).participants := by
  rw [prune, revokeSafeToStop_eq]
  exact (pruneLeases_frame _ now).2.2.2.2.2.2.1

theorem prune_of_expired (h : state.DrainExpired now) :
    (prune state now).phase = .available := by
  rw [prune_phase]
  exact (cancelExpiredDrain_of_expired state now h).1

theorem prune_of_not_expired (h : ¬ state.DrainExpired now) :
    (prune state now).phase = state.phase ∧
      (prune state now).participants = state.participants := by
  rw [prune_phase, prune_participants, cancelExpiredDrain_of_not_expired state now h]
  exact ⟨rfl, rfl⟩

end Prune

theorem revokeSafeToStop_safeToStop {state : State}
    (h : (revokeSafeToStop state).safeToStop = true) :
    state.safeToStop = true ∧ state.phase = .draining ∧ state.leases.isEmpty = true := by
  unfold revokeSafeToStop at h
  split at h
  · simp at h
  · rename_i hphase
    split at h <;> rename_i hsafe
    · simp at h
    · refine ⟨h, not_not.mp hphase, ?_⟩
      by_contra hleases
      exact hsafe ⟨h, hleases⟩

/-- An acknowledgement survives pruning only where the document still drains
and holds no lease. -/
theorem prune_safeToStop {state : State} {now : Seconds}
    (h : (prune state now).safeToStop = true) :
    state.safeToStop = true ∧ ¬ state.DrainExpired now ∧
      (prune state now).phase = .draining ∧ (prune state now).leases.isEmpty = true := by
  have hphase := prune_phase state now
  rw [prune] at h
  obtain ⟨hsafe, hdraining, hleases⟩ := revokeSafeToStop_safeToStop h
  simp only [(pruneLeases_frame _ now).2.2.1] at hsafe
  simp only [(pruneLeases_frame _ now).2.1] at hdraining
  have hlive : ¬ state.DrainExpired now := by
    intro hexp
    rw [(cancelExpiredDrain_of_expired state now hexp).1] at hdraining
    simp at hdraining
  rw [cancelExpiredDrain_of_not_expired state now hlive] at hsafe
  refine ⟨hsafe, hlive, hphase.trans hdraining, ?_⟩
  rw [prune_leases]
  simpa only [pruneLeases_leases, (cancelExpiredDrain_frame state now).2.1] using hleases

/-- Pruning only forgets receipts. -/
theorem pruneReceipts_get? {limit : Nat} {ttl now : Seconds}
    {receipts : Dict String Receipt} {queueId : String} {receipt : Receipt}
    (h : (pruneReceipts limit ttl receipts now).get? queueId = some receipt) :
    receipts.get? queueId = some receipt := by
  unfold pruneReceipts at h
  simp only at h
  split at h
  · rw [Dict.get?_filter_eq_some_iff, Dict.get?_filter_eq_some_iff] at h
    exact h.1.1
  · rw [Dict.get?_filter_eq_some_iff] at h
    exact h.1

/-- Pruning returns a root to `pending` or leaves it alone. -/
theorem pruneRoot_cases (leases : Dict String Lease) (now : Seconds) (item : RootItem) :
    (pruneRoot leases now item = item.repend ∧ item.status = .claimed ∧
        claimAlive leases now item = false) ∨
      (pruneRoot leases now item = item ∧
        (item.status = .claimed → claimAlive leases now item = true)) := by
  unfold pruneRoot
  split <;> rename_i h
  · left
    exact ⟨rfl, h.1, by simpa using h.2⟩
  · right
    refine ⟨rfl, fun hclaimed => ?_⟩
    by_contra hdead
    exact h ⟨hclaimed, hdead⟩

end Maintenance
end Stemcell
