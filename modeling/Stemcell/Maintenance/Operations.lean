import Stemcell.Maintenance.State

/-!
# Operations of the maintenance coordinator

Every public method of `MaintenanceCoordinator` is one transaction: prune the
document, then apply a mutation that either returns a value with the next
document or raises and leaves the stored document alone.  This module
translates the mutations, in the order of the source.

Main results:

- Definition `call`: one call of a public method as one transaction.
- Definition `claimScan`: the loop of `claim_pending_roots`.
- Definition `presented`: which queued roots a batch of admissions addresses.

Current gaps:

- `transition` takes a parsed phase; the text normalisation in front of it only
  rejects texts that name no phase.
- `public_status` and `public_events` are one pruning read each, here `read`.
-/

namespace Stemcell
namespace Maintenance

open Lib

/-- The body of a transaction: the value returned and the next document. -/
abbrev Mutation (α : Type) := State → Seconds → Except MaintenanceError (α × State)

/-- `_transaction`. -/
def transaction {α : Type} (mutate : Mutation α) : Mutation α := fun state now =>
  mutate (prune state now) now

variable (host : Host)

/-! ## Update lifecycle -/

/-- `request_drain`. -/
def requestDrain (deadlineSeconds : Option Seconds) (maintenanceId : String) :
    Mutation Unit := fun state now =>
  if state.phase ≠ .available then
    if maintenanceId ≠ "" ∧ maintenanceId ≠ state.maintenanceId then
      .error .differentOperation
    else .ok ((), state)
  else
    let drawn := if maintenanceId = "" then state.uuidsDrawn + 1 else state.uuidsDrawn
    .ok ((), emit
      { state with
        epoch := state.epoch + 1
        phase := .draining
        maintenanceId := orElse maintenanceId ("update-" ++ host.uuid4 state.uuidsDrawn)
        requestedAt := now
        deadlineAt :=
          match deadlineSeconds with
          | none => 0
          | some seconds => now + max 0 seconds
        safeToStop := false
        lastOutcome := ""
        participants := .empty
        uuidsDrawn := drawn }
      "maintenance.requested" none "")

/-- `cancel_drain`. -/
def cancelDrain (maintenanceId outcome : String) : Mutation Bool := fun state _ =>
  if state.phase ≠ .draining then .ok (false, state)
  else if maintenanceId ≠ "" ∧ maintenanceId ≠ state.maintenanceId then .ok (false, state)
  else
    .ok (true, emit
      { state with
        phase := .available
        safeToStop := false
        lastOutcome := outcome
        participants := .empty }
      "maintenance.cancelled" none outcome)

/-- The lifecycle edges `transition` accepts.  A drain that is abandoned must be
able to unwind. -/
def allowedTransitions : Phase → List Phase
  | .draining => [.updating, .available, .rollingBack]
  | .updating => [.validating, .rollingBack]
  | .validating => [.available, .rollingBack]
  | .rollingBack => [.available]
  | .available => []

/-- The outcome recorded when the lifecycle returns to `available`. -/
def returnOutcome : Phase → String
  | .rollingBack => "rolled_back"
  | .draining => "cancelled"
  | _ => "updated"

/-- `transition`. -/
def transition (phase : Phase) (maintenanceId : String) : Mutation Unit := fun state _ =>
  if phase = .draining then .error (.invalidPhase phase)
  else if maintenanceId ≠ "" ∧ maintenanceId ≠ state.maintenanceId then .error .idMismatch
  else if phase = state.phase then .ok ((), state)
  else if phase ∉ allowedTransitions state.phase then
    .error (.invalidTransition state.phase phase)
  else if phase = .updating ∧ ¬ state.safeToStop then .error .notSafeToStop
  else if phase = .available then
    let outcome := returnOutcome state.phase
    .ok ((), emit
      { state with
        phase := phase
        safeToStop := false
        lastOutcome := outcome
        participants := .empty }
      "maintenance.available" none outcome)
  else
    .ok ((), emit { state with phase := phase, safeToStop := false }
      ("maintenance." ++ phase.text) none "")

/-! ## Leases and notices -/

/-- The lease `_new_lease` records. -/
def makeLease (now : Seconds) (kind activityId contactId : String) (admittedEpoch : Nat)
    (lineageId parentLeaseId : String) (ttl : Seconds) (leaseId : String) : Lease where
  kind := clip 64 (orElse kind "activity")
  activityId := clip 200 activityId
  contactId := clip 200 contactId
  lineageId := orElse lineageId leaseId
  parentLeaseId := parentLeaseId
  admittedEpoch := admittedEpoch
  ownerPid := host.getpid
  acquiredAt := now
  heartbeatAt := now
  expiresAt := now + max 5 ttl

/-- Record a new lease under the next `uuid4` draw. -/
def addLease (state : State) (lease : String → Lease) : ActivityToken × State :=
  let leaseId := host.uuid4 state.uuidsDrawn
  (tokenFromLease leaseId (lease leaseId),
    { state with
      leases := state.leases.set leaseId (lease leaseId)
      safeToStop := false
      uuidsDrawn := state.uuidsDrawn + 1 })

/-- `_new_lease`. -/
def newLease (state : State) (now : Seconds) (kind activityId contactId : String)
    (admittedEpoch : Nat) (lineageId parentLeaseId : String) (ttl : Seconds) :
    ActivityToken × State :=
  addLease host state
    (makeLease host now kind activityId contactId admittedEpoch lineageId parentLeaseId ttl)

/-- `_ensure_notice`. -/
def ensureNotice (state : State) (contactId : String) (phase : Phase) (now : Seconds) :
    State :=
  if state.notices.any fun notice =>
      notice.maintenanceId = state.maintenanceId ∧ notice.contactId = contactId then
    state
  else
    { state with
      notices := state.notices ++
        [{ noticeId := host.uuid4 state.uuidsDrawn
           maintenanceId := state.maintenanceId
           contactId := contactId
           phase := phase
           message := publicMessage phase
           createdAt := now
           status := .pending
           claimToken := ""
           claimUntil := 0
           deliveredAt := 0 }]
      uuidsDrawn := state.uuidsDrawn + 1 }

/-! ## Queueing and claiming roots -/

/-- A root as it enters the queue. -/
def pendingRoot (state : State) (now : Seconds) (queueId contactId context : String)
    (continuation : Option Continuation) : RootItem where
  queueId := queueId
  contactId := contactId
  context := context
  enqueuedAt := now
  enqueuedEpoch := state.epoch
  status := .pending
  claimToken := ""
  claimUntil := 0
  leaseId := ""
  attempts := 0
  notBefore := 0
  continuation := continuation

/-- The continuation that carries on the lineage of a lease. -/
def continuationOf (leaseId : String) (lease : Lease) : Continuation where
  admittedEpoch := lease.admittedEpoch
  lineageId := orElse lease.lineageId leaseId
  transferLeaseId := leaseId

/-- The epoch a claim of `item` is admitted under. -/
def claimEpoch (state : State) (item : RootItem) : Nat :=
  match item.continuation with
  | some c => c.admittedEpoch
  | none => state.epoch

/-- The lineage a claim of `item` carries on; empty for a new lineage. -/
def claimLineage (item : RootItem) : String :=
  match item.continuation with
  | some c => c.lineageId
  | none => ""

/-- `_claim_root_item`: the admission, the claimed item and the document around
it.  The queue of the returned document is the one passed in. -/
def claimRootItem (state : State) (item : RootItem) (now : Seconds) :
    RootAdmission × RootItem × State :=
  let claimToken := host.uuid4 state.uuidsDrawn
  let leased := newLease host { state with uuidsDrawn := state.uuidsDrawn + 1 } now
    "manager_root" item.queueId item.contactId (claimEpoch state item) (claimLineage item)
    item.transferLeaseId leaseTtlSeconds
  let activity := leased.1
  let state' :=
    if item.transferLeaseId = "" then leased.2
    else { leased.2 with leases := leased.2.leases.pop item.transferLeaseId }
  ({ queueId := item.queueId
     claimToken := claimToken
     contactId := item.contactId
     context := item.context
     activity := activity },
   { item with
     status := .claimed
     claimToken := claimToken
     claimUntil := now + rootClaimTtlSeconds
     leaseId := activity.leaseId },
   state')

/-- `enqueue_root`. -/
def enqueueRoot (contactId context : String) (admitRoot : Bool) :
    Mutation RootEnqueueResult := fun state now =>
  let queueId := host.uuid4 state.uuidsDrawn
  let state := { state with uuidsDrawn := state.uuidsDrawn + 1 }
  let item := pendingRoot state now queueId contactId context none
  if state.phase = .available ∧ admitRoot then
    let claimed := claimRootItem host state item now
    .ok
      ({ admission := some claimed.1
         queuedForMaintenance := false
         maintenanceId := ""
         publicState := .available },
       { claimed.2.2 with rootQueue := state.rootQueue ++ [claimed.2.1] })
  else if state.phase = .available then
    .ok
      ({ admission := none
         queuedForMaintenance := false
         maintenanceId := ""
         publicState := state.phase },
       { state with rootQueue := state.rootQueue ++ [item] })
  else
    .ok
      ({ admission := none
         queuedForMaintenance := true
         maintenanceId := state.maintenanceId
         publicState := state.phase },
       ensureNotice host { state with rootQueue := state.rootQueue ++ [item] }
         contactId state.phase now)

/-- The queue id of an ingress identity. -/
def ingressQueueId (ingressId : String) : String :=
  "ingress-" ++ host.sha256 ingressId

/-- The first queued root with id `queueId`. -/
def findRoot (queue : List RootItem) (queueId : String) : Option RootItem :=
  queue.find? fun item => item.queueId = queueId

/-- `enqueue_ingress_root`. -/
def enqueueIngressRoot (contactId context ingressId : String) :
    Mutation Bool := fun state now =>
  if ingressId = "" then .error .ingressIdRequired
  else
    let queueId := ingressQueueId host ingressId
    let print := fingerprint host contactId context
    match state.ingressReceipts.get? queueId with
    | some receipt =>
        if receipt.fingerprint ≠ print ∨ receipt.contactId ≠ contactId then
          .error .ingressConflict
        else .ok (true, state)
    | none =>
        match findRoot state.rootQueue queueId with
        | some existing =>
            if existing.contactId ≠ contactId ∨
                fingerprint host existing.contactId existing.context ≠ print then
              .error .ingressConflict
            else
              .ok (true,
                { state with
                  ingressReceipts := state.ingressReceipts.set queueId
                    { contactId := contactId
                      fingerprint := print
                      acceptedAt := existing.enqueuedAt } })
        | none =>
            let item := pendingRoot state now queueId contactId context none
            let queued :=
              { state with
                rootQueue := state.rootQueue ++ [item]
                ingressReceipts := state.ingressReceipts.set queueId
                  { contactId := contactId, fingerprint := print, acceptedAt := now } }
            let noticed :=
              if state.phase ≠ .available then
                ensureNotice host queued contactId state.phase now
              else queued
            .ok (true, { noticed with safeToStop := false })

/-- What the claim loop has done so far. -/
structure ClaimProgress where
  state : State
  admissions : List RootAdmission
  excluded : List String

/-- May `claim_pending_roots` claim this root? -/
def claimable (state : State) (now : Seconds) (excluded : List String) (item : RootItem) :
    Bool :=
  item.status = .pending && item.contactId ∉ excluded && item.notBefore ≤ now &&
    (state.phase ≠ .draining ||
      match item.continuation with
      | some c => c.admittedEpoch < state.epoch
      | none => false)

/-- The loop of `claim_pending_roots` over the queue. -/
def claimScan (limit : Nat) (uniqueContacts : Bool) (now : Seconds) :
    List RootItem → ClaimProgress → List RootItem × ClaimProgress
  | [], progress => ([], progress)
  | item :: rest, progress =>
      if limit ≤ progress.admissions.length then (item :: rest, progress)
      else if claimable progress.state now progress.excluded item then
        let claimed := claimRootItem host progress.state item now
        let scanned := claimScan limit uniqueContacts now rest
          { state := claimed.2.2
            admissions := progress.admissions ++ [claimed.1]
            excluded :=
              if uniqueContacts then item.contactId :: progress.excluded
              else progress.excluded }
        (claimed.2.1 :: scanned.1, scanned.2)
      else
        let scanned := claimScan limit uniqueContacts now rest progress
        (item :: scanned.1, scanned.2)

/-- `claim_pending_roots`. -/
def claimPendingRoots (limit : Int) (excludeContactIds : List String)
    (uniqueContacts : Bool) : Mutation (List RootAdmission) := fun state now =>
  if state.phase ≠ .available ∧ state.phase ≠ .draining then .ok ([], state)
  else
    let scanned := claimScan host (max 1 limit).toNat uniqueContacts now state.rootQueue
      { state := state, admissions := [], excluded := excludeContactIds }
    .ok (scanned.2.admissions, { scanned.2.state with rootQueue := scanned.1 })

/-- `enqueue_continuation`, with its queue id settled. -/
def transferContinuation (contactId context leaseId queueId : String) :
    Mutation Bool := fun state now =>
  let print := fingerprint host contactId context
  match state.continuationReceipts.get? queueId with
  | some receipt =>
      .ok (receipt.fingerprint = print ∧ receipt.contactId = contactId, state)
  | none =>
      match findRoot state.rootQueue queueId with
      | some existing =>
          if existing.contactId = contactId ∧
              fingerprint host contactId existing.context = print then
            .ok (true,
              { state with
                continuationReceipts := state.continuationReceipts.set queueId
                  { contactId := contactId
                    fingerprint := print
                    acceptedAt := existing.enqueuedAt } })
          else .ok (false, state)
      | none =>
          match state.leases.get? leaseId with
          | none => .ok (false, state)
          | some lease =>
              let item := pendingRoot state now queueId contactId context
                (some (continuationOf leaseId lease))
              .ok (true,
                { state with
                  rootQueue := state.rootQueue ++ [item]
                  leases := state.leases.pop leaseId
                  continuationReceipts := state.continuationReceipts.set queueId
                    { contactId := contactId, fingerprint := print, acceptedAt := now }
                  safeToStop := false })

/-- `enqueue_continuation`. -/
def enqueueContinuation (contactId context leaseId queueId : String) :
    Mutation Bool := fun state now =>
  if queueId = "" then
    transferContinuation host contactId context leaseId (host.uuid4 state.uuidsDrawn)
      { state with uuidsDrawn := state.uuidsDrawn + 1 } now
  else transferContinuation host contactId context leaseId queueId state now

/-! ## Activities -/

/-- `heartbeat`. -/
def heartbeat (leaseId : String) (ttl : Seconds) : Mutation Bool := fun state now =>
  match state.leases.get? leaseId with
  | none => .ok (false, state)
  | some lease =>
      .ok (true,
        { state with
          leases := state.leases.set leaseId
            { lease with heartbeatAt := now, expiresAt := now + max 5 ttl }
          rootQueue := state.rootQueue.map fun item =>
            if item.leaseId = leaseId then
              { item with claimUntil := now + rootClaimTtlSeconds }
            else item })

/-- `get_activity`. -/
def getActivity (leaseId : String) : Mutation (Option ActivityToken) := fun state _ =>
  .ok ((state.leases.get? leaseId).map (tokenFromLease leaseId), state)

/-- `acquire_activity`; `parent` is the explicit parent or the bound activity. -/
def acquireActivity (kind activityId contactId : String) (parent : Option ActivityToken)
    (ttl : Seconds) : Mutation (Option ActivityToken) := fun state now =>
  if state.phase = .available then
    let acquired := newLease host state now kind activityId contactId state.epoch
      ((parent.map ActivityToken.lineageId).getD "")
      ((parent.map ActivityToken.leaseId).getD "") ttl
    .ok (some acquired.1, acquired.2)
  else
    match parent with
    | none => .ok (none, state)
    | some parent =>
        if ¬ state.leases.contains parent.leaseId then .ok (none, state)
        else if state.epoch ≤ parent.admittedEpoch then .ok (none, state)
        else
          let acquired := newLease host state now kind activityId contactId
            parent.admittedEpoch parent.lineageId parent.leaseId ttl
          .ok (some acquired.1, acquired.2)

/-- `adopt_prefence_activity`. -/
def adoptPrefenceActivity (kind activityId contactId : String) (startedAt ttl : Seconds) :
    Mutation (Option ActivityToken) := fun state now =>
  if state.phase ≠ .available ∧
      (state.requestedAt = 0 ∨ (startedAt ≠ 0 ∧ state.requestedAt < startedAt)) then
    .ok (none, state)
  else
    let admittedEpoch := if state.phase = .available then state.epoch else state.epoch - 1
    let acquired := newLease host state now kind activityId contactId admittedEpoch "" "" ttl
    .ok (some acquired.1, acquired.2)

/-- `release`. -/
def release (leaseId : String) : Mutation Bool := fun state _ =>
  .ok (state.leases.contains leaseId, { state with leases := state.leases.pop leaseId })

/-! ## Settling claimed roots -/

/-- The `keys` table of a batch; a later admission of the same root wins. -/
def presentedKeys (admissions : List RootAdmission) : Dict String (String × String) :=
  admissions.foldl
    (fun keys a => keys.set a.queueId (a.claimToken, a.activity.leaseId)) .empty

/-- The batch addresses this queued root under its current claim. -/
def presented (admissions : List RootAdmission) (item : RootItem) : Bool :=
  (presentedKeys admissions).get? item.queueId = some (item.claimToken, item.leaseId)

/-- Drop the leases of the roots that the batch addresses. -/
def popPresented (admissions : List RootAdmission) (state : State) : Dict String Lease :=
  let settled := (state.rootQueue.filter (presented admissions)).map RootItem.leaseId
  state.leases.filter fun leaseId _ => leaseId ∉ settled

/-- `complete_roots`. -/
def completeRoots (admissions : List RootAdmission) : Mutation Unit := fun state _ =>
  .ok ((),
    { state with
      leases := popPresented admissions state
      rootQueue := state.rootQueue.filter fun item => ¬ presented admissions item })

/-- `retry_roots`. -/
def retryRoots (admissions : List RootAdmission) (delay : Seconds) :
    Mutation Unit := fun state now =>
  .ok ((),
    { state with
      leases := popPresented admissions state
      rootQueue := state.rootQueue.map fun item =>
        if presented admissions item then
          { item.repend with
            attempts := item.attempts + 1
            notBefore := now + retryBackoffSeconds delay (item.attempts + 1) }
        else item })

/-- `defer_roots`: return capacity-only claims without a penalty. -/
def deferRoots (admissions : List RootAdmission) : Mutation Unit := fun state _ =>
  .ok ((),
    { state with
      leases := popPresented admissions state
      rootQueue := state.rootQueue.map fun item =>
        if presented admissions item then item.repend else item })

/-! ## Notices and quiescence -/

/-- What `claim_notices` hands out. -/
structure ClaimedNotice where
  noticeId : String
  claimToken : String
  contactId : String
  maintenanceId : String
  phase : Phase
  message : String
deriving DecidableEq, Repr

/-- The loop of `claim_notices`; `drawn` counts the `uuid4` draws. -/
def noticeScan (limit : Nat) (now : Seconds) :
    List Notice → Nat → List ClaimedNotice → List Notice × Nat × List ClaimedNotice
  | [], drawn, claimed => ([], drawn, claimed)
  | notice :: rest, drawn, claimed =>
      if limit ≤ claimed.length then (notice :: rest, drawn, claimed)
      else if notice.status = .pending then
        let token := host.uuid4 drawn
        let scanned := noticeScan limit now rest (drawn + 1)
          (claimed ++
            [{ noticeId := notice.noticeId
               claimToken := token
               contactId := notice.contactId
               maintenanceId := notice.maintenanceId
               phase := notice.phase
               message := notice.message }])
        ({ notice with
           status := .claimed
           claimToken := token
           claimUntil := now + noticeClaimTtlSeconds } :: scanned.1, scanned.2)
      else
        let scanned := noticeScan limit now rest drawn claimed
        (notice :: scanned.1, scanned.2)

/-- `claim_notices`. -/
def claimNotices (limit : Int) : Mutation (List ClaimedNotice) := fun state now =>
  let scanned :=
    noticeScan host (max 1 limit).toNat now state.notices state.uuidsDrawn []
  .ok (scanned.2.2, { state with notices := scanned.1, uuidsDrawn := scanned.2.1 })

/-- Settle the first notice that carries this claim. -/
def finishScan (noticeId claimToken : String) (delivered : Bool) (now : Seconds) :
    List Notice → Bool × List Notice
  | [] => (false, [])
  | notice :: rest =>
      if notice.noticeId = noticeId ∧ notice.claimToken = claimToken then
        let settled :=
          if delivered then { notice with status := .delivered, deliveredAt := now }
          else { notice with status := .pending }
        (true, { settled with claimToken := "", claimUntil := 0 } :: rest)
      else
        let scanned := finishScan noticeId claimToken delivered now rest
        (scanned.1, notice :: scanned.2)

/-- `finish_notice`. -/
def finishNotice (noticeId claimToken : String) (delivered : Bool) :
    Mutation Bool := fun state now =>
  let scanned := finishScan noticeId claimToken delivered now state.notices
  .ok (scanned.1, { state with notices := scanned.2 })

/-- A continuation that waits in the queue counts as blocking activity. -/
def RootItem.pendingContinuation (item : RootItem) : Bool :=
  item.status = .pending && item.continuation.isSome

/-- `acknowledge_runtime_quiescent`. -/
def acknowledgeRuntimeQuiescent (epoch : Int)
    (durableInputsSecured outboxFlushed : Option Bool) (pid : Option Int) :
    Mutation Bool := fun state now =>
  let inputsSecured := durableInputsSecured.getD (outboxFlushed.getD false)
  if state.phase ≠ .draining ∨ (state.epoch : Int) ≠ epoch ∨ ¬ state.leases.isEmpty ∨
      state.rootQueue.any RootItem.pendingContinuation ∨ ¬ inputsSecured then
    .ok (false, { state with safeToStop := false })
  else
    .ok (true,
      { state with
        participants := state.participants.set "runtime"
          { epoch := epoch
            pid := if pid.getD 0 = 0 then host.getpid else pid.getD 0
            acknowledgedAt := now }
        safeToStop := true })

/-- `_read`. -/
def readState : Mutation Unit := fun state _ =>
  .ok ((), state)

/-! ## Calls -/

/-- A call of a public method. -/
inductive Op
  | requestDrain (deadlineSeconds : Option Seconds) (maintenanceId : String)
  | cancelDrain (maintenanceId outcome : String)
  | transition (phase : Phase) (maintenanceId : String)
  | enqueueRoot (contactId context : String) (admitRoot : Bool)
  | enqueueIngressRoot (contactId context ingressId : String)
  | claimPendingRoots (limit : Int) (excludeContactIds : List String)
      (uniqueContacts : Bool)
  | enqueueContinuation (contactId context leaseId queueId : String)
  | heartbeat (leaseId : String) (ttl : Seconds)
  | getActivity (leaseId : String)
  | acquireActivity (kind activityId contactId : String) (parent : Option ActivityToken)
      (ttl : Seconds)
  | adoptPrefenceActivity (kind activityId contactId : String) (startedAt ttl : Seconds)
  | release (leaseId : String)
  | completeRoots (admissions : List RootAdmission)
  | retryRoots (admissions : List RootAdmission) (delay : Seconds)
  | deferRoots (admissions : List RootAdmission)
  | claimNotices (limit : Int)
  | finishNotice (noticeId claimToken : String) (delivered : Bool)
  | acknowledgeRuntimeQuiescent (epoch : Int)
      (durableInputsSecured outboxFlushed : Option Bool) (pid : Option Int)
  | read

/-- The value a call returns. -/
inductive Reply
  | done
  | flag (value : Bool)
  | enqueued (result : RootEnqueueResult)
  | admissions (roots : List RootAdmission)
  | activity (token : Option ActivityToken)
  | notices (claimed : List ClaimedNotice)

/-- Wrap the value of a mutation. -/
def Mutation.reply {α : Type} (mutate : Mutation α) (wrap : α → Reply) :
    Mutation Reply := fun state now =>
  match mutate state now with
  | .ok (value, state') => .ok (wrap value, state')
  | .error e => .error e

/-- The mutation of a call, before its transaction prunes the document. -/
def mutation : Op → Mutation Reply
  | .requestDrain deadline id => (requestDrain host deadline id).reply fun _ => .done
  | .cancelDrain id outcome => (cancelDrain id outcome).reply .flag
  | .transition phase id => (Maintenance.transition phase id).reply fun _ => .done
  | .enqueueRoot contact context admitRoot =>
      (enqueueRoot host contact context admitRoot).reply .enqueued
  | .enqueueIngressRoot contact context ingress =>
      (enqueueIngressRoot host contact context ingress).reply .flag
  | .claimPendingRoots limit excluded unique =>
      (claimPendingRoots host limit excluded unique).reply .admissions
  | .enqueueContinuation contact context lease queue =>
      (enqueueContinuation host contact context lease queue).reply .flag
  | .heartbeat lease ttl => (Maintenance.heartbeat lease ttl).reply .flag
  | .getActivity lease => (Maintenance.getActivity lease).reply .activity
  | .acquireActivity kind activity contact parent ttl =>
      (acquireActivity host kind activity contact parent ttl).reply .activity
  | .adoptPrefenceActivity kind activity contact started ttl =>
      (adoptPrefenceActivity host kind activity contact started ttl).reply .activity
  | .release lease => (Maintenance.release lease).reply .flag
  | .completeRoots roots => (Maintenance.completeRoots roots).reply fun _ => .done
  | .retryRoots roots delay => (Maintenance.retryRoots roots delay).reply fun _ => .done
  | .deferRoots roots => (Maintenance.deferRoots roots).reply fun _ => .done
  | .claimNotices limit => (claimNotices host limit).reply .notices
  | .finishNotice id token delivered =>
      (Maintenance.finishNotice id token delivered).reply .flag
  | .acknowledgeRuntimeQuiescent epoch secured flushed pid =>
      (acknowledgeRuntimeQuiescent host epoch secured flushed pid).reply .flag
  | .read => readState.reply fun _ => .done

/-- One call as one transaction. -/
def call (op : Op) : Mutation Reply :=
  transaction (mutation host op)

end Maintenance
end Stemcell
