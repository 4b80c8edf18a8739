import Stemcell.LongTasks.QueuedRoots

/-!
# Persisted lifecycles

The long-task state file holds one entry for each contact, a lifecycle that is active or the
record of a closed one, and the queues of parked roots.  Every change of the file is one
transaction: it is read, changed and replaced under its lock.

Main results:

- Definitions `claimContact`, `persist` and `close`: what an instance of a lifecycle does to the
  entry of its contact.
- Definition `recordPendingWorkerState`: what another process does to it.
- Theorem `get?_prune`: what pruning leaves of an entry.

Current gaps:

- Titles, activity notes, aliases, timers, attempts and the accuracy schedule of an entry are not
  modelled: no decision of these transactions reads them.
- Entries are well formed, so what replaces malformed ones is left out.
-/

namespace Stemcell
namespace LongTasks

open Lib
open Maintenance (Seconds)

/-! ## Entries -/

def leaseSeconds : Seconds := 30
def staleActiveSeconds : Seconds := 30 * 24 * 60 * 60
def tombstoneSeconds : Seconds := 7 * 24 * 60 * 60
def maxActiveContacts : Nat := 128
def maxStateContacts : Nat := 256

/-- A process, and the hexadecimal digits of the digest of a text. -/
structure Machine extends Process where
  sha256 : String → List Char

/-- Phases of a worker that the card of the task has to show. -/
inductive Phase
  | prepared
  | launched
  | published
deriving DecidableEq, Repr

/-- What is known of a worker and has not reached its card. -/
structure Intent where
  invocationId : String
  phase : Phase
  state : String
  stateDescription : String
  attempts : Nat
  nextAttemptAt : Seconds
  factUpdatedAt : Seconds
deriving DecidableEq, Repr

/-- An active lifecycle as it is persisted; of a pending reply and of a pending creation only
whether there is one. -/
structure Record where
  runId : String
  taskId : String
  pendingWorkers : Dict String Intent
  workerDeliveryWatermarks : Dict String Seconds
  pendingReply : Bool
  pendingCreateSpec : Bool
  settleRequested : Bool
  terminal : Bool
  managerRunning : Bool
  leaseOwner : String
  leasePid : Int
  leaseUntil : Seconds
  updatedAt : Seconds
deriving DecidableEq, Repr

/-- What is kept of a closed lifecycle. -/
structure Tombstone where
  runFingerprint : String
  taskFingerprint : String
  settledAt : Seconds
  updatedAt : Seconds
deriving DecidableEq, Repr

/-- The entry of a contact. -/
inductive Entry
  | active (record : Record)
  | settled (tombstone : Tombstone)
deriving DecidableEq, Repr

def Entry.isActive : Entry → Bool
  | .active _ => true
  | .settled _ => false

def Entry.updatedAt : Entry → Seconds
  | .active record => record.updatedAt
  | .settled tombstone => tombstone.updatedAt

abbrev Contacts := Dict String Entry

/-- The state file. -/
structure TaskState where
  contacts : Contacts
  queued : QueuedRoots
deriving DecidableEq, Repr

/-- `_default_state`. -/
def TaskState.default : TaskState where
  contacts := Dict.empty
  queued := Dict.empty

/-- `_fingerprint`. -/
def fingerprint (sha256 : String → List Char) (value : String) : String :=
  String.ofList ((sha256 value).take 16)

/-- `_stable_id`. -/
def stableId (sha256 : String → List Char) (kind : String) (parts : List String) : String :=
  kind ++ ":" ++ String.ofList ((sha256 ("\x1f".intercalate parts)).take 24)

/-- `_retry_at`, from a reading of the clock. -/
def retryAt (now : Seconds) (attempts : Nat) : Seconds :=
  now + min (2 ^ min (max 1 attempts) 6) 60

variable (machine : Machine) (now : Seconds)

/-- `_tombstone`. -/
def tombstone (record : Record) : Tombstone where
  runFingerprint := fingerprint machine.sha256 record.runId
  taskFingerprint := fingerprint machine.sha256 record.taskId
  settledAt := now
  updatedAt := now

/-- `_entry_has_durable_delivery`. -/
def Record.hasDurableDelivery (record : Record) : Bool :=
  record.pendingReply || !record.pendingWorkers.isEmpty || record.pendingCreateSpec ||
    record.settleRequested

/-- `_entry_has_live_lease`. -/
def Record.hasLiveLease (record : Record) : Bool :=
  record.leaseOwner ≠ "" && now < record.leaseUntil && machine.alive record.leasePid

/-- `_recoverable_terminal_entry`. -/
def Record.recoverableTerminal (record : Record) : Bool :=
  record.terminal && !record.hasDurableDelivery && !record.hasLiveLease machine now

/-- A lease that keeps this owner away. -/
def Record.leasedToOther (owner : String) (record : Record) : Bool :=
  record.leaseOwner ≠ owner && record.hasLiveLease machine now

/-! ## Pruning -/

/-- The loop of `_prune_state_locked` at one entry. -/
def pruneEntry : Entry → Option Entry
  | .active record =>
      if record.updatedAt ≠ 0 ∧ staleActiveSeconds < now - record.updatedAt then
        some (.settled (tombstone machine now record))
      else some (.active record)
  | .settled tombstone =>
      let settled := if tombstone.settledAt ≠ 0 then tombstone.settledAt else tombstone.updatedAt
      if settled ≠ 0 ∧ tombstoneSeconds < now - settled then none
      else some (.settled tombstone)

/-- The order that closed lifecycles are dropped in. -/
def droppedBefore (a b : String × Entry) : Bool :=
  a.2.updatedAt < b.2.updatedAt || (a.2.updatedAt = b.2.updatedAt && a.1 ≤ b.1)

/-- The closed lifecycles that are too many. -/
def excess (contacts : Contacts) : List String :=
  (((contacts.entries.filter fun entry => !entry.2.isActive).mergeSort droppedBefore).take
    (contacts.size - maxStateContacts)).map Prod.fst

/-- `_prune_state_locked` for the contacts. -/
def pruneContacts (contacts : Contacts) : Contacts :=
  let kept := (contacts.filter fun _ entry => (pruneEntry machine now entry).isSome).mapValues
    fun entry => (pruneEntry machine now entry).getD entry
  kept.filter fun contactId _ => contactId ∉ excess kept

/-- `_prune_state_locked` for the queues. -/
def pruneQueued (queued : QueuedRoots) : QueuedRoots :=
  queued.filter fun _ items => !items.isEmpty

/-- `_prune_state_locked`. -/
def prune (state : TaskState) : TaskState where
  contacts := pruneContacts machine now state.contacts
  queued := pruneQueued state.queued

/-! ## Transactions -/

/-- A lifecycle whose terminal state is delivered and whose lease has run out is closed. -/
def settleTerminal (contactId : String) (contacts : Contacts) : Contacts :=
  match contacts.get? contactId with
  | some (.active record) =>
      if record.recoverableTerminal machine now then
        contacts.set contactId (.settled (tombstone machine now record))
      else contacts
  | _ => contacts

/-- `_recover_expired_terminal_entry`. -/
def recoverExpiredTerminalEntry (contactId : String) (state : TaskState) : TaskState :=
  let state := prune machine now state
  { state with contacts := settleTerminal machine now contactId state.contacts }

/-- The active lifecycles. -/
def activeCount (contacts : Contacts) : Nat :=
  (contacts.entries.filter fun entry => entry.2.isActive).length

/-- A lifecycle that nothing is known of yet. -/
def Record.fresh (runId : String) : Record where
  runId := runId
  taskId := ""
  pendingWorkers := Dict.empty
  workerDeliveryWatermarks := Dict.empty
  pendingReply := false
  pendingCreateSpec := false
  settleRequested := false
  terminal := false
  managerRunning := false
  leaseOwner := ""
  leasePid := 0
  leaseUntil := 0
  updatedAt := now

/-- The lifecycle that `_claim_contact` goes on with. -/
def claimable (contactId expectedRunId : String) (allowCreate : Bool) (contacts : Contacts) :
    Option Record :=
  match contacts.get? contactId with
  | some (.active record) => some record
  | _ =>
      if allowCreate && activeCount contacts < maxActiveContacts then
        some (.fresh now expectedRunId)
      else none

/-- `_claim_contact`: the claimed lifecycle, and the state. -/
def claimContact (contactId owner expectedRunId : String) (allowCreate : Bool)
    (state : TaskState) : Option Record × TaskState :=
  let state := prune machine now state
  match claimable now contactId expectedRunId allowCreate state.contacts with
  | none => (none, state)
  | some record =>
      -- a lifecycle that is created has no owner yet
      if record.leasedToOther machine now owner then (none, state)
      else
        let record := { record with
          leaseOwner := owner
          leasePid := machine.pid
          leaseUntil := now + leaseSeconds
          updatedAt := now }
        (some record, { state with contacts := state.contacts.set contactId (.active record) })

/-- What `_persist` writes of a worker that another process may have written to. -/
def mergeWorker (payload : Record) (workers : Dict String Intent) (entry : String × Intent) :
    Dict String Intent :=
  match workers.get? entry.1 with
  | some localIntent =>
      if localIntent.factUpdatedAt < entry.2.factUpdatedAt then workers.set entry.1 entry.2
      else workers
  | none =>
      if (payload.workerDeliveryWatermarks.get? entry.1).getD 0 < entry.2.factUpdatedAt then
        workers.set entry.1 { entry.2 with phase := .published }
      else workers

/-- What `_persist` writes over a lifecycle. -/
def mergeWorkers (payload current : Record) : Record :=
  { payload with
    pendingWorkers := current.pendingWorkers.entries.foldl (mergeWorker payload)
      payload.pendingWorkers }

/-- The transaction of `_persist(active=True)`: whether it has written, and the state. -/
def persist (contactId : String) (payload : Record) (state : TaskState) : Bool × TaskState :=
  let state := prune machine now state
  match state.contacts.get? contactId with
  | some (.active current) =>
      if current.leasedToOther machine now payload.leaseOwner then (false, state)
      else
        (true, { state with
          contacts := state.contacts.set contactId (.active (mergeWorkers payload current)) })
  | _ => (true, { state with contacts := state.contacts.set contactId (.active payload) })

/-- The transaction of `_close_locked`. -/
def close (contactId : String) (payload : Record) (state : TaskState) : TaskState :=
  let contacts :=
    match state.contacts.get? contactId with
    | some (.active current) =>
        if current.leaseOwner = payload.leaseOwner then
          state.contacts.set contactId (.settled (tombstone machine now payload))
        else state.contacts
    | _ => state.contacts
  prune machine now { state with contacts := contacts }

/-- What another process writes of a worker that the entry knows. -/
def Intent.record (stateName description : String) (intent : Intent) : Intent :=
  { intent with
    phase := .launched
    state := stateName
    stateDescription := if description = "" then intent.stateDescription else description
    nextAttemptAt := 0
    factUpdatedAt := now }

/-- The update of `record_pending_worker_state`, if there is something to update. -/
def Record.recordWorker (workerId stateName description : String) (record : Record) :
    Option Record :=
  (record.pendingWorkers.get? workerId).map fun intent =>
    { record with
      pendingWorkers := record.pendingWorkers.set workerId (intent.record now stateName description)
      updatedAt := now }

/-- `record_pending_worker_state` in a process that does not run the lifecycle: whether there
was something to update, and the state. -/
def recordPendingWorkerState (contactId workerId stateName description : String)
    (state : TaskState) : Bool × TaskState :=
  match state.contacts.get? contactId with
  | some (.active record) =>
      match record.recordWorker now workerId stateName description with
      | some record =>
          (true, { state with contacts := state.contacts.set contactId (.active record) })
      | none => (false, state)
  | _ => (false, state)

variable {machine now} {contactId : String} {contacts : Contacts} {state : TaskState}

/-! ## What is left of an entry -/

theorem mem_excess (h : contactId ∈ excess contacts) :
    ∃ tombstone, contacts.get? contactId = some (.settled tombstone) := by
  rcases List.mem_map.mp h with ⟨⟨key, entry⟩, hmem, rfl⟩
  have hsorted := List.mem_of_mem_take hmem
  rw [List.mem_mergeSort, List.mem_filter] at hsorted
  cases entry with
  | active record => exact absurd hsorted.2 (by simp [Entry.isActive])
  | settled tombstone => exact ⟨tombstone, (Dict.get?_eq_some_iff _ _ _).mpr hsorted.1⟩

/-- Pruning looks at the entry of a contact alone, but for closed ones that are too many. -/
theorem get?_pruneContacts (contactId : String) (contacts : Contacts) :
    (pruneContacts machine now contacts).get? contactId =
        (contacts.get? contactId).bind (pruneEntry machine now) ∨
      (pruneContacts machine now contacts).get? contactId = none ∧
        ∃ tombstone, (contacts.get? contactId).bind (pruneEntry machine now) =
          some (.settled tombstone) := by
  have hkept : ((contacts.filter fun _ entry => (pruneEntry machine now entry).isSome).mapValues
      fun entry => (pruneEntry machine now entry).getD entry).get? contactId =
        (contacts.get? contactId).bind (pruneEntry machine now) := by
    rw [Dict.get?_mapValues, Dict.get?_filter]
    cases contacts.get? contactId with
    | none => rfl
    | some entry =>
        cases hprune : pruneEntry machine now entry with
        | none => simp [Option.filter, hprune]
        | some pruned => simp [Option.filter, hprune]
  unfold pruneContacts
  simp only [Dict.get?_filter, hkept]
  cases hentry : (contacts.get? contactId).bind (pruneEntry machine now) with
  | none => exact .inl rfl
  | some entry =>
      by_cases hmem : contactId ∈ excess ((contacts.filter fun _ entry =>
          (pruneEntry machine now entry).isSome).mapValues
            fun entry => (pruneEntry machine now entry).getD entry)
      · rcases mem_excess hmem with ⟨tombstone, hsettled⟩
        rw [hkept, hentry] at hsettled
        exact .inr ⟨by simp [Option.filter, hmem], tombstone, hsettled⟩
      · exact .inl (by simp [Option.filter, hmem])

theorem pruneEntry_active {entry : Entry} {record : Record}
    (h : pruneEntry machine now entry = some (.active record)) : entry = .active record := by
  cases entry with
  | active other =>
      unfold pruneEntry at h
      dsimp only at h
      split_ifs at h
      · cases h
      · exact Option.some.inj h
  | settled tombstone =>
      unfold pruneEntry at h
      dsimp only at h
      split_ifs at h <;> cases h

/-- What is active after pruning was so before. -/
theorem active_of_prune {record : Record}
    (h : (pruneContacts machine now contacts).get? contactId = some (.active record)) :
    contacts.get? contactId = some (.active record) := by
  rcases (@get?_pruneContacts machine now) contactId contacts with hsame | hnone
  · rw [hsame] at h
    cases hentry : contacts.get? contactId with
    | none =>
        rw [hentry] at h
        cases h
    | some entry =>
        rw [hentry, Option.bind_some] at h
        rw [pruneEntry_active h]
  · rw [hnone.1] at h
    cases h

theorem active_of_settleTerminal {other : String} {record : Record}
    (h : (settleTerminal machine now other contacts).get? contactId = some (.active record)) :
    contacts.get? contactId = some (.active record) := by
  unfold settleTerminal at h
  split at h
  · split at h
    · rw [Dict.get?_set] at h
      split at h
      · cases h
      · exact h
    · exact h
  · exact h

end LongTasks
end Stemcell
