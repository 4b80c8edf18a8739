import Mathlib.Data.String.Basic
import Mathlib.Data.Prod.Lex
import Mathlib.Algebra.Order.Ring.Unbundled.Rat
import Stemcell.Lib.Tables
import Stemcell.WorkUpdates.Journal

/-!
# Pruning the state of the work updates

The state file is pruned whenever it is read.  What stands in it is whatever JSON was stored, so a
table or an entry may be of another kind, and a number may be none; some of these make the pruning
raise.

Main results:

- Definition `pruneState`: one pruning.
- Theorems `pruneJournal_keeps` and `pruneState_idem`: what the journal keeps, and that a second
  pruning changes nothing.
- Theorem `prune_law_iff`: exactly when a pruning keeps every active task.

Current gaps:

- Numbers are finite and exact.
- Of a value that nothing here reads there is its JSON text.
-/

namespace Stemcell
namespace WorkUpdates

open Lib
open Maintenance (Seconds)

def pendingCallTtlSeconds : Seconds := 6 * 60 * 60
def terminalTaskTtlSeconds : Seconds := 7 * 24 * 60 * 60
def maxCachedTasksPerContact : ℕ := 200
def maxStandaloneCalls : ℕ := 200

/-! ## What is stored -/

/-- A dictionary, a list or the like, or a value of another kind. -/
inductive Slot (α : Type)
  | holds (value : α)
  | other
deriving DecidableEq, Repr

def Slot.value? {α : Type} : Slot α → Option α
  | .holds value => some value
  | .other => none

/-- A value that is taken for a number: one that counts as false, one that reads as this number, or
one that does not read as a number. -/
inductive Raw (α : Type)
  | falsy
  | reads (number : α)
  | raises
deriving DecidableEq, Repr

/-- `float(value or 0)`. -/
def Raw.number {α : Type} [Zero α] : Raw α → Option α
  | .falsy => some 0
  | .reads number => some number
  | .raises => none

/-- `_timestamp`. -/
def Raw.timestamp (value : Raw Seconds) : Seconds :=
  value.number.getD 0

/-- A value that is looked up in a set of texts. -/
inductive RawText
  | text (value : String)
  | other
  | unhashable
deriving DecidableEq, Repr

/-- Membership in a set of texts, which raises for a list or a dictionary. -/
def RawText.isIn (texts : List String) : RawText → Option Bool
  | .text value => some (decide (value ∈ texts))
  | .other => some false
  | .unhashable => none

structure RawReceipt where
  createdAt : Raw Seconds
  json : String
deriving DecidableEq, Repr

structure RawReference where
  ownerContactId : String
  taskId : String
  callId : String
deriving DecidableEq, Repr

/-- An entry of the journal; a status that is absent is none. -/
structure RawEntry where
  retryId : String
  operation : String
  direction : RawText
  reference : Slot RawReference
  status : Option String
  attempts : Raw ℤ
  createdAt : Raw Seconds
  lastAttemptAt : Raw Seconds
  deadLetteredAt : Raw Seconds
  lastError : String
  json : String
deriving DecidableEq, Repr

/-- What the archive holds: something stored before, or a record. -/
inductive Archived
  | stored (json : String)
  | archived (retryId operation : String) (direction : RawText) (callRef : String) (attempts : ℤ)
      (lastError : String) (archivedAt : Seconds)
deriving DecidableEq, Repr

structure RawCorrelation where
  outboundCallId : String
  inboundCallId : String
  updatedAt : Raw Seconds
  terminalRequested : Bool
  json : String
deriving DecidableEq, Repr

structure RawCall where
  state : RawText
  cachedAt : Raw Seconds
  json : String
deriving DecidableEq, Repr

/-- A table of a task. -/
abbrev Bucket := Slot (Dict String String)

structure RawTask where
  state : RawText
  cachedAt : Raw Seconds
  events : Bucket
  calls : Bucket
  workerGroups : Bucket
  todos : Bucket
  json : String
deriving DecidableEq, Repr

/-- A table of values, any of which may be of another kind. -/
abbrev Table (α : Type) := Dict String (Slot α)

structure RawContact where
  activeTaskId : String
  pendingCalls : Slot (Table RawCorrelation)
  standaloneCalls : Slot (Table RawCall)
  tasks : Slot (Table RawTask)
  json : String
deriving DecidableEq, Repr

/-- The state file. -/
structure RawState where
  callRetryDedupe : Slot (Table RawReceipt)
  callRetryJournal : Slot (Table RawEntry)
  callRetryDeadLetters : Slot (List Archived)
  contacts : Slot (Table RawContact)
  json : String
deriving DecidableEq, Repr

/-! ## Receipts -/

variable (sha256 : String → List Char) (now : Seconds)

/-- A receipt is kept for seven days. -/
def keepReceipt : Slot RawReceipt → Option Bool
  | .other => some false
  | .holds receipt =>
      receipt.createdAt.number.map fun createdAt =>
        decide (now - createdAt < callRetryDedupeRetentionSeconds)

/-- When a receipt was made. -/
def receiptTime : Slot RawReceipt → Seconds
  | .other => 0
  | .holds receipt => receipt.createdAt.timestamp

/-- The part of `_prune_state` about receipts. -/
def pruneDedupe : Slot (Table RawReceipt) → Option (Table RawReceipt)
  | .other => some Dict.empty
  | .holds dedupe =>
      (dedupe.keepOption (keepReceipt now)).map fun kept =>
        kept.capped callRetryDedupeLimit fun a b => receiptTime a.2 ≤ receiptTime b.2

/-! ## The journal -/

def callDirections : List String := ["outbound", "inbound", "mutation"]

/-- The call of a well-formed entry. -/
def RawEntry.callId (entry : RawEntry) : String :=
  match entry.reference with
  | .holds reference => reference.callId
  | .other => ""

/-- Since when an entry is given up. -/
def RawEntry.deadSince (entry : RawEntry) : Option Seconds :=
  match entry.deadLetteredAt, entry.lastAttemptAt, entry.createdAt with
  | .falsy, .falsy, .falsy => some now
  | .falsy, .falsy, createdAt => createdAt.number
  | .falsy, lastAttemptAt, _ => lastAttemptAt.number
  | deadLetteredAt, _, _ => deadLetteredAt.number

/-- What becomes of an entry. -/
inductive EntryFate
  | kept
  | dropped
  | archived (attempts : ℤ)
deriving DecidableEq, Repr

/-- The fate of an entry, unless reading it raises. -/
def entryFate : Slot RawEntry → Option EntryFate
  | .other => some .dropped
  | .holds entry =>
      if entry.callId = "" then some .dropped
      else
        match entry.direction.isIn callDirections with
        | none => none
        | some false => some .dropped
        | some true =>
            if entry.status ≠ some "dead_letter" then some .kept
            else
              match entry.deadSince now with
              | none => none
              | some since =>
                  if callRetryDeadLetterRetentionSeconds ≤ now - since then
                    entry.attempts.number.map .archived
                  else some .kept

/-- `_call_retry_archive_record`. -/
def RawEntry.archiveRecord (entry : RawEntry) (attempts : ℤ) : Archived :=
  match entry.reference with
  | .other => .archived entry.retryId entry.operation entry.direction "" attempts
      (String.ofList (entry.lastError.toList.take 120)) now
  | .holds reference =>
      .archived entry.retryId entry.operation entry.direction
        (String.ofList ((sha256 ("\x1f".intercalate
          [reference.ownerContactId, reference.taskId, reference.callId])).take 24))
        attempts (String.ofList (entry.lastError.toList.take 120)) now

/-- An entry whose fate is to be archived adds its record. -/
def archiveEntry (archive : Slot (List Archived)) (entry : Slot RawEntry) : Slot (List Archived) :=
  match entry, entryFate now entry with
  | .holds entry, some (.archived attempts) =>
      let records := (archive.value?.getD []) ++ [entry.archiveRecord sha256 now attempts]
      .holds (records.drop (records.length - callRetryArchiveLimit))
  | _, _ => archive

/-- An entry that the calls of a contact wait for: one that is live, or a creation that was given
up. -/
def RawEntry.isBlocking (entry : RawEntry) : Bool :=
  entry.status.getD "pending" = "pending" ||
    (entry.status = some "dead_letter" && entry.operation = "create")

/-- `pending_call_ids`. -/
def pendingCallIds (journal : Table RawEntry) : List String :=
  (journal.values.filterMap Slot.value?).filter RawEntry.isBlocking |>.map RawEntry.callId

/-- The part of `_prune_state` about the journal. -/
def pruneJournal (journal : Slot (Table RawEntry)) (archive : Slot (List Archived)) :
    Option (Table RawEntry × Slot (List Archived)) :=
  match journal with
  | .other => some (Dict.empty, archive)
  | .holds journal =>
      (journal.keepOption fun entry => (entryFate now entry).map fun fate => fate = .kept).map
        fun kept => (kept, journal.values.foldl (archiveEntry sha256 now) archive)

/-! ## Contacts -/

/-- A correlation is kept while its calls are waited for, and six hours unless it is to end. -/
def keepCorrelation (pending : List String) : Slot RawCorrelation → Option Bool
  | .other => some false
  | .holds correlation =>
      some (decide (correlation.outboundCallId ∈ pending ∨ correlation.inboundCallId ∈ pending) ||
        !(correlation.terminalRequested || decide (correlation.updatedAt.timestamp = 0) ||
          decide (pendingCallTtlSeconds < now - correlation.updatedAt.timestamp)))

def endedStates : List String := ["completed", "failed", "cancelled"]

/-- It has ended and is a week old. -/
def isStale (state : RawText) (cachedAt : Raw Seconds) : Option Bool :=
  (state.isIn endedStates).map fun ended =>
    ended && decide (cachedAt.timestamp ≠ 0) &&
      decide (terminalTaskTtlSeconds < now - cachedAt.timestamp)

def keepCall : Slot RawCall → Option Bool
  | .other => some false
  | .holds call => (isStale now call.state call.cachedAt).map fun stale => !stale

def callTime : Slot RawCall → Seconds
  | .other => 0
  | .holds call => call.cachedAt.timestamp

def keepTask : Slot RawTask → Option Bool
  | .other => some false
  | .holds task => (isStale now task.state task.cachedAt).map fun stale => !stale

def taskTime : Slot RawTask → Seconds
  | .other => 0
  | .holds task => task.cachedAt.timestamp

/-- The newest entries of a table of a task. -/
def Bucket.trim (limit : ℕ) : Bucket → Bucket
  | .holds bucket => .holds (bucket.takeLast limit)
  | .other => .other

def RawTask.trim (task : RawTask) : RawTask :=
  { task with
    events := Bucket.trim 500 task.events
    calls := Bucket.trim 200 task.calls
    workerGroups := Bucket.trim 200 task.workerGroups
    todos := Bucket.trim 500 task.todos }

def trimTask : Slot RawTask → Slot RawTask
  | .holds task => .holds task.trim
  | .other => .other

/-- The loop that drops tasks over the limit, but not the active one. -/
def dropTasks (activeId : String) : List String → Table RawTask → Table RawTask
  | [], tasks => tasks
  | taskId :: rest, tasks =>
      if tasks.size ≤ maxCachedTasksPerContact then tasks
      else dropTasks activeId rest (if taskId ≠ activeId then tasks.pop taskId else tasks)

/-- The order by time, and by id for the same time. -/
def earlier {α : Type} (time : Slot α → Seconds) (a b : String × Slot α) : Bool :=
  decide ((toLex (time a.2, a.1) : Seconds ×ₗ String) ≤ toLex (time b.2, b.1))

/-- The part of `_prune_state` about the tasks of a contact. -/
def pruneTasks (activeId : String) (tasks : Table RawTask) : Option (Table RawTask) :=
  (tasks.keepOption (keepTask now)).map fun kept =>
    dropTasks activeId ((kept.entries.mergeSort (earlier taskTime)).map Prod.fst)
      (kept.mapValues trimTask)

/-- A part of a contact that is left alone when it is no table. -/
def Slot.within {α : Type} (slot : Slot α) (f : α → Option α) : Option (Slot α) :=
  match slot with
  | .other => some .other
  | .holds value => (f value).map .holds

/-- The part of `_prune_state` about one contact. -/
def pruneContact (pending : List String) : Slot RawContact → Option (Slot RawContact)
  | .other => some .other
  | .holds contact =>
      (contact.pendingCalls.within fun calls => calls.keepOption (keepCorrelation now pending)).bind
        fun pendingCalls =>
          (contact.standaloneCalls.within fun calls =>
            (calls.keepOption (keepCall now)).map fun kept =>
              kept.capped maxStandaloneCalls (earlier callTime)).bind
            fun standaloneCalls =>
              (contact.tasks.within (pruneTasks now contact.activeTaskId)).map fun tasks =>
                .holds { contact with pendingCalls, standaloneCalls, tasks }

/-- `_prune_state`: whether it has changed anything, and the state that it leaves. -/
def pruneState (state : RawState) : Option (Bool × RawState) :=
  (pruneDedupe now state.callRetryDedupe).bind fun dedupe =>
    (pruneJournal sha256 now state.callRetryJournal state.callRetryDeadLetters).bind fun journal =>
      match state.contacts with
      | .other => none
      | .holds contacts =>
          (contacts.mapOption (pruneContact now (pendingCallIds journal.1))).map fun contacts =>
            let after := { state with
              callRetryDedupe := .holds dedupe
              callRetryJournal := .holds journal.1
              callRetryDeadLetters := journal.2
              contacts := .holds contacts }
            (decide (after ≠ state), after)

/-! ## Tables that are pruned again -/

section Again

variable {sha256 : String → List Char} {now : Seconds} {α : Type}

theorem pruneDedupe_idem {dedupe : Slot (Table RawReceipt)} {kept : Table RawReceipt}
    (h : pruneDedupe now dedupe = some kept) : pruneDedupe now (.holds kept) = some kept := by
  have hkept : ∀ id receipt, kept.get? id = some receipt → keepReceipt now receipt = some true := by
    intro id receipt hget
    cases dedupe with
    | other =>
        rw [← Option.some.inj h, Dict.get?_empty] at hget
        cases hget
    | holds dedupe =>
        rcases Option.map_eq_some_iff.mp h with ⟨first, hfirst, rfl⟩
        exact ((Dict.get?_keepOption hfirst).mp (Dict.get?_of_capped hget)).2
  have hsize : kept.size ≤ callRetryDedupeLimit := by
    cases dedupe with
    | other =>
        rw [← Option.some.inj h]
        exact Nat.zero_le _
    | holds dedupe =>
        rcases Option.map_eq_some_iff.mp h with ⟨first, -, rfl⟩
        exact Dict.size_capped_le _ _ _
  change (kept.keepOption (keepReceipt now)).map _ = some kept
  rw [Dict.keepOption_of_kept hkept, Option.map_some, Dict.capped_of_le hsize]

/-- What a pruning leaves in the journal is kept. -/
theorem fate_of_pruneJournal {journal : Slot (Table RawEntry)}
    {archive archive' : Slot (List Archived)} {kept : Table RawEntry}
    (h : pruneJournal sha256 now journal archive = some (kept, archive'))
    {id : String} {entry : Slot RawEntry} (hget : kept.get? id = some entry) :
    entryFate now entry = some .kept := by
  cases journal with
  | other =>
      rw [← (Prod.mk.inj (Option.some.inj h)).1, Dict.get?_empty] at hget
      cases hget
  | holds journal =>
      rcases Option.map_eq_some_iff.mp h with ⟨first, hfirst, heq⟩
      rw [← (Prod.mk.inj heq).1] at hget
      have hfate := ((Dict.get?_keepOption hfirst).mp hget).2
      rcases Option.map_eq_some_iff.mp hfate with ⟨fate, hfound, hkept⟩
      rw [hfound, decide_eq_true_eq.mp hkept]

/-- What is kept adds nothing to the archive. -/
theorem foldl_archiveEntry {entries : List (Slot RawEntry)} {archive : Slot (List Archived)}
    (h : ∀ entry ∈ entries, entryFate now entry = some .kept) :
    entries.foldl (archiveEntry sha256 now) archive = archive := by
  induction entries with
  | nil => rfl
  | cons entry rest ih =>
      rw [List.forall_mem_cons] at h
      have hsame : archiveEntry sha256 now archive entry = archive := by
        unfold archiveEntry
        rw [h.1]
        split
        · rename_i heq
          cases heq
        · rfl
      rw [List.foldl_cons, hsame]
      exact ih h.2

theorem pruneJournal_idem {journal : Slot (Table RawEntry)}
    {archive archive' : Slot (List Archived)} {kept : Table RawEntry}
    (h : pruneJournal sha256 now journal archive = some (kept, archive')) :
    pruneJournal sha256 now (.holds kept) archive' = some (kept, archive') := by
  have hkept : ∀ id entry, kept.get? id = some entry →
      (entryFate now entry).map (fun fate => decide (fate = .kept)) = some true := by
    intro id entry hget
    rw [fate_of_pruneJournal h hget]
    rfl
  have harchive : kept.values.foldl (archiveEntry sha256 now) archive' = archive' := by
    apply foldl_archiveEntry
    intro entry hentry
    rcases Dict.mem_values.mp hentry with ⟨id, hget⟩
    exact fate_of_pruneJournal h hget
  change (kept.keepOption _).map _ = _
  rw [Dict.keepOption_of_kept hkept, Option.map_some, harchive]

theorem within_idem {f : α → Option α} (hidem : ∀ v v', f v = some v' → f v' = some v')
    {slot slot' : Slot α} (h : slot.within f = some slot') : slot'.within f = some slot' := by
  cases slot with
  | other =>
      rw [← Option.some.inj h]
      rfl
  | holds value =>
      rcases Option.map_eq_some_iff.mp h with ⟨value', hvalue, rfl⟩
      change (f value').map Slot.holds = _
      rw [hidem value value' hvalue]
      rfl

theorem keepOption_idem {keep : Slot α → Option Bool} {table kept : Table α}
    (h : table.keepOption keep = some kept) : kept.keepOption keep = some kept :=
  Dict.keepOption_of_kept fun _ _ hget => ((Dict.get?_keepOption h).mp hget).2

theorem pruneCalls_idem {calls kept : Table RawCall}
    (h : ((calls.keepOption (keepCall now)).map fun kept =>
      kept.capped maxStandaloneCalls (earlier callTime)) = some kept) :
    ((kept.keepOption (keepCall now)).map fun kept =>
      kept.capped maxStandaloneCalls (earlier callTime)) = some kept := by
  rcases Option.map_eq_some_iff.mp h with ⟨first, hfirst, rfl⟩
  have hkept : (first.capped maxStandaloneCalls (earlier callTime)).keepOption (keepCall now) =
      some (first.capped maxStandaloneCalls (earlier callTime)) := by
    apply Dict.keepOption_of_kept
    intro id call hget
    exact ((Dict.get?_keepOption hfirst).mp (Dict.get?_of_capped hget)).2
  rw [hkept, Option.map_some, Dict.capped_of_le (Dict.size_capped_le _ _ _)]

/-! ## Tasks -/

variable {activeId id : String} {ids : List String} {tasks kept : Table RawTask}
  {task : Slot RawTask}

theorem dropTasks_of_le (h : tasks.size ≤ maxCachedTasksPerContact) :
    dropTasks activeId ids tasks = tasks := by
  cases ids with
  | nil => rfl
  | cons id rest => exact if_pos h

theorem get?_of_dropTasks (h : (dropTasks activeId ids tasks).get? id = some task) :
    tasks.get? id = some task := by
  induction ids generalizing tasks with
  | nil => exact h
  | cons first rest ih =>
      unfold dropTasks at h
      split at h
      · exact h
      have hrest := ih h
      split at hrest
      · exact ((Dict.get?_pop_eq_some_iff _ _ _ _).mp hrest).2
      · exact hrest

/-- The active task is not dropped for the limit. -/
theorem get?_dropTasks_active (h : tasks.get? activeId = some task) :
    (dropTasks activeId ids tasks).get? activeId = some task := by
  induction ids generalizing tasks with
  | nil => exact h
  | cons first rest ih =>
      unfold dropTasks
      split
      · exact h
      apply ih
      split
      · rename_i hne
        rw [Dict.get?_pop_of_ne _ hne]
        exact h
      · exact h

theorem size_dropTasks_le (h : ∀ id ∈ tasks.keys, id ∈ ids ∨ id = activeId) :
    (dropTasks activeId ids tasks).size ≤ maxCachedTasksPerContact := by
  induction ids generalizing tasks with
  | nil =>
      have hsub : tasks.keys ⊆ [activeId] := by
        intro id hid
        exact List.mem_singleton.mpr ((h id hid).resolve_left List.not_mem_nil)
      have hnodup : tasks.keys.Nodup := tasks.nodup
      have hlength : tasks.keys.length ≤ 1 := (hnodup.subperm hsub).length_le
      have hsize : tasks.size = tasks.keys.length := (List.length_map _).symm
      change tasks.size ≤ 200
      omega
  | cons first rest ih =>
      unfold dropTasks
      split
      · assumption
      apply ih
      intro id hid
      by_cases hfirst : first = activeId
      · rw [if_neg (not_not_intro hfirst)] at hid
        rcases h id hid with hmem | heq
        · rcases List.mem_cons.mp hmem with hhead | hrest
          · exact .inr (hhead.trans hfirst)
          · exact .inl hrest
        · exact .inr heq
      · rw [if_pos hfirst] at hid
        rcases (Dict.mem_keys_iff _ _).mp hid with ⟨task, hget⟩
        rcases (Dict.get?_pop_eq_some_iff _ _ _ _).mp hget with ⟨hne, hfound⟩
        rcases h id ((Dict.mem_keys_iff _ _).mpr ⟨task, hfound⟩) with hmem | heq
        · rcases List.mem_cons.mp hmem with hhead | hrest
          · exact absurd hhead.symm hne
          · exact .inl hrest
        · exact .inr heq

theorem keepTask_trimTask : keepTask now (trimTask task) = keepTask now task := by
  cases task with
  | other => rfl
  | holds task => rfl

theorem trim_trim (limit : ℕ) (bucket : Bucket) :
    Bucket.trim limit (Bucket.trim limit bucket) = Bucket.trim limit bucket := by
  cases bucket with
  | other => rfl
  | holds bucket =>
      change Slot.holds ((bucket.takeLast limit).takeLast limit) = .holds (bucket.takeLast limit)
      rw [Slot.holds.injEq, Dict.mk.injEq]
      change (bucket.entries.drop (bucket.entries.length - limit)).drop
        ((bucket.entries.drop (bucket.entries.length - limit)).length - limit) =
          bucket.entries.drop (bucket.entries.length - limit)
      have hzero : (bucket.entries.drop (bucket.entries.length - limit)).length - limit = 0 := by
        rw [List.length_drop]
        omega
      rw [hzero, List.drop_zero]

theorem trimTask_idem : trimTask (trimTask task) = trimTask task := by
  cases task with
  | other => rfl
  | holds task =>
      simp only [trimTask, RawTask.trim, trim_trim]

/-- Where a task of a pruned table comes from. -/
theorem get?_of_pruneTasks (h : pruneTasks now activeId tasks = some kept)
    (hget : kept.get? id = some task) :
    ∃ before, tasks.get? id = some before ∧ keepTask now before = some true ∧
      task = trimTask before := by
  rcases Option.map_eq_some_iff.mp h with ⟨first, hfirst, rfl⟩
  have htrimmed := get?_of_dropTasks hget
  rw [Dict.get?_mapValues] at htrimmed
  rcases Option.map_eq_some_iff.mp htrimmed with ⟨before, hbefore, rfl⟩
  rcases (Dict.get?_keepOption hfirst).mp hbefore with ⟨hfound, hkeep⟩
  exact ⟨before, hfound, hkeep, rfl⟩

theorem pruneTasks_idem (h : pruneTasks now activeId tasks = some kept) :
    pruneTasks now activeId kept = some kept := by
  have hkept : kept.keepOption (keepTask now) = some kept := by
    apply Dict.keepOption_of_kept
    intro id task hget
    rcases get?_of_pruneTasks h hget with ⟨before, -, hkeep, rfl⟩
    rw [keepTask_trimTask, hkeep]
  have htrim : kept.mapValues trimTask = kept := by
    apply Dict.mapValues_of_fixed
    intro task htask
    rcases Dict.mem_values.mp htask with ⟨id, hget⟩
    rcases get?_of_pruneTasks h hget with ⟨before, -, -, rfl⟩
    exact trimTask_idem
  have hsize : kept.size ≤ maxCachedTasksPerContact := by
    rcases Option.map_eq_some_iff.mp h with ⟨first, -, rfl⟩
    apply size_dropTasks_le
    intro id hid
    have hkeys : (first.mapValues trimTask).keys = first.keys := by
      change (first.entries.map _).map Prod.fst = first.entries.map Prod.fst
      rw [List.map_map]
      rfl
    rw [hkeys] at hid
    exact .inl (((List.mergeSort_perm first.entries _).map Prod.fst).mem_iff.mpr hid)
  unfold pruneTasks
  rw [hkept, Option.map_some, htrim, dropTasks_of_le hsize]

end Again

/-! ## States that are pruned again -/

section State

variable {sha256 : String → List Char} {now : Seconds} {pending : List String}
  {contact contact' : Slot RawContact} {before after : RawState} {changed : Bool}

/-- The parts of a contact that is pruned. -/
theorem pruneContact_cases {value : RawContact}
    (h : pruneContact now pending (.holds value) = some contact') :
    ∃ pendingCalls standaloneCalls tasks,
      (value.pendingCalls.within fun calls => calls.keepOption (keepCorrelation now pending)) =
        some pendingCalls ∧
      (value.standaloneCalls.within fun calls => (calls.keepOption (keepCall now)).map fun kept =>
        kept.capped maxStandaloneCalls (earlier callTime)) = some standaloneCalls ∧
      value.tasks.within (pruneTasks now value.activeTaskId) = some tasks ∧
      contact' = .holds { value with pendingCalls, standaloneCalls, tasks } := by
  rcases Option.bind_eq_some_iff.mp h with ⟨pendingCalls, hpending, hrest⟩
  rcases Option.bind_eq_some_iff.mp hrest with ⟨standaloneCalls, hstandalone, hlast⟩
  rcases Option.map_eq_some_iff.mp hlast with ⟨tasks, htasks, heq⟩
  exact ⟨pendingCalls, standaloneCalls, tasks, hpending, hstandalone, htasks, heq.symm⟩

theorem pruneContact_idem (h : pruneContact now pending contact = some contact') :
    pruneContact now pending contact' = some contact' := by
  cases contact with
  | other =>
      rw [← Option.some.inj h]
      rfl
  | holds value =>
      rcases pruneContact_cases h with
        ⟨pendingCalls, standaloneCalls, tasks, hpending, hstandalone, htasks, rfl⟩
      have hpending' := within_idem (fun _ _ => keepOption_idem) hpending
      have hstandalone' := within_idem (fun _ _ => pruneCalls_idem) hstandalone
      have htasks' := within_idem (fun _ _ => pruneTasks_idem) htasks
      simp only [pruneContact, hpending', hstandalone', htasks', Option.bind_some, Option.map_some]

/-- The parts of a state that is pruned. -/
theorem pruneState_cases (h : pruneState sha256 now before = some (changed, after)) :
    ∃ dedupe journal archive contacts contacts',
      pruneDedupe now before.callRetryDedupe = some dedupe ∧
      pruneJournal sha256 now before.callRetryJournal before.callRetryDeadLetters =
        some (journal, archive) ∧
      before.contacts = .holds contacts ∧
      contacts.mapOption (pruneContact now (pendingCallIds journal)) = some contacts' ∧
      after = { before with
        callRetryDedupe := .holds dedupe
        callRetryJournal := .holds journal
        callRetryDeadLetters := archive
        contacts := .holds contacts' } := by
  rcases Option.bind_eq_some_iff.mp h with ⟨dedupe, hdedupe, hrest⟩
  rcases Option.bind_eq_some_iff.mp hrest with ⟨⟨journal, archive⟩, hjournal, hlast⟩
  cases hcontacts : before.contacts with
  | other =>
      rw [hcontacts] at hlast
      cases hlast
  | holds contacts =>
      rw [hcontacts] at hlast
      rcases Option.map_eq_some_iff.mp hlast with ⟨contacts', hmap, heq⟩
      exact ⟨dedupe, journal, archive, contacts, contacts', hdedupe, hjournal, rfl, hmap,
        (Prod.mk.inj heq).2.symm⟩

/-- A second pruning at the same time changes nothing. -/
theorem pruneState_idem (h : pruneState sha256 now before = some (changed, after)) :
    pruneState sha256 now after = some (false, after) := by
  rcases pruneState_cases h with
    ⟨dedupe, journal, archive, contacts, contacts', hdedupe, hjournal, -, hcontacts, rfl⟩
  have hcontacts' := Dict.mapOption_idem (fun _ _ => pruneContact_idem) hcontacts
  unfold pruneState
  simp only [pruneDedupe_idem hdedupe, pruneJournal_idem hjournal, hcontacts', Option.bind_some,
    Option.map_some, ne_eq, not_true_eq_false, decide_false]

/-! ## What a pruning owes -/

/-- The entry of the journal under this id. -/
def RawState.entry? (state : RawState) (id : String) : Option RawEntry :=
  (state.callRetryJournal.value?.bind fun journal => journal.get? id).bind Slot.value?

/-- The contact with this id. -/
def RawState.contact? (state : RawState) (id : String) : Option RawContact :=
  (state.contacts.value?.bind fun contacts => contacts.get? id).bind Slot.value?

/-- The correlation of the contact with this peer. -/
def RawContact.correlation? (contact : RawContact) (peerId : String) : Option RawCorrelation :=
  (contact.pendingCalls.value?.bind fun calls => calls.get? peerId).bind Slot.value?

/-- The active task of the contact. -/
def RawContact.activeTask (contact : RawContact) : Option RawTask :=
  if contact.activeTaskId = "" then none
  else (contact.tasks.value?.bind fun tasks => tasks.get? contact.activeTaskId).bind Slot.value?

/-- A live entry with a call and one of the three directions. -/
structure RawEntry.WellFormedPending (entry : RawEntry) : Prop where
  call : entry.callId ≠ ""
  direction : ∃ text ∈ callDirections, entry.direction = .text text
  status : entry.status.getD "pending" = "pending"

/-- An entry in the journal waits for a call of the correlation, or was a creation of it. -/
def RawCorrelation.Waited (correlation : RawCorrelation) (state : RawState) : Prop :=
  ∃ id entry, state.entry? id = some entry ∧ entry.isBlocking = true ∧
    (entry.callId = correlation.outboundCallId ∨ entry.callId = correlation.inboundCallId)

/-- What a pruning owes: the live entries, the correlations that wait for a call, the active tasks,
and that it is done once. -/
structure PruneLaw (sha256 : String → List Char) (now : Seconds) (before after : RawState) :
    Prop where
  live : ∀ id entry, before.entry? id = some entry → entry.WellFormedPending →
    after.entry? id = some entry
  waited : ∀ contactId contact peerId correlation, before.contact? contactId = some contact →
    contact.correlation? peerId = some correlation → correlation.Waited after →
      ∃ contact', after.contact? contactId = some contact' ∧
        contact'.correlation? peerId = some correlation
  active : ∀ contactId contact task, before.contact? contactId = some contact →
    contact.activeTask = some task →
      ∃ contact', after.contact? contactId = some contact' ∧
        contact'.activeTaskId = contact.activeTaskId ∧ contact'.activeTask = some task.trim
  again : pruneState sha256 now after = some (false, after)

/-- No active task has ended a week ago. -/
def ActiveTasksFresh (now : Seconds) (state : RawState) : Prop :=
  ∀ contactId contact task, state.contact? contactId = some contact →
    contact.activeTask = some task → isStale now task.state task.cachedAt ≠ some true

theorem value?_eq_some {α : Type} {slot : Slot α} {value : α} :
    slot.value? = some value ↔ slot = .holds value := by
  cases slot with
  | other => simp [Slot.value?]
  | holds found => simp [Slot.value?]

theorem entry?_eq_some {state : RawState} {id : String} {entry : RawEntry} :
    state.entry? id = some entry ↔
      ∃ journal, state.callRetryJournal = .holds journal ∧
        journal.get? id = some (.holds entry) := by
  simp [RawState.entry?, Option.bind_eq_some_iff, value?_eq_some]

theorem contact?_eq_some {state : RawState} {id : String} {contact : RawContact} :
    state.contact? id = some contact ↔
      ∃ contacts, state.contacts = .holds contacts ∧ contacts.get? id = some (.holds contact) := by
  simp [RawState.contact?, Option.bind_eq_some_iff, value?_eq_some]

theorem correlation?_eq_some {contact : RawContact} {peerId : String}
    {correlation : RawCorrelation} : contact.correlation? peerId = some correlation ↔
      ∃ calls, contact.pendingCalls = .holds calls ∧
        calls.get? peerId = some (.holds correlation) := by
  simp [RawContact.correlation?, Option.bind_eq_some_iff, value?_eq_some]

theorem activeTask_eq_some {contact : RawContact} {task : RawTask} :
    contact.activeTask = some task ↔ contact.activeTaskId ≠ "" ∧
      ∃ tasks, contact.tasks = .holds tasks ∧
        tasks.get? contact.activeTaskId = some (.holds task) := by
  unfold RawContact.activeTask
  split
  · rename_i hempty
    simp [hempty]
  · rename_i hnonempty
    simp [hnonempty, Option.bind_eq_some_iff, value?_eq_some]

theorem fate_of_wellFormed {entry : RawEntry} (h : entry.WellFormedPending) :
    entryFate now (.holds entry) = some .kept := by
  rcases h.direction with ⟨text, hmem, htext⟩
  have hstatus : entry.status ≠ some "dead_letter" := by
    intro hdead
    have hpending := h.status
    rw [hdead] at hpending
    exact absurd hpending (by decide)
  unfold entryFate
  simp only [if_neg h.call, htext, RawText.isIn, decide_eq_true hmem, if_pos hstatus]

/-- The journal keeps every well-formed live entry. -/
theorem pruneJournal_keeps {journal : Slot (Table RawEntry)}
    {archive archive' : Slot (List Archived)} {kept table : Table RawEntry} {id : String}
    {entry : RawEntry}
    (h : pruneJournal sha256 now journal archive = some (kept, archive'))
    (hjournal : journal = .holds table) (hget : table.get? id = some (.holds entry))
    (hentry : entry.WellFormedPending) : kept.get? id = some (.holds entry) := by
  subst hjournal
  rcases Option.map_eq_some_iff.mp h with ⟨first, hfirst, heq⟩
  rw [← (Prod.mk.inj heq).1]
  apply (Dict.get?_keepOption hfirst).mpr
  refine ⟨hget, ?_⟩
  rw [fate_of_wellFormed hentry]
  rfl

theorem mem_pendingCallIds {journal : Table RawEntry} {id : String} {entry : RawEntry}
    (hget : journal.get? id = some (.holds entry)) (hblocking : entry.isBlocking = true) :
    entry.callId ∈ pendingCallIds journal := by
  apply List.mem_map_of_mem
  rw [List.mem_filter, List.mem_filterMap]
  exact ⟨⟨.holds entry, Dict.mem_values.mpr ⟨id, hget⟩, rfl⟩, hblocking⟩

theorem keepCorrelation_of_mem {correlation : RawCorrelation}
    (h : correlation.outboundCallId ∈ pending ∨ correlation.inboundCallId ∈ pending) :
    keepCorrelation now pending (.holds correlation) = some true := by
  simp [keepCorrelation, h]

/-- The task of a pruned contact that is not stale, with its tables trimmed. -/
theorem get?_pruneTasks_active {activeId : String} {tasks kept : Table RawTask} {task : RawTask}
    (h : pruneTasks now activeId tasks = some kept)
    (hget : tasks.get? activeId = some (.holds task))
    (hfresh : isStale now task.state task.cachedAt ≠ some true) :
    kept.get? activeId = some (.holds task.trim) := by
  rcases Option.map_eq_some_iff.mp h with ⟨first, hfirst, rfl⟩
  apply get?_dropTasks_active
  rw [Dict.get?_mapValues]
  have hkeep : keepTask now (.holds task) = some true := by
    have hall := hfirst
    unfold Dict.keepOption at hall
    split at hall
    · rename_i hreads
      have hsome := List.all_eq_true.mp hreads _ (Dict.mem_values.mpr ⟨activeId, hget⟩)
      change ((isStale now task.state task.cachedAt).map fun stale => !stale) = some true
      change ((isStale now task.state task.cachedAt).map fun stale => !stale).isSome = true at hsome
      cases hstale : isStale now task.state task.cachedAt with
      | none =>
          rw [hstale] at hsome
          cases hsome
      | some stale =>
          cases stale with
          | false => rfl
          | true => exact absurd hstale hfresh
    · cases hall
  rw [(Dict.get?_keepOption hfirst).mpr ⟨hget, hkeep⟩]
  rfl

/-- A pruning keeps what it owes exactly when no active task has ended a week ago. -/
theorem prune_law_iff (sha256 : String → List Char) (now : Seconds) (before after : RawState)
    (changed : Bool) (h : pruneState sha256 now before = some (changed, after)) :
    PruneLaw sha256 now before after ↔ ActiveTasksFresh now before := by
  have hagain := pruneState_idem h
  rcases pruneState_cases h with
    ⟨dedupe, journal, archive, contacts, contacts', -, hjournal, hbefore, hcontacts, rfl⟩
  constructor
  · intro hlaw contactId contact task hcontact htask hstale
    rcases hlaw.active contactId contact task hcontact htask with ⟨contact', hcontact', hid, hkept⟩
    rcases contact?_eq_some.mp hcontact with ⟨table, htable, hget⟩
    rcases contact?_eq_some.mp hcontact' with ⟨table', htable', hget'⟩
    rw [hbefore] at htable
    cases htable
    cases htable'
    rcases Dict.mapOption_of_get? hcontacts hget with ⟨value, hpruned, hvalue⟩
    rw [hget', Option.some.injEq] at hvalue
    subst hvalue
    rcases pruneContact_cases hpruned with ⟨pendingCalls, standaloneCalls, slot, -, -, hslot, heq⟩
    cases heq
    rcases activeTask_eq_some.mp htask with ⟨-, tasks, htasks, hactive⟩
    rcases activeTask_eq_some.mp hkept with ⟨-, kept, hkeptTasks, hkeptActive⟩
    rw [htasks] at hslot
    rcases Option.map_eq_some_iff.mp hslot with ⟨found, hfound, hsame⟩
    change slot = .holds kept at hkeptTasks
    rw [← hsame, Slot.holds.injEq] at hkeptTasks
    rw [hkeptTasks] at hfound
    rcases get?_of_pruneTasks hfound hkeptActive with ⟨source, hsource, hkeep, -⟩
    have hsourceEq : some source = some (.holds task) := hsource.symm.trans hactive
    rw [Option.some.inj hsourceEq] at hkeep
    change ((isStale now task.state task.cachedAt).map fun stale => !stale) = some true at hkeep
    rw [hstale] at hkeep
    cases hkeep
  · intro hfresh
    constructor
    · intro id entry hentry hwell
      rcases entry?_eq_some.mp hentry with ⟨table, htable, hget⟩
      exact entry?_eq_some.mpr ⟨journal, rfl, pruneJournal_keeps hjournal htable hget hwell⟩
    · intro contactId contact peerId correlation hcontact hcorrelation hwaited
      rcases contact?_eq_some.mp hcontact with ⟨table, htable, hget⟩
      rw [hbefore] at htable
      cases htable
      rcases Dict.mapOption_of_get? hcontacts hget with ⟨value, hpruned, hvalue⟩
      rcases pruneContact_cases hpruned with ⟨slot, standaloneCalls, tasks, hslot, -, -, rfl⟩
      refine ⟨_, contact?_eq_some.mpr ⟨contacts', rfl, hvalue⟩, ?_⟩
      rcases correlation?_eq_some.mp hcorrelation with ⟨calls, hcalls, hfound⟩
      rw [hcalls] at hslot
      rcases Option.map_eq_some_iff.mp hslot with ⟨kept, hkept, rfl⟩
      refine correlation?_eq_some.mpr ⟨kept, rfl, (Dict.get?_keepOption hkept).mpr ⟨hfound, ?_⟩⟩
      rcases hwaited with ⟨id, entry, hentry, hblocking, hcall⟩
      rcases entry?_eq_some.mp hentry with ⟨table, htable, hgetEntry⟩
      cases htable
      have hmem := mem_pendingCallIds hgetEntry hblocking
      apply keepCorrelation_of_mem
      rcases hcall with hout | hin
      · exact .inl (hout ▸ hmem)
      · exact .inr (hin ▸ hmem)
    · intro contactId contact task hcontact htask
      rcases contact?_eq_some.mp hcontact with ⟨table, htable, hget⟩
      rw [hbefore] at htable
      cases htable
      rcases Dict.mapOption_of_get? hcontacts hget with ⟨value, hpruned, hvalue⟩
      rcases pruneContact_cases hpruned with ⟨pendingCalls, standaloneCalls, slot, -, -, hslot, rfl⟩
      refine ⟨_, contact?_eq_some.mpr ⟨contacts', rfl, hvalue⟩, rfl, ?_⟩
      rcases activeTask_eq_some.mp htask with ⟨hid, tasks, htasks, hactive⟩
      rw [htasks] at hslot
      rcases Option.map_eq_some_iff.mp hslot with ⟨kept, hkept, rfl⟩
      exact activeTask_eq_some.mpr ⟨hid, kept, rfl, get?_pruneTasks_active hkept hactive
        (hfresh contactId contact task hcontact htask)⟩
    · exact hagain

end State

/-! ## A finished task that is active -/

section Finished

/-- A task in this state, cached when the clock showed one. -/
def cachedTask (state : String) : RawTask where
  state := .text state
  cachedAt := .reads 1
  events := .other
  calls := .other
  workerGroups := .other
  todos := .other
  json := "{}"

/-- A state in which it is the active one. -/
def activeState (state : String) : RawState where
  callRetryDedupe := .holds Dict.empty
  callRetryJournal := .holds Dict.empty
  callRetryDeadLetters := .holds []
  contacts := .holds (Dict.empty.set "a" (.holds
    { activeTaskId := "task"
      pendingCalls := .holds Dict.empty
      standaloneCalls := .holds Dict.empty
      tasks := .holds (Dict.empty.set "task" (.holds (cachedTask state)))
      json := "{}" }))
  json := "{}"

/-- Eight days later. -/
def eightDays : Seconds := 8 * 24 * 60 * 60

theorem prune_law_running :
    PruneLaw String.toList eightDays (activeState "running") (activeState "running") := by
  have h : pruneState String.toList eightDays (activeState "running") =
      some (false, activeState "running") := by decide +kernel
  rw [prune_law_iff String.toList eightDays _ _ false h]
  intro contactId contact task hcontact htask hstale
  rcases contact?_eq_some.mp hcontact with ⟨contacts, hcontacts, hget⟩
  cases hcontacts
  rw [Dict.get?_set] at hget
  split at hget
  · cases hget
    rcases activeTask_eq_some.mp htask with ⟨-, tasks, htasks, hactive⟩
    cases htasks
    cases hactive
    revert hstale
    decide +kernel
  · rw [Dict.get?_empty] at hget
    cases hget

/-- The active task has ended more than a week ago, and is dropped. -/
theorem finished_task_dropped : ¬ ∀ (sha256 : String → List Char) (now : Seconds)
    (before after : RawState) (changed : Bool),
      pruneState sha256 now before = some (changed, after) →
        PruneLaw sha256 now before after := by
  intro hclaim
  have h : (pruneState String.toList eightDays (activeState "completed")).map
      (fun result => (result.2.contact? "a").bind RawContact.activeTask) = some none := by
    decide +kernel
  rcases Option.map_eq_some_iff.mp h with ⟨⟨changed, after⟩, hpruned, hnone⟩
  have hbefore : (activeState "completed").contact? "a" = some
      { activeTaskId := "task"
        pendingCalls := .holds Dict.empty
        standaloneCalls := .holds Dict.empty
        tasks := .holds (Dict.empty.set "task" (.holds (cachedTask "completed")))
        json := "{}" } := by decide
  rcases (hclaim _ _ _ _ _ hpruned).active "a" _ (cachedTask "completed") hbefore (by decide) with
    ⟨contact', hcontact', -, htask⟩
  rw [hcontact', Option.bind_some, htask] at hnone
  cases hnone

end Finished

end WorkUpdates
end Stemcell
