import Mathlib.Data.Finset.Card
import Mathlib.Data.List.MinMax
import Mathlib.Data.Prod.Lex
import Stemcell.Lib.Dict
import Stemcell.Maintenance.State

/-!
# The journal of call mutations

Each change of a call card waits in a journal until it is delivered.  The journal holds a thousand
entries.  A batch that finds no room has older entries evicted, first those that were given up and
then those that have failed and are not leased.

Main results:

- Definition `insertCallRetryEntriesInState`: the insertion of a batch.
- Theorem `makeRoom_spec`: what is evicted for a batch.
- Theorem `insertion_law_iff`: exactly when an insertion keeps the journal within its bound.
- Theorem `rejection_law_iff`: exactly when an insertion that raises leaves the live entries alone.

Current gaps:

- The payload of an entry is its JSON text, and so is the result of a receipt.
- Entries and receipts are well formed.
-/

namespace Stemcell
namespace WorkUpdates

open Lib
open Maintenance (Seconds)

def callRetryMaxEntries : ℕ := 1000
def callRetryArchiveLimit : ℕ := 200
def callRetryDeadLetterRetentionSeconds : Seconds := 24 * 60 * 60
def callRetryDedupeRetentionSeconds : Seconds := 7 * 24 * 60 * 60
def callRetryDedupeLimit : ℕ := 5000

/-! ## Entries -/

/-- The call that an entry is about. -/
structure CallReference where
  ownerContactId : String
  taskId : String
  callId : String
  known : callId ≠ ""
deriving DecidableEq, Repr

inductive CallOperation
  | create
  | patch
deriving DecidableEq, Repr

def CallOperation.text : CallOperation → String
  | .create => "create"
  | .patch => "patch"

inductive CallDirection
  | outbound
  | inbound
  | mutation
deriving DecidableEq, Repr

def CallDirection.text : CallDirection → String
  | .outbound => "outbound"
  | .inbound => "inbound"
  | .mutation => "mutation"

/-- Who is delivering an entry, until when. -/
structure RetryLease where
  owner : String
  token : String
  expiresAt : Seconds
deriving DecidableEq, Repr

/-- Nobody delivers it. -/
def RetryLease.none : RetryLease where
  owner := ""
  token := ""
  expiresAt := 0

/-- An entry is live, or it was given up. -/
inductive RetryStatus
  | pending (lease : RetryLease)
  | deadLetter (deadLetteredAt : Seconds)
deriving DecidableEq, Repr

def RetryStatus.isPending : RetryStatus → Bool
  | .pending _ => true
  | .deadLetter _ => false

/-- An entry as `_new_call_retry_entry` makes it. -/
structure NewRetry where
  retryId : String
  operation : CallOperation
  direction : CallDirection
  reference : CallReference
  payload : String
  lane : String
  createdAt : Seconds
deriving DecidableEq, Repr

/-- An entry of the journal. -/
structure CallRetry extends NewRetry where
  status : RetryStatus
  attempts : ℕ
  lastAttemptAt : Seconds
  nextAttemptAt : Seconds
  lastError : String
  sequence : ℕ
deriving DecidableEq, Repr

/-- An entry that was just inserted. -/
def NewRetry.entry (source : NewRetry) (sequence : ℕ) : CallRetry where
  toNewRetry := source
  status := .pending .none
  attempts := 0
  lastAttemptAt := 0
  nextAttemptAt := 0
  lastError := ""
  sequence := sequence

/-- The journal: each entry under its own id. -/
structure Journal where
  entries : Dict String CallRetry
  keyed : ∀ id entry, entries.get? id = some entry → entry.retryId = id
deriving DecidableEq, Repr

/-- The journal without this entry. -/
def Journal.pop (journal : Journal) (id : String) : Journal where
  entries := journal.entries.pop id
  keyed other entry hget :=
    journal.keyed other entry ((Dict.get?_pop_eq_some_iff _ _ _ _).mp hget).2

/-- The journal with one more entry, or another one under this id. -/
def Journal.put (journal : Journal) (entry : CallRetry) : Journal where
  entries := journal.entries.set entry.retryId entry
  keyed other found hget := by
    rw [Dict.get?_set] at hget
    split at hget
    · rename_i heq
      rw [← Option.some.inj hget, heq]
    · exact journal.keyed other found hget

/-- The entries of the journal that a test keeps. -/
def Journal.filter (journal : Journal) (keep : CallRetry → Bool) : Journal where
  entries := journal.entries.filter fun _ entry => keep entry
  keyed other entry hget :=
    journal.keyed other entry ((Dict.get?_filter_eq_some_iff _ _ _ _).mp hget).1

/-- How many entries there are. -/
def Journal.size (journal : Journal) : ℕ :=
  journal.entries.size

/-- What is left of an entry in the archive. -/
structure ArchiveRecord where
  retryId : String
  operation : String
  direction : String
  callRef : String
  attempts : ℕ
  lastError : String
  archivedAt : Seconds
deriving DecidableEq, Repr

/-- What tells that a delivery was accepted before. -/
structure DedupeReceipt where
  retryIds : List String
  createdAt : Seconds
  kind : String
  result : Option String
deriving DecidableEq, Repr

/-- The part of the state file that belongs to the journal. -/
structure CallState where
  journal : Journal
  sequence : ℕ
  deadLetters : List ArchiveRecord
  overflowCount : ℕ
  lastOverflowAt : Seconds
  dedupe : Dict String DedupeReceipt
deriving DecidableEq, Repr

variable (sha256 : String → List Char)

/-- `_call_retry_archive_record`. -/
def CallRetry.archiveRecord (entry : CallRetry) (now : Seconds) : ArchiveRecord where
  retryId := entry.retryId
  operation := entry.operation.text
  direction := entry.direction.text
  callRef := String.ofList ((sha256 ("\x1f".intercalate
    [entry.reference.ownerContactId, entry.reference.taskId, entry.reference.callId])).take 24)
  attempts := entry.attempts
  lastError := String.ofList (entry.lastError.toList.take 120)
  archivedAt := now

/-- The newest records of the archive. -/
def recentRecords (records : List ArchiveRecord) : List ArchiveRecord :=
  records.drop (records.length - callRetryArchiveLimit)

/-! ## Room -/

/-- Sorted by the time an entry was given up. -/
def CallRetry.deadKey (entry : CallRetry) : Seconds ×ₗ ℕ :=
  match entry.status with
  | .pending _ => toLex (0, entry.sequence)
  | .deadLetter deadLetteredAt => toLex (deadLetteredAt, entry.sequence)

/-- The entry has failed, and nobody is delivering it. -/
def CallRetry.isIdleFailure (now : Seconds) (entry : CallRetry) : Bool :=
  match entry.status with
  | .pending lease => entry.lastError ≠ "" && decide (lease.expiresAt ≤ now)
  | .deadLetter _ => false

/-- `_call_retry_capacity_victim`. -/
def callRetryCapacityVictim (journal : Journal) (now : Seconds) : Option CallRetry :=
  match (journal.entries.values.filter fun entry => !entry.status.isPending).argmin
      CallRetry.deadKey with
  | some victim => some victim
  | none =>
      (journal.entries.values.filter (CallRetry.isIdleFailure now)).argmin fun entry =>
        (toLex (entry.createdAt, entry.sequence) : Seconds ×ₗ ℕ)

/-- A victim as it is archived. -/
def CallRetry.evicted (victim : CallRetry) (now : Seconds) : CallRetry :=
  if victim.status.isPending then
    let priorError := String.ofList (victim.lastError.toList.take 96)
    { victim with
      status := .deadLetter now
      lastError :=
        if priorError ≠ "" then priorError ++ "|capacity_evicted" else "capacity_evicted" }
  else victim

/-- One round of the loop that makes room. -/
def CallState.evict (s : CallState) (now : Seconds) (victim : CallRetry) : CallState :=
  { s with
    journal := s.journal.pop victim.retryId
    deadLetters := recentRecords
      (s.deadLetters ++ [(victim.evicted now).archiveRecord sha256 now])
    overflowCount := if victim.status.isPending then s.overflowCount + 1 else s.overflowCount
    lastOverflowAt := if victim.status.isPending then now else s.lastOverflowAt }

theorem mem_values_of_victim {journal : Journal} {now : Seconds} {victim : CallRetry}
    (h : callRetryCapacityVictim journal now = some victim) :
    victim ∈ journal.entries.values ∧
      (victim.status.isPending = true → victim.isIdleFailure now = true) := by
  unfold callRetryCapacityVictim at h
  split at h
  · rename_i found hfound
    have hmem := List.argmin_mem hfound
    rw [List.mem_filter, Option.some.inj h] at hmem
    refine ⟨hmem.1, ?_⟩
    intro hpending
    rw [hpending] at hmem
    exact absurd hmem.2 (by simp)
  · have hmem := List.argmin_mem h
    rw [List.mem_filter] at hmem
    exact ⟨hmem.1, fun _ => hmem.2⟩

theorem get?_of_victim {journal : Journal} {now : Seconds} {victim : CallRetry}
    (h : callRetryCapacityVictim journal now = some victim) :
    journal.entries.get? victim.retryId = some victim := by
  rcases Dict.mem_values.mp (mem_values_of_victim h).1 with ⟨id, hget⟩
  rw [journal.keyed id victim hget]
  exact hget

theorem size_pop_of_victim {journal : Journal} {now : Seconds} {victim : CallRetry}
    (h : callRetryCapacityVictim journal now = some victim) :
    (journal.pop victim.retryId).size + 1 = journal.size :=
  Dict.size_pop (get?_of_victim h)

/-- The loop that makes room for this many entries, with the clock read once a round; it tells
whether there is room. -/
def makeRoom (clock : ℕ → Seconds) (newCount round : ℕ) (s : CallState) : Bool × CallState :=
  if s.journal.size + newCount ≤ callRetryMaxEntries then (true, s)
  else
    match _hvictim : callRetryCapacityVictim s.journal (clock round) with
    | none =>
        (false, { s with
          overflowCount := s.overflowCount + 1
          lastOverflowAt := clock round })
    | some victim => makeRoom clock newCount (round + 1) (s.evict sha256 (clock round) victim)
termination_by s.journal.size
decreasing_by exact Nat.lt_of_succ_le (size_pop_of_victim _hvictim).le

/-- The entries that go to make room for this many, one after the other. -/
def victims (clock : ℕ → Seconds) (newCount round : ℕ) (journal : Journal) : List CallRetry :=
  if journal.size + newCount ≤ callRetryMaxEntries then []
  else
    match _hvictim : callRetryCapacityVictim journal (clock round) with
    | none => []
    | some victim => victim :: victims clock newCount (round + 1) (journal.pop victim.retryId)
termination_by journal.size
decreasing_by exact Nat.lt_of_succ_le (size_pop_of_victim _hvictim).le

/-! ## Insertions -/

/-- How far the loop over a batch has come. -/
structure Insertion where
  journal : Journal
  sequence : ℕ
  inserted : List String
  complete : Bool
deriving DecidableEq, Repr

/-- The loop over a batch; it stops at an entry without an id. -/
def insertEach (journal : Journal) (sequence : ℕ) (inserted : List String) :
    List NewRetry → Insertion
  | [] => { journal, sequence, inserted, complete := true }
  | source :: rest =>
      if source.retryId = "" then { journal, sequence, inserted, complete := false }
      else if journal.entries.contains source.retryId then
        insertEach journal sequence (inserted ++ [source.retryId]) rest
      else
        insertEach (journal.put (source.entry (sequence + 1))) (sequence + 1)
          (inserted ++ [source.retryId]) rest

/-- The items of a batch that are counted as new. -/
def newCount (journal : Journal) (batch : List NewRetry) : ℕ :=
  batch.countP fun source => source.retryId ≠ "" ∧ ¬ journal.entries.contains source.retryId

/-- The receipt that an insertion may leave. -/
structure DedupeRequest where
  key : String
  result : Option String
  kind : String
deriving DecidableEq, Repr

/-- `_insert_call_retry_entries_in_state`: what it returns or raises, and the state it leaves. -/
def insertCallRetryEntriesInState (clock : ℕ → Seconds) (stamp : Seconds) (s : CallState)
    (batch : List NewRetry) (request : DedupeRequest) : Except String (List String) × CallState :=
  match if request.key = "" then none else s.dedupe.get? request.key with
  | some receipt => (.ok (receipt.retryIds.filter fun id => id ≠ ""), s)
  | none =>
      let room := makeRoom sha256 clock (newCount s.journal batch) 0 s
      if room.1 = false then (.error "Call retry journal is at its live-entry limit.", room.2)
      else
        let each := insertEach room.2.journal room.2.sequence [] batch
        if each.complete = false then
          (.error "Call journal entry requires retry_id.", { room.2 with journal := each.journal })
        else
          (.ok each.inserted, { room.2 with
            journal := each.journal
            sequence := each.sequence
            dedupe :=
              if request.key = "" then room.2.dedupe
              else room.2.dedupe.set request.key
                { retryIds := each.inserted
                  createdAt := stamp
                  kind := request.kind
                  result := request.result } })

/-! ## Retention -/

/-- Since when an entry is given up, as `_prune_state` reads it. -/
def CallRetry.deadSince (entry : CallRetry) (now deadLetteredAt : Seconds) : Seconds :=
  if deadLetteredAt ≠ 0 then deadLetteredAt
  else if entry.lastAttemptAt ≠ 0 then entry.lastAttemptAt
  else if entry.createdAt ≠ 0 then entry.createdAt
  else now

/-- An entry that was given up a day ago. -/
def CallRetry.isExpired (now : Seconds) (entry : CallRetry) : Bool :=
  match entry.status with
  | .pending _ => false
  | .deadLetter deadLetteredAt =>
      callRetryDeadLetterRetentionSeconds ≤ now - entry.deadSince now deadLetteredAt

/-- The receipts that are kept. -/
def pruneReceipts (now : Seconds) (dedupe : Dict String DedupeReceipt) :
    Dict String DedupeReceipt :=
  let recent := dedupe.filter fun _ receipt =>
    now - receipt.createdAt < callRetryDedupeRetentionSeconds
  let ordered := recent.entries.mergeSort fun a b => a.2.createdAt ≤ b.2.createdAt
  let stale := (ordered.take (recent.size - callRetryDedupeLimit)).map Prod.fst
  recent.filter fun key _ => key ∉ stale

/-- `_prune_state`, as far as the journal goes. -/
def CallState.prune (now : Seconds) (s : CallState) : CallState :=
  { s with
    journal := s.journal.filter fun entry => !entry.isExpired now
    deadLetters := (s.journal.entries.values.filter (CallRetry.isExpired now)).foldl
      (fun records entry => recentRecords (records ++ [entry.archiveRecord sha256 now]))
      s.deadLetters
    dedupe := pruneReceipts now s.dedupe }

/-- `_insert_call_retry_entries`: what it returns or raises, and what is stored then. -/
def insertCallRetryEntries (clock : ℕ → Seconds) (now stamp : Seconds) (s : CallState)
    (batch : List NewRetry) (request : DedupeRequest) : Except String (List String) × CallState :=
  insertCallRetryEntriesInState sha256 clock stamp (s.prune sha256 now) batch request

/-! ## What making room leaves -/

section Room

variable {sha256 : String → List Char} {clock : ℕ → Seconds} {fresh round : ℕ} {s : CallState}
  {journal journal' : Journal} {gone : List CallRetry} {victim entry : CallRetry}

theorem makeRoom_of_room (h : s.journal.size + fresh ≤ callRetryMaxEntries) :
    makeRoom sha256 clock fresh round s = (true, s) := by
  rw [makeRoom, if_pos h]

theorem makeRoom_of_none (h : ¬ s.journal.size + fresh ≤ callRetryMaxEntries)
    (hnone : callRetryCapacityVictim s.journal (clock round) = none) :
    makeRoom sha256 clock fresh round s = (false, { s with
      overflowCount := s.overflowCount + 1
      lastOverflowAt := clock round }) := by
  rw [makeRoom, if_neg h]
  split
  · rfl
  · rename_i hsome
    rw [hnone] at hsome
    cases hsome

theorem makeRoom_of_victim (h : ¬ s.journal.size + fresh ≤ callRetryMaxEntries)
    (hvictim : callRetryCapacityVictim s.journal (clock round) = some victim) :
    makeRoom sha256 clock fresh round s =
      makeRoom sha256 clock fresh (round + 1) (s.evict sha256 (clock round) victim) := by
  rw [makeRoom, if_neg h]
  split
  · rename_i hnone
    rw [hvictim] at hnone
    cases hnone
  · rename_i hsome
    rw [hvictim] at hsome
    rw [Option.some.inj hsome]

theorem victims_of_room (h : journal.size + fresh ≤ callRetryMaxEntries) :
    victims clock fresh round journal = [] := by
  rw [victims, if_pos h]

theorem victims_of_none (h : ¬ journal.size + fresh ≤ callRetryMaxEntries)
    (hnone : callRetryCapacityVictim journal (clock round) = none) :
    victims clock fresh round journal = [] := by
  rw [victims, if_neg h]
  split
  · rfl
  · rename_i hsome
    rw [hnone] at hsome
    cases hsome

theorem victims_of_victim (h : ¬ journal.size + fresh ≤ callRetryMaxEntries)
    (hvictim : callRetryCapacityVictim journal (clock round) = some victim) :
    victims clock fresh round journal =
      victim :: victims clock fresh (round + 1) (journal.pop victim.retryId) := by
  rw [victims, if_neg h]
  split
  · rename_i hnone
    rw [hvictim] at hnone
    cases hnone
  · rename_i hsome
    rw [hvictim] at hsome
    rw [Option.some.inj hsome]

/-- What is left of a journal when these entries went to make room. -/
structure RoomMade (clock : ℕ → Seconds) (fresh : ℕ) (journal journal' : Journal)
    (gone : List CallRetry) : Prop where
  known : ∀ victim ∈ gone, journal.entries.get? victim.retryId = some victim
  left : ∀ id, journal'.entries.get? id =
    if id ∈ gone.map fun victim => victim.retryId then none else journal.entries.get? id
  size : journal'.size + gone.length = journal.size
  evictable : ∀ victim ∈ gone, victim.status.isPending = true →
    ∃ n, victim.isIdleFailure (clock n) = true
  filled : gone ≠ [] → callRetryMaxEntries ≤ journal'.size + fresh

theorem roomMade_nil (clock : ℕ → Seconds) (fresh : ℕ) (journal : Journal) :
    RoomMade clock fresh journal journal [] where
  known := List.forall_mem_nil _
  left id := (if_neg (by simp)).symm
  size := rfl
  evictable := List.forall_mem_nil _
  filled h := absurd rfl h

theorem RoomMade.cons {n : ℕ} (hvictim : callRetryCapacityVictim journal (clock n) = some victim)
    (hfull : ¬ journal.size + fresh ≤ callRetryMaxEntries)
    (h : RoomMade clock fresh (journal.pop victim.retryId) journal' gone) :
    RoomMade clock fresh journal journal' (victim :: gone) := by
  have hsize := size_pop_of_victim hvictim
  constructor
  · intro other hother
    rcases List.mem_cons.mp hother with rfl | hlater
    · exact get?_of_victim hvictim
    · exact ((Dict.get?_pop_eq_some_iff _ _ _ _).mp (h.known other hlater)).2
  · intro id
    rw [h.left]
    by_cases hid : victim.retryId = id
    · simp [Journal.pop, hid]
    · have hpop : (journal.pop victim.retryId).entries.get? id = journal.entries.get? id :=
        Dict.get?_pop_of_ne _ hid
      rw [hpop]
      simp [Ne.symm hid]
  · rw [List.length_cons, ← hsize, ← h.size]
    rfl
  · intro other hother
    rcases List.mem_cons.mp hother with rfl | hlater
    · exact fun hpending => ⟨n, (mem_values_of_victim hvictim).2 hpending⟩
    · exact h.evictable other hlater
  · intro _
    by_cases hgone : gone = []
    · have hlast := h.size
      rw [hgone, List.length_nil] at hlast
      omega
    · exact h.filled hgone

/-- What the loop does: it evicts the victims, and there is room when it says so. -/
theorem makeRoom_spec (sha256 : String → List Char) (clock : ℕ → Seconds) (fresh round : ℕ)
    (s : CallState) :
    RoomMade clock fresh s.journal (makeRoom sha256 clock fresh round s).2.journal
        (victims clock fresh round s.journal) ∧
      ((makeRoom sha256 clock fresh round s).1 = true →
        (makeRoom sha256 clock fresh round s).2.journal.size + fresh ≤ callRetryMaxEntries) ∧
      (makeRoom sha256 clock fresh round s).2.dedupe = s.dedupe := by
  induction hsize : s.journal.size using Nat.strongRecOn generalizing s round with
  | ind size ih =>
      by_cases hroom : s.journal.size + fresh ≤ callRetryMaxEntries
      · rw [makeRoom_of_room hroom, victims_of_room hroom]
        exact ⟨roomMade_nil _ _ _, fun _ => hroom, rfl⟩
      cases hvictim : callRetryCapacityVictim s.journal (clock round) with
      | none =>
          rw [makeRoom_of_none hroom hvictim, victims_of_none hroom hvictim]
          exact ⟨roomMade_nil _ _ _, fun h => absurd h (by simp), rfl⟩
      | some victim =>
          rw [makeRoom_of_victim hroom hvictim, victims_of_victim hroom hvictim]
          have hless : (s.journal.pop victim.retryId).size < size := by
            rw [← hsize, ← size_pop_of_victim hvictim]
            exact Nat.lt_succ_self _
          rcases ih _ hless (round + 1) (s.evict sha256 (clock round) victim) rfl with
            ⟨hmade, hroomy, hdedupe⟩
          exact ⟨hmade.cons hvictim hroom, hroomy, hdedupe⟩

end Room

/-! ## What a batch adds -/

section Batch

variable {journal : Journal} {sequence : ℕ} {inserted : List String} {batch : List NewRetry}
  {source : NewRetry} {entry : CallRetry} {id : String}

/-- The ids in a journal. -/
def Journal.ids (journal : Journal) : Finset String :=
  journal.entries.keys.toFinset

/-- The ids in a batch. -/
def batchIds (batch : List NewRetry) : Finset String :=
  (batch.map NewRetry.retryId).toFinset

theorem Journal.mem_ids : id ∈ journal.ids ↔ ∃ entry, journal.entries.get? id = some entry := by
  rw [Journal.ids, List.mem_toFinset, Dict.mem_keys_iff]

theorem contains_iff_mem_ids : journal.entries.contains id = true ↔ id ∈ journal.ids := by
  rw [Journal.mem_ids, Dict.contains_iff]

theorem Journal.card_ids : journal.ids.card = journal.size := by
  have hnodup : journal.entries.keys.Nodup := journal.entries.nodup
  rw [Journal.ids, List.toFinset_card_of_nodup hnodup]
  exact List.length_map _

theorem mem_batchIds : id ∈ batchIds batch ↔ ∃ source ∈ batch, source.retryId = id := by
  rw [batchIds, List.mem_toFinset, List.mem_map]

@[simp]
theorem batchIds_nil : batchIds [] = ∅ := rfl

theorem batchIds_cons : batchIds (source :: batch) = insert source.retryId (batchIds batch) := by
  rw [batchIds, List.map_cons, List.toFinset_cons]
  rfl

theorem get?_put : (journal.put entry).entries.get? id =
    if id = entry.retryId then some entry else journal.entries.get? id := by
  change (journal.entries.set entry.retryId entry).get? id = _
  rw [Dict.get?_set]
  exact if_congr eq_comm rfl rfl

theorem ids_put : (journal.put entry).ids = insert entry.retryId journal.ids := by
  ext id
  rw [Journal.mem_ids, get?_put, Finset.mem_insert, Journal.mem_ids]
  by_cases hid : id = entry.retryId
  · simp [hid]
  · simp [hid]

/-- The loop never touches an entry that is there. -/
theorem get?_insertEach_of_some (h : journal.entries.get? id = some entry) :
    (insertEach journal sequence inserted batch).journal.entries.get? id = some entry := by
  induction batch generalizing journal sequence inserted with
  | nil => exact h
  | cons source rest ih =>
      unfold insertEach
      split
      · exact h
      split
      · exact ih h
      · rename_i hnew
        apply ih
        rw [get?_put, if_neg]
        · exact h
        · rintro rfl
          exact hnew ((Dict.contains_iff _ _).mpr ⟨entry, h⟩)

/-- What the loop adds is in the batch, and has not failed. -/
theorem get?_insertEach (h : (insertEach journal sequence inserted batch).journal.entries.get? id =
    some entry) :
    journal.entries.get? id = some entry ∨
      entry.status.isPending = true ∧ entry.lastError = "" ∧
        ∃ source ∈ batch.takeWhile fun source => source.retryId ≠ "", source.retryId = id := by
  induction batch generalizing journal sequence inserted with
  | nil => exact .inl h
  | cons source rest ih =>
      unfold insertEach at h
      by_cases hempty : source.retryId = ""
      · rw [if_pos hempty] at h
        exact .inl h
      rw [if_neg hempty] at h
      rw [List.takeWhile_cons_of_pos (by simpa using hempty)]
      split at h
      · rcases ih h with hold | ⟨hpending, herror, later, hmem, hid⟩
        · exact .inl hold
        · exact .inr ⟨hpending, herror, later, List.mem_cons_of_mem _ hmem, hid⟩
      rcases ih h with hput | ⟨hpending, herror, later, hmem, hid⟩
      · rw [get?_put] at hput
        split at hput
        · rename_i hid
          refine .inr ⟨?_, ?_, source, List.mem_cons_self, hid.symm⟩
          · rw [← Option.some.inj hput]
            rfl
          · rw [← Option.some.inj hput]
            rfl
        · exact .inl hput
      · exact .inr ⟨hpending, herror, later, List.mem_cons_of_mem _ hmem, hid⟩

/-- An entry before the first empty id is in the journal afterwards. -/
theorem mem_insertEach (h : source ∈ batch.takeWhile fun source => source.retryId ≠ "") :
    source.retryId ∈ (insertEach journal sequence inserted batch).journal.ids := by
  induction batch generalizing journal sequence inserted with
  | nil => exact absurd h List.not_mem_nil
  | cons first rest ih =>
      by_cases hempty : first.retryId = ""
      · rw [List.takeWhile_cons_of_neg (by simpa using hempty)] at h
        exact absurd h List.not_mem_nil
      rw [List.takeWhile_cons_of_pos (by simpa using hempty)] at h
      unfold insertEach
      rw [if_neg hempty]
      rcases List.mem_cons.mp h with rfl | hlater
      · rw [Journal.mem_ids]
        split
        · rename_i hknown
          rcases (Dict.contains_iff _ _).mp hknown with ⟨entry, hentry⟩
          exact ⟨entry, get?_insertEach_of_some hentry⟩
        · refine ⟨source.entry (sequence + 1), get?_insertEach_of_some ?_⟩
          rw [get?_put]
          exact if_pos rfl
      · split <;> exact ih hlater

/-- A loop that comes to its end has put the whole batch into the journal. -/
theorem ids_insertEach
    (h : (insertEach journal sequence inserted batch).complete = true) :
    (insertEach journal sequence inserted batch).journal.ids = journal.ids ∪ batchIds batch := by
  induction batch generalizing journal sequence inserted with
  | nil => exact (Finset.union_empty _).symm
  | cons source rest ih =>
      unfold insertEach at h ⊢
      split at h
      · exact absurd h (by simp)
      rename_i hempty
      rw [if_neg hempty, batchIds_cons, Finset.union_insert]
      split at h
      · rename_i hknown
        rw [if_pos hknown, ih h, Finset.insert_eq_of_mem]
        exact Finset.mem_union_left _ (contains_iff_mem_ids.mp hknown)
      · rename_i hnew
        rw [if_neg hnew, ih h, ids_put, Finset.insert_union]
        rfl

theorem nonempty_of_complete
    (h : (insertEach journal sequence inserted batch).complete = true) :
    ∀ source ∈ batch, source.retryId ≠ "" := by
  induction batch generalizing journal sequence inserted with
  | nil => exact List.forall_mem_nil _
  | cons first rest ih =>
      unfold insertEach at h
      split at h
      · exact absurd h (by simp)
      rename_i hempty
      rw [List.forall_mem_cons]
      refine ⟨hempty, ?_⟩
      split at h <;> exact ih h

end Batch

/-! ## The bound -/

section Bound

variable {sha256 : String → List Char} {clock : ℕ → Seconds} {stamp now : Seconds}
  {s s' : CallState} {batch : List NewRetry} {request : DedupeRequest} {inserted : List String}
  {journal journal' : Journal} {gone : List CallRetry} {fresh : ℕ}

/-- The entry is live, and it has never failed or is leased at every reading of the clock. -/
def CallRetry.Spared (clock : ℕ → Seconds) (entry : CallRetry) : Prop :=
  match entry.status with
  | .pending lease => entry.lastError = "" ∨ ∀ n, clock n < lease.expiresAt
  | .deadLetter _ => False

/-- What an insertion owes: the bound, the batch, and the entries that are not to be evicted. -/
structure InsertionKept (clock : ℕ → Seconds) (before after : Journal) (batch : List NewRetry) :
    Prop where
  bounded : after.size ≤ callRetryMaxEntries
  present : ∀ source ∈ batch, source.retryId ∈ after.ids
  spared : ∀ id entry, before.entries.get? id = some entry → entry.Spared clock →
    after.entries.get? id = some entry

/-- The ids that go to make room. -/
def victimIds (gone : List CallRetry) : Finset String :=
  (gone.map fun victim => victim.retryId).toFinset

/-- The entries of the batch that are evicted for it are no more than the items that were counted
as new twice. -/
def FewReturn (clock : ℕ → Seconds) (journal : Journal) (batch : List NewRetry) : Prop :=
  (batchIds batch ∩ victimIds (victims clock (newCount journal batch) 0 journal)).card +
    (batchIds batch \ journal.ids).card ≤ newCount journal batch

theorem RoomMade.ids (h : RoomMade clock fresh journal journal' gone) :
    journal'.ids = journal.ids \ victimIds gone := by
  ext id
  rw [Finset.mem_sdiff, Journal.mem_ids, Journal.mem_ids, victimIds, List.mem_toFinset, h.left]
  by_cases hgone : id ∈ gone.map fun victim => victim.retryId
  · simp [hgone]
  · simp [hgone]

theorem RoomMade.subset (h : RoomMade clock fresh journal journal' gone) :
    victimIds gone ⊆ journal.ids := by
  intro id hid
  rw [victimIds, List.mem_toFinset, List.mem_map] at hid
  rcases hid with ⟨victim, hvictim, rfl⟩
  exact Journal.mem_ids.mpr ⟨victim, h.known victim hvictim⟩

/-- Entries that are spared are not evicted. -/
theorem RoomMade.spares (h : RoomMade clock fresh journal journal' gone) {id : String}
    {entry : CallRetry} (hget : journal.entries.get? id = some entry)
    (hspared : entry.Spared clock) : journal'.entries.get? id = some entry := by
  rw [h.left, if_neg]
  · exact hget
  intro hgone
  rcases List.mem_map.mp hgone with ⟨victim, hvictim, rfl⟩
  rw [h.known victim hvictim, Option.some.injEq] at hget
  subst hget
  unfold CallRetry.Spared at hspared
  have hevictable := h.evictable victim hvictim
  unfold CallRetry.isIdleFailure at hevictable
  cases hstatus : victim.status with
  | deadLetter deadLetteredAt =>
      rw [hstatus] at hspared
      exact hspared
  | pending lease =>
      rw [hstatus] at hspared hevictable
      rcases hevictable rfl with ⟨n, hn⟩
      simp only [Bool.and_eq_true, decide_eq_true_eq] at hn
      rcases hspared with hclean | hleased
      · exact hn.1 hclean
      · exact absurd (hleased n) (not_lt.mpr hn.2)

/-- How many entries there are when the batch is in the journal. -/
theorem RoomMade.card_union (h : RoomMade clock fresh journal journal' gone)
    (added : Finset String) :
    (journal'.ids ∪ added).card =
      journal'.size + ((added ∩ victimIds gone).card + (added \ journal.ids).card) := by
  have hsplit : added \ journal'.ids = (added ∩ victimIds gone) ∪ (added \ journal.ids) := by
    rw [h.ids]
    ext id
    have hsub : id ∈ victimIds gone → id ∈ journal.ids := fun hid => h.subset hid
    simp only [Finset.mem_sdiff, Finset.mem_union, Finset.mem_inter]
    tauto
  have hdisjoint : Disjoint (added ∩ victimIds gone) (added \ journal.ids) := by
    rw [Finset.disjoint_left]
    intro id hback hnew
    exact (Finset.mem_sdiff.mp hnew).2 (h.subset (Finset.mem_inter.mp hback).2)
  rw [← Finset.union_sdiff_self_eq_union, Finset.card_union_of_disjoint Finset.disjoint_sdiff,
    hsplit, Finset.card_union_of_disjoint hdisjoint, Journal.card_ids]

/-- The distinct new ids of a batch are at most the items that are counted as new. -/
theorem card_new_le (journal : Journal) (batch : List NewRetry)
    (hnonempty : ∀ source ∈ batch, source.retryId ≠ "") :
    (batchIds batch \ journal.ids).card ≤ newCount journal batch := by
  induction batch with
  | nil => simp [batchIds]
  | cons source rest ih =>
      rw [List.forall_mem_cons] at hnonempty
      have hrest := ih hnonempty.2
      unfold newCount at hrest ⊢
      rw [batchIds_cons]
      by_cases hknown : source.retryId ∈ journal.ids
      · rw [Finset.insert_sdiff_of_mem _ hknown, List.countP_cons_of_neg]
        · exact hrest
        · simp [contains_iff_mem_ids.mpr hknown]
      · have hnot : journal.entries.contains source.retryId = false := by
          rw [← Bool.not_eq_true, contains_iff_mem_ids]
          exact hknown
        rw [List.countP_cons_of_pos (by simp [hnonempty.1, hnot]),
          Finset.insert_sdiff_of_notMem _ hknown]
        exact (Finset.card_insert_le _ _).trans (Nat.succ_le_succ hrest)

/-- An insertion that returns without a receipt has made room and put the whole batch in. -/
theorem insertion_cases (hkey : request.key = "" ∨ s.dedupe.get? request.key = none)
    (hok : insertCallRetryEntriesInState sha256 clock stamp s batch request =
      (.ok inserted, s')) :
    ∃ room, makeRoom sha256 clock (newCount s.journal batch) 0 s = (true, room) ∧
      (insertEach room.journal room.sequence [] batch).complete = true ∧
        s'.journal = (insertEach room.journal room.sequence [] batch).journal := by
  unfold insertCallRetryEntriesInState at hok
  have hnone : (if request.key = "" then none else s.dedupe.get? request.key) = none := by
    split
    · rfl
    · rename_i hnonempty
      exact hkey.resolve_left hnonempty
  simp only [hnone] at hok
  split at hok
  · cases (Prod.mk.inj hok).1
  rename_i hroom
  split at hok
  · cases (Prod.mk.inj hok).1
  rename_i hcomplete
  refine ⟨(makeRoom sha256 clock (newCount s.journal batch) 0 s).2, ?_, ?_, ?_⟩
  · rw [Bool.not_eq_false] at hroom
    exact Prod.ext hroom rfl
  · simpa using hcomplete
  · rw [← (Prod.mk.inj hok).2]

/-- An insertion keeps the journal within its bound exactly when few of its entries are evicted to
make room for them. -/
theorem insertion_law_iff (sha256 : String → List Char) (clock : ℕ → Seconds) (stamp : Seconds)
    (s s' : CallState) (batch : List NewRetry) (request : DedupeRequest) (inserted : List String)
    (hkey : request.key = "" ∨ s.dedupe.get? request.key = none)
    (hok : insertCallRetryEntriesInState sha256 clock stamp s batch request =
      (.ok inserted, s')) :
    InsertionKept clock s.journal s'.journal batch ↔ FewReturn clock s.journal batch := by
  rcases insertion_cases hkey hok with ⟨room, hroom, hcomplete, hjournal⟩
  have hspec := makeRoom_spec sha256 clock (newCount s.journal batch) 0 s
  rw [hroom] at hspec
  rcases hspec with ⟨hmade, hroomy, -⟩
  have hids : s'.journal.ids = room.journal.ids ∪ batchIds batch := by
    rw [hjournal]
    exact ids_insertEach hcomplete
  have hcard : s'.journal.size = room.journal.size +
      ((batchIds batch ∩ victimIds (victims clock (newCount s.journal batch) 0 s.journal)).card +
        (batchIds batch \ s.journal.ids).card) := by
    rw [← Journal.card_ids, hids]
    exact hmade.card_union _
  constructor
  · intro hkept
    have hbounded := hkept.bounded
    unfold FewReturn
    by_cases hgone : victims clock (newCount s.journal batch) 0 s.journal = []
    · rw [hgone]
      simpa [victimIds] using card_new_le s.journal batch (nonempty_of_complete hcomplete)
    · have hfilled : callRetryMaxEntries ≤ room.journal.size + newCount s.journal batch :=
        hmade.filled hgone
      omega
  · intro hfew
    unfold FewReturn at hfew
    constructor
    · have hroomy : room.journal.size + newCount s.journal batch ≤ callRetryMaxEntries :=
        hroomy rfl
      omega
    · intro source hsource
      rw [hids]
      exact Finset.mem_union_right _ (mem_batchIds.mpr ⟨source, hsource, rfl⟩)
    · intro id entry hget hspared
      rw [hjournal]
      exact get?_insertEach_of_some (hmade.spares hget hspared)

end Bound

/-! ## Rejections -/

section Rejections

variable {sha256 : String → List Char} {clock : ℕ → Seconds} {stamp now : Seconds}
  {s s' : CallState} {batch : List NewRetry} {request : DedupeRequest} {message : String}
  {journal journal' : Journal} {entry : CallRetry} {id : String}

/-- What an insertion that raises owes: the live entries that there were, and no new receipt. -/
structure RejectionKept (before after : CallState) : Prop where
  live : ∀ id entry, entry.status.isPending = true →
    (after.journal.entries.get? id = some entry ↔ before.journal.entries.get? id = some entry)
  receipts : ∀ key receipt, after.dedupe.get? key = some receipt →
    before.dedupe.get? key = some receipt

/-- No live entry goes to make room, and when there is room, what stands before the first empty id
of the batch is in the journal already. -/
def HarmlessRejection (clock : ℕ → Seconds) (journal : Journal) (batch : List NewRetry) : Prop :=
  (∀ victim ∈ victims clock (newCount journal batch) 0 journal,
    victim.status.isPending = false) ∧
  (journal.size + newCount journal batch ≤
      callRetryMaxEntries + (victims clock (newCount journal batch) 0 journal).length →
    ∀ source ∈ batch.takeWhile fun source => source.retryId ≠ "",
      ∃ entry, journal.entries.get? source.retryId = some entry ∧
        entry ∉ victims clock (newCount journal batch) 0 journal)

theorem get?_pruneReceipts {dedupe : Dict String DedupeReceipt} {key : String}
    {receipt : DedupeReceipt} (h : (pruneReceipts now dedupe).get? key = some receipt) :
    dedupe.get? key = some receipt := by
  unfold pruneReceipts at h
  rw [Dict.get?_filter_eq_some_iff, Dict.get?_filter_eq_some_iff] at h
  exact h.1.1

/-- Retention keeps every live entry. -/
theorem get?_prune_pending (hpending : entry.status.isPending = true) :
    (s.prune sha256 now).journal.entries.get? id = some entry ↔
      s.journal.entries.get? id = some entry := by
  change (s.journal.entries.filter fun _ entry => !entry.isExpired now).get? id = some entry ↔ _
  rw [Dict.get?_filter_eq_some_iff]
  have hlive : entry.isExpired now = false := by
    unfold CallRetry.isExpired
    unfold RetryStatus.isPending at hpending
    split
    · rfl
    · rename_i hdead
      rw [hdead] at hpending
      cases hpending
  simp [hlive]

/-- The two ways in which an insertion raises. -/
theorem rejection_cases
    (h : insertCallRetryEntriesInState sha256 clock stamp s batch request = (.error message, s')) :
    ∃ room, room = makeRoom sha256 clock (newCount s.journal batch) 0 s ∧
      s'.dedupe = s.dedupe ∧
      ((room.1 = false ∧ s'.journal = room.2.journal) ∨
        room.1 = true ∧
          s'.journal = (insertEach room.2.journal room.2.sequence [] batch).journal) := by
  unfold insertCallRetryEntriesInState at h
  have hdedupe := (makeRoom_spec sha256 clock (newCount s.journal batch) 0 s).2.2
  refine ⟨_, rfl, ?_⟩
  split at h
  · cases (Prod.mk.inj h).1
  simp only at h
  split at h
  · rename_i hfull
    rw [← (Prod.mk.inj h).2]
    exact ⟨hdedupe, .inl ⟨hfull, rfl⟩⟩
  rename_i hroom
  rw [Bool.not_eq_false] at hroom
  split at h
  · rw [← (Prod.mk.inj h).2]
    exact ⟨hdedupe, .inr ⟨hroom, rfl⟩⟩
  · cases (Prod.mk.inj h).1

/-- A loop that gives up has found no victim, and the journal is still too full. -/
theorem room_iff (sha256 : String → List Char) (clock : ℕ → Seconds) (fresh round : ℕ)
    (s : CallState) :
    (makeRoom sha256 clock fresh round s).1 = true ↔
      s.journal.size + fresh ≤
        callRetryMaxEntries + (victims clock fresh round s.journal).length := by
  induction hsize : s.journal.size using Nat.strongRecOn generalizing s round with
  | ind size ih =>
      by_cases hroom : s.journal.size + fresh ≤ callRetryMaxEntries
      · rw [makeRoom_of_room hroom, victims_of_room hroom]
        simp [← hsize, hroom]
      cases hvictim : callRetryCapacityVictim s.journal (clock round) with
      | none =>
          rw [makeRoom_of_none hroom hvictim, victims_of_none hroom hvictim]
          simp [← hsize, hroom]
      | some victim =>
          have hpop := size_pop_of_victim hvictim
          have hless : (s.journal.pop victim.retryId).size < size := by
            rw [← hsize, ← hpop]
            exact Nat.lt_succ_self _
          have hjournal : (s.evict sha256 (clock round) victim).journal =
              s.journal.pop victim.retryId := rfl
          have hrest := ih _ hless (round + 1) (s.evict sha256 (clock round) victim) rfl
          rw [makeRoom_of_victim hroom hvictim, victims_of_victim hroom hvictim, hrest, hjournal,
            List.length_cons, ← hsize, ← hpop]
          omega

/-- What goes to make room has failed, if it is live. -/
theorem RoomMade.failed {fresh : ℕ} {gone : List CallRetry}
    (h : RoomMade clock fresh journal journal' gone) {victim : CallRetry} (hmem : victim ∈ gone)
    (hpending : victim.status.isPending = true) : victim.lastError ≠ "" := by
  rcases h.evictable victim hmem hpending with ⟨n, hidle⟩
  unfold CallRetry.isIdleFailure at hidle
  unfold RetryStatus.isPending at hpending
  split at hidle
  · rw [Bool.and_eq_true, decide_eq_true_eq] at hidle
    exact hidle.1
  · cases hidle

/-- An insertion that raises leaves the live entries alone exactly when its room costs none of them
and nothing is inserted. -/
theorem rejection_law_iff (sha256 : String → List Char) (clock : ℕ → Seconds)
    (now stamp : Seconds) (s s' : CallState) (batch : List NewRetry) (request : DedupeRequest)
    (message : String)
    (hraise : insertCallRetryEntries sha256 clock now stamp s batch request =
      (.error message, s')) :
    RejectionKept s s' ↔ HarmlessRejection clock (s.prune sha256 now).journal batch := by
  rcases rejection_cases hraise with ⟨room, hroom, hdedupe, hcases⟩
  have hspec := makeRoom_spec sha256 clock (newCount (s.prune sha256 now).journal batch) 0
    (s.prune sha256 now)
  have hiff := room_iff sha256 clock (newCount (s.prune sha256 now).journal batch) 0
    (s.prune sha256 now)
  rw [← hroom] at hspec hiff
  have hmade := hspec.1
  constructor
  · intro hkept
    constructor
    · intro victim hvictim
      rw [← Bool.not_eq_true]
      intro hpending
      have hbefore := (get?_prune_pending hpending).mp (hmade.known victim hvictim)
      have hafter := (hkept.live _ _ hpending).mpr hbefore
      have hgone : room.2.journal.entries.get? victim.retryId = none := by
        rw [hmade.left, if_pos (List.mem_map_of_mem hvictim)]
      rcases hcases with ⟨-, hjournal⟩ | ⟨-, hjournal⟩
      · rw [hjournal, hgone] at hafter
        cases hafter
      · rw [hjournal] at hafter
        rcases get?_insertEach hafter with hold | ⟨-, hclean, -⟩
        · rw [hgone] at hold
          cases hold
        · exact hmade.failed hvictim hpending hclean
    · intro hfits source hsource
      have htrue := hiff.mpr hfits
      rcases hcases with ⟨hfalse, -⟩ | ⟨-, hjournal⟩
      · rw [htrue] at hfalse
        cases hfalse
      have hmem := @mem_insertEach room.2.journal room.2.sequence [] batch source hsource
      rw [Journal.mem_ids, ← hjournal] at hmem
      rcases hmem with ⟨entry, hentry⟩
      have hthere : ∃ found, room.2.journal.entries.get? source.retryId = some found := by
        have hinserted := hentry
        rw [hjournal] at hinserted
        rcases get?_insertEach hinserted with hold | ⟨hpending, hclean, -⟩
        · exact ⟨entry, hold⟩
        have hbefore := (@get?_prune_pending sha256 now s entry source.retryId hpending).mpr
          ((hkept.live _ _ hpending).mp hentry)
        refine ⟨entry, ?_⟩
        rw [hmade.left, if_neg]
        · exact hbefore
        intro hgone
        rcases List.mem_map.mp hgone with ⟨victim, hvictim, hid⟩
        have hknown := hmade.known victim hvictim
        rw [hid, hbefore, Option.some.injEq] at hknown
        subst hknown
        exact hmade.failed hvictim hpending hclean
      rcases hthere with ⟨found, hfound⟩
      rw [hmade.left] at hfound
      split at hfound
      · cases hfound
      rename_i hstays
      refine ⟨found, hfound, fun hvictim => hstays ?_⟩
      have hkey := Journal.keyed _ _ _ hfound
      rw [← hkey]
      exact List.mem_map_of_mem hvictim
  · intro hharmless
    have hlive : ∀ id entry, entry.status.isPending = true →
        (room.2.journal.entries.get? id = some entry ↔
          (s.prune sha256 now).journal.entries.get? id = some entry) := by
      intro id entry hpending
      rw [hmade.left]
      by_cases hgone : id ∈ (victims clock (newCount (s.prune sha256 now).journal batch) 0
          (s.prune sha256 now).journal).map fun victim => victim.retryId
      · rw [if_pos hgone]
        rcases List.mem_map.mp hgone with ⟨victim, hvictim, rfl⟩
        rw [hmade.known victim hvictim, Option.some.injEq]
        constructor
        · intro h
          cases h
        · rintro rfl
          have hdead := hharmless.1 victim hvictim
          rw [hpending] at hdead
          cases hdead
      · rw [if_neg hgone]
    constructor
    · intro id entry hpending
      rw [← @get?_prune_pending sha256 now s entry id hpending, ← hlive id entry hpending]
      rcases hcases with ⟨-, hjournal⟩ | ⟨htrue, hjournal⟩
      · rw [hjournal]
      rw [hjournal]
      constructor
      · intro hget
        rcases get?_insertEach hget with hold | ⟨-, -, source, hsource, hid⟩
        · exact hold
        rcases hharmless.2 (hiff.mp htrue) source hsource with ⟨found, hfound, hstays⟩
        have hthere : room.2.journal.entries.get? id = some found := by
          rw [← hid, hmade.left, if_neg]
          · exact hfound
          intro hgone
          rcases List.mem_map.mp hgone with ⟨victim, hvictim, heq⟩
          have hknown := hmade.known victim hvictim
          rw [heq, hfound, Option.some.injEq] at hknown
          exact hstays (hknown ▸ hvictim)
        rw [get?_insertEach_of_some hthere] at hget
        rw [hthere, hget]
      · exact get?_insertEach_of_some
    · intro key receipt hget
      rw [hdedupe] at hget
      exact get?_pruneReceipts hget

end Rejections

/-! ## A crowded journal -/

section Crowd

variable {sha256 : String → List Char} {clock : ℕ → Seconds} {stamp now : Seconds}
  {s room : CallState} {batch : List NewRetry} {request : DedupeRequest} {journal : Journal}
  {entry odd : CallRetry} {n : ℕ}

theorem insert_of_room (hkey : request.key = "")
    (hroom : makeRoom sha256 clock (newCount s.journal batch) 0 s = (true, room))
    (hcomplete : (insertEach room.journal room.sequence [] batch).complete = true) :
    insertCallRetryEntriesInState sha256 clock stamp s batch request =
      (.ok (insertEach room.journal room.sequence [] batch).inserted, { room with
        journal := (insertEach room.journal room.sequence [] batch).journal
        sequence := (insertEach room.journal room.sequence [] batch).sequence }) := by
  unfold insertCallRetryEntriesInState
  simp [hkey, hroom, hcomplete]

theorem insert_of_unnamed (hkey : request.key = "")
    (hroom : makeRoom sha256 clock (newCount s.journal batch) 0 s = (true, room))
    (hcomplete : (insertEach room.journal room.sequence [] batch).complete = false) :
    insertCallRetryEntriesInState sha256 clock stamp s batch request =
      (.error "Call journal entry requires retry_id.", { room with
        journal := (insertEach room.journal room.sequence [] batch).journal }) := by
  unfold insertCallRetryEntriesInState
  simp [hkey, hroom, hcomplete]

theorem insert_of_full (hkey : request.key = "")
    (hroom : makeRoom sha256 clock (newCount s.journal batch) 0 s = (false, room)) :
    insertCallRetryEntriesInState sha256 clock stamp s batch request =
      (.error "Call retry journal is at its live-entry limit.", room) := by
  unfold insertCallRetryEntriesInState
  simp [hkey, hroom]

theorem size_put_of_new (h : entry.retryId ∉ journal.ids) :
    (journal.put entry).size = journal.size + 1 := by
  rw [← Journal.card_ids, ids_put, Finset.card_insert_of_notMem h, Journal.card_ids]

/-- An entry that has never failed. -/
def CallRetry.Quiet (entry : CallRetry) : Prop :=
  entry.status.isPending = true ∧ entry.lastError = ""

theorem CallRetry.Quiet.notDead (h : entry.Quiet) : (!entry.status.isPending) = false := by
  rw [h.1]
  rfl

theorem CallRetry.Quiet.notIdle (h : entry.Quiet) : entry.isIdleFailure now = false := by
  unfold CallRetry.isIdleFailure
  split
  · simp [h.2]
  · rfl

theorem victim_of_quiet (h : ∀ entry ∈ journal.entries.values, entry.Quiet) :
    callRetryCapacityVictim journal now = none := by
  unfold callRetryCapacityVictim
  have hdead : (journal.entries.values.filter fun entry => !entry.status.isPending) = [] := by
    rw [List.filter_eq_nil_iff]
    intro entry hentry
    rw [(h entry hentry).notDead]
    simp
  have hidle : journal.entries.values.filter (CallRetry.isIdleFailure now) = [] := by
    rw [List.filter_eq_nil_iff]
    intro entry hentry
    rw [(h entry hentry).notIdle]
    simp
  rw [hdead, hidle]
  rfl

/-- The call of the samples. -/
def sampleReference : CallReference where
  ownerContactId := "a"
  taskId := "task"
  callId := "call"
  known := by decide

/-- A change of its card. -/
def sampleRetry (id : String) : NewRetry where
  retryId := id
  operation := .patch
  direction := .mutation
  reference := sampleReference
  payload := "{}"
  lane := "lane"
  createdAt := 1

/-- One of the entries of a crowd. -/
def quietRetry (k : ℕ) : CallRetry :=
  (sampleRetry (String.ofList (List.replicate (k + 1) 'q'))).entry k

theorem quiet_quietRetry (k : ℕ) : (quietRetry k).Quiet :=
  ⟨rfl, rfl⟩

theorem head_quietRetry (k : ℕ) : (quietRetry k).retryId.toList.head? = some 'q' := by
  simp [quietRetry, NewRetry.entry, sampleRetry, List.replicate_succ]

/-- A journal with one entry that is unlike the others. -/
def crowd (n : ℕ) (odd : CallRetry) (hodd : odd.retryId = "odd") : Journal where
  entries :=
    { entries := (odd.retryId, odd) ::
        (List.range n).map fun k => ((quietRetry k).retryId, quietRetry k)
      nodup := by
        rw [List.map_cons, List.map_map, List.nodup_cons]
        constructor
        · intro hmem
          rcases List.mem_map.mp hmem with ⟨k, -, heq⟩
          have hhead := head_quietRetry k
          have hid : (quietRetry k).retryId = "odd" := heq.trans hodd
          rw [hid] at hhead
          revert hhead
          decide
        · apply List.Nodup.map _ List.nodup_range
          intro j k heq
          have hlength := congrArg (fun text => text.toList.length) heq
          simpa [quietRetry, NewRetry.entry, sampleRetry] using hlength }
  keyed id entry hget := by
    rw [Dict.get?_eq_some_iff] at hget
    rcases List.mem_cons.mp hget with hhead | htail
    · cases hhead
      rfl
    · rcases List.mem_map.mp htail with ⟨k, -, heq⟩
      cases heq
      rfl

variable {hodd : odd.retryId = "odd"}

theorem size_crowd : (crowd n odd hodd).size = n + 1 := by
  simp [crowd, Journal.size, Dict.size]

theorem values_crowd :
    (crowd n odd hodd).entries.values = odd :: (List.range n).map quietRetry := by
  simp [crowd, Dict.values]

theorem get?_crowd_odd : (crowd n odd hodd).entries.get? "odd" = some odd := by
  rw [Dict.get?_eq_some_iff, ← hodd]
  exact List.mem_cons_self

theorem mem_ids_crowd {id : String} (h : id ∈ (crowd n odd hodd).ids) (hid : id ≠ "odd") :
    id.toList.head? = some 'q' := by
  rcases Journal.mem_ids.mp h with ⟨entry, hget⟩
  rw [Dict.get?_eq_some_iff] at hget
  rcases List.mem_cons.mp hget with hhead | htail
  · cases hhead
    exact absurd hodd hid
  · rcases List.mem_map.mp htail with ⟨k, -, heq⟩
    cases heq
    exact head_quietRetry k

/-- Without the odd one the crowd is quiet. -/
theorem quiet_pop_crowd :
    ∀ entry ∈ ((crowd n odd hodd).pop "odd").entries.values, entry.Quiet := by
  intro entry hentry
  rcases Dict.mem_values.mp hentry with ⟨id, hget⟩
  rcases (Dict.get?_pop_eq_some_iff _ _ _ _).mp hget with ⟨hid, hfound⟩
  rw [Dict.get?_eq_some_iff] at hfound
  rcases List.mem_cons.mp hfound with hhead | htail
  · cases hhead
    exact absurd hodd.symm hid
  · rcases List.mem_map.mp htail with ⟨k, -, heq⟩
    cases heq
    exact quiet_quietRetry k

theorem odd_mem_crowd : "odd" ∈ (crowd n odd hodd).ids :=
  Journal.mem_ids.mpr ⟨odd, get?_crowd_odd⟩

theorem size_pop_crowd : ((crowd n odd hodd).pop "odd").size = n := by
  have hpop : ((crowd n odd hodd).pop "odd").size + 1 = (crowd n odd hodd).size :=
    Dict.size_pop get?_crowd_odd
  rw [size_crowd] at hpop
  omega

/-- An id of another kind is new, before and after the odd one has gone. -/
theorem new_to_crowd {id : String} (hid : id ≠ "odd") (hhead : id.toList.head? ≠ some 'q') :
    id ∉ (crowd n odd hodd).ids ∧ id ∉ ((crowd n odd hodd).pop "odd").ids := by
  have hnot : id ∉ (crowd n odd hodd).ids := fun hmem => hhead (mem_ids_crowd hmem hid)
  refine ⟨hnot, ?_⟩
  intro hmem
  rcases Journal.mem_ids.mp hmem with ⟨entry, hget⟩
  exact hnot (Journal.mem_ids.mpr ⟨entry, ((Dict.get?_pop_eq_some_iff _ _ _ _).mp hget).2⟩)

theorem odd_popped (journal : Journal) : "odd" ∉ (journal.pop "odd").ids := by
  intro hmem
  rcases Journal.mem_ids.mp hmem with ⟨entry, hget⟩
  exact ((Dict.get?_pop_eq_some_iff _ _ _ _).mp hget).1 rfl

theorem contains_eq_false {id : String} (h : id ∉ journal.ids) :
    journal.entries.contains id = false := by
  rw [← Bool.not_eq_true, contains_iff_mem_ids]
  exact h

/-- The odd one is the victim. -/
theorem victim_crowd (h : odd.status.isPending = false ∨ odd.isIdleFailure now = true) :
    callRetryCapacityVictim (crowd n odd hodd) now = some odd := by
  have hdead : ((List.range n).map quietRetry).filter (fun entry => !entry.status.isPending) =
      [] := by
    rw [List.filter_eq_nil_iff]
    intro entry hentry
    rcases List.mem_map.mp hentry with ⟨k, -, rfl⟩
    simp [(quiet_quietRetry k).1]
  have hidle : ((List.range n).map quietRetry).filter (CallRetry.isIdleFailure now) = [] := by
    rw [List.filter_eq_nil_iff]
    intro entry hentry
    rcases List.mem_map.mp hentry with ⟨k, -, rfl⟩
    simp [(quiet_quietRetry k).notIdle]
  unfold callRetryCapacityVictim
  rw [values_crowd]
  by_cases hpending : odd.status.isPending = true
  · have hfailed := h.resolve_left (by simp [hpending])
    rw [List.filter_cons_of_neg (by simp [hpending]), hdead,
      List.filter_cons_of_pos hfailed, hidle, List.argmin_nil, List.argmin_singleton]
  · rw [List.filter_cons_of_pos (by simpa using hpending), hdead, List.argmin_singleton]

end Crowd

section Samples

variable {sha256 : String → List Char} {clock : ℕ → Seconds} {stamp now : Seconds} {n : ℕ}

/-- A state with this journal and nothing else. -/
def CallState.holding (journal : Journal) : CallState where
  journal := journal
  sequence := 0
  deadLetters := []
  overflowCount := 0
  lastOverflowAt := 0
  dedupe := Dict.empty

def noRequest : DedupeRequest where
  key := ""
  result := none
  kind := ""

/-- The clock stands still. -/
def stillClock : ℕ → Seconds := fun _ => 0

/-- A change that was given up. -/
def givenUp : CallRetry :=
  { (sampleRetry "odd").entry 1 with
    status := .deadLetter 1
    attempts := 1
    lastError := "WorkCallMutationError:http_404" }

theorem givenUp_id : givenUp.retryId = "odd" := rfl

/-- A change that has failed and waits for its next attempt. -/
def failedOnce : CallRetry :=
  { (sampleRetry "odd").entry 1 with
    attempts := 1
    lastError := "InterfaceError" }

/-- A journal that holds nothing. -/
def Journal.empty : Journal where
  entries := Dict.empty
  keyed id entry hget := by
    rw [Dict.get?_empty] at hget
    cases hget

theorem insertion_law_single : (FewReturn stillClock Journal.empty [sampleRetry "new"] ∧
    InsertionKept stillClock Journal.empty
      (insertCallRetryEntriesInState String.toList stillClock 0 (.holding .empty)
        [sampleRetry "new"] noRequest).2.journal [sampleRetry "new"]) := by
  have hfew : FewReturn stillClock Journal.empty [sampleRetry "new"] := by
    have hnone : victims stillClock (newCount Journal.empty [sampleRetry "new"]) 0 .empty = [] :=
      victims_of_room (by decide)
    unfold FewReturn
    rw [hnone]
    decide
  refine ⟨hfew, ?_⟩
  have hroom : makeRoom String.toList stillClock
      (newCount Journal.empty [sampleRetry "new"]) 0 (.holding .empty) =
        (true, .holding .empty) := makeRoom_of_room (by decide)
  have hok := @insert_of_room String.toList stillClock 0 (.holding .empty) (.holding .empty)
    [sampleRetry "new"] noRequest rfl hroom (by decide)
  rw [hok]
  exact (insertion_law_iff String.toList stillClock 0 (.holding .empty) _ [sampleRetry "new"]
    noRequest _ (.inl rfl) hok).mpr hfew

/-- A batch that brings back what was given up, and something new, to a full journal: what was given
up goes to make room for one, and two come. -/
theorem given_up_comes_back : ¬ ∀ (sha256 : String → List Char) (clock : ℕ → Seconds)
    (stamp : Seconds) (s s' : CallState) (batch : List NewRetry) (request : DedupeRequest)
    (inserted : List String), s.journal.size ≤ callRetryMaxEntries → request.key = "" →
      insertCallRetryEntriesInState sha256 clock stamp s batch request = (.ok inserted, s') →
        InsertionKept clock s.journal s'.journal batch := by
  intro hclaim
  rcases (⟨999, rfl⟩ : ∃ n, n + 1 = callRetryMaxEntries) with ⟨n, hn⟩
  have hnew := @new_to_crowd givenUp n givenUp_id "new" (by decide) (by decide)
  have hcount : newCount (crowd n givenUp givenUp_id) [sampleRetry "odd", sampleRetry "new"] =
      1 := by
    simp [newCount, sampleRetry, contains_iff_mem_ids.mpr odd_mem_crowd, contains_eq_false hnew.1]
  have hfull : (crowd n givenUp givenUp_id).size = callRetryMaxEntries := size_crowd.trans hn
  have hroom : makeRoom String.toList stillClock
      (newCount (crowd n givenUp givenUp_id) [sampleRetry "odd", sampleRetry "new"]) 0
        (.holding (crowd n givenUp givenUp_id)) =
      (true, (CallState.holding (crowd n givenUp givenUp_id)).evict String.toList 0 givenUp) := by
    have hvictim : callRetryCapacityVictim (crowd n givenUp givenUp_id) (stillClock 0) =
        some givenUp := victim_crowd (.inl rfl)
    rw [hcount, makeRoom_of_victim _ hvictim, makeRoom_of_room]
    · rfl
    · change ((crowd n givenUp givenUp_id).pop "odd").size + 1 ≤ callRetryMaxEntries
      rw [size_pop_crowd, hn]
    · change ¬ (crowd n givenUp givenUp_id).size + 1 ≤ callRetryMaxEntries
      omega
  have hgone := odd_popped (crowd n givenUp givenUp_id)
  have hstill : "new" ∉ (((crowd n givenUp givenUp_id).pop "odd").put
      ((sampleRetry "odd").entry 1)).ids := by
    rw [ids_put, Finset.mem_insert, not_or]
    exact ⟨by decide, hnew.2⟩
  have heach : insertEach ((crowd n givenUp givenUp_id).pop "odd") 0 []
      [sampleRetry "odd", sampleRetry "new"] =
      { journal := (((crowd n givenUp givenUp_id).pop "odd").put
          ((sampleRetry "odd").entry 1)).put ((sampleRetry "new").entry 2)
        sequence := 2
        inserted := ["odd", "new"]
        complete := true } := by
    rw [insertEach, if_neg (by decide), if_neg (Bool.not_eq_true _ ▸ contains_eq_false hgone),
      insertEach, if_neg (by decide), if_neg (Bool.not_eq_true _ ▸ contains_eq_false hstill)]
    rfl
  have hok := @insert_of_room String.toList stillClock 0 (.holding (crowd n givenUp givenUp_id)) _
    [sampleRetry "odd", sampleRetry "new"] noRequest rfl hroom
      ((congrArg Insertion.complete heach).trans rfl)
  have hbounded := (hclaim _ _ _ _ _ _ _ _ hfull.le rfl hok).bounded
  change (insertEach ((crowd n givenUp givenUp_id).pop "odd") 0 []
    [sampleRetry "odd", sampleRetry "new"]).journal.size ≤ _ at hbounded
  rw [congrArg Insertion.journal heach, size_put_of_new hstill, size_put_of_new hgone,
    size_pop_crowd] at hbounded
  omega

theorem rejection_law_unnamed :
    ¬ HarmlessRejection stillClock Journal.empty [sampleRetry "new", sampleRetry ""] ∧
    ¬ RejectionKept (.holding .empty) (insertCallRetryEntries String.toList stillClock 0 0
      (.holding .empty) [sampleRetry "new", sampleRetry ""] noRequest).2 := by
  have hnot : ¬ HarmlessRejection stillClock Journal.empty
      [sampleRetry "new", sampleRetry ""] := by
    intro hharmless
    have hnone : victims stillClock
        (newCount Journal.empty [sampleRetry "new", sampleRetry ""]) 0 .empty = [] :=
      victims_of_room (by decide)
    have hfits := hharmless.2
    rw [hnone] at hfits
    rcases hfits (by decide) (sampleRetry "new") (by decide) with ⟨entry, hget, -⟩
    exact absurd hget (by simp [Journal.empty])
  refine ⟨hnot, ?_⟩
  have hroom : makeRoom String.toList stillClock
      (newCount Journal.empty [sampleRetry "new", sampleRetry ""]) 0
        ((CallState.holding .empty).prune String.toList 0) =
      (true, (CallState.holding .empty).prune String.toList 0) := makeRoom_of_room (by decide)
  have hraise := @insert_of_unnamed String.toList stillClock 0
    ((CallState.holding .empty).prune String.toList 0)
    ((CallState.holding .empty).prune String.toList 0)
    [sampleRetry "new", sampleRetry ""] noRequest rfl hroom (by decide)
  intro hkept
  rw [insertCallRetryEntries, hraise] at hkept
  exact hnot ((rejection_law_iff String.toList stillClock 0 0 (.holding .empty) _
    [sampleRetry "new", sampleRetry ""] noRequest _ hraise).mp hkept)

theorem failedOnce_id : failedOnce.retryId = "odd" := rfl

/-- Retention leaves a journal of live entries as it is. -/
theorem prune_of_pending {s : CallState}
    (h : ∀ entry ∈ s.journal.entries.values, entry.status.isPending = true) :
    (s.prune sha256 now).journal.entries.entries = s.journal.entries.entries := by
  apply List.filter_eq_self.mpr
  intro entry hentry
  have hpending := h entry.2 (List.mem_map_of_mem hentry)
  unfold RetryStatus.isPending at hpending
  unfold CallRetry.isExpired
  split at hpending
  · rename_i hstatus
    simp [hstatus]
  · cases hpending

/-- Two new changes for a full journal in which one has failed: it goes to make room, and then there
is no more. -/
theorem failed_change_discarded : ¬ ∀ (sha256 : String → List Char) (clock : ℕ → Seconds)
    (now stamp : Seconds) (s s' : CallState) (batch : List NewRetry) (request : DedupeRequest)
    (message : String),
      insertCallRetryEntries sha256 clock now stamp s batch request = (.error message, s') →
        RejectionKept s s' := by
  intro hclaim
  rcases (⟨999, rfl⟩ : ∃ n, n + 1 = callRetryMaxEntries) with ⟨n, hn⟩
  have hfull : (crowd n failedOnce failedOnce_id).size = callRetryMaxEntries := size_crowd.trans hn
  have hpruned : ((CallState.holding (crowd n failedOnce failedOnce_id)).prune String.toList
      0).journal = crowd n failedOnce failedOnce_id := by
    have hentries := @prune_of_pending String.toList 0
      (.holding (crowd n failedOnce failedOnce_id)) (by
        change ∀ entry ∈ (crowd n failedOnce failedOnce_id).entries.values, _
        rw [values_crowd, List.forall_mem_cons]
        refine ⟨rfl, ?_⟩
        intro entry hentry
        rcases List.mem_map.mp hentry with ⟨k, -, rfl⟩
        rfl)
    rw [Journal.mk.injEq, Dict.mk.injEq]
    exact hentries
  have hnew := @new_to_crowd failedOnce n failedOnce_id "new" (by decide) (by decide)
  have hnewer := @new_to_crowd failedOnce n failedOnce_id "newer" (by decide) (by decide)
  have hcount : newCount (crowd n failedOnce failedOnce_id)
      [sampleRetry "new", sampleRetry "newer"] = 2 := by
    simp [newCount, sampleRetry, contains_eq_false hnew.1, contains_eq_false hnewer.1]
  have hvictim : callRetryCapacityVictim (crowd n failedOnce failedOnce_id) (stillClock 0) =
      some failedOnce := victim_crowd (.inr (by decide))
  have hnone : callRetryCapacityVictim ((crowd n failedOnce failedOnce_id).pop "odd")
      (stillClock 1) = none := victim_of_quiet quiet_pop_crowd
  have hroom : makeRoom String.toList stillClock
      (newCount ((CallState.holding (crowd n failedOnce failedOnce_id)).prune String.toList
        0).journal [sampleRetry "new", sampleRetry "newer"]) 0
          ((CallState.holding (crowd n failedOnce failedOnce_id)).prune String.toList 0) =
      (false, (makeRoom String.toList stillClock 2 0
        ((CallState.holding (crowd n failedOnce failedOnce_id)).prune String.toList 0)).2) ∧
      (makeRoom String.toList stillClock 2 0
        ((CallState.holding (crowd n failedOnce failedOnce_id)).prune String.toList
          0)).2.journal = (crowd n failedOnce failedOnce_id).pop "odd" := by
    have hevicted : (((CallState.holding (crowd n failedOnce failedOnce_id)).prune String.toList
        0).evict String.toList (stillClock 0) failedOnce).journal =
        (crowd n failedOnce failedOnce_id).pop "odd" := congrArg (Journal.pop · "odd") hpruned
    rw [hpruned, hcount, makeRoom_of_victim _ (hpruned ▸ hvictim), makeRoom_of_none]
    · exact ⟨rfl, hevicted⟩
    · rw [hevicted, size_pop_crowd]
      omega
    · rw [hevicted]
      exact hnone
    · rw [hpruned]
      omega
  have hraise := @insert_of_full String.toList stillClock 0
    ((CallState.holding (crowd n failedOnce failedOnce_id)).prune String.toList 0) _
    [sampleRetry "new", sampleRetry "newer"] noRequest rfl hroom.1
  have hlive := (hclaim String.toList stillClock 0 0 _ _ _ _ _ hraise).live "odd" failedOnce rfl
  rw [hroom.2] at hlive
  have hthere : ((crowd n failedOnce failedOnce_id).pop "odd").entries.get? "odd" =
      some failedOnce := hlive.mpr (@get?_crowd_odd failedOnce n failedOnce_id)
  exact odd_popped _ (Journal.mem_ids.mpr ⟨failedOnce, hthere⟩)

end Samples

end WorkUpdates
end Stemcell
