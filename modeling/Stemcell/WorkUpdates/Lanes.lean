import Mathlib.Algebra.Order.Ring.Unbundled.Rat
import Mathlib.Algebra.Ring.Rat
import Mathlib.Data.String.Basic
import Stemcell.Lib.Transition
import Stemcell.WorkUpdates.Frames
import Stemcell.WorkUpdates.Journal

/-!
# The lanes of the call journal

All changes of one call share a lane, and the first one that is not settled holds the others up.  A
process claims it with a lease before it goes to the network, and reports with the token of the
lease.  A claim that has expired can be taken over, so that reports come late.

Main results:

- Definition `claimCallRetry`: the claim of an entry.
- Theorem `LaneInv.settles`: an entry that leaves the journal was completed or archived.
- Theorem `lanes_law`: each lane is delivered in order, by one holder at a time.

Current gaps:

- The error of a delivery is a text that says whether it is final.
- Creating a call and changing it are known by their entries, not by what the cards show.
-/

namespace Stemcell
namespace WorkUpdates

open Lib
open Maintenance (Seconds)

def callRetryLeaseSeconds : Seconds := 90
def callRetryBaseDelaySeconds : Seconds := 1
def callRetryMaxDelaySeconds : Seconds := 5 * 60
def callRetryMaxAttempts : ℕ := 297

section Lanes

variable (sha256 : String → List Char)

/-! ## What is inserted -/

/-- The digest of `_stable_id`. -/
def callEnv : FrameEnv where
  digest material := String.ofList ((sha256 material).take 24)

/-- `_call_retry_lane`. -/
def callRetryLane (reference : CallReference) : String :=
  stableId (callEnv sha256) "call-lane"
    [reference.ownerContactId, reference.taskId, reference.callId]

/-- `_call_retry_id`. -/
def callRetryId (direction : CallDirection) (reference : CallReference) : String :=
  stableId (callEnv sha256) "call-create-retry"
    [direction.text, reference.ownerContactId, reference.callId]

/-- A change of a call that is journaled.  A patch needs an owner. -/
inductive CallMutation
  | create (direction : CallDirection) (reference : CallReference) (payload : String)
  | patch (direction : CallDirection) (reference : CallReference) (payload mutationId : String)
      (owned : reference.ownerContactId ≠ "")
deriving DecidableEq, Repr

/-- `_new_call_retry_entry`. -/
def newCallRetryEntry (retryId : String) (operation : CallOperation) (direction : CallDirection)
    (reference : CallReference) (payload : String) (now : Seconds) : NewRetry where
  retryId := retryId
  operation := operation
  direction := direction
  reference := reference
  payload := payload
  lane := callRetryLane sha256 reference
  createdAt := now

/-- The entry of a change, as `_journal_call_create` and `_call_patch_entry` make it. -/
def CallMutation.newEntry (now : Seconds) : CallMutation → NewRetry
  | .create direction reference payload =>
      newCallRetryEntry sha256 (callRetryId sha256 direction reference) .create direction reference
        payload now
  | .patch direction reference payload mutationId _ =>
      newCallRetryEntry sha256
        (stableId (callEnv sha256) "call-mutation-retry"
          [reference.ownerContactId, reference.taskId, reference.callId, mutationId])
        .patch direction reference payload now

/-! ## Claims and reports -/

/-- The lane that an entry waits in. -/
def CallRetry.laneOf (entry : CallRetry) : String :=
  if entry.lane ≠ "" then entry.lane else callRetryLane sha256 entry.reference

/-- The entry holds up the later ones of its lane. -/
def CallRetry.blocks (entry : CallRetry) : Bool :=
  entry.status.isPending || entry.operation == .create

/-- The order of a lane. -/
def CallRetry.laneKey (entry : CallRetry) : ℕ ×ₗ (Seconds ×ₗ String) :=
  toLex (entry.sequence, toLex (entry.createdAt, entry.retryId))

/-- The first entry of a lane that holds it up. -/
def firstOfLane (journal : Journal) (lane : String) : Option CallRetry :=
  (journal.entries.values.filter fun candidate =>
    candidate.laneOf sha256 = lane && candidate.blocks).argmin CallRetry.laneKey

/-- An entry that was just claimed. -/
def CallRetry.claimed (entry : CallRetry) (now : Seconds) (owner token : String) : CallRetry :=
  { entry with
    lane := entry.laneOf sha256
    status := .pending
      { owner := owner
        token := token
        expiresAt := now + callRetryLeaseSeconds } }

/-- `_claim_call_retry`: the entry that is given away, and what is stored then.  The state is read
at one time, and the claim is judged at another, which a caller may have fixed before. -/
def claimCallRetry (readAt now : Seconds) (owner token retryId : String) (s : CallState) :
    Option CallRetry × CallState :=
  let read := s.prune sha256 readAt
  match read.journal.entries.get? retryId with
  | none => (none, read)
  | some entry =>
      match entry.status with
      | .deadLetter _ => (none, read)
      | .pending lease =>
          if now < entry.nextAttemptAt then (none, read)
          else
            match firstOfLane sha256 read.journal (entry.laneOf sha256) with
            | none => (none, read)
            | some first =>
                if first.retryId ≠ retryId then (none, read)
                else if now < lease.expiresAt then (none, read)
                else
                  let claimed := entry.claimed sha256 now owner token
                  (some claimed, { read with journal := read.journal.put claimed })

/-- The token of the lease of an entry, which is empty when there is none. -/
def CallRetry.leaseToken (entry : CallRetry) : String :=
  match entry.status with
  | .pending lease => lease.token
  | .deadLetter _ => ""

/-- How a delivery failed: the text that is kept, whether it is final, and the random factor of the
delay. -/
structure DeliveryFailure where
  safeError : String
  terminal : Bool
  jitter : ℚ
deriving DecidableEq, Repr

/-- The delay before the next attempt. -/
def callRetryDelay (attempts : ℕ) (jitter : ℚ) : Seconds :=
  let base := min (callRetryBaseDelaySeconds * 2 ^ min (attempts - 1) 12) callRetryMaxDelaySeconds
  min (base * jitter) callRetryMaxDelaySeconds

/-- An entry whose delivery has failed once more. -/
def CallRetry.failed (entry : CallRetry) (now : Seconds) (failure : DeliveryFailure) : CallRetry :=
  let attempts := entry.attempts + 1
  let terminal := failure.terminal || decide (callRetryMaxAttempts ≤ attempts)
  { entry with
    status := if terminal then .deadLetter now else .pending .none
    attempts := attempts
    lastAttemptAt := now
    nextAttemptAt := if terminal then 0 else now + callRetryDelay attempts failure.jitter
    lastError := failure.safeError }

/-- `_record_call_retry_failure`. -/
def recordCallRetryFailure (now readAt : Seconds) (failure : DeliveryFailure)
    (retryId token : String) (s : CallState) : CallState :=
  let read := s.prune sha256 readAt
  match read.journal.entries.get? retryId with
  | none => s
  | some current =>
      if current.leaseToken = token then
        { read with journal := read.journal.put (current.failed now failure) }
      else s

/-- `_complete_call_retry`. -/
def completeCallRetry (readAt : Seconds) (retryId token : String) (s : CallState) : CallState :=
  let read := s.prune sha256 readAt
  match read.journal.entries.get? retryId with
  | none => s
  | some current =>
      if current.leaseToken = token then { read with journal := read.journal.pop retryId } else s

end Lanes

/-! ## Runs -/

/-- How an entry leaves the journal. -/
inductive Departure
  | completed
  | archived
deriving DecidableEq, Repr

/-- The stored state, all entries that were ever inserted, the numbers of those that have left, and
what was handed out with each claim. -/
structure LaneWorld where
  calls : CallState
  log : List CallRetry
  settled : List (ℕ × Departure)
  holders : List (String × String)
deriving DecidableEq, Repr

/-- The default state. -/
def CallState.empty : CallState where
  journal := .empty
  sequence := 0
  deadLetters := []
  overflowCount := 0
  lastOverflowAt := 0
  dedupe := Dict.empty

def LaneWorld.initial : LaneWorld where
  calls := .empty
  log := []
  settled := []
  holders := []

/-- The entries that reading the state archives. -/
def expired (now : Seconds) (s : CallState) : List (ℕ × Departure) :=
  (s.journal.entries.values.filter (CallRetry.isExpired now)).map fun entry =>
    (entry.sequence, .archived)

/-- The entries that a batch adds, in order. -/
def insertedEntries (journal : Journal) (sequence : ℕ) : List NewRetry → List CallRetry
  | [] => []
  | source :: rest =>
      if source.retryId = "" then []
      else if journal.entries.contains source.retryId then insertedEntries journal sequence rest
      else
        source.entry (sequence + 1) ::
          insertedEntries (journal.put (source.entry (sequence + 1))) (sequence + 1) rest

/-- Something happens to the journal. -/
inductive LaneEvent
  | insert (clock : ℕ → Seconds) (readAt stamp : Seconds) (batch : List (CallMutation × Seconds))
      (request : DedupeRequest)
  | claim (readAt now : Seconds) (owner token retryId : String)
  | fail (now readAt : Seconds) (failure : DeliveryFailure) (retryId token : String)
  | complete (readAt : Seconds) (retryId token : String)
  | prune (readAt : Seconds)

section Runs

variable (sha256 : String → List Char)

/-- The entries of a batch. -/
def batchOf (batch : List (CallMutation × Seconds)) : List NewRetry :=
  batch.map fun change => change.1.newEntry sha256 change.2

/-- A batch is inserted, possibly after older entries were evicted for it. -/
def LaneWorld.insert (clock : ℕ → Seconds) (readAt stamp : Seconds) (batch : List NewRetry)
    (request : DedupeRequest) (w : LaneWorld) : LaneWorld :=
  let read := w.calls.prune sha256 readAt
  let calls := (insertCallRetryEntries sha256 clock readAt stamp w.calls batch request).2
  let settled := w.settled ++ expired readAt w.calls
  match if request.key = "" then none else read.dedupe.get? request.key with
  | some _ => { w with calls, settled }
  | none =>
      let fresh := newCount read.journal batch
      let room := makeRoom sha256 clock fresh 0 read
      { w with
        calls := calls
        settled := settled ++ (victims clock fresh 0 read.journal).map fun victim =>
          (victim.sequence, .archived)
        log :=
          if room.1 then w.log ++ insertedEntries room.2.journal room.2.sequence batch
          else w.log }

/-- An entry is claimed, or not. -/
def LaneWorld.claim (readAt now : Seconds) (owner token retryId : String) (w : LaneWorld) :
    LaneWorld :=
  let claim := claimCallRetry sha256 readAt now owner token retryId w.calls
  { w with
    calls := claim.2
    settled := w.settled ++ expired readAt w.calls
    holders := w.holders ++ (claim.1.map fun entry => (entry.retryId, token)).toList }

/-- What a report settles, if its token is the current one. -/
def reported (readAt : Seconds) (retryId token : String) (s : CallState)
    (departures : CallRetry → List (ℕ × Departure)) : List (ℕ × Departure) :=
  match (s.prune sha256 readAt).journal.entries.get? retryId with
  | none => []
  | some current =>
      if current.leaseToken = token then expired readAt s ++ departures current else []

instance (w : LaneWorld) (holder : String × String) : Decidable (holder ∈ w.holders) :=
  decidable_of_iff (w.holders.any (· = holder)) (by simp)

/-- A step.  Tokens are never empty, and a report is made by a holder of a claim. -/
def LaneWorld.next (w : LaneWorld) : LaneEvent → Option LaneWorld
  | .insert clock readAt stamp batch request =>
      some (w.insert sha256 clock readAt stamp (batchOf sha256 batch) request)
  | .claim readAt now owner token retryId =>
      if token = "" then none else some (w.claim sha256 readAt now owner token retryId)
  | .fail now readAt failure retryId token =>
      if (retryId, token) ∈ w.holders then
        some { w with
          calls := recordCallRetryFailure sha256 now readAt failure retryId token w.calls
          settled := w.settled ++ reported sha256 readAt retryId token w.calls fun _ => [] }
      else none
  | .complete readAt retryId token =>
      if (retryId, token) ∈ w.holders then
        some { w with
          calls := completeCallRetry sha256 readAt retryId token w.calls
          settled := w.settled ++ reported sha256 readAt retryId token w.calls fun current =>
            [(current.sequence, .completed)] }
      else none
  | .prune readAt =>
      some { w with
        calls := w.calls.prune sha256 readAt
        settled := w.settled ++ expired readAt w.calls }

/-- The journal under all its writers. -/
def laneSystem : TransitionSystem LaneWorld LaneEvent where
  init w := w = .initial
  step w event w' := w.next sha256 event = some w'

end Runs
/-! ## The invariant -/

/-- Somebody delivers it. -/
def CallRetry.isLeased (entry : CallRetry) : Bool :=
  match entry.status with
  | .pending lease => lease ≠ .none
  | .deadLetter _ => false

section Invariant

variable (sha256 : String → List Char)

/-- Another state of one entry. -/
structure CallRetry.Renews (after before : CallRetry) : Prop where
  retryId : after.retryId = before.retryId
  sequence : after.sequence = before.sequence
  operation : after.operation = before.operation
  laneOf : after.laneOf sha256 = before.laneOf sha256

/-- No entry that holds up this lane comes before this number. -/
def FirstIn (journal : Journal) (lane : String) (sequence : ℕ) : Prop :=
  ∀ id other, journal.entries.get? id = some other → other.laneOf sha256 = lane →
    other.blocks = true → sequence ≤ other.sequence

/-- The numbers go up, a lease is held by the first entry of a lane, and what was inserted is in the
journal or has left it. -/
structure LaneInv (journal : Journal) (sequence : ℕ) (log : List CallRetry)
    (settled : List (ℕ × Departure)) : Prop where
  bounded : ∀ id entry, journal.entries.get? id = some entry → entry.sequence ≤ sequence
  distinct : ∀ id id' entry entry', journal.entries.get? id = some entry →
    journal.entries.get? id' = some entry' → entry.sequence = entry'.sequence → id = id'
  first : ∀ id entry, journal.entries.get? id = some entry → entry.isLeased = true →
    FirstIn sha256 journal (entry.laneOf sha256) entry.sequence
  increasing : log.Pairwise fun a b => a.sequence < b.sequence
  logged : ∀ entry ∈ log, entry.sequence ≤ sequence
  accounted : ∀ entry ∈ log,
    (∃ current, journal.entries.get? entry.retryId = some current ∧
      current.Renews sha256 entry) ∨
    ∃ departure, (entry.sequence, departure) ∈ settled

variable {sha256} {journal journal' : Journal} {sequence : ℕ} {log : List CallRetry}
  {settled more : List (ℕ × Departure)} {entry before after : CallRetry} {id : String}

theorem CallRetry.Renews.refl : entry.Renews sha256 entry where
  retryId := rfl
  sequence := rfl
  operation := rfl
  laneOf := rfl

theorem CallRetry.Renews.trans (h : after.Renews sha256 before)
    (h' : before.Renews sha256 entry) : after.Renews sha256 entry where
  retryId := h.retryId.trans h'.retryId
  sequence := h.sequence.trans h'.sequence
  operation := h.operation.trans h'.operation
  laneOf := h.laneOf.trans h'.laneOf

theorem laneInv_empty : LaneInv sha256 CallState.empty.journal 0 [] [] := by
  have hnone : ∀ id entry, CallState.empty.journal.entries.get? id ≠ some entry := by
    intro id entry
    change (Dict.empty : Dict String CallRetry).get? id ≠ some entry
    simp
  constructor
  · intro id entry hget
    exact absurd hget (hnone id entry)
  · intro id id' entry entry' hget
    exact absurd hget (hnone id entry)
  · intro id entry hget
    exact absurd hget (hnone id entry)
  · exact .nil
  · exact List.forall_mem_nil _
  · exact List.forall_mem_nil _

/-- Entries leave the journal, and it is written down. -/
theorem LaneInv.settles (h : LaneInv sha256 journal sequence log settled)
    (hold : ∀ id entry, journal'.entries.get? id = some entry →
      journal.entries.get? id = some entry)
    (hleft : ∀ id entry, journal.entries.get? id = some entry →
      journal'.entries.get? id = some entry ∨
        ∃ departure, (entry.sequence, departure) ∈ more) :
    LaneInv sha256 journal' sequence log (settled ++ more) := by
  constructor
  · intro id entry hget
    exact h.bounded id entry (hold id entry hget)
  · intro id id' entry entry' hget hget' hsame
    exact h.distinct id id' entry entry' (hold id entry hget) (hold id' entry' hget') hsame
  · intro id entry hget hleased id' other hother hlane hblocks
    exact h.first id entry (hold id entry hget) hleased id' other (hold id' other hother) hlane
      hblocks
  · exact h.increasing
  · exact h.logged
  · intro entry hentry
    rcases h.accounted entry hentry with ⟨current, hget, hrenews⟩ | ⟨departure, hmem⟩
    · rcases hleft entry.retryId current hget with hstill | ⟨departure, hmem⟩
      · exact .inl ⟨current, hstill, hrenews⟩
      · rw [hrenews.sequence] at hmem
        exact .inr ⟨departure, List.mem_append_right _ hmem⟩
    · exact .inr ⟨departure, List.mem_append_left _ hmem⟩

/-- An entry gets another state, in which it holds up no more than before. -/
theorem LaneInv.renews (h : LaneInv sha256 journal sequence log settled)
    (hget : journal.entries.get? id = some before) (hrenews : after.Renews sha256 before)
    (hblocks : after.blocks = true → before.blocks = true)
    (hfirst : after.isLeased = true →
      FirstIn sha256 journal (before.laneOf sha256) before.sequence) :
    LaneInv sha256 (journal.put after) sequence log settled := by
  have hid : after.retryId = id := hrenews.retryId.trans (journal.keyed id before hget)
  -- Every entry of the new journal stands for one of the old journal.
  have hold : ∀ id' entry, (journal.put after).entries.get? id' = some entry →
      ∃ old, journal.entries.get? id' = some old ∧ entry.Renews sha256 old ∧
        (entry.blocks = true → old.blocks = true) ∧
        (entry.isLeased = true → FirstIn sha256 journal (old.laneOf sha256) old.sequence) := by
    intro id' entry hentry
    rw [get?_put, hid] at hentry
    split at hentry
    · rename_i hsame
      subst hsame
      rw [← Option.some.inj hentry]
      exact ⟨before, hget, hrenews, hblocks, hfirst⟩
    · exact ⟨entry, hentry, .refl, fun hb => hb, h.first id' entry hentry⟩
  constructor
  · intro id' entry hentry
    rcases hold id' entry hentry with ⟨old, hgetOld, hold, -, -⟩
    rw [hold.sequence]
    exact h.bounded id' old hgetOld
  · intro id₁ id₂ entry₁ entry₂ hget₁ hget₂ hsame
    rcases hold id₁ entry₁ hget₁ with ⟨old₁, hold₁, hrenews₁, -, -⟩
    rcases hold id₂ entry₂ hget₂ with ⟨old₂, hold₂, hrenews₂, -, -⟩
    rw [hrenews₁.sequence, hrenews₂.sequence] at hsame
    exact h.distinct id₁ id₂ old₁ old₂ hold₁ hold₂ hsame
  · intro id₁ entry hentry hleased id₂ other hother hlane hblocked
    rcases hold id₁ entry hentry with ⟨old, -, hrenews₁, -, hfirstOld⟩
    rcases hold id₂ other hother with ⟨old₂, hold₂, hrenews₂, hblocks₂, -⟩
    rw [hrenews₁.sequence, hrenews₂.sequence]
    apply hfirstOld hleased id₂ old₂ hold₂ _ (hblocks₂ hblocked)
    rw [← hrenews₂.laneOf, hlane, hrenews₁.laneOf]
  · exact h.increasing
  · exact h.logged
  · intro entry hentry
    rcases h.accounted entry hentry with ⟨current, hcurrent, hrenewsLog⟩ | hgone
    · left
      rw [get?_put, hid]
      by_cases hsame : entry.retryId = id
      · rw [if_pos hsame]
        rw [hsame, hget] at hcurrent
        rw [← Option.some.inj hcurrent] at hrenewsLog
        exact ⟨after, rfl, hrenews.trans hrenewsLog⟩
      · rw [if_neg hsame]
        exact ⟨current, hcurrent, hrenewsLog⟩
    · exact .inr hgone

/-- A new entry goes to the end of its lane. -/
theorem LaneInv.inserts (h : LaneInv sha256 journal sequence log settled) {source : NewRetry}
    (hnew : journal.entries.get? source.retryId = none) :
    LaneInv sha256 (journal.put (source.entry (sequence + 1))) (sequence + 1)
      (log ++ [source.entry (sequence + 1)]) settled := by
  -- The entry is under its own id, and the others are as they were.
  have hget : ∀ id entry, (journal.put (source.entry (sequence + 1))).entries.get? id =
      some entry → (id = source.retryId ∧ entry = source.entry (sequence + 1)) ∨
        journal.entries.get? id = some entry := by
    intro id entry hentry
    rw [get?_put] at hentry
    split at hentry
    · rename_i hsame
      exact .inl ⟨hsame, (Option.some.inj hentry).symm⟩
    · exact .inr hentry
  constructor
  · intro id entry hentry
    rcases hget id entry hentry with ⟨-, rfl⟩ | hold
    · exact le_rfl
    · exact (h.bounded id entry hold).trans (Nat.le_succ _)
  · intro id₁ id₂ entry₁ entry₂ hget₁ hget₂ hsame
    rcases hget id₁ entry₁ hget₁ with ⟨rfl, rfl⟩ | hold₁
    · rcases hget id₂ entry₂ hget₂ with ⟨rfl, rfl⟩ | hold₂
      · rfl
      · have hbound := h.bounded id₂ entry₂ hold₂
        rw [← hsame] at hbound
        exact absurd hbound (Nat.not_succ_le_self _)
    · have hbound := h.bounded id₁ entry₁ hold₁
      rcases hget id₂ entry₂ hget₂ with ⟨rfl, rfl⟩ | hold₂
      · rw [hsame] at hbound
        exact absurd hbound (Nat.not_succ_le_self _)
      · exact h.distinct id₁ id₂ entry₁ entry₂ hold₁ hold₂ hsame
  · intro id₁ entry hentry hleased id₂ other hother hlane hblocked
    rcases hget id₁ entry hentry with ⟨-, rfl⟩ | hold
    · exact absurd hleased (by simp [CallRetry.isLeased, NewRetry.entry])
    · rcases hget id₂ other hother with ⟨-, rfl⟩ | holdOther
      · exact (h.bounded id₁ entry hold).trans (Nat.le_succ _)
      · exact h.first id₁ entry hold hleased id₂ other holdOther hlane hblocked
  · rw [List.pairwise_append]
    refine ⟨h.increasing, List.pairwise_singleton _ _, ?_⟩
    intro older holder newer hnewer
    rw [List.mem_singleton.mp hnewer]
    exact Nat.lt_succ_of_le (h.logged older holder)
  · intro entry hentry
    rcases List.mem_append.mp hentry with hold | hlast
    · exact (h.logged entry hold).trans (Nat.le_succ _)
    · rw [List.mem_singleton.mp hlast]
      exact le_rfl
  · intro entry hentry
    rcases List.mem_append.mp hentry with hold | hlast
    · rcases h.accounted entry hold with ⟨current, hcurrent, hrenews⟩ | hgone
      · left
        refine ⟨current, ?_, hrenews⟩
        rw [get?_put, if_neg]
        · exact hcurrent
        · intro hsame
          change entry.retryId = source.retryId at hsame
          rw [hsame, hnew] at hcurrent
          cases hcurrent
      · exact .inr hgone
    · rw [List.mem_singleton.mp hlast]
      refine .inl ⟨source.entry (sequence + 1), ?_, .refl⟩
      rw [get?_put]
      exact if_pos rfl

/-- A batch goes to the ends of its lanes, in order. -/
theorem LaneInv.insertsEach {batch : List NewRetry} {inserted : List String}
    (h : LaneInv sha256 journal sequence log settled) :
    LaneInv sha256 (insertEach journal sequence inserted batch).journal
      (insertEach journal sequence inserted batch).sequence
      (log ++ insertedEntries journal sequence batch) settled := by
  induction batch generalizing journal sequence log inserted with
  | nil =>
      rw [insertedEntries, List.append_nil]
      exact h
  | cons source rest ih =>
      unfold insertEach insertedEntries
      by_cases hempty : source.retryId = ""
      · rw [if_pos hempty, if_pos hempty, List.append_nil]
        exact h
      rw [if_neg hempty, if_neg hempty]
      by_cases hknown : journal.entries.contains source.retryId = true
      · rw [if_pos hknown, if_pos hknown]
        exact ih h
      · rw [if_neg hknown, if_neg hknown, List.append_cons log]
        apply ih
        apply h.inserts
        rw [Option.eq_none_iff_forall_ne_some]
        intro entry hget
        exact hknown ((Dict.contains_iff _ _).mpr ⟨entry, hget⟩)

end Invariant
/-! ## What the operations do -/

section Operations

variable {sha256 : String → List Char} {s : CallState} {log : List CallRetry}
  {settled : List (ℕ × Departure)} {entry : CallRetry} {journal : Journal} {lane id : String}
  {now readAt : Seconds} {owner token : String}

theorem stableId_ne_empty (env : FrameEnv) (kind : String) (parts : List String) :
    stableId env kind parts ≠ "" := by
  intro h
  have hlist := congrArg String.toList h
  simp [stableId] at hlist

theorem CallMutation.retryId_ne_empty (change : CallMutation) (now : Seconds) :
    (change.newEntry sha256 now).retryId ≠ "" := by
  cases change with
  | create => exact stableId_ne_empty _ _ _
  | patch => exact stableId_ne_empty _ _ _

theorem CallRetry.laneOf_ne_empty (entry : CallRetry) : entry.laneOf sha256 ≠ "" := by
  unfold CallRetry.laneOf
  split
  · assumption
  · exact stableId_ne_empty _ _ _

theorem CallRetry.claimed_renews (entry : CallRetry) (now : Seconds) (owner token : String) :
    (entry.claimed sha256 now owner token).Renews sha256 entry where
  retryId := rfl
  sequence := rfl
  operation := rfl
  laneOf := if_pos (CallRetry.laneOf_ne_empty entry)

theorem CallRetry.failed_renews (entry : CallRetry) (now : Seconds) (failure : DeliveryFailure) :
    (entry.failed now failure).Renews sha256 entry where
  retryId := rfl
  sequence := rfl
  operation := rfl
  laneOf := rfl

theorem CallRetry.failed_not_leased (entry : CallRetry) (now : Seconds)
    (failure : DeliveryFailure) : (entry.failed now failure).isLeased = false := by
  unfold CallRetry.isLeased CallRetry.failed
  by_cases hterminal :
      (failure.terminal || decide (callRetryMaxAttempts ≤ entry.attempts + 1)) = true
  · simp [hterminal]
  · simp [hterminal]

theorem CallRetry.leased_of_token (htoken : entry.leaseToken = token) (hne : token ≠ "") :
    entry.isLeased = true ∧ entry.status.isPending = true := by
  unfold CallRetry.leaseToken at htoken
  unfold CallRetry.isLeased RetryStatus.isPending
  cases hstatus : entry.status with
  | deadLetter deadLetteredAt =>
      rw [hstatus] at htoken
      exact absurd htoken.symm hne
  | pending lease =>
      rw [hstatus] at htoken
      refine ⟨?_, rfl⟩
      rw [decide_eq_true_eq]
      rintro rfl
      exact hne htoken.symm

/-- The first entry of a lane is in the journal, and nothing comes before it. -/
theorem firstOfLane_spec {first : CallRetry} (h : firstOfLane sha256 journal lane = some first) :
    journal.entries.get? first.retryId = some first ∧ first.laneOf sha256 = lane ∧
      FirstIn sha256 journal lane first.sequence := by
  have hmem := List.argmin_mem h
  rw [List.mem_filter, Bool.and_eq_true, decide_eq_true_eq] at hmem
  rcases Dict.mem_values.mp hmem.1 with ⟨id, hget⟩
  refine ⟨?_, hmem.2.1, ?_⟩
  · rw [journal.keyed id first hget]
    exact hget
  · intro id other hother hlane hblocks
    have hcandidate : other ∈ journal.entries.values.filter fun candidate =>
        candidate.laneOf sha256 = lane && candidate.blocks := by
      rw [List.mem_filter, Bool.and_eq_true, decide_eq_true_eq]
      exact ⟨Dict.mem_values.mpr ⟨id, hother⟩, hlane, hblocks⟩
    exact Prod.Lex.monotone_fst _ _ (List.le_of_mem_argmin hcandidate h)

/-- A claim gives away the first entry of its lane, or nothing. -/
theorem claim_cases (sha256 : String → List Char) (readAt now : Seconds)
    (owner token id : String) (s : CallState) :
    claimCallRetry sha256 readAt now owner token id s = (none, s.prune sha256 readAt) ∨
      ∃ entry, (s.prune sha256 readAt).journal.entries.get? id = some entry ∧
        entry.status.isPending = true ∧
        FirstIn sha256 (s.prune sha256 readAt).journal (entry.laneOf sha256) entry.sequence ∧
        claimCallRetry sha256 readAt now owner token id s =
          (some (entry.claimed sha256 now owner token),
            { s.prune sha256 readAt with
              journal := (s.prune sha256 readAt).journal.put
                (entry.claimed sha256 now owner token) }) := by
  unfold claimCallRetry
  dsimp only
  cases hget : (s.prune sha256 readAt).journal.entries.get? id with
  | none => exact .inl rfl
  | some entry =>
      dsimp only
      cases hstatus : entry.status with
      | deadLetter deadLetteredAt => exact .inl rfl
      | pending lease =>
          dsimp only
          by_cases hdue : now < entry.nextAttemptAt
          · rw [if_pos hdue]
            exact .inl rfl
          rw [if_neg hdue]
          cases hfirst : firstOfLane sha256 (s.prune sha256 readAt).journal
              (entry.laneOf sha256) with
          | none => exact .inl rfl
          | some first =>
              dsimp only
              by_cases hsame : first.retryId = id
              · rcases firstOfLane_spec hfirst with ⟨hmem, -, hbefore⟩
                rw [hsame, hget, Option.some.injEq] at hmem
                subst hmem
                rw [if_neg (not_not_intro hsame)]
                by_cases hheld : now < lease.expiresAt
                · rw [if_pos hheld]
                  exact .inl rfl
                · rw [if_neg hheld]
                  refine .inr ⟨entry, rfl, ?_, hbefore, rfl⟩
                  rw [hstatus]
                  rfl
              · rw [if_pos hsame]
                exact .inl rfl

/-- Reading the state archives what has expired. -/
theorem LaneInv.prunes (h : LaneInv sha256 s.journal s.sequence log settled) (now : Seconds) :
    LaneInv sha256 (s.prune sha256 now).journal (s.prune sha256 now).sequence log
      (settled ++ expired now s) := by
  apply h.settles
  · intro id entry hget
    exact ((Dict.get?_filter_eq_some_iff _ _ _ _).mp hget).1
  · intro id entry hget
    by_cases hexpired : entry.isExpired now = true
    · right
      refine ⟨.archived, List.mem_map.mpr ⟨entry, ?_, rfl⟩⟩
      exact List.mem_filter.mpr ⟨Dict.mem_values.mpr ⟨id, hget⟩, hexpired⟩
    · left
      apply (Dict.get?_filter_eq_some_iff _ _ _ _).mpr
      simp [hget, hexpired]

theorem makeRoom_sequence (clock : ℕ → Seconds) (fresh round : ℕ) (s : CallState) :
    (makeRoom sha256 clock fresh round s).2.sequence = s.sequence := by
  induction hsize : s.journal.size using Nat.strongRecOn generalizing s round with
  | ind size ih =>
      by_cases hroom : s.journal.size + fresh ≤ callRetryMaxEntries
      · rw [makeRoom_of_room hroom]
      cases hvictim : callRetryCapacityVictim s.journal (clock round) with
      | none => rw [makeRoom_of_none hroom hvictim]
      | some victim =>
          rw [makeRoom_of_victim hroom hvictim]
          have hless : (s.journal.pop victim.retryId).size < size := by
            rw [← hsize, ← size_pop_of_victim hvictim]
            exact Nat.lt_succ_self _
          exact ih _ hless (round + 1) (s.evict sha256 (clock round) victim) rfl

/-- Making room archives the victims. -/
theorem LaneInv.makesRoom (h : LaneInv sha256 s.journal s.sequence log settled)
    (clock : ℕ → Seconds) (fresh : ℕ) :
    LaneInv sha256 (makeRoom sha256 clock fresh 0 s).2.journal
      (makeRoom sha256 clock fresh 0 s).2.sequence log
      (settled ++ (victims clock fresh 0 s.journal).map fun victim =>
        (victim.sequence, Departure.archived)) := by
  have hmade := (makeRoom_spec sha256 clock fresh 0 s).1
  rw [makeRoom_sequence]
  apply h.settles
  · intro id entry hget
    rw [hmade.left] at hget
    split at hget
    · cases hget
    · exact hget
  · intro id entry hget
    rw [hmade.left]
    split
    · rename_i hgone
      rcases List.mem_map.mp hgone with ⟨victim, hvictim, rfl⟩
      rw [hmade.known victim hvictim, Option.some.injEq] at hget
      subst hget
      exact .inr ⟨.archived, List.mem_map_of_mem hvictim⟩
    · exact .inl hget

end Operations
/-! ## The law -/

section Law

variable {sha256 : String → List Char} {w w' : LaneWorld} {event : LaneEvent}
  {batch : List NewRetry} {readAt now : Seconds}

theorem complete_of_nonempty {journal : Journal} {sequence : ℕ} {inserted : List String}
    (h : ∀ source ∈ batch, source.retryId ≠ "") :
    (insertEach journal sequence inserted batch).complete = true := by
  induction batch generalizing journal sequence inserted with
  | nil => rfl
  | cons source rest ih =>
      rw [List.forall_mem_cons] at h
      unfold insertEach
      rw [if_neg h.1]
      split <;> exact ih h.2

/-- The invariant of the stored journal, with what the run has written down. -/
structure WorldInv (sha256 : String → List Char) (w : LaneWorld) : Prop where
  lanes : LaneInv sha256 w.calls.journal w.calls.sequence w.log w.settled
  tokens : ∀ holder ∈ w.holders, holder.2 ≠ ""

theorem LaneInv.insertion (h : LaneInv sha256 w.calls.journal w.calls.sequence w.log w.settled)
    (hids : ∀ source ∈ batch, source.retryId ≠ "") (clock : ℕ → Seconds)
    (readAt stamp : Seconds) (request : DedupeRequest) :
    LaneInv sha256 (w.insert sha256 clock readAt stamp batch request).calls.journal
      (w.insert sha256 clock readAt stamp batch request).calls.sequence
      (w.insert sha256 clock readAt stamp batch request).log
      (w.insert sha256 clock readAt stamp batch request).settled := by
  have hread := h.prunes readAt
  unfold LaneWorld.insert insertCallRetryEntries insertCallRetryEntriesInState
  dsimp only
  cases if request.key = "" then none
    else (w.calls.prune sha256 readAt).dedupe.get? request.key with
  | some receipt => exact hread
  | none =>
      have hroom := hread.makesRoom clock (newCount (w.calls.prune sha256 readAt).journal batch)
      generalize makeRoom sha256 clock (newCount (w.calls.prune sha256 readAt).journal batch) 0
        (w.calls.prune sha256 readAt) = room at hroom ⊢
      by_cases hfits : room.1 = true
      · have hcomplete : (insertEach room.2.journal room.2.sequence [] batch).complete = true :=
          complete_of_nonempty hids
        rw [hfits, hcomplete]
        exact hroom.insertsEach
      · rw [Bool.not_eq_true] at hfits
        rw [hfits]
        exact hroom

theorem WorldInv.claims (h : WorldInv sha256 w) (readAt now : Seconds) (owner token id : String)
    (htoken : token ≠ "") : WorldInv sha256 (w.claim sha256 readAt now owner token id) := by
  have hread := h.lanes.prunes readAt
  unfold LaneWorld.claim
  rcases claim_cases sha256 readAt now owner token id w.calls with
    hnone | ⟨entry, hget, hpending, hfirst, hclaim⟩
  · rw [hnone]
    refine ⟨hread, ?_⟩
    simpa using h.tokens
  · rw [hclaim]
    constructor
    · apply hread.renews hget (entry.claimed_renews now owner token)
      · intro _
        rw [CallRetry.blocks, hpending, Bool.true_or]
      · intro _
        exact hfirst
    · intro holder hholder
      rcases List.mem_append.mp hholder with hold | hnew
      · exact h.tokens holder hold
      · rw [List.mem_singleton.mp hnew]
        exact htoken

theorem WorldInv.fails (h : WorldInv sha256 w) {id token : String} (htoken : token ≠ "")
    (now readAt : Seconds) (failure : DeliveryFailure) :
    LaneInv sha256 (recordCallRetryFailure sha256 now readAt failure id token w.calls).journal
      (recordCallRetryFailure sha256 now readAt failure id token w.calls).sequence w.log
      (w.settled ++ reported sha256 readAt id token w.calls fun _ => []) := by
  have hread := h.lanes.prunes readAt
  unfold recordCallRetryFailure reported
  dsimp only
  cases hget : (w.calls.prune sha256 readAt).journal.entries.get? id with
  | none => exact (List.append_nil w.settled).symm ▸ h.lanes
  | some current =>
      dsimp only
      by_cases hcurrent : current.leaseToken = token
      · rw [if_pos hcurrent, if_pos hcurrent, List.append_nil]
        apply hread.renews hget (current.failed_renews now failure)
        · intro _
          rw [CallRetry.blocks, (CallRetry.leased_of_token hcurrent htoken).2, Bool.true_or]
        · intro hleased
          rw [CallRetry.failed_not_leased] at hleased
          cases hleased
      · rw [if_neg hcurrent, if_neg hcurrent, List.append_nil]
        exact h.lanes

theorem WorldInv.completes (h : WorldInv sha256 w) (id token : String) (readAt : Seconds) :
    LaneInv sha256 (completeCallRetry sha256 readAt id token w.calls).journal
      (completeCallRetry sha256 readAt id token w.calls).sequence w.log
      (w.settled ++ reported sha256 readAt id token w.calls fun current =>
        [(current.sequence, .completed)]) := by
  have hread := h.lanes.prunes readAt
  unfold completeCallRetry reported
  dsimp only
  cases hget : (w.calls.prune sha256 readAt).journal.entries.get? id with
  | none => exact (List.append_nil w.settled).symm ▸ h.lanes
  | some current =>
      dsimp only
      by_cases hcurrent : current.leaseToken = token
      · rw [if_pos hcurrent, if_pos hcurrent, ← List.append_assoc]
        apply hread.settles
        · intro other entry hother
          exact ((Dict.get?_pop_eq_some_iff _ _ _ _).mp hother).2
        · intro other entry hother
          by_cases hsame : id = other
          · subst hsame
            rw [hget, Option.some.injEq] at hother
            subst hother
            exact .inr ⟨.completed, List.mem_singleton.mpr rfl⟩
          · left
            exact (Dict.get?_pop_of_ne _ hsame).trans hother
      · rw [if_neg hcurrent, if_neg hcurrent, List.append_nil]
        exact h.lanes

/-- What one step preserves. -/
theorem WorldInv.next (h : WorldInv sha256 w) (hnext : w.next sha256 event = some w') :
    WorldInv sha256 w' := by
  cases event with
  | insert clock readAt stamp batch request =>
      cases hnext
      have hids : ∀ source ∈ batchOf sha256 batch, source.retryId ≠ "" := by
        intro source hsource
        rcases List.mem_map.mp hsource with ⟨change, -, rfl⟩
        exact change.1.retryId_ne_empty change.2
      refine ⟨h.lanes.insertion hids clock readAt stamp request, ?_⟩
      have hholders : (w.insert sha256 clock readAt stamp (batchOf sha256 batch) request).holders =
          w.holders := by
        unfold LaneWorld.insert
        dsimp only
        split <;> rfl
      rw [hholders]
      exact h.tokens
  | claim readAt now owner token id =>
      by_cases htoken : token = ""
      · rw [LaneWorld.next, if_pos htoken] at hnext
        cases hnext
      · rw [LaneWorld.next, if_neg htoken] at hnext
        cases hnext
        exact h.claims readAt now owner token id htoken
  | fail now readAt failure id token =>
      by_cases hheld : (id, token) ∈ w.holders
      · rw [LaneWorld.next, if_pos hheld] at hnext
        cases hnext
        exact ⟨h.fails (h.tokens _ hheld) now readAt failure, h.tokens⟩
      · rw [LaneWorld.next, if_neg hheld] at hnext
        cases hnext
  | complete readAt id token =>
      by_cases hheld : (id, token) ∈ w.holders
      · rw [LaneWorld.next, if_pos hheld] at hnext
        cases hnext
        exact ⟨h.completes id token readAt, h.tokens⟩
      · rw [LaneWorld.next, if_neg hheld] at hnext
        cases hnext
  | prune readAt =>
      cases hnext
      exact ⟨h.lanes.prunes readAt, h.tokens⟩

theorem worldInv_of_reachable (h : (laneSystem sha256).Reachable w) : WorldInv sha256 w := by
  apply h.invariant
  · rintro _ rfl
    exact ⟨laneInv_empty, List.forall_mem_nil _⟩
  · intro w event w' _ hinv hstep
    exact hinv.next hstep

/-- The entry has a lease that has not expired. -/
def CallRetry.Leased (time : Seconds) (entry : CallRetry) : Prop :=
  match entry.status with
  | .pending lease => time < lease.expiresAt
  | .deadLetter _ => False

/-- What the lanes owe in a state: one unexpired lease each, numbers that go up, claims only of what
nothing holds up, and reports of earlier claims that change nothing. -/
structure LanesKept (sha256 : String → List Char) (w : LaneWorld) : Prop where
  oneLease : ∀ time, 0 ≤ time → ∀ id id' entry entry',
    w.calls.journal.entries.get? id = some entry →
    w.calls.journal.entries.get? id' = some entry' → entry.laneOf sha256 = entry'.laneOf sha256 →
    entry.Leased time → entry'.Leased time → id = id'
  increasing : w.log.Pairwise fun a b => a.sequence < b.sequence
  inTurn : ∀ readAt now owner token id entry,
    (claimCallRetry sha256 readAt now owner token id w.calls).1 = some entry →
    ∀ older ∈ w.log, older.laneOf sha256 = entry.laneOf sha256 →
      older.sequence < entry.sequence →
      (∃ departure,
        (older.sequence, departure) ∈ (w.claim sha256 readAt now owner token id).settled) ∨
      ∃ current,
        (w.claim sha256 readAt now owner token id).calls.journal.entries.get? older.retryId =
          some current ∧
        current.sequence = older.sequence ∧ current.operation = .patch ∧
        ∃ since, current.status = .deadLetter since
  stale : ∀ id token,
    (∀ current, w.calls.journal.entries.get? id = some current → current.leaseToken ≠ token) →
    (∀ readAt, completeCallRetry sha256 readAt id token w.calls = w.calls) ∧
    ∀ now readAt failure,
      recordCallRetryFailure sha256 now readAt failure id token w.calls = w.calls

theorem CallRetry.Leased.isLeased {time : Seconds} {entry : CallRetry} (htime : 0 ≤ time)
    (h : entry.Leased time) : entry.isLeased = true ∧ entry.blocks = true := by
  unfold CallRetry.Leased at h
  unfold CallRetry.isLeased CallRetry.blocks RetryStatus.isPending
  cases hstatus : entry.status with
  | deadLetter deadLetteredAt =>
      rw [hstatus] at h
      exact h.elim
  | pending lease =>
      rw [hstatus] at h
      refine ⟨?_, Bool.true_or _⟩
      rw [decide_eq_true_eq]
      rintro rfl
      exact absurd htime (not_le.mpr h)

theorem WorldInv.inTurn (h : WorldInv sha256 w) {owner token id : String} {entry older : CallRetry}
    (hclaim : (claimCallRetry sha256 readAt now owner token id w.calls).1 = some entry)
    (holder : older ∈ w.log) (hlane : older.laneOf sha256 = entry.laneOf sha256)
    (hless : older.sequence < entry.sequence) :
    (∃ departure,
      (older.sequence, departure) ∈ (w.claim sha256 readAt now owner token id).settled) ∨
    ∃ current,
      (w.claim sha256 readAt now owner token id).calls.journal.entries.get? older.retryId =
        some current ∧
      current.sequence = older.sequence ∧ current.operation = .patch ∧
      ∃ since, current.status = .deadLetter since := by
  have hread := h.lanes.prunes readAt
  rcases claim_cases sha256 readAt now owner token id w.calls with
    hnone | ⟨found, hget, -, hfirst, hclaimed⟩
  · rw [hnone] at hclaim
    cases hclaim
  rw [hclaimed] at hclaim
  have hrenews : (found.claimed sha256 now owner token).Renews sha256 found :=
    found.claimed_renews now owner token
  rw [Option.some.inj hclaim] at hrenews
  rw [hrenews.sequence] at hless
  rw [hrenews.laneOf] at hlane
  unfold LaneWorld.claim
  rw [hclaimed]
  rcases hread.accounted older holder with ⟨current, hcurrent, hsame⟩ | hgone
  · right
    have hfree : current.blocks = false := by
      by_contra hblocks
      rw [Bool.not_eq_false] at hblocks
      have hbefore := hfirst older.retryId current hcurrent (hsame.laneOf.trans hlane) hblocks
      rw [hsame.sequence] at hbefore
      exact absurd hless (not_lt.mpr hbefore)
    rw [CallRetry.blocks, Bool.or_eq_false_iff] at hfree
    refine ⟨current, ?_, hsame.sequence, ?_, ?_⟩
    · dsimp only
      rw [get?_put, if_neg]
      · exact hcurrent
      · intro hid
        have hkeyed : found.retryId = id :=
          (w.calls.prune sha256 readAt).journal.keyed id found hget
        change older.retryId = found.retryId at hid
        rw [hid, hkeyed, hget, Option.some.injEq] at hcurrent
        subst hcurrent
        rw [hsame.sequence] at hless
        exact absurd hless (lt_irrefl _)
    · cases hoperation : current.operation with
      | create =>
          rw [hoperation] at hfree
          exact absurd hfree.2 (by simp)
      | patch => rfl
    · cases hstatus : current.status with
      | pending lease =>
          rw [hstatus] at hfree
          exact absurd hfree.1 (by simp [RetryStatus.isPending])
      | deadLetter since => exact ⟨since, rfl⟩
  · exact .inl hgone

/-- A report with another token than the current one. -/
theorem report_stale {s : CallState} {id token : String}
    (h : ∀ current, s.journal.entries.get? id = some current → current.leaseToken ≠ token)
    (readAt : Seconds) (now : Seconds) (failure : DeliveryFailure) :
    completeCallRetry sha256 readAt id token s = s ∧
      recordCallRetryFailure sha256 now readAt failure id token s = s := by
  unfold completeCallRetry recordCallRetryFailure
  dsimp only
  cases hget : (s.prune sha256 readAt).journal.entries.get? id with
  | none => exact ⟨rfl, rfl⟩
  | some current =>
      have hstored := h current ((Dict.get?_filter_eq_some_iff _ _ _ _).mp hget).1
      exact ⟨if_neg hstored, if_neg hstored⟩

/-- In every run, each lane is delivered in order, by one holder at a time. -/
theorem lanes_law {sha256 : String → List Char} {w : LaneWorld}
    (h : (laneSystem sha256).Reachable w) : LanesKept sha256 w := by
  have hinv := worldInv_of_reachable h
  constructor
  · intro time htime id id' entry entry' hget hget' hlane hleased hleased'
    rcases hleased.isLeased htime with ⟨hheld, hblocks⟩
    rcases hleased'.isLeased htime with ⟨hheld', hblocks'⟩
    apply hinv.lanes.distinct id id' entry entry' hget hget'
    apply le_antisymm
    · exact hinv.lanes.first id entry hget hheld id' entry' hget' hlane.symm hblocks'
    · exact hinv.lanes.first id' entry' hget' hheld' id entry hget hlane hblocks
  · exact hinv.lanes.increasing
  · intro readAt now owner token id entry hclaim older holder hlane hless
    exact hinv.inTurn hclaim holder hlane hless
  · intro id token hstale
    constructor
    · intro readAt
      exact (report_stale hstale readAt 0 ⟨"", false, 0⟩).1
    · intro now readAt failure
      exact (report_stale hstale readAt now failure).2

end Law
/-! ## A claim -/

section Samples

/-- A call that is shown for the first time. -/
def firstCard : CallMutation :=
  .create .outbound sampleReference "card"

/-- Its card waits in the journal. -/
def oneCard : LaneWorld :=
  LaneWorld.initial.insert String.toList (fun _ => 1) 1 1 (batchOf String.toList [(firstCard, 1)])
    noRequest

/-- A process delivers it. -/
def oneClaim : LaneWorld :=
  oneCard.claim String.toList 2 2 "process" "token"
    (callRetryId String.toList .outbound sampleReference)

theorem oneCard_calls : oneCard.calls =
    { CallState.empty with
      journal := Journal.empty.put ((firstCard.newEntry String.toList 1).entry 1)
      sequence := 1 } := by
  have hroom : makeRoom String.toList (fun _ => 1)
      (newCount (CallState.empty.prune String.toList 1).journal
        (batchOf String.toList [(firstCard, 1)])) 0 (CallState.empty.prune String.toList 1) =
      (true, CallState.empty.prune String.toList 1) := makeRoom_of_room (by decide)
  change (insertCallRetryEntriesInState String.toList (fun _ => 1) 1
    (CallState.empty.prune String.toList 1) (batchOf String.toList [(firstCard, 1)])
    noRequest).2 = _
  rw [insert_of_room rfl hroom (by decide)]
  rfl

theorem lanes_law_claimed :
    oneClaim.holders = [(callRetryId String.toList .outbound sampleReference, "token")] ∧
      LanesKept String.toList oneClaim := by
  have hholders : oneClaim.holders =
      [(callRetryId String.toList .outbound sampleReference, "token")] := by
    unfold oneClaim LaneWorld.claim
    rw [oneCard_calls]
    decide +kernel
  refine ⟨hholders, ?_⟩
  have hinit : (laneSystem String.toList).Reachable .initial := .init rfl
  have hinsert : (laneSystem String.toList).step .initial
      (.insert (fun _ => 1) 1 1 [(firstCard, 1)] noRequest) oneCard := rfl
  have hclaim : (laneSystem String.toList).step oneCard
      (.claim 2 2 "process" "token" (callRetryId String.toList .outbound sampleReference))
      oneClaim := rfl
  exact lanes_law ((hinit.step hinsert).step hclaim)

end Samples
end WorkUpdates
end Stemcell
