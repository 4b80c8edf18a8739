import Stemcell.Diagnostics.Shrink
import Stemcell.Lib.Transition

/-!
# Pushing diagnostics to Glass

The rollups of finished runs wait in a table.  A drain takes the oldest ones that are neither sent
nor rejected, counts an attempt for each before it sends it, and gives up what has had its attempts
or is too large.  Glass acknowledges what it stored.  Calls can be cut short by a crash; what they
have committed stays.

Main results:

- Definition `drainActs`: what a drain does, one commit or send after the other.
- Theorem `push_law`: in every run a row is handed over five times at most, never after an
  acknowledgement of it has returned, and never in a frame over the limit; each drain that finds
  rows raises the attempts of one that was pending, and there are at most seven finished drains of
  this kind for each row of the table.

Current gaps:

- The times in the side tables are left out.
- Rows that are marked when they are sent belong to another mode and are left out.
-/

namespace Stemcell
namespace Diagnostics

open Interface (Json Frame frameSize)
open Lib (Dict TransitionSystem)

def maxFrameBytes : ℕ := 120000

def maxDeliveryAttempts : ℕ := 5

/-! ## Rows -/

/-- A value in a column. -/
inductive Cell
  | null
  | integer (value : ℤ)
  | real (numeral : String) (zero : Bool)
  | text (value : String)
  | blob (bytes : List UInt8)
deriving DecidableEq, Repr

/-- A row of the current schema, by column. -/
abbrev Columns := String → Cell

/-- A column in a frame.  The bytes of a blob have no JSON. -/
def Cell.json : Cell → Option Json
  | null => some .null
  | integer value => some (.int value)
  | real numeral zero => some (.float numeral zero)
  | text value => some (.str value)
  | blob _ => none

/-- What the standard library and SQLite do: `json.loads` on a column, `dict` on a value, and the
order of `created_at`. -/
structure PushEnv where
  loads : Cell → Option Json
  pairs : Json → Option Frame
  before : Cell → Cell → Bool

section Frames

variable (env : PushEnv)

/-- `_loads`. -/
def loadsOf : Cell → Json
  | .null | .text "" | .blob [] | .integer 0 | .real _ true => .arr []
  | cell => (env.loads cell).getD (.arr [])

/-- The tokens of a row. -/
def tokensOf (row : Columns) : Option Json := do
  let input ← (row "tokens_input").json
  let output ← (row "tokens_output").json
  let cacheRead ← (row "tokens_cache_read").json
  let cacheCreation ← (row "tokens_cache_creation").json
  let total ← (row "tokens_total").json
  return .obj [("input", input), ("output", output), ("cache_read", cacheRead),
    ("cache_creation", cacheCreation), ("total", total)]

/-- The fields of the frame of a row, in order. -/
def rowFields (runId : String) (row : Columns) : List (String × Option Json) :=
  [("type", some (.str "diag.rollup")), ("run_id", some (.str runId)),
    ("parent_run_id", (row "parent_run_id").json), ("trigger", (row "trigger").json),
    ("carbon_id", (row "carbon_id").json), ("room_id", (row "room_id").json),
    ("message_ids", some (loadsOf env (row "message_ids"))),
    ("response_event_ids", some (loadsOf env (row "response_event_ids"))),
    ("meta", some (loadsOf env (row "meta"))), ("t_start_ms", (row "t_start_ms").json),
    ("t_end_ms", (row "t_end_ms").json), ("duration_ms", (row "duration_ms").json),
    ("rounds", (row "rounds").json), ("tokens", tokensOf row),
    ("cost_usd", (row "cost_usd").json), ("provider_calls", (row "provider_calls").json),
    ("workers_spawned", (row "workers_spawned").json),
    ("bottlenecks", some (loadsOf env (row "bottlenecks"))),
    ("spans", some (loadsOf env (row "spans"))), ("events", some (loadsOf env (row "events"))),
    ("status", (row "status").json), ("schema", (row "schema").json),
    ("version", (row "version").json)]

/-- The frame of a row, if it can be printed. -/
def rowToFrame (runId : String) (row : Columns) : Option Frame :=
  (rowFields env runId row).foldlM (fun frame field => field.2.map (frame.set field.1)) Dict.empty

end Frames

/-! ## Tables -/

/-- The rollups, with run ids that are not empty. -/
structure RunsTable where
  rows : Dict String Columns
  named : "" ∉ rows.keys

/-- The side tables of the sender. -/
structure PushDb where
  sent : List String
  rejected : Dict String String
  attempts : Dict String ℕ

namespace PushDb

/-- The row is neither sent nor rejected. -/
def isPending (db : PushDb) (runId : String) : Bool :=
  decide (runId ∉ db.sent) && (db.rejected.get? runId).isNone

def attemptsOf (db : PushDb) (runId : String) : ℕ :=
  (db.attempts.get? runId).getD 0

/-- `_count_attempt`, committed. -/
def countAttempt (db : PushDb) (runId : String) : PushDb :=
  { db with attempts := db.attempts.set runId (db.attemptsOf runId + 1) }

/-- `_dead_letter`, committed. -/
def deadLetter (db : PushDb) (runId reason : String) : PushDb :=
  { db with rejected := db.rejected.set runId (String.ofList (reason.toList.take 500)) }

/-- The transaction of `acknowledge`. -/
def acknowledge (db : PushDb) (runId : String) (stored : Bool) (reason : String) : PushDb :=
  if stored then
    { sent := if runId ∈ db.sent then db.sent else db.sent ++ [runId]
      rejected := db.rejected.pop runId
      attempts := db.attempts.pop runId }
  else
    let reason := if reason = "" then "Glass rejected diagnostic rollup" else reason
    db.deadLetter runId reason

end PushDb

/-- What happened, in order. -/
inductive PushEntry
  | handed (runId : String) (frame : Frame)
  | acked (runId : String)

/-- The tables, and what happened so far. -/
structure PushState where
  db : PushDb
  history : List PushEntry

/-! ## Drains -/

/-- A commit of a drain, or a call of `send_fn`. -/
inductive PushAct
  | count (runId : String)
  | letter (runId reason : String)
  | send (runId : String) (frame : Frame)

def PushState.act (s : PushState) : PushAct → PushState
  | .count runId => { s with db := s.db.countAttempt runId }
  | .letter runId reason => { s with db := s.db.deadLetter runId reason }
  | .send runId frame => { s with history := s.history ++ [.handed runId frame] }

section Drain

variable (env : PushEnv) (table : RunsTable)

/-- What a drain does with a row, and whether it goes on to the next one.  `sendOk` tells whether
`send_fn` returns. -/
def rowActs (db : PushDb) (runId : String) (sendOk : Bool) : List PushAct × Bool :=
  let attempts := db.attemptsOf runId + 1
  if attempts > maxDeliveryAttempts then
    ([.count runId, .letter runId
      ("undeliverable after " ++ toString maxDeliveryAttempts ++ " attempts")], true)
  else
    match (table.rows.get? runId).bind (rowToFrame env runId) with
    | none => ([.count runId], false)
    | some frame =>
      match shrinkFrame env.pairs frame maxFrameBytes with
      | none => ([.count runId], false)
      | some (shrunk, _) =>
          if frameSize shrunk > maxFrameBytes then
            ([.count runId, .letter runId ("frame is " ++ toString (frameSize shrunk) ++
              " bytes, over the " ++ toString maxFrameBytes ++ "-byte limit")], true)
          else ([.count runId, .send runId shrunk], sendOk)

/-- What a drain does with the rows that it fetched. -/
def drainActs (sendOk : String → Bool) : List String → PushState → List PushAct
  | [], _ => []
  | runId :: rest, s =>
      let (acts, goesOn) := rowActs env table s.db runId (sendOk runId)
      if goesOn then acts ++ drainActs sendOk rest (acts.foldl PushState.act s) else acts

/-- The rows that a drain fetches: pending ones, the oldest first, up to a limit.  A negative limit
is none. -/
def Fetched (db : PushDb) (limit : ℤ) (rows : List String) : Prop :=
  ∃ pending : List String, pending.Perm (table.rows.keys.filter db.isPending) ∧
    pending.Pairwise (fun a b => ∀ x y, table.rows.get? a = some x → table.rows.get? b = some y →
      env.before (x "created_at") (y "created_at") = true) ∧
    rows = if limit < 0 then pending else pending.take limit.toNat

/-! ## The system -/

/-- A drain, cut short after some acts if it crashes, or a committed acknowledgement, with whether
it returns. -/
inductive PushEvent
  | drain (limit : ℤ) (rows : List String) (sendOk : String → Bool) (crash : Option ℕ)
  | acknowledge (runId : String) (stored : Bool) (reason : String) (returned : Bool)

/-- Run ids are cut to 64 characters. -/
def ackId (runId : String) : String :=
  String.ofList (runId.toList.take 64)

def nextPush (s : PushState) : PushEvent → PushState
  | .drain _ rows sendOk crash =>
      let acts := drainActs env table sendOk rows s
      let done := match crash with
        | none => acts
        | some n => acts.take n
      done.foldl PushState.act s
  | .acknowledge runId stored reason returned =>
      let runId := ackId runId
      if runId = "" then s
      else
        { db := s.db.acknowledge runId stored reason
          history := if returned then s.history ++ [.acked runId] else s.history }

def pushSystem : TransitionSystem PushState PushEvent where
  init s := s = ⟨⟨[], Dict.empty, Dict.empty⟩, []⟩
  step s e t := (∀ limit rows sendOk crash, e = .drain limit rows sendOk crash →
    Fetched env table s.db limit rows) ∧ t = nextPush env table s e

end Drain

/-! ## The law -/

/-- How often a row was handed over. -/
def timesHanded (runId : String) (history : List PushEntry) : ℕ :=
  history.countP fun entry =>
    match entry with
    | .handed other _ => other = runId
    | .acked _ => false

/-- Rows are handed over boundedly, in bounded frames, and not after an acknowledgement. -/
structure Delivered (history : List PushEntry) : Prop where
  bounded : ∀ runId, timesHanded runId history ≤ maxDeliveryAttempts
  fits : ∀ runId frame, .handed runId frame ∈ history → frameSize frame ≤ maxFrameBytes
  silent : history.Pairwise fun x y => ∀ runId frame, x = .acked runId → y ≠ .handed runId frame

/-- Some row that was pending has more attempts, or is pending no more. -/
def Advances (table : RunsTable) (db after : PushDb) : Prop :=
  ∃ runId ∈ table.rows.keys, db.isPending runId = true ∧
    (db.attemptsOf runId < after.attemptsOf runId ∨ after.isPending runId = false)

/-- The drain finds rows, and is not cut short before its first commit. -/
def PushEvent.findsRows : PushEvent → Bool
  | drain _ rows _ crash => !rows.isEmpty && decide (crash ≠ some 0)
  | acknowledge _ _ _ _ => false

/-- The drain finds rows, and no crash cuts it short. -/
def PushEvent.finishes : PushEvent → Bool
  | drain _ rows _ crash => !rows.isEmpty && crash.isNone
  | acknowledge _ _ _ _ => false

/-! ## One act -/

section Act

variable {s : PushState} {runId : String}

/-- What holds between acts. -/
structure PushSound (s : PushState) : Prop where
  counted : ∀ runId, runId ∉ s.db.sent → timesHanded runId s.history ≤ s.db.attemptsOf runId
  delivered : Delivered s.history
  acked : ∀ runId, .acked runId ∈ s.history → s.db.isPending runId = false

theorem isPending_iff (db : PushDb) (runId : String) :
    db.isPending runId = true ↔ runId ∉ db.sent ∧ db.rejected.get? runId = none := by
  simp [PushDb.isPending]

theorem isPending_eq_false_iff (db : PushDb) (runId : String) :
    db.isPending runId = false ↔ runId ∈ db.sent ∨ db.rejected.get? runId ≠ none := by
  rw [← Bool.not_eq_true, isPending_iff]
  tauto

theorem attemptsOf_countAttempt (db : PushDb) (runId other : String) :
    (db.countAttempt runId).attemptsOf other =
      if runId = other then db.attemptsOf other + 1 else db.attemptsOf other := by
  unfold PushDb.countAttempt PushDb.attemptsOf
  dsimp only
  rw [Dict.get?_set]
  by_cases h : runId = other
  · subst h
    rw [if_pos rfl, if_pos rfl, Option.getD_some]
  · rw [if_neg h, if_neg h]

theorem isPending_countAttempt (db : PushDb) (runId other : String) :
    (db.countAttempt runId).isPending other = db.isPending other :=
  rfl

theorem attemptsOf_deadLetter (db : PushDb) (runId reason other : String) :
    (db.deadLetter runId reason).attemptsOf other = db.attemptsOf other :=
  rfl

theorem isPending_deadLetter (db : PushDb) (runId reason other : String) :
    (db.deadLetter runId reason).isPending other =
      (db.isPending other && decide (runId ≠ other)) := by
  unfold PushDb.deadLetter PushDb.isPending
  dsimp only
  rw [Dict.get?_set]
  by_cases h : runId = other <;> simp [h]

theorem timesHanded_append (history : List PushEntry) (entry : PushEntry) :
    timesHanded runId (history ++ [entry]) =
      timesHanded runId history + timesHanded runId [entry] := by
  unfold timesHanded
  rw [List.countP_append]

theorem PushSound.count (h : PushSound s) (runId : String) : PushSound (s.act (.count runId)) := by
  constructor
  · intro other hsent
    have hcounted := h.counted other hsent
    change timesHanded other s.history ≤ (s.db.countAttempt runId).attemptsOf other
    rw [attemptsOf_countAttempt]
    split_ifs <;> omega
  · exact h.delivered
  · exact h.acked

theorem PushSound.letter (h : PushSound s) (runId reason : String) :
    PushSound (s.act (.letter runId reason)) := by
  constructor
  · exact h.counted
  · exact h.delivered
  · intro other hacked
    change (s.db.deadLetter runId reason).isPending other = false
    rw [isPending_deadLetter, h.acked other hacked, Bool.false_and]

/-- A pending row with an attempt to its name may be handed over. -/
theorem PushSound.send (h : PushSound s) {frame : Frame} (hpending : s.db.isPending runId = true)
    (hattempt : timesHanded runId s.history < s.db.attemptsOf runId)
    (hbound : s.db.attemptsOf runId ≤ maxDeliveryAttempts)
    (hfits : frameSize frame ≤ maxFrameBytes) : PushSound (s.act (.send runId frame)) := by
  have hone : timesHanded runId [.handed runId frame] = 1 := by simp [timesHanded]
  have hzero : ∀ other, runId ≠ other → timesHanded other [.handed runId frame] = 0 := by
    intro other hne
    simp [timesHanded, hne]
  constructor
  · intro other hsent
    change timesHanded other (s.history ++ [.handed runId frame]) ≤ s.db.attemptsOf other
    rw [timesHanded_append]
    by_cases hne : runId = other
    · subst hne
      omega
    · rw [hzero other hne]
      exact h.counted other hsent
  · constructor
    · intro other
      change timesHanded other (s.history ++ [.handed runId frame]) ≤ maxDeliveryAttempts
      rw [timesHanded_append]
      by_cases hne : runId = other
      · subst hne
        omega
      · rw [hzero other hne]
        exact h.delivered.bounded other
    · intro other frame' hmem
      rcases List.mem_append.mp hmem with hold | hnew
      · exact h.delivered.fits other frame' hold
      · have heq := List.mem_singleton.mp hnew
        cases heq
        exact hfits
    · change List.Pairwise _ (s.history ++ [.handed runId frame])
      rw [List.pairwise_append]
      refine ⟨h.delivered.silent, List.pairwise_singleton _ _, ?_⟩
      intro x hx y hy other frame' hacked hhanded
      rw [List.mem_singleton.mp hy] at hhanded
      cases hhanded
      rw [hacked] at hx
      rw [h.acked runId hx] at hpending
      cases hpending
  · intro other hacked
    rcases List.mem_append.mp hacked with hold | hnew
    · exact h.acked other hold
    · cases List.mem_singleton.mp hnew

end Act

/-! ## One drain -/

section Drain

variable {env : PushEnv} {table : RunsTable} {s : PushState} {runId : String}

/-- What a drain does with a row: it counts, and then gives the row up, or raises, or sends it. -/
theorem rowActs_cases (env : PushEnv) (table : RunsTable) (db : PushDb) (runId : String)
    (sendOk : Bool) :
    (∃ reason, rowActs env table db runId sendOk =
        ([.count runId, .letter runId reason], true)) ∨
      db.attemptsOf runId + 1 ≤ maxDeliveryAttempts ∧
        (rowActs env table db runId sendOk = ([.count runId], false) ∨
          ∃ frame, frameSize frame ≤ maxFrameBytes ∧
            rowActs env table db runId sendOk = ([.count runId, .send runId frame], sendOk)) := by
  unfold rowActs
  dsimp only
  by_cases hattempts : db.attemptsOf runId + 1 > maxDeliveryAttempts
  · left
    rw [if_pos hattempts]
    exact ⟨_, rfl⟩
  · rw [if_neg hattempts]
    cases hframe : (table.rows.get? runId).bind (rowToFrame env runId) with
    | none => exact .inr ⟨Nat.le_of_not_lt hattempts, .inl rfl⟩
    | some frame =>
        dsimp only
        cases hshrink : shrinkFrame env.pairs frame maxFrameBytes with
        | none => exact .inr ⟨Nat.le_of_not_lt hattempts, .inl rfl⟩
        | some result =>
            dsimp only
            by_cases hsize : frameSize result.1 > maxFrameBytes
            · left
              rw [if_pos hsize]
              exact ⟨_, rfl⟩
            · right
              rw [if_neg hsize]
              exact ⟨Nat.le_of_not_lt hattempts, .inr ⟨result.1, Nat.le_of_not_lt hsize, rfl⟩⟩

/-- All of a row, and then the rest; or a part of what is done with the row. -/
theorem drainActs_cons (sendOk : String → Bool) (rest : List String) (s : PushState) :
    drainActs env table sendOk (runId :: rest) s =
      (rowActs env table s.db runId (sendOk runId)).1 ++
        if (rowActs env table s.db runId (sendOk runId)).2 then
          drainActs env table sendOk rest
            ((rowActs env table s.db runId (sendOk runId)).1.foldl PushState.act s)
        else [] := by
  rw [drainActs]
  dsimp only
  split_ifs
  · rfl
  · rw [List.append_nil]

theorem PushSound.rowActs (h : PushSound s) (hpending : s.db.isPending runId = true)
    (sendOk : Bool) (n : ℕ) :
    PushSound (((rowActs env table s.db runId sendOk).1.take n).foldl PushState.act s) := by
  have hcount := h.count runId
  rcases rowActs_cases env table s.db runId sendOk with
    ⟨reason, hacts⟩ | ⟨hbound, hacts | ⟨frame, hfits, hacts⟩⟩
  · rw [hacts]
    have hletter := hcount.letter runId reason
    rcases n with _ | _ | n
    · exact h
    · exact hcount
    · rw [List.take_of_length_le (Nat.le_add_left 2 n)]
      exact hletter
  · rw [hacts]
    rcases n with _ | n
    · exact h
    · rw [List.take_of_length_le (Nat.le_add_left 1 n)]
      exact hcount
  · rw [hacts]
    have hattempts : (s.act (.count runId)).db.attemptsOf runId = s.db.attemptsOf runId + 1 := by
      change (s.db.countAttempt runId).attemptsOf runId = _
      rw [attemptsOf_countAttempt, if_pos rfl]
    have hcounted := h.counted runId ((isPending_iff _ _).mp hpending).1
    have hsend := @PushSound.send _ runId hcount frame hpending
      (by rw [hattempts]; exact Nat.lt_succ_of_le hcounted) (by rw [hattempts]; exact hbound) hfits
    rcases n with _ | _ | n
    · exact h
    · exact hcount
    · rw [List.take_of_length_le (Nat.le_add_left 2 n)]
      exact hsend

/-- The rows that a drain has still to look at stay pending. -/
theorem isPending_rowActs {other : String} (hne : runId ≠ other) (sendOk : Bool) :
    ((rowActs env table s.db runId sendOk).1.foldl PushState.act s).db.isPending other =
      s.db.isPending other := by
  rcases rowActs_cases env table s.db runId sendOk with
    ⟨reason, hacts⟩ | ⟨_, hacts | ⟨frame, _, hacts⟩⟩
  · rw [hacts]
    change ((s.db.countAttempt runId).deadLetter runId reason).isPending other = _
    rw [isPending_deadLetter, isPending_countAttempt]
    simp [hne]
  · rw [hacts]
    rfl
  · rw [hacts]
    rfl

/-- Wherever a drain is cut short, what holds between acts holds. -/
theorem PushSound.drain {rows : List String} (sendOk : String → Bool) (hnodup : rows.Nodup)
    (h : PushSound s) (hpending : ∀ runId ∈ rows, s.db.isPending runId = true) (n : ℕ) :
    PushSound (((drainActs env table sendOk rows s).take n).foldl PushState.act s) := by
  induction rows generalizing s n with
  | nil =>
      rw [drainActs, List.take_nil]
      exact h
  | cons runId rest ih =>
      rw [List.nodup_cons] at hnodup
      have hfirst := hpending runId List.mem_cons_self
      rw [drainActs_cons, List.take_append, List.foldl_append]
      have hrow := @PushSound.rowActs env table s runId h hfirst (sendOk runId) n
      by_cases hshort : n ≤ (Diagnostics.rowActs env table s.db runId (sendOk runId)).1.length
      · rw [Nat.sub_eq_zero_of_le hshort, List.take_zero]
        exact hrow
      · have hall := @PushSound.rowActs env table s runId h hfirst (sendOk runId)
          (Diagnostics.rowActs env table s.db runId (sendOk runId)).1.length
        rw [List.take_length] at hall
        rw [List.take_of_length_le (Nat.le_of_not_le hshort)]
        split_ifs
        · apply ih hnodup.2 hall
          intro other hother
          have hne : runId ≠ other := fun heq => hnodup.1 (heq ▸ hother)
          rw [isPending_rowActs hne]
          exact hpending other (List.mem_cons_of_mem _ hother)
        · rw [List.take_nil]
          exact hall

/-! ## Progress -/

/-- How many drains a row can still take. -/
def weight (db : PushDb) (runId : String) : ℕ :=
  if db.isPending runId then 7 - min (db.attemptsOf runId) 6 else 0

def totalWeight (table : RunsTable) (db : PushDb) : ℕ :=
  (table.rows.keys.map (weight db)).sum

theorem weight_le (db : PushDb) (runId : String) : weight db runId ≤ 7 := by
  unfold weight
  split_ifs <;> omega

/-- An act raises no weight and lowers no count of attempts. -/
theorem act_mono (s : PushState) (a : PushAct) (runId : String) :
    weight (s.act a).db runId ≤ weight s.db runId ∧
      s.db.attemptsOf runId ≤ (s.act a).db.attemptsOf runId := by
  cases a with
  | count other =>
      change weight (s.db.countAttempt other) runId ≤ _ ∧
        _ ≤ (s.db.countAttempt other).attemptsOf runId
      unfold weight
      rw [isPending_countAttempt, attemptsOf_countAttempt]
      split_ifs <;> omega
  | letter other reason =>
      change weight (s.db.deadLetter other reason) runId ≤ _ ∧
        _ ≤ (s.db.deadLetter other reason).attemptsOf runId
      unfold weight
      rw [isPending_deadLetter, attemptsOf_deadLetter]
      cases s.db.isPending runId with
      | false => simp
      | true =>
          refine ⟨?_, Nat.le_refl _⟩
          rw [if_pos (rfl : true = true)]
          split_ifs
          · exact Nat.le_refl _
          · exact Nat.zero_le _
  | send other frame => exact ⟨Nat.le_refl _, Nat.le_refl _⟩

theorem acts_mono (acts : List PushAct) (s : PushState) (runId : String) :
    weight (acts.foldl PushState.act s).db runId ≤ weight s.db runId ∧
      s.db.attemptsOf runId ≤ (acts.foldl PushState.act s).db.attemptsOf runId := by
  induction acts generalizing s with
  | nil => exact ⟨Nat.le_refl _, Nat.le_refl _⟩
  | cons a rest ih =>
      have hfirst := act_mono s a runId
      have hrest := ih (s.act a)
      rw [List.foldl_cons]
      omega

/-- A drain counts an attempt of its first row before anything else. -/
theorem drain_raises (sendOk : String → Bool) (rest : List String) (s : PushState) {n : ℕ}
    (hn : 0 < n) :
    s.db.attemptsOf runId <
      (((drainActs env table sendOk (runId :: rest) s).take n).foldl PushState.act s).db.attemptsOf
        runId := by
  have hhead : ∃ acts, drainActs env table sendOk (runId :: rest) s = .count runId :: acts := by
    rw [drainActs_cons]
    rcases rowActs_cases env table s.db runId (sendOk runId) with
      ⟨reason, hacts⟩ | ⟨_, hacts | ⟨frame, _, hacts⟩⟩
    · rw [hacts]
      exact ⟨_, rfl⟩
    · rw [hacts]
      exact ⟨_, rfl⟩
    · rw [hacts]
      exact ⟨_, rfl⟩
  rcases hhead with ⟨acts, hacts⟩
  rcases n with _ | n
  · exact absurd hn (Nat.lt_irrefl 0)
  · rw [hacts, List.take_succ_cons, List.foldl_cons]
    have hmono := (acts_mono (acts.take n) (s.act (.count runId)) runId).2
    have hcount : (s.act (.count runId)).db.attemptsOf runId = s.db.attemptsOf runId + 1 := by
      change (s.db.countAttempt runId).attemptsOf runId = _
      rw [attemptsOf_countAttempt, if_pos rfl]
    omega

/-- A drain that is not cut short lowers the weight of its first row. -/
theorem drain_lowers (sendOk : String → Bool) (rest : List String)
    (hpending : s.db.isPending runId = true) :
    weight ((drainActs env table sendOk (runId :: rest) s).foldl PushState.act s).db runId <
      weight s.db runId := by
  rw [drainActs_cons, List.foldl_append]
  apply Nat.lt_of_le_of_lt (acts_mono _ _ runId).1
  have hcounted : (s.db.countAttempt runId).attemptsOf runId = s.db.attemptsOf runId + 1 := by
    rw [attemptsOf_countAttempt, if_pos rfl]
  have hlower : s.db.attemptsOf runId + 1 ≤ maxDeliveryAttempts →
      weight (s.db.countAttempt runId) runId < weight s.db runId := by
    intro hbound
    unfold maxDeliveryAttempts at hbound
    unfold weight
    rw [isPending_countAttempt, hpending, if_pos rfl, if_pos rfl, hcounted]
    omega
  rcases rowActs_cases env table s.db runId (sendOk runId) with
    ⟨reason, hacts⟩ | ⟨hbound, hacts | ⟨frame, _, hacts⟩⟩
  · rw [hacts]
    change weight ((s.db.countAttempt runId).deadLetter runId reason) runId < weight s.db runId
    have hgone : ((s.db.countAttempt runId).deadLetter runId reason).isPending runId = false := by
      rw [isPending_deadLetter]
      simp
    unfold weight
    rw [hgone, hpending, if_pos rfl, if_neg Bool.false_ne_true]
    omega
  · rw [hacts]
    exact hlower hbound
  · rw [hacts]
    exact hlower hbound

end Drain

/-! ## Acknowledgements -/

section Acknowledge

variable {s : PushState}

/-- An acknowledged row is not pending, whatever the answer was. -/
theorem isPending_acknowledge (db : PushDb) (runId : String) (stored : Bool)
    (reason other : String) :
    (db.acknowledge runId stored reason).isPending other =
      (db.isPending other && decide (runId ≠ other)) := by
  unfold PushDb.acknowledge
  cases stored with
  | false =>
      rw [if_neg Bool.false_ne_true]
      exact isPending_deadLetter _ _ _ _
  | true =>
      rw [if_pos rfl]
      unfold PushDb.isPending
      dsimp only
      rw [Dict.get?_pop]
      by_cases hne : runId = other
      · subst hne
        by_cases hmem : runId ∈ db.sent <;> simp [hmem]
      · have hother : other ≠ runId := Ne.symm hne
        by_cases hmem : runId ∈ db.sent <;> simp [hmem, hne, hother]

theorem attemptsOf_acknowledge (db : PushDb) {runId other : String} (hne : runId ≠ other)
    (stored : Bool) (reason : String) :
    (db.acknowledge runId stored reason).attemptsOf other = db.attemptsOf other := by
  unfold PushDb.acknowledge
  cases stored with
  | false => rfl
  | true =>
      rw [if_pos rfl]
      unfold PushDb.attemptsOf
      dsimp only
      rw [Dict.get?_pop_of_ne _ hne]

theorem sent_acknowledge {db : PushDb} {runId other : String} (stored : Bool) (reason : String)
    (hsent : other ∉ (db.acknowledge runId stored reason).sent) :
    other ∉ db.sent ∧ (stored = true → runId ≠ other) := by
  unfold PushDb.acknowledge at hsent
  cases stored with
  | false => exact ⟨hsent, fun hfalse => absurd hfalse Bool.false_ne_true⟩
  | true =>
      rw [if_pos rfl] at hsent
      dsimp only at hsent
      by_cases hmem : runId ∈ db.sent
      · rw [if_pos hmem] at hsent
        exact ⟨hsent, fun _ heq => hsent (heq ▸ hmem)⟩
      · rw [if_neg hmem, List.mem_append, List.mem_singleton, not_or] at hsent
        exact ⟨hsent.1, fun _ heq => hsent.2 heq.symm⟩

theorem PushSound.acknowledge (h : PushSound s) (runId : String) (stored : Bool) (reason : String)
    (returned : Bool) :
    PushSound
      { db := s.db.acknowledge runId stored reason
        history := if returned then s.history ++ [.acked runId] else s.history } := by
  have htimes : ∀ other, timesHanded other
      (if returned then s.history ++ [.acked runId] else s.history) =
        timesHanded other s.history := by
    intro other
    cases returned with
    | false => rfl
    | true =>
        rw [if_pos rfl, timesHanded_append]
        rfl
  have hmem : ∀ entry, entry ∈ (if returned then s.history ++ [.acked runId] else s.history) →
      entry ∈ s.history ∨ entry = .acked runId := by
    intro entry hentry
    cases returned with
    | false => exact .inl hentry
    | true =>
        rw [if_pos rfl, List.mem_append, List.mem_singleton] at hentry
        exact hentry
  constructor
  · intro other hsent
    rcases sent_acknowledge stored reason hsent with ⟨hold, hstored⟩
    dsimp only
    rw [htimes]
    by_cases hne : runId = other
    · cases stored with
      | false => exact h.counted other hold
      | true => exact absurd hne (hstored rfl)
    · rw [attemptsOf_acknowledge _ hne]
      exact h.counted other hold
  · constructor
    · intro other
      rw [htimes]
      exact h.delivered.bounded other
    · intro other frame hentry
      rcases hmem _ hentry with hold | hnew
      · exact h.delivered.fits other frame hold
      · cases hnew
    · cases returned with
      | false => exact h.delivered.silent
      | true =>
          rw [if_pos rfl, List.pairwise_append]
          refine ⟨h.delivered.silent, List.pairwise_singleton _ _, ?_⟩
          intro x _ y hy other frame _ hhanded
          rw [List.mem_singleton.mp hy] at hhanded
          cases hhanded
  · intro other hentry
    dsimp only
    rw [isPending_acknowledge]
    rcases hmem _ hentry with hold | hnew
    · rw [h.acked other hold, Bool.false_and]
    · cases hnew
      simp

theorem weight_acknowledge (db : PushDb) (runId : String) (stored : Bool) (reason other : String) :
    weight (db.acknowledge runId stored reason) other ≤ weight db other := by
  unfold weight
  rw [isPending_acknowledge]
  by_cases hne : runId = other
  · subst hne
    simp
  · rw [attemptsOf_acknowledge _ hne]
    simp [hne]

end Acknowledge

/-! ## Runs -/

section Law

variable {env : PushEnv} {table : RunsTable}

/-- What a drain fetches is pending, and no row comes twice. -/
theorem Fetched.pending {db : PushDb} {limit : ℤ} {rows : List String}
    (h : Fetched env table db limit rows) :
    rows.Nodup ∧ ∀ runId ∈ rows, runId ∈ table.rows.keys ∧ db.isPending runId = true := by
  rcases h with ⟨pending, hperm, -, hrows⟩
  have hsub : rows.Sublist pending := by
    rw [hrows]
    split_ifs
    · exact List.Sublist.refl _
    · exact List.take_sublist _ _
  have hnodup : pending.Nodup := hperm.nodup_iff.mpr (List.Nodup.filter _ table.rows.nodup)
  refine ⟨hnodup.sublist hsub, ?_⟩
  intro runId hmem
  exact List.mem_filter.mp (hperm.mem_iff.mp (hsub.subset hmem))

theorem nextPush_drain (s : PushState) (limit : ℤ) (rows : List String) (sendOk : String → Bool)
    (crash : Option ℕ) :
    nextPush env table s (.drain limit rows sendOk crash) =
      ((drainActs env table sendOk rows s).take
        (crash.getD (drainActs env table sendOk rows s).length)).foldl PushState.act s := by
  unfold nextPush
  cases crash with
  | none =>
      dsimp only
      rw [Option.getD_none, List.take_length]
  | some n => rfl

theorem PushSound.step {s t : PushState} {e : PushEvent} (h : PushSound s)
    (hst : (pushSystem env table).step s e t) : PushSound t := by
  rw [hst.2]
  cases e with
  | drain limit rows sendOk crash =>
      rcases (hst.1 limit rows sendOk crash rfl).pending with ⟨hnodup, hpending⟩
      rw [nextPush_drain]
      exact h.drain sendOk hnodup (fun runId hmem => (hpending runId hmem).2) _
  | acknowledge runId stored reason returned =>
      unfold nextPush
      dsimp only
      by_cases hempty : ackId runId = ""
      · rw [if_pos hempty]
        exact h
      · rw [if_neg hempty]
        exact h.acknowledge _ stored reason returned

theorem pushSound_of_reachable {s : PushState} (hs : (pushSystem env table).Reachable s) :
    PushSound s := by
  apply hs.invariant (I := PushSound)
  · rintro s rfl
    constructor
    · intro runId _
      exact Nat.zero_le _
    · constructor
      · intro runId
        exact Nat.zero_le _
      · intro runId frame hmem
        cases hmem
      · exact List.Pairwise.nil
    · intro runId hmem
      cases hmem
  · intro s e t _ hsound hst
    exact hsound.step hst

/-- A drain that finds rows raises the attempts of one that was pending. -/
theorem step_advances {s t : PushState} {e : PushEvent} (hst : (pushSystem env table).step s e t)
    (hfinds : e.findsRows = true) : Advances table s.db t.db := by
  cases e with
  | drain limit rows sendOk crash =>
      rcases (hst.1 limit rows sendOk crash rfl).pending with ⟨-, hpending⟩
      cases rows with
      | nil => cases hfinds
      | cons runId rest =>
          rcases hpending runId List.mem_cons_self with ⟨hkey, hrow⟩
          refine ⟨runId, hkey, hrow, .inl ?_⟩
          rw [hst.2, nextPush_drain]
          apply drain_raises
          cases crash with
          | none =>
              rw [Option.getD_none, drainActs_cons]
              rcases rowActs_cases env table s.db runId (sendOk runId) with
                ⟨reason, hacts⟩ | ⟨_, hacts | ⟨frame, _, hacts⟩⟩
              · rw [hacts]
                simp
              · rw [hacts]
                simp
              · rw [hacts]
                simp
          | some n =>
              rw [Option.getD_some, Nat.pos_iff_ne_zero]
              rintro rfl
              simp [PushEvent.findsRows] at hfinds
  | acknowledge => cases hfinds

theorem sum_map_le {f g : String → ℕ} (keys : List String) (h : ∀ k ∈ keys, f k ≤ g k) :
    (keys.map f).sum ≤ (keys.map g).sum := by
  induction keys with
  | nil => exact Nat.le_refl _
  | cons k rest ih =>
      have hhead := h k List.mem_cons_self
      have htail := ih fun k' hk' => h k' (List.mem_cons_of_mem _ hk')
      rw [List.map_cons, List.map_cons, List.sum_cons, List.sum_cons]
      omega

theorem sum_map_lt {f g : String → ℕ} {keys : List String} {key : String} (hmem : key ∈ keys)
    (h : ∀ k ∈ keys, f k ≤ g k) (hlt : f key < g key) :
    (keys.map f).sum < (keys.map g).sum := by
  induction keys with
  | nil => cases hmem
  | cons k rest ih =>
      have hhead := h k List.mem_cons_self
      have htail := sum_map_le rest fun k' hk' => h k' (List.mem_cons_of_mem _ hk')
      rw [List.map_cons, List.map_cons, List.sum_cons, List.sum_cons]
      rcases List.mem_cons.mp hmem with heq | hrest
      · rw [heq] at hlt
        omega
      · have hless := ih hrest fun k' hk' => h k' (List.mem_cons_of_mem _ hk')
        omega

/-- No step raises the weight of the table, and a finished drain that finds rows lowers it. -/
theorem step_weight {s t : PushState} {e : PushEvent} (hst : (pushSystem env table).step s e t) :
    totalWeight table t.db + (e.finishes).toNat ≤ totalWeight table s.db := by
  rw [hst.2]
  cases e with
  | drain limit rows sendOk crash =>
      rcases (hst.1 limit rows sendOk crash rfl).pending with ⟨-, hpending⟩
      have hmono : ∀ k ∈ table.rows.keys,
          weight (nextPush env table s (.drain limit rows sendOk crash)).db k ≤ weight s.db k := by
        intro k _
        rw [nextPush_drain]
        exact (acts_mono _ s k).1
      by_cases hfinishes : (PushEvent.drain limit rows sendOk crash).finishes = true
      · cases rows with
        | nil => cases hfinishes
        | cons runId rest =>
            rcases hpending runId List.mem_cons_self with ⟨hkey, hrow⟩
            have hcrash : crash = none := by
              simpa [PushEvent.finishes] using hfinishes
            subst hcrash
            have hlower := sum_map_lt hkey hmono (drain_lowers sendOk rest hrow)
            rw [hfinishes]
            exact hlower
      · rw [Bool.not_eq_true] at hfinishes
        rw [hfinishes]
        exact sum_map_le _ hmono
  | acknowledge runId stored reason returned =>
      apply sum_map_le
      intro k _
      unfold nextPush
      dsimp only
      by_cases hempty : ackId runId = ""
      · simp [hempty]
      · rw [if_neg hempty]
        exact weight_acknowledge _ _ _ _ _

theorem run_weight {s t : PushState} {es : List PushEvent}
    (hrun : (pushSystem env table).Run s es t) :
    totalWeight table t.db + es.countP PushEvent.finishes ≤ totalWeight table s.db := by
  induction hrun with
  | nil => simp
  | @cons a b _ e _ hst _ ih =>
      have hstep := step_weight hst
      rw [List.countP_cons]
      cases hfinishes : e.finishes with
      | false =>
          rw [hfinishes, Bool.toNat_false] at hstep
          simp only [Bool.false_eq_true, if_false]
          omega
      | true =>
          rw [hfinishes, Bool.toNat_true] at hstep
          simp only [if_true]
          omega

theorem totalWeight_le (table : RunsTable) (db : PushDb) :
    totalWeight table db ≤ 7 * table.rows.size := by
  have hkeys : ∀ keys : List String, (keys.map (weight db)).sum ≤ 7 * keys.length := by
    intro keys
    induction keys with
    | nil => exact Nat.le_refl 0
    | cons k rest ih =>
        have hhead := weight_le db k
        rw [List.map_cons, List.sum_cons, List.length_cons]
        omega
  have hlength : table.rows.keys.length = table.rows.size := List.length_map _
  have htotal := hkeys table.rows.keys
  unfold totalWeight
  omega

/-- In every run of drains and acknowledgements, with sends that raise and calls that crash: a row
is handed over five times at most, in frames within the limit, and never after an acknowledgement of
it has returned; each drain that finds rows raises the attempts of a pending one or retires one; and
there are at most seven drains that find rows and finish for each row of the table. -/
theorem push_law {s t : PushState} {es : List PushEvent} (hs : (pushSystem env table).init s)
    (hrun : (pushSystem env table).Run s es t) :
    Delivered t.history ∧
      (∀ fs e u v, fs ++ [e] <+: es → (pushSystem env table).Run s fs u →
        (pushSystem env table).step u e v → e.findsRows = true → Advances table u.db v.db) ∧
      es.countP PushEvent.finishes ≤ 7 * table.rows.size := by
  have hreach : (pushSystem env table).Reachable t := .run (.init hs) hrun
  refine ⟨(pushSound_of_reachable hreach).delivered, ?_, ?_⟩
  · intro fs e u v _ _ hst hfinds
    exact step_advances hst hfinds
  · have hweight := run_weight hrun
    have hbound := totalWeight_le table s.db
    omega

/-- A table with one row. -/
def oneRow : RunsTable where
  rows := Dict.empty.set "r-1" fun _ => .null
  named := by decide

/-- A library that decodes nothing. -/
def plainEnv : PushEnv where
  loads _ := none
  pairs _ := none
  before _ _ := true

/-- A drain whose socket breaks, one that crashes after its send, and the acknowledgement. -/
def oneRowEvents : List PushEvent :=
  [.drain 50 ["r-1"] (fun _ => false) none, .drain 50 ["r-1"] (fun _ => true) (some 2),
    .acknowledge "r-1" true "" true]

theorem push_law_one_row :
    Delivered (oneRowEvents.foldl (nextPush plainEnv oneRow)
      ⟨⟨[], Dict.empty, Dict.empty⟩, []⟩).history := by
  have hfetched : ∀ db : PushDb, oneRow.rows.keys.filter db.isPending = ["r-1"] →
      Fetched plainEnv oneRow db 50 ["r-1"] := by
    intro db hpending
    refine ⟨["r-1"], ?_, List.pairwise_singleton _ _, rfl⟩
    rw [hpending]
  apply And.left
  apply @push_law plainEnv oneRow ⟨⟨[], Dict.empty, Dict.empty⟩, []⟩ _ oneRowEvents rfl
  refine .cons ⟨?_, rfl⟩ (.cons ⟨?_, rfl⟩ (.single ⟨?_, rfl⟩))
  · intro limit rows sendOk crash heq
    cases heq
    apply hfetched
    decide +kernel
  · intro limit rows sendOk crash heq
    cases heq
    apply hfetched
    decide +kernel
  · intro limit rows sendOk crash heq
    cases heq

end Law

end Diagnostics
end Stemcell
