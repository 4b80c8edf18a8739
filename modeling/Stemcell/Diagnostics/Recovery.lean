import Stemcell.Diagnostics.Partial
import Stemcell.Diagnostics.Push

/-!
# Recovering abandoned traces

The sender looks through the trace files and stores a rollup for every run that has none and whose
process is gone.  All rows of a call are in one transaction, which is committed after the last file.
Whatever is raised on the way ends the call without it.

Main results:

- Definition `recoverAbandonedTraces`: the table after a call, and what it returns.
- Theorem `completes_iff`: a call comes to its end exactly if no file stops it.
- Theorem `recovery_law_iff`: exactly when every file that alone would have been recovered has a row
  after the call.
-/

namespace Stemcell
namespace Diagnostics

open Interface (Json)
open Lib (fileLines universal)

/-! ## Rows -/

/-- A value as a dictionary key: Python compares numbers by value. -/
inductive DictKey
  | none
  | number (value : ℚ)
  | special (numeral : String)
  | text (value : String)
deriving DecidableEq

section Rows

variable (env : TraceEnv)

/-- The key of a value, unless it cannot be hashed. -/
def dictKey : Json → Option DictKey
  | .null => some .none
  | .bool value => some (.number (if value then 1 else 0))
  | .int value => some (.number value)
  | .float text _ =>
      match env.floatValue text with
      | some value => some (.number value)
      | none => some (.special text)
  | .str text => some (.text text)
  | .arr _ | .obj _ => none

/-- A parameter of a statement, unless SQLite has no value for it. -/
def bindValue : Json → Option Cell
  | .null => some .null
  | .bool value => some (.integer (if value then 1 else 0))
  | .int value => if -2 ^ 63 ≤ value ∧ value < 2 ^ 63 then some (.integer value) else none
  | .float text zero => some (if text = "nan" then .null else .real text zero)
  | .str text => if env.encodes text then some (.text text) else none
  | .arr _ | .obj _ => none

def Tokens.json (tokens : Tokens) : Json :=
  .obj [("input", .int tokens.input), ("output", .int tokens.output),
    ("cache_read", .int tokens.cacheRead), ("cache_creation", .int tokens.cacheCreation),
    ("total", .int tokens.total)]

def SpanEntry.json (span : SpanEntry) : Json :=
  .obj [("kind", .str "span_end"), ("span_id", span.spanId), ("parent_id", span.parentId),
    ("name", span.name), ("path", span.path), ("t_start_ms", span.tStartMs),
    ("t_end_ms", span.tEndMs), ("duration_ms", span.durationMs), ("status", span.status),
    ("meta", span.info)]

def Bottleneck.json (bottleneck : Bottleneck) : Json :=
  .obj [("name", .str bottleneck.name), ("duration_ms", .int bottleneck.durationMs),
    ("pct", .float bottleneck.percent false)]

/-- A rebuilt rollup as a dictionary. -/
def Rollup.json (rollup : Rollup) : Json :=
  .obj [("run_id", .str rollup.runId), ("parent_run_id", rollup.parentRunId),
    ("trigger", .str rollup.trigger), ("carbon_id", .str rollup.carbonId),
    ("room_id", .str rollup.roomId), ("message_ids", .arr (rollup.messageIds.map .str)),
    ("response_event_ids", .arr (rollup.responseEventIds.map .str)), ("meta", rollup.info),
    ("t_start_ms", .int rollup.tStartMs), ("t_end_ms", .int rollup.tEndMs),
    ("duration_ms", .int rollup.durationMs), ("rounds", .int rollup.rounds),
    ("tokens", rollup.tokens.json), ("cost_usd", floatJson env rollup.costUsd),
    ("provider_calls", .int rollup.providerCalls), ("workers_spawned", .int rollup.workersSpawned),
    ("bottlenecks", .arr (rollup.bottlenecks.map Bottleneck.json)),
    ("spans", .arr (rollup.spans.map SpanEntry.json)), ("events", .arr rollup.events),
    ("status", .str rollup.status), ("schema", .str rollup.format),
    ("version", .int rollup.version)]

/-- `json.dumps(rollup.get(key, default))`. -/
def dumpsOf (rollup : Json) (key : String) (default : Json) : Json :=
  .str (env.py.dumps (rollup.getOr key default))

/-- The parameters of the row of a rollup. -/
def rowValues (rollup : Json) (nowMs : ℤ) : List Json :=
  let tokens := (rollup.get "tokens").orEmpty
  [rollup.get "run_id", rollup.get "parent_run_id", rollup.get "trigger", rollup.get "carbon_id",
    rollup.get "room_id", dumpsOf env rollup "message_ids" (.arr []),
    dumpsOf env rollup "response_event_ids" (.arr []), dumpsOf env rollup "meta" (.obj []),
    rollup.get "t_start_ms", rollup.get "t_end_ms", rollup.get "duration_ms", rollup.get "rounds",
    tokens.getOr "input" (.int 0), tokens.getOr "output" (.int 0),
    tokens.getOr "cache_read" (.int 0), tokens.getOr "cache_creation" (.int 0),
    tokens.getOr "total" (.int 0), rollup.getOr "cost_usd" (.int 0),
    rollup.getOr "provider_calls" (.int 0), rollup.getOr "workers_spawned" (.int 0),
    dumpsOf env rollup "bottlenecks" (.arr []), dumpsOf env rollup "spans" (.arr []),
    dumpsOf env rollup "events" (.arr []), rollup.getOr "status" (.str "error"),
    rollup.getOr "schema" (.str "silicon.diag"), rollup.getOr "version" (.int 2), .int nowMs]

end Rows

/-- What SQLite does with run ids: a number in a text column, and bytes as Python prints them. -/
structure RunsEnv extends TraceEnv where
  realText : String → String
  bytesText : List UInt8 → String

/-- A row of the table: its run id, and what was bound to its columns. -/
structure RunRow where
  runId : Cell
  values : List Cell
deriving DecidableEq

section Table

variable (env : RunsEnv)

/-- What a text column stores. -/
def storedText : Cell → Cell
  | .integer value => .text (toString value)
  | .real numeral _ => .text (env.realText numeral)
  | cell => cell

/-- `str(row[0])`. -/
def cellText : Cell → String
  | .null => "None"
  | .integer value => toString value
  | .real numeral _ => numeral
  | .text value => value
  | .blob bytes => env.bytesText bytes

/-- The row of a rollup, unless a value cannot be bound. -/
def rowOf (rollup : Json) (nowMs : ℤ) : Option RunRow := do
  let values ← (rowValues env.toTraceEnv rollup nowMs).mapM (bindValue env.toTraceEnv)
  let runId ← bindValue env.toTraceEnv (rollup.get "run_id")
  return ⟨storedText env runId, values⟩

/-- `INSERT OR IGNORE`: no two rows have the same run id, unless it is null. -/
def insertOrIgnore (rows : List RunRow) (row : RunRow) : List RunRow :=
  if row.runId ≠ .null ∧ row.runId ∈ rows.map RunRow.runId then rows else rows ++ [row]

/-- The run ids that a call finds in the table. -/
def existingRuns (rows : List RunRow) : List DictKey :=
  rows.map fun row => .text (cellText env row.runId)

end Table

/-! ## Calls -/

/-- A trace file.  Without contents it cannot be opened. -/
structure TraceFile where
  modified : ℤ
  contents : Option ByteArray

/-- The arguments of a call, with the time it reads. -/
structure RecoverCall where
  nowMs : ℤ
  graceMs : ℤ
  serviceRunning : Bool
  currentPid : Option ℤ

/-- What a file comes to, whatever the table has. -/
inductive Finding
  | raises
  | nothing
  | run (runId : Json) (key : DictKey) (rollup : Json) (wasClosed : Bool)

/-- The state of a call: the table in its transaction, and the runs it knows. -/
structure Recovery where
  rows : List RunRow
  existing : List DictKey
  recovered : ℕ

section Calls

variable (env : RunsEnv) (call : RecoverCall)

/-- The run id of a rollup as a key of `existing`. -/
def findRun (rollup : Json) (wasClosed : Bool) : Finding :=
  if !rollup.truthy then .nothing
  else
    match rollup.field? "run_id" with
    | none => .raises
    | some runId =>
        match dictKey env.toTraceEnv runId with
        | none => .raises
        | some key => .run runId key rollup wasClosed

def findTrace (file : TraceFile) : Finding :=
  if call.nowMs - file.modified < max 0 call.graceMs then .nothing
  else
    match partialRollup env.toTraceEnv file.contents call.nowMs file.modified with
    | .raises => .raises
    | .nothing => .nothing
    | .closed rollup => findRun env rollup true
    | .rebuilt rollup => findRun env (rollup.json env.toTraceEnv) false

/-- The process of a run, `None` if it has none, unless the data of the run are no dictionary. -/
def sourcePid (rollup : Json) : Option Json :=
  let info := rollup.getOr "meta" (.obj [])
  if info.isObj then
    let runtime := info.getOr "runtime" (.obj [])
    some (if runtime.isObj then runtime.get "process_id" else .null)
  else none

/-- The process that wrote the trace is the running one, unless its id is no number. -/
def sameLiveProcess (pid : Json) : Option Bool :=
  match call.currentPid with
  | some current =>
      if call.serviceRunning && pid.truthy && decide (current ≠ 0) then
        (intOf env.toTraceEnv pid).map fun source => decide (source = current)
      else some false
  | none => some false

/-- What becomes of a run without a row. -/
inductive Storing
  | raises
  | live
  | store (row : RunRow)

def storeRun (rollup : Json) (wasClosed : Bool) : Storing :=
  match sourcePid rollup with
  | none => .raises
  | some pid =>
      match sameLiveProcess env call pid with
      | none => .raises
      | some live =>
          if !wasClosed && (live || (call.serviceRunning && !pid.truthy)) then .live
          else
            match rowOf env rollup call.nowMs with
            | none => .raises
            | some row => .store row

/-- One file of the loop, unless it raises. -/
def recoverTrace (s : Recovery) (file : TraceFile) : Option Recovery :=
  match findTrace env call file with
  | .raises => none
  | .nothing => some s
  | .run _ key rollup wasClosed =>
      if key ∈ s.existing then some s
      else
        match storeRun env call rollup wasClosed with
        | .raises => none
        | .live => some s
        | .store row =>
            some
              { rows := insertOrIgnore s.rows row
                existing := s.existing ++ [key]
                recovered := s.recovered + 1 }

/-- The loop, in the order of the directory, and whether it comes to its end. -/
def recoverTraces (s : Recovery) : List TraceFile → Recovery × Bool
  | [] => (s, true)
  | file :: rest =>
      match recoverTrace env call s file with
      | none => (s, false)
      | some s => recoverTraces s rest

/-- `recover_abandoned_traces`: the table as it is committed, and the number that is returned. -/
def recoverAbandonedTraces (rows : List RunRow) (files : List TraceFile) : List RunRow × ℕ :=
  let result := recoverTraces env call ⟨rows, existingRuns env rows, 0⟩ files
  (if result.2 then result.1.rows else rows, result.1.recovered)

end Calls

/-! ## What a call stores -/

section Stores

variable (env : RunsEnv) (call : RecoverCall)

/-- The table has a row of the run, under a run id that is the same key. -/
def HasRun (rows : List RunRow) (key : DictKey) : Prop :=
  ∃ runId cell, dictKey env.toTraceEnv runId = some key ∧
    bindValue env.toTraceEnv runId = some cell ∧ storedText env cell ∈ rows.map RunRow.runId

/-- The table has a row for the run of the file. -/
def HasRow (rows : List RunRow) (file : TraceFile) : Prop :=
  ∃ runId key rollup wasClosed, findTrace env call file = .run runId key rollup wasClosed ∧
    HasRun env rows key

/-- The file yields a rollup of the run that can be stored. -/
def Stores (file : TraceFile) (key : DictKey) : Prop :=
  ∃ runId rollup wasClosed row, findTrace env call file = .run runId key rollup wasClosed ∧
    storeRun env call rollup wasClosed = .store row

/-- The run needs no row: the table has its id, or an earlier file stored it. -/
def Settled (rows : List RunRow) (before : List TraceFile) (key : DictKey) : Prop :=
  key ∈ existingRuns env rows ∨ ∃ file ∈ before, Stores env call file key

/-- The file raises behind these files. -/
def Stops (rows : List RunRow) (before : List TraceFile) (file : TraceFile) : Prop :=
  findTrace env call file = .raises ∨
    ∃ runId key rollup wasClosed, findTrace env call file = .run runId key rollup wasClosed ∧
      storeRun env call rollup wasClosed = .raises ∧ ¬ Settled env call rows before key

/-- Alone, the file would bring a row of a new run. -/
def IsMissing (rows : List RunRow) (file : TraceFile) : Prop :=
  ∃ key, Stores env call file key ∧ key ∉ existingRuns env rows ∧ ¬ HasRun env rows key

end Stores

section Steps

variable {env : RunsEnv} {call : RecoverCall}

/-- What a file does behind others: it raises, changes nothing, or stores its run. -/
theorem recoverTrace_cases (env : RunsEnv) (call : RecoverCall) (s : Recovery) (file : TraceFile) :
    (recoverTrace env call s file = none ∧
      (findTrace env call file = .raises ∨
        ∃ runId key rollup wasClosed, findTrace env call file = .run runId key rollup wasClosed ∧
          storeRun env call rollup wasClosed = .raises ∧ key ∉ s.existing)) ∨
    (recoverTrace env call s file = some s ∧ findTrace env call file ≠ .raises ∧
      ∀ runId key rollup wasClosed, findTrace env call file = .run runId key rollup wasClosed →
        key ∈ s.existing ∨ storeRun env call rollup wasClosed = .live) ∨
    ∃ runId key rollup wasClosed row, findTrace env call file = .run runId key rollup wasClosed ∧
      storeRun env call rollup wasClosed = .store row ∧ key ∉ s.existing ∧
      recoverTrace env call s file =
        some ⟨insertOrIgnore s.rows row, s.existing ++ [key], s.recovered + 1⟩ := by
  unfold recoverTrace
  cases hfind : findTrace env call file with
  | raises =>
      left
      simp
  | nothing =>
      right
      left
      simp
  | run runId key rollup wasClosed =>
      by_cases hknown : key ∈ s.existing
      · right
        left
        simp only [if_pos hknown]
        refine ⟨trivial, by simp, ?_⟩
        intro runId' key' rollup' wasClosed' heq
        cases heq
        exact .inl hknown
      · simp only [if_neg hknown]
        cases hstore : storeRun env call rollup wasClosed with
        | raises =>
            left
            exact ⟨rfl, .inr ⟨runId, key, rollup, wasClosed, rfl, hstore, hknown⟩⟩
        | live =>
            right
            left
            refine ⟨rfl, by simp, ?_⟩
            intro runId' key' rollup' wasClosed' heq
            cases heq
            exact .inr hstore
        | store row =>
            right
            right
            exact ⟨runId, key, rollup, wasClosed, row, rfl, hstore, hknown, rfl⟩

theorem mem_insertOrIgnore {rows : List RunRow} {row old : RunRow} (h : old ∈ rows) :
    old ∈ insertOrIgnore rows row := by
  unfold insertOrIgnore
  split
  · exact h
  · exact List.mem_append_left _ h

/-- After an insertion the table has the run id, whether or not it had it before. -/
theorem runId_mem_insertOrIgnore (rows : List RunRow) (row : RunRow) :
    row.runId ∈ (insertOrIgnore rows row).map RunRow.runId := by
  unfold insertOrIgnore
  split
  · next h => exact h.2
  · simp

theorem HasRun.mono {rows rows' : List RunRow} {key : DictKey} (h : HasRun env rows key)
    (hsub : ∀ row ∈ rows, row ∈ rows') : HasRun env rows' key := by
  rcases h with ⟨runId, cell, hkey, hbind, hmem⟩
  rcases List.mem_map.mp hmem with ⟨row, hrow, hid⟩
  exact ⟨runId, cell, hkey, hbind, List.mem_map.mpr ⟨row, hsub row hrow, hid⟩⟩

theorem get_of_field? {value item : Json} {key : String} (h : value.field? key = some item) :
    value.get key = item := by
  unfold Interface.Json.field? at h
  unfold Interface.Json.get
  cases value with
  | obj fields =>
      dsimp only at h ⊢
      cases hfind : fields.find? fun field => field.1 = key with
      | none => simp [hfind] at h
      | some field =>
          rw [hfind, Option.map_some, Option.some.injEq] at h
          exact h
  | _ => simp at h

theorem findRun_run {rollup rollup' runId : Json} {key : DictKey} {wasClosed wasClosed' : Bool}
    (h : findRun env rollup wasClosed = .run runId key rollup' wasClosed') :
    rollup'.get "run_id" = runId ∧ dictKey env.toTraceEnv runId = some key := by
  unfold findRun at h
  by_cases hempty : (!rollup.truthy) = true
  · rw [if_pos hempty] at h
    cases h
  · rw [if_neg hempty] at h
    cases hfield : rollup.field? "run_id" with
    | none => simp [hfield] at h
    | some value =>
        cases hkey : dictKey env.toTraceEnv value with
        | none => simp [hfield, hkey] at h
        | some found =>
            simp only [hfield, hkey, Finding.run.injEq] at h
            rcases h with ⟨rfl, rfl, rfl, rfl⟩
            exact ⟨get_of_field? hfield, hkey⟩

theorem findTrace_run {file : TraceFile} {runId rollup : Json} {key : DictKey} {wasClosed : Bool}
    (h : findTrace env call file = .run runId key rollup wasClosed) :
    rollup.get "run_id" = runId ∧ dictKey env.toTraceEnv runId = some key := by
  unfold findTrace at h
  by_cases hyoung : call.nowMs - file.modified < max 0 call.graceMs
  · rw [if_pos hyoung] at h
    cases h
  · rw [if_neg hyoung] at h
    cases hrebuilt : partialRollup env.toTraceEnv file.contents call.nowMs file.modified with
    | raises => simp [hrebuilt] at h
    | nothing => simp [hrebuilt] at h
    | closed found =>
        rw [hrebuilt] at h
        exact findRun_run h
    | rebuilt found =>
        rw [hrebuilt] at h
        exact findRun_run h

theorem storeRun_store {rollup : Json} {wasClosed : Bool} {row : RunRow}
    (h : storeRun env call rollup wasClosed = .store row) :
    rowOf env rollup call.nowMs = some row := by
  unfold storeRun at h
  cases hpid : sourcePid rollup with
  | none => simp [hpid] at h
  | some pid =>
      cases hlive : sameLiveProcess env call pid with
      | none => simp [hpid, hlive] at h
      | some live =>
          simp only [hpid, hlive] at h
          split at h
          · cases h
          · cases hrow : rowOf env rollup call.nowMs with
            | none => simp [hrow] at h
            | some found =>
                rw [hrow] at h
                cases h
                rfl

/-- The run of a file that is stored has a row afterwards. -/
theorem hasRun_insertOrIgnore {file : TraceFile} {runId rollup : Json} {key : DictKey}
    {wasClosed : Bool} {row : RunRow}
    (hfind : findTrace env call file = .run runId key rollup wasClosed)
    (hstore : storeRun env call rollup wasClosed = .store row) (rows : List RunRow) :
    HasRun env (insertOrIgnore rows row) key := by
  rcases findTrace_run hfind with ⟨hget, hkey⟩
  have hrow := storeRun_store hstore
  unfold rowOf at hrow
  simp only [Option.bind_eq_bind, Option.bind_eq_some_iff, Option.pure_def,
    Option.some.injEq] at hrow
  rcases hrow with ⟨values, _, cell, hcell, rfl⟩
  rw [hget] at hcell
  exact ⟨runId, cell, hkey, hcell, runId_mem_insertOrIgnore rows _⟩

end Steps

/-! ## Runs of the loop -/

section Law

variable {env : RunsEnv} {call : RecoverCall}

/-- What holds of a call that began with these rows and has passed over these files. -/
structure Recovering (env : RunsEnv) (call : RecoverCall) (rows : List RunRow)
    (before : List TraceFile) (s : Recovery) : Prop where
  kept : ∀ row ∈ rows, row ∈ s.rows
  known : ∀ key, key ∈ s.existing ↔ Settled env call rows before key
  covered : ∀ key ∈ s.existing, key ∈ existingRuns env rows ∨ HasRun env s.rows key

theorem Recovering.init (rows : List RunRow) :
    Recovering env call rows [] ⟨rows, existingRuns env rows, 0⟩ := by
  constructor
  · intro row hrow
    exact hrow
  · intro key
    simp [Settled]
  · intro key hkey
    exact .inl hkey

theorem settled_append {rows : List RunRow} {before : List TraceFile} {file : TraceFile}
    {key : DictKey} :
    Settled env call rows (before ++ [file]) key ↔
      Settled env call rows before key ∨ Stores env call file key := by
  unfold Settled
  simp only [List.mem_append, List.mem_singleton, or_and_right, exists_or, exists_eq_left, or_assoc]

/-- A file raises exactly if it stops the call here. -/
theorem Recovering.raises_iff {rows : List RunRow} {before : List TraceFile} {s : Recovery}
    (h : Recovering env call rows before s) (file : TraceFile) :
    recoverTrace env call s file = none ↔ Stops env call rows before file := by
  constructor
  · intro hnone
    rcases recoverTrace_cases env call s file with
      ⟨_, hraises⟩ | ⟨hsome, _⟩ | ⟨runId, key, rollup, wasClosed, row, _, _, _, hsome⟩
    · rcases hraises with hfind | ⟨runId, key, rollup, wasClosed, hfind, hstore, hkey⟩
      · exact .inl hfind
      · exact .inr ⟨runId, key, rollup, wasClosed, hfind, hstore, fun hs => hkey ((h.known key).mpr hs)⟩
    · rw [hsome] at hnone
      cases hnone
    · rw [hsome] at hnone
      cases hnone
  · intro hstops
    unfold recoverTrace
    rcases hstops with hfind | ⟨runId, key, rollup, wasClosed, hfind, hstore, hkey⟩
    · simp only [hfind]
    · have hnew : key ∉ s.existing := fun hmem => hkey ((h.known key).mp hmem)
      simp only [hfind, if_neg hnew, hstore]

theorem Recovering.step {rows : List RunRow} {before : List TraceFile} {s s' : Recovery}
    {file : TraceFile} (h : Recovering env call rows before s)
    (hstep : recoverTrace env call s file = some s') :
    Recovering env call rows (before ++ [file]) s' := by
  rcases recoverTrace_cases env call s file with
    ⟨hnone, _⟩ | ⟨hsame, _, hold⟩ | ⟨runId, key, rollup, wasClosed, row, hfind, hstore, hnew, hrow⟩
  · rw [hnone] at hstep
    cases hstep
  · rw [hsame] at hstep
    cases hstep
    refine ⟨h.kept, ?_, h.covered⟩
    intro other
    rw [settled_append, ← h.known other]
    constructor
    · exact Or.inl
    · rintro (hmem | ⟨runId, rollup, wasClosed, row, hfind, hstore⟩)
      · exact hmem
      · rcases hold runId other rollup wasClosed hfind with hmem | hlive
        · exact hmem
        · rw [hlive] at hstore
          cases hstore
  · rw [hrow] at hstep
    cases hstep
    constructor
    · intro old hold
      exact mem_insertOrIgnore (h.kept old hold)
    · intro other
      rw [settled_append, ← h.known other, List.mem_append, List.mem_singleton]
      apply or_congr_right
      constructor
      · rintro rfl
        exact ⟨runId, rollup, wasClosed, row, hfind, hstore⟩
      · rintro ⟨runId', rollup', wasClosed', row', hfind', _⟩
        rw [hfind] at hfind'
        cases hfind'
        rfl
    · intro other hmem
      rcases List.mem_append.mp hmem with hold | hkey
      · rcases h.covered other hold with hfirst | hhas
        · exact .inl hfirst
        · exact .inr (hhas.mono fun old hold => mem_insertOrIgnore hold)
      · rw [List.mem_singleton.mp hkey]
        exact .inr (hasRun_insertOrIgnore hfind hstore s.rows)

/-- A call comes to its end exactly if no file stops it, and then it has passed over all files. -/
theorem Recovering.run {rows : List RunRow} {before : List TraceFile} {s : Recovery}
    (h : Recovering env call rows before s) (files : List TraceFile) :
    ((recoverTraces env call s files).2 = true ↔
      ∀ fs file gs, files = fs ++ file :: gs → ¬ Stops env call rows (before ++ fs) file) ∧
    ((recoverTraces env call s files).2 = true →
      Recovering env call rows (before ++ files) (recoverTraces env call s files).1) := by
  induction files generalizing before s with
  | nil => simpa [recoverTraces] using h
  | cons file rest ih =>
      cases hstep : recoverTrace env call s file with
      | none =>
          have hstops := (h.raises_iff file).mp hstep
          simp only [recoverTraces, hstep, Bool.false_eq_true, false_iff, IsEmpty.forall_iff, and_true,
            not_forall, not_not]
          refine ⟨[], file, rest, rfl, ?_⟩
          rw [List.append_nil]
          exact hstops
      | some next =>
          have hgoes : ¬ Stops env call rows before file := by
            rw [← h.raises_iff file, hstep]
            simp
          rcases ih (h.step hstep) with ⟨hcompletes, hrest⟩
          simp only [recoverTraces, hstep]
          rw [List.append_assoc, List.singleton_append] at hrest
          refine ⟨hcompletes.trans ?_, hrest⟩
          constructor
          · intro hall fs other gs heq
            cases fs with
            | nil =>
                cases heq
                rwa [List.append_nil]
            | cons first fs =>
                cases heq
                have hother := hall fs other gs rfl
                rwa [List.append_assoc, List.singleton_append] at hother
          · intro hall fs other gs heq
            rw [List.append_assoc, List.singleton_append]
            exact hall (file :: fs) other gs (by rw [heq, List.cons_append])

theorem completes_iff (rows : List RunRow) (files : List TraceFile) :
    (recoverTraces env call ⟨rows, existingRuns env rows, 0⟩ files).2 = true ↔
      ∀ before file after, files = before ++ file :: after → ¬ Stops env call rows before file :=
  ((Recovering.init rows).run files).1

/-- A call that comes to its end leaves a row for every run that a file of it stores. -/
theorem hasRun_of_completes {rows : List RunRow} {files : List TraceFile}
    (hend : (recoverTraces env call ⟨rows, existingRuns env rows, 0⟩ files).2 = true)
    {file : TraceFile} (hmem : file ∈ files) {key : DictKey} (hstores : Stores env call file key) :
    key ∈ existingRuns env rows ∨ HasRun env (recoverAbandonedTraces env call rows files).1 key := by
  have hall := ((Recovering.init rows).run files).2 hend
  rw [List.nil_append] at hall
  have hkey := (hall.known key).mpr (.inr ⟨file, hmem, hstores⟩)
  unfold recoverAbandonedTraces
  dsimp only
  rw [if_pos hend]
  exact hall.covered key hkey

/-- No call loses a row. -/
theorem mem_recoverAbandonedTraces {rows : List RunRow} (files : List TraceFile) {row : RunRow}
    (h : row ∈ rows) : row ∈ (recoverAbandonedTraces env call rows files).1 := by
  unfold recoverAbandonedTraces
  dsimp only
  by_cases hend : (recoverTraces env call ⟨rows, existingRuns env rows, 0⟩ files).2 = true
  · rw [if_pos hend]
    exact (((Recovering.init rows).run files).2 hend).kept row h
  · rw [if_neg hend]
    exact h

/-- Alone, a file has a row afterwards if it had one, or if it brings it. -/
theorem hasRow_alone_iff (rows : List RunRow) (file : TraceFile) :
    HasRow env call (recoverAbandonedTraces env call rows [file]).1 file ↔
      HasRow env call rows file ∨ IsMissing env call rows file := by
  have hfirst := recoverTrace_cases env call
    ⟨rows, existingRuns env rows, 0⟩ file
  unfold recoverAbandonedTraces
  rcases hfirst with ⟨hnone, hraises⟩ | ⟨hsame, _, hold⟩ |
    ⟨runId, key, rollup, wasClosed, row, hfind, hstore, hnew, hrow⟩
  · have hrows : ¬ IsMissing env call rows file := by
      rintro ⟨key, ⟨runId, rollup, wasClosed, row, hfind, hstore⟩, _⟩
      rcases hraises with hraises | ⟨_, _, _, _, hfind', hraises, _⟩
      · rw [hraises] at hfind
        cases hfind
      · rw [hfind] at hfind'
        cases hfind'
        rw [hstore] at hraises
        cases hraises
    simp [recoverTraces, hnone, hrows]
  · have hrows : ¬ IsMissing env call rows file := by
      rintro ⟨key, ⟨runId, rollup, wasClosed, row, hfind, hstore⟩, hnew, _⟩
      rcases hold runId key rollup wasClosed hfind with hmem | hlive
      · exact hnew hmem
      · rw [hlive] at hstore
        cases hstore
    simp [recoverTraces, hsame, hrows]
  · have hstores : Stores env call file key := ⟨runId, rollup, wasClosed, row, hfind, hstore⟩
    simp only [recoverTraces, hrow, if_true]
    constructor
    · intro _
      by_cases hhas : HasRun env rows key
      · exact .inl ⟨runId, key, rollup, wasClosed, hfind, hhas⟩
      · exact .inr ⟨key, hstores, hnew, hhas⟩
    · intro _
      exact ⟨runId, key, rollup, wasClosed, hfind, hasRun_insertOrIgnore hfind hstore rows⟩

theorem HasRow.mono {rows rows' : List RunRow} {file : TraceFile} (h : HasRow env call rows file)
    (hsub : ∀ row ∈ rows, row ∈ rows') : HasRow env call rows' file := by
  rcases h with ⟨runId, key, rollup, wasClosed, hfind, hhas⟩
  exact ⟨runId, key, rollup, wasClosed, hfind, hhas.mono hsub⟩

/-- Every file that alone would have a row after the call has one after the call on all files,
exactly if no file stops the call, or none of them is missing a row. -/
theorem recovery_law_iff (env : RunsEnv) (call : RecoverCall) (rows : List RunRow)
    (files : List TraceFile) :
    (∀ file ∈ files, HasRow env call (recoverAbandonedTraces env call rows [file]).1 file →
      HasRow env call (recoverAbandonedTraces env call rows files).1 file) ↔
    (∀ before file after, files = before ++ file :: after → ¬ Stops env call rows before file) ∨
      ∀ file ∈ files, ¬ IsMissing env call rows file := by
  rw [← completes_iff]
  by_cases hend : (recoverTraces env call ⟨rows, existingRuns env rows, 0⟩ files).2 = true
  · simp only [hend, true_or, iff_true]
    intro file hmem halone
    rcases (hasRow_alone_iff rows file).mp halone with hhas | ⟨key, hstores, hnew, _⟩
    · exact hhas.mono fun row hrow => mem_recoverAbandonedTraces files hrow
    · rcases hasRun_of_completes hend hmem hstores with hold | hhas
      · exact absurd hold hnew
      · rcases hstores with ⟨runId, rollup, wasClosed, row, hfind, _⟩
        exact ⟨runId, key, rollup, wasClosed, hfind, hhas⟩
  · have hrows : (recoverAbandonedTraces env call rows files).1 = rows := by
      unfold recoverAbandonedTraces
      dsimp only
      rw [if_neg hend]
    rw [hrows]
    simp only [hend, Bool.false_eq_true, false_or]
    apply forall_congr'
    intro file
    apply forall_congr'
    intro _
    rw [hasRow_alone_iff]
    constructor
    · intro h hmissing
      rcases h (.inr hmissing) with ⟨runId, key, rollup, wasClosed, hfind, hhas⟩
      rcases hmissing with ⟨key', ⟨runId', rollup', wasClosed', row, hfind', _⟩, _, hno⟩
      rw [hfind] at hfind'
      cases hfind'
      exact hno hhas
    · intro h halone
      rcases halone with hhas | hmissing
      · exact hhas
      · exact absurd hmissing h

/-! ### A bad file beside a good one -/

/-- A Python that knows two lines. -/
def twoLines : RunsEnv where
  py :=
    { loads _ := none
      dumps _ := ""
      repr _ := ""
      lower := id
      basename := id
      sha256 _ := String.ofList (List.replicate 64 '0')
      sha256_length _ := by simp
      sha256_hex _ := by
        intro c hc
        rw [String.toList_ofList, List.mem_replicate] at hc
        rw [hc.2]
        decide }
  loads line :=
    if line = "\x7b\"kind\":\"run_start\",\"t_start_ms\":\"x\"\x7d\n".toList then
      .value (.obj [("kind", .str "run_start"), ("t_start_ms", .str "x")])
    else if line = "\x7b\"kind\":\"run_start\",\"run_id\":\"r-1\",\"t_start_ms\":1\x7d\n".toList then
      .value (.obj [("kind", .str "run_start"), ("run_id", .str "r-1"), ("t_start_ms", .int 1)])
    else .malformed
  intText _ := none
  intFloat _ := none
  floatText _ := none
  floatValue _ := none
  numeral _ := "0.0"
  percent _ _ := "0.0"
  encodes _ := true
  realText := id
  bytesText _ := ""

/-- A start whose time is no number. -/
def badTrace : TraceFile where
  modified := 0
  contents := some "\x7b\"kind\":\"run_start\",\"t_start_ms\":\"x\"\x7d\n".toByteArray

/-- The start of a run whose process is gone. -/
def goodTrace : TraceFile where
  modified := 0
  contents := some "\x7b\"kind\":\"run_start\",\"run_id\":\"r-1\",\"t_start_ms\":1\x7d\n".toByteArray

/-- A call after a restart. -/
def lateCall : RecoverCall where
  nowMs := 100000
  graceMs := 30000
  serviceRunning := false
  currentPid := none

theorem readLines_toByteArray (text : String) :
    readLines text.toByteArray = some (fileLines (universal text.toList)) := by
  unfold readLines String.fromUTF8?
  rw [dif_pos text.isValidUTF8]
  rfl

theorem findTrace_badTrace : findTrace twoLines lateCall badTrace = .raises := by
  have hlines : fileLines (universal
      "\x7b\"kind\":\"run_start\",\"t_start_ms\":\"x\"\x7d\n".toList) =
      ["\x7b\"kind\":\"run_start\",\"t_start_ms\":\"x\"\x7d\n".toList] := by
    decide +kernel
  unfold findTrace partialRollup badTrace
  dsimp only
  rw [readLines_toByteArray, hlines]
  rfl

/-- The good file is stored. -/
theorem stores_goodTrace : Stores twoLines lateCall goodTrace (.text "r-1") := by
  have hlines : fileLines (universal
      "\x7b\"kind\":\"run_start\",\"run_id\":\"r-1\",\"t_start_ms\":1\x7d\n".toList) =
      ["\x7b\"kind\":\"run_start\",\"run_id\":\"r-1\",\"t_start_ms\":1\x7d\n".toList] := by
    decide +kernel
  have hstep : (recoverTrace twoLines lateCall ⟨[], [], 0⟩ goodTrace).map Recovery.existing =
      some [.text "r-1"] := by
    unfold recoverTrace findTrace partialRollup goodTrace
    dsimp only
    rw [readLines_toByteArray, hlines]
    decide +kernel
  rcases recoverTrace_cases twoLines lateCall ⟨[], [], 0⟩ goodTrace with
    ⟨hnone, _⟩ | ⟨hsame, _⟩ | ⟨runId, key, rollup, wasClosed, row, hfind, hstore, _, hnext⟩
  · rw [hnone] at hstep
    cases hstep
  · rw [hsame] at hstep
    cases hstep
  · rw [hnext] at hstep
    cases hstep
    exact ⟨runId, rollup, wasClosed, row, hfind, hstore⟩

/-- Beside the bad file the good one is not recovered, and alone it is. -/
theorem one_bad_trace :
    ¬ ∀ file ∈ [badTrace, goodTrace],
      HasRow twoLines lateCall (recoverAbandonedTraces twoLines lateCall [] [file]).1 file →
        HasRow twoLines lateCall
          (recoverAbandonedTraces twoLines lateCall [] [badTrace, goodTrace]).1 file := by
  intro h
  have hempty : ∀ key, ¬ HasRun twoLines [] key := by
    rintro key ⟨_, _, _, _, hmem⟩
    cases hmem
  have halone : HasRow twoLines lateCall
      (recoverAbandonedTraces twoLines lateCall [] [goodTrace]).1 goodTrace := by
    rw [hasRow_alone_iff]
    exact .inr ⟨.text "r-1", stores_goodTrace, List.not_mem_nil, hempty _⟩
  have hrows : (recoverAbandonedTraces twoLines lateCall [] [badTrace, goodTrace]).1 = [] := by
    unfold recoverAbandonedTraces recoverTraces recoverTrace
    rw [findTrace_badTrace]
    rfl
  have hboth := h goodTrace (by simp) halone
  rw [hrows] at hboth
  rcases hboth with ⟨_, key, _, _, _, hhas⟩
  exact hempty key hhas

end Law

end Diagnostics
end Stemcell
