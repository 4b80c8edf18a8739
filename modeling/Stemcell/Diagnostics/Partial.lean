import Stemcell.Interface.Json
import Stemcell.Lib.Dict
import Stemcell.Lib.FileLines
import Mathlib.Algebra.Order.Ring.Unbundled.Rat
import Mathlib.Algebra.Ring.Rat
import Mathlib.Data.List.Sort

/-!
# Rebuilding a rollup from a trace file

A trace is a file of JSON lines: the start of the run, the spans as they begin and end, events, and
the rollup once the run is closed.  When there is no rollup, one is rebuilt from the other lines.
Lines that are not JSON are passed over; any other failure stops the rebuilding.

Main results:

- Definition `partialRollup`: what a file yields.

Current gaps:

- Costs are exact numbers; infinite ones are left out.
- A file that cannot be read to its end is left out.
-/

namespace Stemcell
namespace Interface
namespace Json

/-- The value under a key of a dictionary. -/
def field? (value : Json) (key : String) : Option Json :=
  match value with
  | obj fields => (fields.find? fun field => field.1 = key).map Prod.snd
  | _ => none

/-- `value.get(key, default)` on a dictionary. -/
def getOr (value : Json) (key : String) (default : Json) : Json :=
  (value.field? key).getD default

/-- `value` if it is a dictionary, else an empty one. -/
def orEmpty (value : Json) : Json :=
  if value.isObj then value else obj []

/-- `value == text`. -/
def isText (value : Json) (text : String) : Bool :=
  match value with
  | str other => decide (other = text)
  | _ => false

/-- `value in (None, "")`. -/
def isBlank : Json → Bool
  | null | str "" => true
  | _ => false

end Json
end Interface

namespace Diagnostics

open Interface (Json Python)
open Lib (Dict fileLines universal)

/-! ## Python's numbers and texts -/

/-- What `json.loads` does with a line: a value, a `JSONDecodeError`, or something else that it
raises. -/
inductive Loads
  | value (item : Json)
  | malformed
  | raises

/-- What the source takes from Python and SQLite: `json.loads`, `int` and `float` on texts and
numerals, and how numbers are printed.  A text with half a pair of code units does not `encode`. -/
structure TraceEnv where
  py : Python
  loads : List Char → Loads
  intText : String → Option ℤ
  intFloat : String → Option ℤ
  floatText : String → Option ℚ
  floatValue : String → Option ℚ
  numeral : ℚ → String
  percent : ℤ → ℤ → String
  encodes : String → Bool

section Values

variable (env : TraceEnv)

/-- `int(value)`, unless it raises. -/
def intOf : Json → Option ℤ
  | .bool value => some (if value then 1 else 0)
  | .int value => some value
  | .float text _ => env.intFloat text
  | .str text => env.intText text
  | _ => none

/-- `int(value or default)`, unless it raises. -/
def intOr (value : Json) (default : ℤ) : Option ℤ :=
  if value.truthy then intOf env value else some default

/-- `float(value or 0)`, unless it raises. -/
def costOf (value : Json) : Option ℚ :=
  if value.truthy then
    match value with
    | .bool _ => some 1
    | .int value => some value
    | .float text _ => env.floatValue text
    | .str text => env.floatText text
    | _ => none
  else some 0

/-- `str(value or default)`. -/
def textOr (value : Json) (default : String) : String :=
  env.py.text (value.orElse (.str default))

/-- `text[:n]`. -/
def upTo (n : ℕ) (text : String) : String :=
  String.ofList (text.toList.take n)

/-- `round(cost, 6)`, halves to even. -/
def roundCost (cost : ℚ) : ℚ :=
  let scaled := cost * 1000000
  let low := scaled.floor
  let rest := scaled - low
  let nearest := if rest < 1 / 2 ∨ rest = 1 / 2 ∧ low % 2 = 0 then low else low + 1
  nearest / 1000000

/-- A float as a value of JSON. -/
def floatJson (value : ℚ) : Json :=
  .float (env.numeral value) (decide (value = 0))

end Values

/-! ## Lines -/

/-- What iterating over a file finds, unless its bytes are not UTF-8. -/
def readLines (contents : ByteArray) : Option (List (List Char)) :=
  (String.fromUTF8? contents).map fun text => fileLines (universal text.toList)

/-! ## Reading -/

/-- A span as the rollup has it. -/
structure SpanEntry where
  spanId : Json
  parentId : Json
  name : Json
  path : Json
  tStartMs : Json
  tEndMs : Json
  durationMs : Json
  status : Json
  info : Json

/-- What has been read of a file. -/
structure Reading where
  start : Option Json
  closedRollup : Option Json
  spans : Dict String SpanEntry
  events : List Json
  observedMs : ℤ

def Reading.none : Reading where
  start := Option.none
  closedRollup := Option.none
  spans := Dict.empty
  events := []
  observedMs := 0

section Read

variable (env : TraceEnv)

/-- A span that has begun. -/
def startedSpan (item : Json) (startMs : ℤ) : SpanEntry where
  spanId := .str (env.py.text (item.get "span_id"))
  parentId := item.get "parent_id"
  name := .str (textOr env (item.get "name") "span")
  path := .str (textOr env ((item.get "path").orElse (item.get "name")) "span")
  tStartMs := .int startMs
  tEndMs := .null
  durationMs := .null
  status := .str "open"
  info := .obj []

/-- A span that has ended, as its line has it. -/
def endedSpan (item : Json) : SpanEntry where
  spanId := item.get "span_id"
  parentId := item.get "parent_id"
  name := item.get "name"
  path := item.get "path"
  tStartMs := item.get "t_start_ms"
  tEndMs := item.get "t_end_ms"
  durationMs := item.get "duration_ms"
  status := item.get "status"
  info := item.get "meta"

/-- An event without the kind of its line. -/
def eventOf : Json → Json
  | .obj fields => .obj (fields.filter fun field => field.1 ≠ "kind")
  | item => item

/-- One decoded line, unless it raises. -/
def readItem (r : Reading) (item : Json) : Option Reading :=
  let kind := item.get "kind"
  let spanId := item.get "span_id"
  if kind.isText "run_start" then
    (intOr env (item.get "t_start_ms") 0).map fun ms =>
      { r with start := some item, observedMs := max r.observedMs ms }
  else if kind.isText "span_start" && spanId.truthy then
    (intOr env (item.get "t_start_ms") 0).map fun ms =>
      { r with
        spans := r.spans.set (env.py.text spanId) (startedSpan env item ms)
        observedMs := max r.observedMs ms }
  else if kind.isText "span_end" && spanId.truthy then
    (intOr env (item.get "t_end_ms") 0).map fun ms =>
      { r with
        spans := r.spans.set (env.py.text spanId) (endedSpan item)
        observedMs := max r.observedMs ms }
  else if kind.isText "event" then
    (intOr env (item.get "t_ms") 0).map fun ms =>
      { r with events := r.events ++ [eventOf item], observedMs := max r.observedMs ms }
  else if kind.isText "run_close" && (item.get "rollup").isObj then
    some { r with closedRollup := some (item.get "rollup") }
  else some r

/-- One line, unless it raises. -/
def readLine (r : Reading) (line : List Char) : Option Reading :=
  match env.loads line with
  | .value item => if item.isObj then readItem env r item else some r
  | .malformed => some r
  | .raises => none

end Read

/-! ## Rebuilding -/

/-- The tokens of a rollup. -/
structure Tokens where
  input : ℤ
  output : ℤ
  cacheRead : ℤ
  cacheCreation : ℤ
deriving DecidableEq, Repr

def Tokens.total (tokens : Tokens) : ℤ :=
  tokens.input + tokens.output + tokens.cacheRead + tokens.cacheCreation

def Tokens.add (a b : Tokens) : Tokens where
  input := a.input + b.input
  output := a.output + b.output
  cacheRead := a.cacheRead + b.cacheRead
  cacheCreation := a.cacheCreation + b.cacheCreation

def Tokens.zero : Tokens :=
  ⟨0, 0, 0, 0⟩

/-- One of the slowest spans. -/
structure Bottleneck where
  name : String
  durationMs : ℤ
  percent : String

/-- A rollup that was rebuilt. -/
structure Rollup where
  runId : String
  parentRunId : Json
  trigger : String
  carbonId : String
  roomId : String
  messageIds : List String
  responseEventIds : List String
  info : Json
  tStartMs : ℤ
  tEndMs : ℤ
  durationMs : ℤ
  rounds : ℕ
  tokens : Tokens
  costUsd : ℚ
  providerCalls : ℕ
  workersSpawned : ℕ
  bottlenecks : List Bottleneck
  spans : List SpanEntry
  events : List Json
  status : String
  format : String
  version : ℤ

section Rebuild

variable (env : TraceEnv)

def SpanEntry.isOpen (span : SpanEntry) : Bool :=
  span.tEndMs.isBlank

/-- An open span ends where the trace ends. -/
def closeSpan (endMs : ℤ) (span : SpanEntry) : Option SpanEntry :=
  if span.isOpen then
    (intOr env span.tStartMs endMs).map fun startMs =>
      { span with
        tEndMs := .int endMs
        durationMs := .int (max 0 (endMs - startMs))
        status := .str "error"
        info := span.info.orEmpty.set "error" (.str "process terminated before span completed") }
  else some span

/-- `str(span.get("name") or "")`. -/
def SpanEntry.nameText (span : SpanEntry) : String :=
  textOr env span.name ""

def SpanEntry.isProviderCall (span : SpanEntry) : Bool :=
  decide (span.nameText env = "provider_call")

def SpanEntry.isRound (span : SpanEntry) : Bool :=
  (span.nameText env).startsWith "round["

/-- One kind of tokens in the usage of a span; what cannot be read counts for nothing. -/
def usageOf (usage : Json) (key : String) : ℤ :=
  match intOr env (usage.get key) 0 with
  | some count => max 0 count
  | none => 0

def SpanEntry.tokens (span : SpanEntry) : Tokens :=
  let usage := (span.info.orEmpty.get "tokens").orEmpty
  { input := usageOf env usage "input"
    output := usageOf env usage "output"
    cacheRead := usageOf env usage "cache_read"
    cacheCreation := usageOf env usage "cache_creation" }

def SpanEntry.cost (span : SpanEntry) : ℚ :=
  match costOf env (span.info.orEmpty.get "cost_usd") with
  | some cost => max 0 cost
  | none => 0

/-- The response that an event stands for. -/
def responseOf (event : Json) : Option String :=
  let info := (event.get "meta").orEmpty
  if (event.get "name").isText "message.egress" && (info.get "event_id").truthy then
    some (upTo 64 (env.py.text (info.get "event_id")))
  else none

/-- The message ids of a start, unless they cannot be iterated over. -/
def startMessages (start : Json) : Option (List String) :=
  let values : Option (List Json) := match start.getOr "message_ids" (.arr []) with
    | .arr items => some items
    | .str text => some (text.toList.map fun c => .str (String.singleton c))
    | .obj fields => some (fields.map fun field => .str field.1)
    | _ => none
  values.map fun items =>
    (items.filter Json.truthy).map fun value => upTo 64 (env.py.text value)

/-- The quotient of two integers is too large for a float. -/
def quotientOverflows (a b : ℤ) : Bool :=
  decide ((2 ^ 1024 - 2 ^ 970) * |b| ≤ |a|)

/-- The five slowest spans, unless a duration cannot be read. -/
def bottlenecksOf (totalMs : ℤ) (spans : List SpanEntry) : Option (List Bottleneck) := do
  let closed := spans.filter fun span => !(span.durationMs matches .null)
  let timed ← closed.mapM fun span => (intOr env span.durationMs 0).map fun ms => (ms, span)
  let slowest := (timed.mergeSort fun a b => decide (b.1 ≤ a.1)).take 5
  slowest.mapM fun (ms, span) =>
    if quotientOverflows ms (max 1 totalMs) then none
    else
      some
        { name := textOr env (span.path.orElse span.name) "span"
          durationMs := ms
          percent := env.percent ms (max 1 totalMs) }

/-- The event that says that the run was recovered. -/
def recoveredEvent (start : Json) (endMs : ℤ) (openCount : ℕ) : Json :=
  .obj [("event_id", .str ("recovered-" ++ upTo 48 (env.py.text (start.get "run_id")))),
    ("parent_id", .null), ("name", .str "run.recovered_after_process_exit"), ("t_ms", .int endMs),
    ("meta", .obj
      [("error_summary", .str "Silicon process ended before diagnostics closed the run"),
        ("open_spans_recovered", .int openCount)])]

/-- The data of the run, with what the recovery says about itself. -/
def recoveredInfo (start : Json) (openCount : ℕ) : Json :=
  let info := (start.get "meta").orEmpty
  let evidence := (info.get "diagnostics_evidence").orEmpty
  let evidence := evidence.set "recovered_after_process_exit" (.bool true)
  let evidence := evidence.set "recovery_source" (.str "partial_jsonl")
  info.set "diagnostics_evidence" (evidence.set "open_spans_recovered" (.int openCount))

/-- The rollup of a run that was not closed, unless something raises. -/
def rebuild (start : Json) (r : Reading) (fileMs : ℤ) : Option Rollup := do
  let startMs ← intOr env (start.get "t_start_ms") 0
  let endMs := max (max startMs r.observedMs) fileMs
  let openCount := r.spans.values.countP SpanEntry.isOpen
  let spans ← r.spans.values.mapM (closeSpan env endMs)
  let events := r.events ++ [recoveredEvent env start endMs openCount]
  let calls := spans.filter (SpanEntry.isProviderCall env)
  let beganMs ← intOr env (start.get "t_start_ms") endMs
  let bottlenecks ← bottlenecksOf env (endMs - beganMs) spans
  let messageIds ← startMessages env start
  let version ← intOr env (start.get "version") 2
  return {
    runId := upTo 64 (env.py.text (start.get "run_id"))
    parentRunId := start.get "parent_run_id"
    trigger := upTo 32 (textOr env (start.get "trigger") "unknown")
    carbonId := upTo 64 (textOr env (start.get "carbon_id") "")
    roomId := upTo 64 (textOr env (start.get "room_id") "")
    messageIds := messageIds
    responseEventIds := (events.filterMap (responseOf env)).eraseDups
    info := recoveredInfo start openCount
    tStartMs := beganMs
    tEndMs := endMs
    durationMs := max 0 (endMs - beganMs)
    rounds := spans.countP (SpanEntry.isRound env)
    tokens := (calls.map (SpanEntry.tokens env)).foldl Tokens.add Tokens.zero
    costUsd := roundCost (calls.map (SpanEntry.cost env)).sum
    providerCalls := calls.length
    workersSpawned := events.countP fun event => (event.get "name").isText "worker.spawned"
    bottlenecks := bottlenecks
    spans := spans
    events := events
    status := "error"
    format := textOr env (start.get "schema") "silicon.diag"
    version := version }

/-- What a trace file yields. -/
inductive Recovered
  | raises
  | nothing
  | closed (rollup : Json)
  | rebuilt (rollup : Rollup)

/-- `_partial_rollup`.  `modified` is the time of the file. -/
def partialRollup (contents : Option ByteArray) (nowMs modified : ℤ) : Recovered :=
  match contents with
  | none => .nothing
  | some contents =>
      match (readLines contents).bind fun lines => lines.foldlM (readLine env) Reading.none with
      | none => .raises
      | some r =>
          match r.closedRollup, r.start with
          | some rollup, _ => .closed rollup
          | none, none => .nothing
          | none, some start =>
              if (start.get "run_id").truthy then
                match rebuild env start r (min nowMs modified) with
                | none => .raises
                | some rollup => .rebuilt rollup
              else .nothing

end Rebuild

end Diagnostics
end Stemcell
