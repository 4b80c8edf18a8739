import Mathlib.Data.List.Induction
import Stemcell.Maintenance.Operations

/-!
# Sweeps of completed workers

A worker run has a record in the active table until a sweep of the event loop finds that
it has ended.  The sweep claims the record for a minute, archives the output, offers the
completion to the maintenance coordinator as a continuation, removes the record, and
returns what the coordinator did not take as text for the contact of the worker.

Main results:

- Definition `formatted`: what `check_completed_workers_formatted` returns.
- Definition `Runtime.next`: one step of a launch, of a stop or of a sweep.
- Theorem `formatted_gives`: the returned text of a contact holds every part for it.

Current gaps:

- Sessions, tasks, process ids and diagnostics of a record are not modelled: no decision
  of a sweep reads them but whether the run has ended.
- A transaction that stores the document and raises afterwards is not modelled.
-/

namespace Stemcell
namespace Worker

open Lib Maintenance

/-! ## Records -/

inductive WorkerType
  | browser
  | terminal
  | writer
deriving DecidableEq, Repr

def WorkerType.text : WorkerType → String
  | browser => "browser"
  | terminal => "terminal"
  | writer => "writer"

inductive Provider
  | claude
  | codex
deriving DecidableEq, Repr

def Provider.text : Provider → String
  | claude => "claude"
  | codex => "codex"

/-- A record of the active table.  `claimedAt` and `claimToken` are zero until it is
claimed, and `activity` is the lease its reference names. -/
structure Record where
  runId : String
  carbonId : String
  workerType : WorkerType
  provider : Provider
  activity : Option String
  claimedAt : Seconds
  claimToken : Nat
deriving DecidableEq, Repr

/-- A run: its worker and its run id. -/
abbrev Run := String × String

def completionClaimSeconds : Seconds := 60

/-- `_claim_completed_worker`. -/
def claimCompletedWorker (active : Dict String Record) (workerId expectedRunId : String)
    (token : Nat) (now : Seconds) : Option (Record × Dict String Record) :=
  match active.get? workerId with
  | none => none
  | some current =>
      if expectedRunId ≠ "" ∧ current.runId ≠ expectedRunId then none
      else if current.claimedAt ≠ 0 ∧ now - current.claimedAt < completionClaimSeconds then none
      else
        let claimed := { current with claimedAt := now, claimToken := token }
        some (claimed, active.set workerId claimed)

/-- `_remove_active_worker`. -/
def removeActiveWorker (active : Dict String Record) (workerId expectedRunId : String)
    (expectedClaimToken : Nat) : Dict String Record :=
  match active.get? workerId with
  | none => active
  | some current =>
      if expectedRunId ≠ "" ∧ current.runId ≠ expectedRunId then active
      else if expectedClaimToken ≠ 0 ∧ current.claimToken ≠ expectedClaimToken then active
      else active.pop workerId

/-! ## Completions -/

/-- A completion.  The run is carried along for the ledger; no text mentions it. -/
structure Completion where
  run : Run
  workerId : String
  workerType : String
  provider : String
  carbonId : String
  archiveId : String
  result : String
  queued : Bool
deriving DecidableEq, Repr

/-- The id that reports of the browser queue go under. -/
def queueWorkerId : String := "[queue]"

/-- `_worker_completion_context`. -/
def workerCompletionContext (c : Completion) : String :=
  "Worker '" ++ c.workerId ++ "' (" ++ c.workerType ++ ", " ++ c.provider ++ ") completed:\n" ++
    "Result: " ++ c.result ++ "\n" ++
    "Complete worker output archived with id: " ++ c.archiveId

/-- The part of a completion in the text for its contact. -/
def part (c : Completion) : Option String :=
  if c.workerId = queueWorkerId then some c.result
  else if c.queued then none
  else some (workerCompletionContext c)

/-- The completion is returned as its context. -/
def Completion.returns (c : Completion) : Bool :=
  c.workerId ≠ queueWorkerId && !c.queued

theorem part_of_returns {c : Completion} (h : c.returns = true) :
    part c = some (workerCompletionContext c) := by
  unfold Completion.returns at h
  rw [Bool.and_eq_true, decide_eq_true_eq, Bool.not_eq_true'] at h
  unfold part
  rw [if_neg h.1, h.2]
  rfl

/-- `completed_by_carbon`. -/
def completedByCarbon (completions : List Completion) : Dict String (List Completion) :=
  completions.foldl
    (fun grouped c => grouped.set c.carbonId ((grouped.get? c.carbonId).getD [] ++ [c]))
    Dict.empty

/-- `check_completed_workers_formatted`. -/
def formatted (completions : List Completion) : List (String × String) :=
  (completedByCarbon completions).entries.filterMap fun entry =>
    let parts := entry.2.filterMap part
    if parts.isEmpty then none else some (entry.1, "\n\n".intercalate parts)

theorem completedByCarbon_append (completions : List Completion) (c : Completion) :
    completedByCarbon (completions ++ [c]) =
      (completedByCarbon completions).set c.carbonId
        (((completedByCarbon completions).get? c.carbonId).getD [] ++ [c]) := by
  unfold completedByCarbon
  rw [List.foldl_append]
  rfl

/-- The list of a contact holds its completions. -/
theorem mem_completedByCarbon {completions : List Completion} {c : Completion}
    (h : c ∈ completions) :
    ∃ own, (completedByCarbon completions).get? c.carbonId = some own ∧ c ∈ own := by
  induction completions using List.reverseRecOn with
  | nil => cases h
  | append_singleton rest last ih =>
      rw [completedByCarbon_append]
      by_cases hsame : last.carbonId = c.carbonId
      · rw [hsame, Dict.get?_set_self]
        refine ⟨_, rfl, ?_⟩
        rw [List.mem_append, List.mem_singleton] at h ⊢
        rcases h with hrest | hlast
        · rcases ih hrest with ⟨own, hown, hmem⟩
          rw [hown]
          exact .inl hmem
        · exact .inr hlast
      · rw [Dict.get?_set_of_ne _ _ hsame]
        apply ih
        rw [List.mem_append, List.mem_singleton] at h
        rcases h with hrest | hlast
        · exact hrest
        · exact absurd (congrArg Completion.carbonId hlast.symm) hsame

/-- The returned text of a contact holds every part for it. -/
theorem formatted_gives {completions : List Completion} {c : Completion} {text : String}
    (h : c ∈ completions) (hpart : part c = some text) :
    ∃ parts, (c.carbonId, "\n\n".intercalate parts) ∈ formatted completions ∧ text ∈ parts := by
  rcases mem_completedByCarbon h with ⟨own, hown, hmem⟩
  have htext : text ∈ own.filterMap part := List.mem_filterMap.mpr ⟨c, hmem, hpart⟩
  refine ⟨own.filterMap part, ?_, htext⟩
  unfold formatted
  rw [List.mem_filterMap]
  refine ⟨(c.carbonId, own), (Dict.get?_eq_some_iff _ _ _).mp hown, ?_⟩
  have hne : (own.filterMap part).isEmpty = false := by
    rw [List.isEmpty_eq_false_iff]
    exact List.ne_nil_of_mem htext
  simp only [hne, Bool.false_eq_true, if_false]

/-! ## Sweeps -/

/-- Where a sweep stands with the worker it is at. -/
inductive Stage
  | scanning
  | claimed (workerId : String) (provider : Provider) (record : Record)
  | archived (completion : Completion) (record : Record)
  | offered (completion : Completion) (record : Record)
  | removed (completion : Completion) (record : Record)
  | drained
deriving DecidableEq, Repr

/-- A sweep: what is left of the table it read, and what it has collected. -/
structure Sweep where
  todo : List (String × Record)
  stage : Stage
  completions : List Completion
deriving DecidableEq, Repr

/-- A completion context that has reached the manager of its contact. -/
structure Handed where
  run : Run
  contact : String
  context : String
  durable : Bool
deriving DecidableEq, Repr

def Handed.of (durable : Bool) (c : Completion) : Handed where
  run := c.run
  contact := c.carbonId
  context := workerCompletionContext c
  durable := durable

/-- The active table, the coordinator, the clock and the sweep in progress, with a ledger
of the runs: those launched with their contacts, those that have ended or were stopped,
and what has been handed over. -/
structure Runtime where
  active : Dict String Record
  maintenance : State
  now : Seconds
  tokens : Nat
  sweep : Option Sweep
  launched : List (Run × String)
  ended : List Run
  stopped : List Run
  handed : List Handed

inductive SweepEvent
  | launch (workerId runId carbonId : String) (workerType : WorkerType) (provider : Provider)
      (activity : Option String)
  | ends (run : Run)
  | stop (run : Run)
  | adopt (workerId leaseId : String)
  | coordinator (op : Op)
  | advance (now : Seconds)
  | begin
  | look
  | archive (raw : Option String)
  | offer (raises : Bool)
  | remove
  | collect
  | drain (report : Option (String × String))
  | give
  | interrupt

namespace Runtime

def holds (d : Runtime) (sweep : Sweep) : Runtime :=
  { d with sweep := some sweep }

section Steps

variable (host : Host) (parse : String → Provider → String)

/-- A call of the coordinator whose errors are swallowed. -/
def calls (d : Runtime) (op : Op) : Runtime :=
  match call host op d.maintenance d.now with
  | .ok (_, maintenance) => { d with maintenance := maintenance }
  | .error _ => d

/-- A worker is started or resumed under its launch lock. -/
def launch (d : Runtime) (workerId runId carbonId : String) (workerType : WorkerType)
    (provider : Provider) (activity : Option String) : Option Runtime :=
  if d.active.get? workerId = none ∧ runId ≠ "" ∧ (workerId, runId) ∉ d.launched.map Prod.fst then
    some { d with
      active := d.active.set workerId
        { runId := runId
          carbonId := carbonId
          workerType := workerType
          provider := provider
          activity := activity
          claimedAt := 0
          claimToken := 0 }
      launched := ((workerId, runId), carbonId) :: d.launched }
  else none

/-- A stop removes the record of the run it has read. -/
def stop (d : Runtime) (run : Run) : Option Runtime :=
  if run.2 ≠ "" then
    some { d with
      active := removeActiveWorker d.active run.1 run.2 0
      stopped := run :: d.stopped }
  else none

/-- `reconcile_maintenance_activities`, at one record. -/
def adopt (d : Runtime) (workerId leaseId : String) : Option Runtime :=
  (d.active.get? workerId).map fun record =>
    { d with active := d.active.set workerId { record with activity := some leaseId } }

/-- The table is read at the start of a sweep. -/
def begin (d : Runtime) : Option Runtime :=
  match d.sweep with
  | none =>
      some (d.holds { todo := d.active.entries, stage := .scanning, completions := [] })
  | some _ => none

/-- The sweep looks at the next worker, and claims it if its run has ended. -/
def look (d : Runtime) (sweep : Sweep) : Option Runtime :=
  match sweep.stage, sweep.todo with
  | .scanning, (workerId, initial) :: rest =>
      let record :=
        if initial.provider = .codex then (d.active.get? workerId).getD initial else initial
      let skips := { sweep with todo := rest }
      if (workerId, record.runId) ∈ d.ended then
        match claimCompletedWorker d.active workerId record.runId (d.tokens + 1) d.now with
        | none => some (d.holds skips)
        | some (claimed, active) =>
            some ({ d with active := active, tokens := d.tokens + 1 }.holds
              { skips with stage := .claimed workerId initial.provider claimed })
      else some (d.holds skips)
  | _, _ => none

/-- The output is read, parsed and archived. -/
def archive (d : Runtime) (sweep : Sweep) (raw : Option String) : Option Runtime :=
  match sweep.stage with
  | .claimed workerId provider record =>
      some (d.holds { sweep with
        stage := .archived
          { run := (workerId, record.runId)
            workerId := workerId
            workerType := record.workerType.text
            provider := provider.text
            carbonId := record.carbonId
            archiveId := if raw.isSome then workerId ++ "-" ++ record.runId else ""
            result := parse (raw.getD "") provider
            queued := false } record })
  | _ => none

/-- The completion is offered to the coordinator; an error counts as a refusal. -/
def offer (d : Runtime) (sweep : Sweep) (raises : Bool) : Option Runtime :=
  match sweep.stage with
  | .archived c record =>
      let refused := d.holds { sweep with stage := .offered c record }
      match record.activity with
      | none => some refused
      | some leaseId =>
          if raises then some refused
          else
            match call host
              (.enqueueContinuation c.carbonId (workerCompletionContext c) leaseId "")
              d.maintenance d.now with
            | .ok (.flag true, maintenance) =>
                some ({ d with
                  maintenance := maintenance
                  handed := d.handed ++ [Handed.of true c] }.holds
                  { sweep with stage := .offered { c with queued := true } record })
            | .ok (_, maintenance) =>
                some ({ d with maintenance := maintenance }.holds
                  { sweep with stage := .offered c record })
            | .error _ => some refused
  | _ => none

/-- The record is removed if it is still the one that was claimed. -/
def remove (d : Runtime) (sweep : Sweep) : Option Runtime :=
  match sweep.stage with
  | .offered c record =>
      some ({ d with
        active := removeActiveWorker d.active c.workerId record.runId record.claimToken }.holds
        { sweep with stage := .removed c record })
  | _ => none

/-- The lease of a refused completion is released, and the completion is kept for the
return. -/
def collect (d : Runtime) (sweep : Sweep) : Option Runtime :=
  match sweep.stage with
  | .removed c record =>
      let after := { sweep with stage := .scanning, completions := sweep.completions ++ [c] }
      match record.activity, c.queued with
      | some leaseId, false => some ((d.calls host (.release leaseId)).holds after)
      | _, _ => some (d.holds after)
  | _ => none

/-- After the last worker the browser queue may have started a job. -/
def drain (d : Runtime) (sweep : Sweep) (report : Option (String × String)) : Option Runtime :=
  match sweep.stage, sweep.todo with
  | .scanning, [] =>
      match report with
      | some (result, carbonId) =>
          some (d.holds { sweep with
            stage := .drained
            completions := sweep.completions ++
              [{ run := (queueWorkerId, "")
                 workerId := queueWorkerId
                 workerType := "browser"
                 provider := ""
                 carbonId := carbonId
                 archiveId := ""
                 result := result
                 queued := false }] })
      | none => some (d.holds { sweep with stage := .drained })
  | _, _ => none

/-- The sweep returns `formatted sweep.completions`. -/
def give (d : Runtime) (sweep : Sweep) : Option Runtime :=
  match sweep.stage with
  | .drained =>
      some { d with
        sweep := none
        handed := d.handed ++
          (sweep.completions.filter Completion.returns).map (Handed.of false) }
  | _ => none

/-- One step; `none` where it cannot happen. -/
def next (d : Runtime) : SweepEvent → Option Runtime
  | .launch workerId runId carbonId workerType provider activity =>
      d.launch workerId runId carbonId workerType provider activity
  | .ends run => some { d with ended := run :: d.ended }
  | .stop run => d.stop run
  | .adopt workerId leaseId => d.adopt workerId leaseId
  | .coordinator op => some (d.calls host op)
  | .advance now => if d.now ≤ now then some { d with now := now } else none
  | .begin => d.begin
  | .look => d.sweep.bind d.look
  | .archive raw => d.sweep.bind fun sweep => d.archive parse sweep raw
  | .offer raises => d.sweep.bind fun sweep => d.offer host sweep raises
  | .remove => d.sweep.bind d.remove
  | .collect => d.sweep.bind (d.collect host)
  | .drain report => d.sweep.bind fun sweep => d.drain sweep report
  | .give => d.sweep.bind d.give
  | .interrupt => some { d with sweep := none }

end Steps

end Runtime

end Worker
end Stemcell
