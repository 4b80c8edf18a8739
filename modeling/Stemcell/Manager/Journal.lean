import Mathlib.Data.List.Sort
import Stemcell.Lib.Dict
import Stemcell.Maintenance.State

/-!
# Run records

Every command of the `iwantto` client is counted against the run whose token it
carries.  The record of a run is the only evidence that a manager acted, and it may
be missing: a command may end before it is counted, the update may fail without a
word, and old records are pruned.

Main results:

- Definition `noteInvocation`: count one command.
- Theorem `shows_noteInvocation`: a counted command that succeeded shows.
- Theorem `shows_kept`: it goes on showing until the record is pruned.
-/

namespace Stemcell
namespace Manager

open Lib
open Maintenance (Seconds)

/-- What is counted for one run. -/
structure RunEntry where
  startedAt : Seconds
  commands : List String
  count : Nat
  lastAt : Seconds
  didNothing : Bool
  acted : Bool

/-- The records of all runs, by token. -/
abbrev Runs := Dict String RunEntry

/-- `RUN_TTL_SECONDS`. -/
def runTtlSeconds : Seconds := 48 * 60 * 60

/-- `MAX_RUNS`. -/
def maxRuns : Nat := 512

/-- `_prune`. -/
def pruneRuns (runs : Runs) (now : Seconds) : Runs :=
  let kept := runs.filter fun _ entry => now - entry.startedAt ≤ runTtlSeconds
  if kept.size ≤ maxRuns then kept
  else
    let ordered := kept.entries.insertionSort fun a b => a.2.startedAt ≤ b.2.startedAt
    let dropped := (ordered.take (kept.size - maxRuns)).map Prod.fst
    kept.filter fun token _ => token ∉ dropped

/-- The record of a run before its first command. -/
def RunEntry.fresh (now : Seconds) : RunEntry where
  startedAt := now
  commands := []
  count := 0
  lastAt := now
  didNothing := false
  acted := false

/-- One command is counted; only the last fifty are kept by name. -/
def RunEntry.counted (entry : RunEntry) (command : String) (ok : Bool) (now : Seconds) :
    RunEntry :=
  let commands := entry.commands ++ [command]
  { entry with
    commands := commands.drop (commands.length - 50)
    count := entry.count + 1
    lastAt := now
    didNothing := entry.didNothing || command = "do-nothing"
    acted := entry.acted || (command ≠ "do-nothing" && ok) }

/-- `note_invocation`. -/
def noteInvocation (token command : String) (ok : Bool) (now : Seconds) (runs : Runs) : Runs :=
  if token = "" then runs
  else
    let pruned := pruneRuns runs now
    pruned.set token
      (((pruned.get? token).getD (.fresh now)).counted command ok now)

/-- `run_summary`. -/
def runSummary (token : String) (runs : Runs) : Option RunEntry :=
  if token = "" then none else runs.get? token

/-- The record shows that the run acted or chose to do nothing. -/
def shows (token : String) (runs : Runs) : Bool :=
  match runSummary token runs with
  | some entry => entry.acted || entry.didNothing
  | none => false

/-! ## What shows -/

variable {token token' command : String} {ok : Bool} {now : Seconds} {runs : Runs}

theorem shows_iff : shows token runs = true ↔
    token ≠ "" ∧ ∃ entry, runs.get? token = some entry ∧
      (entry.acted = true ∨ entry.didNothing = true) := by
  by_cases htoken : token = ""
  · simp [shows, runSummary, htoken]
  · rw [shows, runSummary, if_neg htoken]
    cases runs.get? token <;> simp [htoken]

theorem count_shows {entry : RunEntry}
    (h : entry.acted = true ∨ entry.didNothing = true) :
    (entry.counted command ok now).acted = true ∨
      (entry.counted command ok now).didNothing = true := by
  rcases h with hacted | hnothing
  · exact .inl (by simp [RunEntry.counted, hacted])
  · exact .inr (by simp [RunEntry.counted, hnothing])

/-- A counted command that succeeded shows at once. -/
theorem shows_noteInvocation (htoken : token ≠ "") :
    shows token (noteInvocation token command true now runs) = true := by
  rw [shows_iff, noteInvocation, if_neg htoken, Dict.get?_set_self]
  refine ⟨htoken, _, rfl, ?_⟩
  by_cases hcommand : command = "do-nothing"
  · exact .inr (by simp [RunEntry.counted, hcommand])
  · exact .inl (by simp [RunEntry.counted, hcommand])

/-- The record of a run goes on showing while it is not pruned. -/
theorem shows_kept (hshows : shows token runs = true)
    (hkept : (pruneRuns runs now).get? token = runs.get? token) :
    shows token (noteInvocation token' command ok now runs) = true := by
  rcases shows_iff.mp hshows with ⟨htoken, entry, hentry, hshown⟩
  unfold noteInvocation
  split
  · exact hshows
  · rw [shows_iff]
    simp only [Dict.get?_set]
    split <;> rename_i heq
    · subst heq
      rw [hkept, hentry]
      exact ⟨htoken, _, rfl, count_shows hshown⟩
    · exact ⟨htoken, entry, hkept.trans hentry, hshown⟩

end Manager
end Stemcell
