import Stemcell.Manager.Memory
import Stemcell.Manager.Replay

/-!
# Rounds of a run

A run gives a root to the manager and goes on with short follow-up texts until an
output settles it: tool results, a reminder that a command is mandatory, or, after a
timeout, a word about the timeout.  This module follows one contact through
`run_all_managers`.

Main results:

- Definition `runAllManagers`: the rounds of a run and how they end.
- Theorem `settled_heard_iff`: the conversation that settles a contact without a word
  of failure has received the root exactly if its provider kept the conversation from
  the attempt that got the root into it.
- Theorem `timeout_forgets`: a timeout makes a fresh session settle the root unseen.

Current gaps:

- Traces, progress and the lifecycle of long tasks are left out, and so are errors
  that they raise.
- Rounds of several contacts share threads; each contact is followed on its own.
-/

namespace Stemcell
namespace Manager

open Lib
open Interface (Json)

/-! ## One round -/

/-- `max_iterations`. -/
def maxIterations : Nat := 10

/-- `MAX_MANAGER_TIMEOUT_RETRIES`. -/
def maxManagerTimeoutRetries : Nat := 1

/-- The reminder after a turn without commands. -/
def mandatoryText : String :=
  "You ended your turn without running a single iwantto command. Running at least one is " ++
    "mandatory: do the thing you meant to do, or run `iwantto do-nothing --reason \"...\"` " ++
    "to say why there is genuinely nothing to do."

/-- What a run depends on, round by round: the configured providers, the token of the
turn, whether the activity is visible, whether the root is blocked behind a long task,
whether issuing the token or reading its record raises, and what the tools of the round
return, if they do not raise. -/
structure RunEnv where
  env : Env
  review : Bool
  providers : Nat → List Provider
  providers_ne : ∀ i, providers i ≠ []
  token : Nat → String
  visible : Nat → Bool
  blocked : Nat → Bool
  issueRaises : Nat → Option String
  summaryRaises : Nat → Option String
  results : Nat → Option (List String)

/-- A run between two rounds.  `turn` are the attempts of the last round, `told` says
that the contact was told of a failure, `satisfied` that an accuracy review was. -/
structure RunState where
  manager : ManagerState
  turn : List Started
  timeouts : Nat
  told : Bool
  satisfied : Bool

/-- What a round makes of the contact. -/
inductive RoundEnd
  | follows (text : String)
  | settled
  | failed
  | deferred
  | raised

/-- `_suppress_undirected_brain_failure`. -/
def suppressUndirectedBrainFailure (py : Texts) (visible : Bool) (r : Result) : Result :=
  if visible ∨ ¬ managerProviderFailed py r.output r.rateLimit then r
  else { r with output := doNothingOutput }

/-- `is_only_do_nothing`. -/
def isOnlyDoNothing : List Json → Bool
  | [tool] => isTool "do_nothing" tool
  | _ => false

/-- `_is_terminal_brain_failure`. -/
def isTerminalBrainFailure (py : Texts) (tools : List Json) : Bool :=
  tools.any fun tool =>
    isTool "reply" tool &&
      ["usage limit", "not authenticated"].any (contains (py.lower (messageOf py tool)))

/-- The tools of an output that are still to be executed.  A review may only update the
work. -/
def toolsToExecute (py : Texts) (review : Bool) (executed tools : List Json) : List Json :=
  tools.filter fun tool =>
    (!review || isTool "work_update" tool || isTool "do_nothing" tool) &&
      !isTool "do_nothing" tool &&
      decide (py.dumpsSorted tool ∉ executed.map py.dumpsSorted)

/-- A result that satisfies a review. -/
def workUpdated (result : String) : Bool :=
  decide ("Tool 'work_update': Done.".toList <+: result.toList) && !contains result "Error:"

section Rounds

variable (x : RunEnv) (i : Nat) (text : String) (r : RunState)

/-- A round whose output has tools. -/
def executeRound (executed tools : List Json) : RoundEnd × RunState :=
  let r := { r with told := r.told || (!x.review && tools.any (reportsFailure x.env.py)) }
  if isOnlyDoNothing tools then (.settled, { r with satisfied := r.satisfied || x.review })
  else
    let r := { r with
      satisfied := r.satisfied || (x.review && tools.any (isTool "do_nothing")) }
    if toolsToExecute x.env.py x.review executed tools = [] then (.settled, r)
    else
      match x.results i with
      | none => (.raised, r)
      | some results =>
          let r := { r with
            satisfied := r.satisfied || (x.review && results.any workUpdated) }
          if results ≠ [] ∧ ¬ isTerminalBrainFailure x.env.py tools then
            (.follows ("Tool execution results:\n" ++ "\n".intercalate results), r)
          else (.settled, r)

/-- A round whose output has no tools.  Managers act through the client while the turn
is running, so its run record decides. -/
def silentRound (output : String) (acted : Bool) : RoundEnd × RunState :=
  if output ≠ "" ∧ isRateLimit x.env.py output then
    if x.review then (.raised, r) else (.failed, { r with told := true })
  else if output = timeoutMsg then
    if r.timeouts < maxManagerTimeoutRetries then
      (.follows timeoutMsg, { r with timeouts := r.timeouts + 1 })
    else (.failed, { r with told := true })
  else if acted then (.settled, { r with satisfied := r.satisfied || x.review })
  else (.follows mandatoryText, r)

/-- What becomes of the contact when its manager call raises. -/
def brokenRound (error : String) : RoundEnd × RunState :=
  if x.review then (.raised, r)
  else
    let redacted := x.env.py.redact error 500
    executeRound x i r []
      (replyThenNothing
        ("Manager error: " ++ if redacted = "" then "manager call failed" else redacted))

/-- `_instrumented_manager_call` and what `run_all_managers` makes of it. -/
def managerRound : RoundEnd × RunState :=
  if x.blocked i then (.deferred, r)
  else
    match x.issueRaises i with
    | some error => brokenRound x i { r with turn := [] } error
    | none =>
        let called := managerCode x.env (x.token i) text (x.providers i) r.manager
        let r := { r with
          manager := called.2
          turn := turnAttempts x.env (x.token i) text (x.providers i) r.manager }
        match x.summaryRaises i with
        | some error => brokenRound x i r error
        | none =>
            let result := suppressUndirectedBrainFailure x.env.py (x.visible i) called.1
            let acted := shows (x.token i) called.2.runs
            let r := { r with
              manager := { called.2 with runs := called.2.runs.pop (x.token i) } }
            match parseManagerOutput x.env.py result.output with
            | none => silentRound x r result.output acted
            | some tools => executeRound x i r result.executed tools

end Rounds

/-! ## The run -/

/-- How a run ends for the contact. -/
inductive RunEnd
  | settled
  | failed
  | deferred
  | exhausted
  | raised
deriving DecidableEq

/-- The loop of `run_all_managers`, from round `i` on. -/
def runRounds (x : RunEnv) : Nat → Nat → String → RunState → RunEnd × RunState
  | 0, _, _, r => (.exhausted, r)
  | n + 1, i, text, r =>
      match managerRound x i text r with
      | (.follows text, r) => runRounds x n (i + 1) text r
      | (.settled, r) => (.settled, r)
      | (.failed, r) => (.failed, r)
      | (.deferred, r) => (.deferred, r)
      | (.raised, r) => (.raised, r)

/-- A run before its first round. -/
def RunState.initial (s : ManagerState) : RunState where
  manager := s
  turn := []
  timeouts := 0
  told := false
  satisfied := false

/-- `run_all_managers`, for one contact.  A review that was not satisfied raises. -/
def runAllManagers (x : RunEnv) (root : String) (s : ManagerState) : RunEnd × RunState :=
  let ended := runRounds x maxIterations 0 root (.initial s)
  if x.review ∧ (ended.1 = .exhausted ∨ ended.2.satisfied = false ∧ ended.1 ≠ .deferred) then
    (.raised, ended.2)
  else ended

/-! ## The settlement -/

/-- The conversation whose output settled the contact has received the text. -/
def HeardBySettler (root : String) (r : RunState) : Prop :=
  ∃ e id, r.turn.getLast? = some e ∧ e.conversation = some id ∧
    Heard root r.manager.log e.kind.provider id

/-- The last attempt got the text into its conversation, or an earlier attempt of its
provider did and no timeout, missing session or new thread came after it. -/
def Retains (root : String) (r : RunState) : Prop :=
  ∃ front e, r.manager.log = front ++ [e] ∧ e.conversation.isSome = true ∧
    e.holds root (memory root e.kind.provider front) = true

/-- The manager of a contact at the beginning of a run. -/
structure Starts (env : Env) (s : ManagerState) : Prop where
  log : s.log = []
  current : ∀ provider id, s.current provider = some id → Old env s.drawn id

variable {x : RunEnv} {i n : Nat} {root text : String} {s : ManagerState} {r r' : RunState}
  {tools executed : List Json} {error output : String} {acted : Bool}

/-- What a round keeps when it does not call the manager. -/
structure Kept (r r' : RunState) : Prop where
  manager : r'.manager = r.manager
  turn : r'.turn = r.turn
  told : r.told = true → r'.told = true

theorem executeRound_kept : Kept r (executeRound x i r executed tools).2 := by
  unfold executeRound
  simp only
  split
  · exact ⟨rfl, rfl, fun h => by simp [h]⟩
  split
  · exact ⟨rfl, rfl, fun h => by simp [h]⟩
  split
  · exact ⟨rfl, rfl, fun h => by simp [h]⟩
  split <;> exact ⟨rfl, rfl, fun h => by simp [h]⟩

/-- A failure that is reported to the contact is on record. -/
theorem executeRound_told (hreview : x.review = false)
    (htools : tools.any (reportsFailure x.env.py) = true) :
    (executeRound x i r executed tools).2.told = true := by
  unfold executeRound
  simp only [hreview, htools]
  split
  · simp
  split
  · simp
  split
  · simp
  split <;> simp

theorem silentRound_kept : Kept r (silentRound x r output acted).2 := by
  unfold silentRound
  split
  · split
    · exact ⟨rfl, rfl, id⟩
    · exact ⟨rfl, rfl, fun _ => rfl⟩
  split
  · split
    · exact ⟨rfl, rfl, id⟩
    · exact ⟨rfl, rfl, fun _ => rfl⟩
  split <;> exact ⟨rfl, rfl, id⟩

theorem contains_append (front rest : String) : contains (front ++ rest) front = true := by
  rw [contains, decide_eq_true_eq, String.toList_append]
  exact List.infix_append [] _ _

theorem brokenRound_kept : Kept r (brokenRound x i r error).2 := by
  unfold brokenRound
  split
  · exact ⟨rfl, rfl, id⟩
  · exact executeRound_kept

theorem reportsFailure_managerError (py : Texts) (detail : String) :
    (replyThenNothing ("Manager error: " ++ detail)).any (reportsFailure py) = true := by
  have hcontains : contains ("Manager error: " ++ detail) "Manager error:" = true := by
    have hsplit : "Manager error: " ++ detail = "Manager error:" ++ (" " ++ detail) := by
      rw [← String.append_assoc]
      rfl
    rw [hsplit]
    exact contains_append _ _
  rw [replyThenNothing, List.any_cons, Bool.or_eq_true]
  left
  simp [reportsFailure, isTool, messageOf, Json.get, hcontains]

/-- A call that raised does not settle the contact without a word. -/
theorem brokenRound_told (hend : (brokenRound x i r error).1 ≠ .raised) :
    (brokenRound x i r error).2.told = true := by
  unfold brokenRound at hend ⊢
  split
  · rename_i hreview
    simp [hreview] at hend
  · rename_i hreview
    exact executeRound_told (Bool.eq_false_iff.mpr hreview) (reportsFailure_managerError ..)

theorem Remembers.of_runs (h : Remembers x.env root s) (runs : Runs) :
    Remembers x.env root { s with runs := runs } where
  heard := h.heard
  current provider id hid := h.current provider id (by cases provider <;> exact hid)
  sound := h.sound
  knows provider id hid := h.knows provider id (by cases provider <;> exact hid)

/-- What a round keeps, and what it leaves if it settles the contact silently. -/
structure RoundSpec (x : RunEnv) (root : String) (r' : RoundEnd × RunState) : Prop where
  remembers : Remembers x.env root r'.2.manager
  settled : r'.1 = .settled → r'.2.told = false →
    r'.2.turn ≠ [] ∧ ∃ before, r'.2.manager.log = before ++ r'.2.turn

theorem managerRound_spec (h : Remembers x.env root r.manager) :
    RoundSpec x root (managerRound x i text r) := by
  have hbroken : ∀ r₀ : RunState, Remembers x.env root r₀.manager → ∀ error,
      RoundSpec x root (brokenRound x i r₀ error) := by
    intro r₀ h₀ error
    have hkept : Kept r₀ (brokenRound x i r₀ error).2 := brokenRound_kept
    refine ⟨hkept.manager ▸ h₀, fun hsettled htold => ?_⟩
    rw [brokenRound_told (by simp [hsettled])] at htold
    cases htold
  unfold managerRound
  split
  · exact ⟨h, nofun⟩
  split
  · exact hbroken { r with turn := [] } h _
  have hturn : Remembers x.env root
      (managerCode x.env (x.token i) text (x.providers i) r.manager).2 :=
    managerCode_remembers h
  have hattempts := managerCode_attempts x.env (x.token i) text (x.providers i) r.manager
    (x.providers_ne i)
  simp only
  split
  · exact hbroken _ hturn _
  have hkept : ∀ r₁ : RoundEnd × RunState,
      Kept { r with
        manager := { (managerCode x.env (x.token i) text (x.providers i) r.manager).2 with
          runs := (managerCode x.env (x.token i) text (x.providers i) r.manager).2.runs.pop
            (x.token i) }
        turn := turnAttempts x.env (x.token i) text (x.providers i) r.manager } r₁.2 →
      RoundSpec x root r₁ := by
    intro r₁ hkept
    refine ⟨hkept.manager ▸ hturn.of_runs _, fun _ _ => ?_⟩
    rw [hkept.turn, hkept.manager]
    exact ⟨hattempts.loop.ne_nil, r.manager.log, hattempts.log⟩
  split
  · exact hkept _ silentRound_kept
  · exact hkept _ executeRound_kept

/-- What the rounds of a run leave. -/
theorem runRounds_spec (h : Remembers x.env root r.manager)
    (hend : runRounds x n i text r = (.settled, r')) (htold : r'.told = false) :
    Remembers x.env root r'.manager ∧ r'.turn ≠ [] ∧
      ∃ before, r'.manager.log = before ++ r'.turn := by
  induction n generalizing i text r with
  | zero => cases hend
  | succ n ih =>
      have hspec : RoundSpec x root (managerRound x i text r) := managerRound_spec h
      unfold runRounds at hend
      split at hend <;> rename_i hround <;> rw [hround] at hspec
      · exact ih hspec.remembers hend
      · cases hend
        exact ⟨hspec.remembers, hspec.settled rfl htold⟩
      all_goals cases hend

/-- A run settles a contact without a word of failure.  The conversation that settled it
has received the root exactly if the last attempt retains it. -/
theorem settled_heard_iff (hstarts : Starts x.env s)
    (hend : runAllManagers x root s = (.settled, r)) (htold : r.told = false) :
    HeardBySettler root r ↔ Retains root r := by
  have hrounds : runRounds x maxIterations 0 root (.initial s) = (.settled, r) := by
    unfold runAllManagers at hend
    simp only at hend
    split at hend
    · cases hend
    · exact hend
  have hinitial : Remembers x.env root (RunState.initial s).manager :=
    remembers_initial hstarts.log hstarts.current
  rcases runRounds_spec hinitial hrounds htold with ⟨hremembers, hne, before, hlog⟩
  rcases List.eq_nil_or_concat' r.turn with hnil | ⟨front, e, hturn⟩
  · exact absurd hnil hne
  have hsplit : r.manager.log = (before ++ front) ++ [e] := by
    rw [hlog, hturn, List.append_assoc]
  have hlast : r.turn.getLast? = some e := by
    rw [hturn, List.getLast?_concat]
  have hsound := hremembers.sound (before ++ front) e [] hsplit
  constructor
  · rintro ⟨b, id, hb, hid, hheard⟩
    rw [hlast] at hb
    cases hb
    rw [hsplit] at hheard
    exact ⟨before ++ front, e, hsplit, by rw [hid, Option.isSome_some], (hsound id hid).mpr hheard⟩
  · rintro ⟨front', b, hsplit', hsome, hholds⟩
    rcases List.append_inj' (hsplit.symm.trans hsplit') rfl with ⟨rfl, heq⟩
    cases heq
    rcases Option.isSome_iff_exists.mp hsome with ⟨id, hid⟩
    exact ⟨e, id, hlast, hid, hsplit ▸ (hsound id hid).mp hholds⟩

/-! ## A timeout -/

/-- A run without events of its own. -/
def quiet (attempts : List Attempt) : RunEnv where
  env := numbered attempts
  review := false
  providers _ := [.claude]
  providers_ne _ := List.cons_ne_nil _ _
  token _ := "t"
  visible _ := true
  blocked _ := false
  issueRaises _ := none
  summaryRaises _ := none
  results _ := some []

/-- The manager replies with the client and ends its stream with an answer. -/
def repliedAndDone : Attempt :=
  { repliedThenLost with
    ending := .finished
      { resultText := "done"
        rateLimit := none
        returnCode := 0
        executed := []
        stderr := ""
        errorSubtype := ""
        errorMsg := "" } }

/-- The manager stalls. -/
def stalled : Attempt :=
  { repliedThenLost with invocations := [], ending := .timedOut }

theorem resuming_starts (attempts : List Attempt) : Starts (numbered attempts) (resuming "s") where
  log := rfl
  current provider id hid k _ heq := by
    cases provider with
    | claude =>
        cases hid
        -- The id is no row of letters `n`.
        have hlist := congrArg String.toList heq
        rw [numbered, String.toList_ofList, List.replicate_succ] at hlist
        cases hlist
    | codex => cases hid

/-- What a run on "hello" leaves. -/
def helloRun (attempts : List Attempt) : RunEnd × RunState :=
  runAllManagers (quiet attempts) "hello" (resuming "s")

/-- How the run ended, whether the contact was told of a failure, the conversation of the
last attempt, and the conversations that were given "hello". -/
def account (ended : RunEnd × RunState) : RunEnd × Bool × Option (Option String) ×
    List (Option String) :=
  (ended.1, ended.2.told, ended.2.turn.getLast?.map Started.conversation,
    (ended.2.manager.log.filter fun e => e.text = "hello").map Started.conversation)

theorem settled_of_account {p : RunEnd × RunState} {last : Option (Option String)}
    {given : List (Option String)} (h : account p = (.settled, false, last, given)) :
    p = (.settled, p.2) ∧ p.2.told = false ∧
      p.2.turn.getLast?.map Started.conversation = last ∧
      ∀ b ∈ p.2.manager.log, b.text = "hello" → b.conversation ∈ given := by
  simp only [account, Prod.mk.injEq] at h
  refine ⟨Prod.ext h.1 rfl, h.2.1, h.2.2.1, fun b hb htext => ?_⟩
  rw [← h.2.2.2]
  exact List.mem_map_of_mem (List.mem_filter.mpr ⟨hb, decide_eq_true htext⟩)

/-- The first attempt answers. -/
theorem settled_heard_iff_answered :
    HeardBySettler "hello" (helloRun [repliedAndDone]).2 := by
  have haccount : account (helloRun [repliedAndDone]) =
      (.settled, false, some (some "s"), [some "s"]) := by
    decide +kernel
  have hlog : ((helloRun [repliedAndDone]).2.manager.log.map fun e =>
      e.conversation.isSome && e.holds "hello" false) = [true] := by
    decide +kernel
  rcases settled_of_account haccount with ⟨hend, htold, -, -⟩
  refine (settled_heard_iff (resuming_starts _) hend htold).mpr ?_
  rcases List.map_eq_singleton_iff.mp hlog with ⟨e, hsingle, hholds⟩
  rw [Bool.and_eq_true] at hholds
  exact ⟨[], e, hsingle, hholds.1, hholds.2⟩

/-- A timeout discards the session.  The next one is told of the timeout only, and its
reply settles the root that it has never seen. -/
theorem timeout_forgets :
    ¬ ∀ x root s r, Starts x.env s → runAllManagers x root s = (.settled, r) →
      r.told = false → HeardBySettler root r := by
  intro hclaim
  have haccount : account (helloRun [stalled, repliedAndDone]) =
      (.settled, false, some (some "n"), [some "s"]) := by
    decide +kernel
  rcases settled_of_account haccount with ⟨hend, htold, hturn, hgiven⟩
  rcases hclaim (quiet [stalled, repliedAndDone]) "hello" (resuming "s") _ (resuming_starts _)
    hend htold with ⟨e, id, hlast, hid, b, hb, -, hsame, -, htext⟩
  rw [hlast, Option.map_some, Option.some.injEq] at hturn
  have hsession := hgiven b hb htext
  rw [hsame, ← hid, hturn, List.mem_singleton] at hsession
  exact absurd hsession (by decide)

end Manager
end Stemcell
