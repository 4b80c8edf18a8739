import Stemcell.Lib.Retry
import Stemcell.Maintenance.State
import Stemcell.Manager.Journal
import Stemcell.Manager.Text

/-!
# Provider attempts

A manager turn asks one provider after another, and each provider adapter may start
more than one attempt: Claude resumes its session, creates a new one when the
session is missing, or falls back to plain text.  What an attempt does is up to the
provider; this module translates what the source makes of it.

Main results:

- Definition `claudeCode`, `codexAppServer`: the provider adapters.
- Definition `managerCode`: the loop over the providers.
- Theorem `managerCode_attempts`: the attempts of a turn form a retry loop, and the
  last one of them decides the result.

Current gaps:

- Prompt and session files can be read and written; an error before the first
  attempt of a provider is left out.
- Progress events, traces and the process log are left out.
-/

namespace Stemcell
namespace Manager

open Lib
open Interface (Json strip)
open Maintenance (Seconds RootAdmission)

/-! ## Attempts -/

/-- A command of the `iwantto` client, and whether it is counted in the end. -/
structure Invocation where
  token : String
  command : String
  ok : Bool
  time : Seconds
  noted : Bool

/-- `cli.main`, for the run records: a failed update says nothing. -/
def Invocation.note (runs : Runs) (i : Invocation) : Runs :=
  if i.noted then noteInvocation i.token i.command i.ok i.time runs else runs

/-- A text that an injector accepted while the attempt was running. -/
structure Injection where
  admission : RootAdmission
  received : Bool

/-- What a finished attempt leaves: for a stream the values of `_run_streaming`, for
plain text `stdout` and `stderr`, for Codex the output and the last error. -/
structure Finish where
  resultText : String
  rateLimit : Option String
  returnCode : Int
  executed : List Json
  stderr : String
  errorSubtype : String
  errorMsg : String

/-- How an attempt ends. -/
inductive Ending
  | finished (finish : Finish)
  | timedOut
  | raised (error : String)

/-- What happens to the Codex thread when an attempt begins. -/
inductive ThreadStart
  | resumes
  | starts
  | fails
deriving DecidableEq

/-- What a provider does in one attempt.  `reached` says whether the text of the turn
got into its conversation. -/
structure Attempt where
  thread : ThreadStart
  reached : Bool
  invocations : List Invocation
  injections : List Injection
  ending : Ending

/-- The kinds of attempts. -/
inductive Kind
  | resumed
  | created
  | plain
  | codex
deriving DecidableEq

/-- The provider that makes the attempt. -/
def Kind.provider : Kind → Provider
  | .codex => .codex
  | _ => .claude

/-- An attempt that was started: its conversation, whether that began with it, the text
it was given, whether another provider is configured after its own, and the run records
it left, if they can be read. -/
structure Started where
  kind : Kind
  conversation : Option String
  begins : Bool
  text : String
  later : Bool
  attempt : Attempt
  runs : Runs
  readable : Bool

/-- What a turn depends on.  `script` is what the providers do, attempt by attempt;
`fresh` makes the ids of new conversations. -/
structure Env where
  py : Texts
  fresh : Nat → String
  fresh_injective : Function.Injective fresh
  script : Nat → Attempt
  readable : Nat → Bool

/-- What the manager keeps between attempts. -/
structure ManagerState where
  claudeSession : Option String
  codexThread : Option String
  drawn : Nat
  runs : Runs
  log : List Started

/-- What a provider call returns. -/
structure Result where
  output : String
  rateLimit : Option String
  executed : List Json

/-! ## Adapters -/

section Adapters

variable (env : Env) (text : String) (later : Bool) (s : ManagerState)

/-- Start an attempt and let it run to its end. -/
def startAttempt (kind : Kind) (conversation : Option String) (begins : Bool) :
    Started × ManagerState :=
  let attempt := env.script s.log.length
  let runs := attempt.invocations.foldl Invocation.note s.runs
  let e : Started :=
    { kind := kind
      conversation := conversation
      begins := begins
      text := text
      later := later
      attempt := attempt
      runs := runs
      readable := env.readable s.log.length }
  (e, { s with runs := runs, log := s.log ++ [e] })

/-- `new_session(…, brain="claude")`. -/
def newClaudeSession : String × ManagerState :=
  let id := env.fresh s.drawn
  (id, { s with claudeSession := some id, drawn := s.drawn + 1 })

/-- `_get_session_id`. -/
def getSessionId : String × ManagerState :=
  match s.claudeSession with
  | some id => (id, s)
  | none => newClaudeSession env s

/-- A stream that ended with an answer. -/
def Finish.answered (finish : Finish) : Bool :=
  finish.returnCode = 0 && strip finish.resultText ≠ ""

/-- The provider says that it is not authenticated. -/
def Finish.notAuthenticated (py : Texts) (finish : Finish) : Bool :=
  providerAuthenticationFailed py [finish.errorSubtype, finish.errorMsg, finish.stderr]

/-- The provider does not know the session. -/
def Finish.sessionMissing (py : Texts) (finish : Finish) (sessionId : String) : Bool :=
  finish.returnCode ≠ 0 && contains (py.lower finish.errorMsg) "no" &&
    contains (py.lower finish.errorMsg) "found" && contains finish.errorMsg sessionId

/-- A result that is made up by the source. -/
def Result.of (output : String) (executed : List Json) : Result :=
  { output := output, rateLimit := none, executed := executed }

/-- The result of a turn whose provider timed out. -/
def timeoutResult : Result :=
  .of timeoutMsg []

/-- The answer of a stream. -/
def Finish.answer (finish : Finish) : Result where
  output := strip finish.resultText
  rateLimit := finish.rateLimit
  executed := finish.executed

/-- What is made of a stream after which no other attempt is started. -/
def streamResult (py : Texts) (finish : Finish) : Result :=
  if finish.answered then finish.answer
  else if finish.notAuthenticated py then
    .of (providerNotAuthenticatedTools py .claude) finish.executed
  else .of (safeManagerErrorTools py "Claude failed after creating a new session")
    finish.executed

/-- What is made of a plain text attempt that ended. -/
def plainResult (py : Texts) (finish : Finish) : Result :=
  let output := strip finish.resultText
  if finish.returnCode ≠ 0 ∧
      providerAuthenticationFailed py [finish.resultText, finish.stderr] then
    .of (providerNotAuthenticatedTools py .claude) []
  else
    { output := output
      rateLimit := if output ≠ "" ∧ isRateLimit py output then some output else none
      executed := [] }

/-- What is made of an exception. -/
def raisedResult (py : Texts) (provider : Provider) (error : String) : Result :=
  if providerAuthenticationFailed py [error] then
    .of (providerNotAuthenticatedTools py provider) []
  else .of (safeManagerErrorTools py error) []

/-- What is made of a Codex turn that ended. -/
def codexResult (py : Texts) (finish : Finish) : Result :=
  let output := finish.resultText
  if output ≠ "" then
    { output := output
      rateLimit := if isRateLimit py output then some output else finish.rateLimit
      executed := finish.executed }
  else if finish.errorMsg ≠ "" then
    if providerAuthenticationFailed py [finish.errorMsg] then
      .of (providerNotAuthenticatedTools py .codex) finish.executed
    else
      { output := safeManagerErrorTools py finish.errorMsg
        rateLimit := finish.rateLimit
        executed := finish.executed }
  else
    { output := ""
      rateLimit := finish.rateLimit
      executed := finish.executed }

/-- The end of `claude_code`: plain text mode with the current session. -/
def claudePlain : Result × ManagerState :=
  let session := getSessionId env s
  let started := startAttempt env text later session.2 .plain (some session.1) s.claudeSession.isNone
  match started.1.attempt.ending with
  | .finished finish => (plainResult env.py finish, started.2)
  | .timedOut => (timeoutResult, (newClaudeSession env started.2).2)
  | .raised error => (raisedResult env.py .claude error, started.2)

/-- `claude_code` after the session was found missing. -/
def claudeCreated : Result × ManagerState :=
  let session := newClaudeSession env s
  let started := startAttempt env text later session.2 .created (some session.1) true
  match started.1.attempt.ending with
  | .finished finish => (streamResult env.py finish, started.2)
  | .timedOut => (timeoutResult, (newClaudeSession env started.2).2)
  | .raised _ => claudePlain env text later started.2

/-- `claude_code`. -/
def claudeCode : Result × ManagerState :=
  let session := getSessionId env s
  let started := startAttempt env text later session.2 .resumed (some session.1) s.claudeSession.isNone
  match started.1.attempt.ending with
  | .timedOut => (timeoutResult, (newClaudeSession env started.2).2)
  | .raised _ => claudePlain env text later started.2
  | .finished finish =>
      if finish.answered then (finish.answer, started.2)
      else if finish.notAuthenticated env.py then
        (.of (providerNotAuthenticatedTools env.py .claude) finish.executed, started.2)
      else if finish.sessionMissing env.py session.1 then
        claudeCreated env text later started.2
      else claudePlain env text later started.2

/-- `_codex_start_or_resume_thread` starts a thread. -/
def newCodexThread : String × ManagerState :=
  let id := env.fresh s.drawn
  (id, { s with codexThread := some id, drawn := s.drawn + 1 })

/-- `_codex_start_or_resume_thread`; the flag says that the thread is new. -/
def codexThread (thread : ThreadStart) : Option String × Bool × ManagerState :=
  match thread, s.codexThread with
  | .fails, _ => (none, false, s)
  | .resumes, some id => (some id, false, s)
  | _, _ => (some (newCodexThread env s).1, true, (newCodexThread env s).2)

/-- `codex_app_server`.  A timed-out thread may still contain an unfinished turn, so
the next turn starts with a fresh thread. -/
def codexAppServer : Result × ManagerState :=
  let thread := codexThread env s (env.script s.log.length).thread
  let started := startAttempt env text later thread.2.2 .codex thread.1 thread.2.1
  match started.1.attempt.ending with
  | .finished finish => (codexResult env.py finish, started.2)
  | .timedOut => (timeoutResult, { started.2 with codexThread := none })
  | .raised error => (raisedResult env.py .codex error, started.2)

/-- One provider call. -/
def callProvider : Provider → Result × ManagerState
  | .claude => claudeCode env text later s
  | .codex => codexAppServer env text later s

end Adapters

/-! ## The turn -/

/-- `_manager_run_has_acted`, after the last attempt of the log. -/
def managerRunHasActed (env : Env) (token : String) (s : ManagerState) : Bool :=
  env.readable (s.log.length - 1) && shows token s.runs

/-- `manager_code`: the loop over the configured providers.  Once the turn acted, a
failure of its transport is not answered by another provider. -/
def managerLoop (env : Env) (token text : String) (last : Result) :
    List Provider → ManagerState → Result × ManagerState
  | [], s => (last, s)
  | provider :: rest, s =>
      let called := callProvider env text (rest ≠ []) s provider
      if ¬ managerProviderFailed env.py called.1.output called.1.rateLimit then called
      else if managerRunHasActed env token called.2 then
        (.of doNothingOutput called.1.executed, called.2)
      else managerLoop env token text called.1 rest called.2

/-- `manager_code`. -/
def managerCode (env : Env) (token text : String) (providers : List Provider)
    (s : ManagerState) : Result × ManagerState :=
  managerLoop env token text (.of doNothingOutput []) providers s

/-- The attempts that a turn starts. -/
def turnAttempts (env : Env) (token text : String) (providers : List Provider)
    (s : ManagerState) : List Started :=
  (managerCode env token text providers s).2.log.drop s.log.length

/-! ## The attempts of a turn -/

/-- The adapter of its provider starts another attempt after this one. -/
def Started.again (py : Texts) (e : Started) : Bool :=
  match e.kind, e.attempt.ending with
  | .resumed, .finished finish => !finish.answered && !finish.notAuthenticated py
  | .resumed, .raised _ => true
  | .created, .raised _ => true
  | _, _ => false

/-- What its provider call returns when this attempt is the last one. -/
def Started.result (py : Texts) (e : Started) : Result :=
  match e.attempt.ending with
  | .timedOut => timeoutResult
  | .raised error => raisedResult py e.kind.provider error
  | .finished finish =>
      match e.kind with
      | .plain => plainResult py finish
      | .codex => codexResult py finish
      | _ => streamResult py finish

/-- Its provider is taken to have failed. -/
def Started.failed (py : Texts) (e : Started) : Bool :=
  managerProviderFailed py (e.result py).output (e.result py).rateLimit

/-- The run record can be read after the attempt and shows that the turn acted. -/
def Started.recorded (token : String) (e : Started) : Bool :=
  e.readable && shows token e.runs

/-- Another attempt of the turn is started after this one: its adapter retries, or
its provider failed, the record shows nothing and another provider is configured. -/
def Started.followed (py : Texts) (token : String) (e : Started) : Prop :=
  e.again py = true ∨
    e.failed py = true ∧ e.recorded token = false ∧ e.later = true

/-- What the turn returns when this attempt is the last one. -/
def Started.outcome (py : Texts) (token : String) (e : Started) : Result :=
  if e.failed py = true ∧ e.recorded token = true then
    .of doNothingOutput (e.result py).executed
  else e.result py

variable {env : Env} {token text : String} {later : Bool} {s s' : ManagerState} {r : Result}

/-- What is known of every attempt: the text it was given, and that its commands were
noted one by one. -/
structure Started.Of (text : String) (e : Started) : Prop where
  text : e.text = text
  noted : ∃ runs, e.runs = e.attempt.invocations.foldl Invocation.note runs

/-- A provider call starts attempts until its adapter asks for no other, and returns
what is made of the last one. -/
structure Called (env : Env) (text : String) (later : Bool) (s s' : ManagerState)
    (r : Result) (front : List Started) (e : Started) : Prop where
  log : s'.log = s.log ++ (front ++ [e])
  again : ∀ b ∈ front, b.again env.py = true
  ends : e.again env.py = false
  result : r = e.result env.py
  later : e.later = later
  runs : e.runs = s'.runs
  readable : e.readable = env.readable (s'.log.length - 1)
  all : ∀ b ∈ front ++ [e], b.Of text

/-- A call whose first attempt is its only one. -/
theorem called_one {e : Started} (hlog : s'.log = s.log ++ [e])
    (hends : e.again env.py = false) (hresult : r = e.result env.py)
    (hlater : e.later = later) (hruns : e.runs = s'.runs)
    (hreadable : e.readable = env.readable s.log.length) (hof : e.Of text) :
    Called env text later s s' r [] e where
  log := hlog
  again _ hb := (List.not_mem_nil hb).elim
  ends := hends
  result := hresult
  later := hlater
  runs := hruns
  readable := by
    rw [hreadable, hlog, List.length_append, List.length_singleton, Nat.add_sub_cancel]
  all b hb := List.mem_singleton.mp hb ▸ hof

/-- An attempt that asks for another comes before a call. -/
theorem Called.after {front : List Started} {b e : Started} {t : ManagerState}
    (h : Called env text later t s' r front e) (hlog : t.log = s.log ++ [b])
    (hagain : b.again env.py = true) (hof : b.Of text) :
    Called env text later s s' r (b :: front) e where
  log := by
    rw [h.log, hlog, List.append_assoc]
    rfl
  again c hc := by
    rcases List.mem_cons.mp hc with heq | hc
    · exact heq ▸ hagain
    · exact h.again c hc
  ends := h.ends
  result := h.result
  later := h.later
  runs := h.runs
  readable := h.readable
  all c hc := by
    rcases List.mem_cons.mp hc with heq | hc
    · exact heq ▸ hof
    · exact h.all c hc

theorem getSessionId_log (env : Env) (s : ManagerState) : (getSessionId env s).2.log = s.log := by
  unfold getSessionId
  split <;> rfl

theorem codexThread_log (env : Env) (s : ManagerState) (thread : ThreadStart) :
    (codexThread env s thread).2.2.log = s.log := by
  unfold codexThread
  split <;> rfl

theorem startAttempt_of (env : Env) (text : String) (later : Bool) (s : ManagerState)
    (kind : Kind) (conversation : Option String) (begins : Bool) :
    (startAttempt env text later s kind conversation begins).1.Of text where
  text := rfl
  noted := ⟨s.runs, rfl⟩

/-- The attempt that `startAttempt` starts is the only one of a call that asks for no
other. -/
theorem called_start {kind : Kind} {conversation : Option String} {begins : Bool}
    {t : ManagerState} (ht : t.log = s.log)
    (hlog : s'.log = (startAttempt env text later t kind conversation begins).2.log)
    (hruns : s'.runs = (startAttempt env text later t kind conversation begins).2.runs)
    (hends : (startAttempt env text later t kind conversation begins).1.again env.py = false)
    (hresult : r = (startAttempt env text later t kind conversation begins).1.result env.py) :
    ∃ front e, Called env text later s s' r front e := by
  refine ⟨[], (startAttempt env text later t kind conversation begins).1, ?_⟩
  refine called_one ?_ hends hresult rfl ?_ ?_ (startAttempt_of ..)
  · rw [hlog, ← ht]
    rfl
  · exact hruns.symm
  · rw [← ht]
    rfl

@[simp]
theorem startAttempt_kind (env : Env) (text : String) (later : Bool) (s : ManagerState)
    (kind : Kind) (conversation : Option String) (begins : Bool) :
    (startAttempt env text later s kind conversation begins).1.kind = kind :=
  rfl

theorem claudePlain_called (env : Env) (text : String) (later : Bool) (s : ManagerState) :
    ∃ front e, Called env text later s (claudePlain env text later s).2
      (claudePlain env text later s).1 front e := by
  have hlog := getSessionId_log env s
  unfold claudePlain
  simp only
  split <;> rename_i hending
  · refine called_start hlog rfl rfl ?_ ?_ <;> simp [Started.again, Started.result, hending]
  · refine called_start hlog rfl rfl ?_ ?_ <;> simp [Started.again, Started.result, hending]
  · refine called_start hlog rfl rfl ?_ ?_ <;>
      simp [Started.again, Started.result, hending, Kind.provider]

theorem claudeCreated_called (env : Env) (text : String) (later : Bool) (s : ManagerState) :
    ∃ front e, Called env text later s (claudeCreated env text later s).2
      (claudeCreated env text later s).1 front e := by
  have hlog : (newClaudeSession env s).2.log = s.log := rfl
  unfold claudeCreated
  simp only
  split <;> rename_i hending
  · refine called_start hlog rfl rfl ?_ ?_ <;> simp [Started.again, Started.result, hending]
  · refine called_start hlog rfl rfl ?_ ?_ <;> simp [Started.again, Started.result, hending]
  · -- An exception of the new stream ends in plain text mode.
    have hagain : (startAttempt env text later (newClaudeSession env s).2 .created
        (some (newClaudeSession env s).1) true).1.again env.py = true := by
      simp [Started.again, hending]
    rcases claudePlain_called env text later
      (startAttempt env text later (newClaudeSession env s).2 .created
        (some (newClaudeSession env s).1) true).2 with ⟨front, e, hcalled⟩
    exact ⟨_, e, hcalled.after rfl hagain (startAttempt_of ..)⟩

theorem claudeCode_called (env : Env) (text : String) (later : Bool) (s : ManagerState) :
    ∃ front e, Called env text later s (claudeCode env text later s).2
      (claudeCode env text later s).1 front e := by
  have hlog := getSessionId_log env s
  -- The first attempt comes before whatever call follows it.
  have hafter : ∀ t r, (startAttempt env text later (getSessionId env s).2 .resumed
      (some (getSessionId env s).1) s.claudeSession.isNone).1.again env.py = true →
      (∃ front e, Called env text later (startAttempt env text later (getSessionId env s).2
        .resumed (some (getSessionId env s).1) s.claudeSession.isNone).2 t r front e) →
      ∃ front e, Called env text later s t r front e := by
    rintro t r hagain ⟨front, e, hcalled⟩
    refine ⟨_, e, hcalled.after ?_ hagain (startAttempt_of ..)⟩
    rw [← hlog]
    rfl
  unfold claudeCode
  simp only
  split <;> rename_i hending
  · refine called_start hlog rfl rfl ?_ ?_ <;> simp [Started.again, Started.result, hending]
  · exact hafter _ _ (by simp [Started.again, hending]) (claudePlain_called env text later _)
  · split <;> rename_i hanswered
    · refine called_start hlog rfl rfl ?_ ?_ <;>
        simp [Started.again, Started.result, hending, hanswered, streamResult]
    split <;> rename_i hauth
    · refine called_start hlog rfl rfl ?_ ?_ <;>
        simp [Started.again, Started.result, hending, hanswered, hauth, streamResult]
    split
    · exact hafter _ _ (by simp [Started.again, hending, hanswered, hauth])
        (claudeCreated_called env text later _)
    · exact hafter _ _ (by simp [Started.again, hending, hanswered, hauth])
        (claudePlain_called env text later _)

theorem codexAppServer_called (env : Env) (text : String) (later : Bool) (s : ManagerState) :
    ∃ front e, Called env text later s (codexAppServer env text later s).2
      (codexAppServer env text later s).1 front e := by
  have hlog := codexThread_log env s (env.script s.log.length).thread
  unfold codexAppServer
  simp only
  split <;> rename_i hending
  · refine called_start hlog rfl rfl ?_ ?_ <;> simp [Started.again, Started.result, hending]
  · refine called_start hlog rfl rfl ?_ ?_ <;> simp [Started.again, Started.result, hending]
  · refine called_start hlog rfl rfl ?_ ?_ <;>
      simp [Started.again, Started.result, hending, Kind.provider]

theorem callProvider_called (env : Env) (text : String) (later : Bool) (s : ManagerState)
    (provider : Provider) :
    ∃ front e, Called env text later s (callProvider env text later s provider).2
      (callProvider env text later s provider).1 front e := by
  cases provider with
  | claude => exact claudeCode_called env text later s
  | codex => exact codexAppServer_called env text later s

/-- The attempts of a turn: a retry loop whose last attempt decides the result. -/
structure Attempts (env : Env) (token text : String) (s s' : ManagerState) (r : Result)
    (new : List Started) : Prop where
  log : s'.log = s.log ++ new
  loop : Retries (Started.followed env.py token) new
  result : ∃ e, new.getLast? = some e ∧ r = e.outcome env.py token
  all : ∀ e ∈ new, e.Of text

theorem managerLoop_attempts (env : Env) (token text : String) (last : Result)
    (providers : List Provider) (s : ManagerState) (hne : providers ≠ []) :
    ∃ new, Attempts env token text s (managerLoop env token text last providers s).2
      (managerLoop env token text last providers s).1 new := by
  induction providers generalizing s last with
  | nil => exact absurd rfl hne
  | cons provider rest ih =>
      rcases callProvider_called env text (rest ≠ []) s provider with ⟨front, e, hcalled⟩
      have hfront : ∀ b ∈ front, b.followed env.py token := fun b hb => .inl (hcalled.again b hb)
      have hacted : managerRunHasActed env token
          (callProvider env text (rest ≠ []) s provider).2 = e.recorded token := by
        rw [managerRunHasActed, Started.recorded, hcalled.readable, hcalled.runs]
      have hfailed : managerProviderFailed env.py
          (callProvider env text (rest ≠ []) s provider).1.output
          (callProvider env text (rest ≠ []) s provider).1.rateLimit = e.failed env.py := by
        rw [Started.failed, hcalled.result]
      -- The call ends the turn.
      have hend : ¬ e.followed env.py token → ∀ r s', s' =
          (callProvider env text (rest ≠ []) s provider).2 → r = e.outcome env.py token →
          ∃ new, Attempts env token text s s' r new := by
        rintro hends r s' rfl hr
        exact ⟨front ++ [e], hcalled.log, Retries.append hfront (.last hends),
          ⟨e, by simp, hr⟩, hcalled.all⟩
      unfold managerLoop
      simp only [hfailed, hacted]
      split <;> rename_i hsuccess
      · rw [Bool.not_eq_true] at hsuccess
        refine hend ?_ _ _ rfl ?_
        · simp [Started.followed, hcalled.ends, hsuccess]
        · rw [Started.outcome, if_neg fun h => by simp [hsuccess] at h]
          exact hcalled.result
      rw [not_not] at hsuccess
      split <;> rename_i hrecorded
      · refine hend ?_ _ _ rfl ?_
        · simp [Started.followed, hcalled.ends, hrecorded]
        · rw [Started.outcome, if_pos ⟨hsuccess, hrecorded⟩, hcalled.result]
      rw [Bool.not_eq_true] at hrecorded
      by_cases hrest : rest = []
      · subst hrest
        refine hend ?_ _ _ rfl ?_
        · have hlater := hcalled.later
          simp only [ne_eq, not_true_eq_false, decide_false] at hlater
          simp [Started.followed, hcalled.ends, hlater]
        · rw [managerLoop, Started.outcome, if_neg fun h => by simp [hrecorded] at h]
          exact hcalled.result
      · rcases ih (callProvider env text (rest ≠ []) s provider).1
          (callProvider env text (rest ≠ []) s provider).2 hrest with ⟨new, hnew⟩
        have hlater : e.later = true := by
          rw [hcalled.later]
          exact decide_eq_true hrest
        have hall : ∀ b ∈ front ++ [e], b.followed env.py token := by
          intro b hb
          rcases List.mem_append.mp hb with hb | hb
          · exact hfront b hb
          · exact List.mem_singleton.mp hb ▸ .inr ⟨hsuccess, hrecorded, hlater⟩
        refine ⟨(front ++ [e]) ++ new, ?_, Retries.append hall hnew.loop, ?_, ?_⟩
        · rw [hnew.log, hcalled.log, List.append_assoc]
        · rcases hnew.result with ⟨b, hb, hr⟩
          exact ⟨b, by rw [List.getLast?_append, hb, Option.some_or], hr⟩
        · intro b hb
          rcases List.mem_append.mp hb with hb | hb
          · exact hcalled.all b hb
          · exact hnew.all b hb

/-- The attempts of a turn form a retry loop, and its last attempt decides what the
turn returns. -/
theorem managerCode_attempts (env : Env) (token text : String) (providers : List Provider)
    (s : ManagerState) (hne : providers ≠ []) :
    Attempts env token text s (managerCode env token text providers s).2
      (managerCode env token text providers s).1 (turnAttempts env token text providers s) := by
  rcases managerLoop_attempts env token text (.of doNothingOutput []) providers s hne with
    ⟨new, hnew⟩
  have heq : turnAttempts env token text providers s = new := by
    rw [turnAttempts, managerCode, hnew.log, List.drop_left]
  rw [heq]
  exact hnew

end Manager
end Stemcell
