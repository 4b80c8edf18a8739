import Stemcell.Manager.Provider

/-!
# Replays of a request

The request text of a turn goes to every attempt that the turn makes.  A turn that
acted must not make another one, for the manager would act on the request twice.

Main results:

- Definition `NoReplay`: no attempt with the request follows one that acted.
- Theorem `noReplay_iff`: this holds exactly if every attempt that acted was the last
  word of its adapter and either succeeded, or is on record, or had no other provider
  behind it.
- Theorem `recorded_of_noted`: when an action is on record.
- Theorem `acted_stream_replayed`: an acted stream without an answer is replayed.
-/

namespace Stemcell
namespace Manager

open Lib

variable {env : Env} {token text : String} {providers : List Provider} {s : ManagerState}

/-- An attempt in which a command under the token of the turn succeeded. -/
def Started.acted (token : String) (e : Started) : Prop :=
  ∃ i ∈ e.attempt.invocations, i.token = token ∧ i.ok = true

/-- After an attempt that acted, the request text is not given to another one. -/
def NoReplay (env : Env) (token text : String) (providers : List Provider)
    (s : ManagerState) : Prop :=
  ∀ front e rest, turnAttempts env token text providers s = front ++ e :: rest →
    e.acted token → ∀ b ∈ rest, b.text ≠ text

/-- An attempt that is the last word of its adapter, and after which the loop over the
providers stops: it succeeded, it is on record, or no other provider is left. -/
structure Started.Final (py : Texts) (token : String) (e : Started) : Prop where
  adapter : e.again py = false
  loop : e.failed py = false ∨ e.recorded token = true ∨ e.later = false

theorem Started.final_iff {py : Texts} {e : Started} :
    e.Final py token ↔ ¬ e.followed py token := by
  unfold followed
  constructor
  · rintro ⟨hadapter, hloop⟩
    rintro (hagain | ⟨hfailed, hrecorded, hlater⟩)
    · simp [hadapter] at hagain
    · rcases hloop with h | h | h
      · simp [h] at hfailed
      · simp [h] at hrecorded
      · simp [h] at hlater
  · intro h
    rw [not_or, Bool.not_eq_true] at h
    refine ⟨h.1, ?_⟩
    by_contra hloop
    rw [not_or, not_or, Bool.not_eq_false, Bool.not_eq_true, Bool.not_eq_false] at hloop
    exact h.2 hloop

theorem turnAttempts_nil : turnAttempts env token text [] s = [] := by
  simp [turnAttempts, managerCode, managerLoop]

/-- A turn does not replay its request exactly if every attempt that acted is final. -/
theorem noReplay_iff :
    NoReplay env token text providers s ↔
      ∀ e ∈ turnAttempts env token text providers s, e.acted token →
        e.Final env.py token := by
  by_cases hne : providers = []
  · subst hne
    simp [NoReplay, turnAttempts_nil]
  have hattempts := managerCode_attempts env token text providers s hne
  have hstops : NoReplay env token text providers s ↔
      ∀ front e rest, turnAttempts env token text providers s = front ++ e :: rest →
        e.acted token → rest = [] := by
    refine forall₄_congr fun front e rest hsplit => imp_congr_right fun _ => ?_
    constructor
    · intro hrest
      rcases rest with _ | ⟨b, rest⟩
      · rfl
      · exact absurd ((hattempts.all b (by simp [hsplit])).text) (hrest b List.mem_cons_self)
    · rintro rfl b hb
      exact absurd hb List.not_mem_nil
  rw [hstops, hattempts.loop.stops_iff]
  exact forall₂_congr fun e _ => imp_congr_right fun _ => Started.final_iff.symm

/-! ## Records -/

/-- The record of a run survives the prunings of later commands. -/
def Survives (token : String) : Runs → List Invocation → Prop
  | _, [] => True
  | runs, i :: rest =>
      (pruneRuns runs i.time).get? token = runs.get? token ∧ Survives token (i.note runs) rest

theorem shows_note {runs : Runs} {i : Invocation} (hshows : shows token runs = true)
    (hkept : (pruneRuns runs i.time).get? token = runs.get? token) :
    shows token (i.note runs) = true := by
  unfold Invocation.note
  split
  · exact shows_kept hshows hkept
  · exact hshows

theorem shows_notes {runs : Runs} {later : List Invocation} (hshows : shows token runs = true)
    (hkept : Survives token runs later) :
    shows token (later.foldl Invocation.note runs) = true := by
  induction later generalizing runs with
  | nil => exact hshows
  | cons i rest ih => exact ih (shows_note hshows hkept.1) hkept.2

/-- A command that succeeded under the token of the turn, and was counted, shows after
its attempt unless it was pruned again. -/
theorem shows_of_noted {runs : Runs} {before later : List Invocation} {i : Invocation}
    (htoken : token ≠ "") (hi : i.token = token) (hok : i.ok = true) (hnoted : i.noted = true)
    (hkept : Survives token (i.note (before.foldl Invocation.note runs)) later) :
    shows token ((before ++ i :: later).foldl Invocation.note runs) = true := by
  rw [List.foldl_append, List.foldl_cons]
  refine shows_notes ?_ hkept
  rw [Invocation.note, if_pos hnoted, hi, hok]
  exact shows_noteInvocation htoken

/-- The record that the loop over the providers reads after an attempt. -/
theorem recorded_of_noted {e : Started} (he : e ∈ turnAttempts env token text providers s)
    {before later : List Invocation} {i : Invocation} (htoken : token ≠ "")
    (hsplit : e.attempt.invocations = before ++ i :: later)
    (hi : i.token = token) (hok : i.ok = true) (hnoted : i.noted = true)
    (hkept : ∀ runs, Survives token (i.note (before.foldl Invocation.note runs)) later)
    (hreadable : e.readable = true) : e.recorded token = true := by
  have hne : providers ≠ [] := by
    rintro rfl
    rw [turnAttempts_nil] at he
    exact List.not_mem_nil he
  rcases ((managerCode_attempts env token text providers s hne).all e he).noted with
    ⟨runs, hruns⟩
  rw [Started.recorded, hreadable, Bool.true_and, hruns, hsplit]
  exact shows_of_noted htoken hi hok hnoted (hkept runs)

/-! ## The replay -/

/-- Texts in lower case, without tool calls. -/
def plainTexts : Texts where
  str _ := ""
  lower := id
  dumps _ := ""
  dumpsSorted _ := ""
  rawDecode _ := none
  redact text _ := text

/-- A provider whose attempts are listed; all others end at once, without a word. -/
def scripted (attempts : List Attempt) : Nat → Attempt := fun n =>
  attempts.getD n
    { thread := .resumes
      reached := true
      invocations := []
      injections := []
      ending := .finished
        { resultText := ""
          rateLimit := none
          returnCode := 0
          executed := []
          stderr := ""
          errorSubtype := ""
          errorMsg := "" } }

/-- New conversations are numbered. -/
def numbered (attempts : List Attempt) : Env where
  py := plainTexts
  fresh n := String.ofList (List.replicate (n + 1) 'n')
  fresh_injective m n h := by
    have hlength := congrArg String.length h
    simpa using hlength
  script := scripted attempts
  readable _ := true

/-- The manager of a contact whose session is `session`. -/
def resuming (session : String) : ManagerState where
  claudeSession := some session
  codexThread := none
  drawn := 0
  runs := .empty
  log := []

/-- The manager replies with the client, then its stream ends without an answer. -/
def repliedThenLost : Attempt where
  thread := .resumes
  reached := true
  invocations :=
    [{ token := "t", command := "reply", ok := true, time := 0, noted := true }]
  injections := []
  ending := .finished
    { resultText := ""
      rateLimit := none
      returnCode := 1
      executed := []
      stderr := ""
      errorSubtype := ""
      errorMsg := "" }

/-- The attempts that the manager makes for "hello". -/
def lostAttempts : List Started :=
  turnAttempts (numbered [repliedThenLost]) "t" "hello" [.claude] (resuming "s")

theorem lostAttempts_acted :
    (lostAttempts.head?.any fun e => e.attempt.invocations.any fun i => i.token = "t" && i.ok) =
      true := by
  decide +kernel

/-- The plain text retry gives the request to the session once more, although the reply
is on record. -/
theorem acted_stream_replayed :
    ¬ ∀ env token text providers s, NoReplay env token text providers s := by
  intro hclaim
  have htexts : lostAttempts.map Started.text = ["hello", "hello"] := by decide +kernel
  rcases List.length_eq_two.mp (show lostAttempts.length = 2 by decide +kernel) with
    ⟨e, b, hattempts⟩
  have hacted := lostAttempts_acted
  rw [hattempts, List.map_cons, List.map_cons, List.map_nil] at htexts
  simp only [hattempts, List.head?_cons, Option.any_some, List.any_eq_true,
    Bool.and_eq_true, decide_eq_true_eq] at hacted
  refine hclaim (numbered [repliedThenLost]) "t" "hello" [.claude] (resuming "s") [] e [b]
    hattempts hacted b List.mem_cons_self ?_
  rw [List.cons.injEq, List.cons.injEq] at htexts
  exact htexts.2.1

end Manager
end Stemcell
