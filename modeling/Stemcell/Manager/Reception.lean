import Stemcell.Dispatch.Injection
import Stemcell.Manager.Replay

/-!
# Injected texts and the attempts of a turn

A run may try several providers, and a text that is injected into it reaches the
attempt that is live at that moment, if it reaches anyone.  The dispatcher sees
nothing of this: what was injected shares the fate of the run.

Main results:

- Definition `NotLost`: an injected root is completed only if the attempt that
  received its text ended with the result of the turn, and is retried otherwise.
- Theorem `notLost_iff`: this holds exactly if the run raised, or every injector's
  attempt received the text, was the last word of its adapter and did not fail.
- Theorem `retried_queued`: what is retried stays in the durable queue.
-/

namespace Stemcell
namespace Manager

open Lib
open Dispatch (Dispatcher Stage ThreadStep dispatching)
open Maintenance (Host RootAdmission Queued)

variable {env : Env} {token text : String} {providers : List Provider} {s : ManagerState}
  {host : Host} {maxActive : Nat} {w w' : Dispatch.World} {c : String} {raised : Bool}

/-- What the injectors of a turn accepted was injected into the run of the contact. -/
def Carries (d : Dispatcher) (c : String) (attempts : List Started) : Prop :=
  ∀ e ∈ attempts, ∀ x ∈ e.attempt.injections, x.admission ∈ d.injectedOf c

/-- The thread of the contact is about to complete the root. -/
def Completes (d : Dispatcher) (c : String) (a : RootAdmission) : Prop :=
  ∃ settled rest, d.threads.get? c = some (.completing settled rest) ∧ a ∈ settled

/-- The thread of the contact is about to give the root back to the queue. -/
def GivesBack (d : Dispatcher) (c : String) (a : RootAdmission) : Prop :=
  ∃ settled rest, d.threads.get? c = some (.retrying settled rest) ∧ a ∈ settled

/-- The attempt that accepted an injection, `rest` being the attempts after it, received
its text and ended with the result that the turn returned. -/
structure Answered (env : Env) (result : Result) (e : Started) (rest : List Started)
    (x : Injection) : Prop where
  received : x.received = true
  last : rest = []
  succeeded : e.failed env.py = false
  result : result = e.result env.py

/-- No injected root is lost: it is completed only if it was answered, and in every
other case it goes back to the queue. -/
def NotLost (env : Env) (token text : String) (providers : List Provider) (s : ManagerState)
    (d : Dispatcher) (c : String) : Prop :=
  ∀ front e rest, turnAttempts env token text providers s = front ++ e :: rest →
    ∀ x ∈ e.attempt.injections,
      (Completes d c x.admission →
        Answered env (managerCode env token text providers s).1 e rest x) ∧
      (¬ Answered env (managerCode env token text providers s).1 e rest x →
        GivesBack d c x.admission)

/-- The attempt received the injected text, was the last word of its adapter, and its
provider did not fail. -/
structure Received (env : Env) (e : Started) (x : Injection) : Prop where
  received : x.received = true
  adapter : e.again env.py = false
  succeeded : e.failed env.py = false

theorem answered_iff {front rest : List Started} {e : Started} {x : Injection}
    (hsplit : turnAttempts env token text providers s = front ++ e :: rest) :
    Answered env (managerCode env token text providers s).1 e rest x ↔ Received env e x := by
  have hne : providers ≠ [] := by
    rintro rfl
    rw [turnAttempts_nil] at hsplit
    simp at hsplit
  have hattempts := managerCode_attempts env token text providers s hne
  have hlast : rest = [] ↔ ¬ e.followed env.py token :=
    (hsplit ▸ hattempts.loop).rest_eq_nil_iff
  constructor
  · intro h
    have hends := hlast.mp h.last
    rw [Started.followed, not_or, Bool.not_eq_true] at hends
    exact ⟨h.received, hends.1, h.succeeded⟩
  · intro h
    have hrest : rest = [] := by
      rw [hlast, Started.followed]
      simp [h.adapter, h.succeeded]
    refine ⟨h.received, hrest, h.succeeded, ?_⟩
    rcases hattempts.result with ⟨b, hb, hresult⟩
    rw [hsplit, hrest, List.getLast?_concat, Option.some.injEq] at hb
    rw [hresult, ← hb, Started.outcome, if_neg]
    simp [h.succeeded]

/-! ## The end of a run -/

/-- The step in which the thread of a contact takes what was injected into its run. -/
def takeStep : Bool → ThreadStep
  | false => .review false
  | true => .collect

/-- Where the thread is after that. -/
def takenStage (raised : Bool) (settled : List RootAdmission)
    (rest : List (List RootAdmission)) : Stage :=
  match raised with
  | false => .completing settled rest
  | true => .retrying settled rest

/-- What was injected shares the fate of the run. -/
theorem takeStep_fate
    (hstep : (dispatching host maxActive).step w (.thread c (takeStep raised)) w') :
    ∃ settled rest, w'.dispatcher.threads.get? c = some (takenStage raised settled rest) ∧
      ∀ a ∈ w.dispatcher.injectedOf c, a ∈ settled := by
  have hnext := hstep.1
  simp only [Dispatch.World.next] at hnext
  cases hstage : w.dispatcher.threads.get? c with
  | none => simp [hstage] at hnext
  | some stage =>
      rw [hstage] at hnext
      cases raised <;> cases stage <;>
        simp only [takeStep, Dispatch.World.threadNext, Option.some.injEq, reduceCtorEq] at hnext
      case false.returned batch rest =>
        refine ⟨batch ++ w.dispatcher.injectedOf c, rest, ?_, ?_⟩
        · rw [← hnext]
          exact Dict.get?_set_self _ _ _
        · exact fun a ha => List.mem_append_right _ ha
      case true.raised batch rest =>
        refine ⟨batch ++ w.dispatcher.injectedOf c, rest, ?_, ?_⟩
        · rw [← hnext]
          exact Dict.get?_set_self _ _ _
        · exact fun a ha => List.mem_append_right _ ha

/-- The injected roots of a turn are accounted for exactly if the run raised, or each of
them was received by an attempt that ended with the result of its provider. -/
theorem notLost_iff (hcarries : Carries w.dispatcher c (turnAttempts env token text providers s))
    (hstep : (dispatching host maxActive).step w (.thread c (takeStep raised)) w') :
    NotLost env token text providers s w'.dispatcher c ↔
      raised = true ∨ ∀ e ∈ turnAttempts env token text providers s,
        ∀ x ∈ e.attempt.injections, Received env e x := by
  rcases takeStep_fate hstep with ⟨settled, roots, hstage, hsettled⟩
  cases raised with
  | true =>
      refine iff_of_true ?_ (.inl rfl)
      intro front e rest hsplit x hx
      constructor
      · rintro ⟨_, _, hother, -⟩
        rw [hstage] at hother
        cases hother
      · intro _
        exact ⟨settled, roots, hstage, hsettled _ (hcarries e (by simp [hsplit]) x hx)⟩
  | false =>
      simp only [Bool.false_eq_true, false_or]
      constructor
      · intro h e he x hx
        rcases List.append_of_mem he with ⟨front, rest, hsplit⟩
        refine (answered_iff hsplit).mp ((h front e rest hsplit x hx).1 ?_)
        exact ⟨settled, roots, hstage, hsettled _ (hcarries e he x hx)⟩
      · intro h front e rest hsplit x hx
        have hanswered := (answered_iff hsplit).mpr (h e (by simp [hsplit]) x hx)
        exact ⟨fun _ => hanswered, fun hnot => (hnot hanswered).elim⟩

/-- What a thread gives back stays in the durable queue, whether its call raises or not. -/
theorem retried_queued {a : RootAdmission} {settled : List RootAdmission}
    {rest : List (List RootAdmission)} {time : Maintenance.Seconds} {raises : Bool}
    (hreach : (dispatching host maxActive).Reachable w)
    (hstage : w.dispatcher.threads.get? c = some (.retrying settled rest))
    (hstep : (dispatching host maxActive).step w (.thread c (.retry time raises)) w')
    (hqueued : Queued w.coordinator.state a.queueId) :
    Queued w'.coordinator.state a.queueId := by
  have hnext := hstep.1
  simp only [Dispatch.World.next, hstage] at hnext
  cases raises with
  | true =>
      simp only [Dispatch.World.threadNext, Option.some.injEq] at hnext
      rw [← hnext]
      exact hqueued
  | false =>
      simp only [Dispatch.World.threadNext, Option.some.injEq] at hnext
      have hcall : (Maintenance.coordinator host).step w.coordinator
          ⟨.retryRoots settled 5, time⟩ (w.callAt host (.retryRoots settled 5) time).coordinator :=
        Dispatch.callAt_step (hstep.2.1 time rfl) trivial
      rw [← hnext]
      exact Maintenance.queued_kept (Dispatch.reachable_coordinator hreach) hcall
        (fun _ _ hremoves => hremoves) hqueued

/-! ## A text into a failing stream -/

/-- A stream that takes an injection; `returnCode` says how it ends. -/
def steered (returnCode : Int) (answer : String) : Attempt where
  thread := .resumes
  reached := true
  invocations := []
  injections := [{ admission := Dispatch.againRoot, received := true }]
  ending := .finished
    { resultText := answer
      rateLimit := none
      returnCode := returnCode
      executed := []
      stderr := ""
      errorSubtype := ""
      errorMsg := "" }

/-- A second message is injected into the run of a contact, which then returns. -/
def steeredRun : List Dispatch.Step :=
  [.submit "c1" "hello" false 0, .thread "c1" .pop, .thread "c1" .nextBatch,
    .submit "c1" "again" true 1, .thread "c1" (.finish false)]

/-- The world in which the run has returned. -/
def ended : Dispatch.World :=
  (Dispatch.World.play Maintenance.countingHost 16 steeredRun (.initial 0)).getD (.initial 0)

theorem ended_reachable : (dispatching Maintenance.countingHost 16).Reachable ended := by
  have hplay : (Dispatch.World.play Maintenance.countingHost 16 steeredRun
      (.initial 0)).isSome = true := by
    decide +kernel
  rcases Option.isSome_iff_exists.mp hplay with ⟨w, hw⟩
  rw [ended, hw, Option.getD_some]
  refine Dispatch.play_reachable (.init ⟨0, rfl⟩) ?_ hw
  rintro e he op time rfl
  simp [steeredRun] at he

/-- The next step of its thread. -/
def counted : Dispatch.World :=
  ended.takeInjected "c1" fun injected =>
    .completing ([Dispatch.helloRoot] ++ injected) []

theorem counted_step :
    (dispatching Maintenance.countingHost 16).step ended (.thread "c1" (takeStep false))
      counted := by
  have hstage : ended.dispatcher.threads.get? "c1" = some (.returned [Dispatch.helloRoot] []) := by
    decide +kernel
  refine ⟨?_, nofun, nofun⟩
  simp only [Dispatch.World.next, hstage, takeStep, Dispatch.World.threadNext]
  rfl

/-- The attempts of that run. -/
def steeredAttempts (attempts : List Attempt) : List Started :=
  turnAttempts (numbered attempts) "t" "hello" [.claude] (resuming "s")

theorem steered_carries {attempts : List Attempt}
    (hall : ((steeredAttempts attempts).all fun e => e.attempt.injections.all fun x =>
      decide (x.admission = Dispatch.againRoot)) = true) :
    Carries ended.dispatcher "c1" (steeredAttempts attempts) := by
  have hinjected : ended.dispatcher.injectedOf "c1" = [Dispatch.againRoot] := by decide +kernel
  intro e he x hx
  rw [List.all_eq_true] at hall
  have hadmission := List.all_eq_true.mp (hall e he) x hx
  rw [hinjected, of_decide_eq_true hadmission]
  exact List.mem_cons_self

/-- The stream answers: the second message is completed with the run. -/
theorem notLost_iff_answered :
    NotLost (numbered [steered 0 "done"]) "t" "hello" [.claude] (resuming "s")
      counted.dispatcher "c1" := by
  refine (notLost_iff (steered_carries (by decide +kernel)) counted_step).mpr (.inr ?_)
  have hall : ((steeredAttempts [steered 0 "done"]).all fun e => e.attempt.injections.all fun x =>
      x.received && !e.again plainTexts && !e.failed plainTexts) = true := by
    decide +kernel
  intro e he x hx
  have hx' := List.all_eq_true.mp (List.all_eq_true.mp hall e he) x hx
  simp only [Bool.and_eq_true, Bool.not_eq_true'] at hx'
  exact ⟨hx'.1.1, hx'.1.2, hx'.2⟩

/-- The stream that takes the injection fails, and the plain text retry answers. -/
def failingAttempts : List Attempt :=
  [steered 1 "", { steered 0 "done" with injections := [] }]

/-- The stream fails and a plain text retry answers in its place: the second message is
completed although only the failed stream received it. -/
theorem steered_text_lost :
    ¬ ∀ w, (dispatching Maintenance.countingHost 16).Reachable w →
      ∀ env token text providers s c raised w',
        Carries w.dispatcher c (turnAttempts env token text providers s) →
          (dispatching Maintenance.countingHost 16).step w (.thread c (takeStep raised)) w' →
            NotLost env token text providers s w'.dispatcher c := by
  intro hclaim
  have hnotLost := hclaim ended ended_reachable (numbered failingAttempts) "t" "hello" [.claude]
    (resuming "s") "c1" false counted (steered_carries (by decide +kernel)) counted_step
  rcases List.length_eq_two.mp (show (steeredAttempts failingAttempts).length = 2 by decide +kernel) with
    ⟨e, b, hattempts⟩
  have hcompletes : Completes counted.dispatcher "c1" Dispatch.againRoot := by
    refine ⟨[Dispatch.helloRoot, Dispatch.againRoot], [], ?_, by simp⟩
    decide +kernel
  have hinjections : (steeredAttempts failingAttempts).head?.map (fun e => e.attempt.injections.map
      Injection.admission) = some [Dispatch.againRoot] := by
    decide +kernel
  rw [hattempts, List.head?_cons, Option.map_some, Option.some.injEq, List.map_eq_singleton_iff]
    at hinjections
  rcases hinjections with ⟨x, hx, hadmission⟩
  have hanswered := (hnotLost [] e [b] hattempts x (by simp [hx])).1 (hadmission ▸ hcompletes)
  exact absurd hanswered.last (List.cons_ne_nil b [])

end Manager
end Stemcell
