import Stemcell.Lib.Transition
import Stemcell.Maintenance.WellFormed

/-!
# Runs of the maintenance coordinator

A run is a sequence of calls at non-decreasing clock readings, started from the
default document.  Next to the stored document the world remembers what the
coordinator has handed out: the admissions and activity tokens it issued, and
the queue ids that a `complete_roots` call has settled.

Main results:

- Definition `coordinator`: the transition system of all runs.
- Theorem `reachable_wellFormed`: every reachable document is well formed.
- Theorem `step_effects`: a step leaves the document alone or is a sequence of
  effects.
-/

namespace Stemcell
namespace Maintenance

open Lib

/-- Admissions handed out by an answer. -/
def Reply.roots : Reply → List RootAdmission
  | .enqueued result => result.admission.toList
  | .admissions roots => roots
  | _ => []

/-- Activity tokens handed out by an answer, those of admissions included. -/
def Reply.tokens : Reply → List ActivityToken
  | .activity token => token.toList
  | reply => reply.roots.map RootAdmission.activity

/-- Queue ids of the roots a call settles for good in this document. -/
def Op.settles : Op → State → List String
  | .completeRoots roots, s => (s.rootQueue.filter (presented roots)).map RootItem.queueId
  | _, _ => []

/-- Lineages a call opens by adopting work from before the fence. -/
def Op.adoptedLineages : Op → Reply → List String
  | .adoptPrefenceActivity .., reply => reply.tokens.map ActivityToken.lineageId
  | _, _ => []

/-- The stored document and what has been handed out, completed and adopted so
far. -/
structure World where
  state : State
  now : Seconds
  admissions : List RootAdmission
  tokens : List ActivityToken
  completed : List String
  adopted : List String

/-- The world before the first call, its clock at `t`. -/
def World.initial (t : Seconds) : World where
  state := defaultState
  now := t
  admissions := []
  tokens := []
  completed := []
  adopted := []

/-- The world after a call at time `t`.  A call that raises stores nothing. -/
def World.after (host : Host) (w : World) (op : Op) (t : Seconds) : World :=
  match call host op w.state t with
  | .ok (reply, s') =>
      { state := s'
        now := t
        admissions := w.admissions ++ reply.roots
        tokens := w.tokens ++ reply.tokens
        completed := w.completed ++ op.settles (prune w.state t)
        adopted := w.adopted ++ op.adoptedLineages reply }
  | .error _ => { w with now := t }

/-- A call at a clock reading. -/
structure Event where
  op : Op
  time : Seconds

/-- Runs of the coordinator. -/
def coordinator (host : Host) : TransitionSystem World Event where
  init w := ∃ t, w = World.initial t
  step w e w' :=
    w.now ≤ e.time ∧ e.op.Known host w.state.uuidsDrawn ∧ w' = w.after host e.op e.time

variable {host : Host} {w w' : World} {e : Event} {op : Op} {t : Seconds}

theorem World.after_ok {r : Reply} {s' : State} (h : call host op w.state t = .ok (r, s')) :
    w.after host op t =
      { state := s'
        now := t
        admissions := w.admissions ++ r.roots
        tokens := w.tokens ++ r.tokens
        completed := w.completed ++ op.settles (prune w.state t)
        adopted := w.adopted ++ op.adoptedLineages r } := by
  simp [World.after, h]

theorem World.after_error {err : MaintenanceError} (h : call host op w.state t = .error err) :
    w.after host op t = { w with now := t } := by
  simp [World.after, h]

/-- A step raises and stores nothing, or it is a successful call. -/
theorem step_cases (h : (coordinator host).step w e w') :
    w' = { w with now := e.time } ∨
      ∃ r s', call host e.op w.state e.time = .ok (r, s') ∧
        w' =
          { state := s'
            now := e.time
            admissions := w.admissions ++ r.roots
            tokens := w.tokens ++ r.tokens
            completed := w.completed ++ e.op.settles (prune w.state e.time)
            adopted := w.adopted ++ e.op.adoptedLineages r } := by
  obtain ⟨-, -, rfl⟩ := h
  cases hcall : call host e.op w.state e.time with
  | error err => exact .inl (World.after_error hcall)
  | ok result => exact .inr ⟨result.1, result.2, rfl, World.after_ok hcall⟩

/-- Every reachable document is well formed. -/
theorem reachable_wellFormed (h : (coordinator host).Reachable w) :
    WellFormed host w.state := by
  refine h.invariant (I := fun w => WellFormed host w.state) ?_ ?_
  · rintro _ ⟨t, rfl⟩
    exact wellFormed_default host
  · intro w e w' _ hwf hstep
    rcases step_cases hstep with rfl | ⟨r, s', hcall, rfl⟩
    · exact hwf
    · exact hwf.call hstep.2.1 hcall

/-- A document invariant: kept by every effect, hence by every reachable
document. -/
theorem reachable_invariant {I : State → Prop} (h0 : I defaultState)
    (hstep : ∀ op now s s', WellFormed host s → Effect host op now s s' → I s → I s')
    (h : (coordinator host).Reachable w) : I w.state := by
  refine h.invariant (I := fun w => I w.state) ?_ ?_
  · rintro _ ⟨t, rfl⟩
    exact h0
  · intro w e w' hreach hI hst
    have hwf := reachable_wellFormed hreach
    rcases step_cases hst with rfl | ⟨r, s', hcall, rfl⟩
    · exact hI
    · have heffs := hwf.call_effects hst.2.1 hcall
      have hpruned : WellFormed host (prune w.state e.time) ∧ I (prune w.state e.time) :=
        heffs.1.invariant (I := fun s => WellFormed host s ∧ I s)
          (fun a b heff hab => ⟨hab.1.effect heff, hstep _ _ a b hab.1 heff hab.2⟩) ⟨hwf, hI⟩
      have hboth : WellFormed host s' ∧ I s' :=
        heffs.2.invariant (I := fun s => WellFormed host s ∧ I s)
          (fun a b heff hab => ⟨hab.1.effect heff, hstep _ _ a b hab.1 heff hab.2⟩) hpruned
      exact hboth.2

/-! ## Concrete runs -/

/-- A host whose `n`-th draw is `n + 1` letters long, to evaluate runs on. -/
def countingHost : Host where
  uuid4 n := String.ofList (List.replicate (n + 1) 'a')
  uuid4_injective m n h := by
    have hlist := congrArg (fun text => text.toList.length) h
    simpa using hlist
  uuid4_ne_empty n h := by
    have hlist := congrArg (fun text => text.toList.length) h
    simp at hlist
  uuid4_hex n c hc := by
    rw [String.toList_ofList, List.mem_replicate] at hc
    rw [hc.2]
    decide
  sha256 := id
  getpid := 1

/-- Make these calls one after another. -/
def World.play (host : Host) (w : World) (events : List Event) : World :=
  events.foldl (fun w e => w.after host e.op e.time) w

/-- The clock readings of the calls do not go back. -/
def Clocked : Seconds → List Event → Prop
  | _, [] => True
  | now, e :: rest => now ≤ e.time ∧ Clocked e.time rest

instance decidableClocked : (now : Seconds) → (events : List Event) →
    Decidable (Clocked now events)
  | _, [] => isTrue trivial
  | now, e :: rest =>
      have := decidableClocked e.time rest
      inferInstanceAs (Decidable (now ≤ e.time ∧ Clocked e.time rest))

@[simp]
theorem World.after_now (host : Host) (w : World) (op : Op) (t : Seconds) :
    (w.after host op t).now = t := by
  unfold World.after
  split <;> rfl

/-- Calls at non-decreasing clock readings make a run. -/
theorem play_run {events : List Event} (hclock : Clocked w.now events)
    (hknown : ∀ e ∈ events, ∀ n, e.op.Known host n) :
    (coordinator host).Run w events (w.play host events) := by
  induction events generalizing w with
  | nil => exact .nil w
  | cons e rest ih =>
      refine .cons ⟨hclock.1, hknown e List.mem_cons_self _, rfl⟩ (ih ?_ ?_)
      · rw [World.after_now]
        exact hclock.2
      · exact fun e' he' => hknown e' (List.mem_cons_of_mem e he')

theorem play_reachable {events : List Event} (hreach : (coordinator host).Reachable w)
    (hclock : Clocked w.now events) (hknown : ∀ e ∈ events, ∀ n, e.op.Known host n) :
    (coordinator host).Reachable (w.play host events) :=
  hreach.run (play_run hclock hknown)

end Maintenance
end Stemcell
