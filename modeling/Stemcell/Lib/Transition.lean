import Mathlib.Logic.Relation

/-!
# Labelled transition systems

A transition system is a set of initial states with a labelled step relation.
Safety properties are proved once by the invariant rule of this module, and
properties of a stretch of a run by the rules for `Run`.

Main results:

- Theorem `Reachable.invariant`: an inductive invariant holds in every
  reachable state.
- Theorem `Run.preserves`: a predicate kept by every step that the run is
  allowed to take is kept by the whole run.
- Theorems `Run.play` and `Reachable.play`: playing events is a run.
- Theorem `Run.restrict_iff`: where every unguarded step breaks a law, the runs that keep
  it are the guarded runs.
- Theorem `Run.occurrences_le_one`: what leaves a mark that rules it out happens
  once at most.
- Theorem `Reachable.exists_run`: a reachable state is the end of a run
  from an initial state.
-/

namespace Stemcell
namespace Lib

variable {σ ε : Type}

/-- Initial states and labelled steps. -/
structure TransitionSystem (σ ε : Type) where
  init : σ → Prop
  step : σ → ε → σ → Prop

namespace TransitionSystem

/-- The same system with its steps restricted by a guard on state and label. -/
def restrict (S : TransitionSystem σ ε) (guard : σ → ε → Prop) :
    TransitionSystem σ ε where
  init := S.init
  step s e t := guard s e ∧ S.step s e t

/-- States met by some finite run. -/
inductive Reachable (S : TransitionSystem σ ε) : σ → Prop
  | init {s : σ} (h : S.init s) : Reachable S s
  | step {s t : σ} {e : ε} (h : Reachable S s) (hst : S.step s e t) : Reachable S t

/-- A finite run, with the labels it takes in order. -/
inductive Run (S : TransitionSystem σ ε) : σ → List ε → σ → Prop
  | nil (s : σ) : Run S s [] s
  | cons {s t u : σ} {e : ε} {es : List ε} (hst : S.step s e t) (h : Run S t es u) :
      Run S s (e :: es) u

variable {S : TransitionSystem σ ε}

/-- The invariant rule.  The step case may use that its source is reachable. -/
theorem Reachable.invariant {I : σ → Prop} (h0 : ∀ s, S.init s → I s)
    (hstep : ∀ s e t, S.Reachable s → I s → S.step s e t → I t)
    {s : σ} (h : S.Reachable s) : I s := by
  induction h with
  | init hs => exact h0 _ hs
  | step hr hst ih => exact hstep _ _ _ hr ih hst

/-- Restricting the steps only loses reachable states. -/
theorem Reachable.of_restrict {guard : σ → ε → Prop} {s : σ}
    (h : (S.restrict guard).Reachable s) : S.Reachable s := by
  induction h with
  | init hs => exact .init hs
  | step _ hst ih => exact .step ih hst.2

theorem Run.single {s t : σ} {e : ε} (h : S.step s e t) : S.Run s [e] t :=
  .cons h (.nil t)

theorem Run.append {s t u : σ} {es fs : List ε} (h : S.Run s es t)
    (h' : S.Run t fs u) : S.Run s (es ++ fs) u := by
  induction h with
  | nil => exact h'
  | cons hst _ ih => exact .cons hst (ih h')

/-- A run can be cut anywhere. -/
theorem Run.split {s u : σ} {es fs : List ε} (h : S.Run s (es ++ fs) u) :
    ∃ t, S.Run s es t ∧ S.Run t fs u := by
  induction es generalizing s with
  | nil => exact ⟨s, .nil s, h⟩
  | cons e es ih =>
      cases h with
      | cons hst hrest =>
          rcases ih hrest with ⟨t, hes, hfs⟩
          exact ⟨t, .cons hst hes, hfs⟩

theorem Run.of_restrict {guard : σ → ε → Prop} {s t : σ} {es : List ε}
    (h : (S.restrict guard).Run s es t) : S.Run s es t := by
  induction h with
  | nil => exact .nil _
  | cons hst _ ih => exact .cons hst.2 ih

/-- A run from a reachable state ends in a reachable state. -/
theorem Reachable.run {s t : σ} {es : List ε} (h : S.Reachable s)
    (hrun : S.Run s es t) : S.Reachable t := by
  induction hrun with
  | nil => exact h
  | cons hst _ ih => exact ih (.step h hst)

/-- Every reachable state ends a run from an initial state. -/
theorem Reachable.exists_run {t : σ} (h : S.Reachable t) :
    ∃ s es, S.init s ∧ S.Run s es t := by
  induction h with
  | init hs => exact ⟨_, [], hs, .nil _⟩
  | step _ hst ih =>
      obtain ⟨s, es, hs, hrun⟩ := ih
      exact ⟨s, es ++ [_], hs, hrun.append (.single hst)⟩

/-- A predicate kept by each guarded step is kept by a run of guarded steps. -/
theorem Run.keeps {guard : σ → ε → Prop} {I : σ → Prop} {s t : σ} {es : List ε}
    (hrun : (S.restrict guard).Run s es t)
    (hstep : ∀ a e b, guard a e → S.step a e b → I a → I b) (hs : I s) : I t := by
  induction hrun with
  | nil => exact hs
  | cons hst _ ih => exact ih (hstep _ _ _ hst.1 hst.2 hs)

/-- A predicate kept by each step from a reachable state is kept by a run. -/
theorem Run.invariant {I : σ → Prop} {s t : σ} {es : List ε} (hreach : S.Reachable s)
    (hrun : S.Run s es t) (hstep : ∀ a e b, S.Reachable a → I a → S.step a e b → I b)
    (hs : I s) : I t := by
  induction hrun with
  | nil => exact hs
  | cons hst _ ih => exact ih (.step hreach hst) (hstep _ _ _ hreach hs hst)

/-- A predicate kept by each guarded step from a reachable state is kept by a
run of guarded steps. -/
theorem Run.preserves {guard : σ → ε → Prop} {I : σ → Prop} {s t : σ} {es : List ε}
    (hreach : S.Reachable s) (hrun : (S.restrict guard).Run s es t)
    (hstep : ∀ a e b, S.Reachable a → guard a e → I a → S.step a e b → I b)
    (hs : I s) : I t := by
  induction hrun with
  | nil => exact hs
  | cons hst _ ih =>
      exact ih (.step hreach hst.2) (hstep _ _ _ hreach hst.1 hs hst.2)

/-- The end of a run of a deterministic system. -/
theorem Run.unique (hdet : ∀ a e b c, S.step a e b → S.step a e c → b = c) {s t u : σ}
    {es : List ε} (h : S.Run s es t) (h' : S.Run s es u) : t = u := by
  induction h with
  | nil =>
      cases h'
      rfl
  | cons hst _ ih =>
      cases h' with
      | cons hst' hrest =>
          rw [hdet _ _ _ _ hst' hst] at hrest
          exact ih hrest

/-- A run of events that are guarded wherever they happen. -/
theorem Run.guarded {guard : σ → ε → Prop} {s t : σ} {es : List ε} (hrun : S.Run s es t)
    (hguard : ∀ e ∈ es, ∀ a, guard a e) : (S.restrict guard).Run s es t := by
  induction hrun with
  | nil => exact .nil _
  | @cons a b _ e _ hst _ ih =>
      have hguarded : (S.restrict guard).step a e b := ⟨hguard e List.mem_cons_self a, hst⟩
      apply Run.cons hguarded
      exact ih fun f hf => hguard f (List.mem_cons_of_mem _ hf)

/-- If guarded steps keep a law and every other step breaks it, then the law holds all along
a run exactly if all its steps are guarded. -/
theorem Run.restrict_iff {guard : σ → ε → Prop} {law : σ → Prop} {s t : σ} {es : List ε}
    (hdet : ∀ a e b c, S.step a e b → S.step a e c → b = c)
    (hlaw : ∀ a, (S.restrict guard).Reachable a → law a)
    (hbreaks : ∀ a e b, (S.restrict guard).Reachable a → S.step a e b → ¬ guard a e → ¬ law b)
    (hs : (S.restrict guard).Reachable s) (hrun : S.Run s es t) :
    (∀ fs u, fs <+: es → S.Run s fs u → law u) ↔ (S.restrict guard).Run s es t := by
  constructor
  · intro hall
    induction hrun with
    | nil => exact .nil _
    | @cons a b _ e es hst hrest ih =>
        by_cases hguard : guard a e
        · have hguarded : (S.restrict guard).step a e b := ⟨hguard, hst⟩
          apply Run.cons hguarded
          apply ih (hs.step hguarded)
          intro fs u hfs hu
          exact hall (e :: fs) u (List.cons_prefix_cons.mpr ⟨rfl, hfs⟩) (.cons hst hu)
        · have hfirst : [e] <+: e :: es := List.cons_prefix_cons.mpr ⟨rfl, List.nil_prefix⟩
          exact absurd (hall [e] b hfirst (.single hst)) (hbreaks a e b hs hst hguard)
  · rintro hguarded fs u ⟨gs, rfl⟩ hu
    rcases hguarded.split with ⟨v, hv, -⟩
    rw [Run.unique hdet hu hv.of_restrict]
    exact hlaw v (hs.run hv)

/-! ## Playing events -/

/-- The steps of a list of events, where `next` says what a step leads to, if it can be
taken. -/
def play (next : σ → ε → Option σ) : σ → List ε → Option σ
  | s, [] => some s
  | s, e :: es => (next s e).bind fun t => play next t es

/-- What is played is a run. -/
theorem Run.play {next : σ → ε → Option σ} {s t : σ} {es : List ε}
    (hnext : ∀ a e b, next a e = some b → S.step a e b)
    (hplay : TransitionSystem.play next s es = some t) : S.Run s es t := by
  induction es generalizing s with
  | nil =>
      cases hplay
      exact .nil _
  | cons e es ih =>
      rcases Option.bind_eq_some_iff.mp hplay with ⟨u, hu, hrest⟩
      exact .cons (hnext _ _ _ hu) (ih hrest)

/-- What is played from a reachable state is reached. -/
theorem Reachable.play {next : σ → ε → Option σ} {s t : σ} {es : List ε} (h : S.Reachable s)
    (hnext : ∀ a e b, next a e = some b → S.step a e b)
    (hplay : TransitionSystem.play next s es = some t) : S.Reachable t :=
  h.run (.play hnext hplay)

/-! ## Counting along a run -/

/-- How many steps of a run that `next` computes meet `f`. -/
def occurrences (next : σ → ε → σ) (f : σ → ε → Bool) : σ → List ε → Nat
  | _, [] => 0
  | s, e :: es => (f s e).toNat + occurrences next f (next s e) es

section Occurrences

variable {next : σ → ε → σ} {f : σ → ε → Bool} {guard : σ → ε → Prop} {mark : σ → Prop}
  {s t : σ} {es : List ε}

/-- Counting along two runs one after the other. -/
theorem Run.occurrences_append (hnext : ∀ a e b, S.step a e b → b = next a e) (fs : List ε)
    (hrun : S.Run s es t) :
    occurrences next f s (es ++ fs) = occurrences next f s es + occurrences next f t fs := by
  induction hrun with
  | nil => rw [List.nil_append, occurrences, Nat.zero_add]
  | cons hst _ ih =>
      rw [List.cons_append, occurrences, occurrences, ← hnext _ _ _ hst, ih, Nat.add_assoc]

/-- Under a mark that stays and that rules `f` out, `f` never happens. -/
theorem Run.occurrences_eq_zero (hnext : ∀ a e b, S.step a e b → b = next a e)
    (hkeeps : ∀ a e b, guard a e → S.step a e b → mark a → mark b)
    (hstops : ∀ a e, guard a e → mark a → f a e = false)
    (hrun : (S.restrict guard).Run s es t) (hs : mark s) : occurrences next f s es = 0 := by
  induction hrun with
  | nil => rfl
  | cons hst _ ih =>
      have hrest := ih (hkeeps _ _ _ hst.1 hst.2 hs)
      rw [occurrences, hstops _ _ hst.1 hs, ← hnext _ _ _ hst.2, hrest]
      rfl

/-- What leaves a mark that stays and that rules it out happens once at most. -/
theorem Run.occurrences_le_one (hnext : ∀ a e b, S.step a e b → b = next a e)
    (hleaves : ∀ a e b, guard a e → S.step a e b → f a e = true → mark b)
    (hkeeps : ∀ a e b, guard a e → S.step a e b → mark a → mark b)
    (hstops : ∀ a e, guard a e → mark a → f a e = false)
    (hrun : (S.restrict guard).Run s es t) : occurrences next f s es ≤ 1 := by
  induction hrun with
  | nil => exact Nat.zero_le 1
  | @cons a b _ e _ hst hrest ih =>
      rw [occurrences, ← hnext _ _ _ hst.2]
      by_cases hf : f a e = true
      · have hmark := hleaves _ _ _ hst.1 hst.2 hf
        rw [Run.occurrences_eq_zero hnext hkeeps hstops hrest hmark, hf]
        exact Nat.le_refl 1
      · rw [Bool.not_eq_true] at hf
        rw [hf, Bool.toNat_false, Nat.zero_add]
        exact ih

end Occurrences

end TransitionSystem

end Lib
end Stemcell
