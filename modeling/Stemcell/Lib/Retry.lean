import Mathlib.Data.List.Basic

/-!
# Retry loops

A retry loop makes attempts until one of them is not followed by another.  The
attempts it has made are a list in which every element but the last one asks for
another attempt.

Main results:

- Theorem `Retries.stops_iff`: nothing follows the attempts with a property exactly
  if none of them asks for another.
- Theorem `Retries.isLast_iff`: the last attempt is the one that asks for none.
- Theorem `Retries.append`: a loop may be entered after attempts that ask for more.
-/

namespace Stemcell
namespace Lib

variable {α : Type}

/-- Attempts of a loop; each one but the last asks for another. -/
inductive Retries (again : α → Prop) : List α → Prop
  | last {a : α} (h : ¬ again a) : Retries again [a]
  | next {a : α} {rest : List α} (h : again a) (hrest : Retries again rest) :
      Retries again (a :: rest)

namespace Retries

variable {again : α → Prop} {l : List α}

theorem ne_nil (h : Retries again l) : l ≠ [] := by
  cases h <;> exact List.cons_ne_nil _ _

/-- An attempt is the last one exactly if it asks for no other. -/
theorem rest_eq_nil_iff {front rest : List α} {a : α} (h : Retries again (front ++ a :: rest)) :
    rest = [] ↔ ¬ again a := by
  induction front with
  | nil =>
      rw [List.nil_append] at h
      cases h with
      | last hlast => simp [hlast]
      | next hagain hrest => simp [hagain, hrest.ne_nil]
  | cons b front ih =>
      rw [List.cons_append] at h
      generalize hl : front ++ a :: rest = l at h
      cases h with
      | last _ => simp at hl
      | next _ hrest => exact ih (hl ▸ hrest)

/-- Nothing follows the attempts with a property exactly if none of them asks for
another. -/
theorem stops_iff (h : Retries again l) (p : α → Prop) :
    (∀ front a rest, l = front ++ a :: rest → p a → rest = []) ↔
      ∀ a ∈ l, p a → ¬ again a := by
  constructor
  · intro hstops a ha hp
    rcases List.append_of_mem ha with ⟨front, rest, rfl⟩
    exact h.rest_eq_nil_iff.mp (hstops front a rest rfl hp)
  · rintro hends front a rest rfl hp
    exact h.rest_eq_nil_iff.mpr (hends a (List.mem_append_right _ List.mem_cons_self) hp)

/-- The last attempt is the one that asks for no other. -/
theorem isLast_iff (h : Retries again l) {i : Nat} {a : α} (hget : l[i]? = some a) :
    i + 1 = l.length ↔ ¬ again a := by
  induction h generalizing i with
  | last hlast =>
      cases i with
      | zero => simpa using (Option.some.inj hget) ▸ hlast
      | succ i => simp at hget
  | @next b rest hagain hrest ih =>
      cases i with
      | zero =>
          have hne : rest.length ≠ 0 := by
            simpa using hrest.ne_nil
          have hab : b = a := Option.some.inj hget
          simp only [List.length_cons, hab ▸ hagain, not_true, iff_false]
          omega
      | succ i =>
          rw [List.getElem?_cons_succ] at hget
          rw [← ih hget, List.length_cons]
          omega

/-- Attempts that ask for more come before a loop. -/
theorem append {front : List α} (hfront : ∀ a ∈ front, again a) (h : Retries again l) :
    Retries again (front ++ l) := by
  induction front with
  | nil => exact h
  | cons a rest ih =>
      exact .next (hfront a List.mem_cons_self)
        (ih fun b hb => hfront b (List.mem_cons_of_mem _ hb))

/-- The last attempt asks for no other, those before it do. -/
theorem split (h : Retries again l) :
    ∃ front a, l = front ++ [a] ∧ (∀ b ∈ front, again b) ∧ ¬ again a := by
  induction h with
  | @last a hlast => exact ⟨[], a, rfl, fun _ hb => (List.not_mem_nil hb).elim, hlast⟩
  | @next a rest hagain _ ih =>
      rcases ih with ⟨front, b, heq, hfront, hb⟩
      refine ⟨a :: front, b, by rw [heq, List.cons_append], ?_, hb⟩
      intro c hc
      rcases List.mem_cons.mp hc with hca | hc
      · exact hca ▸ hagain
      · exact hfront c hc

end Retries

end Lib
end Stemcell
