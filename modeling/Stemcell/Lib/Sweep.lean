import Mathlib.Data.List.Basic
import Mathlib.Data.List.Infix
import Mathlib.Data.List.Perm.Basic

/-!
# Keeping the first, sweeping the rest

A store has roots that share their leaves.  A collection keeps the first roots of an order
and removes the others one after the other, and after them the leaves that no kept root
refers to.

Main results:

- Theorem `mem_take_iff_of_pairwise`: the first `n` of a sorted list are those with fewer than
  `n` before them.
- Theorem `leaf_not_referenced`: after any part of a sweep, no removed leaf belongs to a root
  that is still there.
-/

namespace Stemcell
namespace Lib

/-! ## The first of a list -/

section First

variable {α : Type} {r : α → α → Prop} [DecidableRel r] {xs ys : List α} {x : α} {n : Nat}

/-- The first `n` of a sorted list are those with fewer than `n` before them. -/
theorem mem_take_iff_of_pairwise (hasymm : ∀ a b, r a b → ¬ r b a) (h : xs.Pairwise r) :
    x ∈ xs.take n ↔ x ∈ xs ∧ (xs.filter (r · x)).length < n := by
  have hirrefl : ∀ a, ¬ r a a := fun a ha => hasymm a a ha ha
  induction xs generalizing n with
  | nil => simp
  | cons a xs ih =>
      rw [List.pairwise_cons] at h
      cases n with
      | zero => simp
      | succ n =>
          by_cases hx : x = a
          · -- Nothing comes before the head.
            subst hx
            have hnone : xs.filter (r · x) = [] := by
              rw [List.filter_eq_nil_iff]
              intro b hb
              simpa using hasymm x b (h.1 b hb)
            simp [hirrefl x, hnone]
          · by_cases hmem : x ∈ xs
            · simp [hx, ih h.2, h.1 x hmem, hmem]
            · simp [hx, ih h.2, hmem]

end First

/-! ## The sweep -/

section Sweep

variable {ρ ℓ : Type}

/-- The removal of a root or of a leaf. -/
inductive Removal (ρ ℓ : Type)
  | root (name : ρ)
  | leaf (name : ℓ)
deriving DecidableEq, Repr

/-- The roots first, then the leaves. -/
def sweep (roots : List ρ) (leaves : List ℓ) : List (Removal ρ ℓ) :=
  roots.map .root ++ leaves.map .leaf

variable {roots : List ρ} {leaves : List ℓ} {done : List (Removal ρ ℓ)} {root : ρ} {leaf : ℓ}

@[simp]
theorem root_mem_sweep :
    (Removal.root root : Removal ρ ℓ) ∈ sweep roots leaves ↔ root ∈ roots := by
  simp [sweep]

@[simp]
theorem leaf_mem_sweep :
    (Removal.leaf leaf : Removal ρ ℓ) ∈ sweep roots leaves ↔ leaf ∈ leaves := by
  simp [sweep]

/-- When a leaf goes, every root that has to go is gone. -/
theorem roots_first (hdone : done <+: sweep roots leaves) (hleaf : .leaf leaf ∈ done)
    (hroot : root ∈ roots) : .root root ∈ done := by
  rcases hdone with ⟨rest, hrest⟩
  rcases List.append_eq_append_iff.mp hrest with ⟨later, hroots, -⟩ | ⟨swept, hdone, -⟩
  · have hmem : Removal.leaf leaf ∈ roots.map (Removal.root (ℓ := ℓ)) := by
      rw [hroots]
      exact List.mem_append_left _ hleaf
    simp at hmem
  · rw [hdone]
    exact List.mem_append_left _ (List.mem_map_of_mem hroot)

/-- If no root that stays refers to a leaf that goes, then after any part of the sweep no
removed leaf belongs to a root that is still there. -/
theorem leaf_not_referenced {refers : ρ → ℓ → Prop} {present : ρ → Prop}
    (hsafe : ∀ root, present root → root ∉ roots → ∀ leaf ∈ leaves, ¬ refers root leaf)
    (hdone : done <+: sweep roots leaves) (hpresent : present root) (hkept : .root root ∉ done)
    (hrefers : refers root leaf) : .leaf leaf ∉ done := by
  intro hleaf
  by_cases hroot : root ∈ roots
  · exact hkept (roots_first hdone hleaf hroot)
  · exact hsafe root hpresent hroot leaf (leaf_mem_sweep.mp (hdone.subset hleaf)) hrefers

end Sweep

end Lib
end Stemcell
