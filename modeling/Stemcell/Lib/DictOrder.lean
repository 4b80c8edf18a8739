import Stemcell.Lib.Dict
import Mathlib.Data.List.Sort

/-!
# Dictionaries in the order of their keys

A dictionary that was written with sorted keys comes back in that order.

Main results:

- Theorem `Dict.get?_sortKeys`: the order changes no lookup.
- Theorem `Dict.head_sortKeys`: the first key is the smallest one.
-/

namespace Stemcell
namespace Lib
namespace Dict

variable {κ ν : Type} [LinearOrder κ]

/-- The entries in the order of their keys. -/
def sortKeys (d : Dict κ ν) : Dict κ ν where
  entries := d.entries.insertionSort fun a b => a.1 ≤ b.1
  nodup := ((List.perm_insertionSort _ _).map Prod.fst).nodup_iff.mpr d.nodup

theorem sortKeys_perm (d : Dict κ ν) : d.sortKeys.entries.Perm d.entries :=
  List.perm_insertionSort _ _

/-- The order changes no lookup. -/
@[simp]
theorem get?_sortKeys (d : Dict κ ν) (k : κ) : d.sortKeys.get? k = d.get? k := by
  apply Option.ext
  intro v
  rw [get?_eq_some_iff, get?_eq_some_iff]
  exact (sortKeys_perm d).mem_iff

@[simp]
theorem size_sortKeys (d : Dict κ ν) : d.sortKeys.size = d.size :=
  (sortKeys_perm d).length_eq

theorem mem_keys_sortKeys (d : Dict κ ν) (k : κ) : k ∈ d.sortKeys.keys ↔ k ∈ d.keys :=
  ((sortKeys_perm d).map Prod.fst).mem_iff

/-- The keys are in order. -/
theorem sortKeys_pairwise (d : Dict κ ν) : d.sortKeys.keys.Pairwise (· ≤ ·) := by
  apply List.pairwise_map.mpr
  apply @List.pairwise_insertionSort _ (fun a b : κ × ν => a.1 ≤ b.1) _ ⟨?_⟩ ⟨?_⟩
  · intro a b
    exact le_total a.1 b.1
  · intro a b c hab hbc
    exact le_trans hab hbc

/-- The first key is the smallest one. -/
theorem head_sortKeys {d : Dict κ ν} {least : κ} (hmem : least ∈ d.keys)
    (hle : ∀ k ∈ d.keys, least ≤ k) : d.sortKeys.keys.head? = some least := by
  cases hkeys : d.sortKeys.keys with
  | nil =>
      have hsome := (mem_keys_sortKeys d least).mpr hmem
      rw [hkeys] at hsome
      cases hsome
  | cons first rest =>
      have hfirst : first ∈ d.keys := by
        rw [← mem_keys_sortKeys, hkeys]
        exact List.mem_cons_self
      have hsorted := sortKeys_pairwise d
      rw [hkeys] at hsorted
      have hleast := (mem_keys_sortKeys d least).mpr hmem
      rw [hkeys, List.mem_cons] at hleast
      rw [List.head?_cons]
      rcases hleast with heq | hrest
      · rw [heq]
      · have hback := (List.pairwise_cons.mp hsorted).1 least hrest
        rw [le_antisymm hback (hle first hfirst)]

end Dict
end Lib
end Stemcell
