import Mathlib.Data.List.Dedup
import Mathlib.Data.List.Sort
import Mathlib.Order.Basic

/-!
# Sorted lists without repetitions

The elements of a list in order, each once, as `sorted(set(values))` has them.

Main results:

- Theorem `sortedSet_pairwise`: they are strictly increasing.
- Theorem `mem_sortedSet`: they are the elements of the list.
- Theorem `sortedSet_eq_self_iff`: the strictly increasing lists are the fixed points.
- Theorem `perm_of_sortedSet_length`: if none is lost, they are a permutation of the list.
-/

namespace Stemcell
namespace Lib

variable {α : Type} [LinearOrder α]

/-- `sorted(set(values))`. -/
def sortedSet (values : List α) : List α :=
  values.dedup.insertionSort (· ≤ ·)

variable {values : List α} {value : α}

@[simp]
theorem mem_sortedSet : value ∈ sortedSet values ↔ value ∈ values := by
  unfold sortedSet
  rw [List.mem_insertionSort, List.mem_dedup]

theorem sortedSet_perm (values : List α) : (sortedSet values).Perm values.dedup :=
  List.perm_insertionSort _ _

theorem sortedSet_pairwise (values : List α) : (sortedSet values).Pairwise (· < ·) := by
  have hle : (sortedSet values).Pairwise (· ≤ ·) := List.pairwise_insertionSort (· ≤ ·) _
  have hne : (sortedSet values).Pairwise (· ≠ ·) :=
    (sortedSet_perm values).nodup_iff.mpr values.nodup_dedup
  exact (hle.and hne).imp fun h => lt_of_le_of_ne h.1 h.2

theorem nodup_of_increasing (h : values.Pairwise (· < ·)) : values.Nodup :=
  h.imp fun hlt => ne_of_lt hlt

theorem sortedSet_eq_self (h : values.Pairwise (· < ·)) : sortedSet values = values := by
  unfold sortedSet
  rw [(nodup_of_increasing h).dedup]
  exact (h.imp fun hlt => le_of_lt hlt).insertionSort_eq

theorem sortedSet_eq_self_iff : sortedSet values = values ↔ values.Pairwise (· < ·) := by
  constructor
  · intro h
    rw [← h]
    exact sortedSet_pairwise values
  · exact sortedSet_eq_self

/-- A list that loses nothing is a permutation of its elements in order. -/
theorem perm_of_sortedSet_length (h : values.length ≤ (sortedSet values).length) :
    (sortedSet values).Perm values := by
  have hlength := (sortedSet_perm values).length_eq
  have hdedup : values.dedup = values :=
    (List.dedup_sublist values).eq_of_length_le (by omega)
  have hperm := sortedSet_perm values
  rw [hdedup] at hperm
  exact hperm

end Lib
end Stemcell
