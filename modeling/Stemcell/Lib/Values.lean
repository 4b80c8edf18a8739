import Mathlib.Data.List.MinMax
import Stemcell.Lib.Dict

/-!
# The values of a dictionary

The values as a list with repetitions, and what each operation adds to it or takes from it.

Main results:

- Theorem `Dict.values_pop`: a pop takes one value.
- Theorem `Dict.get?_mapWithKey`: each value replaced, in view of its key.
-/

namespace Stemcell
namespace Lib

variable {κ ν β : Type} [DecidableEq κ]

namespace Dict

variable {d : Dict κ ν} {k : κ} {v old : ν}

theorem values_set_of_fresh (h : d.get? k = none) : (d.set k v).values = d.values ++ [v] := by
  unfold values
  rw [entries_set_of_fresh]
  · exact List.map_append
  · intro hmem
    rcases (mem_keys_iff d k).mp hmem with ⟨found, hget⟩
    rw [h] at hget
    cases hget

/-- A value that looks the same takes the place of the old one. -/
theorem map_values_set {f : ν → β} (hget : d.get? k = some old) (hsame : f v = f old) :
    (d.set k v).values.map f = d.values.map f := by
  rcases d with ⟨entries, hnodup⟩
  change ((setEntries k v entries).map Prod.snd).map f = (entries.map Prod.snd).map f
  change getEntries k entries = some old at hget
  clear hnodup
  induction entries with
  | nil => cases hget
  | cons entry rest ih =>
      by_cases hkey : entry.1 = k
      · rw [getEntries, if_pos hkey, Option.some.injEq] at hget
        simp [setEntries, hkey, hget, hsame]
      · rw [getEntries, if_neg hkey] at hget
        simp only [setEntries, if_neg hkey, List.map_cons, ih hget]

omit [DecidableEq κ] in
theorem values_filter (d : Dict κ ν) (p : ν → Bool) :
    (d.filter fun _ v => p v).values = d.values.filter p :=
  List.filter_map.symm

/-- A pop takes one value. -/
theorem values_pop (hget : d.get? k = some v) : d.values.Perm (v :: (d.pop k).values) := by
  rcases d with ⟨entries, hnodup⟩
  change (entries.map Prod.snd).Perm
    (v :: (entries.filter fun entry => decide (entry.1 ≠ k)).map Prod.snd)
  change getEntries k entries = some v at hget
  induction entries with
  | nil => cases hget
  | cons entry rest ih =>
      rw [List.map_cons, List.nodup_cons] at hnodup
      by_cases hkey : entry.1 = k
      · rw [getEntries, if_pos hkey, Option.some.injEq] at hget
        have hrest : (rest.filter fun entry => decide (entry.1 ≠ k)) = rest := by
          apply List.filter_eq_self.mpr
          intro other hother
          rw [decide_eq_true_eq]
          rintro rfl
          exact hnodup.1 (hkey ▸ List.mem_map_of_mem hother)
        rw [List.filter_cons_of_neg (by simp [hkey]), hrest, List.map_cons, hget]
      · rw [getEntries, if_neg hkey] at hget
        rw [List.filter_cons_of_pos (by simp [hkey]), List.map_cons, List.map_cons]
        exact ((ih hnodup.2 hget).cons entry.2).trans (.swap _ _ _)

omit [DecidableEq κ] in
/-- The dictionary with each value replaced, in view of its key. -/
def mapWithKey {μ : Type} (d : Dict κ ν) (f : κ → ν → μ) : Dict κ μ where
  entries := d.entries.map fun entry => (entry.1, f entry.1 entry.2)
  nodup := by
    rw [List.map_map]
    exact d.nodup

theorem get?_mapWithKey {μ : Type} (d : Dict κ ν) (f : κ → ν → μ) (k : κ) :
    (d.mapWithKey f).get? k = (d.get? k).map (f k) := by
  change getEntries k (d.entries.map fun entry => (entry.1, f entry.1 entry.2))
    = (getEntries k d.entries).map (f k)
  induction d.entries with
  | nil => rfl
  | cons entry rest ih =>
      by_cases hkey : entry.1 = k
      · subst hkey
        simp [getEntries]
      · simpa [getEntries, hkey] using ih

end Dict

end Lib
end Stemcell
