import Mathlib.Data.Finset.Card
import Stemcell.Lib.Dict

/-!
# Sweeping a dictionary

A sweep reads every value of a dictionary.  It may fail on a value, it drops the values that it does
not keep, and it drops the first ones in some order until a limit is met.

Main results:

- Theorems `Dict.keepOption_of_kept` and `Dict.mapOption_idem`: a sweep that has been made finds
  nothing to do.
- Theorem `Dict.size_capped_le`: a cap holds.
-/

namespace Stemcell
namespace Lib
namespace Dict

variable {κ ν : Type} [DecidableEq κ] {d d' : Dict κ ν} {keep : ν → Option Bool}
  {f : ν → Option ν} {k : κ} {v : ν}

/-! ## Dropping -/

/-- The values that are kept, unless reading one of them fails. -/
def keepOption (d : Dict κ ν) (keep : ν → Option Bool) : Option (Dict κ ν) :=
  if d.values.all fun v => (keep v).isSome then some (d.filter fun _ v => keep v = some true)
  else none

theorem get?_keepOption (h : d.keepOption keep = some d') :
    d'.get? k = some v ↔ d.get? k = some v ∧ keep v = some true := by
  unfold keepOption at h
  split at h
  · rw [← Option.some.inj h, get?_filter_eq_some_iff, decide_eq_true_eq]
  · cases h

/-- Where everything is kept, nothing changes. -/
theorem keepOption_of_kept (h : ∀ k v, d.get? k = some v → keep v = some true) :
    d.keepOption keep = some d := by
  have hvalues : ∀ v ∈ d.values, keep v = some true := by
    intro v hv
    rcases mem_values.mp hv with ⟨k, hk⟩
    exact h k v hk
  have hall : (d.values.all fun v => (keep v).isSome) = true := by
    rw [List.all_eq_true]
    intro v hv
    rw [hvalues v hv]
    rfl
  unfold keepOption
  rw [if_pos hall, Option.some.injEq, Dict.mk.injEq]
  change d.entries.filter (fun e => decide (keep e.2 = some true)) = d.entries
  rw [List.filter_eq_self]
  intro e he
  exact decide_eq_true (hvalues e.2 (List.mem_map_of_mem he))

/-! ## Changing -/

/-- Every value changed, unless changing one of them fails. -/
def mapOption (d : Dict κ ν) (f : ν → Option ν) : Option (Dict κ ν) :=
  if d.values.all fun v => (f v).isSome then some (d.mapValues fun v => (f v).getD v) else none

theorem mapOption_of_get? (h : d.mapOption f = some d') (hk : d.get? k = some v) :
    ∃ v', f v = some v' ∧ d'.get? k = some v' := by
  unfold mapOption at h
  split at h
  · rename_i hall
    have hsome := List.all_eq_true.mp hall v (mem_values.mpr ⟨k, hk⟩)
    rcases Option.isSome_iff_exists.mp hsome with ⟨v', hv'⟩
    refine ⟨v', hv', ?_⟩
    rw [← Option.some.inj h, get?_mapValues, hk, Option.map_some, hv']
    rfl
  · cases h

theorem get?_of_mapOption {v' : ν} (h : d.mapOption f = some d') (hk : d'.get? k = some v') :
    ∃ v, d.get? k = some v ∧ f v = some v' := by
  have hmap := h
  unfold mapOption at hmap
  split at hmap
  · rw [← Option.some.inj hmap, get?_mapValues] at hk
    rcases Option.map_eq_some_iff.mp hk with ⟨v, hv, -⟩
    rcases mapOption_of_get? h hv with ⟨v'', hv'', hd'⟩
    refine ⟨v, hv, hv''.trans ?_⟩
    rw [← hd', ← Option.some.inj hmap, get?_mapValues]
    exact hk
  · cases hmap

omit [DecidableEq κ] in
/-- A change of the values that changes none of them. -/
theorem mapValues_of_fixed {g : ν → ν} (h : ∀ v ∈ d.values, g v = v) : d.mapValues g = d := by
  rw [Dict.mk.injEq]
  change d.entries.map (fun e => (e.1, g e.2)) = d.entries
  refine (List.map_congr_left fun e he => ?_).trans (List.map_id d.entries)
  rw [h e.2 (List.mem_map_of_mem he)]
  rfl

/-- Where nothing changes, the dictionary is the same. -/
theorem mapOption_of_fixed (h : ∀ k v, d.get? k = some v → f v = some v) :
    d.mapOption f = some d := by
  have hvalues : ∀ v ∈ d.values, f v = some v := by
    intro v hv
    rcases mem_values.mp hv with ⟨k, hk⟩
    exact h k v hk
  have hall : (d.values.all fun v => (f v).isSome) = true := by
    rw [List.all_eq_true]
    intro v hv
    rw [hvalues v hv]
    rfl
  unfold mapOption
  rw [if_pos hall, mapValues_of_fixed]
  intro v hv
  rw [hvalues v hv]
  rfl

/-- A change that is made once is made. -/
theorem mapOption_idem (hidem : ∀ v v', f v = some v' → f v' = some v')
    (h : d.mapOption f = some d') : d'.mapOption f = some d' := by
  apply mapOption_of_fixed
  intro k v' hv'
  rcases get?_of_mapOption h hv' with ⟨v, -, hv⟩
  exact hidem v v' hv

/-! ## Caps -/

/-- Over the limit the first entries in this order are dropped. -/
def capped (d : Dict κ ν) (limit : ℕ) (before : κ × ν → κ × ν → Bool) : Dict κ ν :=
  if d.size ≤ limit then d
  else
    d.filter fun k _ => k ∉ ((d.entries.mergeSort before).take (d.size - limit)).map Prod.fst

variable {limit : ℕ} {before : κ × ν → κ × ν → Bool}

theorem capped_of_le (h : d.size ≤ limit) : d.capped limit before = d :=
  if_pos h

theorem get?_of_capped (h : (d.capped limit before).get? k = some v) : d.get? k = some v := by
  unfold capped at h
  split at h
  · exact h
  · exact ((get?_filter_eq_some_iff _ _ _ _).mp h).1

/-- Dropping keys that are there, each named once. -/
theorem size_filter_notMem {stale : List κ} (hnodup : stale.Nodup) (hsub : stale ⊆ d.keys) :
    (d.filter fun k _ => k ∉ stale).size + stale.length = d.size := by
  have hkeys : (d.filter fun k _ => k ∉ stale).keys = d.keys.filter fun k => k ∉ stale := by
    change (d.entries.filter _).map Prod.fst = (d.entries.map Prod.fst).filter _
    rw [List.filter_map]
    rfl
  have hlength : (d.filter fun k _ => k ∉ stale).size =
      (d.keys.filter fun k => k ∉ stale).length := by
    rw [← hkeys]
    exact (List.length_map _).symm
  have hsize : d.size = d.keys.length := (List.length_map _).symm
  have hfinset : (d.keys.filter fun k => k ∉ stale).toFinset =
      d.keys.toFinset \ stale.toFinset := by
    ext k
    simp
  have hkeysNodup : d.keys.Nodup := d.nodup
  rw [hlength, hsize, ← List.toFinset_card_of_nodup (hkeysNodup.filter _), hfinset,
    ← List.toFinset_card_of_nodup hkeysNodup, ← List.toFinset_card_of_nodup hnodup]
  apply Finset.card_sdiff_add_card_eq_card
  intro k hk
  exact List.mem_toFinset.mpr (hsub (List.mem_toFinset.mp hk))

theorem size_capped_le (d : Dict κ ν) (limit : ℕ) (before : κ × ν → κ × ν → Bool) :
    (d.capped limit before).size ≤ limit := by
  unfold capped
  split
  · assumption
  rename_i hover
  have hperm := List.mergeSort_perm d.entries before
  have hnodup : ((d.entries.mergeSort before).map Prod.fst).Nodup :=
    ((hperm.map Prod.fst).nodup_iff).mpr d.nodup
  have hstale : (((d.entries.mergeSort before).take (d.size - limit)).map Prod.fst).Nodup := by
    rw [List.map_take]
    exact hnodup.sublist (List.take_sublist _ _)
  have hsub : ((d.entries.mergeSort before).take (d.size - limit)).map Prod.fst ⊆ d.keys := by
    intro k hk
    rcases List.mem_map.mp hk with ⟨e, he, rfl⟩
    exact List.mem_map_of_mem (hperm.mem_iff.mp (List.mem_of_mem_take he))
  have hcount := size_filter_notMem hstale hsub
  rw [List.length_map, List.length_take, List.length_mergeSort] at hcount
  change _ + min (d.size - limit) d.size = _ at hcount
  omega

/-- Where the entries are in order already, the last ones stay. -/
theorem entries_capped (h : d.entries.Pairwise fun a b => before a b = true) :
    (d.capped limit before).entries = d.entries.drop (d.entries.length - limit) := by
  unfold capped
  split
  · rename_i hle
    have hle' : d.entries.length ≤ limit := hle
    rw [Nat.sub_eq_zero_of_le hle', List.drop_zero]
  rw [List.mergeSort_of_pairwise h]
  change d.entries.filter (fun e => decide (e.1 ∉ (d.entries.take (d.size - limit)).map Prod.fst))
    = d.entries.drop (d.size - limit)
  generalize d.size - limit = n
  have hnodup : ((d.entries.take n ++ d.entries.drop n).map Prod.fst).Nodup := by
    rw [List.take_append_drop]
    exact d.nodup
  rw [List.map_append] at hnodup
  have hdisjoint := List.disjoint_of_nodup_append hnodup
  conv_lhs => rw [← List.take_append_drop n d.entries]
  rw [List.filter_append]
  have htaken : (d.entries.take n).filter
      (fun e => decide (e.1 ∉ ((d.entries.take n ++ d.entries.drop n).take n).map Prod.fst))
        = [] := by
    rw [List.take_append_drop, List.filter_eq_nil_iff]
    intro e he
    simp only [decide_not, Bool.not_eq_true', decide_eq_false_iff_not, not_not]
    exact List.mem_map_of_mem he
  have hrest : (d.entries.drop n).filter
      (fun e => decide (e.1 ∉ ((d.entries.take n ++ d.entries.drop n).take n).map Prod.fst))
        = d.entries.drop n := by
    rw [List.take_append_drop, List.filter_eq_self]
    intro e he
    rw [decide_eq_true_eq]
    intro hmem
    exact hdisjoint hmem (List.mem_map_of_mem he)
  rw [htaken, hrest, List.nil_append]

end Dict
end Lib
end Stemcell
