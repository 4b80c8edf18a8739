import Mathlib.Algebra.GroupWithZero.Nat
import Mathlib.Data.List.Nodup

/-!
# Insertion-ordered dictionaries

A finite map kept as the list of its entries in insertion order, the order a
Python `dict` iterates in.  The structure carries the fact that no key occurs
twice, so a lookup is the same as membership of the entry.

Main results:

- Theorems `Dict.get?_set` and `Dict.get?_pop`: what a lookup sees after one
  update.
- Theorem `Dict.get?_filter`: filtering the entries filters every lookup.
- Theorem `Dict.get?_eq_some_iff`: lookup is membership of the entry.
- Theorem `Dict.get?_foldl`: what a loop over a dictionary leaves of another one.
-/

namespace Stemcell
namespace Lib

/-- A dictionary: entries in insertion order, with distinct keys. -/
structure Dict (κ ν : Type) where
  entries : List (κ × ν)
  nodup : (entries.map Prod.fst).Nodup
deriving DecidableEq, Repr

namespace Dict

variable {κ ν : Type} [DecidableEq κ]

/-- Replace the value of `k` where it stands, or append a new entry. -/
def setEntries (k : κ) (v : ν) : List (κ × ν) → List (κ × ν)
  | [] => [(k, v)]
  | e :: es => if e.1 = k then (k, v) :: es else e :: setEntries k v es

/-- Value of the first entry with key `k`. -/
def getEntries (k : κ) : List (κ × ν) → Option ν
  | [] => none
  | e :: es => if e.1 = k then some e.2 else getEntries k es

theorem mem_keys_setEntries (k k' : κ) (v : ν) (es : List (κ × ν)) :
    k' ∈ (setEntries k v es).map Prod.fst ↔ k' = k ∨ k' ∈ es.map Prod.fst := by
  induction es with
  | nil => simp [setEntries]
  | cons e es ih =>
      by_cases h : e.1 = k
      · simp [setEntries, h]
      · simp only [setEntries, if_neg h, List.map_cons, List.mem_cons, ih]
        tauto

theorem setEntries_nodup (k : κ) (v : ν) {es : List (κ × ν)}
    (h : (es.map Prod.fst).Nodup) : ((setEntries k v es).map Prod.fst).Nodup := by
  induction es with
  | nil => simp [setEntries]
  | cons e es ih =>
      rw [List.map_cons, List.nodup_cons] at h
      by_cases hk : e.1 = k
      · simp only [setEntries, if_pos hk, List.map_cons, List.nodup_cons]
        exact ⟨hk ▸ h.1, h.2⟩
      · simp only [setEntries, if_neg hk, List.map_cons, List.nodup_cons]
        refine ⟨?_, ih h.2⟩
        rw [mem_keys_setEntries]
        rintro (heq | hmem)
        · exact hk heq
        · exact h.1 hmem

theorem getEntries_eq_some_iff {es : List (κ × ν)} (h : (es.map Prod.fst).Nodup)
    (k : κ) (v : ν) : getEntries k es = some v ↔ (k, v) ∈ es := by
  induction es with
  | nil => simp [getEntries]
  | cons e es ih =>
      rw [List.map_cons, List.nodup_cons] at h
      by_cases hk : e.1 = k
      · have hnot : (k, v) ∉ es := fun hmem =>
          h.1 (hk ▸ List.mem_map_of_mem (f := Prod.fst) hmem)
        subst hk
        simp only [getEntries, if_pos, Option.some.injEq, List.mem_cons, hnot, or_false]
        exact ⟨fun hv => by rw [← hv], fun hv => by rw [← hv]⟩
      · have hne : (k, v) ≠ e := fun heq => hk (by rw [← heq])
        simp only [getEntries, if_neg hk, ih h.2, List.mem_cons, hne, false_or]

theorem getEntries_setEntries (k k' : κ) (v : ν) (es : List (κ × ν)) :
    getEntries k' (setEntries k v es) = if k = k' then some v else getEntries k' es := by
  induction es with
  | nil => simp [setEntries, getEntries]
  | cons e es ih =>
      by_cases hk : e.1 = k
      · subst hk
        by_cases hk' : e.1 = k' <;> simp [setEntries, getEntries, hk']
      · by_cases hk' : e.1 = k'
        · subst hk'
          simp [setEntries, getEntries, hk, Ne.symm hk]
        · simpa [setEntries, getEntries, hk, hk'] using ih

/-! ## Operations -/

/-- The empty dictionary. -/
def empty : Dict κ ν where
  entries := []
  nodup := List.nodup_nil

/-- `d.get(k)`. -/
def get? (d : Dict κ ν) (k : κ) : Option ν :=
  getEntries k d.entries

/-- `d[k] = v`. -/
def set (d : Dict κ ν) (k : κ) (v : ν) : Dict κ ν where
  entries := setEntries k v d.entries
  nodup := setEntries_nodup k v d.nodup

/-- Keep the entries that satisfy `p`. -/
def filter (d : Dict κ ν) (p : κ → ν → Bool) : Dict κ ν where
  entries := d.entries.filter fun e => p e.1 e.2
  nodup := d.nodup.sublist (List.filter_sublist.map Prod.fst)

/-- `d.pop(k, None)`. -/
def pop (d : Dict κ ν) (k : κ) : Dict κ ν :=
  d.filter fun k' _ => k' ≠ k

/-- `k in d`. -/
def contains (d : Dict κ ν) (k : κ) : Bool :=
  (d.get? k).isSome

/-- `len(d)`. -/
def size (d : Dict κ ν) : Nat :=
  d.entries.length

/-- `list(d)`. -/
def keys (d : Dict κ ν) : List κ :=
  d.entries.map Prod.fst

/-- Truth value of a dictionary, negated. -/
def isEmpty (d : Dict κ ν) : Bool :=
  d.entries.isEmpty

/-! ## Lookup after one operation -/

/-- `d.values()`. -/
def values (d : Dict κ ν) : List ν :=
  d.entries.map Prod.snd

/-- Replace every value. -/
def mapValues {μ : Type} (d : Dict κ ν) (f : ν → μ) : Dict κ μ where
  entries := d.entries.map fun entry => (entry.1, f entry.2)
  nodup := by
    rw [List.map_map]
    exact d.nodup

theorem get?_eq_some_iff (d : Dict κ ν) (k : κ) (v : ν) :
    d.get? k = some v ↔ (k, v) ∈ d.entries :=
  getEntries_eq_some_iff d.nodup k v

theorem mem_keys_of_get? (d : Dict κ ν) {k : κ} {v : ν} (h : d.get? k = some v) :
    k ∈ d.keys :=
  List.mem_map.mpr ⟨(k, v), (d.get?_eq_some_iff k v).mp h, rfl⟩

@[simp]
theorem get?_empty (k : κ) : (empty : Dict κ ν).get? k = none :=
  rfl

theorem get?_set (d : Dict κ ν) (k k' : κ) (v : ν) :
    (d.set k v).get? k' = if k = k' then some v else d.get? k' :=
  getEntries_setEntries k k' v d.entries

@[simp]
theorem get?_set_self (d : Dict κ ν) (k : κ) (v : ν) : (d.set k v).get? k = some v := by
  simp [get?_set]

theorem get?_set_of_ne (d : Dict κ ν) {k k' : κ} (v : ν) (h : k ≠ k') :
    (d.set k v).get? k' = d.get? k' := by
  simp [get?_set, h]

theorem get?_filter (d : Dict κ ν) (p : κ → ν → Bool) (k : κ) :
    (d.filter p).get? k = (d.get? k).filter (p k) := by
  apply Option.ext
  intro v
  rw [get?_eq_some_iff, Option.filter_eq_some_iff, get?_eq_some_iff]
  simp [filter]

theorem get?_filter_eq_some_iff (d : Dict κ ν) (p : κ → ν → Bool) (k : κ) (v : ν) :
    (d.filter p).get? k = some v ↔ d.get? k = some v ∧ p k v = true := by
  rw [get?_filter, Option.filter_eq_some_iff]

theorem get?_pop (d : Dict κ ν) (k k' : κ) :
    (d.pop k).get? k' = if k = k' then none else d.get? k' := by
  rw [pop, get?_filter]
  by_cases h : k = k'
  · subst h
    cases d.get? k <;> simp
  · have h' : k' ≠ k := Ne.symm h
    cases d.get? k' <;> simp [h, h']

theorem get?_mapValues {μ : Type} (d : Dict κ ν) (f : ν → μ) (k : κ) :
    (d.mapValues f).get? k = (d.get? k).map f := by
  change getEntries k (d.entries.map fun entry => (entry.1, f entry.2)) =
    (getEntries k d.entries).map f
  induction d.entries with
  | nil => rfl
  | cons entry rest ih =>
      by_cases h : entry.1 = k
      · simp [getEntries, h]
      · simpa [getEntries, h] using ih

/-- What a new value adds to a sum over all values. -/
theorem sum_set (d : Dict κ ν) (k : κ) (v : ν) (f : ν → Nat) :
    ((d.set k v).values.map f).sum + ((d.get? k).map f).getD 0 = (d.values.map f).sum + f v := by
  change (((setEntries k v d.entries).map Prod.snd).map f).sum +
    ((getEntries k d.entries).map f).getD 0 = ((d.entries.map Prod.snd).map f).sum + f v
  induction d.entries with
  | nil => simp [setEntries, getEntries]
  | cons entry rest ih =>
      by_cases h : entry.1 = k
      · simp only [setEntries, getEntries, if_pos h, List.map_cons, List.sum_cons, Option.map_some,
          Option.getD_some]
        omega
      · simp only [setEntries, getEntries, if_neg h, List.map_cons, List.sum_cons] at ih ⊢
        omega

/-- What a pop takes from a sum over all values. -/
theorem sum_pop (d : Dict κ ν) (k : κ) (f : ν → Nat) :
    ((d.pop k).values.map f).sum + ((d.get? k).map f).getD 0 = (d.values.map f).sum := by
  rcases d with ⟨entries, hnodup⟩
  change (((entries.filter fun e => decide (e.1 ≠ k)).map Prod.snd).map f).sum +
    ((getEntries k entries).map f).getD 0 = ((entries.map Prod.snd).map f).sum
  induction entries with
  | nil => simp [getEntries]
  | cons entry rest ih =>
      rw [List.map_cons, List.nodup_cons] at hnodup
      have hrest := ih hnodup.2
      by_cases h : entry.1 = k
      · have hnone : getEntries k rest = none := by
          rw [Option.eq_none_iff_forall_ne_some]
          intro v hv
          have hmem := (getEntries_eq_some_iff hnodup.2 k v).mp hv
          exact hnodup.1 (h ▸ List.mem_map.mpr ⟨(k, v), hmem, rfl⟩)
        rw [hnone] at hrest
        rw [List.filter_cons_of_neg (by simp [h])]
        simp only [getEntries, if_pos h, Option.map_some, Option.getD_some, List.map_cons,
          List.sum_cons, Option.map_none, Option.getD_none] at hrest ⊢
        omega
      · rw [List.filter_cons_of_pos (by simp [h])]
        simp only [getEntries, if_neg h, List.map_cons, List.sum_cons] at hrest ⊢
        omega

omit [DecidableEq κ] in
/-- Values are counted by a sum of ones. -/
theorem sum_ones (d : Dict κ ν) : (d.values.map fun _ => 1).sum = d.size := by
  rw [List.map_const', List.sum_replicate_nat, Nat.mul_one]
  exact List.length_map _

theorem size_pop {d : Dict κ ν} {k : κ} {v : ν} (h : d.get? k = some v) :
    (d.pop k).size + 1 = d.size := by
  have hsum := d.sum_pop k fun _ => 1
  rwa [sum_ones, sum_ones, h] at hsum

theorem size_set (d : Dict κ ν) (k : κ) (v : ν) :
    (d.set k v).size = if (d.get? k).isSome then d.size else d.size + 1 := by
  have hsum := d.sum_set k v fun _ => 1
  rw [sum_ones, sum_ones] at hsum
  cases hget : d.get? k with
  | none =>
      rw [hget] at hsum
      simpa using hsum
  | some old =>
      rw [hget] at hsum
      simpa using hsum

theorem mem_values {d : Dict κ ν} {v : ν} : v ∈ d.values ↔ ∃ k, d.get? k = some v := by
  unfold values
  rw [List.mem_map]
  constructor
  · rintro ⟨⟨k, value⟩, hmem, rfl⟩
    exact ⟨k, (d.get?_eq_some_iff k value).mpr hmem⟩
  · rintro ⟨k, hget⟩
    exact ⟨(k, v), (d.get?_eq_some_iff k v).mp hget, rfl⟩

@[simp]
theorem get?_pop_self (d : Dict κ ν) (k : κ) : (d.pop k).get? k = none := by
  simp [get?_pop]

theorem get?_pop_of_ne (d : Dict κ ν) {k k' : κ} (h : k ≠ k') :
    (d.pop k).get? k' = d.get? k' := by
  simp [get?_pop, h]

/-- A new key goes to the end, and a known one stays where it is. -/
theorem keys_set (d : Dict κ ν) (k : κ) (v : ν) :
    (d.set k v).keys = if k ∈ d.keys then d.keys else d.keys ++ [k] := by
  change (setEntries k v d.entries).map Prod.fst =
    if k ∈ d.entries.map Prod.fst then d.entries.map Prod.fst
    else d.entries.map Prod.fst ++ [k]
  induction d.entries with
  | nil => simp [setEntries]
  | cons e es ih =>
      by_cases h : e.1 = k
      · simp [setEntries, h]
      · rw [setEntries, if_neg h, List.map_cons, ih, List.map_cons]
        by_cases hmem : k ∈ es.map Prod.fst
        · rw [if_pos hmem, if_pos (List.mem_cons_of_mem _ hmem)]
        · rw [if_neg hmem, if_neg]
          · rfl
          · rw [List.mem_cons]
            rintro (hhead | htail)
            · exact h hhead.symm
            · exact hmem htail

/-- A new key goes to the end, with its value. -/
theorem entries_set_of_fresh {d : Dict κ ν} {k : κ} {v : ν} (h : k ∉ d.entries.map Prod.fst) :
    (d.set k v).entries = d.entries ++ [(k, v)] := by
  change setEntries k v d.entries = d.entries ++ [(k, v)]
  generalize d.entries = es at h
  induction es with
  | nil => simp [setEntries]
  | cons e rest ih =>
      rw [List.map_cons, List.mem_cons, not_or] at h
      rw [setEntries, if_neg (Ne.symm h.1), ih h.2, List.cons_append]

theorem mem_keys_iff (d : Dict κ ν) (k : κ) : k ∈ d.keys ↔ ∃ v, d.get? k = some v := by
  unfold keys
  rw [List.mem_map]
  constructor
  · rintro ⟨⟨key, v⟩, hmem, rfl⟩
    exact ⟨v, (d.get?_eq_some_iff _ _).mpr hmem⟩
  · rintro ⟨v, hget⟩
    exact ⟨(k, v), (d.get?_eq_some_iff _ _).mp hget, rfl⟩

/-- A value found after a pop was there before it, under another key. -/
theorem get?_pop_eq_some_iff (d : Dict κ ν) (k k' : κ) (v : ν) :
    (d.pop k).get? k' = some v ↔ k ≠ k' ∧ d.get? k' = some v := by
  rw [get?_pop]
  by_cases h : k = k' <;> simp [h]

theorem contains_iff (d : Dict κ ν) (k : κ) :
    d.contains k = true ↔ ∃ v, d.get? k = some v := by
  simp [contains, Option.isSome_iff_exists]

theorem isEmpty_iff (d : Dict κ ν) : d.isEmpty = true ↔ ∀ k, d.get? k = none := by
  unfold isEmpty
  rw [List.isEmpty_iff]
  constructor
  · intro h k
    rw [Option.eq_none_iff_forall_ne_some]
    intro v hv
    rw [get?_eq_some_iff, h] at hv
    simp at hv
  · intro h
    rw [List.eq_nil_iff_forall_not_mem]
    rintro ⟨k, v⟩ hmem
    have hv := (d.get?_eq_some_iff k v).mpr hmem
    simp [h k] at hv

omit [DecidableEq κ] in
/-- A filter that keeps every entry changes nothing. -/
theorem filter_eq_self (d : Dict κ ν) {p : κ → ν → Bool} (h : ∀ k v, p k v = true) :
    d.filter p = d := by
  obtain ⟨entries, nodup⟩ := d
  simp [filter, h]

/-- The last entries. -/
def takeLast (d : Dict κ ν) (n : Nat) : Dict κ ν where
  entries := d.entries.drop (d.entries.length - n)
  nodup := by
    rw [List.map_drop]
    exact d.nodup.sublist (List.drop_sublist _ _)

theorem get?_of_takeLast {d : Dict κ ν} {n : Nat} {k : κ} {v : ν}
    (h : (d.takeLast n).get? k = some v) : d.get? k = some v := by
  rw [get?_eq_some_iff] at h ⊢
  exact List.mem_of_mem_drop h

/-- A loop over a dictionary that touches one key of another dictionary at each entry. -/
theorem get?_foldl {μ : Type} (d : Dict κ μ) (acc : Dict κ ν)
    {step : Dict κ ν → κ × μ → Dict κ ν} {f : κ → μ → Option ν → Option ν}
    (hself : ∀ acc entry, (step acc entry).get? entry.1 = f entry.1 entry.2 (acc.get? entry.1))
    (hother : ∀ acc entry k, entry.1 ≠ k → (step acc entry).get? k = acc.get? k) (k : κ) :
    (d.entries.foldl step acc).get? k =
      (d.get? k).elim (acc.get? k) fun v => f k v (acc.get? k) := by
  obtain ⟨entries, hnodup⟩ := d
  change (entries.foldl step acc).get? k =
    (getEntries k entries).elim (acc.get? k) fun v => f k v (acc.get? k)
  induction entries generalizing acc with
  | nil => rfl
  | cons entry rest ih =>
      rw [List.map_cons, List.nodup_cons] at hnodup
      rw [List.foldl_cons, ih (step acc entry) hnodup.2]
      by_cases hkey : entry.1 = k
      · subst hkey
        have habsent : getEntries entry.1 rest = none := by
          rw [Option.eq_none_iff_forall_ne_some]
          intro v hv
          exact hnodup.1 (List.mem_map.mpr ⟨_, (getEntries_eq_some_iff hnodup.2 _ _).mp hv, rfl⟩)
        rw [habsent, getEntries, if_pos rfl]
        exact hself acc entry
      · rw [getEntries, if_neg hkey, hother acc entry k hkey]

end Dict

end Lib
end Stemcell
