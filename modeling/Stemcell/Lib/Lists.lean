import Mathlib.Data.List.Nodup

/-!
# Joined lists and first elements

General facts about lists: what a joined list contains, and when the first few elements that
meet one condition are the first few that meet another, where the second are only looked for in a
part of the list.

Main results:

- Theorem `mem_intercalate`: an element of a joined list is the separator or comes from a part.
- Theorem `infix_intercalate`: every part stands in the joined list.
- Theorem `take_filter_eq_iff`: two ways to choose the first few elements agree exactly if they
  agree on each element that is preceded by fewer.
- Theorem `not_of_outgrown`: what holds of no element that another of its kind does not outgrow.
- Theorem `forall_split_append_singleton`: what holds at every element with those before it.
-/

namespace Stemcell
namespace Lib

variable {α : Type}

theorem mem_intercalate {a separator : α} {parts : List (List α)}
    (h : a ∈ [separator].intercalate parts) : a = separator ∨ ∃ part ∈ parts, a ∈ part := by
  induction parts with
  | nil => simp at h
  | cons first rest ih =>
      cases rest with
      | nil =>
          rw [List.intercalate_singleton] at h
          exact .inr ⟨first, List.mem_cons_self, h⟩
      | cons second rest =>
          rw [List.intercalate_cons_cons, List.append_assoc, List.mem_append, List.mem_append,
            List.mem_singleton] at h
          rcases h with hfirst | hsep | hlater
          · exact .inr ⟨first, List.mem_cons_self, hfirst⟩
          · exact .inl hsep
          · rcases ih hlater with heq | ⟨part, hpart, ha⟩
            · exact .inl heq
            · exact .inr ⟨part, List.mem_cons_of_mem _ hpart, ha⟩

/-- The elements of a part are in the joined list. -/
theorem mem_intercalate_of_mem {a separator : α} {part : List α} {parts : List (List α)}
    (hpart : part ∈ parts) (ha : a ∈ part) : a ∈ [separator].intercalate parts := by
  induction parts with
  | nil => cases hpart
  | cons first rest ih =>
      cases rest with
      | nil =>
          rw [List.intercalate_singleton]
          rwa [List.mem_singleton.mp hpart] at ha
      | cons second rest =>
          rw [List.intercalate_cons_cons, List.append_assoc, List.mem_append, List.mem_append]
          rcases List.mem_cons.mp hpart with rfl | hlater
          · exact .inl ha
          · exact .inr (.inr (ih hlater))

/-- A part is in the joined list as it is. -/
theorem infix_intercalate {separator part : List α} {parts : List (List α)} (h : part ∈ parts) :
    part <:+: separator.intercalate parts := by
  induction parts with
  | nil => cases h
  | cons first rest ih =>
      cases rest with
      | nil =>
          rcases List.mem_singleton.mp h with rfl
          simp
      | cons second rest =>
          rw [List.intercalate_cons_cons]
          rcases List.mem_cons.mp h with rfl | hlater
          · rw [List.append_assoc]
            exact (List.prefix_append part _).isInfix
          · exact (ih hlater).trans (List.suffix_append _ _).isInfix

/-- The first elements that meet `q` in the first part of a list are the first ones that meet `p`
exactly if this is so for each element with fewer of them before it. -/
theorem take_filter_eq_iff {p q : α → Bool} {xs : List α} (hnodup : xs.Nodup) (reach limit : ℕ) :
    ((xs.take reach).filter q).take limit = (xs.filter p).take limit ↔
      ∀ before a after, xs = before ++ a :: after → (before.filter p).length < limit →
        (p a = true ↔ before.length < reach ∧ q a = true) := by
  induction xs generalizing reach limit with
  | nil => simp
  | cons x xs ih =>
      rcases List.nodup_cons.mp hnodup with ⟨hfresh, hnodup⟩
      -- the condition on the head, and what is left of it on the tail
      have hcond (reach limit : ℕ) :
          (∀ before a after, x :: xs = before ++ a :: after → (before.filter p).length < limit →
            (p a = true ↔ before.length < reach ∧ q a = true)) ↔
          (0 < limit → (p x = true ↔ 0 < reach ∧ q x = true)) ∧
            ∀ before a after, xs = before ++ a :: after →
              ((x :: before).filter p).length < limit →
              (p a = true ↔ (x :: before).length < reach ∧ q a = true) := by
        constructor
        · intro h
          constructor
          · intro hlimit
            exact h [] x xs rfl hlimit
          · intro before a after hsplit hfew
            exact h (x :: before) a after (by rw [hsplit, List.cons_append]) hfew
        · rintro ⟨hhead, htail⟩ before a after hsplit hfew
          cases before with
          | nil =>
              rw [List.nil_append, List.cons.injEq] at hsplit
              rw [← hsplit.1]
              exact hhead hfew
          | cons y before =>
              rw [List.cons_append, List.cons.injEq] at hsplit
              rcases hsplit with ⟨rfl, hsplit⟩
              exact htail before a after hsplit hfew
      rw [hcond]
      cases limit with
      | zero => simp
      | succ limit =>
          have hnever (ys : List α) (hys : ∀ y ∈ ys, y ∈ xs) (zs : List α) :
              ys ≠ x :: zs := by
            rintro rfl
            exact hfresh (hys x List.mem_cons_self)
          have hsub (reach limit : ℕ) (r : α → Bool) :
              ∀ y ∈ ((xs.take reach).filter r).take limit, y ∈ xs := by
            intro y hy
            exact List.mem_of_mem_take (List.mem_of_mem_filter (List.mem_of_mem_take hy))
          have hsub' (limit : ℕ) (r : α → Bool) : ∀ y ∈ (xs.filter r).take limit, y ∈ xs := by
            intro y hy
            exact List.mem_of_mem_filter (List.mem_of_mem_take hy)
          cases reach with
          | zero =>
              have hnil := ih hnodup 0 (limit + 1)
              rw [List.take_zero, List.filter_nil, List.take_nil] at hnil ⊢
              by_cases hp : p x = true
              · rw [List.filter_cons_of_pos hp, List.take_succ_cons]
                simp [hp]
              · rw [List.filter_cons_of_neg hp, hnil]
                have hskip (before : List α) : (x :: before).filter p = before.filter p :=
                  List.filter_cons_of_neg hp
                simp only [hskip]
                simp [hp]
          | succ reach =>
              rw [List.take_succ_cons]
              by_cases hp : p x = true
              · have hkeep (before : List α) :
                    (x :: before).filter p = x :: before.filter p := List.filter_cons_of_pos hp
                by_cases hq : q x = true
                · rw [List.filter_cons_of_pos hq, hkeep, List.take_succ_cons, List.take_succ_cons,
                    List.cons.injEq, ih hnodup reach limit]
                  simp only [hkeep, List.length_cons, Nat.add_lt_add_iff_right]
                  simp [hp, hq]
                · rw [List.filter_cons_of_neg hq, hkeep, List.take_succ_cons]
                  constructor
                  · intro heq
                    exact absurd heq (hnever _ (hsub reach (limit + 1) q) _)
                  · rintro ⟨hhead, -⟩
                    exact absurd ((hhead (Nat.succ_pos _)).mp hp).2 hq
              · have hskip (before : List α) : (x :: before).filter p = before.filter p :=
                  List.filter_cons_of_neg hp
                by_cases hq : q x = true
                · rw [List.filter_cons_of_pos hq, hskip, List.take_succ_cons]
                  constructor
                  · intro heq
                    exact absurd heq.symm (hnever _ (hsub' (limit + 1) p) _)
                  · rintro ⟨hhead, -⟩
                    exact absurd ((hhead (Nat.succ_pos _)).mpr ⟨Nat.succ_pos _, hq⟩) hp
                · rw [List.filter_cons_of_neg hq, hskip, ih hnodup reach (limit + 1)]
                  simp only [hskip, List.length_cons, Nat.add_lt_add_iff_right]
                  simp [hp, hq]

/-- Every element of an ordered list is before the last one, or is it. -/
theorem eq_or_rel_of_getLast? {R : α → α → Prop} {xs : List α} {last x : α} (hR : xs.Pairwise R)
    (hlast : xs.getLast? = some last) (hx : x ∈ xs) : x = last ∨ R x last := by
  rcases List.getLast?_eq_some_iff.mp hlast with ⟨before, rfl⟩
  rcases List.mem_append.mp hx with hbefore | hself
  · exact .inr ((List.pairwise_append.mp hR).2.2 x hbefore last (List.mem_singleton.mpr rfl))
  · exact .inl (List.mem_singleton.mp hself)

/-- Joining lists of which one only has elements gives that one. -/
theorem flatMap_eq_of_single {β : Type} {f : α → List β} {xs : List α} {x : α} (hnodup : xs.Nodup)
    (hx : x ∈ xs) (h : ∀ y ∈ xs, y ≠ x → f y = []) : xs.flatMap f = f x := by
  induction xs with
  | nil => cases hx
  | cons y rest ih =>
      rw [List.nodup_cons] at hnodup
      rw [List.flatMap_cons]
      by_cases hy : y = x
      · subst hy
        have hrest : rest.flatMap f = [] := by
          rw [List.flatMap_eq_nil_iff]
          intro z hz
          exact h z (List.mem_cons_of_mem _ hz) fun heq => hnodup.1 (heq ▸ hz)
        rw [hrest, List.append_nil]
      · have hmem := (List.mem_cons.mp hx).resolve_left (Ne.symm hy)
        rw [h y List.mem_cons_self hy, List.nil_append]
        exact ih hnodup.2 hmem fun z hz hne => h z (List.mem_cons_of_mem _ hz) hne

/-- What holds of nothing that cannot be outgrown by another of its kind. -/
theorem not_of_outgrown {size : α → ℕ} {bad : α → Prop} {xs : List α}
    (h : ∀ x ∈ xs, bad x → ∃ y ∈ xs, bad y ∧ size x < size y) : ∀ x ∈ xs, ¬ bad x := by
  have hbound : ∃ bound, ∀ x ∈ xs, size x ≤ bound := by
    clear h
    induction xs with
    | nil => exact ⟨0, by simp⟩
    | cons x rest ih =>
        rcases ih with ⟨bound, hrest⟩
        refine ⟨max (size x) bound, ?_⟩
        rw [List.forall_mem_cons]
        constructor
        · exact Nat.le_max_left _ _
        · intro y hy
          exact Nat.le_trans (hrest y hy) (Nat.le_max_right _ _)
  rcases hbound with ⟨bound, hbound⟩
  -- the room that is left above an element shrinks with every larger one
  have hroom (room : ℕ) : ∀ x ∈ xs, bound - size x = room → ¬ bad x := by
    induction room using Nat.strongRecOn with
    | _ room ih =>
        intro x hx hsize hbad
        rcases h x hx hbad with ⟨y, hy, hbad', hlt⟩
        have hle := hbound y hy
        apply ih (bound - size y) _ y hy rfl hbad'
        omega
  intro x hx
  exact hroom _ x hx rfl

/-- What holds at every element with the ones before it, for a list with one more element. -/
theorem forall_split_append_singleton {P : List α → α → Prop} {xs : List α} {x : α} :
    (∀ before y after, xs ++ [x] = before ++ y :: after → P before y) ↔
      (∀ before y after, xs = before ++ y :: after → P before y) ∧ P xs x := by
  constructor
  · intro h
    constructor
    · intro before y after heq
      apply h before y (after ++ [x])
      rw [heq, List.append_assoc, List.cons_append]
    · exact h xs x [] rfl
  · rintro ⟨hall, hlast⟩ before y after heq
    rcases List.eq_nil_or_concat after with rfl | ⟨rest, z, rfl⟩
    · rcases List.append_inj' heq rfl with ⟨rfl, hone⟩
      rw [List.singleton_inj.mp hone] at hlast
      exact hlast
    · rw [List.concat_eq_append, ← List.cons_append, ← List.append_assoc] at heq
      rcases List.append_inj' heq rfl with ⟨hxs, -⟩
      exact hall before y rest hxs

end Lib
end Stemcell
