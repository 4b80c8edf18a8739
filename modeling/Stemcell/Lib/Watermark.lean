import Mathlib.Data.List.Basic
import Mathlib.Order.Lattice

/-!
# Counting up to a watermark

Some times are due.  A sweep takes the due times after a watermark and up to now, in their order
and at most so many of them, and moves the watermark to the last one it has taken.

Main results:

- Theorem `Counted.sweep`: a sweep keeps the times that were counted equal to the due times up to
  the watermark.
- Theorem `Counted.caught_up`: a sweep that stays below its limit leaves nothing behind.
-/

namespace Stemcell
namespace Lib

variable {α : Type} [LinearOrder α] {due : α → Prop} {start mark now : α} {limit : Nat}
  {counted taken : List α}

/-- The times that a sweep takes: the first of those that are due. -/
structure Takes (due : α → Prop) (mark now : α) (limit : Nat) (taken : List α) : Prop where
  sorted : taken.Pairwise (· < ·)
  mem : ∀ t ∈ taken, due t ∧ mark < t ∧ t ≤ now
  complete : ∀ t, due t → mark < t → t ≤ now →
    t ∈ taken ∨ taken.length = limit ∧ ∀ u ∈ taken, u < t

/-- The times that were counted since the start are those that are due up to the watermark. -/
structure Counted (due : α → Prop) (start mark : α) (counted : List α) : Prop where
  le : start ≤ mark
  sorted : counted.Pairwise (· < ·)
  mem_iff : ∀ t, t ∈ counted ↔ due t ∧ start < t ∧ t ≤ mark

/-- The watermark after a sweep. -/
def advance (mark : α) (taken : List α) : α :=
  taken.getLastD mark

/-- Nothing is counted when a watermark is set. -/
theorem Counted.initial : Counted due start start [] where
  le := le_rfl
  sorted := List.Pairwise.nil
  mem_iff t := by
    constructor
    · intro h
      cases h
    · rintro ⟨_, hlt, hle⟩
      exact absurd hlt (not_lt.mpr hle)

omit [LinearOrder α] in
theorem advance_cases (mark : α) (taken : List α) :
    taken = [] ∧ advance mark taken = mark ∨ advance mark taken ∈ taken := by
  cases taken with
  | nil => exact .inl ⟨rfl, rfl⟩
  | cons t rest =>
      right
      unfold advance
      rw [List.getLastD_eq_getLast?, List.getLast?_eq_some_getLast (List.cons_ne_nil t rest)]
      exact List.getLast_mem _

/-- What is taken is at most the new watermark. -/
theorem Takes.le_advance (h : Takes due mark now limit taken) {t : α} (ht : t ∈ taken) :
    t ≤ advance mark taken := by
  have hsorted := h.sorted
  clear h
  induction taken generalizing mark with
  | nil => cases ht
  | cons u rest ih =>
      unfold advance
      rw [List.getLastD_cons]
      rcases List.mem_cons.mp ht with rfl | ht
      · rcases advance_cases t rest with ⟨_, heq⟩ | hmem
        · exact heq.symm.le
        · exact ((List.pairwise_cons.mp hsorted).1 _ hmem).le
      · exact ih ht (List.pairwise_cons.mp hsorted).2

theorem Takes.mark_le (h : Takes due mark now limit taken) : mark ≤ advance mark taken := by
  rcases advance_cases mark taken with ⟨_, heq⟩ | hmem
  · exact heq.symm.le
  · exact (h.mem _ hmem).2.1.le

theorem Takes.advance_le (h : Takes due mark now limit taken) (hnow : mark ≤ now) :
    advance mark taken ≤ now := by
  rcases advance_cases mark taken with ⟨_, heq⟩ | hmem
  · exact heq.le.trans hnow
  · exact (h.mem _ hmem).2.2

/-- A sweep keeps the counted times equal to the due ones up to the watermark. -/
theorem Counted.sweep (h : Counted due start mark counted) (ht : Takes due mark now limit taken) :
    Counted due start (advance mark taken) (counted ++ taken) where
  le := h.le.trans ht.mark_le
  sorted := by
    rw [List.pairwise_append]
    refine ⟨h.sorted, ht.sorted, ?_⟩
    intro t hcounted u htaken
    exact ((h.mem_iff t).mp hcounted).2.2.trans_lt (ht.mem u htaken).2.1
  mem_iff t := by
    rw [List.mem_append]
    constructor
    · rintro (hcounted | htaken)
      · rcases (h.mem_iff t).mp hcounted with ⟨hdue, hstart, hle⟩
        exact ⟨hdue, hstart, hle.trans ht.mark_le⟩
      · rcases ht.mem t htaken with ⟨hdue, hmark, _⟩
        exact ⟨hdue, h.le.trans_lt hmark, ht.le_advance htaken⟩
    · rintro ⟨hdue, hstart, hle⟩
      rcases le_or_gt t mark with hbefore | hafter
      · exact .inl ((h.mem_iff t).mpr ⟨hdue, hstart, hbefore⟩)
      · right
        -- The new watermark is a taken time, so nothing before it was left out.
        rcases advance_cases mark taken with ⟨_, heq⟩ | hmem
        · exact absurd (hle.trans heq.le) (not_le.mpr hafter)
        · rcases ht.complete t hdue hafter (hle.trans (ht.mem _ hmem).2.2) with htaken | ⟨_, hall⟩
          · exact htaken
          · exact absurd (hall _ hmem) (not_lt.mpr hle)

/-- After a sweep that stays below its limit all that is due has been counted. -/
theorem Counted.caught_up (h : Counted due start mark counted)
    (ht : Takes due mark now limit taken) {t : α} (hdue : due t) (hstart : start < t)
    (hnow : t ≤ now) : t ∈ counted ++ taken ∨ taken.length = limit := by
  rw [List.mem_append]
  rcases le_or_gt t mark with hbefore | hafter
  · exact .inl (.inl ((h.mem_iff t).mpr ⟨hdue, hstart, hbefore⟩))
  · rcases ht.complete t hdue hafter hnow with htaken | ⟨hlength, _⟩
    · exact .inl (.inr htaken)
    · exact .inr hlength

end Lib
end Stemcell
