import Mathlib.Data.List.Infix

/-!
# Terminated lines of an append-only log

A log is a list that only grows at its end.  A writer ends each line by a
terminator; what follows the last terminator is a line still being written.
This module develops the complete lines of such a log, reading one line at a
position, and what appending does to both.

Main results:

- Theorem `lines_eq`: the complete lines are what repeated reading finds.
- Theorem `lines_drop`: reading on behind some lines finds the others.
- Theorem `lines_append_before`: appending keeps the complete lines there were.
- Theorem `lines_append_of_terminated`: behind a terminator the lines start afresh.
-/

namespace Stemcell
namespace Lib

variable {α : Type} (ends : α → Bool)

/-- Everything up to and including the first terminator, or all there is. -/
def readline : List α → List α
  | [] => []
  | x :: xs => if ends x then [x] else x :: readline xs

/-- The line is complete: its last element is a terminator. -/
def terminated (line : List α) : Bool :=
  match line.getLast? with
  | some x => ends x
  | none => false

/-- The complete lines of a log, each with its terminator. -/
def lines : List α → List (List α)
  | [] => []
  | x :: xs =>
      if ends x then [x] :: lines xs
      else
        match lines xs with
        | [] => []
        | line :: rest => (x :: line) :: rest

theorem readline_eq_nil_iff (xs : List α) : readline ends xs = [] ↔ xs = [] := by
  cases xs with
  | nil => simp [readline]
  | cons x xs =>
      unfold readline
      split <;> simp

/-- A line read from a log is a prefix of it. -/
theorem readline_before (xs : List α) : readline ends xs <+: xs := by
  induction xs with
  | nil => exact List.prefix_rfl
  | cons x xs ih =>
      unfold readline
      split
      · exact ⟨xs, rfl⟩
      · exact List.cons_prefix_cons.mpr ⟨rfl, ih⟩

theorem terminated_cons {x : α} {line : List α} (hx : ends x = false) :
    terminated ends (x :: line) = terminated ends line := by
  cases line with
  | nil => simp [terminated, hx]
  | cons y ys => simp [terminated, List.getLast?_cons_cons]

theorem ne_nil_of_terminated {line : List α} (h : terminated ends line = true) :
    line ≠ [] := by
  rintro rfl
  simp [terminated] at h

/-- The complete lines are what repeated reading finds. -/
theorem lines_eq (xs : List α) :
    lines ends xs =
      if terminated ends (readline ends xs) then
        readline ends xs :: lines ends (xs.drop (readline ends xs).length)
      else [] := by
  induction xs with
  | nil => simp [lines, readline, terminated]
  | cons x xs ih =>
      by_cases hx : ends x = true
      · have hread : readline ends (x :: xs) = [x] := by simp [readline, hx]
        rw [hread]
        simp [lines, terminated, hx]
      · have hx' : ends x = false := by simpa using hx
        have hread : readline ends (x :: xs) = x :: readline ends xs := by
          simp [readline, hx']
        rw [hread, terminated_cons ends hx', List.length_cons, List.drop_succ_cons]
        simp only [lines, hx', Bool.false_eq_true, if_false]
        rw [ih]
        by_cases hline : terminated ends (readline ends xs) = true
        · simp [hline]
        · simp [hline]

/-- Every complete line ends in a terminator. -/
theorem terminated_of_mem_lines {xs line : List α} (h : line ∈ lines ends xs) :
    terminated ends line = true := by
  induction xs generalizing line with
  | nil => simp [lines] at h
  | cons x xs ih =>
      by_cases hx : ends x = true
      · simp only [lines, hx, if_true, List.mem_cons] at h
        rcases h with h | h
        · subst h
          simpa [terminated] using hx
        · exact ih h
      · have hx' : ends x = false := by simpa using hx
        simp only [lines, hx', Bool.false_eq_true, if_false] at h
        cases hrest : lines ends xs with
        | nil => simp [hrest] at h
        | cons first rest =>
            rw [hrest] at h
            simp only [List.mem_cons] at h
            rcases h with h | h
            · subst h
              rw [terminated_cons ends hx']
              exact ih (by simp [hrest])
            · exact ih (by simp [hrest, h])

/-- Reading on behind the first lines finds the other lines. -/
theorem lines_drop {xs : List α} {first rest : List (List α)}
    (h : lines ends xs = first ++ rest) :
    lines ends (xs.drop first.flatten.length) = rest := by
  induction first generalizing xs with
  | nil => simpa using h
  | cons line first ih =>
      rw [lines_eq] at h
      by_cases hline : terminated ends (readline ends xs) = true
      · rw [if_pos hline, List.cons_append] at h
        rcases List.cons.inj h with ⟨hread, htail⟩
        subst hread
        have hdrop := ih htail
        rw [List.drop_drop] at hdrop
        rw [List.flatten_cons, List.length_append]
        exact hdrop
      · rw [if_neg hline] at h
        simp at h

/-- The complete lines make up the beginning of the log. -/
theorem lines_flatten_before (xs : List α) : (lines ends xs).flatten <+: xs := by
  induction xs with
  | nil => simp [lines]
  | cons x xs ih =>
      unfold lines
      split
      · exact List.cons_prefix_cons.mpr ⟨rfl, ih⟩
      · cases hrest : lines ends xs with
        | nil => simp
        | cons line rest =>
            rw [hrest] at ih
            exact List.cons_prefix_cons.mpr ⟨rfl, ih⟩

/-- Appending keeps the complete lines there were. -/
theorem lines_append_before (xs ys : List α) : lines ends xs <+: lines ends (xs ++ ys) := by
  induction xs with
  | nil => exact List.nil_prefix
  | cons x xs ih =>
      rw [List.cons_append]
      by_cases hx : ends x = true
      · simp only [lines, hx, if_true]
        exact List.cons_prefix_cons.mpr ⟨rfl, ih⟩
      · have hx' : ends x = false := by simpa using hx
        simp only [lines, hx', Bool.false_eq_true, if_false]
        cases hrest : lines ends xs with
        | nil => exact List.nil_prefix
        | cons line rest =>
            rw [hrest] at ih
            rcases ih with ⟨more, hmore⟩
            rw [← hmore]
            exact ⟨more, rfl⟩

/-- Before its last element a line has no terminator. -/
theorem ends_readline {xs : List α} {n : ℕ} {x : α} (hn : n + 1 < (readline ends xs).length)
    (hx : (readline ends xs)[n]? = some x) : ends x = false := by
  induction xs generalizing n with
  | nil => simp [readline] at hn
  | cons y xs ih =>
      by_cases hy : ends y = true
      · simp [readline, hy] at hn
      · have hread : readline ends (y :: xs) = y :: readline ends xs := by
          simp [readline, hy]
        rw [hread] at hn hx
        cases n with
        | zero =>
            rw [List.getElem?_cons_zero, Option.some.injEq] at hx
            rw [← hx]
            simpa using hy
        | succ n =>
            rw [List.length_cons] at hn
            rw [List.getElem?_cons_succ] at hx
            exact ih (by omega) hx

/-- Reading on inside a line reads the rest of it. -/
theorem readline_drop {xs : List α} {n : ℕ} (h : n < (readline ends xs).length) :
    readline ends (xs.drop n) = (readline ends xs).drop n := by
  induction xs generalizing n with
  | nil => simp [readline] at h
  | cons x xs ih =>
      cases n with
      | zero => rw [List.drop_zero, List.drop_zero]
      | succ n =>
          by_cases hx : ends x = true
          · simp [readline, hx] at h
          · have hread : readline ends (x :: xs) = x :: readline ends xs := by
              simp [readline, hx]
            rw [hread, List.length_cons] at h
            rw [hread, List.drop_succ_cons, List.drop_succ_cons]
            exact ih (by omega)

/-- Without a complete line the log is one line still being written. -/
theorem readline_of_lines_nil {xs : List α} (h : lines ends xs = []) :
    readline ends xs = xs ∧ terminated ends xs = false := by
  have hline : terminated ends (readline ends xs) = false := by
    rw [lines_eq] at h
    by_contra hne
    rw [if_pos (by simpa using hne)] at h
    cases h
  have hself : readline ends xs = xs := by
    clear h
    induction xs with
    | nil => rfl
    | cons x xs ih =>
        by_cases hx : ends x = true
        · simp [readline, terminated, hx] at hline
        · have hx' : ends x = false := by simpa using hx
          have hread : readline ends (x :: xs) = x :: readline ends xs := by
            simp [readline, hx']
          rw [hread, terminated_cons ends hx'] at hline
          rw [hread, ih hline]
  rw [hself] at hline
  exact ⟨hself, hline⟩

/-- Behind a terminator the lines start afresh. -/
theorem lines_append_of_terminated {xs : List α} (h : terminated ends xs = true) (ys : List α) :
    lines ends (xs ++ ys) = lines ends xs ++ lines ends ys := by
  induction xs with
  | nil => simp [terminated] at h
  | cons x xs ih =>
      cases xs with
      | nil =>
          have hx : ends x = true := by simpa [terminated] using h
          simp [lines, hx]
      | cons y xs =>
          have htail : terminated ends (y :: xs) = true := by
            simpa [terminated, List.getLast?_cons_cons] using h
          have hrest := ih htail
          rw [List.cons_append]
          by_cases hx : ends x = true
          · have hcons (zs : List α) : lines ends (x :: zs) = [x] :: lines ends zs := by
              rw [lines, if_pos hx]
            rw [hcons, hcons, hrest, List.cons_append]
          · have hcons (zs : List α) : lines ends (x :: zs) =
                match lines ends zs with
                | [] => []
                | line :: rest => (x :: line) :: rest := by
              rw [lines, if_neg hx]
            rw [hcons, hcons, hrest]
            cases hlines : lines ends (y :: xs) with
            | nil =>
                rw [(readline_of_lines_nil ends hlines).2] at htail
                cases htail
            | cons line rest => rfl

/-- Behind any elements, all lines but the first one are lines of the whole. -/
theorem lines_tail_append {ys : List α} (hne : lines ends ys ≠ []) (xs : List α) :
    lines ends (xs ++ ys) ≠ [] ∧ (lines ends ys).tail <:+ (lines ends (xs ++ ys)).tail := by
  induction xs with
  | nil => exact ⟨hne, List.suffix_rfl⟩
  | cons x xs ih =>
      rcases ih with ⟨hrest, htail⟩
      rw [List.cons_append, lines]
      by_cases hx : ends x = true
      · rw [if_pos hx]
        exact ⟨List.cons_ne_nil _ _, htail.trans (List.tail_suffix _)⟩
      · rw [if_neg hx]
        cases hlines : lines ends (xs ++ ys) with
        | nil => exact absurd hlines hrest
        | cons line rest =>
            rw [hlines] at htail
            exact ⟨List.cons_ne_nil _ _, htail⟩

end Lib
end Stemcell
