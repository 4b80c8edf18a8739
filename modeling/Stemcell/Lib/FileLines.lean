import Mathlib.Data.List.Basic

/-!
# Lines of a text file

A text file is read line by line, with universal newlines: a carriage return, with or without a
line feed behind it, ends a line as a line feed does.  Each line keeps its newline; the last one may
have none.

Main results:

- Theorem `fileLines_line`: a line comes before the lines of the rest.
- Theorem `fileLines_flatten`: the lines of a file are the ones that were written to it.
- Theorem `universal_of_no_return`: a text without carriage returns is read as it is.
-/

namespace Stemcell
namespace Lib

/-- Text files are read with universal newlines. -/
def universal : List Char → List Char
  | '\r' :: '\n' :: rest => '\n' :: universal rest
  | '\r' :: rest => '\n' :: universal rest
  | c :: rest => c :: universal rest
  | [] => []

/-- The lines of a file, each with its newline; the last one may have none. -/
def fileLines : List Char → List (List Char)
  | [] => []
  | c :: rest =>
      if c = '\n' then [c] :: fileLines rest
      else
        match fileLines rest with
        | [] => [[c]]
        | line :: more => (c :: line) :: more

/-- A text without carriage returns is read as it is. -/
theorem universal_of_no_return {text : List Char} (h : '\r' ∉ text) : universal text = text := by
  induction text with
  | nil => simp [universal]
  | cons c rest ih =>
      rw [List.mem_cons, not_or] at h
      have hstep : universal (c :: rest) = c :: universal rest := by
        rw [universal]
        · intro more hc
          exact absurd hc.symm h.1
        · intro hc
          exact absurd hc.symm h.1
      rw [hstep, ih h.2]

/-- A line comes before the lines of the rest. -/
theorem fileLines_line {line : List Char} (h : '\n' ∉ line) (rest : List Char) :
    fileLines (line ++ '\n' :: rest) = (line ++ ['\n']) :: fileLines rest := by
  induction line with
  | nil => simp [fileLines]
  | cons c more ih =>
      rw [List.mem_cons, not_or] at h
      have hc : c ≠ '\n' := Ne.symm h.1
      rw [List.cons_append, fileLines, if_neg hc, ih h.2]
      rfl

/-- The lines of a file are the ones that were written to it, and what comes behind them. -/
theorem fileLines_flatten {written : List (List Char)} (h : ∀ line ∈ written, '\n' ∉ line)
    (rest : List Char) :
    fileLines ((written.map fun line => line ++ ['\n']).flatten ++ rest) =
      written.map (fun line => line ++ ['\n']) ++ fileLines rest := by
  induction written with
  | nil => simp
  | cons line more ih =>
      have hline := h line List.mem_cons_self
      have hmore := ih fun other hother => h other (List.mem_cons_of_mem _ hother)
      rw [List.map_cons, List.flatten_cons, List.append_assoc, List.append_assoc,
        List.singleton_append, fileLines_line hline, hmore, List.cons_append]

end Lib
end Stemcell
