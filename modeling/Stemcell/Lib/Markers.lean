import Mathlib.Data.List.Infix

/-!
# Markers in a list

A marker is a list that starts with an opening element and has no other one, so two markers that
are no beginning of each other never overlap.  Cutting one of them out of a list, from the left to
the right, leaves the other ones where they are; it may bring new ones together.

Main results:

- Definition `cut`: a list without the occurrences of a marker.
- Theorem `infix_cut`: cutting one marker out keeps another.
- Theorems `cut_append_left` and `cut_append_right`: what is before and behind all markers is not
  cut.
-/

namespace Stemcell
namespace Lib

variable {α : Type} [DecidableEq α]

/-- A list without the occurrences of a marker; so many elements of the last one are still to be
left out. -/
def cutFrom (marker : List α) : ℕ → List α → List α
  | _, [] => []
  | skip + 1, _ :: rest => cutFrom marker skip rest
  | 0, a :: rest =>
      if marker.isPrefixOf (a :: rest) then cutFrom marker (marker.length - 1) rest
      else a :: cutFrom marker 0 rest

/-- `text.replace(marker, "")`. -/
def cut (marker text : List α) : List α :=
  cutFrom marker 0 text

variable {opening closing a : α} {body body' marker before text rest : List α}

theorem cutFrom_eq (skip : ℕ) (text : List α) :
    cutFrom marker skip text = cut marker (text.drop skip) := by
  induction text generalizing skip with
  | nil =>
      rw [List.drop_nil]
      cases skip <;> rfl
  | cons a rest ih =>
      cases skip with
      | zero => rfl
      | succ skip =>
          rw [cutFrom, ih, List.drop_succ_cons]

@[simp]
theorem cut_nil : cut marker ([] : List α) = [] :=
  rfl

/-- A marker at the front is left out. -/
theorem cut_marker (hmarker : marker ≠ []) (rest : List α) :
    cut marker (marker ++ rest) = cut marker rest := by
  cases marker with
  | nil => exact absurd rfl hmarker
  | cons a body =>
      have hfront : (a :: body).isPrefixOf (a :: (body ++ rest)) = true := by
        rw [List.isPrefixOf_iff_prefix]
        exact ⟨rest, rfl⟩
      rw [cut, List.cons_append, cutFrom, if_pos hfront, cutFrom_eq, List.length_cons,
        Nat.add_sub_cancel, List.drop_left]

theorem cut_cons (h : ¬ marker <+: a :: rest) : cut marker (a :: rest) = a :: cut marker rest := by
  rw [cut, cutFrom, if_neg]
  · rfl
  · rw [List.isPrefixOf_iff_prefix]
    exact h

omit [DecidableEq α] in
/-- A marker does not start within elements that are no opening ones. -/
theorem infix_of_append (h : opening :: body <:+: before ++ text) (hbefore : opening ∉ before) :
    opening :: body <:+: text := by
  induction before with
  | nil => exact h
  | cons a before ih =>
      rw [List.mem_cons, not_or] at hbefore
      rw [List.cons_append, List.infix_cons_iff] at h
      rcases h with hfront | hlater
      · rw [List.cons_prefix_cons] at hfront
        exact absurd hfront.1 hbefore.1
      · exact ih hlater hbefore.2

omit [DecidableEq α] in
/-- It does not end within elements that are no closing ones. -/
theorem infix_of_append_right (hclosing : closing ∈ marker.getLast?) {behind : List α}
    (hbehind : closing ∉ behind) (h : marker <:+: text ++ behind) : marker <:+: text := by
  have hreverse : marker.reverse = closing :: marker.dropLast.reverse := by
    rw [← List.dropLast_append_getLast? closing hclosing]
    simp
  rw [← List.reverse_infix, hreverse] at h ⊢
  rw [List.reverse_append] at h
  apply infix_of_append h
  rw [List.mem_reverse]
  exact hbehind

/-- What does not start a marker stays. -/
theorem cut_append (h : ∀ part, part ≠ [] → part <:+ before → ¬ marker <+: part ++ text) :
    cut marker (before ++ text) = before ++ cut marker text := by
  induction before with
  | nil => rfl
  | cons a before ih =>
      have hfirst := h (a :: before) (List.cons_ne_nil _ _) (List.suffix_refl _)
      rw [List.cons_append] at hfirst ⊢
      rw [cut_cons hfirst, ih]
      · rfl
      · intro part hne hpart
        exact h part hne (hpart.trans (List.suffix_cons a before))

omit [DecidableEq α] in
theorem not_prefix_of_not_mem (h : opening ∉ before) {part : List α} (hne : part ≠ [])
    (hpart : part <:+ before) : ¬ opening :: body <+: part ++ text := by
  cases part with
  | nil => exact absurd rfl hne
  | cons a part =>
      rw [List.cons_append, List.cons_prefix_cons]
      rintro ⟨rfl, -⟩
      exact h (hpart.subset List.mem_cons_self)

theorem cut_append_left (h : opening ∉ before) :
    cut (opening :: body) (before ++ text) = before ++ cut (opening :: body) text :=
  cut_append fun _ hne hpart => not_prefix_of_not_mem h hne hpart

theorem cut_eq_self (h : ¬ marker <:+: text) : cut marker text = text := by
  induction text with
  | nil => rfl
  | cons a rest ih =>
      rw [List.infix_cons_iff, not_or] at h
      rw [cut_cons h.1, ih h.2]

/-- Behind the last closing element nothing is cut. -/
theorem cut_append_right (hclosing : closing ∈ marker.getLast?) {behind : List α}
    (h : closing ∉ behind) : cut marker (text ++ behind) = cut marker text ++ behind := by
  have hne : marker ≠ [] := by
    rintro rfl
    cases hclosing
  induction hlength : text.length using Nat.strong_induction_on generalizing text with
  | _ length ih =>
      by_cases hfront : marker <+: text ++ behind
      · have hwithin : marker <+: text := by
          rcases List.prefix_or_prefix_of_prefix hfront (List.prefix_append text behind) with
            hwithin | ⟨more, rfl⟩
          · exact hwithin
          · rw [List.prefix_append_right_inj] at hfront
            cases more with
            | nil => exact ⟨[], by simp⟩
            | cons a more =>
                rw [List.getLast?_append_of_ne_nil _ (List.cons_ne_nil _ _)] at hclosing
                exact absurd (hfront.subset (List.mem_of_getLast? hclosing)) h
        rcases hwithin with ⟨rest, rfl⟩
        have hshorter : rest.length < length := by
          have hpos := List.length_pos_of_ne_nil hne
          rw [← hlength, List.length_append]
          omega
        rw [List.append_assoc, cut_marker hne, cut_marker hne, ih rest.length hshorter rfl]
      · cases text with
        | nil =>
            rw [List.nil_append, cut_nil, List.nil_append]
            apply cut_eq_self
            intro hinner
            exact h (hinner.subset (List.mem_of_getLast? hclosing))
        | cons a rest =>
            have hshorter : rest.length < length := by
              rw [← hlength, List.length_cons]
              omega
            have hnot : ¬ marker <+: a :: rest := by
              intro hstart
              exact hfront (hstart.trans (List.prefix_append _ _))
            rw [List.cons_append] at hfront ⊢
            rw [cut_cons hfront, cut_cons hnot, ih rest.length hshorter rfl, List.cons_append]

/-- Two markers that are no beginning of each other: cutting one out keeps the other. -/
theorem infix_cut (hbody : opening ∉ body) (hbody' : opening ∉ body')
    (hne : ¬ opening :: body <+: opening :: body') (hne' : ¬ opening :: body' <+: opening :: body)
    (h : opening :: body' <:+: text) : opening :: body' <:+: cut (opening :: body) text := by
  have hconflict {text : List α} (hfirst : opening :: body <+: text)
      (hsecond : opening :: body' <+: text) : False := by
    rcases List.prefix_or_prefix_of_prefix hfirst hsecond with hstart | hstart
    · exact hne hstart
    · exact hne' hstart
  induction hlength : text.length using Nat.strong_induction_on generalizing text with
  | _ length ih =>
      by_cases hfront : opening :: body <+: text
      · rcases hfront with ⟨rest, rfl⟩
        have hshorter : rest.length < length := by
          rw [← hlength, List.length_append, List.length_cons]
          omega
        rw [cut_marker (List.cons_ne_nil _ _)]
        apply ih rest.length hshorter _ rfl
        rw [List.cons_append, List.infix_cons_iff] at h
        rcases h with hstart | hlater
        · exact (hconflict (List.prefix_append _ rest) hstart).elim
        · exact infix_of_append hlater hbody
      · cases text with
        | nil => exact absurd (List.eq_nil_of_infix_nil h) (List.cons_ne_nil _ _)
        | cons a rest =>
            rw [List.infix_cons_iff] at h
            rcases h with hstart | hlater
            · rcases hstart with ⟨tail, htail⟩
              rw [← htail, cut_append]
              · exact (List.prefix_append _ _).isInfix
              · intro part hpartNe hpart hmarker
                rcases List.suffix_cons_iff.mp hpart with rfl | hpart
                · exact hconflict hmarker (List.prefix_append _ tail)
                · exact not_prefix_of_not_mem hbody' hpartNe hpart hmarker
            · have hshorter : rest.length < length := by
                rw [← hlength, List.length_cons]
                omega
              rw [cut_cons hfront]
              exact (ih rest.length hshorter hlater rfl).trans (List.suffix_cons a _).isInfix

end Lib
end Stemcell
