import Stemcell.Backup.Paths
import Stemcell.Lib.Lists

/-!
# Patterns as a normal form

The canonical form of a pattern should be safe to join to the data root and should not change when
it is validated again.  The checks are made before leading `./` are dropped and before separators at
the end are, so both can bring out a form that was never checked.

Main results:

- Theorem `pattern_law_iff`: the canonical form is safe exactly if what is left behind the leading
  `./` starts neither with a separator, a drive nor a blank, and its last component does not end in
  a blank.
- Theorem `absolute_accepted`: a pattern whose canonical form is absolute.

Current gaps:

- The same as for paths.
-/

namespace Stemcell
namespace Backup

open Interface (isSpace strip)

/-! ## The law and its condition -/

/-- A relative pattern without parents or a drive, which validation leaves as it is. -/
structure SafePattern (value : String) : Prop where
  relative : value.toList.head? ≠ some '/'
  noParent : ['.', '.'] ∉ value.toList.splitOn '/'
  noDrive : hasDrive value.toList = false
  fixed : validateRelativePattern value = .ok value

/-- What is left of a pattern behind blanks and leading `./`. -/
def remaining (pattern : String) : List Char :=
  dropDot (strip pattern).toList

/-- The condition on a pattern. -/
structure PlainPattern (pattern : String) : Prop where
  noSlash : (remaining pattern).head? ≠ some '/'
  noDrive : hasDrive (remaining pattern) = false
  noBlank : ∀ c, (remaining pattern).head? = some c → isSpace c = false
  noBlankEnd : ∀ part, (components (remaining pattern)).getLast? = some part →
    ∀ c, part.getLast? = some c → isSpace c = false

/-! ## Canonical forms that start and end well -/

section Canonical

variable {value : List Char}

theorem posixRoot_of_head (h : value.head? ≠ some '/') : posixRoot value = [] := by
  cases value with
  | nil => rfl
  | cons c rest =>
      have hc : c ≠ '/' := by
        rintro rfl
        exact h rfl
      unfold posixRoot
      split
      · rename_i heq
        cases heq
        exact absurd rfl hc
      · rename_i heq
        cases heq
        exact absurd rfl hc
      · rename_i heq
        cases heq
        exact absurd rfl hc
      · rfl

theorem mem_dropDot {c : Char} (h : c ∈ dropDot value) : c ∈ value := by
  induction value using dropDot.induct with
  | case1 rest ih =>
      have hstep : dropDot ('.' :: '/' :: rest) = dropDot rest := rfl
      rw [hstep] at h
      exact List.mem_cons_of_mem _ (List.mem_cons_of_mem _ (ih h))
  | case2 value hnot =>
      have hkept : dropDot value = value := by
        unfold dropDot
        split
        · rename_i rest
          exact absurd rfl (hnot rest)
        · rfl
      rwa [hkept] at h

theorem dropDot_eq_self (h : ∀ rest, value ≠ '.' :: '/' :: rest) : dropDot value = value := by
  unfold dropDot
  split
  · rename_i rest
    exact absurd rfl (h rest)
  · rfl

/-- Nothing is left to drop. -/
theorem dropDot_ne (value rest : List Char) : dropDot value ≠ '.' :: '/' :: rest := by
  induction value using dropDot.induct with
  | case1 value ih =>
      have hstep : dropDot ('.' :: '/' :: value) = dropDot value := rfl
      rw [hstep]
      exact ih
  | case2 value hnot =>
      rw [dropDot_eq_self hnot]
      exact hnot rest

/-- A component has characters of the text, and no separator. -/
theorem mem_components {part : List Char} (h : part ∈ components value) :
    part ≠ [] ∧ part ≠ ['.'] ∧ '/' ∉ part ∧ ∀ c ∈ part, c ∈ value := by
  rcases List.mem_filter.mp h with ⟨hsplit, hkeep⟩
  have hproper : part ≠ [] ∧ part ≠ ['.'] := by simpa using hkeep
  refine ⟨hproper.1, hproper.2, not_mem_splitOn '/' value part hsplit, ?_⟩
  intro c hc
  have hjoin : ['/'].intercalate (value.splitOn '/') = value := List.intercalate_splitOn '/'
  rw [← hjoin]
  exact Lib.mem_intercalate_of_mem hsplit hc

/-- The components of joined components are these components. -/
theorem splitOn_components (h : components value ≠ []) :
    (['/'].intercalate (components value)).splitOn '/' = components value := by
  apply List.splitOn_intercalate
  · intro part hpart
    exact (mem_components hpart).2.2.1
  · exact h

theorem components_rejoin (h : components value ≠ []) :
    components (['/'].intercalate (components value)) = components value := by
  conv_lhs => rw [components, splitOn_components h]
  apply List.filter_eq_self.mpr
  intro part hpart
  rcases mem_components hpart with ⟨hne, hdot, -, -⟩
  simp [hne, hdot]

/-- Joined components start with the first component and end with the last one. -/
theorem head_intercalate {first : List Char} {rest : List (List Char)} (hne : first ≠ []) :
    (['/'].intercalate (first :: rest)).head? = first.head? := by
  cases rest with
  | nil => rw [List.intercalate_singleton]
  | cons second rest =>
      rw [List.intercalate_cons_cons, List.append_assoc, List.head?_append_of_ne_nil _ hne]

theorem getLast_intercalate {parts : List (List Char)} {last : List Char}
    (hlast : parts.getLast? = some last) (hne : last ≠ []) :
    (['/'].intercalate parts).getLast? = last.getLast? := by
  induction parts with
  | nil => cases hlast
  | cons first rest ih =>
      cases rest with
      | nil =>
          rw [List.getLast?_singleton, Option.some.injEq] at hlast
          rw [List.intercalate_singleton, hlast]
      | cons second rest =>
          rw [List.getLast?_cons_cons] at hlast
          have hlater := ih hlast
          have hsome : (['/'].intercalate (second :: rest)).getLast? ≠ none := by
            rw [hlater, ne_eq, List.getLast?_eq_none_iff]
            exact hne
          rw [List.intercalate_cons_cons, List.append_assoc, List.getLast?_append,
            List.getLast?_append, hlater]
          cases hcase : last.getLast? with
          | none => exact absurd (hlater.trans hcase) hsome
          | some c => rfl

/-- What stays of a text that starts and ends in no blank. -/
theorem strip_ofList (hhead : ∀ c, value.head? = some c → isSpace c = false)
    (hlast : ∀ c, value.getLast? = some c → isSpace c = false) :
    strip (String.ofList value) = String.ofList value := by
  have hdrop (cs : List Char) (h : ∀ c, cs.head? = some c → isSpace c = false) :
      cs.dropWhile isSpace = cs := by
    cases cs with
    | nil => rfl
    | cons c rest => rw [List.dropWhile_cons_of_neg (by simp [h c rfl])]
  unfold strip
  rw [String.toList_ofList, hdrop value hhead, hdrop, List.reverse_reverse]
  intro c hc
  rw [List.head?_reverse] at hc
  exact hlast c hc

/-- A stripped text starts and ends in no blank. -/
theorem ends_of_strip {text : String} (h : strip text = text) :
    (∀ c, text.toList.head? = some c → isSpace c = false) ∧
      ∀ c, text.toList.getLast? = some c → isSpace c = false := by
  have htext := congrArg String.toList h
  unfold strip at htext
  rw [String.toList_ofList] at htext
  generalize text.toList = value at htext
  have hlength := (rdrop_length_le isSpace (value.dropWhile isSpace)).1
  rw [htext] at hlength
  have hfirst : value.dropWhile isSpace = value :=
    (List.dropWhile_suffix isSpace).eq_of_length
      (Nat.le_antisymm (List.dropWhile_suffix isSpace).length_le hlength)
  rw [hfirst] at htext
  have hback : value.reverse.dropWhile isSpace = value.reverse := by
    rw [← List.reverse_reverse (value.reverse.dropWhile isSpace), htext]
  have hhead (cs : List Char) (hcs : cs.dropWhile isSpace = cs) (c : Char)
      (hc : cs.head? = some c) : isSpace c = false := by
    cases cs with
    | nil => cases hc
    | cons d rest =>
        cases hc
        by_contra hspace
        rw [List.dropWhile_cons_of_pos (by simpa using hspace)] at hcs
        have hle := (List.dropWhile_suffix isSpace (l := rest)).length_le
        rw [hcs, List.length_cons] at hle
        omega
  constructor
  · exact hhead value hfirst
  · intro c hc
    apply hhead value.reverse hback
    rw [List.head?_reverse]
    exact hc

end Canonical

/-! ## The law -/

section Law

variable {pattern value : String}

/-- The canonical form of a plain pattern is its components joined. -/
theorem canonical_remaining (h : PlainPattern pattern) :
    canonical (remaining pattern) = ['/'].intercalate (components (remaining pattern)) := by
  rw [canonical, posixRoot_of_head h.noSlash, List.nil_append]

/-- The first component starts the text: it is not empty and not a dot. -/
theorem components_remaining (hslash : (remaining pattern).head? ≠ some '/')
    (hne : components (remaining pattern) ≠ []) :
    ∃ first rest, components (remaining pattern) = first :: rest ∧
      ((remaining pattern).splitOn '/').head? = some first := by
  have hjoin : ['/'].intercalate ((remaining pattern).splitOn '/') = remaining pattern :=
    List.intercalate_splitOn '/'
  cases hsplit : (remaining pattern).splitOn '/' with
  | nil =>
      rw [components, hsplit] at hne
      exact absurd rfl hne
  | cons first rest =>
      rw [hsplit] at hjoin
      have hfirst : first ≠ [] := by
        rintro rfl
        cases rest with
        | nil =>
            rw [components, hsplit] at hne
            exact hne (by simp)
        | cons second rest =>
            rw [List.intercalate_cons_cons, List.nil_append] at hjoin
            apply hslash
            rw [← hjoin]
            rfl
      have hdot : first ≠ ['.'] := by
        rintro rfl
        cases rest with
        | nil =>
            rw [components, hsplit] at hne
            exact hne (by simp)
        | cons second rest =>
            rw [List.intercalate_cons_cons] at hjoin
            exact dropDot_ne _ _ hjoin.symm
      refine ⟨first, rest.filter fun part => part ≠ [] ∧ part ≠ ['.'], ?_, rfl⟩
      rw [components, hsplit, List.filter_cons_of_pos (by simp [hfirst, hdot])]

/-- A drive of joined components is one of the first component. -/
theorem hasDrive_intercalate {first : List Char} {rest : List (List Char)} (hne : first ≠ []) :
    hasDrive (['/'].intercalate (first :: rest)) = hasDrive first := by
  have hjoin : ∃ tail, ['/'].intercalate (first :: rest) = first ++ tail ∧
      tail.head? ≠ some ':' := by
    cases rest with
    | nil => exact ⟨[], by rw [List.intercalate_singleton, List.append_nil], by simp⟩
    | cons second rest =>
        refine ⟨'/' :: ['/'].intercalate (second :: rest), ?_, by simp⟩
        rw [List.intercalate_cons_cons, List.append_assoc]
        rfl
  rcases hjoin with ⟨tail, hjoin, htail⟩
  rw [hjoin]
  cases first with
  | nil => exact absurd rfl hne
  | cons c first =>
      cases first with
      | nil =>
          cases tail with
          | nil => rfl
          | cons d tail =>
              have hd : d ≠ ':' := by
                rintro rfl
                exact htail rfl
              rw [List.cons_append, List.nil_append]
              unfold hasDrive
              split
              · rename_i heq
                cases heq
                exact absurd rfl hd
              · rfl
      | cons d first =>
          rw [List.cons_append, List.cons_append]
          unfold hasDrive
          by_cases hd : d = ':'
          · subst hd
            rfl
          · split
            · rename_i heq
              cases heq
              exact absurd rfl hd
            · split
              · rename_i heq
                cases heq
                exact absurd rfl hd
              · rfl

theorem isAbsolute_eq_false {text : List Char} (hslash : text.head? ≠ some '/')
    (hdrive : hasDrive text = false) : isAbsolute text = false := by
  unfold isAbsolute
  split
  · exact absurd rfl hslash
  · cases hdrive
  · rfl

/-- Behind the leading `./` and joined again, the text starts with the same character and has the
same drive. -/
theorem start_of_remaining (hslash : (remaining pattern).head? ≠ some '/')
    (hne : components (remaining pattern) ≠ []) :
    (['/'].intercalate (components (remaining pattern))).head? = (remaining pattern).head? ∧
      hasDrive (['/'].intercalate (components (remaining pattern))) =
        hasDrive (remaining pattern) := by
  rcases components_remaining hslash hne with ⟨first, rest, hcomponents, hhead⟩
  have hmem : first ∈ components (remaining pattern) := by
    rw [hcomponents]
    exact List.mem_cons_self
  have hfirst : first ≠ [] := (mem_components hmem).1
  have hjoin : ['/'].intercalate ((remaining pattern).splitOn '/') = remaining pattern :=
    List.intercalate_splitOn '/'
  rcases List.head?_eq_some_iff.mp hhead with ⟨later, hsplit⟩
  rw [hsplit] at hjoin
  rw [hcomponents]
  constructor
  · conv_rhs => rw [← hjoin, head_intercalate hfirst]
    exact head_intercalate hfirst
  · conv_rhs => rw [← hjoin, hasDrive_intercalate hfirst]
    exact hasDrive_intercalate hfirst

/-- What the first checks rule out. -/
theorem chars_of_ok (h : validateRelativePattern pattern = .ok value) :
    Char.ofNat 0 ∉ remaining pattern ∧ '\\' ∉ remaining pattern := by
  unfold validateRelativePattern at h
  dsimp only at h
  by_cases hempty : (strip pattern).toList = [] ∨ Char.ofNat 0 ∈ (strip pattern).toList
  · rw [if_pos hempty] at h
    cases h
  · rw [if_neg hempty] at h
    by_cases hback : '\\' ∈ (strip pattern).toList
    · rw [if_pos hback] at h
      cases h
    · rw [not_or] at hempty
      exact ⟨fun hmem => hempty.2 (mem_dropDot hmem), fun hmem => hback (mem_dropDot hmem)⟩

/-- Joined components of a plain pattern are validated to themselves. -/
theorem validate_join {text : List Char} (hne : components text ≠ [])
    (hparent : ['.', '.'] ∉ components text)
    (hnull : Char.ofNat 0 ∉ text) (hback : '\\' ∉ text)
    (hslash : (['/'].intercalate (components text)).head? ≠ some '/')
    (hdrive : hasDrive (['/'].intercalate (components text)) = false)
    (hstrip : strip (String.ofList (['/'].intercalate (components text))) =
      String.ofList (['/'].intercalate (components text))) :
    validateRelativePattern (String.ofList (['/'].intercalate (components text))) =
      .ok (String.ofList (['/'].intercalate (components text))) := by
  have hagain := components_rejoin hne
  have hsplit := splitOn_components hne
  have hchars : ∀ c ∈ ['/'].intercalate (components text), c = '/' ∨ c ∈ text := by
    intro c hc
    rcases Lib.mem_intercalate hc with heq | ⟨part, hpart, hmem⟩
    · exact .inl heq
    · exact .inr ((mem_components hpart).2.2.2 c hmem)
  have hjoin : ['/'].intercalate (components text) ≠ [] := by
    intro hnil
    rw [hnil] at hsplit
    rw [← hsplit] at hagain
    apply hne
    rw [← hsplit, ← hagain]
    rfl
  have hdot : dropDot (['/'].intercalate (components text)) =
      ['/'].intercalate (components text) := by
    apply dropDot_eq_self
    intro rest hdotted
    have hmem : ['.'] ∈ components text := by
      rw [← hsplit, hdotted]
      exact List.mem_cons_self
    exact (mem_components hmem).2.1 rfl
  have hparts : posixParts (['/'].intercalate (components text)) = components text := by
    rw [posixParts, if_pos (posixRoot_of_head hslash), hagain]
  unfold validateRelativePattern
  dsimp only
  rw [hstrip, String.toList_ofList]
  rw [if_neg, if_neg, if_neg, if_neg, hdot, hparts, if_neg]
  · rw [canonical, posixRoot_of_head hslash, List.nil_append, hagain]
  · rw [not_or]
    exact ⟨hne, hparent⟩
  · rw [hdrive]
    exact Bool.false_ne_true
  · rw [isAbsolute_eq_false hslash hdrive]
    exact Bool.false_ne_true
  · intro hmem
    rcases hchars _ hmem with heq | htext
    · revert heq
      decide
    · exact hback htext
  · rw [not_or]
    refine ⟨hjoin, ?_⟩
    intro hmem
    rcases hchars _ hmem with heq | htext
    · revert heq
      decide
    · exact hnull htext

/-- For every pattern that is accepted: the canonical form is safe exactly if the pattern is
plain. -/
theorem pattern_law_iff (h : validateRelativePattern pattern = .ok value) :
    SafePattern value ↔ PlainPattern pattern := by
  rcases accepted_of_ok h with ⟨haccepted, hvalue⟩
  rcases chars_of_ok h with ⟨hnull, hback⟩
  have hparts := haccepted.parts
  have hparent := haccepted.noParent
  change value = String.ofList (canonical (remaining pattern)) at hvalue
  change posixParts (remaining pattern) ≠ [] at hparts
  change ['.', '.'] ∉ posixParts (remaining pattern) at hparent
  -- behind a separator the canonical form is absolute
  have hroot : (remaining pattern).head? = some '/' → (canonical (remaining pattern)).head? =
      some '/' := by
    intro hslash
    rcases List.head?_eq_some_iff.mp hslash with ⟨rest, hrest⟩
    rw [hrest, canonical]
    unfold posixRoot
    split <;> simp_all
  by_cases hslash : (remaining pattern).head? = some '/'
  · constructor
    · intro hsafe
      have hrelative := hsafe.relative
      rw [hvalue, String.toList_ofList] at hrelative
      exact absurd (hroot hslash) hrelative
    · intro hplain
      exact absurd hslash hplain.noSlash
  rw [posixParts, if_pos (posixRoot_of_head hslash)] at hparts hparent
  rw [canonical, posixRoot_of_head hslash, List.nil_append] at hvalue
  rcases start_of_remaining hslash hparts with ⟨hhead, hdrive⟩
  have hlast : ∀ part, (components (remaining pattern)).getLast? = some part →
      (['/'].intercalate (components (remaining pattern))).getLast? = part.getLast? := by
    intro part hpart
    apply getLast_intercalate hpart
    exact (mem_components (List.mem_of_getLast? hpart)).1
  have hsomeLast := List.getLast?_isSome.mpr hparts
  rcases Option.isSome_iff_exists.mp hsomeLast with ⟨part, hpart⟩
  constructor
  · intro hsafe
    have hfixed := (unchanged_of_length hsafe.fixed (Nat.le_refl _)).1
    rcases ends_of_strip hfixed with ⟨hfirstBlank, hlastBlank⟩
    have hnoDrive := hsafe.noDrive
    rw [hvalue, String.toList_ofList] at hfirstBlank hlastBlank hnoDrive
    constructor
    · exact hslash
    · rw [← hdrive]
      exact hnoDrive
    · intro c hc
      rw [← hhead] at hc
      exact hfirstBlank c hc
    · intro other hother c hc
      rw [← hlast other hother] at hc
      exact hlastBlank c hc
  · intro hplain
    have hjoinHead : (['/'].intercalate (components (remaining pattern))).head? ≠ some '/' := by
      rw [hhead]
      exact hslash
    have hjoinDrive : hasDrive (['/'].intercalate (components (remaining pattern))) = false := by
      rw [hdrive]
      exact hplain.noDrive
    have hstrip : strip (String.ofList (['/'].intercalate (components (remaining pattern)))) =
        String.ofList (['/'].intercalate (components (remaining pattern))) := by
      apply strip_ofList
      · rw [hhead]
        exact hplain.noBlank
      · rw [hlast part hpart]
        exact hplain.noBlankEnd part hpart
    rw [hvalue]
    constructor
    · rw [String.toList_ofList]
      exact hjoinHead
    · rw [String.toList_ofList, splitOn_components hparts]
      exact hparent
    · rw [String.toList_ofList]
      exact hjoinDrive
    · exact validate_join hparts hparent hnull hback hjoinHead hjoinDrive hstrip

/-- A plain pattern in a form that is not canonical. -/
theorem pattern_law_prompts : SafePattern "prompts/*.md" := by
  have hok : validateRelativePattern "./prompts//*.md" = .ok "prompts/*.md" := by decide +kernel
  apply (pattern_law_iff hok).mpr
  have hremaining : remaining "./prompts//*.md" = "prompts//*.md".toList := by decide +kernel
  have hcomponents : components "prompts//*.md".toList = ["prompts".toList, "*.md".toList] := by
    decide +kernel
  constructor
  · decide +kernel
  · decide +kernel
  · intro c hc
    rw [hremaining] at hc
    cases hc
    decide
  · intro part hpart c hc
    rw [hremaining, hcomponents] at hpart
    cases hpart
    cases hc
    decide

/-- Behind `./` a second separator makes an absolute path of a pattern that was accepted as
relative. -/
theorem absolute_accepted :
    validateRelativePattern ".//etc/passwd" = .ok "/etc/passwd" ∧
      ¬ SafePattern "/etc/passwd" := by
  constructor
  · decide +kernel
  · intro hsafe
    apply hsafe.relative
    decide +kernel

end Law

end Backup
end Stemcell
