import Mathlib.Algebra.GroupWithZero.Nat
import Mathlib.Algebra.BigOperators.Group.List.Lemmas
import Mathlib.Algebra.Order.BigOperators.Group.List
import Mathlib.Data.List.DropRight
import Stemcell.Interface.Json

/-!
# Protected paths

A path of the recovery policy or of a snapshot is a text that is validated and brought into
a canonical form.  The checks are made on the text without its surrounding blanks, the
canonical form is made of what is left after leading `./` are dropped.

Main results:

- Definition `validateRelativePath`: the canonical form of a concrete path.
- Theorem `canonical_length_le`: the canonical form is not longer.
- Theorem `unchanged_of_length`: a text whose canonical form is as long is canonical.
- Theorem `relative_of_fixed`: a path that is its own canonical form is relative.

Current gaps:

- Windows drives are read as Python 3.13 does it; `str.casefold` is a parameter.
-/

namespace Stemcell
namespace Backup

open Interface (isSpace strip)

/-! ## Validation -/

/-- `while value.startswith("./")`. -/
def dropDot : List Char → List Char
  | '.' :: '/' :: rest => dropDot rest
  | value => value

/-- The components of `PurePosixPath(value)` after its root. -/
def components (value : List Char) : List (List Char) :=
  (value.splitOn '/').filter fun part => part ≠ [] ∧ part ≠ ['.']

/-- The root of `PurePosixPath(value)`. -/
def posixRoot : List Char → List Char
  | '/' :: '/' :: '/' :: _ => ['/']
  | '/' :: '/' :: _ => ['/', '/']
  | '/' :: _ => ['/']
  | _ => []

/-- `PurePosixPath(value).parts`. -/
def posixParts (value : List Char) : List (List Char) :=
  if posixRoot value = [] then components value else posixRoot value :: components value

/-- `PurePosixPath(*PurePosixPath(value).parts).as_posix()`. -/
def canonical (value : List Char) : List Char :=
  posixRoot value ++ ['/'].intercalate (components value)

/-- `PureWindowsPath(value).drive`, for a text that does not start with a separator. -/
def hasDrive : List Char → Bool
  | _ :: ':' :: _ => true
  | _ => false

/-- `PurePosixPath(value).is_absolute() or PureWindowsPath(value).is_absolute()`. -/
def isAbsolute : List Char → Bool
  | '/' :: _ => true
  | _ :: ':' :: '/' :: _ => true
  | _ => false

/-- `validate_relative_pattern`. -/
def validateRelativePattern (pattern : String) : Except String String :=
  let value := (strip pattern).toList
  if value = [] ∨ Char.ofNat 0 ∈ value then .error "Protected path patterns must not be empty."
  else if '\\' ∈ value then .error "Protected path pattern must use POSIX separators"
  else if isAbsolute value then .error "Protected path pattern must be relative"
  else if hasDrive value then .error "Protected path pattern must not contain a drive"
  else
    let value := dropDot value
    if posixParts value = [] ∨ ['.', '.'] ∈ posixParts value then
      .error "Protected path pattern contains traversal"
    else .ok (String.ofList (canonical value))

/-- `_has_magic`. -/
def hasMagic (value : String) : Bool :=
  value.toList.any fun c => c = '*' || c = '?' || c = '['

/-- `validate_relative_path`. -/
def validateRelativePath (path : String) : Except String String :=
  match validateRelativePattern path with
  | .error error => .error error
  | .ok value =>
      if hasMagic value then .error "Snapshot paths cannot contain globs" else .ok value

/-- `_FORBIDDEN_PREFIXES`. -/
def forbiddenRoots : List String :=
  [".git", ".silicon/snapshots"]

def knownSecretNames : List String :=
  [".glass.json", ".env", "id_rsa", "id_dsa", "id_ecdsa", "id_ed25519"]

def knownSecretSuffixes : List String :=
  [".pem", ".key", ".p12", ".pfx"]

/-- `PurePosixPath(path).name`. -/
def pathName (path : String) : String :=
  String.ofList ((components path.toList).getLast?.getD [])

/-- `_is_forbidden_relative`. -/
def isForbiddenRelative (casefold : String → String) (relativePath : String) : Bool :=
  let lowered := (casefold relativePath).toList
  let name := (casefold (pathName relativePath))
  forbiddenRoots.any (fun root => lowered = (casefold root).toList ||
      ((casefold root).toList ++ ['/']).isPrefixOf lowered) ||
    name ∈ knownSecretNames || ".env.".toList.isPrefixOf name.toList ||
      knownSecretSuffixes.any fun suffix => suffix.toList.isSuffixOf name.toList

/-- `is_known_secret`. -/
def isKnownSecret (casefold : String → String) (path : String) : Except String Bool :=
  match validateRelativePath path with
  | .error error => .error error
  | .ok value => .ok (isForbiddenRelative casefold value)

/-! ## Canonical forms -/

/-- No root, no drive, and only components that name something. -/
structure Relative (path : String) : Prop where
  noRoot : posixRoot path.toList = []
  noDrive : hasDrive path.toList = false
  parts : path.toList.splitOn '/' = components path.toList
  noParent : ['.', '.'] ∉ path.toList.splitOn '/'

variable {value rest : List Char} {parts parts' : List (List Char)} {path path' : String}

theorem not_mem_splitOn (c : Char) (value : List Char) : ∀ part ∈ value.splitOn c, c ∉ part := by
  unfold List.splitOn
  induction value with
  | nil => simp
  | cons d value ih =>
      rw [List.splitOnP_cons_eq_if_modifyHead]
      split
      · intro part hpart
        rcases List.mem_cons.mp hpart with rfl | hlater
        · exact List.not_mem_nil
        · exact ih part hlater
      · rename_i hne
        rcases List.exists_cons_of_ne_nil (List.splitOnP_ne_nil (fun x => x == c) value) with
          ⟨first, later, hsplit⟩
        rw [hsplit] at ih ⊢
        intro part hpart
        rw [List.modifyHead_cons] at hpart
        rcases List.mem_cons.mp hpart with rfl | hlater
        · rw [List.mem_cons, not_or]
          refine ⟨?_, ih first List.mem_cons_self⟩
          intro hsame
          apply hne
          simpa using hsame.symm
        · exact ih part (List.mem_cons_of_mem _ hlater)

/-- A list with its separators, one more than there are. -/
theorem length_intercalate (c : Char) (hne : parts ≠ []) :
    ([c].intercalate parts).length + 1 = (parts.map fun part => part.length + 1).sum := by
  induction parts with
  | nil => exact absurd rfl hne
  | cons first rest ih =>
      cases rest with
      | nil => simp [List.intercalate_singleton]
      | cons second rest =>
          have hlater := ih (List.cons_ne_nil _ _)
          rw [List.intercalate_cons_cons, List.map_cons, List.sum_cons, ← hlater]
          simp only [List.length_append, List.length_singleton]
          omega

/-- Leaving out parts makes a joined list shorter. -/
theorem length_intercalate_filter (c : Char) (keep : List Char → Bool) (parts : List (List Char)) :
    ([c].intercalate (parts.filter keep)).length ≤ ([c].intercalate parts).length ∧
      (([c].intercalate (parts.filter keep)).length = ([c].intercalate parts).length →
        parts.filter keep = parts ∨ [c].intercalate parts = []) := by
  have hsum : ∀ parts : List (List Char),
      ((parts.filter keep).map fun part => part.length + 1).sum ≤
        (parts.map fun part => part.length + 1).sum ∧
      (((parts.filter keep).map fun part => part.length + 1).sum =
        (parts.map fun part => part.length + 1).sum → parts.filter keep = parts) := by
    intro parts
    induction parts with
    | nil => simp
    | cons part rest ih =>
        by_cases hkeep : keep part = true
        · rw [List.filter_cons_of_pos hkeep]
          simp only [List.map_cons, List.sum_cons, List.cons.injEq, true_and]
          exact ⟨by omega, fun hsame => ih.2 (by omega)⟩
        · rw [List.filter_cons_of_neg hkeep]
          simp only [List.map_cons, List.sum_cons]
          refine ⟨by omega, fun hsame => ?_⟩
          omega
  rcases hsum parts with ⟨hle, hsame⟩
  by_cases hempty : parts = []
  · subst hempty
    simp
  have hall := @length_intercalate parts c hempty
  by_cases hfiltered : parts.filter keep = []
  · rw [hfiltered]
    refine ⟨Nat.zero_le _, fun hzero => .inr ?_⟩
    exact List.eq_nil_of_length_eq_zero hzero.symm
  · have hkept := @length_intercalate (parts.filter keep) c hfiltered
    refine ⟨by omega, fun heq => .inl (hsame ?_)⟩
    omega

theorem dropDot_length_le (value : List Char) :
    (dropDot value).length ≤ value.length ∧
      ((dropDot value).length = value.length → dropDot value = value) := by
  induction value using dropDot.induct with
  | case1 rest ih =>
      have hshorter := ih.1
      have hstep : dropDot ('.' :: '/' :: rest) = dropDot rest := rfl
      rw [hstep, List.length_cons, List.length_cons]
      exact ⟨by omega, fun hsame => by omega⟩
  | case2 value hnot =>
      have hkept : dropDot value = value := by
        unfold dropDot
        split
        · rename_i rest
          exact absurd rfl (hnot rest)
        · rfl
      rw [hkept]
      exact ⟨Nat.le_refl _, fun _ => rfl⟩

theorem components_slash (rest : List Char) : components ('/' :: rest) = components rest := by
  unfold components List.splitOn
  rw [List.splitOnP_cons_eq_if_modifyHead, if_pos (by simp)]
  apply List.filter_cons_of_neg
  simp

/-- The components joined again, compared with what they are of. -/
theorem length_components (value : List Char) :
    (['/'].intercalate (components value)).length ≤ value.length ∧
      ((['/'].intercalate (components value)).length = value.length →
        ['/'].intercalate (components value) = value) := by
  unfold components
  rcases length_intercalate_filter '/' (fun part => part ≠ [] ∧ part ≠ ['.'])
    (value.splitOn '/') with ⟨hle, hsame⟩
  rw [List.intercalate_splitOn] at hle hsame
  refine ⟨hle, fun heq => ?_⟩
  rcases hsame heq with hkept | hempty
  · rw [hkept, List.intercalate_splitOn]
  · rw [hempty] at heq ⊢
    exact List.eq_nil_of_length_eq_zero heq

/-- The canonical form is not longer. -/
theorem canonical_length_le (value : List Char) : (canonical value).length ≤ value.length := by
  unfold canonical
  rw [List.length_append]
  unfold posixRoot
  split
  · rename_i rest
    have hle := (length_components ('/' :: '/' :: rest)).1
    rw [components_slash]
    simp only [List.length_cons, List.length_nil] at hle ⊢
    omega
  · rename_i rest _
    have hle := (length_components rest).1
    rw [components_slash, components_slash]
    simp only [List.length_cons, List.length_nil]
    omega
  · rename_i rest _ _
    have hle := (length_components rest).1
    rw [components_slash]
    simp only [List.length_cons, List.length_nil]
    omega
  · have hle := (length_components value).1
    simp only [List.length_nil]
    omega

theorem rdrop_length_le (p : Char → Bool) (value : List Char) :
    ((value.reverse.dropWhile p).reverse).length ≤ value.length ∧
      (((value.reverse.dropWhile p).reverse).length = value.length →
        (value.reverse.dropWhile p).reverse = value) := by
  have hsuffix := List.dropWhile_suffix p (l := value.reverse)
  rw [List.length_reverse]
  refine ⟨?_, fun hsame => ?_⟩
  · rw [← @List.length_reverse _ value]
    exact hsuffix.length_le
  · rw [hsuffix.eq_of_length (by rw [List.length_reverse]; exact hsame), List.reverse_reverse]

/-- Stripping does not lengthen a text, and keeps it if it keeps its length. -/
theorem strip_length_le (text : String) :
    (strip text).toList.length ≤ text.toList.length ∧
      ((strip text).toList.length = text.toList.length → strip text = text) := by
  unfold strip
  rw [String.toList_ofList]
  have hsuffix := List.dropWhile_suffix isSpace (l := text.toList)
  rcases rdrop_length_le isSpace (text.toList.dropWhile isSpace) with ⟨hle, hsame⟩
  have hfirst := hsuffix.length_le
  refine ⟨Nat.le_trans hle hfirst, fun heq => ?_⟩
  rw [hsame (by omega), hsuffix.eq_of_length (by omega)]
  exact String.ofList_toList

theorem strip_strip (text : String) : strip (strip text) = strip text := by
  have hhead : (text.toList.dropWhile isSpace).rdropWhile isSpace =
      ((text.toList.dropWhile isSpace).rdropWhile isSpace).dropWhile isSpace := by
    symm
    rw [List.dropWhile_eq_self_iff]
    intro hpos
    have hbefore := List.rdropWhile_prefix isSpace (text.toList.dropWhile isSpace)
    have hlonger : 0 < (text.toList.dropWhile isSpace).length :=
      Nat.lt_of_lt_of_le hpos hbefore.length_le
    rw [hbefore.getElem hpos]
    exact List.dropWhile_get_zero_not _ _ hlonger
  change String.ofList ((((text.toList.dropWhile isSpace).rdropWhile isSpace) |>
    String.ofList).toList.dropWhile isSpace |>.rdropWhile isSpace) =
      String.ofList ((text.toList.dropWhile isSpace).rdropWhile isSpace)
  rw [String.toList_ofList, ← hhead, List.rdropWhile_idempotent]

/-! ## Paths that are their own canonical form -/

/-- What the checks of a pattern leave. -/
structure Accepted (value : List Char) : Prop where
  relative : isAbsolute value = false
  noDrive : hasDrive value = false
  parts : posixParts (dropDot value) ≠ []
  noParent : ['.', '.'] ∉ posixParts (dropDot value)

theorem accepted_of_ok (h : validateRelativePattern path = .ok path') :
    Accepted (strip path).toList ∧
      path' = String.ofList (canonical (dropDot (strip path).toList)) := by
  unfold validateRelativePattern at h
  generalize (strip path).toList = value at h ⊢
  simp only at h
  split at h
  · exact nomatch h
  split at h
  · exact nomatch h
  split at h
  · exact nomatch h
  rename_i hrelative
  split at h
  · exact nomatch h
  rename_i hdrive
  split at h
  · exact nomatch h
  rename_i hparts
  rw [not_or] at hparts
  refine ⟨⟨?_, ?_, hparts.1, hparts.2⟩, (Except.ok.inj h).symm⟩
  · simpa using hrelative
  · simpa using hdrive

theorem pattern_of_path (h : validateRelativePath path = .ok path') :
    validateRelativePattern path = .ok path' := by
  unfold validateRelativePath at h
  split at h
  · cases h
  · rename_i value hvalue
    split at h <;> cases h
    exact hvalue

theorem posixRoot_of_not_absolute (h : isAbsolute value = false) : posixRoot value = [] := by
  cases value with
  | nil => rfl
  | cons c rest =>
      by_cases hslash : c = '/'
      · subst hslash
        cases h
      · unfold posixRoot
        split
        · rename_i heq
          cases heq
          exact absurd rfl hslash
        · rename_i heq
          cases heq
          exact absurd rfl hslash
        · rename_i heq
          cases heq
          exact absurd rfl hslash
        · rfl

/-- A text whose canonical form is as long is already canonical, and nothing was dropped
from it. -/
theorem unchanged_of_length (h : validateRelativePattern path = .ok path')
    (hlength : path.toList.length ≤ path'.toList.length) :
    strip path = path ∧ dropDot path.toList = path.toList ∧ path' = path ∧
      ['/'].intercalate (components path.toList) = path.toList := by
  rcases accepted_of_ok h with ⟨haccepted, hpath'⟩
  rw [hpath', String.toList_ofList] at hlength
  have hcanonical := canonical_length_le (dropDot (strip path).toList)
  rcases dropDot_length_le (strip path).toList with ⟨hdot, hdotSame⟩
  rcases strip_length_le path with ⟨hstrip, hstripSame⟩
  have hstripped := hstripSame (by omega)
  have hdropped := hdotSame (by omega)
  rw [hstripped] at hdropped hpath' haccepted hcanonical
  rw [hstripped, hdropped] at hlength
  have hroot := posixRoot_of_not_absolute haccepted.relative
  rw [hdropped] at hpath' hcanonical
  have hjoined : canonical path.toList = ['/'].intercalate (components path.toList) := by
    unfold canonical
    rw [hroot, List.nil_append]
  rw [hjoined] at hcanonical hlength hpath'
  have hsame := (length_components path.toList).2 (Nat.le_antisymm hcanonical hlength)
  refine ⟨hstripped, hdropped, ?_, hsame⟩
  rw [hpath', hsame, String.ofList_toList]

/-- Validation does not lengthen a path, and keeps it if it keeps its length. -/
theorem validated_length_le (h : validateRelativePath path = .ok path') :
    path'.toList.length ≤ path.toList.length ∧
      (path.toList.length ≤ path'.toList.length → path' = path) := by
  have hpattern := pattern_of_path h
  refine ⟨?_, fun hle => (unchanged_of_length hpattern hle).2.2.1⟩
  rw [(accepted_of_ok hpattern).2, String.toList_ofList]
  exact Nat.le_trans (canonical_length_le _)
    (Nat.le_trans (dropDot_length_le _).1 (strip_length_le path).1)

/-- A path that is its own canonical form is relative. -/
theorem relative_of_fixed (h : validateRelativePath path = .ok path) : Relative path := by
  have hpattern := pattern_of_path h
  rcases unchanged_of_length hpattern (Nat.le_refl _) with ⟨hstripped, hdropped, -, hjoined⟩
  have haccepted := (accepted_of_ok hpattern).1
  rw [hstripped] at haccepted
  have hroot := posixRoot_of_not_absolute haccepted.relative
  have hparts := haccepted.parts
  have hparent := haccepted.noParent
  unfold posixParts at hparts hparent
  rw [hdropped, if_pos hroot] at hparts hparent
  have hsplit : path.toList.splitOn '/' = components path.toList := by
    have hjoin := congrArg (List.splitOn '/') hjoined
    rw [List.splitOn_intercalate] at hjoin
    · exact hjoin.symm
    · intro part hpart
      exact not_mem_splitOn '/' _ part (List.mem_of_mem_filter hpart)
    · exact hparts
  refine ⟨hroot, haccepted.noDrive, hsplit, ?_⟩
  rw [hsplit]
  exact hparent

end Backup
end Stemcell
