import Stemcell.Backup.Patterns
import Stemcell.Backup.Resolve

/-!
# The protected files

What the policy resolves to in a tree with legal names, and which of the paths the manifest takes.
The resolver takes the names as they are; the manifest takes the text of a path and reads it as a
pattern, so a name with a character of the pattern language, or a blank at an end of the path, is
resolved and then refused.

Main results:

- Theorem `resolve_ok`: what is resolved are the regular files that some pattern means.
- Theorem `validate_asPosix_iff`: the manifest takes the path of a file exactly if it is plain.

Current gaps:

- Names are texts; one whose bytes are no text is out of scope.
-/

namespace Stemcell
namespace Backup

open Interface (isSpace strip)
open Lib

/-! ## Legal trees -/

/-- A name that a directory can have for an entry. -/
structure LegalName (name : String) : Prop where
  nonempty : name.toList ≠ []
  noSlash : '/' ∉ name.toList
  noNull : Char.ofNat 0 ∉ name.toList
  noDot : name ≠ "."
  noParent : name ≠ ".."

/-- Legal names, each for one entry. -/
structure LegalTree (root : List (String × Entry)) : Prop where
  names : ∀ path entry, Reaches (.dir root) path entry → ∀ name ∈ path, LegalName name
  unique : ∀ path entry other, Reaches (.dir root) path entry → Reaches (.dir root) path other →
    entry = other

section Legal

variable {path other : Path} {name : String} {root : List (String × Entry)}

theorem LegalName.part (h : LegalName name) :
    '/' ∉ name.toList ∧ name.toList ≠ [] ∧ name.toList ≠ ['.'] := by
  refine ⟨h.noSlash, h.nonempty, ?_⟩
  intro hdot
  apply h.noDot
  apply String.toList_injective
  rw [hdot]
  rfl

theorem asPosix_of_ne_nil (h : path ≠ []) :
    asPosix path = String.ofList (['/'].intercalate (path.map String.toList)) :=
  if_neg h

/-- The text of a path has its names as components. -/
theorem components_asPosix (h : ∀ name ∈ path, LegalName name) :
    components (asPosix path).toList = path.map String.toList := by
  by_cases hpath : path = []
  · rw [hpath]
    decide
  · rw [asPosix_of_ne_nil hpath, String.toList_ofList]
    apply components_intercalate
    intro part hpart
    rcases List.mem_map.mp hpart with ⟨name, hname, rfl⟩
    exact (h name hname).part

theorem map_toList_injective : Function.Injective (List.map String.toList) :=
  List.map_injective_iff.mpr fun _ _ h => String.toList_injective h

/-- Paths of legal names are told apart by their texts. -/
theorem asPosix_injective (h : ∀ name ∈ path, LegalName name)
    (hother : ∀ name ∈ other, LegalName name) (heq : asPosix path = asPosix other) :
    path = other := by
  apply map_toList_injective
  rw [← components_asPosix h, ← components_asPosix hother, heq]

end Legal

/-! ## What is resolved -/

section Resolved

variable {fnmatch : String → String → Bool} {casefold : String → String}
  {root : List (String × Entry)} {found found' : Dict String (Path × Entry)}
  {items : List (Path × Entry)} {held : Path × Entry → Prop} {filesOnly : Bool}
  {pattern relative : String} {policy : DataPolicy} {files : List ProtectedFile}

/-- An entry of the tree with its path. -/
def InRoot (root : List (String × Entry)) (item : Path × Entry) : Prop :=
  Reaches (.dir root) item.1 item.2

/-- The dictionary holds these entries of the tree under their relative paths. -/
def Indexes (root : List (String × Entry)) (found : Dict String (Path × Entry))
    (held : Path × Entry → Prop) : Prop :=
  ∀ key item, found.get? key = some item ↔ key = asPosix item.1 ∧ InRoot root item ∧ held item

theorem indexes_empty : Indexes root .empty fun _ => False := by
  intro key item
  rw [Dict.get?_empty]
  simp

theorem LegalTree.eq_of_asPosix (hlegal : LegalTree root) {item other : Path × Entry}
    (hitem : InRoot root item) (hother : InRoot root other)
    (heq : asPosix item.1 = asPosix other.1) : item = other := by
  have hpath := asPosix_injective (hlegal.names _ _ hitem) (hlegal.names _ _ hother) heq
  unfold InRoot at hitem hother
  rw [hpath] at hitem
  exact Prod.ext hpath (hlegal.unique _ _ _ hitem hother)

theorem Indexes.set (hlegal : LegalTree root) (h : Indexes root found held) {item : Path × Entry}
    (hitem : InRoot root item) :
    Indexes root (found.set (asPosix item.1) item) fun other => held other ∨ other = item := by
  intro key other
  rw [Dict.get?_set]
  by_cases hkey : asPosix item.1 = key
  · rw [if_pos hkey, Option.some.injEq]
    constructor
    · rintro rfl
      exact ⟨hkey.symm, hitem, .inr rfl⟩
    · rintro ⟨hother, hin, -⟩
      exact hlegal.eq_of_asPosix hitem hin (hkey.trans hother)
  · rw [if_neg hkey, h]
    constructor
    · rintro ⟨hother, hin, hheld⟩
      exact ⟨hother, hin, .inl hheld⟩
    · rintro ⟨hother, hin, hheld | rfl⟩
      · exact ⟨hother, hin, hheld⟩
      · exact absurd hother.symm hkey

theorem Indexes.congr {held' : Path × Entry → Prop} (h : Indexes root found held)
    (hiff : ∀ item, InRoot root item → (held item ↔ held' item)) : Indexes root found held' := by
  intro key item
  rw [h]
  constructor
  · rintro ⟨hkey, hin, hheld⟩
    exact ⟨hkey, hin, (hiff item hin).mp hheld⟩
  · rintro ⟨hkey, hin, hheld⟩
    exact ⟨hkey, hin, (hiff item hin).mpr hheld⟩

/-- What the loop adds: all that was found, or the files among it. -/
theorem gather_indexes (hlegal : LegalTree root) (h : Indexes root found held)
    (hitems : ∀ item ∈ items, InRoot root item)
    (hok : gather casefold filesOnly found items = .ok found') :
    Indexes root found' (fun item =>
        held item ∨ item ∈ items ∧ (filesOnly = true → item.2.isFile = true)) ∧
      ∀ item ∈ items, (filesOnly = true → item.2.isFile = true) →
        isForbiddenRelative casefold (asPosix item.1) = false := by
  induction items generalizing found held with
  | nil =>
      cases hok
      constructor
      · apply h.congr
        simp
      · simp
  | cons first later ih =>
      rcases first with ⟨path, entry⟩
      rw [List.forall_mem_cons] at hitems
      rw [gather] at hok
      cases hensure : ensureEntryType path entry with
      | some message =>
          rw [hensure] at hok
          cases hok
      | none =>
          rw [hensure] at hok
          dsimp only at hok
          by_cases hskip : (filesOnly && !entry.isFile) = true
          · rw [if_pos hskip] at hok
            rw [Bool.and_eq_true, Bool.not_eq_true'] at hskip
            rcases ih h hitems.2 hok with ⟨hindexes, hallowed⟩
            constructor
            · apply hindexes.congr
              intro item _
              rw [List.mem_cons]
              constructor
              · rintro (hheld | ⟨hlater, hfile⟩)
                · exact .inl hheld
                · exact .inr ⟨.inr hlater, hfile⟩
              · rintro (hheld | ⟨rfl | hlater, hfile⟩)
                · exact .inl hheld
                · have hcontra := hfile hskip.1
                  rw [hskip.2] at hcontra
                  cases hcontra
                · exact .inr ⟨hlater, hfile⟩
            · rw [List.forall_mem_cons]
              refine ⟨?_, hallowed⟩
              intro hfile
              have hcontra := hfile hskip.1
              rw [hskip.2] at hcontra
              cases hcontra
          · rw [if_neg hskip] at hok
            by_cases hforbidden : isForbiddenRelative casefold (asPosix path) = true
            · rw [if_pos hforbidden] at hok
              cases hok
            · rw [if_neg hforbidden] at hok
              rcases ih (h.set hlegal hitems.1) hitems.2 hok with ⟨hindexes, hallowed⟩
              have hkept : filesOnly = true → entry.isFile = true := by
                intro honly
                by_contra hfile
                apply hskip
                rw [honly, Bool.not_eq_true] at *
                rw [hfile]
                rfl
              constructor
              · apply hindexes.congr
                intro item _
                rw [List.mem_cons]
                constructor
                · rintro ((hheld | rfl) | ⟨hlater, hfile⟩)
                  · exact .inl hheld
                  · exact .inr ⟨.inl rfl, hkept⟩
                  · exact .inr ⟨.inr hlater, hfile⟩
                · rintro (hheld | ⟨rfl | hlater, hfile⟩)
                  · exact .inl (.inl hheld)
                  · exact .inl (.inr rfl)
                  · exact .inr ⟨hlater, hfile⟩
              · rw [List.forall_mem_cons]
                refine ⟨?_, hallowed⟩
                intro _
                simpa using hforbidden


/-- The same for a whole walk, which raised nothing. -/
theorem drain_indexes (hlegal : LegalTree root) (h : Indexes root found held) {walk : Walk}
    (hitems : walk.raised = none → ∀ item ∈ walk.yielded, InRoot root item)
    (hok : drain casefold filesOnly found walk = .ok found') :
    walk.raised = none ∧ Indexes root found' (fun item =>
        held item ∨ item ∈ walk.yielded ∧ (filesOnly = true → item.2.isFile = true)) ∧
      ∀ item ∈ walk.yielded, (filesOnly = true → item.2.isFile = true) →
        isForbiddenRelative casefold (asPosix item.1) = false := by
  unfold drain at hok
  simp only [bind, Except.bind, pure, Except.pure] at hok
  cases hgather : gather casefold filesOnly found walk.yielded with
  | error message =>
      rw [hgather] at hok
      cases hok
  | ok gathered =>
      rw [hgather] at hok
      dsimp only at hok
      cases hraised : walk.raised with
      | some message =>
          rw [hraised] at hok
          cases hok
      | none =>
          rw [hraised] at hok
          cases hok
          exact ⟨rfl, gather_indexes hlegal h (hitems hraised) hgather⟩

theorem mem_inOrder (h : Indexes root found held) {item : Path × Entry} :
    item ∈ inOrder found ↔ InRoot root item ∧ held item := by
  unfold inOrder
  rw [List.mem_filterMap]
  constructor
  · rintro ⟨key, -, hget⟩
    exact ((h key item).mp hget).2
  · rintro ⟨hin, hheld⟩
    have hget := (h (asPosix item.1) item).mpr ⟨rfl, hin, hheld⟩
    refine ⟨asPosix item.1, ?_, hget⟩
    rw [mem_sortedSet, Dict.mem_keys_iff]
    exact ⟨item, hget⟩

/-- The files and directories that a pattern means. -/
def Matches (fnmatch : String → String → Bool) (canonical : String) (item : Path × Entry) : Prop :=
  item.2.isPlain = true ∧ Selects fnmatch item.2.isDir (pathParts canonical) item.1

theorem mem_expandPattern (hlegal : LegalTree root) {matched : List (Path × Entry)}
    (hok : expandPattern fnmatch casefold root pattern = .ok matched) :
    ∃ canonical, validateRelativePattern pattern = .ok canonical ∧
      ∀ item, item ∈ matched ↔ InRoot root item ∧ Matches fnmatch canonical item := by
  unfold expandPattern at hok
  simp only [bind, Except.bind, pure, Except.pure] at hok
  cases hcanonical : validateRelativePattern pattern with
  | error message =>
      rw [hcanonical] at hok
      cases hok
  | ok canonical =>
      rw [hcanonical] at hok
      dsimp only at hok
      cases hdrain : drain casefold false .empty
          (expandParts fnmatch (pathParts canonical) [] root) with
      | error message =>
          rw [hdrain] at hok
          cases hok
      | ok found =>
          rw [hdrain] at hok
          cases hok
          have hitems : (expandParts fnmatch (pathParts canonical) [] root).raised = none →
              ∀ item ∈ (expandParts fnmatch (pathParts canonical) [] root).yielded,
                InRoot root item := by
            intro hraised item hitem
            rcases (mem_expandParts _ _ _ hraised item).mp hitem with ⟨names, hpath, hreaches, -⟩
            unfold InRoot
            rw [hpath]
            exact hreaches
          rcases drain_indexes hlegal indexes_empty hitems hdrain with ⟨hraised, hindexes, -⟩
          refine ⟨canonical, rfl, ?_⟩
          intro item
          rw [mem_inOrder hindexes, mem_expandParts _ _ _ hraised item]
          unfold Matches Meant
          constructor
          · rintro ⟨hin, hfalse | ⟨⟨names, hpath, -, hplain, hselects⟩, -⟩⟩
            · exact hfalse.elim
            · rw [List.nil_append] at hpath
              rw [hpath]
              exact ⟨hin, hplain, hselects⟩
          · rintro ⟨hin, hplain, hselects⟩
            refine ⟨hin, .inr ⟨⟨item.1, rfl, hin, hplain, hselects⟩, ?_⟩⟩
            intro hfalse
            cases hfalse

/-- A file below an entry, with no temporary name on the way. -/
def Below (above item : Path × Entry) : Prop :=
  InTree above.1 above.2 item ∧ item.2.isFile = true

theorem inRoot_of_inTree {above item : Path × Entry} (habove : InRoot root above)
    (h : InTree above.1 above.2 item) : InRoot root item := by
  rcases h with ⟨names, hpath, hreaches, -⟩
  unfold InRoot
  rw [hpath]
  exact reaches_append.mpr ⟨_, habove, hreaches⟩

/-- The loop over what was matched adds the files below. -/
theorem expandTrees_indexes (hlegal : LegalTree root) (h : Indexes root found held)
    (hitems : ∀ item ∈ items, InRoot root item)
    (hok : expandTrees casefold found items = .ok found') :
    Indexes root found' (fun item => held item ∨ ∃ above ∈ items, Below above item) ∧
      ∀ above ∈ items, ∀ item, Below above item →
        isForbiddenRelative casefold (asPosix item.1) = false := by
  induction items generalizing found held with
  | nil =>
      cases hok
      constructor
      · apply h.congr
        simp
      · simp
  | cons first later ih =>
      rcases first with ⟨path, entry⟩
      rw [List.forall_mem_cons] at hitems
      rw [expandTrees] at hok
      simp only [bind, Except.bind] at hok
      cases hdrain : drain casefold true found (safeTree path entry) with
      | error message =>
          rw [hdrain] at hok
          cases hok
      | ok drained =>
          rw [hdrain] at hok
          have hwalk : (safeTree path entry).raised = none →
              ∀ item ∈ (safeTree path entry).yielded, InRoot root item := by
            intro hraised item hitem
            rw [mem_safeTree path item entry hraised] at hitem
            exact inRoot_of_inTree hitems.1 hitem
          rcases drain_indexes hlegal h hwalk hdrain with ⟨hraised, hdrained, hallowed⟩
          rcases ih hdrained hitems.2 hok with ⟨hindexes, hrest⟩
          have hyielded (item : Path × Entry) :
              item ∈ (safeTree path entry).yielded ∧ (true = true → item.2.isFile = true) ↔
                Below (path, entry) item := by
            rw [mem_safeTree path item entry hraised]
            unfold Below
            simp
          constructor
          · apply hindexes.congr
            intro item _
            rw [hyielded, or_assoc]
            simp
          · rw [List.forall_mem_cons]
            refine ⟨?_, hrest⟩
            intro item hbelow
            rcases (hyielded item).mpr hbelow with ⟨hitem, hfile⟩
            exact hallowed item hitem hfile

/-- The regular files that a pattern means. -/
def Chosen (fnmatch : String → String → Bool) (root : List (String × Entry)) (pattern : String)
    (item : Path × Entry) : Prop :=
  InRoot root item ∧ item.2.isFile = true ∧ Protects fnmatch pattern item.1

theorem isDir_eq_false_of_isFile {entry : Entry} (h : entry.isFile = true) :
    entry.isDir = false := by
  cases entry with
  | file content mode => rfl
  | dir children => cases h
  | socket => rfl
  | link => rfl
  | special => rfl

/-- What is below a match is what the pattern means. -/
theorem below_iff_protects {canonical : String} (hcanonical : validateRelativePattern pattern =
    .ok canonical) {item : Path × Entry} (hin : InRoot root item) :
    (∃ above, (InRoot root above ∧ Matches fnmatch canonical above) ∧ Below above item) ↔
      item.2.isFile = true ∧ Protects fnmatch pattern item.1 := by
  constructor
  · rintro ⟨above, ⟨habove, hplain, hselects⟩, ⟨names, hpath, hreaches, hnames, -⟩, hfile⟩
    refine ⟨hfile, canonical, above.1, names, hcanonical, hpath, ?_, hnames⟩
    have hdir : above.2.isDir = !names.isEmpty := by
      cases names with
      | nil =>
          rw [← reaches_nil.mp hreaches]
          exact isDir_eq_false_of_isFile hfile
      | cons name rest => exact isDir_of_reaches hreaches
    rw [← hdir]
    exact hselects
  · rintro ⟨hfile, canonical', front, back, hcanonical', hpath, hselects, hnames⟩
    cases hcanonical.symm.trans hcanonical'
    unfold InRoot at hin
    rw [hpath] at hin
    rcases reaches_append.mp hin with ⟨middle, hfront, hback⟩
    have hplain : item.2.isPlain = true := by
      unfold Entry.isPlain
      rw [hfile, Bool.true_or]
    have hdir : middle.isDir = !back.isEmpty ∧ middle.isPlain = true := by
      cases back with
      | nil =>
          rw [← reaches_nil.mp hback]
          exact ⟨isDir_eq_false_of_isFile hfile, hplain⟩
      | cons name rest =>
          have hmiddle := isDir_of_reaches hback
          exact ⟨hmiddle, isPlain_of_isDir hmiddle⟩
    rw [← hdir.1] at hselects
    exact ⟨(front, middle), ⟨hfront, hdir.2, hselects⟩, ⟨back, hpath, hback, hnames, hplain⟩, hfile⟩

/-- What the files of a pattern are. -/
theorem mem_expandPatternFiles (hlegal : LegalTree root) {selected : List (Path × Entry)}
    (hok : expandPatternFiles fnmatch casefold root pattern = .ok selected) (item : Path × Entry) :
    (item ∈ selected ↔ Chosen fnmatch root pattern item) ∧
      (item ∈ selected → isForbiddenRelative casefold (asPosix item.1) = false) := by
  unfold expandPatternFiles at hok
  simp only [bind, Except.bind, pure, Except.pure] at hok
  cases hmatched : expandPattern fnmatch casefold root pattern with
  | error message =>
      rw [hmatched] at hok
      cases hok
  | ok matched =>
      rw [hmatched] at hok
      dsimp only at hok
      rcases mem_expandPattern hlegal hmatched with ⟨canonical, hcanonical, hmem⟩
      cases htrees : expandTrees casefold .empty matched with
      | error message =>
          rw [htrees] at hok
          cases hok
      | ok found =>
          rw [htrees] at hok
          cases hok
          have hitems : ∀ above ∈ matched, InRoot root above := by
            intro above habove
            exact ((hmem above).mp habove).1
          rcases expandTrees_indexes hlegal indexes_empty hitems htrees with
            ⟨hindexes, hallowed⟩
          rw [mem_inOrder hindexes]
          have hbelow : (∃ above ∈ matched, Below above item) ↔
              ∃ above, (InRoot root above ∧ Matches fnmatch canonical above) ∧ Below above item := by
            simp only [hmem]
          constructor
          · unfold Chosen
            constructor
            · rintro ⟨hin, hfalse | habove⟩
              · exact hfalse.elim
              · exact ⟨hin, (below_iff_protects hcanonical hin).mp (hbelow.mp habove)⟩
            · rintro ⟨hin, hprotects⟩
              exact ⟨hin, .inr (hbelow.mpr ((below_iff_protects hcanonical hin).mpr hprotects))⟩
          · rintro ⟨-, hfalse | ⟨above, habove, hitem⟩⟩
            · exact hfalse.elim
            · exact hallowed above habove item hitem

/-- The dictionary holds the paths of these files, each with some classes. -/
structure SelectedOf (selected : Dict String (List String)) (chosen : Path × Entry → Prop) :
    Prop where
  keys : ∀ key, key ∈ selected.keys ↔ ∃ item, chosen item ∧ asPosix item.1 = key
  classes : ∀ key classes, selected.get? key = some classes → classes ≠ [] ∧ "" ∉ classes

variable {selected selected' : Dict String (List String)} {chosen : Path × Entry → Prop}
  {className : String}

theorem selectedOf_empty : SelectedOf .empty fun _ => False := by
  constructor
  · intro key
    rw [Dict.mem_keys_iff]
    simp
  · intro key classes hget
    rw [Dict.get?_empty] at hget
    cases hget

theorem SelectedOf.congr {chosen' : Path × Entry → Prop} (h : SelectedOf selected chosen)
    (hiff : ∀ item, chosen item ↔ chosen' item) : SelectedOf selected chosen' := by
  constructor
  · intro key
    rw [h.keys]
    simp only [hiff]
  · exact h.classes

theorem SelectedOf.set (h : SelectedOf selected chosen) (hname : className ≠ "")
    (item : Path × Entry) :
    SelectedOf (selected.set (asPosix item.1)
        ((selected.get? (asPosix item.1)).getD [] ++ [className]))
      fun other => chosen other ∨ other = item := by
  constructor
  · intro key
    rw [Dict.mem_keys_iff]
    by_cases hkey : asPosix item.1 = key
    · rw [← hkey, Dict.get?_set_self]
      constructor
      · intro _
        exact ⟨item, .inr rfl, rfl⟩
      · intro _
        exact ⟨_, rfl⟩
    · rw [Dict.get?_set_of_ne _ _ hkey, ← Dict.mem_keys_iff, h.keys]
      constructor
      · rintro ⟨other, hother, hpath⟩
        exact ⟨other, .inl hother, hpath⟩
      · rintro ⟨other, hother | rfl, hpath⟩
        · exact ⟨other, hother, hpath⟩
        · exact absurd hpath hkey
  · intro key classes hget
    rw [Dict.get?_set] at hget
    by_cases hkey : asPosix item.1 = key
    · rw [if_pos hkey, Option.some.injEq] at hget
      rw [← hget]
      constructor
      · simp
      · rw [List.mem_append, List.mem_singleton, not_or]
        refine ⟨?_, hname.symm⟩
        cases hbefore : selected.get? (asPosix item.1) with
        | none => exact List.not_mem_nil
        | some before => exact (h.classes _ _ hbefore).2
    · rw [if_neg hkey] at hget
      exact h.classes key classes hget

theorem selectFiles_selected (hname : className ≠ "") (items : List (Path × Entry))
    (h : SelectedOf selected chosen) :
    SelectedOf (selectFiles className selected items) fun item => chosen item ∨ item ∈ items := by
  induction items generalizing selected chosen with
  | nil =>
      apply h.congr
      simp
  | cons first later ih =>
      rcases first with ⟨path, entry⟩
      rw [selectFiles]
      apply (ih (h.set hname (path, entry))).congr
      intro item
      rw [List.mem_cons, or_assoc]

/-- The loop over the patterns selects what any of them means. -/
theorem selectPatterns_selected (hlegal : LegalTree root) {patterns : List (String × String)}
    (hnames : ∀ entry ∈ patterns, entry.1 ≠ "") (h : SelectedOf selected chosen)
    (hallowed : ∀ item, chosen item → isForbiddenRelative casefold (asPosix item.1) = false)
    (hok : selectPatterns fnmatch casefold root selected patterns = .ok selected') :
    SelectedOf selected' (fun item =>
        chosen item ∨ ∃ entry ∈ patterns, Chosen fnmatch root entry.2 item) ∧
      ∀ item, (chosen item ∨ ∃ entry ∈ patterns, Chosen fnmatch root entry.2 item) →
        isForbiddenRelative casefold (asPosix item.1) = false := by
  induction patterns generalizing selected chosen with
  | nil =>
      cases hok
      constructor
      · apply h.congr
        simp
      · simpa using hallowed
  | cons first later ih =>
      rcases first with ⟨className, pattern⟩
      rw [List.forall_mem_cons] at hnames
      rw [selectPatterns] at hok
      simp only [bind, Except.bind] at hok
      cases hfiles : expandPatternFiles fnmatch casefold root pattern with
      | error message =>
          rw [hfiles] at hok
          cases hok
      | ok files =>
          rw [hfiles] at hok
          have hmem := mem_expandPatternFiles hlegal hfiles
          have hstep := (selectFiles_selected hnames.1 files h).congr fun item => by
            rw [(hmem item).1]
          have hstepAllowed : ∀ item, chosen item ∨ Chosen fnmatch root pattern item →
              isForbiddenRelative casefold (asPosix item.1) = false := by
            rintro item (hchosen | hnew)
            · exact hallowed item hchosen
            · exact (hmem item).2 ((hmem item).1.mpr hnew)
          have hrest := ih hnames.2 hstep hstepAllowed hok
          simpa only [List.mem_cons, exists_eq_or_imp, or_assoc] using hrest

theorem snapshotPatterns_named (policy : DataPolicy) :
    ∀ entry ∈ policy.snapshotPatterns, entry.1 ≠ "" := by
  intro entry hentry
  unfold DataPolicy.snapshotPatterns at hentry
  rcases List.mem_append.mp hentry with hclass | hlegacy
  · rcases List.mem_flatMap.mp hclass with ⟨name, hname, hpattern⟩
    rcases List.mem_map.mp hpattern with ⟨pattern, -, rfl⟩
    dsimp only
    rintro rfl
    revert hname
    decide
  · rcases List.mem_map.mp hlegacy with ⟨pattern, -, rfl⟩
    dsimp only
    decide

/-- What the policy protects: the regular files that some pattern means. -/
def Protected (fnmatch : String → String → Bool) (policy : DataPolicy)
    (root : List (String × Entry)) (path : Path) : Prop :=
  ∃ content mode className pattern, Reaches (.dir root) path (.file content mode) ∧
    (className, pattern) ∈ policy.snapshotPatterns ∧ Protects fnmatch pattern path

/-- What is said of the files that a policy resolves to. -/
structure ResolvedAs (fnmatch : String → String → Bool) (casefold : String → String)
    (policy : DataPolicy) (root : List (String × Entry)) (files : List ProtectedFile) : Prop where
  mem_iff : ∀ relative, relative ∈ files.map ProtectedFile.relativePath ↔
    ∃ path, Protected fnmatch policy root path ∧ asPosix path = relative
  increasing : (files.map ProtectedFile.relativePath).Pairwise (· < ·)
  allowed : ∀ file ∈ files, isForbiddenRelative casefold file.relativePath = false
  classes : ∀ file ∈ files, file.classes ≠ [] ∧ "" ∉ file.classes ∧
    file.classes = sortedSet file.classes

theorem chosen_iff_protected {path : Path} :
    (∃ item, (∃ entry ∈ policy.snapshotPatterns, Chosen fnmatch root entry.2 item) ∧
      item.1 = path) ↔ Protected fnmatch policy root path := by
  constructor
  · rintro ⟨⟨path, entry⟩, ⟨⟨className, pattern⟩, hpattern, hin, hfile, hprotects⟩, rfl⟩
    cases entry with
    | file content mode => exact ⟨content, mode, className, pattern, hin, hpattern, hprotects⟩
    | dir children => cases hfile
    | socket => cases hfile
    | link => cases hfile
    | special => cases hfile
  · rintro ⟨content, mode, className, pattern, hin, hpattern, hprotects⟩
    exact ⟨(path, .file content mode), ⟨(className, pattern), hpattern, hin, rfl, hprotects⟩, rfl⟩

theorem resolve_ok (hlegal : LegalTree root)
    (hok : resolve fnmatch casefold policy root = .ok files) :
    ResolvedAs fnmatch casefold policy root files := by
  unfold resolve at hok
  simp only [bind, Except.bind, pure, Except.pure] at hok
  cases hselected : selectPatterns fnmatch casefold root .empty policy.snapshotPatterns with
  | error message =>
      rw [hselected] at hok
      cases hok
  | ok selected =>
      rw [hselected] at hok
      cases hok
      rcases selectPatterns_selected hlegal (snapshotPatterns_named policy) selectedOf_empty
        (fun _ hfalse => hfalse.elim) hselected with ⟨hof, hallowed⟩
      have hpaths : ((sortedSet selected.keys).map fun key =>
          (⟨key, sortedSet ((selected.get? key).getD [])⟩ : ProtectedFile)).map
            ProtectedFile.relativePath = sortedSet selected.keys := by
        rw [List.map_map]
        exact List.map_id' _
      constructor
      · intro relative
        rw [hpaths, mem_sortedSet, hof.keys]
        simp only [false_or]
        constructor
        · rintro ⟨item, hchosen, hrelative⟩
          exact ⟨item.1, chosen_iff_protected.mp ⟨item, hchosen, rfl⟩, hrelative⟩
        · rintro ⟨path, hprotected, hrelative⟩
          rcases chosen_iff_protected.mpr hprotected with ⟨item, hchosen, rfl⟩
          exact ⟨item, hchosen, hrelative⟩
      · rw [hpaths]
        exact sortedSet_pairwise _
      · intro file hfile
        rcases List.mem_map.mp hfile with ⟨key, hkey, rfl⟩
        rw [mem_sortedSet, hof.keys] at hkey
        rcases hkey with ⟨item, hchosen, rfl⟩
        exact hallowed item hchosen
      · intro file hfile
        rcases List.mem_map.mp hfile with ⟨key, hkey, rfl⟩
        rw [mem_sortedSet, Dict.mem_keys_iff] at hkey
        rcases hkey with ⟨classes, hget⟩
        rcases hof.classes key classes hget with ⟨hne, hempty⟩
        dsimp only
        rw [hget, Option.getD_some]
        refine ⟨?_, ?_, (sortedSet_eq_self (sortedSet_pairwise _)).symm⟩
        · rcases List.exists_mem_of_ne_nil classes hne with ⟨className, hmem⟩
          exact List.ne_nil_of_mem (mem_sortedSet.mpr hmem)
        · rw [mem_sortedSet]
          exact hempty
end Resolved


/-! ## Plain paths -/

/-- A path whose text is read as it is: no character of the pattern language, no blank at an end,
no drive. -/
structure PlainPath (path : Path) : Prop where
  noBack : ∀ name ∈ path, '\\' ∉ name.toList
  noMagic : ∀ name ∈ path, hasMagic name = false
  start : ∀ name, path.head? = some name → ∀ c, name.toList.head? = some c → isSpace c = false
  stop : ∀ name, path.getLast? = some name → ∀ c, name.toList.getLast? = some c → isSpace c = false
  noDrive : ∀ name, path.head? = some name → hasDrive name.toList = false

section Plain

variable {path : Path}

/-- The characters of the text are separators and those of the names. -/
theorem mem_asPosix {c : Char} (hpath : path ≠ []) (hc : c ≠ '/') :
    c ∈ (asPosix path).toList ↔ ∃ name ∈ path, c ∈ name.toList := by
  rw [asPosix_of_ne_nil hpath, String.toList_ofList]
  constructor
  · intro hmem
    rcases mem_intercalate hmem with heq | ⟨part, hpart, hmem⟩
    · exact absurd heq hc
    · rcases List.mem_map.mp hpart with ⟨name, hname, rfl⟩
      exact ⟨name, hname, hmem⟩
  · rintro ⟨name, hname, hmem⟩
    exact mem_intercalate_of_mem (List.mem_map_of_mem hname) hmem

theorem head_asPosix (h : ∀ name ∈ path, LegalName name) {name : String}
    (hname : path.head? = some name) : (asPosix path).toList.head? = name.toList.head? ∧
      hasDrive (asPosix path).toList = hasDrive name.toList := by
  cases path with
  | nil => cases hname
  | cons first rest =>
      cases hname
      have hne := (h name List.mem_cons_self).nonempty
      rw [asPosix_of_ne_nil (List.cons_ne_nil _ _), String.toList_ofList, List.map_cons]
      exact ⟨head_intercalate hne, hasDrive_intercalate hne⟩

theorem getLast_asPosix (h : ∀ name ∈ path, LegalName name) {name : String}
    (hname : path.getLast? = some name) :
    (asPosix path).toList.getLast? = name.toList.getLast? := by
  have hpath : path ≠ [] := by
    rintro rfl
    cases hname
  rw [asPosix_of_ne_nil hpath, String.toList_ofList]
  apply getLast_intercalate
  · rw [List.getLast?_map, hname]
    rfl
  · exact (h name (List.mem_of_getLast? hname)).nonempty

theorem hasMagic_asPosix (hpath : path ≠ []) :
    hasMagic (asPosix path) = false ↔ ∀ name ∈ path, hasMagic name = false := by
  unfold hasMagic
  simp only [List.any_eq_false]
  constructor
  · intro h name hname c hc
    by_cases hslash : c = '/'
    · rw [hslash]
      decide
    · exact h c ((mem_asPosix hpath hslash).mpr ⟨name, hname, hc⟩)
  · intro h c hc
    by_cases hslash : c = '/'
    · rw [hslash]
      decide
    · rcases (mem_asPosix hpath hslash).mp hc with ⟨name, hname, hmem⟩
      exact h name hname c hmem

/-- The manifest takes the path of a file as it is exactly if it is plain. -/
theorem validate_asPosix_iff (hpath : path ≠ []) (h : ∀ name ∈ path, LegalName name) :
    validateRelativePath (asPosix path) = .ok (asPosix path) ↔ PlainPath path := by
  have hbackslash : ('\\' : Char) ≠ '/' := by decide
  have hfirst : path.head? = some (path.head hpath) := List.head?_eq_some_head hpath
  have hlast : path.getLast? = some (path.getLast hpath) := List.getLast?_eq_some_getLast hpath
  rcases head_asPosix h hfirst with ⟨hhead, hdrive⟩
  have hend := getLast_asPosix h hlast
  constructor
  · intro hok
    have hpattern := pattern_of_path hok
    rcases unchanged_of_length hpattern (Nat.le_refl _) with ⟨hstrip, hdot, -, -⟩
    rcases ends_of_strip hstrip with ⟨hstart, hstop⟩
    have hback := (chars_of_ok hpattern).2
    unfold remaining at hback
    rw [hstrip, hdot] at hback
    have haccepted := (accepted_of_ok hpattern).1
    rw [hstrip] at haccepted
    constructor
    · intro name hname hmem
      exact hback ((mem_asPosix hpath hbackslash).mpr ⟨name, hname, hmem⟩)
    · rw [← hasMagic_asPosix hpath]
      unfold validateRelativePath at hok
      rw [hpattern] at hok
      dsimp only at hok
      by_contra hmagic
      rw [Bool.not_eq_false] at hmagic
      rw [if_pos hmagic] at hok
      cases hok
    · intro name hname c hc
      cases hfirst.symm.trans hname
      exact hstart c (hhead.trans hc)
    · intro name hname c hc
      cases hlast.symm.trans hname
      exact hstop c (hend.trans hc)
    · intro name hname
      cases hfirst.symm.trans hname
      rw [← hdrive]
      exact haccepted.noDrive
  · intro hplain
    have hcomponents := components_asPosix h
    have hjoin : String.ofList (['/'].intercalate (components (asPosix path).toList)) =
        asPosix path := by
      rw [hcomponents, asPosix_of_ne_nil hpath]
    have hjoined : ['/'].intercalate (components (asPosix path).toList) =
        (asPosix path).toList := by
      conv_rhs => rw [← hjoin, String.toList_ofList]
    have hpattern : validateRelativePattern (asPosix path) = .ok (asPosix path) := by
      have hvalidated := @validate_join (asPosix path).toList
      rw [hjoin, hjoined] at hvalidated
      apply hvalidated
      · rw [hcomponents]
        exact fun hnil => hpath (List.map_eq_nil_iff.mp hnil)
      · rw [hcomponents]
        intro hmem
        rcases List.mem_map.mp hmem with ⟨name, hname, hparent⟩
        apply (h name hname).noParent
        apply String.toList_injective
        rw [hparent]
        rfl
      · intro hmem
        rcases (mem_asPosix hpath (by decide)).mp hmem with ⟨name, hname, hnull⟩
        exact (h name hname).noNull hnull
      · intro hmem
        rcases (mem_asPosix hpath hbackslash).mp hmem with ⟨name, hname, hback⟩
        exact hplain.noBack name hname hback
      · rw [hhead]
        intro hslash
        exact (h _ (List.mem_of_head? hfirst)).noSlash (List.mem_of_head? hslash)
      · rw [hdrive]
        exact hplain.noDrive _ hfirst
      · have hkept := @strip_ofList (asPosix path).toList
        rw [String.ofList_toList] at hkept
        apply hkept
        · rw [hhead]
          exact hplain.start _ hfirst
        · rw [hend]
          exact hplain.stop _ hlast
    unfold validateRelativePath
    rw [hpattern]
    dsimp only
    rw [(hasMagic_asPosix hpath).mpr hplain.noMagic, if_neg Bool.false_ne_true]

end Plain

end Backup
end Stemcell
