import Mathlib.Data.List.Infix
import Stemcell.Backup.Paths

/-!
# Files under a root

What is at each path under a directory, as the backup sees it: directories, regular files with
their content and mode, and anything else.

Main results:

- Definitions `Disk.put` and `Disk.unlink`: one path changed.
- Theorem `mem_parents`: the directories that a path needs.
- Theorem `canonical_of_parts`: a canonical path is its parts joined.

Current gaps:

- Links, sockets and files that cannot be read are one kind of node, which is always refused.
- Names are compared as they are written, as on a file system that tells cases apart.
-/

namespace Stemcell
namespace Backup

open Interface (strip)

/-- Names from the root down. -/
abbrev Path := List String

inductive Node
  | dir
  | file (content : List UInt8) (mode : Nat)
  | other
deriving DecidableEq, Repr

/-- What is at each path. -/
abbrev Disk := Path → Option Node

/-- A path with something at it, or something else. -/
def Disk.put (disk : Disk) (path : Path) (node : Node) : Disk :=
  fun other => if other = path then some node else disk other

/-- `path.unlink(missing_ok=True)`. -/
def Disk.unlink (disk : Disk) (path : Path) : Disk :=
  fun other => if other = path then none else disk other

/-- The directories on the way to a path, from the root down. -/
def parents (path : Path) : List Path :=
  path.inits.tail.dropLast

/-- `PurePath(value).parts`. -/
def pathParts (value : String) : Path :=
  (posixParts value.toList).map String.ofList

/-- `path.name`. -/
def fileName (path : Path) : String :=
  path.getLast?.getD ""

/-- `path.with_name(name)`. -/
def withName (path : Path) (name : String) : Path :=
  path.dropLast ++ [name]

section Lookup

variable {disk : Disk} {path path' other : Path} {node : Node} {name : String}

@[simp]
theorem put_self : disk.put path node path = some node :=
  if_pos rfl

theorem put_of_ne (h : other ≠ path) : disk.put path node other = disk other :=
  if_neg h

@[simp]
theorem unlink_self : disk.unlink path path = none :=
  if_pos rfl

theorem unlink_of_ne (h : other ≠ path) : disk.unlink path other = disk other :=
  if_neg h

/-- The parents of a path are the paths above it. -/
theorem mem_parents : other ∈ parents path ↔ other <+: path ∧ other ≠ [] ∧ other ≠ path := by
  have hsnoc : ∀ (init : Path) (last : String),
      parents (init ++ [last]) = init.inits.tail := by
    intro init last
    unfold parents
    rw [List.inits_append]
    cases init with
    | nil => rfl
    | cons first rest => simp
  rcases List.eq_nil_or_concat path with rfl | ⟨init, last, rfl⟩
  · simp [parents]
  · rw [List.concat_eq_append, hsnoc]
    have htail : ∀ other : Path, other ∈ init.inits.tail ↔ other <+: init ∧ other ≠ [] := by
      intro other
      cases init with
      | nil => simp
      | cons first rest =>
          rw [List.inits_cons, List.tail_cons, List.mem_map]
          constructor
          · rintro ⟨rest', hrest, rfl⟩
            rw [List.mem_inits] at hrest
            exact ⟨(List.prefix_cons_inj first).mpr hrest, List.cons_ne_nil _ _⟩
          · rintro ⟨hbefore, hne⟩
            cases other with
            | nil => exact absurd rfl hne
            | cons c other =>
                rcases hbefore with ⟨later, hlater⟩
                cases hlater
                exact ⟨other, (List.mem_inits _ _).mpr ⟨later, rfl⟩, rfl⟩
    rw [htail, List.prefix_concat_iff]
    constructor
    · rintro ⟨hbefore, hne⟩
      refine ⟨.inr hbefore, hne, ?_⟩
      rintro rfl
      have hlength := hbefore.length_le
      rw [List.length_append, List.length_singleton] at hlength
      omega
    · rintro ⟨rfl | hbefore, hne, hother⟩
      · exact absurd rfl hother
      · exact ⟨hbefore, hne⟩

theorem withName_ne (h : name ≠ fileName path) : withName path name ≠ path := by
  intro hsame
  apply h
  have hlast := congrArg List.getLast? hsame
  unfold withName at hlast
  unfold fileName
  rw [← hlast, List.getLast?_concat]
  rfl

theorem withName_not_mem_parents : withName path name ∉ parents path := by
  rw [mem_parents]
  rintro ⟨hbefore, -, hne⟩
  rcases List.eq_nil_or_concat path with rfl | ⟨init, last, rfl⟩
  · exact hne (List.prefix_nil.mp hbefore)
  · apply hne
    apply hbefore.eq_of_length
    simp [withName]

end Lookup

/-! ## Canonical paths -/

section Canonical

variable {value : List Char} {path path' : String}

theorem not_mem_components (value : List Char) :
    ∀ part ∈ components value, '/' ∉ part ∧ part ≠ [] ∧ part ≠ ['.'] := by
  intro part hpart
  unfold components at hpart
  rw [List.mem_filter, decide_eq_true_eq] at hpart
  exact ⟨not_mem_splitOn '/' value part hpart.1, hpart.2⟩

/-- Joining components and taking them apart again gives the components. -/
theorem components_intercalate {parts : List (List Char)}
    (h : ∀ part ∈ parts, '/' ∉ part ∧ part ≠ [] ∧ part ≠ ['.']) :
    components (['/'].intercalate parts) = parts := by
  by_cases hne : parts = []
  · subst hne
    rfl
  · unfold components
    rw [List.splitOn_intercalate _ (fun part hpart => (h part hpart).1) hne]
    rw [List.filter_eq_self]
    intro part hpart
    simpa using (h part hpart).2

/-- The canonical form has the components of what it is of. -/
theorem components_canonical (value : List Char) :
    components (canonical value) = components value := by
  have hjoin := components_intercalate (not_mem_components value)
  unfold canonical posixRoot
  split
  · rw [List.singleton_append, components_slash, hjoin]
  · rw [List.cons_append, List.singleton_append, components_slash, components_slash, hjoin]
  · rw [List.singleton_append, components_slash, hjoin]
  · rw [List.nil_append, hjoin]

theorem posixRoot_eq_nil : posixRoot value = [] ↔ value.head? ≠ some '/' := by
  unfold posixRoot
  split
  · simp
  · simp
  · simp
  · rename_i hnot
    cases value with
    | nil => simp
    | cons c rest =>
        have hc : c ≠ '/' := fun hslash => hnot rest (by rw [hslash])
        simpa using hc

/-- A validated path without a root is its parts joined. -/
theorem validated_joined (h : validateRelativePath path = .ok path')
    (hroot : posixRoot path'.toList = []) :
    (posixParts path'.toList) = components path'.toList ∧
      path'.toList = ['/'].intercalate (components path'.toList) := by
  refine ⟨if_pos hroot, ?_⟩
  have hcanonical := (accepted_of_ok (pattern_of_path h)).2
  generalize dropDot (strip path).toList = value at hcanonical
  subst hcanonical
  rw [String.toList_ofList] at hroot ⊢
  rw [components_canonical]
  have hplain : posixRoot value = [] := by
    by_contra hslash
    rw [posixRoot_eq_nil] at hroot
    apply hroot
    unfold canonical
    unfold posixRoot at hslash ⊢
    split at hslash
    · rfl
    · rfl
    · rfl
    · exact absurd rfl hslash
  unfold canonical
  rw [hplain, List.nil_append]

/-- A path whose first part is a name has no root. -/
theorem no_root_of_parts {name : String} {rest : Path} (hparts : pathParts path = name :: rest)
    (hname : '/' ∉ name.toList) : posixRoot path.toList = [] := by
  by_contra hne
  unfold pathParts posixParts at hparts
  rw [if_neg hne, List.map_cons] at hparts
  apply hname
  rw [← (List.cons.inj hparts).1, String.toList_ofList]
  unfold posixRoot at hne ⊢
  split at hne <;> simp at hne ⊢

/-- The parts of a path without a root are names. -/
theorem names_of_parts (hroot : posixRoot path.toList = []) :
    ∀ part ∈ pathParts path, '/' ∉ part.toList ∧ part.toList ≠ [] := by
  intro part hpart
  unfold pathParts posixParts at hpart
  rw [if_pos hroot] at hpart
  rcases List.mem_map.mp hpart with ⟨chars, hchars, rfl⟩
  rw [String.toList_ofList]
  have hcomponent := not_mem_components path.toList chars hchars
  exact ⟨hcomponent.1, hcomponent.2.1⟩

/-- A validated path whose first part is a name is its parts joined. -/
theorem validated_text {name : String} {rest : Path} (h : validateRelativePath path = .ok path')
    (hparts : pathParts path' = name :: rest) (hname : '/' ∉ name.toList) :
    path' = String.ofList (['/'].intercalate ((name :: rest).map String.toList)) := by
  have hback : posixParts path'.toList = (name :: rest).map String.toList := by
    rw [← hparts]
    unfold pathParts
    rw [List.map_map]
    symm
    apply List.map_id''
    exact fun part => String.toList_ofList
  rcases validated_joined h (no_root_of_parts hparts hname) with ⟨hcomponents, hjoined⟩
  rw [← hback, hcomponents, ← hjoined, String.ofList_toList]

/-- Paths that are their own canonical form are told apart by their parts. -/
theorem parts_injective (h : validateRelativePath path = .ok path)
    (h' : validateRelativePath path' = .ok path') (hparts : pathParts path = pathParts path') :
    path = path' := by
  rcases validated_joined h (relative_of_fixed h).noRoot with ⟨hcomponents, hjoined⟩
  rcases validated_joined h' (relative_of_fixed h').noRoot with ⟨hcomponents', hjoined'⟩
  have hsame : posixParts path.toList = posixParts path'.toList := by
    apply List.map_injective_iff.mpr _ hparts
    exact fun first second hofList => by simpa using congrArg String.toList hofList
  rw [hcomponents, hcomponents'] at hsame
  apply String.toList_injective
  rw [hjoined, hjoined', hsame]

theorem parts_ne_nil (h : validateRelativePath path = .ok path) : pathParts path ≠ [] := by
  have hrelative := relative_of_fixed h
  unfold pathParts posixParts
  rw [if_pos hrelative.noRoot, ← hrelative.parts]
  exact fun hnil => List.splitOnP_ne_nil _ _ (List.map_eq_nil_iff.mp hnil)

end Canonical

end Backup
end Stemcell
