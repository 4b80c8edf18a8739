import Stemcell.Backup.Create
import Stemcell.Backup.Resume

/-!
# Restoring what was captured

A snapshot is restored into a new directory, file by file in the order of the paths, each through
a temporary file beside its destination.

Main results:

- Definition `restoreSnapshot`: the tree that a restore makes.
- Theorem `restoreFiles_iff`: when all files of a manifest can be restored.
- Theorem `round_trip_law`: when a snapshot that was created is restored as it was captured.
- Theorem `temporary_taken`: a file with the name of a temporary file is in the way.

Current gaps:

- The new directory is not there before the restore, and nothing else writes to it.
- A file system accepts a name or not; the length of whole paths is not bounded, and what is
  written can be read again.
-/

namespace Stemcell
namespace Backup

open Interface (Json)
open Lib

/-- `destination.parent.mkdir(parents=True, exist_ok=True)`, on a file system that accepts some
names. -/
def makeDirs (accepts : String → Bool) (disk : Disk) : List Path → Except String Disk
  | [] => .ok disk
  | path :: rest =>
      match disk path with
      | none =>
          if accepts (fileName path) then makeDirs accepts (disk.put path .dir) rest
          else .error "File name too long"
      | some .dir => makeDirs accepts disk rest
      | some _ => .error "File exists"

/-- `f".{name}.partial"`. -/
def partialName (name : String) : String :=
  String.ofList (['.'] ++ name.toList ++ ".partial".toList)

/-- `destination.with_name(...)`. -/
def partialOf (destination : Path) : Path :=
  withName destination (partialName (fileName destination))

section Restoring

variable (platform : Platform) (accepts : String → Bool) (store : Store)

/-- A file that was restored, hashed again. -/
def checkHash (entry : FileEntry) (destination : Path) (disk : Disk) : Except String Disk :=
  match disk destination with
  | some (.file content _) =>
      if platform.py.sha256 content ≠ entry.sha256 ∨ content.length ≠ entry.size then
        .error "Restored file failed verification"
      else .ok disk
  | _ => .error "Missing snapshot object"

/-- `temporary.open("xb")`, the copy, `os.chmod` and `os.replace`. -/
def installEntry (entry : FileEntry) (destination : Path) (content : List UInt8) (disk : Disk) :
    Except String Disk :=
  let temporary := partialOf destination
  if !accepts (fileName temporary) then .error "File name too long"
  else if (disk temporary).isSome then .error "File exists"
  else if !accepts (fileName destination) then .error "File name too long"
  else if disk destination = some .dir then .error "Is a directory"
  else
    .ok ((disk.put temporary (.file content (entry.mode % 512))).replace temporary destination)

/-- One file of `restore_snapshot`. -/
def restoreEntry (disk : Disk) (entry : FileEntry) : Except String Disk :=
  match validateRelativePath entry.path with
  | .error error => .error error
  | .ok relative => do
      let disk ← makeDirs accepts disk (parents (pathParts relative))
      let content ← openVerifiedObject platform store entry.sha256 entry.size
      let disk ← installEntry accepts entry (pathParts relative) content disk
      checkHash platform entry (pathParts relative) disk

/-- The files of `restore_snapshot`, into the staging directory. -/
def restoreFiles : Disk → List FileEntry → Except String Disk
  | disk, [] => .ok disk
  | disk, entry :: rest =>
      match restoreEntry platform accepts store disk entry with
      | .error error => .error error
      | .ok disk => restoreFiles disk rest

/-- `plan_restore`, where something may be at the target. -/
def planRestore (limits : SnapshotLimits) (snapshot : Json) (occupied : Bool) :
    Except String (Manifest × RestorePlan) :=
  if occupied then .error "Restore target must be a new, nonexistent directory."
  else (verifyLocalSnapshot platform store limits snapshot).map fun manifest =>
    (manifest, planOf manifest true)

/-- `restore_snapshot`: the plan, and the tree unless it is only planned. -/
def restoreSnapshot (limits : SnapshotLimits) (snapshot : Json) (occupied dryRun : Bool) :
    Except String (RestorePlan × Option Disk) :=
  match planRestore platform store limits snapshot occupied with
  | .error error => .error error
  | .ok (manifest, plan) =>
      if dryRun then .ok (plan, none)
      else
        match restoreFiles platform accepts store (fun _ => none) manifest.body.files with
        | .error error => .error error
        | .ok tree => .ok ({ plan with dryRun := false }, some tree)

end Restoring

/-! ## Trees of files -/

variable {platform : Platform} {accepts : String → Bool} {store store' : Store} {disk tree : Disk}
  {entry : FileEntry} {entries files : List FileEntry} {path destination : Path}
  {content : List UInt8} {mode : Nat} {node : Node}

/-- The file of an entry, with the content that the store has for it. -/
def IsFileOf (platform : Platform) (store : Store) (entry : FileEntry) (node : Node) : Prop :=
  ∃ content, openVerifiedObject platform store entry.sha256 entry.size = .ok content ∧
    node = .file content (entry.mode % 512)

/-- The files of these entries, the directories that they need, and nothing else. -/
def TreeOf (platform : Platform) (store : Store) (files : List FileEntry) (tree : Disk) : Prop :=
  ∀ path node, tree path = some node ↔
    (∃ entry ∈ files, pathParts entry.path = path ∧ IsFileOf platform store entry node) ∨
      (node = .dir ∧ ∃ entry ∈ files, path ∈ parents (pathParts entry.path))

/-- What the entries of a snapshot are: paths that are written as they are, in their order, whose
names the file system accepts, and no file where another one needs a directory. -/
structure Restorable (platform : Platform) (accepts : String → Bool) (store : Store)
    (files : List FileEntry) : Prop where
  sorted : (files.map FileEntry.path).Pairwise (· < ·)
  fixed : ∀ entry ∈ files, validateRelativePath entry.path = .ok entry.path
  objects : ∀ entry ∈ files, ∃ content,
    openVerifiedObject platform store entry.sha256 entry.size = .ok content
  apart : ∀ entry ∈ files, ∀ other ∈ files,
    pathParts entry.path ∉ parents (pathParts other.path)
  names : ∀ entry ∈ files, ∀ name ∈ pathParts entry.path, accepts name = true

/-- The temporary file of an entry can be made when its turn comes. -/
def Free (accepts : String → Bool) (files : List FileEntry) (entry : FileEntry) : Prop :=
  accepts (partialName (fileName (pathParts entry.path))) = true ∧
    ∀ other ∈ files, other.path < entry.path →
      ¬ partialOf (pathParts entry.path) <+: pathParts other.path

theorem partialOf_ne (destination : Path) : partialOf destination ≠ destination := by
  apply withName_ne
  intro hsame
  have hlength := congrArg (fun name => name.toList.length) hsame
  simp only [partialName, String.toList_ofList, List.length_append] at hlength
  have hsuffix : ".partial".toList.length = 8 := by decide
  omega

theorem partialOf_ne_nil (destination : Path) : partialOf destination ≠ [] := by
  unfold partialOf withName
  simp

theorem fileName_partialOf (destination : Path) :
    fileName (partialOf destination) = partialName (fileName destination) := by
  unfold partialOf withName
  rw [fileName, List.getLast?_concat]
  rfl

/-- What is at a path or needs it as a directory. -/
theorem prefix_iff {other : Path} (hne : path ≠ []) :
    path <+: other ↔ path = other ∨ path ∈ parents other := by
  rw [mem_parents]
  constructor
  · intro hbefore
    by_cases hsame : path = other
    · exact .inl hsame
    · exact .inr ⟨hbefore, hne, hsame⟩
  · rintro (rfl | ⟨hbefore, -⟩)
    · exact List.prefix_refl _
    · exact hbefore

theorem makeDirs_ok {rest : List Path}
    (hallows : ∀ path ∈ rest, disk path = none ∨ disk path = some .dir)
    (hnames : ∀ path ∈ rest, accepts (fileName path) = true) :
    makeDirs accepts disk rest = .ok fun path => if path ∈ rest then some .dir else disk path := by
  induction rest generalizing disk with
  | nil => simp [makeDirs]
  | cons path rest ih =>
      have hlater := fun other hother => hnames other (List.mem_cons_of_mem _ hother)
      have hresult : ∀ disk' : Disk, disk' path = some .dir →
          (∀ other, other ≠ path → disk' other = disk other) →
          makeDirs accepts disk' rest = .ok fun other =>
            if other ∈ path :: rest then some .dir else disk other := by
        intro disk' hdir hsame
        rw [ih ?_ hlater]
        · congr 1
          funext other
          by_cases hother : other = path
          · subst hother
            rw [if_pos List.mem_cons_self, hdir, ite_self]
          · rw [hsame other hother]
            simp [hother]
        · intro other hother
          by_cases hpath : other = path
          · rw [hpath]
            exact .inr hdir
          · rw [hsame other hpath]
            exact hallows other (List.mem_cons_of_mem _ hother)
      unfold makeDirs
      rcases hallows path List.mem_cons_self with hnone | hdir
      · rw [hnone]
        simp only
        rw [if_pos (hnames path List.mem_cons_self)]
        exact hresult _ put_self fun other hne => put_of_ne hne
      · rw [hdir]
        exact hresult disk hdir fun _ _ => rfl

/-- Where the temporary file is free, the file comes to its destination. -/
theorem installEntry_ok (hunused : disk (partialOf destination) = none)
    (hdestination : disk destination ≠ some .dir)
    (habove : ∀ parent ∈ parents destination, disk parent = some .dir)
    (hpart : accepts (partialName (fileName destination)) = true)
    (hname : accepts (fileName destination) = true) :
    installEntry accepts entry destination content disk =
      .ok (disk.installed destination (partialOf destination) content (entry.mode % 512)) := by
  have hne := partialOf_ne destination
  unfold installEntry
  simp only
  rw [fileName_partialOf, hpart, hname, hunused, if_neg (by simp), if_neg (by simp),
    if_neg (by simp), if_neg hdestination]
  congr 1
  unfold Disk.replace
  rw [put_self]
  simp only
  funext path
  unfold Disk.installed
  by_cases hpath : path = destination
  · subst hpath
    rw [if_pos rfl, unlink_of_ne hne.symm]
    exact put_self
  rw [if_neg hpath]
  by_cases htemporary : path = partialOf destination
  · subst htemporary
    rw [if_pos rfl]
    exact unlink_self
  rw [if_neg htemporary, unlink_of_ne htemporary, put_of_ne hpath, put_of_ne htemporary]
  split
  · rename_i hparent
    exact habove path hparent
  · rfl

/-- A file whose temporary file is free is restored, and no other. -/
theorem restoreEntry_iff (hfixed : validateRelativePath entry.path = .ok entry.path)
    (hallows : ∀ parent ∈ parents (pathParts entry.path),
      tree parent = none ∨ tree parent = some .dir)
    (hdestination : tree (pathParts entry.path) ≠ some .dir)
    (hnames : ∀ name ∈ pathParts entry.path, accepts name = true)
    (hne : pathParts entry.path ≠ [])
    (hobject : openVerifiedObject platform store entry.sha256 entry.size = .ok content)
    {tree' : Disk} : restoreEntry platform accepts store tree entry = .ok tree' ↔
      (accepts (partialName (fileName (pathParts entry.path))) = true ∧
          tree (partialOf (pathParts entry.path)) = none) ∧
        tree' = tree.installed (pathParts entry.path) (partialOf (pathParts entry.path)) content
          (entry.mode % 512) := by
  have hlast : ∀ path : Path, path ≠ [] → path <+: pathParts entry.path →
      accepts (fileName path) = true := by
    intro path hpath hbefore
    apply hnames
    apply hbefore.subset
    unfold fileName
    rw [List.getLast?_eq_some_getLast hpath]
    exact List.getLast_mem hpath
  have hparent : partialOf (pathParts entry.path) ∉ parents (pathParts entry.path) :=
    withName_not_mem_parents
  have hself : pathParts entry.path ∉ parents (pathParts entry.path) := fun hmem =>
    (mem_parents.mp hmem).2.2 rfl
  have hmade := (@makeDirs_ok accepts _ _) hallows fun path hpath =>
    hlast path (mem_parents.mp hpath).2.1 (mem_parents.mp hpath).1
  have hrun : restoreEntry platform accepts store tree entry =
      (installEntry accepts entry (pathParts entry.path) content fun path =>
        if path ∈ parents (pathParts entry.path) then some .dir else tree path) >>=
          checkHash platform entry (pathParts entry.path) := by
    unfold restoreEntry
    rw [hfixed]
    simp only [hmade, hobject, bind, Except.bind]
  have hgrown : ∀ path ∉ parents (pathParts entry.path),
      (if path ∈ parents (pathParts entry.path) then some .dir else tree path) = tree path :=
    fun path hpath => if_neg hpath
  have hinstalled : (Disk.installed (fun path =>
      if path ∈ parents (pathParts entry.path) then some .dir else tree path)
        (pathParts entry.path) (partialOf (pathParts entry.path)) content (entry.mode % 512)) =
      tree.installed (pathParts entry.path) (partialOf (pathParts entry.path)) content
        (entry.mode % 512) := by
    funext path
    unfold Disk.installed
    split
    · rfl
    split
    · rfl
    split
    · rfl
    · rename_i hpath
      exact hgrown path hpath
  rcases openVerifiedObject_ok hobject with ⟨-, hsize, hdigest⟩
  have hcheck : ∀ disk : Disk, checkHash platform entry (pathParts entry.path)
      (disk.installed (pathParts entry.path) (partialOf (pathParts entry.path)) content
        (entry.mode % 512)) = .ok (disk.installed (pathParts entry.path)
          (partialOf (pathParts entry.path)) content (entry.mode % 512)) := by
    intro disk
    unfold checkHash
    rw [installed_destination]
    simp only
    rw [if_neg]
    rw [not_or, not_not, not_not]
    exact ⟨hdigest, hsize⟩
  rw [hrun]
  constructor
  · intro h
    have hfree : accepts (partialName (fileName (pathParts entry.path))) = true ∧
        tree (partialOf (pathParts entry.path)) = none := by
      by_contra hnot
      have hrefused : ∃ error, installEntry accepts entry (pathParts entry.path) content
          (fun path => if path ∈ parents (pathParts entry.path) then some .dir else tree path) =
            .error error := by
        unfold installEntry
        simp only
        rw [fileName_partialOf, hgrown _ hparent]
        by_cases haccepts : accepts (partialName (fileName (pathParts entry.path))) = true
        · rw [haccepts, if_neg (by simp), if_pos]
          · exact ⟨_, rfl⟩
          · rw [Option.isSome_iff_ne_none]
            exact fun hnone => hnot ⟨haccepts, hnone⟩
        · rw [if_pos (by simpa using haccepts)]
          exact ⟨_, rfl⟩
      rcases hrefused with ⟨error, herror⟩
      rw [herror] at h
      cases h
    refine ⟨hfree, ?_⟩
    rw [installEntry_ok ?_ ?_ ?_ hfree.1 (hlast _ hne (List.prefix_refl _))] at h
    · rw [hinstalled] at h
      have hchecked := hcheck tree
      simp only [bind, Except.bind] at h
      exact (Except.ok.inj (hchecked.symm.trans h)).symm
    · rw [hgrown _ hparent]
      exact hfree.2
    · rw [hgrown _ hself]
      exact hdestination
    · exact fun parent hmem => if_pos hmem
  · rintro ⟨hfree, rfl⟩
    rw [installEntry_ok ?_ ?_ ?_ hfree.1 (hlast _ hne (List.prefix_refl _)), hinstalled]
    · exact hcheck tree
    · rw [hgrown _ hparent]
      exact hfree.2
    · rw [hgrown _ hself]
      exact hdestination
    · exact fun parent hmem => if_pos hmem

/-! ## All files -/

section Files

variable {done rest : List FileEntry}

theorem treeOf_nil : TreeOf platform store [] fun _ => none := by
  intro path node
  simp

/-- A path of the tree is one of a file or of a directory of one. -/
theorem TreeOf.isSome_iff (h : TreeOf platform store files tree)
    (hobjects : ∀ entry ∈ files, ∃ content,
      openVerifiedObject platform store entry.sha256 entry.size = .ok content) (hne : path ≠ []) :
    tree path = none ↔ ∀ entry ∈ files, ¬ path <+: pathParts entry.path := by
  constructor
  · intro hnone entry hentry hbefore
    rcases (prefix_iff hne).mp hbefore with hsame | hparent
    · rcases hobjects entry hentry with ⟨content, hobject⟩
      have hsome := (h path _).mpr (.inl ⟨entry, hentry, hsame.symm, content, hobject, rfl⟩)
      cases hnone.symm.trans hsome
    · have hsome := (h path .dir).mpr (.inr ⟨rfl, entry, hentry, hparent⟩)
      cases hnone.symm.trans hsome
  · intro hfree
    by_contra hsome
    rcases Option.ne_none_iff_exists'.mp hsome with ⟨node, hnode⟩
    rcases (h path node).mp hnode with ⟨entry, hentry, rfl, -⟩ | ⟨-, entry, hentry, hparent⟩
    · exact hfree entry hentry (List.prefix_refl _)
    · exact hfree entry hentry (mem_parents.mp hparent).1

theorem Restorable.append_cons (h : Restorable platform accepts store (done ++ entry :: rest)) :
    ∀ other ∈ done ++ entry :: rest, other.path < entry.path ↔ other ∈ done := by
  have hsorted := h.sorted
  rw [List.map_append, List.map_cons, List.pairwise_append, List.pairwise_cons] at hsorted
  rcases hsorted with ⟨-, ⟨hafter, -⟩, hbefore⟩
  intro other hother
  constructor
  · intro hless
    rcases List.mem_append.mp hother with hdone | hlater
    · exact hdone
    · rcases List.mem_cons.mp hlater with rfl | hrest
      · exact absurd hless (lt_irrefl _)
      · exact absurd hless (lt_asymm (hafter _ (List.mem_map_of_mem hrest)))
  · exact fun hdone => hbefore _ (List.mem_map_of_mem hdone) _ List.mem_cons_self

/-- A file that was restored is added to the tree. -/
theorem TreeOf.installed (h : TreeOf platform store done tree)
    (hfiles : Restorable platform accepts store (done ++ entry :: rest))
    (hobject : openVerifiedObject platform store entry.sha256 entry.size = .ok content)
    (hunused : tree (partialOf (pathParts entry.path)) = none) :
    TreeOf platform store (done ++ [entry]) (tree.installed (pathParts entry.path)
      (partialOf (pathParts entry.path)) content (entry.mode % 512)) := by
  have hmem : entry ∈ done ++ entry :: rest := by simp
  have hdone : ∀ other ∈ done, other ∈ done ++ entry :: rest := fun other hother =>
    List.mem_append_left _ hother
  have hother : ∀ other ∈ done, pathParts other.path ≠ pathParts entry.path := by
    intro other hother hsame
    have hless := (hfiles.append_cons other (hdone other hother)).mpr hother
    rw [parts_injective (hfiles.fixed other (hdone other hother)) (hfiles.fixed entry hmem)
      hsame] at hless
    exact absurd hless (lt_irrefl _)
  have hfree := (h.isSome_iff (fun other hother => hfiles.objects other (hdone other hother))
    (partialOf_ne_nil _)).mp hunused
  intro path node
  have hlast : (∃ other ∈ done ++ [entry], pathParts other.path = path ∧
        IsFileOf platform store other node) ∨
      (node = .dir ∧ ∃ other ∈ done ++ [entry], path ∈ parents (pathParts other.path)) ↔
      ((∃ other ∈ done, pathParts other.path = path ∧ IsFileOf platform store other node) ∨
        (node = .dir ∧ ∃ other ∈ done, path ∈ parents (pathParts other.path))) ∨
      (pathParts entry.path = path ∧ IsFileOf platform store entry node ∨
        node = .dir ∧ path ∈ parents (pathParts entry.path)) := by
    simp only [List.mem_append, List.mem_singleton]
    constructor
    · rintro (⟨other, hother | rfl, hpath, hfile⟩ | ⟨hnode, other, hother | rfl, hparent⟩)
      · exact .inl (.inl ⟨other, hother, hpath, hfile⟩)
      · exact .inr (.inl ⟨hpath, hfile⟩)
      · exact .inl (.inr ⟨hnode, other, hother, hparent⟩)
      · exact .inr (.inr ⟨hnode, hparent⟩)
    · rintro ((⟨other, hother, hpath, hfile⟩ | ⟨hnode, other, hother, hparent⟩) |
        (⟨hpath, hfile⟩ | ⟨hnode, hparent⟩))
      · exact .inl ⟨other, .inl hother, hpath, hfile⟩
      · exact .inr ⟨hnode, other, .inl hother, hparent⟩
      · exact .inl ⟨entry, .inr rfl, hpath, hfile⟩
      · exact .inr ⟨hnode, entry, .inr rfl, hparent⟩
  rw [hlast, ← h path node]
  have hself : pathParts entry.path ∉ parents (pathParts entry.path) := fun hparent =>
    (mem_parents.mp hparent).2.2 rfl
  by_cases hdestination : path = pathParts entry.path
  · subst hdestination
    rw [installed_destination]
    have hnone : ¬ tree (pathParts entry.path) = some node := by
      intro hnode
      rcases (h _ _).mp hnode with ⟨other, hmem', hsame, -⟩ | ⟨-, other, hmem', hparent⟩
      · exact hother other hmem' hsame
      · exact hfiles.apart entry hmem other (hdone other hmem') hparent
    constructor
    · intro hnode
      cases hnode
      exact .inr (.inl ⟨rfl, content, hobject, rfl⟩)
    · rintro (hnode | ⟨-, content', hobject', rfl⟩ | ⟨-, hparent⟩)
      · exact absurd hnode hnone
      · cases hobject.symm.trans hobject'
        rfl
      · exact absurd hparent hself
  by_cases htemporary : path = partialOf (pathParts entry.path)
  · subst htemporary
    rw [installed_temporary (partialOf_ne _)]
    constructor
    · intro hnode
      cases hnode
    · rintro (hnode | ⟨hsame, -⟩ | ⟨-, hparent⟩)
      · cases hunused.symm.trans hnode
      · exact absurd hsame.symm (partialOf_ne _)
      · exact absurd hparent withName_not_mem_parents
  by_cases hparent : path ∈ parents (pathParts entry.path)
  · rw [installed_parent hparent htemporary]
    constructor
    · intro hnode
      cases hnode
      exact .inr (.inr ⟨rfl, hparent⟩)
    · rintro (hnode | ⟨hsame, -⟩ | ⟨rfl, -⟩)
      · rcases (h _ _).mp hnode with ⟨other, hmem', rfl, -⟩ | ⟨rfl, -⟩
        · exact absurd hparent (hfiles.apart other (hdone other hmem') entry hmem)
        · rfl
      · exact absurd hsame.symm hdestination
      · rfl
  · rw [installed_elsewhere hdestination htemporary hparent]
    constructor
    · exact fun hnode => .inl hnode
    · rintro (hnode | ⟨hsame, -⟩ | ⟨-, habove⟩)
      · exact hnode
      · exact absurd hsame.symm hdestination
      · exact absurd habove hparent

/-- The files are restored when, in their order, every temporary file is free. -/
theorem restoreFiles_iff (hfiles : Restorable platform accepts store (done ++ rest))
    (htree : TreeOf platform store done tree) :
    ((∃ tree', restoreFiles platform accepts store tree rest = .ok tree') ↔
        ∀ entry ∈ rest, Free accepts (done ++ rest) entry) ∧
      ∀ tree', restoreFiles platform accepts store tree rest = .ok tree' →
        TreeOf platform store (done ++ rest) tree' := by
  induction rest generalizing done tree with
  | nil =>
      rw [List.append_nil]
      refine ⟨⟨fun _ _ hmem => (nomatch hmem), fun _ => ⟨tree, rfl⟩⟩, ?_⟩
      intro tree' h
      cases h
      exact htree
  | cons entry rest ih =>
      have hmem : entry ∈ done ++ entry :: rest := by simp
      have hdone : ∀ other ∈ done, other ∈ done ++ entry :: rest := fun other hother =>
        List.mem_append_left _ hother
      have hsplit : done ++ entry :: rest = (done ++ [entry]) ++ rest := by simp
      rcases hfiles.objects entry hmem with ⟨content, hobject⟩
      have hne := parts_ne_nil (hfiles.fixed entry hmem)
      have hallows : ∀ parent ∈ parents (pathParts entry.path),
          tree parent = none ∨ tree parent = some .dir := by
        intro parent hparent
        cases hnode : tree parent with
        | none => exact .inl rfl
        | some node =>
            rcases (htree parent node).mp hnode with ⟨other, hother, rfl, -⟩ | ⟨rfl, -⟩
            · exact absurd hparent (hfiles.apart other (hdone other hother) entry hmem)
            · exact .inr rfl
      have hdestination : tree (pathParts entry.path) ≠ some .dir := by
        intro hdir
        rcases (htree _ _).mp hdir with ⟨other, hother, -, found, -, hfile⟩ | ⟨-, other, hother, hparent⟩
        · cases hfile
        · exact hfiles.apart entry hmem other (hdone other hother) hparent
      have hentry := fun tree' => @restoreEntry_iff _ _ _ _ _ _ (hfiles.fixed entry hmem)
        hallows hdestination (hfiles.names entry hmem) hne hobject tree'
      -- The temporary file is free when nothing before it is at its path or below.
      have hfree : Free accepts (done ++ entry :: rest) entry ↔
          accepts (partialName (fileName (pathParts entry.path))) = true ∧
            tree (partialOf (pathParts entry.path)) = none := by
        rw [htree.isSome_iff (fun other hother => hfiles.objects other (hdone other hother))
          (partialOf_ne_nil _)]
        unfold Free
        constructor
        · rintro ⟨hname, hothers⟩
          refine ⟨hname, fun other hother => hothers other (hdone other hother) ?_⟩
          exact (hfiles.append_cons other (hdone other hother)).mpr hother
        · rintro ⟨hname, hothers⟩
          refine ⟨hname, fun other hother hless => hothers other ?_⟩
          exact (hfiles.append_cons other hother).mp hless
      have hlater : ∀ tree', tree' = tree.installed (pathParts entry.path)
            (partialOf (pathParts entry.path)) content (entry.mode % 512) →
          tree (partialOf (pathParts entry.path)) = none →
          ((∃ last, restoreFiles platform accepts store tree' rest = .ok last) ↔
              ∀ other ∈ rest, Free accepts (done ++ entry :: rest) other) ∧
            ∀ last, restoreFiles platform accepts store tree' rest = .ok last →
              TreeOf platform store (done ++ entry :: rest) last := by
        rintro tree' rfl hunused
        have hinstalled := htree.installed hfiles hobject hunused
        rw [hsplit] at hfiles ⊢
        exact ih hfiles hinstalled
      unfold restoreFiles
      constructor
      · rw [List.forall_mem_cons, hfree]
        constructor
        · rintro ⟨last, hlast⟩
          cases hrun : restoreEntry platform accepts store tree entry with
          | error error =>
              rw [hrun] at hlast
              cases hlast
          | ok tree' =>
              rw [hrun] at hlast
              rcases (hentry tree').mp hrun with ⟨hready, hsame⟩
              exact ⟨hready, (hlater tree' hsame hready.2).1.mp ⟨last, hlast⟩⟩
        · rintro ⟨hready, hothers⟩
          rw [(hentry _).mpr ⟨hready, rfl⟩]
          exact (hlater _ rfl hready.2).1.mpr hothers
      · intro last hlast
        cases hrun : restoreEntry platform accepts store tree entry with
        | error error =>
            rw [hrun] at hlast
            cases hlast
        | ok tree' =>
            rw [hrun] at hlast
            rcases (hentry tree').mp hrun with ⟨hready, hsame⟩
            exact (hlater tree' hsame hready.2).2 last hlast

end Files

/-! ## The law -/

/-- The captured files with their contents and modes, the directories that they need, and nothing
else. -/
structure Mirrors (disk : Disk) (protectedFiles : List ProtectedFile) (tree : Disk) : Prop where
  files : ∀ path content mode, tree path = some (.file content mode) ↔
    ∃ item ∈ protectedFiles, pathParts item.relativePath = path ∧
      ∃ found, disk path = some (.file content found) ∧ mode = found % 512
  others : ∀ path node, tree path = some node → (∃ content mode, node = .file content mode) ∨
    node = .dir ∧ ∃ item ∈ protectedFiles, path ∈ parents (pathParts item.relativePath)

section Law

variable {releaseId : String} {protectedFiles : List ProtectedFile} {previous : Option Json}
  {limits : SnapshotLimits} {mtimeNs : Int} {manifest : Manifest}

/-- What a creation that succeeded says, if the hash tells the body of the manifest. -/
structure Created (platform : Platform) (disk : Disk) (protectedFiles : List ProtectedFile)
    (store : Store) (limits : SnapshotLimits) (manifest : Manifest) : Prop where
  verified : verifyLocalSnapshot platform store limits manifest.toJson = .ok manifest
  sorted : (manifest.body.files.map FileEntry.path).Pairwise (· < ·)
  fixed : ∀ entry ∈ manifest.body.files, validateRelativePath entry.path = .ok entry.path
  captured : List.Forall₂ (CapturedAs platform disk) protectedFiles manifest.body.files

theorem Created.ofOk (hcreate : createLocalSnapshot platform disk releaseId protectedFiles store
      previous limits mtimeNs = .ok (store', manifest))
    (hbody : ∀ captured body, captureBody platform disk releaseId protectedFiles store previous
        limits = .ok (captured, body) →
      body.rootHash platform = manifest.body.rootHash platform → body = manifest.body) :
    Created platform disk protectedFiles store' limits manifest := by
  unfold createLocalSnapshot at hcreate
  simp only [bind, Except.bind, pure, Except.pure] at hcreate
  split at hcreate
  · cases hcreate
  rename_i captured hcaptured
  split at hcreate
  · cases hcreate
  rename_i found hvalid
  split at hcreate
  · cases hcreate
  rename_i written hwritten
  split at hcreate
  · cases hcreate
  rename_i verified hverified
  cases hcreate
  rcases captured with ⟨copied, body⟩
  rcases accepts_of_ok hvalid with ⟨entries, values, once, twice, haccepts⟩
  have hroot : manifest.rootHash = body.rootHash platform := validateManifest_rootHash hvalid
  cases hbody copied body hcaptured (hroot.symm.trans haccepts.rootHash)
  have hsame : Manifest.toJson ⟨manifest.body, manifest.body.rootHash platform⟩ =
      manifest.toJson := by
    rw [← hroot]
  have hagain : verified = manifest := by
    have hvalid' := (verifyLocalSnapshot_ok hverified).1
    rw [hsame] at hvalid
    exact Except.ok.inj (hvalid'.symm.trans hvalid)
  subst hagain
  refine ⟨hverified, haccepts.paths, ?_, captureBody_ok hcaptured⟩
  have hentries : entries = verified.body.files.map FileEntry.toJson :=
    Json.arr.inj haccepts.getFiles.symm
  have hfiles := haccepts.files
  rw [hentries, List.forall₂_map_left_iff, List.forall₂_same] at hfiles
  exact fun entry hentry => (hfiles entry hentry).path

theorem Created.source (h : Created platform disk protectedFiles store limits manifest)
    (hentry : entry ∈ manifest.body.files) :
    ∃ item ∈ protectedFiles, item.relativePath = entry.path ∧ ∃ content mode,
      disk (pathParts entry.path) = some (.file content mode) ∧
        (∀ parent ∈ parents (pathParts entry.path), disk parent = some .dir) ∧
          entry.sha256 = platform.py.sha256 content ∧ entry.size = content.length ∧
            entry.mode = mode % 512 := by
  rcases forall₂_right h.captured entry hentry with
    ⟨item, hitem, hpath, content, mode, hsource, hdigest, hsize, hmode⟩
  have hfixed := h.fixed entry hentry
  rw [hpath] at hfixed
  rcases safeSourceOpen_ok hsource hfixed with ⟨hfile, hparents⟩
  rw [← hpath] at hfile hparents
  exact ⟨item, hitem, hpath.symm, content, mode, hfile, hparents, hdigest, hsize, hmode⟩

theorem Created.restorable (h : Created platform disk protectedFiles store limits manifest)
    (hnames : ∀ path node, disk path = some node → ∀ name ∈ path, accepts name = true) :
    Restorable platform accepts store manifest.body.files := by
  refine ⟨h.sorted, h.fixed, ?_, ?_, ?_⟩
  · exact fun entry hentry => ((verifyLocalSnapshot_ok h.verified).2 entry hentry).1.opens
  · intro entry hentry other hother hparent
    rcases h.source hentry with ⟨-, -, -, content, mode, hfile, -⟩
    rcases h.source hother with ⟨-, -, -, -, -, -, hparents, -⟩
    cases hfile.symm.trans (hparents _ hparent)
  · intro entry hentry
    rcases h.source hentry with ⟨-, -, -, content, mode, hfile, -⟩
    exact hnames _ _ hfile

/-- The tree of a manifest is the captured files, if the hash tells their contents. -/
theorem Created.mirrors (h : Created platform disk protectedFiles store limits manifest)
    (htold : Told platform store disk)
    (htree : TreeOf platform store manifest.body.files tree) :
    Mirrors disk protectedFiles tree := by
  have hentries : ∀ item ∈ protectedFiles, ∃ entry ∈ manifest.body.files,
      entry.path = item.relativePath := by
    intro item hitem
    rcases forall₂_left h.captured item hitem with ⟨entry, hentry, hcaptured⟩
    exact ⟨entry, hentry, hcaptured.path⟩
  have hcontent : ∀ entry ∈ manifest.body.files, ∀ node, IsFileOf platform store entry node ↔
      ∃ content mode, disk (pathParts entry.path) = some (.file content mode) ∧
        node = .file content (mode % 512) := by
    intro entry hentry node
    rcases h.source hentry with ⟨-, -, -, content, mode, hfile, -, hdigest, hsize, hmode⟩
    rcases ((verifyLocalSnapshot_ok h.verified).2 entry hentry).1.opens with ⟨found, hfound⟩
    rcases openVerifiedObject_ok hfound with ⟨hobject, hfoundSize, hfoundDigest⟩
    have hsame : content = found := htold _ content mode entry.sha256 found hfile hobject
      (hsize.symm.trans hfoundSize.symm) (hdigest.symm.trans hfoundDigest.symm)
    subst hsame
    have hmodes : entry.mode % 512 = mode % 512 := by
      rw [hmode]
      omega
    constructor
    · rintro ⟨other, hother, rfl⟩
      cases hfound.symm.trans hother
      exact ⟨content, mode, hfile, by rw [hmodes]⟩
    · rintro ⟨other, mode', hother, rfl⟩
      cases hfile.symm.trans hother
      exact ⟨content, hfound, by rw [hmodes]⟩
  constructor
  · intro path content mode
    rw [htree path]
    constructor
    · rintro (⟨entry, hentry, rfl, hfile⟩ | ⟨hdir, -⟩)
      · rcases h.source hentry with ⟨item, hitem, hpath, -⟩
        rcases (hcontent entry hentry _).mp hfile with ⟨found, mode', hdisk, hnode⟩
        cases hnode
        exact ⟨item, hitem, by rw [hpath], mode', hdisk, rfl⟩
      · cases hdir
    · rintro ⟨item, hitem, rfl, found, hdisk, rfl⟩
      rcases hentries item hitem with ⟨entry, hentry, hpath⟩
      rw [← hpath] at hdisk ⊢
      exact .inl ⟨entry, hentry, rfl, (hcontent entry hentry _).mpr ⟨content, found, hdisk, rfl⟩⟩
  · intro path node hnode
    rcases (htree path node).mp hnode with ⟨entry, hentry, rfl, found, -, rfl⟩ |
      ⟨rfl, entry, hentry, hparent⟩
    · exact .inl ⟨found, _, rfl⟩
    · rcases h.source hentry with ⟨item, hitem, hpath, -⟩
      exact .inr ⟨rfl, item, hitem, by rw [hpath]; exact hparent⟩

/-- A snapshot that was created is restored as it was captured exactly when the temporary file of
every path is accepted, and is not at an earlier path or above it. -/
theorem round_trip_law (hcreate : createLocalSnapshot platform disk releaseId protectedFiles store
      previous limits mtimeNs = .ok (store', manifest))
    (hnames : ∀ path node, disk path = some node → ∀ name ∈ path, accepts name = true)
    (hbody : ∀ captured body, captureBody platform disk releaseId protectedFiles store previous
        limits = .ok (captured, body) →
      body.rootHash platform = manifest.body.rootHash platform → body = manifest.body)
    (htold : Told platform store' disk) :
    (∃ plan tree, restoreSnapshot platform accepts store' limits manifest.toJson false false =
        .ok (plan, some tree) ∧ Mirrors disk protectedFiles tree) ↔
      ∀ item ∈ protectedFiles,
        accepts (partialName (fileName (pathParts item.relativePath))) = true ∧
          ∀ other ∈ protectedFiles, other.relativePath < item.relativePath →
            ¬ partialOf (pathParts item.relativePath) <+: pathParts other.relativePath := by
  have hcreated := Created.ofOk hcreate hbody
  rcases (@restoreFiles_iff _ _ _ (fun _ => none) [] _) (hcreated.restorable hnames)
    treeOf_nil with ⟨hiff, htree⟩
  rw [List.nil_append] at hiff htree
  have hrun : restoreSnapshot platform accepts store' limits manifest.toJson false false =
      match restoreFiles platform accepts store' (fun _ => none) manifest.body.files with
      | .error error => .error error
      | .ok tree => .ok ({ planOf manifest true with dryRun := false }, some tree) := by
    unfold restoreSnapshot planRestore
    rw [hcreated.verified]
    rfl
  have hfree : (∀ entry ∈ manifest.body.files, Free accepts manifest.body.files entry) ↔
      ∀ item ∈ protectedFiles,
        accepts (partialName (fileName (pathParts item.relativePath))) = true ∧
          ∀ other ∈ protectedFiles, other.relativePath < item.relativePath →
            ¬ partialOf (pathParts item.relativePath) <+: pathParts other.relativePath := by
    have hpaths : ∀ {P : String → Prop}, (∀ entry ∈ manifest.body.files, P entry.path) ↔
        ∀ item ∈ protectedFiles, P item.relativePath := by
      intro P
      constructor
      · intro hall item hitem
        rcases forall₂_left hcreated.captured item hitem with ⟨entry, hentry, hcaptured⟩
        rw [← hcaptured.path]
        exact hall entry hentry
      · intro hall entry hentry
        rcases forall₂_right hcreated.captured entry hentry with ⟨item, hitem, hcaptured⟩
        rw [hcaptured.path]
        exact hall item hitem
    unfold Free
    rw [hpaths (P := fun path => accepts (partialName (fileName (pathParts path))) = true ∧
      ∀ other ∈ manifest.body.files, other.path < path →
        ¬ partialOf (pathParts path) <+: pathParts other.path)]
    apply forall₂_congr
    intro item _
    rw [hpaths (P := fun path => path < item.relativePath →
      ¬ partialOf (pathParts item.relativePath) <+: pathParts path)]
  rw [← hfree, ← hiff, hrun]
  constructor
  · rintro ⟨plan, tree, hok, -⟩
    split at hok
    · cases hok
    · rename_i found hfound
      exact ⟨found, hfound⟩
  · rintro ⟨tree, hok⟩
    rw [hok]
    exact ⟨_, tree, rfl, hcreated.mirrors htold (htree tree hok)⟩

end Law

/-! ## A file with the name of a temporary file -/

/-- A root with a file, and beside it perhaps one with the name of its temporary file. -/
def logsDisk (both : Bool) : Disk :=
  fun path =>
    if path = ["logs"] then some .dir
    else if path = ["logs", "a"] then some (.file [97] 420)
    else if both && path = ["logs", ".a.partial"] then some (.file [97] 384)
    else none

def logsFiles (both : Bool) : List ProtectedFile :=
  (if both then [⟨"logs/.a.partial", ["artifacts"]⟩] else []) ++ [⟨"logs/a", ["artifacts"]⟩]

def logsHash (both : Bool) : String :=
  if both then "98cb68f0c4be872959c6aaf994118340ff74fba25db89569dea40e34c552916c"
  else "5427769d383ca9e88bfaf7cbd445b11d227d12e7e78d0fc99ab5293e55de211b"

/-- The text of one file of one letter in the canonical JSON of a body. -/
def letterEntryText (path mode : String) : String :=
  "\x7b\"classes\":[\"artifacts\"],\"mode\":" ++ mode ++ ",\"path\":\"" ++ path ++
    "\",\"sha256\":\"ca978112ca1bbdcafac231b39a23dc4da786eff8147c4e72b9807785afee48bb\"," ++
      "\"size\":1\x7d"

def logsText (both : Bool) : List UInt8 :=
  ("\x7b\"files\":[" ++ (if both then letterEntryText "logs/.a.partial" "384" ++ "," else "") ++
    letterEntryText "logs/a" "420" ++
      "],\"release_id\":\"v1\",\"schema\":1,\"tombstones\":[]\x7d").toList.map
        fun c => UInt8.ofNat c.toNat

theorem isDigest_logsHash (both : Bool) : isDigest (logsHash both) = true := by
  cases both <;> decide +kernel

def logsPlatform (both : Bool) : Platform :=
  platformOf (logsText both) (logsHash both) (isDigest_logsHash both)

def logsBody (both : Bool) : Body where
  releaseId := "v1"
  files :=
    (if both then [⟨"logs/.a.partial", letterHash, 1, 384, ["artifacts"]⟩] else []) ++
      [⟨"logs/a", letterHash, 1, 420, ["artifacts"]⟩]
  tombstones := []

def logsCreated (both : Bool) : Except String (Store × Manifest) :=
  createLocalSnapshot (logsPlatform both) (logsDisk both) "v1" (logsFiles both) Store.empty none
    defaultLimits 1

/-- The store after the snapshot. -/
def logsStore (both : Bool) : Store :=
  match logsCreated both with
  | .ok (store, _) => store
  | .error _ => Store.empty

theorem logs_created (both : Bool) :
    logsCreated both = .ok (logsStore both, ⟨logsBody both, logsHash both⟩) := by
  have hmanifest : (logsCreated both).map Prod.snd = .ok ⟨logsBody both, logsHash both⟩ := by
    cases both <;> decide +kernel
  unfold logsStore
  cases hrun : logsCreated both with
  | error error =>
      rw [hrun] at hmanifest
      cases hmanifest
  | ok created =>
      rw [hrun] at hmanifest
      rcases created with ⟨store, manifest⟩
      cases Except.ok.inj hmanifest
      rfl

/-- A file name of at most so many bytes. -/
def shortName (name : String) : Bool :=
  name.utf8ByteSize ≤ 255

theorem logs_names (both : Bool) : ∀ path node, logsDisk both path = some node →
    ∀ name ∈ path, shortName name = true := by
  intro path node hnode
  unfold logsDisk at hnode
  split at hnode
  · rename_i hpath
    subst hpath
    decide +kernel
  split at hnode
  · rename_i hpath
    subst hpath
    decide +kernel
  split at hnode
  · rename_i hpath
    rw [Bool.and_eq_true, decide_eq_true_eq] at hpath
    rw [hpath.2]
    decide +kernel
  · cases hnode

theorem logs_body (both : Bool) : ∀ captured body,
    captureBody (logsPlatform both) (logsDisk both) "v1" (logsFiles both) Store.empty none
      defaultLimits = .ok (captured, body) →
    body.rootHash (logsPlatform both) = (logsBody both).rootHash (logsPlatform both) →
      body = logsBody both := by
  intro captured body hcaptured _
  have hbody : (captureBody (logsPlatform both) (logsDisk both) "v1" (logsFiles both) Store.empty
      none defaultLimits).map Prod.snd = .ok (logsBody both) := by
    cases both <;> decide +kernel
  rw [hcaptured] at hbody
  exact Except.ok.inj hbody

theorem logs_told (both : Bool) : Told (logsPlatform both) (logsStore both) (logsDisk both) := by
  intro path part mode digest content hfile _ hlength hsame
  have hpart : part = [97] := by
    unfold logsDisk at hfile
    split at hfile
    · cases hfile
    split at hfile
    · cases hfile
      rfl
    split at hfile
    · cases hfile
      rfl
    · cases hfile
  subst hpart
  have hletter : letterSha256 (logsHash both) content = letterHash := hsame.symm
  unfold letterSha256 at hletter
  split at hletter
  · cases hlength
  · rfl
  · have hdifferent : logsHash both ≠ letterHash := by
      cases both <;> decide +kernel
    exact absurd hletter hdifferent

/-- The temporary file of the later path is there already. -/
theorem temporary_taken :
    ¬ ∀ platform accepts disk releaseId protectedFiles store previous limits mtimeNs store'
        manifest,
      createLocalSnapshot platform disk releaseId protectedFiles store previous limits mtimeNs =
        .ok (store', manifest) →
      (∀ path node, disk path = some node → ∀ name ∈ path, accepts name = true) →
      (∀ captured body, captureBody platform disk releaseId protectedFiles store previous limits =
          .ok (captured, body) →
        body.rootHash platform = manifest.body.rootHash platform → body = manifest.body) →
      Told platform store' disk →
      ∃ plan tree, restoreSnapshot platform accepts store' limits manifest.toJson false false =
        .ok (plan, some tree) ∧ Mirrors disk protectedFiles tree := by
  intro hclaim
  rcases hclaim (logsPlatform true) shortName (logsDisk true) "v1" (logsFiles true) Store.empty none
    defaultLimits 1 (logsStore true) _ (logs_created true) (logs_names true) (logs_body true)
      (logs_told true) with ⟨plan, tree, hok, -⟩
  have hrefused : (restoreSnapshot (logsPlatform true) shortName (logsStore true) defaultLimits
      (Manifest.toJson ⟨logsBody true, logsHash true⟩) false false).map Prod.fst =
        .error "File exists" := by
    decide +kernel
  rw [hok] at hrefused
  cases hrefused

/-- Without that file the snapshot is restored as it was captured. -/
theorem round_trip_logs : ∃ plan tree, restoreSnapshot (logsPlatform false) shortName
    (logsStore false) defaultLimits (Manifest.toJson ⟨logsBody false, logsHash false⟩) false false =
      .ok (plan, some tree) ∧ Mirrors (logsDisk false) (logsFiles false) tree := by
  apply (round_trip_law (logs_created false) (logs_names false) (logs_body false)
    (logs_told false)).mpr
  decide +kernel

end Backup
end Stemcell
