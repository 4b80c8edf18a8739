import Stemcell.Backup.Rollback
import Stemcell.Lib.Restart

/-!
# Operations that are cut off

What one operation of a restore in place leaves wherever it is cut off, and what it comes to when
it is begun anew from there.

Main results:

- Theorem `triple_restoreManifestFile`: a file's restore, begun anew with a temporary file that
  can be used.
- Theorem `not_ends_of_partial`: a temporary file with a part of the content stands in the way.
- Theorem `Resumes.ofOperation`: every operation of a restore.
-/

namespace Stemcell
namespace Backup

open Interface (Json)
open Lib Action

/-! ## One file -/

/-- A file can be put at the destination. -/
structure Allows (disk : Disk) (destination : Path) : Prop where
  above : ∀ path ∈ parents destination, disk path = none ∨ disk path = some .dir
  target : disk destination = none ∨
    ∃ content mode, disk destination = some (.file content mode)

/-- On the way of a file to its destination, directories may have been made. -/
structure Partway (destination temporary : Path) (before disk : Disk) : Prop where
  above : ∀ path ∈ parents destination,
    disk path = before path ∨ before path = none ∧ disk path = some .dir
  target : disk destination = before destination
  elsewhere : ∀ path, path ≠ destination → path ≠ temporary → path ∉ parents destination →
    disk path = before path

/-- A file is at its destination. -/
def Disk.installed (disk : Disk) (destination temporary : Path) (content : List UInt8)
    (mode : Nat) : Disk :=
  fun path =>
    if path = destination then some (.file content mode)
    else if path = temporary then none
    else if path ∈ parents destination then some .dir
    else disk path

/-- The directories are there, and this is at the temporary file. -/
structure Filled (destination temporary : Path) (before : Disk) (found : Option Node)
    (disk : Disk) : Prop where
  partway : Partway destination temporary before disk
  held : disk temporary = found
  above : ∀ path ∈ parents destination, disk path = some .dir

/-- What a file's restore can leave: the temporary file has a part of the content, or the file
is at its destination. -/
def Underway (destination temporary : Path) (content : List UInt8) (mode : Nat)
    (before disk : Disk) : Prop :=
  Partway destination temporary before disk ∧
      (disk temporary = none ∨
        ∃ part mode, part <+: content ∧ disk temporary = some (.file part mode)) ∨
    disk = before.installed destination temporary content mode

section OneFile

variable {restore : Restore} {entry : FileEntry} {rootHash relative value : String}
  {destination temporary path : Path} {content part : List UInt8} {found : Option Node}
  {before disk : Disk} {mode : Nat} {node : Node}

/-- The temporary file can be used, if there is one. -/
def Usable (temporary : Path) (content : List UInt8) (disk : Disk) : Prop :=
  disk temporary = none ∨ ∃ mode, disk temporary = some (.file content mode)

theorem Partway.refl : Partway destination temporary before before :=
  ⟨fun _ _ => .inl rfl, rfl, fun _ _ _ _ => rfl⟩

theorem Partway.allowed (h : Partway destination temporary before disk)
    (hallows : Allows before destination) (hpath : path ∈ parents destination) :
    disk path = none ∨ disk path = some .dir := by
  rcases h.above path hpath with hsame | ⟨-, hmade⟩
  · rw [hsame]
    exact hallows.above path hpath
  · exact .inr hmade

theorem Partway.put_parent (h : Partway destination temporary before disk)
    (hpath : path ∈ parents destination)
    (hnone : disk path = none) : Partway destination temporary before (disk.put path .dir) := by
  have hne : destination ≠ path := (mem_parents.mp hpath).2.2.symm
  have hbefore : before path = none := by
    rcases h.above path hpath with hsame | ⟨hbefore, -⟩
    · exact hsame.symm.trans hnone
    · exact hbefore
  refine ⟨?_, (put_of_ne hne).trans h.target, ?_⟩
  · intro other hother
    by_cases hsame : other = path
    · subst hsame
      exact .inr ⟨hbefore, put_self⟩
    · have hkept : (disk.put path .dir) other = disk other := put_of_ne hsame
      rw [hkept]
      exact h.above other hother
  · intro other hdestination htemporary hparent
    have hkept : (disk.put path .dir) other = disk other := by
      apply put_of_ne
      rintro rfl
      exact hparent hpath
    rw [hkept]
    exact h.elsewhere other hdestination htemporary hparent

theorem triple_makeParents (hallows : Allows before destination)
    (htemporary : temporary ∉ parents destination) (rest made : List Path)
    (hrest : ∀ path ∈ rest, path ∈ parents destination) :
    Triple
      (fun disk => Partway destination temporary before disk ∧ disk temporary = found ∧
        ∀ path ∈ made, disk path = some .dir)
      (forEach makeParent rest)
      (fun _ disk => Partway destination temporary before disk ∧ disk temporary = found ∧
        ∀ path ∈ made ++ rest, disk path = some .dir)
      (fun disk => Partway destination temporary before disk ∧ disk temporary = found) := by
  induction rest generalizing made with
  | nil =>
      apply triple_done
      rw [List.append_nil]
      exact fun _ hs => hs
  | cons path rest ih =>
      have hpath := hrest path List.mem_cons_self
      have hstep : Triple
          (fun disk => Partway destination temporary before disk ∧ disk temporary = found ∧
            ∀ path ∈ made, disk path = some .dir)
          (makeParent path)
          (fun _ disk => Partway destination temporary before disk ∧ disk temporary = found ∧
            ∀ other ∈ made ++ [path], disk other = some .dir)
          (fun disk => Partway destination temporary before disk ∧ disk temporary = found) := by
        unfold makeParent
        apply Triple.bind (Q := fun node disk => (Partway destination temporary before disk ∧
          disk temporary = found ∧ ∀ path ∈ made, disk path = some .dir) ∧ disk path = node)
        · exact triple_look fun disk hs => ⟨disk path, rfl, hs, rfl⟩
        intro node
        cases node with
        | none =>
            apply triple_effect
            rintro disk ⟨⟨hpartway, hfound, hmade⟩, hnone⟩
            have hafter := hpartway.put_parent hpath hnone
            have hkept : (disk.put path .dir) temporary = found := by
              rw [← hfound]
              apply put_of_ne
              rintro rfl
              exact htemporary hpath
            refine ⟨⟨hafter, hkept, ?_⟩, hafter, hkept⟩
            intro other hother
            by_cases hsame : other = path
            · subst hsame
              exact put_self
            · rw [List.mem_append, List.mem_singleton] at hother
              exact (put_of_ne hsame).trans (hmade other (hother.resolve_right hsame))
        | some node =>
            cases node with
            | dir =>
                apply triple_done
                rintro disk ⟨⟨hpartway, hfound, hmade⟩, hdir⟩
                refine ⟨hpartway, hfound, ?_⟩
                intro other hother
                rcases List.mem_append.mp hother with hbefore | hsame
                · exact hmade other hbefore
                · rw [List.mem_singleton.mp hsame]
                  exact hdir
            | file content mode =>
                rintro disk ⟨⟨hpartway, -, -⟩, hfile⟩
                rcases hpartway.allowed hallows hpath with hnone | hdir
                · cases hfile.symm.trans hnone
                · cases hfile.symm.trans hdir
            | other =>
                rintro disk ⟨⟨hpartway, -, -⟩, hother⟩
                rcases hpartway.allowed hallows hpath with hnone | hdir
                · cases hother.symm.trans hnone
                · cases hother.symm.trans hdir
      have hlater := ih (made ++ [path]) fun other hother =>
        hrest other (List.mem_cons_of_mem _ hother)
      rw [List.append_assoc, List.singleton_append] at hlater
      exact hstep.bind fun _ => hlater

/-- The directories of a destination that allows a file are made. -/
theorem triple_restoreParent (hvalue : validateInPlaceRestorePath relative = .ok value)
    (hallows : Allows before (pathParts value))
    (htemporary : temporary ∉ parents (pathParts value)) :
    Triple
      (fun disk => Partway (pathParts value) temporary before disk ∧ disk temporary = found)
      (restoreParent relative)
      (fun destination disk => destination = pathParts value ∧
        Filled (pathParts value) temporary before found disk)
      (fun disk => Partway (pathParts value) temporary before disk ∧ disk temporary = found) := by
  unfold restoreParent
  apply Triple.bind (Q := fun value' disk => value' = value ∧
    Partway (pathParts value) temporary before disk ∧ disk temporary = found)
  · exact triple_look fun disk hs => ⟨value, hvalue, rfl, hs⟩
  intro value'
  by_cases hsame : value' = value
  swap
  · exact fun _ hs => absurd hs.1 hsame
  subst hsame
  apply Triple.bind (Q := fun _ disk => Filled (pathParts value') temporary before found disk)
  · refine (triple_makeParents hallows htemporary (parents (pathParts value')) []
      fun _ hpath => hpath).imp ?_ ?_ fun _ hs => hs
    · exact fun _ hs => ⟨hs.2.1, hs.2.2, fun _ hmem => (nomatch hmem)⟩
    · exact fun _ disk hs => ⟨hs.1, hs.2.1, hs.2.2⟩
  intro _
  apply Triple.bind (Q := fun _ disk => Filled (pathParts value') temporary before found disk)
  · apply triple_look
    intro disk hs
    refine ⟨(), ?_, hs⟩
    unfold checkDestination
    rw [hs.partway.target]
    rcases hallows.target with hnone | ⟨content, mode, hfile⟩
    · rw [hnone]
    · rw [hfile]
  intro _
  exact triple_done fun _ hs => ⟨rfl, hs⟩

theorem Filled.put (h : Filled destination temporary before found disk)
    (hne : temporary ≠ destination) (hparent : temporary ∉ parents destination) :
    Filled destination temporary before (some node) (disk.put temporary node) := by
  have hkept : ∀ path ∈ parents destination,
      (disk.put temporary node) path = disk path := by
    intro path hpath
    apply put_of_ne
    rintro rfl
    exact hparent hpath
  refine ⟨⟨?_, (put_of_ne hne.symm).trans h.partway.target, ?_⟩, put_self, ?_⟩
  · intro path hpath
    rw [hkept path hpath]
    exact h.partway.above path hpath
  · intro path hdestination htemporary hother
    exact (put_of_ne htemporary).trans (h.partway.elsewhere path hdestination htemporary hother)
  · intro path hpath
    rw [hkept path hpath]
    exact h.above path hpath

/-- The complete temporary file takes the destination's place. -/
theorem Filled.replace (h : Filled destination temporary before (some (.file content mode)) disk)
    (hne : temporary ≠ destination) :
    disk.replace temporary destination =
      before.installed destination temporary content mode := by
  have hreplace : disk.replace temporary destination =
      (disk.put destination (.file content mode)).unlink temporary := by
    unfold Disk.replace
    rw [h.held]
  rw [hreplace]
  funext path
  unfold Disk.installed
  by_cases hdestination : path = destination
  · subst hdestination
    rw [if_pos rfl, unlink_of_ne hne.symm]
    exact put_self
  rw [if_neg hdestination]
  by_cases htemporary : path = temporary
  · subst htemporary
    rw [if_pos rfl]
    exact unlink_self
  rw [if_neg htemporary, unlink_of_ne htemporary, put_of_ne hdestination]
  split
  · rename_i hparent
    exact h.above path hparent
  · rename_i hparent
    exact h.partway.elsewhere path hdestination htemporary hparent

theorem Filled.underway (h : Filled destination temporary before (some (.file part mode)) disk)
    (hpart : part <+: content) {mode' : Nat} :
    Underway destination temporary content mode' before disk :=
  .inl ⟨h.partway, .inr ⟨part, mode, hpart, h.held⟩⟩

theorem triple_copyInto (hne : temporary ≠ destination)
    (hparent : temporary ∉ parents destination) :
    Triple (Filled destination temporary before (some (.file [] 384)))
      (copyInto temporary content)
      (fun _ => Filled destination temporary before (some (.file content 384)))
      (Underway destination temporary content mode before) := by
  have hloop : ∀ (parts : List (List UInt8)) (first : List UInt8),
      (∀ part ∈ parts, part <+: content) →
      Triple (Filled destination temporary before (some (.file first 384)))
        (forEach (fun part => effect fun disk => disk.put temporary (.file part 384)) parts)
        (fun _ => Filled destination temporary before
          (some (.file (parts.getLast?.getD first) 384)))
        (Underway destination temporary content mode before) := by
    intro parts
    induction parts with
    | nil => exact fun first _ => triple_done fun _ hs => hs
    | cons part rest ih =>
        intro first hparts
        have hlast : (part :: rest).getLast?.getD first = rest.getLast?.getD part := by
          cases rest with
          | nil => rfl
          | cons second rest => rw [List.getLast?_cons_cons]; rfl
        rw [hlast]
        apply Triple.bind (Q := fun _ => Filled destination temporary before
          (some (.file part 384)))
        · apply triple_effect
          intro disk hs
          have hafter := @Filled.put _ _ _ _ _ (.file part 384) hs hne hparent
          exact ⟨hafter, hafter.underway (hparts part List.mem_cons_self)⟩
        · exact fun _ => ih part fun later hlater => hparts later (List.mem_cons_of_mem _ hlater)
  have hparts : ∀ part ∈ content.inits.tail, part <+: content := fun part hpart =>
    (List.mem_inits _ _).mp (List.mem_of_mem_tail hpart)
  have hall := hloop content.inits.tail [] hparts
  rw [getLast_inits] at hall
  exact hall

theorem triple_fillTemporary (hne : temporary ≠ destination)
    (hparent : temporary ∉ parents destination)
    (hobject : openVerifiedObject restore.platform restore.store entry.sha256 entry.size =
      .ok content) (hfound : found = none ∨ ∃ mode, found = some (.file content mode)) :
    Triple (Filled destination temporary before found)
      (fillTemporary restore entry temporary found.isSome)
      (fun _ disk => ∃ mode, Filled destination temporary before (some (.file content mode)) disk)
      (Underway destination temporary content entry.mode before) := by
  rcases hfound with rfl | ⟨mode, rfl⟩
  · change Triple _ (do
      effect fun disk => disk.put temporary (.file [] 384)
      let content ← look fun _ =>
        openVerifiedObject restore.platform restore.store entry.sha256 entry.size
      copyInto temporary content) _ _
    apply Triple.bind (Q := fun _ => Filled destination temporary before (some (.file [] 384)))
    · apply triple_effect
      intro disk hs
      have hafter := @Filled.put _ _ _ _ _ (.file [] 384) hs hne hparent
      exact ⟨hafter, hafter.underway (List.nil_prefix)⟩
    intro _
    apply Triple.bind (Q := fun copied disk => copied = content ∧
      Filled destination temporary before (some (.file [] 384)) disk)
    · exact triple_look fun disk hs => ⟨content, hobject, rfl, hs⟩
    intro copied
    by_cases hcopied : copied = content
    swap
    · exact fun _ hs => absurd hs.1 hcopied
    subst hcopied
    exact (triple_copyInto hne hparent).imp (fun _ hs => hs.2) (fun _ _ hs => ⟨384, hs⟩)
      fun _ hs => hs
  · exact triple_done fun _ hs => ⟨mode, hs⟩

/-- The complete temporary file gets its mode and its name. -/
theorem triple_commitTemporary (hvalue : validateInPlaceRestorePath relative = .ok value)
    (hallows : Allows before (pathParts value)) (hne : temporary ≠ pathParts value)
    (hparent : temporary ∉ parents (pathParts value)) :
    Triple
      (fun disk => ∃ mode,
        Filled (pathParts value) temporary before (some (.file content mode)) disk)
      (commitTemporary entry relative temporary (pathParts value))
      (fun _ disk => disk = before.installed (pathParts value) temporary content entry.mode)
      (Underway (pathParts value) temporary content entry.mode before) := by
  unfold commitTemporary
  apply Triple.bind (Q := fun _ =>
    Filled (pathParts value) temporary before (some (.file content entry.mode)))
  · apply triple_effect
    rintro disk ⟨mode, hs⟩
    have hchmod : disk.chmod temporary entry.mode =
        disk.put temporary (.file content entry.mode) := by
      unfold Disk.chmod
      rw [hs.held]
    rw [hchmod]
    have hafter := @Filled.put _ _ _ _ _ (.file content entry.mode) hs hne hparent
    exact ⟨hafter, hafter.underway (List.prefix_refl content)⟩
  intro _
  apply Triple.bind (((@triple_restoreParent _ _ _ (some (.file content entry.mode)) _) hvalue
    hallows hparent).imp (fun _ hs => ⟨hs.partway, hs.held⟩) (fun _ _ hs => hs) ?_)
  · intro checked
    by_cases hchecked : checked = pathParts value
    swap
    · exact fun _ hs => absurd hs.1 hchecked
    rw [if_neg (not_not.mpr hchecked)]
    apply triple_effect
    rintro disk ⟨-, hs⟩
    rw [hs.replace hne]
    exact ⟨rfl, .inr rfl⟩
  · exact fun _ hs => .inl ⟨hs.1, .inr ⟨content, entry.mode, List.prefix_refl content, hs.2⟩⟩

theorem installed_temporary (hne : temporary ≠ destination) :
    before.installed destination temporary content mode temporary = none := by
  unfold Disk.installed
  rw [if_neg hne, if_pos rfl]

theorem installed_destination :
    before.installed destination temporary content mode destination =
      some (.file content mode) :=
  if_pos rfl

/-- From wherever a file's restore was cut off, if the temporary file can be used, the file comes
to its destination. -/
theorem triple_restoreManifestFile
    (hfixed : validateInPlaceRestorePath entry.path = .ok entry.path)
    (hallows : Allows before (pathParts entry.path))
    (hobject : openVerifiedObject restore.platform restore.store entry.sha256 entry.size =
      .ok content) :
    Triple
      (fun disk => Partway (pathParts entry.path) (temporaryOf (pathParts entry.path) rootHash)
        before disk ∧ Usable (temporaryOf (pathParts entry.path) rootHash) content disk)
      (restoreManifestFile restore entry rootHash)
      (fun _ disk => disk = before.installed (pathParts entry.path)
        (temporaryOf (pathParts entry.path) rootHash) content entry.mode)
      (Underway (pathParts entry.path) (temporaryOf (pathParts entry.path) rootHash) content
        entry.mode before) := by
  have hne := temporaryOf_ne (pathParts entry.path) rootHash
  have hparent : temporaryOf (pathParts entry.path) rootHash ∉ parents (pathParts entry.path) :=
    withName_not_mem_parents
  rcases openVerifiedObject_ok hobject with ⟨-, hsize, hdigest⟩
  rintro disk ⟨hpartway, husable⟩
  -- What is at the temporary file stays there until it is looked at.
  generalize hfound : disk (temporaryOf (pathParts entry.path) rootHash) = found
  have hcases : found = none ∨ ∃ mode, found = some (.file content mode) := by
    rw [← hfound]
    exact husable
  have hall : Triple
      (fun disk => Partway (pathParts entry.path) (temporaryOf (pathParts entry.path) rootHash)
        before disk ∧ disk (temporaryOf (pathParts entry.path) rootHash) = found)
      (restoreManifestFile restore entry rootHash)
      (fun _ disk => disk = before.installed (pathParts entry.path)
        (temporaryOf (pathParts entry.path) rootHash) content entry.mode)
      (Underway (pathParts entry.path) (temporaryOf (pathParts entry.path) rootHash) content
        entry.mode before) := by
    generalize htemporary : temporaryOf (pathParts entry.path) rootHash = temporary at *
    unfold restoreManifestFile
    apply Triple.bind (Q := fun relative disk => relative = entry.path ∧
      Partway (pathParts entry.path) temporary before disk ∧ disk temporary = found)
    · exact triple_look fun disk hs => ⟨entry.path, hfixed, rfl, hs⟩
    intro relative
    by_cases hrelative : relative = entry.path
    swap
    · exact fun _ hs => absurd hs.1 hrelative
    subst hrelative
    apply Triple.bind ((triple_restoreParent hfixed hallows hparent).imp
      (fun _ hs => hs.2) (fun _ _ hs => hs) ?_)
    · intro destination
      by_cases hdestination : destination = pathParts entry.path
      swap
      · exact fun _ hs => absurd hs.1 hdestination
      subst hdestination
      rw [htemporary]
      apply Triple.bind (Q := fun reusable disk => reusable = found.isSome ∧
        Filled (pathParts entry.path) temporary before found disk)
      · apply triple_look
        rintro disk ⟨-, hs⟩
        refine ⟨found.isSome, ?_, rfl, hs⟩
        unfold checkTemporary
        rw [hs.held]
        rcases hcases with rfl | ⟨mode, rfl⟩
        · rfl
        · simp only
          rw [if_neg, Option.isSome_some]
          rw [not_or, not_not, not_not]
          exact ⟨hdigest, hsize⟩
      intro reusable
      by_cases hreusable : reusable = found.isSome
      swap
      · exact fun _ hs => absurd hs.1 hreusable
      subst hreusable
      apply Triple.bind (Q := fun _ disk => disk = before.installed (pathParts entry.path)
        temporary content entry.mode)
      · apply Triple.withCleanup (Q := fun _ disk => disk = before.installed
          (pathParts entry.path) temporary content entry.mode)
        · exact ((triple_fillTemporary hne hparent hobject hcases).imp (fun _ hs => hs.2)
            (fun _ _ hs => hs) fun _ hs => hs).bind fun _ =>
              triple_commitTemporary hfixed hallows hne hparent
        · intro _
          unfold unlinkMissingOk
          apply Triple.bind (Q := fun node disk => node = none ∧ disk = before.installed
            (pathParts entry.path) temporary content entry.mode)
          · apply triple_look
            rintro disk rfl
            exact ⟨none, congrArg Except.ok (installed_temporary hne), rfl, rfl⟩
          intro node
          cases node with
          | none => exact triple_done fun _ hs => hs.2
          | some node => exact fun _ hs => nomatch hs.1
      intro _
      apply triple_look
      rintro disk rfl
      refine ⟨(), ?_, rfl⟩
      unfold checkRestored
      rw [installed_destination]
      simp only
      rw [if_neg]
      rw [not_or, not_or, not_not, not_not, not_not]
      exact ⟨hdigest, hsize, rfl⟩
    · rintro disk ⟨hs, hheld⟩
      refine .inl ⟨hs, ?_⟩
      rcases hcases with rfl | ⟨mode, rfl⟩
      · exact .inl hheld
      · exact .inr ⟨content, mode, List.prefix_refl content, hheld⟩
  exact hall disk ⟨hpartway, hfound⟩

/-- Where the directories could be made, nothing but directories was in the way. -/
theorem safe_makeParents (rest : List Path) (hrest : ∀ path ∈ rest, path ∈ parents destination) :
    Safe (Partway destination temporary before) (forEach makeParent rest)
      (fun _ disk => Partway destination temporary before disk ∧
        ∀ path ∈ rest, before path = none ∨ before path = some .dir)
      (fun _ => True) := by
  induction rest with
  | nil => exact safe_done fun _ hs => ⟨hs, fun _ hmem => (nomatch hmem)⟩
  | cons path rest ih =>
      have hpath := hrest path List.mem_cons_self
      have hlater := ih fun other hother => hrest other (List.mem_cons_of_mem _ hother)
      have hstep : Safe (Partway destination temporary before) (makeParent path)
          (fun _ disk => Partway destination temporary before disk ∧
            (before path = none ∨ before path = some .dir)) (fun _ => True) := by
        unfold makeParent
        apply Safe.bind (Q := fun node disk => Partway destination temporary before disk ∧
          disk path = node)
        · apply safe_look
          · intro disk hs node hnode
            exact ⟨hs, Except.ok.inj hnode⟩
          · exact fun _ _ => trivial
        intro node
        cases node with
        | none =>
            apply safe_effect
            rintro disk ⟨hs, hnone⟩
            refine ⟨⟨hs.put_parent hpath hnone, .inl ?_⟩, trivial⟩
            rcases hs.above path hpath with hsame | ⟨hbefore, -⟩
            · exact hsame.symm.trans hnone
            · exact hbefore
        | some node =>
            cases node with
            | dir =>
                apply safe_done
                rintro disk ⟨hs, hdir⟩
                refine ⟨hs, ?_⟩
                rcases hs.above path hpath with hsame | ⟨hbefore, -⟩
                · exact .inr (hsame.symm.trans hdir)
                · exact .inl hbefore
            | file content mode => exact safe_fail fun _ _ => trivial
            | other => exact safe_fail fun _ _ => trivial
      apply hstep.bind
      intro _ disk hs
      rcases hlater disk hs.1 with ⟨hstates, hok, herror⟩
      refine ⟨hstates, ?_, herror⟩
      intro u hu
      rcases hok u hu with ⟨hpartway, hrest⟩
      refine ⟨hpartway, ?_⟩
      intro other hother
      rcases List.mem_cons.mp hother with rfl | hmem
      · exact hs.2
      · exact hrest other hmem

/-- Where the directories of a path could be made, a file can be put there. -/
theorem allows_of_restoreParent (hfixed : validateInPlaceRestorePath relative = .ok relative)
    (h : Ends (restoreParent relative) before destination disk) :
    destination = pathParts relative ∧ Allows before (pathParts relative) ∧
      disk (pathParts relative) = before (pathParts relative) := by
  rcases ends_bind.mp h with ⟨value, _, hvalue, hmade⟩
  rcases ends_look.mp hvalue with ⟨hsame, rfl⟩
  cases hfixed.symm.trans hsame
  rcases ends_bind.mp hmade with ⟨_, made, hloop, hcheck⟩
  rcases ((@safe_makeParents _ [] _) (parents (pathParts relative))
    fun _ hpath => hpath).ends Partway.refl hloop with ⟨hpartway, habove⟩
  rcases ends_bind.mp hcheck with ⟨_, _, htarget, hdone⟩
  rcases ends_look.mp htarget with ⟨hok, rfl⟩
  rcases ends_done.mp hdone with ⟨rfl, rfl⟩
  refine ⟨rfl, ⟨habove, ?_⟩, hpartway.target⟩
  unfold checkDestination at hok
  rw [hpartway.target] at hok
  split at hok
  · rename_i hnone
    exact .inl hnone
  · rename_i content mode hfile
    exact .inr ⟨content, mode, hfile⟩
  · cases hok

/-- A file's restore that succeeded was allowed. -/
theorem allows_of_ends (hfixed : validateInPlaceRestorePath entry.path = .ok entry.path)
    (h : Ends (restoreManifestFile restore entry rootHash) before () disk) :
    Allows before (pathParts entry.path) := by
  rcases ends_bind.mp h with ⟨relative, _, hrelative, hfile⟩
  rcases ends_look.mp hrelative with ⟨hsame, rfl⟩
  cases hfixed.symm.trans hsame
  rcases ends_bind.mp hfile with ⟨destination, _, hparent, -⟩
  exact (allows_of_restoreParent hfixed hparent).2.1

/-- A temporary file that is not complete stands in the way. -/
theorem not_ends_of_partial (hfixed : validateInPlaceRestorePath entry.path = .ok entry.path)
    (hpart : before (temporaryOf (pathParts entry.path) rootHash) = some (.file part mode))
    (hsize : part.length ≠ entry.size) :
    ¬ Ends (restoreManifestFile restore entry rootHash) before () disk := by
  intro h
  rcases ends_bind.mp h with ⟨relative, _, hrelative, hfile⟩
  rcases ends_look.mp hrelative with ⟨hsame, rfl⟩
  cases hfixed.symm.trans hsame
  rcases ends_bind.mp hfile with ⟨destination, made, hparent, hrest⟩
  have hkept := (@safe_restoreParent entry.path (Holding (temporaryOf (pathParts entry.path) rootHash)
    (some (.file part mode))) ?_).ends hpart hparent
  · rcases hkept with ⟨hheld, value, hvalue, rfl⟩
    cases hfixed.symm.trans hvalue
    rcases ends_bind.mp hrest with ⟨reusable, _, hreusable, -⟩
    have hok := (ends_look.mp hreusable).1
    unfold checkTemporary at hok
    unfold Holding at hheld
    rw [hheld] at hok
    simp only at hok
    rw [if_pos (.inr hsize)] at hok
    cases hok
  · intro value hvalue parent hmem
    cases hfixed.symm.trans hvalue
    apply holding_ignores
    rintro rfl
    exact withName_not_mem_parents hmem

theorem installed_installed :
    (before.installed destination temporary content mode).installed destination temporary content
      mode = before.installed destination temporary content mode := by
  funext path
  unfold Disk.installed
  split
  · rfl
  split
  · rfl
  split
  · rfl
  · rfl

theorem installed_parent (hpath : path ∈ parents destination) (hne : path ≠ temporary) :
    before.installed destination temporary content mode path = some .dir := by
  unfold Disk.installed
  rw [if_neg (mem_parents.mp hpath).2.2, if_neg hne, if_pos hpath]

theorem installed_elsewhere (hdestination : path ≠ destination) (htemporary : path ≠ temporary)
    (hparent : path ∉ parents destination) :
    before.installed destination temporary content mode path = before path := by
  unfold Disk.installed
  rw [if_neg hdestination, if_neg htemporary, if_neg hparent]

theorem installed_allows (hparent : temporary ∉ parents destination) :
    Allows (before.installed destination temporary content mode) destination := by
  refine ⟨fun path hpath => .inr (installed_parent hpath ?_), .inr ⟨content, mode, ?_⟩⟩
  · rintro rfl
    exact hparent hpath
  · exact installed_destination

/-- A file's restore keeps the directories. -/
theorem Underway.dir (h : Underway destination temporary content mode before disk)
    (hallows : Allows before destination) (hunused : before temporary = none)
    (hparent : temporary ∉ parents destination) (hdir : before path = some .dir) :
    disk path = some .dir := by
  have hdestination : path ≠ destination := by
    rintro rfl
    rcases hallows.target with hnone | ⟨content, mode, hfile⟩
    · cases hdir.symm.trans hnone
    · cases hdir.symm.trans hfile
  have htemporary : path ≠ temporary := by
    rintro rfl
    cases hdir.symm.trans hunused
  by_cases hmem : path ∈ parents destination
  · rcases h with ⟨hpartway, -⟩ | rfl
    · rcases hpartway.above path hmem with hsame | ⟨-, hmade⟩
      · exact hsame.trans hdir
      · exact hmade
    · exact installed_parent hmem htemporary
  · rcases h with ⟨hpartway, -⟩ | rfl
    · exact (hpartway.elsewhere path hdestination htemporary hmem).trans hdir
    · exact (installed_elsewhere hdestination htemporary hmem).trans hdir

/-- Every directory on the way to something is there. -/
def IsTree (disk : Disk) : Prop :=
  ∀ path node, disk path = some node → ∀ parent ∈ parents path, disk parent = some .dir

theorem IsTree.installed (h : IsTree before) (hallows : Allows before destination)
    (hparent : temporary ∉ parents destination)
    (hfile : before temporary = none ∨ ∃ content mode, before temporary = some (.file content mode)) :
    IsTree (before.installed destination temporary content mode) := by
  intro path node hnode parent hmem
  by_cases hparents : parent ∈ parents destination
  · apply installed_parent hparents
    rintro rfl
    exact hparent hparents
  by_cases hdestination : path = destination
  · subst hdestination
    exact absurd hmem hparents
  by_cases htemporary : path = temporary
  · subst htemporary
    unfold Disk.installed at hnode
    rw [if_neg hdestination, if_pos rfl] at hnode
    cases hnode
  by_cases hbetween : path ∈ parents destination
  · -- What is above a directory of the destination is above the destination.
    exfalso
    apply hparents
    rw [mem_parents] at hmem hbetween ⊢
    refine ⟨hmem.1.trans hbetween.1, hmem.2.1, ?_⟩
    rintro rfl
    exact hbetween.2.2 (hbetween.1.eq_of_length
      (Nat.le_antisymm hbetween.1.length_le hmem.1.length_le))
  rw [installed_elsewhere hdestination htemporary hbetween] at hnode
  have hdir := h path node hnode parent hmem
  rw [installed_elsewhere ?_ ?_ hparents, hdir]
  · rintro rfl
    rcases hallows.target with hnone | ⟨content, mode, hfile⟩
    · cases hdir.symm.trans hnone
    · cases hdir.symm.trans hfile
  · rintro rfl
    rcases hfile with hnone | ⟨content, mode, hfile⟩
    · cases hdir.symm.trans hnone
    · cases hdir.symm.trans hfile

end OneFile

/-! ## The operations -/

/-- The paths that a snapshot speaks of. -/
def Manifest.paths (manifest : Manifest) : List String :=
  manifest.body.files.map FileEntry.path ++ manifest.body.tombstones

/-- The temporary file of a file of the snapshot. -/
def Manifest.temporary (manifest : Manifest) (entry : FileEntry) : Path :=
  temporaryOf (pathParts entry.path) manifest.rootHash

/-- What a restore knows of its snapshot: the paths are the ones that are written, none of them
is a temporary file of the restore or below one, and the objects are there. -/
structure Ready (restore : Restore) (manifest : Manifest)
    (floorPlan : Option ReleaseFloorPlan) : Prop where
  fixed : ∀ path ∈ manifest.paths, validateInPlaceRestorePath path = .ok path
  temporaries : ∀ entry ∈ manifest.body.files, ∀ path ∈ manifest.paths,
    ¬ manifest.temporary entry <+: pathParts path
  distinct : (manifest.body.files.map FileEntry.path).Nodup
  objects : ∀ entry ∈ manifest.body.files, ∃ content,
    openVerifiedObject restore.platform restore.store entry.sha256 entry.size = .ok content
  floor : ∀ entry ∈ manifest.body.files, entry.path = releaseSequenceFloor →
    ∃ plan floor content, floorPlan = some plan ∧ plan.snapshot = some (entry, floor) ∧
      snapshotFloor restore.platform restore.store manifest.body.files =
        .ok (some (entry, floor)) ∧
      openVerifiedObject restore.platform restore.store entry.sha256 entry.size = .ok content ∧
        ∀ disk mode, disk floorPath = some (.file content mode) →
          readLocalReleaseSequenceFloor restore.platform disk = .ok (some floor)

/-- The record is as it was, or the one of the snapshot. -/
def FloorKept (restore : Restore) (manifest : Manifest) (start disk : Disk) : Prop :=
  disk floorPath = start floorPath ∨
    ∃ entry ∈ manifest.body.files, entry.path = releaseSequenceFloor ∧ ∃ content,
      openVerifiedObject restore.platform restore.store entry.sha256 entry.size = .ok content ∧
        disk floorPath = some (.file content entry.mode)

/-- What the files are between two operations. -/
structure Tidy (restore : Restore) (manifest : Manifest) (start disk : Disk) : Prop where
  tree : IsTree disk
  dirs : ∀ path, start path = some .dir → disk path = some .dir
  unused : ∀ entry ∈ manifest.body.files, disk (manifest.temporary entry) = none
  floor : FloorKept restore manifest start disk

/-- Every temporary file is complete. -/
def Whole (manifest : Manifest) (disk : Disk) : Prop :=
  ∀ entry ∈ manifest.body.files, ∀ part mode,
    disk (manifest.temporary entry) = some (.file part mode) → part.length = entry.size

section Operations

variable {restore : Restore} {manifest : Manifest} {floorPlan : Option ReleaseFloorPlan}
  {entry other : FileEntry} {path : String} {content : List UInt8} {operation : Operation}
  {start before after disk : Disk} {plan : ReleaseFloorPlan} {floor : Floor}

theorem path_of_file (hentry : entry ∈ manifest.body.files) : entry.path ∈ manifest.paths :=
  List.mem_append_left _ (List.mem_map_of_mem hentry)

theorem path_of_tombstone (hpath : path ∈ manifest.body.tombstones) : path ∈ manifest.paths :=
  List.mem_append_right _ hpath

theorem inPlace_relative {value : String} (h : validateInPlaceRestorePath path = .ok value) :
    validateRelativePath path = .ok value := by
  unfold validateInPlaceRestorePath at h
  split at h
  · cases h
  · rename_i found hfound
    split at h
    · cases h
    · cases h
      exact hfound

theorem Ready.injective (h : Ready restore manifest floorPlan)
    {path path' : String} (hpath : path ∈ manifest.paths) (hpath' : path' ∈ manifest.paths)
    (hparts : pathParts path = pathParts path') : path = path' :=
  parts_injective (inPlace_relative (h.fixed _ hpath)) (inPlace_relative (h.fixed _ hpath')) hparts

theorem temporaryOf_injective {first second : Path} {rootHash : String} (hfirst : first ≠ [])
    (hsecond : second ≠ []) (h : temporaryOf first rootHash = temporaryOf second rootHash) :
    first = second := by
  unfold temporaryOf withName at h
  have hname := congrArg List.getLast? h
  rw [List.getLast?_concat, List.getLast?_concat] at hname
  have hfile := temporaryName_injective (Option.some.inj hname)
  have hinit := congrArg List.dropLast h
  rw [List.dropLast_concat, List.dropLast_concat] at hinit
  rcases List.eq_nil_or_concat first with rfl | ⟨init, last, rfl⟩
  · exact absurd rfl hfirst
  rcases List.eq_nil_or_concat second with rfl | ⟨init', last', rfl⟩
  · exact absurd rfl hsecond
  rw [List.concat_eq_append, List.concat_eq_append] at hinit hfile ⊢
  rw [List.dropLast_concat, List.dropLast_concat] at hinit
  unfold fileName at hfile
  rw [List.getLast?_concat, List.getLast?_concat] at hfile
  rw [hinit]
  exact congrArg (fun name => init' ++ [name]) hfile

/-- A file of a snapshot is known by its temporary file. -/
theorem Ready.entry_of_temporary (h : Ready restore manifest floorPlan)
    (hentry : entry ∈ manifest.body.files) (hother : other ∈ manifest.body.files)
    (hsame : manifest.temporary entry = manifest.temporary other) : entry = other := by
  have hparts := temporaryOf_injective (parts_ne_nil (inPlace_relative (h.fixed _ (path_of_file hentry))))
    (parts_ne_nil (inPlace_relative (h.fixed _ (path_of_file hother)))) hsame
  exact List.inj_on_of_nodup_map h.distinct hentry hother
    (h.injective (path_of_file hentry) (path_of_file hother) hparts)

theorem Ready.temporary_ne (h : Ready restore manifest floorPlan)
    (hentry : entry ∈ manifest.body.files) (hpath : path ∈ manifest.paths) :
    manifest.temporary entry ≠ pathParts path ∧
      manifest.temporary entry ∉ parents (pathParts path) := by
  have hnot := h.temporaries entry hentry path hpath
  constructor
  · intro hsame
    rw [hsame] at hnot
    exact hnot (List.prefix_refl _)
  · exact fun hmem => hnot (mem_parents.mp hmem).1

/-- Only the record is restored at its path. -/
theorem Ready.apart (h : Ready restore manifest floorPlan) (hpath : path ∈ manifest.paths)
    (hne : path ≠ releaseSequenceFloor) :
    pathParts path ≠ floorPath ∧ floorPath ∉ parents (pathParts path) ∧
      floorPath ≠ temporaryOf (pathParts path) manifest.rootHash := by
  rcases @apart_from_floor manifest.rootHash _ _ (h.fixed path hpath) with
    ⟨hfloor, -, hparent, -⟩
  have hdestination := hfloor hne
  exact ⟨hdestination, hparent, (temporary_apart_from_floor hdestination).1.symm⟩

theorem FloorKept.congr (h : FloorKept restore manifest start before)
    (hsame : after floorPath = before floorPath) : FloorKept restore manifest start after := by
  unfold FloorKept at h ⊢
  rw [hsame]
  exact h

/-- A file's restore keeps the record, or puts the snapshot's in its place. -/
theorem Ready.floor_underway (h : Ready restore manifest floorPlan)
    (hentry : entry ∈ manifest.body.files)
    (hobject : openVerifiedObject restore.platform restore.store entry.sha256 entry.size =
      .ok content) (hkept : FloorKept restore manifest start before)
    (hunderway : Underway (pathParts entry.path) (manifest.temporary entry) content entry.mode
      before after) : FloorKept restore manifest start after := by
  by_cases hfloor : entry.path = releaseSequenceFloor
  · have hparts : pathParts entry.path = floorPath := by
      rw [hfloor]
      rfl
    rcases hunderway with ⟨hpartway, -⟩ | rfl
    · apply hkept.congr
      rw [← hparts]
      exact hpartway.target
    · refine .inr ⟨entry, hentry, hfloor, content, hobject, ?_⟩
      rw [← hparts]
      exact installed_destination
  · rcases h.apart (path_of_file hentry) hfloor with ⟨hdestination, hparent, htemporary⟩
    apply hkept.congr
    rcases hunderway with ⟨hpartway, -⟩ | rfl
    · exact hpartway.elsewhere _ hdestination.symm htemporary hparent
    · exact installed_elsewhere hdestination.symm htemporary hparent

/-- Restoring a file leaves the files tidy. -/
theorem Tidy.installed (htidy : Tidy restore manifest start before)
    (h : Ready restore manifest floorPlan) (hentry : entry ∈ manifest.body.files)
    (hobject : openVerifiedObject restore.platform restore.store entry.sha256 entry.size =
      .ok content) (hallows : Allows before (pathParts entry.path)) :
    Tidy restore manifest start (before.installed (pathParts entry.path)
      (manifest.temporary entry) content entry.mode) := by
  have hpath := path_of_file hentry
  refine ⟨?_, ?_, ?_, h.floor_underway hentry hobject htidy.floor (.inr rfl)⟩
  · exact htidy.tree.installed hallows (h.temporary_ne hentry hpath).2
      (.inl (htidy.unused entry hentry))
  · exact fun path hdir => Underway.dir (.inr rfl) hallows (htidy.unused entry hentry)
      (h.temporary_ne hentry hpath).2 (htidy.dirs path hdir)
  · intro other hother
    by_cases hsame : manifest.temporary other = manifest.temporary entry
    · rw [hsame]
      exact installed_temporary (h.temporary_ne hentry hpath).1
    · rw [installed_elsewhere (h.temporary_ne hother hpath).1 hsame
        (h.temporary_ne hother hpath).2]
      exact htidy.unused other hother

/-- What the snapshot does not speak of is as it was, but for directories that its files need. -/
def Untouched (manifest : Manifest) (before after : Disk) : Prop :=
  ∀ path, (∀ named ∈ manifest.paths, pathParts named ≠ path) →
    after path = before path ∨ before path = none ∧ after path = some .dir ∧
      ∃ entry ∈ manifest.body.files, path ∈ parents (pathParts entry.path)

theorem Untouched.refl : Untouched manifest before before :=
  fun _ _ => .inl rfl

theorem Untouched.trans (h : Untouched manifest start before)
    (h' : Untouched manifest before after) : Untouched manifest start after := by
  intro path hpath
  rcases h path hpath with hsame | ⟨hnone, hdir, hentry⟩
  · rw [← hsame]
    exact h' path hpath
  · right
    rcases h' path hpath with hsame | ⟨hgone, -⟩
    · exact ⟨hnone, hsame.trans hdir, hentry⟩
    · cases hdir.symm.trans hgone

theorem untouched_installed (hentry : entry ∈ manifest.body.files)
    (hunused : before (manifest.temporary entry) = none)
    (hallows : Allows before (pathParts entry.path)) {mode : Nat} :
    Untouched manifest before (before.installed (pathParts entry.path)
      (manifest.temporary entry) content mode) := by
  intro path hpath
  have hdestination : path ≠ pathParts entry.path :=
    (hpath entry.path (path_of_file hentry)).symm
  by_cases htemporary : path = manifest.temporary entry
  · left
    rw [htemporary, hunused]
    exact installed_temporary (temporaryOf_ne _ _)
  by_cases hparent : path ∈ parents (pathParts entry.path)
  · rcases hallows.above path hparent with hnone | hdir
    · exact .inr ⟨hnone, installed_parent hparent htemporary, entry, hentry, hparent⟩
    · exact .inl ((installed_parent hparent htemporary).trans hdir.symm)
  · exact .inl (installed_elsewhere hdestination htemporary hparent)

/-- What is known of an operation between two states: what it can leave keeps the record, a
temporary file in it is the operation's own, and from what it can leave it ends where it would
have ended if and only if the temporary files are complete. -/
structure Resumes (restore : Restore) (manifest : Manifest) (start before after : Disk)
    (act : Action Disk Unit) : Prop where
  tidy : Tidy restore manifest start after
  untouched : Untouched manifest before after
  dirs : ∀ disk, Leaves act before disk → ∀ path, start path = some .dir → disk path = some .dir
  floor : ∀ disk, Leaves act before disk → FloorKept restore manifest start disk
  restarts : ∀ disk, Leaves act before disk → Whole manifest disk → Ends act disk () after
  stuck : ∀ disk, Leaves act before disk → ¬ Whole manifest disk → ∀ last, ¬ Ends act disk () last

theorem Resumes.file (h : Ready restore manifest floorPlan)
    (htidy : Tidy restore manifest start before) (hentry : entry ∈ manifest.body.files)
    (hends : Ends (restoreManifestFile restore entry manifest.rootHash) before () after) :
    Resumes restore manifest start before after
      (restoreManifestFile restore entry manifest.rootHash) ∧
        ∃ content, openVerifiedObject restore.platform restore.store entry.sha256 entry.size =
          .ok content ∧ after = before.installed (pathParts entry.path)
            (manifest.temporary entry) content entry.mode ∧
          ∀ disk, Leaves (restoreManifestFile restore entry manifest.rootHash) before disk →
            Underway (pathParts entry.path) (manifest.temporary entry) content entry.mode before
              disk := by
  have hpath := path_of_file hentry
  have hfixed := h.fixed _ hpath
  rcases h.objects entry hentry with ⟨content, hobject⟩
  rcases openVerifiedObject_ok hobject with ⟨-, hsize, -⟩
  have hallows := allows_of_ends hfixed hends
  have hunused := htidy.unused entry hentry
  have hparent := (h.temporary_ne hentry hpath).2
  have hrun : ∀ first disk, Allows first (pathParts entry.path) →
      Partway (pathParts entry.path) (manifest.temporary entry) first disk →
        Usable (manifest.temporary entry) content disk →
          Ends (restoreManifestFile restore entry manifest.rootHash) disk ()
            (first.installed (pathParts entry.path) (manifest.temporary entry) content
              entry.mode) := by
    intro first disk hfirst hpartway husable
    rcases (triple_restoreManifestFile hfixed hfirst hobject).ends ⟨hpartway, husable⟩ with
      ⟨_, last, hlast, rfl⟩
    exact hlast
  cases (hends.unique (hrun before before hallows .refl (.inl hunused))).2
  have hleft : ∀ disk, Leaves (restoreManifestFile restore entry manifest.rootHash) before disk →
      Underway (pathParts entry.path) (manifest.temporary entry) content entry.mode before disk :=
    fun disk hleaves => (triple_restoreManifestFile hfixed hallows hobject).leaves
      ⟨.refl, .inl hunused⟩ (.inl ⟨.refl, .inl hunused⟩) (fun _ _ hs => .inr hs) hleaves
  have htidied := htidy.installed h hentry hobject hallows
  refine ⟨⟨htidied, untouched_installed hentry hunused hallows, ?_, ?_, ?_, ?_⟩, content, hobject,
    rfl, hleft⟩
  · exact fun disk hleaves path hdir => (hleft disk hleaves).dir hallows hunused hparent
      (htidy.dirs path hdir)
  · exact fun disk hleaves => h.floor_underway hentry hobject htidy.floor (hleft disk hleaves)
  · intro disk hleaves hwhole
    rcases hleft disk hleaves with ⟨hpartway, htemporary⟩ | rfl
    · apply hrun before disk hallows hpartway
      rcases htemporary with hnone | ⟨part, mode, hpart, hfile⟩
      · exact .inl hnone
      · have hcontent := hpart.eq_of_length ((hwhole entry hentry part mode hfile).trans hsize.symm)
        exact .inr ⟨mode, hcontent ▸ hfile⟩
    · have hagain := hrun _ _ (installed_allows hparent) .refl
        (.inl (htidied.unused entry hentry))
      rw [installed_installed] at hagain
      exact hagain
  · intro disk hleaves hnot last hlast
    apply hnot
    intro other hother part mode hfile
    rcases hleft disk hleaves with ⟨hpartway, -⟩ | rfl
    · by_cases hsame : manifest.temporary other = manifest.temporary entry
      · cases h.entry_of_temporary hother hentry hsame
        by_contra hpart
        exact not_ends_of_partial hfixed hfile hpart hlast
      · rw [hpartway.elsewhere _ (h.temporary_ne hother hpath).1 hsame
          (h.temporary_ne hother hpath).2, htidy.unused other hother] at hfile
        cases hfile
    · rw [htidied.unused other hother] at hfile
      cases hfile

theorem Tidy.whole (htidy : Tidy restore manifest start before) : Whole manifest before := by
  intro entry hentry part mode hfile
  rw [htidy.unused entry hentry] at hfile
  cases hfile

/-- An operation that leaves everything as it is. -/
theorem Resumes.skip (htidy : Tidy restore manifest start before) {act : Action Disk Unit}
    (hleft : ∀ disk, Leaves act before disk → disk = before)
    (hends : Ends act before () before) :
    Resumes restore manifest start before before act := by
  refine ⟨htidy, .refl, ?_, ?_, ?_, ?_⟩
  · intro disk hleaves
    rw [hleft disk hleaves]
    exact htidy.dirs
  · intro disk hleaves
    rw [hleft disk hleaves]
    exact htidy.floor
  · intro disk hleaves _
    rw [hleft disk hleaves]
    exact hends
  · intro disk hleaves hnot
    rw [hleft disk hleaves] at hnot
    exact absurd htidy.whole hnot

theorem reaches_congr {rest : List Path} (h : ∀ path ∈ rest, after path = before path) :
    reaches after rest = reaches before rest := by
  induction rest with
  | nil => rfl
  | cons path rest ih =>
      unfold reaches
      rw [h path List.mem_cons_self, ih fun other hother => h other (List.mem_cons_of_mem _ hother)]

theorem tombstoneDestination_eq (hfixed : validateInPlaceRestorePath path = .ok path)
    {disk : Disk} : tombstoneDestination path disk =
      (reaches disk (parents (pathParts path))).map fun reached =>
        if reached then some (pathParts path) else none := by
  unfold tombstoneDestination
  rw [hfixed]
  simp only [bind, Except.bind]
  cases reaches disk (parents (pathParts path)) with
  | error error => rfl
  | ok reached => rfl

/-- What removing a tombstone does. -/
theorem tombstone_cases (hfixed : validateInPlaceRestorePath path = .ok path)
    (hends : Ends (restoreManifestTombstone path) before () after) :
    (∃ reached, reaches before (parents (pathParts path)) = .ok reached) ∧
      (after = before ∧
          (∀ disk, Leaves (restoreManifestTombstone path) before disk → disk = before) ∨
        (∃ content mode, before (pathParts path) = some (.file content mode)) ∧
          after = before.unlink (pathParts path) ∧
            ∀ disk, Leaves (restoreManifestTombstone path) before disk →
              disk = before ∨ disk = after) := by
  rcases ends_bind.mp hends with ⟨found, _, hfound, hrest⟩
  rcases ends_look.mp hfound with ⟨hdestination, rfl⟩
  have hleft := fun disk (hleaves : Leaves (restoreManifestTombstone path) before disk) =>
    leaves_bind hfound hleaves
  rw [tombstoneDestination_eq hfixed] at hdestination
  cases hreaches : reaches before (parents (pathParts path)) with
  | error error =>
      rw [hreaches] at hdestination
      cases hdestination
  | ok reached =>
      refine ⟨⟨reached, rfl⟩, ?_⟩
      rw [hreaches] at hdestination
      cases reached with
      | false =>
          cases hdestination
          left
          refine ⟨(ends_done.mp hrest).2.symm, ?_⟩
          intro disk hleaves
          rcases hleft disk hleaves with hfirst | hsecond
          · exact leaves_look hfirst
          · exact leaves_done hsecond
      | true =>
          cases hdestination
          rcases ends_bind.mp hrest with ⟨node, _, hnode, hremove⟩
          rcases ends_look.mp hnode with ⟨hsame, rfl⟩
          cases node with
          | none =>
              left
              refine ⟨(ends_done.mp hremove).2.symm, ?_⟩
              intro disk hleaves
              rcases hleft disk hleaves with hfirst | hsecond
              · exact leaves_look hfirst
              rcases leaves_bind hnode hsecond with hthird | hfourth
              · exact leaves_look hthird
              · exact leaves_done hfourth
          | some node =>
              cases node with
              | dir => exact absurd hremove ends_fail
              | other => exact absurd hremove ends_fail
              | file content mode =>
                  right
                  refine ⟨⟨content, mode, Except.ok.inj hsame⟩, (ends_effect.mp hremove).symm, ?_⟩
                  intro disk hleaves
                  rcases hleft disk hleaves with hfirst | hsecond
                  · exact .inl (leaves_look hfirst)
                  rcases leaves_bind hnode hsecond with hthird | hfourth
                  · exact .inl (leaves_look hthird)
                  rw [← ends_effect.mp hremove]
                  exact leaves_effect hfourth

/-- A tombstone that is gone stays so. -/
theorem tombstone_again (hfixed : validateInPlaceRestorePath path = .ok path) {reached : Bool}
    (hreaches : reaches before (parents (pathParts path)) = .ok reached)
    (hnone : before (pathParts path) = none) :
    Ends (restoreManifestTombstone path) before () before := by
  unfold restoreManifestTombstone
  apply ends_bind.mpr
  refine ⟨if reached then some (pathParts path) else none, before, ?_, ?_⟩
  · apply ends_look.mpr
    rw [tombstoneDestination_eq hfixed, hreaches]
    exact ⟨rfl, rfl⟩
  cases reached with
  | false => exact ends_done.mpr ⟨rfl, rfl⟩
  | true =>
      apply ends_bind.mpr
      refine ⟨none, before, ends_look.mpr ⟨congrArg Except.ok hnone, rfl⟩, ?_⟩
      exact ends_done.mpr ⟨rfl, rfl⟩

theorem Resumes.tombstone (h : Ready restore manifest floorPlan)
    (htidy : Tidy restore manifest start before) (hpath : path ∈ manifest.body.tombstones)
    (hne : path ≠ releaseSequenceFloor)
    (hends : Ends (restoreManifestTombstone path) before () after) :
    Resumes restore manifest start before after (restoreManifestTombstone path) := by
  have hmem := path_of_tombstone hpath
  have hfixed := h.fixed _ hmem
  rcases tombstone_cases hfixed hends with ⟨⟨reached, hreaches⟩, ⟨rfl, hleft⟩ |
    ⟨⟨content, mode, hfile⟩, rfl, hleft⟩⟩
  · exact .skip htidy hleft hends
  have htidied : Tidy restore manifest start (before.unlink (pathParts path)) := by
    refine ⟨?_, ?_, ?_, htidy.floor.congr (unlink_of_ne (h.apart hmem hne).1.symm)⟩
    · intro other node hnode parent hparent
      by_cases hother : other = pathParts path
      · subst hother
        rw [unlink_self] at hnode
        cases hnode
      rw [unlink_of_ne hother] at hnode
      have hdir := htidy.tree other node hnode parent hparent
      rw [unlink_of_ne, hdir]
      rintro rfl
      cases hdir.symm.trans hfile
    · intro other hdir
      have hbefore := htidy.dirs other hdir
      rw [unlink_of_ne, hbefore]
      rintro rfl
      cases hbefore.symm.trans hfile
    · intro entry hentry
      rw [unlink_of_ne (h.temporary_ne hentry hmem).1]
      exact htidy.unused entry hentry
  have hagain : Ends (restoreManifestTombstone path) (before.unlink (pathParts path)) ()
      (before.unlink (pathParts path)) := by
    apply @tombstone_again _ _ hfixed reached _ unlink_self
    rw [reaches_congr, hreaches]
    intro parent hparent
    exact unlink_of_ne (mem_parents.mp hparent).2.2
  have huntouched : Untouched manifest before (before.unlink (pathParts path)) :=
    fun other hother => .inl (unlink_of_ne (hother path hmem).symm)
  refine ⟨htidied, huntouched, ?_, ?_, ?_, ?_⟩
  · intro disk hleaves
    rcases hleft disk hleaves with rfl | rfl
    · exact htidy.dirs
    · exact htidied.dirs
  · intro disk hleaves
    rcases hleft disk hleaves with rfl | rfl
    · exact htidy.floor
    · exact htidied.floor
  · intro disk hleaves _
    rcases hleft disk hleaves with rfl | rfl
    · exact hends
    · exact hagain
  · intro disk hleaves hnot
    rcases hleft disk hleaves with rfl | rfl
    · exact absurd htidy.whole hnot
    · exact absurd htidied.whole hnot

/-- No record, or one of an earlier release. -/
def Yields (current : Option Floor) (floor : Floor) : Prop :=
  ∀ found, current = some found → found.conflicts floor = false ∧ found.sequence < floor.sequence

theorem restoreReleaseFloor_yields (hplan : plan.snapshot = some (entry, floor))
    {current : Option Floor} {disk : Disk}
    (hread : readLocalReleaseSequenceFloor restore.platform disk = .ok current)
    (hyields : Yields current floor) {rootHash : String} :
    restoreReleaseFloor restore plan rootHash disk =
      restoreManifestFile restore entry rootHash disk := by
  unfold restoreReleaseFloor
  rw [hplan]
  simp only
  rw [look_bind hread]
  cases current with
  | none => rfl
  | some current =>
      rcases hyields current rfl with ⟨hconflicts, hless⟩
      simp only
      rw [if_neg (by rw [hconflicts]; exact Bool.false_ne_true), if_neg (by omega)]

theorem restoreReleaseFloor_keeps (hplan : plan.snapshot = some (entry, floor))
    {current : Floor} {disk : Disk}
    (hread : readLocalReleaseSequenceFloor restore.platform disk = .ok (some current))
    (hconflicts : current.conflicts floor = false) (hle : floor.sequence ≤ current.sequence)
    {rootHash : String} : restoreReleaseFloor restore plan rootHash disk = done () disk := by
  unfold restoreReleaseFloor
  rw [hplan]
  simp only
  rw [look_bind hread]
  simp only
  rw [if_neg (by rw [hconflicts]; exact Bool.false_ne_true), if_pos hle]

theorem conflicts_self : floor.conflicts floor = false := by
  unfold Floor.conflicts
  simp

theorem readLocal_congr {platform : Platform} (h : after floorPath = before floorPath) :
    readLocalReleaseSequenceFloor platform after =
      readLocalReleaseSequenceFloor platform before := by
  unfold floorPath at h
  unfold readLocalReleaseSequenceFloor
  rw [h]

theorem Resumes.record (h : Ready restore manifest floorPlan)
    (htidy : Tidy restore manifest start before) (hentry : entry ∈ manifest.body.files)
    (hpath : entry.path = releaseSequenceFloor) (hplan : floorPlan = some plan)
    (hends : Ends (restoreReleaseFloor restore plan manifest.rootHash) before () after) :
    Resumes restore manifest start before after
      (restoreReleaseFloor restore plan manifest.rootHash) := by
  rcases h.floor entry hentry hpath with
    ⟨plan', floor, content, hplan', hsnapshot, -, hobject, hread⟩
  cases hplan.symm.trans hplan'
  have hcurrent : ∃ current, readLocalReleaseSequenceFloor restore.platform before = .ok current ∧
      (Yields current floor ∨ ∃ found, current = some found ∧
        found.conflicts floor = false ∧ floor.sequence ≤ found.sequence) := by
    unfold restoreReleaseFloor at hends
    rw [hsnapshot] at hends
    rcases ends_bind.mp hends with ⟨current, _, hlook, hrest⟩
    refine ⟨current, (ends_look.mp hlook).1, ?_⟩
    cases current with
    | none => exact .inl fun _ hfound => nomatch hfound
    | some current =>
        simp only at hrest
        split at hrest
        · exact absurd hrest ends_fail
        rename_i hconflicts
        rw [Bool.not_eq_true] at hconflicts
        by_cases hle : floor.sequence ≤ current.sequence
        · exact .inr ⟨current, rfl, hconflicts, hle⟩
        · left
          intro found hfound
          cases hfound
          exact ⟨hconflicts, by omega⟩
  rcases hcurrent with ⟨current, hbefore, hyields | ⟨found, rfl, hconflicts, hle⟩⟩
  swap
  · have hkeeps := @restoreReleaseFloor_keeps _ _ _ _ hsnapshot _ _ hbefore hconflicts hle
      manifest.rootHash
    cases (ends_done.mp (hends.congr hkeeps)).2
    exact .skip htidy (fun disk hleaves => leaves_done (hleaves.congr hkeeps)) hends
  have hsame := @restoreReleaseFloor_yields _ _ _ _ hsnapshot _ _ hbefore hyields manifest.rootHash
  rcases Resumes.file h htidy hentry (hends.congr hsame) with
    ⟨hfile, content', hobject', rfl, hleft⟩
  cases hobject.symm.trans hobject'
  have hparts : pathParts entry.path = floorPath := by
    rw [hpath]
    rfl
  have hcases : ∀ disk, Leaves (restoreReleaseFloor restore plan manifest.rootHash) before disk →
      Leaves (restoreManifestFile restore entry manifest.rootHash) before disk ∧
        (restoreReleaseFloor restore plan manifest.rootHash disk =
            restoreManifestFile restore entry manifest.rootHash disk ∨
          disk = before.installed (pathParts entry.path) (manifest.temporary entry) content
              entry.mode ∧
            restoreReleaseFloor restore plan manifest.rootHash disk = done () disk) := by
    intro disk hleaves
    have hfileLeaves := hleaves.congr hsame
    refine ⟨hfileLeaves, ?_⟩
    rcases hleft disk hfileLeaves with ⟨hpartway, -⟩ | rfl
    · left
      apply restoreReleaseFloor_yields hsnapshot _ hyields
      rw [readLocal_congr (hparts ▸ hpartway.target), hbefore]
    · right
      refine ⟨rfl, restoreReleaseFloor_keeps hsnapshot (hread _ entry.mode ?_) conflicts_self
        (Nat.le_refl _)⟩
      rw [← hparts]
      exact installed_destination
  refine ⟨hfile.tidy, hfile.untouched, ?_, ?_, ?_, ?_⟩
  · exact fun disk hleaves => hfile.dirs disk (hcases disk hleaves).1
  · exact fun disk hleaves => hfile.floor disk (hcases disk hleaves).1
  · intro disk hleaves hwhole
    rcases hcases disk hleaves with ⟨hfileLeaves, hagain | ⟨rfl, hdone⟩⟩
    · exact (hfile.restarts disk hfileLeaves hwhole).congr hagain.symm
    · exact Ends.congr hdone.symm (ends_done.mpr ⟨rfl, rfl⟩)
  · intro disk hleaves hnot last hlast
    rcases hcases disk hleaves with ⟨hfileLeaves, hagain | ⟨rfl, hdone⟩⟩
    · exact hfile.stuck disk hfileLeaves hnot last (hlast.congr hagain)
    · exact hnot hfile.tidy.whole

/-- Every operation of a restore. -/
theorem Resumes.ofOperation (h : Ready restore manifest floorPlan)
    (htidy : Tidy restore manifest start before) (hmem : operation ∈ operationsOf manifest)
    (hends : Ends (runOperation restore floorPlan manifest.rootHash operation) before () after) :
    Resumes restore manifest start before after
      (runOperation restore floorPlan manifest.rootHash operation) := by
  unfold operationsOf at hmem
  cases operation with
  | file entry =>
      have hentry : entry ∈ manifest.body.files := by simpa using hmem
      by_cases hpath : entry.path = releaseSequenceFloor
      · rcases h.floor entry hentry hpath with ⟨plan, floor, content, hplan, -⟩
        have hrun : runOperation restore floorPlan manifest.rootHash (.file entry) =
            restoreReleaseFloor restore plan manifest.rootHash := by
          simp only [runOperation, if_pos hpath, hplan]
        rw [hrun] at hends ⊢
        exact .record h htidy hentry hpath hplan hends
      · have hrun : runOperation restore floorPlan manifest.rootHash (.file entry) =
            restoreManifestFile restore entry manifest.rootHash := by
          simp only [runOperation, if_neg hpath]
        rw [hrun] at hends ⊢
        exact (Resumes.file h htidy hentry hends).1
  | tombstone path =>
      have hpath : path ∈ manifest.body.tombstones := by simpa using hmem
      by_cases hne : path = releaseSequenceFloor
      · have hrun : runOperation restore floorPlan manifest.rootHash (.tombstone path) =
            done () := by
          simp only [runOperation, if_pos hne]
        rw [hrun] at hends ⊢
        cases (ends_done.mp hends).2
        exact .skip htidy (fun _ hleaves => leaves_done hleaves) hends
      · have hrun : runOperation restore floorPlan manifest.rootHash (.tombstone path) =
            restoreManifestTombstone path := by
          simp only [runOperation, if_neg hne]
        rw [hrun] at hends ⊢
        exact .tombstone h htidy hpath hne hends

end Operations

end Backup
end Stemcell
