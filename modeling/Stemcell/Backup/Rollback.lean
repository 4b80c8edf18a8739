import Stemcell.Backup.InPlace
import Stemcell.Lib.Transition

/-!
# The release floor over restores

Restores in place, whole ones and ones that were cut off, change the record of the newest
release only by putting a newer one in its place.

Main results:

- Theorem `leaves_advances`: one restore, wherever it is cut off.
- Theorem `floor_law`: any number of restores.
- Theorem `floor_lowered`: a path that is only brought into the record's path when it is
  restored is not compared with the record.
-/

namespace Stemcell
namespace Backup

open Interface (Json)
open Lib Action TransitionSystem

/-- The release that is recorded. -/
def recorded (platform : Platform) (disk : Disk) : Option Floor :=
  match readLocalReleaseSequenceFloor platform disk with
  | .ok floor => floor
  | .error _ => none

/-- A record is kept, or gives way to one of a later release. -/
def Advances (before after : Option Floor) : Prop :=
  ∀ floor, before = some floor → ∃ floor', after = some floor' ∧
    (floor' = floor ∨ floor.sequence < floor'.sequence)

theorem Advances.refl (floor : Option Floor) : Advances floor floor :=
  fun found hfound => ⟨found, hfound, .inl rfl⟩

theorem Advances.trans {first second third : Option Floor} (h : Advances first second)
    (h' : Advances second third) : Advances first third := by
  intro floor hfloor
  rcases h floor hfloor with ⟨floor', hfloor', hstep⟩
  rcases h' floor' hfloor' with ⟨floor'', hfloor'', hstep'⟩
  refine ⟨floor'', hfloor'', ?_⟩
  rcases hstep with rfl | hlt
  · exact hstep'
  · rcases hstep' with rfl | hlt'
    · exact .inr hlt
    · exact .inr (Nat.lt_trans hlt hlt')

/-! ## Restoring the file itself -/

variable {restore : Restore} {entry : FileEntry} {rootHash relative value : String}
  {destination temporary : Path} {content : List UInt8} {found : Option Node} {disk disk' : Disk}
  {reusable : Bool}

/-- The destination has what it had or the content of the file, and a temporary file that
passes for complete has that content too. -/
structure Installing (restore : Restore) (entry : FileEntry) (destination temporary : Path)
    (found : Option Node) (content : List UInt8) (disk : Disk) : Prop where
  destination : disk destination = found ∨
    ∃ mode, disk destination = some (.file content mode)
  temporary : ∀ part mode, disk temporary = some (.file part mode) →
    part.length = entry.size → restore.platform.py.sha256 part = entry.sha256 → part = content

/-- The temporary file is complete. -/
def Complete (temporary : Path) (content : List UInt8) (disk : Disk) : Prop :=
  ∃ mode, disk temporary = some (.file content mode)

theorem Installing.put_temporary (h : Installing restore entry destination temporary found content disk)
    (hne : temporary ≠ destination) {part : List UInt8} {mode : Nat} (hpart : part <+: content)
    (hsize : content.length = entry.size) :
    Installing restore entry destination temporary found content
      (disk.put temporary (.file part mode)) := by
  constructor
  · have hsame : (disk.put temporary (.file part mode)) destination = disk destination :=
      put_of_ne hne.symm
    rw [hsame]
    exact h.destination
  · intro part' mode' hput hlength _
    have hself : (disk.put temporary (.file part mode)) temporary = some (.file part mode) :=
      put_self
    cases hself.symm.trans hput
    exact hpart.eq_of_length (hlength.trans hsize.symm)

theorem Installing.congr 
    (h : Installing restore entry destination temporary found content disk)
    (hdestination : disk' destination = disk destination)
    (htemporary : disk' temporary = disk temporary) :
    Installing restore entry destination temporary found content disk' := by
  constructor
  · rw [hdestination]
    exact h.destination
  · rw [htemporary]
    exact h.temporary

theorem installing_ignores {path : Path} (hdestination : path ≠ destination)
    (htemporary : path ≠ temporary) :
    Ignores (Installing restore entry destination temporary found content) path :=
  fun _ _ hsame h => h.congr (hsame _ hdestination.symm) (hsame _ htemporary.symm)

theorem complete_ignores {path : Path} (htemporary : path ≠ temporary) :
    Ignores (Complete temporary content) path := by
  rintro disk disk hsame ⟨mode, hmode⟩
  exact ⟨mode, (hsame _ htemporary.symm).trans hmode⟩

theorem Ignores.and {I J : Disk → Prop} {path : Path} (h : Ignores I path) (h' : Ignores J path) :
    Ignores (fun disk => I disk ∧ J disk) path :=
  fun disk disk' hsame hdisk => ⟨h disk disk' hsame hdisk.1, h' disk disk' hsame hdisk.2⟩

/-- The parts of a content that are written, the last one being all of it. -/
theorem getLast_inits (content : List UInt8) : content.inits.tail.getLast?.getD [] = content := by
  cases content with
  | nil => rfl
  | cons first rest =>
      have hlast : rest.inits.getLast? = some rest := by
        rw [List.inits_eq_tails, List.getLast?_reverse, List.head?_map]
        cases hrest : rest.reverse with
        | nil =>
            rw [List.reverse_eq_nil_iff] at hrest
            subst hrest
            rfl
        | cons last before =>
            rw [List.tails_cons, List.head?_cons, ← hrest]
            simp
      rw [List.inits_cons, List.tail_cons, List.getLast?_map, hlast]
      rfl

/-- Copying ends with the whole content. -/
theorem safe_copyInto (hne : temporary ≠ destination) (hsize : content.length = entry.size) :
    Safe (fun disk => Installing restore entry destination temporary found content disk ∧
        disk temporary = some (.file [] 384))
      (copyInto temporary content)
      (fun _ disk => Installing restore entry destination temporary found content disk ∧
        Complete temporary content disk)
      (Installing restore entry destination temporary found content) := by
  have hloop : ∀ (parts : List (List UInt8)) (first : List UInt8),
      (∀ part ∈ parts, part <+: content) →
      Safe (fun disk => Installing restore entry destination temporary found content disk ∧
          disk temporary = some (.file first 384))
        (forEach (fun part => effect fun disk => disk.put temporary (.file part 384)) parts)
        (fun _ disk => Installing restore entry destination temporary found content disk ∧
          disk temporary = some (.file (parts.getLast?.getD first) 384))
        (Installing restore entry destination temporary found content) := by
    intro parts
    induction parts with
    | nil => exact fun first _ => safe_done fun _ hs => hs
    | cons part rest ih =>
        intro first hparts
        have hlast : (part :: rest).getLast?.getD first = rest.getLast?.getD part := by
          cases rest with
          | nil => rfl
          | cons second rest => rw [List.getLast?_cons_cons]; rfl
        rw [hlast]
        apply Safe.bind (Q := fun _ disk =>
          Installing restore entry destination temporary found content disk ∧
            disk temporary = some (.file part 384))
        · apply safe_effect
          intro disk hs
          have hafter := @Installing.put_temporary _ _ _ _ _ _ _ hs.1 hne _ 384 (hparts part List.mem_cons_self) hsize
          exact ⟨⟨hafter, put_self⟩, hafter⟩
        · exact fun _ => ih part fun later hlater => hparts later (List.mem_cons_of_mem _ hlater)
  have hparts : ∀ part ∈ content.inits.tail, part <+: content := fun part hpart =>
    (List.mem_inits _ _).mp (List.mem_of_mem_tail hpart)
  refine (hloop content.inits.tail [] hparts).imp (fun _ hs => hs) ?_ fun _ hs => hs
  rintro _ disk ⟨hinstalling, htemporary⟩
  rw [getLast_inits] at htemporary
  exact ⟨hinstalling, 384, htemporary⟩

theorem safe_fill_installing (hne : temporary ≠ destination)
    (hobject : openVerifiedObject restore.platform restore.store entry.sha256 entry.size =
      .ok content) (hsize : content.length = entry.size) :
    Safe (fun disk => Installing restore entry destination temporary found content disk ∧
        (reusable = true → Complete temporary content disk))
      (fillTemporary restore entry temporary reusable)
      (fun _ disk => Installing restore entry destination temporary found content disk ∧
        Complete temporary content disk)
      (Installing restore entry destination temporary found content) := by
  unfold fillTemporary
  split
  · rename_i hreusable
    exact safe_done fun _ hs => ⟨hs.1, hs.2 hreusable⟩
  apply Safe.bind (Q := fun _ disk =>
    Installing restore entry destination temporary found content disk ∧
      disk temporary = some (.file [] 384))
  · apply safe_effect
    intro disk hs
    have hafter := @Installing.put_temporary _ _ _ _ _ _ _ hs.1 hne _ 384 (List.nil_prefix) hsize
    exact ⟨⟨hafter, put_self⟩, hafter⟩
  intro _
  apply Safe.bind (Q := fun copied disk =>
    (Installing restore entry destination temporary found content disk ∧
      disk temporary = some (.file [] 384)) ∧ copied = content)
  · apply safe_look
    · intro disk hs copied hcopied
      exact ⟨hs, Except.ok.inj (hcopied.symm.trans hobject)⟩
    · exact fun _ hs => hs.1
  intro copied
  by_cases hcopied : copied = content
  · subst hcopied
    exact (safe_copyInto hne hsize).imp (fun _ hs => hs.1) (fun _ _ hs => hs) fun _ hs => hs
  · exact fun _ hs => absurd hs.2 hcopied

theorem safe_unlink_installing (hne : temporary ≠ destination) :
    Safe (Installing restore entry destination temporary found content)
      (unlinkMissingOk temporary)
      (fun _ => Installing restore entry destination temporary found content)
      (Installing restore entry destination temporary found content) := by
  unfold unlinkMissingOk
  apply Safe.bind (Q := fun _ => Installing restore entry destination temporary found content)
  · exact safe_look (fun _ hs _ _ => hs) fun _ hs => hs
  intro node
  cases node with
  | none => exact safe_done fun _ hs => hs
  | some node =>
      apply safe_effect
      intro disk hs
      have hafter : Installing restore entry destination temporary found content
          (disk.unlink temporary) := by
        constructor
        · have hsame : (disk.unlink temporary) destination = disk destination :=
            unlink_of_ne hne.symm
          rw [hsame]
          exact hs.destination
        · intro part mode hpart
          have hnone : (disk.unlink temporary) temporary = none := unlink_self
          cases hnone.symm.trans hpart
      exact ⟨hafter, hafter⟩

/-- Restoring a file leaves at its destination what was there, or its content. -/
theorem safe_restoreManifestFile_installing
    (hrelative : validateInPlaceRestorePath entry.path = .ok relative)
    (hvalue : validateInPlaceRestorePath relative = .ok value)
    (hobject : openVerifiedObject restore.platform restore.store entry.sha256 entry.size =
      .ok content) (hsize : content.length = entry.size)
    (hne : temporaryOf (pathParts value) rootHash ≠ pathParts value) :
    Safe (Installing restore entry (pathParts value) (temporaryOf (pathParts value) rootHash)
        found content)
      (restoreManifestFile restore entry rootHash)
      (fun _ => Installing restore entry (pathParts value)
        (temporaryOf (pathParts value) rootHash) found content)
      (Installing restore entry (pathParts value) (temporaryOf (pathParts value) rootHash)
        found content) := by
  have hparents : ∀ value', validateInPlaceRestorePath relative = .ok value' →
      ∀ parent ∈ parents (pathParts value'), parent ≠ pathParts value ∧
        parent ≠ temporaryOf (pathParts value) rootHash := by
    intro value' hvalue' parent hparent
    cases hvalue.symm.trans hvalue'
    refine ⟨(mem_parents.mp hparent).2.2, ?_⟩
    rintro rfl
    exact withName_not_mem_parents hparent
  generalize htemporary : temporaryOf (pathParts value) rootHash = temporary at *
  generalize hdestination : pathParts value = destination at *
  unfold restoreManifestFile
  apply Safe.bind (Q := fun relative' disk =>
    Installing restore entry destination temporary found content disk ∧ relative' = relative)
  · apply safe_look
    · exact fun _ hs relative' h => ⟨hs, Except.ok.inj (h.symm.trans hrelative)⟩
    · exact fun _ hs => hs
  intro relative'
  by_cases hsame : relative' = relative
  swap
  · exact fun _ hs => absurd hs.2 hsame
  subst hsame
  apply Safe.bind ((safe_restoreParent fun value' hvalue' parent hparent =>
    installing_ignores (hparents value' hvalue' parent hparent).1
      (hparents value' hvalue' parent hparent).2).imp (fun _ hs => hs.1) (fun _ _ hs => hs)
        fun _ hs => hs)
  intro made
  by_cases hmade : made = destination
  swap
  · rintro disk ⟨-, value', hvalue', hmade'⟩
    cases hvalue.symm.trans hvalue'
    exact absurd (hmade'.trans hdestination) hmade
  subst hmade
  rw [htemporary]
  apply Safe.bind (Q := fun reusable disk =>
    Installing restore entry made temporary found content disk ∧
      (reusable = true → Complete temporary content disk))
  · apply safe_look
    · rintro disk ⟨hs, -⟩ reusable hreusable
      refine ⟨hs, ?_⟩
      rintro rfl
      unfold checkTemporary at hreusable
      split at hreusable
      · cases hreusable
      · rename_i part mode hpart
        split at hreusable
        · cases hreusable
        rename_i hcheck
        rw [not_or, not_not, not_not] at hcheck
        have hcontent := hs.temporary part mode hpart hcheck.2 hcheck.1
        exact ⟨mode, hcontent ▸ hpart⟩
      · cases hreusable
    · exact fun _ hs => hs.1
  intro reusable
  apply Safe.bind (Q := fun _ => Installing restore entry made temporary found content)
  · apply Safe.withCleanup (Q := fun _ => Installing restore entry made temporary found content)
    · apply Safe.bind (safe_fill_installing hne hobject hsize)
      intro _
      unfold commitTemporary
      apply Safe.bind (Q := fun _ disk =>
        Installing restore entry made temporary found content disk ∧
          Complete temporary content disk)
      · apply safe_effect
        rintro disk ⟨hs, mode, hmode⟩
        have hchmod : disk.chmod temporary entry.mode =
            disk.put temporary (.file content entry.mode) := by
          unfold Disk.chmod
          rw [hmode]
        rw [hchmod]
        have hafter := @Installing.put_temporary _ _ _ _ _ _ _ hs hne _ entry.mode (List.prefix_refl content) hsize
        exact ⟨⟨hafter, entry.mode, put_self⟩, hafter⟩
      intro _
      have hboth : ∀ value', validateInPlaceRestorePath relative' = .ok value' →
          ∀ parent ∈ parents (pathParts value'), Ignores (fun disk =>
            Installing restore entry made temporary found content disk ∧
              Complete temporary content disk) parent :=
        fun value' hvalue' parent hparent =>
          (installing_ignores (hparents value' hvalue' parent hparent).1
            (hparents value' hvalue' parent hparent).2).and
              (complete_ignores (hparents value' hvalue' parent hparent).2)
      apply Safe.bind ((safe_restoreParent hboth).imp (fun _ hs => hs) (fun _ _ hs => hs.1)
        fun _ hs => hs.1)
      intro checked
      split
      · exact safe_fail fun _ hs => hs.1
      apply safe_effect
      rintro disk ⟨hs, mode, hmode⟩
      have hafter : Installing restore entry made temporary found content
          (disk.replace temporary made) := by
        unfold Disk.replace
        rw [hmode]
        constructor
        · right
          exact ⟨mode, (unlink_of_ne hne.symm).trans put_self⟩
        · intro part mode' hput
          have hnone : ((disk.put made (.file content mode)).unlink temporary) temporary =
              none := unlink_self
          cases hnone.symm.trans hput
      exact ⟨hafter, hafter⟩
    · exact fun _ => safe_unlink_installing hne
    · exact safe_unlink_installing hne
    · exact fun _ _ hs => hs
  intro _
  exact safe_look (fun _ hs _ _ => hs) fun _ hs => hs

/-! ## Paths that are apart from the record -/

/-- The record's path. -/
def floorPath : Path := pathParts releaseSequenceFloor

theorem floorPath_eq : floorPath = [".silicon", "release-sequence-floor.json"] := by
  decide +kernel

theorem floor_validates :
    validateInPlaceRestorePath releaseSequenceFloor = .ok releaseSequenceFloor := by
  decide +kernel

theorem policy_parts : pathParts ".silicon/data-policy.json" = [".silicon", "data-policy.json"] := by
  decide +kernel

/-- The temporary file of the record. -/
theorem floorTemporary_eq (rootHash : String) : temporaryOf floorPath rootHash =
    [".silicon", temporaryName "release-sequence-floor.json" rootHash] := by
  rw [floorPath_eq]
  rfl

theorem temporaryName_toList (name rootHash : String) : (temporaryName name rootHash).toList =
    '.' :: (name.toList ++ (".silicon-restore-".toList ++ (rootHash.toList.take 16 ++
      ".partial".toList))) := by
  unfold temporaryName
  rw [String.toList_ofList]
  simp

theorem temporaryName_injective {name name' rootHash : String}
    (h : temporaryName name rootHash = temporaryName name' rootHash) : name = name' := by
  have hlists := congrArg String.toList h
  rw [temporaryName_toList, temporaryName_toList, List.cons.injEq] at hlists
  exact String.toList_injective (List.append_cancel_right hlists.2)

/-- A temporary file has another name than its destination. -/
theorem temporaryOf_ne (destination : Path) (rootHash : String) :
    temporaryOf destination rootHash ≠ destination := by
  apply withName_ne
  intro hsame
  have hlength := congrArg (fun name => name.toList.length) hsame
  simp only [temporaryName_toList, List.length_cons, List.length_append] at hlength
  omega

/-- Nothing but the record is restored at its path, at its temporary file or below them. -/
theorem apart_from_floor (hvalue : validateInPlaceRestorePath relative = .ok value) :
    (value ≠ releaseSequenceFloor → pathParts value ≠ floorPath) ∧
      pathParts value ≠ temporaryOf floorPath rootHash ∧
      floorPath ∉ parents (pathParts value) ∧
        temporaryOf floorPath rootHash ∉ parents (pathParts value) := by
  have hfloor : pathParts releaseSequenceFloor = [".silicon", "release-sequence-floor.json"] :=
    floorPath_eq
  have hname : ∀ name, temporaryName "release-sequence-floor.json" rootHash = name →
      name.toList.head? = some '.' ∧ 8 < name.toList.length := by
    rintro name rfl
    rw [temporaryName_toList]
    refine ⟨rfl, ?_⟩
    rw [List.length_cons, List.length_append, List.length_append]
    have hlong : "release-sequence-floor.json".toList.length = 27 := by decide
    omega
  have hbelow : ∀ name, [".silicon", name] ∈ parents (pathParts value) → name = "overlays" := by
    intro name hparent
    rcases mem_parents.mp hparent with ⟨⟨rest, hrest⟩, -, hne⟩
    rcases inPlace_parts hvalue hrest.symm with rfl | rfl | ⟨hoverlays, -⟩
    · rw [policy_parts] at hne hrest
      have hlength := congrArg List.length hrest
      simp only [List.length_append, List.length_cons, List.length_nil] at hlength
      rw [List.length_eq_zero_iff.mp (by omega : rest.length = 0), List.append_nil] at hrest
      exact absurd hrest hne
    · rw [hfloor] at hne hrest
      have hlength := congrArg List.length hrest
      simp only [List.length_append, List.length_cons, List.length_nil] at hlength
      rw [List.length_eq_zero_iff.mp (by omega : rest.length = 0), List.append_nil] at hrest
      exact absurd hrest hne
    · exact hoverlays
  refine ⟨?_, ?_, ?_, ?_⟩
  · intro hother hparts
    rw [floorPath_eq] at hparts
    rcases inPlace_parts hvalue hparts with rfl | hsame | ⟨hoverlays, -⟩
    · rw [policy_parts] at hparts
      exact absurd hparts (by decide)
    · exact hother hsame
    · exact absurd hoverlays (by decide)
  · intro hparts
    rw [floorTemporary_eq] at hparts
    rcases inPlace_parts hvalue hparts with rfl | rfl | ⟨-, hnil⟩
    · rw [policy_parts] at hparts
      have hdot := hname _ (List.cons.inj (List.cons.inj hparts).2).1.symm
      exact absurd hdot.1 (by decide)
    · rw [hfloor] at hparts
      have hdot := hname _ (List.cons.inj (List.cons.inj hparts).2).1.symm
      exact absurd hdot.1 (by decide)
    · exact hnil rfl
  · intro hparent
    rw [floorPath_eq] at hparent
    exact absurd (hbelow _ hparent) (by decide)
  · intro hparent
    rw [floorTemporary_eq] at hparent
    have hdot := hname _ (hbelow _ hparent)
    exact absurd hdot.1 (by decide)

/-- The temporary file of another path is not the record's, nor the record. -/
theorem temporary_apart_from_floor (h : destination ≠ floorPath) :
    temporaryOf destination rootHash ≠ floorPath ∧
      temporaryOf destination rootHash ≠ temporaryOf floorPath rootHash := by
  have hlast : temporaryOf destination rootHash =
      destination.dropLast ++ [temporaryName (fileName destination) rootHash] := rfl
  constructor
  · intro hsame
    rw [hlast, floorPath_eq] at hsame
    have hname := congrArg List.getLast? hsame
    rw [List.getLast?_concat] at hname
    have hsame : temporaryName (fileName destination) rootHash = "release-sequence-floor.json" :=
      Option.some.inj hname
    have hdot := congrArg (fun name => name.toList.head?) hsame
    simp only [temporaryName_toList, List.head?_cons] at hdot
    exact absurd hdot (by decide)
  · intro hsame
    rw [hlast, floorTemporary_eq] at hsame
    have hname := congrArg List.getLast? hsame
    rw [List.getLast?_concat] at hname
    have hfile := temporaryName_injective (Option.some.inj hname)
    have hinit := congrArg List.dropLast hsame
    rw [List.dropLast_concat] at hinit
    apply h
    rw [floorPath_eq]
    rcases List.eq_nil_or_concat destination with rfl | ⟨init, last, rfl⟩
    · exact absurd hfile (by decide)
    · rw [List.concat_eq_append] at hinit hfile ⊢
      rw [List.dropLast_concat] at hinit
      unfold fileName at hfile
      rw [List.getLast?_concat] at hfile
      rw [hinit]
      exact congrArg (fun name => [".silicon", name]) hfile

/-! ## One restore -/

variable {platform : Platform} {snapshot : Json} {manifest : Manifest} {store : Store}
  {floorPlan : Option ReleaseFloorPlan} {plan : ReleaseFloorPlan} {floor : Floor} {label label' : String}
   {parts parts' : Nat × Nat × Nat} {I : Disk → Prop} {operation : Operation} {dryRun : Bool} {raw : Json}

/-- A snapshot whose paths are the record's only if they are written so: a file's path is
validated twice more on the way to its destination, a tombstone's once. -/
structure Undisguised (manifest : Manifest) : Prop where
  files : ∀ entry ∈ manifest.body.files, ∀ relative,
    validateInPlaceRestorePath entry.path = .ok relative →
      validateInPlaceRestorePath relative = .ok releaseSequenceFloor →
        entry.path = releaseSequenceFloor
  tombstones : ∀ path ∈ manifest.body.tombstones,
    validateInPlaceRestorePath path = .ok releaseSequenceFloor → path = releaseSequenceFloor

/-- No file has the size and the hash of an object without its content. -/
def Told (platform : Platform) (store : Store) (disk : Disk) : Prop :=
  ∀ path part mode digest content, disk path = some (.file part mode) →
    store.objects.get? digest = some content → part.length = content.length →
      platform.py.sha256 part = platform.py.sha256 content → part = content

/-- A property of the record and its temporary file, and of nothing else. -/
def OfFloor (rootHash : String) (I : Disk → Prop) : Prop :=
  ∀ path, path ≠ floorPath → path ≠ temporaryOf floorPath rootHash → Ignores I path

theorem OfFloor.apart (h : OfFloor rootHash I)
    (hother : ∀ value, validateInPlaceRestorePath relative = .ok value →
      value ≠ releaseSequenceFloor) : Apart I relative rootHash := by
  intro value hvalue
  rcases @apart_from_floor rootHash _ _ hvalue with ⟨hne, htemporary, hparent, hparent'⟩
  have hdestination := hne (hother value hvalue)
  refine ⟨h _ hdestination htemporary, ?_, ?_⟩
  · intro parent hmem
    apply h
    · rintro rfl
      exact hparent hmem
    · rintro rfl
      exact hparent' hmem
  · rcases @temporary_apart_from_floor rootHash _ hdestination with ⟨hfirst, hsecond⟩
    exact h _ hfirst hsecond

theorem OfFloor.parents (h : OfFloor rootHash I)
    (hvalue : validateInPlaceRestorePath relative = .ok value) :
    ∀ parent ∈ parents (pathParts value), Ignores I parent := by
  intro parent hmem
  rcases @apart_from_floor rootHash _ _ hvalue with ⟨-, -, hparent, hparent'⟩
  apply h
  · rintro rfl
    exact hparent hmem
  · rintro rfl
    exact hparent' hmem

/-- Operations on other paths keep the record. -/
theorem OfFloor.keeps_operation (h : OfFloor rootHash I) (hundisguised : Undisguised manifest)
    (hmem : operation ∈ operationsOf manifest)
    (hother : ∀ entry, operation = .file entry → entry.path ≠ releaseSequenceFloor) :
    Safe I (runOperation restore floorPlan rootHash operation) (fun _ => I) I := by
  cases operation with
  | file entry =>
      have hentry : entry ∈ manifest.body.files := by
        unfold operationsOf at hmem
        simpa using hmem
      have hpath := hother entry rfl
      simp only [runOperation, if_neg hpath]
      apply safe_restoreManifestFile
      intro relative hrelative
      apply h.apart
      rintro value hvalue rfl
      exact hpath (hundisguised.files entry hentry relative hrelative hvalue)
  | tombstone path =>
      have hpath : path ∈ manifest.body.tombstones := by
        unfold operationsOf at hmem
        simpa using hmem
      simp only [runOperation]
      split
      · exact safe_done fun _ hs => hs
      rename_i hne
      apply safe_restoreManifestTombstone
      intro value hvalue
      rcases @apart_from_floor rootHash _ _ hvalue with ⟨hdestination, htemporary, -, -⟩
      apply h _ (hdestination ?_) htemporary
      rintro rfl
      exact hne (hundisguised.tombstones path hpath hvalue)

/-- The label of a record only shows in errors. -/
theorem decodeFloor_label (h : decodeFloor platform label content = .ok floor) :
    decodeFloor platform label' content = .ok floor := by
  unfold decodeFloor at h ⊢
  split at h
  · cases h
  rename_i value hvalue
  split at h
  · cases h
  rename_i hobj
  rw [if_neg hobj]
  unfold validateReleaseSequenceFloor at h ⊢
  simp only at h ⊢
  split at h
  · rename_i sequence treeSha256 _ _
    split at h
    · cases h
    rename_i hfields
    split at h
    · cases h
    rename_i htrust
    rw [if_neg hfields, if_neg htrust]
    exact h
  · cases h

/-- A snapshot's record that could be read is one that a disk can have. -/
theorem snapshotFloor_content
    (h : readSnapshotReleaseSequenceFloor platform store entry = .ok floor) :
    ∃ content, openVerifiedObject platform store entry.sha256 entry.size = .ok content ∧
      content.length = entry.size ∧ ∀ disk mode,
        disk floorPath = some (.file content mode) → recorded platform disk = some floor := by
  unfold readSnapshotReleaseSequenceFloor at h
  split at h
  · cases h
  rename_i hbounds
  split at h
  · cases h
  rename_i content hcontent
  have hlength : content.length = entry.size := by
    unfold openVerifiedObject at hcontent
    split at hcontent
    · cases hcontent
    split at hcontent
    · cases hcontent
    rename_i hsize
    split at hcontent
    · cases hcontent
    · cases hcontent
      exact not_not.mp hsize
  refine ⟨content, hcontent, hlength, ?_⟩
  intro disk mode hdisk
  have hread : readLocalReleaseSequenceFloor platform disk = .ok (some floor) := by
    unfold readLocalReleaseSequenceFloor
    unfold floorPath at hdisk
    rw [hdisk]
    simp only
    rw [if_neg, decodeFloor_label h]
    · rfl
    · rw [not_or] at hbounds ⊢
      refine ⟨?_, hlength ▸ hbounds.2⟩
      rintro rfl
      exact hbounds.1 hlength.symm
  unfold recorded
  rw [hread]

/-- The plan of a restore has the snapshot's record. -/
theorem planReleaseFloor_ok {disk : Disk} {files : List FileEntry}
    (h : planReleaseFloor platform disk store files = .ok floorPlan)
    (hentry : floorEntry files = some entry) :
    ∃ floor plan, readSnapshotReleaseSequenceFloor platform store entry = .ok floor ∧
      floorPlan = some plan ∧ plan.snapshot = some (entry, floor) := by
  unfold planReleaseFloor at h
  simp only [bind, Except.bind] at h
  split at h
  · cases h
  rename_i current _
  split at h
  · cases h
  rename_i snapshot hsnapshot
  unfold snapshotFloor at hsnapshot
  simp only [hentry] at hsnapshot
  split at hsnapshot
  · cases hsnapshot
  rename_i floor hfloor
  cases hsnapshot
  cases current with
  | none =>
      cases h
      exact ⟨floor, _, hfloor, rfl, rfl⟩
  | some current =>
      simp only at h
      split at h
      · cases h
      · cases h
        exact ⟨floor, _, hfloor, rfl, rfl⟩

/-- The record of a disk is as it was, or the snapshot's newer one. -/
structure Recording (restore : Restore) (entry : FileEntry) (rootHash : String) (floor : Floor)
    (content : List UInt8) (before disk : Disk) : Prop where
  installing : Installing restore entry floorPath (temporaryOf floorPath rootHash)
    (before floorPath) content disk
  newer : disk floorPath = before floorPath ∨
    ∀ current, recorded restore.platform before = some current →
      current.sequence < floor.sequence

theorem recording_ofFloor {before : Disk} :
    OfFloor rootHash (Recording restore entry rootHash floor content before) := by
  intro path hpath htemporary disk disk' hsame h
  constructor
  · exact h.installing.congr (hsame _ hpath.symm) (hsame _ htemporary.symm)
  · rw [hsame _ hpath.symm]
    exact h.newer

theorem recorded_congr (h : disk' floorPath = disk floorPath) :
    recorded platform disk' = recorded platform disk := by
  unfold recorded readLocalReleaseSequenceFloor
  unfold floorPath at h
  rw [h]

/-- The record is only restored over an older one. -/
theorem safe_restoreReleaseFloor {before : Disk} (hpath : entry.path = releaseSequenceFloor)
    (hplan : plan.snapshot = some (entry, floor))
    (hobject : openVerifiedObject restore.platform restore.store entry.sha256 entry.size =
      .ok content) (hsize : content.length = entry.size)
    (hread : ∀ disk mode, disk floorPath = some (.file content mode) →
      recorded restore.platform disk = some floor) :
    Safe (Recording restore entry rootHash floor content before)
      (restoreReleaseFloor restore plan rootHash)
      (fun _ => Recording restore entry rootHash floor content before)
      (Recording restore entry rootHash floor content before) := by
  have hvalid : validateInPlaceRestorePath entry.path = .ok releaseSequenceFloor := by
    rw [hpath]
    exact floor_validates
  have hfile : (∀ current, recorded restore.platform before = some current →
      current.sequence < floor.sequence) →
      Safe (Recording restore entry rootHash floor content before)
        (restoreManifestFile restore entry rootHash)
        (fun _ => Recording restore entry rootHash floor content before)
        (Recording restore entry rootHash floor content before) := by
    intro hnewer
    exact (safe_restoreManifestFile_installing hvalid floor_validates hobject hsize
      (temporaryOf_ne _ _)).imp (fun _ hs => hs.installing) (fun _ _ hs => ⟨hs, .inr hnewer⟩)
        fun _ hs => ⟨hs, .inr hnewer⟩
  unfold restoreReleaseFloor
  rw [hplan]
  apply Safe.bind (Q := fun current disk =>
    Recording restore entry rootHash floor content before disk ∧
      recorded restore.platform disk = current)
  · apply safe_look
    · intro disk hs current hcurrent
      refine ⟨hs, ?_⟩
      unfold recorded
      rw [hcurrent]
    · exact fun _ hs => hs
  intro current
  have hcases : ∀ disk, Recording restore entry rootHash floor content before disk ∧
      recorded restore.platform disk = current →
        recorded restore.platform before = current ∨ current = some floor := by
    rintro disk ⟨hs, hcurrent⟩
    rcases hs.installing.destination with hsame | ⟨mode, hmode⟩
    · exact .inl ((recorded_congr hsame).symm.trans hcurrent)
    · exact .inr (hcurrent.symm.trans (hread disk mode hmode))
  cases current with
  | none =>
      intro disk hs
      refine hfile ?_ disk hs.1
      intro found hfound
      rcases hcases disk hs with hnone | hsome
      · cases hfound.symm.trans hnone
      · cases hsome
  | some current =>
      simp only
      split
      · exact safe_fail fun _ hs => hs.1
      split
      · exact safe_done fun _ hs => hs.1
      rename_i hless
      intro disk hs
      refine hfile ?_ disk hs.1
      intro found hfound
      rcases hcases disk hs with hsame | hsome
      · cases hfound.symm.trans hsame
        omega
      · cases hsome
        omega

/-- One restore, wherever it is cut off, keeps the record or puts a newer one in its place. -/
theorem leaves_advances {root root' : Root} (h : Leaves (restoreInPlace restore raw dryRun) root root')
    (htold : Told restore.platform restore.store root.disk)
    (hundisguised : ∀ manifest, validateManifest restore.platform raw = .ok manifest →
      Undisguised manifest) :
    Advances (recorded restore.platform root.disk) (recorded restore.platform root'.disk) := by
  rcases leaves_restoreInPlace h with rfl | ⟨manifest, floorPlan, next, created, hprepared, hleaves⟩
  · exact .refl _
  unfold prepare at hprepared
  simp only [bind, Except.bind] at hprepared
  split at hprepared
  · cases hprepared
  split at hprepared
  · cases hprepared
  rename_i found hfound
  split at hprepared
  · cases hprepared
  split at hprepared
  · cases hprepared
  rename_i plan hplan
  cases hprepared
  have hpaths := hundisguised _ (verifyLocalSnapshot_ok hfound).1
  cases hentry : floorEntry manifest.body.files with
  | none =>
      -- The snapshot has no record.
      have hnone : ∀ entry ∈ manifest.body.files, entry.path ≠ releaseSequenceFloor := by
        unfold floorEntry at hentry
        rw [List.find?_eq_none] at hentry
        intro entry hmem
        simpa using hentry entry hmem
      have hof : OfFloor manifest.rootHash (Holding floorPath (root.disk floorPath)) :=
        fun path hne _ => holding_ignores hne.symm
      have hkept := (@safe_applySnapshot restore _ _ floorPlan next created)
        (fun operation hmem => hof.keeps_operation hpaths hmem (by
          rintro entry rfl
          apply hnone
          unfold operationsOf at hmem
          simpa using hmem))
        (fun _ _ hvalue => hof.parents hvalue)
      have hsame := hkept.leaves rfl rfl (fun _ _ hs => hs) hleaves
      rw [recorded_congr hsame]
      exact .refl _
  | some entry =>
      rcases planReleaseFloor_ok hplan hentry with ⟨floor, plan, hfloor, rfl, hsnapshot⟩
      rcases snapshotFloor_content hfloor with ⟨content, hobject, hsize, hread⟩
      have hpath : entry.path = releaseSequenceFloor := by
        have hfind := List.find?_some hentry
        simpa using hfind
      have hof := @recording_ofFloor restore entry manifest.rootHash content floor root.disk
      have hkept := (@safe_applySnapshot restore
        (Recording restore entry manifest.rootHash floor content root.disk) manifest (some plan)
        next created)
        (by
          intro operation hmem
          by_cases hrecord : ∃ other, operation = .file other ∧ other.path = releaseSequenceFloor
          · rcases hrecord with ⟨other, rfl, hother⟩
            simp only [runOperation, if_pos hother]
            exact safe_restoreReleaseFloor hpath hsnapshot hobject hsize hread
          · apply hof.keeps_operation hpaths hmem
            rintro other rfl hother
            exact hrecord ⟨other, rfl, hother⟩)
        (fun _ _ hvalue => hof.parents hvalue)
      have hstart : Recording restore entry manifest.rootHash floor content root.disk
          root.disk := by
        refine ⟨⟨.inl rfl, ?_⟩, .inl rfl⟩
        intro part mode hpart hlength hhash
        unfold openVerifiedObject at hobject
        split at hobject
        · cases hobject
        rename_i bytes hbytes
        split at hobject
        · cases hobject
        split at hobject
        · cases hobject
        rename_i hdigest
        cases hobject
        rw [not_not] at hdigest
        exact htold _ part mode _ content hpart hbytes (hlength.trans hsize.symm)
          (hhash.trans hdigest.symm)
      have hend := hkept.leaves hstart hstart (fun _ _ hs => hs) hleaves
      rcases hend.newer with hsame | hnewer
      · rw [recorded_congr hsame]
        exact .refl _
      rcases hend.installing.destination with hsame | ⟨mode, hmode⟩
      · rw [recorded_congr hsame]
        exact .refl _
      · intro current hcurrent
        exact ⟨floor, hread root'.disk mode hmode, .inr (hnewer current hcurrent)⟩

/-! ## Any number of restores -/

/-- A restore in place of a snapshot. -/
structure RestoreEvent where
  restore : Restore
  snapshot : Json
  dryRun : Bool

/-- The restores of one root, each of which may be cut off anywhere. -/
def restores (platform : Platform) : TransitionSystem Root RestoreEvent where
  init _ := True
  step root event root' := event.restore.platform = platform ∧
    Leaves (restoreInPlace event.restore event.snapshot event.dryRun) root root'

/-- The hash tells the files of the root from the objects, and the snapshot's paths are the
record's only if they are written so. -/
def Trusted (platform : Platform) (root : Root) (event : RestoreEvent) : Prop :=
  Told platform event.restore.store root.disk ∧
    ∀ manifest, validateManifest platform event.snapshot = .ok manifest → Undisguised manifest

/-- A record of a release that a version names. -/
def IsGitRecord (value : Json) (floor : Floor) (parts : Nat × Nat × Nat) : Prop :=
  (∃ label, validateReleaseSequenceFloor label value = .ok floor) ∧
    isSchemaTwo (value.get "schema") = true ∧ value.get "trust" = .str "git-semver-tag" ∧
      ∃ version, value.get "version" = .str version ∧ releaseVersion version = some parts

theorem IsGitRecord.sequence (h : IsGitRecord raw floor parts) :
    floor.sequence = packedSequence parts := by
  rcases h with ⟨⟨label, hvalid⟩, hschema, htrust, version, hversion, hparts⟩
  rcases validate_git hvalid htrust hschema with ⟨version', parts', hversion', hparts', hsame⟩
  cases hversion.symm.trans hversion'
  cases hparts.symm.trans hparts'
  exact hsame

/-- The record only advances, and records of versions are ordered as the versions. -/
theorem floor_law {before after : Root} {events : List RestoreEvent}
    (hrun : ((restores platform).restrict (Trusted platform)).Run before events after) :
    Advances (recorded platform before.disk) (recorded platform after.disk) ∧
      ∀ value value' floor floor' parts parts', IsGitRecord value floor parts →
        IsGitRecord value' floor' parts' →
          (floor.sequence < floor'.sequence ↔ versionBefore parts parts') := by
  constructor
  · induction hrun with
    | nil => exact .refl _
    | cons hstep _ ih =>
        rcases hstep with ⟨⟨htold, hpaths⟩, rfl, hleaves⟩
        exact (leaves_advances hleaves htold hpaths).trans ih
  · intro value value' floor floor' parts parts' h h'
    rw [h.sequence, h'.sequence]
    rcases h with ⟨-, -, -, version, -, hparts⟩
    rcases h' with ⟨-, -, -, version', -, hparts'⟩
    exact packedSequence_lt_iff hparts hparts'

/-! ## A disguised path -/

/-- A record of the fifth release. -/
def sampleRecord : Json :=
  .obj [("schema", .int 1), ("sequence", .int 5),
    ("tree_sha256", .str "aaaaaaaaaaaaaaaaaaaaaaaaaaaaaaaaaaaaaaaaaaaaaaaaaaaaaaaaaaaaaaaa"),
    ("recorded_at", .int 1)]

def sampleRecordText : List UInt8 :=
  ("\x7b\"schema\": 1, \"sequence\": 5, \"tree_sha256\": " ++
    "\"aaaaaaaaaaaaaaaaaaaaaaaaaaaaaaaaaaaaaaaaaaaaaaaaaaaaaaaaaaaaaaaa\", " ++
    "\"recorded_at\": 1\x7d").toList.map fun c => UInt8.ofNat c.toNat

/-- The canonical JSON of a body with the record's path behind a blank as its tombstone. -/
def disguisedText : List UInt8 :=
  ("\x7b\"files\":[],\"release_id\":\"v1\",\"schema\":1," ++
    "\"tombstones\":[\" .silicon/release-sequence-floor.json\"]\x7d").toList.map
      fun c => UInt8.ofNat c.toNat

def disguisedHash : String := "9502ab55498e1040ae5a0cdce7733ec962b9893d3a7d485a45748e00623031c8"

theorem isDigest_disguised (bytes : List UInt8) :
    isDigest (if bytes = disguisedText then disguisedHash else storePlatform.py.sha256 bytes) =
      true := by
  split
  · decide +kernel
  · exact isDigest_hash bytes

/-- Python and JSON on this record and the bodies. -/
def recordPlatform : Platform where
  py :=
    { storePlatform.py with
      loads := fun bytes => if bytes = sampleRecordText then some sampleRecord else none
      sha256 := fun bytes =>
        if bytes = disguisedText then disguisedHash else storePlatform.py.sha256 bytes
      sha256_length := fun bytes => by
        have hdigest := isDigest_disguised bytes
        unfold isDigest at hdigest
        rw [Bool.and_eq_true, decide_eq_true_eq] at hdigest
        exact hdigest.1
      sha256_hex := fun bytes c hc => by
        have hdigest := isDigest_disguised bytes
        unfold isDigest at hdigest
        rw [Bool.and_eq_true, List.all_eq_true] at hdigest
        exact of_decide_eq_true (hdigest.2 c hc) }
  casefold := id
  canonicalJson := fun value =>
    if (value.get "tombstones").items.isEmpty then noFilesText else disguisedText

/-- A root that has recorded its release. -/
def recordedRoot : Root where
  disk := fun path =>
    if path = [".silicon"] ∨ path = [".silicon", "snapshots"] then some .dir
    else if path = [".silicon", "release-sequence-floor.json"] then
      some (.file sampleRecordText 384)
    else none
  restoreJournal := none
  lastRestored := none
  leftovers := []

def sampleRestore : Restore :=
  ⟨recordPlatform, Store.empty, defaultLimits, .int 1⟩

/-- A snapshot without files whose tombstone is brought into the record's path when it is
removed. -/
def disguisedSnapshot : Json :=
  Manifest.toJson ⟨⟨"v1", [], ["./ ./ .silicon/release-sequence-floor.json"]⟩, disguisedHash⟩

/-- The restore of that snapshot removes the record. -/
theorem floor_lowered :
    ¬ ∀ platform before events after, (restores platform).Run before events after →
      Advances (recorded platform before.disk) (recorded platform after.disk) := by
  intro hclaim
  have hrun : (restores recordPlatform).Run recordedRoot
      [⟨sampleRestore, disguisedSnapshot, false⟩]
        (restoreInPlace sampleRestore disguisedSnapshot false recordedRoot).final :=
    .single ⟨rfl, .inr (.inr rfl)⟩
  have hbefore : recorded recordPlatform recordedRoot.disk = some
      ⟨5, "aaaaaaaaaaaaaaaaaaaaaaaaaaaaaaaaaaaaaaaaaaaaaaaaaaaaaaaaaaaaaaaa"⟩ := by
    decide +kernel
  have hafter : recorded recordPlatform
      (restoreInPlace sampleRestore disguisedSnapshot false recordedRoot).final.disk = none := by
    decide +kernel
  rcases hclaim _ _ _ _ hrun _ hbefore with ⟨floor, hfloor, -⟩
  exact nomatch hafter.symm.trans hfloor

/-- A snapshot without files and tombstones. -/
def emptySnapshot : Json :=
  Manifest.toJson ⟨⟨"v2", [], []⟩, noFilesHash⟩

/-- The restore of the empty snapshot keeps the record. -/
theorem floor_law_empty :
    Advances (recorded recordPlatform recordedRoot.disk) (recorded recordPlatform
      (restoreInPlace sampleRestore emptySnapshot false recordedRoot).final.disk) := by
  have htrusted : Trusted recordPlatform recordedRoot ⟨sampleRestore, emptySnapshot, false⟩ := by
    refine ⟨fun _ _ _ _ _ _ h => (nomatch h), ?_⟩
    intro manifest hmanifest
    have hok : validateManifest recordPlatform emptySnapshot =
        .ok ⟨⟨"v2", [], []⟩, noFilesHash⟩ := by
      decide +kernel
    cases hok.symm.trans hmanifest
    exact ⟨fun _ hmem => (nomatch hmem), fun _ hmem => (nomatch hmem)⟩
  have hrun : ((restores recordPlatform).restrict (Trusted recordPlatform)).Run recordedRoot
      [⟨sampleRestore, emptySnapshot, false⟩]
        (restoreInPlace sampleRestore emptySnapshot false recordedRoot).final :=
    .single ⟨htrusted, rfl, .inr (.inr rfl)⟩
  exact (floor_law hrun).1

end Backup
end Stemcell
