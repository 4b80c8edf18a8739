import Mathlib.Data.List.Infix
import Stemcell.Backup.Snapshot
import Stemcell.Lib.Actions

/-!
# Restoring in place

A restore in place writes the files of a snapshot into a living root and removes its
tombstones, one after the other.  A journal says how far it has come, so that a restore that was
cut off is taken up where it stopped.

Main results:

- Definition `restoreInPlace`: the restore with every state that a crash can leave.
- Theorem `safe_restoreManifestFile`: what restoring a file does not touch.

Current gaps:

- The journal and the note of the last restore stand beside the other files, as the values that
  they hold, and a time in them is kept as it was written.
- The locks, the checks of the root itself and errors of the file system are not modelled.
-/

namespace Stemcell
namespace Backup

open Interface (Json)
open Lib Action

/-- A root: its files, the journal of the restore and the note of the last one, `none` inside
standing for one that cannot be read, and the temporary files of these two. -/
structure Root where
  disk : Disk
  restoreJournal : Option (Option Json)
  lastRestored : Option (Option Json)
  leftovers : List (List UInt8)

/-- What a restore is given: the store, the limits and the time. -/
structure Restore where
  platform : Platform
  store : Store
  limits : SnapshotLimits
  now : Json

/-- `RestorePlan`, without its target. -/
structure RestorePlan where
  rootHash : String
  releaseId : String
  files : List String
  tombstones : List String
  totalSize : Nat
  dryRun : Bool
deriving DecidableEq, Repr

/-! ## Files -/

/-- `_validate_in_place_restore_path`. -/
def validateInPlaceRestorePath (relative : String) : Except String String :=
  match validateRelativePath relative with
  | .error error => .error error
  | .ok value =>
      if ".silicon/".toList.isPrefixOf value.toList && !(value = ".silicon/data-policy.json" ||
          value = releaseSequenceFloor || ".silicon/overlays/".toList.isPrefixOf value.toList) then
        .error s!"Snapshot attempts to restore updater/runtime state: {value}"
      else .ok value

/-- `os.chmod(path, mode)`. -/
def Disk.chmod (disk : Disk) (path : Path) (mode : Nat) : Disk :=
  match disk path with
  | some (.file content _) => disk.put path (.file content mode)
  | _ => disk

/-- `os.replace(source, destination)`. -/
def Disk.replace (disk : Disk) (source destination : Path) : Disk :=
  match disk source with
  | some node => (disk.put destination node).unlink source
  | none => disk

/-- One directory of `_restore_parent`. -/
def makeParent (candidate : Path) : Action Disk Unit := do
  match ← look fun disk => .ok (disk candidate) with
  | none => effect fun disk => disk.put candidate .dir
  | some .dir => done ()
  | some _ => fail "Restore parent must be a real directory"

/-- A destination that a file can be put at. -/
def checkDestination (destination : Path) (disk : Disk) : Except String Unit :=
  match disk destination with
  | none => .ok ()
  | some (.file _ _) => .ok ()
  | some _ => .error "Restore destination must be a regular file"

/-- `_restore_parent`, with the destination. -/
def restoreParent (relative : String) : Action Disk Path := do
  let value ← look fun _ => validateInPlaceRestorePath relative
  forEach makeParent (parents (pathParts value))
  look (checkDestination (pathParts value))
  return pathParts value

/-- The name of the temporary file of a destination. -/
def temporaryName (name rootHash : String) : String :=
  String.ofList (['.'] ++ name.toList ++ ".silicon-restore-".toList ++ rootHash.toList.take 16 ++
    ".partial".toList)

def temporaryOf (destination : Path) (rootHash : String) : Path :=
  withName destination (temporaryName (fileName destination) rootHash)

/-- `shutil.copyfileobj`, into a file that was created. -/
def copyInto (temporary : Path) (content : List UInt8) : Action Disk Unit :=
  forEach (fun part => effect fun disk => disk.put temporary (.file part 384)) content.inits.tail

/-- `path.unlink(missing_ok=True)`. -/
def unlinkMissingOk (path : Path) : Action Disk Unit := do
  match ← look fun disk => .ok (disk path) with
  | none => done ()
  | some _ => effect fun disk => disk.unlink path

section Restoring

variable (restore : Restore)

/-- A temporary file that an earlier restore has left complete can be used. -/
def checkTemporary (entry : FileEntry) (temporary : Path) (disk : Disk) : Except String Bool :=
  match disk temporary with
  | none => .ok false
  | some (.file content _) =>
      if restore.platform.py.sha256 content ≠ entry.sha256 ∨ content.length ≠ entry.size then
        .error "Refusing to replace an unknown restore temporary"
      else .ok true
  | some _ => .error "Restore temporary must be a regular file"

/-- The content and the mode of a file. -/
def checkRestored (entry : FileEntry) (destination : Path) (disk : Disk) : Except String Unit :=
  match disk destination with
  | some (.file content mode) =>
      if restore.platform.py.sha256 content ≠ entry.sha256 ∨ content.length ≠ entry.size ∨
          mode ≠ entry.mode then
        .error "In-place restored file failed verification"
      else .ok ()
  | _ => .error "Missing snapshot object"

/-- The temporary file is filled, unless it can be used as it is. -/
def fillTemporary (entry : FileEntry) (temporary : Path) (reusable : Bool) : Action Disk Unit :=
  if reusable then done ()
  else do
    effect fun disk => disk.put temporary (.file [] 384)
    let content ← look fun _ =>
      openVerifiedObject restore.platform restore.store entry.sha256 entry.size
    copyInto temporary content

/-- The temporary file takes the place of the destination. -/
def commitTemporary (entry : FileEntry) (relative : String) (temporary destination : Path) :
    Action Disk Unit := do
  effect fun disk => disk.chmod temporary entry.mode
  let checked ← restoreParent relative
  if checked ≠ destination then fail "Restore destination changed during commit"
  else effect fun disk => disk.replace temporary destination

/-- `_restore_manifest_file`. -/
def restoreManifestFile (entry : FileEntry) (rootHash : String) : Action Disk Unit := do
  let relative ← look fun _ => validateInPlaceRestorePath entry.path
  let destination ← restoreParent relative
  let temporary := temporaryOf destination rootHash
  let reusable ← look (checkTemporary restore entry temporary)
  withCleanup (do
      fillTemporary restore entry temporary reusable
      commitTemporary entry relative temporary destination)
    (unlinkMissingOk temporary)
  look (checkRestored restore entry destination)

/-! ## Tombstones -/

/-- Whether all directories on the way are there. -/
def reaches (disk : Disk) : List Path → Except String Bool
  | [] => .ok true
  | candidate :: rest =>
      match disk candidate with
      | none => .ok false
      | some .dir => reaches disk rest
      | some _ => .error "Restore tombstone parent must be a real directory"

/-- `_restore_tombstone_destination`. -/
def tombstoneDestination (relative : String) (disk : Disk) : Except String (Option Path) := do
  let value ← validateInPlaceRestorePath relative
  let reached ← reaches disk (parents (pathParts value))
  return if reached then some (pathParts value) else none

/-- `_restore_manifest_tombstone`. -/
def restoreManifestTombstone (relative : String) : Action Disk Unit := do
  match ← look (tombstoneDestination relative) with
  | none => done ()
  | some destination =>
      match ← look fun disk => .ok (disk destination) with
      | none => done ()
      | some (.file _ _) => effect fun disk => disk.unlink destination
      | some _ => fail "Refusing to remove a non-regular restore tombstone"

/-! ## Operations -/

/-- `_restore_release_sequence_floor`. -/
def restoreReleaseFloor (plan : ReleaseFloorPlan) (rootHash : String) : Action Disk Unit :=
  match plan.snapshot with
  | none => done ()
  | some (entry, floor) => do
      match ← look fun disk => readLocalReleaseSequenceFloor restore.platform disk with
      | none => restoreManifestFile restore entry rootHash
      | some current =>
          if current.conflicts floor then
            fail ("Release sequence floor reuses one sequence for different " ++
              "immutable release trees.")
          else if floor.sequence ≤ current.sequence then done ()
          else restoreManifestFile restore entry rootHash

inductive Operation
  | file (entry : FileEntry)
  | tombstone (path : String)
deriving DecidableEq, Repr

/-- One operation of the loop. -/
def runOperation (floorPlan : Option ReleaseFloorPlan) (rootHash : String) :
    Operation → Action Disk Unit
  | .file entry =>
      if entry.path = releaseSequenceFloor then
        match floorPlan with
        | none => fail "Release sequence floor restore plan is missing."
        | some plan => restoreReleaseFloor restore plan rootHash
      else restoreManifestFile restore entry rootHash
  | .tombstone path =>
      if path = releaseSequenceFloor then done () else restoreManifestTombstone path

/-! ## The journal -/

/-- `_write_restore_journal`: the value is written to a new file, which takes the place of the
old one. -/
def atomicWrite (value : Json) (install : Root → Root) : Action Root Unit := do
  effect fun root => { root with leftovers := [] :: root.leftovers }
  effect fun root =>
    { root with leftovers := (restore.platform.canonicalJson value ++ [10]) :: root.leftovers.tail }
  effect fun root => install { root with leftovers := root.leftovers.tail }

def writeRestoreJournal (value : Json) : Action Root Unit :=
  atomicWrite restore value fun root => { root with restoreJournal := some (some value) }

def writeLastRestored (value : Json) : Action Root Unit :=
  atomicWrite restore value fun root => { root with lastRestored := some (some value) }

/-- The journal while the operations are done. -/
def applyingJournal (plan : RestorePlan) (count : Nat) (created : Json) (next : Nat) : Json :=
  .obj [("schema", .int 1), ("root_hash", .str plan.rootHash),
    ("release_id", .str plan.releaseId), ("state", .str "APPLYING"),
    ("operation_count", .int count), ("next_operation", .int next), ("created_at", created),
    ("updated_at", restore.now)]

/-- The journal of a restore that was verified. -/
def committedJournal (plan : RestorePlan) (count : Nat) (created : Json) : Json :=
  .obj [("schema", .int 1), ("root_hash", .str plan.rootHash),
    ("release_id", .str plan.releaseId), ("state", .str "COMMITTED"),
    ("operation_count", .int count), ("next_operation", .int count), ("created_at", created),
    ("verified_root_hash", .str plan.rootHash), ("committed_at", restore.now),
    ("updated_at", restore.now)]

def latestNote (plan : RestorePlan) : Json :=
  .obj [("schema", .int 1), ("root_hash", .str plan.rootHash),
    ("verified_root_hash", .str plan.rootHash), ("release_id", .str plan.releaseId),
    ("file_count", .int plan.files.length), ("tombstone_count", .int plan.tombstones.length),
    ("committed_at", restore.now)]

/-- `_read_restore_journal`. -/
def readRestoreJournal (root : Root) : Except String (Option Json) :=
  match root.restoreJournal with
  | none => .ok none
  | some none => .error "Could not read in-place restore journal"
  | some (some value) =>
      if !value.isObj then .error "The in-place restore journal must be a JSON object."
      else .ok (some value)

/-- A number greater than zero, or none at all. -/
def isAboveZero : Json → Bool
  | .int value => 0 < value ∧ value < 2 ^ 1024 - 2 ^ 970
  | .float text zero => !zero && !("-".toList.isPrefixOf text.toList)
  | _ => false

/-- Equal texts or equal numbers. -/
def sameValue : Json → Json → Bool
  | .str text, .str text' => text = text'
  | .int value, .int value' => value = value'
  | _, _ => false

/-- The fields that every journal has. -/
def journalFields (existing : Json) : Bool :=
  isSchema (existing.get "schema") && isOneOf ["APPLYING", "COMMITTED"] (existing.get "state") &&
    isDigest (textOrEmpty restore.platform (existing.get "root_hash")) &&
    textOrEmpty restore.platform (existing.get "release_id") ≠ "" &&
    (match naturalOf (existing.get "next_operation"),
        naturalOf (existing.get "operation_count") with
      | some next, some count => decide (next ≤ count)
      | _, _ => false) &&
    isAboveZero (existing.get "created_at")

/-- The fields of a journal that is done. -/
def committedFields (existing : Json) : Bool :=
  sameValue (existing.get "verified_root_hash") (existing.get "root_hash") &&
    naturalOf (existing.get "next_operation") = naturalOf (existing.get "operation_count") &&
    isAboveZero (existing.get "committed_at")

/-- The journal is of this snapshot, or of another one. -/
def matchesPlan (existing : Json) (plan : RestorePlan) (count : Nat) : Bool :=
  textOf (existing.get "release_id") = some plan.releaseId &&
    naturalOf (existing.get "operation_count") = some count

/-- Where the operations start, and when the restore began. -/
def resumeAt (existing : Option Json) (plan : RestorePlan) (count : Nat) :
    Except String (Nat × Json) :=
  match existing with
  | none => .ok (0, restore.now)
  | some existing =>
      if !existing.truthy then .ok (0, restore.now)
      else if !journalFields restore existing then
        .error "The in-place restore journal has invalid fields."
      else if textOf (existing.get "state") = some "COMMITTED" && !committedFields existing then
        .error "The committed in-place restore journal is invalid."
      else if textOf (existing.get "root_hash") = some plan.rootHash &&
          !matchesPlan existing plan count then
        .error "The in-place restore journal does not match its snapshot."
      else if textOf (existing.get "state") ≠ some "APPLYING" then .ok (0, restore.now)
      else if textOf (existing.get "root_hash") ≠ some plan.rootHash then
        .error "A different protected-data restore is incomplete"
      else
        match naturalOf (existing.get "next_operation") with
        | some next => .ok (if next = count then 0 else next, existing.get "created_at")
        | none => .error "The in-place restore journal has invalid fields."

/-! ## The restore -/

/-- An action on the files of a root. -/
def onDisk {α : Type} (act : Action Disk α) : Action Root α :=
  onPart Root.disk (fun root disk => { root with disk := disk }) act

/-- The loop over the operations from `index` on. -/
def applyOperations (floorPlan : Option ReleaseFloorPlan) (plan : RestorePlan) (count : Nat)
    (created : Json) : Nat → List Operation → Action Root Unit
  | _, [] => done ()
  | index, operation :: rest => do
      onDisk (runOperation restore floorPlan plan.rootHash operation)
      writeRestoreJournal restore (applyingJournal restore plan count created (index + 1))
      applyOperations floorPlan plan count created (index + 1) rest

/-- A file in `_verify_in_place_restore`. -/
def verifyRestoredFile (entry : FileEntry) : Action Disk Unit := do
  let relative ← look fun _ => validateInPlaceRestorePath entry.path
  if relative = releaseSequenceFloor then done ()
  else do
    let destination ← restoreParent relative
    look (checkRestored restore entry destination)

/-- A tombstone in `_verify_in_place_restore`. -/
def verifyTombstone (relative : String) : Action Disk Unit := do
  let value ← look fun _ => validateInPlaceRestorePath relative
  if value = releaseSequenceFloor then done ()
  else do
    match ← look (tombstoneDestination value) with
    | none => done ()
    | some destination =>
        look fun disk =>
          if (disk destination).isSome then
            .error s!"In-place restore tombstone still exists: {value}"
          else .ok ()

/-- `_verify_in_place_restore`. -/
def verifyInPlaceRestore (manifest : Manifest) (floorPlan : Option ReleaseFloorPlan) :
    Action Disk Unit := do
  forEach (verifyRestoredFile restore) manifest.body.files
  forEach verifyTombstone manifest.body.tombstones
  look fun disk =>
    match floorPlan with
    | none => .ok ()
    | some plan => verifyReleaseFloor restore.platform disk plan

/-- Every path of the snapshot may be restored. -/
def checkPaths : List String → Except String Unit
  | [] => .ok ()
  | path :: rest =>
      match validateInPlaceRestorePath path with
      | .error error => .error error
      | .ok _ => checkPaths rest

/-- The store of a root is there. -/
def checkStore (root : Root) : Except String Unit :=
  if root.disk [".silicon"] = some .dir ∧ root.disk [".silicon", "snapshots"] = some .dir then
    .ok ()
  else .error "The canonical local snapshot store does not exist."

/-- The plan of a restore. -/
def planOf (manifest : Manifest) (dryRun : Bool) : RestorePlan where
  rootHash := manifest.rootHash
  releaseId := manifest.body.releaseId
  files := manifest.body.files.map FileEntry.path
  tombstones := manifest.body.tombstones
  totalSize := (manifest.body.files.map FileEntry.size).sum
  dryRun := dryRun

/-- The operations of a restore. -/
def operationsOf (manifest : Manifest) : List Operation :=
  manifest.body.files.map .file ++ manifest.body.tombstones.map .tombstone

/-- What is checked before anything is written. -/
def prepare (snapshot : Json) (root : Root) :
    Except String (Manifest × Option ReleaseFloorPlan) := do
  checkStore root
  let manifest ← verifyLocalSnapshot restore.platform restore.store restore.limits snapshot
  checkPaths (manifest.body.files.map FileEntry.path ++ manifest.body.tombstones)
  let floorPlan ← planReleaseFloor restore.platform root.disk restore.store manifest.body.files
  return (manifest, floorPlan)

/-- The operations from `next` on, their verification and the note of the restore. -/
def applySnapshot (manifest : Manifest) (floorPlan : Option ReleaseFloorPlan) (next : Nat)
    (created : Json) : Action Root Unit := do
  let plan := planOf manifest false
  let count := (operationsOf manifest).length
  writeRestoreJournal restore (applyingJournal restore plan count created next)
  applyOperations restore floorPlan plan count created next ((operationsOf manifest).drop next)
  onFailure (onDisk (verifyInPlaceRestore restore manifest floorPlan))
    (writeRestoreJournal restore (applyingJournal restore plan count created 0))
  writeRestoreJournal restore (committedJournal restore plan count created)
  writeLastRestored restore (latestNote restore plan)

/-- `restore_local_snapshot_in_place`. -/
def restoreInPlace (snapshot : Json) (dryRun : Bool) : Action Root RestorePlan := do
  let (manifest, floorPlan) ← look (prepare restore snapshot)
  let plan := planOf manifest dryRun
  if dryRun then done plan
  else do
    let existing ← look readRestoreJournal
    let (next, created) ← look fun _ =>
      resumeAt restore existing plan (operationsOf manifest).length
    applySnapshot restore manifest floorPlan next created
    done plan

end Restoring

/-! ## Where a restore may write -/

/-- A text cut at its first separator. -/
theorem cut_at_slash {first first' rest rest' : List Char} (h : '/' ∉ first) (h' : '/' ∉ first')
    (hsame : first ++ '/' :: rest = first' ++ '/' :: rest') : first = first' := by
  have hcut : ∀ {part later : List Char}, '/' ∉ part →
      (part ++ '/' :: later).takeWhile (· ≠ '/') = part := by
    intro part later hpart
    rw [List.takeWhile_append_of_pos]
    · simp
    · intro c hc
      rw [decide_eq_true_eq]
      rintro rfl
      exact hpart hc
  rw [← hcut h, hsame, hcut h']

/-- Of the state directory, a restore writes two files and what is below the overlays. -/
theorem inPlace_parts {relative value name : String} {rest : Path}
    (h : validateInPlaceRestorePath relative = .ok value)
    (hparts : pathParts value = ".silicon" :: name :: rest) :
    value = ".silicon/data-policy.json" ∨ value = releaseSequenceFloor ∨
      name = "overlays" ∧ rest ≠ [] := by
  unfold validateInPlaceRestorePath at h
  split at h
  · cases h
  rename_i found hfound
  split at h
  · cases h
  rename_i hallowed
  cases h
  have htext := validated_text hfound hparts (by decide)
  have hname : '/' ∉ name.toList :=
    (names_of_parts (no_root_of_parts hparts (by decide)) name (by rw [hparts]; simp)).1
  have hjoined : value.toList = ".silicon".toList ++ ['/'] ++
      ['/'].intercalate (name.toList :: rest.map String.toList) := by
    rw [htext, String.toList_ofList, List.map_cons, List.map_cons, List.intercalate_cons_cons]
  have hinside : ".silicon/".toList.isPrefixOf value.toList = true := by
    rw [hjoined, List.isPrefixOf_iff_prefix]
    exact List.prefix_append (".silicon".toList ++ ['/']) _
  rw [hinside] at hallowed
  simp only [Bool.true_and, Bool.not_eq_true', Bool.not_eq_false, Bool.or_eq_true,
    decide_eq_true_eq] at hallowed
  rcases hallowed with (hpolicy | hfloor) | hoverlays
  · exact .inl hpolicy
  · exact .inr (.inl hfloor)
  right
  right
  rw [List.isPrefixOf_iff_prefix] at hoverlays
  rcases hoverlays with ⟨later, hlater⟩
  have hbelow : "overlays".toList ++ '/' :: later =
      ['/'].intercalate (name.toList :: rest.map String.toList) := by
    apply @List.append_cancel_left _ (".silicon".toList ++ ['/'])
    rw [← hjoined, ← hlater]
    rfl
  cases rest with
  | nil =>
      rw [List.map_nil, List.intercalate_singleton] at hbelow
      exact absurd (hbelow ▸ by simp) hname
  | cons third rest =>
      rw [List.map_cons, List.intercalate_cons_cons, List.append_assoc] at hbelow
      have hcut := cut_at_slash (by decide) hname hbelow
      exact ⟨(String.toList_injective hcut).symm, List.cons_ne_nil _ _⟩

/-! ## What a file's restore does not touch -/

/-- A property that what is at this path does not matter for. -/
def Ignores (I : Disk → Prop) (path : Path) : Prop :=
  ∀ disk disk', (∀ other, other ≠ path → disk' other = disk other) → I disk → I disk'

section Frame

variable {restore : Restore} {path candidate destination temporary : Path} {disk : Disk}
  {relative value rootHash : String} {entry : FileEntry} {reusable : Bool} {install : Root → Root} {written : Json} {I : Disk → Prop}

/-- What is at a path. -/
def Holding (path : Path) (found : Option Node) (disk : Disk) : Prop :=
  disk path = found

theorem holding_ignores {found : Option Node} (h : path ≠ candidate) :
    Ignores (Holding path found) candidate :=
  fun _ _ hsame hholding => (hsame path h).trans hholding

theorem Ignores.put {node : Node} (h : Ignores I path) (hdisk : I disk) : I (disk.put path node) :=
  h disk _ (fun _ hne => put_of_ne hne) hdisk

theorem Ignores.unlink (h : Ignores I path) (hdisk : I disk) : I (disk.unlink path) :=
  h disk _ (fun _ hne => unlink_of_ne hne) hdisk

theorem Ignores.chmod {mode : Nat} (h : Ignores I path) (hdisk : I disk) :
    I (disk.chmod path mode) := by
  unfold Disk.chmod
  split
  · exact h.put hdisk
  · exact hdisk

theorem Ignores.replace (htemporary : Ignores I temporary) (hdestination : Ignores I destination)
    (hdisk : I disk) : I (disk.replace temporary destination) := by
  unfold Disk.replace
  split
  · exact htemporary.unlink (hdestination.put hdisk)
  · exact hdisk

/-- A property that restoring a file has nothing to do with. -/
def Apart (I : Disk → Prop) (relative rootHash : String) : Prop :=
  ∀ value, validateInPlaceRestorePath relative = .ok value →
    Ignores I (pathParts value) ∧ (∀ parent ∈ parents (pathParts value), Ignores I parent) ∧
      Ignores I (temporaryOf (pathParts value) rootHash)

theorem safe_makeParent (h : Ignores I candidate) :
    Safe I (makeParent candidate) (fun _ => I) I := by
  unfold makeParent
  apply Safe.bind (Q := fun _ => I)
  · exact safe_look (fun _ hs _ _ => hs) fun _ hs => hs
  · intro node
    cases node with
    | none => exact safe_effect fun _ hs => ⟨h.put hs, h.put hs⟩
    | some node =>
        cases node with
        | dir => exact safe_done fun _ hs => hs
        | file content mode => exact safe_fail fun _ hs => hs
        | other => exact safe_fail fun _ hs => hs

theorem safe_restoreParent
    (h : ∀ value, validateInPlaceRestorePath relative = .ok value →
      ∀ parent ∈ parents (pathParts value), Ignores I parent) :
    Safe I (restoreParent relative)
      (fun destination root => I root ∧
        ∃ value, validateInPlaceRestorePath relative = .ok value ∧ destination = pathParts value)
      I := by
  unfold restoreParent
  apply Safe.bind (Q := fun value root => I root ∧ validateInPlaceRestorePath relative = .ok value)
  · exact safe_look (fun _ hs _ hvalue => ⟨hs, hvalue⟩) fun _ hs => hs
  intro value
  apply Safe.bind (Q := fun _ root => I root ∧ validateInPlaceRestorePath relative = .ok value)
  · by_cases hvalue : validateInPlaceRestorePath relative = .ok value
    · exact (Safe.forEach fun candidate hcandidate =>
        safe_makeParent (h value hvalue candidate hcandidate)).imp
          (fun _ hs => hs.1) (fun _ _ hs => ⟨hs, hvalue⟩) fun _ hs => hs
    · exact fun _ hs => absurd hs.2 hvalue
  intro _
  apply Safe.bind (Q := fun _ root => I root ∧ validateInPlaceRestorePath relative = .ok value)
  · exact safe_look (fun _ hs _ _ => hs) fun _ hs => hs.1
  intro _
  exact safe_done fun _ hs => ⟨hs.1, value, hs.2, rfl⟩

theorem safe_fillTemporary (h : Ignores I temporary) :
    Safe I (fillTemporary restore entry temporary reusable) (fun _ => I) I := by
  unfold fillTemporary
  split
  · exact safe_done fun _ hs => hs
  apply Safe.bind (Q := fun _ => I)
  · exact safe_effect fun _ hs => ⟨h.put hs, h.put hs⟩
  intro _
  apply Safe.bind (Q := fun _ => I)
  · exact safe_look (fun _ hs _ _ => hs) fun _ hs => hs
  intro content
  apply Safe.forEach
  intro _ _
  exact safe_effect fun _ hs => ⟨h.put hs, h.put hs⟩

theorem safe_unlinkMissingOk (h : Ignores I temporary) :
    Safe I (unlinkMissingOk temporary) (fun _ => I) I := by
  unfold unlinkMissingOk
  apply Safe.bind (Q := fun _ => I)
  · exact safe_look (fun _ hs _ _ => hs) fun _ hs => hs
  intro node
  cases node with
  | none => exact safe_done fun _ hs => hs
  | some node => exact safe_effect fun _ hs => ⟨h.unlink hs, h.unlink hs⟩

/-- Restoring a file keeps what has nothing to do with it. -/
theorem safe_restoreManifestFile
    (h : ∀ relative, validateInPlaceRestorePath entry.path = .ok relative →
      Apart I relative rootHash) :
    Safe I (restoreManifestFile restore entry rootHash) (fun _ => I) I := by
  unfold restoreManifestFile
  apply Safe.bind (Q := fun relative root => I root ∧ Apart I relative rootHash)
  · exact safe_look (fun _ hs relative hrelative => ⟨hs, h relative hrelative⟩) fun _ hs => hs
  intro relative
  by_cases hapart : Apart I relative rootHash
  swap
  · exact fun _ hs => absurd hs.2 hapart
  have hparents := safe_restoreParent fun value hvalue => (hapart value hvalue).2.1
  apply Safe.bind (hparents.imp (fun _ hs => hs.1) (fun _ _ hs => hs) fun _ hs => hs)
  intro destination
  by_cases hdestination : ∃ value, validateInPlaceRestorePath relative = .ok value ∧
      destination = pathParts value
  swap
  · exact fun _ hs => absurd hs.2 hdestination
  rcases hdestination with ⟨value, hvalue, rfl⟩
  rcases hapart value hvalue with ⟨hne, -, htemporary⟩
  apply Safe.bind (Q := fun _ => I)
  · exact safe_look (fun _ hs _ _ => hs.1) fun _ hs => hs.1
  intro reusable
  apply Safe.bind (Q := fun _ => I)
  · apply Safe.withCleanup (Q := fun _ => I)
    · apply Safe.bind (safe_fillTemporary htemporary)
      intro _
      unfold commitTemporary
      apply Safe.bind (Q := fun _ => I)
      · exact safe_effect fun _ hs => ⟨htemporary.chmod hs, htemporary.chmod hs⟩
      intro _
      apply Safe.bind (hparents.imp (fun _ hs => hs) (fun _ _ hs => hs.1) fun _ hs => hs)
      intro checked
      split
      · exact safe_fail fun _ hs => hs
      · exact safe_effect fun _ hs => ⟨htemporary.replace hne hs, htemporary.replace hne hs⟩
    · exact fun _ => safe_unlinkMissingOk htemporary
    · exact safe_unlinkMissingOk htemporary
    · exact fun _ _ hs => hs
  intro _
  exact safe_look (fun _ hs _ _ => hs) fun _ hs => hs

/-- Removing a tombstone keeps what does not look at it. -/
theorem safe_restoreManifestTombstone
    (h : ∀ value, validateInPlaceRestorePath relative = .ok value →
      Ignores I (pathParts value)) :
    Safe I (restoreManifestTombstone relative) (fun _ => I) I := by
  unfold restoreManifestTombstone
  apply Safe.bind (Q := fun found root => I root ∧
    ∀ destination, found = some destination → Ignores I destination)
  · apply safe_look
    · intro root hs found hfound
      refine ⟨hs, ?_⟩
      rintro destination rfl
      unfold tombstoneDestination at hfound
      simp only [bind, Except.bind] at hfound
      split at hfound
      · cases hfound
      rename_i value hvalue
      split at hfound
      · cases hfound
      rename_i reached _
      cases reached with
      | true =>
          cases hfound
          exact h value hvalue
      | false => cases hfound
    · exact fun _ hs => hs
  intro found
  cases found with
  | none => exact safe_done fun _ hs => hs.1
  | some destination =>
      apply Safe.bind (Q := fun _ root => I root ∧ Ignores I destination)
      · exact safe_look (fun _ hs _ _ => ⟨hs.1, hs.2 destination rfl⟩) fun _ hs => hs.1
      intro node
      cases node with
      | none => exact safe_done fun _ hs => hs.1
      | some node =>
          cases node with
          | dir => exact safe_fail fun _ hs => hs.1
          | file content mode =>
              exact safe_effect fun _ hs => ⟨hs.2.unlink hs.1, hs.2.unlink hs.1⟩
          | other => exact safe_fail fun _ hs => hs.1

/-- Writing a journal keeps the files. -/
theorem safe_atomicWrite (hinstall : ∀ root, (install root).disk = root.disk) :
    Safe (fun root => I root.disk) (atomicWrite restore written install)
      (fun _ root => I root.disk) (fun root => I root.disk) := by
  unfold atomicWrite
  apply Safe.bind (Q := fun _ root => I root.disk)
  · exact safe_effect fun _ hs => ⟨hs, hs⟩
  intro _
  apply Safe.bind (Q := fun _ root => I root.disk)
  · exact safe_effect fun _ hs => ⟨hs, hs⟩
  intro _
  apply safe_effect
  intro root hs
  rw [hinstall]
  exact ⟨hs, hs⟩

theorem safe_writeRestoreJournal :
    Safe (fun root => I root.disk) (writeRestoreJournal restore written)
      (fun _ root => I root.disk) (fun root => I root.disk) :=
  safe_atomicWrite fun _ => rfl

theorem safe_onDisk {α : Type} {act : Action Disk α} (h : Safe I act (fun _ => I) I) :
    Safe (fun root => I root.disk) (onDisk act) (fun _ root => I root.disk)
      (fun root => I root.disk) :=
  h.onPart (fun _ ht => ht) (fun _ _ _ _ hs => hs) fun _ _ _ hs => hs

/-- What every operation keeps is kept by the loop. -/
theorem safe_applyOperations {floorPlan : Option ReleaseFloorPlan} {plan : RestorePlan}
    {count index : Nat} {created : Json} {operations : List Operation}
    (hoperation : ∀ operation ∈ operations,
      Safe I (runOperation restore floorPlan plan.rootHash operation) (fun _ => I) I) :
    Safe (fun root => I root.disk)
      (applyOperations restore floorPlan plan count created index operations)
      (fun _ root => I root.disk) (fun root => I root.disk) := by
  induction operations generalizing index with
  | nil => exact safe_done fun _ hs => hs
  | cons operation rest ih =>
      unfold applyOperations
      apply Safe.bind (safe_onDisk (hoperation operation List.mem_cons_self))
      intro _
      apply Safe.bind safe_writeRestoreJournal
      intro _
      exact ih fun later hlater => hoperation later (List.mem_cons_of_mem _ hlater)

/-- The verification only makes directories. -/
theorem safe_verifyInPlaceRestore {manifest : Manifest} {floorPlan : Option ReleaseFloorPlan}
    (h : ∀ relative value, validateInPlaceRestorePath relative = .ok value →
      ∀ parent ∈ parents (pathParts value), Ignores I parent) :
    Safe I (verifyInPlaceRestore restore manifest floorPlan) (fun _ => I) I := by
  unfold verifyInPlaceRestore
  apply Safe.bind (Q := fun _ => I)
  · apply Safe.forEach
    intro entry _
    unfold verifyRestoredFile
    apply Safe.bind (Q := fun _ => I)
    · exact safe_look (fun _ hs _ _ => hs) fun _ hs => hs
    intro relative
    split
    · exact safe_done fun _ hs => hs
    apply Safe.bind (safe_restoreParent (h relative))
    intro destination
    exact safe_look (fun _ hs _ _ => hs.1) fun _ hs => hs.1
  intro _
  apply Safe.bind (Q := fun _ => I)
  · apply Safe.forEach
    intro relative _
    unfold verifyTombstone
    apply Safe.bind (Q := fun _ => I)
    · exact safe_look (fun _ hs _ _ => hs) fun _ hs => hs
    intro value
    split
    · exact safe_done fun _ hs => hs
    apply Safe.bind (Q := fun _ => I)
    · exact safe_look (fun _ hs _ _ => hs) fun _ hs => hs
    intro found
    cases found with
    | none => exact safe_done fun _ hs => hs
    | some destination => exact safe_look (fun _ hs _ _ => hs) fun _ hs => hs
  intro _
  exact safe_look (fun _ hs _ _ => hs) fun _ hs => hs

/-- What every operation keeps and no directory matters for is kept by the whole restore. -/
theorem safe_applySnapshot {manifest : Manifest} {floorPlan : Option ReleaseFloorPlan}
    {next : Nat} {created : Json}
    (hoperation : ∀ operation ∈ operationsOf manifest,
      Safe I (runOperation restore floorPlan manifest.rootHash operation) (fun _ => I) I)
    (hparents : ∀ relative value, validateInPlaceRestorePath relative = .ok value →
      ∀ parent ∈ parents (pathParts value), Ignores I parent) :
    Safe (fun root => I root.disk) (applySnapshot restore manifest floorPlan next created)
      (fun _ root => I root.disk) (fun root => I root.disk) := by
  unfold applySnapshot
  apply Safe.bind safe_writeRestoreJournal
  intro _
  apply Safe.bind (safe_applyOperations ?_)
  · intro _
    apply Safe.bind ((safe_onDisk (safe_verifyInPlaceRestore hparents)).onFailure
      safe_writeRestoreJournal)
    intro _
    apply Safe.bind safe_writeRestoreJournal
    intro _
    exact safe_atomicWrite fun _ => rfl
  · exact fun operation hmem => hoperation operation (List.mem_of_mem_drop hmem)

/-- A restore writes nothing before it is prepared. -/
theorem leaves_restoreInPlace {snapshot : Json} {dryRun : Bool} {root root' : Root}
    (h : Leaves (restoreInPlace restore snapshot dryRun) root root') :
    root' = root ∨ ∃ manifest floorPlan next created,
      prepare restore snapshot root = .ok (manifest, floorPlan) ∧
        Leaves (applySnapshot restore manifest floorPlan next created) root root' := by
  have hsafe : Safe (fun s => s = root) (restoreInPlace restore snapshot dryRun)
      (fun _ t => t = root ∨ ∃ manifest floorPlan next created,
        prepare restore snapshot root = .ok (manifest, floorPlan) ∧
          Leaves (applySnapshot restore manifest floorPlan next created) root t)
      (fun t => t = root ∨ ∃ manifest floorPlan next created,
        prepare restore snapshot root = .ok (manifest, floorPlan) ∧
          Leaves (applySnapshot restore manifest floorPlan next created) root t) := by
    unfold restoreInPlace
    apply Safe.bind (Q := fun prepared s => s = root ∧ prepare restore snapshot root = .ok prepared)
    · apply safe_look
      · rintro s rfl prepared hprepared
        exact ⟨rfl, hprepared⟩
      · exact fun _ hs => .inl hs
    rintro ⟨manifest, floorPlan⟩
    simp only
    split
    · exact safe_done fun _ hs => .inl hs.1
    apply Safe.bind (Q := fun _ s => s = root ∧
      prepare restore snapshot root = .ok (manifest, floorPlan))
    · exact safe_look (fun _ hs _ _ => hs) fun _ hs => .inl hs.1
    intro existing
    apply Safe.bind (Q := fun _ s => s = root ∧
      prepare restore snapshot root = .ok (manifest, floorPlan))
    · exact safe_look (fun _ hs _ _ => hs) fun _ hs => .inl hs.1
    rintro ⟨next, created⟩
    apply Safe.bind (Q := fun _ t => ∃ manifest floorPlan next created,
      prepare restore snapshot root = .ok (manifest, floorPlan) ∧
        Leaves (applySnapshot restore manifest floorPlan next created) root t)
    · rintro s ⟨rfl, hprepared⟩
      refine ⟨?_, ?_, ?_⟩
      · exact fun t ht => .inr ⟨manifest, floorPlan, next, created, hprepared, .inr (.inl ht)⟩
      · exact fun _ _ => ⟨manifest, floorPlan, next, created, hprepared, .inr (.inr rfl)⟩
      · exact fun _ _ => .inr ⟨manifest, floorPlan, next, created, hprepared, .inr (.inr rfl)⟩
    · intro _
      exact safe_done fun _ hs => .inr hs
  exact hsafe.leaves rfl (.inl rfl) (fun _ _ hs => hs) h

end Frame

end Backup
end Stemcell
