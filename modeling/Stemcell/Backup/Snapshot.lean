import Stemcell.Backup.ReleaseFloor

/-!
# Checking a snapshot

A snapshot is verified before it is used: its manifest, the limits, and every object with its
size and hash.

Main results:

- Definition `verifyLocalSnapshot`: the manifest of a snapshot that was verified.
- Theorem `verifyLocalSnapshot_ok`: what the verification says.
-/

namespace Stemcell
namespace Backup

open Interface (Json)
open Lib

section Verify

variable (platform : Platform)

/-- The files in `verify_local_snapshot`. -/
def verifyFiles (store : Store) (limits : SnapshotLimits) :
    Nat → List FileEntry → Except String Unit
  | _, [] => .ok ()
  | total, entry :: rest =>
      let path := entry.path
      if limits.maxFileSize < entry.size then .error s!"{path} exceeds max_file_size."
      else if limits.maxTotalSize < total + entry.size then
        .error "Snapshot manifest exceeds max_total_size."
      else
        match verifyObject platform store entry.sha256 entry.size with
        | .error error => .error error
        | .ok () =>
            if path = releaseSequenceFloor then
              match readSnapshotReleaseSequenceFloor platform store entry with
              | .error error => .error error
              | .ok _ => verifyFiles store limits (total + entry.size) rest
            else verifyFiles store limits (total + entry.size) rest

/-- `verify_local_snapshot`. -/
def verifyLocalSnapshot (store : Store) (limits : SnapshotLimits) (snapshot : Json) :
    Except String Manifest :=
  if !limits.valid then .error "Snapshot limits must be positive and internally valid."
  else
    match validateManifest platform snapshot with
    | .error error => .error error
    | .ok manifest =>
        if limits.maxFiles < manifest.body.files.length then
          .error "Snapshot manifest exceeds max_files."
        else
          match verifyFiles platform store limits 0 manifest.body.files with
          | .error error => .error error
          | .ok () => .ok manifest

end Verify

variable {platform : Platform} {store : Store} {limits : SnapshotLimits} {snapshot : Json}
  {manifest : Manifest} {files : List FileEntry} {total : Nat}

/-- An object that is there can be opened. -/
theorem Present.opens {entry : FileEntry} (h : Present platform store entry) :
    ∃ content, openVerifiedObject platform store entry.sha256 entry.size = .ok content := by
  rcases h with ⟨content, hcontent, hdigest, hsize⟩
  refine ⟨content, ?_⟩
  unfold openVerifiedObject
  rw [hcontent]
  simp only
  rw [if_neg (not_not.mpr hsize), if_neg (not_not.mpr hdigest)]

theorem verifyFiles_ok (h : verifyFiles platform store limits total files = .ok ()) :
    ∀ entry ∈ files, Present platform store entry ∧
      (entry.path = releaseSequenceFloor →
        ∃ floor, readSnapshotReleaseSequenceFloor platform store entry = .ok floor) := by
  induction files generalizing total with
  | nil => exact fun _ hmem => nomatch hmem
  | cons first rest ih =>
      simp only [verifyFiles] at h
      split at h
      · cases h
      split at h
      · cases h
      split at h
      · cases h
      rename_i hobject
      intro entry hmem
      split at h
      · split at h
        · cases h
        rename_i floor hfloor
        rcases List.mem_cons.mp hmem with rfl | hlater
        · exact ⟨verifyObject_ok hobject, fun _ => ⟨floor, hfloor⟩⟩
        · exact ih h entry hlater
      · rename_i hother
        rcases List.mem_cons.mp hmem with rfl | hlater
        · exact ⟨verifyObject_ok hobject, fun hpath => absurd hpath hother⟩
        · exact ih h entry hlater

/-- A snapshot that was verified has its objects, and a record that can be read. -/
theorem verifyLocalSnapshot_ok
    (h : verifyLocalSnapshot platform store limits snapshot = .ok manifest) :
    validateManifest platform snapshot = .ok manifest ∧
      ∀ entry ∈ manifest.body.files, Present platform store entry ∧
        (entry.path = releaseSequenceFloor →
          ∃ floor, readSnapshotReleaseSequenceFloor platform store entry = .ok floor) := by
  unfold verifyLocalSnapshot at h
  split at h
  · cases h
  split at h
  · cases h
  rename_i found hfound
  split at h
  · cases h
  split at h
  · cases h
  rename_i hfiles
  cases h
  exact ⟨hfound, verifyFiles_ok hfiles⟩

end Backup
end Stemcell
