import Stemcell.Backup.Disk
import Stemcell.Backup.Gc

/-!
# The release floor

A root keeps a record of the newest release that it has run, below which no update may go.  A
restore in place reads it, compares it with the one of the snapshot, and keeps the higher.

Main results:

- Definition `validateReleaseSequenceFloor`: the release that a record names.
- Theorem `packedSequence_lt_iff`: the sequences of versions are ordered as the versions.
- Definition `planReleaseFloor`: what a restore may do to the record.

Current gaps:

- `json.loads` is a parameter, and a float is what Python prints of it.
-/

namespace Stemcell
namespace Backup

open Interface (Json Python)
open Lib

/-- `RELEASE_SEQUENCE_FLOOR`. -/
def releaseSequenceFloor : String := ".silicon/release-sequence-floor.json"

def maxReleaseSequenceFloorBytes : Nat := 4096

/-- The release that a record stands for. -/
structure Floor where
  sequence : Nat
  treeSha256 : String
deriving DecidableEq, Repr

/-! ## Records -/

/-- One number of `_GIT_RELEASE_VERSION_RE`. -/
def releasePart : List Char → Option Nat
  | ['0'] => some 0
  | c :: rest =>
      if c.isDigit ∧ c ≠ '0' ∧ rest.length ≤ 2 ∧ rest.all Char.isDigit then
        some ((c :: rest).foldl (fun number digit => number * 10 + (digit.toNat - 48)) 0)
      else none
  | [] => none

/-- `_GIT_RELEASE_VERSION_RE`. -/
def releaseVersion (version : String) : Option (Nat × Nat × Nat) :=
  match version.toList.splitOn '.' with
  | [first, second, third] =>
      match releasePart first, releasePart second, releasePart third with
      | some major, some minor, some patch => some (major, minor, patch)
      | _, _, _ => none
  | _ => none

/-- The sequence of a version. -/
def packedSequence : Nat × Nat × Nat → Nat
  | (major, minor, patch) => major * 1000000 + minor * 1000 + patch + 1

/-- A number that is finite and greater than zero as a float. -/
def isPositiveNumber : Json → Bool
  | .int value => 0 < value ∧ value < 2 ^ 1024 - 2 ^ 970
  | .float text zero =>
      !zero && text ≠ "nan" && text ≠ "inf" && !("-".toList.isPrefixOf text.toList)
  | _ => false

/-- A number greater than zero, and no truth value. -/
def positiveOf : Json → Option Nat
  | .int (.ofNat value) => if value = 0 then none else some value
  | _ => none

/-- `value == 2`. -/
def isSchemaTwo : Json → Bool
  | .int value => value = 2
  | .float text _ => text = "2.0"
  | _ => false

/-- The version and the trust of a record of the second schema. -/
def validTrust (sequence : Nat) (version trust : Json) : Bool :=
  match version, trust with
  | .str version, .str trust =>
      if version = "" ∨ 64 < version.toList.length ∨ Char.ofNat 0 ∈ version.toList then false
      else if trust = "git-semver-tag" then
        match releaseVersion version with
        | some parts => sequence = packedSequence parts
        | none => false
      else trust = "signed-ed25519"
  | _, _ => false

/-- The fields of a record. -/
def floorKeys (schema : Json) : List String :=
  if isSchema schema then ["schema", "sequence", "tree_sha256", "recorded_at"]
  else ["schema", "sequence", "version", "trust", "tree_sha256", "recorded_at"]

/-- `_validate_release_sequence_floor`. -/
def validateReleaseSequenceFloor (label : String) (value : Json) : Except String Floor :=
  let schema := value.get "schema"
  match positiveOf (value.get "sequence"), value.get "tree_sha256" with
  | some sequence, .str treeSha256 =>
      if !(isSchema schema || isSchemaTwo schema) || !hasKeys (floorKeys schema) value ||
          !isDigest treeSha256 || !isPositiveNumber (value.get "recorded_at") then
        .error (label ++ " is invalid.")
      else if isSchemaTwo schema && !validTrust sequence (value.get "version") (value.get "trust")
      then .error (label ++ " is invalid.")
      else .ok ⟨sequence, treeSha256⟩
  | _, _ => .error (label ++ " is invalid.")

section Reading

variable (platform : Platform)

/-- `_open_verified_object`. -/
def openVerifiedObject (store : Store) (digest : String) (expectedSize : Nat) :
    Except String (List UInt8) :=
  match store.objects.get? digest with
  | none => .error "Missing snapshot object"
  | some bytes =>
      if bytes.length ≠ expectedSize then
        .error s!"Snapshot object changed after verification: {digest}"
      else if platform.py.sha256 bytes ≠ digest then
        .error s!"Snapshot object {digest} failed its SHA-256/size check."
      else .ok bytes

/-- The record that the bytes of a file hold. -/
def decodeFloor (label : String) (payload : List UInt8) : Except String Floor :=
  match platform.py.loads payload with
  | none => .error (label ++ " is corrupt")
  | some value =>
      if !value.isObj then .error (label ++ " must be a JSON object.")
      else validateReleaseSequenceFloor label value

/-- `_read_local_release_sequence_floor`. -/
def readLocalReleaseSequenceFloor (disk : Disk) : Except String (Option Floor) :=
  match disk (pathParts releaseSequenceFloor) with
  | none => .ok none
  | some (.file content _) =>
      if content = [] ∨ maxReleaseSequenceFloorBytes < content.length then
        .error "release sequence floor must be a bounded, unredirected regular file."
      else (decodeFloor platform "Release sequence floor" content).map some
  | some _ => .error "release sequence floor must be a bounded, unredirected regular file."

/-- `_read_snapshot_release_sequence_floor`. -/
def readSnapshotReleaseSequenceFloor (store : Store) (entry : FileEntry) : Except String Floor :=
  if entry.size = 0 ∨ maxReleaseSequenceFloorBytes < entry.size then
    .error "Snapshot release sequence floor exceeds its safety bound."
  else
    match openVerifiedObject platform store entry.sha256 entry.size with
    | .error error => .error error
    | .ok payload => decodeFloor platform "Snapshot release sequence floor" payload

/-! ## The plan of a restore -/

/-- `_ReleaseFloorPlan`. -/
structure ReleaseFloorPlan where
  snapshot : Option (FileEntry × Floor)
  minimum : Floor

/-- The file of a snapshot that is its record. -/
def floorEntry (files : List FileEntry) : Option FileEntry :=
  files.find? fun entry => entry.path = releaseSequenceFloor

/-- The record of a snapshot, with its file. -/
def snapshotFloor (store : Store) (files : List FileEntry) :
    Except String (Option (FileEntry × Floor)) :=
  match floorEntry files with
  | none => .ok none
  | some entry =>
      match readSnapshotReleaseSequenceFloor platform store entry with
      | .error error => .error error
      | .ok floor => .ok (some (entry, floor))

/-- One sequence for two trees. -/
def Floor.conflicts (current snapshot : Floor) : Bool :=
  current.sequence = snapshot.sequence && current.treeSha256 ≠ snapshot.treeSha256

/-- `_plan_release_sequence_floor_restore`. -/
def planReleaseFloor (disk : Disk) (store : Store) (files : List FileEntry) :
    Except String (Option ReleaseFloorPlan) := do
  let current ← readLocalReleaseSequenceFloor platform disk
  let snapshot ← snapshotFloor platform store files
  match current, snapshot with
  | none, none => return none
  | none, some (entry, floor) => return some ⟨some (entry, floor), floor⟩
  | some current, none => return some ⟨none, current⟩
  | some current, some (entry, floor) =>
      if current.conflicts floor then
        .error ("Release sequence floor reuses one sequence for different " ++
          "immutable release trees.")
      else
        return some ⟨some (entry, floor),
          if current.sequence < floor.sequence then floor else current⟩

/-- `_verify_release_sequence_floor`. -/
def verifyReleaseFloor (disk : Disk) (plan : ReleaseFloorPlan) : Except String Unit :=
  match readLocalReleaseSequenceFloor platform disk with
  | .error error => .error error
  | .ok none => .error "In-place restore lowered or removed the release sequence floor."
  | .ok (some current) =>
      if current.sequence < plan.minimum.sequence then
        .error "In-place restore lowered or removed the release sequence floor."
      else if current.conflicts plan.minimum then
        .error ("In-place restore changed the immutable release tree at the " ++
          "release sequence floor.")
      else .ok ()

variable {platform} in
/-- An object that could be opened is the one of its digest. -/
theorem openVerifiedObject_ok {store : Store} {digest : String} {size : Nat}
    {content : List UInt8} (h : openVerifiedObject platform store digest size = .ok content) :
    store.objects.get? digest = some content ∧ content.length = size ∧
      platform.py.sha256 content = digest := by
  unfold openVerifiedObject at h
  split at h
  · cases h
  rename_i bytes hbytes
  split at h
  · cases h
  rename_i hsize
  split at h
  · cases h
  rename_i hdigest
  cases h
  exact ⟨hbytes, not_not.mp hsize, not_not.mp hdigest⟩

end Reading

/-! ## The order of versions -/

/-- The order of versions. -/
def versionBefore : Nat × Nat × Nat → Nat × Nat × Nat → Prop
  | (major, minor, patch), (major', minor', patch') =>
      major < major' ∨ major = major' ∧ (minor < minor' ∨ minor = minor' ∧ patch < patch')

variable {part : List Char} {number sequence sequence' : Nat} {version version' label : String}
  {parts parts' : Nat × Nat × Nat} {value value' : Json} {floor floor' : Floor}

theorem digit_lt {c : Char} (h : c.isDigit = true) : c.toNat - 48 < 10 := by
  unfold Char.isDigit at h
  rw [Bool.and_eq_true, decide_eq_true_eq, decide_eq_true_eq] at h
  have hle : c.toNat ≤ 57 := h.2
  omega

theorem releasePart_lt (h : releasePart part = some number) : number < 1000 := by
  unfold releasePart at h
  split at h
  · cases h
    decide
  · rename_i c rest _
    split at h
    · rename_i hdigits
      cases h
      rcases hdigits with ⟨hc, -, hlength, hrest⟩
      have hfirst := digit_lt hc
      match rest with
      | [] =>
          simp only [List.foldl_cons, List.foldl_nil]
          omega
      | [d] =>
          simp only [List.all_cons, List.all_nil, Bool.and_true] at hrest
          have hsecond := digit_lt hrest
          simp only [List.foldl_cons, List.foldl_nil]
          omega
      | [d, e] =>
          simp only [List.all_cons, List.all_nil, Bool.and_true, Bool.and_eq_true] at hrest
          have hsecond := digit_lt hrest.1
          have hthird := digit_lt hrest.2
          simp only [List.foldl_cons, List.foldl_nil]
          omega
      | _ :: _ :: _ :: _ =>
          simp only [List.length_cons] at hlength
          omega
    · cases h
  · cases h

/-- The numbers of a version have three digits at most. -/
theorem releaseVersion_lt (h : releaseVersion version = some parts) :
    parts.1 < 1000 ∧ parts.2.1 < 1000 ∧ parts.2.2 < 1000 := by
  unfold releaseVersion at h
  split at h
  · split at h
    · rename_i hmajor hminor hpatch
      cases h
      exact ⟨releasePart_lt hmajor, releasePart_lt hminor, releasePart_lt hpatch⟩
    · cases h
  · cases h

/-- The sequences of versions are ordered as the versions. -/
theorem packedSequence_lt_iff (h : releaseVersion version = some parts)
    (h' : releaseVersion version' = some parts') :
    packedSequence parts < packedSequence parts' ↔ versionBefore parts parts' := by
  rcases releaseVersion_lt h with ⟨-, hminor, hpatch⟩
  rcases releaseVersion_lt h' with ⟨-, hminor', hpatch'⟩
  rcases parts with ⟨major, minor, patch⟩
  rcases parts' with ⟨major', minor', patch'⟩
  simp only at hminor hpatch hminor' hpatch'
  unfold packedSequence versionBefore
  simp only
  omega

/-- What an accepted record of a version says. -/
theorem validate_git (h : validateReleaseSequenceFloor label value = .ok floor)
    (htrust : value.get "trust" = .str "git-semver-tag")
    (hschema : isSchemaTwo (value.get "schema") = true) :
    ∃ version parts, value.get "version" = .str version ∧
      releaseVersion version = some parts ∧ floor.sequence = packedSequence parts := by
  unfold validateReleaseSequenceFloor at h
  simp only at h
  split at h
  · rename_i sequence treeSha256 _ _
    split at h
    · cases h
    split at h
    · cases h
    rename_i hvalid
    cases h
    rw [hschema, htrust] at hvalid
    unfold validTrust at hvalid
    split at hvalid
    · rename_i version trust hversion hsame
      cases hsame
      split at hvalid
      · simp at hvalid
      rw [if_pos rfl] at hvalid
      cases hparts : releaseVersion version with
      | none =>
          rw [hparts] at hvalid
          simp at hvalid
      | some parts =>
          rw [hparts] at hvalid
          refine ⟨version, parts, hversion, hparts, ?_⟩
          simpa using hvalid
    · simp at hvalid
  · cases h

end Backup
end Stemcell
