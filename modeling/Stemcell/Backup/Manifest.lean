import Mathlib.Data.String.Basic
import Stemcell.Backup.Paths
import Stemcell.Lib.SortedSet

/-!
# Snapshot manifests

A manifest names the files of a snapshot with their contents and modes, and the paths that
an earlier snapshot had and this one has not.  Its identity is the hash of its body.

Main results:

- Definition `validateManifest`: the manifest that an untrusted value stands for.
- Theorem `validate_sound`: a manifest with canonical fields is accepted as it is.
- Theorem `manifest_law`: exactly which accepted values give a canonical manifest.
- Theorem `live_and_tombstoned`: a value that is accepted and gives none.

Current gaps:

- `json.dumps`, `str` of a list or a dictionary, `str.casefold` and SHA-256 are parameters.
-/

namespace Stemcell
namespace Backup

open Interface (Json Python strip)
open Lib

/-- What the backup takes from Python, `json.dumps` with sorted keys among it. -/
structure Platform where
  py : Python
  casefold : String → String
  canonicalJson : Json → List UInt8

/-- A file of a manifest. -/
structure FileEntry where
  path : String
  sha256 : String
  size : Nat
  mode : Nat
  classes : List String
deriving DecidableEq, Repr

/-- `_manifest_body`, without its schema. -/
structure Body where
  releaseId : String
  files : List FileEntry
  tombstones : List String
deriving DecidableEq, Repr

/-- A validated manifest. -/
structure Manifest where
  body : Body
  rootHash : String
deriving DecidableEq, Repr

def snapshotSchema : Nat := 1

def FileEntry.toJson (file : FileEntry) : Json :=
  .obj [("path", .str file.path), ("sha256", .str file.sha256), ("size", .int file.size),
    ("mode", .int file.mode), ("classes", .arr (file.classes.map .str))]

def Body.fields (body : Body) : List (String × Json) :=
  [("schema", .int snapshotSchema), ("release_id", .str body.releaseId),
    ("files", .arr (body.files.map FileEntry.toJson)),
    ("tombstones", .arr (body.tombstones.map .str))]

def Manifest.toJson (manifest : Manifest) : Json :=
  .obj (manifest.body.fields ++ [("root_hash", .str manifest.rootHash)])

/-- `_DIGEST_RE`. -/
def isDigest (text : String) : Bool :=
  text.toList.length = 64 && text.toList.all fun c => c ∈ "0123456789abcdef".toList

/-- `_normalise_release_id`. -/
def normaliseReleaseId (releaseId : String) : Except String String :=
  let value := strip releaseId
  if value = "" ∨ 512 < value.toList.length ∨ value.toList.any fun c => c.toNat < 32 then
    .error "release_id must be a non-empty printable string."
  else .ok value

/-- `set(raw) == {...}`. -/
def hasKeys (names : List String) : Json → Bool
  | .obj fields =>
      names.all (fun name => fields.any fun field => field.1 = name) &&
        fields.all fun field => field.1 ∈ names
  | _ => false

/-- `value == 1`. -/
def isSchema : Json → Bool
  | .int value => value = snapshotSchema
  | .bool value => value
  | .float text _ => text = "1.0"
  | _ => false

/-- An integer, and no truth value, from zero on. -/
def naturalOf : Json → Option Nat
  | .int (.ofNat value) => some value
  | _ => none

/-- A list of texts. -/
def textsOf : List Json → Option (List String)
  | [] => some []
  | .str text :: rest => (textsOf rest).map (text :: ·)
  | _ => none

/-- The classes of a file: some texts, none empty, sorted and different. -/
def classesOf : Json → Option (List String)
  | .arr items =>
      match textsOf items with
      | some classes =>
          if classes ≠ [] ∧ "" ∉ classes ∧ classes = sortedSet classes then some classes else none
      | none => none
  | _ => none

section Validation

variable (platform : Platform)

/-- The hash of a body. -/
def Body.rootHash (body : Body) : String :=
  platform.py.sha256 (platform.canonicalJson (.obj body.fields))

/-- One file of `_validate_manifest`, after the paths that it has seen. -/
def validateFile (seen : List String) (entry : Json) : Except String FileEntry :=
  if !hasKeys ["path", "sha256", "size", "mode", "classes"] entry then
    .error "Snapshot file entry has invalid fields."
  else
    match validateRelativePath (platform.py.text (entry.get "path")) with
    | .error error => .error error
    | .ok relative =>
        if relative ∈ seen then .error s!"Duplicate or forbidden snapshot path: {relative}"
        else
          match isKnownSecret platform.casefold relative with
          | .error error => .error error
          | .ok true => .error s!"Duplicate or forbidden snapshot path: {relative}"
          | .ok false =>
              if !isDigest (platform.py.text (entry.get "sha256")) then
                .error s!"Invalid SHA-256 for {relative}."
              else
                match naturalOf (entry.get "size"), naturalOf (entry.get "mode"),
                  classesOf (entry.get "classes") with
                | none, _, _ => .error s!"Invalid size for {relative}."
                | some size, some mode, some classes =>
                    if 511 < mode then .error s!"Invalid mode for {relative}."
                    else
                      .ok { path := relative
                            sha256 := platform.py.text (entry.get "sha256")
                            size := size
                            mode := mode
                            classes := classes }
                | some _, none, _ => .error s!"Invalid mode for {relative}."
                | some _, some mode, none =>
                    if 511 < mode then .error s!"Invalid mode for {relative}."
                    else .error s!"Invalid classes for {relative}."

/-- The files of `_validate_manifest`. -/
def validateFiles (seen : List String) : List Json → Except String (List FileEntry)
  | [] => .ok []
  | entry :: rest => do
      let file ← validateFile platform seen entry
      let files ← validateFiles (file.path :: seen) rest
      return file :: files

/-- Every path in its canonical form. -/
def validatePaths : List String → Except String (List String)
  | [] => .ok []
  | path :: rest => do
      let relative ← validateRelativePath path
      let relatives ← validatePaths rest
      return relative :: relatives

/-- The tombstones of `_validate_manifest`. -/
def validateTombstones (live : List String) : List Json → Except String (List String)
  | [] => .ok []
  | .str value :: rest => do
      let relative ← validateRelativePath value
      if relative ∈ live then
        .error s!"Snapshot path is both live and tombstoned: {relative}"
      else
        let relatives ← validateTombstones live rest
        return relative :: relatives
  | _ => .error "Snapshot tombstones must be strings."

/-- `_manifest_body`. -/
def manifestBody (releaseId : String) (files : List FileEntry) (tombstones : List String) :
    Except String Body := do
  let releaseId ← normaliseReleaseId releaseId
  let tombstones ← validatePaths tombstones
  return ⟨releaseId, files, sortedSet tombstones⟩

/-- `_validate_manifest`. -/
def validateManifest (raw : Json) : Except String Manifest :=
  if !raw.isObj then .error "Snapshot manifest must be a JSON object."
  else if !hasKeys ["schema", "release_id", "files", "tombstones", "root_hash"] raw then
    .error "Snapshot manifest has unknown or missing fields."
  else if !isSchema (raw.get "schema") then .error "Unsupported snapshot schema"
  else do
    let releaseId ← normaliseReleaseId (platform.py.text (raw.get "release_id"))
    match raw.get "files", raw.get "tombstones" with
    | .arr entries, .arr values =>
        let files ← validateFiles platform [] entries
        if files.map FileEntry.path ≠ sortedSet (files.map FileEntry.path) then
          .error "Snapshot files are not canonically sorted."
        else
          let tombstones ← validateTombstones (files.map FileEntry.path) values
          if tombstones ≠ sortedSet tombstones then
            .error "Snapshot tombstones are not canonical."
          else
            let body ← manifestBody releaseId files tombstones
            let rootHash := platform.py.text (raw.get "root_hash")
            if !isDigest rootHash ∨ rootHash ≠ body.rootHash platform then
              .error "Snapshot root hash does not match its manifest."
            else return ⟨body, rootHash⟩
    | _, _ => .error "Snapshot files/tombstones must be arrays."

end Validation

/-! ## What is accepted -/

variable {platform : Platform} {seen live : List String} {entry raw : Json}
  {entries values : List Json} {file : FileEntry} {files : List FileEntry}
  {texts texts' classes : List String} {text text' : String} {m : Manifest} {body : Body}

/-- What the checks of a file say. -/
structure FileOk (platform : Platform) (entry : Json) (file : FileEntry) : Prop where
  path : validateRelativePath (platform.py.text (entry.get "path")) = .ok file.path
  notSecret : isKnownSecret platform.casefold file.path = .ok false
  digest : isDigest file.sha256 = true
  mode : file.mode ≤ 511
  classes : file.classes ≠ [] ∧ "" ∉ file.classes ∧ file.classes = sortedSet file.classes

theorem classesOf_ok (h : classesOf entry = some classes) :
    classes ≠ [] ∧ "" ∉ classes ∧ classes = sortedSet classes := by
  unfold classesOf at h
  split at h
  · split at h
    · split at h <;> cases h
      assumption
    · cases h
  · cases h

theorem validateFile_ok (h : validateFile platform seen entry = .ok file) :
    FileOk platform entry file ∧ file.path ∉ seen := by
  unfold validateFile at h
  split at h
  · cases h
  split at h
  · cases h
  rename_i relative hrelative
  split at h
  · cases h
  rename_i hnew
  split at h
  · cases h
  · cases h
  rename_i hsecret
  split at h
  · cases h
  rename_i hdigest
  split at h
  · cases h
  · rename_i size mode classes _ _ hclasses
    split at h <;> cases h
    rename_i hmode
    refine ⟨⟨hrelative, hsecret, ?_, Nat.le_of_not_lt hmode, classesOf_ok hclasses⟩, hnew⟩
    simpa using hdigest
  · cases h
  · split at h <;> cases h

theorem validateFiles_ok (h : validateFiles platform seen entries = .ok files) :
    List.Forall₂ (FileOk platform) entries files ∧ ∀ file ∈ files, file.path ∉ seen := by
  induction entries generalizing seen files with
  | nil =>
      cases h
      exact ⟨.nil, fun _ hmem => nomatch hmem⟩
  | cons entry rest ih =>
      unfold validateFiles at h
      cases hfile : validateFile platform seen entry with
      | error error =>
          rw [hfile] at h
          cases h
      | ok file =>
          rw [hfile] at h
          cases hfiles : validateFiles platform (file.path :: seen) rest with
          | error error =>
              simp only [bind, Except.bind, hfiles] at h
              cases h
          | ok later =>
              simp only [bind, Except.bind, hfiles] at h
              cases h
              rcases validateFile_ok hfile with ⟨hok, hnew⟩
              rcases ih hfiles with ⟨hall, hlater⟩
              refine ⟨.cons hok hall, ?_⟩
              intro found hfound
              rcases List.mem_cons.mp hfound with rfl | hmem
              · exact hnew
              · exact fun hseen => hlater found hmem (List.mem_cons_of_mem _ hseen)

theorem validatePaths_ok (h : validatePaths texts = .ok texts') :
    List.Forall₂ (fun text text' => validateRelativePath text = .ok text') texts texts' := by
  induction texts generalizing texts' with
  | nil =>
      cases h
      exact .nil
  | cons text rest ih =>
      unfold validatePaths at h
      cases htext : validateRelativePath text with
      | error error =>
          rw [htext] at h
          cases h
      | ok relative =>
          rw [htext] at h
          cases hrest : validatePaths rest with
          | error error =>
              simp only [bind, Except.bind, hrest] at h
              cases h
          | ok later =>
              simp only [bind, Except.bind, hrest] at h
              cases h
              exact .cons htext (ih hrest)

theorem validateTombstones_ok (h : validateTombstones live values = .ok texts) :
    List.Forall₂ (fun value text => ∃ raw, value = .str raw ∧
      validateRelativePath raw = .ok text ∧ text ∉ live) values texts := by
  induction values generalizing texts with
  | nil =>
      cases h
      exact .nil
  | cons value rest ih =>
      cases value with
      | str text =>
          unfold validateTombstones at h
          cases htext : validateRelativePath text with
          | error error =>
              rw [htext] at h
              cases h
          | ok relative =>
              simp only [htext, bind, Except.bind] at h
              split at h
              · cases h
              rename_i hlive
              cases hrest : validateTombstones live rest with
              | error error =>
                  simp only [hrest] at h
                  cases h
              | ok later =>
                  simp only [hrest] at h
                  cases h
                  exact .cons ⟨text, rfl, htext, hlive⟩ (ih hrest)
      | null | bool | int | float | arr | obj => cases h

theorem normaliseReleaseId_ok (h : normaliseReleaseId text = .ok text') : text' = strip text := by
  unfold normaliseReleaseId at h
  simp only at h
  split at h
  · cases h
  · exact (Except.ok.inj h).symm

/-- What an accepted value and its manifest have to do with each other; the tombstones are
brought into canonical form twice. -/
structure Accepts (platform : Platform) (raw : Json) (m : Manifest)
    (entries values : List Json) (once twice : List String) : Prop where
  getFiles : raw.get "files" = .arr entries
  getTombstones : raw.get "tombstones" = .arr values
  releaseId : normaliseReleaseId (strip (platform.py.text (raw.get "release_id"))) =
    .ok m.body.releaseId
  files : List.Forall₂ (FileOk platform) entries m.body.files
  paths : (m.body.files.map FileEntry.path).Pairwise (· < ·)
  validated : List.Forall₂ (fun value text => ∃ raw, value = .str raw ∧
    validateRelativePath raw = .ok text ∧ text ∉ m.body.files.map FileEntry.path) values once
  sorted : once.Pairwise (· < ·)
  again : List.Forall₂ (fun text text' => validateRelativePath text = .ok text') once twice
  tombstones : m.body.tombstones = sortedSet twice
  rootHash : m.rootHash = m.body.rootHash platform

theorem accepts_of_ok (h : validateManifest platform raw = .ok m) :
    ∃ entries values once twice, Accepts platform raw m entries values once twice := by
  unfold validateManifest at h
  split at h
  · cases h
  split at h
  · cases h
  split at h
  · cases h
  cases hrelease : normaliseReleaseId (platform.py.text (raw.get "release_id")) with
  | error error =>
      rw [hrelease] at h
      cases h
  | ok releaseId =>
      simp only [hrelease, bind, Except.bind] at h
      split at h
      · rename_i entries values hentries hvalues
        cases hfiles : validateFiles platform [] entries with
        | error error =>
            simp only [hfiles] at h
            cases h
        | ok files =>
            simp only [hfiles] at h
            split at h
            · cases h
            rename_i hpaths
            rw [not_not] at hpaths
            cases htombstones : validateTombstones (files.map FileEntry.path) values with
            | error error =>
                simp only [htombstones] at h
                cases h
            | ok once =>
                simp only [htombstones] at h
                split at h
                · cases h
                rename_i hsorted
                rw [not_not] at hsorted
                unfold manifestBody at h
                simp only [bind, Except.bind] at h
                cases hagain : normaliseReleaseId releaseId with
                | error error =>
                    simp only [hagain] at h
                    cases h
                | ok again =>
                    simp only [hagain] at h
                    cases htwice : validatePaths once with
                    | error error =>
                        simp only [htwice] at h
                        cases h
                    | ok twice =>
                        simp only [htwice, pure, Except.pure] at h
                        split at h
                        · cases h
                        rename_i hhash
                        rw [not_or, not_not] at hhash
                        cases h
                        rw [normaliseReleaseId_ok hrelease] at hagain
                        exact ⟨entries, values, once, twice, hentries, hvalues, hagain,
                          (validateFiles_ok hfiles).1,
                          sortedSet_eq_self_iff.mp hpaths.symm,
                          validateTombstones_ok htombstones,
                          sortedSet_eq_self_iff.mp hsorted.symm, validatePaths_ok htwice,
                          rfl, hhash.2⟩
      · cases h

/-- An accepted value gives its manifest the hash. -/
theorem validateManifest_rootHash (h : validateManifest platform raw = .ok m) :
    m.rootHash = platform.py.text (raw.get "root_hash") := by
  unfold validateManifest at h
  split at h
  · cases h
  split at h
  · cases h
  split at h
  · cases h
  simp only [bind, Except.bind, pure, Except.pure] at h
  split at h
  · cases h
  split at h
  · split at h
    · cases h
    split at h
    · cases h
    split at h
    · cases h
    split at h
    · cases h
    split at h
    · cases h
    split at h
    · cases h
    cases h
    rfl
  · cases h

/-! ## What is accepted as it is -/

theorem isDigest_rootHash (platform : Platform) (body : Body) :
    isDigest (body.rootHash platform) = true := by
  unfold isDigest Body.rootHash
  rw [Bool.and_eq_true, List.all_eq_true, decide_eq_true_eq]
  refine ⟨platform.py.sha256_length _, fun c hc => ?_⟩
  rw [decide_eq_true_eq]
  exact platform.py.sha256_hex _ c hc

theorem textsOf_map (texts : List String) : textsOf (texts.map .str) = some texts := by
  induction texts with
  | nil => rfl
  | cons text rest ih =>
      rw [List.map_cons, textsOf, ih]
      rfl

theorem validateFile_toJson (h : FileOk platform file.toJson file) (hnew : file.path ∉ seen) :
    validateFile platform seen file.toJson = .ok file := by
  have hkeys : hasKeys ["path", "sha256", "size", "mode", "classes"] file.toJson = true := by
    simp [hasKeys, FileEntry.toJson]
  have hpath : file.toJson.get "path" = .str file.path := rfl
  have hdigest : file.toJson.get "sha256" = .str file.sha256 := rfl
  have hsize : file.toJson.get "size" = .int file.size := rfl
  have hmode : file.toJson.get "mode" = .int file.mode := rfl
  have hclasses : file.toJson.get "classes" = .arr (file.classes.map .str) := rfl
  have hclassesOf : classesOf (.arr (file.classes.map .str)) = some file.classes := by
    unfold classesOf
    simp only [textsOf_map]
    exact if_pos h.classes
  have hrelative := h.path
  rw [hpath] at hrelative
  unfold validateFile
  rw [hkeys, hpath, hrelative, hdigest, hsize, hmode, hclasses, hclassesOf]
  have htext : platform.py.text (.str file.sha256) = file.sha256 := rfl
  simp only [htext, h.digest, h.notSecret, if_neg hnew, Bool.not_true, Bool.false_eq_true, if_false]
  exact if_neg (Nat.not_lt.mpr h.mode)

theorem validateFiles_toJson (h : ∀ file ∈ files, FileOk platform file.toJson file)
    (hnodup : (files.map FileEntry.path).Nodup) (hnew : ∀ file ∈ files, file.path ∉ seen) :
    validateFiles platform seen (files.map FileEntry.toJson) = .ok files := by
  induction files generalizing seen with
  | nil => rfl
  | cons file rest ih =>
      rw [List.map_cons, List.nodup_cons] at hnodup
      have hfirst := validateFile_toJson (h file List.mem_cons_self) (hnew file List.mem_cons_self)
      have hrest := @ih (file.path :: seen) (fun other hmem => h other (List.mem_cons_of_mem _ hmem))
        hnodup.2 (by
          intro other hmem hseen
          rcases List.mem_cons.mp hseen with hsame | hbefore
          · exact hnodup.1 (hsame ▸ List.mem_map_of_mem hmem)
          · exact hnew other (List.mem_cons_of_mem _ hmem) hbefore)
      rw [List.map_cons, validateFiles]
      simp only [hfirst, hrest, bind, Except.bind]
      rfl

theorem validatePaths_fixed (h : ∀ text ∈ texts, validateRelativePath text = .ok text) :
    validatePaths texts = .ok texts := by
  induction texts with
  | nil => rfl
  | cons text rest ih =>
      rw [validatePaths]
      simp only [h text List.mem_cons_self, bind, Except.bind,
        ih fun other hmem => h other (List.mem_cons_of_mem _ hmem)]
      rfl

theorem validateTombstones_fixed (h : ∀ text ∈ texts, validateRelativePath text = .ok text)
    (hlive : ∀ text ∈ texts, text ∉ live) :
    validateTombstones live (texts.map .str) = .ok texts := by
  induction texts with
  | nil => rfl
  | cons text rest ih =>
      rw [List.map_cons, validateTombstones]
      simp only [h text List.mem_cons_self, bind, Except.bind, if_neg (hlive text List.mem_cons_self),
        ih (fun other hmem => h other (List.mem_cons_of_mem _ hmem))
          (fun other hmem => hlive other (List.mem_cons_of_mem _ hmem))]
      rfl

/-- A manifest whose fields are canonical. -/
structure Sound (platform : Platform) (m : Manifest) : Prop where
  releaseId : normaliseReleaseId m.body.releaseId = .ok m.body.releaseId
  files : ∀ file ∈ m.body.files, FileOk platform file.toJson file
  paths : (m.body.files.map FileEntry.path).Pairwise (· < ·)
  tombstones : ∀ text ∈ m.body.tombstones, validateRelativePath text = .ok text
  sorted : m.body.tombstones.Pairwise (· < ·)
  disjoint : ∀ text ∈ m.body.tombstones, text ∉ m.body.files.map FileEntry.path
  rootHash : m.rootHash = m.body.rootHash platform

/-- A manifest with canonical fields is accepted as it is. -/
theorem validate_sound (h : Sound platform m) : validateManifest platform m.toJson = .ok m := by
  have hkeys : hasKeys ["schema", "release_id", "files", "tombstones", "root_hash"] m.toJson =
      true := by
    simp [hasKeys, Manifest.toJson, Body.fields]
  have hschema : isSchema (m.toJson.get "schema") = true := rfl
  have hrelease : platform.py.text (m.toJson.get "release_id") = m.body.releaseId := rfl
  have hfiles : m.toJson.get "files" = .arr (m.body.files.map FileEntry.toJson) := rfl
  have htombstones : m.toJson.get "tombstones" = .arr (m.body.tombstones.map .str) := rfl
  have hhash : platform.py.text (m.toJson.get "root_hash") = m.rootHash := rfl
  have hobj : m.toJson.isObj = true := rfl
  have hbody : manifestBody m.body.releaseId m.body.files m.body.tombstones = .ok m.body := by
    unfold manifestBody
    simp only [h.releaseId, validatePaths_fixed h.tombstones, bind, Except.bind,
      sortedSet_eq_self h.sorted]
    rfl
  have hdigest : isDigest m.rootHash = true := by
    rw [h.rootHash]
    exact isDigest_rootHash platform m.body
  unfold validateManifest
  simp only [hobj, hkeys, hschema, hrelease, hfiles, htombstones, hhash, h.releaseId, bind,
    Except.bind, Bool.not_true, Bool.false_eq_true, if_false, ne_eq,
    validateFiles_toJson h.files (nodup_of_increasing h.paths) (fun _ _ => List.not_mem_nil),
    sortedSet_eq_self h.paths, validateTombstones_fixed h.tombstones h.disjoint,
    sortedSet_eq_self h.sorted, not_true_eq_false, hbody, hdigest, ← h.rootHash, or_self]
  rfl

/-! ## The law -/

/-- Unique, sorted, relative paths; no path is live and tombstoned. -/
structure CanonicalManifest (m : Manifest) : Prop where
  paths : (m.body.files.map FileEntry.path).Pairwise (· < ·)
  tombstones : m.body.tombstones.Pairwise (· < ·)
  relative : ∀ path ∈ m.body.files.map FileEntry.path ++ m.body.tombstones, Relative path
  disjoint : ∀ path ∈ m.body.tombstones, path ∉ m.body.files.map FileEntry.path

/-- The paths that a value gives its files. -/
def rawPaths (platform : Platform) (raw : Json) : List String :=
  (raw.get "files").items.map fun entry => platform.py.text (entry.get "path")

/-- The tombstones of a value. -/
def rawTombstones (platform : Platform) (raw : Json) : List String :=
  (raw.get "tombstones").items.map platform.py.text

/-- The canonical form of every file's path is its own canonical form, and so is that of
every tombstone, taken twice, which is not the path of a file. -/
structure Settles (platform : Platform) (raw : Json) : Prop where
  paths : ∀ path ∈ rawPaths platform raw, ∃ relative,
    validateRelativePath path = .ok relative ∧ validateRelativePath relative = .ok relative
  tombstones : ∀ path ∈ rawTombstones platform raw, ∃ once twice,
    validateRelativePath path = .ok once ∧ validateRelativePath once = .ok twice ∧
      validateRelativePath twice = .ok twice ∧
        ∀ live ∈ rawPaths platform raw, validateRelativePath live ≠ .ok twice

theorem forall₂_left {α β : Type} {R : α → β → Prop} {xs : List α} {ys : List β}
    (h : List.Forall₂ R xs ys) : ∀ x ∈ xs, ∃ y ∈ ys, R x y := by
  induction h with
  | nil => exact fun _ hmem => nomatch hmem
  | cons hR _ ih =>
      intro x hx
      rcases List.mem_cons.mp hx with rfl | hlater
      · exact ⟨_, List.mem_cons_self, hR⟩
      · rcases ih x hlater with ⟨y, hy, hxy⟩
        exact ⟨y, List.mem_cons_of_mem _ hy, hxy⟩

theorem forall₂_right {α β : Type} {R : α → β → Prop} {xs : List α} {ys : List β}
    (h : List.Forall₂ R xs ys) : ∀ y ∈ ys, ∃ x ∈ xs, R x y :=
  forall₂_left h.flip

theorem Accepts.rawPath {once twice : List String}
    (h : Accepts platform raw m entries values once twice) :
    ∀ path ∈ m.body.files.map FileEntry.path, ∃ given ∈ rawPaths platform raw,
      validateRelativePath given = .ok path := by
  intro path hpath
  rcases List.mem_map.mp hpath with ⟨file, hfile, rfl⟩
  rcases forall₂_right h.files file hfile with ⟨entry, hentry, hok⟩
  refine ⟨_, ?_, hok.path⟩
  unfold rawPaths
  rw [h.getFiles]
  exact List.mem_map_of_mem (f := fun entry => platform.py.text (entry.get "path")) hentry

theorem Accepts.ofRawPath {once twice : List String}
    (h : Accepts platform raw m entries values once twice) :
    ∀ given ∈ rawPaths platform raw, ∃ file ∈ m.body.files,
      validateRelativePath given = .ok file.path := by
  intro given hgiven
  unfold rawPaths at hgiven
  rw [h.getFiles] at hgiven
  rcases List.mem_map.mp hgiven with ⟨entry, hentry, rfl⟩
  rcases forall₂_left h.files entry hentry with ⟨file, hfile, hok⟩
  exact ⟨file, hfile, hok.path⟩

/-- The tombstones of the manifest are those of the value, brought into canonical form
twice. -/
theorem Accepts.tombstone {once twice : List String}
    (h : Accepts platform raw m entries values once twice) :
    ∀ text ∈ m.body.tombstones, ∃ given ∈ rawTombstones platform raw, ∃ relative,
      validateRelativePath given = .ok relative ∧ validateRelativePath relative = .ok text := by
  intro text htext
  rw [h.tombstones, mem_sortedSet] at htext
  rcases forall₂_right h.again text htext with ⟨relative, hrelative, hagain⟩
  rcases forall₂_right h.validated relative hrelative with ⟨value, hvalue, given, rfl, hok, -⟩
  refine ⟨given, ?_, relative, hok, hagain⟩
  unfold rawTombstones
  rw [h.getTombstones]
  exact List.mem_map_of_mem (f := platform.py.text) hvalue

theorem Accepts.ofRawTombstone {once twice : List String}
    (h : Accepts platform raw m entries values once twice) :
    ∀ given ∈ rawTombstones platform raw, ∃ relative, ∃ text ∈ m.body.tombstones,
      validateRelativePath given = .ok relative ∧ validateRelativePath relative = .ok text := by
  intro given hgiven
  unfold rawTombstones at hgiven
  rw [h.getTombstones] at hgiven
  rcases List.mem_map.mp hgiven with ⟨value, hvalue, rfl⟩
  rcases forall₂_left h.validated value hvalue with ⟨relative, hrelative, given, rfl, hok, -⟩
  rcases forall₂_left h.again relative hrelative with ⟨text, htext, hagain⟩
  refine ⟨relative, text, ?_, hok, hagain⟩
  rw [h.tombstones, mem_sortedSet]
  exact htext

/-- A value that settles gives canonical fields. -/
theorem Accepts.sound {once twice : List String}
    (h : Accepts platform raw m entries values once twice) (hsettles : Settles platform raw) :
    Sound platform m := by
  have hsettled : ∀ text ∈ m.body.tombstones, validateRelativePath text = .ok text ∧
      ∀ live ∈ rawPaths platform raw, validateRelativePath live ≠ .ok text := by
    intro text htext
    rcases h.tombstone text htext with ⟨given, hgiven, relative, hrelative, hagain⟩
    rcases hsettles.tombstones given hgiven with ⟨first, second, hfirst, hsecond, hfixed, hlive⟩
    cases hrelative.symm.trans hfirst
    cases hagain.symm.trans hsecond
    exact ⟨hfixed, hlive⟩
  constructor
  · have hsame := normaliseReleaseId_ok h.releaseId
    rw [strip_strip] at hsame
    have hrelease := h.releaseId
    rwa [← hsame] at hrelease
  · intro file hfile
    rcases forall₂_right h.files file hfile with ⟨entry, -, hok⟩
    rcases h.rawPath _ (List.mem_map_of_mem hfile) with ⟨given, hgiven, hpath⟩
    rcases hsettles.paths given hgiven with ⟨relative, hrelative, hfixed⟩
    cases hrelative.symm.trans hpath
    exact ⟨hfixed, hok.notSecret, hok.digest, hok.mode, hok.classes⟩
  · exact h.paths
  · exact fun text htext => (hsettled text htext).1
  · rw [h.tombstones]
    exact sortedSet_pairwise twice
  · intro text htext hlive
    rcases h.rawPath text hlive with ⟨given, hgiven, hpath⟩
    exact (hsettled text htext).2 given hgiven hpath
  · exact h.rootHash

theorem Sound.canonical (h : Sound platform m) : CanonicalManifest m := by
  refine ⟨h.paths, h.sorted, ?_, h.disjoint⟩
  intro path hpath
  apply relative_of_fixed
  rcases List.mem_append.mp hpath with hlive | htombstone
  · rcases List.mem_map.mp hlive with ⟨file, hfile, rfl⟩
    exact (h.files file hfile).path
  · exact h.tombstones path htombstone

/-- Paths that are validated twice get no longer, and are what they were if together they
get no shorter. -/
theorem fixed_of_length {once twice : List String}
    (honce : List.Forall₂ (fun path path' => validateRelativePath path = .ok path') texts once)
    (htwice : List.Forall₂ (fun path path' => validateRelativePath path = .ok path') once twice) :
    (twice.map fun path => path.toList.length).sum ≤
        (texts.map fun path => path.toList.length).sum ∧
      ((texts.map fun path => path.toList.length).sum ≤
        (twice.map fun path => path.toList.length).sum →
          ∀ path ∈ texts, validateRelativePath path = .ok path) := by
  induction honce generalizing twice with
  | nil =>
      cases htwice
      exact ⟨Nat.le_refl _, fun _ _ hmem => nomatch hmem⟩
  | cons hfirst _ ih =>
      cases htwice with
      | cons hsecond hrest =>
          rcases validated_length_le hfirst with ⟨hle, hsame⟩
          rcases validated_length_le hsecond with ⟨hle', -⟩
          rcases ih hrest with ⟨hsum, hfixed⟩
          simp only [List.map_cons, List.sum_cons]
          refine ⟨by omega, fun hback => ?_⟩
          intro path hpath
          rcases List.mem_cons.mp hpath with rfl | hlater
          · rw [hsame (by omega)] at hfirst
            exact hfirst
          · exact hfixed (by omega) path hlater

/-- The tombstones of a manifest that is accepted as it is are canonical. -/
theorem Accepts.fixed {once twice : List String}
    (h : Accepts platform m.toJson m entries values once twice) :
    ∀ path ∈ m.body.tombstones, validateRelativePath path = .ok path := by
  have hvalues : values = m.body.tombstones.map .str := Json.arr.inj h.getTombstones.symm
  have honce : List.Forall₂ (fun path path' => validateRelativePath path = .ok path')
      m.body.tombstones once := by
    have hvalidated := h.validated
    rw [hvalues, List.forall₂_map_left_iff] at hvalidated
    apply hvalidated.imp
    rintro path relative ⟨given, heq, hok, -⟩
    cases heq
    exact hok
  have hlength : twice.length ≤ (sortedSet twice).length := by
    rw [← h.tombstones, ← honce.length_eq.trans h.again.length_eq]
  have hperm := perm_of_sortedSet_length hlength
  rw [← h.tombstones] at hperm
  apply (fixed_of_length honce h.again).2
  exact Nat.le_of_eq (hperm.map fun path => path.toList.length).sum_eq

/-- The manifest is canonical, and accepted again as it is, exactly when the paths of the
value settle. -/
theorem manifest_law (h : validateManifest platform raw = .ok m) :
    (CanonicalManifest m ∧ validateManifest platform m.toJson = .ok m) ↔
      Settles platform raw := by
  rcases accepts_of_ok h with ⟨entries, values, once, twice, haccepts⟩
  constructor
  · rintro ⟨hcanonical, hagain⟩
    rcases accepts_of_ok hagain with ⟨entries', values', once', twice', hself⟩
    constructor
    · intro given hgiven
      rcases haccepts.ofRawPath given hgiven with ⟨file, hfile, hpath⟩
      refine ⟨file.path, hpath, ?_⟩
      have hentries : entries' = m.body.files.map FileEntry.toJson := Json.arr.inj hself.getFiles.symm
      have hfiles := hself.files
      rw [hentries, List.forall₂_map_left_iff, List.forall₂_same] at hfiles
      exact (hfiles file hfile).path
    · intro given hgiven
      rcases haccepts.ofRawTombstone given hgiven with ⟨relative, text, htext, hrelative, hagain⟩
      refine ⟨relative, text, hrelative, hagain, hself.fixed text htext, ?_⟩
      intro live hlive hpath
      rcases haccepts.ofRawPath live hlive with ⟨file, hfile, hok⟩
      cases hpath.symm.trans hok
      exact hcanonical.disjoint _ htext (List.mem_map_of_mem hfile)
  · intro hsettles
    have hsound := haccepts.sound hsettles
    exact ⟨hsound.canonical, validate_sound hsound⟩

/-! ## A path that is live and tombstoned -/

/-- The canonical JSON of a body with one empty file. -/
def sampleText (tombstones : String) : List UInt8 :=
  ("\x7b\"files\":[\x7b\"classes\":[\"artifacts\"],\"mode\":420,\"path\":\"a\",\"sha256\":" ++
    "\"e3b0c44298fc1c149afbf4c8996fb92427ae41e4649b934ca495991b7852b855\",\"size\":0\x7d]," ++
    "\"release_id\":\"v1\",\"schema\":1,\"tombstones\":[" ++ tombstones ++ "]\x7d").toList.map
      fun c => UInt8.ofNat c.toNat

def plainHash : String := "9122118ec4dff51d50c22c3dacda6cba9748521c58ff81efad5e7c7a00d87900"
def tombstonedHash : String := "280c3dc1bcdc6bca1878d0e975f605f2fefe63e2a1ddcecf0cc60835a5da85c7"

/-- The hashes of these bodies. -/
def sampleHash (bytes : List UInt8) : String :=
  if bytes = sampleText "" then plainHash
  else if bytes = sampleText "\"a\"" then tombstonedHash
  else String.ofList (List.replicate 64 '0')

theorem isDigest_sampleHash (bytes : List UInt8) : isDigest (sampleHash bytes) = true := by
  unfold sampleHash
  split
  · decide +kernel
  split
  · decide +kernel
  · decide +kernel

/-- Python and JSON on these bodies. -/
def samplePlatform : Platform where
  py :=
    { loads := fun _ => none
      dumps := fun _ => ""
      repr := fun _ => ""
      lower := id
      basename := id
      sha256 := sampleHash
      sha256_length := fun bytes => by
        have hdigest := isDigest_sampleHash bytes
        unfold isDigest at hdigest
        rw [Bool.and_eq_true, decide_eq_true_eq] at hdigest
        exact hdigest.1
      sha256_hex := fun bytes c hc => by
        have hdigest := isDigest_sampleHash bytes
        unfold isDigest at hdigest
        rw [Bool.and_eq_true, List.all_eq_true] at hdigest
        exact of_decide_eq_true (hdigest.2 c hc) }
  casefold := id
  canonicalJson := fun value =>
    if (value.get "tombstones").items.isEmpty then sampleText "" else sampleText "\"a\""

def sampleFile : FileEntry where
  path := "a"
  sha256 := "e3b0c44298fc1c149afbf4c8996fb92427ae41e4649b934ca495991b7852b855"
  size := 0
  mode := 420
  classes := ["artifacts"]

/-- A value with that file. -/
def sampleRaw (tombstones : List String) (rootHash : String) : Json :=
  (Manifest.toJson ⟨⟨"v1", [sampleFile], tombstones⟩, rootHash⟩)

/-- The file is live, and its path is a tombstone of the manifest. -/
theorem live_and_tombstoned :
    ¬ ∀ raw m, validateManifest samplePlatform raw = .ok m →
      CanonicalManifest m ∧ validateManifest samplePlatform m.toJson = .ok m := by
  intro hclaim
  have hok : validateManifest samplePlatform (sampleRaw ["./ a"] tombstonedHash) =
      .ok ⟨⟨"v1", [sampleFile], ["a"]⟩, tombstonedHash⟩ := by
    decide +kernel
  exact (hclaim _ _ hok).1.disjoint "a" (by simp) (by simp [sampleFile])

/-- The law of a manifest without tombstones. -/
theorem manifest_law_plain :
    (CanonicalManifest ⟨⟨"v1", [sampleFile], []⟩, plainHash⟩ ∧
      validateManifest samplePlatform (sampleRaw [] plainHash) =
        .ok ⟨⟨"v1", [sampleFile], []⟩, plainHash⟩) ↔
      Settles samplePlatform (sampleRaw [] plainHash) :=
  manifest_law (by decide +kernel)

end Backup
end Stemcell
