import Stemcell.Backup.Journals
import Stemcell.Lib.Dict
import Stemcell.Lib.Sweep

/-!
# Collecting old snapshots

The store holds manifests and the objects that they share by content.  A collection keeps the
newest manifests and the protected ones, verifies the objects of these, and deletes first the
other manifests and then the objects that no kept manifest names.

Main results:

- Definition `garbageCollectReferencedSnapshots`: one collection, with its deletions in order.
- Theorem `plan_spec`: what a plan that was made says about the store.
- Theorem `gc_law`: what a collection keeps, what it deletes, and what holds while it deletes.
- Theorem `expired_without_object`: a manifest that is not kept may lack an object.

Current gaps:

- The check of a path right before its deletion and the refusal of redirected directories are
  not modelled, since a store is given by what its directories hold.
- The limits of a scan are checked after it, one after the other.
-/

namespace Stemcell
namespace Backup

open Interface (Json)
open Lib

structure SnapshotLimits where
  maxFiles : Nat
  maxFileSize : Nat
  maxTotalSize : Nat
  chunkSize : Nat
  sourceRetries : Nat

/-- `SnapshotLimits.validate`. -/
def SnapshotLimits.valid (limits : SnapshotLimits) : Bool :=
  1 ≤ limits.maxFiles && 4096 ≤ limits.chunkSize && 1 ≤ limits.sourceRetries

structure SnapshotGCLimits where
  maxManifests : Nat
  maxObjects : Nat
  maxUnexpectedEntries : Nat

/-- A file of the directory of manifests; no `content` if it cannot be read. -/
structure ManifestFile where
  mtimeNs : Int
  size : Nat
  content : Option Json

/-- The manifests by root hash, the objects by digest, and the names of the entries that have
no place in a store. -/
structure Store where
  manifests : Dict String ManifestFile
  objects : Dict String (List UInt8)
  strays : List String

/-- A store without entries. -/
def Store.empty : Store :=
  ⟨Dict.empty, Dict.empty, []⟩

structure SnapshotGCPlan where
  retainLatest : Nat
  protectedRootHashes : List String
  retainedRootHashes : List String
  deleteManifests : List String
  deleteObjects : List String
  unexpectedEntries : List String
  reclaimableBytes : Nat
  dryRun : Bool
deriving DecidableEq

/-- The deletions of a collection, and what it returns. -/
structure Outcome where
  deletions : List (Removal String String)
  result : Except String SnapshotGCPlan
deriving DecidableEq

/-- The store after one deletion. -/
def Store.remove (store : Store) : Removal String String → Store
  | .root rootHash => { store with manifests := store.manifests.pop rootHash }
  | .leaf digest => { store with objects := store.objects.pop digest }

/-- The store after some deletions. -/
def Store.removeAll (store : Store) (deletions : List (Removal String String)) : Store :=
  deletions.foldl Store.remove store

/-! ## The plan -/

/-- The order of `newest`: the later first, equally late ones by their hashes. -/
def newer (a b : String × ManifestFile) : Prop :=
  b.2.mtimeNs < a.2.mtimeNs ∨ a.2.mtimeNs = b.2.mtimeNs ∧ a.1 < b.1

def notOlder (a b : String × ManifestFile) : Prop :=
  b.2.mtimeNs < a.2.mtimeNs ∨ a.2.mtimeNs = b.2.mtimeNs ∧ a.1 ≤ b.1

instance : DecidableRel newer := fun a b => by
  unfold newer
  exact inferInstance

instance : DecidableRel notOlder := fun a b => by
  unfold notOlder
  exact inferInstance

/-- The manifests, the newest first. -/
def Store.newest (store : Store) : List (String × ManifestFile) :=
  store.manifests.entries.insertionSort notOlder

section Plan

variable (platform : Platform)

/-- `_load_manifest`, for the file of a root hash. -/
def loadManifest (rootHash : String) (file : ManifestFile) : Except String Manifest :=
  match file.content with
  | none => .error "Could not read snapshot manifest."
  | some raw =>
      match validateManifest platform raw with
      | .error error => .error error
      | .ok manifest =>
          if manifest.rootHash ≠ rootHash then
            .error "Manifest filename and root hash disagree."
          else .ok manifest

/-- Every manifest of the store. -/
def loadManifests : List (String × ManifestFile) → Except String (List (String × Manifest))
  | [] => .ok []
  | (rootHash, file) :: rest =>
      match loadManifest platform rootHash file with
      | .error error => .error s!"Snapshot {rootHash} is corrupt: {error}"
      | .ok manifest => do
          let manifests ← loadManifests rest
          return (rootHash, manifest) :: manifests

/-- The files of one manifest in `_verify_retained_manifests`. -/
def referenceFiles (limits : SnapshotLimits) (rootHash : String) :
    Nat → Dict String Nat → List FileEntry → Except String (Dict String Nat)
  | _, referenced, [] => .ok referenced
  | total, referenced, file :: rest =>
      let path := file.path
      let digest := file.sha256
      if limits.maxFileSize < file.size then
        .error s!"Retained snapshot file {path} exceeds max_file_size."
      else if limits.maxTotalSize < total + file.size then
        .error s!"Retained snapshot {rootHash} exceeds max_total_size."
      else
        match referenced.get? digest with
        | none =>
            referenceFiles limits rootHash (total + file.size) (referenced.set digest file.size) rest
        | some size =>
            if size ≠ file.size then .error s!"Retained manifests disagree about object {digest}."
            else referenceFiles limits rootHash (total + file.size) referenced rest

/-- The manifests in `_verify_retained_manifests`. -/
def referenceManifests (limits : SnapshotLimits) :
    Dict String Nat → List (String × Manifest) → Except String (Dict String Nat)
  | referenced, [] => .ok referenced
  | referenced, (rootHash, manifest) :: rest =>
      if limits.maxFiles < manifest.body.files.length then
        .error s!"Retained snapshot {rootHash} exceeds max_files."
      else do
        let referenced ← referenceFiles limits rootHash 0 referenced manifest.body.files
        referenceManifests limits referenced rest

/-- `_verify_object`. -/
def verifyObject (store : Store) (digest : String) (expectedSize : Nat) : Except String Unit :=
  match store.objects.get? digest with
  | none => .error "Missing snapshot object"
  | some bytes =>
      if platform.py.sha256 bytes ≠ digest ∨ bytes.length ≠ expectedSize then
        .error s!"Snapshot object {digest} failed its SHA-256/size check."
      else .ok ()

def verifyObjects (store : Store) : List (String × Nat) → Except String Unit
  | [] => .ok ()
  | (digest, size) :: rest => do
      verifyObject platform store digest size
      verifyObjects store rest

/-- `_verify_retained_manifests`: the digests of the objects that the manifests name. -/
def verifyRetainedManifests (store : Store) (limits : SnapshotLimits)
    (manifests : List (String × Manifest)) : Except String (List String) := do
  let referenced ← referenceManifests limits Dict.empty manifests
  verifyObjects platform store (referenced.entries.insertionSort fun a b => a.1 ≤ b.1)
  return referenced.keys

/-- `_empty_gc_plan`. -/
def emptyGcPlan (retainLatest : Nat) (protectedRoots : List String) :
    Except String SnapshotGCPlan :=
  if protectedRoots ≠ [] then
    .error "A protected snapshot root is absent from the canonical local store."
  else
    .ok { retainLatest := retainLatest
          protectedRootHashes := protectedRoots
          retainedRootHashes := []
          deleteManifests := []
          deleteObjects := []
          unexpectedEntries := []
          reclaimableBytes := 0
          dryRun := true }

/-- The root hashes that are kept. -/
def Store.retainedRoots (store : Store) (retainLatest : Nat) (protectedRoots : List String) :
    List String :=
  sortedSet ((store.newest.take retainLatest).map Prod.fst ++ protectedRoots)

/-- `_plan_snapshot_gc_locked`, for a store that is there. -/
def planSnapshotGcLocked (store : Store) (retainLatest : Nat) (protectedRoots : List String)
    (limits : SnapshotLimits) (gcLimits : SnapshotGCLimits) : Except String SnapshotGCPlan :=
  if gcLimits.maxManifests < store.manifests.size then
    .error "Snapshot GC exceeds max_manifests."
  else if (protectedRoots.filter fun root => !store.manifests.contains root) ≠ [] then
    .error ("Protected snapshot root is absent: " ++ ", ".intercalate
      (protectedRoots.filter fun root => !store.manifests.contains root))
  else do
    let retainedRoots := store.retainedRoots retainLatest protectedRoots
    let parsed ← loadManifests platform
      (store.manifests.entries.insertionSort fun a b => a.1 ≤ b.1)
    let referenced ← verifyRetainedManifests platform store limits
      (parsed.filter fun entry => entry.1 ∈ retainedRoots)
    if gcLimits.maxObjects < store.objects.size then
      .error "Snapshot GC exceeds max_objects."
    else if gcLimits.maxUnexpectedEntries < store.strays.length then
      .error "Snapshot GC exceeds max_unexpected_entries."
    else
      let deleteManifests := sortedSet (store.manifests.keys.filter (· ∉ retainedRoots))
      let deleteObjects := sortedSet (store.objects.keys.filter (· ∉ referenced))
      return { retainLatest := retainLatest
               protectedRootHashes := protectedRoots
               retainedRootHashes := retainedRoots
               deleteManifests := deleteManifests
               deleteObjects := deleteObjects
               unexpectedEntries := store.strays.insertionSort (· ≤ ·)
               reclaimableBytes :=
                 (deleteManifests.filterMap fun root =>
                    (store.manifests.get? root).map ManifestFile.size).sum +
                  (deleteObjects.filterMap fun digest =>
                    (store.objects.get? digest).map List.length).sum
               dryRun := true }

end Plan

/-! ## The collection -/

/-- `_apply_snapshot_gc_plan`. -/
def applySnapshotGcPlan (plan : SnapshotGCPlan) : Outcome :=
  if plan.unexpectedEntries ≠ [] then
    ⟨[], .error "Snapshot GC found unexpected or unsafe entries; refusing every deletion"⟩
  else
    ⟨sweep plan.deleteManifests plan.deleteObjects, .ok { plan with dryRun := false }⟩

/-- The protected hashes of `_normalise_gc_parameters`. -/
def normaliseProtected (rootHashes : List String) : Except String (List String) :=
  match rootHashes.find? fun rootHash => !isDigest rootHash with
  | some rootHash => .error s!"Invalid protected snapshot root hash: {rootHash}"
  | none => .ok (sortedSet rootHashes)

/-- `_normalise_gc_parameters`. -/
def normaliseGcParameters (retainLatest : Int) (rootHashes : List String)
    (gcLimits : SnapshotGCLimits) : Except String (Nat × List String) :=
  if retainLatest < 0 then .error "retain_latest must be a non-negative integer."
  else do
    let protectedRoots ← normaliseProtected rootHashes
    if gcLimits.maxManifests < 1 ∨ gcLimits.maxObjects < 1 then
      .error "Snapshot GC limits must be positive and valid."
    else return (retainLatest.toNat, protectedRoots)

section Collect

variable (platform : Platform)

/-- The part that the two collections share. -/
def collectGarbage (store : Option Store) (retainLatest : Nat) (protectedRoots : List String)
    (dryRun : Bool) (limits : SnapshotLimits) (gcLimits : SnapshotGCLimits) : Outcome :=
  match store with
  | none => ⟨[], emptyGcPlan retainLatest protectedRoots⟩
  | some store =>
      match planSnapshotGcLocked platform store retainLatest protectedRoots limits gcLimits with
      | .error error => ⟨[], .error error⟩
      | .ok plan => if dryRun then ⟨[], .ok plan⟩ else applySnapshotGcPlan plan

/-- `garbage_collect_snapshots`. -/
def garbageCollectSnapshots (store : Option Store) (retainLatest : Int)
    (protectedRootHashes : List String) (dryRun : Bool) (limits : SnapshotLimits)
    (gcLimits : SnapshotGCLimits) : Outcome :=
  match normaliseGcParameters retainLatest protectedRootHashes gcLimits with
  | .error error => ⟨[], .error error⟩
  | .ok (retain, protectedRoots) =>
      if !limits.valid then
        ⟨[], .error "Snapshot limits must be positive and internally valid."⟩
      else collectGarbage platform store retain protectedRoots dryRun limits gcLimits

/-- `garbage_collect_referenced_snapshots`. -/
def garbageCollectReferencedSnapshots (store : Option Store) (journals : Journals)
    (retainLatest : Int) (additional : List String) (dryRun : Bool) (limits : SnapshotLimits)
    (gcLimits : SnapshotGCLimits) : Outcome :=
  match normaliseGcParameters retainLatest additional gcLimits with
  | .error error => ⟨[], .error error⟩
  | .ok (retain, additional) =>
      if !limits.valid then
        ⟨[], .error "Snapshot limits must be positive and internally valid."⟩
      else
        match discoverProtectedSnapshotRoots platform journals with
        | .error error => ⟨[], .error error⟩
        | .ok discovered =>
            collectGarbage platform store retain (sortedSet (additional ++ discovered)) dryRun
              limits gcLimits

end Collect

/-! ## What a plan says -/

variable {platform : Platform} {store : Store} {limits : SnapshotLimits}
  {gcLimits : SnapshotGCLimits} {plan : SnapshotGCPlan} {journals : Journals}
  {done deletions : List (Removal String String)} {records : List (String × ManifestFile)}
  {parsed : List (String × Manifest)} {referenced referenced' : Dict String Nat}
  {files : List FileEntry} {root rootHash digest : String} {file : ManifestFile}
  {entry : FileEntry} {manifest : Manifest} {digests protectedRoots : List String}
  {total retainLatest size : Nat} {sizes : List (String × Nat)}

/-- A manifest is in the store. -/
def Holds (platform : Platform) (store : Store) (root : String) (manifest : Manifest) : Prop :=
  ∃ file, store.manifests.get? root = some file ∧ loadManifest platform root file = .ok manifest

/-- The object of a file is in the store, with the content that the file has. -/
def Present (platform : Platform) (store : Store) (entry : FileEntry) : Prop :=
  ∃ bytes, store.objects.get? entry.sha256 = some bytes ∧
    platform.py.sha256 bytes = entry.sha256 ∧ bytes.length = entry.size

/-- A manifest is in the store with all its objects. -/
def Intact (platform : Platform) (store : Store) (root : String) : Prop :=
  ∃ manifest, Holds platform store root manifest ∧
    ∀ entry ∈ manifest.body.files, Present platform store entry

/-- Fewer than so many manifests come before this one. -/
def AmongNewest (store : Store) (retainLatest : Nat) (root : String) : Prop :=
  ∃ file, store.manifests.get? root = some file ∧
    (store.manifests.entries.filter (newer · (root, file))).length < retainLatest

theorem newer_asymm (a b : String × ManifestFile) (h : newer a b) : ¬ newer b a := by
  unfold newer at *
  rcases h with hlater | ⟨hsame, hless⟩
  · omega
  · rintro (hlater | ⟨-, hgreater⟩)
    · omega
    · exact lt_asymm hless hgreater

instance : Std.Total notOlder := ⟨by
  intro a b
  unfold notOlder
  rcases lt_trichotomy a.2.mtimeNs b.2.mtimeNs with hlt | heq | hgt
  · exact .inr (.inl hlt)
  · rcases le_total a.1 b.1 with hle | hge
    · exact .inl (.inr ⟨heq, hle⟩)
    · exact .inr (.inr ⟨heq.symm, hge⟩)
  · exact .inl (.inl hgt)⟩

instance : IsTrans (String × ManifestFile) notOlder := ⟨by
  intro a b c hab hbc
  unfold notOlder at *
  rcases hab with hab | ⟨hab, hab'⟩ <;> rcases hbc with hbc | ⟨hbc, hbc'⟩
  · exact .inl (by omega)
  · exact .inl (by omega)
  · exact .inl (by omega)
  · exact .inr ⟨by omega, le_trans hab' hbc'⟩⟩

theorem newest_pairwise (store : Store) : store.newest.Pairwise newer := by
  have hperm := List.perm_insertionSort notOlder store.manifests.entries
  have hnodup : (store.newest.map Prod.fst).Nodup :=
    (hperm.map Prod.fst).nodup_iff.mpr store.manifests.nodup
  have hsorted : store.newest.Pairwise notOlder :=
    List.pairwise_insertionSort notOlder _
  have hdistinct : store.newest.Pairwise fun a b => a.1 ≠ b.1 := List.pairwise_map.mp hnodup
  apply (hsorted.and hdistinct).imp
  rintro a b ⟨hle | ⟨hsame, hle⟩, hne⟩
  · exact .inl hle
  · exact .inr ⟨hsame, lt_of_le_of_ne hle hne⟩

/-- The manifests that a plan keeps for their age. -/
theorem mem_take_newest :
    root ∈ (store.newest.take retainLatest).map Prod.fst ↔
      AmongNewest store retainLatest root := by
  have hperm : store.newest.Perm store.manifests.entries := List.perm_insertionSort notOlder _
  have htake : ∀ record, record ∈ store.newest.take retainLatest ↔
      record ∈ store.manifests.entries ∧
        (store.manifests.entries.filter (newer · record)).length < retainLatest := by
    intro record
    rw [mem_take_iff_of_pairwise newer_asymm (newest_pairwise store), hperm.mem_iff,
      (hperm.filter (newer · record)).length_eq]
  unfold AmongNewest
  rw [List.mem_map]
  constructor
  · rintro ⟨⟨root, file⟩, hmem, rfl⟩
    rcases (htake _).mp hmem with ⟨hentry, hfew⟩
    exact ⟨file, (Dict.get?_eq_some_iff _ _ _).mpr hentry, hfew⟩
  · rintro ⟨file, hget, hfew⟩
    exact ⟨(root, file), (htake _).mpr ⟨(Dict.get?_eq_some_iff _ _ _).mp hget, hfew⟩, rfl⟩

theorem loadManifests_ok (h : loadManifests platform records = .ok parsed) :
    ∀ root file, (root, file) ∈ records →
      ∃ manifest, loadManifest platform root file = .ok manifest ∧ (root, manifest) ∈ parsed := by
  induction records generalizing parsed with
  | nil => exact fun _ _ hmem => nomatch hmem
  | cons record rest ih =>
      rcases record with ⟨first, firstFile⟩
      unfold loadManifests at h
      split at h
      · cases h
      rename_i manifest hmanifest
      cases hrest : loadManifests platform rest with
      | error error =>
          rw [hrest] at h
          cases h
      | ok others =>
          rw [hrest] at h
          cases h
          intro root file hmem
          rcases List.mem_cons.mp hmem with hfirst | hlater
          · cases hfirst
            exact ⟨manifest, hmanifest, List.mem_cons_self⟩
          · rcases ih hrest root file hlater with ⟨found, hfound, hparsed⟩
            exact ⟨found, hfound, List.mem_cons_of_mem _ hparsed⟩

/-- The sizes that were known stay, and every file has its own. -/
theorem referenceFiles_ok
    (h : referenceFiles limits rootHash total referenced files = .ok referenced') :
    (∀ digest size, referenced.get? digest = some size → referenced'.get? digest = some size) ∧
      ∀ entry ∈ files, referenced'.get? entry.sha256 = some entry.size := by
  induction files generalizing total referenced with
  | nil =>
      cases h
      exact ⟨fun _ _ h => h, fun _ hmem => nomatch hmem⟩
  | cons first rest ih =>
      simp only [referenceFiles] at h
      split at h
      · cases h
      split at h
      · cases h
      split at h
      · rename_i hnew
        rcases ih h with ⟨hold, hrest⟩
        have hfirst := hold first.sha256 first.size (Dict.get?_set_self _ _ _)
        refine ⟨fun digest size hsize => hold digest size ?_, ?_⟩
        · rw [Dict.get?_set_of_ne]
          · exact hsize
          · rintro rfl
            rw [hnew] at hsize
            cases hsize
        · intro entry hmem
          rcases List.mem_cons.mp hmem with rfl | hlater
          · exact hfirst
          · exact hrest entry hlater
      · rename_i size hknown
        split at h
        · cases h
        rename_i hsame
        rw [not_not] at hsame
        rcases ih h with ⟨hold, hrest⟩
        refine ⟨hold, ?_⟩
        intro entry hmem
        rcases List.mem_cons.mp hmem with rfl | hlater
        · exact hold _ _ (hsame ▸ hknown)
        · exact hrest entry hlater

theorem referenceManifests_ok
    (h : referenceManifests limits referenced parsed = .ok referenced') :
    (∀ digest size, referenced.get? digest = some size → referenced'.get? digest = some size) ∧
      ∀ root manifest, (root, manifest) ∈ parsed → ∀ entry ∈ manifest.body.files,
        referenced'.get? entry.sha256 = some entry.size := by
  induction parsed generalizing referenced with
  | nil =>
      cases h
      exact ⟨fun _ _ h => h, fun _ _ hmem => nomatch hmem⟩
  | cons first rest ih =>
      rcases first with ⟨firstRoot, firstManifest⟩
      simp only [referenceManifests, bind, Except.bind] at h
      split at h
      · cases h
      split at h
      · cases h
      rename_i next hnext
      rcases referenceFiles_ok hnext with ⟨hold, hfiles⟩
      rcases ih h with ⟨hold', hrest⟩
      refine ⟨fun digest size hsize => hold' _ _ (hold _ _ hsize), ?_⟩
      intro root manifest hmem
      rcases List.mem_cons.mp hmem with hfirst | hlater
      · cases hfirst
        exact fun entry hentry => hold' _ _ (hfiles entry hentry)
      · exact hrest root manifest hlater

theorem verifyObject_ok (h : verifyObject platform store digest size = .ok ()) :
    ∃ bytes, store.objects.get? digest = some bytes ∧ platform.py.sha256 bytes = digest ∧
      bytes.length = size := by
  unfold verifyObject at h
  split at h
  · cases h
  rename_i bytes hbytes
  split at h
  · cases h
  rename_i hcheck
  rw [not_or, not_not, not_not] at hcheck
  exact ⟨bytes, hbytes, hcheck⟩

theorem verifyObjects_ok (h : verifyObjects platform store sizes = .ok ()) :
    ∀ digest size, (digest, size) ∈ sizes → verifyObject platform store digest size = .ok () := by
  induction sizes with
  | nil => exact fun _ _ hmem => nomatch hmem
  | cons first rest ih =>
      rcases first with ⟨firstDigest, firstSize⟩
      simp only [verifyObjects, bind, Except.bind] at h
      split at h
      · cases h
      rename_i hfirst
      intro digest size hmem
      rcases List.mem_cons.mp hmem with heq | hlater
      · cases heq
        exact hfirst
      · exact ih h digest size hlater

/-- The manifests that were verified have their objects, and these are referenced. -/
theorem verifyRetainedManifests_ok
    (h : verifyRetainedManifests platform store limits parsed = .ok digests)
    (hmanifest : (root, manifest) ∈ parsed) (hentry : entry ∈ manifest.body.files) :
    entry.sha256 ∈ digests ∧ Present platform store entry := by
  simp only [verifyRetainedManifests, bind, Except.bind] at h
  split at h
  · cases h
  rename_i referenced hreferenced
  split at h
  · cases h
  rename_i hobjects
  cases h
  have hget := (referenceManifests_ok hreferenced).2 root manifest hmanifest entry hentry
  refine ⟨Dict.mem_keys_of_get? _ hget, ?_⟩
  apply verifyObject_ok
  apply verifyObjects_ok hobjects
  rw [List.mem_insertionSort]
  exact (Dict.get?_eq_some_iff _ _ _).mp hget

/-- What the plan of a collection says about the store. -/
structure PlanSpec (platform : Platform) (store : Store) (retainLatest : Nat)
    (protectedRoots : List String) (plan : SnapshotGCPlan) : Prop where
  present : ∀ root ∈ protectedRoots, ∃ file, store.manifests.get? root = some file
  loads : ∀ root file, store.manifests.get? root = some file →
    ∃ manifest, loadManifest platform root file = .ok manifest
  deleteManifests : ∀ root, root ∈ plan.deleteManifests ↔
    root ∈ store.manifests.keys ∧ ¬ AmongNewest store retainLatest root ∧ root ∉ protectedRoots
  verified : ∀ root manifest, Holds platform store root manifest → root ∉ plan.deleteManifests →
    ∀ entry ∈ manifest.body.files, entry.sha256 ∉ plan.deleteObjects ∧
      Present platform store entry

theorem plan_spec
    (h : planSnapshotGcLocked platform store retainLatest protectedRoots limits gcLimits =
      .ok plan) : PlanSpec platform store retainLatest protectedRoots plan := by
  unfold planSnapshotGcLocked at h
  split at h
  · cases h
  split at h
  · cases h
  rename_i hmissing
  rw [not_not, List.filter_eq_nil_iff] at hmissing
  simp only [bind, Except.bind] at h
  split at h
  · cases h
  rename_i parsed hparsed
  split at h
  · cases h
  rename_i digests hdigests
  split at h
  · cases h
  split at h
  · cases h
  cases h
  have hretained : ∀ root, root ∈ store.retainedRoots retainLatest protectedRoots ↔
      AmongNewest store retainLatest root ∨ root ∈ protectedRoots := by
    intro root
    unfold Store.retainedRoots
    rw [mem_sortedSet, List.mem_append, mem_take_newest]
  have hloads : ∀ root file, store.manifests.get? root = some file →
      ∃ manifest, loadManifest platform root file = .ok manifest ∧ (root, manifest) ∈ parsed := by
    intro root file hget
    apply loadManifests_ok hparsed
    rw [List.mem_insertionSort]
    exact (Dict.get?_eq_some_iff _ _ _).mp hget
  have hdeleted : ∀ root, root ∈ sortedSet
      (store.manifests.keys.filter (· ∉ store.retainedRoots retainLatest protectedRoots)) ↔
        root ∈ store.manifests.keys ∧ ¬ AmongNewest store retainLatest root ∧
          root ∉ protectedRoots := by
    intro root
    rw [mem_sortedSet, List.mem_filter, decide_eq_true_eq, hretained, not_or]
  constructor
  · intro root hroot
    have hcontains := hmissing root hroot
    rw [Bool.not_eq_true', Bool.not_eq_false, Dict.contains_iff] at hcontains
    exact hcontains
  · intro root file hget
    rcases hloads root file hget with ⟨manifest, hload, -⟩
    exact ⟨manifest, hload⟩
  · exact hdeleted
  · rintro root manifest ⟨file, hget, hload⟩ hkept entry hentry
    rcases hloads root file hget with ⟨found, hfound, hmem⟩
    cases hload.symm.trans hfound
    have hroot : root ∈ store.retainedRoots retainLatest protectedRoots := by
      by_contra hnot
      apply hkept
      rw [mem_sortedSet, List.mem_filter, decide_eq_true_eq]
      exact ⟨Dict.mem_keys_of_get? _ hget, hnot⟩
    have hverified := verifyRetainedManifests_ok hdigests
      (List.mem_filter.mpr ⟨hmem, by simpa using hroot⟩) hentry
    refine ⟨?_, hverified.2⟩
    rw [mem_sortedSet, List.mem_filter]
    rintro ⟨-, hunreferenced⟩
    exact of_decide_eq_true hunreferenced hverified.1

/-! ## What a collection does -/

theorem removeAll_manifests (store : Store) (done : List (Removal String String)) (root : String) :
    (store.removeAll done).manifests.get? root =
      if .root root ∈ done then none else store.manifests.get? root := by
  unfold Store.removeAll
  induction done generalizing store with
  | nil => simp
  | cons removal rest ih =>
      rw [List.foldl_cons, ih]
      cases removal with
      | root name =>
          by_cases hname : name = root
          · simp [Store.remove, hname]
          · simp [Store.remove, Dict.get?_pop, hname, Ne.symm hname]
      | leaf name => simp [Store.remove]

theorem removeAll_objects (store : Store) (done : List (Removal String String))
    (digest : String) : (store.removeAll done).objects.get? digest =
      if .leaf digest ∈ done then none else store.objects.get? digest := by
  unfold Store.removeAll
  induction done generalizing store with
  | nil => simp
  | cons removal rest ih =>
      rw [List.foldl_cons, ih]
      cases removal with
      | root name => simp [Store.remove]
      | leaf name =>
          by_cases hname : name = digest
          · simp [Store.remove, hname]
          · simp [Store.remove, Dict.get?_pop, hname, Ne.symm hname]

/-- A manifest that is there after some deletions was there before. -/
theorem holds_removeAll : Holds platform (store.removeAll done) root manifest ↔
    .root root ∉ done ∧ Holds platform store root manifest := by
  unfold Holds
  rw [removeAll_manifests]
  by_cases hroot : .root root ∈ done <;> simp [hroot]

/-- What a collection keeps to: an error deletes nothing; the retained manifests stay, with
their objects; only others go, and only objects that no remaining manifest names; and a
manifest that is still there has every object that it had before. -/
structure Collects (platform : Platform) (before : Store) (retained : String → Prop)
    (outcome : Outcome) : Prop where
  refused : ∀ error, outcome.result = .error error → outcome.deletions = []
  kept : ∀ plan, outcome.result = .ok plan → ∀ root, retained root →
    ∀ done, done <+: outcome.deletions → Intact platform (before.removeAll done) root
  expired : ∀ root, .root root ∈ outcome.deletions → ¬ retained root
  unreferenced : ∀ digest, .leaf digest ∈ outcome.deletions →
    ∀ root manifest, Holds platform (before.removeAll outcome.deletions) root manifest →
      ∀ entry ∈ manifest.body.files, entry.sha256 ≠ digest
  complete : ∀ done, done <+: outcome.deletions →
    ∀ root manifest, Holds platform (before.removeAll done) root manifest →
      ∀ entry ∈ manifest.body.files,
        (before.removeAll done).objects.get? entry.sha256 = before.objects.get? entry.sha256

/-- The manifests that are among the newest or protected. -/
def RetainedBy (store : Store) (retainLatest : Nat) (protectedRoots : List String)
    (root : String) : Prop :=
  AmongNewest store retainLatest root ∨ root ∈ protectedRoots

theorem PlanSpec.kept (hspec : PlanSpec platform store retainLatest protectedRoots plan)
    (hroot : RetainedBy store retainLatest protectedRoots root) :
    root ∉ plan.deleteManifests ∧ ∃ manifest, Holds platform store root manifest := by
  constructor
  · rw [hspec.deleteManifests]
    rintro ⟨-, hold, hfree⟩
    exact hroot.elim hold hfree
  · have hfile : ∃ file, store.manifests.get? root = some file := by
      rcases hroot with ⟨file, hget, -⟩ | hprotected
      · exact ⟨file, hget⟩
      · exact hspec.present root hprotected
    rcases hfile with ⟨file, hget⟩
    rcases hspec.loads root file hget with ⟨manifest, hload⟩
    exact ⟨manifest, file, hget, hload⟩

/-- Sweeping by a plan leaves every manifest that is still there the objects it had. -/
theorem PlanSpec.not_referenced (hspec : PlanSpec platform store retainLatest protectedRoots plan)
    (hdone : done <+: sweep plan.deleteManifests plan.deleteObjects)
    (hholds : Holds platform (store.removeAll done) root manifest)
    (hentry : entry ∈ manifest.body.files) : .leaf entry.sha256 ∉ done := by
  rcases holds_removeAll.mp hholds with ⟨hkept, hbefore⟩
  apply @leaf_not_referenced _ _ _ _ _ _ _ (fun root digest => ∃ manifest,
    Holds platform store root manifest ∧ ∃ entry ∈ manifest.body.files, entry.sha256 = digest)
    (fun root => ∃ manifest, Holds platform store root manifest) ?_ hdone
    ⟨manifest, hbefore⟩ hkept ⟨manifest, hbefore, entry, hentry, rfl⟩
  rintro other - hother digest hdigest ⟨found, hfound, file, hfile, rfl⟩
  exact (hspec.verified other found hfound hother file hfile).1 hdigest

/-- A collection that deletes nothing keeps to the rules if what it retains is intact. -/
theorem collects_nothing {retained : String → Prop} {result : Except String SnapshotGCPlan}
    (hintact : ∀ plan, result = .ok plan → ∀ root, retained root → Intact platform store root) :
    Collects platform store retained ⟨[], result⟩ := by
  constructor
  · exact fun _ _ => rfl
  · intro plan hplan root hroot done hdone
    rw [List.prefix_nil.mp hdone]
    exact hintact plan hplan root hroot
  · exact fun _ hmem => nomatch hmem
  · exact fun _ hmem => nomatch hmem
  · intro done hdone root manifest _ entry _
    rw [List.prefix_nil.mp hdone]
    rfl

theorem PlanSpec.intact (hspec : PlanSpec platform store retainLatest protectedRoots plan)
    (hroot : RetainedBy store retainLatest protectedRoots root)
    (hdone : done <+: sweep plan.deleteManifests plan.deleteObjects) :
    Intact platform (store.removeAll done) root := by
  rcases hspec.kept hroot with ⟨hkept, manifest, hholds⟩
  have hafter : Holds platform (store.removeAll done) root manifest := by
    rw [holds_removeAll]
    exact ⟨fun hmem => hkept (root_mem_sweep.mp (hdone.subset hmem)), hholds⟩
  refine ⟨manifest, hafter, fun entry hentry => ?_⟩
  rcases (hspec.verified root manifest hholds hkept entry hentry).2 with ⟨bytes, hget, hsound⟩
  refine ⟨bytes, ?_, hsound⟩
  rw [removeAll_objects, if_neg (hspec.not_referenced hdone hafter hentry)]
  exact hget

theorem apply_collects (hspec : PlanSpec platform store retainLatest protectedRoots plan) :
    Collects platform store (RetainedBy store retainLatest protectedRoots)
      (applySnapshotGcPlan plan) := by
  unfold applySnapshotGcPlan
  split
  · exact collects_nothing fun _ h => nomatch h
  constructor
  · exact fun _ h => nomatch h
  · exact fun _ _ root hroot done hdone => hspec.intact hroot hdone
  · intro root hmem hretained
    exact (hspec.kept hretained).1 (root_mem_sweep.mp hmem)
  · intro digest hmem root manifest hholds entry hentry hsame
    exact hspec.not_referenced (List.prefix_refl _) hholds hentry (hsame ▸ hmem)
  · intro done hdone root manifest hholds entry hentry
    rw [removeAll_objects, if_neg (hspec.not_referenced hdone hholds hentry)]

/-- One collection, whatever it protects. -/
theorem collectGarbage_collects (platform : Platform) (store : Option Store) (retainLatest : Nat)
    (protectedRoots : List String) (dryRun : Bool) (limits : SnapshotLimits)
    (gcLimits : SnapshotGCLimits) :
    Collects platform (store.getD Store.empty)
      (RetainedBy (store.getD Store.empty) retainLatest protectedRoots)
      (collectGarbage platform store retainLatest protectedRoots dryRun limits gcLimits) := by
  unfold collectGarbage
  split
  · apply collects_nothing
    intro plan hplan root hroot
    unfold emptyGcPlan at hplan
    split at hplan
    · cases hplan
    rename_i hnone
    rw [not_not] at hnone
    rcases hroot with ⟨file, hget, -⟩ | hprotected
    · cases hget
    · rw [hnone] at hprotected
      cases hprotected
  · rename_i store
    split
    · exact collects_nothing fun _ h => nomatch h
    rename_i plan hplan
    have hspec := plan_spec hplan
    split
    · exact collects_nothing fun _ _ root hroot => hspec.intact hroot (List.nil_prefix)
    · exact apply_collects hspec

theorem Collects.imp {before : Store} {outcome : Outcome} {retained retained' : String → Prop}
    (h : Collects platform before retained' outcome)
    (himp : ∀ root, retained root → retained' root) :
    Collects platform before retained outcome := by
  refine ⟨h.refused, ?_, ?_, h.unreferenced, h.complete⟩
  · exact fun plan hplan root hroot => h.kept plan hplan root (himp root hroot)
  · exact fun root hmem hroot => h.expired root hmem (himp root hroot)

/-- A restore in place, running or the last one, was of this snapshot. -/
def NamedByRestore (platform : Platform) (journals : Journals) (root : String) : Prop :=
  ∃ value, (journals.restoreJournal = some (some value) ∨
    journals.lastRestored = some (some value)) ∧
      root = textOrEmpty platform (value.get "root_hash")

theorem normaliseGcParameters_ok {retainLatest : Int} {retain : Nat} {roots : List String}
    (h : normaliseGcParameters retainLatest roots gcLimits = .ok (retain, protectedRoots)) :
    retain = retainLatest.toNat ∧ ∀ root, root ∈ protectedRoots ↔ root ∈ roots := by
  unfold normaliseGcParameters normaliseProtected at h
  split at h
  · cases h
  simp only [bind, Except.bind] at h
  split at h
  · cases h
  rename_i found hfound
  split at hfound
  · cases hfound
  cases hfound
  split at h
  · cases h
  cases h
  exact ⟨rfl, fun root => mem_sortedSet⟩

/-- What a collection keeps, what it deletes, and what holds while it deletes.  Here with the
protected manifests given, or these and those that the journals name. -/
theorem gc_law (platform : Platform) (store : Option Store) (journals : Journals)
    (retainLatest : Int) (protectedRoots : List String) (dryRun : Bool) (limits : SnapshotLimits)
    (gcLimits : SnapshotGCLimits) :
    Collects platform (store.getD Store.empty)
      (fun root => AmongNewest (store.getD Store.empty) retainLatest.toNat root ∨
        root ∈ protectedRoots)
      (garbageCollectSnapshots platform store retainLatest protectedRoots dryRun limits gcLimits) ∧
    Collects platform (store.getD Store.empty)
      (fun root => AmongNewest (store.getD Store.empty) retainLatest.toNat root ∨
        root ∈ protectedRoots ∨ NamedByRestore platform journals root)
      (garbageCollectReferencedSnapshots platform store journals retainLatest protectedRoots dryRun
        limits gcLimits) := by
  constructor
  · unfold garbageCollectSnapshots
    split
    · exact collects_nothing fun _ h => nomatch h
    rename_i retain given hparameters
    rcases normaliseGcParameters_ok hparameters with ⟨rfl, hgiven⟩
    split
    · exact collects_nothing fun _ h => nomatch h
    apply (collectGarbage_collects platform store _ _ dryRun limits gcLimits).imp
    exact fun root hroot => hroot.imp_right (hgiven root).mpr
  · unfold garbageCollectReferencedSnapshots
    split
    · exact collects_nothing fun _ h => nomatch h
    rename_i retain given hparameters
    rcases normaliseGcParameters_ok hparameters with ⟨rfl, hgiven⟩
    split
    · exact collects_nothing fun _ h => nomatch h
    split
    · exact collects_nothing fun _ h => nomatch h
    rename_i discovered hdiscovered
    apply (collectGarbage_collects platform store _ _ dryRun limits gcLimits).imp
    rintro root (hnewest | hprotected | ⟨value, hjournal, rfl⟩)
    · exact .inl hnewest
    · right
      rw [mem_sortedSet, List.mem_append]
      exact .inl ((hgiven root).mpr hprotected)
    · right
      rw [mem_sortedSet, List.mem_append]
      exact .inr (restoreJournal_discovered hdiscovered hjournal)

/-! ## Expired manifests without their objects -/

/-- The canonical JSON of a body without files. -/
def noFilesText : List UInt8 :=
  "\x7b\"files\":[],\"release_id\":\"v2\",\"schema\":1,\"tombstones\":[]\x7d".toList.map
    fun c => UInt8.ofNat c.toNat

def noFilesHash : String := "eb85b49082444794c60d671ba001c223c3cabce728ab022b93715888e5279382"

theorem isDigest_hash (bytes : List UInt8) :
    isDigest (if bytes = noFilesText then noFilesHash else sampleHash bytes) = true := by
  split
  · decide +kernel
  · exact isDigest_sampleHash bytes

/-- Python and JSON on these bodies and those of the samples. -/
def storePlatform : Platform where
  py :=
    { samplePlatform.py with
      sha256 := fun bytes => if bytes = noFilesText then noFilesHash else sampleHash bytes
      sha256_length := fun bytes => by
        have hdigest := isDigest_hash bytes
        unfold isDigest at hdigest
        rw [Bool.and_eq_true, decide_eq_true_eq] at hdigest
        exact hdigest.1
      sha256_hex := fun bytes c hc => by
        have hdigest := isDigest_hash bytes
        unfold isDigest at hdigest
        rw [Bool.and_eq_true, List.all_eq_true] at hdigest
        exact of_decide_eq_true (hdigest.2 c hc) }
  casefold := id
  canonicalJson := fun value =>
    if (value.get "files").items.isEmpty then noFilesText else samplePlatform.canonicalJson value

/-- A new manifest without files, and two old ones of a file whose object is lost. -/
def lossyStore : Store where
  manifests :=
    { entries :=
        [(noFilesHash, ⟨3, 140, some (Manifest.toJson ⟨⟨"v2", [], []⟩, noFilesHash⟩)⟩),
          (plainHash, ⟨2, 300, some (sampleRaw [] plainHash)⟩),
          (tombstonedHash, ⟨1, 310, some (sampleRaw ["./ a"] tombstonedHash)⟩)]
      nodup := by decide }
  objects := Dict.empty
  strays := []

def defaultLimits : SnapshotLimits :=
  ⟨250000, 8 * 1024 * 1024 * 1024, 64 * 1024 * 1024 * 1024, 1024 * 1024, 5⟩

def defaultGcLimits : SnapshotGCLimits :=
  ⟨100000, 2000000, 100000⟩

/-- A successful collection that keeps one manifest deletes the oldest of three, and then the
second is there without its object. -/
theorem expired_without_object :
    ¬ ∀ platform store retainLatest protectedRoots limits gcLimits plan,
      (garbageCollectSnapshots platform (some store) retainLatest protectedRoots false limits
        gcLimits).result = .ok plan →
      ∀ done, done <+: (garbageCollectSnapshots platform (some store) retainLatest protectedRoots
          false limits gcLimits).deletions →
        ∀ root manifest, Holds platform (store.removeAll done) root manifest →
          ∀ entry ∈ manifest.body.files, Present platform (store.removeAll done) entry := by
  intro hclaim
  have hrun : garbageCollectSnapshots storePlatform (some lossyStore) 1 [] false defaultLimits
      defaultGcLimits =
        ⟨[.root tombstonedHash, .root plainHash],
          .ok ⟨1, [], [noFilesHash], [tombstonedHash, plainHash], [], [], 610, false⟩⟩ := by
    decide +kernel
  have hholds : Holds storePlatform (lossyStore.removeAll [.root tombstonedHash]) plainHash
      ⟨⟨"v1", [sampleFile], []⟩, plainHash⟩ := by
    rw [holds_removeAll]
    refine ⟨by decide +kernel, ⟨2, 300, some (sampleRaw [] plainHash)⟩, ?_, by decide +kernel⟩
    rw [Dict.get?_eq_some_iff]
    simp [lossyStore]
  rcases hclaim storePlatform lossyStore 1 [] defaultLimits defaultGcLimits _
    (congrArg Outcome.result hrun) [.root tombstonedHash]
      (by rw [hrun]; exact ⟨[.root plainHash], rfl⟩) plainHash _ hholds sampleFile
        (List.mem_singleton_self _) with ⟨bytes, hget, -⟩
  rw [removeAll_objects] at hget
  simp [lossyStore] at hget

end Backup
end Stemcell
