import Stemcell.Backup.Create

/-!
# Collecting right after a snapshot

A snapshot is created, and the next thing that happens to the store is a collection.  The collection
goes by the times of the manifests.  A snapshot that is equal to an older one does not write its
manifest again, so it is as old as that one.

Main results:

- Theorem `survival_law_iff`: the new snapshot stays, through every step of the collection, exactly
  if few enough manifests are newer than its own, it is protected, or nothing is deleted.
- Theorem `equal_snapshot_deleted`: a snapshot that is gone after the next collection.

Current gaps:

- The same as for creating and for collecting.
-/

namespace Stemcell
namespace Backup

open Interface (Json)
open Lib

variable {platform : Platform} {disk : Disk} {store store' : Store} {limits limits' : SnapshotLimits}
  {gcLimits : SnapshotGCLimits} {releaseId root : String} {protectedFiles : List ProtectedFile}
  {files files' : List FileEntry} {entries : List FileEntry} {previous : Option Json} {raw : Json}
  {mtimeNs : Int} {manifest manifest' : Manifest} {body : Body} {total : Nat} {seen : List String}
  {retainLatest : Nat} {roots : List String} {dryRun : Bool} {done : List (Removal String String)}
  {outcome : Outcome} {journals : Journals}

/-! ## What creating leaves in the store -/

theorem copySourceToObject_manifests {item : ProtectedFile} {copied : Store × String × Nat × Nat}
    (h : copySourceToObject platform disk item store limits = .ok copied) :
    copied.1.manifests = store.manifests := by
  unfold copySourceToObject at h
  dsimp only at h
  split at h
  · cases h
  · cases h
  split at h
  · cases h
  split at h
  · split at h
    · cases h
    · cases h
      rfl
  · cases h
    rfl

/-- Copying files writes no manifest. -/
theorem captureFiles_manifests
    (h : captureFiles platform disk limits total store protectedFiles = .ok (store', entries)) :
    store'.manifests = store.manifests := by
  induction protectedFiles generalizing total store entries with
  | nil =>
      cases h
      rfl
  | cons item rest ih =>
      unfold captureFiles at h
      cases hcopy : copySourceToObject platform disk item store limits with
      | error error =>
          rw [hcopy] at h
          cases h
      | ok copied =>
          have hsame := copySourceToObject_manifests hcopy
          rcases copied with ⟨copiedStore, digest, size, mode⟩
          rw [hcopy] at h
          simp only [bind, Except.bind, pure, Except.pure] at h
          split at h
          · cases h
          split at h
          · cases h
          split at h
          · cases h
          rename_i later hlater
          cases h
          rw [ih hlater, hsame]

theorem captureBody_manifests (h : captureBody platform disk releaseId protectedFiles store previous
    limits = .ok (store', body)) : store'.manifests = store.manifests := by
  unfold captureBody at h
  split at h
  · cases h
  split at h
  · cases h
  simp only [bind, Except.bind, pure, Except.pure] at h
  split at h
  · cases h
  rename_i captured hcaptured
  split at h
  · cases h
  split at h
  · cases h
  cases h
  exact captureFiles_manifests hcaptured

/-- What the file of a created manifest is: the one that was there, or a new one. -/
structure Written (platform : Platform) (limits : SnapshotLimits) (store store' : Store)
    (mtimeNs : Int) (manifest : Manifest) : Prop where
  kept : ∀ file, store.manifests.get? manifest.rootHash = some file →
    store'.manifests = store.manifests ∧ ∃ existing,
      loadManifest platform manifest.rootHash file = .ok existing ∧
        platform.canonicalJson existing.toJson = platform.canonicalJson manifest.toJson
  added : store.manifests.get? manifest.rootHash = none →
    store'.manifests = store.manifests.set manifest.rootHash
      ⟨mtimeNs, (platform.canonicalJson manifest.toJson).length + 1, some manifest.toJson⟩
  verified : ∃ again, verifyLocalSnapshot platform store' limits manifest.toJson = .ok again

theorem written_of_ok (h : createLocalSnapshot platform disk releaseId protectedFiles store previous
    limits mtimeNs = .ok (store', manifest)) :
    Written platform limits store store' mtimeNs manifest := by
  unfold createLocalSnapshot at h
  simp only [bind, Except.bind, pure, Except.pure] at h
  split at h
  · cases h
  rename_i captured hcaptured
  split at h
  · cases h
  rename_i found hvalid
  split at h
  · cases h
  rename_i written hwritten
  split at h
  · cases h
  rename_i verified hverified
  cases h
  have hsame := captureBody_manifests hcaptured
  unfold writeManifest at hwritten
  dsimp only at hwritten
  rw [hsame] at hwritten
  constructor
  · intro file hfile
    rw [hfile] at hwritten
    dsimp only at hwritten
    split at hwritten
    · cases hwritten
    rename_i existing hload
    split at hwritten
    · cases hwritten
    rename_i hcanonical
    cases hwritten
    exact ⟨hsame, existing, hload, not_not.mp hcanonical⟩
  · intro hnone
    rw [hnone] at hwritten
    cases hwritten
    rfl
  · exact ⟨verified, hverified⟩

/-! ## The files of a manifest that is read back -/

/-- The same content. -/
def SameContent (file file' : FileEntry) : Prop :=
  file'.sha256 = file.sha256 ∧ file'.size = file.size

theorem validateFile_content {file file' : FileEntry}
    (h : validateFile platform seen file.toJson = .ok file') : SameContent file file' := by
  unfold validateFile at h
  split at h
  · cases h
  split at h
  · cases h
  split at h
  · cases h
  split at h
  · cases h
  · cases h
  split at h
  · cases h
  split at h
  · cases h
  · rename_i size mode classes hsize _ _
    split at h <;> cases h
    constructor
    · rfl
    · have hnatural : naturalOf (file.toJson.get "size") = some file.size := rfl
      rw [hnatural] at hsize
      exact (Option.some.inj hsize).symm
  · cases h
  · split at h <;> cases h

theorem validateFiles_content
    (h : validateFiles platform seen (files.map FileEntry.toJson) = .ok files') :
    List.Forall₂ SameContent files files' := by
  induction files generalizing seen files' with
  | nil =>
      cases h
      exact .nil
  | cons file rest ih =>
      rw [List.map_cons, validateFiles] at h
      simp only [bind, Except.bind, pure, Except.pure] at h
      split at h
      · cases h
      rename_i first hfirst
      split at h
      · cases h
      rename_i later hlater
      cases h
      exact .cons (validateFile_content hfirst) (ih hlater)

theorem validateManifest_files (h : validateManifest platform raw = .ok manifest) :
    ∃ entries, raw.get "files" = .arr entries ∧
      validateFiles platform [] entries = .ok manifest.body.files := by
  unfold validateManifest at h
  split at h
  · cases h
  split at h
  · cases h
  split at h
  · cases h
  simp only [bind, Except.bind, pure, Except.pure] at h
  split at h
  · cases h
  split at h
  · rename_i entries values hentries hvalues
    split at h
    · cases h
    rename_i files hfiles
    split at h
    · cases h
    split at h
    · cases h
    split at h
    · cases h
    split at h
    · cases h
    rename_i body hbody
    split at h
    · cases h
    cases h
    refine ⟨entries, hentries, ?_⟩
    unfold manifestBody at hbody
    simp only [bind, Except.bind, pure, Except.pure] at hbody
    split at hbody
    · cases hbody
    split at hbody
    · cases hbody
    cases hbody
    exact hfiles
  · cases h

/-- A manifest that is read back names the same contents. -/
theorem content_of_again (h : validateManifest platform manifest.toJson = .ok manifest') :
    List.Forall₂ SameContent manifest.body.files manifest'.body.files := by
  rcases validateManifest_files h with ⟨entries, hentries, hfiles⟩
  cases hentries
  exact validateFiles_content hfiles

/-! ## The collection after it -/

/-- A manifest is in the store with every object that it names. -/
structure Survives (platform : Platform) (store : Store) (manifest : Manifest) : Prop where
  listed : ∃ again, Holds platform store manifest.rootHash again
  objects : ∀ entry ∈ manifest.body.files, Present platform store entry

/-- The manifest stays with its objects, through every step of the collection. -/
def SurvivesAll (platform : Platform) (store : Store) (manifest : Manifest) (outcome : Outcome) :
    Prop :=
  ∀ done, done <+: outcome.deletions → Survives platform (store.removeAll done) manifest

/-- The time of a manifest: that of its file, or of the write if there is none. -/
def Store.timeOf (store : Store) (mtimeNs : Int) (rootHash : String) : Int :=
  ((store.manifests.get? rootHash).map ManifestFile.mtimeNs).getD mtimeNs

/-- Fewer than so many manifests are newer, or as new with a smaller hash. -/
def NewEnough (store : Store) (mtimeNs : Int) (retainLatest : Nat) (rootHash : String) : Prop :=
  (store.manifests.entries.filter fun other =>
    store.timeOf mtimeNs rootHash < other.2.mtimeNs ∨
      other.2.mtimeNs = store.timeOf mtimeNs rootHash ∧ other.1 < rootHash).length < retainLatest

/-- The manifest that is there under the hash is the one whose text is the same. -/
def ToldApart (platform : Platform) (store : Store) (manifest : Manifest) : Prop :=
  ∀ file existing, store.manifests.get? manifest.rootHash = some file →
    loadManifest platform manifest.rootHash file = .ok existing →
      platform.canonicalJson existing.toJson = platform.canonicalJson manifest.toJson →
        existing = manifest

theorem present_of_same {file file' : FileEntry} (hsame : SameContent file file')
    (h : Present platform store file') : Present platform store file := by
  rcases h with ⟨bytes, hget, hdigest, hlength⟩
  rw [hsame.1] at hget hdigest
  rw [hsame.2] at hlength
  exact ⟨bytes, hget, hdigest, hlength⟩

theorem present_of_forall₂ (hsame : List.Forall₂ SameContent files files')
    (h : ∀ file ∈ files', Present platform store file) :
    ∀ file ∈ files, Present platform store file := by
  intro file hfile
  rcases forall₂_left hsame file hfile with ⟨file', hfile', hcontent⟩
  exact present_of_same hcontent (h file' hfile')

/-- What is loaded from the file of a created manifest names its contents. -/
theorem Written.loads (h : Written platform limits store store' mtimeNs manifest)
    (htold : ToldApart platform store manifest) :
    ∃ again, Holds platform store' manifest.rootHash again ∧
      List.Forall₂ SameContent manifest.body.files again.body.files := by
  rcases h.verified with ⟨again, hverified⟩
  have hvalid := (verifyLocalSnapshot_ok hverified).1
  cases hfile : store.manifests.get? manifest.rootHash with
  | none =>
      refine ⟨again, ⟨⟨mtimeNs, (platform.canonicalJson manifest.toJson).length + 1,
        some manifest.toJson⟩, ?_, ?_⟩, content_of_again hvalid⟩
      · rw [h.added hfile, Dict.get?_set_self]
      · have hroot : again.rootHash = manifest.rootHash := validateManifest_rootHash hvalid
        unfold loadManifest
        dsimp only
        rw [hvalid]
        dsimp only
        rw [if_neg (not_not.mpr hroot)]
  | some file =>
      rcases h.kept file hfile with ⟨hsame, existing, hload, hcanonical⟩
      have heq := htold file existing hfile hload hcanonical
      subst heq
      refine ⟨existing, ⟨file, ?_, hload⟩, ?_⟩
      · rw [hsame, hfile]
      · exact List.forall₂_same.mpr fun file _ => ⟨rfl, rfl⟩

/-- A created snapshot is there. -/
theorem Written.survives (h : Written platform limits store store' mtimeNs manifest)
    (htold : ToldApart platform store manifest) : Survives platform store' manifest := by
  rcases h.loads htold with ⟨again, hholds, -⟩
  rcases h.verified with ⟨verified, hverified⟩
  rcases verifyLocalSnapshot_ok hverified with ⟨hvalid, hfiles⟩
  constructor
  · exact ⟨again, hholds⟩
  · exact present_of_forall₂ (content_of_again hvalid) fun file hfile => (hfiles file hfile).1

theorem newer_iff {other record : String × ManifestFile} :
    newer other record ↔ record.2.mtimeNs < other.2.mtimeNs ∨
      other.2.mtimeNs = record.2.mtimeNs ∧ other.1 < record.1 := by
  rfl

/-- The age of a created manifest, told by the store before it. -/
theorem Written.amongNewest_iff (h : Written platform limits store store' mtimeNs manifest) :
    AmongNewest store' retainLatest manifest.rootHash ↔
      NewEnough store mtimeNs retainLatest manifest.rootHash := by
  unfold AmongNewest NewEnough Store.timeOf
  cases hfile : store.manifests.get? manifest.rootHash with
  | none =>
      have hfresh : manifest.rootHash ∉ store.manifests.entries.map Prod.fst := by
        intro hmem
        rcases (Dict.mem_keys_iff store.manifests manifest.rootHash).mp hmem with ⟨file, hget⟩
        rw [hfile] at hget
        cases hget
      rw [h.added hfile, Dict.get?_set_self]
      simp only [Option.some.injEq, exists_eq_left', Option.map_none, Option.getD_none]
      rw [Dict.entries_set_of_fresh hfresh, List.filter_append]
      have hself (file : ManifestFile) :
          ([(manifest.rootHash, file)].filter (newer · (manifest.rootHash, file))) = [] := by
        rw [List.filter_cons_of_neg, List.filter_nil]
        intro hnewer
        exact newer_asymm _ _ (of_decide_eq_true hnewer) (of_decide_eq_true hnewer)
      rw [hself, List.append_nil]
      simp only [newer_iff]
  | some file =>
      rw [(h.kept file hfile).1, hfile]
      simp only [Option.some.injEq, exists_eq_left', Option.map_some, Option.getD_some, newer_iff]

/-- A collection that is refused keeps the manifest; one that is made keeps it exactly if it is
retained. -/
structure DecidedBy (platform : Platform) (store : Store) (manifest : Manifest)
    (outcome : Outcome) (retained : Prop) : Prop where
  refused : ∀ error, outcome.result = .error error → SurvivesAll platform store manifest outcome
  made : ∀ plan, outcome.result = .ok plan →
    (SurvivesAll platform store manifest outcome ↔ retained)

theorem decidedBy_refused {error : String} {retained : Prop}
    (h : Survives platform store manifest) :
    DecidedBy platform store manifest ⟨[], .error error⟩ retained := by
  constructor
  · intro _ _ done hdone
    rw [List.prefix_nil.mp hdone]
    exact h
  · intro plan hplan
    cases hplan

theorem DecidedBy.imp {retained retained' : Prop}
    (h : DecidedBy platform store manifest outcome retained) (hiff : retained ↔ retained') :
    DecidedBy platform store manifest outcome retained' := by
  constructor
  · exact h.refused
  · intro plan hplan
    rw [h.made plan hplan, hiff]

/-- One collection after the snapshot, whatever it protects. -/
theorem Written.collected (h : Written platform limits store store' mtimeNs manifest)
    (htold : ToldApart platform store manifest) :
    DecidedBy platform store' manifest
      (collectGarbage platform (some store') retainLatest roots dryRun limits' gcLimits)
      (dryRun = true ∨ NewEnough store mtimeNs retainLatest manifest.rootHash ∨
        manifest.rootHash ∈ roots) := by
  have hthere := h.survives htold
  rcases h.loads htold with ⟨again, hholds, hsame⟩
  rw [← h.amongNewest_iff]
  unfold collectGarbage
  dsimp only
  cases hplan : planSnapshotGcLocked platform store' retainLatest roots limits' gcLimits with
  | error error => exact decidedBy_refused hthere
  | ok plan =>
      have hspec := plan_spec hplan
      dsimp only
      by_cases hdry : dryRun = true
      · rw [if_pos hdry]
        constructor
        · intro error herror
          cases herror
        · intro _ _
          constructor
          · intro _
            exact .inl hdry
          · intro _ done hdone
            rw [List.prefix_nil.mp hdone]
            exact hthere
      rw [if_neg hdry]
      unfold applySnapshotGcPlan
      by_cases hunexpected : plan.unexpectedEntries ≠ []
      · rw [if_pos hunexpected]
        exact decidedBy_refused hthere
      rw [if_neg hunexpected]
      constructor
      · intro error herror
        cases herror
      intro _ _
      constructor
      · intro hsurvives
        by_contra hnot
        simp only [not_or] at hnot
        rcases (hsurvives _ (List.prefix_refl _)).listed with ⟨found, hfound⟩
        apply (holds_removeAll.mp hfound).1
        apply root_mem_sweep.mpr
        rw [hspec.deleteManifests]
        rcases hholds with ⟨file, hget, -⟩
        exact ⟨Dict.mem_keys_of_get? _ hget, hnot.2.1, hnot.2.2⟩
      · rintro (hdry' | hretained)
        · exact absurd hdry' hdry
        · intro done hdone
          rcases hspec.intact hretained hdone with ⟨found, hfound, hpresent⟩
          have hagain : found = again := by
            rcases (holds_removeAll.mp hfound).2 with ⟨file, hget, hload⟩
            rcases hholds with ⟨file', hget', hload'⟩
            cases hget.symm.trans hget'
            exact Except.ok.inj (hload.symm.trans hload')
          subst hagain
          constructor
          · exact ⟨found, hfound⟩
          · exact present_of_forall₂ hsame hpresent

/-- For every snapshot that is created and the collection that comes next, with the protected
manifests given, or these and those that the journals name. -/
theorem survival_law_iff {keep : Int}
    (hcreate : createLocalSnapshot platform disk releaseId protectedFiles store previous limits
      mtimeNs = .ok (store', manifest))
    (htold : ToldApart platform store manifest) :
    DecidedBy platform store' manifest
      (garbageCollectSnapshots platform (some store') keep roots dryRun limits' gcLimits)
      (dryRun = true ∨ NewEnough store mtimeNs keep.toNat manifest.rootHash ∨
        manifest.rootHash ∈ roots) ∧
    DecidedBy platform store' manifest
      (garbageCollectReferencedSnapshots platform (some store') journals keep roots dryRun limits'
        gcLimits)
      (dryRun = true ∨ NewEnough store mtimeNs keep.toNat manifest.rootHash ∨
        manifest.rootHash ∈ roots ∨ ∃ named,
          discoverProtectedSnapshotRoots platform journals = .ok named ∧
            manifest.rootHash ∈ named) := by
  have hwritten := written_of_ok hcreate
  have hthere := hwritten.survives htold
  constructor
  · unfold garbageCollectSnapshots
    split
    · exact decidedBy_refused hthere
    rename_i retain given hparameters
    rcases normaliseGcParameters_ok hparameters with ⟨rfl, hgiven⟩
    split
    · exact decidedBy_refused hthere
    apply (hwritten.collected htold).imp
    rw [hgiven]
  · unfold garbageCollectReferencedSnapshots
    split
    · exact decidedBy_refused hthere
    rename_i retain given hparameters
    rcases normaliseGcParameters_ok hparameters with ⟨rfl, hgiven⟩
    split
    · exact decidedBy_refused hthere
    split
    · exact decidedBy_refused hthere
    rename_i discovered hdiscovered
    apply (hwritten.collected htold).imp
    rw [mem_sortedSet, List.mem_append, hgiven]
    simp only [Except.ok.injEq, exists_eq_left', hdiscovered]

/-! ## A snapshot that is equal to an older one -/

/-- The canonical JSON of a manifest without files, and that of its body. -/
def filelessText (releaseId : String) (rootHash : Option String) : List UInt8 :=
  ("\x7b\"files\":[],\"release_id\":\"" ++ releaseId ++ "\"," ++
    (match rootHash with
      | some text => "\"root_hash\":\"" ++ text ++ "\","
      | none => "") ++ "\"schema\":1,\"tombstones\":[]\x7d").toList.map
        fun c => UInt8.ofNat c.toNat

def firstHash : String := "ae62abb94848a71c90ec7470fe0d60a4ffb5456f131911f05e3c592e0224d495"

/-- The hashes of two such bodies. -/
def filelessHash (bytes : List UInt8) : String :=
  if bytes = filelessText "v1" none then firstHash else noFilesHash

theorem isDigest_filelessHash (bytes : List UInt8) : isDigest (filelessHash bytes) = true := by
  unfold filelessHash
  split
  · decide +kernel
  · decide +kernel

/-- Python and JSON on these manifests. -/
def filelessPlatform : Platform where
  py :=
    { samplePlatform.py with
      sha256 := filelessHash
      sha256_length := fun bytes => by
        have hdigest := isDigest_filelessHash bytes
        unfold isDigest at hdigest
        rw [Bool.and_eq_true, decide_eq_true_eq] at hdigest
        exact hdigest.1
      sha256_hex := fun bytes c hc => by
        have hdigest := isDigest_filelessHash bytes
        unfold isDigest at hdigest
        rw [Bool.and_eq_true, List.all_eq_true] at hdigest
        exact of_decide_eq_true (hdigest.2 c hc) }
  casefold := id
  canonicalJson := fun value =>
    filelessText (samplePlatform.py.text (value.get "release_id"))
      (match value.get "root_hash" with
        | .str text => some text
        | _ => none)

def firstManifest : Manifest := ⟨⟨"v1", [], []⟩, firstHash⟩

def secondManifest : Manifest := ⟨⟨"v2", [], []⟩, noFilesHash⟩

/-- A snapshot of no files is taken at a time. -/
def takeFileless (releaseId : String) (store : Store) (mtimeNs : Int) :
    Except String (Store × Manifest) :=
  createLocalSnapshot filelessPlatform (fun _ => none) releaseId [] store none defaultLimits mtimeNs

/-- The store after it. -/
def storeAfter (releaseId : String) (store : Store) (mtimeNs : Int) : Store :=
  match takeFileless releaseId store mtimeNs with
  | .ok (store, _) => store
  | .error _ => store

theorem takeFileless_ok
    (h : (takeFileless releaseId store mtimeNs).map Prod.snd = .ok manifest) :
    takeFileless releaseId store mtimeNs = .ok (storeAfter releaseId store mtimeNs, manifest) := by
  unfold storeAfter
  cases hrun : takeFileless releaseId store mtimeNs with
  | error error =>
      rw [hrun] at h
      cases h
  | ok taken =>
      rw [hrun] at h
      rcases taken with ⟨after, found⟩
      cases Except.ok.inj h
      rfl

/-- Two snapshots that differ, one after the other. -/
def twoSnapshots : Store :=
  storeAfter "v2" (storeAfter "v1" Store.empty 1) 2

/-- A second snapshot is kept where one is. -/
theorem survival_law_second :
    SurvivesAll filelessPlatform twoSnapshots secondManifest
      (garbageCollectSnapshots filelessPlatform (some twoSnapshots) 1 [] false defaultLimits
        defaultGcLimits) := by
  have hcreate : takeFileless "v2" (storeAfter "v1" Store.empty 1) 2 =
      .ok (twoSnapshots, secondManifest) := takeFileless_ok (by decide +kernel)
  have htold : ToldApart filelessPlatform (storeAfter "v1" Store.empty 1) secondManifest := by
    intro file existing hfile
    have hnone : ((storeAfter "v1" Store.empty 1).manifests.get?
        secondManifest.rootHash).isNone = true := by decide +kernel
    rw [hfile] at hnone
    cases hnone
  have hrun : (garbageCollectSnapshots filelessPlatform (some twoSnapshots) 1 [] false
      defaultLimits defaultGcLimits).result =
        .ok ⟨1, [], [noFilesHash], [firstHash], [], [], 137, false⟩ := by decide +kernel
  apply ((@survival_law_iff _ _ _ _ _ defaultLimits _ _ [] _ _ _ [] false ⟨[], none, none⟩ _
    hcreate htold).1.made _ hrun).mpr
  right
  left
  unfold NewEnough
  decide +kernel

/-- The first snapshot is taken once more, and is as old as it was: the collection that comes next
keeps the second one and deletes the one that was just taken. -/
theorem equal_snapshot_deleted :
    ¬ ∀ platform disk releaseId protectedFiles store previous limits mtimeNs store' manifest keep
        roots limits' gcLimits,
      createLocalSnapshot platform disk releaseId protectedFiles store previous limits mtimeNs =
        .ok (store', manifest) →
      ToldApart platform store manifest → 1 ≤ keep →
      SurvivesAll platform store' manifest
        (garbageCollectSnapshots platform (some store') keep roots false limits' gcLimits) := by
  intro hclaim
  have hcreate : takeFileless "v1" twoSnapshots 3 =
      .ok (storeAfter "v1" twoSnapshots 3, firstManifest) := takeFileless_ok (by decide +kernel)
  have htold : ToldApart filelessPlatform twoSnapshots firstManifest := by
    intro file existing hfile hload _
    have hfound : (twoSnapshots.manifests.get? firstManifest.rootHash).map
        (loadManifest filelessPlatform firstManifest.rootHash) = some (.ok firstManifest) := by
      decide +kernel
    rw [hfile] at hfound
    exact Except.ok.inj (hload.symm.trans (Option.some.inj hfound))
  have hrun : (garbageCollectSnapshots filelessPlatform (some (storeAfter "v1" twoSnapshots 3)) 1 []
      false defaultLimits defaultGcLimits).deletions = [.root firstHash] := by decide +kernel
  have hsurvives := hclaim _ _ _ _ _ _ _ _ _ _ 1 [] defaultLimits defaultGcLimits hcreate htold
    (by decide) [.root firstHash] (by rw [hrun])
  rcases hsurvives.listed with ⟨found, hfound⟩
  exact (holds_removeAll.mp hfound).1 List.mem_cons_self

end Backup
end Stemcell
