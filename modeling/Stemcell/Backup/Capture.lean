import Stemcell.Backup.Protected

/-!
# Snapshots of the protected files

A snapshot of the files that the policy resolves to.  If their paths are plain and nothing else
stands in the way, it is made and lists exactly these files.

Main results:

- Theorem `createLocalSnapshot_of_opens`: a snapshot of files that open under their paths is made.
- Theorem `snapshot_law_iff`: every resolved file can be snapshotted exactly if the protected files
  have plain paths.
- Theorem `star_refused`: a file whose name has a star keeps every snapshot from being made.

Current gaps:

- The tree does not change between the walk and the copies.
-/

namespace Stemcell
namespace Backup

open Interface (Json strip)
open Lib

/-! ## The tree as a disk -/

/-- What is at a path below an entry. -/
def lookup : Entry → Path → Option Entry
  | entry, [] => some entry
  | .dir children, name :: rest =>
      match children.find? fun child => child.1 = name with
      | some child => lookup child.2 rest
      | none => none
  | _, _ :: _ => none

/-- What a backup sees of an entry. -/
def Entry.node : Entry → Node
  | .file content mode => .file content mode
  | .dir _ => .dir
  | _ => .other

/-- The tree below the root. -/
def treeDisk (root : List (String × Entry)) : Disk :=
  fun path => (lookup (.dir root) path).map Entry.node

/-- The content and the mode of a file. -/
def sourceOf (disk : Disk) (relative : String) : List UInt8 × Nat :=
  match disk (pathParts relative) with
  | some (.file content mode) => (content, mode)
  | _ => ([], 0)

section Tree

variable {root : List (String × Entry)} {path : Path} {entry : Entry} {content : List UInt8}
  {mode : Nat}

theorem lookup_of_reaches {target : Entry} (h : Reaches entry path target)
    (hunique : ∀ path first second, Reaches entry path first → Reaches entry path second →
      first = second) : lookup entry path = some target := by
  induction h with
  | here => simp [lookup]
  | @step children name child target path hchild hbelow ih =>
      have hsome : (children.find? fun child => child.1 = name).isSome = true := by
        rw [List.find?_isSome]
        exact ⟨(name, child), hchild, decide_eq_true rfl⟩
      rcases Option.isSome_iff_exists.mp hsome with ⟨found, hfound⟩
      have hname : found.1 = name := by simpa using List.find?_some hfound
      have hsame : found.2 = child := by
        apply hunique [name]
        · rw [reaches_one, ← hname]
          exact List.mem_of_find?_eq_some hfound
        · exact reaches_one.mpr hchild
      rw [lookup, hfound]
      dsimp only
      rw [hsame]
      apply ih
      intro path first second hfirst hsecond
      exact hunique (name :: path) first second (.step hchild hfirst) (.step hchild hsecond)

theorem treeDisk_of_reaches (hlegal : LegalTree root) (h : Reaches (.dir root) path entry) :
    treeDisk root path = some entry.node := by
  unfold treeDisk
  rw [lookup_of_reaches h hlegal.unique]
  rfl

theorem pathParts_asPosix (hpath : path ≠ []) (h : ∀ name ∈ path, LegalName name) :
    pathParts (asPosix path) = path := by
  have hfirst : path.head? = some (path.head hpath) := List.head?_eq_some_head hpath
  have hroot : posixRoot (asPosix path).toList = [] := by
    apply posixRoot_of_head
    rw [(head_asPosix h hfirst).1]
    intro hslash
    exact (h _ (List.mem_of_head? hfirst)).noSlash (List.mem_of_head? hslash)
  unfold pathParts posixParts
  rw [if_pos hroot, components_asPosix h, List.map_map]
  exact List.map_id'' (fun name => String.ofList_toList) path

theorem ne_nil_of_reaches_file (h : Reaches (.dir root) path (.file content mode)) :
    path ≠ [] := by
  rintro rfl
  cases reaches_nil.mp h

theorem walkSource_of_dirs {disk : Disk} {relative : String} {paths : List Path}
    (h : ∀ path ∈ paths, disk path = some .dir) : walkSource disk relative paths = .ok () := by
  induction paths with
  | nil => rfl
  | cons path rest ih =>
      rw [List.forall_mem_cons] at h
      rw [walkSource, h.1]
      exact ih h.2

/-- A file with a plain path can be opened. -/
theorem safeSourceOpen_tree (hlegal : LegalTree root)
    (h : Reaches (.dir root) path (.file content mode)) (hplain : PlainPath path) :
    safeSourceOpen (treeDisk root) (asPosix path) = .ok (content, mode) ∧
      sourceOf (treeDisk root) (asPosix path) = (content, mode) := by
  have hpath := ne_nil_of_reaches_file h
  have hnames := hlegal.names _ _ h
  have hparts := pathParts_asPosix hpath hnames
  have hfile := treeDisk_of_reaches hlegal h
  have hdirs : ∀ above ∈ parents path, treeDisk root above = some .dir := by
    intro above habove
    rw [mem_parents] at habove
    rcases habove with ⟨⟨rest, hrest⟩, -, hne⟩
    rw [← hrest] at h
    rcases reaches_append.mp h with ⟨middle, hfront, hback⟩
    have hdir : middle.isDir = true := by
      cases rest with
      | nil =>
          rw [List.append_nil] at hrest
          exact absurd hrest hne
      | cons name rest => exact isDir_of_reaches hback
    rw [treeDisk_of_reaches hlegal hfront, eq_dir_of_isDir hdir]
    rfl
  constructor
  · unfold safeSourceOpen
    rw [(validate_asPosix_iff hpath hnames).mpr hplain]
    dsimp only
    rw [hparts, walkSource_of_dirs hdirs]
    dsimp only
    rw [hfile]
    rfl
  · unfold sourceOf
    rw [hparts, hfile]
    rfl

end Tree

/-! ## Snapshots of plain paths -/

section Creating

variable {platform : Platform} {disk : Disk} {store store' : Store} {limits : SnapshotLimits}
  {known : List UInt8 → Prop} {items files : List ProtectedFile} {item : ProtectedFile}
  {releaseId : String} {previous : Option Json} {mtimeNs : Int} {total : Nat}

/-- The entry of a file. -/
def entryOf (platform : Platform) (disk : Disk) (item : ProtectedFile) : FileEntry :=
  let source := sourceOf disk item.relativePath
  ⟨item.relativePath, platform.py.sha256 source.1, source.1.length, source.2 % 512, item.classes⟩

/-- Every object stands under the hash of a known content. -/
def Coherent (platform : Platform) (known : List UInt8 → Prop) (store : Store) : Prop :=
  ∀ digest content, store.objects.get? digest = some content →
    platform.py.sha256 content = digest ∧ known content

/-- No two known contents have one hash. -/
def NoCollision (platform : Platform) (known : List UInt8 → Prop) : Prop :=
  ∀ content other, known content → known other →
    platform.py.sha256 content = platform.py.sha256 other → content = other

/-- A record of the newest release that can be read. -/
def Readable (platform : Platform) (content : List UInt8) : Prop :=
  content ≠ [] ∧ content.length ≤ maxReleaseSequenceFloorBytes ∧
    ∃ floor, decodeFloor platform "Snapshot release sequence floor" content = .ok floor

/-- A file that can be captured: it opens, is not too large, and can be read if it is the record
of the newest release. -/
structure Capturable (platform : Platform) (disk : Disk) (limits : SnapshotLimits)
    (known : List UInt8 → Prop) (item : ProtectedFile) : Prop where
  opens : safeSourceOpen disk item.relativePath = .ok (sourceOf disk item.relativePath)
  size : (sourceOf disk item.relativePath).1.length ≤ limits.maxFileSize
  known : known (sourceOf disk item.relativePath).1
  floor : item.relativePath = releaseSequenceFloor →
    Readable platform (sourceOf disk item.relativePath).1

/-- The content of a file is in the store. -/
def Captured (platform : Platform) (disk : Disk) (store : Store) (item : ProtectedFile) : Prop :=
  store.objects.get? (platform.py.sha256 (sourceOf disk item.relativePath).1) =
    some (sourceOf disk item.relativePath).1

/-- Nothing is taken from the store, and no manifest is written. -/
structure Extends (store store' : Store) : Prop where
  manifests : store'.manifests = store.manifests
  objects : ∀ digest content, store.objects.get? digest = some content →
    store'.objects.get? digest = some content

theorem openVerifiedObject_of_get {digest : String} {content : List UInt8}
    (hget : store.objects.get? digest = some content)
    (hdigest : platform.py.sha256 content = digest) :
    openVerifiedObject platform store digest content.length = .ok content := by
  unfold openVerifiedObject
  rw [hget]
  dsimp only
  rw [if_neg (not_not.mpr rfl), if_neg (not_not.mpr hdigest)]

theorem verifyObject_of_get {digest : String} {content : List UInt8}
    (hget : store.objects.get? digest = some content)
    (hdigest : platform.py.sha256 content = digest) :
    verifyObject platform store digest content.length = .ok () := by
  unfold verifyObject
  rw [hget]
  dsimp only
  rw [if_neg]
  rw [not_or, not_not, not_not]
  exact ⟨hdigest, rfl⟩

theorem readFloor_of_get {entry : FileEntry} {content : List UInt8}
    (hget : store.objects.get? entry.sha256 = some content)
    (hdigest : platform.py.sha256 content = entry.sha256) (hsize : entry.size = content.length)
    (hreadable : Readable platform content) :
    ∃ floor, readSnapshotReleaseSequenceFloor platform store entry = .ok floor := by
  rcases hreadable with ⟨hne, hlength, floor, hfloor⟩
  refine ⟨floor, ?_⟩
  unfold readSnapshotReleaseSequenceFloor
  rw [hsize, if_neg, openVerifiedObject_of_get hget hdigest]
  · exact hfloor
  · rw [not_or, Nat.not_lt]
    exact ⟨fun hzero => hne (List.eq_nil_of_length_eq_zero hzero), hlength⟩

/-- A file that can be captured is copied. -/
theorem copySourceToObject_capturable (hcoherent : Coherent platform known store)
    (hcollision : NoCollision platform known) (h : Capturable platform disk limits known item) :
    ∃ store', copySourceToObject platform disk item store limits = .ok (store',
        (entryOf platform disk item).sha256, (entryOf platform disk item).size,
          (entryOf platform disk item).mode) ∧
      Coherent platform known store' ∧ Extends store store' ∧
        Captured platform disk store' item := by
  unfold copySourceToObject entryOf Captured
  dsimp only
  rw [h.opens]
  have hsize := h.size
  have hknown := h.known
  generalize sourceOf disk item.relativePath = source at hsize hknown ⊢
  rcases source with ⟨content, mode⟩
  dsimp only at hsize hknown ⊢
  rw [if_neg (Nat.not_lt.mpr hsize)]
  cases hget : store.objects.get? (platform.py.sha256 content) with
  | some stored =>
      rcases hcoherent _ _ hget with ⟨hdigest, hstored⟩
      have hsame := hcollision stored content hstored hknown hdigest
      rw [hsame] at hget
      rw [Option.isSome_some, if_pos rfl, verifyObject_of_get hget rfl]
      exact ⟨store, rfl, hcoherent, ⟨rfl, fun _ _ hbefore => hbefore⟩, hget⟩
  | none =>
      rw [Option.isSome_none, if_neg Bool.false_ne_true]
      refine ⟨_, rfl, ?_, ⟨rfl, ?_⟩, Dict.get?_set_self _ _ _⟩
      · intro digest other hother
        dsimp only at hother
        rw [Dict.get?_set] at hother
        by_cases hdigest : platform.py.sha256 content = digest
        · rw [if_pos hdigest, Option.some.injEq] at hother
          rw [← hother]
          exact ⟨hdigest, hknown⟩
        · rw [if_neg hdigest] at hother
          exact hcoherent digest other hother
      · intro digest other hother
        dsimp only
        rw [Dict.get?_set_of_ne, hother]
        rintro rfl
        rw [hget] at hother
        cases hother

theorem checkCapturedFloor_capturable (h : Capturable platform disk limits known item)
    (hcaptured : Captured platform disk store item) :
    checkCapturedFloor platform store (entryOf platform disk item) = .ok () := by
  unfold checkCapturedFloor
  by_cases hfloor : (entryOf platform disk item).path = releaseSequenceFloor
  · rw [if_pos hfloor]
    have hget : store.objects.get? (entryOf platform disk item).sha256 = some _ := hcaptured
    rcases readFloor_of_get hget rfl rfl (h.floor hfloor) with ⟨floor, hread⟩
    rw [hread]
    rfl
  · rw [if_neg hfloor]

/-- The loop over the files captures every one of them. -/
theorem captureFiles_capturable (hcollision : NoCollision platform known)
    (hcoherent : Coherent platform known store)
    (h : ∀ item ∈ items, Capturable platform disk limits known item)
    (htotal : total + (items.map fun item => (entryOf platform disk item).size).sum ≤
      limits.maxTotalSize) :
    ∃ store', captureFiles platform disk limits total store items =
        .ok (store', items.map (entryOf platform disk)) ∧
      Coherent platform known store' ∧ Extends store store' ∧
        ∀ item ∈ items, Captured platform disk store' item := by
  induction items generalizing store total with
  | nil => exact ⟨store, rfl, hcoherent, ⟨rfl, fun _ _ hbefore => hbefore⟩, List.forall_mem_nil _⟩
  | cons item rest ih =>
      rw [List.forall_mem_cons] at h
      rw [List.map_cons, List.sum_cons, ← Nat.add_assoc] at htotal
      rcases copySourceToObject_capturable hcoherent hcollision h.1 with
        ⟨copied, hcopy, hcopied, hextends, hcaptured⟩
      rcases ih hcopied h.2 htotal with ⟨store', hrest, hcoherent', hextends', hall⟩
      have hfloor := checkCapturedFloor_capturable h.1 hcaptured
      unfold entryOf at hfloor
      have hwithin : ¬ limits.maxTotalSize < total + (entryOf platform disk item).size := by
        omega
      refine ⟨store', ?_, hcoherent', ⟨hextends'.manifests.trans hextends.manifests, ?_⟩, ?_⟩
      · rw [captureFiles, hcopy]
        simp only [bind, Except.bind, pure, Except.pure]
        unfold entryOf at hwithin ⊢
        dsimp only at hfloor hwithin ⊢
        rw [hfloor]
        dsimp only
        rw [if_neg hwithin]
        unfold entryOf at hrest
        dsimp only at hrest
        rw [hrest]
        rfl
      · intro digest content hget
        exact hextends'.objects _ _ (hextends.objects _ _ hget)
      · rw [List.forall_mem_cons]
        exact ⟨hextends'.objects _ _ hcaptured, hall⟩

/-- What the backup hashes: the objects of the store and the contents of the files. -/
def KnownContent (disk : Disk) (files : List ProtectedFile) (store : Store)
    (content : List UInt8) : Prop :=
  (∃ digest, store.objects.get? digest = some content) ∨
    ∃ file ∈ files, content = (sourceOf disk file.relativePath).1

/-- Nothing but the names of the files can keep a snapshot from being made: the release has a name,
the limits are kept, the store holds what its hashes say, the record of the newest release can be
read, and what was there before was made by the same function. -/
structure Unhindered (platform : Platform) (disk : Disk) (releaseId : String)
    (files : List ProtectedFile) (store : Store) (previous : Option Json)
    (limits : SnapshotLimits) : Prop where
  named : ∃ normalised, normaliseReleaseId releaseId = .ok normalised
  valid : limits.valid = true
  count : files.length ≤ limits.maxFiles
  size : ∀ file ∈ files, (sourceOf disk file.relativePath).1.length ≤ limits.maxFileSize
  total : (files.map fun file => (sourceOf disk file.relativePath).1.length).sum ≤
    limits.maxTotalSize
  objects : ∀ digest content, store.objects.get? digest = some content →
    platform.py.sha256 content = digest
  collision : NoCollision platform (KnownContent disk files store)
  floor : ∀ file ∈ files, file.relativePath = releaseSequenceFloor →
    Readable platform (sourceOf disk file.relativePath).1
  earlier : ∀ raw, previous = some raw → ∃ manifest, raw = Manifest.toJson manifest ∧
    Sound platform manifest
  written : ∀ store' body,
    captureBody platform disk releaseId files store previous limits = .ok (store', body) →
      ∀ file, store.manifests.get? (body.rootHash platform) = some file →
        ∃ existing, loadManifest platform (body.rootHash platform) file = .ok existing ∧
          platform.canonicalJson existing.toJson =
            platform.canonicalJson (Manifest.toJson ⟨body, body.rootHash platform⟩)

/-- The paths of the previous manifest are in their canonical form. -/
theorem previousPaths_sound
    (h : ∀ raw, previous = some raw → ∃ manifest, raw = Manifest.toJson manifest ∧
      Sound platform manifest) :
    ∃ paths, previousPaths platform previous = .ok paths ∧
      ∀ path ∈ paths, validateRelativePath path = .ok path := by
  cases previous with
  | none => exact ⟨[], rfl, List.forall_mem_nil _⟩
  | some raw =>
      rcases h raw rfl with ⟨manifest, rfl, hsound⟩
      refine ⟨manifest.body.files.map FileEntry.path, ?_, ?_⟩
      · unfold previousPaths
        dsimp only
        rw [validate_sound hsound]
        rfl
      · intro path hpath
        rcases List.mem_map.mp hpath with ⟨file, hfile, rfl⟩
        exact (hsound.files file hfile).path

theorem normaliseReleaseId_idem {normalised : String}
    (h : normaliseReleaseId releaseId = .ok normalised) :
    normaliseReleaseId normalised = .ok normalised := by
  have hsame := normaliseReleaseId_ok h
  unfold normaliseReleaseId at h ⊢
  rw [hsame, strip_strip]
  rw [hsame] at h
  exact h

variable (disk) in
/-- The manifest of captured files has canonical fields. -/
theorem sound_captured {normalised : String} {removed : List String}
    (hrelease : normaliseReleaseId normalised = .ok normalised)
    (hpaths : (files.map ProtectedFile.relativePath).Pairwise (· < ·))
    (hfixed : ∀ file ∈ files, validateRelativePath file.relativePath = .ok file.relativePath)
    (hallowed : ∀ file ∈ files, isForbiddenRelative platform.casefold file.relativePath = false)
    (hclasses : ∀ file ∈ files, file.classes ≠ [] ∧ "" ∉ file.classes ∧
      file.classes = sortedSet file.classes)
    (hremoved : ∀ path ∈ removed, validateRelativePath path = .ok path ∧
      path ∉ files.map ProtectedFile.relativePath) :
    Sound platform ⟨⟨normalised, files.map (entryOf platform disk), sortedSet removed⟩,
      (⟨normalised, files.map (entryOf platform disk), sortedSet removed⟩ : Body).rootHash
        platform⟩ := by
  have hmap : (files.map (entryOf platform disk)).map FileEntry.path =
      files.map ProtectedFile.relativePath := by
    rw [List.map_map]
    rfl
  constructor
  · exact hrelease
  · intro entry hentry
    rcases List.mem_map.mp hentry with ⟨file, hfile, rfl⟩
    constructor
    · exact hfixed file hfile
    · unfold isKnownSecret
      rw [show (entryOf platform disk file).path = file.relativePath from rfl, hfixed file hfile]
      dsimp only
      rw [hallowed file hfile]
    · unfold isDigest
      rw [Bool.and_eq_true, decide_eq_true_eq, List.all_eq_true]
      refine ⟨platform.py.sha256_length _, ?_⟩
      intro c hc
      rw [decide_eq_true_eq]
      exact platform.py.sha256_hex _ c hc
    · have hmod : (sourceOf disk file.relativePath).2 % 512 < 512 := Nat.mod_lt _ (by decide)
      exact Nat.le_of_lt_succ hmod
    · exact hclasses file hfile
  · dsimp only
    rw [hmap]
    exact hpaths
  · intro text htext
    exact (hremoved text (mem_sortedSet.mp htext)).1
  · exact sortedSet_pairwise removed
  · intro text htext
    dsimp only
    rw [hmap]
    exact (hremoved text (mem_sortedSet.mp htext)).2
  · rfl

theorem verifyFiles_captured (hfit : ∀ file ∈ files, Capturable platform disk limits known file)
    (hcaptured : ∀ file ∈ files, Captured platform disk store file)
    (htotal : total + (files.map fun file => (entryOf platform disk file).size).sum ≤
      limits.maxTotalSize) :
    verifyFiles platform store limits total (files.map (entryOf platform disk)) = .ok () := by
  induction files generalizing total with
  | nil => rfl
  | cons file rest ih =>
      rw [List.forall_mem_cons] at hfit hcaptured
      rw [List.map_cons, List.sum_cons, ← Nat.add_assoc] at htotal
      have hrest := ih hfit.2 hcaptured.2 htotal
      have hget : store.objects.get? (entryOf platform disk file).sha256 = some _ := hcaptured.1
      have hsize : ¬ limits.maxFileSize < (entryOf platform disk file).size :=
        Nat.not_lt.mpr hfit.1.size
      have hwithin : ¬ limits.maxTotalSize < total + (entryOf platform disk file).size := by
        omega
      have hobject : verifyObject platform store (entryOf platform disk file).sha256
          (entryOf platform disk file).size = .ok () := verifyObject_of_get hget rfl
      rw [List.map_cons, verifyFiles]
      rw [if_neg hsize, if_neg hwithin, hobject]
      dsimp only
      by_cases hfloor : (entryOf platform disk file).path = releaseSequenceFloor
      · rw [if_pos hfloor]
        rcases readFloor_of_get hget rfl rfl (hfit.1.floor hfloor) with ⟨floor, hread⟩
        rw [hread]
        exact hrest
      · rw [if_neg hfloor]
        exact hrest

variable (mtimeNs) in
/-- If every file can be opened under its path, a snapshot of them can be made. -/
theorem createLocalSnapshot_of_opens (h : Unhindered platform disk releaseId files store previous
      limits)
    (hopens : ∀ file ∈ files,
      safeSourceOpen disk file.relativePath = .ok (sourceOf disk file.relativePath))
    (hfixed : ∀ file ∈ files, validateRelativePath file.relativePath = .ok file.relativePath)
    (hpaths : (files.map ProtectedFile.relativePath).Pairwise (· < ·))
    (hallowed : ∀ file ∈ files, isForbiddenRelative platform.casefold file.relativePath = false)
    (hclasses : ∀ file ∈ files, file.classes ≠ [] ∧ "" ∉ file.classes ∧
      file.classes = sortedSet file.classes) :
    ∃ store' manifest, createLocalSnapshot platform disk releaseId files store previous limits
        mtimeNs = .ok (store', manifest) ∧
      manifest.body.files = files.map (entryOf platform disk) := by
  have hfit : ∀ file ∈ files, Capturable platform disk limits (KnownContent disk files store)
      file := by
    intro file hfile
    exact ⟨hopens file hfile, h.size file hfile, .inr ⟨file, hfile, rfl⟩, h.floor file hfile⟩
  have hcoherent : Coherent platform (KnownContent disk files store) store := by
    intro digest content hget
    exact ⟨h.objects digest content hget, .inl ⟨digest, hget⟩⟩
  have htotal : 0 + (files.map fun file => (entryOf platform disk file).size).sum ≤
      limits.maxTotalSize := by
    rw [Nat.zero_add]
    exact h.total
  rcases captureFiles_capturable h.collision hcoherent hfit htotal with
    ⟨store', hcapture, -, hextends, hcaptured⟩
  rcases h.named with ⟨normalised, hrelease⟩
  rcases previousPaths_sound h.earlier with ⟨paths, hprevious, hcanonical⟩
  have hmap : (files.map (entryOf platform disk)).map FileEntry.path =
      files.map ProtectedFile.relativePath := by
    rw [List.map_map]
    rfl
  have hremoved : ∀ path ∈ paths.filter
        (fun path => path ∉ (files.map (entryOf platform disk)).map FileEntry.path),
      validateRelativePath path = .ok path ∧ path ∉ files.map ProtectedFile.relativePath := by
    intro path hpath
    rw [List.mem_filter, decide_eq_true_eq, hmap] at hpath
    exact ⟨hcanonical path hpath.1, hpath.2⟩
  have hsound := sound_captured disk (normaliseReleaseId_idem hrelease) hpaths hfixed
    hallowed hclasses hremoved
  have hbody : captureBody platform disk releaseId files store previous limits = .ok (store',
      ⟨normalised, files.map (entryOf platform disk), sortedSet (paths.filter fun path =>
        path ∉ (files.map (entryOf platform disk)).map FileEntry.path)⟩) := by
    unfold captureBody
    rw [h.valid, if_neg (by decide), if_neg (Nat.not_lt.mpr h.count), hcapture]
    simp only [bind, Except.bind, pure, Except.pure]
    rw [hprevious]
    dsimp only
    unfold manifestBody
    simp only [bind, Except.bind, pure, Except.pure]
    rw [hrelease, validatePaths_fixed fun path hpath => (hremoved path hpath).1]
  generalize sortedSet (paths.filter fun path =>
      path ∉ (files.map (entryOf platform disk)).map FileEntry.path) = tombstones at hsound hbody
  generalize hmade : (⟨normalised, files.map (entryOf platform disk), tombstones⟩ : Body) = body
    at hsound hbody
  have hfiles : body.files = files.map (entryOf platform disk) := by
    rw [← hmade]
  have hvalidate := validate_sound hsound
  -- the manifest is written, or one with the same content is there
  have hwrite : ∃ written, writeManifest platform store' mtimeNs ⟨body, body.rootHash platform⟩ =
      .ok written ∧ written.objects = store'.objects := by
    unfold writeManifest
    dsimp only
    cases hget : store'.manifests.get? (body.rootHash platform) with
    | none => exact ⟨_, rfl, rfl⟩
    | some file =>
        rw [hextends.manifests] at hget
        rcases h.written store' body hbody file hget with ⟨existing, hload, hsame⟩
        refine ⟨store', ?_, rfl⟩
        dsimp only
        rw [hload]
        dsimp only
        rw [if_neg (not_not.mpr hsame)]
  rcases hwrite with ⟨written, hwrite, hobjects⟩
  have hcapturedWritten : ∀ file ∈ files, Captured platform disk written file := by
    intro file hfile
    unfold Captured
    rw [hobjects]
    exact hcaptured file hfile
  have hverify : verifyLocalSnapshot platform written limits
      (Manifest.toJson ⟨body, body.rootHash platform⟩) = .ok ⟨body, body.rootHash platform⟩ := by
    unfold verifyLocalSnapshot
    rw [h.valid, if_neg (by decide), hvalidate]
    dsimp only
    rw [hfiles, verifyFiles_captured hfit hcapturedWritten htotal, if_neg]
    rw [List.length_map]
    exact Nat.not_lt.mpr h.count
  refine ⟨written, ⟨body, body.rootHash platform⟩, ?_, hfiles⟩
  unfold createLocalSnapshot
  simp only [bind, Except.bind, pure, Except.pure]
  rw [hbody]
  dsimp only
  rw [hvalidate]
  dsimp only
  rw [hwrite]
  dsimp only
  rw [hverify]

end Creating

/-! ## The law -/

section Law

variable {fnmatch : String → String → Bool} {platform : Platform} {policy : DataPolicy}
  {root : List (String × Entry)} {files : List ProtectedFile}

/-- The manifest takes every resolved path as it is, and if nothing else keeps a snapshot from being
made, it is made and lists exactly the resolved files. -/
structure SnapshotLaw (platform : Platform) (root : List (String × Entry))
    (files : List ProtectedFile) : Prop where
  accepted : ∀ file ∈ files, validateRelativePath file.relativePath = .ok file.relativePath
  created : ∀ releaseId store previous limits mtimeNs,
    Unhindered platform (treeDisk root) releaseId files store previous limits →
      ∃ store' manifest, createLocalSnapshot platform (treeDisk root) releaseId files store previous
          limits mtimeNs = .ok (store', manifest) ∧
        manifest.body.files.map FileEntry.path = files.map ProtectedFile.relativePath

/-- Every resolved file can be snapshotted exactly if the protected files have plain paths. -/
theorem snapshot_law_iff (hlegal : LegalTree root)
    (hresolve : resolve fnmatch platform.casefold policy root = .ok files) :
    SnapshotLaw platform root files ↔
      ∀ path, Protected fnmatch policy root path → PlainPath path := by
  have hresolved := resolve_ok hlegal hresolve
  constructor
  · intro hlaw path hprotected
    have hmem := (hresolved.mem_iff (asPosix path)).mpr ⟨path, hprotected, rfl⟩
    rcases List.mem_map.mp hmem with ⟨file, hfile, hrelative⟩
    have hok := hlaw.accepted file hfile
    rw [hrelative] at hok
    rcases hprotected with ⟨content, mode, -, -, hreaches, -⟩
    exact (validate_asPosix_iff (ne_nil_of_reaches_file hreaches)
      (hlegal.names _ _ hreaches)).mp hok
  · intro hplain
    have hsource : ∀ file ∈ files,
        validateRelativePath file.relativePath = .ok file.relativePath ∧
          safeSourceOpen (treeDisk root) file.relativePath =
            .ok (sourceOf (treeDisk root) file.relativePath) := by
      intro file hfile
      rcases (hresolved.mem_iff file.relativePath).mp (List.mem_map_of_mem hfile) with
        ⟨path, hprotected, hrelative⟩
      have hpath := hplain path hprotected
      rcases hprotected with ⟨content, mode, -, -, hreaches, -⟩
      rcases safeSourceOpen_tree hlegal hreaches hpath with ⟨hopen, hsource⟩
      rw [← hrelative, hsource]
      exact ⟨(validate_asPosix_iff (ne_nil_of_reaches_file hreaches)
        (hlegal.names _ _ hreaches)).mpr hpath, hopen⟩
    constructor
    · intro file hfile
      exact (hsource file hfile).1
    · intro releaseId store previous limits mtimeNs hunhindered
      rcases createLocalSnapshot_of_opens mtimeNs hunhindered
        (fun file hfile => (hsource file hfile).2) (fun file hfile => (hsource file hfile).1)
        hresolved.increasing hresolved.allowed hresolved.classes with
        ⟨store', manifest, hcreated, hlisted⟩
      refine ⟨store', manifest, hcreated, ?_⟩
      rw [hlisted, List.map_map]
      rfl

end Law

/-! ## One file below a directory -/

section Sample

def logTree (name : String) : List (String × Entry) :=
  [("logs", .dir [(name, .file [] 420)])]

def logPolicy : DataPolicy :=
  ⟨fun className => if className = "task_delivery" then ["logs/**"] else [], []⟩

def plainMatch (name pattern : String) : Bool :=
  name = pattern

def logFiles (name : String) : List ProtectedFile :=
  [⟨"logs/" ++ name, ["task_delivery"]⟩]

def logLimits : SnapshotLimits :=
  ⟨100, 1000, 1000, 4096, 1⟩

theorem reaches_logTree {name : String} {path : Path} {entry : Entry}
    (h : Reaches (.dir (logTree name)) path entry) :
    path = [] ∧ entry = .dir (logTree name) ∨
      path = ["logs"] ∧ entry = .dir [(name, .file [] 420)] ∨
        path = ["logs", name] ∧ entry = .file [] 420 := by
  rcases reaches_dir.mp h with hroot | ⟨first, child, rest, hchild, rfl, h⟩
  · exact .inl hroot
  · cases List.mem_singleton.mp hchild
    rcases reaches_dir.mp h with ⟨rfl, rfl⟩ | ⟨second, below, later, hbelow, rfl, h⟩
    · exact .inr (.inl ⟨rfl, rfl⟩)
    · cases List.mem_singleton.mp hbelow
      rcases reaches_leaf rfl h with ⟨rfl, rfl⟩
      exact .inr (.inr ⟨rfl, rfl⟩)

theorem legalTree_logTree {name : String} (hname : LegalName name) :
    LegalTree (logTree name) := by
  have hlogs : LegalName "logs" := by
    constructor <;> decide
  constructor
  · intro path entry h
    rcases reaches_logTree h with ⟨rfl, -⟩ | ⟨rfl, -⟩ | ⟨rfl, -⟩
    · exact List.forall_mem_nil _
    · simpa using hlogs
    · simpa using ⟨hlogs, hname⟩
  · intro path entry other h hother
    rcases reaches_logTree h with ⟨rfl, rfl⟩ | ⟨rfl, rfl⟩ | ⟨rfl, rfl⟩ <;>
      rcases reaches_logTree hother with ⟨hpath, rfl⟩ | ⟨hpath, rfl⟩ | ⟨hpath, rfl⟩ <;>
      first
      | rfl
      | simp at hpath

/-- A name with a star: the file is resolved, and no snapshot is made. -/
theorem star_refused :
    LegalTree (logTree "a*b") ∧
      resolve plainMatch samplePlatform.casefold logPolicy (logTree "a*b") = .ok (logFiles "a*b") ∧
      createLocalSnapshot samplePlatform (treeDisk (logTree "a*b")) "v1" (logFiles "a*b")
        Store.empty none logLimits 0 = .error "Snapshot paths cannot contain globs" ∧
      ¬ SnapshotLaw samplePlatform (logTree "a*b") (logFiles "a*b") := by
  have hrefused : validateRelativePath "logs/a*b" = .error "Snapshot paths cannot contain globs" := by
    decide +kernel
  refine ⟨legalTree_logTree (by constructor <;> decide), by decide +kernel, ?_, ?_⟩
  · unfold createLocalSnapshot captureBody logFiles
    have hcopy : copySourceToObject samplePlatform (treeDisk (logTree "a*b"))
        ⟨"logs/a*b", ["task_delivery"]⟩ Store.empty logLimits =
          .error "Snapshot paths cannot contain globs" := by
      unfold copySourceToObject safeSourceOpen
      dsimp only
      rw [hrefused]
    have hvalid : logLimits.valid = true := by decide
    rw [hvalid, if_neg (by decide), if_neg (by decide), captureFiles]
    rw [show "logs/" ++ "a*b" = "logs/a*b" from by decide, hcopy]
    rfl
  · intro hlaw
    have hok := hlaw.accepted _ List.mem_cons_self
    rw [show (⟨"logs/" ++ "a*b", ["task_delivery"]⟩ : ProtectedFile).relativePath = "logs/a*b"
      from by decide, hrefused] at hok
    cases hok

/-- The law of a plain name, with a store in which nothing stands in the way. -/
theorem snapshot_law_plain :
    SnapshotLaw samplePlatform (logTree "notes") (logFiles "notes") ∧
      Unhindered samplePlatform (treeDisk (logTree "notes")) "v1" (logFiles "notes") Store.empty
        none logLimits := by
  have hresolve : resolve plainMatch samplePlatform.casefold logPolicy (logTree "notes") =
      .ok (logFiles "notes") := by
    decide +kernel
  have hsource : ∀ file ∈ logFiles "notes",
      sourceOf (treeDisk (logTree "notes")) file.relativePath = ([], 420) := by
    unfold logFiles
    rw [List.forall_mem_singleton]
    decide +kernel
  constructor
  · apply (snapshot_law_iff (legalTree_logTree (by constructor <;> decide)) hresolve).mpr
    rintro path ⟨content, mode, -, -, hreaches, -⟩
    rcases reaches_logTree hreaches with ⟨-, hentry⟩ | ⟨-, hentry⟩ | ⟨rfl, -⟩
    · cases hentry
    · cases hentry
    · constructor
      · decide +kernel
      · decide +kernel
      · intro name hname c hc
        cases hname
        have hl : "logs".toList.head? = some 'l' := by decide +kernel
        cases hl.symm.trans hc
        decide
      · intro name hname c hc
        cases hname
        have hs : "notes".toList.getLast? = some 's' := by decide +kernel
        cases hs.symm.trans hc
        decide
      · intro name hname
        cases hname
        decide +kernel
  · constructor
    · exact ⟨"v1", by decide +kernel⟩
    · decide
    · decide
    · intro file hfile
      rw [hsource file hfile]
      decide
    · decide +kernel
    · intro digest content hget
      rw [Store.empty, Dict.get?_empty] at hget
      cases hget
    · have hknown (content : List UInt8) (h : KnownContent (treeDisk (logTree "notes"))
          (logFiles "notes") Store.empty content) : content = [] := by
        rcases h with ⟨digest, hget⟩ | ⟨file, hfile, hcontent⟩
        · rw [Store.empty, Dict.get?_empty] at hget
          cases hget
        · rw [hcontent, hsource file hfile]
      intro content other hcontent hother _
      rw [hknown content hcontent, hknown other hother]
    · intro file hfile hfloor
      rw [List.mem_singleton.mp hfile] at hfloor
      have hother : "logs/" ++ "notes" ≠ releaseSequenceFloor := by decide +kernel
      exact absurd hfloor hother
    · intro raw hraw
      cases hraw
    · intro store' body _ file hget
      rw [Store.empty, Dict.get?_empty] at hget
      cases hget

end Sample
end Backup
end Stemcell
