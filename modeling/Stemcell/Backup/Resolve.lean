import Stemcell.Backup.Create
import Stemcell.Lib.SortedSet

/-!
# Resolving the recovery policy

The policy names the protected data by patterns.  A pattern is expanded by walking the data tree: a
segment without magic names an entry, one with magic is compared with every name, and `**` stands
for any directories, or for everything below.  Links and special files are refused wherever the walk
meets them.

Main results:

- Definition `resolve`: the protected files.
- Definition `Protects`: the paths that a pattern means.
- Theorem `mem_safeTree`: what the walk over an entry yields.
- Theorem `mem_expandParts`: the walk over the segments of a pattern yields what they mean.

Current gaps:

- `fnmatch.fnmatchcase` is a parameter, as `str.casefold` is.
- The children of a directory are given in the order of their names, and the tree does not change
  while it is walked; directories that cannot be listed are left out.
- Errors name a path from the root on.
-/

namespace Stemcell
namespace Backup

open Lib

/-! ## The data tree -/

/-- What a name stands for. -/
inductive Entry
  | file (content : List UInt8) (mode : Nat)
  | dir (children : List (String × Entry))
  | socket
  | link
  | special

namespace Entry

def isFile : Entry → Bool
  | file _ _ => true
  | _ => false

def isDir : Entry → Bool
  | dir _ => true
  | _ => false

def children : Entry → List (String × Entry)
  | dir children => children
  | _ => []

end Entry

/-- `path.relative_to(root).as_posix()`. -/
def asPosix (path : Path) : String :=
  if path = [] then "." else String.ofList (['/'].intercalate (path.map String.toList))

/-- `RUNTIME_EPHEMERAL_SOCKET`. -/
def runtimeEphemeralSocket : Path :=
  [".silicon-interface", "daemon.sock"]

/-- `_is_runtime_ephemeral_socket`. -/
def isRuntimeEphemeralSocket (path : Path) : Entry → Bool
  | .socket => path = runtimeEphemeralSocket
  | _ => false

/-- What `_ensure_entry_type` raises. -/
def ensureEntryType (path : Path) : Entry → Option String
  | .link => some s!"Refusing symbolic link in protected data: {asPosix path}"
  | .socket => some s!"Refusing special file in protected data: {asPosix path}"
  | .special => some s!"Refusing special file in protected data: {asPosix path}"
  | _ => none

/-- The nonce in `_ATOMIC_WRITE_TEMP_RE`: two numbers with a dot, or eight characters. -/
def isNonce (text : List Char) : Bool :=
  (match text.splitOn '.' with
    | [first, second] =>
        first ≠ [] && first.all Char.isDigit && second ≠ [] && second.all Char.isDigit
    | _ => false) ||
  (text.length = 8 && text.all fun c => c.isAlphanum || c = '_' || c = '-')

/-- `_ATOMIC_WRITE_TEMP_RE.fullmatch(name)`. -/
def isTemporary (name : String) : Bool :=
  match name.toList with
  | '.' :: rest =>
      ".tmp".toList.isSuffixOf rest &&
        (let stem := rest.take (rest.length - 4)
        (List.range stem.length).any fun i =>
          0 < i && stem[i]? = some '.' && (stem.take i).all (fun c => c ≠ '\n') &&
            isNonce (stem.drop (i + 1)))
  | _ => false

/-! ## Walking -/

/-- What a generator yields, and what it raises in the end. -/
structure Walk where
  yielded : List (Path × Entry)
  raised : Option String

namespace Walk

def done : Walk := ⟨[], none⟩

def one (path : Path) (entry : Entry) : Walk := ⟨[(path, entry)], none⟩

def fail (message : String) : Walk := ⟨[], some message⟩

/-- One generator after another. -/
def andThen (first second : Walk) : Walk :=
  match first.raised with
  | none => ⟨first.yielded ++ second.yielded, second.raised⟩
  | some _ => first

end Walk

mutual

/-- `_safe_tree`. -/
def safeTree (path : Path) : Entry → Walk
  | .file content mode => .one path (.file content mode)
  | .dir children => (Walk.one path (.dir children)).andThen (safeForest path children)
  | .socket =>
      if path = runtimeEphemeralSocket then .done
      else .fail s!"Refusing special file in protected data: {asPosix path}"
  | .link => .fail s!"Refusing symbolic link in protected data: {asPosix path}"
  | .special => .fail s!"Refusing special file in protected data: {asPosix path}"

/-- The loop over the children. -/
def safeForest (path : Path) : List (String × Entry) → Walk
  | [] => .done
  | (name, entry) :: rest =>
      if isTemporary name then safeForest path rest
      else (safeTree (path ++ [name]) entry).andThen (safeForest path rest)

end

mutual

/-- `**` before other segments: these are tried in the directory and in all below. -/
def descend (next : Path → List (String × Entry) → Walk) (path : Path) : Entry → Walk
  | .dir children => (next path children).andThen (descendForest next path children)
  | _ => .done

/-- The loop over the children. -/
def descendForest (next : Path → List (String × Entry) → Walk) (path : Path) :
    List (String × Entry) → Walk
  | [] => .done
  | (name, entry) :: rest =>
      if isTemporary name || isRuntimeEphemeralSocket (path ++ [name]) entry then
        descendForest next path rest
      else
        match ensureEntryType (path ++ [name]) entry with
        | some message => .fail message
        | none => (descend next (path ++ [name]) entry).andThen (descendForest next path rest)

end

section Expanding

variable (fnmatch : String → String → Bool) (casefold : String → String)

/-- The entries that a segment is tried on. -/
def candidates (segment : String) (children : List (String × Entry)) : List (String × Entry) :=
  if hasMagic segment then
    children.filter fun child => !isTemporary child.1 && fnmatch child.1 segment
  else children.filter fun child => child.1 = segment

/-- The loop over the candidates. -/
def tryCandidates (last : Bool) (next : Path → List (String × Entry) → Walk) (path : Path) :
    List (String × Entry) → Walk
  | [] => .done
  | (name, entry) :: rest =>
      if isRuntimeEphemeralSocket (path ++ [name]) entry then tryCandidates last next path rest
      else
        match ensureEntryType (path ++ [name]) entry with
        | some message => .fail message
        | none =>
            (if last then .one (path ++ [name]) entry
              else if entry.isDir then next (path ++ [name]) entry.children
              else .done).andThen (tryCandidates last next path rest)

/-- `_expand_parts`, from a directory with its children. -/
def expandParts : List String → Path → List (String × Entry) → Walk
  | [], path, children => .one path (.dir children)
  | segment :: rest, path, children =>
      if segment = "**" then
        if rest = [] then safeTree path (.dir children)
        else descend (expandParts rest) path (.dir children)
      else
        tryCandidates (decide (rest = [])) (expandParts rest) path
          (candidates fnmatch segment children)

/-- The loop over what a generator yields: the files, or all that was found, by their relative
paths. -/
def gather (filesOnly : Bool) :
    Dict String (Path × Entry) → List (Path × Entry) → Except String (Dict String (Path × Entry))
  | found, [] => .ok found
  | found, (path, entry) :: rest =>
      match ensureEntryType path entry with
      | some message => .error message
      | none =>
          if filesOnly && !entry.isFile then gather filesOnly found rest
          else if isForbiddenRelative casefold (asPosix path) then
            .error s!"Protected data includes a credential or internal store: {asPosix path}"
          else gather filesOnly (found.set (asPosix path) (path, entry)) rest

/-- The same for the whole generator. -/
def drain (filesOnly : Bool) (found : Dict String (Path × Entry)) (walk : Walk) :
    Except String (Dict String (Path × Entry)) := do
  let found ← gather casefold filesOnly found walk.yielded
  match walk.raised with
  | some message => .error message
  | none => return found

/-- `tuple(matches[key] for key in sorted(matches))`. -/
def inOrder (found : Dict String (Path × Entry)) : List (Path × Entry) :=
  (sortedSet found.keys).filterMap found.get?

/-- `expand_pattern`, in a root with these children. -/
def expandPattern (root : List (String × Entry)) (pattern : String) :
    Except String (List (Path × Entry)) := do
  let canonical ← validateRelativePattern pattern
  let found ← drain casefold false .empty (expandParts fnmatch (pathParts canonical) [] root)
  return inOrder found

/-- The loop over the candidates of `expand_pattern_files`. -/
def expandTrees : Dict String (Path × Entry) → List (Path × Entry) →
    Except String (Dict String (Path × Entry))
  | found, [] => .ok found
  | found, (path, entry) :: rest => do
      let found ← drain casefold true found (safeTree path entry)
      expandTrees found rest

/-- `expand_pattern_files`. -/
def expandPatternFiles (root : List (String × Entry)) (pattern : String) :
    Except String (List (Path × Entry)) := do
  let matched ← expandPattern fnmatch casefold root pattern
  let found ← expandTrees casefold .empty matched
  return inOrder found

/-! ## The policy -/

/-- `DataPolicy`: the patterns of each class, and those of the legacy file. -/
structure DataPolicy where
  classes : String → List String
  legacyAdditive : List String

/-- The classes of `MANDATORY_CLASSES` that are in a snapshot. -/
def snapshotClasses : List String :=
  ["security_state", "critical_living", "task_delivery", "self_customization", "artifacts"]

/-- `snapshot_patterns`. -/
def DataPolicy.snapshotPatterns (policy : DataPolicy) : List (String × String) :=
  (snapshotClasses.flatMap fun name => (policy.classes name).map fun pattern => (name, pattern)) ++
    policy.legacyAdditive.map fun pattern => ("legacy_additive", pattern)

/-- The files of one pattern, each with its class. -/
def selectFiles (className : String) :
    Dict String (List String) → List (Path × Entry) → Dict String (List String)
  | selected, [] => selected
  | selected, (path, _) :: rest =>
      selectFiles className (selected.set (asPosix path)
        ((selected.get? (asPosix path)).getD [] ++ [className])) rest

/-- The loop over the patterns. -/
def selectPatterns (root : List (String × Entry)) : Dict String (List String) →
    List (String × String) → Except String (Dict String (List String))
  | selected, [] => .ok selected
  | selected, (className, pattern) :: rest => do
      let files ← expandPatternFiles fnmatch casefold root pattern
      selectPatterns root (selectFiles className selected files) rest

/-- `DataPolicy.resolve`. -/
def resolve (policy : DataPolicy) (root : List (String × Entry)) :
    Except String (List ProtectedFile) := do
  let selected ← selectPatterns fnmatch casefold root .empty policy.snapshotPatterns
  return (sortedSet selected.keys).map fun key =>
    ⟨key, sortedSet ((selected.get? key).getD [])⟩

end Expanding

/-! ## What a pattern means -/

/-- The entry at some names below another. -/
inductive Reaches : Entry → Path → Entry → Prop
  | here (entry : Entry) : Reaches entry [] entry
  | step {children : List (String × Entry)} {name : String} {child entry : Entry} {path : Path}
      (hchild : (name, child) ∈ children) (h : Reaches child path entry) :
      Reaches (.dir children) (name :: path) entry

/-- The segments of a pattern mean the path of a directory, or of a file. -/
inductive Selects (fnmatch : String → String → Bool) (dir : Bool) : List String → Path → Prop
  | here : Selects fnmatch dir [] []
  | under {path : Path} (hdir : path = [] → dir = true)
      (hnames : ∀ name ∈ path, isTemporary name = false) : Selects fnmatch dir ["**"] path
  | skip {rest : List String} {path : Path} (hrest : rest ≠ [])
      (h : Selects fnmatch dir rest path) : Selects fnmatch dir ("**" :: rest) path
  | down {rest : List String} {name : String} {path : Path} (hrest : rest ≠ [])
      (hname : isTemporary name = false) (h : Selects fnmatch dir ("**" :: rest) path) :
      Selects fnmatch dir ("**" :: rest) (name :: path)
  | magic {segment name : String} {rest : List String} {path : Path} (hsegment : segment ≠ "**")
      (hmagic : hasMagic segment = true) (hname : isTemporary name = false)
      (hmatch : fnmatch name segment = true) (h : Selects fnmatch dir rest path) :
      Selects fnmatch dir (segment :: rest) (name :: path)
  | literal {segment : String} {rest : List String} {path : Path}
      (hplain : hasMagic segment = false) (h : Selects fnmatch dir rest path) :
      Selects fnmatch dir (segment :: rest) (segment :: path)

/-- A pattern means a file: it means its path, or that of a directory above. -/
def Protects (fnmatch : String → String → Bool) (pattern : String) (path : Path) : Prop :=
  ∃ canonical front back, validateRelativePattern pattern = .ok canonical ∧ path = front ++ back ∧
    Selects fnmatch (!back.isEmpty) (pathParts canonical) front ∧
      ∀ name ∈ back, isTemporary name = false

/-! ## Walks that raise nothing -/

namespace Walk

@[simp]
theorem raised_andThen {first second : Walk} :
    (first.andThen second).raised = none ↔ first.raised = none ∧ second.raised = none := by
  unfold andThen
  cases hraised : first.raised with
  | none => simp
  | some message => simp [hraised]

theorem yielded_andThen {first second : Walk} (h : first.raised = none) :
    (first.andThen second).yielded = first.yielded ++ second.yielded := by
  unfold andThen
  rw [h]

end Walk

section Walks

variable {path : Path} {entry : Entry} {children : List (String × Entry)} {found : Path × Entry}

/-- A file or a directory. -/
def Entry.isPlain (entry : Entry) : Bool :=
  entry.isFile || entry.isDir

theorem reaches_dir {names : Path} {target : Entry} :
    Reaches (.dir children) names target ↔
      names = [] ∧ target = .dir children ∨
        ∃ name child rest, (name, child) ∈ children ∧ names = name :: rest ∧
          Reaches child rest target := by
  constructor
  · intro h
    cases h with
    | here => exact .inl ⟨rfl, rfl⟩
    | step hchild h => exact .inr ⟨_, _, _, hchild, rfl, h⟩
  · rintro (⟨rfl, rfl⟩ | ⟨name, child, rest, hchild, rfl, h⟩)
    · exact .here _
    · exact .step hchild h

theorem reaches_leaf {names : Path} {target : Entry} (hleaf : entry.isDir = false)
    (h : Reaches entry names target) : names = [] ∧ target = entry := by
  cases h with
  | here => exact ⟨rfl, rfl⟩
  | step => cases hleaf

/-- What the walk over an entry yields: files and directories without temporary names. -/
def InTree (path : Path) (entry : Entry) (found : Path × Entry) : Prop :=
  ∃ names, found.1 = path ++ names ∧ Reaches entry names found.2 ∧
    (∀ name ∈ names, isTemporary name = false) ∧ found.2.isPlain = true

/-- The same for one of the children. -/
def InForest (path : Path) (children : List (String × Entry)) (found : Path × Entry) : Prop :=
  ∃ name child, (name, child) ∈ children ∧ isTemporary name = false ∧
    InTree (path ++ [name]) child found

theorem inTree_leaf (hleaf : entry.isDir = false) :
    InTree path entry found ↔ found = (path, entry) ∧ entry.isPlain = true := by
  unfold InTree
  constructor
  · rintro ⟨names, hpath, hreaches, -, hplain⟩
    rcases reaches_leaf hleaf hreaches with ⟨rfl, htarget⟩
    rw [List.append_nil] at hpath
    rw [htarget] at hplain
    exact ⟨Prod.ext hpath htarget, hplain⟩
  · rintro ⟨rfl, hplain⟩
    exact ⟨[], (List.append_nil _).symm, .here _, List.forall_mem_nil _, hplain⟩

theorem inTree_dir :
    InTree path (.dir children) found ↔
      found = (path, .dir children) ∨ InForest path children found := by
  unfold InForest InTree
  constructor
  · rintro ⟨names, hpath, hreaches, hnames, hplain⟩
    rcases reaches_dir.mp hreaches with ⟨rfl, htarget⟩ | ⟨name, child, rest, hchild, rfl, hrest⟩
    · rw [List.append_nil] at hpath
      exact .inl (Prod.ext hpath htarget)
    · right
      refine ⟨name, child, hchild, hnames name List.mem_cons_self, rest, ?_, hrest, ?_, hplain⟩
      · rw [hpath, List.append_assoc, List.singleton_append]
      · exact fun other hother => hnames other (List.mem_cons_of_mem _ hother)
  · rintro (rfl | ⟨name, child, hchild, hname, rest, hpath, hrest, hnames, hplain⟩)
    · exact ⟨[], (List.append_nil _).symm, .here _, List.forall_mem_nil _, rfl⟩
    · refine ⟨name :: rest, ?_, .step hchild hrest, ?_, hplain⟩
      · rw [hpath, List.append_assoc, List.singleton_append]
      · exact List.forall_mem_cons.mpr ⟨hname, hnames⟩

theorem inForest_cons {name : String} {rest : List (String × Entry)} :
    InForest path ((name, entry) :: rest) found ↔
      isTemporary name = false ∧ InTree (path ++ [name]) entry found ∨
        InForest path rest found := by
  unfold InForest
  constructor
  · rintro ⟨other, child, hchild, hname, htree⟩
    rcases List.mem_cons.mp hchild with heq | hlater
    · cases heq
      exact .inl ⟨hname, htree⟩
    · exact .inr ⟨other, child, hlater, hname, htree⟩
  · rintro (⟨hname, htree⟩ | ⟨other, child, hchild, hname, htree⟩)
    · exact ⟨name, entry, List.mem_cons_self, hname, htree⟩
    · exact ⟨other, child, List.mem_cons_of_mem _ hchild, hname, htree⟩

theorem inForest_nil : ¬ InForest path [] found := by
  rintro ⟨name, child, hchild, -⟩
  cases hchild

mutual

theorem mem_safeTree (path : Path) (found : Path × Entry) : ∀ entry : Entry,
    (safeTree path entry).raised = none →
      (found ∈ (safeTree path entry).yielded ↔ InTree path entry found)
  | .file content mode => by
      intro _
      rw [inTree_leaf rfl, safeTree, Walk.one, List.mem_singleton]
      exact (and_iff_left rfl).symm
  | .dir children => by
      intro h
      rw [safeTree, Walk.raised_andThen] at h
      rw [inTree_dir, safeTree, Walk.yielded_andThen h.1, List.mem_append, Walk.one,
        List.mem_singleton, mem_safeForest path found children h.2]
  | .socket => by
      intro h
      rw [safeTree] at h ⊢
      by_cases hpath : path = runtimeEphemeralSocket
      · rw [inTree_leaf rfl, if_pos hpath]
        constructor
        · intro hmem
          cases hmem
        · rintro ⟨-, hplain⟩
          cases hplain
      · rw [if_neg hpath] at h
        cases h
  | .link => by
      intro h
      rw [safeTree] at h
      cases h
  | .special => by
      intro h
      rw [safeTree] at h
      cases h

theorem mem_safeForest (path : Path) (found : Path × Entry) : ∀ children : List (String × Entry),
    (safeForest path children).raised = none →
      (found ∈ (safeForest path children).yielded ↔ InForest path children found)
  | [] => by
      intro _
      constructor
      · intro hmem
        cases hmem
      · intro hforest
        exact absurd hforest inForest_nil
  | (name, entry) :: rest => by
      intro h
      rw [inForest_cons]
      rw [safeForest] at h ⊢
      by_cases hname : isTemporary name = true
      · rw [if_pos hname] at h ⊢
        rw [mem_safeForest path found rest h, hname]
        simp
      · rw [if_neg hname, Walk.raised_andThen] at h
        rw [Bool.not_eq_true] at hname
        rw [hname, if_neg Bool.false_ne_true, Walk.yielded_andThen h.1, List.mem_append,
          mem_safeTree (path ++ [name]) found entry h.1, mem_safeForest path found rest h.2]
        simp

end

end Walks

/-! ## Expanded patterns -/

section Segments

variable {fnmatch : String → String → Bool} {casefold : String → String} {path : Path}
  {entry : Entry} {children : List (String × Entry)} {found : Path × Entry}
  {next : Path → List (String × Entry) → Walk} {rest : List String} {segment : String}

theorem reaches_append {entry target : Entry} {front back : Path} :
    Reaches entry (front ++ back) target ↔
      ∃ middle, Reaches entry front middle ∧ Reaches middle back target := by
  induction front generalizing entry with
  | nil =>
      constructor
      · intro h
        exact ⟨entry, .here _, h⟩
      · rintro ⟨middle, hfront, hback⟩
        cases hfront
        exact hback
  | cons name front ih =>
      constructor
      · intro h
        cases h with
        | step hchild h =>
            rcases ih.mp h with ⟨middle, hfront, hback⟩
            exact ⟨middle, .step hchild hfront, hback⟩
      · rintro ⟨middle, hfront, hback⟩
        cases hfront with
        | step hchild hfront => exact .step hchild (ih.mpr ⟨middle, hfront, hback⟩)

theorem reaches_nil {target : Entry} : Reaches entry [] target ↔ target = entry := by
  constructor
  · intro h
    cases h
    rfl
  · rintro rfl
    exact .here _

theorem reaches_one {target : Entry} {name : String} :
    Reaches (.dir children) [name] target ↔ (name, target) ∈ children := by
  constructor
  · intro h
    cases h with
    | step hchild h =>
        rw [reaches_nil.mp h]
        exact hchild
  · intro h
    exact .step h (.here _)

theorem isDir_of_reaches {target : Entry} {name : String} {names : Path}
    (h : Reaches entry (name :: names) target) : entry.isDir = true := by
  cases h
  rfl

theorem eq_dir_of_isDir (h : entry.isDir = true) : entry = .dir entry.children := by
  cases entry with
  | dir children => rfl
  | file content mode => cases h
  | socket => cases h
  | link => cases h
  | special => cases h

theorem ensureEntryType_eq_none : ensureEntryType path entry = none ↔ entry.isPlain = true := by
  cases entry <;> simp [ensureEntryType, Entry.isPlain, Entry.isFile, Entry.isDir]

theorem isRuntimeEphemeralSocket_of_isPlain (h : entry.isPlain = true) :
    isRuntimeEphemeralSocket path entry = false := by
  cases entry with
  | socket => cases h
  | dir children => rfl
  | file content mode => rfl
  | link => rfl
  | special => rfl

theorem isPlain_of_isDir (h : entry.isDir = true) : entry.isPlain = true := by
  unfold Entry.isPlain
  rw [h, Bool.or_true]

/-- The walk raises nothing in any of the directories, and yields what it yields in them. -/
structure Descends (next : Path → List (String × Entry) → Walk) (path : Path) (entry : Entry)
    (walk : Walk) : Prop where
  quiet : ∀ names below, Reaches entry names (.dir below) →
    (∀ name ∈ names, isTemporary name = false) → (next (path ++ names) below).raised = none
  mem_iff : ∀ found, found ∈ walk.yielded ↔ ∃ names below, Reaches entry names (.dir below) ∧
    (∀ name ∈ names, isTemporary name = false) ∧ found ∈ (next (path ++ names) below).yielded

/-- The same for the children. -/
structure DescendsForest (next : Path → List (String × Entry) → Walk) (path : Path)
    (children : List (String × Entry)) (walk : Walk) : Prop where
  quiet : ∀ name child names below, (name, child) ∈ children → Reaches child names (.dir below) →
    (∀ other ∈ name :: names, isTemporary other = false) →
      (next (path ++ name :: names) below).raised = none
  mem_iff : ∀ found, found ∈ walk.yielded ↔ ∃ name child names below, (name, child) ∈ children ∧
    Reaches child names (.dir below) ∧ (∀ other ∈ name :: names, isTemporary other = false) ∧
      found ∈ (next (path ++ name :: names) below).yielded

theorem descends_leaf (hleaf : entry.isDir = false) : Descends next path entry .done := by
  have hno {names : Path} {below : List (String × Entry)}
      (h : Reaches entry names (.dir below)) : False := by
    rw [← (reaches_leaf hleaf h).2] at hleaf
    cases hleaf
  constructor
  · intro names below hreaches
    exact (hno hreaches).elim
  · intro found
    constructor
    · intro hmem
      cases hmem
    · rintro ⟨names, below, hreaches, -⟩
      exact (hno hreaches).elim

theorem DescendsForest.directory {walk : Walk} (h : DescendsForest next path children walk)
    (hquiet : (next path children).raised = none) :
    Descends next path (.dir children) ((next path children).andThen walk) := by
  constructor
  · intro names below hreaches hnames
    rcases reaches_dir.mp hreaches with ⟨rfl, heq⟩ | ⟨name, child, rest, hchild, rfl, hrest⟩
    · cases heq
      rw [List.append_nil]
      exact hquiet
    · exact h.quiet name child rest below hchild hrest hnames
  · intro found
    rw [Walk.yielded_andThen hquiet, List.mem_append, h.mem_iff]
    constructor
    · rintro (hhere | ⟨name, child, rest, below, hchild, hrest, hnames, hfound⟩)
      · refine ⟨[], children, .here _, List.forall_mem_nil _, ?_⟩
        rw [List.append_nil]
        exact hhere
      · exact ⟨name :: rest, below, .step hchild hrest, hnames, hfound⟩
    · rintro ⟨names, below, hreaches, hnames, hfound⟩
      rcases reaches_dir.mp hreaches with ⟨rfl, heq⟩ | ⟨name, child, rest, hchild, rfl, hrest⟩
      · cases heq
        rw [List.append_nil] at hfound
        exact .inl hfound
      · exact .inr ⟨name, child, rest, below, hchild, hrest, hnames, hfound⟩

/-- A child that is not walked: no directory is below it, or its name is temporary. -/
theorem DescendsForest.skip {walk : Walk} {name : String} {later : List (String × Entry)}
    (h : DescendsForest next path later walk)
    (hskip : isTemporary name = true ∨ entry.isDir = false) :
    DescendsForest next path ((name, entry) :: later) walk := by
  have hno {names : Path} {below : List (String × Entry)}
      (hreaches : Reaches entry names (.dir below))
      (hnames : ∀ other ∈ name :: names, isTemporary other = false) : False := by
    rcases hskip with htemporary | hleaf
    · rw [hnames name List.mem_cons_self] at htemporary
      cases htemporary
    · rw [← (reaches_leaf hleaf hreaches).2] at hleaf
      cases hleaf
  constructor
  · intro other child names below hchild hreaches hnames
    rcases List.mem_cons.mp hchild with heq | hlater
    · cases heq
      exact (hno hreaches hnames).elim
    · exact h.quiet other child names below hlater hreaches hnames
  · intro found
    rw [h.mem_iff]
    constructor
    · rintro ⟨other, child, names, below, hchild, hrest⟩
      exact ⟨other, child, names, below, List.mem_cons_of_mem _ hchild, hrest⟩
    · rintro ⟨other, child, names, below, hchild, hreaches, hnames, hfound⟩
      rcases List.mem_cons.mp hchild with heq | hlater
      · cases heq
        exact (hno hreaches hnames).elim
      · exact ⟨other, child, names, below, hlater, hreaches, hnames, hfound⟩

theorem DescendsForest.cons {first walk : Walk} {name : String} {later : List (String × Entry)}
    (hname : isTemporary name = false) (hfirst : Descends next (path ++ [name]) entry first)
    (hraised : first.raised = none) (h : DescendsForest next path later walk) :
    DescendsForest next path ((name, entry) :: later) (first.andThen walk) := by
  have hpath (names : Path) : path ++ [name] ++ names = path ++ name :: names := by
    rw [List.append_assoc, List.singleton_append]
  constructor
  · intro other child names below hchild hreaches hnames
    rcases List.mem_cons.mp hchild with heq | hlater
    · cases heq
      rw [← hpath]
      exact hfirst.quiet names below hreaches fun x hx => hnames x (List.mem_cons_of_mem _ hx)
    · exact h.quiet other child names below hlater hreaches hnames
  · intro found
    rw [Walk.yielded_andThen hraised, List.mem_append, hfirst.mem_iff, h.mem_iff]
    constructor
    · rintro (⟨names, below, hreaches, hnames, hfound⟩ | ⟨other, child, names, below, hchild, hrest⟩)
      · rw [hpath] at hfound
        exact ⟨name, entry, names, below, List.mem_cons_self, hreaches,
          List.forall_mem_cons.mpr ⟨hname, hnames⟩, hfound⟩
      · exact ⟨other, child, names, below, List.mem_cons_of_mem _ hchild, hrest⟩
    · rintro ⟨other, child, names, below, hchild, hreaches, hnames, hfound⟩
      rcases List.mem_cons.mp hchild with heq | hlater
      · cases heq
        rw [← hpath] at hfound
        exact .inl ⟨names, below, hreaches, fun x hx => hnames x (List.mem_cons_of_mem _ hx), hfound⟩
      · exact .inr ⟨other, child, names, below, hlater, hreaches, hnames, hfound⟩

mutual

theorem descend_spec (next : Path → List (String × Entry) → Walk) (path : Path) :
    ∀ entry : Entry, (descend next path entry).raised = none →
      Descends next path entry (descend next path entry)
  | .dir children => by
      intro h
      rw [descend, Walk.raised_andThen] at h
      rw [descend]
      exact (descendForest_spec next path children h.2).directory h.1
  | .file content mode => by
      intro _
      exact descends_leaf rfl
  | .socket => by
      intro _
      exact descends_leaf rfl
  | .link => by
      intro _
      exact descends_leaf rfl
  | .special => by
      intro _
      exact descends_leaf rfl

theorem descendForest_spec (next : Path → List (String × Entry) → Walk) (path : Path) :
    ∀ children : List (String × Entry), (descendForest next path children).raised = none →
      DescendsForest next path children (descendForest next path children)
  | [] => by
      intro _
      constructor
      · intro name child names below hchild
        cases hchild
      · intro found
        constructor
        · intro hmem
          cases hmem
        · rintro ⟨name, child, names, below, hchild, -⟩
          cases hchild
  | (name, entry) :: later => by
      intro h
      rw [descendForest] at h ⊢
      by_cases hskip : (isTemporary name || isRuntimeEphemeralSocket (path ++ [name]) entry) = true
      · rw [if_pos hskip] at h ⊢
        apply (descendForest_spec next path later h).skip
        rw [Bool.or_eq_true] at hskip
        rcases hskip with htemporary | hsocket
        · exact .inl htemporary
        · right
          cases entry with
          | socket => rfl
          | dir children => cases hsocket
          | file content mode => rfl
          | link => rfl
          | special => rfl
      · rw [if_neg hskip] at h ⊢
        rw [Bool.not_eq_true, Bool.or_eq_false_iff] at hskip
        cases hensure : ensureEntryType (path ++ [name]) entry with
        | some message =>
            rw [hensure] at h
            cases h
        | none =>
            rw [hensure] at h
            dsimp only at h ⊢
            rw [Walk.raised_andThen] at h
            exact DescendsForest.cons hskip.1 (descend_spec next (path ++ [name]) entry h.1) h.1
              (descendForest_spec next path later h.2)

end

/-- What the loop over the candidates yields. -/
theorem mem_tryCandidates {last : Bool} {children : List (String × Entry)}
    (h : (tryCandidates last next path children).raised = none) :
    (∀ name child, (name, child) ∈ children → last = false → child.isDir = true →
      (next (path ++ [name]) child.children).raised = none) ∧
    ∀ found, found ∈ (tryCandidates last next path children).yielded ↔
      ∃ name child, (name, child) ∈ children ∧
        (last = true ∧ child.isPlain = true ∧ found = (path ++ [name], child) ∨
          last = false ∧ child.isDir = true ∧
            found ∈ (next (path ++ [name]) child.children).yielded) := by
  induction children with
  | nil =>
      constructor
      · intro name child hchild
        cases hchild
      · intro found
        constructor
        · intro hmem
          cases hmem
        · rintro ⟨name, child, hchild, -⟩
          cases hchild
  | cons first later ih =>
      rcases first with ⟨name, entry⟩
      rw [tryCandidates] at h ⊢
      by_cases hsocket : isRuntimeEphemeralSocket (path ++ [name]) entry = true
      · have hnone : entry.isPlain = false ∧ entry.isDir = false := by
          cases entry with
          | socket => exact ⟨rfl, rfl⟩
          | dir children => cases hsocket
          | file content mode => cases hsocket
          | link => cases hsocket
          | special => cases hsocket
        rw [if_pos hsocket] at h ⊢
        rcases ih h with ⟨hquiet, hmem⟩
        constructor
        · intro other child hchild hlast hdir
          rcases List.mem_cons.mp hchild with heq | hlater
          · cases heq
            rw [hnone.2] at hdir
            cases hdir
          · exact hquiet other child hlater hlast hdir
        · intro found
          rw [hmem]
          constructor
          · rintro ⟨other, child, hchild, hcase⟩
            exact ⟨other, child, List.mem_cons_of_mem _ hchild, hcase⟩
          · rintro ⟨other, child, hchild, hcase⟩
            rcases List.mem_cons.mp hchild with heq | hlater
            · cases heq
              rw [hnone.1, hnone.2] at hcase
              simp at hcase
            · exact ⟨other, child, hlater, hcase⟩
      · rw [if_neg hsocket] at h ⊢
        cases hensure : ensureEntryType (path ++ [name]) entry with
        | some message =>
            rw [hensure] at h
            cases h
        | none =>
            have hplain := ensureEntryType_eq_none.mp hensure
            rw [hensure] at h
            dsimp only at h ⊢
            rw [Walk.raised_andThen] at h
            rcases ih h.2 with ⟨hquiet, hmem⟩
            have hfirst := h.1
            rw [Walk.yielded_andThen hfirst]
            constructor
            · intro other child hchild hlast hdir
              rcases List.mem_cons.mp hchild with heq | hlater
              · cases heq
                rw [hlast, if_neg Bool.false_ne_true, if_pos hdir] at hfirst
                exact hfirst
              · exact hquiet other child hlater hlast hdir
            · intro found
              rw [List.mem_append, hmem]
              have hhere : found ∈ (if last = true then Walk.one (path ++ [name]) entry
                    else if entry.isDir = true then next (path ++ [name]) entry.children
                    else .done).yielded ↔
                  (last = true ∧ entry.isPlain = true ∧ found = (path ++ [name], entry) ∨
                    last = false ∧ entry.isDir = true ∧
                      found ∈ (next (path ++ [name]) entry.children).yielded) := by
                cases last with
                | true => simp [hplain, Walk.one]
                | false =>
                    by_cases hdir : entry.isDir = true
                    · simp [hdir]
                    · simp [hdir, Walk.done]
              rw [hhere]
              constructor
              · rintro (hcase | ⟨other, child, hchild, hcase⟩)
                · exact ⟨name, entry, List.mem_cons_self, hcase⟩
                · exact ⟨other, child, List.mem_cons_of_mem _ hchild, hcase⟩
              · rintro ⟨other, child, hchild, hcase⟩
                rcases List.mem_cons.mp hchild with heq | hlater
                · cases heq
                  exact .inl hcase
                · exact .inr ⟨other, child, hlater, hcase⟩

end Segments

/-! ## The meaning of the segments -/

section Meaning

variable {fnmatch : String → String → Bool} {casefold : String → String} {path : Path}
  {entry : Entry} {children : List (String × Entry)} {found : Path × Entry} {dir : Bool}
  {rest : List String} {segment : String} {names : Path}

/-- Only directories are meant where no name is left but segments are. -/
theorem Selects.dir_of_nil (h : Selects fnmatch dir rest []) (hrest : rest ≠ []) : dir = true := by
  generalize hnames : ([] : Path) = names at h
  induction h with
  | here => exact absurd rfl hrest
  | under hdir _ => exact hdir hnames.symm
  | skip hlater _ ih => exact ih hlater hnames
  | down => cases hnames
  | magic => cases hnames
  | literal => cases hnames

theorem hasMagic_stars : hasMagic "**" = true := by
  decide

theorem selects_stars :
    Selects fnmatch dir ["**"] names ↔
      (names = [] → dir = true) ∧ ∀ name ∈ names, isTemporary name = false := by
  constructor
  · intro h
    cases h with
    | under hdir hnames => exact ⟨hdir, hnames⟩
    | skip hrest => exact absurd rfl hrest
    | down hrest => exact absurd rfl hrest
    | magic hsegment => exact absurd rfl hsegment
    | literal hplain =>
        rw [hasMagic_stars] at hplain
        cases hplain
  · rintro ⟨hdir, hnames⟩
    exact .under hdir hnames

/-- `**` stands for some names of directories. -/
theorem selects_stars_cons (hrest : rest ≠ []) :
    Selects fnmatch dir ("**" :: rest) names ↔
      ∃ front back, names = front ++ back ∧ (∀ name ∈ front, isTemporary name = false) ∧
        Selects fnmatch dir rest back := by
  constructor
  · intro h
    generalize hsegments : "**" :: rest = segments at h
    induction h with
    | here => cases hsegments
    | under =>
        rw [List.cons.injEq] at hsegments
        exact absurd hsegments.2 hrest
    | @skip _ names _ h _ =>
        cases hsegments
        exact ⟨[], names, rfl, List.forall_mem_nil _, h⟩
    | @down _ name names _ hname _ ih =>
        rcases ih hsegments with ⟨front, back, hnames, hfront, hback⟩
        refine ⟨name :: front, back, ?_, List.forall_mem_cons.mpr ⟨hname, hfront⟩, hback⟩
        rw [hnames, List.cons_append]
    | magic hsegment =>
        rw [List.cons.injEq] at hsegments
        exact absurd hsegments.1.symm hsegment
    | literal hplain =>
        rw [List.cons.injEq] at hsegments
        rw [← hsegments.1, hasMagic_stars] at hplain
        cases hplain
  · rintro ⟨front, back, rfl, hfront, hback⟩
    induction front with
    | nil => exact .skip hrest hback
    | cons name front ih =>
        rw [List.forall_mem_cons] at hfront
        exact .down hrest hfront.1 (ih hfront.2)

/-- A name that a segment is tried on. -/
def Tries (fnmatch : String → String → Bool) (segment name : String) : Prop :=
  if hasMagic segment then isTemporary name = false ∧ fnmatch name segment = true
  else name = segment

theorem mem_candidates {child : String × Entry} :
    child ∈ candidates fnmatch segment children ↔
      child ∈ children ∧ Tries fnmatch segment child.1 := by
  unfold candidates Tries
  by_cases hmagic : hasMagic segment = true
  · rw [if_pos hmagic, if_pos hmagic, List.mem_filter, Bool.and_eq_true, Bool.not_eq_true']
  · rw [if_neg hmagic, if_neg hmagic, List.mem_filter, decide_eq_true_eq]

theorem selects_cons (hsegment : segment ≠ "**") :
    Selects fnmatch dir (segment :: rest) names ↔
      ∃ name later, names = name :: later ∧ Tries fnmatch segment name ∧
        Selects fnmatch dir rest later := by
  unfold Tries
  constructor
  · intro h
    cases h with
    | under => exact absurd rfl hsegment
    | skip => exact absurd rfl hsegment
    | down => exact absurd rfl hsegment
    | magic _ hmagic hname hmatch h =>
        refine ⟨_, _, rfl, ?_, h⟩
        rw [if_pos hmagic]
        exact ⟨hname, hmatch⟩
    | literal hplain h =>
        refine ⟨_, _, rfl, ?_, h⟩
        rw [hplain, if_neg Bool.false_ne_true]
  · rintro ⟨name, later, rfl, htries, h⟩
    by_cases hmagic : hasMagic segment = true
    · rw [if_pos hmagic] at htries
      exact .magic hsegment hmagic htries.1 htries.2 h
    · rw [if_neg hmagic] at htries
      rw [htries]
      exact .literal (by simpa using hmagic) h

theorem selects_nil : Selects fnmatch dir [] names ↔ names = [] := by
  constructor
  · intro h
    cases h
    rfl
  · rintro rfl
    exact .here

/-- The files and directories that segments mean in a directory. -/
def Meant (fnmatch : String → String → Bool) (segments : List String) (path : Path)
    (children : List (String × Entry)) (found : Path × Entry) : Prop :=
  ∃ names, found.1 = path ++ names ∧ Reaches (.dir children) names found.2 ∧
    found.2.isPlain = true ∧ Selects fnmatch found.2.isDir segments names

/-- What is meant by more segments in a directory further down. -/
theorem meant_below {front : Path} {below : List (String × Entry)}
    (hfront : Reaches (.dir children) front (.dir below))
    (h : Meant fnmatch rest (path ++ front) below found) :
    ∃ back, found.1 = path ++ (front ++ back) ∧
      Reaches (.dir children) (front ++ back) found.2 ∧ found.2.isPlain = true ∧
        Selects fnmatch found.2.isDir rest back := by
  rcases h with ⟨back, hpath, hreaches, hplain, hselects⟩
  refine ⟨back, ?_, reaches_append.mpr ⟨_, hfront, hreaches⟩, hplain, hselects⟩
  rw [hpath, List.append_assoc]

/-- The other way round: before more segments there is a directory. -/
theorem meant_of_append {front back : Path} (hrest : rest ≠ [])
    (hpath : found.1 = path ++ (front ++ back))
    (hreaches : Reaches (.dir children) (front ++ back) found.2) (hplain : found.2.isPlain = true)
    (hselects : Selects fnmatch found.2.isDir rest back) :
    ∃ below, Reaches (.dir children) front (.dir below) ∧
      Meant fnmatch rest (path ++ front) below found := by
  rcases reaches_append.mp hreaches with ⟨middle, hfront, hback⟩
  have hdir : middle.isDir = true := by
    cases back with
    | nil =>
        cases hback
        exact hselects.dir_of_nil hrest
    | cons name back => exact isDir_of_reaches hback
  rw [eq_dir_of_isDir hdir] at hfront hback
  refine ⟨middle.children, hfront, back, ?_, hback, hplain, hselects⟩
  rw [hpath, List.append_assoc]

/-- An expansion that raises nothing yields what the segments mean. -/
theorem mem_expandParts (segments : List String) (path : Path) (children : List (String × Entry))
    (h : (expandParts fnmatch segments path children).raised = none) (found : Path × Entry) :
    found ∈ (expandParts fnmatch segments path children).yielded ↔
      Meant fnmatch segments path children found := by
  induction segments generalizing path children found with
  | nil =>
      rw [expandParts, Walk.one, List.mem_singleton]
      unfold Meant
      simp only [selects_nil]
      constructor
      · rintro rfl
        exact ⟨[], (List.append_nil _).symm, .here _, rfl, rfl⟩
      · rintro ⟨names, hpath, hreaches, -, rfl⟩
        rw [List.append_nil] at hpath
        exact Prod.ext hpath (reaches_nil.mp hreaches)
  | cons segment rest ih =>
      rw [expandParts] at h ⊢
      by_cases hstars : segment = "**"
      · rw [if_pos hstars] at h ⊢
        rw [hstars]
        by_cases hrest : rest = []
        · rw [if_pos hrest] at h ⊢
          rw [mem_safeTree path found _ h, hrest]
          unfold InTree Meant
          constructor
          · rintro ⟨names, hpath, hreaches, hnames, hplain⟩
            refine ⟨names, hpath, hreaches, hplain, selects_stars.mpr ⟨?_, hnames⟩⟩
            rintro rfl
            rw [reaches_nil.mp hreaches]
            rfl
          · rintro ⟨names, hpath, hreaches, hplain, hselects⟩
            exact ⟨names, hpath, hreaches, (selects_stars.mp hselects).2, hplain⟩
        · rw [if_neg hrest] at h ⊢
          have hspec := descend_spec (expandParts fnmatch rest) path _ h
          rw [hspec.mem_iff]
          constructor
          · rintro ⟨front, below, hreaches, hfront, hfound⟩
            rw [ih _ _ (hspec.quiet front below hreaches hfront)] at hfound
            rcases meant_below hreaches hfound with ⟨back, hpath, hback, hplain, hselects⟩
            exact ⟨front ++ back, hpath, hback, hplain,
              (selects_stars_cons hrest).mpr ⟨front, back, rfl, hfront, hselects⟩⟩
          · rintro ⟨names, hpath, hreaches, hplain, hselects⟩
            rcases (selects_stars_cons hrest).mp hselects with ⟨front, back, rfl, hfront, hselects⟩
            rcases meant_of_append hrest hpath hreaches hplain hselects with ⟨below, hdir, hmeant⟩
            refine ⟨front, below, hdir, hfront, ?_⟩
            rw [ih _ _ (hspec.quiet front below hdir hfront)]
            exact hmeant
      · rw [if_neg hstars] at h ⊢
        rcases mem_tryCandidates h with ⟨hquiet, hmem⟩
        rw [hmem]
        unfold Meant
        simp only [selects_cons hstars]
        constructor
        · rintro ⟨name, child, hchild, ⟨hlast, hplain, rfl⟩ | ⟨hlast, hdir, hfound⟩⟩
          · rw [decide_eq_true_eq] at hlast
            rcases mem_candidates.mp hchild with ⟨hchild, htries⟩
            refine ⟨[name], rfl, .step hchild (.here _), hplain, name, [], rfl, htries, ?_⟩
            rw [hlast]
            exact .here
          · rcases mem_candidates.mp hchild with ⟨hmember, htries⟩
            rw [ih _ _ (hquiet name child hchild hlast hdir)] at hfound
            have hreaches : Reaches (.dir children) [name] (.dir child.children) := by
              rw [← eq_dir_of_isDir hdir]
              exact .step hmember (.here _)
            rcases meant_below hreaches hfound with ⟨back, hpath, hback, hplain, hselects⟩
            exact ⟨[name] ++ back, hpath, hback, hplain, name, back, rfl, htries, hselects⟩
        · rintro ⟨names, hpath, hreaches, hplain, name, later, rfl, htries, hselects⟩
          by_cases hrest : rest = []
          · rw [hrest, selects_nil] at hselects
            rw [hselects] at hpath hreaches
            refine ⟨name, found.2, mem_candidates.mpr ⟨reaches_one.mp hreaches, htries⟩,
              .inl ⟨?_, hplain, Prod.ext hpath rfl⟩⟩
            rw [hrest]
            rfl
          · have hlast : decide (rest = []) = false := by simpa using hrest
            rw [← List.singleton_append] at hpath hreaches
            rcases meant_of_append hrest hpath hreaches hplain hselects with ⟨below, hdir, hmeant⟩
            have hcandidate : (name, Entry.dir below) ∈ candidates fnmatch segment children :=
              mem_candidates.mpr ⟨reaches_one.mp hdir, htries⟩
            refine ⟨name, .dir below, hcandidate, .inr ⟨hlast, rfl, ?_⟩⟩
            rw [ih _ _ (hquiet name (.dir below) hcandidate hlast rfl)]
            exact hmeant

end Meaning

end Backup
end Stemcell
