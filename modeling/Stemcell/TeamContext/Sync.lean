import Mathlib.Data.List.Basic
import Stemcell.Lib.Transition

/-!
# The own advertising memory

A Silicon authors one document of its team: a local file that is mirrored to Glass under
compare-and-swap on the revision.  A sync decides from the file, the recorded base and
what it knows of Glass whether to upload, to download or to report a conflict.  Between
its look at the file, its requests and its write anything else may happen.

Main results:

- Definition `syncOwn`: what a sync does about a file it has read.
- Definition `Team.next`: one step of an editor, of another writer, or of a sync.

Current gaps:

- The identity of the Silicon does not change.
- A request that Glass applies after the client gave it up is not modelled.
- Schedules, peers and the team file are not modelled.
-/

namespace Stemcell
namespace TeamContext

open Lib

/-! ## Contents -/

def maxAdvertisingMemoryLines : Nat := 100

def maxAdvertisingMemoryBytes : Nat := 64 * 1024

/-- The characters that end a line for `splitlines`. -/
def isLineBreak (c : Char) : Bool :=
  [0x0a, 0x0b, 0x0c, 0x0d, 0x1c, 0x1d, 0x1e, 0x85, 0x2028, 0x2029].contains c.toNat

/-- `len(content.splitlines())`. -/
def lineCount : List Char → Nat
  | [] => 0
  | '\r' :: '\n' :: rest => lineCount rest + 1
  | c :: rest =>
      if isLineBreak c then lineCount rest + 1
      else if rest.isEmpty then 1
      else lineCount rest

/-- `validate_advertising_memory`. -/
def validateAdvertisingMemory (content : String) : Bool :=
  !content.toList.contains (Char.ofNat 0) &&
    lineCount content.toList ≤ maxAdvertisingMemoryLines &&
    content.utf8ByteSize ≤ maxAdvertisingMemoryBytes

/-- What may be at the own path. -/
inductive OwnFile
  | text (content : String)
  | unreadable
deriving DecidableEq, Repr

/-- `_read_local_memory`. -/
def OwnFile.read : OwnFile → Option String
  | text content => if validateAdvertisingMemory content then some content else none
  | unreadable => none

/-! ## The recorded state -/

/-- A revision on Glass with the digest of its content. -/
structure Entry where
  revision : Nat
  sha256 : String
deriving DecidableEq, Repr

/-- A revision on Glass with its content. -/
structure Remote where
  revision : Nat
  content : String
deriving DecidableEq, Repr

inductive OwnStatus
  | synced
  | conflict
  | invalid
  | pending
deriving DecidableEq, Repr

/-- The record of the own document. -/
structure Own where
  base : Option Entry
  status : OwnStatus
  pendingSha256 : String
  conflictRevision : Option Nat
  conflictSha256 : String
deriving DecidableEq, Repr

/-- `team_context.json`: the own record, and the own entry of the cached manifest where a
context is cached. -/
structure Memory where
  own : Own
  context : Option (Option Entry)
deriving DecidableEq, Repr

/-- `_set_own_base`. -/
def setOwnBase (entry : Entry) : Own where
  base := some entry
  status := .synced
  pendingSha256 := ""
  conflictRevision := none
  conflictSha256 := ""

/-- `_mark_own_conflict`. -/
def markOwnConflict (own : Own) (pending : String) (actual : Option Nat) (remoteSha256 : String) :
    Own :=
  let newer : Bool :=
    match actual, own.conflictRevision with
    | some revision, some existing => existing ≤ revision
    | some _, none => true
    | none, _ => false
  let revision := if newer then actual else own.conflictRevision
  { own with
    status := .conflict
    pendingSha256 := pending
    conflictRevision := revision
    conflictSha256 :=
      if remoteSha256 ≠ "" ∧ actual ≠ none ∧ revision = actual then remoteSha256
      else own.conflictSha256 }

section Decisions

variable (digest : String → String)

def Remote.entry (remote : Remote) : Entry where
  revision := remote.revision
  sha256 := digest remote.content

/-- What a sync goes on to do about the file. -/
inductive Decision
  | settles (own : Own)
  | uploads (expected : Nat)
  | downloads
deriving DecidableEq, Repr

/-- Glass is not older than the conflict. -/
def remoteIsCurrentEnough (own : Own) (remote : Entry) : Bool :=
  match own.conflictRevision with
  | none => true
  | some revision => revision ≤ remote.revision

/-- `_sync_own`, from the file it has read and what it knows of Glass. -/
def syncOwn (own : Own) (content : String) (remote : Entry) : Decision :=
  let localDigest := digest content
  if own.status = .conflict then
    if localDigest = remote.sha256 ∧ remoteIsCurrentEnough own remote = true then
      .settles (setOwnBase remote)
    else .settles (markOwnConflict own localDigest (some remote.revision) remote.sha256)
  else
    match own.base with
    | none =>
        if localDigest = remote.sha256 then .settles (setOwnBase remote)
        else if remote.revision = 0 ∧ remote.sha256 = digest "" then .uploads remote.revision
        else .settles { own with status := .conflict, pendingSha256 := localDigest }
    | some base =>
        if localDigest = remote.sha256 then .settles (setOwnBase remote)
        else if localDigest = base.sha256 ∧ remote.sha256 ≠ base.sha256 then .downloads
        else if localDigest ≠ base.sha256 ∧ remote.sha256 = base.sha256 then
          .uploads remote.revision
        else if localDigest = base.sha256 then .settles (setOwnBase remote)
        else .settles { own with status := .conflict, pendingSha256 := localDigest }

/-! ## Syncs -/

/-- Where a sync stands. -/
inductive Stage
  | looking (entry : Option Entry)
  | absent (entry : Option Entry)
  | looked (content : String)
  | refetching (content : String) (entry : Entry)
  | writing (seen : Option String) (remote : Remote)
  | uploading (content : String) (expected : Nat) (overrides : Bool)
  | refused (content : String) (actual : Option Nat)
  | resolving (content : String)
  | unbased (content : String)
  | finished
deriving DecidableEq, Repr

/-- A sync that holds the lock: the state it will save, and the content of an explicit
edit. -/
structure Sync where
  memory : Memory
  edit : Option String
  stage : Stage
deriving DecidableEq, Repr

/-- Glass with the revisions of the own document, the local file, the saved state and the
sync in progress. -/
structure Team where
  glass : List String
  file : Option OwnFile
  saved : Memory
  sync : Option Sync
deriving DecidableEq, Repr

/-- What Glass answers to a request for the team context. -/
inductive ContextAnswer
  | notModified
  | listed
  | unlisted
deriving DecidableEq, Repr

/-- One step. -/
inductive TeamEvent
  | editFile (file : Option OwnFile)
  | editGlass (content : String)
  | tick
  | reconcile (answer : ContextAnswer)
  | update (content : String) (resolveConflict : Bool)
  | updateOffline (content : String)
  | look
  | fetch
  | put (answered reports keepsRevision : Bool)
  | write
  | fails
  | denied
  | save
  | dies
deriving DecidableEq, Repr

/-- The sync is done and will save this record. -/
def Sync.settles (sync : Sync) (own : Own) : Sync :=
  { sync with memory := { sync.memory with own := own }, stage := .finished }

def Sync.goes (sync : Sync) (stage : Stage) : Sync :=
  { sync with stage := stage }

/-- A sync that raised.  An explicit edit stays pending. -/
def Sync.raises (sync : Sync) : Sync :=
  match sync.edit with
  | none => sync.goes .finished
  | some content =>
      if sync.memory.own.status = .conflict then sync.goes .finished
      else
        sync.settles
          { sync.memory.own with status := .pending, pendingSha256 := digest content }

/-- Carry a decision out. -/
def Sync.decides (sync : Sync) (content : String) (decision : Decision) (download : Stage) : Sync :=
  match decision with
  | .settles own => sync.settles own
  | .uploads expected => sync.goes (.uploading content expected false)
  | .downloads => sync.goes download

namespace Team

/-- The revision that Glass is at. -/
def current (d : Team) : Option Remote :=
  d.glass.getLast?.map fun content => { revision := d.glass.length - 1, content := content }

def holds (d : Team) (sync : Sync) : Team :=
  { d with sync := some sync }

/-- The sync looks at the file. -/
def look (d : Team) (sync : Sync) : Option Team :=
  match sync.stage with
  | .looking entry =>
      match d.file with
      | none => some (d.holds (sync.goes (.absent entry)))
      | some file =>
          match file.read with
          | none =>
              some (d.holds (sync.settles
                { sync.memory.own with status := .invalid, pendingSha256 := "" }))
          | some content =>
              match entry with
              | none => some (d.holds (sync.goes (.looked content)))
              | some entry =>
                  some (d.holds (sync.decides content
                    (syncOwn digest sync.memory.own content entry) (.refetching content entry)))
  | _ => none

/-- What a sync makes of the document it has fetched. -/
def fetched (sync : Sync) (remote : Remote) : Option Sync :=
  let own := sync.memory.own
  match sync.stage with
  | .absent entry =>
      if entry.all fun known => known = remote.entry digest then
        some (sync.goes (.writing none remote))
      else some (sync.raises digest)
  | .looked content =>
      some (sync.decides content (syncOwn digest own content (remote.entry digest))
        (.writing (some content) remote))
  | .refetching content entry =>
      if entry = remote.entry digest then some (sync.goes (.writing (some content) remote))
      else some (sync.raises digest)
  | .refused content _ =>
      if digest remote.content = digest content ∧ remote.content = content then
        some (sync.settles (setOwnBase (remote.entry digest)))
      else
        some (sync.settles (markOwnConflict own (digest content) (some remote.revision)
          (digest remote.content)))
  | .resolving content =>
      if digest remote.content = digest content ∧ remote.content = content then
        some (sync.settles (setOwnBase (remote.entry digest)))
      else some (sync.goes (.uploading content remote.revision true))
  | .unbased content =>
      if digest remote.content = digest content then
        some (sync.settles (setOwnBase (remote.entry digest)))
      else if remote.revision = 0 ∧ digest remote.content = digest "" then
        some (sync.goes (.uploading content remote.revision false))
      else
        some (sync.settles (markOwnConflict own (digest content) (some remote.revision)
          (digest remote.content)))
  | _ => none

/-- A request of the sync failed.  After a conflict that is not the end. -/
def failed (sync : Sync) : Option Sync :=
  match sync.stage with
  | .refused content actual =>
      some (sync.settles (markOwnConflict sync.memory.own (digest content) actual ""))
  | .finished => none
  | _ => some (sync.raises digest)

/-- `_fetch_own_remote`: a document beyond the limits is refused. -/
def fetch (d : Team) (sync : Sync) : Option Team :=
  match d.current with
  | none => none
  | some remote =>
      if validateAdvertisingMemory remote.content then
        (fetched digest sync remote).map d.holds
      else (failed digest sync).map d.holds

/-- The document is put under compare-and-swap.  The answer may be lost, a conflict may
come without a revision, and the same content may keep its revision. -/
def put (d : Team) (sync : Sync) (answered reports keepsRevision : Bool) : Option Team :=
  match sync.stage, d.current with
  | .uploading content expected _, some remote =>
      if expected = remote.revision then
        let same := keepsRevision && content = remote.content
        let stored := if same then d else { d with glass := d.glass ++ [content] }
        let revision := if same then remote.revision else remote.revision + 1
        if answered then
          some (stored.holds (sync.settles
            (setOwnBase { revision := revision, sha256 := digest content })))
        else some (stored.holds (sync.raises digest))
      else if answered then
        some (d.holds (sync.goes
          (.refused content (if reports then some remote.revision else none))))
      else some (d.holds (sync.raises digest))
  | _, _ => none

/-- The file is replaced by the downloaded document. -/
def write (d : Team) (sync : Sync) : Option Team :=
  match sync.stage with
  | .writing _ remote =>
      some { d with
        file := some (.text remote.content)
        sync := some (sync.settles (setOwnBase (remote.entry digest))) }
  | _ => none

/-- The sync saves its state and releases the lock. -/
def save (d : Team) (sync : Sync) : Option Team :=
  match sync.stage with
  | .finished => some { d with saved := sync.memory, sync := none }
  | _ => none

/-- The authority refused the Silicon: what is known of the team is dropped. -/
def denied (d : Team) (sync : Sync) : Option Team :=
  match sync.stage with
  | .finished => none
  | _ =>
      some (d.holds
        ({ sync with memory := { sync.memory with context := none } }.goes .finished))

/-- A sync begins under the lock, from the saved state. -/
def begins (d : Team) (sync : Sync) : Option Team :=
  match d.sync with
  | none => some (d.holds sync)
  | some _ => none

/-- `team_context_tick` below the fallback interval: the cached manifest is used. -/
def tick (d : Team) : Option Team :=
  match d.saved.context with
  | none => none
  | some entry => d.begins { memory := d.saved, edit := none, stage := .looking entry }

/-- `_reconcile_locked`: the manifest is read anew, unless Glass says that it is current. -/
def reconcile (d : Team) (answer : ContextAnswer) : Option Team :=
  let reads (entry : Option Entry) : Option Team :=
    d.begins
      { memory := { d.saved with context := some entry }
        edit := none
        stage := .looking entry }
  match answer with
  | .notModified => d.tick
  | .listed => reads (d.current.map (Remote.entry digest))
  | .unlisted => reads none

/-- `_upload_explicit_own`, up to its first request. -/
def uploadExplicitOwn (own : Own) (content : String) (resolveConflict : Bool) : Stage ⊕ Own :=
  if own.status = .conflict ∧ resolveConflict = false then
    .inr (markOwnConflict own (digest content) own.conflictRevision own.conflictSha256)
  else if resolveConflict then .inl (.resolving content)
  else
    match own.base with
    | some base => .inl (.uploading content base.revision false)
    | none => .inl (.unbased content)

/-- `update_own_advertising_memory`: the file is written first. -/
def update (d : Team) (content : String) (resolveConflict : Bool) : Option Team :=
  if validateAdvertisingMemory content then
    let sync : Sync := { memory := d.saved, edit := some content, stage := .finished }
    { d with file := some (.text content) }.begins
      (match uploadExplicitOwn digest d.saved.own content resolveConflict with
      | .inl stage => sync.goes stage
      | .inr own => sync.settles own)
  else none

/-- The same while Glass cannot be reached. -/
def updateOffline (d : Team) (content : String) : Option Team :=
  if validateAdvertisingMemory content then
    let sync : Sync := { memory := d.saved, edit := some content, stage := .finished }
    { d with file := some (.text content) }.begins
      (sync.settles
        { d.saved.own with status := .pending, pendingSha256 := digest content })
  else none

/-- One step; `none` where it cannot happen. -/
def next (d : Team) : TeamEvent → Option Team
  | .editFile file => some { d with file := file }
  | .editGlass content => some { d with glass := d.glass ++ [content] }
  | .tick => d.tick
  | .reconcile answer => d.reconcile digest answer
  | .update content resolveConflict => d.update digest content resolveConflict
  | .updateOffline content => d.updateOffline digest content
  | .look => d.sync.bind (d.look digest)
  | .fetch => d.sync.bind (d.fetch digest)
  | .put answered reports keepsRevision =>
      d.sync.bind fun sync => d.put digest sync answered reports keepsRevision
  | .write => d.sync.bind (d.write digest)
  | .fails => d.sync.bind fun sync => (failed digest sync).map d.holds
  | .denied => d.sync.bind d.denied
  | .save => d.sync.bind d.save
  | .dies => some { d with sync := none }

end Team

end Decisions

end TeamContext
end Stemcell
