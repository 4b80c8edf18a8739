import Stemcell.Backup.Manifest

/-!
# References to snapshots

Besides the newest snapshots, those are kept that an update or a restore may still need.
They are named in the journals of the update transactions, in the journal of the restore in
place and in the note of the last one.

Main results:

- Definition `discoverProtectedSnapshotRoots`: the root hashes that the journals name.
- Theorem `restoreJournal_discovered`: a restore journal's snapshot is among them.

Current gaps:

- A journal that is missing, unreadable, redirected or too large is only told from one that
  can be read.
-/

namespace Stemcell
namespace Backup

open Interface (Json)
open Lib

/-- The journals of an instance; `none` inside stands for one that cannot be read. -/
structure Journals where
  transactions : List (String × Option Json)
  restoreJournal : Option (Option Json)
  lastRestored : Option (Option Json)

/-- `_UPDATE_STATES`. -/
def updateStates : List String :=
  ["CREATED", "RESOLVED", "STAGED", "PLANNED", "DEPENDENCIES_READY", "DRAIN_REQUESTED",
    "QUIESCENT", "CHECKPOINTED", "STOPPING", "STOPPED", "ACTIVATED", "STARTED", "VALIDATED",
    "COMMITTED", "CANCELLED", "ROLLED_BACK", "FAILED"]

/-- `_UPDATE_TRANSACTION_ID_RE`. -/
def isTransactionId (text : String) : Bool :=
  match text.toList with
  | [] => false
  | c :: rest =>
      c.isAlphanum && rest.length ≤ 127 &&
        rest.all fun c => c.isAlphanum || c = '.' || c = '_' || c = '-'

/-- The text of a text. -/
def textOf : Json → Option String
  | .str text => some text
  | _ => none

/-- `key in value`. -/
def hasKey (value : Json) (key : String) : Bool :=
  match value with
  | .obj fields => fields.any fun field => field.1 = key
  | _ => false

/-- `value in states`. -/
def isOneOf (states : List String) (value : Json) : Bool :=
  match textOf value with
  | some text => text ∈ states
  | none => false

section Discovery

variable (platform : Platform)

/-- `str(value or "")`. -/
def textOrEmpty (value : Json) : String :=
  if value.truthy then platform.py.text value else ""

/-- `_add_checkpoint_root`, for a value that is required. -/
def checkpointRoot (label : String) (value : Json) : Except String String :=
  if !value.isObj then .error (label ++ " must be a JSON object.")
  else if !isDigest (textOrEmpty platform (value.get "root_hash")) then
    .error (label ++ " has an invalid snapshot root hash.")
  else .ok (textOrEmpty platform (value.get "root_hash"))

/-- The events of a transaction. -/
def validEvents (state : Json) (events : List Json) : Bool :=
  events.all (fun event => hasKeys ["state", "at", "detail"] event &&
      isOneOf updateStates (event.get "state") && (textOf (event.get "detail")).isSome) &&
    (events.head?.bind fun event => textOf (event.get "state")) = some "CREATED" &&
      (events.getLast?.bind fun event => textOf (event.get "state")) = textOf state

/-- `_snapshot_roots_from_update_journal`. -/
def snapshotRootsFromUpdateJournal (name : String) :
    Option Json → Except String (List String)
  | none => .error ("Could not read update transaction journal " ++ name)
  | some value =>
      if !hasKeys ["schema", "transaction_id", "state", "created_at", "updated_at", "metadata",
            "events"] value || !isSchema (value.get "schema") ||
          textOf (value.get "transaction_id") ≠ some name || !isTransactionId name ||
            !isOneOf updateStates (value.get "state") || !(value.get "metadata").isObj ||
              (value.get "events").items.isEmpty then
        .error ("Update transaction journal " ++ name ++ " has invalid fields.")
      else if !validEvents (value.get "state") (value.get "events").items then
        .error ("Update transaction journal " ++ name ++ " has an invalid event history.")
      else do
        let metadata := value.get "metadata"
        let recovery ←
          if hasKey metadata "recovery_checkpoint" then
            (checkpointRoot platform (name ++ " recovery checkpoint")
              (metadata.get "recovery_checkpoint")).map fun root => [root]
          else .ok []
        let marker ←
          if hasKey metadata "checkpoint_recovery" then
            (checkpointRoot platform (name ++ " checkpoint recovery marker")
              (metadata.get "checkpoint_recovery")).map fun root => [root]
          else .ok []
        if hasKey metadata "candidate_era_preservation" then
          let candidate := metadata.get "candidate_era_preservation"
          if !candidate.isObj then
            .error (name ++ " candidate-era preservation must be an object.")
          else if !isOneOf ["capturing", "failed", "verified", "not_available"]
              (candidate.get "state") then
            .error (name ++ " candidate-era preservation has an invalid state.")
          else if hasKey candidate "checkpoint" || textOf (candidate.get "state") = some "verified"
          then
            let checkpoint ← checkpointRoot platform (name ++ " candidate-era checkpoint")
              (candidate.get "checkpoint")
            return recovery ++ marker ++ [checkpoint]
          else return recovery ++ marker
        else return recovery ++ marker

/-- The journals of the update transactions. -/
def transactionRoots : List (String × Option Json) → Except String (List String)
  | [] => .ok []
  | journal :: rest => do
      let roots ← snapshotRootsFromUpdateJournal platform journal.1 journal.2
      let others ← transactionRoots rest
      return roots ++ others

/-- The snapshot of the journal of the restore in place. -/
def restoreJournalRoots : Option (Option Json) → Except String (List String)
  | none => .ok []
  | some none => .error "Could not read in-place restore journal"
  | some (some value) =>
      if !isSchema (value.get "schema") then
        .error "in-place restore journal has an unsupported schema."
      else if !isOneOf ["APPLYING", "COMMITTED"] (value.get "state") then
        .error "in-place restore journal has an invalid state."
      else if textOf (value.get "state") = some "COMMITTED" &&
          textOf (value.get "verified_root_hash") ≠
            some (textOrEmpty platform (value.get "root_hash")) then
        .error "committed in-place restore journal is not verified."
      else (checkpointRoot platform "in-place restore journal" value).map fun root => [root]

/-- The snapshot of the note of the last restore. -/
def lastRestoredRoots : Option (Option Json) → Except String (List String)
  | none => .ok []
  | some none => .error "Could not read last restored snapshot reference"
  | some (some value) =>
      if !isSchema (value.get "schema") then
        .error "last restored snapshot reference has an unsupported schema."
      else if textOf (value.get "verified_root_hash") ≠
          some (textOrEmpty platform (value.get "root_hash")) then
        .error "last restored snapshot reference is not verified."
      else
        (checkpointRoot platform "last restored snapshot reference" value).map fun root => [root]

/-- `discover_protected_snapshot_roots`. -/
def discoverProtectedSnapshotRoots (journals : Journals) : Except String (List String) := do
  let updates ← transactionRoots platform journals.transactions
  let restoring ← restoreJournalRoots platform journals.restoreJournal
  let restored ← lastRestoredRoots platform journals.lastRestored
  return sortedSet (updates ++ restoring ++ restored)

end Discovery

variable {platform : Platform} {journals : Journals} {roots : List String} {value : Json}

/-- The snapshot that a restore in place was working on, or has restored last, is
discovered. -/
theorem restoreJournal_discovered
    (h : discoverProtectedSnapshotRoots platform journals = .ok roots)
    (hjournal : journals.restoreJournal = some (some value) ∨
      journals.lastRestored = some (some value)) :
    textOrEmpty platform (value.get "root_hash") ∈ roots := by
  have hroot : ∀ label found, checkpointRoot platform label value = .ok found →
      found = textOrEmpty platform (value.get "root_hash") := by
    intro label found hfound
    unfold checkpointRoot at hfound
    split at hfound
    · cases hfound
    split at hfound
    · cases hfound
    · exact (Except.ok.inj hfound).symm
  unfold discoverProtectedSnapshotRoots at h
  simp only [bind, Except.bind] at h
  split at h
  · cases h
  rename_i updates _
  split at h
  · cases h
  rename_i restoring hrestoring
  split at h
  · cases h
  rename_i restored hrestored
  cases h
  rw [mem_sortedSet, List.mem_append, List.mem_append]
  rcases hjournal with hjournal | hjournal
  · left
    right
    rw [hjournal] at hrestoring
    unfold restoreJournalRoots at hrestoring
    simp only at hrestoring
    split at hrestoring
    · cases hrestoring
    split at hrestoring
    · cases hrestoring
    split at hrestoring
    · cases hrestoring
    cases hcheckpoint : checkpointRoot platform "in-place restore journal" value with
    | error error =>
        rw [hcheckpoint] at hrestoring
        cases hrestoring
    | ok found =>
        rw [hcheckpoint] at hrestoring
        cases hrestoring
        rw [hroot _ _ hcheckpoint]
        exact List.mem_singleton_self _
  · right
    rw [hjournal] at hrestored
    unfold lastRestoredRoots at hrestored
    simp only at hrestored
    split at hrestored
    · cases hrestored
    split at hrestored
    · cases hrestored
    cases hcheckpoint : checkpointRoot platform "last restored snapshot reference" value with
    | error error =>
        rw [hcheckpoint] at hrestored
        cases hrestored
    | ok found =>
        rw [hcheckpoint] at hrestored
        cases hrestored
        rw [hroot _ _ hcheckpoint]
        exact List.mem_singleton_self _

end Backup
end Stemcell
