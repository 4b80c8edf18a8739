import Stemcell.Lib.Actions

/-!
# Documents that are read, changed and replaced

Every queue of the program is a JSON document.  Under a lock it is read, changed and written to a
temporary file that then takes its place.  Any step may fail with an error, and the change may raise.
A document that cannot be read counts as missing, and the default takes its place.

Main results:

- Definition `Call.run`: what the calls do, with one step that fails.
- Theorem `document_writeJson`: the document after a write.
- Theorem `document_law_iff`: exactly when the document after a call is the one before it, or what
  the change makes of that one.

Current gaps:

- Permissions, and the text of what is raised.
-/

namespace Stemcell
namespace Storage

open Lib (Action)

/-! ## Steps -/

/-- The document and the temporary file. -/
structure Disk where
  document : Option (List Char)
  temporary : Option (List Char)
deriving DecidableEq

/-- The steps that can fail.  A write fails behind some characters. -/
inductive IoStep
  | lock
  | stat
  | read
  | makeDirs
  | openTemporary
  | write (written : ℕ)
  | flush
  | sync
  | chmod
  | replace
  | unlink
  | unlock
deriving DecidableEq

/-- `json.dump` and `json.loads` on documents.  A document may have no JSON.  Newer versions of
`Path.exists` answer that a file is missing when they cannot tell. -/
structure StoreEnv (α : Type) where
  dump : α → Option (List Char)
  loads : List Char → Option α
  hidesStat : Bool

section Steps

variable {α : Type} (env : StoreEnv α) (fault : Option IoStep)

/-- A step that fails, or changes the disk. -/
def io (step : IoStep) (change : Disk → Disk) : Action Disk Unit :=
  if fault = some step then Action.fail "OSError" else Action.effect change

/-- What is computed may raise. -/
def orRaise {β : Type} (value : Option β) : Action Disk β :=
  Action.look fun _ =>
    match value with
    | some value => .ok value
    | none => .error "raised"

/-- `with file_lock(path)`. -/
def withLock {β : Type} (act : Action Disk β) : Action Disk β :=
  io fault .lock id >>= fun _ => act.withCleanup (io fault .unlock id)

/-- `_read_json_unlocked`. -/
def readJsonUnlocked (default : α) : Action Disk α :=
  Action.look fun disk =>
    if fault = some .stat then
      if env.hidesStat then .ok default else .error "OSError"
    else
      match disk.document with
      | none => .ok default
      | some text => if fault = some .read then .ok default else .ok ((env.loads text).getD default)

/-- Writing to the temporary file; an error leaves what has been written. -/
def writeText (text : List Char) : Action Disk Unit :=
  fun disk =>
    match fault with
    | some (.write written) =>
        let disk := { disk with temporary := some (text.take written) }
        ⟨[disk], disk, .error "OSError"⟩
    | _ =>
        let disk := { disk with temporary := some text }
        ⟨[disk], disk, .ok ()⟩

/-- The temporary file, up to where it takes the place of the document.  That its permissions cannot
be set is passed over. -/
def writeTemporary (data : α) : Action Disk Unit := do
  io fault .openTemporary fun disk => { disk with temporary := some [] }
  let text ← orRaise (env.dump data)
  writeText fault text
  io fault .flush id
  io fault .sync id
  io fault .replace fun disk => { document := disk.temporary, temporary := none }

/-- The temporary file goes; an error is passed over. -/
def unlinkTemporary : Action Disk Unit :=
  if fault = some .unlink then Action.done ()
  else Action.effect fun disk => { disk with temporary := none }

/-- `_write_json_unlocked`. -/
def writeJsonUnlocked (data : α) : Action Disk Unit :=
  io fault .makeDirs id >>= fun _ =>
    (writeTemporary env fault data).withCleanup (unlinkTemporary fault)

end Steps

/-! ## Calls -/

/-- What a change makes of a document: it raises, leaves it, or has another one stored. -/
inductive Plan (α : Type)
  | raises
  | keep
  | put (data : α)

/-- The functions that write documents.  A transaction normalizes and prunes what it reads, changes
it, and stamps what it stores. -/
inductive Call (α : Type)
  | writeJson (data : α)
  | updateJson (default : α) (update : α → Option α)
  | updateJsonIfChanged (default : α) (update : α → Option α)
  | transaction (default : α) (normalize prune : α → α) (mutate : α → Option α) (stamp : α → α)

section Calls

variable {α : Type} [DecidableEq α] (env : StoreEnv α) (fault : Option IoStep)

/-- What a call makes of a document that it has read. -/
def Call.plan : Call α → α → Plan α
  | .writeJson data, _ => .put data
  | .updateJson _ update, current =>
      match update current with
      | none => .raises
      | some next => .put next
  | .updateJsonIfChanged _ update, current =>
      match update current with
      | none => .raises
      | some next => if next ≠ current then .put next else .keep
  | .transaction _ normalize prune mutate stamp, current =>
      match mutate (prune (normalize current)) with
      | none => .raises
      | some next => if next ≠ current then .put (stamp next) else .keep

/-- The default of a call that reads. -/
def Call.default? : Call α → Option α
  | .writeJson _ => none
  | .updateJson default _ => some default
  | .updateJsonIfChanged default _ => some default
  | .transaction default _ _ _ _ => some default

/-- Carrying out a plan. -/
def carryOut : Plan α → Action Disk Unit
  | .raises => Action.fail "raised"
  | .keep => Action.done ()
  | .put data => writeJsonUnlocked env fault data

/-- A call, under its lock. -/
def Call.run (call : Call α) : Action Disk Unit :=
  withLock fault
    (match call with
    | .writeJson data => writeJsonUnlocked env fault data
    | .updateJson default _ | .updateJsonIfChanged default _ | .transaction default _ _ _ _ =>
        readJsonUnlocked env fault default >>= fun current => carryOut env fault (call.plan current))

end Calls

/-! ## The document after a call -/

section Document

variable {α : Type} {env : StoreEnv α} {fault : Option IoStep}

/-- No step fails on the way to the replacement. -/
def reachesReplace : Option IoStep → Bool
  | some .makeDirs | some .openTemporary | some (.write _) | some .flush | some .sync
  | some .replace => false
  | _ => true

/-- The document after a write that begins with this one. -/
def documentAfter (env : StoreEnv α) (fault : Option IoStep) (plan : Plan α)
    (document : Option (List Char)) : Option (List Char) :=
  match plan with
  | .put data =>
      match env.dump data with
      | some text => if reachesReplace fault then some text else document
      | none => document
  | _ => document

/-- The document after a write. -/
theorem document_writeJson (data : α) (disk : Disk) :
    ((writeJsonUnlocked env fault data) disk).final.document =
      documentAfter env fault (.put data) disk.document := by
  cases hdump : env.dump data with
  | none =>
      rcases fault with _ | step
      · simp [writeJsonUnlocked, writeTemporary, unlinkTemporary, documentAfter, io, orRaise, hdump,
          bind, Action.andThen, Action.withCleanup, Action.effect, Action.look]
      · cases step <;>
          simp [writeJsonUnlocked, writeTemporary, unlinkTemporary, documentAfter, io, orRaise,
            hdump, bind, Action.andThen, Action.withCleanup, Action.effect, Action.look,
            Action.fail, Action.done]
  | some text =>
      rcases fault with _ | step
      · simp [writeJsonUnlocked, writeTemporary, unlinkTemporary, documentAfter, io, orRaise, hdump,
          writeText, reachesReplace, bind, Action.andThen, Action.withCleanup, Action.effect,
          Action.look]
      · cases step <;>
          simp [writeJsonUnlocked, writeTemporary, unlinkTemporary, documentAfter, io, orRaise,
            hdump, writeText, reachesReplace, bind, Action.andThen, Action.withCleanup,
            Action.effect, Action.look, Action.fail, Action.done]

theorem document_carryOut (plan : Plan α) (disk : Disk) :
    ((carryOut env fault plan) disk).final.document =
      documentAfter env fault plan disk.document := by
  cases plan with
  | raises => rfl
  | keep => rfl
  | put data => exact document_writeJson data disk

/-- The lock is no part of the document. -/
theorem document_withLock {β : Type} (act : Action Disk β) (disk : Disk) :
    ((withLock fault act) disk).final.document =
      if fault = some .lock then disk.document else (act disk).final.document := by
  by_cases hlock : fault = some .lock
  · simp [withLock, io, hlock, bind, Action.andThen, Action.fail]
  · by_cases hunlock : fault = some .unlock
    · simp [withLock, io, hunlock, bind, Action.andThen, Action.withCleanup, Action.effect,
        Action.fail]
    · simp [withLock, io, hlock, hunlock, bind, Action.andThen, Action.withCleanup, Action.effect]

/-- An error hides the document that is there. -/
def HidesRead (env : StoreEnv α) (fault : Option IoStep) : Prop :=
  fault = some .read ∨ (fault = some .stat ∧ env.hidesStat = true)

/-- The document is the text of what is stored by plan. -/
def IsResult (env : StoreEnv α) (plan : Plan α) (document : Option (List Char)) : Prop :=
  ∃ data text, plan = .put data ∧ env.dump data = some text ∧ document = some text

theorem documentAfter_cases (env : StoreEnv α) (fault : Option IoStep) (plan : Plan α) (document : Option (List Char)) :
    documentAfter env fault plan document = document ∨
      IsResult env plan (documentAfter env fault plan document) := by
  cases plan with
  | raises => exact .inl rfl
  | keep => exact .inl rfl
  | put data =>
      cases hdump : env.dump data with
      | none =>
          left
          simp [documentAfter, hdump]
      | some text =>
          by_cases hreaches : reachesReplace fault = true
          · right
            refine ⟨data, text, rfl, hdump, ?_⟩
            simp [documentAfter, hdump, hreaches]
          · left
            simp [documentAfter, hdump, hreaches]

/-- A read that is not hidden finds the document. -/
theorem readJson_of_stored {disk : Disk} {text : List Char} {current : α} (default : α)
    (hstored : disk.document = some text) (hloads : env.loads text = some current)
    (hread : ¬ HidesRead env fault) :
    (∃ error, (readJsonUnlocked env fault default) disk = ⟨[], disk, .error error⟩) ∨
      (readJsonUnlocked env fault default) disk = ⟨[], disk, .ok current⟩ := by
  unfold HidesRead at hread
  rw [not_or] at hread
  by_cases hstat : fault = some .stat
  · have hshows : env.hidesStat = false := by
      by_contra hhides
      exact hread.2 ⟨hstat, by simpa using hhides⟩
    left
    refine ⟨"OSError", ?_⟩
    simp [readJsonUnlocked, Action.look, hstat, hshows]
  · right
    simp [readJsonUnlocked, Action.look, hstat, hstored, hread.1, hloads]

/-- A hidden read finds the default. -/
theorem readJson_of_hidden {disk : Disk} {text : List Char} (default : α)
    (hstored : disk.document = some text) (hread : HidesRead env fault) :
    (readJsonUnlocked env fault default) disk = ⟨[], disk, .ok default⟩ := by
  rcases hread with hread | ⟨hstat, hhides⟩
  · simp [readJsonUnlocked, Action.look, hread, hstored]
  · simp [readJsonUnlocked, Action.look, hstat, hhides]

/-- After a hidden read nothing else fails. -/
theorem reaches_of_hidden (hread : HidesRead env fault) :
    reachesReplace fault = true ∧ fault ≠ some .lock := by
  rcases hread with hread | ⟨hstat, _⟩
  · simp [hread, reachesReplace]
  · simp [hstat, reachesReplace]

theorem document_read_then {read : Action Disk α} {next : α → Action Disk Unit} {disk : Disk}
    {value : α} (h : read disk = ⟨[], disk, .ok value⟩) :
    ((read >>= next) disk).final = ((next value) disk).final := by
  have hresult : (read disk).result = .ok value := by rw [h]
  rw [Action.bind_final hresult, h]

end Document

/-! ## The law -/

section Law

variable {α : Type} [DecidableEq α] {env : StoreEnv α} {fault : Option IoStep}

/-- The document after the call is the one before it, or what the change makes of that one. -/
def Survives (env : StoreEnv α) (fault : Option IoStep) (call : Call α) (disk : Disk) (current : α) :
    Prop :=
  ((call.run env fault) disk).final.document = disk.document ∨
    IsResult env (call.plan current) ((call.run env fault) disk).final.document

/-- What the call makes of its default is nothing that is stored, or the text that is there, or what
it makes of the document. -/
def DefaultIsHarmless (env : StoreEnv α) (call : Call α) (text : List Char) (current : α) : Prop :=
  ∀ default data other, call.default? = some default → call.plan default = .put data →
    env.dump data = some other →
      other = text ∨ IsResult env (call.plan current) (some other)

/-- The document after a call that reads. -/
theorem document_run {call : Call α} {default : α} (hdefault : call.default? = some default)
    (disk : Disk) :
    ((call.run env fault) disk).final.document =
      if fault = some .lock then disk.document
      else
        ((readJsonUnlocked env fault default >>= fun current =>
          carryOut env fault (call.plan current)) disk).final.document := by
  cases call with
  | writeJson data => cases hdefault
  | updateJson d update =>
      cases hdefault
      exact document_withLock _ disk
  | updateJsonIfChanged d update =>
      cases hdefault
      exact document_withLock _ disk
  | transaction d normalize prune mutate stamp =>
      cases hdefault
      exact document_withLock _ disk

/-- The document after a call whose read is hidden. -/
theorem document_of_hidden {call : Call α} {default : α} {disk : Disk} {text : List Char}
    (hdefault : call.default? = some default) (hstored : disk.document = some text)
    (hread : HidesRead env fault) :
    ((call.run env fault) disk).final.document =
      documentAfter env fault (call.plan default) (some text) := by
  rw [document_run hdefault, if_neg (reaches_of_hidden hread).2,
    document_read_then (readJson_of_hidden default hstored hread), document_carryOut, hstored]

/-- A call that does not read keeps the document, or stores what it is given. -/
theorem survives_of_no_read {call : Call α} (hdefault : call.default? = none) (disk : Disk)
    (current : α) : Survives env fault call disk current := by
  cases call with
  | writeJson data =>
      have hdocument : (((Call.writeJson data).run env fault) disk).final.document =
          if fault = some .lock then disk.document
          else ((writeJsonUnlocked env fault data) disk).final.document :=
        document_withLock _ disk
      unfold Survives
      rw [hdocument, document_writeJson]
      by_cases hlock : fault = some .lock
      · rw [if_pos hlock]
        exact .inl rfl
      · rw [if_neg hlock]
        exact documentAfter_cases env fault (.put data) disk.document
  | updateJson d update => cases hdefault
  | updateJsonIfChanged d update => cases hdefault
  | transaction d normalize prune mutate stamp => cases hdefault

/-- A call whose read is not hidden keeps the document, or stores what it makes of it. -/
theorem survives_of_not_hidden {call : Call α} {disk : Disk} {text : List Char} {current : α}
    (hstored : disk.document = some text) (hloads : env.loads text = some current)
    (hread : ¬ HidesRead env fault) : Survives env fault call disk current := by
  cases hdefault : call.default? with
  | none => exact survives_of_no_read hdefault disk current
  | some default =>
      unfold Survives
      rw [document_run hdefault]
      by_cases hlock : fault = some .lock
      · rw [if_pos hlock]
        exact .inl rfl
      · rw [if_neg hlock]
        rcases readJson_of_stored default hstored hloads hread with ⟨error, herror⟩ | hok
        · left
          change (Action.andThen (readJsonUnlocked env fault default) _ disk).final.document =
            disk.document
          unfold Action.andThen
          rw [herror]
        · rw [document_read_then hok, document_carryOut]
          exact documentAfter_cases env fault (call.plan current) disk.document

/-- After every call, with any step that fails and any change, the document is the one before it or
what the change makes of that one, exactly if no error hides the document while it is read, or what
the call makes of its default does no harm. -/
theorem document_law_iff (env : StoreEnv α) (fault : Option IoStep) (call : Call α) {disk : Disk}
    {text : List Char} {current : α} (hstored : disk.document = some text)
    (hloads : env.loads text = some current) :
    Survives env fault call disk current ↔
      ¬ HidesRead env fault ∨ DefaultIsHarmless env call text current := by
  by_cases hread : HidesRead env fault
  · simp only [hread, not_true_eq_false, false_or]
    unfold Survives DefaultIsHarmless
    rw [hstored]
    constructor
    · intro hsurvives default data other hdefault hplan hdump
      rw [document_of_hidden hdefault hstored hread, hplan] at hsurvives
      have hafter : documentAfter env fault (.put data) (some text) = some other := by
        simp [documentAfter, hdump, (reaches_of_hidden hread).1]
      rw [hafter] at hsurvives
      rcases hsurvives with hsame | hresult
      · exact .inl (Option.some.inj hsame)
      · exact .inr hresult
    · intro hharmless
      cases hdefault : call.default? with
      | none =>
          have hsurvives : Survives env fault call disk current :=
            survives_of_no_read hdefault disk current
          unfold Survives at hsurvives
          rw [hstored] at hsurvives
          exact hsurvives
      | some default =>
          rw [document_of_hidden hdefault hstored hread]
          rcases documentAfter_cases env fault (call.plan default) (some text) with
            hsame | ⟨data, other, hplan, hdump, hother⟩
          · exact .inl hsame
          · rw [hother]
            rcases hharmless default data other hdefault hplan hdump with rfl | hresult
            · exact .inl rfl
            · exact .inr hresult
  · simp only [hread, not_false_eq_true, true_or, iff_true]
    exact survives_of_not_hidden hstored hloads hread

/-! ### A queue that cannot be read once -/

/-- How `json.dump` prints a list of names. -/
def namesText (names : List String) : List Char :=
  if names = [] then "[]".toList
  else
    "[\n  ".toList ++ [',', '\n', ' ', ' '].intercalate (names.map fun name =>
      '"' :: (name.toList ++ ['"'])) ++ "\n]".toList

def namesEnv : StoreEnv (List String) where
  dump names := some (namesText names)
  loads text := if text = namesText ["a"] then some ["a"] else none
  hidesStat := false

/-- Another name at the end of a queue. -/
def addName : Call (List String) :=
  .updateJson [] fun names => some (names ++ ["b"])

/-- A queue with one name. -/
def namesDisk : Disk :=
  ⟨some (namesText ["a"]), none⟩

theorem document_law_names :
    Survives namesEnv (some (.write 3)) addName namesDisk ["a"] ↔
      ¬ HidesRead namesEnv (some (.write 3)) ∨
        DefaultIsHarmless namesEnv addName (namesText ["a"]) ["a"] :=
  document_law_iff namesEnv (some (.write 3)) addName rfl (by decide +kernel)

/-- The name that was there is lost. -/
theorem queue_lost : ¬ Survives namesEnv (some .read) addName namesDisk ["a"] := by
  have hdocument : ((addName.run namesEnv (some .read)) namesDisk).final.document =
      some (namesText ["b"]) := by
    decide +kernel
  rintro (hsame | ⟨data, text, hplan, hdump, htext⟩)
  · rw [hdocument] at hsame
    revert hsame
    decide +kernel
  · cases hplan
    cases hdump
    rw [hdocument] at htext
    revert htext
    decide +kernel

end Law

end Storage
end Stemcell
