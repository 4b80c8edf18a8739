import Stemcell.Backup.Operations

/-!
# Resuming a restore

A restore in place that was cut off is begun anew, and goes on from where its journal says.

Main results:

- Theorem `leaves_applySnapshot`: the journal and the files that a crash leaves.
- Theorem `resume_law`: when a restore that was cut off comes to its end.
- Theorem `partial_temporary`: a part of a file that a crash has left is refused.

Current gaps:

- A restore that is cut off once is begun anew once.
-/

namespace Stemcell
namespace Backup

open Interface (Json)
open Lib Action

variable {restore : Restore} {manifest : Manifest} {floorPlan floorPlan' : Option ReleaseFloorPlan}
  {plan : RestorePlan} {root last crash : Root} {disk start : Disk} {count index next : Nat}
  {created value : Json} {operations : List Operation} {entry : FileEntry} {path : String}

/-! ## The journal -/

/-- The journal says so. -/
def Noted (root : Root) (value : Json) : Prop :=
  root.restoreJournal = some (some value)

/-- No more temporary files than before, or one more that the journal was written to. -/
def AtMostOneMore (before after : List (List UInt8)) : Prop :=
  after = before ∨ ∃ text, after = text :: before

theorem ends_atomicWrite {install : Root → Root} :
    Ends (atomicWrite restore value install) root () (install root) := by
  unfold atomicWrite
  refine ends_bind.mpr ⟨(), _, ends_effect.mpr rfl, ?_⟩
  exact ends_bind.mpr ⟨(), _, ends_effect.mpr rfl, ends_effect.mpr rfl⟩

theorem leaves_atomicWrite {install : Root → Root}
    (h : Leaves (atomicWrite restore value install) root crash) :
    (∃ leftovers, AtMostOneMore root.leftovers leftovers ∧
      crash = { root with leftovers := leftovers }) ∨ crash = install root := by
  rcases h with rfl | hmem | rfl
  · exact .inl ⟨crash.leftovers, .inl rfl, rfl⟩
  · have hstates : (atomicWrite restore value install root).states =
        [{ root with leftovers := [] :: root.leftovers },
          { root with leftovers :=
              (restore.platform.canonicalJson value ++ [10]) :: root.leftovers },
          install root] := rfl
    rw [hstates] at hmem
    simp only [List.mem_cons, List.not_mem_nil, or_false] at hmem
    rcases hmem with rfl | rfl | rfl
    · exact .inl ⟨_, .inr ⟨_, rfl⟩, rfl⟩
    · exact .inl ⟨_, .inr ⟨_, rfl⟩, rfl⟩
    · exact .inr rfl
  · exact .inr rfl

/-- The root after some operations. -/
def Root.after (root : Root) (disk : Disk) (journal : Json) : Root :=
  { root with disk := disk, restoreJournal := some (some journal) }

/-- The loop does the operations. -/
theorem ends_applyOperations
    (hnoted : Noted root (applyingJournal restore plan count created index)) :
    Ends (applyOperations restore floorPlan plan count created index operations) root () last ↔
      ∃ disk, Ends (forEach (runOperation restore floorPlan plan.rootHash) operations) root.disk ()
        disk ∧ last = root.after disk
          (applyingJournal restore plan count created (index + operations.length)) := by
  induction operations generalizing root index with
  | nil =>
      have hsame : root.after root.disk (applyingJournal restore plan count created index) =
          root := by
        unfold Noted at hnoted
        unfold Root.after
        rw [← hnoted]
      constructor
      · intro h
        rw [← (ends_done.mp h).2]
        exact ⟨root.disk, ends_forEach_nil.mpr rfl, hsame.symm⟩
      · rintro ⟨disk, hnil, rfl⟩
        cases ends_forEach_nil.mp hnil
        exact ends_done.mpr ⟨rfl, hsame.symm⟩
  | cons operation rest ih =>
      have hround : ∀ disk, Noted (root.after disk
          (applyingJournal restore plan count created (index + 1)))
          (applyingJournal restore plan count created (index + 1)) := fun _ => rfl
      have hlength : index + (operation :: rest).length = index + 1 + rest.length := by
        rw [List.length_cons]
        omega
      rw [hlength]
      constructor
      · intro h
        rcases ends_bind.mp h with ⟨_, _, hoperation, hrest⟩
        rcases ends_onPart.mp hoperation with ⟨disk, hdisk, rfl⟩
        rcases ends_bind.mp hrest with ⟨_, _, hwrite, hlater⟩
        cases (hwrite.unique ends_atomicWrite).2
        rcases (ih (hround disk)).mp hlater with ⟨disk', hdisk', rfl⟩
        exact ⟨disk', ends_forEach_cons.mpr ⟨disk, hdisk, hdisk'⟩, rfl⟩
      · rintro ⟨disk', hall, rfl⟩
        rcases ends_forEach_cons.mp hall with ⟨disk, hdisk, hdisk'⟩
        refine ends_bind.mpr ⟨(), { root with disk := disk }, ends_onPart.mpr ⟨disk, hdisk, rfl⟩, ?_⟩
        refine ends_bind.mpr ⟨(), _, ends_atomicWrite, ?_⟩
        exact (ih (hround disk)).mpr ⟨disk', hdisk', rfl⟩

/-- What a crash in the loop leaves: the journal has the number of the operation. -/
theorem leaves_applyOperations
    (hnoted : Noted root (applyingJournal restore plan count created index))
    (hends : Ends (forEach (runOperation restore floorPlan plan.rootHash) operations) root.disk ()
      disk)
    (h : Leaves (applyOperations restore floorPlan plan count created index operations) root
      crash) :
    ∃ done ≤ operations.length,
      Noted crash (applyingJournal restore plan count created (index + done)) ∧
        AtMostOneMore root.leftovers crash.leftovers ∧
          Stopped (runOperation restore floorPlan plan.rootHash) operations root.disk done
            crash.disk := by
  induction operations generalizing root crash index with
  | nil =>
      cases leaves_done h
      exact ⟨0, Nat.le_refl _, hnoted, .inl rfl, stopped_nil⟩
  | cons operation rest ih =>
      rcases ends_forEach_cons.mp hends with ⟨disk', hround, hrest⟩
      have hoperation : Ends (onDisk (runOperation restore floorPlan plan.rootHash operation)) root
          () { root with disk := disk' } := ends_onPart.mpr ⟨disk', hround, rfl⟩
      have hlater : ∀ crash, Leaves (applyOperations restore floorPlan plan count created
            (index + 1) rest)
          (root.after disk' (applyingJournal restore plan count created (index + 1))) crash →
          ∃ done ≤ (operation :: rest).length,
            Noted crash (applyingJournal restore plan count created (index + done)) ∧
              AtMostOneMore root.leftovers crash.leftovers ∧
                Stopped (runOperation restore floorPlan plan.rootHash) (operation :: rest)
                  root.disk done crash.disk := by
        intro crash hcrash
        rcases @ih (root.after disk' _) crash (index + 1) rfl hrest hcrash with
          ⟨done, hle, hnoted', hleftovers, hstopped⟩
        refine ⟨done + 1, Nat.succ_le_succ hle, ?_, hleftovers, hstopped.succ hround⟩
        rw [Nat.add_assoc, Nat.add_comm 1 done] at hnoted'
        exact hnoted'
      rcases leaves_bind hoperation h with hfirst | hwritten
      · rcases leaves_onPart rfl hfirst with ⟨disk'', hleaves, rfl⟩
        exact ⟨0, Nat.zero_le _, hnoted, .inl rfl, stopped_zero hleaves⟩
      rcases leaves_bind ends_atomicWrite hwritten with hwrite | hcrash
      · rcases leaves_atomicWrite hwrite with ⟨leftovers, hleftovers, rfl⟩ | rfl
        · exact ⟨0, Nat.zero_le _, hnoted, hleftovers,
            stopped_zero (.inr (.inr hround.2.symm))⟩
        · exact hlater _ (.inl rfl)
      · exact hlater _ hcrash

/-! ## The verification -/

theorem Partway.eq {destination : Path} {before : Disk}
    (h : Partway destination destination before disk)
    (habove : ∀ parent ∈ parents destination, before parent = some .dir) : disk = before := by
  funext path
  by_cases hdestination : path = destination
  · rw [hdestination]
    exact h.target
  by_cases hparent : path ∈ parents destination
  · rcases h.above path hparent with hsame | ⟨hnone, -⟩
    · exact hsame
    · cases (habove path hparent).symm.trans hnone
  · exact h.elsewhere path hdestination hdestination hparent

/-- The verification of a file has no effect where the files are a tree. -/
theorem still_verifyRestoredFile (hfixed : validateInPlaceRestorePath entry.path = .ok entry.path)
    (htree : IsTree start) (h : Ends (verifyRestoredFile restore entry) start () disk) :
    Still (verifyRestoredFile restore entry) start := by
  have hlook : Ends (look fun _ => validateInPlaceRestorePath entry.path) start entry.path start :=
    ends_look.mpr ⟨hfixed, rfl⟩
  rcases ends_bind.mp h with ⟨relative, _, hrelative, hrest⟩
  rcases hlook.unique hrelative with ⟨rfl, rfl⟩
  by_cases hfloor : entry.path = releaseSequenceFloor
  · have hdone : (if entry.path = releaseSequenceFloor then done () else do
        let destination ← restoreParent entry.path
        look (checkRestored restore entry destination) : Action Disk Unit) = done () := if_pos hfloor
    refine ⟨ends_bind.mpr ⟨_, _, hlook, ?_⟩, ?_⟩
    · rw [hdone]
      exact ends_done.mpr ⟨rfl, rfl⟩
    · intro crash hleaves
      rcases leaves_bind hlook hleaves with hfirst | hsecond
      · exact leaves_look hfirst
      · rw [hdone] at hsecond
        exact leaves_done hsecond
  have hbody : (if entry.path = releaseSequenceFloor then done () else do
      let destination ← restoreParent entry.path
      look (checkRestored restore entry destination) : Action Disk Unit) = (do
        let destination ← restoreParent entry.path
        look (checkRestored restore entry destination)) := if_neg hfloor
  rw [hbody] at hrest
  rcases ends_bind.mp hrest with ⟨destination, made, hparent, hcheck⟩
  rcases allows_of_restoreParent hfixed hparent with ⟨rfl, hallows, htarget⟩
  -- A file that was found was there before, and with it the directories on the way.
  have habove : ∀ parent ∈ parents (pathParts entry.path), start parent = some .dir := by
    have hok := (ends_look.mp hcheck).1
    unfold checkRestored at hok
    rw [htarget] at hok
    split at hok
    · rename_i content mode hfile
      exact htree _ _ hfile
    · cases hok
  have hnot : pathParts entry.path ∉ parents (pathParts entry.path) := fun hmem =>
    (mem_parents.mp hmem).2.2 rfl
  have htriple := @triple_restoreParent _ _ _ (start (pathParts entry.path)) start
    hfixed hallows hnot
  have hmade : made = start := by
    rcases htriple.ends ⟨.refl, rfl⟩ with ⟨_, made', hends, -, hfilled⟩
    rw [(hparent.unique hends).2]
    exact hfilled.partway.eq habove
  subst hmade
  cases (ends_look.mp hcheck).2
  refine ⟨ends_bind.mpr ⟨_, _, hlook, ?_⟩, ?_⟩
  · rw [hbody]
    exact ends_bind.mpr ⟨_, _, hparent, hcheck⟩
  · intro crash hleaves
    rcases leaves_bind hlook hleaves with hfirst | hsecond
    · exact leaves_look hfirst
    rw [hbody] at hsecond
    rcases leaves_bind hparent hsecond with hthird | hfourth
    · have hpartway := htriple.leaves ⟨.refl, rfl⟩ ⟨.refl, rfl⟩
        (fun _ _ hs => ⟨hs.2.partway, hs.2.held⟩) hthird
      exact hpartway.1.eq habove
    · exact leaves_look hfourth

/-- The verification of a tombstone has no effect. -/
theorem still_verifyTombstone (hfixed : validateInPlaceRestorePath path = .ok path)
    (h : Ends (verifyTombstone path) start () disk) :
    Still (verifyTombstone path) start ∧ (path ≠ releaseSequenceFloor →
      ∃ reached, reaches start (parents (pathParts path)) = .ok reached) := by
  have hlook : Ends (look fun _ => validateInPlaceRestorePath path) start path start :=
    ends_look.mpr ⟨hfixed, rfl⟩
  have hleft : ∀ crash, Leaves (verifyTombstone path) start crash → crash = start := by
    intro crash hleaves
    rcases leaves_bind hlook hleaves with hfirst | hsecond
    · exact leaves_look hfirst
    rcases ends_bind.mp h with ⟨_, _, hvalue, hrest⟩
    rcases hlook.unique hvalue with ⟨rfl, rfl⟩
    split at hsecond
    · exact leaves_done hsecond
    rename_i hfloor
    rw [if_neg hfloor] at hrest
    rcases ends_bind.mp hrest with ⟨found, _, hfound, -⟩
    cases (ends_look.mp hfound).2
    rcases leaves_bind hfound hsecond with hthird | hfourth
    · exact leaves_look hthird
    · cases found with
      | none => exact leaves_done hfourth
      | some destination => exact leaves_look hfourth
  have hsame : start = disk := (hleft disk (.inr (.inr h.2.symm))).symm
  subst hsame
  refine ⟨⟨h, hleft⟩, ?_⟩
  intro hfloor
  rcases ends_bind.mp h with ⟨_, _, hvalue, hrest⟩
  rcases hlook.unique hvalue with ⟨rfl, rfl⟩
  rw [if_neg hfloor] at hrest
  rcases ends_bind.mp hrest with ⟨found, _, hfound, -⟩
  have hok := (ends_look.mp hfound).1
  rw [tombstoneDestination_eq hfixed] at hok
  cases hreaches : reaches start (parents (pathParts path)) with
  | error error =>
      rw [hreaches] at hok
      cases hok
  | ok reached => exact ⟨reached, rfl⟩

/-- The record, at the end of a restore. -/
def checkFloor (restore : Restore) (floorPlan : Option ReleaseFloorPlan) (disk : Disk) :
    Except String Unit :=
  match floorPlan with
  | none => .ok ()
  | some plan => verifyReleaseFloor restore.platform disk plan

/-- What a verification that succeeded says, and that it has no effect. -/
structure Verifies (restore : Restore) (manifest : Manifest)
    (floorPlan : Option ReleaseFloorPlan) (disk : Disk) : Prop where
  still : Still (verifyInPlaceRestore restore manifest floorPlan) disk
  reaches : ∀ path ∈ manifest.body.tombstones, path ≠ releaseSequenceFloor →
    ∃ reached, reaches disk (parents (pathParts path)) = .ok reached
  again : ∀ floorPlan', checkFloor restore floorPlan' disk = .ok () →
    Ends (verifyInPlaceRestore restore manifest floorPlan') disk () disk
  floor : checkFloor restore floorPlan disk = .ok ()

theorem Verifies.ofEnds (h : Ready restore manifest floorPlan) (htree : IsTree start)
    (hends : Ends (verifyInPlaceRestore restore manifest floorPlan') start () disk) :
    disk = start ∧ Verifies restore manifest floorPlan' start := by
  rcases ends_bind.mp hends with ⟨_, afterFiles, hfiles, hrest⟩
  rcases Still.forEach (fun entry hentry disk hverified =>
    still_verifyRestoredFile (h.fixed _ (path_of_file hentry)) htree hverified) hfiles with
      ⟨hstill, -⟩
  cases (hfiles.unique hstill.ends).2
  rcases ends_bind.mp hrest with ⟨_, afterTombstones, htombstones, hfloor⟩
  rcases Still.forEach (fun path hpath disk hverified =>
    (still_verifyTombstone (h.fixed _ (path_of_tombstone hpath)) hverified).1) htombstones with
      ⟨hstill', heach⟩
  cases (htombstones.unique hstill'.ends).2
  rcases ends_look.mp hfloor with ⟨hok, rfl⟩
  refine ⟨rfl, ⟨hends, ?_⟩, ?_, ?_, hok⟩
  · intro crash hleaves
    rcases leaves_bind hfiles hleaves with hfirst | hsecond
    · exact hstill.leaves crash hfirst
    rcases leaves_bind htombstones hsecond with hthird | hfourth
    · exact hstill'.leaves crash hthird
    · exact leaves_look hfourth
  · exact fun path hpath hne => (still_verifyTombstone
      (h.fixed _ (path_of_tombstone hpath)) (heach path hpath)).2 hne
  · intro other hother
    refine ends_bind.mpr ⟨(), _, hfiles, ends_bind.mpr ⟨(), _, htombstones, ?_⟩⟩
    exact ends_look.mpr ⟨hother, rfl⟩

/-! ## The operations and their verification -/

/-- The root after a restore. -/
def Root.restored (root : Root) (restore : Restore) (manifest : Manifest) (created : Json)
    (disk : Disk) : Root :=
  { root with
    disk := disk
    restoreJournal := some (some (committedJournal restore (planOf manifest false)
      (operationsOf manifest).length created))
    lastRestored := some (some (latestNote restore (planOf manifest false))) }

theorem ends_applySnapshot :
    Ends (applySnapshot restore manifest floorPlan next created) root () last ↔
      ∃ disk disk', Ends (forEach (runOperation restore floorPlan manifest.rootHash)
          ((operationsOf manifest).drop next)) root.disk () disk ∧
        Ends (verifyInPlaceRestore restore manifest floorPlan) disk () disk' ∧
          last = root.restored restore manifest created disk' := by
  have hnoted : Noted (root.after root.disk (applyingJournal restore (planOf manifest false)
      (operationsOf manifest).length created next)) (applyingJournal restore (planOf manifest false)
        (operationsOf manifest).length created next) := rfl
  constructor
  · intro h
    rcases ends_bind.mp h with ⟨_, _, hwrite, hrest⟩
    cases (hwrite.unique ends_atomicWrite).2
    rcases ends_bind.mp hrest with ⟨_, _, hoperations, hrest⟩
    rcases (ends_applyOperations hnoted).mp hoperations with ⟨disk, hdisk, rfl⟩
    rcases ends_bind.mp hrest with ⟨_, _, hverify, hrest⟩
    rcases ends_onPart.mp (ends_onFailure.mp hverify) with ⟨disk', hdisk', rfl⟩
    rcases ends_bind.mp hrest with ⟨_, _, hwrite, hnote⟩
    cases (hwrite.unique ends_atomicWrite).2
    cases (hnote.unique ends_atomicWrite).2
    exact ⟨disk, disk', hdisk, hdisk', rfl⟩
  · rintro ⟨disk, disk', hdisk, hdisk', rfl⟩
    refine ends_bind.mpr ⟨(), _, ends_atomicWrite, ?_⟩
    refine ends_bind.mpr ⟨(), _, (ends_applyOperations hnoted).mpr ⟨disk, hdisk, rfl⟩, ?_⟩
    refine ends_bind.mpr ⟨(), _, ends_onFailure.mpr (ends_onPart.mpr ⟨disk', hdisk', rfl⟩), ?_⟩
    exact ends_bind.mpr ⟨(), _, ends_atomicWrite, ends_atomicWrite⟩

/-- What a crash of a restore leaves: the journal that was there, or one that says how far the
operations have come, or that they are done. -/
theorem leaves_applySnapshot
    (hends : Ends (forEach (runOperation restore floorPlan manifest.rootHash)
      (operationsOf manifest)) root.disk () disk)
    (hverify : Still (verifyInPlaceRestore restore manifest floorPlan) disk)
    (h : Leaves (applySnapshot restore manifest floorPlan 0 created) root crash) :
    AtMostOneMore root.leftovers crash.leftovers ∧
      (crash.restoreJournal = root.restoreJournal ∧ crash.disk = root.disk ∨
        (∃ done ≤ (operationsOf manifest).length,
          Noted crash (applyingJournal restore (planOf manifest false)
            (operationsOf manifest).length created done) ∧
          Stopped (runOperation restore floorPlan manifest.rootHash) (operationsOf manifest)
            root.disk done crash.disk) ∨
        Noted crash (committedJournal restore (planOf manifest false)
          (operationsOf manifest).length created) ∧ crash.disk = disk) := by
  have hlast : Stopped (runOperation restore floorPlan manifest.rootHash) (operationsOf manifest)
      root.disk (operationsOf manifest).length disk := by
    refine ⟨disk, ?_, fun _ => rfl, ?_⟩
    · rw [List.take_length]
      exact hends
    · intro operation rest hdrop
      rw [List.drop_length] at hdrop
      cases hdrop
  have hnoted : Noted (root.after root.disk (applyingJournal restore (planOf manifest false)
      (operationsOf manifest).length created 0)) (applyingJournal restore (planOf manifest false)
        (operationsOf manifest).length created 0) := rfl
  have hoperations := fun crash => (@leaves_applyOperations _ _ _ _ crash) hnoted hends
  have hends' := (ends_applyOperations hnoted).mpr ⟨disk, hends, rfl⟩
  have hverified : Ends (onFailure (onDisk (verifyInPlaceRestore restore manifest floorPlan))
      (writeRestoreJournal restore (applyingJournal restore (planOf manifest false)
        (operationsOf manifest).length created 0)))
      (root.after disk (applyingJournal restore (planOf manifest false)
        (operationsOf manifest).length created (0 + (operationsOf manifest).length))) ()
      (root.after disk (applyingJournal restore (planOf manifest false)
        (operationsOf manifest).length created (0 + (operationsOf manifest).length))) :=
    ends_onFailure.mpr (ends_onPart.mpr ⟨disk, hverify.ends, rfl⟩)
  rw [Nat.zero_add] at hverified hends'
  rcases leaves_bind ends_atomicWrite h with hwrite | hrest
  · rcases leaves_atomicWrite hwrite with ⟨leftovers, hleftovers, rfl⟩ | rfl
    · exact ⟨hleftovers, .inl ⟨rfl, rfl⟩⟩
    · rcases hoperations _ (.inl rfl) with ⟨done, hle, hjournal, hleftovers, hstopped⟩
      rw [Nat.zero_add] at hjournal
      exact ⟨hleftovers, .inr (.inl ⟨done, hle, hjournal, hstopped⟩)⟩
  rcases leaves_bind hends' hrest with hloop | hrest
  · rcases hoperations _ hloop with ⟨done, hle, hjournal, hleftovers, hstopped⟩
    rw [Nat.zero_add] at hjournal
    exact ⟨hleftovers, .inr (.inl ⟨done, hle, hjournal, hstopped⟩)⟩
  rcases leaves_bind hverified hrest with hcheck | hrest
  · rcases leaves_onPart rfl (leaves_onFailure (ends_onFailure.mp hverified) hcheck) with
      ⟨disk', hleaves, rfl⟩
    rw [hverify.leaves disk' hleaves]
    exact ⟨.inl rfl, .inr (.inl ⟨_, Nat.le_refl _, rfl, hlast⟩)⟩
  rcases leaves_bind ends_atomicWrite hrest with hwrite | hnote
  · rcases leaves_atomicWrite hwrite with ⟨leftovers, hleftovers, rfl⟩ | rfl
    · exact ⟨hleftovers, .inr (.inl ⟨_, Nat.le_refl _, rfl, hlast⟩)⟩
    · exact ⟨.inl rfl, .inr (.inr ⟨rfl, rfl⟩)⟩
  · rcases leaves_atomicWrite hnote with ⟨leftovers, hleftovers, rfl⟩ | rfl
    · exact ⟨hleftovers, .inr (.inr ⟨rfl, rfl⟩)⟩
    · exact ⟨.inl rfl, .inr (.inr ⟨rfl, rfl⟩)⟩

/-! ## Where a restore goes on -/

@[simp]
theorem textOrEmpty_str {platform : Platform} (text : String) :
    textOrEmpty platform (.str text) = text := by
  unfold textOrEmpty
  split
  · rfl
  · rename_i hempty
    symm
    simpa [Json.truthy] using hempty

theorem resumeAt_applying {restore' : Restore} (hclock : isAboveZero created = true)
    (hdigest : isDigest plan.rootHash = true) (hrelease : plan.releaseId ≠ "")
    (hle : index ≤ count) :
    resumeAt restore (some (applyingJournal restore' plan count created index)) plan count =
      .ok (if index = count then 0 else index, created) := by
  have hfields : journalFields restore (applyingJournal restore' plan count created index) =
      true := by
    have hget : journalFields restore (applyingJournal restore' plan count created index) =
        (isSchema (.int 1) && isOneOf ["APPLYING", "COMMITTED"] (.str "APPLYING") &&
          isDigest (textOrEmpty restore.platform (.str plan.rootHash)) &&
          decide (textOrEmpty restore.platform (.str plan.releaseId) ≠ "") &&
          decide (index ≤ count) && isAboveZero created) := rfl
    rw [hget, textOrEmpty_str, textOrEmpty_str, hdigest, hclock, decide_eq_true hrelease, decide_eq_true hle]
    rfl
  have hresume : resumeAt restore (some (applyingJournal restore' plan count created index)) plan
      count = if !journalFields restore (applyingJournal restore' plan count created index) then
        .error "The in-place restore journal has invalid fields."
      else if decide (some plan.rootHash = some plan.rootHash) &&
          !(decide (some plan.releaseId = some plan.releaseId) &&
            decide (some count = some count)) then
        .error "The in-place restore journal does not match its snapshot."
      else if some plan.rootHash ≠ some plan.rootHash then
        .error "A different protected-data restore is incomplete"
      else .ok (if index = count then 0 else index, created) := rfl
  rw [hresume, hfields]
  simp

theorem resumeAt_committed {restore' : Restore} (hclock : isAboveZero created = true)
    (hnow : isAboveZero restore'.now = true) (hdigest : isDigest plan.rootHash = true)
    (hrelease : plan.releaseId ≠ "") :
    resumeAt restore (some (committedJournal restore' plan count created)) plan count =
      .ok (0, restore.now) := by
  have hfields : journalFields restore (committedJournal restore' plan count created) = true := by
    have hget : journalFields restore (committedJournal restore' plan count created) =
        (isSchema (.int 1) && isOneOf ["APPLYING", "COMMITTED"] (.str "COMMITTED") &&
          isDigest (textOrEmpty restore.platform (.str plan.rootHash)) &&
          decide (textOrEmpty restore.platform (.str plan.releaseId) ≠ "") &&
          decide (count ≤ count) && isAboveZero created) := rfl
    rw [hget, textOrEmpty_str, textOrEmpty_str, hdigest, hclock, decide_eq_true hrelease, decide_eq_true (Nat.le_refl _)]
    rfl
  have hcommitted : committedFields (committedJournal restore' plan count created) = true := by
    have hget : committedFields (committedJournal restore' plan count created) =
        (decide (plan.rootHash = plan.rootHash) && decide (some count = some count) &&
          isAboveZero restore'.now) := rfl
    rw [hget, hnow]
    simp
  have hresume : resumeAt restore (some (committedJournal restore' plan count created)) plan
      count = if !journalFields restore (committedJournal restore' plan count created) then
        .error "The in-place restore journal has invalid fields."
      else if !committedFields (committedJournal restore' plan count created) then
        .error "The committed in-place restore journal is invalid."
      else if decide (some plan.rootHash = some plan.rootHash) &&
          !(decide (some plan.releaseId = some plan.releaseId) &&
            decide (some count = some count)) then
        .error "The in-place restore journal does not match its snapshot."
      else .ok (0, restore.now) := rfl
  rw [hresume, hfields, hcommitted]
  simp

/-- No restore is under way. -/
def Idle (root : Root) : Prop :=
  ∀ value, Noted root value → textOf (value.get "state") ≠ some "APPLYING"

/-- A restore that finds none under way starts at the beginning. -/
theorem resumeAt_idle {existing : Option Json}
    (hidle : ∀ value, existing = some value → textOf (value.get "state") ≠ some "APPLYING")
    (h : resumeAt restore existing plan count = .ok (next, created)) :
    next = 0 ∧ created = restore.now ∧ ∀ now : Json,
      resumeAt { restore with now := now } existing plan count = .ok (0, now) := by
  cases existing with
  | none =>
      cases h
      exact ⟨rfl, rfl, fun _ => rfl⟩
  | some value =>
      have hstate := hidle value rfl
      have hfields : ∀ now : Json, journalFields { restore with now := now } value =
          journalFields restore value := fun _ => rfl
      unfold resumeAt at h ⊢
      simp only at h ⊢
      by_cases htruthy : value.truthy = true
      swap
      · rw [Bool.not_eq_true] at htruthy
        rw [htruthy, Bool.not_false, if_pos rfl] at h
        cases h
        refine ⟨rfl, rfl, fun now => ?_⟩
        rw [htruthy, Bool.not_false, if_pos rfl]
      rw [htruthy, Bool.not_true, if_neg Bool.false_ne_true] at h
      split at h
      · exact nomatch h
      rename_i hvalid
      split at h
      · exact nomatch h
      rename_i hcommitted
      split at h
      · exact nomatch h
      rename_i hmatches
      cases h
      refine ⟨rfl, rfl, fun now => ?_⟩
      rw [htruthy, Bool.not_true, if_neg Bool.false_ne_true, hfields now, if_neg hvalid,
        if_neg hcommitted, if_neg hmatches, if_pos hstate]

/-! ## What a restore is prepared with -/

theorem prepare_ok {snapshot : Json} : prepare restore snapshot root = .ok (manifest, floorPlan) ↔
    checkStore root = .ok () ∧
      verifyLocalSnapshot restore.platform restore.store restore.limits snapshot = .ok manifest ∧
        checkPaths (manifest.body.files.map FileEntry.path ++ manifest.body.tombstones) = .ok () ∧
          planReleaseFloor restore.platform root.disk restore.store manifest.body.files =
            .ok floorPlan := by
  unfold prepare
  simp only [bind, Except.bind, pure, Except.pure]
  constructor
  · intro h
    split at h
    · cases h
    rename_i hstore
    split at h
    · cases h
    rename_i found hfound
    split at h
    · cases h
    rename_i hpaths
    split at h
    · cases h
    rename_i hplan
    cases h
    exact ⟨hstore, hfound, hpaths, hplan⟩
  · rintro ⟨hstore, hfound, hpaths, hplan⟩
    simp only [hstore, hfound, hpaths, hplan]

theorem floorEntry_of_mem (hdistinct : (manifest.body.files.map FileEntry.path).Nodup)
    (hentry : entry ∈ manifest.body.files) (hpath : entry.path = releaseSequenceFloor) :
    floorEntry manifest.body.files = some entry := by
  cases hfound : floorEntry manifest.body.files with
  | none =>
      unfold floorEntry at hfound
      rw [List.find?_eq_none] at hfound
      exact absurd (decide_eq_true hpath) (hfound entry hentry)
  | some found =>
      unfold floorEntry at hfound
      have hfloor := List.find?_some hfound
      have hsame := of_decide_eq_true hfloor
      rw [List.inj_on_of_nodup_map hdistinct (List.mem_of_find?_eq_some hfound) hentry
        (hsame.trans hpath.symm)]

/-- A restore that is prepared is ready, if its paths are plain. -/
theorem ready_of_prepare {snapshot : Json}
    (h : prepare restore snapshot root = .ok (manifest, floorPlan))
    (hfixed : ∀ path ∈ manifest.paths, validateInPlaceRestorePath path = .ok path)
    (htemporaries : ∀ entry ∈ manifest.body.files, ∀ path ∈ manifest.paths,
      ¬ manifest.temporary entry <+: pathParts path) :
    Ready restore manifest floorPlan := by
  rcases prepare_ok.mp h with ⟨-, hverified, -, hplan⟩
  rcases verifyLocalSnapshot_ok hverified with ⟨hvalid, hpresent⟩
  rcases accepts_of_ok hvalid with ⟨_, _, _, _, haccepts⟩
  have hdistinct := nodup_of_increasing haccepts.paths
  refine ⟨hfixed, htemporaries, hdistinct, ?_, ?_⟩
  · exact fun entry hentry => (hpresent entry hentry).1.opens
  · intro entry hentry hpath
    have hfound := floorEntry_of_mem hdistinct hentry hpath
    rcases planReleaseFloor_ok hplan hfound with ⟨floor, plan, hfloor, rfl, hsnapshot⟩
    rcases snapshotFloor_content hfloor with ⟨content, hobject, -, hrecorded⟩
    refine ⟨plan, floor, content, rfl, hsnapshot, ?_, hobject, ?_⟩
    · unfold snapshotFloor
      rw [hfound]
      simp only
      rw [hfloor]
    · intro disk mode hdisk
      have hsome := hrecorded disk mode hdisk
      unfold recorded at hsome
      split at hsome
      · rename_i found hread
        rw [hread, hsome]
      · cases hsome

/-- What a restore is for: the files and the tombstones of the snapshot, and nothing else. -/
structure Restored (restore : Restore) (manifest : Manifest) (before after : Root) : Prop where
  files : ∀ entry ∈ manifest.body.files, ∃ content,
    restore.store.objects.get? entry.sha256 = some content ∧
      after.disk (pathParts entry.path) = some (.file content entry.mode)
  tombstones : ∀ path ∈ manifest.body.tombstones, after.disk (pathParts path) = none
  untouched : Untouched manifest before.disk after.disk
  leftovers : after.leftovers = before.leftovers

theorem Restored.file {before after : Root} (h : Restored restore manifest before after)
    (hentry : entry ∈ manifest.body.files) {content : List UInt8}
    (hobject : openVerifiedObject restore.platform restore.store entry.sha256 entry.size =
      .ok content) : after.disk (pathParts entry.path) = some (.file content entry.mode) := by
  rcases h.files entry hentry with ⟨content', hcontent', hfile⟩
  rw [(openVerifiedObject_ok hobject).1] at hcontent'
  cases hcontent'
  exact hfile

/-- Where a crash has left the record, the restore is planned again to the same end. -/
theorem planReleaseFloor_again {before after : Root} (h : Ready restore manifest floorPlan)
    (hplan : planReleaseFloor restore.platform start restore.store manifest.body.files =
      .ok floorPlan)
    (hkept : FloorKept restore manifest start disk)
    (hrestored : Restored restore manifest before after)
    (hfloor : checkFloor restore floorPlan after.disk = .ok ()) :
    ∃ floorPlan', planReleaseFloor restore.platform disk restore.store manifest.body.files =
        .ok floorPlan' ∧ checkFloor restore floorPlan' after.disk = .ok () ∧
      ∀ operation ∈ operationsOf manifest,
        runOperation restore floorPlan' manifest.rootHash operation =
          runOperation restore floorPlan manifest.rootHash operation := by
  rcases hkept with hsame | ⟨entry, hentry, hpath, content, hobject, hdisk⟩
  · refine ⟨floorPlan, ?_, hfloor, fun _ _ => rfl⟩
    unfold planReleaseFloor at hplan ⊢
    rw [readLocal_congr hsame]
    exact hplan
  rcases h.floor entry hentry hpath with
    ⟨plan, floor, content', rfl, hsnapshot, hfound, hobject', hread⟩
  cases hobject.symm.trans hobject'
  have hparts : pathParts entry.path = floorPath := by
    rw [hpath]
    rfl
  refine ⟨some ⟨some (entry, floor), floor⟩, ?_, ?_, ?_⟩
  · unfold planReleaseFloor
    rw [hread disk entry.mode hdisk, hfound]
    simp only [bind, Except.bind, conflicts_self, Bool.false_eq_true, if_false, ite_self]
    rfl
  · have hlast : readLocalReleaseSequenceFloor restore.platform after.disk = .ok (some floor) :=
      hread _ entry.mode (hparts ▸ hrestored.file hentry hobject)
    unfold checkFloor verifyReleaseFloor
    rw [hlast]
    simp [conflicts_self]
  · intro operation _
    cases operation with
    | tombstone path => rfl
    | file other =>
        simp only [runOperation]
        split
        · unfold restoreReleaseFloor
          rw [hsnapshot]
        · rfl

/-- An operation that is done over again changes nothing. -/
theorem ends_again {before after : Root} (h : Ready restore manifest floorPlan)
    (htidy : Tidy restore manifest start after.disk)
    (hrestored : Restored restore manifest before after)
    (hverifies : Verifies restore manifest floorPlan after.disk) :
    ∀ operation ∈ operationsOf manifest,
      Ends (runOperation restore floorPlan manifest.rootHash operation) after.disk ()
        after.disk := by
  intro operation hmem
  unfold operationsOf at hmem
  cases operation with
  | file entry =>
      have hentry : entry ∈ manifest.body.files := by simpa using hmem
      simp only [runOperation]
      by_cases hpath : entry.path = releaseSequenceFloor
      · rcases h.floor entry hentry hpath with
          ⟨plan, floor, content, rfl, hsnapshot, -, hobject, hread⟩
        have hparts : pathParts entry.path = floorPath := by
          rw [hpath]
          rfl
        rw [if_pos hpath]
        exact Ends.congr (restoreReleaseFloor_keeps hsnapshot
          (hread _ entry.mode (hparts ▸ hrestored.file hentry hobject)) conflicts_self
            (Nat.le_refl _)).symm (ends_done.mpr ⟨rfl, rfl⟩)
      · rw [if_neg hpath]
        rcases h.objects entry hentry with ⟨content, hobject⟩
        have hfile := hrestored.file hentry hobject
        have habove := htidy.tree _ _ hfile
        have hunused := htidy.unused entry hentry
        have hallows : Allows after.disk (pathParts entry.path) :=
          ⟨fun parent hparent => .inr (habove parent hparent), .inr ⟨content, entry.mode, hfile⟩⟩
        rcases (triple_restoreManifestFile (h.fixed _ (path_of_file hentry)) hallows hobject).ends
          ⟨.refl, .inl hunused⟩ with ⟨_, last, hlast, rfl⟩
        have hsame : after.disk.installed (pathParts entry.path)
            (temporaryOf (pathParts entry.path) manifest.rootHash) content entry.mode =
              after.disk := by
          funext path
          unfold Disk.installed
          split
          · rename_i hdestination
            rw [hdestination, hfile]
          split
          · rename_i htemporary
            rw [htemporary]
            exact hunused.symm
          split
          · rename_i hparent
            exact (habove path hparent).symm
          · rfl
        rw [hsame] at hlast
        exact hlast
  | tombstone path =>
      have hpath : path ∈ manifest.body.tombstones := by simpa using hmem
      simp only [runOperation]
      by_cases hne : path = releaseSequenceFloor
      · rw [if_pos hne]
        exact ends_done.mpr ⟨rfl, rfl⟩
      · rw [if_neg hne]
        rcases hverifies.reaches path hpath hne with ⟨reached, hreaches⟩
        exact tombstone_again (h.fixed _ (path_of_tombstone hpath)) hreaches
          (hrestored.tombstones path hpath)

/-! ## The law -/

theorem ends_restoreInPlace {snapshot : Json} : Ends (restoreInPlace restore snapshot false) root plan
    last ↔ ∃ manifest floorPlan existing next created,
      prepare restore snapshot root = .ok (manifest, floorPlan) ∧
        readRestoreJournal root = .ok existing ∧
          resumeAt restore existing (planOf manifest false) (operationsOf manifest).length =
            .ok (next, created) ∧
          Ends (applySnapshot restore manifest floorPlan next created) root () last ∧
            planOf manifest false = plan := by
  constructor
  · intro h
    rcases ends_bind.mp h with ⟨⟨manifest, floorPlan⟩, _, hprepare, hrest⟩
    rcases ends_look.mp hprepare with ⟨hprepared, rfl⟩
    rcases ends_bind.mp hrest with ⟨existing, _, hread, hrest⟩
    rcases ends_look.mp hread with ⟨hjournal, rfl⟩
    rcases ends_bind.mp hrest with ⟨⟨next, created⟩, _, hresume, hrest⟩
    rcases ends_look.mp hresume with ⟨hnext, rfl⟩
    rcases ends_bind.mp hrest with ⟨_, _, happly, hdone⟩
    rcases ends_done.mp hdone with ⟨hplan, rfl⟩
    exact ⟨manifest, floorPlan, existing, next, created, hprepared, hjournal, hnext, happly, hplan⟩
  · rintro ⟨manifest, floorPlan, existing, next, created, hprepared, hjournal, hnext, happly, rfl⟩
    refine ends_bind.mpr ⟨(manifest, floorPlan), root, ends_look.mpr ⟨hprepared, rfl⟩, ?_⟩
    refine ends_bind.mpr ⟨existing, root, ends_look.mpr ⟨hjournal, rfl⟩, ?_⟩
    refine ends_bind.mpr ⟨(next, created), root, ends_look.mpr ⟨hnext, rfl⟩, ?_⟩
    exact ends_bind.mpr ⟨(), last, happly, ends_done.mpr ⟨rfl, rfl⟩⟩

/-- A root that a snapshot may be restored onto: its files are a tree, none of them is a temporary
file of the restore, and no restore is under way.  The snapshot's paths are plain. -/
structure Onto (restore : Restore) (snapshot : Json) (manifest : Manifest) (root : Root) :
    Prop where
  verified : verifyLocalSnapshot restore.platform restore.store restore.limits snapshot =
    .ok manifest
  fixed : ∀ path ∈ manifest.paths, validateInPlaceRestorePath path = .ok path
  temporaries : ∀ entry ∈ manifest.body.files, ∀ path ∈ manifest.paths,
    ¬ manifest.temporary entry <+: pathParts path
  tree : IsTree root.disk
  unused : ∀ entry ∈ manifest.body.files, root.disk (manifest.temporary entry) = none
  idle : Idle root

theorem Onto.tidy {snapshot : Json} (h : Onto restore snapshot manifest root) :
    Tidy restore manifest root.disk root.disk :=
  ⟨h.tree, fun _ hdir => hdir, h.unused, .inl rfl⟩

/-- The operations of a restore that succeeds. -/
theorem Onto.keeps {snapshot : Json} (h : Onto restore snapshot manifest root)
    (hready : Ready restore manifest floorPlan)
    (hmem : ∀ operation ∈ operations, operation ∈ operationsOf manifest)
    (hends : Ends (forEach (runOperation restore floorPlan manifest.rootHash) operations)
      root.disk () disk) :
    Tidy restore manifest root.disk disk ∧ Untouched manifest root.disk disk :=
  hends.keeps (I := fun disk => Tidy restore manifest root.disk disk ∧
    Untouched manifest root.disk disk)
    (fun operation hoperation _ _ hs hround =>
      have hresumes := Resumes.ofOperation hready hs.1 (hmem operation hoperation) hround
      ⟨hresumes.tidy, hs.2.trans hresumes.untouched⟩)
    ⟨h.tidy, .refl⟩

/-- Where a restore was cut off, and what it comes to when the operations from `next` on are done
there. -/
structure CutOff (restore : Restore) (manifest : Manifest) (floorPlan : Option ReleaseFloorPlan)
    (before crash : Root) (next : Nat) (last : Disk) : Prop where
  dirs : ∀ path, before.disk path = some .dir → crash.disk path = some .dir
  floor : FloorKept restore manifest before.disk crash.disk
  resumes : Whole manifest crash.disk →
    Ends (forEach (runOperation restore floorPlan manifest.rootHash)
      ((operationsOf manifest).drop next)) crash.disk () last
  stuck : ¬ Whole manifest crash.disk → ∀ disk,
    ¬ Ends (forEach (runOperation restore floorPlan manifest.rootHash)
      ((operationsOf manifest).drop next)) crash.disk () disk

/-- A restore that was cut off between two operations. -/
theorem CutOff.ofTidy {before : Root} {last : Disk}
    (htidy : Tidy restore manifest before.disk crash.disk)
    (hends : Ends (forEach (runOperation restore floorPlan manifest.rootHash)
      ((operationsOf manifest).drop next)) crash.disk () last) :
    CutOff restore manifest floorPlan before crash next last :=
  ⟨htidy.dirs, htidy.floor, fun _ => hends, fun hnot => absurd htidy.whole hnot⟩

/-- A restore that was cut off in an operation. -/
theorem CutOff.ofStopped {before : Root} {last : Disk} (hready : Ready restore manifest floorPlan)
    (htidy : Tidy restore manifest before.disk before.disk)
    (hends : Ends (forEach (runOperation restore floorPlan manifest.rootHash)
      (operationsOf manifest)) before.disk () last)
    (hlast : Tidy restore manifest before.disk last)
    (h : Stopped (runOperation restore floorPlan manifest.rootHash) (operationsOf manifest)
      before.disk next crash.disk) :
    CutOff restore manifest floorPlan before crash next last := by
  have hkeeps : ∀ operation ∈ operationsOf manifest, ∀ first second,
      Tidy restore manifest before.disk first →
        Ends (runOperation restore floorPlan manifest.rootHash operation) first () second →
          Tidy restore manifest before.disk second :=
    fun _ hmem _ _ hs hround => (Resumes.ofOperation hready hs hmem hround).tidy
  cases hdrop : (operationsOf manifest).drop next with
  | nil =>
      have hsame := h.last hends hdrop
      apply CutOff.ofTidy
      · rw [hsame]
        exact hlast
      · rw [hdrop]
        exact ends_forEach_nil.mpr hsame
  | cons operation rest =>
      have hmem : operation ∈ operationsOf manifest := by
        apply List.mem_of_mem_drop (i := next)
        rw [hdrop]
        exact List.mem_cons_self
      rcases h.round hkeeps htidy hends hdrop with ⟨first, second, hfirst, hround, hleaves, -⟩
      have hresumes := Resumes.ofOperation hready hfirst hmem hround
      refine ⟨hresumes.dirs _ hleaves, hresumes.floor _ hleaves, ?_, ?_⟩
      · intro hwhole
        exact h.resumes hkeeps (fun _ hmem _ _ hs hround =>
          (Resumes.ofOperation hready hs hmem hround).restarts) htidy hends hwhole
      · intro hnot disk hagain
        rw [hdrop] at hagain
        rcases ends_forEach_cons.mp hagain with ⟨middle, hfailed, -⟩
        exact hresumes.stuck _ hleaves hnot _ hfailed

/-- The restore comes to its end, and the root is as the snapshot says. -/
def Completes (restore : Restore) (snapshot : Json) (manifest : Manifest) (before root : Root) :
    Prop :=
  ∃ plan last, Ends (restoreInPlace restore snapshot false) root plan last ∧
    Restored restore manifest before last

theorem checkStore_of_dirs {before : Root} (h : checkStore before = .ok ())
    (hdirs : ∀ path, before.disk path = some .dir → root.disk path = some .dir) :
    checkStore root = .ok () := by
  unfold checkStore at h ⊢
  split at h
  · rename_i hboth
    rw [if_pos ⟨hdirs _ hboth.1, hdirs _ hboth.2⟩]
  · cases h

theorem readRestoreJournal_noted (h : Noted root value) (hobj : value.isObj = true) :
    readRestoreJournal root = .ok (some value) := by
  unfold Noted at h
  unfold readRestoreJournal
  rw [h]
  simp [hobj]

/-- What a restore that is begun again after a crash finds. -/
theorem crash_resumes {snapshot : Json} {before last : Root} {now : Json} {plan : RestorePlan}
    (honto : Onto restore snapshot manifest before) (hclock : isAboveZero restore.now = true)
    (hends : Ends (restoreInPlace restore snapshot false) before plan last)
    (hrestored : Restored restore manifest before last)
    (hcrash : Leaves (restoreInPlace restore snapshot false) before crash) :
    ∃ floorPlan existing next created, Ready restore manifest floorPlan ∧
      prepare restore snapshot before = .ok (manifest, floorPlan) ∧
      readRestoreJournal crash = .ok existing ∧
      resumeAt { restore with now := now } existing (planOf manifest false)
        (operationsOf manifest).length = .ok (next, created) ∧
      CutOff restore manifest floorPlan before crash next last.disk ∧
      Verifies restore manifest floorPlan last.disk ∧
      AtMostOneMore before.leftovers crash.leftovers := by
  rcases ends_restoreInPlace.mp hends with
    ⟨manifest', floorPlan, existing, next, created, hprepared, hjournal, hnext, happly, rfl⟩
  rcases prepare_ok.mp hprepared with ⟨-, hverified, -, -⟩
  cases honto.verified.symm.trans hverified
  have hready := ready_of_prepare hprepared honto.fixed honto.temporaries
  -- The first run starts at the beginning.
  have hidle : ∀ value, existing = some value → textOf (value.get "state") ≠ some "APPLYING" := by
    rintro value rfl
    apply honto.idle
    unfold readRestoreJournal at hjournal
    split at hjournal
    · cases hjournal
    · cases hjournal
    · rename_i found hfound
      split at hjournal
      · cases hjournal
      · cases hjournal
        exact hfound
  rcases resumeAt_idle hidle hnext with ⟨rfl, rfl, hagain⟩
  rcases ends_applySnapshot.mp happly with ⟨disk, disk', hoperations, hverify, rfl⟩
  rw [List.drop_zero] at hoperations
  rcases honto.keeps hready (fun _ hmem => hmem) hoperations with ⟨htidy, -⟩
  rcases Verifies.ofEnds hready htidy.tree hverify with ⟨rfl, hverifies⟩
  have hrepeat : Ends (forEach (runOperation restore floorPlan manifest.rootHash)
      ((operationsOf manifest).drop 0)) disk' () disk' := by
    rw [List.drop_zero]
    exact ends_forEach_self (ends_again hready htidy hrestored hverifies)
  have hdigest : isDigest (planOf manifest false).rootHash = true := by
    rcases accepts_of_ok (verifyLocalSnapshot_ok hverified).1 with ⟨_, _, _, _, haccepts⟩
    change isDigest manifest.rootHash = true
    rw [haccepts.rootHash]
    exact isDigest_rootHash _ _
  have hrelease : (planOf manifest false).releaseId ≠ "" := by
    rcases accepts_of_ok (verifyLocalSnapshot_ok hverified).1 with ⟨_, _, _, _, haccepts⟩
    have hid := haccepts.releaseId
    unfold normaliseReleaseId at hid
    simp only at hid
    split at hid
    · exact nomatch hid
    · rename_i hvalid
      change manifest.body.releaseId ≠ ""
      rw [← Except.ok.inj hid]
      exact fun hempty => hvalid (.inl hempty)
  refine ⟨floorPlan, ?_⟩
  have hstart : crash.restoreJournal = before.restoreJournal → crash.disk = before.disk →
      AtMostOneMore before.leftovers crash.leftovers →
      ∃ existing next created, Ready restore manifest floorPlan ∧
        prepare restore snapshot before = .ok (manifest, floorPlan) ∧
        readRestoreJournal crash = .ok existing ∧
        resumeAt { restore with now := now } existing (planOf manifest false)
          (operationsOf manifest).length = .ok (next, created) ∧
        CutOff restore manifest floorPlan before crash next disk' ∧
        Verifies restore manifest floorPlan disk' ∧
        AtMostOneMore before.leftovers crash.leftovers := by
    intro hsameJournal hsameDisk hleftovers
    refine ⟨existing, 0, now, hready, hprepared, ?_, hagain now, ?_, hverifies, hleftovers⟩
    · unfold readRestoreJournal at hjournal ⊢
      rw [hsameJournal]
      exact hjournal
    · apply CutOff.ofTidy
      · rw [hsameDisk]
        exact honto.tidy
      · rw [hsameDisk, List.drop_zero]
        exact hoperations
  have hleaves : crash = before ∨
      Leaves (applySnapshot restore manifest floorPlan 0 restore.now) before crash := by
    rcases leaves_bind (ends_look.mpr ⟨hprepared, rfl⟩) hcrash with hfirst | hrest
    · exact .inl (leaves_look hfirst)
    rcases leaves_bind (ends_look.mpr ⟨hjournal, rfl⟩) hrest with hfirst | hrest
    · exact .inl (leaves_look hfirst)
    have hresume : Ends (look fun _ : Root => resumeAt restore existing (planOf manifest false)
        (operationsOf manifest).length) before (0, restore.now) before :=
      ends_look.mpr ⟨hnext, rfl⟩
    rcases leaves_bind hresume hrest with hfirst | hrest
    · exact .inl (leaves_look hfirst)
    rcases leaves_bind happly hrest with hfirst | hrest
    · exact .inr hfirst
    · right
      rw [leaves_done hrest]
      exact .inr (.inr happly.2.symm)
  rcases hleaves with rfl | hleaves
  · exact hstart rfl rfl (.inl rfl)
  rcases leaves_applySnapshot hoperations hverifies.still hleaves with ⟨hleftovers,
    ⟨hsameJournal, hsameDisk⟩ | ⟨done, hle, hnoted, hstopped⟩ | ⟨hnoted, hlast⟩⟩
  · exact hstart hsameJournal hsameDisk hleftovers
  · refine ⟨_, _, _, hready, hprepared, readRestoreJournal_noted hnoted rfl,
      resumeAt_applying hclock hdigest hrelease hle, ?_, hverifies, hleftovers⟩
    split
    · rename_i hall
      -- All operations were done: they are done over again.
      have hlast := hstopped.last hoperations (by rw [hall, List.drop_length])
      apply CutOff.ofTidy
      · rw [hlast]
        exact htidy
      · rw [hlast]
        exact hrepeat
    · exact .ofStopped hready honto.tidy hoperations htidy hstopped
  · refine ⟨_, _, _, hready, hprepared, readRestoreJournal_noted hnoted rfl,
      resumeAt_committed hclock hclock hdigest hrelease, ?_, hverifies, hleftovers⟩
    apply CutOff.ofTidy
    · rw [hlast]
      exact htidy
    · rw [hlast]
      exact hrepeat

/-- A restore that succeeds touches nothing else. -/
theorem Onto.untouched {snapshot : Json} (h : Onto restore snapshot manifest root)
    (hends : Ends (restoreInPlace restore snapshot false) root plan last) :
    Untouched manifest root.disk last.disk ∧ last.leftovers = root.leftovers := by
  rcases ends_restoreInPlace.mp hends with
    ⟨manifest', floorPlan, existing, next, created, hprepared, -, -, happly, -⟩
  rcases prepare_ok.mp hprepared with ⟨-, hverified, -, -⟩
  cases h.verified.symm.trans hverified
  have hready := ready_of_prepare hprepared h.fixed h.temporaries
  rcases ends_applySnapshot.mp happly with ⟨disk, disk', hoperations, hverify, rfl⟩
  rcases h.keeps hready (fun _ hmem => List.mem_of_mem_drop hmem) hoperations with
    ⟨htidy, huntouched⟩
  cases (Verifies.ofEnds hready htidy.tree hverify).1
  exact ⟨huntouched, rfl⟩

/-- A restore that was cut off comes to its end when it is begun again, and leaves what it would
have left, exactly when the crash left no part of a file and no part of a journal. -/
theorem resume_law {snapshot : Json} {before : Root} (honto : Onto restore snapshot manifest before)
    (hclock : isAboveZero restore.now = true)
    (hwhole : Completes restore snapshot manifest before before)
    (hcrash : Leaves (restoreInPlace restore snapshot false) before crash) (now : Json) :
    Completes { restore with now := now } snapshot manifest before crash ↔
      crash.leftovers = before.leftovers ∧ Whole manifest crash.disk := by
  rcases hwhole with ⟨plan, last, hends, hrestored⟩
  rcases (@crash_resumes _ _ _ _ _ _ now) honto hclock hends hrestored hcrash with
    ⟨floorPlan, existing, next, created, hready, hprepared, hjournal, hnext, hcut, hverifies, -⟩
  rcases prepare_ok.mp hprepared with ⟨hstore, hverified, hpaths, hplan⟩
  rcases planReleaseFloor_again hready hplan hcut.floor hrestored hverifies.floor with
    ⟨floorPlan', hplan', hfloor', hsame⟩
  have hprepared' : prepare { restore with now := now } snapshot crash =
      .ok (manifest, floorPlan') :=
    prepare_ok.mpr ⟨checkStore_of_dirs hstore hcut.dirs, hverified, hpaths, hplan'⟩
  have hoperations : forEach (runOperation { restore with now := now } floorPlan'
      manifest.rootHash) ((operationsOf manifest).drop next) =
        forEach (runOperation restore floorPlan manifest.rootHash)
          ((operationsOf manifest).drop next) := by
    apply forEach_congr
    intro operation hmem
    rw [← hsame operation (List.mem_of_mem_drop hmem)]
    cases operation <;> rfl
  constructor
  · rintro ⟨plan', last', hends', hrestored'⟩
    rcases ends_restoreInPlace.mp hends' with
      ⟨manifest', floorPlan'', existing', next', created', hprepared'', hjournal', hnext',
        happly, -⟩
    cases hprepared'.symm.trans hprepared''
    cases hjournal.symm.trans hjournal'
    cases hnext.symm.trans hnext'
    rcases ends_applySnapshot.mp happly with ⟨disk, disk', hdisk, -, rfl⟩
    refine ⟨hrestored'.leftovers, ?_⟩
    by_contra hnot
    rw [hoperations] at hdisk
    exact hcut.stuck hnot disk hdisk
  · rintro ⟨hleftovers, hwhole⟩
    refine ⟨planOf manifest false, crash.restored { restore with now := now } manifest created
      last.disk, ?_, ?_⟩
    · refine ends_restoreInPlace.mpr ⟨manifest, floorPlan', existing, next, created, hprepared',
        hjournal, hnext, ?_, rfl⟩
      refine ends_applySnapshot.mpr ⟨last.disk, last.disk, ?_, hverifies.again floorPlan' hfloor',
        rfl⟩
      rw [hoperations]
      exact hcut.resumes hwhole
    · exact ⟨hrestored.files, hrestored.tombstones, hrestored.untouched, hleftovers⟩

/-! ## A crash in the middle of a file -/

def letterHash : String := "ca978112ca1bbdcafac231b39a23dc4da786eff8147c4e72b9807785afee48bb"

/-- The canonical JSON of a body with one file of one letter. -/
def letterText : List UInt8 :=
  ("\x7b\"files\":[\x7b\"classes\":[\"artifacts\"],\"mode\":420,\"path\":\"a\",\"sha256\":" ++
    "\"ca978112ca1bbdcafac231b39a23dc4da786eff8147c4e72b9807785afee48bb\",\"size\":1\x7d]," ++
    "\"release_id\":\"v1\",\"schema\":1,\"tombstones\":[]\x7d").toList.map
      fun c => UInt8.ofNat c.toNat

def letterRootHash : String := "0ab15822cf46f5fcf5713bd5602e6b59cf3556e5ab159c613841afcc12a1769f"

/-- The hashes of nothing, of the letter and of a body. -/
def letterSha256 (rootHash : String) : List UInt8 → String
  | [] => "e3b0c44298fc1c149afbf4c8996fb92427ae41e4649b934ca495991b7852b855"
  | [97] => letterHash
  | _ => rootHash

theorem isDigest_letterSha256 {rootHash : String} (h : isDigest rootHash = true)
    (bytes : List UInt8) : isDigest (letterSha256 rootHash bytes) = true := by
  unfold letterSha256
  split
  · decide +kernel
  · decide +kernel
  · exact h

/-- Python and JSON on a body, given its text and its hash. -/
def platformOf (text : List UInt8) (rootHash : String) (h : isDigest rootHash = true) :
    Platform where
  py :=
    { samplePlatform.py with
      sha256 := letterSha256 rootHash
      sha256_length := fun bytes => by
        have hdigest := isDigest_letterSha256 h bytes
        unfold isDigest at hdigest
        rw [Bool.and_eq_true, decide_eq_true_eq] at hdigest
        exact hdigest.1
      sha256_hex := fun bytes c hc => by
        have hdigest := isDigest_letterSha256 h bytes
        unfold isDigest at hdigest
        rw [Bool.and_eq_true, List.all_eq_true] at hdigest
        exact of_decide_eq_true (hdigest.2 c hc) }
  casefold := id
  canonicalJson := fun _ => text

def letterPlatform : Platform :=
  platformOf letterText letterRootHash (by decide +kernel)

def letterFile : FileEntry where
  path := "a"
  sha256 := letterHash
  size := 1
  mode := 420
  classes := ["artifacts"]

def letterManifest : Manifest :=
  ⟨⟨"v1", [letterFile], []⟩, letterRootHash⟩

def letterRestore : Restore where
  platform := letterPlatform
  store :=
    { manifests := Dict.empty
      objects := { entries := [(letterHash, [97])], nodup := by decide }
      strays := [] }
  limits := defaultLimits
  now := .int 1

/-- A root without any files. -/
def bareRoot : Root where
  disk := fun path =>
    if path = [".silicon"] ∨ path = [".silicon", "snapshots"] then some .dir else none
  restoreJournal := none
  lastRestored := none
  leftovers := []

theorem letter_verified : verifyLocalSnapshot letterPlatform letterRestore.store defaultLimits
    letterManifest.toJson = .ok letterManifest := by
  decide +kernel

/-- The restore of the letter, once it is prepared. -/
theorem letter_run {restore : Restore} (hplatform : restore.platform = letterPlatform)
    (hstore : restore.store = letterRestore.store) (hlimits : restore.limits = defaultLimits)
    (hroot : checkStore root = .ok ())
    (hfloor : readLocalReleaseSequenceFloor letterPlatform root.disk = .ok none)
    {existing : Option Json} (hjournal : readRestoreJournal root = .ok existing)
    (hnext : resumeAt restore existing (planOf letterManifest false)
      (operationsOf letterManifest).length = .ok (next, created)) :
    restoreInPlace restore letterManifest.toJson false root =
      (do
        applySnapshot restore letterManifest none next created
        done (planOf letterManifest false) : Action Root RestorePlan) root := by
  have hprepared : prepare restore letterManifest.toJson root = .ok (letterManifest, none) := by
    apply prepare_ok.mpr
    rw [hplatform, hstore, hlimits]
    refine ⟨hroot, letter_verified, by decide +kernel, ?_⟩
    have hentry : floorEntry letterManifest.body.files = none := by decide +kernel
    unfold planReleaseFloor snapshotFloor
    rw [hfloor, hentry]
    rfl
  unfold restoreInPlace
  rw [look_bind hprepared]
  simp only [Bool.false_eq_true, if_false]
  rw [look_bind hjournal]
  rw [look_const_bind hnext]

theorem bareRoot_run : restoreInPlace letterRestore letterManifest.toJson false bareRoot =
    (do
      applySnapshot letterRestore letterManifest none 0 (.int 1)
      done (planOf letterManifest false) : Action Root RestorePlan) bareRoot :=
  letter_run rfl rfl rfl (by decide +kernel) (by decide +kernel) rfl rfl

/-- The root after so many effects of the restore. -/
def letterCrash (effects : Nat) : Root :=
  ((applySnapshot letterRestore letterManifest none 0 (.int 1) bareRoot).states[effects]?).getD
    bareRoot

theorem leaves_letterCrash (effects : Nat) :
    Leaves (restoreInPlace letterRestore letterManifest.toJson false) bareRoot
      (letterCrash effects) := by
  have hends : Ends (applySnapshot letterRestore letterManifest none 0 (.int 1)) bareRoot ()
      (applySnapshot letterRestore letterManifest none 0 (.int 1) bareRoot).final :=
    ⟨by decide +kernel, rfl⟩
  unfold letterCrash
  cases hstate : (applySnapshot letterRestore letterManifest none 0 (.int 1)
      bareRoot).states[effects]? with
  | none => exact .inl rfl
  | some crash =>
      exact Leaves.congr bareRoot_run.symm
        (.inr (.inl (mem_states_first (List.mem_of_getElem? hstate) hends)))

theorem onto_bareRoot : Onto letterRestore letterManifest.toJson letterManifest bareRoot := by
  refine ⟨letter_verified, by decide +kernel, by decide +kernel, ?_, by decide +kernel, ?_⟩
  · intro path node hnode parent hparent
    unfold bareRoot at hnode ⊢
    simp only at hnode ⊢
    split at hnode
    · rename_i hpath
      rcases hpath with rfl | rfl
      · exact nomatch hparent
      · have hsame : parents [".silicon", "snapshots"] = [[".silicon"]] := rfl
        rw [hsame, List.mem_singleton] at hparent
        rw [hparent]
        rfl
    · cases hnode
  · exact fun _ hnoted => nomatch hnoted

theorem completes_bareRoot :
    Completes letterRestore letterManifest.toJson letterManifest bareRoot bareRoot := by
  have hends : Ends (restoreInPlace letterRestore letterManifest.toJson false) bareRoot
      (planOf letterManifest false)
        (applySnapshot letterRestore letterManifest none 0 (.int 1) bareRoot).final := by
    apply Ends.congr bareRoot_run.symm
    exact ends_bind.mpr ⟨(), _, ⟨by decide +kernel, rfl⟩, ends_done.mpr ⟨rfl, rfl⟩⟩
  rcases onto_bareRoot.untouched hends with ⟨huntouched, hleftovers⟩
  refine ⟨_, _, hends, ?_, fun _ hmem => (nomatch hmem), huntouched, hleftovers⟩
  intro entry hentry
  cases List.mem_singleton.mp hentry
  exact ⟨[97], by decide +kernel, by decide +kernel⟩

/-- After the copy has begun, what it has left is refused. -/
theorem partial_temporary :
    ¬ ∀ restore snapshot manifest before crash now, Onto restore snapshot manifest before →
      isAboveZero restore.now = true → Completes restore snapshot manifest before before →
        Leaves (restoreInPlace restore snapshot false) before crash →
          Completes { restore with now := now } snapshot manifest before crash := by
  intro hclaim
  rcases hclaim letterRestore letterManifest.toJson letterManifest bareRoot (letterCrash 3)
    (.int 2) onto_bareRoot (by decide +kernel) completes_bareRoot (leaves_letterCrash 3) with
      ⟨plan, last, hends, -⟩
  have hagain : restoreInPlace { letterRestore with now := .int 2 } letterManifest.toJson false
      (letterCrash 3) = (do
        applySnapshot { letterRestore with now := .int 2 } letterManifest none 0 (.int 1)
        done (planOf letterManifest false) : Action Root RestorePlan) (letterCrash 3) :=
    letter_run rfl rfl rfl (by decide +kernel) (by decide +kernel)
      (show readRestoreJournal (letterCrash 3) = .ok
        (some (applyingJournal letterRestore (planOf letterManifest false) 1 (.int 1) 0)) from rfl)
      (resumeAt_applying (by decide +kernel) (by decide +kernel) (by decide +kernel)
        (by decide +kernel))
  rcases ends_bind.mp (hends.congr hagain) with ⟨_, _, ⟨hok, -⟩, -⟩
  have hrefused : (applySnapshot { letterRestore with now := .int 2 } letterManifest none 0
      (.int 1) (letterCrash 3)).result =
        .error "Refusing to replace an unknown restore temporary" := by
    decide +kernel
  rw [hrefused] at hok
  cases hok

/-- After the copy is done, the restore goes on. -/
theorem resumes_after_copy : Completes { letterRestore with now := .int 2 } letterManifest.toJson
    letterManifest bareRoot (letterCrash 4) := by
  apply (resume_law onto_bareRoot (by decide +kernel) completes_bareRoot (leaves_letterCrash 4)
    (.int 2)).mpr
  refine ⟨by decide +kernel, ?_⟩
  intro entry hentry part mode hfile
  cases List.mem_singleton.mp hentry
  have hcopied : (letterCrash 4).disk (letterManifest.temporary letterFile) =
      some (.file [97] 384) := by
    decide +kernel
  cases hcopied.symm.trans hfile
  rfl

end Backup
end Stemcell
