import Stemcell.Interface.InboxDurability

/-!
# The anchor of the inbox cursor

A commit stores the end of a record with the identity of its file and a digest of the last bytes
before it.  When a process meets a file that it is not scanning already, it goes on at the stored
offset if the file has the stored identity or the digest fits, and starts over otherwise.

Main results:

- Theorem `commit_committed`: what a commit stores.
- Theorem `anchor_law_iff`: consumption resumes behind the committed bytes, never behind others under
  a new identity, and restarts otherwise, exactly if a file of the stored identity that is long
  enough starts with the committed bytes.
- Theorem `rewritten_in_place`: a file rewritten in place, of which the beginning is passed over.
-/

namespace Stemcell
namespace Interface

open Lib

/-! ## Committed cursors -/

/-- The cursor stored for a record. -/
def InboxRecord.cursor (record : InboxRecord) : Cursor where
  path := record.path
  fileId := record.fileId
  offset := record.endOffset
  anchorStart := record.anchorStart
  anchorSha256 := record.anchorSha256

/-- The cursor was stored for a complete line of a file. -/
def CommittedIn (py : Python) (old : InboxFile) (cursor : Cursor) : Prop :=
  ∃ start line, start ≤ old.content.length ∧ line <+: old.content.drop start ∧ line ≠ [] ∧
    cursor = (makeRecord py old.path old.fileId start line).cursor

/-- The process is not scanning the file, so that it consults the cursor. -/
def Consults (scan : Option Scan) (file : InboxFile) : Prop :=
  ∀ s, scan = some s → s.path ≠ file.path ∨ s.fileId ≠ file.fileId ∨
    file.content.length < s.offset

/-- The bytes under the anchor of a cursor. -/
def anchored (cursor : Cursor) (content : List UInt8) : List UInt8 :=
  (content.drop cursor.anchorStart).take (cursor.offset - cursor.anchorStart)

/-! ## The law and its condition -/

/-- The file has another identity than the stored one. -/
def Changed (cursor : Cursor) (file : InboxFile) : Prop :=
  cursor.path ≠ file.path ∨ cursor.fileId ≠ file.fileId

/-- The file starts with the bytes that were committed. -/
def Continues (old : InboxFile) (cursor : Cursor) (file : InboxFile) : Prop :=
  file.content.take cursor.offset = old.content.take cursor.offset

/-- Where the consumption of a file should start. -/
structure AnchorLaw (py : Python) (old : InboxFile) (cursor : Cursor) (scan : Option Scan)
    (file : InboxFile) : Prop where
  resumes : Continues old cursor file → (openScan py cursor scan file).1.offset = cursor.offset
  keeps : Changed cursor file → (openScan py cursor scan file).1.offset = cursor.offset →
    anchored cursor file.content = anchored cursor old.content
  restarts : ¬ Continues old cursor file →
    ¬ (Changed cursor file ∧ (openScan py cursor scan file).1.offset = cursor.offset) →
      (openScan py cursor scan file).1.offset = 0

/-- A file of the stored identity that is long enough starts with the committed bytes. -/
def Trustworthy (old : InboxFile) (cursor : Cursor) (file : InboxFile) : Prop :=
  ¬ Changed cursor file → cursor.offset ≤ file.content.length → Continues old cursor file

section Law

variable {py : Python} {old file : InboxFile} {cursor stored : Cursor} {scan : Option Scan}

/-- What is committed is anchored in the file that it was committed for. -/
theorem CommittedIn.anchored (h : CommittedIn py old cursor) : Anchored py cursor old.content := by
  rcases h with ⟨start, line, hstart, hline, hne, rfl⟩
  exact anchored_makeRecord hne hstart hline

/-- A commit stores the cursor of its record, or leaves the one that is there. -/
theorem commit_committed {a b : ℕ} {records : List InboxRecord} {record : InboxRecord}
    (hrecords : RecordsBetween py old a b records) (ha : a ≤ old.content.length)
    (hrecord : record ∈ records) :
    commitInboxRecord stored record = stored ∨
      CommittedIn py old (commitInboxRecord stored record) := by
  have hcommitted : CommittedIn py old record.cursor := by
    induction records generalizing a with
    | nil => cases hrecord
    | cons first rest ih =>
        rcases hrecords.uncons with ⟨line, hne, hline, hfirst, hone, hrest⟩
        rcases List.mem_cons.mp hrecord with heq | hlater
        · refine ⟨a, line, ha, hline, hne, ?_⟩
          rw [heq, hfirst]
        · exact ih hrest (hone.le_length ha) hlater
  have hsaved : saveInboxConsumer record.path record.fileId record.endOffset record.anchorStart
      record.anchorSha256 = record.cursor :=
    hcommitted.anchored.normalize
  unfold commitInboxRecord
  by_cases hempty : record.path = "" ∨ record.fileId = "" ∨ record.endOffset = 0
  · rw [if_pos hempty]
    exact .inl rfl
  · rw [if_neg hempty]
    dsimp only
    by_cases hpast : (loadInboxConsumer stored).path = record.path ∧
        (loadInboxConsumer stored).fileId = record.fileId ∧
          record.endOffset ≤ (loadInboxConsumer stored).offset
    · rw [if_pos hpast]
      exact .inl rfl
    · rw [if_neg hpast, hsaved]
      exact .inr hcommitted

/-- A process that consults the cursor starts at its offset or at the beginning. -/
theorem openScan_offset (hconsults : Consults scan file) (hanchored : Anchored py cursor old.content) :
    (openScan py cursor scan file).1.offset =
      if cursorContinuesFile py cursor file then cursor.offset else 0 := by
  have hload : loadInboxConsumer cursor = cursor := hanchored.normalize
  have hopened : (openScan py cursor scan file).1.offset =
      (if cursorContinuesFile py (loadInboxConsumer cursor) file then
        (loadInboxConsumer cursor).offset else 0) := by
    cases scan with
    | none =>
        unfold openScan
        dsimp only
        by_cases hcontinues : cursorContinuesFile py (loadInboxConsumer cursor) file = true
        · rw [if_pos hcontinues, if_pos hcontinues]
        · rw [if_neg hcontinues, if_neg hcontinues]
    | some s =>
        have hfresh : (decide (s.path ≠ file.path) || decide (s.fileId ≠ file.fileId) ||
            decide (file.content.length < s.offset)) = true := by
          simp only [Bool.or_eq_true, decide_eq_true_eq]
          rcases hconsults s rfl with hpath | hfile | hlength
          · exact .inl (.inl hpath)
          · exact .inl (.inr hfile)
          · exact .inr hlength
        unfold openScan
        dsimp only
        rw [hfresh]
        dsimp only
        by_cases hcontinues : cursorContinuesFile py (loadInboxConsumer cursor) file = true
        · rw [if_pos hcontinues, if_pos hcontinues]
        · rw [if_neg hcontinues, if_neg hcontinues]
  rw [hopened, hload]

/-- When a cursor is accepted: by its identity, or by its digest. -/
theorem cursorContinues_iff (hanchored : Anchored py cursor old.content) :
    cursorContinuesFile py cursor file = true ↔
      cursor.offset ≤ file.content.length ∧
        (¬ Changed cursor file ∨
          py.sha256 (anchored cursor file.content) = py.sha256 (anchored cursor old.content)) := by
  have hlt := hanchored.start_lt
  have hshort := hanchored.short
  have hdigest : cursor.anchorSha256 = py.sha256 (anchored cursor old.content) := hanchored.digest
  have hnonempty : cursor.anchorSha256 ≠ "" := by
    intro hempty
    have hlength := py.sha256_length (anchored cursor old.content)
    rw [← hdigest, hempty] at hlength
    simp at hlength
  unfold cursorContinuesFile Changed
  by_cases hsize : file.content.length < cursor.offset
  · rw [if_pos hsize]
    constructor
    · intro hfalse
      cases hfalse
    · intro hle
      omega
  rw [if_neg hsize, not_or, not_not, not_not]
  have hle : cursor.offset ≤ file.content.length := Nat.not_lt.mp hsize
  by_cases hsame : cursor.path = file.path ∧ cursor.fileId = file.fileId
  · rw [if_pos hsame]
    exact ⟨fun _ => ⟨hle, .inl hsame⟩, fun _ => rfl⟩
  · rw [if_neg hsame, if_neg (by rw [not_or, not_or]; exact ⟨hnonempty, by omega, by omega⟩)]
    rw [Bool.and_eq_true, decide_eq_true_eq, decide_eq_true_eq, hdigest]
    constructor
    · intro hfits
      exact ⟨hle, .inr hfits.2⟩
    · rintro ⟨-, hidentity | hfits⟩
      · exact absurd hidentity hsame
      · refine ⟨?_, hfits⟩
        rw [List.length_take, List.length_drop]
        omega

/-- The bytes under the anchor are among the committed ones. -/
theorem anchored_of_continues (hanchored : Anchored py cursor old.content)
    (h : Continues old cursor file) :
    cursor.offset ≤ file.content.length ∧
      anchored cursor file.content = anchored cursor old.content := by
  have hle := hanchored.offset_le
  have hlength := congrArg List.length h
  rw [List.length_take, List.length_take] at hlength
  refine ⟨by omega, ?_⟩
  have hdrop (content : List UInt8) :
      anchored cursor content = (content.take cursor.offset).drop cursor.anchorStart := by
    rw [List.drop_take]
    rfl
  rw [hdrop, hdrop, h]

/-- For a committed cursor and a file that the process is not scanning, where SHA-256 tells the
bytes under the anchor from the committed ones: the law holds exactly if the identity can be
trusted. -/
theorem anchor_law_iff (hcommitted : CommittedIn py old cursor) (hconsults : Consults scan file)
    (hcollision : py.sha256 (anchored cursor file.content) = py.sha256 (anchored cursor old.content) →
      anchored cursor file.content = anchored cursor old.content) :
    AnchorLaw py old cursor scan file ↔ Trustworthy old cursor file := by
  have hanchored := hcommitted.anchored
  have hpositive := hanchored.start_lt
  have hopen := openScan_offset hconsults hanchored
  have haccepts : cursorContinuesFile py cursor file = true ↔ _ := cursorContinues_iff hanchored
  have hkept : (openScan py cursor scan file).1.offset = cursor.offset ↔
      cursorContinuesFile py cursor file = true := by
    rw [hopen]
    by_cases hcontinues : cursorContinuesFile py cursor file = true
    · rw [if_pos hcontinues]
      exact ⟨fun _ => hcontinues, fun _ => rfl⟩
    · rw [if_neg hcontinues]
      constructor
      · intro hzero
        omega
      · intro htrue
        exact absurd htrue hcontinues
  constructor
  · intro hlaw hsame hle
    by_contra hcontinues
    have hzero := hlaw.restarts hcontinues (fun hchanged => hsame hchanged.1)
    have hoffset := hkept.mpr (haccepts.mpr ⟨hle, .inl hsame⟩)
    omega
  · intro htrust
    constructor
    · intro hcontinues
      rcases anchored_of_continues hanchored hcontinues with ⟨hle, hbytes⟩
      apply hkept.mpr
      apply haccepts.mpr
      exact ⟨hle, .inr (by rw [hbytes])⟩
    · intro hchanged hoffset
      rcases haccepts.mp (hkept.mp hoffset) with ⟨-, hsame | hfits⟩
      · exact absurd hchanged hsame
      · exact hcollision hfits
    · intro hcontinues hnot
      by_cases haccepted : cursorContinuesFile py cursor file = true
      · exfalso
        rcases haccepts.mp haccepted with ⟨hle, -⟩
        by_cases hchanged : Changed cursor file
        · exact hnot ⟨hchanged, hkept.mpr haccepted⟩
        · exact hcontinues (htrust hchanged hle)
      · rw [hopen, if_neg haccepted]

/-- The inbox under a new inode, grown by a few bytes. -/
theorem anchor_law_new_inode :
    AnchorLaw linePython ⟨"/inbox.jsonl", "1:2", textLine⟩
      (makeRecord linePython "/inbox.jsonl" "1:2" 0 textLine).cursor none
      ⟨"/inbox.jsonl", "1:3", textLine ++ [123]⟩ := by
  have hcommitted : CommittedIn linePython ⟨"/inbox.jsonl", "1:2", textLine⟩
      (makeRecord linePython "/inbox.jsonl" "1:2" 0 textLine).cursor :=
    ⟨0, textLine, Nat.zero_le _, List.prefix_rfl, by decide, rfl⟩
  apply (anchor_law_iff hcommitted _ _).mpr
  · intro hsame
    exact absurd (.inr (by decide +kernel)) hsame
  · intro s hs
    cases hs
  · intro _
    decide +kernel

/-- The inbox is rewritten in place with other bytes and grows past the stored offset: consumption
goes on there, and not at the beginning. -/
theorem rewritten_in_place :
    ∃ cursor : Cursor, CommittedIn linePython ⟨"/inbox.jsonl", "1:2", textLine⟩ cursor ∧
      (openScan linePython cursor none
        ⟨"/inbox.jsonl", "1:2", List.replicate 50 10⟩).1.offset = 43 ∧
      ¬ AnchorLaw linePython ⟨"/inbox.jsonl", "1:2", textLine⟩ cursor none
        ⟨"/inbox.jsonl", "1:2", List.replicate 50 10⟩ := by
  refine ⟨(makeRecord linePython "/inbox.jsonl" "1:2" 0 textLine).cursor,
    ⟨0, textLine, Nat.zero_le _, List.prefix_rfl, by decide, rfl⟩, by decide +kernel, ?_⟩
  intro hlaw
  have hzero := hlaw.restarts (by unfold Continues; decide +kernel) (by
    rintro ⟨hpath | hfile, -⟩
    · exact hpath rfl
    · exact hfile rfl)
  revert hzero
  decide +kernel

end Law

end Interface
end Stemcell
