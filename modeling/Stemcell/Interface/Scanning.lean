import Stemcell.Interface.InboxDurability

/-!
# Bounded scans of a growing inbox

The daemon appends to the inbox in pieces that end anywhere.  Each scan goes on where the last one
stopped, returns a bounded number of complete lines and holds back a line that is still being
written.  The records returned may be committed in between.

Main results:

- Theorem `scan_law`: at all times the records returned are the first complete lines of the file,
  with their end offsets, and all of them once a scan that could return records returned none.
- Theorem `scan_progress`: a scan returns a record where there is one to return.
-/

namespace Stemcell
namespace Interface

open Lib

/-! ## Runs -/

/-- `_read_new_inbox_records(path, max_records=…)` on a file that exists. -/
def readNewInboxRecordsUpTo (py : Python) (maxRecords : ℕ) (stored : Cursor) (scan : Option Scan)
    (file : InboxFile) : List InboxRecord × Scan × Cursor :=
  let opened := openScan py stored scan file
  let read := readRecords py file maxRecords opened.1.offset 0
  (read.1, { opened.1 with offset := read.2 }, opened.2)

/-- The scan of the listener is the one with the default bound. -/
theorem readNewInboxRecords_eq (py : Python) (stored : Cursor) (scan : Option Scan)
    (file : InboxFile) :
    readNewInboxRecords py stored scan file =
      readNewInboxRecordsUpTo py maxScanRecords stored scan file :=
  rfl

/-- The file, the stored cursor, the scan state, the records returned so far, and whether the last
scan could return records and returned none, with nothing appended since. -/
structure ScanWorld where
  file : Option InboxFile
  cursor : Cursor
  scan : Option Scan
  records : List InboxRecord
  idle : Bool

inductive ScanStep
  | create (path fileId : String)
  | append (bytes : List UInt8)
  | scan (maxRecords : ℕ)
  | commit (record : InboxRecord)

def ScanWorld.initial : ScanWorld where
  file := none
  cursor := .empty
  scan := none
  records := []
  idle := false

inductive ScanWorld.Step (py : Python) : ScanWorld → ScanStep → ScanWorld → Prop
  | create {w : ScanWorld} (path fileId : String) (h : w.file = none) :
      Step py w (.create path fileId) { w with file := some ⟨path, fileId, []⟩, idle := false }
  | append {w : ScanWorld} {file : InboxFile} (bytes : List UInt8) (h : w.file = some file) :
      Step py w (.append bytes)
        { w with file := some { file with content := file.content ++ bytes }, idle := false }
  | absent {w : ScanWorld} (maxRecords : ℕ) (h : w.file = none) :
      Step py w (.scan maxRecords) w
  | scan {w : ScanWorld} {file : InboxFile} (maxRecords : ℕ) (h : w.file = some file) :
      Step py w (.scan maxRecords)
        { w with
          cursor := (readNewInboxRecordsUpTo py maxRecords w.cursor w.scan file).2.2
          scan := some (readNewInboxRecordsUpTo py maxRecords w.cursor w.scan file).2.1
          records := w.records ++ (readNewInboxRecordsUpTo py maxRecords w.cursor w.scan file).1
          idle := decide (0 < maxRecords) &&
            (readNewInboxRecordsUpTo py maxRecords w.cursor w.scan file).1.isEmpty }
  | commit {w : ScanWorld} {record : InboxRecord} (h : record ∈ w.records) :
      Step py w (.commit record) { w with cursor := commitInboxRecord w.cursor record }

def scans (py : Python) : TransitionSystem ScanWorld ScanStep where
  init w := w = .initial
  step := ScanWorld.Step py

/-! ## The law -/

/-- The records returned are those of the first complete lines of the file, and those of all its
complete lines once a scan found none. -/
def ScanLaw (py : Python) (w : ScanWorld) : Prop :=
  match w.file with
  | none => w.records = []
  | some file =>
      (∃ count, w.records = (recordsFrom py file 0).take count) ∧
        (w.idle = true → w.records = recordsFrom py file 0)

/-- What the scan state knows: it stands in the file behind the records returned. -/
structure Scanned (py : Python) (w : ScanWorld) (file : InboxFile) (scan : Scan) : Prop where
  path : scan.path = file.path
  fileId : scan.fileId = file.fileId
  inside : scan.offset ≤ file.content.length
  records : RecordsBetween py file 0 scan.offset w.records
  idle : w.idle = true → recordsFrom py file scan.offset = []

/-- The invariant of a run: before the first scan of the file nothing is returned. -/
def ScanInv (py : Python) (w : ScanWorld) : Prop :=
  match w.scan with
  | none => w.records = [] ∧ w.cursor = .empty ∧ w.idle = false
  | some scan => ∃ file, w.file = some file ∧ Scanned py w file scan

section Runs

variable {py : Python} {w w' : ScanWorld} {e : ScanStep} {file : InboxFile} {scan : Scan}
variable {pos : ℕ}

/-- A scan returns a record where there is one to return. -/
theorem scan_progress {maxRecords : ℕ} (hmax : 0 < maxRecords)
    (hnone : (readRecords py file maxRecords pos 0).1 = []) : recordsFrom py file pos = [] := by
  have hlines : lines isNewline (file.content.drop pos) = [] := by
    cases maxRecords with
    | zero => cases hmax
    | succ budget =>
        have hchunk : ¬ inboxReadChunkBytes ≤ 0 := by decide
        rw [readRecords, if_neg hchunk] at hnone
        dsimp only at hnone
        rw [lines_eq]
        by_cases hempty : readline isNewline (file.content.drop pos) = []
        · rw [hempty]
          rfl
        · rw [if_neg hempty] at hnone
          by_cases hopen : terminated isNewline (readline isNewline (file.content.drop pos)) = false
          · rw [hopen, if_neg Bool.false_ne_true]
          · rw [if_neg hopen] at hnone
            cases hnone
  rw [recordsFrom, hlines]
  rfl

/-- The first scan starts at the beginning. -/
theorem openScan_empty (py : Python) (file : InboxFile) :
    (openScan py .empty none file).1 = ⟨file.path, file.fileId, 0⟩ := by
  have hload : (loadInboxConsumer .empty).offset = 0 := by
    rw [loadInboxConsumer, normalizeAnchor_offset]
    rfl
  unfold openScan
  dsimp only
  rw [hload]
  by_cases hcontinues : cursorContinuesFile py (loadInboxConsumer .empty) file = true
  · rw [if_pos hcontinues]
  · rw [if_neg hcontinues]

/-- A later scan goes on where the last one stopped. -/
theorem Scanned.openScan (h : Scanned py w file scan) (stored : Cursor) :
    Interface.openScan py stored (some scan) file = (scan, stored) := by
  have hinside := h.inside
  unfold Interface.openScan
  dsimp only
  rw [h.path, h.fileId]
  simp only [ne_eq, not_true_eq_false, decide_false, Bool.or_self, Bool.false_or]
  rw [decide_eq_false (by omega)]

/-- A scan that starts behind the records returned returns the next ones. -/
theorem scanned_scan {maxRecords : ℕ} {start : Scan} (hpath : start.path = file.path)
    (hfileId : start.fileId = file.fileId) (hinside : start.offset ≤ file.content.length)
    (hrecords : RecordsBetween py file 0 start.offset w.records)
    (hnext : w'.records = w.records ++ (readRecords py file maxRecords start.offset 0).1)
    (hidle : w'.idle = (decide (0 < maxRecords) &&
      (readRecords py file maxRecords start.offset 0).1.isEmpty)) :
    Scanned py w' file
      { start with offset := (readRecords py file maxRecords start.offset 0).2 } := by
  have hread := readRecords_records py file maxRecords start.offset 0
  constructor
  · exact hpath
  · exact hfileId
  · exact hread.le_length hinside
  · rw [hnext]
    exact hrecords.trans hread
  · intro hnone
    rw [hidle, Bool.and_eq_true, decide_eq_true_eq, List.isEmpty_iff] at hnone
    have hrest := scan_progress hnone.1 hnone.2
    have hall := hread.recordsFrom
    rw [hnone.2, List.nil_append] at hall
    rw [← hall]
    exact hrest

theorem ScanInv.step (h : ScanInv py w) (hstep : ScanWorld.Step py w e w') : ScanInv py w' := by
  unfold ScanInv at h
  cases hstep with
  | create path fileId hfile =>
      unfold ScanInv
      dsimp only
      cases hscan : w.scan with
      | none =>
          rw [hscan] at h
          exact ⟨h.1, h.2.1, rfl⟩
      | some scan =>
          rw [hscan, hfile] at h
          rcases h with ⟨file, hnone, -⟩
          cases hnone
  | @append file bytes hfile =>
      unfold ScanInv
      dsimp only
      cases hscan : w.scan with
      | none =>
          rw [hscan] at h
          exact ⟨h.1, h.2.1, rfl⟩
      | some scan =>
          rw [hscan, hfile] at h
          rcases h with ⟨file', hsome, hscanned⟩
          cases hsome
          refine ⟨_, rfl, hscanned.path, hscanned.fileId, ?_, ?_, ?_⟩
          · dsimp only
            rw [List.length_append]
            exact Nat.le_trans hscanned.inside (Nat.le_add_right _ _)
          · exact hscanned.records.append (Nat.zero_le _) bytes
          · intro hidle
            cases hidle
  | absent maxRecords hfile => exact h
  | @scan file maxRecords hfile =>
      unfold ScanInv readNewInboxRecordsUpTo
      dsimp only
      refine ⟨file, hfile, ?_⟩
      cases hscan : w.scan with
      | none =>
          rw [hscan] at h
          rcases h with ⟨hrecords, hcursor, -⟩
          rw [hcursor, openScan_empty]
          apply @scanned_scan py w _ file maxRecords ⟨file.path, file.fileId, 0⟩ rfl rfl
            (Nat.zero_le _)
          · rw [hrecords]
            exact recordsBetween_nil py file 0
          · rfl
          · rfl
      | some scan =>
          rw [hscan, hfile] at h
          rcases h with ⟨file', hsome, hscanned⟩
          cases hsome
          rw [hscanned.openScan]
          exact scanned_scan hscanned.path hscanned.fileId hscanned.inside hscanned.records rfl rfl
  | @commit record hrecord =>
      unfold ScanInv
      dsimp only
      cases hscan : w.scan with
      | none =>
          rw [hscan] at h
          rw [h.1] at hrecord
          cases hrecord
      | some scan =>
          rw [hscan] at h
          rcases h with ⟨file, hfile, hscanned⟩
          exact ⟨file, hfile, hscanned.path, hscanned.fileId, hscanned.inside, hscanned.records,
            hscanned.idle⟩

theorem ScanInv.law (h : ScanInv py w) : ScanLaw py w := by
  unfold ScanInv at h
  unfold ScanLaw
  cases hscan : w.scan with
  | none =>
      rw [hscan] at h
      cases w.file with
      | none => exact h.1
      | some file =>
          refine ⟨⟨0, h.1⟩, ?_⟩
          intro hidle
          rw [h.2.2] at hidle
          cases hidle
  | some scan =>
      rw [hscan] at h
      rcases h with ⟨file, hfile, hscanned⟩
      have hall := hscanned.records.recordsFrom
      rw [hfile]
      dsimp only
      rw [hall]
      constructor
      · refine ⟨w.records.length, ?_⟩
        rw [List.take_left]
      · intro hidle
        rw [hscanned.idle hidle, List.append_nil]

/-- In every run of appends, scans and commits, the records returned are the first complete lines of
the file, and all of them once a scan that could return records returned none. -/
theorem scan_law (h : (scans py).Reachable w) : ScanLaw py w := by
  have hinv : ScanInv py w := by
    apply h.invariant
    · rintro w rfl
      exact ⟨rfl, rfl, rfl⟩
    · intro w e w' _ hw hstep
      exact hw.step hstep
  exact hinv.law

/-- A line that is appended in two pieces, with a scan behind each. -/
theorem scan_law_two_pieces :
    ∃ w, w.records.map InboxRecord.endOffset = [43] ∧ ScanLaw linePython w := by
  have hinit : (scans linePython).Reachable .initial := .init rfl
  have hcreated := hinit.step (.create "/inbox.jsonl" "1:2" rfl)
  have hfirst := hcreated.step (.append (textLine.take 5) rfl)
  have hheld := hfirst.step (.scan 500 rfl)
  have hsecond := hheld.step (.append (textLine.drop 5) rfl)
  have hscanned := hsecond.step (.scan 500 rfl)
  exact ⟨_, by decide +kernel, scan_law hscanned⟩

end Runs

end Interface
end Stemcell
