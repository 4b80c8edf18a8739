import Stemcell.Interface.Json
import Stemcell.Lib.Lines

/-!
# The inbox reader

The Interface daemon appends one JSON line per frame to the inbox file.  The
reader scans complete lines ahead of their interpretation and keeps a durable
cursor behind them, with a digest of the last committed bytes to recognise the
file under another path or inode.

Main results:

- Theorem `readRecords_records`: a bounded scan returns the next records of the
  file.
- Theorem `cursorContinues_of_anchored`: a cursor anchored in a file is accepted
  for every file that keeps those bytes.
- Theorem `commitInboxRecord_offset`: a commit never moves the cursor back.
-/

namespace Stemcell
namespace Interface

open Lib

def inboxReadChunkBytes : Nat := 4 * 1024 * 1024
def inboxCursorAnchorBytes : Nat := 64 * 1024
def maxScanRecords : Nat := 500
def maxDrainEvents : Nat := 500

/-- The byte that ends an inbox line. -/
def isNewline (byte : UInt8) : Bool :=
  byte = 10

/-- One complete durable inbox line and its commit boundary. -/
structure InboxRecord where
  frame : Json
  path : String
  fileId : String
  endOffset : Nat
  anchorStart : Nat
  anchorSha256 : String

/-- The stored position of the consumer. -/
structure Cursor where
  path : String
  fileId : String
  offset : Nat
  anchorStart : Nat
  anchorSha256 : String
deriving DecidableEq

/-- The position up to which this process has scanned. -/
structure Scan where
  path : String
  fileId : String
  offset : Nat
deriving DecidableEq

/-- The inbox file as `stat` and `read` see it. -/
structure InboxFile where
  path : String
  fileId : String
  content : List UInt8

/-- The position before anything was committed. -/
def Cursor.empty : Cursor where
  path := ""
  fileId := ""
  offset := 0
  anchorStart := 0
  anchorSha256 := ""

/-! ## The stored cursor -/

/-- `re.fullmatch(r"[0-9a-f]{64}", text)`. -/
def isSha256Hex (text : String) : Bool :=
  text.toList.length = 64 && text.toList.all fun c => c ∈ "0123456789abcdef".toList

/-- Drop an anchor that cannot be the digest of the bytes before the offset. -/
def Cursor.normalizeAnchor (cursor : Cursor) : Cursor :=
  if ¬ isSha256Hex cursor.anchorSha256 ∨ cursor.offset ≤ cursor.anchorStart ∨
      inboxCursorAnchorBytes < cursor.offset - cursor.anchorStart then
    { cursor with anchorStart := 0, anchorSha256 := "" }
  else cursor

/-- `_load_inbox_consumer` on the stored record. -/
def loadInboxConsumer (stored : Cursor) : Cursor :=
  stored.normalizeAnchor

/-- `_save_inbox_consumer`: the record that is stored. -/
def saveInboxConsumer (path fileId : String) (offset anchorStart : Nat)
    (anchorSha256 : String) : Cursor :=
  { path := path
    fileId := fileId
    offset := offset
    anchorStart := anchorStart
    anchorSha256 := anchorSha256 : Cursor }.normalizeAnchor

/-- `_inbox_cursor_continues_file`. -/
def cursorContinuesFile (py : Python) (cursor : Cursor) (file : InboxFile) : Bool :=
  if file.content.length < cursor.offset then false
  else if cursor.path = file.path ∧ cursor.fileId = file.fileId then true
  else if cursor.anchorSha256 = "" ∨ cursor.offset ≤ cursor.anchorStart ∨
      inboxCursorAnchorBytes < cursor.offset - cursor.anchorStart then
    false
  else
    let anchor := (file.content.drop cursor.anchorStart).take
      (cursor.offset - cursor.anchorStart)
    anchor.length = cursor.offset - cursor.anchorStart && py.sha256 anchor = cursor.anchorSha256

/-! ## Reading records -/

/-- The frame of a complete line.  A malformed line cannot become valid later. -/
def decodeFrame (py : Python) (line : List UInt8) : Json :=
  match py.loads line with
  | some (.obj fields) => .obj fields
  | _ => .obj [("type", .str "_invalid_inbox_line")]

/-- The record of the line that starts at `start`. -/
def makeRecord (py : Python) (path fileId : String) (start : Nat) (line : List UInt8) :
    InboxRecord where
  frame := decodeFrame py line
  path := path
  fileId := fileId
  endOffset := start + line.length
  anchorStart := max start (start + line.length - inboxCursorAnchorBytes)
  anchorSha256 := py.sha256 (line.drop (line.length - inboxCursorAnchorBytes))

/-- The loop of `_read_new_inbox_records` from byte `pos`: the records and the
position reached.  `budget` counts the records still wanted. -/
def readRecords (py : Python) (file : InboxFile) :
    (budget pos bytesRead : Nat) → List InboxRecord × Nat
  | 0, pos, _ => ([], pos)
  | budget + 1, pos, bytesRead =>
      if inboxReadChunkBytes ≤ bytesRead then ([], pos)
      else
        let line := readline isNewline (file.content.drop pos)
        if line = [] then ([], pos)
        else if terminated isNewline line = false then ([], pos)
        else
          let next := readRecords py file budget (pos + line.length) (bytesRead + line.length)
          (makeRecord py file.path file.fileId pos line :: next.1, next.2)

/-- Where a scan starts: on from the last one, at the cursor, or at the
beginning of another file.  The cursor takes on a new identity of its file. -/
def openScan (py : Python) (stored : Cursor) (scan : Option Scan) (file : InboxFile) :
    Scan × Cursor :=
  let fresh : Bool :=
    match scan with
    | none => true
    | some scan =>
        scan.path ≠ file.path || scan.fileId ≠ file.fileId ||
          file.content.length < scan.offset
  match scan, fresh with
  | some scan, false => (scan, stored)
  | _, _ =>
      let cursor := loadInboxConsumer stored
      if cursorContinuesFile py cursor file then
        let stored :=
          if cursor.path ≠ file.path ∨ cursor.fileId ≠ file.fileId then
            saveInboxConsumer file.path file.fileId cursor.offset cursor.anchorStart
              cursor.anchorSha256
          else stored
        ({ path := file.path, fileId := file.fileId, offset := cursor.offset }, stored)
      else ({ path := file.path, fileId := file.fileId, offset := 0 }, stored)

/-- `_read_new_inbox_records` on a file that exists: the records, the scan state
and the stored cursor. -/
def readNewInboxRecords (py : Python) (stored : Cursor) (scan : Option Scan)
    (file : InboxFile) : List InboxRecord × Scan × Cursor :=
  let opened := openScan py stored scan file
  let read := readRecords py file maxScanRecords opened.1.offset 0
  (read.1, { opened.1 with offset := read.2 }, opened.2)

/-- `_commit_inbox_record`: the stored cursor. -/
def commitInboxRecord (stored : Cursor) (record : InboxRecord) : Cursor :=
  if record.path = "" ∨ record.fileId = "" ∨ record.endOffset = 0 then stored
  else
    let cursor := loadInboxConsumer stored
    if cursor.path = record.path ∧ cursor.fileId = record.fileId ∧
        record.endOffset ≤ cursor.offset then
      stored
    else
      saveInboxConsumer record.path record.fileId record.endOffset record.anchorStart
        record.anchorSha256

/-! ## The in-memory queue -/

/-- `_drain_listener_events`: the batch, what stays to be retried and what stays
queued. -/
def drainListenerEvents (retry queue : List InboxRecord) :
    List InboxRecord × List InboxRecord × List InboxRecord :=
  let retried := retry.take maxDrainEvents
  let room := maxDrainEvents - retried.length
  (retried ++ queue.take room, retry.drop maxDrainEvents, queue.drop room)

/-- `_retry_inbox_batch`: the suffix goes ahead of newer records. -/
def retryInboxBatch (records retry : List InboxRecord) : List InboxRecord :=
  records ++ retry

/-! ## Cursors -/

variable {py : Python} {cursor stored : Cursor} {file : InboxFile}

theorem sha256_isSha256Hex (py : Python) (bytes : List UInt8) :
    isSha256Hex (py.sha256 bytes) = true := by
  simp only [isSha256Hex, py.sha256_length, decide_true, Bool.true_and, List.all_eq_true,
    decide_eq_true_eq]
  exact py.sha256_hex bytes

@[simp]
theorem normalizeAnchor_offset : cursor.normalizeAnchor.offset = cursor.offset := by
  unfold Cursor.normalizeAnchor
  split <;> rfl

@[simp]
theorem normalizeAnchor_path : cursor.normalizeAnchor.path = cursor.path := by
  unfold Cursor.normalizeAnchor
  split <;> rfl

@[simp]
theorem normalizeAnchor_fileId : cursor.normalizeAnchor.fileId = cursor.fileId := by
  unfold Cursor.normalizeAnchor
  split <;> rfl

/-- The anchor of the cursor is the digest of the bytes before its offset. -/
structure Anchored (py : Python) (cursor : Cursor) (content : List UInt8) : Prop where
  start_lt : cursor.anchorStart < cursor.offset
  offset_le : cursor.offset ≤ content.length
  short : cursor.offset - cursor.anchorStart ≤ inboxCursorAnchorBytes
  digest : cursor.anchorSha256 =
    py.sha256 ((content.drop cursor.anchorStart).take (cursor.offset - cursor.anchorStart))

/-- Normalising keeps an anchored cursor. -/
theorem Anchored.normalize {content : List UInt8} (h : Anchored py cursor content) :
    cursor.normalizeAnchor = cursor := by
  have hstart := h.start_lt
  have hshort := h.short
  have hhex : isSha256Hex cursor.anchorSha256 = true := by
    rw [h.digest]
    exact sha256_isSha256Hex py _
  unfold Cursor.normalizeAnchor
  rw [if_neg]
  simp only [hhex, not_true_eq_false, false_or, not_or, not_le, not_lt]
  exact ⟨hstart, hshort⟩

/-- Appending to the file keeps the anchor. -/
theorem Anchored.append {content : List UInt8} (h : Anchored py cursor content)
    (bytes : List UInt8) : Anchored py cursor (content ++ bytes) where
  start_lt := h.start_lt
  offset_le := by
    have hle := h.offset_le
    rw [List.length_append]
    omega
  short := h.short
  digest := by
    have hle := h.offset_le
    have hlt := h.start_lt
    rw [h.digest, List.drop_append_of_le_length (by omega), List.take_append_of_le_length]
    rw [List.length_drop]
    omega

/-- A cursor anchored in the bytes of a file is accepted for it. -/
theorem cursorContinues_of_anchored (h : Anchored py cursor file.content) :
    cursorContinuesFile py cursor file = true := by
  have hstart := h.start_lt
  have hle := h.offset_le
  have hshort := h.short
  have hdigest : cursor.anchorSha256 ≠ "" := by
    intro hempty
    have hlen := py.sha256_length
      ((file.content.drop cursor.anchorStart).take (cursor.offset - cursor.anchorStart))
    rw [← h.digest, hempty] at hlen
    simp at hlen
  unfold cursorContinuesFile
  rw [if_neg (by omega)]
  split
  · rfl
  · rw [if_neg]
    · simp only [Bool.and_eq_true, decide_eq_true_eq]
      refine ⟨?_, h.digest.symm⟩
      rw [List.length_take, List.length_drop]
      omega
    · rintro (hempty | hlt | hlong)
      · exact hdigest hempty
      · omega
      · omega

/-- A commit moves the cursor to the end of the record, unless it is there. -/
theorem commitInboxRecord_offset {record : InboxRecord} (hpath : record.path ≠ "")
    (hfile : record.fileId ≠ "") (hlt : stored.offset < record.endOffset) :
    commitInboxRecord stored record =
      saveInboxConsumer record.path record.fileId record.endOffset record.anchorStart
        record.anchorSha256 := by
  unfold commitInboxRecord
  rw [if_neg]
  · simp only [loadInboxConsumer, normalizeAnchor_offset]
    rw [if_neg]
    rintro ⟨-, -, hle⟩
    omega
  · rintro (h | h | h)
    · exact hpath h
    · exact hfile h
    · omega

/-! ## Records of a file -/

/-- The records of consecutive lines, the first of which starts at `start`. -/
def recordsAt (py : Python) (path fileId : String) :
    Nat → List (List UInt8) → List InboxRecord
  | _, [] => []
  | start, line :: rest =>
      makeRecord py path fileId start line :: recordsAt py path fileId (start + line.length) rest

/-- The complete records of the file from byte `pos` on. -/
def recordsFrom (py : Python) (file : InboxFile) (pos : Nat) : List InboxRecord :=
  recordsAt py file.path file.fileId pos (lines isNewline (file.content.drop pos))

theorem recordsAt_append (py : Python) (path fileId : String) (start : Nat)
    (first rest : List (List UInt8)) :
    recordsAt py path fileId start (first ++ rest) =
      recordsAt py path fileId start first ++
        recordsAt py path fileId (start + first.flatten.length) rest := by
  induction first generalizing start with
  | nil => rfl
  | cons line first ih =>
      simp only [List.cons_append, recordsAt, ih, List.flatten_cons, List.length_append,
        Nat.add_assoc]

/-- These are the complete records of the file from byte `a` to byte `b`. -/
def RecordsBetween (py : Python) (file : InboxFile) (a b : Nat) (records : List InboxRecord) :
    Prop :=
  ∃ first rest, lines isNewline (file.content.drop a) = first ++ rest ∧
    records = recordsAt py file.path file.fileId a first ∧ b = a + first.flatten.length

variable {a b c : Nat} {records more : List InboxRecord} {record : InboxRecord}

theorem recordsBetween_nil (py : Python) (file : InboxFile) (a : Nat) :
    RecordsBetween py file a a [] :=
  ⟨[], lines isNewline (file.content.drop a), rfl, rfl, rfl⟩

/-- One complete line at `a`. -/
theorem recordsBetween_line (py : Python) (file : InboxFile) (a : Nat)
    (h : terminated isNewline (readline isNewline (file.content.drop a)) = true) :
    RecordsBetween py file a (a + (readline isNewline (file.content.drop a)).length)
      [makeRecord py file.path file.fileId a (readline isNewline (file.content.drop a))] := by
  let line := readline isNewline (file.content.drop a)
  refine ⟨[line], lines isNewline ((file.content.drop a).drop line.length), ?_, rfl, ?_⟩
  · rw [lines_eq, if_pos h]
    rfl
  · simp [line]

theorem RecordsBetween.trans (h : RecordsBetween py file a b records)
    (h' : RecordsBetween py file b c more) : RecordsBetween py file a c (records ++ more) := by
  rcases h with ⟨first, rest, hlines, hrecords, hb⟩
  rcases h' with ⟨first', rest', hlines', hmore, hc⟩
  have hrest : lines isNewline (file.content.drop b) = rest := by
    rw [hb, ← List.drop_drop]
    exact lines_drop isNewline hlines
  refine ⟨first ++ first', rest', ?_, ?_, ?_⟩
  · rw [hlines, ← hrest, hlines', List.append_assoc]
  · rw [recordsAt_append, hrecords, hmore, hb]
  · rw [List.flatten_append, List.length_append]
    omega

/-- Appending to the file keeps the records there were. -/
theorem RecordsBetween.append (h : RecordsBetween py file a b records)
    (ha : a ≤ file.content.length) (bytes : List UInt8) :
    RecordsBetween py { file with content := file.content ++ bytes } a b records := by
  rcases h with ⟨first, rest, hlines, hrecords, hb⟩
  rcases lines_append_before isNewline (file.content.drop a) bytes with ⟨tail, htail⟩
  refine ⟨first, rest ++ tail, ?_, hrecords, hb⟩
  simp only [List.drop_append_of_le_length ha]
  rw [← htail, hlines, List.append_assoc]

theorem RecordsBetween.le (h : RecordsBetween py file a b records) : a ≤ b := by
  rcases h with ⟨first, rest, -, -, hb⟩
  omega

theorem RecordsBetween.le_length (h : RecordsBetween py file a b records)
    (ha : a ≤ file.content.length) : b ≤ file.content.length := by
  rcases h with ⟨first, rest, hlines, -, hb⟩
  have hpre := (lines_flatten_before isNewline (file.content.drop a)).length_le
  rw [hlines, List.flatten_append, List.length_append, List.length_drop] at hpre
  omega

/-- The first record of a stretch starts where the stretch starts. -/
theorem RecordsBetween.uncons (h : RecordsBetween py file a b (record :: records)) :
    ∃ line, line ≠ [] ∧ line <+: file.content.drop a ∧
      record = makeRecord py file.path file.fileId a line ∧
      RecordsBetween py file a record.endOffset [record] ∧
      RecordsBetween py file record.endOffset b records := by
  rcases h with ⟨first, rest, hlines, hrecords, hb⟩
  cases first with
  | nil => simp [recordsAt] at hrecords
  | cons line first =>
      rcases List.cons.inj hrecords with ⟨hrecord, htail⟩
      have hmem : line ∈ lines isNewline (file.content.drop a) := by simp [hlines]
      have hline : line ≠ [] :=
        ne_nil_of_terminated isNewline (terminated_of_mem_lines isNewline hmem)
      have hpre : line <+: file.content.drop a := by
        have hflat := lines_flatten_before isNewline (file.content.drop a)
        rw [hlines, List.cons_append, List.flatten_cons] at hflat
        exact (List.prefix_append line _).trans hflat
      have hend : record.endOffset = a + line.length := by rw [hrecord]; rfl
      have hone : lines isNewline (file.content.drop a) = [line] ++ (first ++ rest) := hlines
      refine ⟨line, hline, hpre, hrecord, ⟨[line], first ++ rest, hone, ?_, ?_⟩,
        ⟨first, rest, ?_, ?_, ?_⟩⟩
      · rw [hrecord]
        rfl
      · rw [hend]
        simp
      · have hdrop := lines_drop isNewline hone
        rw [List.drop_drop] at hdrop
        rw [hend]
        simpa using hdrop
      · rw [htail, hend]
      · rw [hb, hend, List.flatten_cons, List.length_append, Nat.add_assoc]

/-- Records of a stretch end in it. -/
theorem RecordsBetween.mem (h : RecordsBetween py file a b records) :
    ∀ record ∈ records, a < record.endOffset ∧ record.endOffset ≤ b := by
  induction records generalizing a with
  | nil => simp
  | cons first rest ih =>
      rcases h.uncons with ⟨line, hline, -, hfirst, hone, hrest⟩
      have hpositive := List.length_pos_iff.mpr hline
      have hend : first.endOffset = a + line.length := by rw [hfirst]; rfl
      have hle := hrest.le
      intro record hmem
      rcases List.mem_cons.mp hmem with heq | hmem
      · rw [heq]
        omega
      · have hlater := ih hrest record hmem
        omega

/-- A stretch, then the rest of the file. -/
theorem RecordsBetween.recordsFrom (h : RecordsBetween py file a b records) :
    recordsFrom py file a = records ++ recordsFrom py file b := by
  rcases h with ⟨first, rest, hlines, hrecords, hb⟩
  have hrest : lines isNewline (file.content.drop b) = rest := by
    rw [hb, ← List.drop_drop]
    exact lines_drop isNewline hlines
  unfold Interface.recordsFrom
  rw [hrest, hlines, recordsAt_append, hrecords, hb]

/-- All records of the file from `a` on make up a stretch. -/
theorem recordsBetween_all (py : Python) (file : InboxFile) (a : Nat) :
    ∃ b, RecordsBetween py file a b (recordsFrom py file a) :=
  ⟨_, lines isNewline (file.content.drop a), [], by simp, rfl, rfl⟩

theorem lt_endOffset_of_mem (h : record ∈ recordsFrom py file a) : a < record.endOffset := by
  rcases recordsBetween_all py file a with ⟨b, hall⟩
  exact (hall.mem record h).1

/-- Under another path or inode the same lines end at the same offsets. -/
theorem RecordsBetween.relabel (h : RecordsBetween py file a b records) (path fileId : String) :
    ∃ records', RecordsBetween py { file with path := path, fileId := fileId } a b records' ∧
      records'.map InboxRecord.endOffset = records.map InboxRecord.endOffset := by
  rcases h with ⟨first, rest, hlines, hrecords, hb⟩
  refine ⟨recordsAt py path fileId a first, ⟨first, rest, hlines, rfl, hb⟩, ?_⟩
  rw [hrecords]
  clear hlines hrecords hb
  induction first generalizing a with
  | nil => rfl
  | cons line first ih => simp [recordsAt, makeRecord, ih]

/-- A bounded scan returns the next records of the file. -/
theorem readRecords_records (py : Python) (file : InboxFile) (budget pos bytesRead : Nat) :
    RecordsBetween py file pos (readRecords py file budget pos bytesRead).2
      (readRecords py file budget pos bytesRead).1 := by
  induction budget generalizing pos bytesRead with
  | zero => exact recordsBetween_nil py file pos
  | succ budget ih =>
      unfold readRecords
      split
      · exact recordsBetween_nil py file pos
      · simp only
        split
        · exact recordsBetween_nil py file pos
        · split
          · exact recordsBetween_nil py file pos
          · rename_i hterminated
            have hline : terminated isNewline
                (readline isNewline (file.content.drop pos)) = true := by
              simpa using hterminated
            exact (recordsBetween_line py file pos hline).trans (ih _ _)

/-- The cursor a record is committed to is anchored in its line. -/
theorem anchored_makeRecord {line : List UInt8} (hline : line ≠ [])
    (ha : a ≤ file.content.length) (hpre : line <+: file.content.drop a) :
    let record := makeRecord py file.path file.fileId a line
    Anchored py
      { path := record.path
        fileId := record.fileId
        offset := record.endOffset
        anchorStart := record.anchorStart
        anchorSha256 := record.anchorSha256 } file.content := by
  have hpositive := List.length_pos_iff.mpr hline
  have hlen := hpre.length_le
  rw [List.length_drop] at hlen
  have hanchor : 0 < inboxCursorAnchorBytes := by decide
  refine ⟨?_, ?_, ?_, ?_⟩
  · simp only [makeRecord]
    omega
  · simp only [makeRecord]
    omega
  · simp only [makeRecord]
    omega
  · simp only [makeRecord]
    rcases hpre with ⟨tail, htail⟩
    -- The anchored bytes are the last bytes of the line.
    have hdrop : file.content.drop (max a (a + line.length - inboxCursorAnchorBytes)) =
        line.drop (line.length - inboxCursorAnchorBytes) ++ tail := by
      have hsplit : max a (a + line.length - inboxCursorAnchorBytes) =
          a + (line.length - inboxCursorAnchorBytes) := by omega
      rw [hsplit, ← List.drop_drop, ← htail, List.drop_append_of_le_length (by omega)]
    have hcount : a + line.length - max a (a + line.length - inboxCursorAnchorBytes) =
        (line.drop (line.length - inboxCursorAnchorBytes)).length := by
      rw [List.length_drop]
      omega
    rw [hdrop, hcount, List.take_left]

end Interface
end Stemcell
