import Stemcell.Interface.Inbox
import Stemcell.Lib.Transition

/-!
# Durable ingestion of the inbox

Three parties work on the inbox: the daemon appends to the file, the listener
thread scans complete lines ahead and queues them, and the main loop takes
batches, interprets them record by record and commits.  A record whose handoff
is deferred sends the rest of its batch back to be retried; a restart forgets
everything but the file and the stored cursor.  This module runs the three in
any order.

Main results:

- Theorem `durable_step`: one step keeps the records in memory lined up with
  the file.
- Theorem `held_eq_filter`: the records in memory are exactly the scanned and
  uncommitted ones, in file order.
- Theorem `inbox_durable`: the law of durable ingestion.
-/

namespace Stemcell
namespace Interface

open Lib

/-! ## Handling one record -/

/-- How one event of a record ends.  `failed` is an exception that is logged and
passed over, `deferred` one that leaves the event to be replayed. -/
inductive EventOutcome
  | handed
  | skipped
  | deferred
  | failed
deriving DecidableEq

/-- How a record ends: whether its frame was taken apart without an exception,
and the outcomes of the events that were processed. -/
structure RecordResult where
  opened : Bool
  events : List EventOutcome
deriving DecidableEq

/-- `retry_record` after the loop over the events of a record. -/
def RecordResult.retryRecord (result : RecordResult) : Bool :=
  result.opened && result.events.any fun outcome => outcome = .deferred

/-- The record was interpreted without an exception. -/
def RecordResult.interpreted (result : RecordResult) : Bool :=
  result.opened && result.events.all fun outcome => outcome = .handed || outcome = .skipped

/-! ## Runs -/

/-- The file, the stored cursor, the memory of the process and the records
handled so far, by their end offsets. -/
structure InboxWorld where
  file : InboxFile
  cursor : Cursor
  scan : Option Scan
  reading : List InboxRecord
  queue : List InboxRecord
  retry : List InboxRecord
  batch : List InboxRecord
  verdict : Option RecordResult
  handled : List (Nat × RecordResult)

/-- A step of one of the three parties, or a restart of the process. -/
inductive InboxStep
  | append (bytes : List UInt8)
  | scan
  | put
  | drain
  | handle (result : RecordResult)
  | settle
  | restart (path fileId : String)

/-- Before the first scan of a first run. -/
def InboxWorld.initial (file : InboxFile) : InboxWorld where
  file := file
  cursor := .empty
  scan := none
  reading := []
  queue := []
  retry := []
  batch := []
  verdict := none
  handled := []

/-- One step.  The listener queues what it has read before it reads again, and
the main loop settles a batch before it takes another. -/
def InboxWorld.next (py : Python) (w : InboxWorld) : InboxStep → Option InboxWorld
  | .append bytes => some { w with file := { w.file with content := w.file.content ++ bytes } }
  | .scan =>
      if w.reading ≠ [] then none
      else
        let read := readNewInboxRecords py w.cursor w.scan w.file
        some { w with reading := read.1, scan := some read.2.1, cursor := read.2.2 }
  | .put =>
      match w.reading with
      | [] => none
      | record :: rest => some { w with reading := rest, queue := w.queue ++ [record] }
  | .drain =>
      match w.batch with
      | _ :: _ => none
      | [] =>
          let drained := drainListenerEvents w.retry w.queue
          some { w with batch := drained.1, retry := drained.2.1, queue := drained.2.2 }
  | .handle result =>
      match w.batch, w.verdict with
      | record :: _, none =>
          some
            { w with
              verdict := some result
              handled := w.handled ++ [(record.endOffset, result)] }
      | _, _ => none
  | .settle =>
      match w.batch, w.verdict with
      | record :: rest, some result =>
          if result.retryRecord then
            some
              { w with
                retry := retryInboxBatch (record :: rest) w.retry
                batch := []
                verdict := none }
          else
            -- A single malformed frame must not poison the stream.
            some
              { w with
                cursor := commitInboxRecord w.cursor record
                batch := rest
                verdict := none }
      | _, _ => none
  | .restart path fileId =>
      if path = "" ∨ fileId = "" then none
      else
        some
          { w with
            file := { w.file with path := path, fileId := fileId }
            scan := none
            reading := []
            queue := []
            retry := []
            batch := []
            verdict := none }

/-- Runs of the ingestion. -/
def inbox (py : Python) : TransitionSystem InboxWorld InboxStep where
  init w := ∃ file : InboxFile, file.path ≠ "" ∧ file.fileId ≠ "" ∧ w = .initial file
  step w e w' := w.next py e = some w'

/-- The records in memory, in the order in which they will be handled: the
batch, what is to be retried, what is queued, and what the listener is queueing. -/
def InboxWorld.held (w : InboxWorld) : List InboxRecord :=
  w.batch ++ w.retry ++ w.queue ++ w.reading

/-- The byte up to which this process has scanned. -/
def InboxWorld.scannedTo (w : InboxWorld) : Nat :=
  match w.scan with
  | some scan => scan.offset
  | none => w.cursor.offset

variable {py : Python} {w w' : InboxWorld}

/-! ## The invariant -/

/-- The stored cursor is that of a first run, or anchored in the file. -/
def CursorOk (py : Python) (cursor : Cursor) (content : List UInt8) : Prop :=
  cursor = .empty ∨ Anchored py cursor content

/-- The record was handled, and its handoff was not deferred. -/
def HandledToEnd (handled : List (Nat × RecordResult)) (record : InboxRecord) : Prop :=
  ∃ result, (record.endOffset, result) ∈ handled ∧ result.retryRecord = false

/-- The records in memory line up with the file. -/
structure Durable (py : Python) (w : InboxWorld) : Prop where
  path : w.file.path ≠ ""
  fileId : w.file.fileId ≠ ""
  cursor : CursorOk py w.cursor w.file.content
  scan : ∀ scan, w.scan = some scan →
    scan.path = w.file.path ∧ scan.fileId = w.file.fileId
  committed : ∃ done, RecordsBetween py w.file 0 w.cursor.offset done ∧
    ∀ record ∈ done, HandledToEnd w.handled record
  layout : RecordsBetween py w.file w.cursor.offset w.scannedTo w.held
  verdict : ∀ result, w.verdict = some result →
    ∃ record rest, w.batch = record :: rest ∧ (record.endOffset, result) ∈ w.handled

theorem Durable.offset_le (h : Durable py w) : w.cursor.offset ≤ w.file.content.length := by
  rcases h.committed with ⟨done, hdone, -⟩
  exact hdone.le_length (Nat.zero_le _)

theorem Durable.scannedTo_le (h : Durable py w) : w.scannedTo ≤ w.file.content.length :=
  h.layout.le_length h.offset_le

theorem HandledToEnd.mono {handled handled' : List (Nat × RecordResult)}
    {record : InboxRecord} (h : HandledToEnd handled record)
    (hsub : ∀ entry ∈ handled, entry ∈ handled') : HandledToEnd handled' record := by
  rcases h with ⟨result, hmem, hdone⟩
  exact ⟨result, hsub _ hmem, hdone⟩

/-- Opening the file for a scan: the position, and a cursor at the same offset. -/
theorem openScan_spec (h : Durable py w) :
    let opened := openScan py w.cursor w.scan w.file
    opened.1.path = w.file.path ∧ opened.1.fileId = w.file.fileId ∧
      opened.1.offset = w.scannedTo ∧ opened.2.offset = w.cursor.offset ∧
      CursorOk py opened.2 w.file.content := by
  unfold openScan
  cases hscan : w.scan with
  | some scan =>
      have hid := h.scan scan hscan
      have hle : scan.offset ≤ w.file.content.length := by
        have hscanned := h.scannedTo_le
        rwa [InboxWorld.scannedTo, hscan] at hscanned
      have hfresh : (scan.path ≠ w.file.path || scan.fileId ≠ w.file.fileId ||
          decide (w.file.content.length < scan.offset)) = false := by
        simp [hid.1, hid.2, hle]
      simp only [hfresh]
      refine ⟨hid.1, hid.2, ?_, trivial, h.cursor⟩
      simp [InboxWorld.scannedTo, hscan]
  | none =>
      have hto : w.scannedTo = w.cursor.offset := by
        simp [InboxWorld.scannedTo, hscan]
      rcases h.cursor with hempty | hanchored
      · have hstop : cursorContinuesFile py (loadInboxConsumer w.cursor) w.file = false := by
          have hpath := h.path.symm
          simp [hempty, loadInboxConsumer, Cursor.normalizeAnchor, cursorContinuesFile,
            Cursor.empty, isSha256Hex, hpath]
        simp only [hstop, Bool.false_eq_true, if_false]
        refine ⟨trivial, trivial, ?_, trivial, .inl hempty⟩
        rw [hto, hempty]
        rfl
      · have hload : loadInboxConsumer w.cursor = w.cursor := hanchored.normalize
        have hgo := cursorContinues_of_anchored hanchored
        simp only [hload, hgo, if_true]
        refine ⟨trivial, trivial, hto.symm, ?_, ?_⟩
        · split
          · simp [saveInboxConsumer]
          · rfl
        · right
          split
          · have hmoved : Anchored py
                { path := w.file.path
                  fileId := w.file.fileId
                  offset := w.cursor.offset
                  anchorStart := w.cursor.anchorStart
                  anchorSha256 := w.cursor.anchorSha256 } w.file.content :=
              ⟨hanchored.1, hanchored.2, hanchored.3, hanchored.4⟩
            rw [saveInboxConsumer, hmoved.normalize]
            exact hmoved
          · exact hanchored

/-- Draining the retries and the queue keeps the order of the records. -/
theorem drainListenerEvents_append (retry queue : List InboxRecord) :
    let drained := drainListenerEvents retry queue
    drained.1 ++ drained.2.1 ++ drained.2.2 = retry ++ queue := by
  unfold drainListenerEvents
  simp only [List.append_assoc]
  by_cases hlong : maxDrainEvents ≤ retry.length
  · -- The retries fill the batch, and the queue is not touched.
    have hroom : maxDrainEvents - (retry.take maxDrainEvents).length = 0 := by
      rw [List.length_take]
      omega
    rw [hroom, List.take_zero, List.drop_zero, List.nil_append, ← List.append_assoc,
      List.take_append_drop]
  · have hshort : retry.length ≤ maxDrainEvents := by omega
    rw [List.take_of_length_le hshort, List.drop_of_length_le hshort, List.nil_append,
      List.take_append_drop]

/-- Committing the first record of the batch. -/
theorem Durable.commit (h : Durable py w) {record : InboxRecord} {rest : List InboxRecord}
    {result : RecordResult} (hbatch : w.batch = record :: rest)
    (hhandled : (record.endOffset, result) ∈ w.handled) (hdone : result.retryRecord = false) :
    Durable py
      { w with
        cursor := commitInboxRecord w.cursor record
        batch := rest
        verdict := none } := by
  have hheld : w.held = record :: (rest ++ w.retry ++ w.queue ++ w.reading) := by
    simp [InboxWorld.held, hbatch]
  have hlayout := h.layout
  rw [hheld] at hlayout
  rcases hlayout.uncons with ⟨line, hline, hpre, hrecord, hone, hrest⟩
  have hanchored := @anchored_makeRecord py _ _ line hline h.offset_le hpre
  rw [← hrecord] at hanchored
  have hpositive := List.length_pos_iff.mpr hline
  have hend : record.endOffset = w.cursor.offset + line.length := by rw [hrecord]; rfl
  have hpath : record.path ≠ "" := by rw [hrecord]; exact h.path
  have hfileId : record.fileId ≠ "" := by rw [hrecord]; exact h.fileId
  have hcommit : commitInboxRecord w.cursor record =
      { path := record.path
        fileId := record.fileId
        offset := record.endOffset
        anchorStart := record.anchorStart
        anchorSha256 := record.anchorSha256 } := by
    rw [commitInboxRecord_offset hpath hfileId (by omega)]
    exact hanchored.normalize
  have hto : w.scan ≠ none := by
    intro hnone
    have hstop := hrest.le
    simp only [InboxWorld.scannedTo, hnone] at hstop
    omega
  rw [hcommit]
  refine ⟨h.path, h.fileId, .inr hanchored, h.scan, ?_, ?_, by simp⟩
  · rcases h.committed with ⟨done, hbetween, hall⟩
    refine ⟨done ++ [record], hbetween.trans hone, fun r hr => ?_⟩
    rcases List.mem_append.mp hr with hr | hr
    · exact hall r hr
    · rw [List.mem_singleton.mp hr]
      exact ⟨result, hhandled, hdone⟩
  · cases hscan : w.scan with
    | none => exact absurd hscan hto
    | some scan =>
        simp only [InboxWorld.scannedTo, hscan] at hrest
        simpa only [InboxWorld.held, InboxWorld.scannedTo, hscan] using hrest

/-- One step keeps the records in memory lined up with the file. -/
theorem durable_step {e : InboxStep} (h : Durable py w) (hstep : (inbox py).step w e w') :
    Durable py w' := by
  have hnext : w.next py e = some w' := hstep
  cases e with
  | append bytes =>
      simp only [InboxWorld.next, Option.some.injEq] at hnext
      subst hnext
      refine ⟨h.path, h.fileId, ?_, h.scan, ?_, h.layout.append h.offset_le bytes, h.verdict⟩
      · rcases h.cursor with hempty | hanchored
        · exact .inl hempty
        · exact .inr (hanchored.append bytes)
      · rcases h.committed with ⟨done, hdone, hall⟩
        exact ⟨done, hdone.append (Nat.zero_le _) bytes, hall⟩
  | scan =>
      simp only [InboxWorld.next] at hnext
      split at hnext
      · simp at hnext
      · rename_i hreading
        have hidle : w.reading = [] := not_not.mp hreading
        rw [Option.some.injEq] at hnext
        subst hnext
        rcases openScan_spec h with ⟨hpath, hfileId, hfrom, hoffset, hcursor⟩
        have hread := readRecords_records py w.file maxScanRecords
          (openScan py w.cursor w.scan w.file).1.offset 0
        rw [hfrom] at hread
        have hlayout := h.layout.trans hread
        simp only [InboxWorld.held, hidle, List.append_nil] at hlayout
        refine ⟨h.path, h.fileId, hcursor, ?_, ?_, ?_, h.verdict⟩
        · intro scan hscan
          rw [Option.some.injEq] at hscan
          rw [← hscan]
          exact ⟨hpath, hfileId⟩
        · simp only [readNewInboxRecords, hoffset]
          exact h.committed
        · simp only [readNewInboxRecords, hoffset, hfrom, InboxWorld.held, InboxWorld.scannedTo]
          exact hlayout
  | put =>
      simp only [InboxWorld.next] at hnext
      cases hreading : w.reading with
      | nil => simp [hreading] at hnext
      | cons record rest =>
          rw [hreading] at hnext
          simp only [Option.some.injEq] at hnext
          subst hnext
          refine ⟨h.path, h.fileId, h.cursor, h.scan, h.committed, ?_, h.verdict⟩
          have hlayout := h.layout
          simp only [InboxWorld.held, hreading] at hlayout
          simpa [InboxWorld.held, InboxWorld.scannedTo] using hlayout
  | drain =>
      simp only [InboxWorld.next] at hnext
      cases hbatch : w.batch with
      | cons record rest => simp [hbatch] at hnext
      | nil =>
          rw [hbatch] at hnext
          simp only [Option.some.injEq] at hnext
          subst hnext
          refine ⟨h.path, h.fileId, h.cursor, h.scan, h.committed, ?_, ?_⟩
          · have hlayout := h.layout
            simp only [InboxWorld.held, hbatch, List.nil_append] at hlayout
            simp only [InboxWorld.held]
            rw [drainListenerEvents_append]
            exact hlayout
          · intro result hresult
            rcases h.verdict result hresult with ⟨record, rest, heq, -⟩
            rw [hbatch] at heq
            simp at heq
  | handle result =>
      simp only [InboxWorld.next] at hnext
      split at hnext
      · rename_i record rest hbatch hverdict
        rw [Option.some.injEq] at hnext
        subst hnext
        refine ⟨h.path, h.fileId, h.cursor, h.scan, ?_, h.layout, ?_⟩
        · rcases h.committed with ⟨done, hdone, hall⟩
          refine ⟨done, hdone, fun r hr => ?_⟩
          exact (hall r hr).mono fun entry hmem => List.mem_append_left _ hmem
        · intro result' hresult
          rw [Option.some.injEq] at hresult
          subst hresult
          exact ⟨record, rest, hbatch, List.mem_append_right _ (List.mem_singleton_self _)⟩
      · simp at hnext
  | settle =>
      simp only [InboxWorld.next] at hnext
      split at hnext
      · rename_i record rest result hbatch hverdict
        split at hnext
        · rw [Option.some.injEq] at hnext
          subst hnext
          refine ⟨h.path, h.fileId, h.cursor, h.scan, h.committed, ?_, by simp⟩
          have hlayout := h.layout
          simp only [InboxWorld.held, hbatch] at hlayout
          simpa [InboxWorld.held, InboxWorld.scannedTo, retryInboxBatch] using hlayout
        · rename_i hdone
          rw [Option.some.injEq] at hnext
          subst hnext
          rcases h.verdict result hverdict with ⟨first, others, heq, hhandled⟩
          have hsame : first = record := by
            rw [hbatch] at heq
            exact (List.cons.inj heq).1.symm
          subst hsame
          exact h.commit hbatch hhandled (by simpa using hdone)
      · simp at hnext
  | restart path fileId =>
      simp only [InboxWorld.next] at hnext
      split at hnext
      · simp at hnext
      · rename_i hid
        rw [Option.some.injEq] at hnext
        subst hnext
        rw [not_or] at hid
        refine ⟨hid.1, hid.2, h.cursor, by simp, ?_, recordsBetween_nil _ _ _, by simp⟩
        rcases h.committed with ⟨done, hdone, hall⟩
        rcases hdone.relabel path fileId with ⟨done', hdone', hends⟩
        refine ⟨done', hdone', fun r hr => ?_⟩
        have hmem : r.endOffset ∈ done.map InboxRecord.endOffset := by
          rw [← hends]
          exact List.mem_map_of_mem hr
        rcases List.mem_map.mp hmem with ⟨old, hold, heq⟩
        rcases hall old hold with ⟨result, hhandled, hend⟩
        exact ⟨result, heq ▸ hhandled, hend⟩

theorem durable_initial {file : InboxFile} (hpath : file.path ≠ "") (hfileId : file.fileId ≠ "") :
    Durable py (.initial file) where
  path := hpath
  fileId := hfileId
  cursor := .inl rfl
  scan := by simp [InboxWorld.initial]
  committed := ⟨[], recordsBetween_nil _ _ _, by simp⟩
  layout := recordsBetween_nil _ _ _
  verdict := by simp [InboxWorld.initial]

theorem reachable_durable (h : (inbox py).Reachable w) : Durable py w := by
  refine h.invariant (I := Durable py) ?_ ?_
  · rintro w ⟨file, hpath, hfileId, hw⟩
    subst hw
    exact durable_initial hpath hfileId
  · intro w e w' _ hdurable hstep
    exact durable_step hdurable hstep

/-! ## The law -/

/-- A commit never moves the cursor back. -/
theorem offset_le_step {e : InboxStep} (h : Durable py w) (hstep : (inbox py).step w e w') :
    w.cursor.offset ≤ w'.cursor.offset := by
  have hnext : w.next py e = some w' := hstep
  cases e with
  | scan =>
      simp only [InboxWorld.next] at hnext
      split at hnext
      · simp at hnext
      · rw [Option.some.injEq] at hnext
        subst hnext
        exact (openScan_spec h).2.2.2.1.ge
  | settle =>
      simp only [InboxWorld.next] at hnext
      split at hnext
      · rename_i record rest result hbatch hverdict
        split at hnext
        · rw [Option.some.injEq] at hnext
          subst hnext
          exact le_rfl
        · rw [Option.some.injEq] at hnext
          subst hnext
          simp only [commitInboxRecord]
          split
          · exact le_rfl
          · split
            · exact le_rfl
            · have hheld : record ∈ w.held := by simp [InboxWorld.held, hbatch]
              have hlt := (h.layout.mem record hheld).1
              simp only [saveInboxConsumer, normalizeAnchor_offset]
              omega
      · simp at hnext
  | append bytes =>
      simp only [InboxWorld.next, Option.some.injEq] at hnext
      subst hnext
      exact le_rfl
  | put =>
      simp only [InboxWorld.next] at hnext
      split at hnext
      · simp at hnext
      · rw [Option.some.injEq] at hnext
        subst hnext
        exact le_rfl
  | drain =>
      simp only [InboxWorld.next] at hnext
      split at hnext
      · simp at hnext
      · rw [Option.some.injEq] at hnext
        subst hnext
        exact le_rfl
  | handle result =>
      simp only [InboxWorld.next] at hnext
      split at hnext
      · rw [Option.some.injEq] at hnext
        subst hnext
        exact le_rfl
      · simp at hnext
  | restart path fileId =>
      simp only [InboxWorld.next] at hnext
      split at hnext
      · simp at hnext
      · rw [Option.some.injEq] at hnext
        subst hnext
        exact le_rfl

/-- The records in memory are exactly the scanned and uncommitted complete
records of the file, in file order. -/
theorem Durable.held_eq_filter (h : Durable py w) :
    w.held = (recordsFrom py w.file 0).filter fun record =>
      w.cursor.offset < record.endOffset ∧ record.endOffset ≤ w.scannedTo := by
  rcases h.committed with ⟨done, hdone, -⟩
  rw [hdone.recordsFrom, h.layout.recordsFrom, List.filter_append, List.filter_append]
  have hpast : done.filter (fun record =>
      w.cursor.offset < record.endOffset ∧ record.endOffset ≤ w.scannedTo) = [] := by
    rw [List.filter_eq_nil_iff]
    intro record hmem
    have hle := (hdone.mem record hmem).2
    simp only [decide_eq_true_eq, not_and]
    omega
  have hheld : w.held.filter (fun record =>
      w.cursor.offset < record.endOffset ∧ record.endOffset ≤ w.scannedTo) = w.held := by
    rw [List.filter_eq_self]
    intro record hmem
    have hin := h.layout.mem record hmem
    simpa using hin
  have hlater : (recordsFrom py w.file w.scannedTo).filter (fun record =>
      w.cursor.offset < record.endOffset ∧ record.endOffset ≤ w.scannedTo) = [] := by
    rw [List.filter_eq_nil_iff]
    intro record hmem
    have hlt := lt_endOffset_of_mem hmem
    simp only [decide_eq_true_eq, not_and]
    omega
  rw [hpast, hheld, hlater]
  simp

/-- Every record the cursor has passed was handled without being deferred. -/
theorem Durable.committed_handled (h : Durable py w) :
    ∀ record ∈ recordsFrom py w.file 0, record.endOffset ≤ w.cursor.offset →
      HandledToEnd w.handled record := by
  rcases h.committed with ⟨done, hdone, hall⟩
  intro record hmem hle
  rw [hdone.recordsFrom] at hmem
  rcases List.mem_append.mp hmem with hmem | hmem
  · exact hall record hmem
  · have hlt := lt_endOffset_of_mem hmem
    omega

/-- The law of durable ingestion.  At all times the records in memory, those the
listener is queueing included, are the scanned and uncommitted complete records
of the file in file order; the committed offset never decreases; and it passes a
record only after that record and every earlier one was handled to an outcome
other than a deferred handoff. -/
theorem inbox_durable (py : Python) (w : InboxWorld) (h : (inbox py).Reachable w) :
    (w.held = (recordsFrom py w.file 0).filter fun record =>
        w.cursor.offset < record.endOffset ∧ record.endOffset ≤ w.scannedTo) ∧
      (∀ es w', (inbox py).Run w es w' → w.cursor.offset ≤ w'.cursor.offset) ∧
      ∀ record ∈ recordsFrom py w.file 0, record.endOffset ≤ w.cursor.offset →
        HandledToEnd w.handled record := by
  have hdurable := reachable_durable h
  refine ⟨hdurable.held_eq_filter, fun es w' hrun => ?_, hdurable.committed_handled⟩
  refine hrun.invariant (I := fun v => w.cursor.offset ≤ v.cursor.offset) h ?_ le_rfl
  intro a e b ha hle hstep
  exact hle.trans (offset_le_step (reachable_durable ha) hstep)

/-! ## A frame that is passed over -/

/-- A complete inbox line with one event. -/
def textLine : List UInt8 :=
  "\x7b\"type\":\"event\",\"event\":\x7b\"type\":\"m.text\"\x7d\x7d\n".toList.map fun c =>
    UInt8.ofNat c.toNat

theorem forall_mem_of_all {xs ys : List Char} (h : (xs.all fun c => decide (c ∈ ys)) = true) :
    ∀ c ∈ xs, c ∈ ys :=
  fun c hc => of_decide_eq_true (List.all_eq_true.mp h c hc)

/-- Python on that line. -/
def linePython : Python where
  loads line :=
    if line = textLine then
      some (.obj [("type", .str "event"), ("event", .obj [("type", .str "m.text")])])
    else none
  dumps _ := ""
  repr _ := ""
  lower := id
  basename := id
  sha256 line :=
    if line = textLine then
      "eb5db4c9045c0449609b60b105c6b98381727660dee25fd5d6967d959b49d813"
    else String.ofList (List.replicate 64 '0')
  sha256_length line := by
    split
    · decide +kernel
    · simp
  sha256_hex line := by
    split
    · exact forall_mem_of_all (by decide +kernel)
    · intro c hc
      rw [String.toList_ofList, List.mem_replicate] at hc
      rw [hc.2]
      decide

/-- Take these steps, if they can be taken. -/
def InboxWorld.steps (py : Python) (w : InboxWorld) (steps : List InboxStep) :
    Option InboxWorld :=
  steps.foldlM (fun w e => w.next py e) w

theorem steps_reachable {steps : List InboxStep} (h : (inbox py).Reachable w)
    (hsteps : w.steps py steps = some w') : (inbox py).Reachable w' := by
  induction steps generalizing w with
  | nil =>
      have hsame : w = w' := by simpa [InboxWorld.steps] using hsteps
      exact hsame ▸ h
  | cons e rest ih =>
      simp only [InboxWorld.steps, List.foldlM_cons, Option.bind_eq_bind,
        Option.bind_eq_some_iff] at hsteps
      rcases hsteps with ⟨mid, hmid, hrest⟩
      exact ih (.step h hmid) hrest

/-- A run that meets one line and takes it to its commit. -/
def passLine (result : RecordResult) : Option InboxWorld :=
  (InboxWorld.initial ⟨"/inbox.jsonl", "1:2", textLine⟩).steps linePython
    [.scan, .put, .drain, .handle result, .settle]

theorem passLine_reachable {result : RecordResult} (h : passLine result = some w) :
    (inbox linePython).Reachable w :=
  steps_reachable (.init ⟨_, by decide, by decide, rfl⟩) h

/-- What the run of `passLine` has committed, handled and read. -/
def passedLine (result : RecordResult) : Option (Nat × List (Nat × RecordResult) × List Nat) :=
  (passLine result).map fun w =>
    (w.cursor.offset, w.handled,
      (recordsFrom linePython w.file 0).map InboxRecord.endOffset)

/-- Between reading and queueing a scanned record is in neither queue, and the
cursor passes a record whose only event ended in an exception. -/
theorem read_and_failed_records :
    (¬ ∀ w, (inbox linePython).Reachable w →
      w.batch ++ w.retry ++ w.queue = (recordsFrom linePython w.file 0).filter fun record =>
        w.cursor.offset < record.endOffset ∧ record.endOffset ≤ w.scannedTo) ∧
    ¬ ∀ w, (inbox linePython).Reachable w →
      ∀ record ∈ recordsFrom linePython w.file 0, record.endOffset ≤ w.cursor.offset →
        ∃ result, (record.endOffset, result) ∈ w.handled ∧ result.interpreted = true := by
  constructor
  · intro hclaim
    have hread : ((InboxWorld.initial ⟨"/inbox.jsonl", "1:2", textLine⟩).steps linePython
        [.scan]).map (fun w => (w.batch.length + w.retry.length + w.queue.length,
          ((recordsFrom linePython w.file 0).filter fun record =>
            w.cursor.offset < record.endOffset ∧ record.endOffset ≤ w.scannedTo).length)) =
        some (0, 1) := by decide +kernel
    rcases Option.map_eq_some_iff.mp hread with ⟨w, hw, hfacts⟩
    rcases Prod.mk.inj hfacts with ⟨hqueued, hscanned⟩
    have hreach : (inbox linePython).Reachable w :=
      steps_reachable (.init ⟨_, by decide, by decide, rfl⟩) hw
    have hlength := congrArg List.length (hclaim w hreach)
    rw [hscanned, List.length_append, List.length_append] at hlength
    omega
  intro hclaim
  have hpassed : passedLine ⟨true, [.failed]⟩ =
      some (43, [(43, ⟨true, [.failed]⟩)], [43]) := by decide +kernel
  rcases Option.map_eq_some_iff.mp hpassed with ⟨w, hw, hfacts⟩
  simp only [Prod.mk.injEq] at hfacts
  rcases hfacts with ⟨hoffset, hhandled, hends⟩
  rcases List.map_eq_singleton_iff.mp hends with ⟨record, hrecords, hend⟩
  rcases hclaim w (passLine_reachable hw) record (by simp [hrecords]) (by omega) with
    ⟨result, hmem, hinterpreted⟩
  rw [hhandled, List.mem_singleton, Prod.mk.injEq] at hmem
  rw [hmem.2] at hinterpreted
  simp [RecordResult.interpreted] at hinterpreted

/-- A record that is handed over and committed. -/
theorem inbox_durable_line :
    ∃ w, passLine ⟨true, [.handed]⟩ = some w ∧ w.cursor.offset = 43 ∧ w.held = [] ∧
      ∀ record ∈ recordsFrom linePython w.file 0, HandledToEnd w.handled record := by
  have hpassed : passedLine ⟨true, [.handed]⟩ =
      some (43, [(43, ⟨true, [.handed]⟩)], [43]) := by decide +kernel
  rcases Option.map_eq_some_iff.mp hpassed with ⟨w, hw, hfacts⟩
  simp only [Prod.mk.injEq] at hfacts
  rcases hfacts with ⟨hoffset, -, hends⟩
  rcases List.map_eq_singleton_iff.mp hends with ⟨record, hrecords, hend⟩
  rcases inbox_durable linePython w (passLine_reachable hw) with ⟨hheld, -, hdone⟩
  refine ⟨w, hw, hoffset, ?_, fun r hr => ?_⟩
  · rw [hheld, hrecords]
    simp [hend, hoffset]
  · have hsame : r = record := by
      rw [hrecords] at hr
      exact List.mem_singleton.mp hr
    exact hdone r hr (by rw [hsame]; omega)

end Interface
end Stemcell
