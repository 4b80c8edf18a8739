import Mathlib.Data.List.TakeWhile
import Stemcell.Dispatch.Places
import Stemcell.Lib.Lists
import Stemcell.Lib.Markers

/-!
# Session commands

A root may carry the marker of a command.  A run that is started reads the commands of its batch: it
makes a new session or acknowledges the start, and takes the markers out of the text before the
manager gets it.  A root that is injected into a run that already goes on is handed to the manager
as it is.

Main results:

- Definition `partitionPending`: the commands that a run reads, and the text that is left.
- Definition `serving`: the runs of the dispatcher with what is handled, handed to the manager and
  completed.
- Theorem `commands_law`: in every run in which no injected root carries a marker and every batch
  that carries one is read as a command, all commands of completed roots are handled and the manager
  gets no marker.
- Theorem `injected_command`: a command that is injected, completed and never handled.

Current gaps:

- The texts of later rounds of a run, which come from the manager and its tools, are left out.
- A run may leave its text unused, as when it is parked behind a long task.
-/

namespace Stemcell
namespace Dispatch

open Interface (isSpace strip)
open Lib
open Maintenance (Seconds Host RootAdmission)

/-! ## Commands -/

inductive Command
  | newSession
  | start
deriving DecidableEq, Repr

def Command.marker : Command → List Char
  | .newSession => "[COMMAND: NEW_SESSION]".toList
  | .start => "[COMMAND: START]".toList

/-- `marker in context`. -/
def carries (command : Command) (context : String) : Bool :=
  decide (command.marker <:+: context.toList)

/-- `context.replace(marker, "").strip()`. -/
def without (command : Command) (context : String) : String :=
  strip (String.ofList (cut command.marker context.toList))

/-- What a run reads in a context. -/
structure Reading where
  commands : List Command
  text : Option String
deriving DecidableEq, Repr

/-- One command of `handle_commands`: whether it is handled, and the context after it. -/
def handleCommand (command : Command) (context : String) : List Command × String :=
  if carries command context then ([command], without command context) else ([], context)

/-- `handle_commands`, for one contact. -/
def handleCommands (context : String) : Reading :=
  let (newSession, context) := handleCommand .newSession context
  let (start, context) := handleCommand .start context
  ⟨newSession ++ start, if context = "" then none else some context⟩

/-! ## Internal lines -/

/-- `text.partition("\n")`, without its separator. -/
def partitionLine (text : List Char) : List Char × List Char :=
  (text.takeWhile fun c => c ≠ '\n', (text.dropWhile fun c => c ≠ '\n').drop 1)

/-- `_QUEUED_ROOT_MARKER`. -/
def queuedRootMarker : List Char :=
  "durable_queued_root_id:".toList

/-- `_QUEUED_ROOT_VISIBILITY_MARKER`. -/
def queuedRootVisibilityMarker : List Char :=
  "durable_queued_root_visible:".toList

/-- `extract_queued_long_task_root_metadata`: the context without its metadata. -/
def extractQueuedLongTaskRootMetadata (context : List Char) : List Char :=
  let (first, rest) := partitionLine context
  if queuedRootMarker.isPrefixOf first then
    let (visibilityLine, remainder) := partitionLine rest
    if queuedRootVisibilityMarker.isPrefixOf visibilityLine then remainder else rest
  else context

/-- The text of `extract_accuracy_review_root`. -/
def reviewText (context : List Char) : List Char :=
  let (first, rest) := partitionLine context
  if accuracyReviewMarker.isPrefixOf first then rest else context

/-- `_partition_pending_contexts`, for one contact; `current` says that the review is not
superseded. -/
def partitionPending (current : Bool) (context : String) : Reading :=
  let cleaned := extractQueuedLongTaskRootMetadata context.toList
  if extractAccuracyReviewRoot (String.ofList cleaned) ≠ "" then
    ⟨[], if current then some (String.ofList (reviewText cleaned)) else none⟩
  else handleCommands (String.ofList (reviewText cleaned))

/-- The context of a batch. -/
def batchContext (batch : List RootAdmission) : String :=
  String.ofList (['\n', '\n'].intercalate (batch.map fun item => item.context.toList))

/-! ## Runs with their readings -/

/-- `INJECTED_PREFIX`. -/
@[irreducible]
def injectedPrefix : String :=
  "[NEW MESSAGE — arrived while you were working]\n" ++
    "This came in after your turn started. Treat it as a fresh trigger: run " ++
    "your setup questions for it, then account for it alongside what you are " ++ "already doing.\n\n"

/-- The commands that a run has handled for its batch. -/
structure Answer where
  batch : List RootAdmission
  commands : List Command

/-- The dispatcher with the text that each run has left for the manager, the commands handled, the
texts handed to the manager and the roots completed so far. -/
structure Service where
  world : World
  texts : String → Option (Option String)
  handled : List Answer
  provided : List String
  completed : List RootAdmission

/-- A step of the dispatcher, a run that reads its batch, or one that calls the manager. -/
inductive ServiceStep
  | world (step : Step)
  | read (contactId : String) (current : Bool)
  | call (contactId : String)

/-- The roots that a step hands out. -/
def newHandouts (w w' : World) : List Handout :=
  w'.handed.drop w.handed.length

/-- The texts of roots that a step injects. -/
def injectedTexts (w w' : World) : List String :=
  ((newHandouts w w').filter fun handout => handout.injected).map fun handout =>
    injectedPrefix ++ handout.admission.context

/-- The roots that a step completes. -/
def completes (w : World) : Step → List RootAdmission
  | .thread c (.complete _ false) =>
      match w.dispatcher.threads.get? c with
      | some (.completing settled _) => settled
      | _ => []
  | .leave _ false => w.dispatcher.stranded.headD []
  | _ => []

namespace Service

variable (host : Host) (maxActive : Nat) (s : Service)

/-- A run only returns when it has read its batch. -/
def mayStep : Step → Bool
  | .thread c (.finish false) => (s.texts c).isSome
  | _ => true

/-- A run that is started has not read its batch. -/
def textsAfter : Step → String → Option (Option String)
  | .thread c .nextBatch => fun other => if other = c then none else s.texts other
  | _ => s.texts

/-- A run reads its batch. -/
def read (c : String) (current : Bool) : Option Service :=
  match s.world.dispatcher.threads.get? c, s.texts c with
  | some (.running batch _), none =>
      let reading := partitionPending current (batchContext batch)
      some { s with
        texts := fun other => if other = c then some reading.text else s.texts other
        handled := s.handled ++ [⟨batch, reading.commands⟩] }
  | _, _ => none

/-- A run hands the text that is left to the manager. -/
def call (c : String) : Option Service :=
  match s.world.dispatcher.threads.get? c, s.texts c with
  | some (.running _ _), some (some text) => some { s with provided := s.provided ++ [text] }
  | _, _ => none

/-- One step. -/
def next : ServiceStep → Option Service
  | .world step =>
      if s.mayStep step then
        (s.world.next host maxActive step).map fun w =>
          { s with
            world := w
            texts := s.textsAfter step
            provided := s.provided ++ injectedTexts s.world w
            completed := s.completed ++ completes s.world step }
      else none
  | .read c current => s.read c current
  | .call c => s.call c

end Service

/-- Nothing has happened yet. -/
def Service.initial (t : Seconds) : Service where
  world := .initial t
  texts := fun _ => none
  handled := []
  provided := []
  completed := []

/-- Runs of the dispatcher with the readings of its runs. -/
def serving (host : Host) (maxActive : Nat) : TransitionSystem Service ServiceStep where
  init s := ∃ t, s = .initial t
  step s e s' := s.next host maxActive e = some s' ∧
    ∀ step, e = .world step → (dispatching host maxActive).step s.world step s'.world

/-! ## The law and its condition -/

/-- Every command of the root is handled. -/
def Service.Answers (s : Service) (a : RootAdmission) : Prop :=
  ∀ command, carries command a.context = true →
    ∃ answer ∈ s.handled, a ∈ answer.batch ∧ command ∈ answer.commands

/-- Every command of a completed root is handled, and no marker is handed to the manager. -/
structure Service.Obeys (s : Service) : Prop where
  handled : ∀ a ∈ s.completed, s.Answers a
  silent : ∀ text ∈ s.provided, ∀ command, carries command text = false

/-- The root carries no marker. -/
def Silent (a : RootAdmission) : Prop :=
  ∀ command, carries command a.context = false

/-- The part of a context that is read for commands. -/
def readText (context : String) : String :=
  String.ofList (reviewText (extractQueuedLongTaskRootMetadata context.toList))

/-- The markers of a context stand where they are read, and there are no others inside them: they
are in the text without internal lines, which is no internal review, and without them it has none. -/
structure PlainCommands (context : String) : Prop where
  read : ∀ command, carries command context = true → carries command (readText context) = true
  ordinary : extractAccuracyReviewRoot
      (String.ofList (extractQueuedLongTaskRootMetadata context.toList)) ≠ "" →
    ∀ command, carries command context = false
  apart : ∀ command : Command, ¬ command.marker <:+:
    cut Command.start.marker (cut Command.newSession.marker (readText context).toList)

/-- What a run reads is plain. -/
def Stage.Readable : Stage → Prop
  | .running batch _ => PlainCommands (batchContext batch)
  | _ => True

/-- No root that is injected in this step carries a marker, and what a run reads is plain. -/
def Service.Apart (host : Host) (maxActive : Nat) (s : Service) : ServiceStep → Prop
  | .world step => ∀ w ∈ s.world.next host maxActive step,
      ∀ handout ∈ newHandouts s.world w, handout.injected = true → Silent handout.admission
  | .read c _ => ∀ stage ∈ s.world.dispatcher.threads.get? c, stage.Readable
  | .call _ => True

/-! ## What is read in a text -/

section Reading

variable {command other : Command} {context : String}

theorem marker_eq (command : Command) : '[' :: command.marker.tail = command.marker := by
  cases command <;> rfl

theorem opening_not_mem (command : Command) : '[' ∉ command.marker.tail := by
  cases command <;> decide

theorem closing_mem (command : Command) : ']' ∈ command.marker.getLast? := by
  cases command <;> decide

theorem marker_not_prefix (h : command ≠ other) : ¬ command.marker <+: other.marker := by
  cases command <;> cases other <;> first
    | exact absurd rfl h
    | decide

theorem carries_iff : carries command context = true ↔ command.marker <:+: context.toList :=
  decide_eq_true_iff

theorem carries_eq_false_iff :
    carries command context = false ↔ ¬ command.marker <:+: context.toList :=
  decide_eq_false_iff_not

/-- A text with blanks in front and behind. -/
structure Blanked (text inner : List Char) (before behind : List Char) : Prop where
  eq : text = before ++ inner ++ behind
  opening : '[' ∉ before
  closing : ']' ∉ behind

theorem blanked_strip (text : String) :
    ∃ before behind, Blanked text.toList (strip text).toList before behind := by
  have hblank {c : Char} {value : List Char} (hc : isSpace c = false) :
      c ∉ value.takeWhile isSpace := by
    intro hmem
    have hspace := List.mem_takeWhile_imp hmem
    rw [hc] at hspace
    cases hspace
  refine ⟨text.toList.takeWhile isSpace,
    ((text.toList.dropWhile isSpace).reverse.takeWhile isSpace).reverse, ?_, ?_, ?_⟩
  · unfold strip
    rw [String.toList_ofList, List.append_assoc, ← List.reverse_append,
      List.takeWhile_append_dropWhile, List.reverse_reverse, List.takeWhile_append_dropWhile]
  · exact hblank (by decide)
  · rw [List.mem_reverse]
    exact hblank (by decide)

/-- Blanks around a text neither hide a marker nor make one. -/
theorem Blanked.infix_iff {text inner before behind : List Char}
    (h : Blanked text inner before behind) : command.marker <:+: text ↔ command.marker <:+: inner := by
  rw [h.eq]
  constructor
  · intro hwithin
    have hleft := infix_of_append_right (closing_mem command) h.closing hwithin
    rw [← marker_eq] at hleft ⊢
    exact infix_of_append hleft h.opening
  · intro hwithin
    rw [List.append_assoc]
    exact (hwithin.trans (List.prefix_append inner behind).isInfix).trans
      (List.suffix_append before _).isInfix

/-- They are not cut. -/
theorem Blanked.cut {text inner before behind : List Char} (h : Blanked text inner before behind) :
    Blanked (cut command.marker text) (cut command.marker inner) before behind := by
  refine ⟨?_, h.opening, h.closing⟩
  rw [h.eq, cut_append_right (closing_mem command) h.closing]
  congr 1
  rw [← marker_eq]
  exact cut_append_left h.opening

theorem Blanked.trans {text inner core before behind before' behind' : List Char}
    (h : Blanked text inner before behind) (h' : Blanked inner core before' behind') :
    Blanked text core (before ++ before') (behind' ++ behind) := by
  constructor
  · rw [h.eq, h'.eq]
    simp only [List.append_assoc]
  · rw [List.mem_append, not_or]
    exact ⟨h.opening, h'.opening⟩
  · rw [List.mem_append, not_or]
    exact ⟨h'.closing, h.closing⟩

/-- What is left by one command is the text without its markers, up to blanks. -/
theorem handleCommand_blanked (command : Command) (context : String) :
    ∃ before behind, Blanked (cut command.marker context.toList)
      (handleCommand command context).2.toList before behind := by
  unfold handleCommand
  by_cases hcarries : carries command context = true
  · rw [if_pos hcarries]
    have hstrip := blanked_strip (String.ofList (cut command.marker context.toList))
    rw [String.toList_ofList] at hstrip
    exact hstrip
  · rw [if_neg hcarries]
    rw [carries_iff] at hcarries
    refine ⟨[], [], ?_, List.not_mem_nil, List.not_mem_nil⟩
    rw [cut_eq_self hcarries, List.nil_append, List.append_nil]

theorem mem_handleCommand :
    other ∈ (handleCommand command context).1 ↔ other = command ∧ carries command context = true := by
  unfold handleCommand
  by_cases hcarries : carries command context = true
  · simp [hcarries]
  · simp [hcarries]

/-- One command leaves the marker of the other one. -/
theorem carries_handleCommand (hne : command ≠ other) (h : carries other context = true) :
    carries other (handleCommand command context).2 = true := by
  rcases handleCommand_blanked command context with ⟨before, behind, hblanked⟩
  rw [carries_iff] at h ⊢
  rw [← hblanked.infix_iff]
  have hfirst := marker_not_prefix hne
  have hsecond := marker_not_prefix hne.symm
  have hbody := opening_not_mem command
  have hbody' := opening_not_mem other
  rw [← marker_eq command] at hfirst hsecond ⊢
  rw [← marker_eq other] at hfirst hsecond h ⊢
  exact infix_cut hbody hbody' hfirst hsecond h

/-- Every command that a context carries is handled. -/
theorem mem_handleCommands (h : carries command context = true) :
    command ∈ (handleCommands context).commands := by
  unfold handleCommands
  dsimp only
  rw [List.mem_append]
  cases command with
  | newSession => exact .inl (mem_handleCommand.mpr ⟨rfl, h⟩)
  | start =>
      right
      rw [mem_handleCommand]
      exact ⟨rfl, carries_handleCommand (by decide) h⟩

/-- What is left is part of the text without the markers. -/
theorem handleCommands_within {text : String} (h : (handleCommands context).text = some text) :
    text.toList <:+: cut Command.start.marker (cut Command.newSession.marker context.toList) := by
  unfold handleCommands at h
  dsimp only at h
  rcases handleCommand_blanked .newSession context with ⟨before, behind, hfirst⟩
  rcases handleCommand_blanked .start (handleCommand .newSession context).2 with
    ⟨before', behind', hsecond⟩
  generalize (handleCommand .start (handleCommand .newSession context).2).2 = left at h hsecond
  by_cases hempty : left = ""
  · rw [if_pos hempty] at h
    cases h
  · rw [if_neg hempty, Option.some.injEq] at h
    rw [(hfirst.cut.trans hsecond).eq, h, List.append_assoc]
    exact (List.prefix_append text.toList _).isInfix.trans (List.suffix_append _ _).isInfix

theorem carries_of_infix {inner : List Char} (hinner : inner <:+: context.toList)
    (h : carries command context = false) : carries command (String.ofList inner) = false := by
  rw [carries_eq_false_iff] at h ⊢
  rw [String.toList_ofList]
  exact fun hwithin => h (hwithin.trans hinner)

theorem partitionLine_suffix (text : List Char) : (partitionLine text).2 <:+ text :=
  (List.drop_suffix 1 _).trans (List.dropWhile_suffix _)

theorem extractMetadata_suffix (text : List Char) :
    extractQueuedLongTaskRootMetadata text <:+ text := by
  unfold extractQueuedLongTaskRootMetadata
  dsimp only
  by_cases hfirst : queuedRootMarker.isPrefixOf (partitionLine text).1 = true
  · rw [if_pos hfirst]
    by_cases hvisible : queuedRootVisibilityMarker.isPrefixOf
        (partitionLine (partitionLine text).2).1 = true
    · rw [if_pos hvisible]
      exact (partitionLine_suffix _).trans (partitionLine_suffix _)
    · rw [if_neg hvisible]
      exact partitionLine_suffix _
  · rw [if_neg hfirst]

theorem reviewText_suffix (text : List Char) : reviewText text <:+ text := by
  unfold reviewText
  dsimp only
  by_cases hfirst : accuracyReviewMarker.isPrefixOf (partitionLine text).1 = true
  · rw [if_pos hfirst]
    exact partitionLine_suffix _
  · rw [if_neg hfirst]

/-- A plain context: every command it carries is handled, and no marker is left. -/
theorem partitionPending_plain (current : Bool) (h : PlainCommands context) :
    (∀ command, carries command context = true →
      command ∈ (partitionPending current context).commands) ∧
    ∀ text, (partitionPending current context).text = some text →
      ∀ command, carries command text = false := by
  unfold partitionPending
  dsimp only
  by_cases hreview : extractAccuracyReviewRoot
      (String.ofList (extractQueuedLongTaskRootMetadata context.toList)) ≠ ""
  · rw [if_pos hreview]
    have hnone := h.ordinary hreview
    constructor
    · intro command hcarries
      rw [hnone command] at hcarries
      cases hcarries
    · intro text htext command
      dsimp only at htext
      by_cases hcurrent : current = true
      · rw [if_pos hcurrent, Option.some.injEq] at htext
        rw [← htext]
        exact carries_of_infix ((reviewText_suffix _).trans (extractMetadata_suffix _)).isInfix
          (hnone command)
      · rw [if_neg hcurrent] at htext
        cases htext
  · rw [if_neg hreview]
    constructor
    · intro command hcarries
      exact mem_handleCommands (h.read command hcarries)
    · intro text htext command
      rw [carries_eq_false_iff]
      intro hwithin
      exact h.apart command (hwithin.trans (handleCommands_within htext))

/-- A root of a batch carries no more than the context of the batch. -/
theorem carries_batchContext {batch : List RootAdmission} {a : RootAdmission} (ha : a ∈ batch)
    (h : carries command a.context = true) : carries command (batchContext batch) = true := by
  rw [carries_iff] at h ⊢
  unfold batchContext
  rw [String.toList_ofList]
  exact h.trans (infix_intercalate (List.mem_map_of_mem ha))

end Reading

/-! ## What a step changes -/

section Steps

variable {host : Host} {maxActive : Nat} {w w' : World} {step : Step} {c : String} {stage : Stage}
  {a : RootAdmission}

/-- A stage in which no commands are expected to be handled. -/
def Stage.idle : Stage → Bool
  | .running _ _ => false
  | .returned _ _ => false
  | .completing _ _ => false
  | _ => true

/-- How a thread comes to a stage. -/
inductive Becomes (w : World) (c : String) : Step → Stage → Prop
  | stays {step : Step} {stage : Stage} (h : w.dispatcher.threads.get? c = some stage) :
      Becomes w c step stage
  | idles {step : Step} {stage : Stage} (h : stage.idle = true) : Becomes w c step stage
  | starts (batch : List RootAdmission) (rest : List (List RootAdmission)) :
      Becomes w c (.thread c .nextBatch) (.running batch rest)
  | returns {batch : List RootAdmission} {rest : List (List RootAdmission)}
      (h : w.dispatcher.threads.get? c = some (.running batch rest)) :
      Becomes w c (.thread c (.finish false)) (.returned batch rest)
  | settles {batch : List RootAdmission} {rest : List (List RootAdmission)} {step : Step}
      (h : w.dispatcher.threads.get? c = some (.returned batch rest)) :
      Becomes w c step (.completing (batch ++ w.dispatcher.injectedOf c) rest)

/-- What a step does to the threads and to the roots that were injected. -/
structure Shifts (w : World) (step : Step) (w' : World) : Prop where
  threads : ∀ c stage, w'.dispatcher.threads.get? c = some stage → Becomes w c step stage
  injected : ∀ c, ∀ a ∈ w'.dispatcher.injectedOf c, a ∈ w.dispatcher.injectedOf c ∨
    ∃ handout ∈ newHandouts w w', handout.injected = true ∧ handout.admission = a
  stranded : ∀ roots ∈ w'.dispatcher.stranded, roots ∈ w.dispatcher.stranded ∨
    ∃ c, roots = w.dispatcher.injectedOf c

/-- A step that leaves the threads and these roots alone. -/
theorem shifts_still (hthreads : w'.dispatcher.threads = w.dispatcher.threads)
    (hinjected : w'.dispatcher.injected = w.dispatcher.injected)
    (hstranded : ∀ roots ∈ w'.dispatcher.stranded, roots ∈ w.dispatcher.stranded) :
    Shifts w step w' := by
  constructor
  · intro c stage hget
    rw [hthreads] at hget
    exact .stays hget
  · intro c a ha
    unfold Dispatcher.injectedOf at ha
    rw [hinjected] at ha
    exact .inl ha
  · intro roots hroots
    exact .inl (hstranded roots hroots)

theorem newHandouts_append {new : List Handout} (h : w'.handed = w.handed ++ new) :
    newHandouts w w' = new := by
  unfold newHandouts
  rw [h, List.drop_left]

/-- Claimed roots start threads or are injected. -/
theorem shifts_admitRoots (offered : Bool) (op : Maintenance.Op) (time : Seconds) :
    Shifts w step (w.admitRoots host maxActive offered op time) := by
  have hsched := scheduleAdmissions_schedules maxActive offered (w.rootsOf host op time)
    w.dispatcher
  have hnew : newHandouts w (w.admitRoots host maxActive offered op time) =
      (scheduleAdmissions maxActive offered (w.rootsOf host op time)
        w.dispatcher).injected.map fun a =>
          ⟨a, true, (w.callAt host op time).coordinator.now⟩ :=
    newHandouts_append rfl
  constructor
  · intro c stage hget
    rcases hsched.threads c stage hget with hold | rfl
    · exact .stays hold
    · exact .idles rfl
  · intro c a ha
    rcases hsched.injected c a ha with hold | ⟨hinjected, -⟩
    · exact .inl hold
    · right
      rw [hnew]
      exact ⟨_, List.mem_map_of_mem hinjected, rfl, rfl⟩
  · intro roots hroots
    change roots ∈ (scheduleAdmissions maxActive offered (w.rootsOf host op time)
      w.dispatcher).dispatcher.stranded at hroots
    rw [hsched.rest.2] at hroots
    exact .inl hroots

theorem shifts_replayQueue (limit : Int) (offered : Bool) (time : Seconds) :
    Shifts w step (w.replayQueue host maxActive limit offered time) := by
  unfold World.replayQueue
  by_cases hfull : w.dispatcher.closed ∨ maxActive ≤ w.dispatcher.claimedRoots
  · rw [if_pos hfull]
    exact shifts_still rfl rfl fun _ hroots => hroots
  · rw [if_neg hfull]
    exact shifts_admitRoots offered _ time

/-- A thread moves on after a step. -/
theorem Shifts.moveTo (h : Shifts w step w') (hstage : Becomes w c step stage) :
    Shifts w step (w'.moveTo c stage) := by
  constructor
  · intro other found hget
    change (w'.dispatcher.threads.set c stage).get? other = some found at hget
    rw [Dict.get?_set] at hget
    by_cases hother : c = other
    · rw [if_pos hother, Option.some.injEq] at hget
      rw [← hother, ← hget]
      exact hstage
    · rw [if_neg hother] at hget
      exact h.threads other found hget
  · exact h.injected
  · exact h.stranded

theorem shifts_refl : Shifts w step w :=
  shifts_still rfl rfl fun _ hroots => hroots

/-- A thread takes what was injected. -/
theorem shifts_takeInjected {taken : List RootAdmission → Stage}
    (hstage : Becomes w c step (taken (w.dispatcher.injectedOf c))) :
    Shifts w step (w.takeInjected c taken) := by
  constructor
  · intro other found hget
    change (w.dispatcher.threads.set c _).get? other = some found at hget
    rw [Dict.get?_set] at hget
    by_cases hother : c = other
    · rw [if_pos hother, Option.some.injEq] at hget
      rw [← hother, ← hget]
      exact hstage
    · rw [if_neg hother] at hget
      exact .stays hget
  · intro other a ha
    change a ∈ (w.dispatcher.dropInjected c).injectedOf other at ha
    rw [injectedOf_drop] at ha
    by_cases hother : c = other
    · rw [if_pos hother] at ha
      cases ha
    · rw [if_neg hother] at ha
      exact .inl ha
  · intro roots hroots
    exact .inl hroots

/-- A thread ends, or takes the roots that wait for it. -/
theorem shifts_popPending : Shifts w step (w.popPending c) := by
  unfold World.popPending
  cases hpending : w.dispatcher.pendingOf c with
  | nil =>
      constructor
      · intro other found hget
        change (w.dispatcher.threads.pop c).get? other = some found at hget
        rw [Dict.get?_pop_eq_some_iff] at hget
        exact .stays hget.2
      · intro other a ha
        change a ∈ (w.dispatcher.dropInjected c).injectedOf other at ha
        rw [injectedOf_drop] at ha
        by_cases hother : c = other
        · rw [if_pos hother] at ha
          cases ha
        · rw [if_neg hother] at ha
          exact .inl ha
      · intro roots hroots
        rcases List.mem_append.mp hroots with hold | hnew
        · exact .inl hold
        · exact .inr ⟨c, List.mem_singleton.mp hnew⟩
  | cons first rest =>
      have hmoved : Shifts w step (w.moveTo c (.batches (splitBatches [] (first :: rest)))) :=
        shifts_refl.moveTo (.idles rfl)
      exact ⟨hmoved.threads, hmoved.injected, hmoved.stranded⟩

theorem shifts_endThread : Shifts w step (w.endThread c) := by
  constructor
  · intro other found hget
    change (w.dispatcher.threads.pop c).get? other = some found at hget
    rw [Dict.get?_pop_eq_some_iff] at hget
    exact .stays hget.2
  · intro other a ha
    exact .inl ha
  · intro roots hroots
    exact .inl hroots

theorem shifts_startBatch {batch : List RootAdmission} {rest : List (List RootAdmission)} :
    Shifts w (.thread c .nextBatch) (w.startBatch c batch rest) := by
  have hmoved : Shifts w (.thread c .nextBatch) (w.moveTo c (.running batch rest)) :=
    shifts_refl.moveTo (.starts batch rest)
  refine ⟨hmoved.threads, ?_, hmoved.stranded⟩
  intro other a ha
  exact .inl ha

theorem shifts_thread {action : ThreadStep} (hget : w.dispatcher.threads.get? c = some stage)
    (h : w.threadNext host maxActive c action stage = some w') :
    Shifts w (.thread c action) w' := by
  have hcall (op : Maintenance.Op) (time : Seconds) :
      Shifts w (.thread c action) (w.callAt host op time) :=
    shifts_still rfl rfl fun _ hroots => hroots
  unfold World.threadNext at h
  split at h
  · cases h
    exact shifts_popPending
  · cases h
    exact shifts_refl.moveTo (.idles rfl)
  · cases h
    exact shifts_startBatch
  · cases h
    exact shifts_refl.moveTo (.returns hget)
  · cases h
    exact shifts_refl.moveTo (.idles rfl)
  · cases h
    exact shifts_takeInjected (.settles hget)
  · cases h
    exact shifts_refl.moveTo (.idles rfl)
  · cases h
    exact (hcall _ _).moveTo (.idles rfl)
  · cases h
    exact shifts_refl.moveTo (.idles rfl)
  · cases h
    exact shifts_takeInjected (.idles rfl)
  · cases h
    exact (hcall _ _).moveTo (.idles rfl)
  · cases h
    exact shifts_endThread
  · cases h
    have hreleased : ∀ count, Shifts w (.thread c .release) (w.releaseClaimed count) :=
      fun _ => shifts_still rfl rfl fun _ hroots => hroots
    exact (hreleased _).moveTo (.idles rfl)
  · cases h
    exact (shifts_replayQueue _ _ _).moveTo (.idles rfl)
  · cases h
    exact shifts_endThread
  · cases h

/-- Every step of the dispatcher does only that. -/
theorem step_shifts (h : w.next host maxActive step = some w') : Shifts w step w' := by
  cases step with
  | submit contactId context offered time =>
      rw [World.next] at h
      by_cases hrefused : w.dispatcher.closed ∨ context = ""
      · rw [if_pos hrefused] at h
        cases h
      · rw [if_neg hrefused] at h
        cases h
        exact shifts_admitRoots offered _ time
  | replay limit offered time =>
      cases h
      exact shifts_replayQueue limit offered time
  | giveBack time raises =>
      rw [World.next] at h
      cases hoverflow : w.dispatcher.overflow with
      | nil =>
          rw [hoverflow] at h
          cases h
      | cons roots rest =>
          rw [hoverflow] at h
          cases h
          split <;> exact shifts_still rfl rfl fun _ hroots => hroots
  | beat admission time =>
      rw [World.next] at h
      split at h
      · cases h
        exact shifts_still rfl rfl fun _ hroots => hroots
      · cases h
  | leave time raises =>
      rw [World.next] at h
      cases hstranded : w.dispatcher.stranded with
      | nil =>
          rw [hstranded] at h
          cases h
      | cons roots rest =>
          rw [hstranded] at h
          cases h
          have hlater : ∀ found ∈ rest, found ∈ w.dispatcher.stranded := by
            intro found hfound
            rw [hstranded]
            exact List.mem_cons_of_mem _ hfound
          split
          · exact shifts_still rfl rfl hlater
          · exact shifts_still rfl rfl hlater
  | shutdown =>
      cases h
      exact shifts_still rfl rfl fun _ hroots => hroots
  | thread c action =>
      rw [World.next] at h
      cases hget : w.dispatcher.threads.get? c with
      | none =>
          rw [hget] at h
          cases h
      | some stage =>
          rw [hget] at h
          exact shifts_thread hget h
  | elsewhere op time =>
      cases h
      exact shifts_still rfl rfl fun _ hroots => hroots

end Steps

/-! ## The law in every run -/

section Law

variable {host : Host} {maxActive : Nat} {s s' : Service} {e : ServiceStep} {a : RootAdmission}
  {c : String}

theorem Silent.answers (h : Silent a) : s.Answers a := by
  intro command hcarries
  rw [h command] at hcarries
  cases hcarries

/-- What was handled stays so. -/
theorem Service.Answers.mono (h : s.Answers a) (hle : ∀ answer ∈ s.handled, answer ∈ s'.handled) :
    s'.Answers a := by
  intro command hcarries
  rcases h command hcarries with ⟨answer, hanswer, ha, hcommand⟩
  exact ⟨answer, hle answer hanswer, ha, hcommand⟩

/-- What is known in a stage: a run that has read its batch has handled its commands. -/
def Service.Stands (s : Service) (c : String) : Stage → Prop
  | .running batch _ => ∀ left, s.texts c = some left → (∀ a ∈ batch, s.Answers a) ∧
      ∀ text, left = some text → ∀ command, carries command text = false
  | .returned batch _ => ∀ a ∈ batch, s.Answers a
  | .completing settled _ => ∀ a ∈ settled, s.Answers a
  | _ => True

/-- The law, with what is known of the stages and of the injected roots. -/
structure Service.Kept (s : Service) : Prop where
  stages : ∀ c stage, s.world.dispatcher.threads.get? c = some stage → s.Stands c stage
  injected : ∀ c, ∀ a ∈ s.world.dispatcher.injectedOf c, Silent a
  stranded : ∀ roots ∈ s.world.dispatcher.stranded, ∀ a ∈ roots, Silent a
  obeys : s.Obeys

theorem Service.Stands.of_idle {stage : Stage} (h : stage.idle = true) : s.Stands c stage := by
  cases stage with
  | running batch rest => cases h
  | returned batch rest => cases h
  | completing settled rest => cases h
  | _ => trivial

/-- A stage stands with more commands handled, unless its run is a new one. -/
theorem Service.Stands.mono {stage : Stage} (h : s.Stands c stage)
    (hle : ∀ answer ∈ s.handled, answer ∈ s'.handled)
    (htexts : s'.texts c = s.texts c ∨ s'.texts c = none) : s'.Stands c stage := by
  cases stage with
  | running batch rest =>
      intro left hleft
      rcases htexts with hsame | hnone
      · rw [hsame] at hleft
        rcases h left hleft with ⟨hanswers, hsilent⟩
        exact ⟨fun a ha => (hanswers a ha).mono hle, hsilent⟩
      · rw [hnone] at hleft
        cases hleft
  | returned batch rest => exact fun a ha => (h a ha).mono hle
  | completing settled rest => exact fun a ha => (h a ha).mono hle
  | _ => trivial

theorem textsAfter_cases (s : Service) (step : Step) (c : String) :
    s.textsAfter step c = s.texts c ∨ s.textsAfter step c = none := by
  unfold Service.textsAfter
  split
  · split
    · exact .inr rfl
    · exact .inl rfl
  · exact .inl rfl

/-- The roots that a step completes are answered. -/
theorem Service.Kept.completes (h : s.Kept) (step : Step) :
    ∀ a ∈ completes s.world step, s.Answers a := by
  intro a ha
  unfold Dispatch.completes at ha
  split at ha
  · split at ha
    · rename_i hget
      exact h.stages _ _ hget a ha
    · cases ha
  · cases hstranded : s.world.dispatcher.stranded with
    | nil =>
        rw [hstranded] at ha
        cases ha
    | cons roots rest =>
        rw [hstranded] at ha
        apply Silent.answers
        apply h.stranded roots _ a ha
        rw [hstranded]
        exact List.mem_cons_self
  · cases ha

/-- A silent root is injected as a silent text. -/
theorem carries_injected {command : Command} (h : Silent a) :
    carries command (injectedPrefix ++ a.context) = false := by
  have hstart : injectedPrefix.toList = '[' :: 'N' :: injectedPrefix.toList.drop 2 := by
    decide +kernel
  have hlater : '[' ∉ 'N' :: injectedPrefix.toList.drop 2 := by
    decide +kernel
  have hmarker : command.marker = '[' :: 'C' :: command.marker.drop 2 := by
    cases command <;> rfl
  have hnone := h command
  rw [carries_eq_false_iff] at hnone ⊢
  rw [String.toList_append, hstart]
  generalize injectedPrefix.toList.drop 2 = later at hlater
  rw [List.cons_append, List.infix_cons_iff]
  rintro (hfront | hrest)
  · rw [hmarker, List.cons_append, List.cons_prefix_cons, List.cons_prefix_cons] at hfront
    exact absurd hfront.2.1 (by decide)
  · rw [← marker_eq] at hnone hrest
    exact hnone (infix_of_append hrest hlater)

/-- A step of the dispatcher keeps the law, if it injects no command. -/
theorem Service.Kept.world (h : s.Kept) {step : Step} {w : World}
    (hnext : s.world.next host maxActive step = some w) (hmay : s.mayStep step = true)
    (hapart : ∀ handout ∈ newHandouts s.world w, handout.injected = true →
      Silent handout.admission) :
    Service.Kept
      { s with
        world := w
        texts := s.textsAfter step
        provided := s.provided ++ injectedTexts s.world w
        completed := s.completed ++ Dispatch.completes s.world step } := by
  have hshifts := step_shifts hnext
  constructor
  · intro c stage hget
    have hbecomes := hshifts.threads c stage hget
    cases hbecomes with
    | stays hold =>
        exact (h.stages c stage hold).mono (fun _ hanswer => hanswer) (textsAfter_cases s step c)
    | idles hidle => exact .of_idle hidle
    | starts batch rest =>
        intro left hleft
        dsimp only [Service.textsAfter] at hleft
        rw [if_pos rfl] at hleft
        cases hleft
    | returns hold =>
        dsimp only [Service.mayStep] at hmay
        rcases Option.isSome_iff_exists.mp hmay with ⟨left, hleft⟩
        exact (h.stages c _ hold left hleft).1
    | settles hold =>
        intro a ha
        rcases List.mem_append.mp ha with hbatch | hinjected
        · exact h.stages c _ hold a hbatch
        · exact (h.injected c a hinjected).answers
  · intro c a ha
    rcases hshifts.injected c a ha with hold | ⟨handout, hnew, hinjected, rfl⟩
    · exact h.injected c a hold
    · exact hapart handout hnew hinjected
  · intro roots hroots a ha
    rcases hshifts.stranded roots hroots with hold | ⟨c, rfl⟩
    · exact h.stranded roots hold a ha
    · exact h.injected c a ha
  · constructor
    · intro a ha
      rcases List.mem_append.mp ha with hold | hnew
      · exact h.obeys.handled a hold
      · exact h.completes step a hnew
    · intro text htext command
      rcases List.mem_append.mp htext with hold | hnew
      · exact h.obeys.silent text hold command
      · rcases List.mem_map.mp hnew with ⟨handout, hmem, rfl⟩
        rw [List.mem_filter] at hmem
        exact carries_injected (hapart handout hmem.1 hmem.2)

/-- A run that reads a plain batch handles its commands. -/
theorem Service.Kept.read (h : s.Kept) {current : Bool} (hread : s.read c current = some s')
    (hplain : s.Apart host maxActive (.read c current)) : s'.Kept := by
  unfold Service.read at hread
  split at hread
  · rename_i batch rest hget hunread
    rcases partitionPending_plain current (hplain _ hget) with ⟨hcommands, hsilent⟩
    dsimp only at hread
    generalize partitionPending current (batchContext batch) = reading at hread hcommands hsilent
    cases hread
    have hmore : ∀ answer ∈ s.handled, answer ∈ s.handled ++ [⟨batch, reading.commands⟩] :=
      fun answer hanswer => List.mem_append_left _ hanswer
    constructor
    · intro other stage hother
      by_cases hsame : other = c
      · rw [hsame] at hother ⊢
        dsimp only at hother
        rw [hget] at hother
        cases hother
        intro left hleft
        dsimp only at hleft
        rw [if_pos rfl, Option.some.injEq] at hleft
        rw [← hleft]
        refine ⟨?_, hsilent⟩
        intro a ha command hcarries
        refine ⟨⟨batch, reading.commands⟩, ?_, ha, ?_⟩
        · exact List.mem_append_right _ (List.mem_singleton_self _)
        · exact hcommands command (carries_batchContext ha hcarries)
      · refine (h.stages other stage hother).mono hmore (.inl ?_)
        exact if_neg hsame
    · exact h.injected
    · exact h.stranded
    · constructor
      · intro a ha
        exact (h.obeys.handled a ha).mono hmore
      · exact h.obeys.silent
  · cases hread

/-- A run hands on what it has left. -/
theorem Service.Kept.call (h : s.Kept) (hcall : s.call c = some s') : s'.Kept := by
  unfold Service.call at hcall
  split at hcall
  · rename_i text hget hleft
    cases hcall
    refine ⟨h.stages, h.injected, h.stranded, h.obeys.handled, ?_⟩
    intro other hother command
    rcases List.mem_append.mp hother with hold | hnew
    · exact h.obeys.silent other hold command
    · rw [List.mem_singleton.mp hnew]
      exact (h.stages c _ hget _ hleft).2 text rfl command
  · cases hcall

theorem Service.Kept.step (h : s.Kept) (hapart : s.Apart host maxActive e)
    (hnext : s.next host maxActive e = some s') : s'.Kept := by
  cases e with
  | world step =>
      rw [Service.next] at hnext
      by_cases hmay : s.mayStep step = true
      · rw [if_pos hmay] at hnext
        rcases Option.map_eq_some_iff.mp hnext with ⟨w, hw, rfl⟩
        exact h.world hw hmay (hapart w hw)
      · rw [if_neg hmay] at hnext
        cases hnext
  | read c current => exact h.read hnext hapart
  | call c => exact h.call hnext

theorem kept_initial (t : Seconds) : (Service.initial t).Kept := by
  constructor
  · intro c stage hget
    change (Dict.empty : Dict String Stage).get? c = some stage at hget
    rw [Dict.get?_empty] at hget
    cases hget
  · intro c a ha
    cases ha
  · intro roots hroots
    cases hroots
  · constructor
    · intro a ha
      cases ha
    · intro text htext
      cases htext

/-- In every run in which no injected root carries a marker and what the runs read is plain, the
commands of all completed roots are handled and no marker is handed to the manager. -/
theorem commands_law
    (h : ((serving host maxActive).restrict (Service.Apart host maxActive)).Reachable s) :
    s.Obeys := by
  have hkept : s.Kept := by
    apply h.invariant
    · rintro s ⟨t, rfl⟩
      exact kept_initial t
    · intro s e s' _ hkept hstep
      exact hkept.step hstep.1 hstep.2.1
  exact hkept.obeys

end Law

/-! ## A command in a batch, and one that is injected -/

section Runs

instance {p : Command → Prop} [DecidablePred p] : Decidable (∀ command, p command) :=
  decidable_of_iff (p .newSession ∧ p .start) <| by
    constructor
    · rintro ⟨hsession, hstart⟩ command
      cases command
      · exact hsession
      · exact hstart
    · intro h
      exact ⟨h .newSession, h .start⟩

instance (a : RootAdmission) : Decidable (Silent a) :=
  inferInstanceAs (Decidable (∀ command, carries command a.context = false))

instance (context : String) : Decidable (PlainCommands context) :=
  decidable_of_iff
    ((∀ command, carries command context = true → carries command (readText context) = true) ∧
      (extractAccuracyReviewRoot
          (String.ofList (extractQueuedLongTaskRootMetadata context.toList)) ≠ "" →
        ∀ command, carries command context = false) ∧
      ∀ command : Command, ¬ command.marker <:+:
        cut Command.start.marker (cut Command.newSession.marker (readText context).toList)) <| by
    constructor
    · rintro ⟨hread, hordinary, hapart⟩
      exact ⟨hread, hordinary, hapart⟩
    · intro h
      exact ⟨h.read, h.ordinary, h.apart⟩

instance : (stage : Stage) → Decidable stage.Readable
  | .running batch _ => inferInstanceAs (Decidable (PlainCommands (batchContext batch)))
  | .popping | .batches _ | .returned _ _ | .raised _ _ | .completing _ _ | .retrying _ _
  | .releasing _ _ | .replaying _ => .isTrue trivial

instance (host : Host) (maxActive : Nat) (s : Service) :
    (e : ServiceStep) → Decidable (s.Apart host maxActive e)
  | .world step => inferInstanceAs (Decidable (∀ w ∈ s.world.next host maxActive step,
      ∀ handout ∈ newHandouts s.world w, handout.injected = true → Silent handout.admission))
  | .read c _ =>
      inferInstanceAs (Decidable (∀ stage ∈ s.world.dispatcher.threads.get? c, stage.Readable))
  | .call _ => .isTrue trivial

/-- The step is one of the dispatcher, and its clock does not go back. -/
def Service.timely (s : Service) : ServiceStep → Bool
  | .world (.elsewhere _ _) => false
  | .world step => step.time.all fun time => s.world.coordinator.now ≤ time
  | _ => true

/-- One step that is allowed to be taken. -/
def Service.guarded (host : Host) (maxActive : Nat) (guard : Service → ServiceStep → Bool)
    (s : Service) (e : ServiceStep) : Option Service :=
  if s.timely e && guard s e then s.next host maxActive e else none

theorem timely_step {host : Host} {maxActive : Nat} {s s' : Service} {e : ServiceStep}
    (htimely : s.timely e = true) (hnext : s.next host maxActive e = some s') :
    (serving host maxActive).step s e s' := by
  refine ⟨hnext, ?_⟩
  rintro step rfl
  rw [Service.next] at hnext
  by_cases hmay : s.mayStep step = true
  · rw [if_pos hmay] at hnext
    rcases Option.map_eq_some_iff.mp hnext with ⟨w, hw, rfl⟩
    refine ⟨hw, ?_, ?_⟩
    · intro time htime
      cases step with
      | elsewhere op at_ => cases htimely
      | _ =>
          dsimp only [Service.timely] at htimely
          rw [htime, Option.all_some, decide_eq_true_eq] at htimely
          exact htimely
    · rintro op time rfl
      cases htimely
  · rw [if_neg hmay] at hnext
    cases hnext

/-- Steps that are allowed make a run of the guarded system. -/
theorem reachable_played {host : Host} {maxActive : Nat} {guard : Service → ServiceStep → Bool}
    {steps : List ServiceStep} {s : Service}
    (hplay : TransitionSystem.play (Service.guarded host maxActive guard) (.initial 0) steps =
      some s) :
    ((serving host maxActive).restrict fun s e => guard s e = true).Reachable s := by
  have hstart : ((serving host maxActive).restrict fun s e => guard s e = true).Reachable
      (.initial 0) := .init ⟨0, rfl⟩
  apply hstart.play _ hplay
  intro a e b hnext
  unfold Service.guarded at hnext
  by_cases hgo : (a.timely e && guard a e) = true
  · rw [if_pos hgo] at hnext
    rw [Bool.and_eq_true] at hgo
    exact ⟨hgo.2, timely_step hgo.1 hnext⟩
  · rw [if_neg hgo] at hnext
    cases hnext

/-- A command that is run in a batch. -/
def commandRun : List ServiceStep :=
  [.world (.submit "c1" "[COMMAND: NEW_SESSION]" false 0), .world (.thread "c1" .pop),
    .world (.thread "c1" .nextBatch), .read "c1" true, .world (.thread "c1" (.finish false)),
    .world (.thread "c1" (.review false)), .world (.thread "c1" (.complete 1 false))]

/-- It is handled and completed. -/
theorem commands_law_batch : ∃ s,
    TransitionSystem.play (Service.guarded Maintenance.countingHost 16 fun s e =>
        decide (s.Apart Maintenance.countingHost 16 e)) (.initial 0) commandRun = some s ∧
      s.completed.map (fun a => a.context) = ["[COMMAND: NEW_SESSION]"] ∧ s.Obeys := by
  have hplay : (TransitionSystem.play (Service.guarded Maintenance.countingHost 16 fun s e =>
      decide (s.Apart Maintenance.countingHost 16 e)) (.initial 0) commandRun).map
        (fun s => s.completed.map fun a => a.context) = some ["[COMMAND: NEW_SESSION]"] := by
    decide +kernel
  rcases Option.map_eq_some_iff.mp hplay with ⟨s, hs, hcompleted⟩
  refine ⟨s, hs, hcompleted, @commands_law Maintenance.countingHost 16 s ?_⟩
  simpa only [decide_eq_true_eq] using reachable_played hs

/-- A command that arrives while a run goes on. -/
def injectedRun : List ServiceStep :=
  [.world (.submit "c1" "hello" false 0), .world (.thread "c1" .pop),
    .world (.thread "c1" .nextBatch), .read "c1" true, .call "c1",
    .world (.submit "c1" "[COMMAND: NEW_SESSION]" true 1),
    .world (.thread "c1" (.finish false)), .world (.thread "c1" (.review false)),
    .world (.thread "c1" (.complete 2 false))]

/-- It is completed with that run, no new session is made, and the manager gets the marker. -/
theorem injected_command :
    (TransitionSystem.play (Service.guarded Maintenance.countingHost 16 fun _ _ => true)
      (.initial 0) injectedRun).map (fun s => (s.completed.map (fun a => a.context),
        s.handled.flatMap (fun answer => answer.commands), s.provided)) =
        some (["hello", "[COMMAND: NEW_SESSION]"], [],
          ["hello", injectedPrefix ++ "[COMMAND: NEW_SESSION]"]) ∧
      ¬ ∀ s, (serving Maintenance.countingHost 16).Reachable s → s.Obeys := by
  have hplay : (TransitionSystem.play (Service.guarded Maintenance.countingHost 16 fun _ _ => true)
      (.initial 0) injectedRun).map (fun s => (s.completed.map (fun a => a.context),
        s.handled.flatMap (fun answer => answer.commands), s.provided)) =
        some (["hello", "[COMMAND: NEW_SESSION]"], [],
          ["hello", injectedPrefix ++ "[COMMAND: NEW_SESSION]"]) := by
    decide +kernel
  refine ⟨hplay, ?_⟩
  intro hclaim
  rcases Option.map_eq_some_iff.mp hplay with ⟨s, hs, heq⟩
  rw [Prod.mk.injEq, Prod.mk.injEq] at heq
  have hsilent := (hclaim s (reachable_played hs).of_restrict).silent
  have hmem : injectedPrefix ++ "[COMMAND: NEW_SESSION]" ∈ s.provided := by
    rw [heq.2.2]
    simp
  have hcarried : carries .newSession (injectedPrefix ++ "[COMMAND: NEW_SESSION]") = true := by
    decide +kernel
  rw [hsilent _ hmem] at hcarried
  cases hcarried

end Runs
end Dispatch
end Stemcell
