import Stemcell.Lib.Dict
import Stemcell.Lib.Transition
import Stemcell.Lib.WriteLog
import Std.Data.String.ToNat

/-!
# The tree of a work

A work has tasks, and a task has subtasks.  A call that adds one of them, or that starts or ends one,
writes the tree, pushes the change to Glass, and takes its write back if the push fails.  Other calls
write between these transactions.

Main results:

- Definition `nextWork`: one transaction of some call.
- Theorem `work_law`: in a run in which no add finds its number taken and no call takes back what
  others have written since, every added task stays with its title and todo id, no two adds share
  them, and the tree is what the calls that have not failed wrote.
- Theorem `second_task_lost`: a task that an add overwrites, after a failed add has set the counter
  back.

Current gaps:

- The name, the owner, the state and the times of a work are left out.
- Tasks and subtasks are keyed by their numbers.
-/

namespace Stemcell
namespace Iwantto

open Lib

/-! ## The tree -/

inductive TodoState
  | yetToStart
  | inProgress
  | completed
deriving DecidableEq, Repr

/-- What tasks and subtasks have in common. -/
structure TodoEntry where
  title : String
  description : String
  state : TodoState
  todoId : String
  startNote : String
  endNote : String
deriving DecidableEq, Repr

structure TaskEntry where
  entry : TodoEntry
  nextSubtaskNumber : ℕ
  subtasks : Dict ℕ TodoEntry
deriving DecidableEq, Repr

structure Work where
  nextTaskNumber : ℕ
  tasks : Dict ℕ TaskEntry
deriving DecidableEq, Repr

/-- A task, or a subtask of a task. -/
inductive WorkNode
  | task (number : ℕ)
  | subtask (parent number : ℕ)
deriving DecidableEq, Repr

/-- The id under which Glass has a node. -/
def WorkNode.todoId (workId : String) : WorkNode → String
  | task number => workId ++ "-t" ++ number.repr
  | subtask parent number => workId ++ "-t" ++ parent.repr ++ "-s" ++ number.repr

/-- The node goes when the first one goes. -/
def WorkNode.covers : WorkNode → WorkNode → Bool
  | task n, task n' => n = n'
  | task n, subtask n' _ => n = n'
  | subtask n m, other => other = subtask n m

def TodoEntry.new (title description todoId : String) : TodoEntry where
  title := title
  description := description
  state := .yetToStart
  todoId := todoId
  startNote := ""
  endNote := ""

namespace TodoEntry

def note (starting : Bool) (e : TodoEntry) : String :=
  if starting then e.startNote else e.endNote

/-- `node["state"] = …; node[note_field] = …`. -/
def put (starting : Bool) (state : TodoState) (note : String) (e : TodoEntry) : TodoEntry :=
  if starting then { e with state, startNote := note } else { e with state, endNote := note }

end TodoEntry

/-! ## Transactions -/

namespace Work

def find (work : Work) : WorkNode → Option TodoEntry
  | .task number => (work.tasks.get? number).map TaskEntry.entry
  | .subtask parent number => (work.tasks.get? parent).bind fun task => task.subtasks.get? number

/-- `work.get("next_task_number") or 1`. -/
def taskNumber (work : Work) : ℕ :=
  if work.nextTaskNumber = 0 then 1 else work.nextTaskNumber

def addTask (workId : String) (work : Work) (title description : String) : Work :=
  let number := work.taskNumber
  let entry := TodoEntry.new title description ((WorkNode.task number).todoId workId)
  { nextTaskNumber := number + 1
    tasks := work.tasks.set number { entry, nextSubtaskNumber := 1, subtasks := Dict.empty } }

def rollbackTask (work : Work) (number : ℕ) : Work :=
  { nextTaskNumber := number, tasks := work.tasks.pop number }

end Work

/-- `entry.get("next_subtask_number") or 1`. -/
def TaskEntry.subtaskNumber (task : TaskEntry) : ℕ :=
  if task.nextSubtaskNumber = 0 then 1 else task.nextSubtaskNumber

namespace Work

def addSubtask (workId : String) (work : Work) (taskNumber : ℕ) (task : TaskEntry)
    (title description : String) : Work :=
  let number := task.subtaskNumber
  let entry := TodoEntry.new title description ((WorkNode.subtask taskNumber number).todoId workId)
  { work with
    tasks := work.tasks.set taskNumber
      { task with nextSubtaskNumber := number + 1, subtasks := task.subtasks.set number entry } }

def rollbackSubtask (work : Work) (taskNumber number : ℕ) : Work :=
  match work.tasks.get? taskNumber with
  | none => work
  | some task =>
      { work with
        tasks := work.tasks.set taskNumber
          { task with nextSubtaskNumber := number, subtasks := task.subtasks.pop number } }

/-- Take an add back. -/
def rollback (work : Work) : WorkNode → Work
  | .task number => work.rollbackTask number
  | .subtask parent number => work.rollbackSubtask parent number

/-- `apply` of a transition; a node that is gone raises, and nothing is written. -/
def apply (work : Work) (starting : Bool) (state : TodoState) (note : String) : WorkNode → Work
  | .task number =>
      match work.tasks.get? number with
      | none => work
      | some task =>
          { work with
            tasks := work.tasks.set number { task with entry := task.entry.put starting state note } }
  | .subtask taskNumber number =>
      match work.tasks.get? taskNumber with
      | none => work
      | some task =>
        match task.subtasks.get? number with
        | none => work
        | some entry =>
            { work with
              tasks := work.tasks.set taskNumber
                { task with
                  subtasks := task.subtasks.set number (entry.put starting state note) } }

end Work

/-! ## Calls -/

/-- What a call writes at a node. -/
inductive WorkWrite
  | add (entry : TodoEntry)
  | move (starting : Bool) (state : TodoState) (note : String)
deriving DecidableEq, Repr

abbrev WorkLog := List (Write WorkNode WorkWrite)

/-- How a write changes an entry. -/
def WorkWrite.act (value : Option TodoEntry) : WorkWrite → Option TodoEntry
  | add entry => some entry
  | move starting state note => value.map (TodoEntry.put starting state note)

/-- How far a call is.  `seen` records the writes at the node when the call read it. -/
inductive WorkCall
  | adding (node : WorkNode) (entry : TodoEntry)
  | added (node : WorkNode) (entry : TodoEntry)
  | read (node : WorkNode) (starting : Bool) (note : String) (previous : TodoState × String)
      (seen : WorkLog)
  | moving (node : WorkNode) (starting : Bool) (note : String) (previous : TodoState × String)
      (seen : WorkLog)
  | moved (node : WorkNode) (starting : Bool) (note : String)
  | failed
deriving DecidableEq, Repr

def newState (starting : Bool) : TodoState :=
  if starting then .inProgress else .completed

/-- The write of a call that has written and has not taken it back. -/
def WorkCall.write (call : ℕ) : WorkCall → Option (Write WorkNode WorkWrite)
  | adding node entry | added node entry => some ⟨call, node, .add entry⟩
  | moving node starting note _ _ | moved node starting note =>
      some ⟨call, node, .move starting (newState starting) note⟩
  | read _ _ _ _ _ | failed => none

/-- A work with the calls on it, and the writes of the calls that have not failed. -/
structure WorkState where
  work : Work
  calls : Dict ℕ WorkCall
  log : WorkLog
deriving DecidableEq, Repr

/-- A transaction of the call with some number, or the end of its push. -/
inductive WorkEvent
  | addTask (call : ℕ) (title description : String)
  | addSubtask (call task : ℕ) (title description : String)
  | read (call : ℕ) (node : WorkNode) (starting : Bool) (note : String)
  | write (call : ℕ)
  | pushed (call : ℕ)
  | pushFailed (call : ℕ)
deriving DecidableEq, Repr

section Source

variable (workId : String)

def nextWork (s : WorkState) : WorkEvent → WorkState
  | .addTask call title description =>
      if (s.calls.get? call).isSome ∨ title = "" ∨ description = "" then s
      else
        let node := WorkNode.task s.work.taskNumber
        let entry := TodoEntry.new title description (node.todoId workId)
        { work := s.work.addTask workId title description
          calls := s.calls.set call (.adding node entry)
          log := s.log ++ [⟨call, node, .add entry⟩] }
  | .addSubtask call taskNumber title description =>
      if (s.calls.get? call).isSome ∨ title = "" ∨ description = "" then s
      else
        match s.work.tasks.get? taskNumber with
        | none => s
        | some task =>
            let node := WorkNode.subtask taskNumber task.subtaskNumber
            let entry := TodoEntry.new title description (node.todoId workId)
            { work := s.work.addSubtask workId taskNumber task title description
              calls := s.calls.set call (.adding node entry)
              log := s.log ++ [⟨call, node, .add entry⟩] }
  | .read call node starting note =>
      if (s.calls.get? call).isSome then s
      else
        match s.work.find node with
        | none => s
        | some entry =>
            { s with
              calls := s.calls.set call (.read node starting note
                (entry.state, entry.note starting) (WriteLog.on s.log node)) }
  | .write call =>
      match s.calls.get? call with
      | some (.read node starting note previous seen) =>
          if (s.work.find node).isNone then { s with calls := s.calls.set call .failed }
          else
            { work := s.work.apply starting (newState starting) note node
              calls := s.calls.set call (.moving node starting note previous seen)
              log := s.log ++ [⟨call, node, .move starting (newState starting) note⟩] }
      | _ => s
  | .pushed call =>
      match s.calls.get? call with
      | some (.adding node entry) => { s with calls := s.calls.set call (.added node entry) }
      | some (.moving node starting note _ _) =>
          { s with calls := s.calls.set call (.moved node starting note) }
      | _ => s
  | .pushFailed call =>
      match s.calls.get? call with
      | some (.adding node _) =>
          { work := s.work.rollback node
            calls := s.calls.set call .failed
            log := WriteLog.forget s.log call }
      | some (.moving node starting _ previous _) =>
          { work := s.work.apply starting previous.1 previous.2 node
            calls := s.calls.set call .failed
            log := WriteLog.forget s.log call }
      | _ => s

/-- The transactions of calls on a new work, in any order. -/
def workSystem : TransitionSystem WorkState WorkEvent where
  init s := s = ⟨⟨1, Dict.empty⟩, Dict.empty, []⟩
  step s e t := t = nextWork workId s e

end Source

/-! ## The law and its condition -/

/-- What the calls have made of the tree. -/
structure WorkLaw (s : WorkState) : Prop where
  stays : ∀ call node entry, s.calls.get? call = some (.added node entry) →
    ∃ e, s.work.find node = some e ∧ e.title = entry.title ∧ e.todoId = entry.todoId
  distinct : ∀ call call' node node' entry entry', s.calls.get? call = some (.added node entry) →
    s.calls.get? call' = some (.added node' entry') → call ≠ call' →
    node ≠ node' ∧ entry.todoId ≠ entry'.todoId
  written : ∀ node, s.work.find node = WriteLog.replay WorkWrite.act s.log node
  present : ∀ w ∈ s.log, s.work.find w.key ≠ none

/-- An add finds its number free, and a call takes back only what no other call has written since
it read the node, or made it. -/
def Undisturbed (s : WorkState) : WorkEvent → Prop
  | .addTask _ _ _ => s.work.tasks.get? s.work.taskNumber = none
  | .addSubtask _ taskNumber _ _ => ∀ task, s.work.tasks.get? taskNumber = some task →
      task.subtasks.get? task.subtaskNumber = none
  | .pushFailed call =>
      (∀ node entry, s.calls.get? call = some (.adding node entry) →
        ∀ w ∈ s.log, node.covers w.key = true → w.call = call) ∧
      (∀ node starting note previous seen,
        s.calls.get? call = some (.moving node starting note previous seen) →
        WriteLog.on s.log node = seen ++ [⟨call, node, .move starting (newState starting) note⟩])
  | .read _ _ _ _ | .write _ | .pushed _ => True

/-! ## Ids -/

theorem repr_no_dash (n : ℕ) : '-' ∉ n.repr.toList := by
  intro h
  rw [Nat.repr, String.toList_ofList] at h
  have hdigit := Nat.isDigit_of_mem_toDigits (by decide) (by decide) h
  simp [Char.isDigit] at hdigit

/-- Nodes of one work have different ids on Glass. -/
theorem todoId_injective (workId : String) {node node' : WorkNode}
    (h : node.todoId workId = node'.todoId workId) : node = node' := by
  have hsplit : ∀ (a b c d : List Char), '-' ∉ a → '-' ∉ c → a ++ '-' :: b = c ++ '-' :: d →
      a = c ∧ b = d := by
    intro a
    induction a with
    | nil =>
        intro b c d _ hc heq
        cases c with
        | nil => exact ⟨rfl, by simpa using heq⟩
        | cons x c =>
            rw [List.nil_append, List.cons_append, List.cons.injEq] at heq
            exact absurd (heq.1 ▸ List.mem_cons_self) hc
    | cons x a ih =>
        intro b c d ha hc heq
        cases c with
        | nil =>
            rw [List.nil_append, List.cons_append, List.cons.injEq] at heq
            exact absurd (heq.1 ▸ List.mem_cons_self) ha
        | cons y c =>
            rw [List.cons_append, List.cons_append, List.cons.injEq] at heq
            rcases ih b c d (fun hx => ha (List.mem_cons_of_mem _ hx))
              (fun hx => hc (List.mem_cons_of_mem _ hx)) heq.2 with ⟨hac, hbd⟩
            exact ⟨by rw [heq.1, hac], hbd⟩
  have hlist := congrArg String.toList h
  cases node with
  | task n =>
      cases node' with
      | task n' =>
          simp only [WorkNode.todoId, String.toList_append, List.append_cancel_left_eq] at hlist
          rw [Nat.repr_injective (String.ext hlist)]
      | subtask n' m' =>
          simp only [WorkNode.todoId, String.toList_append, List.append_assoc,
            List.append_cancel_left_eq] at hlist
          have hmem : '-' ∈ n.repr.toList := by
            rw [hlist]
            simp
          exact absurd hmem (repr_no_dash n)
  | subtask n m =>
      cases node' with
      | task n' =>
          simp only [WorkNode.todoId, String.toList_append, List.append_assoc,
            List.append_cancel_left_eq] at hlist
          have hmem : '-' ∈ n'.repr.toList := by
            rw [← hlist]
            simp
          exact absurd hmem (repr_no_dash n')
      | subtask n' m' =>
          simp only [WorkNode.todoId, String.toList_append, List.append_assoc,
            List.append_cancel_left_eq] at hlist
          have hdash : "-s".toList = ['-', 's'] := rfl
          simp only [hdash, List.cons_append, List.nil_append] at hlist
          rcases hsplit _ _ _ _ (repr_no_dash n) (repr_no_dash n') hlist with ⟨hparent, hrest⟩
          rw [List.cons.injEq] at hrest
          rw [Nat.repr_injective (String.ext hparent), Nat.repr_injective (String.ext hrest.2)]

/-! ## The tree after one transaction -/

section Find

variable {workId : String} {work : Work}

@[simp]
theorem put_title (starting : Bool) (state : TodoState) (note : String) (e : TodoEntry) :
    (e.put starting state note).title = e.title := by
  cases starting <;> rfl

@[simp]
theorem put_todoId (starting : Bool) (state : TodoState) (note : String) (e : TodoEntry) :
    (e.put starting state note).todoId = e.todoId := by
  cases starting <;> rfl

/-- Putting the old values back. -/
theorem put_put_old (starting : Bool) (state : TodoState) (note : String) (e : TodoEntry) :
    (e.put starting state note).put starting e.state (e.note starting) = e := by
  cases starting <;> rfl

theorem find_subtask (parent number : ℕ) :
    work.find (.subtask parent number) =
      (work.tasks.get? parent).bind fun task => task.subtasks.get? number :=
  rfl

/-- A new task under a free number. -/
theorem find_addTask (hfree : work.tasks.get? work.taskNumber = none) (title description : String)
    (node : WorkNode) :
    (work.addTask workId title description).find node =
      if node = .task work.taskNumber then
        some (TodoEntry.new title description ((WorkNode.task work.taskNumber).todoId workId))
      else work.find node := by
  cases node with
  | task n =>
      by_cases h : work.taskNumber = n
      · simp [Work.addTask, Work.find, h]
      · have hne : n ≠ work.taskNumber := Ne.symm h
        simp [Work.addTask, Work.find, Dict.get?_set_of_ne _ _ h, hne]
  | subtask n m =>
      rw [if_neg (by simp), find_subtask, find_subtask]
      by_cases h : work.taskNumber = n
      · subst h
        simp [Work.addTask, hfree]
      · simp [Work.addTask, Dict.get?_set_of_ne _ _ h]

theorem find_rollbackTask (number : ℕ) (node : WorkNode) :
    (work.rollbackTask number).find node =
      if (WorkNode.task number).covers node then none else work.find node := by
  cases node with
  | task n =>
      by_cases h : number = n
      · simp [Work.rollbackTask, Work.find, WorkNode.covers, h]
      · simp [Work.rollbackTask, Work.find, WorkNode.covers, Dict.get?_pop_of_ne _ h, h]
  | subtask n m =>
      by_cases h : number = n
      · simp [Work.rollbackTask, Work.find, WorkNode.covers, h]
      · simp [Work.rollbackTask, Work.find, WorkNode.covers, Dict.get?_pop_of_ne _ h, h]

/-- A task whose subtasks change, and nothing else in it that a lookup sees. -/
theorem find_set_subtasks {parent : ℕ} {task task' : TaskEntry}
    (hget : work.tasks.get? parent = some task) (hentry : task'.entry = task.entry)
    (node : WorkNode) :
    ({ work with tasks := work.tasks.set parent task' } : Work).find node =
      match node with
      | .task n => work.find (.task n)
      | .subtask n m => if n = parent then task'.subtasks.get? m else work.find (.subtask n m) := by
  cases node with
  | task n =>
      by_cases h : parent = n
      · subst h
        simp [Work.find, hget, hentry]
      · simp [Work.find, Dict.get?_set_of_ne _ _ h]
  | subtask n m =>
      by_cases h : parent = n
      · subst h
        simp [Work.find]
      · have hne : n ≠ parent := Ne.symm h
        simp [Work.find, Dict.get?_set_of_ne _ _ h, hne]

theorem find_subtask_of_get? {parent : ℕ} {task : TaskEntry}
    (hget : work.tasks.get? parent = some task) (m : ℕ) :
    work.find (.subtask parent m) = task.subtasks.get? m := by
  rw [find_subtask, hget, Option.bind_some]

theorem find_addSubtask {parent : ℕ} {task : TaskEntry}
    (hget : work.tasks.get? parent = some task) (title description : String) (node : WorkNode) :
    (work.addSubtask workId parent task title description).find node =
      if node = .subtask parent task.subtaskNumber then
        some (TodoEntry.new title description
          ((WorkNode.subtask parent task.subtaskNumber).todoId workId))
      else work.find node := by
  unfold Work.addSubtask
  dsimp only
  refine Eq.trans (find_set_subtasks hget (by rfl) node) ?_
  cases node with
  | task n => rw [if_neg (by simp)]
  | subtask n m =>
      dsimp only
      by_cases hn : n = parent
      · subst hn
        rw [if_pos rfl, Dict.get?_set, find_subtask_of_get? hget]
        by_cases hm : task.subtaskNumber = m
        · rw [if_pos hm, if_pos (by rw [hm])]
        · rw [if_neg hm, if_neg (by simp [Ne.symm hm])]
      · rw [if_neg hn, if_neg (by simp [hn])]

theorem find_rollbackSubtask (parent number : ℕ) (node : WorkNode) :
    (work.rollbackSubtask parent number).find node =
      if (WorkNode.subtask parent number).covers node then none else work.find node := by
  have hcovers : (WorkNode.subtask parent number).covers node = true ↔
      node = .subtask parent number := by
    simp [WorkNode.covers]
  unfold Work.rollbackSubtask
  cases hget : work.tasks.get? parent with
  | none =>
      dsimp only
      by_cases h : node = .subtask parent number
      · rw [if_pos (hcovers.mpr h), h, find_subtask, hget, Option.bind_none]
      · rw [if_neg (mt hcovers.mp h)]
  | some task =>
      dsimp only
      refine Eq.trans (find_set_subtasks hget (by rfl) node) ?_
      cases node with
      | task n => rw [if_neg (mt hcovers.mp (by simp))]
      | subtask n m =>
          dsimp only
          by_cases hn : n = parent
          · subst hn
            rw [if_pos rfl, Dict.get?_pop, find_subtask_of_get? hget]
            by_cases hm : number = m
            · rw [if_pos hm, if_pos (hcovers.mpr (by rw [hm]))]
            · rw [if_neg hm, if_neg (mt hcovers.mp (by simp [Ne.symm hm]))]
          · rw [if_neg hn, if_neg (mt hcovers.mp (by simp [hn]))]

theorem find_rollback (gone node : WorkNode) :
    (work.rollback gone).find node = if gone.covers node then none else work.find node := by
  cases gone with
  | task number => exact find_rollbackTask number node
  | subtask parent number => exact find_rollbackSubtask parent number node

theorem find_apply (starting : Bool) (state : TodoState) (note : String) (node other : WorkNode) :
    (work.apply starting state note node).find other =
      if other = node then (work.find other).map (TodoEntry.put starting state note)
      else work.find other := by
  cases node with
  | task n =>
      dsimp only [Work.apply]
      cases hget : work.tasks.get? n with
      | none =>
          dsimp only
          by_cases h : other = .task n
          · rw [if_pos h, h, Work.find, hget]
            rfl
          · rw [if_neg h]
      | some task =>
          dsimp only
          cases other with
          | task n' =>
              by_cases h : n = n'
              · subst h
                simp [Work.find, hget]
              · have hne : n' ≠ n := Ne.symm h
                simp [Work.find, Dict.get?_set_of_ne _ _ h, hne]
          | subtask n' m' =>
              rw [if_neg (by simp)]
              by_cases h : n = n'
              · subst h
                simp [Work.find, hget]
              · simp [Work.find, Dict.get?_set_of_ne _ _ h]
  | subtask n m =>
      dsimp only [Work.apply]
      cases hget : work.tasks.get? n with
      | none =>
          dsimp only
          by_cases h : other = .subtask n m
          · rw [if_pos h, h, find_subtask, hget]
            rfl
          · rw [if_neg h]
      | some task =>
          dsimp only
          cases hsub : task.subtasks.get? m with
          | none =>
              dsimp only
              by_cases h : other = .subtask n m
              · rw [if_pos h, h, find_subtask_of_get? hget, hsub]
                rfl
              · rw [if_neg h]
          | some entry =>
              dsimp only
              refine Eq.trans (find_set_subtasks hget (by rfl) other) ?_
              cases other with
              | task n' => rw [if_neg (by simp)]
              | subtask n' m' =>
                  dsimp only
                  by_cases hn : n' = n
                  · subst hn
                    rw [if_pos rfl, Dict.get?_set, find_subtask_of_get? hget]
                    by_cases hm : m = m'
                    · subst hm
                      rw [if_pos rfl, if_pos rfl, hsub, Option.map_some]
                    · rw [if_neg hm, if_neg (by simp [Ne.symm hm])]
                  · rw [if_neg hn, if_neg (by simp [hn])]

theorem covers_self (node : WorkNode) : node.covers node = true := by
  cases node <;> simp [WorkNode.covers]

end Find

/-! ## The invariant -/

section Invariant

/-- What a call has read of a node is what the writes before it made. -/
def WorkCall.SawTruly (call : ℕ) : WorkCall → Prop
  | read _ starting _ previous seen | moving _ starting _ previous seen =>
      (∀ w ∈ seen, w.call ≠ call) ∧
        ∀ e, WriteLog.result WorkWrite.act seen = some e → previous = (e.state, e.note starting)
  | adding _ _ | added _ _ | moved _ _ _ | failed => True

/-- Calls, log and tree tell the same. -/
structure Sound (workId : String) (s : WorkState) : Prop where
  written : ∀ node, s.work.find node = WriteLog.replay WorkWrite.act s.log node
  present : ∀ w ∈ s.log, s.work.find w.key ≠ none
  titles : ∀ w ∈ s.log, ∀ entry, w.body = .add entry → entry.todoId = w.key.todoId workId ∧
    ∃ e, s.work.find w.key = some e ∧ e.title = entry.title ∧ e.todoId = entry.todoId
  distinct : ∀ w ∈ s.log, ∀ w' ∈ s.log, ∀ entry entry', w.body = .add entry →
    w'.body = .add entry' → w.key = w'.key → w.call = w'.call
  logged : ∀ w, w ∈ s.log ↔ ∃ call, s.calls.get? w.call = some call ∧ call.write w.call = some w
  saw : ∀ call c, s.calls.get? call = some c → c.SawTruly call

variable {workId : String} {s : WorkState}

theorem Sound.law (h : Sound workId s) : WorkLaw s := by
  have hadded : ∀ call node entry, s.calls.get? call = some (.added node entry) →
      (⟨call, node, .add entry⟩ : Write WorkNode WorkWrite) ∈ s.log := by
    intro call node entry hcall
    exact (h.logged _).mpr ⟨_, hcall, rfl⟩
  constructor
  · intro call node entry hcall
    exact (h.titles _ (hadded call node entry hcall) entry rfl).2
  · intro call call' node node' entry entry' hcall hcall' hne
    have hmem := hadded call node entry hcall
    have hmem' := hadded call' node' entry' hcall'
    have hnode : node ≠ node' := by
      intro heq
      exact hne (h.distinct _ hmem _ hmem' entry entry' rfl rfl heq)
    refine ⟨hnode, ?_⟩
    rw [(h.titles _ hmem entry rfl).1, (h.titles _ hmem' entry' rfl).1]
    intro heq
    exact hnode (todoId_injective workId heq)
  · exact h.written
  · exact h.present

/-- A call that goes on without writing. -/
theorem Sound.phase (h : Sound workId s) {call : ℕ} {c : WorkCall}
    (hwrite : c.write call = (s.calls.get? call).bind fun old => old.write call)
    (hsaw : c.SawTruly call) : Sound workId { s with calls := s.calls.set call c } := by
  constructor
  · exact h.written
  · exact h.present
  · exact h.titles
  · exact h.distinct
  · intro w
    rw [h.logged]
    change _ ↔ ∃ c', (s.calls.set call c).get? w.call = some c' ∧ c'.write w.call = some w
    by_cases hcall : call = w.call
    · subst hcall
      rw [Dict.get?_set_self]
      constructor
      · rintro ⟨old, hget, hold⟩
        refine ⟨c, rfl, ?_⟩
        rw [hwrite, hget, Option.bind_some, hold]
      · rintro ⟨c', hc', hnew⟩
        cases hc'
        rw [hwrite] at hnew
        exact Option.bind_eq_some_iff.mp hnew
    · rw [Dict.get?_set_of_ne _ _ hcall]
  · intro other c' hget
    change (s.calls.set call c).get? other = some c' at hget
    by_cases hother : call = other
    · subst hother
      rw [Dict.get?_set_self, Option.some.injEq] at hget
      rw [← hget]
      exact hsaw
    · rw [Dict.get?_set_of_ne _ _ hother] at hget
      exact h.saw other c' hget

/-- A call that writes for the first time: it adds a node that is not there, or moves one that
is. -/
theorem Sound.append (h : Sound workId s) {work : Work} {c : WorkCall}
    {w : Write WorkNode WorkWrite}
    (hold : ((s.calls.get? w.call).bind fun old => old.write w.call) = none)
    (hwrite : c.write w.call = some w) (hsaw : c.SawTruly w.call)
    (hfind : ∀ node, work.find node =
      if node = w.key then w.body.act (s.work.find node) else s.work.find node)
    (hbody : (∃ entry, w.body = .add entry ∧ entry.todoId = w.key.todoId workId ∧
        s.work.find w.key = none) ∨
      ∃ starting state note, w.body = .move starting state note ∧ s.work.find w.key ≠ none) :
    Sound workId { work, calls := s.calls.set w.call c, log := s.log ++ [w] } := by
  -- a node that was written before is there, so an add is at another one
  have hfree : ∀ entry, w.body = .add entry → ∀ w' ∈ s.log, w'.key ≠ w.key := by
    intro entry hadd w' hmem heq
    rcases hbody with ⟨-, -, -, hnone⟩ | ⟨_, _, _, hmove, -⟩
    · rw [← heq] at hnone
      exact h.present w' hmem hnone
    · rw [hadd] at hmove
      cases hmove
  have hkept : ∀ node e, s.work.find node = some e → (∀ entry, w.body = .add entry →
      node ≠ w.key) → ∃ e', work.find node = some e' ∧ e'.title = e.title ∧ e'.todoId = e.todoId := by
    intro node e he hne
    rw [hfind]
    by_cases hnode : node = w.key
    · rw [if_pos hnode]
      rcases hbody with ⟨entry, hadd, -, -⟩ | ⟨starting, state, note, hmove, -⟩
      · exact absurd hnode (hne entry hadd)
      · rw [hmove, he]
        exact ⟨_, rfl, put_title _ _ _ _, put_todoId _ _ _ _⟩
    · rw [if_neg hnode]
      exact ⟨e, he, rfl, rfl⟩
  constructor
  · intro node
    change work.find node = WriteLog.replay WorkWrite.act (s.log ++ [w]) node
    rw [hfind, WriteLog.replay_append, h.written]
  · intro w' hmem
    change work.find w'.key ≠ none
    rcases List.mem_append.mp hmem with hmem | hnew
    · cases hget : s.work.find w'.key with
      | none => exact absurd hget (h.present w' hmem)
      | some e =>
          rcases hkept w'.key e hget fun entry hadd => hfree entry hadd w' hmem with ⟨e', he', -⟩
          rw [he']
          exact Option.some_ne_none e'
    · rw [List.mem_singleton.mp hnew, hfind, if_pos rfl]
      rcases hbody with ⟨entry, hadd, -, -⟩ | ⟨starting, state, note, hmove, hthere⟩
      · rw [hadd]
        exact Option.some_ne_none entry
      · rw [hmove]
        cases hget : s.work.find w.key with
        | none => exact absurd hget hthere
        | some e => exact Option.some_ne_none _
  · intro w' hmem entry hadd
    change _ ∧ ∃ e, work.find w'.key = some e ∧ _
    rcases List.mem_append.mp hmem with hmem | hnew
    · rcases h.titles w' hmem entry hadd with ⟨htodo, e, he, htitle, hid⟩
      rcases hkept w'.key e he fun entry hadd => hfree entry hadd w' hmem with
        ⟨e', he', htitle', hid'⟩
      exact ⟨htodo, e', he', htitle'.trans htitle, hid'.trans hid⟩
    · have heq := List.mem_singleton.mp hnew
      subst heq
      rcases hbody with ⟨entry', hadd', htodo, -⟩ | ⟨_, _, _, hmove, -⟩
      · rw [hadd] at hadd'
        cases hadd'
        refine ⟨htodo, entry, ?_, rfl, rfl⟩
        rw [hfind, if_pos rfl, hadd]
        rfl
      · rw [hadd] at hmove
        cases hmove
  · intro w₁ hmem₁ w₂ hmem₂ entry₁ entry₂ hadd₁ hadd₂ hkey
    rcases List.mem_append.mp hmem₁ with hold₁ | hnew₁
    · rcases List.mem_append.mp hmem₂ with hold₂ | hnew₂
      · exact h.distinct w₁ hold₁ w₂ hold₂ entry₁ entry₂ hadd₁ hadd₂ hkey
      · have heq := List.mem_singleton.mp hnew₂
        rw [heq] at hadd₂ hkey
        exact absurd hkey (hfree entry₂ hadd₂ w₁ hold₁)
    · have heq := List.mem_singleton.mp hnew₁
      rw [heq] at hadd₁ hkey
      rcases List.mem_append.mp hmem₂ with hold₂ | hnew₂
      · exact absurd hkey.symm (hfree entry₁ hadd₁ w₂ hold₂)
      · rw [heq, List.mem_singleton.mp hnew₂]
  · intro w'
    change w' ∈ s.log ++ [w] ↔
      ∃ c', (s.calls.set w.call c).get? w'.call = some c' ∧ c'.write w'.call = some w'
    rw [List.mem_append, List.mem_singleton, h.logged]
    by_cases hcall : w.call = w'.call
    · rw [hcall, Dict.get?_set_self]
      rw [hcall] at hold hwrite
      constructor
      · rintro (⟨old, hget, hw⟩ | heq)
        · rw [hget, Option.bind_some, hw] at hold
          cases hold
        · exact ⟨c, rfl, heq ▸ hwrite⟩
      · rintro ⟨c', hc', hw⟩
        cases hc'
        rw [hwrite, Option.some.injEq] at hw
        exact .inr hw.symm
    · rw [Dict.get?_set_of_ne _ _ hcall]
      constructor
      · rintro (hw | heq)
        · exact hw
        · exact absurd (congrArg Write.call heq.symm) hcall
      · intro hw
        exact .inl hw
  · intro other c' hget
    change (s.calls.set w.call c).get? other = some c' at hget
    by_cases hother : w.call = other
    · subst hother
      rw [Dict.get?_set_self, Option.some.injEq] at hget
      rw [← hget]
      exact hsaw
    · rw [Dict.get?_set_of_ne _ _ hother] at hget
      exact h.saw other c' hget

/-- A call that takes its write back, where the tree goes on without it. -/
theorem Sound.forget (h : Sound workId s) {work : Work} {call : ℕ}
    (hwritten : ∀ node, work.find node =
      WriteLog.replay WorkWrite.act (WriteLog.forget s.log call) node)
    (hkept : ∀ w ∈ s.log, w.call ≠ call → ∀ e, s.work.find w.key = some e →
      ∃ e', work.find w.key = some e' ∧ e'.title = e.title ∧ e'.todoId = e.todoId) :
    Sound workId
      { work, calls := s.calls.set call .failed, log := WriteLog.forget s.log call } := by
  constructor
  · exact hwritten
  · intro w hmem
    rcases WriteLog.mem_forget.mp hmem with ⟨hmem, hne⟩
    change work.find w.key ≠ none
    cases hget : s.work.find w.key with
    | none => exact absurd hget (h.present w hmem)
    | some e =>
        rcases hkept w hmem hne e hget with ⟨e', he', -⟩
        rw [he']
        exact Option.some_ne_none e'
  · intro w hmem entry hadd
    rcases WriteLog.mem_forget.mp hmem with ⟨hmem, hne⟩
    rcases h.titles w hmem entry hadd with ⟨htodo, e, he, htitle, hid⟩
    rcases hkept w hmem hne e he with ⟨e', he', htitle', hid'⟩
    exact ⟨htodo, e', he', htitle'.trans htitle, hid'.trans hid⟩
  · intro w hmem w' hmem'
    exact h.distinct w (WriteLog.mem_forget.mp hmem).1 w' (WriteLog.mem_forget.mp hmem').1
  · intro w
    change w ∈ WriteLog.forget s.log call ↔
      ∃ c', (s.calls.set call .failed).get? w.call = some c' ∧ c'.write w.call = some w
    rw [WriteLog.mem_forget, h.logged]
    by_cases hcall : call = w.call
    · rw [hcall, Dict.get?_set_self]
      constructor
      · rintro ⟨-, hne⟩
        exact absurd rfl hne
      · rintro ⟨c', hc', hw⟩
        cases hc'
        cases hw
    · rw [Dict.get?_set_of_ne _ _ hcall]
      exact ⟨fun hw => hw.1, fun hw => ⟨hw, Ne.symm hcall⟩⟩
  · intro other c' hget
    change (s.calls.set call .failed).get? other = some c' at hget
    by_cases hother : call = other
    · subst hother
      rw [Dict.get?_set_self, Option.some.injEq] at hget
      rw [← hget]
      trivial
    · rw [Dict.get?_set_of_ne _ _ hother] at hget
      exact h.saw other c' hget

end Invariant

/-! ## Along a run -/

section Law

variable {workId : String} {s : WorkState}

/-- The writes of a call are those that its phase tells. -/
theorem Sound.write_of_mem (h : Sound workId s) {call : ℕ} {c : WorkCall}
    (hget : s.calls.get? call = some c) {w : Write WorkNode WorkWrite} (hmem : w ∈ s.log)
    (hcall : w.call = call) : c.write call = some w := by
  rcases (h.logged w).mp hmem with ⟨c', hget', hwrite⟩
  rw [hcall, hget, Option.some.injEq] at hget'
  rw [hcall] at hwrite
  rw [hget', hwrite]

/-- An add that is taken back, where no other call has written what goes with it. -/
theorem Sound.rollback (h : Sound workId s) {call : ℕ} {node : WorkNode} {entry : TodoEntry}
    (hget : s.calls.get? call = some (.adding node entry))
    (halone : ∀ w ∈ s.log, node.covers w.key = true → w.call = call) :
    Sound workId
      { work := s.work.rollback node
        calls := s.calls.set call .failed
        log := WriteLog.forget s.log call } := by
  apply h.forget
  · intro other
    rw [find_rollback]
    by_cases hcovers : node.covers other = true
    · rw [if_pos hcovers, WriteLog.replay_of_not_on]
      intro w hmem hkey
      rcases WriteLog.mem_forget.mp hmem with ⟨hmem, hne⟩
      rw [← hkey] at hcovers
      exact hne (halone w hmem hcovers)
    · rw [if_neg hcovers, WriteLog.replay_forget_of_not_on, h.written]
      intro w hmem hcall hkey
      have hwrite := h.write_of_mem hget hmem hcall
      cases hwrite
      rw [← hkey] at hcovers
      exact hcovers (covers_self node)
  · intro w hmem hne e he
    have hcovers : ¬ node.covers w.key = true := fun hcovers => hne (halone w hmem hcovers)
    rw [find_rollback, if_neg hcovers]
    exact ⟨e, he, rfl, rfl⟩

/-- A transition that is taken back, where no other call has written the node since it was read. -/
theorem Sound.moveBack (h : Sound workId s) {call : ℕ} {node : WorkNode} {starting : Bool}
    {note : String} {previous : TodoState × String} {seen : WorkLog}
    (hget : s.calls.get? call = some (.moving node starting note previous seen))
    (hlast : WriteLog.on s.log node =
      seen ++ [⟨call, node, .move starting (newState starting) note⟩]) :
    Sound workId
      { work := s.work.apply starting previous.1 previous.2 node
        calls := s.calls.set call .failed
        log := WriteLog.forget s.log call } := by
  rcases h.saw call _ hget with ⟨hothers, hprevious⟩
  apply h.forget
  · intro other
    rw [find_apply]
    by_cases hnode : other = node
    · subst hnode
      have hnow : s.work.find other = (WriteLog.result WorkWrite.act seen).map
          (TodoEntry.put starting (newState starting) note) := by
        rw [h.written, WriteLog.replay, hlast, WriteLog.result_append]
        rfl
      have hback := @WriteLog.replay_forget_of_last _ _ _ _ WorkWrite.act s.log seen
        ⟨call, other, .move starting (newState starting) note⟩ hlast hothers
      rw [if_pos rfl, hback, hnow]
      cases hresult : WriteLog.result WorkWrite.act seen with
      | none => rfl
      | some e =>
          rw [hprevious e hresult, Option.map_some, Option.map_some, put_put_old]
    · rw [if_neg hnode, WriteLog.replay_forget_of_not_on, h.written]
      intro w hmem hcall hkey
      have hwrite := h.write_of_mem hget hmem hcall
      cases hwrite
      exact hnode hkey.symm
  · intro w _ _ e he
    rw [find_apply]
    by_cases hnode : w.key = node
    · rw [if_pos hnode, he]
      exact ⟨_, rfl, put_title _ _ _ _, put_todoId _ _ _ _⟩
    · rw [if_neg hnode]
      exact ⟨e, he, rfl, rfl⟩

theorem Sound.step (h : Sound workId s) {e : WorkEvent} (hguard : Undisturbed s e) :
    Sound workId (nextWork workId s e) := by
  cases e with
  | addTask call title description =>
      unfold nextWork
      dsimp only
      by_cases hrefused : (s.calls.get? call).isSome ∨ title = "" ∨ description = ""
      · rw [if_pos hrefused]
        exact h
      · rw [if_neg hrefused]
        rw [not_or, Bool.not_eq_true, Option.isSome_eq_false_iff, Option.isNone_iff_eq_none]
          at hrefused
        apply @Sound.append _ _ h _ _ ⟨call, .task s.work.taskNumber, .add _⟩
        · rw [hrefused.1]
          rfl
        · rfl
        · trivial
        · exact find_addTask hguard title description
        · left
          refine ⟨_, rfl, rfl, ?_⟩
          change (s.work.tasks.get? _).map _ = none
          rw [hguard]
          rfl
  | addSubtask call taskNumber title description =>
      unfold nextWork
      dsimp only
      by_cases hrefused : (s.calls.get? call).isSome ∨ title = "" ∨ description = ""
      · rw [if_pos hrefused]
        exact h
      · rw [if_neg hrefused]
        rw [not_or, Bool.not_eq_true, Option.isSome_eq_false_iff, Option.isNone_iff_eq_none]
          at hrefused
        cases hget : s.work.tasks.get? taskNumber with
        | none => exact h
        | some task =>
            apply @Sound.append _ _ h _ _ ⟨call, .subtask taskNumber task.subtaskNumber, .add _⟩
            · rw [hrefused.1]
              rfl
            · rfl
            · trivial
            · exact find_addSubtask hget title description
            · left
              refine ⟨_, rfl, rfl, ?_⟩
              rw [find_subtask_of_get? hget]
              exact hguard task hget
  | read call node starting note =>
      unfold nextWork
      dsimp only
      by_cases hused : (s.calls.get? call).isSome
      · rw [if_pos hused]
        exact h
      · rw [if_neg hused]
        rw [Bool.not_eq_true, Option.isSome_eq_false_iff, Option.isNone_iff_eq_none] at hused
        cases hfind : s.work.find node with
        | none => exact h
        | some entry =>
            apply h.phase
            · rw [hused]
              rfl
            · constructor
              · intro w hmem hcall
                rcases (h.logged w).mp (WriteLog.mem_on.mp hmem).1 with ⟨c, hc, -⟩
                rw [hcall, hused] at hc
                cases hc
              · intro e he
                have hreplay : WriteLog.replay WorkWrite.act s.log node = some e := he
                rw [← h.written, hfind, Option.some.injEq] at hreplay
                rw [hreplay]
  | write call =>
      unfold nextWork
      dsimp only
      cases hget : s.calls.get? call with
      | none => exact h
      | some c =>
          cases c with
          | read node starting note previous seen =>
              dsimp only
              by_cases hgone : (s.work.find node).isNone
              · rw [if_pos hgone]
                apply h.phase
                · rw [hget]
                  rfl
                · trivial
              · rw [if_neg hgone]
                apply @Sound.append _ _ h _ _
                  ⟨call, node, .move starting (newState starting) note⟩
                · rw [hget]
                  rfl
                · rfl
                · have hsaw := h.saw call _ hget
                  exact hsaw
                · exact find_apply starting (newState starting) note node
                · right
                  refine ⟨_, _, _, rfl, ?_⟩
                  intro hnone
                  exact hgone (Option.isNone_iff_eq_none.mpr hnone)
          | adding => exact h
          | added => exact h
          | moving => exact h
          | moved => exact h
          | failed => exact h
  | pushed call =>
      unfold nextWork
      dsimp only
      cases hget : s.calls.get? call with
      | none => exact h
      | some c =>
          cases c with
          | adding node entry =>
              apply h.phase
              · rw [hget]
                rfl
              · trivial
          | moving node starting note previous seen =>
              apply h.phase
              · rw [hget]
                rfl
              · trivial
          | added => exact h
          | read => exact h
          | moved => exact h
          | failed => exact h
  | pushFailed call =>
      unfold nextWork
      dsimp only
      cases hget : s.calls.get? call with
      | none => exact h
      | some c =>
          cases c with
          | adding node entry => exact h.rollback hget (hguard.1 node entry hget)
          | moving node starting note previous seen =>
              exact h.moveBack hget (hguard.2 node starting note previous seen hget)
          | added => exact h
          | read => exact h
          | moved => exact h
          | failed => exact h

theorem sound_of_undisturbed (hs : ((workSystem workId).restrict Undisturbed).Reachable s) :
    Sound workId s := by
  apply hs.invariant (I := Sound workId)
  · rintro s rfl
    constructor
    · intro node
      cases node <;> rfl
    · intro w hmem
      cases hmem
    · intro w hmem
      cases hmem
    · intro w hmem
      cases hmem
    · intro w
      constructor
      · intro hmem
        cases hmem
      · rintro ⟨c, hc, -⟩
        cases hc
    · intro call c hc
      cases hc
  · rintro s e t _ hsound ⟨hguard, rfl⟩
    exact hsound.step hguard

/-- In every state of a run in which each add finds its number free and each call takes back only
what no other call has written since, added nodes stay with their titles and ids, no two share a
number or an id, and the tree is what the calls that have not failed have written. -/
theorem work_law {t : WorkState} {es : List WorkEvent} (hs : (workSystem workId).init s)
    (hrun : ((workSystem workId).restrict Undisturbed).Run s es t) : WorkLaw t :=
  (sound_of_undisturbed (.run (.init hs) hrun)).law

/-- A second add whose push fails while no other call writes. -/
theorem work_law_one_failed :
    WorkLaw (nextWork "site" (nextWork "site" (nextWork "site" ⟨⟨1, Dict.empty⟩, Dict.empty, []⟩
      (.addTask 0 "design" "draw it")) (.addTask 1 "build" "make it")) (.pushFailed 1)) := by
  apply @work_law "site" ⟨⟨1, Dict.empty⟩, Dict.empty, []⟩ _
    [.addTask 0 "design" "draw it", .addTask 1 "build" "make it", .pushFailed 1] rfl
  refine .cons ⟨?_, rfl⟩ (.cons ⟨?_, rfl⟩ (.single ⟨⟨?_, ?_⟩, rfl⟩))
  · rfl
  · change Dict.get? _ _ = none
    decide
  · intro node entry hget w hmem hcovers
    have hcall : some (WorkCall.adding (.task 2) (TodoEntry.new "build" "make it" "site-t2")) =
        some (WorkCall.adding node entry) := by
      rw [← hget]
      decide
    cases hcall
    have hlog : w ∈ [(⟨0, .task 1, .add (TodoEntry.new "design" "draw it" "site-t1")⟩ :
        Write WorkNode WorkWrite), ⟨1, .task 2, .add (TodoEntry.new "build" "make it" "site-t2")⟩] :=
      hmem
    rcases List.mem_cons.mp hlog with heq | hrest
    · rw [heq] at hcovers
      simp [WorkNode.covers] at hcovers
    · rw [List.mem_singleton.mp hrest]
  · intro node starting note previous seen hget
    have hcall : some (WorkCall.adding (.task 2) (TodoEntry.new "build" "make it" "site-t2")) =
        some (WorkCall.moving node starting note previous seen) := by
      rw [← hget]
      decide
    cases hcall

/-- Two adds run at once.  The first one fails and sets the counter back to 1, so two later adds get
the numbers 1 and 2, and the last one overwrites the task of the call that had returned. -/
theorem second_task_lost :
    ∃ s, (workSystem "site").Run ⟨⟨1, Dict.empty⟩, Dict.empty, []⟩
        [.addTask 0 "design" "draw it", .addTask 1 "build" "make it", .pushed 1, .pushFailed 0,
          .addTask 2 "test" "try it", .pushed 2, .addTask 3 "ship" "send it", .pushed 3] s ∧
      ¬ WorkLaw s := by
  refine ⟨_, .cons rfl (.cons rfl (.cons rfl (.cons rfl (.cons rfl (.cons rfl (.cons rfl
    (.single rfl))))))), ?_⟩
  intro hlaw
  rcases hlaw.stays 1 (.task 2) (TodoEntry.new "build" "make it" "site-t2") (by decide) with
    ⟨e, he, htitle, -⟩
  have hship : e = TodoEntry.new "ship" "send it" "site-t2" := by
    have hfind : some e = some (TodoEntry.new "ship" "send it" "site-t2") := by
      rw [← he]
      decide
    exact Option.some.inj hfind
  rw [hship] at htitle
  simp [TodoEntry.new] at htitle

end Law

end Iwantto
end Stemcell
