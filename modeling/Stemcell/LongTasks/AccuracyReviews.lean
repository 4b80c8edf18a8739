import Stemcell.LongTasks.Entries

/-!
# The schedule of accuracy reviews

A task with an estimate is reviewed a twentieth of the estimate after the other.  A review that is
due is prepared as the pending one of the schedule, claimed, handed on and completed, and each of
these steps is persisted, so that a restart goes on where the last one left it.

Main results:

- Definitions `LoadedTask.setAccuracyGoal` and `LoadedTask.settleReview`: what makes a schedule, and
  what prepares a review of it.
- Definition `ReviewWorld.next`: one step of the lifecycle of a contact, in memory and stored.
- Theorem `next_progress`: what a step does to the checkpoints.
- Theorem `reviews_tile`: the reviews of one schedule follow each other without gap or overlap.

Current gaps:

- One process holds the lease of the entry, so what it persists is written.
- A start of the lifecycle and a completion by the entry do not overlap.
- Of the deliveries of a lifecycle only whether there is one is modelled.
-/

namespace Stemcell
namespace LongTasks

open Maintenance (Seconds)

def accuracyReviewSegments : Seconds := 20
def maxAccuracyReviewContextChars : Nat := 32768
def terminalTaskStates : List String := ["completed", "failed", "cancelled"]

/-! ## Estimates -/

/-- A number as `float` reads it, and nothing where it raises or the number is not finite. -/
abbrev Reading := Option ℚ

/-- The estimates of a task, each of them where it is present. -/
structure EstimateFields where
  estimateSeconds : Option Reading
  realisticEstimateSeconds : Option Reading
deriving DecidableEq, Repr

/-- The data of a task. -/
structure TaskData where
  fields : EstimateFields
  timing : Option EstimateFields
deriving DecidableEq, Repr

/-- A task as the service has it, with its text as JSON. -/
structure TaskSnapshot extends TaskData where
  state : String
  json : String
deriving DecidableEq, Repr

/-- `_non_negative_number`. -/
def nonNegativeNumber : Reading → Seconds
  | none => 0
  | some number => if number ≤ 0 then 0 else number

/-- The places where an estimate is looked up. -/
def TaskData.sources (data : TaskData) : List EstimateFields :=
  data.fields :: data.timing.toList

/-- `_estimate_goal_from_data`. -/
def estimateGoalFromData (data : TaskData) : Bool × Seconds :=
  match data.sources.findSome? EstimateFields.estimateSeconds with
  | some accepted => (true, (nonNegativeNumber accepted).ceil)
  | none =>
      match data.sources.findSome? EstimateFields.realisticEstimateSeconds with
      | some realistic => (true, (nonNegativeNumber realistic * (105 / 100)).ceil)
      | none => (false, 0)

/-- `_goal_materially_changed`. -/
def goalMateriallyChanged (previous current : Seconds) : Bool :=
  if nonNegativeNumber (some previous) = 0 ∨ nonNegativeNumber (some current) = 0 then
    decide (nonNegativeNumber (some previous) = 0) != decide (nonNegativeNumber (some current) = 0)
  else
    max 1 (nonNegativeNumber (some previous) * (1 / 100)) ≤
      max (nonNegativeNumber (some current) - nonNegativeNumber (some previous))
        (nonNegativeNumber (some previous) - nonNegativeNumber (some current))

/-! ## The schedule -/

/-- The accuracy schedule of a task. -/
structure AccuracySchedule where
  taskId : String
  goalSeconds : Seconds
  intervalSeconds : Seconds
  anchorAt : Seconds
  nextCheckpoint : Nat
  generation : String
  pendingReview : Option Review
  refreshAttempts : Nat
  nextRefreshAttemptAt : Seconds
  updatedAt : Seconds
deriving DecidableEq, Repr

/-- The checkpoints of a review. -/
def Review.range (review : Review) : Nat × Nat :=
  (review.checkpointFrom, review.checkpointThrough)

/-- A lifecycle in memory: whether it has something to deliver, its schedule, and the task and
generation of the review that is being prepared. -/
structure LoadedTask where
  taskId : String
  terminal : Bool
  delivering : Bool
  schedule : Option AccuracySchedule
  looked : Option (String × String)
deriving DecidableEq, Repr

/-- A lifecycle in the state file. -/
structure StoredTask where
  taskId : String
  terminal : Bool
  delivering : Bool
  schedule : Option AccuracySchedule
deriving DecidableEq, Repr

/-- A lifecycle that has no task. -/
def LoadedTask.fresh : LoadedTask where
  taskId := ""
  terminal := false
  delivering := false
  schedule := none
  looked := none

/-- `_state_payload`. -/
def LoadedTask.payload (task : LoadedTask) : StoredTask where
  taskId := task.taskId
  terminal := task.terminal
  delivering := task.delivering
  schedule := task.schedule

/-- A lifecycle made from the entry that was saved. -/
def StoredTask.load (saved : StoredTask) : LoadedTask where
  taskId := saved.taskId
  terminal := saved.terminal
  delivering := saved.delivering
  schedule := saved.schedule
  looked := none

/-- What a step tells of the reviews. -/
inductive ReviewEvent
  | made (generation : String)
  | prepared (range : Nat × Nat)
  | completed (range : Nat × Nat)
deriving DecidableEq, Repr

/-- How numbers are written, plain and by `:g`. -/
structure NumberTexts where
  plain : ℚ → String
  general : ℚ → String

variable (machine : Machine) (texts : NumberTexts) (contactId : String)

/-- `_set_accuracy_goal_locked`; it tells whether a schedule was made. -/
def LoadedTask.setAccuracyGoal (timeNs : Nat) (taskId : String) (goalSeconds now : Seconds)
    (task : LoadedTask) : Option ReviewEvent × LoadedTask :=
  if taskId = "" ∨ nonNegativeNumber (some goalSeconds) = 0 then (none, task)
  else if task.schedule.any fun existing =>
      existing.taskId = taskId ∧ goalMateriallyChanged existing.goalSeconds goalSeconds = false then
    (none, task)
  else
    let generation := stableId machine.sha256 "accuracy-schedule"
      [contactId, taskId, texts.plain goalSeconds, toString timeNs]
    (some (.made generation), { task with
      schedule := some
        { taskId := taskId
          goalSeconds := goalSeconds
          intervalSeconds := goalSeconds / accuracyReviewSegments
          anchorAt := now
          nextCheckpoint := 1
          generation := generation
          pendingReview := none
          refreshAttempts := 0
          nextRefreshAttemptAt := 0
          updatedAt := now } })

/-- `_schedule_accuracy_from_data_locked`. -/
def LoadedTask.scheduleFromData (clock : Seconds) (timeNs : Nat) (taskId : String)
    (data : TaskData) (task : LoadedTask) : Option ReviewEvent × LoadedTask :=
  if (estimateGoalFromData data).2 = 0 then
    if (estimateGoalFromData data).1 ∧
        task.schedule.any fun existing => existing.taskId = taskId then
      (none, { task with schedule := none })
    else (none, task)
  else
    task.setAccuracyGoal machine texts contactId timeNs taskId (estimateGoalFromData data).2 clock

/-- `_accuracy_review_context`. -/
def AccuracySchedule.reviewContext (schedule : AccuracySchedule) (snapshot : TaskSnapshot)
    (checkpointFrom checkpointThrough : Nat) : String :=
  let context :=
    "Internal task accuracy review. This is not a user message and must not produce a normal " ++
    "reply.\ntask_id: " ++ schedule.taskId ++
    "\naccepted_goal_seconds: " ++ texts.general schedule.goalSeconds ++
    "\nreview_interval_seconds: " ++ texts.general schedule.intervalSeconds ++
    "\ncheckpoint_from: " ++ toString checkpointFrom ++
    "\ncheckpoint_through: " ++ toString checkpointThrough ++
    "\nInspect the accepted task, Todos, estimate, timer, blockers, workers, and current " ++
    "execution facts. Publish work_update mutations only where the durable card is materially " ++
    "inaccurate or stale. Otherwise use do_nothing. Do not call reply or contact another " ++
    "manager solely for this review.\naccepted_task_snapshot: " ++ snapshot.json
  if context.length ≤ maxAccuracyReviewContextChars then context
  else String.ofList (context.toList.take (maxAccuracyReviewContextChars - 1)) ++ "…"

/-- When the schedule was anchored. -/
def AccuracySchedule.anchor (schedule : AccuracySchedule) (now : Seconds) : Seconds :=
  if schedule.anchorAt = 0 then now else schedule.anchorAt

/-- The first checkpoint of the next review. -/
def AccuracySchedule.checkpointFrom (schedule : AccuracySchedule) : Nat :=
  max 1 schedule.nextCheckpoint

/-- The last checkpoint that has been reached. -/
def AccuracySchedule.checkpointThrough (schedule : AccuracySchedule) (now : Seconds) : Nat :=
  (max 0 (now - schedule.anchor now) / nonNegativeNumber (some schedule.intervalSeconds) +
    1 / 10 ^ 9).floor.toNat

/-- The first part of `_prepare_accuracy_review_if_due`: a review is due. -/
def LoadedTask.reviewDue (now : Seconds) (task : LoadedTask) : Bool :=
  !task.terminal && task.schedule.any fun schedule =>
    schedule.pendingReview.isNone && decide (schedule.nextRefreshAttemptAt ≤ now) &&
      decide (nonNegativeNumber (some schedule.intervalSeconds) ≠ 0) &&
      decide (schedule.anchor now +
        schedule.checkpointFrom * nonNegativeNumber (some schedule.intervalSeconds) ≤ now)

/-- The review of the schedule that is due at this time. -/
def AccuracySchedule.prepare (schedule : AccuracySchedule) (snapshot : TaskSnapshot)
    (now : Seconds) : AccuracySchedule :=
  { schedule with
    pendingReview := some
      { reviewId := stableId machine.sha256 "accuracy-review"
          [schedule.generation, toString schedule.checkpointFrom,
            toString (schedule.checkpointThrough now)]
        context := schedule.reviewContext texts snapshot schedule.checkpointFrom
          (schedule.checkpointThrough now)
        checkpointFrom := schedule.checkpointFrom
        checkpointThrough := schedule.checkpointThrough now
        phase := .pending
        claim := { owner := "", pid := 0, claimUntil := 0 }
        createdAt := now }
    refreshAttempts := 0
    nextRefreshAttemptAt := 0
    updatedAt := now }

/-- The second part of `_prepare_accuracy_review_if_due`, with the snapshot that was read; there is
none where it returns without persisting. -/
def LoadedTask.settleReview (now : Seconds) (timeNs : Nat) (taskId generation : String)
    (snapshot : Option TaskSnapshot) (task : LoadedTask) :
    Option (Option ReviewEvent × LoadedTask) :=
  match task.schedule with
  | none => none
  | some current =>
      if current.generation ≠ generation ∨ current.pendingReview.isSome then none
      else if snapshot.any fun found => found.state ∈ terminalTaskStates then
        some (none, { task with terminal := true, schedule := none })
      else if task.terminal then none
      else
        match snapshot with
        | none =>
            some (none, { task with
              schedule := some { current with
                refreshAttempts := current.refreshAttempts + 1
                nextRefreshAttemptAt := retryAt now (current.refreshAttempts + 1)
                updatedAt := now } })
        | some found =>
            let accepted := estimateGoalFromData found.toTaskData
            if accepted.1 ∧ accepted.2 = 0 then some (none, { task with schedule := none })
            else if accepted.2 ≠ 0 ∧ goalMateriallyChanged current.goalSeconds accepted.2 then
              some (task.setAccuracyGoal machine texts contactId timeNs taskId accepted.2 now)
            else if nonNegativeNumber (some current.intervalSeconds) = 0 then
              some (none, { task with schedule := none })
            else if current.checkpointThrough now < current.checkpointFrom then none
            else
              some (some (.prepared (current.checkpointFrom, current.checkpointThrough now)),
                { task with schedule := some (current.prepare machine texts found now) })

/-- The schedule as claims and completions see it. -/
def AccuracySchedule.lifecycle (schedule : AccuracySchedule) (terminal : Bool) : Lifecycle where
  contactId := contactId
  closed := false
  terminal := terminal
  nextCheckpoint := schedule.nextCheckpoint
  pendingReview := schedule.pendingReview

/-- The schedule with what such a call has left. -/
def AccuracySchedule.withProgress (schedule : AccuracySchedule) (lifecycle : Lifecycle)
    (now : Seconds) : AccuracySchedule :=
  { schedule with
    nextCheckpoint := lifecycle.nextCheckpoint
    pendingReview := lifecycle.pendingReview
    updatedAt := now }

/-- The pending review, when it has this id. -/
def AccuracySchedule.named (schedule : AccuracySchedule) (reviewId : String) : Option Review :=
  schedule.pendingReview.filter fun review => review.reviewId = reviewId

/-- `mark_accuracy_review_dispatched`. -/
def AccuracySchedule.acknowledge (schedule : AccuracySchedule) (reviewId : String)
    (now : Seconds) : Option AccuracySchedule :=
  (schedule.named reviewId).map fun _ =>
    schedule.withProgress ((schedule.lifecycle contactId false).markAccuracyReviewDispatched
      reviewId) now

/-- `complete_accuracy_review`, with the checkpoints of the review that was completed. -/
def AccuracySchedule.complete (schedule : AccuracySchedule) (reviewId : String) (now : Seconds) :
    Option ((Nat × Nat) × AccuracySchedule) :=
  (schedule.named reviewId).map fun review =>
    (review.range, schedule.withProgress
      ((schedule.lifecycle contactId false).completeAccuracyReview reviewId) now)

/-! ## Steps -/

/-- The lifecycle of a contact in memory, while there is one, and its entry, while it is active. -/
structure ReviewWorld where
  memory : Option LoadedTask
  stored : Option StoredTask
deriving DecidableEq, Repr

/-- A step of the lifecycle of one contact. -/
inductive ReviewStep
  /-- A run begins or goes on, or the entry is recovered. -/
  | begin
  /-- The process ends. -/
  | crash
  /-- The entry is pruned or given up. -/
  | expire
  /-- The lifecycle is closed. -/
  | finish
  /-- A card of this task was accepted with this data. -/
  | publish (clock : Seconds) (timeNs : Nat) (taskId : String) (data : TaskData)
  | backfill (clock : Seconds) (timeNs : Nat) (taskId : String) (goalSeconds : Seconds)
      (elapsed : Reading)
  /-- The task has ended. -/
  | terminate
  /-- There is something to deliver now, or nothing any more. -/
  | deliver (delivering : Bool)
  | look (now : Seconds)
  | settle (now : Seconds) (timeNs : Nat) (snapshot : Option TaskSnapshot)
  | claim (process : Process) (now : Seconds)
  | acknowledge (reviewId : String) (now : Seconds)
  | complete (reviewId : String) (now : Seconds)

/-- `_persist`. -/
def ReviewWorld.persist (task : LoadedTask) : ReviewWorld where
  memory := some task
  stored := some task.payload

/-- The world after a change of the lifecycle in memory, if there is one. -/
def ReviewWorld.change (w : ReviewWorld) (f : LoadedTask → Option ReviewEvent × LoadedTask) :
    ReviewWorld × Option ReviewEvent :=
  match w.memory with
  | none => (w, none)
  | some task => (.persist (f task).2, (f task).1)

/-- `close_if_terminal`. -/
def ReviewWorld.closeIfTerminal (w : ReviewWorld) : ReviewWorld :=
  if w.memory.any fun task => task.terminal && !task.delivering then
    { memory := none, stored := none }
  else w

/-- `begin_long_task_run` and `recover_long_task_lifecycles`. -/
def ReviewWorld.begin (w : ReviewWorld) : ReviewWorld :=
  .persist (w.memory.getD ((w.stored.map StoredTask.load).getD .fresh))

/-- `backfill_active_estimated_task_lifecycles` for a cached task of the contact. -/
def ReviewWorld.backfill (w : ReviewWorld) (clock : Seconds) (timeNs : Nat) (taskId : String)
    (goalSeconds : Seconds) (elapsed : Reading) : ReviewWorld × Option ReviewEvent :=
  let task := w.memory.getD .fresh
  if task.terminal ∨ (task.taskId ≠ "" ∧ task.taskId ≠ taskId) then (w, none)
  else
    let behind :=
      if nonNegativeNumber elapsed = 0 then goalSeconds / accuracyReviewSegments
      else nonNegativeNumber elapsed
    let anchor := if clock - behind = 0 then clock else clock - behind
    let result := { task with taskId := taskId }.setAccuracyGoal machine texts contactId timeNs
      taskId goalSeconds anchor
    (.persist result.2, result.1)

/-- `_prepare_accuracy_review_if_due` up to the snapshot. -/
def ReviewWorld.look (w : ReviewWorld) (now : Seconds) : ReviewWorld :=
  { w with
    memory := w.memory.map fun task =>
      if task.reviewDue now then
        { task with
          looked := task.schedule.map fun schedule => (schedule.taskId, schedule.generation) }
      else task }

/-- `_prepare_accuracy_review_if_due` from the snapshot on. -/
def ReviewWorld.settle (w : ReviewWorld) (now : Seconds) (timeNs : Nat)
    (snapshot : Option TaskSnapshot) : ReviewWorld × Option ReviewEvent :=
  match w.memory with
  | none => (w, none)
  | some task =>
      match task.looked with
      | none => (w, none)
      | some (taskId, generation) =>
          let task := { task with looked := none }
          match task.settleReview machine texts contactId now timeNs taskId generation snapshot with
          | none => ({ w with memory := some task }, none)
          | some (event, task) => ((ReviewWorld.persist task).closeIfTerminal, event)

/-- `claim_accuracy_review`. -/
def ReviewWorld.claim (w : ReviewWorld) (process : Process) (now : Seconds) : ReviewWorld :=
  match w.memory with
  | none => w
  | some task =>
      match task.schedule with
      | none => w
      | some schedule =>
          match (schedule.lifecycle contactId task.terminal).claimAccuracyReview process now with
          | none => w
          | some (_, lifecycle) =>
              .persist { task with schedule := some (schedule.withProgress lifecycle now) }

/-- `acknowledge_accuracy_review_dispatched`. -/
def ReviewWorld.acknowledge (w : ReviewWorld) (reviewId : String) (now : Seconds) : ReviewWorld :=
  match w.memory with
  | some task =>
      match task.schedule.bind fun schedule => schedule.acknowledge contactId reviewId now with
      | none => w
      | some schedule => .persist { task with schedule := some schedule }
  | none =>
      { w with
        stored := w.stored.map fun entry =>
          match entry.schedule.bind fun schedule => schedule.acknowledge contactId reviewId now with
          | none => entry
          | some schedule => { entry with schedule := some schedule } }

/-- `complete_accuracy_review_root`. -/
def ReviewWorld.complete (w : ReviewWorld) (reviewId : String) (now : Seconds) :
    ReviewWorld × Option ReviewEvent :=
  match w.memory with
  | some task =>
      match task.schedule.bind fun schedule => schedule.complete contactId reviewId now with
      | none => (w.closeIfTerminal, none)
      | some (range, schedule) =>
          ((ReviewWorld.persist { task with schedule := some schedule }).closeIfTerminal,
            some (.completed range))
  | none =>
      match w.stored with
      | none => (w, none)
      | some entry =>
          if entry.terminal ∧ entry.delivering = false then ({ w with stored := none }, none)
          else
            match entry.schedule.bind fun schedule => schedule.complete contactId reviewId now with
            | none => (w, none)
            | some (range, schedule) =>
                ({ w with stored := some { entry with schedule := some schedule } },
                  some (.completed range))

/-- The world after a step, and what the step tells. -/
def ReviewWorld.next (w : ReviewWorld) : ReviewStep → ReviewWorld × Option ReviewEvent
  | .begin => (w.begin, none)
  | .crash => ({ w with memory := none }, none)
  | .expire => ({ w with stored := none }, none)
  | .finish => ({ memory := none, stored := none }, none)
  | .publish clock timeNs taskId data => w.change fun task =>
      { task with taskId := taskId }.scheduleFromData machine texts contactId clock timeNs taskId
        data
  | .backfill clock timeNs taskId goalSeconds elapsed =>
      w.backfill machine texts contactId clock timeNs taskId goalSeconds elapsed
  | .terminate => w.change fun task => (none, { task with terminal := true, schedule := none })
  | .deliver delivering => w.change fun task => (none, { task with delivering := delivering })
  | .look now => (w.look now, none)
  | .settle now timeNs snapshot => w.settle machine texts contactId now timeNs snapshot
  | .claim process now => (w.claim contactId process now, none)
  | .acknowledge reviewId now => (w.acknowledge contactId reviewId now, none)
  | .complete reviewId now => w.complete contactId reviewId now

/-- The world after these steps. -/
def ReviewWorld.after (w : ReviewWorld) : List ReviewStep → ReviewWorld
  | [] => w
  | step :: rest => (w.next machine texts contactId step).1.after rest

/-- What these steps tell, in order. -/
def ReviewWorld.events (w : ReviewWorld) : List ReviewStep → List ReviewEvent
  | [] => []
  | step :: rest =>
      (w.next machine texts contactId step).2.toList ++
        (w.next machine texts contactId step).1.events rest

/-! ## Ranges in a row -/

/-- The ranges go on from one checkpoint to another, each where the last one ended. -/
def Consecutive : Nat → List (Nat × Nat) → Nat → Prop
  | start, [], stop => start = stop
  | start, range :: rest, stop =>
      range.1 = start ∧ range.1 ≤ range.2 ∧ Consecutive (range.2 + 1) rest stop

variable {start stop : Nat} {ranges more : List (Nat × Nat)}

theorem Consecutive.le (h : Consecutive start ranges stop) : start ≤ stop := by
  induction ranges generalizing start with
  | nil => exact h.le
  | cons range rest ih =>
      rcases h with ⟨rfl, hle, hrest⟩
      have := ih hrest
      omega

theorem Consecutive.append {middle : Nat} (h : Consecutive start ranges middle)
    (hmore : Consecutive middle more stop) : Consecutive start (ranges ++ more) stop := by
  induction ranges generalizing start with
  | nil =>
      cases h
      exact hmore
  | cons range rest ih => exact ⟨h.1, h.2.1, ih h.2.2⟩

theorem Consecutive.split (h : Consecutive start (ranges ++ more) stop) :
    ∃ middle, Consecutive start ranges middle ∧ Consecutive middle more stop := by
  induction ranges generalizing start with
  | nil => exact ⟨start, rfl, h⟩
  | cons range rest ih =>
      rcases ih h.2.2 with ⟨middle, hranges, hmore⟩
      exact ⟨middle, ⟨h.1, h.2.1, hranges⟩, hmore⟩

theorem Consecutive.unique {stop' : Nat} (h : Consecutive start ranges stop)
    (h' : Consecutive start ranges stop') : stop = stop' := by
  induction ranges generalizing start with
  | nil => exact Eq.trans (Eq.symm h) h'
  | cons range rest ih => exact ih h.2.2 h'.2.2

/-- Every range is one that starts late enough and ends early enough. -/
theorem Consecutive.bounds (h : Consecutive start ranges stop) :
    ∀ range ∈ ranges, start ≤ range.1 ∧ range.1 ≤ range.2 ∧ range.2 < stop := by
  induction ranges generalizing start with
  | nil => exact List.forall_mem_nil _
  | cons first rest ih =>
      rcases h with ⟨rfl, hle, hrest⟩
      rw [List.forall_mem_cons]
      have hstop := hrest.le
      refine ⟨⟨le_rfl, hle, by omega⟩, ?_⟩
      intro range hmem
      have := ih hrest range hmem
      omega

/-- Ranges in a row are disjoint, and later ones lie higher. -/
theorem Consecutive.pairwise (h : Consecutive start ranges stop) :
    ranges.Pairwise fun range later => range.2 < later.1 := by
  induction ranges generalizing start with
  | nil => exact List.Pairwise.nil
  | cons first rest ih =>
      rw [List.pairwise_cons]
      refine ⟨?_, ih h.2.2⟩
      intro range hmem
      exact (h.2.2.bounds range hmem).1

/-! ## What a step does to the checkpoints -/

/-- The schedules of the lifecycle, in memory and stored. -/
def ReviewWorld.schedules (w : ReviewWorld) : List AccuracySchedule :=
  (w.memory.bind LoadedTask.schedule).toList ++ (w.stored.bind StoredTask.schedule).toList

/-- The checkpoints of the pending review. -/
def AccuracySchedule.pendingRange (schedule : AccuracySchedule) : Option (Nat × Nat) :=
  schedule.pendingReview.map Review.range

/-- How the schedules of two worlds are related when a step tells this. -/
def ReviewProgress (w w' : ReviewWorld) : Option ReviewEvent → Prop
  | none => ∀ after ∈ w'.schedules, ∃ before ∈ w.schedules,
      after.nextCheckpoint = before.nextCheckpoint ∧
        after.pendingRange = before.pendingRange ∧ after.generation = before.generation
  | some (.made generation) => ∀ after ∈ w'.schedules,
      after.nextCheckpoint = 1 ∧ after.pendingRange = none ∧ after.generation = generation
  | some (.prepared range) => ∃ before ∈ w.schedules,
      before.pendingRange = none ∧ range.1 = max 1 before.nextCheckpoint ∧ range.1 ≤ range.2 ∧
        ∀ after ∈ w'.schedules, after.nextCheckpoint = before.nextCheckpoint ∧
          after.pendingRange = some range ∧ after.generation = before.generation
  | some (.completed range) => ∃ before ∈ w.schedules, before.pendingRange = some range ∧
      ∀ after ∈ w'.schedules, after.nextCheckpoint = max before.nextCheckpoint (range.2 + 1) ∧
        after.pendingRange = none ∧ after.generation = before.generation

variable {machine texts contactId} {w w' : ReviewWorld} {task task' : LoadedTask}
  {event : Option ReviewEvent} {schedule : AccuracySchedule}

theorem mem_schedules : schedule ∈ w.schedules ↔
    (∃ task, w.memory = some task ∧ task.schedule = some schedule) ∨
      ∃ entry, w.stored = some entry ∧ entry.schedule = some schedule := by
  simp [ReviewWorld.schedules, Option.bind_eq_some_iff]

@[simp]
theorem mem_schedules_persist : schedule ∈ (ReviewWorld.persist task).schedules ↔
    task.schedule = some schedule := by
  simp [mem_schedules, ReviewWorld.persist, LoadedTask.payload]

/-- A world with no other schedules than before. -/
theorem ReviewProgress.of_subset (h : ∀ after ∈ w'.schedules, after ∈ w.schedules) :
    ReviewProgress w w' none :=
  fun after hafter => ⟨after, h after hafter, rfl, rfl, rfl⟩

/-- Dropping schedules does not change what a step tells. -/
theorem ReviewProgress.subset {w'' : ReviewWorld} (h : ReviewProgress w w' event)
    (hsub : ∀ after ∈ w''.schedules, after ∈ w'.schedules) : ReviewProgress w w'' event := by
  rcases event with - | generation | range | range
  · exact fun after hafter => h after (hsub after hafter)
  · exact fun after hafter => h after (hsub after hafter)
  · rcases h with ⟨before, hbefore, hnone, hfrom, hle, hall⟩
    exact ⟨before, hbefore, hnone, hfrom, hle, fun after hafter => hall after (hsub after hafter)⟩
  · rcases h with ⟨before, hbefore, hpending, hall⟩
    exact ⟨before, hbefore, hpending, fun after hafter => hall after (hsub after hafter)⟩

theorem mem_schedules_closeIfTerminal (h : schedule ∈ w.closeIfTerminal.schedules) :
    schedule ∈ w.schedules := by
  unfold ReviewWorld.closeIfTerminal at h
  split at h
  · simp [ReviewWorld.schedules] at h
  · exact h

/-- Persisting a lifecycle that has the schedule it had. -/
theorem progress_same (hmemory : w.memory = some task) (h : task'.schedule = task.schedule) :
    ReviewProgress w (.persist task') none := by
  apply ReviewProgress.of_subset
  intro after hafter
  rw [mem_schedules_persist, h] at hafter
  exact mem_schedules.mpr (.inl ⟨task, hmemory, hafter⟩)

/-- Persisting a lifecycle without a schedule. -/
theorem progress_cancelled (h : task'.schedule = none) :
    ReviewProgress w (.persist task') none := by
  apply ReviewProgress.of_subset
  intro after hafter
  rw [mem_schedules_persist, h] at hafter
  exact absurd hafter (by simp)

/-- Persisting a lifecycle whose schedule is where it was. -/
theorem progress_moved {before after : AccuracySchedule} (hmemory : w.memory = some task)
    (hbefore : task.schedule = some before) (hafter : task'.schedule = some after)
    (hnext : after.nextCheckpoint = before.nextCheckpoint)
    (hpending : after.pendingRange = before.pendingRange)
    (hgeneration : after.generation = before.generation) :
    ReviewProgress w (.persist task') none := by
  intro found hfound
  rw [mem_schedules_persist, hafter, Option.some.injEq] at hfound
  subst hfound
  exact ⟨before, mem_schedules.mpr (.inl ⟨task, hmemory, hbefore⟩), hnext, hpending, hgeneration⟩

/-! ## Goals -/

theorem setAccuracyGoal_cases {timeNs : Nat} {taskId : String} {goalSeconds now : Seconds} :
    task.setAccuracyGoal machine texts contactId timeNs taskId goalSeconds now = (none, task) ∨
      ∃ generation schedule,
        task.setAccuracyGoal machine texts contactId timeNs taskId goalSeconds now =
          (some (.made generation), { task with schedule := some schedule }) ∧
        schedule.nextCheckpoint = 1 ∧ schedule.pendingReview = none ∧
          schedule.generation = generation := by
  unfold LoadedTask.setAccuracyGoal
  split
  · exact .inl rfl
  split
  · exact .inl rfl
  · exact .inr ⟨_, _, rfl, rfl, rfl, rfl⟩

/-- Persisting what setting a goal has left. -/
theorem progress_goal (hmemory : task.schedule = none ∨ ∃ task₀, w.memory = some task₀ ∧
    task₀.schedule = task.schedule) {timeNs : Nat} {taskId : String} {goalSeconds now : Seconds} :
    ReviewProgress w
      (.persist (task.setAccuracyGoal machine texts contactId timeNs taskId goalSeconds now).2)
      (task.setAccuracyGoal machine texts contactId timeNs taskId goalSeconds now).1 := by
  rcases @setAccuracyGoal_cases machine texts contactId task timeNs taskId goalSeconds now with
    hsame | ⟨generation, schedule, hmade, hnext, hpending, hgeneration⟩
  · rw [hsame]
    rcases hmemory with hnone | ⟨task₀, hmemory, hschedule⟩
    · exact progress_cancelled hnone
    · exact progress_same hmemory hschedule.symm
  · rw [hmade]
    intro after hafter
    rw [mem_schedules_persist, Option.some.injEq] at hafter
    subst hafter
    exact ⟨hnext, by rw [AccuracySchedule.pendingRange, hpending]; rfl, hgeneration⟩

theorem scheduleFromData_progress (hmemory : w.memory = some task') {clock : Seconds}
    {timeNs : Nat} {taskId : String} {data : TaskData}
    (hschedule : task'.schedule = task.schedule) :
    ReviewProgress w
      (.persist (task.scheduleFromData machine texts contactId clock timeNs taskId data).2)
      (task.scheduleFromData machine texts contactId clock timeNs taskId data).1 := by
  unfold LoadedTask.scheduleFromData
  split
  · split
    · exact progress_cancelled rfl
    · exact progress_same hmemory hschedule.symm
  · exact progress_goal (.inr ⟨task', hmemory, hschedule⟩)

/-! ## Reviews -/

/-- A review that the schedule is made to wait for is what the schedule tells. -/
theorem settleReview_progress {task₀ : LoadedTask} (hmemory : w.memory = some task₀)
    (hschedule : task₀.schedule = task.schedule) {now : Seconds} {timeNs : Nat}
    {taskId generation : String} {snapshot : Option TaskSnapshot}
    {result : Option ReviewEvent × LoadedTask}
    (h : task.settleReview machine texts contactId now timeNs taskId generation snapshot =
      some result) :
    ReviewProgress w (.persist result.2) result.1 := by
  unfold LoadedTask.settleReview at h
  split at h
  · cases h
  rename_i current hcurrent
  by_cases hother : current.generation ≠ generation ∨ current.pendingReview.isSome
  · rw [if_pos hother] at h
    cases h
  rw [if_neg hother] at h
  have hnone : current.pendingReview = none := by
    rw [not_or] at hother
    simpa using hother.2
  split at h
  · rw [← Option.some.inj h]
    exact progress_cancelled rfl
  split at h
  · cases h
  split at h
  · rw [← Option.some.inj h]
    exact progress_moved hmemory (hschedule.trans hcurrent) rfl rfl rfl rfl
  rename_i found
  simp only at h
  split at h
  · rw [← Option.some.inj h]
    exact progress_cancelled rfl
  split at h
  · rw [← Option.some.inj h]
    exact progress_goal (.inr ⟨task₀, hmemory, hschedule⟩)
  split at h
  · rw [← Option.some.inj h]
    exact progress_cancelled rfl
  split at h
  · cases h
  rename_i hthrough
  rw [← Option.some.inj h]
  refine ⟨current, mem_schedules.mpr (.inl ⟨task₀, hmemory, hschedule.trans hcurrent⟩), ?_, rfl,
    Nat.le_of_not_lt hthrough, ?_⟩
  · rw [AccuracySchedule.pendingRange, hnone]
    rfl
  · intro after hafter
    rw [mem_schedules_persist, Option.some.injEq] at hafter
    subst hafter
    exact ⟨rfl, rfl, rfl⟩

theorem claim_progress {process : Process} {now : Seconds} :
    ReviewProgress w (w.claim contactId process now) none := by
  unfold ReviewWorld.claim
  split
  · exact .of_subset fun _ hafter => hafter
  rename_i task hmemory
  split
  · exact .of_subset fun _ hafter => hafter
  rename_i schedule hschedule
  split
  · exact .of_subset fun _ hafter => hafter
  rename_i lifecycle hclaim
  unfold Lifecycle.claimAccuracyReview at hclaim
  split at hclaim
  · cases hclaim
  rename_i review hreview
  split at hclaim
  · cases hclaim
  split at hclaim
  · cases hclaim
  simp only [Option.some.injEq, Prod.mk.injEq] at hclaim
  rw [← hclaim.2]
  refine progress_moved hmemory hschedule rfl rfl ?_ rfl
  have hpending : schedule.pendingReview = some review := hreview
  rw [AccuracySchedule.pendingRange, AccuracySchedule.pendingRange, hpending]
  rfl

theorem named_eq_some {reviewId : String} {review : Review} :
    schedule.named reviewId = some review ↔
      schedule.pendingReview = some review ∧ review.reviewId = reviewId := by
  simp [AccuracySchedule.named]

theorem acknowledge_moved {after : AccuracySchedule} {reviewId : String} {now : Seconds}
    (h : schedule.acknowledge contactId reviewId now = some after) :
    after.nextCheckpoint = schedule.nextCheckpoint ∧
      after.pendingRange = schedule.pendingRange ∧ after.generation = schedule.generation := by
  rcases Option.map_eq_some_iff.mp h with ⟨review, hnamed, rfl⟩
  rcases named_eq_some.mp hnamed with ⟨hpending, hid⟩
  unfold AccuracySchedule.withProgress Lifecycle.markAccuracyReviewDispatched
    AccuracySchedule.lifecycle AccuracySchedule.pendingRange
  simp only [hpending, hid, ne_eq, not_true_eq_false, if_false, Option.map_some]
  exact ⟨trivial, rfl, trivial⟩

theorem complete_moved {after : AccuracySchedule} {range : Nat × Nat} {reviewId : String}
    {now : Seconds} (h : schedule.complete contactId reviewId now = some (range, after)) :
    schedule.pendingRange = some range ∧
      after.nextCheckpoint = max schedule.nextCheckpoint (range.2 + 1) ∧
        after.pendingRange = none ∧ after.generation = schedule.generation := by
  rcases Option.map_eq_some_iff.mp h with ⟨review, hnamed, heq⟩
  rcases named_eq_some.mp hnamed with ⟨hpending, hid⟩
  rcases Prod.mk.inj heq with ⟨rfl, rfl⟩
  unfold AccuracySchedule.withProgress Lifecycle.completeAccuracyReview
    AccuracySchedule.lifecycle AccuracySchedule.pendingRange
  simp only [hpending, hid, ne_eq, not_true_eq_false, if_false, Option.map_some]
  exact ⟨trivial, rfl, rfl, trivial⟩

theorem acknowledge_progress {reviewId : String} {now : Seconds} :
    ReviewProgress w (w.acknowledge contactId reviewId now) none := by
  unfold ReviewWorld.acknowledge
  split
  · rename_i task hmemory
    split
    · exact .of_subset fun _ hafter => hafter
    rename_i after hafter
    rcases Option.bind_eq_some_iff.mp hafter with ⟨before, hbefore, hack⟩
    rcases acknowledge_moved hack with ⟨hnext, hpending, hgeneration⟩
    exact progress_moved hmemory hbefore rfl hnext hpending hgeneration
  · rename_i hmemory
    intro after hafter
    rcases mem_schedules.mp hafter with ⟨task, htask, -⟩ | ⟨entry', hentry', hschedule⟩
    · rw [hmemory] at htask
      cases htask
    rcases Option.map_eq_some_iff.mp hentry' with ⟨entry, hentry, rfl⟩
    split at hschedule
    · exact ⟨after, mem_schedules.mpr (.inr ⟨entry, hentry, hschedule⟩), rfl, rfl, rfl⟩
    rename_i found hfound
    rcases Option.bind_eq_some_iff.mp hfound with ⟨before, hbefore, hack⟩
    rw [← Option.some.inj hschedule]
    exact ⟨before, mem_schedules.mpr (.inr ⟨entry, hentry, hbefore⟩), acknowledge_moved hack⟩

theorem complete_progress {reviewId : String} {now : Seconds} :
    ReviewProgress w (w.complete contactId reviewId now).1
      (w.complete contactId reviewId now).2 := by
  unfold ReviewWorld.complete
  split
  · rename_i task hmemory
    split
    · exact .of_subset fun _ hafter => mem_schedules_closeIfTerminal hafter
    rename_i range after hafter
    rcases Option.bind_eq_some_iff.mp hafter with ⟨before, hbefore, hcomplete⟩
    rcases complete_moved hcomplete with ⟨hpending, hmoved⟩
    refine ⟨before, mem_schedules.mpr (.inl ⟨task, hmemory, hbefore⟩), hpending, ?_⟩
    intro found hfound
    have hin := mem_schedules_closeIfTerminal hfound
    rw [mem_schedules_persist, Option.some.injEq] at hin
    exact hin ▸ hmoved
  rename_i hmemory
  split
  · exact .of_subset fun _ hafter => hafter
  rename_i entry hentry
  split
  · apply ReviewProgress.of_subset
    intro after hafter
    simp [ReviewWorld.schedules, hmemory] at hafter
  split
  · exact .of_subset fun _ hafter => hafter
  rename_i range after hafter
  rcases Option.bind_eq_some_iff.mp hafter with ⟨before, hbefore, hcomplete⟩
  rcases complete_moved hcomplete with ⟨hpending, hmoved⟩
  refine ⟨before, mem_schedules.mpr (.inr ⟨entry, hentry, hbefore⟩), hpending, ?_⟩
  intro found hfound
  simp only [ReviewWorld.schedules, hmemory, Option.bind_none, Option.toList_none,
    List.nil_append, Option.bind_some, Option.toList_some, List.mem_singleton] at hfound
  exact hfound ▸ hmoved

/-- What each step does to the checkpoints of the schedules. -/
theorem next_progress (step : ReviewStep) :
    ReviewProgress w (w.next machine texts contactId step).1
      (w.next machine texts contactId step).2 := by
  cases step with
  | begin =>
      apply ReviewProgress.of_subset
      intro after hafter
      change after ∈ (ReviewWorld.begin w).schedules at hafter
      unfold ReviewWorld.begin at hafter
      rw [mem_schedules_persist] at hafter
      cases hmemory : w.memory with
      | some task =>
          rw [hmemory] at hafter
          exact mem_schedules.mpr (.inl ⟨task, hmemory, hafter⟩)
      | none =>
          rw [hmemory, Option.getD_none] at hafter
          cases hstored : w.stored with
          | some entry =>
              rw [hstored] at hafter
              exact mem_schedules.mpr (.inr ⟨entry, hstored, hafter⟩)
          | none =>
              rw [hstored] at hafter
              cases hafter
  | crash =>
      apply ReviewProgress.of_subset
      intro after hafter
      rw [mem_schedules] at hafter ⊢
      rcases hafter with ⟨task, htask, -⟩ | hstored
      · cases htask
      · exact .inr hstored
  | expire =>
      apply ReviewProgress.of_subset
      intro after hafter
      rw [mem_schedules] at hafter ⊢
      rcases hafter with hmemory | ⟨entry, hentry, -⟩
      · exact .inl hmemory
      · cases hentry
  | finish =>
      intro after hafter
      simp [ReviewWorld.next, ReviewWorld.schedules] at hafter
  | publish clock timeNs taskId data =>
      simp only [ReviewWorld.next, ReviewWorld.change]
      split
      · exact .of_subset fun _ hafter => hafter
      · rename_i task hmemory
        exact scheduleFromData_progress hmemory rfl
  | backfill clock timeNs taskId goalSeconds elapsed =>
      simp only [ReviewWorld.next, ReviewWorld.backfill]
      split
      · exact .of_subset fun _ hafter => hafter
      apply progress_goal
      cases hmemory : w.memory with
      | none => exact .inl rfl
      | some task => exact .inr ⟨task, rfl, rfl⟩
  | terminate =>
      simp only [ReviewWorld.next, ReviewWorld.change]
      split
      · exact .of_subset fun _ hafter => hafter
      · exact progress_cancelled rfl
  | deliver delivering =>
      simp only [ReviewWorld.next, ReviewWorld.change]
      split
      · exact .of_subset fun _ hafter => hafter
      · rename_i task hmemory
        exact progress_same hmemory rfl
  | look now =>
      apply ReviewProgress.of_subset
      intro after hafter
      rw [mem_schedules] at hafter ⊢
      rcases hafter with ⟨task', htask', hschedule⟩ | hstored
      · rcases Option.map_eq_some_iff.mp htask' with ⟨task, htask, rfl⟩
        refine .inl ⟨task, htask, ?_⟩
        split at hschedule <;> exact hschedule
      · exact .inr hstored
  | settle now timeNs snapshot =>
      simp only [ReviewWorld.next, ReviewWorld.settle]
      split
      · exact .of_subset fun _ hafter => hafter
      rename_i task hmemory
      split
      · exact .of_subset fun _ hafter => hafter
      split
      · apply ReviewProgress.of_subset
        intro after hafter
        rw [mem_schedules] at hafter ⊢
        rcases hafter with ⟨task', htask', hschedule⟩ | hstored
        · rw [← Option.some.inj htask'] at hschedule
          exact .inl ⟨task, hmemory, hschedule⟩
        · exact .inr hstored
      · rename_i event task' hsettle
        have hprogress : ReviewProgress w (.persist task') event := by
          refine settleReview_progress hmemory ?_ hsettle
          rfl
        exact hprogress.subset fun _ hafter => mem_schedules_closeIfTerminal hafter
  | claim process now => exact claim_progress
  | acknowledge reviewId now => exact acknowledge_progress
  | complete reviewId now => exact complete_progress

/-! ## One schedule -/

def ReviewEvent.isMade : ReviewEvent → Bool
  | .made _ => true
  | _ => false

/-- The checkpoints of the review that was prepared. -/
def ReviewEvent.preparedRange : ReviewEvent → Option (Nat × Nat)
  | .prepared range => some range
  | _ => none

/-- The checkpoints of the review that was completed. -/
def ReviewEvent.completedRange : ReviewEvent → Option (Nat × Nat)
  | .completed range => some range
  | _ => none

/-- The reviews that were prepared, in order. -/
def preparedRanges (events : List ReviewEvent) : List (Nat × Nat) :=
  events.filterMap ReviewEvent.preparedRange

/-- The reviews that were completed, in order. -/
def completedRanges (events : List ReviewEvent) : List (Nat × Nat) :=
  events.filterMap ReviewEvent.completedRange

/-- The reviews of the schedule that was made last: those that were completed are in a row, one more
may have been prepared, and every copy of the schedule goes on from there. -/
structure Tiled (generation : String) (prepared completed : List (Nat × Nat)) (w : ReviewWorld) :
    Prop where
  row : ∃ stop, Consecutive 1 completed stop
  waiting : ∃ rest, prepared = completed ++ rest ∧ rest.length ≤ 1
  next : ∀ schedule ∈ w.schedules, Consecutive 1 completed schedule.nextCheckpoint
  pending : ∀ schedule ∈ w.schedules,
    prepared = completed ++ schedule.pendingRange.toList ∧
      ∀ range, schedule.pendingRange = some range →
        range.1 = schedule.nextCheckpoint ∧ range.1 ≤ range.2
  generation : ∀ schedule ∈ w.schedules, schedule.generation = generation

variable {prepared completed : List (Nat × Nat)} {generation : String}

theorem tiled_made (h : ReviewProgress w w' (some (.made generation))) :
    Tiled generation [] [] w' where
  row := ⟨1, rfl⟩
  waiting := ⟨[], rfl, Nat.zero_le _⟩
  next schedule hschedule := (h schedule hschedule).1.symm
  pending schedule hschedule := by
    rw [(h schedule hschedule).2.1]
    exact ⟨rfl, fun range hrange => by cases hrange⟩
  generation schedule hschedule := (h schedule hschedule).2.2

theorem Tiled.same (h : Tiled generation prepared completed w)
    (hprogress : ReviewProgress w w' none) :
    Tiled generation prepared completed w' where
  row := h.row
  waiting := h.waiting
  next after hafter := by
    rcases hprogress after hafter with ⟨before, hbefore, hnext, -⟩
    rw [hnext]
    exact h.next before hbefore
  pending after hafter := by
    rcases hprogress after hafter with ⟨before, hbefore, hnext, hpending, -⟩
    rw [hnext, hpending]
    exact h.pending before hbefore
  generation after hafter := by
    rcases hprogress after hafter with ⟨before, hbefore, -, -, hgeneration⟩
    rw [hgeneration]
    exact h.generation before hbefore

theorem Tiled.prepare {range : Nat × Nat} (h : Tiled generation prepared completed w)
    (hprogress : ReviewProgress w w' (some (.prepared range))) :
    Tiled generation (prepared ++ [range]) completed w' := by
  rcases hprogress with ⟨before, hbefore, hnone, hfrom, hle, hall⟩
  have hall' : prepared = completed := by
    rw [(h.pending before hbefore).1, hnone, Option.toList_none, List.append_nil]
  have hone := (h.next before hbefore).le
  constructor
  · exact h.row
  · exact ⟨[range], by rw [hall'], Nat.le_refl 1⟩
  · intro after hafter
    rw [(hall after hafter).1]
    exact h.next before hbefore
  · intro after hafter
    rw [(hall after hafter).1, (hall after hafter).2.1, hall']
    refine ⟨rfl, ?_⟩
    intro found hfound
    rw [← Option.some.inj hfound]
    exact ⟨hfrom.trans (Nat.max_eq_right hone), hle⟩
  · intro after hafter
    rw [(hall after hafter).2.2]
    exact h.generation before hbefore

theorem Tiled.complete {range : Nat × Nat} (h : Tiled generation prepared completed w)
    (hprogress : ReviewProgress w w' (some (.completed range))) :
    Tiled generation prepared (completed ++ [range]) w' := by
  rcases hprogress with ⟨before, hbefore, hpending, hall⟩
  rcases h.pending before hbefore with ⟨hprepared, hrange⟩
  rcases hrange range hpending with ⟨hfrom, hle⟩
  have hrow : Consecutive 1 (completed ++ [range]) (range.2 + 1) :=
    (h.next before hbefore).append ⟨hfrom, hle, rfl⟩
  have hnext : max before.nextCheckpoint (range.2 + 1) = range.2 + 1 := by omega
  rw [hpending, Option.toList_some] at hprepared
  constructor
  · exact ⟨_, hrow⟩
  · exact ⟨[], by rw [hprepared, List.append_nil], Nat.zero_le 1⟩
  · intro after hafter
    rw [(hall after hafter).1, hnext]
    exact hrow
  · intro after hafter
    rw [(hall after hafter).2.1, hprepared]
    exact ⟨(List.append_nil _).symm, fun found hfound => by cases hfound⟩
  · intro after hafter
    rw [(hall after hafter).2.2]
    exact h.generation before hbefore

/-- A step that makes no schedule. -/
theorem Tiled.step {step : ReviewStep} (h : Tiled generation prepared completed w)
    (hnone : ∀ event ∈ (w.next machine texts contactId step).2.toList, event.isMade = false) :
    Tiled generation
      (prepared ++ preparedRanges (w.next machine texts contactId step).2.toList)
      (completed ++ completedRanges (w.next machine texts contactId step).2.toList)
      (w.next machine texts contactId step).1 := by
  have hprogress := @next_progress machine texts contactId w step
  revert hprogress hnone
  cases (w.next machine texts contactId step).2 with
  | none =>
      intro _ hprogress
      simp only [preparedRanges, completedRanges, Option.toList_none, List.filterMap_nil,
        List.append_nil]
      exact h.same hprogress
  | some event =>
      intro hnone hprogress
      cases event with
      | made other =>
          exact absurd (hnone _ (List.mem_singleton.mpr rfl)) (by simp [ReviewEvent.isMade])
      | prepared range =>
          have hnothing : completedRanges (some (ReviewEvent.prepared range)).toList = [] := rfl
          rw [hnothing, List.append_nil]
          exact h.prepare hprogress
      | completed range =>
          have hnothing : preparedRanges (some (ReviewEvent.completed range)).toList = [] := rfl
          rw [hnothing, List.append_nil]
          exact h.complete hprogress

/-- Steps that make no schedule. -/
theorem Tiled.run {steps : List ReviewStep} (h : Tiled generation prepared completed w)
    (hnone : ∀ event ∈ w.events machine texts contactId steps, event.isMade = false) :
    Tiled generation
      (prepared ++ preparedRanges (w.events machine texts contactId steps))
      (completed ++ completedRanges (w.events machine texts contactId steps))
      (w.after machine texts contactId steps) := by
  induction steps generalizing w prepared completed with
  | nil => simpa [ReviewWorld.after, ReviewWorld.events, preparedRanges, completedRanges] using h
  | cons step rest ih =>
      have hstep := @Tiled.step machine texts contactId w prepared completed generation step h
        fun event hmem => hnone event (List.mem_append_left _ hmem)
      have hrest := ih hstep fun event hmem => hnone event (List.mem_append_right _ hmem)
      simpa [ReviewWorld.after, ReviewWorld.events, preparedRanges, completedRanges] using hrest

theorem after_append (steps more : List ReviewStep) :
    w.after machine texts contactId (steps ++ more) =
      (w.after machine texts contactId steps).after machine texts contactId more := by
  induction steps generalizing w with
  | nil => rfl
  | cons step rest ih => exact ih

theorem events_append (steps more : List ReviewStep) :
    w.events machine texts contactId (steps ++ more) =
      w.events machine texts contactId steps ++
        (w.after machine texts contactId steps).events machine texts contactId more := by
  induction steps generalizing w with
  | nil => rfl
  | cons step rest ih =>
      rw [List.cons_append, ReviewWorld.events, ih, ReviewWorld.events, ReviewWorld.after,
        List.append_assoc]

/-- The reviews of a schedule tile the task in these steps: what was completed is a row of ranges
that starts with the first checkpoint, they are disjoint and increase, at most one review that was
prepared is not completed, and no copy of the schedule falls behind an earlier one. -/
structure ReviewsTile (machine : Machine) (texts : NumberTexts) (contactId generation : String)
    (start : ReviewWorld) (steps : List ReviewStep) : Prop where
  generation : ∀ schedule ∈ (start.after machine texts contactId steps).schedules,
    schedule.generation = generation
  contiguous : ∃ stop,
    Consecutive 1 (completedRanges (start.events machine texts contactId steps)) stop
  increasing : (completedRanges (start.events machine texts contactId steps)).Pairwise
    fun range later => range.2 < later.1
  onePending : ∃ rest, rest.length ≤ 1 ∧
    preparedRanges (start.events machine texts contactId steps) =
      completedRanges (start.events machine texts contactId steps) ++ rest
  pending : ∀ schedule ∈ (start.after machine texts contactId steps).schedules,
    preparedRanges (start.events machine texts contactId steps) =
      completedRanges (start.events machine texts contactId steps) ++ schedule.pendingRange.toList
  checkpoints : ∀ earlier later, steps = earlier ++ later →
    ∀ before ∈ (start.after machine texts contactId earlier).schedules,
      ∀ after ∈ (start.after machine texts contactId steps).schedules,
        before.nextCheckpoint ≤ after.nextCheckpoint

/-- From the step that makes a schedule until another one is made, its reviews tile the task. -/
theorem reviews_tile (machine : Machine) (texts : NumberTexts) (contactId generation : String)
    (w : ReviewWorld) (make : ReviewStep) (steps : List ReviewStep)
    (hmade : (w.next machine texts contactId make).2 = some (.made generation))
    (hone : ∀ event ∈
      (w.next machine texts contactId make).1.events machine texts contactId steps,
        event.isMade = false) :
    ReviewsTile machine texts contactId generation
      (w.next machine texts contactId make).1 steps := by
  have hstart : Tiled generation [] [] (w.next machine texts contactId make).1 := by
    have hprogress := @next_progress machine texts contactId w make
    rw [hmade] at hprogress
    exact tiled_made hprogress
  have htiled := hstart.run hone
  rw [List.nil_append, List.nil_append] at htiled
  rcases htiled.row with ⟨stop, hrow⟩
  rcases htiled.waiting with ⟨rest, hprepared, hlength⟩
  constructor
  · exact htiled.generation
  · exact ⟨stop, hrow⟩
  · exact hrow.pairwise
  · exact ⟨rest, hlength, hprepared⟩
  · intro schedule hschedule
    exact (htiled.pending schedule hschedule).1
  · intro earlier later hsteps before hbefore after hafter
    have hafterRow := htiled.next after hafter
    subst hsteps
    rw [events_append] at hone hafterRow
    have hearlier := hstart.run fun event hmem => hone event (List.mem_append_left _ hmem)
    have hbeforeRow := hearlier.next before hbefore
    rw [List.nil_append] at hbeforeRow
    rw [completedRanges, List.filterMap_append] at hafterRow
    rcases hafterRow.split with ⟨middle, hmiddle, hmore⟩
    rw [hbeforeRow.unique hmiddle]
    exact hmore.le

/-! ## A reviewed task -/

def reviewMachine : Machine where
  token := "process"
  pid := 1
  alive := fun _ => true
  sha256 := fun text => text.toList.reverse

def reviewTexts : NumberTexts where
  plain := fun number => toString number.num
  general := fun number => toString number.num

/-- An estimate of two thousand seconds. -/
def estimatedSnapshot : TaskSnapshot where
  fields := { estimateSeconds := some (some 2000), realisticEstimateSeconds := none }
  timing := none
  state := "running"
  json := "{}"

/-- The generation of its schedule. -/
def estimatedGeneration : String :=
  stableId reviewMachine.sha256 "accuracy-schedule" ["a", "task", "2000", "1"]

/-- The id of the review of the first two checkpoints. -/
def firstReviewId : String :=
  stableId reviewMachine.sha256 "accuracy-review" [estimatedGeneration, "1", "2"]

/-- A review is claimed by a process that ends, claimed again and completed, and then the next one
is prepared. -/
def reviewedSteps : List ReviewStep :=
  [.look 1250, .settle 1251 2 (some estimatedSnapshot), .claim reviewMachine.toProcess 1260, .crash,
    .begin, .claim { reviewMachine.toProcess with token := "successor" } 1400,
    .acknowledge firstReviewId 1401, .complete firstReviewId 1450, .complete firstReviewId 1451,
    .look 1460, .settle 1460 3 (some estimatedSnapshot)]

/-- A lifecycle without a task. -/
def reviewedWorld : ReviewWorld :=
  .persist .fresh

theorem reviews_tile_estimated :
    completedRanges ((reviewedWorld.next reviewMachine reviewTexts "a"
      (.publish 1000 1 "task" estimatedSnapshot.toTaskData)).1.events reviewMachine reviewTexts "a"
        reviewedSteps) = [(1, 2)] ∧
    ReviewsTile reviewMachine reviewTexts "a" estimatedGeneration
      (reviewedWorld.next reviewMachine reviewTexts "a"
        (.publish 1000 1 "task" estimatedSnapshot.toTaskData)).1 reviewedSteps := by
  constructor
  · decide +kernel
  · apply reviews_tile
    · decide +kernel
    · decide +kernel

end LongTasks
end Stemcell
