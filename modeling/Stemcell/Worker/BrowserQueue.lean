import Stemcell.Lib.Dict
import Stemcell.Lib.Transition
import Stemcell.Worker.Sweep

/-!
# The profiled browser and its queue

Browser workers that use the shared profile run one at a time.  A start that finds the profile in
use puts a job into the queue file; when a worker ends, the queue is processed.  Both hold the
profile lock and the queue lock.  Incognito browsers, terminals and writers are launched under a
lock for their worker id alone.  The active table, the queue and the registry are three files, and
each read or write of one of them is a step here.

Main results:

- Definition `BrowserWorld.next`: one step of a call of a manager.
- Theorem `next_effect`: what a step does to the queue and to the active table.

Current gaps:

- Sessions, providers and output files are left out: they decide whether a launch succeeds, which
  is part of the step.
- What a call of the maintenance coordinator answers is part of the step.
- The claims of completions, which end in the removal of their records, and calls that end with an
  exception are left out.
-/

namespace Stemcell
namespace Worker

open Lib

/-! ## Files -/

/-- A record of the active table. -/
structure ActiveWorker where
  workerType : WorkerType
  incognito : Bool
  carbonId : String
  runId : String
deriving DecidableEq, Repr

/-- The test of `_is_profiled_browser_active` on one record. -/
def ActiveWorker.profiled (record : ActiveWorker) : Bool :=
  record.workerType = .browser && !record.incognito

/-- `_is_profiled_browser_active`. -/
def isProfiledBrowserActive (active : Dict String ActiveWorker) : Bool :=
  active.values.any ActiveWorker.profiled

/-- A record of the registry. -/
structure WorkerRecord where
  workerType : WorkerType
  carbonId : String
  incognito : Bool
deriving DecidableEq, Repr

/-- The arguments of `start_browser_worker` and its siblings; `created` when it was called by
`start_worker`, which has made the record. -/
structure Start where
  workerId : String
  task : String
  carbonId : String
  workerType : WorkerType
  incognito : Bool
  resume : Bool
  created : Bool
deriving DecidableEq, Repr

/-- A start that goes by the profile lock. -/
def Start.profiled (s : Start) : Bool :=
  s.workerType = .browser && !s.incognito

/-- A job of the browser queue. -/
structure Job where
  workerId : String
  task : String
  carbonId : String
  incognito : Bool
  resume : Bool
deriving DecidableEq, Repr

/-- The job that a start puts into the queue. -/
def Start.job (s : Start) : Job where
  workerId := s.workerId
  task := s.task
  carbonId := s.carbonId
  incognito := false
  resume := s.resume

/-- Whether a job is one of the worker. -/
def Job.isFor (workerId : String) (job : Job) : Bool :=
  job.workerId = workerId

/-- The launch of a job. -/
def Job.start (job : Job) : Start where
  workerId := job.workerId
  task := job.task
  carbonId := job.carbonId
  workerType := .browser
  incognito := job.incognito
  resume := job.resume
  created := false

/-! ## Calls -/

/-- How a start ends: it is done, the worker was active, it was queued, or its launch failed, with
or without a text that says so. -/
inductive StartResult
  | done
  | alreadyActive
  | alreadyQueued
  | failed (error : Bool)
deriving DecidableEq, Repr

/-- Whether `start_worker`, or `start_terminal_worker` in its place, removes the record after
this. -/
def Start.removesRecord (s : Start) : StartResult → Bool
  | .done => false
  | .alreadyActive => s.created && s.workerType ≠ .terminal
  | .alreadyQueued => s.created && s.workerType ≠ .terminal
  | .failed error => s.created && (s.workerType = .terminal || error)

/-- Where a thread is.  The stages of a start follow the source: it waits for its locks, has them,
has found the worker neither active nor queued, appends to the queue, or launches; `fromQueue` when
the launch is that of a job. -/
inductive CallStage
  | idle
  | admitting (s : Start)
  | creating (s : Start)
  | messaging (workerId task carbonId : String)
  | messageActive (s : Start)
  | messageQueue (s : Start)
  | messageAdmitting (s : Start)
  | entering (s : Start)
  | entered (s : Start)
  | locked (s : Start)
  | notActive (s : Start)
  | notQueued (s : Start)
  | appending (s : Start)
  | launching (s : Start) (fromQueue : Bool)
  | spawned (s : Start) (fromQueue : Bool)
  | recorded (s : Start) (fromQueue : Bool)
  | finishing (s : Start) (result : StartResult)
  | stopping (workerId carbonId : String)
  | stopLocked (workerId carbonId : String)
  | stopActive (workerId carbonId : String)
  | killing (workerId runId : String)
  | sweeping
  | draining
  | drainEntered
  | drainLocked
  | drainFree
deriving DecidableEq, Repr

/-- What a thread does: it begins a call, or goes on with it.  `answer` is that of the
maintenance coordinator, `spawn` the outcome of a launch, `record` the entry of the new run in the
active table, and `removes` the removal of a completed run by a sweep. -/
inductive CallAction
  | startWorker (s : Start)
  | startBrowserWorker (workerId task carbonId : String) (incognito resume : Bool)
  | messageWorker (workerId task carbonId : String)
  | stopWorker (workerId carbonId : String)
  | processBrowserQueue
  | checkCompletedWorkers
  | go
  | answer (granted : Bool)
  | spawn
  | fail (error : Bool)
  | record (runId : String)
  | removes (workerId runId : String)
deriving DecidableEq, Repr

/-- A step of one thread. -/
structure CallEvent where
  thread : Nat
  action : CallAction
deriving DecidableEq, Repr

/-- The files, the locks and the calls; and of the jobs, all that were queued, the one that is
being launched, those whose launch was attempted and those that were stopped. -/
structure BrowserWorld where
  registry : Dict String WorkerRecord
  active : Dict String ActiveWorker
  queue : List Job
  profileLock : Option Nat
  queueLock : Option Nat
  launchLock : String → Option Nat
  calls : Nat → CallStage
  entered : List Job
  launching : Option Job
  attempted : List Job
  stopped : List Job

/-- Nothing has been called. -/
def BrowserWorld.initial : BrowserWorld where
  registry := Dict.empty
  active := Dict.empty
  queue := []
  profileLock := none
  queueLock := none
  launchLock _ := none
  calls _ := .idle
  entered := []
  launching := none
  attempted := []
  stopped := []

/-- The worker ids of the queue. -/
def BrowserWorld.queued (w : BrowserWorld) : List String :=
  w.queue.map Job.workerId

/-- The file name of `_worker_launch_lock_path`, by which letters and digits are told. -/
@[irreducible]
def launchLockName (isAlnum : Char → Bool) (workerId : String) : String :=
  String.ofList (((if workerId = "" then "worker" else workerId).toList.map fun c =>
    if isAlnum c || c ∈ ['-', '_', '.'] then c else '-').take 80)

namespace BrowserWorld

/-- The thread is at another place. -/
def become (w : BrowserWorld) (thread : Nat) (stage : CallStage) : BrowserWorld :=
  { w with calls := Function.update w.calls thread stage }

/-- The two locks are given back. -/
def release (w : BrowserWorld) : BrowserWorld :=
  { w with profileLock := none, queueLock := none }

def setLaunchLock (w : BrowserWorld) (name : String) (holder : Option Nat) : BrowserWorld :=
  { w with launchLock := Function.update w.launchLock name holder }

/-- `_create_worker_record`, where there is none. -/
def register (w : BrowserWorld) (s : Start) : BrowserWorld :=
  { w with registry := w.registry.set s.workerId ⟨s.workerType, s.carbonId, s.incognito⟩ }

/-- `_record_active_run` up to the update of the registry. -/
def recordActiveRun (w : BrowserWorld) (s : Start) (runId : String) : BrowserWorld :=
  { w with active := w.active.set s.workerId ⟨s.workerType, s.incognito, s.carbonId, runId⟩ }

/-- The end of a start or of the launch of a job: its locks are given back. -/
def finish (w : BrowserWorld) (isAlnum : Char → Bool) (thread : Nat) (s : Start)
    (fromQueue : Bool) (result : StartResult) : BrowserWorld :=
  if fromQueue then w.release.become thread .idle
  else if s.profiled then w.release.become thread (.finishing s result)
  else (w.setLaunchLock (launchLockName isAlnum s.workerId) none).become thread
    (.finishing s result)

/-- The launch of a job has been attempted. -/
def attempt (w : BrowserWorld) (fromQueue : Bool) : BrowserWorld :=
  if fromQueue then
    { w with attempted := w.attempted ++ w.launching.toList, launching := none }
  else w

section Source

variable (isAlnum : Char → Bool)

/-- A step of a start from the wait for its locks up to the launch. -/
def goStart (w : BrowserWorld) (thread : Nat) : CallStage → Option BrowserWorld
  | .entering s =>
      if s.profiled then
        if w.profileLock = none then
          some ({ w with profileLock := some thread }.become thread (.entered s))
        else none
      else if w.launchLock (launchLockName isAlnum s.workerId) = none then
        some ((w.setLaunchLock (launchLockName isAlnum s.workerId) (some thread)).become thread
          (.locked s))
      else none
  | .entered s =>
      if w.queueLock = none then
        some ({ w with queueLock := some thread }.become thread (.locked s))
      else none
  | .locked s =>
      if w.active.contains s.workerId then some (w.finish isAlnum thread s false .alreadyActive)
      else if s.profiled then some (w.become thread (.notActive s))
      else some (w.become thread (.launching s false))
  | .notActive s =>
      if s.workerId ∈ w.queued then
        some (w.release.become thread (.finishing s .alreadyQueued))
      else some (w.become thread (.notQueued s))
  | .notQueued s =>
      if isProfiledBrowserActive w.active then some (w.become thread (.appending s))
      else some (w.become thread (.launching s false))
  | .appending s =>
      some ({ w.release with
        queue := w.queue ++ [s.job]
        entered := w.entered ++ [s.job] }.become thread (.finishing s .done))
  | .recorded s fromQueue =>
      let registry := match w.registry.get? s.workerId with
        | none => w.registry
        | some record => w.registry.set s.workerId { record with incognito := s.incognito }
      some ({ w with registry := registry }.finish isAlnum thread s fromQueue .done)
  | .finishing s result =>
      let registry :=
        if s.removesRecord result then w.registry.pop s.workerId else w.registry
      some ({ w with registry := registry }.become thread .idle)
  | _ => none

/-- A step of `start_worker` or `message_worker` up to the start. -/
def goCall (w : BrowserWorld) (thread : Nat) : CallStage → Option BrowserWorld
  | .creating s =>
      if w.registry.contains s.workerId then some (w.become thread .idle)
      else some ((w.register s).become thread (.entering s))
  | .messaging workerId task carbonId =>
      match w.registry.get? workerId with
      | none => some (w.become thread .idle)
      | some record =>
          if record.carbonId ≠ carbonId then some (w.become thread .idle)
          else
            some (w.become thread (.messageActive
              ⟨workerId, task, carbonId, record.workerType, record.incognito, true, false⟩))
  | .messageActive s =>
      if w.active.contains s.workerId then some (w.become thread .idle)
      else some (w.become thread (.messageQueue s))
  | .messageQueue s =>
      if s.workerId ∈ w.queued then some (w.become thread .idle)
      else some (w.become thread (.messageAdmitting s))
  | _ => none

/-- A step of `stop_worker`. -/
def goStop (w : BrowserWorld) (thread : Nat) : CallStage → Option BrowserWorld
  | .stopping workerId carbonId =>
      if w.queueLock = none then
        some ({ w with queueLock := some thread }.become thread (.stopLocked workerId carbonId))
      else none
  | .stopLocked workerId carbonId =>
      match w.queue.find? (Job.isFor workerId) with
      | none =>
          some ({ w with queueLock := none }.become thread (.stopActive workerId carbonId))
      | some job =>
          if job.carbonId ≠ carbonId then
            some ({ w with queueLock := none }.become thread .idle)
          else
            some ({ w with
              queue := w.queue.filter (!Job.isFor workerId ·)
              stopped := w.stopped ++ w.queue.filter (Job.isFor workerId)
              queueLock := none }.become thread .idle)
  | .stopActive workerId carbonId =>
      match w.active.get? workerId with
      | none => some (w.become thread .idle)
      | some record =>
          if record.carbonId ≠ carbonId then some (w.become thread .idle)
          else some (w.become thread (.killing workerId record.runId))
  | _ => none

/-- `_remove_active_worker`. -/
def removeActive (w : BrowserWorld) (workerId runId : String) : BrowserWorld :=
  match w.active.get? workerId with
  | none => w
  | some record =>
      if runId ≠ "" ∧ record.runId ≠ runId then w
      else { w with active := w.active.pop workerId }

/-- A step of `_process_browser_queue` up to the look at the queue. -/
def goDrain (w : BrowserWorld) (thread : Nat) : CallStage → Option BrowserWorld
  | .draining =>
      if w.profileLock = none then
        some ({ w with profileLock := some thread }.become thread .drainEntered)
      else none
  | .drainEntered =>
      if w.queueLock = none then
        some ({ w with queueLock := some thread }.become thread .drainLocked)
      else none
  | .drainLocked =>
      if isProfiledBrowserActive w.active then some (w.release.become thread .idle)
      else some (w.become thread .drainFree)
  | .killing workerId runId => some ((w.removeActive workerId runId).become thread .draining)
  | .sweeping => some (w.become thread .draining)
  | _ => none

/-- The answer of the maintenance coordinator. -/
def admitted (w : BrowserWorld) (thread : Nat) (granted : Bool) :
    CallStage → Option BrowserWorld
  | .admitting s =>
      some (w.become thread (if granted then .creating s else .idle))
  | .messageAdmitting s =>
      some (w.become thread (if granted then .entering s else .idle))
  | .drainFree =>
      match w.queue with
      | [] => some (w.release.become thread .idle)
      | job :: rest =>
          if !granted then some (w.release.become thread .idle)
          else
            some ({ w with queue := rest, launching := some job }.become thread
              (.launching job.start true))
  | _ => none

/-- The outcome of a launch: a process runs, and its run is recorded; or it failed. -/
def launched (w : BrowserWorld) (thread : Nat) : CallAction → CallStage → Option BrowserWorld
  | .spawn, .launching s fromQueue =>
      if w.registry.contains s.workerId then
        some ((w.attempt fromQueue).become thread (.spawned s fromQueue))
      else none
  | .fail error, .launching s fromQueue =>
      some ((w.attempt fromQueue).finish isAlnum thread s fromQueue (.failed error))
  | .record runId, .spawned s fromQueue =>
      some ((w.recordActiveRun s runId).become thread (.recorded s fromQueue))
  | _, _ => none

/-- Where a call begins. -/
def begins : CallAction → Option CallStage
  | .startWorker s => some (.admitting { s with resume := false, created := true })
  | .startBrowserWorker workerId task carbonId incognito resume =>
      some (.entering ⟨workerId, task, carbonId, .browser, incognito, resume, false⟩)
  | .messageWorker workerId task carbonId => some (.messaging workerId task carbonId)
  | .stopWorker workerId carbonId => some (.stopping workerId carbonId)
  | .processBrowserQueue => some .draining
  | .checkCompletedWorkers => some .sweeping
  | _ => none

/-- One step of a thread, if it can be taken. -/
def next (w : BrowserWorld) (e : CallEvent) : Option BrowserWorld :=
  let stage := w.calls e.thread
  match e.action with
  | .go =>
      (goStart isAlnum w e.thread stage).or ((goCall w e.thread stage).or
        ((goStop w e.thread stage).or (goDrain w e.thread stage)))
  | .answer granted => admitted w e.thread granted stage
  | .removes workerId runId =>
      if stage = .sweeping then some (w.removeActive workerId runId) else none
  | .spawn => launched isAlnum w e.thread .spawn stage
  | .fail error => launched isAlnum w e.thread (.fail error) stage
  | .record runId => launched isAlnum w e.thread (.record runId) stage
  | action =>
      if stage = .idle then (begins action).map (w.become e.thread) else none

end Source

end BrowserWorld

/-- Managers that start, message and stop workers, sweeps and queue runs in any order, from
nothing. -/
def browsers (isAlnum : Char → Bool) : TransitionSystem BrowserWorld CallEvent where
  init w := w = .initial
  step w e w' := w.next isAlnum e = some w'

/-! ## Effects of a step -/

/-- What a step does to the queue and to the active table. -/
inductive Effect (w : BrowserWorld) (e : CallEvent) (w' : BrowserWorld) : Prop
  | still (hqueue : w'.queue = w.queue) (hactive : w'.active = w.active)
  | appended (s : Start) (hstage : w.calls e.thread = .appending s) (haction : e.action = .go)
      (hqueue : w'.queue = w.queue ++ [s.job]) (hactive : w'.active = w.active)
  | popped (job : Job) (hstage : w.calls e.thread = .drainFree)
      (hqueue : w.queue = job :: w'.queue) (hactive : w'.active = w.active)
      (hlaunching : w'.launching = some job)
      (hlaunch : w'.calls e.thread = .launching job.start true)
  | stopped (workerId carbonId : String)
      (hstage : w.calls e.thread = .stopLocked workerId carbonId)
      (hqueue : w'.queue = w.queue.filter (!Job.isFor workerId ·)) (hactive : w'.active = w.active)
  | recorded (s : Start) (fromQueue : Bool) (runId : String)
      (hstage : w.calls e.thread = .spawned s fromQueue) (haction : e.action = .record runId)
      (hqueue : w'.queue = w.queue)
      (hactive : w'.active = w.active.set s.workerId
        ⟨s.workerType, s.incognito, s.carbonId, runId⟩)
  | removed (workerId : String) (hqueue : w'.queue = w.queue)
      (hactive : w'.active = w.active.pop workerId)

section Effects

variable {isAlnum : Char → Bool} {w w' : BrowserWorld} {e : CallEvent} {thread : Nat}

theorem finish_queue (w : BrowserWorld) (thread : Nat) (s : Start) (fromQueue : Bool)
    (result : StartResult) :
    (w.finish isAlnum thread s fromQueue result).queue = w.queue ∧
      (w.finish isAlnum thread s fromQueue result).active = w.active := by
  unfold BrowserWorld.finish
  split_ifs <;> exact ⟨rfl, rfl⟩

theorem attempt_queue (w : BrowserWorld) (fromQueue : Bool) :
    (w.attempt fromQueue).queue = w.queue ∧ (w.attempt fromQueue).active = w.active := by
  unfold BrowserWorld.attempt
  split_ifs <;> exact ⟨rfl, rfl⟩

theorem removeActive_effect (w : BrowserWorld) (workerId runId : String) :
    (w.removeActive workerId runId).queue = w.queue ∧
      ((w.removeActive workerId runId).active = w.active ∨
        (w.removeActive workerId runId).active = w.active.pop workerId) := by
  unfold BrowserWorld.removeActive
  split
  · exact ⟨rfl, .inl rfl⟩
  · split_ifs
    · exact ⟨rfl, .inl rfl⟩
    · exact ⟨rfl, .inr rfl⟩

theorem goStart_effect (haction : e.action = .go)
    (h : w.goStart isAlnum e.thread (w.calls e.thread) = some w') : Effect w e w' := by
  cases hstage : w.calls e.thread with
  | entering s =>
      rw [hstage] at h
      unfold BrowserWorld.goStart at h
      dsimp only at h
      split_ifs at h <;> cases h <;> exact .still rfl rfl
  | entered s =>
      rw [hstage] at h
      unfold BrowserWorld.goStart at h
      dsimp only at h
      split_ifs at h
      cases h
      exact .still rfl rfl
  | locked s =>
      rw [hstage] at h
      unfold BrowserWorld.goStart at h
      dsimp only at h
      split_ifs at h <;> cases h
      · exact .still (finish_queue w _ s false _).1 (finish_queue w _ s false _).2
      · exact .still rfl rfl
      · exact .still rfl rfl
  | notActive s =>
      rw [hstage] at h
      unfold BrowserWorld.goStart at h
      dsimp only at h
      split_ifs at h <;> cases h <;> exact .still rfl rfl
  | notQueued s =>
      rw [hstage] at h
      unfold BrowserWorld.goStart at h
      dsimp only at h
      split_ifs at h <;> cases h <;> exact .still rfl rfl
  | appending s =>
      rw [hstage] at h
      cases h
      exact .appended s hstage haction rfl rfl
  | recorded s fromQueue =>
      rw [hstage] at h
      unfold BrowserWorld.goStart at h
      dsimp only at h
      cases h
      exact .still (finish_queue _ _ s fromQueue _).1 (finish_queue _ _ s fromQueue _).2
  | finishing s result =>
      rw [hstage] at h
      cases h
      exact .still rfl rfl
  | _ =>
      rw [hstage] at h
      cases h

theorem goCall_effect (h : w.goCall e.thread (w.calls e.thread) = some w') : Effect w e w' := by
  cases hstage : w.calls e.thread with
  | creating s =>
      rw [hstage] at h
      unfold BrowserWorld.goCall at h
      dsimp only at h
      split_ifs at h <;> cases h <;> exact .still rfl rfl
  | messaging workerId task carbonId =>
      rw [hstage] at h
      unfold BrowserWorld.goCall at h
      dsimp only at h
      split at h
      · cases h
        exact .still rfl rfl
      · split_ifs at h <;> cases h <;> exact .still rfl rfl
  | messageActive s =>
      rw [hstage] at h
      unfold BrowserWorld.goCall at h
      dsimp only at h
      split_ifs at h <;> cases h <;> exact .still rfl rfl
  | messageQueue s =>
      rw [hstage] at h
      unfold BrowserWorld.goCall at h
      dsimp only at h
      split_ifs at h <;> cases h <;> exact .still rfl rfl
  | _ =>
      rw [hstage] at h
      cases h

theorem goStop_effect (h : w.goStop e.thread (w.calls e.thread) = some w') : Effect w e w' := by
  cases hstage : w.calls e.thread with
  | stopping workerId carbonId =>
      rw [hstage] at h
      unfold BrowserWorld.goStop at h
      dsimp only at h
      split_ifs at h
      cases h
      exact .still rfl rfl
  | stopLocked workerId carbonId =>
      rw [hstage] at h
      unfold BrowserWorld.goStop at h
      dsimp only at h
      split at h
      · cases h
        exact .still rfl rfl
      · split_ifs at h <;> cases h
        · exact .still rfl rfl
        · exact .stopped workerId carbonId hstage rfl rfl
  | stopActive workerId carbonId =>
      rw [hstage] at h
      unfold BrowserWorld.goStop at h
      dsimp only at h
      split at h
      · cases h
        exact .still rfl rfl
      · split_ifs at h <;> cases h <;> exact .still rfl rfl
  | _ =>
      rw [hstage] at h
      cases h

theorem goDrain_effect (h : w.goDrain e.thread (w.calls e.thread) = some w') : Effect w e w' := by
  cases hstage : w.calls e.thread with
  | draining =>
      rw [hstage] at h
      unfold BrowserWorld.goDrain at h
      dsimp only at h
      split_ifs at h
      cases h
      exact .still rfl rfl
  | drainEntered =>
      rw [hstage] at h
      unfold BrowserWorld.goDrain at h
      dsimp only at h
      split_ifs at h
      cases h
      exact .still rfl rfl
  | drainLocked =>
      rw [hstage] at h
      unfold BrowserWorld.goDrain at h
      dsimp only at h
      split_ifs at h <;> cases h <;> exact .still rfl rfl
  | killing workerId runId =>
      rw [hstage] at h
      cases h
      rcases removeActive_effect w workerId runId with ⟨hqueue, hactive | hactive⟩
      · exact .still hqueue hactive
      · exact .removed workerId hqueue hactive
  | sweeping =>
      rw [hstage] at h
      cases h
      exact .still rfl rfl
  | _ =>
      rw [hstage] at h
      cases h

theorem admitted_effect {granted : Bool}
    (h : w.admitted e.thread granted (w.calls e.thread) = some w') : Effect w e w' := by
  cases hstage : w.calls e.thread with
  | admitting s =>
      rw [hstage] at h
      cases h
      exact .still rfl rfl
  | messageAdmitting s =>
      rw [hstage] at h
      cases h
      exact .still rfl rfl
  | drainFree =>
      rw [hstage] at h
      unfold BrowserWorld.admitted at h
      dsimp only at h
      split at h
      · cases h
        exact .still rfl rfl
      · rename_i job rest hqueue
        split_ifs at h <;> cases h
        · exact .still rfl rfl
        · exact .popped job hstage hqueue rfl rfl (Function.update_self ..)
  | _ =>
      rw [hstage] at h
      cases h

theorem launched_effect
    (h : w.launched isAlnum e.thread e.action (w.calls e.thread) = some w') : Effect w e w' := by
  unfold BrowserWorld.launched at h
  split at h
  · rename_i s fromQueue _ hstage
    split_ifs at h
    cases h
    exact .still (attempt_queue w fromQueue).1 (attempt_queue w fromQueue).2
  · rename_i error s fromQueue haction hstage
    cases h
    rcases (@finish_queue isAlnum) (w.attempt fromQueue) e.thread s fromQueue
      (.failed error) with ⟨hqueue, hactive⟩
    rcases attempt_queue w fromQueue with ⟨hqueue', hactive'⟩
    exact .still (hqueue.trans hqueue') (hactive.trans hactive')
  · rename_i runId s fromQueue haction hstage
    cases h
    exact .recorded s fromQueue runId hstage haction rfl rfl
  · cases h

/-- What a step does to the queue and to the active table. -/
theorem next_effect (h : w.next isAlnum e = some w') : Effect w e w' := by
  unfold BrowserWorld.next at h
  dsimp only at h
  split at h
  · rename_i haction
    rcases Option.or_eq_some_iff.mp h with h | ⟨-, h⟩
    · exact goStart_effect haction h
    · rcases Option.or_eq_some_iff.mp h with h | ⟨-, h⟩
      · exact goCall_effect h
      · rcases Option.or_eq_some_iff.mp h with h | ⟨-, h⟩
        · exact goStop_effect h
        · exact goDrain_effect h
  · exact admitted_effect h
  · rename_i workerId runId _
    split_ifs at h
    cases h
    rcases removeActive_effect w workerId runId with ⟨hqueue, hactive | hactive⟩
    · exact .still hqueue hactive
    · exact .removed workerId hqueue hactive
  · rename_i haction
    rw [← haction] at h
    exact launched_effect h
  · rename_i error haction
    rw [← haction] at h
    exact launched_effect h
  · rename_i runId haction
    rw [← haction] at h
    exact launched_effect h
  · split_ifs at h
    rcases Option.map_eq_some_iff.mp h with ⟨stage, _, hbecome⟩
    rw [← hbecome]
    exact .still rfl rfl

end Effects

end Worker
end Stemcell
