import Stemcell.Interface.Json
import Stemcell.Maintenance.Claims

/-!
# The manager dispatcher

The dispatcher runs one thread per contact.  New roots are claimed from the
coordinator, wait in `pending` for their thread, or are injected into the run
that is already going on; a thread runs its batches one after another and
settles each one, with what was injected meanwhile, before it starts the next.
Steps of the threads, of the callers of the dispatcher and of everybody else who
uses the coordinator interleave freely, and time passes between them.

Main results:

- Definition `scheduleAdmissions`: where newly claimed roots go.
- Definition `World.next`: one step of a thread, of a caller or of the rest of
  the process.
- Definition `dispatching`: the transition system of all runs.

Current gaps:

- A run of `run_all_managers` is a stretch of time that ends normally or by an
  exception; offers are only accepted within it.
- `record_message`, log lines and condition notifications are left out, and so
  is the acknowledgement of accuracy reviews in `submit`.
-/

namespace Stemcell
namespace Dispatch

open Lib
open Maintenance (Seconds Host RootAdmission Op Reply)

/-! ## Batches -/

/-- The marker in front of an internal accuracy review. -/
def accuracyReviewMarker : List Char := "durable_accuracy_review_id:".toList

/-- `extract_accuracy_review_root`: the review id of a context. -/
def extractAccuracyReviewRoot (context : String) : String :=
  let first := context.toList.takeWhile fun c => c ≠ '\n'
  if accuracyReviewMarker.isPrefixOf first then
    Interface.strip (String.ofList (first.drop accuracyReviewMarker.length))
  else ""

/-- The loop of `_run_contact` that splits admissions into batches.  Internal
accuracy reviews stay isolated from user roots. -/
def splitBatches (normal : List RootAdmission) : List RootAdmission → List (List RootAdmission)
  | [] => if normal = [] then [] else [normal]
  | a :: rest =>
      if extractAccuracyReviewRoot a.context ≠ "" then
        (if normal = [] then [] else [normal]) ++ [a] :: splitBatches [] rest
      else splitBatches (normal ++ [a]) rest

/-! ## State -/

/-- Where the thread of a contact stands in `_run_contact`. -/
inductive Stage
  | popping
  | batches (rest : List (List RootAdmission))
  | running (batch : List RootAdmission) (rest : List (List RootAdmission))
  | returned (batch : List RootAdmission) (rest : List (List RootAdmission))
  | raised (batch : List RootAdmission) (rest : List (List RootAdmission))
  | completing (settled : List RootAdmission) (rest : List (List RootAdmission))
  | retrying (settled : List RootAdmission) (rest : List (List RootAdmission))
  | releasing (count : Nat) (rest : List (List RootAdmission))
  | replaying (rest : List (List RootAdmission))
deriving DecidableEq

/-- The batch of a run that a thread has not begun to settle. -/
def Stage.batch : Stage → List RootAdmission
  | .running batch _ => batch
  | .returned batch _ => batch
  | .raised batch _ => batch
  | _ => []

/-- A run that goes on, or that has ended and not been accounted for yet. -/
def Stage.open : Stage → Bool
  | .running _ _ => true
  | .returned _ _ => true
  | .raised _ _ => true
  | _ => false

/-- The roots that a thread is about to settle. -/
def Stage.settled : Stage → List RootAdmission
  | .completing settled _ => settled
  | .retrying settled _ => settled
  | _ => []

/-- The batches that a thread has not started. -/
def Stage.waiting : Stage → List (List RootAdmission)
  | .popping => []
  | .batches rest => rest
  | .running _ rest => rest
  | .returned _ rest => rest
  | .raised _ rest => rest
  | .completing _ rest => rest
  | .retrying _ rest => rest
  | .releasing _ rest => rest
  | .replaying rest => rest

/-- The dispatcher.  A contact is in `_running` while it has a thread.  `overflow`
holds the lists about to be given back by `defer_roots`, `stranded` those that a
leaving thread is about to complete. -/
structure Dispatcher where
  pending : Dict String (List RootAdmission)
  injected : Dict String (List RootAdmission)
  threads : Dict String Stage
  claimedRoots : Nat
  closed : Bool
  overflow : List (List RootAdmission)
  stranded : List (List RootAdmission)

/-- `ManagerDispatcher()`. -/
def Dispatcher.empty : Dispatcher where
  pending := .empty
  injected := .empty
  threads := .empty
  claimedRoots := 0
  closed := false
  overflow := []
  stranded := []

namespace Dispatcher

variable (d : Dispatcher) (contactId : String)

/-- `self._pending.get(contact_id, [])`. -/
def pendingOf : List RootAdmission := (d.pending.get? contactId).getD []

/-- `self._injected.get(contact_id, [])`. -/
def injectedOf : List RootAdmission := (d.injected.get? contactId).getD []

/-- A provider of this contact may be taking input. -/
def live : Bool :=
  match d.threads.get? contactId with
  | some (.running _ _) => true
  | _ => false

/-- The thread of a contact moves on. -/
def moveTo (stage : Stage) : Dispatcher :=
  { d with threads := d.threads.set contactId stage }

/-- `_take_injected`, for what stays behind. -/
def dropInjected : Dispatcher :=
  { d with injected := d.injected.pop contactId }

end Dispatcher

/-- What `_schedule_admissions_locked` makes of a list of admissions. -/
structure Scheduled where
  dispatcher : Dispatcher
  overflow : List RootAdmission
  injected : List RootAdmission

/-- `_schedule_admissions_locked`; `offered` is the answer of `injection.offer`
while a provider takes input. -/
def scheduleAdmissions (maxActive : Nat) (offered : Bool) :
    List RootAdmission → Dispatcher → Scheduled
  | [], d => { dispatcher := d, overflow := [], injected := [] }
  | a :: rest, d =>
      if maxActive ≤ d.claimedRoots then
        let later := scheduleAdmissions maxActive offered rest d
        { later with overflow := a :: later.overflow }
      else if d.threads.contains a.contactId then
        -- A contact that is mid-turn can take the message now.
        if d.live a.contactId && offered then
          let later := scheduleAdmissions maxActive offered rest
            { d with
              injected := d.injected.set a.contactId (d.injectedOf a.contactId ++ [a])
              claimedRoots := d.claimedRoots + 1 }
          { later with injected := a :: later.injected }
        else
          let later := scheduleAdmissions maxActive offered rest d
          { later with overflow := a :: later.overflow }
      else
        scheduleAdmissions maxActive offered rest
          { d with
            pending := d.pending.set a.contactId (d.pendingOf a.contactId ++ [a])
            threads := d.threads.set a.contactId .popping
            claimedRoots := d.claimedRoots + 1 }

/-- A root that was handed to a run, in its batch or by injection, and when. -/
structure Handout where
  admission : RootAdmission
  injected : Bool
  time : Seconds
deriving DecidableEq

/-- The coordinator, the dispatcher and the roots handed to runs so far. -/
structure World where
  coordinator : Maintenance.World
  dispatcher : Dispatcher
  handed : List Handout

/-! ## Steps -/

/-- A step of the thread of a contact; `raises` says that the call it makes
raises. -/
inductive ThreadStep
  | pop
  | nextBatch
  | finish (raises : Bool)
  | review (raises : Bool)
  | complete (time : Seconds) (raises : Bool)
  | collect
  | retry (time : Seconds) (raises : Bool)
  | release
  | replay (limit : Int) (offered : Bool) (time : Seconds) (raises : Bool)

/-- A step of a thread, of a caller of the dispatcher or of the rest of the
process. -/
inductive Step
  | submit (contactId context : String) (offered : Bool) (time : Seconds)
  | replay (limit : Int) (offered : Bool) (time : Seconds)
  | giveBack (time : Seconds) (raises : Bool)
  | beat (admission : RootAdmission) (time : Seconds)
  | leave (time : Seconds) (raises : Bool)
  | shutdown
  | thread (contactId : String) (step : ThreadStep)
  | elsewhere (op : Op) (time : Seconds)

namespace World

variable (host : Host) (maxActive : Nat) (w : World)

/-- One call of the coordinator. -/
def callAt (op : Op) (time : Seconds) : World :=
  { w with coordinator := w.coordinator.after host op time }

/-- The roots that a call hands out. -/
def rootsOf (op : Op) (time : Seconds) : List RootAdmission :=
  match Maintenance.call host op w.coordinator.state time with
  | .ok (reply, _) => reply.roots
  | .error _ => []

/-- Claimed roots go to their threads; what overflows is to be given back. -/
def schedule (offered : Bool) (roots : List RootAdmission) : World :=
  let scheduled := scheduleAdmissions maxActive offered roots w.dispatcher
  { w with
    dispatcher :=
      { scheduled.dispatcher with
        overflow := scheduled.dispatcher.overflow ++ [scheduled.overflow] }
    handed := w.handed ++ scheduled.injected.map fun a => ⟨a, true, w.coordinator.now⟩ }

/-- A call that hands out roots, and where they go. -/
def admitRoots (offered : Bool) (op : Op) (time : Seconds) : World :=
  (w.callAt host op time).schedule maxActive offered (w.rootsOf host op time)

/-- `replay_maintenance_queue`; it does nothing while no slot is free. -/
def replayQueue (limit : Int) (offered : Bool) (time : Seconds) : World :=
  if w.dispatcher.closed ∨ maxActive ≤ w.dispatcher.claimedRoots then w
  else
    w.admitRoots host maxActive offered
      (.claimPendingRoots (min (max 1 limit) (maxActive - w.dispatcher.claimedRoots))
        w.dispatcher.threads.keys true)
      time

/-- The thread of a contact moves on. -/
def moveTo (contactId : String) (stage : Stage) : World :=
  { w with dispatcher := w.dispatcher.moveTo contactId stage }

/-- The thread of a contact takes what was injected and moves on. -/
def takeInjected (contactId : String) (stage : List RootAdmission → Stage) : World :=
  { w with
    dispatcher :=
      (w.dispatcher.dropInjected contactId).moveTo contactId
        (stage (w.dispatcher.injectedOf contactId)) }

/-- The thread of a contact ends by an exception. -/
def endThread (contactId : String) : World :=
  { w with
    dispatcher := { w.dispatcher with threads := w.dispatcher.threads.pop contactId } }

/-- `_release_claimed_roots`. -/
def releaseClaimed (count : Nat) : World :=
  { w with
    dispatcher := { w.dispatcher with claimedRoots := w.dispatcher.claimedRoots - count } }

/-- The top of the loop of `_run_contact`: without pending roots the thread
leaves. -/
def popPending (contactId : String) : World :=
  match w.dispatcher.pendingOf contactId with
  | [] =>
      { w with
        dispatcher :=
          { w.dispatcher.dropInjected contactId with
            threads := w.dispatcher.threads.pop contactId
            stranded := w.dispatcher.stranded ++ [w.dispatcher.injectedOf contactId] } }
  | a :: rest =>
      { w with
        dispatcher :=
          { w.dispatcher.moveTo contactId (.batches (splitBatches [] (a :: rest))) with
            pending := w.dispatcher.pending.pop contactId } }

/-- A thread starts a batch. -/
def startBatch (contactId : String) (batch : List RootAdmission)
    (rest : List (List RootAdmission)) : World :=
  { w.moveTo contactId (.running batch rest) with
    handed := w.handed ++ batch.map fun a => ⟨a, false, w.coordinator.now⟩ }

/-- `_run_contact` from one step to the next. -/
def threadNext (c : String) : ThreadStep → Stage → Option World
  | .pop, .popping => some (w.popPending c)
  | .nextBatch, .batches [] => some (w.moveTo c .popping)
  | .nextBatch, .batches (batch :: rest) => some (w.startBatch c batch rest)
  | .finish false, .running batch rest => some (w.moveTo c (.returned batch rest))
  | .finish true, .running batch rest => some (w.moveTo c (.raised batch rest))
  | .review false, .returned batch rest =>
      -- Anything injected while that runner was going completes with it.
      some (w.takeInjected c fun injected => .completing (batch ++ injected) rest)
  | .review true, .returned batch rest => some (w.moveTo c (.raised batch rest))
  | .complete time false, .completing settled rest =>
      some ((w.callAt host (.completeRoots settled) time).moveTo c
        (.releasing settled.length rest))
  | .complete _ true, .completing settled rest => some (w.moveTo c (.retrying settled rest))
  | .collect, .raised batch rest =>
      some (w.takeInjected c fun injected => .retrying (batch ++ injected) rest)
  | .retry time false, .retrying settled rest =>
      some ((w.callAt host (.retryRoots settled 5) time).moveTo c
        (.releasing settled.length rest))
  | .retry _ true, .retrying _ _ => some (w.endThread c)
  | .release, .releasing count rest => some ((w.releaseClaimed count).moveTo c (.replaying rest))
  | .replay limit offered time false, .replaying rest =>
      some ((w.replayQueue host maxActive limit offered time).moveTo c (.batches rest))
  | .replay _ _ _ true, .replaying _ => some (w.endThread c)
  | _, _ => none

/-- One step. -/
def next : Step → Option World
  | .submit contactId context offered time =>
      if w.dispatcher.closed ∨ context = "" then none
      else
        some (w.admitRoots host maxActive offered
          (.enqueueRoot contactId context (w.dispatcher.claimedRoots < maxActive)) time)
  | .replay limit offered time => some (w.replayQueue host maxActive limit offered time)
  | .giveBack time raises =>
      match w.dispatcher.overflow with
      | [] => none
      | roots :: rest =>
          let w' := { w with dispatcher := { w.dispatcher with overflow := rest } }
          some (if raises ∨ roots = [] then w' else w'.callAt host (.deferRoots roots) time)
  | .beat a time =>
      -- A beat may still come when the scope of its batch has just been left.
      if w.handed.any fun h => h.admission = a ∧ h.injected = false then
        some (w.callAt host (.heartbeat a.activity.leaseId Maintenance.leaseTtlSeconds) time)
      else none
  | .leave time raises =>
      match w.dispatcher.stranded with
      | [] => none
      | roots :: rest =>
          let w' := { w with dispatcher := { w.dispatcher with stranded := rest } }
          some (if raises ∨ roots = [] then w'
            else (w'.callAt host (.completeRoots roots) time).releaseClaimed roots.length)
  | .shutdown => some { w with dispatcher := { w.dispatcher with closed := true } }
  | .thread c step =>
      match w.dispatcher.threads.get? c with
      | none => none
      | some stage => w.threadNext host maxActive c step stage
  | .elsewhere op time => some (w.callAt host op time)

end World

/-! ## Runs -/

/-- Nothing was called or submitted yet, and the clock is at `t`. -/
def World.initial (t : Seconds) : World where
  coordinator := .initial t
  dispatcher := .empty
  handed := []

/-- When a step makes its call. -/
def Step.time : Step → Option Seconds
  | .submit _ _ _ time => some time
  | .replay _ _ time => some time
  | .giveBack time _ => some time
  | .beat _ time => some time
  | .leave time _ => some time
  | .elsewhere _ time => some time
  | .thread _ (.complete time _) => some time
  | .thread _ (.retry time _) => some time
  | .thread _ (.replay _ _ time _) => some time
  | _ => none

/-- Calls that are made by others than the dispatcher.  It alone queues its own
roots, claims and settles; the leases and the queue ids of the roots it was given
are known to nobody else. -/
def Foreign (w : Maintenance.World) : Op → Prop
  | .enqueueRoot .. => False
  | .claimPendingRoots .. => False
  | .completeRoots _ => False
  | .retryRoots .. => False
  | .deferRoots _ => False
  | .heartbeat leaseId _ => ∀ a ∈ w.admissions, a.activity.leaseId ≠ leaseId
  | .release leaseId => ∀ a ∈ w.admissions, a.activity.leaseId ≠ leaseId
  | .enqueueContinuation _ _ leaseId queueId =>
      ∀ a ∈ w.admissions, a.activity.leaseId ≠ leaseId ∧ a.queueId ≠ queueId
  | _ => True

/-- Runs of the dispatcher among the other users of the coordinator. -/
def dispatching (host : Host) (maxActive : Nat) : TransitionSystem World Step where
  init w := ∃ t, w = .initial t
  step w e w' :=
    w.next host maxActive e = some w' ∧
      (∀ time, e.time = some time → w.coordinator.now ≤ time) ∧
      ∀ op time, e = .elsewhere op time →
        Foreign w.coordinator op ∧ op.Known host w.coordinator.state.uuidsDrawn

/-! ## Concrete runs -/

/-- Take these steps one after another, their clock readings not going back. -/
def World.play (host : Host) (maxActive : Nat) : List Step → World → Option World
  | [], w => some w
  | e :: rest, w =>
      if e.time.all fun time => w.coordinator.now ≤ time then
        (w.next host maxActive e).bind (World.play host maxActive rest)
      else none

/-- Steps of the dispatcher alone that can be taken make a run. -/
theorem play_reachable {host : Host} {maxActive : Nat} {steps : List Step} {w w' : World}
    (hreach : (dispatching host maxActive).Reachable w)
    (hown : ∀ e ∈ steps, ∀ op time, e ≠ .elsewhere op time)
    (hplay : World.play host maxActive steps w = some w') :
    (dispatching host maxActive).Reachable w' := by
  induction steps generalizing w with
  | nil =>
      cases hplay
      exact hreach
  | cons e rest ih =>
      unfold World.play at hplay
      split at hplay <;> rename_i htime
      · rcases Option.bind_eq_some_iff.mp hplay with ⟨v, hnext, hplay⟩
        refine ih (hreach.step ⟨hnext, ?_, ?_⟩)
          (fun e' he' => hown e' (List.mem_cons_of_mem e he')) hplay
        · intro time heq
          rw [heq, Option.all_some, decide_eq_true_eq] at htime
          exact htime
        · exact fun op time heq => absurd heq (hown e List.mem_cons_self op time)
      · cases hplay

end Dispatch
end Stemcell
