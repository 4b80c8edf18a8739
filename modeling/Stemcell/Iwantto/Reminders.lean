import Stemcell.Lib.Dict
import Stemcell.Lib.Transition
import Mathlib.Algebra.Order.Ring.Unbundled.Rat

/-!
# Reminders and their crons on Glass

A reminder is an entry of a local table under an id of its own, and a cron on Glass that the entry
names.  Glass cannot change the targets of a cron, so a change of targets deletes the cron and
creates another one.  A deletion that fails is swallowed; a creation that fails raises.

Main results:

- Definition `nextReminders`: one operation, with what Glass answers as part of its event.
- Theorem `reminders_law`: a run keeps table and Glass in step exactly if the deletions of its
  operations succeed wherever the table forgets the cron, and nowhere else.
- Theorem `include_fails`: a reminder whose cron is gone after an operation that raised.

Current gaps:

- The parsing of the time arguments and the resolution of names to targets are left out; they
  come before any call to Glass, and their outcome is part of an event.
- The payload of a created cron is the id in it.
-/

namespace Stemcell
namespace Iwantto

open Lib

/-! ## The table and Glass -/

structure Target where
  kind : String
  id : String
deriving DecidableEq, Repr

/-- A live cron on Glass. -/
structure GlassCron where
  trigger : String
  task : String
  targets : List Target
deriving DecidableEq, Repr

/-- An entry of the reminder table. -/
structure Reminder where
  cronId : String
  trigger : String
  timezone : String
  task : String
  targets : List Target
  oneShot : Bool
  fireAt : Option ℚ
  fireAtIso : String
  createdAt : ℚ
  createdBy : String
deriving DecidableEq, Repr

namespace Reminder

/-- The cron that a reminder asks for. -/
def cron (r : Reminder) : GlassCron where
  trigger := r.trigger
  task := r.task
  targets := r.targets

/-- What a reminder is, apart from the cron that stands for it. -/
def plan (r : Reminder) : Reminder :=
  { r with cronId := "" }

end Reminder

/-- The reminder table, and the live crons that this module created on Glass. -/
structure ReminderWorld where
  reminders : Dict String Reminder
  crons : Dict String GlassCron
deriving DecidableEq, Repr

/-- Why an operation raises. -/
inductive ReminderError
  | noText
  | badTime
  | routing
  | noReminder (id : String)
  | glass
deriving DecidableEq, Repr

/-- What an operation answers. -/
inductive ReminderReply
  | created (id : String)
  | alreadyOn (target : Target) (id : String)
  | added (target : Target) (id : String)
  | wasNotOn (target : Target) (id : String)
  | removed (target : Target) (id : String)
  | deleted (id : String)
  | lastTargetRemoved (id : String)
  | reaped (count : ℕ)
deriving DecidableEq, Repr

abbrev ReminderResult := ReminderWorld × Except ReminderError ReminderReply

/-! ## Calls to Glass -/

namespace ReminderWorld

/-- `created` is the id that Glass answers with, if the call succeeds. -/
def createGlassCron (w : ReminderWorld) (cron : GlassCron) (created : Option String) :
    ReminderWorld × Option String :=
  match created with
  | none => (w, none)
  | some cronId => ({ w with crons := w.crons.set cronId cron }, some cronId)

/-- `deleted` tells whether the call succeeds. -/
def deleteGlassCron (w : ReminderWorld) (cronId : String) (deleted : Bool) : ReminderWorld :=
  if cronId = "" then w
  else if deleted then { w with crons := w.crons.pop cronId }
  else w

def store (w : ReminderWorld) (id : String) (entry : Reminder) : ReminderWorld :=
  { w with reminders := w.reminders.set id entry }

end ReminderWorld

/-! ## Operations -/

/-- A moment in UTC. -/
structure Moment where
  minute : ℕ
  hour : ℕ
  day : ℕ
  month : ℕ
  timestamp : ℚ
  iso : String
deriving DecidableEq, Repr

/-- A cron expression that matches exactly one minute of one day. -/
def oneShotTrigger (moment : Moment) : String :=
  toString moment.minute ++ " " ++ toString moment.hour ++ " " ++ toString moment.day ++ " " ++
    toString moment.month ++ " *"

/-- When to remind: on a cron expression, or once. -/
inductive Schedule
  | cron (expression timezone : String)
  | once (moment : Moment)
deriving DecidableEq, Repr

/-- Arguments of a create, with the text stripped. -/
structure ReminderArgs where
  text : String
  schedule : Option Schedule
  target : Option Target
  createdAt : ℚ
  createdBy : String
deriving DecidableEq, Repr

/-- The entry that a create stores. -/
def ReminderArgs.entry (args : ReminderArgs) (schedule : Schedule) (target : Target)
    (cronId : String) : Reminder :=
  match schedule with
  | .cron expression timezone =>
      { cronId, trigger := expression, timezone, task := args.text, targets := [target],
        oneShot := false, fireAt := none, fireAtIso := "", createdAt := args.createdAt,
        createdBy := args.createdBy }
  | .once moment =>
      { cronId, trigger := oneShotTrigger moment, timezone := "UTC", task := args.text,
        targets := [target], oneShot := true, fireAt := some moment.timestamp,
        fireAtIso := moment.iso, createdAt := args.createdAt, createdBy := args.createdBy }

section Source

variable (w : ReminderWorld)

def createReminder (args : ReminderArgs) (reminderId : String) (created : Option String) :
    ReminderResult :=
  if args.text = "" then (w, .error .noText)
  else
    match args.schedule with
    | none => (w, .error .badTime)
    | some schedule =>
      match args.target with
      | none => (w, .error .routing)
      | some target =>
        match w.createGlassCron (args.entry schedule target "").cron created with
        | (w, none) => (w, .error .glass)
        | (w, some cronId) =>
            (w.store reminderId (args.entry schedule target cronId), .ok (.created reminderId))

/-- Replace the cron of a reminder: delete, create, store.  The flag is false if it raises. -/
def recreate (reminderId : String) (entry : Reminder) (targets : List Target) (deleted : Bool)
    (created : Option String) : ReminderWorld × Bool :=
  let w := w.deleteGlassCron entry.cronId deleted
  match w.createGlassCron ⟨entry.trigger, entry.task, targets⟩ created with
  | (w, none) => (w, false)
  | (w, some cronId) => (w.store reminderId { entry with cronId, targets }, true)

def includeTarget (id : String) (added : Option Target) (deleted : Bool)
    (created : Option String) : ReminderResult :=
  match w.reminders.get? id with
  | none => (w, .error (.noReminder id))
  | some entry =>
    match added with
    | none => (w, .error .routing)
    | some target =>
      if target ∈ entry.targets then (w, .ok (.alreadyOn target id))
      else
        match recreate w id entry (entry.targets ++ [target]) deleted created with
        | (w, false) => (w, .error .glass)
        | (w, true) => (w, .ok (.added target id))

def deleteReminder (reminderId : String) (entry : Reminder) (deleted : Bool) : ReminderWorld :=
  let w := w.deleteGlassCron entry.cronId deleted
  { w with reminders := w.reminders.pop reminderId }

def excludeTarget (id : String) (excluded : Option Target) (deleted : Bool)
    (created : Option String) : ReminderResult :=
  match w.reminders.get? id with
  | none => (w, .error (.noReminder id))
  | some entry =>
    match excluded with
    | none => (w, .error .routing)
    | some target =>
      let targets := entry.targets.filter fun other => other ≠ target
      if targets.length = entry.targets.length then (w, .ok (.wasNotOn target id))
      else if targets = [] then (deleteReminder w id entry deleted, .ok (.lastTargetRemoved id))
      else
        match recreate w id entry targets deleted created with
        | (w, false) => (w, .error .glass)
        | (w, true) => (w, .ok (.removed target id))

def deleteById (id : String) (deleted : Bool) : ReminderResult :=
  match w.reminders.get? id with
  | none => (w, .error (.noReminder id))
  | some entry => (deleteReminder w id entry deleted, .ok (.deleted id))

def reapGraceSeconds : ℚ := 180

/-- A one-shot whose minute is safely behind. -/
def expired (now : ℚ) (entry : Reminder) : Bool :=
  entry.oneShot &&
    match entry.fireAt with
    | none => false
    | some fireAt => decide (reapGraceSeconds < now - fireAt)

/-- `deleted` tells of each reminder whether its deletion on Glass succeeds. -/
def reapFiredReminders (now : ℚ) (deleted : String → Bool) : ReminderResult :=
  let due := w.reminders.entries.filter fun item => expired now item.2
  (due.foldl (fun w item => deleteReminder w item.1 item.2 (deleted item.1)) w,
    .ok (.reaped due.length))

end Source

/-! ## The system -/

inductive ReminderEvent
  | create (args : ReminderArgs) (reminderId : String) (created : Option String)
  | includes (id : String) (added : Option Target) (deleted : Bool) (created : Option String)
  | excludes (id : String) (excluded : Option Target) (deleted : Bool) (created : Option String)
  | delete (id : String) (deleted : Bool)
  | reap (now : ℚ) (deleted : String → Bool)

def runReminderEvent (w : ReminderWorld) : ReminderEvent → ReminderResult
  | .create args reminderId created => createReminder w args reminderId created
  | .includes id added deleted created => includeTarget w id added deleted created
  | .excludes id excluded deleted created => excludeTarget w id excluded deleted created
  | .delete id deleted => deleteById w id deleted
  | .reap now deleted => reapFiredReminders w now deleted

/-- What the operations that did not raise ask for, by reminder id. -/
def intend (wanted : Dict String Reminder) : ReminderEvent → Dict String Reminder
  | .create args reminderId _ =>
      match args.schedule, args.target with
      | some schedule, some target => wanted.set reminderId (args.entry schedule target "")
      | _, _ => wanted
  | .includes id added _ _ =>
      match wanted.get? id, added with
      | some entry, some target =>
          if target ∈ entry.targets then wanted
          else wanted.set id { entry with targets := entry.targets ++ [target] }
      | _, _ => wanted
  | .excludes id excluded _ _ =>
      match wanted.get? id, excluded with
      | some entry, some target =>
          if target ∉ entry.targets then wanted
          else if ∀ other ∈ entry.targets, other = target then wanted.pop id
          else wanted.set id { entry with targets := entry.targets.filter fun o => o ≠ target }
      | _, _ => wanted
  | .delete id _ => wanted.pop id
  | .reap now _ => wanted.filter fun _ entry => !expired now entry

/-- The world, and what the reminders should be. -/
structure ReminderState where
  world : ReminderWorld
  wanted : Dict String Reminder

def nextReminders (s : ReminderState) (e : ReminderEvent) : ReminderState :=
  match runReminderEvent s.world e with
  | (world, .error _) => { s with world }
  | (world, .ok _) => { world, wanted := intend s.wanted e }

/-- The ids of an event are new: the one that is drawn for a reminder is not in the table, and
Glass answers with the id of no live cron. -/
def ReminderEvent.fresh (w : ReminderWorld) : ReminderEvent → Prop
  | create _ reminderId created => w.reminders.get? reminderId = none ∧
      ∀ cronId, created = some cronId → cronId ≠ "" ∧ w.crons.get? cronId = none
  | includes _ _ _ created | excludes _ _ _ created =>
      ∀ cronId, created = some cronId → cronId ≠ "" ∧ w.crons.get? cronId = none
  | delete _ _ | reap _ _ => True

def reminderSystem : TransitionSystem ReminderState ReminderEvent where
  init s := s = ⟨⟨Dict.empty, Dict.empty⟩, Dict.empty⟩
  step s e t := e.fresh s.world ∧ t = nextReminders s e

/-! ## The law and its condition -/

/-- The live crons are those that the table names, one for each reminder, with its data. -/
structure InStep (w : ReminderWorld) : Prop where
  live : ∀ cronId c, w.crons.get? cronId = some c ↔
    ∃ id entry, w.reminders.get? id = some entry ∧ entry.cronId = cronId ∧ entry.cron = c
  one : ∀ id id' entry entry', w.reminders.get? id = some entry →
    w.reminders.get? id' = some entry' → entry.cronId = entry'.cronId → id = id'

/-- Table and Glass are in step, and the table has the reminders that were asked for. -/
structure RemindersLaw (s : ReminderState) : Prop where
  inStep : InStep s.world
  table : ∀ id, (s.world.reminders.get? id).map Reminder.plan = s.wanted.get? id

/-- The answers of Glass with which an operation keeps the law: a deletion succeeds if the table
forgets the cron, and fails if the creation after it fails. -/
def Answers (s : ReminderState) : ReminderEvent → Prop
  | .create _ _ _ => True
  | .includes id added deleted created =>
      ∀ entry target, s.world.reminders.get? id = some entry → added = some target →
        target ∉ entry.targets → deleted = created.isSome
  | .excludes id excluded deleted created =>
      ∀ entry target, s.world.reminders.get? id = some entry → excluded = some target →
        target ∈ entry.targets →
          deleted = (created.isSome || decide (∀ other ∈ entry.targets, other = target))
  | .delete id deleted => ∀ entry, s.world.reminders.get? id = some entry → deleted = true
  | .reap now deleted => ∀ id entry, s.world.reminders.get? id = some entry →
      expired now entry = true → deleted id = true

/-! ## Table and Glass, by lookup -/

section Lookup

variable {w w' : ReminderWorld} {id : String} {entry : Reminder}

theorem InStep.live_of_get? (h : InStep w) (hget : w.reminders.get? id = some entry) :
    w.crons.get? entry.cronId = some entry.cron :=
  (h.live _ _).mpr ⟨id, entry, hget, rfl, rfl⟩

/-- A new reminder with a new cron. -/
theorem InStep.put (h : InStep w) (hid : w.reminders.get? id = none)
    (hnew : w.crons.get? entry.cronId = none)
    (hreminders : ∀ k, w'.reminders.get? k = if id = k then some entry else w.reminders.get? k)
    (hcrons : ∀ k, w'.crons.get? k =
      if entry.cronId = k then some entry.cron else w.crons.get? k) : InStep w' := by
  have hother : ∀ k r, w.reminders.get? k = some r → r.cronId ≠ entry.cronId := by
    intro k r hr heq
    have hlive := h.live_of_get? hr
    rw [heq, hnew] at hlive
    cases hlive
  constructor
  · intro cronId c
    rw [hcrons]
    by_cases hcron : entry.cronId = cronId
    · rw [if_pos hcron, Option.some.injEq]
      constructor
      · intro hc
        exact ⟨id, entry, by rw [hreminders, if_pos rfl], hcron, hc⟩
      · rintro ⟨k, r, hr, hrcron, hrc⟩
        rw [hreminders] at hr
        by_cases hk : id = k
        · rw [if_pos hk, Option.some.injEq] at hr
          rw [hr, hrc]
        · rw [if_neg hk] at hr
          exact absurd (hrcron.trans hcron.symm) (hother k r hr)
    · rw [if_neg hcron, h.live]
      constructor
      · rintro ⟨k, r, hr, hrcron, hrc⟩
        have hk : id ≠ k := by
          intro heq
          rw [← heq, hid] at hr
          cases hr
        exact ⟨k, r, by rw [hreminders, if_neg hk, hr], hrcron, hrc⟩
      · rintro ⟨k, r, hr, hrcron, hrc⟩
        rw [hreminders] at hr
        by_cases hk : id = k
        · rw [if_pos hk, Option.some.injEq] at hr
          rw [hr] at hcron
          exact absurd hrcron hcron
        · rw [if_neg hk] at hr
          exact ⟨k, r, hr, hrcron, hrc⟩
  · intro k k' r r' hr hr' heq
    rw [hreminders] at hr hr'
    by_cases hk : id = k
    · by_cases hk' : id = k'
      · exact hk.symm.trans hk'
      · rw [if_pos hk, Option.some.injEq] at hr
        rw [if_neg hk'] at hr'
        rw [← hr] at heq
        exact absurd heq.symm (hother k' r' hr')
    · rw [if_neg hk] at hr
      by_cases hk' : id = k'
      · rw [if_pos hk', Option.some.injEq] at hr'
        rw [← hr'] at heq
        exact absurd heq (hother k r hr)
      · rw [if_neg hk'] at hr'
        exact h.one k k' r r' hr hr' heq

/-- Reminders that go together with their crons. -/
theorem InStep.drop (h : InStep w) {gone : String → Prop}
    (hreminders : ∀ k r, w'.reminders.get? k = some r ↔ w.reminders.get? k = some r ∧ ¬ gone k)
    (hcrons : ∀ cronId c, w'.crons.get? cronId = some c ↔ w.crons.get? cronId = some c ∧
      ∀ k r, w.reminders.get? k = some r → gone k → r.cronId ≠ cronId) : InStep w' := by
  constructor
  · intro cronId c
    rw [hcrons, h.live]
    constructor
    · rintro ⟨⟨k, r, hr, hrcron, hrc⟩, hkept⟩
      refine ⟨k, r, (hreminders k r).mpr ⟨hr, ?_⟩, hrcron, hrc⟩
      intro hgone
      exact hkept k r hr hgone hrcron
    · rintro ⟨k, r, hr, hrcron, hrc⟩
      rcases (hreminders k r).mp hr with ⟨hold, hkept⟩
      refine ⟨⟨k, r, hold, hrcron, hrc⟩, ?_⟩
      intro k' r' hr' hgone heq
      rw [h.one k k' r r' hold hr' (hrcron.trans heq.symm)] at hkept
      exact hkept hgone
  · intro k k' r r' hr hr' heq
    exact h.one k k' r r' ((hreminders k r).mp hr).1 ((hreminders k' r').mp hr').1 heq

theorem not_inStep_of_dead (hget : w.reminders.get? id = some entry)
    (hdead : w.crons.get? entry.cronId = none) : ¬ InStep w := by
  intro h
  have hlive := h.live_of_get? hget
  rw [hdead] at hlive
  cases hlive

theorem not_inStep_of_unnamed {cronId : String} {c : GlassCron}
    (hlive : w.crons.get? cronId = some c)
    (hnone : ∀ k r, w.reminders.get? k = some r → r.cronId ≠ cronId) : ¬ InStep w := by
  intro h
  rcases (h.live cronId c).mp hlive with ⟨k, r, hr, hrcron, -⟩
  exact hnone k r hr hrcron

end Lookup

/-! ## What the calls do -/

section Calls

variable {w : ReminderWorld} {id : String} {entry : Reminder}

@[simp]
theorem deleteGlassCron_reminders (cronId : String) (deleted : Bool) :
    (w.deleteGlassCron cronId deleted).reminders = w.reminders := by
  unfold ReminderWorld.deleteGlassCron
  split_ifs <;> rfl

theorem deleteGlassCron_crons {cronId : String} (h : cronId ≠ "") (deleted : Bool) (k : String) :
    (w.deleteGlassCron cronId deleted).crons.get? k =
      if deleted = true ∧ cronId = k then none else w.crons.get? k := by
  unfold ReminderWorld.deleteGlassCron
  rw [if_neg h]
  cases deleted with
  | true =>
      by_cases hk : cronId = k
      · simp [hk]
      · simp [Dict.get?_pop_of_ne _ hk, hk]
  | false => simp

/-- A deletion of a reminder whose cron is deleted too keeps table and Glass in step. -/
theorem InStep.delete (h : InStep w) (hget : w.reminders.get? id = some entry)
    (hname : entry.cronId ≠ "") : InStep (deleteReminder w id entry true) := by
  apply @InStep.drop _ _ h fun k => k = id
  · intro k r
    change (Dict.pop _ id).get? k = some r ↔ _
    rw [deleteGlassCron_reminders, Dict.get?_pop_eq_some_iff]
    constructor
    · rintro ⟨hne, hr⟩
      exact ⟨hr, fun heq => hne heq.symm⟩
    · rintro ⟨hr, hne⟩
      exact ⟨fun heq => hne heq.symm, hr⟩
  · intro cronId c
    change (w.deleteGlassCron entry.cronId true).crons.get? cronId = some c ↔ _
    rw [deleteGlassCron_crons hname]
    constructor
    · intro hc
      by_cases hcron : entry.cronId = cronId
      · simp [hcron] at hc
      · rw [if_neg (by simp [hcron])] at hc
        refine ⟨hc, ?_⟩
        intro k r hr hk heq
        rw [hk, hget, Option.some.injEq] at hr
        rw [← hr] at heq
        exact hcron heq
    · rintro ⟨hc, hkept⟩
      rw [if_neg (by simp [hkept id entry hget rfl])]
      exact hc

/-- A deletion of a reminder whose cron stays leaves a cron that no reminder names. -/
theorem not_inStep_delete (h : InStep w) (hget : w.reminders.get? id = some entry)
    (hname : entry.cronId ≠ "") : ¬ InStep (deleteReminder w id entry false) := by
  have hlive : (deleteReminder w id entry false).crons.get? entry.cronId = some entry.cron := by
    change (w.deleteGlassCron entry.cronId false).crons.get? entry.cronId = some entry.cron
    rw [deleteGlassCron_crons hname]
    simpa using h.live_of_get? hget
  apply not_inStep_of_unnamed hlive
  intro k r hr heq
  change (Dict.pop _ id).get? k = some r at hr
  rw [deleteGlassCron_reminders, Dict.get?_pop_eq_some_iff] at hr
  exact hr.1 (h.one id k entry r hget hr.2 heq.symm)

/-- Replacing a cron keeps table and Glass in step if both calls succeed. -/
theorem InStep.recreate (h : InStep w) (hget : w.reminders.get? id = some entry)
    (hname : entry.cronId ≠ "") {targets : List Target} {cronId : String}
    (hnew : w.crons.get? cronId = none) :
    InStep (recreate w id entry targets true (some cronId)).1 := by
  have hdelete := h.delete hget hname
  have hgone : (deleteReminder w id entry true).reminders.get? id = none :=
    Dict.get?_pop_self _ _
  have hnone : (deleteReminder w id entry true).crons.get? cronId = none := by
    change (w.deleteGlassCron entry.cronId true).crons.get? cronId = none
    rw [deleteGlassCron_crons hname]
    split_ifs
    · rfl
    · exact hnew
  apply @InStep.put _ _ id { entry with cronId, targets } hdelete hgone hnone
  · intro k
    change ((w.deleteGlassCron entry.cronId true).reminders.set id _).get? k =
      if id = k then _ else (Dict.pop _ id).get? k
    rw [Dict.get?_set, Dict.get?_pop]
    split_ifs <;> rfl
  · intro k
    exact Dict.get?_set _ _ _ _

/-- The world as it was: a cron could be neither deleted nor created. -/
theorem recreate_failed (hname : entry.cronId ≠ "") (targets : List Target) :
    recreate w id entry targets false none = (w, false) := by
  unfold recreate ReminderWorld.deleteGlassCron
  rw [if_neg hname, if_neg Bool.false_ne_true]
  rfl

/-- A cron that is deleted and not created again is missing. -/
theorem not_inStep_recreate_lost (hget : w.reminders.get? id = some entry)
    (hname : entry.cronId ≠ "") (targets : List Target) :
    ¬ InStep (recreate w id entry targets true none).1 := by
  have hkept : (recreate w id entry targets true none).1.reminders.get? id = some entry := by
    change (w.deleteGlassCron entry.cronId true).reminders.get? id = some entry
    rw [deleteGlassCron_reminders]
    exact hget
  apply not_inStep_of_dead hkept
  change (w.deleteGlassCron entry.cronId true).crons.get? entry.cronId = none
  rw [deleteGlassCron_crons hname]
  simp

/-- A cron that stays beside the one that replaces it is named by no reminder. -/
theorem not_inStep_recreate_stale (h : InStep w) (hget : w.reminders.get? id = some entry)
    (hname : entry.cronId ≠ "") {targets : List Target} {cronId : String}
    (hnew : w.crons.get? cronId = none) :
    ¬ InStep (recreate w id entry targets false (some cronId)).1 := by
  have hlive := h.live_of_get? hget
  have hne : cronId ≠ entry.cronId := by
    intro heq
    rw [heq, hlive] at hnew
    cases hnew
  have hstays : (recreate w id entry targets false (some cronId)).1.crons.get? entry.cronId =
      some entry.cron := by
    change ((w.deleteGlassCron entry.cronId false).crons.set cronId _).get? entry.cronId = _
    rw [Dict.get?_set_of_ne _ _ hne, deleteGlassCron_crons hname]
    simpa using hlive
  apply not_inStep_of_unnamed hstays
  intro k r hr heq
  change ((w.deleteGlassCron entry.cronId false).reminders.set id _).get? k = some r at hr
  rw [deleteGlassCron_reminders, Dict.get?_set] at hr
  by_cases hk : id = k
  · rw [if_pos hk, Option.some.injEq] at hr
    rw [← hr] at heq
    exact hne heq
  · rw [if_neg hk] at hr
    exact hk (h.one id k entry r hget hr heq.symm)

end Calls

/-! ## The reaper -/

section Reaper

variable {w : ReminderWorld}

/-- The loop of the reaper over reminders that the table has. -/
def reapLoop (deleted : String → Bool) (due : List (String × Reminder)) (w : ReminderWorld) :
    ReminderWorld :=
  due.foldl (fun w item => deleteReminder w item.1 item.2 (deleted item.1)) w

theorem reapLoop_reminders (deleted : String → Bool) (due : List (String × Reminder))
    (w : ReminderWorld) (k : String) (r : Reminder) :
    (reapLoop deleted due w).reminders.get? k = some r ↔
      w.reminders.get? k = some r ∧ k ∉ due.map Prod.fst := by
  induction due generalizing w with
  | nil => simp [reapLoop]
  | cons item rest ih =>
      have hhead : (deleteReminder w item.1 item.2 (deleted item.1)).reminders.get? k = some r ↔
          item.1 ≠ k ∧ w.reminders.get? k = some r := by
        change (Dict.pop _ item.1).get? k = some r ↔ _
        rw [deleteGlassCron_reminders, Dict.get?_pop_eq_some_iff]
      have hrest := ih (deleteReminder w item.1 item.2 (deleted item.1))
      rw [hhead] at hrest
      change (reapLoop deleted rest _).reminders.get? k = some r ↔ _
      rw [hrest, List.map_cons, List.mem_cons, not_or]
      constructor
      · rintro ⟨⟨hne, hr⟩, hnot⟩
        exact ⟨hr, fun heq => hne heq.symm, hnot⟩
      · rintro ⟨hr, hne, hnot⟩
        exact ⟨⟨fun heq => hne heq.symm, hr⟩, hnot⟩

theorem reapLoop_crons (deleted : String → Bool) {due : List (String × Reminder)}
    (hnames : ∀ item ∈ due, item.2.cronId ≠ "") (w : ReminderWorld) (cronId : String)
    (c : GlassCron) :
    (reapLoop deleted due w).crons.get? cronId = some c ↔
      w.crons.get? cronId = some c ∧
        ∀ item ∈ due, deleted item.1 = true → item.2.cronId ≠ cronId := by
  induction due generalizing w with
  | nil => simp [reapLoop]
  | cons item rest ih =>
      have hrest := ih (fun other hother => hnames other (List.mem_cons_of_mem _ hother))
        (deleteReminder w item.1 item.2 (deleted item.1))
      have hhead : (deleteReminder w item.1 item.2 (deleted item.1)).crons.get? cronId = some c ↔
          w.crons.get? cronId = some c ∧ (deleted item.1 = true → item.2.cronId ≠ cronId) := by
        change (w.deleteGlassCron item.2.cronId (deleted item.1)).crons.get? cronId = some c ↔ _
        rw [deleteGlassCron_crons (hnames item List.mem_cons_self)]
        by_cases hgone : deleted item.1 = true ∧ item.2.cronId = cronId
        · simp [hgone]
        · rw [if_neg hgone]
          rw [not_and] at hgone
          constructor
          · intro hc
            exact ⟨hc, hgone⟩
          · intro hc
            exact hc.1
      rw [hhead] at hrest
      change (reapLoop deleted rest _).crons.get? cronId = some c ↔ _
      rw [hrest]
      constructor
      · rintro ⟨⟨hc, hfirst⟩, hothers⟩
        refine ⟨hc, ?_⟩
        intro other hother
        rcases List.mem_cons.mp hother with heq | hmem
        · rw [heq]
          exact hfirst
        · exact hothers other hmem
      · rintro ⟨hc, hall⟩
        exact ⟨⟨hc, hall item List.mem_cons_self⟩,
          fun other hother => hall other (List.mem_cons_of_mem _ hother)⟩

/-- The reminders that the reaper goes over. -/
theorem mem_due (w : ReminderWorld) (now : ℚ) (k : String) (r : Reminder) :
    (k, r) ∈ w.reminders.entries.filter (fun item => expired now item.2) ↔
      w.reminders.get? k = some r ∧ expired now r = true := by
  rw [List.mem_filter, Dict.get?_eq_some_iff]

theorem mem_due_keys (w : ReminderWorld) (now : ℚ) (k : String) :
    k ∈ (w.reminders.entries.filter fun item => expired now item.2).map Prod.fst ↔
      ∃ r, w.reminders.get? k = some r ∧ expired now r = true := by
  rw [List.mem_map]
  constructor
  · rintro ⟨⟨k', r⟩, hmem, rfl⟩
    exact ⟨r, (mem_due w now k' r).mp hmem⟩
  · rintro ⟨r, hr⟩
    exact ⟨(k, r), (mem_due w now k r).mpr hr, rfl⟩

/-- The reaper keeps table and Glass in step exactly if all its deletions succeed. -/
theorem reap_inStep_iff (h : InStep w) (hnamed : w.crons.get? "" = none) (now : ℚ)
    (deleted : String → Bool) :
    InStep (reapFiredReminders w now deleted).1 ↔
      ∀ id entry, w.reminders.get? id = some entry → expired now entry = true →
        deleted id = true := by
  have hnames : ∀ item ∈ w.reminders.entries.filter fun item => expired now item.2,
      item.2.cronId ≠ "" := by
    rintro ⟨k, r⟩ hmem heq
    have hlive := h.live_of_get? ((mem_due w now k r).mp hmem).1
    rw [heq, hnamed] at hlive
    cases hlive
  have hreminders := reapLoop_reminders deleted
    (w.reminders.entries.filter fun item => expired now item.2) w
  have hcrons := reapLoop_crons deleted hnames w
  change InStep (reapLoop deleted (w.reminders.entries.filter fun item => expired now item.2) w) ↔ _
  constructor
  · intro hafter id entry hget hexpired
    by_contra hdeleted
    have hlive : (reapLoop deleted
        (w.reminders.entries.filter fun item => expired now item.2) w).crons.get? entry.cronId =
          some entry.cron := by
      rw [hcrons]
      refine ⟨h.live_of_get? hget, ?_⟩
      rintro ⟨k, r⟩ hmem hk heq
      have hid := h.one k id r entry ((mem_due w now k r).mp hmem).1 hget heq
      rw [hid] at hk
      exact hdeleted hk
    apply not_inStep_of_unnamed hlive _ hafter
    intro k r hr heq
    rw [hreminders] at hr
    have hid := h.one k id r entry hr.1 hget heq
    rw [hid] at hr
    exact hr.2 ((mem_due_keys w now id).mpr ⟨entry, hget, hexpired⟩)
  · intro hall
    apply @InStep.drop _ _ h fun k => ∃ r, w.reminders.get? k = some r ∧ expired now r = true
    · intro k r
      rw [hreminders, mem_due_keys]
    · intro cronId c
      rw [hcrons]
      constructor
      · rintro ⟨hc, hkept⟩
        refine ⟨hc, ?_⟩
        rintro k r hr ⟨r', hr', hexpired⟩
        rw [hr, Option.some.injEq] at hr'
        subst hr'
        exact hkept (k, r) ((mem_due w now k r).mpr ⟨hr, hexpired⟩) (hall k r hr hexpired)
      · rintro ⟨hc, hkept⟩
        refine ⟨hc, ?_⟩
        rintro ⟨k, r⟩ hmem -
        rcases (mem_due w now k r).mp hmem with ⟨hr, hexpired⟩
        exact hkept k r hr ⟨r, hr, hexpired⟩

end Reaper

/-! ## One operation -/

section Step

variable {s : ReminderState}

theorem nextReminders_of_error {e : ReminderEvent} {w : ReminderWorld} {error : ReminderError}
    (h : runReminderEvent s.world e = (w, .error error)) :
    nextReminders s e = { s with world := w } := by
  unfold nextReminders
  rw [h]

theorem nextReminders_of_ok {e : ReminderEvent} {w : ReminderWorld} {reply : ReminderReply}
    (h : runReminderEvent s.world e = (w, .ok reply)) :
    nextReminders s e = ⟨w, intend s.wanted e⟩ := by
  unfold nextReminders
  rw [h]

/-- An entry that is stored under the id of what is asked for. -/
theorem table_set (htable : ∀ k, (s.world.reminders.get? k).map Reminder.plan = s.wanted.get? k)
    (id : String) (entry plan : Reminder) (hplan : entry.plan = plan) (k : String) :
    ((s.world.reminders.set id entry).get? k).map Reminder.plan =
      (s.wanted.set id plan).get? k := by
  rw [Dict.get?_set, Dict.get?_set]
  by_cases hk : id = k
  · rw [if_pos hk, if_pos hk, Option.map_some, hplan]
  · rw [if_neg hk, if_neg hk, htable]

theorem table_pop (htable : ∀ k, (s.world.reminders.get? k).map Reminder.plan = s.wanted.get? k)
    (id k : String) :
    ((s.world.reminders.pop id).get? k).map Reminder.plan = (s.wanted.pop id).get? k := by
  rw [Dict.get?_pop, Dict.get?_pop]
  by_cases hk : id = k
  · rw [if_pos hk, if_pos hk, Option.map_none]
  · rw [if_neg hk, if_neg hk, htable]

/-- A create keeps the law, whatever Glass answers. -/
theorem create_law (h : RemindersLaw s) {args : ReminderArgs} {reminderId : String}
    {created : Option String} (hid : s.world.reminders.get? reminderId = none)
    (hnew : ∀ cronId, created = some cronId → s.world.crons.get? cronId = none) :
    RemindersLaw (nextReminders s (.create args reminderId created)) := by
  unfold nextReminders runReminderEvent createReminder
  dsimp only
  by_cases htext : args.text = ""
  · rw [if_pos htext]
    exact h
  · rw [if_neg htext]
    cases hschedule : args.schedule with
    | none => exact h
    | some schedule =>
        cases htarget : args.target with
        | none => exact h
        | some target =>
            cases created with
            | none => exact h
            | some cronId =>
                constructor
                · apply @InStep.put _ _ reminderId (args.entry schedule target cronId) h.inStep hid
                  · cases schedule <;> exact hnew cronId rfl
                  · intro k
                    exact Dict.get?_set _ _ _ _
                  · intro k
                    cases schedule <;> exact Dict.get?_set _ _ _ _
                · intro k
                  simp only [intend, hschedule, htarget]
                  exact table_set h.table reminderId _ _ (by cases schedule <;> rfl) k

theorem cronId_ne_empty (h : RemindersLaw s) (hnamed : s.world.crons.get? "" = none) {id : String}
    {entry : Reminder} (hget : s.world.reminders.get? id = some entry) : entry.cronId ≠ "" := by
  intro heq
  have hlive := h.inStep.live_of_get? hget
  rw [heq, hnamed] at hlive
  cases hlive

theorem wanted_of_get? (h : RemindersLaw s) {id : String} {entry : Reminder}
    (hget : s.world.reminders.get? id = some entry) : s.wanted.get? id = some entry.plan := by
  rw [← h.table, hget, Option.map_some]

/-- The law after a cron was replaced, given what the operations asks for. -/
theorem recreate_law_iff (h : RemindersLaw s) (hnamed : s.world.crons.get? "" = none) {id : String}
    {entry : Reminder} (hget : s.world.reminders.get? id = some entry) (targets : List Target)
    (deleted : Bool) {created : Option String}
    (hnew : ∀ cronId, created = some cronId → s.world.crons.get? cronId = none) :
    RemindersLaw ⟨(recreate s.world id entry targets deleted created).1,
        if created.isSome then s.wanted.set id { entry.plan with targets } else s.wanted⟩ ↔
      deleted = created.isSome := by
  have hname := cronId_ne_empty h hnamed hget
  cases created with
  | none =>
      cases deleted with
      | false =>
          rw [recreate_failed hname]
          simpa using h
      | true =>
          constructor
          · intro hafter
            exact absurd hafter.inStep (not_inStep_recreate_lost hget hname targets)
          · intro hfalse
            cases hfalse
  | some cronId =>
      cases deleted with
      | false =>
          constructor
          · intro hafter
            exact absurd hafter.inStep
              (not_inStep_recreate_stale h.inStep hget hname (hnew cronId rfl))
          · intro hfalse
            cases hfalse
      | true =>
          constructor
          · intro _
            rfl
          · intro _
            constructor
            · exact h.inStep.recreate hget hname (hnew cronId rfl)
            · intro k
              change (((s.world.deleteGlassCron entry.cronId true).reminders.set id _).get? k).map
                _ = (s.wanted.set id _).get? k
              rw [deleteGlassCron_reminders]
              exact table_set h.table id _ _ rfl k

/-- The law after a reminder was deleted. -/
theorem delete_law_iff (h : RemindersLaw s) (hnamed : s.world.crons.get? "" = none) {id : String}
    {entry : Reminder} (hget : s.world.reminders.get? id = some entry) (deleted : Bool) :
    RemindersLaw ⟨deleteReminder s.world id entry deleted, s.wanted.pop id⟩ ↔ deleted = true := by
  have hname := cronId_ne_empty h hnamed hget
  cases deleted with
  | false =>
      constructor
      · intro hafter
        exact absurd hafter.inStep (not_inStep_delete h.inStep hget hname)
      · intro hfalse
        cases hfalse
  | true =>
      constructor
      · intro _
        rfl
      · intro _
        constructor
        · exact h.inStep.delete hget hname
        · intro k
          change ((Dict.pop _ id).get? k).map _ = _
          rw [deleteGlassCron_reminders]
          exact table_pop h.table id k

theorem include_law_iff (h : RemindersLaw s) (hnamed : s.world.crons.get? "" = none)
    {id : String} {added : Option Target} {deleted : Bool} {created : Option String}
    (hnew : ∀ cronId, created = some cronId → s.world.crons.get? cronId = none) :
    RemindersLaw (nextReminders s (.includes id added deleted created)) ↔
      Answers s (.includes id added deleted created) := by
  cases hget : s.world.reminders.get? id with
  | none =>
      have hrun : runReminderEvent s.world (.includes id added deleted created) =
          (s.world, .error (.noReminder id)) := by
        simp [runReminderEvent, includeTarget, hget]
      rw [nextReminders_of_error hrun]
      simp [Answers, hget, h]
  | some entry =>
      cases added with
      | none =>
          have hrun : runReminderEvent s.world (.includes id none deleted created) =
              (s.world, .error .routing) := by
            simp [runReminderEvent, includeTarget, hget]
          rw [nextReminders_of_error hrun]
          simp [Answers, h]
      | some target =>
          have hwanted := wanted_of_get? h hget
          by_cases hmem : target ∈ entry.targets
          · have hrun : runReminderEvent s.world (.includes id (some target) deleted created) =
                (s.world, .ok (.alreadyOn target id)) := by
              simp [runReminderEvent, includeTarget, hget, hmem]
            have hsame : intend s.wanted (.includes id (some target) deleted created) =
                s.wanted := by
              have hplan : target ∈ entry.plan.targets := hmem
              simp [intend, hwanted, hplan]
            rw [nextReminders_of_ok hrun, hsame]
            simp [Answers, hget, hmem, h]
          · have hlaw := recreate_law_iff h hnamed hget (entry.targets ++ [target]) deleted hnew
            have hanswers : Answers s (.includes id (some target) deleted created) ↔
                deleted = created.isSome := by
              simp [Answers, hget, hmem]
            rw [hanswers, ← hlaw]
            have hplan : target ∉ entry.plan.targets := hmem
            cases created with
            | none =>
                have hrun : runReminderEvent s.world (.includes id (some target) deleted none) =
                    ((recreate s.world id entry (entry.targets ++ [target]) deleted none).1,
                      .error .glass) := by
                  simp [runReminderEvent, includeTarget, hget, hmem, recreate,
                    ReminderWorld.createGlassCron]
                rw [nextReminders_of_error hrun]
                rfl
            | some cronId =>
                have hrun : runReminderEvent s.world
                    (.includes id (some target) deleted (some cronId)) =
                    ((recreate s.world id entry (entry.targets ++ [target]) deleted
                      (some cronId)).1, .ok (.added target id)) := by
                  simp [runReminderEvent, includeTarget, hget, hmem, recreate,
                    ReminderWorld.createGlassCron]
                rw [nextReminders_of_ok hrun]
                simp only [intend, hwanted, if_neg hplan]
                rfl

/-- The targets that stay are as many as there were exactly if the excluded one was not there. -/
theorem filter_ne_length_iff (target : Target) (targets : List Target) :
    (targets.filter fun other => other ≠ target).length = targets.length ↔ target ∉ targets := by
  rw [List.length_filter_eq_length_iff]
  constructor
  · intro hall hmem
    simpa using hall target hmem
  · intro hnot other hother
    rw [decide_eq_true_eq]
    intro heq
    exact hnot (heq ▸ hother)

theorem answers_excludes {id : String} {entry : Reminder} {target : Target} {deleted : Bool}
    {created : Option String} (hget : s.world.reminders.get? id = some entry) :
    Answers s (.excludes id (some target) deleted created) ↔ (target ∈ entry.targets →
      deleted = (created.isSome || decide (∀ other ∈ entry.targets, other = target))) := by
  constructor
  · intro hanswers hmem
    exact hanswers entry target hget rfl hmem
  · intro hall r t hr ht hmem
    rw [hget, Option.some.injEq] at hr
    cases ht
    subst hr
    exact hall hmem

theorem exclude_law_iff (h : RemindersLaw s) (hnamed : s.world.crons.get? "" = none)
    {id : String} {excluded : Option Target} {deleted : Bool} {created : Option String}
    (hnew : ∀ cronId, created = some cronId → s.world.crons.get? cronId = none) :
    RemindersLaw (nextReminders s (.excludes id excluded deleted created)) ↔
      Answers s (.excludes id excluded deleted created) := by
  cases hget : s.world.reminders.get? id with
  | none =>
      have hrun : runReminderEvent s.world (.excludes id excluded deleted created) =
          (s.world, .error (.noReminder id)) := by
        simp [runReminderEvent, excludeTarget, hget]
      rw [nextReminders_of_error hrun]
      simp [Answers, hget, h]
  | some entry =>
      cases excluded with
      | none =>
          have hrun : runReminderEvent s.world (.excludes id none deleted created) =
              (s.world, .error .routing) := by
            simp [runReminderEvent, excludeTarget, hget]
          rw [nextReminders_of_error hrun]
          simp [Answers, h]
      | some target =>
          have hwanted := wanted_of_get? h hget
          have hlength := filter_ne_length_iff target entry.targets
          by_cases hmem : target ∈ entry.targets
          · have hplan : target ∈ entry.plan.targets := hmem
            have hshorter := mt hlength.mp (not_not.mpr hmem)
            by_cases hall : ∀ other ∈ entry.targets, other = target
            · have hnil : (entry.targets.filter fun other => other ≠ target) = [] := by
                rw [List.filter_eq_nil_iff]
                intro other hother
                simp [hall other hother]
              have hrun : runReminderEvent s.world
                  (.excludes id (some target) deleted created) =
                  (deleteReminder s.world id entry deleted, .ok (.lastTargetRemoved id)) := by
                unfold runReminderEvent excludeTarget
                simp only [hget]
                rw [if_neg hshorter, if_pos hnil]
              have hintend : intend s.wanted (.excludes id (some target) deleted created) =
                  s.wanted.pop id := by
                have hplanAll : ∀ other ∈ entry.plan.targets, other = target := hall
                simp only [intend, hwanted]
                rw [if_neg (not_not.mpr hplan), if_pos hplanAll]
              rw [nextReminders_of_ok hrun, hintend, delete_law_iff h hnamed hget,
                answers_excludes hget, decide_eq_true hall, Bool.or_true]
              exact ⟨fun hdeleted _ => hdeleted, fun hanswers => hanswers hmem⟩
            · have hnil : (entry.targets.filter fun other => other ≠ target) ≠ [] := by
                intro hnil
                rw [List.filter_eq_nil_iff] at hnil
                apply hall
                intro other hother
                simpa using hnil other hother
              have hanswers : Answers s (.excludes id (some target) deleted created) ↔
                  deleted = created.isSome := by
                rw [answers_excludes hget, decide_eq_false hall, Bool.or_false]
                exact ⟨fun hanswers => hanswers hmem, fun hdeleted _ => hdeleted⟩
              have hlaw := recreate_law_iff h hnamed hget
                (entry.targets.filter fun other => other ≠ target) deleted hnew
              rw [hanswers, ← hlaw]
              cases created with
              | none =>
                  have hrun : runReminderEvent s.world
                      (.excludes id (some target) deleted none) =
                      ((recreate s.world id entry
                        (entry.targets.filter fun other => other ≠ target) deleted none).1,
                        .error .glass) := by
                    unfold runReminderEvent excludeTarget
                    simp only [hget]
                    rw [if_neg hshorter, if_neg hnil]
                    rfl
                  rw [nextReminders_of_error hrun]
                  rfl
              | some cronId =>
                  have hrun : runReminderEvent s.world
                      (.excludes id (some target) deleted (some cronId)) =
                      ((recreate s.world id entry
                        (entry.targets.filter fun other => other ≠ target) deleted
                        (some cronId)).1, .ok (.removed target id)) := by
                    unfold runReminderEvent excludeTarget
                    simp only [hget]
                    rw [if_neg hshorter, if_neg hnil]
                    rfl
                  have hplanAll : ¬ ∀ other ∈ entry.plan.targets, other = target := hall
                  rw [nextReminders_of_ok hrun]
                  simp only [intend, hwanted]
                  rw [if_neg (not_not.mpr hplan), if_neg hplanAll]
                  rfl
          · have hplan : target ∉ entry.plan.targets := hmem
            have hrun : runReminderEvent s.world (.excludes id (some target) deleted created) =
                (s.world, .ok (.wasNotOn target id)) := by
              unfold runReminderEvent excludeTarget
              simp only [hget]
              rw [if_pos (hlength.mpr hmem)]
            have hsame : intend s.wanted (.excludes id (some target) deleted created) =
                s.wanted := by
              simp [intend, hwanted, hplan]
            rw [nextReminders_of_ok hrun, hsame]
            simp [Answers, hget, hmem, h]

theorem reap_law_iff (h : RemindersLaw s) (hnamed : s.world.crons.get? "" = none) (now : ℚ)
    (deleted : String → Bool) :
    RemindersLaw (nextReminders s (.reap now deleted)) ↔ Answers s (.reap now deleted) := by
  have hiff := reap_inStep_iff h.inStep hnamed now deleted
  constructor
  · intro hafter
    exact hiff.mp hafter.inStep
  · intro hanswers
    constructor
    · exact hiff.mpr hanswers
    · intro k
      apply Option.ext
      intro plan
      change ((reapLoop deleted (s.world.reminders.entries.filter fun item => expired now item.2)
        s.world).reminders.get? k).map Reminder.plan = some plan ↔
          (s.wanted.filter fun _ entry => !expired now entry).get? k = some plan
      rw [Dict.get?_filter_eq_some_iff, ← h.table, Option.map_eq_some_iff, Option.map_eq_some_iff]
      constructor
      · rintro ⟨r, hr, rfl⟩
        rw [reapLoop_reminders, mem_due_keys] at hr
        refine ⟨⟨r, hr.1, rfl⟩, ?_⟩
        rw [Bool.not_eq_true', Bool.eq_false_iff]
        intro hexpired
        exact hr.2 ⟨r, hr.1, hexpired⟩
      · rintro ⟨⟨r, hr, rfl⟩, hkept⟩
        refine ⟨r, ?_, rfl⟩
        rw [reapLoop_reminders, mem_due_keys]
        refine ⟨hr, ?_⟩
        rintro ⟨r', hr', hexpired⟩
        rw [hr, Option.some.injEq] at hr'
        subst hr'
        have hplan : expired now r.plan = expired now r := rfl
        rw [hplan, hexpired] at hkept
        cases hkept

/-- One operation keeps the law exactly if Glass answers it as the condition says. -/
theorem step_law_iff (h : RemindersLaw s) (hnamed : s.world.crons.get? "" = none)
    {e : ReminderEvent} (hfresh : e.fresh s.world) :
    RemindersLaw (nextReminders s e) ↔ Answers s e := by
  cases e with
  | create args reminderId created =>
      constructor
      · intro _
        trivial
      · intro _
        exact create_law h hfresh.1 fun cronId hcreated => (hfresh.2 cronId hcreated).2
  | includes id added deleted created =>
      exact include_law_iff h hnamed fun cronId hcreated => (hfresh cronId hcreated).2
  | excludes id excluded deleted created =>
      exact exclude_law_iff h hnamed fun cronId hcreated => (hfresh cronId hcreated).2
  | delete id deleted =>
      cases hget : s.world.reminders.get? id with
      | none =>
          have hrun : runReminderEvent s.world (.delete id deleted) =
              (s.world, .error (.noReminder id)) := by
            simp [runReminderEvent, deleteById, hget]
          rw [nextReminders_of_error hrun]
          simp [Answers, hget, h]
      | some entry =>
          have hrun : runReminderEvent s.world (.delete id deleted) =
              (deleteReminder s.world id entry deleted, .ok (.deleted id)) := by
            simp [runReminderEvent, deleteById, hget]
          rw [nextReminders_of_ok hrun]
          change RemindersLaw ⟨deleteReminder s.world id entry deleted, s.wanted.pop id⟩ ↔ _
          rw [delete_law_iff h hnamed hget]
          simp [Answers, hget]
  | reap now deleted => exact reap_law_iff h hnamed now deleted

end Step

/-! ## Along a run -/

section Law

/-- The id that Glass gives in an event. -/
def ReminderEvent.created : ReminderEvent → Option String
  | create _ _ created | includes _ _ _ created | excludes _ _ _ created => created
  | delete _ _ | reap _ _ => none

theorem deleteGlassCron_subset (w : ReminderWorld) (cronId : String) (deleted : Bool) {k : String}
    {c : GlassCron} (h : (w.deleteGlassCron cronId deleted).crons.get? k = some c) :
    w.crons.get? k = some c := by
  by_cases hname : cronId = ""
  · rw [ReminderWorld.deleteGlassCron, if_pos hname] at h
    exact h
  · rw [deleteGlassCron_crons hname] at h
    by_cases hgone : deleted = true ∧ cronId = k
    · rw [if_pos hgone] at h
      cases h
    · rw [if_neg hgone] at h
      exact h

theorem reapLoop_subset (deleted : String → Bool) (due : List (String × Reminder))
    (w : ReminderWorld) {k : String} {c : GlassCron}
    (h : (reapLoop deleted due w).crons.get? k = some c) : w.crons.get? k = some c := by
  induction due generalizing w with
  | nil => exact h
  | cons item rest ih =>
      have hrest := ih (deleteReminder w item.1 item.2 (deleted item.1)) h
      exact deleteGlassCron_subset w _ _ hrest

theorem recreate_subset {w w' : ReminderWorld} {id : String} {entry : Reminder}
    {targets : List Target} {deleted stored : Bool} {created : Option String} {k : String}
    {c : GlassCron} (hrecreate : recreate w id entry targets deleted created = (w', stored))
    (h : w'.crons.get? k = some c) : w.crons.get? k = some c ∨ created = some k := by
  have hworld : (recreate w id entry targets deleted created).1 = w' := by rw [hrecreate]
  rw [← hworld] at h
  cases created with
  | none => exact .inl (deleteGlassCron_subset w _ _ h)
  | some cronId =>
      change ((w.deleteGlassCron entry.cronId deleted).crons.set cronId _).get? k = some c at h
      by_cases hk : cronId = k
      · rw [hk]
        exact .inr rfl
      · rw [Dict.get?_set_of_ne _ _ hk] at h
        exact .inl (deleteGlassCron_subset w _ _ h)

/-- A live cron was live before, or Glass has just created it. -/
theorem crons_of_step {w : ReminderWorld} {e : ReminderEvent} {k : String} {c : GlassCron}
    (h : (runReminderEvent w e).1.crons.get? k = some c) :
    w.crons.get? k = some c ∨ e.created = some k := by
  cases e with
  | create args reminderId created =>
      unfold runReminderEvent createReminder at h
      dsimp only at h
      by_cases htext : args.text = ""
      · rw [if_pos htext] at h
        exact .inl h
      · rw [if_neg htext] at h
        cases hschedule : args.schedule with
        | none =>
            rw [hschedule] at h
            exact .inl h
        | some schedule =>
            cases htarget : args.target with
            | none =>
                rw [hschedule, htarget] at h
                exact .inl h
            | some target =>
                rw [hschedule, htarget] at h
                cases created with
                | none => exact .inl h
                | some cronId =>
                    change (w.crons.set cronId _).get? k = some c at h
                    by_cases hk : cronId = k
                    · rw [hk]
                      exact .inr rfl
                    · rw [Dict.get?_set_of_ne _ _ hk] at h
                      exact .inl h
  | includes id added deleted created =>
      unfold runReminderEvent includeTarget at h
      dsimp only at h
      split at h
      · exact .inl h
      · split at h
        · exact .inl h
        · split at h
          · exact .inl h
          · split at h
            · rename_i hrecreate
              exact recreate_subset hrecreate h
            · rename_i hrecreate
              exact recreate_subset hrecreate h
  | excludes id excluded deleted created =>
      unfold runReminderEvent excludeTarget at h
      dsimp only at h
      split at h
      · exact .inl h
      · split at h
        · exact .inl h
        · split at h
          · exact .inl h
          · split at h
            · exact .inl (deleteGlassCron_subset w _ _ h)
            · split at h
              · rename_i hrecreate
                exact recreate_subset hrecreate h
              · rename_i hrecreate
                exact recreate_subset hrecreate h
  | delete id deleted =>
      unfold runReminderEvent deleteById at h
      dsimp only at h
      split at h
      · exact .inl h
      · exact .inl (deleteGlassCron_subset w _ _ h)
  | reap now deleted => exact .inl (reapLoop_subset deleted _ w h)

theorem nextReminders_world (s : ReminderState) (e : ReminderEvent) :
    (nextReminders s e).world = (runReminderEvent s.world e).1 := by
  unfold nextReminders
  split <;> rename_i h <;> rw [h]

/-- No cron is called by the empty name. -/
theorem named_of_reachable {s : ReminderState} (hs : reminderSystem.Reachable s) :
    s.world.crons.get? "" = none := by
  apply hs.invariant (I := fun s => s.world.crons.get? "" = none)
  · rintro s rfl
    rfl
  · rintro s e t _ hnamed ⟨hfresh, rfl⟩
    rw [nextReminders_world, Option.eq_none_iff_forall_ne_some]
    intro c hc
    rcases crons_of_step hc with hold | hcreated
    · rw [hnamed] at hold
      cases hold
    · cases e with
      | create args reminderId created => exact (hfresh.2 "" hcreated).1 rfl
      | includes id added deleted created => exact (hfresh "" hcreated).1 rfl
      | excludes id excluded deleted created => exact (hfresh "" hcreated).1 rfl
      | delete id deleted => cases hcreated
      | reap now deleted => cases hcreated

/-- While Glass answers as the condition says, the law holds. -/
theorem law_of_answers {s : ReminderState}
    (hs : (reminderSystem.restrict Answers).Reachable s) : RemindersLaw s := by
  apply hs.invariant (I := RemindersLaw)
  · rintro s rfl
    constructor
    · constructor
      · intro cronId c
        constructor
        · intro hc
          cases hc
        · rintro ⟨id, entry, hget, -⟩
          cases hget
      · intro id id' entry entry' hget
        cases hget
    · intro id
      rfl
  · rintro s e t hreach hlaw ⟨hanswers, hfresh, rfl⟩
    exact (step_law_iff hlaw (named_of_reachable hreach.of_restrict) hfresh).mpr hanswers

/-- After every operation of a run the live crons are those of the table, each reminder that was
asked for has its cron, and an operation that raised has changed nothing, if and only if at each
operation a deletion on Glass succeeds where the table forgets the cron and fails where the
creation after it fails. -/
theorem reminders_law {s t : ReminderState} {es : List ReminderEvent}
    (hs : reminderSystem.init s) (hrun : reminderSystem.Run s es t) :
    (∀ fs u, fs <+: es → reminderSystem.Run s fs u → RemindersLaw u) ↔
      (reminderSystem.restrict Answers).Run s es t := by
  apply TransitionSystem.Run.restrict_iff
  · rintro a e b c ⟨-, rfl⟩ ⟨-, rfl⟩
    rfl
  · intro a ha
    exact law_of_answers ha
  · rintro a e b ha ⟨hfresh, rfl⟩ hnot hlaw
    have hnamed := named_of_reachable ha.of_restrict
    exact hnot ((step_law_iff (law_of_answers ha) hnamed hfresh).mp hlaw)
  · exact .init hs
  · exact hrun

/-- A reminder every morning, as it is asked for. -/
def morningArgs : ReminderArgs where
  text := "water the plants"
  schedule := some (.cron "0 9 * * *" "UTC")
  target := some ⟨"carbon", "ada"⟩
  createdAt := 0
  createdBy := "ada"

/-- A reminder that is set and gets a second target. -/
theorem reminders_law_morning :
    (∃ w, reminderSystem.Run ⟨⟨Dict.empty, Dict.empty⟩, Dict.empty⟩
        [.create morningArgs "r-1" (some "c-1"),
          .includes "r-1" (some ⟨"carbon", "bob"⟩) true (some "c-2")] w) ∧
      ∀ fs u, fs <+: [.create morningArgs "r-1" (some "c-1"),
          .includes "r-1" (some ⟨"carbon", "bob"⟩) true (some "c-2")] →
        reminderSystem.Run ⟨⟨Dict.empty, Dict.empty⟩, Dict.empty⟩ fs u → RemindersLaw u := by
  have hfirst : ReminderEvent.fresh ⟨Dict.empty, Dict.empty⟩
      (.create morningArgs "r-1" (some "c-1")) := by
    constructor
    · rfl
    · rintro cronId ⟨⟩
      exact ⟨by decide, rfl⟩
  have hsecond : ReminderEvent.fresh
      (nextReminders ⟨⟨Dict.empty, Dict.empty⟩, Dict.empty⟩
        (.create morningArgs "r-1" (some "c-1"))).world
      (.includes "r-1" (some ⟨"carbon", "bob"⟩) true (some "c-2")) := by
    rintro cronId ⟨⟩
    exact ⟨by decide, by decide⟩
  refine ⟨⟨_, .cons ⟨hfirst, rfl⟩ (.single ⟨hsecond, rfl⟩)⟩, ?_⟩
  apply (reminders_law rfl (.cons ⟨hfirst, rfl⟩ (.single ⟨hsecond, rfl⟩))).mpr
  refine .cons ⟨trivial, hfirst, rfl⟩ (.single ⟨?_, hsecond, rfl⟩)
  intro entry target _ _ _
  rfl

/-- Glass deletes the cron of a reminder and does not create the next one: the operation raises,
and the reminder is still in the table without a live cron. -/
theorem include_fails :
    ∃ u v, reminderSystem.Run ⟨⟨Dict.empty, Dict.empty⟩, Dict.empty⟩
        [.create morningArgs "r-1" (some "c-1")] u ∧
      reminderSystem.Run u [.includes "r-1" (some ⟨"carbon", "bob"⟩) true none] v ∧
      v.world.reminders = u.world.reminders ∧ v.world.crons = Dict.empty ∧ ¬ RemindersLaw v := by
  have hfirst : ReminderEvent.fresh ⟨Dict.empty, Dict.empty⟩
      (.create morningArgs "r-1" (some "c-1")) := by
    constructor
    · rfl
    · rintro cronId ⟨⟩
      exact ⟨by decide, rfl⟩
  refine ⟨_, _, .single ⟨hfirst, rfl⟩, .single ⟨?_, rfl⟩, by decide, by decide, ?_⟩
  · rintro cronId ⟨⟩
  · intro hlaw
    apply @not_inStep_of_dead _ "r-1" (morningArgs.entry (.cron "0 9 * * *" "UTC")
      ⟨"carbon", "ada"⟩ "c-1") _ _ hlaw.inStep
    · decide
    · decide

end Law

end Iwantto
end Stemcell
