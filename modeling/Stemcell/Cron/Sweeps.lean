import Stemcell.Cron.FireTimes
import Stemcell.Lib.Dict
import Stemcell.Lib.Transition

/-!
# Sweeps over crons

A sweep goes over the cron records of Glass under the lock of the state file.  A cron that is seen
for the first time gets a watermark; later its fires after the watermark are counted and the
watermark moves to the last of them.

Main results:

- Definition `checkGlassCrons`: one sweep.
- Theorem `fires_counted_once`: in regular runs the counted fires are the due times up to the
  watermark, each once, and a backlog is worked off.
- Theorem `counted_before_watermark`: fires that are counted before the watermark at which the cron
  was first seen, when the clocks go back.

Current gaps:

- The texts for the manager and the resolution of the targets of a cron are left out; they follow
  the watermark.
- A stored watermark that cannot be parsed is not modelled.
-/

namespace Stemcell
namespace Cron

open Lib

/-! ## One sweep -/

/-- A cron record of Glass. -/
structure CronRecord where
  cronId : String
  trigger : String
  timezone : String
  active : Bool
deriving DecidableEq, Repr

/-- What the state file says of a cron. -/
structure CronEntry where
  lastChecked : Option ℤ
  watermark : Option ℤ
  missedRunCount : ℕ
  lastRun : Option ℤ
  lastResult : Option ℕ
deriving DecidableEq, Repr

def CronEntry.empty : CronEntry where
  lastChecked := none
  watermark := none
  missedRunCount := 0
  lastRun := none
  lastResult := none

abbrev CronState := Dict String CronEntry

/-- A cron that is due: its last fire, and all that were counted. -/
structure CronDue where
  record : CronRecord
  latest : ℤ
  fires : List ℤ
deriving DecidableEq, Repr

def sweepLimit : ℕ := 250

section Source

variable (env : Env) (now : ℤ)

/-- The entry of a cron after its check, and what is due. -/
def checkEntry (record : CronRecord) (entry : CronEntry) : CronEntry × Option CronDue :=
  let entry := { entry with lastChecked := some now }
  match entry.watermark with
  | none => ({ entry with watermark := some now }, none)
  | some watermark =>
      if !record.active then (entry, none)
      else
        let fires := fireTimesBetween env record.trigger watermark now record.timezone sweepLimit
        match fires.getLast? with
        | none => (entry, none)
        | some latest =>
            ({ entry with
                watermark := some latest
                lastRun := some latest
                missedRunCount :=
                  if fires.length > 1 then entry.missedRunCount + fires.length
                  else entry.missedRunCount
                lastResult := some fires.length },
              some ⟨record, latest, fires⟩)

/-- One round of the loop of a sweep. -/
def checkRecord (record : CronRecord) (crons : CronState) : CronState × Option CronDue :=
  if record.cronId = "" ∨ record.trigger = "" then (crons, none)
  else
    let checked := checkEntry env now record ((crons.get? record.cronId).getD .empty)
    (crons.set record.cronId checked.1, checked.2)

/-- `_check_glass_crons` up to the release of the lock: the state, and what is due. -/
def checkGlassCrons (records : List CronRecord) (crons : CronState) : CronState × List CronDue :=
  records.foldl (fun swept record =>
    let checked := checkRecord env now record swept.1
    (checked.1, swept.2 ++ checked.2.toList)) (crons, [])

end Source

def watermarkOf (crons : CronState) (cronId : String) : Option ℤ :=
  (crons.get? cronId).bind (·.watermark)

/-! ## Runs -/

/-- The state file; and what has been counted of each cron, when it was first seen, and the time
of the last sweep. -/
structure World where
  crons : CronState
  counted : String → List ℤ
  firstSeen : String → Option ℤ
  clock : Option ℤ

/-- A sweep, and the records it gets. -/
structure Sweep where
  now : ℤ
  records : List CronRecord

def World.watermark (w : World) (cronId : String) : Option ℤ :=
  watermarkOf w.crons cronId

/-- The check of a record. -/
def World.check (env : Env) (now : ℤ) (w : World) (record : CronRecord) : World :=
  let checked := checkRecord env now record w.crons
  { w with
    crons := checked.1
    counted :=
      match checked.2 with
      | none => w.counted
      | some due =>
          Function.update w.counted record.cronId (w.counted record.cronId ++ due.fires)
    firstSeen :=
      match w.watermark record.cronId with
      | none =>
          Function.update w.firstSeen record.cronId (watermarkOf checked.1 record.cronId)
      | some _ => w.firstSeen }

/-- The checks of records one after the other. -/
def World.checks (env : Env) (now : ℤ) (w : World) (records : List CronRecord) : World :=
  records.foldl (World.check env now) w

def World.sweep (env : Env) (w : World) (sweep : Sweep) : World :=
  { w with clock := some sweep.now }.checks env sweep.now sweep.records

/-- Sweeps at increasing times. -/
def sweeping (env : Env) (cronId : String) : TransitionSystem World Sweep where
  init w := w.watermark cronId = none ∧ w.counted cronId = [] ∧ w.firstSeen cronId = none ∧
    w.clock = none
  step w sweep w' := (∀ last, w.clock = some last → last < sweep.now) ∧ w' = w.sweep env sweep

/-- The world follows the state file. -/
theorem crons_sweep (env : Env) (w : World) (sweep : Sweep) :
    (w.sweep env sweep).crons = (checkGlassCrons env sweep.now sweep.records w.crons).1 := by
  have hfold : ∀ (records : List CronRecord) (v : World) (due : List CronDue),
      (v.checks env sweep.now records).crons =
        (records.foldl (fun swept record =>
          let checked := checkRecord env sweep.now record swept.1
          (checked.1, swept.2 ++ checked.2.toList)) (v.crons, due)).1 := by
    intro records
    induction records with
    | nil => exact fun v due => rfl
    | cons record rest ih => exact fun v due => ih (v.check env sweep.now record) _
  exact hfold sweep.records _ []

/-! ## One check -/

section Check

variable (env : Env) (now : ℤ) {w : World} {record : CronRecord} {cronId : String}

theorem checkEntry_unseen (record : CronRecord) {entry : CronEntry} (h : entry.watermark = none) :
    (checkEntry env now record entry).1.watermark = some now ∧
      (checkEntry env now record entry).2 = none := by
  unfold checkEntry
  dsimp only
  rw [h]
  exact ⟨rfl, rfl⟩

/-- The fires that a check counts from a watermark on. -/
def checkedFires (env : Env) (now : ℤ) (record : CronRecord) (mark : ℤ) : List ℤ :=
  if record.active then
    fireTimesBetween env record.trigger mark now record.timezone sweepLimit
  else []

/-- The watermark advances over the fires that are counted. -/
theorem checkEntry_seen (record : CronRecord) {entry : CronEntry} {mark : ℤ} (h : entry.watermark = some mark) :
    (checkEntry env now record entry).1.watermark =
        some (advance mark (checkedFires env now record mark)) ∧
      (checkEntry env now record entry).2.elim [] CronDue.fires =
        checkedFires env now record mark := by
  unfold checkEntry checkedFires
  dsimp only
  rw [h]
  dsimp only
  by_cases hactive : record.active = true
  · rw [if_neg (by simp [hactive]), if_pos hactive]
    cases hfires : fireTimesBetween env record.trigger mark now record.timezone sweepLimit with
    | nil => exact ⟨rfl, rfl⟩
    | cons t rest =>
        rw [List.getLast?_eq_some_getLast (List.cons_ne_nil t rest)]
        dsimp only
        refine ⟨?_, rfl⟩
        rw [advance, List.getLastD_eq_getLast?,
          List.getLast?_eq_some_getLast (List.cons_ne_nil t rest)]
        rfl
  · rw [if_pos (by simp [hactive]), if_neg hactive]
    exact ⟨rfl, rfl⟩

theorem watermark_getD (crons : CronState) (cronId : String) :
    ((crons.get? cronId).getD .empty).watermark = watermarkOf crons cronId := by
  unfold watermarkOf
  cases crons.get? cronId <;> rfl

/-- The check of a record says nothing of other crons. -/
theorem check_of_ne (h : record.cronId ≠ cronId) :
    (w.check env now record).watermark cronId = w.watermark cronId ∧
      (w.check env now record).counted cronId = w.counted cronId ∧
      (w.check env now record).firstSeen cronId = w.firstSeen cronId := by
  refine ⟨?_, ?_, ?_⟩
  · unfold World.check World.watermark watermarkOf checkRecord
    dsimp only
    split
    · rfl
    · rw [Dict.get?_set_of_ne _ _ h]
  · unfold World.check
    dsimp only
    cases (checkRecord env now record w.crons).2 with
    | none => rfl
    | some due => exact Function.update_of_ne (Ne.symm h) _ _
  · unfold World.check
    dsimp only
    cases w.watermark record.cronId with
    | none => exact Function.update_of_ne (Ne.symm h) _ _
    | some mark => rfl

/-- A record without an id or a trigger is passed over. -/
theorem check_of_blank (h : record.cronId = "" ∨ record.trigger = "") :
    (w.check env now record).watermark record.cronId = w.watermark record.cronId ∧
      (w.check env now record).counted = w.counted ∧
      (w.watermark record.cronId ≠ none → (w.check env now record).firstSeen = w.firstSeen) := by
  have hcheck : checkRecord env now record w.crons = (w.crons, none) := if_pos h
  unfold World.check
  dsimp only
  rw [hcheck]
  refine ⟨rfl, rfl, ?_⟩
  intro hseen
  dsimp only
  cases hmark : w.watermark record.cronId with
  | none => exact absurd hmark hseen
  | some mark => rfl

theorem checkRecord_of_not_blank (crons : CronState)
    (h : ¬ (record.cronId = "" ∨ record.trigger = "")) :
    watermarkOf (checkRecord env now record crons).1 record.cronId =
        (checkEntry env now record ((crons.get? record.cronId).getD .empty)).1.watermark ∧
      (checkRecord env now record crons).2 =
        (checkEntry env now record ((crons.get? record.cronId).getD .empty)).2 := by
  unfold checkRecord
  rw [if_neg h]
  constructor
  · simp [watermarkOf]
  · rfl

/-- A cron that was never seen gets a watermark. -/
theorem check_unseen (h : ¬ (record.cronId = "" ∨ record.trigger = ""))
    (hunseen : w.watermark record.cronId = none) :
    (w.check env now record).watermark record.cronId = some now ∧
      (w.check env now record).counted = w.counted ∧
      (w.check env now record).firstSeen record.cronId = some now := by
  have hentry := hunseen
  unfold World.watermark at hentry
  rw [← watermark_getD] at hentry
  rcases checkEntry_unseen env now record hentry with ⟨hmark, hdue⟩
  rcases checkRecord_of_not_blank env now w.crons h with ⟨hset, hsame⟩
  rw [hmark] at hset
  rw [hdue] at hsame
  refine ⟨hset, ?_, ?_⟩
  · unfold World.check
    dsimp only
    rw [hsame]
  · unfold World.check
    dsimp only
    rw [hunseen]
    dsimp only
    rw [Function.update_self, hset]

/-- The fires of a check are counted, and the watermark advances over them. -/
theorem check_seen (h : ¬ (record.cronId = "" ∨ record.trigger = "")) {mark : ℤ}
    (hseen : w.watermark record.cronId = some mark) :
    (w.check env now record).watermark record.cronId =
        some (advance mark (checkedFires env now record mark)) ∧
      (w.check env now record).counted record.cronId =
        w.counted record.cronId ++ checkedFires env now record mark ∧
      (w.check env now record).firstSeen = w.firstSeen := by
  have hentry := hseen
  unfold World.watermark at hentry
  rw [← watermark_getD] at hentry
  rcases checkEntry_seen env now record hentry with ⟨hmark, hdue⟩
  rcases checkRecord_of_not_blank env now w.crons h with ⟨hset, hsame⟩
  rw [hmark] at hset
  rw [← hsame] at hdue
  refine ⟨hset, ?_, ?_⟩
  · unfold World.check
    dsimp only
    cases hfound : (checkRecord env now record w.crons).2 with
    | none =>
        rw [hfound] at hdue
        rw [← hdue]
        exact (List.append_nil _).symm
    | some due =>
        rw [hfound] at hdue
        rw [← hdue]
        exact Function.update_self ..
  · unfold World.check
    dsimp only
    rw [hseen]

end Check

/-! ## Regular runs -/

section Run

variable {env : Env} {cron : CronRecord} {w w' w'' : World} {now : ℤ}

/-- A check is regular for a cron: a record with its id has its trigger and time zone, and the
check from its watermark is regular. -/
def RegularCheck (env : Env) (cron : CronRecord) (now : ℤ) (w : World)
    (record : CronRecord) : Prop :=
  record.cronId = cron.cronId → record.trigger = cron.trigger ∧ record.timezone = cron.timezone ∧
    ∀ mark, w.watermark cron.cronId = some mark →
      Regular env cron.trigger cron.timezone mark now

/-- All checks of a sweep are regular for a cron. -/
def RegularSweep (env : Env) (cron : CronRecord) (w : World) (sweep : Sweep) : Prop :=
  ∀ before record after, sweep.records = before ++ record :: after →
    RegularCheck env cron sweep.now
      ({ w with clock := some sweep.now }.checks env sweep.now before) record

/-- What has been counted of a cron is what was due up to its watermark. -/
structure Accounted (env : Env) (cron : CronRecord) (w : World) : Prop where
  unseen : w.watermark cron.cronId = none → w.counted cron.cronId = []
  seen : ∀ mark, w.watermark cron.cronId = some mark →
    ∃ start, w.firstSeen cron.cronId = some start ∧
      Counted (env.Due cron.trigger cron.timezone) start mark (w.counted cron.cronId)
  past : ∀ mark, w.watermark cron.cronId = some mark → ∃ last, w.clock = some last ∧ mark ≤ last

/-- The watermark of a cron does not decrease, and what was counted stays counted. -/
structure Onward (cronId : String) (w w' : World) : Prop where
  watermark : ∀ mark, w.watermark cronId = some mark →
    ∃ mark', w'.watermark cronId = some mark' ∧ mark ≤ mark' ∧
      w'.firstSeen cronId = w.firstSeen cronId
  counted : ∃ more, w'.counted cronId = w.counted cronId ++ more

theorem Onward.refl (cronId : String) (w : World) : Onward cronId w w where
  watermark mark hmark := ⟨mark, hmark, le_rfl, rfl⟩
  counted := ⟨[], (List.append_nil _).symm⟩

theorem Onward.trans {cronId : String} (h : Onward cronId w w') (h' : Onward cronId w' w'') :
    Onward cronId w w'' where
  watermark mark hmark := by
    rcases h.watermark mark hmark with ⟨mark', hmark', hle, hfirst⟩
    rcases h'.watermark mark' hmark' with ⟨mark'', hmark'', hle', hfirst'⟩
    exact ⟨mark'', hmark'', hle.trans hle', hfirst'.trans hfirst⟩
  counted := by
    rcases h.counted with ⟨more, hmore⟩
    rcases h'.counted with ⟨others, hothers⟩
    exact ⟨more ++ others, by rw [hothers, hmore, List.append_assoc]⟩

/-- All that is due up to now has been counted, or as many fires as a sweep may count, beyond the
given number. -/
def CaughtUp (env : Env) (cron : CronRecord) (now : ℤ) (base : ℕ) (w : World) : Prop :=
  ∃ start, w.firstSeen cron.cronId = some start ∧
    ((∀ t, env.Due cron.trigger cron.timezone t → start < t → t ≤ now →
      t ∈ w.counted cron.cronId) ∨ base + sweepLimit ≤ (w.counted cron.cronId).length)

theorem CaughtUp.onward {base : ℕ} (h : CaughtUp env cron now base w)
    (hsome : w.watermark cron.cronId ≠ none) (honward : Onward cron.cronId w w') :
    CaughtUp env cron now base w' := by
  rcases h with ⟨start, hstart, hcounted⟩
  rcases Option.ne_none_iff_exists'.mp hsome with ⟨mark, hmark⟩
  rcases honward.watermark mark hmark with ⟨mark', _, _, hfirst⟩
  rcases honward.counted with ⟨more, hmore⟩
  refine ⟨start, hfirst.trans hstart, ?_⟩
  rw [hmore, List.length_append]
  rcases hcounted with hall | hlength
  · left
    intro t hdue hafter hle
    exact List.mem_append_left _ (hall t hdue hafter hle)
  · right
    omega

/-- A regular check keeps the account, moves onward, and catches up if it is one of the active
cron. -/
theorem Accounted.check (h : Accounted env cron w) (hclock : w.clock = some now)
    {record : CronRecord} (hregular : RegularCheck env cron now w record) :
    Accounted env cron (w.check env now record) ∧
      Onward cron.cronId w (w.check env now record) ∧
      (record.cronId = cron.cronId → record.active → cron.cronId ≠ "" → cron.trigger ≠ "" →
        (w.check env now record).watermark cron.cronId ≠ none ∧
          CaughtUp env cron now (w.counted cron.cronId).length (w.check env now record)) := by
  have hclock' : (w.check env now record).clock = some now := hclock
  by_cases hid : record.cronId = cron.cronId
  · rcases hregular hid with ⟨htrigger, hzone, hmarks⟩
    by_cases hblank : record.cronId = "" ∨ record.trigger = ""
    · -- The record is passed over.
      rcases check_of_blank env now (w := w) hblank with
        ⟨hwatermark, hcounted, hfirst⟩
      rw [hid] at hwatermark hfirst
      refine ⟨⟨?_, ?_, ?_⟩, ⟨?_, ?_⟩, ?_⟩
      · intro hnone
        rw [hcounted]
        exact h.unseen (hwatermark ▸ hnone)
      · intro mark hmark
        rw [hwatermark] at hmark
        rw [hcounted, hfirst (by rw [hmark]; exact Option.some_ne_none _)]
        exact h.seen mark hmark
      · intro mark hmark
        rw [hwatermark] at hmark
        rcases h.past mark hmark with ⟨last, hlast, hle⟩
        exact ⟨last, hlast, hle⟩
      · intro mark hmark
        exact ⟨mark, hwatermark.trans hmark, le_rfl,
          congrFun (hfirst (by rw [hmark]; exact Option.some_ne_none _)) _⟩
      · exact ⟨[], by rw [hcounted, List.append_nil]⟩
      · intro _ _ hidne htriggerne
        rcases hblank with hblank | hblank
        · exact absurd (hid ▸ hblank) hidne
        · exact absurd (htrigger ▸ hblank) htriggerne
    · cases hmark : w.watermark cron.cronId with
      | none =>
          -- The cron is seen for the first time.
          rcases check_unseen env now hblank (hid ▸ hmark) with
            ⟨hwatermark, hcounted, hfirst⟩
          rw [hid] at hwatermark hfirst
          have hempty := h.unseen hmark
          refine ⟨⟨?_, ?_, ?_⟩, ⟨?_, ?_⟩, ?_⟩
          · intro hnone
            rw [hwatermark] at hnone
            cases hnone
          · intro mark hmark'
            rcases Option.some.inj (hwatermark.symm.trans hmark')
            rw [hcounted, hempty]
            exact ⟨now, hfirst, Counted.initial⟩
          · intro mark hmark'
            rcases Option.some.inj (hwatermark.symm.trans hmark')
            exact ⟨now, hclock', le_rfl⟩
          · intro mark hmark'
            rw [hmark] at hmark'
            cases hmark'
          · exact ⟨[], by rw [hcounted, List.append_nil]⟩
          · intro _ _ _ _
            refine ⟨by rw [hwatermark]; exact Option.some_ne_none _, now, hfirst, .inl ?_⟩
            intro t _ hafter hle
            exact absurd hafter (not_lt.mpr hle)
      | some mark =>
          -- The fires after the watermark are counted.
          rcases check_seen env now hblank (hid ▸ hmark) with
            ⟨hwatermark, hcounted, hfirst⟩
          rw [hid] at hwatermark hcounted
          rcases h.seen mark hmark with ⟨start, hstart, haccount⟩
          have hle : mark ≤ now := by
            rcases h.past mark hmark with ⟨last, hlast, hle⟩
            rcases Option.some.inj (hlast.symm.trans hclock)
            exact hle
          have htakes := fireTimesBetween_takes (hmarks mark hmark) hle sweepLimit
          have hfires : ∀ active : Bool, record.active = active →
              checkedFires env now record mark = if active then
                fireTimesBetween env cron.trigger mark now cron.timezone sweepLimit else [] := by
            rintro active rfl
            unfold checkedFires
            rw [htrigger, hzone]
          cases hactive : record.active with
          | true =>
              rw [hfires true hactive, if_pos rfl] at hwatermark hcounted
              refine ⟨⟨?_, ?_, ?_⟩, ⟨?_, ?_⟩, ?_⟩
              · intro hnone
                rw [hwatermark] at hnone
                cases hnone
              · intro mark' hmark'
                rcases Option.some.inj (hwatermark.symm.trans hmark')
                rw [hcounted, hfirst]
                exact ⟨start, hstart, haccount.sweep htakes⟩
              · intro mark' hmark'
                rcases Option.some.inj (hwatermark.symm.trans hmark')
                exact ⟨now, hclock', htakes.advance_le hle⟩
              · intro mark' hmark'
                rcases Option.some.inj (hmark.symm.trans hmark')
                exact ⟨_, hwatermark, htakes.mark_le, congrFun hfirst _⟩
              · exact ⟨_, hcounted⟩
              · intro _ _ _ _
                refine ⟨by rw [hwatermark]; exact Option.some_ne_none _, start,
                  (congrFun hfirst _).trans hstart, ?_⟩
                rw [hcounted, List.length_append]
                by_cases hlimit : (fireTimesBetween env cron.trigger mark now cron.timezone
                    sweepLimit).length = sweepLimit
                · right
                  omega
                · left
                  intro t hdue hafter hbefore
                  exact (haccount.caught_up htakes hdue hafter hbefore).resolve_right hlimit
          | false =>
              rw [hfires false hactive, if_neg Bool.false_ne_true] at hwatermark hcounted
              rw [List.append_nil] at hcounted
              refine ⟨⟨?_, ?_, ?_⟩, ⟨?_, ?_⟩, ?_⟩
              · intro hnone
                rw [hwatermark] at hnone
                cases hnone
              · intro mark' hmark'
                rcases Option.some.inj (hwatermark.symm.trans hmark')
                rw [hcounted, hfirst]
                exact ⟨start, hstart, haccount⟩
              · intro mark' hmark'
                rcases Option.some.inj (hwatermark.symm.trans hmark')
                exact ⟨now, hclock', hle⟩
              · intro mark' hmark'
                rcases Option.some.inj (hmark.symm.trans hmark')
                exact ⟨_, hwatermark, le_rfl, congrFun hfirst _⟩
              · exact ⟨[], by rw [hcounted, List.append_nil]⟩
              · intro _ htrue
                cases htrue
  · rcases check_of_ne env now (w := w) hid with ⟨hwatermark, hcounted, hfirst⟩
    refine ⟨⟨?_, ?_, ?_⟩, ⟨?_, ?_⟩, fun heq => absurd heq hid⟩
    · intro hnone
      rw [hcounted]
      exact h.unseen (hwatermark ▸ hnone)
    · intro mark hmark
      rw [hwatermark] at hmark
      rw [hcounted, hfirst]
      exact h.seen mark hmark
    · intro mark hmark
      rw [hwatermark] at hmark
      exact h.past mark hmark
    · intro mark hmark
      exact ⟨mark, hwatermark.trans hmark, le_rfl, hfirst⟩
    · exact ⟨[], by rw [hcounted, List.append_nil]⟩

/-- Regular checks keep the account, move onward, and catch up. -/
theorem Accounted.checks {records : List CronRecord} (h : Accounted env cron w)
    (hclock : w.clock = some now)
    (hregular : ∀ before record after, records = before ++ record :: after →
      RegularCheck env cron now (w.checks env now before) record) :
    Accounted env cron (w.checks env now records) ∧
      Onward cron.cronId w (w.checks env now records) ∧
      ∀ record ∈ records, record.cronId = cron.cronId → record.active → cron.cronId ≠ "" →
        cron.trigger ≠ "" →
        CaughtUp env cron now (w.counted cron.cronId).length (w.checks env now records) := by
  induction records generalizing w with
  | nil => exact ⟨h, .refl _ _, fun record hmem => by cases hmem⟩
  | cons record rest ih =>
      rcases h.check hclock (hregular [] record rest rfl) with ⟨hnext, honward, hcaught⟩
      rcases ih hnext (w := w.check env now record) hclock (by
        rintro before other after rfl
        exact hregular (record :: before) other after rfl) with ⟨hend, hrest, hcaughtRest⟩
      refine ⟨hend, honward.trans hrest, ?_⟩
      intro other hmem hid hactive hidne htriggerne
      rcases List.mem_cons.mp hmem with rfl | hmem
      · rcases hcaught hid hactive hidne htriggerne with ⟨hsome, hup⟩
        exact hup.onward hsome hrest
      · rcases hcaughtRest other hmem hid hactive hidne htriggerne with ⟨start, hstart, hall⟩
        refine ⟨start, hstart, hall.imp_right ?_⟩
        intro hlength
        rcases honward.counted with ⟨more, hmore⟩
        rw [hmore, List.length_append] at hlength
        have hbase : ((w.check env now record).checks env now rest).counted =
            (w.checks env now (record :: rest)).counted := rfl
        rw [← hbase]
        omega

theorem Accounted.sweep {sweep : Sweep} (h : Accounted env cron w)
    (hregular : RegularSweep env cron w sweep)
    (hstep : (sweeping env cron.cronId).step w sweep w') :
    Accounted env cron w' ∧ Onward cron.cronId w w' ∧
      ∀ record ∈ sweep.records, record.cronId = cron.cronId → record.active →
        cron.cronId ≠ "" → cron.trigger ≠ "" →
        CaughtUp env cron sweep.now (w.counted cron.cronId).length w' := by
  rcases hstep with ⟨hlater, rfl⟩
  have hstart : Accounted env cron { w with clock := some sweep.now } := by
    refine ⟨h.unseen, h.seen, ?_⟩
    intro mark hmark
    rcases h.past mark hmark with ⟨last, hlast, hle⟩
    exact ⟨sweep.now, rfl, hle.trans (hlater last hlast).le⟩
  rcases hstart.checks rfl hregular with ⟨hend, honward, hcaught⟩
  exact ⟨hend, ⟨honward.watermark, honward.counted⟩, hcaught⟩

/-- In a run whose sweeps are regular for a cron, the fires counted of it are increasing and are
exactly the due times after its first and up to its latest watermark; the watermark never
decreases; and a further sweep counts all that is due up to its time, or as many fires as it
may. -/
theorem fires_counted_once {sweeps later : List Sweep} (hinit : (sweeping env cron.cronId).init w)
    (hrun : ((sweeping env cron.cronId).restrict (RegularSweep env cron)).Run w sweeps w')
    (hlater : ((sweeping env cron.cronId).restrict (RegularSweep env cron)).Run w' later w'') :
    (w''.watermark cron.cronId = none → w''.counted cron.cronId = []) ∧
    (∀ mark, w''.watermark cron.cronId = some mark →
      ∃ start, w''.firstSeen cron.cronId = some start ∧
        (w''.counted cron.cronId).Pairwise (· < ·) ∧
        ∀ t, t ∈ w''.counted cron.cronId ↔
          env.Due cron.trigger cron.timezone t ∧ start < t ∧ t ≤ mark) ∧
    (∀ mark, w'.watermark cron.cronId = some mark →
      ∃ mark', w''.watermark cron.cronId = some mark' ∧ mark ≤ mark') ∧
    ∀ sweep v, ((sweeping env cron.cronId).restrict (RegularSweep env cron)).step w'' sweep v →
      (∃ record ∈ sweep.records, record.cronId = cron.cronId ∧ record.active) →
      cron.cronId ≠ "" → cron.trigger ≠ "" →
      ∃ start, v.firstSeen cron.cronId = some start ∧
        ((∀ t, env.Due cron.trigger cron.timezone t → start < t → t ≤ sweep.now →
          t ∈ v.counted cron.cronId) ∨
        (w''.counted cron.cronId).length + sweepLimit ≤ (v.counted cron.cronId).length) := by
  have haccount : Accounted env cron w := by
    rcases hinit with ⟨hunseen, hcounted, _, _⟩
    refine ⟨fun _ => hcounted, ?_, ?_⟩ <;>
    · intro mark hmark
      rw [hunseen] at hmark
      cases hmark
  have hmiddle : Accounted env cron w' :=
    hrun.keeps (fun _ _ _ hguard hstep h => (h.sweep hguard hstep).1) haccount
  have hend : Accounted env cron w'' ∧ Onward cron.cronId w' w'' :=
    hlater.keeps (I := fun v => Accounted env cron v ∧ Onward cron.cronId w' v)
      (by
        intro a e b hguard hstep h
        rcases h.1.sweep hguard hstep with ⟨hb, honward, _⟩
        exact ⟨hb, h.2.trans honward⟩)
      ⟨hmiddle, .refl _ _⟩
  refine ⟨hend.1.unseen, ?_, ?_, ?_⟩
  · intro mark hmark
    rcases hend.1.seen mark hmark with ⟨start, hstart, hcounted⟩
    exact ⟨start, hstart, hcounted.sorted, hcounted.mem_iff⟩
  · intro mark hmark
    rcases hend.2.watermark mark hmark with ⟨mark', hmark', hle, _⟩
    exact ⟨mark', hmark', hle⟩
  · rintro sweep v ⟨hguard, hstep⟩ ⟨record, hmem, hid, hactive⟩ hidne htriggerne
    exact (hend.1.sweep hguard hstep).2.2 record hmem hid hactive hidne htriggerne

/-- A clock at a fixed distance from the time passes every minute once. -/
theorem passesOnce_of_offset {trigger timezoneName : String} {offset : ℤ}
    (hwall : ∀ n, (env.zone timezoneName).wall n = n + offset)
    (hutc : ∀ r, (env.zone timezoneName).utc r = r - offset) (mark : ℤ) :
    PassesOnce env trigger timezoneName mark now := by
  intro r _ n _ _
  rw [hwall, hutc]
  omega

end Run

/-! ## A steady clock, and one that goes back -/

/-- A cron of every minute. -/
def everyMinute : CronRecord where
  cronId := "c"
  trigger := "* * * * *"
  timezone := "UTC"
  active := true

/-- A machine without time zones and croniter. -/
def noZones : Env where
  zones _ := none
  croniter _ := none

/-- No cron has been seen. -/
def unseenWorld : World where
  crons := Dict.empty
  counted _ := []
  firstSeen _ := none
  clock := none

def firstSweep : Sweep := ⟨0, [everyMinute]⟩
def secondSweep : Sweep := ⟨150000000, [everyMinute]⟩

theorem regular_everyMinute {mark now : ℤ} (h : now - mark ≤ scanBound * minuteLength) :
    Regular noZones "* * * * *" "UTC" mark now where
  passes := by
    have hwall : ∀ n, (noZones.zone "UTC").wall n = n + 0 := fun n => (add_zero n).symm
    have hutc : ∀ r, (noZones.zone "UTC").utc r = r - 0 := fun r => (sub_zero r).symm
    exact passesOnce_of_offset hwall hutc mark
  scans _ := h
  serves croniter hcroniter := by cases hcroniter

/-- The counts of two sweeps, two and a half minutes apart. -/
theorem fires_counted_once_utc :
    ((unseenWorld.sweep noZones firstSweep).sweep noZones secondSweep).watermark "c" =
        some 120000000 ∧
      ∃ start, ((unseenWorld.sweep noZones firstSweep).sweep noZones secondSweep).firstSeen "c" =
          some start ∧
        (((unseenWorld.sweep noZones firstSweep).sweep noZones secondSweep).counted "c").Pairwise
          (· < ·) ∧
        ∀ t, t ∈ ((unseenWorld.sweep noZones firstSweep).sweep noZones secondSweep).counted "c" ↔
          noZones.Due "* * * * *" "UTC" t ∧ start < t ∧ t ≤ 120000000 := by
  have hmark : ((unseenWorld.sweep noZones firstSweep).sweep noZones secondSweep).watermark "c" =
      some 120000000 := by decide +kernel
  have hone : ∀ (w : World) (now : ℤ),
      (∀ mark, w.watermark "c" = some mark → now - mark ≤ scanBound * minuteLength) →
      RegularSweep noZones everyMinute w ⟨now, [everyMinute]⟩ := by
    rintro w now hspan before record after hrecords hid
    rcases List.append_eq_singleton_iff.mp hrecords.symm with ⟨rfl, h⟩ | ⟨_, h⟩
    · rcases (List.cons_eq_cons.mp h).1
      exact ⟨rfl, rfl, fun mark hmark => regular_everyMinute (hspan mark hmark)⟩
    · cases h
  have hfirst : RegularSweep noZones everyMinute unseenWorld firstSweep := by
    apply hone
    intro mark hmark
    cases hmark
  have hsecond : RegularSweep noZones everyMinute (unseenWorld.sweep noZones firstSweep)
      secondSweep := by
    apply hone
    intro mark hseen
    have hzero : (unseenWorld.sweep noZones firstSweep).watermark "c" = some 0 := by
      decide +kernel
    rcases Option.some.inj (hzero.symm.trans hseen)
    decide
  refine ⟨hmark, ?_⟩
  apply (@fires_counted_once noZones everyMinute unseenWorld _ _ _ _ ⟨rfl, rfl, rfl, rfl⟩
    (.single ⟨hfirst, fun last h => (by cases h), rfl⟩) (.single ⟨hsecond, ?_, rfl⟩)).2.1
  · exact hmark
  · intro last hlast
    rcases Option.some.inj hlast
    decide

/-- The clock of New York on the first of November 2026, when it goes back from two o'clock to one
o'clock. -/
def newYork : Zone where
  wall n := if n < 1793512800000000 then n - 14400000000 else n - 18000000000
  utc r := if r < 1793498400000000 then r + 14400000000 else r + 18000000000

def newYorkEnv : Env where
  zones name := if name = "America/New_York" then some newYork else none
  croniter _ := none

def everyTenMinutes : CronRecord where
  cronId := "c"
  trigger := "*/10 * * * *"
  timezone := "America/New_York"
  active := true

/-- The first sweep is five minutes after the clock has gone back, the second one twenty minutes
later. -/
def autumnWorld : World :=
  (unseenWorld.sweep newYorkEnv ⟨1793513100000000, [everyTenMinutes]⟩).sweep newYorkEnv
    ⟨1793514300000000, [everyTenMinutes]⟩

/-- The fires at ten and at twenty past one are taken for those of an hour before: they lie before
the watermark at which the cron was first seen, and the watermark moves back. -/
theorem counted_before_watermark :
    autumnWorld.firstSeen "c" = some 1793513100000000 ∧
      autumnWorld.counted "c" = [1793509800000000, 1793510400000000] ∧
      autumnWorld.watermark "c" = some 1793510400000000 := by
  decide +kernel

end Cron
end Stemcell
