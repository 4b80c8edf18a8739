import Mathlib.Algebra.Order.Ring.Unbundled.Rat
import Mathlib.Algebra.Order.Field.Basic
import Mathlib.Algebra.Order.Field.Rat
import Mathlib.Data.List.MinMax
import Mathlib.Tactic.Linarith
import Stemcell.Lib.Lists
import Stemcell.Lib.Transition
import Stemcell.Lib.Values
import Stemcell.Maintenance.State

/-!
# The clocks of the event loop

Every handler has a recovery clock of its own, with a jitter that is drawn from the identity of the
Silicon.  A handler runs when its clock is due or when something has woken the loop; a run that was
woken leaves the clock alone.  An iteration that fails is followed by a pause that doubles.

Main results:

- Definition `MainLoop.next`: one iteration of the main loop.
- Theorem `schedule_law`: in every run, the attempts that a clock starts are an interval apart, a
  handler that an iteration passes over has run within its interval and its jitter, the loop never
  asks to sleep past that, and pauses after failures are kept.

Current gaps:

- Times are exact numbers.
- `next_inactive_call_deadline` does not raise at the end of an iteration, where it would end the
  loop.
-/

namespace Stemcell
namespace Loop

open Lib
open Maintenance (Seconds)

/-! ## The schedule -/

def loopTick : Seconds := 60

structure Handler where
  name : String
  intervalSeconds : Option Seconds
  jitterSeconds : Option Seconds
  runOnActivity : Bool
  runOnStartup : Bool
deriving DecidableEq, Repr

/-- `value or default`, for a number. -/
def orDefault (value : Option Seconds) (default : Seconds) : Seconds :=
  match value with
  | some v => if v = 0 then default else v
  | none => default

def Handler.interval (handler : Handler) : Seconds :=
  max (1 / 10) (orDefault handler.intervalSeconds loopTick)

def Handler.jitter (handler : Handler) : Seconds :=
  max 0 (orDefault handler.jitterSeconds 0)

structure EventLoopSchedule where
  handlers : Dict String Handler
  identity : String
  attempts : Dict String ℕ
  nextDue : Dict String Seconds

/-- The handlers by name. -/
def tableOf (handlers : List Handler) : Dict String Handler :=
  handlers.foldl (fun table handler => table.set handler.name handler) .empty

namespace EventLoopSchedule

-- The first eight bytes of the SHA-256 of a text, as an integer.
variable (sha256 : String → Fin (2 ^ 64))

def fraction (text : String) : Seconds :=
  (sha256 text).val / (2 ^ 64 - 1)

def delay (identity name : String) (attempt : ℕ) (handler : Handler) : Seconds :=
  handler.interval
    + handler.jitter * fraction sha256 (identity ++ ":" ++ name ++ ":" ++ toString attempt)

/-- `__init__`. -/
def new (handlers : List Handler) (current : Seconds) (identity : String) : EventLoopSchedule :=
  let table := tableOf handlers
  { handlers := table
    identity := identity
    attempts := table.mapValues fun _ => 0
    nextDue := table.mapWithKey fun name handler =>
      if handler.runOnStartup then current else current + delay sha256 identity name 0 handler }

variable (schedule : EventLoopSchedule)

def clockDue (now : Seconds) (name : String) : Bool :=
  match schedule.nextDue.get? name with
  | some deadline => decide (deadline ≤ now)
  | none => false

def runsOnActivity (name : String) : Bool :=
  match schedule.handlers.get? name with
  | some handler => handler.runOnActivity
  | none => false

def due (now : Seconds) (activity : Bool) (eligible : List String) : List String :=
  eligible.filter fun name =>
    schedule.clockDue now name || activity && schedule.runsOnActivity name

/-- One round of the loop in `record_attempts`. -/
def recordAttempt (now : Seconds) (schedule : EventLoopSchedule) (name : String) :
    EventLoopSchedule :=
  match schedule.nextDue.get? name, schedule.handlers.get? name with
  | some deadline, some handler =>
      if now < deadline then schedule
      else
        let attempt := (schedule.attempts.get? name).getD 0 + 1
        { schedule with
          attempts := schedule.attempts.set name attempt
          nextDue := schedule.nextDue.set name
            (now + delay sha256 schedule.identity name attempt handler) }
  | _, _ => schedule

def recordAttempts (names : List String) (now : Seconds) : EventLoopSchedule :=
  names.foldl (recordAttempt sha256 now) schedule

def secondsUntilDue (now : Seconds) (eligible : List String) : Seconds :=
  match (schedule.nextDue.filter fun name _ => decide (name ∈ eligible)).values.min? with
  | some deadline => max 0 (deadline - now)
  | none => loopTick

end EventLoopSchedule

/-! ## The main loop -/

/-- Where an iteration raises: reading the maintenance status, in the checks before the handlers,
while handlers run and internal roots are merged, in what follows the attempts, or nowhere. -/
inductive Stage
  | status
  | checks
  | handlers
  | effects
  | done
deriving DecidableEq, Repr

/-- The handlers are chosen. -/
def Stage.selects : Stage → Bool
  | .status | .checks => false
  | .handlers | .effects | .done => true

/-- The attempts are recorded. -/
def Stage.records : Stage → Bool
  | .status | .checks | .handlers => false
  | .effects | .done => true

/-- What an iteration reads: the clock at its start, after the maintenance status, where it fails
and at its end, the seconds that a call is still open, and how the wait ends. -/
structure Turn where
  top : Seconds
  active : Bool
  now : Seconds
  stage : Stage
  failedAt : Seconds
  last : Seconds
  callLeft : Option Seconds
  native : Bool
  woken : Bool
deriving DecidableEq, Repr

structure MainLoop where
  schedule : EventLoopSchedule
  activityReady : Bool
  nextContactIntegrity : Seconds
  failureCount : ℕ
  failureNotBefore : Seconds

/-- The handlers that run while a drain is active. -/
def drainHandlers : List String :=
  ["check_interface", "check_manager_messages", "check_workers"]

/-- The pause after a number of failures in a row. -/
def failurePause (failures : ℕ) : Seconds :=
  min 30 (2 ^ min (failures - 1) 5)

def Turn.eligibleHandlers (turn : Turn) (schedule : EventLoopSchedule) : List String :=
  if turn.stage.selects && turn.active then drainHandlers else schedule.handlers.keys

/-- An iteration of the main loop, with the handlers that it runs and the time it asks to wait. -/
structure Round where
  turn : Turn
  eligible : List String
  selected : List String
  clocks : List String
  asked : Seconds
deriving DecidableEq, Repr

namespace MainLoop

variable (sha256 : String → Fin (2 ^ 64)) (contactJitter : Seconds)

/-- `main` up to its loop. -/
def new (handlers : List Handler) (current : Seconds) (identity : String) : MainLoop where
  schedule := .new sha256 handlers current identity
  activityReady := true
  nextContactIntegrity := 0
  failureCount := 0
  failureNotBefore := 0

variable (loop : MainLoop) (turn : Turn)

def selected : List String :=
  if turn.stage.selects then
    -- a burst of wake-ups during the pause counts as one
    loop.schedule.due turn.now (loop.activityReady || decide (turn.top < loop.failureNotBefore))
      (turn.eligibleHandlers loop.schedule)
  else []

def recorded : EventLoopSchedule :=
  if turn.stage.records then
    loop.schedule.recordAttempts sha256 (loop.selected turn) turn.now
  else loop.schedule

/-- `next_contact_integrity` after the checks. -/
def contactIntegrity : Seconds :=
  if turn.stage.selects && !turn.active && decide (loop.nextContactIntegrity ≤ turn.now) then
    turn.now + 300 + contactJitter
  else loop.nextContactIntegrity

/-- The time that `wait_for_runtime_activity` is given. -/
def asked : Seconds :=
  let untilDue := (loop.recorded sha256 turn).secondsUntilDue turn.last
    (turn.eligibleHandlers loop.schedule)
  let untilContacts :=
    if turn.active && turn.stage != .status then untilDue
    else min untilDue (max 0 (loop.contactIntegrity contactJitter turn - turn.last))
  let untilCall :=
    match turn.callLeft with
    | some left => min untilContacts (max 0 left)
    | none => untilContacts
  min untilCall (if turn.native then 60 else 1 / 2)

/-- One iteration. -/
def next : MainLoop where
  schedule := loop.recorded sha256 turn
  activityReady := turn.woken
  nextContactIntegrity := loop.contactIntegrity contactJitter turn
  failureCount := if turn.stage = .done then 0 else loop.failureCount + 1
  failureNotBefore :=
    if turn.stage = .done then 0
    else turn.failedAt + failurePause (loop.failureCount + 1)

/-- What an observer notes of an iteration. -/
def round : Round where
  turn := turn
  eligible := turn.eligibleHandlers loop.schedule
  selected := loop.selected turn
  clocks := (loop.selected turn).filter (loop.schedule.clockDue turn.now)
  asked := loop.asked sha256 contactJitter turn

end MainLoop

/-! ## Runs of the loop -/

/-- A recorded iteration that ran the handler because its clock was due. -/
def Round.attempted (name : String) (round : Round) : Bool :=
  round.turn.stage.records && decide (name ∈ round.clocks)

/-- The last attempt of a handler's clock; it starts as if there had been one. -/
def lastAttempt (start : Seconds) (log : List Round) (name : String) : Seconds :=
  ((log.filter (Round.attempted name)).getLast?.map fun round => round.turn.now).getD start

/-- A handler that runs on startup has no interval before its first attempt. -/
def firstInterval (log : List Round) (name : String) (handler : Handler) : Seconds :=
  if handler.runOnStartup && !log.any (Round.attempted name) then 0 else handler.interval

/-- The failed iterations at the end of a log. -/
def failures (log : List Round) : ℕ :=
  (log.reverse.takeWhile fun round => round.turn.stage != .done).length

structure LoopWorld where
  loop : MainLoop
  clock : Seconds
  log : List Round

/-- The clock does not go back, and a sleep lasts as long as it is asked to. -/
structure Turn.Follows (turn : Turn) (w : LoopWorld) : Prop where
  top : w.clock ≤ turn.top
  now : turn.top ≤ turn.now
  slept : turn.top < w.loop.failureNotBefore → w.loop.failureNotBefore ≤ turn.now
  failed : turn.stage ≠ .done → turn.now ≤ turn.failedAt ∧ turn.failedAt ≤ turn.last
  last : turn.now ≤ turn.last
  -- there are no such checks while a drain is active
  checks : turn.stage = .checks → turn.active = false

section Runs

variable (sha256 : String → Fin (2 ^ 64)) (contactJitter : Seconds) (handlers : List Handler)
  (start : Seconds) (identity : String)

def LoopWorld.initial : LoopWorld where
  loop := .new sha256 handlers start identity
  clock := start
  log := []

def LoopWorld.next (w : LoopWorld) (turn : Turn) : LoopWorld where
  loop := w.loop.next sha256 contactJitter turn
  clock := turn.last
  log := w.log ++ [w.loop.round sha256 contactJitter turn]

/-- The main loop, from its start on. -/
def mainLoop : TransitionSystem LoopWorld Turn where
  init w := w = .initial sha256 handlers start identity
  step w turn w' := turn.Follows w ∧ w' = w.next sha256 contactJitter turn

end Runs

/-- What holds of an iteration, given those before it. -/
structure RoundLaw (table : Dict String Handler) (start : Seconds) (before : List Round)
    (round : Round) : Prop where
  /-- A clock starts no attempt before its interval is over. -/
  timely : ∀ name handler, table.get? name = some handler → name ∈ round.clocks →
    lastAttempt start before name + firstInterval before name handler ≤ round.turn.now
  /-- What is not run on activity is run by its clock. -/
  clocked : ∀ name handler, table.get? name = some handler → name ∈ round.selected →
    handler.runOnActivity = false → name ∈ round.clocks
  /-- A handler that is passed over has been attempted within its interval and its jitter. -/
  served : ∀ name handler, table.get? name = some handler → name ∈ round.eligible →
    round.turn.stage.selects = true → name ∉ round.selected →
    round.turn.now < lastAttempt start before name + handler.interval + handler.jitter
  /-- The loop does not ask to sleep past the next attempt. -/
  awake : ∀ name handler, table.get? name = some handler → name ∈ round.eligible →
    round.turn.last + round.asked ≤ max round.turn.last
      (lastAttempt start (before ++ [round]) name + handler.interval + handler.jitter)
  /-- Nothing runs during the pause after a failure. -/
  paused : ∀ failed, before.getLast? = some failed → failed.turn.stage ≠ .done →
    failed.turn.failedAt + failurePause (failures before) ≤ round.turn.now

/-- Every iteration of a log keeps the law. -/
def ScheduleLaw (table : Dict String Handler) (start : Seconds) (log : List Round) : Prop :=
  ∀ before round after, log = before ++ round :: after → RoundLaw table start before round

/-! ## Delays -/

section Delays

variable {sha256 : String → Fin (2 ^ 64)} {schedule : EventLoopSchedule} {now : Seconds}
  {name : String} {handler : Handler}

theorem Handler.interval_pos (handler : Handler) : 0 < handler.interval :=
  lt_max_of_lt_left (by norm_num)

theorem Handler.jitter_nonneg (handler : Handler) : 0 ≤ handler.jitter :=
  le_max_left _ _

variable (sha256) in
theorem EventLoopSchedule.fraction_bounds (text : String) :
    0 ≤ fraction sha256 text ∧ fraction sha256 text ≤ 1 := by
  have hpos : (0 : Seconds) < 2 ^ 64 - 1 := by norm_num
  have hlt : ((sha256 text).val : Seconds) ≤ 2 ^ 64 - 1 := by
    have h : (sha256 text).val + 1 ≤ 2 ^ 64 := (sha256 text).isLt
    have hcast : (((sha256 text).val + 1 : ℕ) : Seconds) ≤ ((2 ^ 64 : ℕ) : Seconds) := by
      exact_mod_cast h
    push_cast at hcast
    linarith
  constructor
  · exact div_nonneg (Nat.cast_nonneg _) hpos.le
  · exact (div_le_one hpos).mpr hlt

variable (sha256) in
theorem EventLoopSchedule.delay_bounds (identity name : String) (attempt : ℕ)
    (handler : Handler) : handler.interval ≤ delay sha256 identity name attempt handler ∧
      delay sha256 identity name attempt handler ≤ handler.interval + handler.jitter := by
  rcases fraction_bounds sha256
    (identity ++ ":" ++ name ++ ":" ++ toString attempt) with ⟨hlow, hhigh⟩
  have hjitter := handler.jitter_nonneg
  unfold delay
  constructor
  · have := mul_nonneg hjitter hlow
    linarith
  · have := mul_le_mul_of_nonneg_left hhigh hjitter
    linarith

/-- What the clock of a handler shows after an attempt. -/
def Rescheduled (now : Seconds) (handler : Handler) (deadline : Seconds) : Prop :=
  now + handler.interval ≤ deadline ∧ deadline ≤ now + handler.interval + handler.jitter

namespace EventLoopSchedule

theorem handlers_recordAttempt : (recordAttempt sha256 now schedule name).handlers
    = schedule.handlers := by
  unfold recordAttempt
  split
  · split <;> rfl
  · rfl

theorem handlers_recordAttempts (names : List String) :
    (schedule.recordAttempts sha256 names now).handlers = schedule.handlers := by
  induction names generalizing schedule with
  | nil => rfl
  | cons name rest ih => exact ih.trans handlers_recordAttempt

variable (sha256 now name) in
/-- Recording an attempt moves the clock of that handler, if it was due. -/
theorem nextDue_recordAttempt {other : String} {deadline : Seconds}
    (hhandler : schedule.handlers.get? other = some handler)
    (hdue : schedule.nextDue.get? other = some deadline) :
    ∃ later, (recordAttempt sha256 now schedule name).nextDue.get? other = some later ∧
      (if other = name ∧ deadline ≤ now then Rescheduled now handler later
        else later = deadline) := by
  by_cases hname : other = name
  · subst hname
    by_cases hlt : now < deadline
    · refine ⟨deadline, ?_, ?_⟩
      · simp [recordAttempt, hdue, hhandler, hlt]
      · simp [not_le.mpr hlt]
    · refine ⟨now + delay sha256 schedule.identity other
        ((schedule.attempts.get? other).getD 0 + 1) handler, ?_, ?_⟩
      · simp only [recordAttempt, hdue, hhandler, hlt, if_false]
        exact Dict.get?_set_self _ _ _
      · rw [if_pos ⟨rfl, not_lt.mp hlt⟩]
        rcases delay_bounds sha256 schedule.identity other
          ((schedule.attempts.get? other).getD 0 + 1) handler with ⟨hlow, hhigh⟩
        constructor <;> linarith
  · refine ⟨deadline, ?_, by simp [hname]⟩
    unfold recordAttempt
    split
    · split
      · exact hdue
      · simp only
        rw [Dict.get?_set_of_ne _ _ (Ne.symm hname)]
        exact hdue
    · exact hdue

variable (sha256 now) in
/-- Recording attempts moves the clocks that were due, each once. -/
theorem nextDue_recordAttempts (names : List String) {other : String} {deadline : Seconds}
    (hhandler : schedule.handlers.get? other = some handler)
    (hdue : schedule.nextDue.get? other = some deadline) :
    ∃ later, (schedule.recordAttempts sha256 names now).nextDue.get? other = some later ∧
      (if other ∈ names ∧ deadline ≤ now then Rescheduled now handler later
        else later = deadline) := by
  induction names generalizing schedule deadline with
  | nil => exact ⟨deadline, hdue, by simp⟩
  | cons name rest ih =>
      rcases nextDue_recordAttempt sha256 now name hhandler hdue
        with ⟨middle, hmiddle, hfirst⟩
      rcases ih (by rw [handlers_recordAttempt]; exact hhandler) hmiddle with ⟨later, hlater, hrest⟩
      refine ⟨later, hlater, ?_⟩
      by_cases hdueNow : deadline ≤ now
      · by_cases hname : other = name
        · rw [if_pos ⟨hname, hdueNow⟩] at hfirst
          -- once moved, the clock is not due again at the same time
          have hafter : ¬ middle ≤ now := by
            have := handler.interval_pos
            have := hfirst.1
            linarith
          rw [if_neg fun h => hafter h.2] at hrest
          rw [if_pos ⟨hname ▸ List.mem_cons_self, hdueNow⟩, hrest]
          exact hfirst
        · rw [if_neg fun h => hname h.1] at hfirst
          subst hfirst
          simpa [hname] using hrest
      · rw [if_neg fun h => hdueNow h.2] at hfirst
        subst hfirst
        rw [if_neg fun h => hdueNow h.2] at hrest ⊢
        exact hrest

end EventLoopSchedule

end Delays

theorem EventLoopSchedule.secondsUntilDue_le {schedule : EventLoopSchedule} {now deadline : Seconds}
    {name : String} {eligible : List String} (hmem : name ∈ eligible)
    (hdue : schedule.nextDue.get? name = some deadline) :
    schedule.secondsUntilDue now eligible ≤ max 0 (deadline - now) := by
  have hvalue : deadline ∈
      (schedule.nextDue.filter fun name _ => decide (name ∈ eligible)).values := by
    rw [Dict.mem_values]
    exact ⟨name, (Dict.get?_filter_eq_some_iff _ _ _ _).mpr ⟨hdue, by simpa using hmem⟩⟩
  unfold secondsUntilDue
  cases hmin : (schedule.nextDue.filter fun name _ => decide (name ∈ eligible)).values.min? with
  | none =>
      rw [List.min?_eq_none_iff] at hmin
      rw [hmin] at hvalue
      cases hvalue
  | some least =>
      have hle : least ≤ deadline := (List.min?_eq_some_iff.mp hmin).2 _ hvalue
      exact max_le_max_left 0 (sub_le_sub_right hle now)

/-! ## What the log says after one more iteration -/

section Log

variable {start : Seconds} {log : List Round} {round : Round} {name : String} {handler : Handler}

theorem lastAttempt_append : lastAttempt start (log ++ [round]) name
    = if round.attempted name then round.turn.now else lastAttempt start log name := by
  unfold lastAttempt
  rw [List.filter_append]
  by_cases h : round.attempted name
  · simp [h]
  · simp [h]

theorem firstInterval_append : firstInterval (log ++ [round]) name handler
    = if round.attempted name then handler.interval else firstInterval log name handler := by
  unfold firstInterval
  by_cases h : round.attempted name
  · simp [h]
  · simp [h]

theorem failures_append : failures (log ++ [round])
    = if round.turn.stage = .done then 0 else failures log + 1 := by
  unfold failures
  by_cases h : round.turn.stage = .done
  · simp [h]
  · simp [h]

end Log

/-! ## The invariant -/

/-- The deadlines of the clocks and the pause, told from the log. -/
structure ScheduleInv (table : Dict String Handler) (start : Seconds) (w : LoopWorld) : Prop where
  handlers : w.loop.schedule.handlers = table
  clocks : ∀ name handler, table.get? name = some handler → ∃ deadline,
    w.loop.schedule.nextDue.get? name = some deadline ∧
      lastAttempt start w.log name + firstInterval w.log name handler ≤ deadline ∧
      deadline ≤ lastAttempt start w.log name + handler.interval + handler.jitter
  count : w.loop.failureCount = failures w.log
  pause : ∀ failed, w.log.getLast? = some failed → failed.turn.stage ≠ .done →
    w.loop.failureNotBefore = failed.turn.failedAt + failurePause (failures w.log)

section Invariant

variable {sha256 : String → Fin (2 ^ 64)} {contactJitter : Seconds} {start : Seconds}
  {table : Dict String Handler} {w : LoopWorld} {turn : Turn}

theorem scheduleInv_start (handlers : List Handler) (identity : String) :
    ScheduleInv (tableOf handlers) start (.initial sha256 handlers start identity) where
  handlers := rfl
  clocks := by
    intro name handler hhandler
    have hdue : (LoopWorld.initial sha256 handlers start identity).loop.schedule.nextDue.get? name
        = some (if handler.runOnStartup then start
          else start + EventLoopSchedule.delay sha256 identity name 0 handler) := by
      change ((tableOf handlers).mapWithKey _).get? name = _
      rw [Dict.get?_mapWithKey, hhandler]
      rfl
    rcases EventLoopSchedule.delay_bounds sha256 identity name 0 handler with ⟨hlow, hhigh⟩
    have hinterval := handler.interval_pos
    have hjitter := handler.jitter_nonneg
    refine ⟨_, hdue, ?_, ?_⟩
    · change start + firstInterval [] name handler ≤ _
      unfold firstInterval
      by_cases hstartup : handler.runOnStartup
      · simp [hstartup]
      · simp only [hstartup, Bool.false_and, Bool.false_eq_true, if_false]
        linarith
    · change _ ≤ start + handler.interval + handler.jitter
      by_cases hstartup : handler.runOnStartup
      · rw [if_pos hstartup]
        linarith
      · rw [if_neg hstartup]
        linarith
  count := rfl
  pause := by
    intro failed hlast
    cases hlast

theorem MainLoop.clockDue_iff {loop : MainLoop} {name : String} {now deadline : Seconds}
    (hdue : loop.schedule.nextDue.get? name = some deadline) :
    loop.schedule.clockDue now name = true ↔ deadline ≤ now := by
  simp [EventLoopSchedule.clockDue, hdue]

variable (sha256 contactJitter turn) in
theorem MainLoop.attempted_round {loop : MainLoop} {name : String} {deadline : Seconds}
    (hdue : loop.schedule.nextDue.get? name = some deadline) :
    (loop.round sha256 contactJitter turn).attempted name = true ↔
      turn.stage.records = true ∧ name ∈ loop.selected turn ∧ deadline ≤ turn.now := by
  simp [Round.attempted, MainLoop.round, MainLoop.clockDue_iff hdue]

variable (sha256 contactJitter turn) in
theorem ScheduleInv.next_clocks (hinv : ScheduleInv table start w) {name : String}
    {handler : Handler} (hhandler : table.get? name = some handler) : ∃ deadline,
    (w.next sha256 contactJitter turn).loop.schedule.nextDue.get? name = some deadline ∧
      lastAttempt start (w.next sha256 contactJitter turn).log name
        + firstInterval (w.next sha256 contactJitter turn).log name handler ≤ deadline ∧
      deadline ≤ lastAttempt start (w.next sha256 contactJitter turn).log name
        + handler.interval + handler.jitter := by
  rcases hinv.clocks name handler hhandler with ⟨deadline, hdue, hlow, hhigh⟩
  have hattempted := MainLoop.attempted_round sha256 contactJitter turn hdue
  change ∃ later, (w.loop.recorded sha256 turn).nextDue.get? name = some later ∧
    lastAttempt start (w.log ++ [w.loop.round sha256 contactJitter turn]) name
      + firstInterval (w.log ++ [w.loop.round sha256 contactJitter turn]) name handler ≤ later ∧
    later ≤ lastAttempt start (w.log ++ [w.loop.round sha256 contactJitter turn]) name
      + handler.interval + handler.jitter
  rw [lastAttempt_append, firstInterval_append]
  unfold MainLoop.recorded
  by_cases hrecords : turn.stage.records
  · rw [if_pos hrecords]
    have hhandler' : w.loop.schedule.handlers.get? name = some handler := by
      rw [hinv.handlers]
      exact hhandler
    rcases EventLoopSchedule.nextDue_recordAttempts sha256 turn.now (w.loop.selected turn)
      hhandler' hdue with ⟨later, hlater, hmoved⟩
    refine ⟨later, hlater, ?_⟩
    by_cases hclock : name ∈ w.loop.selected turn ∧ deadline ≤ turn.now
    · rw [if_pos hclock] at hmoved
      rw [if_pos (hattempted.mpr ⟨hrecords, hclock⟩), if_pos (hattempted.mpr ⟨hrecords, hclock⟩)]
      exact hmoved
    · rw [if_neg hclock] at hmoved
      rw [if_neg fun h => hclock (hattempted.mp h).2, if_neg fun h => hclock (hattempted.mp h).2,
        hmoved]
      exact ⟨hlow, hhigh⟩
  · have hnot : ¬ (w.loop.round sha256 contactJitter turn).attempted name = true :=
      fun h => hrecords (hattempted.mp h).1
    rw [if_neg hrecords, if_neg hnot, if_neg hnot]
    exact ⟨deadline, hdue, hlow, hhigh⟩

theorem MainLoop.handlers_recorded {loop : MainLoop} :
    (loop.recorded sha256 turn).handlers = loop.schedule.handlers := by
  unfold MainLoop.recorded
  split
  · exact EventLoopSchedule.handlers_recordAttempts _
  · rfl

/-- One iteration keeps the invariant. -/
theorem ScheduleInv.next (hinv : ScheduleInv table start w) :
    ScheduleInv table start (w.next sha256 contactJitter turn) where
  handlers := MainLoop.handlers_recorded.trans hinv.handlers
  clocks _ _ hhandler := hinv.next_clocks _ _ _ hhandler
  count := by
    change (if turn.stage = .done then 0 else w.loop.failureCount + 1) = _
    rw [hinv.count]
    exact (@failures_append w.log (w.loop.round sha256 contactJitter turn)).symm
  pause := by
    intro failed hlast hstage
    have hfailed : failed = w.loop.round sha256 contactJitter turn := by
      simpa [LoopWorld.next] using hlast.symm
    subst hfailed
    change (if turn.stage = .done then 0
      else turn.failedAt + failurePause (w.loop.failureCount + 1)) = turn.failedAt + failurePause
        (failures (w.log ++ [w.loop.round sha256 contactJitter turn]))
    have hcount : failures (w.log ++ [w.loop.round sha256 contactJitter turn])
        = failures w.log + 1 := failures_append.trans (if_neg hstage)
    rw [hcount, hinv.count]
    exact if_neg hstage

variable (contactJitter) in
/-- The time that the loop asks to wait ends with the first eligible clock. -/
theorem MainLoop.asked_le {loop : MainLoop} {name : String} {deadline : Seconds}
    (hmem : name ∈ turn.eligibleHandlers loop.schedule)
    (hdue : (loop.recorded sha256 turn).nextDue.get? name = some deadline) :
    loop.asked sha256 contactJitter turn ≤ max 0 (deadline - turn.last) := by
  refine le_trans ?_ (EventLoopSchedule.secondsUntilDue_le hmem hdue)
  unfold MainLoop.asked
  refine (min_le_left _ _).trans ?_
  have hcontacts : (if turn.active && turn.stage != .status then
      (loop.recorded sha256 turn).secondsUntilDue turn.last (turn.eligibleHandlers loop.schedule)
      else min ((loop.recorded sha256 turn).secondsUntilDue turn.last
        (turn.eligibleHandlers loop.schedule))
        (max 0 (loop.contactIntegrity contactJitter turn - turn.last)))
      ≤ (loop.recorded sha256 turn).secondsUntilDue turn.last
        (turn.eligibleHandlers loop.schedule) := by
    split
    · exact le_rfl
    · exact min_le_left _ _
  split
  · exact (min_le_left _ _).trans hcontacts
  · exact hcontacts

/-- One iteration keeps the law of iterations. -/
theorem ScheduleInv.round (hinv : ScheduleInv table start w) (hfollows : turn.Follows w) :
    RoundLaw table start w.log (w.loop.round sha256 contactJitter turn) where
  timely := by
    intro name handler hhandler hclock
    rcases hinv.clocks name handler hhandler with ⟨deadline, hdue, hlow, -⟩
    rcases List.mem_filter.mp hclock with ⟨-, hnow⟩
    exact hlow.trans ((MainLoop.clockDue_iff hdue).mp hnow)
  clocked := by
    intro name handler hhandler hselected hactivity
    have hquiet : w.loop.schedule.runsOnActivity name = false := by
      simp [EventLoopSchedule.runsOnActivity, hinv.handlers, hhandler, hactivity]
    refine List.mem_filter.mpr ⟨hselected, ?_⟩
    change name ∈ w.loop.selected turn at hselected
    unfold MainLoop.selected at hselected
    split at hselected
    · rcases List.mem_filter.mp hselected with ⟨-, h⟩
      simpa [hquiet] using h
    · cases hselected
  served := by
    intro name handler hhandler heligible hselects hpassed
    rcases hinv.clocks name handler hhandler with ⟨deadline, hdue, -, hhigh⟩
    refine lt_of_lt_of_le ?_ hhigh
    by_contra hnow
    apply hpassed
    change turn.stage.selects = true at hselects
    change name ∈ w.loop.selected turn
    unfold MainLoop.selected
    rw [if_pos hselects]
    have hclock : w.loop.schedule.clockDue turn.now name = true :=
      (MainLoop.clockDue_iff hdue).mpr (not_lt.mp hnow)
    refine List.mem_filter.mpr ⟨heligible, ?_⟩
    simp [hclock]
  awake := by
    intro name handler hhandler heligible
    rcases hinv.next_clocks sha256 contactJitter turn hhandler
      with ⟨deadline, hdue, -, hhigh⟩
    have hasked := MainLoop.asked_le contactJitter heligible hdue
    calc turn.last + w.loop.asked sha256 contactJitter turn
        ≤ turn.last + max 0 (deadline - turn.last) := add_le_add_right hasked _
      _ = max turn.last deadline := by
          rw [← max_add_add_left]
          simp
      _ ≤ _ := max_le_max_left _ hhigh
  paused := by
    intro failed hlast hstage
    rw [← hinv.pause failed hlast hstage]
    by_cases hslept : turn.top < w.loop.failureNotBefore
    · exact hfollows.slept hslept
    · exact (not_lt.mp hslept).trans hfollows.now

/-- Run lemma: the invariant and the law of every iteration. -/
theorem schedule_of_reachable {handlers : List Handler} {identity : String}
    (h : (mainLoop sha256 contactJitter handlers start identity).Reachable w) :
    ScheduleInv (tableOf handlers) start w ∧ ScheduleLaw (tableOf handlers) start w.log := by
  apply h.invariant (I := fun w => ScheduleInv (tableOf handlers) start w ∧
    ScheduleLaw (tableOf handlers) start w.log)
  · intro w hstart
    subst hstart
    refine ⟨scheduleInv_start handlers identity, ?_⟩
    intro before round after hlog
    cases before <;> cases hlog
  · rintro w turn w' - ⟨hinv, hlaw⟩ ⟨hfollows, rfl⟩
    exact ⟨hinv.next, forall_split_append_singleton.mpr ⟨hlaw, hinv.round hfollows⟩⟩

end Invariant

/-- In every run of the main loop, for every handler: an attempt of its clock comes no earlier than
its interval after the one before; an iteration in which it is eligible and does not run comes less
than its interval and its jitter after the one before; the loop asks to sleep no longer than that;
and after failures in a row nothing runs for a pause that doubles up to thirty seconds. -/
theorem schedule_law {sha256 : String → Fin (2 ^ 64)} {contactJitter start : Seconds}
    {handlers : List Handler} {identity : String} {w : LoopWorld}
    (h : (mainLoop sha256 contactJitter handlers start identity).Reachable w) :
    ScheduleLaw (tableOf handlers) start w.log :=
  (schedule_of_reachable h).2

/-- Crons, which are checked on startup and on activity, and updates, which are not. -/
def twoHandlers : List Handler :=
  [{ name := "check_crons", intervalSeconds := some 30, jitterSeconds := some 10
     runOnActivity := true, runOnStartup := true },
   { name := "check_system_updates", intervalSeconds := some 3600, jitterSeconds := some 300
     runOnActivity := false, runOnStartup := false }]

/-- The first iteration, at a time, and one that fails after it. -/
def firstTurn (start : Seconds) : Turn where
  top := start
  active := false
  now := start
  stage := .done
  failedAt := start
  last := start
  callLeft := none
  native := true
  woken := true

def failedTurn (start : Seconds) : Turn :=
  { firstTurn start with stage := .effects }

theorem schedule_law_failed :
    ∃ w : LoopWorld, w.loop.failureNotBefore = 1001 ∧
      w.log.map Round.selected = [["check_crons"], ["check_crons"]] ∧
      ScheduleLaw (tableOf twoHandlers) 1000 w.log := by
  let sha256 : String → Fin (2 ^ 64) := fun _ => 0
  have h0 : (mainLoop sha256 7 twoHandlers 1000 "silicon").Reachable
      (.initial sha256 twoHandlers 1000 "silicon") := .init rfl
  have h1 := h0.step (e := firstTurn 1000) ⟨⟨le_rfl, le_rfl, fun h => absurd h (by decide +kernel),
    fun h => absurd rfl h, le_rfl, nofun⟩, rfl⟩
  have h2 := h1.step (e := failedTurn 1000) ⟨⟨le_rfl, le_rfl, fun h => absurd h (by decide +kernel),
    fun _ => ⟨le_rfl, le_rfl⟩, le_rfl, nofun⟩, rfl⟩
  exact ⟨_, by decide +kernel, by decide +kernel, schedule_law h2⟩

end Loop
end Stemcell
