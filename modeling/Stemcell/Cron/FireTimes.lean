import Stemcell.Interface.Json
import Stemcell.Lib.Watermark
import Mathlib.Algebra.Order.Group.Int

/-!
# Fire times

A cron fires at the minutes that its trigger matches on the clock of its time zone.  The fire times
between a watermark and now come from croniter where it is installed and takes the trigger, and
from a scan of the wall clock otherwise.

Main results:

- Definitions `matchPart`, `fallbackFireTimes` and `fireTimesBetween`.
- Theorem `scan_takes`: the scan finds the first matching minutes of its span.
- Theorem `fireTimesBetween_takes`: where the clock passes each matching minute once, the fire
  times are the first due times.

Current gaps:

- Digits of other scripts in a trigger, which `int` reads, are refused.
-/

namespace Stemcell
namespace Cron

open Interface (strip isSpace)
open Lib

/-! ## Clocks -/

/-- A minute.  An instant is given in microseconds since the epoch, the reading of a wall clock in
microseconds since its 1970 began. -/
def minuteLength : ℤ := 60000000

/-- A time zone: what its clock shows at an instant, and the instant that a reading stands for
(`fold=0`). -/
structure Zone where
  wall : ℤ → ℤ
  utc : ℤ → ℤ

def minuteOf (w : ℤ) : ℤ := w / minuteLength % 60
def hourOf (w : ℤ) : ℤ := w / (60 * minuteLength) % 24
def dayNumber (w : ℤ) : ℤ := w / (24 * 60 * minuteLength)

/-- `weekday()`: Monday is 0. -/
def weekday (w : ℤ) : ℤ := (dayNumber w + 3) % 7

/-- The day of a year that begins in March. -/
def dayOfYear (w : ℤ) : ℤ :=
  let dayOfEra := (dayNumber w + 719468) % 146097
  let yearOfEra := (dayOfEra - dayOfEra / 1460 + dayOfEra / 36524 - dayOfEra / 146096) / 365
  dayOfEra - (365 * yearOfEra + yearOfEra / 4 - yearOfEra / 100)

/-- The month, counted from March. -/
def monthFromMarch (w : ℤ) : ℤ := (5 * dayOfYear w + 2) / 153

def dayOf (w : ℤ) : ℤ := dayOfYear w - (153 * monthFromMarch w + 2) / 5 + 1

def monthOf (w : ℤ) : ℤ :=
  if monthFromMarch w < 10 then monthFromMarch w + 3 else monthFromMarch w - 9

/-- The last day of February 2028 is a Tuesday. -/
example : (monthOf 1835477400000000, dayOf 1835477400000000, weekday 1835477400000000,
    hourOf 1835477400000000, minuteOf 1835477400000000) = (2, 29, 1, 22, 50) := by decide

/-! ## Triggers -/

/-- The digits of a number; single underscores may stand between them. -/
def readDigits : Bool → ℕ → List Char → Option ℕ
  | afterDigit, n, [] => if afterDigit then some n else none
  | afterDigit, n, c :: rest =>
      if c.isDigit then readDigits true (10 * n + (c.toNat - 48)) rest
      else if c = '_' && afterDigit then readDigits false n rest
      else none

def stripChars (text : List Char) : List Char :=
  (strip (String.ofList text)).toList

/-- `int(text)`. -/
def readInt (text : List Char) : Option ℤ :=
  match stripChars text with
  | '-' :: digits => (readDigits false 0 digits).map fun n => -(n : ℤ)
  | '+' :: digits => (readDigits false 0 digits).map fun n => (n : ℤ)
  | digits => (readDigits false 0 digits).map fun n => (n : ℤ)

/-- `text.split(c, 1)`, where the character occurs. -/
def splitFirst (c : Char) (text : List Char) : Option (List Char × List Char) :=
  if c ∈ text then some (text.takeWhile (· ≠ c), (text.dropWhile (· ≠ c)).tail) else none

/-- The range of a part of a field. -/
def readRange (part : List Char) (minValue maxValue : ℤ) : Option (ℤ × ℤ) :=
  if part = ['*'] then some (minValue, maxValue)
  else
    match splitFirst '-' part with
    | some (first, last) => (readInt first).bind fun a => (readInt last).map fun b => (a, b)
    | none => (readInt part).map fun a => (a, a)

/-- The range and the step of a part of a field; nothing when a number cannot be read. -/
def readPart (part : List Char) (minValue maxValue : ℤ) : Option (ℤ × ℤ × ℤ) :=
  match splitFirst '/' part with
  | some (range, rawStep) =>
      (readInt rawStep).bind fun step =>
        (readRange range minValue maxValue).map fun r => (r.1, r.2, max step 1)
  | none => (readRange part minValue maxValue).map fun r => (r.1, r.2, 1)

/-- The loop of `_match_part`. -/
def matchParts (value minValue maxValue : ℤ) : List (List Char) → Bool
  | [] => false
  | part :: rest =>
      if stripChars part = [] then matchParts value minValue maxValue rest
      else
        match readPart (stripChars part) minValue maxValue with
        | none => false
        | some (first, last, step) =>
            if first ≤ value && value ≤ last && (value - first) % step = 0 then true
            else matchParts value minValue maxValue rest

/-- `_match_part`. -/
def matchPart (value : ℤ) (expr : List Char) (minValue maxValue : ℤ) : Bool :=
  if stripChars expr = ['*'] then true
  else matchParts value minValue maxValue ((stripChars expr).splitOn ',')

/-- The fields of a trigger. -/
structure CronFields where
  minute : List Char
  hour : List Char
  dom : List Char
  month : List Char
  dow : List Char
deriving DecidableEq, Repr

/-- `trigger.split()`, where it gives five fields. -/
def readTrigger (trigger : String) : Option CronFields :=
  match (trigger.toList.splitOnP isSpace).filter (· ≠ []) with
  | [minute, hour, dom, month, dow] => some ⟨minute, hour, dom, month, dow⟩
  | _ => none

/-- Whether the fields match a reading. -/
def CronFields.matching (fields : CronFields) (cursor : ℤ) : Bool :=
  let domMatch := matchPart (dayOf cursor) fields.dom 1 31
  let dowMatch := matchPart ((weekday cursor + 1) % 7) fields.dow 0 7
  let dayOk :=
    if fields.dow = ['*'] then domMatch
    else if fields.dom = ['*'] then dowMatch
    else domMatch || dowMatch
  matchPart (minuteOf cursor) fields.minute 0 59 && matchPart (hourOf cursor) fields.hour 0 23 &&
    dayOk && matchPart (monthOf cursor) fields.month 1 12

/-! ## Fire times -/

def scanBound : ℕ := 600000

/-- The loop of `_fallback_fire_times`: the minutes it may still check, the fires it may still
find, and the cursor. -/
def scan (fields : CronFields) (stop : ℤ) : ℕ → ℕ → ℤ → List ℤ
  | 0, _, _ => []
  | _ + 1, 0, _ => []
  | checks + 1, limit + 1, cursor =>
      if cursor ≤ stop then
        if fields.matching cursor then cursor :: scan fields stop checks limit (cursor + minuteLength)
        else scan fields stop checks (limit + 1) (cursor + minuteLength)
      else []

/-- `replace(second=0, microsecond=0)`. -/
def floorMinute (w : ℤ) : ℤ := w - w % minuteLength

/-- `_fallback_fire_times`. -/
def fallbackFireTimes (trigger : String) (start stop : ℤ) (limit : ℕ) : List ℤ :=
  match readTrigger trigger with
  | none => []
  | some fields => scan fields stop scanBound limit (floorMinute start + minuteLength)

/-- A time that croniter gives. -/
structure Tick where
  wall : ℤ
  instant : ℤ
deriving DecidableEq, Repr

/-- What croniter makes of a trigger that it takes: the readings it matches, and the times that
`get_next` gives one after the other from a start in a zone; nothing where it raises. -/
structure Croniter where
  matching : ℤ → Bool
  next : String → ℤ → ℕ → Option Tick

/-- The time zones by name, and croniter for each trigger, where it is installed and takes
it. -/
structure Env where
  zones : String → Option Zone
  croniter : String → Option Croniter

/-- `_timezone`. -/
def Env.zone (env : Env) (name : String) : Zone :=
  (env.zones name).getD ⟨id, id⟩

/-- The loop over `get_next`: the fires it may still find, and the number of the next one. -/
def takeTicks (next : ℕ → Option Tick) (nowLocal : ℤ) : ℕ → ℕ → Option (List ℤ)
  | 0, _ => some []
  | limit + 1, k =>
      match next k with
      | none => none
      | some tick =>
          if nowLocal < tick.wall then some []
          else (takeTicks next nowLocal limit (k + 1)).map (tick.instant :: ·)

/-- `fire_times_between`. -/
def fireTimesBetween (env : Env) (trigger : String) (watermark now : ℤ)
    (timezoneName : String) (limit : ℕ) : List ℤ :=
  let zone := env.zone timezoneName
  let startLocal := zone.wall watermark
  let nowLocal := zone.wall now
  if nowLocal ≤ startLocal then []
  else
    match (env.croniter trigger).bind fun croniter =>
        takeTicks (croniter.next timezoneName watermark) nowLocal limit 0 with
    | some fires => fires
    | none => (fallbackFireTimes trigger startLocal nowLocal limit).map zone.utc

/-! ## The scan -/

/-- The minutes that fields match. -/
def CronFields.Minute (fields : CronFields) (w : ℤ) : Prop :=
  w % minuteLength = 0 ∧ fields.matching w = true

/-- The scan finds the first matching minutes from its cursor on, if it may check them all. -/
theorem scan_takes (fields : CronFields) (stop : ℤ) (checks limit : ℕ) (cursor : ℤ)
    (haligned : cursor % minuteLength = 0) (hchecks : stop < cursor + checks * minuteLength) :
    Takes fields.Minute (cursor - minuteLength) stop limit
      (scan fields stop checks limit cursor) := by
  have hnext : (cursor + minuteLength) % minuteLength = 0 := by simp [haligned]
  unfold minuteLength at hnext haligned hchecks
  induction checks generalizing limit cursor with
  | zero =>
      refine ⟨List.Pairwise.nil, fun t ht => (by cases ht), ?_⟩
      rintro t ⟨htaligned, -⟩ hafter hstop
      unfold minuteLength at htaligned hafter
      omega
  | succ checks ih =>
      cases limit with
      | zero =>
          refine ⟨List.Pairwise.nil, fun t ht => (by cases ht), ?_⟩
          intro t _ _ _
          exact .inr ⟨rfl, fun u hu => by cases hu⟩
      | succ limit =>
          have hrest := fun limit => ih limit (cursor + 60000000) hnext (by omega) (by omega)
          unfold scan
          by_cases hstop : cursor ≤ stop
          · rw [if_pos hstop]
            by_cases hmatch : fields.matching cursor = true
            · rw [if_pos hmatch]
              have hrest := hrest limit
              unfold minuteLength at hrest ⊢
              constructor
              · rw [List.pairwise_cons]
                refine ⟨?_, hrest.sorted⟩
                intro t ht
                have hafter := (hrest.mem t ht).2.1
                omega
              · intro t ht
                rcases List.mem_cons.mp ht with rfl | ht
                · exact ⟨⟨haligned, hmatch⟩, by omega, hstop⟩
                · rcases hrest.mem t ht with ⟨hdue, hafter, hle⟩
                  exact ⟨hdue, by omega, hle⟩
              · intro t hdue hafter hle
                by_cases ht : t = cursor
                · exact .inl (ht ▸ List.mem_cons_self)
                · have htaligned := hdue.1
                  unfold minuteLength at htaligned
                  rcases hrest.complete t hdue (by omega) hle with hmem | ⟨hlength, hall⟩
                  · exact .inl (List.mem_cons_of_mem _ hmem)
                  · right
                    refine ⟨by rw [List.length_cons, hlength], ?_⟩
                    intro u hu
                    rcases List.mem_cons.mp hu with rfl | hu
                    · omega
                    · exact hall u hu
            · rw [if_neg hmatch]
              have hrest := hrest (limit + 1)
              unfold minuteLength at hrest ⊢
              refine ⟨hrest.sorted, ?_, ?_⟩
              · intro t ht
                rcases hrest.mem t ht with ⟨hdue, hafter, hle⟩
                exact ⟨hdue, by omega, hle⟩
              · intro t hdue hafter hle
                have htaligned := hdue.1
                unfold minuteLength at htaligned
                have hne : t ≠ cursor := by
                  rintro rfl
                  exact hmatch hdue.2
                exact hrest.complete t hdue (by omega) hle
          · rw [if_neg hstop]
            refine ⟨List.Pairwise.nil, fun t ht => (by cases ht), ?_⟩
            rintro t ⟨htaligned, -⟩ hafter hle
            unfold minuteLength at htaligned hafter
            omega

/-! ## Clocks that pass each matching minute once -/

section Due

variable (env : Env) (trigger timezoneName : String)

/-- The readings that the trigger matches. -/
def Env.matching (w : ℤ) : Prop :=
  match env.croniter trigger with
  | some croniter => croniter.matching w = true
  | none => ∃ fields, readTrigger trigger = some fields ∧ fields.Minute w

/-- The instants at which a cron has to fire. -/
def Env.Due (t : ℤ) : Prop :=
  env.matching trigger ((env.zone timezoneName).wall t)

/-- From the watermark to now, the clock stands to a matching reading as the time stands to the
instant of that reading. -/
def PassesOnce (mark now : ℤ) : Prop :=
  ∀ w, env.matching trigger w → ∀ n, mark ≤ n → n ≤ now →
    (w < (env.zone timezoneName).wall n ↔ (env.zone timezoneName).utc w < n) ∧
      (w = (env.zone timezoneName).wall n ↔ (env.zone timezoneName).utc w = n)

/-- Croniter gives the due times after the watermark in their order until one is past now, each as
the first occurrence of its reading. -/
structure Croniter.Serves (croniter : Croniter) (mark now : ℤ) : Prop where
  tick : ∀ k tick, croniter.next timezoneName mark k = some tick →
    croniter.matching tick.wall = true ∧ mark < tick.instant ∧
      tick.instant = (env.zone timezoneName).utc tick.wall
  increasing : ∀ j k earlier later, croniter.next timezoneName mark j = some earlier →
    croniter.next timezoneName mark k = some later → j < k → earlier.instant < later.instant
  complete : ∀ k tick t, croniter.next timezoneName mark k = some tick →
    env.Due trigger timezoneName t → mark < t → t < tick.instant →
    ∃ j < k, ∃ other, croniter.next timezoneName mark j = some other ∧ other.instant = t
  goesOn : ∀ k, (∀ j < k, ∃ tick, croniter.next timezoneName mark j = some tick ∧
    tick.instant ≤ now) → (croniter.next timezoneName mark k).isSome

/-- A check of a cron between its watermark and now is regular: the clock passes each matching
minute once; the scan reaches now, or croniter serves. -/
structure Regular (mark now : ℤ) : Prop where
  passes : PassesOnce env trigger timezoneName mark now
  scans : env.croniter trigger = none →
    (env.zone timezoneName).wall now - (env.zone timezoneName).wall mark ≤
      scanBound * minuteLength
  serves : ∀ croniter, env.croniter trigger = some croniter →
    croniter.Serves env trigger timezoneName mark now

variable {env trigger timezoneName} {mark now : ℤ}

/-- A matching reading at most the reading of an instant is that of an instant before it. -/
theorem PassesOnce.le_iff (h : PassesOnce env trigger timezoneName mark now) {w : ℤ}
    (hw : env.matching trigger w) {n : ℤ} (hmark : mark ≤ n) (hnow : n ≤ now) :
    w ≤ (env.zone timezoneName).wall n ↔ (env.zone timezoneName).utc w ≤ n := by
  rcases h w hw n hmark hnow with ⟨hlt, heq⟩
  rw [le_iff_lt_or_eq, le_iff_lt_or_eq, hlt, heq]

/-- A due instant is the one of its reading. -/
theorem PassesOnce.utc_wall (h : PassesOnce env trigger timezoneName mark now) {t : ℤ}
    (hdue : env.Due trigger timezoneName t) (hmark : mark ≤ t) (hnow : t ≤ now) :
    (env.zone timezoneName).utc ((env.zone timezoneName).wall t) = t :=
  (h _ hdue t hmark hnow).2.mp rfl

/-- A matching reading whose instant is in the span is the reading at that instant. -/
theorem PassesOnce.wall_utc (h : PassesOnce env trigger timezoneName mark now) {w : ℤ}
    (hw : env.matching trigger w) (hmark : mark ≤ (env.zone timezoneName).utc w)
    (hnow : (env.zone timezoneName).utc w ≤ now) :
    (env.zone timezoneName).wall ((env.zone timezoneName).utc w) = w :=
  ((h w hw _ hmark hnow).2.mpr rfl).symm

/-- The first matching readings of a span, in its zone, are the first due instants. -/
theorem PassesOnce.takes_map (h : PassesOnce env trigger timezoneName mark now)
    (hle : mark ≤ now) {limit : ℕ} {readings : List ℤ}
    (hreadings : Takes (env.matching trigger) ((env.zone timezoneName).wall mark)
      ((env.zone timezoneName).wall now) limit readings) :
    Takes (env.Due trigger timezoneName) mark now limit
      (readings.map (env.zone timezoneName).utc) := by
  have hspan : ∀ w ∈ readings, env.matching trigger w ∧
      mark < (env.zone timezoneName).utc w ∧ (env.zone timezoneName).utc w ≤ now := by
    intro w hw
    rcases hreadings.mem w hw with ⟨hmatch, hafter, hbefore⟩
    refine ⟨hmatch, ?_, (h.le_iff hmatch hle le_rfl).mp hbefore⟩
    rw [← not_le, ← h.le_iff hmatch le_rfl hle]
    exact not_le.mpr hafter
  constructor
  · rw [List.pairwise_map]
    apply List.Pairwise.imp_of_mem _ hreadings.sorted
    intro v w hv hw hlt
    rcases hspan w hw with ⟨hmatch, hmark, hnow⟩
    have hreading := h.wall_utc hmatch hmark.le hnow
    exact (h v (hspan v hv).1 _ hmark.le hnow).1.mp (by rw [hreading]; exact hlt)
  · intro t ht
    rcases List.mem_map.mp ht with ⟨w, hw, rfl⟩
    rcases hspan w hw with ⟨hmatch, hmark, hnow⟩
    refine ⟨?_, hmark, hnow⟩
    unfold Env.Due
    rw [h.wall_utc hmatch hmark.le hnow]
    exact hmatch
  · intro t hdue hmark hnow
    have hback := h.utc_wall hdue hmark.le hnow
    have hafter : (env.zone timezoneName).wall mark < (env.zone timezoneName).wall t := by
      rw [← not_le, h.le_iff hdue le_rfl hle, hback]
      exact not_le.mpr hmark
    have hbefore : (env.zone timezoneName).wall t ≤ (env.zone timezoneName).wall now := by
      rw [h.le_iff hdue hle le_rfl, hback]
      exact hnow
    rcases hreadings.complete _ hdue hafter hbefore with hmem | ⟨hlength, hall⟩
    · exact .inl (List.mem_map.mpr ⟨_, hmem, hback⟩)
    · right
      refine ⟨by rw [List.length_map, hlength], ?_⟩
      intro u hu
      rcases List.mem_map.mp hu with ⟨w, hw, rfl⟩
      exact (h w (hspan w hw).1 t hmark.le hnow).1.mp (hall w hw)

/-- The scan of a span finds the first matching readings. -/
theorem fallbackFireTimes_takes (hnone : env.croniter trigger = none) {start stop : ℤ}
    (hbound : stop - start ≤ scanBound * minuteLength) (limit : ℕ) :
    Takes (env.matching trigger) start stop limit
      (fallbackFireTimes trigger start stop limit) := by
  unfold fallbackFireTimes
  have hmatching : ∀ w, env.matching trigger w ↔
      ∃ fields, readTrigger trigger = some fields ∧ fields.Minute w := by
    intro w
    unfold Env.matching
    rw [hnone]
  cases htrigger : readTrigger trigger with
  | none =>
      refine ⟨List.Pairwise.nil, fun t ht => (by cases ht), ?_⟩
      intro t hdue
      rcases (hmatching t).mp hdue with ⟨fields, hfields, _⟩
      rw [htrigger] at hfields
      cases hfields
  | some fields =>
      have hiff : ∀ w, env.matching trigger w ↔ fields.Minute w := by
        intro w
        rw [hmatching, htrigger]
        simp
      have hscan := scan_takes fields stop scanBound limit (floorMinute start + minuteLength)
        (by unfold floorMinute minuteLength; omega)
        (by unfold floorMinute scanBound minuteLength at *; omega)
      dsimp only
      refine ⟨hscan.sorted, ?_, ?_⟩
      · intro w hw
        rcases hscan.mem w hw with ⟨hdue, hafter, hstop⟩
        refine ⟨(hiff w).mpr hdue, ?_, hstop⟩
        have haligned := hdue.1
        unfold floorMinute minuteLength at *
        omega
      · intro w hdue hafter hstop
        apply hscan.complete w ((hiff w).mp hdue) _ hstop
        unfold floorMinute minuteLength
        omega

/-- What the loop over croniter takes: the ticks from its place on, up to now or to the limit. -/
theorem takeTicks_eq {next : ℕ → Option Tick} {nowLocal : ℤ} (limit k : ℕ)
    (hgoesOn : ∀ i, k ≤ i → (∀ j, k ≤ j → j < i → ∃ tick, next j = some tick ∧
      tick.wall ≤ nowLocal) → (next i).isSome) :
    ∃ n ≤ limit, ∃ fires, takeTicks next nowLocal limit k = some fires ∧
      (fires.length = n ∧ ∀ i < n, ∃ tick, next (k + i) = some tick ∧
        tick.wall ≤ nowLocal ∧ fires[i]? = some tick.instant) ∧
      (n = limit ∨ ∃ tick, next (k + n) = some tick ∧ nowLocal < tick.wall) := by
  induction limit generalizing k with
  | zero => exact ⟨0, le_rfl, [], rfl, ⟨rfl, fun i hi => absurd hi (Nat.not_lt_zero i)⟩, .inl rfl⟩
  | succ limit ih =>
      rcases Option.isSome_iff_exists.mp (hgoesOn k le_rfl
        (fun j hj hlt => absurd hlt (not_lt.mpr hj))) with ⟨tick, htick⟩
      by_cases hpast : nowLocal < tick.wall
      · refine ⟨0, Nat.zero_le _, [], ?_, ⟨rfl, fun i hi => absurd hi (Nat.not_lt_zero i)⟩,
          .inr ⟨tick, htick, hpast⟩⟩
        unfold takeTicks
        rw [htick]
        exact if_pos hpast
      · rcases ih (k + 1) (by
          intro i hi hall
          apply hgoesOn i (by omega)
          intro j hj hlt
          by_cases hjk : j = k
          · exact ⟨tick, hjk ▸ htick, not_lt.mp hpast⟩
          · exact hall j (by omega) hlt) with
          ⟨n, hn, fires, hfires, ⟨hlength, hget⟩, hend⟩
        refine ⟨n + 1, by omega, tick.instant :: fires, ?_,
          ⟨by rw [List.length_cons, hlength], ?_⟩, ?_⟩
        · unfold takeTicks
          rw [htick]
          dsimp only
          rw [if_neg hpast, hfires]
          rfl
        · intro i hi
          cases i with
          | zero => exact ⟨tick, htick, not_lt.mp hpast, rfl⟩
          | succ i =>
              rcases hget i (by omega) with ⟨other, hother, hbefore, hentry⟩
              exact ⟨other, by rw [show k + (i + 1) = k + 1 + i by omega]; exact hother, hbefore,
                hentry⟩
        · rcases hend with hlimit | ⟨other, hother, hafter⟩
          · exact .inl (by omega)
          · exact .inr ⟨other, by rw [show k + (n + 1) = k + 1 + n by omega]; exact hother,
              hafter⟩

/-- What croniter gives is the first of what is due. -/
theorem Regular.takes_ticks (h : Regular env trigger timezoneName mark now) (hle : mark ≤ now)
    {croniter : Croniter} (hcroniter : env.croniter trigger = some croniter) (limit : ℕ) :
    ∃ fires, takeTicks (croniter.next timezoneName mark) ((env.zone timezoneName).wall now)
      limit 0 = some fires ∧ Takes (env.Due trigger timezoneName) mark now limit fires := by
  have hserves := h.serves croniter hcroniter
  have hmatching : ∀ w, env.matching trigger w ↔ croniter.matching w = true := by
    intro w
    unfold Env.matching
    rw [hcroniter]
  have hbefore : ∀ k tick, croniter.next timezoneName mark k = some tick →
      (tick.wall ≤ (env.zone timezoneName).wall now ↔ tick.instant ≤ now) := by
    intro k tick htick
    rcases hserves.tick k tick htick with ⟨hmatch, _, hinstant⟩
    rw [h.passes.le_iff ((hmatching _).mpr hmatch) hle le_rfl, hinstant]
  have hgoesOn : ∀ i, 0 ≤ i → (∀ j, 0 ≤ j → j < i → ∃ tick,
      croniter.next timezoneName mark j = some tick ∧
        tick.wall ≤ (env.zone timezoneName).wall now) →
      (croniter.next timezoneName mark i).isSome := by
    intro i _ hall
    apply hserves.goesOn i
    intro j hj
    rcases hall j (Nat.zero_le j) hj with ⟨tick, htick, hwall⟩
    exact ⟨tick, htick, (hbefore j tick htick).mp hwall⟩
  rcases takeTicks_eq limit 0 hgoesOn with ⟨n, _, fires, hfires, ⟨hlength, hget⟩, hend⟩
  simp only [Nat.zero_add] at hget hend
  refine ⟨fires, hfires, ?_, ?_, ?_⟩
  · rw [List.pairwise_iff_getElem]
    intro i j hi hj hlt
    rcases hget i (by omega) with ⟨earlier, hearlier, _, hi'⟩
    rcases hget j (by omega) with ⟨later, hlater, _, hj'⟩
    rw [List.getElem?_eq_getElem hi] at hi'
    rw [List.getElem?_eq_getElem hj] at hj'
    rw [Option.some.inj hi', Option.some.inj hj']
    exact hserves.increasing i j earlier later hearlier hlater hlt
  · intro t ht
    rcases List.mem_iff_getElem.mp ht with ⟨i, hi, hti⟩
    rcases hget i (by omega) with ⟨tick, htick, hwall, hi'⟩
    rw [List.getElem?_eq_getElem hi, hti] at hi'
    rcases hserves.tick i tick htick with ⟨hmatch, hmark, hinstant⟩
    have hnow := (hbefore i tick htick).mp hwall
    rw [Option.some.inj hi']
    refine ⟨?_, hmark, hnow⟩
    unfold Env.Due
    rw [hinstant] at hmark hnow ⊢
    rw [h.passes.wall_utc ((hmatching _).mpr hmatch) hmark.le hnow]
    exact (hmatching _).mpr hmatch
  · intro t hdue hmark hnow
    -- A due time before a tick is an earlier tick, and is taken.
    have hearlier : ∀ k tick, croniter.next timezoneName mark k = some tick → k ≤ n →
        t < tick.instant → t ∈ fires := by
      intro k tick htick hk hlt
      rcases hserves.complete k tick t htick hdue hmark hlt with ⟨j, hj, other, hother, heq⟩
      rcases hget j (by omega) with ⟨taken, htaken, _, hentry⟩
      rcases Option.some.inj (htaken.symm.trans hother)
      rw [heq] at hentry
      exact List.mem_of_getElem? hentry
    rcases hend with hlimit | ⟨tick, htick, hafter⟩
    · by_cases hmem : t ∈ fires
      · exact .inl hmem
      · right
        refine ⟨by omega, ?_⟩
        intro u hu
        rcases List.mem_iff_getElem.mp hu with ⟨i, hi, hui⟩
        rcases hget i (by omega) with ⟨tick, htick, _, hi'⟩
        rw [List.getElem?_eq_getElem hi, hui] at hi'
        rcases lt_trichotomy u t with hlt | heq | hgt
        · exact hlt
        · exact absurd (heq ▸ hu) hmem
        · exact absurd (hearlier i tick htick (by omega) (Option.some.inj hi' ▸ hgt)) hmem
    · left
      apply hearlier n tick htick le_rfl
      have hlate : now < tick.instant := by
        rw [← not_le, ← hbefore n tick htick]
        exact not_le.mpr hafter
      omega

/-- The fire times of a regular check are the first due times. -/
theorem fireTimesBetween_takes (h : Regular env trigger timezoneName mark now)
    (hle : mark ≤ now) (limit : ℕ) :
    Takes (env.Due trigger timezoneName) mark now limit
      (fireTimesBetween env trigger mark now timezoneName limit) := by
  unfold fireTimesBetween
  dsimp only
  by_cases hstill : (env.zone timezoneName).wall now ≤ (env.zone timezoneName).wall mark
  · rw [if_pos hstill]
    refine ⟨List.Pairwise.nil, fun t ht => (by cases ht), ?_⟩
    intro t hdue hmark hnow
    have hback := h.passes.utc_wall hdue hmark.le hnow
    have hbefore := (h.passes.le_iff hdue hle le_rfl).mpr (hback.le.trans hnow)
    have hreached := (h.passes.le_iff hdue le_rfl hle).mp (hbefore.trans hstill)
    rw [hback] at hreached
    exact absurd hmark (not_lt.mpr hreached)
  · rw [if_neg hstill]
    cases hcroniter : env.croniter trigger with
    | none => exact h.passes.takes_map hle (fallbackFireTimes_takes hcroniter (h.scans hcroniter) limit)
    | some croniter =>
        rcases h.takes_ticks hle hcroniter limit with ⟨fires, hfires, htakes⟩
        rw [Option.bind_some, hfires]
        exact htakes

end Due

end Cron
end Stemcell
