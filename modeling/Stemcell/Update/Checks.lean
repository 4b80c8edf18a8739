import Mathlib.Algebra.Order.Ring.Unbundled.Rat
import Mathlib.Algebra.Order.Field.Rat
import Mathlib.Tactic.Linarith
import Stemcell.Interface.Json
import Stemcell.Lib.Transition

/-!
# Checks for a system update

The main loop checks for a newer release periodically, and the owner can force a check.  Both keep
the time of the last check in one file and do nothing when it is less than an hour ago; a forced
check gets past that by reading the clock an hour ahead.

Main results:

- Definition `checkSystemUpdate`: one check.
- Theorem `check_law_iff`: in a run from a fresh state, no forced check is throttled and no periodic
  one skips a fetch that is due exactly if, while the last fetch was a forced one, forced checks
  come an hour after it or later and periodic ones within the hour or two hours after it or later.
- Theorem `second_check_throttled`: two forced checks in one hour, and a periodic one after it.

Current gaps:

- The redacted text of an exception is a parameter of the step.
- Writes of the state file that fail are left out.
-/

namespace Stemcell
namespace Update

open Interface (strip)
open Lib

/-! ## One check -/

def updateCheckIntervalSeconds : ℚ :=
  60 * 60

/-- One number of a version: no leading zeros, and three digits at most. -/
def versionPart (text : List Char) : Option ℕ :=
  if text = ['0'] then some 0
  else if text ≠ [] ∧ text.length ≤ 3 ∧ text.head? ≠ some '0' ∧
      text.all fun c => '0' ≤ c && c ≤ '9' then
    some (text.foldl (fun number c => number * 10 + (c.toNat - '0'.toNat)) 0)
  else none

/-- `_stable_version`. -/
def stableVersion (value : String) (allowLegacyTwoPart : Bool) : Option (ℕ × ℕ × ℕ) :=
  match value.toList.splitOn '.' with
  | [major, minor] =>
      if allowLegacyTwoPart then do
        let major ← versionPart major
        let minor ← versionPart minor
        return (major, minor, 0)
      else none
  | [major, minor, patch] => do
      let major ← versionPart major
      let minor ← versionPart minor
      let patch ← versionPart patch
      return (major, minor, patch)
  | _ => none

/-- `a > b` on versions. -/
def versionAfter (a b : ℕ × ℕ × ℕ) : Bool :=
  decide (b.1 < a.1) || decide (a.1 = b.1) &&
    (decide (b.2.1 < a.2.1) || decide (a.2.1 = b.2.1) && decide (b.2.2 < a.2.2))

/-- The state file. -/
structure UpdateState where
  lastCheckedAt : ℚ
  localVersion : String
  latestSeenVersion : String
  updateAvailable : Bool
  lastError : String
  lastNotifiedVersion : String

/-- What is read where there is no state file. -/
def UpdateState.fresh : UpdateState where
  lastCheckedAt := 0
  localVersion := ""
  latestSeenVersion := ""
  updateAvailable := false
  lastError := ""
  lastNotifiedVersion := ""

/-- How the fetch of the latest version ends. -/
inductive Fetched
  | raises (safeError : String)
  | nothing
  | latest (version : String)

inductive UpdateStatus
  | throttled
  | error
  | unpublished
  | available
  | upToDate
deriving DecidableEq

/-- What a check returns. -/
structure CheckResult where
  status : UpdateStatus
  localVersion : String
  latestVersion : String
  updateAvailable : Bool
  error : String

/-- Whether the release that was found is a newer one. -/
def updateAvailable (localVersion latestVersion : String) : Bool :=
  match stableVersion localVersion true, stableVersion latestVersion false with
  | some localParts, some latestParts => versionAfter latestParts localParts
  | _, _ => false

/-- The end of a check that found a release: it is announced once. -/
def recordLatest (state : UpdateState) (localVersion latestVersion : String) (available : Bool) :
    UpdateState × CheckResult :=
  let notified :=
    if available then
      if state.lastNotifiedVersion = latestVersion then state.lastNotifiedVersion
      else latestVersion
    else ""
  ({ lastCheckedAt := state.lastCheckedAt
     localVersion := localVersion
     latestSeenVersion := latestVersion
     updateAvailable := available
     lastError := ""
     lastNotifiedVersion := notified },
    { status := if available then .available else .upToDate
      localVersion := localVersion
      latestVersion := latestVersion
      updateAvailable := available
      error := "" })

/-- `_check_system_update`. -/
def checkSystemUpdate (state : UpdateState) (now : ℚ) (fetched : Fetched) (localVersion : String) :
    UpdateState × CheckResult :=
  if now - state.lastCheckedAt < updateCheckIntervalSeconds then
    (state,
      { status := .throttled
        localVersion := state.localVersion
        latestVersion := state.latestSeenVersion
        updateAvailable := state.updateAvailable
        error := "" })
  else
    let state := { state with lastCheckedAt := now }
    match fetched with
    | .raises safeError =>
        ({ state with lastError := safeError },
          { status := .error, localVersion := localVersion, latestVersion := ""
            updateAvailable := false, error := safeError })
    | .nothing =>
        ({ state with
            localVersion := localVersion
            latestSeenVersion := ""
            updateAvailable := false
            lastError := "" },
          { status := .unpublished, localVersion := localVersion, latestVersion := ""
            updateAvailable := false, error := "" })
    | .latest version =>
        recordLatest state localVersion (strip version)
          (updateAvailable localVersion (strip version))

/-- The time that a check reads: `trigger_system_update_check` shifts the clock. -/
def checkTime (forced : Bool) (now : ℚ) : ℚ :=
  if forced then now + updateCheckIntervalSeconds else now

/-! ## Runs -/

/-- A fetch that was started. -/
structure FetchStart where
  forced : Bool
  time : ℚ
deriving DecidableEq

/-- A check that was made: its kind, the clock, the last fetch before it, and its status. -/
structure CheckRecord where
  forced : Bool
  time : ℚ
  before : Option FetchStart
  status : UpdateStatus

/-- The state file, the clock, the last fetch and the checks made. -/
structure CheckWorld where
  state : UpdateState
  clock : ℚ
  last : Option FetchStart
  log : List CheckRecord

def CheckWorld.initial : CheckWorld where
  state := .fresh
  clock := 0
  last := none
  log := []

/-- A check at a time of the clock, with what it fetches and the version it finds installed. -/
structure CheckStep where
  forced : Bool
  now : ℚ
  fetched : Fetched
  localVersion : String

def CheckWorld.next (w : CheckWorld) (e : CheckStep) : Option CheckWorld :=
  if w.clock ≤ e.now then
    let result := checkSystemUpdate w.state (checkTime e.forced e.now) e.fetched e.localVersion
    some
      { state := result.1
        clock := e.now
        last := if result.2.status = .throttled then w.last else some ⟨e.forced, e.now⟩
        log := w.log ++ [⟨e.forced, e.now, w.last, result.2.status⟩] }
  else none

def checkSystem : TransitionSystem CheckWorld CheckStep where
  init w := w = .initial
  step w e w' := w.next e = some w'

/-! ## The law and its condition -/

/-- A forced check is not throttled, and a periodic one fetches an hour after the last fetch. -/
def CheckRecord.Due (r : CheckRecord) : Prop :=
  if r.forced then r.status ≠ .throttled
  else ∀ last, r.before = some last → updateCheckIntervalSeconds ≤ r.time - last.time →
    r.status ≠ .throttled

def CheckLaw (w : CheckWorld) : Prop :=
  ∀ r ∈ w.log, r.Due

/-- The condition on a check: after a forced fetch, forced checks come an hour later at least, and
periodic ones within the hour or two hours later at least. -/
def NotShadowed (w : CheckWorld) (e : CheckStep) : Prop :=
  ∀ last, w.last = some last → last.forced = true →
    if e.forced then last.time + updateCheckIntervalSeconds ≤ e.now
    else e.now < last.time + updateCheckIntervalSeconds ∨
      last.time + 2 * updateCheckIntervalSeconds ≤ e.now

/-- What the state file knows: the time that the last fetch took for the time. -/
structure CheckInv (w : CheckWorld) : Prop where
  clock : 0 ≤ w.clock
  checked : w.state.lastCheckedAt =
    match w.last with
    | none => 0
    | some last => checkTime last.forced last.time
  past : ∀ last, w.last = some last → last.time ≤ w.clock

section Runs

variable {w w' : CheckWorld} {e : CheckStep} {es : List CheckStep}

theorem interval_pos : 0 < updateCheckIntervalSeconds := by
  unfold updateCheckIntervalSeconds
  norm_num

/-- A check is throttled exactly if the time it reads is less than an hour after the stored one. -/
theorem checkSystemUpdate_throttled (state : UpdateState) (now : ℚ) (fetched : Fetched)
    (localVersion : String) :
    ((checkSystemUpdate state now fetched localVersion).2.status = .throttled ↔
      now - state.lastCheckedAt < updateCheckIntervalSeconds) ∧
    (checkSystemUpdate state now fetched localVersion).1.lastCheckedAt =
      if now - state.lastCheckedAt < updateCheckIntervalSeconds then state.lastCheckedAt
      else now := by
  unfold checkSystemUpdate
  by_cases hearly : now - state.lastCheckedAt < updateCheckIntervalSeconds
  · rw [if_pos hearly, if_pos hearly]
    exact ⟨⟨fun _ => hearly, fun _ => rfl⟩, rfl⟩
  · rw [if_neg hearly, if_neg hearly]
    constructor
    · constructor
      · intro hstatus
        cases fetched with
        | raises safeError => cases hstatus
        | nothing => cases hstatus
        | latest version =>
            dsimp only [recordLatest] at hstatus
            split_ifs at hstatus
      · intro hnow
        exact absurd hnow hearly
    · cases fetched <;> rfl

/-- What a step does: the clock moves on, and the record has the status of the check. -/
theorem next_cases (h : w.next e = some w') :
    w.clock ≤ e.now ∧ ∃ status,
      (status = .throttled ↔
        checkTime e.forced e.now - w.state.lastCheckedAt < updateCheckIntervalSeconds) ∧
      w'.log = w.log ++ [⟨e.forced, e.now, w.last, status⟩] ∧ w'.clock = e.now ∧
      (w'.last = if status = .throttled then w.last else some ⟨e.forced, e.now⟩) ∧
      (w'.state.lastCheckedAt = if status = .throttled then w.state.lastCheckedAt
        else checkTime e.forced e.now) := by
  unfold CheckWorld.next at h
  by_cases hclock : w.clock ≤ e.now
  swap
  · rw [if_neg hclock] at h
    cases h
  rw [if_pos hclock, Option.some.injEq] at h
  subst h
  rcases checkSystemUpdate_throttled w.state (checkTime e.forced e.now) e.fetched e.localVersion with
    ⟨hthrottled, hchecked⟩
  refine ⟨hclock, _, hthrottled, rfl, rfl, rfl, ?_⟩
  dsimp only
  rw [hchecked]
  by_cases hearly :
      checkTime e.forced e.now - w.state.lastCheckedAt < updateCheckIntervalSeconds
  · rw [if_pos hearly, if_pos (hthrottled.mpr hearly)]
  · rw [if_neg hearly, if_neg (fun hstatus => hearly (hthrottled.mp hstatus))]

/-- Every step keeps what the state file knows. -/
theorem CheckInv.step (h : CheckInv w) (hstep : w.next e = some w') : CheckInv w' := by
  rcases next_cases hstep with ⟨hclock, status, -, -, hnow, hlast, hchecked⟩
  constructor
  · rw [hnow]
    exact h.clock.trans hclock
  · rw [hchecked, hlast]
    by_cases hthrottled : status = .throttled
    · rw [if_pos hthrottled, if_pos hthrottled]
      exact h.checked
    · rw [if_neg hthrottled, if_neg hthrottled]
  · intro last hsome
    rw [hnow]
    rw [hlast] at hsome
    by_cases hthrottled : status = .throttled
    · rw [if_pos hthrottled] at hsome
      exact (h.past last hsome).trans hclock
    · rw [if_neg hthrottled, Option.some.injEq] at hsome
      rw [← hsome]

/-- The record of a check is as the law wants it exactly if the last forced fetch does not stand in
its way. -/
theorem due_iff (h : CheckInv w) (hclock : w.clock ≤ e.now) {status : UpdateStatus}
    (hstatus : status = .throttled ↔
      checkTime e.forced e.now - w.state.lastCheckedAt < updateCheckIntervalSeconds) :
    CheckRecord.Due ⟨e.forced, e.now, w.last, status⟩ ↔ NotShadowed w e := by
  have hpos := interval_pos
  have hzero := h.clock
  have hchecked := h.checked
  unfold CheckRecord.Due NotShadowed
  dsimp only
  rw [ne_eq, hstatus, not_lt]
  cases hlast : w.last with
  | none =>
      rw [hlast] at hchecked
      dsimp only at hchecked
      rw [hchecked]
      cases hforced : e.forced with
      | true =>
          rw [if_pos rfl, checkTime, if_pos rfl]
          constructor
          · intro _ last hnone
            cases hnone
          · intro _
            linarith
      | false =>
          rw [if_neg Bool.false_ne_true]
          constructor
          · intro _ last hnone
            cases hnone
          · intro _ last hnone
            cases hnone
  | some last =>
      rw [hlast] at hchecked
      dsimp only at hchecked
      have hpast := h.past last hlast
      have hsingle (P : FetchStart → Prop) :
          (∀ other, some last = some other → P other) ↔ P last := by
        constructor
        · intro hall
          exact hall last rfl
        · rintro hone other ⟨⟩
          exact hone
      rw [hchecked]
      unfold checkTime
      cases hforced : e.forced <;> cases hbefore : last.forced
      · simp only [Bool.false_eq_true, if_false, Option.some.injEq, forall_eq']
        simp only [hbefore, Bool.false_eq_true, false_implies, iff_true]
        intro hdue
        exact hdue
      · simp only [Bool.false_eq_true, if_false, if_true, Option.some.injEq, forall_eq', hbefore,
          forall_const]
        constructor
        · intro hdue
          by_cases hsoon : e.now < last.time + updateCheckIntervalSeconds
          · exact .inl hsoon
          · right
            have hlate := hdue (by linarith [not_lt.mp hsoon])
            linarith
        · rintro (hsoon | hlate) hdue
          · linarith
          · linarith
      · simp only [Bool.false_eq_true, if_false, if_true, Option.some.injEq, forall_eq', hbefore,
          false_implies, iff_true]
        linarith
      · simp only [if_true, Option.some.injEq, forall_eq', hbefore, forall_const]
        constructor
        · intro hdue
          linarith
        · intro hlate
          linarith

theorem checkInv_initial : CheckInv .initial := by
  constructor
  · exact le_refl _
  · rfl
  · intro last hlast
    cases hlast

theorem checkInv_of_reachable (h : checkSystem.Reachable w) : CheckInv w := by
  apply h.invariant
  · rintro w rfl
    exact checkInv_initial
  · intro w e w' _ hw hstep
    exact hw.step hstep

/-- While no check is shadowed, the law holds. -/
theorem law_of_notShadowed (h : (checkSystem.restrict NotShadowed).Reachable w) : CheckLaw w := by
  apply h.invariant
  · rintro w rfl r hr
    cases hr
  · intro w e w' hw hlaw hstep r hr
    rcases next_cases hstep.2 with ⟨hclock, status, hstatus, hlog, -, -, -⟩
    rw [hlog] at hr
    rcases List.mem_append.mp hr with hold | hnew
    · exact hlaw r hold
    · rw [List.mem_singleton.mp hnew]
      exact (due_iff (checkInv_of_reachable hw.of_restrict) hclock hstatus).mpr hstep.1

/-- In a run from a fresh state the law holds all along exactly if no check is shadowed by a forced
one. -/
theorem check_law_iff (hrun : checkSystem.Run .initial es w) :
    (∀ fs u, fs <+: es → checkSystem.Run .initial fs u → CheckLaw u) ↔
      (checkSystem.restrict NotShadowed).Run .initial es w := by
  refine TransitionSystem.Run.restrict_iff ?_ ?_ ?_ (.init rfl) hrun
  · intro a e b c hb hc
    rw [checkSystem] at hb hc
    exact Option.some.inj (hb.symm.trans hc)
  · intro a ha
    exact law_of_notShadowed ha
  · intro a e b ha hstep hshadowed hlaw
    rcases next_cases hstep with ⟨hclock, status, hstatus, hlog, -, -, -⟩
    apply hshadowed
    apply (due_iff (checkInv_of_reachable ha.of_restrict) hclock hstatus).mp
    apply hlaw
    rw [hlog]
    exact List.mem_append_right _ (List.mem_singleton_self _)

end Runs

/-! ## A forced check and what follows it -/

/-- A check that fetches nothing. -/
def plainCheck (forced : Bool) (now : ℚ) : CheckStep where
  forced := forced
  now := now
  fetched := .nothing
  localVersion := "1.0.0"

/-- The world after one forced check. -/
def afterForced : CheckWorld :=
  (CheckWorld.initial.next (plainCheck true 10000)).getD .initial

/-- A forced check, and a periodic one two hours later. -/
theorem check_law_two_hours :
    (∃ w, checkSystem.Run .initial [plainCheck true 10000, plainCheck false 17200] w) ∧
      ∀ fs u, fs <+: [plainCheck true 10000, plainCheck false 17200] →
        checkSystem.Run .initial fs u → CheckLaw u := by
  have hfirst : checkSystem.step .initial (plainCheck true 10000) afterForced :=
    (rfl : CheckWorld.next _ _ = some _)
  have hsecond : checkSystem.step afterForced (plainCheck false 17200) _ :=
    (rfl : CheckWorld.next _ _ = some _)
  refine ⟨⟨_, .cons hfirst (.single hsecond)⟩, ?_⟩
  apply (check_law_iff (.cons hfirst (.single hsecond))).mpr
  refine .cons ⟨?_, hfirst⟩ (.single ⟨?_, hsecond⟩)
  · intro last hnone
    cases hnone
  · intro last hlast _
    have hforced : afterForced.last = some ⟨true, 10000⟩ := by decide +kernel
    rw [hforced] at hlast
    cases hlast
    right
    decide +kernel

/-- A forced check, a second one a minute later, and the periodic one that is due after an hour: both
are throttled. -/
theorem second_check_throttled :
    ∃ w, checkSystem.Run .initial
        [plainCheck true 10000, plainCheck true 10060, plainCheck false 13600] w ∧
      w.log.map CheckRecord.status = [.unpublished, .throttled, .throttled] ∧ ¬ CheckLaw w := by
  have hplay : TransitionSystem.play CheckWorld.next .initial
      [plainCheck true 10000, plainCheck true 10060, plainCheck false 13600] = some _ := rfl
  refine ⟨_, .play (fun _ _ _ h => h) hplay, by decide +kernel, ?_⟩
  intro hlaw
  have hstatus : ∀ r : CheckRecord, r.forced = true → r.status = .throttled → ¬ r.Due := by
    intro r hforced hthrottled hdue
    rw [CheckRecord.Due, if_pos hforced] at hdue
    exact hdue hthrottled
  apply hstatus _ _ _ (hlaw _ (List.mem_cons_of_mem _ List.mem_cons_self))
  · rfl
  · decide +kernel

end Update
end Stemcell
