import Stemcell.Lib.Dict
import Stemcell.Lib.Transition
import Mathlib.Algebra.Order.Ring.Unbundled.Rat

/-!
# Checkbacks on workers

A checkback is a one-shot job that looks at a worker some minutes after it was set.  The pending
checkbacks are kept by worker.  A sweep claims a checkback in a history that is kept by job name,
runs it and removes it from the pending ones.  Nothing ever leaves the history.

Main results:

- Definition `checkCheckbacks`: one sweep.
- Theorem `checkback_returned_iff`: the first sweep after the trigger time returns a checkback, and
  no other sweep does, exactly if no checkback of the same worker fired before it was set, it is set
  for a contact, and it is still pending at that sweep.
- Theorem `second_checkback_lost`: a second checkback of one worker that is never returned.

Current gaps:

- A sweep reads the clock once for all its jobs.
- Status queries that raise are left out.
-/

namespace Stemcell
namespace Cron

open Lib

/-! ## The pending checkbacks and the history -/

/-- A pending checkback.  `serial` numbers the calls of `addCheckback`. -/
structure Checkback where
  carbonId : String
  triggerAt : ℚ
  checkbackMinutes : ℚ
  serial : ℕ
deriving DecidableEq, Repr

/-- What the history says of a job. -/
inductive CheckbackClaim
  | claimedAt (time : ℚ)
  | lastRun (time : ℚ)
deriving DecidableEq, Repr

structure CheckbackState where
  checkbacks : Dict String Checkback
  history : Dict String CheckbackClaim
  added : ℕ
  now : ℚ
deriving DecidableEq, Repr

namespace CheckbackState

def addCheckback (s : CheckbackState) (worker carbonId : String) (minutes now : ℚ) :
    CheckbackState :=
  let checkback : Checkback :=
    { carbonId, triggerAt := now + minutes * 60, checkbackMinutes := minutes, serial := s.added }
  { s with checkbacks := s.checkbacks.set worker checkback, added := s.added + 1 }

def removeCheckback (s : CheckbackState) (worker : String) : CheckbackState :=
  { s with checkbacks := s.checkbacks.pop worker }

end CheckbackState

/-! ## One sweep -/

/-- Name of the job of a worker, its key in the history. -/
def jobName (worker : String) : String :=
  "checkback_" ++ worker

/-- What a sweep tells a contact about one worker. -/
structure CheckbackPart where
  serial : ℕ
  text : String
deriving DecidableEq, Repr

/-- A sweep under way: the two files, and the parts by contact. -/
structure CheckbackSweep where
  state : CheckbackState
  results : Dict String (List CheckbackPart)

/-- `job["trigger"](last)`. -/
def Checkback.trigger (now : ℚ) (checkback : Checkback) (last : Option CheckbackClaim) : Bool :=
  last.isNone && decide (checkback.triggerAt ≤ now)

def instructionsOf (worker : String) : String :=
  "Worker '" ++ worker ++ "' checkback triggered. Here's the status. Decide if you need to " ++
    "check again (use the checkback tool) or if the worker is done."

section Source

variable (status : String → String → String)

/-- The part of a checkback that ran. -/
def partOf (worker : String) (checkback : Checkback) : CheckbackPart where
  serial := checkback.serial
  text := "Checkback '" ++ jobName worker ++ "'\nInstructions: " ++ instructionsOf worker ++
    "\nOutput: Checkback for worker '" ++ worker ++ "':\n" ++ status worker checkback.carbonId

variable (now : ℚ)

/-- The sweep at one job. -/
def checkJob (sweep : CheckbackSweep) (entry : String × Checkback) : CheckbackSweep :=
  let name := jobName entry.1
  let contactId := entry.2.carbonId
  if contactId = "" then sweep
  else if !entry.2.trigger now (sweep.state.history.get? name) then sweep
  else
    let claimed := sweep.state.history.set name (.claimedAt now)
    let parts := (sweep.results.get? contactId).getD []
    { state :=
        { sweep.state with history := claimed.set name (.lastRun now) }.removeCheckback entry.1
      results := sweep.results.set contactId (parts ++ [partOf status entry.1 entry.2]) }

def checkCheckbacks (s : CheckbackState) : CheckbackSweep :=
  s.checkbacks.entries.foldl (checkJob status now) { state := s, results := Dict.empty }

end Source

/-- The sweep returns the checkback that the call numbered `serial` added. -/
def CheckbackSweep.returns (sweep : CheckbackSweep) (serial : ℕ) : Bool :=
  sweep.results.values.any fun parts => parts.any fun part => part.serial = serial

/-! ## The system -/

inductive CheckbackEvent
  | add (worker carbonId : String) (minutes now : ℚ)
  | remove (worker : String) (now : ℚ)
  | sweep (now : ℚ)
deriving DecidableEq, Repr

namespace CheckbackEvent

def time : CheckbackEvent → ℚ
  | add _ _ _ now => now
  | remove _ now => now
  | sweep now => now

/-- The event replaces or removes the checkback of a worker. -/
def touches (worker : String) : CheckbackEvent → Bool
  | add other _ _ _ => other = worker
  | remove other _ => other = worker
  | sweep _ => false

end CheckbackEvent

section System

variable (status : String → String → String)

def nextCheckbacks (s : CheckbackState) : CheckbackEvent → CheckbackState
  | .add worker carbonId minutes now =>
      { s.addCheckback worker carbonId minutes now with now := now }
  | .remove worker now => { s.removeCheckback worker with now := now }
  | .sweep now => { (checkCheckbacks status now s).state with now := now }

/-- The event is a sweep that returns the checkback added by the call numbered `serial`. -/
def sweepReturns (serial : ℕ) (s : CheckbackState) : CheckbackEvent → Bool
  | .sweep now => (checkCheckbacks status now s).returns serial
  | _ => false

/-- Events at times that do not decrease, from empty files. -/
def checkbackSystem : TransitionSystem CheckbackState CheckbackEvent where
  init s := s.checkbacks = Dict.empty ∧ s.history = Dict.empty ∧ s.added = 0
  step s e t := s.now ≤ e.time ∧ t = nextCheckbacks status s e

end System

/-! ## What one job does -/

section Job

variable (status : String → String → String) (now : ℚ)

/-- The sweep runs the checkback of a worker that it finds. -/
def fires (history : Dict String CheckbackClaim) (entry : String × Checkback) : Prop :=
  entry.2.carbonId ≠ "" ∧ history.get? (jobName entry.1) = none ∧ entry.2.triggerAt ≤ now

theorem jobName_injective {worker other : String} (h : jobName worker = jobName other) :
    worker = other := by
  unfold jobName at h
  apply String.ext
  have hdata := congrArg String.toList h
  simpa using hdata

theorem checkJob_of_not_fires {sweep : CheckbackSweep} {entry : String × Checkback}
    (h : ¬ fires now sweep.state.history entry) : checkJob status now sweep entry = sweep := by
  unfold checkJob
  dsimp only
  by_cases hcontact : entry.2.carbonId = ""
  · rw [if_pos hcontact]
  · rw [if_neg hcontact, if_pos]
    rw [Bool.not_eq_true', Bool.eq_false_iff]
    intro htrigger
    apply h
    simp only [Checkback.trigger, Bool.and_eq_true, Option.isNone_iff_eq_none,
      decide_eq_true_eq] at htrigger
    exact ⟨hcontact, htrigger⟩

/-- What a job that fires leaves. -/
theorem checkJob_of_fires {sweep : CheckbackSweep} {entry : String × Checkback}
    (h : fires now sweep.state.history entry) :
    (checkJob status now sweep entry).state.checkbacks = sweep.state.checkbacks.pop entry.1 ∧
      (checkJob status now sweep entry).state.history =
        (sweep.state.history.set (jobName entry.1) (.claimedAt now)).set (jobName entry.1)
          (.lastRun now) ∧
      (checkJob status now sweep entry).state.added = sweep.state.added ∧
      (checkJob status now sweep entry).results = sweep.results.set entry.2.carbonId
        ((sweep.results.get? entry.2.carbonId).getD [] ++ [partOf status entry.1 entry.2]) := by
  rcases h with ⟨hcontact, hhistory, hdue⟩
  have htrigger : entry.2.trigger now (sweep.state.history.get? (jobName entry.1)) = true := by
    simp [Checkback.trigger, hhistory, hdue]
  unfold checkJob
  dsimp only
  rw [if_neg hcontact, if_neg (by simp [htrigger])]
  exact ⟨rfl, rfl, rfl, rfl⟩

theorem checkJob_added (sweep : CheckbackSweep) (entry : String × Checkback) :
    (checkJob status now sweep entry).state.added = sweep.state.added := by
  by_cases h : fires now sweep.state.history entry
  · exact (checkJob_of_fires status now h).2.2.1
  · rw [checkJob_of_not_fires status now h]

/-- The history of the other workers stays. -/
theorem checkJob_history_of_ne (sweep : CheckbackSweep) {entry : String × Checkback}
    {worker : String} (hne : entry.1 ≠ worker) :
    (checkJob status now sweep entry).state.history.get? (jobName worker) =
      sweep.state.history.get? (jobName worker) := by
  have hname : jobName entry.1 ≠ jobName worker := fun h => hne (jobName_injective h)
  by_cases h : fires now sweep.state.history entry
  · rw [(checkJob_of_fires status now h).2.1, Dict.get?_set_of_ne _ _ hname,
      Dict.get?_set_of_ne _ _ hname]
  · rw [checkJob_of_not_fires status now h]

/-- The checkbacks of the other workers stay. -/
theorem checkJob_checkbacks_of_ne (sweep : CheckbackSweep) {entry : String × Checkback}
    {worker : String} (hne : entry.1 ≠ worker) :
    (checkJob status now sweep entry).state.checkbacks.get? worker =
      sweep.state.checkbacks.get? worker := by
  by_cases h : fires now sweep.state.history entry
  · rw [(checkJob_of_fires status now h).1, Dict.get?_pop_of_ne _ hne]
  · rw [checkJob_of_not_fires status now h]

/-- What a sweep returns, by contact. -/
theorem returns_iff (sweep : CheckbackSweep) (serial : ℕ) :
    sweep.returns serial = true ↔
      ∃ contact parts, sweep.results.get? contact = some parts ∧
        ∃ part ∈ parts, part.serial = serial := by
  unfold CheckbackSweep.returns
  rw [List.any_eq_true]
  simp only [List.any_eq_true, decide_eq_true_eq, Dict.mem_values]
  constructor
  · rintro ⟨parts, ⟨contact, hget⟩, hpart⟩
    exact ⟨contact, parts, hget, hpart⟩
  · rintro ⟨contact, parts, hget, hpart⟩
    exact ⟨parts, ⟨contact, hget⟩, hpart⟩

/-- A job that fires adds its part to what the sweep returns. -/
theorem checkJob_returns_of_fires {sweep : CheckbackSweep} {entry : String × Checkback}
    (h : fires now sweep.state.history entry) (serial : ℕ) :
    (checkJob status now sweep entry).returns serial = true ↔
      sweep.returns serial = true ∨ entry.2.serial = serial := by
  rw [returns_iff, returns_iff, (checkJob_of_fires status now h).2.2.2]
  constructor
  · rintro ⟨contact, parts, hget, part, hpart, hserial⟩
    by_cases hcontact : entry.2.carbonId = contact
    · subst hcontact
      rw [Dict.get?_set_self, Option.some.injEq] at hget
      rw [← hget, List.mem_append, List.mem_singleton] at hpart
      rcases hpart with hold | hnew
      · left
        cases hparts : sweep.results.get? entry.2.carbonId with
        | none => simp [hparts] at hold
        | some old =>
            rw [hparts] at hold
            exact ⟨_, old, hparts, part, hold, hserial⟩
      · right
        rw [← hserial, hnew]
        rfl
    · rw [Dict.get?_set_of_ne _ _ hcontact] at hget
      exact .inl ⟨contact, parts, hget, part, hpart, hserial⟩
  · rintro (⟨contact, parts, hget, part, hpart, hserial⟩ | hserial)
    · by_cases hcontact : entry.2.carbonId = contact
      · subst hcontact
        refine ⟨_, _, Dict.get?_set_self _ _ _, part, ?_, hserial⟩
        rw [hget, Option.getD_some]
        exact List.mem_append_left _ hpart
      · exact ⟨contact, parts, by rw [Dict.get?_set_of_ne _ _ hcontact, hget], part, hpart,
          hserial⟩
    · refine ⟨_, _, Dict.get?_set_self _ _ _, partOf status entry.1 entry.2, ?_, hserial⟩
      exact List.mem_append_right _ List.mem_cons_self

end Job

/-! ## What a sweep does -/

section Sweep

variable (status : String → String → String) (now : ℚ)

theorem foldl_added (entries : List (String × Checkback)) (sweep : CheckbackSweep) :
    (entries.foldl (checkJob status now) sweep).state.added = sweep.state.added := by
  induction entries generalizing sweep with
  | nil => rfl
  | cons entry rest ih => rw [List.foldl_cons, ih, checkJob_added]

/-- Jobs of other workers leave a worker alone. -/
theorem foldl_of_not_mem {worker : String} {entries : List (String × Checkback)}
    (h : worker ∉ entries.map Prod.fst) (sweep : CheckbackSweep) :
    (entries.foldl (checkJob status now) sweep).state.checkbacks.get? worker =
        sweep.state.checkbacks.get? worker ∧
      (entries.foldl (checkJob status now) sweep).state.history.get? (jobName worker) =
        sweep.state.history.get? (jobName worker) := by
  induction entries generalizing sweep with
  | nil => exact ⟨rfl, rfl⟩
  | cons entry rest ih =>
      rw [List.map_cons, List.mem_cons, not_or] at h
      have hne : entry.1 ≠ worker := fun heq => h.1 heq.symm
      rcases ih h.2 (checkJob status now sweep entry) with ⟨hcheckbacks, hhistory⟩
      rw [List.foldl_cons, hcheckbacks, hhistory]
      exact ⟨checkJob_checkbacks_of_ne status now sweep hne,
        checkJob_history_of_ne status now sweep hne⟩

/-- The loop of a sweep at the one job of a worker. -/
theorem foldl_of_mem {entry : String × Checkback} {entries : List (String × Checkback)}
    (hnodup : (entries.map Prod.fst).Nodup) (hmem : entry ∈ entries) (sweep : CheckbackSweep) :
    (fires now sweep.state.history entry →
        (entries.foldl (checkJob status now) sweep).state.checkbacks.get? entry.1 = none ∧
        (entries.foldl (checkJob status now) sweep).state.history.get? (jobName entry.1) =
          some (.lastRun now)) ∧
      (¬ fires now sweep.state.history entry →
        (entries.foldl (checkJob status now) sweep).state.checkbacks.get? entry.1 =
          sweep.state.checkbacks.get? entry.1 ∧
        (entries.foldl (checkJob status now) sweep).state.history.get? (jobName entry.1) =
          sweep.state.history.get? (jobName entry.1)) := by
  induction entries generalizing sweep with
  | nil => simp at hmem
  | cons head rest ih =>
      rw [List.map_cons, List.nodup_cons] at hnodup
      rw [List.foldl_cons]
      rw [List.mem_cons] at hmem
      rcases hmem with heq | hrest
      · subst heq
        rcases foldl_of_not_mem status now hnodup.1 (checkJob status now sweep entry) with
          ⟨hcheckbacks, hhistory⟩
        rw [hcheckbacks, hhistory]
        constructor
        · intro hfires
          rcases checkJob_of_fires status now hfires with ⟨hpop, hset, -, -⟩
          rw [hpop, hset]
          simp
        · intro hfires
          rw [checkJob_of_not_fires status now hfires]
          exact ⟨rfl, rfl⟩
      · have hne : head.1 ≠ entry.1 := by
          intro heq
          exact hnodup.1 (heq ▸ List.mem_map_of_mem (f := Prod.fst) hrest)
        have hcheckbacks := checkJob_checkbacks_of_ne status now sweep hne
        have hhistory := checkJob_history_of_ne status now sweep hne
        have hfires : fires now (checkJob status now sweep head).state.history entry ↔
            fires now sweep.state.history entry := by
          unfold fires
          rw [hhistory]
        have htail := ih hnodup.2 hrest (checkJob status now sweep head)
        rw [hfires, hcheckbacks, hhistory] at htail
        exact htail

/-- The loop returns the checkbacks that fire, besides what it had. -/
theorem foldl_returns_iff {entries : List (String × Checkback)}
    (hnodup : (entries.map Prod.fst).Nodup) (sweep : CheckbackSweep) (serial : ℕ) :
    (entries.foldl (checkJob status now) sweep).returns serial = true ↔
      sweep.returns serial = true ∨
        ∃ entry ∈ entries, fires now sweep.state.history entry ∧ entry.2.serial = serial := by
  induction entries generalizing sweep with
  | nil => simp
  | cons head rest ih =>
      rw [List.map_cons, List.nodup_cons] at hnodup
      rw [List.foldl_cons, ih hnodup.2]
      have hfires : ∀ entry ∈ rest,
          (fires now (checkJob status now sweep head).state.history entry ↔
            fires now sweep.state.history entry) := by
        intro entry hentry
        have hne : head.1 ≠ entry.1 := by
          intro heq
          exact hnodup.1 (heq ▸ List.mem_map_of_mem (f := Prod.fst) hentry)
        unfold fires
        rw [checkJob_history_of_ne status now sweep hne]
      have hrest : (∃ entry ∈ rest, fires now (checkJob status now sweep head).state.history entry ∧
            entry.2.serial = serial) ↔
          ∃ entry ∈ rest, fires now sweep.state.history entry ∧ entry.2.serial = serial := by
        constructor
        · rintro ⟨entry, hentry, hf, hserial⟩
          exact ⟨entry, hentry, (hfires entry hentry).mp hf, hserial⟩
        · rintro ⟨entry, hentry, hf, hserial⟩
          exact ⟨entry, hentry, (hfires entry hentry).mpr hf, hserial⟩
      rw [hrest, List.exists_mem_cons_iff]
      by_cases hhead : fires now sweep.state.history head
      · rw [checkJob_returns_of_fires status now hhead]
        tauto
      · rw [checkJob_of_not_fires status now hhead]
        tauto

variable {status now} {s : CheckbackState} {worker : String}

theorem checkCheckbacks_added : (checkCheckbacks status now s).state.added = s.added :=
  foldl_added status now _ _

/-- A sweep that finds no checkback of a worker to run leaves that worker alone. -/
theorem checkCheckbacks_quiet
    (h : ∀ c, s.checkbacks.get? worker = some c → ¬ fires now s.history (worker, c)) :
    (checkCheckbacks status now s).state.checkbacks.get? worker = s.checkbacks.get? worker ∧
      (checkCheckbacks status now s).state.history.get? (jobName worker) =
        s.history.get? (jobName worker) := by
  cases hget : s.checkbacks.get? worker with
  | none =>
      have hnot : worker ∉ s.checkbacks.entries.map Prod.fst := by
        intro hmem
        rcases (s.checkbacks.mem_keys_iff worker).mp hmem with ⟨v, hv⟩
        rw [hget] at hv
        cases hv
      rw [← hget]
      exact foldl_of_not_mem status now hnot _
  | some c =>
      have hmem := (s.checkbacks.get?_eq_some_iff worker c).mp hget
      have hfold := (foldl_of_mem status now s.checkbacks.nodup hmem
        { state := s, results := Dict.empty }).2 (h c hget)
      rw [← hget]
      exact hfold

theorem checkCheckbacks_fires {c : Checkback} (hget : s.checkbacks.get? worker = some c)
    (h : fires now s.history (worker, c)) :
    (checkCheckbacks status now s).state.checkbacks.get? worker = none ∧
      (checkCheckbacks status now s).state.history.get? (jobName worker) = some (.lastRun now) :=
  (foldl_of_mem status now s.checkbacks.nodup
    ((s.checkbacks.get?_eq_some_iff worker c).mp hget) { state := s, results := Dict.empty }).1 h

theorem checkCheckbacks_returns_iff (serial : ℕ) :
    (checkCheckbacks status now s).returns serial = true ↔
      ∃ worker c, s.checkbacks.get? worker = some c ∧ fires now s.history (worker, c) ∧
        c.serial = serial := by
  unfold checkCheckbacks
  rw [foldl_returns_iff status now s.checkbacks.nodup]
  have hempty : (CheckbackSweep.mk s Dict.empty).returns serial = false := rfl
  rw [hempty]
  constructor
  · rintro (hfalse | ⟨⟨worker, c⟩, hmem, hfires, hserial⟩)
    · cases hfalse
    · exact ⟨worker, c, (s.checkbacks.get?_eq_some_iff worker c).mpr hmem, hfires, hserial⟩
  · rintro ⟨worker, c, hget, hfires, hserial⟩
    exact .inr ⟨(worker, c), (s.checkbacks.get?_eq_some_iff worker c).mp hget, hfires, hserial⟩

/-- A sweep brings no checkback in. -/
theorem get?_checkCheckbacks {c : Checkback}
    (h : (checkCheckbacks status now s).state.checkbacks.get? worker = some c) :
    s.checkbacks.get? worker = some c := by
  by_cases hfires : ∃ c', s.checkbacks.get? worker = some c' ∧ fires now s.history (worker, c')
  · rcases hfires with ⟨c', hget, hf⟩
    rw [(checkCheckbacks_fires hget hf).1] at h
    cases h
  · rw [(checkCheckbacks_quiet fun c' hget hf => hfires ⟨c', hget, hf⟩).1] at h
    exact h

/-- What the history knows it keeps. -/
theorem history_checkCheckbacks (h : s.history.get? (jobName worker) ≠ none) :
    (checkCheckbacks status now s).state.history.get? (jobName worker) ≠ none := by
  rw [(checkCheckbacks_quiet _).2]
  · exact h
  · intro c _ hfires
    exact h hfires.2.1

end Sweep

/-! ## Along a run -/

section Law

variable {status : String → String → String}

/-- No sweep will return the checkback of the call numbered `serial`: what is left of it is set for
no contact, or its worker has a claim. -/
def Never (serial : ℕ) (s : CheckbackState) : Prop :=
  serial < s.added ∧ ∀ worker c, s.checkbacks.get? worker = some c → c.serial = serial →
    c.carbonId = "" ∨ s.history.get? (jobName worker) ≠ none

theorem Never.step {serial : ℕ} {s t : CheckbackState} {e : CheckbackEvent}
    (hst : (checkbackSystem status).step s e t) (h : Never serial s) : Never serial t := by
  rcases h with ⟨hlt, hleft⟩
  rw [hst.2]
  cases e with
  | add worker carbonId minutes now =>
      constructor
      · exact Nat.lt_succ_of_lt hlt
      · intro other c hget hserial
        change (s.checkbacks.set worker _).get? other = some c at hget
        by_cases hworker : worker = other
        · subst hworker
          rw [Dict.get?_set_self, Option.some.injEq] at hget
          rw [← hget] at hserial
          exact absurd hserial (Nat.ne_of_gt hlt)
        · rw [Dict.get?_set_of_ne _ _ hworker] at hget
          exact hleft other c hget hserial
  | remove worker now =>
      constructor
      · exact hlt
      · intro other c hget hserial
        exact hleft other c ((Dict.get?_pop_eq_some_iff _ _ _ _).mp hget).2 hserial
  | sweep now =>
      constructor
      · exact checkCheckbacks_added.symm ▸ hlt
      · intro other c hget hserial
        rcases hleft other c (get?_checkCheckbacks hget) hserial with hcontact | hclaimed
        · exact .inl hcontact
        · exact .inr (history_checkCheckbacks hclaimed)

theorem Never.not_returned {serial : ℕ} {s : CheckbackState} (h : Never serial s)
    (e : CheckbackEvent) : sweepReturns status serial s e = false := by
  cases e with
  | add => rfl
  | remove => rfl
  | sweep now =>
      rw [Bool.eq_false_iff]
      intro hreturns
      rcases (checkCheckbacks_returns_iff serial).mp hreturns with ⟨worker, c, hget, hfires, hserial⟩
      rcases h.2 worker c hget hserial with hcontact | hclaimed
      · exact hfires.1 hcontact
      · exact hclaimed hfires.2.1

theorem Never.run {serial : ℕ} {s t : CheckbackState} {es : List CheckbackEvent}
    (hrun : (checkbackSystem status).Run s es t) (h : Never serial s) : Never serial t := by
  induction hrun with
  | nil => exact h
  | cons hst _ ih => exact ih (h.step hst)

theorem Never.occurrences {serial : ℕ} {s t : CheckbackState} {es : List CheckbackEvent}
    (hrun : (checkbackSystem status).Run s es t) (h : Never serial s) :
    TransitionSystem.occurrences (nextCheckbacks status) (sweepReturns status serial) s es = 0 := by
  induction hrun with
  | nil => rfl
  | cons hst _ ih =>
      rw [TransitionSystem.occurrences, h.not_returned, ← hst.2, ih (h.step hst)]
      rfl

/-- The checkback `c` waits for its trigger time. -/
structure Waiting (worker : String) (c : Checkback) (s : CheckbackState) : Prop where
  pending : s.checkbacks.get? worker = some c
  unclaimed : s.history.get? (jobName worker) = none
  contact : c.carbonId ≠ ""
  known : c.serial < s.added
  only : ∀ other c', s.checkbacks.get? other = some c' → c'.serial = c.serial → other = worker

/-- Events before the trigger time that leave its worker alone keep a checkback waiting. -/
theorem Waiting.step {worker : String} {c : Checkback} {s t : CheckbackState} {e : CheckbackEvent}
    (hst : (checkbackSystem status).step s e t) (htouch : e.touches worker = false)
    (hbefore : ∀ now, e = .sweep now → now < c.triggerAt) (h : Waiting worker c s) :
    Waiting worker c t := by
  rw [hst.2]
  cases e with
  | add other carbonId minutes now =>
      have hne : other ≠ worker := by simpa [CheckbackEvent.touches] using htouch
      constructor
      · change (s.checkbacks.set other _).get? worker = some c
        rw [Dict.get?_set_of_ne _ _ hne]
        exact h.pending
      · exact h.unclaimed
      · exact h.contact
      · exact Nat.lt_succ_of_lt h.known
      · intro third c' hget hserial
        change (s.checkbacks.set other _).get? third = some c' at hget
        by_cases hthird : other = third
        · subst hthird
          rw [Dict.get?_set_self, Option.some.injEq] at hget
          rw [← hget] at hserial
          exact absurd hserial (Nat.ne_of_gt h.known)
        · rw [Dict.get?_set_of_ne _ _ hthird] at hget
          exact h.only third c' hget hserial
  | remove other now =>
      have hne : other ≠ worker := by simpa [CheckbackEvent.touches] using htouch
      constructor
      · exact (Dict.get?_pop_eq_some_iff _ _ _ _).mpr ⟨hne, h.pending⟩
      · exact h.unclaimed
      · exact h.contact
      · exact h.known
      · intro third c' hget hserial
        exact h.only third c' ((Dict.get?_pop_eq_some_iff _ _ _ _).mp hget).2 hserial
  | sweep now =>
      have hquiet : ∀ c', s.checkbacks.get? worker = some c' →
          ¬ fires now s.history (worker, c') := by
        intro c' hget hfires
        rw [h.pending, Option.some.injEq] at hget
        subst hget
        exact absurd hfires.2.2 (not_le.mpr (hbefore now rfl))
      rcases (@checkCheckbacks_quiet status _ _ _ hquiet) with ⟨hcheckbacks, hhistory⟩
      constructor
      · exact hcheckbacks.trans h.pending
      · exact hhistory.trans h.unclaimed
      · exact h.contact
      · exact checkCheckbacks_added.symm ▸ h.known
      · intro third c' hget hserial
        exact h.only third c' (get?_checkCheckbacks hget) hserial

/-- A waiting checkback is returned by a sweep if and only if its trigger time has come. -/
theorem Waiting.returned_iff {worker : String} {c : Checkback} {s : CheckbackState}
    (h : Waiting worker c s) (now : ℚ) :
    sweepReturns status c.serial s (.sweep now) = true ↔ c.triggerAt ≤ now := by
  constructor
  · intro hreturns
    rcases (checkCheckbacks_returns_iff c.serial).mp hreturns with ⟨other, c', hget, hfires, hserial⟩
    have hother := h.only other c' hget hserial
    subst hother
    rw [h.pending, Option.some.injEq] at hget
    subst hget
    exact hfires.2.2
  · intro hdue
    exact (checkCheckbacks_returns_iff c.serial).mpr
      ⟨worker, c, h.pending, ⟨h.contact, h.unclaimed, hdue⟩, rfl⟩

/-- Until its trigger time no sweep returns a waiting checkback. -/
theorem Waiting.run {worker : String} {c : Checkback} {s t : CheckbackState}
    {es : List CheckbackEvent} (hrun : (checkbackSystem status).Run s es t)
    (htouch : ∀ e ∈ es, e.touches worker = false)
    (hbefore : ∀ now, .sweep now ∈ es → now < c.triggerAt) (h : Waiting worker c s) :
    Waiting worker c t ∧
      TransitionSystem.occurrences (nextCheckbacks status) (sweepReturns status c.serial) s es
        = 0 := by
  induction hrun with
  | nil => exact ⟨h, rfl⟩
  | @cons a b _ e es hst _ ih =>
      have hnext : Waiting worker c b := by
        apply h.step hst (htouch e List.mem_cons_self)
        intro now he
        exact hbefore now (he ▸ List.mem_cons_self)
      rcases ih (fun f hf => htouch f (List.mem_cons_of_mem _ hf))
        (fun now hnow => hbefore now (List.mem_cons_of_mem _ hnow)) hnext with ⟨hend, hzero⟩
      refine ⟨hend, ?_⟩
      rw [TransitionSystem.occurrences, ← hst.2, hzero]
      cases e with
      | add => rfl
      | remove => rfl
      | sweep now =>
          have hfalse : sweepReturns status c.serial a (.sweep now) = false := by
            rw [Bool.eq_false_iff]
            intro hreturns
            have hdue := (h.returned_iff now).mp hreturns
            exact absurd hdue (not_le.mpr (hbefore now List.mem_cons_self))
          rw [hfalse]
          rfl

/-- Once a sweep has run a checkback it never returns. -/
theorem Waiting.fired {worker : String} {c : Checkback} {s t : CheckbackState} {now : ℚ}
    (h : Waiting worker c s) (hdue : c.triggerAt ≤ now)
    (hst : (checkbackSystem status).step s (.sweep now) t) : Never c.serial t := by
  have hfires : fires now s.history (worker, c) := ⟨h.contact, h.unclaimed, hdue⟩
  rw [hst.2]
  constructor
  · exact checkCheckbacks_added.symm ▸ h.known
  · intro other c' hget hserial
    have hother := h.only other c' (get?_checkCheckbacks hget) hserial
    subst hother
    change (checkCheckbacks status now s).state.checkbacks.get? other = some c' at hget
    rw [(checkCheckbacks_fires h.pending hfires).1] at hget
    cases hget

/-- A checkback that is replaced or removed is never returned. -/
theorem Never.of_touches {worker : String} {c : Checkback} {s t : CheckbackState}
    {e : CheckbackEvent} (hst : (checkbackSystem status).step s e t)
    (htouch : e.touches worker = true) (hknown : c.serial < s.added)
    (honly : ∀ other c', s.checkbacks.get? other = some c' → c'.serial = c.serial →
      other = worker) : Never c.serial t := by
  rw [hst.2]
  cases e with
  | add other carbonId minutes now =>
      have heq : other = worker := by simpa [CheckbackEvent.touches] using htouch
      subst heq
      constructor
      · exact Nat.lt_succ_of_lt hknown
      · intro third c' hget hserial
        change (s.checkbacks.set other _).get? third = some c' at hget
        by_cases hthird : other = third
        · subst hthird
          rw [Dict.get?_set_self, Option.some.injEq] at hget
          rw [← hget] at hserial
          exact absurd hserial (Nat.ne_of_gt hknown)
        · rw [Dict.get?_set_of_ne _ _ hthird] at hget
          exact absurd (honly third c' hget hserial).symm hthird
  | remove other now =>
      have heq : other = worker := by simpa [CheckbackEvent.touches] using htouch
      subst heq
      constructor
      · exact hknown
      · intro third c' hget hserial
        rcases (Dict.get?_pop_eq_some_iff _ _ _ _).mp hget with ⟨hne, hold⟩
        exact absurd (honly third c' hold hserial).symm hne
  | sweep now => cases htouch

/-- The calls are numbered: every pending checkback was added before. -/
theorem serial_lt_added {s : CheckbackState} (hs : (checkbackSystem status).Reachable s) :
    ∀ worker c, s.checkbacks.get? worker = some c → c.serial < s.added := by
  apply hs.invariant (I := fun s => ∀ worker c, s.checkbacks.get? worker = some c →
    c.serial < s.added)
  · intro s hinit worker c hget
    rw [hinit.1] at hget
    cases hget
  · intro s e t _ ih hst worker c hget
    rw [hst.2] at hget ⊢
    cases e with
    | add other carbonId minutes now =>
        change (s.checkbacks.set other _).get? worker = some c at hget
        change c.serial < s.added + 1
        by_cases hother : other = worker
        · subst hother
          rw [Dict.get?_set_self, Option.some.injEq] at hget
          rw [← hget]
          exact Nat.lt_succ_self _
        · rw [Dict.get?_set_of_ne _ _ hother] at hget
          exact Nat.lt_succ_of_lt (ih worker c hget)
    | remove other now => exact ih worker c ((Dict.get?_pop_eq_some_iff _ _ _ _).mp hget).2
    | sweep now =>
        exact checkCheckbacks_added.symm ▸ ih worker c (get?_checkCheckbacks hget)

/-- A checkback set for a contact, for a worker without a claim, waits. -/
theorem waiting_of_add {worker carbonId : String} {minutes start : ℚ} {s t : CheckbackState}
    (hs : (checkbackSystem status).Reachable s)
    (hst : (checkbackSystem status).step s (.add worker carbonId minutes start) t)
    (hunclaimed : s.history.get? (jobName worker) = none) (hcontact : carbonId ≠ "") :
    Waiting worker ⟨carbonId, start + minutes * 60, minutes, s.added⟩ t := by
  rw [hst.2]
  constructor
  · exact Dict.get?_set_self _ _ _
  · exact hunclaimed
  · exact hcontact
  · exact Nat.lt_succ_self _
  · intro other c' hget hserial
    change (s.checkbacks.set worker _).get? other = some c' at hget
    by_cases hother : worker = other
    · exact hother.symm
    · rw [Dict.get?_set_of_ne _ _ hother] at hget
      exact absurd hserial (Nat.ne_of_lt (serial_lt_added hs other c' hget))

/-- A checkback set for no contact, or for a worker with a claim, is never returned. -/
theorem never_of_add {worker carbonId : String} {minutes start : ℚ} {s t : CheckbackState}
    (hs : (checkbackSystem status).Reachable s)
    (hst : (checkbackSystem status).step s (.add worker carbonId minutes start) t)
    (h : carbonId = "" ∨ s.history.get? (jobName worker) ≠ none) : Never s.added t := by
  rw [hst.2]
  constructor
  · exact Nat.lt_succ_self _
  · intro other c hget hserial
    change (s.checkbacks.set worker _).get? other = some c at hget
    by_cases hother : worker = other
    · subst hother
      rw [Dict.get?_set_self, Option.some.injEq] at hget
      rw [← hget]
      exact h
    · rw [Dict.get?_set_of_ne _ _ hother] at hget
      exact absurd hserial (Nat.ne_of_lt (serial_lt_added hs other c hget))

/-- Where some event of a run replaces or removes the checkback of a worker, none of that worker
that was added before is returned later. -/
theorem never_of_touched {worker : String} {c : Checkback} {s t : CheckbackState}
    {es : List CheckbackEvent} (hrun : (checkbackSystem status).Run s es t)
    (htouched : ∃ e ∈ es, e.touches worker = true) (hknown : c.serial < s.added)
    (honly : ∀ other c', s.checkbacks.get? other = some c' → c'.serial = c.serial →
      other = worker) : Never c.serial t := by
  induction hrun with
  | nil => simp at htouched
  | @cons a b _ e es hst hrest ih =>
      by_cases htouch : e.touches worker = true
      · exact (Never.of_touches hst htouch hknown honly).run hrest
      · apply ih
        · rcases htouched with ⟨f, hf, hftouch⟩
          rcases List.mem_cons.mp hf with heq | hmem
          · rw [heq] at hftouch
            exact absurd hftouch htouch
          · exact ⟨f, hmem, hftouch⟩
        · rw [hst.2]
          cases e with
          | add => exact Nat.lt_succ_of_lt hknown
          | remove => exact hknown
          | sweep => exact checkCheckbacks_added.symm ▸ hknown
        · rw [hst.2]
          intro other c' hget hserial
          cases e with
          | add third carbonId minutes now =>
              change (a.checkbacks.set third _).get? other = some c' at hget
              by_cases hthird : third = other
              · subst hthird
                rw [Dict.get?_set_self, Option.some.injEq] at hget
                rw [← hget] at hserial
                exact absurd hserial (Nat.ne_of_gt hknown)
              · rw [Dict.get?_set_of_ne _ _ hthird] at hget
                exact honly other c' hget hserial
          | remove third now =>
              exact honly other c' ((Dict.get?_pop_eq_some_iff _ _ _ _).mp hget).2 hserial
          | sweep now => exact honly other c' (get?_checkCheckbacks hget) hserial

/-- A checkback is returned by the first sweep at or after its trigger time and by no other if and
only if no checkback of its worker was run before it was set, it is set for a contact, and it is
neither replaced nor removed before that sweep. -/
theorem checkback_returned_iff {worker carbonId : String} {minutes start sweepTime : ℚ}
    {mid post : List CheckbackEvent} {s u v w : CheckbackState}
    (hs : (checkbackSystem status).Reachable s)
    (hmid : (checkbackSystem status).Run s (.add worker carbonId minutes start :: mid) u)
    (hsweep : (checkbackSystem status).step u (.sweep sweepTime) v)
    (hpost : (checkbackSystem status).Run v post w)
    (hbefore : ∀ now, .sweep now ∈ mid → now < start + minutes * 60)
    (hdue : start + minutes * 60 ≤ sweepTime) :
    (sweepReturns status s.added u (.sweep sweepTime) = true ∧
      TransitionSystem.occurrences (nextCheckbacks status) (sweepReturns status s.added) s
        (.add worker carbonId minutes start :: mid ++ .sweep sweepTime :: post) = 1) ↔
      s.history.get? (jobName worker) = none ∧ carbonId ≠ "" ∧
        ∀ e ∈ mid, e.touches worker = false := by
  cases hmid with
  | @cons _ t _ _ _ hadd hrest =>
      constructor
      · rintro ⟨hreturns, -⟩
        have hnot : ¬ Never s.added u := by
          intro hnever
          rw [hnever.not_returned] at hreturns
          cases hreturns
        have hunclaimed : s.history.get? (jobName worker) = none := by
          by_contra hclaimed
          exact hnot ((never_of_add hs hadd (.inr hclaimed)).run hrest)
        have hcontact : carbonId ≠ "" := by
          intro hempty
          exact hnot ((never_of_add hs hadd (.inl hempty)).run hrest)
        have hwaiting := waiting_of_add hs hadd hunclaimed hcontact
        refine ⟨hunclaimed, hcontact, ?_⟩
        intro e he
        rw [Bool.eq_false_iff]
        intro htouch
        exact hnot (never_of_touched hrest ⟨e, he, htouch⟩ hwaiting.known hwaiting.only)
      · rintro ⟨hunclaimed, hcontact, htouch⟩
        have hwaiting := waiting_of_add hs hadd hunclaimed hcontact
        rcases hwaiting.run hrest htouch hbefore with ⟨hready, hzero⟩
        have hreturns : sweepReturns status s.added u (.sweep sweepTime) = true :=
          (hready.returned_iff sweepTime).mpr hdue
        refine ⟨hreturns, ?_⟩
        have hafter := (hready.fired hdue hsweep).occurrences hpost
        have hnext : ∀ a e b, (checkbackSystem status).step a e b → b = nextCheckbacks status a e :=
          fun a e b hst => hst.2
        rw [TransitionSystem.Run.occurrences_append hnext (.sweep sweepTime :: post) (.cons hadd hrest),
          TransitionSystem.occurrences, ← hadd.2, hzero, TransitionSystem.occurrences, hreturns,
          ← hsweep.2, hafter]
        rfl

/-- A worker that is looked at for the first time. -/
theorem checkback_returned_first :
    sweepReturns (fun _ _ => "running") 0
        ⟨Dict.empty.set "builder" ⟨"ada", 60, 1, 0⟩, Dict.empty, 1, 0⟩ (.sweep 90) = true ∧
      TransitionSystem.occurrences (nextCheckbacks fun _ _ => "running")
        (sweepReturns (fun _ _ => "running") 0) ⟨Dict.empty, Dict.empty, 0, 0⟩
        [.add "builder" "ada" 1 0, .sweep 90, .sweep 100] = 1 := by
  have hstart : (checkbackSystem fun _ _ => "running").Reachable
      ⟨Dict.empty, Dict.empty, 0, 0⟩ := .init ⟨rfl, rfl, rfl⟩
  have hadd : (checkbackSystem fun _ _ => "running").step ⟨Dict.empty, Dict.empty, 0, 0⟩
      (.add "builder" "ada" 1 0)
      ⟨Dict.empty.set "builder" ⟨"ada", 60, 1, 0⟩, Dict.empty, 1, 0⟩ :=
    ⟨by decide +kernel, by decide +kernel⟩
  have hsweep : (checkbackSystem fun _ _ => "running").step
      ⟨Dict.empty.set "builder" ⟨"ada", 60, 1, 0⟩, Dict.empty, 1, 0⟩ (.sweep 90)
      ⟨Dict.empty, Dict.empty.set (jobName "builder") (.lastRun 90), 1, 90⟩ :=
    ⟨by decide +kernel, by decide +kernel⟩
  have hpost : (checkbackSystem fun _ _ => "running").Run
      ⟨Dict.empty, Dict.empty.set (jobName "builder") (.lastRun 90), 1, 90⟩ [.sweep 100] _ :=
    .single ⟨by decide +kernel, rfl⟩
  refine (checkback_returned_iff hstart (.single hadd) hsweep hpost ?_ ?_).mpr
    ⟨rfl, by decide, ?_⟩
  · intro now hnow
    simp at hnow
  · decide +kernel
  · intro e he
    simp at he

/-- The worker of a checkback that was returned gets another one, which neither the sweep at its
trigger time nor a later one returns. -/
theorem second_checkback_lost :
    ∃ u v, (checkbackSystem fun _ _ => "running").Run ⟨Dict.empty, Dict.empty, 0, 0⟩
        [.add "builder" "ada" 1 0, .sweep 60] u ∧
      (checkbackSystem fun _ _ => "running").Run u
        [.add "builder" "ada" 2 100, .sweep 220, .sweep 1000] v ∧
      u.added = 1 ∧
      TransitionSystem.occurrences (nextCheckbacks fun _ _ => "running")
        (sweepReturns (fun _ _ => "running") 1) u
        [.add "builder" "ada" 2 100, .sweep 220, .sweep 1000] = 0 := by
  refine ⟨_, _, .cons ⟨by decide +kernel, rfl⟩ (.single ⟨by decide +kernel, rfl⟩),
    .cons ⟨by decide +kernel, rfl⟩ (.cons ⟨by decide +kernel, rfl⟩
      (.single ⟨by decide +kernel, rfl⟩)), ?_, ?_⟩
  · decide +kernel
  · decide +kernel

end Law

end Cron
end Stemcell
