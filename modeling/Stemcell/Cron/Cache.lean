import Mathlib.Algebra.Order.Ring.Unbundled.Rat
import Mathlib.Logic.Function.Basic
import Mathlib.Tactic.Linarith
import Stemcell.Interface.Json
import Stemcell.Lib.Transition
import Stemcell.Maintenance.State

/-!
# The cache of cron records

A sweep takes the cron records from a file for five minutes after they were fetched.  Whoever
changes a cron writes a second file, and a cache that is older than it counts as missing.  Sweeps and
listings fetch and store the records without a lock, in several processes.

Main results:

- Definition `CacheWorld.next`: one step of a load, of a listing or of an invalidation.
- Theorem `recordsFromPayload_records`: what was stored is read back.
- Theorem `cache_law`: in every interleaving, a load that fetches is as new as every invalidation
  before it, and one that takes the cached records is older than such an invalidation exactly if
  that fell between their fetch and the time of the cache file.

Current gaps:

- The clock does not go back, and a file has the time at which it takes its place.
- A file that is there but cannot be read or whose time cannot be read.
-/

namespace Stemcell
namespace Cron

open Interface (Json)
open Lib (TransitionSystem)
open Maintenance (Seconds)

def cronCacheFallbackSeconds : Seconds := 5 * 60

/-! ## Records -/

/-- `for record in records`, where the value can be iterated over: a dictionary has keys, and a text
letters, that are no dictionaries. -/
def iterated : Json → Option (List Json)
  | .arr items => some items
  | .obj _ | .str _ => some []
  | _ => none

/-- `_records_from_payload`; it raises where what it finds cannot be iterated over. -/
def recordsFromPayload (payload : Json) : Option (List Json) :=
  let records := match payload with
    | .arr items => .arr items
    | .obj _ => (((payload.get "crons").orElse (payload.get "data")).orElse
        (payload.get "results")).orElse (.arr [])
    | _ => .arr []
  (iterated records).map fun items => items.filter Json.isObj

theorem isObj_of_recordsFromPayload {payload : Json} {records : List Json}
    (h : recordsFromPayload payload = some records) : ∀ record ∈ records, record.isObj = true := by
  rcases Option.map_eq_some_iff.mp h with ⟨items, -, rfl⟩
  intro record hmem
  exact (List.mem_filter.mp hmem).2

/-- What was stored is read back. -/
theorem recordsFromPayload_records {payload : Json} {records : List Json}
    (h : recordsFromPayload payload = some records) :
    recordsFromPayload (.arr records) = some records := by
  have hself : records.filter Json.isObj = records :=
    List.filter_eq_self.mpr (isObj_of_recordsFromPayload h)
  simp [recordsFromPayload, iterated, hself]

/-! ## Files and calls -/

/-- The cache file, with its time, and the answer that its records are from. -/
structure CacheFile where
  storedAt : Seconds
  fetchedAt : Seconds
  records : List Json
  asOf : Seconds
  payload : Json

/-- The records that a load reads from the file. -/
def cachedRecords : Option CacheFile → List Json
  | none => []
  | some file => (recordsFromPayload (.arr file.records)).getD []

/-- A load with the time at which it read the cache, the invalidations before that, and what it
read. -/
structure CronLoad where
  begun : Seconds
  seen : List Seconds
  file : Option CacheFile

/-- Who fetches records: a load, or `cron/list`. -/
inductive Purpose
  | load (load : CronLoad)
  | list

inductive CacheStage
  | idle
  | checking (load : CronLoad)
  | comparing (load : CronLoad) (file : CacheFile) (now : Seconds) (invalidated : Option Seconds)
  | asking (purpose : Purpose)
  | answered (purpose : Purpose) (asOf : Seconds) (payload : Json) (records : List Json)
  | stamped (purpose : Purpose) (asOf : Seconds) (payload : Json) (records : List Json)
      (fetchedAt : Seconds)

/-- How a load ended: with the cached records, recent at `now`, `compared` being the time of the
cache file that was compared; with fetched records; or, when Glass could not be asked, with what it had read. -/
inductive LoadOutcome
  | hit (file : CacheFile) (now : Seconds) (compared : Option Seconds)
  | fetched (asOf : Seconds) (payload : Json)
  | fallback

structure Loaded where
  load : CronLoad
  outcome : LoadOutcome
  records : List Json

/-- The clock, the answer that Glass would give, the two files and the callers, with all
invalidations, answers and loads that have been. -/
structure CacheWorld where
  clock : Seconds
  server : Json
  cache : Option CacheFile
  invalidatedAt : Option Seconds
  callers : Nat → CacheStage
  invalidations : List Seconds
  served : List (Seconds × Json)
  loads : List Loaded

def CacheWorld.start (clock : Seconds) (server : Json) : CacheWorld where
  clock := clock
  server := server
  cache := none
  invalidatedAt := none
  callers := fun _ => .idle
  invalidations := []
  served := []
  loads := []

def CacheWorld.become (w : CacheWorld) (caller : Nat) (stage : CacheStage) : CacheWorld :=
  { w with callers := Function.update w.callers caller stage }

/-- A load returns. -/
def CacheWorld.return (w : CacheWorld) (caller : Nat) (load : CronLoad) (outcome : LoadOutcome)
    (records : List Json) : CacheWorld :=
  { w.become caller .idle with loads := w.loads ++ [⟨load, outcome, records⟩] }

/-- `fetched_at > 0 and time.time() - fetched_at < CRON_CACHE_FALLBACK_SECONDS`. -/
def CacheFile.recent (file : CacheFile) (now : Seconds) : Bool :=
  0 < file.fetchedAt && now - file.fetchedAt < cronCacheFallbackSeconds

/-- `_cache_is_invalidated`, when the time of the first file has been read. -/
def CacheWorld.cacheIsInvalidated (w : CacheWorld) (invalidated : Option Seconds) : Bool :=
  match invalidated, w.cache with
  | some time, some file => file.storedAt < time
  | _, _ => w.invalidatedAt.isSome

inductive CacheEvent
  | pass (seconds : Seconds)
  | change (server : Json)
  | invalidate
  | lose
  | load (caller : Nat)
  | list (caller : Nat)
  | look (caller : Nat)
  | compare (caller : Nat)
  | answer (caller : Nat)
  | fail (caller : Nat)
  | stamp (caller : Nat)
  | store (caller : Nat)

def CacheWorld.next (w : CacheWorld) : CacheEvent → Option CacheWorld
  | .pass seconds => if 0 ≤ seconds then some { w with clock := w.clock + seconds } else none
  | .change server => some { w with server := server }
  | .invalidate =>
      some { w with
        invalidatedAt := some w.clock
        invalidations := w.invalidations ++ [w.clock] }
  | .lose => some { w with cache := none }
  | .load caller =>
      match w.callers caller with
      | .idle => some (w.become caller (.checking ⟨w.clock, w.invalidations, w.cache⟩))
      | _ => none
  | .list caller =>
      match w.callers caller with
      | .idle => some (w.become caller (.asking .list))
      | _ => none
  | .look caller =>
      match w.callers caller with
      | .checking load =>
          match load.file with
          | some file =>
              if file.recent w.clock then
                some (w.become caller (.comparing load file w.clock w.invalidatedAt))
              else some (w.become caller (.asking (.load load)))
          | none => some (w.become caller (.asking (.load load)))
      | _ => none
  | .compare caller =>
      match w.callers caller with
      | .comparing load file now invalidated =>
          if w.cacheIsInvalidated invalidated then
            some (w.become caller (.asking (.load load)))
          else
            some (w.return caller load (.hit file now (w.cache.map CacheFile.storedAt))
              (cachedRecords load.file))
      | _ => none
  | .answer caller =>
      match w.callers caller with
      | .asking purpose =>
          let w := { w with served := w.served ++ [(w.clock, w.server)] }
          match recordsFromPayload w.server with
          | some records =>
              some (w.become caller (.answered purpose w.clock w.server records))
          | none => some (w.become caller .idle)
      | _ => none
  | .fail caller =>
      match w.callers caller with
      | .asking (.load load) => some (w.return caller load .fallback (cachedRecords load.file))
      | .asking .list => some (w.become caller .idle)
      | _ => none
  | .stamp caller =>
      match w.callers caller with
      | .answered purpose asOf payload records =>
          some (w.become caller (.stamped purpose asOf payload records w.clock))
      | _ => none
  | .store caller =>
      match w.callers caller with
      | .stamped purpose asOf payload records fetchedAt =>
          let w := { w with cache := some ⟨w.clock, fetchedAt, records, asOf, payload⟩ }
          match purpose with
          | .load load => some (w.return caller load (.fetched asOf payload) records)
          | .list => some (w.become caller .idle)
      | _ => none

def cacheSystem : TransitionSystem CacheWorld CacheEvent where
  init := fun w => ∃ clock server, w = .start clock server
  step := fun w e w' => w.next e = some w'

/-! ## The invariant -/

/-- What holds of an answer with its records. -/
structure AnswerOk (served : List (Seconds × Json)) (asOf : Seconds) (payload : Json)
    (records : List Json) : Prop where
  served : (asOf, payload) ∈ served
  records : recordsFromPayload payload = some records

structure FileOk (served : List (Seconds × Json)) (clock : Seconds) (file : CacheFile) : Prop where
  answer : AnswerOk served file.asOf file.payload file.records
  fetched : file.asOf ≤ file.fetchedAt
  stored : file.fetchedAt ≤ file.storedAt
  past : file.storedAt ≤ clock

structure CronLoadOk (served : List (Seconds × Json)) (clock : Seconds) (load : CronLoad) :
    Prop where
  past : load.begun ≤ clock
  seen : ∀ i ∈ load.seen, i ≤ load.begun
  file : ∀ file, load.file = some file → FileOk served load.begun file

/-- The purpose of a caller that has an answer from `asOf`. -/
def PurposeOk (served : List (Seconds × Json)) (clock asOf : Seconds) : Purpose → Prop
  | .load load => CronLoadOk served clock load ∧ load.begun ≤ asOf
  | .list => True

/-- No invalidation comes after the time of its file. -/
def Covers (invalidatedAt : Option Seconds) (invalidations : List Seconds) : Prop :=
  ∀ i ∈ invalidations, ∃ m, invalidatedAt = some m ∧ i ≤ m

/-- The time of the file of invalidations moves on. -/
def MovesOn (invalidatedAt invalidatedAt' : Option Seconds) : Prop :=
  ∀ m, invalidatedAt = some m → ∃ m', invalidatedAt' = some m' ∧ m ≤ m'

def StageOk (served : List (Seconds × Json)) (clock : Seconds) (invalidatedAt : Option Seconds) :
    CacheStage → Prop
  | .idle => True
  | .checking load => CronLoadOk served clock load ∧ Covers invalidatedAt load.seen
  | .comparing load file now invalidated =>
      CronLoadOk served clock load ∧ load.file = some file ∧ file.recent now = true ∧
        Covers invalidated load.seen ∧ MovesOn invalidated invalidatedAt
  | .asking purpose => PurposeOk served clock clock purpose
  | .answered purpose asOf payload records =>
      PurposeOk served clock asOf purpose ∧ AnswerOk served asOf payload records ∧ asOf ≤ clock
  | .stamped purpose asOf payload records fetchedAt =>
      PurposeOk served clock asOf purpose ∧ AnswerOk served asOf payload records ∧
        asOf ≤ fetchedAt ∧ fetchedAt ≤ clock

/-- The cached records are older than an invalidation before the load. -/
def CronLoad.Stale (load : CronLoad) (file : CacheFile) : Prop :=
  ∃ i ∈ load.seen, file.asOf < i

/-- An invalidation fell between the fetch of the cached records and the time of the cache file
that was compared. -/
def CronLoad.Overtaken (load : CronLoad) (file : CacheFile) (compared : Option Seconds) : Prop :=
  ∃ time, compared = some time ∧ ∃ i ∈ load.seen, file.asOf < i ∧ i ≤ time

/-- What holds of a load that has ended. -/
def LoadedOk (served : List (Seconds × Json)) (l : Loaded) : Prop :=
  match l.outcome with
  | .hit file now compared =>
      AnswerOk served file.asOf file.payload l.records ∧
        now - file.fetchedAt < cronCacheFallbackSeconds ∧
        (l.load.Stale file ↔ l.load.Overtaken file compared)
  | .fetched asOf payload =>
      AnswerOk served asOf payload l.records ∧ l.load.begun ≤ asOf ∧ ∀ i ∈ l.load.seen, i ≤ asOf
  | .fallback =>
      (l.load.file = none ∧ l.records = []) ∨
        ∃ file, l.load.file = some file ∧ AnswerOk served file.asOf file.payload l.records

structure CacheOk (w : CacheWorld) : Prop where
  invalidated : Covers w.invalidatedAt w.invalidations
  past : ∀ m, w.invalidatedAt = some m → m ≤ w.clock
  cache : ∀ file, w.cache = some file → FileOk w.served w.clock file
  callers : ∀ caller, StageOk w.served w.clock w.invalidatedAt (w.callers caller)
  loads : ∀ l ∈ w.loads, LoadedOk w.served l

section Invariant

variable {served served' : List (Seconds × Json)} {clock clock' asOf : Seconds} {payload : Json}
  {records : List Json} {file : CacheFile} {load : CronLoad} {w w' : CacheWorld}

theorem AnswerOk.mono (h : AnswerOk served asOf payload records) (hserved : served ⊆ served') :
    AnswerOk served' asOf payload records :=
  ⟨hserved h.served, h.records⟩

theorem FileOk.mono (h : FileOk served clock file) (hserved : served ⊆ served')
    (hclock : clock ≤ clock') : FileOk served' clock' file :=
  ⟨h.answer.mono hserved, h.fetched, h.stored, le_trans h.past hclock⟩

theorem CronLoadOk.mono (h : CronLoadOk served clock load) (hserved : served ⊆ served')
    (hclock : clock ≤ clock') : CronLoadOk served' clock' load :=
  ⟨le_trans h.past hclock, h.seen, fun file hfile => (h.file file hfile).mono hserved le_rfl⟩

theorem PurposeOk.mono {purpose : Purpose} (h : PurposeOk served clock asOf purpose)
    (hserved : served ⊆ served') (hclock : clock ≤ clock') :
    PurposeOk served' clock' asOf purpose := by
  cases purpose with
  | load load => exact ⟨h.1.mono hserved hclock, h.2⟩
  | list => trivial

theorem PurposeOk.later {purpose : Purpose} {asOf' : Seconds}
    (h : PurposeOk served clock asOf purpose) (hasOf : asOf ≤ asOf') :
    PurposeOk served clock asOf' purpose := by
  cases purpose with
  | load load => exact ⟨h.1, le_trans h.2 hasOf⟩
  | list => trivial

theorem MovesOn.refl (invalidatedAt : Option Seconds) : MovesOn invalidatedAt invalidatedAt :=
  fun m hm => ⟨m, hm, le_rfl⟩

theorem MovesOn.trans {a b c : Option Seconds} (h : MovesOn a b) (h' : MovesOn b c) :
    MovesOn a c := by
  intro m hm
  rcases h m hm with ⟨m', hm', hle⟩
  rcases h' m' hm' with ⟨m'', hm'', hle'⟩
  exact ⟨m'', hm'', le_trans hle hle'⟩

theorem Covers.mono {a b : Option Seconds} {times : List Seconds} (h : Covers a times)
    (hmoves : MovesOn a b) : Covers b times := by
  intro i hmem
  rcases h i hmem with ⟨m, hm, hle⟩
  rcases hmoves m hm with ⟨m', hm', hle'⟩
  exact ⟨m', hm', le_trans hle hle'⟩

theorem StageOk.mono {stage : CacheStage} {a b : Option Seconds}
    (h : StageOk served clock a stage) (hserved : served ⊆ served') (hclock : clock ≤ clock')
    (hmoves : MovesOn a b) : StageOk served' clock' b stage := by
  cases stage with
  | idle => trivial
  | checking load => exact ⟨h.1.mono hserved hclock, h.2.mono hmoves⟩
  | comparing load file now invalidated =>
      exact ⟨h.1.mono hserved hclock, h.2.1, h.2.2.1, h.2.2.2.1, h.2.2.2.2.trans hmoves⟩
  | asking purpose => exact (PurposeOk.mono h hserved hclock).later hclock
  | answered purpose asOf payload records =>
      exact ⟨h.1.mono hserved hclock, h.2.1.mono hserved, le_trans h.2.2 hclock⟩
  | stamped purpose asOf payload records fetchedAt =>
      exact ⟨h.1.mono hserved hclock, h.2.1.mono hserved, h.2.2.1, le_trans h.2.2.2 hclock⟩

theorem LoadedOk.mono {l : Loaded} (h : LoadedOk served l) (hserved : served ⊆ served') :
    LoadedOk served' l := by
  rcases l with ⟨load, outcome, records⟩
  cases outcome with
  | hit file now compared => exact ⟨h.1.mono hserved, h.2⟩
  | fetched asOf payload => exact ⟨h.1.mono hserved, h.2⟩
  | fallback =>
      rcases h with hnone | ⟨file, hfile, hanswer⟩
      · exact .inl hnone
      · exact .inr ⟨file, hfile, hanswer.mono hserved⟩

theorem cachedRecords_some (h : FileOk served clock file) :
    cachedRecords (some file) = file.records := by
  unfold cachedRecords
  dsimp only
  rw [recordsFromPayload_records h.answer.records]
  rfl

/-! ## Steps -/

/-- A caller goes on. -/
theorem CacheOk.become (h : CacheOk w) {caller : Nat} {stage : CacheStage}
    (hstage : StageOk w.served w.clock w.invalidatedAt stage) :
    CacheOk (w.become caller stage) := by
  refine ⟨h.invalidated, h.past, h.cache, ?_, h.loads⟩
  intro other
  unfold CacheWorld.become
  by_cases hsame : other = caller
  · subst hsame
    simpa using hstage
  · simpa [hsame] using h.callers other

/-- A load returns. -/
theorem CacheOk.return (h : CacheOk w) {caller : Nat} {outcome : LoadOutcome}
    (hloaded : LoadedOk w.served ⟨load, outcome, records⟩) :
    CacheOk (w.return caller load outcome records) := by
  have hidle : CacheOk (w.become caller .idle) := h.become trivial
  refine ⟨hidle.invalidated, hidle.past, hidle.cache, hidle.callers, ?_⟩
  intro l hmem
  rcases List.mem_append.mp hmem with hmem | hmem
  · exact h.loads l hmem
  · cases List.mem_singleton.mp hmem
    exact hloaded

/-- Time passes, Glass changes and answers. -/
theorem CacheOk.advance (h : CacheOk w) (hclock : w.clock ≤ clock) (server : Json)
    (hserved : w.served ⊆ served) :
    CacheOk { w with clock := clock, server := server, served := served } := by
  refine ⟨h.invalidated, ?_, ?_, ?_, ?_⟩
  · intro m hm
    exact le_trans (h.past m hm) hclock
  · intro file hfile
    exact (h.cache file hfile).mono hserved hclock
  · intro caller
    exact (h.callers caller).mono hserved hclock (.refl _)
  · intro l hmem
    exact (h.loads l hmem).mono hserved

theorem CacheOk.invalidate (h : CacheOk w) :
    CacheOk { w with
      invalidatedAt := some w.clock
      invalidations := w.invalidations ++ [w.clock] } := by
  have hmoves : MovesOn w.invalidatedAt (some w.clock) :=
    fun m hm => ⟨w.clock, rfl, h.past m hm⟩
  refine ⟨?_, ?_, h.cache, ?_, h.loads⟩
  · intro i hmem
    rcases List.mem_append.mp hmem with hmem | hmem
    · exact h.invalidated.mono hmoves i hmem
    · exact ⟨w.clock, rfl, le_of_eq (List.mem_singleton.mp hmem)⟩
  · intro m hm
    cases hm
    exact le_rfl
  · intro caller
    exact (h.callers caller).mono (List.Subset.refl _) le_rfl hmoves

/-- Cached records that pass the comparison are as new as each invalidation before the load, unless
one came while they were on their way to the file. -/
theorem stale_iff_overtaken {invalidated : Option Seconds}
    (hseen : Covers invalidated load.seen) (hmoves : MovesOn invalidated w.invalidatedAt)
    (hvalid : w.cacheIsInvalidated invalidated = false) :
    load.Stale file ↔ load.Overtaken file (w.cache.map CacheFile.storedAt) := by
  constructor
  · rintro ⟨i, hmem, hstale⟩
    rcases hseen i hmem with ⟨m, rfl, hle⟩
    unfold CacheWorld.cacheIsInvalidated at hvalid
    cases hcache : w.cache with
    | none =>
        rcases hmoves m rfl with ⟨m', hm', -⟩
        simp [hcache, hm'] at hvalid
    | some current =>
        have hnot : m ≤ current.storedAt := by simpa [hcache] using hvalid
        exact ⟨current.storedAt, rfl, i, hmem, hstale, le_trans hle hnot⟩
  · rintro ⟨_, _, i, hmem, hstale, _⟩
    exact ⟨i, hmem, hstale⟩

theorem CacheOk.look (h : CacheOk w) {caller : Nat} (hnext : w.next (.look caller) = some w') :
    CacheOk w' := by
  have hstage := h.callers caller
  unfold CacheWorld.next at hnext
  dsimp only at hnext
  split at hnext
  · rename_i load hchecking
    rw [hchecking] at hstage
    have hasks : CacheOk (w.become caller (.asking (.load load))) :=
      h.become ⟨hstage.1, hstage.1.past⟩
    split at hnext
    · rename_i file hfile
      split_ifs at hnext with hrecent
      · cases hnext
        exact h.become ⟨hstage.1, hfile, hrecent, hstage.2, .refl _⟩
      · cases hnext
        exact hasks
    · cases hnext
      exact hasks
  · cases hnext

theorem CacheOk.compare (h : CacheOk w) {caller : Nat}
    (hnext : w.next (.compare caller) = some w') : CacheOk w' := by
  have hstage := h.callers caller
  unfold CacheWorld.next at hnext
  dsimp only at hnext
  split at hnext
  · rename_i load file now invalidated hcomparing
    rw [hcomparing] at hstage
    rcases hstage with ⟨hload, hfile, hrecent, hcovers, hmoves⟩
    split_ifs at hnext with hinvalid
    · cases hnext
      exact h.become ⟨hload, hload.past⟩
    · cases hnext
      have hok := (hload.file file hfile).mono (List.Subset.refl _) hload.past
      rw [hfile, cachedRecords_some hok]
      apply h.return
      refine ⟨hok.answer, ?_, stale_iff_overtaken hcovers hmoves (by simpa using hinvalid)⟩
      unfold CacheFile.recent at hrecent
      rw [Bool.and_eq_true] at hrecent
      exact of_decide_eq_true hrecent.2
  · cases hnext

theorem CacheOk.answer (h : CacheOk w) {caller : Nat}
    (hnext : w.next (.answer caller) = some w') : CacheOk w' := by
  have hstage := h.callers caller
  unfold CacheWorld.next at hnext
  dsimp only at hnext
  split at hnext
  · rename_i purpose hasking
    rw [hasking] at hstage
    have hserved : w.served ⊆ w.served ++ [(w.clock, w.server)] := List.subset_append_left _ _
    have hadvance := h.advance le_rfl w.server hserved
    split at hnext
    · rename_i records hrecords
      cases hnext
      apply hadvance.become
      refine ⟨PurposeOk.mono hstage hserved le_rfl, ⟨?_, hrecords⟩, le_rfl⟩
      exact List.mem_append_right _ (List.mem_singleton_self _)
    · cases hnext
      exact hadvance.become trivial
  · cases hnext

theorem CacheOk.fail (h : CacheOk w) {caller : Nat} (hnext : w.next (.fail caller) = some w') :
    CacheOk w' := by
  have hstage := h.callers caller
  unfold CacheWorld.next at hnext
  dsimp only at hnext
  split at hnext
  · rename_i load hasking
    rw [hasking] at hstage
    cases hnext
    apply h.return
    cases hfile : load.file with
    | none => exact .inl ⟨hfile, rfl⟩
    | some file =>
        have hok := hstage.1.file file hfile
        rw [cachedRecords_some hok]
        exact .inr ⟨file, hfile, hok.answer⟩
  · cases hnext
    exact h.become trivial
  · cases hnext

theorem CacheOk.store (h : CacheOk w) {caller : Nat} (hnext : w.next (.store caller) = some w') :
    CacheOk w' := by
  have hstage := h.callers caller
  unfold CacheWorld.next at hnext
  dsimp only at hnext
  split at hnext
  · rename_i purpose asOf payload records fetchedAt hstamped
    rw [hstamped] at hstage
    rcases hstage with ⟨hpurpose, hanswer, hfetched, hpast⟩
    have hstored : CacheOk { w with
        cache := some ⟨w.clock, fetchedAt, records, asOf, payload⟩ } := by
      refine ⟨h.invalidated, h.past, ?_, h.callers, h.loads⟩
      rintro file hfile
      cases hfile
      exact ⟨hanswer, hfetched, hpast, le_rfl⟩
    split at hnext
    · rename_i load
      cases hnext
      apply hstored.return
      exact ⟨hanswer, hpurpose.2, fun i hmem => le_trans (hpurpose.1.seen i hmem) hpurpose.2⟩
    · cases hnext
      exact hstored.become trivial
  · cases hnext

theorem cacheOk_step {e : CacheEvent} (h : CacheOk w) (hnext : w.next e = some w') :
    CacheOk w' := by
  cases e with
  | pass seconds =>
      unfold CacheWorld.next at hnext
      dsimp only at hnext
      split_ifs at hnext with hpass
      cases hnext
      exact h.advance (by linarith) w.server (List.Subset.refl _)
  | change server =>
      cases hnext
      exact h.advance le_rfl server (List.Subset.refl _)
  | invalidate =>
      cases hnext
      exact h.invalidate
  | lose =>
      cases hnext
      exact ⟨h.invalidated, h.past, nofun, h.callers, h.loads⟩
  | load caller =>
      unfold CacheWorld.next at hnext
      dsimp only at hnext
      split at hnext
      · cases hnext
        refine h.become ⟨⟨le_rfl, ?_, fun file hfile => h.cache file hfile⟩, h.invalidated⟩
        intro i hmem
        rcases h.invalidated i hmem with ⟨m, hm, hle⟩
        exact le_trans hle (h.past m hm)
      · cases hnext
  | list caller =>
      unfold CacheWorld.next at hnext
      dsimp only at hnext
      split at hnext
      · cases hnext
        exact h.become trivial
      · cases hnext
  | look caller => exact h.look hnext
  | compare caller => exact h.compare hnext
  | answer caller => exact h.answer hnext
  | fail caller => exact h.fail hnext
  | stamp caller =>
      have hstage := h.callers caller
      unfold CacheWorld.next at hnext
      dsimp only at hnext
      split at hnext
      · rename_i purpose asOf payload records hanswered
        rw [hanswered] at hstage
        cases hnext
        exact h.become ⟨hstage.1, hstage.2.1, hstage.2.2, le_rfl⟩
      · cases hnext
  | store caller => exact h.store hnext

theorem cacheOk_reachable (h : cacheSystem.Reachable w) : CacheOk w := by
  apply h.invariant
  · rintro _ ⟨clock, server, rfl⟩
    exact ⟨nofun, nofun, nofun, fun _ => trivial, nofun⟩
  · intro a e b _ ha hstep
    exact cacheOk_step ha hstep

/-- In every interleaving of loads, listings, invalidations and changes of Glass: a load that
fetches returns what Glass has answered during the load, as new as every invalidation before it; a
load that takes the cached records returns an answer that was stamped less than five minutes before,
and this is older than an invalidation before the load exactly if that invalidation fell between the
answer and the time of the cache file that was compared; a load for which Glass cannot be asked
returns what it has read from the cache. -/
theorem cache_law (w : CacheWorld) (hw : cacheSystem.Reachable w) :
    ∀ l ∈ w.loads, LoadedOk w.served l :=
  (cacheOk_reachable hw).loads

end Invariant

/-- A cron is changed and the cache invalidated while the answer to a sweep is on its way to the
cache; the next sweep runs the old cron. -/
def overtakenSteps : List CacheEvent :=
  [.load 0, .look 0, .answer 0, .change (.arr [.obj [("id", .str "new")]]), .pass 1, .invalidate,
    .pass 1, .stamp 0, .store 0, .pass 60, .load 0, .look 0, .compare 0]

/-- The ids of the crons that each load has returned. -/
def loadedIds (w : CacheWorld) : List (List String) :=
  w.loads.map fun l => l.records.map fun record =>
    match record.get "id" with
    | .str id => id
    | _ => ""

theorem cache_law_overtaken :
    ∃ w : CacheWorld,
      TransitionSystem.play CacheWorld.next (.start 10 (.arr [.obj [("id", .str "old")]]))
        overtakenSteps = some w ∧
      loadedIds w = [["old"], ["old"]] ∧ ∀ l ∈ w.loads, LoadedOk w.served l := by
  have hloaded : (TransitionSystem.play CacheWorld.next
      (.start 10 (.arr [.obj [("id", .str "old")]])) overtakenSteps).map loadedIds =
        some [["old"], ["old"]] := by
    decide +kernel
  rcases Option.map_eq_some_iff.mp hloaded with ⟨w, hplay, hids⟩
  refine ⟨w, hplay, hids, cache_law w ?_⟩
  exact .play (.init ⟨_, _, rfl⟩) (fun _ _ _ hnext => hnext) hplay

end Cron
end Stemcell
