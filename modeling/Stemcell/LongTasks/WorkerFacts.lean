import Stemcell.LongTasks.Entries
import Stemcell.Lib.Transition

/-!
# Facts about workers

What is known of a worker waits with the lifecycle until the card of the task shows it.  Another
process writes newer facts into the stored entry; the lifecycle merges them by their stamps
before and after it delivers, and once more when it persists.

Main results:

- Definition `FactWorld.next`: one step of a delivery, of a persist or of the other process.
- Theorem `facts_kept`: the runs in which no fact is lost.
- Theorem `fact_lost`: a fact that is recorded during a delivery and lost.

Current gaps:

- The entry stays active and its instance stays its owner.
- References of cards, descriptions of invocations and the choice of what is due are left out.
-/

namespace Stemcell
namespace LongTasks

open Lib
open Maintenance (Seconds)

def maxPendingWorkers : Nat := 64

/-! ## Steps -/

/-- What is told of a worker, and when it was found out. -/
structure Fact where
  state : String
  stateDescription : String
  stamp : Seconds
deriving DecidableEq, Repr

def Intent.fact (intent : Intent) : Fact where
  state := intent.state
  stateDescription := intent.stateDescription
  stamp := intent.factUpdatedAt

/-- Where `_deliver_pending_workers` stands: the intent it is at, Glass's answer to it, and the
intents after it. -/
inductive DeliveryStage
  | idle
  | sending (intents : List (String × Intent))
  | answered (workerId : String) (sent : Intent) (accepted : Bool)
      (rest : List (String × Intent))
  | merged (workerId : String) (sent : Intent) (accepted : Bool) (rest : List (String × Intent))
  | settled (rest : List (String × Intent))
deriving DecidableEq, Repr

/-- The intents that a delivery still holds copies of. -/
def DeliveryStage.copies : DeliveryStage → List (String × Intent)
  | .idle => []
  | .sending intents => intents
  | .answered workerId sent _ rest => (workerId, sent) :: rest
  | .merged workerId sent _ rest => (workerId, sent) :: rest
  | .settled rest => rest

/-- The lock of the lifecycle is held from one file access to the next. -/
def DeliveryStage.locked : DeliveryStage → Bool
  | .merged .. => true
  | .settled _ => true
  | _ => false

/-- The stored entry, the workers and watermarks of the instance and its delivery, and the
history: the last fact that another process has recorded of each worker, and what Glass has
accepted. -/
structure FactWorld where
  stored : Record
  pending : Dict String Intent
  watermarks : Dict String Seconds
  stage : DeliveryStage
  facts : Dict String Fact
  delivered : List (String × Fact)
deriving DecidableEq, Repr

/-- A step of the instance, or a record of another process. -/
inductive FactStep
  | record (now : Seconds) (workerId stateName description : String)
  | begin (due : String → Intent → Bool)
  | send (accepted : Bool)
  | merge
  | settle (now : Seconds)
  | persist (base : Record)
  | flush (base : Record)

/-- The watermark of a worker. -/
def watermark (watermarks : Dict String Seconds) (workerId : String) : Seconds :=
  (watermarks.get? workerId).getD 0

/-- The loop of `_merge_external_worker_facts_locked` at one worker. -/
def mergeFact (watermarks : Dict String Seconds) (pending : Dict String Intent)
    (entry : String × Intent) : Dict String Intent :=
  if entry.2.factUpdatedAt ≤ watermark watermarks entry.1 then pending
  else
    match pending.get? entry.1 with
    | none => pending.set entry.1 { entry.2 with phase := .published }
    | some localIntent =>
        if localIntent.factUpdatedAt < entry.2.factUpdatedAt then
          pending.set entry.1 { entry.2 with
            phase := if localIntent.phase = .published then .published else entry.2.phase }
        else pending

/-- `_merge_external_worker_facts_locked`. -/
def mergeExternal (stored : Record) (watermarks : Dict String Seconds)
    (pending : Dict String Intent) : Dict String Intent :=
  stored.pendingWorkers.entries.foldl (mergeFact watermarks) pending

/-- What `_state_payload` says of the workers. -/
def FactWorld.payload (w : FactWorld) (base : Record) : Record :=
  { base with
    pendingWorkers := w.pending.takeLast maxPendingWorkers
    workerDeliveryWatermarks := w.watermarks.takeLast maxPendingWorkers }

/-- `_persist(active=True)` by the owner of the entry. -/
def FactWorld.persist (w : FactWorld) (base : Record) : FactWorld :=
  { w with stored := mergeWorkers (w.payload base) w.stored }

/-- The delivery goes on with the next intent. -/
def afterIntent : List (String × Intent) → DeliveryStage
  | [] => .idle
  | rest => .sending rest

/-- What becomes of an intent after its answer, at this reading of the clock. -/
def FactWorld.settle (w : FactWorld) (now : Seconds) (workerId : String) (sent : Intent)
    (accepted : Bool) (rest : List (String × Intent)) : FactWorld :=
  match w.pending.get? workerId with
  | none => { w with stage := afterIntent rest }
  | some current =>
      if current.invocationId ≠ sent.invocationId then { w with stage := afterIntent rest }
      else if accepted then
        if sent.factUpdatedAt < current.factUpdatedAt then
          -- a worker fact raced the delivery and has to follow it
          { w with
            pending := w.pending.set workerId { current with
              phase := .published
              attempts := 0
              nextAttemptAt := 0 }
            stage := .settled rest }
        else
          { w with
            pending := w.pending.pop workerId
            watermarks := w.watermarks.set workerId (max now current.factUpdatedAt)
            stage := .settled rest }
      else
        { w with
          pending := w.pending.set workerId { current with
            attempts := current.attempts + 1
            nextAttemptAt := retryAt now (current.attempts + 1) }
          stage := .settled rest }

/-- The world after a step, if it can be taken. -/
def FactWorld.next (w : FactWorld) : FactStep → Option FactWorld
  | .record now workerId stateName description =>
      if 0 < now then
        (w.stored.pendingWorkers.get? workerId).bind fun intent =>
          (w.stored.recordWorker now workerId stateName description).map fun stored =>
            { w with
              stored := stored
              facts := w.facts.set workerId (intent.record now stateName description).fact }
      else none
  | .begin due =>
      match w.stage with
      | .idle =>
          let pending := mergeExternal w.stored w.watermarks w.pending
          some { w with
            pending := pending
            stage := afterIntent (pending.entries.filter fun entry =>
              entry.2.phase ≠ .prepared && due entry.1 entry.2) }
      | _ => none
  | .send accepted =>
      match w.stage with
      | .sending ((workerId, sent) :: rest) =>
          some { w with
            stage := .answered workerId sent accepted rest
            delivered :=
              if accepted then (workerId, sent.fact) :: w.delivered else w.delivered }
      | _ => none
  | .merge =>
      match w.stage with
      | .answered workerId sent accepted rest =>
          some { w with
            pending := mergeExternal w.stored w.watermarks w.pending
            stage := .merged workerId sent accepted rest }
      | _ => none
  | .settle now =>
      match w.stage with
      | .merged workerId sent accepted rest => some (w.settle now workerId sent accepted rest)
      | _ => none
  | .persist base =>
      match w.stage with
      | .settled rest => some { w.persist base with stage := afterIntent rest }
      | _ => none
  | .flush base => if w.stage.locked then none else some (w.persist base)

/-- The lifecycle has just persisted what it knows. -/
def FactWorld.Fresh (w : FactWorld) : Prop :=
  w.stage = .idle ∧ w.stored.pendingWorkers = w.pending ∧ w.facts = Dict.empty ∧
    w.delivered = []

/-- All runs of one lifecycle and the processes that record facts for it. -/
def recording : TransitionSystem FactWorld FactStep where
  init w := w.Fresh
  step w step w' := w.next step = some w'

/-- After Glass has accepted what was sent of a worker, the clock is read before any fact is
recorded that has not been merged. -/
def ReadsInTime (w : FactWorld) (now : Seconds) : DeliveryStage → Prop
  | .merged workerId _ true _ =>
      ∀ stored ∈ w.stored.pendingWorkers.get? workerId, ∀ current ∈ w.pending.get? workerId,
        stored.factUpdatedAt ≤ current.factUpdatedAt ∨ now < stored.factUpdatedAt
  | _ => True

/-- Facts are stamped after all that the lifecycle has stamped for their workers, and the
lifecycle reads the clock in time. -/
def Ordered (w : FactWorld) : FactStep → Prop
  | .record now workerId _ _ =>
      watermark w.watermarks workerId < now ∧
        ∀ intent ∈ w.pending.get? workerId, intent.factUpdatedAt < now
  | .settle now => ReadsInTime w now w.stage
  | _ => True

instance (w : FactWorld) (now : Seconds) (stage : DeliveryStage) :
    Decidable (ReadsInTime w now stage) :=
  match stage with
  | .merged workerId _ true _ => inferInstanceAs (Decidable (∀ stored ∈
      w.stored.pendingWorkers.get? workerId, ∀ current ∈ w.pending.get? workerId,
        stored.factUpdatedAt ≤ current.factUpdatedAt ∨ now < stored.factUpdatedAt))
  | .merged _ _ false _ => isTrue trivial
  | .idle => isTrue trivial
  | .sending _ => isTrue trivial
  | .answered .. => isTrue trivial
  | .settled _ => isTrue trivial

instance (w : FactWorld) (step : FactStep) : Decidable (Ordered w step) :=
  match step with
  | .record now workerId _ _ => inferInstanceAs (Decidable
      (watermark w.watermarks workerId < now ∧
        ∀ intent ∈ w.pending.get? workerId, intent.factUpdatedAt < now))
  | .settle now => inferInstanceAs (Decidable (ReadsInTime w now w.stage))
  | .begin _ => isTrue trivial
  | .send _ => isTrue trivial
  | .merge => isTrue trivial
  | .persist _ => isTrue trivial
  | .flush _ => isTrue trivial

/-- A fact is in the entry, with the lifecycle, or delivered. -/
def FactKept (w : FactWorld) (workerId : String) (fact : Fact) : Prop :=
  (w.stored.pendingWorkers.get? workerId).map Intent.fact = some fact ∨
    (w.pending.get? workerId).map Intent.fact = some fact ∨ (workerId, fact) ∈ w.delivered

/-- No last fact of a worker is lost. -/
def NoFactLost (w : FactWorld) : Prop :=
  ∀ workerId fact, w.facts.get? workerId = some fact → FactKept w workerId fact

variable {w w' : FactWorld} {workerId : String} {fact : Fact} {stored : Record}
  {watermarks : Dict String Seconds} {pending : Dict String Intent}

/-! ## Merging -/

/-- What merging leaves of a worker. -/
def mergedIntent (watermarks : Dict String Seconds) (workerId : String) (external : Intent) :
    Option Intent → Option Intent
  | none =>
      if external.factUpdatedAt ≤ watermark watermarks workerId then none
      else some { external with phase := .published }
  | some localIntent =>
      if external.factUpdatedAt ≤ watermark watermarks workerId then some localIntent
      else if localIntent.factUpdatedAt < external.factUpdatedAt then
        some { external with
          phase := if localIntent.phase = .published then .published else external.phase }
      else some localIntent

theorem get?_mergeExternal (stored : Record) (watermarks : Dict String Seconds)
    (pending : Dict String Intent) (workerId : String) :
    (mergeExternal stored watermarks pending).get? workerId =
      (stored.pendingWorkers.get? workerId).elim (pending.get? workerId) fun external =>
        mergedIntent watermarks workerId external (pending.get? workerId) := by
  apply Dict.get?_foldl (f := mergedIntent watermarks)
  · intro acc entry
    unfold mergeFact mergedIntent
    cases hget : acc.get? entry.1 with
    | none =>
        split_ifs
        · exact hget
        · exact Dict.get?_set_self _ _ _
    | some localIntent =>
        dsimp only
        split_ifs
        · exact hget
        · exact Dict.get?_set_self _ _ _
        · exact Dict.get?_set_self _ _ _
        · exact hget
  · intro acc entry k hother
    unfold mergeFact
    split
    · rfl
    · split
      · exact Dict.get?_set_of_ne _ _ hother
      · split
        · exact Dict.get?_set_of_ne _ _ hother
        · rfl

/-- What persisting leaves of a worker. -/
def persistedIntent (payload : Record) (workerId : String) (external : Intent) :
    Option Intent → Option Intent
  | none =>
      if watermark payload.workerDeliveryWatermarks workerId < external.factUpdatedAt then
        some { external with phase := .published }
      else none
  | some localIntent =>
      if localIntent.factUpdatedAt < external.factUpdatedAt then some external
      else some localIntent

theorem get?_mergeWorkers (payload stored : Record) (workerId : String) :
    (mergeWorkers payload stored).pendingWorkers.get? workerId =
      (stored.pendingWorkers.get? workerId).elim (payload.pendingWorkers.get? workerId)
        fun external =>
          persistedIntent payload workerId external (payload.pendingWorkers.get? workerId) := by
  apply Dict.get?_foldl (f := persistedIntent payload)
  · intro acc entry
    unfold mergeWorker persistedIntent watermark
    cases hget : acc.get? entry.1 with
    | none =>
        dsimp only
        split_ifs
        · exact Dict.get?_set_self _ _ _
        · exact hget
    | some localIntent =>
        dsimp only
        split_ifs
        · exact Dict.get?_set_self _ _ _
        · exact hget
  · intro acc entry k hother
    unfold mergeWorker
    split
    · split
      · exact Dict.get?_set_of_ne _ _ hother
      · rfl
    · split
      · exact Dict.get?_set_of_ne _ _ hother
      · rfl

/-! ## Facts in runs -/

/-- A fact that is stored and has not been delivered is newer than what the lifecycle knows, or
the lifecycle knows it. -/
structure Waiting (w : FactWorld) (workerId : String) (fact : Fact) : Prop where
  stored : (w.stored.pendingWorkers.get? workerId).map Intent.fact = some fact
  positive : 0 < fact.stamp
  newer : watermark w.watermarks workerId < fact.stamp
  known : ∀ intent, w.pending.get? workerId = some intent →
    intent.factUpdatedAt < fact.stamp ∨ intent.fact = fact

/-- What a delivery has copied is what the lifecycle knows of the worker, or older. -/
def Copied (pending : Dict String Intent) (copy : String × Intent) : Prop :=
  ∃ intent, pending.get? copy.1 = some intent ∧
    (intent.fact = copy.2.fact ∨ copy.2.factUpdatedAt < intent.factUpdatedAt)

/-- What holds in runs with ordered stamps. -/
structure FactInv (w : FactWorld) : Prop where
  waits : ∀ workerId fact, w.facts.get? workerId = some fact →
    (workerId, fact) ∈ w.delivered ∨ Waiting w workerId fact
  distinct : (w.stage.copies.map Prod.fst).Nodup
  copies : ∀ copy ∈ w.stage.copies, Copied w.pending copy
  sent : ∀ workerId sent rest, w.stage = .merged workerId sent true rest ∨
    w.stage = .answered workerId sent true rest → (workerId, sent.fact) ∈ w.delivered

/-- Merging moves a worker to a later fact of the entry, or leaves it. -/
theorem mergeExternal_cases {intent : Intent}
    (h : (mergeExternal stored watermarks pending).get? workerId = some intent) :
    pending.get? workerId = some intent ∨
      ∃ external, stored.pendingWorkers.get? workerId = some external ∧
        intent.fact = external.fact := by
  rw [get?_mergeExternal] at h
  cases hstored : stored.pendingWorkers.get? workerId with
  | none =>
      rw [hstored] at h
      exact .inl h
  | some external =>
      rw [hstored, Option.elim_some] at h
      unfold mergedIntent at h
      cases hbefore : pending.get? workerId with
      | none =>
          rw [hbefore] at h
          dsimp only at h
          split_ifs at h
          cases h
          exact .inr ⟨external, rfl, rfl⟩
      | some before =>
          rw [hbefore] at h
          dsimp only at h
          split_ifs at h
          · exact .inl h
          · cases h
            exact .inr ⟨external, rfl, rfl⟩
          · cases h
            exact .inr ⟨external, rfl, rfl⟩
          · exact .inl h

/-- What the lifecycle knows of a worker is only replaced by what is later. -/
theorem Copied.merge {copy : String × Intent} (h : Copied pending copy) :
    Copied (mergeExternal stored watermarks pending) copy := by
  rcases h with ⟨before, hbefore, hcopy⟩
  have hlater : ∀ external, stored.pendingWorkers.get? copy.1 = some external →
      before.factUpdatedAt < external.factUpdatedAt → ∀ intent : Intent,
        intent.fact = external.fact → intent.fact = copy.2.fact ∨
          copy.2.factUpdatedAt < intent.factUpdatedAt := by
    intro external _ hless intent hsame
    right
    have hstamp : intent.factUpdatedAt = external.factUpdatedAt := congrArg Fact.stamp hsame
    rw [hstamp]
    rcases hcopy with hcopied | hold
    · have hstamps : before.factUpdatedAt = copy.2.factUpdatedAt := congrArg Fact.stamp hcopied
      rw [← hstamps]
      exact hless
    · exact hold.trans hless
  unfold Copied
  rw [get?_mergeExternal]
  cases hstored : stored.pendingWorkers.get? copy.1 with
  | none => exact ⟨before, hbefore, hcopy⟩
  | some external =>
      rw [Option.elim_some, hbefore]
      unfold mergedIntent
      dsimp only
      split_ifs with hold hnewer
      · exact ⟨before, rfl, hcopy⟩
      · exact ⟨_, rfl, hlater external hstored hnewer _ rfl⟩
      · exact ⟨_, rfl, hlater external hstored hnewer _ rfl⟩
      · exact ⟨before, rfl, hcopy⟩

theorem Waiting.merge (h : Waiting w workerId fact) (stage : DeliveryStage) :
    Waiting { w with
      pending := mergeExternal w.stored w.watermarks w.pending
      stage := stage } workerId fact where
  stored := h.stored
  positive := h.positive
  newer := h.newer
  known := by
    intro intent hget
    rcases mergeExternal_cases hget with hbefore | ⟨external, hexternal, hsame⟩
    · exact h.known intent hbefore
    · right
      have hstored := h.stored
      rw [hexternal, Option.map_some] at hstored
      exact hsame.trans (Option.some.inj hstored)

theorem watermark_takeLast {n : Nat} :
    watermark (watermarks.takeLast n) workerId = watermark watermarks workerId ∨
      watermark (watermarks.takeLast n) workerId = 0 := by
  unfold watermark
  cases hlast : (watermarks.takeLast n).get? workerId with
  | none => exact .inr rfl
  | some value => exact .inl (by rw [Dict.get?_of_takeLast hlast])

/-- Persisting keeps a waiting fact in the entry. -/
theorem Waiting.persist (h : Waiting w workerId fact) (base : Record) :
    Waiting (w.persist base) workerId fact where
  stored := by
    change ((mergeWorkers (w.payload base) w.stored).pendingWorkers.get? workerId).map
      Intent.fact = some fact
    rw [get?_mergeWorkers]
    have hstored := h.stored
    cases hget : w.stored.pendingWorkers.get? workerId with
    | none =>
        rw [hget] at hstored
        cases hstored
    | some external =>
        rw [hget, Option.map_some, Option.some.injEq] at hstored
        rw [Option.elim_some]
        have hstamp : external.factUpdatedAt = fact.stamp := congrArg Fact.stamp hstored
        unfold persistedIntent
        split
        · rename_i hnone
          have hnewer : watermark (w.payload base).workerDeliveryWatermarks workerId <
              external.factUpdatedAt := by
            rw [hstamp]
            rcases @watermark_takeLast workerId w.watermarks maxPendingWorkers with hsame | hzero
            · exact hsame ▸ h.newer
            · exact hzero ▸ h.positive
          rw [if_pos hnewer]
          exact congrArg some hstored
        · rename_i intent hintent
          split
          · exact congrArg some hstored
          · rename_i hold
            rcases h.known intent (Dict.get?_of_takeLast hintent) with hless | hsame
            · rw [← hstamp] at hless
              exact absurd hless hold
            · exact congrArg some hsame
  positive := h.positive
  newer := h.newer
  known := h.known

theorem copies_afterIntent (rest : List (String × Intent)) :
    (afterIntent rest).copies = rest := by
  cases rest <;> rfl

theorem afterIntent_sent {rest : List (String × Intent)} {sent : Intent}
    {later : List (String × Intent)} {accepted : Bool} :
    afterIntent rest ≠ .merged workerId sent accepted later ∧
      afterIntent rest ≠ .answered workerId sent accepted later := by
  cases rest <;> exact ⟨nofun, nofun⟩

theorem FactInv.record (h : FactInv w) {now : Seconds} {stateName description : String}
    {intent : Intent} (hpositive : 0 < now)
    (hordered : Ordered w (.record now workerId stateName description)) :
    FactInv { w with
      stored := { w.stored with
        pendingWorkers := w.stored.pendingWorkers.set workerId
          (intent.record now stateName description)
        updatedAt := now }
      facts := w.facts.set workerId (intent.record now stateName description).fact } where
  waits := by
    intro other fact hfact
    dsimp only at hfact ⊢
    rw [Dict.get?_set] at hfact
    split at hfact
    · rename_i hsame
      subst hsame
      cases hfact
      right
      constructor
      · exact congrArg (Option.map Intent.fact) (Dict.get?_set_self _ _ _)
      · exact hpositive
      · exact hordered.1
      · exact fun known hknown => .inl (hordered.2 known hknown)
    · rename_i hother
      rcases h.waits other fact hfact with hdelivered | hwaiting
      · exact .inl hdelivered
      · right
        constructor
        · dsimp only
          rw [Dict.get?_set_of_ne _ _ hother]
          exact hwaiting.stored
        · exact hwaiting.positive
        · exact hwaiting.newer
        · exact hwaiting.known
  distinct := h.distinct
  copies := h.copies
  sent := h.sent

/-- A change of the stage, of the deliveries and of the workers that keeps what waits. -/
theorem FactInv.of_waits (h : FactInv w) (hfacts : w'.facts = w.facts)
    (hdelivered : w.delivered ⊆ w'.delivered)
    (hwaits : ∀ workerId fact, (workerId, fact) ∉ w'.delivered → Waiting w workerId fact →
      Waiting w' workerId fact)
    (hdistinct : (w'.stage.copies.map Prod.fst).Nodup)
    (hcopies : ∀ copy ∈ w'.stage.copies, Copied w'.pending copy)
    (hsent : ∀ workerId sent rest, w'.stage = .merged workerId sent true rest ∨
      w'.stage = .answered workerId sent true rest → (workerId, sent.fact) ∈ w'.delivered) :
    FactInv w' where
  waits := by
    intro workerId fact hfact
    rw [hfacts] at hfact
    by_cases hmem : (workerId, fact) ∈ w'.delivered
    · exact .inl hmem
    · rcases h.waits workerId fact hfact with hold | hwaiting
      · exact .inl (hdelivered hold)
      · exact .inr (hwaits workerId fact hmem hwaiting)
  distinct := hdistinct
  copies := hcopies
  sent := hsent

theorem FactInv.persist (h : FactInv w) (base : Record) : FactInv (w.persist base) := by
  apply h.of_waits
  · rfl
  · exact List.Subset.refl _
  · exact fun _ _ _ hwaiting => hwaiting.persist base
  · exact h.distinct
  · exact h.copies
  · exact h.sent

/-- The delivery goes on behind these intents. -/
theorem FactInv.goesOn (h : FactInv w) {rest : List (String × Intent)}
    (hdistinct : (rest.map Prod.fst).Nodup) (hcopies : ∀ copy ∈ rest, Copied w.pending copy) :
    FactInv { w with stage := afterIntent rest } := by
  apply h.of_waits
  · rfl
  · exact List.Subset.refl _
  · exact fun _ _ _ hwaiting =>
      ⟨hwaiting.stored, hwaiting.positive, hwaiting.newer, hwaiting.known⟩
  · rw [copies_afterIntent]
    exact hdistinct
  · rw [copies_afterIntent]
    exact hcopies
  · rintro other copy later (hafter | hafter)
    · exact absurd hafter afterIntent_sent.1
    · exact absurd hafter afterIntent_sent.2

theorem FactInv.begin (h : FactInv w) (due : String → Intent → Bool) :
    FactInv { w with
      pending := mergeExternal w.stored w.watermarks w.pending
      stage := afterIntent ((mergeExternal w.stored w.watermarks w.pending).entries.filter
        fun entry => entry.2.phase ≠ .prepared && due entry.1 entry.2) } := by
  apply h.of_waits
  · rfl
  · exact List.Subset.refl _
  · exact fun _ _ _ hwaiting => hwaiting.merge _
  · rw [copies_afterIntent]
    exact (mergeExternal w.stored w.watermarks w.pending).nodup.sublist
      (List.filter_sublist.map _)
  · intro copy hmem
    rw [copies_afterIntent, List.mem_filter] at hmem
    exact ⟨copy.2, (Dict.get?_eq_some_iff _ _ _).mpr hmem.1, .inl rfl⟩
  · rintro workerId sent rest (hstage | hstage)
    · exact absurd hstage afterIntent_sent.1
    · exact absurd hstage afterIntent_sent.2

/-- Settling a worker that is no copy of the rest leaves the copies of the rest. -/
theorem copies_rest {sent : Intent} {rest : List (String × Intent)} {pending' : Dict String Intent}
    (hdistinct : (((workerId, sent) :: rest).map Prod.fst).Nodup)
    (hcopies : ∀ copy ∈ (workerId, sent) :: rest, Copied pending copy)
    (hother : ∀ other, workerId ≠ other → pending'.get? other = pending.get? other) :
    ∀ copy ∈ rest, Copied pending' copy := by
  intro copy hmem
  rw [List.map_cons, List.nodup_cons] at hdistinct
  have hne : workerId ≠ copy.1 := by
    intro hsame
    apply hdistinct.1
    rw [hsame]
    exact List.mem_map.mpr ⟨copy, hmem, rfl⟩
  unfold Copied
  rw [hother copy.1 hne]
  exact hcopies copy (List.mem_cons_of_mem _ hmem)

/-- A worker that keeps its fact keeps what waits. -/
theorem Waiting.refresh (h : Waiting w workerId fact) {other : String} {current intent : Intent}
    (hcurrent : w.pending.get? other = some current) (hsame : intent.fact = current.fact)
    (stage : DeliveryStage) :
    Waiting { w with
      pending := w.pending.set other intent
      stage := stage } workerId fact where
  stored := h.stored
  positive := h.positive
  newer := h.newer
  known := by
    intro found hfound
    dsimp only at hfound
    rw [Dict.get?_set] at hfound
    split at hfound
    · rename_i hworker
      subst hworker
      cases hfound
      rcases h.known current hcurrent with hless | hfact
      · left
        have hstamp : intent.factUpdatedAt = current.factUpdatedAt := congrArg Fact.stamp hsame
        rw [hstamp]
        exact hless
      · exact .inr (hsame.trans hfact)
    · exact h.known found hfound

/-- What waits when its worker is settled is newer than the watermark. -/
theorem Waiting.settle (h : Waiting w workerId fact) {now : Seconds} {other : String}
    {sent current : Intent} (stage : DeliveryStage)
    (hcurrent : w.pending.get? other = some current)
    (hlate : ¬ sent.factUpdatedAt < current.factUpdatedAt)
    (hcopied : Copied w.pending (other, sent)) (hsent : (other, sent.fact) ∈ w.delivered)
    (hclock : ∀ stored, w.stored.pendingWorkers.get? other = some stored →
      stored.factUpdatedAt ≤ current.factUpdatedAt ∨ now < stored.factUpdatedAt)
    (hundelivered : (workerId, fact) ∉ w.delivered) :
    Waiting { w with
      pending := w.pending.pop other
      watermarks := w.watermarks.set other (max now current.factUpdatedAt)
      stage := stage } workerId fact where
  stored := h.stored
  positive := h.positive
  newer := by
    unfold watermark
    rw [Dict.get?_set]
    split
    · rename_i hsame
      subst hsame
      rw [Option.getD_some]
      rcases hcopied with ⟨found, hfound, hcopy⟩
      rw [hcurrent] at hfound
      cases hfound
      have hcopy : current.fact = sent.fact := hcopy.resolve_right hlate
      have hless : current.factUpdatedAt < fact.stamp := by
        rcases h.known current hcurrent with hless | hfact
        · exact hless
        · rw [← hfact, hcopy] at hundelivered
          exact absurd hsent hundelivered
      cases hstored : w.stored.pendingWorkers.get? other with
      | none =>
          have hwaits := h.stored
          rw [hstored] at hwaits
          cases hwaits
      | some external =>
          have hwaits := h.stored
          rw [hstored, Option.map_some, Option.some.injEq] at hwaits
          have hstamp : external.factUpdatedAt = fact.stamp := congrArg Fact.stamp hwaits
          have hnow := hclock external hstored
          rw [hstamp] at hnow
          exact max_lt (hnow.resolve_left (not_le.mpr hless)) hless
    · exact h.newer
  known := by
    intro intent hget
    dsimp only at hget
    rw [Dict.get?_pop_eq_some_iff] at hget
    exact h.known intent hget.2

theorem FactInv.settle (h : FactInv w) {now : Seconds} {sent : Intent} {accepted : Bool}
    {rest : List (String × Intent)} (hstage : w.stage = .merged workerId sent accepted rest)
    (hordered : Ordered w (.settle now)) :
    FactInv (w.settle now workerId sent accepted rest) := by
  have hdistinct := h.distinct
  have hcopies := h.copies
  rw [hstage] at hdistinct hcopies
  have hrestDistinct : (rest.map Prod.fst).Nodup := (List.nodup_cons.mp hdistinct).2
  have hkept : ∀ pending' : Dict String Intent,
      (∀ other, workerId ≠ other → pending'.get? other = w.pending.get? other) →
        ∀ copy ∈ rest, Copied pending' copy :=
    fun pending' hother => copies_rest hdistinct hcopies hother
  unfold FactWorld.settle
  split
  · -- the worker has gone meanwhile
    exact h.goesOn hrestDistinct (hkept _ fun _ _ => rfl)
  rename_i current hcurrent
  split
  · exact h.goesOn hrestDistinct (hkept _ fun _ _ => rfl)
  split
  · rename_i haccepted
    subst haccepted
    split
    · -- a fact that raced the delivery stays with the lifecycle
      apply h.of_waits
      · rfl
      · exact List.Subset.refl _
      · intro other fact _ hwaiting
        apply hwaiting.refresh hcurrent
        rfl
      · exact hrestDistinct
      · exact hkept _ fun other hne => Dict.get?_set_of_ne _ _ hne
      · rintro other copy later (hafter | hafter) <;> cases hafter
    · rename_i hlate
      have hclock := hordered
      unfold Ordered at hclock
      rw [hstage] at hclock
      apply h.of_waits
      · rfl
      · exact List.Subset.refl _
      · intro other fact hundelivered hwaiting
        exact hwaiting.settle _ hcurrent hlate (hcopies _ List.mem_cons_self)
          (h.sent workerId sent rest (.inl hstage))
          (fun stored hstored => hclock stored hstored current hcurrent) hundelivered
      · exact hrestDistinct
      · exact hkept _ fun other hne => Dict.get?_pop_of_ne _ hne
      · rintro other copy later (hafter | hafter) <;> cases hafter
  · apply h.of_waits
    · rfl
    · exact List.Subset.refl _
    · intro other fact _ hwaiting
      apply hwaiting.refresh hcurrent
      rfl
    · exact hrestDistinct
    · exact hkept _ fun other hne => Dict.get?_set_of_ne _ _ hne
    · rintro other copy later (hafter | hafter) <;> cases hafter

theorem FactInv.step {step : FactStep} (h : FactInv w) (hordered : Ordered w step)
    (hnext : w.next step = some w') : FactInv w' := by
  cases step with
  | record now workerId stateName description =>
      unfold FactWorld.next at hnext
      dsimp only at hnext
      split at hnext
      · rename_i hpositive
        rcases Option.bind_eq_some_iff.mp hnext with ⟨intent, hget, hrecord⟩
        unfold Record.recordWorker at hrecord
        rw [hget] at hrecord
        cases hrecord
        exact h.record hpositive hordered
      · cases hnext
  | begin due =>
      unfold FactWorld.next at hnext
      dsimp only at hnext
      split at hnext
      · cases hnext
        exact h.begin due
      · cases hnext
  | send accepted =>
      unfold FactWorld.next at hnext
      dsimp only at hnext
      split at hnext
      · rename_i workerId sent rest hstage
        cases hnext
        have hdistinct := h.distinct
        have hcopies := h.copies
        rw [hstage] at hdistinct hcopies
        apply h.of_waits
        · rfl
        · dsimp only
          split
          · exact List.subset_cons_self _ _
          · exact List.Subset.refl _
        · exact fun _ _ _ hwaiting =>
            ⟨hwaiting.stored, hwaiting.positive, hwaiting.newer, hwaiting.known⟩
        · exact hdistinct
        · exact hcopies
        · rintro other copy later (hafter | hafter)
          · cases hafter
          · cases hafter
            exact List.mem_cons_self
      · cases hnext
  | merge =>
      unfold FactWorld.next at hnext
      dsimp only at hnext
      split at hnext
      · rename_i workerId sent accepted rest hstage
        cases hnext
        have hdistinct := h.distinct
        have hcopies := h.copies
        rw [hstage] at hdistinct hcopies
        apply h.of_waits
        · rfl
        · exact List.Subset.refl _
        · exact fun _ _ _ hwaiting => hwaiting.merge _
        · exact hdistinct
        · exact fun copy hmem => (hcopies copy hmem).merge
        · rintro other copy later (hafter | hafter)
          · cases hafter
            exact h.sent workerId sent rest (.inr hstage)
          · cases hafter
      · cases hnext
  | settle now =>
      unfold FactWorld.next at hnext
      dsimp only at hnext
      split at hnext
      · rename_i workerId sent accepted rest hstage
        cases hnext
        exact h.settle hstage hordered
      · cases hnext
  | persist base =>
      unfold FactWorld.next at hnext
      dsimp only at hnext
      split at hnext
      · rename_i rest hstage
        cases hnext
        have hpersist := h.persist base
        have hdistinct := hpersist.distinct
        have hcopies := hpersist.copies
        change (w.stage.copies.map Prod.fst).Nodup at hdistinct
        change ∀ copy ∈ w.stage.copies, Copied w.pending copy at hcopies
        rw [hstage] at hdistinct hcopies
        exact hpersist.goesOn hdistinct hcopies
      · cases hnext
  | flush base =>
      unfold FactWorld.next at hnext
      dsimp only at hnext
      split at hnext
      · cases hnext
      · cases hnext
        exact h.persist base

theorem FactInv.noFactLost (h : FactInv w) : NoFactLost w := by
  intro workerId fact hfact
  rcases h.waits workerId fact hfact with hdelivered | hwaiting
  · exact .inr (.inr hdelivered)
  · exact .inl hwaiting.stored

theorem fresh_inv (h : w.Fresh) : FactInv w := by
  rcases h with ⟨hstage, -, hfacts, -⟩
  constructor
  · intro workerId fact hfact
    rw [hfacts, Dict.get?_empty] at hfact
    cases hfact
  · rw [hstage]
    exact List.nodup_nil
  · rw [hstage]
    exact fun copy hmem => nomatch hmem
  · rintro workerId sent rest (hafter | hafter)
    · rw [hstage] at hafter
      cases hafter
    · rw [hstage] at hafter
      cases hafter

/-- No fact is lost in a run whose stamps are ordered. -/
theorem facts_kept {start : FactWorld} {steps : List FactStep} (hinit : start.Fresh)
    (hrun : (recording.restrict Ordered).Run start steps w) : NoFactLost w := by
  have hreach : (recording.restrict Ordered).Reachable w :=
    TransitionSystem.Reachable.run (.init hinit) hrun
  have hinv : FactInv w := by
    apply hreach.invariant
    · exact fun v hfresh => fresh_inv hfresh
    · exact fun v step v' _ hinv hstep => hinv.step hstep.1 hstep.2
  exact hinv.noFactLost

/-! ## A completion during a delivery -/

def builderIntent : Intent where
  invocationId := "i1"
  phase := .launched
  state := "in_progress"
  stateDescription := "Terminal worker is running"
  attempts := 0
  nextAttemptAt := 0
  factUpdatedAt := 1

/-- A lifecycle with one worker whose start Glass has not seen. -/
def builderWorld : FactWorld where
  stored := { Record.fresh 1 "r1" with pendingWorkers := Dict.empty.set "builder" builderIntent }
  pending := Dict.empty.set "builder" builderIntent
  watermarks := Dict.empty
  stage := .idle
  facts := Dict.empty
  delivered := []

/-- Glass has accepted the start. -/
def startSent : List FactStep :=
  [.begin fun _ _ => true, .send true]

/-- The worker completes before the lifecycle reads the entry again, or right after that. -/
def completion (late : Bool) : List FactStep :=
  let record : FactStep := .record 5 "builder" "completed" "Worker completed"
  startSent ++ (if late then [.merge, record] else [record, .merge]) ++
    [.settle 6, .persist (Record.fresh 7 "r1")]

def completionWorld (steps : List FactStep) : Option FactWorld :=
  TransitionSystem.play FactWorld.next builderWorld steps

/-- The same run, if its stamps are ordered. -/
def orderedWorld (steps : List FactStep) : Option FactWorld :=
  TransitionSystem.play (fun w step => if Ordered w step then w.next step else none) builderWorld
    steps

/-- The completion stays when it was merged. -/
theorem facts_kept_builder :
    (orderedWorld (completion false)).isSome = true ∧
      ∀ w, orderedWorld (completion false) = some w → NoFactLost w := by
  constructor
  · decide +kernel
  · intro w hplay
    apply (@facts_kept _ builderWorld _) ⟨rfl, rfl, rfl, rfl⟩
    apply TransitionSystem.Run.play _ hplay
    intro v step v' hnext
    split at hnext
    · rename_i hordered
      exact ⟨hordered, hnext⟩
    · cases hnext

/-- The completion that came after the merge and before the clock was read is gone. -/
theorem fact_lost : ¬ ∀ w, recording.Reachable w → NoFactLost w := by
  intro hclaim
  have hlost : (completionWorld (completion true)).map (fun w =>
      (w.facts.get? "builder", w.stored.pendingWorkers.get? "builder", w.pending.get? "builder",
        w.delivered)) =
      some (some ⟨"completed", "Worker completed", 5⟩, none, none,
        [("builder", builderIntent.fact)]) := by
    decide +kernel
  rcases Option.map_eq_some_iff.mp hlost with ⟨w, hplay, hw⟩
  rw [Prod.mk.injEq, Prod.mk.injEq, Prod.mk.injEq] at hw
  rcases hw with ⟨hfact, hstored, hpending, hdelivered⟩
  have hreach : recording.Reachable w :=
    TransitionSystem.Reachable.play (.init ⟨rfl, rfl, rfl, rfl⟩) (fun _ _ _ h => h) hplay
  rcases hclaim w hreach "builder" _ hfact with hkept | hkept | hkept
  · rw [hstored] at hkept
    cases hkept
  · rw [hpending] at hkept
    cases hkept
  · rw [hdelivered] at hkept
    revert hkept
    decide +kernel

end LongTasks
end Stemcell
