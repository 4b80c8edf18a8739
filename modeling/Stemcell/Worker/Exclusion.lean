import Stemcell.Worker.BrowserQueue

/-!
# Exclusion of profiled browsers

What the profile lock and the queue lock keep up in every interleaving of calls: one profiled
browser at a time, each worker once in the queue, and a queue that is left in its order.  A launch
outside the profile lock does not look at the queue, so a worker can be active and queued.

Main results:

- Theorem `lockInv_step`: the invariant of the locks.
- Theorem `browser_law`: exclusion, order and departure in every run, and the runs in which no
  worker is active and queued.
- Theorem `active_and_queued`: a message that overtakes the failure of an incognito start.
-/

namespace Stemcell
namespace Worker

open Lib

/-! ## Stages -/

/-- The thread holds the profile lock. -/
def CallStage.holdsProfile : CallStage → Bool
  | .entered _ | .notActive _ | .notQueued _ | .appending _ => true
  | .locked s => s.profiled
  | .launching s fromQueue | .spawned s fromQueue | .recorded s fromQueue =>
      fromQueue || s.profiled
  | .drainEntered | .drainLocked | .drainFree => true
  | _ => false

/-- The thread holds the queue lock. -/
def CallStage.holdsQueue : CallStage → Bool
  | .notActive _ | .notQueued _ | .appending _ => true
  | .locked s => s.profiled
  | .launching s fromQueue | .spawned s fromQueue | .recorded s fromQueue =>
      fromQueue || s.profiled
  | .stopLocked _ _ | .drainLocked | .drainFree => true
  | _ => false

/-- The worker that the thread has found not to be queued, while it holds the queue lock. -/
def CallStage.unqueued : CallStage → Option String
  | .notQueued s | .appending s => some s.workerId
  | .launching s fromQueue | .spawned s fromQueue =>
      if fromQueue || s.profiled then some s.workerId else none
  | _ => none

/-- The thread has found the profile free, while it holds the profile lock. -/
def CallStage.seesFree : CallStage → Bool
  | .launching s fromQueue | .spawned s fromQueue => fromQueue || s.profiled
  | .drainFree => true
  | _ => false

theorem CallStage.holdsQueue_of_unqueued {stage : CallStage} {workerId : String}
    (h : stage.unqueued = some workerId) : stage.holdsQueue = true := by
  cases stage with
  | launching s fromQueue =>
      unfold CallStage.unqueued at h
      dsimp only at h
      split_ifs at h with hlocked
      exact hlocked
  | spawned s fromQueue =>
      unfold CallStage.unqueued at h
      dsimp only at h
      split_ifs at h with hlocked
      exact hlocked
  | notQueued s => rfl
  | appending s => rfl
  | _ => cases h

theorem CallStage.holdsProfile_of_seesFree {stage : CallStage} (h : stage.seesFree = true) :
    stage.holdsProfile = true := by
  cases stage with
  | launching s fromQueue => exact h
  | spawned s fromQueue => exact h
  | drainFree => rfl
  | _ => cases h

/-! ## The invariant -/

/-- No profiled browser is active. -/
def NoneProfiled (active : Dict String ActiveWorker) : Prop :=
  ∀ workerId record, active.get? workerId = some record → record.profiled = false

/-- At most one profiled browser is active. -/
def AtMostOneProfiled (active : Dict String ActiveWorker) : Prop :=
  ∀ a b first second, active.get? a = some first → active.get? b = some second →
    first.profiled = true → second.profiled = true → a = b

/-- Jobs leave the queue in the order they entered it except when they are stopped, and none is
lost. -/
structure InOrder (w : BrowserWorld) : Prop where
  order : (w.attempted ++ w.launching.toList ++ w.queue).Sublist w.entered
  kept : w.entered.Perm (w.attempted ++ w.launching.toList ++ w.queue ++ w.stopped)

/-- What the locks keep up. -/
structure LockInv (w : BrowserWorld) : Prop where
  profile : ∀ t, (w.calls t).holdsProfile = true → w.profileLock = some t
  queueLock : ∀ t, (w.calls t).holdsQueue = true → w.queueLock = some t
  unqueued : ∀ t workerId, (w.calls t).unqueued = some workerId → workerId ∉ w.queued
  free : ∀ t, (w.calls t).seesFree = true → NoneProfiled w.active
  single : AtMostOneProfiled w.active
  nodup : w.queued.Nodup
  launching : ∀ job, w.launching = some job → ∃ t, w.calls t = .launching job.start true
  inOrder : InOrder w

variable {isAlnum : Char → Bool} {w w' : BrowserWorld} {e : CallEvent} {thread : Nat}
  {stage : CallStage}

theorem noneProfiled_of_not_active (h : isProfiledBrowserActive w.active = false) :
    NoneProfiled w.active := by
  intro workerId record hget
  unfold isProfiledBrowserActive at h
  rw [List.any_eq_false] at h
  have hmem : record ∈ w.active.values := Dict.mem_values.mpr ⟨workerId, hget⟩
  simpa using h record hmem

/-- A thread goes on to a stage whose claims hold. -/
theorem LockInv.become (h : LockInv w)
    (hprofile : stage.holdsProfile = true → w.profileLock = some thread)
    (hqueue : stage.holdsQueue = true → w.queueLock = some thread)
    (hunqueued : ∀ workerId, stage.unqueued = some workerId → workerId ∉ w.queued)
    (hfree : stage.seesFree = true → NoneProfiled w.active)
    (hlaunching : ∀ job, w.launching = some job → w.calls thread ≠ .launching job.start true) :
    LockInv (w.become thread stage) := by
  have hcalls : ∀ t, (w.become thread stage).calls t = if t = thread then stage else w.calls t :=
    fun t => Function.update_apply ..
  constructor
  · intro t ht
    rw [hcalls] at ht
    split_ifs at ht with heq
    · exact heq ▸ hprofile ht
    · exact h.profile t ht
  · intro t ht
    rw [hcalls] at ht
    split_ifs at ht with heq
    · exact heq ▸ hqueue ht
    · exact h.queueLock t ht
  · intro t workerId ht
    rw [hcalls] at ht
    split_ifs at ht
    · exact hunqueued workerId ht
    · exact h.unqueued t workerId ht
  · intro t ht
    rw [hcalls] at ht
    split_ifs at ht
    · exact hfree ht
    · exact h.free t ht
  · exact h.single
  · exact h.nodup
  · intro job hjob
    rcases h.launching job hjob with ⟨t, ht⟩
    refine ⟨t, ?_⟩
    rw [hcalls, if_neg]
    · exact ht
    · rintro rfl
      exact hlaunching job hjob ht
  · exact ⟨h.inOrder.order, h.inOrder.kept⟩

/-- The registry and the launch locks do not matter. -/
theorem LockInv.withRegistry (h : LockInv w) (registry : Dict String WorkerRecord) :
    LockInv { w with registry := registry } :=
  ⟨h.profile, h.queueLock, h.unqueued, h.free, h.single, h.nodup, h.launching,
    ⟨h.inOrder.order, h.inOrder.kept⟩⟩

theorem LockInv.setLaunchLock (h : LockInv w) (name : String) (holder : Option Nat) :
    LockInv (w.setLaunchLock name holder) :=
  ⟨h.profile, h.queueLock, h.unqueued, h.free, h.single, h.nodup, h.launching,
    ⟨h.inOrder.order, h.inOrder.kept⟩⟩

theorem LockInv.takeProfile (h : LockInv w) (hlock : w.profileLock = none) :
    LockInv { w with profileLock := some thread } := by
  refine ⟨?_, h.queueLock, h.unqueued, h.free, h.single, h.nodup, h.launching,
    ⟨h.inOrder.order, h.inOrder.kept⟩⟩
  intro t ht
  have hheld := h.profile t ht
  rw [hlock] at hheld
  cases hheld

theorem LockInv.takeQueue (h : LockInv w) (hlock : w.queueLock = none) :
    LockInv { w with queueLock := some thread } := by
  refine ⟨h.profile, ?_, h.unqueued, h.free, h.single, h.nodup, h.launching,
    ⟨h.inOrder.order, h.inOrder.kept⟩⟩
  intro t ht
  have hheld := h.queueLock t ht
  rw [hlock] at hheld
  cases hheld

/-- Locks that no thread needs are given back. -/
theorem LockInv.giveProfile (h : LockInv w) (hnone : ∀ t, (w.calls t).holdsProfile = false) :
    LockInv { w with profileLock := none } := by
  refine ⟨?_, h.queueLock, h.unqueued, h.free, h.single, h.nodup, h.launching,
    ⟨h.inOrder.order, h.inOrder.kept⟩⟩
  intro t ht
  rw [hnone t] at ht
  cases ht

theorem LockInv.giveQueue (h : LockInv w) (hnone : ∀ t, (w.calls t).holdsQueue = false) :
    LockInv { w with queueLock := none } := by
  refine ⟨h.profile, ?_, h.unqueued, h.free, h.single, h.nodup, h.launching,
    ⟨h.inOrder.order, h.inOrder.kept⟩⟩
  intro t ht
  rw [hnone t] at ht
  cases ht

/-- The stages at which a thread makes no claim. -/
structure CallStage.Claimless (stage : CallStage) : Prop where
  profile : stage.holdsProfile = false
  queue : stage.holdsQueue = false
  unqueued : stage.unqueued = none
  free : stage.seesFree = false

theorem LockInv.become_claimless (h : LockInv w) (hstage : stage.Claimless)
    (hlaunching : ∀ job, w.launching = some job → w.calls thread ≠ .launching job.start true) :
    LockInv (w.become thread stage) := by
  apply h.become _ _ _ _ hlaunching
  · intro hp
    rw [hstage.profile] at hp
    cases hp
  · intro hq
    rw [hstage.queue] at hq
    cases hq
  · intro workerId hu
    rw [hstage.unqueued] at hu
    cases hu
  · intro hf
    rw [hstage.free] at hf
    cases hf

/-- After the thread that holds a lock has gone on, no thread needs it. -/
theorem LockInv.profile_unheld (h : LockInv (w.become thread stage))
    (hlock : w.profileLock = some thread) (hstage : stage.holdsProfile = false) (t : Nat) :
    ((w.become thread stage).calls t).holdsProfile = false := by
  by_cases heq : t = thread
  · subst heq
    rw [show (w.become t stage).calls t = stage from Function.update_self ..]
    exact hstage
  · by_contra hholds
    rw [Bool.not_eq_false] at hholds
    have hother := h.profile t hholds
    have hsame : (w.become thread stage).profileLock = some thread := hlock
    exact heq (Option.some.inj (hother.symm.trans hsame))

theorem LockInv.queue_unheld (h : LockInv (w.become thread stage))
    (hlock : w.queueLock = some thread) (hstage : stage.holdsQueue = false) (t : Nat) :
    ((w.become thread stage).calls t).holdsQueue = false := by
  by_cases heq : t = thread
  · subst heq
    rw [show (w.become t stage).calls t = stage from Function.update_self ..]
    exact hstage
  · by_contra hholds
    rw [Bool.not_eq_false] at hholds
    have hother := h.queueLock t hholds
    have hsame : (w.become thread stage).queueLock = some thread := hlock
    exact heq (Option.some.inj (hother.symm.trans hsame))

/-- A thread gives both locks back and goes on. -/
theorem LockInv.release (h : LockInv w) (hprofile : w.profileLock = some thread)
    (hqueue : w.queueLock = some thread) (hstage : stage.Claimless)
    (hlaunching : ∀ job, w.launching = some job → w.calls thread ≠ .launching job.start true) :
    LockInv (w.release.become thread stage) := by
  have hnext := h.become_claimless hstage hlaunching
  have hgiven := hnext.giveProfile (hnext.profile_unheld hprofile hstage.profile)
  exact hgiven.giveQueue (hnext.queue_unheld hqueue hstage.queue)

theorem claimless_finishing (s : Start) (result : StartResult) :
    (CallStage.finishing s result).Claimless :=
  ⟨rfl, rfl, rfl, rfl⟩

theorem claimless_idle : CallStage.idle.Claimless :=
  ⟨rfl, rfl, rfl, rfl⟩

/-- The end of a start or of the launch of a job. -/
theorem LockInv.finish (h : LockInv w) {s : Start} {fromQueue : Bool} (result : StartResult)
    (hprofile : (fromQueue || s.profiled) = true → w.profileLock = some thread)
    (hqueue : (fromQueue || s.profiled) = true → w.queueLock = some thread)
    (hlaunching : ∀ job, w.launching = some job → w.calls thread ≠ .launching job.start true) :
    LockInv (w.finish isAlnum thread s fromQueue result) := by
  unfold BrowserWorld.finish
  split_ifs with hfrom hprofiled
  · exact h.release (hprofile (by simp [hfrom])) (hqueue (by simp [hfrom])) claimless_idle
      hlaunching
  · exact h.release (hprofile (by simp [hprofiled])) (hqueue (by simp [hprofiled]))
      (claimless_finishing s result) hlaunching
  · exact (h.setLaunchLock _ _).become_claimless (claimless_finishing s result) hlaunching

/-- A worker that is not queued joins the queue while no thread holds its lock. -/
theorem LockInv.append (h : LockInv w) (hlock : w.queueLock = none) {job : Job}
    (hnew : job.workerId ∉ w.queued) :
    LockInv { w with queue := w.queue ++ [job], entered := w.entered ++ [job] } := by
  refine ⟨h.profile, h.queueLock, ?_, h.free, h.single, ?_, h.launching, ⟨?_, ?_⟩⟩
  · intro t workerId ht
    have hheld := h.queueLock t (CallStage.holdsQueue_of_unqueued ht)
    rw [hlock] at hheld
    cases hheld
  · have hqueued : BrowserWorld.queued { w with
        queue := w.queue ++ [job], entered := w.entered ++ [job] } =
        w.queued ++ [job.workerId] := List.map_append ..
    rw [hqueued, List.nodup_append]
    refine ⟨h.nodup, List.nodup_singleton _, ?_⟩
    intro workerId hmem other hother
    rcases List.mem_singleton.mp hother
    rintro rfl
    exact hnew hmem
  · have happend := h.inOrder.order.append (List.Sublist.refl [job])
    rwa [List.append_assoc] at happend
  · have happend := h.inOrder.kept.append_right [job]
    apply happend.trans
    simp only [List.append_assoc]
    exact ((@List.perm_append_comm _ w.stopped [job]).append_left
      w.queue).append_left _ |>.append_left _

/-- The first job leaves the queue and is launched, while the profile is free. -/
theorem LockInv.pop (h : LockInv w) {job : Job} {rest : List Job} (hqueue : w.queue = job :: rest)
    (hprofile : w.profileLock = some thread) (hlock : w.queueLock = some thread)
    (hfree : NoneProfiled w.active) (hstage : w.calls thread = .drainFree) :
    LockInv ({ w with queue := rest, launching := some job }.become thread
      (.launching job.start true)) := by
  have hcalls : ∀ t, ({ w with queue := rest, launching := some job }.become thread
      (.launching job.start true)).calls t =
        if t = thread then .launching job.start true else w.calls t :=
    fun t => Function.update_apply ..
  have hnodup := h.nodup
  unfold BrowserWorld.queued at hnodup
  rw [hqueue, List.map_cons, List.nodup_cons] at hnodup
  -- No other job is being launched: its thread would hold the profile lock.
  have hnone : w.launching = none := by
    cases hlaunching : w.launching with
    | none => rfl
    | some other =>
        rcases h.launching other hlaunching with ⟨t, ht⟩
        have hheld := h.profile t (by rw [ht]; rfl)
        rw [hprofile] at hheld
        rcases Option.some.inj hheld
        rw [hstage] at ht
        cases ht
  have hother : ∀ t, t ≠ thread → (w.calls t).holdsQueue = true → False := by
    intro t hne hholds
    have hheld := h.queueLock t hholds
    rw [hlock] at hheld
    exact hne (Option.some.inj hheld).symm
  constructor
  · intro t ht
    rw [hcalls] at ht
    split_ifs at ht with heq
    · exact heq ▸ hprofile
    · exact h.profile t ht
  · intro t ht
    rw [hcalls] at ht
    split_ifs at ht with heq
    · exact heq ▸ hlock
    · exact h.queueLock t ht
  · intro t workerId ht
    rw [hcalls] at ht
    split_ifs at ht with heq
    · cases ht
      exact hnodup.1
    · exact absurd (CallStage.holdsQueue_of_unqueued ht) (hother t heq)
  · intro t _
    exact hfree
  · exact h.single
  · exact hnodup.2
  · intro found hfound
    cases hfound
    exact ⟨thread, by rw [hcalls, if_pos rfl]⟩
  · have hlists : w.attempted ++ w.launching.toList ++ w.queue =
        w.attempted ++ [job] ++ rest := by
      rw [hnone, hqueue]
      simp
    constructor
    · have horder := h.inOrder.order
      rwa [hlists] at horder
    · have hkept := h.inOrder.kept
      rwa [hlists] at hkept

/-- The jobs of a worker are taken out of the queue. -/
theorem LockInv.filter (h : LockInv w) (workerId : String) :
    LockInv { w with
      queue := w.queue.filter (!Job.isFor workerId ·)
      stopped := w.stopped ++ w.queue.filter (Job.isFor workerId) } := by
  have hsub : (w.queue.filter (!Job.isFor workerId ·)).Sublist w.queue := List.filter_sublist
  refine ⟨h.profile, h.queueLock, ?_, h.free, h.single, ?_, h.launching, ⟨?_, ?_⟩⟩
  · intro t other ht hmem
    exact h.unqueued t other ht ((hsub.map Job.workerId).subset hmem)
  · exact h.nodup.sublist (hsub.map Job.workerId)
  · exact (hsub.append_left _).trans h.inOrder.order
  · apply h.inOrder.kept.trans
    simp only [List.append_assoc]
    apply List.Perm.append_left
    apply List.Perm.append_left
    have hsplit := (List.filter_append_perm (Job.isFor workerId) w.queue).symm
    apply (hsplit.append_right _).trans
    rw [List.append_assoc]
    apply List.perm_append_comm.trans
    rw [List.append_assoc]

/-- The launch of a job has been attempted. -/
theorem LockInv.attempt (h : LockInv w) (fromQueue : Bool) : LockInv (w.attempt fromQueue) := by
  unfold BrowserWorld.attempt
  split_ifs
  · refine ⟨h.profile, h.queueLock, h.unqueued, h.free, h.single, h.nodup, ?_, ⟨?_, ?_⟩⟩
    · intro job hjob
      cases hjob
    · simpa using h.inOrder.order
    · simpa using h.inOrder.kept
  · exact h

/-- A run is recorded: a profiled one only while no profiled browser is active and no thread relies
on that. -/
theorem LockInv.record (h : LockInv w) (workerId : String) {record : ActiveWorker}
    (hsafe : record.profiled = true →
      (∀ t, (w.calls t).seesFree = false) ∧ NoneProfiled w.active) :
    LockInv { w with active := w.active.set workerId record } := by
  have hget : ∀ a r, (w.active.set workerId record).get? a = some r → r.profiled = true →
      a = workerId ∧ r = record ∨ w.active.get? a = some r := by
    intro a r hr _
    rw [Dict.get?_set] at hr
    split_ifs at hr with heq
    · exact .inl ⟨heq.symm, (Option.some.inj hr).symm⟩
    · exact .inr hr
  refine ⟨h.profile, h.queueLock, h.unqueued, ?_, ?_, h.nodup, h.launching,
    ⟨h.inOrder.order, h.inOrder.kept⟩⟩
  · intro t ht a r hr
    by_contra hprofiled
    rw [Bool.not_eq_false] at hprofiled
    rcases hget a r hr hprofiled with ⟨_, rfl⟩ | hold
    · rw [(hsafe hprofiled).1 t] at ht
      cases ht
    · rw [h.free t ht a r hold] at hprofiled
      cases hprofiled
  · intro a b first second ha hb hfirst hsecond
    rcases hget a first ha hfirst with ⟨rfl, rfl⟩ | hold
    · rcases hget b second hb hsecond with ⟨rfl, _⟩ | hold'
      · rfl
      · rw [(hsafe hfirst).2 b second hold'] at hsecond
        cases hsecond
    · rcases hget b second hb hsecond with ⟨rfl, rfl⟩ | hold'
      · rw [(hsafe hsecond).2 a first hold] at hfirst
        cases hfirst
      · exact h.single a b first second hold hold' hfirst hsecond

/-- A run is removed. -/
theorem LockInv.remove (h : LockInv w) (workerId runId : String) :
    LockInv (w.removeActive workerId runId) := by
  have hpop : ∀ a r, (w.active.pop workerId).get? a = some r → w.active.get? a = some r :=
    fun a r hr => ((Dict.get?_pop_eq_some_iff _ _ _ _).mp hr).2
  unfold BrowserWorld.removeActive
  split
  · exact h
  · split_ifs
    · exact h
    · refine ⟨h.profile, h.queueLock, h.unqueued, ?_, ?_, h.nodup, h.launching,
        ⟨h.inOrder.order, h.inOrder.kept⟩⟩
      · intro t ht a r hr
        exact h.free t ht a r (hpop a r hr)
      · intro a b first second ha hb
        exact h.single a b first second (hpop a first ha) (hpop b second hb)

/-! ## One step -/

/-- A thread at this stage is not launching a job. -/
theorem not_launching (job : Job) (hstage : w.calls thread = stage)
    (hne : ∀ s, stage ≠ .launching s true) : w.calls thread ≠ .launching job.start true := by
  rw [hstage]
  exact hne _

theorem goStart_inv (h : LockInv w)
    (hnext : w.goStart isAlnum thread (w.calls thread) = some w') : LockInv w' := by
  cases hstage : w.calls thread with
  | entering s =>
      have hnot := fun (job : Job) (_ : w.launching = some job) =>
        not_launching job hstage (fun s => by simp)
      rw [hstage] at hnext
      unfold BrowserWorld.goStart at hnext
      dsimp only at hnext
      split_ifs at hnext with hprofiled hlock hlaunch <;> cases hnext
      · apply (h.takeProfile hlock).become _ _ _ _ hnot
        · intro _
          rfl
        · intro hq
          cases hq
        · intro workerId hu
          cases hu
        · intro hf
          cases hf
      · apply (h.setLaunchLock _ _).become_claimless _ hnot
        refine ⟨?_, ?_, ?_, ?_⟩ <;>
          simp [CallStage.holdsProfile, CallStage.holdsQueue, CallStage.unqueued,
            CallStage.seesFree, hprofiled]
  | entered s =>
      have hnot := fun (job : Job) (_ : w.launching = some job) =>
        not_launching job hstage (fun s => by simp)
      have hprofile := h.profile thread (by rw [hstage]; rfl)
      rw [hstage] at hnext
      unfold BrowserWorld.goStart at hnext
      dsimp only at hnext
      split_ifs at hnext with hlock
      cases hnext
      apply (h.takeQueue hlock).become _ _ _ _ hnot
      · intro _
        exact hprofile
      · intro _
        rfl
      · intro workerId hu
        cases hu
      · intro hf
        cases hf
  | locked s =>
      have hnot := fun (job : Job) (_ : w.launching = some job) =>
        not_launching job hstage (fun s => by simp)
      have hprofile : s.profiled = true → w.profileLock = some thread := by
        intro hprofiled
        exact h.profile thread (by rw [hstage]; exact hprofiled)
      have hqueue : s.profiled = true → w.queueLock = some thread := by
        intro hprofiled
        exact h.queueLock thread (by rw [hstage]; exact hprofiled)
      rw [hstage] at hnext
      unfold BrowserWorld.goStart at hnext
      dsimp only at hnext
      split_ifs at hnext with hactive hprofiled <;> cases hnext
      · exact h.finish _ (by simpa using hprofile) (by simpa using hqueue) hnot
      · apply h.become (fun _ => hprofile hprofiled) (fun _ => hqueue hprofiled) _ _ hnot
        · intro workerId hu
          cases hu
        · intro hf
          cases hf
      · apply h.become_claimless _ hnot
        refine ⟨?_, ?_, ?_, ?_⟩ <;>
          simp [CallStage.holdsProfile, CallStage.holdsQueue, CallStage.unqueued,
            CallStage.seesFree, hprofiled]
  | notActive s =>
      have hnot := fun (job : Job) (_ : w.launching = some job) =>
        not_launching job hstage (fun s => by simp)
      have hprofile := h.profile thread (by rw [hstage]; rfl)
      have hqueue := h.queueLock thread (by rw [hstage]; rfl)
      rw [hstage] at hnext
      unfold BrowserWorld.goStart at hnext
      dsimp only at hnext
      split_ifs at hnext with hqueued <;> cases hnext
      · exact h.release hprofile hqueue (claimless_finishing s _) hnot
      · apply h.become (fun _ => hprofile) (fun _ => hqueue) _ _ hnot
        · intro workerId hu
          rcases Option.some.inj hu
          exact hqueued
        · intro hf
          cases hf
  | notQueued s =>
      have hnot := fun (job : Job) (_ : w.launching = some job) =>
        not_launching job hstage (fun s => by simp)
      have hprofile := h.profile thread (by rw [hstage]; rfl)
      have hqueue := h.queueLock thread (by rw [hstage]; rfl)
      have hunqueued := h.unqueued thread s.workerId (by rw [hstage]; rfl)
      rw [hstage] at hnext
      unfold BrowserWorld.goStart at hnext
      dsimp only at hnext
      split_ifs at hnext with hactive <;> cases hnext
      · apply h.become (fun _ => hprofile) (fun _ => hqueue) _ _ hnot
        · intro workerId hu
          rcases Option.some.inj hu
          exact hunqueued
        · intro hf
          cases hf
      · apply h.become (fun _ => hprofile) (fun _ => hqueue) _ _ hnot
        · intro workerId hu
          unfold CallStage.unqueued at hu
          dsimp only at hu
          split_ifs at hu
          rcases Option.some.inj hu
          exact hunqueued
        · intro _
          exact noneProfiled_of_not_active (Bool.not_eq_true _ ▸ hactive)
  | appending s =>
      have hnot := fun (job : Job) (_ : w.launching = some job) =>
        not_launching job hstage (fun s => by simp)
      have hprofile := h.profile thread (by rw [hstage]; rfl)
      have hqueue := h.queueLock thread (by rw [hstage]; rfl)
      have hunqueued := h.unqueued thread s.workerId (by rw [hstage]; rfl)
      rw [hstage] at hnext
      cases hnext
      have hreleased := h.release hprofile hqueue (claimless_finishing s .done) hnot
      exact hreleased.append rfl hunqueued
  | recorded s fromQueue =>
      have hnot := fun (job : Job) (_ : w.launching = some job) =>
        not_launching job hstage (fun s => by simp)
      have hprofile : (fromQueue || s.profiled) = true → w.profileLock = some thread := by
        intro hlocked
        exact h.profile thread (by rw [hstage]; exact hlocked)
      have hqueue : (fromQueue || s.profiled) = true → w.queueLock = some thread := by
        intro hlocked
        exact h.queueLock thread (by rw [hstage]; exact hlocked)
      rw [hstage] at hnext
      unfold BrowserWorld.goStart at hnext
      dsimp only at hnext
      cases hnext
      exact (h.withRegistry _).finish _ hprofile hqueue hnot
  | finishing s result =>
      have hnot := fun (job : Job) (_ : w.launching = some job) =>
        not_launching job hstage (fun s => by simp)
      rw [hstage] at hnext
      cases hnext
      exact (h.withRegistry _).become_claimless claimless_idle hnot
  | _ =>
      rw [hstage] at hnext
      cases hnext

theorem goCall_inv (h : LockInv w) (hnext : w.goCall thread (w.calls thread) = some w') :
    LockInv w' := by
  cases hstage : w.calls thread with
  | creating s =>
      have hnot := fun (job : Job) (_ : w.launching = some job) =>
        not_launching job hstage (fun s => by simp)
      rw [hstage] at hnext
      unfold BrowserWorld.goCall at hnext
      dsimp only at hnext
      split_ifs at hnext <;> cases hnext
      · exact h.become_claimless claimless_idle hnot
      · exact (h.withRegistry _).become_claimless ⟨rfl, rfl, rfl, rfl⟩ hnot
  | messaging workerId task carbonId =>
      have hnot := fun (job : Job) (_ : w.launching = some job) =>
        not_launching job hstage (fun s => by simp)
      rw [hstage] at hnext
      unfold BrowserWorld.goCall at hnext
      dsimp only at hnext
      split at hnext
      · cases hnext
        exact h.become_claimless claimless_idle hnot
      · split_ifs at hnext <;> cases hnext
        · exact h.become_claimless claimless_idle hnot
        · exact h.become_claimless ⟨rfl, rfl, rfl, rfl⟩ hnot
  | messageActive s =>
      have hnot := fun (job : Job) (_ : w.launching = some job) =>
        not_launching job hstage (fun s => by simp)
      rw [hstage] at hnext
      unfold BrowserWorld.goCall at hnext
      dsimp only at hnext
      split_ifs at hnext <;> cases hnext <;>
        exact h.become_claimless ⟨rfl, rfl, rfl, rfl⟩ hnot
  | messageQueue s =>
      have hnot := fun (job : Job) (_ : w.launching = some job) =>
        not_launching job hstage (fun s => by simp)
      rw [hstage] at hnext
      unfold BrowserWorld.goCall at hnext
      dsimp only at hnext
      split_ifs at hnext <;> cases hnext <;>
        exact h.become_claimless ⟨rfl, rfl, rfl, rfl⟩ hnot
  | _ =>
      rw [hstage] at hnext
      cases hnext

/-- A thread that holds the queue lock alone gives it back. -/
theorem LockInv.releaseQueue (h : LockInv w) (hqueue : w.queueLock = some thread)
    (hstage : stage.Claimless)
    (hlaunching : ∀ job, w.launching = some job → w.calls thread ≠ .launching job.start true) :
    LockInv ({ w with queueLock := none }.become thread stage) := by
  have hnext := h.become_claimless hstage hlaunching
  exact hnext.giveQueue (hnext.queue_unheld hqueue hstage.queue)

theorem goStop_inv (h : LockInv w) (hnext : w.goStop thread (w.calls thread) = some w') :
    LockInv w' := by
  cases hstage : w.calls thread with
  | stopping workerId carbonId =>
      have hnot := fun (job : Job) (_ : w.launching = some job) =>
        not_launching job hstage (fun s => by simp)
      rw [hstage] at hnext
      unfold BrowserWorld.goStop at hnext
      dsimp only at hnext
      split_ifs at hnext with hlock
      cases hnext
      apply (h.takeQueue hlock).become _ _ _ _ hnot
      · intro hp
        cases hp
      · intro _
        rfl
      · intro other hu
        cases hu
      · intro hf
        cases hf
  | stopLocked workerId carbonId =>
      have hnot := fun (job : Job) (_ : w.launching = some job) =>
        not_launching job hstage (fun s => by simp)
      have hqueue := h.queueLock thread (by rw [hstage]; rfl)
      rw [hstage] at hnext
      unfold BrowserWorld.goStop at hnext
      dsimp only at hnext
      split at hnext
      · cases hnext
        exact h.releaseQueue hqueue ⟨rfl, rfl, rfl, rfl⟩ hnot
      · split_ifs at hnext <;> cases hnext
        · exact h.releaseQueue hqueue claimless_idle hnot
        · exact (h.filter workerId).releaseQueue hqueue claimless_idle hnot
  | stopActive workerId carbonId =>
      have hnot := fun (job : Job) (_ : w.launching = some job) =>
        not_launching job hstage (fun s => by simp)
      rw [hstage] at hnext
      unfold BrowserWorld.goStop at hnext
      dsimp only at hnext
      split at hnext
      · cases hnext
        exact h.become_claimless claimless_idle hnot
      · split_ifs at hnext <;> cases hnext <;>
          exact h.become_claimless ⟨rfl, rfl, rfl, rfl⟩ hnot
  | _ =>
      rw [hstage] at hnext
      cases hnext

theorem removeActive_same (w : BrowserWorld) (workerId runId : String) :
    (w.removeActive workerId runId).launching = w.launching ∧
      (w.removeActive workerId runId).calls = w.calls := by
  unfold BrowserWorld.removeActive
  split
  · exact ⟨rfl, rfl⟩
  · split_ifs <;> exact ⟨rfl, rfl⟩

theorem goDrain_inv (h : LockInv w) (hnext : w.goDrain thread (w.calls thread) = some w') :
    LockInv w' := by
  cases hstage : w.calls thread with
  | draining =>
      have hnot := fun (job : Job) (_ : w.launching = some job) =>
        not_launching job hstage (fun s => by simp)
      rw [hstage] at hnext
      unfold BrowserWorld.goDrain at hnext
      dsimp only at hnext
      split_ifs at hnext with hlock
      cases hnext
      apply (h.takeProfile hlock).become _ _ _ _ hnot
      · intro _
        rfl
      · intro hq
        cases hq
      · intro workerId hu
        cases hu
      · intro hf
        cases hf
  | drainEntered =>
      have hnot := fun (job : Job) (_ : w.launching = some job) =>
        not_launching job hstage (fun s => by simp)
      have hprofile := h.profile thread (by rw [hstage]; rfl)
      rw [hstage] at hnext
      unfold BrowserWorld.goDrain at hnext
      dsimp only at hnext
      split_ifs at hnext with hlock
      cases hnext
      apply (h.takeQueue hlock).become _ _ _ _ hnot
      · intro _
        exact hprofile
      · intro _
        rfl
      · intro workerId hu
        cases hu
      · intro hf
        cases hf
  | drainLocked =>
      have hnot := fun (job : Job) (_ : w.launching = some job) =>
        not_launching job hstage (fun s => by simp)
      have hprofile := h.profile thread (by rw [hstage]; rfl)
      have hqueue := h.queueLock thread (by rw [hstage]; rfl)
      rw [hstage] at hnext
      unfold BrowserWorld.goDrain at hnext
      dsimp only at hnext
      split_ifs at hnext with hactive <;> cases hnext
      · exact h.release hprofile hqueue claimless_idle hnot
      · apply h.become (fun _ => hprofile) (fun _ => hqueue) _ _ hnot
        · intro workerId hu
          cases hu
        · intro _
          exact noneProfiled_of_not_active (Bool.not_eq_true _ ▸ hactive)
  | killing workerId runId =>
      have hnot := fun (job : Job) (_ : w.launching = some job) =>
        not_launching job hstage (fun s => by simp)
      rw [hstage] at hnext
      cases hnext
      rcases removeActive_same w workerId runId with ⟨hlaunching, hcalls⟩
      apply (h.remove workerId runId).become_claimless ⟨rfl, rfl, rfl, rfl⟩
      rw [hlaunching, hcalls]
      exact hnot
  | sweeping =>
      have hnot := fun (job : Job) (_ : w.launching = some job) =>
        not_launching job hstage (fun s => by simp)
      rw [hstage] at hnext
      cases hnext
      exact h.become_claimless ⟨rfl, rfl, rfl, rfl⟩ hnot
  | _ =>
      rw [hstage] at hnext
      cases hnext

theorem admitted_inv (h : LockInv w) {granted : Bool}
    (hnext : w.admitted thread granted (w.calls thread) = some w') : LockInv w' := by
  cases hstage : w.calls thread with
  | admitting s =>
      have hnot := fun (job : Job) (_ : w.launching = some job) =>
        not_launching job hstage (fun s => by simp)
      rw [hstage] at hnext
      cases hnext
      cases granted <;> exact h.become_claimless ⟨rfl, rfl, rfl, rfl⟩ hnot
  | messageAdmitting s =>
      have hnot := fun (job : Job) (_ : w.launching = some job) =>
        not_launching job hstage (fun s => by simp)
      rw [hstage] at hnext
      cases hnext
      cases granted <;> exact h.become_claimless ⟨rfl, rfl, rfl, rfl⟩ hnot
  | drainFree =>
      have hnot := fun (job : Job) (_ : w.launching = some job) =>
        not_launching job hstage (fun s => by simp)
      have hprofile := h.profile thread (by rw [hstage]; rfl)
      have hqueue := h.queueLock thread (by rw [hstage]; rfl)
      have hfree := h.free thread (by rw [hstage]; rfl)
      rw [hstage] at hnext
      unfold BrowserWorld.admitted at hnext
      dsimp only at hnext
      split at hnext
      · cases hnext
        exact h.release hprofile hqueue claimless_idle hnot
      · rename_i job rest hlist
        split_ifs at hnext <;> cases hnext
        · exact h.release hprofile hqueue claimless_idle hnot
        · exact h.pop hlist hprofile hqueue hfree hstage
  | _ =>
      rw [hstage] at hnext
      cases hnext

theorem attempt_same (w : BrowserWorld) (fromQueue : Bool) :
    (w.attempt fromQueue).profileLock = w.profileLock ∧
      (w.attempt fromQueue).queueLock = w.queueLock ∧
      (w.attempt fromQueue).calls = w.calls ∧
      (w.attempt fromQueue).queued = w.queued ∧ (w.attempt fromQueue).active = w.active := by
  unfold BrowserWorld.attempt
  split_ifs <;> exact ⟨rfl, rfl, rfl, rfl, rfl⟩

/-- After an attempt the thread is not the one that a job is being launched by. -/
theorem attempt_launching {s : Start} {fromQueue : Bool}
    (hstage : w.calls thread = .launching s fromQueue) (job : Job)
    (hjob : (w.attempt fromQueue).launching = some job) :
    (w.attempt fromQueue).calls thread ≠ .launching job.start true := by
  rw [(attempt_same w fromQueue).2.2.1, hstage]
  cases fromQueue with
  | true => cases hjob
  | false =>
      intro heq
      cases heq

theorem launched_inv (h : LockInv w) {action : CallAction}
    (hnext : w.launched isAlnum thread action (w.calls thread) = some w') : LockInv w' := by
  unfold BrowserWorld.launched at hnext
  split at hnext
  · rename_i s fromQueue hstage
    have hprofile : (fromQueue || s.profiled) = true → w.profileLock = some thread := by
      intro hlocked
      exact h.profile thread (by rw [hstage]; exact hlocked)
    have hqueue : (fromQueue || s.profiled) = true → w.queueLock = some thread := by
      intro hlocked
      exact h.queueLock thread (by rw [hstage]; exact hlocked)
    have hunqueued := h.unqueued thread
    have hfree := h.free thread
    rw [hstage] at hunqueued hfree
    split_ifs at hnext
    cases hnext
    rcases attempt_same w fromQueue with ⟨hp, hq, -, hids, hactive⟩
    apply (h.attempt fromQueue).become _ _ _ _ (attempt_launching hstage)
    · rw [hp]
      exact hprofile
    · rw [hq]
      exact hqueue
    · rw [hids]
      exact hunqueued
    · rw [hactive]
      exact hfree
  · rename_i error s fromQueue hstage
    have hprofile : (fromQueue || s.profiled) = true → w.profileLock = some thread := by
      intro hlocked
      exact h.profile thread (by rw [hstage]; exact hlocked)
    have hqueue : (fromQueue || s.profiled) = true → w.queueLock = some thread := by
      intro hlocked
      exact h.queueLock thread (by rw [hstage]; exact hlocked)
    cases hnext
    rcases attempt_same w fromQueue with ⟨hp, hq, -, -, -⟩
    apply (h.attempt fromQueue).finish _ _ _ (attempt_launching hstage)
    · rw [hp]
      exact hprofile
    · rw [hq]
      exact hqueue
  · rename_i runId s fromQueue hstage
    have hnot := fun (job : Job) (_ : w.launching = some job) =>
      not_launching job hstage (fun s => by simp)
    have hprofile : (fromQueue || s.profiled) = true → w.profileLock = some thread := by
      intro hlocked
      exact h.profile thread (by rw [hstage]; exact hlocked)
    have hqueue : (fromQueue || s.profiled) = true → w.queueLock = some thread := by
      intro hlocked
      exact h.queueLock thread (by rw [hstage]; exact hlocked)
    have hfree := h.free thread
    rw [hstage] at hfree
    cases hnext
    have hmoved : LockInv (w.become thread (.recorded s fromQueue)) := by
      apply h.become _ _ _ _ hnot
      · exact hprofile
      · exact hqueue
      · intro workerId hu
        cases hu
      · intro hf
        cases hf
    apply hmoved.record s.workerId
    intro hprofiled
    have hlocked : (fromQueue || s.profiled) = true := by
      rw [Bool.or_eq_true]
      exact .inr hprofiled
    refine ⟨?_, hfree hlocked⟩
    -- Who sees the profile free holds its lock, which this thread does.
    intro t
    by_contra hsees
    rw [Bool.not_eq_false] at hsees
    have hheld := hmoved.profile t (CallStage.holdsProfile_of_seesFree hsees)
    have hmine : (w.become thread (.recorded s fromQueue)).profileLock = some thread :=
      hprofile hlocked
    rcases Option.some.inj (hmine.symm.trans hheld)
    rw [show (w.become thread (.recorded s fromQueue)).calls thread = .recorded s fromQueue from
      Function.update_self ..] at hsees
    cases hsees
  · cases hnext

/-- Every step keeps up what the locks are for. -/
theorem lockInv_step (h : LockInv w) (hnext : w.next isAlnum e = some w') : LockInv w' := by
  unfold BrowserWorld.next at hnext
  dsimp only at hnext
  split at hnext
  · rcases Option.or_eq_some_iff.mp hnext with hnext | ⟨-, hnext⟩
    · exact goStart_inv h hnext
    · rcases Option.or_eq_some_iff.mp hnext with hnext | ⟨-, hnext⟩
      · exact goCall_inv h hnext
      · rcases Option.or_eq_some_iff.mp hnext with hnext | ⟨-, hnext⟩
        · exact goStop_inv h hnext
        · exact goDrain_inv h hnext
  · exact admitted_inv h hnext
  · rename_i workerId runId _
    split_ifs at hnext
    cases hnext
    exact h.remove workerId runId
  · exact launched_inv h hnext
  · exact launched_inv h hnext
  · exact launched_inv h hnext
  · split_ifs at hnext with hidle
    rcases Option.map_eq_some_iff.mp hnext with ⟨stage, hstage, hbecome⟩
    rw [← hbecome]
    apply h.become_claimless
    · unfold BrowserWorld.begins at hstage
      split at hstage <;> cases hstage <;> exact ⟨rfl, rfl, rfl, rfl⟩
    · intro job _
      exact not_launching job hidle (fun s => by simp)

theorem inv_initial : LockInv .initial where
  profile t ht := by cases ht
  queueLock t ht := by cases ht
  unqueued t workerId ht := by cases ht
  free t ht := by cases ht
  single a b first second ha := by
    rw [show BrowserWorld.initial.active.get? a = none from Dict.get?_empty a] at ha
    cases ha
  nodup := List.nodup_nil
  launching job hjob := by cases hjob
  inOrder := ⟨List.Sublist.refl [], List.Perm.refl []⟩

/-! ## The law -/

/-- No worker is active and queued. -/
def Apart (w : BrowserWorld) : Prop :=
  ∀ workerId ∈ w.queued, w.active.get? workerId = none

/-- A launch that does not go by the profile lock records no worker that is queued, and no worker is
queued that such a launch has recorded since it was found not to be active. -/
def Exclusive (w : BrowserWorld) (e : CallEvent) : Prop :=
  (∀ s fromQueue runId, w.calls e.thread = .spawned s fromQueue → e.action = .record runId →
    s.workerId ∉ w.queued) ∧
  ∀ s, w.calls e.thread = .appending s → e.action = .go → w.active.get? s.workerId = none

/-- A job leaves the queue by a stop of its worker, or to be launched. -/
def Departs (w : BrowserWorld) (e : CallEvent) (w' : BrowserWorld) (job : Job) : Prop :=
  (∃ carbonId, w.calls e.thread = .stopLocked job.workerId carbonId) ∨
    w.calls e.thread = .drainFree ∧ w'.calls e.thread = .launching job.start true ∧
      w'.launching = some job

theorem departs (hnext : w.next isAlnum e = some w') {job : Job} (hqueued : job ∈ w.queue)
    (hleft : job ∉ w'.queue) : Departs w e w' job := by
  cases next_effect hnext with
  | still hqueue _ => exact absurd (hqueue ▸ hqueued) hleft
  | appended s _ _ hqueue _ =>
      rw [hqueue] at hleft
      exact absurd (List.mem_append_left _ hqueued) hleft
  | popped first hstage hqueue _ hlaunching hlaunch =>
      rw [hqueue] at hqueued
      rcases List.mem_cons.mp hqueued with rfl | hrest
      · exact .inr ⟨hstage, hlaunch, hlaunching⟩
      · exact absurd hrest hleft
  | stopped workerId carbonId hstage hqueue _ =>
      rw [hqueue, List.mem_filter, Bool.not_eq_true'] at hleft
      have hfor : Job.isFor workerId job = true := by
        by_contra hother
        rw [Bool.not_eq_true] at hother
        exact hleft ⟨hqueued, hother⟩
      left
      exact ⟨carbonId, by rw [hstage, of_decide_eq_true hfor]⟩
  | recorded s _ _ _ _ hqueue _ => exact absurd (hqueue ▸ hqueued) hleft
  | removed workerId hqueue _ => exact absurd (hqueue ▸ hqueued) hleft

/-- Steps that meet the condition keep active and queued workers apart. -/
theorem Apart.step (h : Apart w) (hguard : Exclusive w e) (hnext : w.next isAlnum e = some w') :
    Apart w' := by
  intro workerId hmem
  unfold BrowserWorld.queued at hmem
  cases next_effect hnext with
  | still hqueue hactive =>
      rw [hqueue] at hmem
      rw [hactive]
      exact h workerId hmem
  | appended s hstage haction hqueue hactive =>
      rw [hqueue, List.map_append, List.mem_append] at hmem
      rw [hactive]
      rcases hmem with hold | hnew
      · exact h workerId hold
      · rcases List.mem_singleton.mp hnew
        exact hguard.2 s hstage haction
  | popped job _ hqueue hactive _ _ =>
      rw [hactive]
      apply h workerId
      unfold BrowserWorld.queued
      rw [hqueue]
      exact List.mem_cons_of_mem _ hmem
  | stopped other carbonId _ hqueue hactive =>
      rw [hqueue] at hmem
      rw [hactive]
      exact h workerId ((List.filter_sublist.map Job.workerId).subset hmem)
  | recorded s fromQueue runId hstage haction hqueue hactive =>
      rw [hqueue] at hmem
      have hne : s.workerId ≠ workerId := by
        rintro rfl
        exact hguard.1 s fromQueue runId hstage haction hmem
      rw [hactive, Dict.get?_set_of_ne _ _ hne]
      exact h workerId hmem
  | removed other hqueue hactive =>
      rw [hqueue] at hmem
      rw [hactive, Dict.get?_pop]
      split_ifs
      · rfl
      · exact h workerId hmem

/-- A step that does not meet the condition leaves a worker active and queued. -/
theorem not_apart (hguard : ¬ Exclusive w e) (hnext : w.next isAlnum e = some w') :
    ¬ Apart w' := by
  intro h
  apply hguard
  constructor
  · intro s fromQueue runId hstage haction hmem
    unfold BrowserWorld.next at hnext
    rw [hstage, haction] at hnext
    cases hnext
    have hactive := h s.workerId hmem
    rw [show (BrowserWorld.become (w.recordActiveRun s runId) e.thread
      (.recorded s fromQueue)).active.get? s.workerId = some _ from Dict.get?_set_self ..]
      at hactive
    cases hactive
  · intro s hstage haction
    unfold BrowserWorld.next at hnext
    rw [hstage, haction] at hnext
    cases hnext
    apply h s.workerId
    unfold BrowserWorld.queued
    rw [List.mem_map]
    exact ⟨s.job, List.mem_append_right _ (List.mem_singleton_self _), rfl⟩

/-- In every run at most one profiled browser is active, no worker is queued twice, the jobs leave
the queue in their order except when they are stopped, and a job leaves it only by a stop of its
worker or for a launch.  No worker is active and queued all along exactly the runs in which no
launch outside the profile lock records a queued worker and none is queued that such a launch has
recorded meanwhile. -/
theorem browser_law {events : List CallEvent} (hinit : (browsers isAlnum).init w)
    (hrun : (browsers isAlnum).Run w events w') :
    AtMostOneProfiled w'.active ∧ w'.queued.Nodup ∧ InOrder w' ∧
    (∀ e w'', (browsers isAlnum).step w' e w'' → ∀ job ∈ w'.queue, job ∉ w''.queue →
      Departs w' e w'' job) ∧
    ((∀ taken v, taken <+: events → (browsers isAlnum).Run w taken v → Apart v) ↔
      ((browsers isAlnum).restrict Exclusive).Run w events w') := by
  have hstart : (browsers isAlnum).Reachable w := .init hinit
  have hinv : LockInv w' := by
    apply (hstart.run hrun).invariant
    · intro v hv
      rw [hv]
      exact inv_initial
    · intro v e v' _ hv hstep
      exact lockInv_step hv hstep
  refine ⟨hinv.single, hinv.nodup, hinv.inOrder, fun e w'' hstep job => departs hstep, ?_⟩
  have hguarded : ((browsers isAlnum).restrict Exclusive).Reachable w := .init hinit
  apply TransitionSystem.Run.restrict_iff _ _ _ hguarded hrun
  · intro v e a b ha hb
    exact Option.some.inj (ha.symm.trans hb)
  · intro v hreach
    apply hreach.invariant
    · intro u hu
      rw [hu]
      intro workerId hmem
      cases hmem
    · intro u e u' _ hu hstep
      exact hu.step hstep.1 hstep.2
  · intro v e v' _ hstep hguard
    exact not_apart hguard hstep

/-! ## A message that comes late -/

/-- Events of one thread. -/
def stepsOf (t : Nat) (actions : List CallAction) : List CallEvent :=
  actions.map fun action => ⟨t, action⟩

/-- A start whose worker is launched. -/
def launches (t : Nat) (s : Start) (runId : String) (locks : Nat) : List CallEvent :=
  stepsOf t ([.startWorker s, .answer true] ++ List.replicate (locks + 1) .go ++
    [.spawn, .record runId, .go, .go])

/-- A browser of one contact. -/
def browser (workerId : String) (incognito : Bool) : Start :=
  ⟨workerId, "look", "c", .browser, incognito, false, false⟩

/-- One browser is started, another one is queued, the first one is stopped, and the other one is
launched. -/
def oneAfterTheOther : List CallEvent :=
  launches 1 (browser "y" false) "r1" 5 ++
    stepsOf 2 ([.startWorker (browser "x" false), .answer true] ++ List.replicate 8 .go) ++
    stepsOf 3 ([.stopWorker "y" "c"] ++ List.replicate 4 .go ++ List.replicate 3 .go ++
      [.answer true, .spawn, .record "r2", .go])

/-- While the start of an incognito browser is about to fail, a message to it has read its record;
then a profiled browser of the same name is queued, and the message launches the worker. -/
def lateMessage : List CallEvent :=
  launches 1 (browser "y" false) "r1" 5 ++
    stepsOf 2 [.startWorker (browser "x" true), .answer true, .go, .go, .go] ++
    stepsOf 3 [.messageWorker "x" "go on" "c", .go, .go, .go, .answer true] ++
    stepsOf 2 [.fail true, .go] ++
    stepsOf 4 ([.startWorker (browser "x" false), .answer true] ++ List.replicate 8 .go) ++
    stepsOf 3 [.go, .go, .spawn, .record "r2"]

/-- The world after these events. -/
def browserWorld (events : List CallEvent) : Option BrowserWorld :=
  TransitionSystem.play (BrowserWorld.next Char.isAlphanum) .initial events

theorem browser_law_launched : (browserWorld oneAfterTheOther).isSome = true ∧
    ∀ w, browserWorld oneAfterTheOther = some w →
      AtMostOneProfiled w.active ∧ w.attempted.map Job.workerId = ["x"] := by
  constructor
  · decide +kernel
  · intro w hw
    have hlaw := browser_law rfl
      (TransitionSystem.Run.play (fun _ _ _ h => h) hw : (browsers Char.isAlphanum).Run _ _ _)
    refine ⟨hlaw.1, ?_⟩
    have hattempted : (browserWorld oneAfterTheOther).map
        (fun v => v.attempted.map Job.workerId) = some ["x"] := by decide +kernel
    rw [hw] at hattempted
    exact Option.some.inj hattempted

theorem active_and_queued :
    (browserWorld lateMessage).map (fun w => (w.queued, w.active.get? "x")) =
      some (["x"], some ⟨.browser, true, "c", "r2"⟩) := by
  decide +kernel

end Worker
end Stemcell
