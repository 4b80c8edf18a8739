import Stemcell.Maintenance.Coordinator

/-!
# The stop boundary

`safe_to_stop` tells the updater that no unsafe execution or volatile accepted
input remains.  The flag is set by `acknowledge_runtime_quiescent` only, but it
is stored, and fifteen other methods rewrite the document afterwards.  The
invariant that keeps it honest is that a document under the flag has no lease
and no claimed root, so that no root can return to the queue as a pending
continuation.

Main results:

- Theorem `acknowledged_effect`: every effect keeps the flag honest.
- Theorem `safeToStop_quiescent`: in every reachable document the flag is set
  only where nothing is left to wait for, and `updating` is entered from
  `draining` only there.
-/

namespace Stemcell
namespace Maintenance

open Lib

/-- Nothing is left to wait for before the process may be stopped. -/
structure Quiescent (s : State) : Prop where
  phase : s.phase = .draining
  leases : s.leases.isEmpty = true
  continuations : ∀ item ∈ s.rootQueue, item.pendingContinuation = false
  runtime : ∃ participant, s.participants.get? "runtime" = some participant ∧
    participant.epoch = s.epoch

/-- What holds under the flag: quiescence, and every root pending and plain. -/
structure Acknowledged (s : State) : Prop where
  phase : s.phase = .draining
  leases : s.leases.isEmpty = true
  queue : ∀ item ∈ s.rootQueue, item.status = .pending ∧ item.continuation = none
  runtime : ∃ participant, s.participants.get? "runtime" = some participant ∧
    participant.epoch = s.epoch

theorem Acknowledged.quiescent {s : State} (h : Acknowledged s) : Quiescent s where
  phase := h.phase
  leases := h.leases
  continuations item hmem := by simp [RootItem.pendingContinuation, h.queue item hmem]
  runtime := h.runtime

variable {host : Host} {op : Op} {now : Seconds} {s s' : State}

/-- Under the flag no lease can be found. -/
theorem Acknowledged.no_lease (h : Acknowledged s) (id : String) : s.leases.get? id = none :=
  (Dict.isEmpty_iff _).mp h.leases id

/-- Every effect keeps the flag honest. -/
theorem acknowledged_effect (heff : Effect host op now s s')
    (h : s.safeToStop = true → Acknowledged s) : s'.safeToStop = true → Acknowledged s' := by
  cases heff with
  | bookkeep hcore =>
      intro hsafe
      have hack := h (hcore.safeToStop ▸ hsafe)
      refine ⟨hcore.phase ▸ hack.phase, ?_, ?_, ?_⟩
      · rw [hcore.leases]
        exact hack.leases
      · rw [hcore.rootQueue]
        exact hack.queue
      · rw [hcore.participants, hcore.epoch]
        exact hack.runtime
  | acknowledge participant hphase hleases hqueue hepoch =>
      exact fun _ => ⟨hphase, hleases, hqueue, participant, Dict.get?_set_self _ _ _, hepoch⟩
  | dropLeases keep _ =>
      intro hsafe
      have hack := h hsafe
      refine ⟨hack.phase, (Dict.isEmpty_iff _).mpr fun id => ?_, hack.queue, hack.runtime⟩
      simp [Dict.get?_filter, hack.no_lease id]
  | beat leaseId lease _ _ hget =>
      intro hsafe
      simp [(h hsafe).no_lease leaseId] at hget
  | enqueue item henters hplain =>
      intro hsafe
      have hack := h hsafe
      refine ⟨hack.phase, hack.leases, fun i hi => ?_, hack.runtime⟩
      rcases List.mem_append.mp hi with hi | hi
      · exact hack.queue i hi
      · exact (List.mem_singleton.mp hi) ▸ ⟨henters.pending, hplain⟩
  | giveBack f hf =>
      intro hsafe
      have hack := h hsafe
      refine ⟨hack.phase, hack.leases, fun i hi => ?_, hack.runtime⟩
      obtain ⟨old, hold, rfl⟩ := List.mem_map.mp hi
      rcases hf old hold with heq | ⟨⟨attempts, notBefore, heq⟩, -⟩
      · exact heq.symm ▸ hack.queue old hold
      · rw [heq]
        exact ⟨rfl, (hack.queue old hold).2⟩
  | remove keep _ =>
      intro hsafe
      have hack := h hsafe
      exact ⟨hack.phase, hack.leases, fun i hi => hack.queue i (List.mem_filter.mp hi).1,
        hack.runtime⟩
  | receipts => exact fun hsafe => ⟨(h hsafe).phase, (h hsafe).leases, (h hsafe).queue,
      (h hsafe).runtime⟩
  | raiseFence => simp
  | reopen => simp
  | advance => simp
  | revoke => simp
  | openLease => simp
  | transfer => simp
  | claim => simp

/-- In every reachable document the flag is honest. -/
theorem reachable_acknowledged {w : World} (h : (coordinator host).Reachable w) :
    w.state.safeToStop = true → Acknowledged w.state :=
  reachable_invariant (I := fun s => s.safeToStop = true → Acknowledged s)
    (by simp [defaultState]) (fun _ _ _ _ _ heff => acknowledged_effect heff) h

/-- Entering `updating` from `draining` needs the flag, in the stored document
and after pruning. -/
theorem updating_needs_flag {id : String} {r : Reply}
    (hphase : s.phase = .draining)
    (h : call host (.transition .updating id) s now = .ok (r, s')) :
    s.safeToStop = true ∧ (prune s now).safeToStop = true := by
  obtain ⟨value, h, -⟩ := Mutation.reply_ok (show mutation host (.transition .updating id)
    (prune s now) now = .ok (r, s') from h)
  obtain ⟨-, ⟨hsame, -⟩ | ⟨-, -, hsafe, -⟩⟩ := transition_cases h
  · -- The requested phase is not where pruning leaves a draining document.
    by_cases hexp : s.DrainExpired now
    · simp [prune_of_expired s now hexp] at hsame
    · simp [(prune_of_not_expired s now hexp).1, hphase] at hsame
  · exact ⟨(prune_safeToStop (hsafe rfl)).1, hsafe rfl⟩

/-- The stop boundary.  In every reachable document `safe_to_stop` is set only
where the phase is `draining`, no lease is held, no continuation waits in the
queue and the runtime has acknowledged the current epoch.  A call
`transition('updating')` that succeeds on a draining document finds it in such a
state, as stored and as pruned. -/
theorem safeToStop_quiescent (host : Host) (w : World)
    (h : (coordinator host).Reachable w) :
    (w.state.safeToStop = true → Quiescent w.state) ∧
      ∀ (t : Seconds) (id : String) (r : Reply) (s' : State),
        w.now ≤ t → w.state.phase = .draining →
        call host (.transition .updating id) w.state t = .ok (r, s') →
        w.state.safeToStop = true ∧ Quiescent w.state ∧
          (prune w.state t).safeToStop = true ∧ Quiescent (prune w.state t) := by
  refine ⟨fun hsafe => (reachable_acknowledged h hsafe).quiescent, ?_⟩
  intro t id r s' ht hphase hcall
  obtain ⟨hsafe, hpruned⟩ := updating_needs_flag hphase hcall
  refine ⟨hsafe, (reachable_acknowledged h hsafe).quiescent, hpruned, ?_⟩
  -- The pruning read is itself a step of the coordinator.
  have hread : (coordinator host).Reachable (w.after host .read t) :=
    h.step (e := ⟨.read, t⟩) ⟨ht, trivial, rfl⟩
  have hstate : (w.after host .read t).state = prune w.state t := rfl
  exact hstate ▸ (reachable_acknowledged hread (by rw [hstate]; exact hpruned)).quiescent

/-- A drain that the runtime acknowledges, then the update. -/
theorem safeToStop_quiescent_drained :
    let w := (World.initial 0).play countingHost
      [⟨.requestDrain none "update-1", 1⟩,
        ⟨.acknowledgeRuntimeQuiescent 1 (some true) none none, 2⟩]
    Quiescent w.state ∧ Quiescent (prune w.state 3) := by
  intro w
  have hreach : (coordinator countingHost).Reachable w :=
    play_reachable (.init ⟨0, rfl⟩) (by decide +kernel) (by simp [Op.Known])
  obtain ⟨hflag, hupdating⟩ := safeToStop_quiescent countingHost w hreach
  exact ⟨hflag rfl, (hupdating 3 "" _ _ (by decide +kernel) rfl rfl).2.2.2⟩

end Maintenance
end Stemcell
