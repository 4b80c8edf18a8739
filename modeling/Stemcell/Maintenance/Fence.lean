import Stemcell.Maintenance.Tokens

/-!
# The update fence

A drain raises the epoch.  Work admitted before it may finish and may spawn
descendants; nothing else may start until the phase is `available` again.

Main results:

- Theorem `reachable_admittedBefore`: every lease and every continuation was
  admitted before the fence.
- Theorem `plain_claim_effect`: under the fence only continuations are claimed.
- Theorem `Within.effect`: under the fence a lease carries on the lineage of a
  lease or a continuation.
- Theorem `fence_law`: the law of the fence along every run.
-/

namespace Stemcell
namespace Maintenance

open Lib

/-! ## Epochs -/

/-- Admitted work has an epoch below this one. -/
def State.fence (s : State) : Nat :=
  if s.phase = .available then s.epoch + 1 else s.epoch

/-- Every lease and every continuation was admitted before the fence. -/
structure AdmittedBefore (s : State) : Prop where
  positive : 0 < s.fence
  leases : ∀ id lease, s.leases.get? id = some lease → lease.admittedEpoch < s.fence
  continuations : ∀ item ∈ s.rootQueue, ∀ c, item.continuation = some c →
    c.admittedEpoch < s.fence

variable {host : Host} {op : Op} {now : Seconds} {s s' : State}

theorem fence_available (h : s.phase = .available) : s.fence = s.epoch + 1 := by
  simp [State.fence, h]

theorem fence_shut (h : s.phase ≠ .available) : s.fence = s.epoch := by
  simp [State.fence, h]

theorem epoch_le_fence (s : State) : s.epoch ≤ s.fence := by
  unfold State.fence
  split <;> omega

/-- Leases and continuations come from older ones, and the fence does not fall. -/
theorem AdmittedBefore.shrink (h : AdmittedBefore s) (hfence : s.fence ≤ s'.fence)
    (hleases : ∀ id lease', s'.leases.get? id = some lease' →
      ∃ id' lease, s.leases.get? id' = some lease ∧
        lease'.admittedEpoch = lease.admittedEpoch)
    (hqueue : ∀ item ∈ s'.rootQueue, ∃ old ∈ s.rootQueue,
      item.continuation = old.continuation) : AdmittedBefore s' where
  positive := h.positive.trans_le hfence
  leases id lease' hget := by
    rcases hleases id lease' hget with ⟨id', lease, hold, hepoch⟩
    rw [hepoch]
    exact (h.leases id' lease hold).trans_le hfence
  continuations item hmem c hc := by
    rcases hqueue item hmem with ⟨old, hold, hsame⟩
    exact (h.continuations old hold c (hsame ▸ hc)).trans_le hfence

/-- A lease is added under some id. -/
theorem AdmittedBefore.set (h : AdmittedBefore s) {id : String} {lease : Lease}
    (hepoch : lease.admittedEpoch < s.fence) (hfence : s'.fence = s.fence)
    (hleases : s'.leases = s.leases.set id lease)
    (hqueue : ∀ item ∈ s'.rootQueue, ∃ old ∈ s.rootQueue,
      item.continuation = old.continuation) : AdmittedBefore s' where
  positive := hfence ▸ h.positive
  leases id' lease' hget := by
    rw [hfence]
    rw [hleases, Dict.get?_set] at hget
    by_cases hid : id = id'
    · rw [if_pos hid, Option.some.injEq] at hget
      exact hget ▸ hepoch
    · rw [if_neg hid] at hget
      exact h.leases id' lease' hget
  continuations item hmem c hc := by
    rcases hqueue item hmem with ⟨old, hold, hsame⟩
    rw [hfence]
    exact h.continuations old hold c (hsame ▸ hc)

/-- The epoch a claim is admitted under. -/
theorem claimEpoch_lt (h : AdmittedBefore s) {item : RootItem} (hmem : item ∈ s.rootQueue)
    (hadmits : Admits s item) : claimEpoch s item < s.fence := by
  unfold claimEpoch
  cases hcont : item.continuation with
  | some c => exact h.continuations item hmem c hcont
  | none =>
      rcases hadmits with hphase | ⟨-, c, hc, -⟩
      · rw [fence_available hphase]
        exact Nat.lt_succ_self _
      · rw [hcont] at hc
        simp at hc

/-- The epoch a lease is opened under. -/
theorem Opens.epoch_lt (h : AdmittedBefore s) {id : String} {lease : Lease}
    (hopens : Opens op s id lease) : lease.admittedEpoch < s.fence := by
  cases hopens with
  | available hphase hepoch =>
      rw [hepoch, fence_available hphase]
      exact Nat.lt_succ_self _
  | descendant token _ _ hold hepoch _ =>
      rw [hepoch]
      exact hold.trans_le (epoch_le_fence s)
  | adopted _ hphase hepoch _ =>
      have hpositive := h.positive
      rw [fence_shut hphase] at hpositive ⊢
      omega

/-- Every effect keeps admitted work below the fence. -/
theorem AdmittedBefore.effect (h : AdmittedBefore s) (heff : Effect host op now s s') :
    AdmittedBefore s' := by
  have hleases : ∀ id lease', s.leases.get? id = some lease' →
      ∃ id' lease, s.leases.get? id' = some lease ∧
        lease'.admittedEpoch = lease.admittedEpoch :=
    fun id lease hget => ⟨id, lease, hget, rfl⟩
  have hqueue : ∀ item ∈ s.rootQueue, ∃ old ∈ s.rootQueue,
      item.continuation = old.continuation :=
    fun item hmem => ⟨item, hmem, rfl⟩
  cases heff with
  | bookkeep hcore =>
      refine h.shrink ?_ ?_ ?_
      · rw [State.fence, State.fence, hcore.phase, hcore.epoch]
      · rwa [hcore.leases]
      · rwa [hcore.rootQueue]
  | raiseFence hphase =>
      refine h.shrink ?_ hleases hqueue
      rw [fence_available hphase]
      simp [State.fence]
  | reopen =>
      refine h.shrink ?_ hleases hqueue
      unfold State.fence
      split <;> simp
  | advance phase hphase _ _ =>
      refine h.shrink ?_ hleases hqueue
      rw [fence_shut hphase]
      exact epoch_le_fence { s with phase := phase, safeToStop := false }
  | dropLeases keep _ =>
      refine h.shrink le_rfl (fun id lease hget => ?_) hqueue
      rw [Dict.get?_filter_eq_some_iff] at hget
      exact ⟨id, lease, hget.1, rfl⟩
  | openLease lease hopens _ _ =>
      exact h.set (hopens.epoch_lt h) rfl rfl hqueue
  | beat leaseId lease expiresAt _ hget =>
      have hepoch : ({ lease with heartbeatAt := now, expiresAt := expiresAt } :
          Lease).admittedEpoch < s.fence := h.leases leaseId lease hget
      refine h.set hepoch rfl rfl (fun item hmem => ?_)
      rcases List.mem_map.mp hmem with ⟨old, hold, heq⟩
      subst heq
      refine ⟨old, hold, ?_⟩
      split <;> rfl
  | enqueue item _ hplain =>
      refine ⟨h.positive, h.leases, fun i hi c hc => ?_⟩
      rcases List.mem_append.mp hi with hold | hnew
      · exact h.continuations i hold c hc
      · rw [List.mem_singleton.mp hnew, hplain] at hc
        simp at hc
  | transfer item leaseId lease _ _ hget hcont =>
      refine ⟨h.positive, fun id l hl => ?_, fun i hi c hc => ?_⟩
      · rw [Dict.get?_pop_eq_some_iff] at hl
        exact h.leases id l hl.2
      · rcases List.mem_append.mp hi with hold | hnew
        · exact h.continuations i hold c hc
        · rw [List.mem_singleton.mp hnew, hcont, Option.some.injEq] at hc
          subst hc
          exact h.leases leaseId lease hget
  | claim before after item hold _ hadmits _ =>
      have hitem : item ∈ s.rootQueue := by simp [hold]
      refine h.set (claimEpoch_lt h hitem hadmits) rfl rfl (fun i hi => ?_)
      rw [hold]
      rw [List.mem_append, List.mem_cons] at hi
      rcases hi with hi | hi | hi
      · exact ⟨i, List.mem_append_left _ hi, rfl⟩
      · subst hi
        exact ⟨item, List.mem_append_right _ List.mem_cons_self, rfl⟩
      · exact ⟨i, List.mem_append_right _ (List.mem_cons_of_mem _ hi), rfl⟩
  | giveBack f hf =>
      refine h.shrink le_rfl hleases (fun item hmem => ?_)
      rcases List.mem_map.mp hmem with ⟨old, hold, heq⟩
      subst heq
      exact ⟨old, hold, (hf old hold).queueId.2.2.2⟩
  | remove keep _ =>
      exact h.shrink le_rfl hleases fun item hmem =>
        ⟨item, (List.mem_filter.mp hmem).1, rfl⟩
  | revoke => exact h.shrink le_rfl hleases hqueue
  | acknowledge => exact h.shrink le_rfl hleases hqueue
  | receipts => exact h.shrink le_rfl hleases hqueue

/-- In every reachable document admitted work is below the fence. -/
theorem reachable_admittedBefore {w : World} (h : (coordinator host).Reachable w) :
    AdmittedBefore w.state := by
  refine reachable_invariant (I := AdmittedBefore) ?_ ?_ h
  · refine ⟨?_, ?_, ?_⟩
    · simp [State.fence, defaultState]
    · simp [defaultState]
    · simp [defaultState]
  · intro op now a b _ heff hbefore
    exact hbefore.effect heff

/-! ## Claims under the fence -/

/-- Outside the calls that reopen it, the fence stays up. -/
theorem shut_effect (hop : ¬ op.reopens) (heff : Effect host op now s s')
    (h : s.phase ≠ .available) : s'.phase ≠ .available := by
  cases heff with
  | bookkeep hcore =>
      rw [hcore.phase]
      exact h
  | raiseFence hphase => exact absurd hphase h
  | reopen hreopens => exact absurd hreopens hop
  | advance phase _ havailable _ => exact havailable
  | _ => exact h

/-- This root is claimed in `s'`, and was not claimed under this token in `s`. -/
structure NewlyClaimed (s s' : State) (item : RootItem) : Prop where
  mem : item ∈ s'.rootQueue
  claimed : item.status = .claimed
  fresh : ∀ old ∈ s.rootQueue, old.status = .claimed → old.queueId = item.queueId →
    old.claimToken ≠ item.claimToken

/-- Plain roots claimed in `s'` were claimed under the same token in `s`. -/
def PlainClaimsFrom (s s' : State) : Prop :=
  ∀ item ∈ s'.rootQueue, item.status = .claimed → item.continuation = none →
    ∃ old ∈ s.rootQueue, old.status = .claimed ∧ old.queueId = item.queueId ∧
      old.claimToken = item.claimToken ∧ old.continuation = none

theorem PlainClaimsFrom.refl (s : State) : PlainClaimsFrom s s :=
  fun item hmem hclaimed hplain => ⟨item, hmem, hclaimed, rfl, rfl, hplain⟩

theorem PlainClaimsFrom.trans {t : State} (h : PlainClaimsFrom s s')
    (h' : PlainClaimsFrom s' t) : PlainClaimsFrom s t := by
  intro item hmem hclaimed hplain
  rcases h' item hmem hclaimed hplain with ⟨mid, hmid, hmidclaimed, hid, htoken, hmidplain⟩
  rcases h mid hmid hmidclaimed hmidplain with ⟨old, hold, holdclaimed, hid', htoken', hplain'⟩
  exact ⟨old, hold, holdclaimed, hid'.trans hid, htoken'.trans htoken, hplain'⟩

/-- Under the fence no effect claims a plain root. -/
theorem plain_claim_effect (heff : Effect host op now s s')
    (hshut : ¬ op.reopens → s.phase ≠ .available) : PlainClaimsFrom s s' := by
  intro item hmem hclaimed hplain
  cases heff with
  | bookkeep hcore => exact ⟨item, hcore.rootQueue ▸ hmem, hclaimed, rfl, rfl, hplain⟩
  | beat leaseId lease expiresAt _ _ =>
      rcases List.mem_map.mp hmem with ⟨old, hold, heq⟩
      subst heq
      by_cases hid : old.leaseId = leaseId
      · simp only [hid, if_true] at hclaimed hplain ⊢
        exact ⟨old, hold, hclaimed, rfl, rfl, hplain⟩
      · simp only [hid, if_false] at hclaimed hplain ⊢
        exact ⟨old, hold, hclaimed, rfl, rfl, hplain⟩
  | enqueue new henters _ =>
      rcases List.mem_append.mp hmem with hmem | hmem
      · exact ⟨item, hmem, hclaimed, rfl, rfl, hplain⟩
      · rw [List.mem_singleton.mp hmem, henters.pending] at hclaimed
        simp at hclaimed
  | transfer new leaseId lease henters _ _ _ =>
      rcases List.mem_append.mp hmem with hmem | hmem
      · exact ⟨item, hmem, hclaimed, rfl, rfl, hplain⟩
      · rw [List.mem_singleton.mp hmem, henters.pending] at hclaimed
        simp at hclaimed
  | claim before after new hqueue _ hadmits hop =>
      rw [List.mem_append, List.mem_cons] at hmem
      rw [hqueue]
      rcases hmem with hmem | heq | hmem
      · exact ⟨item, List.mem_append_left _ hmem, hclaimed, rfl, rfl, hplain⟩
      · subst heq
        rcases hadmits with hphase | ⟨-, c, hcont, -⟩
        · exact absurd hphase (hshut hop)
        · have hnone : new.continuation = none := hplain
          rw [hnone] at hcont
          simp at hcont
      · exact ⟨item, List.mem_append_right _ (List.mem_cons_of_mem _ hmem), hclaimed, rfl, rfl,
          hplain⟩
  | giveBack f hf =>
      rcases List.mem_map.mp hmem with ⟨old, hold, heq⟩
      subst heq
      rcases hf old hold with heq | ⟨⟨attempts, notBefore, heq⟩, -⟩
      · rw [heq] at hclaimed hplain ⊢
        exact ⟨old, hold, hclaimed, rfl, rfl, hplain⟩
      · rw [heq] at hclaimed
        simp [RootItem.repend] at hclaimed
  | remove keep _ => exact ⟨item, (List.mem_filter.mp hmem).1, hclaimed, rfl, rfl, hplain⟩
  | raiseFence => exact ⟨item, hmem, hclaimed, rfl, rfl, hplain⟩
  | reopen => exact ⟨item, hmem, hclaimed, rfl, rfl, hplain⟩
  | advance => exact ⟨item, hmem, hclaimed, rfl, rfl, hplain⟩
  | revoke => exact ⟨item, hmem, hclaimed, rfl, rfl, hplain⟩
  | acknowledge => exact ⟨item, hmem, hclaimed, rfl, rfl, hplain⟩
  | dropLeases => exact ⟨item, hmem, hclaimed, rfl, rfl, hplain⟩
  | openLease => exact ⟨item, hmem, hclaimed, rfl, rfl, hplain⟩
  | receipts => exact ⟨item, hmem, hclaimed, rfl, rfl, hplain⟩

theorem plain_claim_effects (heffs : Effects host op now s s')
    (hshut : ¬ op.reopens → s.phase ≠ .available) : PlainClaimsFrom s s' := by
  have hboth : (¬ op.reopens → s'.phase ≠ .available) ∧ PlainClaimsFrom s s' := by
    refine heffs.invariant
      (I := fun t => (¬ op.reopens → t.phase ≠ .available) ∧ PlainClaimsFrom s t) ?_
      ⟨hshut, .refl s⟩
    intro a b heff hab
    exact ⟨fun hop => shut_effect hop heff (hab.1 hop),
      hab.2.trans (plain_claim_effect heff hab.1)⟩
  exact hboth.2

/-! ## Lineages under the fence -/

/-- Every lease and every continuation carries a lineage in `K`. -/
structure Within (K : String → Prop) (s : State) : Prop where
  leases : ∀ id lease, s.leases.get? id = some lease → K lease.lineageId
  continuations : ∀ item ∈ s.rootQueue, ∀ c, item.continuation = some c → K c.lineageId

/-- A live lease or a queued continuation carries this lineage. -/
def Carries (s : State) (lineage : String) : Prop :=
  (∃ id lease, s.leases.get? id = some lease ∧ lease.lineageId = lineage) ∨
    ∃ item ∈ s.rootQueue, ∃ c, item.continuation = some c ∧ c.lineageId = lineage

theorem within_carries (s : State) : Within (Carries s) s where
  leases id lease hget := .inl ⟨id, lease, hget, rfl⟩
  continuations item hmem c hc := .inr ⟨item, hmem, c, hc, rfl⟩

theorem Within.mono {K L : String → Prop} (h : Within K s) (hKL : ∀ l, K l → L l) :
    Within L s where
  leases id lease hget := hKL _ (h.leases id lease hget)
  continuations item hmem c hc := hKL _ (h.continuations item hmem c hc)

/-- Leases keep their lineages and continuations come from older ones. -/
theorem Within.shrink {K : String → Prop} (h : Within K s)
    (hleases : ∀ id lease', s'.leases.get? id = some lease' → K lease'.lineageId)
    (hqueue : ∀ item ∈ s'.rootQueue, ∃ old ∈ s.rootQueue,
      item.continuation = old.continuation) : Within K s' where
  leases := hleases
  continuations item hmem c hc := by
    rcases hqueue item hmem with ⟨old, hold, hsame⟩
    exact h.continuations old hold c (hsame ▸ hc)

/-- A lease under a new id with a lineage in `K`. -/
theorem Within.set_lease {K : String → Prop} (h : Within K s) {id : String} {lease : Lease}
    (hlineage : K lease.lineageId) :
    ∀ id' lease', (s.leases.set id lease).get? id' = some lease' → K lease'.lineageId := by
  intro id' lease' hget
  rw [Dict.get?_set] at hget
  by_cases hid : id = id'
  · rw [if_pos hid, Option.some.injEq] at hget
    exact hget ▸ hlineage
  · rw [if_neg hid] at hget
    exact h.leases id' lease' hget

/-- Under the fence, unless work from before it is adopted, leases carry on the
lineages of leases and continuations. -/
theorem Within.effect {K : String → Prop} (h : Within K s) (hwf : WellFormed host s)
    (hshut : ¬ op.reopens → s.phase ≠ .available)
    (hparent : ∀ token, op.parent token → TokenMatches host s token) (hadopts : ¬ op.adopts)
    (heff : Effect host op now s s') : Within K s' := by
  have hqueue : ∀ item ∈ s.rootQueue, ∃ old ∈ s.rootQueue,
      item.continuation = old.continuation :=
    fun item hmem => ⟨item, hmem, rfl⟩
  cases heff with
  | bookkeep hcore =>
      refine h.shrink ?_ ?_
      · rw [hcore.leases]
        exact h.leases
      · rwa [hcore.rootQueue]
  | dropLeases keep _ =>
      refine h.shrink (fun id lease hget => ?_) hqueue
      rw [Dict.get?_filter_eq_some_iff] at hget
      exact h.leases id lease hget.1
  | openLease lease hopens hlineage hop =>
      refine h.shrink (h.set_lease ?_) hqueue
      cases hopens with
      | available hphase _ => exact absurd hphase (hshut hop)
      | adopted hadopted _ _ _ => exact absurd hadopted hadopts
      | descendant token htoken hlive _ _ hsame =>
          rw [Dict.contains_iff] at hlive
          rcases hlive with ⟨parent, hget⟩
          have hmatch := (hparent token htoken).lease parent hget
          have hne : token.lineageId ≠ "" := by
            rw [hmatch.1]
            exact (hwf.leaseDrawn _ parent hget).2
          rw [hsame, orElse, if_neg hne, hmatch.1]
          exact h.leases _ parent hget
  | beat leaseId lease expiresAt _ hget =>
      have hlineage : K ({ lease with heartbeatAt := now, expiresAt := expiresAt } :
          Lease).lineageId := h.leases leaseId lease hget
      refine h.shrink (h.set_lease hlineage) (fun item hmem => ?_)
      rcases List.mem_map.mp hmem with ⟨old, hold, heq⟩
      subst heq
      refine ⟨old, hold, ?_⟩
      split <;> rfl
  | enqueue item _ hplain =>
      refine ⟨h.leases, fun i hi c hc => ?_⟩
      rcases List.mem_append.mp hi with hold | hnew
      · exact h.continuations i hold c hc
      · rw [List.mem_singleton.mp hnew, hplain] at hc
        simp at hc
  | transfer item leaseId lease _ _ hget hcont =>
      refine ⟨fun id l hl => ?_, fun i hi c hc => ?_⟩
      · rw [Dict.get?_pop_eq_some_iff] at hl
        exact h.leases id l hl.2
      · rcases List.mem_append.mp hi with hold | hnew
        · exact h.continuations i hold c hc
        · rw [List.mem_singleton.mp hnew, hcont, Option.some.injEq] at hc
          subst hc
          have hne := (hwf.leaseDrawn leaseId lease hget).2
          simp only [continuationOf, orElse, if_neg hne]
          exact h.leases leaseId lease hget
  | claim before after item hold _ hadmits hop =>
      have hitem : item ∈ s.rootQueue := by simp [hold]
      refine h.shrink (h.set_lease ?_) (fun i hi => ?_)
      · rcases hadmits with hphase | ⟨-, c, hcont, -⟩
        · exact absurd hphase (hshut hop)
        · have hne := (hwf.transferDead item hitem c hcont).2.2
          simp only [claimLease, makeLease, claimLineage, hcont, orElse, if_neg hne]
          exact h.continuations item hitem c hcont
      · rw [hold]
        rw [List.mem_append, List.mem_cons] at hi
        rcases hi with hi | hi | hi
        · exact ⟨i, List.mem_append_left _ hi, rfl⟩
        · subst hi
          exact ⟨item, List.mem_append_right _ List.mem_cons_self, rfl⟩
        · exact ⟨i, List.mem_append_right _ (List.mem_cons_of_mem _ hi), rfl⟩
  | giveBack f hf =>
      refine h.shrink h.leases (fun item hmem => ?_)
      rcases List.mem_map.mp hmem with ⟨old, hold, heq⟩
      subst heq
      exact ⟨old, hold, (hf old hold).queueId.2.2.2⟩
  | remove keep _ =>
      exact h.shrink h.leases fun item hmem => ⟨item, (List.mem_filter.mp hmem).1, rfl⟩
  | raiseFence => exact h.shrink h.leases hqueue
  | reopen => exact h.shrink h.leases hqueue
  | advance => exact h.shrink h.leases hqueue
  | revoke => exact h.shrink h.leases hqueue
  | acknowledge => exact h.shrink h.leases hqueue
  | receipts => exact h.shrink h.leases hqueue

/-- A call that adopts nothing keeps the lineages, under the fence. -/
theorem Within.effects {K : String → Prop} (h : Within K s) (hwf : WellFormed host s)
    (hshut : ¬ op.reopens → s.phase ≠ .available)
    (hparent : ∀ token, op.parent token → TokenMatches host s token) (hadopts : ¬ op.adopts)
    (heffs : Effects host op now s s') : Within K s' := by
  have hall : WellFormed host s' ∧ (¬ op.reopens → s'.phase ≠ .available) ∧
      (∀ token, op.parent token → TokenMatches host s' token) ∧ Within K s' := by
    refine heffs.invariant
      (I := fun t => WellFormed host t ∧ (¬ op.reopens → t.phase ≠ .available) ∧
        (∀ token, op.parent token → TokenMatches host t token) ∧ Within K t) ?_
      ⟨hwf, hshut, hparent, h⟩
    rintro a b heff ⟨hwfa, hshuta, hparenta, hwithin⟩
    refine ⟨hwfa.effect heff, fun hop => shut_effect hop heff (hshuta hop), ?_,
      hwithin.effect hwfa hshuta hparenta hadopts heff⟩
    intro token htoken
    exact (hparenta token htoken).from heff.uuidsDrawn_le (lease_effect heff)
  exact hall.2.2.2

theorem Within.prune {K : String → Prop} (h : Within K s) (hwf : WellFormed host s) (t : Seconds) :
    Within K (prune s t) := by
  have heffs : Effects host .read t s (Maintenance.prune s t) := prune_effects host s t
  refine h.effects hwf ?_ ?_ ?_ heffs
  · exact fun hop => absurd trivial hop
  · exact fun _ hparent => hparent.elim
  · exact fun hadopts => hadopts

/-- Adopted work opens the lineage its answer names. -/
theorem adopt_within {K : String → Prop} {kind activity contact : String}
    {started ttl : Seconds} {r : Reply} (h : Within K s)
    (hcall : mutation host (.adoptPrefenceActivity kind activity contact started ttl) s now =
      .ok (r, s'))
    (hK : ∀ l ∈ Op.adoptedLineages (.adoptPrefenceActivity kind activity contact started ttl) r,
      K l) : Within K s' := by
  simp only [mutation] at hcall
  rcases Mutation.reply_ok hcall with ⟨value, hvalue, hr⟩
  subst hr
  unfold adoptPrefenceActivity at hvalue
  split at hvalue
  · rcases Prod.mk.inj (Except.ok.inj hvalue) with ⟨-, hs'⟩
    subst hs'
    exact h
  · rcases Prod.mk.inj (Except.ok.inj hvalue) with ⟨hv, hs'⟩
    subst hv hs'
    refine ⟨?_, h.continuations⟩
    refine h.set_lease ?_
    have hne := host.uuid4_ne_empty s.uuidsDrawn
    apply hK
    simp [Op.adoptedLineages, Reply.tokens, newLease, addLease, tokenFromLease, makeLease, orElse,
      hne]

/-! ## Runs under the fence -/

/-- The coordinator, its callers passing only activity tokens it issued. -/
def issuing (host : Host) : TransitionSystem World Event :=
  (coordinator host).restrict fun w e => ∀ token, e.op.parent token → token ∈ w.tokens

/-- The call finds the phase, pruned, not to have returned to `available`. -/
def Fenced (w : World) (e : Event) : Prop :=
  (prune w.state e.time).phase ≠ .available

/-- The call is a `request_drain` that raises the fence. -/
structure Raises (w : World) (e : Event) (w' : World) : Prop where
  drain : ∃ deadline id, e.op = .requestDrain deadline id
  raised : w'.state.epoch = w.state.epoch + 1

/-- Work from before the fence was adopted under this lineage between `w` and `w'`. -/
def AdoptedSince (w w' : World) (lineage : String) : Prop :=
  ∃ later, w'.adopted = w.adopted ++ later ∧ lineage ∈ later

variable {w w' : World} {e : Event}

/-- The lineages after the fence was raised in `w`. -/
def LineagesKept (w w' : World) : Prop :=
  ∃ later, w'.adopted = w.adopted ++ later ∧
    Within (fun l => Carries w.state l ∨ l ∈ later) w'.state

theorem lineagesKept_refl (w : World) : LineagesKept w w :=
  ⟨[], by simp, (within_carries w.state).mono fun _ => .inl⟩

/-- One call under the fence keeps the lineages. -/
theorem lineagesKept_step {w₀ : World} (hreach : (issuing host).Reachable w)
    (hfenced : Fenced w e) (h : LineagesKept w₀ w) (hstep : (issuing host).step w e w') :
    LineagesKept w₀ w' := by
  have hreach' := hreach.of_restrict
  have hwf := reachable_wellFormed hreach'
  rcases h with ⟨later, hlater, hwithin⟩
  rcases step_cases hstep.2 with hw' | ⟨r, s', hcall, hw'⟩
  · subst hw'
    exact ⟨later, hlater, hwithin⟩
  · subst hw'
    refine ⟨later ++ e.op.adoptedLineages r, ?_, ?_⟩
    · rw [hlater, List.append_assoc]
    have hpruned := (hwithin.prune hwf e.time).mono
      (L := fun l => Carries w₀.state l ∨ l ∈ later ++ e.op.adoptedLineages r) (by
        rintro l (hl | hl)
        · exact .inl hl
        · exact .inr (List.mem_append_left _ hl))
    by_cases hadopts : e.op.adopts
    · cases hop : e.op with
      | adoptPrefenceActivity kind activity contact started ttl =>
          rw [hop] at hpruned
          have hcall' : mutation host (.adoptPrefenceActivity kind activity contact started ttl)
              (prune w.state e.time) e.time = .ok (r, s') := by
            rw [hop] at hcall
            exact hcall
          exact adopt_within hpruned hcall' fun l hl => .inr (List.mem_append_right _ hl)
      | _ =>
          rw [hop] at hadopts
          exact hadopts.elim
    · have heffs := hwf.call_effects hstep.2.2.1 hcall
      refine hpruned.effects (hwf.prune e.time) (fun _ => hfenced) ?_ hadopts heffs.2
      intro token htoken
      exact (reachable_tokensMatch hreach' token (hstep.1 token htoken)).effects heffs.1

/-- Under the fence only continuations are claimed. -/
theorem newlyClaimed_step {item : RootItem} (hreach : (issuing host).Reachable w)
    (hfenced : Fenced w e) (hstep : (issuing host).step w e w')
    (h : NewlyClaimed w.state w'.state item) : item.continuation ≠ none := by
  have hwf := reachable_wellFormed hreach.of_restrict
  intro hplain
  have hfrom : PlainClaimsFrom w.state w'.state := by
    rcases step_cases hstep.2 with hw' | ⟨r, s', hcall, hw'⟩
    · subst hw'
      exact .refl _
    · subst hw'
      have heffs := hwf.call_effects hstep.2.2.1 hcall
      exact (plain_claim_effects heffs.1 fun hop => absurd trivial hop).trans
        (plain_claim_effects heffs.2 fun _ => hfenced)
  rcases hfrom item h.mem h.claimed hplain with ⟨old, hold, hclaimed, hid, htoken, -⟩
  exact h.fresh old hold hclaimed hid htoken

/-- Every lease that a call under the fence creates, adoption apart, carries a
lineage that `permits` allows.  The fence is raised in `w₀`, the call is made in
`w`. -/
def CreatedWithin (host : Host) (permits : World → World → String → Prop) : Prop :=
  ∀ v e₀ w₀ es w e w', (issuing host).Reachable v → (issuing host).step v e₀ w₀ →
    Raises v e₀ w₀ → ((issuing host).restrict Fenced).Run w₀ es w →
    ((issuing host).restrict Fenced).step w e w' → ¬ e.op.adopts →
    ∀ id lease, w'.state.leases.get? id = some lease → w.state.leases.get? id = none →
      permits w₀ w lease.lineageId

/-- Along every run under the fence, no plain root is claimed. -/
def OnlyContinuationsClaimed (host : Host) : Prop :=
  ∀ v e₀ w₀ es w e w', (issuing host).Reachable v → (issuing host).step v e₀ w₀ →
    Raises v e₀ w₀ → ((issuing host).restrict Fenced).Run w₀ es w →
    ((issuing host).restrict Fenced).step w e w' →
    ∀ item, NewlyClaimed w.state w'.state item → item.continuation ≠ none

/-- A descendant of adopted work carries a lineage that nothing carried when the
fence was raised. -/
theorem descendant_of_adopted :
    ¬ CreatedWithin countingHost fun w₀ _ lineage => Carries w₀.state lineage := by
  intro hcreated
  let v := World.initial 0
  let e₀ : Event := ⟨.requestDrain none "update-1", 1⟩
  let w₀ := v.after countingHost e₀.op 1
  let adopt : Event := ⟨.adoptPrefenceActivity "flow" "flow-1" "carbon-a" 0 90, 2⟩
  let w := w₀.after countingHost adopt.op 2
  let token : ActivityToken := ⟨"a", "a", 0, "flow", ""⟩
  let e : Event := ⟨.acquireActivity "task" "task-1" "carbon-a" (some token) 90, 3⟩
  have hclock : v.now ≤ 1 ∧ w₀.now ≤ 2 ∧ w.now ≤ 3 := by decide +kernel
  have hv : (issuing countingHost).Reachable v := .init ⟨0, rfl⟩
  have hraise : (issuing countingHost).step v e₀ w₀ :=
    ⟨fun _ hparent => hparent.elim, hclock.1, trivial, rfl⟩
  have hadopt : ((issuing countingHost).restrict Fenced).step w₀ adopt w := by
    refine ⟨?_, fun _ hparent => hparent.elim, hclock.2.1, trivial, rfl⟩
    unfold Fenced
    decide +kernel
  have hdescend : ((issuing countingHost).restrict Fenced).step w e
      (w.after countingHost e.op 3) := by
    refine ⟨?_, ?_, hclock.2.2, trivial, rfl⟩
    · unfold Fenced
      decide +kernel
    · intro parent hparent
      rw [← Option.some.inj hparent]
      decide +kernel
  have hlineage := hcreated v e₀ w₀ [adopt] w e _ hv hraise
    ⟨⟨none, "update-1", rfl⟩, by decide +kernel⟩ (.single hadopt) hdescend
    (fun hadopts => hadopts) "aa"
    (makeLease countingHost 3 "task" "task-1" "carbon-a" 0 "a" "a" 90 "aa")
    (by decide +kernel) (by decide +kernel)
  have hleases : w₀.state.leases.isEmpty = true := by decide +kernel
  have hqueue : w₀.state.rootQueue = [] := by decide +kernel
  rcases hlineage with ⟨id, lease, hget, -⟩ | ⟨item, hmem, -⟩
  · rw [(Dict.isEmpty_iff _).mp hleases id] at hget
    simp at hget
  · rw [hqueue] at hmem
    simp at hmem

/-- The law of the fence.  Outside `available` every lease was admitted under an
older epoch.  Between a `request_drain` that raises the fence and the return to
`available`, only continuations are claimed, and a lease that is not itself
adopted carries a lineage that a lease or a continuation carried when the fence
was raised, or that was adopted since. -/
theorem fence_law (host : Host) :
    (∀ w, (coordinator host).Reachable w → w.state.phase ≠ .available →
      ∀ id lease, w.state.leases.get? id = some lease →
        lease.admittedEpoch < w.state.epoch) ∧
      OnlyContinuationsClaimed host ∧
      CreatedWithin host fun w₀ w lineage =>
        Carries w₀.state lineage ∨ AdoptedSince w₀ w lineage := by
  refine ⟨?_, ?_, ?_⟩
  · intro w hreach hphase id lease hget
    have hbefore := (reachable_admittedBefore hreach).leases id lease hget
    rwa [fence_shut hphase] at hbefore
  · intro v e₀ w₀ es w e w' hv hraise _ hrun hstep item hnew
    have hreach : (issuing host).Reachable w := (hv.step hraise).run hrun.of_restrict
    exact newlyClaimed_step hreach hstep.1 hstep.2 hnew
  · intro v e₀ w₀ es w e w' hv hraise _ hrun hstep hadopts id lease hget _
    have hreach : (issuing host).Reachable w := (hv.step hraise).run hrun.of_restrict
    have hkept : LineagesKept w₀ w :=
      hrun.preserves (I := LineagesKept w₀) (hv.step hraise)
        (fun a e b ha hfenced hkept hst => lineagesKept_step ha hfenced hkept hst)
        (lineagesKept_refl w₀)
    -- The last call adopts nothing, so what was adopted was adopted before it.
    rcases hkept with ⟨later, hlater, hwithin⟩
    have hkept' := lineagesKept_step hreach hstep.1 ⟨later, hlater, hwithin⟩ hstep.2
    have hsame : w'.adopted = w.adopted := by
      rcases step_cases hstep.2.2 with hw' | ⟨r, s', -, hw'⟩
      · rw [hw']
      · rw [hw']
        cases hop : e.op with
        | adoptPrefenceActivity => exact absurd (by rw [hop]; trivial) hadopts
        | _ => simp [Op.adoptedLineages]
    rcases hkept' with ⟨later', hlater', hwithin'⟩
    have heq : later' = later := by
      rw [hsame, hlater] at hlater'
      exact (List.append_cancel_left hlater').symm
    subst heq
    rcases hwithin'.leases id lease hget with hcarried | hadopted
    · exact .inl hcarried
    · exact .inr ⟨later', hlater, hadopted⟩

/-- A root admitted before the fence keeps an older epoch behind it. -/
theorem fence_law_draining :
    let w := (World.initial 0).play countingHost
      [⟨.enqueueRoot "carbon-a" "hello" true, 1⟩, ⟨.requestDrain none "update-1", 2⟩]
    ∃ lease, w.state.leases.get? "aaa" = some lease ∧ lease.admittedEpoch < w.state.epoch := by
  intro w
  have hreach : (coordinator countingHost).Reachable w :=
    play_reachable (.init ⟨0, rfl⟩) (by decide +kernel) (by simp [Op.Known])
  have hlive : w.state.leases.contains "aaa" = true := by decide +kernel
  rcases (Dict.contains_iff _ _).mp hlive with ⟨lease, hget⟩
  exact ⟨lease, hget, (fence_law countingHost).1 w hreach (by decide +kernel) "aaa" lease hget⟩

end Maintenance
end Stemcell
