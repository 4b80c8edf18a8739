import Stemcell.Maintenance.CallEffects

/-!
# Well-formed documents

The identifiers of a document are consistent: queue ids are distinct, claimed
roots hold drawn claim tokens and lease ids that no other claimed root holds,
and the lease a continuation took over is gone.  Every effect keeps this.

Main results:

- Theorem `WellFormed.effect`: one effect keeps a document well formed.
- Theorem `WellFormed.call`: so does a successful call.
-/

namespace Stemcell
namespace Maintenance

open Lib

/-- Consistency of the identifiers of a document. -/
structure WellFormed (host : Host) (s : State) : Prop where
  queueIds : (s.rootQueue.map RootItem.queueId).Nodup
  queueSeen : ∀ item ∈ s.rootQueue, Seen host s.uuidsDrawn item.queueId
  leaseDrawn : ∀ id lease, s.leases.get? id = some lease →
    Drawn host s.uuidsDrawn id ∧ lease.lineageId ≠ ""
  claimDrawn : ∀ item ∈ s.rootQueue, item.status = .claimed →
    Drawn host s.uuidsDrawn item.claimToken ∧ Drawn host s.uuidsDrawn item.leaseId
  pendingBlank : ∀ item ∈ s.rootQueue, item.status = .pending →
    item.claimToken = "" ∧ item.leaseId = ""
  claimsDistinct : ∀ i ∈ s.rootQueue, ∀ j ∈ s.rootQueue,
    i.status = .claimed → j.status = .claimed →
    i.claimToken = j.claimToken ∨ i.leaseId = j.leaseId → i.queueId = j.queueId
  transferDead : ∀ item ∈ s.rootQueue, ∀ c, item.continuation = some c →
    Drawn host s.uuidsDrawn c.transferLeaseId ∧ s.leases.get? c.transferLeaseId = none ∧
      c.lineageId ≠ ""

variable {host : Host} {op : Op} {now : Seconds} {s s' : State}

theorem wellFormed_default (host : Host) : WellFormed host defaultState where
  queueIds := List.nodup_nil
  queueSeen := by simp [defaultState]
  leaseDrawn := by simp [defaultState]
  claimDrawn := by simp [defaultState]
  pendingBlank := by simp [defaultState]
  claimsDistinct := by simp [defaultState]
  transferDead := by simp [defaultState]

/-- Two roots of a well-formed queue with one id are the same root. -/
theorem WellFormed.root_unique (h : WellFormed host s) {i j : RootItem}
    (hi : i ∈ s.rootQueue) (hj : j ∈ s.rootQueue) (heq : i.queueId = j.queueId) : i = j :=
  List.inj_on_of_nodup_map h.queueIds hi hj heq

/-- A lease holder and a claimed root are told apart by pending blanks: a lease
of the document is named by claimed roots only. -/
theorem WellFormed.claimed_of_lease (h : WellFormed host s) {item : RootItem}
    (hmem : item ∈ s.rootQueue) {lease : Lease}
    (hlease : s.leases.get? item.leaseId = some lease) : item.status = .claimed := by
  cases hstatus : item.status with
  | claimed => rfl
  | pending =>
      have hblank := (h.pendingBlank item hmem hstatus).2
      exact absurd hblank (h.leaseDrawn _ _ hlease).1.ne_empty

/-- The draws of a well-formed document name no queued root. -/
theorem WellFormed.freshDraw (h : WellFormed host s) : FreshDraw host s := by
  unfold FreshDraw findRoot
  rw [List.find?_eq_none]
  intro item hmem hid
  have hlt := h.queueSeen item hmem s.uuidsDrawn (by simpa using Eq.symm (by simpa using hid))
  omega

/-- Roots are kept up to the fields a claim sets, and leases only disappear. -/
theorem WellFormed.shrink (h : WellFormed host s)
    (hleases : ∀ id lease, s'.leases.get? id = some lease →
      ∃ old, s.leases.get? id = some old ∧ lease.lineageId = old.lineageId)
    (hids : (s'.rootQueue.map RootItem.queueId).Sublist (s.rootQueue.map RootItem.queueId))
    (hroots : ∀ item ∈ s'.rootQueue, ∃ old ∈ s.rootQueue, item.queueId = old.queueId ∧
      item.continuation = old.continuation ∧
      (item.status = old.status ∧ item.claimToken = old.claimToken ∧
          item.leaseId = old.leaseId ∨
        item.status = .pending ∧ item.claimToken = "" ∧ item.leaseId = ""))
    (hdrawn : s.uuidsDrawn ≤ s'.uuidsDrawn) : WellFormed host s' where
  queueIds := h.queueIds.sublist hids
  queueSeen item hmem := by
    obtain ⟨old, hold, hid, -⟩ := hroots item hmem
    exact hid ▸ (h.queueSeen old hold).mono hdrawn
  leaseDrawn id lease hget := by
    obtain ⟨old, hold, hlineage⟩ := hleases id lease hget
    exact ⟨(h.leaseDrawn id old hold).1.mono hdrawn, hlineage ▸ (h.leaseDrawn id old hold).2⟩
  claimDrawn item hmem hclaimed := by
    obtain ⟨old, hold, -, -, ⟨hstatus, htoken, hlease⟩ | ⟨hpending, -⟩⟩ := hroots item hmem
    · obtain ⟨h₁, h₂⟩ := h.claimDrawn old hold (hstatus ▸ hclaimed)
      exact ⟨htoken ▸ h₁.mono hdrawn, hlease ▸ h₂.mono hdrawn⟩
    · simp [hpending] at hclaimed
  pendingBlank item hmem hpending := by
    obtain ⟨old, hold, -, -, ⟨hstatus, htoken, hlease⟩ | ⟨-, hblank⟩⟩ := hroots item hmem
    · obtain ⟨h₁, h₂⟩ := h.pendingBlank old hold (hstatus ▸ hpending)
      exact ⟨htoken.trans h₁, hlease.trans h₂⟩
    · exact hblank
  claimsDistinct i hi j hj hic hjc heq := by
    obtain ⟨i', hi', hiid, -, ⟨his, hit, hil⟩ | ⟨hp, -⟩⟩ := hroots i hi
    · obtain ⟨j', hj', hjid, -, ⟨hjs, hjt, hjl⟩ | ⟨hp, -⟩⟩ := hroots j hj
      · rw [hiid, hjid]
        refine h.claimsDistinct i' hi' j' hj' (his ▸ hic) (hjs ▸ hjc) ?_
        rwa [← hit, ← hjt, ← hil, ← hjl]
      · simp [hp] at hjc
    · simp [hp] at hic
  transferDead item hmem c hc := by
    obtain ⟨old, hold, -, hcont, -⟩ := hroots item hmem
    obtain ⟨h₁, h₂, h₃⟩ := h.transferDead old hold c (hcont ▸ hc)
    refine ⟨h₁.mono hdrawn, ?_, h₃⟩
    rw [Option.eq_none_iff_forall_ne_some]
    intro lease hget
    obtain ⟨lease', hget', -⟩ := hleases _ _ hget
    rw [h₂] at hget'
    simp at hget'

/-- A root under a new id enters the queue unclaimed. -/
theorem WellFormed.enter (h : WellFormed host s) {item : RootItem}
    (henters : Enters host op s item)
    (hcontinuation : ∀ c, item.continuation = some c →
      Drawn host s.uuidsDrawn c.transferLeaseId ∧
        s.leases.get? c.transferLeaseId = none ∧ c.lineageId ≠ "") :
    WellFormed host { s with rootQueue := s.rootQueue ++ [item] } where
  queueIds := by
    have hnew : item.queueId ∉ s.rootQueue.map RootItem.queueId := by
      intro hmem
      obtain ⟨old, hold, hid⟩ := List.mem_map.mp hmem
      exact absurd hid (by simpa using List.find?_eq_none.mp henters.fresh old hold)
    rw [List.map_append, List.nodup_append]
    refine ⟨h.queueIds, List.nodup_singleton _, ?_⟩
    rintro a ha b hb rfl
    have hid : a = item.queueId := by simpa using hb
    exact hnew (hid ▸ ha)
  queueSeen i hi := by
    rcases List.mem_append.mp hi with hi | hi
    · exact h.queueSeen i hi
    · exact (List.mem_singleton.mp hi) ▸ henters.seen
  leaseDrawn := h.leaseDrawn
  claimDrawn i hi hclaimed := by
    rcases List.mem_append.mp hi with hi | hi
    · exact h.claimDrawn i hi hclaimed
    · simp [List.mem_singleton.mp hi, henters.pending] at hclaimed
  pendingBlank i hi hpending := by
    rcases List.mem_append.mp hi with hi | hi
    · exact h.pendingBlank i hi hpending
    · exact (List.mem_singleton.mp hi) ▸ ⟨henters.claimToken, henters.leaseId⟩
  claimsDistinct i hi j hj hic hjc := by
    rcases List.mem_append.mp hi with hi | hi
    · rcases List.mem_append.mp hj with hj | hj
      · exact h.claimsDistinct i hi j hj hic hjc
      · simp [List.mem_singleton.mp hj, henters.pending] at hjc
    · simp [List.mem_singleton.mp hi, henters.pending] at hic
  transferDead i hi c hc := by
    rcases List.mem_append.mp hi with hi | hi
    · exact h.transferDead i hi c hc
    · exact hcontinuation c ((List.mem_singleton.mp hi) ▸ hc)

/-- A lease is opened under the next draw. -/
theorem WellFormed.open (h : WellFormed host s) {lease : Lease} {k : Nat}
    (hk : s.uuidsDrawn ≤ k) (hlineage : lease.lineageId ≠ "") :
    WellFormed host
      { s with leases := s.leases.set (host.uuid4 k) lease, uuidsDrawn := k + 1 } where
  queueIds := h.queueIds
  queueSeen i hi := (h.queueSeen i hi).mono (by simp; omega)
  leaseDrawn id l hget := by
    rw [Dict.get?_set] at hget
    split at hget <;> rename_i hid
    · cases hget
      exact ⟨hid ▸ drawn_uuid4 host (Nat.lt_succ_self k), hlineage⟩
    · exact ⟨(h.leaseDrawn id l hget).1.mono (by simp; omega), (h.leaseDrawn id l hget).2⟩
  claimDrawn i hi hclaimed :=
    ⟨(h.claimDrawn i hi hclaimed).1.mono (by simp; omega),
      (h.claimDrawn i hi hclaimed).2.mono (by simp; omega)⟩
  pendingBlank := h.pendingBlank
  claimsDistinct := h.claimsDistinct
  transferDead i hi c hc := by
    obtain ⟨h₁, h₂, h₃⟩ := h.transferDead i hi c hc
    refine ⟨h₁.mono (by simp; omega), ?_, h₃⟩
    rw [Dict.get?_set_of_ne _ _ (h₁.ne_uuid4 hk)]
    exact h₂

/-- A pending root is claimed under the next two draws. -/
theorem WellFormed.claim (h : WellFormed host s) {before after : List RootItem}
    {item : RootItem} (hqueue : s.rootQueue = before ++ item :: after) :
    WellFormed host
      { s with
        rootQueue := before ++ claimedRoot host s item now :: after
        leases := s.leases.set (host.uuid4 (s.uuidsDrawn + 1)) (claimLease host s item now)
        safeToStop := false
        uuidsDrawn := s.uuidsDrawn + 2 } := by
  have hopen : WellFormed host
      { s with
        leases := s.leases.set (host.uuid4 (s.uuidsDrawn + 1)) (claimLease host s item now)
        uuidsDrawn := s.uuidsDrawn + 2 } :=
    h.open (Nat.le_succ _) (orElse_ne_empty (host.uuid4_ne_empty _))
  have hitem : item ∈ s.rootQueue := by simp [hqueue]
  -- Every root of the new queue is an old one or the claimed one.
  have hcases : ∀ i ∈ before ++ claimedRoot host s item now :: after,
      i ∈ s.rootQueue ∧ i.queueId ≠ item.queueId ∨ i = claimedRoot host s item now := by
    have hnodup := h.queueIds
    rw [hqueue, List.map_append, List.map_cons, List.nodup_middle, List.nodup_cons,
      ← List.map_append] at hnodup
    intro i hi
    rw [List.mem_append, List.mem_cons] at hi
    have hother : i ∈ before ++ after → i ∈ s.rootQueue ∧ i.queueId ≠ item.queueId := by
      intro hmem
      refine ⟨?_, fun heq => hnodup.1 (heq ▸ List.mem_map_of_mem hmem)⟩
      rw [hqueue]
      simp only [List.mem_append, List.mem_cons] at hmem ⊢
      tauto
    rcases hi with hi | rfl | hi
    · exact .inl (hother (List.mem_append_left _ hi))
    · exact .inr rfl
    · exact .inl (hother (List.mem_append_right _ hi))
  have htoken : ∀ i ∈ s.rootQueue, i.status = .claimed →
      i.claimToken ≠ host.uuid4 s.uuidsDrawn ∧ i.leaseId ≠ host.uuid4 (s.uuidsDrawn + 1) :=
    fun i hi hclaimed =>
      ⟨((h.claimDrawn i hi hclaimed).1.ne_uuid4 le_rfl).symm,
        ((h.claimDrawn i hi hclaimed).2.ne_uuid4 (Nat.le_succ _)).symm⟩
  refine ⟨?_, ?_, hopen.leaseDrawn, ?_, ?_, ?_, ?_⟩
  · have hids := h.queueIds
    rw [hqueue] at hids
    simpa [claimedRoot] using hids
  · intro i hi
    rcases hcases i hi with ⟨hold, -⟩ | rfl
    · exact hopen.queueSeen i hold
    · exact hopen.queueSeen item hitem
  · intro i hi hclaimed
    rcases hcases i hi with ⟨hold, -⟩ | rfl
    · exact hopen.claimDrawn i hold hclaimed
    · exact ⟨drawn_uuid4 host (by simp), drawn_uuid4 host (by simp)⟩
  · intro i hi hpending
    rcases hcases i hi with ⟨hold, -⟩ | rfl
    · exact h.pendingBlank i hold hpending
    · simp [claimedRoot] at hpending
  · intro i hi j hj hic hjc heq
    rcases hcases i hi with ⟨hiold, -⟩ | rfl
    · rcases hcases j hj with ⟨hjold, -⟩ | rfl
      · exact h.claimsDistinct i hiold j hjold hic hjc heq
      · rcases heq with heq | heq
        · exact absurd heq (htoken i hiold hic).1
        · exact absurd heq (htoken i hiold hic).2
    · rcases hcases j hj with ⟨hjold, -⟩ | rfl
      · rcases heq with heq | heq
        · exact absurd heq.symm (htoken j hjold hjc).1
        · exact absurd heq.symm (htoken j hjold hjc).2
      · rfl
  · intro i hi c hc
    rcases hcases i hi with ⟨hold, -⟩ | rfl
    · exact hopen.transferDead i hold c hc
    · exact hopen.transferDead item hitem c hc

/-- A map that keeps the queue ids keeps their list. -/
theorem map_queueId_map {queue : List RootItem} {f : RootItem → RootItem}
    (hf : ∀ item ∈ queue, (f item).queueId = item.queueId) :
    (queue.map f).map RootItem.queueId = queue.map RootItem.queueId := by
  rw [List.map_map]
  exact List.map_congr_left hf

theorem GivesBack.queueId {item item' : RootItem} (h : GivesBack op now s item item') :
    item'.queueId = item.queueId ∧ item'.contactId = item.contactId ∧
      item'.context = item.context ∧ item'.continuation = item.continuation := by
  rcases h with rfl | ⟨⟨attempts, notBefore, rfl⟩, -⟩ <;> exact ⟨rfl, rfl, rfl, rfl⟩

/-- One effect keeps a document well formed. -/
theorem WellFormed.effect (h : WellFormed host s) (heff : Effect host op now s s') :
    WellFormed host s' := by
  have hsame : ∀ item ∈ s.rootQueue, ∃ old ∈ s.rootQueue, item.queueId = old.queueId ∧
      item.continuation = old.continuation ∧
      (item.status = old.status ∧ item.claimToken = old.claimToken ∧
          item.leaseId = old.leaseId ∨
        item.status = .pending ∧ item.claimToken = "" ∧ item.leaseId = "") :=
    fun item hmem => ⟨item, hmem, rfl, rfl, .inl ⟨rfl, rfl, rfl⟩⟩
  have hleases : ∀ id lease, s.leases.get? id = some lease →
      ∃ old, s.leases.get? id = some old ∧ lease.lineageId = old.lineageId :=
    fun id lease hget => ⟨lease, hget, rfl⟩
  cases heff with
  | bookkeep hcore =>
      refine h.shrink ?_ ?_ ?_ hcore.uuidsDrawn
      · rwa [hcore.leases]
      · rw [hcore.rootQueue]
      · rwa [hcore.rootQueue]
  | raiseFence => exact h.shrink hleases (.refl _) hsame le_rfl
  | reopen => exact h.shrink hleases (.refl _) hsame le_rfl
  | advance => exact h.shrink hleases (.refl _) hsame le_rfl
  | revoke => exact h.shrink hleases (.refl _) hsame le_rfl
  | acknowledge => exact h.shrink hleases (.refl _) hsame le_rfl
  | receipts => exact h.shrink hleases (.refl _) hsame le_rfl
  | dropLeases keep _ =>
      refine h.shrink (fun id lease hget => ?_) (.refl _) hsame le_rfl
      rw [Dict.get?_filter_eq_some_iff] at hget
      exact ⟨lease, hget.1, rfl⟩
  | openLease lease _ hlineage _ =>
      exact (h.open le_rfl hlineage).shrink (fun id l hget => ⟨l, hget, rfl⟩) (.refl _)
        (fun item hmem => ⟨item, hmem, rfl, rfl, .inl ⟨rfl, rfl, rfl⟩⟩) le_rfl
  | beat leaseId lease expiresAt _ hget =>
      refine h.shrink (fun id l hl => ?_) ?_ (fun item hmem => ?_) le_rfl
      · rw [Dict.get?_set] at hl
        split at hl <;> rename_i hid
        · cases hl
          exact ⟨lease, hid ▸ hget, rfl⟩
        · exact ⟨l, hl, rfl⟩
      · rw [map_queueId_map fun item _ => by split <;> rfl]
      · obtain ⟨old, hold, rfl⟩ := List.mem_map.mp hmem
        refine ⟨old, hold, ?_⟩
        split <;> exact ⟨rfl, rfl, .inl ⟨rfl, rfl, rfl⟩⟩
  | enqueue item henters hplain =>
      exact h.enter henters (by simp [hplain])
  | transfer item leaseId lease henters _ hlease hcont =>
      have hdrop : WellFormed host { s with leases := s.leases.pop leaseId } := by
        refine h.shrink (fun id l hget => ?_) (.refl _) hsame le_rfl
        exact ⟨l, ((Dict.get?_pop_eq_some_iff _ _ _ _).mp hget).2, rfl⟩
      have henters' : Enters host op { s with leases := s.leases.pop leaseId } item :=
        ⟨henters.1, henters.2, henters.3, henters.4, henters.5, henters.6⟩
      refine (hdrop.enter henters' fun c hc => ?_).shrink (fun id l hget => ⟨l, hget, rfl⟩)
        (.refl _) (fun item hmem => ⟨item, hmem, rfl, rfl, .inl ⟨rfl, rfl, rfl⟩⟩) le_rfl
      rw [hcont] at hc
      cases hc
      exact ⟨(h.leaseDrawn leaseId lease hlease).1, Dict.get?_pop_self _ _,
        orElse_ne_empty (h.leaseDrawn leaseId lease hlease).1.ne_empty⟩
  | claim before after item hqueue _ _ _ => exact h.claim hqueue
  | giveBack f hf =>
      refine h.shrink hleases ?_ (fun item hmem => ?_) le_rfl
      · rw [map_queueId_map fun item hmem => (hf item hmem).queueId.1]
      · obtain ⟨old, hold, rfl⟩ := List.mem_map.mp hmem
        refine ⟨old, hold, (hf old hold).queueId.1, (hf old hold).queueId.2.2.2, ?_⟩
        rcases hf old hold with heq | ⟨⟨attempts, notBefore, heq⟩, -⟩
        · exact .inl ⟨by rw [heq], by rw [heq], by rw [heq]⟩
        · rw [heq]
          exact .inr ⟨rfl, rfl, rfl⟩
  | remove keep _ =>
      refine h.shrink hleases (List.filter_sublist.map _) (fun item hmem => ?_) le_rfl
      exact hsame item (List.mem_filter.mp hmem).1

/-- A sequence of effects keeps a document well formed. -/
theorem WellFormed.effects (h : WellFormed host s) (heffs : Effects host op now s s') :
    WellFormed host s' :=
  heffs.invariant (fun _ _ heff hwf => hwf.effect heff) h

theorem WellFormed.prune (h : WellFormed host s) (now : Seconds) :
    WellFormed host (prune s now) :=
  h.effects (prune_effects host s now)

/-- On a well-formed document a call is a pruning read and a sequence of effects. -/
theorem WellFormed.call_effects (h : WellFormed host s) {r : Reply}
    (hknown : op.Known host s.uuidsDrawn) (hcall : call host op s now = .ok (r, s')) :
    Effects host .read now s (Maintenance.prune s now) ∧
      Effects host op now (Maintenance.prune s now) s' :=
  Maintenance.call_effects (h.prune now).freshDraw hknown hcall

/-- A successful call keeps a document well formed. -/
theorem WellFormed.call (h : WellFormed host s) {r : Reply}
    (hknown : op.Known host s.uuidsDrawn)
    (hcall : call host op s now = .ok (r, s')) : WellFormed host s' :=
  (h.prune now).effects (h.call_effects hknown hcall).2

end Maintenance
end Stemcell
