import Stemcell.Maintenance.Ingress
import Stemcell.Maintenance.RootLedger

/-!
# The life of a claim

A root that is claimed holds a lease of ninety seconds.  Nothing but a heartbeat
extends it, so a claim that nobody names runs out at a time that is known from
the start.  This module follows such a claim and the queue id of its root.

Main results:

- Theorem `claimedAt_step`: a call that does not touch a claim leaves it as it
  is until it runs out.
- Theorem `wasRoot_call`: where the roots of the queue come from.
- Theorem `issued_step`: which roots a step hands out admissions for.
-/

namespace Stemcell
namespace Maintenance

open Lib

/-- The root is claimed under this admission, by a lease taken at `since` and not
renewed. -/
def ClaimedAt (s : State) (a : RootAdmission) (since : Seconds) : Prop :=
  ∃ item ∈ s.rootQueue, item.status = .claimed ∧ a.Names item ∧
    item.claimUntil = since + rootClaimTtlSeconds ∧
    ∃ lease, s.leases.get? item.leaseId = some lease ∧
      lease.expiresAt = since + leaseTtlSeconds

/-- The call neither names the lease of the admission nor settles its root. -/
structure Op.Spares (op : Op) (a : RootAdmission) : Prop where
  lease : ¬ op.names a.activity.leaseId
  root : ∀ item, a.Names item → ¬ op.removes item ∧ ¬ op.returns item

/-- A root with this id is queued. -/
def Queued (s : State) (queueId : String) : Prop :=
  ∃ item ∈ s.rootQueue, item.queueId = queueId

variable {host : Host} {op : Op} {now since : Seconds} {s s' : State} {a b : RootAdmission}
  {queueId : String}

/-! ## A claim until it runs out -/

theorem lease_le_claim {since : Seconds} (h : now < since + leaseTtlSeconds) :
    now < since + rootClaimTtlSeconds := by
  have hle : leaseTtlSeconds ≤ rootClaimTtlSeconds := by
    unfold leaseTtlSeconds rootClaimTtlSeconds
    norm_num
  linarith

/-- The admission is current until ninety seconds after its claim. -/
theorem ClaimedAt.current_iff (h : ClaimedAt s a since) (hwf : WellFormed host s) :
    Current s now a ↔ now < since + leaseTtlSeconds := by
  rcases h with ⟨item, hmem, hclaimed, hnames, huntil, lease, hget, hexpires⟩
  constructor
  · rintro ⟨other, hother, -, hnames', -, lease', hget', hexpires'⟩
    have hsame := hwf.root_unique hother hmem (hnames'.1.trans hnames.1.symm)
    subst hsame
    rw [hget] at hget'
    cases hget'
    rw [← hexpires]
    exact hexpires'
  · intro hlt
    refine ⟨item, hmem, hclaimed, hnames, ?_, lease, hget, ?_⟩
    · rw [huntil]
      exact lease_le_claim hlt
    · rw [hexpires]
      exact hlt

/-- An effect that does not touch a live claim leaves it as it is. -/
theorem claimedAt_effect (hwf : WellFormed host s) (hspares : op.Spares a)
    (hlt : now < since + leaseTtlSeconds) (heff : Effect host op now s s')
    (h : ClaimedAt s a since) : ClaimedAt s' a since := by
  rcases h with ⟨item, hmem, hclaimed, hnames, huntil, lease, hget, hexpires⟩
  have hdrawn := (hwf.leaseDrawn _ _ hget).1
  have hid : item.leaseId = a.activity.leaseId := hnames.2.2
  cases heff with
  | bookkeep hcore =>
      refine ⟨item, hcore.rootQueue ▸ hmem, hclaimed, hnames, huntil, lease, ?_, hexpires⟩
      rw [hcore.leases]
      exact hget
  | dropLeases keep hdrops =>
      refine ⟨item, hmem, hclaimed, hnames, huntil, lease, ?_, hexpires⟩
      rw [Dict.get?_filter_eq_some_iff]
      refine ⟨hget, ?_⟩
      by_contra hdrop
      rw [Bool.not_eq_true] at hdrop
      cases hdrops _ _ hget hdrop with
      | expired hle =>
          rw [hexpires] at hle
          exact absurd hlt (not_lt.mpr hle)
      | named hnamed => exact hspares.lease (hid ▸ hnamed)
      | settled other hother hlease hsettles =>
          have hclaimed' := hwf.claimed_of_lease hother (hlease ▸ hget)
          have hqueue := hwf.claimsDistinct other hother item hmem hclaimed' hclaimed
            (.inr hlease)
          rw [hwf.root_unique hother hmem hqueue] at hsettles
          rcases hsettles with hremoves | hreturns
          · exact (hspares.root item hnames).1 hremoves
          · exact (hspares.root item hnames).2 hreturns
      | transferred other hother hne htransfer =>
          unfold RootItem.transferLeaseId at htransfer
          split at htransfer
          · exact hne htransfer.symm
          · rename_i c hc
            have hdead := (hwf.transferDead other hother c hc).2.1
            rw [htransfer, hget] at hdead
            cases hdead
  | openLease new _ _ _ =>
      refine ⟨item, hmem, hclaimed, hnames, huntil, lease, ?_, hexpires⟩
      rw [Dict.get?_set_of_ne _ _ (hdrawn.ne_uuid4 le_rfl)]
      exact hget
  | beat leaseId beaten expiresAt hnamed _ =>
      have hne : leaseId ≠ item.leaseId := by
        intro heq
        exact hspares.lease (hid ▸ heq ▸ hnamed)
      refine ⟨item, ?_, hclaimed, hnames, huntil, lease, ?_, hexpires⟩
      · exact List.mem_map.mpr ⟨item, hmem, if_neg hne.symm⟩
      · rw [Dict.get?_set_of_ne _ _ hne]
        exact hget
  | enqueue new _ _ =>
      exact ⟨item, List.mem_append_left _ hmem, hclaimed, hnames, huntil, lease, hget, hexpires⟩
  | transfer new leaseId source _ hnamed _ _ =>
      have hne : leaseId ≠ item.leaseId := by
        intro heq
        exact hspares.lease (hid ▸ heq ▸ hnamed)
      refine ⟨item, List.mem_append_left _ hmem, hclaimed, hnames, huntil, lease, ?_, hexpires⟩
      rw [Dict.get?_pop_of_ne _ hne]
      exact hget
  | claim before after new hqueue hpending _ _ =>
      refine ⟨item, ?_, hclaimed, hnames, huntil, lease, ?_, hexpires⟩
      · rw [hqueue, List.mem_append, List.mem_cons] at hmem
        rcases hmem with hmem | heq | hmem
        · exact List.mem_append_left _ hmem
        · rw [heq, hpending] at hclaimed
          cases hclaimed
        · exact List.mem_append_right _ (List.mem_cons_of_mem _ hmem)
      · rw [Dict.get?_set_of_ne _ _ (hdrawn.ne_uuid4 (Nat.le_succ _))]
        exact hget
  | giveBack f hf =>
      refine ⟨item, List.mem_map.mpr ⟨item, hmem, ?_⟩, hclaimed, hnames, huntil, lease, hget,
        hexpires⟩
      rcases hf item hmem with hsame | ⟨-, hdead | hreturns⟩
      · exact hsame
      · have hcontains : s.leases.contains item.leaseId = true :=
          (Dict.contains_iff _ _).mpr ⟨lease, hget⟩
        rw [claimAlive, hcontains, huntil, decide_eq_true (lease_le_claim hlt)] at hdead
        cases hdead
      · exact absurd hreturns (hspares.root item hnames).2
  | remove keep hremoves =>
      refine ⟨item, List.mem_filter.mpr ⟨hmem, ?_⟩, hclaimed, hnames, huntil, lease, hget,
        hexpires⟩
      by_contra hdrop
      rw [Bool.not_eq_true] at hdrop
      exact (hspares.root item hnames).1 (hremoves item hmem hdrop)
  | _ => exact ⟨item, hmem, hclaimed, hnames, huntil, lease, hget, hexpires⟩

theorem claimedAt_effects (hwf : WellFormed host s) (hspares : op.Spares a)
    (hlt : now < since + leaseTtlSeconds) (heffs : Effects host op now s s')
    (h : ClaimedAt s a since) : ClaimedAt s' a since := by
  have hboth : WellFormed host s' ∧ ClaimedAt s' a since := by
    refine heffs.invariant (I := fun t => WellFormed host t ∧ ClaimedAt t a since) ?_ ⟨hwf, h⟩
    intro p q heff hp
    exact ⟨hp.1.effect heff, claimedAt_effect hp.1 hspares hlt heff hp.2⟩
  exact hboth.2

theorem read_spares (a : RootAdmission) : Op.read.Spares a where
  lease := id
  root _ _ := ⟨id, id⟩

/-- Either the claim is as it was made, or its time has run out for good. -/
def Rides (w : World) (a : RootAdmission) (since : Seconds) : Prop :=
  (w.now < since + leaseTtlSeconds ∧ ClaimedAt w.state a since) ∨
    (since + leaseTtlSeconds ≤ w.now ∧ ¬ Current w.state w.now a)

/-- A step that does not touch a claim leaves it as it is until it runs out. -/
theorem rides_step {w w' : World} {e : Event} (hreach : (coordinator host).Reachable w)
    (ha : a ∈ w.admissions) (hspares : e.op.Spares a)
    (hstep : (coordinator host).step w e w') (h : Rides w a since) : Rides w' a since := by
  have hwf := reachable_wellFormed hreach
  have hdrawn := (reachable_issued hreach).token_drawn ha
  have hnow : w'.now = e.time := by
    rw [hstep.2.2, World.after_now]
  have hle : w.now ≤ w'.now := hnow ▸ hstep.1
  rcases h with ⟨hlt, hclaimed⟩ | ⟨hover, hstale⟩
  · by_cases htime : e.time < since + leaseTtlSeconds
    · left
      refine ⟨hnow ▸ htime, ?_⟩
      rcases step_cases hstep with heq | ⟨r, s', hcall, heq⟩
      · rw [heq]
        exact hclaimed
      · have heffs := hwf.call_effects hstep.2.1 hcall
        have hpruned := claimedAt_effects hwf (read_spares a) htime heffs.1 hclaimed
        rw [heq]
        exact claimedAt_effects (hwf.prune e.time) hspares htime heffs.2 hpruned
    · right
      rw [not_lt] at htime
      refine ⟨hnow ▸ htime, ?_⟩
      have hstale : ¬ Current w.state e.time a := by
        rw [hclaimed.current_iff hwf]
        exact not_lt.mpr htime
      exact stale_at_step hreach hstep hdrawn hstale
  · right
    exact ⟨hover.trans hle, stale_step hreach hstep hdrawn hstale⟩

/-! ## Ids in the queue -/

/-- The root was queued before, with the same content. -/
def WasRoot (s : State) (item : RootItem) : Prop :=
  ∃ old ∈ s.rootQueue, old.SameRoot item

theorem wasRoot_of_mem {item : RootItem} (h : item ∈ s.rootQueue) : WasRoot s item :=
  ⟨item, h, rfl, rfl, rfl, rfl⟩

theorem RootItem.SameRoot.trans {i j k : RootItem} (h : i.SameRoot j) (h' : j.SameRoot k) :
    i.SameRoot k :=
  ⟨h'.queueId.trans h.queueId, h'.contactId.trans h.contactId, h'.context.trans h.context,
    h'.continuation.trans h.continuation⟩

/-- A call that queues no root rewrites the queued ones. -/
theorem wasRoot_effect (hop : ¬ op.queues) (heff : Effect host op now s s') {item : RootItem}
    (hmem : item ∈ s'.rootQueue) : WasRoot s item := by
  cases heff with
  | bookkeep hcore => exact wasRoot_of_mem (hcore.rootQueue ▸ hmem)
  | beat leaseId lease expiresAt _ _ =>
      rcases List.mem_map.mp hmem with ⟨old, hold, rfl⟩
      refine ⟨old, hold, ?_⟩
      split <;> exact ⟨rfl, rfl, rfl, rfl⟩
  | enqueue new henters _ => exact absurd henters.queues hop
  | transfer new _ _ henters _ _ _ => exact absurd henters.queues hop
  | claim before after old hold _ _ _ =>
      rcases List.mem_append.mp hmem with hmem | hmem
      · exact wasRoot_of_mem (hold ▸ List.mem_append_left _ hmem)
      · rcases List.mem_cons.mp hmem with rfl | hmem
        · refine ⟨old, hold ▸ List.mem_append_right _ List.mem_cons_self, ?_⟩
          exact ⟨rfl, rfl, rfl, rfl⟩
        · exact wasRoot_of_mem (hold ▸ List.mem_append_right _ (List.mem_cons_of_mem _ hmem))
  | giveBack f hf =>
      rcases List.mem_map.mp hmem with ⟨old, hold, rfl⟩
      exact ⟨old, hold, (hf old hold).sameRoot⟩
  | remove keep _ => exact wasRoot_of_mem (List.mem_filter.mp hmem).1
  | _ => exact wasRoot_of_mem hmem

theorem wasRoot_effects (hop : ¬ op.queues) (heffs : Effects host op now s s') {item : RootItem}
    (hmem : item ∈ s'.rootQueue) : WasRoot s item := by
  refine heffs.invariant (I := fun t => ∀ i ∈ t.rootQueue, WasRoot s i) ?_ ?_ item hmem
  · intro p q heff ih i hi
    rcases wasRoot_effect hop heff hi with ⟨old, hold, hsame⟩
    rcases ih old hold with ⟨first, hfirst, hfirstSame⟩
    exact ⟨first, hfirst, hfirstSame.trans hsame⟩
  · intro i hi
    exact wasRoot_of_mem hi

/-- The ids a call may queue a root under, with `n` draws made. -/
def Op.newId (host : Host) (n : Nat) : Op → String → Prop
  | .enqueueRoot .., id => id = host.uuid4 n
  | .enqueueIngressRoot _ _ ingressId, id => id = ingressQueueId host ingressId
  | .enqueueContinuation _ _ _ queueId, id => id = orElse queueId (host.uuid4 n)
  | _, _ => False

theorem wasRoot_append {queue : List RootItem} {item new : RootItem} {id : String}
    (hmem : item ∈ queue ++ [new]) (hid : new.queueId = id) :
    (∃ old ∈ queue, old.SameRoot item) ∨ item.queueId = id := by
  rcases List.mem_append.mp hmem with hmem | hmem
  · exact .inl ⟨item, hmem, rfl, rfl, rfl, rfl⟩
  · right
    rw [List.mem_singleton.mp hmem, hid]

theorem enqueueRoot_wasRoot {contact context : String} {admitRoot : Bool} {item : RootItem}
    {r : RootEnqueueResult} (h : enqueueRoot host contact context admitRoot s now = .ok (r, s'))
    (hmem : item ∈ s'.rootQueue) : WasRoot s item ∨ item.queueId = host.uuid4 s.uuidsDrawn := by
  unfold enqueueRoot at h
  simp only at h
  split at h
  · rcases Prod.mk.inj (Except.ok.inj h) with ⟨-, rfl⟩
    exact wasRoot_append hmem rfl
  · split at h
    · rcases Prod.mk.inj (Except.ok.inj h) with ⟨-, rfl⟩
      exact wasRoot_append hmem rfl
    · rcases Prod.mk.inj (Except.ok.inj h) with ⟨-, rfl⟩
      rw [(ensureNotice_sameCore host _ contact s.phase now).rootQueue] at hmem
      exact wasRoot_append hmem rfl

theorem transferContinuation_wasRoot {contact context leaseId id : String} {r : Bool}
    {item : RootItem}
    (h : transferContinuation host contact context leaseId id s now = .ok (r, s'))
    (hmem : item ∈ s'.rootQueue) : WasRoot s item ∨ item.queueId = id := by
  unfold transferContinuation at h
  simp only at h
  split at h
  · rcases Prod.mk.inj (Except.ok.inj h) with ⟨-, rfl⟩
    exact .inl (wasRoot_of_mem hmem)
  split at h
  · split at h <;>
      (rcases Prod.mk.inj (Except.ok.inj h) with ⟨-, rfl⟩
       exact .inl (wasRoot_of_mem hmem))
  split at h
  · rcases Prod.mk.inj (Except.ok.inj h) with ⟨-, rfl⟩
    exact .inl (wasRoot_of_mem hmem)
  · rcases Prod.mk.inj (Except.ok.inj h) with ⟨-, rfl⟩
    exact wasRoot_append hmem rfl

theorem wasRoot_prune {item : RootItem} (h : WasRoot (prune s now) item) : WasRoot s item := by
  rcases h with ⟨pruned, hmem, hsame⟩
  rw [prune_rootQueue] at hmem
  rcases List.mem_map.mp hmem with ⟨old, hold, rfl⟩
  refine ⟨old, hold, RootItem.SameRoot.trans ?_ hsame⟩
  unfold pruneRoot
  split <;> exact ⟨rfl, rfl, rfl, rfl⟩

/-- After a call every root was queued before, or it stands under an id the call names. -/
theorem wasRoot_call {r : Reply} {item : RootItem} (hwf : WellFormed host s)
    (hknown : op.Known host s.uuidsDrawn) (h : call host op s now = .ok (r, s'))
    (hmem : item ∈ s'.rootQueue) :
    WasRoot s item ∨ op.newId host s.uuidsDrawn item.queueId := by
  have hpruned : WasRoot (prune s now) item ∨ op.newId host s.uuidsDrawn item.queueId := by
    by_cases hop : op.queues
    · have hdrawn := prune_uuidsDrawn s now
      cases op <;> simp only [Op.queues] at hop
      all_goals
        rcases Mutation.reply_ok h with ⟨value, hvalue, -⟩
        simp only [Op.newId]
      · rw [← hdrawn]
        exact enqueueRoot_wasRoot hvalue hmem
      · rcases (enqueueIngressRoot_cases hvalue).2 with
          ⟨-, -, -, -, hsame⟩ | ⟨old, -, -, -, -, hsame⟩ | ⟨-, hqueue, -⟩
        · rw [hsame] at hmem
          exact .inl (wasRoot_of_mem hmem)
        · rw [hsame] at hmem
          exact .inl (wasRoot_of_mem hmem)
        · rw [hqueue] at hmem
          exact wasRoot_append hmem rfl
      · rename_i contact context lease id
        unfold enqueueContinuation at hvalue
        split at hvalue <;> rename_i hid
        · rcases transferContinuation_wasRoot hvalue hmem with hold | hnew
          · exact .inl hold
          · right
            rw [hnew, orElse, if_pos hid, hdrawn]
        · rcases transferContinuation_wasRoot hvalue hmem with hold | hnew
          · exact .inl hold
          · right
            rw [hnew, orElse, if_neg hid]
    · exact .inl (wasRoot_effects hop (hwf.call_effects hknown h).2 hmem)
  rcases hpruned with hold | hnew
  · exact .inl (wasRoot_prune hold)
  · exact .inr hnew

theorem queued_prune (now : Seconds) : Queued (prune s now) queueId ↔ Queued s queueId := by
  constructor
  · rintro ⟨item, hmem, hid⟩
    rcases prune_noNewRoot queueId s now item hmem hid with ⟨old, hold, holdId, -⟩
    exact ⟨old, hold, holdId⟩
  · rintro ⟨item, hmem, hid⟩
    have hpruned : pruneRoot (prune s now).leases now item ∈ (prune s now).rootQueue := by
      rw [prune_rootQueue]
      exact List.mem_map_of_mem hmem
    refine ⟨_, hpruned, ?_⟩
    rw [← hid]
    exact (pruneRoot_same _ now item).1

/-- A call only queues roots under the ids it names. -/
theorem queued_call {r : Reply} (hwf : WellFormed host s) (hknown : op.Known host s.uuidsDrawn)
    (h : call host op s now = .ok (r, s')) (hq : Queued s' queueId) :
    Queued s queueId ∨ op.newId host s.uuidsDrawn queueId := by
  rcases hq with ⟨item, hmem, rfl⟩
  rcases wasRoot_call hwf hknown h hmem with ⟨old, hold, hsame⟩ | hnew
  · exact .inl ⟨old, hold, hsame.queueId.symm⟩
  · exact .inr hnew

/-! ## The text under an ingress id -/

/-- In a document that agrees with a text, that text is accepted, and the document goes on
agreeing with it. -/
theorem Agrees.delivered {contactId context ingressId : String} (hid : ingressId ≠ "")
    (h : Agrees host (ingressQueueId host ingressId) contactId context s) :
    ∃ s', enqueueIngressRoot host contactId context ingressId s now = .ok (true, s') ∧
      Agrees host (ingressQueueId host ingressId) contactId context s' := by
  have haccepted : ∃ s', enqueueIngressRoot host contactId context ingressId s now =
      .ok (true, s') := by
    by_cases hknown : Recalls s (ingressQueueId host ingressId)
    · rcases @enqueueIngressRoot_recalled host now s contactId context ingressId context hid h
        hknown rfl with ⟨s', hs', -⟩
      exact ⟨s', hs'⟩
    · unfold enqueueIngressRoot
      rw [if_neg hid]
      simp only
      split
      · rename_i receipt hreceipt
        exact absurd (.inl ⟨receipt, hreceipt⟩) hknown
      split
      · rename_i item hfind
        exact absurd (.inr ⟨item, hfind⟩) hknown
      · exact ⟨_, rfl⟩
  rcases haccepted with ⟨s', hs'⟩
  refine ⟨s', hs', ?_⟩
  rcases (enqueueIngressRoot_cases hs').2 with
    ⟨-, -, -, -, hsame⟩ | ⟨item, -, -, -, -, hsame⟩ | ⟨-, hqueue, hreceipts⟩
  · rw [hsame]
    exact h
  · rw [hsame]
    refine ⟨?_, h.queued⟩
    intro receipt hget
    rw [Dict.get?_set_self] at hget
    cases hget
    exact ⟨rfl, rfl⟩
  · constructor
    · intro receipt hget
      rw [hreceipts, Dict.get?_set_self] at hget
      cases hget
      exact ⟨rfl, rfl⟩
    · intro item hmem hitem
      rw [hqueue] at hmem
      rcases List.mem_append.mp hmem with hmem | hmem
      · exact h.queued item hmem hitem
      · rw [List.mem_singleton.mp hmem]
        exact ⟨rfl, rfl⟩

/-- A call under other ids keeps the agreement. -/
theorem Agrees.elsewhere {contactId context : String} {w w' : World} {e : Event}
    (h : Agrees host queueId contactId context w.state) (hreach : (coordinator host).Reachable w)
    (hstep : (coordinator host).step w e w')
    (hid : ¬ e.op.newId host w.state.uuidsDrawn queueId) :
    Agrees host queueId contactId context w'.state := by
  rcases step_cases hstep with hw' | ⟨r, s', hcall, hw'⟩
  · rw [hw']
    exact h
  rw [hw']
  have hwf := reachable_wellFormed hreach
  constructor
  · intro receipt hget
    have hingests : ¬ e.op.ingests host queueId := by
      intro hyes
      apply hid
      cases hop : e.op with
      | enqueueIngressRoot contact text ingress =>
          rw [hop] at hyes
          exact hyes
      | _ => simp [hop, Op.ingests] at hyes
    exact (h.prune e.time).receipt receipt
      (ingressReceipt_effects hingests (hwf.call_effects hstep.2.1 hcall).2 hget)
  · intro item hmem hitem
    rcases wasRoot_call hwf hstep.2.1 hcall hmem with ⟨old, hold, hsame⟩ | hnew
    · have hagrees := h.queued old hold (hsame.queueId.symm.trans hitem)
      rw [hsame.contactId, hsame.context]
      exact hagrees
    · rw [hitem] at hnew
      exact absurd hnew hid

/-! ## Roots that are handed out -/

/-- The claim loop hands out pending roots of contacts that are not excluded. -/
theorem claimScan_from {limit : Nat} {unique : Bool} (queue : List RootItem)
    (p : ClaimProgress) :
    ∀ b ∈ (claimScan host limit unique now queue p).2.admissions,
      b ∈ p.admissions ∨
        ∃ item ∈ queue, item.status = .pending ∧ item.queueId = b.queueId ∧
          item.contactId = b.contactId ∧ b.contactId ∉ p.excluded := by
  induction queue generalizing p with
  | nil => exact fun b hb => .inl hb
  | cons item rest ih =>
      intro b hb
      unfold claimScan at hb
      split at hb
      · exact .inl hb
      split at hb <;> rename_i hclaimable
      · rcases ih _ b hb with hold | ⟨i, hi, hpending, hid, hcontact, hexcluded⟩
        · rcases List.mem_append.mp hold with hold | hnew
          · exact .inl hold
          · right
            rw [List.mem_singleton.mp hnew]
            simp only [claimable, Bool.and_eq_true, decide_eq_true_eq] at hclaimable
            exact ⟨item, List.mem_cons_self, hclaimable.1.1.1, rfl, rfl, hclaimable.1.1.2⟩
        · right
          refine ⟨i, List.mem_cons_of_mem _ hi, hpending, hid, hcontact, fun hin => hexcluded ?_⟩
          simp only
          split
          · exact List.mem_cons_of_mem _ hin
          · exact hin
      · rcases ih p b hb with hold | ⟨i, hi, hfacts⟩
        · exact .inl hold
        · exact .inr ⟨i, List.mem_cons_of_mem _ hi, hfacts⟩

theorem max_lease : max 5 leaseTtlSeconds = leaseTtlSeconds := by
  unfold leaseTtlSeconds
  norm_num

/-- A root claimed without a lease to take over. -/
theorem claimRootItem_claimed (s : State) {item : RootItem} (h : item.continuation = none)
    (now : Seconds) :
    ∃ lease, (claimRootItem host s item now).2.2.leases.get?
        (claimRootItem host s item now).2.1.leaseId = some lease ∧
      lease.expiresAt = now + leaseTtlSeconds := by
  have htransfer : item.transferLeaseId = "" := by
    rw [RootItem.transferLeaseId, h]
  simp only [claimRootItem, htransfer, if_true, newLease, addLease, tokenFromLease]
  refine ⟨_, Dict.get?_set_self _ _ _, ?_⟩
  simp only [makeLease, max_lease]

/-- What `enqueue_root` hands out: the new root, claimed by a lease of this
moment. -/
theorem enqueueRoot_issued {contact context : String} {admitRoot : Bool}
    {r : RootEnqueueResult} (h : enqueueRoot host contact context admitRoot s now = .ok (r, s'))
    (hb : r.admission = some b) :
    b.queueId = host.uuid4 s.uuidsDrawn ∧ b.contactId = contact ∧ ClaimedAt s' b now := by
  unfold enqueueRoot at h
  simp only at h
  split at h
  · rcases Prod.mk.inj (Except.ok.inj h) with ⟨hr, hs'⟩
    rw [← hr] at hb
    have hb' := Option.some.inj hb
    rw [← hs', ← hb']
    exact ⟨rfl, rfl, _, List.mem_append_right _ (List.mem_singleton_self _), rfl,
      ⟨rfl, rfl, rfl⟩, rfl, claimRootItem_claimed _ rfl now⟩
  · split at h
    · rcases Prod.mk.inj (Except.ok.inj h) with ⟨hr, -⟩
      rw [← hr] at hb
      cases hb
    · rcases Prod.mk.inj (Except.ok.inj h) with ⟨hr, -⟩
      rw [← hr] at hb
      cases hb

/-- The admission stands for a root that was queued and claimed by this call. -/
structure Submitted (host : Host) (w w' : World) (op : Op) (b : RootAdmission) : Prop where
  call : ∃ context admitRoot, op = .enqueueRoot b.contactId context admitRoot
  queueId : b.queueId = host.uuid4 w.state.uuidsDrawn
  claimed : ClaimedAt w'.state b w'.now

/-- The admission stands for a root that was waiting when this call claimed it. -/
structure Reclaimed (w : World) (op : Op) (time : Seconds) (b : RootAdmission) : Prop where
  call : ∃ limit excluded unique, op = .claimPendingRoots limit excluded unique ∧
    b.contactId ∉ excluded
  waiting : ∃ item ∈ (prune w.state time).rootQueue,
    item.status = .pending ∧ item.queueId = b.queueId

/-- Where the admissions come from that a step hands out. -/
theorem issued_step {w w' : World} {e : Event} (hstep : (coordinator host).step w e w')
    (hb : b ∈ w'.admissions) (hnew : b ∉ w.admissions) :
    Submitted host w w' e.op b ∨ Reclaimed w e.op e.time b := by
  rcases step_cases hstep with heq | ⟨r, s', hcall, heq⟩
  · rw [heq] at hb
    exact absurd hb hnew
  rw [heq] at hb ⊢
  have hroot : b ∈ r.roots := (List.mem_append.mp hb).resolve_left hnew
  rcases reply_roots_cases hcall (List.ne_nil_of_mem hroot) with
    ⟨contact, context, admitRoot, hop⟩ | ⟨limit, excluded, unique, hop⟩
  · left
    rw [hop] at hcall
    rcases Mutation.reply_ok hcall with ⟨value, hvalue, hr⟩
    rw [hr] at hroot
    have hsome : value.admission = some b := by
      simpa [Reply.roots] using hroot
    rcases enqueueRoot_issued hvalue hsome with ⟨hid, hcontact, hclaimed⟩
    refine ⟨⟨context, admitRoot, ?_⟩, ?_, hclaimed⟩
    · rw [hop, hcontact]
    · rw [hid, prune_uuidsDrawn]
  · right
    rw [hop] at hcall
    rcases Mutation.reply_ok hcall with ⟨value, hvalue, hr⟩
    rw [hr] at hroot
    unfold claimPendingRoots at hvalue
    split at hvalue
    · rcases Prod.mk.inj (Except.ok.inj hvalue) with ⟨hvalue, -⟩
      rw [← hvalue] at hroot
      cases hroot
    · rcases Prod.mk.inj (Except.ok.inj hvalue) with ⟨hvalue, -⟩
      rw [← hvalue] at hroot
      rcases claimScan_from _ _ b hroot with hnil | ⟨item, hmem, hpending, hid, -, hexcluded⟩
      · cases hnil
      · exact ⟨⟨limit, excluded, unique, hop, hexcluded⟩, item, hmem, hpending, hid⟩

/-- Every admission stands for a root whose id no later draw collides with. -/
theorem reachable_idSeen {w : World} (h : (coordinator host).Reachable w) :
    ∀ b ∈ w.admissions, Seen host w.state.uuidsDrawn b.queueId := by
  refine h.invariant
    (I := fun w => ∀ b ∈ w.admissions, Seen host w.state.uuidsDrawn b.queueId) ?_ ?_
  · rintro _ ⟨t, rfl⟩
    simp [World.initial]
  · intro w e w' hreach hseen hstep b hb
    have hle := step_uuidsDrawn hreach hstep
    have hwf' := reachable_wellFormed (hreach.step hstep)
    by_cases hold : b ∈ w.admissions
    · exact (hseen b hold).mono hle
    · rcases issued_step hstep hb hold with hnew | hnew
      · rcases hnew.claimed with ⟨item, hmem, -, hnames, -⟩
        exact hnames.1 ▸ hwf'.queueSeen item hmem
      · rcases hnew.waiting with ⟨item, hmem, -, hid⟩
        have hseen' := ((reachable_wellFormed hreach).prune e.time).queueSeen item hmem
        rw [prune_uuidsDrawn] at hseen'
        exact (hid ▸ hseen').mono hle

/-- A root leaves the queue only by a call that removes it. -/
theorem queued_kept {w w' : World} {e : Event} (hreach : (coordinator host).Reachable w)
    (hstep : (coordinator host).step w e w')
    (hkeep : ∀ item, item.queueId = queueId → ¬ e.op.removes item)
    (h : Queued w.state queueId) : Queued w'.state queueId := by
  rcases step_cases hstep with heq | ⟨r, s', hcall, heq⟩
  · exact heq ▸ h
  · have heffs := ((reachable_wellFormed hreach).call_effects hstep.2.1 hcall).2
    rw [heq]
    apply HasRoot.effects ((queued_prune e.time).mpr h) _ hkeep heffs
    intro item item' hsame hid
    exact hsame.queueId.trans hid

/-- A root that is not queued stays out of the queue under an id that no call
queues a root under. -/
theorem queued_stays_out {w w' : World} {e : Event} (hreach : (coordinator host).Reachable w)
    (hstep : (coordinator host).step w e w')
    (hid : ¬ e.op.newId host w.state.uuidsDrawn queueId) (h : ¬ Queued w.state queueId) :
    ¬ Queued w'.state queueId := by
  rcases step_cases hstep with heq | ⟨r, s', hcall, heq⟩
  · exact heq ▸ h
  · intro hq
    rw [heq] at hq
    rcases queued_call (reachable_wellFormed hreach) hstep.2.1 hcall hq with hold | hnew
    · exact h hold
    · exact hid hnew

/-- A pending root of the pruned queue is not claimed by a live claim. -/
theorem ClaimedAt.not_waiting (h : ClaimedAt s a since) (hwf : WellFormed host s)
    (hlt : now < since + leaseTtlSeconds) :
    ¬ ∃ item ∈ (prune s now).rootQueue, item.status = .pending ∧ item.queueId = a.queueId := by
  rintro ⟨item, hmem, hpending, hid⟩
  rcases claimedAt_effects hwf (read_spares a) hlt (prune_effects host s now) h with
    ⟨other, hother, hclaimed, hnames, -⟩
  have hsame := (hwf.prune now).root_unique hmem hother (hid.trans hnames.1.symm)
  rw [hsame, hclaimed] at hpending
  cases hpending

end Maintenance
end Stemcell
