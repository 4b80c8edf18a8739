import Stemcell.Maintenance.Admissions

/-!
# The ledger of accepted roots

A root that the coordinator has accepted is one user turn.  It must neither be
lost nor run under two admissions at once.  The queue is therefore a ledger: a
root enters it once, is rewritten by claims, expiries and returns without
changing what it says, and leaves it only when a batch presents its current
claim to `complete_roots`.

Main results:

- Theorem `HasRoot.effect`: no effect but a removal changes what a root says.
- Theorem `accepted_holds`: a call that accepts a root leaves it in the queue.
- Theorem `root_ledger`: the ledger law in every reachable document.
-/

namespace Stemcell
namespace Maintenance

open Lib

/-! ## What a queued root says -/

/-- A root with this id, contact and context is queued. -/
def Holds (s : State) (queueId contactId context : String) : Prop :=
  ∃ item ∈ s.rootQueue, item.queueId = queueId ∧ item.contactId = contactId ∧
    item.context = context

/-- Exactly one queued root has this id, with this contact and context. -/
def HeldOnce (s : State) (queueId contactId context : String) : Prop :=
  ∃ item, s.rootQueue.filter (fun i => i.queueId = queueId) = [item] ∧
    item.queueId = queueId ∧ item.contactId = contactId ∧ item.context = context

variable {host : Host} {op : Op} {now t : Seconds} {s s' : State}
  {queueId contactId context : String}

/-- In a well-formed document a queued root is queued once. -/
theorem Holds.once (h : Holds s queueId contactId context) (hwf : WellFormed host s) :
    HeldOnce s queueId contactId context := by
  rcases h with ⟨item, hmem, hid, hcontact, hcontext⟩
  refine ⟨item, ?_, hid, hcontact, hcontext⟩
  have hnodup : s.rootQueue.Nodup := hwf.queueIds.of_map _
  have hpred : ∀ i ∈ s.rootQueue, decide (i.queueId = queueId) = decide (i = item) := by
    intro i hi
    by_cases heq : i = item
    · subst heq
      simp [hid]
    · have hne : i.queueId ≠ queueId := fun h => heq (hwf.root_unique hi hmem (h.trans hid.symm))
      simp [heq, hne]
  rw [List.filter_congr hpred]
  have hcount := List.filter_eq (l := s.rootQueue) item
  rw [List.count_eq_one_of_mem hnodup hmem] at hcount
  simpa using hcount

theorem HeldOnce.holds (h : HeldOnce s queueId contactId context) :
    Holds s queueId contactId context := by
  rcases h with ⟨item, hfilter, hsays⟩
  have hmem : item ∈ s.rootQueue.filter (fun i => i.queueId = queueId) := by
    rw [hfilter]
    exact List.mem_singleton_self item
  exact ⟨item, (List.mem_filter.mp hmem).1, hsays⟩

/-- Two records of one root: they may differ in claim and retry fields only. -/
structure RootItem.SameRoot (item item' : RootItem) : Prop where
  queueId : item'.queueId = item.queueId
  contactId : item'.contactId = item.contactId
  context : item'.context = item.context
  continuation : item'.continuation = item.continuation

theorem GivesBack.sameRoot {item item' : RootItem} (h : GivesBack op now s item item') :
    item.SameRoot item' :=
  ⟨h.queueId.1, h.queueId.2.1, h.queueId.2.2.1, h.queueId.2.2.2⟩

/-- A root of the queue has the property. -/
def HasRoot (s : State) (P : RootItem → Prop) : Prop :=
  ∃ item ∈ s.rootQueue, P item

theorem HasRoot.map {P : RootItem → Prop} {f : RootItem → RootItem} (h : HasRoot s P)
    (hP : ∀ item item', item.SameRoot item' → P item → P item')
    (hf : ∀ item ∈ s.rootQueue, item.SameRoot (f item))
    (hqueue : s'.rootQueue = s.rootQueue.map f) : HasRoot s' P := by
  rcases h with ⟨item, hmem, hitem⟩
  refine ⟨f item, ?_, hP item (f item) (hf item hmem) hitem⟩
  rw [hqueue]
  exact List.mem_map_of_mem hmem

/-- No effect but a removal takes away a root with a property of its content. -/
theorem HasRoot.effect {P : RootItem → Prop} (h : HasRoot s P)
    (hP : ∀ item item', item.SameRoot item' → P item → P item')
    (hkeep : ∀ item, P item → ¬ op.removes item)
    (heff : Effect host op now s s') : HasRoot s' P := by
  cases heff with
  | bookkeep hcore =>
      rcases h with ⟨item, hmem, hitem⟩
      exact ⟨item, hcore.rootQueue ▸ hmem, hitem⟩
  | beat leaseId lease expiresAt _ _ =>
      refine h.map hP (fun item _ => ?_) rfl
      by_cases hid : item.leaseId = leaseId
      · rw [if_pos hid]
        exact ⟨rfl, rfl, rfl, rfl⟩
      · rw [if_neg hid]
        exact ⟨rfl, rfl, rfl, rfl⟩
  | enqueue new _ _ =>
      rcases h with ⟨item, hmem, hitem⟩
      exact ⟨item, List.mem_append_left _ hmem, hitem⟩
  | transfer new _ _ _ _ _ _ =>
      rcases h with ⟨item, hmem, hitem⟩
      exact ⟨item, List.mem_append_left _ hmem, hitem⟩
  | claim before after new hqueue _ _ _ =>
      rcases h with ⟨item, hmem, hitem⟩
      rw [hqueue, List.mem_append, List.mem_cons] at hmem
      rcases hmem with hmem | heq | hmem
      · exact ⟨item, List.mem_append_left _ hmem, hitem⟩
      · subst heq
        refine ⟨claimedRoot host s item now, ?_, hP item _ ⟨rfl, rfl, rfl, rfl⟩ hitem⟩
        exact List.mem_append_right _ List.mem_cons_self
      · exact ⟨item, List.mem_append_right _ (List.mem_cons_of_mem _ hmem), hitem⟩
  | giveBack f hf =>
      exact h.map hP (fun item hmem => (hf item hmem).sameRoot) rfl
  | remove keep hremoves =>
      rcases h with ⟨item, hmem, hitem⟩
      refine ⟨item, List.mem_filter.mpr ⟨hmem, ?_⟩, hitem⟩
      by_contra hdrop
      exact hkeep item hitem (hremoves item hmem (by simpa using hdrop))
  | raiseFence => exact h
  | reopen => exact h
  | advance => exact h
  | revoke => exact h
  | acknowledge => exact h
  | dropLeases => exact h
  | openLease => exact h
  | receipts => exact h

theorem HasRoot.effects {P : RootItem → Prop} (h : HasRoot s P)
    (hP : ∀ item item', item.SameRoot item' → P item → P item')
    (hkeep : ∀ item, P item → ¬ op.removes item)
    (heffs : Effects host op now s s') : HasRoot s' P :=
  heffs.invariant (I := fun s => HasRoot s P) (fun _ _ heff hs => hs.effect hP hkeep heff) h

/-- What a root says is content. -/
theorem says_sameRoot {item item' : RootItem} (hsame : item.SameRoot item')
    (h : item.queueId = queueId ∧ item.contactId = contactId ∧ item.context = context) :
    item'.queueId = queueId ∧ item'.contactId = contactId ∧ item'.context = context :=
  ⟨hsame.queueId.trans h.1, hsame.contactId.trans h.2.1, hsame.context.trans h.2.2⟩

/-- No effect but a removal changes what a root says. -/
theorem Holds.effect (h : Holds s queueId contactId context)
    (hkeep : ∀ item, item.queueId = queueId → ¬ op.removes item)
    (heff : Effect host op now s s') : Holds s' queueId contactId context := by
  apply HasRoot.effect h _ _ heff
  · intro item item' hsame hsays
    exact says_sameRoot hsame hsays
  · intro item hsays
    exact hkeep item hsays.1

/-- The batch presents the current claim of the root with this id. -/
def Completes (queueId : String) (w : World) (e : Event) : Prop :=
  ∃ roots, e.op = .completeRoots roots ∧
    ∃ item ∈ (prune w.state e.time).rootQueue, item.queueId = queueId ∧
      ∃ a ∈ roots, a.Names item

/-- A batch removes the root with this id, or its content stays as it is. -/
theorem HasRoot.mutation {P : RootItem → Prop} {r : Reply} (h : HasRoot s P)
    (hP : ∀ item item', item.SameRoot item' → P item → P item')
    (hid : ∀ item, P item → item.queueId = queueId)
    (hwf : FreshDraw host s) (hleased : ClaimsLeased s) (hknown : op.Known host s.uuidsDrawn)
    (hcall : Maintenance.mutation host op s now = .ok (r, s')) :
    HasRoot s' P ∨
      ∃ roots, op = .completeRoots roots ∧
        ∃ item ∈ s.rootQueue, item.queueId = queueId ∧ presented roots item = true := by
  by_cases hop : ∃ roots, op = .completeRoots roots
  · rcases hop with ⟨roots, hroots⟩
    subst hroots
    rcases h with ⟨item, hmem, hitem⟩
    simp only [Maintenance.mutation] at hcall
    rcases Mutation.reply_ok hcall with ⟨value, hvalue, -⟩
    rcases Prod.mk.inj (Except.ok.inj hvalue) with ⟨-, hs'⟩
    subst hs'
    cases hpresented : presented roots item with
    | true =>
        right
        exact ⟨roots, rfl, item, hmem, hid item hitem, hpresented⟩
    | false =>
        left
        exact ⟨item, List.mem_filter.mpr ⟨hmem, by simp [hpresented]⟩, hitem⟩
  · left
    refine h.effects hP (fun item _ hremoves => ?_) (mutation_effects hwf hleased hknown hcall)
    cases op with
    | completeRoots roots => exact hop ⟨roots, rfl⟩
    | _ => exact hremoves

theorem HasRoot.prune {P : RootItem → Prop} (h : HasRoot s P)
    (hP : ∀ item item', item.SameRoot item' → P item → P item') (now : Seconds) (host : Host) :
    HasRoot (Maintenance.prune s now) P := by
  have heffs : Effects host .read now s (Maintenance.prune s now) := prune_effects host s now
  apply h.effects hP _ heffs
  intro item _ hremoves
  exact hremoves

/-- A step that does not complete a root keeps its content. -/
theorem HasRoot.step {P : RootItem → Prop} {w w' : World} {e : Event} (h : HasRoot w.state P)
    (hP : ∀ item item', item.SameRoot item' → P item → P item')
    (hid : ∀ item, P item → item.queueId = queueId)
    (hreach : (coordinator host).Reachable w) (hguard : ¬ Completes queueId w e)
    (hstep : (coordinator host).step w e w') : HasRoot w'.state P := by
  rcases step_cases hstep with hw' | ⟨r, s', hcall, hw'⟩
  · subst hw'
    exact h
  · subst hw'
    have hwf := (reachable_wellFormed hreach).prune e.time
    have hcases := (h.prune hP e.time host).mutation hP hid hwf.freshDraw
      (prune_claimsLeased _ _) (by rw [prune_uuidsDrawn]; exact hstep.2.1) hcall
    rcases hcases with hkept | ⟨roots, hop, item, hmem, hqueue, hpresented⟩
    · exact hkept
    · exact absurd ⟨roots, hop, item, hmem, hqueue, names_of_presented hpresented⟩ hguard

/-- A step that does not complete a root keeps what it says. -/
theorem Holds.step {w w' : World} {e : Event} (h : Holds w.state queueId contactId context)
    (hreach : (coordinator host).Reachable w) (hguard : ¬ Completes queueId w e)
    (hstep : (coordinator host).step w e w') : Holds w'.state queueId contactId context := by
  apply HasRoot.step h _ _ hreach hguard hstep
  · intro item item' hsame hsays
    exact says_sameRoot hsame hsays
  · intro item hsays
    exact hsays.1

/-! ## Receipts stand for queued or completed roots -/

/-- Every receipt stands for a root that is queued, or was completed. -/
def ReceiptsBacked (host : Host) (done : List String) (s : State) : Prop :=
  ∀ queueId receipt,
    s.continuationReceipts.get? queueId = some receipt ∨
      s.ingressReceipts.get? queueId = some receipt →
    queueId ∈ done ∨ ∃ context, Holds s queueId receipt.contactId context ∧
      fingerprint host receipt.contactId context = receipt.fingerprint

/-- Effects that remove no root keep the receipts backed. -/
theorem ReceiptsBacked.effect {done : List String} (h : ReceiptsBacked host done s)
    (hkeep : ∀ item, ¬ op.removes item) (heff : Effect host op now s s') :
    ReceiptsBacked host done s' := by
  have hframe : s'.continuationReceipts = s.continuationReceipts →
      s'.ingressReceipts = s.ingressReceipts → ReceiptsBacked host done s' := by
    intro hcont hingress queueId receipt hget
    rw [hcont, hingress] at hget
    rcases h queueId receipt hget with hdone | ⟨context, hholds, hprint⟩
    · exact .inl hdone
    · exact .inr ⟨context, hholds.effect (fun item _ => hkeep item) heff, hprint⟩
  cases heff with
  | receipts continuations ingress hcontinuations hingress =>
      intro queueId receipt hget
      have hcases : (s.continuationReceipts.get? queueId = some receipt ∨
          s.ingressReceipts.get? queueId = some receipt) ∨ Backs host s queueId receipt := by
        rcases hget with hget | hget
        · rcases hcontinuations queueId receipt hget with hold | hbacks
          · exact .inl (.inl hold)
          · exact .inr hbacks
        · rcases hingress queueId receipt hget with hold | ⟨-, hbacks⟩
          · exact .inl (.inr hold)
          · exact .inr hbacks
      rcases hcases with hold | ⟨item, hmem, hid, hcontact, hprint⟩
      · exact h queueId receipt hold
      · right
        refine ⟨item.context, ⟨item, hmem, hid, hcontact, rfl⟩, ?_⟩
        rw [← hcontact]
        exact hprint
  | bookkeep hcore => exact hframe hcore.continuationReceipts hcore.ingressReceipts
  | raiseFence => exact hframe rfl rfl
  | reopen => exact hframe rfl rfl
  | advance => exact hframe rfl rfl
  | revoke => exact hframe rfl rfl
  | acknowledge => exact hframe rfl rfl
  | dropLeases => exact hframe rfl rfl
  | openLease => exact hframe rfl rfl
  | beat => exact hframe rfl rfl
  | enqueue => exact hframe rfl rfl
  | transfer => exact hframe rfl rfl
  | claim => exact hframe rfl rfl
  | giveBack => exact hframe rfl rfl
  | remove => exact hframe rfl rfl

theorem ReceiptsBacked.effects {done : List String} (h : ReceiptsBacked host done s)
    (hkeep : ∀ item, ¬ op.removes item) (heffs : Effects host op now s s') :
    ReceiptsBacked host done s' :=
  heffs.invariant (I := ReceiptsBacked host done) (fun _ _ heff hs => hs.effect hkeep heff) h

theorem ReceiptsBacked.prune {done : List String} (h : ReceiptsBacked host done s)
    (now : Seconds) : ReceiptsBacked host done (prune s now) := by
  have heffs : Effects host .read now s (Maintenance.prune s now) := prune_effects host s now
  refine h.effects ?_ heffs
  exact fun _ hremoves => hremoves

/-- A completed batch moves its roots from the queue to the completed ones. -/
theorem ReceiptsBacked.complete {done : List String} {roots : List RootAdmission} {r : Reply}
    (h : ReceiptsBacked host done s)
    (hcall : Maintenance.mutation host (.completeRoots roots) s now = .ok (r, s')) :
    ReceiptsBacked host (done ++ Op.settles (.completeRoots roots) s) s' := by
  simp only [Maintenance.mutation] at hcall
  rcases Mutation.reply_ok hcall with ⟨value, hvalue, -⟩
  rcases Prod.mk.inj (Except.ok.inj hvalue) with ⟨-, hs'⟩
  subst hs'
  intro queueId receipt hget
  rcases h queueId receipt hget with hdone | ⟨context, ⟨item, hmem, hsays⟩, hprint⟩
  · exact .inl (List.mem_append_left _ hdone)
  · cases hpresented : presented roots item with
    | true =>
        left
        apply List.mem_append_right
        have hsettled : item ∈ s.rootQueue.filter (presented roots) :=
          List.mem_filter.mpr ⟨hmem, hpresented⟩
        rw [← hsays.1]
        exact List.mem_map_of_mem hsettled
    | false =>
        right
        exact ⟨context, ⟨item, List.mem_filter.mpr ⟨hmem, by simp [hpresented]⟩, hsays⟩, hprint⟩

/-- In every reachable document the receipts are backed. -/
theorem reachable_receiptsBacked {w : World} (h : (coordinator host).Reachable w) :
    ReceiptsBacked host w.completed w.state := by
  refine h.invariant (I := fun w => ReceiptsBacked host w.completed w.state) ?_ ?_
  · rintro _ ⟨t, rfl⟩
    intro queueId receipt hget
    simp [World.initial, defaultState] at hget
  · intro w e w' hreach hbacked hstep
    rcases step_cases hstep with hw' | ⟨r, s', hcall, hw'⟩
    · subst hw'
      exact hbacked
    · subst hw'
      have hpruned := hbacked.prune e.time
      have heffs := ((reachable_wellFormed hreach).call_effects hstep.2.1 hcall).2
      have hother : (∀ item, ¬ e.op.removes item) →
          ReceiptsBacked host (w.completed ++ e.op.settles (prune w.state e.time)) s' := by
        intro hkeep queueId receipt hget
        rcases hpruned.effects hkeep heffs queueId receipt hget with hdone | hholds
        · exact .inl (List.mem_append_left _ hdone)
        · exact .inr hholds
      cases hop : e.op with
      | completeRoots roots =>
          have hcomplete : mutation host (.completeRoots roots) (prune w.state e.time) e.time =
              .ok (r, s') := by
            rw [hop] at hcall
            exact hcall
          exact hpruned.complete hcomplete
      | _ =>
          rw [hop] at hother
          exact hother fun _ hremoves => hremoves

/-! ## Accepting a root -/

/-- The identity and the content of an accepted root. -/
structure AcceptedRoot where
  queueId : String
  contactId : String
  context : String

/-- The root that a successful answer accepts. -/
def Op.accepts (host : Host) (s : State) : Op → Reply → Option AcceptedRoot
  | .enqueueRoot contactId context _, .enqueued _ =>
      some ⟨host.uuid4 s.uuidsDrawn, contactId, context⟩
  | .enqueueIngressRoot contactId context ingressId, .flag true =>
      some ⟨ingressQueueId host ingressId, contactId, context⟩
  | .enqueueContinuation contactId context _ queueId, .flag true =>
      some ⟨orElse queueId (host.uuid4 s.uuidsDrawn), contactId, context⟩
  | _, _ => none

/-- Neither the queue nor a receipt knows this id. -/
def Unknown (s : State) (queueId : String) : Prop :=
  findRoot s.rootQueue queueId = none ∧ s.continuationReceipts.get? queueId = none ∧
    s.ingressReceipts.get? queueId = none

/-- What is left of an accepted root: it was completed before, or it is queued
with the accepted content.  A root under an unknown id is queued word for word;
a redelivery is recognised by the fingerprint. -/
def Kept (host : Host) (done : List String) (s s' : State) (root : AcceptedRoot) : Prop :=
  (root.queueId ∈ done ∧ ¬ Unknown s root.queueId) ∨
    ∃ context, Holds s' root.queueId root.contactId context ∧
      fingerprint host root.contactId context = fingerprint host root.contactId root.context ∧
      (Unknown s root.queueId → context = root.context)

theorem kept_new {done : List String} {root : AcceptedRoot}
    (h : Holds s' root.queueId root.contactId root.context) : Kept host done s s' root :=
  .inr ⟨root.context, h, rfl, fun _ => rfl⟩

theorem enqueueRoot_kept {done : List String} {admitRoot : Bool} {r : RootEnqueueResult}
    (h : enqueueRoot host contactId context admitRoot s now = .ok (r, s')) :
    Kept host done s s' ⟨host.uuid4 s.uuidsDrawn, contactId, context⟩ := by
  refine kept_new ?_
  unfold enqueueRoot at h
  simp only at h
  split at h
  · rcases Prod.mk.inj (Except.ok.inj h) with ⟨-, hs'⟩
    subst hs'
    exact ⟨_, List.mem_append_right _ (List.mem_singleton_self _), rfl, rfl, rfl⟩
  · split at h
    · rcases Prod.mk.inj (Except.ok.inj h) with ⟨-, hs'⟩
      subst hs'
      exact ⟨_, List.mem_append_right _ (List.mem_singleton_self _), rfl, rfl, rfl⟩
    · rcases Prod.mk.inj (Except.ok.inj h) with ⟨-, hs'⟩
      subst hs'
      refine ⟨pendingRoot { s with uuidsDrawn := s.uuidsDrawn + 1 } now
        (host.uuid4 s.uuidsDrawn) contactId context none, ?_, rfl, rfl, rfl⟩
      rw [(ensureNotice_sameCore host _ contactId s.phase now).rootQueue]
      exact List.mem_append_right _ (List.mem_singleton_self _)

theorem enqueueIngressRoot_kept {done : List String} {ingressId : String}
    (hbacked : ReceiptsBacked host done s)
    (h : enqueueIngressRoot host contactId context ingressId s now = .ok (true, s')) :
    Kept host done s s' ⟨ingressQueueId host ingressId, contactId, context⟩ := by
  unfold enqueueIngressRoot at h
  split at h
  · simp at h
  simp only at h
  split at h
  · rename_i receipt hreceipt
    split at h <;> rename_i hsame
    · simp at h
    · rcases Prod.mk.inj (Except.ok.inj h) with ⟨-, hs'⟩
      subst hs'
      rw [not_or, not_not, not_not] at hsame
      have hknown : ¬ Unknown s (ingressQueueId host ingressId) := by
        intro hunknown
        rw [hunknown.2.2] at hreceipt
        simp at hreceipt
      rcases hbacked _ receipt (.inr hreceipt) with hdone | ⟨old, hholds, hprint⟩
      · exact .inl ⟨hdone, hknown⟩
      · rw [hsame.2] at hholds hprint
        exact .inr ⟨old, hholds, hprint.trans hsame.1, fun hunknown => absurd hunknown hknown⟩
  · split at h <;> rename_i hfind
    · rename_i existing
      split at h <;> rename_i hsame
      · simp at h
      · rcases Prod.mk.inj (Except.ok.inj h) with ⟨-, hs'⟩
        subst hs'
        rw [not_or, not_not, not_not] at hsame
        have hmem := mem_of_findRoot hfind
        right
        refine ⟨existing.context, ⟨existing, hmem.1, hmem.2, hsame.1, rfl⟩, ?_, ?_⟩
        · rw [← hsame.1]
          rw [hsame.2, hsame.1]
        · intro hunknown
          rw [hunknown.1] at hfind
          simp at hfind
    · rcases Prod.mk.inj (Except.ok.inj h) with ⟨-, hs'⟩
      subst hs'
      refine kept_new ⟨pendingRoot s now (ingressQueueId host ingressId) contactId context none,
        ?_, rfl, rfl, rfl⟩
      by_cases hphase : s.phase = .available
      · simp [hphase]
      · simp [hphase, (ensureNotice_sameCore host _ contactId s.phase now).rootQueue]

theorem transferContinuation_kept {done : List String} {leaseId : String}
    (hbacked : ReceiptsBacked host done s)
    (h : transferContinuation host contactId context leaseId queueId s now =
      .ok (true, s')) :
    Kept host done s s' ⟨queueId, contactId, context⟩ := by
  unfold transferContinuation at h
  simp only at h
  split at h
  · rename_i receipt hreceipt
    rcases Prod.mk.inj (Except.ok.inj h) with ⟨hsame, hs'⟩
    subst hs'
    rw [decide_eq_true_eq] at hsame
    have hknown : ¬ Unknown s queueId := by
      intro hunknown
      rw [hunknown.2.1] at hreceipt
      simp at hreceipt
    rcases hbacked _ receipt (.inl hreceipt) with hdone | ⟨old, hholds, hprint⟩
    · exact .inl ⟨hdone, hknown⟩
    · rw [hsame.2] at hholds hprint
      exact .inr ⟨old, hholds, hprint.trans hsame.1, fun hunknown => absurd hunknown hknown⟩
  · split at h <;> rename_i hfind
    · rename_i existing
      split at h <;> rename_i hsame
      · rcases Prod.mk.inj (Except.ok.inj h) with ⟨-, hs'⟩
        subst hs'
        have hmem := mem_of_findRoot hfind
        right
        refine ⟨existing.context, ⟨existing, hmem.1, hmem.2, hsame.1, rfl⟩, hsame.2, ?_⟩
        intro hunknown
        rw [hunknown.1] at hfind
        simp at hfind
      · simp at h
    · split at h
      · simp at h
      · rename_i lease hlease
        rcases Prod.mk.inj (Except.ok.inj h) with ⟨-, hs'⟩
        subst hs'
        exact kept_new ⟨pendingRoot s now queueId contactId context
          (some (continuationOf leaseId lease)),
          List.mem_append_right _ (List.mem_singleton_self _), rfl, rfl, rfl⟩

/-- A call that accepts a root leaves it in the queue, or it was completed. -/
theorem accepted_holds {done : List String} {r : Reply} {root : AcceptedRoot}
    (hbacked : ReceiptsBacked host done s) (h : mutation host op s now = .ok (r, s'))
    (hroot : op.accepts host s r = some root) : Kept host done s s' root := by
  cases op <;> simp only [mutation] at h <;> rcases Mutation.reply_ok h with ⟨value, hvalue, hr⟩
  case enqueueRoot contact text admitRoot =>
    subst hr
    simp only [Op.accepts, Option.some.injEq] at hroot
    subst hroot
    exact enqueueRoot_kept hvalue
  case enqueueIngressRoot contact text ingressId =>
    subst hr
    cases value with
    | false => simp [Op.accepts] at hroot
    | true =>
        simp only [Op.accepts, Option.some.injEq] at hroot
        subst hroot
        exact enqueueIngressRoot_kept hbacked hvalue
  case enqueueContinuation contact text leaseId id =>
    subst hr
    cases value with
    | false => simp [Op.accepts] at hroot
    | true =>
        simp only [Op.accepts, Option.some.injEq] at hroot
        subst hroot
        unfold enqueueContinuation at hvalue
        by_cases hid : id = ""
        · rw [if_pos hid] at hvalue
          simp only [orElse, hid, if_true]
          have hdrawn : ReceiptsBacked host done { s with uuidsDrawn := s.uuidsDrawn + 1 } :=
            hbacked
          have hkept := transferContinuation_kept hdrawn hvalue
          exact hkept
        · rw [if_neg hid] at hvalue
          simp only [orElse, hid, if_false]
          exact transferContinuation_kept hbacked hvalue
  all_goals simp [Op.accepts] at hroot

/-! ## The ledger law -/

/-- The call ends this admission: it releases its lease, or settles a batch that
addresses its root. -/
def Ends (s : State) (op : Op) (a : RootAdmission) : Prop :=
  op = .release a.activity.leaseId ∨
    ∃ roots item, op.batch = some roots ∧ item ∈ s.rootQueue ∧ presented roots item = true ∧
      a.Names item

/-- The law of the ledger at one moment of a run. -/
structure RootLedger (host : Host) (w : World) : Prop where
  /-- An accepted root is held once, unchanged, until it is completed. -/
  kept : ∀ e w' r s' root, (coordinator host).step w e w' →
    call host e.op w.state e.time = .ok (r, s') → e.op.accepts host w.state r = some root →
    (root.queueId ∈ w.completed ∧ ¬ Unknown (prune w.state e.time) root.queueId) ∨
      ∃ context,
        fingerprint host root.contactId context =
          fingerprint host root.contactId root.context ∧
        (Unknown (prune w.state e.time) root.queueId → context = root.context) ∧
        ∀ es w'',
          ((coordinator host).restrict fun v e => ¬ Completes root.queueId v e).Run w' es w'' →
          HeldOnce w''.state root.queueId root.contactId context
  /-- An admission is stale once its lease is released or its root settled. -/
  ends : ∀ op t r s' a, call host op w.state t = .ok (r, s') →
    op.Known host w.state.uuidsDrawn → Ends (prune w.state t) op a → ¬ Current s' t a
  /-- A stale admission stays stale. -/
  staysStale : ∀ a ∈ w.admissions, ¬ Current w.state w.now a →
    ∀ es w', (coordinator host).Run w es w' → ¬ Current w'.state w'.now a
  /-- A batch of stale admissions does nothing. -/
  staleIdle : ∀ op roots t, op.batch = some roots →
    (∀ a ∈ roots, a ∈ w.admissions ∧ ¬ Current w.state t a) →
    ∃ r, call host op w.state t = .ok (r, prune w.state t)
  /-- A root that no admission of the batch names, stale ones apart, keeps its
  place, its content and its lease. -/
  staleHarmless : ∀ op roots t r s', op.batch = some roots →
    call host op w.state t = .ok (r, s') →
    ∀ item ∈ (prune w.state t).rootQueue,
      (∀ a ∈ roots, a.Names item → a ∈ w.admissions ∧ ¬ Current w.state t a) →
      item ∈ s'.rootQueue ∧
        (item.status = .claimed →
          s'.leases.get? item.leaseId = (prune w.state t).leases.get? item.leaseId)
  /-- At most one issued admission of a root is current. -/
  oneCurrent : w.admissions.Nodup ∧
    ∀ t, ∀ a ∈ w.admissions, ∀ b ∈ w.admissions, a.queueId = b.queueId →
      Current w.state t a → Current w.state t b → a = b
  /-- After pruning, distinct claimed roots name distinct live leases. -/
  leasesDistinct : ∀ t, ∀ i ∈ (prune w.state t).rootQueue, i.status = .claimed →
    (∃ lease, (prune w.state t).leases.get? i.leaseId = some lease ∧ t < lease.expiresAt) ∧
      ∀ j ∈ (prune w.state t).rootQueue, j.status = .claimed → i.leaseId = j.leaseId → i = j

/-- Two current admissions of one root carry the same claim token. -/
theorem current_token {w : World} {a b : RootAdmission} (h : (coordinator host).Reachable w)
    (heq : a.queueId = b.queueId) (ha : Current w.state t a) (hb : Current w.state t b) :
    a.claimToken = b.claimToken := by
  rcases ha with ⟨i, hi, -, hai, -⟩
  rcases hb with ⟨j, hj, -, hbj, -⟩
  have hsame : i = j := by
    apply (reachable_wellFormed h).root_unique hi hj
    rw [hai.1, hbj.1, heq]
  subst hsame
  rw [← hai.2.1, ← hbj.2.1]

/-- After pruning, distinct claimed roots name distinct live leases. -/
theorem prune_leases_distinct {w : World} (h : (coordinator host).Reachable w) {i : RootItem}
    (hi : i ∈ (prune w.state t).rootQueue) (hclaimed : i.status = .claimed) :
    (∃ lease, (prune w.state t).leases.get? i.leaseId = some lease ∧ t < lease.expiresAt) ∧
      ∀ j ∈ (prune w.state t).rootQueue, j.status = .claimed → i.leaseId = j.leaseId →
        i = j := by
  have hwf := (reachable_wellFormed h).prune t
  constructor
  · rcases claimed_of_prune hi hclaimed with ⟨-, -, lease, hget, hexpires⟩
    refine ⟨lease, ?_, hexpires⟩
    rw [prune_leases, Dict.get?_filter_eq_some_iff]
    exact ⟨hget, by simpa using hexpires⟩
  · intro j hj hclaimed' heq
    exact hwf.root_unique hi hj (hwf.claimsDistinct i hi j hj hclaimed hclaimed' (.inr heq))

/-- A call that ends an admission leaves it stale. -/
theorem ends_stale {w : World} {r : Reply} {a : RootAdmission}
    (h : (coordinator host).Reachable w) (hcall : call host op w.state t = .ok (r, s'))
    (hends : Ends (prune w.state t) op a) : ¬ Current s' t a := by
  have hwf := (reachable_wellFormed h).prune t
  rcases hends with hop | ⟨roots, item, hop, hmem, hpresented, hnames⟩
  · subst hop
    simp only [call, transaction, mutation] at hcall
    rcases Mutation.reply_ok hcall with ⟨value, hvalue, -⟩
    rcases Prod.mk.inj (Except.ok.inj hvalue) with ⟨-, hs'⟩
    subst hs'
    rintro ⟨item, -, -, hnames, -, lease, hget, -⟩
    rw [hnames.2.2] at hget
    simp at hget
  · have hgone := settling_ends hwf hop hcall hmem hpresented hnames
    rintro ⟨new, hnew, hclaimed, hnew', -⟩
    exact hgone ⟨new, hnew, hclaimed, hnew'⟩

/-- The ledger law.  Every accepted root stays in the queue exactly once and
unchanged until a batch presents its current claim, stale admissions are
harmless for good, at most one issued admission of a root is current, and after
pruning distinct claimed roots name distinct live leases. -/
theorem root_ledger (host : Host) (w : World) (h : (coordinator host).Reachable w) :
    RootLedger host w where
  kept e w' r s' root hstep hcall haccepts := by
    have hbacked := (reachable_receiptsBacked h).prune e.time
    have hkept : Kept host w.completed (prune w.state e.time) s' root :=
      accepted_holds hbacked hcall (by
        cases hop : e.op <;> cases r <;> simp_all [Op.accepts])
    rcases hkept with hdone | ⟨context, hholds, hprint, hsame⟩
    · exact .inl hdone
    · refine .inr ⟨context, hprint, hsame, fun es w'' hrun => ?_⟩
      have hw' : Holds w'.state root.queueId root.contactId context := by
        have hafter := World.after_ok hcall
        rw [hstep.2.2, hafter]
        exact hholds
      have hheld : Holds w''.state root.queueId root.contactId context :=
        hrun.preserves (I := fun v => Holds v.state root.queueId root.contactId context)
          (h.step hstep) (fun v e v' hreach hguard hv hst => hv.step hreach hguard hst) hw'
      exact hheld.once (reachable_wellFormed ((h.step hstep).run hrun.of_restrict))
  ends op t r s' a hcall _ hends := ends_stale h hcall hends
  staysStale a ha hstale es w' hrun := stale_run h hrun ha hstale
  staleIdle op roots t hop hall := by
    have hok : ∃ r s', mutation host op (prune w.state t) t = .ok (r, s') := settling_ok hop
    rcases hok with ⟨r, s', hcall⟩
    have hidle := settling_idle hop hcall fun item hmem => by
      by_contra hpresented
      rcases names_of_presented (by simpa using hpresented) with ⟨a, ha, hnames⟩
      exact stale_names h (hall a ha).1 (hall a ha).2 hmem hnames
    subst hidle
    exact ⟨r, hcall⟩
  staleHarmless op roots t r s' hop hcall item hmem hall := by
    apply settling_untouched ((reachable_wellFormed h).prune t) hop hcall hmem
    by_contra hpresented
    rcases names_of_presented (by simpa using hpresented) with ⟨a, ha, hnames⟩
    have hstale := hall a ha hnames
    exact stale_names h hstale.1 hstale.2 hmem hnames
  oneCurrent := by
    have hissued := reachable_issued h
    refine ⟨hissued.nodup.of_map _, fun t a ha b hb heq hca hcb => ?_⟩
    exact List.inj_on_of_nodup_map hissued.nodup ha hb (current_token h heq hca hcb)
  leasesDistinct t i hi hclaimed := prune_leases_distinct h hi hclaimed

/-- A root that is admitted, expires and is claimed again: its first admission
is stale, its second one current. -/
theorem root_ledger_reclaimed :
    let w := (World.initial 0).play countingHost
      [⟨.enqueueRoot "carbon-a" "hello" true, 1⟩, ⟨.claimPendingRoots 4 [] true, 200⟩]
    RootLedger countingHost w ∧
      w.admissions.map RootAdmission.claimToken = ["aa", "aaaa"] ∧
      HeldOnce w.state "a" "carbon-a" "hello" := by
  intro w
  have hreach : (coordinator countingHost).Reachable w :=
    play_reachable (.init ⟨0, rfl⟩) (by decide +kernel) (by simp [Op.Known])
  refine ⟨root_ledger countingHost w hreach, by decide +kernel, ?_⟩
  have hholds : Holds w.state "a" "carbon-a" "hello" := by
    unfold Holds
    decide +kernel
  exact hholds.once (reachable_wellFormed hreach)

end Maintenance
end Stemcell
