import Stemcell.Maintenance.Coordinator

/-!
# What the coordinator remembers of a source record

`enqueue_ingress_root` recognises a redelivery by the receipt of its queue id
or, without a receipt, by the root that still waits under it.  This module
follows both from the acceptance of a root to a later redelivery.

Main results:

- Theorem `agrees_run`: as long as no second root is queued under its id, the
  document remembers the accepted root and nothing else.
- Theorem `redelivered_iff`: when a redelivery is taken for the accepted root.
-/

namespace Stemcell
namespace Maintenance

open Lib

/-- The document knows the queue id from a receipt or from a queued root. -/
def Recalls (s : State) (queueId : String) : Prop :=
  (∃ receipt, s.ingressReceipts.get? queueId = some receipt) ∨
    ∃ item, findRoot s.rootQueue queueId = some item

/-- Whatever the document knows of the queue id agrees with this root. -/
structure Agrees (host : Host) (queueId contactId context : String) (s : State) : Prop where
  receipt : ∀ receipt, s.ingressReceipts.get? queueId = some receipt →
    receipt.contactId = contactId ∧ receipt.fingerprint = fingerprint host contactId context
  queued : ∀ item ∈ s.rootQueue, item.queueId = queueId →
    item.contactId = contactId ∧
      fingerprint host item.contactId item.context = fingerprint host contactId context

/-- Every root queued under the id was queued before, with the same text. -/
def NoNewRoot (queueId : String) (s s' : State) : Prop :=
  ∀ item ∈ s'.rootQueue, item.queueId = queueId →
    ∃ old ∈ s.rootQueue, old.queueId = queueId ∧ old.contactId = item.contactId ∧
      old.context = item.context

/-- The call queues no root under the id. -/
def AddsNoRoot (host : Host) (queueId : String) (w : World) (e : Event) : Prop :=
  NoNewRoot queueId w.state (w.after host e.op e.time).state

variable {host : Host} {op : Op} {now : Seconds} {s s' : State}
  {queueId contactId context ingressId : String}

/-- Pruning keeps the identity and the text of a root. -/
theorem pruneRoot_same (leases : Dict String Lease) (now : Seconds) (item : RootItem) :
    (pruneRoot leases now item).queueId = item.queueId ∧
      (pruneRoot leases now item).contactId = item.contactId ∧
      (pruneRoot leases now item).context = item.context := by
  rcases pruneRoot_cases leases now item with ⟨hroot, -⟩ | ⟨hroot, -⟩
  · rw [hroot]
    exact ⟨rfl, rfl, rfl⟩
  · rw [hroot]
    exact ⟨rfl, rfl, rfl⟩

theorem prune_noNewRoot (queueId : String) (s : State) (now : Seconds) :
    NoNewRoot queueId s (prune s now) := by
  intro item hmem hid
  rw [prune_rootQueue] at hmem
  rcases List.mem_map.mp hmem with ⟨old, hold, heq⟩
  rcases pruneRoot_same (prune s now).leases now old with ⟨hqueue, hcontact, hcontext⟩
  rw [heq] at hqueue hcontact hcontext
  exact ⟨old, hold, hqueue.symm.trans hid, hcontact.symm, hcontext.symm⟩

/-- A root in the queue is recalled. -/
theorem recalls_of_mem {item : RootItem} (hmem : item ∈ s.rootQueue)
    (hid : item.queueId = queueId) : Recalls s queueId := by
  right
  rw [← Option.isSome_iff_exists, findRoot, List.find?_isSome]
  exact ⟨item, hmem, by simpa using hid⟩

/-- A root stays queued when the document is pruned. -/
theorem recalls_prune_of_mem {item : RootItem} (hmem : item ∈ s.rootQueue)
    (hid : item.queueId = queueId) (now : Seconds) : Recalls (prune s now) queueId := by
  have hpruned : pruneRoot (prune s now).leases now item ∈ (prune s now).rootQueue := by
    rw [prune_rootQueue]
    exact List.mem_map_of_mem hmem
  exact recalls_of_mem hpruned ((pruneRoot_same _ now item).1.trans hid)

theorem Agrees.prune (h : Agrees host queueId contactId context s) (now : Seconds) :
    Agrees host queueId contactId context (prune s now) where
  receipt receipt hget := by
    rw [prune_ingressReceipts] at hget
    exact h.receipt receipt (pruneReceipts_get? hget)
  queued item hmem hid := by
    rcases prune_noNewRoot queueId s now item hmem hid with
      ⟨old, hold, holdId, hcontact, hcontext⟩
    rw [← hcontact, ← hcontext]
    exact h.queued old hold holdId

/-- Only a call that takes ownership of the source record adds its receipt. -/
theorem ingressReceipt_effect (hop : ¬ op.ingests host queueId)
    (heff : Effect host op now s s') {receipt : Receipt}
    (hget : s'.ingressReceipts.get? queueId = some receipt) :
    s.ingressReceipts.get? queueId = some receipt := by
  cases heff with
  | bookkeep hcore =>
      rw [← hcore.ingressReceipts]
      exact hget
  | receipts continuations ingress _ hingress =>
      rcases hingress queueId receipt hget with hold | ⟨hingests, -⟩
      · exact hold
      · exact absurd hingests hop
  | _ => exact hget

theorem ingressReceipt_effects (hop : ¬ op.ingests host queueId)
    (heffs : Effects host op now s s') {receipt : Receipt}
    (hget : s'.ingressReceipts.get? queueId = some receipt) :
    s.ingressReceipts.get? queueId = some receipt := by
  refine heffs.invariant
    (I := fun t => t.ingressReceipts.get? queueId = some receipt →
      s.ingressReceipts.get? queueId = some receipt) ?_ id hget
  intro a b heff ih hb
  exact ih (ingressReceipt_effect hop heff hb)

/-- What `enqueue_ingress_root` does: it recognises the root by its receipt or in
the queue, or it queues a root that is unknown. -/
theorem enqueueIngressRoot_cases {r : Bool}
    (h : enqueueIngressRoot host contactId context ingressId s now = .ok (r, s')) :
    r = true ∧
      ((∃ receipt, s.ingressReceipts.get? (ingressQueueId host ingressId) = some receipt ∧
          receipt.contactId = contactId ∧
          receipt.fingerprint = fingerprint host contactId context ∧ s' = s) ∨
        (∃ item ∈ s.rootQueue, item.queueId = ingressQueueId host ingressId ∧
          item.contactId = contactId ∧
          fingerprint host item.contactId item.context = fingerprint host contactId context ∧
          s' = { s with
            ingressReceipts := s.ingressReceipts.set (ingressQueueId host ingressId)
              { contactId := contactId
                fingerprint := fingerprint host contactId context
                acceptedAt := item.enqueuedAt } }) ∨
        ¬ Recalls s (ingressQueueId host ingressId) ∧
          s'.rootQueue = s.rootQueue ++
            [pendingRoot s now (ingressQueueId host ingressId) contactId context none] ∧
          s'.ingressReceipts = s.ingressReceipts.set (ingressQueueId host ingressId)
            { contactId := contactId
              fingerprint := fingerprint host contactId context
              acceptedAt := now }) := by
  unfold enqueueIngressRoot at h
  split at h
  · simp at h
  simp only at h
  split at h
  · rename_i receipt hreceipt
    split at h <;> rename_i hsame
    · simp at h
    · rcases Prod.mk.inj (Except.ok.inj h) with ⟨hr, hs'⟩
      rw [not_or, not_not, not_not] at hsame
      exact ⟨hr.symm, .inl ⟨receipt, hreceipt, hsame.2, hsame.1, hs'.symm⟩⟩
  rename_i hreceipt
  split at h <;> rename_i hfind
  · rename_i existing
    split at h <;> rename_i hsame
    · simp at h
    · rcases Prod.mk.inj (Except.ok.inj h) with ⟨hr, hs'⟩
      rw [not_or, not_not, not_not] at hsame
      rcases mem_of_findRoot hfind with ⟨hmem, hid⟩
      exact ⟨hr.symm, .inr (.inl ⟨existing, hmem, hid, hsame.1, hsame.2, hs'.symm⟩)⟩
  · rcases Prod.mk.inj (Except.ok.inj h) with ⟨hr, hs'⟩
    subst hs'
    refine ⟨hr.symm, .inr (.inr ⟨?_, ?_, ?_⟩)⟩
    · rintro (⟨receipt, hget⟩ | ⟨item, hget⟩)
      · rw [hget] at hreceipt
        cases hreceipt
      · rw [hget] at hfind
        cases hfind
    · by_cases hphase : s.phase = .available
      · simp [hphase]
      · simp [hphase, (ensureNotice_sameCore host _ contactId s.phase now).rootQueue]
    · by_cases hphase : s.phase = .available
      · simp [hphase]
      · simp [hphase, (ensureNotice_sameCore host _ contactId s.phase now).ingressReceipts]

/-- The first delivery of a source record makes the document agree with it. -/
theorem agrees_accepted (hnew : ¬ Recalls s (ingressQueueId host ingressId)) {r : Bool}
    (h : enqueueIngressRoot host contactId context ingressId s now = .ok (r, s')) :
    Agrees host (ingressQueueId host ingressId) contactId context s' := by
  rcases (enqueueIngressRoot_cases h).2 with
    ⟨receipt, hget, -⟩ | ⟨item, hmem, hid, -⟩ | ⟨-, hqueue, hreceipts⟩
  · exact absurd (.inl ⟨receipt, hget⟩) hnew
  · exact absurd (recalls_of_mem hmem hid) hnew
  · constructor
    · intro receipt hget
      rw [hreceipts, Dict.get?_set_self] at hget
      cases hget
      exact ⟨rfl, rfl⟩
    · intro item hmem hid
      rw [hqueue] at hmem
      rcases List.mem_append.mp hmem with hmem | hmem
      · exact absurd (recalls_of_mem hmem hid) hnew
      · rw [List.mem_singleton.mp hmem]
        exact ⟨rfl, rfl⟩

/-- A call that queues no second root under the id keeps the agreement. -/
theorem agrees_step {w w' : World} {e : Event} (hreach : (coordinator host).Reachable w)
    (hno : AddsNoRoot host queueId w e) (hstep : (coordinator host).step w e w')
    (h : Agrees host queueId contactId context w.state) :
    Agrees host queueId contactId context w'.state := by
  have hwf := reachable_wellFormed hreach
  have hafter : w' = w.after host e.op e.time := hstep.2.2
  rw [AddsNoRoot, ← hafter] at hno
  have hqueued : ∀ item ∈ w'.state.rootQueue, item.queueId = queueId →
      item.contactId = contactId ∧
        fingerprint host item.contactId item.context = fingerprint host contactId context := by
    intro item hmem hid
    rcases hno item hmem hid with ⟨old, hold, holdId, hcontact, hcontext⟩
    rw [← hcontact, ← hcontext]
    exact h.queued old hold holdId
  rcases step_cases hstep with heq | ⟨r, s', hcall, heq⟩
  · rw [heq]
    exact h
  have hstate : w'.state = s' := by rw [heq]
  refine ⟨fun receipt hget => ?_, hqueued⟩
  rw [hstate] at hget hno
  have hpruned := h.prune e.time
  by_cases hingests : e.op.ingests host queueId
  · cases hop : e.op with
    | enqueueIngressRoot contact text ingress =>
        rw [hop] at hingests hcall
        have hid : queueId = ingressQueueId host ingress := hingests
        rcases Mutation.reply_ok hcall with ⟨value, hvalue, -⟩
        rw [hid] at hget hpruned hno
        rcases (enqueueIngressRoot_cases hvalue).2 with
          ⟨-, -, -, -, hsame⟩ | ⟨item, hmem, hitem, hcontact, hprint, hsame⟩ |
          ⟨hunknown, hqueue, -⟩
        · rw [hsame] at hget
          exact hpruned.receipt receipt hget
        · rw [hsame, Dict.get?_set_self] at hget
          cases hget
          rcases hpruned.queued item hmem hitem with ⟨hc, hp⟩
          exact ⟨hcontact.symm.trans hc, hprint.symm.trans hp⟩
        · have hnew := hno (pendingRoot (prune w.state e.time) e.time
            (ingressQueueId host ingress) contact text none) (by rw [hqueue]; simp) rfl
          rcases hnew with ⟨old, hold, holdId, -⟩
          exact absurd (recalls_prune_of_mem hold holdId e.time) hunknown
    | _ => simp [hop, Op.ingests] at hingests
  · have heffs := (hwf.call_effects hstep.2.1 hcall).2
    exact hpruned.receipt receipt (ingressReceipt_effects hingests heffs hget)

theorem agrees_run {w w' : World} {es : List Event} (hreach : (coordinator host).Reachable w)
    (hrun : ((coordinator host).restrict (AddsNoRoot host queueId)).Run w es w')
    (h : Agrees host queueId contactId context w.state) :
    Agrees host queueId contactId context w'.state :=
  hrun.preserves (I := fun v => Agrees host queueId contactId context v.state) hreach
    (fun _ _ _ ha hno hI hstep => agrees_step ha hno hstep hI) h

/-- A root that the document recalls with this text is accepted again. -/
theorem enqueueIngressRoot_recalled {text : String} (hid : ingressId ≠ "")
    (h : Agrees host (ingressQueueId host ingressId) contactId context s)
    (hknown : Recalls s (ingressQueueId host ingressId))
    (hprint : fingerprint host contactId text = fingerprint host contactId context) :
    ∃ s', enqueueIngressRoot host contactId text ingressId s now = .ok (true, s') ∧
      s'.rootQueue = s.rootQueue := by
  unfold enqueueIngressRoot
  rw [if_neg hid]
  simp only
  split
  · rename_i receipt hreceipt
    rcases h.receipt receipt hreceipt with ⟨hc, hp⟩
    rw [if_neg (by simp [hc, hp, hprint])]
    exact ⟨s, rfl, rfl⟩
  rename_i hreceipt
  split
  · rename_i item hfind
    rcases mem_of_findRoot hfind with ⟨hmem, hitem⟩
    rcases h.queued item hmem hitem with ⟨hc, hp⟩
    rw [hc] at hp
    rw [if_neg (by simp [hc, hp, hprint])]
    exact ⟨_, rfl, rfl⟩
  · rename_i hfind
    rcases hknown with ⟨receipt, hget⟩ | ⟨item, hget⟩
    · rw [hget] at hreceipt
      cases hreceipt
    · rw [hget] at hfind
      cases hfind

/-- In a document that agrees with an accepted root, a later delivery is taken
for it, and queues no second root, exactly if its fingerprint is the same and
the document still knows the id. -/
theorem redelivered_iff {text contact : String} (hid : ingressId ≠ "")
    (h : Agrees host (ingressQueueId host ingressId) contactId context (prune s now)) :
    (∃ s', call host (.enqueueIngressRoot contact text ingressId) s now = .ok (.flag true, s') ∧
        s'.rootQueue = (prune s now).rootQueue) ↔
      contact = contactId ∧
        fingerprint host contact text = fingerprint host contactId context ∧
        Recalls (prune s now) (ingressQueueId host ingressId) := by
  constructor
  · rintro ⟨s', hcall, hqueue⟩
    rcases Mutation.reply_ok hcall with ⟨value, hvalue, -⟩
    rcases (enqueueIngressRoot_cases hvalue).2 with
      ⟨receipt, hget, hcontact, hprint, -⟩ | ⟨item, hmem, hitem, hcontact, hprint, -⟩ |
      ⟨-, hnew, -⟩
    · rcases h.receipt receipt hget with ⟨hc, hp⟩
      exact ⟨hcontact.symm.trans hc, hprint.symm.trans hp, .inl ⟨receipt, hget⟩⟩
    · rcases h.queued item hmem hitem with ⟨hc, hp⟩
      exact ⟨hcontact.symm.trans hc, hprint.symm.trans hp, recalls_of_mem hmem hitem⟩
    · rw [hnew] at hqueue
      have hlength := congrArg List.length hqueue
      simp at hlength
  · rintro ⟨hcontact, hprint, hknown⟩
    subst hcontact
    rcases @enqueueIngressRoot_recalled host now _ _ context ingressId text hid h hknown hprint with
      ⟨s', hvalue, hqueue⟩
    refine ⟨s', ?_, hqueue⟩
    rw [call, transaction, mutation, Mutation.reply, hvalue]

end Maintenance
end Stemcell
