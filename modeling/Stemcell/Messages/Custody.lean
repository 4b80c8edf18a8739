import Stemcell.Messages.Parties

/-!
# The custody of one message

What the coordinator and the parties know of one message, and how every event of an
exchange leaves it.  Most events only take something away from the parties; the few that
give something are a transfer, a hand-over and the stages of its own send.

Main results:

- Definition `Custody`: the two tables and what is left to the parties agree.
- Theorem `Custody.narrows`: it outlives what only takes away.
- Theorems `Custody.transfer` and `Custody.ingress`: it outlives the two calls.
-/

namespace Stemcell
namespace Messages

open Lib Maintenance

/-! ## The invariant -/

/-- One table accounts for one root of a message, or for none. -/
inductive Accounted (receipt : Option Receipt) (queued : Prop) (count : Nat)
    (received : Seconds → Receipt) : Prop
  | none (hreceipt : receipt = .none) (hqueued : ¬ queued) (hcount : count = 0)
  | one (since : Seconds) (hreceipt : receipt = some (received since)) (hcount : count = 1)

/-- The two tables and what is left to the parties agree on a message. -/
structure Custody (p : Platform) (table : CallTable) (d : Exchange) (queueId contactId : String)
    (item : QueueItem) : Prop where
  continued : Accounted (d.world.state.continuationReceipts.get? queueId)
    (Queued d.world.state queueId) (rootCount d queueId .continuation)
    (receiptOf p.host contactId (lineageContext p item))
  ingressed : Accounted (d.world.state.ingressReceipts.get? (ingressOf p.host queueId))
    (Queued d.world.state (ingressOf p.host queueId)) (rootCount d queueId .ingress)
    (receiptOf p.host contactId (drainContext p table item))
  goes : GoesIngress p.host d queueId →
    d.world.state.continuationReceipts.get? queueId = none ∧
      ∀ leaseId, MayTransfer d queueId leaseId → LeaseGone p.host d.world leaseId
  single : ∀ a b, MayTransfer d queueId a → MayTransfer d queueId b → a = b
  drawn : ∀ leaseId, MayTransfer d queueId leaseId → Drawn p.host d.world.state.uuidsDrawn leaseId

/-! ## Taking away -/

/-- A later stage that leaves nothing more to the send. -/
structure Stage.Weakens (later earlier : Stage) : Prop where
  presents : ∀ leaseId, later.presents = some leaseId → earlier.presents = some leaseId
  fallsBack : later.fallsBack = true → earlier.fallsBack = true

/-- Nothing more is left to the parties of a message. -/
structure Narrows (queueId : String) (d d' : Exchange) : Prop where
  sends : ∀ later, d'.sends.get? queueId = some later →
    ∃ earlier, d.sends.get? queueId = some earlier ∧ later.stage.Weakens earlier.stage
  waits : ∀ contactId item, item.queueId = queueId → Waits d' contactId item →
    Waits d contactId item
  unchecked : ∀ contactId item, item.queueId = queueId → Unchecked d' contactId item →
    Unchecked d contactId item

/-- The coordinator leaves a message alone. -/
structure Calm (host : Host) (queueId : String) (d d' : Exchange) : Prop where
  drawn : d.world.state.uuidsDrawn ≤ d'.world.state.uuidsDrawn
  gone : ∀ leaseId, LeaseGone host d.world leaseId → LeaseGone host d'.world leaseId
  continuation : ContinuationQuiet queueId d.world d'.world
  ingress : IngressQuiet host queueId d.world d'.world
  count : ∀ kind, rootCount d' queueId kind = rootCount d queueId kind

/-- A message that is in a table stays in it. -/
structure Keeps (host : Host) (queueId : String) (d d' : Exchange) : Prop where
  continuation : d.world.state.continuationReceipts.get? queueId ≠ none →
    d'.world.state.continuationReceipts.get? queueId ≠ none
  ingress : d.world.state.ingressReceipts.get? (ingressOf host queueId) ≠ none →
    d'.world.state.ingressReceipts.get? (ingressOf host queueId) ≠ none

variable {p : Platform} {table : CallTable} {host : Host} {d d' d'' : Exchange}
  {queueId contactId leaseId : String} {item : QueueItem}

theorem Stage.Weakens.refl (stage : Stage) : stage.Weakens stage :=
  ⟨fun _ h => h, fun h => h⟩

theorem Calm.refl (host : Host) (queueId : String) (d : Exchange) : Calm host queueId d d :=
  ⟨le_rfl, fun _ h => h, ⟨rfl, fun h => h⟩, ⟨rfl, fun h => h⟩, fun _ => rfl⟩

/-- With the coordinator at rest nothing of it changes. -/
theorem Calm.of_eq (hworld : d'.world = d.world) (hroots : d'.roots = d.roots) :
    Calm host queueId d d' := by
  constructor
  · rw [hworld]
  · rw [hworld]
    exact fun _ h => h
  · rw [hworld]
    exact ⟨rfl, fun h => h⟩
  · rw [hworld]
    exact ⟨rfl, fun h => h⟩
  · intro kind
    rw [rootCount, hroots, rootCount]

theorem Calm.keeps (h : Calm host queueId d d') : Keeps host queueId d d' := by
  constructor
  · intro hget
    rwa [h.continuation.receipt]
  · intro hget
    rwa [h.ingress.receipt]

theorem Keeps.rooted (h : Keeps host queueId d d') (hrooted : Rooted host d queueId) :
    Rooted host d' queueId := by
  rcases hrooted with hrooted | hrooted
  · exact .inl (h.continuation hrooted)
  · exact .inr (h.ingress hrooted)

theorem Accounted.quiet {receipt receipt' : Option Receipt} {queued queued' : Prop}
    {count count' : Nat} {received : Seconds → Receipt}
    (h : Accounted receipt queued count received) (hreceipt : receipt' = receipt)
    (hqueued : ¬ queued → ¬ queued') (hcount : count' = count) :
    Accounted receipt' queued' count' received := by
  cases h with
  | none hr hq hc => exact .none (hreceipt.trans hr) (hqueued hq) (hcount.trans hc)
  | one since hr hc => exact .one since (hreceipt.trans hr) (hcount.trans hc)

theorem MayTransfer.narrows (hnarrows : Narrows queueId d d') (h : MayTransfer d' queueId leaseId) :
    MayTransfer d queueId leaseId := by
  cases h with
  | sender sending hget hstage =>
      rcases hnarrows.sends sending hget with ⟨earlier, hearlier, hweakens⟩
      exact .sender earlier hearlier (hweakens.presents leaseId hstage)
  | record contact item hitem hid hprepared hlease =>
      exact .record contact item (hnarrows.unchecked contact item hid hitem) hid hprepared hlease

theorem GoesIngress.narrows (hnarrows : Narrows queueId d d')
    (hquiet : IngressQuiet host queueId d.world d'.world) (h : GoesIngress host d' queueId) : GoesIngress host d queueId := by
  cases h with
  | accepted hreceipt =>
      rw [hquiet.receipt] at hreceipt
      exact .accepted hreceipt
  | record contact item hitem hid hplain =>
      exact .record contact item (hnarrows.waits contact item hid hitem) hid hplain
  | sender sending hget hstage =>
      rcases hnarrows.sends sending hget with ⟨earlier, hearlier, hweakens⟩
      exact .sender earlier hearlier (hweakens.fallsBack hstage)

/-- A message outlives events that leave its roots alone; what its parties gain has to be
accounted for. -/
theorem Custody.gains (h : Custody p table d queueId contactId item)
    (hcalm : Calm p.host queueId d d')
    (hgoes : GoesIngress p.host d' queueId →
      d.world.state.continuationReceipts.get? queueId = none ∧
        ∀ leaseId, MayTransfer d' queueId leaseId → LeaseGone p.host d'.world leaseId)
    (hsingle : ∀ a b, MayTransfer d' queueId a → MayTransfer d' queueId b → a = b)
    (hdrawn : ∀ leaseId, MayTransfer d' queueId leaseId →
      Drawn p.host d'.world.state.uuidsDrawn leaseId) :
    Custody p table d' queueId contactId item where
  continued := h.continued.quiet hcalm.continuation.receipt hcalm.continuation.queued
    (hcalm.count _)
  ingressed := h.ingressed.quiet hcalm.ingress.receipt hcalm.ingress.queued (hcalm.count _)
  goes hg := by
    rw [hcalm.continuation.receipt]
    exact hgoes hg
  single := hsingle
  drawn := hdrawn

/-- A message outlives events that only take away from its parties. -/
theorem Custody.narrows (h : Custody p table d queueId contactId item)
    (hnarrows : Narrows queueId d d') (hcalm : Calm p.host queueId d d') :
    Custody p table d' queueId contactId item := by
  apply h.gains hcalm
  · intro hg
    rcases h.goes (hg.narrows hnarrows hcalm.ingress) with ⟨hreceipt, hgone⟩
    exact ⟨hreceipt, fun leaseId hmay => hcalm.gone leaseId (hgone leaseId (hmay.narrows hnarrows))⟩
  · intro a b ha hb
    exact h.single a b (ha.narrows hnarrows) (hb.narrows hnarrows)
  · intro leaseId hmay
    exact (h.drawn leaseId (hmay.narrows hnarrows)).mono hcalm.drawn

/-! ## Counting roots -/

theorem rootCount_append (d d' : Exchange) (queueId : String) (adds : Bool) (root : MessageRoot)
    (hroots : d'.roots = d.roots ++ rootAdded adds root) (kind : RootKind) :
    rootCount d' queueId kind = rootCount d queueId kind +
      if adds ∧ root.queueId = queueId ∧ root.kind = kind then 1 else 0 := by
  rw [rootCount, hroots, List.countP_append, rootCount, rootAdded]
  cases adds
  · simp
  · simp [List.countP_cons]

/-! ## Calls of the coordinator -/

/-- Dropped records leave less to the parties. -/
theorem Narrows.of_queue
    (hsends : ∀ later, d'.sends.get? queueId = some later →
      ∃ earlier, d.sends.get? queueId = some earlier ∧ later.stage.Weakens earlier.stage)
    (hqueue : ∀ contact copy, copy.queueId = queueId → (contact, copy) ∈ d'.queue.items →
      (contact, copy) ∈ d.queue.items)
    (hpass : d'.pass = d.pass) : Narrows queueId d d' := by
  constructor
  · exact hsends
  · rintro contact copy hid (hmem | ⟨pass, hread, hmem⟩)
    · exact .stored (hqueue contact copy hid hmem)
    · rw [hpass] at hread
      exact .read pass hread hmem
  · rintro contact copy hid (hmem | ⟨pass, hread, hmem⟩)
    · exact .stored (hqueue contact copy hid hmem)
    · rw [hpass] at hread
      exact .read pass hread hmem

theorem Narrows.of_eq (hsends : d'.sends = d.sends) (hqueue : d'.queue = d.queue)
    (hpass : d'.pass = d.pass) : Narrows queueId d d' := by
  apply Narrows.of_queue
  · intro later hget
    rw [hsends] at hget
    exact ⟨later, hget, .refl _⟩
  · intro contact copy _ hmem
    rwa [hqueue] at hmem
  · exact hpass

/-- A message that was sent, as the calls of the coordinator know it. -/
structure Known (host : Host) (d : Exchange) (queueId : String) : Prop where
  named : queueId ≠ ""
  seen : Seen host d.world.state.uuidsDrawn queueId
  apart : queueId ≠ ingressOf host queueId

/-- When the coordinator is called at time `t`, the receipts of the message are retained. -/
structure Meets (host : Host) (d : Exchange) (queueId : String) (t : Seconds) : Prop where
  clock : d.world.now ≤ t
  continuation : RetainedAt maxContinuationReceipts continuationReceiptTtlSeconds
    d.world.state.continuationReceipts t queueId
  ingress : RetainedAt maxIngressReceipts ingressReceiptTtlSeconds d.world.state.ingressReceipts t
    (ingressOf host queueId)

variable {t : Seconds} {e : Event}

/-- A call of the coordinator under other ids. -/
theorem Calm.of_step (hreach : (coordinator host).Reachable d.world)
    (hstep : (coordinator host).step d.world e d'.world) (hmeets : Meets host d queueId e.time)
    (hcontinuation : ¬ e.op.newId host d.world.state.uuidsDrawn queueId)
    (hingress : ¬ e.op.newId host d.world.state.uuidsDrawn (ingressOf host queueId))
    (hcount : ∀ kind, rootCount d' queueId kind = rootCount d queueId kind) :
    Calm host queueId d d' where
  drawn := step_uuidsDrawn hreach hstep
  gone _ hgone := leaseGone_step hreach hstep hgone
  continuation := continuationQuiet_step hreach hstep hmeets.continuation hcontinuation
  ingress := ingressQuiet_step hreach hstep hmeets.ingress hingress
  count := hcount

/-- What a transfer comes to: the message is in the continuation table, or the lease is
gone and the table does not have it. -/
inductive TransferOutcome (host : Host) (d' : Exchange) (queueId leaseId : String) :
    Bool → Prop
  | taken (h : d'.world.state.continuationReceipts.get? queueId ≠ none) :
      TransferOutcome host d' queueId leaseId true
  | refused (hreceipt : d'.world.state.continuationReceipts.get? queueId = none)
      (hgone : LeaseGone host d'.world leaseId) : TransferOutcome host d' queueId leaseId false

/-- A transfer of a lease that is left to the parties. -/
theorem Custody.transfer (h : Custody p table d queueId contactId item)
    (hreach : (coordinator p.host).Reachable d.world) (hknown : Known p.host d queueId)
    (hmeets : Meets p.host d queueId t) (hmay : MayTransfer d queueId leaseId) :
    let context := lineageContext p item
    let called := d.transferCall p contactId context leaseId queueId t
    Custody p table called queueId contactId item ∧ Keeps p.host queueId d called ∧
      TransferOutcome p.host called queueId leaseId
        (answersTrue p.host d.world (transferOp contactId context leaseId queueId) t) := by
  intro context called
  have hstep : (coordinator p.host).step d.world ⟨transferOp contactId context leaseId queueId, t⟩
      called.world := ⟨hmeets.clock, hknown.seen, rfl⟩
  have hnarrows : Narrows queueId d called := .of_eq rfl rfl rfl
  have hdrawn := step_uuidsDrawn hreach hstep
  have hcount := rootCount_append d called queueId
    (addsContinuation p.host queueId d.world ⟨transferOp contactId context leaseId queueId, t⟩)
    { queueId := queueId, contactId := contactId, kind := .continuation } rfl
  have hrest : ∀ {adds : Bool},
      addsContinuation p.host queueId d.world
        ⟨transferOp contactId context leaseId queueId, t⟩ = adds → adds = false →
      called.world.state = prune d.world.state t → Calm p.host queueId d called := by
    intro adds hadds hfalse hafter
    refine ⟨hdrawn, fun _ hgone => leaseGone_step hreach hstep hgone,
      continuationQuiet_prune hmeets.continuation hafter,
      ingressQuiet_prune hmeets.ingress hafter, fun kind => ?_⟩
    rw [hcount, hadds, hfalse]
    simp
  cases h.continued with
  | one since hreceipt _ =>
      rcases transfer_again p.host contactId context leaseId hknown.named hmeets.continuation hreceipt with
        ⟨hanswer, hadds, hafter⟩
      have hcalm := hrest hadds rfl hafter
      refine ⟨h.narrows hnarrows hcalm, hcalm.keeps, ?_⟩
      rw [hanswer]
      apply TransferOutcome.taken
      rw [hcalm.continuation.receipt, hreceipt]
      exact Option.some_ne_none _
  | none hreceipt hqueued hzero =>
      cases hlease : (prune d.world.state t).leases.get? leaseId with
      | none =>
          rcases transfer_refused p.host contactId context leaseId hknown.named hreceipt hqueued hlease with ⟨hanswer, hadds, hafter⟩
          have hcalm := hrest hadds rfl hafter
          refine ⟨h.narrows hnarrows hcalm, hcalm.keeps, ?_⟩
          rw [hanswer]
          apply TransferOutcome.refused
          · rw [hcalm.continuation.receipt, hreceipt]
          · refine ⟨(h.drawn leaseId hmay).mono hdrawn, ?_⟩
            rw [show called.world.state = prune d.world.state t from hafter]
            exact hlease
      | some lease =>
          rcases transfer_accepted p.host contactId context leaseId hknown.named hreceipt hqueued hlease with ⟨hanswer, hadds, hnew⟩
          have hquiet : IngressQuiet p.host queueId d.world called.world :=
            ingressQuiet_step hreach hstep hmeets.ingress fun hid => by
              rw [transferOp, Op.newId, orElse, if_neg hknown.named] at hid
              exact hknown.apart hid.symm
          -- A message that goes the other way has lost its lease already.
          have hstays : ¬ GoesIngress p.host called queueId := by
            intro hgoes
            have hgone := (h.goes (hgoes.narrows hnarrows hquiet)).2 leaseId hmay
            rw [prune_leases, Dict.get?_filter_eq_some_iff, hgone.2] at hlease
            cases hlease.1
          have hkeeps : Keeps p.host queueId d called := by
            refine ⟨fun hget => absurd hreceipt hget, fun hget => ?_⟩
            rwa [hquiet.receipt]
          refine ⟨⟨?_, ?_, fun hgoes => absurd hgoes hstays, ?_, ?_⟩, hkeeps, ?_⟩
          · refine .one t hnew ?_
            rw [hcount, hadds, hzero]
            simp
          · refine h.ingressed.quiet hquiet.receipt hquiet.queued ?_
            rw [hcount]
            simp
          · intro a b ha hb
            exact h.single a b (ha.narrows hnarrows) (hb.narrows hnarrows)
          · intro a ha
            exact (h.drawn a (ha.narrows hnarrows)).mono hdrawn
          · rw [hanswer]
            apply TransferOutcome.taken
            rw [show called.world.state.continuationReceipts.get? queueId = _ from hnew]
            exact Option.some_ne_none _

/-- A hand-over of a message whose lease is gone. -/
theorem Custody.ingress (h : Custody p table d queueId contactId item)
    (hreach : (coordinator p.host).Reachable d.world) (hknown : Known p.host d queueId)
    (hmeets : Meets p.host d queueId t) (hgoes : GoesIngress p.host d queueId)
    {copy : QueueItem} (hid : copy.queueId = queueId)
    (hcontext : drainContext p table copy = drainContext p table item) :
    let called := d.ingressCall p table contactId copy t
    Custody p table called queueId contactId item ∧ Keeps p.host queueId d called ∧
      called.world.state.ingressReceipts.get? (ingressOf p.host queueId) ≠ none := by
  intro called
  subst hid
  have hstep : (coordinator p.host).step d.world ⟨ingressOp p table contactId copy, t⟩
      called.world := ⟨hmeets.clock, trivial, rfl⟩
  have hnarrows : Narrows copy.queueId d called := .of_eq rfl rfl rfl
  have hdrawn := step_uuidsDrawn hreach hstep
  have hquiet : ContinuationQuiet copy.queueId d.world called.world :=
    continuationQuiet_step hreach hstep hmeets.continuation fun hid => hknown.apart hid
  have hcount := rootCount_append d called copy.queueId
    (addsIngressRoot p.host (ingressIdOf copy.queueId) d.world
      ⟨ingressOp p table contactId copy, t⟩)
    { queueId := copy.queueId, contactId := contactId, kind := .ingress } rfl
  have hcont : Accounted (called.world.state.continuationReceipts.get? copy.queueId)
      (Queued called.world.state copy.queueId) (rootCount called copy.queueId .continuation)
      (receiptOf p.host contactId (lineageContext p item)) := by
    refine h.continued.quiet hquiet.receipt hquiet.queued ?_
    rw [hcount]
    simp
  have hfrom : ∀ leaseId, MayTransfer called copy.queueId leaseId →
      MayTransfer d copy.queueId leaseId := fun _ hmay => hmay.narrows hnarrows
  have hcustody : Accounted
      (called.world.state.ingressReceipts.get? (ingressOf p.host copy.queueId))
      (Queued called.world.state (ingressOf p.host copy.queueId))
      (rootCount called copy.queueId .ingress)
      (receiptOf p.host contactId (drainContext p table item)) ∧
      called.world.state.ingressReceipts.get? (ingressOf p.host copy.queueId) ≠ none := by
    cases h.ingressed with
    | one since hreceipt hone =>
        rcases ingress_again p.host contactId (drainContext p table item) hmeets.ingress hreceipt with ⟨-, hadds, hafter⟩
        have hafter' : called.world.state = prune d.world.state t := by
          rw [← hafter, ← hcontext]
          rfl
        have hsame := ingressQuiet_prune hmeets.ingress hafter'
        constructor
        · refine .one since (hsame.receipt.trans hreceipt) ?_
          rw [hcount, ingressOp, hcontext, hadds, hone]
          simp
        · rw [hsame.receipt, hreceipt]
          exact Option.some_ne_none _
    | none hreceipt hqueued hzero =>
        rcases ingress_accepted p.host contactId (drainContext p table item) (t := t) hreceipt
          hqueued with ⟨-, hadds, hnew⟩
        have hnew' : called.world.state.ingressReceipts.get? (ingressOf p.host copy.queueId) =
            some (receiptOf p.host contactId (drainContext p table item) t) := by
          rw [← hnew, ← hcontext]
          rfl
        constructor
        · refine .one t hnew' ?_
          rw [hcount, ingressOp, hcontext, hadds, hzero]
          simp
        · rw [hnew']
          exact Option.some_ne_none _
  have hkeeps : Keeps p.host copy.queueId d called := by
    refine ⟨fun hget => ?_, fun _ => hcustody.2⟩
    rwa [hquiet.receipt]
  refine ⟨⟨hcont, hcustody.1, fun _ => ?_, ?_, ?_⟩, hkeeps, hcustody.2⟩
  · rcases h.goes hgoes with ⟨hreceipt, hgone⟩
    rw [hquiet.receipt]
    exact ⟨hreceipt, fun leaseId hmay =>
      leaseGone_step hreach hstep (hgone leaseId (hfrom leaseId hmay))⟩
  · intro a b ha hb
    exact h.single a b (hfrom a ha) (hfrom b hb)
  · intro leaseId hmay
    exact (h.drawn leaseId (hfrom leaseId hmay)).mono hdrawn

end Messages
end Stemcell
