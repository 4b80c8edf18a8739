import Mathlib.Logic.Relation
import Stemcell.Maintenance.Operations

/-!
# What one transaction can do to the document

Nineteen public methods rewrite the maintenance document, but each rewriting is
a sequence of a few primitive effects: open or drop a lease, queue, claim, give
back or remove a root, move the phase.  This module names the effects with the
guard each is performed under and proves that every call is such a sequence.
Invariants are then checked once per effect instead of once per method.

Main results:

- Theorem `prune_effects`: the clean-up that opens a transaction is a sequence
  of effects.
- Theorem `call_effects`: so is every call of a public method.
- Theorem `Effects.invariant`: a predicate kept by every effect is kept by a
  call.
-/

namespace Stemcell
namespace Maintenance

open Lib

/-! ## What a call names -/

/-- The call removes this root from the queue. -/
def Op.removes : Op → RootItem → Prop
  | .completeRoots roots, item => presented roots item = true
  | _, _ => False

/-- The call gives this root back to the queue. -/
def Op.returns : Op → RootItem → Prop
  | .retryRoots roots _, item => presented roots item = true
  | .deferRoots roots, item => presented roots item = true
  | _, _ => False

/-- The call names this lease, to extend it, drop it or hand it over. -/
def Op.names : Op → String → Prop
  | .heartbeat leaseId _, id => id = leaseId
  | .release leaseId, id => id = leaseId
  | .enqueueContinuation _ _ leaseId _, id => id = leaseId
  | _, _ => False

/-- The call opens a lease below this activity. -/
def Op.parent : Op → ActivityToken → Prop
  | .acquireActivity _ _ _ parent _, token => parent = some token
  | _, _ => False

/-- The call adopts work that started before the fence. -/
def Op.adopts : Op → Prop
  | .adoptPrefenceActivity .. => True
  | _ => False

/-- The call takes ownership of the source record behind this queue id. -/
def Op.ingests (host : Host) : Op → String → Prop
  | .enqueueIngressRoot _ _ ingressId, id => id = ingressQueueId host ingressId
  | _, _ => False

/-- The call may queue a root. -/
def Op.queues : Op → Prop
  | .enqueueRoot .. => True
  | .enqueueIngressRoot .. => True
  | .enqueueContinuation .. => True
  | _ => False

/-- The call may return the phase to `available`; a pruning read does so when it
cancels an expired drain. -/
def Op.reopens : Op → Prop
  | .cancelDrain .. => True
  | .transition .. => True
  | .read => True
  | _ => False

/-! ## Identifiers -/

/-- `id` is one of the first `n` draws. -/
def Drawn (host : Host) (n : Nat) (id : String) : Prop :=
  ∃ k < n, host.uuid4 k = id

/-- No draw from the `n`-th on will produce `id`. -/
def Seen (host : Host) (n : Nat) (id : String) : Prop :=
  ∀ k, host.uuid4 k = id → k < n

/-- A caller names a continuation by an id that no later draw collides with. -/
def Op.Known (host : Host) (n : Nat) : Op → Prop
  | .enqueueContinuation _ _ _ queueId => Seen host n queueId
  | _ => True

section Identifiers

variable {host : Host} {m n : Nat} {id : String}

theorem Drawn.mono (h : Drawn host m id) (hle : m ≤ n) : Drawn host n id := by
  obtain ⟨k, hk, heq⟩ := h
  exact ⟨k, by omega, heq⟩

theorem Seen.mono (h : Seen host m id) (hle : m ≤ n) : Seen host n id :=
  fun k hk => (h k hk).trans_le hle

theorem drawn_uuid4 (host : Host) {k n : Nat} (h : k < n) : Drawn host n (host.uuid4 k) :=
  ⟨k, h, rfl⟩

theorem Drawn.seen (h : Drawn host n id) : Seen host n id := by
  obtain ⟨k, hk, rfl⟩ := h
  intro k' hk'
  rwa [host.uuid4_injective hk']

theorem Drawn.ne_empty (h : Drawn host n id) : id ≠ "" := by
  obtain ⟨k, -, rfl⟩ := h
  exact host.uuid4_ne_empty k

/-- A later draw differs from every earlier one. -/
theorem Drawn.ne_uuid4 (h : Drawn host n id) {k : Nat} (hk : n ≤ k) : host.uuid4 k ≠ id := by
  intro heq
  have hlt := h.seen k heq
  omega

theorem seen_empty (host : Host) (n : Nat) : Seen host n "" :=
  fun k hk => absurd hk (host.uuid4_ne_empty k)

/-- An ingress queue id is never drawn: it has letters that are no hex digit. -/
theorem seen_ingressQueueId (host : Host) (n : Nat) (ingressId : String) :
    Seen host n (ingressQueueId host ingressId) := by
  intro k hk
  have hmem : 'i' ∈ (host.uuid4 k).toList := by
    rw [hk, ingressQueueId, String.toList_append]
    exact List.mem_append_left _ (by decide)
  exact absurd (host.uuid4_hex k 'i' hmem) (by decide)

end Identifiers

/-! ## Primitive effects -/

/-- The documents agree on everything that decides admission and quiescence. -/
structure State.SameCore (s s' : State) : Prop where
  epoch : s'.epoch = s.epoch
  phase : s'.phase = s.phase
  safeToStop : s'.safeToStop = s.safeToStop
  leases : s'.leases = s.leases
  rootQueue : s'.rootQueue = s.rootQueue
  continuationReceipts : s'.continuationReceipts = s.continuationReceipts
  ingressReceipts : s'.ingressReceipts = s.ingressReceipts
  participants : s'.participants = s.participants
  uuidsDrawn : s.uuidsDrawn ≤ s'.uuidsDrawn

/-- The root that a receipt stands for waits in the queue. -/
def Backs (host : Host) (s : State) (queueId : String) (receipt : Receipt) : Prop :=
  ∃ item ∈ s.rootQueue, item.queueId = queueId ∧ item.contactId = receipt.contactId ∧
    fingerprint host item.contactId item.context = receipt.fingerprint

/-- Why a lease other than a claimed root's may be opened. -/
inductive Opens (op : Op) (s : State) (leaseId : String) (lease : Lease) : Prop
  | available (hphase : s.phase = .available) (hepoch : lease.admittedEpoch = s.epoch)
  | descendant (token : ActivityToken) (hparent : op.parent token)
      (hlive : s.leases.contains token.leaseId = true)
      (hold : token.admittedEpoch < s.epoch)
      (hepoch : lease.admittedEpoch = token.admittedEpoch)
      (hlineage : lease.lineageId = orElse token.lineageId leaseId)
  | adopted (hadopts : op.adopts) (hphase : s.phase ≠ .available)
      (hepoch : lease.admittedEpoch = s.epoch - 1) (hlineage : lease.lineageId = leaseId)

/-- Why a lease may leave the document. -/
inductive Drops (op : Op) (now : Seconds) (s : State) (leaseId : String) (lease : Lease) :
    Prop
  | expired (h : lease.expiresAt ≤ now)
  | named (h : op.names leaseId)
  | settled (item : RootItem) (hitem : item ∈ s.rootQueue) (hlease : item.leaseId = leaseId)
      (h : op.removes item ∨ op.returns item)
  | transferred (item : RootItem) (hitem : item ∈ s.rootQueue) (hne : leaseId ≠ "")
      (h : item.transferLeaseId = leaseId)

/-- How a root enters the queue: unclaimed, under an id no queued root has. -/
structure Enters (host : Host) (op : Op) (s : State) (item : RootItem) : Prop where
  queues : op.queues
  fresh : findRoot s.rootQueue item.queueId = none
  seen : Seen host s.uuidsDrawn item.queueId
  pending : item.status = .pending
  claimToken : item.claimToken = ""
  leaseId : item.leaseId = ""

/-- The phase lets this root be claimed. -/
def Admits (s : State) (item : RootItem) : Prop :=
  s.phase = .available ∨
    s.phase = .draining ∧ ∃ c, item.continuation = some c ∧ c.admittedEpoch < s.epoch

/-- A queued root under the claim that draws the next two identifiers. -/
def claimedRoot (host : Host) (s : State) (item : RootItem) (now : Seconds) : RootItem :=
  { item with
    status := .claimed
    claimToken := host.uuid4 s.uuidsDrawn
    claimUntil := now + rootClaimTtlSeconds
    leaseId := host.uuid4 (s.uuidsDrawn + 1) }

/-- The lease of a claimed root. -/
def claimLease (host : Host) (s : State) (item : RootItem) (now : Seconds) : Lease :=
  makeLease host now "manager_root" item.queueId item.contactId (claimEpoch s item)
    (claimLineage item) item.transferLeaseId leaseTtlSeconds (host.uuid4 (s.uuidsDrawn + 1))

/-- A root is given back: its claim is dead or the call returns it. -/
def GivesBack (op : Op) (now : Seconds) (s : State) (item item' : RootItem) : Prop :=
  item' = item ∨
    (∃ attempts notBefore,
      item' = { item.repend with attempts := attempts, notBefore := notBefore }) ∧
    (claimAlive s.leases now item = false ∨ op.returns item)

/-- One primitive rewriting of the document, performed by `op` at time `now`. -/
inductive Effect (host : Host) (op : Op) (now : Seconds) : State → State → Prop
  | bookkeep {s s' : State} (h : s.SameCore s') : Effect host op now s s'
  | raiseFence {s : State} (h : s.phase = .available) :
      Effect host op now s
        { s with
          epoch := s.epoch + 1
          phase := .draining
          safeToStop := false
          participants := .empty }
  | reopen {s : State} (hop : op.reopens) :
      Effect host op now s
        { s with phase := .available, safeToStop := false, participants := .empty }
  | advance {s : State} (phase : Phase) (h : s.phase ≠ .available)
      (havailable : phase ≠ .available) (hdraining : phase ≠ .draining) :
      Effect host op now s { s with phase := phase, safeToStop := false }
  | revoke {s : State} : Effect host op now s { s with safeToStop := false }
  | acknowledge {s : State} (participant : Participant) (hphase : s.phase = .draining)
      (hleases : s.leases.isEmpty = true)
      (hqueue : ∀ item ∈ s.rootQueue, item.status = .pending ∧ item.continuation = none)
      (hepoch : participant.epoch = s.epoch) :
      Effect host op now s
        { s with
          participants := s.participants.set "runtime" participant
          safeToStop := true }
  | dropLeases {s : State} (keep : String → Lease → Bool)
      (h : ∀ leaseId lease, s.leases.get? leaseId = some lease →
        keep leaseId lease = false → Drops op now s leaseId lease) :
      Effect host op now s { s with leases := s.leases.filter keep }
  | openLease {s : State} (lease : Lease)
      (h : Opens op s (host.uuid4 s.uuidsDrawn) lease) (hlineage : lease.lineageId ≠ "")
      (hop : ¬ op.reopens) :
      Effect host op now s
        { s with
          leases := s.leases.set (host.uuid4 s.uuidsDrawn) lease
          safeToStop := false
          uuidsDrawn := s.uuidsDrawn + 1 }
  | beat {s : State} (leaseId : String) (lease : Lease) (expiresAt : Seconds)
      (hnames : op.names leaseId) (h : s.leases.get? leaseId = some lease) :
      Effect host op now s
        { s with
          leases := s.leases.set leaseId
            { lease with heartbeatAt := now, expiresAt := expiresAt }
          rootQueue := s.rootQueue.map fun item =>
            if item.leaseId = leaseId then
              { item with claimUntil := now + rootClaimTtlSeconds }
            else item }
  | enqueue {s : State} (item : RootItem) (h : Enters host op s item)
      (hplain : item.continuation = none) :
      Effect host op now s { s with rootQueue := s.rootQueue ++ [item] }
  | transfer {s : State} (item : RootItem) (leaseId : String) (lease : Lease)
      (h : Enters host op s item) (hnames : op.names leaseId)
      (hlease : s.leases.get? leaseId = some lease)
      (hcontinuation : item.continuation = some (continuationOf leaseId lease)) :
      Effect host op now s
        { s with
          rootQueue := s.rootQueue ++ [item]
          leases := s.leases.pop leaseId
          safeToStop := false }
  | claim {s : State} (before after : List RootItem) (item : RootItem)
      (hqueue : s.rootQueue = before ++ item :: after) (hpending : item.status = .pending)
      (hadmits : Admits s item) (hop : ¬ op.reopens) :
      Effect host op now s
        { s with
          rootQueue := before ++ claimedRoot host s item now :: after
          leases := s.leases.set (host.uuid4 (s.uuidsDrawn + 1)) (claimLease host s item now)
          safeToStop := false
          uuidsDrawn := s.uuidsDrawn + 2 }
  | giveBack {s : State} (f : RootItem → RootItem)
      (h : ∀ item ∈ s.rootQueue, GivesBack op now s item (f item)) :
      Effect host op now s { s with rootQueue := s.rootQueue.map f }
  | remove {s : State} (keep : RootItem → Bool)
      (h : ∀ item ∈ s.rootQueue, keep item = false → op.removes item) :
      Effect host op now s { s with rootQueue := s.rootQueue.filter keep }
  | receipts {s : State} (continuations ingress : Dict String Receipt)
      (hcontinuations : ∀ queueId receipt, continuations.get? queueId = some receipt →
        s.continuationReceipts.get? queueId = some receipt ∨ Backs host s queueId receipt)
      (hingress : ∀ queueId receipt, ingress.get? queueId = some receipt →
        s.ingressReceipts.get? queueId = some receipt ∨
          op.ingests host queueId ∧ Backs host s queueId receipt) :
      Effect host op now s
        { s with continuationReceipts := continuations, ingressReceipts := ingress }

/-- A sequence of primitive effects. -/
def Effects (host : Host) (op : Op) (now : Seconds) : State → State → Prop :=
  Relation.ReflTransGen (Effect host op now)

variable {host : Host} {op : Op} {now : Seconds} {s s' t : State}

/-- A predicate kept by every effect is kept by a sequence of effects. -/
theorem Effects.invariant {I : State → Prop} (h : Effects host op now s s')
    (hstep : ∀ a b, Effect host op now a b → I a → I b) (hs : I s) : I s' := by
  induction h with
  | refl => exact hs
  | tail _ heff ih => exact hstep _ _ heff ih

theorem Effects.refl (s : State) : Effects host op now s s :=
  Relation.ReflTransGen.refl

theorem Effects.trans (h : Effects host op now s s') (h' : Effects host op now s' t) :
    Effects host op now s t :=
  Relation.ReflTransGen.trans h h'

theorem Effect.one (h : Effect host op now s s') : Effects host op now s s' :=
  Relation.ReflTransGen.single h

theorem Effects.then (h : Effects host op now s s') (h' : Effect host op now s' t) :
    Effects host op now s t :=
  Relation.ReflTransGen.tail h h'

/-- No effect takes draws back. -/
theorem Effect.uuidsDrawn_le (heff : Effect host op now s s') :
    s.uuidsDrawn ≤ s'.uuidsDrawn := by
  cases heff with
  | bookkeep hcore => exact hcore.uuidsDrawn
  | openLease => exact Nat.le_succ _
  | claim => exact Nat.le_add_right _ 2
  | _ => exact le_rfl

theorem Effects.uuidsDrawn_le (heffs : Effects host op now s s') :
    s.uuidsDrawn ≤ s'.uuidsDrawn :=
  heffs.invariant (I := fun t => s.uuidsDrawn ≤ t.uuidsDrawn)
    (fun _ _ heff hle => hle.trans heff.uuidsDrawn_le) le_rfl

/-! ## Pruning -/

/-- The clean-up that opens a transaction is a sequence of effects. -/
theorem prune_effects (host : Host) (s : State) (now : Seconds) :
    Effects host .read now s (prune s now) := by
  -- The phase: an expired drain is reopened, anything else stays.
  obtain ⟨s₁, h₁, hcore⟩ : ∃ s₁, Effects host .read now s s₁ ∧
      s₁ = { s with
        phase := (prune s now).phase
        participants := (prune s now).participants
        safeToStop := s₁.safeToStop } ∧
      ((prune s now).safeToStop = true → s₁.safeToStop = true) := by
    by_cases hexp : s.DrainExpired now
    · obtain ⟨hphase, -, hparticipants⟩ := cancelExpiredDrain_of_expired s now hexp
      refine ⟨_, (@Effect.reopen host .read now s trivial).one, ?_, fun hsafe => ?_⟩
      · rw [prune_phase, prune_participants, hphase, hparticipants]
      · exact absurd hexp (prune_safeToStop hsafe).2.1
    · obtain ⟨hphase, hparticipants⟩ := prune_of_not_expired s now hexp
      refine ⟨s, .refl s, ?_, fun hsafe => (prune_safeToStop hsafe).1⟩
      rw [hphase, hparticipants]
  obtain ⟨hs₁, hsafe₁⟩ := hcore
  have hleases₁ : s₁.leases = s.leases := by rw [hs₁]
  have hqueue₁ : s₁.rootQueue = s.rootQueue := by rw [hs₁]
  have hcont₁ : s₁.continuationReceipts = s.continuationReceipts := by rw [hs₁]
  have hingress₁ : s₁.ingressReceipts = s.ingressReceipts := by rw [hs₁]
  -- Leases, receipts and queue, in the order of the source.
  have h₂ := h₁.then (.dropLeases (fun _ lease => now < lease.expiresAt)
    (fun _ lease _ hkeep => .expired (by simpa using hkeep)))
  have h₃ := h₂.then (.receipts (prune s now).continuationReceipts (prune s now).ingressReceipts
    (fun queueId receipt hget => .inl (by
      rw [prune_continuationReceipts] at hget
      simpa only [hcont₁] using pruneReceipts_get? hget))
    (fun queueId receipt hget => .inl (by
      rw [prune_ingressReceipts] at hget
      simpa only [hingress₁] using pruneReceipts_get? hget)))
  have h₄ := h₃.then (.giveBack (pruneRoot (prune s now).leases now) (by
    intro item _
    rcases pruneRoot_cases (prune s now).leases now item with ⟨heq, -, hdead⟩ | ⟨heq, -⟩
    · refine .inr ⟨⟨item.attempts, item.notBefore, heq⟩, .inl ?_⟩
      simpa only [prune_leases, hleases₁] using hdead
    · exact .inl heq))
  -- The acknowledgement, then the fields nothing depends on.
  cases hsafe : (prune s now).safeToStop with
  | false =>
      refine (h₄.then .revoke).then (.bookkeep ?_)
      rw [hs₁]
      constructor <;> simp [hsafe]
  | true =>
      have hs₁safe := hsafe₁ hsafe
      refine h₄.then (.bookkeep ?_)
      rw [hs₁]
      constructor <;> simp [hsafe, hs₁safe]

end Maintenance
end Stemcell
