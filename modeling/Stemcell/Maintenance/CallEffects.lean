import Stemcell.Maintenance.Effects

/-!
# Every call is a sequence of effects

One lemma per public method, in the order of `Operations`, and their assembly
`call_effects`.  These are the only places that unfold the methods to find out
what they do to the document.

Main results:

- Theorem `claimScan_effects`: the claim loop is a sequence of claims.
- Theorem `call_effects`: a successful call is a sequence of effects.
-/

namespace Stemcell
namespace Maintenance

open Lib

variable {host : Host} {op : Op} {now : Seconds} {s s' : State}

/-! ## Update lifecycle -/

theorem requestDrain_effects {deadline : Option Seconds} {id : String} {r : Unit}
    (h : requestDrain host deadline id s now = .ok (r, s')) : Effects host op now s s' := by
  unfold requestDrain at h
  split at h <;> rename_i hphase
  · split at h
    · simp at h
    · obtain ⟨-, rfl⟩ := Prod.mk.inj (Except.ok.inj h)
      exact .refl s
  · obtain ⟨-, rfl⟩ := Prod.mk.inj (Except.ok.inj h)
    refine (Effect.raiseFence (not_not.mp hphase)).one.then (.bookkeep ?_)
    constructor <;> simp
    split <;> omega

theorem cancelDrain_effects {id outcome : String} {r : Bool}
    (hop : op.reopens) (h : cancelDrain id outcome s now = .ok (r, s')) :
    Effects host op now s s' := by
  unfold cancelDrain at h
  split at h
  · obtain ⟨-, rfl⟩ := Prod.mk.inj (Except.ok.inj h)
    exact .refl s
  · split at h
    · obtain ⟨-, rfl⟩ := Prod.mk.inj (Except.ok.inj h)
      exact .refl s
    · obtain ⟨-, rfl⟩ := Prod.mk.inj (Except.ok.inj h)
      refine (Effect.reopen hop).one.then (.bookkeep ?_)
      constructor <;> simp

/-- `available` has no outgoing edge. -/
theorem ne_available_of_allowed {current requested : Phase}
    (h : requested ∈ allowedTransitions current) : current ≠ .available := by
  rintro rfl
  simp [allowedTransitions] at h

/-- A successful transition stays, returns to `available` or moves to another
phase; it moves from `draining` to `updating` only under `safe_to_stop`. -/
theorem transition_cases {phase : Phase} {id : String} {r : Unit}
    (h : transition phase id s now = .ok (r, s')) :
    phase ≠ .draining ∧
      ((phase = s.phase ∧ s' = s) ∨
        (phase ≠ s.phase ∧ phase ∈ allowedTransitions s.phase ∧
          (phase = .updating → s.safeToStop = true) ∧
          (phase = .available ∧
              ({ s with phase := .available, safeToStop := false, participants := .empty } :
                State).SameCore s' ∨
            phase ≠ .available ∧
              ({ s with phase := phase, safeToStop := false } : State).SameCore s'))) := by
  unfold transition at h
  split at h <;> rename_i hdraining
  · simp at h
  refine ⟨hdraining, ?_⟩
  split at h
  · simp at h
  split at h <;> rename_i hsame
  · obtain ⟨-, rfl⟩ := Prod.mk.inj (Except.ok.inj h)
    exact .inl ⟨hsame, rfl⟩
  right
  split at h <;> rename_i hallowed
  · simp at h
  split at h <;> rename_i hsafe
  · simp at h
  refine ⟨hsame, not_not.mp hallowed, ?_, ?_⟩
  · intro hupdating
    by_contra hunsafe
    exact hsafe ⟨hupdating, hunsafe⟩
  · split at h <;> rename_i havailable
    · obtain ⟨-, rfl⟩ := Prod.mk.inj (Except.ok.inj h)
      refine .inl ⟨havailable, ?_⟩
      constructor <;> simp [havailable]
    · obtain ⟨-, rfl⟩ := Prod.mk.inj (Except.ok.inj h)
      refine .inr ⟨havailable, ?_⟩
      constructor <;> simp

theorem transition_effects {phase : Phase} {id : String} {r : Unit}
    (hop : op.reopens) (h : transition phase id s now = .ok (r, s')) :
    Effects host op now s s' := by
  obtain ⟨hdraining, ⟨-, rfl⟩ | ⟨-, hallowed, -, ⟨-, hcore⟩ | ⟨hne, hcore⟩⟩⟩ :=
    transition_cases h
  · exact .refl _
  · exact (Effect.reopen hop).one.then (.bookkeep hcore)
  · exact (Effect.advance phase (ne_available_of_allowed hallowed) hne hdraining).one.then
      (.bookkeep hcore)

/-! ## Queueing and claiming -/

theorem ensureNotice_sameCore (host : Host) (s : State) (contactId : String) (phase : Phase)
    (now : Seconds) : s.SameCore (ensureNotice host s contactId phase now) := by
  unfold ensureNotice
  split <;> constructor <;> simp

theorem orElse_ne_empty {text default : String} (h : default ≠ "") :
    orElse text default ≠ "" := by
  unfold orElse
  split <;> assumption

/-- Claiming one root of the queue and dropping the lease it takes over. -/
theorem claimRootItem_effects {before after : List RootItem} {item : RootItem}
    (hpending : item.status = .pending) (hadmits : Admits s item) (hop : ¬ op.reopens) :
    Effects host op now { s with rootQueue := before ++ item :: after }
      { (claimRootItem host s item now).2.2 with
        rootQueue := before ++ (claimRootItem host s item now).2.1 :: after } := by
  have hclaim := (@Effect.claim host op now { s with rootQueue := before ++ item :: after }
    before after item rfl hpending hadmits hop).one
  by_cases htransfer : item.transferLeaseId = ""
  · simpa [claimRootItem, htransfer, newLease, addLease, claimedRoot, claimLease, makeLease,
      claimEpoch, tokenFromLease] using hclaim
  · have hdrop := hclaim.then (.dropLeases (fun id _ => id ≠ item.transferLeaseId)
      (fun leaseId lease _ hkeep => by
        have hid : leaseId = item.transferLeaseId := by simpa using hkeep
        exact .transferred (claimedRoot host { s with rootQueue := before ++ item :: after }
          item now) (by simp) (by rwa [hid]) (by rw [hid]; rfl)))
    simpa [claimRootItem, htransfer, newLease, addLease, claimedRoot, claimLease, makeLease,
      claimEpoch, tokenFromLease, Dict.pop] using hdrop

theorem enqueueRoot_effects {contact context : String} {admitRoot : Bool}
    {r : RootEnqueueResult}
    (hqueues : op.queues)
    (hfresh : findRoot s.rootQueue (host.uuid4 s.uuidsDrawn) = none) (hop : ¬ op.reopens)
    (h : enqueueRoot host contact context admitRoot s now = .ok (r, s')) :
    Effects host op now s s' := by
  let drawn : State := { s with uuidsDrawn := s.uuidsDrawn + 1 }
  let item := pendingRoot drawn now (host.uuid4 s.uuidsDrawn) contact context none
  have hdraw : Effect host op now s drawn := .bookkeep (by constructor <;> simp [drawn])
  have hqueue : Effects host op now s { drawn with rootQueue := s.rootQueue ++ [item] } :=
    hdraw.one.then (.enqueue item
      { queues := hqueues, fresh := hfresh
        seen := (drawn_uuid4 host (Nat.lt_succ_self _)).seen
        pending := rfl, claimToken := rfl, leaseId := rfl } rfl)
  unfold enqueueRoot at h
  simp only at h
  split at h <;> rename_i hadmit
  · obtain ⟨-, rfl⟩ := Prod.mk.inj (Except.ok.inj h)
    exact hqueue.trans (claimRootItem_effects (s := drawn) rfl (.inl hadmit.1) hop)
  · split at h
    · obtain ⟨-, rfl⟩ := Prod.mk.inj (Except.ok.inj h)
      exact hqueue
    · obtain ⟨-, rfl⟩ := Prod.mk.inj (Except.ok.inj h)
      exact hqueue.then (.bookkeep (ensureNotice_sameCore ..))

theorem mem_of_findRoot {queue : List RootItem} {queueId : String} {item : RootItem}
    (h : findRoot queue queueId = some item) : item ∈ queue ∧ item.queueId = queueId :=
  ⟨List.mem_of_find?_eq_some h, by simpa using List.find?_some h⟩

/-- Recording a receipt for a queued root. -/
theorem set_receipt_backed {receipts : Dict String Receipt} {queueId : String}
    {receipt : Receipt} (hbacks : Backs host s queueId receipt) :
    ∀ id r, (receipts.set queueId receipt).get? id = some r →
      receipts.get? id = some r ∨ Backs host s id r := by
  intro id r hget
  rw [Dict.get?_set] at hget
  split at hget <;> rename_i hid
  · cases hget
    exact .inr (hid ▸ hbacks)
  · exact .inl hget

theorem set_ingress_backed {receipts : Dict String Receipt} {queueId : String}
    {receipt : Receipt} (hingests : op.ingests host queueId)
    (hbacks : Backs host s queueId receipt) :
    ∀ id r, (receipts.set queueId receipt).get? id = some r →
      receipts.get? id = some r ∨ op.ingests host id ∧ Backs host s id r := by
  intro id r hget
  rw [Dict.get?_set] at hget
  split at hget <;> rename_i hid
  · cases hget
    exact .inr (hid ▸ ⟨hingests, hbacks⟩)
  · exact .inl hget

theorem enqueueIngressRoot_effects {contact context ingress : String} {r : Bool}
    (hqueues : op.queues) (hingests : op.ingests host (ingressQueueId host ingress))
    (h : enqueueIngressRoot host contact context ingress s now = .ok (r, s')) :
    Effects host op now s s' := by
  unfold enqueueIngressRoot at h
  split at h
  · simp at h
  simp only at h
  split at h
  · split at h
    · simp at h
    · obtain ⟨-, rfl⟩ := Prod.mk.inj (Except.ok.inj h)
      exact .refl _
  split at h <;> rename_i hfind
  · rename_i existing
    split at h <;> rename_i hconflict
    · simp at h
    · obtain ⟨-, rfl⟩ := Prod.mk.inj (Except.ok.inj h)
      simp only [ne_eq, not_or, not_not] at hconflict
      obtain ⟨hmem, hid⟩ := mem_of_findRoot hfind
      exact (Effect.receipts s.continuationReceipts _ (fun _ _ => .inl)
        (set_ingress_backed hingests
          ⟨existing, hmem, hid, hconflict.1, hconflict.2⟩)).one
  · obtain ⟨-, rfl⟩ := Prod.mk.inj (Except.ok.inj h)
    let item := pendingRoot s now (ingressQueueId host ingress) contact context none
    have hqueue : Effect host op now s { s with rootQueue := s.rootQueue ++ [item] } :=
      .enqueue item
        { queues := hqueues, fresh := hfind, seen := seen_ingressQueueId host _ _
          pending := rfl, claimToken := rfl, leaseId := rfl } rfl
    have hreceipt := hqueue.one.then (.receipts s.continuationReceipts
      (s.ingressReceipts.set (ingressQueueId host ingress)
        { contactId := contact, fingerprint := fingerprint host contact context
          acceptedAt := now })
      (fun _ _ => .inl)
      (set_ingress_backed hingests ⟨item, by simp [item], rfl, rfl, rfl⟩))
    by_cases hphase : s.phase = .available
    · simpa [hphase] using hreceipt.then .revoke
    · simpa [hphase] using (hreceipt.then
        (.bookkeep (ensureNotice_sameCore host _ contact s.phase now))).then .revoke

theorem claimable_cases {excluded : List String} {item : RootItem}
    (hphase : s.phase = .available ∨ s.phase = .draining)
    (h : claimable s now excluded item = true) :
    item.status = .pending ∧ item.contactId ∉ excluded ∧ item.notBefore ≤ now ∧
      Admits s item := by
  simp only [claimable, Bool.and_eq_true, decide_eq_true_eq, Bool.or_eq_true] at h
  obtain ⟨⟨⟨hpending, hcontact⟩, hbefore⟩, hadmits⟩ := h
  refine ⟨hpending, hcontact, hbefore, ?_⟩
  rcases hphase with hphase | hphase
  · exact .inl hphase
  · rcases hadmits with hne | hcont
    · exact absurd hphase hne
    · right
      refine ⟨hphase, ?_⟩
      split at hcont <;> rename_i hcase
      · exact ⟨_, hcase, by simpa using hcont⟩
      · simp at hcont

/-- A claim leaves the phase and the epoch alone and makes two draws. -/
theorem claimRootItem_frame (host : Host) (s : State) (item : RootItem) (now : Seconds) :
    (claimRootItem host s item now).2.2.phase = s.phase ∧
      (claimRootItem host s item now).2.2.epoch = s.epoch ∧
      (claimRootItem host s item now).2.2.uuidsDrawn = s.uuidsDrawn + 2 := by
  unfold claimRootItem newLease addLease
  simp only
  split <;> exact ⟨rfl, rfl, rfl⟩

/-- The claim loop, started after the roots `before`, is a sequence of claims. -/
theorem claimScan_effects {limit : Nat} {unique : Bool} (queue before : List RootItem)
    (p : ClaimProgress) (hphase : p.state.phase = .available ∨ p.state.phase = .draining)
    (hop : ¬ op.reopens) :
    Effects host op now { p.state with rootQueue := before ++ queue }
      { (claimScan host limit unique now queue p).2.state with
        rootQueue := before ++ (claimScan host limit unique now queue p).1 } := by
  induction queue generalizing before p with
  | nil => exact .refl _
  | cons item rest ih =>
      unfold claimScan
      split
      · exact .refl _
      · split <;> rename_i hclaimable
        · obtain ⟨hpending, -, -, hadmits⟩ := claimable_cases hphase hclaimable
          have hone := @claimRootItem_effects host op now p.state before rest item hpending hadmits hop
          have hframe := claimRootItem_frame host p.state item now
          have hrest := ih (before ++ [(claimRootItem host p.state item now).2.1])
            { state := (claimRootItem host p.state item now).2.2
              admissions := p.admissions ++ [(claimRootItem host p.state item now).1]
              excluded := if unique then item.contactId :: p.excluded else p.excluded }
            (by rwa [hframe.1])
          simp only [List.append_assoc, List.singleton_append] at hrest
          exact hone.trans hrest
        · have hrest := ih (before ++ [item]) p hphase
          simpa only [List.append_assoc, List.singleton_append] using hrest

theorem claimPendingRoots_effects {limit : Int} {excluded : List String} {unique : Bool}
    {r : List RootAdmission} (hop : ¬ op.reopens)
    (h : claimPendingRoots host limit excluded unique s now = .ok (r, s')) :
    Effects host op now s s' := by
  unfold claimPendingRoots at h
  split at h <;> rename_i hphase
  · obtain ⟨-, rfl⟩ := Prod.mk.inj (Except.ok.inj h)
    exact .refl _
  · obtain ⟨-, rfl⟩ := Prod.mk.inj (Except.ok.inj h)
    exact claimScan_effects s.rootQueue [] ⟨s, [], excluded⟩ (by tauto) hop

theorem transferContinuation_effects {contact context lease queueId : String} {r : Bool}
    (hqueues : op.queues) (hnames : op.names lease) (hseen : Seen host s.uuidsDrawn queueId)
    (h : transferContinuation host contact context lease queueId s now = .ok (r, s')) :
    Effects host op now s s' := by
  unfold transferContinuation at h
  simp only at h
  split at h
  · obtain ⟨-, rfl⟩ := Prod.mk.inj (Except.ok.inj h)
    exact .refl _
  split at h <;> rename_i hfind
  · rename_i existing
    split at h <;> rename_i hsame
    · obtain ⟨-, rfl⟩ := Prod.mk.inj (Except.ok.inj h)
      obtain ⟨hmem, hqueue⟩ := mem_of_findRoot hfind
      have hbacks : Backs host s queueId
          { contactId := contact, fingerprint := fingerprint host contact context
            acceptedAt := existing.enqueuedAt } :=
        ⟨existing, hmem, hqueue, hsame.1, by rw [hsame.1]; exact hsame.2⟩
      exact (Effect.receipts _ s.ingressReceipts (set_receipt_backed hbacks)
        (fun _ _ => .inl)).one
    · obtain ⟨-, rfl⟩ := Prod.mk.inj (Except.ok.inj h)
      exact .refl _
  split at h <;> rename_i hlease
  · obtain ⟨-, rfl⟩ := Prod.mk.inj (Except.ok.inj h)
    exact .refl _
  · rename_i source
    obtain ⟨-, rfl⟩ := Prod.mk.inj (Except.ok.inj h)
    let item := pendingRoot s now queueId contact context (some (continuationOf lease source))
    have htransfer : Effect host op now s
        { s with
          rootQueue := s.rootQueue ++ [item]
          leases := s.leases.pop lease
          safeToStop := false } :=
      .transfer item lease source
        { queues := hqueues, fresh := hfind, seen := hseen, pending := rfl, claimToken := rfl
          leaseId := rfl }
        hnames hlease rfl
    exact htransfer.one.then (.receipts _ _
      (set_receipt_backed ⟨item, by simp, rfl, rfl, rfl⟩) (fun _ _ => .inl))

theorem enqueueContinuation_effects {contact context lease queue : String} {r : Bool}
    (hqueues : op.queues) (hnames : op.names lease) (hseen : Seen host s.uuidsDrawn queue)
    (h : enqueueContinuation host contact context lease queue s now = .ok (r, s')) :
    Effects host op now s s' := by
  unfold enqueueContinuation at h
  split at h
  · have hdraw : Effect host op now s { s with uuidsDrawn := s.uuidsDrawn + 1 } :=
      .bookkeep (by constructor <;> simp)
    exact hdraw.one.trans (transferContinuation_effects hqueues hnames
      (drawn_uuid4 host (Nat.lt_succ_self _)).seen h)
  · exact transferContinuation_effects hqueues hnames hseen h

/-! ## Activities -/

theorem heartbeat_effects {lease : String} {ttl : Seconds} {r : Bool}
    (hnames : op.names lease) (h : heartbeat lease ttl s now = .ok (r, s')) :
    Effects host op now s s' := by
  unfold heartbeat at h
  split at h <;> rename_i hget
  · obtain ⟨-, rfl⟩ := Prod.mk.inj (Except.ok.inj h)
    exact .refl _
  · obtain ⟨-, rfl⟩ := Prod.mk.inj (Except.ok.inj h)
    exact (Effect.beat lease _ _ hnames hget).one

theorem getActivity_effects {lease : String} {r : Option ActivityToken}
    (h : getActivity lease s now = .ok (r, s')) : Effects host op now s s' := by
  obtain ⟨-, rfl⟩ := Prod.mk.inj (Except.ok.inj h)
  exact .refl _

/-- Opening one lease. -/
theorem newLease_effects {kind activity contact : String} {epoch : Nat}
    {lineage parent : String} {ttl : Seconds}
    (hopens : Opens op s (host.uuid4 s.uuidsDrawn)
      (makeLease host now kind activity contact epoch lineage parent ttl
        (host.uuid4 s.uuidsDrawn)))
    (hop : ¬ op.reopens) :
    Effects host op now s
      (newLease host s now kind activity contact epoch lineage parent ttl).2 :=
  (Effect.openLease _ hopens (orElse_ne_empty (host.uuid4_ne_empty _)) hop).one

theorem acquireActivity_effects {kind activity contact : String}
    {parent : Option ActivityToken} {ttl : Seconds} {r : Option ActivityToken}
    (hparent : ∀ token, parent = some token → op.parent token) (hop : ¬ op.reopens)
    (h : acquireActivity host kind activity contact parent ttl s now = .ok (r, s')) :
    Effects host op now s s' := by
  unfold acquireActivity at h
  split at h <;> rename_i hphase
  · obtain ⟨-, rfl⟩ := Prod.mk.inj (Except.ok.inj h)
    exact newLease_effects (.available hphase rfl) hop
  · split at h
    · obtain ⟨-, rfl⟩ := Prod.mk.inj (Except.ok.inj h)
      exact .refl _
    · rename_i token
      split at h <;> rename_i hlive
      · obtain ⟨-, rfl⟩ := Prod.mk.inj (Except.ok.inj h)
        exact .refl _
      split at h <;> rename_i hold
      · obtain ⟨-, rfl⟩ := Prod.mk.inj (Except.ok.inj h)
        exact .refl _
      · obtain ⟨-, rfl⟩ := Prod.mk.inj (Except.ok.inj h)
        exact newLease_effects (.descendant token (hparent token rfl) (not_not.mp hlive)
          (by omega) rfl rfl) hop

theorem adoptPrefenceActivity_effects {kind activity contact : String}
    {started ttl : Seconds} {r : Option ActivityToken} (hadopts : op.adopts)
    (hop : ¬ op.reopens)
    (h : adoptPrefenceActivity host kind activity contact started ttl s now = .ok (r, s')) :
    Effects host op now s s' := by
  unfold adoptPrefenceActivity at h
  split at h
  · obtain ⟨-, rfl⟩ := Prod.mk.inj (Except.ok.inj h)
    exact .refl _
  · obtain ⟨-, rfl⟩ := Prod.mk.inj (Except.ok.inj h)
    by_cases hphase : s.phase = .available
    · exact newLease_effects (.available hphase (by simp [makeLease, hphase])) hop
    · exact newLease_effects (.adopted hadopts hphase (by simp [makeLease, hphase])
        (by simp [makeLease, orElse])) hop

theorem release_effects {lease : String} {r : Bool} (hnames : op.names lease)
    (h : release lease s now = .ok (r, s')) : Effects host op now s s' := by
  obtain ⟨-, rfl⟩ := Prod.mk.inj (Except.ok.inj h)
  exact (Effect.dropLeases (fun id _ => id ≠ lease) (fun leaseId _ _ hkeep => by
    have hid : leaseId = lease := by simpa using hkeep
    exact .named (hid ▸ hnames))).one

/-! ## Settling claimed roots -/

/-- Dropping the leases of the roots a batch addresses. -/
theorem popPresented_effect {roots : List RootAdmission}
    (hsettles : ∀ item, presented roots item = true → op.removes item ∨ op.returns item) :
    Effect host op now s { s with leases := popPresented roots s } := by
  refine .dropLeases
    (fun id _ => id ∉ (s.rootQueue.filter (presented roots)).map RootItem.leaseId) ?_
  intro leaseId lease _ hkeep
  simp only [decide_not, Bool.not_eq_false', decide_eq_true_eq, List.mem_map,
    List.mem_filter] at hkeep
  obtain ⟨item, ⟨hmem, hpresented⟩, hid⟩ := hkeep
  exact .settled item hmem hid (hsettles item hpresented)

theorem completeRoots_effects {roots : List RootAdmission} {r : Unit}
    (h : completeRoots roots s now = .ok (r, s')) :
    Effects host (.completeRoots roots) now s s' := by
  obtain ⟨-, rfl⟩ := Prod.mk.inj (Except.ok.inj h)
  exact (popPresented_effect fun _ => .inl).one.then (.remove _ fun item _ hkeep => by
    simpa [Op.removes] using hkeep)

/-- Giving back the roots that a batch addresses, after their leases. -/
theorem returnRoots_effects {roots : List RootAdmission} {f : RootItem → RootItem}
    (hreturns : ∀ item, presented roots item = true → op.returns item)
    (hf : ∀ item, ∃ attempts notBefore,
      f item = { item.repend with attempts := attempts, notBefore := notBefore }) :
    Effects host op now s
      { s with
        leases := popPresented roots s
        rootQueue := s.rootQueue.map fun item =>
          if presented roots item then f item else item } := by
  refine (popPresented_effect fun item h => .inr (hreturns item h)).one.then
    (.giveBack _ fun item _ => ?_)
  by_cases hpresented : presented roots item = true
  · obtain ⟨attempts, notBefore, heq⟩ := hf item
    exact .inr ⟨⟨attempts, notBefore, by simp [hpresented, heq]⟩,
      .inr (hreturns item hpresented)⟩
  · exact .inl (by simp [hpresented])

theorem retryRoots_effects {roots : List RootAdmission} {delay : Seconds} {r : Unit}
    (h : retryRoots roots delay s now = .ok (r, s')) :
    Effects host (.retryRoots roots delay) now s s' := by
  obtain ⟨-, rfl⟩ := Prod.mk.inj (Except.ok.inj h)
  exact returnRoots_effects (fun _ => id) fun item => ⟨_, _, rfl⟩

theorem deferRoots_effects {roots : List RootAdmission} {r : Unit}
    (h : deferRoots roots s now = .ok (r, s')) :
    Effects host (.deferRoots roots) now s s' := by
  obtain ⟨-, rfl⟩ := Prod.mk.inj (Except.ok.inj h)
  exact returnRoots_effects (fun _ => id) fun item => ⟨item.attempts, item.notBefore, rfl⟩

/-! ## Notices and quiescence -/

theorem noticeScan_drawn (host : Host) (limit : Nat) (now : Seconds) (notices : List Notice)
    (drawn : Nat) (claimed : List ClaimedNotice) :
    drawn ≤ (noticeScan host limit now notices drawn claimed).2.1 := by
  induction notices generalizing drawn claimed with
  | nil => exact le_rfl
  | cons notice rest ih =>
      unfold noticeScan
      split
      · exact le_rfl
      · split
        · exact (Nat.le_succ drawn).trans (ih (drawn + 1) _)
        · exact ih drawn claimed

theorem claimNotices_effects {limit : Int} {r : List ClaimedNotice}
    (h : claimNotices host limit s now = .ok (r, s')) : Effects host op now s s' := by
  obtain ⟨-, rfl⟩ := Prod.mk.inj (Except.ok.inj h)
  refine (Effect.bookkeep ?_).one
  constructor <;> try rfl
  exact noticeScan_drawn ..

theorem finishNotice_effects {id token : String} {delivered : Bool} {r : Bool}
    (h : finishNotice id token delivered s now = .ok (r, s')) : Effects host op now s s' := by
  obtain ⟨-, rfl⟩ := Prod.mk.inj (Except.ok.inj h)
  refine (Effect.bookkeep ?_).one
  constructor <;> simp

theorem acknowledgeRuntimeQuiescent_effects {epoch : Int} {secured flushed : Option Bool}
    {pid : Option Int} {r : Bool}
    (hclaimed : ∀ item ∈ s.rootQueue, item.status = .claimed →
      s.leases.contains item.leaseId = true)
    (h : acknowledgeRuntimeQuiescent host epoch secured flushed pid s now = .ok (r, s')) :
    Effects host op now s s' := by
  unfold acknowledgeRuntimeQuiescent at h
  simp only at h
  split at h <;> rename_i hguard
  · obtain ⟨-, rfl⟩ := Prod.mk.inj (Except.ok.inj h)
    exact Effect.revoke.one
  · obtain ⟨-, rfl⟩ := Prod.mk.inj (Except.ok.inj h)
    simp only [ne_eq, not_or, not_not, List.any_eq_true, not_exists, not_and,
      RootItem.pendingContinuation, Bool.and_eq_true, decide_eq_true_eq] at hguard
    obtain ⟨hphase, hepoch, hleases, hqueue, -⟩ := hguard
    refine (Effect.acknowledge _ hphase hleases (fun item hmem => ?_) hepoch.symm).one
    have hpending : item.status = .pending := by
      cases hstatus : item.status with
      | pending => rfl
      | claimed =>
          have hlive := hclaimed item hmem hstatus
          rw [Dict.isEmpty_iff] at hleases
          simp [Dict.contains, hleases item.leaseId] at hlive
    exact ⟨hpending, by simpa using hqueue item hmem hpending⟩

theorem readState_effects {r : Unit} (h : readState s now = .ok (r, s')) :
    Effects host op now s s' := by
  obtain ⟨-, rfl⟩ := Prod.mk.inj (Except.ok.inj h)
  exact .refl _

/-! ## Assembly -/

/-- A root that is claimed after pruning names a live lease, and its claim has
not run out. -/
theorem prune_claimed {s : State} {now : Seconds} {item : RootItem}
    (hmem : item ∈ (prune s now).rootQueue) (hclaimed : item.status = .claimed) :
    (prune s now).leases.contains item.leaseId = true ∧ now < item.claimUntil := by
  rw [prune_rootQueue, List.mem_map] at hmem
  obtain ⟨old, -, rfl⟩ := hmem
  rcases pruneRoot_cases (prune s now).leases now old with ⟨heq, -, -⟩ | ⟨heq, halive⟩
  · rw [heq] at hclaimed
    simp [RootItem.repend] at hclaimed
  · rw [heq] at hclaimed ⊢
    simpa [claimAlive] using halive hclaimed

/-- The value of a wrapped mutation comes from the mutation. -/
theorem Mutation.reply_ok {α : Type} {mutate : Mutation α} {wrap : α → Reply} {r : Reply}
    (h : mutate.reply wrap s now = .ok (r, s')) :
    ∃ value, mutate s now = .ok (value, s') ∧ r = wrap value := by
  unfold Mutation.reply at h
  split at h
  · rename_i value _ heq
    obtain ⟨rfl, rfl⟩ := Prod.mk.inj (Except.ok.inj h)
    exact ⟨value, heq, rfl⟩
  · simp at h

/-- The identifier `enqueue_root` draws names no queued root. -/
def FreshDraw (host : Host) (s : State) : Prop :=
  findRoot s.rootQueue (host.uuid4 s.uuidsDrawn) = none

/-- Every claimed root names a lease of the document, as pruning leaves it. -/
def ClaimsLeased (s : State) : Prop :=
  ∀ item ∈ s.rootQueue, item.status = .claimed → s.leases.contains item.leaseId = true

theorem prune_claimsLeased (s : State) (now : Seconds) : ClaimsLeased (prune s now) :=
  fun _ hmem hclaimed => (prune_claimed hmem hclaimed).1

/-- The mutation of a call is a sequence of effects. -/
theorem mutation_effects {r : Reply} (hfresh : FreshDraw host s) (hleased : ClaimsLeased s)
    (hknown : op.Known host s.uuidsDrawn)
    (h : mutation host op s now = .ok (r, s')) : Effects host op now s s' := by
  cases op <;> simp only [mutation] at h <;> obtain ⟨value, h, -⟩ := Mutation.reply_ok h
  case requestDrain => exact requestDrain_effects h
  case cancelDrain => exact cancelDrain_effects trivial h
  case transition => exact transition_effects trivial h
  case enqueueRoot => exact enqueueRoot_effects trivial hfresh id h
  case enqueueIngressRoot => exact enqueueIngressRoot_effects trivial rfl h
  case claimPendingRoots => exact claimPendingRoots_effects id h
  case enqueueContinuation => exact enqueueContinuation_effects trivial rfl hknown h
  case heartbeat => exact heartbeat_effects rfl h
  case getActivity => exact getActivity_effects h
  case acquireActivity => exact acquireActivity_effects (fun _ => id) id h
  case adoptPrefenceActivity => exact adoptPrefenceActivity_effects trivial id h
  case release => exact release_effects rfl h
  case completeRoots => exact completeRoots_effects h
  case retryRoots => exact retryRoots_effects h
  case deferRoots => exact deferRoots_effects h
  case claimNotices => exact claimNotices_effects h
  case finishNotice => exact finishNotice_effects h
  case acknowledgeRuntimeQuiescent =>
    exact acknowledgeRuntimeQuiescent_effects hleased h
  case read => exact readState_effects h

/-- A successful call is a pruning read and a sequence of effects. -/
theorem call_effects {r : Reply} (hfresh : FreshDraw host (prune s now))
    (hknown : op.Known host s.uuidsDrawn) (h : call host op s now = .ok (r, s')) :
    Effects host .read now s (prune s now) ∧ Effects host op now (prune s now) s' :=
  ⟨prune_effects host s now,
    mutation_effects hfresh (prune_claimsLeased s now) (by rwa [prune_uuidsDrawn]) h⟩

end Maintenance
end Stemcell
