import Stemcell.Maintenance.Coordinator

/-!
# Admissions

An admission is the right to run one claimed root.  It stays in the hands of a
runner while the claim behind it may run out, be released or be given back, and
the root may then be claimed again under another admission.  This module says
when an admission is current, shows that one which is not never becomes so
again, and that settling a batch only touches the roots it is current for.

Main results:

- Theorem `current_iff_prune`: an admission is current exactly if the pruned
  document still holds its root under its claim.
- Theorem `reply_issued`: the admissions a call hands out carry new and distinct
  claim tokens.
- Theorem `stale_step`: a stale admission stays stale.
- Theorem `settling_untouched`: settling a batch leaves every other root and its
  lease alone.
-/

namespace Stemcell
namespace Maintenance

open Lib

/-! ## Current admissions -/

/-- The admission carries the root's queue id, claim token and lease id. -/
def RootAdmission.Names (a : RootAdmission) (item : RootItem) : Prop :=
  item.queueId = a.queueId ∧ item.claimToken = a.claimToken ∧
    item.leaseId = a.activity.leaseId

/-- A claimed root of the document carries this admission. -/
def Addresses (s : State) (a : RootAdmission) : Prop :=
  ∃ item ∈ s.rootQueue, item.status = .claimed ∧ a.Names item

/-- The admission is current: its root is claimed under it, and neither the
claim nor the lease has run out. -/
def Current (s : State) (now : Seconds) (a : RootAdmission) : Prop :=
  ∃ item ∈ s.rootQueue, item.status = .claimed ∧ a.Names item ∧ now < item.claimUntil ∧
    ∃ lease, s.leases.get? item.leaseId = some lease ∧ now < lease.expiresAt

variable {host : Host} {op : Op} {now t : Seconds} {s s' : State} {a b : RootAdmission}

/-- An admission that is current later was current before, the document unchanged. -/
theorem Current.anti (h : Current s now a) (ht : t ≤ now) : Current s t a := by
  obtain ⟨item, hmem, hclaimed, hnames, huntil, lease, hget, hexpires⟩ := h
  exact ⟨item, hmem, hclaimed, hnames, ht.trans_lt huntil, lease, hget, ht.trans_lt hexpires⟩

/-- A root that is claimed after pruning was stored so, and pruning found its
claim and its lease alive. -/
theorem claimed_of_prune {item : RootItem} (hmem : item ∈ (prune s now).rootQueue)
    (hclaimed : item.status = .claimed) :
    item ∈ s.rootQueue ∧ now < item.claimUntil ∧
      ∃ lease, s.leases.get? item.leaseId = some lease ∧ now < lease.expiresAt := by
  obtain ⟨hlive, huntil⟩ := prune_claimed hmem hclaimed
  rw [prune_rootQueue, List.mem_map] at hmem
  obtain ⟨old, hold, rfl⟩ := hmem
  rcases pruneRoot_cases (prune s now).leases now old with ⟨heq, -, -⟩ | ⟨heq, -⟩
  · rw [heq] at hclaimed
    simp [RootItem.repend] at hclaimed
  · rw [heq] at hlive huntil ⊢
    rw [prune_leases, Dict.contains_iff] at hlive
    obtain ⟨lease, hget⟩ := hlive
    rw [Dict.get?_filter_eq_some_iff, decide_eq_true_eq] at hget
    exact ⟨hold, huntil, lease, hget.1, hget.2⟩

/-- Pruning keeps a claimed root whose claim and lease are alive. -/
theorem mem_prune_of_alive {item : RootItem} {lease : Lease} (hmem : item ∈ s.rootQueue)
    (huntil : now < item.claimUntil) (hget : s.leases.get? item.leaseId = some lease)
    (hexpires : now < lease.expiresAt) : item ∈ (prune s now).rootQueue := by
  rw [prune_rootQueue, List.mem_map]
  refine ⟨item, hmem, ?_⟩
  have halive : claimAlive (prune s now).leases now item = true := by
    have hcontains : (prune s now).leases.contains item.leaseId = true := by
      rw [Dict.contains_iff, prune_leases]
      refine ⟨lease, ?_⟩
      rw [Dict.get?_filter_eq_some_iff]
      exact ⟨hget, by simpa using hexpires⟩
    simp only [claimAlive, hcontains, huntil, decide_true, Bool.and_self]
  simp only [pruneRoot, halive, not_true_eq_false, and_false, if_false]

/-- An admission is current exactly if pruning leaves its root claimed under it. -/
theorem current_iff_prune : Current s now a ↔ Addresses (prune s now) a := by
  constructor
  · rintro ⟨item, hmem, hclaimed, hnames, huntil, lease, hget, hexpires⟩
    exact ⟨item, mem_prune_of_alive hmem huntil hget hexpires, hclaimed, hnames⟩
  · rintro ⟨item, hmem, hclaimed, hnames⟩
    obtain ⟨hold, huntil, lease, hget, hexpires⟩ := claimed_of_prune hmem hclaimed
    exact ⟨item, hold, hclaimed, hnames, huntil, lease, hget, hexpires⟩

/-! ## Stale admissions stay stale -/

/-- No effect puts a root back under a claim token that was drawn before. -/
theorem addresses_effect (hdrawn : Drawn host s.uuidsDrawn a.claimToken)
    (heff : Effect host op now s s') (h : Addresses s' a) : Addresses s a := by
  obtain ⟨item, hmem, hclaimed, hqueue, htoken, hlease⟩ := h
  cases heff with
  | bookkeep hcore => exact ⟨item, hcore.rootQueue ▸ hmem, hclaimed, hqueue, htoken, hlease⟩
  | beat leaseId lease expiresAt _ _ =>
      obtain ⟨old, hold, rfl⟩ := List.mem_map.mp hmem
      split at hclaimed <;> rename_i hid
      · simp only [hid, if_true] at hqueue htoken hlease
        exact ⟨old, hold, hclaimed, hqueue, htoken, hid.trans hlease⟩
      · simp only [hid, if_false] at hqueue htoken hlease
        exact ⟨old, hold, hclaimed, hqueue, htoken, hlease⟩
  | enqueue new henters _ =>
      rcases List.mem_append.mp hmem with hmem | hmem
      · exact ⟨item, hmem, hclaimed, hqueue, htoken, hlease⟩
      · simp [List.mem_singleton.mp hmem, henters.pending] at hclaimed
  | transfer new leaseId lease henters _ _ _ =>
      rcases List.mem_append.mp hmem with hmem | hmem
      · exact ⟨item, hmem, hclaimed, hqueue, htoken, hlease⟩
      · simp [List.mem_singleton.mp hmem, henters.pending] at hclaimed
  | claim before after old hold _ _ _ =>
      have hcases : item ∈ s.rootQueue ∨ item = claimedRoot host s old now := by
        rw [hold]
        simp only [List.mem_append, List.mem_cons] at hmem ⊢
        tauto
      rcases hcases with hmem | rfl
      · exact ⟨item, hmem, hclaimed, hqueue, htoken, hlease⟩
      · exact absurd htoken (hdrawn.ne_uuid4 le_rfl)
  | giveBack f hf =>
      obtain ⟨old, hold, rfl⟩ := List.mem_map.mp hmem
      rcases hf old hold with heq | ⟨⟨attempts, notBefore, heq⟩, -⟩
      · rw [heq] at hclaimed hqueue htoken hlease
        exact ⟨old, hold, hclaimed, hqueue, htoken, hlease⟩
      · rw [heq] at hclaimed
        simp [RootItem.repend] at hclaimed
  | remove keep _ =>
      exact ⟨item, (List.mem_filter.mp hmem).1, hclaimed, hqueue, htoken, hlease⟩
  | raiseFence => exact ⟨item, hmem, hclaimed, hqueue, htoken, hlease⟩
  | reopen => exact ⟨item, hmem, hclaimed, hqueue, htoken, hlease⟩
  | advance => exact ⟨item, hmem, hclaimed, hqueue, htoken, hlease⟩
  | revoke => exact ⟨item, hmem, hclaimed, hqueue, htoken, hlease⟩
  | acknowledge => exact ⟨item, hmem, hclaimed, hqueue, htoken, hlease⟩
  | dropLeases => exact ⟨item, hmem, hclaimed, hqueue, htoken, hlease⟩
  | openLease => exact ⟨item, hmem, hclaimed, hqueue, htoken, hlease⟩
  | receipts => exact ⟨item, hmem, hclaimed, hqueue, htoken, hlease⟩

theorem addresses_effects (hdrawn : Drawn host s.uuidsDrawn a.claimToken)
    (heffs : Effects host op now s s') (h : ¬ Addresses s a) : ¬ Addresses s' a := by
  have hboth : Drawn host s'.uuidsDrawn a.claimToken ∧ ¬ Addresses s' a := by
    refine heffs.invariant
      (I := fun s => Drawn host s.uuidsDrawn a.claimToken ∧ ¬ Addresses s a) ?_ ⟨hdrawn, h⟩
    intro p q heff hp
    exact ⟨hp.1.mono heff.uuidsDrawn_le, fun hq => hp.2 (addresses_effect hp.1 heff hq)⟩
  exact hboth.2

/-! ## Issued admissions -/

/-- These admissions carry distinct claim tokens, drawn from the `m`-th to before
the `n`-th draw.  Their lease is drawn right after the token. -/
structure Issued (host : Host) (m n : Nat) (roots : List RootAdmission) : Prop where
  nodup : (roots.map RootAdmission.claimToken).Nodup
  drawn : ∀ a ∈ roots, ∃ k, m ≤ k ∧ k < n ∧ a.claimToken = host.uuid4 k ∧
    a.activity.leaseId = host.uuid4 (k + 1)

theorem issued_nil (host : Host) (m n : Nat) : Issued host m n [] where
  nodup := List.nodup_nil
  drawn := by simp

theorem Issued.mono {m n p : Nat} {roots : List RootAdmission} (h : Issued host m n roots)
    (hle : n ≤ p) : Issued host m p roots where
  nodup := h.nodup
  drawn a ha := by
    obtain ⟨k, hm, hn, heq⟩ := h.drawn a ha
    exact ⟨k, hm, by omega, heq⟩

/-- Later draws join earlier ones. -/
theorem Issued.append {m n p : Nat} {xs ys : List RootAdmission} (hxs : Issued host m n xs)
    (hys : Issued host n p ys) (hmn : m ≤ n) (hnp : n ≤ p) : Issued host m p (xs ++ ys) where
  nodup := by
    rw [List.map_append, List.nodup_append]
    refine ⟨hxs.nodup, hys.nodup, ?_⟩
    rintro x hx y hy rfl
    obtain ⟨a, ha, hax⟩ := List.mem_map.mp hx
    obtain ⟨b, hb, hbx⟩ := List.mem_map.mp hy
    obtain ⟨k, -, hk, hak, -⟩ := hxs.drawn a ha
    obtain ⟨k', hk', -, hbk, -⟩ := hys.drawn b hb
    have heq : k = k' := host.uuid4_injective (by rw [← hak, ← hbk, hax, hbx])
    omega
  drawn c hc := by
    rcases List.mem_append.mp hc with hc | hc
    · obtain ⟨k, hm, hn, heq⟩ := hxs.drawn c hc
      exact ⟨k, hm, by omega, heq⟩
    · obtain ⟨k, hm, hn, heq⟩ := hys.drawn c hc
      exact ⟨k, by omega, hn, heq⟩

theorem claimRootItem_single (host : Host) (s : State) (item : RootItem) (now : Seconds) :
    Issued host s.uuidsDrawn (s.uuidsDrawn + 2) [(claimRootItem host s item now).1] where
  nodup := List.nodup_singleton _
  drawn a ha := by
    rw [List.mem_singleton.mp ha]
    exact ⟨s.uuidsDrawn, le_rfl, by omega, rfl, rfl⟩

/-- The claim loop hands out new and distinct claim tokens. -/
theorem claimScan_issued {limit : Nat} {unique : Bool} {m : Nat} (queue : List RootItem)
    (p : ClaimProgress) (hp : Issued host m p.state.uuidsDrawn p.admissions)
    (hm : m ≤ p.state.uuidsDrawn) :
    let scanned := claimScan host limit unique now queue p
    m ≤ scanned.2.state.uuidsDrawn ∧
      Issued host m scanned.2.state.uuidsDrawn scanned.2.admissions := by
  induction queue generalizing p with
  | nil => exact ⟨hm, hp⟩
  | cons item rest ih =>
      unfold claimScan
      split
      · exact ⟨hm, hp⟩
      · split
        · have hdrawn := (claimRootItem_frame host p.state item now).2.2
          refine ih _ ?_ ?_
          · simp only [hdrawn]
            exact hp.append (claimRootItem_single host p.state item now) hm (by omega)
          · simp only [hdrawn]
            omega
        · exact ih p hp hm

/-- Which calls hand out admissions. -/
theorem reply_roots_cases {r : Reply} (h : mutation host op s now = .ok (r, s'))
    (hne : r.roots ≠ []) :
    (∃ contact context admitRoot, op = .enqueueRoot contact context admitRoot) ∨
      ∃ limit excluded unique, op = .claimPendingRoots limit excluded unique := by
  cases op <;> simp only [mutation] at h <;> obtain ⟨value, -, rfl⟩ := Mutation.reply_ok h
  case enqueueRoot contact context admitRoot => exact .inl ⟨contact, context, admitRoot, rfl⟩
  case claimPendingRoots limit excluded unique => exact .inr ⟨limit, excluded, unique, rfl⟩
  all_goals exact absurd rfl hne

/-- The admissions a mutation hands out carry new and distinct claim tokens. -/
theorem reply_issued {r : Reply} (h : mutation host op s now = .ok (r, s'))
    (hdrawn : s.uuidsDrawn ≤ s'.uuidsDrawn) :
    Issued host s.uuidsDrawn s'.uuidsDrawn r.roots := by
  by_cases hne : r.roots = []
  · rw [hne]
    exact issued_nil _ _ _
  rcases reply_roots_cases h hne with ⟨contact, context, admitRoot, rfl⟩ |
    ⟨limit, excluded, unique, rfl⟩
  · simp only [mutation] at h
    obtain ⟨value, hvalue, rfl⟩ := Mutation.reply_ok h
    unfold enqueueRoot at hvalue
    simp only at hvalue
    split at hvalue
    · obtain ⟨rfl, rfl⟩ := Prod.mk.inj (Except.ok.inj hvalue)
      simp only [Reply.roots, Option.toList_some, (claimRootItem_frame _ _ _ _).2.2]
      have hone := claimRootItem_single host { s with uuidsDrawn := s.uuidsDrawn + 1 }
        (pendingRoot { s with uuidsDrawn := s.uuidsDrawn + 1 } now
          (host.uuid4 s.uuidsDrawn) contact context none) now
      exact (issued_nil host s.uuidsDrawn (s.uuidsDrawn + 1)).append hone (Nat.le_succ _)
        (Nat.le_add_right _ 2)
    · split at hvalue
      · obtain ⟨rfl, rfl⟩ := Prod.mk.inj (Except.ok.inj hvalue)
        exact absurd rfl hne
      · obtain ⟨rfl, rfl⟩ := Prod.mk.inj (Except.ok.inj hvalue)
        exact absurd rfl hne
  · simp only [mutation] at h
    obtain ⟨value, hvalue, rfl⟩ := Mutation.reply_ok h
    unfold claimPendingRoots at hvalue
    split at hvalue
    · obtain ⟨rfl, rfl⟩ := Prod.mk.inj (Except.ok.inj hvalue)
      exact absurd rfl hne
    · obtain ⟨rfl, rfl⟩ := Prod.mk.inj (Except.ok.inj hvalue)
      exact (claimScan_issued s.rootQueue ⟨s, [], excluded⟩ (issued_nil _ _ _) le_rfl).2

/-- Everything handed out so far carries distinct drawn claim tokens. -/
theorem reachable_issued {w : World} (h : (coordinator host).Reachable w) :
    Issued host 0 w.state.uuidsDrawn w.admissions := by
  refine h.invariant (I := fun w => Issued host 0 w.state.uuidsDrawn w.admissions) ?_ ?_
  · rintro _ ⟨t, rfl⟩
    exact issued_nil _ _ _
  · intro w e w' hreach hissued hstep
    have hwf := reachable_wellFormed hreach
    rcases step_cases hstep with rfl | ⟨r, s', hcall, rfl⟩
    · exact hissued
    · have heffs := (hwf.call_effects hstep.2.1 hcall).2
      have hle := heffs.uuidsDrawn_le
      have hnew := reply_issued hcall hle
      rw [prune_uuidsDrawn] at hnew hle
      exact hissued.append hnew (Nat.zero_le _) hle

theorem Issued.token_drawn {n : Nat} {roots : List RootAdmission} (h : Issued host 0 n roots)
    (ha : a ∈ roots) : Drawn host n a.claimToken := by
  obtain ⟨k, -, hk, heq, -⟩ := h.drawn a ha
  exact ⟨k, hk, heq.symm⟩

/-- An admission is known by its claim token. -/
theorem Issued.eq_of_token {m n : Nat} {roots : List RootAdmission} (h : Issued host m n roots)
    (ha : a ∈ roots) (hb : b ∈ roots) (heq : a.claimToken = b.claimToken) : a = b :=
  List.inj_on_of_nodup_map h.nodup ha hb heq

/-- An admission is known by its lease. -/
theorem Issued.eq_of_lease {m n : Nat} {roots : List RootAdmission} (h : Issued host m n roots)
    (ha : a ∈ roots) (hb : b ∈ roots) (heq : a.activity.leaseId = b.activity.leaseId) :
    a = b := by
  obtain ⟨k, -, -, hak, hal⟩ := h.drawn a ha
  obtain ⟨l, -, -, hbl, hbl'⟩ := h.drawn b hb
  have hkl : k + 1 = l + 1 := host.uuid4_injective (by rw [← hal, ← hbl', heq])
  refine h.eq_of_token ha hb ?_
  rw [hak, hbl, Nat.succ.inj hkl]

/-- A step takes back no draw. -/
theorem step_uuidsDrawn {w w' : World} {e : Event} (hreach : (coordinator host).Reachable w)
    (hstep : (coordinator host).step w e w') : w.state.uuidsDrawn ≤ w'.state.uuidsDrawn := by
  rcases step_cases hstep with rfl | ⟨r, s', hcall, rfl⟩
  · exact le_rfl
  · have heffs := ((reachable_wellFormed hreach).call_effects hstep.2.1 hcall).2
    simpa using heffs.uuidsDrawn_le

/-- A step takes back no admission. -/
theorem step_admissions {w w' : World} {e : Event} (hstep : (coordinator host).step w e w')
    (ha : a ∈ w.admissions) : a ∈ w'.admissions := by
  rcases step_cases hstep with rfl | ⟨r, s', -, rfl⟩
  · exact ha
  · exact List.mem_append_left _ ha

/-- An admission that is stale at the time of a step is stale after it. -/
theorem stale_at_step {w w' : World} {e : Event} (hreach : (coordinator host).Reachable w)
    (hstep : (coordinator host).step w e w')
    (hdrawn : Drawn host w.state.uuidsDrawn a.claimToken)
    (hstale' : ¬ Current w.state e.time a) : ¬ Current w'.state w'.now a := by
  rcases step_cases hstep with rfl | ⟨r, s', hcall, rfl⟩
  · exact hstale'
  · have heffs := ((reachable_wellFormed hreach).call_effects hstep.2.1 hcall).2
    rw [current_iff_prune] at hstale' ⊢
    have hsettled := addresses_effects (by rwa [prune_uuidsDrawn]) heffs hstale'
    refine addresses_effects ?_ (prune_effects host s' e.time) hsettled
    exact hdrawn.mono (by simpa using heffs.uuidsDrawn_le)

/-- One step keeps a stale admission stale. -/
theorem stale_step {w w' : World} {e : Event} (hreach : (coordinator host).Reachable w)
    (hstep : (coordinator host).step w e w')
    (hdrawn : Drawn host w.state.uuidsDrawn a.claimToken)
    (hstale : ¬ Current w.state w.now a) : ¬ Current w'.state w'.now a :=
  stale_at_step hreach hstep hdrawn fun h => hstale (h.anti hstep.1)

/-- A stale admission stays stale along every run. -/
theorem stale_run {w w' : World} {es : List Event} (hreach : (coordinator host).Reachable w)
    (hrun : (coordinator host).Run w es w') (ha : a ∈ w.admissions)
    (hstale : ¬ Current w.state w.now a) : ¬ Current w'.state w'.now a := by
  have hboth : a ∈ w'.admissions ∧ ¬ Current w'.state w'.now a := by
    refine hrun.invariant (I := fun v => a ∈ v.admissions ∧ ¬ Current v.state v.now a) hreach
      ?_ ⟨ha, hstale⟩
    intro v e v' hv hboth hstep
    have hdrawn := (reachable_issued hv).token_drawn hboth.1
    exact ⟨step_admissions hstep hboth.1, stale_step hv hstep hdrawn hboth.2⟩
  exact hboth.2

/-! ## Settling a batch -/

/-- The batch a call settles. -/
def Op.batch : Op → Option (List RootAdmission)
  | .completeRoots roots => some roots
  | .retryRoots roots _ => some roots
  | .deferRoots roots => some roots
  | _ => none

/-- A key of the batch's table is carried by one of its admissions. -/
theorem presentedKeys_get? {roots : List RootAdmission} {queueId : String}
    {key : String × String} (h : (presentedKeys roots).get? queueId = some key) :
    ∃ a ∈ roots, a.queueId = queueId ∧ (a.claimToken, a.activity.leaseId) = key := by
  suffices hacc : ∀ acc : Dict String (String × String),
      (roots.foldl (fun keys a => keys.set a.queueId (a.claimToken, a.activity.leaseId))
          acc).get? queueId = some key →
        acc.get? queueId = some key ∨
          ∃ a ∈ roots, a.queueId = queueId ∧ (a.claimToken, a.activity.leaseId) = key by
    rcases hacc .empty h with hempty | hroot
    · simp at hempty
    · exact hroot
  clear h
  induction roots with
  | nil => exact fun acc h => .inl h
  | cons a rest ih =>
      intro acc h
      rcases ih _ h with hset | ⟨b, hb, hkey⟩
      · rw [Dict.get?_set] at hset
        split at hset <;> rename_i hid
        · exact .inr ⟨a, List.mem_cons_self, hid, Option.some.inj hset⟩
        · exact .inl hset
      · exact .inr ⟨b, List.mem_cons_of_mem a hb, hkey⟩

/-- A root that a batch addresses is named by one of its admissions. -/
theorem names_of_presented {roots : List RootAdmission} {item : RootItem}
    (h : presented roots item = true) : ∃ a ∈ roots, a.Names item := by
  rw [presented, decide_eq_true_eq] at h
  obtain ⟨a, ha, hid, hkey⟩ := presentedKeys_get? h
  obtain ⟨htoken, hlease⟩ := Prod.mk.inj hkey
  exact ⟨a, ha, hid.symm, htoken.symm, hlease.symm⟩

/-- A drawn claim token only names claimed roots. -/
theorem claimed_of_names {item : RootItem} (hwf : WellFormed host s)
    (hdrawn : Drawn host s.uuidsDrawn a.claimToken) (hmem : item ∈ s.rootQueue)
    (hnames : a.Names item) : item.status = .claimed := by
  cases hstatus : item.status with
  | claimed => rfl
  | pending =>
      have hblank := (hwf.pendingBlank item hmem hstatus).1
      exact absurd (hnames.2.1 ▸ hblank) hdrawn.ne_empty

/-- A batch addresses a root that one of its admissions names, unless another one
of them stands for the same root. -/
theorem presented_of_names {roots : List RootAdmission} {item : RootItem} (ha : a ∈ roots)
    (halone : ∀ b ∈ roots, b.queueId = a.queueId → b = a) (hnames : a.Names item) :
    presented roots item = true := by
  suffices hacc : ∀ acc : Dict String (String × String),
      a ∈ roots ∨ acc.get? a.queueId = some (a.claimToken, a.activity.leaseId) →
      (roots.foldl (fun keys a => keys.set a.queueId (a.claimToken, a.activity.leaseId))
        acc).get? a.queueId = some (a.claimToken, a.activity.leaseId) by
    rw [presented, decide_eq_true_eq, hnames.1, hnames.2.1, hnames.2.2]
    exact hacc _ (.inl ha)
  clear ha
  induction roots with
  | nil =>
      rintro acc (hnil | hget)
      · cases hnil
      · exact hget
  | cons b rest ih =>
      intro acc hacc
      rw [List.foldl_cons]
      refine ih (fun c hc => halone c (List.mem_cons_of_mem _ hc)) _ ?_
      by_cases hid : b.queueId = a.queueId
      · right
        rw [halone b List.mem_cons_self hid, Dict.get?_set_self]
      · rcases hacc with hmem | hget
        · rcases List.mem_cons.mp hmem with heq | hrest
          · exact absurd (heq ▸ rfl) hid
          · exact .inl hrest
        · right
          rw [Dict.get?_set_of_ne _ _ hid]
          exact hget

/-- A stale issued admission names no root of the pruned document. -/
theorem stale_names {w : World} {a : RootAdmission} {item : RootItem}
    (h : (coordinator host).Reachable w) (ha : a ∈ w.admissions)
    (hstale : ¬ Current w.state t a) (hmem : item ∈ (prune w.state t).rootQueue) :
    ¬ a.Names item := by
  intro hnames
  have hdrawn := (reachable_issued h).token_drawn ha
  have hclaimed := claimed_of_names ((reachable_wellFormed h).prune t)
    (by rwa [prune_uuidsDrawn]) hmem hnames
  exact hstale (current_iff_prune.mpr ⟨item, hmem, hclaimed, hnames⟩)

/-- The queue and the leases after a batch is settled. -/
theorem settling_ok {roots : List RootAdmission} (hop : op.batch = some roots) :
    ∃ r s', mutation host op s now = .ok (r, s') := by
  cases op <;> simp only [Op.batch, reduceCtorEq] at hop
  · exact ⟨_, _, rfl⟩
  · exact ⟨_, _, rfl⟩
  · exact ⟨_, _, rfl⟩

/-- A root the batch does not address stays in the queue as it is, and so does
the lease of a claimed one. -/
theorem settling_untouched {roots : List RootAdmission} {r : Reply} {item : RootItem}
    (hwf : WellFormed host s) (hop : op.batch = some roots)
    (h : mutation host op s now = .ok (r, s')) (hmem : item ∈ s.rootQueue)
    (hnot : presented roots item = false) :
    item ∈ s'.rootQueue ∧
      (item.status = .claimed → s'.leases.get? item.leaseId = s.leases.get? item.leaseId) := by
  have hlease : item.status = .claimed →
      (popPresented roots s).get? item.leaseId = s.leases.get? item.leaseId := by
    intro hclaimed
    have hkeep : item.leaseId ∉ (s.rootQueue.filter (presented roots)).map RootItem.leaseId := by
      intro hin
      obtain ⟨other, hother, hid⟩ := List.mem_map.mp hin
      rw [List.mem_filter] at hother
      -- The other root holds the same drawn lease, so it is this root.
      have hdrawn := (hwf.claimDrawn item hmem hclaimed).2
      have hclaimed' : other.status = .claimed := by
        cases hstatus : other.status with
        | claimed => rfl
        | pending =>
            have hblank := (hwf.pendingBlank other hother.1 hstatus).2
            exact absurd (hid.symm.trans hblank) hdrawn.ne_empty
      have hqueue := hwf.claimsDistinct other hother.1 item hmem hclaimed' hclaimed (.inr hid)
      rw [hwf.root_unique hother.1 hmem hqueue, hnot] at hother
      exact absurd hother.2 (by simp)
    rw [popPresented, Dict.get?_filter]
    cases s.leases.get? item.leaseId with
    | none => rfl
    | some lease => simp only [Option.filter_some, hkeep, not_false_eq_true, decide_true, if_true]
  cases op <;> simp only [Op.batch, reduceCtorEq, Option.some.injEq] at hop
  all_goals
    replace hop := hop.symm
    subst hop
    simp only [mutation] at h
    obtain ⟨value, h, -⟩ := Mutation.reply_ok h
    obtain ⟨-, rfl⟩ := Prod.mk.inj (Except.ok.inj h)
  · exact ⟨List.mem_filter.mpr ⟨hmem, by simp [hnot]⟩, hlease⟩
  · exact ⟨List.mem_map.mpr ⟨item, hmem, by simp [hnot]⟩, hlease⟩
  · exact ⟨List.mem_map.mpr ⟨item, hmem, by simp [hnot]⟩, hlease⟩

/-- A batch that addresses no root changes nothing. -/
theorem settling_idle {roots : List RootAdmission} {r : Reply} (hop : op.batch = some roots)
    (h : mutation host op s now = .ok (r, s'))
    (hnone : ∀ item ∈ s.rootQueue, presented roots item = false) : s' = s := by
  have hleases : popPresented roots s = s.leases := by
    have hempty : s.rootQueue.filter (presented roots) = [] := by
      rw [List.filter_eq_nil_iff]
      exact fun item hmem => by simp [hnone item hmem]
    rw [popPresented, hempty]
    exact s.leases.filter_eq_self (by simp)
  cases op <;> simp only [Op.batch, reduceCtorEq, Option.some.injEq] at hop
  all_goals
    replace hop := hop.symm
    subst hop
    simp only [mutation] at h
    obtain ⟨value, h, -⟩ := Mutation.reply_ok h
    obtain ⟨-, rfl⟩ := Prod.mk.inj (Except.ok.inj h)
    rw [hleases]
  · have hqueue : s.rootQueue.filter (fun item => decide ¬ presented roots item = true) =
        s.rootQueue :=
      List.filter_eq_self.mpr fun item hmem => by simp [hnone item hmem]
    rw [hqueue]
  · rw [List.map_congr_left (g := id) fun item hmem => by simp [hnone item hmem], List.map_id]
  · rw [List.map_congr_left (g := id) fun item hmem => by simp [hnone item hmem], List.map_id]

/-- A batch ends the admission that names a root it addresses. -/
theorem settling_ends {roots : List RootAdmission} {r : Reply} {item : RootItem}
    (hwf : WellFormed host s) (hop : op.batch = some roots)
    (h : mutation host op s now = .ok (r, s')) (hmem : item ∈ s.rootQueue)
    (hpresented : presented roots item = true) (hnames : a.Names item) :
    ¬ Addresses s' a := by
  -- A root of the old queue with this id is the addressed one.
  have hsame : ∀ old ∈ s.rootQueue, old.queueId = a.queueId → presented roots old = true := by
    intro old hold hid
    rwa [hwf.root_unique hold hmem (hid.trans hnames.1.symm)]
  rintro ⟨new, hnew, hclaimed, hid, -, -⟩
  cases op <;> simp only [Op.batch, reduceCtorEq, Option.some.injEq] at hop
  all_goals
    replace hop := hop.symm
    subst hop
    simp only [mutation] at h
    obtain ⟨value, h, -⟩ := Mutation.reply_ok h
    obtain ⟨-, rfl⟩ := Prod.mk.inj (Except.ok.inj h)
  · obtain ⟨hold, hkeep⟩ := List.mem_filter.mp hnew
    simp [hsame new hold hid] at hkeep
  · obtain ⟨old, hold, rfl⟩ := List.mem_map.mp hnew
    have hold' : old.queueId = a.queueId := by
      rw [← hid]
      split <;> rfl
    simp [hsame old hold hold', RootItem.repend] at hclaimed
  · obtain ⟨old, hold, rfl⟩ := List.mem_map.mp hnew
    have hold' : old.queueId = a.queueId := by
      rw [← hid]
      split <;> rfl
    simp [hsame old hold hold', RootItem.repend] at hclaimed

end Maintenance
end Stemcell
