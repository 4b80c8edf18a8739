import Stemcell.Maintenance.Coordinator

/-!
# Activity tokens

Descendant work is let through the update fence on the strength of its parent's
activity token.  A token is only a copy: the lease it was made from may be
gone.  This module shows that a token the coordinator issued never misdescribes
a lease that is still there.

Main results:

- Theorem `lease_effect`: no effect changes the lineage or the epoch of a lease.
- Theorem `reachable_tokensMatch`: an issued token whose lease is live carries
  the lineage and the epoch of that lease.
-/

namespace Stemcell
namespace Maintenance

open Lib

/-- The token was made from a drawn lease id, and agrees with the lease that the
document holds under it. -/
structure TokenMatches (host : Host) (s : State) (token : ActivityToken) : Prop where
  drawn : Drawn host s.uuidsDrawn token.leaseId
  lease : ∀ lease, s.leases.get? token.leaseId = some lease →
    token.lineageId = lease.lineageId ∧ token.admittedEpoch = lease.admittedEpoch

/-- Leases under drawn ids of `s'` come from leases of `s` with the same lineage
and epoch. -/
def LeasesFrom (host : Host) (s s' : State) : Prop :=
  ∀ id lease', Drawn host s.uuidsDrawn id → s'.leases.get? id = some lease' →
    ∃ lease, s.leases.get? id = some lease ∧ lease'.lineageId = lease.lineageId ∧
      lease'.admittedEpoch = lease.admittedEpoch

variable {host : Host} {op : Op} {now : Seconds} {s s' : State} {token : ActivityToken}

theorem TokenMatches.from (h : TokenMatches host s token)
    (hdrawn : s.uuidsDrawn ≤ s'.uuidsDrawn) (hleases : LeasesFrom host s s') :
    TokenMatches host s' token where
  drawn := h.drawn.mono hdrawn
  lease lease' hget := by
    rcases hleases _ lease' h.drawn hget with ⟨lease, hold, hlineage, hepoch⟩
    have hsame := h.lease lease hold
    exact ⟨hsame.1.trans hlineage.symm, hsame.2.trans hepoch.symm⟩

theorem leasesFrom_refl (host : Host) (s : State) : LeasesFrom host s s :=
  fun _ lease _ hget => ⟨lease, hget, rfl, rfl⟩

/-- Dropping leases invents none. -/
theorem leasesFrom_filter {keep : String → Lease → Bool}
    (h : s'.leases = s.leases.filter keep) : LeasesFrom host s s' := by
  intro id lease _ hget
  rw [h, Dict.get?_filter_eq_some_iff] at hget
  exact ⟨lease, hget.1, rfl, rfl⟩

/-- A lease under a new draw is not under an old one. -/
theorem leasesFrom_set {k : Nat} {lease : Lease} (hk : s.uuidsDrawn ≤ k)
    (h : s'.leases = s.leases.set (host.uuid4 k) lease) : LeasesFrom host s s' := by
  intro id lease' hdrawn hget
  rw [h, Dict.get?_set_of_ne _ _ (hdrawn.ne_uuid4 hk)] at hget
  exact ⟨lease', hget, rfl, rfl⟩

/-- No effect changes the lineage or the epoch of a lease. -/
theorem lease_effect (heff : Effect host op now s s') : LeasesFrom host s s' := by
  cases heff with
  | bookkeep hcore =>
      intro id lease _ hget
      rw [hcore.leases] at hget
      exact ⟨lease, hget, rfl, rfl⟩
  | dropLeases keep _ => exact leasesFrom_filter rfl
  | transfer item leaseId lease _ _ _ _ =>
      intro id lease' _ hget
      rw [Dict.get?_pop_eq_some_iff] at hget
      exact ⟨lease', hget.2, rfl, rfl⟩
  | openLease lease _ _ _ => exact leasesFrom_set le_rfl rfl
  | claim before after item _ _ _ _ => exact leasesFrom_set (Nat.le_succ _) rfl
  | beat leaseId lease expiresAt _ hold =>
      intro id lease' _ hget
      rw [Dict.get?_set] at hget
      by_cases hid : leaseId = id
      · rw [if_pos hid, Option.some.injEq] at hget
        subst hget
        exact ⟨lease, hid ▸ hold, rfl, rfl⟩
      · rw [if_neg hid] at hget
        exact ⟨lease', hget, rfl, rfl⟩
  | raiseFence => exact leasesFrom_refl host _
  | reopen => exact leasesFrom_refl host _
  | advance => exact leasesFrom_refl host _
  | revoke => exact leasesFrom_refl host _
  | acknowledge => exact leasesFrom_refl host _
  | enqueue => exact leasesFrom_refl host _
  | giveBack => exact leasesFrom_refl host _
  | remove => exact leasesFrom_refl host _
  | receipts => exact leasesFrom_refl host _

theorem TokenMatches.effects (h : TokenMatches host s token)
    (heffs : Effects host op now s s') : TokenMatches host s' token :=
  heffs.invariant (I := fun s => TokenMatches host s token)
    (fun _ _ heff hm => hm.from (heff.uuidsDrawn_le) (lease_effect heff)) h

/-! ## Tokens of an answer -/

/-- The token of a new lease. -/
theorem newLease_matches {kind activity contact lineage parent : String} {epoch : Nat}
    {ttl : Seconds} :
    let opened := newLease host s now kind activity contact epoch lineage parent ttl
    TokenMatches host opened.2 opened.1 ∧ opened.1.lineageId ≠ "" := by
  have hlineage : orElse lineage (host.uuid4 s.uuidsDrawn) ≠ "" :=
    orElse_ne_empty (host.uuid4_ne_empty _)
  refine ⟨⟨drawn_uuid4 host (Nat.lt_succ_self _), ?_⟩, ?_⟩
  · intro lease hget
    have hself : lease = makeLease host now kind activity contact epoch lineage parent ttl
        (host.uuid4 s.uuidsDrawn) := by
      have hset : (newLease host s now kind activity contact epoch lineage parent
          ttl).2.leases.get? (host.uuid4 s.uuidsDrawn) = some lease := hget
      simpa [newLease, addLease] using hset.symm
    subst hself
    constructor
    · simp only [newLease, addLease, tokenFromLease, makeLease]
      rw [orElse, if_neg hlineage]
    · rfl
  · simp only [newLease, addLease, tokenFromLease, makeLease]
    exact orElse_ne_empty (host.uuid4_ne_empty _)

/-- Claiming one root invents no lease under an old id. -/
theorem claimRootItem_leases (host : Host) (s : State) (item : RootItem) (now : Seconds) :
    LeasesFrom host s (claimRootItem host s item now).2.2 := by
  intro id lease' hdrawn hget
  have hne := hdrawn.ne_uuid4 (Nat.le_succ s.uuidsDrawn)
  unfold claimRootItem newLease addLease at hget
  simp only at hget
  by_cases htransfer : item.transferLeaseId = ""
  · rw [if_pos htransfer, Dict.get?_set_of_ne _ _ hne] at hget
    exact ⟨lease', hget, rfl, rfl⟩
  · rw [if_neg htransfer, Dict.get?_pop_eq_some_iff, Dict.get?_set_of_ne _ _ hne] at hget
    exact ⟨lease', hget.2, rfl, rfl⟩

/-- The token of a claim. -/
theorem claimRootItem_matches (host : Host) (s : State) (item : RootItem) (now : Seconds) :
    TokenMatches host (claimRootItem host s item now).2.2
      (claimRootItem host s item now).1.activity := by
  have hopened := (@newLease_matches host now { s with uuidsDrawn := s.uuidsDrawn + 1 }
    "manager_root" item.queueId item.contactId (claimLineage item) item.transferLeaseId
    (claimEpoch s item) leaseTtlSeconds).1
  refine hopened.from ?_ ?_
  · rw [(claimRootItem_frame host _ item now).2.2]
    exact le_rfl
  · by_cases htransfer : item.transferLeaseId = ""
    · intro id lease' _ hget
      simp only [claimRootItem, htransfer, if_true] at hget ⊢
      exact ⟨lease', hget, rfl, rfl⟩
    · intro id lease' _ hget
      simp only [claimRootItem, htransfer, if_false, Dict.get?_pop_eq_some_iff] at hget
      exact ⟨lease', hget.2, rfl, rfl⟩

/-- The tokens of the claim loop. -/
theorem claimScan_matches {limit : Nat} {unique : Bool} (queue : List RootItem)
    (p : ClaimProgress) (hp : ∀ a ∈ p.admissions, TokenMatches host p.state a.activity) :
    let scanned := claimScan host limit unique now queue p
    ∀ a ∈ scanned.2.admissions, TokenMatches host scanned.2.state a.activity := by
  induction queue generalizing p with
  | nil => exact hp
  | cons item rest ih =>
      unfold claimScan
      split
      · exact hp
      · split
        · refine ih _ ?_
          intro a ha
          rcases List.mem_append.mp ha with hold | hnew
          · refine (hp a hold).from ?_ (claimRootItem_leases host p.state item now)
            rw [(claimRootItem_frame host _ item now).2.2]
            exact Nat.le_add_right _ 2
          · rw [List.mem_singleton.mp hnew]
            exact claimRootItem_matches host p.state item now
        · exact ih p hp

/-- The tokens a mutation hands out match the leases it leaves. -/
theorem reply_tokensMatch {r : Reply} (hwf : WellFormed host s)
    (h : mutation host op s now = .ok (r, s')) :
    ∀ token ∈ r.tokens, TokenMatches host s' token := by
  cases op <;> simp only [mutation] at h <;> rcases Mutation.reply_ok h with ⟨value, hvalue, hr⟩
  case enqueueRoot contact context admitRoot =>
    subst hr
    unfold enqueueRoot at hvalue
    simp only at hvalue
    split at hvalue
    · rcases Prod.mk.inj (Except.ok.inj hvalue) with ⟨hv, hs'⟩
      subst hv hs'
      intro token htoken
      simp only [Reply.tokens, Reply.roots, Option.toList_some, List.map_cons, List.map_nil,
        List.mem_singleton] at htoken
      subst htoken
      exact ⟨(claimRootItem_matches ..).drawn, (claimRootItem_matches ..).lease⟩
    · split at hvalue
      · rcases Prod.mk.inj (Except.ok.inj hvalue) with ⟨hv, hs'⟩
        subst hv
        simp [Reply.tokens, Reply.roots]
      · rcases Prod.mk.inj (Except.ok.inj hvalue) with ⟨hv, hs'⟩
        subst hv
        simp [Reply.tokens, Reply.roots]
  case claimPendingRoots limit excluded unique =>
    subst hr
    unfold claimPendingRoots at hvalue
    split at hvalue
    · rcases Prod.mk.inj (Except.ok.inj hvalue) with ⟨hv, hs'⟩
      subst hv
      simp [Reply.tokens, Reply.roots]
    · rcases Prod.mk.inj (Except.ok.inj hvalue) with ⟨hv, hs'⟩
      subst hv hs'
      intro token htoken
      simp only [Reply.tokens, Reply.roots, List.mem_map] at htoken
      rcases htoken with ⟨a, ha, htoken⟩
      subst htoken
      have hmatch := claimScan_matches s.rootQueue ⟨s, [], excluded⟩ (by simp) a ha
      exact ⟨hmatch.drawn, hmatch.lease⟩
  case getActivity leaseId =>
    subst hr
    rcases Prod.mk.inj (Except.ok.inj hvalue) with ⟨hv, hs'⟩
    subst hv hs'
    intro token htoken
    simp only [Reply.tokens, Option.mem_toList, Option.map_eq_some_iff] at htoken
    rcases htoken with ⟨lease, hget, htoken⟩
    subst htoken
    have hlease := hwf.leaseDrawn leaseId lease hget
    refine ⟨hlease.1, fun lease' hget' => ?_⟩
    have hsame : lease' = lease := by
      have hgets := hget'.symm.trans hget
      exact Option.some.inj hgets
    subst hsame
    simp only [tokenFromLease, and_true]
    rw [orElse, if_neg hlease.2]
  case acquireActivity kind activity contact parent ttl =>
    subst hr
    unfold acquireActivity at hvalue
    split at hvalue
    · rcases Prod.mk.inj (Except.ok.inj hvalue) with ⟨hv, hs'⟩
      subst hv hs'
      intro token htoken
      simp only [Reply.tokens, Option.toList_some, List.mem_singleton] at htoken
      subst htoken
      exact newLease_matches.1
    · split at hvalue
      · rcases Prod.mk.inj (Except.ok.inj hvalue) with ⟨hv, hs'⟩
        subst hv
        simp [Reply.tokens]
      · split at hvalue
        · rcases Prod.mk.inj (Except.ok.inj hvalue) with ⟨hv, hs'⟩
          subst hv
          simp [Reply.tokens]
        · split at hvalue
          · rcases Prod.mk.inj (Except.ok.inj hvalue) with ⟨hv, hs'⟩
            subst hv
            simp [Reply.tokens]
          · rcases Prod.mk.inj (Except.ok.inj hvalue) with ⟨hv, hs'⟩
            subst hv hs'
            intro token htoken
            simp only [Reply.tokens, Option.toList_some, List.mem_singleton] at htoken
            subst htoken
            exact newLease_matches.1
  case adoptPrefenceActivity kind activity contact started ttl =>
    subst hr
    unfold adoptPrefenceActivity at hvalue
    split at hvalue
    · rcases Prod.mk.inj (Except.ok.inj hvalue) with ⟨hv, hs'⟩
      subst hv
      simp [Reply.tokens]
    · rcases Prod.mk.inj (Except.ok.inj hvalue) with ⟨hv, hs'⟩
      subst hv hs'
      intro token htoken
      simp only [Reply.tokens, Option.toList_some, List.mem_singleton] at htoken
      subst htoken
      exact newLease_matches.1
  all_goals
    subst hr
    simp [Reply.tokens, Reply.roots]

/-- An issued token whose lease is live carries that lease's lineage and epoch. -/
theorem reachable_tokensMatch {w : World} (h : (coordinator host).Reachable w) :
    ∀ token ∈ w.tokens, TokenMatches host w.state token := by
  refine h.invariant (I := fun w => ∀ token ∈ w.tokens, TokenMatches host w.state token) ?_ ?_
  · rintro _ ⟨t, rfl⟩
    simp [World.initial]
  · intro w e w' hreach hmatch hstep
    have hwf := reachable_wellFormed hreach
    rcases step_cases hstep with hw' | ⟨r, s', hcall, hw'⟩
    · subst hw'
      exact hmatch
    · subst hw'
      intro token htoken
      have heffs := hwf.call_effects hstep.2.1 hcall
      rcases List.mem_append.mp htoken with hold | hnew
      · exact ((hmatch token hold).effects heffs.1).effects heffs.2
      · exact reply_tokensMatch (hwf.prune e.time) hcall token hnew

end Maintenance
end Stemcell
