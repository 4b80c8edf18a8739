import Stemcell.Maintenance.Ingress

/-!
# Receipts

A receipt outlives the root it was written for: completion removes the root, age and
number remove the receipt.  This module says how long a receipt stays and which calls
write receipts at all.

Main results:

- Theorem `pruneReceipts_retained`: a young receipt among the newest ones survives.
- Theorem `mutation_sameReceipts`: only `enqueue_ingress_root` and `enqueue_continuation`
  write receipts, each in its own table.
-/

namespace Stemcell
namespace Maintenance

open Lib

/-- A receipt is young, and few receipts are as new as it. -/
structure Retained (limit : Nat) (ttl : Seconds) (receipts : Dict String Receipt)
    (now : Seconds) (receipt : Receipt) : Prop where
  young : now - receipt.acceptedAt < ttl
  newest : (receipts.filter fun _ other => receipt.acceptedAt ≤ other.acceptedAt).size < limit

instance (limit : Nat) (ttl : Seconds) (receipts : Dict String Receipt) (now : Seconds)
    (receipt : Receipt) : Decidable (Retained limit ttl receipts now receipt) :=
  decidable_of_iff
    (now - receipt.acceptedAt < ttl ∧
      (receipts.filter fun _ other => receipt.acceptedAt ≤ other.acceptedAt).size < limit)
    ⟨fun h => ⟨h.1, h.2⟩, fun h => ⟨h.young, h.newest⟩⟩

/-- Each receipt that the table has under this id is retained. -/
def RetainedAt (limit : Nat) (ttl : Seconds) (receipts : Dict String Receipt) (now : Seconds)
    (queueId : String) : Prop :=
  match receipts.get? queueId with
  | none => True
  | some receipt => Retained limit ttl receipts now receipt

instance (limit : Nat) (ttl : Seconds) (receipts : Dict String Receipt) (now : Seconds)
    (queueId : String) : Decidable (RetainedAt limit ttl receipts now queueId) := by
  unfold RetainedAt
  split <;> infer_instance

/-- What stands early in an ordered list has many others above it. -/
theorem length_le_of_mem_take {α : Type} {r : α → α → Prop} [DecidableRel r] {l : List α}
    (hsorted : l.Pairwise r) (hrefl : ∀ a, r a a) {n : Nat} {a : α} (ha : a ∈ l.take n) :
    l.length - n + 1 ≤ l.countP fun b => r a b := by
  have habove : (l.drop n).countP (fun b => r a b) = (l.drop n).length := by
    rw [List.countP_eq_length]
    intro b hb
    rw [← List.take_append_drop n l] at hsorted
    exact decide_eq_true ((List.pairwise_append.mp hsorted).2.2 a ha b hb)
  have hself : 1 ≤ (l.take n).countP fun b => r a b :=
    List.countP_pos_iff.mpr ⟨a, ha, decide_eq_true (hrefl a)⟩
  calc l.length - n + 1
      = (l.drop n).countP (fun b => r a b) + 1 := by rw [habove, List.length_drop]
    _ ≤ (l.take n).countP (fun b => r a b) + (l.drop n).countP (fun b => r a b) := by omega
    _ = l.countP fun b => r a b := by rw [← List.countP_append, List.take_append_drop]

variable {limit : Nat} {ttl now : Seconds} {receipts : Dict String Receipt}
  {receipt : Receipt} {queueId : String}

/-- Pruning keeps a receipt that is young and among the newest. -/
theorem pruneReceipts_retained (hget : receipts.get? queueId = some receipt)
    (h : Retained limit ttl receipts now receipt) :
    (pruneReceipts limit ttl receipts now).get? queueId = some receipt := by
  have hkept : (receipts.filter fun _ other => now - other.acceptedAt < ttl).get? queueId =
      some receipt := by
    rw [Dict.get?_filter_eq_some_iff]
    exact ⟨hget, decide_eq_true h.young⟩
  unfold pruneReceipts
  simp only
  split
  · rename_i hmany
    rw [Dict.get?_filter_eq_some_iff]
    refine ⟨hkept, decide_eq_true ?_⟩
    intro hdropped
    rcases List.mem_map.mp hdropped with ⟨⟨other, r⟩, hmem, rfl⟩
    -- The dropped entry is the receipt itself.
    have hsame : r = receipt := by
      have hentry := (List.mem_insertionSort _).mp (List.mem_of_mem_take hmem)
      rw [← Dict.get?_eq_some_iff] at hentry
      exact Option.some.inj (hentry.symm.trans hkept)
    subst hsame
    have hcount := length_le_of_mem_take
      (List.pairwise_insertionSort (fun a b : String × Receipt => a.2.acceptedAt ≤ b.2.acceptedAt) _)
      (fun _ => le_refl _) hmem
    rw [(List.perm_insertionSort _ _).length_eq, (List.perm_insertionSort _ _).countP_eq] at hcount
    have hfew := h.newest
    have hle : ((receipts.filter fun _ other => now - other.acceptedAt < ttl).entries.countP
        fun b => decide (r.acceptedAt ≤ b.2.acceptedAt)) ≤
        (receipts.filter fun _ other => r.acceptedAt ≤ other.acceptedAt).size := by
      have hsize : (receipts.filter fun _ other => r.acceptedAt ≤ other.acceptedAt).size =
          receipts.entries.countP fun b => decide (r.acceptedAt ≤ b.2.acceptedAt) :=
        List.countP_eq_length_filter.symm
      rw [hsize]
      exact List.Sublist.countP_le List.filter_sublist
    simp only [Dict.size] at hcount hmany hfew hle
    omega
  · exact hkept

theorem pruneReceipts_retainedAt (hget : receipts.get? queueId = some receipt)
    (h : RetainedAt limit ttl receipts now queueId) :
    (pruneReceipts limit ttl receipts now).get? queueId = some receipt := by
  rw [RetainedAt, hget] at h
  exact pruneReceipts_retained hget h

/-! ## Who writes receipts -/

/-- Two documents with the same receipts. -/
structure State.SameReceipts (s s' : State) : Prop where
  continuation : s'.continuationReceipts = s.continuationReceipts
  ingress : s'.ingressReceipts = s.ingressReceipts

variable {host : Host} {s s' t : State} {op : Op}

theorem State.SameReceipts.refl (s : State) : s.SameReceipts s :=
  ⟨rfl, rfl⟩

theorem State.SameReceipts.trans (h : s.SameReceipts s') (h' : s'.SameReceipts t) :
    s.SameReceipts t :=
  ⟨h'.continuation.trans h.continuation, h'.ingress.trans h.ingress⟩

theorem emit_sameReceipts (s : State) (event outcome : String) (phase : Option Phase) :
    s.SameReceipts (emit s event phase outcome) :=
  ⟨by simp, by simp⟩

theorem claimRootItem_sameReceipts (host : Host) (s : State) (item : RootItem) (now : Seconds) :
    s.SameReceipts (claimRootItem host s item now).2.2 := by
  unfold claimRootItem newLease addLease
  simp only
  split <;> exact ⟨rfl, rfl⟩

theorem claimScan_sameReceipts {n : Nat} {unique : Bool} (queue : List RootItem)
    (p : ClaimProgress) :
    p.state.SameReceipts (claimScan host n unique now queue p).2.state := by
  induction queue generalizing p with
  | nil => exact .refl _
  | cons item rest ih =>
      unfold claimScan
      split
      · exact .refl _
      split
      · have hclaim := claimRootItem_sameReceipts host p.state item now
        exact hclaim.trans (ih
          { state := (claimRootItem host p.state item now).2.2
            admissions := p.admissions ++ [(claimRootItem host p.state item now).1]
            excluded := if unique then item.contactId :: p.excluded else p.excluded })
      · exact ih p

theorem ensureNotice_sameReceipts (host : Host) (s : State) (contactId : String) (phase : Phase)
    (now : Seconds) : s.SameReceipts (ensureNotice host s contactId phase now) :=
  ⟨(ensureNotice_sameCore host s contactId phase now).continuationReceipts,
    (ensureNotice_sameCore host s contactId phase now).ingressReceipts⟩

theorem enqueueRoot_sameReceipts {contact context : String} {admitRoot : Bool}
    {r : RootEnqueueResult} (h : enqueueRoot host contact context admitRoot s now = .ok (r, s')) :
    s.SameReceipts s' := by
  unfold enqueueRoot at h
  simp only at h
  split at h
  · rcases Prod.mk.inj (Except.ok.inj h) with ⟨-, rfl⟩
    rcases claimRootItem_sameReceipts host { s with uuidsDrawn := s.uuidsDrawn + 1 }
      (pendingRoot { s with uuidsDrawn := s.uuidsDrawn + 1 } now (host.uuid4 s.uuidsDrawn)
        contact context none) now with ⟨hcontinuation, hingress⟩
    exact ⟨hcontinuation, hingress⟩
  split at h
  · rcases Prod.mk.inj (Except.ok.inj h) with ⟨-, rfl⟩
    exact ⟨rfl, rfl⟩
  · rcases Prod.mk.inj (Except.ok.inj h) with ⟨-, rfl⟩
    rcases ensureNotice_sameReceipts host
      { s with
        uuidsDrawn := s.uuidsDrawn + 1
        rootQueue := s.rootQueue ++ [pendingRoot { s with uuidsDrawn := s.uuidsDrawn + 1 } now
          (host.uuid4 s.uuidsDrawn) contact context none] }
      contact s.phase now with ⟨hcontinuation, hingress⟩
    exact ⟨hcontinuation, hingress⟩

theorem enqueueIngressRoot_continuations {contact context ingress : String} {r : Bool}
    (h : enqueueIngressRoot host contact context ingress s now = .ok (r, s')) :
    s'.continuationReceipts = s.continuationReceipts := by
  unfold enqueueIngressRoot at h
  split at h
  · cases h
  simp only at h
  split at h
  · split at h
    · cases h
    · rcases Prod.mk.inj (Except.ok.inj h) with ⟨-, rfl⟩
      rfl
  split at h
  · split at h
    · cases h
    · rcases Prod.mk.inj (Except.ok.inj h) with ⟨-, rfl⟩
      rfl
  · rcases Prod.mk.inj (Except.ok.inj h) with ⟨-, rfl⟩
    simp only
    split
    · exact (ensureNotice_sameReceipts ..).continuation
    · rfl

theorem transferContinuation_ingress {contact context lease queue : String} {r : Bool}
    (h : transferContinuation host contact context lease queue s now = .ok (r, s')) :
    s'.ingressReceipts = s.ingressReceipts := by
  unfold transferContinuation at h
  simp only at h
  split at h
  · rcases Prod.mk.inj (Except.ok.inj h) with ⟨-, rfl⟩
    rfl
  split at h
  · split at h <;>
      (rcases Prod.mk.inj (Except.ok.inj h) with ⟨-, rfl⟩
       rfl)
  split at h <;>
    (rcases Prod.mk.inj (Except.ok.inj h) with ⟨-, rfl⟩
     rfl)

/-- A call that opens or drops leases, moves the phase or settles roots writes no
receipt. -/
theorem mutation_sameReceipts {r : Reply} (h : mutation host op s now = .ok (r, s')) :
    s.SameReceipts s' ∨
      (∃ contact context ingress, op = .enqueueIngressRoot contact context ingress) ∧
        s'.continuationReceipts = s.continuationReceipts ∨
      (∃ contact context lease queue, op = .enqueueContinuation contact context lease queue) ∧
        s'.ingressReceipts = s.ingressReceipts := by
  cases op <;> simp only [mutation] at h <;> rcases Mutation.reply_ok h with ⟨value, hvalue, -⟩
  case enqueueIngressRoot contact context ingress =>
    exact .inr (.inl ⟨⟨_, _, _, rfl⟩, enqueueIngressRoot_continuations hvalue⟩)
  case enqueueContinuation contact context lease queue =>
    refine .inr (.inr ⟨⟨_, _, _, _, rfl⟩, ?_⟩)
    unfold enqueueContinuation at hvalue
    split at hvalue
    · have hsame := transferContinuation_ingress hvalue
      exact hsame
    · exact transferContinuation_ingress hvalue
  all_goals left
  case requestDrain =>
    unfold requestDrain at hvalue
    split at hvalue
    · split at hvalue
      · cases hvalue
      · rcases Prod.mk.inj (Except.ok.inj hvalue) with ⟨-, rfl⟩
        exact .refl _
    · rcases Prod.mk.inj (Except.ok.inj hvalue) with ⟨-, rfl⟩
      exact ⟨by simp, by simp⟩
  case cancelDrain =>
    unfold cancelDrain at hvalue
    split at hvalue
    · rcases Prod.mk.inj (Except.ok.inj hvalue) with ⟨-, rfl⟩
      exact .refl _
    split at hvalue
    · rcases Prod.mk.inj (Except.ok.inj hvalue) with ⟨-, rfl⟩
      exact .refl _
    · rcases Prod.mk.inj (Except.ok.inj hvalue) with ⟨-, rfl⟩
      exact ⟨by simp, by simp⟩
  case transition =>
    unfold Maintenance.transition at hvalue
    split at hvalue
    · cases hvalue
    split at hvalue
    · cases hvalue
    split at hvalue
    · rcases Prod.mk.inj (Except.ok.inj hvalue) with ⟨-, rfl⟩
      exact .refl _
    split at hvalue
    · cases hvalue
    split at hvalue
    · cases hvalue
    split at hvalue
    · rcases Prod.mk.inj (Except.ok.inj hvalue) with ⟨-, rfl⟩
      exact ⟨by simp, by simp⟩
    · rcases Prod.mk.inj (Except.ok.inj hvalue) with ⟨-, rfl⟩
      exact ⟨by simp, by simp⟩
  case enqueueRoot => exact enqueueRoot_sameReceipts hvalue
  case claimPendingRoots limit excluded unique =>
    unfold claimPendingRoots at hvalue
    split at hvalue
    · rcases Prod.mk.inj (Except.ok.inj hvalue) with ⟨-, rfl⟩
      exact .refl _
    · rcases Prod.mk.inj (Except.ok.inj hvalue) with ⟨-, rfl⟩
      rcases (@claimScan_sameReceipts _ host _ _) s.rootQueue ⟨s, [], excluded⟩ with
        ⟨hcontinuation, hingress⟩
      exact ⟨hcontinuation, hingress⟩
  case acquireActivity =>
    unfold acquireActivity at hvalue
    split at hvalue
    · rcases Prod.mk.inj (Except.ok.inj hvalue) with ⟨-, rfl⟩
      exact ⟨rfl, rfl⟩
    split at hvalue
    · rcases Prod.mk.inj (Except.ok.inj hvalue) with ⟨-, rfl⟩
      exact .refl _
    split at hvalue
    · rcases Prod.mk.inj (Except.ok.inj hvalue) with ⟨-, rfl⟩
      exact .refl _
    split at hvalue <;>
      (rcases Prod.mk.inj (Except.ok.inj hvalue) with ⟨-, rfl⟩
       exact ⟨rfl, rfl⟩)
  case heartbeat =>
    unfold Maintenance.heartbeat at hvalue
    split at hvalue <;>
      (rcases Prod.mk.inj (Except.ok.inj hvalue) with ⟨-, rfl⟩
       exact ⟨rfl, rfl⟩)
  case adoptPrefenceActivity =>
    unfold adoptPrefenceActivity at hvalue
    split at hvalue <;>
      (rcases Prod.mk.inj (Except.ok.inj hvalue) with ⟨-, rfl⟩
       exact ⟨rfl, rfl⟩)
  case acknowledgeRuntimeQuiescent =>
    unfold acknowledgeRuntimeQuiescent at hvalue
    simp only at hvalue
    split at hvalue <;>
      (rcases Prod.mk.inj (Except.ok.inj hvalue) with ⟨-, rfl⟩
       exact ⟨rfl, rfl⟩)
  all_goals
    rcases Prod.mk.inj (Except.ok.inj hvalue) with ⟨-, rfl⟩
    exact ⟨rfl, rfl⟩

/-- Only `enqueue_ingress_root` writes ingress receipts. -/
theorem ingressReceipts_same {r : Reply} (h : mutation host op s now = .ok (r, s'))
    (hop : ∀ contact context ingress, op ≠ .enqueueIngressRoot contact context ingress) :
    s'.ingressReceipts = s.ingressReceipts := by
  rcases mutation_sameReceipts h with hsame | ⟨⟨contact, context, ingress, heq⟩, -⟩ | ⟨-, hsame⟩
  · exact hsame.ingress
  · exact absurd heq (hop contact context ingress)
  · exact hsame

/-- Only `enqueue_continuation` writes continuation receipts. -/
theorem continuationReceipts_same {r : Reply} (h : mutation host op s now = .ok (r, s'))
    (hop : ∀ contact context lease queue,
      op ≠ .enqueueContinuation contact context lease queue) :
    s'.continuationReceipts = s.continuationReceipts := by
  rcases mutation_sameReceipts h with hsame | ⟨-, hsame⟩ | ⟨⟨contact, context, lease, queue, heq⟩, -⟩
  · exact hsame.continuation
  · exact hsame
  · exact absurd heq (hop contact context lease queue)

end Maintenance
end Stemcell
