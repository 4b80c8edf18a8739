import Mathlib.Data.List.Sort
import Stemcell.Dispatch.Dispatcher

/-!
# Internal roots

Two kinds of roots wait in the long-task state until the event loop claims them for the
dispatcher: roots that were parked behind a durable queue of their contact, and accuracy
reviews of an accepted task.  A claim is a lease of a minute, so what the loop claims and
does not hand on is claimed again later.

Main results:

- Definition `claimReadyLongTaskRoots`: one claim of the parked roots.
- Definition `claimReadyAccuracyReviewRoots`: one claim of the due reviews.
- Theorem `claimRoots_parked`: a claimed root stays at the head of its queue.
- Theorem `claimRoot_again`: it is claimed again when the lease has expired.
- Theorem `claimReviews_reviewing`: a claimed review stays with its lifecycle.
- Theorem `claimReview_again`: it is claimed again when the claim has expired.

Current gaps:

- How a review is materialized, and how entries recover or are pruned, is not modelled.
-/

namespace Stemcell
namespace LongTasks

open Lib
open Maintenance (Seconds)

def queuedRootLeaseSeconds : Seconds := 60
def accuracyReviewClaimSeconds : Seconds := 60
def queuedRootMarker : String := "durable_queued_root_id:"
def queuedRootVisibilityMarker : String := "durable_queued_root_visible:"

/-- The process that claims: its token, its id, and which processes live. -/
structure Process where
  token : String
  pid : Int
  alive : Int → Bool

/-- Who claimed an item, and until when. -/
structure Claim where
  owner : String
  pid : Int
  claimUntil : Seconds
deriving DecidableEq, Repr

/-- A claim that keeps others away. -/
def Claim.held (process : Process) (now : Seconds) (claim : Claim) : Bool :=
  claim.owner ≠ "" && now < claim.claimUntil && process.alive claim.pid

/-! ## Parked roots -/

/-- A root that was parked. -/
structure QueuedRoot where
  rootId : String
  runId : String
  context : String
  visible : Bool
  createdAt : Seconds
  claim : Claim
deriving DecidableEq, Repr

/-- The context that the dispatcher is given for a parked root. -/
def QueuedRoot.text (item : QueuedRoot) : String :=
  queuedRootMarker ++ " " ++ item.rootId ++ "\n" ++
    queuedRootVisibilityMarker ++ (if item.visible then " 1" else " 0") ++ "\n" ++ item.context

/-- Parked roots by contact, the oldest first. -/
abbrev QueuedRoots := Dict String (List QueuedRoot)

/-- The age that the queue of a contact is ordered by. -/
def queueAge (entry : String × List QueuedRoot) : Seconds :=
  (entry.2.head?.map QueuedRoot.createdAt).getD 0

/-- What a claim has taken so far. -/
structure Claimed where
  roots : List (String × String)
  queued : QueuedRoots

variable (process : Process) (busy : String → Bool) (limit : Nat) (now : Seconds)

/-- The loop of `claim_ready_long_task_roots` at one contact. -/
def claimRoot (claimed : Claimed) (entry : String × List QueuedRoot) : Claimed :=
  if limit ≤ claimed.roots.length then claimed
  else if busy entry.1 then claimed
  else
    match entry.2 with
    | [] => claimed
    | item :: rest =>
        if item.claim.held process now then claimed
        else
          let item' := { item with
            claim :=
              { owner := process.token
                pid := process.pid
                claimUntil := now + queuedRootLeaseSeconds } }
          { roots := claimed.roots ++ [(entry.1, item'.text)]
            queued := claimed.queued.set entry.1 (item' :: rest) }

/-- `claim_ready_long_task_roots`; `busy` are the contacts with an active lifecycle. -/
def claimReadyLongTaskRoots (queued : QueuedRoots) : Claimed :=
  (queued.entries.mergeSort fun a b => queueAge a ≤ queueAge b).foldl
    (claimRoot process busy limit now) { roots := [], queued := queued }

/-! ## Accuracy reviews -/

/-- Phases of a review. -/
inductive ReviewPhase
  | pending
  | claimed
  | dispatched
deriving DecidableEq, Repr

/-- A review that is due. -/
structure Review where
  reviewId : String
  context : String
  checkpointFrom : Nat
  checkpointThrough : Nat
  phase : ReviewPhase
  claim : Claim
  createdAt : Seconds
deriving DecidableEq, Repr

/-- The context that the dispatcher is given for a review. -/
def Review.text (review : Review) : String :=
  String.ofList Dispatch.accuracyReviewMarker ++ " " ++ review.reviewId ++ "\n" ++ review.context

/-- The accuracy schedule of a lifecycle. -/
structure Lifecycle where
  contactId : String
  closed : Bool
  terminal : Bool
  nextCheckpoint : Nat
  pendingReview : Option Review
deriving DecidableEq, Repr

/-- `LongTaskLifecycle.claim_accuracy_review`. -/
def Lifecycle.claimAccuracyReview (lifecycle : Lifecycle) : Option (Review × Lifecycle) :=
  match lifecycle.pendingReview with
  | none => none
  | some review =>
      if lifecycle.closed ∨ lifecycle.terminal ∨ review.phase = .dispatched then none
      else if review.claim.held process now then none
      else
        let review := { review with
          phase := .claimed
          claim :=
            { owner := process.token
              pid := process.pid
              claimUntil := now + accuracyReviewClaimSeconds } }
        some (review, { lifecycle with pendingReview := some review })

/-- `LongTaskLifecycle.mark_accuracy_review_dispatched`. -/
def Lifecycle.markAccuracyReviewDispatched (lifecycle : Lifecycle) (reviewId : String) :
    Lifecycle :=
  match lifecycle.pendingReview with
  | none => lifecycle
  | some review =>
      if review.reviewId ≠ reviewId then lifecycle
      else { lifecycle with
        pendingReview := some { review with
          phase := .dispatched
          claim := { review.claim with claimUntil := 0 } } }

/-- `LongTaskLifecycle.complete_accuracy_review`. -/
def Lifecycle.completeAccuracyReview (lifecycle : Lifecycle) (reviewId : String) : Lifecycle :=
  match lifecycle.pendingReview with
  | none => lifecycle
  | some review =>
      if review.reviewId ≠ reviewId then lifecycle
      else { lifecycle with
        nextCheckpoint := max lifecycle.nextCheckpoint (review.checkpointThrough + 1)
        pendingReview := none }

/-- `LongTaskLifecycle.accuracy_review_is_current`. -/
def Lifecycle.accuracyReviewIsCurrent (lifecycle : Lifecycle) (reviewId : String) : Bool :=
  match lifecycle.pendingReview with
  | none => false
  | some review => !lifecycle.closed && !lifecycle.terminal && review.reviewId = reviewId

/-- Lifecycles by contact. -/
abbrev Lifecycles := Dict String Lifecycle

/-- When the review of a lifecycle was made. -/
def Lifecycle.reviewedAt (lifecycle : Lifecycle) : Option Seconds :=
  (lifecycle.pendingReview.map Review.createdAt).filter fun createdAt => createdAt ≠ 0

/-- Older reviews first, and lifecycles without one last. -/
def reviewedBefore (a b : String × Lifecycle) : Bool :=
  match a.2.reviewedAt, b.2.reviewedAt with
  | some x, some y => x ≤ y
  | some _, none => true
  | none, some _ => false
  | none, none => true

/-- The lifecycles that a claim of reviews goes through. -/
def reviewOrder (excluded : List String) (lifecycles : Lifecycles) : List (String × Lifecycle) :=
  (lifecycles.entries.filter fun entry => entry.1 ∉ excluded ∧ entry.2.closed = false).mergeSort
    reviewedBefore

/-- What a claim of reviews has taken so far. -/
structure ClaimedReviews where
  roots : List (String × String)
  lifecycles : Lifecycles

/-- The loop of `claim_ready_accuracy_review_roots` at one lifecycle. -/
def claimReview (claimed : ClaimedReviews) (entry : String × Lifecycle) : ClaimedReviews :=
  if limit ≤ claimed.roots.length then claimed
  else
    match entry.2.claimAccuracyReview process now with
    | none => claimed
    | some (review, lifecycle) =>
        { roots := claimed.roots ++ [(entry.1, review.text)]
          lifecycles := claimed.lifecycles.set entry.1 lifecycle }

/-- `claim_ready_accuracy_review_roots`, through these lifecycles. -/
def claimReviews (order : List (String × Lifecycle)) (lifecycles : Lifecycles) : ClaimedReviews :=
  order.foldl (claimReview process limit now) { roots := [], lifecycles := lifecycles }

/-- `claim_ready_accuracy_review_roots`. -/
def claimReadyAccuracyReviewRoots (excluded : List String) (lifecycles : Lifecycles) :
    ClaimedReviews :=
  claimReviews process limit now (reviewOrder excluded lifecycles) lifecycles

variable {process busy limit now} {claimed : Claimed} {queued : QueuedRoots}
  {contactId text : String} {lifecycles : Lifecycles} {order : List (String × Lifecycle)}
  {entries : List (String × List QueuedRoot)}

/-! ## What is claimed stays -/

/-- The head of the queue of the contact is this root. -/
def Parked (queued : QueuedRoots) (contactId text : String) : Prop :=
  ∃ item rest, queued.get? contactId = some (item :: rest) ∧ item.text = text

theorem claimRoot_cases (claimed : Claimed) (entry : String × List QueuedRoot) :
    claimRoot process busy limit now claimed entry = claimed ∨
      ∃ item rest, entry.2 = item :: rest ∧ busy entry.1 = false ∧
        item.claim.held process now = false ∧
        claimRoot process busy limit now claimed entry =
          { roots := claimed.roots ++ [(entry.1, item.text)]
            queued := claimed.queued.set entry.1 ({ item with
              claim :=
                { owner := process.token
                  pid := process.pid
                  claimUntil := now + queuedRootLeaseSeconds } } :: rest) } := by
  unfold claimRoot
  split
  · exact .inl rfl
  split
  · exact .inl rfl
  rename_i hidle
  split
  · exact .inl rfl
  rename_i item rest hitems
  split
  · exact .inl rfl
  rename_i hfree
  rw [Bool.not_eq_true] at hidle hfree
  exact .inr ⟨item, rest, hitems, hidle, hfree, rfl⟩

/-- The loop keeps what it has claimed in the queues. -/
theorem claimRoots_keeps (hnodup : (entries.map Prod.fst).Nodup)
    (hclaimed : ∀ root ∈ claimed.roots, Parked claimed.queued root.1 root.2 ∧
      root.1 ∉ entries.map Prod.fst) :
    ∀ root ∈ (entries.foldl (claimRoot process busy limit now) claimed).roots,
      Parked (entries.foldl (claimRoot process busy limit now) claimed).queued root.1 root.2 := by
  induction entries generalizing claimed with
  | nil => exact fun root hmem => (hclaimed root hmem).1
  | cons entry rest ih =>
      rw [List.map_cons, List.nodup_cons] at hnodup
      apply ih hnodup.2
      intro root hmem
      rcases @claimRoot_cases process busy limit now claimed entry with hsame | ⟨item, more, hitems, -, -, hset⟩
      · rw [hsame] at hmem ⊢
        rcases hclaimed root hmem with ⟨hparked, hnot⟩
        rw [List.map_cons, List.mem_cons, not_or] at hnot
        exact ⟨hparked, hnot.2⟩
      · rw [hset] at hmem ⊢
        rcases List.mem_append.mp hmem with hold | hnew
        · rcases hclaimed root hold with ⟨⟨found, others, hget, htext⟩, hnot⟩
          rw [List.map_cons, List.mem_cons, not_or] at hnot
          refine ⟨⟨found, others, ?_, htext⟩, hnot.2⟩
          rw [← hget]
          exact Dict.get?_set_of_ne _ _ (Ne.symm hnot.1)
        · rw [List.mem_singleton] at hnew
          subst hnew
          exact ⟨⟨_, more, Dict.get?_set_self _ _ _, rfl⟩, hnodup.1⟩

theorem sorted_nodup {ν : Type} (queued : Dict String ν) (before : String × ν → String × ν → Bool) :
    ((queued.entries.mergeSort before).map Prod.fst).Nodup :=
  ((List.mergeSort_perm _ _).map Prod.fst).nodup_iff.mpr queued.nodup

/-- A claimed root stays at the head of its queue. -/
theorem claimRoots_parked {root : String × String}
    (h : root ∈ (claimReadyLongTaskRoots process busy limit now queued).roots) :
    Parked (claimReadyLongTaskRoots process busy limit now queued).queued root.1 root.2 := by
  apply claimRoots_keeps (sorted_nodup queued _) _ root h
  intro root hmem
  cases hmem

/-- What the loop has claimed it gives out. -/
theorem claimRoots_grows :
    ∀ root ∈ claimed.roots,
      root ∈ (entries.foldl (claimRoot process busy limit now) claimed).roots := by
  induction entries generalizing claimed with
  | nil => exact fun _ hmem => hmem
  | cons entry rest ih =>
      intro root hmem
      apply ih root
      rcases @claimRoot_cases process busy limit now claimed entry with hsame | ⟨item, more, -, -, -, hset⟩
      · rw [hsame]
        exact hmem
      · rw [hset]
        exact List.mem_append_left _ hmem

/-- A parked root whose claim has expired is claimed, if its contact is idle and the limit
is not reached before. -/
theorem claimRoots_takes {item : QueuedRoot} {rest : List QueuedRoot}
    (hmem : (contactId, item :: rest) ∈ entries) (hidle : busy contactId = false)
    (hexpired : item.claim.held process now = false)
    (hlimit : claimed.roots.length + entries.length ≤ limit) :
    (contactId, item.text) ∈ (entries.foldl (claimRoot process busy limit now) claimed).roots := by
  induction entries generalizing claimed with
  | nil => cases hmem
  | cons entry others ih =>
      rw [List.length_cons] at hlimit
      rcases List.mem_cons.mp hmem with rfl | hlater
      · rw [List.foldl_cons]
        apply claimRoots_grows
        unfold claimRoot
        have hroom : ¬ limit ≤ claimed.roots.length := by omega
        simp only [if_neg hroom, hidle, Bool.false_eq_true, if_false, hexpired]
        exact List.mem_append_right _ (List.mem_singleton_self _)
      · apply ih hlater
        rcases @claimRoot_cases process busy limit now claimed entry with hsame | ⟨item, more, -, -, -, hset⟩
        · rw [hsame]
          omega
        · rw [hset, List.length_append, List.length_singleton]
          omega

/-- A parked root is claimed again when its lease has expired. -/
theorem claimRoot_again {item : QueuedRoot} {rest : List QueuedRoot}
    (hget : queued.get? contactId = some (item :: rest)) (hidle : busy contactId = false)
    (hexpired : item.claim.claimUntil ≤ now) (hlimit : queued.size ≤ limit) :
    (contactId, item.text) ∈ (claimReadyLongTaskRoots process busy limit now queued).roots := by
  have hmem : (contactId, item :: rest) ∈
      queued.entries.mergeSort fun a b => queueAge a ≤ queueAge b := by
    rw [List.mem_mergeSort]
    exact (Dict.get?_eq_some_iff _ _ _).mp hget
  apply claimRoots_takes hmem hidle
  · unfold Claim.held
    rw [decide_eq_false (not_lt.mpr hexpired), Bool.and_false, Bool.false_and]
  · rw [List.length_nil, Nat.zero_add, List.length_mergeSort]
    exact hlimit

/-- The lifecycle of the contact has this review to give out, and has not handed it on. -/
def Reviewing (lifecycles : Lifecycles) (contactId text : String) : Prop :=
  ∃ lifecycle review, lifecycles.get? contactId = some lifecycle ∧ lifecycle.closed = false ∧
    lifecycle.terminal = false ∧ lifecycle.pendingReview = some review ∧
      review.phase = .claimed ∧ review.text = text

theorem claimAccuracyReview_some {lifecycle after : Lifecycle} {review : Review}
    (h : lifecycle.claimAccuracyReview process now = some (review, after)) :
    after.closed = false ∧ after.terminal = false ∧ after.pendingReview = some review ∧
      review.phase = .claimed := by
  unfold Lifecycle.claimAccuracyReview at h
  split at h
  · cases h
  rename_i found hpending
  split at h
  · cases h
  rename_i hopen
  split at h
  · cases h
  cases h
  rw [not_or, not_or, Bool.not_eq_true, Bool.not_eq_true] at hopen
  exact ⟨hopen.1, hopen.2.1, rfl, rfl⟩

theorem claimReview_cases (claimed : ClaimedReviews) (entry : String × Lifecycle) :
    claimReview process limit now claimed entry = claimed ∨
      ∃ review lifecycle, entry.2.claimAccuracyReview process now = some (review, lifecycle) ∧
        claimReview process limit now claimed entry =
          { roots := claimed.roots ++ [(entry.1, review.text)]
            lifecycles := claimed.lifecycles.set entry.1 lifecycle } := by
  unfold claimReview
  split
  · exact .inl rfl
  split
  · exact .inl rfl
  rename_i review lifecycle hclaim
  exact .inr ⟨review, lifecycle, hclaim, rfl⟩

/-- The loop keeps what it has claimed with the lifecycles. -/
theorem claimReviews_keeps {claimed : ClaimedReviews} (hnodup : (order.map Prod.fst).Nodup)
    (hclaimed : ∀ root ∈ claimed.roots, Reviewing claimed.lifecycles root.1 root.2 ∧
      root.1 ∉ order.map Prod.fst) :
    ∀ root ∈ (order.foldl (claimReview process limit now) claimed).roots,
      Reviewing (order.foldl (claimReview process limit now) claimed).lifecycles root.1 root.2 := by
  induction order generalizing claimed with
  | nil => exact fun root hmem => (hclaimed root hmem).1
  | cons entry rest ih =>
      rw [List.map_cons, List.nodup_cons] at hnodup
      apply ih hnodup.2
      intro root hmem
      rcases @claimReview_cases process limit now claimed entry with
        hsame | ⟨review, lifecycle, hclaim, hset⟩
      · rw [hsame] at hmem ⊢
        rcases hclaimed root hmem with ⟨hreviewing, hnot⟩
        rw [List.map_cons, List.mem_cons, not_or] at hnot
        exact ⟨hreviewing, hnot.2⟩
      · rw [hset] at hmem ⊢
        rcases List.mem_append.mp hmem with hold | hnew
        · rcases hclaimed root hold with ⟨⟨found, held, hget, hfacts⟩, hnot⟩
          rw [List.map_cons, List.mem_cons, not_or] at hnot
          refine ⟨⟨found, held, ?_, hfacts⟩, hnot.2⟩
          rw [← hget]
          exact Dict.get?_set_of_ne _ _ (Ne.symm hnot.1)
        · rw [List.mem_singleton] at hnew
          subst hnew
          rcases claimAccuracyReview_some hclaim with ⟨hopen, hgoes, hpending, hphase⟩
          exact ⟨⟨lifecycle, review, Dict.get?_set_self _ _ _, hopen, hgoes, hpending, hphase,
            rfl⟩, hnodup.1⟩

theorem reviewOrder_nodup (excluded : List String) (lifecycles : Lifecycles) :
    ((reviewOrder excluded lifecycles).map Prod.fst).Nodup := by
  apply ((List.mergeSort_perm _ _).map Prod.fst).nodup_iff.mpr
  exact lifecycles.nodup.sublist (List.filter_sublist.map Prod.fst)

/-- A claimed review stays with its lifecycle, also where the claim stopped after some
lifecycles. -/
theorem claimReviews_reviewing {excluded : List String} {stop : Nat} {root : String × String}
    (h : root ∈ (claimReviews process limit now ((reviewOrder excluded lifecycles).take stop)
      lifecycles).roots) :
    Reviewing (claimReviews process limit now ((reviewOrder excluded lifecycles).take stop)
      lifecycles).lifecycles root.1 root.2 := by
  have hnodup := (reviewOrder_nodup excluded lifecycles).sublist
    ((List.take_sublist stop _).map Prod.fst)
  apply claimReviews_keeps hnodup _ root h
  intro root hmem
  cases hmem

/-- A claim of reviews goes through the lifecycles in order. -/
theorem claimReviews_sublist {claimed : ClaimedReviews} :
    ∃ contacts, contacts.Sublist (order.map Prod.fst) ∧
      (order.foldl (claimReview process limit now) claimed).roots.map Prod.fst =
        claimed.roots.map Prod.fst ++ contacts := by
  induction order generalizing claimed with
  | nil => exact ⟨[], List.Sublist.refl _, (List.append_nil _).symm⟩
  | cons entry rest ih =>
      rw [List.foldl_cons]
      rcases @ih (claimReview process limit now claimed entry) with ⟨contacts, hsub, heq⟩
      rw [heq]
      rcases @claimReview_cases process limit now claimed entry with hsame | ⟨review, after, -, hset⟩
      · rw [hsame]
        exact ⟨contacts, hsub.cons _, rfl⟩
      · rw [hset, List.map_append, List.append_assoc]
        exact ⟨entry.1 :: contacts, hsub.cons_cons _, rfl⟩

/-- The claimed reviews are of different contacts, and of none that is excluded. -/
theorem claimReviews_contacts {excluded : List String} {stop : Nat} :
    ((claimReviews process limit now ((reviewOrder excluded lifecycles).take stop)
        lifecycles).roots.map Prod.fst).Nodup ∧
      ∀ root ∈ (claimReviews process limit now ((reviewOrder excluded lifecycles).take stop)
        lifecycles).roots, root.1 ∉ excluded := by
  rcases @claimReviews_sublist process limit now ((reviewOrder excluded lifecycles).take stop)
    { roots := [], lifecycles := lifecycles } with ⟨contacts, hsub, heq⟩
  have hmap : (claimReviews process limit now ((reviewOrder excluded lifecycles).take stop)
      lifecycles).roots.map Prod.fst = contacts := heq
  have hsub' := hsub.trans ((List.take_sublist stop _).map Prod.fst)
  constructor
  · rw [hmap]
    exact (reviewOrder_nodup excluded lifecycles).sublist hsub'
  · intro root hmem
    have hin := List.mem_map_of_mem (f := Prod.fst) hmem
    rw [hmap] at hin
    rcases List.mem_map.mp (hsub'.subset hin) with ⟨entry, hentry, hsame⟩
    unfold reviewOrder at hentry
    rw [List.mem_mergeSort, List.mem_filter, decide_eq_true_eq] at hentry
    rw [← hsame]
    exact hentry.2.1

theorem claimReviews_grows {claimed : ClaimedReviews} :
    ∀ root ∈ claimed.roots, root ∈ (order.foldl (claimReview process limit now) claimed).roots := by
  induction order generalizing claimed with
  | nil => exact fun _ hmem => hmem
  | cons entry rest ih =>
      intro root hmem
      apply ih root
      rcases @claimReview_cases process limit now claimed entry with hsame | ⟨review, after, -, hset⟩
      · rw [hsame]
        exact hmem
      · rw [hset]
        exact List.mem_append_left _ hmem

theorem claimReviews_takes {claimed : ClaimedReviews} {lifecycle after : Lifecycle}
    {review : Review} (hmem : (contactId, lifecycle) ∈ order)
    (hclaim : lifecycle.claimAccuracyReview process now = some (review, after))
    (hlimit : claimed.roots.length + order.length ≤ limit) :
    (contactId, review.text) ∈ (order.foldl (claimReview process limit now) claimed).roots := by
  induction order generalizing claimed with
  | nil => cases hmem
  | cons entry others ih =>
      rw [List.length_cons] at hlimit
      rcases List.mem_cons.mp hmem with rfl | hlater
      · rw [List.foldl_cons]
        apply claimReviews_grows
        unfold claimReview
        have hroom : ¬ limit ≤ claimed.roots.length := by omega
        simp only [if_neg hroom, hclaim]
        exact List.mem_append_right _ (List.mem_singleton_self _)
      · apply ih hlater
        rcases @claimReview_cases process limit now claimed entry with
          hsame | ⟨review, after, -, hset⟩
        · rw [hsame]
          omega
        · rw [hset, List.length_append, List.length_singleton]
          omega

/-- A review that was claimed and not handed on is claimed again when its claim has
expired. -/
theorem claimReview_again {lifecycle : Lifecycle} {review : Review} {excluded : List String}
    (hget : lifecycles.get? contactId = some lifecycle) (hopen : lifecycle.closed = false)
    (hgoes : lifecycle.terminal = false) (hpending : lifecycle.pendingReview = some review)
    (hphase : review.phase ≠ .dispatched) (hexpired : review.claim.claimUntil ≤ now)
    (hfree : contactId ∉ excluded) (hlimit : lifecycles.size ≤ limit) :
    (contactId, review.text) ∈
      (claimReadyAccuracyReviewRoots process limit now excluded lifecycles).roots := by
  have hmem : (contactId, lifecycle) ∈ reviewOrder excluded lifecycles := by
    unfold reviewOrder
    rw [List.mem_mergeSort, List.mem_filter, decide_eq_true_eq]
    exact ⟨(Dict.get?_eq_some_iff _ _ _).mp hget, hfree, hopen⟩
  have hheld : review.claim.held process now = false := by
    unfold Claim.held
    rw [decide_eq_false (not_lt.mpr hexpired), Bool.and_false, Bool.false_and]
  have hclaim : ∃ claimed after, lifecycle.claimAccuracyReview process now = some (claimed, after) ∧
      claimed.text = review.text := by
    unfold Lifecycle.claimAccuracyReview
    simp only [hpending, hopen, hgoes, hphase, hheld, Bool.false_eq_true, or_self, if_false]
    exact ⟨_, _, rfl, rfl⟩
  rcases hclaim with ⟨claimed, after, hclaim, htext⟩
  rw [← htext]
  apply claimReviews_takes hmem hclaim
  rw [List.length_nil, Nat.zero_add]
  unfold reviewOrder
  rw [List.length_mergeSort]
  exact le_trans (List.length_filter_le _ _) hlimit

end LongTasks
end Stemcell
