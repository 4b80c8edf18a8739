import Stemcell.Maintenance.Coordinator
import Stemcell.Maintenance.Receipts

/-!
# One notice for each contact

A root that is submitted while an update runs puts a notice for its contact into the document,
unless one of the same update is there.  The notices that were delivered are the memory of this, and
only the newest two hundred of them are kept, over all contacts and updates.

Main results:

- Theorem `mutation_notices`: what each call does to the notices.
- Theorem `notices_law`: in every sequence of calls in which a contact only submits a root while the
  notice that was delivered to it is remembered, no contact gets two for one update.
- Theorem `forgotten_contact`: a contact that gets two.
-/

namespace Stemcell
namespace Maintenance

open Lib

variable {host : Host} {s s' : State} {op : Op} {now : Seconds} {w : World} {e : Event}
  {notice : Notice} {notices : List Notice} {id token contact : String} {delivered : Bool}
  {before : List (String × String)}

/-! ## What is delivered -/

/-- A notice is told by the update and the contact. -/
def Notice.pair (notice : Notice) : String × String :=
  (notice.maintenanceId, notice.contactId)

/-- The notice with this id and claim. -/
def findNotice (id token : String) (notices : List Notice) : Option Notice :=
  notices.find? fun notice => notice.noticeId = id ∧ notice.claimToken = token

/-- A call that finishes a notice as delivered, and returns `True`. -/
def deliveredBy (host : Host) (w : World) (e : Event) : List (String × String) :=
  match e.op, call host e.op w.state e.time with
  | .finishNotice id token true, .ok (.flag true, _) =>
      ((findNotice id token (prune w.state e.time).notices).map Notice.pair).toList
  | _, _ => []

/-- What a sequence of calls finishes as delivered, in order. -/
def World.deliveries (host : Host) (w : World) : List Event → List (String × String)
  | [] => []
  | e :: rest => deliveredBy host w e ++ (w.after host e.op e.time).deliveries host rest

/-- The contact for which the call submits a root. -/
def Op.submits : Op → Option String
  | .enqueueRoot contact _ _ => some contact
  | .enqueueIngressRoot contact _ _ => some contact
  | _ => none

/-- A root is only submitted while the notice that its contact got is there, and an empty claim is
not used to finish a notice that was delivered. -/
structure Remembers (w : World) (before : List (String × String)) (e : Event) : Prop where
  submits : ∀ contact, e.op.submits = some contact → (prune w.state e.time).phase ≠ .available →
    ((prune w.state e.time).maintenanceId, contact) ∈ before →
      ∃ notice ∈ (prune w.state e.time).notices,
        notice.pair = ((prune w.state e.time).maintenanceId, contact)
  finishes : ∀ id delivered, e.op = .finishNotice id "" delivered →
    ∀ notice ∈ (prune w.state e.time).notices, notice.noticeId = id → notice.status ≠ .delivered

/-- The condition on a sequence of calls. -/
def Remembering (host : Host) : World → List (String × String) → List Event → Prop
  | _, _, [] => True
  | w, before, e :: rest =>
      Remembers w before e ∧
        Remembering host (w.after host e.op e.time) (before ++ deliveredBy host w e) rest

/-! ## What each call does to the notices -/

theorem claimRootItem_notices (host : Host) (s : State) (item : RootItem) (now : Seconds) :
    (claimRootItem host s item now).2.2.notices = s.notices := by
  unfold claimRootItem newLease addLease
  simp only
  split <;> rfl

theorem claimScan_notices {n : Nat} {unique : Bool} (queue : List RootItem) (p : ClaimProgress) :
    (claimScan host n unique now queue p).2.state.notices = p.state.notices := by
  induction queue generalizing p with
  | nil => rfl
  | cons item rest ih =>
      unfold claimScan
      split
      · rfl
      split
      · exact (ih _).trans (claimRootItem_notices host p.state item now)
      · exact ih p

@[simp]
theorem emit_notices (s : State) (event outcome : String) (phase : Option Phase) :
    (emit s event phase outcome).notices = s.notices := by
  simp only [emit]

/-- A new notice is for a contact that had none of this update. -/
structure Added (s : State) (contact : String) (notices : List Notice) : Prop where
  phase : s.phase ≠ .available
  fresh : ∀ notice ∈ s.notices, notice.pair ≠ (s.maintenanceId, contact)
  added : ∃ notice : Notice, notices = s.notices ++ [notice] ∧ notice.status = .pending ∧
    notice.claimToken = "" ∧ notice.pair = (s.maintenanceId, contact)

theorem ensureNotice_notices {phase : Phase} (hphase : s.phase ≠ .available) :
    (ensureNotice host s contact phase now).notices = s.notices ∨
      Added s contact (ensureNotice host s contact phase now).notices := by
  unfold ensureNotice
  by_cases hknown : (s.notices.any fun notice =>
      notice.maintenanceId = s.maintenanceId ∧ notice.contactId = contact) = true
  · rw [if_pos hknown]
    exact .inl rfl
  · rw [if_neg hknown]
    right
    constructor
    · exact hphase
    · intro notice hnotice hpair
      apply hknown
      rw [List.any_eq_true]
      refine ⟨notice, hnotice, ?_⟩
      rcases Prod.mk.inj hpair with ⟨hid, hcontact⟩
      simp [hid, hcontact]
    · exact ⟨_, rfl, rfl, rfl, rfl⟩

theorem enqueueRoot_notices {context : String} {admitRoot : Bool} {r : RootEnqueueResult}
    (h : enqueueRoot host contact context admitRoot s now = .ok (r, s')) :
    s'.notices = s.notices ∨ Added s contact s'.notices := by
  unfold enqueueRoot at h
  simp only at h
  split at h
  · rcases Prod.mk.inj (Except.ok.inj h) with ⟨-, rfl⟩
    exact .inl (claimRootItem_notices host _ _ now)
  split at h
  · rcases Prod.mk.inj (Except.ok.inj h) with ⟨-, rfl⟩
    exact .inl rfl
  · rename_i hphase
    rcases Prod.mk.inj (Except.ok.inj h) with ⟨-, rfl⟩
    rcases @ensureNotice_notices host { s with
        uuidsDrawn := s.uuidsDrawn + 1
        rootQueue := s.rootQueue ++ [pendingRoot { s with uuidsDrawn := s.uuidsDrawn + 1 } now
          (host.uuid4 s.uuidsDrawn) contact context none] } now contact s.phase hphase with
      hsame | ⟨hphase, hfresh, hadded⟩
    · exact .inl hsame
    · exact .inr ⟨hphase, hfresh, hadded⟩

theorem enqueueIngressRoot_notices {context ingress : String} {r : Bool}
    (h : enqueueIngressRoot host contact context ingress s now = .ok (r, s')) :
    s'.notices = s.notices ∨ Added s contact s'.notices := by
  unfold enqueueIngressRoot at h
  split at h
  · cases h
  simp only at h
  split at h
  · split at h
    · cases h
    · rcases Prod.mk.inj (Except.ok.inj h) with ⟨-, rfl⟩
      exact .inl rfl
  split at h
  · split at h
    · cases h
    · rcases Prod.mk.inj (Except.ok.inj h) with ⟨-, rfl⟩
      exact .inl rfl
  · rcases Prod.mk.inj (Except.ok.inj h) with ⟨-, rfl⟩
    simp only
    split
    · rename_i hphase
      rcases @ensureNotice_notices host { s with
          rootQueue := s.rootQueue ++ [pendingRoot s now (ingressQueueId host ingress) contact
            context none]
          ingressReceipts := s.ingressReceipts.set (ingressQueueId host ingress)
            { contactId := contact
              fingerprint := fingerprint host contact context
              acceptedAt := now } } now contact s.phase hphase with
        hsame | ⟨hphase, hfresh, hadded⟩
      · exact .inl hsame
      · exact .inr ⟨hphase, hfresh, hadded⟩
    · exact .inl rfl

theorem transferContinuation_notices {context lease queue : String} {r : Bool}
    (h : transferContinuation host contact context lease queue s now = .ok (r, s')) :
    s'.notices = s.notices := by
  unfold transferContinuation at h
  simp only at h
  split at h
  · rcases Prod.mk.inj (Except.ok.inj h) with ⟨-, rfl⟩
    rfl
  split at h
  · split at h <;>
      (rcases Prod.mk.inj (Except.ok.inj h) with ⟨-, rfl⟩
       rfl)
  split at h <;>
    (rcases Prod.mk.inj (Except.ok.inj h) with ⟨-, rfl⟩
     rfl)

/-- What each call does to the notices: none, a new one, claims, or the end of one. -/
inductive NoticeStep (host : Host) (s : State) (now : Seconds) :
    Op → Reply → List Notice → Prop
  | same {op : Op} {r : Reply} (hop : ∀ id token delivered, op ≠ .finishNotice id token delivered) :
      NoticeStep host s now op r s.notices
  | added {op : Op} {r : Reply} {contact : String} {notices : List Notice}
      (hop : op.submits = some contact) (h : Added s contact notices) :
      NoticeStep host s now op r notices
  | claimed {limit : Int} {r : Reply} :
      NoticeStep host s now (.claimNotices limit) r
        (noticeScan host (max 1 limit).toNat now s.notices s.uuidsDrawn []).1
  | finished {id token : String} {delivered : Bool} :
      NoticeStep host s now (.finishNotice id token delivered)
        (.flag (finishScan id token delivered now s.notices).1)
        (finishScan id token delivered now s.notices).2

theorem mutation_notices {r : Reply} (h : mutation host op s now = .ok (r, s')) :
    NoticeStep host s now op r s'.notices := by
  have hsame (hop : ∀ id token delivered, op ≠ .finishNotice id token delivered)
      (heq : s'.notices = s.notices) : NoticeStep host s now op r s'.notices := by
    rw [heq]
    exact .same hop
  cases op <;> simp only [mutation] at h <;> rcases Mutation.reply_ok h with ⟨value, hvalue, hreply⟩
  case enqueueRoot contact context admitRoot =>
    rcases enqueueRoot_notices hvalue with heq | hadded
    · exact hsame (by simp) heq
    · exact .added rfl hadded
  case enqueueIngressRoot contact context ingress =>
    rcases enqueueIngressRoot_notices hvalue with heq | hadded
    · exact hsame (by simp) heq
    · exact .added rfl hadded
  case claimNotices limit =>
    rcases Prod.mk.inj (Except.ok.inj hvalue) with ⟨-, rfl⟩
    exact .claimed
  case finishNotice id token delivered =>
    rcases Prod.mk.inj (Except.ok.inj hvalue) with ⟨hflag, rfl⟩
    rw [hreply, ← hflag]
    exact .finished
  all_goals apply hsame (by simp)
  case enqueueContinuation =>
    unfold enqueueContinuation at hvalue
    split at hvalue
    · have hkept := transferContinuation_notices hvalue
      exact hkept
    · exact transferContinuation_notices hvalue
  case requestDrain =>
    unfold requestDrain at hvalue
    split at hvalue
    · split at hvalue
      · cases hvalue
      · rcases Prod.mk.inj (Except.ok.inj hvalue) with ⟨-, rfl⟩
        rfl
    · rcases Prod.mk.inj (Except.ok.inj hvalue) with ⟨-, rfl⟩
      simp
  case cancelDrain =>
    unfold cancelDrain at hvalue
    split at hvalue
    · rcases Prod.mk.inj (Except.ok.inj hvalue) with ⟨-, rfl⟩
      rfl
    split at hvalue
    · rcases Prod.mk.inj (Except.ok.inj hvalue) with ⟨-, rfl⟩
      rfl
    · rcases Prod.mk.inj (Except.ok.inj hvalue) with ⟨-, rfl⟩
      simp
  case transition =>
    unfold Maintenance.transition at hvalue
    split at hvalue
    · cases hvalue
    split at hvalue
    · cases hvalue
    split at hvalue
    · rcases Prod.mk.inj (Except.ok.inj hvalue) with ⟨-, rfl⟩
      rfl
    split at hvalue
    · cases hvalue
    split at hvalue
    · cases hvalue
    split at hvalue <;>
      (rcases Prod.mk.inj (Except.ok.inj hvalue) with ⟨-, rfl⟩
       simp)
  case claimPendingRoots limit excluded unique =>
    unfold claimPendingRoots at hvalue
    split at hvalue
    · rcases Prod.mk.inj (Except.ok.inj hvalue) with ⟨-, rfl⟩
      rfl
    · rcases Prod.mk.inj (Except.ok.inj hvalue) with ⟨-, rfl⟩
      exact claimScan_notices s.rootQueue ⟨s, [], excluded⟩
  case acquireActivity =>
    unfold acquireActivity at hvalue
    split at hvalue
    · rcases Prod.mk.inj (Except.ok.inj hvalue) with ⟨-, rfl⟩
      rfl
    split at hvalue
    · rcases Prod.mk.inj (Except.ok.inj hvalue) with ⟨-, rfl⟩
      rfl
    split at hvalue
    · rcases Prod.mk.inj (Except.ok.inj hvalue) with ⟨-, rfl⟩
      rfl
    split at hvalue <;>
      (rcases Prod.mk.inj (Except.ok.inj hvalue) with ⟨-, rfl⟩
       rfl)
  case heartbeat =>
    unfold Maintenance.heartbeat at hvalue
    split at hvalue <;>
      (rcases Prod.mk.inj (Except.ok.inj hvalue) with ⟨-, rfl⟩
       rfl)
  case adoptPrefenceActivity =>
    unfold adoptPrefenceActivity at hvalue
    split at hvalue <;>
      (rcases Prod.mk.inj (Except.ok.inj hvalue) with ⟨-, rfl⟩
       rfl)
  case acknowledgeRuntimeQuiescent =>
    unfold acknowledgeRuntimeQuiescent at hvalue
    simp only at hvalue
    split at hvalue <;>
      (rcases Prod.mk.inj (Except.ok.inj hvalue) with ⟨-, rfl⟩
       rfl)
  all_goals
    rcases Prod.mk.inj (Except.ok.inj hvalue) with ⟨-, rfl⟩
    rfl

/-! ## Claims and ends of notices -/

/-- What happens to a notice without changing for whom it is. -/
structure NoticeCarries (notice notice' : Notice) : Prop where
  pair : notice'.pair = notice.pair
  delivered : notice'.status = .delivered ↔ notice.status = .delivered
  claim : (notice.claimToken ≠ "" → notice.status = .claimed) →
    notice'.claimToken ≠ "" → notice'.status = .claimed

theorem NoticeCarries.refl (notice : Notice) : NoticeCarries notice notice :=
  ⟨rfl, Iff.rfl, id⟩

theorem pruneNotice_carries (now : Seconds) (notice : Notice) :
    NoticeCarries notice (pruneNotice now notice) := by
  unfold pruneNotice
  by_cases hexpired : notice.status = .claimed ∧ notice.claimUntil ≤ now
  · rw [if_pos hexpired]
    constructor
    · rfl
    · simp [hexpired.1]
    · intro _ hempty
      exact absurd rfl hempty
  · rw [if_neg hexpired]
    exact .refl notice

/-- Claiming keeps for whom the notices are, and which are delivered. -/
theorem noticeScan_carries (limit : Nat) (notices : List Notice) (drawn : Nat)
    (claimed : List ClaimedNotice) :
    List.Forall₂ NoticeCarries notices (noticeScan host limit now notices drawn claimed).1 := by
  induction notices generalizing drawn claimed with
  | nil => exact .nil
  | cons notice rest ih =>
      unfold noticeScan
      by_cases hfull : limit ≤ claimed.length
      · rw [if_pos hfull]
        exact List.forall₂_same.mpr fun notice _ => .refl notice
      · rw [if_neg hfull]
        by_cases hpending : notice.status = .pending
        · rw [if_pos hpending]
          refine .cons ⟨rfl, ?_, ?_⟩ (ih _ _)
          · simp [hpending]
          · intro _ _
            rfl
        · rw [if_neg hpending]
          exact .cons (.refl notice) (ih _ _)

theorem finishScan_none (h : findNotice id token notices = none) :
    finishScan id token delivered now notices = (false, notices) := by
  induction notices with
  | nil => rfl
  | cons notice rest ih =>
      unfold findNotice at h ih
      rw [List.find?_cons] at h
      unfold finishScan
      by_cases hmatch : notice.noticeId = id ∧ notice.claimToken = token
      · simp [hmatch] at h
      · rw [if_neg hmatch]
        simp only [hmatch, decide_false] at h
        rw [ih h]

/-- The first notice with this claim is finished, the others stay as they are. -/
theorem finishScan_some (h : findNotice id token notices = some notice) :
    notice.noticeId = id ∧ notice.claimToken = token ∧
      ∃ front back settled, notices = front ++ notice :: back ∧
        finishScan id token delivered now notices = (true, front ++ settled :: back) ∧
        settled.pair = notice.pair ∧ settled.claimToken = "" ∧
        settled.status = if delivered then .delivered else .pending := by
  induction notices with
  | nil => cases h
  | cons first rest ih =>
      unfold findNotice at h ih
      rw [List.find?_cons] at h
      unfold finishScan
      by_cases hmatch : first.noticeId = id ∧ first.claimToken = token
      · simp only [hmatch, and_self, decide_true, Option.some.injEq] at h
        subst h
        rw [if_pos hmatch]
        refine ⟨hmatch.1, hmatch.2, [], rest, _, rfl, rfl, ?_, rfl, ?_⟩
        · cases delivered <;> rfl
        · cases delivered <;> rfl
      · rw [if_neg hmatch]
        simp only [hmatch, decide_false] at h
        rcases ih h with ⟨hid, htoken, front, back, settled, hnotices, hscan, hsettled⟩
        refine ⟨hid, htoken, first :: front, back, settled, ?_, ?_, hsettled⟩
        · rw [hnotices, List.cons_append]
        · rw [hscan, List.cons_append]

/-! ## The invariant -/

/-- The notices, against what was delivered so far. -/
structure NoticesKept (notices : List Notice) (delivered : List (String × String)) : Prop where
  once : delivered.Nodup
  pairs : (notices.map Notice.pair).Nodup
  undelivered : ∀ notice ∈ notices, notice.status ≠ .delivered → notice.pair ∉ delivered
  claimed : ∀ notice ∈ notices, notice.claimToken ≠ "" → notice.status = .claimed

theorem NoticesKept.sublist {notices' : List Notice} (h : NoticesKept notices before)
    (hsub : notices'.Sublist notices) : NoticesKept notices' before := by
  constructor
  · exact h.once
  · exact h.pairs.sublist (hsub.map Notice.pair)
  · exact fun notice hnotice => h.undelivered notice (hsub.subset hnotice)
  · exact fun notice hnotice => h.claimed notice (hsub.subset hnotice)

theorem NoticesKept.carries {notices' : List Notice} (h : NoticesKept notices before)
    (hcarries : List.Forall₂ NoticeCarries notices notices') : NoticesKept notices' before := by
  have hpairs : notices'.map Notice.pair = notices.map Notice.pair := by
    clear h
    induction hcarries with
    | nil => rfl
    | cons hfirst _ ih => rw [List.map_cons, List.map_cons, hfirst.pair, ih]
  have hback : ∀ notice' ∈ notices', ∃ notice ∈ notices, NoticeCarries notice notice' := by
    clear h hpairs
    induction hcarries with
    | nil => exact List.forall_mem_nil _
    | cons hfirst _ ih =>
        rw [List.forall_mem_cons]
        constructor
        · exact ⟨_, List.mem_cons_self, hfirst⟩
        · intro notice' hnotice'
          rcases ih notice' hnotice' with ⟨notice, hnotice, hsame⟩
          exact ⟨notice, List.mem_cons_of_mem _ hnotice, hsame⟩
  constructor
  · exact h.once
  · rw [hpairs]
    exact h.pairs
  · intro notice' hnotice' hstatus
    rcases hback notice' hnotice' with ⟨notice, hnotice, hsame⟩
    rw [hsame.pair]
    exact h.undelivered notice hnotice fun heq => hstatus (hsame.delivered.mpr heq)
  · intro notice' hnotice'
    rcases hback notice' hnotice' with ⟨notice, hnotice, hsame⟩
    exact hsame.claim (h.claimed notice hnotice)

@[simp]
theorem prune_notices : (prune s now).notices = trimDelivered (s.notices.map (pruneNotice now)) := by
  have hcancelled : (cancelExpiredDrain s now).notices = s.notices := by
    unfold cancelExpiredDrain
    split <;> simp
  have hleases : (pruneLeases (cancelExpiredDrain s now) now).notices = s.notices := by
    unfold pruneLeases
    dsimp only
    split <;> simp [hcancelled]
  rw [prune, revokeSafeToStop_eq]
  simp only [hleases]

theorem trimDelivered_sublist (notices : List Notice) : (trimDelivered notices).Sublist notices := by
  unfold trimDelivered
  dsimp only
  split
  · exact List.filter_sublist
  · exact List.Sublist.refl notices

theorem NoticesKept.prune (h : NoticesKept s.notices before) (now : Seconds) :
    NoticesKept (prune s now).notices before := by
  rw [prune_notices]
  apply (h.carries _).sublist (trimDelivered_sublist _)
  rw [List.forall₂_map_right_iff]
  exact List.forall₂_same.mpr fun notice _ => pruneNotice_carries now notice

/-- A notice for a pair that was not delivered joins the others. -/
theorem NoticesKept.add (h : NoticesKept s.notices before) (hadded : Added s contact notices)
    (hnew : (s.maintenanceId, contact) ∉ before) : NoticesKept notices before := by
  rcases hadded.added with ⟨notice, rfl, hstatus, htoken, hpair⟩
  constructor
  · exact h.once
  · rw [List.map_append, List.map_singleton, hpair, List.nodup_append]
    refine ⟨h.pairs, List.nodup_singleton _, ?_⟩
    intro pair hmem other hother heq
    rcases List.mem_map.mp hmem with ⟨known, hknown, rfl⟩
    rw [List.mem_singleton.mp hother] at heq
    exact hadded.fresh known hknown heq
  · intro other hother hopen
    rcases List.mem_append.mp hother with hknown | hlast
    · exact h.undelivered other hknown hopen
    · rw [List.mem_singleton.mp hlast, hpair]
      exact hnew
  · intro other hother hclaim
    rcases List.mem_append.mp hother with hknown | hlast
    · exact h.claimed other hknown hclaim
    · rw [List.mem_singleton.mp hlast] at hclaim
      exact absurd htoken hclaim

/-- Finishing the notice of a claim adds its pair if it was delivered. -/
theorem NoticesKept.finish (h : NoticesKept notices before) (hfound : findNotice id token notices = some notice)
    (hopen : token = "" → notice.status ≠ .delivered) :
    NoticesKept (finishScan id token delivered now notices).2
      (before ++ if delivered then [notice.pair] else []) := by
  rcases @finishScan_some now notice notices id token delivered hfound with
    ⟨-, htoken, front, back, settled, rfl, hscan, hpair, hempty, hstatus⟩
  have hmem : notice ∈ front ++ notice :: back := by simp
  have hundelivered : notice.status ≠ .delivered := by
    by_cases hblank : token = ""
    · exact hopen hblank
    · rw [h.claimed notice hmem (by rw [htoken]; exact hblank)]
      decide
  have hnew := h.undelivered notice hmem hundelivered
  have hpairs := h.pairs
  rw [List.map_append, List.map_cons, List.nodup_append, List.nodup_cons] at hpairs
  -- the other notices are of other pairs
  have hothers : ∀ other ∈ front ++ back, other.pair ≠ notice.pair := by
    intro other hother heq
    rcases List.mem_append.mp hother with hfront | hback
    · exact hpairs.2.2 _ (List.mem_map_of_mem hfront) _ List.mem_cons_self heq
    · apply hpairs.2.1.1
      rw [← heq]
      exact List.mem_map_of_mem hback
  have hcases : ∀ other ∈ front ++ settled :: back, other ∈ front ++ back ∨ other = settled := by
    intro other hother
    simp only [List.mem_append, List.mem_cons] at hother ⊢
    tauto
  have hkept : ∀ other ∈ front ++ back, other ∈ front ++ notice :: back := by
    intro other hother
    simp only [List.mem_append, List.mem_cons] at hother ⊢
    tauto
  rw [hscan]
  constructor
  · cases delivered with
    | false => simpa using h.once
    | true =>
        rw [if_pos rfl, List.nodup_append]
        refine ⟨h.once, List.nodup_singleton _, ?_⟩
        intro pair hpair' other hother heq
        rw [List.mem_singleton.mp hother] at heq
        exact hnew (heq ▸ hpair')
  · have hsame : (front ++ settled :: back).map Notice.pair =
        (front ++ notice :: back).map Notice.pair := by
      simp only [List.map_append, List.map_cons, hpair]
    dsimp only
    rw [hsame]
    exact h.pairs
  · intro other hother hstill
    rw [List.mem_append, not_or]
    rcases hcases other hother with hmember | rfl
    · refine ⟨h.undelivered other (hkept other hmember) hstill, ?_⟩
      cases delivered with
      | false => exact List.not_mem_nil
      | true =>
          rw [if_pos rfl, List.mem_singleton]
          exact hothers other hmember
    · cases delivered with
      | false =>
          rw [hpair]
          exact ⟨hnew, List.not_mem_nil⟩
      | true => exact absurd hstatus hstill
  · intro other hother hclaim
    rcases hcases other hother with hmember | rfl
    · exact h.claimed other (hkept other hmember) hclaim
    · exact absurd hempty hclaim

/-! ## The law -/

theorem deliveredBy_other (hop : ∀ id token delivered, e.op ≠ .finishNotice id token delivered) :
    deliveredBy host w e = [] := by
  unfold deliveredBy
  split
  · rename_i id token s' heq _
    exact absurd heq (hop id token true)
  · rfl

/-- A call keeps the notices in order, if what was delivered is remembered. -/
theorem NoticesKept.step (h : NoticesKept w.state.notices before) (hremembers : Remembers w before e) :
    NoticesKept (w.after host e.op e.time).state.notices (before ++ deliveredBy host w e) := by
  have hpruned := h.prune e.time
  cases hcall : call host e.op w.state e.time with
  | error err =>
      rw [World.after_error hcall]
      have hnone : deliveredBy host w e = [] := by
        unfold deliveredBy
        rw [hcall]
        split
        · rename_i heq
          cases heq
        · rfl
      rw [hnone, List.append_nil]
      exact h
  | ok result =>
      rcases result with ⟨r, s'⟩
      rw [World.after_ok hcall]
      have hstep := @mutation_notices host (Maintenance.prune w.state e.time) s' e.op e.time r hcall
      dsimp only
      generalize hnotices : s'.notices = notices at hstep ⊢
      generalize hop : e.op = op at hstep
      cases hstep with
      | same hother =>
          rw [deliveredBy_other (by rw [hop]; exact hother), List.append_nil]
          exact hpruned
      | @added _ _ contact _ hsubmits hadded =>
          have hother : ∀ id token delivered, e.op ≠ .finishNotice id token delivered := by
            intro id token delivered heq
            rw [← hop, heq] at hsubmits
            cases hsubmits
          rw [deliveredBy_other hother, List.append_nil]
          apply hpruned.add hadded
          intro hmem
          rcases hremembers.submits contact (by rw [hop]; exact hsubmits) hadded.phase hmem with
            ⟨notice, hnotice, hpair⟩
          exact hadded.fresh notice hnotice hpair
      | claimed =>
          rw [deliveredBy_other (by rw [hop]; simp), List.append_nil]
          exact hpruned.carries (noticeScan_carries _ _ _ _)
      | @finished id token delivered =>
          cases hfound : findNotice id token (Maintenance.prune w.state e.time).notices with
          | none =>
              have hscan := @finishScan_none e.time _ _ _ delivered hfound
              have hnone : deliveredBy host w e = [] := by
                unfold deliveredBy
                rw [hcall, hop, hscan]
                split
                · rename_i heq
                  cases heq
                · rfl
              rw [hnone, List.append_nil, hscan]
              exact hpruned
          | some notice =>
              rcases @finishScan_some e.time _ _ _ _ delivered hfound with
                ⟨hid, -, front, back, settled, hsplit, hscan, -⟩
              have hdelivered : deliveredBy host w e = if delivered then [notice.pair] else [] := by
                unfold deliveredBy
                rw [hcall, hop, hscan]
                cases delivered with
                | true =>
                    dsimp only
                    rw [hfound, if_pos rfl]
                    rfl
                | false => rfl
              rw [hdelivered]
              apply hpruned.finish hfound
              intro hempty
              apply hremembers.finishes id delivered (by rw [hop, hempty]) notice _ hid
              rw [hsplit]
              simp

/-- In every sequence of calls: while what was delivered is remembered, no contact is given two
notices of one update. -/
theorem notices_law {events : List Event} {t : Seconds}
    (h : Remembering host (World.initial t) [] events) :
    ((World.initial t).deliveries host events).Nodup := by
  have hrun : ∀ (w : World) (before : List (String × String)), NoticesKept w.state.notices before →
      Remembering host w before events → (before ++ w.deliveries host events).Nodup := by
    clear h
    induction events with
    | nil =>
        intro w before hkept _
        rw [World.deliveries, List.append_nil]
        exact hkept.once
    | cons e rest ih =>
        intro w before hkept hremembering
        rw [World.deliveries, ← List.append_assoc]
        exact ih _ _ (hkept.step hremembering.1) hremembering.2
  apply hrun (World.initial t) [] _ h
  constructor
  · exact List.nodup_nil
  · exact List.nodup_nil
  · exact List.forall_mem_nil _
  · exact List.forall_mem_nil _

/-- A contact that submits a root while an update runs is told so, once. -/
theorem notices_law_single :
    ((World.initial 0).deliveries countingHost
      [⟨.requestDrain none "update-1", 1⟩, ⟨.enqueueRoot "carbon-a" "hello" true, 2⟩,
        ⟨.claimNotices 20, 3⟩, ⟨.finishNotice "aa" "aaa" true, 4⟩]).Nodup := by
  apply notices_law
  have hplain (w : World) (e : Event) (hsubmits : e.op.submits = none)
      (hfinishes : ∀ id delivered, e.op ≠ .finishNotice id "" delivered)
      (before : List (String × String)) : Remembers w before e := by
    constructor
    · intro contact hop
      rw [hsubmits] at hop
      cases hop
    · intro id delivered hop
      exact absurd hop (hfinishes id delivered)
  refine ⟨hplain _ _ rfl (by simp) _, ⟨?_, ?_⟩, hplain _ _ rfl (by simp) _,
    hplain _ _ rfl (by simp) _, trivial⟩
  · intro contact _ _ hmem
    simp [deliveredBy] at hmem
  · intro id delivered hop
    cases hop

/-! ## A delivery that is forgotten -/

section Forgotten

variable {drawn : Nat} {contacts : List String}

/-- A contact submits a root, and its notice is claimed and delivered. -/
def notify (host : Host) (drawn : Nat) (contact : String) : List Event :=
  [⟨.enqueueRoot contact "" false, 0⟩, ⟨.claimNotices 1, 0⟩,
    ⟨.finishNotice (host.uuid4 (drawn + 1)) (host.uuid4 (drawn + 2)) true, 0⟩]

/-- The same for some contacts, one after the other. -/
def notifyAll (host : Host) : Nat → List String → List Event
  | _, [] => []
  | drawn, contact :: rest => notify host drawn contact ++ notifyAll host (drawn + 3) rest

/-- The notice as it is put into the document. -/
def newNotice (host : Host) (drawn : Nat) (contact : String) : Notice where
  noticeId := host.uuid4 (drawn + 1)
  maintenanceId := "update-1"
  contactId := contact
  phase := .draining
  message := publicMessage .draining
  createdAt := 0
  status := .pending
  claimToken := ""
  claimUntil := 0
  deliveredAt := 0

/-- The notice while its claim holds. -/
def claimedNotice (host : Host) (drawn : Nat) (contact : String) : Notice :=
  { newNotice host drawn contact with
    status := .claimed
    claimToken := host.uuid4 (drawn + 2)
    claimUntil := 0 + noticeClaimTtlSeconds }

/-- The notice that was delivered. -/
def doneNotice (host : Host) (drawn : Nat) (contact : String) : Notice :=
  { newNotice host drawn contact with status := .delivered }

def doneNotices (host : Host) : Nat → List String → List Notice
  | _, [] => []
  | drawn, contact :: rest => doneNotice host drawn contact :: doneNotices host (drawn + 3) rest

/-- An update without a deadline drains, with these notices and so many draws. -/
structure Draining (s : State) (notices : List Notice) (drawn : Nat) : Prop where
  phase : s.phase = .draining
  deadline : s.deadlineAt = 0
  maintenanceId : s.maintenanceId = "update-1"
  notices : s.notices = notices
  drawn : s.uuidsDrawn = drawn

/-- Notices that were delivered. -/
def AllDone (notices : List Notice) : Prop :=
  ∀ notice ∈ notices, notice.status = .delivered ∧ notice.claimToken = ""

theorem Draining.prune (h : Draining s notices drawn) :
    Draining (prune s 0) (trimDelivered (notices.map (pruneNotice 0))) drawn := by
  have hopen : ¬ s.DrainExpired 0 := by
    unfold State.DrainExpired
    simp [h.deadline]
  have hsame : (Maintenance.prune s 0).deadlineAt = s.deadlineAt ∧
      (Maintenance.prune s 0).maintenanceId = s.maintenanceId := by
    rw [Maintenance.prune, revokeSafeToStop_eq, cancelExpiredDrain_of_not_expired s 0 hopen]
    unfold pruneLeases
    dsimp only
    split <;> simp [emit]
  constructor
  · rw [(prune_of_not_expired s 0 hopen).1, h.phase]
  · rw [hsame.1, h.deadline]
  · rw [hsame.2, h.maintenanceId]
  · rw [prune_notices, h.notices]
  · rw [prune_uuidsDrawn, h.drawn]

/-- No notice is dropped while few are delivered. -/
theorem trimDelivered_of_few
    (h : (notices.filter fun notice => notice.status = .delivered).length ≤ maxDeliveredNotices) :
    trimDelivered notices = notices := by
  unfold trimDelivered
  exact if_neg (by omega)

theorem pruneNotice_done (hdone : AllDone notices) : notices.map (pruneNotice 0) = notices := by
  have hsame : ∀ notice ∈ notices, pruneNotice 0 notice = id notice := by
    intro notice hnotice
    unfold pruneNotice
    simp [(hdone notice hnotice).1]
  rw [List.map_congr_left hsame, List.map_id]

/-- Behind delivered notices one that is not delivered is kept with them. -/
theorem pruned_last (hdone : AllDone notices) (hfew : notices.length ≤ maxDeliveredNotices)
    (hopen : notice.status ≠ .delivered) (hlive : pruneNotice 0 notice = notice) :
    trimDelivered ((notices ++ [notice]).map (pruneNotice 0)) = notices ++ [notice] := by
  rw [List.map_append, pruneNotice_done hdone, List.map_singleton, hlive, trimDelivered_of_few]
  rw [List.filter_append, List.filter_cons_of_neg (by simpa using hopen), List.filter_nil,
    List.append_nil]
  exact Nat.le_trans (List.length_filter_le _ _) hfew

theorem noticeScan_done (hdone : AllDone notices) (drawn : Nat) (last : Notice)
    (hlast : last.status = .pending) :
    (noticeScan host 1 0 (notices ++ [last]) drawn []).1 = notices ++
        [{ last with
           status := .claimed
           claimToken := host.uuid4 drawn
           claimUntil := 0 + noticeClaimTtlSeconds }] ∧
      (noticeScan host 1 0 (notices ++ [last]) drawn []).2.1 = drawn + 1 := by
  induction notices with
  | nil => simp [noticeScan, hlast]
  | cons first rest ih =>
      have hrest : AllDone rest := fun notice hnotice => hdone notice (List.mem_cons_of_mem _ hnotice)
      have hfirst : first.status ≠ .pending := by
        rw [(hdone first List.mem_cons_self).1]
        decide
      rcases ih hrest with ⟨hnotices, hdrawn⟩
      rw [List.cons_append, noticeScan, if_neg (by simp), if_neg hfirst]
      dsimp only
      rw [hnotices, hdrawn]
      exact ⟨rfl, rfl⟩

theorem findNotice_done (hdone : AllDone notices) (htoken : token ≠ "") (last : Notice)
    (hid : last.noticeId = id) (hclaim : last.claimToken = token) :
    findNotice id token (notices ++ [last]) = some last ∧
      (finishScan id token true 0 (notices ++ [last])).2 = notices ++
        [{ last with
           status := .delivered
           deliveredAt := 0
           claimToken := ""
           claimUntil := 0 }] ∧
      (finishScan id token true 0 (notices ++ [last])).1 = true := by
  induction notices with
  | nil => simp [findNotice, finishScan, hid, hclaim]
  | cons first rest ih =>
      have hrest : AllDone rest := fun notice hnotice => hdone notice (List.mem_cons_of_mem _ hnotice)
      have hfirst : ¬ (first.noticeId = id ∧ first.claimToken = token) := by
        rw [(hdone first List.mem_cons_self).2]
        rintro ⟨-, heq⟩
        exact htoken heq.symm
      rcases ih hrest with ⟨hfind, hscan, hflag⟩
      refine ⟨?_, ?_, ?_⟩
      · unfold findNotice at hfind ⊢
        rw [List.cons_append, List.find?_cons_of_neg (by simpa using hfirst), hfind]
      · rw [List.cons_append, finishScan, if_neg hfirst]
        dsimp only
        rw [hscan]
        rfl
      · rw [List.cons_append, finishScan, if_neg hfirst]
        exact hflag

/-- A root of a contact that has no notice puts one into the document. -/
theorem Draining.enqueue (h : Draining (Maintenance.prune w.state 0) notices drawn)
    (hfresh : ∀ notice ∈ notices, notice.pair ≠ ("update-1", contact)) :
    Draining (w.after host (.enqueueRoot contact "" false) 0).state
      (notices ++ [newNotice host drawn contact]) (drawn + 2) := by
  unfold World.after call transaction mutation Mutation.reply enqueueRoot
  generalize Maintenance.prune w.state 0 = pruned at h
  have hphase : pruned.phase ≠ .available := by
    rw [h.phase]
    decide
  have hnone : (pruned.notices.any fun notice =>
      notice.maintenanceId = pruned.maintenanceId ∧ notice.contactId = contact) = false := by
    rw [List.any_eq_false, h.notices, h.maintenanceId]
    intro notice hnotice hpair
    rw [decide_eq_true_eq] at hpair
    exact hfresh notice hnotice (Prod.ext hpair.1 hpair.2)
  dsimp only
  rw [if_neg (by simp [hphase]), if_neg hphase]
  unfold ensureNotice
  dsimp only
  rw [hnone, if_neg Bool.false_ne_true]
  constructor
  · exact h.phase
  · exact h.deadline
  · exact h.maintenanceId
  · dsimp only
    rw [h.notices, h.drawn, h.maintenanceId, h.phase]
    rfl
  · dsimp only
    rw [h.drawn]

/-- The new notice is the first that can be claimed. -/
theorem Draining.claim
    (h : Draining w.state (notices ++ [newNotice host drawn contact]) (drawn + 2))
    (hdone : AllDone notices) (hfew : notices.length ≤ maxDeliveredNotices) :
    Draining (w.after host (.claimNotices 1) 0).state
      (notices ++ [claimedNotice host drawn contact]) (drawn + 3) := by
  have hpruned := h.prune
  rw [pruned_last hdone hfew (by simp [newNotice]) (by simp [pruneNotice, newNotice])] at hpruned
  rcases @noticeScan_done host notices hdone (drawn + 2) (newNotice host drawn contact) rfl with
    ⟨hnotices, hdrawn⟩
  unfold World.after call transaction mutation Mutation.reply claimNotices
  dsimp only
  have hone : (max 1 (1 : Int)).toNat = 1 := rfl
  rw [hone, hpruned.notices, hpruned.drawn, hnotices, hdrawn]
  constructor
  · exact hpruned.phase
  · exact hpruned.deadline
  · exact hpruned.maintenanceId
  · rfl
  · rfl

/-- Its claim finishes it. -/
theorem Draining.deliver (h : Draining w.state (notices ++ [claimedNotice host drawn contact])
      (drawn + 3))
    (hdone : AllDone notices) (hfew : notices.length ≤ maxDeliveredNotices) :
    Draining (w.after host
        (.finishNotice (host.uuid4 (drawn + 1)) (host.uuid4 (drawn + 2)) true) 0).state
          (notices ++ [doneNotice host drawn contact]) (drawn + 3) ∧
      deliveredBy host w
        ⟨.finishNotice (host.uuid4 (drawn + 1)) (host.uuid4 (drawn + 2)) true, 0⟩ =
          [("update-1", contact)] := by
  have hpruned := h.prune
  rw [pruned_last hdone hfew (by simp [claimedNotice])
    (by simp [pruneNotice, claimedNotice, noticeClaimTtlSeconds])] at hpruned
  rcases @findNotice_done notices (host.uuid4 (drawn + 1)) _ hdone
    (host.uuid4_ne_empty (drawn + 2)) (claimedNotice host drawn contact) rfl rfl with
    ⟨hfind, hscan, hflag⟩
  have hcall : call host
      (.finishNotice (host.uuid4 (drawn + 1)) (host.uuid4 (drawn + 2)) true) w.state 0 =
        .ok (.flag true, { Maintenance.prune w.state 0 with
          notices := notices ++ [doneNotice host drawn contact] }) := by
    unfold call transaction mutation Mutation.reply finishNotice
    dsimp only
    rw [hpruned.notices, hscan, hflag]
    rfl
  constructor
  · rw [World.after_ok hcall]
    constructor
    · exact hpruned.phase
    · exact hpruned.deadline
    · exact hpruned.maintenanceId
    · rfl
    · exact hpruned.drawn
  · unfold deliveredBy
    dsimp only
    rw [hcall]
    dsimp only
    rw [hpruned.notices, hfind]
    rfl

/-- The three calls for a contact that has no notice deliver one, whatever was delivered before. -/
theorem Draining.notify {kept : List Notice} {rest : List Event}
    (h : Draining w.state notices drawn)
    (hkept : trimDelivered (notices.map (pruneNotice 0)) = kept) (hdone : AllDone kept)
    (hfew : kept.length ≤ maxDeliveredNotices)
    (hfresh : ∀ notice ∈ kept, notice.pair ≠ ("update-1", contact)) :
    ∃ w' : World, Draining w'.state (kept ++ [doneNotice host drawn contact]) (drawn + 3) ∧
      w.deliveries host (Maintenance.notify host drawn contact ++ rest) =
        ("update-1", contact) :: w'.deliveries host rest := by
  have hpruned := h.prune
  rw [hkept] at hpruned
  have hqueued := @Draining.enqueue host w kept contact drawn hpruned hfresh
  have hclaimed := hqueued.claim hdone hfew
  rcases hclaimed.deliver hdone hfew with ⟨hdelivered, hpair⟩
  refine ⟨_, hdelivered, ?_⟩
  unfold Maintenance.notify
  simp only [List.cons_append, List.nil_append, World.deliveries]
  rw [hpair, deliveredBy_other (by simp), deliveredBy_other (by simp)]
  rfl

theorem allDone_doneNotices (drawn : Nat) (contacts : List String) :
    AllDone (doneNotices host drawn contacts) := by
  induction contacts generalizing drawn with
  | nil => exact List.forall_mem_nil _
  | cons contact rest ih => exact List.forall_mem_cons.mpr ⟨⟨rfl, rfl⟩, ih _⟩

theorem length_doneNotices (drawn : Nat) (contacts : List String) :
    (doneNotices host drawn contacts).length = contacts.length := by
  induction contacts generalizing drawn with
  | nil => rfl
  | cons contact rest ih => rw [doneNotices, List.length_cons, ih, List.length_cons]

theorem pairs_doneNotices (drawn : Nat) (contacts : List String) :
    (doneNotices host drawn contacts).map Notice.pair =
      contacts.map fun contact => ("update-1", contact) := by
  induction contacts generalizing drawn with
  | nil => rfl
  | cons contact rest ih =>
      rw [doneNotices, List.map_cons, List.map_cons, ih]
      rfl

/-- The ids of later notices are drawn later. -/
theorem id_doneNotices (drawn : Nat) (contacts : List String) :
    ∀ notice ∈ doneNotices host drawn contacts, ∃ k, drawn ≤ k ∧
      notice.noticeId = host.uuid4 (k + 1) := by
  induction contacts generalizing drawn with
  | nil => exact List.forall_mem_nil _
  | cons contact rest ih =>
      rw [doneNotices, List.forall_mem_cons]
      constructor
      · exact ⟨drawn, Nat.le_refl _, rfl⟩
      · intro notice hnotice
        rcases ih (drawn + 3) notice hnotice with ⟨k, hk, hid⟩
        exact ⟨k, by omega, hid⟩

theorem AllDone.append {others : List Notice} (h : AllDone notices) (hothers : AllDone others) :
    AllDone (notices ++ others) := by
  intro notice hnotice
  rcases List.mem_append.mp hnotice with hfirst | hsecond
  · exact h notice hfirst
  · exact hothers notice hsecond

theorem trimDelivered_of_short (hdone : AllDone notices)
    (hfew : notices.length ≤ maxDeliveredNotices) :
    trimDelivered (notices.map (pruneNotice 0)) = notices := by
  rw [pruneNotice_done hdone, trimDelivered_of_few]
  exact Nat.le_trans (List.length_filter_le _ _) hfew

/-- Contacts that have no notice get one each, as long as few were delivered before the last. -/
theorem Draining.notifyAll {rest : List Event} (h : Draining w.state notices drawn)
    (hdone : AllDone notices)
    (hfew : notices.length + contacts.length ≤ maxDeliveredNotices + 1)
    (hnodup : (notices.map Notice.pair ++
      contacts.map fun contact => ("update-1", contact)).Nodup) :
    ∃ w' : World, Draining w'.state (notices ++ doneNotices host drawn contacts)
        (drawn + 3 * contacts.length) ∧
      w.deliveries host (Maintenance.notifyAll host drawn contacts ++ rest) =
        (contacts.map fun contact => ("update-1", contact)) ++ w'.deliveries host rest := by
  induction contacts generalizing w notices drawn with
  | nil =>
      refine ⟨w, ?_, rfl⟩
      rw [doneNotices, List.append_nil]
      exact h
  | cons contact later ih =>
      rw [List.length_cons] at hfew
      have hfresh : ∀ notice ∈ notices, notice.pair ≠ ("update-1", contact) := by
        rw [List.map_cons, List.nodup_append] at hnodup
        intro notice hnotice
        exact hnodup.2.2 _ (List.mem_map_of_mem hnotice) _ List.mem_cons_self
      rcases @Draining.notify host w notices contact drawn notices
        (Maintenance.notifyAll host (drawn + 3) later ++ rest) h
        (trimDelivered_of_short hdone (by omega)) hdone (by omega) hfresh with
        ⟨w₁, hafter, hfirst⟩
      have hdone' : AllDone (notices ++ [doneNotice host drawn contact]) :=
        hdone.append (allDone_doneNotices drawn [contact])
      have hnodup' : ((notices ++ [doneNotice host drawn contact]).map Notice.pair ++
          later.map fun contact => ("update-1", contact)).Nodup := by
        rw [List.map_append, List.append_assoc]
        exact hnodup
      rcases ih hafter hdone' (by rw [List.length_append, List.length_singleton]; omega) hnodup' with
        ⟨w', hlast, hlater⟩
      refine ⟨w', ?_, ?_⟩
      · rw [List.append_assoc] at hlast
        rw [doneNotices, List.length_cons, Nat.mul_add, Nat.mul_one, ← Nat.add_assoc,
          Nat.add_right_comm]
        exact hlast
      · rw [Maintenance.notifyAll, List.append_assoc, hfirst, hlater, List.map_cons,
          List.cons_append]

/-- One notice too many: the first is dropped, and the others stay. -/
theorem trimDelivered_full (contact : String) (hfull : contacts.length = maxDeliveredNotices) :
    trimDelivered ((doneNotices host 0 (contact :: contacts)).map (pruneNotice 0)) =
      doneNotices host 3 contacts := by
  rw [pruneNotice_done (allDone_doneNotices 0 _)]
  have hall : (doneNotices host 0 (contact :: contacts)).filter
      (fun notice => notice.status = .delivered) = doneNotices host 0 (contact :: contacts) := by
    rw [List.filter_eq_self]
    intro notice hnotice
    simp [(allDone_doneNotices 0 _ notice hnotice).1]
  have hremoved : ∀ notice ∈ doneNotices host 3 contacts,
      notice.noticeId ∉ [(doneNotice host 0 contact).noticeId] := by
    intro notice hnotice hmem
    rcases id_doneNotices 3 contacts notice hnotice with ⟨k, hk, hid⟩
    rw [List.mem_singleton, hid] at hmem
    have heq := host.uuid4_injective hmem
    omega
  unfold trimDelivered
  dsimp only
  rw [hall, length_doneNotices, List.length_cons, hfull, if_pos (Nat.lt_succ_self _),
    Nat.add_sub_cancel_left]
  simp only [doneNotices, List.take_succ_cons, List.take_zero, List.map_cons, List.map_nil]
  rw [List.filter_cons_of_neg (by simp), List.filter_eq_self]
  intro notice hnotice
  simpa using hremoved notice hnotice

/-- One contact more than there are notices that are kept. -/
def manyContacts : List String :=
  (List.range maxDeliveredNotices).map fun k => String.ofList (List.replicate (k + 1) 'c')

/-- An update begins, all the contacts get their notices, and the first one comes again. -/
def forgettingRun (host : Host) : List Event :=
  ⟨.requestDrain none "update-1", 0⟩ :: (notifyAll host 0 ("first" :: manyContacts) ++
    (notify host (0 + 3 * ("first" :: manyContacts).length) "first" ++ []))

theorem nodup_manyContacts : ("first" :: manyContacts).Nodup := by
  unfold manyContacts
  rw [List.nodup_cons]
  constructor
  · intro hmem
    rcases List.mem_map.mp hmem with ⟨k, -, heq⟩
    have hhead := congrArg (fun text => text.toList.head?) heq
    rw [String.toList_ofList, List.replicate_succ, List.head?_cons] at hhead
    revert hhead
    decide
  · apply List.Nodup.map _ List.nodup_range
    intro m n heq
    have hlength := congrArg (fun text => text.toList.length) heq
    simpa using hlength

theorem time_notifyAll (drawn : Nat) (contacts : List String) :
    ∀ e ∈ notifyAll host drawn contacts, e.time = 0 ∧ ∀ n, e.op.Known host n := by
  induction contacts generalizing drawn with
  | nil => exact List.forall_mem_nil _
  | cons contact rest ih =>
      intro e he
      rcases List.mem_append.mp he with hfirst | hlater
      · unfold notify at hfirst
        simp only [List.mem_cons, List.not_mem_nil, or_false] at hfirst
        rcases hfirst with rfl | rfl | rfl
        · exact ⟨rfl, fun _ => trivial⟩
        · exact ⟨rfl, fun _ => trivial⟩
        · exact ⟨rfl, fun _ => trivial⟩
      · exact ih _ e hlater

theorem clocked_of_zero {events : List Event} (h : ∀ e ∈ events, e.time = 0) :
    Clocked 0 events := by
  induction events with
  | nil => exact trivial
  | cons e rest ih =>
      rw [List.forall_mem_cons] at h
      refine ⟨h.1.ge, ?_⟩
      rw [h.1]
      exact ih h.2

/-- Two hundred contacts later the first one is given a second notice of the same update. -/
theorem forgotten_contact :
    ¬ ∀ host t events w, (coordinator host).Run (World.initial t) events w →
      ((World.initial t).deliveries host events).Nodup := by
  intro hclaim
  have hevents : ∀ e ∈ forgettingRun countingHost,
      e.time = 0 ∧ ∀ n, e.op.Known countingHost n := by
    unfold forgettingRun
    rw [List.forall_mem_cons]
    refine ⟨⟨rfl, fun _ => trivial⟩, ?_⟩
    intro e he
    rcases List.mem_append.mp he with hfirst | hsecond
    · exact time_notifyAll 0 _ e hfirst
    · exact time_notifyAll _ ["first"] e hsecond
  have hrun := @play_run countingHost (World.initial 0) _
    (clocked_of_zero fun e he => (hevents e he).1) fun e he => (hevents e he).2
  have honce := hclaim countingHost 0 _ _ hrun
  have hstart : Draining ((World.initial 0).after countingHost (.requestDrain none "update-1")
      0).state [] 0 := by
    constructor <;> decide +kernel
  have hlength : manyContacts.length = maxDeliveredNotices := by simp [manyContacts]
  have hpairs : ([].map Notice.pair ++
      ("first" :: manyContacts).map fun contact => ("update-1", contact)).Nodup := by
    rw [List.map_nil, List.nil_append]
    apply List.Nodup.map _ nodup_manyContacts
    intro a b heq
    exact (Prod.mk.inj heq).2
  rcases @Draining.notifyAll countingHost _ [] 0 ("first" :: manyContacts)
    (notify countingHost (0 + 3 * ("first" :: manyContacts).length) "first" ++ []) hstart
    (List.forall_mem_nil _) (by rw [List.length_nil, List.length_cons, hlength, Nat.zero_add])
      hpairs with ⟨w₁, hfull, hfirst⟩
  rw [List.nil_append] at hfull
  rcases @Draining.notify countingHost w₁ _ "first" _ (doneNotices countingHost 3 manyContacts) []
    hfull (trimDelivered_full "first" hlength) (allDone_doneNotices 3 _)
    (by rw [length_doneNotices, hlength]) (by
      intro notice hnotice heq
      have hmem : ("update-1", "first") ∈ manyContacts.map fun contact => ("update-1", contact) := by
        rw [← @pairs_doneNotices countingHost 3 manyContacts, ← heq]
        exact List.mem_map_of_mem hnotice
      rcases List.mem_map.mp hmem with ⟨contact, hcontact, hpair⟩
      rw [(Prod.mk.inj hpair).2] at hcontact
      exact (List.nodup_cons.mp nodup_manyContacts).1 hcontact) with ⟨w₂, -, hsecond⟩
  unfold forgettingRun at honce
  rw [World.deliveries, hfirst, hsecond, deliveredBy_other (by simp), List.nil_append,
    List.map_cons, List.cons_append, List.nodup_cons] at honce
  apply honce.1
  simp

end Forgotten

end Maintenance
end Stemcell
