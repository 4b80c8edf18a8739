import Stemcell.Lib.Dict
import Stemcell.Lib.Transition

/-!
# The trust policy

Glass owns the trust policy of a Silicon and counts its revisions.  The run process and the
Glass sidecar keep a confirmed copy in one file, note there the revisions that Glass
advertises, and fetch the policy; every access of the file is serialized, the requests are
not.

Main results:

- Definition `Desk.next`: the calls of the processes and the policies of Glass.
- Theorem `Inv.apply`: what applying an answer preserves.
- Theorem `trust_law`: applied in order, the answers never lower the confirmed revision.
- Theorem `older_answer`: an older answer that is applied last.

Current gaps:

- An answer that does not validate counts as an error, and the contacts that a policy is
  projected onto are not modelled.
-/

namespace Stemcell
namespace Trust

open Lib

/-! ## Revisions -/

/-- `team_revision` and `silicon_revision`. -/
@[ext]
structure Revision where
  team : Nat
  silicon : Nat
deriving DecidableEq, Repr

instance : LE Revision where
  le r r' := r.team ≤ r'.team ∧ r.silicon ≤ r'.silicon

instance (r r' : Revision) : Decidable (r ≤ r') :=
  inferInstanceAs (Decidable (_ ∧ _))

def Revision.zero : Revision := ⟨0, 0⟩

/-- The higher of each. -/
def Revision.max (r r' : Revision) : Revision :=
  ⟨Nat.max r.team r'.team, Nat.max r.silicon r'.silicon⟩

namespace Revision

theorem le_refl (r : Revision) : r ≤ r :=
  ⟨Nat.le_refl _, Nat.le_refl _⟩

theorem le_trans {r r' r'' : Revision} (h : r ≤ r') (h' : r' ≤ r'') : r ≤ r'' :=
  ⟨Nat.le_trans h.1 h'.1, Nat.le_trans h.2 h'.2⟩

theorem le_max_left (r r' : Revision) : r ≤ r.max r' :=
  ⟨Nat.le_max_left _ _, Nat.le_max_left _ _⟩

theorem le_max_right (r r' : Revision) : r' ≤ r.max r' :=
  ⟨Nat.le_max_right _ _, Nat.le_max_right _ _⟩

end Revision

/-! ## The file -/

/-- One effective level. -/
structure Entry where
  level : String
  source : String
  baseLevel : Option String
  overrideLevel : Option String
  overrideRevision : Nat
  centralCarbon : Bool
deriving DecidableEq, Repr

/-- Whose policy it is. -/
structure Identity where
  team : String
  siliconId : String
deriving DecidableEq, Repr

/-- A validated policy of Glass.  The team is not part of the answer. -/
structure Policy where
  identity : Identity
  revision : Revision
  entries : Dict String Entry
deriving DecidableEq, Repr

/-- `trust_policy.json`. -/
structure PolicyState where
  etag : String
  sourceSiliconId : String
  revision : Revision
  serverBootstrapped : Bool
  entries : Dict String Entry
  lastConfirmedAt : Nat
  lastError : String
  pending : Revision
  invalidatedAt : Nat
deriving DecidableEq, Repr

/-- `_default_state`. -/
def defaultState : PolicyState where
  etag := ""
  sourceSiliconId := ""
  revision := .zero
  serverBootstrapped := false
  entries := .empty
  lastConfirmedAt := 0
  lastError := ""
  pending := .zero
  invalidatedAt := 0

namespace PolicyState

variable (state : PolicyState)

/-- `_pending_revision_is_newer`. -/
def pendingRevisionIsNewer : Bool :=
  state.revision.team < state.pending.team ∨ state.revision.silicon < state.pending.silicon

/-- `_state_has_confirmed_policy`. -/
def hasConfirmedPolicy : Bool :=
  state.serverBootstrapped && 0 < state.lastConfirmedAt

/-- `_state_has_current_policy`. -/
def hasCurrentPolicy : Bool :=
  state.hasConfirmedPolicy && !state.pendingRevisionIsNewer

/-- The update of `mark_trust_policy_invalidated`. -/
def markInvalidated (advertised : Revision) (now : Nat) : PolicyState :=
  { state with pending := state.pending.max advertised, invalidatedAt := now }

/-- The update of `_apply_confirmed_policy`. -/
def applyConfirmedPolicy (policy : Policy) (etag : String) (now : Nat) : PolicyState :=
  let confirmed := { state with
    sourceSiliconId := policy.identity.siliconId
    revision := policy.revision
    entries := policy.entries
    etag := etag
    serverBootstrapped := true
    lastConfirmedAt := now
    lastError := "" }
  if confirmed.pendingRevisionIsNewer then confirmed
  else { confirmed with pending := .zero, invalidatedAt := 0 }

theorem pendingRevisionIsNewer_eq_false :
    state.pendingRevisionIsNewer = false ↔ state.pending ≤ state.revision := by
  unfold pendingRevisionIsNewer
  rw [decide_eq_false_iff_not, not_or, Nat.not_lt, Nat.not_lt]
  rfl

end PolicyState

/-- The revision that `mark_trust_policy_invalidated` notes; a value that is not a number
makes both zero. -/
def advertisedRevision (teamRevision siliconRevision : Option Int) : Revision :=
  match teamRevision, siliconRevision with
  | some team, some silicon => ⟨team.toNat, silicon.toNat⟩
  | _, _ => .zero

/-! ## Calls -/

/-- Why the policy is fetched: for its own sake, or before a change of a target. -/
inductive Purpose
  | refresh
  | change (target : String) (level : Option String)
deriving DecidableEq, Repr

/-- What Glass answers: a policy, that it is unchanged, a conflict with or without the
policy, or an error. -/
inductive Answer
  | policy (policy : Policy) (etag : String)
  | unchanged
  | conflict (policy : Option Policy)
  | failed (error : String)
deriving DecidableEq, Repr

/-- A call of `reconcile_trust_policy` or `set_contact_trust`.  A request notes which
policy Glass had when it was sent. -/
inductive Call
  | fetching (purpose : Purpose) (etag : Option String) (since : Nat)
  | fetched (purpose : Purpose) (answer : Answer)
  | refreshed (target : String) (level : Option String)
  | patching (target : String) (level : Option String) (expectedRevision : Nat) (since : Nat)
  | patched (answer : Answer)
deriving DecidableEq, Repr

/-- The file, the calls under way and the policies of Glass, the oldest first, with what was
confirmed and advertised so far, and advertised since the pending revision was cleared. -/
structure Desk where
  state : PolicyState
  calls : Dict Nat Call
  glass : List Policy
  confirmed : List Policy
  advertised : List (Identity × Revision)
  outstanding : List (Identity × Revision)
deriving DecidableEq, Repr

/-- `publish` is a step of Glass, `invalidate` a message of Glass and `crash` the death of
the process of a call. -/
inductive Event
  | publish (policy : Policy)
  | invalidate (identity : Identity) (teamRevision siliconRevision : Option Int) (now : Nat)
  | reconcile (id : Nat) (force : Bool)
  | setContactTrust (id : Nat) (target : String) (level : Option String)
  | answer (id : Nat) (answer : Answer) (moment : Nat)
  | apply (id : Nat) (now : Nat) (acknowledged : Bool)
  | send (id : Nat)
  | crash (id : Nat)
deriving DecidableEq, Repr

namespace Desk

variable (d : Desk)

/-- The request of `reconcile_trust_policy`: to bootstrap without an etag. -/
def fetch (force : Bool) (purpose : Purpose) : Call :=
  .fetching purpose
    (if d.state.serverBootstrapped ∧ d.state.etag ≠ "" ∧ force = false then some d.state.etag
      else none) d.glass.length

/-- `set_contact_trust`, once the policy is current. -/
def patch (target : String) (level : Option String) : Call :=
  .patching target level
    (((d.state.entries.get? target).map Entry.overrideRevision).getD 0) d.glass.length

/-- Glass had the policy at a moment since the request. -/
def Reflects (since moment : Nat) (policy : Policy) : Prop :=
  since ≤ moment + 1 ∧ d.glass[moment]? = some policy

instance (since moment : Nat) (policy : Policy) : Decidable (d.Reflects since moment policy) := by
  unfold Reflects
  infer_instance

/-- An answer that a request may have. -/
def Answers (since moment : Nat) : Answer → Prop
  | .policy policy _ => d.Reflects since moment policy
  | .conflict (some policy) => d.Reflects since moment policy
  | _ => True

instance (since moment : Nat) (answer : Answer) : Decidable (d.Answers since moment answer) := by
  unfold Answers
  split <;> infer_instance

/-- A policy is confirmed. -/
def confirm (policy : Policy) (etag : String) (now : Nat) : Desk :=
  let state := d.state.applyConfirmedPolicy policy etag now
  { d with
    state := state
    confirmed := policy :: d.confirmed
    outstanding := if state.pendingRevisionIsNewer then d.outstanding else [] }

/-- A call goes on, or ends. -/
def setCall (id : Nat) : Option Call → Desk
  | some call => { d with calls := d.calls.set id call }
  | none => { d with calls := d.calls.pop id }

/-- `reconcile_trust_policy` returns to `set_contact_trust` if the result is not deferred. -/
def afterFetch (purpose : Purpose) : Option Call :=
  match purpose with
  | .refresh => none
  | .change target level => some (.refreshed target level)

/-- The error is noted, and a call that wanted to change something raises. -/
def defer (id : Nat) (error : String) : Desk :=
  { d with state := { d.state with lastError := error } }.setCall id none

/-- What a call does with its answer. -/
def applyAnswer (id now : Nat) (acknowledged : Bool) : Option Desk :=
  match d.calls.get? id with
  | some (.fetched purpose (.policy policy etag)) =>
      let applied := d.confirm policy etag now
      some (if acknowledged then applied.setCall id (afterFetch purpose)
        else applied.defer id "Glass did not accept the trust-policy acknowledgement.")
  | some (.fetched purpose .unchanged) =>
      if d.state.pendingRevisionIsNewer then
        some (d.defer id
          "Glass returned an unchanged policy while a newer revision is pending.")
      else
        let applied := { d with
          state := { d.state with lastConfirmedAt := now, lastError := "" } }
        some (if acknowledged then applied.setCall id (afterFetch purpose)
          else applied.defer id "Glass did not accept the trust-policy acknowledgement.")
  | some (.fetched _ (.conflict _)) =>
      some (d.defer id "Glass trust policy is temporarily unavailable.")
  | some (.fetched _ (.failed error)) => some (d.defer id error)
  | some (.patched (.policy policy _)) => some ((d.confirm policy "" now).setCall id none)
  | some (.patched (.conflict (some policy))) => some ((d.confirm policy "" now).setCall id none)
  | some (.patched _) => some (d.setCall id none)
  | _ => none

/-- One step. -/
def next : Event → Option Desk
  | .publish policy =>
      if ∀ old ∈ d.glass, old.identity = policy.identity → old.revision ≤ policy.revision then
        some { d with glass := d.glass ++ [policy] }
      else none
  | .invalidate identity teamRevision siliconRevision now =>
      let advertised := advertisedRevision teamRevision siliconRevision
      some { d with
        state := d.state.markInvalidated advertised now
        advertised := (identity, advertised) :: d.advertised
        outstanding := (identity, advertised) :: d.outstanding }
  | .reconcile id force =>
      if (d.calls.get? id).isSome then none
      else some (d.setCall id (some (d.fetch force .refresh)))
  | .setContactTrust id target level =>
      if (d.calls.get? id).isSome then none
      else if d.state.hasCurrentPolicy then some (d.setCall id (some (d.patch target level)))
      else some (d.setCall id (some (d.fetch true (.change target level))))
  | .answer id answer moment =>
      match d.calls.get? id with
      | some (.fetching purpose _ since) =>
          if d.Answers since moment answer then
            some (d.setCall id (some (.fetched purpose answer)))
          else none
      | some (.patching _ _ _ since) =>
          if d.Answers since moment answer then some (d.setCall id (some (.patched answer)))
          else none
      | _ => none
  | .apply id now acknowledged => if 0 < now then d.applyAnswer id now acknowledged else none
  | .send id =>
      match d.calls.get? id with
      | some (.refreshed target level) =>
          some (d.setCall id
            (if d.state.hasCurrentPolicy then some (d.patch target level) else none))
      | _ => none
  | .crash id => some (d.setCall id none)

end Desk

/-- Nothing was confirmed or advertised yet, and Glass has a policy. -/
structure Initial (d : Desk) : Prop where
  state : d.state = defaultState
  calls : d.calls = .empty
  glass : ∃ policy, d.glass = [policy]
  confirmed : d.confirmed = []
  advertised : d.advertised = []
  outstanding : d.outstanding = []

/-- The processes that share the file. -/
def trusting : TransitionSystem Desk Event where
  init := Initial
  step d e d' := d.next e = some d'

/-! ## The order of the answers -/

/-- The policy that a step confirms. -/
def Desk.confirms (d : Desk) : Event → Option Policy
  | .apply id now _ =>
      if 0 < now then
        match d.calls.get? id with
        | some (.fetched _ (.policy policy _)) => some policy
        | some (.patched (.policy policy _)) => some policy
        | some (.patched (.conflict (some policy))) => some policy
        | _ => none
      else none
  | _ => none

/-- No policy is confirmed after a newer one of its identity, and none clears what was
advertised for another identity. -/
def InOrder (d : Desk) (e : Event) : Prop :=
  ∀ policy, d.confirms e = some policy →
    (∀ old ∈ d.confirmed, old.identity = policy.identity → old.revision ≤ policy.revision) ∧
      (d.state.pending ≤ policy.revision →
        ∀ noted ∈ d.outstanding, noted.1 = policy.identity)

/-- The recorded revision is the highest that was ever recorded for its identity, and while
the policy counts as current it has every revision advertised for that identity. -/
structure TrustLaw (d : Desk) : Prop where
  highest : ∀ policy ∈ d.confirmed.head?, ∀ old ∈ d.confirmed,
    old.identity = policy.identity → old.revision ≤ d.state.revision
  current : d.state.hasCurrentPolicy = true → ∃ policy ∈ d.confirmed.head?,
    d.state.revision = policy.revision ∧
      ∀ noted ∈ d.advertised, noted.1 = policy.identity → noted.2 ≤ d.state.revision

/-- What is known in every state. -/
structure Inv (d : Desk) : Prop where
  recorded : ∀ policy ∈ d.confirmed.head?, d.state.revision = policy.revision
  confirmed : d.state.serverBootstrapped = true → d.confirmed ≠ []
  highest : ∀ policy ∈ d.confirmed.head?, ∀ old ∈ d.confirmed,
    old.identity = policy.identity → old.revision ≤ policy.revision
  pending : ∀ noted ∈ d.outstanding, noted.2 ≤ d.state.pending
  -- What is no longer outstanding has been confirmed.
  settled : ∀ noted ∈ d.advertised, noted ∈ d.outstanding ∨
    ∃ old ∈ d.confirmed, old.identity = noted.1 ∧ noted.2 ≤ old.revision

variable {d d' : Desk} {e : Event} {id now : Nat} {call : Option Call} {policy : Policy}
  {etag error : String}

@[simp]
theorem setCall_state : (d.setCall id call).state = d.state := by
  cases call <;> rfl

@[simp]
theorem setCall_confirmed : (d.setCall id call).confirmed = d.confirmed := by
  cases call <;> rfl

@[simp]
theorem setCall_advertised : (d.setCall id call).advertised = d.advertised := by
  cases call <;> rfl

@[simp]
theorem setCall_outstanding : (d.setCall id call).outstanding = d.outstanding := by
  cases call <;> rfl

/-- The revisions of two files agree. -/
structure SameRevisions (d d' : Desk) : Prop where
  revision : d'.state.revision = d.state.revision
  pending : d'.state.pending = d.state.pending
  bootstrapped : d'.state.serverBootstrapped = d.state.serverBootstrapped
  confirmed : d'.confirmed = d.confirmed
  advertised : d'.advertised = d.advertised
  outstanding : d'.outstanding = d.outstanding

theorem Inv.same (h : Inv d) (hsame : SameRevisions d d') : Inv d' where
  recorded := by
    rw [hsame.confirmed, hsame.revision]
    exact h.recorded
  confirmed := by
    rw [hsame.confirmed, hsame.bootstrapped]
    exact h.confirmed
  highest := by
    rw [hsame.confirmed]
    exact h.highest
  pending := by
    rw [hsame.outstanding, hsame.pending]
    exact h.pending
  settled := by
    rw [hsame.advertised, hsame.outstanding, hsame.confirmed]
    exact h.settled

theorem Inv.setCall (h : Inv d) (id : Nat) (call : Option Call) : Inv (d.setCall id call) :=
  h.same ⟨by rw [setCall_state], by rw [setCall_state], by rw [setCall_state],
    setCall_confirmed, setCall_advertised, setCall_outstanding⟩

theorem Inv.defer (h : Inv d) (id : Nat) (error : String) : Inv (d.defer id error) := by
  unfold Desk.defer
  apply Inv.setCall
  exact h.same ⟨rfl, rfl, rfl, rfl, rfl, rfl⟩

@[simp]
theorem applyConfirmedPolicy_revision (state : PolicyState) :
    (state.applyConfirmedPolicy policy etag now).revision = policy.revision := by
  unfold PolicyState.applyConfirmedPolicy
  simp only
  split <;> rfl

/-- Applying a policy clears the pending revision exactly when the policy has it. -/
theorem applyConfirmedPolicy_pending (state : PolicyState) :
    (state.applyConfirmedPolicy policy etag now).pending =
      (if state.pending ≤ policy.revision then Revision.zero else state.pending) ∧
    ((state.applyConfirmedPolicy policy etag now).pendingRevisionIsNewer = false ↔
      state.pending ≤ policy.revision) := by
  unfold PolicyState.applyConfirmedPolicy
  simp only
  split
  · rename_i hnewer
    have hnot : ¬ state.pending ≤ policy.revision := by
      rw [← Bool.not_eq_false, PolicyState.pendingRevisionIsNewer_eq_false] at hnewer
      exact hnewer
    rw [if_neg hnot]
    exact ⟨rfl, PolicyState.pendingRevisionIsNewer_eq_false _⟩
  · rename_i hcurrent
    have hle := (PolicyState.pendingRevisionIsNewer_eq_false _).mp (Bool.not_eq_true _ ▸ hcurrent)
    have hzero : Revision.zero ≤ policy.revision := ⟨Nat.zero_le _, Nat.zero_le _⟩
    rw [if_pos hle]
    refine ⟨rfl, ?_⟩
    constructor
    · exact fun _ => hle
    · exact fun _ => (PolicyState.pendingRevisionIsNewer_eq_false _).mpr hzero

/-- A policy that is confirmed in order. -/
theorem Inv.confirm (h : Inv d)
    (hnewest : ∀ old ∈ d.confirmed, old.identity = policy.identity →
      old.revision ≤ policy.revision)
    (hclears : d.state.pending ≤ policy.revision →
      ∀ noted ∈ d.outstanding, noted.1 = policy.identity) :
    Inv (d.confirm policy etag now) := by
  rcases @applyConfirmedPolicy_pending now policy etag d.state with ⟨hpending, hcurrent⟩
  constructor
  · intro found hfound
    cases hfound
    exact applyConfirmedPolicy_revision _
  · exact fun _ => List.cons_ne_nil _ _
  · intro found hfound old hold hsame
    cases hfound
    rcases List.mem_cons.mp hold with rfl | hbefore
    · exact Revision.le_refl _
    · exact hnewest old hbefore hsame
  · intro noted hnoted
    unfold Desk.confirm at hnoted ⊢
    simp only at hnoted ⊢
    split at hnoted
    · rename_i hnewer
      have hnot : ¬ d.state.pending ≤ policy.revision := by
        intro hle
        rw [hcurrent.mpr hle] at hnewer
        cases hnewer
      rw [hpending, if_neg hnot]
      exact h.pending noted hnoted
    · cases hnoted
  · intro noted hnoted
    unfold Desk.confirm
    simp only
    rcases h.settled noted hnoted with houtstanding | ⟨old, hold, hidentity, hle⟩
    · split
      · exact .inl houtstanding
      · rename_i hcleared
        have hle := hcurrent.mp (Bool.not_eq_true _ ▸ hcleared)
        right
        refine ⟨policy, List.mem_cons_self, (hclears hle noted houtstanding).symm, ?_⟩
        exact Revision.le_trans (h.pending noted houtstanding) hle
    · exact .inr ⟨old, List.mem_cons_of_mem _ hold, hidentity, hle⟩

/-- What applying an answer preserves. -/
theorem Inv.apply {acknowledged : Bool} (h : Inv d)
    (horder : InOrder d (.apply id now acknowledged))
    (hnext : d.next (.apply id now acknowledged) = some d') : Inv d' := by
  unfold InOrder Desk.confirms at horder
  unfold Desk.next Desk.applyAnswer at hnext
  simp only at horder hnext
  split at hnext
  · rename_i hnow
    rw [if_pos hnow] at horder
    cases hcall : d.calls.get? id with
    | none =>
        rw [hcall] at hnext
        cases hnext
    | some call =>
        rw [hcall] at hnext horder
        cases call with
        | fetched purpose answer =>
            cases answer with
            | policy policy etag =>
                have hconfirm : Inv (d.confirm policy etag now) :=
                  h.confirm (horder policy rfl).1 (horder policy rfl).2
                cases hnext
                split
                · exact hconfirm.setCall _ _
                · exact hconfirm.defer _ _
            | unchanged =>
                simp only at hnext
                split at hnext
                · cases hnext
                  exact h.defer _ _
                · cases hnext
                  have hconfirmed : Inv { d with
                      state := { d.state with lastConfirmedAt := now, lastError := "" } } :=
                    h.same ⟨rfl, rfl, rfl, rfl, rfl, rfl⟩
                  split
                  · exact hconfirmed.setCall _ _
                  · exact hconfirmed.defer _ _
            | conflict found =>
                cases hnext
                exact h.defer _ _
            | failed error =>
                cases hnext
                exact h.defer _ _
        | patched answer =>
            cases answer with
            | policy policy etag =>
                cases hnext
                exact (h.confirm (horder policy rfl).1 (horder policy rfl).2).setCall _ _
            | conflict found =>
                cases found with
                | some policy =>
                    cases hnext
                    exact (h.confirm (horder policy rfl).1 (horder policy rfl).2).setCall _ _
                | none =>
                    cases hnext
                    exact h.setCall _ _
            | unchanged | failed =>
                cases hnext
                exact h.setCall _ _
        | fetching | refreshed | patching => cases hnext
  · cases hnext

theorem Inv.invalidate {identity : Identity} {teamRevision siliconRevision : Option Int}
    (h : Inv d)
    (hnext : d.next (.invalidate identity teamRevision siliconRevision now) = some d') :
    Inv d' := by
  cases hnext
  constructor
  · exact h.recorded
  · exact h.confirmed
  · exact h.highest
  · intro noted hnoted
    rcases List.mem_cons.mp hnoted with rfl | hbefore
    · exact Revision.le_max_right _ _
    · exact Revision.le_trans (h.pending noted hbefore) (Revision.le_max_left _ _)
  · intro noted hnoted
    rcases List.mem_cons.mp hnoted with rfl | hbefore
    · exact .inl List.mem_cons_self
    · rcases h.settled noted hbefore with houtstanding | hconfirmed
      · exact .inl (List.mem_cons_of_mem _ houtstanding)
      · exact .inr hconfirmed

theorem Inv.step (h : Inv d) (horder : InOrder d e) (hnext : d.next e = some d') : Inv d' := by
  cases e with
  | publish policy =>
      unfold Desk.next at hnext
      simp only at hnext
      split at hnext <;> cases hnext
      exact h.same ⟨rfl, rfl, rfl, rfl, rfl, rfl⟩
  | invalidate => exact h.invalidate hnext
  | apply => exact h.apply horder hnext
  | reconcile =>
      unfold Desk.next at hnext
      simp only at hnext
      split at hnext <;> cases hnext
      exact h.setCall _ _
  | setContactTrust =>
      unfold Desk.next at hnext
      simp only at hnext
      split at hnext
      · cases hnext
      · split at hnext <;> cases hnext
        all_goals exact h.setCall _ _
  | answer =>
      unfold Desk.next at hnext
      simp only at hnext
      split at hnext
      · split at hnext <;> cases hnext
        exact h.setCall _ _
      · split at hnext <;> cases hnext
        exact h.setCall _ _
      · cases hnext
  | send =>
      unfold Desk.next at hnext
      simp only at hnext
      split at hnext <;> cases hnext
      exact h.setCall _ _
  | crash =>
      cases hnext
      exact h.setCall _ _

theorem Initial.inv (h : Initial d) : Inv d where
  recorded := by
    rw [h.confirmed]
    exact fun _ hmem => nomatch hmem
  confirmed := by
    rw [h.state]
    exact fun hfalse => nomatch hfalse
  highest := by
    rw [h.confirmed]
    exact fun _ hmem => nomatch hmem
  pending := by
    rw [h.outstanding]
    exact fun _ hmem => nomatch hmem
  settled := by
    rw [h.advertised]
    exact fun _ hmem => nomatch hmem

theorem Inv.trustLaw (h : Inv d) : TrustLaw d := by
  constructor
  · intro policy hpolicy old hold hsame
    rw [h.recorded policy hpolicy]
    exact h.highest policy hpolicy old hold hsame
  · intro hcurrent
    unfold PolicyState.hasCurrentPolicy PolicyState.hasConfirmedPolicy at hcurrent
    rw [Bool.and_eq_true, Bool.and_eq_true, Bool.not_eq_true',
      PolicyState.pendingRevisionIsNewer_eq_false] at hcurrent
    rcases hcurrent with ⟨⟨hbootstrapped, -⟩, hpending⟩
    rcases List.exists_cons_of_ne_nil (h.confirmed hbootstrapped) with ⟨policy, rest, hconfirmed⟩
    have hhead : policy ∈ d.confirmed.head? := by
      rw [hconfirmed]
      rfl
    refine ⟨policy, hhead, h.recorded policy hhead, ?_⟩
    intro noted hnoted hidentity
    rcases h.settled noted hnoted with houtstanding | ⟨old, hold, hsame, hle⟩
    · exact Revision.le_trans (h.pending noted houtstanding) hpending
    · rw [h.recorded policy hhead]
      exact Revision.le_trans hle (h.highest policy hhead old hold (hsame.trans hidentity))

/-- What a confirming step leaves. -/
theorem confirms_next (hconfirms : d.confirms e = some policy) (hnext : d.next e = some d') :
    d'.state.revision = policy.revision ∧ d'.confirmed = policy :: d.confirmed := by
  cases e with
  | apply id now acknowledged =>
      unfold Desk.confirms at hconfirms
      unfold Desk.next Desk.applyAnswer at hnext
      simp only at hconfirms hnext
      split at hconfirms
      · rename_i hnow
        rw [if_pos hnow] at hnext
        split at hconfirms
        · rename_i hcall
          cases hconfirms
          rw [hcall] at hnext
          cases hnext
          split
          · rw [setCall_state, setCall_confirmed]
            exact ⟨applyConfirmedPolicy_revision _, rfl⟩
          · unfold Desk.defer
            rw [setCall_state, setCall_confirmed]
            exact ⟨applyConfirmedPolicy_revision _, rfl⟩
        · rename_i hcall
          cases hconfirms
          rw [hcall] at hnext
          cases hnext
          rw [setCall_state, setCall_confirmed]
          exact ⟨applyConfirmedPolicy_revision _, rfl⟩
        · rename_i hcall
          cases hconfirms
          rw [hcall] at hnext
          cases hnext
          rw [setCall_state, setCall_confirmed]
          exact ⟨applyConfirmedPolicy_revision _, rfl⟩
        · cases hconfirms
      · cases hconfirms
  | _ => cases hconfirms

/-- While the answers are applied in order the recorded revisions never go back, and the
policy counts as current only with all that was advertised; every policy that is applied
after a newer one of its identity lowers the recorded revision. -/
theorem trust_law (d : Desk) :
    ((trusting.restrict InOrder).Reachable d → TrustLaw d) ∧
      ∀ e d' policy old, d.next e = some d' → d.confirms e = some policy →
        old ∈ d.confirmed → old.identity = policy.identity → ¬ old.revision ≤ policy.revision →
          ¬ TrustLaw d' := by
  constructor
  · intro hreach
    apply Inv.trustLaw
    apply hreach.invariant
    · exact fun _ hinit => hinit.inv
    · exact fun _ _ _ _ hinv hstep => hinv.step hstep.1 hstep.2
  · intro e d' policy old hnext hconfirms hold hidentity hlower hlaw
    rcases confirms_next hconfirms hnext with ⟨hrevision, hconfirmed⟩
    apply hlower
    rw [← hrevision]
    apply hlaw.highest policy _ old _ hidentity
    · rw [hconfirmed]
      rfl
    · rw [hconfirmed]
      exact List.mem_cons_of_mem _ hold

/-! ## An older answer -/

/-- A policy of one Silicon that gives one Carbon a level. -/
def levelPolicy (revision : Revision) (level : String) : Policy where
  identity := ⟨"team-1", "silicon-1"⟩
  revision := revision
  entries := Dict.empty.set "carbon:alice"
    ⟨level, "team_base", some level, none, 0, false⟩

def unconfirmed : Desk where
  state := defaultState
  calls := .empty
  glass := [levelPolicy ⟨1, 1⟩ "high"]
  confirmed := []
  advertised := []
  outstanding := []

/-- The answer to the first request is on its way while trust is revoked; the second request
brings the new policy, and the first answer is applied after it. -/
def appliedLate : List Event :=
  [.reconcile 0 false, .answer 0 (.policy (levelPolicy ⟨1, 1⟩ "high") "") 0,
    .publish (levelPolicy ⟨2, 1⟩ "very_low"),
    .invalidate ⟨"team-1", "silicon-1"⟩ (some 2) (some 1) 10,
    .reconcile 1 true, .answer 1 (.policy (levelPolicy ⟨2, 1⟩ "very_low") "e2") 1,
    .apply 1 11 true, .apply 0 12 true]

/-- The revoked level counts as current. -/
theorem older_answer : ¬ ∀ d, trusting.Reachable d → TrustLaw d := by
  intro hclaim
  have hplay : (TransitionSystem.play Desk.next unconfirmed appliedLate).isSome := by
    decide +kernel
  rcases Option.isSome_iff_exists.mp hplay with ⟨d, hd⟩
  have hreach : trusting.Reachable unconfirmed := .init ⟨rfl, rfl, ⟨_, rfl⟩, rfl, rfl, rfl⟩
  have hlaw := hclaim d (hreach.play (fun _ _ _ hnext => hnext) hd)
  have hlost : ∀ d ∈ TransitionSystem.play Desk.next unconfirmed appliedLate,
      d.state.hasCurrentPolicy = true ∧ d.state.revision = ⟨1, 1⟩ ∧
        d.confirmed = [levelPolicy ⟨1, 1⟩ "high", levelPolicy ⟨2, 1⟩ "very_low"] := by
    decide +kernel
  rcases hlost d hd with ⟨-, hrevision, hconfirmed⟩
  have hle := hlaw.highest (levelPolicy ⟨1, 1⟩ "high") (by rw [hconfirmed]; rfl)
    (levelPolicy ⟨2, 1⟩ "very_low") (by rw [hconfirmed]; simp) rfl
  rw [hrevision] at hle
  exact absurd hle (by decide)

end Trust
end Stemcell
