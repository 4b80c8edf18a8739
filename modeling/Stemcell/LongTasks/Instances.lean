import Stemcell.LongTasks.RootQueue

/-!
# Instances of one lifecycle

A lifecycle is held in memory by an instance that has claimed the entry of its contact.  When the
lease of an instance runs out another one may take the entry over, and the first one goes on
persisting until it finds out.

Main results:

- Definition `World.next`: one step of an instance or of the other transactions.
- Theorem `closing_law`: the runs in which a closed lifecycle stays closed.

Current gaps:

- What an instance persists is any record under its own name.
-/

namespace Stemcell
namespace LongTasks

open Lib
open Maintenance (Seconds)

/-! ## Steps -/

/-- The state file, the instances whose `_closed` is set, and the history of one contact: the
instance that last wrote its entry as active, whether it has closed the entry since, and whether a
closed entry has been opened again by what was persisted. -/
structure World where
  state : TaskState
  closed : List String
  holder : Option String
  ended : Bool
  revived : Bool
deriving DecidableEq, Repr

/-- No instance yet. -/
def World.initial : World where
  state := .default
  closed := []
  holder := none
  ended := false
  revived := false

/-- A step of an instance of the lifecycle, known by its lease owner, or a transaction that is
none. -/
inductive InstanceStep
  | claim (process : Process) (now : Seconds) (owner expectedRunId : String) (allowCreate : Bool)
  | beginClose (owner : String)
  | persist (process : Process) (now : Seconds) (payload : Record)
  | close (process : Process) (now : Seconds) (payload : Record)
  | other (step : Step)

/-- The transaction is not made by an instance for this contact. -/
def Step.elsewhere (contactId : String) : Step → Bool
  | .openLifecycle _ _ other _ _ _ => other ≠ contactId
  | .persistLifecycle _ _ other _ => other ≠ contactId
  | .closeLifecycle _ _ other _ => other ≠ contactId
  | _ => true

variable (sha256 : String → List Char) (contactId : String)

/-- An instance owns the active entry. -/
def ownedBy (owner : String) (state : TaskState) : Bool :=
  match state.contacts.get? contactId with
  | some (.active record) => record.leaseOwner = owner
  | _ => false

/-- `_claim_contact` of an instance. -/
def World.claim (w : World) (process : Process) (now : Seconds) (owner expectedRunId : String)
    (allowCreate : Bool) : World :=
  match claimContact ⟨process, sha256⟩ now contactId owner expectedRunId allowCreate w.state with
  | (some _, state) => { w with state := state, holder := some owner, ended := false }
  | (none, state) => { w with state := state }

/-- The transaction of `_persist(active=True)`.  A closed instance writes nothing. -/
def World.persist (w : World) (process : Process) (now : Seconds) (payload : Record) : World :=
  if payload.leaseOwner ∈ w.closed then w
  else
    match LongTasks.persist ⟨process, sha256⟩ now contactId payload w.state with
    | (true, state) =>
        { w with
          state := state
          holder := some payload.leaseOwner
          ended := false
          revived := w.revived || w.ended }
    | (false, state) => { w with state := state }

/-- `_close_locked`: the instance is closed, and so is its entry if it owns it. -/
def World.close (w : World) (process : Process) (now : Seconds) (payload : Record) : World :=
  { w with
    state := LongTasks.close ⟨process, sha256⟩ now contactId payload w.state
    closed := payload.leaseOwner :: w.closed
    ended := w.ended || ownedBy contactId payload.leaseOwner w.state }

/-- The world after a step. -/
def World.next (w : World) : InstanceStep → Option World
  | .claim process now owner expectedRunId allowCreate =>
      some (w.claim sha256 contactId process now owner expectedRunId allowCreate)
  | .beginClose owner => some { w with closed := owner :: w.closed }
  | .persist process now payload => some (w.persist sha256 contactId process now payload)
  | .close process now payload => some (w.close sha256 contactId process now payload)
  | .other step =>
      if step.elsewhere contactId then some { w with state := LongTasks.next sha256 w.state step }
      else none

/-- All runs of the instances of one contact. -/
def holding : TransitionSystem World InstanceStep where
  init w := w = .initial
  step w step w' := w.next sha256 contactId step = some w'

/-- An instance that persists after the entry was closed is closed, or it held the entry last. -/
def Current (w : World) : InstanceStep → Prop
  | .persist _ _ payload =>
      w.ended = true → w.holder = some payload.leaseOwner ∨ payload.leaseOwner ∈ w.closed
  | _ => True

variable {sha256 contactId} {w w' : World} {state : TaskState} {record : Record}
  {machine : Machine} {now : Seconds}

/-! ## Who holds an active entry -/

theorem active_of_foldl {limit : Nat} {entries : List (String × List QueuedRoot)}
    {claiming : Claiming}
    (h : (entries.foldl (claimReadyRoot machine now limit) claiming).contacts.get? contactId =
      some (.active record)) :
    claiming.contacts.get? contactId = some (.active record) := by
  induction entries generalizing claiming with
  | nil => exact h
  | cons entry rest ih =>
      have hstep := ih h
      unfold claimReadyRoot at hstep
      split at hstep
      · exact hstep
      · exact active_of_settleTerminal hstep

/-- Another transaction opens no entry, and leaves an open one to its owner. -/
theorem owned_other {step : Step} (helsewhere : step.elsewhere contactId = true)
    (h : (next sha256 state step).contacts.get? contactId = some (.active record)) :
    ∃ before, state.contacts.get? contactId = some (.active before) ∧
      before.leaseOwner = record.leaseOwner := by
  cases step with
  | recover process now other => exact ⟨record, active_of_prune (active_of_settleTerminal h), rfl⟩
  | submit process now other runId context visible =>
      unfold next at h
      dsimp only at h
      split at h
      · rename_i state' hok
        refine ⟨record, (@active_of_prune ⟨process, sha256⟩ now _ _ _) ?_, rfl⟩
        rcases insertRoot_ok hok with hsame | ⟨items, -, -, -, -, hset⟩
        · rw [hsame] at h
          exact h
        · rw [hset] at h
          exact h
      · exact ⟨record, h, rfl⟩
  | claim process now limit => exact ⟨record, active_of_prune (active_of_foldl h), rfl⟩
  | acknowledge rootId =>
      unfold next acknowledgeQueuedLongTaskRoot at h
      dsimp only at h
      split at h <;> exact ⟨record, h, rfl⟩
  | openLifecycle process now other owner expectedRunId allowCreate =>
      have hother := of_decide_eq_true helsewhere
      unfold next claimContact at h
      dsimp only at h
      split at h
      · exact ⟨record, active_of_prune h, rfl⟩
      split at h
      · exact ⟨record, active_of_prune h, rfl⟩
      · rw [Dict.get?_set_of_ne _ _ hother] at h
        exact ⟨record, active_of_prune h, rfl⟩
  | persistLifecycle process now other payload =>
      have hother := of_decide_eq_true helsewhere
      unfold next LongTasks.persist at h
      dsimp only at h
      split at h
      · split at h
        · exact ⟨record, active_of_prune h, rfl⟩
        · rw [Dict.get?_set_of_ne _ _ hother] at h
          exact ⟨record, active_of_prune h, rfl⟩
      · rw [Dict.get?_set_of_ne _ _ hother] at h
        exact ⟨record, active_of_prune h, rfl⟩
  | closeLifecycle process now other payload =>
      have hother := of_decide_eq_true helsewhere
      have hbefore := active_of_prune h
      split at hbefore
      · split at hbefore
        · rw [Dict.get?_set_of_ne _ _ hother] at hbefore
          exact ⟨record, hbefore, rfl⟩
        · exact ⟨record, hbefore, rfl⟩
      · exact ⟨record, hbefore, rfl⟩
  | recordFact now other workerId stateName description =>
      unfold next recordPendingWorkerState at h
      dsimp only at h
      split at h
      · rename_i before hget
        split at h
        · rename_i after hafter
          rcases Option.map_eq_some_iff.mp hafter with ⟨intent, -, rfl⟩
          rw [Dict.get?_set] at h
          split at h
          · rename_i hsame
            subst hsame
            cases h
            exact ⟨before, hget, rfl⟩
          · exact ⟨record, h, rfl⟩
        · exact ⟨record, h, rfl⟩
      · exact ⟨record, h, rfl⟩

/-- What a claim of an instance leaves. -/
theorem claimContact_cases {owner expectedRunId : String} {allowCreate : Bool} :
    (∃ record state', claimContact machine now contactId owner expectedRunId allowCreate state =
        (some record, state') ∧ record.leaseOwner = owner ∧
          state'.contacts.get? contactId = some (.active record)) ∨
      claimContact machine now contactId owner expectedRunId allowCreate state =
        (none, prune machine now state) := by
  unfold claimContact
  dsimp only
  split
  · exact .inr rfl
  split
  · exact .inr rfl
  · exact .inl ⟨_, _, rfl, rfl, Dict.get?_set_self _ _ _⟩

/-- A persist writes unless somebody else holds the entry. -/
theorem persist_cases {payload : Record} :
    (∃ record state', persist machine now contactId payload state = (true, state') ∧
      record.leaseOwner = payload.leaseOwner ∧
        state'.contacts.get? contactId = some (.active record)) ∨
    (∃ current, state.contacts.get? contactId = some (.active current)) ∧
      persist machine now contactId payload state = (false, prune machine now state) := by
  unfold persist
  dsimp only
  split
  · rename_i current hget
    split
    · exact .inr ⟨⟨current, active_of_prune hget⟩, rfl⟩
    · exact .inl ⟨mergeWorkers payload current, _, rfl, rfl, Dict.get?_set_self _ _ _⟩
  · exact .inl ⟨payload, _, rfl, rfl, Dict.get?_set_self _ _ _⟩

/-- A close leaves the entry active only to another owner. -/
theorem active_of_close {payload : Record}
    (h : (close machine now contactId payload state).contacts.get? contactId =
      some (.active record)) :
    state.contacts.get? contactId = some (.active record) ∧
      ownedBy contactId payload.leaseOwner state = false := by
  have hbefore := active_of_prune h
  unfold ownedBy
  split at hbefore
  · rename_i current hget
    split at hbefore
    · rw [Dict.get?_set_self] at hbefore
      cases hbefore
    · rename_i hother
      rw [hget] at hbefore ⊢
      cases hbefore
      exact ⟨rfl, decide_eq_false hother⟩
  · rename_i hidle
    exact absurd hbefore (hidle record)

theorem ownedBy_iff {owner : String} : ownedBy contactId owner state = true ↔
    ∃ record, state.contacts.get? contactId = some (.active record) ∧
      record.leaseOwner = owner := by
  unfold ownedBy
  split
  · rename_i record hget
    simp [hget]
  · rename_i hidle
    constructor
    · intro h
      cases h
    · rintro ⟨record, hget, -⟩
      exact absurd hget (hidle record)

/-! ## Closed entries -/

/-- An active entry belongs to its holder, and who has closed the entry is closed. -/
structure Held (contactId : String) (w : World) : Prop where
  active : ∀ record, w.state.contacts.get? contactId = some (.active record) →
    w.holder = some record.leaseOwner ∧ w.ended = false
  ended : w.ended = true → ∃ owner ∈ w.closed, w.holder = some owner
  kept : w.revived = false

theorem held_initial : Held contactId .initial where
  active := fun _ h => nomatch h
  ended := fun h => nomatch h
  kept := rfl

/-- A transaction that opens nothing keeps who holds what. -/
theorem Held.withState (h : Held contactId w)
    (hactive : ∀ record, state.contacts.get? contactId = some (.active record) →
      ∃ before, w.state.contacts.get? contactId = some (.active before) ∧
        before.leaseOwner = record.leaseOwner) :
    Held contactId { w with state := state } where
  active := by
    intro record hget
    rcases hactive record hget with ⟨before, hbefore, howner⟩
    rw [← howner]
    exact h.active before hbefore
  ended := h.ended
  kept := h.kept

theorem Held.prune (h : Held contactId w) :
    Held contactId { w with state := LongTasks.prune machine now w.state } :=
  h.withState fun record hget => ⟨record, active_of_prune hget, rfl⟩

theorem Held.claim (h : Held contactId w) {process : Process} {owner expectedRunId : String}
    {allowCreate : Bool} :
    Held contactId (w.claim sha256 contactId process now owner expectedRunId allowCreate) := by
  unfold World.claim
  rcases @claimContact_cases contactId w.state ⟨process, sha256⟩ now owner expectedRunId
      allowCreate with ⟨record, state', hclaim, howner, hget⟩ | hclaim
  · rw [hclaim]
    constructor
    · intro found hfound
      rw [hget] at hfound
      cases hfound
      exact ⟨congrArg some howner.symm, rfl⟩
    · exact fun hended => nomatch hended
    · exact h.kept
  · rw [hclaim]
    exact h.prune

theorem Held.persist (h : Held contactId w) {process : Process} {payload : Record}
    (hcurrent : w.ended = true →
      w.holder = some payload.leaseOwner ∨ payload.leaseOwner ∈ w.closed) :
    Held contactId (w.persist sha256 contactId process now payload) := by
  unfold World.persist
  split
  · exact h
  rename_i hopen
  have hended : w.ended = false := by
    rw [← Bool.not_eq_true]
    intro hended
    rcases hcurrent hended with hholder | hclosed
    · rcases h.ended hended with ⟨owner, hclosed, hsame⟩
      rw [hholder] at hsame
      cases hsame
      exact hopen hclosed
    · exact hopen hclosed
  rcases @persist_cases contactId w.state ⟨process, sha256⟩ now payload with
    ⟨record, state', hpersist, howner, hget⟩ | ⟨-, hpersist⟩
  · rw [hpersist]
    constructor
    · intro found hfound
      rw [hget] at hfound
      cases hfound
      exact ⟨congrArg some howner.symm, rfl⟩
    · exact fun hended => nomatch hended
    · rw [hended, h.kept]
      rfl
  · rw [hpersist]
    exact h.prune

theorem Held.close (h : Held contactId w) {process : Process} {payload : Record} :
    Held contactId (w.close sha256 contactId process now payload) := by
  constructor
  · intro record hget
    rcases active_of_close hget with ⟨hbefore, howned⟩
    rcases h.active record hbefore with ⟨hholder, hended⟩
    refine ⟨hholder, ?_⟩
    unfold World.close
    dsimp only
    rw [hended, howned]
    rfl
  · intro hended
    rcases (Bool.or_eq_true _ _).mp hended with hbefore | howned
    · rcases h.ended hbefore with ⟨owner, hclosed, hholder⟩
      exact ⟨owner, List.mem_cons_of_mem _ hclosed, hholder⟩
    · rcases ownedBy_iff.mp howned with ⟨record, hget, howner⟩
      refine ⟨payload.leaseOwner, List.mem_cons_self, ?_⟩
      rw [← howner]
      exact (h.active record hget).1
  · exact h.kept

theorem Held.step {step : InstanceStep} (h : Held contactId w) (hcurrent : Current w step)
    (hnext : w.next sha256 contactId step = some w') : Held contactId w' := by
  cases step with
  | claim process now owner expectedRunId allowCreate =>
      cases hnext
      exact h.claim
  | beginClose owner =>
      cases hnext
      constructor
      · exact h.active
      · intro hended
        rcases h.ended hended with ⟨found, hclosed, hholder⟩
        exact ⟨found, List.mem_cons_of_mem _ hclosed, hholder⟩
      · exact h.kept
  | persist process now payload =>
      cases hnext
      exact h.persist hcurrent
  | close process now payload =>
      cases hnext
      exact h.close
  | other step =>
      unfold World.next at hnext
      dsimp only at hnext
      split at hnext
      · rename_i helsewhere
        cases hnext
        exact h.withState fun record hget => owned_other helsewhere hget
      · cases hnext

theorem current_held (h : ((holding sha256 contactId).restrict Current).Reachable w) :
    Held contactId w := by
  apply h.invariant
  · intro w hinit
    rw [hinit]
    exact held_initial
  · intro w step w' _ hheld hstep
    exact hheld.step hstep.1 hstep.2

/-- An instance that was replaced and is still open revives what its successor has closed. -/
theorem Held.revives {step : InstanceStep} (h : Held contactId w) (hlate : ¬ Current w step)
    (hnext : w.next sha256 contactId step = some w') : w'.revived = true := by
  cases step with
  | persist process now payload =>
      unfold Current at hlate
      push Not at hlate
      rcases hlate with ⟨hended, -, hopen⟩
      cases hnext
      unfold World.persist
      rw [if_neg hopen]
      rcases @persist_cases contactId w.state ⟨process, sha256⟩ now payload with
        ⟨record, state', hpersist, -, -⟩ | ⟨⟨current, hget⟩, -⟩
      · rw [hpersist, hended]
        exact Bool.or_true _
      · rw [(h.active current hget).2] at hended
        cases hended
  | _ => exact absurd trivial hlate

/-- A closed lifecycle stays closed all along exactly the runs in which no open instance that was
replaced persists after its successor has closed the entry. -/
theorem closing_law {steps : List InstanceStep}
    (hinit : (holding sha256 contactId).init w)
    (hrun : (holding sha256 contactId).Run w steps w') :
    (∀ taken v, taken <+: steps → (holding sha256 contactId).Run w taken v → v.revived = false) ↔
      ((holding sha256 contactId).restrict Current).Run w steps w' := by
  have hstart : ((holding sha256 contactId).restrict Current).Reachable w := .init hinit
  apply TransitionSystem.Run.restrict_iff _ _ _ hstart hrun
  · intro a step b c hb hc
    exact Option.some.inj (hb.symm.trans hc)
  · exact fun v hreach => (current_held hreach).kept
  · intro v step v' hreach hstep hlate hkept
    rw [(current_held hreach).revives hlate hstep] at hkept
    cases hkept

/-! ## A slow instance -/

/-- A lifecycle as the instance of the first process has it. -/
def slowRecord : Record :=
  { Record.fresh 0 "r1" with
    leaseOwner := "1:first:x"
    leasePid := 1
    leaseUntil := 72 }

/-- The lifecycle after the second process has taken it over. -/
def successorRecord : Record :=
  { Record.fresh 40 "r1" with
    leaseOwner := "2:second:y"
    leasePid := 2
    leaseUntil := 71 }

/-- The first instance stalls until its lease has run out, the second one takes the entry over
and closes it, and the first one persists. -/
def slowFlush : List InstanceStep :=
  [.claim firstProcess 0 "1:first:x" "r1" true, .claim secondProcess 40 "2:second:y" "r1" false,
    .close secondProcess 41 successorRecord, .persist firstProcess 42 slowRecord]

def slowWorld (steps : List InstanceStep) : Option World :=
  TransitionSystem.play (World.next sampleSha256 "a") .initial steps

theorem slow_flush_law : (slowWorld slowFlush).isSome = true ∧
    ∀ w, slowWorld slowFlush = some w →
      ((∀ taken v, taken <+: slowFlush → (holding sampleSha256 "a").Run .initial taken v →
          v.revived = false) ↔
        ((holding sampleSha256 "a").restrict Current).Run .initial slowFlush w) := by
  constructor
  · decide +kernel
  · intro w hplay
    exact closing_law rfl (TransitionSystem.Run.play (fun _ _ _ h => h) hplay)

/-- The closed entry is active again. -/
theorem closed_entry_revived : ¬ ∀ w, (holding sampleSha256 "a").Reachable w → w.revived = false := by
  intro hclaim
  have hplay : (slowWorld slowFlush).map World.revived = some true := by
    decide +kernel
  cases hrun : slowWorld slowFlush with
  | none =>
      rw [hrun] at hplay
      cases hplay
  | some w =>
      have hreach : (holding sampleSha256 "a").Reachable w :=
        TransitionSystem.Reachable.play (.init rfl) (fun _ _ _ h => h) hrun
      rw [hrun, Option.map_some, hclaim w hreach] at hplay
      cases hplay

end LongTasks
end Stemcell
