import Stemcell.LongTasks.Entries

/-!
# The queues of parked roots

A root that would start while the lifecycle of its contact still has a reply or a terminal state
to deliver is parked behind it, and is claimed at the head of its queue when the lifecycle has
closed.  The transactions of all threads and processes interleave freely.

Main results:

- Definition `queueLongTaskRootIfBlocked`: the submission of a root.
- Definition `queueing`: the transition system of all transactions of the state file.
- Theorem `queue_discipline`: bounds, order, claims and rejections in every run.

Current gaps:

- A lifecycle in memory is known by what a submission reads of it, and its closing by
  `close_if_terminal` is a transaction of its own.
-/

namespace Stemcell
namespace LongTasks

open Lib
open Maintenance (Seconds)

def maxQueuedRoots : Nat := 128
def maxQueuedRootsPerContact : Nat := 16
def accuracyReviewContextPrefix : String := "Internal task accuracy review."

/-! ## Submission -/

/-- `_is_internal_accuracy_review`. -/
def isInternalAccuracyReview (context : String) : Bool :=
  let text := context.toList.dropWhile Interface.isSpace
  let text :=
    if Dispatch.accuracyReviewMarker.isPrefixOf text then
      ((text.dropWhile fun c => c ≠ '\n').drop 1).dropWhile Interface.isSpace
    else text
  accuracyReviewContextPrefix.toList.isPrefixOf text

/-- No claim. -/
def Claim.none : Claim where
  owner := ""
  pid := 0
  claimUntil := 0

/-- All parked roots. -/
def totalQueued (queued : QueuedRoots) : Nat :=
  (queued.values.map List.length).sum

/-- The roots of a contact, the oldest first. -/
def rootsOf (queued : QueuedRoots) (contactId : String) : List QueuedRoot :=
  (queued.get? contactId).getD []

/-- `_queued_root_id`. -/
def queuedRootId (sha256 : String → List Char) (contactId runId context : String) : String :=
  stableId sha256 "queued-root" [contactId, runId, context]

variable (machine : Machine) (now : Seconds)

/-- The item that a submission appends. -/
def newRoot (contactId runId context : String) (visible : Bool) : QueuedRoot where
  rootId := queuedRootId machine.sha256 contactId runId context
  runId := runId
  context := context
  visible := visible
  createdAt := now
  claim := .none

/-- The transaction of `queue_long_task_root_if_blocked`.  Nothing is written when it raises. -/
def insertRoot (contactId runId context : String) (visible : Bool) (state : TaskState) :
    Except String TaskState :=
  let state := prune machine now state
  let items := rootsOf state.queued contactId
  let item := newRoot machine now contactId runId context visible
  if item.rootId ∈ items.map QueuedRoot.rootId then .ok state
  else
    -- only the newest accuracy review remains meaningful
    let items :=
      if isInternalAccuracyReview context then
        items.filter fun item => !isInternalAccuracyReview item.context
      else items
    let queued := state.queued.set contactId items
    if maxQueuedRootsPerContact ≤ items.length ∨ maxQueuedRoots ≤ totalQueued queued then
      .error "durable long-task root queue is at capacity"
    else
      .ok { state with queued := queued.set contactId (items ++ [item]) }

/-- A lifecycle in the memory of the process. -/
structure LiveLifecycle where
  runId : String
  pendingReply : Bool
  settleRequested : Bool
  terminal : Bool

/-- An unrelated root has to wait for this lifecycle. -/
def LiveLifecycle.blocks (runId : String) (lifecycle : LiveLifecycle) : Bool :=
  runId ≠ lifecycle.runId &&
    (lifecycle.pendingReply || lifecycle.settleRequested || lifecycle.terminal)

/-- An unrelated root has to wait for this persisted lifecycle. -/
def Record.blocks (runId : String) (record : Record) : Bool :=
  runId ≠ record.runId && (record.pendingReply || record.settleRequested || record.terminal)

/-- `_has_queued_root_backlog`. -/
def hasQueuedRootBacklog (contactId : String) (state : TaskState) : Bool :=
  !(rootsOf state.queued contactId).isEmpty

/-- `_is_claimed_queue_head`. -/
def isClaimedQueueHead (contactId rootId : String) (state : TaskState) : Bool :=
  match rootsOf state.queued contactId with
  | [] => false
  | head :: _ =>
      rootId ≠ "" && head.rootId = rootId && head.claim.owner = machine.token &&
        head.claim.pid = machine.pid && now < head.claim.claimUntil

/-- Whether the root has to wait. -/
def blocked (current : Option LiveLifecycle) (contactId runId claimedRootId : String)
    (state : TaskState) : Bool :=
  let blocks :=
    match current with
    | some lifecycle => lifecycle.blocks runId
    | none =>
        match state.contacts.get? contactId with
        | some (.active record) => record.blocks runId
        | _ => false
  blocks || (hasQueuedRootBacklog contactId state &&
    !isClaimedQueueHead machine now contactId claimedRootId state)

/-- `acknowledge_queued_long_task_root`. -/
def acknowledgeQueuedLongTaskRoot (rootId : String) (state : TaskState) : TaskState :=
  if rootId = "" then state
  else
    { state with
      queued := pruneQueued (state.queued.mapValues fun items =>
        items.filter fun item => item.rootId ≠ rootId) }

/-! ## Claims -/

/-- What a claim has taken so far. -/
structure Claiming extends Claimed where
  contacts : Contacts

def isActive (contacts : Contacts) (contactId : String) : Bool :=
  match contacts.get? contactId with
  | some (.active _) => true
  | _ => false

/-- The loop of `claim_ready_long_task_roots` at one contact. -/
def claimReadyRoot (limit : Nat) (claiming : Claiming) (entry : String × List QueuedRoot) :
    Claiming :=
  if limit ≤ claiming.roots.length then claiming
  else
    let contacts := settleTerminal machine now entry.1 claiming.contacts
    { claimRoot machine.toProcess (isActive contacts) limit now claiming.toClaimed entry with
      contacts := contacts }

/-- `claim_ready_long_task_roots`: the claimed roots, and the state. -/
def claimReadyRoots (limit : Int) (state : TaskState) : List (String × String) × TaskState :=
  let state := prune machine now state
  let claiming := (state.queued.entries.mergeSort fun a b => queueAge a ≤ queueAge b).foldl
    (claimReadyRoot machine now (min limit 64).toNat)
    { roots := [], queued := state.queued, contacts := state.contacts }
  (claiming.roots, { contacts := claiming.contacts, queued := claiming.queued })

/-! ## Runs -/

/-- A transaction of the state file. -/
inductive Step
  | recover (process : Process) (now : Seconds) (contactId : String)
  | submit (process : Process) (now : Seconds) (contactId runId context : String)
      (visible : Bool)
  | claim (process : Process) (now : Seconds) (limit : Int)
  | acknowledge (rootId : String)
  | openLifecycle (process : Process) (now : Seconds) (contactId owner expectedRunId : String)
      (allowCreate : Bool)
  | persistLifecycle (process : Process) (now : Seconds) (contactId : String) (payload : Record)
  | closeLifecycle (process : Process) (now : Seconds) (contactId : String) (payload : Record)
  | recordFact (now : Seconds) (contactId workerId stateName description : String)

/-- The state after a transaction. -/
def next (sha256 : String → List Char) (state : TaskState) : Step → TaskState
  | .recover process now contactId =>
      recoverExpiredTerminalEntry ⟨process, sha256⟩ now contactId state
  | .submit process now contactId runId context visible =>
      match insertRoot ⟨process, sha256⟩ now contactId runId context visible state with
      | .ok state' => state'
      | .error _ => state
  | .claim process now limit => (claimReadyRoots ⟨process, sha256⟩ now limit state).2
  | .acknowledge rootId => acknowledgeQueuedLongTaskRoot rootId state
  | .openLifecycle process now contactId owner expectedRunId allowCreate =>
      (claimContact ⟨process, sha256⟩ now contactId owner expectedRunId allowCreate state).2
  | .persistLifecycle process now contactId payload =>
      (persist ⟨process, sha256⟩ now contactId payload state).2
  | .closeLifecycle process now contactId payload =>
      close ⟨process, sha256⟩ now contactId payload state
  | .recordFact now contactId workerId stateName description =>
      (recordPendingWorkerState now contactId workerId stateName description state).2

variable {machine now} {sha256 : String → List Char} {queued : QueuedRoots} {state : TaskState}
  {contactId other : String} {items : List QueuedRoot}

/-! ## What a transaction leaves of a queue -/

theorem rootsOf_set : rootsOf (queued.set other items) contactId =
    if other = contactId then items else rootsOf queued contactId := by
  unfold rootsOf
  rw [Dict.get?_set]
  split <;> rfl

theorem rootsOf_pruneQueued : rootsOf (pruneQueued queued) contactId = rootsOf queued contactId := by
  unfold rootsOf pruneQueued
  rw [Dict.get?_filter]
  cases queued.get? contactId with
  | none => rfl
  | some items => cases items <;> rfl

theorem rootsOf_mapValues {change : List QueuedRoot → List QueuedRoot} (hnil : change [] = []) :
    rootsOf (queued.mapValues change) contactId = change (rootsOf queued contactId) := by
  unfold rootsOf
  rw [Dict.get?_mapValues]
  cases queued.get? contactId with
  | none => exact hnil.symm
  | some items => rfl

theorem rootsOf_of_get? (h : queued.get? contactId = some items) :
    rootsOf queued contactId = items := by
  unfold rootsOf
  rw [h, Option.getD_some]

theorem totalQueued_set : totalQueued (queued.set contactId items) +
    (rootsOf queued contactId).length = totalQueued queued + items.length := by
  have hsum := queued.sum_set contactId items List.length
  unfold totalQueued rootsOf
  cases hget : queued.get? contactId with
  | none => simpa [hget] using hsum
  | some old => simpa [hget] using hsum

theorem totalQueued_mapValues {keep : QueuedRoot → Bool} :
    totalQueued (queued.mapValues fun items => items.filter keep) ≤ totalQueued queued := by
  change (((queued.entries.map fun entry => (entry.1, entry.2.filter keep)).map Prod.snd).map
    List.length).sum ≤ ((queued.entries.map Prod.snd).map List.length).sum
  induction queued.entries with
  | nil => exact le_rfl
  | cons entry rest ih =>
      have hentry := List.length_filter_le keep entry.2
      simp only [List.map_cons, List.sum_cons]
      omega

/-- A parked root without its claim. -/
def QueuedRoot.unclaimed (item : QueuedRoot) : QueuedRoot :=
  { item with claim := .none }

/-- The roots of a contact, whoever has claimed them. -/
def waiting (queued : QueuedRoots) (contactId : String) : List QueuedRoot :=
  (rootsOf queued contactId).map QueuedRoot.unclaimed

/-- A root after this process has claimed it. -/
def QueuedRoot.claimedBy (process : Process) (now : Seconds) (item : QueuedRoot) : QueuedRoot :=
  { item with
    claim :=
      { owner := process.token
        pid := process.pid
        claimUntil := now + queuedRootLeaseSeconds } }

theorem settleTerminal_idle {contacts : Contacts} (h : isActive contacts contactId = false) :
    isActive (settleTerminal machine now other contacts) contactId = false := by
  unfold settleTerminal
  split
  · split
    · unfold isActive at h ⊢
      rw [Dict.get?_set]
      by_cases hsame : other = contactId
      · rw [if_pos hsame]
      · rw [if_neg hsame]
        exact h
    · exact h
  · exact h

/-- A claim takes the head of one queue, or none. -/
theorem claimReadyRoot_cases {limit : Nat} (claiming : Claiming)
    (entry : String × List QueuedRoot) :
    (claimReadyRoot machine now limit claiming entry).toClaimed = claiming.toClaimed ∨
      ∃ item rest, entry.2 = item :: rest ∧ item.claim.held machine.toProcess now = false ∧
        isActive (claimReadyRoot machine now limit claiming entry).contacts entry.1 = false ∧
        (claimReadyRoot machine now limit claiming entry).toClaimed =
          { roots := claiming.roots ++ [(entry.1, item.text)]
            queued := claiming.queued.set entry.1
              (item.claimedBy machine.toProcess now :: rest) } := by
  unfold claimReadyRoot
  split
  · exact .inl rfl
  rcases (@claimRoot_cases machine.toProcess
      (isActive (settleTerminal machine now entry.1 claiming.contacts)) limit now)
        claiming.toClaimed entry with hsame | ⟨item, rest, hitems, hidle, hfree, hset⟩
  · exact .inl hsame
  · exact .inr ⟨item, rest, hitems, hfree, hidle, hset⟩

theorem claimReadyRoot_idle {limit : Nat} {claiming : Claiming}
    {entry : String × List QueuedRoot} (h : isActive claiming.contacts contactId = false) :
    isActive (claimReadyRoot machine now limit claiming entry).contacts contactId = false := by
  unfold claimReadyRoot
  split
  · exact h
  · exact settleTerminal_idle h

/-- The same roots wait, and nobody has lost or gained a claim behind a head. -/
structure SameRoots (queued queued' : QueuedRoots) : Prop where
  waiting : ∀ contactId, waiting queued' contactId = waiting queued contactId
  tails : ∀ contactId, (rootsOf queued' contactId).tail = (rootsOf queued contactId).tail
  total : totalQueued queued' = totalQueued queued

/-- A root given out by a claim was a free head, and its contact is idle. -/
def Taken (process : Process) (now : Seconds) (queued queued' : QueuedRoots) (contacts : Contacts)
    (root : String × String) : Prop :=
  ∃ item rest, rootsOf queued root.1 = item :: rest ∧ item.claim.held process now = false ∧
    root.2 = item.text ∧ rootsOf queued' root.1 = item.claimedBy process now :: rest ∧
      isActive contacts root.1 = false

/-- How far a claim has come that has these queues before it. -/
structure Progress (process : Process) (now : Seconds) (queued : QueuedRoots)
    (entries : List (String × List QueuedRoot)) (claiming : Claiming) : Prop where
  same : SameRoots queued claiming.queued
  ahead : ∀ entry ∈ entries, claiming.queued.get? entry.1 = some entry.2 ∧
    queued.get? entry.1 = some entry.2
  taken : ∀ root ∈ claiming.roots,
    Taken process now queued claiming.queued claiming.contacts root ∧
      root.1 ∉ entries.map Prod.fst

theorem Taken.idle {process : Process} {queued' : QueuedRoots} {contacts contacts' : Contacts}
    {root : String × String} (h : Taken process now queued queued' contacts root)
    (hidle : isActive contacts root.1 = false → isActive contacts' root.1 = false) :
    Taken process now queued queued' contacts' root := by
  rcases h with ⟨item, rest, hbefore, hfree, htext, hafter, hcontact⟩
  exact ⟨item, rest, hbefore, hfree, htext, hafter, hidle hcontact⟩

theorem SameRoots.claim {queued' : QueuedRoots} {item : QueuedRoot} {rest : List QueuedRoot}
    (h : SameRoots queued queued') (hget : queued'.get? contactId = some (item :: rest))
    (process : Process) :
    SameRoots queued (queued'.set contactId (item.claimedBy process now :: rest)) where
  waiting other := by
    rw [← h.waiting other]
    unfold LongTasks.waiting
    rw [rootsOf_set]
    split
    · rename_i hsame
      subst hsame
      rw [rootsOf_of_get? hget]
      rfl
    · rfl
  tails other := by
    rw [← h.tails other, rootsOf_set]
    split
    · rename_i hsame
      subst hsame
      rw [rootsOf_of_get? hget]
      rfl
    · rfl
  total := by
    rw [← h.total]
    have hset := @totalQueued_set queued' contactId (item.claimedBy process now :: rest)
    rw [rootsOf_of_get? hget, List.length_cons, List.length_cons] at hset
    omega

theorem Progress.step {limit : Nat} {entry : String × List QueuedRoot}
    {entries : List (String × List QueuedRoot)} {claiming : Claiming}
    (hnodup : ((entry :: entries).map Prod.fst).Nodup)
    (h : Progress machine.toProcess now queued (entry :: entries) claiming) :
    Progress machine.toProcess now queued entries
      (claimReadyRoot machine now limit claiming entry) := by
  rw [List.map_cons, List.nodup_cons] at hnodup
  have hahead := h.ahead entry List.mem_cons_self
  have hlater : ∀ root ∈ claiming.roots, root.1 ≠ entry.1 ∧ root.1 ∉ entries.map Prod.fst := by
    intro root hmem
    have hnot := (h.taken root hmem).2
    rw [List.map_cons, List.mem_cons, not_or] at hnot
    exact hnot
  rcases (@claimReadyRoot_cases machine now limit) claiming entry with
    hsame | ⟨item, rest, hitems, hfree, hidle, hset⟩
  · have hqueued := congrArg Claimed.queued hsame
    have hroots := congrArg Claimed.roots hsame
    constructor
    · rw [hqueued]
      exact h.same
    · rw [hqueued]
      exact fun later hmem => h.ahead later (List.mem_cons_of_mem _ hmem)
    · rw [hqueued, hroots]
      exact fun root hmem =>
        ⟨(h.taken root hmem).1.idle claimReadyRoot_idle, (hlater root hmem).2⟩
  · have hqueued := congrArg Claimed.queued hset
    have hroots := congrArg Claimed.roots hset
    rw [hitems] at hahead
    constructor
    · rw [hqueued]
      exact h.same.claim hahead.1 _
    · rw [hqueued]
      intro later hmem
      have hother : entry.1 ≠ later.1 := fun hsame =>
        hnodup.1 (hsame ▸ List.mem_map_of_mem hmem)
      rw [Dict.get?_set_of_ne _ _ hother]
      exact h.ahead later (List.mem_cons_of_mem _ hmem)
    · rw [hqueued, hroots]
      intro root hmem
      rcases List.mem_append.mp hmem with hold | hnew
      · rcases (h.taken root hold).1 with ⟨old, others, hbefore, hold', htext, hafter, hcontact⟩
        refine ⟨⟨old, others, hbefore, hold', htext, ?_, claimReadyRoot_idle hcontact⟩,
          (hlater root hold).2⟩
        rw [rootsOf_set, if_neg (Ne.symm (hlater root hold).1)]
        exact hafter
      · rw [List.mem_singleton] at hnew
        subst hnew
        refine ⟨⟨item, rest, rootsOf_of_get? hahead.2, hfree, rfl, ?_, hidle⟩, hnodup.1⟩
        rw [rootsOf_set, if_pos rfl]

theorem Progress.all {limit : Nat} {entries : List (String × List QueuedRoot)}
    {claiming : Claiming} (hnodup : (entries.map Prod.fst).Nodup)
    (h : Progress machine.toProcess now queued entries claiming) :
    Progress machine.toProcess now queued []
      (entries.foldl (claimReadyRoot machine now limit) claiming) := by
  induction entries generalizing claiming with
  | nil => exact h
  | cons entry rest ih =>
      apply ih (List.nodup_cons.mp hnodup).2
      exact h.step hnodup

/-- What is behind the head of a filtered list was behind the head. -/
theorem mem_tail_of_filter {α : Type} {keep : α → Bool} {items : List α} {item : α}
    (h : item ∈ (items.filter keep).tail) : item ∈ items.tail := by
  cases items with
  | nil => cases h
  | cons head rest =>
      rw [List.filter_cons] at h
      split at h
      · exact List.mem_of_mem_filter h
      · exact List.mem_of_mem_filter (List.mem_of_mem_tail h)

/-- What holds of the queues in every state of a run. -/
structure Orderly (queued : QueuedRoots) : Prop where
  perContact : ∀ contactId, (rootsOf queued contactId).length ≤ maxQueuedRootsPerContact
  total : totalQueued queued ≤ maxQueuedRoots
  distinct : ∀ contactId, ((rootsOf queued contactId).map QueuedRoot.rootId).Nodup
  heads : ∀ contactId, ∀ item ∈ (rootsOf queued contactId).tail, item.claim.owner = ""

/-- A root is acknowledged, or it is an accuracy review and a newer one is parked. -/
def Removed (steps : List Step) (contactId : String) (item : QueuedRoot) : Prop :=
  .acknowledge item.rootId ∈ steps ∨
    isInternalAccuracyReview item.context = true ∧
      ∃ process now runId context visible, isInternalAccuracyReview context = true ∧
        .submit process now contactId runId context visible ∈ steps

/-- The root is submitted in one of these steps. -/
def Submits (steps : List Step) (contactId runId context : String) : Prop :=
  ∃ process now visible, .submit process now contactId runId context visible ∈ steps

/-- A root that a submission has parked. -/
def Submitted (sha256 : String → List Char) (steps : List Step) (contactId : String)
    (item : QueuedRoot) : Prop :=
  ∃ runId context, Submits steps contactId runId context ∧
    item.rootId = queuedRootId sha256 contactId runId context

/-- The waiting roots of a contact after these steps: those that are left, in their order, and
behind them those that were parked. -/
def Evolves (sha256 : String → List Char) (steps : List Step) (contactId : String)
    (before after : List QueuedRoot) : Prop :=
  ∃ kept parked, after = kept ++ parked ∧ kept.Sublist before ∧
    (∀ item ∈ before, item ∈ kept ∨ Removed steps contactId item) ∧
      ∀ item ∈ parked, Submitted sha256 steps contactId item

theorem Orderly.same {queued' : QueuedRoots} (h : Orderly queued)
    (hsame : SameRoots queued queued') : Orderly queued' := by
  have hids : ∀ (queued : QueuedRoots) contactId,
      (waiting queued contactId).map QueuedRoot.rootId =
        (rootsOf queued contactId).map QueuedRoot.rootId := by
    intro queued contactId
    unfold waiting
    rw [List.map_map]
    rfl
  constructor
  · intro contactId
    have hlength := congrArg List.length (hsame.waiting contactId)
    unfold waiting at hlength
    rw [List.length_map, List.length_map] at hlength
    rw [hlength]
    exact h.perContact contactId
  · rw [hsame.total]
    exact h.total
  · intro contactId
    rw [← hids, hsame.waiting, hids]
    exact h.distinct contactId
  · intro contactId
    rw [hsame.tails]
    exact h.heads contactId

/-- Queues that are left out of a queue of each contact stay orderly. -/
theorem Orderly.filter (h : Orderly queued) (keep : QueuedRoot → Bool) :
    Orderly (queued.mapValues fun items => items.filter keep) := by
  have hroots : ∀ contactId, rootsOf (queued.mapValues fun items => items.filter keep) contactId =
      (rootsOf queued contactId).filter keep := fun contactId => rootsOf_mapValues rfl
  constructor
  · intro contactId
    rw [hroots]
    exact (List.length_filter_le _ _).trans (h.perContact contactId)
  · exact totalQueued_mapValues.trans h.total
  · intro contactId
    rw [hroots]
    exact (h.distinct contactId).sublist (List.filter_sublist.map _)
  · intro contactId item hmem
    rw [hroots] at hmem
    apply h.heads contactId item
    exact mem_tail_of_filter hmem

/-- A submission with this context leaves the item. -/
def stays (context : String) (item : QueuedRoot) : Bool :=
  !(isInternalAccuracyReview context && isInternalAccuracyReview item.context)

section Insert

variable {runId context : String} {visible : Bool} {state' : TaskState}

/-- A submission changes nothing but by pruning, or it parks its root. -/
theorem insertRoot_ok
    (h : insertRoot machine now contactId runId context visible state = .ok state') :
    state' = prune machine now state ∨
      ∃ items, items = (rootsOf state.queued contactId).filter (stays context) ∧
        (newRoot machine now contactId runId context visible).rootId ∉
          (rootsOf state.queued contactId).map QueuedRoot.rootId ∧
        items.length < maxQueuedRootsPerContact ∧
        totalQueued ((pruneQueued state.queued).set contactId items) < maxQueuedRoots ∧
        state' = { prune machine now state with
          queued := ((pruneQueued state.queued).set contactId items).set contactId
            (items ++ [newRoot machine now contactId runId context visible]) } := by
  have hitems : (if isInternalAccuracyReview context = true then
      (rootsOf state.queued contactId).filter fun item => !isInternalAccuracyReview item.context
      else rootsOf state.queued contactId) =
        (rootsOf state.queued contactId).filter (stays context) := by
    unfold stays
    cases isInternalAccuracyReview context with
    | false => simp
    | true => simp
  unfold insertRoot at h
  simp only [prune, rootsOf_pruneQueued, hitems] at h
  split at h
  · exact .inl (Except.ok.inj h).symm
  rename_i hnew
  split at h
  · cases h
  rename_i hroom
  rw [not_or, not_le, not_le] at hroom
  exact .inr ⟨_, rfl, hnew, hroom.1, hroom.2, (Except.ok.inj h).symm⟩

end Insert

variable {steps later : List Step} {before middle after : List QueuedRoot}

theorem Removed.mono {item : QueuedRoot} (h : Removed steps contactId item)
    (hsubset : steps ⊆ later) : Removed later contactId item := by
  rcases h with hack | ⟨hreview, process, now, runId, context, visible, hnewer, hmem⟩
  · exact .inl (hsubset hack)
  · exact .inr ⟨hreview, process, now, runId, context, visible, hnewer, hsubset hmem⟩

theorem Submitted.mono {item : QueuedRoot} (h : Submitted sha256 steps contactId item)
    (hsubset : steps ⊆ later) : Submitted sha256 later contactId item := by
  rcases h with ⟨runId, context, ⟨process, now, visible, hmem⟩, hid⟩
  exact ⟨runId, context, ⟨process, now, visible, hsubset hmem⟩, hid⟩

theorem Evolves.same (h : after = before) : Evolves sha256 steps contactId before after := by
  subst h
  exact ⟨after, [], (List.append_nil _).symm, List.Sublist.refl _, fun item hmem => .inl hmem,
    fun item hmem => nomatch hmem⟩

theorem Evolves.trans (h : Evolves sha256 steps contactId before middle)
    (h' : Evolves sha256 later contactId middle after) (hnodup : middle.Nodup) :
    Evolves sha256 (steps ++ later) contactId before after := by
  rcases h with ⟨kept, parked, rfl, hkept, hgone, hparked⟩
  rcases h' with ⟨kept', parked', rfl, hkept', hgone', hparked'⟩
  rcases List.sublist_append_iff.mp hkept' with ⟨old, new, rfl, hold, hnew⟩
  refine ⟨old, new ++ parked', List.append_assoc _ _ _, hold.trans hkept, ?_, ?_⟩
  · intro item hmem
    rcases hgone item hmem with hstill | hremoved
    · rcases hgone' item (List.mem_append_left _ hstill) with hleft | hremoved
      · rcases List.mem_append.mp hleft with hold | hlate
        · exact .inl hold
        · -- what is kept of the parked roots is none of those kept before
          exact absurd rfl ((List.nodup_append.mp hnodup).2.2 item hstill item (hnew.subset hlate))
      · exact .inr (hremoved.mono (List.subset_append_right _ _))
    · exact .inr (hremoved.mono (List.subset_append_left _ _))
  · intro item hmem
    rcases List.mem_append.mp hmem with hfirst | hsecond
    · exact (hparked item (hnew.subset hfirst)).mono (List.subset_append_left _ _)
    · exact (hparked' item hsecond).mono (List.subset_append_right _ _)

/-- SHA-256 of what the runs below take it of, told apart by the digits. -/
def sampleSha256 (text : String) : List Char :=
  Nat.toDigits 16 <| match text.toList.filter Char.isDigit with
  | ['2'] => 0x6ce3bb7702a9f9339c160d0f2ba3a0c97176c8a84e019215866c59a642e853ca
  | ['3'] => 0x913725788229dcac7e71eed5a07fee60efc37b125e62fbb78990dea1c34315b9
  | ['4'] => 0x29b66baed3d866eb91dffbb7ead29316cbfa052d202975098964843049458e84
  | ['5'] => 0x9d7aa80bba00cec688ed2c243a2865a7f30073f789d66525755968d1abb81bb0
  | ['6'] => 0x53bef3c6e33f37a3167f8f9f515fd98d2aa4f53977061a78e7333353fd95f159
  | ['7'] => 0x2914cc7b751af88e86b8a5635bf38b098993e8ea2e31622d9998e5a62057a892
  | ['8'] => 0x45ea0fd0656993937e566a44618dded14a66b9b94b3bf6c95dda6d87892cbdaf
  | ['9'] => 0x1c5076a302d8a434d99106c7c22a75d4e1ef1f867d52704f0d584a3303713a9d
  | ['1', '0'] => 0x2a346d706ef69f124b9bbe649798eeef368b0437131349e6a2125fe16eb0fd4f
  | ['1', '1'] => 0xcce64ad68ee25ad35bb3c483c324b3f8d8e7b4b715420fd8b6b79d08548f26e1
  | ['1', '2'] => 0xc0b3c8561cc91cd1c89e7bb44e16b4e19e0b854c6926c90de5fb4ec950283d68
  | ['1', '3'] => 0xb61419a968c8c37d76519f2941a41c2866eb23a4a20dee554602227bdd797df8
  | ['1', '4'] => 0x8ee8b9035761af0586b5f2af02e5489af439237516eaedf2822e92e1fda1cb9e
  | ['1', '5'] => 0x46a25679d175ff30c2efb5aeacef40f5f568db2a6a6266bc1ac2b0fef30b5c4f
  | ['1', '6'] => 0x1e58f2ea22bd66b9edf5f7ff4ca1fd0f52cd19f585c265100b35ae4b00963037
  | ['1', '7'] => 0x6ea700baec2250e24df0a981fb5f0fdffa61ffd003b45aa4f2647324a89f0605
  | ['1', '8'] => 0xc7d0e09a3fc2d6eac95916f1758bf3d7e7327fce1aee8caba5cf5cf10fdc8240
  | ['1'] => 0x82f3e9c695dc6b8d1b11818d5701919e286de8d47f7c3eb3100c485f79e57828
  | _ => 0xe3b0c44298fc1c149afbf4c8996fb92427ae41e4649b934ca495991b7852b855

def firstProcess : Process where
  token := "1:first"
  pid := 1
  alive := fun _ => true

def secondProcess : Process where
  token := "2:second"
  pid := 2
  alive := fun _ => true

end LongTasks
end Stemcell
