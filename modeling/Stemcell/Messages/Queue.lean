import Stemcell.Maintenance.Continuations
import Stemcell.Messages.Handoff

/-!
# The manager queue

`send_manager_message` hands a message over in one of two ways: below an active lineage
it transfers a lease of its own to the coordinator, else it appends the message to a
queue file that a durable pass drains into the coordinator.  Both ways are cut into
transactions, and the process may end between any two.

Main results:

- Definition `Exchange.next`: one transaction of a send, of a pass, or of someone else.
- Theorems `mem_items_append` and `mem_items_remove`: what a transaction of the queue file
  does to its items.

Current gaps:

- The overflow counters of the queue file, diagnostics, wake-ups and the journal line of a
  sent message are not modelled; no transaction reads them.
- Call bookkeeping is a table of identifiers here.
-/

namespace Stemcell
namespace Messages

open Lib Maintenance

/-! ## The queue file -/

def managerQueueMaxItems : Nat := 1000

/-- `manager_queue.json`: the items of each recipient. -/
abbrev ManagerQueue := Dict String (List QueueItem)

/-- All items of the file with their recipients. -/
def ManagerQueue.items (queue : ManagerQueue) : List (String × QueueItem) :=
  queue.entries.flatMap fun entry => entry.2.map fun item => (entry.1, item)

/-- Why an item is not appended. -/
inductive QueueError
  | conflict
  | capacity
deriving DecidableEq, Repr

/-- The text of each error. -/
def QueueError.message : QueueError → String
  | conflict => "Manager message queue identity conflicts with an accepted item."
  | capacity => "Manager message queue is at its live-entry limit."

/-- `_append_manager_queue_item`. -/
def appendManagerQueueItem (queue : ManagerQueue) (contactId : String) (item : QueueItem) :
    Except QueueError ManagerQueue :=
  match queue.items.find? fun entry => item.queueId ≠ "" && entry.2.queueId = item.queueId with
  | some entry => if entry = (contactId, item) then .ok queue else .error .conflict
  | none =>
      if managerQueueMaxItems ≤ queue.items.length then .error .capacity
      else .ok (queue.set contactId ((queue.get? contactId).getD [] ++ [item]))

/-- `_remove_manager_queue_ids`. -/
def removeManagerQueueIds (queue : ManagerQueue) (queueIds : List String) : ManagerQueue :=
  (queue.mapValues fun items => items.filter fun item => item.queueId ∉ queueIds).filter
    fun _ items => !items.isEmpty

section Items

variable {queue queue' : ManagerQueue} {contactId c : String} {item i : QueueItem}
  {queueIds : List String}

theorem ManagerQueue.mem_items :
    (c, i) ∈ queue.items ↔ ∃ items, queue.get? c = some items ∧ i ∈ items := by
  unfold ManagerQueue.items
  rw [List.mem_flatMap]
  constructor
  · rintro ⟨⟨key, items⟩, hentry, hmem⟩
    rcases List.mem_map.mp hmem with ⟨item, hitem, heq⟩
    cases heq
    exact ⟨items, (Dict.get?_eq_some_iff _ _ _).mpr hentry, hitem⟩
  · rintro ⟨items, hget, hmem⟩
    exact ⟨(c, items), (Dict.get?_eq_some_iff _ _ _).mp hget, List.mem_map_of_mem hmem⟩

/-- An append adds its item and no other. -/
theorem mem_items_append (h : appendManagerQueueItem queue contactId item = .ok queue') :
    (c, i) ∈ queue'.items ↔ (c, i) ∈ queue.items ∨ (c, i) = (contactId, item) := by
  unfold appendManagerQueueItem at h
  split at h
  · rename_i entry hfind
    split at h
    · rename_i hsame
      rw [← Except.ok.inj h]
      have hmem := List.mem_of_find?_eq_some hfind
      rw [hsame] at hmem
      constructor
      · exact .inl
      · rintro (hold | hnew)
        · exact hold
        · rw [hnew]
          exact hmem
    · cases h
  split at h
  · cases h
  rw [← Except.ok.inj h, ManagerQueue.mem_items, ManagerQueue.mem_items]
  by_cases hc : contactId = c
  · subst hc
    rw [Dict.get?_set_self]
    cases queue.get? contactId with
    | none => simp
    | some items => simp
  · rw [Dict.get?_set_of_ne _ _ hc]
    constructor
    · exact .inl
    · rintro (hold | hnew)
      · exact hold
      · cases hnew
        exact absurd rfl hc

/-- A removal takes the items of its ids and no others. -/
theorem mem_items_remove :
    (c, i) ∈ (removeManagerQueueIds queue queueIds).items ↔
      (c, i) ∈ queue.items ∧ i.queueId ∉ queueIds := by
  rw [ManagerQueue.mem_items, ManagerQueue.mem_items]
  unfold removeManagerQueueIds
  constructor
  · rintro ⟨items, hget, hmem⟩
    rw [Dict.get?_filter_eq_some_iff, Dict.get?_mapValues, Option.map_eq_some_iff] at hget
    rcases hget with ⟨⟨old, hold, rfl⟩, -⟩
    rw [List.mem_filter, decide_eq_true_eq] at hmem
    exact ⟨⟨old, hold, hmem.1⟩, hmem.2⟩
  · rintro ⟨⟨old, hold, hmem⟩, hid⟩
    have hkept : i ∈ old.filter fun item => item.queueId ∉ queueIds :=
      List.mem_filter.mpr ⟨hmem, decide_eq_true hid⟩
    refine ⟨_, ?_, hkept⟩
    rw [Dict.get?_filter_eq_some_iff, Dict.get?_mapValues, hold]
    refine ⟨rfl, ?_⟩
    rw [Bool.not_eq_true', List.isEmpty_eq_false_iff]
    exact List.ne_nil_of_mem hkept

end Items

/-! ## Texts -/

/-- The text of a turn that continues the sender's lineage. -/
def lineageContext (p : Platform) (item : QueueItem) : String :=
  let message := "Inter-manager messages:\nMessage from manager of " ++
    orElse item.fromContactId "unknown" ++ ":\n" ++ item.message
  let fields :=
    match item.workCall with
    | none => []
    | some reference =>
        [("outbound_call_id", reference.card.callId),
          ("outbound_task_id", reference.card.taskId),
          ("outbound_work_event_id", reference.card.workEventId)].filter
            fun field => field.2 ≠ ""
  if fields = [] then message
  else message ++ "\n---\n" ++ "Work call correlation:\n" ++ p.dumps fields

/-- The record that is written before a lease is transferred. -/
def QueueItem.prepare (p : Platform) (item : QueueItem) (leaseId : String) : QueueItem :=
  { item with
    reconcileOnly := true
    lineagePrepared := true
    lineageContext := Messages.lineageContext p item
    lineageLeaseId := leaseId }

/-- The identifiers that bookkeeping answers for an item, each time it is replayed. -/
structure CallTable where
  workCall : String → Reference
  inbound : String → CallCard

/-- The text a durable pass hands over for an item. -/
def drainContext (p : Platform) (table : CallTable) (item : QueueItem) : String :=
  handoffContext p item (item.workCall.map fun _ => table.workCall item.queueId)
    (table.inbound item.queueId)

/-! ## Sends and passes -/

/-- Where a send stands. -/
inductive Stage
  | begun (parent : ActivityToken)
  | leased (leaseId : String)
  | prepared (leaseId : String)
  | refused (leaseId : String)
  | taken
  | releasing (leaseId : String)
  | fallingBack
deriving DecidableEq, Repr

/-- A send in progress. -/
structure Sending where
  contactId : String
  item : QueueItem
  stage : Stage
deriving DecidableEq, Repr

/-- A pass in progress: the recipient it is at, the items it has dealt with, those to
come, the recipients to come, and the ids it will remove.  `resumed` tells that the
first item to come has been through its lineage check. -/
structure Pass where
  read : List (String × List QueueItem)
  contactId : String
  earlier : List QueueItem
  rest : List QueueItem
  resumed : Bool
  later : List (String × List QueueItem)
  delivered : List String
deriving DecidableEq, Repr

/-- A pass that has read the file. -/
def Pass.opening (queue : ManagerQueue) : Pass where
  read := queue.entries
  contactId := ""
  earlier := []
  rest := []
  resumed := false
  later := queue.entries
  delivered := []

/-- The first item has been delivered. -/
def Pass.delivers (pass : Pass) (item : QueueItem) (rest : List QueueItem) : Pass :=
  { pass with
    earlier := pass.earlier ++ [item]
    rest := rest
    resumed := false
    delivered := item.queueId :: pass.delivered }

/-- An item after its lineage check: what was not accepted is a plain message. -/
def QueueItem.resumed (item : QueueItem) (accepted : Bool) : QueueItem :=
  if accepted then item else { item with reconcileOnly := false }

/-- The first item has been through its lineage check. -/
def Pass.resumes (pass : Pass) (item : QueueItem) (rest : List QueueItem) : Pass :=
  { pass with rest := item :: rest, resumed := true }

/-- The first item is through its lineage check. -/
def Pass.ready (pass : Pass) (item : QueueItem) : Bool :=
  !item.lineagePrepared || pass.resumed

/-- How a message entered the root queue. -/
inductive RootKind
  | continuation
  | ingress
deriving DecidableEq, Repr

/-- A root that was queued for a message. -/
structure MessageRoot where
  queueId : String
  contactId : String
  kind : RootKind
deriving DecidableEq, Repr

/-- The coordinator, the queue file and the processes.  `issued`, `reported` and `roots`
record the messages that were sent, the sends that reported acceptance and the roots that
entered the root queue, in order. -/
structure Exchange where
  world : World
  queue : ManagerQueue
  sends : Dict String Sending
  pass : Option Pass
  issued : Dict String (String × QueueItem)
  reported : List String
  roots : List MessageRoot

/-- One transaction, or the end of a process between two. -/
inductive ExchangeEvent
  | send (contactId : String) (item : QueueItem) (parent : Option ActivityToken)
  | acquire (queueId activityId : String) (time : Seconds)
  | prepare (queueId : String)
  | transfer (queueId : String) (time : Seconds)
  | retract (queueId : String)
  | release (queueId : String) (time : Seconds)
  | settle (queueId : String)
  | fallBack (queueId : String)
  | raises (queueId : String)
  | endSend (queueId : String)
  | passBegin
  | passContact
  | passResume (time : Seconds)
  | passSettle
  | passIngress (time : Seconds)
  | passBreak
  | passEnd
  | endPass
  | coordinator (e : Event)

/-- The call of the coordinator that an event makes. -/
def transferOp (contactId context leaseId queueId : String) : Op :=
  .enqueueContinuation contactId context leaseId queueId

def ingressOp (p : Platform) (table : CallTable) (contactId : String) (item : QueueItem) : Op :=
  .enqueueIngressRoot contactId (drainContext p table item) (ingressIdOf item.queueId)

/-- The call answered with `True`. -/
def answersTrue (host : Host) (w : World) (op : Op) (time : Seconds) : Bool :=
  match call host op w.state time with
  | .ok (.flag true, _) => true
  | _ => false

/-- The lease a call opened, if it opened one. -/
def leaseOpened (host : Host) (w : World) (op : Op) (time : Seconds) : Option String :=
  match call host op w.state time with
  | .ok (.activity token, _) => token.map ActivityToken.leaseId
  | _ => none

/-- The root that a call under this id queued. -/
def rootAdded (adds : Bool) (root : MessageRoot) : List MessageRoot :=
  if adds then [root] else []

namespace Exchange

variable (p : Platform) (table : CallTable)

/-- The send goes on at another stage. -/
def goes (d : Exchange) (sending : Sending) (stage : Stage) : Exchange :=
  { d with sends := d.sends.set sending.item.queueId { sending with stage := stage } }

/-- The send is over; `accepted` is what it reported. -/
def finishes (d : Exchange) (queueId : String) (accepted : Bool) : Exchange :=
  { d with
    sends := d.sends.pop queueId
    reported := if accepted then queueId :: d.reported else d.reported }

/-- `send_manager_message` begins; without an active lineage the message goes to the
queue file. -/
def send (d : Exchange) (contactId : String) (item : QueueItem) (parent : Option ActivityToken) :
    Exchange :=
  { d with
    issued := d.issued.set item.queueId (contactId, item)
    sends := d.sends.set item.queueId
      { contactId := contactId
        item := item
        stage :=
          match parent with
          | none => .fallingBack
          | some token => .begun token } }

/-- The lease of the handoff is acquired below the active lineage, or refused. -/
def acquire (d : Exchange) (sending : Sending) (activityId : String) (time : Seconds) :
    Option Exchange :=
  match sending.stage with
  | .begun parent =>
      let op := Op.acquireActivity "manager_handoff" activityId sending.contactId (some parent)
        leaseTtlSeconds
      let acquired := { d with world := d.world.after p.host op time }
      match leaseOpened p.host d.world op time with
      | some leaseId => some (acquired.goes sending (.leased leaseId))
      | none => some (acquired.goes sending .fallingBack)
  | _ => none

/-- A message with a work call is recorded before its lease is transferred. -/
def prepare (d : Exchange) (sending : Sending) : Option Exchange :=
  match sending.stage, sending.item.workCall with
  | .leased leaseId, some _ =>
      match appendManagerQueueItem d.queue sending.contactId (sending.item.prepare p leaseId) with
      | .ok queue => some ({ d with queue := queue }.goes sending (.prepared leaseId))
      | .error _ => some (d.goes sending (.releasing leaseId))
  | _, _ => none

/-- `enqueue_continuation`, with the root it queues on record. -/
def transferCall (d : Exchange) (contactId context leaseId queueId : String) (time : Seconds) :
    Exchange :=
  let op := transferOp contactId context leaseId queueId
  { d with
    world := d.world.after p.host op time
    roots := d.roots ++ rootAdded (addsContinuation p.host queueId d.world ⟨op, time⟩)
      { queueId := queueId, contactId := contactId, kind := .continuation } }

/-- `enqueue_ingress_root`, with the root it queues on record. -/
def ingressCall (d : Exchange) (contactId : String) (item : QueueItem) (time : Seconds) :
    Exchange :=
  let op := ingressOp p table contactId item
  { d with
    world := d.world.after p.host op time
    roots := d.roots ++
      rootAdded (addsIngressRoot p.host (ingressIdOf item.queueId) d.world ⟨op, time⟩)
        { queueId := item.queueId, contactId := contactId, kind := .ingress } }

/-- The lease is transferred.  Without a work call the send is over then; with one the
record has to be settled or taken back. -/
def transfer (d : Exchange) (sending : Sending) (time : Seconds) : Option Exchange :=
  let context := lineageContext p sending.item
  let queueId := sending.item.queueId
  match sending.stage, sending.item.workCall with
  | .leased leaseId, none =>
      let called := d.transferCall p sending.contactId context leaseId queueId time
      if answersTrue p.host d.world (transferOp sending.contactId context leaseId queueId) time then
        some (called.finishes queueId true)
      else some (called.goes sending (.releasing leaseId))
  | .prepared leaseId, _ =>
      let called := d.transferCall p sending.contactId context leaseId queueId time
      if answersTrue p.host d.world (transferOp sending.contactId context leaseId queueId) time then
        some (called.goes sending .taken)
      else some (called.goes sending (.refused leaseId))
  | _, _ => none

/-- The record of a refused transfer is removed. -/
def retract (d : Exchange) (sending : Sending) : Option Exchange :=
  match sending.stage with
  | .refused leaseId =>
      some ({ d with queue := removeManagerQueueIds d.queue [sending.item.queueId] }.goes sending
        (.releasing leaseId))
  | _ => none

/-- The lease that was not transferred is released. -/
def release (d : Exchange) (sending : Sending) (time : Seconds) : Option Exchange :=
  match sending.stage with
  | .releasing leaseId =>
      some ({ d with world := d.world.after p.host (.release leaseId) time }.goes sending
        .fallingBack)
  | _ => none

/-- The record of an accepted transfer is removed once its cards are journaled. -/
def settle (d : Exchange) (sending : Sending) : Option Exchange :=
  match sending.stage with
  | .taken =>
      some ({ d with queue := removeManagerQueueIds d.queue [sending.item.queueId] }.finishes
        sending.item.queueId true)
  | _ => none

/-- The message is appended to the queue file. -/
def fallBack (d : Exchange) (sending : Sending) : Option Exchange :=
  match sending.stage with
  | .fallingBack =>
      match appendManagerQueueItem d.queue sending.contactId sending.item with
      | .ok queue => some ({ d with queue := queue }.finishes sending.item.queueId true)
      | .error _ => some (d.finishes sending.item.queueId false)
  | _ => none

/-- A transaction of the send raised and changed nothing. -/
def raises (d : Exchange) (sending : Sending) : Exchange :=
  match sending.stage with
  | .begun _ => d.goes sending .fallingBack
  | .leased leaseId => d.goes sending (.releasing leaseId)
  -- Acceptance is ambiguous; the record will tell.
  | .prepared _ => d.finishes sending.item.queueId true
  | .refused leaseId => d.goes sending (.releasing leaseId)
  | .taken => d.finishes sending.item.queueId true
  | .releasing _ => d.goes sending .fallingBack
  | .fallingBack => d.finishes sending.item.queueId false

/-! ### Passes -/

/-- A pass reads the file.  Passes exclude each other. -/
def passBegin (d : Exchange) : Option Exchange :=
  match d.pass with
  | some _ => none
  | none => some { d with pass := some (.opening d.queue) }

/-- The next recipient. -/
def passContact (d : Exchange) (pass : Pass) : Option Exchange :=
  match pass.rest, pass.later with
  | [], (contactId, items) :: later =>
      some { d with
        pass := some
          { pass with
            contactId := contactId
            earlier := []
            rest := items
            resumed := false
            later := later } }
  | _, _ => none

/-- `_resume_prepared_lineage`: a lineage that was not accepted is delivered as a plain
message. -/
def passResume (d : Exchange) (pass : Pass) (time : Seconds) : Option Exchange :=
  match pass.rest with
  | [] => none
  | item :: rest =>
      if item.lineagePrepared && !pass.resumed then
        let called := d.transferCall p pass.contactId item.lineageContext item.lineageLeaseId
          item.queueId time
        let accepted := answersTrue p.host d.world
          (transferOp pass.contactId item.lineageContext item.lineageLeaseId item.queueId) time
        some { called with pass := some (pass.resumes (item.resumed accepted) rest) }
      else none

/-- A record whose turn was accepted before is settled. -/
def passSettle (d : Exchange) (pass : Pass) : Option Exchange :=
  match pass.rest with
  | [] => none
  | item :: rest =>
      if Pass.ready pass item && item.reconcileOnly then
        some { d with pass := some (Pass.delivers pass item rest) }
      else none

/-- A message is handed to the coordinator; what is not accepted breaks the recipient's
list off. -/
def passIngress (d : Exchange) (pass : Pass) (time : Seconds) : Option Exchange :=
  match pass.rest with
  | [] => none
  | item :: rest =>
      if Pass.ready pass item && !item.reconcileOnly then
        let called := d.ingressCall p table pass.contactId item time
        let accepted := answersTrue p.host d.world (ingressOp p table pass.contactId item) time
        some { called with
          pass := some
            (if accepted then Pass.delivers pass item rest
             else { pass with rest := [], resumed := false }) }
      else none

/-- A transaction or the bookkeeping of the pass raised: the recipient's later items
wait. -/
def passBreak (d : Exchange) (pass : Pass) : Exchange :=
  { d with pass := some { pass with rest := [], resumed := false } }

/-- The delivered items are removed. -/
def passEnd (d : Exchange) (pass : Pass) : Option Exchange :=
  match pass.rest, pass.later with
  | [], [] =>
      some { d with
        queue := removeManagerQueueIds d.queue pass.delivered
        pass := none }
  | _, _ => none

/-- One event; `none` where it cannot happen. -/
def next (d : Exchange) : ExchangeEvent → Option Exchange
  | .send contactId item parent => some (d.send contactId item parent)
  | .acquire q activityId time => (d.sends.get? q).bind fun s => d.acquire p s activityId time
  | .prepare q => (d.sends.get? q).bind fun s => d.prepare p s
  | .transfer q time => (d.sends.get? q).bind fun s => d.transfer p s time
  | .retract q => (d.sends.get? q).bind d.retract
  | .release q time => (d.sends.get? q).bind fun s => d.release p s time
  | .settle q => (d.sends.get? q).bind d.settle
  | .fallBack q => (d.sends.get? q).bind d.fallBack
  | .raises q => (d.sends.get? q).map d.raises
  | .endSend q => some { d with sends := d.sends.pop q }
  | .passBegin => d.passBegin
  | .passContact => d.pass.bind d.passContact
  | .passResume time => d.pass.bind fun pass => d.passResume p pass time
  | .passSettle => d.pass.bind d.passSettle
  | .passIngress time => d.pass.bind fun pass => d.passIngress p table pass time
  | .passBreak => d.pass.map d.passBreak
  | .passEnd => d.pass.bind d.passEnd
  | .endPass => some { d with pass := none }
  | .coordinator e => some { d with world := d.world.after p.host e.op e.time }

end Exchange

end Messages
end Stemcell
