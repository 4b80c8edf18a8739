import Stemcell.Messages.Calls

/-!
# Handing a message to its manager

A message waits in the manager queue until a pass has journaled its call cards, has
built the text of the manager turn and has given it to the maintenance coordinator
under an ingress id of its own.

Main results:

- Definition `ensureManagerWorkCalls`: journal both visible sides of a handoff.
- Definition `handoffContext`: the text of the manager turn.
-/

namespace Stemcell
namespace Messages

open Lib Maintenance

/-- One record of the manager queue. -/
structure QueueItem where
  queueId : String
  fromContactId : String
  fromCarbonId : String
  senderLabel : String
  message : String
  workCall : Option Reference
  reconcileOnly : Bool
  lineagePrepared : Bool
  lineageContext : String
  lineageLeaseId : String
deriving DecidableEq, Repr

/-- `from_contact_id`, else `from_carbon_id`, else `unknown`. -/
def QueueItem.sender (item : QueueItem) : String :=
  orElse item.fromContactId (orElse item.fromCarbonId "unknown")

def outboundKey (queueId : String) : String :=
  "manager-handoff:" ++ queueId ++ ":outbound"

def inboundKey (queueId : String) : String :=
  "manager-handoff:" ++ queueId ++ ":inbound"

/-- The identity under which a pass hands an item to the coordinator. -/
def ingressIdOf (queueId : String) : String :=
  "manager:" ++ queueId

/-- Whether the retry journal takes the entries of each side. -/
structure Room where
  outbound : Bool
  inbound : Bool
deriving DecidableEq, Repr

/-- What a pass over one item comes to: the recipient's card or an error, the work call as
the pass leaves it in memory, and the bookkeeping. -/
structure Ensured where
  inbound : Except CallError CallCard
  workCall : Option Reference
  calls : Calls

/-- `_ensure_manager_work_calls`. -/
def ensureManagerWorkCalls (p : Platform) (s : Calls) (room : Room) (contactId : String)
    (item : QueueItem) : Ensured :=
  match item.workCall with
  | none => { inbound := .ok .blank, workCall := none, calls := s }
  | some workCall =>
      if item.queueId = "" then
        { inbound := .error .queueIdRequired, workCall := some workCall, calls := s }
      else
        let outbound := enqueueOutboundCall p s room.outbound (outboundKey item.queueId) workCall
        match outbound with
        | (.error e, reference, s) =>
            { inbound := .error e, workCall := some reference, calls := s }
        | (.ok false, reference, s) =>
            { inbound := .error .notAccepted, workCall := some reference, calls := s }
        | (.ok true, reference, s) =>
            if reference.continuation then
              { inbound := .ok .blank, workCall := some reference, calls := s }
            else
              let inbound := enqueueInboundCall p s room.inbound (inboundKey item.queueId)
                contactId item.sender reference
              { inbound := inbound.1, workCall := some reference, calls := inbound.2 }

/-- The identifiers printed with a message, in the order of their keys; empty ones are
left out. -/
def correlationFields (outbound inbound : CallCard) : List (String × String) :=
  [("inbound_call_id", inbound.callId),
    ("inbound_task_id", inbound.taskId),
    ("inbound_work_event_id", inbound.workEventId),
    ("outbound_call_id", outbound.callId),
    ("outbound_task_id", outbound.taskId),
    ("outbound_work_event_id", outbound.workEventId)].filter fun field => field.2 ≠ ""

/-- The call identifiers among them. -/
def printedCallIds (workCall : Option Reference) (inbound : CallCard) : List String :=
  match workCall with
  | none => []
  | some reference => [inbound.callId, reference.card.callId].filter (· ≠ "")

/-- The parts of the text of one message. -/
def itemParts (p : Platform) (item : QueueItem) (workCall : Option Reference)
    (inbound : CallCard) : List String :=
  let label :=
    if item.senderLabel = "" then "manager of " ++ item.sender else item.senderLabel
  let message := "Message from " ++ label ++ ":\n" ++ item.message
  match workCall with
  | none => [message]
  | some reference =>
      [message,
        "Work call correlation:\n" ++ p.dumps (correlationFields reference.card inbound)]

/-- The text a durable pass hands over. -/
def handoffContext (p : Platform) (item : QueueItem) (workCall : Option Reference)
    (inbound : CallCard) : String :=
  "Inter-manager messages:\n" ++
    String.intercalate "\n---\n" (itemParts p item workCall inbound)

/-! ## Passes that find a current call -/

variable {p : Platform} {s s' : Calls} {room : Room} {contactId : String} {item : QueueItem}
  {reference : Reference}

/-- The pass needs no other call: the card is fresh, the continuation was accepted by an
earlier pass, or the call it continues is still pending. -/
def Settled (s : Calls) (item : QueueItem) : Prop :=
  ∀ reference, item.workCall = some reference → reference.continuation = true →
    s.dedupe.get? (outboundKey item.queueId) = some .append ∨ currentCall s reference = true

theorem outboundKey_ne_inboundKey (queueId : String) :
    outboundKey queueId ≠ inboundKey queueId := by
  intro h
  unfold outboundKey inboundKey at h
  rw [String.append_right_inj] at h
  exact absurd h (by decide)

end Messages
end Stemcell
