import Stemcell.Interface.Events
import Stemcell.Interface.InboxDurability
import Stemcell.Maintenance.Coordinator

/-!
# Ingestion of one inbox record

The main loop takes a record apart into events and turns each user-visible event
into a manager root: it finds the contact of the room, formats the context,
hands the root to the maintenance coordinator and then remembers the event as
processed.  The calls it makes on the way may raise; which of them do is an
input of the translation.

Main results:

- Definition `processIncomingEvent`: one event, with every exit of the source.
- Definition `handleEvent`: its handoff, and how its exceptions are sorted.
- Definition `handleRecord`: the events of one record, and whether it is
  committed.

Current gaps:

- Room discovery is the list of direct contacts that the loop of
  `discover_rooms` stores before it ends or raises.
- Diagnostics, the activity log and read receipts run best-effort and change
  nothing the ingestion reads.
-/

namespace Stemcell
namespace Interface

open Lib
open Maintenance (Seconds Host)

/-! ## Local state -/

/-- The fields of a contact that the ingestion reads. -/
structure Contact where
  contactType : String
  carbonId : String
  siliconId : String
  roomId : String
  displayName : String
  name : String
  lastProcessedEventIds : List String
  lastProcessedEventId : String
  lastPolledEventId : String

/-- `contacts.json`. -/
structure InterfaceState where
  ownIds : List String
  rooms : Dict String String
  contacts : Dict String Contact
  processedEvents : Dict String (List String)
  workEventRefs : Dict String (Dict String Json)
  lastSeenEventId : String

/-- `_default_contacts_state`. -/
def InterfaceState.empty : InterfaceState where
  ownIds := []
  rooms := .empty
  contacts := .empty
  processedEvents := .empty
  workEventRefs := .empty
  lastSeenEventId := ""

/-- `values[-n:]`. -/
def lastOf {α : Type} (n : Nat) (values : List α) : List α :=
  values.drop (values.length - n)

/-- Append unless it is there, and keep the last `n`. -/
def rememberId (n : Nat) (ids : List String) (id : String) : List String :=
  lastOf n (if id ∈ ids then ids else ids ++ [id])

/-- The ids remembered for a room. -/
def InterfaceState.roomIds (s : InterfaceState) (roomId : String) : List String :=
  (s.processedEvents.get? roomId).getD []

/-- `_remember_processed`. -/
def rememberProcessed (s : InterfaceState) (contactId eventId roomId : String) :
    InterfaceState :=
  if eventId = "" then s
  else
    let contacts :=
      match s.contacts.get? contactId with
      | none => s.contacts
      | some contact =>
          s.contacts.set contactId
            { contact with
              lastProcessedEventIds := rememberId 200 contact.lastProcessedEventIds eventId
              lastProcessedEventId := eventId
              lastPolledEventId := if roomId ≠ "" then eventId else contact.lastPolledEventId }
    { s with
      lastSeenEventId := eventId
      contacts := contacts
      processedEvents :=
        if roomId ≠ "" then
          s.processedEvents.set roomId (rememberId 500 (s.roomIds roomId) eventId)
        else s.processedEvents }

/-- `_remember_seen_event`. -/
def rememberSeenEvent (s : InterfaceState) (roomId eventId : String) : InterfaceState :=
  if eventId = "" then s
  else if roomId = "" then { s with lastSeenEventId := eventId }
  else
    let contacts :=
      match s.rooms.get? roomId with
      | none => s.contacts
      | some contactId =>
          match s.contacts.get? contactId with
          | none => s.contacts
          | some contact => s.contacts.set contactId { contact with lastPolledEventId := eventId }
    { s with
      lastSeenEventId := eventId
      contacts := contacts
      processedEvents := s.processedEvents.set roomId (rememberId 500 (s.roomIds roomId) eventId) }

/-- `_already_processed`. -/
def alreadyProcessed (s : InterfaceState) (contact : Contact) (roomId eventId : String) :
    Bool :=
  eventId ≠ "" && (eventId ∈ contact.lastProcessedEventIds || eventId ∈ s.roomIds roomId)

/-- `_already_processed` has to read the ids of the room. -/
def readsWatermark (contact : Contact) (eventId : String) : Bool :=
  eventId ≠ "" && eventId ∉ contact.lastProcessedEventIds

/-! ## Contacts -/

/-- A direct contact that room discovery found. -/
structure FoundContact where
  contactType : String
  fixedId : String
  roomId : String
  displayName : String

/-- The answer of the services behind `discover_rooms`: the identities of
`whoami`, the direct contacts found, and whether a call raised after them. -/
structure Discovery where
  ownIds : List String
  found : List FoundContact
  raises : Bool

/-- `upsert_contact`; `none` when it refuses to remap an id. -/
def upsertContact (s : InterfaceState) (f : FoundContact) : Option InterfaceState :=
  let rooms := if f.roomId ≠ "" then s.rooms.set f.roomId f.fixedId else s.rooms
  let nameOf := if f.displayName ≠ "" then f.displayName else f.fixedId
  match s.contacts.get? f.fixedId with
  | none =>
      some
        { s with
          rooms := rooms
          contacts := s.contacts.set f.fixedId
            { contactType := f.contactType
              carbonId := if f.contactType = "carbon" then f.fixedId else ""
              siliconId := if f.contactType = "silicon" then f.fixedId else ""
              roomId := f.roomId
              displayName := nameOf
              name := nameOf
              lastProcessedEventIds := []
              lastProcessedEventId := ""
              lastPolledEventId := "" } }
  | some contact =>
      let expected := if f.contactType = "silicon" then contact.siliconId else contact.carbonId
      if contact.contactType ≠ f.contactType ∨ (expected ≠ "" ∧ expected ≠ f.fixedId) then none
      else
        some
          { s with
            rooms := rooms
            contacts := s.contacts.set f.fixedId
              { contact with
                roomId := if f.roomId ≠ "" then f.roomId else contact.roomId
                displayName := if f.displayName ≠ "" then f.displayName else contact.displayName
                name := if f.displayName ≠ "" then f.displayName else contact.name } }

/-- The loop of `discover_rooms` over the rooms found.  The first refusal ends it. -/
def storeFound (s : InterfaceState) : List FoundContact → InterfaceState
  | [] => s
  | f :: rest =>
      match upsertContact s f with
      | none => s
      | some s' => storeFound s' rest

/-- `discover_rooms(client, force=True)`: what it leaves in the local state. -/
def discoverRooms (answer : Discovery) (s : InterfaceState) : InterfaceState :=
  storeFound (if s.ownIds = [] then { s with ownIds := answer.ownIds } else s) answer.found

/-- The contact that the local state has for a room. -/
def InterfaceState.contactOf (s : InterfaceState) (roomId : String) :
    Option (String × Contact) :=
  match s.rooms.get? roomId with
  | none => none
  | some contactId =>
      if contactId = "" then none
      else (s.contacts.get? contactId).map fun contact => (contactId, contact)

/-- The local state maps the room to some contact id. -/
def InterfaceState.routes (s : InterfaceState) (roomId : String) : Bool :=
  match s.rooms.get? roomId with
  | none => false
  | some contactId => contactId ≠ ""

/-- `_contact_for_room`.  A discovery that raises is passed over. -/
def contactForRoom (s : InterfaceState) (roomId : String) (answer : Discovery) :
    Option (String × Contact) × InterfaceState :=
  if s.routes roomId then (s.contactOf roomId, s)
  else
    let s' := discoverRooms answer s
    (s'.contactOf roomId, s')

/-! ## The text of a root -/

/-- `_work_event_reference`. -/
def workEventReference (s : InterfaceState) (roomId eventId : String) : Json :=
  if roomId = "" ∨ eventId = "" then .obj []
  else
    match (s.workEventRefs.get? roomId).bind fun refs => refs.get? eventId with
    | some (.obj fields) => .obj fields
    | _ => .obj []

/-- `_format_event_context`. -/
def formatEventContext (py : Python) (s : InterfaceState) (contactId : String)
    (contact : Contact) (event : Json) (localPaths : List String) (transcript : String) :
    String :=
  let room := eventRoomId py event
  let roomId := if room ≠ "" then room else contact.roomId
  let body := eventBody py event
  let displayTime := eventDisplayTime py event
  let identityLabel := if contact.contactType = "silicon" then "silicon_id" else "carbon_id"
  let displayName :=
    if contact.displayName ≠ "" then contact.displayName
    else if contact.name ≠ "" then contact.name
    else contactId
  let replyTo := eventReplyTo py event
  let reference := workEventReference s roomId replyTo
  let takeBack := eventTakeBackRequestId py event
  "\n".intercalate
    (["Interface event from " ++ displayName ++ " (" ++ identityLabel ++ ": " ++ contactId ++ ")",
      "contact_type: " ++ contact.contactType,
      "room_id: " ++ roomId,
      "event_id: " ++ eventId py event,
      "event_type: " ++ eventType py event] ++
    (if displayTime ≠ "" then ["display_time: " ++ displayTime] else []) ++
    (if replyTo ≠ "" then
      ["reply_to: " ++ replyTo] ++
        (if reference.truthy then ["reply_to_work_update: " ++ py.dumps reference] else [])
    else []) ++
    (if takeBack ≠ "" then ["take_back_request_id: " ++ takeBack] else []) ++
    (if body ≠ "" then ["message:", body] else []) ++
    (if transcript ≠ "" then ["transcript:", transcript] else []) ++
    (if localPaths ≠ [] then
      "downloaded_files:" :: localPaths.map fun path => "- " ++ path
    else []))

/-- How a call that records a Silicon call ends. -/
inductive CallResult
  | recorded
  | bookkeepingError
  | raised
deriving DecidableEq

/-- Where the ingestion reads the local state. -/
inductive ReadPoint
  | entry
  | lookup
  | watermark
  | reference
deriving DecidableEq

/-- How the calls made while one event is interpreted end. -/
structure EventCalls where
  reads : ReadPoint → Bool
  discovery : Discovery
  media : String → Except String String
  stt : Option Json
  sentCall : CallResult
  incomingCall : CallResult
  seenFails : Bool
  processedFails : Bool
  handoffFails : Bool

/-- The download loop: the last path, and the lines about all attachments. -/
def downloadMedia (media : String → Except String String) :
    List (String × String) → String × List String → String × List String
  | [], progress => progress
  | (mediaId, _) :: rest, progress =>
      match media mediaId with
      | .ok path =>
          downloadMedia media rest
            (path, if path ≠ "" then progress.2 ++ [path] else progress.2)
      | .error text =>
          downloadMedia media rest
            (progress.1, progress.2 ++ ["download failed for media_id " ++ mediaId ++ ": " ++ text])

/-- `_transcript_for_event`. -/
def transcriptForEvent (py : Python) (event : Json) (localPath mediaId : String)
    (stt : Option Json) : String :=
  let given := firstText py [event.get "transcript", (eventContent event).get "transcript"]
  if given ≠ "" then strip given
  else if localPath = "" ∧ mediaId = "" then ""
  else
    match stt with
    | none => ""
    | some (.obj fields) =>
        let payload := Json.obj fields
        strip (firstText py [payload.get "text", payload.get "transcript", payload.get "body"])
    | some payload => trimmedText py payload

/-- The text of an event that is a command. -/
def commandOf (py : Python) (event : Json) : Option String :=
  let body := strip (eventBody py event)
  if eventType py event = "m.text" ∧ body = "/new" then some "[COMMAND: NEW_SESSION]"
  else if eventType py event = "m.text" ∧ body = "/start" then some "[COMMAND: START]"
  else none

/-- Formatting the context has to read the work references. -/
def readsReference (py : Python) (contact : Contact) (event : Json) : Bool :=
  (commandOf py event).isNone && eventReplyTo py event ≠ "" &&
    (eventRoomId py event ≠ "" || contact.roomId ≠ "")

/-- The context of an event for its contact. -/
def eventContext (py : Python) (s : InterfaceState) (calls : EventCalls) (contactId : String)
    (contact : Contact) (event : Json) : String :=
  let references := eventMediaReferences py event
  let mediaId := ((references.head?).map Prod.fst).getD ""
  let downloaded := downloadMedia calls.media references ("", [])
  let transcript :=
    if eventType py event ∈ ["m.voice", "m.tts"] then
      transcriptForEvent py event downloaded.1 mediaId calls.stt
    else ""
  match commandOf py event with
  | some command => command
  | none => formatEventContext py s contactId contact event downloaded.2 transcript

/-! ## One event -/

/-- What `process_incoming_event` returns or raises. -/
inductive Processed
  | nothing
  | root (contactId context : String)
  | bookkeepingError
  | raised

/-- `_remember_work_event_reference`. -/
def rememberWorkEventReference (py : Python) (s : InterfaceState) (event : Json) :
    InterfaceState :=
  let content := eventContent event
  let room := eventRoomId py event
  let id := eventId py event
  let kind := firstText py [content.get "kind", event.get "kind"]
  if id = "" ∨ room = "" ∨ kind = "" then s
  else
    let field (key : String) : List (String × Json) :=
      let value := firstText py [content.get key, event.get key]
      if value ≠ "" then [(key, .str value)] else []
    let reference := Json.obj
      ([("kind", .str kind),
        ("work_event_id",
          .str (firstText py [content.get "work_event_id", event.get "work_event_id"]))] ++
        field "task_id" ++ field "blocker_id" ++ field "group_id" ++ field "call_id")
    let refs := ((s.workEventRefs.get? room).getD .empty).set id reference
    let dropped := refs.keys.take (refs.size - 500)
    { s with workEventRefs := s.workEventRefs.set room (refs.filter fun key _ => key ∉ dropped) }

/-- Remember the event as seen and skip it. -/
def skipEvent (s : InterfaceState) (calls : EventCalls) (roomId eventId : String) :
    Processed × InterfaceState :=
  if calls.seenFails then (.raised, s) else (.nothing, rememberSeenEvent s roomId eventId)

/-- The event is one the runtime must be told about. -/
def visible (py : Python) (event : Json) : Bool :=
  eventType py event ∉ ignoredEventTypes && eventType py event ∈ userVisibleEventTypes

/-- A call of a Silicon contact that is to be journaled. -/
def journalsCall (py : Python) (contact : Contact) (event : Json) : Bool :=
  contact.contactType = "silicon" && eventBody py event ≠ "" && eventId py event ≠ ""

/-- An event of a known contact, once it is found not to be processed yet. -/
def interpretEvent (py : Python) (s : InterfaceState) (calls : EventCalls) (deferWatermark : Bool)
    (event : Json) (contactId : String) (contact : Contact) : Processed × InterfaceState :=
  if readsReference py contact event && calls.reads .reference then (.raised, s)
  else if journalsCall py contact event && calls.incomingCall ≠ .recorded then
    (.bookkeepingError, s)
  else
    let context := eventContext py s calls contactId contact event
    if deferWatermark then (.root contactId context, s)
    else if calls.processedFails then (.raised, s)
    else
      (.root contactId context,
        rememberProcessed s contactId (eventId py event) (eventRoomId py event))

/-- An event that the runtime must be told about. -/
def processVisible (py : Python) (s : InterfaceState) (calls : EventCalls)
    (deferWatermark : Bool) (event : Json) : Processed × InterfaceState :=
  if calls.reads .lookup then (.raised, s)
  else
    let found := contactForRoom s (eventRoomId py event) calls.discovery
    match found.1 with
    | none => skipEvent found.2 calls (eventRoomId py event) (eventId py event)
    | some (contactId, contact) =>
        if readsWatermark contact (eventId py event) && calls.reads .watermark then
          (.raised, found.2)
        else if alreadyProcessed found.2 contact (eventRoomId py event) (eventId py event) then
          skipEvent found.2 calls (eventRoomId py event) (eventId py event)
        else interpretEvent py found.2 calls deferWatermark event contactId contact

/-- An event this Silicon authored. -/
def processOwn (py : Python) (s : InterfaceState) (calls : EventCalls) (event : Json) :
    Processed × InterfaceState :=
  if eventType py event = "m.text" ∧ eventId py event ≠ "" then
    if calls.reads .lookup then (.raised, s)
    else
      let found := contactForRoom s (eventRoomId py event) calls.discovery
      let journal :=
        match found.1 with
        | none => CallResult.recorded
        | some (_, contact) =>
            if contact.contactType = "silicon" then calls.sentCall else .recorded
      match journal with
      | .recorded => skipEvent found.2 calls (eventRoomId py event) (eventId py event)
      | .bookkeepingError => (.bookkeepingError, found.2)
      | .raised => (.raised, found.2)
  else skipEvent s calls (eventRoomId py event) (eventId py event)

/-- The local state once the references of a work event are cached. -/
def noteWorkEvent (py : Python) (s : InterfaceState) (event : Json) : InterfaceState :=
  if eventType py event = "m.work_event" then rememberWorkEventReference py s event else s

/-- `process_incoming_event`. -/
def processIncomingEvent (py : Python) (s : InterfaceState) (calls : EventCalls)
    (deferWatermark : Bool) (event : Json) : Processed × InterfaceState :=
  if calls.reads .entry then (.raised, s)
  else
    let s' := noteWorkEvent py s event
    if eventIsSelf py event s.ownIds then processOwn py s' calls event
    else if ¬ visible py event then
      skipEvent s' calls (eventRoomId py event) (eventId py event)
    else processVisible py s' calls deferWatermark event

/-! ## Handoff -/

/-- An event that has been handed to the runtime. -/
structure Handover where
  roomId : String
  eventId : String
  ingressId : String
deriving DecidableEq

/-- The local state, the coordinator's document, the contexts to be returned and
the events handed over so far. -/
structure Desk where
  interface : InterfaceState
  maintenance : Maintenance.State
  now : Seconds
  contexts : List (String × String)
  handed : List Handover

/-- The durable identity of an event of a record. -/
def ingressIdOf (py : Python) (record : InboxRecord) (index : Nat) (event : Json) : String :=
  if eventId py event ≠ "" then
    "interface:" ++ eventRoomId py event ++ ":" ++ eventId py event
  else if record.fileId ≠ "" ∧ 0 < record.endOffset then
    "interface-record:" ++ record.fileId ++ ":" ++ toString record.endOffset ++ ":" ++
      toString index
  else "interface-event:" ++ py.sha256 (py.dumps event).toUTF8.toList

/-- The handover of an event of a record. -/
def handoverOf (py : Python) (record : InboxRecord) (index : Nat) (event : Json) : Handover where
  roomId := eventRoomId py event
  eventId := eventId py event
  ingressId := ingressIdOf py record index event

/-- Give one root to the coordinator, then remember the event. -/
def handOff (host : Host) (py : Python) (calls : EventCalls) (record : InboxRecord)
    (index : Nat) (event : Json) (contactId context : String) (d : Desk) :
    EventOutcome × Desk :=
  if calls.handoffFails then (.deferred, d)
  else
    match Maintenance.call host
        (.enqueueIngressRoot contactId context (ingressIdOf py record index event))
        d.maintenance d.now with
    | .error _ => (.deferred, d)
    | .ok (_, accepted) =>
        let d' :=
          { d with
            maintenance := accepted
            handed := d.handed ++ [handoverOf py record index event] }
        if calls.processedFails then (.deferred, d')
        else
          (.handed,
            { d' with
              interface := rememberProcessed d'.interface contactId (eventId py event)
                (eventRoomId py event) })

/-- One turn of the loop over the events of a record. -/
def handleEvent (host : Host) (py : Python) (durableHandoff : Bool) (record : InboxRecord)
    (index : Nat) (event : Json) (calls : EventCalls) (d : Desk) : EventOutcome × Desk :=
  let processed := processIncomingEvent py d.interface calls durableHandoff event
  let d' := { d with interface := processed.2 }
  match processed.1 with
  | .bookkeepingError => (.deferred, d')
  | .raised => (.failed, d')
  | .nothing => (.skipped, d')
  | .root contactId context =>
      if durableHandoff then handOff host py calls record index event contactId context d'
      else
        (.handed,
          { d' with
            contexts := d.contexts ++ [(contactId, context)]
            handed := d.handed ++ [handoverOf py record index event] })

/-- The local state holds the identity of an event as processed. -/
def InterfaceState.remembers (s : InterfaceState) (roomId eventId : String) : Bool :=
  match s.contactOf roomId with
  | none => eventId ≠ "" && eventId ∈ s.roomIds roomId
  | some (_, contact) => alreadyProcessed s contact roomId eventId

/-- One turn: the event, whether the runtime must be told, how the turn ended,
and whether the event is remembered as processed after it. -/
structure Turn where
  handover : Handover
  owed : Bool
  outcome : EventOutcome
  remembered : Bool

/-- The runtime must be told about this event. -/
def owed (py : Python) (s : InterfaceState) (event : Json) : Bool :=
  visible py event && !eventIsSelf py event s.ownIds

/-- The loop over the events of a record, from the event with this index on.  A
deferred event ends it. -/
def handleEvents (host : Host) (py : Python) (durableHandoff : Bool) (record : InboxRecord)
    (calls : Nat → EventCalls) : Nat → List Json → Desk → List Turn × Desk
  | _, [], d => ([], d)
  | index, event :: rest, d =>
      let handled := handleEvent host py durableHandoff record index event (calls index) d
      let turn : Turn :=
        { handover := handoverOf py record index event
          owed := owed py d.interface event
          outcome := handled.1
          remembered :=
            handled.2.interface.remembers (eventRoomId py event) (eventId py event) }
      if handled.1 = .deferred then ([turn], handled.2)
      else
        let others :=
          handleEvents host py durableHandoff record calls (index + 1) rest handled.2
        (turn :: others.1, others.2)

/-- `_remove_room_mapping`. -/
def removeRoomMapping (s : InterfaceState) (roomId : String) : InterfaceState :=
  if roomId = "" then s
  else
    let contacts :=
      match s.rooms.get? roomId with
      | none => s.contacts
      | some contactId =>
          match s.contacts.get? contactId with
          | none => s.contacts
          | some contact =>
              if contact.roomId = roomId then
                s.contacts.set contactId { contact with roomId := "" }
              else s.contacts
    { s with rooms := s.rooms.pop roomId, contacts := contacts }

/-- `_reconcile_durable_frame`: what it changes at once. -/
def reconcileDurableFrame (py : Python) (s : InterfaceState) (frame : Json) : InterfaceState :=
  let room := if (frame.get "room_id").truthy then py.text (frame.get "room_id") else ""
  match frame.get "type" with
  | .str "room.removed" => removeRoomMapping s room
  | .str "account.state" =>
      let data := frame.get "data"
      let roomId :=
        if room ≠ "" then room
        else if (data.get "room_id").truthy then py.text (data.get "room_id")
        else ""
      match frame.get "kind" with
      | .str "room.remove" => removeRoomMapping s roomId
      | _ => s
  | _ => s

/-- One record of a batch: the turns of its events, and the desk after them. -/
def handleRecord (host : Host) (py : Python) (durableHandoff : Bool) (record : InboxRecord)
    (calls : Nat → EventCalls) (d : Desk) : List Turn × Desk :=
  handleEvents host py durableHandoff record calls 0 (eventsFromDurableFrame py record.frame)
    { d with interface := reconcileDurableFrame py d.interface record.frame }

/-- How the record ends. -/
def resultOf (turns : List Turn) : RecordResult where
  opened := true
  events := turns.map Turn.outcome

end Interface
end Stemcell
