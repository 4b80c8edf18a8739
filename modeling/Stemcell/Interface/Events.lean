import Stemcell.Interface.Json

/-!
# Events of a frame

What the ingestion reads from a decoded event: its identity, its author, its
body and its attachments.  The daemon, the web client and older spools spell the
same field in several ways, so each lookup tries a list of spellings.

Main results:

- Definition `eventsFromDurableFrame`: the events of one inbox frame.
- Definition `formatEventContext`: the text that reaches the manager.
-/

namespace Stemcell
namespace Interface

variable (py : Python)

/-- `USER_VISIBLE_EVENT_TYPES`. -/
def userVisibleEventTypes : List String :=
  ["m.text", "m.image", "m.file", "m.album", "m.voice", "m.tts"]

/-- `IGNORED_EVENT_TYPES`. -/
def ignoredEventTypes : List String :=
  ["m.progress", "m.reaction", "m.session_marker", "m.system"]

/-! ## Identity -/

/-- `_event_content`. -/
def eventContent (event : Json) : Json :=
  if (event.get "content").isObj then event.get "content" else .obj []

/-- `_event_type`. -/
def eventType (event : Json) : String :=
  let content := eventContent event
  firstText py [event.get "type", event.get "event_type", event.get "eventType",
    content.get "msgtype", content.get "type"]

/-- `_event_id`. -/
def eventId (event : Json) : String :=
  let content := eventContent event
  firstText py [event.get "event_id", event.get "eventId", event.get "id",
    content.get "event_id", content.get "id"]

/-- `_event_room_id`. -/
def eventRoomId (event : Json) : String :=
  let content := eventContent event
  let roomId := firstText py [event.get "room_id", event.get "roomId", content.get "room_id"]
  if roomId ≠ "" then roomId
  else
    match event.get "room" with
    | .str room => room
    | _ => ""

/-- `str(value or "").strip()`. -/
def trimmedText (value : Json) : String :=
  if value.truthy then strip (py.text value) else ""

/-- `_event_sender_candidates`, before duplicates are dropped. -/
def senderValues (event : Json) : List Json :=
  let content := eventContent event
  let sender := event.get "sender"
  (if sender.isObj then
    ["id", "carbon_id", "carbonId", "silicon_id", "siliconId", "username", "handle",
      "public_id", "publicId", "name"].map sender.get
  else [sender]) ++
    ["sender_id", "senderId", "sender_handle", "senderHandle", "sender_username",
      "senderUsername", "sender_public_id", "senderPublicId", "carbon_id", "carbonId",
      "silicon_id", "siliconId"].map event.get ++
    ["sender", "sender_id", "senderId", "sender_handle", "senderHandle", "sender_username",
      "senderUsername", "carbon_id", "carbonId", "silicon_id", "siliconId"].map content.get

/-- `_event_sender_candidates`. -/
def eventSenderCandidates (event : Json) : List String :=
  (((senderValues event).map (trimmedText py)).filter fun text => text ≠ "").eraseDups

/-- `_identity_set`. -/
def identitySet (values : List String) : List String :=
  ((values.map strip).filter fun text => text ≠ "").flatMap fun text => [text, py.lower text]

/-- `_event_is_self`. -/
def eventIsSelf (event : Json) (ownIds : List String) : Bool :=
  if (event.get "is_self").truthy || (event.get "self").truthy ||
      (event.get "sender_is_self").truthy then
    true
  else
    let own := identitySet py ownIds
    (identitySet py (eventSenderCandidates py event)).any fun sender => sender ∈ own

/-! ## Content -/

/-- `_event_body`. -/
def eventBody (event : Json) : String :=
  let content := eventContent event
  strip (firstText py [event.get "body", event.get "text", event.get "message",
    event.get "caption", content.get "body", content.get "text", content.get "message",
    content.get "caption"])

/-- `_event_display_time`. -/
def eventDisplayTime (event : Json) : String :=
  let content := eventContent event
  firstText py [event.get "display_time", event.get "displayTime", content.get "display_time",
    event.get "created_at", event.get "createdAt"]

/-- The objects that may describe an attachment, outermost first. -/
def attachmentObjects (event : Json) : List Json :=
  let content := eventContent event
  [event, content, event.get "file", event.get "attachment", content.get "file",
    content.get "attachment"].filter Json.isObj

/-- The first text that is not empty. -/
def firstNonempty (texts : List String) : String :=
  (texts.find? fun text => text ≠ "").getD ""

/-- `_event_media_id`. -/
def eventMediaId (event : Json) : String :=
  firstNonempty ((attachmentObjects event).map fun obj =>
    firstText py [obj.get "media_id", obj.get "mediaId", obj.get "id"])

/-- `_event_filename`. -/
def eventFilename (event : Json) (mediaId : String) : String :=
  let name := firstNonempty ((attachmentObjects event).map fun obj =>
    firstText py [obj.get "filename", obj.get "file_name", obj.get "name"])
  if name ≠ "" then py.basename name
  else if mediaId ≠ "" then mediaId
  else "media"

/-- One item of an album, unless it was seen before. -/
def albumItem (references : List (String × String)) (item : Json) : List (String × String) :=
  if !item.isObj then references
  else
    let mediaId := firstText py [item.get "media_id", item.get "mediaId", item.get "id"]
    if mediaId = "" ∨ mediaId ∈ references.map Prod.fst then references
    else
      let filename := firstText py [item.get "filename", item.get "file_name", item.get "name"]
      references ++ [(mediaId, if filename ≠ "" then py.basename filename else mediaId)]

/-- `_event_media_references`: attachment ids and filenames in display order. -/
def eventMediaReferences (event : Json) : List (String × String) :=
  let content := eventContent event
  let mediaId := eventMediaId py event
  let single := if mediaId ≠ "" then [(mediaId, eventFilename py event mediaId)] else []
  if eventType py event ≠ "m.album" then single
  else
    let collections := [content.get "items", event.get "media_items",
      content.get "media_items", event.get "items"]
    let references := (collections.flatMap Json.items).foldl (albumItem py) []
    if references ≠ [] then references else single

/-- `_event_reply_to`. -/
def eventReplyTo (event : Json) : String :=
  let content := eventContent event
  let direct := firstNonempty ([event, content].map fun obj =>
    let value := firstText py [obj.get "reply_to", obj.get "reply_to_event_id",
      obj.get "replyToEventId"]
    if value ≠ "" then value
    else
      let reply := obj.get "reply"
      if reply.isObj then
        firstText py [reply.get "event_id", reply.get "eventId", reply.get "id",
          reply.get "body", reply.get "text"]
      else "")
  if direct ≠ "" then direct
  else
    let relatesTo := (content.get "m.relates_to").orElse (content.get "relates_to")
    if relatesTo.isObj then
      let inReplyTo := relatesTo.get "m.in_reply_to"
      firstText py
        [if inReplyTo.isObj then inReplyTo.get "event_id" else .str "",
          relatesTo.get "event_id"]
    else ""

/-- `_event_take_back_request_id`. -/
def eventTakeBackRequestId (event : Json) : String :=
  let content := eventContent event
  firstNonempty ([event, content].map fun obj =>
    let value := firstText py [obj.get "take_back_request_id", obj.get "takeBackRequestId",
      obj.get "take_back_id"]
    if value ≠ "" then value
    else
      let takeBack := (obj.get "take_back").orElse (obj.get "takeBack")
      if takeBack.isObj then
        firstText py [takeBack.get "request_id", takeBack.get "requestId", takeBack.get "id"]
      else "")

/-! ## Frames -/

/-- Name the room of an event that does not name one itself. -/
def withRoom (event roomId : Json) : Json :=
  if roomId.truthy && !(event.get "room_id").truthy && !(event.get "roomId").truthy then
    event.set "room_id" roomId
  else event

/-- `_event_from_frame`. -/
def eventFromFrame (frame : Json) : Option Json :=
  match frame.get "type", frame.get "event" with
  | .str "event", .obj fields => some (withRoom (.obj fields) (frame.get "room_id"))
  | _, _ => none

/-- `_room_id`. -/
def roomId (room : Json) : String :=
  trimmedText py (((room.get "room_id").orElse (room.get "roomId")).orElse (room.get "id"))

/-- `_events_from_durable_frame`. -/
def eventsFromDurableFrame (frame : Json) : List Json :=
  match eventFromFrame frame with
  | some event => [event]
  | none =>
      match frame.get "type" with
      | .str "initial.snapshot" =>
          ((frame.get "rooms").items.filter Json.isObj).flatMap fun room =>
            (((room.get "timeline").get "events").items.filter Json.isObj).map fun raw =>
              withRoom raw (.str (roomId py room))
      | _ => []

end Interface
end Stemcell
