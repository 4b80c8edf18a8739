import Stemcell.Interface.Json
import Mathlib.Data.List.Nodup
import Mathlib.Data.List.TakeWhile

/-!
# Replies to a contact

A reply is parsed into segments: text, and marks for files and voice messages.  The segments are
posted to the room of the contact one after the other.  A text carries a client id that is derived
from the id of the reply; the room discards a text whose id it has stored.  A file or a voice
message carries none.

Main results:

- Definition `parseReplySegments`: the segments of a reply.
- Definition `replyContact`: posts the segments and says what went wrong.
- Theorem `posted_deliverSegments`: how often each file and voice segment is posted.
- Theorem `Once.deliverSegments`: a text segment is posted at most once, whatever is retried.

Current gaps:

- Records of sent messages, call bookkeeping and traces are left out: what they raise is part of
  the answer to a post.
-/

namespace Stemcell
namespace Interface

/-! ## Segments -/

/-- Kinds of segments. -/
inductive SegmentType
  | text
  | file
  | voice
deriving DecidableEq, Repr

/-- The word for a kind, in marks and in errors. -/
def SegmentType.name : SegmentType → String
  | .text => "text"
  | .file => "file"
  | .voice => "voice"

/-- A segment of a reply. -/
structure Segment where
  kind : SegmentType
  value : String
deriving DecidableEq, Repr

/-- The body of a mark up to the bracket that closes it, and what is after that bracket.  A
bracket inside opens a passage up to the next closing one. -/
def scanBody : Bool → List Char → Option (List Char × List Char)
  | _, [] => none
  | true, c :: rest =>
      (scanBody (c ≠ ']') rest).map fun scanned => (c :: scanned.1, scanned.2)
  | false, c :: rest =>
      if c = ']' then some ([], rest)
      else (scanBody (c = '[') rest).map fun scanned => (c :: scanned.1, scanned.2)

/-- A mark of one kind at the beginning of a text: its value, and what is after it. -/
def matchMark (kind : SegmentType) (text : List Char) : Option (List Char × List Char) :=
  let opening := '[' :: kind.name.toList ++ ['=']
  if opening.isPrefixOf text then scanBody false (text.drop opening.length) else none

/-- `RICH_MEDIA_RE` at the beginning of a text. -/
def matchMedia (text : List Char) : Option (Segment × List Char) :=
  match matchMark .file text with
  | some (value, rest) => some (⟨.file, String.ofList value⟩, rest)
  | none =>
      (matchMark .voice text).map fun found => (⟨.voice, String.ofList found.1⟩, found.2)

/-- The text between two marks. -/
def textBetween (text : List Char) : List Segment :=
  let value := strip (String.ofList text)
  if value ≠ "" then [⟨.text, value⟩] else []

/-- The segments of a text: the number of characters of a mark that are still passed over, and
the characters since the last mark, the latest first. -/
def segmentsFrom : Nat → List Char → List Char → List Segment
  | _, before, [] => textBetween before.reverse
  | skip + 1, before, _ :: rest => segmentsFrom skip before rest
  | 0, before, c :: rest =>
      match matchMedia (c :: rest) with
      | some (segment, after) =>
          textBetween before.reverse ++
            segment :: segmentsFrom (rest.length - after.length) [] rest
      | none => segmentsFrom 0 (c :: before) rest

/-- `_parse_reply_segments`. -/
def parseReplySegments (message : String) : List Segment :=
  let segments := segmentsFrom 0 [] message.toList
  if segments = [] then [⟨.text, message⟩] else segments

/-- `text[:n]`. -/
def clip (n : Nat) (text : String) : String :=
  String.ofList (text.toList.take n)

/-- `_reply_segment_client_id`. -/
def replySegmentClientId (clientId : String) (index count : Nat) (kind : SegmentType) : String :=
  let id := strip clientId
  if id = "" then ""
  else if count ≤ 1 then clip 128 id
  else
    let suffix := ":segment:" ++ toString (index + 1) ++ ":" ++ kind.name
    clip 128 (clip (max 1 (128 - suffix.length)) id ++ suffix)

/-! ## Posts -/

/-- A message in a room. -/
structure Post where
  kind : SegmentType
  value : String
  clientId : String
deriving DecidableEq, Repr

/-- The texts of the room that carry an id. -/
def hasText (room : List Post) (clientId : String) : Bool :=
  room.any fun post => post.kind = .text && post.clientId = clientId

/-- A room, and how often it has stored each segment of the reply under consideration. -/
structure Delivered where
  room : List Post
  posted : Nat → Nat

/-- The room receives the post for a segment: a text is discarded when its id is stored. -/
def Delivered.receive (d : Delivered) (index : Nat) (post : Post) : Delivered :=
  if post.kind = .text ∧ post.clientId ≠ "" ∧ hasText d.room post.clientId then d
  else
    { room := d.room ++ [post]
      posted := Function.update d.posted index (d.posted index + 1) }

/-- What comes of a post: it is answered, it reaches the room and the answer is lost, or it does
not reach the room. -/
inductive Outcome
  | answered
  | lost (error : String)
  | refused (error : String)
deriving DecidableEq, Repr

def Outcome.received : Outcome → Bool
  | .refused _ => false
  | _ => true

def Outcome.error : Outcome → Option String
  | .answered => none
  | .lost error => some error
  | .refused error => some error

/-- What `reply_contact` finds of a contact. -/
inductive Recipient
  | room
  | unknown
  | roomless
  | fails
deriving DecidableEq, Repr

/-- The surroundings of one attempt: the contact, the outcome of each post, the files that exist,
and the number of segments after which the process ends. -/
structure Attempt where
  recipient : Recipient
  outcome : Nat → Outcome
  fileExists : Nat → Bool
  endsAfter : Option Nat

/-- The machine: `abspath(expanduser(value.strip()))`, and the text functions of the language. -/
structure ReplyHost where
  path : String → String
  lower : String → String
  isAlnum : Char → Bool

/-- Whether a segment is posted and reaches the room. -/
def Attempt.getsThrough (a : Attempt) (index : Nat) (segment : Segment) : Bool :=
  (segment.kind ≠ .text || segment.value ≠ "") &&
    (segment.kind ≠ .file || a.fileExists index) && (a.outcome index).received

/-- The request for a segment. -/
def postSegment (a : Attempt) (segment : Segment) (index : Nat) (clientId : String)
    (d : Delivered) : Delivered × List String :=
  let outcome := a.outcome index
  (if outcome.received then d.receive index ⟨segment.kind, segment.value, clientId⟩ else d,
    match outcome.error with
    | none => []
    | some error => [segment.kind.name ++ " segment failed: " ++ error])

/-- One round of the loop of `reply_contact`. -/
def deliverSegment (host : ReplyHost) (a : Attempt) (clientId : String) (count : Nat)
    (segment : Segment) (index : Nat) (d : Delivered) : Delivered × List String :=
  let segmentClientId := replySegmentClientId clientId index count segment.kind
  match segment.kind with
  | .text =>
      if segment.value ≠ "" then postSegment a segment index segmentClientId d else (d, [])
  | .file =>
      if a.fileExists index then postSegment a segment index "" d
      else (d, ["File not found: " ++ host.path segment.value])
  | .voice => postSegment a segment index "" d

/-- The loop of `reply_contact` over numbered segments. -/
def deliverSegments (host : ReplyHost) (a : Attempt) (clientId : String) (count : Nat) :
    List (Segment × Nat) → Delivered → Delivered × List String
  | [], d => (d, [])
  | (segment, index) :: rest, d =>
      let first := deliverSegment host a clientId count segment index d
      let others := deliverSegments host a clientId count rest first.1
      (others.1, first.2 ++ others.2)

/-- The numbered segments that an attempt comes to. -/
def Attempt.reached (a : Attempt) (segments : List Segment) : List (Segment × Nat) :=
  match a.endsAfter with
  | none => segments.zipIdx
  | some n => segments.zipIdx.take n

/-- `reply_contact`, inside the `try` of its caller; there is no status when the process ends. -/
def replyContact (host : ReplyHost) (contactId : String) (message clientId : String) (a : Attempt)
    (d : Delivered) : Delivered × Option String :=
  match a.recipient with
  | .unknown => (d, some ("Error: contact '" ++ contactId ++ "' not found"))
  | .roomless => (d, some ("Error: contact '" ++ contactId ++ "' has no Interface DM"))
  | .fails => (d, some "Message delivery failed")
  | .room =>
      let segments := parseReplySegments message
      let result := deliverSegments host a clientId segments.length (a.reached segments) d
      match a.endsAfter with
      | some _ => (result.1, none)
      | none =>
          (result.1, some (if result.2 ≠ [] then
            "Sent with errors: " ++ "; ".intercalate result.2 else "Message sent"))

/-! ## What the room stores -/

@[simp]
theorem hasText_append (room : List Post) (post : Post) (clientId : String) :
    hasText (room ++ [post]) clientId =
      (hasText room clientId || (post.kind = .text && post.clientId = clientId : Bool)) := by
  simp [hasText]

/-- A room keeps the texts it has. -/
theorem hasText_receive (d : Delivered) (index : Nat) (post : Post) {clientId : String}
    (h : hasText d.room clientId) : hasText (d.receive index post).room clientId := by
  unfold Delivered.receive
  split
  · exact h
  · simp [h]

theorem posted_receive_of_ne (d : Delivered) {index k : Nat} (post : Post) (h : k ≠ index) :
    (d.receive index post).posted k = d.posted k := by
  unfold Delivered.receive
  split
  · rfl
  · exact Function.update_of_ne h _ _

/-- A post that is no text is always stored. -/
theorem posted_receive_media (d : Delivered) (index : Nat) {post : Post}
    (h : post.kind ≠ .text) : (d.receive index post).posted index = d.posted index + 1 := by
  unfold Delivered.receive
  rw [if_neg (fun hc => h hc.1)]
  exact Function.update_self ..

/-- A text is stored under its id, and not a second time. -/
theorem receive_text (d : Delivered) (index : Nat) {post : Post} (hkind : post.kind = .text)
    (hid : post.clientId ≠ "") :
    hasText (d.receive index post).room post.clientId ∧
      (d.receive index post).posted index =
        d.posted index + if hasText d.room post.clientId then 0 else 1 := by
  unfold Delivered.receive
  by_cases hstored : hasText d.room post.clientId
  · rw [if_pos ⟨hkind, hid, hstored⟩, if_pos hstored]
    exact ⟨hstored, rfl⟩
  · rw [if_neg (fun hc => hstored hc.2.2), if_neg hstored]
    constructor
    · simp [hkind]
    · exact Function.update_self ..

section Deliver

variable (host : ReplyHost) (a : Attempt) (clientId : String) (count : Nat)

theorem posted_deliverSegment_of_ne (segment : Segment) {index k : Nat} (d : Delivered)
    (h : k ≠ index) :
    (deliverSegment host a clientId count segment index d).1.posted k = d.posted k := by
  unfold deliverSegment postSegment
  dsimp only
  split <;> split_ifs <;> first | rfl | exact posted_receive_of_ne _ _ h

theorem hasText_deliverSegment (segment : Segment) (index : Nat) (d : Delivered) {id : String}
    (h : hasText d.room id) :
    hasText (deliverSegment host a clientId count segment index d).1.room id := by
  unfold deliverSegment postSegment
  dsimp only
  split <;> split_ifs <;> first | exact h | exact hasText_receive _ _ _ h

/-- A file or voice segment is stored whenever it gets through. -/
theorem posted_deliverSegment_media {segment : Segment} (index : Nat) (d : Delivered)
    (h : segment.kind ≠ .text) :
    (deliverSegment host a clientId count segment index d).1.posted index =
      d.posted index + if a.getsThrough index segment then 1 else 0 := by
  have hstored := fun id => posted_receive_media d index
    (show (⟨segment.kind, segment.value, id⟩ : Post).kind ≠ .text from h)
  unfold deliverSegment postSegment Attempt.getsThrough
  cases hkind : segment.kind with
  | text => exact absurd hkind h
  | file =>
      rw [hkind] at hstored
      by_cases hexists : a.fileExists index <;> by_cases hreceived : (a.outcome index).received <;>
        simp [hexists, hreceived, hstored]
  | voice =>
      rw [hkind] at hstored
      by_cases hreceived : (a.outcome index).received <;> simp [hreceived, hstored]

/-- A text segment that is posted is stored under its id unless that id is stored. -/
theorem deliverSegment_text {segment : Segment} (index : Nat) (d : Delivered)
    (h : segment.kind = .text) (hid : replySegmentClientId clientId index count .text ≠ "") :
    (deliverSegment host a clientId count segment index d).1.posted index = d.posted index ∨
      hasText (deliverSegment host a clientId count segment index d).1.room
          (replySegmentClientId clientId index count .text) ∧
        ¬ hasText d.room (replySegmentClientId clientId index count .text) ∧
        (deliverSegment host a clientId count segment index d).1.posted index =
          d.posted index + 1 := by
  have hstored := receive_text d index
    (show (⟨.text, segment.value, replySegmentClientId clientId index count .text⟩ : Post).kind =
      .text from rfl) hid
  unfold deliverSegment postSegment
  rw [h]
  dsimp only
  by_cases hvalue : segment.value ≠ ""
  · by_cases hreceived : (a.outcome index).received
    · rw [if_pos hvalue, if_pos hreceived]
      by_cases hbefore : hasText d.room (replySegmentClientId clientId index count .text)
      · left
        simpa [hbefore] using hstored.2
      · right
        exact ⟨hstored.1, hbefore, by simpa [hbefore] using hstored.2⟩
    · left
      rw [if_pos hvalue, if_neg hreceived]
  · left
    rw [if_neg hvalue]

/-- A file or voice segment is stored once for each time it gets through. -/
theorem posted_deliverSegments {k : Nat} {segment : Segment} (hkind : segment.kind ≠ .text)
    (entries : List (Segment × Nat)) (d : Delivered)
    (h : ∀ entry ∈ entries, entry.2 = k → entry.1 = segment) :
    (deliverSegments host a clientId count entries d).1.posted k =
      d.posted k + if a.getsThrough k segment then entries.countP (·.2 = k) else 0 := by
  induction entries generalizing d with
  | nil => simp [deliverSegments]
  | cons entry rest ih =>
      unfold deliverSegments
      dsimp only
      rw [ih _ fun e he => h e (List.mem_cons_of_mem _ he)]
      by_cases hk : entry.2 = k
      · have hsegment := h entry List.mem_cons_self hk
        subst hk
        rw [hsegment, posted_deliverSegment_media host a clientId count entry.2 d hkind]
        by_cases hthrough : a.getsThrough entry.2 segment
        · simp [hthrough]
          omega
        · simp [hthrough]
      · rw [posted_deliverSegment_of_ne host a clientId count entry.1 d (Ne.symm hk)]
        simp [hk]

/-- Nothing is stored for a number that does not occur. -/
theorem posted_deliverSegments_of_ne {k : Nat} (entries : List (Segment × Nat)) (d : Delivered)
    (h : ∀ entry ∈ entries, entry.2 ≠ k) :
    (deliverSegments host a clientId count entries d).1.posted k = d.posted k := by
  induction entries generalizing d with
  | nil => rfl
  | cons entry rest ih =>
      unfold deliverSegments
      dsimp only
      rw [ih _ fun e he => h e (List.mem_cons_of_mem _ he)]
      exact posted_deliverSegment_of_ne host a clientId count entry.1 d
        (Ne.symm (h entry List.mem_cons_self))

end Deliver

/-- Each text segment of a reply is stored at most once, and then under its id. -/
def Once (clientId : String) (segments : List Segment) (d : Delivered) : Prop :=
  ∀ k segment, segments[k]? = some segment → segment.kind = .text →
    d.posted k = 0 ∨ d.posted k = 1 ∧
      hasText d.room (replySegmentClientId clientId k segments.length .text)

/-- One more segment keeps text segments at one post. -/
theorem Once.deliverSegment {clientId : String} {segments : List Segment} {d : Delivered}
    (host : ReplyHost) (a : Attempt) {segment : Segment} {index : Nat}
    (hids : ∀ k, replySegmentClientId clientId k segments.length .text ≠ "")
    (h : Once clientId segments d) (hsegment : segments[index]? = some segment) :
    Once clientId segments
      (deliverSegment host a clientId segments.length segment index d).1 := by
  intro k other hother hkind
  by_cases hk : k = index
  · subst hk
    rw [hsegment] at hother
    rcases Option.some.inj hother
    rcases deliverSegment_text host a clientId segments.length k d hkind (hids k) with
      hsame | ⟨hafter, hbefore, hone⟩
    · rw [hsame]
      rcases h k segment hsegment hkind with hzero | ⟨hone, htext⟩
      · exact .inl hzero
      · exact .inr ⟨hone, hasText_deliverSegment host a _ _ _ _ _ htext⟩
    · rcases h k segment hsegment hkind with hzero | ⟨_, htext⟩
      · exact .inr ⟨by rw [hone, hzero], hafter⟩
      · exact absurd htext hbefore
  · rw [posted_deliverSegment_of_ne host a clientId _ _ d hk]
    rcases h k other hother hkind with hzero | ⟨hone, htext⟩
    · exact .inl hzero
    · exact .inr ⟨hone, hasText_deliverSegment host a _ _ _ _ _ htext⟩

/-- However segments are retried, a text segment is posted at most once. -/
theorem Once.deliverSegments {clientId : String} {segments : List Segment} (host : ReplyHost)
    (a : Attempt) (hids : ∀ k, replySegmentClientId clientId k segments.length .text ≠ "")
    (entries : List (Segment × Nat)) (d : Delivered) (h : Once clientId segments d)
    (hentries : ∀ entry ∈ entries, segments[entry.2]? = some entry.1) :
    Once clientId segments
      (deliverSegments host a clientId segments.length entries d).1 := by
  induction entries generalizing d with
  | nil => exact h
  | cons entry rest ih =>
      apply ih
      · exact h.deliverSegment host a hids (hentries entry List.mem_cons_self)
      · intro e he
        exact hentries e (List.mem_cons_of_mem _ he)

/-! ## What an attempt reaches -/

theorem Attempt.mem_reached {a : Attempt} {segments : List Segment} {entry : Segment × Nat}
    (h : entry ∈ a.reached segments) : segments[entry.2]? = some entry.1 := by
  have hmem : entry ∈ segments.zipIdx := by
    unfold Attempt.reached at h
    split at h
    · exact h
    · exact List.mem_of_mem_take h
  exact List.mem_zipIdx_iff_getElem?.mp hmem

/-- An attempt comes to each segment at most once. -/
theorem Attempt.nodup_reached (a : Attempt) (segments : List Segment) :
    ((a.reached segments).map Prod.snd).Nodup := by
  have hall : (segments.zipIdx.map Prod.snd).Nodup := by
    rw [List.zipIdx_map_snd]
    exact List.nodup_range'
  unfold Attempt.reached
  split
  · exact hall
  · rw [List.map_take]
    exact hall.sublist (List.take_sublist _ _)

/-- Whether an attempt comes to a segment. -/
def Attempt.reaches (a : Attempt) (segments : List Segment) (k : Nat) : Bool :=
  (a.reached segments).any fun entry => entry.2 = k

theorem Attempt.countP_reached (a : Attempt) (segments : List Segment) (k : Nat) :
    (a.reached segments).countP (·.2 = k) = if a.reaches segments k then 1 else 0 := by
  have hcount : (a.reached segments).countP (·.2 = k) =
      ((a.reached segments).map Prod.snd).count k := by
    rw [List.count, List.countP_map]
    rfl
  have hmem : k ∈ (a.reached segments).map Prod.snd ↔ a.reaches segments k := by
    unfold Attempt.reaches
    simp only [List.mem_map, List.any_eq_true, decide_eq_true_eq]
  rw [hcount, (a.nodup_reached segments).count]
  exact if_congr hmem rfl rfl

/-- What an attempt adds to the posts of a file or voice segment. -/
theorem posted_replyContact (host : ReplyHost) (contactId message clientId : String) (a : Attempt)
    (d : Delivered) {k : Nat} {segment : Segment}
    (hsegment : (parseReplySegments message)[k]? = some segment) (hkind : segment.kind ≠ .text) :
    (replyContact host contactId message clientId a d).1.posted k =
      d.posted k + if a.recipient = .room ∧ a.reaches (parseReplySegments message) k ∧
        a.getsThrough k segment then 1 else 0 := by
  unfold replyContact
  cases hrecipient : a.recipient with
  | room =>
      have hposted := posted_deliverSegments host a clientId (parseReplySegments message).length
        hkind (a.reached (parseReplySegments message)) d (k := k) (by
          rintro entry hentry rfl
          exact Option.some.inj ((Attempt.mem_reached hentry).symm.trans hsegment))
      rw [Attempt.countP_reached] at hposted
      have hsum : (if a.getsThrough k segment then
          if a.reaches (parseReplySegments message) k then 1 else 0 else 0) =
          if True ∧ a.reaches (parseReplySegments message) k ∧ a.getsThrough k segment
            then 1 else 0 := by
        by_cases hreaches : a.reaches (parseReplySegments message) k <;>
          by_cases hthrough : a.getsThrough k segment <;> simp [hreaches, hthrough]
      rw [hsum] at hposted
      cases hends : a.endsAfter <;> simpa using hposted
  | unknown => simp
  | roomless => simp
  | fails => simp

/-- There is nothing to post beyond the segments. -/
theorem posted_replyContact_of_le (host : ReplyHost) (contactId message clientId : String)
    (a : Attempt) (d : Delivered) {k : Nat} (h : (parseReplySegments message).length ≤ k) :
    (replyContact host contactId message clientId a d).1.posted k = d.posted k := by
  have hdelivered := posted_deliverSegments_of_ne host a clientId
    (parseReplySegments message).length (a.reached (parseReplySegments message)) d (k := k) (by
      rintro entry hentry rfl
      have hsome := Attempt.mem_reached hentry
      rw [List.getElem?_eq_none h] at hsome
      cases hsome)
  unfold replyContact
  cases a.recipient with
  | room => cases a.endsAfter <;> exact hdelivered
  | unknown => rfl
  | roomless => rfl
  | fails => rfl

/-- An attempt keeps text segments at one post. -/
theorem Once.replyContact {message clientId : String} {d : Delivered} (host : ReplyHost)
    (contactId : String) (a : Attempt) (hid : ∀ k, replySegmentClientId clientId k
      (parseReplySegments message).length .text ≠ "")
    (h : Once clientId (parseReplySegments message) d) :
    Once clientId (parseReplySegments message)
      (replyContact host contactId message clientId a d).1 := by
  have hdelivered := Once.deliverSegments host a hid (a.reached (parseReplySegments message)) d h
    fun entry hentry => Attempt.mem_reached hentry
  unfold Interface.replyContact
  cases a.recipient with
  | room => cases a.endsAfter <;> exact hdelivered
  | unknown => exact h
  | roomless => exact h
  | fails => exact h

/-! ## Client ids -/

/-- A text with a character that is no white space is not stripped to nothing. -/
theorem strip_ne_empty {text : String} {c : Char} (hmem : c ∈ text.toList)
    (hc : isSpace c = false) : strip text ≠ "" := by
  unfold strip
  intro hempty
  have hnil := congrArg String.toList hempty
  simp only [String.toList_ofList, String.toList_empty, List.reverse_eq_nil_iff,
    List.dropWhile_eq_nil_iff] at hnil
  have hall : ∀ x ∈ text.toList, isSpace x := by
    intro x hx
    rw [← List.takeWhile_append_dropWhile (p := isSpace) (l := text.toList)] at hx
    rcases List.mem_append.mp hx with h | h
    · exact List.mem_takeWhile_imp h
    · exact hnil x (List.mem_reverse.mpr h)
  rw [hall c hmem] at hc
  cases hc

theorem clip_ne_empty {n : Nat} {text : String} (hn : 0 < n) (h : text ≠ "") :
    clip n text ≠ "" := by
  unfold clip
  intro hempty
  have hnil := congrArg String.toList hempty
  simp only [String.toList_ofList, String.toList_empty, List.take_eq_nil_iff] at hnil
  rcases hnil with h0 | h0
  · omega
  · exact h (String.toList_injective (by rw [h0]; rfl))

/-- The segments of a reply with an id have ids. -/
theorem replySegmentClientId_ne_empty {clientId : String} (h : strip clientId ≠ "")
    (index count : Nat) (kind : SegmentType) :
    replySegmentClientId clientId index count kind ≠ "" := by
  unfold replySegmentClientId
  dsimp only
  rw [if_neg h]
  split
  · exact clip_ne_empty (by omega) h
  · apply clip_ne_empty (by omega)
    intro hempty
    have hlength := congrArg String.length hempty
    simp at hlength

end Interface
end Stemcell
