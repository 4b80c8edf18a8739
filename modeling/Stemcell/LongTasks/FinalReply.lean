import Stemcell.Interface.Replies
import Stemcell.LongTasks.Entries
import Mathlib.Data.List.Induction

/-!
# Final replies

The final reply of a run waits with its lifecycle until a flush has sent all of it.  A flush that
fails is repeated later, after a restart if need be, and sends the whole reply again; a status that
no repetition can mend and the twelfth attempt end it.

Main results:

- Definitions `queueFinalReply` and `flushFinalReply`.
- Theorem `flush_posted`: what one flush adds to the posts of a segment.
- Theorem `once_iff`: the runs in which no segment is posted twice.
- Theorem `final_reply_law`: the replies of which no segment is ever posted twice are those of text
  only.
- Theorem `file_posted_twice`: a file that is posted twice.

Current gaps:

- The reconciliation and delivery of worker updates and the settling of the card, which a flush
  begins with, are given by what the flush reads of them.
-/

namespace Stemcell
namespace LongTasks

open Interface
open Maintenance (Seconds)

def maxPendingReplyChars : Nat := 262144
def maxPendingReplyAttempts : Nat := 12

/-! ## Statuses that end a reply -/

/-- A letter of a pattern, case ignored: two further letters fold to an `i`. -/
def sameLetter (letter c : Char) : Bool :=
  c.toLower = letter || (letter = 'i' && (c = 'İ' || c = 'ı'))

section Status

variable (host : ReplyHost)

/-- `\w`, where there is a character. -/
def isWord : Option Char → Bool
  | none => false
  | some c => host.isAlnum c || c = '_'

/-- Whether a text begins with a word, case ignored: what is after it. -/
def afterWord : List Char → List Char → Option (List Char)
  | [], text => some text
  | _, [] => none
  | letter :: word, c :: text => if sameLetter letter c then afterWord word text else none

/-- The expression for a status code at one place of a text. -/
def codeAt (before : Option Char) (text : List Char) : Option Nat :=
  if isWord host before = isWord host text.head? then none
  else
    match (afterWord ['h', 't', 't', 'p'] text).or (afterWord ['a', 'p', 'i'] text) with
    | none => none
    | some rest =>
        if rest.head?.any isSpace then
          match rest.dropWhile isSpace with
          | a :: b :: c :: after =>
              if a ∈ ['1', '2', '3', '4', '5'] ∧ b.isDigit ∧ c.isDigit ∧
                  isWord host (some c) ≠ isWord host after.head? then
                String.toNat? (String.ofList [a, b, c])
              else none
          | _ => none
        else none

/-- `re.search` for a status code: the character before, and the rest of the text. -/
def searchCode : Option Char → List Char → Option Nat
  | _, [] => none
  | before, c :: rest => (codeAt host before (c :: rest)).or (searchCode (some c) rest)

/-- `_terminal_reply_delivery_status`. -/
def terminalReplyDeliveryStatus (status : String) : Bool :=
  (host.lower status).toList.tails.any ("idempotency_conflict".toList.isPrefixOf ·) ||
    (searchCode host none status.toList).any
      (· ∈ ([400, 404, 405, 409, 410, 413, 422] : List Nat))

end Status

/-! ## Queueing and flushing -/

/-- A pending reply. -/
structure PendingReply where
  message : String
  clientId : String
  attempts : Nat
  nextAttemptAt : Seconds
deriving DecidableEq, Repr

/-- The reply of a lifecycle, the same on disk and in memory between its steps, and what the room
has of it. -/
structure FinalReply where
  pending : Option PendingReply
  sent : Bool
  delivered : Delivered

/-- Before a reply is queued; the room may have any messages. -/
def FinalReply.start (room : List Post) : FinalReply where
  pending := none
  sent := false
  delivered := ⟨room, fun _ => 0⟩

/-- The text of a reply that is kept. -/
def keptText (message : String) : String :=
  if message.length > maxPendingReplyChars then clip maxPendingReplyChars message else message

/-- The id of a reply. -/
def replyClientId (sha256 : String → List Char) (contactId runId message : String) : String :=
  stableId sha256 "final-reply" [contactId, runId, keptText message]

/-- `queue_final_reply`. -/
def queueFinalReply (sha256 : String → List Char) (contactId runId message : String)
    (w : FinalReply) : FinalReply :=
  match w.pending with
  | some _ => w
  | none =>
      { w with
        pending := some
          { message := keptText message
            clientId := replyClientId sha256 contactId runId message
            attempts := 0
            nextAttemptAt := 0 } }

/-- One call of `_flush_final_reply`: what it reads of the clock and of the task, whether it has
a sender, and the surroundings of the attempt. -/
structure FlushCall where
  now : Seconds
  force : Bool
  taskRequired : Bool
  activeWorkers : Bool
  pendingWorkers : Bool
  deferred : Bool
  taskConfirmed : Bool
  terminal : Bool
  settles : Bool
  hasSender : Bool
  attempt : Attempt
  later : Seconds

/-- The part of a flush before it sends: the answer if it does not, or else the reply. -/
def FlushCall.due (call : FlushCall) (w : FinalReply) : Except String PendingReply :=
  match w.pending with
  | none => .error (if w.sent then "Message sent" else "No reply queued")
  | some pending =>
      if !call.force && call.now < pending.nextAttemptAt then
        .error "Message queued for durable delivery"
      else if call.taskRequired &&
          (call.activeWorkers || call.pendingWorkers || call.deferred || !call.taskConfirmed) then
        .error "Message queued behind the durable work update"
      else if call.taskRequired && !call.terminal && !call.settles then
        .error "Message queued behind the durable work update"
      else if !call.hasSender then .error "Message queued for durable delivery"
      else .ok pending

/-- What becomes of the reply after the sender has returned. -/
def settleReply (host : ReplyHost) (later : Seconds) (pending : PendingReply) (status : String)
    (w : FinalReply) : FinalReply × String :=
  if status = "Message sent" then ({ w with pending := none, sent := true }, status)
  else
    let attempts := pending.attempts + 1
    if terminalReplyDeliveryStatus host status || attempts ≥ maxPendingReplyAttempts then
      ({ w with pending := none }, "Message delivery abandoned")
    else
      ({ w with
          pending := some
            { pending with attempts := attempts, nextAttemptAt := retryAt later attempts } },
        "Message queued for durable delivery")

/-- `_flush_final_reply_locked`; there is no answer when the process ends. -/
def flushFinalReply (host : ReplyHost) (contactId : String) (call : FlushCall) (w : FinalReply) :
    FinalReply × Option String :=
  match call.due w with
  | .error answer => (w, some answer)
  | .ok pending =>
      let sent := replyContact host contactId pending.message pending.clientId call.attempt
        w.delivered
      match sent.2 with
      | none => ({ w with delivered := sent.1 }, none)
      | some status =>
          let settled := settleReply host call.later pending status
            { w with delivered := sent.1 }
          (settled.1, some settled.2)

/-- A flush, or a restart of the process. -/
inductive ReplyStep
  | flush (call : FlushCall)
  | restart

variable (host : ReplyHost) (contactId : String)

def FinalReply.next (w : FinalReply) : ReplyStep → FinalReply
  | .flush call => (flushFinalReply host contactId call w).1
  | .restart => { w with sent := false }

/-- Steps one after the other. -/
def FinalReply.run (w : FinalReply) (steps : List ReplyStep) : FinalReply :=
  steps.foldl (FinalReply.next host contactId) w

/-! ## One flush -/

/-- What a flush makes of the reply and of the room. -/
theorem flushFinalReply_cases (call : FlushCall) (w : FinalReply) :
    ((flushFinalReply host contactId call w).1 = w ∧ ∀ pending, call.due w ≠ .ok pending) ∨
      ∃ pending, w.pending = some pending ∧ call.due w = .ok pending ∧
        (flushFinalReply host contactId call w).1.delivered =
          (replyContact host contactId pending.message pending.clientId call.attempt
            w.delivered).1 ∧
        ∀ kept, (flushFinalReply host contactId call w).1.pending = some kept →
          kept.message = pending.message ∧ kept.clientId = pending.clientId := by
  unfold flushFinalReply
  cases hdue : call.due w with
  | error answer => exact .inl ⟨rfl, fun pending h => by cases h⟩
  | ok pending =>
      have hpending : w.pending = some pending := by
        unfold FlushCall.due at hdue
        cases hw : w.pending with
        | none =>
            rw [hw] at hdue
            cases hdue
        | some found =>
            rw [hw] at hdue
            dsimp only at hdue
            split_ifs at hdue
            cases hdue
            rfl
      right
      refine ⟨pending, hpending, rfl, ?_⟩
      dsimp only
      cases (replyContact host contactId pending.message pending.clientId call.attempt
          w.delivered).2 with
      | none =>
          refine ⟨rfl, ?_⟩
          intro kept hkept
          rcases Option.some.inj (hpending.symm.trans hkept)
          exact ⟨rfl, rfl⟩
      | some status =>
          unfold settleReply
          dsimp only
          split_ifs
          · exact ⟨rfl, fun kept hkept => by cases hkept⟩
          · exact ⟨rfl, fun kept hkept => by cases hkept⟩
          · refine ⟨rfl, ?_⟩
            intro kept hkept
            cases hkept
            exact ⟨rfl, rfl⟩

/-- A file or voice segment that the room has is posted again by this flush. -/
def Reposts (call : FlushCall) (w : FinalReply) : Prop :=
  ∃ pending, call.due w = .ok pending ∧ call.attempt.recipient = .room ∧
    ∃ k segment, (parseReplySegments pending.message)[k]? = some segment ∧
      segment.kind ≠ .text ∧ call.attempt.reaches (parseReplySegments pending.message) k ∧
      call.attempt.getsThrough k segment ∧ 0 < w.delivered.posted k

/-- What one flush adds to the posts of a file or voice segment. -/
theorem flush_posted (call : FlushCall) (w : FinalReply) {pending : PendingReply} {k : Nat}
    {segment : Segment} (hdue : call.due w = .ok pending)
    (hsegment : (parseReplySegments pending.message)[k]? = some segment)
    (hkind : segment.kind ≠ .text) :
    (flushFinalReply host contactId call w).1.delivered.posted k =
      w.delivered.posted k + if call.attempt.recipient = .room ∧
        call.attempt.reaches (parseReplySegments pending.message) k ∧
        call.attempt.getsThrough k segment then 1 else 0 := by
  rcases flushFinalReply_cases host contactId call w with ⟨_, hnone⟩ | ⟨found, _, hfound, hroom, _⟩
  · exact absurd hdue (hnone pending)
  · rcases Except.ok.inj (hfound.symm.trans hdue)
    rw [hroom]
    exact posted_replyContact host contactId pending.message pending.clientId call.attempt
      w.delivered hsegment hkind

/-- The reply of a message is pending or settled, its texts are stored once at most, and nothing
else is counted. -/
structure Underway (message clientId : String) (w : FinalReply) : Prop where
  pending : ∀ pending, w.pending = some pending →
    pending.message = message ∧ pending.clientId = clientId
  once : Once clientId (parseReplySegments message) w.delivered
  beyond : ∀ k, (parseReplySegments message).length ≤ k → w.delivered.posted k = 0

variable {message clientId : String} {w : FinalReply}

theorem Underway.next (h : Underway message clientId w) (hid : strip clientId ≠ "")
    (step : ReplyStep) : Underway message clientId (w.next host contactId step) := by
  cases step with
  | restart => exact ⟨h.pending, h.once, h.beyond⟩
  | flush call =>
      unfold FinalReply.next
      rcases flushFinalReply_cases host contactId call w with
        ⟨hsame, _⟩ | ⟨pending, hpending, _, hroom, hkept⟩
      · dsimp only
        rw [hsame]
        exact h
      · rcases h.pending pending hpending with ⟨hmessage, hclientId⟩
        rw [hmessage, hclientId] at hroom
        constructor
        · intro kept hsome
          rcases hkept kept hsome with ⟨hm, hc⟩
          exact ⟨hm.trans hmessage, hc.trans hclientId⟩
        · dsimp only
          rw [hroom]
          exact Once.replyContact host contactId call.attempt
            (fun k => replySegmentClientId_ne_empty hid k _ _) h.once
        · intro k hk
          dsimp only
          rw [hroom, posted_replyContact_of_le host contactId message clientId call.attempt
            w.delivered hk]
          exact h.beyond k hk

theorem Underway.run (h : Underway message clientId w) (hid : strip clientId ≠ "")
    (steps : List ReplyStep) : Underway message clientId (w.run host contactId steps) := by
  induction steps generalizing w with
  | nil => exact h
  | cons step rest ih => exact ih (h.next host contactId hid step)

/-- Before a flush a segment is posted at most once, and the flush does not repeat a file or voice
segment: then it is posted at most once afterwards. -/
theorem Underway.posted_next (h : Underway message clientId w) (hid : strip clientId ≠ "")
    (call : FlushCall) (hfresh : ¬ Reposts call w) (hone : ∀ k, w.delivered.posted k ≤ 1) (k : Nat) :
    (w.next host contactId (.flush call)).delivered.posted k ≤ 1 := by
  have hafter := h.next host contactId hid (.flush call)
  cases hsegment : (parseReplySegments message)[k]? with
  | none =>
      rw [hafter.beyond k (List.getElem?_eq_none_iff.mp hsegment)]
      omega
  | some segment =>
      by_cases hkind : segment.kind = .text
      · rcases hafter.once k segment hsegment hkind with hzero | ⟨hone, _⟩ <;> omega
      · rcases flushFinalReply_cases host contactId call w with
          ⟨hsame, _⟩ | ⟨pending, hpending, hdue, _, _⟩
        · unfold FinalReply.next
          dsimp only
          rw [hsame]
          exact hone k
        · rw [← (h.pending pending hpending).1] at hsegment
          have hposted := flush_posted host contactId call w hdue hsegment hkind
          unfold FinalReply.next
          dsimp only
          rw [hposted]
          by_cases hthrough : call.attempt.recipient = .room ∧
              call.attempt.reaches (parseReplySegments pending.message) k ∧
              call.attempt.getsThrough k segment
          · have hnew : ¬ 0 < w.delivered.posted k := fun hpos => hfresh ⟨pending, hdue,
              hthrough.1, k, segment, hsegment, hkind, hthrough.2.1, hthrough.2.2, hpos⟩
            rw [if_pos hthrough]
            omega
          · rw [if_neg hthrough]
            exact hone k

/-- What is posted stays posted. -/
theorem Underway.posted_mono_next (h : Underway message clientId w) (step : ReplyStep) (k : Nat)
    (segment : Segment) (hsegment : (parseReplySegments message)[k]? = some segment)
    (hkind : segment.kind ≠ .text) :
    w.delivered.posted k ≤ (w.next host contactId step).delivered.posted k := by
  cases step with
  | restart => exact le_rfl
  | flush call =>
      unfold FinalReply.next
      dsimp only
      rcases flushFinalReply_cases host contactId call w with
        ⟨hsame, _⟩ | ⟨pending, hpending, hdue, _, _⟩
      · rw [hsame]
      · rw [← (h.pending pending hpending).1] at hsegment
        rw [flush_posted host contactId call w hdue hsegment hkind]
        exact Nat.le_add_right _ _

theorem Underway.posted_mono (h : Underway message clientId w) (hid : strip clientId ≠ "")
    (steps : List ReplyStep) (k : Nat) (segment : Segment)
    (hsegment : (parseReplySegments message)[k]? = some segment) (hkind : segment.kind ≠ .text) :
    w.delivered.posted k ≤ (w.run host contactId steps).delivered.posted k := by
  induction steps generalizing w with
  | nil => exact le_rfl
  | cons step rest ih =>
      exact (h.posted_mono_next host contactId step k segment hsegment hkind).trans
        (ih (h.next host contactId hid step))

/-- A flush that repeats a segment leaves it posted twice. -/
theorem Underway.posted_twice (h : Underway message clientId w) (call : FlushCall)
    (hreposts : Reposts call w) :
    ∃ k segment, (parseReplySegments message)[k]? = some segment ∧ segment.kind ≠ .text ∧
      2 ≤ (w.next host contactId (.flush call)).delivered.posted k := by
  rcases hreposts with
    ⟨pending, hdue, hrecipient, k, segment, hsegment, hkind, hreaches, hthrough, hpos⟩
  have hposted := flush_posted host contactId call w hdue hsegment hkind
  rw [if_pos ⟨hrecipient, hreaches, hthrough⟩] at hposted
  have hmessage : pending.message = message := by
    rcases flushFinalReply_cases host contactId call w with
      ⟨_, hnone⟩ | ⟨found, hfound, hdue', _, _⟩
    · exact absurd hdue (hnone pending)
    · rcases Except.ok.inj (hdue'.symm.trans hdue)
      exact (h.pending pending hfound).1
  rw [hmessage] at hsegment
  refine ⟨k, segment, hsegment, hkind, ?_⟩
  unfold FinalReply.next
  dsimp only
  omega

/-! ## Runs -/

/-- The runs in which each segment is posted at most once: no flush repeats a file or voice
segment that the room has. -/
theorem once_iff (h : Underway message clientId w) (hid : strip clientId ≠ "")
    (hone : ∀ k, w.delivered.posted k ≤ 1) (steps : List ReplyStep) :
    (∀ k, (w.run host contactId steps).delivered.posted k ≤ 1) ↔
      ∀ before call after, steps = before ++ .flush call :: after →
        ¬ Reposts call (w.run host contactId before) := by
  constructor
  · rintro hall before call after rfl hreposts
    have hbefore := h.run host contactId hid before
    rcases hbefore.posted_twice host contactId call hreposts with
      ⟨k, segment, hsegment, hkind, htwo⟩
    have hlater := (hbefore.next host contactId hid (.flush call)).posted_mono host contactId hid after k segment
        hsegment hkind
    have hend := hall k
    unfold FinalReply.run at hend
    rw [List.foldl_append, List.foldl_cons] at hend
    unfold FinalReply.run at hlater htwo
    omega
  · intro hfresh
    induction steps using List.reverseRecOn with
    | nil => exact hone
    | append_singleton steps step ih =>
        have hbefore : ∀ k, (w.run host contactId steps).delivered.posted k ≤ 1 := by
          apply ih
          rintro before call after rfl
          exact hfresh before call (after ++ [step]) (by simp)
        intro k
        unfold FinalReply.run
        rw [List.foldl_append]
        cases step with
        | restart => exact hbefore k
        | flush call =>
            exact (h.run host contactId hid steps).posted_next host contactId hid call
              (hfresh steps call [] rfl) hbefore k

/-! ## The law -/

/-- A reply that has just been queued. -/
def queuedReply (sha256 : String → List Char) (contactId runId message : String)
    (room : List Post) : FinalReply :=
  queueFinalReply sha256 contactId runId message (.start room)

theorem strip_replyClientId_ne_empty (sha256 : String → List Char)
    (contactId runId message : String) : strip (replyClientId sha256 contactId runId message) ≠ "" := by
  apply strip_ne_empty (c := 'f')
  · simp [replyClientId, stableId]
  · decide

theorem underway_queued (sha256 : String → List Char) (contactId runId message : String)
    (room : List Post) : Underway (keptText message) (replyClientId sha256 contactId runId message)
      (queuedReply sha256 contactId runId message room) := by
  constructor
  · intro pending hpending
    cases hpending
    exact ⟨rfl, rfl⟩
  · intro k segment _ _
    exact .inl rfl
  · intro k _
    rfl

/-- An attempt whose posts are all answered, and after which the process ends. -/
def crashingCall (count : Nat) : FlushCall where
  now := 0
  force := true
  taskRequired := false
  activeWorkers := false
  pendingWorkers := false
  deferred := false
  taskConfirmed := false
  terminal := false
  settles := false
  hasSender := true
  attempt := ⟨.room, fun _ => .answered, fun _ => true, some count⟩
  later := 0

theorem reaches_crashingCall {segments : List Segment} {k : Nat} (h : k < segments.length) :
    (crashingCall segments.length).attempt.reaches segments k := by
  unfold Attempt.reaches Attempt.reached crashingCall
  dsimp only
  rw [List.take_of_length_le (by simp), List.any_eq_true]
  refine ⟨(segments[k], k), ?_, by simp⟩
  exact List.mem_zipIdx_iff_getElem?.mpr (by simp [h])

/-- The replies of which no segment is ever posted twice are those of text only; and whatever the
reply, the runs without a second post are those in which no flush repeats a file or voice segment
that the room has. -/
theorem final_reply_law (sha256 : String → List Char) (contactId runId message : String) :
    ((∀ room steps k, ((queuedReply sha256 contactId runId message room).run host contactId
        steps).delivered.posted k ≤ 1) ↔
      ∀ segment ∈ parseReplySegments (keptText message), segment.kind = .text) ∧
    ∀ room steps,
      (∀ k, ((queuedReply sha256 contactId runId message room).run host contactId
        steps).delivered.posted k ≤ 1) ↔
      ∀ before call after, steps = before ++ .flush call :: after → ¬ Reposts call
        ((queuedReply sha256 contactId runId message room).run host contactId before) := by
  have hid := strip_replyClientId_ne_empty sha256 contactId runId message
  have hruns : ∀ room steps,
      (∀ k, ((queuedReply sha256 contactId runId message room).run host contactId
        steps).delivered.posted k ≤ 1) ↔
      ∀ before call after, steps = before ++ .flush call :: after → ¬ Reposts call
        ((queuedReply sha256 contactId runId message room).run host contactId before) := by
    intro room steps
    apply once_iff host contactId (underway_queued sha256 contactId runId message room) hid
    intro k
    exact Nat.zero_le 1
  refine ⟨?_, hruns⟩
  constructor
  · intro hall segment hmem
    by_contra hkind
    rcases List.getElem?_of_mem hmem with ⟨k, hk⟩
    have hlt : k < (parseReplySegments (keptText message)).length :=
      (List.getElem?_eq_some_iff.mp hk).1
    generalize hcall : crashingCall (parseReplySegments (keptText message)).length = call
    have hattempt : call.attempt.recipient = .room ∧
        call.attempt.reaches (parseReplySegments (keptText message)) k ∧
        call.attempt.getsThrough k segment := by
      rw [← hcall]
      refine ⟨rfl, reaches_crashingCall hlt, ?_⟩
      simp [Attempt.getsThrough, crashingCall, Outcome.received, hkind]
    -- The first attempt posts the segment, and the reply is still pending.
    have hfirst : call.due (queuedReply sha256 contactId runId message []) =
        .ok ⟨keptText message, replyClientId sha256 contactId runId message, 0, 0⟩ := by
      rw [← hcall]
      rfl
    have hsecond : call.due ((queuedReply sha256 contactId runId message []).run host contactId
        [.flush call]) =
          .ok ⟨keptText message, replyClientId sha256 contactId runId message, 0, 0⟩ := by
      rw [← hcall]
      rfl
    have hposted := flush_posted host contactId call _ hfirst hk hkind
    rw [if_pos hattempt] at hposted
    apply (hruns [] [.flush call, .flush call]).mp (hall [] _) [.flush call] call [] rfl
    refine ⟨_, hsecond, hattempt.1, k, segment, hk, hkind, hattempt.2.1, hattempt.2.2, ?_⟩
    have hrun : ((queuedReply sha256 contactId runId message []).run host contactId
        [.flush call]).delivered.posted k = _ := hposted
    omega
  · intro htext room steps k
    have hafter := (underway_queued sha256 contactId runId message room).run host contactId hid steps
    cases hsegment : (parseReplySegments (keptText message))[k]? with
    | none =>
        rw [hafter.beyond k (List.getElem?_eq_none_iff.mp hsegment)]
        omega
    | some segment =>
        rcases hafter.once k segment hsegment (htext segment (List.mem_of_getElem? hsegment)) with
          hzero | ⟨hone, _⟩ <;> omega

/-! ## A file that is posted twice -/

/-- A machine with simple paths and letters of the alphabet. -/
def plainHost : ReplyHost where
  path := id
  lower := String.map Char.toLower
  isAlnum := Char.isAlphanum

/-- A forced flush of a reply without a card; every post is answered. -/
def plainCall (fileExists : Nat → Bool) : FlushCall :=
  { crashingCall 0 with attempt := ⟨.room, fun _ => .answered, fileExists, none⟩ }

/-- The second file is missing at the first attempt, and there at the second. -/
def missingThenFound : List ReplyStep :=
  [.flush (plainCall (· = 0)), .flush (plainCall fun _ => true)]

theorem file_posted_twice :
    parseReplySegments (keptText "[file=/a][file=/b]") = [⟨.file, "/a"⟩, ⟨.file, "/b"⟩] ∧
      ((queuedReply (fun _ => []) "c" "r" "[file=/a][file=/b]" []).run plainHost "c"
        missingThenFound).delivered.posted 0 = 2 := by
  decide +kernel

end LongTasks
end Stemcell
