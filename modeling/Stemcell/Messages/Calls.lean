import Stemcell.Maintenance.State

/-!
# Call bookkeeping

A message from one manager to another is shown as a call with two cards, one for each
side.  `core/work_updates.py` allocates the cards, journals their creation under an
idempotency key and remembers which calls are pending between two contacts.

Main results:

- Definition `enqueueOutboundCall`: journal the caller's side, or append to a call that
  is still pending.
- Definition `enqueueInboundCall`: journal the recipient's side.
- Theorem `appendCorrelatedCall_cases`: an append changes no card.

Current gaps:

- The retry journal is delivered to the network elsewhere.  Of an entry only the call id
  of a create is kept, in `journaled`, which never shrinks.
- Receipts are within their retention; the transcript, names and time stamps of a card
  are not modelled.
-/

namespace Stemcell
namespace Messages

open Lib Maintenance

/-- What the bookkeeping takes from its process: identifiers, the cleaned form of a hint
and the text of a dictionary of texts with sorted keys. -/
structure Platform where
  host : Host
  safeFragment : String → String
  dumps : List (String × String) → String

/-- Errors that leave a handoff for the next pass. -/
inductive CallError
  | queueIdRequired
  | cardIncomplete
  | journalFull
  | notAccepted
deriving DecidableEq, Repr

/-- The text of each error. -/
def CallError.message : CallError → String
  | queueIdRequired => "Manager call delivery requires queue_id."
  | cardIncomplete => "Call retry requires an owner and call_id."
  | journalFull => "Call retry journal is at its live-entry limit."
  | notAccepted => "Manager call bookkeeping was not accepted."

/-- The identity of one card. -/
structure CallCard where
  ownerContactId : String
  taskId : String
  callId : String
  workEventId : String
deriving DecidableEq, Repr

/-- No card: every `get` answers nothing. -/
def CallCard.blank : CallCard where
  ownerContactId := ""
  taskId := ""
  callId := ""
  workEventId := ""

/-- The two sides of a call. -/
inductive Side
  | outbound
  | inbound
deriving DecidableEq, Repr

/-- A pending call between two contacts. -/
structure Correlation where
  outbound : CallCard
  inbound : CallCard
  terminalRequested : Bool
deriving DecidableEq, Repr

def Correlation.card (correlation : Correlation) : Side → CallCard
  | .outbound => correlation.outbound
  | .inbound => correlation.inbound

/-- The `work_call` of a message: a fresh card, or one that a pending call has. -/
structure Reference where
  card : CallCard
  targetKind : String
  targetId : String
  continuation : Bool
  continuationRole : Option Side
deriving DecidableEq, Repr

/-- The recipient's card with the caller's side of it. -/
structure InboundReference where
  card : CallCard
  sourceId : String
  outbound : CallCard
deriving DecidableEq, Repr

/-- The idempotency receipt of a journaled delivery. -/
inductive CallReceipt
  | createOutbound (result : Reference)
  | createInbound (result : InboundReference)
  | append
deriving DecidableEq, Repr

/-- The part of `work_updates.json` that decides about calls, and the calls whose create
was journaled so far. -/
structure Calls where
  activeTaskId : Dict String String
  pendingCalls : Dict (String × String) Correlation
  dedupe : Dict String CallReceipt
  journaled : List String
  uuidsDrawn : Nat

variable (p : Platform)

/-- `_new_id` for the `n`-th draw. -/
def newId (kind hint : String) (n : Nat) : String :=
  let token := clip 20 (p.host.uuid4 n)
  if p.safeFragment hint = "" then kind ++ ":" ++ token
  else clip 128 (kind ++ ":" ++ p.safeFragment hint ++ ":" ++ token)

/-- `_stable_id`. -/
def stableId (kind : String) (parts : List String) : String :=
  kind ++ ":" ++ clip 24 (p.host.sha256 (String.intercalate "\x1f" parts))

/-! ## Pending calls -/

/-- `_has_call_reference`. -/
def hasCallReference (correlation : Correlation) (side : Side) : Bool :=
  (correlation.card side).ownerContactId ≠ "" && (correlation.card side).callId ≠ ""

/-- `_call_role_for_owner`: the side this contact owns. -/
def callRoleForOwner (correlation : Correlation) (contactId : String) : Option Side :=
  [Side.outbound, Side.inbound].find? fun side =>
    hasCallReference correlation side && (correlation.card side).ownerContactId = contactId

/-- `_call_reference_for_owner`. -/
def callReferenceForOwner (correlation : Correlation) (contactId : String) : CallCard :=
  match callRoleForOwner correlation contactId with
  | some side => correlation.card side
  | none => .blank

/-- `active_task_id`. -/
def Calls.activeTask (s : Calls) (contactId : String) : String :=
  (s.activeTaskId.get? contactId).getD ""

/-- The pending call of a contact with a peer. -/
def Calls.pending (s : Calls) (contactId peerId : String) : Option Correlation :=
  s.pendingCalls.get? (contactId, peerId)

/-- A pending call that further messages belong to. -/
def continues (correlation : Correlation) : Bool :=
  !correlation.terminalRequested &&
    (hasCallReference correlation .outbound || hasCallReference correlation .inbound)

/-- A card for a call that is drawn now. -/
def freshCard (s : Calls) (contactId taskId hint : String) : CallCard :=
  let callId := newId p "call" hint s.uuidsDrawn
  { ownerContactId := contactId
    taskId := taskId
    callId := callId
    workEventId := stableId p "call-event" [contactId, taskId, callId] }

/-- `prepare_outbound_call`. -/
def prepareOutboundCall (s : Calls) (contactId targetKind targetId taskId : String) :
    Reference × Calls :=
  let taskId := orElse taskId (s.activeTask contactId)
  let targetKind := if targetKind = "silicon" then "silicon" else "manager"
  let fresh : Reference × Calls :=
    ({ card := freshCard p s contactId taskId targetId
       targetKind := targetKind
       targetId := targetId
       continuation := false
       continuationRole := none },
     { s with uuidsDrawn := s.uuidsDrawn + 1 })
  match s.pending contactId targetId with
  | none => fresh
  | some correlation =>
      if continues correlation then
        ({ card := callReferenceForOwner correlation contactId
           targetKind := targetKind
           targetId := targetId
           continuation := true
           continuationRole := callRoleForOwner correlation contactId }, s)
      else fresh

/-- The pending call is still the one that the reference continues. -/
def currentCall (s : Calls) (reference : Reference) : Bool :=
  match s.pending reference.card.ownerContactId reference.targetId with
  | none => false
  | some correlation =>
      !correlation.terminalRequested &&
        (callReferenceForOwner correlation reference.card.ownerContactId).callId =
          reference.card.callId

/-- `_refresh_stale_call_continuation`: the reference to go on with. -/
def refreshStaleCallContinuation (s : Calls) (reference : Reference) : Reference × Calls :=
  if ¬ reference.continuation then (reference, s)
  else if currentCall s reference then (reference, s)
  else
    prepareOutboundCall p s reference.card.ownerContactId
      (orElse reference.targetKind "manager") reference.targetId reference.card.taskId

/-! ## The journal -/

/-- `_insert_call_retry_entries` for a key that stands for one delivery; `room` tells
whether the journal takes new entries. -/
def insertCallRetryEntries (s : Calls) (room : Bool) (dedupeKey : String)
    (receipt : CallReceipt) (creates : List String) : Except CallError Calls :=
  if (s.dedupe.get? dedupeKey).isSome then .ok s
  else if room then
    .ok
      { s with
        dedupe := s.dedupe.set dedupeKey receipt
        journaled := s.journaled ++ creates }
  else .error .journalFull

/-- `_journal_call_create`. -/
def journalCallCreate (s : Calls) (room : Bool) (dedupeKey : String) (card : CallCard)
    (receipt : CallReceipt) : Except CallError Calls :=
  if card.ownerContactId = "" ∨ card.callId = "" then .error .cardIncomplete
  else insertCallRetryEntries s room dedupeKey receipt [card.callId]

/-- `_remember_outbound_call_reference`. -/
def rememberOutboundCallReference (s : Calls) (reference : Reference) : Calls :=
  if reference.continuation ∨ reference.card.ownerContactId = "" ∨ reference.targetId = "" ∨
      reference.card.callId = "" then s
  else
    { s with
      pendingCalls := s.pendingCalls.set (reference.card.ownerContactId, reference.targetId)
        { outbound := reference.card, inbound := .blank, terminalRequested := false } }

/-- The correlation has one of these calls on a side. -/
def Correlation.touches (correlation : Correlation) (callIds : List String) : Bool :=
  correlation.outbound.callId ∈ callIds || correlation.inbound.callId ∈ callIds

/-- `_touch_call_correlations`: no pending call of these ids is closed. -/
def touchCallCorrelations (s : Calls) (callIds : List String) : Bool :=
  let ids := callIds.filter (· ≠ "")
  let found := s.pendingCalls.values.filter (·.touches ids)
  !found.isEmpty && found.all fun correlation => !correlation.terminalRequested

/-- `_mark_call_correlations_terminal`. -/
def markCallCorrelationsTerminal (s : Calls) (callId : String) : Calls :=
  { s with
    pendingCalls := s.pendingCalls.mapValues fun correlation =>
      if correlation.touches [callId] then { correlation with terminalRequested := true }
      else correlation }

/-- The sides of a call that have a card. -/
def callEntries (correlation : Correlation) : List String :=
  ([Side.outbound, Side.inbound].filter (hasCallReference correlation)).map fun side =>
    (correlation.card side).callId

/-- `_append_correlated_call`. -/
def appendCorrelatedCall (s : Calls) (room : Bool) (dedupeKey : String)
    (correlation : Correlation) (terminal : Bool) : Except CallError (Bool × Calls) :=
  if ¬ touchCallCorrelations s [correlation.outbound.callId, correlation.inbound.callId] then
    .ok (false, s)
  else if callEntries correlation = [] then .ok (false, s)
  else
    match s.dedupe.get? dedupeKey with
    -- The echo of an accepted first message only drives its create again.
    | some (.createOutbound _) | some (.createInbound _) => .ok (true, s)
    | _ =>
        match insertCallRetryEntries s room dedupeKey .append [] with
        | .error e => .error e
        | .ok appended =>
            .ok (true,
              if terminal then
                (callEntries correlation).foldl markCallCorrelationsTerminal appended
              else appended)

/-! ## The two sides -/

/-- The first result kept for the key, or the reference itself. -/
def canonicalOutbound (s : Calls) (dedupeKey : String) (reference : Reference) : Reference :=
  match s.dedupe.get? dedupeKey with
  | some (.createOutbound result) => result
  | _ => reference

/-- `enqueue_outbound_call`: whether the side is accepted, and the reference as it is
left behind. -/
def enqueueOutboundCall (s : Calls) (room : Bool) (idempotencyKey : String)
    (reference : Reference) : Except CallError Bool × Reference × Calls :=
  if reference.continuation ∧ s.dedupe.get? idempotencyKey = some .append then
    (.ok true, reference, s)
  else
    let refreshed := refreshStaleCallContinuation p s reference
    let reference := refreshed.1
    let s := refreshed.2
    if ¬ reference.continuation then
      match journalCallCreate s room idempotencyKey reference.card (.createOutbound reference) with
      | .error e => (.error e, reference, s)
      | .ok created =>
          (.ok true, reference,
            rememberOutboundCallReference created
              (canonicalOutbound created idempotencyKey reference))
    else
      match s.pending reference.card.ownerContactId reference.targetId with
      | none => (.ok false, reference, s)
      | some correlation =>
          let role := reference.continuationRole.orElse fun _ =>
            callRoleForOwner correlation reference.card.ownerContactId
          match appendCorrelatedCall s room idempotencyKey correlation (role = some .inbound) with
          | .error e => (.error e, reference, s)
          | .ok appended => (.ok appended.1, reference, appended.2)

/-- `prepare_inbound_call`. -/
def prepareInboundCall (s : Calls) (contactId sourceId : String) (outbound : Reference) :
    InboundReference × Calls :=
  ({ card := freshCard p s contactId (s.activeTask contactId) sourceId
     sourceId := sourceId
     outbound := outbound.card },
   { s with uuidsDrawn := s.uuidsDrawn + 1 })

/-- `_remember_inbound_call_reference`. -/
def rememberInboundCallReference (s : Calls) (reference : InboundReference) : Calls :=
  let contactId := reference.card.ownerContactId
  if contactId = "" ∨ reference.sourceId = "" ∨ reference.card.callId = "" then s
  else
    let correlation : Correlation :=
      { outbound := reference.outbound, inbound := reference.card, terminalRequested := false }
    let recipient := s.pendingCalls.set (contactId, reference.sourceId) correlation
    { s with
      pendingCalls :=
        if reference.outbound.ownerContactId = "" then recipient
        else recipient.set (reference.outbound.ownerContactId, contactId) correlation }

/-- The first result kept for the key, or the reference itself. -/
def canonicalInbound (s : Calls) (dedupeKey : String) (reference : InboundReference) :
    InboundReference :=
  match s.dedupe.get? dedupeKey with
  | some (.createInbound result) => result
  | _ => reference

/-- `enqueue_inbound_call`. -/
def enqueueInboundCall (s : Calls) (room : Bool) (idempotencyKey contactId sourceId : String)
    (outbound : Reference) : Except CallError CallCard × Calls :=
  let prepared := prepareInboundCall p s contactId sourceId outbound
  match journalCallCreate prepared.2 room idempotencyKey prepared.1.card
      (.createInbound prepared.1) with
  | .error e => (.error e, prepared.2)
  | .ok created =>
      let canonical := canonicalInbound created idempotencyKey prepared.1
      (.ok canonical.card, rememberInboundCallReference created canonical)

/-! ## What the bookkeeping keeps -/

/-- A pending call names journaled calls only. -/
def Correlation.Journaled (correlation : Correlation) (journaled : List String) : Prop :=
  ∀ side, (correlation.card side).callId = "" ∨ (correlation.card side).callId ∈ journaled

/-- The pending calls are journaled calls. -/
def PendingJournaled (s : Calls) : Prop :=
  ∀ key correlation, s.pendingCalls.get? key = some correlation →
    correlation.Journaled s.journaled

theorem Correlation.Journaled.mono {correlation : Correlation} {xs ys : List String}
    (h : correlation.Journaled xs) (hsub : xs ⊆ ys) : correlation.Journaled ys := by
  intro side
  rcases h side with hblank | hmem
  · exact .inl hblank
  · exact .inr (hsub hmem)

variable {p : Platform} {s s' : Calls} {room : Bool} {key : String} {receipt : CallReceipt}
  {creates : List String}

/-- A delivery is journaled under its key once. -/
theorem insertCallRetryEntries_cases
    (h : insertCallRetryEntries s room key receipt creates = .ok s') :
    (∃ old, s.dedupe.get? key = some old) ∧ s' = s ∨
      s.dedupe.get? key = none ∧
        s' = { s with
          dedupe := s.dedupe.set key receipt
          journaled := s.journaled ++ creates } := by
  unfold insertCallRetryEntries at h
  by_cases hkey : (s.dedupe.get? key).isSome
  · rw [if_pos hkey] at h
    left
    exact ⟨Option.isSome_iff_exists.mp hkey, (Except.ok.inj h).symm⟩
  · rw [if_neg hkey] at h
    split at h
    · right
      exact ⟨by simpa using hkey, (Except.ok.inj h).symm⟩
    · cases h

theorem journalCallCreate_cases {card : CallCard}
    (h : journalCallCreate s room key card receipt = .ok s') :
    card.callId ≠ "" ∧
      ((∃ old, s.dedupe.get? key = some old) ∧ s' = s ∨
        s.dedupe.get? key = none ∧
          s' = { s with
            dedupe := s.dedupe.set key receipt
            journaled := s.journaled ++ [card.callId] }) := by
  unfold journalCallCreate at h
  split at h <;> rename_i hcard
  · cases h
  · rw [not_or] at hcard
    exact ⟨hcard.2, insertCallRetryEntries_cases h⟩

/-- Closing calls changes no card and no receipt. -/
theorem markCallCorrelationsTerminal_pending (callId : String) (h : PendingJournaled s) :
    PendingJournaled (markCallCorrelationsTerminal s callId) := by
  intro key correlation hget side
  rw [markCallCorrelationsTerminal, Dict.get?_mapValues, Option.map_eq_some_iff] at hget
  rcases hget with ⟨old, hold, rfl⟩
  have hside := h key old hold side
  split
  · cases side
    · exact hside
    · exact hside
  · exact hside

theorem foldl_markTerminal (callIds : List String) (h : PendingJournaled s) :
    PendingJournaled (callIds.foldl markCallCorrelationsTerminal s) ∧
      (callIds.foldl markCallCorrelationsTerminal s).dedupe = s.dedupe ∧
      (callIds.foldl markCallCorrelationsTerminal s).journaled = s.journaled := by
  induction callIds generalizing s with
  | nil => exact ⟨h, rfl, rfl⟩
  | cons id rest ih => exact ih (markCallCorrelationsTerminal_pending id h)

/-- An append writes its receipt at most; it changes no card. -/
theorem appendCorrelatedCall_cases {correlation : Correlation} {terminal accepted : Bool}
    (hpending : PendingJournaled s)
    (h : appendCorrelatedCall s room key correlation terminal = .ok (accepted, s')) :
    PendingJournaled s' ∧ s'.journaled = s.journaled ∧
      (s'.dedupe = s.dedupe ∨
        s.dedupe.get? key = none ∧ s'.dedupe = s.dedupe.set key .append) := by
  have hsame : ∀ {b : Bool}, (Except.ok (b, s) : Except CallError (Bool × Calls)) =
      .ok (accepted, s') → PendingJournaled s' ∧ s'.journaled = s.journaled ∧
        (s'.dedupe = s.dedupe ∨
          s.dedupe.get? key = none ∧ s'.dedupe = s.dedupe.set key .append) := by
    intro b heq
    rcases Prod.mk.inj (Except.ok.inj heq) with ⟨-, rfl⟩
    exact ⟨hpending, rfl, .inl rfl⟩
  unfold appendCorrelatedCall at h
  split at h
  · exact hsame h
  split at h
  · exact hsame h
  split at h
  · exact hsame h
  · exact hsame h
  split at h
  · cases h
  rename_i appended hinsert
  rcases Prod.mk.inj (Except.ok.inj h) with ⟨-, rfl⟩
  have happended : PendingJournaled appended ∧ appended.journaled = s.journaled ∧
      (appended.dedupe = s.dedupe ∨
        s.dedupe.get? key = none ∧ appended.dedupe = s.dedupe.set key .append) := by
    rcases insertCallRetryEntries_cases hinsert with ⟨-, rfl⟩ | ⟨hnone, rfl⟩
    · exact ⟨hpending, rfl, .inl rfl⟩
    · refine ⟨?_, List.append_nil _, .inr ⟨hnone, rfl⟩⟩
      intro key' correlation' hget
      exact (hpending key' correlation' hget).mono (List.subset_append_left _ _)
  split
  · rcases foldl_markTerminal (callEntries correlation) happended.1 with ⟨hp, hd, hj⟩
    rw [hd, hj]
    exact ⟨hp, happended.2⟩
  · exact happended

/-- A published correlation of journaled calls keeps the pending calls journaled. -/
theorem PendingJournaled.publish (h : PendingJournaled s) {key : String × String}
    {correlation : Correlation} (hcorrelation : correlation.Journaled s.journaled) :
    PendingJournaled { s with pendingCalls := s.pendingCalls.set key correlation } := by
  intro key' correlation' hget
  rw [Dict.get?_set] at hget
  split at hget
  · cases hget
    exact hcorrelation
  · exact h key' correlation' hget

theorem rememberOutboundCallReference_pending {reference : Reference} (h : PendingJournaled s)
    (hcall : reference.card.callId ∈ s.journaled) :
    PendingJournaled (rememberOutboundCallReference s reference) := by
  unfold rememberOutboundCallReference
  split
  · exact h
  · apply h.publish
    intro side
    cases side
    · exact .inr hcall
    · exact .inl rfl

theorem rememberInboundCallReference_pending {reference : InboundReference}
    (h : PendingJournaled s) (hcall : reference.card.callId ∈ s.journaled)
    (houtbound : reference.outbound.callId = "" ∨ reference.outbound.callId ∈ s.journaled) :
    PendingJournaled (rememberInboundCallReference s reference) := by
  have hcorrelation : Correlation.Journaled
      { outbound := reference.outbound, inbound := reference.card, terminalRequested := false }
      s.journaled := by
    intro side
    cases side
    · exact houtbound
    · exact .inr hcall
  unfold rememberInboundCallReference
  simp only
  split
  · exact h
  · split
    · exact h.publish hcorrelation
    · exact (h.publish hcorrelation).publish hcorrelation

@[simp]
theorem rememberOutboundCallReference_dedupe (s : Calls) (reference : Reference) :
    (rememberOutboundCallReference s reference).dedupe = s.dedupe := by
  unfold rememberOutboundCallReference
  split <;> rfl

@[simp]
theorem rememberOutboundCallReference_journaled (s : Calls) (reference : Reference) :
    (rememberOutboundCallReference s reference).journaled = s.journaled := by
  unfold rememberOutboundCallReference
  split <;> rfl

@[simp]
theorem rememberInboundCallReference_dedupe (s : Calls) (reference : InboundReference) :
    (rememberInboundCallReference s reference).dedupe = s.dedupe := by
  unfold rememberInboundCallReference
  simp only
  split <;> rfl

@[simp]
theorem rememberInboundCallReference_journaled (s : Calls) (reference : InboundReference) :
    (rememberInboundCallReference s reference).journaled = s.journaled := by
  unfold rememberInboundCallReference
  simp only
  split <;> rfl

end Messages
end Stemcell
