import Stemcell.Interface.Ingestion
import Stemcell.Lib.Transition

/-!
# Delivery of owed events

A user-visible event that this Silicon did not write is owed to the runtime.
This module says when a turn of the loop over the events of a record hands it
over, and follows the owed events over runs of records, in which everything else
may change the local state and the coordinator's document between two records.

Main results:

- Theorem `processIncomingEvent_of_getsThrough`: an event that gets through
  becomes a root or puts its record back.
- Theorem `processIncomingEvent_of_not_getsThrough`: one that does not is passed
  over.
- Theorem `delivery_law`: exactly when an owed event is not dropped, for one turn
  and over runs.
-/

namespace Stemcell
namespace Interface

open Lib
open Maintenance (Seconds Host)

/-! ## Events that get through -/

/-- The room of the event resolves to a contact that has not processed it, and
neither a read of the local state nor, where the watermark comes first, the
watermark itself fails.  A call that cannot be journaled puts the record back. -/
def GetsThrough (py : Python) (s : InterfaceState) (calls : EventCalls) (durableHandoff : Bool)
    (event : Json) : Prop :=
  calls.reads .entry = false ∧ calls.reads .lookup = false ∧
    ∃ contactId contact,
      (contactForRoom s (eventRoomId py event) calls.discovery).1 = some (contactId, contact) ∧
      (readsWatermark contact (eventId py event) = true → calls.reads .watermark = false) ∧
      alreadyProcessed (contactForRoom s (eventRoomId py event) calls.discovery).2 contact
        (eventRoomId py event) (eventId py event) = false ∧
      (readsReference py contact event = true → calls.reads .reference = false) ∧
      (durableHandoff = true ∨ calls.processedFails = false ∨
        journalsCall py contact event = true ∧ calls.incomingCall ≠ .recorded)

/-- The event, or a delivery of it under the same identity, has been handed over. -/
def HandedOver (handed : List Handover) (h : Handover) : Prop :=
  ∃ h' ∈ handed, h'.roomId = h.roomId ∧ h'.eventId = h.eventId ∧
    (h.eventId = "" → h'.ingressId = h.ingressId)

section Events

variable {host : Host} {py : Python} {s : InterfaceState} {calls : EventCalls}
  {durableHandoff : Bool} {event : Json} {contact : Contact} {contactId : String}
  {record : InboxRecord} {index : Nat} {d : Desk}

theorem HandedOver.mono {handed handed' : List Handover} {h : Handover}
    (hall : HandedOver handed h) (hsub : handed ⊆ handed') : HandedOver handed' h := by
  rcases hall with ⟨h', hmem, hsame⟩
  exact ⟨h', hsub hmem, hsame⟩

theorem handedOver_append_self (handed : List Handover) (h : Handover) :
    HandedOver (handed ++ [h]) h :=
  ⟨h, by simp, rfl, rfl, fun _ => rfl⟩

/-- `_contact_for_room` answers with the contact that the state it leaves has for
the room. -/
theorem contactForRoom_contactOf (s : InterfaceState) (roomId : String) (answer : Discovery) :
    (contactForRoom s roomId answer).2.contactOf roomId =
      (contactForRoom s roomId answer).1 := by
  unfold contactForRoom
  split <;> rfl

/-- An event that its contact has not processed is not remembered. -/
theorem remembers_of_not_alreadyProcessed {roomId id : String} {answer : Discovery}
    (hfound : (contactForRoom s roomId answer).1 = some (contactId, contact))
    (hfresh : alreadyProcessed (contactForRoom s roomId answer).2 contact roomId id = false) :
    (contactForRoom s roomId answer).2.remembers roomId id = false := by
  simp only [InterfaceState.remembers, contactForRoom_contactOf, hfound, hfresh]

theorem owed_iff :
    owed py s event = true ↔
      visible py event = true ∧ eventIsSelf py event s.ownIds = false := by
  simp [owed]

theorem noteWorkEvent_of_visible (h : visible py event = true) :
    noteWorkEvent py s event = s := by
  have htype : eventType py event ≠ "m.work_event" := by
    intro htype
    rw [visible, htype] at h
    exact absurd h (by decide)
  simp [noteWorkEvent, htype]

/-- An owed event is interpreted for the contact of its room. -/
theorem processIncomingEvent_of_owed (h : owed py s event = true) :
    processIncomingEvent py s calls durableHandoff event =
      if calls.reads .entry then (.raised, s)
      else processVisible py s calls durableHandoff event := by
  rcases owed_iff.mp h with ⟨hvisible, hself⟩
  simp [processIncomingEvent, noteWorkEvent_of_visible hvisible, hself, hvisible]

/-- An event that gets through becomes a root, or its record is put back because
a call could not be journaled.  It is not remembered unless the watermark comes
first. -/
theorem processIncomingEvent_of_getsThrough (howed : owed py s event = true)
    (h : GetsThrough py s calls durableHandoff event) :
    ∃ s', ((∃ contactId context,
          processIncomingEvent py s calls durableHandoff event =
            (.root contactId context, s')) ∨
        processIncomingEvent py s calls durableHandoff event = (.bookkeepingError, s')) ∧
      (durableHandoff = true ∨
          processIncomingEvent py s calls durableHandoff event = (.bookkeepingError, s') →
        s'.remembers (eventRoomId py event) (eventId py event) = false) := by
  rcases h with ⟨hentry, hlookup, contactId, contact, hfound, hwatermark, hfresh, href, hlast⟩
  have hunknown := remembers_of_not_alreadyProcessed hfound hfresh
  have hread : (readsWatermark contact (eventId py event) && calls.reads .watermark) = false := by
    cases hr : readsWatermark contact (eventId py event) <;> simp_all
  have hreference : (readsReference py contact event && calls.reads .reference) = false := by
    cases hr : readsReference py contact event <;> simp_all
  rw [processIncomingEvent_of_owed howed]
  simp only [hentry, processVisible, hlookup, hfound, hread, hfresh, interpretEvent, hreference,
    Bool.false_eq_true, if_false]
  by_cases hjournal : journalsCall py contact event = true ∧ calls.incomingCall ≠ .recorded
  · refine ⟨_, .inr (by simp [hjournal]), fun _ => hunknown⟩
  have hkept : (journalsCall py contact event && calls.incomingCall ≠ .recorded) = false := by
    cases hj : journalsCall py contact event <;> simp_all
  simp only [hkept, Bool.false_eq_true, if_false]
  cases durableHandoff with
  | true => exact ⟨_, .inl ⟨_, _, rfl⟩, fun _ => hunknown⟩
  | false =>
      have hprocessed : calls.processedFails = false := by
        rcases hlast with hdurable | hprocessed | hbad
        · cases hdurable
        · exact hprocessed
        · exact absurd hbad hjournal
      simp only [hprocessed, Bool.false_eq_true, if_false]
      exact ⟨_, .inl ⟨_, _, rfl⟩, fun h => by simp at h⟩

/-- An owed event that does not get through is skipped, or its exception is
logged and passed over. -/
theorem processIncomingEvent_of_not_getsThrough (howed : owed py s event = true)
    (h : ¬ GetsThrough py s calls durableHandoff event) :
    (processIncomingEvent py s calls durableHandoff event).1 = .raised ∨
      (processIncomingEvent py s calls durableHandoff event).1 = .nothing := by
  have hskip : ∀ s', (skipEvent s' calls (eventRoomId py event) (eventId py event)).1 = .raised ∨
      (skipEvent s' calls (eventRoomId py event) (eventId py event)).1 = .nothing := by
    intro s'
    unfold skipEvent
    split
    · left; rfl
    · right; rfl
  rw [processIncomingEvent_of_owed howed]
  split
  · left; rfl
  rename_i hentry
  unfold processVisible
  split
  · left; rfl
  rename_i hlookup
  simp only
  split
  · exact hskip _
  rename_i contactId contact hfound
  split
  · left; rfl
  rename_i hwatermark
  split
  · exact hskip _
  rename_i hfresh
  unfold interpretEvent
  split
  · left; rfl
  rename_i hreference
  -- What is left is the first watermark, which fails.
  have hlast : ¬ (durableHandoff = true ∨ calls.processedFails = false ∨
      journalsCall py contact event = true ∧ calls.incomingCall ≠ .recorded) := by
    intro hlast
    refine h ⟨by simpa using hentry, by simpa using hlookup, contactId, contact, hfound, ?_,
      by simpa using hfresh, ?_, hlast⟩
    · simpa using hwatermark
    · simpa using hreference
  rw [not_or, not_or] at hlast
  rcases hlast with ⟨hdurable, hfails, hkept⟩
  have hjournal : (journalsCall py contact event && calls.incomingCall ≠ .recorded) = false := by
    cases hj : journalsCall py contact event <;> simp_all
  simp only [hjournal, Bool.false_eq_true, if_false, hdurable]
  simp only [Bool.not_eq_false] at hfails
  simp [hfails]

/-! ## One turn -/

theorem handOff_handed {context : String} :
    d.handed ⊆ (handOff host py calls record index event contactId context d).2.handed := by
  unfold handOff
  split
  · exact List.Subset.refl _
  split
  · exact List.Subset.refl _
  simp only
  split <;> exact List.subset_append_left ..

/-- A root that was not accepted is neither handed over nor remembered by this
turn; one that was is handed over. -/
theorem handOff_cases {context : String} :
    (handOff host py calls record index event contactId context d = (.deferred, d)) ∨
      HandedOver (handOff host py calls record index event contactId context d).2.handed
        (handoverOf py record index event) := by
  unfold handOff
  split
  · left; rfl
  split
  · left; rfl
  right
  simp only
  split <;> exact handedOver_append_self ..

/-- What has been handed over stays handed over. -/
theorem handleEvent_handed :
    d.handed ⊆ (handleEvent host py durableHandoff record index event calls d).2.handed := by
  unfold handleEvent
  simp only
  split
  · exact List.Subset.refl _
  · exact List.Subset.refl _
  · exact List.Subset.refl _
  · split
    · exact @handOff_handed host py calls event _ record index
        { d with interface := (processIncomingEvent py d.interface calls durableHandoff event).2 } _
    · exact List.subset_append_left ..

/-- An owed event is not dropped by its turn: if the turn leaves it behind or
remembers it as processed, it has been handed over. -/
def NotDropped (host : Host) (py : Python) (durableHandoff : Bool) (record : InboxRecord)
    (index : Nat) (event : Json) (calls : EventCalls) (d : Desk) : Prop :=
  (handleEvent host py durableHandoff record index event calls d).1 ≠ .deferred ∨
      (handleEvent host py durableHandoff record index event calls d).2.interface.remembers
        (eventRoomId py event) (eventId py event) = true →
    HandedOver (handleEvent host py durableHandoff record index event calls d).2.handed
      (handoverOf py record index event)

theorem notDropped_of_getsThrough (howed : owed py d.interface event = true)
    (h : GetsThrough py d.interface calls durableHandoff event) :
    NotDropped host py durableHandoff record index event calls d := by
  rcases processIncomingEvent_of_getsThrough howed h with
    ⟨s', ⟨contactId, context, hroot⟩ | herror, hunknown⟩
  · cases hdurable : durableHandoff with
    | false =>
        intro _
        rw [hdurable] at hroot
        simp only [handleEvent, hroot, Bool.false_eq_true, if_false]
        exact handedOver_append_self ..
    | true =>
        have hfresh := hunknown (.inl hdurable)
        rw [hdurable] at hroot
        unfold NotDropped
        simp only [handleEvent, hroot, if_true]
        rcases @handOff_cases host py calls event contactId record index
          { d with interface := s' } context with hdeferred | hhanded
        · rw [hdeferred]
          intro hgone
          simp [hfresh] at hgone
        · exact fun _ => hhanded
  · have hfresh := hunknown (.inr herror)
    unfold NotDropped
    simp only [handleEvent, herror]
    intro hgone
    simp [hfresh] at hgone

theorem handleEvent_of_not_getsThrough (howed : owed py d.interface event = true)
    (h : ¬ GetsThrough py d.interface calls durableHandoff event) :
    (handleEvent host py durableHandoff record index event calls d).1 ≠ .deferred ∧
      (handleEvent host py durableHandoff record index event calls d).2.handed = d.handed := by
  rcases processIncomingEvent_of_not_getsThrough howed h with hraised | hnothing
  · simp [handleEvent, hraised]
  · simp [handleEvent, hnothing]

/-- Exactly the owed events that get through, and those handed over before, are
not dropped. -/
theorem notDropped_iff (howed : owed py d.interface event = true) :
    NotDropped host py durableHandoff record index event calls d ↔
      GetsThrough py d.interface calls durableHandoff event ∨
        HandedOver d.handed (handoverOf py record index event) := by
  constructor
  · intro hkept
    by_cases hthrough : GetsThrough py d.interface calls durableHandoff event
    · left; exact hthrough
    · right
      rcases handleEvent_of_not_getsThrough howed hthrough with ⟨hleft, hhanded⟩
      rw [← hhanded]
      exact hkept (.inl hleft)
  · rintro (hthrough | hbefore)
    · exact notDropped_of_getsThrough howed hthrough
    · exact fun _ => hbefore.mono handleEvent_handed

end Events

/-! ## Runs -/

/-- Every owed event of the loop gets through, or was handed over before. -/
def AllGetThrough (host : Host) (py : Python) (durableHandoff : Bool) (record : InboxRecord)
    (calls : Nat → EventCalls) : Nat → List Json → Desk → Prop
  | _, [], _ => True
  | index, event :: rest, d =>
      (owed py d.interface event = true →
        GetsThrough py d.interface (calls index) durableHandoff event ∨
          HandedOver d.handed (handoverOf py record index event)) ∧
      ((handleEvent host py durableHandoff record index event (calls index) d).1 ≠ .deferred →
        AllGetThrough host py durableHandoff record calls (index + 1) rest
          (handleEvent host py durableHandoff record index event (calls index) d).2)

/-- The desk, and the owed events that are in a committed record or were
remembered as processed by their turn. -/
structure DeliveryWorld where
  desk : Desk
  settled : List Handover

/-- A record is handled, or anything else happens to the local state, the
coordinator's document and the clock. -/
inductive DeliveryStep
  | handle (durableHandoff : Bool) (record : InboxRecord) (calls : Nat → EventCalls)
  | elsewhere (interface : InterfaceState) (maintenance : Maintenance.State) (now : Seconds)

/-- The owed events that a record settles. -/
def settledBy (turns : List Turn) : List Handover :=
  (turns.filter fun turn =>
    turn.owed && (!(resultOf turns).retryRecord || turn.remembered)).map Turn.handover

/-- The world after a step. -/
def DeliveryWorld.after (host : Host) (py : Python) (w : DeliveryWorld) :
    DeliveryStep → DeliveryWorld
  | .handle durableHandoff record calls =>
      let handled := handleRecord host py durableHandoff record calls w.desk
      { desk := handled.2
        settled := w.settled ++ settledBy handled.1 }
  | .elsewhere interface maintenance now =>
      { w with
        desk := { w.desk with interface := interface, maintenance := maintenance, now := now } }

/-- Runs of the ingestion. -/
def deliveries (host : Host) (py : Python) : TransitionSystem DeliveryWorld DeliveryStep where
  init w := w.settled = []
  step w e w' := w' = w.after host py e

/-- Every owed event of the step gets through, or was handed over before. -/
def GetThrough (host : Host) (py : Python) (w : DeliveryWorld) : DeliveryStep → Prop
  | .handle durableHandoff record calls =>
      AllGetThrough host py durableHandoff record calls 0
        (eventsFromDurableFrame py record.frame)
        { w.desk with
          interface := reconcileDurableFrame py w.desk.interface record.frame }
  | .elsewhere .. => True

section Runs

variable {host : Host} {py : Python} {durableHandoff : Bool} {record : InboxRecord}
  {calls : Nat → EventCalls}

theorem handleEvents_handed (events : List Json) (index : Nat) (d : Desk) :
    d.handed ⊆ (handleEvents host py durableHandoff record calls index events d).2.handed := by
  induction events generalizing index d with
  | nil => exact List.Subset.refl _
  | cons event rest ih =>
      simp only [handleEvents]
      split
      · exact handleEvent_handed
      · exact List.Subset.trans handleEvent_handed (ih _ _)

theorem handleRecord_handed (d : Desk) :
    d.handed ⊆ (handleRecord host py durableHandoff record calls d).2.handed :=
  handleEvents_handed (eventsFromDurableFrame py record.frame) 0
    { d with interface := reconcileDurableFrame py d.interface record.frame }

/-- A turn that is not deferred, and one that leaves its event remembered, has
handed its event over. -/
theorem handleEvents_notDropped (events : List Json) (index : Nat) (d : Desk)
    (h : AllGetThrough host py durableHandoff record calls index events d) :
    ∀ turn ∈ (handleEvents host py durableHandoff record calls index events d).1,
      turn.owed = true → turn.outcome ≠ .deferred ∨ turn.remembered = true →
      HandedOver (handleEvents host py durableHandoff record calls index events d).2.handed
        turn.handover := by
  induction events generalizing index d with
  | nil =>
      intro turn hturn
      simp [handleEvents] at hturn
  | cons event rest ih =>
      intro turn hturn howed hgone
      rcases h with ⟨hthis, hrest⟩
      have hmine : ∀ t : Turn, t.handover = handoverOf py record index event →
          t.owed = owed py d.interface event →
          t.outcome =
            (handleEvent host py durableHandoff record index event (calls index) d).1 →
          t.remembered =
            (handleEvent host py durableHandoff record index event (calls index)
              d).2.interface.remembers (eventRoomId py event) (eventId py event) →
          t = turn →
          HandedOver
            (handleEvent host py durableHandoff record index event (calls index) d).2.handed
            turn.handover := by
        intro t hhandover howes houtcome hremembered heq
        subst heq
        rw [howes] at howed
        rw [hhandover]
        rw [houtcome, hremembered] at hgone
        exact (notDropped_iff howed).mpr (hthis howed) hgone
      simp only [handleEvents] at hturn ⊢
      split at hturn <;> rename_i hdeferred
      · simp only [if_pos hdeferred]
        rw [List.mem_singleton] at hturn
        exact hmine _ rfl rfl rfl rfl hturn.symm
      · simp only [if_neg hdeferred]
        rcases List.mem_cons.mp hturn with hturn | hturn
        · exact (hmine _ rfl rfl rfl rfl hturn.symm).mono (handleEvents_handed rest _ _)
        · exact ih _ _ (hrest hdeferred) turn hturn howed hgone

/-- A deferred turn puts the record back. -/
theorem retryRecord_of_deferred {turns : List Turn} {turn : Turn} (hturn : turn ∈ turns)
    (h : turn.outcome = .deferred) : (resultOf turns).retryRecord = true := by
  simp only [RecordResult.retryRecord, resultOf, Bool.true_and, List.any_map, List.any_eq_true]
  exact ⟨turn, hturn, by simp [h]⟩

/-- What a record settles has been handed over. -/
theorem settledBy_handedOver {d : Desk}
    (h : AllGetThrough host py durableHandoff record calls 0
      (eventsFromDurableFrame py record.frame)
      { d with interface := reconcileDurableFrame py d.interface record.frame }) :
    ∀ handover ∈ settledBy (handleRecord host py durableHandoff record calls d).1,
      HandedOver (handleRecord host py durableHandoff record calls d).2.handed handover := by
  intro handover hmem
  rcases List.mem_map.mp hmem with ⟨turn, hturn, rfl⟩
  rcases List.mem_filter.mp hturn with ⟨hturn, hsettled⟩
  simp only [Bool.and_eq_true, Bool.or_eq_true, Bool.not_eq_true'] at hsettled
  refine handleEvents_notDropped _ 0 _ h turn hturn hsettled.1 ?_
  rcases hsettled.2 with hcommitted | hremembered
  · left
    intro hdeferred
    rw [retryRecord_of_deferred hturn hdeferred] at hcommitted
    cases hcommitted
  · right
    exact hremembered

theorem step_handedOver {w w' : DeliveryWorld} {e : DeliveryStep}
    (hthrough : GetThrough host py w e) (hstep : (deliveries host py).step w e w')
    (h : ∀ handover ∈ w.settled, HandedOver w.desk.handed handover) :
    ∀ handover ∈ w'.settled, HandedOver w'.desk.handed handover := by
  rw [show w' = w.after host py e from hstep]
  cases e with
  | elsewhere interface maintenance now => exact h
  | handle durableHandoff record calls =>
      intro handover hmem
      rcases List.mem_append.mp hmem with hmem | hmem
      · exact (h handover hmem).mono (handleRecord_handed w.desk)
      · exact settledBy_handedOver hthrough handover hmem

end Runs

/-- When an owed event is not dropped.  A turn does not drop it exactly if the
event gets through or was handed over before; and if that holds of every owed
event of a run, every owed event of a committed record, and every one remembered
as processed by its turn, has been handed over. -/
theorem delivery_law (host : Host) (py : Python) :
    (∀ durableHandoff record index event calls (d : Desk),
      owed py d.interface event = true →
        (NotDropped host py durableHandoff record index event calls d ↔
          GetsThrough py d.interface calls durableHandoff event ∨
            HandedOver d.handed (handoverOf py record index event))) ∧
    ∀ w, ((deliveries host py).restrict (GetThrough host py)).Reachable w →
      ∀ handover ∈ w.settled, HandedOver w.desk.handed handover := by
  refine ⟨fun _ _ _ _ _ _ howed => notDropped_iff howed, fun w hreach => ?_⟩
  refine hreach.invariant
    (I := fun w => ∀ handover ∈ w.settled, HandedOver w.desk.handed handover) ?_ ?_
  · intro w hinit handover hmem
    rw [show w.settled = [] from hinit] at hmem
    cases hmem
  · intro w e w' _ h hstep
    exact step_handedOver hstep.1 hstep.2 h

/-! ## A message from an unknown room -/

/-- A text that somebody else wrote in a room without a contact. -/
def strangerRecord : InboxRecord where
  frame := .obj
    [("type", .str "event"), ("room_id", .str "r1"),
      ("event", .obj
        [("type", .str "m.text"), ("event_id", .str "e1"), ("body", .str "hi"),
          ("sender_id", .str "c1")])]
  path := "/inbox.jsonl"
  fileId := "1:2"
  endOffset := 120
  anchorStart := 0
  anchorSha256 := ""

/-- Calls that all succeed, with this answer of room discovery. -/
def answeredCalls (answer : Discovery) : EventCalls where
  reads _ := false
  discovery := answer
  media _ := .ok ""
  stt := none
  sentCall := .recorded
  incomingCall := .recorded
  seenFails := false
  processedFails := false
  handoffFails := false

/-- Nothing is known and nothing was handed over. -/
def emptyDesk : Desk where
  interface := .empty
  maintenance := Maintenance.defaultState
  now := 0
  contexts := []
  handed := []

/-- Before the stranger's record. -/
def strangerStart : DeliveryWorld where
  desk := emptyDesk
  settled := []

/-- The record is handled, and room discovery gives this answer. -/
def strangerStep (answer : Discovery) : DeliveryStep :=
  .handle true strangerRecord fun _ => answeredCalls answer

/-- After the stranger's record. -/
def strangerWorld (answer : Discovery) : DeliveryWorld :=
  strangerStart.after Maintenance.countingHost linePython (strangerStep answer)

/-- The service behind room discovery is down. -/
def discoveryDown : Discovery where
  ownIds := []
  found := []
  raises := true

/-- Room discovery finds the stranger. -/
def discoveryFinds : Discovery where
  ownIds := []
  found := [{ contactType := "carbon", fixedId := "c1", roomId := "r1", displayName := "" }]
  raises := false

/-- A room discovery that fails drops the message: its record is committed, and
it is remembered as processed, without a handover. -/
theorem unknown_room_dropped :
    ¬ ∀ w, (deliveries Maintenance.countingHost linePython).Reachable w →
      ∀ handover ∈ w.settled, HandedOver w.desk.handed handover := by
  intro hclaim
  have hsettled : (strangerWorld discoveryDown).settled =
      [⟨"r1", "e1", "interface:r1:e1"⟩] := by decide +kernel
  have hhanded : (strangerWorld discoveryDown).desk.handed = [] := by decide +kernel
  have hinit : (deliveries Maintenance.countingHost linePython).init strangerStart := rfl
  have hreach : (deliveries Maintenance.countingHost linePython).Reachable
      (strangerWorld discoveryDown) := .step (.init hinit) rfl
  rcases hclaim _ hreach ⟨"r1", "e1", "interface:r1:e1"⟩ (by simp [hsettled]) with ⟨h', hmem, -⟩
  rw [hhanded] at hmem
  cases hmem

/-- A discovery that answers lets the stranger's message through. -/
theorem getThrough_discovered :
    GetThrough Maintenance.countingHost linePython strangerStart (strangerStep discoveryFinds) := by
  refine ⟨fun _ => .inl ⟨rfl, rfl, "c1", _, rfl, fun _ => rfl, ?_, fun _ => rfl, .inl rfl⟩,
    fun _ => trivial⟩
  decide +kernel

/-- The message of a stranger whom room discovery finds is handed over. -/
theorem delivery_law_discovered :
    (strangerWorld discoveryFinds).settled = [⟨"r1", "e1", "interface:r1:e1"⟩] ∧
      HandedOver (strangerWorld discoveryFinds).desk.handed ⟨"r1", "e1", "interface:r1:e1"⟩ := by
  have hsettled : (strangerWorld discoveryFinds).settled =
      [⟨"r1", "e1", "interface:r1:e1"⟩] := by decide +kernel
  have hinit : (deliveries Maintenance.countingHost linePython).init strangerStart := rfl
  have hreach : ((deliveries Maintenance.countingHost linePython).restrict
      (GetThrough Maintenance.countingHost linePython)).Reachable
        (strangerWorld discoveryFinds) := .step (.init hinit) ⟨getThrough_discovered, rfl⟩
  exact ⟨hsettled,
    (delivery_law Maintenance.countingHost linePython).2 _ hreach _ (by simp [hsettled])⟩

end Interface
end Stemcell
