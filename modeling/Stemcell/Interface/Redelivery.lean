import Stemcell.Interface.Delivery
import Stemcell.Maintenance.Ingress

/-!
# Redelivery of an accepted event

A crash after the coordinator accepted a root and before the event is remembered
as processed leaves the record uncommitted, so the event is interpreted again.
Its text is formatted anew, from the contact, the work references and the media
services of that moment.  This module says when the coordinator takes the second
delivery for the first.

Main results:

- Theorem `processIncomingEvent_root`: the contact and the text of a root.
- Theorem `redelivery_law`: exactly which redeliveries are accepted without a
  second root.
-/

namespace Stemcell
namespace Interface

open Lib
open Maintenance (Seconds Host World AddsNoRoot Agrees Recalls coordinator fingerprint
  ingressQueueId prune)

/-- The contact and the text that an event is interpreted to. -/
def rootOf (py : Python) (s : InterfaceState) (calls : EventCalls) (event : Json) :
    Option (String × String) :=
  (contactForRoom s (eventRoomId py event) calls.discovery).1.map fun found =>
    (found.1, eventContext py (contactForRoom s (eventRoomId py event) calls.discovery).2 calls
      found.1 found.2 event)

/-- The event becomes a root, and neither the handoff itself nor the watermark
after it fails. -/
structure Reaches (py : Python) (s : InterfaceState) (calls : EventCalls) (event : Json) :
    Prop where
  owed : owed py s event = true
  getsThrough : GetsThrough py s calls true event
  journaled : calls.incomingCall = .recorded
  handoff : calls.handoffFails = false
  processed : calls.processedFails = false

/-- The turn takes the event for the accepted root: it is not put back, and no
second root is queued. -/
def Recognised (host : Host) (py : Python) (record : InboxRecord) (index : Nat) (event : Json)
    (calls : EventCalls) (d : Desk) : Prop :=
  (handleEvent host py true record index event calls d).1 = .handed ∧
    (handleEvent host py true record index event calls d).2.maintenance.rootQueue =
      (prune d.maintenance d.now).rootQueue

/-- In a run that leads to `w` this source record was accepted as a root that was
new, and no other root was queued under its id since. -/
def AcceptedBefore (host : Host) (contactId context ingressId : String) (w : World) : Prop :=
  ∃ w₀ w₁ t es,
    (coordinator host).Reachable w₀ ∧
    ¬ Recalls (prune w₀.state t) (ingressQueueId host ingressId) ∧
    (coordinator host).step w₀ ⟨.enqueueIngressRoot contactId context ingressId, t⟩ w₁ ∧
    (∃ s', Maintenance.call host (.enqueueIngressRoot contactId context ingressId) w₀.state t =
      .ok (.flag true, s')) ∧
    ((coordinator host).restrict (AddsNoRoot host (ingressQueueId host ingressId))).Run w₁ es w

section Redelivery

variable {host : Host} {py : Python} {s : InterfaceState} {calls : EventCalls} {event : Json}
  {record : InboxRecord} {index : Nat} {d : Desk} {contactId context ingressId : String}

theorem AcceptedBefore.agrees {w : World} (h : AcceptedBefore host contactId context ingressId w) :
    Agrees host (ingressQueueId host ingressId) contactId context w.state := by
  rcases h with ⟨w₀, w₁, t, es, hreach, hnew, hstep, ⟨s', hcall⟩, hrun⟩
  have hstate : w₁.state = s' := by
    have hafter : w₁ = w₀.after host (.enqueueIngressRoot contactId context ingressId) t :=
      hstep.2.2
    rw [hafter, World.after_ok hcall]
  rcases Maintenance.Mutation.reply_ok hcall with ⟨value, hvalue, -⟩
  have hagrees := Maintenance.agrees_accepted hnew hvalue
  rw [← hstate] at hagrees
  exact Maintenance.agrees_run (.step hreach hstep) hrun hagrees

/-- An event that reaches the handoff does so with the contact of its room and
the text formatted for it. -/
theorem processIncomingEvent_root (h : Reaches py s calls event) :
    ∃ contactId text s', rootOf py s calls event = some (contactId, text) ∧
      processIncomingEvent py s calls true event = (.root contactId text, s') := by
  rcases h.getsThrough with
    ⟨hentry, hlookup, contactId, contact, hfound, hwatermark, hfresh, href, -⟩
  have hread : (readsWatermark contact (eventId py event) && calls.reads .watermark) = false := by
    cases hr : readsWatermark contact (eventId py event) <;> simp_all
  have hreference : (readsReference py contact event && calls.reads .reference) = false := by
    cases hr : readsReference py contact event <;> simp_all
  refine ⟨contactId,
    eventContext py (contactForRoom s (eventRoomId py event) calls.discovery).2 calls contactId
      contact event,
    (contactForRoom s (eventRoomId py event) calls.discovery).2, ?_, ?_⟩
  · rw [rootOf, hfound, Option.map_some]
  · rw [processIncomingEvent_of_owed h.owed]
    simp [hentry, processVisible, hlookup, hfound, hread, hfresh, interpretEvent, hreference,
      h.journaled]

/-- A turn that reaches the handoff is the call of `enqueue_ingress_root`. -/
theorem recognised_iff_call (h : Reaches py d.interface calls event) {text : String}
    (hroot : rootOf py d.interface calls event = some (contactId, text)) :
    Recognised host py record index event calls d ↔
      ∃ s', Maintenance.call host
          (.enqueueIngressRoot contactId text (ingressIdOf py record index event))
          d.maintenance d.now = .ok (.flag true, s') ∧
        s'.rootQueue = (prune d.maintenance d.now).rootQueue := by
  rcases processIncomingEvent_root h with ⟨contact, text', s', hroot', hprocessed⟩
  rw [hroot'] at hroot
  cases hroot
  unfold Recognised
  simp only [handleEvent, hprocessed, if_true, handOff, h.handoff, Bool.false_eq_true, if_false]
  cases hcall : Maintenance.call host
      (.enqueueIngressRoot contactId text (ingressIdOf py record index event))
      d.maintenance d.now with
  | error e => simp
  | ok answer =>
      rcases Maintenance.Mutation.reply_ok hcall with ⟨value, hvalue, hanswer⟩
      have htrue := (Maintenance.enqueueIngressRoot_cases hvalue).1
      subst htrue
      simp only [h.processed, Bool.false_eq_true, if_false, true_and]
      constructor
      · intro hqueue
        exact ⟨answer.2, by rw [← hanswer], hqueue⟩
      · rintro ⟨s'', heq, hqueue⟩
        cases heq
        exact hqueue

theorem ingressIdOf_ne_empty (py : Python) (record : InboxRecord) (index : Nat) (event : Json) :
    ingressIdOf py record index event ≠ "" := by
  unfold ingressIdOf
  split
  · simp [String.append_eq_empty_iff]
  · split <;> simp [String.append_eq_empty_iff]

/-- When a redelivery is recognised.  Whatever the coordinator did since it
accepted the root, short of queueing another one under its id, the turn of a
later delivery that reaches the handoff is accepted without a second root exactly
if the event resolves to the same contact, the text formatted now has the
fingerprint of the accepted one, and the receipt or the queued root is still
there. -/
theorem redelivery_law (host : Host) (py : Python) (record : InboxRecord) (index : Nat)
    (event : Json) (calls : EventCalls) (d : Desk) (w : World) (contactId context : String)
    (haccepted : AcceptedBefore host contactId context (ingressIdOf py record index event) w)
    (hdesk : d.maintenance = w.state) (hreaches : Reaches py d.interface calls event) :
    Recognised host py record index event calls d ↔
      (∃ text, rootOf py d.interface calls event = some (contactId, text) ∧
        fingerprint host contactId text = fingerprint host contactId context) ∧
      Recalls (prune d.maintenance d.now)
        (ingressQueueId host (ingressIdOf py record index event)) := by
  rcases processIncomingEvent_root hreaches with ⟨contact, text, -, hroot, -⟩
  have hagrees := haccepted.agrees.prune d.now
  rw [← hdesk] at hagrees
  rw [recognised_iff_call hreaches hroot,
    Maintenance.redelivered_iff (ingressIdOf_ne_empty py record index event) hagrees, hroot]
  constructor
  · rintro ⟨hcontact, hprint, hknown⟩
    subst hcontact
    exact ⟨⟨text, rfl, hprint⟩, hknown⟩
  · rintro ⟨⟨text', hsame, hprint⟩, hknown⟩
    cases hsame
    exact ⟨rfl, hprint, hknown⟩

end Redelivery

/-! ## A contact that is renamed before the redelivery -/

/-- The event of the stranger's record. -/
def strangerEvent : Json :=
  .obj
    [("type", .str "m.text"), ("event_id", .str "e1"), ("body", .str "hi"),
      ("sender_id", .str "c1"), ("room_id", .str "r1")]

/-- A local state that knows the stranger under this name. -/
def knownAs (name : String) : InterfaceState :=
  { InterfaceState.empty with
    rooms := Dict.empty.set "r1" "c1"
    contacts := Dict.empty.set "c1"
      { contactType := "carbon"
        carbonId := "c1"
        siliconId := ""
        roomId := "r1"
        displayName := name
        name := name
        lastProcessedEventIds := []
        lastProcessedEventId := ""
        lastPolledEventId := "" } }

/-- The text of the event for a contact of this name. -/
def textFor (name : String) : String :=
  ((rootOf linePython (knownAs name) (answeredCalls discoveryDown) strangerEvent).map
    Prod.snd).getD ""

/-- The call that accepts the event for a contact of this name. -/
def firstDelivery (name : String) : Maintenance.Event where
  op := .enqueueIngressRoot "c1" (textFor name) "interface:r1:e1"
  time := 0

/-- The coordinator after the first delivery. -/
def deliveredWorld (name : String) : World :=
  (World.initial 0).after Maintenance.countingHost (firstDelivery name).op 0

/-- A minute later, with the contact known under this name. -/
def minuteLater (first name : String) : Desk where
  interface := knownAs name
  maintenance := (deliveredWorld first).state
  now := 60
  contexts := []
  handed := []

theorem deliveredWorld_accepted (name : String) :
    AcceptedBefore Maintenance.countingHost "c1" (textFor name) "interface:r1:e1"
      (deliveredWorld name) := by
  refine ⟨World.initial 0, _, 0, [], .init ⟨0, rfl⟩, ?_, ⟨le_rfl, trivial, rfl⟩, ?_, .nil _⟩
  · rintro (⟨receipt, hget⟩ | ⟨item, hget⟩)
    · cases hget
    · cases hget
  · exact ⟨_, rfl⟩

theorem minuteLater_reaches (first name : String) :
    Reaches linePython (minuteLater first name).interface (answeredCalls discoveryDown)
      strangerEvent where
  owed := by
    have hstranger : owed linePython .empty strangerEvent = true := by decide +kernel
    rw [owed_iff] at hstranger ⊢
    exact hstranger
  getsThrough := ⟨rfl, rfl, "c1", _, rfl, fun _ => rfl, rfl, fun _ => rfl, .inl rfl⟩
  journaled := rfl
  handoff := rfl
  processed := rfl

/-- A contact that is renamed between the two deliveries has the redelivery
refused, within a minute of the first. -/
theorem renamed_contact_refused :
    ¬ ∀ context w d,
      AcceptedBefore Maintenance.countingHost "c1" context
        (ingressIdOf linePython strangerRecord 0 strangerEvent) w →
      d.maintenance = w.state → w.now ≤ d.now →
      d.now < w.now + Maintenance.ingressReceiptTtlSeconds →
      Reaches linePython d.interface (answeredCalls discoveryDown) strangerEvent →
      Recognised Maintenance.countingHost linePython strangerRecord 0 strangerEvent
        (answeredCalls discoveryDown) d := by
  intro hclaim
  have hid : ingressIdOf linePython strangerRecord 0 strangerEvent = "interface:r1:e1" := by
    decide +kernel
  have haccepted := deliveredWorld_accepted "Ada"
  rw [← hid] at haccepted
  have hkept := hclaim (textFor "Ada") (deliveredWorld "Ada") (minuteLater "Ada" "Ada L.")
    haccepted rfl (by decide +kernel) (by decide +kernel) (minuteLater_reaches _ _)
  have hrefused : (handleEvent Maintenance.countingHost linePython true strangerRecord 0
      strangerEvent (answeredCalls discoveryDown) (minuteLater "Ada" "Ada L.")).1 = .deferred := by
    decide +kernel
  rw [Recognised, hrefused] at hkept
  exact absurd hkept.1 (by decide)

/-- The redelivery of an event whose contact kept its name is recognised. -/
theorem redelivery_law_unchanged :
    Recognised Maintenance.countingHost linePython strangerRecord 0 strangerEvent
      (answeredCalls discoveryDown) (minuteLater "Ada" "Ada") := by
  have hid : ingressIdOf linePython strangerRecord 0 strangerEvent = "interface:r1:e1" := by
    decide +kernel
  have haccepted := deliveredWorld_accepted "Ada"
  rw [← hid] at haccepted
  have hroot : rootOf linePython (knownAs "Ada") (answeredCalls discoveryDown) strangerEvent =
      some ("c1", textFor "Ada") := by decide +kernel
  have hknown : Recalls (prune (deliveredWorld "Ada").state 60)
      (ingressQueueId Maintenance.countingHost
        (ingressIdOf linePython strangerRecord 0 strangerEvent)) := by
    left
    rw [← Option.isSome_iff_exists]
    decide +kernel
  exact (redelivery_law Maintenance.countingHost linePython strangerRecord 0 strangerEvent
    (answeredCalls discoveryDown) (minuteLater "Ada" "Ada") (deliveredWorld "Ada") "c1"
    (textFor "Ada") haccepted rfl (minuteLater_reaches _ _)).mpr
      ⟨⟨textFor "Ada", hroot, rfl⟩, hknown⟩

end Interface
end Stemcell
