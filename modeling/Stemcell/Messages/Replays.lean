import Stemcell.Maintenance.Claims
import Stemcell.Messages.Handoff

/-!
# Replayed handoffs

An item stays in the manager queue until its pass has removed it, so a pass may be cut
after the coordinator has accepted the turn and run again.  Its text must then be the
one that was accepted.

Main results:

- Theorem `ensure_settled`: the identifiers of a pass that needs no other call.
- Theorem `replays_agree`: passes that need no other call build one text, the coordinator
  accepts it every time, and its call identifiers are journaled.
- Theorem `stale_replay_refused`: a pass over a closed call builds a text that its replay
  does not.
-/

namespace Stemcell
namespace Messages

open Lib Maintenance

/-! ## What the bookkeeping knows of an item -/

/-- The receipts of an item stand for its own card, and what they name is journaled. -/
structure Bookkept (queueId : String) (reference : Reference) (s : Calls) : Prop where
  outbound : ∀ receipt, s.dedupe.get? (outboundKey queueId) = some receipt →
    reference.continuation = true ∧ receipt = .append ∨
      reference.continuation = false ∧ receipt = .createOutbound reference ∧
        reference.card.callId ∈ s.journaled
  inbound : ∀ receipt, s.dedupe.get? (inboundKey queueId) = some receipt →
    reference.continuation = false ∧ ∃ created, receipt = .createInbound created ∧
      created.outbound = reference.card ∧ created.card.callId ∈ s.journaled
  continued : reference.continuation = true →
    reference.card.callId = "" ∨ reference.card.callId ∈ s.journaled
  pending : PendingJournaled s

variable {p : Platform} {s s' : Calls} {room : Room} {contactId queueId : String}
  {item : QueueItem} {reference : Reference}

/-- The bookkeeping of an item, as a step by someone else leaves it. -/
structure Elsewhere (queueId : String) (s s' : Calls) : Prop where
  outbound : s'.dedupe.get? (outboundKey queueId) = s.dedupe.get? (outboundKey queueId)
  inbound : s'.dedupe.get? (inboundKey queueId) = s.dedupe.get? (inboundKey queueId)
  journaled : s.journaled ⊆ s'.journaled
  pending : PendingJournaled s'

theorem Bookkept.elsewhere (h : Bookkept queueId reference s) (hstep : Elsewhere queueId s s') :
    Bookkept queueId reference s' where
  outbound receipt hget := by
    rw [hstep.outbound] at hget
    rcases h.outbound receipt hget with hleft | ⟨hfresh, hreceipt, hmem⟩
    · exact .inl hleft
    · exact .inr ⟨hfresh, hreceipt, hstep.journaled hmem⟩
  inbound receipt hget := by
    rw [hstep.inbound] at hget
    rcases h.inbound receipt hget with ⟨hfresh, created, hreceipt, hout, hmem⟩
    exact ⟨hfresh, created, hreceipt, hout, hstep.journaled hmem⟩
  continued hcont := by
    rcases h.continued hcont with hblank | hmem
    · exact .inl hblank
    · exact .inr (hstep.journaled hmem)
  pending := hstep.pending

/-- A pass over a settled reference goes on with that reference. -/
theorem refresh_settled (h : reference.continuation = true → currentCall s reference = true) :
    refreshStaleCallContinuation p s reference = (reference, s) := by
  unfold refreshStaleCallContinuation
  by_cases hcont : reference.continuation = true
  · rw [if_neg (by simp [hcont]), if_pos (h hcont)]
  · rw [if_pos hcont]

/-- What the outbound side of a settled item comes to. -/
structure OutboundKept (queueId : String) (reference : Reference) (s : Calls)
    (outcome : Except CallError Bool × Reference × Calls) : Prop where
  stays : outcome.2.1 = reference
  kept : Bookkept queueId reference outcome.2.2
  journaled : s.journaled ⊆ outcome.2.2.journaled
  inbound : outcome.2.2.dedupe.get? (inboundKey queueId) = s.dedupe.get? (inboundKey queueId)
  created : reference.continuation = false → outcome.1 = .ok true →
    reference.card.callId ∈ outcome.2.2.journaled

theorem OutboundKept.same {result : Except CallError Bool} (h : Bookkept queueId reference s)
    (hcreated : reference.continuation = false → result ≠ .ok true) :
    OutboundKept queueId reference s (result, reference, s) where
  stays := rfl
  kept := h
  journaled := List.Subset.refl _
  inbound := rfl
  created hfresh hresult := absurd hresult (hcreated hfresh)

theorem enqueueOutboundCall_settled {b : Bool} (h : Bookkept queueId reference s)
    (hsettled : reference.continuation = true →
      s.dedupe.get? (outboundKey queueId) = some .append ∨ currentCall s reference = true) :
    OutboundKept queueId reference s
      (enqueueOutboundCall p s b (outboundKey queueId) reference) := by
  unfold enqueueOutboundCall
  by_cases happended : reference.continuation = true ∧
      s.dedupe.get? (outboundKey queueId) = some .append
  · rw [if_pos happended]
    exact OutboundKept.same h fun hfresh => by simp [happended.1] at hfresh
  rw [if_neg happended]
  have hcurrent : reference.continuation = true → currentCall s reference = true := by
    intro hcont
    rcases hsettled hcont with hreceipt | hcurrent
    · exact absurd ⟨hcont, hreceipt⟩ happended
    · exact hcurrent
  rw [refresh_settled hcurrent]
  simp only
  by_cases hcont : reference.continuation = true
  · rw [if_neg (by simp [hcont])]
    have hnotFresh : ∀ result : Except CallError Bool,
        reference.continuation = false → result ≠ .ok true := by
      intro result hfresh
      rw [hcont] at hfresh
      cases hfresh
    split
    · exact OutboundKept.same h (hnotFresh _)
    split
    · exact OutboundKept.same h (hnotFresh _)
    · rename_i correlation _ appended happend
      rcases appendCorrelatedCall_cases h.pending happend with ⟨hpending, hjournaled, hdedupe⟩
      have hinbound : appended.2.dedupe.get? (inboundKey queueId) =
          s.dedupe.get? (inboundKey queueId) := by
        rcases hdedupe with hsame | ⟨-, hset⟩
        · rw [hsame]
        · rw [hset, Dict.get?_set_of_ne _ _ (outboundKey_ne_inboundKey queueId)]
      refine ⟨rfl, ⟨?_, ?_, ?_, hpending⟩, ?_, hinbound, ?_⟩
      · intro receipt hget
        left
        rcases hdedupe with hsame | ⟨-, hset⟩
        · rw [hsame] at hget
          rcases h.outbound receipt hget with hleft | ⟨hfresh, -⟩
          · exact hleft
          · rw [hcont] at hfresh
            cases hfresh
        · rw [hset, Dict.get?_set_self] at hget
          exact ⟨hcont, (Option.some.inj hget).symm⟩
      · intro receipt hget
        rw [hinbound] at hget
        rw [hjournaled]
        exact h.inbound receipt hget
      · rw [hjournaled]
        exact h.continued
      · rw [hjournaled]
        exact List.Subset.refl _
      · exact fun hfresh => absurd rfl (hnotFresh (.ok true) hfresh)
  · rw [if_pos hcont]
    rw [Bool.not_eq_true] at hcont
    split
    · exact OutboundKept.same h fun _ => nofun
    rename_i created hcreate
    rcases journalCallCreate_cases hcreate with ⟨-, ⟨⟨old, hold⟩, rfl⟩ | ⟨hnone, hcreated⟩⟩
    · -- An earlier pass has journaled the card.
      rcases h.outbound old hold with ⟨hyes, -⟩ | ⟨-, rfl, hmem⟩
      · rw [hcont] at hyes
        cases hyes
      have hcanonical : canonicalOutbound created (outboundKey queueId) reference = reference := by
        rw [canonicalOutbound, hold]
      rw [hcanonical]
      refine ⟨rfl, ⟨?_, ?_, ?_, rememberOutboundCallReference_pending h.pending hmem⟩, ?_, ?_, ?_⟩
      · simpa using h.outbound
      · simpa using h.inbound
      · simpa using h.continued
      · simp
      · simp
      · exact fun _ _ => by simpa using hmem
    · have hmem : reference.card.callId ∈ created.journaled := by
        rw [hcreated]
        exact List.mem_append_right _ (List.mem_singleton_self _)
      have hsub : s.journaled ⊆ created.journaled := by
        rw [hcreated]
        exact List.subset_append_left _ _
      have hout : created.dedupe.get? (outboundKey queueId) = some (.createOutbound reference) := by
        rw [hcreated]
        exact Dict.get?_set_self _ _ _
      have hin : created.dedupe.get? (inboundKey queueId) =
          s.dedupe.get? (inboundKey queueId) := by
        rw [hcreated]
        exact Dict.get?_set_of_ne _ _ (outboundKey_ne_inboundKey queueId)
      have hcanonical : canonicalOutbound created (outboundKey queueId) reference = reference := by
        rw [canonicalOutbound, hout]
      have hpending : PendingJournaled created := by
        intro key correlation hget
        rw [hcreated] at hget
        exact (h.pending key correlation hget).mono hsub
      rw [hcanonical]
      refine ⟨rfl, ⟨?_, ?_, ?_, rememberOutboundCallReference_pending hpending hmem⟩, ?_, ?_, ?_⟩
      · intro receipt hget
        rw [rememberOutboundCallReference_dedupe, hout] at hget
        rw [rememberOutboundCallReference_journaled]
        exact .inr ⟨hcont, (Option.some.inj hget).symm, hmem⟩
      · intro receipt hget
        rw [rememberOutboundCallReference_dedupe, hin] at hget
        rw [rememberOutboundCallReference_journaled]
        rcases h.inbound receipt hget with ⟨hfresh, c, hreceipt, hcard, hc⟩
        exact ⟨hfresh, c, hreceipt, hcard, hsub hc⟩
      · intro hyes
        rw [hcont] at hyes
        cases hyes
      · rw [rememberOutboundCallReference_journaled]
        exact hsub
      · rw [rememberOutboundCallReference_dedupe]
        exact hin
      · exact fun _ _ => by simpa using hmem

/-- What the inbound side of an item with a fresh card comes to. -/
structure InboundKept (queueId : String) (reference : Reference) (s : Calls)
    (outcome : Except CallError CallCard × Calls) : Prop where
  kept : Bookkept queueId reference outcome.2
  journaled : s.journaled ⊆ outcome.2.journaled
  remembered : ∀ receipt, s.dedupe.get? (inboundKey queueId) = some receipt →
    outcome.2.dedupe.get? (inboundKey queueId) = some receipt
  created : ∀ card, outcome.1 = .ok card → ∃ created,
    outcome.2.dedupe.get? (inboundKey queueId) = some (.createInbound created) ∧
      card = created.card

theorem enqueueInboundCall_kept {b : Bool} {sourceId : String} (h : Bookkept queueId reference s)
    (hfresh : reference.continuation = false) (hmem : reference.card.callId ∈ s.journaled) :
    InboundKept queueId reference s
      (enqueueInboundCall p s b (inboundKey queueId) contactId sourceId reference) := by
  have hdrawn : Bookkept queueId reference { s with uuidsDrawn := s.uuidsDrawn + 1 } :=
    ⟨h.outbound, h.inbound, h.continued, h.pending⟩
  unfold enqueueInboundCall prepareInboundCall
  simp only
  split
  · exact ⟨hdrawn, List.Subset.refl _, fun _ => id, fun _ => nofun⟩
  rename_i created hcreate
  rcases journalCallCreate_cases hcreate with ⟨-, ⟨⟨old, hold⟩, rfl⟩ | ⟨hnone, hcreated⟩⟩
  · -- An earlier pass has journaled the card; its identifiers are used again.
    rcases h.inbound old hold with ⟨-, first, rfl, hout, hcard⟩
    have hcanonical : ∀ reference : InboundReference,
        canonicalInbound { s with uuidsDrawn := s.uuidsDrawn + 1 } (inboundKey queueId)
          reference = first := by
      intro reference
      rw [canonicalInbound]
      simp only [hold]
    rw [hcanonical]
    refine ⟨⟨?_, ?_, ?_, ?_⟩, ?_, ?_, ?_⟩
    · simpa using h.outbound
    · simpa using h.inbound
    · simpa using h.continued
    · apply rememberInboundCallReference_pending hdrawn.pending hcard
      rw [hout]
      exact .inr hmem
    · simp
    · simp
    · intro card hok
      refine ⟨first, ?_, (Except.ok.inj hok).symm⟩
      simpa using hold
  · let prepared : InboundReference :=
      { card := freshCard p s contactId (s.activeTask contactId) sourceId
        sourceId := sourceId
        outbound := reference.card }
    have hnew : prepared.card.callId ∈ created.journaled := by
      rw [hcreated]
      exact List.mem_append_right _ (List.mem_singleton_self _)
    have hsub : s.journaled ⊆ created.journaled := by
      rw [hcreated]
      exact List.subset_append_left _ _
    have hin : created.dedupe.get? (inboundKey queueId) = some (.createInbound prepared) := by
      rw [hcreated]
      exact Dict.get?_set_self _ _ _
    have hout : created.dedupe.get? (outboundKey queueId) =
        s.dedupe.get? (outboundKey queueId) := by
      rw [hcreated]
      exact Dict.get?_set_of_ne _ _ (outboundKey_ne_inboundKey queueId).symm
    have hpending : PendingJournaled created := by
      intro key correlation hget
      rw [hcreated] at hget
      exact (h.pending key correlation hget).mono hsub
    have hcanonical : canonicalInbound created (inboundKey queueId) prepared = prepared := by
      rw [canonicalInbound, hin]
    change InboundKept queueId reference s
      (.ok (canonicalInbound created (inboundKey queueId) prepared).card,
        rememberInboundCallReference created
          (canonicalInbound created (inboundKey queueId) prepared))
    rw [hcanonical]
    refine ⟨⟨?_, ?_, ?_, ?_⟩, ?_, ?_, ?_⟩
    · intro receipt hget
      rw [rememberInboundCallReference_dedupe, hout] at hget
      rw [rememberInboundCallReference_journaled]
      rcases h.outbound receipt hget with hleft | ⟨hno, hreceipt, hcard⟩
      · exact .inl hleft
      · exact .inr ⟨hno, hreceipt, hsub hcard⟩
    · intro receipt hget
      rw [rememberInboundCallReference_dedupe, hin] at hget
      rw [rememberInboundCallReference_journaled]
      exact ⟨hfresh, prepared, (Option.some.inj hget).symm, rfl, hnew⟩
    · intro hyes
      rw [hfresh] at hyes
      cases hyes
    · exact rememberInboundCallReference_pending hpending hnew (.inr (hsub hmem))
    · rw [rememberInboundCallReference_journaled]
      exact hsub
    · intro receipt hget
      rw [hnone] at hget
      cases hget
    · intro card hok
      refine ⟨prepared, ?_, (Except.ok.inj hok).symm⟩
      rw [rememberInboundCallReference_dedupe]
      exact hin

/-! ## One pass -/

/-- The recipient's card as a settled pass prints it: none for a continuation, else the
one that was journaled first. -/
def PrintsInbound (queueId : String) (reference : Reference) (s : Calls) (inbound : CallCard) :
    Prop :=
  reference.continuation = true ∧ inbound = .blank ∨
    reference.continuation = false ∧ ∃ created,
      s.dedupe.get? (inboundKey queueId) = some (.createInbound created) ∧ inbound = created.card

/-- What a settled pass comes to. -/
structure EnsuredKept (item : QueueItem) (reference : Reference) (s : Calls) (e : Ensured) :
    Prop where
  stays : e.workCall = some reference
  kept : Bookkept item.queueId reference e.calls
  remembered : ∀ receipt, s.dedupe.get? (inboundKey item.queueId) = some receipt →
    e.calls.dedupe.get? (inboundKey item.queueId) = some receipt
  prints : ∀ inbound, e.inbound = .ok inbound →
    PrintsInbound item.queueId reference e.calls inbound
  journaled : ∀ inbound, e.inbound = .ok inbound →
    ∀ id ∈ printedCallIds e.workCall inbound, id ∈ e.calls.journaled

theorem ensure_settled (hwork : item.workCall = some reference)
    (h : Bookkept item.queueId reference s) (hsettled : Settled s item) :
    EnsuredKept item reference s (ensureManagerWorkCalls p s room contactId item) := by
  unfold ensureManagerWorkCalls
  rw [hwork]
  simp only
  have hraised : ∀ (t : Calls) (e : CallError), Bookkept item.queueId reference t →
      t.dedupe.get? (inboundKey item.queueId) = s.dedupe.get? (inboundKey item.queueId) →
      EnsuredKept item reference s
        { inbound := .error e, workCall := some reference, calls := t } := by
    intro t e ht hin
    refine ⟨rfl, ht, ?_, fun _ => nofun, fun _ => nofun⟩
    intro receipt hget
    exact hin.trans hget
  split
  · exact hraised s _ h rfl
  have houtbound := @enqueueOutboundCall_settled p s item.queueId reference room.outbound h
    (hsettled reference hwork)
  rcases houtcome : enqueueOutboundCall p s room.outbound (outboundKey item.queueId) reference with
    ⟨result, left, t⟩
  rw [houtcome] at houtbound
  have hleft : left = reference := houtbound.stays
  subst hleft
  have ht : Bookkept item.queueId left t := houtbound.kept
  have hin : t.dedupe.get? (inboundKey item.queueId) = s.dedupe.get? (inboundKey item.queueId) :=
    houtbound.inbound
  split
  · rename_i heq
    rcases Prod.mk.inj heq with ⟨-, hrest⟩
    rcases Prod.mk.inj hrest with ⟨rfl, rfl⟩
    exact hraised _ _ ht hin
  · rename_i heq
    rcases Prod.mk.inj heq with ⟨-, hrest⟩
    rcases Prod.mk.inj hrest with ⟨rfl, rfl⟩
    exact hraised _ _ ht hin
  rename_i heq
  rcases Prod.mk.inj heq with ⟨rfl, hrest⟩
  rcases Prod.mk.inj hrest with ⟨rfl, rfl⟩
  by_cases hcont : left.continuation = true
  · rw [if_pos hcont]
    refine ⟨rfl, ht, ?_, ?_, ?_⟩
    · intro receipt hget
      exact hin.trans hget
    · intro inbound hok
      exact .inl ⟨hcont, (Except.ok.inj hok).symm⟩
    · intro inbound hok id hid
      cases hok
      rw [printedCallIds, List.mem_filter] at hid
      rcases hid with ⟨hid, hne⟩
      have hid' : id = "" ∨ id = left.card.callId := by simpa [CallCard.blank] using hid
      rcases hid' with rfl | rfl
      · simp at hne
      · rcases ht.continued hcont with hblank | hmem
        · simp [hblank] at hne
        · exact hmem
  · rw [Bool.not_eq_true] at hcont
    rw [if_neg (by simp [hcont])]
    have hmem : left.card.callId ∈ t.journaled := houtbound.created hcont rfl
    have hinbound := @enqueueInboundCall_kept p t contactId item.queueId left room.inbound
      item.sender ht hcont hmem
    refine ⟨rfl, hinbound.kept, ?_, ?_, ?_⟩
    · intro receipt hget
      exact hinbound.remembered receipt (hin.trans hget)
    · intro inbound hok
      exact .inr ⟨hcont, hinbound.created inbound hok⟩
    · intro inbound hok id hid
      rcases hinbound.created inbound hok with ⟨created, hget, rfl⟩
      rw [printedCallIds, List.mem_filter] at hid
      have hid' : id = created.card.callId ∨ id = left.card.callId := by simpa using hid.1
      rcases hid' with rfl | rfl
      · rcases hinbound.kept.inbound _ hget with ⟨-, c, heq', -, hc⟩
        cases heq'
        exact hc
      · exact hinbound.journaled hmem

/-! ## Runs -/

/-- The bookkeeping, the coordinator and the texts that passes over the item have handed
to it, oldest first. -/
structure Desk where
  calls : Calls
  world : World
  contexts : List String

/-- What happens while the item is in the manager queue. -/
inductive DeskEvent
  | bookkeep (room : Room)
  | handOff (room : Room) (time : Seconds)
  | elsewhere (calls : Calls)
  | coordinator (e : Event)

section Runs

variable (p : Platform) (contactId : String) (item : QueueItem)

/-- The delivery of a text to the coordinator. -/
def delivery (context : String) : Op :=
  .enqueueIngressRoot contactId context (ingressIdOf item.queueId)

/-- A durable pass over the item, up to the removal that a crash may cut off.  A pass
whose bookkeeping raises leaves the item for the next one. -/
def handOff (d : Desk) (room : Room) (time : Seconds) : Desk :=
  let ensured := ensureManagerWorkCalls p d.calls room contactId item
  match ensured.inbound with
  | .error _ => { d with calls := ensured.calls }
  | .ok inbound =>
      let context := handoffContext p item ensured.workCall inbound
      { calls := ensured.calls
        world := d.world.after p.host (delivery contactId item context) time
        contexts := d.contexts ++ [context] }

/-- The item has been accepted with a prepared work call, and nobody has heard of it. -/
structure Accepted (d : Desk) : Prop where
  prepared : ∃ before owner kind target task,
    item.workCall = some (prepareOutboundCall p before owner kind target task).1 ∧
      PendingJournaled before ∧ before.journaled ⊆ d.calls.journaled
  outbound : d.calls.dedupe.get? (outboundKey item.queueId) = none
  inbound : d.calls.dedupe.get? (inboundKey item.queueId) = none
  pending : PendingJournaled d.calls
  world : (coordinator p.host).Reachable d.world
  unheard : ∀ context,
    Agrees p.host (ingressQueueId p.host (ingressIdOf item.queueId)) contactId context
      d.world.state
  contexts : d.contexts = []

/-- Passes over the item, the bookkeeping its sender does at once, and steps of the rest
of the program, which uses other keys and other ids. -/
def desk : TransitionSystem Desk DeskEvent where
  init d := Accepted p contactId item d
  step d e d' :=
    match e with
    | .bookkeep room =>
        d' = { d with calls := (ensureManagerWorkCalls p d.calls room contactId item).calls }
    | .handOff room time => d.world.now ≤ time ∧ d' = handOff p contactId item d room time
    | .elsewhere calls =>
        Elsewhere item.queueId d.calls calls ∧ d' = { d with calls := calls }
    | .coordinator e =>
        ¬ e.op.newId p.host d.world.state.uuidsDrawn
            (ingressQueueId p.host (ingressIdOf item.queueId)) ∧
          ∃ w, (coordinator p.host).step d.world e w ∧ d' = { d with world := w }

/-- A pass over the item needs no other call. -/
def NeedsNoOtherCall (d : Desk) : DeskEvent → Prop
  | .bookkeep _ => Settled d.calls item
  | .handOff _ _ => Settled d.calls item
  | _ => True

/-- The replay law at a desk: the next pass builds the text of every earlier one, the
coordinator accepts it, and the calls it names are journaled. -/
structure ReplayLaw (d : Desk) (room : Room) (time : Seconds) (inbound : CallCard) : Prop where
  same : ∀ context ∈ d.contexts, context = handoffContext p item
    (ensureManagerWorkCalls p d.calls room contactId item).workCall inbound
  accepted : ∃ s', call p.host
    (delivery contactId item (handoffContext p item
      (ensureManagerWorkCalls p d.calls room contactId item).workCall inbound))
    d.world.state time = .ok (.flag true, s')
  journaled : ∀ id ∈ printedCallIds
    (ensureManagerWorkCalls p d.calls room contactId item).workCall inbound,
    id ∈ (ensureManagerWorkCalls p d.calls room contactId item).calls.journaled

/-- What holds between the passes. -/
structure DeskKept (reference : Reference) (d : Desk) : Prop where
  kept : Bookkept item.queueId reference d.calls
  world : (coordinator p.host).Reachable d.world
  texts : ∀ context ∈ d.contexts, ∃ inbound,
    PrintsInbound item.queueId reference d.calls inbound ∧
      context = handoffContext p item (some reference) inbound
  heard : ∀ context, (∀ c ∈ d.contexts, c = context) →
    Agrees p.host (ingressQueueId p.host (ingressIdOf item.queueId)) contactId context
      d.world.state

end Runs

variable {d d' : Desk} {time : Seconds}

theorem ingressIdOf_ne_empty (queueId : String) : ingressIdOf queueId ≠ "" := by
  intro h
  have hlist := congrArg String.toList h
  simp [ingressIdOf, String.toList_append] at hlist

/-- A prepared reference that continues a call names a journaled one. -/
theorem prepared_journaled {before : Calls} {owner kind target task : String}
    (h : PendingJournaled before)
    (hcont : (prepareOutboundCall p before owner kind target task).1.continuation = true) :
    (prepareOutboundCall p before owner kind target task).1.card.callId = "" ∨
      (prepareOutboundCall p before owner kind target task).1.card.callId ∈ before.journaled := by
  unfold prepareOutboundCall at hcont ⊢
  simp only at hcont ⊢
  split at hcont
  · cases hcont
  rename_i correlation hget
  split at hcont <;> rename_i hlive
  · rw [if_pos hlive]
    simp only [callReferenceForOwner]
    split
    · exact h _ correlation hget _
    · exact .inl rfl
  · cases hcont

/-- An accepted item starts the law. -/
theorem deskKept_init (h : Accepted p contactId item d) :
    ∃ reference, item.workCall = some reference ∧ DeskKept p contactId item reference d := by
  rcases h.prepared with ⟨before, owner, kind, target, task, hwork, hbefore, hsub⟩
  refine ⟨_, hwork, ⟨?_, ?_, ?_, h.pending⟩, h.world, ?_, fun context _ => h.unheard context⟩
  · intro receipt hget
    rw [h.outbound] at hget
    cases hget
  · intro receipt hget
    rw [h.inbound] at hget
    cases hget
  · intro hcont
    rcases prepared_journaled hbefore hcont with hblank | hmem
    · exact .inl hblank
    · exact .inr (hsub hmem)
  · rw [h.contexts]
    intro context hmem
    cases hmem

/-- The card a settled pass prints stays the one to print. -/
theorem PrintsInbound.keep {inbound : CallCard}
    (h : PrintsInbound queueId reference s inbound)
    (hkeep : ∀ receipt, s.dedupe.get? (inboundKey queueId) = some receipt →
      s'.dedupe.get? (inboundKey queueId) = some receipt) :
    PrintsInbound queueId reference s' inbound := by
  rcases h with hcont | ⟨hfresh, created, hget, heq⟩
  · exact .inl hcont
  · exact .inr ⟨hfresh, created, hkeep _ hget, heq⟩

theorem PrintsInbound.unique {a b : CallCard} (ha : PrintsInbound queueId reference s a)
    (hb : PrintsInbound queueId reference s b) : a = b := by
  rcases ha with ⟨hcont, rfl⟩ | ⟨hfresh, created, hget, rfl⟩
  · rcases hb with ⟨-, rfl⟩ | ⟨hfresh, -⟩
    · rfl
    · rw [hcont] at hfresh
      cases hfresh
  · rcases hb with ⟨hcont, -⟩ | ⟨-, created', hget', rfl⟩
    · rw [hfresh] at hcont
      cases hcont
    · rw [hget] at hget'
      cases hget'
      rfl

/-- A settled pass obeys the replay law. -/
theorem replayLaw_of_kept (hwork : item.workCall = some reference)
    (h : DeskKept p contactId item reference d) (hsettled : Settled d.calls item)
    {inbound : CallCard}
    (hok : (ensureManagerWorkCalls p d.calls room contactId item).inbound = .ok inbound) :
    ReplayLaw p contactId item d room time inbound := by
  have hpass := @ensure_settled p d.calls room contactId item reference hwork h.kept hsettled
  have hsame : ∀ context ∈ d.contexts, context = handoffContext p item
      (ensureManagerWorkCalls p d.calls room contactId item).workCall inbound := by
    intro context hmem
    rcases h.texts context hmem with ⟨earlier, hprints, rfl⟩
    rw [hpass.stays, (hprints.keep hpass.remembered).unique (hpass.prints inbound hok)]
  refine ⟨hsame, ?_, hpass.journaled inbound hok⟩
  have hagrees := (h.heard _ hsame).prune time
  rcases @Maintenance.Agrees.delivered _ time _ _ _ _ (ingressIdOf_ne_empty item.queueId) hagrees with ⟨s', hs', -⟩
  refine ⟨s', ?_⟩
  rw [delivery, call, transaction, mutation, Mutation.reply, hs']

/-- A settled pass keeps what holds between the passes. -/
theorem deskKept_handOff (hwork : item.workCall = some reference)
    (h : DeskKept p contactId item reference d) (hsettled : Settled d.calls item)
    (htime : d.world.now ≤ time) :
    DeskKept p contactId item reference (handOff p contactId item d room time) := by
  have hpass := @ensure_settled p d.calls room contactId item reference hwork h.kept hsettled
  have htexts : ∀ context ∈ d.contexts, ∃ inbound,
      PrintsInbound item.queueId reference
          (ensureManagerWorkCalls p d.calls room contactId item).calls inbound ∧
        context = handoffContext p item (some reference) inbound := by
    intro context hmem
    rcases h.texts context hmem with ⟨earlier, hprints, heq⟩
    exact ⟨earlier, hprints.keep hpass.remembered, heq⟩
  unfold handOff
  simp only
  split <;> rename_i hinbound
  · exact ⟨hpass.kept, h.world, htexts, h.heard⟩
  rename_i inbound
  have hstep : (coordinator p.host).step d.world
      ⟨delivery contactId item (handoffContext p item
        (ensureManagerWorkCalls p d.calls room contactId item).workCall inbound), time⟩
      (d.world.after p.host (delivery contactId item (handoffContext p item
        (ensureManagerWorkCalls p d.calls room contactId item).workCall inbound)) time) :=
    ⟨htime, trivial, rfl⟩
  refine ⟨hpass.kept, h.world.step hstep, ?_, ?_⟩
  · intro context hmem
    rcases List.mem_append.mp hmem with hmem | hmem
    · exact htexts context hmem
    · refine ⟨inbound, hpass.prints inbound hinbound, ?_⟩
      rw [List.mem_singleton.mp hmem, hpass.stays]
  · intro context hall
    have hnew : handoffContext p item
        (ensureManagerWorkCalls p d.calls room contactId item).workCall inbound = context :=
      hall _ (List.mem_append_right _ (List.mem_singleton_self _))
    have hold := h.heard context fun c hc => hall c (List.mem_append_left _ hc)
    rcases @Maintenance.Agrees.delivered _ time _ _ _ _ (ingressIdOf_ne_empty item.queueId)
      (hold.prune time) with ⟨s', hs', hagrees⟩
    have hcall : call p.host (delivery contactId item context) d.world.state time =
        .ok (.flag true, s') := by
      rw [delivery, call, transaction, mutation, Mutation.reply, hs']
    rw [hnew, World.after_ok hcall]
    exact hagrees

/-- Between passes, too, what holds is kept. -/
theorem deskKept_step {e : DeskEvent} (hwork : item.workCall = some reference)
    (h : DeskKept p contactId item reference d) (hneeds : NeedsNoOtherCall item d e)
    (hstep : (desk p contactId item).step d e d') :
    DeskKept p contactId item reference d' := by
  cases e with
  | bookkeep room =>
      have hpass := @ensure_settled p d.calls room contactId item reference hwork h.kept hneeds
      have heq : d' = { d with
          calls := (ensureManagerWorkCalls p d.calls room contactId item).calls } := hstep
      subst heq
      refine ⟨hpass.kept, h.world, ?_, h.heard⟩
      intro context hmem
      rcases h.texts context hmem with ⟨earlier, hprints, heq⟩
      exact ⟨earlier, hprints.keep hpass.remembered, heq⟩
  | handOff room time =>
      rcases hstep with ⟨htime, heq⟩
      subst heq
      exact deskKept_handOff hwork h hneeds htime
  | elsewhere calls =>
      rcases hstep with ⟨hother, heq⟩
      subst heq
      refine ⟨h.kept.elsewhere hother, h.world, ?_, h.heard⟩
      intro context hmem
      rcases h.texts context hmem with ⟨earlier, hprints, heq⟩
      refine ⟨earlier, hprints.keep ?_, heq⟩
      intro receipt hget
      exact hother.inbound.trans hget
  | coordinator e =>
      rcases hstep with ⟨hid, w, hcall, heq⟩
      subst heq
      refine ⟨h.kept, h.world.step hcall, h.texts, ?_⟩
      intro context hall
      exact (h.heard context hall).elsewhere h.world hcall hid

/-- The replay law.  In a run whose passes over the item need no other call, each pass
builds the text of the passes before it, the coordinator accepts that text again, and the
call identifiers in it were journaled. -/
theorem replays_agree {es : List DeskEvent} {room : Room} {inbound : CallCard}
    (hinit : Accepted p contactId item d)
    (hrun : ((desk p contactId item).restrict (NeedsNoOtherCall item)).Run d es d')
    (hsettled : Settled d'.calls item)
    (hok : (ensureManagerWorkCalls p d'.calls room contactId item).inbound = .ok inbound) :
    ReplayLaw p contactId item d' room time inbound := by
  rcases deskKept_init hinit with ⟨reference, hwork, hkept⟩
  have hend : DeskKept p contactId item reference d' := by
    apply hrun.keeps _ hkept
    intro a e b hneeds hstep ha
    exact deskKept_step hwork ha hneeds hstep
  exact replayLaw_of_kept hwork hend hsettled hok

/-! ## A call that is closed before its message is handed over -/

/-- Closing a call is a step of someone else. -/
theorem elsewhere_terminal (h : PendingJournaled s) (queueId callId : String) :
    Elsewhere queueId s (markCallCorrelationsTerminal s callId) where
  outbound := rfl
  inbound := rfl
  journaled := List.Subset.refl _
  pending := markCallCorrelationsTerminal_pending callId h

/-- A platform to evaluate runs on; its texts need no escapes. -/
def plainPlatform : Platform where
  host := countingHost
  safeFragment := id
  dumps fields :=
    "\x7b" ++ String.intercalate ", "
      (fields.map fun field => "\"" ++ field.1 ++ "\": \"" ++ field.2 ++ "\"") ++ "\x7d"

/-- The manager of `a` has a call pending with `b`. -/
def callPending : Calls where
  activeTaskId := .empty
  pendingCalls := Dict.empty.set ("a", "b")
    { outbound := ⟨"a", "task", "call:b:1", "event:1"⟩
      inbound := ⟨"b", "", "call:a:1", "event:2"⟩
      terminalRequested := false }
  dedupe := .empty
  journaled := ["call:b:1", "call:a:1"]
  uuidsDrawn := 0

/-- No call is pending. -/
def noCalls : Calls :=
  { callPending with pendingCalls := .empty }

/-- A message of the manager of `a` to the manager of `b`, prepared in these calls. -/
def messageFrom (calls : Calls) : QueueItem where
  queueId := "q1"
  fromContactId := "a"
  fromCarbonId := ""
  senderLabel := ""
  message := "hello"
  workCall := some (prepareOutboundCall plainPlatform calls "a" "silicon" "b" "").1
  reconcileOnly := false
  lineagePrepared := false
  lineageContext := ""
  lineageLeaseId := ""

def roomy : Room where
  outbound := true
  inbound := true

/-- The desk when the message is accepted. -/
def deskOf (calls : Calls) : Desk where
  calls := calls
  world := .initial 0
  contexts := []

theorem callPending_journaled : PendingJournaled callPending := by
  intro key correlation hget side
  rw [callPending, Dict.get?_set] at hget
  split at hget
  · cases hget
    cases side <;> simp [Correlation.card, callPending]
  · cases hget

theorem noCalls_journaled : PendingJournaled noCalls := by
  intro key correlation hget
  cases hget

theorem accepted_deskOf {calls : Calls} (h : PendingJournaled calls)
    (hdedupe : calls.dedupe = .empty) :
    Accepted plainPlatform "b" (messageFrom calls) (deskOf calls) where
  prepared := ⟨calls, "a", "silicon", "b", "", rfl, h, List.Subset.refl _⟩
  outbound := by
    change calls.dedupe.get? _ = none
    rw [hdedupe]
    rfl
  inbound := by
    change calls.dedupe.get? _ = none
    rw [hdedupe]
    rfl
  pending := h
  world := .init ⟨0, rfl⟩
  unheard context := ⟨nofun, nofun⟩
  contexts := rfl

/-- The call is closed, then a first pass hands the message over. -/
def closedThenHandedOver : Desk :=
  handOff plainPlatform "b" (messageFrom callPending)
    { deskOf callPending with calls := markCallCorrelationsTerminal callPending "call:b:1" }
    roomy 1

/-- The text of the next pass, if its bookkeeping succeeds. -/
def nextText (p : Platform) (contactId : String) (item : QueueItem) (d : Desk) (room : Room) :
    Option String :=
  let ensured := ensureManagerWorkCalls p d.calls room contactId item
  match ensured.inbound with
  | .ok inbound => some (handoffContext p item ensured.workCall inbound)
  | .error _ => none

/-- The delivery of this text is refused as a conflict. -/
def refuses (p : Platform) (contactId : String) (item : QueueItem) (d : Desk) (text : String)
    (time : Seconds) : Bool :=
  match call p.host (delivery contactId item text) d.world.state time with
  | .error .ingressConflict => true
  | _ => false

/-- The replay of a pass that found its call closed builds another text, and the
coordinator refuses it. -/
theorem stale_replay_refused :
    Accepted plainPlatform "b" (messageFrom callPending) (deskOf callPending) ∧
      (desk plainPlatform "b" (messageFrom callPending)).Run (deskOf callPending)
        [.elsewhere (markCallCorrelationsTerminal callPending "call:b:1"), .handOff roomy 1]
        closedThenHandedOver ∧
      ∃ text, nextText plainPlatform "b" (messageFrom callPending) closedThenHandedOver roomy =
          some text ∧
        text ∉ closedThenHandedOver.contexts ∧ closedThenHandedOver.contexts ≠ [] ∧
        refuses plainPlatform "b" (messageFrom callPending) closedThenHandedOver text 2 =
          true := by
  refine ⟨accepted_deskOf callPending_journaled rfl, ?_, ?_⟩
  · refine .cons ⟨elsewhere_terminal callPending_journaled _ _, rfl⟩ (.single ⟨?_, rfl⟩)
    exact zero_le_one
  · have hfacts : (nextText plainPlatform "b" (messageFrom callPending) closedThenHandedOver
        roomy).any (fun text => decide (text ∉ closedThenHandedOver.contexts) &&
          decide (closedThenHandedOver.contexts ≠ []) &&
          refuses plainPlatform "b" (messageFrom callPending) closedThenHandedOver text 2) =
        true := by decide +kernel
    rcases (Option.any_eq_true_iff_get _ _).mp hfacts with ⟨hsome, hfacts⟩
    rw [Bool.and_eq_true, Bool.and_eq_true, decide_eq_true_eq, decide_eq_true_eq] at hfacts
    exact ⟨_, (Option.some_get hsome).symm, hfacts.1.1, hfacts.1.2, hfacts.2⟩

/-- A fresh card is handed over again and again. -/
theorem replays_agree_fresh :
    ∃ inbound, ReplayLaw plainPlatform "b" (messageFrom noCalls)
      (handOff plainPlatform "b" (messageFrom noCalls) (deskOf noCalls) roomy 1) roomy 2
      inbound := by
  have hsettled : ∀ s, Settled s (messageFrom noCalls) := by
    intro s reference hwork hcont
    cases hwork
    cases hcont
  have hok : ∃ inbound, (ensureManagerWorkCalls plainPlatform
      (handOff plainPlatform "b" (messageFrom noCalls) (deskOf noCalls) roomy 1).calls roomy "b"
      (messageFrom noCalls)).inbound = .ok inbound := by
    have hfact : (match (ensureManagerWorkCalls plainPlatform
        (handOff plainPlatform "b" (messageFrom noCalls) (deskOf noCalls) roomy 1).calls roomy "b"
        (messageFrom noCalls)).inbound with
      | .ok _ => true
      | .error _ => false) = true := by decide +kernel
    split at hfact <;> rename_i hinbound
    · exact ⟨_, hinbound⟩
    · cases hfact
  rcases hok with ⟨inbound, hok⟩
  have hrun : ((desk plainPlatform "b" (messageFrom noCalls)).restrict
      (NeedsNoOtherCall (messageFrom noCalls))).Run (deskOf noCalls) [.handOff roomy 1]
      (handOff plainPlatform "b" (messageFrom noCalls) (deskOf noCalls) roomy 1) :=
    .single ⟨hsettled _, zero_le_one, rfl⟩
  exact ⟨inbound, replays_agree (accepted_deskOf noCalls_journaled rfl) hrun (hsettled _) hok⟩

end Messages
end Stemcell
