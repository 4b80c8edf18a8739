import Stemcell.Messages.SendSteps

/-!
# The invariant of an exchange

What travels is always a copy of a message that was sent, every message has its custody
and its standing, and a pass keeps the order that it read.

Main results:

- Definition `Inv`: the invariant of an exchange.
- Theorems `Inv.send_rest` and `Inv.send_call`: the events of a send keep it.
- Theorems `Inv.pass_rest` and `Inv.pass_call`: the events of a pass keep it.
-/

namespace Stemcell
namespace Messages

open Lib Maintenance

/-! ## The shape of an exchange -/

/-- What travels is a copy of a message that was sent. -/
structure Shape (p : Platform) (d : Exchange) : Prop where
  reach : (coordinator p.host).Reachable d.world
  message : ∀ queueId message, d.issued.get? queueId = some message →
    message.2.queueId = queueId ∧ Plain message.2 ∧ Known p.host d queueId
  apart : ∀ a m b n, d.issued.get? a = some m → d.issued.get? b = some n → a ≠ b →
    a ≠ ingressOf p.host b ∧ ingressOf p.host a ≠ ingressOf p.host b
  sends : ∀ queueId sending, d.sends.get? queueId = some sending →
    sending.item.queueId = queueId ∧
      d.issued.get? queueId = some (sending.contactId, sending.item)
  waits : ∀ contactId copy, Waits d contactId copy →
    ∃ item, d.issued.get? copy.queueId = some (contactId, item) ∧ Copy p item copy
  reported : ∀ queueId ∈ d.reported, d.issued.get? queueId ≠ none
  delivered : ∀ pass, d.pass = some pass → ∀ queueId ∈ pass.delivered,
    d.issued.get? queueId ≠ none
  roots : ∀ root ∈ d.roots, d.issued.get? root.queueId ≠ none

/-- What a pass has dealt with is delivered, and with what is to come it stands in the
order that the pass read. -/
structure PassOrder (pass : Pass) : Prop where
  earlier : ∀ item ∈ pass.earlier, item.queueId ∈ pass.delivered
  later : ∀ entry ∈ pass.later, entry ∈ pass.read
  order : pass.earlier = [] ∧ pass.rest = [] ∨
    ∃ items dropped, (pass.contactId, items) ∈ pass.read ∧
      items.map QueueItem.queueId =
        (pass.earlier ++ pass.rest).map QueueItem.queueId ++ dropped

/-- The invariant of an exchange. -/
structure Inv (p : Platform) (table : CallTable) (d : Exchange) : Prop where
  shape : Shape p d
  message : ∀ queueId contactId item, d.issued.get? queueId = some (contactId, item) →
    MessageInv p table d queueId contactId item
  order : ∀ pass, d.pass = some pass → PassOrder pass

variable {p : Platform} {table : CallTable} {host : Host} {d d' : Exchange}
  {queueId contactId : String} {item copy : QueueItem} {sending : Sending} {pass : Pass}
  {t : Seconds} {e : ExchangeEvent}

theorem Known.mono (h : Known host d queueId)
    (hle : d.world.state.uuidsDrawn ≤ d'.world.state.uuidsDrawn) : Known host d' queueId :=
  ⟨h.named, h.seen.mono hle, h.apart⟩

theorem MeetsReceipts.meets (h : MeetsReceipts host d t) {message : String × QueueItem}
    (hissued : d.issued.get? queueId = some message) : Meets host d queueId t :=
  ⟨h.1, (h.2 queueId message hissued).1, (h.2 queueId message hissued).2⟩

/-- Whatever leaves less to the parties and sends nothing keeps the shape. -/
theorem Shape.keeps (h : Shape p d) (hreach : (coordinator p.host).Reachable d'.world)
    (hle : d.world.state.uuidsDrawn ≤ d'.world.state.uuidsDrawn) (hissued : d'.issued = d.issued)
    (hsends : ∀ queueId later, d'.sends.get? queueId = some later →
      ∃ earlier, d.sends.get? queueId = some earlier ∧ later.contactId = earlier.contactId ∧
        later.item = earlier.item)
    (hwaits : ∀ contactId copy, Waits d' contactId copy → Waits d contactId copy ∨
      ∃ item, d.issued.get? copy.queueId = some (contactId, item) ∧ Copy p item copy)
    (hreported : ∀ queueId ∈ d'.reported, queueId ∈ d.reported ∨ d.issued.get? queueId ≠ none)
    (hdelivered : ∀ pass, d'.pass = some pass → ∀ queueId ∈ pass.delivered,
      d.issued.get? queueId ≠ none)
    (hroots : ∀ root ∈ d'.roots, root ∈ d.roots ∨ d.issued.get? root.queueId ≠ none) :
    Shape p d' where
  reach := hreach
  message q m hm := by
    rw [hissued] at hm
    rcases h.message q m hm with ⟨hid, hplain, hknown⟩
    exact ⟨hid, hplain, hknown.mono hle⟩
  apart := by
    rw [hissued]
    exact h.apart
  sends q later hget := by
    rcases hsends q later hget with ⟨earlier, hearlier, hcontact, hitem⟩
    rw [hissued, hcontact, hitem]
    exact h.sends q earlier hearlier
  waits contact other hw := by
    rw [hissued]
    rcases hwaits contact other hw with hold | hnew
    · exact h.waits contact other hold
    · exact hnew
  reported q hmem := by
    rw [hissued]
    rcases hreported q hmem with hold | hnew
    · exact h.reported q hold
    · exact hnew
  delivered := by
    rw [hissued]
    exact hdelivered
  roots root hmem := by
    rw [hissued]
    rcases hroots root hmem with hold | hnew
    · exact h.roots root hold
    · exact hnew

/-! ## Events of a send -/

/-- An event of a send, given what it does to its own message. -/
theorem Inv.send (h : Inv p table d) (hget : d.sends.get? queueId = some sending)
    (hsend : SendStep p sending d d') (hreach : (coordinator p.host).Reachable d'.world)
    (hle : d.world.state.uuidsDrawn ≤ d'.world.state.uuidsDrawn)
    (hcalm : ∀ q m, d.issued.get? q = some m → q ≠ sending.item.queueId →
      Calm p.host q d d')
    (hown : MessageInv p table d sending.item.queueId sending.contactId sending.item →
      MessageInv p table d' sending.item.queueId sending.contactId sending.item) :
    Inv p table d' := by
  rcases h.shape.sends queueId sending hget with ⟨hid, hissued⟩
  subst hid
  refine ⟨?_, ?_, ?_⟩
  · apply h.shape.keeps hreach hle hsend.issued
    · intro q later hlater
      by_cases hq : q = sending.item.queueId
      · subst hq
        exact ⟨sending, hget, hsend.own later hlater⟩
      · rw [hsend.sends q hq] at hlater
        exact ⟨later, hlater, rfl, rfl⟩
    · rintro contact copy (hmem | ⟨pass, hpass, hmem⟩)
      · rcases hsend.items contact copy hmem with hold | ⟨hcontact, hcopy⟩
        · exact .inl (.stored hold)
        · refine .inr ⟨sending.item, ?_, hcopy⟩
          rw [hcopy.id_eq, hcontact]
          exact hissued
      · rw [hsend.pass] at hpass
        exact .inl (.read pass hpass hmem)
    · intro q hmem
      by_cases hq : q = sending.item.queueId
      · right
        rw [hq, hissued]
        exact Option.some_ne_none _
      · exact .inl (hsend.reported q hq hmem)
    · intro pass hpass
      rw [hsend.pass] at hpass
      exact h.shape.delivered pass hpass
    · intro root hmem
      rcases hsend.roots with ⟨adds, new, hnew, hroots⟩
      rw [hroots] at hmem
      rcases List.mem_append.mp hmem with hold | hmem
      · exact .inl hold
      · right
        have hroot : root = new := by
          cases adds
          · cases hmem
          · exact List.mem_singleton.mp hmem
        rw [hroot, hnew, hissued]
        exact Option.some_ne_none _
  · intro q contact item hmessage
    rw [hsend.issued] at hmessage
    by_cases hq : q = sending.item.queueId
    · subst hq
      rw [hissued] at hmessage
      cases hmessage
      exact hown (h.message _ _ _ hissued)
    · exact (h.message q contact item hmessage).aside (hsend.aside hq) (hcalm q _ hmessage hq)
  · intro pass hpass
    rw [hsend.pass] at hpass
    exact h.order pass hpass

/-- With the coordinator at rest. -/
theorem Inv.send_rest (h : Inv p table d) (hget : d.sends.get? queueId = some sending)
    (hsend : SendStep p sending d d') (hworld : d'.world = d.world)
    (hown : MessageInv p table d sending.item.queueId sending.contactId sending.item →
      MessageInv p table d' sending.item.queueId sending.contactId sending.item) :
    Inv p table d' := by
  refine h.send hget hsend ?_ ?_ ?_ hown
  · rw [hworld]
    exact h.shape.reach
  · rw [hworld]
  · intro q m _ hq
    refine ⟨?_, ?_, ?_, ?_, hsend.count hq⟩
    · rw [hworld]
    · rw [hworld]
      exact fun _ hgone => hgone
    · rw [hworld]
      exact ⟨rfl, fun hqueued => hqueued⟩
    · rw [hworld]
      exact ⟨rfl, fun hqueued => hqueued⟩

/-- With a call of the coordinator that queues a root for the message at most. -/
theorem Inv.send_call (h : Inv p table d) (hget : d.sends.get? queueId = some sending)
    (hsend : SendStep p sending d d') {op : Op} (hmeets : MeetsReceipts p.host d t)
    (hworld : d'.world = d.world.after p.host op t)
    (hknown : op.Known p.host d.world.state.uuidsDrawn)
    (hnew : ∀ id, op.newId p.host d.world.state.uuidsDrawn id → id = queueId)
    (hown : MessageInv p table d sending.item.queueId sending.contactId sending.item →
      MessageInv p table d' sending.item.queueId sending.contactId sending.item) :
    Inv p table d' := by
  rcases h.shape.sends queueId sending hget with ⟨hid, hissued⟩
  have hstep : (coordinator p.host).step d.world ⟨op, t⟩ d'.world := ⟨hmeets.1, hknown, hworld⟩
  refine h.send hget hsend (h.shape.reach.step hstep) (step_uuidsDrawn h.shape.reach hstep) ?_ hown
  intro q m hm hq
  rw [hid] at hq
  apply Calm.of_step h.shape.reach hstep (hmeets.meets hm)
  · intro hyes
    exact hq (hnew q hyes)
  · intro hyes
    exact (h.shape.apart queueId _ q m hissued hm (Ne.symm hq)).1 (hnew _ hyes).symm
  · intro kind
    apply hsend.count
    rwa [hid]

/-! ## Events of a pass -/

theorem Pass.mem_waiting : (contactId, copy) ∈ pass.waiting ↔
    (copy ∈ pass.rest ∧ contactId = pass.contactId) ∨
      ∃ items, (contactId, items) ∈ pass.later ∧ copy ∈ items := by
  simp only [Pass.waiting, List.mem_append, List.mem_map, List.mem_flatMap, Prod.mk.injEq]
  constructor
  · rintro (⟨i, hi, hc, rfl⟩ | ⟨⟨c, items⟩, hmem, i, hi, hc, rfl⟩)
    · exact .inl ⟨hi, hc.symm⟩
    · simp only at hc
      subst hc
      exact .inr ⟨items, hmem, hi⟩
  · rintro (⟨hi, rfl⟩ | ⟨items, hmem, hi⟩)
    · exact .inl ⟨copy, hi, rfl, rfl⟩
    · exact .inr ⟨(contactId, items), hmem, copy, hi, rfl, rfl⟩

theorem Pass.mem_unresumed : (contactId, copy) ∈ pass.unresumed ↔
    (copy ∈ (if pass.resumed then pass.rest.tail else pass.rest) ∧ contactId = pass.contactId) ∨
      ∃ items, (contactId, items) ∈ pass.later ∧ copy ∈ items := by
  simp only [Pass.unresumed, List.mem_append, List.mem_map, List.mem_flatMap, Prod.mk.injEq]
  constructor
  · rintro (⟨i, hi, hc, rfl⟩ | ⟨⟨c, items⟩, hmem, i, hi, hc, rfl⟩)
    · exact .inl ⟨hi, hc.symm⟩
    · simp only at hc
      subst hc
      exact .inr ⟨items, hmem, hi⟩
  · rintro (⟨hi, rfl⟩ | ⟨items, hmem, hi⟩)
    · exact .inl ⟨copy, hi, rfl, rfl⟩
    · exact .inr ⟨(contactId, items), hmem, copy, hi, rfl, rfl⟩

/-- The pass takes nothing up that it did not hold. -/
structure Pass.Within (later earlier : Pass) : Prop where
  waiting : ∀ contactId copy, (contactId, copy) ∈ later.waiting →
    (contactId, copy) ∈ earlier.waiting
  unresumed : ∀ contactId copy, (contactId, copy) ∈ later.unresumed →
    (contactId, copy) ∈ earlier.unresumed

/-- The first item of the pass is done with, or given up. -/
theorem Pass.within_of_tail {later : Pass} (hcontact : later.contactId = pass.contactId)
    (hlater : later.later = pass.later) (hrest : ∀ i ∈ later.rest, i ∈ pass.rest.tail) :
    later.Within pass := by
  constructor
  · intro contact other hmem
    rw [Pass.mem_waiting, hcontact, hlater] at hmem
    rw [Pass.mem_waiting]
    rcases hmem with ⟨hi, hc⟩ | hmem
    · exact .inl ⟨List.mem_of_mem_tail (hrest other hi), hc⟩
    · exact .inr hmem
  · intro contact other hmem
    rw [Pass.mem_unresumed, hcontact, hlater] at hmem
    rw [Pass.mem_unresumed]
    rcases hmem with ⟨hi, hc⟩ | hmem
    · refine .inl ⟨?_, hc⟩
      have htail : other ∈ pass.rest.tail := by
        apply hrest
        split at hi
        · exact List.mem_of_mem_tail hi
        · exact hi
      split
      · exact htail
      · exact List.mem_of_mem_tail htail
    · exact .inr hmem

/-- Only the pass and the queue file change, and every message is left aside. -/
theorem Inv.pass_rest (h : Inv p table d) (hworld : d'.world = d.world)
    (hsends : d'.sends = d.sends) (hissued : d'.issued = d.issued)
    (hreported : d'.reported = d.reported) (hroots : d'.roots = d.roots)
    (hwaits : ∀ contactId copy, Waits d' contactId copy → Waits d contactId copy)
    (hdelivered : ∀ pass, d'.pass = some pass → ∀ queueId ∈ pass.delivered,
      d.issued.get? queueId ≠ none)
    (haside : ∀ queueId m, d.issued.get? queueId = some m → Aside p.host queueId d d')
    (horder : ∀ pass, d'.pass = some pass → PassOrder pass) : Inv p table d' := by
  refine ⟨?_, ?_, horder⟩
  · apply h.shape.keeps
    · rw [hworld]
      exact h.shape.reach
    · rw [hworld]
    · exact hissued
    · intro q later hlater
      rw [hsends] at hlater
      exact ⟨later, hlater, rfl, rfl⟩
    · intro contact copy hw
      exact .inl (hwaits contact copy hw)
    · intro q hmem
      rw [hreported] at hmem
      exact .inl hmem
    · exact hdelivered
    · intro root hmem
      rw [hroots] at hmem
      exact .inl hmem
  · intro q contact item hm
    rw [hissued] at hm
    exact (h.message q contact item hm).aside (haside q _ hm) (.of_eq hworld hroots)

/-- A pass goes on without the queue file. -/
theorem Inv.pass_goes (h : Inv p table d) {before after : Pass} (hpass : d.pass = some before)
    (hwithin : after.Within before)
    (hdelivered : ∀ q ∈ after.delivered, q ∈ before.delivered ∨
      d.issued.get? q ≠ none ∧ Rooted p.host d q)
    (hresumed : after.resumed = false) (horder : PassOrder after) :
    Inv p table { d with pass := some after } := by
  have hwaits : ∀ contact copy, Waits { d with pass := some after } contact copy →
      Waits d contact copy := by
    rintro contact copy (hmem | ⟨pass, hsome, hmem⟩)
    · exact .stored hmem
    · cases hsome
      exact .read before hpass (hwithin.waiting contact copy hmem)
  apply h.pass_rest (by rfl) (by rfl) (by rfl) (by rfl) (by rfl) hwaits
  · intro pass hsome q hmem
    cases hsome
    rcases hdelivered q hmem with hold | ⟨hnew, -⟩
    · exact h.shape.delivered before hpass q hold
    · exact hnew
  · intro q m _
    refine ⟨fun _ hget => hget, fun contact copy _ hw => hwaits contact copy hw, ?_,
      fun hmem => hmem, .inr, ?_, ?_⟩
    · rintro contact copy - (hmem | ⟨pass, hsome, hmem⟩)
      · exact .stored hmem
      · cases hsome
        exact .read before hpass (hwithin.unresumed contact copy hmem)
    · intro pass hsome hmem
      cases hsome
      rcases hdelivered q hmem with hold | ⟨-, hrooted⟩
      · exact .inr ⟨before, hpass, hold⟩
      · exact .inl hrooted
    · intro pass first rest hsome hyes
      cases hsome
      rw [hresumed] at hyes
      cases hyes
  · intro pass hsome
    cases hsome
    exact horder

/-- The order of a pass that goes on to its next item, or gives its list up. -/
theorem PassOrder.delivers (h : PassOrder pass) {first : QueueItem} {rest : List QueueItem}
    (hrest : pass.rest = first :: rest) : PassOrder (Pass.delivers pass first rest) := by
  refine ⟨?_, h.later, ?_⟩
  · intro i hmem
    rcases List.mem_append.mp hmem with hold | hnew
    · exact List.mem_cons_of_mem _ (h.earlier i hold)
    · rw [List.mem_singleton.mp hnew]
      exact List.mem_cons_self
  · rcases h.order with ⟨-, hempty⟩ | ⟨items, dropped, hread, hids⟩
    · rw [hrest] at hempty
      cases hempty
    · refine .inr ⟨items, dropped, hread, ?_⟩
      rw [hids, hrest, Pass.delivers, List.append_assoc, List.singleton_append]

theorem PassOrder.breaks (h : PassOrder pass) :
    PassOrder { pass with rest := [], resumed := false } := by
  refine ⟨h.earlier, h.later, ?_⟩
  rcases h.order with ⟨hearlier, -⟩ | ⟨items, dropped, hread, hids⟩
  · exact .inl ⟨hearlier, rfl⟩
  · refine .inr ⟨items, pass.rest.map QueueItem.queueId ++ dropped, hread, ?_⟩
    rw [hids, List.append_nil, List.map_append, List.append_assoc]

theorem Inv.passBegin (h : Inv p table d) (hnext : d.passBegin = some d') : Inv p table d' := by
  unfold Exchange.passBegin at hnext
  split at hnext
  · cases hnext
  rename_i hpass
  cases hnext
  have hread : ∀ contact copy, (contact, copy) ∈ (Pass.opening d.queue).waiting →
      (contact, copy) ∈ d.queue.items := fun _ _ hmem => hmem
  have hwaits : ∀ contact copy, Waits { d with pass := some (.opening d.queue) } contact copy →
      Waits d contact copy := by
    rintro contact copy (hmem | ⟨pass, hsome, hmem⟩)
    · exact .stored hmem
    · cases hsome
      exact .stored (hread contact copy hmem)
  apply h.pass_rest (by rfl) (by rfl) (by rfl) (by rfl) (by rfl) hwaits
  · intro pass hsome q hmem
    cases hsome
    cases hmem
  · intro q m _
    refine ⟨fun _ hget => hget, fun contact copy _ hw => hwaits contact copy hw, ?_,
      fun hmem => hmem, .inr, ?_, ?_⟩
    · rintro contact copy - (hmem | ⟨pass, hsome, hmem⟩)
      · exact .stored hmem
      · cases hsome
        exact .stored (hread contact copy hmem)
    · intro pass hsome hmem
      cases hsome
      cases hmem
    · intro pass first rest hsome hyes
      cases hsome
      cases hyes
  · intro pass hsome
    cases hsome
    refine ⟨?_, fun _ hmem => hmem, .inl ⟨rfl, rfl⟩⟩
    intro i hmem
    cases hmem

theorem Inv.passContact (h : Inv p table d) (hpass : d.pass = some pass)
    (hnext : d.passContact pass = some d') : Inv p table d' := by
  unfold Exchange.passContact at hnext
  split at hnext
  swap
  · cases hnext
  rename_i contactId items later hrest hlater
  cases hnext
  have horder := h.order pass hpass
  apply h.pass_goes hpass
  · constructor
    · intro contact copy hmem
      rw [Pass.mem_waiting] at hmem ⊢
      right
      rw [hlater]
      rcases hmem with ⟨hi, hc⟩ | ⟨others, hmem, hi⟩
      · exact ⟨items, by rw [hc]; exact List.mem_cons_self, hi⟩
      · exact ⟨others, List.mem_cons_of_mem _ hmem, hi⟩
    · intro contact copy hmem
      rw [Pass.mem_unresumed] at hmem ⊢
      right
      rw [hlater]
      rcases hmem with ⟨hi, hc⟩ | ⟨others, hmem, hi⟩
      · exact ⟨items, by rw [hc]; exact List.mem_cons_self, hi⟩
      · exact ⟨others, List.mem_cons_of_mem _ hmem, hi⟩
  · intro q hmem
    exact .inl hmem
  · rfl
  · refine ⟨?_, ?_, .inr ⟨items, [], ?_, ?_⟩⟩
    · intro i hmem
      cases hmem
    · intro entry hmem
      apply horder.later
      rw [hlater]
      exact List.mem_cons_of_mem _ hmem
    · apply horder.later
      rw [hlater]
      exact List.mem_cons_self
    · rw [List.nil_append, List.append_nil]

theorem Inv.passBreak (h : Inv p table d) (hpass : d.pass = some pass) :
    Inv p table (d.passBreak pass) := by
  apply h.pass_goes hpass
  · exact Pass.within_of_tail rfl rfl (fun i hmem => nomatch hmem)
  · intro q hmem
    exact .inl hmem
  · rfl
  · exact (h.order pass hpass).breaks

/-- The first item of a pass is a copy of a message. -/
theorem Inv.first (h : Inv p table d) (hpass : d.pass = some pass) {first : QueueItem}
    {rest : List QueueItem} (hrest : pass.rest = first :: rest) :
    ∃ item, d.issued.get? first.queueId = some (pass.contactId, item) ∧ Copy p item first := by
  apply h.shape.waits
  apply Waits.read pass hpass
  rw [Pass.mem_waiting, hrest]
  exact .inl ⟨List.mem_cons_self, rfl⟩

theorem Inv.passSettle (h : Inv p table d) (hpass : d.pass = some pass)
    (hnext : d.passSettle pass = some d') : Inv p table d' := by
  unfold Exchange.passSettle at hnext
  split at hnext
  · cases hnext
  rename_i first rest hrest
  split at hnext <;> rename_i hready
  swap
  · cases hnext
  cases hnext
  rw [Bool.and_eq_true] at hready
  rcases h.first hpass hrest with ⟨item, hissued, hcopy⟩
  have hplain := (h.shape.message _ _ hissued).2.1
  have hresumed : pass.resumed = true := by
    have hthrough := hready.1
    rw [Pass.ready, hcopy.prepared_of_only hplain hready.2] at hthrough
    exact hthrough
  apply h.pass_goes hpass
  · refine Pass.within_of_tail rfl rfl fun i hmem => ?_
    rw [hrest]
    exact hmem
  · intro q hmem
    rcases List.mem_cons.mp hmem with heq | hold
    · right
      rw [heq]
      refine ⟨by rw [hissued]; exact Option.some_ne_none _, .inl ?_⟩
      exact (h.message _ _ _ hissued).standing.resumed pass first rest hpass hresumed hrest rfl
        hready.2
    · exact .inl hold
  · rfl
  · exact (h.order pass hpass).delivers hrest

theorem Inv.passEnd (h : Inv p table d) (hpass : d.pass = some pass)
    (hnext : d.passEnd pass = some d') : Inv p table d' := by
  unfold Exchange.passEnd at hnext
  split at hnext
  swap
  · cases hnext
  cases hnext
  have hwaits : ∀ contact copy, Waits { d with
      queue := removeManagerQueueIds d.queue pass.delivered, pass := none } contact copy →
      Waits d contact copy := by
    rintro contact copy (hmem | ⟨pass, hsome, hmem⟩)
    · exact .stored (mem_items_remove.mp hmem).1
    · cases hsome
  apply h.pass_rest (by rfl) (by rfl) (by rfl) (by rfl) (by rfl) hwaits
  · intro after hsome
    cases hsome
  · intro q m hm
    refine ⟨fun _ hget => hget, fun contact copy _ hw => hwaits contact copy hw, ?_,
      fun hmem => hmem, ?_, ?_, ?_⟩
    · rintro contact copy - (hmem | ⟨pass, hsome, hmem⟩)
      · exact .stored (mem_items_remove.mp hmem).1
      · cases hsome
    · rintro ⟨contact, copy, hmem, hid⟩
      by_cases hdelivered : q ∈ pass.delivered
      · exact .inl ((h.message q m.1 m.2 hm).standing.delivered pass hpass hdelivered)
      · refine .inr ⟨contact, copy, mem_items_remove.mpr ⟨hmem, ?_⟩, hid⟩
        rwa [hid]
    · intro after hsome
      cases hsome
    · intro after first rest hsome
      cases hsome
  · intro after hsome
    cases hsome

theorem Inv.endPass (h : Inv p table d) : Inv p table { d with pass := none } := by
  have hwaits : ∀ contact copy, Waits { d with pass := none } contact copy →
      Waits d contact copy := by
    rintro contact copy (hmem | ⟨pass, hsome, hmem⟩)
    · exact .stored hmem
    · cases hsome
  apply h.pass_rest (by rfl) (by rfl) (by rfl) (by rfl) (by rfl) hwaits
  · intro after hsome
    cases hsome
  · intro q m hm
    refine ⟨fun _ hget => hget, fun contact copy _ hw => hwaits contact copy hw, ?_,
      fun hmem => hmem, .inr, ?_, ?_⟩
    · rintro contact copy - (hmem | ⟨pass, hsome, hmem⟩)
      · exact .stored hmem
      · cases hsome
    · intro after hsome
      cases hsome
    · intro after first rest hsome
      cases hsome
  · intro after hsome
    cases hsome

/-! ## Calls of a pass -/

/-- A message that the pass holds outlives a call for it. -/
theorem Standing.passes (h : Standing host d queueId) (hrecorded : Recorded d queueId)
    (hsends : d'.sends = d.sends) (hreported : d'.reported = d.reported)
    (hqueue : d'.queue = d.queue) (hkeeps : Keeps host queueId d d')
    (hdelivered : ∀ pass, d'.pass = some pass → queueId ∈ pass.delivered →
      Rooted host d' queueId)
    (hresumed : ∀ pass first rest, d'.pass = some pass → pass.resumed = true →
      pass.rest = first :: rest → first.queueId = queueId → first.reconcileOnly = true →
      d'.world.state.continuationReceipts.get? queueId ≠ none) : Standing host d' queueId where
  unrecorded later hget hstage := by
    rw [hsends] at hget
    exact absurd hrecorded (h.unrecorded later hget hstage).1
  prepared later leaseId hget hstage := by
    rw [hsends] at hget
    rcases h.prepared later leaseId hget hstage with hrooted | hstored
    · exact .inl (hkeeps.rooted hrooted)
    · right
      rwa [Stored, hqueue]
  taken later hget hstage := by
    rw [hsends] at hget
    exact hkeeps.continuation (h.taken later hget hstage)
  active hmem := by
    rw [hsends]
    rw [hreported] at hmem
    exact h.active hmem
  kept hmem := by
    rw [hreported] at hmem
    rcases h.kept hmem with hrooted | hstored
    · exact .inl (hkeeps.rooted hrooted)
    · right
      rwa [Stored, hqueue]
  delivered := hdelivered
  resumed := hresumed

/-- A call of a pass for its first item: the other messages are left aside. -/
theorem Inv.pass_call (h : Inv p table d) {first : QueueItem} {rest : List QueueItem}
    (op : Op) (hpass : d.pass = some pass) (hrest : pass.rest = first :: rest)
    (hmeets : MeetsReceipts p.host d t) (hknown : op.Known p.host d.world.state.uuidsDrawn)
    (hnew : ∀ id, op.newId p.host d.world.state.uuidsDrawn id →
      id = first.queueId ∨ id = ingressOf p.host first.queueId)
    (hworld : d'.world = d.world.after p.host op t)
    (hroots : ∃ adds root, root.queueId = first.queueId ∧
      d'.roots = d.roots ++ rootAdded adds root)
    (hsends : d'.sends = d.sends) (hissued : d'.issued = d.issued)
    (hreported : d'.reported = d.reported) (hqueue : d'.queue = d.queue) {after : Pass}
    (hafter : d'.pass = some after)
    (hwaiting : ∀ contact copy, (contact, copy) ∈ after.waiting →
      (contact, copy) ∈ pass.waiting ∨ contact = pass.contactId ∧
        copy = { first with reconcileOnly := false } ∧ first.lineagePrepared = true)
    (hunresumed : ∀ contact copy, (contact, copy) ∈ after.unresumed →
      (contact, copy) ∈ pass.unresumed)
    (hdelivered : ∀ q ∈ after.delivered, q ∈ pass.delivered ∨ q = first.queueId)
    (hresumed : ∀ other others, after.resumed = true → after.rest = other :: others →
      other.queueId = first.queueId)
    (horder : PassOrder after)
    (hown : ∀ item, d.issued.get? first.queueId = some (pass.contactId, item) →
      Copy p item first → MessageInv p table d first.queueId pass.contactId item →
      MessageInv p table d' first.queueId pass.contactId item) : Inv p table d' := by
  rcases h.first hpass hrest with ⟨item, hmessage, hcopy⟩
  have hplain := (h.shape.message _ _ hmessage).2.1
  have hstep : (coordinator p.host).step d.world ⟨op, t⟩ d'.world := ⟨hmeets.1, hknown, hworld⟩
  rcases hroots with ⟨adds, root, hroot, hroots⟩
  refine ⟨?_, ?_, ?_⟩
  · apply h.shape.keeps (h.shape.reach.step hstep) (step_uuidsDrawn h.shape.reach hstep) hissued
    · intro q later hlater
      rw [hsends] at hlater
      exact ⟨later, hlater, rfl, rfl⟩
    · rintro contact copy (hmem | ⟨held, hsome, hmem⟩)
      · rw [hqueue] at hmem
        exact .inl (.stored hmem)
      · rw [hafter] at hsome
        cases hsome
        rcases hwaiting contact copy hmem with hold | ⟨hcontact, heq, hprepared⟩
        · exact .inl (.read pass hpass hold)
        · right
          rw [hcontact, heq]
          exact ⟨item, hmessage, hcopy.refuse hplain hprepared⟩
    · intro q hmem
      rw [hreported] at hmem
      exact .inl hmem
    · intro held hsome q hmem
      rw [hafter] at hsome
      cases hsome
      rcases hdelivered q hmem with hold | hq
      · exact h.shape.delivered pass hpass q hold
      · rw [hq, hmessage]
        exact Option.some_ne_none _
    · intro new hmem
      rw [hroots] at hmem
      rcases List.mem_append.mp hmem with hold | hmem
      · exact .inl hold
      · right
        have hnew : new = root := by
          cases adds
          · cases hmem
          · exact List.mem_singleton.mp hmem
        rw [hnew, hroot, hmessage]
        exact Option.some_ne_none _
  · intro q contact other hm
    rw [hissued] at hm
    by_cases hq : q = first.queueId
    · subst hq
      rw [hmessage] at hm
      cases hm
      exact hown item hmessage hcopy (h.message _ _ _ hmessage)
    · apply (h.message q contact other hm).aside
      · refine ⟨?_, ?_, ?_, ?_, ?_, ?_, ?_⟩
        · intro later hlater
          rwa [hsends] at hlater
        · rintro c i hid (hmem | ⟨held, hsome, hmem⟩)
          · rw [hqueue] at hmem
            exact .stored hmem
          · rw [hafter] at hsome
            cases hsome
            rcases hwaiting c i hmem with hold | ⟨-, heq, -⟩
            · exact .read pass hpass hold
            · rw [heq] at hid
              exact absurd hid.symm hq
        · rintro c i - (hmem | ⟨held, hsome, hmem⟩)
          · rw [hqueue] at hmem
            exact .stored hmem
          · rw [hafter] at hsome
            cases hsome
            exact .read pass hpass (hunresumed c i hmem)
        · intro hmem
          rwa [hreported] at hmem
        · intro hstored
          right
          rwa [Stored, hqueue]
        · intro held hsome hmem
          rw [hafter] at hsome
          cases hsome
          rcases hdelivered q hmem with hold | heq
          · exact .inr ⟨pass, hpass, hold⟩
          · exact absurd heq hq
        · intro held other others hsome hyes hothers hid _
          rw [hafter] at hsome
          cases hsome
          exact absurd (hid.symm.trans (hresumed other others hyes hothers)) hq
      · apply Calm.of_step h.shape.reach hstep (hmeets.meets hm)
        · intro hyes
          rcases hnew q hyes with heq | heq
          · exact hq heq
          · exact (h.shape.apart q _ _ _ hm hmessage hq).1 heq
        · intro hyes
          rcases hnew _ hyes with heq | heq
          · exact (h.shape.apart _ _ q _ hmessage hm (Ne.symm hq)).1 heq.symm
          · exact (h.shape.apart q _ _ _ hm hmessage hq).2 heq
        · intro kind
          rw [rootCount_append _ _ _ adds root hroots kind, if_neg, Nat.add_zero]
          rintro ⟨-, hid, -⟩
          exact hq (hid.symm.trans hroot)
  · intro held hsome
    rw [hafter] at hsome
    cases hsome
    exact horder

theorem Inv.passResume (h : Inv p table d) (hmeets : MeetsReceipts p.host d t)
    (hpass : d.pass = some pass) (hnext : d.passResume p pass t = some d') : Inv p table d' := by
  unfold Exchange.passResume at hnext
  split at hnext
  · cases hnext
  rename_i first rest hrest
  split at hnext <;> rename_i hcheck
  swap
  · cases hnext
  rw [Bool.and_eq_true, Bool.not_eq_true'] at hcheck
  rcases hcheck with ⟨hprepared, hfresh⟩
  rcases h.first hpass hrest with ⟨item₀, hissued₀, -⟩
  have hknown := (h.shape.message _ _ hissued₀).2.2
  have horder := h.order pass hpass
  have hhead : (pass.contactId, first) ∈ pass.unresumed := by
    rw [Pass.mem_unresumed, hfresh, hrest]
    exact .inl ⟨List.mem_cons_self, rfl⟩
  have htail : ∀ contact copy,
      (copy ∈ rest ∧ contact = pass.contactId) ∨
        (∃ items, (contact, items) ∈ pass.later ∧ copy ∈ items) →
      (contact, copy) ∈ pass.unresumed := by
    intro contact copy hmem
    rw [Pass.mem_unresumed, hfresh, hrest]
    rcases hmem with ⟨hi, hc⟩ | hmem
    · exact .inl ⟨List.mem_cons_of_mem _ hi, hc⟩
    · exact .inr hmem
  have hnext := Option.some.inj hnext
  have hafter : d'.pass = some (pass.resumes (first.resumed (answersTrue p.host d.world
      (transferOp pass.contactId first.lineageContext first.lineageLeaseId first.queueId) t))
      rest) := by
    rw [← hnext]
  have hsends : d'.sends = d.sends := by
    rw [← hnext]
    rfl
  have hqueue : d'.queue = d.queue := by
    rw [← hnext]
    rfl
  have hreported : d'.reported = d.reported := by
    rw [← hnext]
    rfl
  refine h.pass_call (transferOp pass.contactId first.lineageContext
    first.lineageLeaseId first.queueId) hpass hrest hmeets hknown.seen ?_ (by rw [← hnext]; rfl)
    ⟨_, _, rfl, by rw [← hnext]; rfl⟩ hsends (by rw [← hnext]; rfl) hreported hqueue hafter
    ?_ ?_ ?_ ?_ ?_ ?_
  · intro id hid
    left
    rw [transferOp, Op.newId, orElse, if_neg hknown.named] at hid
    exact hid
  · intro contact copy hmem
    rw [Pass.mem_waiting] at hmem
    rw [Pass.mem_waiting, hrest]
    rcases hmem with ⟨hi, hc⟩ | hmem
    · rcases List.mem_cons.mp hi with heq | hi
      · rw [QueueItem.resumed] at heq
        split at heq
        · rw [heq]
          exact .inl (.inl ⟨List.mem_cons_self, hc⟩)
        · exact .inr ⟨hc, heq, hprepared⟩
      · exact .inl (.inl ⟨List.mem_cons_of_mem _ hi, hc⟩)
    · exact .inl (.inr hmem)
  · intro contact copy hmem
    rw [Pass.mem_unresumed] at hmem
    exact htail contact copy hmem
  · intro q hmem
    exact .inl hmem
  · intro other others _ heq
    rcases List.cons.inj heq with ⟨heq, -⟩
    rw [← heq, QueueItem.resumed]
    split <;> rfl
  · refine ⟨horder.earlier, horder.later, ?_⟩
    rcases horder.order with ⟨-, hempty⟩ | ⟨items, dropped, hread, hids⟩
    · rw [hrest] at hempty
      cases hempty
    · refine .inr ⟨items, dropped, hread, ?_⟩
      rw [hids, hrest, Pass.resumes, List.map_append, List.map_append, List.map_cons,
        List.map_cons, QueueItem.resumed]
      split <;> rfl
  · intro item hissued hcopy hmessage
    have hplain := (h.shape.message _ _ hissued).2.1
    have hmay : MayTransfer d first.queueId first.lineageLeaseId :=
      .record pass.contactId first (.read pass hpass hhead) rfl hprepared rfl
    have hrecorded : Recorded d first.queueId := by
      refine ⟨pass.contactId, first, .read pass hpass ?_, rfl⟩
      rw [Pass.mem_waiting, hrest]
      exact .inl ⟨List.mem_cons_self, rfl⟩
    have hcall := hmessage.custody.transfer h.shape.reach hknown (hmeets.meets hissued) hmay
    rw [← hcopy.lineageContext hplain hprepared] at hcall
    rcases hcall with ⟨hcustody, hkeeps, houtcome⟩
    have hkeeps' : Keeps p.host first.queueId d d' := by
      rw [← hnext]
      exact ⟨hkeeps.continuation, hkeeps.ingress⟩
    have hdelivered : ∀ held, d'.pass = some held → first.queueId ∈ held.delivered →
        Rooted p.host d' first.queueId := by
      intro held hsome hmem
      rw [hafter] at hsome
      cases hsome
      exact hkeeps'.rooted (hmessage.standing.delivered pass hpass hmem)
    have hmay' : ∀ a, MayTransfer d' first.queueId a → MayTransfer d first.queueId a := by
      rintro a (⟨later, hlater, hpresents⟩ | ⟨contact, copy, hcopy, hid, hprep, hlease⟩)
      · rw [hsends] at hlater
        exact .sender later hlater hpresents
      · refine .record contact copy ?_ hid hprep hlease
        rcases hcopy with hmem | ⟨held, hsome, hmem⟩
        · rw [hqueue] at hmem
          exact .stored hmem
        · rw [hafter] at hsome
          cases hsome
          rw [Pass.mem_unresumed] at hmem
          exact .read pass hpass (htail contact copy hmem)
    cases hanswer : answersTrue p.host d.world
        (transferOp pass.contactId first.lineageContext first.lineageLeaseId first.queueId) t with
    | true =>
        rw [hanswer] at houtcome hafter
        cases houtcome with
        | taken hreceipt =>
            constructor
            · refine hcustody.narrows ⟨?_, ?_, ?_⟩ (.of_eq (by rw [← hnext]) (by rw [← hnext]))
              · intro later hlater
                rw [hsends] at hlater
                exact ⟨later, hlater, .refl _⟩
              · rintro contact copy - (hmem | ⟨held, hsome, hmem⟩)
                · rw [hqueue] at hmem
                  exact .stored hmem
                · rw [hafter] at hsome
                  cases hsome
                  refine .read pass hpass ?_
                  rw [Pass.mem_waiting] at hmem ⊢
                  rw [hrest]
                  exact hmem
              · rintro contact copy - (hmem | ⟨held, hsome, hmem⟩)
                · rw [hqueue] at hmem
                  exact .stored hmem
                · rw [hafter] at hsome
                  cases hsome
                  rw [Pass.mem_unresumed] at hmem
                  exact .read pass hpass (htail contact copy hmem)
            · apply hmessage.standing.passes hrecorded hsends hreported hqueue hkeeps' hdelivered
              intro _ _ _ _ _ _ _ _
              rw [← hnext]
              exact hreceipt
    | false =>
        rw [hanswer] at houtcome hafter
        cases houtcome with
        | refused hreceipt hgone =>
            have hsame : ∀ a, MayTransfer d' first.queueId a → a = first.lineageLeaseId :=
              fun a ha => hmessage.custody.single a _ (hmay' a ha) hmay
            constructor
            · refine hcustody.gains (.of_eq (by rw [← hnext]) (by rw [← hnext])) ?_ ?_ ?_
              · intro _
                refine ⟨hreceipt, fun a ha => ?_⟩
                rw [hsame a ha, ← hnext]
                exact hgone
              · intro a b ha hb
                rw [hsame a ha, hsame b hb]
              · intro a ha
                rw [hsame a ha, ← hnext]
                exact hgone.1
            · apply hmessage.standing.passes hrecorded hsends hreported hqueue hkeeps' hdelivered
              intro held other others hsome _ hothers _ honly
              rw [hafter] at hsome
              cases hsome
              rcases List.cons.inj hothers with ⟨heq, -⟩
              rw [← heq] at honly
              cases honly

theorem Inv.passIngress (h : Inv p table d) (hmeets : MeetsReceipts p.host d t)
    (hpass : d.pass = some pass) (hnext : d.passIngress p table pass t = some d') :
    Inv p table d' := by
  unfold Exchange.passIngress at hnext
  split at hnext
  · cases hnext
  rename_i first rest hrest
  split at hnext <;> rename_i hready
  swap
  · cases hnext
  rw [Bool.and_eq_true, Bool.not_eq_true'] at hready
  have hnext := Option.some.inj hnext
  have horder := h.order pass hpass
  have hsends : d'.sends = d.sends := by
    rw [← hnext]
    rfl
  have hqueue : d'.queue = d.queue := by
    rw [← hnext]
    rfl
  have hreported : d'.reported = d.reported := by
    rw [← hnext]
    rfl
  obtain ⟨after, hafter, hcontact, hlater, htail, hdelivered, hresumed, hkeptOrder⟩ :
      ∃ after : Pass, d'.pass = some after ∧ after.contactId = pass.contactId ∧
        after.later = pass.later ∧ (∀ i ∈ after.rest, i ∈ pass.rest.tail) ∧
        (∀ q ∈ after.delivered, q ∈ pass.delivered ∨ q = first.queueId) ∧
        after.resumed = false ∧ PassOrder after := by
    rw [← hnext]
    refine ⟨_, rfl, ?_⟩
    split
    · refine ⟨rfl, rfl, ?_, ?_, rfl, horder.delivers hrest⟩
      · intro i hmem
        rw [hrest]
        exact hmem
      · intro q hmem
        rcases List.mem_cons.mp hmem with heq | hold
        · exact .inr heq
        · exact .inl hold
    · refine ⟨rfl, rfl, ?_, ?_, rfl, horder.breaks⟩
      · intro i hmem
        cases hmem
      · intro q hmem
        exact .inl hmem
  have hwithin : after.Within pass := Pass.within_of_tail hcontact hlater htail
  refine h.pass_call (ingressOp p table pass.contactId first) hpass hrest hmeets trivial ?_
    (by rw [← hnext]; rfl) ⟨_, _, rfl, by rw [← hnext]; rfl⟩ hsends (by rw [← hnext]; rfl)
    hreported hqueue hafter ?_ hwithin.unresumed hdelivered ?_ hkeptOrder ?_
  · intro id hid
    exact .inr hid
  · intro contact copy hmem
    exact .inl (hwithin.waiting contact copy hmem)
  · intro other others hyes
    rw [hresumed] at hyes
    cases hyes
  · intro item hissued hcopy hmessage
    have hwaits : Waits d pass.contactId first := by
      refine .read pass hpass ?_
      rw [Pass.mem_waiting, hrest]
      exact .inl ⟨List.mem_cons_self, rfl⟩
    have hcall := hmessage.custody.ingress h.shape.reach (h.shape.message _ _ hissued).2.2
      (hmeets.meets hissued) (.record pass.contactId first hwaits rfl hready.2) rfl
      hcopy.drainContext
    rcases hcall with ⟨hcustody, hkeeps, hreceipt⟩
    have hkeeps' : Keeps p.host first.queueId d d' := by
      rw [← hnext]
      exact ⟨hkeeps.continuation, hkeeps.ingress⟩
    constructor
    · refine hcustody.narrows ⟨?_, ?_, ?_⟩ (.of_eq (by rw [← hnext]) (by rw [← hnext]))
      · intro later hlater
        rw [hsends] at hlater
        exact ⟨later, hlater, .refl _⟩
      · rintro contact copy - (hmem | ⟨held, hsome, hmem⟩)
        · rw [hqueue] at hmem
          exact .stored hmem
        · rw [hafter] at hsome
          cases hsome
          exact .read pass hpass (hwithin.waiting contact copy hmem)
      · rintro contact copy - (hmem | ⟨held, hsome, hmem⟩)
        · rw [hqueue] at hmem
          exact .stored hmem
        · rw [hafter] at hsome
          cases hsome
          exact .read pass hpass (hwithin.unresumed contact copy hmem)
    · apply hmessage.standing.passes ⟨pass.contactId, first, hwaits, rfl⟩ hsends hreported hqueue
        hkeeps'
      · intro _ _ _
        right
        rw [← hnext]
        exact hreceipt
      · intro held other others hsome hyes
        rw [hafter] at hsome
        cases hsome
        rw [hresumed] at hyes
        cases hyes

end Messages
end Stemcell
