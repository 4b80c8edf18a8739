import Stemcell.Dispatch.Places

/-!
# Injected roots

A root that arrives while a run of its contact goes on is injected into that run
and completed with it.  Its lease was taken when it was queued, and nobody extends
it: the heartbeat of the run names the leases of its batch only.  This module
follows an injected root from its injection to the call that settles it.

Main results:

- Definition `Riding`: what holds of an injected root until it is settled.
- Theorem `reachable_riding`: it does hold of every injected root.
- Theorem `settled_once_iff`: whether a run that returned normally settles an
  injected root for good depends on the clock alone, unless a call raises.

Current gaps:

- A run is a stretch of time here; what its provider makes of an injected text is
  not part of this module.
-/

namespace Stemcell
namespace Dispatch

open Lib
open Maintenance (Seconds Host RootAdmission Op coordinator leaseTtlSeconds Queued Drawn
  ClaimedAt Submitted Reclaimed)

variable {host : Host} {maxActive : Nat} {a b : RootAdmission} {since : Seconds} {p : Place}
  {w w' : World} {e : Step} {op : Op} {time : Seconds}

/-- An injected root while its run goes on: it was handed out once, at `since`, and
its claim runs out ninety seconds later.  Until then nobody else has its root, and
as long as nobody else gets it the root stays queued. -/
structure Riding (host : Host) (w : World) (a : RootAdmission) (since : Seconds) : Prop where
  drawn : Drawn host w.coordinator.state.uuidsDrawn a.queueId
  rides : Maintenance.Rides w.coordinator a since
  place : ∀ p, w.dispatcher.Holds p a → p = .injected a.contactId ∨ p = .settled a.contactId
  handout : w.handed.filter (fun h => h.admission = a) = [⟨a, true, since⟩]
  sole : w.coordinator.now < since + leaseTtlSeconds →
    ∀ b ∈ w.coordinator.admissions, b.queueId = a.queueId → b = a
  waits : (∀ h ∈ w.handed, h.admission.queueId = a.queueId → h.admission = a) →
    Queued w.coordinator.state a.queueId

/-! ## The injection -/

/-- A contact whose run goes on has no roots to settle. -/
theorem not_settled_of_injected {d : Dispatcher} {c : String}
    (h : d.Holds (.injected c) a) : ¬ d.Holds (.settled c) b := by
  rintro ⟨stage, hget, hb⟩
  rcases h.2 with ⟨stage', hget', hopen⟩
  rw [hget] at hget'
  cases hget'
  cases stage <;> simp [Stage.open] at hopen <;> cases hb

theorem filter_handouts {roots : List RootAdmission} (hnodup : roots.Nodup) (ha : a ∈ roots)
    (injected : Bool) (time : Seconds) :
    (roots.map fun b => (⟨b, injected, time⟩ : Handout)).filter (fun h => h.admission = a) =
      [⟨a, injected, time⟩] := by
  induction roots with
  | nil => cases ha
  | cons b rest ih =>
      rw [List.nodup_cons] at hnodup
      rw [List.map_cons, List.filter_cons]
      rcases List.mem_cons.mp ha with heq | hrest
      · have hnone : ((rest.map fun b => (⟨b, injected, time⟩ : Handout)).filter
            fun h => h.admission = a) = [] := by
          rw [List.filter_eq_nil_iff]
          intro h hh
          rcases List.mem_map.mp hh with ⟨c, hc, hch⟩
          simp only [decide_eq_true_eq, ← hch]
          rintro rfl
          exact hnodup.1 (heq ▸ hc)
        rw [hnone]
        simp [heq]
      · have hne : b ≠ a := by
          rintro rfl
          exact hnodup.1 hrest
        rw [if_neg (by simpa using hne)]
        exact ih hnodup.2 hrest

/-- An injection starts with a root that was queued and claimed in this step. -/
theorem injected_submitted {new : List Handout} (hfollows : Follows host w w')
    (hout : HandsOut w w'.coordinator new) (ha : ⟨a, true, since⟩ ∈ new) :
    Fresh w.coordinator w'.coordinator a ∧ since = w'.coordinator.now ∧
      new.filter (fun h => h.admission = a) = [⟨a, true, since⟩] ∧
      ∃ op time, (coordinator host).step w.coordinator ⟨op, time⟩ w'.coordinator ∧
        Submitted host w.coordinator w'.coordinator op a := by
  cases hout with
  | none => cases ha
  | batch c roots _ =>
      rcases List.mem_map.mp ha with ⟨b, -, heq⟩
      cases heq
  | injected roots hnodup hnew =>
      rcases List.mem_map.mp ha with ⟨b, hb, heq⟩
      cases heq
      rcases hnew a hb with ⟨hfresh, hlive⟩
      refine ⟨hfresh, rfl, filter_handouts hnodup hb true _, ?_⟩
      rcases hfollows.calls with hsame | ⟨op, time, hmakes, hstep⟩
      · exact absurd (hsame ▸ hfresh.1) hfresh.2
      · refine ⟨op, time, hstep, ?_⟩
        rcases Maintenance.issued_step hstep hfresh.1 hfresh.2 with hsubmitted | hreclaimed
        · exact hsubmitted
        · rcases hreclaimed.call with ⟨limit, excluded, unique, hop, hexcluded⟩
          -- A replay leaves out the contacts that have a thread.
          rcases live_iff.mp hlive with ⟨batch, rest, hget⟩
          simp only at hop
          subst hop
          cases hmakes with
          | replay => exact absurd (Dict.mem_keys_of_get? _ hget) hexcluded
          | settle c op roots hop => cases hop
          | elsewhere op hforeign => exact hforeign.elim

/-- A root that was queued in this step is under an id that no admission had. -/
theorem submitted_alone (hreach : (coordinator host).Reachable w.coordinator)
    (hstep : (coordinator host).step w.coordinator ⟨op, time⟩ w'.coordinator)
    (h : Submitted host w.coordinator w'.coordinator op a) (ha : a ∈ w'.coordinator.admissions)
    (hb : b ∈ w'.coordinator.admissions) (hid : b.queueId = a.queueId) : b = a := by
  by_cases hold : b ∈ w.coordinator.admissions
  · have hseen := Maintenance.reachable_idSeen hreach b hold
    rw [hid, h.queueId] at hseen
    exact absurd (hseen _ rfl) (lt_irrefl _)
  · rcases Maintenance.issued_step hstep hb hold with hnew | hnew
    · have hreach' := hreach.step hstep
      rcases h.claimed with ⟨item, hmem, -, hnames, -⟩
      rcases hnew.claimed with ⟨item', hmem', -, hnames', -⟩
      have hsame := (Maintenance.reachable_wellFormed hreach').root_unique hmem hmem'
        (hnames.1.trans (hid.symm.trans hnames'.1.symm))
      subst hsame
      exact (Maintenance.reachable_issued hreach').eq_of_token hb ha
        (hnames'.2.1.symm.trans hnames.2.1)
    · rcases h.call with ⟨context, admitRoot, hop⟩
      rcases hnew.call with ⟨limit, excluded, unique, hop', -⟩
      rw [hop] at hop'
      cases hop'

/-- An injected root rides from the moment of its injection. -/
theorem riding_injected {new : List Handout}
    (hreach : (coordinator host).Reachable w.coordinator) (htidy : Tidy w)
    (hfollows : Follows host w w') (hhanded : w'.handed = w.handed ++ new)
    (hout : HandsOut w w'.coordinator new)
    (harrives : ∀ p a, w'.dispatcher.Holds p a → Arrives w w'.coordinator new p a)
    (ha : ⟨a, true, since⟩ ∈ new) : Riding host w' a since := by
  rcases injected_submitted hfollows hout ha with
    ⟨hfresh, hsince, hfilter, op, time, hstep, hsubmitted⟩
  have hreach' := hreach.step hstep
  have hwf' := Maintenance.reachable_wellFormed hreach'
  rcases hsubmitted.claimed with ⟨item, hmem, hclaimed, hnames, hrest⟩
  constructor
  · have hseen := hwf'.queueSeen item hmem
    rw [hnames.1, hsubmitted.queueId] at hseen
    rw [hsubmitted.queueId]
    exact Maintenance.drawn_uuid4 host (hseen _ rfl)
  · left
    rw [hsince]
    refine ⟨?_, hsubmitted.claimed⟩
    unfold leaseTtlSeconds
    linarith
  · intro p hp
    cases harrives p a hp with
    | came hcame =>
        rcases hcame with ⟨q, -, hq⟩
        exact absurd (htidy.held q a hq) hfresh.2
    | starts hwaits _ => exact absurd (htidy.held _ a hwaits) hfresh.2
    | pends _ hnot => exact absurd rfl (hnot _ ha)
    | overflows _ hnot => exact absurd rfl (hnot _ ha)
    | joins _ _ => exact .inl rfl
  · have hnone : w.handed.filter (fun h => h.admission = a) = [] := by
      rw [List.filter_eq_nil_iff]
      intro h hh heq
      exact hfresh.2 (of_decide_eq_true heq ▸ htidy.handed h hh)
    rw [hhanded, List.filter_append, hnone, List.nil_append]
    exact hfilter
  · exact fun _ b hb hid => submitted_alone hreach hstep hsubmitted hfresh.1 hb hid
  · exact fun _ => ⟨item, hmem, hnames.1⟩

/-! ## One step of the ride -/

/-- An injected root stays with its run. -/
theorem Riding.place_step {new : List Handout} (h : Riding host w a since)
    (ha : a ∈ w.coordinator.admissions)
    (harrives : ∀ p a, w'.dispatcher.Holds p a → Arrives w w'.coordinator new p a)
    (hp : w'.dispatcher.Holds p a) :
    (p = .injected a.contactId ∧ w.dispatcher.Holds (.injected a.contactId) a) ∨
      (p = .settled a.contactId ∧ ∃ q, w.dispatcher.Holds q a) := by
  cases harrives p a hp with
  | came hcame =>
      rcases hcame with ⟨q, hmove, hq⟩
      rcases h.place q hq with hinjected | hsettled
      · subst hinjected
        cases hmove with
        | stay => exact .inl ⟨rfl, hq⟩
        | take => exact .inr ⟨rfl, _, hq⟩
      · subst hsettled
        cases hmove with
        | stay => exact .inr ⟨rfl, _, hq⟩
  | starts hwaits _ =>
      rcases h.place _ hwaits with heq | heq <;> cases heq
  | pends hfresh _ => exact absurd ha hfresh.2
  | overflows hfresh _ => exact absurd ha hfresh.2
  | joins hfresh _ => exact absurd ha hfresh.2

/-- As long as an injected root is held, no step settles it or names its lease. -/
theorem Riding.spares (h : Riding host w a since) (ha : a ∈ w.coordinator.admissions)
    (hreach : (coordinator host).Reachable w.coordinator) (htidy : Tidy w)
    (hmakes : Makes w w'.dispatcher op)
    (hheld : w'.dispatcher.Holds (.injected a.contactId) a ∧
        w.dispatcher.Holds (.injected a.contactId) a ∨
      w'.dispatcher.Holds (.settled a.contactId) a) : op.Spares a := by
  have hissued := Maintenance.reachable_issued hreach
  -- What names the same root is the same admission.
  have hsame : ∀ q roots item, (∀ b ∈ roots, w.dispatcher.Holds q b) →
      Maintenance.presented roots item = true → a.Names item → w.dispatcher.Holds q a := by
    intro q roots item hroots hpresented hnames
    rcases Maintenance.names_of_presented hpresented with ⟨b, hb, hbnames⟩
    have heq := hissued.eq_of_token (htidy.held q b (hroots b hb)) ha
      (hbnames.2.1.symm.trans hnames.2.1)
    exact heq ▸ hroots b hb
  cases hmakes with
  | submit c context admitRoot => exact ⟨id, fun _ _ => ⟨id, id⟩⟩
  | replay limit => exact ⟨id, fun _ _ => ⟨id, id⟩⟩
  | giveBack roots hroots =>
      refine ⟨id, fun item hnames => ⟨id, fun hreturns => ?_⟩⟩
      rcases h.place _ (hsame _ roots item hroots hreturns hnames) with heq | heq <;> cases heq
  | beat b hb =>
      refine ⟨fun hnamed => ?_, fun _ _ => ⟨id, id⟩⟩
      rcases hb with ⟨x, hx, rfl, hbatch⟩
      have heq : x.admission = a := hissued.eq_of_lease (htidy.handed x hx) ha hnamed.symm
      have hmem : x ∈ w.handed.filter fun h => h.admission = a :=
        List.mem_filter.mpr ⟨hx, decide_eq_true heq⟩
      rw [h.handout, List.mem_singleton] at hmem
      rw [hmem] at hbatch
      cases hbatch
  | leave roots hroots =>
      refine ⟨id, fun item hnames => ⟨fun hremoves => ?_, id⟩⟩
      exact htidy.stranded a (hsame _ roots item hroots hremoves hnames)
  | settle c op roots hop hroots hgone =>
      have hnot : ∀ item, a.Names item → Maintenance.presented roots item ≠ true := by
        intro item hnames hpresented
        have hsettled := hsame _ roots item hroots hpresented hnames
        have hc : c = a.contactId := by
          rcases h.place _ hsettled with heq | heq
          · cases heq
          · cases heq
            rfl
        subst hc
        rcases hheld with ⟨-, hinjected⟩ | hstill
        · exact not_settled_of_injected hinjected hsettled
        · exact hgone a hstill
      cases op <;> simp only [Op.batch, reduceCtorEq, Option.some.injEq] at hop
      all_goals
        subst hop
        refine ⟨id, fun item hnames => ⟨?_, ?_⟩⟩
        · first | exact hnot item hnames | exact id
        · first | exact hnot item hnames | exact id
  | elsewhere op hforeign =>
      cases op with
      | heartbeat leaseId ttl =>
          exact ⟨fun hnamed => hforeign a ha hnamed, fun _ _ => ⟨id, id⟩⟩
      | release leaseId => exact ⟨fun hnamed => hforeign a ha hnamed, fun _ _ => ⟨id, id⟩⟩
      | enqueueContinuation contact context leaseId queueId =>
          exact ⟨fun hnamed => (hforeign a ha).1 hnamed, fun _ _ => ⟨id, id⟩⟩
      | completeRoots roots => exact hforeign.elim
      | retryRoots roots delay => exact hforeign.elim
      | deferRoots roots => exact hforeign.elim
      | _ => exact ⟨id, fun _ _ => ⟨id, id⟩⟩

/-- No step hands out an injected root again while it is held. -/
theorem Riding.not_handed {new : List Handout} {m : Maintenance.World}
    (h : Riding host w a since) (ha : a ∈ w.coordinator.admissions)
    (hout : HandsOut w m new) : ∀ x ∈ new, x.admission ≠ a := by
  intro x hx heq
  cases hout with
  | none => cases hx
  | batch c roots hwaits =>
      rcases List.mem_map.mp hx with ⟨b, hb, hbx⟩
      have hba : b = a := by rw [← heq, ← hbx]
      rcases h.place _ (hba ▸ hwaits b hb) with heq | heq <;> cases heq
  | injected roots _ hnew =>
      rcases List.mem_map.mp hx with ⟨b, hb, hbx⟩
      have hba : b = a := by rw [← heq, ← hbx]
      exact (hba ▸ (hnew b hb).1).2 ha

/-- Whoever removes a root from the queue was handed an admission for it. -/
theorem remover_handed (htidy : Tidy w) {d' : Dispatcher} {item : Maintenance.RootItem}
    (hmakes : Makes w d' op) (hremoves : op.removes item) :
    ∃ h ∈ w.handed, h.admission.Names item := by
  cases op <;> simp only [Op.removes] at hremoves
  rename_i roots
  rcases Maintenance.names_of_presented hremoves with ⟨b, hb, hnames⟩
  cases hmakes with
  | leave roots hroots => exact absurd (hroots b hb) (htidy.stranded b)
  | settle c op roots' hop hroots _ =>
      cases hop
      rcases htidy.settled c b (hroots b hb) with ⟨x, hx, heq⟩
      exact ⟨x, hx, heq ▸ hnames⟩
  | elsewhere op hforeign => exact hforeign.elim

/-- A root that nobody else was given stays out of the hands of others while its
claim lasts. -/
theorem Riding.sole_step (h : Riding host w a since)
    (hreach : (coordinator host).Reachable w.coordinator)
    (hstep : (coordinator host).step w.coordinator ⟨op, time⟩ w'.coordinator)
    (hlt : time < since + leaseTtlSeconds) (hb : b ∈ w'.coordinator.admissions)
    (hid : b.queueId = a.queueId) : b = a := by
  have hle : w.coordinator.now ≤ time := hstep.1
  by_cases hold : b ∈ w.coordinator.admissions
  · exact h.sole (hle.trans_lt hlt) b hold hid
  · exfalso
    rcases Maintenance.issued_step hstep hb hold with hnew | hnew
    · have hne := h.drawn.ne_uuid4 (le_refl _)
      exact hne (hnew.queueId.symm.trans hid)
    · rcases h.rides with ⟨-, hclaimed⟩ | ⟨hover, -⟩
      · refine hclaimed.not_waiting (Maintenance.reachable_wellFormed hreach) hlt ?_
        rw [← hid]
        exact hnew.waiting
      · exact absurd (hover.trans hle) (not_le.mpr hlt)

/-- An injected root that is still held rides on. -/
theorem Riding.step (h : Riding host w a since)
    (hreach : (coordinator host).Reachable w.coordinator) (htidy : Tidy w)
    (ha : a ∈ w.coordinator.admissions) (hfollows : Follows host w w')
    (hheld : w'.dispatcher.Holds p a) : Riding host w' a since := by
  rcases hfollows.hands with ⟨new, hhanded, hout, harrives⟩
  have hplace : ∀ q, w'.dispatcher.Holds q a →
      (q = .injected a.contactId ∧ w.dispatcher.Holds (.injected a.contactId) a) ∨
        (q = .settled a.contactId ∧ ∃ q, w.dispatcher.Holds q a) :=
    fun q hq => h.place_step ha harrives hq
  have hstill : w'.dispatcher.Holds (.injected a.contactId) a ∧
        w.dispatcher.Holds (.injected a.contactId) a ∨
      w'.dispatcher.Holds (.settled a.contactId) a := by
    rcases hplace p hheld with ⟨hp, hwas⟩ | ⟨hp, -⟩
    · exact .inl ⟨hp ▸ hheld, hwas⟩
    · exact .inr (hp ▸ hheld)
  have hplace' : ∀ q, w'.dispatcher.Holds q a →
      q = .injected a.contactId ∨ q = .settled a.contactId := by
    intro q hq
    rcases hplace q hq with ⟨hq, -⟩ | ⟨hq, -⟩
    · exact .inl hq
    · exact .inr hq
  have hhandout : w'.handed.filter (fun h => h.admission = a) = [⟨a, true, since⟩] := by
    have hnone : new.filter (fun h => h.admission = a) = [] := by
      rw [List.filter_eq_nil_iff]
      exact fun x hx heq => h.not_handed ha hout x hx (of_decide_eq_true heq)
    rw [hhanded, List.filter_append, h.handout, hnone, List.append_nil]
  have hothers : (∀ x ∈ w'.handed, x.admission.queueId = a.queueId → x.admission = a) →
      ∀ x ∈ w.handed, x.admission.queueId = a.queueId → x.admission = a :=
    fun hall x hx => hall x (hhanded ▸ List.mem_append_left _ hx)
  rcases hfollows.calls with heq | ⟨op, time, hmakes, hstep⟩
  · exact ⟨heq ▸ h.drawn, heq ▸ h.rides, hplace', hhandout, heq ▸ h.sole,
      fun hall => heq ▸ h.waits (hothers hall)⟩
  · have hspares := h.spares ha hreach htidy hmakes hstill
    have hnow : w'.coordinator.now = time := by
      rw [hstep.2.2, Maintenance.World.after_now]
    refine ⟨h.drawn.mono (Maintenance.step_uuidsDrawn hreach hstep),
      Maintenance.rides_step hreach ha hspares hstep h.rides, hplace', hhandout, ?_, ?_⟩
    · intro hlt b hb hid
      exact h.sole_step hreach hstep (hnow ▸ hlt) hb hid
    · intro hall
      refine Maintenance.queued_kept hreach hstep ?_ (h.waits (hothers hall))
      intro item hid hremoves
      rcases remover_handed htidy hmakes hremoves with ⟨x, hx, hnames⟩
      have hxa := hothers hall x hx (hnames.1.symm.trans hid)
      exact (hspares.root item (hxa ▸ hnames)).1 hremoves

/-- Every injected root that is still held rides. -/
theorem reachable_riding (hreach : (dispatching host maxActive).Reachable w)
    (ha : ⟨a, true, since⟩ ∈ w.handed) (hheld : w.dispatcher.Holds p a) :
    Riding host w a since := by
  suffices hall : ∀ a since, ⟨a, true, since⟩ ∈ w.handed → (∃ p, w.dispatcher.Holds p a) →
      Riding host w a since from hall a since ha ⟨p, hheld⟩
  refine hreach.invariant (I := fun w => ∀ a since, ⟨a, true, since⟩ ∈ w.handed →
    (∃ p, w.dispatcher.Holds p a) → Riding host w a since) ?_ ?_
  · rintro _ ⟨t, rfl⟩ a since ha
    cases ha
  · rintro w e w' hreach hriding hstep a since ha ⟨p, hheld⟩
    have hcoordinator := reachable_coordinator hreach
    have hfollows := step_follows hcoordinator hstep
    have htidy := reachable_tidy hreach
    rcases hfollows.hands with ⟨new, hhanded, hout, harrives⟩
    rw [hhanded] at ha
    rcases List.mem_append.mp ha with hold | hnew
    · have hissued := htidy.handed _ hold
      have hwas : ∃ q, w.dispatcher.Holds q a := by
        cases harrives p a hheld with
        | came hcame =>
            rcases hcame with ⟨q, -, hq⟩
            exact ⟨q, hq⟩
        | starts hwaits _ => exact ⟨_, hwaits⟩
        | pends hfresh _ => exact absurd hissued hfresh.2
        | overflows hfresh _ => exact absurd hissued hfresh.2
        | joins hfresh _ => exact absurd hissued hfresh.2
      exact (hriding a since hold hwas).step hcoordinator htidy hissued hfollows hheld
    · exact riding_injected hcoordinator htidy hfollows hhanded hout harrives hnew

/-! ## After the run -/

/-- A root that has left the queue for good: it was handed out once, nobody holds it
and nobody else has an admission for it. -/
structure Done (host : Host) (w : World) (a : RootAdmission) (since : Seconds) : Prop where
  drawn : Drawn host w.coordinator.state.uuidsDrawn a.queueId
  gone : ¬ Queued w.coordinator.state a.queueId
  issued : a ∈ w.coordinator.admissions
  sole : ∀ b ∈ w.coordinator.admissions, b.queueId = a.queueId → b = a
  held : ∀ p, ¬ w.dispatcher.Holds p a
  handout : w.handed.filter (fun h => h.admission.queueId = a.queueId) = [⟨a, true, since⟩]

/-- Nobody but the dispatcher queues a root under an id the coordinator has drawn. -/
theorem Makes.not_newId {d' : Dispatcher} (hmakes : Makes w d' op)
    (hdrawn : Drawn host w.coordinator.state.uuidsDrawn a.queueId)
    (ha : a ∈ w.coordinator.admissions) :
    ¬ op.newId host w.coordinator.state.uuidsDrawn a.queueId := by
  intro hnew
  cases op with
  | enqueueRoot contact context admitRoot => exact hdrawn.ne_uuid4 (le_refl _) hnew.symm
  | enqueueIngressRoot contact context ingressId =>
      rcases hdrawn with ⟨k, -, hk⟩
      exact Nat.not_lt_zero k
        (Maintenance.seen_ingressQueueId host 0 ingressId k (hk.trans hnew))
  | enqueueContinuation contact context leaseId queueId =>
      have hnew' : a.queueId = Maintenance.orElse queueId
        (host.uuid4 w.coordinator.state.uuidsDrawn) := hnew
      rw [Maintenance.orElse] at hnew'
      split at hnew'
      · exact hdrawn.ne_uuid4 (le_refl _) hnew'.symm
      · cases hmakes with
        | settle c op roots hop => cases hop
        | elsewhere op hforeign => exact (hforeign a ha).2 hnew'
  | _ => exact hnew

theorem Done.step (h : Done host w a since)
    (hreach : (coordinator host).Reachable w.coordinator) (htidy : Tidy w)
    (hfollows : Follows host w w') : Done host w' a since := by
  rcases hfollows.hands with ⟨new, hhanded, hout, harrives⟩
  have hsole : ∀ b ∈ w'.coordinator.admissions, b.queueId = a.queueId → b = a := by
    intro b hb hid
    rcases hfollows.calls with heq | ⟨op, time, hmakes, hstep⟩
    · exact h.sole b (heq ▸ hb) hid
    · by_cases hold : b ∈ w.coordinator.admissions
      · exact h.sole b hold hid
      · exfalso
        rcases Maintenance.issued_step hstep hb hold with hnew | hnew
        · exact h.drawn.ne_uuid4 (le_refl _) (hnew.queueId.symm.trans hid)
        · rcases hnew.waiting with ⟨item, hmem, -, hitem⟩
          exact h.gone ((Maintenance.queued_prune time).mp ⟨item, hmem, hitem.trans hid⟩)
  have hnone : ∀ x ∈ new, x.admission.queueId ≠ a.queueId := by
    intro x hx hid
    have hissued : x.admission ∈ w'.coordinator.admissions := by
      rcases hout.issued htidy x hx with hold | hfresh
      · exact hfollows.issued hold
      · exact hfresh.1
    have hxa := hsole _ hissued hid
    cases hout with
    | none => cases hx
    | batch c roots hwaits =>
        rcases List.mem_map.mp hx with ⟨b, hb, hbx⟩
        have hba : b = a := by rw [← hxa, ← hbx]
        exact h.held _ (hba ▸ hwaits b hb)
    | injected roots _ hnew =>
        rcases List.mem_map.mp hx with ⟨b, hb, hbx⟩
        have hba : b = a := by rw [← hxa, ← hbx]
        exact (hba ▸ (hnew b hb).1).2 h.issued
  constructor
  · rcases hfollows.calls with heq | ⟨op, time, hmakes, hstep⟩
    · exact heq ▸ h.drawn
    · exact h.drawn.mono (Maintenance.step_uuidsDrawn hreach hstep)
  · rcases hfollows.calls with heq | ⟨op, time, hmakes, hstep⟩
    · exact heq ▸ h.gone
    · exact Maintenance.queued_stays_out hreach hstep (hmakes.not_newId h.drawn h.issued) h.gone
  · exact hfollows.issued h.issued
  · exact hsole
  · intro p hp
    cases harrives p a hp with
    | came hcame =>
        rcases hcame with ⟨q, -, hq⟩
        exact h.held q hq
    | starts hwaits _ => exact h.held _ hwaits
    | pends hfresh _ => exact hfresh.2 h.issued
    | overflows hfresh _ => exact hfresh.2 h.issued
    | joins hfresh _ => exact hfresh.2 h.issued
  · have hfilter : new.filter (fun h => h.admission.queueId = a.queueId) = [] := by
      rw [List.filter_eq_nil_iff]
      exact fun x hx hid => hnone x hx (of_decide_eq_true hid)
    rw [hhanded, List.filter_append, h.handout, hfilter, List.append_nil]

theorem Done.run {es : List Step} (h : Done host w a since)
    (hreach : (dispatching host maxActive).Reachable w)
    (hrun : (dispatching host maxActive).Run w es w') : Done host w' a since := by
  refine hrun.invariant (I := fun v => Done host v a since) hreach ?_ h
  intro v e v' hv hdone hstep
  have hcoordinator := reachable_coordinator hv
  exact hdone.step hcoordinator (reachable_tidy hv) (step_follows hcoordinator hstep)

/-! ## The law -/

/-- From here on the root is out of the queue, and the injection at `since` remains
the only time it was handed to a run. -/
def RunsOnce (host : Host) (maxActive : Nat) (w : World) (a : RootAdmission)
    (since : Seconds) : Prop :=
  ∀ es w', (dispatching host maxActive).Run w es w' →
    ¬ Queued w'.coordinator.state a.queueId ∧
      w'.handed.filter (fun h => h.admission.queueId = a.queueId) = [⟨a, true, since⟩]

/-- The step at which a thread settles an injected root after a run that returned
normally, or fails to. -/
inductive Decides (d : Dispatcher) (a : RootAdmission) : Step → Prop
  | review {c : String} {batch : List RootAdmission} {rest : List (List RootAdmission)}
      (hstage : d.threads.get? c = some (.returned batch rest)) (ha : a ∈ d.injectedOf c) :
      Decides d a (.thread c (.review true))
  | complete {c : String} {settled : List RootAdmission} {rest : List (List RootAdmission)}
      (time : Seconds) (raises : Bool)
      (hstage : d.threads.get? c = some (.completing settled rest)) (ha : a ∈ settled) :
      Decides d a (.thread c (.complete time raises))

/-- What is left of the queue when roots are completed. -/
theorem queued_complete (host : Host) {roots : List RootAdmission} {queueId : String}
    (w : Maintenance.World) (time : Seconds) :
    Queued (w.after host (.completeRoots roots) time).state queueId ↔
      ∃ item ∈ (Maintenance.prune w.state time).rootQueue, item.queueId = queueId ∧
        ¬ Maintenance.presented roots item = true := by
  have hcall : Maintenance.call host (.completeRoots roots) w.state time = .ok (.done, _) := rfl
  rw [Maintenance.World.after_ok hcall]
  simp only [Queued, List.mem_filter, decide_eq_true_eq]
  constructor
  · rintro ⟨item, ⟨hmem, hnot⟩, hid⟩
    exact ⟨item, hmem, hid, hnot⟩
  · rintro ⟨item, hmem, hid, hnot⟩
    exact ⟨item, ⟨hmem, hnot⟩, hid⟩

/-- Completed in time, an injected root is done. -/
theorem completed_done {c : String} {settled : List RootAdmission}
    {rest : List (List RootAdmission)} (hreach : (dispatching host maxActive).Reachable w)
    (hin : ⟨a, true, since⟩ ∈ w.handed)
    (hstage : w.dispatcher.threads.get? c = some (.completing settled rest))
    (ha : a ∈ settled) (hlt : time < since + leaseTtlSeconds)
    (hstep : (dispatching host maxActive).step w (.thread c (.complete time false)) w') :
    Done host w' a since := by
  have hheld : w.dispatcher.Holds (.settled c) a := ⟨_, hstage, ha⟩
  have hriding := reachable_riding hreach hin hheld
  have htidy := reachable_tidy hreach
  have hcoordinator := reachable_coordinator hreach
  have hissued := htidy.handed _ hin
  have hle : w.coordinator.now ≤ time := hstep.2.1 time rfl
  have hcall : (coordinator host).step w.coordinator ⟨.completeRoots settled, time⟩
      (w.callAt host (.completeRoots settled) time).coordinator := callAt_step hle trivial
  have hw' : w' = (w.callAt host (.completeRoots settled) time).moveTo c
      (.releasing settled.length rest) := by
    have hnext := hstep.1
    simp only [World.next, hstage, World.threadNext] at hnext
    exact (Option.some.inj hnext).symm
  have hclaimed : ClaimedAt w.coordinator.state a since := by
    rcases hriding.rides with ⟨-, hclaimed⟩ | ⟨hover, -⟩
    · exact hclaimed
    · exact absurd (hover.trans hle) (not_le.mpr hlt)
  have hsole := hriding.sole (hle.trans_lt hlt)
  have hwf := Maintenance.reachable_wellFormed hcoordinator
  refine ⟨?_, ?_, ?_, ?_, ?_, ?_⟩
  · rw [hw']
    exact hriding.drawn.mono (Maintenance.step_uuidsDrawn hcoordinator hcall)
  · rw [hw']
    refine mt (queued_complete host w.coordinator time).mp ?_
    rintro ⟨item, hmem, hid, hnot⟩
    rcases Maintenance.claimedAt_effects hwf (Maintenance.read_spares a) hlt
      (Maintenance.prune_effects host _ time) hclaimed with ⟨other, hother, -, hnames, -⟩
    have hsame := (hwf.prune time).root_unique hmem hother (hid.trans hnames.1.symm)
    refine hnot (Maintenance.presented_of_names ha ?_ (hsame ▸ hnames))
    exact fun b hb => hsole b (htidy.held (.settled c) b ⟨_, hstage, hb⟩)
  · rw [hw']
    exact Maintenance.step_admissions hcall hissued
  · rw [hw']
    intro b hb
    have hcompleted : (coordinator host).step w.coordinator ⟨.completeRoots settled, time⟩
        (w.callAt host (.completeRoots settled) time).coordinator := hcall
    exact hriding.sole_step hcoordinator hcompleted hlt hb
  · intro p hp
    rcases (step_follows hcoordinator hstep).hands with ⟨new, -, -, harrives⟩
    have hc : c = a.contactId := by
      rcases hriding.place _ hheld with heq | heq
      · cases heq
      · cases heq
        rfl
    rcases hriding.place_step hissued harrives hp with ⟨-, hinjected⟩ | ⟨rfl, -⟩
    · exact not_settled_of_injected hinjected (hc ▸ hheld)
    · rcases hp with ⟨stage, hget, hmem⟩
      rw [hw', ← hc] at hget
      have hget' := (Dict.get?_set_self w.dispatcher.threads c _).symm.trans hget
      cases hget'
      cases hmem
  · have hhanded : w'.handed = w.handed := by
      rw [hw']
      rfl
    rw [hhanded, ← hriding.handout]
    refine List.filter_congr fun x hx => ?_
    rw [decide_eq_decide]
    exact ⟨hsole _ (htidy.handed x hx), fun heq => heq ▸ rfl⟩

/-- A root that nobody else was given stays queued when it is completed too late. -/
theorem completed_late {c : String} {settled : List RootAdmission}
    {rest : List (List RootAdmission)} (hreach : (dispatching host maxActive).Reachable w)
    (hin : ⟨a, true, since⟩ ∈ w.handed)
    (hstage : w.dispatcher.threads.get? c = some (.completing settled rest))
    (ha : a ∈ settled) (hle : w.coordinator.now ≤ time)
    (hlate : since + leaseTtlSeconds ≤ time)
    (halone : ∀ h ∈ w.handed, h.admission.queueId = a.queueId → h.admission = a) :
    Queued (w.coordinator.after host (.completeRoots settled) time).state a.queueId := by
  have hriding := reachable_riding hreach hin (p := .settled c) ⟨_, hstage, ha⟩
  have htidy := reachable_tidy hreach
  have hcoordinator := reachable_coordinator hreach
  have hstale : ¬ Maintenance.Current w.coordinator.state time a := by
    rcases hriding.rides with ⟨-, hclaimed⟩ | ⟨-, hstale⟩
    · rw [hclaimed.current_iff (Maintenance.reachable_wellFormed hcoordinator)]
      exact not_lt.mpr hlate
    · exact fun hcurrent => hstale (hcurrent.anti hle)
  rcases (Maintenance.queued_prune time).mpr (hriding.waits halone) with ⟨item, hmem, hid⟩
  refine (queued_complete host w.coordinator time).mpr ⟨item, hmem, hid, fun hpresented => ?_⟩
  rcases Maintenance.names_of_presented hpresented with ⟨b, hb, hnames⟩
  rcases htidy.settled c b ⟨_, hstage, hb⟩ with ⟨x, hx, rfl⟩
  have hxa := halone x hx (hnames.1.symm.trans hid)
  exact Maintenance.stale_names hcoordinator (htidy.handed _ hin) hstale hmem (hxa ▸ hnames)

/-- A root was injected into a run and the run has returned normally.  The root is
settled for good exactly if the call that completes it is reached, does not raise
and comes less than ninety seconds after the injection. -/
theorem settled_once_iff (hreach : (dispatching host maxActive).Reachable w)
    (hin : ⟨a, true, since⟩ ∈ w.handed) (hdecides : Decides w.dispatcher a e)
    (hstep : (dispatching host maxActive).step w e w') :
    RunsOnce host maxActive w' a since ↔
      ∃ c time, e = .thread c (.complete time false) ∧ time < since + leaseTtlSeconds := by
  have hreach' := hreach.step hstep
  constructor
  · intro honce
    have hnow := honce [] w' (.nil w')
    -- Nothing is removed where the call that completes the roots is not made.
    have hwaits : ∀ p, w.dispatcher.Holds p a → w'.coordinator = w.coordinator →
        w'.handed = w.handed → False := by
      intro p hheld hsame hhanded
      have hriding := reachable_riding hreach hin hheld
      refine hnow.1 (hsame ▸ hriding.waits fun x hx hid => ?_)
      have hmem : x ∈ w'.handed.filter fun h => h.admission.queueId = a.queueId :=
        List.mem_filter.mpr ⟨hhanded ▸ hx, decide_eq_true hid⟩
      rw [hnow.2, List.mem_singleton] at hmem
      rw [hmem]
    cases hdecides with
    | @review c batch rest hstage ha =>
        have hnext := hstep.1
        simp only [World.next, hstage, World.threadNext, Option.some.injEq] at hnext
        exact (hwaits (.injected c) ⟨ha, _, hstage, rfl⟩ (hnext ▸ rfl) (hnext ▸ rfl)).elim
    | @complete c settled rest time raises hstage ha =>
        have hnext := hstep.1
        cases raises with
        | true =>
            simp only [World.next, hstage, World.threadNext, Option.some.injEq] at hnext
            exact (hwaits (.settled c) ⟨_, hstage, ha⟩ (hnext ▸ rfl) (hnext ▸ rfl)).elim
        | false =>
            refine ⟨c, time, rfl, ?_⟩
            by_contra hlate
            simp only [World.next, hstage, World.threadNext, Option.some.injEq] at hnext
            refine hnow.1 ?_
            rw [← hnext]
            refine completed_late hreach hin hstage ha (hstep.2.1 time rfl)
              (not_lt.mp hlate) fun x hx hid => ?_
            have hmem : x ∈ w'.handed.filter fun h => h.admission.queueId = a.queueId :=
              List.mem_filter.mpr ⟨hnext ▸ hx, decide_eq_true hid⟩
            rw [hnow.2, List.mem_singleton] at hmem
            rw [hmem]
  · rintro ⟨c, time, rfl, hlt⟩ es w'' hrun
    cases hdecides with
    | complete _ _ hstage ha =>
        have hdone := completed_done hreach hin hstage ha hlt hstep
        have hend := hdone.run hreach' hrun
        exact ⟨hend.gone, hend.handout⟩

/-! ## A message into a live run -/

/-- The admission of a first message. -/
def helloRoot : RootAdmission where
  queueId := "a"
  claimToken := "aa"
  contactId := "c1"
  context := "hello"
  activity := ⟨"aaa", "aaa", 0, "manager_root", ""⟩

/-- The admission of a message that is injected into its run. -/
def againRoot : RootAdmission where
  queueId := "aaaa"
  claimToken := "aaaaa"
  contactId := "c1"
  context := "again"
  activity := ⟨"aaaaaa", "aaaaaa", 0, "manager_root", ""⟩

/-- A contact writes, and writes again into the run.  The heartbeat of the run beats
at these times, and the run returns normally. -/
def secondMessage (beats : List Seconds) : List Step :=
  [.submit "c1" "hello" false 0, .thread "c1" .pop, .thread "c1" .nextBatch,
    .submit "c1" "again" true 1] ++ beats.map (.beat helloRoot) ++
    [.thread "c1" (.finish false), .thread "c1" (.review false)]

/-- The world in which both messages are about to be completed. -/
def accounted (beats : List Seconds) : World :=
  (World.play Maintenance.countingHost 16 (secondMessage beats) (.initial 0)).getD (.initial 0)

theorem accounted_reachable {beats : List Seconds}
    (hplay : (World.play Maintenance.countingHost 16 (secondMessage beats)
      (.initial 0)).isSome = true) :
    (dispatching Maintenance.countingHost 16).Reachable (accounted beats) := by
  rcases Option.isSome_iff_exists.mp hplay with ⟨w, hw⟩
  rw [accounted, hw, Option.getD_some]
  refine play_reachable (.init ⟨0, rfl⟩) ?_ hw
  rintro e he op time rfl
  simp [secondMessage] at he

/-- The completion of both messages. -/
theorem complete_step {settled : List RootAdmission}
    (hstage : w.dispatcher.threads.get? "c1" = some (.completing settled []))
    (hle : w.coordinator.now ≤ time) :
    (dispatching host maxActive).step w (.thread "c1" (.complete time false))
      ((w.callAt host (.completeRoots settled) time).moveTo "c1"
        (.releasing settled.length [])) := by
  refine ⟨?_, ?_, nofun⟩
  · simp only [World.next, hstage, World.threadNext]
  · intro t ht
    cases ht
    exact hle

/-- Completed sixty seconds later, the injected message is settled for good. -/
theorem settled_once_iff_in_time :
    ∃ w', RunsOnce Maintenance.countingHost 16 w' againRoot 1 := by
  have hstage : (accounted [31]).dispatcher.threads.get? "c1" =
      some (.completing [helloRoot, againRoot] []) := by decide +kernel
  exact ⟨_, (settled_once_iff (@accounted_reachable [31] (by decide +kernel))
    (by decide +kernel) (.complete 61 false hstage (by simp))
    (complete_step hstage (by decide +kernel))).mpr
    ⟨"c1", 61, rfl, by unfold leaseTtlSeconds; norm_num⟩⟩

/-- A run of three minutes outlives the lease of an injected message, while its own
lease is renewed: the message is completed with it, and still queued for another
run. -/
theorem injected_message_queued_again :
    ¬ ∀ w, (dispatching Maintenance.countingHost 16).Reachable w → ∀ a since e w',
      ⟨a, true, since⟩ ∈ w.handed → Decides w.dispatcher a e →
        (dispatching Maintenance.countingHost 16).step w e w' →
          RunsOnce Maintenance.countingHost 16 w' a since := by
  intro hclaim
  have hstage : (accounted [30, 60, 90, 120, 150]).dispatcher.threads.get? "c1" =
      some (.completing [helloRoot, againRoot] []) := by decide +kernel
  have honce := hclaim _ (@accounted_reachable [30, 60, 90, 120, 150] (by decide +kernel)) againRoot 1 _ _ (by decide +kernel)
    (.complete 180 false hstage (by simp)) (complete_step hstage (by decide +kernel))
  refine (honce [] _ (.nil _)).1 ?_
  unfold Queued
  decide +kernel

end Dispatch
end Stemcell
