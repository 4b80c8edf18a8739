import Stemcell.Dispatch.Dispatcher

/-!
# Where admissions are held

Every admission the dispatcher was given sits in one of its lists: it waits for
its thread or for its batch, it belongs to the batch of a run, it was injected, it
is about to be settled or about to be given back.  This module says how one step
moves the admissions between these places, which ones it hands to a run and which
call it makes of the coordinator.

Main results:

- Definition `Follows`: the call a step makes, the roots it hands to a run, and
  where the admissions come from that are held after it.
- Theorem `step_follows`: every step does only that.
- Theorem `reachable_tidy`: the places are in order in every reachable world.
-/

namespace Stemcell
namespace Dispatch

open Lib
open Maintenance (Seconds Host RootAdmission Op Reply coordinator)

/-- A list of the dispatcher that holds admissions.  Injected admissions are `lost`
where no run of their contact is left to account for them. -/
inductive Place
  | pending (contactId : String)
  | injected (contactId : String)
  | lost (contactId : String)
  | waiting (contactId : String)
  | batch (contactId : String)
  | settled (contactId : String)
  | overflow
  | stranded

/-- A run of this contact goes on or is to be accounted for. -/
def Dispatcher.OpenAt (d : Dispatcher) (c : String) : Prop :=
  ∃ stage, d.threads.get? c = some stage ∧ stage.open = true

/-- The dispatcher holds the admission in this place. -/
def Dispatcher.Holds (d : Dispatcher) : Place → RootAdmission → Prop
  | .pending c, a => a ∈ d.pendingOf c
  | .injected c, a => a ∈ d.injectedOf c ∧ d.OpenAt c
  | .lost c, a => a ∈ d.injectedOf c ∧ ¬ d.OpenAt c
  | .waiting c, a => ∃ stage, d.threads.get? c = some stage ∧ ∃ batch ∈ stage.waiting, a ∈ batch
  | .batch c, a => ∃ stage, d.threads.get? c = some stage ∧ a ∈ stage.batch
  | .settled c, a => ∃ stage, d.threads.get? c = some stage ∧ a ∈ stage.settled
  | .overflow, a => ∃ roots ∈ d.overflow, a ∈ roots
  | .stranded, a => ∃ roots ∈ d.stranded, a ∈ roots

/-- Where a step may move an admission. -/
inductive Moves : Place → Place → Prop
  | stay (p : Place) : Moves p p
  | pop (c : String) : Moves (.pending c) (.waiting c)
  | settle (c : String) : Moves (.batch c) (.settled c)
  | take (c : String) : Moves (.injected c) (.settled c)
  | find (c : String) : Moves (.lost c) (.injected c)
  | strand (c : String) : Moves (.lost c) .stranded

/-- A step of this dispatcher may put the admission into this place. -/
def Dispatcher.Came (d : Dispatcher) (p : Place) (a : RootAdmission) : Prop :=
  ∃ q, Moves q p ∧ d.Holds q a

/-- The admission is handed out by the coordinator in this step. -/
def Fresh (m m' : Maintenance.World) (a : RootAdmission) : Prop :=
  a ∈ m'.admissions ∧ a ∉ m.admissions

variable {host : Host} {maxActive : Nat} {d : Dispatcher} {a b : RootAdmission} {c : String}
  {p : Place} {w w' : World} {e : Step}

/-! ## The lists of the dispatcher -/

theorem pendingOf_set (d : Dispatcher) (k c : String) (roots : List RootAdmission) :
    ({ d with pending := d.pending.set k roots } : Dispatcher).pendingOf c =
      if k = c then roots else d.pendingOf c := by
  simp only [Dispatcher.pendingOf, Dict.get?_set]
  split <;> rfl

theorem injectedOf_set (d : Dispatcher) (k c : String) (roots : List RootAdmission) :
    ({ d with injected := d.injected.set k roots } : Dispatcher).injectedOf c =
      if k = c then roots else d.injectedOf c := by
  simp only [Dispatcher.injectedOf, Dict.get?_set]
  split <;> rfl

theorem injectedOf_drop (d : Dispatcher) (k c : String) :
    (d.dropInjected k).injectedOf c = if k = c then [] else d.injectedOf c := by
  simp only [Dispatcher.injectedOf, Dispatcher.dropInjected, Dict.get?_pop]
  split <;> rfl

theorem live_iff : d.live c = true ↔
    ∃ batch rest, d.threads.get? c = some (.running batch rest) := by
  unfold Dispatcher.live
  split <;> rename_i h
  · simp [h]
  · constructor
    · intro hfalse
      cases hfalse
    · rintro ⟨batch, rest, hget⟩
      exact absurd hget (h batch rest)

theorem openAt_moveTo {stage : Stage} {k : String} :
    (d.moveTo c stage).OpenAt k ↔ if c = k then stage.open = true else d.OpenAt k := by
  unfold Dispatcher.OpenAt Dispatcher.moveTo
  rw [Dict.get?_set]
  split <;> rename_i hk <;> simp

/-- A thread that moves on holds what its new stage holds; nothing else moves, but
where a run opens, what was lost is found. -/
theorem holds_moveTo {old stage : Stage} (hget : d.threads.get? c = some old)
    (hopen : old.open = true → stage.open = true) (h : (d.moveTo c stage).Holds p a) :
    d.Holds p a ∨ (p = .injected c ∧ old.open = false ∧ stage.open = true ∧ d.Holds (.lost c) a) ∨
      p = .waiting c ∧ (∃ batch ∈ stage.waiting, a ∈ batch) ∨
      p = .batch c ∧ a ∈ stage.batch ∨ p = .settled c ∧ a ∈ stage.settled := by
  have hnew : ∀ k, (d.moveTo c stage).threads.get? k =
      if c = k then some stage else d.threads.get? k := fun k => Dict.get?_set _ _ _ _
  have hold : d.OpenAt c ↔ old.open = true := by
    rw [Dispatcher.OpenAt, hget]
    simp
  cases p with
  | injected k =>
      rcases h with ⟨hmem, hopened⟩
      rw [openAt_moveTo] at hopened
      split at hopened <;> rename_i hk
      · subst hk
        cases hwas : old.open with
        | true => exact .inl ⟨hmem, hold.mpr hwas⟩
        | false =>
            refine .inr (.inl ⟨rfl, rfl, hopened, hmem, ?_⟩)
            rw [hold, hwas]
            nofun
      · exact .inl ⟨hmem, hopened⟩
  | lost k =>
      rcases h with ⟨hmem, hclosed⟩
      rw [openAt_moveTo] at hclosed
      split at hclosed <;> rename_i hk
      · subst hk
        exact .inl ⟨hmem, fun hwas => hclosed (hopen (hold.mp hwas))⟩
      · exact .inl ⟨hmem, hclosed⟩
  | waiting k =>
      rcases h with ⟨stage', hget', hmem⟩
      rw [hnew] at hget'
      split at hget' <;> rename_i hk
      · cases hget'
        exact .inr (.inr (.inl ⟨hk ▸ rfl, hmem⟩))
      · exact .inl ⟨stage', hget', hmem⟩
  | batch k =>
      rcases h with ⟨stage', hget', hmem⟩
      rw [hnew] at hget'
      split at hget' <;> rename_i hk
      · cases hget'
        exact .inr (.inr (.inr (.inl ⟨hk ▸ rfl, hmem⟩)))
      · exact .inl ⟨stage', hget', hmem⟩
  | settled k =>
      rcases h with ⟨stage', hget', hmem⟩
      rw [hnew] at hget'
      split at hget' <;> rename_i hk
      · cases hget'
        exact .inr (.inr (.inr (.inr ⟨hk ▸ rfl, hmem⟩)))
      · exact .inl ⟨stage', hget', hmem⟩
  | _ => exact .inl h

/-- A thread moves on and holds nothing it did not hold in that place. -/
theorem holds_stage {old stage : Stage} (hget : d.threads.get? c = some old)
    (hopen : old.open = stage.open) (hwaiting : ∀ batch ∈ stage.waiting, batch ∈ old.waiting)
    (hbatch : ∀ b ∈ stage.batch, b ∈ old.batch) (hsettled : ∀ b ∈ stage.settled, b ∈ old.settled)
    (h : (d.moveTo c stage).Holds p a) : d.Holds p a := by
  rcases holds_moveTo hget (fun hold => hopen ▸ hold) h with
    hold | ⟨-, hold, hnew, -⟩ | ⟨hp, batch, hmem, ha⟩ | ⟨hp, ha⟩ | ⟨hp, ha⟩
  · exact hold
  · rw [← hopen, hold] at hnew
    cases hnew
  · exact hp ▸ ⟨old, hget, batch, hwaiting batch hmem, ha⟩
  · exact hp ▸ ⟨old, hget, hbatch a ha⟩
  · exact hp ▸ ⟨old, hget, hsettled a ha⟩

theorem openAt_drop {k : String} : (d.dropInjected c).OpenAt k ↔ d.OpenAt k :=
  Iff.rfl

/-- What was injected is dropped; nothing else moves. -/
theorem holds_drop (h : (d.dropInjected c).Holds p a) :
    d.Holds p a ∧ p ≠ .injected c ∧ p ≠ .lost c := by
  cases p with
  | injected k =>
      rcases h with ⟨hmem, hopened⟩
      rw [injectedOf_drop] at hmem
      split at hmem <;> rename_i hk
      · cases hmem
      · refine ⟨⟨hmem, hopened⟩, ?_, nofun⟩
        rintro ⟨rfl⟩
        exact hk rfl
  | lost k =>
      rcases h with ⟨hmem, hclosed⟩
      rw [injectedOf_drop] at hmem
      split at hmem <;> rename_i hk
      · cases hmem
      · refine ⟨⟨hmem, hclosed⟩, nofun, ?_⟩
        rintro ⟨rfl⟩
        exact hk rfl
  | _ => exact ⟨h, nofun, nofun⟩

/-- A run is accounted for with what was injected into it. -/
theorem moves_take {old stage : Stage} (hget : d.threads.get? c = some old)
    (hopen : old.open = true) (hwaiting : ∀ batch ∈ stage.waiting, batch ∈ old.waiting)
    (hbatch : stage.batch = []) (hsettled : stage.settled = old.batch ++ d.injectedOf c)
    (h : ((d.dropInjected c).moveTo c stage).Holds p a) : d.Came p a := by
  have hold : ∀ k, ((d.dropInjected c).moveTo c stage).threads.get? k =
      if c = k then some stage else d.threads.get? k := fun k => Dict.get?_set _ _ _ _
  have hopened : ∀ k, c ≠ k →
      (((d.dropInjected c).moveTo c stage).OpenAt k ↔ d.OpenAt k) := by
    intro k hk
    rw [openAt_moveTo, if_neg hk, openAt_drop]
  have hinjected : ∀ k, a ∈ ((d.dropInjected c).moveTo c stage).injectedOf k →
      c ≠ k ∧ a ∈ d.injectedOf k := by
    intro k hmem
    have hmem' : a ∈ (d.dropInjected c).injectedOf k := hmem
    rw [injectedOf_drop] at hmem'
    split at hmem' <;> rename_i hk
    · cases hmem'
    · exact ⟨hk, hmem'⟩
  cases p with
  | injected k =>
      rcases h with ⟨hmem, hk⟩
      rcases hinjected k hmem with ⟨hne, hmem⟩
      exact ⟨_, .stay _, hmem, (hopened k hne).mp hk⟩
  | lost k =>
      rcases h with ⟨hmem, hk⟩
      rcases hinjected k hmem with ⟨hne, hmem⟩
      exact ⟨_, .stay _, hmem, fun hwas => hk ((hopened k hne).mpr hwas)⟩
  | waiting k =>
      rcases h with ⟨stage', hget', batch, hmem, ha⟩
      rw [hold] at hget'
      split at hget' <;> rename_i hk
      · cases hget'
        exact ⟨_, .stay _, old, hk ▸ hget, batch, hwaiting batch hmem, ha⟩
      · exact ⟨_, .stay _, stage', hget', batch, hmem, ha⟩
  | batch k =>
      rcases h with ⟨stage', hget', hmem⟩
      rw [hold] at hget'
      split at hget'
      · cases hget'
        rw [hbatch] at hmem
        cases hmem
      · exact ⟨_, .stay _, stage', hget', hmem⟩
  | settled k =>
      rcases h with ⟨stage', hget', hmem⟩
      rw [hold] at hget'
      split at hget' <;> rename_i hk
      · cases hget'
        rw [hsettled] at hmem
        rcases List.mem_append.mp hmem with hmem | hmem
        · exact ⟨_, .settle k, old, hk ▸ hget, hmem⟩
        · exact ⟨_, .take k, hk ▸ hmem, old, hk ▸ hget, hopen⟩
      · exact ⟨_, .stay _, stage', hget', hmem⟩
  | _ => exact ⟨_, .stay _, h⟩

/-- A thread that ends between its runs leaves everything else in place. -/
theorem holds_end {old : Stage} (hget : d.threads.get? c = some old) (hopen : old.open = false)
    (h : ({ d with threads := d.threads.pop c } : Dispatcher).Holds p a) : d.Holds p a := by
  have hopened : ∀ k, ({ d with threads := d.threads.pop c } : Dispatcher).OpenAt k ↔
      d.OpenAt k := by
    intro k
    unfold Dispatcher.OpenAt
    simp only [Dict.get?_pop_eq_some_iff]
    constructor
    · rintro ⟨stage, ⟨-, hstage⟩, hstageOpen⟩
      exact ⟨stage, hstage, hstageOpen⟩
    · rintro ⟨stage, hstage, hstageOpen⟩
      refine ⟨stage, ⟨?_, hstage⟩, hstageOpen⟩
      rintro rfl
      rw [hget] at hstage
      cases hstage
      rw [hopen] at hstageOpen
      cases hstageOpen
  have hstay : ∀ k stage, (d.threads.pop c).get? k = some stage →
      d.threads.get? k = some stage :=
    fun k stage hk => ((Dict.get?_pop_eq_some_iff _ _ _ _).mp hk).2
  cases p with
  | injected k => exact ⟨h.1, (hopened k).mp h.2⟩
  | lost k => exact ⟨h.1, fun hwas => h.2 ((hopened k).mpr hwas)⟩
  | waiting k =>
      rcases h with ⟨stage, hstage, hmem⟩
      exact ⟨stage, hstay k stage hstage, hmem⟩
  | batch k =>
      rcases h with ⟨stage, hstage, hmem⟩
      exact ⟨stage, hstay k stage hstage, hmem⟩
  | settled k =>
      rcases h with ⟨stage, hstage, hmem⟩
      exact ⟨stage, hstay k stage hstage, hmem⟩
  | _ => exact h

/-! The other lists one by one. -/

section Frames

variable {lists : List (List RootAdmission)} {table : Dict String (List RootAdmission)} {n : Nat}

theorem holds_of_stranded (hp : p ≠ .stranded)
    (h : ({ d with stranded := lists } : Dispatcher).Holds p a) : d.Holds p a := by
  cases p with
  | stranded => exact absurd rfl hp
  | _ => exact h

theorem holds_of_overflow (hp : p ≠ .overflow)
    (h : ({ d with overflow := lists } : Dispatcher).Holds p a) : d.Holds p a := by
  cases p with
  | overflow => exact absurd rfl hp
  | _ => exact h

theorem holds_of_pending (hp : ¬ ∃ k, p = .pending k)
    (h : ({ d with pending := table } : Dispatcher).Holds p a) : d.Holds p a := by
  cases p with
  | pending k => exact absurd ⟨k, rfl⟩ hp
  | _ => exact h

theorem holds_claimed (h : ({ d with claimedRoots := n } : Dispatcher).Holds p a) :
    d.Holds p a := by
  cases p <;> exact h

end Frames

/-- Batches hold the admissions they are made of. -/
theorem mem_splitBatches {normal : List RootAdmission} {roots batch : List RootAdmission}
    (hbatch : batch ∈ splitBatches normal roots) (ha : a ∈ batch) : a ∈ normal ∨ a ∈ roots := by
  induction roots generalizing normal with
  | nil =>
      unfold splitBatches at hbatch
      split at hbatch
      · cases hbatch
      · rw [List.mem_singleton.mp hbatch] at ha
        exact .inl ha
  | cons b rest ih =>
      unfold splitBatches at hbatch
      split at hbatch
      · rcases List.mem_append.mp hbatch with hflush | hlater
        · split at hflush
          · cases hflush
          · rw [List.mem_singleton.mp hflush] at ha
            exact .inl ha
        · rcases List.mem_cons.mp hlater with heq | hlater
          · rw [heq] at ha
            exact .inr (List.mem_singleton.mp ha ▸ List.mem_cons_self)
          · rcases ih hlater with hnil | hrest
            · cases hnil
            · exact .inr (List.mem_cons_of_mem _ hrest)
      · rcases ih hbatch with hnormal | hrest
        · rcases List.mem_append.mp hnormal with hnormal | hone
          · exact .inl hnormal
          · exact .inr (List.mem_singleton.mp hone ▸ List.mem_cons_self)
        · exact .inr (List.mem_cons_of_mem _ hrest)

/-! ## Scheduling -/

/-- What scheduling does with the places. -/
structure Schedules (d : Dispatcher) (roots : List RootAdmission) (r : Scheduled) : Prop where
  parts : ∃ started, (r.injected ++ (r.overflow ++ started)).Perm roots ∧
    ∀ c, ∀ b ∈ r.dispatcher.pendingOf c, b ∈ d.pendingOf c ∨ b ∈ started
  injected : ∀ c, ∀ b ∈ r.dispatcher.injectedOf c,
    b ∈ d.injectedOf c ∨ b ∈ r.injected ∧ b.contactId = c
  threads : ∀ c stage, r.dispatcher.threads.get? c = some stage →
    d.threads.get? c = some stage ∨ stage = .popping
  kept : ∀ c stage, d.threads.get? c = some stage → r.dispatcher.threads.get? c = some stage
  live : ∀ b ∈ r.injected, d.live b.contactId = true
  rest : r.dispatcher.overflow = d.overflow ∧ r.dispatcher.stranded = d.stranded

section Scheduling

variable {roots : List RootAdmission} {d' : Dispatcher} {r : Scheduled}

/-- An admission is to be given back. -/
theorem Schedules.pass (h : Schedules d roots r) (a : RootAdmission) :
    Schedules d (a :: roots) { r with overflow := a :: r.overflow } where
  parts := by
    rcases h.parts with ⟨started, hperm, hpending⟩
    exact ⟨started, List.perm_middle.trans (hperm.cons a), hpending⟩
  injected := h.injected
  threads := h.threads
  kept := h.kept
  live := h.live
  rest := h.rest

/-- An admission is injected into the run of its contact. -/
theorem Schedules.inject {a : RootAdmission} {n : Nat}
    (h : Schedules
      { d with
        injected := d.injected.set a.contactId (d.injectedOf a.contactId ++ [a])
        claimedRoots := n } roots r)
    (hlive : d.live a.contactId = true) :
    Schedules d (a :: roots) { r with injected := a :: r.injected } where
  parts := by
    rcases h.parts with ⟨started, hperm, hpending⟩
    exact ⟨started, hperm.cons a, hpending⟩
  injected c b hb := by
    rcases h.injected c b hb with hold | ⟨hnew, hcontact⟩
    · have hold' : b ∈ if a.contactId = c then d.injectedOf a.contactId ++ [a]
          else d.injectedOf c := injectedOf_set d a.contactId c _ ▸ hold
      split at hold' <;> rename_i hc
      · rcases List.mem_append.mp hold' with hold | hone
        · exact .inl (hc ▸ hold)
        · have hba := List.mem_singleton.mp hone
          exact .inr ⟨hba ▸ List.mem_cons_self, hba ▸ hc⟩
      · exact .inl hold'
    · exact .inr ⟨List.mem_cons_of_mem _ hnew, hcontact⟩
  threads := h.threads
  kept := h.kept
  live b hb := by
    rcases List.mem_cons.mp hb with heq | hb
    · exact heq ▸ hlive
    · exact h.live b hb
  rest := h.rest

/-- An admission gets a thread of its own. -/
theorem Schedules.start {a : RootAdmission} {n : Nat}
    (h : Schedules
      { d with
        pending := d.pending.set a.contactId (d.pendingOf a.contactId ++ [a])
        threads := d.threads.set a.contactId .popping
        claimedRoots := n } roots r)
    (hidle : d.threads.contains a.contactId ≠ true) : Schedules d (a :: roots) r where
  parts := by
    rcases h.parts with ⟨started, hperm, hpending⟩
    refine ⟨a :: started, ?_, ?_⟩
    · rw [← List.append_assoc]
      refine List.perm_middle.trans (.cons a ?_)
      rw [List.append_assoc]
      exact hperm
    · intro c b hb
      rcases hpending c b hb with hold | hnew
      · have hold' : b ∈ if a.contactId = c then d.pendingOf a.contactId ++ [a]
            else d.pendingOf c := pendingOf_set d a.contactId c _ ▸ hold
        split at hold' <;> rename_i hc
        · rcases List.mem_append.mp hold' with hold | hone
          · exact .inl (hc ▸ hold)
          · exact .inr (List.mem_singleton.mp hone ▸ List.mem_cons_self)
        · exact .inl hold'
      · exact .inr (List.mem_cons_of_mem _ hnew)
  injected := h.injected
  threads c stage hget := by
    rcases h.threads c stage hget with hold | hpop
    · rw [Dict.get?_set] at hold
      split at hold
      · exact .inr (Option.some.inj hold).symm
      · exact .inl hold
    · exact .inr hpop
  kept c stage hget := by
    refine h.kept c stage ?_
    have hne : a.contactId ≠ c := by
      rintro rfl
      exact hidle ((Dict.contains_iff _ _).mpr ⟨stage, hget⟩)
    rw [Dict.get?_set_of_ne _ _ hne]
    exact hget
  live b hb := by
    rcases live_iff.mp (h.live b hb) with ⟨batch, rest, hget⟩
    rw [Dict.get?_set] at hget
    split at hget
    · cases hget
    · exact live_iff.mpr ⟨batch, rest, hget⟩
  rest := h.rest

theorem scheduleAdmissions_schedules (maxActive : Nat) (offered : Bool)
    (roots : List RootAdmission) (d : Dispatcher) : Schedules d roots (scheduleAdmissions maxActive offered roots d) := by
  induction roots generalizing d with
  | nil =>
      exact ⟨⟨[], .refl _, fun _ _ hb => .inl hb⟩, fun _ _ hb => .inl hb,
        fun _ _ hget => .inl hget, fun _ _ hget => hget,
        fun _ hb => (List.not_mem_nil hb).elim, rfl, rfl⟩
  | cons a rest ih =>
      unfold scheduleAdmissions
      split
      · exact (ih d).pass a
      split
      · split <;> rename_i hlive
        · rw [Bool.and_eq_true] at hlive
          exact (ih _).inject hlive.1
        · exact (ih d).pass a
      · rename_i hidle
        exact (ih _).start hidle

/-- Scheduling leaves the runs alone. -/
theorem Schedules.openAt (h : Schedules d roots r) (c : String) :
    r.dispatcher.OpenAt c ↔ d.OpenAt c := by
  constructor
  · rintro ⟨stage, hget, hopen⟩
    rcases h.threads c stage hget with hold | hpop
    · exact ⟨stage, hold, hopen⟩
    · rw [hpop] at hopen
      cases hopen
  · rintro ⟨stage, hget, hopen⟩
    exact ⟨stage, h.kept c stage hget, hopen⟩

theorem openAt_of_live (h : d.live c = true) : d.OpenAt c := by
  rcases live_iff.mp h with ⟨batch, rest, hget⟩
  exact ⟨_, hget, rfl⟩

/-- Where the admissions are after scheduling. -/
theorem Schedules.holds (h : Schedules d roots r) :
    ∃ started, (r.injected ++ (r.overflow ++ started)).Perm roots ∧
      ∀ p b, ({ r.dispatcher with
          overflow := r.dispatcher.overflow ++ [r.overflow] } : Dispatcher).Holds p b →
        d.Holds p b ∨ (∃ c, p = .pending c ∧ b ∈ started) ∨ p = .overflow ∧ b ∈ r.overflow ∨
          p = .injected b.contactId ∧ b ∈ r.injected := by
  rcases h.parts with ⟨started, hperm, hpending⟩
  refine ⟨started, hperm, ?_⟩
  intro p b hb
  have hold : ∀ k stage, r.dispatcher.threads.get? k = some stage →
      d.threads.get? k = some stage ∨ stage = .popping := h.threads
  cases p with
  | pending k =>
      rcases hpending k b hb with hwas | hnew
      · exact .inl hwas
      · exact .inr (.inl ⟨k, rfl, hnew⟩)
  | injected k =>
      rcases h.injected k b hb.1 with hwas | ⟨hnew, hcontact⟩
      · exact .inl ⟨hwas, (h.openAt k).mp hb.2⟩
      · exact .inr (.inr (.inr ⟨hcontact ▸ rfl, hnew⟩))
  | lost k =>
      have hclosed : ¬ d.OpenAt k := fun hopen => hb.2 ((h.openAt k).mpr hopen)
      rcases h.injected k b hb.1 with hwas | ⟨hnew, hcontact⟩
      · exact .inl ⟨hwas, hclosed⟩
      · exact absurd (openAt_of_live (hcontact ▸ h.live b hnew)) hclosed
  | waiting k =>
      rcases hb with ⟨stage, hget, hmem⟩
      rcases hold k stage hget with hwas | hpop
      · exact .inl ⟨stage, hwas, hmem⟩
      · rcases hmem with ⟨batch, hbatch, -⟩
        rw [hpop] at hbatch
        cases hbatch
  | batch k =>
      rcases hb with ⟨stage, hget, hmem⟩
      rcases hold k stage hget with hwas | hpop
      · exact .inl ⟨stage, hwas, hmem⟩
      · rw [hpop] at hmem
        cases hmem
  | settled k =>
      rcases hb with ⟨stage, hget, hmem⟩
      rcases hold k stage hget with hwas | hpop
      · exact .inl ⟨stage, hwas, hmem⟩
      · rw [hpop] at hmem
        cases hmem
  | overflow =>
      rcases hb with ⟨given, hmem, hb⟩
      rcases List.mem_append.mp hmem with hwas | hnew
      · exact .inl ⟨given, h.rest.1 ▸ hwas, hb⟩
      · exact .inr (.inr (.inl ⟨rfl, List.mem_singleton.mp hnew ▸ hb⟩))
  | stranded =>
      rcases hb with ⟨given, hmem, hb⟩
      exact .inl ⟨given, h.rest.2 ▸ hmem, hb⟩

end Scheduling

/-! ## What a step does -/

/-- The calls of the coordinator that a step to the dispatcher `d'` makes.  A thread
that settles its roots holds them no longer. -/
inductive Makes (w : World) (d' : Dispatcher) : Op → Prop
  | submit (c context : String) (admitRoot : Bool) :
      Makes w d' (.enqueueRoot c context admitRoot)
  | replay (limit : Int) : Makes w d' (.claimPendingRoots limit w.dispatcher.threads.keys true)
  | giveBack (roots : List RootAdmission) (h : ∀ a ∈ roots, w.dispatcher.Holds .overflow a) :
      Makes w d' (.deferRoots roots)
  | beat (a : RootAdmission) (h : ∃ h ∈ w.handed, h.admission = a ∧ h.injected = false) :
      Makes w d' (.heartbeat a.activity.leaseId Maintenance.leaseTtlSeconds)
  | leave (roots : List RootAdmission) (h : ∀ a ∈ roots, w.dispatcher.Holds .stranded a) :
      Makes w d' (.completeRoots roots)
  | settle (c : String) (op : Op) (roots : List RootAdmission) (hop : op.batch = some roots)
      (h : ∀ a ∈ roots, w.dispatcher.Holds (.settled c) a)
      (h' : ∀ a, ¬ d'.Holds (.settled c) a) : Makes w d' op
  | elsewhere (op : Op) (h : Foreign w.coordinator op) : Makes w d' op

theorem Makes.mono {d₁ d₂ : Dispatcher} {op : Op} (h : Makes w d₁ op)
    (hle : ∀ p a, d₂.Holds p a → d₁.Holds p a) : Makes w d₂ op := by
  cases h with
  | submit c context admitRoot => exact .submit c context admitRoot
  | replay limit => exact .replay limit
  | giveBack roots h => exact .giveBack roots h
  | beat a h => exact .beat a h
  | leave roots h => exact .leave roots h
  | settle c op roots hop h h' =>
      exact .settle c op roots hop h fun a ha => h' a (hle _ a ha)
  | elsewhere op h => exact .elsewhere op h

/-- The roots that a step hands to a run: a batch that waited for it, or new roots
of contacts whose run goes on. -/
inductive HandsOut (w : World) (m : Maintenance.World) : List Handout → Prop
  | none : HandsOut w m []
  | batch (c : String) (roots : List RootAdmission)
      (h : ∀ a ∈ roots, w.dispatcher.Holds (.waiting c) a) :
      HandsOut w m (roots.map fun a => ⟨a, false, w.coordinator.now⟩)
  | injected (roots : List RootAdmission) (hnodup : roots.Nodup)
      (h : ∀ a ∈ roots, Fresh w.coordinator m a ∧ w.dispatcher.live a.contactId = true) :
      HandsOut w m (roots.map fun a => ⟨a, true, m.now⟩)

/-- How an admission gets into a place. -/
inductive Arrives (w : World) (m : Maintenance.World) (new : List Handout) :
    Place → RootAdmission → Prop
  | came {p : Place} {a : RootAdmission} (h : w.dispatcher.Came p a) : Arrives w m new p a
  | starts {c : String} {a : RootAdmission} (h : w.dispatcher.Holds (.waiting c) a)
      (hnew : ∃ h ∈ new, h.admission = a) : Arrives w m new (.batch c) a
  | pends {c : String} {a : RootAdmission} (h : Fresh w.coordinator m a)
      (hnew : ∀ h ∈ new, h.admission ≠ a) : Arrives w m new (.pending c) a
  | overflows {a : RootAdmission} (h : Fresh w.coordinator m a)
      (hnew : ∀ h ∈ new, h.admission ≠ a) : Arrives w m new .overflow a
  | joins {a : RootAdmission} (h : Fresh w.coordinator m a)
      (hnew : ∃ h ∈ new, h.admission = a) : Arrives w m new (.injected a.contactId) a

/-- What a step does: its call, the roots it hands out and where every admission
that is held after it comes from. -/
structure Follows (host : Host) (w w' : World) : Prop where
  calls : w'.coordinator = w.coordinator ∨
    ∃ op time, Makes w w'.dispatcher op ∧
      (coordinator host).step w.coordinator ⟨op, time⟩ w'.coordinator
  hands : ∃ new, w'.handed = w.handed ++ new ∧ HandsOut w w'.coordinator new ∧
    ∀ p a, w'.dispatcher.Holds p a → Arrives w w'.coordinator new p a

variable {op : Op} {time : Seconds} {offered : Bool}

/-! ## Calls that hand out roots -/

theorem callAt_step (htime : w.coordinator.now ≤ time)
    (hknown : op.Known host w.coordinator.state.uuidsDrawn) :
    (coordinator host).step w.coordinator ⟨op, time⟩ (w.callAt host op time).coordinator :=
  ⟨htime, hknown, rfl⟩

/-- The roots that a call hands out are new and distinct. -/
theorem rootsOf_fresh (hreach : (coordinator host).Reachable w.coordinator)
    (htime : w.coordinator.now ≤ time)
    (hknown : op.Known host w.coordinator.state.uuidsDrawn) :
    (w.rootsOf host op time).Nodup ∧
      ∀ b ∈ w.rootsOf host op time,
        Fresh w.coordinator (w.callAt host op time).coordinator b := by
  have hissued := Maintenance.reachable_issued (hreach.step (callAt_step htime hknown))
  have hnodup := hissued.nodup.of_map
  unfold World.rootsOf
  split <;> rename_i hcall
  · simp only [World.callAt, Maintenance.World.after_ok hcall] at hnodup
    rw [List.nodup_append] at hnodup
    refine ⟨hnodup.2.1, fun b hb => ⟨?_, fun hold => hnodup.2.2 b hold b hb rfl⟩⟩
    simp only [World.callAt, Maintenance.World.after_ok hcall]
    exact List.mem_append_right _ hb
  · exact ⟨List.nodup_nil, fun b hb => (List.not_mem_nil hb).elim⟩

/-- Newly claimed roots arrive where scheduling puts them. -/
theorem admitRoots_follows (hreach : (coordinator host).Reachable w.coordinator)
    (hmakes : ∀ d', Makes w d' op) (htime : w.coordinator.now ≤ time)
    (hknown : op.Known host w.coordinator.state.uuidsDrawn) :
    Follows host w (w.admitRoots host maxActive offered op time) := by
  rcases rootsOf_fresh hreach htime hknown with ⟨hnodup, hfresh⟩
  have hsched : Schedules w.dispatcher (w.rootsOf host op time)
      (scheduleAdmissions maxActive offered (w.rootsOf host op time)
        (w.callAt host op time).dispatcher) :=
    scheduleAdmissions_schedules maxActive offered _ w.dispatcher
  unfold World.admitRoots World.schedule
  simp only
  generalize scheduleAdmissions maxActive offered (w.rootsOf host op time)
    (w.callAt host op time).dispatcher = r at hsched ⊢
  rcases hsched.holds with ⟨started, hperm, hholds⟩
  have hnew : ∀ b ∈ r.injected ++ (r.overflow ++ started),
      Fresh w.coordinator (w.callAt host op time).coordinator b := fun b hb => hfresh b (hperm.subset hb)
  have hparts := hperm.nodup_iff.mpr hnodup
  rw [List.nodup_append] at hparts
  have hapart : ∀ b ∈ r.overflow ++ started, ∀ h ∈ r.injected.map fun a =>
      (⟨a, true, (w.callAt host op time).coordinator.now⟩ : Handout), h.admission ≠ b := by
    intro b hb h hh heq
    rcases List.mem_map.mp hh with ⟨a, ha, hah⟩
    exact hparts.2.2 a ha b hb (by rw [← heq, ← hah])
  refine ⟨.inr ⟨op, time, hmakes _, callAt_step htime hknown⟩, _, rfl, .injected _ hparts.1 ?_, ?_⟩
  · exact fun b hb => ⟨hnew b (List.mem_append_left _ hb), hsched.live b hb⟩
  · intro p b hb
    rcases hholds p b hb with hold | ⟨c, hp, hmem⟩ | ⟨hp, hmem⟩ | ⟨hp, hmem⟩
    · exact .came ⟨_, .stay _, hold⟩
    · have hmem' := List.mem_append_right r.overflow hmem
      exact hp ▸ .pends (hnew b (List.mem_append_right _ hmem')) (hapart b hmem')
    · have hmem' := List.mem_append_left started hmem
      exact hp ▸ .overflows (hnew b (List.mem_append_right _ hmem')) (hapart b hmem')
    · exact hp ▸ .joins (hnew b (List.mem_append_left _ hmem)) ⟨_, List.mem_map_of_mem hmem, rfl⟩

theorem replayQueue_follows {limit : Int}
    (hreach : (coordinator host).Reachable w.coordinator) (htime : w.coordinator.now ≤ time) :
    Follows host w (w.replayQueue host maxActive limit offered time) := by
  unfold World.replayQueue
  split
  · exact ⟨.inl rfl, [], (List.append_nil _).symm, .none, fun p a h => .came ⟨p, .stay p, h⟩⟩
  · exact admitRoots_follows hreach (fun _ => .replay _) htime trivial

/-- Replaying starts threads and moves none. -/
theorem replayQueue_thread {limit : Int} {stage : Stage}
    (h : w.dispatcher.threads.get? c = some stage) :
    (w.replayQueue host maxActive limit offered time).dispatcher.threads.get? c =
      some stage := by
  unfold World.replayQueue
  split
  · exact h
  · exact (scheduleAdmissions_schedules maxActive offered _ w.dispatcher).kept c stage h

/-! ## Steps -/

/-- A step that hands nothing out. -/
theorem Follows.still
    (hcalls : w'.coordinator = w.coordinator ∨
      ∃ op time, Makes w w'.dispatcher op ∧
        (coordinator host).step w.coordinator ⟨op, time⟩ w'.coordinator)
    (hhanded : w'.handed = w.handed)
    (hholds : ∀ p a, w'.dispatcher.Holds p a → w.dispatcher.Came p a) : Follows host w w' where
  calls := hcalls
  hands := ⟨[], by rw [hhanded, List.append_nil], .none, fun p a h => .came (hholds p a h)⟩

/-- A thread moves on after a step, and holds nothing it did not hold. -/
theorem Follows.moveOn {old stage : Stage} (h : Follows host w w')
    (hget : w'.dispatcher.threads.get? c = some old) (hopen : old.open = stage.open)
    (hwaiting : ∀ batch ∈ stage.waiting, batch ∈ old.waiting)
    (hbatch : ∀ b ∈ stage.batch, b ∈ old.batch)
    (hsettled : ∀ b ∈ stage.settled, b ∈ old.settled) :
    Follows host w (w'.moveTo c stage) where
  calls := by
    rcases h.calls with heq | ⟨op, time, hmakes, hstep⟩
    · exact .inl heq
    · exact .inr ⟨op, time,
        hmakes.mono fun p a => holds_stage hget hopen hwaiting hbatch hsettled, hstep⟩
  hands := by
    rcases h.hands with ⟨new, hhanded, hout, harrives⟩
    exact ⟨new, hhanded, hout, fun p a ha =>
      harrives p a (holds_stage hget hopen hwaiting hbatch hsettled ha)⟩

theorem follows_refl (host : Host) (w : World) : Follows host w w :=
  .still (.inl rfl) rfl fun p _ h => ⟨p, .stay p, h⟩

/-- A call that changes nothing in the dispatcher. -/
theorem follows_call (hmakes : Makes w w.dispatcher op) (htime : w.coordinator.now ≤ time)
    (hknown : op.Known host w.coordinator.state.uuidsDrawn) :
    Follows host w (w.callAt host op time) :=
  .still (.inr ⟨op, time, hmakes, callAt_step htime hknown⟩) rfl fun p _ h => ⟨p, .stay p, h⟩

theorem releaseClaimed_follows (host : Host) (w : World) (count : Nat) :
    Follows host w (w.releaseClaimed count) :=
  .still (.inl rfl) rfl fun p _ ha => ⟨p, .stay p, holds_claimed ha⟩

/-- A thread takes its pending roots, or it leaves. -/
theorem popPending_follows (hget : w.dispatcher.threads.get? c = some .popping) :
    Follows host w (w.popPending c) := by
  unfold World.popPending
  split <;> rename_i hpending
  · refine .still (.inl rfl) rfl ?_
    intro p a ha
    by_cases hp : p = .stranded
    · rw [hp] at ha ⊢
      rcases ha with ⟨roots, hmem, ha⟩
      rcases List.mem_append.mp hmem with hold | hnew
      · exact ⟨_, .stay _, roots, hold, ha⟩
      · refine ⟨_, .strand c, List.mem_singleton.mp hnew ▸ ha, ?_⟩
        rintro ⟨stage, hstage, hopen⟩
        rw [hget] at hstage
        cases hstage
        cases hopen
    · have hend := holds_of_stranded (d := { w.dispatcher.dropInjected c with
        threads := w.dispatcher.threads.pop c }) hp ha
      have hdrop := holds_end (d := w.dispatcher.dropInjected c) hget rfl hend
      exact ⟨p, .stay p, (holds_drop hdrop).1⟩
  · refine .still (.inl rfl) rfl ?_
    intro p a ha
    by_cases hp : ∃ k, p = .pending k
    · rcases hp with ⟨k, rfl⟩
      refine ⟨_, .stay _, ?_⟩
      have ha' : a ∈ ((w.dispatcher.pending.pop c).get? k).getD [] := ha
      rw [Dict.get?_pop] at ha'
      split at ha'
      · cases ha'
      · exact ha'
    · have hmove := holds_of_pending
        (d := w.dispatcher.moveTo c (.batches (splitBatches [] (_ :: _)))) hp ha
      have hclosed : ∀ {stage : Stage}, Stage.popping.open = true → stage.open = true := by
        intro stage h
        cases h
      rcases holds_moveTo hget hclosed hmove with
        hold | ⟨-, -, hopen, -⟩ | ⟨rfl, batch, hbatch, hmem⟩ | ⟨-, hmem⟩ | ⟨-, hmem⟩
      · exact ⟨p, .stay p, hold⟩
      · cases hopen
      · refine ⟨_, .pop c, ?_⟩
        rw [Dispatcher.Holds, hpending]
        exact (mem_splitBatches hbatch hmem).resolve_left List.not_mem_nil
      · cases hmem
      · cases hmem

/-- A thread starts a batch that waited. -/
theorem startBatch_follows {batch : List RootAdmission} {rest : List (List RootAdmission)}
    (hget : w.dispatcher.threads.get? c = some (.batches (batch :: rest))) :
    Follows host w (w.startBatch c batch rest) where
  calls := .inl rfl
  hands := by
    have hwaits : ∀ b ∈ batch, w.dispatcher.Holds (.waiting c) b :=
      fun b hb => ⟨_, hget, batch, List.mem_cons_self, hb⟩
    refine ⟨_, rfl, .batch c batch hwaits, ?_⟩
    intro p a ha
    rcases holds_moveTo hget nofun ha with
      hold | ⟨rfl, -, -, hlost⟩ | ⟨rfl, batch', hbatch', hmem⟩ | ⟨rfl, hmem⟩ | ⟨-, hmem⟩
    · exact .came ⟨p, .stay p, hold⟩
    · exact .came ⟨_, .find c, hlost⟩
    · exact .came ⟨_, .stay _, _, hget, batch', List.mem_cons_of_mem _ hbatch', hmem⟩
    · exact .starts (hwaits a hmem) ⟨_, List.mem_map_of_mem hmem, rfl⟩
    · cases hmem

/-- A thread settles its roots. -/
theorem settle_follows {old : Stage} {rest : List (List RootAdmission)} {n : Nat}
    (hget : w.dispatcher.threads.get? c = some old) (hopen : old.open = false)
    (hwaiting : old.waiting = rest) (hop : op.batch = some old.settled)
    (htime : w.coordinator.now ≤ time)
    (hknown : op.Known host w.coordinator.state.uuidsDrawn) :
    Follows host w ((w.callAt host op time).moveTo c (.releasing n rest)) := by
  refine .still (.inr ⟨op, time, ?_, callAt_step htime hknown⟩) rfl ?_
  · refine .settle c op _ hop (fun a ha => ⟨old, hget, ha⟩) ?_
    rintro a ⟨stage, hstage, ha⟩
    have hstage' : some (Stage.releasing n rest) = some stage :=
      (Dict.get?_set_self w.dispatcher.threads c _).symm.trans hstage
    cases hstage'
    cases ha
  · intro p a ha
    have hclosed : old.open = (Stage.releasing n rest).open := hopen
    exact ⟨p, .stay p, holds_stage hget hclosed (fun _ hb => hwaiting ▸ hb) nofun nofun ha⟩

/-- A thread accounts for its run. -/
theorem takeInjected_follows {old : Stage} {stage : List RootAdmission → Stage}
    (hget : w.dispatcher.threads.get? c = some old) (hopen : old.open = true)
    (hwaiting : ∀ roots, (stage roots).waiting = old.waiting)
    (hbatch : ∀ roots, (stage roots).batch = [])
    (hsettled : ∀ roots, (stage roots).settled = old.batch ++ roots) :
    Follows host w (w.takeInjected c stage) := by
  refine .still (.inl rfl) rfl ?_
  intro p a ha
  exact moves_take hget hopen (fun b hb => hwaiting _ ▸ hb) (hbatch _) (hsettled _) ha

/-- Every step of a thread follows. -/
theorem threadNext_follows {step : ThreadStep} {stage : Stage}
    (hreach : (coordinator host).Reachable w.coordinator)
    (hget : w.dispatcher.threads.get? c = some stage)
    (htime : ∀ time, (Step.thread c step).time = some time → w.coordinator.now ≤ time)
    (h : w.threadNext host maxActive c step stage = some w') : Follows host w w' := by
  unfold World.threadNext at h
  split at h
  · cases h
    exact popPending_follows hget
  · cases h
    exact (follows_refl host w).moveOn hget rfl nofun nofun nofun
  · cases h
    exact startBatch_follows hget
  · cases h
    exact (follows_refl host w).moveOn hget rfl (fun _ hb => hb) (fun _ hb => hb) nofun
  · cases h
    exact (follows_refl host w).moveOn hget rfl (fun _ hb => hb) (fun _ hb => hb) nofun
  · cases h
    exact takeInjected_follows hget rfl (fun _ => rfl) (fun _ => rfl) fun _ => rfl
  · cases h
    exact (follows_refl host w).moveOn hget rfl (fun _ hb => hb) (fun _ hb => hb) nofun
  · cases h
    exact settle_follows hget rfl rfl rfl (htime _ rfl) trivial
  · cases h
    exact (follows_refl host w).moveOn hget rfl (fun _ hb => hb) nofun (fun _ hb => hb)
  · cases h
    exact takeInjected_follows hget rfl (fun _ => rfl) (fun _ => rfl) fun _ => rfl
  · cases h
    exact settle_follows hget rfl rfl rfl (htime _ rfl) trivial
  · cases h
    exact .still (.inl rfl) rfl fun p a ha => ⟨p, .stay p, holds_end hget rfl ha⟩
  · cases h
    exact (releaseClaimed_follows _ _ _).moveOn hget rfl (fun _ hb => hb) nofun nofun
  · cases h
    exact (replayQueue_follows hreach (htime _ rfl)).moveOn (replayQueue_thread hget) rfl
      (fun _ hb => hb) nofun nofun
  · cases h
    exact .still (.inl rfl) rfl fun p a ha => ⟨p, .stay p, holds_end hget rfl ha⟩
  · cases h

/-- Every step follows. -/
theorem step_follows (hreach : (coordinator host).Reachable w.coordinator)
    (h : (dispatching host maxActive).step w e w') : Follows host w w' := by
  rcases h with ⟨hnext, htime, helse⟩
  cases e with
  | submit contact context offered time =>
      simp only [World.next] at hnext
      split at hnext
      · cases hnext
      · cases hnext
        exact admitRoots_follows hreach (fun _ => .submit _ _ _) (htime time rfl) trivial
  | replay limit offered time =>
      cases hnext
      exact replayQueue_follows hreach (htime time rfl)
  | giveBack time raises =>
      simp only [World.next] at hnext
      split at hnext
      · cases hnext
      · rename_i roots rest hoverflow
        have hdrop : ∀ p a, ({ w.dispatcher with overflow := rest } : Dispatcher).Holds p a →
            w.dispatcher.Came p a := by
          intro p a ha
          by_cases hp : p = .overflow
          · rw [hp] at ha ⊢
            rcases ha with ⟨roots, hmem, ha⟩
            exact ⟨_, .stay _, roots, hoverflow ▸ List.mem_cons_of_mem _ hmem, ha⟩
          · exact ⟨p, .stay p, holds_of_overflow hp ha⟩
        cases hnext
        split
        · exact .still (.inl rfl) rfl hdrop
        · refine .still (.inr ⟨_, time, .giveBack _ ?_, htime time rfl, trivial, rfl⟩) rfl hdrop
          exact fun a ha => ⟨_, hoverflow ▸ List.mem_cons_self, ha⟩
  | beat a time =>
      simp only [World.next] at hnext
      split at hnext <;> rename_i hbeat
      · cases hnext
        rw [List.any_eq_true] at hbeat
        rcases hbeat with ⟨h, hmem, hh⟩
        exact follows_call (.beat a ⟨h, hmem, of_decide_eq_true hh⟩) (htime time rfl) trivial
      · cases hnext
  | leave time raises =>
      simp only [World.next] at hnext
      split at hnext
      · cases hnext
      · rename_i roots rest hstranded
        have hdrop : ∀ n p a, ({ w.dispatcher with
            stranded := rest, claimedRoots := n } : Dispatcher).Holds p a →
            w.dispatcher.Came p a := by
          intro n p a ha
          by_cases hp : p = .stranded
          · rw [hp] at ha ⊢
            rcases ha with ⟨roots, hmem, ha⟩
            exact ⟨_, .stay _, roots, hstranded ▸ List.mem_cons_of_mem _ hmem, ha⟩
          · exact ⟨p, .stay p, holds_claimed (holds_of_stranded hp ha)⟩
        cases hnext
        split
        · exact .still (.inl rfl) rfl (hdrop _)
        · refine .still (.inr ⟨_, time, .leave _ ?_, htime time rfl, trivial, rfl⟩) rfl (hdrop _)
          exact fun a ha => ⟨_, hstranded ▸ List.mem_cons_self, ha⟩
  | shutdown =>
      cases hnext
      refine .still (.inl rfl) rfl fun p a ha => ⟨p, .stay p, ?_⟩
      cases p <;> exact ha
  | thread c step =>
      simp only [World.next] at hnext
      split at hnext <;> rename_i hget
      · cases hnext
      · exact threadNext_follows hreach hget htime hnext
  | elsewhere op time =>
      cases hnext
      rcases helse op time rfl with ⟨hforeign, hknown⟩
      exact follows_call (.elsewhere op hforeign) (htime time rfl) hknown

/-- The coordinator of a reachable world is reachable. -/
theorem reachable_coordinator (h : (dispatching host maxActive).Reachable w) :
    (coordinator host).Reachable w.coordinator := by
  refine h.invariant (I := fun w => (coordinator host).Reachable w.coordinator) ?_ ?_
  · rintro _ ⟨t, rfl⟩
    exact .init ⟨t, rfl⟩
  · intro w e w' _ hreach hstep
    rcases (step_follows hreach hstep).calls with heq | ⟨op, time, -, hcall⟩
    · rw [heq]
      exact hreach
    · exact hreach.step hcall

/-! ## Order in the places -/

/-- Every admission that is held or was handed out was issued by the coordinator,
and what belongs to a run was handed to it.  Nothing is lost or stranded. -/
structure Tidy (w : World) : Prop where
  held : ∀ p a, w.dispatcher.Holds p a → a ∈ w.coordinator.admissions
  handed : ∀ h ∈ w.handed, h.admission ∈ w.coordinator.admissions
  batch : ∀ c a, w.dispatcher.Holds (.batch c) a → ∃ h ∈ w.handed, h.admission = a
  settled : ∀ c a, w.dispatcher.Holds (.settled c) a → ∃ h ∈ w.handed, h.admission = a
  injected : ∀ c a, w.dispatcher.Holds (.injected c) a → ∃ h ∈ w.handed, h.admission = a
  lost : ∀ c a, ¬ w.dispatcher.Holds (.lost c) a
  stranded : ∀ a, ¬ w.dispatcher.Holds .stranded a

theorem tidy_initial (t : Seconds) : Tidy (.initial t) where
  held p a h := by
    cases p <;> simp [World.initial, Dispatcher.empty, Dispatcher.Holds, Dispatcher.pendingOf,
      Dispatcher.injectedOf] at h
  handed h hh := by simp [World.initial] at hh
  batch c a h := by simp [World.initial, Dispatcher.empty, Dispatcher.Holds] at h
  settled c a h := by simp [World.initial, Dispatcher.empty, Dispatcher.Holds] at h
  injected c a h := by
    simp [World.initial, Dispatcher.empty, Dispatcher.Holds, Dispatcher.injectedOf] at h
  lost c a h := by
    simp [World.initial, Dispatcher.empty, Dispatcher.Holds, Dispatcher.injectedOf] at h
  stranded a h := by simp [World.initial, Dispatcher.empty, Dispatcher.Holds] at h

/-- A step takes back no admission that was issued. -/
theorem Follows.issued (h : Follows host w w') (ha : a ∈ w.coordinator.admissions) :
    a ∈ w'.coordinator.admissions := by
  rcases h.calls with heq | ⟨op, time, -, hstep⟩
  · exact heq ▸ ha
  · exact Maintenance.step_admissions hstep ha

theorem HandsOut.issued {m : Maintenance.World} {new : List Handout} (htidy : Tidy w)
    (h : HandsOut w m new) :
    ∀ x ∈ new, x.admission ∈ w.coordinator.admissions ∨ Fresh w.coordinator m x.admission := by
  intro x hx
  cases h with
  | none => cases hx
  | batch c roots hwaits =>
      rcases List.mem_map.mp hx with ⟨b, hb, heq⟩
      exact .inl (heq ▸ htidy.held _ _ (hwaits b hb))
  | injected roots _ hnew =>
      rcases List.mem_map.mp hx with ⟨b, hb, heq⟩
      exact .inr (heq ▸ (hnew b hb).1)

/-- A step keeps the places in order. -/
theorem Tidy.follows (htidy : Tidy w) (h : Follows host w w') : Tidy w' := by
  rcases h.hands with ⟨new, hhanded, hout, harrives⟩
  have hlisted : ∀ b, (∃ x ∈ w.handed, x.admission = b) ∨ (∃ x ∈ new, x.admission = b) →
      ∃ x ∈ w'.handed, x.admission = b := by
    rw [hhanded]
    rintro b (⟨x, hx, heq⟩ | ⟨x, hx, heq⟩)
    · exact ⟨x, List.mem_append_left _ hx, heq⟩
    · exact ⟨x, List.mem_append_right _ hx, heq⟩
  constructor
  · intro p a ha
    cases harrives p a ha with
    | came hcame =>
        rcases hcame with ⟨q, -, hq⟩
        exact h.issued (htidy.held q a hq)
    | starts hwaits _ => exact h.issued (htidy.held _ a hwaits)
    | pends hfresh _ => exact hfresh.1
    | overflows hfresh _ => exact hfresh.1
    | joins hfresh _ => exact hfresh.1
  · intro x hx
    rw [hhanded] at hx
    rcases List.mem_append.mp hx with hold | hnew
    · exact h.issued (htidy.handed x hold)
    · rcases hout.issued htidy x hnew with hissued | hfresh
      · exact h.issued hissued
      · exact hfresh.1
  · intro c a ha
    refine hlisted a ?_
    cases harrives _ a ha with
    | came hcame =>
        rcases hcame with ⟨q, hmove, hq⟩
        cases hmove with
        | stay => exact .inl (htidy.batch c a hq)
    | starts _ hnew => exact .inr hnew
  · intro c a ha
    refine hlisted a (.inl ?_)
    cases harrives _ a ha with
    | came hcame =>
        rcases hcame with ⟨q, hmove, hq⟩
        cases hmove with
        | stay => exact htidy.settled c a hq
        | settle => exact htidy.batch c a hq
        | take => exact htidy.injected c a hq
  · intro c a ha
    refine hlisted a ?_
    cases harrives _ a ha with
    | came hcame =>
        rcases hcame with ⟨q, hmove, hq⟩
        cases hmove with
        | stay => exact .inl (htidy.injected c a hq)
        | find => exact absurd hq (htidy.lost c a)
    | joins _ hnew => exact .inr hnew
  · intro c a ha
    cases harrives _ a ha with
    | came hcame =>
        rcases hcame with ⟨q, hmove, hq⟩
        cases hmove with
        | stay => exact htidy.lost c a hq
  · intro a ha
    cases harrives _ a ha with
    | came hcame =>
        rcases hcame with ⟨q, hmove, hq⟩
        cases hmove with
        | stay => exact htidy.stranded a hq
        | strand c => exact htidy.lost c a hq

/-- The places are in order in every reachable world. -/
theorem reachable_tidy (h : (dispatching host maxActive).Reachable w) : Tidy w := by
  refine h.invariant (I := Tidy) ?_ ?_
  · rintro _ ⟨t, rfl⟩
    exact tidy_initial t
  · exact fun w e w' hreach htidy hstep =>
      htidy.follows (step_follows (reachable_coordinator hreach) hstep)

end Dispatch
end Stemcell
