import Stemcell.Dispatch.Places

/-!
# Slots of the dispatcher

The dispatcher counts the roots it has claimed and takes no more than sixteen.  Each of them is
held somewhere: it waits, is in a batch, was injected, or is about to be given back.  A submit
starts its threads after it has enqueued all of its roots.

Main results:

- Definition `Account.next`: one step, with the threads of a submit apart until they are started.
- Theorem `Sound.next`: a step that meets the condition keeps the count.
- Theorem `accounting_law`: the runs in which the count is right and no contact is wedged are those
  in which no call raises at a place where the dispatcher does not give back what it holds.
- Theorem `wedged_contact`: a submit that fails at its second contact.

Current gaps:

- Calls of `defer_roots` and of `injection.offer` do not raise.
- Threads that a replay makes are started with it.
-/

namespace Stemcell
namespace Dispatch

open Lib
open Maintenance (Seconds Host RootAdmission Op)

/-! ## What is held -/

/-- What a thread is about to take off the count. -/
def Stage.released : Stage → Nat
  | .releasing count _ => count
  | _ => 0

/-- The roots a thread accounts for. -/
def Stage.load (stage : Stage) : Nat :=
  stage.batch.length + stage.settled.length + (stage.waiting.map List.length).sum + stage.released

/-- The roots the dispatcher accounts for. -/
def Dispatcher.held (d : Dispatcher) : Nat :=
  (d.pending.values.map List.length).sum + (d.injected.values.map List.length).sum +
    (d.threads.values.map Stage.load).sum + (d.stranded.map List.length).sum

/-! ## Steps -/

/-- The dispatcher among the other users of the coordinator; the contacts whose threads a submit in
progress has made and not started, with the number of the submit; and those whose threads will
never be started. -/
structure Account where
  world : World
  unstarted : List (Nat × String)
  wedged : List String

/-- A submit enqueues one of its roots, fails, or starts its threads; or another step is taken. -/
inductive AccountStep
  | enqueue (submit : Nat) (contactId context : String) (offered : Bool) (time : Seconds)
  | fail (submit : Nat)
  | start (submit : Nat)
  | other (step : Step)

/-- The threads that are new in a world. -/
def newThreads (w w' : World) : List String :=
  w'.dispatcher.threads.keys.filter fun c => !w.dispatcher.threads.contains c

namespace Account

/-- The thread of a contact has been started. -/
def started (a : Account) (contactId : String) : Bool :=
  contactId ∉ a.wedged && a.unstarted.all fun made => made.2 ≠ contactId

/-- The contacts whose threads a submit has not started. -/
def waitingFor (a : Account) (submit : Nat) : List String :=
  (a.unstarted.filter fun made => made.1 = submit).map Prod.snd

/-- One step, if it can be taken. -/
def next (host : Host) (maxActive : Nat) (a : Account) : AccountStep → Option Account
  | .enqueue submit contactId context offered time =>
      (a.world.next host maxActive (.submit contactId context offered time)).map fun w =>
        { a with
          world := w
          unstarted := a.unstarted ++ (newThreads a.world w).map fun c => (submit, c) }
  | .fail submit =>
      some { a with
        unstarted := a.unstarted.filter fun made => made.1 ≠ submit
        wedged := a.wedged ++ a.waitingFor submit }
  | .start submit =>
      some { a with unstarted := a.unstarted.filter fun made => made.1 ≠ submit }
  | .other (.submit _ _ _ _) => none
  | .other (.giveBack _ true) => none
  | .other (.thread contactId step) =>
      if a.started contactId then
        (a.world.next host maxActive (.thread contactId step)).map fun w => { a with world := w }
      else none
  | .other step => (a.world.next host maxActive step).map fun w => { a with world := w }

end Account

/-- Runs of the dispatcher from its construction on. -/
def accounts (host : Host) (maxActive : Nat) : TransitionSystem Account AccountStep where
  init a := ∃ t, a = ⟨.initial t, [], []⟩
  step a e a' := a.next host maxActive e = some a'

/-! ## The invariant of the dispatcher -/

/-- The run at hand has roots. -/
def Stage.Peopled : Stage → Prop
  | .running batch _ => batch ≠ []
  | .returned batch _ => batch ≠ []
  | .raised batch _ => batch ≠ []
  | .completing settled _ => settled ≠ []
  | .retrying settled _ => settled ≠ []
  | _ => True

/-- A thread holds no empty batch. -/
def Stage.Solid (stage : Stage) : Prop :=
  (∀ batch ∈ stage.waiting, batch ≠ []) ∧ stage.Peopled

/-- The count is what is held; what waits for a thread has a thread that will take it, and what was
injected belongs to an open run, so that nothing is left to a thread that leaves. -/
structure Sound (maxActive : Nat) (d : Dispatcher) : Prop where
  count : d.claimedRoots = d.held
  bounded : d.claimedRoots ≤ maxActive
  pending : ∀ c, d.pendingOf c ≠ [] → d.threads.get? c = some .popping
  injected : ∀ c, d.injectedOf c ≠ [] → d.OpenAt c
  solid : ∀ c stage, d.threads.get? c = some stage → stage.Solid
  stranded : ∀ roots ∈ d.stranded, roots = []

variable {host : Host} {maxActive : Nat} {d : Dispatcher} {w w' : World} {c : String}

theorem length_pendingOf (d : Dispatcher) (c : String) :
    (d.pendingOf c).length = ((d.pending.get? c).map List.length).getD 0 := by
  unfold Dispatcher.pendingOf
  cases d.pending.get? c <;> rfl

theorem length_injectedOf (d : Dispatcher) (c : String) :
    (d.injectedOf c).length = ((d.injected.get? c).map List.length).getD 0 := by
  unfold Dispatcher.injectedOf
  cases d.injected.get? c <;> rfl

/-- A thread that moves on takes its load along. -/
theorem held_moveTo {old : Stage} (hget : d.threads.get? c = some old) (stage : Stage) :
    (d.moveTo c stage).held + old.load = d.held + stage.load := by
  have hsum := d.threads.sum_set c stage Stage.load
  rw [hget] at hsum
  unfold Dispatcher.held Dispatcher.moveTo
  simp only [Option.map_some, Option.getD_some] at hsum ⊢
  omega

/-- What is injected no longer counts once it is dropped. -/
theorem held_dropInjected (d : Dispatcher) (c : String) :
    (d.dropInjected c).held + (d.injectedOf c).length = d.held := by
  have hsum := d.injected.sum_pop c List.length
  rw [length_injectedOf]
  unfold Dispatcher.held Dispatcher.dropInjected
  dsimp only
  omega

theorem popping_solid : Stage.popping.Solid := by
  constructor
  · intro batch hmem
    cases hmem
  · trivial

/-- A stage that is solid takes its place among the others. -/
theorem Sound.solid_moveTo (h : Sound maxActive d) {stage : Stage} (hsolid : stage.Solid) :
    ∀ k other, (d.moveTo c stage).threads.get? k = some other → other.Solid := by
  intro k other hother
  change (d.threads.set c stage).get? k = _ at hother
  rw [Dict.get?_set] at hother
  split_ifs at hother
  · exact Option.some.inj hother ▸ hsolid
  · exact h.solid k other hother

/-- What waits for other threads still does when one moves that was past its first step. -/
theorem Sound.pending_moveTo (h : Sound maxActive d) {old : Stage}
    (hget : d.threads.get? c = some old) (hne : old ≠ .popping) (stage : Stage) :
    ∀ k, d.pendingOf k ≠ [] → (d.moveTo c stage).threads.get? k = some .popping := by
  intro k hk
  have hpopping := h.pending k hk
  have hck : c ≠ k := by
    rintro rfl
    rw [hget] at hpopping
    exact hne (Option.some.inj hpopping)
  exact (Dict.get?_set_of_ne _ _ hck).trans hpopping

/-- What was injected into other runs belongs to them still when a thread moves between runs. -/
theorem Sound.injected_moveTo (h : Sound maxActive d) {old : Stage}
    (hget : d.threads.get? c = some old) (hclosed : old.open = false) (stage : Stage) :
    ∀ k, d.injectedOf k ≠ [] → (d.moveTo c stage).OpenAt k := by
  intro k hk
  rcases h.injected k hk with ⟨other, hother, hopen⟩
  have hck : c ≠ k := by
    rintro rfl
    rw [hget] at hother
    rw [← Option.some.inj hother, hclosed] at hopen
    cases hopen
  exact ⟨other, (Dict.get?_set_of_ne _ _ hck).trans hother, hopen⟩

/-- A thread goes on to a stage; nothing waits for it then unless it is about to take it, and
nothing is injected unless its run is open. -/
theorem Sound.moveTo (h : Sound maxActive d) {old : Stage} (hget : d.threads.get? c = some old)
    {stage : Stage} (hload : stage.load = old.load) (hsolid : stage.Solid)
    (hpending : d.pendingOf c = [] ∨ stage = .popping)
    (hinjected : d.injectedOf c = [] ∨ stage.open = true) : Sound maxActive (d.moveTo c stage) where
  count := by
    have hheld := held_moveTo hget stage
    have hcount := h.count
    have hsame : (d.moveTo c stage).claimedRoots = d.claimedRoots := rfl
    omega
  bounded := h.bounded
  pending k hk := by
    change (d.threads.set c stage).get? k = _
    rw [Dict.get?_set]
    split_ifs with heq
    · rcases hpending with hempty | hpopping
      · exact absurd (heq ▸ hempty) hk
      · rw [hpopping]
    · exact h.pending k hk
  injected k hk := by
    rw [openAt_moveTo]
    split_ifs with heq
    · rcases hinjected with hempty | hopen
      · exact absurd (heq ▸ hempty) hk
      · exact hopen
    · exact h.injected k hk
  solid := h.solid_moveTo hsolid
  stranded := h.stranded

/-- Nothing waits for a thread that is past its first step. -/
theorem Sound.pending_nil (h : Sound maxActive d) {stage : Stage}
    (hget : d.threads.get? c = some stage) (hne : stage ≠ .popping) : d.pendingOf c = [] := by
  by_contra hpending
  have hpopping := h.pending c hpending
  rw [hget] at hpopping
  exact hne (Option.some.inj hpopping)

/-- Nothing is injected into a run that is not open. -/
theorem Sound.injected_nil (h : Sound maxActive d) {stage : Stage}
    (hget : d.threads.get? c = some stage) (hclosed : stage.open = false) :
    d.injectedOf c = [] := by
  by_contra hinjected
  rcases h.injected c hinjected with ⟨found, hfound, hopen⟩
  rw [hget] at hfound
  rw [← Option.some.inj hfound, hclosed] at hopen
  cases hopen

/-- The lists to be given back do not matter. -/
theorem Sound.withOverflow (h : Sound maxActive d) (overflow : List (List RootAdmission)) :
    Sound maxActive { d with overflow := overflow } :=
  ⟨h.count, h.bounded, h.pending, h.injected, h.solid, h.stranded⟩

/-! ## Scheduling -/

/-- A root is injected into a run that takes input. -/
theorem Sound.inject (h : Sound maxActive d) (a : RootAdmission) (hlive : d.live a.contactId = true)
    (hfree : d.claimedRoots < maxActive) :
    Sound maxActive
      { d with
        injected := d.injected.set a.contactId (d.injectedOf a.contactId ++ [a])
        claimedRoots := d.claimedRoots + 1 } where
  count := by
    have hsum := d.injected.sum_set a.contactId (d.injectedOf a.contactId ++ [a]) List.length
    rw [← length_injectedOf, List.length_append, List.length_singleton] at hsum
    have hcount := h.count
    unfold Dispatcher.held at hcount ⊢
    dsimp only
    omega
  bounded := hfree
  pending := h.pending
  injected k hk := by
    by_cases heq : a.contactId = k
    · exact heq ▸ openAt_of_live hlive
    · apply h.injected k
      intro hempty
      apply hk
      rw [← hempty]
      exact (injectedOf_set d a.contactId k _).trans (if_neg heq)
  solid := h.solid
  stranded := h.stranded

/-- A root gets a thread of its own. -/
theorem Sound.startThread (h : Sound maxActive d) (a : RootAdmission)
    (hidle : d.threads.contains a.contactId ≠ true) (hfree : d.claimedRoots < maxActive) :
    Sound maxActive
      { d with
        pending := d.pending.set a.contactId (d.pendingOf a.contactId ++ [a])
        threads := d.threads.set a.contactId .popping
        claimedRoots := d.claimedRoots + 1 } := by
  have hnone : d.threads.get? a.contactId = none := by
    cases hget : d.threads.get? a.contactId with
    | none => rfl
    | some stage => exact absurd ((Dict.contains_iff _ _).mpr ⟨stage, hget⟩) hidle
  constructor
  · have hpending := d.pending.sum_set a.contactId (d.pendingOf a.contactId ++ [a]) List.length
    rw [← length_pendingOf, List.length_append, List.length_singleton] at hpending
    have hthreads := d.threads.sum_set a.contactId .popping Stage.load
    rw [hnone] at hthreads
    have hload : Stage.popping.load = 0 := rfl
    have hcount := h.count
    unfold Dispatcher.held at hcount ⊢
    simp only [Option.map_none, Option.getD_none] at hthreads ⊢
    omega
  · exact hfree
  · intro k hk
    change (d.threads.set a.contactId .popping).get? k = _
    rw [Dict.get?_set]
    split_ifs with heq
    · rfl
    · apply h.pending k
      intro hempty
      apply hk
      rw [← hempty]
      exact (pendingOf_set d a.contactId k _).trans (if_neg heq)
  · intro k hk
    rcases h.injected k hk with ⟨stage, hget, hopen⟩
    refine ⟨stage, ?_, hopen⟩
    have hne : a.contactId ≠ k := by
      rintro rfl
      rw [hnone] at hget
      cases hget
    exact (Dict.get?_set_of_ne _ _ hne).trans hget
  · intro k stage hget
    change (d.threads.set a.contactId .popping).get? k = _ at hget
    rw [Dict.get?_set] at hget
    split_ifs at hget
    · exact Option.some.inj hget ▸ popping_solid
    · exact h.solid k stage hget
  · exact h.stranded

/-- Claimed roots are counted where they go, and no more of them than there is room for. -/
theorem Sound.scheduled (h : Sound maxActive d) (offered : Bool) (roots : List RootAdmission) :
    Sound maxActive (scheduleAdmissions maxActive offered roots d).dispatcher := by
  induction roots generalizing d with
  | nil => exact h
  | cons a rest ih =>
      unfold scheduleAdmissions
      split
      · exact ih h
      · rename_i hfree
        split
        · split <;> rename_i hlive
          · rw [Bool.and_eq_true] at hlive
            exact ih (h.inject a hlive.1 (not_le.mp hfree))
          · exact ih h
        · rename_i hidle
          exact ih (h.startThread a hidle (not_le.mp hfree))

theorem Sound.schedule (h : Sound maxActive w.dispatcher) (offered : Bool)
    (roots : List RootAdmission) : Sound maxActive (w.schedule maxActive offered roots).dispatcher :=
  (h.scheduled offered roots).withOverflow _

theorem Sound.replayQueue (h : Sound maxActive w.dispatcher) (limit : Int) (offered : Bool)
    (time : Seconds) :
    Sound maxActive (w.replayQueue host maxActive limit offered time).dispatcher := by
  unfold World.replayQueue
  split
  · exact h
  · have hcall : Sound maxActive (w.callAt host (.claimPendingRoots
        (min (max 1 limit) (maxActive - w.dispatcher.claimedRoots)) w.dispatcher.threads.keys true)
          time).dispatcher := h
    exact hcall.schedule offered _

/-! ## Threads -/

/-- Batches hold all roots they are made of, and none is empty. -/
theorem length_splitBatches (normal roots : List RootAdmission) :
    ((splitBatches normal roots).map List.length).sum = normal.length + roots.length ∧
      ∀ batch ∈ splitBatches normal roots, batch ≠ [] := by
  induction roots generalizing normal with
  | nil =>
      unfold splitBatches
      split_ifs with hempty
      · simp [hempty]
      · simp [hempty]
  | cons a rest ih =>
      unfold splitBatches
      split_ifs with hreview hempty
      · rcases ih [] with ⟨hsum, hne⟩
        constructor
        · rw [hempty]
          simp only [List.nil_append, List.map_cons, List.sum_cons, hsum, List.length_cons,
            List.length_nil]
          omega
        · intro batch hmem
          rcases List.mem_cons.mp hmem with rfl | hmem
          · exact List.cons_ne_nil _ _
          · exact hne batch hmem
      · rcases ih [] with ⟨hsum, hne⟩
        constructor
        · simp only [List.singleton_append, List.map_cons, List.sum_cons, hsum, List.length_cons,
            List.length_nil]
          omega
        · intro batch hmem
          rcases List.mem_cons.mp hmem with rfl | hmem
          · exact hempty
          · rcases List.mem_cons.mp hmem with rfl | hmem
            · exact List.cons_ne_nil _ _
            · exact hne batch hmem
      · rcases ih (normal ++ [a]) with ⟨hsum, hne⟩
        refine ⟨?_, hne⟩
        rw [hsum, List.length_append, List.length_singleton, List.length_cons]
        omega

/-- A thread that is past its first step goes on with what it holds. -/
theorem Sound.advance (h : Sound maxActive d) {old stage : Stage}
    (hget : d.threads.get? c = some old) (hne : old ≠ .popping) (hload : stage.load = old.load)
    (hsolid : stage.Solid) (hopen : old.open = true → stage.open = true) :
    Sound maxActive (d.moveTo c stage) := by
  apply h.moveTo hget hload hsolid (.inl (h.pending_nil hget hne))
  cases hold : old.open with
  | true => exact .inr (hopen hold)
  | false => exact .inl (h.injected_nil hget hold)

/-- A thread takes what waits for it and splits it into batches. -/
theorem Sound.popped (h : Sound maxActive d) (hget : d.threads.get? c = some .popping)
    {roots : List RootAdmission} (hroots : d.pendingOf c = roots) :
    Sound maxActive
      { d.moveTo c (.batches (splitBatches [] roots)) with pending := d.pending.pop c } := by
  rcases length_splitBatches [] roots with ⟨hsum, hne⟩
  constructor
  · have hthreads := d.threads.sum_set c (.batches (splitBatches [] roots)) Stage.load
    have hpending := d.pending.sum_pop c List.length
    rw [← length_pendingOf, hroots] at hpending
    rw [hget] at hthreads
    have hload : (Stage.batches (splitBatches [] roots)).load = roots.length := by
      simp only [Stage.load, Stage.batch, Stage.settled, Stage.waiting, Stage.released,
        List.length_nil, hsum]
      omega
    have hpopping : Stage.popping.load = 0 := rfl
    have hcount := h.count
    unfold Dispatcher.held at hcount ⊢
    simp only [Dispatcher.moveTo, Option.map_some, Option.getD_some] at hthreads ⊢
    omega
  · exact h.bounded
  · intro k hk
    change (d.threads.set c _).get? k = _
    have hk' : d.pendingOf k ≠ [] ∧ c ≠ k := by
      unfold Dispatcher.pendingOf at hk ⊢
      dsimp only at hk
      rw [Dict.get?_pop] at hk
      split_ifs at hk with heq
      · exact absurd rfl hk
      · exact ⟨hk, heq⟩
    rw [Dict.get?_set_of_ne _ _ hk'.2]
    exact h.pending k hk'.1
  · exact h.injected_moveTo hget rfl _
  · exact h.solid_moveTo ⟨hne, trivial⟩
  · exact h.stranded

/-- A thread that holds nothing ends. -/
theorem Sound.ended (h : Sound maxActive d) {old : Stage} (hget : d.threads.get? c = some old)
    (hload : old.load = 0) (hpending : d.pendingOf c = []) (hclosed : old.open = false) :
    Sound maxActive { d with threads := d.threads.pop c } where
  count := by
    have hthreads := d.threads.sum_pop c Stage.load
    rw [hget] at hthreads
    have hcount := h.count
    unfold Dispatcher.held at hcount ⊢
    simp only [Option.map_some, Option.getD_some] at hthreads ⊢
    omega
  bounded := h.bounded
  pending k hk := by
    apply (Dict.get?_pop_eq_some_iff _ _ _ _).mpr
    refine ⟨?_, h.pending k hk⟩
    rintro rfl
    exact hk hpending
  injected k hk := by
    rcases h.injected k hk with ⟨stage, hstage, hopen⟩
    refine ⟨stage, (Dict.get?_pop_eq_some_iff _ _ _ _).mpr ⟨?_, hstage⟩, hopen⟩
    rintro rfl
    rw [hget] at hstage
    rw [← Option.some.inj hstage, hclosed] at hopen
    cases hopen
  solid k stage hstage := h.solid k stage ((Dict.get?_pop_eq_some_iff _ _ _ _).mp hstage).2
  stranded := h.stranded

/-- A contact into which nothing was injected. -/
theorem Sound.dropInjected (h : Sound maxActive d) (hempty : d.injectedOf c = []) :
    Sound maxActive (d.dropInjected c) where
  count := by
    have hheld := held_dropInjected d c
    rw [hempty] at hheld
    exact h.count.trans hheld.symm
  bounded := h.bounded
  pending := h.pending
  injected k hk := by
    rw [injectedOf_drop] at hk
    split_ifs at hk
    · exact absurd rfl hk
    · exact h.injected k hk
  solid := h.solid
  stranded := h.stranded

theorem Sound.withStranded (h : Sound maxActive d) {lists : List (List RootAdmission)}
    (hempty : ∀ roots ∈ lists, roots = []) : Sound maxActive { d with stranded := lists } where
  count := by
    have hnil : ∀ ls : List (List RootAdmission), (∀ roots ∈ ls, roots = []) →
        (ls.map List.length).sum = 0 := by
      intro ls hls
      apply List.sum_eq_zero_iff_forall_eq_nat.mpr
      intro n hn
      rcases List.mem_map.mp hn with ⟨roots, hmem, rfl⟩
      rw [hls roots hmem, List.length_nil]
    have hcount := h.count
    unfold Dispatcher.held at hcount ⊢
    rw [hnil _ h.stranded] at hcount
    dsimp only
    rw [hnil _ hempty]
    exact hcount
  bounded := h.bounded
  pending := h.pending
  injected := h.injected
  solid := h.solid
  stranded := hempty

/-- A thread looks for what waits for it, and leaves if there is nothing. -/
theorem Sound.popPending (h : Sound maxActive w.dispatcher)
    (hget : w.dispatcher.threads.get? c = some .popping) :
    Sound maxActive (w.popPending c).dispatcher := by
  have hinjected := h.injected_nil hget rfl
  unfold World.popPending
  split <;> rename_i hpending
  · have hleft := (h.dropInjected hinjected).ended hget rfl hpending rfl
    apply hleft.withStranded
    intro roots hmem
    rcases List.mem_append.mp hmem with hmem | hmem
    · exact h.stranded roots hmem
    · exact (List.mem_singleton.mp hmem).trans hinjected
  · exact h.popped hget hpending

/-- A run is accounted for together with what was injected into it. -/
theorem Sound.takeInjected (h : Sound maxActive d) {old stage : Stage}
    (hget : d.threads.get? c = some old) (hopen : old.open = true)
    (hload : stage.load = old.load + (d.injectedOf c).length) (hsolid : stage.Solid) :
    Sound maxActive ((d.dropInjected c).moveTo c stage) := by
  constructor
  · have hdropped := held_dropInjected d c
    have hget' : (d.dropInjected c).threads.get? c = some old := hget
    have hmoved := held_moveTo hget' stage
    have hcount := h.count
    have hsame : ((d.dropInjected c).moveTo c stage).claimedRoots = d.claimedRoots := rfl
    omega
  · exact h.bounded
  · apply h.pending_moveTo hget
    rintro rfl
    cases hopen
  · intro k hk
    change (d.dropInjected c).injectedOf k ≠ [] at hk
    rw [injectedOf_drop] at hk
    rw [openAt_moveTo]
    split_ifs at hk ⊢ with heq
    · exact absurd rfl hk
    · exact h.injected k hk
  · exact h.solid_moveTo hsolid
  · exact h.stranded

/-- A batch that is settled is taken off the count. -/
theorem Sound.release (h : Sound maxActive d) {count : Nat} {rest : List (List RootAdmission)}
    (hget : d.threads.get? c = some (.releasing count rest)) :
    Sound maxActive
      (({ d with claimedRoots := d.claimedRoots - count } : Dispatcher).moveTo c
        (.replaying rest)) := by
  constructor
  · have hmoved := held_moveTo hget (.replaying rest)
    have hloads : (Stage.releasing count rest).load = (Stage.replaying rest).load + count := rfl
    have hcount := h.count
    change d.claimedRoots - count = (d.moveTo c (.replaying rest)).held
    omega
  · exact le_trans (Nat.sub_le _ _) h.bounded
  · apply h.pending_moveTo hget
    intro heq
    cases heq
  · exact h.injected_moveTo hget rfl _
  · exact h.solid_moveTo ⟨(h.solid c _ hget).1, trivial⟩
  · exact h.stranded

/-- Threads stay where they are while others are started. -/
theorem replayQueue_kept {stage : Stage} (hget : w.dispatcher.threads.get? c = some stage)
    (limit : Int) (offered : Bool) (time : Seconds) :
    (w.replayQueue host maxActive limit offered time).dispatcher.threads.get? c = some stage := by
  unfold World.replayQueue
  split
  · exact hget
  · exact (scheduleAdmissions_schedules maxActive offered _ _).kept c stage hget

/-- The call that a thread makes does not raise where the thread has roots it would not give back. -/
def ThreadStep.Kept : ThreadStep → Stage → Prop
  | .retry _ true, _ => False
  | .replay _ _ _ true, stage => stage.waiting = []
  | _, _ => True

/-- One step of a thread. -/
theorem Sound.threadNext (h : Sound maxActive w.dispatcher) {step : ThreadStep} {stage : Stage}
    (hget : w.dispatcher.threads.get? c = some stage) (hkept : step.Kept stage)
    (hnext : w.threadNext host maxActive c step stage = some w') : Sound maxActive w'.dispatcher := by
  rcases h.solid c stage hget with ⟨hwaiting, hpeopled⟩
  have hadvance : ∀ {next : Stage}, stage ≠ .popping → next.load = stage.load → next.Solid →
      (stage.open = true → next.open = true) → Sound maxActive (w.dispatcher.moveTo c next) :=
    fun hne hload hsolid hopen => h.advance hget hne hload hsolid hopen
  have htake : ∀ {next : Stage}, stage.open = true →
      next.load = stage.load + (w.dispatcher.injectedOf c).length → next.Solid →
      Sound maxActive ((w.dispatcher.dropInjected c).moveTo c next) :=
    fun hopen hload hsolid => h.takeInjected hget hopen hload hsolid
  unfold World.threadNext at hnext
  split at hnext
  case h_1 =>
    cases hnext
    exact h.popPending hget
  case h_2 =>
    cases hnext
    exact h.moveTo hget rfl popping_solid (.inr rfl) (.inl (h.injected_nil hget rfl))
  case h_3 batch rest =>
    cases hnext
    apply hadvance nofun
    · simp only [Stage.load, Stage.batch, Stage.settled, Stage.waiting, Stage.released,
        List.map_cons, List.sum_cons, List.length_nil]
      omega
    · exact ⟨fun b hb => hwaiting b (List.mem_cons_of_mem _ hb), hwaiting batch List.mem_cons_self⟩
    · intro _
      rfl
  case h_4 batch rest =>
    cases hnext
    exact hadvance nofun rfl ⟨hwaiting, hpeopled⟩ fun _ => rfl
  case h_5 batch rest =>
    cases hnext
    exact hadvance nofun rfl ⟨hwaiting, hpeopled⟩ fun _ => rfl
  case h_6 batch rest =>
    cases hnext
    apply htake rfl
    · simp only [Stage.load, Stage.batch, Stage.settled, Stage.waiting, Stage.released,
        List.length_append, List.length_nil]
      omega
    · exact ⟨hwaiting, List.append_ne_nil_of_left_ne_nil hpeopled _⟩
  case h_7 batch rest =>
    cases hnext
    exact hadvance nofun rfl ⟨hwaiting, hpeopled⟩ fun _ => rfl
  case h_8 time settled rest =>
    cases hnext
    apply hadvance nofun
    · simp only [Stage.load, Stage.batch, Stage.settled, Stage.waiting, Stage.released,
        List.length_nil]
      omega
    · exact ⟨hwaiting, trivial⟩
    · nofun
  case h_9 settled rest =>
    cases hnext
    exact hadvance nofun rfl ⟨hwaiting, hpeopled⟩ nofun
  case h_10 batch rest =>
    cases hnext
    apply htake rfl
    · simp only [Stage.load, Stage.batch, Stage.settled, Stage.waiting, Stage.released,
        List.length_append, List.length_nil]
      omega
    · exact ⟨hwaiting, List.append_ne_nil_of_left_ne_nil hpeopled _⟩
  case h_11 time settled rest =>
    cases hnext
    apply hadvance nofun
    · simp only [Stage.load, Stage.batch, Stage.settled, Stage.waiting, Stage.released,
        List.length_nil]
      omega
    · exact ⟨hwaiting, trivial⟩
    · nofun
  case h_12 => exact hkept.elim
  case h_13 count rest =>
    cases hnext
    exact h.release hget
  case h_14 limit offered time rest =>
    cases hnext
    have hreplayed := @Sound.replayQueue host _ _ h limit offered time
    exact hreplayed.advance (replayQueue_kept hget limit offered time)
      nofun rfl ⟨hwaiting, trivial⟩ nofun
  case h_15 rest =>
    cases hnext
    have hempty : rest = [] := hkept
    rw [hempty] at hget
    exact h.ended hget rfl (h.pending_nil hget nofun) rfl
  case h_16 => cases hnext

/-! ## Whole runs -/

/-- No submit fails between two contacts when it has a thread to start, no `retry_roots` raises,
and no thread fails to look for more roots while it has batches left. -/
def Account.Kept (a : Account) : AccountStep → Prop
  | .fail submit => a.waitingFor submit = []
  | .other (.thread c step) =>
      ∀ stage, a.world.dispatcher.threads.get? c = some stage → step.Kept stage
  | _ => True

/-- One step of a caller, of a thread or of the rest of the process. -/
theorem Sound.worldNext (h : Sound maxActive w.dispatcher) {e : Step}
    (hkept : ∀ c step, e = .thread c step →
      ∀ stage, w.dispatcher.threads.get? c = some stage → step.Kept stage)
    (hnext : w.next host maxActive e = some w') : Sound maxActive w'.dispatcher := by
  cases e with
  | submit contactId context offered time =>
      simp only [World.next] at hnext
      split at hnext
      · cases hnext
      · cases hnext
        exact Sound.schedule (w := w.callAt host _ time) h offered _
  | replay limit offered time =>
      cases hnext
      exact h.replayQueue limit offered time
  | giveBack time raises =>
      simp only [World.next] at hnext
      split at hnext
      · cases hnext
      · cases hnext
        split
        · exact h.withOverflow _
        · exact h.withOverflow _
  | beat admission time =>
      simp only [World.next] at hnext
      split at hnext
      · cases hnext
        exact h
      · cases hnext
  | leave time raises =>
      simp only [World.next] at hnext
      split at hnext
      · cases hnext
      · rename_i roots rest hstranded
        have hroots : roots = [] := h.stranded roots (hstranded ▸ List.mem_cons_self)
        rw [if_pos (.inr hroots)] at hnext
        cases hnext
        apply h.withStranded
        intro later hlater
        exact h.stranded later (hstranded ▸ List.mem_cons_of_mem _ hlater)
  | shutdown =>
      cases hnext
      exact ⟨h.count, h.bounded, h.pending, h.injected, h.solid, h.stranded⟩
  | thread c step =>
      simp only [World.next] at hnext
      split at hnext
      · cases hnext
      · rename_i stage hget
        exact h.threadNext hget (hkept c step rfl stage hget) hnext
  | elsewhere op time =>
      cases hnext
      exact h

variable {a a' : Account} {e : AccountStep}

/-- A step that takes one step of the world. -/
theorem Account.next_other {step : Step} (hnext : a.next host maxActive (.other step) = some a') :
    ∃ w, a.world.next host maxActive step = some w ∧ a' = { a with world := w } := by
  have hmap : ∀ {w : Option World}, w.map (fun w => { a with world := w }) = some a' →
      ∃ v, w = some v ∧ a' = { a with world := v } := by
    intro w hw
    rcases Option.map_eq_some_iff.mp hw with ⟨v, hv, rfl⟩
    exact ⟨v, hv, rfl⟩
  unfold Account.next at hnext
  split at hnext
  case h_4 => cases hnext
  case h_5 => cases hnext
  case h_6 c thread heq =>
    cases heq
    split at hnext
    · exact hmap hnext
    · cases hnext
  case h_7 heq =>
    cases heq
    exact hmap hnext
  all_goals
    rename_i heq
    cases heq

/-- A step that meets the condition keeps the count, and wedges nothing. -/
theorem Sound.next (h : Sound maxActive a.world.dispatcher) (hkept : a.Kept e)
    (hnext : a.next host maxActive e = some a') :
    Sound maxActive a'.world.dispatcher ∧ a'.wedged = a.wedged := by
  cases e with
  | enqueue submit contactId context offered time =>
      rcases Option.map_eq_some_iff.mp hnext with ⟨w, hw, rfl⟩
      exact ⟨h.worldNext (fun c step heq => by cases heq) hw, rfl⟩
  | fail submit =>
      cases hnext
      have hempty : a.waitingFor submit = [] := hkept
      refine ⟨h, ?_⟩
      dsimp only
      rw [hempty, List.append_nil]
  | start submit =>
      cases hnext
      exact ⟨h, rfl⟩
  | other step =>
      rcases Account.next_other hnext with ⟨w, hw, rfl⟩
      refine ⟨h.worldNext ?_ hw, rfl⟩
      rintro c thread rfl stage hget
      exact hkept stage hget

/-- The count is what the dispatcher holds and no more than it may hold, every contact with a
thread has had it started or is about to, a contact without a thread holds nothing, and all slots
are free once no thread is left. -/
structure Accounted (maxActive : Nat) (a : Account) : Prop where
  counted : a.world.dispatcher.claimedRoots = a.world.dispatcher.held
  bounded : a.world.dispatcher.claimedRoots ≤ maxActive
  started : a.wedged = []
  idle : ∀ c, a.world.dispatcher.threads.get? c = none →
    a.world.dispatcher.pendingOf c = [] ∧ a.world.dispatcher.injectedOf c = []
  restored : (∀ c, a.world.dispatcher.threads.get? c = none) →
    a.world.dispatcher.claimedRoots = 0

/-- Nothing waits for a contact without a thread. -/
theorem Sound.idle (h : Sound maxActive d) (hnone : d.threads.get? c = none) :
    d.pendingOf c = [] ∧ d.injectedOf c = [] := by
  constructor
  · by_contra hpending
    have hget := h.pending c hpending
    rw [hnone] at hget
    cases hget
  · by_contra hinjected
    rcases h.injected c hinjected with ⟨stage, hget, -⟩
    rw [hnone] at hget
    cases hget

/-- A sum over values that are all empty. -/
theorem sum_values_eq_zero {ν : Type} (table : Dict String ν) (size : ν → Nat)
    (hempty : ∀ k v, table.get? k = some v → size v = 0) : (table.values.map size).sum = 0 := by
  apply List.sum_eq_zero_iff_forall_eq_nat.mpr
  intro n hn
  rcases List.mem_map.mp hn with ⟨v, hv, rfl⟩
  rcases Dict.mem_values.mp hv with ⟨k, hget⟩
  exact hempty k v hget

theorem Sound.restored (h : Sound maxActive d) (hnone : ∀ c, d.threads.get? c = none) :
    d.claimedRoots = 0 := by
  have hpending : (d.pending.values.map List.length).sum = 0 := by
    apply sum_values_eq_zero
    intro k roots hget
    have hempty := (h.idle (hnone k)).1
    unfold Dispatcher.pendingOf at hempty
    rw [hget, Option.getD_some] at hempty
    rw [hempty, List.length_nil]
  have hinjected : (d.injected.values.map List.length).sum = 0 := by
    apply sum_values_eq_zero
    intro k roots hget
    have hempty := (h.idle (hnone k)).2
    unfold Dispatcher.injectedOf at hempty
    rw [hget, Option.getD_some] at hempty
    rw [hempty, List.length_nil]
  have hthreads : (d.threads.values.map Stage.load).sum = 0 := by
    apply sum_values_eq_zero
    intro k stage hget
    rw [hnone k] at hget
    cases hget
  have hstranded : (d.stranded.map List.length).sum = 0 := by
    apply List.sum_eq_zero_iff_forall_eq_nat.mpr
    intro n hn
    rcases List.mem_map.mp hn with ⟨roots, hmem, rfl⟩
    rw [h.stranded roots hmem, List.length_nil]
  have hcount := h.count
  unfold Dispatcher.held at hcount
  omega

theorem Sound.accounted (h : Sound maxActive a.world.dispatcher) (hstarted : a.wedged = []) :
    Accounted maxActive a where
  counted := h.count
  bounded := h.bounded
  started := hstarted
  idle _ hnone := h.idle hnone
  restored hnone := h.restored hnone

theorem sound_initial (maxActive : Nat) (t : Seconds) :
    Sound maxActive (World.initial t).dispatcher where
  count := rfl
  bounded := Nat.zero_le _
  pending c hc := (hc rfl).elim
  injected c hc := (hc rfl).elim
  solid c stage hget := by cases hget
  stranded roots hmem := by cases hmem

/-- In runs whose steps meet the condition the count is kept. -/
theorem kept_sound (h : ((accounts host maxActive).restrict Account.Kept).Reachable a) :
    Sound maxActive a.world.dispatcher ∧ a.wedged = [] := by
  apply h.invariant (I := fun a => Sound maxActive a.world.dispatcher ∧ a.wedged = [])
  · rintro _ ⟨t, rfl⟩
    exact ⟨sound_initial maxActive t, rfl⟩
  · rintro a e a' _ ⟨hsound, hstarted⟩ ⟨hkept, hnext⟩
    rcases hsound.next hkept hnext with ⟨hsound', hwedged⟩
    exact ⟨hsound', hwedged.trans hstarted⟩

/-- A thread that ends while it holds roots leaves them counted. -/
theorem Sound.lost (h : Sound maxActive d) {stage : Stage} (hget : d.threads.get? c = some stage)
    (hload : 0 < stage.load) :
    d.claimedRoots ≠ ({ d with threads := d.threads.pop c } : Dispatcher).held := by
  have hthreads := d.threads.sum_pop c Stage.load
  rw [hget] at hthreads
  have hcount := h.count
  unfold Dispatcher.held at hcount ⊢
  simp only [Option.map_some, Option.getD_some] at hthreads ⊢
  omega

/-- A thread step that does not meet the condition ends a thread with roots in its hands. -/
theorem Sound.not_kept (h : Sound maxActive w.dispatcher) {step : ThreadStep} {stage : Stage}
    (hget : w.dispatcher.threads.get? c = some stage) (hkept : ¬ step.Kept stage)
    (hnext : w.threadNext host maxActive c step stage = some w') :
    w'.dispatcher.claimedRoots ≠ w'.dispatcher.held := by
  rcases h.solid c stage hget with ⟨hwaiting, hpeopled⟩
  unfold World.threadNext at hnext
  split at hnext
  case h_12 settled rest =>
    cases hnext
    apply h.lost hget
    have hpos : 0 < settled.length := List.length_pos_of_ne_nil hpeopled
    simp only [Stage.load, Stage.settled]
    omega
  case h_15 rest =>
    cases hnext
    apply h.lost hget
    rcases List.exists_cons_of_ne_nil hkept with ⟨batch, later, rfl⟩
    have hpos : 0 < batch.length :=
      List.length_pos_of_ne_nil (hwaiting batch List.mem_cons_self)
    simp only [Stage.load, Stage.waiting, List.map_cons, List.sum_cons]
    omega
  case h_16 => cases hnext
  all_goals exact absurd trivial hkept

/-- Every other step breaks the account. -/
theorem not_accounted (h : Sound maxActive a.world.dispatcher) (hkept : ¬ a.Kept e)
    (hnext : a.next host maxActive e = some a') : ¬ Accounted maxActive a' := by
  intro haccounted
  cases e with
  | enqueue => exact hkept trivial
  | start => exact hkept trivial
  | fail submit =>
      cases hnext
      exact hkept (List.append_eq_nil_iff.mp haccounted.started).2
  | other step =>
      rcases Account.next_other hnext with ⟨w, hw, rfl⟩
      cases step with
      | thread c thread =>
          simp only [Account.Kept, not_forall] at hkept
          rcases hkept with ⟨stage, hget, hkept⟩
          simp only [World.next, hget] at hw
          exact h.not_kept hget hkept hw haccounted.counted
      | _ => exact hkept trivial

/-- From the construction of the dispatcher on its account is right all along a run exactly if
every step of the run meets the condition. -/
theorem accounting_law {s t : Account} {es : List AccountStep}
    (hinit : (accounts host maxActive).init s) (hrun : (accounts host maxActive).Run s es t) :
    (∀ fs u, fs <+: es → (accounts host maxActive).Run s fs u → Accounted maxActive u) ↔
      ((accounts host maxActive).restrict Account.Kept).Run s es t := by
  have hstart : ((accounts host maxActive).restrict Account.Kept).Reachable s := .init hinit
  apply TransitionSystem.Run.restrict_iff _ _ _ hstart hrun
  · intro a e b c hb hc
    exact Option.some.inj (hb.symm.trans hc)
  · intro a hreach
    rcases kept_sound hreach with ⟨hsound, hstarted⟩
    exact hsound.accounted hstarted
  · intro a e b hreach hnext hkept
    exact not_accounted (kept_sound hreach).1 hkept hnext

/-! ## A run that fails, and a submit that fails -/

/-- The dispatcher as it is constructed. -/
def Account.initial : Account := ⟨.initial 0, [], []⟩

/-- Take these steps one after another. -/
def playAccount (steps : List AccountStep) : Option Account :=
  TransitionSystem.play (Account.next Maintenance.countingHost 16) .initial steps

theorem playAccount_run {steps : List AccountStep} {a : Account}
    (hplay : playAccount steps = some a) :
    (accounts Maintenance.countingHost 16).Run .initial steps a :=
  TransitionSystem.Run.play (fun _ _ _ h => h) hplay

/-- A message whose run raises and is queued again. -/
def failedRun : List AccountStep :=
  [.enqueue 0 "c1" "hello" false 0, .start 0, .other (.thread "c1" .pop),
    .other (.thread "c1" .nextBatch), .other (.thread "c1" (.finish true)),
    .other (.thread "c1" .collect), .other (.thread "c1" (.retry 1 false)),
    .other (.thread "c1" .release), .other (.thread "c1" (.replay 100 false 1 false)),
    .other (.thread "c1" .nextBatch), .other (.thread "c1" .pop)]

/-- The slot of the run is free again. -/
theorem accounting_law_failed : (playAccount failedRun).isSome = true ∧
    ∀ a, playAccount failedRun = some a → Accounted 16 a := by
  constructor
  · decide +kernel
  · intro a ha
    have hrun := playAccount_run ha
    apply (accounting_law ⟨0, rfl⟩ hrun).mpr _ failedRun a (List.prefix_refl _) hrun
    apply hrun.guarded
    intro e he b
    simp only [failedRun, List.mem_cons, List.not_mem_nil, or_false] at he
    rcases he with rfl | rfl | rfl | rfl | rfl | rfl | rfl | rfl | rfl | rfl | rfl <;>
      simp [Account.Kept, ThreadStep.Kept]

/-- Two contacts have written, and the second root cannot be queued. -/
def failedSubmit : List AccountStep := [.enqueue 0 "c1" "hello" false 0, .fail 0]

/-- The first contact is marked as running and holds a slot, and its thread is never started. -/
theorem wedged_contact :
    (playAccount failedSubmit).map (fun a => (a.wedged, a.world.dispatcher.threads.keys,
        a.world.dispatcher.claimedRoots)) = some (["c1"], ["c1"], 1) ∧
      ∃ a, (accounts Maintenance.countingHost 16).Run .initial failedSubmit a ∧
        ¬ Accounted 16 a := by
  have hplay : (playAccount failedSubmit).map (fun a => (a.wedged, a.world.dispatcher.threads.keys,
      a.world.dispatcher.claimedRoots)) = some (["c1"], ["c1"], 1) := by decide +kernel
  refine ⟨hplay, ?_⟩
  rcases Option.map_eq_some_iff.mp hplay with ⟨a, ha, heq⟩
  refine ⟨a, playAccount_run ha, ?_⟩
  intro haccounted
  rw [haccounted.started] at heq
  cases heq

end Dispatch
end Stemcell
