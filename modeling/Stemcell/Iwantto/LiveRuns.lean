import Stemcell.Lib.Dict
import Stemcell.Lib.Transition

/-!
# The registry of live runs

A run that can take a message while it works registers how to reach it for as long as its block is
open.  A block remembers what it replaced and puts it back when it is left, if it is still the one
registered.  Blocks of one key may overlap and be left in any order.

Main results:

- Definition `LiveWorld.next`: entering and leaving blocks, and offers.
- Theorem `injection_law`: where no block that is left puts back a block that was left before, every
  offer reaches an open block of its key, and a key without open blocks has no registration.
- Theorem `closed_block_restored`: two blocks left in the order in which they were entered.

Current gaps:

- What a run does with a text is its answer only.
-/

namespace Stemcell
namespace Iwantto

open Lib

/-! ## Blocks -/

/-- `_key`: a kind and an actor. -/
abbrev ActorKey := String × String

/-- An `accepting` block.  Its number stands for its `submit`, which no other block has. -/
structure Block where
  serial : ℕ
  key : ActorKey
  previous : Option ℕ
deriving DecidableEq

/-- An offer, with what it reached and returned, and the blocks open and entered by then. -/
structure Offer where
  key : ActorKey
  text : String
  reached : Option ℕ
  returned : Bool
  blocks : List Block
  history : List Block
deriving DecidableEq

/-- The registry, the open blocks, all blocks ever entered, in order, and the offers made. -/
structure LiveWorld where
  live : Dict ActorKey ℕ
  blocks : List Block
  history : List Block
  offers : List Offer

def LiveWorld.initial : LiveWorld where
  live := Dict.empty
  blocks := []
  history := []
  offers := []

/-- A step.  An offer is answered by the run it reaches, or the run raises. -/
inductive LiveStep
  | enter (key : ActorKey)
  | leave (block : Block)
  | offer (key : ActorKey) (text : String) (answer : Option Bool)

/-- What the `finally` of a block makes of the registry. -/
def restore (live : Dict ActorKey ℕ) (block : Block) : Dict ActorKey ℕ :=
  if live.get? block.key = some block.serial then
    match block.previous with
    | none => live.pop block.key
    | some previous => live.set block.key previous
  else live

/-- `offer`: what it reaches, and what it returns. -/
def offerTo (live : Dict ActorKey ℕ) (key : ActorKey) (text : String) (answer : Option Bool) :
    Option ℕ × Bool :=
  if text = "" then (none, false)
  else
    match live.get? key with
    | none => (none, false)
    | some submit => (some submit, answer.getD false)

def LiveWorld.next (w : LiveWorld) : LiveStep → Option LiveWorld
  | .enter key =>
      let block : Block :=
        { serial := w.history.length, key := key, previous := w.live.get? key }
      some
        { w with
          live := w.live.set key block.serial
          blocks := w.blocks ++ [block]
          history := w.history ++ [block] }
  | .leave block =>
      if block ∈ w.blocks then
        some { w with live := restore w.live block, blocks := w.blocks.erase block }
      else none
  | .offer key text answer =>
      let made := offerTo w.live key text answer
      some
        { w with
          offers := w.offers ++
            [{ key := key, text := text, reached := made.1, returned := made.2
               blocks := w.blocks, history := w.history }] }

def liveSystem : TransitionSystem LiveWorld LiveStep where
  init w := w = .initial
  step w e w' := w.next e = some w'

/-! ## The law and its condition -/

/-- The most recently entered block of a key. -/
def latest (history : List Block) (key : ActorKey) : Option Block :=
  (history.filter fun block => block.key = key).getLast?

/-- An offer reaches an open block of its key only, and reaches one where the block of its key that
was entered last is open. -/
structure Offer.Fair (o : Offer) : Prop where
  own : ∀ serial, o.reached = some serial →
    ∃ block ∈ o.blocks, block.serial = serial ∧ block.key = o.key
  reaches : ∀ block, o.text ≠ "" → latest o.history o.key = some block → block ∈ o.blocks →
    o.reached ≠ none

/-- The law: every offer is fair, and a key without open blocks has no registration. -/
structure InjectionLaw (w : LiveWorld) : Prop where
  offers : ∀ o ∈ w.offers, o.Fair
  cleared : ∀ key, (∀ block ∈ w.blocks, block.key ≠ key) → w.live.get? key = none

/-- The condition on a step: a block that is left while it is registered puts back nothing, or a
block that is open. -/
def RestoresOpen (w : LiveWorld) : LiveStep → Prop
  | .leave block =>
      w.live.get? block.key = some block.serial →
        ∀ previous, block.previous = some previous → ∃ other ∈ w.blocks, other.serial = previous
  | _ => True

/-! ## Runs -/

/-- The invariant of a run. -/
structure LiveInv (w : LiveWorld) : Prop where
  fair : ∀ o ∈ w.offers, o.Fair
  entered : ∀ block ∈ w.blocks, block ∈ w.history
  numbered : ∀ block ∈ w.history, block.serial < w.history.length
  apart : (w.history.map Block.serial).Nodup
  nodup : w.blocks.Nodup
  previous : ∀ block ∈ w.history, ∀ previous, block.previous = some previous →
    ∃ other ∈ w.history, other.serial = previous ∧ other.key = block.key ∧
      other.serial < block.serial
  live : ∀ key serial, w.live.get? key = some serial →
    ∃ block ∈ w.blocks, block.serial = serial ∧ block.key = key
  latest : ∀ key block, Iwantto.latest w.history key = some block → block ∈ w.blocks →
    w.live.get? key = some block.serial

section Runs

variable {w w' : LiveWorld} {e : LiveStep}

/-- Blocks are told apart by their numbers. -/
theorem LiveInv.eq_of_serial (h : LiveInv w) {a b : Block} (ha : a ∈ w.history)
    (hb : b ∈ w.history) (hserial : a.serial = b.serial) : a = b :=
  List.inj_on_of_nodup_map h.apart ha hb hserial

theorem latest_append (history : List Block) (block : Block) (key : ActorKey) :
    latest (history ++ [block]) key = if block.key = key then some block else latest history key := by
  unfold latest
  rw [List.filter_append]
  by_cases hkey : block.key = key
  · simp [hkey]
  · simp [hkey]

theorem mem_of_latest {history : List Block} {key : ActorKey} {block : Block}
    (h : latest history key = some block) : block ∈ history ∧ block.key = key := by
  have hmem := List.mem_of_getLast? h
  rcases List.mem_filter.mp hmem with ⟨hhistory, hkey⟩
  exact ⟨hhistory, by simpa using hkey⟩

/-- Entering a block registers it. -/
theorem LiveInv.enter (h : LiveInv w) {key : ActorKey} (hstep : w.next (.enter key) = some w') :
    LiveInv w' := by
  dsimp only [LiveWorld.next] at hstep
  rw [Option.some.injEq] at hstep
  subst hstep
  have hfresh : ∀ block ∈ w.history, block.serial ≠ w.history.length := by
    intro block hblock
    exact Nat.ne_of_lt (h.numbered block hblock)
  constructor
  · exact h.fair
  · intro block hblock
    rcases List.mem_append.mp hblock with hold | hnew
    · exact List.mem_append_left _ (h.entered block hold)
    · exact List.mem_append_right _ hnew
  · intro block hblock
    rw [List.length_append, List.length_singleton]
    rcases List.mem_append.mp hblock with hold | hnew
    · exact Nat.lt_succ_of_lt (h.numbered block hold)
    · rw [List.mem_singleton.mp hnew]
      exact Nat.lt_succ_self _
  · rw [List.map_append, List.nodup_append]
    refine ⟨h.apart, List.nodup_singleton _, ?_⟩
    intro serial hserial other hother
    rcases List.mem_map.mp hserial with ⟨block, hblock, rfl⟩
    rw [List.map_singleton, List.mem_singleton] at hother
    rw [hother]
    exact hfresh block hblock
  · rw [List.nodup_append]
    refine ⟨h.nodup, List.nodup_singleton _, ?_⟩
    intro block hblock other hother
    rw [List.mem_singleton.mp hother]
    intro heq
    apply hfresh block (h.entered block hblock)
    rw [heq]
  · intro block hblock previous hprevious
    rcases List.mem_append.mp hblock with hold | hnew
    · rcases h.previous block hold previous hprevious with ⟨other, hother, hrest⟩
      exact ⟨other, List.mem_append_left _ hother, hrest⟩
    · rw [List.mem_singleton.mp hnew] at hprevious ⊢
      dsimp only at hprevious ⊢
      rcases h.live key previous hprevious with ⟨other, hother, hserial, hkey⟩
      have hentered := h.entered other hother
      exact ⟨other, List.mem_append_left _ hentered, hserial, hkey, h.numbered other hentered⟩
  · intro key' serial hserial
    dsimp only at hserial ⊢
    rw [Dict.get?_set] at hserial
    by_cases hkey : key = key'
    · rw [if_pos hkey, Option.some.injEq] at hserial
      exact ⟨_, List.mem_append_right _ (List.mem_singleton_self _), hserial, hkey⟩
    · rw [if_neg hkey] at hserial
      rcases h.live key' serial hserial with ⟨block, hblock, hrest⟩
      exact ⟨block, List.mem_append_left _ hblock, hrest⟩
  · intro key' block hlatest hblock
    dsimp only at hlatest hblock ⊢
    rw [latest_append] at hlatest
    dsimp only at hlatest
    rw [Dict.get?_set]
    by_cases hkey : key = key'
    · rw [if_pos hkey, Option.some.injEq] at hlatest
      rw [if_pos hkey, ← hlatest]
    · rw [if_neg hkey] at hlatest
      rw [if_neg hkey]
      rcases List.mem_append.mp hblock with hold | hnew
      · exact h.latest key' block hlatest hold
      · rw [List.mem_singleton.mp hnew] at hlatest
        exact absurd (mem_of_latest hlatest).2 hkey

/-- A block that is left registers nothing but an open block. -/
theorem LiveInv.leave (h : LiveInv w) {block : Block} (hopen : RestoresOpen w (.leave block))
    (hstep : w.next (.leave block) = some w') : LiveInv w' := by
  dsimp only [LiveWorld.next] at hstep
  by_cases hblock : block ∈ w.blocks
  swap
  · rw [if_neg hblock] at hstep
    cases hstep
  rw [if_pos hblock, Option.some.injEq] at hstep
  subst hstep
  have hmem (other : Block) : other ∈ w.blocks.erase block ↔ other ≠ block ∧ other ∈ w.blocks :=
    h.nodup.mem_erase_iff
  have hentered := h.entered block hblock
  constructor
  · exact h.fair
  · intro other hother
    exact h.entered other ((hmem other).mp hother).2
  · exact h.numbered
  · exact h.apart
  · exact h.nodup.erase block
  · exact h.previous
  · intro key serial hserial
    dsimp only at hserial ⊢
    unfold restore at hserial
    by_cases hregistered : w.live.get? block.key = some block.serial
    · rw [if_pos hregistered] at hserial
      cases hprevious : block.previous with
      | none =>
          rw [hprevious] at hserial
          dsimp only at hserial
          rw [Dict.get?_pop_eq_some_iff] at hserial
          rcases h.live key serial hserial.2 with ⟨other, hother, hrest⟩
          refine ⟨other, (hmem other).mpr ⟨?_, hother⟩, hrest⟩
          rintro rfl
          exact hserial.1 hrest.2
      | some previous =>
          rw [hprevious] at hserial
          dsimp only at hserial
          rw [Dict.get?_set] at hserial
          by_cases hkey : block.key = key
          · rw [if_pos hkey, Option.some.injEq] at hserial
            rcases hopen hregistered previous hprevious with ⟨other, hother, hnumber⟩
            rcases h.previous block hentered previous hprevious with
              ⟨known, hknown, hknownSerial, hknownKey, hlt⟩
            have hsame : other = known :=
              h.eq_of_serial (h.entered other hother) hknown (hnumber.trans hknownSerial.symm)
            refine ⟨other, (hmem other).mpr ⟨?_, hother⟩, hnumber.trans hserial, ?_⟩
            · rintro rfl
              rw [hsame] at hlt
              exact Nat.lt_irrefl _ hlt
            · rw [hsame, hknownKey, hkey]
          · rw [if_neg hkey] at hserial
            rcases h.live key serial hserial with ⟨other, hother, hrest⟩
            refine ⟨other, (hmem other).mpr ⟨?_, hother⟩, hrest⟩
            rintro rfl
            exact hkey hrest.2
    · rw [if_neg hregistered] at hserial
      rcases h.live key serial hserial with ⟨other, hother, hnumber, hkey⟩
      refine ⟨other, (hmem other).mpr ⟨?_, hother⟩, hnumber, hkey⟩
      rintro rfl
      apply hregistered
      rw [hkey, hserial, hnumber]
  · intro key other hlatest hother
    dsimp only at hlatest hother ⊢
    rcases (hmem other).mp hother with ⟨hne, hold⟩
    have hlive := h.latest key other hlatest hold
    have hkey := (mem_of_latest hlatest).2
    unfold restore
    by_cases hregistered : w.live.get? block.key = some block.serial
    · have hkeys : block.key ≠ key := by
        rintro rfl
        apply hne
        apply h.eq_of_serial (h.entered other hold) hentered
        rw [hregistered, Option.some.injEq] at hlive
        exact hlive.symm
      rw [if_pos hregistered]
      cases block.previous with
      | none =>
          dsimp only
          rw [Dict.get?_pop_of_ne _ hkeys]
          exact hlive
      | some previous =>
          dsimp only
          rw [Dict.get?_set_of_ne _ _ hkeys]
          exact hlive
    · rw [if_neg hregistered]
      exact hlive

/-- An offer is fair. -/
theorem LiveInv.offer (h : LiveInv w) {key : ActorKey} {text : String} {answer : Option Bool}
    (hstep : w.next (.offer key text answer) = some w') : LiveInv w' := by
  dsimp only [LiveWorld.next] at hstep
  rw [Option.some.injEq] at hstep
  subst hstep
  refine ⟨?_, h.entered, h.numbered, h.apart, h.nodup, h.previous, h.live, h.latest⟩
  intro o ho
  rcases List.mem_append.mp ho with hold | hnew
  · exact h.fair o hold
  · rw [List.mem_singleton.mp hnew]
    constructor
    · intro serial hserial
      dsimp only at hserial ⊢
      unfold offerTo at hserial
      by_cases htext : text = ""
      · rw [if_pos htext] at hserial
        cases hserial
      · rw [if_neg htext] at hserial
        cases hlive : w.live.get? key with
        | none =>
            rw [hlive] at hserial
            cases hserial
        | some submit =>
            rw [hlive] at hserial
            cases hserial
            exact h.live key serial hlive
    · intro block htext hlatest hblock
      dsimp only at htext hlatest hblock ⊢
      unfold offerTo
      rw [if_neg htext, h.latest key block hlatest hblock]
      exact Option.some_ne_none _

theorem LiveInv.step (h : LiveInv w) (hopen : RestoresOpen w e) (hstep : w.next e = some w') :
    LiveInv w' := by
  cases e with
  | enter key => exact h.enter hstep
  | leave block => exact h.leave hopen hstep
  | offer key text answer => exact h.offer hstep

theorem LiveInv.law (h : LiveInv w) : InjectionLaw w := by
  refine ⟨h.fair, ?_⟩
  intro key hclosed
  cases hlive : w.live.get? key with
  | none => rfl
  | some serial =>
      rcases h.live key serial hlive with ⟨block, hblock, -, hkey⟩
      exact absurd hkey (hclosed block hblock)

theorem liveInv_initial : LiveInv .initial := by
  constructor <;> simp [LiveWorld.initial, latest]

/-- In every run in which no block puts back one that was left, offers reach open blocks and a key
without open blocks has no registration. -/
theorem injection_law (h : (liveSystem.restrict RestoresOpen).Reachable w) : InjectionLaw w := by
  have hinv : LiveInv w := by
    apply h.invariant
    · rintro w rfl
      exact liveInv_initial
    · intro w e w' _ hw hstep
      exact hw.step hstep.1 hstep.2
  exact hinv.law

end Runs

/-! ## Two blocks of one key -/

def contactKey : ActorKey :=
  ("manager", "carbon-a")

def firstBlock : Block :=
  { serial := 0, key := contactKey, previous := none }

def secondBlock : Block :=
  { serial := 1, key := contactKey, previous := some 0 }

/-- The inner block is left first. -/
theorem injection_law_nested :
    ∃ w, TransitionSystem.play LiveWorld.next .initial
        [.enter contactKey, .enter contactKey, .leave secondBlock] = some w ∧
      w.blocks = [firstBlock] ∧ InjectionLaw w := by
  have hinit : (liveSystem.restrict RestoresOpen).Reachable .initial := .init rfl
  have henter (w : LiveWorld) (key : ActorKey) : RestoresOpen w (.enter key) := trivial
  have hfirst := hinit.step ⟨henter _ contactKey, rfl⟩
  have hsecond := hfirst.step ⟨henter _ contactKey, rfl⟩
  refine ⟨_, rfl, by decide +kernel, injection_law (hsecond.step (e := .leave secondBlock) ⟨?_, rfl⟩)⟩
  intro _ previous hprevious
  cases hprevious
  exact ⟨firstBlock, by decide +kernel, rfl⟩

/-- The outer block is left first: when the inner one is left too, it puts back the outer one, and
an offer of a text goes to a run that is over. -/
theorem closed_block_restored :
    ∃ w, liveSystem.Reachable w ∧ w.blocks = [] ∧ w.live.get? contactKey = some 0 ∧
      (∃ o ∈ w.offers, o.reached = some 0 ∧ o.blocks = []) ∧ ¬ InjectionLaw w := by
  have hplay : TransitionSystem.play LiveWorld.next .initial
      [.enter contactKey, .enter contactKey, .leave firstBlock, .leave secondBlock,
        .offer contactKey "late" (some false)] = some _ := rfl
  have hinit : liveSystem.Reachable .initial := .init rfl
  have hlive := hinit.play (fun _ _ _ h => h) hplay
  refine ⟨_, hlive, by decide +kernel, by decide +kernel,
    ⟨_, List.mem_singleton_self _, by decide +kernel, by decide +kernel⟩, ?_⟩
  intro hlaw
  have hnone := hlaw.cleared contactKey (by decide +kernel)
  revert hnone
  decide +kernel

end Iwantto
end Stemcell
