import Stemcell.Lib.Dict
import Stemcell.Lib.Transition
import Mathlib.Data.List.Range
import Mathlib.Data.List.Perm.Basic

/-!
# The best-effort outbox

Bookkeeping that must not hold up messages goes through a bounded queue.  A key is a lane: one item
of it runs at a time.  A coalesced submission changes the item of its lane that is still queued, if
there is one, in place; a table of its own points to these items.

Main results:

- Definition `Outbox.next`: submissions, the steps of the workers, and closing.
- Theorem `outbox_law`: the law of the lanes, in every reachable state.
- Theorem `Outbox.removed`: removing an item by equality removes the very item that was chosen.

Current gaps:

- A call is opaque here; how it ends is not modelled, only that it does.
- Waiting and waking are left out: a worker that is free may look for an item at any time.
-/

namespace Stemcell
namespace Background

open Lib

/-! ## Items -/

variable {C : Type}

/-- A queued call: what is called with which arguments, its lane, and whether it is coalesced. -/
structure Item (C : Type) where
  call : C
  key : String
  coalesce : Bool
deriving DecidableEq

/-- The submission gets a place of its own in its lane. -/
def Item.plain (item : Item C) : Bool :=
  !(item.coalesce && decide (item.key ≠ ""))

/-- An item as an object: with its identity, and the number of the submission whose call it holds. -/
structure Obj (C : Type) where
  address : ℕ
  serial : ℕ
  item : Item C
deriving DecidableEq

/-- The submission that the object holds. -/
def Obj.entry (o : Obj C) : ℕ × Item C :=
  (o.serial, o.item)

/-- An assignment to the fields of the object at an address, wherever it is referred to. -/
def mutate (address serial : ℕ) (call : C) (os : List (Obj C)) : List (Obj C) :=
  os.map fun o =>
    if o.address = address then { o with serial := serial, item := { o.item with call := call } }
    else o

/-- The outbox, with all submissions accepted, those that were replaced, by which later one, and the
items started, in order. -/
structure Outbox (C : Type) where
  pending : List (Obj C)
  coalesced : Dict String ℕ
  runningKeys : List String
  running : List (Obj C)
  closed : Bool
  objects : ℕ
  accepted : List (ℕ × Item C)
  replaced : List (ℕ × ℕ)
  started : List (ℕ × Item C)

def Outbox.new : Outbox C where
  pending := []
  coalesced := Dict.empty
  runningKeys := []
  running := []
  closed := false
  objects := 0
  accepted := []
  replaced := []
  started := []

inductive OutboxStep (C : Type)
  | submit (call : C) (key : String) (coalesce : Bool)
  | take
  | finish (address : ℕ)
  | close

namespace Outbox

variable (maxPending workers : ℕ)

/-- A new item at the end of the queue. -/
def push (w : Outbox C) (item : Item C) : Outbox C :=
  { w with
    pending := w.pending ++ [⟨w.objects, w.accepted.length, item⟩]
    coalesced := if item.plain then w.coalesced else w.coalesced.set item.key w.objects
    objects := w.objects + 1
    accepted := w.accepted ++ [(w.accepted.length, item)] }

/-- The queued item of the lane gets the call of a later submission. -/
def replace (w : Outbox C) (address : ℕ) (item : Item C) : Outbox C :=
  { w with
    pending := mutate address w.accepted.length item.call w.pending
    running := mutate address w.accepted.length item.call w.running
    accepted := w.accepted ++ [(w.accepted.length, item)]
    replaced := w.replaced ++
      ((w.pending.filter fun o => o.address = address).map fun o =>
        (o.serial, w.accepted.length)) }

/-- `submit`, with what it returns. -/
def submit (w : Outbox C) (item : Item C) : Outbox C × Bool :=
  if w.closed then (w, false)
  else
    match if item.plain then none else w.coalesced.get? item.key with
    | some address => (w.replace address item, true)
    | none => if maxPending ≤ w.pending.length then (w, false) else (w.push item, true)

/-- The lane of the item is free. -/
def eligible (w : Outbox C) (o : Obj C) : Bool :=
  !(decide (o.item.key ≠ "") && decide (o.item.key ∈ w.runningKeys))

/-- The item that `_next_item` chooses. -/
def nextItem (w : Outbox C) : Option (Obj C) :=
  w.pending.find? w.eligible

variable [DecidableEq C]

/-- What `_next_item` does with the item it chose.  The queue removes the first item that equals
it. -/
def start (w : Outbox C) (o : Obj C) : Outbox C :=
  { w with
    pending := w.pending.eraseP fun other => other.item = o.item
    coalesced := if o.item.plain then w.coalesced else w.coalesced.pop o.item.key
    runningKeys := if o.item.key = "" then w.runningKeys else o.item.key :: w.runningKeys
    running := w.running ++ [o]
    started := w.started ++ [o.entry] }

/-- The end of a call, in `_worker`. -/
def finish (w : Outbox C) (o : Obj C) : Outbox C :=
  { w with
    runningKeys :=
      if o.item.key = "" then w.runningKeys
      else w.runningKeys.filter fun key => key ≠ o.item.key
    running := w.running.filter fun other => other.address ≠ o.address }

def next (w : Outbox C) : OutboxStep C → Option (Outbox C)
  | .submit call key coalesce => some (w.submit maxPending ⟨call, key, coalesce⟩).1
  | .take =>
      if w.running.length < workers then w.nextItem.map w.start else none
  | .finish address =>
      (w.running.find? fun o => o.address = address).map w.finish
  | .close => some { w with closed := true }

/-- Outboxes with their steps. -/
def system : TransitionSystem (Outbox C) (OutboxStep C) where
  init w := w = .new
  step w e w' := w.next maxPending workers e = some w'

end Outbox

/-! ## The law -/

/-- A step of a worker. -/
def OutboxStep.isWork : OutboxStep C → Bool
  | .take => true
  | .finish _ => true
  | _ => false

/-- The entries of a lane that are not coalesced. -/
def plainEntries (key : String) (entries : List (ℕ × Item C)) : List (ℕ × Item C) :=
  entries.filter fun entry => entry.2.plain && decide (entry.2.key = key)

/-- What became of an accepted submission. -/
inductive Fate (w : Outbox C) (serial : ℕ) : Prop
  | started (h : serial ∈ w.started.map Prod.fst) (hreplaced : serial ∉ w.replaced.map Prod.fst)
      (hpending : serial ∉ w.pending.map Obj.serial) : Fate w serial
  | replaced (h : serial ∈ w.replaced.map Prod.fst) (hstarted : serial ∉ w.started.map Prod.fst)
      (hpending : serial ∉ w.pending.map Obj.serial) : Fate w serial
  | pending (h : serial ∈ w.pending.map Obj.serial) (hstarted : serial ∉ w.started.map Prod.fst)
      (hreplaced : serial ∉ w.replaced.map Prod.fst) : Fate w serial

/-- The law of the outbox. -/
structure OutboxLaw [DecidableEq C] (maxPending workers : ℕ) (w : Outbox C) : Prop where
  /-- At most one item of a lane runs at a time. -/
  lanes : ∀ key, key ≠ "" → (w.running.filter fun o => o.item.key = key).length ≤ 1
  bounded : w.pending.length ≤ maxPending
  /-- The items of a lane that are not coalesced start in the order of their submission. -/
  ordered : ∀ key, plainEntries key w.started <+: plainEntries key w.accepted
  /-- What is started or queued are submissions with their own arguments. -/
  carried : (∀ entry ∈ w.started, entry ∈ w.accepted) ∧ ∀ o ∈ w.pending, o.entry ∈ w.accepted
  once : (w.started.map Prod.fst).Nodup
  fates : ∀ entry ∈ w.accepted, Fate w entry.1
  /-- What replaces a submission is a later coalesced one of the same lane. -/
  replacements : ∀ pair ∈ w.replaced, ∃ old later, (pair.1, old) ∈ w.accepted ∧
    (pair.2, later) ∈ w.accepted ∧ pair.1 < pair.2 ∧ old.key = later.key ∧
      old.plain = false ∧ later.plain = false
  /-- The last coalesced submission of a lane is started or queued. -/
  latest : ∀ entry ∈ w.accepted, entry.2.plain = false →
    (∀ later ∈ w.accepted, later.2.plain = false → later.2.key = entry.2.key →
      later.1 ≤ entry.1) →
    entry ∈ w.started ∨ ∃ o ∈ w.pending, o.entry = entry
  /-- Where the workers can do nothing more, nothing is queued. -/
  settled : w.running = [] → w.nextItem = none → w.pending = []
  /-- Without new submissions the workers come to that point. -/
  drains : ∀ es w', (Outbox.system maxPending workers).Run w es w' →
    (∀ e ∈ es, e.isWork = true) → es.length ≤ 2 * w.pending.length + w.running.length

/-! ## The invariant -/

/-- What holds in every reachable state. -/
structure OutboxInv (maxPending : ℕ) (w : Outbox C) : Prop where
  addresses : ((w.pending ++ w.running).map Obj.address).Nodup
  fresh : ∀ o ∈ w.pending ++ w.running, o.address < w.objects
  table : ∀ key address, w.coalesced.get? key = some address →
    ∃ o ∈ w.pending, o.address = address ∧ o.item.key = key ∧ o.item.plain = false
  keys : ∀ key, key ∈ w.runningKeys ↔ key ≠ "" ∧ ∃ o ∈ w.running, o.item.key = key
  lanes : ∀ key, key ≠ "" → (w.running.filter fun o => o.item.key = key).length ≤ 1
  bounded : w.pending.length ≤ maxPending
  numbered : w.accepted.map Prod.fst = List.range w.accepted.length
  carried : (∀ entry ∈ w.started, entry ∈ w.accepted) ∧ ∀ o ∈ w.pending, o.entry ∈ w.accepted
  lined : ∀ key, plainEntries key w.accepted =
    plainEntries key w.started ++ plainEntries key (w.pending.map Obj.entry)
  split : (w.accepted.map Prod.fst).Perm
    (w.started.map Prod.fst ++ w.replaced.map Prod.fst ++ w.pending.map Obj.serial)
  replacements : ∀ pair ∈ w.replaced, ∃ old later, (pair.1, old) ∈ w.accepted ∧
    (pair.2, later) ∈ w.accepted ∧ pair.1 < pair.2 ∧ old.key = later.key ∧
      old.plain = false ∧ later.plain = false

section Steps

variable {maxPending workers : ℕ} {w w' : Outbox C} {item : Item C} {o : Obj C}

theorem outboxInv_new : OutboxInv maxPending (Outbox.new : Outbox C) := by
  constructor <;> simp [Outbox.new, plainEntries]

theorem plain_eq_false_iff : item.plain = false ↔ item.coalesce = true ∧ item.key ≠ "" := by
  simp [Item.plain]

theorem plainEntries_append (key : String) (xs ys : List (ℕ × Item C)) :
    plainEntries key (xs ++ ys) = plainEntries key xs ++ plainEntries key ys := by
  unfold plainEntries
  exact List.filter_append _ _

/-- The numbers of accepted submissions are below their count. -/
theorem OutboxInv.lt_length (h : OutboxInv maxPending w) {entry : ℕ × Item C}
    (hentry : entry ∈ w.accepted) : entry.1 < w.accepted.length := by
  have hmem := List.mem_map_of_mem (f := Prod.fst) hentry
  rw [h.numbered, List.mem_range] at hmem
  exact hmem

theorem OutboxInv.numbered_append (h : OutboxInv maxPending w) (item : Item C) :
    (w.accepted ++ [(w.accepted.length, item)]).map Prod.fst =
      List.range (w.accepted ++ [(w.accepted.length, item)]).length := by
  rw [List.map_append, h.numbered, List.length_append, List.length_singleton, List.range_succ]
  rfl

/-- What holds of the pairs of replaced and later submissions stays true with more submissions. -/
theorem OutboxInv.replacements_append (h : OutboxInv maxPending w) (entry : ℕ × Item C) :
    ∀ pair ∈ w.replaced, ∃ old later, (pair.1, old) ∈ w.accepted ++ [entry] ∧
      (pair.2, later) ∈ w.accepted ++ [entry] ∧ pair.1 < pair.2 ∧ old.key = later.key ∧
        old.plain = false ∧ later.plain = false := by
  intro pair hpair
  rcases h.replacements pair hpair with ⟨old, later, hold, hlater, hrest⟩
  exact ⟨old, later, List.mem_append_left _ hold, List.mem_append_left _ hlater, hrest⟩

/-- A new item. -/
theorem OutboxInv.push (h : OutboxInv maxPending w) (hroom : w.pending.length < maxPending)
    (item : Item C) : OutboxInv maxPending (w.push item) := by
  have hnew : ∀ other ∈ w.pending ++ w.running, other.address ≠ w.objects := by
    intro other hother
    exact Nat.ne_of_lt (h.fresh other hother)
  unfold Outbox.push
  constructor
  · have hperm : (w.pending ++ [(⟨w.objects, w.accepted.length, item⟩ : Obj C)] ++ w.running).Perm
        (⟨w.objects, w.accepted.length, item⟩ :: (w.pending ++ w.running)) := by
      rw [List.append_assoc]
      exact List.perm_middle
    dsimp only
    rw [(hperm.map Obj.address).nodup_iff, List.map_cons, List.nodup_cons]
    refine ⟨?_, h.addresses⟩
    intro hmem
    rcases List.mem_map.mp hmem with ⟨other, hother, haddress⟩
    exact hnew other hother haddress
  · intro other hother
    dsimp only at hother ⊢
    rw [List.mem_append, List.mem_append, List.mem_singleton] at hother
    rcases hother with (hold | hnewest) | hrunning
    · exact Nat.lt_succ_of_lt (h.fresh other (List.mem_append_left _ hold))
    · rw [hnewest]
      exact Nat.lt_succ_self _
    · exact Nat.lt_succ_of_lt (h.fresh other (List.mem_append_right _ hrunning))
  · intro key address hget
    dsimp only at hget ⊢
    have hold : w.coalesced.get? key = some address →
        ∃ o ∈ w.pending ++ [⟨w.objects, w.accepted.length, item⟩], o.address = address ∧
          o.item.key = key ∧ o.item.plain = false := by
      intro hget
      rcases h.table key address hget with ⟨other, hother, hrest⟩
      exact ⟨other, List.mem_append_left _ hother, hrest⟩
    cases hplain : item.plain with
    | true =>
        rw [hplain, if_pos rfl] at hget
        exact hold hget
    | false =>
        rw [hplain, if_neg Bool.false_ne_true, Dict.get?_set] at hget
        by_cases hkey : item.key = key
        · rw [if_pos hkey, Option.some.injEq] at hget
          exact ⟨_, List.mem_append_right _ (List.mem_singleton_self _), hget, hkey, hplain⟩
        · rw [if_neg hkey] at hget
          exact hold hget
  · exact h.keys
  · exact h.lanes
  · dsimp only
    rw [List.length_append, List.length_singleton]
    exact hroom
  · exact h.numbered_append item
  · constructor
    · intro entry hentry
      exact List.mem_append_left _ (h.carried.1 entry hentry)
    · intro other hother
      rcases List.mem_append.mp hother with hold | hnewest
      · exact List.mem_append_left _ (h.carried.2 other hold)
      · rw [List.mem_singleton.mp hnewest]
        exact List.mem_append_right _ (List.mem_singleton_self _)
  · intro key
    dsimp only
    rw [plainEntries_append, h.lined key, List.map_append, plainEntries_append, List.append_assoc]
    rfl
  · dsimp only
    rw [List.map_append, List.map_append, ← List.append_assoc]
    exact h.split.append_right _
  · exact h.replacements_append _

/-- The objects that an assignment leaves alone. -/
theorem mutate_eq_self {address serial : ℕ} {call : C} {os : List (Obj C)}
    (h : ∀ o ∈ os, o.address ≠ address) : mutate address serial call os = os := by
  unfold mutate
  conv_rhs => rw [← List.map_id os]
  apply List.map_congr_left
  intro o ho
  rw [if_neg (h o ho)]
  rfl

/-- Splitting a list of objects at an address. -/
theorem mutate_split (serial : ℕ) (call : C) {before behind : List (Obj C)}
    (hnodup : ((before ++ o :: behind).map Obj.address).Nodup) :
    mutate o.address serial call (before ++ o :: behind) =
        before ++ { o with serial := serial, item := { o.item with call := call } } :: behind ∧
      ((before ++ o :: behind).filter fun other => other.address = o.address) = [o] := by
  rw [List.map_append, List.map_cons, List.nodup_append, List.nodup_cons] at hnodup
  rcases hnodup with ⟨-, ⟨hbehind, -⟩, hapart⟩
  have hbefore : ∀ other ∈ before, other.address ≠ o.address := by
    intro other hother
    exact hapart _ (List.mem_map_of_mem hother) _ List.mem_cons_self
  have hafter : ∀ other ∈ behind, other.address ≠ o.address := by
    intro other hother heq
    apply hbehind
    rw [← heq]
    exact List.mem_map_of_mem hother
  constructor
  · have hsplit : mutate o.address serial call (before ++ o :: behind) =
        mutate o.address serial call before ++
          mutate o.address serial call [o] ++ mutate o.address serial call behind := by
      unfold mutate
      rw [List.map_append, List.map_cons, List.append_assoc, List.map_singleton,
        List.singleton_append]
    rw [hsplit, mutate_eq_self hbefore, mutate_eq_self hafter, mutate, List.map_singleton,
      if_pos rfl, List.append_assoc]
    rfl
  · rw [List.filter_append, List.filter_cons_of_pos (by simp)]
    have hnone (os : List (Obj C)) (hos : ∀ other ∈ os, other.address ≠ o.address) :
        (os.filter fun other => other.address = o.address) = [] := by
      rw [List.filter_eq_nil_iff]
      intro other hother
      simpa using hos other hother
    rw [hnone before hbefore, hnone behind hafter, List.nil_append]

/-- A coalesced submission takes the place of the queued one of its lane. -/
theorem OutboxInv.replace (h : OutboxInv maxPending w) {address : ℕ}
    (hplain : item.plain = false) (hget : w.coalesced.get? item.key = some address) :
    OutboxInv maxPending (w.replace address item) := by
  rcases h.table item.key address hget with ⟨o, ho, rfl, hkey, hcoalesced⟩
  rcases List.append_of_mem ho with ⟨before, behind, hpending⟩
  have haddresses := h.addresses
  rw [List.map_append, List.nodup_append] at haddresses
  rcases haddresses with ⟨hnodup, -, hapart⟩
  rw [hpending] at hnodup
  rcases mutate_split w.accepted.length item.call hnodup with
    ⟨hmutated, hfilter⟩
  have hrunning : mutate o.address w.accepted.length item.call w.running = w.running := by
    apply mutate_eq_self
    intro other hother heq
    exact hapart _ (List.mem_map_of_mem ho) _ (List.mem_map_of_mem hother) heq.symm
  have hsame : { o.item with call := item.call } = item := by
    rcases plain_eq_false_iff.mp hplain with ⟨hitem, -⟩
    rcases plain_eq_false_iff.mp hcoalesced with ⟨hobject, -⟩
    rcases item with ⟨call, key, coalesce⟩
    dsimp only at hkey hitem ⊢
    rw [hkey, hobject, hitem]
  rw [hsame] at hmutated
  unfold Outbox.replace
  rw [hrunning, hpending, hmutated, hfilter]
  have haddressSame : (before ++ (⟨o.address, w.accepted.length, item⟩ : Obj C) :: behind).map
      Obj.address = (before ++ o :: behind).map Obj.address := by
    rw [List.map_append, List.map_append, List.map_cons, List.map_cons]
  have hmem (other : Obj C) :
      other ∈ before ++ (⟨o.address, w.accepted.length, item⟩ : Obj C) :: behind →
        other = ⟨o.address, w.accepted.length, item⟩ ∨ other ∈ w.pending := by
    intro hother
    rw [List.mem_append, List.mem_cons] at hother
    rw [hpending, List.mem_append, List.mem_cons]
    rcases hother with hbefore | heq | hbehind
    · exact .inr (.inl hbefore)
    · exact .inl heq
    · exact .inr (.inr (.inr hbehind))
  constructor
  · dsimp only
    rw [List.map_append, haddressSame, ← List.map_append, ← hpending]
    exact h.addresses
  · intro other hother
    dsimp only at hother ⊢
    rcases List.mem_append.mp hother with hqueued | hrun
    · rcases hmem other hqueued with heq | hold
      · rw [heq]
        exact h.fresh o (List.mem_append_left _ ho)
      · exact h.fresh other (List.mem_append_left _ hold)
    · exact h.fresh other (List.mem_append_right _ hrun)
  · intro key address hget
    dsimp only at hget ⊢
    rcases h.table key address hget with ⟨other, hother, haddress, hotherKey, hotherPlain⟩
    rw [hpending, List.mem_append, List.mem_cons] at hother
    rcases hother with hbefore | heq | hbehind
    · exact ⟨other, List.mem_append_left _ hbefore, haddress, hotherKey, hotherPlain⟩
    · rw [heq] at haddress hotherKey
      exact ⟨_, List.mem_append_right _ List.mem_cons_self, haddress,
        hkey.symm.trans hotherKey, hplain⟩
    · exact ⟨other, List.mem_append_right _ (List.mem_cons_of_mem _ hbehind), haddress, hotherKey,
        hotherPlain⟩
  · exact h.keys
  · exact h.lanes
  · have hbounded := h.bounded
    rw [hpending, List.length_append, List.length_cons] at hbounded
    dsimp only
    rw [List.length_append, List.length_cons]
    exact hbounded
  · exact h.numbered_append item
  · constructor
    · intro entry hentry
      exact List.mem_append_left _ (h.carried.1 entry hentry)
    · intro other hother
      rcases hmem other hother with heq | hold
      · rw [heq]
        exact List.mem_append_right _ (List.mem_singleton_self _)
      · exact List.mem_append_left _ (h.carried.2 other hold)
  · intro key
    have hlined := h.lined key
    have hskip (entry : ℕ × Item C) (hentry : entry.2.plain = false) (rest : List (ℕ × Item C)) :
        plainEntries key (entry :: rest) = plainEntries key rest := by
      unfold plainEntries
      rw [List.filter_cons_of_neg (by simp [hentry])]
    rw [hpending, List.map_append, List.map_cons, plainEntries_append,
      hskip o.entry hcoalesced] at hlined
    dsimp only
    rw [plainEntries_append, hskip _ hplain, List.map_append, List.map_cons, plainEntries_append,
      hskip _ hplain, hlined]
    simp [plainEntries]
  · have hsplit := h.split
    rw [hpending, List.map_append, List.map_cons] at hsplit
    dsimp only
    rw [List.map_append, List.map_append, List.map_append, List.map_cons, List.map_cons,
      List.map_nil, List.map_cons, List.map_nil, List.map_cons, List.map_nil]
    dsimp only
    refine (hsplit.append_right [w.accepted.length]).trans ?_
    simp only [List.append_assoc]
    apply List.Perm.append_left
    apply List.Perm.append_left
    rw [List.cons_append, List.singleton_append]
    refine List.perm_middle.trans (List.Perm.cons _ ?_)
    exact List.Perm.append_left _ List.perm_append_comm
  · intro pair hpair
    rcases List.mem_append.mp hpair with hold | hnew
    · exact h.replacements_append _ pair hold
    · rw [List.map_singleton, List.mem_singleton] at hnew
      rw [hnew]
      have hentry := h.carried.2 o ho
      refine ⟨o.item, item, List.mem_append_left _ hentry,
        List.mem_append_right _ (List.mem_singleton_self _), h.lt_length hentry, hkey, hcoalesced,
        hplain⟩

theorem eligible_iff : w.eligible o = true ↔ o.item.key = "" ∨ o.item.key ∉ w.runningKeys := by
  unfold Outbox.eligible
  by_cases hkey : o.item.key = ""
  · simp [hkey]
  · simp [hkey]

/-- A call ends. -/
theorem OutboxInv.finish (h : OutboxInv maxPending w) (ho : o ∈ w.running) :
    OutboxInv maxPending (w.finish o) := by
  have hsub : ∀ other ∈ w.running.filter (fun other => other.address ≠ o.address),
      other ∈ w.running := fun other hother => List.mem_of_mem_filter hother
  -- nothing else of its lane runs
  have halone : o.item.key ≠ "" →
      ∀ other ∈ w.running.filter (fun other => other.address ≠ o.address),
        other.item.key ≠ o.item.key := by
    intro hkey other hother heq
    rcases List.mem_filter.mp hother with ⟨hrun, hother⟩
    have hne : other ≠ o := by
      rintro rfl
      simp at hother
    have hlane := h.lanes _ hkey
    have hotherIn : other ∈ w.running.filter fun x => x.item.key = o.item.key :=
      List.mem_filter.mpr ⟨hrun, by simpa using heq⟩
    have hoIn : o ∈ w.running.filter fun x => x.item.key = o.item.key :=
      List.mem_filter.mpr ⟨ho, by simp⟩
    cases hlist : w.running.filter fun x => x.item.key = o.item.key with
    | nil =>
        rw [hlist] at hoIn
        cases hoIn
    | cons first rest =>
        rw [hlist, List.length_cons] at hlane
        have hrest : rest = [] := List.eq_nil_of_length_eq_zero (by omega)
        rw [hlist, hrest, List.mem_singleton] at hotherIn hoIn
        exact hne (hotherIn.trans hoIn.symm)
  unfold Outbox.finish
  constructor
  · exact List.Nodup.sublist ((List.Sublist.append_left List.filter_sublist _).map _) h.addresses
  · intro other hother
    rcases List.mem_append.mp hother with hqueued | hrun
    · exact h.fresh other (List.mem_append_left _ hqueued)
    · exact h.fresh other (List.mem_append_right _ (hsub other hrun))
  · exact h.table
  · intro key
    dsimp only
    by_cases hempty : o.item.key = ""
    · rw [if_pos hempty, h.keys key]
      constructor
      · rintro ⟨hkey, other, hother, heq⟩
        refine ⟨hkey, other, List.mem_filter.mpr ⟨hother, ?_⟩, heq⟩
        have hapart := (List.nodup_append.mp ((List.map_append (f := Obj.address)) ▸ h.addresses)).2.1
        have hne : other ≠ o := by
          rintro rfl
          exact hkey (heq.symm.trans hempty)
        rw [decide_eq_true_eq]
        intro haddress
        exact hne (List.inj_on_of_nodup_map hapart hother ho haddress)
      · rintro ⟨hkey, other, hother, heq⟩
        exact ⟨hkey, other, hsub other hother, heq⟩
    · rw [if_neg hempty, List.mem_filter, h.keys key, decide_eq_true_eq]
      constructor
      · rintro ⟨⟨hkey, other, hother, heq⟩, hne⟩
        refine ⟨hkey, other, List.mem_filter.mpr ⟨hother, ?_⟩, heq⟩
        have hapart := (List.nodup_append.mp ((List.map_append (f := Obj.address)) ▸ h.addresses)).2.1
        rw [decide_eq_true_eq]
        intro haddress
        have hsame := List.inj_on_of_nodup_map hapart hother ho haddress
        rw [hsame] at heq
        exact hne heq.symm
      · rintro ⟨hkey, other, hother, heq⟩
        refine ⟨⟨hkey, other, hsub other hother, heq⟩, ?_⟩
        rintro rfl
        exact halone hempty other hother heq
  · intro key hkey
    refine Nat.le_trans ?_ (h.lanes key hkey)
    exact (List.filter_sublist.filter _).length_le
  · exact h.bounded
  · exact h.numbered
  · exact h.carried
  · exact h.lined
  · exact h.split
  · exact h.replacements

theorem OutboxInv.submit (h : OutboxInv maxPending w) (item : Item C) :
    OutboxInv maxPending (w.submit maxPending item).1 := by
  unfold Outbox.submit
  by_cases hclosed : w.closed = true
  · rw [if_pos hclosed]
    exact h
  rw [if_neg hclosed]
  have hroom : OutboxInv maxPending
      (if maxPending ≤ w.pending.length then (w, false) else (w.push item, true)).1 := by
    by_cases hfull : maxPending ≤ w.pending.length
    · rw [if_pos hfull]
      exact h
    · rw [if_neg hfull]
      exact h.push (Nat.not_le.mp hfull) item
  cases hplain : item.plain with
  | true =>
      rw [if_pos rfl]
      exact hroom
  | false =>
      rw [if_neg Bool.false_ne_true]
      cases hget : w.coalesced.get? item.key with
      | none => exact hroom
      | some address => exact h.replace hplain hget

end Steps

section Workers

variable [DecidableEq C] {maxPending workers : ℕ} {w w' : Outbox C} {item : Item C} {o : Obj C}

/-- The chosen item is the first of the queue whose lane is free, and what the queue removes by
equality is that item. -/
theorem Outbox.removed (h : w.nextItem = some o) :
    ∃ before behind, w.pending = before ++ o :: behind ∧ w.eligible o = true ∧
      (∀ other ∈ before, w.eligible other = false) ∧
      (w.pending.eraseP fun other => other.item = o.item) = before ++ behind := by
  rcases List.find?_eq_some_iff_append.mp h with ⟨heligible, before, behind, hpending, hbefore⟩
  have hskipped : ∀ other ∈ before, w.eligible other = false := by
    intro other hother
    simpa using hbefore other hother
  refine ⟨before, behind, hpending, heligible, hskipped, ?_⟩
  have hdiffer : ∀ other ∈ before, ¬ (decide (other.item = o.item)) = true := by
    intro other hother heq
    rw [decide_eq_true_eq] at heq
    have hsame : w.eligible other = w.eligible o := by
      unfold Outbox.eligible
      rw [heq]
    rw [hskipped other hother, heligible] at hsame
    cases hsame
  rw [hpending, List.eraseP_append_right _ hdiffer, List.eraseP_cons_of_pos (by simp)]

/-- A worker takes the next item. -/
theorem OutboxInv.start (h : OutboxInv maxPending w) (hnext : w.nextItem = some o) :
    OutboxInv maxPending (w.start o) := by
  rcases Outbox.removed hnext with ⟨before, behind, hpending, heligible, hskipped, hremoved⟩
  have hfree := eligible_iff.mp heligible
  have ho : o ∈ w.pending := by
    rw [hpending]
    exact List.mem_append_right _ List.mem_cons_self
  have hsub : ∀ other ∈ before ++ behind, other ∈ w.pending := by
    intro other hother
    rw [hpending, List.mem_append, List.mem_cons]
    rcases List.mem_append.mp hother with hbefore | hbehind
    · exact .inl hbefore
    · exact .inr (.inr hbehind)
  have hnone : o.item.key ≠ "" → ∀ other ∈ w.running, other.item.key ≠ o.item.key := by
    intro hkey other hother heq
    rcases hfree with hempty | hfree
    · exact hkey hempty
    · exact hfree ((h.keys _).mpr ⟨hkey, other, hother, heq⟩)
  unfold Outbox.start
  rw [hremoved]
  constructor
  · have hperm : (before ++ behind ++ (w.running ++ [o])).Perm (w.pending ++ w.running) := by
      have hmiddle : (w.pending ++ w.running).Perm (o :: (before ++ behind ++ w.running)) := by
        rw [hpending, List.append_assoc, List.cons_append, List.append_assoc]
        exact List.perm_middle
      refine List.Perm.trans ?_ hmiddle.symm
      rw [← List.append_assoc]
      exact List.perm_append_comm
    dsimp only
    rw [(hperm.map Obj.address).nodup_iff]
    exact h.addresses
  · intro other hother
    dsimp only at hother ⊢
    rcases List.mem_append.mp hother with hqueued | hrun
    · exact h.fresh other (List.mem_append_left _ (hsub other hqueued))
    · rcases List.mem_append.mp hrun with hold | hnew
      · exact h.fresh other (List.mem_append_right _ hold)
      · rw [List.mem_singleton.mp hnew]
        exact h.fresh o (List.mem_append_left _ ho)
  · intro key address hget
    dsimp only at hget ⊢
    -- the table points to coalesced items, and not to those of the lane that starts
    have hold : w.coalesced.get? key = some address ∧ (o.item.plain = true ∨ o.item.key ≠ key) := by
      cases hplain : o.item.plain with
      | true =>
          rw [hplain, if_pos rfl] at hget
          exact ⟨hget, .inl rfl⟩
      | false =>
          rw [hplain, if_neg Bool.false_ne_true, Dict.get?_pop_eq_some_iff] at hget
          exact ⟨hget.2, .inr hget.1⟩
    rcases h.table key address hold.1 with ⟨other, hother, haddress, hkey, hplain⟩
    refine ⟨other, ?_, haddress, hkey, hplain⟩
    rw [hpending, List.mem_append, List.mem_cons] at hother
    rcases hother with hbefore | heq | hbehind
    · exact List.mem_append_left _ hbefore
    · exfalso
      rw [heq] at hkey hplain
      rcases hold.2 with hplain' | hkey'
      · rw [hplain] at hplain'
        cases hplain'
      · exact hkey' hkey
    · exact List.mem_append_right _ hbehind
  · intro key
    dsimp only
    by_cases hempty : o.item.key = ""
    · rw [if_pos hempty, h.keys key]
      constructor
      · rintro ⟨hkey, other, hother, heq⟩
        exact ⟨hkey, other, List.mem_append_left _ hother, heq⟩
      · rintro ⟨hkey, other, hother, heq⟩
        rcases List.mem_append.mp hother with hold | hnew
        · exact ⟨hkey, other, hold, heq⟩
        · rw [List.mem_singleton.mp hnew, hempty] at heq
          exact absurd heq.symm hkey
    · rw [if_neg hempty, List.mem_cons, h.keys key]
      constructor
      · rintro (heq | ⟨hkey, other, hother, heq⟩)
        · rw [heq]
          exact ⟨hempty, o, List.mem_append_right _ (List.mem_singleton_self _), rfl⟩
        · exact ⟨hkey, other, List.mem_append_left _ hother, heq⟩
      · rintro ⟨hkey, other, hother, heq⟩
        rcases List.mem_append.mp hother with hold | hnew
        · exact .inr ⟨hkey, other, hold, heq⟩
        · rw [List.mem_singleton.mp hnew] at heq
          exact .inl heq.symm
  · intro key hkey
    dsimp only
    rw [List.filter_append, List.length_append]
    by_cases hsame : o.item.key = key
    · have hempty : (w.running.filter fun other => other.item.key = key) = [] := by
        rw [List.filter_eq_nil_iff]
        intro other hother
        rw [decide_eq_true_eq, ← hsame]
        exact hnone (by rw [hsame]; exact hkey) other hother
      rw [hempty]
      exact Nat.le_trans (Nat.le_of_eq (Nat.zero_add _)) (List.length_filter_le _ _)
    · have hnew : ([o].filter fun other => other.item.key = key) = [] := by
        rw [List.filter_cons_of_neg (by simpa using hsame), List.filter_nil]
      rw [hnew]
      exact h.lanes key hkey
  · have hbounded := h.bounded
    rw [hpending, List.length_append, List.length_cons] at hbounded
    dsimp only
    rw [List.length_append]
    omega
  · exact h.numbered
  · constructor
    · intro entry hentry
      rcases List.mem_append.mp hentry with hold | hnew
      · exact h.carried.1 entry hold
      · rw [List.mem_singleton.mp hnew]
        exact h.carried.2 o ho
    · intro other hother
      exact h.carried.2 other (hsub other hother)
  · intro key
    have hlined := h.lined key
    rw [hpending, List.map_append, List.map_cons, plainEntries_append] at hlined
    dsimp only
    rw [plainEntries_append, List.map_append, plainEntries_append, hlined]
    by_cases hin : (o.item.plain && decide (o.item.key = key)) = true
    · -- an earlier item of the lane would have been chosen
      have hfirst : plainEntries key (before.map Obj.entry) = [] := by
        unfold plainEntries
        rw [List.filter_eq_nil_iff]
        intro entry hentry hplain
        rcases List.mem_map.mp hentry with ⟨other, hother, rfl⟩
        rw [Bool.and_eq_true, decide_eq_true_eq] at hin hplain
        have hsame : w.eligible other = w.eligible o := by
          have hkeys : other.item.key = o.item.key := hplain.2.trans hin.2.symm
          unfold Outbox.eligible
          rw [hkeys]
        rw [hskipped other hother, heligible] at hsame
        cases hsame
      have hcons (rest : List (ℕ × Item C)) :
          plainEntries key (o.entry :: rest) = o.entry :: plainEntries key rest := by
        unfold plainEntries
        exact List.filter_cons_of_pos hin
      rw [hfirst, hcons, hcons, List.nil_append, List.nil_append, List.append_assoc]
      rfl
    · have hcons (rest : List (ℕ × Item C)) :
          plainEntries key (o.entry :: rest) = plainEntries key rest := by
        unfold plainEntries
        exact List.filter_cons_of_neg hin
      have hnil : plainEntries key ([] : List (ℕ × Item C)) = [] := rfl
      rw [hcons, hcons, hnil, List.append_nil]
  · refine h.split.trans ?_
    dsimp only
    rw [hpending, List.map_append, List.map_cons, List.map_append, List.map_append,
      List.map_singleton]
    have hmove : ((w.started.map Prod.fst ++ w.replaced.map Prod.fst) ++
        (before.map Obj.serial ++ o.serial :: behind.map Obj.serial)).Perm
        (o.serial :: (w.started.map Prod.fst ++ w.replaced.map Prod.fst ++
          (before.map Obj.serial ++ behind.map Obj.serial))) := by
      rw [← List.append_assoc, ← List.append_assoc]
      exact List.perm_middle
    refine hmove.trans ?_
    rw [List.append_assoc (w.started.map Prod.fst), List.append_assoc (w.started.map Prod.fst),
      List.append_assoc (w.started.map Prod.fst)]
    exact List.perm_middle.symm
  · exact h.replacements

theorem OutboxInv.step (h : OutboxInv maxPending w) {e : OutboxStep C}
    (hstep : w.next maxPending workers e = some w') : OutboxInv maxPending w' := by
  cases e with
  | submit call key coalesce =>
      rw [Outbox.next, Option.some.injEq] at hstep
      rw [← hstep]
      exact h.submit _
  | take =>
      rw [Outbox.next] at hstep
      by_cases hfree : w.running.length < workers
      · rw [if_pos hfree] at hstep
        rcases Option.map_eq_some_iff.mp hstep with ⟨o, hnext, rfl⟩
        exact h.start hnext
      · rw [if_neg hfree] at hstep
        cases hstep
  | finish address =>
      rw [Outbox.next] at hstep
      rcases Option.map_eq_some_iff.mp hstep with ⟨o, ho, rfl⟩
      exact h.finish (List.mem_of_find?_eq_some ho)
  | close =>
      rw [Outbox.next, Option.some.injEq] at hstep
      rw [← hstep]
      exact ⟨h.addresses, h.fresh, h.table, h.keys, h.lanes, h.bounded, h.numbered, h.carried,
        h.lined, h.split, h.replacements⟩

end Workers


section Law

variable {maxPending workers : ℕ} {w w' : Outbox C} {entry : ℕ × Item C}

theorem OutboxInv.accepted_nodup (h : OutboxInv maxPending w) :
    (w.accepted.map Prod.fst).Nodup := by
  rw [h.numbered]
  exact List.nodup_range

/-- A submission is known by its number. -/
theorem OutboxInv.accepted_inj (h : OutboxInv maxPending w) {other : ℕ × Item C}
    (hentry : entry ∈ w.accepted) (hother : other ∈ w.accepted) (heq : other.1 = entry.1) :
    other = entry :=
  List.inj_on_of_nodup_map h.accepted_nodup hother hentry heq

/-- The submissions started, those replaced and those queued are different ones. -/
theorem OutboxInv.apart (h : OutboxInv maxPending w) :
    (w.started.map Prod.fst).Nodup ∧
      (∀ serial ∈ w.started.map Prod.fst, serial ∉ w.replaced.map Prod.fst) ∧
      (∀ serial ∈ w.started.map Prod.fst, serial ∉ w.pending.map Obj.serial) ∧
      ∀ serial ∈ w.replaced.map Prod.fst, serial ∉ w.pending.map Obj.serial := by
  have hnodup := (h.split.nodup_iff).mp h.accepted_nodup
  rw [List.nodup_append, List.nodup_append] at hnodup
  rcases hnodup with ⟨⟨hstarted, -, happart⟩, -, hpending⟩
  refine ⟨hstarted, ?_, ?_, ?_⟩
  · intro serial hserial hreplaced
    exact happart serial hserial serial hreplaced rfl
  · intro serial hserial hqueued
    exact hpending serial (List.mem_append_left _ hserial) serial hqueued rfl
  · intro serial hserial hqueued
    exact hpending serial (List.mem_append_right _ hserial) serial hqueued rfl

theorem OutboxInv.fate (h : OutboxInv maxPending w) (hentry : entry ∈ w.accepted) :
    Fate w entry.1 := by
  rcases h.apart with ⟨-, hreplaced, hpending, hqueued⟩
  have hmem := (h.split.mem_iff).mp (List.mem_map_of_mem (f := Prod.fst) hentry)
  rw [List.mem_append, List.mem_append] at hmem
  rcases hmem with (hstart | hreplace) | hqueue
  · exact .started hstart (hreplaced _ hstart) (hpending _ hstart)
  · exact .replaced hreplace (fun hstart => hreplaced _ hstart hreplace) (hqueued _ hreplace)
  · exact .pending hqueue (fun hstart => hpending _ hstart hqueue)
      (fun hreplace => hqueued _ hreplace hqueue)

/-- The last coalesced submission of a lane is not replaced. -/
theorem OutboxInv.latest (h : OutboxInv maxPending w) (hentry : entry ∈ w.accepted)
    (hlast : ∀ later ∈ w.accepted, later.2.plain = false → later.2.key = entry.2.key →
      later.1 ≤ entry.1) :
    entry ∈ w.started ∨ ∃ o ∈ w.pending, o.entry = entry := by
  rcases h.fate hentry with hstarted | hreplaced | hpending
  · rcases List.mem_map.mp hstarted with ⟨other, hother, heq⟩
    rw [h.accepted_inj hentry (h.carried.1 other hother) heq] at hother
    exact .inl hother
  · rcases List.mem_map.mp hreplaced with ⟨pair, hpair, heq⟩
    rcases h.replacements pair hpair with ⟨old, later, hold, hlater, hlt, hkey, -, hplain⟩
    have hsame : old = entry.2 := congrArg Prod.snd (h.accepted_inj hentry hold heq)
    have hle : pair.2 ≤ entry.1 := by
      apply hlast _ hlater hplain
      rw [← hsame, hkey]
    rw [heq] at hlt
    exact absurd hle (Nat.not_le.mpr hlt)
  · rcases List.mem_map.mp hpending with ⟨o, ho, heq⟩
    exact .inr ⟨o, ho, h.accepted_inj hentry (h.carried.2 o ho) heq⟩

/-- An item waits only for a running item of its lane. -/
theorem OutboxInv.settled (h : OutboxInv maxPending w) (hrunning : w.running = [])
    (hnext : w.nextItem = none) : w.pending = [] := by
  rw [List.eq_nil_iff_forall_not_mem]
  intro o ho
  have hno := List.find?_eq_none.mp hnext o ho
  apply hno
  rw [eligible_iff]
  right
  intro hkey
  rcases (h.keys _).mp hkey with ⟨-, other, hother, -⟩
  rw [hrunning] at hother
  cases hother

variable [DecidableEq C]

/-- What the workers have left to do, at two steps for each item queued. -/
def Outbox.workLeft (w : Outbox C) : ℕ :=
  2 * w.pending.length + w.running.length

/-- A step of a worker leaves less to do. -/
theorem Outbox.workLeft_next {e : OutboxStep C} (he : e.isWork = true)
    (hstep : w.next maxPending workers e = some w') : w'.workLeft < w.workLeft := by
  cases e with
  | submit call key coalesce => cases he
  | close => cases he
  | take =>
      rw [Outbox.next] at hstep
      by_cases hfree : w.running.length < workers
      · rw [if_pos hfree] at hstep
        rcases Option.map_eq_some_iff.mp hstep with ⟨o, hnext, rfl⟩
        rcases Outbox.removed hnext with ⟨before, behind, hpending, -, -, hremoved⟩
        unfold Outbox.workLeft Outbox.start
        rw [hremoved, hpending]
        simp only [List.length_append, List.length_cons, List.length_nil]
        omega
      · rw [if_neg hfree] at hstep
        cases hstep
  | finish address =>
      rw [Outbox.next] at hstep
      rcases Option.map_eq_some_iff.mp hstep with ⟨o, ho, rfl⟩
      have hless : (w.running.filter fun other => other.address ≠ o.address).length <
          w.running.length := by
        rw [List.length_filter_lt_length_iff_exists]
        exact ⟨o, List.mem_of_find?_eq_some ho, by simp⟩
      unfold Outbox.workLeft Outbox.finish
      dsimp only
      omega

theorem Outbox.length_le_workLeft {es : List (OutboxStep C)}
    (hrun : (Outbox.system maxPending workers).Run w es w')
    (hwork : ∀ e ∈ es, e.isWork = true) : es.length ≤ w.workLeft := by
  induction hrun with
  | nil => exact Nat.zero_le _
  | cons hst _ ih =>
      have hless := Outbox.workLeft_next (hwork _ List.mem_cons_self) hst
      have hrest := ih fun e he => hwork e (List.mem_cons_of_mem _ he)
      rw [List.length_cons]
      omega

theorem outboxInv_of_reachable (h : (Outbox.system maxPending workers).Reachable w) :
    OutboxInv maxPending w := by
  apply TransitionSystem.Reachable.invariant ?_ ?_ h
  · intro w hinit
    have hnew : w = Outbox.new := hinit
    rw [hnew]
    exact outboxInv_new
  · intro w e w' _ hinv hstep
    exact hinv.step hstep

/-- The law of the lanes, in every reachable state. -/
theorem outbox_law (h : (Outbox.system maxPending workers).Reachable w) :
    OutboxLaw maxPending workers w := by
  have hinv := outboxInv_of_reachable h
  constructor
  · exact hinv.lanes
  · exact hinv.bounded
  · intro key
    exact ⟨_, (hinv.lined key).symm⟩
  · exact hinv.carried
  · exact hinv.apart.1
  · intro entry hentry
    exact hinv.fate hentry
  · exact hinv.replacements
  · intro entry hentry _ hlast
    exact hinv.latest hentry hlast
  · exact hinv.settled
  · intro es w' hrun hwork
    exact Outbox.length_le_workLeft hrun hwork

/-- Three coalesced submissions of one lane, of which the second waits and is replaced. -/
theorem outbox_law_replaced :
    ∃ w, TransitionSystem.play (Outbox.next 2 1) (Outbox.new : Outbox ℕ)
        [.submit 1 "room" true, .take, .submit 2 "room" true, .submit 3 "room" true,
          .finish 0, .take] = some w ∧
      w.started = [(0, ⟨1, "room", true⟩), (2, ⟨3, "room", true⟩)] ∧ OutboxLaw 2 1 w := by
  have hrun : ∃ w, TransitionSystem.play (Outbox.next 2 1) (Outbox.new : Outbox ℕ)
        [.submit 1 "room" true, .take, .submit 2 "room" true, .submit 3 "room" true,
          .finish 0, .take] = some w ∧
      w.started = [(0, ⟨1, "room", true⟩), (2, ⟨3, "room", true⟩)] := ⟨_, rfl, by decide⟩
  rcases hrun with ⟨w, hplay, hstarted⟩
  refine ⟨w, hplay, hstarted, ?_⟩
  apply outbox_law
  apply TransitionSystem.Reachable.play (.init rfl) ?_ hplay
  intro _ _ _ hnext
  exact hnext

end Law
end Background
end Stemcell
