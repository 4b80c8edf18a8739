import Mathlib.Logic.Function.Basic
import Mathlib.Tactic.SplitIfs

/-!
# Locks that their owner can take again

A reentrant lock counts how often its owner has taken it.  Nobody else can take it before it has
been released as often.

Main results:

- Definitions `ReentrantLock.acquire` and `ReentrantLock.release`.
- Theorems `Tracks.acquire` and `Tracks.release`: the count follows what each party holds.
- Theorem `Tracks.eq_of_holds`: two parties never hold the lock.
- Theorem `Tracks.acquire_isSome`: a lock that nobody else holds can be taken.
-/

namespace Stemcell
namespace Lib

/-- The owner of the lock and how often it has taken it. -/
structure ReentrantLock (τ : Type) where
  owner : Option (τ × Nat)

namespace ReentrantLock

variable {τ : Type}

def free : ReentrantLock τ where
  owner := none

/-- The lock belongs to the only party that holds it, with the number of times it does. -/
def Tracks (lock : ReentrantLock τ) (holds : τ → Nat) : Prop :=
  ∀ n count, lock.owner = some (n, count) ↔ count = holds n ∧ 0 < count

variable {lock lock' : ReentrantLock τ} {holds : τ → Nat} {m n : τ}

theorem tracks_free : Tracks (free : ReentrantLock τ) fun _ => 0 := by
  intro n count
  constructor
  · intro h
    cases h
  · rintro ⟨rfl, h⟩
    exact absurd h (Nat.lt_irrefl 0)

theorem Tracks.owner_of_holds (h : Tracks lock holds) (hn : 0 < holds n) :
    lock.owner = some (n, holds n) :=
  (h n (holds n)).mpr ⟨rfl, hn⟩

/-- Two parties never hold the lock. -/
theorem Tracks.eq_of_holds (h : Tracks lock holds) (hm : 0 < holds m) (hn : 0 < holds n) :
    m = n := by
  have hsame := (h.owner_of_holds hm).symm.trans (h.owner_of_holds hn)
  exact congrArg Prod.fst (Option.some.inj hsame)

theorem Tracks.owner_eq_none (h : Tracks lock holds) (hnone : ∀ n, holds n = 0) :
    lock.owner = none := by
  cases howner : lock.owner with
  | none => rfl
  | some taken =>
      have htaken := (h taken.1 taken.2).mp howner
      have hzero := hnone taken.1
      omega

theorem Tracks.congr {holds' : τ → Nat} (h : Tracks lock holds) (heq : ∀ n, holds' n = holds n) :
    Tracks lock holds' := by
  intro n count
  rw [heq]
  exact h n count

variable [DecidableEq τ]

/-- The lock when `n` has taken it, if `n` does not have to wait. -/
def acquire (lock : ReentrantLock τ) (n : τ) : Option (ReentrantLock τ) :=
  match lock.owner with
  | none => some ⟨some (n, 1)⟩
  | some (m, count) => if m = n then some ⟨some (m, count + 1)⟩ else none

/-- A release by anybody but the owner is an error and changes nothing. -/
def release (lock : ReentrantLock τ) (n : τ) : ReentrantLock τ :=
  match lock.owner with
  | none => lock
  | some (m, count) =>
      if m = n then (if count ≤ 1 then free else ⟨some (m, count - 1)⟩) else lock

/-- The count goes up with what the new holder holds. -/
theorem Tracks.acquire (h : Tracks lock holds) (hacquire : lock.acquire n = some lock') :
    Tracks lock' (Function.update holds n (holds n + 1)) := by
  unfold ReentrantLock.acquire at hacquire
  cases howner : lock.owner with
  | none =>
      have hzero : ∀ m, holds m = 0 := by
        intro m
        by_contra hm
        have howns := h.owner_of_holds (Nat.pos_of_ne_zero hm)
        rw [howner] at howns
        cases howns
      simp only [howner, Option.some.injEq] at hacquire
      subst hacquire
      intro m count
      by_cases hm : m = n
      · subst hm
        simp only [Function.update_self, hzero, Option.some.injEq, Prod.mk.injEq, true_and]
        omega
      · simp only [Function.update_of_ne hm, hzero, Option.some.injEq, Prod.mk.injEq]
        constructor
        · intro hsame
          exact absurd hsame.1.symm hm
        · intro hcount
          omega
  | some taken =>
      rcases taken with ⟨owner, held⟩
      have htaken := (h owner held).mp howner
      simp only [howner] at hacquire
      split_ifs at hacquire with howns
      cases hacquire
      subst howns
      intro m count
      by_cases hm : m = owner
      · subst hm
        simp only [Function.update_self, Option.some.injEq, Prod.mk.injEq, true_and]
        omega
      · have hzero : ¬ (count = holds m ∧ 0 < count) := by
          rintro ⟨rfl, hpos⟩
          exact hm (h.eq_of_holds hpos (by omega))
        simp only [Function.update_of_ne hm, Option.some.injEq, Prod.mk.injEq, hzero, iff_false]
        exact fun hsame => hm hsame.1.symm

/-- The count goes down with what the holder holds. -/
theorem Tracks.release (h : Tracks lock holds) (hn : 0 < holds n) :
    Tracks (lock.release n) (Function.update holds n (holds n - 1)) := by
  have howner := h.owner_of_holds hn
  have hothers : ∀ m, m ≠ n → holds m = 0 := by
    intro m hm
    by_contra hpos
    exact hm (h.eq_of_holds (Nat.pos_of_ne_zero hpos) hn)
  unfold ReentrantLock.release
  simp only [howner, if_true]
  intro m count
  split_ifs with hlast
  · by_cases hm : m = n
    · subst hm
      simp only [free, Function.update_self, reduceCtorEq, false_iff]
      omega
    · simp only [free, Function.update_of_ne hm, hothers m hm, reduceCtorEq, false_iff]
      omega
  · by_cases hm : m = n
    · subst hm
      simp only [Function.update_self, Option.some.injEq, Prod.mk.injEq, true_and]
      omega
    · simp only [Function.update_of_ne hm, hothers m hm, Option.some.injEq, Prod.mk.injEq]
      constructor
      · intro hsame
        exact absurd hsame.1.symm hm
      · intro hcount
        omega

/-- A lock that nobody else holds can be taken. -/
theorem Tracks.acquire_isSome (h : Tracks lock holds) (hothers : ∀ m, m ≠ n → holds m = 0) :
    (lock.acquire n).isSome = true := by
  unfold ReentrantLock.acquire
  cases howner : lock.owner with
  | none => rfl
  | some taken =>
      have htaken := (h taken.1 taken.2).mp howner
      have howns : taken.1 = n := by
        by_contra hne
        have hzero := hothers taken.1 hne
        omega
      simp [howns]

end ReentrantLock

end Lib
end Stemcell
