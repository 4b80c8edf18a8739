import Mathlib.Data.List.Nodup

/-!
# Logs of writes

Several calls write values under keys.  The log has the writes in order, each with the call that
made it, and a call can be forgotten.  What a key holds is what its writes make of nothing.

Main results:

- Theorem `replay_append`: one more write changes what its key holds, and no other key.
- Theorem `replay_forget_of_not_on`: forgetting a call changes no key that it did not write.
- Theorem `replay_forget_of_last`: forgetting the last write of a key goes back to what the earlier
  ones made.
-/

namespace Stemcell
namespace Lib

/-- A write of a call under a key. -/
structure Write (κ β : Type) where
  call : ℕ
  key : κ
  body : β
deriving DecidableEq, Repr

namespace WriteLog

variable {κ β ν : Type} [DecidableEq κ]

/-- The writes under a key. -/
def on (log : List (Write κ β)) (key : κ) : List (Write κ β) :=
  log.filter fun w => w.key = key

/-- The log without the writes of a call. -/
def forget (log : List (Write κ β)) (call : ℕ) : List (Write κ β) :=
  log.filter fun w => w.call ≠ call

/-- What some writes make of nothing, in order. -/
def result (act : Option ν → β → Option ν) (writes : List (Write κ β)) : Option ν :=
  writes.foldl (fun value w => act value w.body) none

/-- What the log leaves under a key. -/
def replay (act : Option ν → β → Option ν) (log : List (Write κ β)) (key : κ) : Option ν :=
  result act (on log key)

omit [DecidableEq κ] in
theorem mem_forget {log : List (Write κ β)} {call : ℕ} {w : Write κ β} :
    w ∈ forget log call ↔ w ∈ log ∧ w.call ≠ call := by
  unfold forget
  rw [List.mem_filter, decide_eq_true_eq]

theorem mem_on {log : List (Write κ β)} {key : κ} {w : Write κ β} :
    w ∈ on log key ↔ w ∈ log ∧ w.key = key := by
  unfold on
  rw [List.mem_filter, decide_eq_true_eq]

theorem on_eq_nil {log : List (Write κ β)} {key : κ} (h : ∀ w ∈ log, w.key ≠ key) :
    on log key = [] := by
  rw [List.eq_nil_iff_forall_not_mem]
  intro w hw
  exact h w (mem_on.mp hw).1 (mem_on.mp hw).2

theorem on_append (log : List (Write κ β)) (w : Write κ β) (key : κ) :
    on (log ++ [w]) key = if w.key = key then on log key ++ [w] else on log key := by
  unfold on
  by_cases h : w.key = key <;> simp [h]

theorem on_forget (log : List (Write κ β)) (call : ℕ) (key : κ) :
    on (forget log call) key = forget (on log key) call := by
  unfold on forget
  rw [List.filter_filter, List.filter_filter]
  apply List.filter_congr
  intro w _
  exact Bool.and_comm _ _

omit [DecidableEq κ] in
theorem forget_eq_self {log : List (Write κ β)} {call : ℕ} (h : ∀ w ∈ log, w.call ≠ call) :
    forget log call = log := by
  unfold forget
  rw [List.filter_eq_self]
  intro w hw
  rw [decide_eq_true_eq]
  exact h w hw

variable {act : Option ν → β → Option ν}

omit [DecidableEq κ] in
theorem result_append (writes : List (Write κ β)) (w : Write κ β) :
    result act (writes ++ [w]) = act (result act writes) w.body := by
  unfold result
  rw [List.foldl_append]
  rfl

/-- One more write changes what its key holds, and no other key. -/
theorem replay_append (log : List (Write κ β)) (w : Write κ β) (key : κ) :
    replay act (log ++ [w]) key =
      if key = w.key then act (replay act log key) w.body else replay act log key := by
  unfold replay
  rw [on_append]
  by_cases h : w.key = key
  · rw [if_pos h, if_pos h.symm, result_append]
  · rw [if_neg h, if_neg (Ne.symm h)]

theorem replay_of_not_on {log : List (Write κ β)} {key : κ} (h : ∀ w ∈ log, w.key ≠ key) :
    replay act log key = none := by
  unfold replay
  rw [on_eq_nil h]
  rfl

/-- Forgetting a call changes no key that it did not write. -/
theorem replay_forget_of_not_on {log : List (Write κ β)} {call : ℕ} {key : κ}
    (h : ∀ w ∈ log, w.call = call → w.key ≠ key) :
    replay act (forget log call) key = replay act log key := by
  unfold replay
  rw [on_forget, forget_eq_self]
  intro w hw hcall
  exact h w (mem_on.mp hw).1 hcall (mem_on.mp hw).2

/-- Forgetting the last write of a key goes back to what the earlier ones made. -/
theorem replay_forget_of_last {log seen : List (Write κ β)} {w : Write κ β}
    (hlast : on log w.key = seen ++ [w]) (hseen : ∀ v ∈ seen, v.call ≠ w.call) :
    replay act (forget log w.call) w.key = result act seen := by
  unfold replay
  rw [on_forget, hlast]
  have hforget : forget (seen ++ [w]) w.call = seen := by
    have hkept := forget_eq_self hseen
    unfold forget at hkept ⊢
    rw [List.filter_append, hkept]
    simp
  rw [hforget]

end WriteLog

end Lib
end Stemcell
