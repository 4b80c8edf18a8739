import Mathlib.Data.List.Basic

/-!
# Actions that can be cut off

An action changes a state one effect after the other and then returns a value or fails.  Its
trail has the state after each effect, so that it says what a crash at any point leaves.

Main results:

- Theorems `Safe.bind` and `Safe.forEach`: the rules for what holds at any point of an action.
- Theorem `Safe.leaves`: what holds at any point holds after a crash.
- Theorem `Triple.bind`: actions that succeed, one after the other.
- Theorem `bind_ok`: an action that succeeded, taken apart.
-/

namespace Stemcell
namespace Lib

/-- The states after the effects, the last of them, and what comes out. -/
structure Trail (σ α : Type) where
  states : List σ
  final : σ
  result : Except String α

/-- An action from a state. -/
def Action (σ α : Type) : Type :=
  σ → Trail σ α

namespace Action

variable {σ α β ι : Type}

/-- No effect. -/
def done (a : α) : Action σ α :=
  fun s => ⟨[], s, .ok a⟩

/-- The second action takes up where the first one succeeded. -/
def andThen (act : Action σ α) (next : α → Action σ β) : Action σ β :=
  fun s =>
    match (act s).result with
    | .error error => ⟨(act s).states, (act s).final, .error error⟩
    | .ok a =>
        ⟨(act s).states ++ (next a (act s).final).states, (next a (act s).final).final,
          (next a (act s).final).result⟩

instance : Monad (Action σ) where
  pure := done
  bind := andThen

/-- A failure without an effect. -/
def fail (error : String) : Action σ α :=
  fun s => ⟨[], s, .error error⟩

/-- What the state says, without an effect. -/
def look (read : σ → Except String α) : Action σ α :=
  fun s => ⟨[], s, read s⟩

/-- One effect. -/
def effect (change : σ → σ) : Action σ Unit :=
  fun s => ⟨[change s], change s, .ok ()⟩

/-- One action after the other. -/
def forEach (act : ι → Action σ Unit) : List ι → Action σ Unit
  | [] => done ()
  | i :: rest => andThen (act i) fun _ => forEach act rest

/-- `try ... finally`: the clean-up is done whether the action fails or not. -/
def withCleanup (act : Action σ α) (cleanup : Action σ Unit) : Action σ α :=
  fun s =>
    ⟨(act s).states ++ (cleanup (act s).final).states, (cleanup (act s).final).final,
      match (cleanup (act s).final).result with
      | .error error => .error error
      | .ok () => (act s).result⟩

/-- `except`: a failure is answered and raised again. -/
def onFailure (act : Action σ α) (recover : Action σ Unit) : Action σ α :=
  fun s =>
    match (act s).result with
    | .ok _ => act s
    | .error error =>
        ⟨(act s).states ++ (recover (act s).final).states, (recover (act s).final).final,
          .error error⟩

/-- An action on a part of the state. -/
def onPart {τ : Type} (part : τ → σ) (put : τ → σ → τ) (act : Action σ α) : Action τ α :=
  fun t =>
    ⟨(act (part t)).states.map (put t), put t (act (part t)).final, (act (part t)).result⟩

/-- The states that a crash can leave. -/
def Leaves (act : Action σ α) (s t : σ) : Prop :=
  t = s ∨ t ∈ (act s).states ∨ t = (act s).final

/-! ## What holds at any point -/

variable {act : Action σ α} {next : α → Action σ β} {cleanup : Action σ Unit}
  {step : ι → Action σ Unit} {items : List ι} {s t : σ} {P I C : σ → Prop} {Q : α → σ → Prop}
  {R : β → σ → Prop}

/-- From such a state every state on the way is good, a failure leaves a good state, and a
success leaves what is said of it. -/
def Safe (P : σ → Prop) (act : Action σ α) (Q : α → σ → Prop) (C : σ → Prop) : Prop :=
  ∀ s, P s → (∀ t ∈ (act s).states, C t) ∧
    (∀ a, (act s).result = .ok a → Q a (act s).final) ∧
      ∀ error, (act s).result = .error error → C (act s).final

/-- A crash leaves a good state. -/
theorem Safe.leaves (h : Safe P act Q C) (hs : P s) (hstart : C s) (hend : ∀ a s, Q a s → C s)
    (ht : Leaves act s t) : C t := by
  rcases h s hs with ⟨hstates, hok, herror⟩
  rcases ht with rfl | hmem | rfl
  · exact hstart
  · exact hstates t hmem
  · cases hresult : (act s).result with
    | ok a => exact hend a _ (hok a hresult)
    | error error => exact herror error hresult

theorem Safe.imp {P' : σ → Prop} {Q' : α → σ → Prop} {C' : σ → Prop} (h : Safe P act Q C)
    (hP : ∀ s, P' s → P s) (hQ : ∀ a s, Q a s → Q' a s) (hC : ∀ s, C s → C' s) :
    Safe P' act Q' C' := by
  intro s hs
  rcases h s (hP s hs) with ⟨hstates, hok, herror⟩
  exact ⟨fun t ht => hC t (hstates t ht), fun a ha => hQ a _ (hok a ha),
    fun error he => hC _ (herror error he)⟩

theorem safe_done {a : α} (h : ∀ s, P s → Q a s) : Safe P (done a) Q C := by
  intro s hs
  refine ⟨fun _ hmem => (nomatch hmem), ?_, fun _ he => (nomatch he)⟩
  intro b hb
  cases hb
  exact h s hs

theorem safe_fail {error : String} (h : ∀ s, P s → C s) : Safe P (fail error) Q C :=
  fun s hs => ⟨fun _ hmem => (nomatch hmem), fun _ ha => (nomatch ha), fun _ _ => h s hs⟩

theorem safe_look {read : σ → Except String α} (h : ∀ s, P s → ∀ a, read s = .ok a → Q a s)
    (hC : ∀ s, P s → C s) : Safe P (look read) Q C :=
  fun s hs => ⟨fun _ hmem => (nomatch hmem), h s hs, fun _ _ => hC s hs⟩

theorem safe_effect {change : σ → σ} {Q : Unit → σ → Prop}
    (h : ∀ s, P s → Q () (change s) ∧ C (change s)) : Safe P (effect change) Q C := by
  intro s hs
  refine ⟨?_, fun _ _ => (h s hs).1, fun _ he => (nomatch he)⟩
  intro t hmem
  rw [List.mem_singleton.mp hmem]
  exact (h s hs).2

theorem Safe.bind (h : Safe P act Q C) (hnext : ∀ a, Safe (Q a) (next a) R C) :
    Safe P (act >>= next) R C := by
  intro s hs
  rcases h s hs with ⟨hstates, hok, herror⟩
  change (∀ t ∈ (andThen act next s).states, C t) ∧
    (∀ b, (andThen act next s).result = .ok b → R b (andThen act next s).final) ∧
      ∀ error, (andThen act next s).result = .error error → C (andThen act next s).final
  unfold andThen
  cases hresult : (act s).result with
  | error error => exact ⟨hstates, fun _ hb => (nomatch hb), fun _ _ => herror error hresult⟩
  | ok a =>
      rcases hnext a _ (hok a hresult) with ⟨hlater, hok', herror'⟩
      refine ⟨?_, hok', herror'⟩
      intro t hmem
      rcases List.mem_append.mp hmem with hbefore | hafter
      · exact hstates t hbefore
      · exact hlater t hafter

/-- An invariant of every round is one of the loop. -/
theorem Safe.forEach (h : ∀ i ∈ items, Safe I (step i) (fun _ => I) I) :
    Safe I (forEach step items) (fun _ => I) I := by
  induction items with
  | nil => exact safe_done fun _ hs => hs
  | cons i rest ih =>
      exact (h i List.mem_cons_self).bind fun _ =>
        ih fun j hj => h j (List.mem_cons_of_mem _ hj)

theorem Safe.withCleanup {Q' : α → σ → Prop} (h : Safe P act Q C)
    (hok : ∀ a, Safe (Q a) cleanup (fun _ => Q' a) C) (herror : Safe C cleanup (fun _ => C) C)
    (hend : ∀ a s, Q' a s → C s) : Safe P (act.withCleanup cleanup) Q' C := by
  intro s hs
  rcases h s hs with ⟨hstates, hresult, hfailed⟩
  have hclean : (∀ t ∈ (cleanup (act s).final).states, C t) ∧
      (∀ a, (act s).result = .ok a → (cleanup (act s).final).result = .ok () →
        Q' a (cleanup (act s).final).final) ∧ C (cleanup (act s).final).final := by
    cases hcase : (act s).result with
    | ok a =>
        rcases hok a _ (hresult a hcase) with ⟨hlater, hdone, hbroken⟩
        refine ⟨hlater, ?_, ?_⟩
        · intro b hb hunit
          cases hb
          exact hdone () hunit
        · cases hunit : (cleanup (act s).final).result with
          | ok u => exact hend a _ (hdone u hunit)
          | error error => exact hbroken error hunit
    | error error =>
        rcases herror _ (hfailed error hcase) with ⟨hlater, hdone, hbroken⟩
        refine ⟨hlater, fun _ hb => (nomatch hb), ?_⟩
        cases hunit : (cleanup (act s).final).result with
        | ok u => exact hdone u hunit
        | error error => exact hbroken error hunit
  unfold Action.withCleanup
  refine ⟨?_, ?_, fun _ _ => hclean.2.2⟩
  · intro t hmem
    rcases List.mem_append.mp hmem with hbefore | hafter
    · exact hstates t hbefore
    · exact hclean.1 t hafter
  · intro a ha
    simp only at ha
    split at ha
    · cases ha
    · rename_i hunit
      exact hclean.2.1 a ha hunit

theorem Safe.onFailure (h : Safe P act Q C) (hrecover : Safe C cleanup (fun _ => C) C) :
    Safe P (act.onFailure cleanup) Q C := by
  intro s hs
  rcases h s hs with ⟨hstates, hok, herror⟩
  unfold Action.onFailure
  split
  · exact ⟨hstates, hok, herror⟩
  · rename_i error hfailed
    rcases hrecover _ (herror error hfailed) with ⟨hlater, hdone, hbroken⟩
    refine ⟨?_, fun _ ha => (nomatch ha), fun _ _ => ?_⟩
    · intro t hmem
      rcases List.mem_append.mp hmem with hbefore | hafter
      · exact hstates t hbefore
      · exact hlater t hafter
    · cases hunit : (cleanup (act s).final).result with
      | ok u => exact hdone u hunit
      | error error => exact hbroken error hunit

theorem Safe.onPart {τ : Type} {part : τ → σ} {put : τ → σ → τ} {P' C' : τ → Prop}
    {Q' : α → τ → Prop} (h : Safe P act Q C) (hP : ∀ t, P' t → P (part t))
    (hQ : ∀ t a s, P' t → Q a s → Q' a (put t s)) (hC : ∀ t s, P' t → C s → C' (put t s)) :
    Safe P' (onPart part put act) Q' C' := by
  intro t ht
  rcases h (part t) (hP t ht) with ⟨hstates, hok, herror⟩
  refine ⟨?_, fun a ha => hQ t a _ ht (hok a ha), fun error he => hC t _ ht (herror error he)⟩
  intro u hu
  rcases List.mem_map.mp hu with ⟨s, hs, rfl⟩
  exact hC t s ht (hstates s hs)

/-! ## Actions that succeed -/

/-- From such a state the action succeeds, and what it leaves at any point is known. -/
def Triple (P : σ → Prop) (act : Action σ α) (Q : α → σ → Prop) (C : σ → Prop) : Prop :=
  ∀ s, P s → (∀ t ∈ (act s).states, C t) ∧ ∃ a, (act s).result = .ok a ∧ Q a (act s).final

theorem Triple.bind (h : Triple P act Q C) (hnext : ∀ a, Triple (Q a) (next a) R C) :
    Triple P (act >>= next) R C := by
  intro s hs
  rcases h s hs with ⟨hstates, a, hok, hQ⟩
  rcases hnext a _ hQ with ⟨hlater, b, hok', hR⟩
  change (∀ t ∈ (andThen act next s).states, C t) ∧
    ∃ b, (andThen act next s).result = .ok b ∧ R b (andThen act next s).final
  unfold andThen
  rw [hok]
  refine ⟨?_, b, hok', hR⟩
  intro t hmem
  rcases List.mem_append.mp hmem with hbefore | hafter
  · exact hstates t hbefore
  · exact hlater t hafter

theorem triple_done {a : α} (h : ∀ s, P s → Q a s) : Triple P (done a) Q C :=
  fun s hs => ⟨fun _ hmem => (nomatch hmem), a, rfl, h s hs⟩

theorem triple_look {read : σ → Except String α}
    (h : ∀ s, P s → ∃ a, read s = .ok a ∧ Q a s) : Triple P (look read) Q C :=
  fun s hs => ⟨fun _ hmem => (nomatch hmem), h s hs⟩

theorem triple_effect {change : σ → σ} {Q : Unit → σ → Prop}
    (h : ∀ s, P s → Q () (change s) ∧ C (change s)) : Triple P (effect change) Q C := by
  intro s hs
  refine ⟨?_, (), rfl, (h s hs).1⟩
  intro t hmem
  rw [List.mem_singleton.mp hmem]
  exact (h s hs).2

theorem Triple.imp {P' : σ → Prop} {Q' : α → σ → Prop} {C' : σ → Prop} (h : Triple P act Q C)
    (hP : ∀ s, P' s → P s) (hQ : ∀ a s, Q a s → Q' a s) (hC : ∀ s, C s → C' s) :
    Triple P' act Q' C' := by
  intro s hs
  rcases h s (hP s hs) with ⟨hstates, a, hok, hlast⟩
  exact ⟨fun t ht => hC t (hstates t ht), a, hok, hQ a _ hlast⟩

theorem Triple.withCleanup {Q' : α → σ → Prop} (h : Triple P act Q C)
    (hclean : ∀ a, Triple (Q a) cleanup (fun _ => Q' a) C) :
    Triple P (act.withCleanup cleanup) Q' C := by
  intro s hs
  rcases h s hs with ⟨hstates, a, hok, hQ⟩
  rcases hclean a _ hQ with ⟨hlater, _, hok', hQ'⟩
  unfold Action.withCleanup
  rw [hok, hok']
  refine ⟨?_, a, rfl, hQ'⟩
  intro t hmem
  rcases List.mem_append.mp hmem with hbefore | hafter
  · exact hstates t hbefore
  · exact hlater t hafter

/-- A crash of an action that succeeds. -/
theorem Triple.leaves (h : Triple P act Q C) (hs : P s) (hstart : C s) (hend : ∀ a s, Q a s → C s)
    (ht : Leaves act s t) : C t := by
  rcases h s hs with ⟨hstates, a, -, hQ⟩
  rcases ht with rfl | hmem | rfl
  · exact hstart
  · exact hstates t hmem
  · exact hend a _ hQ

/-! ## Taking a success apart -/

theorem bind_ok {b : β} : ((act >>= next) s).result = .ok b ↔
    ∃ a, (act s).result = .ok a ∧ (next a (act s).final).result = .ok b := by
  change (andThen act next s).result = .ok b ↔ _
  unfold andThen
  cases (act s).result with
  | error error => simp
  | ok a => simp

theorem bind_final {a : α} (h : (act s).result = .ok a) :
    ((act >>= next) s).final = (next a (act s).final).final := by
  change (andThen act next s).final = _
  unfold andThen
  rw [h]

theorem bind_states {a : α} (h : (act s).result = .ok a) :
    ((act >>= next) s).states = (act s).states ++ (next a (act s).final).states := by
  change (andThen act next s).states = _
  unfold andThen
  rw [h]

end Action

end Lib
end Stemcell
