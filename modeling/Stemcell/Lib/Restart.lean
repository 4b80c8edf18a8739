import Stemcell.Lib.Actions

/-!
# Starting again

A loop that is cut off in one of its rounds and taken up there goes on to where it would have
come, if each of its rounds, begun anew from what the cut left, ends where it would have ended.

Main results:

- Theorem `ends_bind`: a success, taken apart.
- Theorem `Stopped.resumes`: a loop that is taken up where it was cut off.
- Theorem `ends_forEach_self`: a loop that is done over again.
-/

namespace Stemcell
namespace Lib
namespace Action

variable {σ α β ι : Type} {act : Action σ α} {next : α → Action σ β} {step : ι → Action σ Unit}
  {items : List ι} {s t u c : σ} {a : α} {b : β} {I Good : σ → Prop} {index : Nat}

/-- From this state the action succeeds and leaves that one. -/
def Ends (act : Action σ α) (s : σ) (a : α) (t : σ) : Prop :=
  (act s).result = .ok a ∧ (act s).final = t

theorem Ends.of_result (h : (act s).result = .ok a) : Ends act s a (act s).final :=
  ⟨h, rfl⟩

theorem Ends.unique {a' : α} {t' : σ} (h : Ends act s a t) (h' : Ends act s a' t') :
    a = a' ∧ t = t' :=
  ⟨Except.ok.inj (h.1.symm.trans h'.1), h.2.symm.trans h'.2⟩

/-- A success, taken apart. -/
theorem ends_bind :
    Ends (act >>= next) s b u ↔ ∃ a t, Ends act s a t ∧ Ends (next a) t b u := by
  constructor
  · rintro ⟨hok, hfinal⟩
    rcases bind_ok.mp hok with ⟨a, ha, hb⟩
    rw [bind_final ha] at hfinal
    exact ⟨a, (act s).final, ⟨ha, rfl⟩, hb, hfinal⟩
  · rintro ⟨a, _, ⟨ha, rfl⟩, hb, hfinal⟩
    exact ⟨bind_ok.mpr ⟨a, ha, hb⟩, (bind_final ha).trans hfinal⟩

@[simp]
theorem ends_done {a' : α} : Ends (done a) s a' t ↔ a = a' ∧ s = t := by
  constructor
  · rintro ⟨hresult, hfinal⟩
    exact ⟨Except.ok.inj hresult, hfinal⟩
  · rintro ⟨rfl, rfl⟩
    exact ⟨rfl, rfl⟩

@[simp]
theorem ends_fail {error : String} : ¬ Ends (fail error : Action σ α) s a t :=
  fun h => nomatch h.1

@[simp]
theorem ends_look {read : σ → Except String α} :
    Ends (look read) s a t ↔ read s = .ok a ∧ s = t :=
  Iff.rfl

@[simp]
theorem ends_effect {change : σ → σ} {u : Unit} :
    Ends (effect change) s u t ↔ change s = t := by
  constructor
  · exact fun h => h.2
  · exact fun h => ⟨rfl, h⟩

theorem Triple.ends {P C : σ → Prop} {Q : α → σ → Prop} (h : Triple P act Q C) (hs : P s) :
    ∃ a t, Ends act s a t ∧ Q a t := by
  rcases h s hs with ⟨-, a, hok, hQ⟩
  exact ⟨a, _, ⟨hok, rfl⟩, hQ⟩

theorem Safe.ends {P C : σ → Prop} {Q : α → σ → Prop} (h : Safe P act Q C) (hs : P s)
    (hends : Ends act s a t) : Q a t := by
  rcases hends with ⟨hok, rfl⟩
  exact (h s hs).2.1 a hok

/-- What two actions leave, the first of which succeeded. -/
theorem leaves_bind (h : Ends act s a t) (hleaves : Leaves (act >>= next) s c) :
    Leaves act s c ∨ Leaves (next a) t c := by
  rcases h with ⟨hok, rfl⟩
  rcases hleaves with rfl | hmem | rfl
  · exact .inl (.inl rfl)
  · rw [bind_states hok, List.mem_append] at hmem
    rcases hmem with hbefore | hafter
    · exact .inl (.inr (.inl hbefore))
    · exact .inr (.inr (.inl hafter))
  · rw [bind_final hok]
    exact .inr (.inr (.inr rfl))

theorem mem_states_first (hmem : c ∈ (act s).states) (h : Ends act s a t) :
    c ∈ ((act >>= next) s).states := by
  rw [bind_states h.1]
  exact List.mem_append_left _ hmem

theorem leaves_done (h : Leaves (done a) s c) : c = s := by
  rcases h with rfl | hmem | rfl
  · rfl
  · cases hmem
  · rfl

theorem leaves_look {read : σ → Except String α} (h : Leaves (look read) s c) : c = s := by
  rcases h with rfl | hmem | rfl
  · rfl
  · cases hmem
  · rfl

theorem leaves_effect {change : σ → σ} (h : Leaves (effect change) s c) :
    c = s ∨ c = change s := by
  rcases h with rfl | hmem | rfl
  · exact .inl rfl
  · exact .inr (List.mem_singleton.mp hmem)
  · exact .inr rfl

/-- An action that starts with a look. -/
theorem look_bind {read : σ → Except String α} (h : read s = .ok a) :
    (look read >>= next) s = next a s := by
  change andThen (look read) next s = _
  unfold andThen look
  rw [h]
  rfl

theorem look_const_bind {value : Except String α} (h : value = .ok a) :
    (look (fun _ => value) >>= next) s = next a s := by
  subst h
  rfl

theorem Leaves.congr {act' : Action σ α} (h : act s = act' s) (hleaves : Leaves act s t) :
    Leaves act' s t := by
  unfold Leaves at hleaves ⊢
  rw [← h]
  exact hleaves

theorem Ends.congr {act' : Action σ α} (h : act s = act' s) (hends : Ends act s a t) :
    Ends act' s a t := by
  unfold Ends at hends ⊢
  rw [← h]
  exact hends

theorem ends_onFailure {recover : Action σ Unit} :
    Ends (act.onFailure recover) s a t ↔ Ends act s a t := by
  unfold Ends onFailure
  cases hresult : (act s).result with
  | ok value => simp [hresult]
  | error error => simp

theorem leaves_onFailure {recover : Action σ Unit} (h : Ends act s a t)
    (hleaves : Leaves (act.onFailure recover) s c) : Leaves act s c := by
  unfold Leaves onFailure at hleaves
  rw [h.1] at hleaves
  exact hleaves

section Part

variable {τ : Type} {part : τ → σ} {put : τ → σ → τ} {x y : τ}

theorem ends_onPart : Ends (onPart part put act) x a y ↔
    ∃ t, Ends act (part x) a t ∧ put x t = y := by
  constructor
  · rintro ⟨hok, hfinal⟩
    exact ⟨_, ⟨hok, rfl⟩, hfinal⟩
  · rintro ⟨_, ⟨hok, rfl⟩, hfinal⟩
    exact ⟨hok, hfinal⟩

theorem leaves_onPart (hput : put x (part x) = x) (h : Leaves (onPart part put act) x y) :
    ∃ c, Leaves act (part x) c ∧ put x c = y := by
  rcases h with rfl | hmem | rfl
  · exact ⟨_, .inl rfl, hput⟩
  · rcases List.mem_map.mp hmem with ⟨c, hc, rfl⟩
    exact ⟨c, .inr (.inl hc), rfl⟩
  · exact ⟨_, .inr (.inr rfl), rfl⟩

end Part

/-! ## Loops -/

theorem ends_forEach_nil : Ends (forEach step []) s () t ↔ s = t := by
  change Ends (done ()) s () t ↔ s = t
  simp

theorem ends_forEach_cons {i : ι} {rest : List ι} : Ends (forEach step (i :: rest)) s () t ↔
    ∃ u, Ends (step i) s () u ∧ Ends (forEach step rest) u () t := by
  constructor
  · intro h
    rcases ends_bind.mp h with ⟨_, u, hfirst, hrest⟩
    exact ⟨u, hfirst, hrest⟩
  · rintro ⟨u, hfirst, hrest⟩
    exact ends_bind.mpr ⟨(), u, hfirst, hrest⟩

theorem ends_forEach_append {items' : List ι} : Ends (forEach step (items ++ items')) s () t ↔
    ∃ u, Ends (forEach step items) s () u ∧ Ends (forEach step items') u () t := by
  induction items generalizing s with
  | nil =>
      constructor
      · exact fun h => ⟨s, ends_forEach_nil.mpr rfl, h⟩
      · rintro ⟨u, hnil, h⟩
        cases ends_forEach_nil.mp hnil
        exact h
  | cons i rest ih =>
      rw [List.cons_append, ends_forEach_cons]
      constructor
      · rintro ⟨v, hfirst, hrest⟩
        rcases ih.mp hrest with ⟨u, hu, ht⟩
        exact ⟨u, ends_forEach_cons.mpr ⟨v, hfirst, hu⟩, ht⟩
      · rintro ⟨u, hu, ht⟩
        rcases ends_forEach_cons.mp hu with ⟨v, hfirst, hrest⟩
        exact ⟨v, hfirst, ih.mpr ⟨u, hrest, ht⟩⟩

/-- What every round keeps is kept by a loop that succeeds. -/
theorem Ends.keeps (h : ∀ i ∈ items, ∀ s t, I s → Ends (step i) s () t → I t) (hs : I s)
    (hends : Ends (forEach step items) s () t) : I t := by
  induction items generalizing s with
  | nil =>
      cases ends_forEach_nil.mp hends
      exact hs
  | cons i rest ih =>
      rcases ends_forEach_cons.mp hends with ⟨u, hfirst, hrest⟩
      exact ih (fun j hj => h j (List.mem_cons_of_mem _ hj))
        (h i List.mem_cons_self s u hs hfirst) hrest

/-- A loop whose rounds change nothing any more. -/
theorem ends_forEach_self (h : ∀ i ∈ items, Ends (step i) s () s) :
    Ends (forEach step items) s () s := by
  induction items with
  | nil => exact ends_forEach_nil.mpr rfl
  | cons i rest ih =>
      exact ends_forEach_cons.mpr ⟨s, h i List.mem_cons_self,
        ih fun j hj => h j (List.mem_cons_of_mem _ hj)⟩

/-- Wherever a round is cut off, if it is begun anew from something good, it ends where it
would have ended. -/
def Restartable (Good : σ → Prop) (act : Action σ Unit) (s t : σ) : Prop :=
  ∀ c, Leaves act s c → Good c → Ends act c () t

/-- What a loop can leave that is cut off in the round of an index. -/
def Stopped (step : ι → Action σ Unit) (items : List ι) (s : σ) (index : Nat) (c : σ) : Prop :=
  ∃ t, Ends (forEach step (items.take index)) s () t ∧
    (items.drop index = [] → c = t) ∧
      ∀ i rest, items.drop index = i :: rest → Leaves (step i) t c

theorem stopped_nil : Stopped step [] s 0 s :=
  ⟨s, ends_forEach_nil.mpr rfl, fun _ => rfl, fun _ _ h => nomatch h⟩

/-- A loop that is cut off in its first round. -/
theorem stopped_zero {i : ι} {rest : List ι} (h : Leaves (step i) s c) :
    Stopped step (i :: rest) s 0 c := by
  refine ⟨s, ends_forEach_nil.mpr rfl, fun hnil => (nomatch hnil), ?_⟩
  intro j later hlater
  cases hlater
  exact h

/-- A loop that is cut off after its first round. -/
theorem Stopped.succ {i : ι} {rest : List ι} (hround : Ends (step i) s () t)
    (h : Stopped step rest t index c) : Stopped step (i :: rest) s (index + 1) c := by
  rcases h with ⟨u, htake, hnil, hcons⟩
  exact ⟨u, ends_forEach_cons.mpr ⟨t, hround, htake⟩, hnil, hcons⟩

/-- An action that succeeds and has no effect. -/
structure Still (act : Action σ Unit) (s : σ) : Prop where
  ends : Ends act s () s
  leaves : ∀ c, Leaves act s c → c = s

/-- A loop whose rounds have no effect if they succeed. -/
theorem Still.forEach (h : ∀ i ∈ items, ∀ t, Ends (step i) s () t → Still (step i) s)
    (hends : Ends (forEach step items) s () t) :
    Still (forEach step items) s ∧ ∀ i ∈ items, Ends (step i) s () s := by
  induction items with
  | nil =>
      refine ⟨⟨ends_forEach_nil.mpr rfl, fun c hleaves => leaves_done hleaves⟩, ?_⟩
      exact fun _ hmem => nomatch hmem
  | cons i rest ih =>
      rcases ends_forEach_cons.mp hends with ⟨u, hround, hrest⟩
      have hstill := h i List.mem_cons_self u hround
      cases (hround.unique hstill.ends).2
      rcases ih (fun j hj => h j (List.mem_cons_of_mem _ hj)) hrest with ⟨hlater, heach⟩
      refine ⟨⟨ends_forEach_cons.mpr ⟨_, hround, hlater.ends⟩, ?_⟩, ?_⟩
      · intro c hleaves
        rcases leaves_bind hround hleaves with hfirst | hsecond
        · exact hstill.leaves c hfirst
        · exact hlater.leaves c hsecond
      · intro j hj
        rcases List.mem_cons.mp hj with rfl | hmem
        · exact hround
        · exact heach j hmem

/-- The round that a loop was cut off in. -/
theorem Stopped.round (hkeeps : ∀ i ∈ items, ∀ s t, I s → Ends (step i) s () t → I t) (hs : I s)
    (hends : Ends (forEach step items) s () u) (h : Stopped step items s index c) {i : ι}
    {rest : List ι} (hdrop : items.drop index = i :: rest) :
    ∃ t v, I t ∧ Ends (step i) t () v ∧ Leaves (step i) t c ∧
      Ends (forEach step rest) v () u := by
  rcases h with ⟨t, htake, -, hcons⟩
  rw [← List.take_append_drop index items] at hends
  rcases ends_forEach_append.mp hends with ⟨t', htake', hlater⟩
  cases (htake.unique htake').2
  rw [hdrop] at hlater
  rcases ends_forEach_cons.mp hlater with ⟨v, hround, hrest⟩
  exact ⟨t, v, htake.keeps (fun i hi => hkeeps i (List.mem_of_mem_take hi)) hs, hround,
    hcons i rest hdrop, hrest⟩

/-- A loop that was cut off after its last round. -/
theorem Stopped.last (hends : Ends (forEach step items) s () u)
    (h : Stopped step items s index c) (hdrop : items.drop index = []) : c = u := by
  rcases h with ⟨t, htake, hnil, -⟩
  rw [← List.take_append_drop index items, hdrop, List.append_nil] at hends
  rw [hnil hdrop]
  exact (htake.unique hends).2

/-- A loop that is taken up where it was cut off ends where it would have ended. -/
theorem Stopped.resumes (hkeeps : ∀ i ∈ items, ∀ s t, I s → Ends (step i) s () t → I t)
    (hrestart : ∀ i ∈ items, ∀ s t, I s → Ends (step i) s () t → Restartable Good (step i) s t)
    (hs : I s) (hends : Ends (forEach step items) s () u) (h : Stopped step items s index c)
    (hgood : Good c) : Ends (forEach step (items.drop index)) c () u := by
  cases hdrop : items.drop index with
  | nil => exact ends_forEach_nil.mpr (h.last hends hdrop)
  | cons i rest =>
      have hmem : i ∈ items := by
        apply List.mem_of_mem_drop (i := index)
        rw [hdrop]
        exact List.mem_cons_self
      rcases h.round hkeeps hs hends hdrop with ⟨t, v, ht, hround, hleaves, hrest⟩
      exact ends_forEach_cons.mpr ⟨v, hrestart i hmem t v ht hround c hleaves hgood, hrest⟩

theorem forEach_congr {step' : ι → Action σ Unit} (h : ∀ i ∈ items, step i = step' i) :
    forEach step items = forEach step' items := by
  induction items with
  | nil => rfl
  | cons i rest ih =>
      unfold forEach
      rw [h i List.mem_cons_self, ih fun j hj => h j (List.mem_cons_of_mem _ hj)]

end Action
end Lib
end Stemcell
