import Stemcell.Interface.Dumps
import Mathlib.Data.List.Perm.Subperm
import Mathlib.Data.String.Basic

/-!
# Bounding outbound frames

Glass refuses frames over a limit at the transport.  The last resort before a send trims the largest
field that is not protected, again and again, until the frame fits or nothing is worth trimming.  A
text is cut by what its own size has over the whole budget.

Main results:

- Definition `boundLoop`: the loop.
- Theorem `bound_law`: where each trimmed field comes down to 64 bytes or brings the frame into the
  budget, the loop ends, in a frame within the budget or with nothing left to trim.
- Theorem `two_long_texts`: a frame with two long texts, on which the loop cuts the same text for
  ever.

Current gaps:

- A text has no half pairs of code units.
-/

namespace Stemcell
namespace Glass

open Interface (Json Frame dumpsSize frameSize fieldSize)
open Lib (Dict)

/-! ## The loop -/

/-- Keys that identify or route a frame. -/
def protectedFrameKeys : List String :=
  ["type", "id", "run_id", "command", "session_id", "action", "ts", "status"]

def isProtected (key : String) : Bool :=
  decide (key ∈ protectedFrameKeys)

/-- The fields that may be trimmed, with their sizes. -/
def candidates (frame : Frame) : List (ℕ × String) :=
  (frame.entries.filter fun field => !isProtected field.1).map fun field =>
    (dumpsSize field.2, field.1)

/-- `a > b`, for a size and a key each. -/
def Outranks (a b : ℕ × String) : Prop :=
  b.1 < a.1 ∨ a.1 = b.1 ∧ b.2 < a.2

instance (a b : ℕ × String) : Decidable (Outranks a b) :=
  inferInstanceAs (Decidable (b.1 < a.1 ∨ a.1 = b.1 ∧ b.2 < a.2))

/-- `max(candidates)`. -/
def largest : List (ℕ × String) → Option (ℕ × String)
  | [] => none
  | first :: rest => some (rest.foldl (fun a b => if Outranks b a then b else a) first)

/-- What a cut leaves behind a text. -/
def cutMarker (dropped : ℤ) : List Char :=
  "…[truncated ".toList ++ (toString dropped).toList ++ " chars]".toList

/-- How many characters of a text stay. -/
def keepOf (budget : ℕ) (text : List Char) (size : ℕ) : ℕ :=
  ((text.length : ℤ) - ((size : ℤ) - budget) - 512).toNat

def cutText (budget : ℕ) (text : List Char) (size : ℕ) : List Char :=
  text.take (keepOf budget text size) ++
    cutMarker ((text.length : ℤ) - keepOf budget text size)

/-- A field of some size, trimmed. -/
def trimField (budget size : ℕ) : Json → Json
  | .str text => .str (String.ofList (cutText budget text.toList size))
  | .arr items => .arr [.obj [("truncated_items", .int items.length)]]
  | _ => .str "[truncated]"

/-- What one round of the loop finds. -/
inductive BoundStep
  | fits
  | irreducible
  | trims (key : String) (frame : Frame)

def boundStep (budget : ℕ) (frame : Frame) : BoundStep :=
  if frameSize frame ≤ budget then .fits
  else
    match largest (candidates frame) with
    | none => .irreducible
    | some (size, key) =>
        if size ≤ 64 then .irreducible
        else .trims key (frame.set key (trimField budget size ((frame.get? key).getD .null)))

/-- `bound_frame`, with fuel for its rounds: `none` where the fuel does not do. -/
def boundLoop (budget : ℕ) : ℕ → Frame → Option (Option Frame)
  | 0, _ => none
  | fuel + 1, frame =>
      match boundStep budget frame with
      | .fits => some (some frame)
      | .irreducible => some none
      | .trims _ frame => boundLoop budget fuel frame

/-! ## The law and its condition -/

/-- The value is unchanged, cut, or replaced by a marker. -/
def Trimmed (old new : Json) : Prop :=
  new = old ∨
    (∃ text kept dropped, old = .str text ∧
      new = .str (String.ofList (text.toList.take kept ++ cutMarker dropped))) ∨
    (∃ items : List Json, old = .arr items ∧
      new = .arr [.obj [("truncated_items", .int items.length)]]) ∨
    new = .str "[truncated]"

/-- The size of the protected fields together with a rest of 64 bytes of each other field. -/
def restSize (frame : Frame) : ℕ :=
  (frame.entries.map fun field =>
      if isProtected field.1 then fieldSize field.1 field.2
      else (Interface.dumpsText field.1).length + 64 + 2).sum +
    if frame.entries = [] then 2 else 1

/-- What the result of bounding a payload should be. -/
def Bounded (budget : ℕ) (payload : Frame) : Option Frame → Prop
  | none => budget < restSize payload
  | some frame => frameSize frame ≤ budget ∧ frame.keys = payload.keys ∧
      ∀ key old new, payload.get? key = some old → frame.get? key = some new →
        if isProtected key then new = old else Trimmed old new

/-- The loop ends, with such a result. -/
def BoundLaw (budget : ℕ) (payload : Frame) : Prop :=
  ∃ fuel result, boundLoop budget fuel payload = some result ∧ Bounded budget payload result

/-- A field trimmed by its own size. -/
def trimmed (budget : ℕ) (value : Json) : Json :=
  trimField budget (dumpsSize value) value

/-- The frame with some of its fields trimmed. -/
def trimWhere (budget : ℕ) (which : String → ℕ → Bool) (frame : Frame) : Frame where
  entries := frame.entries.map fun field =>
    (field.1, if which field.1 (dumpsSize field.2) then trimmed budget field.2 else field.2)
  nodup := by
    rw [List.map_map]
    exact frame.nodup

/-- The field may be trimmed and ranks above a size and a key. -/
def above (rank : ℕ × String) (key : String) (size : ℕ) : Bool :=
  !isProtected key && decide (Outranks (size, key) rank)

/-- Wherever the frame is over its budget with all larger fields trimmed, trimming the next one
leaves 64 bytes of it at most, or brings the frame into the budget once all fields are trimmed that
are larger than what is left of it. -/
def ClearsOnce (budget : ℕ) (payload : Frame) : Prop :=
  ∀ key value, payload.get? key = some value → isProtected key = false → 64 < dumpsSize value →
    budget < frameSize (trimWhere budget (above (dumpsSize value, key)) payload) →
      dumpsSize (trimmed budget value) ≤ 64 ∨
        frameSize (trimWhere budget (fun other size => decide (other = key) ||
          above (dumpsSize value, key) other size ||
          above (dumpsSize (trimmed budget value), key) other size) payload) ≤ budget

/-! ## The largest field -/

section Largest

theorem outranks_irrefl (a : ℕ × String) : ¬ Outranks a a := by
  rintro (h | ⟨-, h⟩)
  · exact Nat.lt_irrefl _ h
  · exact lt_irrefl _ h

theorem Outranks.trans {a b c : ℕ × String} (h : Outranks a b) (h' : Outranks b c) :
    Outranks a c := by
  rcases h with h | ⟨heq, hlt⟩
  · rcases h' with h' | ⟨heq', -⟩
    · exact .inl (Nat.lt_trans h' h)
    · exact .inl (heq' ▸ h)
  · rcases h' with h' | ⟨heq', hlt'⟩
    · exact .inl (heq ▸ h')
    · exact .inr ⟨heq.trans heq', hlt'.trans hlt⟩

/-- Two different fields are ranked. -/
theorem outranks_of_ne {a b : ℕ × String} (hne : a ≠ b) (h : ¬ Outranks a b) : Outranks b a := by
  unfold Outranks at h ⊢
  rw [not_or, not_and] at h
  rcases Nat.lt_trichotomy a.1 b.1 with hlt | heq | hgt
  · exact .inl hlt
  · right
    refine ⟨heq.symm, ?_⟩
    rcases lt_trichotomy a.2 b.2 with hlt | hkey | hgt
    · exact hlt
    · exact absurd (Prod.ext heq hkey) hne
    · exact absurd hgt (h.2 heq)
  · exact absurd hgt h.1

theorem foldl_larger (cs : List (ℕ × String)) (first : ℕ × String) :
    (cs.foldl (fun a b => if Outranks b a then b else a) first = first ∨
      cs.foldl (fun a b => if Outranks b a then b else a) first ∈ cs) ∧
      ∀ c, c = first ∨ c ∈ cs →
        ¬ Outranks c (cs.foldl (fun a b => if Outranks b a then b else a) first) := by
  induction cs generalizing first with
  | nil =>
      refine ⟨.inl rfl, ?_⟩
      rintro c (rfl | hmem)
      · exact outranks_irrefl _
      · cases hmem
  | cons c cs ih =>
      rw [List.foldl_cons]
      by_cases h : Outranks c first
      · rw [if_pos h]
        rcases ih c with ⟨hmem, htop⟩
        refine ⟨?_, ?_⟩
        · rcases hmem with heq | hmem
          · right
            rw [heq]
            exact List.mem_cons_self
          · exact .inr (List.mem_cons_of_mem _ hmem)
        · rintro d (rfl | hd)
          · intro hd
            exact htop c (.inl rfl) (h.trans hd)
          · rcases List.mem_cons.mp hd with rfl | hrest
            · exact htop d (.inl rfl)
            · exact htop d (.inr hrest)
      · rw [if_neg h]
        rcases ih first with ⟨hmem, htop⟩
        refine ⟨?_, ?_⟩
        · rcases hmem with heq | hmem
          · exact .inl heq
          · exact .inr (List.mem_cons_of_mem _ hmem)
        · rintro d (rfl | hd)
          · exact htop d (.inl rfl)
          · rcases List.mem_cons.mp hd with rfl | hrest
            · intro hd
              by_cases hfirst : first = cs.foldl (fun a b => if Outranks b a then b else a) first
              · rw [← hfirst] at hd
                exact h hd
              · exact h (hd.trans (outranks_of_ne hfirst (htop first (.inl rfl))))
            · exact htop d (.inr hrest)

/-- The largest field is one of the candidates, and none of them outranks it. -/
theorem largest_spec {cs : List (ℕ × String)} {top : ℕ × String} (h : largest cs = some top) :
    top ∈ cs ∧ ∀ c ∈ cs, ¬ Outranks c top := by
  cases cs with
  | nil => cases h
  | cons first rest =>
      rw [largest, Option.some.injEq] at h
      rcases foldl_larger rest first with ⟨hmem, htop⟩
      rw [h] at hmem htop
      constructor
      · rcases hmem with heq | hmem
        · rw [heq]
          exact List.mem_cons_self
        · exact List.mem_cons_of_mem _ hmem
      · intro c hc
        exact htop c (List.mem_cons.mp hc)

theorem mem_candidates (frame : Frame) (size : ℕ) (key : String) :
    (size, key) ∈ candidates frame ↔
      ∃ value, frame.get? key = some value ∧ isProtected key = false ∧ dumpsSize value = size := by
  unfold candidates
  rw [List.mem_map]
  constructor
  · rintro ⟨⟨key', value⟩, hmem, heq⟩
    rcases List.mem_filter.mp hmem with ⟨hentry, hfree⟩
    rw [Prod.mk.injEq] at heq
    rcases heq with ⟨hsize, hkey⟩
    dsimp only at hsize hkey hfree
    subst hkey
    exact ⟨value, (frame.get?_eq_some_iff _ _).mpr hentry, by simpa using hfree, hsize⟩
  · rintro ⟨value, hget, hfree, rfl⟩
    refine ⟨(key, value), List.mem_filter.mpr ⟨(frame.get?_eq_some_iff _ _).mp hget, ?_⟩, rfl⟩
    simp [hfree]

end Largest

/-! ## Frames with some fields trimmed -/

section Trimming

variable {budget : ℕ} {frame : Frame} {which : String → ℕ → Bool}

theorem get?_trimWhere (budget : ℕ) (which : String → ℕ → Bool) (frame : Frame) (key : String) :
    (trimWhere budget which frame).get? key = (frame.get? key).map fun value =>
      if which key (dumpsSize value) then trimmed budget value else value := by
  change Dict.getEntries key (frame.entries.map _) = (Dict.getEntries key frame.entries).map _
  induction frame.entries with
  | nil => rfl
  | cons field rest ih =>
      by_cases h : field.1 = key
      · subst h
        simp [Dict.getEntries]
      · rw [List.map_cons, Dict.getEntries, if_neg h, Dict.getEntries, if_neg h, ih]

theorem trimWhere_congr {which' : String → ℕ → Bool}
    (h : ∀ key value, frame.get? key = some value →
      which key (dumpsSize value) = which' key (dumpsSize value)) :
    trimWhere budget which frame = trimWhere budget which' frame := by
  have hentries : (trimWhere budget which frame).entries =
      (trimWhere budget which' frame).entries := by
    apply List.map_congr_left
    rintro ⟨key, value⟩ hmem
    dsimp only
    rw [h key value ((frame.get?_eq_some_iff _ _).mpr hmem)]
  unfold trimWhere at hentries ⊢
  simpa using hentries

theorem trimWhere_none (budget : ℕ) (frame : Frame) :
    trimWhere budget (fun _ _ => false) frame = frame := by
  rcases frame with ⟨entries, hnodup⟩
  simp [trimWhere]

theorem keys_trimWhere (budget : ℕ) (which : String → ℕ → Bool) (frame : Frame) :
    (trimWhere budget which frame).keys = frame.keys := by
  unfold Dict.keys trimWhere
  rw [List.map_map]
  rfl

theorem setEntries_eq_map {entries : List (String × Json)} (hnodup : (entries.map Prod.fst).Nodup)
    {key : String} (hmem : key ∈ entries.map Prod.fst) (value : Json) :
    Dict.setEntries key value entries =
      entries.map fun field => if field.1 = key then (key, value) else field := by
  induction entries with
  | nil => cases hmem
  | cons field rest ih =>
      rw [List.map_cons, List.nodup_cons] at hnodup
      by_cases h : field.1 = key
      · have hrest : rest.map (fun field => if field.1 = key then (key, value) else field) =
            rest := by
          conv_rhs => rw [← List.map_id rest]
          apply List.map_congr_left
          intro other hother
          rw [if_neg]
          · rfl
          · intro heq
            apply hnodup.1
            rw [h, ← heq]
            exact List.mem_map_of_mem hother
        rw [Dict.setEntries, if_pos h, List.map_cons, if_pos h, hrest]
      · rw [List.map_cons, List.mem_cons] at hmem
        rcases hmem with heq | hmem
        · exact absurd heq.symm h
        · rw [Dict.setEntries, if_neg h, List.map_cons, if_neg h, ih hnodup.2 hmem]

/-- Trimming one more field. -/
theorem set_trimWhere {key : String} {value : Json} (hget : frame.get? key = some value) :
    (trimWhere budget which frame).set key (trimmed budget value) =
      trimWhere budget (fun other size => decide (other = key) || which other size) frame := by
  have hkeys : key ∈ (trimWhere budget which frame).entries.map Prod.fst := by
    change key ∈ (trimWhere budget which frame).keys
    rw [keys_trimWhere]
    exact frame.mem_keys_of_get? hget
  have hentries : ((trimWhere budget which frame).set key (trimmed budget value)).entries =
      (trimWhere budget (fun other size => decide (other = key) || which other size)
        frame).entries := by
    change Dict.setEntries key _ (trimWhere budget which frame).entries = _
    rw [setEntries_eq_map (trimWhere budget which frame).nodup hkeys]
    unfold trimWhere
    rw [List.map_map]
    apply List.map_congr_left
    rintro ⟨other, old⟩ hmem
    dsimp only [Function.comp]
    by_cases h : other = key
    · subst h
      have hold := (frame.get?_eq_some_iff _ _).mpr hmem
      rw [hget, Option.some.injEq] at hold
      simp [hold]
    · simp [h]
  unfold Dict.set at hentries ⊢
  unfold trimWhere at hentries ⊢
  simpa using hentries

end Trimming

/-! ## The loop trims each field once -/

section Loop

variable {budget : ℕ} {payload : Frame}

/-- The payload with the fields of a list trimmed. -/
def trimDone (budget : ℕ) (payload : Frame) (done : List String) : Frame :=
  trimWhere budget (fun key _ => decide (key ∈ done)) payload

/-- What the loop has done: it went through the fields from the largest one on, each was the largest
when it was trimmed, and the frame was over its budget then. -/
structure Through (budget : ℕ) (payload : Frame) (done : List String) : Prop where
  nodup : done.Nodup
  free : ∀ k ∈ done, ∃ v, payload.get? k = some v ∧ isProtected k = false ∧ 64 < dumpsSize v
  upper : ∀ k ∈ done, ∀ v, payload.get? k = some v → ∀ j w, payload.get? j = some w →
    isProtected j = false → j ∉ done → Outranks (dumpsSize v, k) (dumpsSize w, j)
  order : ∀ j ∈ done, ∀ k ∈ done, j ≠ k → ∀ v w, payload.get? j = some v →
    payload.get? k = some w → Outranks (dumpsSize v, j) (dumpsSize w, k) ∨
      Outranks (dumpsSize v, j) (dumpsSize (trimmed budget w), k)
  exceeds : ∀ k ∈ done, ∀ v, payload.get? k = some v →
    budget < frameSize (trimWhere budget (above (dumpsSize v, k)) payload)

theorem get?_trimDone (done : List String) (key : String) :
    (trimDone budget payload done).get? key = (payload.get? key).map fun value =>
      if key ∈ done then trimmed budget value else value := by
  unfold trimDone
  rw [get?_trimWhere]
  simp only [decide_eq_true_eq]

/-- The largest field of a frame over its budget, trimmed. -/
theorem boundStep_trims {frame frame' : Frame} {key : String}
    (h : boundStep budget frame = .trims key frame') :
    budget < frameSize frame ∧ ∃ value, frame.get? key = some value ∧ isProtected key = false ∧
      64 < dumpsSize value ∧ frame' = frame.set key (trimmed budget value) ∧
      ∀ j w, frame.get? j = some w → isProtected j = false →
        ¬ Outranks (dumpsSize w, j) (dumpsSize value, key) := by
  unfold boundStep at h
  by_cases hfits : frameSize frame ≤ budget
  · rw [if_pos hfits] at h
    cases h
  · rw [if_neg hfits] at h
    refine ⟨Nat.lt_of_not_le hfits, ?_⟩
    cases htop : largest (candidates frame) with
    | none =>
        rw [htop] at h
        cases h
    | some top =>
        rcases largest_spec htop with ⟨hmem, hall⟩
        rcases (mem_candidates frame top.1 top.2).mp hmem with ⟨value, hget, hfree, hsize⟩
        rw [htop] at h
        dsimp only at h
        by_cases hsmall : top.1 ≤ 64
        · rw [if_pos hsmall] at h
          cases h
        · rw [if_neg hsmall] at h
          injection h with hkey hframe
          subst hkey
          refine ⟨value, hget, hfree, by omega, ?_, ?_⟩
          · rw [← hframe, hget, Option.getD_some, ← hsize]
            rfl
          · intro j w hj hfreej hout
            apply hall (dumpsSize w, j) ((mem_candidates frame _ _).mpr ⟨w, hj, hfreej, rfl⟩)
            rw [hsize] at hout
            exact hout

/-- Under the condition the loop trims a field that it has not trimmed before. -/
theorem Through.next {done : List String} (hclears : ClearsOnce budget payload)
    (h : Through budget payload done) {key : String} {frame : Frame}
    (hstep : boundStep budget (trimDone budget payload done) = .trims key frame) :
    Through budget payload (key :: done) ∧ frame = trimDone budget payload (key :: done) := by
  rcases boundStep_trims hstep with ⟨hover, current, hcurrent, hfree, hbig, hframe, htop⟩
  rw [get?_trimDone] at hcurrent
  rcases Option.map_eq_some_iff.mp hcurrent with ⟨value, hget, hvalue⟩
  -- the other fields as they are now
  have hother : ∀ j w, payload.get? j = some w → isProtected j = false → j ≠ key →
      Outranks (dumpsSize current, key)
        (dumpsSize (if j ∈ done then trimmed budget w else w), j) := by
    intro j w hj hfreej hne
    apply outranks_of_ne
    · intro heq
      exact hne (congrArg Prod.snd heq)
    · apply htop j _ _ hfreej
      rw [get?_trimDone, hj, Option.map_some]
  have hnew : key ∉ done := by
    intro hdone
    rw [if_pos hdone] at hvalue
    subst hvalue
    rcases h.free key hdone with ⟨v, hv, -, hbigv⟩
    rw [hget, Option.some.injEq] at hv
    subst hv
    rcases hclears key value hget hfree hbigv (h.exceeds key hdone value hget) with hsmall | hfits
    · omega
    · have hsame : trimDone budget payload done = trimWhere budget (fun other size =>
          decide (other = key) || above (dumpsSize value, key) other size ||
            above (dumpsSize (trimmed budget value), key) other size) payload := by
        apply trimWhere_congr
        intro j w hj
        by_cases hne : j = key
        · subst hne
          simp [hdone]
        · rw [Bool.eq_iff_iff]
          simp only [decide_eq_true_eq, Bool.or_eq_true, above, Bool.and_eq_true,
            Bool.not_eq_true', hne, false_or]
          constructor
          · intro hj'
            rcases h.free j hj' with ⟨v, hv, hfreej, -⟩
            rcases h.order j hj' key hdone hne w value hj hget with hout | hout
            · exact .inl ⟨hfreej, hout⟩
            · exact .inr ⟨hfreej, hout⟩
          · intro hrank
            by_contra hj'
            rcases hrank with ⟨hfreej, hout⟩ | ⟨hfreej, hout⟩
            · exact outranks_irrefl _ (hout.trans (h.upper key hdone value hget j w hj hfreej hj'))
            · have hcur := hother j w hj hfreej hne
              rw [if_neg hj'] at hcur
              exact outranks_irrefl _ (hout.trans hcur)
      rw [hsame] at hover
      omega
  rw [if_neg hnew] at hvalue
  subst hvalue
  have hdoneAbove : trimDone budget payload done =
      trimWhere budget (above (dumpsSize value, key)) payload := by
    apply trimWhere_congr
    intro j w hj
    rw [Bool.eq_iff_iff]
    simp only [decide_eq_true_eq, above, Bool.and_eq_true, Bool.not_eq_true']
    constructor
    · intro hj'
      rcases h.free j hj' with ⟨v, hv, hfreej, -⟩
      exact ⟨hfreej, h.upper j hj' w hj key value hget hfree hnew⟩
    · rintro ⟨hfreej, hout⟩
      by_contra hj'
      have hne : j ≠ key := by
        intro heq
        subst heq
        rw [hget, Option.some.injEq] at hj
        subst hj
        exact outranks_irrefl _ hout
      have hcur := hother j w hj hfreej hne
      rw [if_neg hj'] at hcur
      exact outranks_irrefl _ (hout.trans hcur)
  refine ⟨?_, ?_⟩
  · constructor
    · exact List.nodup_cons.mpr ⟨hnew, h.nodup⟩
    · intro k hk
      rcases List.mem_cons.mp hk with heq | hk
      · subst heq
        exact ⟨value, hget, hfree, hbig⟩
      · exact h.free k hk
    · intro k hk v hv j w hj hfreej hnot
      rw [List.mem_cons, not_or] at hnot
      rcases List.mem_cons.mp hk with heq | hk
      · subst heq
        rw [hget, Option.some.injEq] at hv
        subst hv
        have hcur := hother j w hj hfreej hnot.1
        rw [if_neg hnot.2] at hcur
        exact hcur
      · exact h.upper k hk v hv j w hj hfreej hnot.2
    · intro j hj k hk hne v w hv hw
      rcases List.mem_cons.mp hj with hjkey | hjdone
      · subst hjkey
        rcases List.mem_cons.mp hk with hkkey | hk
        · exact absurd hkkey.symm hne
        · rcases h.free k hk with ⟨w', hw', hfreek, -⟩
          rw [hget, Option.some.injEq] at hv
          subst hv
          have hcur := hother k w hw hfreek (Ne.symm hne)
          rw [if_pos hk] at hcur
          exact .inr hcur
      · rcases List.mem_cons.mp hk with hkkey | hk
        · subst hkkey
          exact .inl (h.upper j hjdone v hv k w hw hfree hnew)
        · exact h.order j hjdone k hk hne v w hv hw
    · intro k hk v hv
      rcases List.mem_cons.mp hk with heq | hk
      · subst heq
        rw [hget, Option.some.injEq] at hv
        subst hv
        rw [← hdoneAbove]
        exact hover
      · exact h.exceeds k hk v hv
  · rw [hframe]
    unfold trimDone
    rw [set_trimWhere hget]
    apply trimWhere_congr
    intro j w _
    rw [Bool.eq_iff_iff]
    simp

/-- A field that is trimmed is cut or replaced by a marker. -/
theorem trimmed_spec (budget : ℕ) (value : Json) : Trimmed value (trimmed budget value) := by
  cases value with
  | str text => exact .inr (.inl ⟨text, _, _, rfl, rfl⟩)
  | arr items => exact .inr (.inr (.inl ⟨items, rfl, rfl⟩))
  | null => exact .inr (.inr (.inr rfl))
  | bool => exact .inr (.inr (.inr rfl))
  | int => exact .inr (.inr (.inr rfl))
  | float => exact .inr (.inr (.inr rfl))
  | obj => exact .inr (.inr (.inr rfl))

/-- A frame that fits is a proper result. -/
theorem Through.fits {done : List String} (h : Through budget payload done)
    (hfits : frameSize (trimDone budget payload done) ≤ budget) :
    Bounded budget payload (some (trimDone budget payload done)) := by
  refine ⟨hfits, keys_trimWhere _ _ _, ?_⟩
  intro key old new hold hnew
  rw [get?_trimDone, hold, Option.map_some, Option.some.injEq] at hnew
  subst hnew
  by_cases hdone : key ∈ done
  · rcases h.free key hdone with ⟨-, -, hfree, -⟩
    rw [if_pos hdone, if_neg (by simp [hfree])]
    exact trimmed_spec budget old
  · rw [if_neg hdone]
    split_ifs
    · rfl
    · exact .inl rfl

theorem sum_map_le {α : Type} {f g : α → ℕ} (l : List α) (h : ∀ a ∈ l, f a ≤ g a) :
    (l.map f).sum ≤ (l.map g).sum := by
  induction l with
  | nil => exact Nat.le_refl 0
  | cons a rest ih =>
      have hhead := h a List.mem_cons_self
      have htail := ih fun b hb => h b (List.mem_cons_of_mem a hb)
      rw [List.map_cons, List.map_cons, List.sum_cons, List.sum_cons]
      omega

/-- Where no field has more than 64 bytes, the frame has the size of its rest at most. -/
theorem frameSize_le_restSize {done : List String} (h : Through budget payload done)
    (hsmall : ∀ key value, (trimDone budget payload done).get? key = some value →
      isProtected key = false → dumpsSize value ≤ 64) :
    frameSize (trimDone budget payload done) ≤ restSize payload := by
  have hempty : (trimDone budget payload done).entries = [] ↔ payload.entries = [] :=
    List.map_eq_nil_iff
  rw [Interface.frameSize_eq, restSize]
  apply Nat.add_le_add
  · change ((payload.entries.map _).map _).sum ≤ _
    rw [List.map_map]
    apply sum_map_le
    rintro ⟨key, value⟩ hmem
    have hget := (payload.get?_eq_some_iff key value).mpr hmem
    have hnow := @get?_trimDone budget payload done key
    rw [hget, Option.map_some] at hnow
    dsimp only [Function.comp]
    simp only [decide_eq_true_eq]
    by_cases hprotected : isProtected key = true
    · have hnot : key ∉ done := by
        intro hdone
        rcases h.free key hdone with ⟨-, -, hfree, -⟩
        rw [hfree] at hprotected
        cases hprotected
      rw [if_neg hnot, if_pos hprotected]
    · have hbound := hsmall key _ hnow (by simpa using hprotected)
      rw [if_neg hprotected]
      unfold fieldSize
      omega
  · by_cases hnil : payload.entries = []
    · rw [if_pos hnil, if_pos (hempty.mpr hnil)]
    · rw [if_neg hnil, if_neg (mt hempty.mp hnil)]

/-- A frame over the budget with no field worth trimming. -/
theorem Through.irreducible {done : List String} (h : Through budget payload done)
    (hstep : boundStep budget (trimDone budget payload done) = .irreducible) :
    Bounded budget payload none := by
  unfold boundStep at hstep
  by_cases hfits : frameSize (trimDone budget payload done) ≤ budget
  · rw [if_pos hfits] at hstep
    cases hstep
  · rw [if_neg hfits] at hstep
    have hsmall : ∀ key value, (trimDone budget payload done).get? key = some value →
        isProtected key = false → dumpsSize value ≤ 64 := by
      intro key value hget hfree
      have hmem := (mem_candidates _ _ _).mpr ⟨value, hget, hfree, rfl⟩
      cases htop : largest (candidates (trimDone budget payload done)) with
      | none =>
          cases hcs : candidates (trimDone budget payload done) with
          | nil =>
              rw [hcs] at hmem
              cases hmem
          | cons c cs =>
              rw [hcs] at htop
              cases htop
      | some top =>
          rw [htop] at hstep
          dsimp only at hstep
          by_cases hle : top.1 ≤ 64
          · have hnot := (largest_spec htop).2 _ hmem
            unfold Outranks at hnot
            omega
          · rw [if_neg hle] at hstep
            cases hstep
    exact Nat.lt_of_lt_of_le (Nat.lt_of_not_le hfits) (frameSize_le_restSize h hsmall)

theorem Through.length_le {done : List String} (h : Through budget payload done) :
    done.length ≤ payload.size := by
  have hsub : done ⊆ payload.keys := by
    intro key hkey
    rcases h.free key hkey with ⟨v, hv, -⟩
    exact payload.mem_keys_of_get? hv
  have hlength := (List.subperm_of_subset h.nodup hsub).length_le
  rw [Dict.keys, List.length_map] at hlength
  exact hlength

/-- From wherever the loop is, it ends with one round for each field that is left. -/
theorem Through.ends (hclears : ClearsOnce budget payload) (fuel : ℕ) {done : List String}
    (h : Through budget payload done) (hfuel : payload.size < fuel + done.length) :
    ∃ result, boundLoop budget fuel (trimDone budget payload done) = some result ∧
      Bounded budget payload result := by
  induction fuel generalizing done with
  | zero =>
      have hle := h.length_le
      omega
  | succ fuel ih =>
      cases hstep : boundStep budget (trimDone budget payload done) with
      | fits =>
          have hfits : frameSize (trimDone budget payload done) ≤ budget := by
            unfold boundStep at hstep
            by_contra hover
            rw [if_neg hover] at hstep
            split at hstep
            · cases hstep
            · split_ifs at hstep
          refine ⟨_, ?_, h.fits hfits⟩
          rw [boundLoop, hstep]
      | irreducible =>
          refine ⟨none, ?_, h.irreducible hstep⟩
          rw [boundLoop, hstep]
      | trims key frame =>
          rcases h.next hclears hstep with ⟨hnext, hframe⟩
          rw [boundLoop, hstep]
          dsimp only
          rw [hframe]
          apply ih hnext
          rw [List.length_cons]
          omega

/-- Where each trimmed field comes down to 64 bytes or brings the frame into the budget, the loop
ends: in a frame within the budget whose protected fields are the payload's and whose other fields
are unchanged, cut or replaced by a marker, or in nothing, and then the protected fields with 64
bytes of each other field are over the budget. -/
theorem bound_law {budget : ℕ} {payload : Frame} (hclears : ClearsOnce budget payload) :
    BoundLaw budget payload := by
  have hstart : Through budget payload [] := by
    constructor
    · exact List.nodup_nil
    · intro k hk
      cases hk
    · intro k hk
      cases hk
    · intro j hj
      cases hj
    · intro k hk
      cases hk
  rcases hstart.ends hclears (payload.size + 1) (Nat.lt_succ_self _) with ⟨result, hrun, hbounded⟩
  have hnone : trimDone budget payload [] = payload := by
    unfold trimDone
    have hfalse : (fun (key : String) (_ : ℕ) => decide (key ∈ ([] : List String))) =
        fun _ _ => false := by
      ext key size
      simp
    rw [hfalse, trimWhere_none]
  rw [hnone] at hrun
  exact ⟨payload.size + 1, result, hrun, hbounded⟩

def manyItems : Json :=
  .arr (List.replicate 2500 (.int 0))

/-- A sessions frame of 2500 items, over a budget of 4096 bytes. -/
def itemsFrame : Frame where
  entries := [("type", .str "sessions"), ("items", manyItems)]
  nodup := by simp

theorem clearsOnce_items : ClearsOnce 4096 itemsFrame := by
  intro key value hget hfree hlarge hover
  left
  rcases List.mem_cons.mp ((itemsFrame.get?_eq_some_iff _ _).mp hget) with h | h
  · rw [Prod.mk.injEq] at h
    rw [h.1] at hfree
    exact absurd hfree (by decide)
  · rw [List.mem_singleton, Prod.mk.injEq] at h
    rw [h.2, trimmed, manyItems, trimField, List.length_replicate]
    decide +kernel

theorem bound_law_items : BoundLaw 4096 itemsFrame :=
  bound_law clearsOnce_items

end Loop

/-! ## Two long texts -/

section TwoTexts

/-- Letters, and the marker of a cut that dropped some of them. -/
def cutLetters (letters : ℕ) (dropped : ℤ) : List Char :=
  List.replicate letters 'a' ++ cutMarker dropped

def longNote : String :=
  String.ofList (List.replicate 1000 'b')

/-- A log frame with a long note beside its output. -/
def logFrame (stdout : List Char) : Frame where
  entries := [("type", .str "log"), ("stdout", .str (String.ofList stdout)),
    ("note", .str longNote)]
  nodup := by simp

theorem dumpsSize_letters (n : ℕ) (c : Char) (h : Interface.escapeChar c = [c]) :
    dumpsSize (.str (String.ofList (List.replicate n c))) = n + 2 := by
  rw [Interface.dumpsSize_str, String.toList_ofList, Interface.length_escapeText_replicate n c h]

theorem dumpsSize_cutLetters (n : ℕ) (dropped : ℤ) {marker : ℕ}
    (h : (Interface.escapeText (cutMarker dropped)).length = marker) :
    dumpsSize (.str (String.ofList (cutLetters n dropped))) = n + marker + 2 := by
  have hletter : Interface.escapeChar 'a' = ['a'] := by decide
  rw [Interface.dumpsSize_str, String.toList_ofList, cutLetters, Interface.escapeText_append,
    List.length_append, Interface.length_escapeText_replicate n 'a' hletter, h]

theorem dumpsSize_longNote : dumpsSize (.str longNote) = 1002 :=
  dumpsSize_letters 1000 'b' (by decide)

/-- The note is a variable here: the size of a closed text would be computed letter by letter. -/
theorem frameSize_three {frame : Frame} {type stdout note : String}
    (h : frame.entries = [("type", .str type), ("stdout", .str stdout), ("note", .str note)]) :
    frameSize frame = fieldSize "type" (.str type) + fieldSize "stdout" (.str stdout) +
      fieldSize "note" (.str note) + 1 := by
  have hne : frame.entries ≠ [] := by
    rw [h]
    exact List.cons_ne_nil _ _
  rw [Interface.frameSize_eq, if_neg hne, h, List.map_cons, List.map_cons, List.map_cons,
    List.map_nil, List.sum_cons, List.sum_cons, List.sum_cons, List.sum_nil]
  dsimp only
  omega

theorem frameSize_logFrame (stdout : List Char) :
    frameSize (logFrame stdout) = dumpsSize (.str (String.ofList stdout)) + 1034 := by
  have hnote := dumpsSize_longNote
  have htype : fieldSize "type" (.str "log") = 13 := by decide +kernel
  have hstdout : (Interface.dumpsText "stdout").length = 8 := by decide +kernel
  have hkey : (Interface.dumpsText "note").length = 6 := by decide +kernel
  have hthree := frameSize_three (rfl : (logFrame stdout).entries = _)
  generalize longNote = note at hnote hthree
  rw [hthree, htype, fieldSize, fieldSize, hstdout, hkey, hnote]
  omega

/-- With its output the larger text, the loop cuts that. -/
theorem boundStep_logFrame {stdout : List Char} {size : ℕ}
    (hsize : dumpsSize (.str (String.ofList stdout)) = size) (hlarge : 119000 ≤ size) :
    boundStep 120000 (logFrame stdout) =
      .trims "stdout" (logFrame (cutText 120000 stdout size)) := by
  have hover : ¬ frameSize (logFrame stdout) ≤ 120000 := by
    rw [frameSize_logFrame, hsize]
    omega
  have hcandidates : candidates (logFrame stdout) = [(size, "stdout"), (1002, "note")] := by
    change [(dumpsSize (.str (String.ofList stdout)), "stdout"),
      (dumpsSize (.str longNote), "note")] = _
    rw [hsize, dumpsSize_longNote]
  have hlower : ¬ Outranks (1002, "note") (size, "stdout") := by
    unfold Outranks
    dsimp only
    omega
  have htop : largest (candidates (logFrame stdout)) = some (size, "stdout") := by
    rw [hcandidates]
    simp only [largest, List.foldl_cons, List.foldl_nil]
    rw [if_neg hlower]
  have hset : (logFrame stdout).set "stdout" (.str (String.ofList (cutText 120000 stdout size))) =
      logFrame (cutText 120000 stdout size) :=
    rfl
  unfold boundStep
  rw [if_neg hover, htop]
  dsimp only
  rw [if_neg (by omega)]
  have hget : (logFrame stdout).get? "stdout" = some (.str (String.ofList stdout)) := rfl
  rw [hget, Option.getD_some, trimField, String.toList_ofList, hset]

theorem length_cutLetters (n : ℕ) (dropped : ℤ) {marker : ℕ}
    (h : (cutMarker dropped).length = marker) : (cutLetters n dropped).length = n + marker := by
  rw [cutLetters, List.length_append, List.length_replicate, h]

/-- A cut that keeps letters only. -/
theorem cutText_letters {text rest : List Char} {letters kept : ℕ}
    (htext : text = List.replicate letters 'a' ++ rest) (hkept : kept ≤ letters) {size : ℕ}
    (h : keepOf 120000 text size = kept) :
    cutText 120000 text size = cutLetters kept ((text.length : ℤ) - kept) := by
  unfold cutText cutLetters
  rw [h, htext, List.take_append_of_le_length (by rw [List.length_replicate]; exact hkept),
    List.take_replicate, Nat.min_eq_left hkept]

/-- The third cut of the output: 21 characters go, and as many come back. -/
theorem cut_again :
    boundStep 120000 (logFrame (cutLetters 119481 21)) =
      .trims "stdout" (logFrame (cutLetters 119481 21)) := by
  have hescaped : (Interface.escapeText (cutMarker 21)).length = 26 := by decide +kernel
  have hmarker : (cutMarker 21).length = 21 := by decide +kernel
  have hsize := dumpsSize_cutLetters 119481 21 hescaped
  have hlength := length_cutLetters 119481 21 hmarker
  have hkeep : keepOf 120000 (cutLetters 119481 21) 119509 = 119481 := by
    unfold keepOf
    rw [hlength]
    omega
  rw [boundStep_logFrame hsize (by omega)]
  have hcut := cutText_letters (rfl : cutLetters 119481 21 = _) (Nat.le_refl 119481) hkeep
  rw [hlength] at hcut
  exact congrArg (fun text => BoundStep.trims "stdout" (logFrame text)) hcut

theorem boundLoop_cut_again (fuel : ℕ) :
    boundLoop 120000 fuel (logFrame (cutLetters 119481 21)) = none := by
  induction fuel with
  | zero => rfl
  | succ fuel ih =>
      rw [boundLoop, cut_again]
      exact ih

/-- A frame with 200000 letters of output and a note of 1000 letters: the loop cuts the output three
times, and from then on replaces the marker by itself for ever. -/
theorem two_long_texts : ¬ BoundLaw 120000 (logFrame (List.replicate 200000 'a')) := by
  -- the first cut: 80514 letters go
  have hletters := dumpsSize_letters 200000 'a' (by decide)
  have hkeep : keepOf 120000 (List.replicate 200000 'a') 200002 = 119486 := by
    unfold keepOf
    rw [List.length_replicate]
    omega
  have hcut := @cutText_letters (List.replicate 200000 'a') [] 200000 119486
    (List.append_nil _).symm (by omega) 200002 hkeep
  rw [List.length_replicate] at hcut
  have hfirst := boundStep_logFrame hletters (by omega)
  have hone : cutText 120000 (List.replicate 200000 'a') 200002 = cutLetters 119486 80514 := hcut
  rw [hone] at hfirst
  -- the second cut: the marker goes and five letters with it
  have hescaped : (Interface.escapeText (cutMarker 80514)).length = 29 := by decide +kernel
  have hmarker : (cutMarker 80514).length = 24 := by decide +kernel
  have hsize := dumpsSize_cutLetters 119486 80514 hescaped
  have hlength := length_cutLetters 119486 80514 hmarker
  have hkeep' : keepOf 120000 (cutLetters 119486 80514) 119517 = 119481 := by
    unfold keepOf
    rw [hlength]
    omega
  have hcut' := @cutText_letters _ _ 119486 119481 (rfl : cutLetters 119486 80514 = _) (by omega)
    119517 hkeep'
  rw [hlength] at hcut'
  have hsecond := boundStep_logFrame hsize (by omega)
  have htwo : cutText 120000 (cutLetters 119486 80514) 119517 = cutLetters 119481 29 := hcut'
  rw [htwo] at hsecond
  -- the third cut: the marker of 29 goes for one of 21
  have hescaped' : (Interface.escapeText (cutMarker 29)).length = 26 := by decide +kernel
  have hmarker' : (cutMarker 29).length = 21 := by decide +kernel
  have hsize' := dumpsSize_cutLetters 119481 29 hescaped'
  have hlength' := length_cutLetters 119481 29 hmarker'
  have hkeep'' : keepOf 120000 (cutLetters 119481 29) 119509 = 119481 := by
    unfold keepOf
    rw [hlength']
    omega
  have hcut'' := @cutText_letters _ _ 119481 119481 (rfl : cutLetters 119481 29 = _) (by omega)
    119509 hkeep''
  rw [hlength'] at hcut''
  have hthird := boundStep_logFrame hsize' (by omega)
  have hthree : cutText 120000 (cutLetters 119481 29) 119509 = cutLetters 119481 21 := hcut''
  rw [hthree] at hthird
  rintro ⟨fuel, result, hrun, -⟩
  rcases fuel with _ | _ | _ | fuel
  · cases hrun
  · rw [boundLoop, hfirst] at hrun
    cases hrun
  · rw [boundLoop, hfirst] at hrun
    dsimp only at hrun
    rw [boundLoop, hsecond] at hrun
    cases hrun
  · rw [boundLoop, hfirst] at hrun
    dsimp only at hrun
    rw [boundLoop, hsecond] at hrun
    dsimp only at hrun
    rw [boundLoop, hthird] at hrun
    dsimp only at hrun
    rw [boundLoop_cut_again] at hrun
    cases hrun

end TwoTexts

end Glass
end Stemcell
