import Stemcell.Interface.Dumps

/-!
# Shrinking a diagnostics frame

A rollup frame that is over its budget loses its events, its spans and its bottlenecks, in this
order, until it fits.  A record of the cuts then goes into its meta.

Main results:

- Definition `shrinkFrame`: the cuts and the record.
- Theorem `shrink_law`: the result fits whenever some choice of the cuts fits with its record,
  exactly if the cut at which the loop stops leaves the room that the record takes.
- Theorem `cut_too_early`: a frame that fits after its first cut and no longer with the record.

Current gaps:

- What `dict` makes of a meta that is no dictionary is a parameter.
-/

namespace Stemcell
namespace Diagnostics

open Interface (Json Frame dumpsSize frameSize)
open Lib (Dict)

/-! ## The cuts -/

/-- The parts of a frame that may go, heaviest first. -/
def cutKeys : List String :=
  ["events", "spans", "bottlenecks"]

/-- A frame with the counts of what was dropped from it. -/
structure Cut where
  frame : Frame
  droppedCounts : List (String × Json)

/-- `shrunk.get(key)`. -/
def fieldOf (frame : Frame) (key : String) : Json :=
  (frame.get? key).getD .null

def countOf : Json → ℤ
  | .arr items => items.length
  | _ => 0

/-- Empty one part. -/
def Cut.drop (cut : Cut) (key : String) : Cut where
  frame := cut.frame.set key (.arr [])
  droppedCounts := cut.droppedCounts ++ [(key, .int (countOf (fieldOf cut.frame key)))]

/-- The loop over the parts: empty ones are left, and it stops once the frame fits. -/
def cutLoop (budget : ℕ) : List String → Cut → Cut
  | [], cut => cut
  | key :: rest, cut =>
      if !(fieldOf cut.frame key).truthy then cutLoop budget rest cut
      else if frameSize (cut.drop key).frame ≤ budget then cut.drop key
      else cutLoop budget rest (cut.drop key)

section Source

variable (pairs : Json → Option Frame)

/-- `dict(value)`; `pairs` is what it makes of a value that is no dictionary, if it does not
raise. -/
def dictOf : Json → Option Frame
  | .obj fields => some (fields.foldl (fun dict field => dict.set field.1 field.2) Dict.empty)
  | value => pairs value

/-- The record of the cuts. -/
def truncationRecord (original budget : ℕ) (droppedCounts : List (String × Json)) : Json :=
  .obj [("original_bytes", .int original), ("budget_bytes", .int budget),
    ("dropped", .obj droppedCounts)]

/-- The meta of a frame with the record in it. -/
def markedMeta (original budget : ℕ) (cut : Cut) : Option Json :=
  (dictOf pairs ((fieldOf cut.frame "meta").orElse (.obj []))).map fun fields =>
    .obj (fields.set "diagnostics_frame_truncated"
      (truncationRecord original budget cut.droppedCounts)).entries

/-- The frame with the record in its meta. -/
def withRecord (original budget : ℕ) (cut : Cut) : Option Frame :=
  (markedMeta pairs original budget cut).map fun marked => cut.frame.set "meta" marked

/-- The frame to send, and how many bytes were dropped. -/
def shrinkFrame (frame : Frame) (budget : ℕ) : Option (Frame × ℤ) :=
  let original := frameSize frame
  if original ≤ budget then some (frame, 0)
  else
    (withRecord pairs original budget (cutLoop budget cutKeys ⟨frame, []⟩)).map fun shrunk =>
      (shrunk, (original : ℤ) - frameSize shrunk)

end Source

/-! ## Choices of cuts -/

/-- Empty the parts of a list that are not empty. -/
def cutAll : List String → Cut → Cut
  | [], cut => cut
  | key :: rest, cut =>
      if !(fieldOf cut.frame key).truthy then cutAll rest cut else cutAll rest (cut.drop key)

section Law

variable (pairs : Json → Option Frame) (frame : Frame) (budget : ℕ)

/-- The frame with some of the parts emptied and the record of this in its meta is in the
budget. -/
def ChoiceFits (keys : List String) : Prop :=
  ∃ shrunk, withRecord pairs (frameSize frame) budget (cutAll keys ⟨frame, []⟩) = some shrunk ∧
    frameSize shrunk ≤ budget

/-- If any choice of the cuts makes the frame fit, then the result fits. -/
def ShrinkLaw : Prop :=
  (∃ keys, keys.Sublist cutKeys ∧ ChoiceFits pairs frame budget keys) →
    ∃ shrunk dropped, shrinkFrame pairs frame budget = some (shrunk, dropped) ∧
      frameSize shrunk ≤ budget

/-- The frame with the first parts emptied. -/
def cutFirst (n : ℕ) : Cut :=
  cutAll (cutKeys.take n) ⟨frame, []⟩

/-- The number of parts after which the frame fits for the first time, or all of them. -/
def StopsAt (n : ℕ) : Prop :=
  n ≤ 3 ∧ (∀ m, m < n → budget < frameSize (cutFirst frame m).frame) ∧
    (frameSize (cutFirst frame n).frame ≤ budget ∨ n = 3)

/-- The cut frame has the room that the new meta takes more than the old one. -/
def HasRoom (cut : Cut) : Prop :=
  ∃ marked, markedMeta pairs (frameSize frame) budget cut = some marked ∧
    match cut.frame.get? "meta" with
    | some old => frameSize cut.frame + dumpsSize marked ≤ budget + dumpsSize old
    | none => frameSize (cut.frame.set "meta" marked) ≤ budget

/-- The frame fits as it is, or no choice of the cuts makes it fit, or the cut at which the loop
stops leaves room for the record. -/
def RoomForRecord : Prop :=
  frameSize frame ≤ budget ∨
    (∀ keys, keys.Sublist cutKeys → ¬ ChoiceFits pairs frame budget keys) ∨
    ∃ n, StopsAt frame budget n ∧ HasRoom pairs frame budget (cutFirst frame n)

end Law

/-! ## Where the loop stops -/

section Stop

variable {frame : Frame} {budget : ℕ}

theorem cutAll_append (keys more : List String) (cut : Cut) :
    cutAll (keys ++ more) cut = cutAll more (cutAll keys cut) := by
  induction keys generalizing cut with
  | nil => rfl
  | cons key rest ih =>
      rw [List.cons_append, cutAll, cutAll]
      split_ifs
      · exact ih cut
      · exact ih (cut.drop key)

/-- From a frame that does not fit, the loop stops at the first cut that fits, or after all. -/
theorem cutLoop_stops {cut : Cut} (keys : List String) (hover : budget < frameSize cut.frame) :
    ∃ n, n ≤ keys.length ∧ cutLoop budget keys cut = cutAll (keys.take n) cut ∧
      (∀ m, m < n → budget < frameSize (cutAll (keys.take m) cut).frame) ∧
      (frameSize (cutAll (keys.take n) cut).frame ≤ budget ∨ n = keys.length) := by
  induction keys generalizing cut with
  | nil =>
      refine ⟨0, Nat.le_refl 0, rfl, ?_, .inr rfl⟩
      intro m hm
      exact absurd hm (Nat.not_lt_zero m)
  | cons key rest ih =>
      by_cases hempty : (!(fieldOf cut.frame key).truthy) = true
      · rcases ih hover with ⟨n, hn, hloop, hbefore, hstop⟩
        refine ⟨n + 1, Nat.succ_le_succ hn, ?_, ?_, ?_⟩
        · rw [cutLoop, if_pos hempty, List.take_succ_cons, cutAll, if_pos hempty, hloop]
        · intro m hm
          cases m with
          | zero => exact hover
          | succ m =>
              rw [List.take_succ_cons, cutAll, if_pos hempty]
              exact hbefore m (Nat.lt_of_succ_lt_succ hm)
        · rw [List.take_succ_cons, cutAll, if_pos hempty, List.length_cons, Nat.succ_inj]
          exact hstop
      · by_cases hfits : frameSize (cut.drop key).frame ≤ budget
        · refine ⟨1, Nat.succ_le_succ (Nat.zero_le _), ?_, ?_, .inl ?_⟩
          · rw [cutLoop, if_neg hempty, if_pos hfits, List.take_succ_cons, cutAll, if_neg hempty]
            rfl
          · intro m hm
            rw [Nat.lt_one_iff.mp hm]
            exact hover
          · rw [List.take_succ_cons, cutAll, if_neg hempty]
            exact hfits
        · rcases ih (Nat.lt_of_not_le hfits) with ⟨n, hn, hloop, hbefore, hstop⟩
          refine ⟨n + 1, Nat.succ_le_succ hn, ?_, ?_, ?_⟩
          · rw [cutLoop, if_neg hempty, if_neg hfits, List.take_succ_cons, cutAll, if_neg hempty,
              hloop]
          · intro m hm
            cases m with
            | zero => exact hover
            | succ m =>
                rw [List.take_succ_cons, cutAll, if_neg hempty]
                exact hbefore m (Nat.lt_of_succ_lt_succ hm)
          · rw [List.take_succ_cons, cutAll, if_neg hempty, List.length_cons, Nat.succ_inj]
            exact hstop

theorem stopsAt_unique {n m : ℕ} (hn : StopsAt frame budget n) (hm : StopsAt frame budget m) :
    n = m := by
  rcases hn with ⟨hn3, hnbefore, hnstop⟩
  rcases hm with ⟨hm3, hmbefore, hmstop⟩
  by_contra hne
  rcases Nat.lt_or_gt_of_ne hne with hlt | hgt
  · have hover := hmbefore n hlt
    omega
  · have hover := hnbefore m hgt
    omega

/-- Where the loop stops on a frame that does not fit. -/
theorem cutLoop_eq (hover : budget < frameSize frame) :
    ∃ n, StopsAt frame budget n ∧ cutLoop budget cutKeys ⟨frame, []⟩ = cutFirst frame n := by
  rcases @cutLoop_stops budget ⟨frame, []⟩ cutKeys hover with ⟨n, hn, hloop, hbefore, hstop⟩
  exact ⟨n, ⟨hn, hbefore, hstop⟩, hloop⟩

variable {pairs : Json → Option Frame}

/-- The record fits exactly if the cut frame has room for it. -/
theorem hasRoom_iff (cut : Cut) :
    HasRoom pairs frame budget cut ↔
      ∃ shrunk, withRecord pairs (frameSize frame) budget cut = some shrunk ∧
        frameSize shrunk ≤ budget := by
  unfold HasRoom withRecord
  cases hmarked : markedMeta pairs (frameSize frame) budget cut with
  | none => simp
  | some marked =>
      simp only [Option.some.injEq, exists_eq_left', Option.map_some]
      cases hmeta : cut.frame.get? "meta" with
      | none => rfl
      | some old =>
          have hsize := Interface.frameSize_set marked hmeta
          dsimp only
          omega

/-- The result fits exactly if the cut at which the loop stops leaves room for the record. -/
theorem result_fits_iff {n : ℕ} (hover : budget < frameSize frame)
    (hstops : StopsAt frame budget n) :
    (∃ shrunk dropped, shrinkFrame pairs frame budget = some (shrunk, dropped) ∧
        frameSize shrunk ≤ budget) ↔ HasRoom pairs frame budget (cutFirst frame n) := by
  rcases cutLoop_eq hover with ⟨m, hm, hloop⟩
  rw [stopsAt_unique hm hstops] at hloop
  rw [hasRoom_iff]
  unfold shrinkFrame
  dsimp only
  rw [if_neg (Nat.not_le.mpr hover), hloop]
  constructor
  · rintro ⟨shrunk, dropped, hshrink, hsize⟩
    rcases Option.map_eq_some_iff.mp hshrink with ⟨shrunk', hrecord, heq⟩
    rw [Prod.mk.injEq] at heq
    rw [← heq.1] at hsize
    exact ⟨shrunk', hrecord, hsize⟩
  · rintro ⟨shrunk, hrecord, hsize⟩
    exact ⟨shrunk, _, by rw [hrecord, Option.map_some], hsize⟩

/-- The result fits whenever some choice of the cuts fits with its record if and only if the frame
fits as it is, or no choice does, or the cut at which the loop stops leaves room for the record. -/
theorem shrink_law (pairs : Json → Option Frame) (frame : Frame) (budget : ℕ) :
    ShrinkLaw pairs frame budget ↔ RoomForRecord pairs frame budget := by
  by_cases hfits : frameSize frame ≤ budget
  · constructor
    · intro _
      exact .inl hfits
    · intro _ _
      refine ⟨frame, 0, ?_, hfits⟩
      unfold shrinkFrame
      rw [if_pos hfits]
  · rcases cutLoop_eq (Nat.lt_of_not_le hfits) with ⟨n, hstops, -⟩
    have hresult := @result_fits_iff frame budget pairs n (Nat.lt_of_not_le hfits) hstops
    constructor
    · intro hlaw
      by_cases hchoice : ∃ keys, keys.Sublist cutKeys ∧ ChoiceFits pairs frame budget keys
      · exact .inr (.inr ⟨n, hstops, hresult.mp (hlaw hchoice)⟩)
      · refine .inr (.inl ?_)
        intro keys hkeys hfit
        exact hchoice ⟨keys, hkeys, hfit⟩
    · rintro (hfit | hnone | ⟨m, hm, hroom⟩)
      · exact absurd hfit hfits
      · rintro ⟨keys, hkeys, hfit⟩
        exact absurd hfit (hnone keys hkeys)
      · intro _
        rw [stopsAt_unique hm hstops] at hroom
        exact hresult.mpr hroom

end Stop

/-! ## A cut too early -/

section Early

/-- A frame as a drain builds it, with one event and its spans still to come. -/
def rollupFrame : Frame where
  entries := [("type", .str "diag.rollup"), ("run_id", .str "r-1"), ("parent_run_id", .null),
    ("trigger", .str "message"), ("carbon_id", .str "ada"), ("room_id", .str ""),
    ("message_ids", .arr []), ("response_event_ids", .arr []), ("meta", .obj []),
    ("t_start_ms", .int 0), ("t_end_ms", .int 9), ("duration_ms", .int 9), ("rounds", .int 1),
    ("tokens", .obj [("input", .int 1), ("output", .int 1), ("cache_read", .int 0),
      ("cache_creation", .int 0), ("total", .int 2)]),
    ("cost_usd", .float "0.0" true), ("provider_calls", .int 1), ("workers_spawned", .int 0),
    ("bottlenecks", .arr []), ("spans", .arr []), ("events", .arr [.str "message.egress"]),
    ("status", .str "ok"), ("schema", .str "silicon.diag"), ("version", .int 2)]
  nodup := by decide

/-- Spans with a text of some length in them. -/
def longSpans (n : ℕ) : Json :=
  .arr [.str (String.ofList (List.replicate n 'a'))]

theorem dumpsSize_longSpans (n : ℕ) : dumpsSize (longSpans n) = n + 4 := by
  have hletter : Interface.escapeChar 'a' = ['a'] := by decide
  have htext := Interface.length_escapeText_replicate n 'a' hletter
  unfold dumpsSize longSpans
  rw [Interface.dumps, Interface.dumps, Interface.dumpsText, String.toList_ofList]
  simp [Interface.dumpsItems, htext]

/-- The meta of that frame after some cuts. -/
def marked (droppedCounts : List (String × Json)) : Json :=
  .obj [("diagnostics_frame_truncated", truncationRecord 120013 120000 droppedCounts)]

/-- A frame one event too long for its budget: without the event it fits, the record then takes it
over the budget, and the row is given up although it would fit without its spans. -/
theorem cut_too_early :
    ¬ ShrinkLaw (fun _ => none) (rollupFrame.set "spans" (longSpans 119560)) 120000 := by
  have hspans := dumpsSize_longSpans 119560
  have hbase : frameSize rollupFrame = 451 := by decide +kernel
  have hempty : dumpsSize (.arr []) = 2 := rfl
  have hevent : dumpsSize (.arr [.str "message.egress"]) = 18 := by decide +kernel
  -- the sizes of the frame and of its first cuts
  have hframe := Interface.frameSize_set (longSpans 119560)
    (show rollupFrame.get? "spans" = some (.arr []) by rfl)
  have hfirst := Interface.frameSize_set (.arr [])
    (show (rollupFrame.set "spans" (longSpans 119560)).get? "events" =
      some (.arr [.str "message.egress"]) by rfl)
  have hsecond := Interface.frameSize_set (.arr [])
    (show ((rollupFrame.set "spans" (longSpans 119560)).set "events" (.arr [])).get? "spans" =
      some (longSpans 119560) by rfl)
  have hsize : frameSize (rollupFrame.set "spans" (longSpans 119560)) = 120013 := by omega
  have hstops : StopsAt (rollupFrame.set "spans" (longSpans 119560)) 120000 1 := by
    refine ⟨by decide, ?_, .inl ?_⟩
    · intro m hm
      rw [Nat.lt_one_iff.mp hm]
      change 120000 < frameSize (rollupFrame.set "spans" (longSpans 119560))
      omega
    · change frameSize ((rollupFrame.set "spans" (longSpans 119560)).set "events" (.arr [])) ≤ 120000
      omega
  intro hlaw
  have hresult : HasRoom (fun _ => none) (rollupFrame.set "spans" (longSpans 119560)) 120000
      (cutFirst (rollupFrame.set "spans" (longSpans 119560)) 1) := by
    apply (result_fits_iff (by omega) hstops).mp
    apply hlaw
    have hmarked : dumpsSize (marked [("events", .int 1), ("spans", .int 1)]) = 112 := by
      decide +kernel
    have hlast := Interface.frameSize_set (marked [("events", .int 1), ("spans", .int 1)])
      (show (((rollupFrame.set "spans" (longSpans 119560)).set "events" (.arr [])).set "spans"
        (.arr [])).get? "meta" = some (.obj []) by rfl)
    have hold : dumpsSize (.obj []) = 2 := rfl
    refine ⟨cutKeys, List.Sublist.refl _,
      (((rollupFrame.set "spans" (longSpans 119560)).set "events" (.arr [])).set "spans"
        (.arr [])).set "meta" (marked [("events", .int 1), ("spans", .int 1)]), ?_, ?_⟩
    · rw [hsize]
      rfl
    · omega
  have hmarked : dumpsSize (marked [("events", .int 1)]) = 102 := by decide +kernel
  rcases hresult with ⟨value, hmeta, hroom⟩
  rw [hsize] at hmeta
  have hvalue : value = marked [("events", .int 1)] := by
    cases hmeta
    rfl
  rw [hvalue] at hroom
  have hcut : (cutFirst (rollupFrame.set "spans" (longSpans 119560)) 1).frame =
      (rollupFrame.set "spans" (longSpans 119560)).set "events" (.arr []) := rfl
  have hget : ((rollupFrame.set "spans" (longSpans 119560)).set "events" (.arr [])).get? "meta" =
      some (.obj []) := rfl
  have hold : dumpsSize (.obj []) = 2 := rfl
  rw [hcut] at hroom
  simp only [hget] at hroom
  omega

end Early

end Diagnostics
end Stemcell
