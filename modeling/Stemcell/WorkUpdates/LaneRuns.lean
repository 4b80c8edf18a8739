import Mathlib.Data.List.Perm.Basic
import Stemcell.Lib.Values
import Stemcell.WorkUpdates.Lanes

/-!
# What becomes of a journaled change

Over a whole run of the journal no entry is lost and none is settled twice, and the claims of one
lane follow the order in which its entries were inserted.

Main results:

- Inductive `Move`: the ways in which one step changes the journal and what is written about it.
- Theorem `moves_of_next`: a step is a sequence of moves.
- Theorem `conservation_law`: an entry waits in the journal, or it has left it once.
- Theorem `lane_order_law`: the claims of a lane never go back.

Current gaps:

- None beyond those of the lanes.
-/

namespace Stemcell
namespace WorkUpdates

open Lib
open Maintenance (Seconds)

/-! ## Moves -/

/-- The numbers of the entries that wait. -/
def Journal.numbers (journal : Journal) : List ℕ :=
  journal.entries.values.map fun entry => entry.sequence

/-- The journal with its counter, and what the run has written down. -/
structure Ledger where
  journal : Journal
  sequence : ℕ
  log : List CallRetry
  settled : List (ℕ × Departure)

def LaneWorld.ledger (w : LaneWorld) : Ledger where
  journal := w.calls.journal
  sequence := w.calls.sequence
  log := w.log
  settled := w.settled

section Moves

variable (sha256 : String → List Char)

/-- One change of the journal: entries leave it, an entry gets another state, or a new one comes. -/
inductive Move : Ledger → Ledger → Prop
  | settles {journal journal' : Journal} {sequence : ℕ} {log : List CallRetry}
      {settled : List (ℕ × Departure)} (more : List (ℕ × Departure))
      (hold : ∀ id entry, journal'.entries.get? id = some entry →
        journal.entries.get? id = some entry)
      (hnumbers : journal.numbers.Perm (journal'.numbers ++ more.map Prod.fst)) :
      Move ⟨journal, sequence, log, settled⟩ ⟨journal', sequence, log, settled ++ more⟩
  | renews {journal : Journal} {sequence : ℕ} {log : List CallRetry}
      {settled : List (ℕ × Departure)} {id : String} {before after : CallRetry}
      (hget : journal.entries.get? id = some before) (hrenews : after.Renews sha256 before)
      (hblocks : after.blocks = true → before.blocks = true) :
      Move ⟨journal, sequence, log, settled⟩ ⟨journal.put after, sequence, log, settled⟩
  | inserts {journal : Journal} {sequence : ℕ} {log : List CallRetry}
      {settled : List (ℕ × Departure)} {source : NewRetry}
      (hnew : journal.entries.get? source.retryId = none) (hnamed : source.retryId ≠ "") :
      Move ⟨journal, sequence, log, settled⟩
        ⟨journal.put (source.entry (sequence + 1)), sequence + 1,
          log ++ [source.entry (sequence + 1)], settled⟩

/-- Any number of moves. -/
def Moves : Ledger → Ledger → Prop :=
  Relation.ReflTransGen (Move sha256)

variable {sha256} {journal journal' : Journal} {sequence : ℕ} {log : List CallRetry}
  {settled : List (ℕ × Departure)} {s : CallState} {ledger ledger' : Ledger}

theorem Moves.keeps {P : Ledger → Prop} (hmoves : Moves sha256 ledger ledger') (h : P ledger)
    (hkeeps : ∀ a b, P a → Move sha256 a b → P b) : P ledger' := by
  induction hmoves with
  | refl => exact h
  | tail _ hmove ih => exact hkeeps _ _ ih hmove

/-- Nothing leaves the journal. -/
theorem moves_settled_nil (journal : Journal) (sequence : ℕ) (log : List CallRetry)
    (settled : List (ℕ × Departure)) :
    Moves sha256 ⟨journal, sequence, log, settled⟩ ⟨journal, sequence, log, settled ++ []⟩ := by
  rw [List.append_nil]
  exact .refl

/-- Reading the state archives what has expired. -/
theorem moves_prune (sha256 : String → List Char) (now : Seconds) (s : CallState) (log : List CallRetry)
    (settled : List (ℕ × Departure)) :
    Moves sha256 ⟨s.journal, s.sequence, log, settled⟩
      ⟨(s.prune sha256 now).journal, (s.prune sha256 now).sequence, log,
        settled ++ expired now s⟩ := by
  apply Relation.ReflTransGen.single
  apply Move.settles
  · intro id entry hget
    exact ((Dict.get?_filter_eq_some_iff _ _ _ _).mp hget).1
  · change (s.journal.entries.values.map _).Perm
      (((s.journal.entries.filter fun _ entry => !entry.isExpired now).values.map _) ++ _)
    rw [Dict.values_filter, expired, List.map_map]
    have hparts := List.filter_append_perm (fun entry => !CallRetry.isExpired now entry)
      s.journal.entries.values
    simp only [Bool.not_not] at hparts
    have hnumbers := hparts.symm.map fun entry => entry.sequence
    rwa [List.map_append] at hnumbers

/-- Making room archives the victims. -/
theorem moves_makeRoom (clock : ℕ → Seconds) (fresh round : ℕ) (s : CallState)
    (log : List CallRetry) (settled : List (ℕ × Departure)) :
    Moves sha256 ⟨s.journal, s.sequence, log, settled⟩
      ⟨(makeRoom sha256 clock fresh round s).2.journal,
        (makeRoom sha256 clock fresh round s).2.sequence, log,
        settled ++ (victims clock fresh round s.journal).map fun victim =>
          (victim.sequence, .archived)⟩ := by
  induction hsize : s.journal.size using Nat.strongRecOn generalizing s round settled with
  | ind size ih =>
      by_cases hroom : s.journal.size + fresh ≤ callRetryMaxEntries
      · rw [makeRoom_of_room hroom, victims_of_room hroom]
        exact moves_settled_nil _ _ _ _
      cases hvictim : callRetryCapacityVictim s.journal (clock round) with
      | none =>
          rw [makeRoom_of_none hroom hvictim, victims_of_none hroom hvictim]
          exact moves_settled_nil _ _ _ _
      | some victim =>
          rw [makeRoom_of_victim hroom hvictim, victims_of_victim hroom hvictim]
          have hless : (s.journal.pop victim.retryId).size < size := by
            rw [← hsize, ← size_pop_of_victim hvictim]
            exact Nat.lt_succ_self _
          rw [List.map_cons, List.append_cons]
          refine .head ?_ (ih _ hless (round + 1) (s.evict sha256 (clock round) victim) _ rfl)
          apply Move.settles
          · intro id entry hget
            exact ((Dict.get?_pop_eq_some_iff _ _ _ _).mp hget).2
          · rw [List.map_singleton]
            have hpop := (Dict.values_pop (get?_of_victim hvictim)).map
              fun entry => entry.sequence
            exact hpop.trans (List.perm_append_singleton _ _).symm

/-- A batch goes to the ends of its lanes. -/
theorem moves_insertEach {batch : List NewRetry} (inserted : List String)
    (hids : ∀ source ∈ batch, source.retryId ≠ "") :
    Moves sha256 ⟨journal, sequence, log, settled⟩
      ⟨(insertEach journal sequence inserted batch).journal,
        (insertEach journal sequence inserted batch).sequence,
        log ++ insertedEntries journal sequence batch, settled⟩ := by
  induction batch generalizing journal sequence log inserted with
  | nil =>
      rw [insertedEntries, List.append_nil]
      exact .refl
  | cons source rest ih =>
      rw [List.forall_mem_cons] at hids
      unfold insertEach insertedEntries
      rw [if_neg hids.1, if_neg hids.1]
      by_cases hknown : journal.entries.contains source.retryId = true
      · rw [if_pos hknown, if_pos hknown]
        exact ih _ hids.2
      · rw [if_neg hknown, if_neg hknown, List.append_cons log]
        refine .head (Move.inserts ?_ hids.1) (ih _ hids.2)
        rw [Option.eq_none_iff_forall_ne_some]
        intro entry hget
        exact hknown ((Dict.contains_iff _ _).mpr ⟨entry, hget⟩)

end Moves

/-! ## A step -/

section Steps

variable {sha256 : String → List Char} {w w' : LaneWorld} {event : LaneEvent}

theorem moves_insert (clock : ℕ → Seconds) (readAt stamp : Seconds)
    (batch : List NewRetry) (hids : ∀ source ∈ batch, source.retryId ≠ "")
    (request : DedupeRequest) :
    Moves sha256 w.ledger (w.insert sha256 clock readAt stamp batch request).ledger := by
  have hread := moves_prune sha256 readAt w.calls w.log w.settled
  unfold LaneWorld.insert insertCallRetryEntries insertCallRetryEntriesInState
  dsimp only
  cases if request.key = "" then none
    else (w.calls.prune sha256 readAt).dedupe.get? request.key with
  | some receipt => exact hread
  | none =>
      have hroom := hread.trans (moves_makeRoom clock
        (newCount (w.calls.prune sha256 readAt).journal batch) 0 (w.calls.prune sha256 readAt)
        w.log (w.settled ++ expired readAt w.calls))
      generalize makeRoom sha256 clock (newCount (w.calls.prune sha256 readAt).journal batch) 0
        (w.calls.prune sha256 readAt) = room at hroom ⊢
      by_cases hfits : room.1 = true
      · have hcomplete : (insertEach room.2.journal room.2.sequence [] batch).complete = true :=
          complete_of_nonempty hids
        rw [hfits, hcomplete]
        exact hroom.trans (moves_insertEach [] hids)
      · rw [Bool.not_eq_true] at hfits
        rw [hfits]
        exact hroom

theorem moves_claim (readAt now : Seconds) (owner token id : String) (w : LaneWorld) :
    Moves sha256 w.ledger (w.claim sha256 readAt now owner token id).ledger := by
  have hread := moves_prune sha256 readAt w.calls w.log w.settled
  unfold LaneWorld.claim
  rcases claim_cases sha256 readAt now owner token id w.calls with
    hnone | ⟨entry, hget, hpending, -, hclaim⟩
  · rw [hnone]
    exact hread
  · rw [hclaim]
    apply hread.tail
    apply Move.renews hget (entry.claimed_renews now owner token)
    intro _
    rw [CallRetry.blocks, hpending, Bool.true_or]

theorem moves_fail (now readAt : Seconds) (failure : DeliveryFailure) {id token : String}
    (htoken : token ≠ "") (w : LaneWorld) :
    Moves sha256 w.ledger
      ⟨(recordCallRetryFailure sha256 now readAt failure id token w.calls).journal,
        (recordCallRetryFailure sha256 now readAt failure id token w.calls).sequence, w.log,
        w.settled ++ reported sha256 readAt id token w.calls fun _ => []⟩ := by
  have hread := moves_prune sha256 readAt w.calls w.log w.settled
  unfold recordCallRetryFailure reported
  dsimp only
  cases hget : (w.calls.prune sha256 readAt).journal.entries.get? id with
  | none => exact moves_settled_nil _ _ _ _
  | some current =>
      dsimp only
      by_cases hcurrent : current.leaseToken = token
      · rw [if_pos hcurrent, if_pos hcurrent, List.append_nil]
        apply hread.tail
        apply Move.renews hget (current.failed_renews now failure)
        intro _
        rw [CallRetry.blocks, (CallRetry.leased_of_token hcurrent htoken).2, Bool.true_or]
      · rw [if_neg hcurrent, if_neg hcurrent]
        exact moves_settled_nil _ _ _ _

theorem moves_complete (readAt : Seconds) (id token : String) (w : LaneWorld) :
    Moves sha256 w.ledger
      ⟨(completeCallRetry sha256 readAt id token w.calls).journal,
        (completeCallRetry sha256 readAt id token w.calls).sequence, w.log,
        w.settled ++ reported sha256 readAt id token w.calls fun current =>
          [(current.sequence, .completed)]⟩ := by
  have hread := moves_prune sha256 readAt w.calls w.log w.settled
  unfold completeCallRetry reported
  dsimp only
  cases hget : (w.calls.prune sha256 readAt).journal.entries.get? id with
  | none => exact moves_settled_nil _ _ _ _
  | some current =>
      dsimp only
      by_cases hcurrent : current.leaseToken = token
      · rw [if_pos hcurrent, if_pos hcurrent, ← List.append_assoc]
        apply hread.tail
        apply Move.settles
        · intro other entry hother
          exact ((Dict.get?_pop_eq_some_iff _ _ _ _).mp hother).2
        · rw [List.map_singleton]
          have hpop := (Dict.values_pop hget).map fun entry => entry.sequence
          exact hpop.trans (List.perm_append_singleton _ _).symm
      · rw [if_neg hcurrent, if_neg hcurrent]
        exact moves_settled_nil _ _ _ _

/-- A step is a sequence of moves. -/
theorem moves_of_next (h : WorldInv sha256 w) (hnext : w.next sha256 event = some w') :
    Moves sha256 w.ledger w'.ledger := by
  cases event with
  | insert clock readAt stamp batch request =>
      cases hnext
      apply moves_insert
      intro source hsource
      rcases List.mem_map.mp hsource with ⟨change, -, rfl⟩
      exact change.1.retryId_ne_empty change.2
  | claim readAt now owner token id =>
      by_cases htoken : token = ""
      · rw [LaneWorld.next, if_pos htoken] at hnext
        cases hnext
      · rw [LaneWorld.next, if_neg htoken] at hnext
        cases hnext
        exact moves_claim readAt now owner token id w
  | fail now readAt failure id token =>
      by_cases hheld : (id, token) ∈ w.holders
      · rw [LaneWorld.next, if_pos hheld] at hnext
        cases hnext
        exact moves_fail now readAt failure (h.tokens _ hheld) w
      · rw [LaneWorld.next, if_neg hheld] at hnext
        cases hnext
  | complete readAt id token =>
      by_cases hheld : (id, token) ∈ w.holders
      · rw [LaneWorld.next, if_pos hheld] at hnext
        cases hnext
        exact moves_complete readAt id token w
      · rw [LaneWorld.next, if_neg hheld] at hnext
        cases hnext
  | prune readAt =>
      cases hnext
      exact moves_prune sha256 readAt w.calls w.log w.settled

/-- What every move keeps, a run keeps. -/
theorem ledger_of_run {P : Ledger → Prop} {events : List LaneEvent}
    (hreach : (laneSystem sha256).Reachable w)
    (hrun : (laneSystem sha256).Run w events w') (h : P w.ledger)
    (hkeeps : ∀ a b, P a → Move sha256 a b → P b) : P w'.ledger := by
  apply hrun.invariant hreach _ h
  intro a event b ha hP hstep
  exact (moves_of_next (worldInv_of_reachable ha) hstep).keeps hP hkeeps

end Steps

/-! ## The account -/

section Account

/-- Every entry that was inserted is in the journal or was settled, with each number counted once
on both sides, and the journal holds nothing else. -/
structure Balanced (sha256 : String → List Char) (ledger : Ledger) : Prop where
  numbers : (ledger.log.map fun entry => entry.sequence).Perm
    (ledger.journal.numbers ++ ledger.settled.map Prod.fst)
  inserted : ∀ id entry, ledger.journal.entries.get? id = some entry →
    ∃ older ∈ ledger.log, entry.Renews sha256 older
  named : ∀ entry ∈ ledger.log, entry.retryId ≠ ""

variable {sha256 : String → List Char} {ledger ledger' : Ledger} {w w' : LaneWorld}

theorem balanced_initial : Balanced sha256 LaneWorld.initial.ledger where
  numbers := .nil
  inserted id entry hget := by
    change (Dict.empty : Dict String CallRetry).get? id = some entry at hget
    rw [Dict.get?_empty] at hget
    cases hget
  named := List.forall_mem_nil _

/-- What one move preserves. -/
theorem Balanced.move (h : Balanced sha256 ledger) (hmove : Move sha256 ledger ledger') :
    Balanced sha256 ledger' := by
  cases hmove with
  | settles more hold hnumbers =>
      constructor
      · apply h.numbers.trans
        rw [List.map_append]
        apply (hnumbers.append_right _).trans
        rw [List.append_assoc]
        exact List.perm_append_comm.append_left _
      · intro id entry hget
        exact h.inserted id entry (hold id entry hget)
      · exact h.named
  | @renews journal _ _ _ id before after hget hrenews _ =>
      have hid : after.retryId = id := hrenews.retryId.trans (journal.keyed id before hget)
      constructor
      · have hsame : (journal.put after).numbers = journal.numbers := by
          apply Dict.map_values_set _ hrenews.sequence
          rw [hid]
          exact hget
        rw [hsame]
        exact h.numbers
      · intro other entry hentry
        rw [get?_put] at hentry
        split at hentry
        · rw [← Option.some.inj hentry]
          rcases h.inserted id before hget with ⟨older, holder, hold⟩
          exact ⟨older, holder, hrenews.trans hold⟩
        · exact h.inserted other entry hentry
      · exact h.named
  | @inserts journal sequence log settled source hnew hnamed =>
      constructor
      · have hlast : (journal.put (source.entry (sequence + 1))).numbers =
            journal.numbers ++ [sequence + 1] := by
          have hvalues := Dict.values_set_of_fresh (v := source.entry (sequence + 1)) hnew
          exact (congrArg (List.map _) hvalues).trans List.map_append
        rw [hlast, List.map_append, List.append_assoc]
        apply (h.numbers.append_right _).trans
        rw [List.append_assoc]
        exact List.perm_append_comm.append_left _
      · intro id entry hentry
        rw [get?_put] at hentry
        split at hentry
        · rw [← Option.some.inj hentry]
          exact ⟨_, List.mem_append_right _ (List.mem_singleton_self _), .refl⟩
        · rcases h.inserted id entry hentry with ⟨older, holder, hold⟩
          exact ⟨older, List.mem_append_left _ holder, hold⟩
      · intro entry hentry
        rcases List.mem_append.mp hentry with hold | hlast
        · exact h.named entry hold
        · rw [List.mem_singleton.mp hlast]
          exact hnamed

theorem balanced_of_reachable (h : (laneSystem sha256).Reachable w) :
    Balanced sha256 w.ledger := by
  rcases h.exists_run with ⟨start, events, rfl, hrun⟩
  exact ledger_of_run (.init rfl) hrun balanced_initial fun _ _ hbalanced => hbalanced.move

/-- No number is given twice. -/
theorem nodup_of_reachable (h : (laneSystem sha256).Reachable w) :
    (w.log.map fun entry => entry.sequence).Nodup := by
  apply List.pairwise_map.mpr
  apply (worldInv_of_reachable h).lanes.increasing.imp
  intro a b hless
  exact hless.ne

/-- What a run only adds to. -/
theorem history_of_run {events : List LaneEvent} (hreach : (laneSystem sha256).Reachable w)
    (hrun : (laneSystem sha256).Run w events w') :
    w.log <+: w'.log ∧ w.settled <+: w'.settled := by
  apply ledger_of_run (P := fun ledger => w.log <+: ledger.log ∧ w.settled <+: ledger.settled)
    hreach hrun ⟨List.prefix_rfl, List.prefix_rfl⟩
  intro a b h hmove
  cases hmove with
  | settles more _ _ => exact ⟨h.1, h.2.trans (List.prefix_append _ _)⟩
  | renews _ _ _ => exact h
  | inserts _ _ => exact ⟨h.1.trans (List.prefix_append _ _), h.2⟩

/-- The account of a state: nothing is lost, nothing is settled twice, and what was settled does not
come back. -/
structure Conserved (sha256 : String → List Char) (w : LaneWorld) : Prop where
  numbers : (w.log.map fun entry => entry.sequence).Perm
    (w.calls.journal.numbers ++ w.settled.map Prod.fst)
  once : (w.settled.map Prod.fst).Nodup
  apart : ∀ entry ∈ w.calls.journal.entries.values, entry.sequence ∉ w.settled.map Prod.fst
  inserted : ∀ id entry, w.calls.journal.entries.get? id = some entry →
    ∃ older ∈ w.log, entry.Renews sha256 older

/-- In every run, each entry that was inserted waits in the journal or has left it once and for
all. -/
theorem conservation_law {sha256 : String → List Char} {w w' : LaneWorld} {events : List LaneEvent}
    (hreach : (laneSystem sha256).Reachable w) (hrun : (laneSystem sha256).Run w events w') :
    Conserved sha256 w' ∧ w.log <+: w'.log ∧ w.settled <+: w'.settled := by
  refine ⟨?_, history_of_run hreach hrun⟩
  have hreach' := hreach.run hrun
  have hbalanced := balanced_of_reachable hreach'
  have hparts := hbalanced.numbers.nodup_iff.mp (nodup_of_reachable hreach')
  rw [List.nodup_append] at hparts
  constructor
  · exact hbalanced.numbers
  · exact hparts.2.1
  · intro entry hentry hsettled
    exact hparts.2.2 _ (List.mem_map_of_mem hentry) _ hsettled rfl
  · exact hbalanced.inserted

/-- A card that was inserted and claimed. -/
theorem conservation_law_claimed :
    oneClaim.log.length = 1 ∧
      Conserved String.toList oneClaim ∧ oneCard.log <+: oneClaim.log ∧
        oneCard.settled <+: oneClaim.settled := by
  refine ⟨by decide +kernel, ?_⟩
  have hinit : (laneSystem String.toList).Reachable .initial := .init rfl
  have hinsert : (laneSystem String.toList).step .initial
      (.insert (fun _ => 1) 1 1 [(firstCard, 1)] noRequest) oneCard := rfl
  have hclaim : (laneSystem String.toList).step oneCard
      (.claim 2 2 "process" "token" (callRetryId String.toList .outbound sampleReference))
      oneClaim := rfl
  exact conservation_law (hinit.step hinsert) (.single hclaim)

end Account

/-! ## The order of a lane -/

section Order

variable {sha256 : String → List Char} {w w' : LaneWorld} {ledger ledger' : Ledger} {lane : String}
  {n : ℕ}

/-- Nothing that holds up this lane has a smaller number, now or later. -/
structure Passed (sha256 : String → List Char) (lane : String) (n : ℕ) (ledger : Ledger) :
    Prop where
  first : FirstIn sha256 ledger.journal lane n
  counted : n ≤ ledger.sequence

/-- What one move preserves. -/
theorem Passed.move (h : Passed sha256 lane n ledger) (hmove : Move sha256 ledger ledger') :
    Passed sha256 lane n ledger' := by
  cases hmove with
  | settles more hold _ =>
      refine ⟨?_, h.counted⟩
      intro id other hother
      exact h.first id other (hold id other hother)
  | @renews journal _ _ _ id before after hget hrenews hblocks =>
      refine ⟨?_, h.counted⟩
      intro other entry hentry hlane hblocked
      rw [get?_put] at hentry
      split at hentry
      · rw [← Option.some.inj hentry] at hlane hblocked ⊢
        rw [hrenews.sequence]
        exact h.first id before hget (hrenews.laneOf.symm.trans hlane) (hblocks hblocked)
      · exact h.first other entry hentry hlane hblocked
  | @inserts journal sequence _ _ source hnew _ =>
      refine ⟨?_, h.counted.trans (Nat.le_succ _)⟩
      intro id entry hentry hlane hblocked
      rw [get?_put] at hentry
      split at hentry
      · rw [← Option.some.inj hentry]
        exact h.counted.trans (Nat.le_succ _)
      · exact h.first id entry hentry hlane hblocked

/-- A claim passes its number. -/
theorem passed_of_claim (hinv : WorldInv sha256 w) {readAt now : Seconds}
    {owner token id : String} {entry : CallRetry}
    (hclaim : (claimCallRetry sha256 readAt now owner token id w.calls).1 = some entry) :
    Passed sha256 (entry.laneOf sha256) entry.sequence
        (w.claim sha256 readAt now owner token id).ledger ∧
      ∃ found, (w.calls.prune sha256 readAt).journal.entries.get? id = some found ∧
        entry.Renews sha256 found ∧ found.blocks = true := by
  rcases claim_cases sha256 readAt now owner token id w.calls with
    hnone | ⟨found, hget, hpending, hfirst, hclaimed⟩
  · rw [hnone] at hclaim
    cases hclaim
  have hblocks : found.blocks = true := by
    rw [CallRetry.blocks, hpending, Bool.true_or]
  have hrenews : (found.claimed sha256 now owner token).Renews sha256 found :=
    found.claimed_renews now owner token
  rw [hclaimed] at hclaim
  rw [Option.some.inj hclaim] at hrenews
  refine ⟨?_, found, hget, hrenews, hblocks⟩
  rw [hrenews.laneOf, hrenews.sequence]
  have hmove : Move sha256
      ⟨(w.calls.prune sha256 readAt).journal, (w.calls.prune sha256 readAt).sequence, w.log,
        w.settled ++ expired readAt w.calls⟩
      (w.claim sha256 readAt now owner token id).ledger := by
    unfold LaneWorld.claim
    rw [hclaimed]
    exact .renews hget (found.claimed_renews now owner token) fun _ => hblocks
  exact Passed.move ⟨hfirst, (hinv.lanes.prunes readAt).bounded id found hget⟩ hmove

/-- In every run, a later claim of the same lane takes the same entry again or one that was inserted
later. -/
theorem lane_order_law {sha256 : String → List Char} {w w' : LaneWorld} {events : List LaneEvent}
    {readAt now readAt' now' : Seconds} {owner token id owner' token' id' : String}
    {entry entry' : CallRetry} (hreach : (laneSystem sha256).Reachable w) (htoken : token ≠ "")
    (hclaim : (claimCallRetry sha256 readAt now owner token id w.calls).1 = some entry)
    (hrun : (laneSystem sha256).Run (w.claim sha256 readAt now owner token id) events w')
    (hclaim' : (claimCallRetry sha256 readAt' now' owner' token' id' w'.calls).1 = some entry')
    (hlane : entry'.laneOf sha256 = entry.laneOf sha256) :
    entry.sequence ≤ entry'.sequence ∧
      (entry'.sequence = entry.sequence → entry'.retryId = entry.retryId) := by
  have hstep : (laneSystem sha256).step w (.claim readAt now owner token id)
      (w.claim sha256 readAt now owner token id) := if_neg htoken
  have hclaimed := hreach.step hstep
  have hlater := hclaimed.run hrun
  rcases passed_of_claim (worldInv_of_reachable hreach) hclaim with
    ⟨hpassed, found, hget, hfound, -⟩
  rcases passed_of_claim (worldInv_of_reachable hlater) hclaim' with
    ⟨-, found', hget', hfound', hblocks'⟩
  have hstored := ((Dict.get?_filter_eq_some_iff _ _ _ _).mp hget).1
  have hstored' := ((Dict.get?_filter_eq_some_iff _ _ _ _).mp hget').1
  constructor
  · have hstill := ledger_of_run hclaimed hrun hpassed fun _ _ h => h.move
    rw [hfound'.sequence]
    exact hstill.first id' found' hstored' (hfound'.laneOf.symm.trans hlane) hblocks'
  · intro hsame
    rcases (balanced_of_reachable hreach).inserted id found hstored with ⟨older, holder, hold⟩
    rcases (balanced_of_reachable hlater).inserted id' found' hstored' with
      ⟨older', holder', hold'⟩
    -- Both entries come from one insertion, as the numbers go up.
    have hlog : older ∈ w'.log := (history_of_run hclaimed hrun).1.subset holder
    have hnumber : older'.sequence = older.sequence := by
      rw [← hold'.sequence, ← hfound'.sequence, hsame, hfound.sequence, hold.sequence]
    have heq : older' = older :=
      List.inj_on_of_nodup_map (nodup_of_reachable hlater) holder' hlog hnumber
    rw [hfound'.retryId, hold'.retryId, heq, ← hold.retryId, ← hfound.retryId]

/-- Another process takes the card over when the lease has expired. -/
theorem lane_order_law_taken_over :
    ∃ entry entry' : CallRetry, entry.leaseToken = "token" ∧ entry'.leaseToken = "other" ∧
      entry.sequence ≤ entry'.sequence ∧
      (entry'.sequence = entry.sequence → entry'.retryId = entry.retryId) := by
  have hinit : (laneSystem String.toList).Reachable .initial := .init rfl
  have hinsert : (laneSystem String.toList).step .initial
      (.insert (fun _ => 1) 1 1 [(firstCard, 1)] noRequest) oneCard := rfl
  have hfirst : (claimCallRetry String.toList 2 2 "process" "token"
      (callRetryId String.toList .outbound sampleReference) oneCard.calls).1 =
        some (((firstCard.newEntry String.toList 1).entry 1).claimed String.toList 2 "process"
          "token") := by
    rw [oneCard_calls]
    decide +kernel
  have hsecond : (claimCallRetry String.toList 100 100 "successor" "other"
      (callRetryId String.toList .outbound sampleReference) oneClaim.calls).1 =
        some (((firstCard.newEntry String.toList 1).entry 1).claimed String.toList 100 "successor"
          "other") := by
    unfold oneClaim LaneWorld.claim
    rw [oneCard_calls]
    decide +kernel
  have horder := lane_order_law (hinit.step hinsert) (by decide) hfirst (.nil _) hsecond
    (by decide +kernel)
  exact ⟨_, _, rfl, rfl, horder⟩

end Order

end WorkUpdates
end Stemcell
