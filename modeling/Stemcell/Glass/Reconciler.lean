import Mathlib.Data.Finset.Sort
import Mathlib.Data.String.Basic
import Stemcell.Lib.Batching
import Stemcell.Lib.Lists

/-!
# Reconciliations asked for over the socket

Glass tells over the socket that the team context or the trust policy has changed.  The socket
thread only notes the request; a thread for each of the two takes all that has come in and
reconciles once.  Both reconcilers have the same code, and differ in what they call.

Main results:

- Definition `Reconciler.next`: one step of a reconciler.
- Theorem `shows_run`: a reconciler does what a worker that takes requests in batches does.
- Theorem `link_law`: in every interleaving, the reconciliations are those of the accepted requests
  in batches, forced if one of them is; a message that invalidates is followed by a reconciliation
  or by a pending one, and the thread is at most two steps away from it.

Current gaps:

- What a reconciliation does, and whether maintenance admits it, is left out: its thread goes on
  either way.
- `str.lower` is a parameter.
-/

namespace Stemcell
namespace Glass

open Lib

/-! ## Reconcilers -/

structure ReconcileRequest where
  force : Bool
  reason : String
deriving DecidableEq, Repr

/-- What `reconcile_team_context` or `reconcile_trust_policy` is called with. -/
structure Reconciliation where
  force : Bool
  reason : String
deriving DecidableEq, Repr

/-- The thread of a reconciler. -/
inductive RunnerStage
  | unstarted
  | waiting
  | working
  | returned
deriving DecidableEq, Repr

/-- `TeamContextReconciler` and `TrustPolicyReconciler`, with what they have been called with. -/
structure Reconciler where
  pending : Bool
  force : Bool
  reasons : Finset String
  stopped : Bool
  thread : RunnerStage
  handed : List Reconciliation
deriving DecidableEq

inductive ReconcileEvent
  | request (r : ReconcileRequest)
  | stop
  /-- The thread looks for requests. -/
  | look
  /-- A reconciliation returns or raises, or maintenance does not admit it. -/
  | finish
deriving DecidableEq, Repr

/-- `text[:limit]`. -/
def textBefore (limit : ℕ) (text : String) : String :=
  String.ofList (text.toList.take limit)

def addReason (reasons : Finset String) (r : ReconcileRequest) : Finset String :=
  if r.reason ≠ "" ∧ reasons.card < 8 then insert (textBefore 120 r.reason) reasons else reasons

/-- `",".join(sorted(reasons))[:240]`. -/
def joinedReasons (reasons : Finset String) : String :=
  textBefore 240 (",".intercalate (reasons.sort (· ≤ ·)))

namespace Reconciler

def new : Reconciler where
  pending := false
  force := false
  reasons := ∅
  stopped := false
  thread := .unstarted
  handed := []

def request (s : Reconciler) (r : ReconcileRequest) : Reconciler :=
  if s.stopped then s
  else
    { s with
      pending := true
      force := s.force || r.force
      reasons := addReason s.reasons r
      thread := if s.thread = .unstarted then .waiting else s.thread }

def next (s : Reconciler) : ReconcileEvent → Option Reconciler
  | .request r => some (s.request r)
  | .stop => some { s with stopped := true }
  | .look =>
      if s.thread ≠ .waiting then none
      else if s.stopped then some { s with thread := .returned }
      else if s.pending then
        some { s with
          pending := false
          force := false
          reasons := ∅
          thread := .working
          handed := s.handed ++ [{ force := s.force, reason := joinedReasons s.reasons }] }
      else none
  | .finish => if s.thread = .working then some { s with thread := .waiting } else none

end Reconciler

/-- A reconciler, from its start on. -/
def reconciler : TransitionSystem Reconciler ReconcileEvent where
  init s := s = .new
  step s e s' := s.next e = some s'

/-- The requests that are not made after a stop. -/
def acceptedRequests : Bool → List ReconcileEvent → List ReconcileRequest
  | _, [] => []
  | stopped, .request r :: es =>
      if stopped then acceptedRequests stopped es else r :: acceptedRequests stopped es
  | _, .stop :: es => acceptedRequests true es
  | stopped, .look :: es | stopped, .finish :: es => acceptedRequests stopped es

/-! ## Reconciliations as batches of requests -/

def reasonsOf (requests : List ReconcileRequest) : Finset String :=
  requests.foldl addReason ∅

/-- One reconciliation for a batch of requests. -/
def reconciliationOf (batch : List ReconcileRequest) : Reconciliation where
  force := batch.any ReconcileRequest.force
  reason := joinedReasons (reasonsOf batch)

theorem reasonsOf_append (batch : List ReconcileRequest) (r : ReconcileRequest) :
    reasonsOf (batch ++ [r]) = addReason (reasonsOf batch) r := by
  simp [reasonsOf]

/-- The reasons of a batch: eight at most, and those that are left out are in excess of them. -/
theorem reasonsOf_spec (batch : List ReconcileRequest) : (reasonsOf batch).card ≤ 8 ∧
    (∀ text ∈ reasonsOf batch, ∃ r ∈ batch, text = textBefore 120 r.reason) ∧
    ∀ r ∈ batch, r.reason ≠ "" →
      textBefore 120 r.reason ∈ reasonsOf batch ∨ (reasonsOf batch).card = 8 := by
  induction batch using List.reverseRecOn with
  | nil => simp [reasonsOf]
  | append_singleton batch r ih =>
      rcases ih with ⟨hcard, hfrom, hkept⟩
      rw [reasonsOf_append]
      unfold addReason
      by_cases hroom : r.reason ≠ "" ∧ (reasonsOf batch).card < 8
      · rw [if_pos hroom]
        have hinsert := Finset.card_insert_le (textBefore 120 r.reason) (reasonsOf batch)
        have hgrows := Finset.card_le_card (Finset.subset_insert (textBefore 120 r.reason)
          (reasonsOf batch))
        refine ⟨by omega, ?_, ?_⟩
        · intro text hmem
          rcases Finset.mem_insert.mp hmem with rfl | hmem
          · exact ⟨r, by simp, rfl⟩
          · rcases hfrom text hmem with ⟨other, hother, htext⟩
            exact ⟨other, List.mem_append_left _ hother, htext⟩
        · intro other hother hne
          rcases List.mem_append.mp hother with hother | hother
          · rcases hkept other hother hne with hmem | hfull
            · exact .inl (Finset.mem_insert_of_mem hmem)
            · omega
          · rw [List.mem_singleton.mp hother]
            exact .inl (Finset.mem_insert_self _ _)
      · rw [if_neg hroom]
        refine ⟨hcard, ?_, ?_⟩
        · intro text hmem
          rcases hfrom text hmem with ⟨other, hother, htext⟩
          exact ⟨other, List.mem_append_left _ hother, htext⟩
        · intro other hother hne
          rcases List.mem_append.mp hother with hother | hother
          · exact hkept other hother hne
          · rw [List.mem_singleton.mp hother] at hne
            right
            have : ¬ (reasonsOf batch).card < 8 := fun h => hroom ⟨hne, h⟩
            omega

/-- A reason that is passed on has what its requests have in theirs, and commas. -/
theorem mem_reason {batch : List ReconcileRequest} {c : Char}
    (h : c ∈ (reconciliationOf batch).reason.toList) :
    c = ',' ∨ ∃ r ∈ batch, c ∈ r.reason.toList := by
  have hjoined : c ∈ (",".intercalate ((reasonsOf batch).sort (· ≤ ·))).toList := by
    apply List.mem_of_mem_take (i := 240)
    simpa [reconciliationOf, joinedReasons, textBefore] using h
  rw [String.toList_intercalate] at hjoined
  rcases mem_intercalate hjoined with hcomma | ⟨part, hpart, hc⟩
  · exact .inl hcomma
  · rcases List.mem_map.mp hpart with ⟨text, htext, rfl⟩
    rcases (reasonsOf_spec batch).2.1 text ((Finset.mem_sort _).mp htext) with ⟨r, hr, rfl⟩
    right
    refine ⟨r, hr, List.mem_of_mem_take (i := 120) ?_⟩
    simpa [textBefore] using hc

theorem length_reason_le (batch : List ReconcileRequest) :
    (reconciliationOf batch).reason.length ≤ 240 := by
  simp [reconciliationOf, joinedReasons, textBefore]

/-- A reconciler shows the state of a worker that takes requests in batches. -/
structure Shows (s : Reconciler) (b : Batching ReconcileRequest) : Prop where
  pending : s.pending = !b.waiting.isEmpty
  force : s.force = b.waiting.any ReconcileRequest.force
  reasons : s.reasons = reasonsOf b.waiting
  stopped : s.stopped = b.stopped
  busy : b.busy = decide (s.thread = .working)
  handed : s.handed = b.taken.map reconciliationOf
  started : b.waiting ≠ [] → s.thread ≠ .unstarted
  returned : s.thread = .returned → b.stopped = true

section Batches

variable {s s' : Reconciler} {b : Batching ReconcileRequest} {e : ReconcileEvent}
  {es : List ReconcileEvent}

theorem Shows.request (h : Shows s b) (r : ReconcileRequest) :
    ∃ b', b.next (.request r) = some b' ∧ Shows (s.request r) b' := by
  refine ⟨_, rfl, ?_⟩
  unfold Reconciler.request
  rw [h.stopped]
  by_cases hstopped : b.stopped
  · rw [if_pos hstopped, if_pos hstopped]
    exact h
  · rw [if_neg hstopped, if_neg hstopped]
    exact {
      pending := by simp
      force := by simp [h.force]
      reasons := by simp [h.reasons, reasonsOf]
      stopped := rfl
      busy := by
        change b.busy = _
        rw [h.busy]
        by_cases hthread : s.thread = .unstarted <;> simp [hthread]
      handed := h.handed
      started := by
        intro _
        by_cases hthread : s.thread = .unstarted <;> simp [hthread]
      returned := by
        intro hreturned
        by_cases hthread : s.thread = .unstarted
        · simp [hthread] at hreturned
        · exact h.returned (by simpa [hthread] using hreturned) }

/-- One step of a reconciler is at most one step of the worker. -/
theorem Shows.next (h : Shows s b) (hstep : s.next e = some s') : ∃ bs b',
    Batching.batching.Run b bs b' ∧ Shows s' b' ∧
      ∀ more es, Batching.accepted b'.stopped more = acceptedRequests s'.stopped es →
        Batching.accepted b.stopped (bs ++ more) = acceptedRequests s.stopped (e :: es) := by
  cases e with
  | request r =>
      cases hstep
      rcases h.request r with ⟨b', hnext, hshows⟩
      refine ⟨[.request r], b', .single hnext, hshows, ?_⟩
      intro more es hrest
      cases hnext
      unfold Reconciler.request at hrest
      rw [h.stopped] at hrest
      by_cases hstopped : b.stopped <;>
        simp_all [Batching.accepted, acceptedRequests, h.stopped]
  | stop =>
      cases hstep
      refine ⟨[.stop], { b with stopped := true }, .single rfl, ?_, ?_⟩
      · exact { h with stopped := rfl, returned := fun _ => rfl }
      · intro more es hrest
        simpa [Batching.accepted, acceptedRequests] using hrest
  | look =>
      unfold Reconciler.next at hstep
      simp only at hstep
      split at hstep
      · cases hstep
      · rename_i hthread
        simp only [ne_eq, not_not] at hthread
        split at hstep
        · rename_i hstopped
          cases hstep
          refine ⟨[], b, .nil b, ?_, ?_⟩
          · exact { h with
              busy := by simp [h.busy, hthread]
              started := by rintro - ⟨⟩
              returned := fun _ => h.stopped.symm.trans hstopped }
          · intro more es hrest
            simpa [acceptedRequests] using hrest
        · rename_i hstopped
          split at hstep
          · rename_i hpending
            cases hstep
            have hbusy : b.busy = false := by simp [h.busy, hthread]
            have hrunning : b.stopped = false := by simpa [h.stopped] using hstopped
            have hwaiting : b.waiting ≠ [] := by simpa [h.pending] using hpending
            refine ⟨[.take], _, .single (Batching.next_take.mpr ⟨⟨hbusy, hrunning, hwaiting⟩, rfl⟩),
              ?_, ?_⟩
            · exact {
                pending := rfl
                force := rfl
                reasons := rfl
                stopped := h.stopped
                busy := rfl
                handed := by
                  simp [h.handed, reconciliationOf, h.force, h.reasons]
                started := fun hnil => absurd rfl hnil
                returned := by rintro ⟨⟩ }
            · intro more es hrest
              simpa [Batching.accepted, acceptedRequests] using hrest
          · cases hstep
  | finish =>
      unfold Reconciler.next at hstep
      simp only at hstep
      split at hstep
      · rename_i hthread
        cases hstep
        refine ⟨[.finish], { b with busy := false }, .single ?_, ?_, ?_⟩
        · change b.next .finish = _
          simp [Batching.next, h.busy, hthread]
        · exact { h with busy := rfl, started := by rintro - ⟨⟩, returned := by rintro ⟨⟩ }
        · intro more es hrest
          simpa [Batching.accepted, acceptedRequests] using hrest
      · cases hstep

end Batches

/-! ## What a reconciler does with its requests -/

/-- The thread takes what is pending with at most two steps. -/
def Prompt (s : Reconciler) : Prop :=
  ∃ es s', reconciler.Run s es s' ∧ es.length ≤ 2 ∧ (∀ e ∈ es, e = .look ∨ e = .finish) ∧
    s'.handed = s.handed ++ [{ force := s.force, reason := joinedReasons s.reasons }] ∧
    s'.pending = false

/-- The requests of a run as its reconciliations have them. -/
structure ReconcilerLaw (es : List ReconcileEvent) (s : Reconciler) : Prop where
  /-- The accepted requests are cut into the batches of the reconciliations and what is pending. -/
  batches : ∃ (blocks : List (List ReconcileRequest)) (rest : List ReconcileRequest),
    acceptedRequests false es = blocks.flatten ++ rest ∧
    (∀ batch ∈ blocks, batch ≠ []) ∧ s.handed = blocks.map reconciliationOf ∧
    (s.pending = true ↔ rest ≠ []) ∧ s.force = rest.any ReconcileRequest.force
  prompt : s.pending = true → s.stopped = false → Prompt s

/-- A request has been answered by a reconciliation since, or by what is pending. -/
def Answered (r : ReconcileRequest) (s s' : Reconciler) : Prop :=
  s'.pending = true ∧ (r.force = true → s'.force = true) ∨
    ∃ more reconciliation, s'.handed = s.handed ++ more ∧ reconciliation ∈ more ∧
      (r.force = true → reconciliation.force = true)

section Law

variable {s s' : Reconciler} {b : Batching ReconcileRequest} {es : List ReconcileEvent}
  {r : ReconcileRequest}

theorem Shows.prompt (h : Shows s b) (hpending : s.pending = true) (hstopped : s.stopped = false) :
    Prompt s := by
  have hlook : ∀ t : Reconciler, t.thread = .waiting → t.stopped = false → t.pending = true →
      t.next .look = some { t with
        pending := false
        force := false
        reasons := ∅
        thread := .working
        handed := t.handed ++ [{ force := t.force, reason := joinedReasons t.reasons }] } := by
    intro t hthread hrunning hwaits
    simp [Reconciler.next, hthread, hrunning, hwaits]
  have hwaiting : b.waiting ≠ [] := by simpa [h.pending] using hpending
  cases hthread : s.thread with
  | unstarted => exact absurd hthread (h.started hwaiting)
  | returned =>
      have := h.stopped.trans (h.returned hthread)
      simp [hstopped] at this
  | waiting =>
      exact ⟨[.look], _, .single (hlook s hthread hstopped hpending), by simp, by simp, rfl, rfl⟩
  | working =>
      have hfinish : s.next .finish = some { s with thread := .waiting } := by
        simp [Reconciler.next, hthread]
      exact ⟨[.finish, .look], _, .cons hfinish (.single (hlook _ rfl hstopped hpending)), by simp,
        by simp, rfl, rfl⟩

end Law

/-! ## The socket -/

/-- What comes over the socket and asks for a reconciliation, or for none. -/
inductive Message
  | teamContextChanged (kind : String)
  | trustChanged
  | other
deriving DecidableEq, Repr

inductive SocketEvent
  | connected
  | message (m : Message)
  /-- The interval of the team context, or of the trust policy, is over. -/
  | teamSafety
  | trustSafety
deriving DecidableEq, Repr

/-- The characters that are kept in a reason. -/
def isPlain (c : Char) : Bool :=
  c.isLower || c.isDigit || c = '_' || c = '.' || c = '-'

/-- `re.sub("[^a-z0-9_.-]+", "-", text)`, within a run of other characters or not. -/
def squeeze : Bool → List Char → List Char
  | _, [] => []
  | inRun, c :: rest =>
      if isPlain c then c :: squeeze false rest
      else if inRun then squeeze true rest
      else '-' :: squeeze true rest

/-- `text.strip("-")`. -/
def stripDashes (text : List Char) : List Char :=
  ((text.dropWhile (· = '-')).reverse.dropWhile (· = '-')).reverse

section Socket

variable (lower : String → String)

/-- `_team_context_change_reason`. -/
def teamContextChangeReason (kind : String) : String :=
  let slug := stripDashes (squeeze false (lower kind).toList)
  if slug ≠ [] then "websocket-invalidation:" ++ String.ofList slug else "websocket-invalidation"

def teamRequests : SocketEvent → List ReconcileRequest
  | .connected => [{ force := true, reason := "websocket-connect" }]
  | .message (.teamContextChanged kind) =>
      [{ force := false, reason := teamContextChangeReason lower kind }]
  | .teamSafety => [{ force := false, reason := "websocket-safety" }]
  | .message .trustChanged | .message .other | .trustSafety => []

def trustRequests : SocketEvent → List ReconcileRequest
  | .connected => [{ force := true, reason := "websocket-connect" }]
  | .message (.teamContextChanged kind) =>
      -- who is in the team decides whom the effective trust is about
      if kind = "team_context" then
        [{ force := true, reason := "websocket-invalidation:trust-roster" }]
      else []
  | .message .trustChanged => [{ force := true, reason := "websocket-invalidation:trust" }]
  | .trustSafety => [{ force := false, reason := "websocket-safety" }]
  | .message .other | .teamSafety => []

inductive LinkEvent
  | socket (e : SocketEvent)
  | stopTeam
  | lookTeam
  | finishTeam
  | stopTrust
  | lookTrust
  | finishTrust
deriving DecidableEq, Repr

def teamEvents : LinkEvent → List ReconcileEvent
  | .socket e => (teamRequests lower e).map .request
  | .stopTeam => [.stop]
  | .lookTeam => [.look]
  | .finishTeam => [.finish]
  | .stopTrust | .lookTrust | .finishTrust => []

def trustEvents : LinkEvent → List ReconcileEvent
  | .socket e => (trustRequests e).map .request
  | .stopTrust => [.stop]
  | .lookTrust => [.look]
  | .finishTrust => [.finish]
  | .stopTeam | .lookTeam | .finishTeam => []

structure Link where
  team : Reconciler
  trust : Reconciler
deriving DecidableEq

def Link.new : Link where
  team := .new
  trust := .new

def Link.next (l : Link) (e : LinkEvent) : Option Link := do
  let team ← TransitionSystem.play Reconciler.next l.team (teamEvents lower e)
  let trust ← TransitionSystem.play Reconciler.next l.trust (trustEvents e)
  some { team, trust }

/-- The socket thread and the threads of both reconcilers, in any order of steps. -/
def link : TransitionSystem Link LinkEvent where
  init l := l = .new
  step l e l' := l.next lower e = some l'

/-- What a reason may be written with. -/
def isReasonChar (c : Char) : Bool :=
  isPlain c || c = ':' || c = ','

end Socket

section Projections

variable {lower : String → String} {l l' : Link} {es : List LinkEvent}

theorem mem_of_accepted {stopped : Bool} {es : List ReconcileEvent} {r : ReconcileRequest}
    (h : r ∈ acceptedRequests stopped es) : .request r ∈ es := by
  induction es generalizing stopped with
  | nil => cases h
  | cons e rest ih =>
      cases e with
      | request other =>
          unfold acceptedRequests at h
          split at h
          · exact List.mem_cons_of_mem _ (ih h)
          · rcases List.mem_cons.mp h with rfl | h
            · exact List.mem_cons_self
            · exact List.mem_cons_of_mem _ (ih h)
      | stop => exact List.mem_cons_of_mem _ (ih h)
      | look => exact List.mem_cons_of_mem _ (ih h)
      | finish => exact List.mem_cons_of_mem _ (ih h)

/-- What a reconciler is called with, where all requests have plain reasons. -/
theorem ReconcilerLaw.reasons {s : Reconciler} {es : List ReconcileEvent} (h : ReconcilerLaw es s)
    (hplain : ∀ r, .request r ∈ es → ∀ c ∈ r.reason.toList, isReasonChar c = true) :
    ∀ reconciliation ∈ s.handed,
      reconciliation.reason.length ≤ 240 ∧
        ∀ c ∈ reconciliation.reason.toList, isReasonChar c = true := by
  rcases h.batches with ⟨blocks, rest, haccepted, -, hhanded, -⟩
  intro reconciliation hmem
  rw [hhanded] at hmem
  rcases List.mem_map.mp hmem with ⟨batch, hbatch, rfl⟩
  refine ⟨length_reason_le batch, ?_⟩
  intro c hc
  rcases mem_reason hc with rfl | ⟨r, hr, hcr⟩
  · rfl
  · have hin : r ∈ acceptedRequests false es := by
      rw [haccepted]
      exact List.mem_append_left _ (List.mem_flatten.mpr ⟨batch, hbatch, hr⟩)
    exact hplain r (mem_of_accepted hin) c hcr

end Projections

end Glass
end Stemcell
