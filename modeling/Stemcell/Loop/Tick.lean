import Stemcell.LongTasks.QueuedRoots

/-!
# A tick of the event loop

A tick runs the due handlers, adds the internal roots it can claim, and submits one root
for each contact.  A handler that has returned has consumed its source, so its contexts
are in the memory of the tick alone until their roots are queued; claimed internal roots
stay with their source.  An exception ends the tick and the loop goes on with the next.

Main results:

- Definition `EventLoop.runTick`: the handlers, the merge and the submission of one tick.
- Theorem `tick_enqueues`: what the coordinator has queued after a tick.
- Theorems `parked_runTick` and `reviews_runTick`: what a tick has claimed is not lost.
- Theorem `tick_law`: exactly which exceptions lose a context.
- Theorem `contexts_lost`: a tick in which a claim raises and two contexts are lost.

Current gaps:

- A handler is what it has to return, and consumes this by returning; how the sources of
  the contexts keep them is not modelled here.
- No context of a handler or of the long-task state is empty, so that none is skipped.
- A submission is modelled up to the queueing of its root and the acknowledgement of
  reviews; where the dispatcher puts an admitted root is the matter of its own module.
-/

namespace Stemcell
namespace Loop

open Lib LongTasks
open Maintenance (Seconds Host State Op call)

/-! ## Ticks -/

/-- What becomes of a handler in a tick. -/
inductive HandlerRun
  | skipped
  | raises
  | returns
deriving DecidableEq, Repr

/-- The exception of a tick.  A submission may raise before or after the coordinator has
stored the root. -/
inductive Failure
  | none
  | parkedClaim
  | reviewClaim (lifecycles : Nat)
  | submit (index : Nat) (stored : Bool)
deriving DecidableEq, Repr

/-- What a tick meets; `runs` says it of each handler and `admits` of each submission. -/
structure Tick where
  runs : Nat → HandlerRun
  maintenanceActive : Bool
  process : Process
  busy : String → Bool
  now : Seconds
  admits : Nat → Bool
  failure : Failure

/-- The contexts each handler has to return, the internal roots, the coordinator and the
roots submitted so far with the contexts they are made of. -/
structure EventLoop where
  handlers : List (Dict String String)
  queued : QueuedRoots
  lifecycles : Lifecycles
  maintenance : State
  submitted : List (String × List String)

/-- The results of the handlers that return. -/
def returned (handlers : List (Dict String String)) (runs : Nat → HandlerRun) :
    List (Dict String String) :=
  handlers.zipIdx.filterMap fun handler =>
    if runs handler.2 = .returns then some handler.1 else none

/-- A handler that has returned has nothing left to return. -/
def consume (due : Dict String String) : HandlerRun → Dict String String
  | .returns => Dict.empty
  | _ => due

/-- One more context for a contact. -/
def addContext (merged : Dict String (List String)) (context : String × String) :
    Dict String (List String) :=
  if context.2 = "" then merged
  else merged.set context.1 ((merged.get? context.1).getD [] ++ [context.2])

/-- `run_event_loop_tick`, before the contexts of a contact are joined. -/
def runEventLoopTick (results : List (Dict String String)) : Dict String (List String) :=
  (results.flatMap Dict.entries).foldl addContext Dict.empty

/-- A parked root goes in front of the contexts of its contact. -/
def addParked (merged : Dict String (List String)) (root : String × String) :
    Dict String (List String) :=
  merged.set root.1 (root.2 :: (merged.get? root.1).getD [])

/-- A review is the only context of its contact. -/
def addReview (merged : Dict String (List String)) (root : String × String) :
    Dict String (List String) :=
  merged.set root.1 [root.2]

/-- The text of a root. -/
def joined (parts : List String) : String :=
  "\n\n".intercalate parts

namespace EventLoop

section Steps

variable (host : Host) (tick : Tick) (loop : EventLoop)

/-- The parked roots that the tick claims. -/
def parked : Claimed :=
  claimReadyLongTaskRoots tick.process tick.busy 16 tick.now loop.queued

/-- The contexts before the reviews are added. -/
def withParked (merged : Dict String (List String)) : Dict String (List String) :=
  (loop.parked tick).roots.foldl addParked merged

/-- The reviews that the tick claims, through as many lifecycles as it gets to. -/
def reviews (merged : Dict String (List String)) : ClaimedReviews :=
  let order := reviewOrder (loop.withParked tick merged).keys loop.lifecycles
  match tick.failure with
  | .reviewClaim stop =>
      claimReviews tick.process 16 tick.now (order.take stop) loop.lifecycles
  | _ => claimReviews tick.process 16 tick.now (order.take order.length) loop.lifecycles

/-- `_merge_due_internal_roots`: the contexts, unless it raises, and the claims. -/
def mergeDueInternalRoots (merged : Dict String (List String)) :
    Option (Dict String (List String)) × EventLoop :=
  if tick.maintenanceActive then (some merged, loop)
  else
    let claims := { loop with
      queued := (loop.parked tick).queued
      lifecycles := (loop.reviews tick merged).lifecycles }
    match tick.failure with
    | .parkedClaim => (none, loop)
    | .reviewClaim _ => (none, claims)
    | _ =>
        (some ((loop.reviews tick merged).roots.foldl addReview (loop.withParked tick merged)),
          claims)

/-- `enqueue_root`. -/
def enqueue (index : Nat) (entry : String × List String) : EventLoop :=
  match call host (.enqueueRoot entry.1 (joined entry.2) (tick.admits index)) loop.maintenance
    tick.now with
  | .ok (_, maintenance) =>
      { loop with maintenance := maintenance, submitted := loop.submitted ++ [entry] }
  | .error _ => loop

/-- The loop of `ManagerDispatcher.submit`, and whether it comes to its end. -/
def submitFrom : Nat → List (String × List String) → EventLoop → EventLoop × Bool
  | _, [], loop => (loop, true)
  | index, entry :: rest, loop =>
      match tick.failure with
      | .submit failing stored =>
          if failing = index then
            (if stored then loop.enqueue host tick index entry else loop, false)
          else submitFrom (index + 1) rest (loop.enqueue host tick index entry)
      | _ => submitFrom (index + 1) rest (loop.enqueue host tick index entry)

/-- `acknowledge_accuracy_review_dispatched`, for a root that is a review. -/
def acknowledge (lifecycles : Lifecycles) (entry : String × List String) : Lifecycles :=
  let reviewId := Dispatch.extractAccuracyReviewRoot (joined entry.2)
  match lifecycles.get? entry.1 with
  | some lifecycle =>
      if reviewId = "" then lifecycles
      else lifecycles.set entry.1 (lifecycle.markAccuracyReviewDispatched reviewId)
  | none => lifecycles

/-- `ManagerDispatcher.submit`. -/
def submit (contexts : List (String × List String)) : EventLoop :=
  match loop.submitFrom host tick 0 contexts with
  | (after, true) =>
      { after with lifecycles := contexts.foldl acknowledge after.lifecycles }
  | (after, false) => after

/-- The contexts of the handlers that return. -/
def contexts : Dict String (List String) :=
  runEventLoopTick (returned loop.handlers tick.runs)

/-- One tick. -/
def runTick : EventLoop :=
  let ran := { loop with
    handlers := loop.handlers.mapIdx fun i due => consume due (tick.runs i) }
  match ran.mergeDueInternalRoots tick (loop.contexts tick) with
  | (some merged, claims) => claims.submit host tick merged.entries
  | (none, claims) => claims

end Steps

end EventLoop

variable {host : Host} {tick : Tick} {loop : EventLoop} {merged more : Dict String (List String)}
  {contactId context text : String} {parts : List String} {results : List (Dict String String)}
  {entries : List (String × List String)}

/-! ## Merging -/

/-- The contacts of the first come first in the second, and their contexts stay. -/
structure Extends (merged more : Dict String (List String)) : Prop where
  keys : ∃ others, more.keys = merged.keys ++ others
  parts : ∀ contactId parts, merged.get? contactId = some parts →
    ∃ parts', more.get? contactId = some parts' ∧ parts ⊆ parts'

theorem Extends.refl (merged : Dict String (List String)) : Extends merged merged :=
  ⟨⟨[], (List.append_nil _).symm⟩, fun _ parts hget => ⟨parts, hget, fun _ hmem => hmem⟩⟩

theorem Extends.trans {last : Dict String (List String)} (h : Extends merged more)
    (h' : Extends more last) : Extends merged last := by
  rcases h.keys with ⟨others, hothers⟩
  rcases h'.keys with ⟨rest, hrest⟩
  refine ⟨⟨others ++ rest, by rw [hrest, hothers, List.append_assoc]⟩, ?_⟩
  intro contactId parts hget
  rcases h.parts contactId parts hget with ⟨parts', hget', hsub⟩
  rcases h'.parts contactId parts' hget' with ⟨parts'', hget'', hsub'⟩
  exact ⟨parts'', hget'', fun _ hmem => hsub' (hsub hmem)⟩

theorem Extends.set (hkept : ∀ old, merged.get? contactId = some old → old ⊆ parts) :
    Extends merged (merged.set contactId parts) := by
  constructor
  · rw [Dict.keys_set]
    split
    · exact ⟨[], (List.append_nil _).symm⟩
    · exact ⟨[contactId], rfl⟩
  · intro other old hget
    by_cases hsame : contactId = other
    · subst hsame
      exact ⟨parts, Dict.get?_set_self _ _ _, hkept old hget⟩
    · exact ⟨old, (Dict.get?_set_of_ne _ _ hsame).trans hget, fun _ hmem => hmem⟩

theorem addContext_extends (merged : Dict String (List String)) (added : String × String) :
    Extends merged (addContext merged added) := by
  unfold addContext
  split
  · exact .refl merged
  · apply Extends.set
    intro old hget
    rw [hget]
    exact fun _ hmem => List.mem_append_left _ hmem

theorem addContexts_extends (added : List (String × String)) (merged : Dict String (List String)) :
    Extends merged (added.foldl addContext merged) := by
  induction added generalizing merged with
  | nil => exact .refl merged
  | cons first rest ih => exact (addContext_extends merged first).trans (ih _)

/-- A context of a handler is among the contexts of its contact. -/
theorem addContexts_adds {added : List (String × String)} (hmem : (contactId, context) ∈ added)
    (hcontext : context ≠ "") :
    ∃ parts, (added.foldl addContext merged).get? contactId = some parts ∧ context ∈ parts := by
  induction added generalizing merged with
  | nil => cases hmem
  | cons first rest ih =>
      rw [List.foldl_cons]
      rcases List.mem_cons.mp hmem with rfl | hlater
      · have hadd : ∃ parts, (addContext merged (contactId, context)).get? contactId = some parts ∧
            context ∈ parts := by
          unfold addContext
          rw [if_neg hcontext]
          exact ⟨_, Dict.get?_set_self _ _ _, List.mem_append_right _ (List.mem_singleton_self _)⟩
        rcases hadd with ⟨parts, hget, hin⟩
        rcases (addContexts_extends rest _).parts contactId parts hget with ⟨parts', hget', hsub⟩
        exact ⟨parts', hget', hsub hin⟩
      · exact ih hlater

/-- Every contact has a context of a handler. -/
theorem addContexts_from {added : List (String × String)}
    (hkey : contactId ∈ (added.foldl addContext merged).keys) :
    contactId ∈ merged.keys ∨ ∃ context, (contactId, context) ∈ added ∧ context ≠ "" := by
  induction added generalizing merged with
  | nil => exact .inl hkey
  | cons first rest ih =>
      rcases ih hkey with hadded | ⟨context, hmem, hcontext⟩
      · unfold addContext at hadded
        split at hadded
        · exact .inl hadded
        rename_i hnonempty
        rw [Dict.keys_set] at hadded
        split at hadded
        · exact .inl hadded
        rcases List.mem_append.mp hadded with hold | hnew
        · exact .inl hold
        · rw [List.mem_singleton] at hnew
          subst hnew
          exact .inr ⟨first.2, List.mem_cons_self, hnonempty⟩
      · exact .inr ⟨context, List.mem_cons_of_mem _ hmem, hcontext⟩

theorem addParked_extends (roots : List (String × String)) (merged : Dict String (List String)) :
    Extends merged (roots.foldl addParked merged) := by
  induction roots generalizing merged with
  | nil => exact .refl merged
  | cons first rest ih =>
      apply Extends.trans _ (ih _)
      apply Extends.set
      intro old hget
      rw [hget]
      exact fun _ hmem => List.mem_cons_of_mem _ hmem

/-- Reviews of contacts that have no contexts yet. -/
theorem addReviews_extends {roots : List (String × String)} (hnodup : (roots.map Prod.fst).Nodup)
    (hfree : ∀ root ∈ roots, root.1 ∉ merged.keys) :
    Extends merged (roots.foldl addReview merged) := by
  induction roots generalizing merged with
  | nil => exact .refl merged
  | cons first rest ih =>
      rw [List.map_cons, List.nodup_cons] at hnodup
      have hfirst : Extends merged (addReview merged first) := by
        apply Extends.set
        intro old hget
        exact absurd (Dict.mem_keys_of_get? _ hget) (hfree first List.mem_cons_self)
      apply hfirst.trans
      apply ih hnodup.2
      intro root hmem hkey
      unfold addReview at hkey
      rw [Dict.keys_set] at hkey
      split at hkey
      · exact hfree root (List.mem_cons_of_mem _ hmem) hkey
      · rcases List.mem_append.mp hkey with hold | hnew
        · exact hfree root (List.mem_cons_of_mem _ hmem) hold
        · rw [List.mem_singleton] at hnew
          exact hnodup.1 (hnew ▸ List.mem_map_of_mem hmem)

theorem addReviews_adds {roots : List (String × String)} (hnodup : (roots.map Prod.fst).Nodup)
    (hmem : (contactId, text) ∈ roots) :
    (roots.foldl addReview merged).get? contactId = some [text] := by
  induction roots generalizing merged with
  | nil => cases hmem
  | cons first rest ih =>
      rw [List.map_cons, List.nodup_cons] at hnodup
      rw [List.foldl_cons]
      rcases List.mem_cons.mp hmem with rfl | hlater
      · have hothers : ∀ (others : List (String × String)) (merged : Dict String (List String)),
            contactId ∉ others.map Prod.fst → merged.get? contactId = some [text] →
              (others.foldl addReview merged).get? contactId = some [text] := by
          intro others
          induction others with
          | nil => exact fun _ _ hget => hget
          | cons other others ih =>
              intro merged hnot hget
              rw [List.map_cons, List.mem_cons, not_or] at hnot
              apply ih _ hnot.2
              rw [← hget]
              exact Dict.get?_set_of_ne _ _ (Ne.symm hnot.1)
        exact hothers rest _ hnodup.1 (Dict.get?_set_self _ _ _)
      · exact ih hnodup.2 hlater

/-! ## Submitting -/

/-- The coordinator queues one root, whatever its phase. -/
theorem enqueueRoot_queues (host : Host) (contactId context : String) (admitRoot : Bool)
    (s : State) (now : Seconds) :
    ∃ r s', call host (.enqueueRoot contactId context admitRoot) s now = .ok (r, s') ∧
      ∃ item, s'.rootQueue = (Maintenance.prune s now).rootQueue ++ [item] ∧
        item.contactId = contactId ∧ item.context = context := by
  simp only [call, Maintenance.transaction, Maintenance.mutation, Maintenance.Mutation.reply]
  unfold Maintenance.enqueueRoot
  simp only
  by_cases hadmit : (Maintenance.prune s now).phase = .available ∧ admitRoot = true
  · simp only [if_pos hadmit]
    exact ⟨_, _, rfl, _, rfl, rfl, rfl⟩
  simp only [if_neg hadmit]
  by_cases havailable : (Maintenance.prune s now).phase = .available
  · simp only [if_pos havailable]
    exact ⟨_, _, rfl, _, rfl, rfl, rfl⟩
  · simp only [if_neg havailable]
    exact ⟨_, _, rfl, _, (Maintenance.ensureNotice_sameCore _ _ _ _ _).rootQueue, rfl, rfl⟩

/-- The roots of a document, without what the coordinator notes about them. -/
def queuedTexts (s : State) : List (String × String) :=
  s.rootQueue.map fun item => (item.contactId, item.context)

theorem queuedTexts_prune (s : State) (now : Seconds) :
    queuedTexts (Maintenance.prune s now) = queuedTexts s := by
  unfold queuedTexts
  rw [Maintenance.prune_rootQueue, List.map_map]
  apply List.map_congr_left
  intro item _
  rcases Maintenance.pruneRoot_same (Maintenance.prune s now).leases now item with
    ⟨-, hcontact, hcontext⟩
  simp only [Function.comp_apply, hcontact, hcontext]

/-- Contacts with the texts of their roots. -/
def rootTexts (entries : List (String × List String)) : List (String × String) :=
  entries.map fun entry => (entry.1, joined entry.2)

/-- What a submission leaves alone, and that its roots are queued. -/
structure Submits (before after : EventLoop) (reached : List (String × List String)) : Prop where
  handlers : after.handlers = before.handlers
  queued : after.queued = before.queued
  lifecycles : after.lifecycles = before.lifecycles
  submitted : after.submitted = before.submitted ++ reached
  roots : queuedTexts after.maintenance = queuedTexts before.maintenance ++ rootTexts reached

theorem Submits.none (loop : EventLoop) : Submits loop loop [] :=
  ⟨rfl, rfl, rfl, (List.append_nil _).symm, (List.append_nil _).symm⟩

theorem Submits.trans {first second third : EventLoop} {reached rest : List (String × List String)}
    (h : Submits first second reached) (h' : Submits second third rest) :
    Submits first third (reached ++ rest) where
  handlers := h'.handlers.trans h.handlers
  queued := h'.queued.trans h.queued
  lifecycles := h'.lifecycles.trans h.lifecycles
  submitted := by rw [h'.submitted, h.submitted, List.append_assoc]
  roots := by rw [h'.roots, h.roots, rootTexts, rootTexts, rootTexts, List.map_append,
    List.append_assoc]

theorem enqueue_submits (index : Nat) (entry : String × List String) :
    Submits loop (loop.enqueue host tick index entry) [entry] := by
  rcases enqueueRoot_queues host entry.1 (joined entry.2) (tick.admits index) loop.maintenance
    tick.now with ⟨r, s', hcall, item, hqueue, hcontact, hcontext⟩
  unfold EventLoop.enqueue
  rw [hcall]
  refine ⟨rfl, rfl, rfl, rfl, ?_⟩
  rw [← queuedTexts_prune loop.maintenance tick.now]
  unfold queuedTexts
  rw [hqueue, List.map_append, List.map_singleton, hcontact, hcontext]
  rfl

/-- How many roots are queued before a submission raises. -/
def Failure.reaches : Failure → Option Nat
  | .submit index stored => some (index + stored.toNat)
  | _ => .none

/-- The roots of a submission that are queued. -/
def reached (failure : Failure) (index : Nat) (entries : List (String × List String)) :
    List (String × List String) :=
  match failure.reaches with
  | some count => entries.take (count - index)
  | .none => entries

theorem submitFrom_submits {index : Nat}
    (hindex : ∀ failing stored, tick.failure = .submit failing stored → index ≤ failing) :
    Submits loop (loop.submitFrom host tick index entries).1 (reached tick.failure index entries) ∧
      ((loop.submitFrom host tick index entries).2 = true →
        reached tick.failure index entries = entries) := by
  induction entries generalizing loop index with
  | nil =>
      have hnone : reached tick.failure index [] = [] := by
        unfold reached
        split
        · exact List.take_nil
        · rfl
      rw [hnone]
      exact ⟨.none loop, fun _ => rfl⟩
  | cons entry rest ih =>
      have hfirst := @enqueue_submits host tick loop index entry
      cases hfailure : tick.failure with
      | submit failing stored =>
          have hle := hindex failing stored hfailure
          by_cases hat : failing = index
          · subst hat
            simp only [EventLoop.submitFrom, hfailure, if_true, reached, Failure.reaches]
            cases stored with
            | true =>
                rw [Bool.toNat_true, Nat.add_sub_cancel_left]
                exact ⟨hfirst, fun hfalse => nomatch hfalse⟩
            | false =>
                rw [Bool.toNat_false, Nat.add_zero, Nat.sub_self]
                exact ⟨.none loop, fun hfalse => nomatch hfalse⟩
          · have hlater := @ih (loop.enqueue host tick index entry) (index + 1) (by
              intro failing' stored' hsame
              rw [hfailure] at hsame
              cases hsame
              omega)
            have hsplit : reached (.submit failing stored) index (entry :: rest) =
                [entry] ++ reached (.submit failing stored) (index + 1) rest := by
              simp only [reached, Failure.reaches]
              rw [show failing + stored.toNat - index =
                (failing + stored.toNat - (index + 1)) + 1 by omega, List.take_succ_cons]
              rfl
            rw [hsplit]
            simp only [EventLoop.submitFrom, hfailure, if_neg hat]
            rw [hfailure] at hlater
            refine ⟨hfirst.trans hlater.1, fun hdone => ?_⟩
            rw [hlater.2 hdone]
            rfl
      | none | parkedClaim | reviewClaim =>
          have hlater := @ih (loop.enqueue host tick index entry) (index + 1) (by
            intro failing stored hsame
            rw [hfailure] at hsame
            cases hsame)
          simp only [EventLoop.submitFrom, hfailure]
          rw [hfailure] at hlater
          exact ⟨hfirst.trans hlater.1, fun _ => rfl⟩

/-! ## What a tick leaves -/

/-- The roots that a tick has queued, with the contexts they are made of. -/
def newRoots (host : Host) (tick : Tick) (loop : EventLoop) : List (String × List String) :=
  (loop.runTick host tick).submitted.drop loop.submitted.length

/-- The context is part of one queued root of its contact. -/
def EnqueuedOnce (host : Host) (tick : Tick) (loop : EventLoop) (contactId context : String) :
    Prop :=
  (newRoots host tick loop).countP (fun entry => entry.1 = contactId ∧ context ∈ entry.2) = 1

/-- The parked roots that a tick has claimed. -/
def claimedParked (tick : Tick) (loop : EventLoop) : List (String × String) :=
  if tick.maintenanceActive = true ∨ tick.failure = .parkedClaim then []
  else (loop.parked tick).roots

/-- The reviews that a tick has claimed. -/
def claimedReviews (tick : Tick) (loop : EventLoop) : List (String × String) :=
  if tick.maintenanceActive = true ∨ tick.failure = .parkedClaim then []
  else (loop.reviews tick (loop.contexts tick)).roots

/-- Every context that a handler has returned or that the tick has claimed is queued once,
or its source has it still. -/
structure TickLaw (host : Host) (tick : Tick) (loop : EventLoop) : Prop where
  returned : ∀ i due contactId context, loop.handlers[i]? = some due → tick.runs i = .returns →
    due.get? contactId = some context → context ≠ "" →
      EnqueuedOnce host tick loop contactId context ∨
        ∃ left, (loop.runTick host tick).handlers[i]? = some left ∧
          left.get? contactId = some context
  parked : ∀ root ∈ claimedParked tick loop, EnqueuedOnce host tick loop root.1 root.2 ∨
    Parked (loop.runTick host tick).queued root.1 root.2
  reviews : ∀ root ∈ claimedReviews tick loop, EnqueuedOnce host tick loop root.1 root.2 ∨
    Reviewing (loop.runTick host tick).lifecycles root.1 root.2

/-- No exception comes before the last contact with a context of a handler is queued. -/
def Harmless (tick : Tick) (loop : EventLoop) : Prop :=
  match tick.failure with
  | .none => True
  | .submit index stored => (loop.contexts tick).size ≤ index + stored.toNat
  | _ => tick.maintenanceActive = true ∨ (loop.contexts tick).size = 0

/-- The handlers after a tick. -/
def consumed (tick : Tick) (loop : EventLoop) : EventLoop :=
  { loop with handlers := loop.handlers.mapIdx fun i due => consume due (tick.runs i) }

/-- What the merge makes of the contexts. -/
inductive Merged (tick : Tick) (loop : EventLoop) :
    Option (Dict String (List String)) × EventLoop → Prop
  | fenced (hactive : tick.maintenanceActive = true) :
      Merged tick loop (some (loop.contexts tick), consumed tick loop)
  | raised (hactive : tick.maintenanceActive = false) (hfailure : tick.failure = .parkedClaim) :
      Merged tick loop (none, consumed tick loop)
  | stopped (stop : Nat) (hactive : tick.maintenanceActive = false)
      (hfailure : tick.failure = .reviewClaim stop) :
      Merged tick loop (none, { consumed tick loop with
        queued := (loop.parked tick).queued
        lifecycles := (loop.reviews tick (loop.contexts tick)).lifecycles })
  | merged (hactive : tick.maintenanceActive = false) (hparked : tick.failure ≠ .parkedClaim)
      (hreviews : ∀ stop, tick.failure ≠ .reviewClaim stop) :
      Merged tick loop
        (some ((loop.reviews tick (loop.contexts tick)).roots.foldl addReview
            (loop.withParked tick (loop.contexts tick))),
          { consumed tick loop with
            queued := (loop.parked tick).queued
            lifecycles := (loop.reviews tick (loop.contexts tick)).lifecycles })

theorem merge_cases (tick : Tick) (loop : EventLoop) :
    Merged tick loop ((consumed tick loop).mergeDueInternalRoots tick (loop.contexts tick)) := by
  unfold EventLoop.mergeDueInternalRoots
  cases hactive : tick.maintenanceActive with
  | true =>
      rw [if_pos rfl]
      exact .fenced hactive
  | false =>
      simp only [Bool.false_eq_true, if_false]
      cases hfailure : tick.failure with
      | parkedClaim => exact .raised hactive hfailure
      | reviewClaim stop => exact .stopped stop hactive hfailure
      | none =>
          refine .merged hactive ?_ ?_
          · rw [hfailure]
            exact nofun
          · rw [hfailure]
            exact fun _ => nofun
      | submit index stored =>
          refine .merged hactive ?_ ?_
          · rw [hfailure]
            exact nofun
          · rw [hfailure]
            exact fun _ => nofun

/-- The claims of reviews go through some of the lifecycles. -/
theorem reviews_stop (tick : Tick) (loop : EventLoop) (merged : Dict String (List String)) :
    ∃ stop, loop.reviews tick merged = claimReviews tick.process 16 tick.now
      ((reviewOrder (loop.withParked tick merged).keys loop.lifecycles).take stop)
        loop.lifecycles := by
  unfold EventLoop.reviews
  simp only
  split
  · exact ⟨_, rfl⟩
  · exact ⟨_, rfl⟩

/-- The contacts of the handlers come first among the merged contexts. -/
theorem merged_extends (tick : Tick) (loop : EventLoop) (merged : Dict String (List String)) :
    Extends merged ((loop.reviews tick merged).roots.foldl addReview
      (loop.withParked tick merged)) := by
  apply Extends.trans (addParked_extends (loop.parked tick).roots merged)
  rcases reviews_stop tick loop merged with ⟨stop, heq⟩
  rw [heq]
  apply addReviews_extends
  · exact claimReviews_contacts.1
  · exact claimReviews_contacts.2

/-- The roots that a merged tick has queued. -/
theorem submit_submits (merged : Dict String (List String)) (loop : EventLoop) :
    (loop.submit host tick merged.entries).submitted =
        loop.submitted ++ reached tick.failure 0 merged.entries ∧
      queuedTexts (loop.submit host tick merged.entries).maintenance =
          queuedTexts loop.maintenance ++ rootTexts (reached tick.failure 0 merged.entries) ∧
        (loop.submit host tick merged.entries).handlers = loop.handlers ∧
          (loop.submit host tick merged.entries).queued = loop.queued ∧
            ((loop.submit host tick merged.entries).lifecycles = loop.lifecycles ∨
              reached tick.failure 0 merged.entries = merged.entries) := by
  have hsubmits := @submitFrom_submits host tick loop merged.entries 0 (fun _ _ _ => Nat.zero_le _)
  unfold EventLoop.submit
  rcases hcase : loop.submitFrom host tick 0 merged.entries with ⟨after, done⟩
  rw [hcase] at hsubmits
  rcases hsubmits with ⟨hsubmits, hdone⟩
  cases done with
  | true =>
      exact ⟨hsubmits.submitted, hsubmits.roots, hsubmits.handlers, hsubmits.queued,
        .inr (hdone rfl)⟩
  | false =>
      exact ⟨hsubmits.submitted, hsubmits.roots, hsubmits.handlers, hsubmits.queued,
        .inl hsubmits.lifecycles⟩

theorem runTick_eq (host : Host) (tick : Tick) (loop : EventLoop) :
    loop.runTick host tick =
      match (consumed tick loop).mergeDueInternalRoots tick (loop.contexts tick) with
      | (some merged, claims) => claims.submit host tick merged.entries
      | (none, claims) => claims :=
  rfl

/-- The coordinator has queued the new roots after those it had, and nothing else. -/
theorem tick_enqueues (host : Host) (tick : Tick) (loop : EventLoop) :
    queuedTexts (loop.runTick host tick).maintenance =
      queuedTexts loop.maintenance ++ rootTexts (newRoots host tick loop) := by
  have hnothing : ∀ claims : EventLoop, claims.maintenance = loop.maintenance →
      claims.submitted = loop.submitted → queuedTexts claims.maintenance =
        queuedTexts loop.maintenance ++
          rootTexts (claims.submitted.drop loop.submitted.length) := by
    intro claims hmaintenance hsubmitted
    rw [hmaintenance, hsubmitted, List.drop_length, rootTexts, List.map_nil, List.append_nil]
  have hmerged : ∀ (claims : EventLoop) (merged : Dict String (List String)),
      claims.maintenance = loop.maintenance → claims.submitted = loop.submitted →
        queuedTexts (claims.submit host tick merged.entries).maintenance =
          queuedTexts loop.maintenance ++
            rootTexts ((claims.submit host tick merged.entries).submitted.drop
              loop.submitted.length) := by
    intro claims merged hmaintenance hsubmitted
    rcases @submit_submits host tick merged claims with ⟨hnew, hroots, -⟩
    rw [hroots, hnew, hsubmitted, List.drop_left, hmaintenance]
  have hcases := merge_cases tick loop
  unfold newRoots
  rw [runTick_eq]
  generalize (consumed tick loop).mergeDueInternalRoots tick (loop.contexts tick) = result at hcases
  cases hcases with
  | fenced => exact hmerged _ _ rfl rfl
  | raised => exact hnothing _ rfl rfl
  | stopped => exact hnothing _ rfl rfl
  | merged => exact hmerged _ _ rfl rfl

/-! ## The law -/

theorem mem_returned {handlers : List (Dict String String)} {runs : Nat → HandlerRun} :
    (contactId, context) ∈ (returned handlers runs).flatMap Dict.entries ↔
      ∃ i due, handlers[i]? = some due ∧ runs i = .returns ∧ due.get? contactId = some context := by
  unfold returned
  rw [List.mem_flatMap]
  simp only [List.mem_filterMap, Dict.get?_eq_some_iff]
  constructor
  · rintro ⟨found, ⟨⟨due, i⟩, hmem, hsome⟩, hentry⟩
    split at hsome
    · rename_i hruns
      cases hsome
      exact ⟨i, due, List.mem_zipIdx_iff_getElem?.mp hmem, hruns, hentry⟩
    · cases hsome
  · rintro ⟨i, due, hget, hruns, hentry⟩
    refine ⟨due, ⟨(due, i), List.mem_zipIdx_iff_getElem?.mpr hget, ?_⟩, hentry⟩
    rw [if_pos hruns]

theorem countP_absent (habsent : contactId ∉ entries.map Prod.fst) :
    entries.countP (fun entry => entry.1 = contactId ∧ context ∈ entry.2) = 0 := by
  rw [List.countP_eq_zero]
  intro entry hentry hsame
  rw [decide_eq_true_eq] at hsame
  apply habsent
  rw [← hsame.1]
  exact List.mem_map_of_mem (f := Prod.fst) hentry

/-- Among different contacts, a context counts once if it is there. -/
theorem countP_once (hnodup : (entries.map Prod.fst).Nodup) (hmem : (contactId, parts) ∈ entries)
    (hin : context ∈ parts) :
    entries.countP (fun entry => entry.1 = contactId ∧ context ∈ entry.2) = 1 := by
  induction entries with
  | nil => cases hmem
  | cons entry rest ih =>
      rw [List.map_cons, List.nodup_cons] at hnodup
      rw [List.countP_cons]
      rcases List.mem_cons.mp hmem with rfl | hlater
      · rw [countP_absent hnodup.1, if_pos]
        rw [decide_eq_true_eq]
        exact ⟨rfl, hin⟩
      · rw [ih hnodup.2 hlater, if_neg]
        rw [decide_eq_true_eq]
        rintro ⟨hsame, -⟩
        apply hnodup.1
        rw [hsame]
        exact List.mem_map_of_mem (f := Prod.fst) hlater

/-- An entry whose contact is among the first is among the first. -/
theorem mem_take_of_key {count : Nat} {entry : String × List String}
    (hnodup : (entries.map Prod.fst).Nodup) (hmem : entry ∈ entries)
    (hkey : entry.1 ∈ (entries.map Prod.fst).take count) : entry ∈ entries.take count := by
  rw [← List.map_take, List.mem_map] at hkey
  rcases hkey with ⟨found, hfound, hsame⟩
  have hinj := List.inj_on_of_nodup_map hnodup
  rw [← hinj (List.mem_of_mem_take hfound) hmem hsame]
  exact hfound

theorem handlers_runTick (host : Host) (tick : Tick) (loop : EventLoop) :
    (loop.runTick host tick).handlers = (consumed tick loop).handlers := by
  have hcases := merge_cases tick loop
  rw [runTick_eq]
  generalize (consumed tick loop).mergeDueInternalRoots tick (loop.contexts tick) = result at hcases
  cases hcases with
  | fenced => exact (submit_submits _ _).2.2.1
  | raised => rfl
  | stopped => rfl
  | merged => exact (submit_submits _ _).2.2.1

/-- What was parked and claimed is parked still. -/
theorem parked_runTick {root : String × String} (hmem : root ∈ claimedParked tick loop) :
    Parked (loop.runTick host tick).queued root.1 root.2 := by
  have hcases := merge_cases tick loop
  rw [runTick_eq]
  unfold claimedParked at hmem
  split at hmem
  · cases hmem
  rename_i hclaims
  rw [not_or] at hclaims
  have hparked := claimRoots_parked hmem
  generalize (consumed tick loop).mergeDueInternalRoots tick (loop.contexts tick) = result at hcases
  cases hcases with
  | fenced hactive => exact absurd hactive hclaims.1
  | raised _ hfailure => exact absurd hfailure hclaims.2
  | stopped => exact hparked
  | merged =>
      simp only
      rw [(submit_submits _ _).2.2.2.1]
      exact hparked

/-- A claimed review is queued, or its lifecycle has it still. -/
theorem reviews_runTick {root : String × String} (hmem : root ∈ claimedReviews tick loop) :
    EnqueuedOnce host tick loop root.1 root.2 ∨
      Reviewing (loop.runTick host tick).lifecycles root.1 root.2 := by
  have hcases := merge_cases tick loop
  unfold EnqueuedOnce newRoots
  rw [runTick_eq]
  unfold claimedReviews at hmem
  split at hmem
  · cases hmem
  rename_i hclaims
  rw [not_or] at hclaims
  rcases reviews_stop tick loop (loop.contexts tick) with ⟨stop, heq⟩
  have hreviewing : Reviewing (loop.reviews tick (loop.contexts tick)).lifecycles root.1 root.2 := by
    rw [heq] at hmem ⊢
    exact claimReviews_reviewing hmem
  generalize (consumed tick loop).mergeDueInternalRoots tick (loop.contexts tick) = result at hcases
  cases hcases with
  | fenced hactive => exact absurd hactive hclaims.1
  | raised _ hfailure => exact absurd hfailure hclaims.2
  | stopped => exact .inr hreviewing
  | merged =>
      simp only
      generalize hclaimed : ({ consumed tick loop with
        queued := (loop.parked tick).queued
        lifecycles := (loop.reviews tick (loop.contexts tick)).lifecycles } : EventLoop) = claims
      generalize hall : (loop.reviews tick (loop.contexts tick)).roots.foldl addReview
        (loop.withParked tick (loop.contexts tick)) = merged
      rcases @submit_submits host tick merged claims with ⟨hnew, -, -, -, hsame | hreached⟩
      · right
        rw [hsame, ← hclaimed]
        exact hreviewing
      · left
        have hsubmitted : claims.submitted = loop.submitted := by
          rw [← hclaimed]
          rfl
        rw [hnew, hreached, hsubmitted, List.drop_left]
        refine countP_once merged.nodup ?_ (List.mem_singleton_self root.2)
        apply (Dict.get?_eq_some_iff _ _ _).mp
        rw [← hall]
        apply addReviews_adds
        · rw [heq]
          exact claimReviews_contacts.1
        · exact hmem

/-- The contexts of the handlers are queued in a harmless tick. -/
theorem returned_runTick (hharmless : Harmless tick loop)
    (hmem : (contactId, context) ∈ (returned loop.handlers tick.runs).flatMap Dict.entries)
    (hcontext : context ≠ "") : EnqueuedOnce host tick loop contactId context := by
  rcases @addContexts_adds Dict.empty contactId context _ hmem hcontext with ⟨parts, hget, hin⟩
  have hkey : contactId ∈ (loop.contexts tick).keys := Dict.mem_keys_of_get? _ hget
  have hsize : (loop.contexts tick).size ≠ 0 := by
    intro hzero
    have hlength : (loop.contexts tick).keys.length = 0 := by
      unfold Dict.keys
      rw [List.length_map]
      exact hzero
    rw [List.length_eq_zero_iff.mp hlength] at hkey
    cases hkey
  -- All contacts of the handlers are within the reached part, where they come first.
  have hqueued : ∀ (merged : Dict String (List String)) (claims : EventLoop),
      Extends (loop.contexts tick) merged → claims.submitted = loop.submitted →
        ((claims.submit host tick merged.entries).submitted.drop loop.submitted.length).countP
          (fun entry => entry.1 = contactId ∧ context ∈ entry.2) = 1 := by
    intro merged claims hextends hsubmitted
    rw [(submit_submits merged claims).1, hsubmitted, List.drop_left]
    rcases hextends.parts contactId parts hget with ⟨parts', hget', hsub⟩
    have hentry : (contactId, parts') ∈ merged.entries := (Dict.get?_eq_some_iff _ _ _).mp hget'
    unfold reached
    split
    · rename_i count hreaches
      have hcount : (loop.contexts tick).size ≤ count := by
        unfold Failure.reaches at hreaches
        unfold Harmless at hharmless
        cases hfailure : tick.failure with
        | submit index stored =>
            rw [hfailure] at hreaches hharmless
            cases hreaches
            exact hharmless
        | none | parkedClaim | reviewClaim =>
            rw [hfailure] at hreaches
            cases hreaches
      rw [Nat.sub_zero]
      have hnodup := merged.nodup.sublist ((List.take_sublist count merged.entries).map Prod.fst)
      refine countP_once hnodup ?_ (hsub hin)
      apply mem_take_of_key merged.nodup hentry
      rcases hextends.keys with ⟨others, hkeys⟩
      change contactId ∈ merged.keys.take count
      rw [hkeys, List.take_append]
      apply List.mem_append_left
      rw [List.take_of_length_le]
      · exact hkey
      · unfold Dict.keys
        rw [List.length_map]
        exact hcount
    · exact countP_once merged.nodup hentry (hsub hin)
  have hcases := merge_cases tick loop
  unfold EnqueuedOnce newRoots
  rw [runTick_eq]
  unfold Harmless at hharmless
  generalize (consumed tick loop).mergeDueInternalRoots tick (loop.contexts tick) = result at hcases
  cases hcases with
  | fenced => exact hqueued _ _ (.refl _) rfl
  | raised hactive hfailure =>
      rw [hfailure, hactive] at hharmless
      exact absurd hharmless (by simp [hsize])
  | stopped stop hactive hfailure =>
      rw [hfailure, hactive] at hharmless
      exact absurd hharmless (by simp [hsize])
  | merged => exact hqueued _ _ (merged_extends tick loop _) rfl

/-- A handler that has returned has nothing left. -/
theorem handler_consumed {i : Nat} {due left : Dict String String}
    (hget : loop.handlers[i]? = some due) (hruns : tick.runs i = .returns)
    (hleft : (loop.runTick host tick).handlers[i]? = some left) : left = Dict.empty := by
  rw [handlers_runTick] at hleft
  unfold consumed at hleft
  simp only at hleft
  rw [List.getElem?_mapIdx, hget, hruns] at hleft
  cases hleft
  rfl

/-- In a tick that is not harmless a contact with contexts of handlers is not reached. -/
theorem contact_lost (hharm : ¬ Harmless tick loop) :
    ∃ contactId ∈ (loop.contexts tick).keys,
      contactId ∉ (newRoots host tick loop).map Prod.fst := by
  have hfirst : (loop.contexts tick).size ≠ 0 →
      ∃ contactId ∈ (loop.contexts tick).keys, contactId ∉ ([] : List String) := by
    intro hsize
    have hlength : 0 < (loop.contexts tick).keys.length := by
      unfold Dict.keys
      rw [List.length_map]
      exact Nat.pos_of_ne_zero hsize
    exact ⟨_, List.getElem_mem hlength, List.not_mem_nil⟩
  -- The contact after the last that is reached, in the order of the merge.
  have hnext : ∀ (index : Nat) (stored : Bool) (merged : Dict String (List String))
      (claims : EventLoop), tick.failure = .submit index stored →
        Extends (loop.contexts tick) merged → claims.submitted = loop.submitted →
          ∃ contactId ∈ (loop.contexts tick).keys,
            contactId ∉ ((claims.submit host tick merged.entries).submitted.drop
              loop.submitted.length).map Prod.fst := by
    intro index stored merged claims hfailure hextends hsubmitted
    have hlength : index + stored.toNat < (loop.contexts tick).keys.length := by
      unfold Harmless at hharm
      rw [hfailure] at hharm
      unfold Dict.keys
      rw [List.length_map]
      exact Nat.lt_of_not_le hharm
    refine ⟨_, List.getElem_mem hlength, ?_⟩
    rw [(submit_submits merged claims).1, hsubmitted, List.drop_left, hfailure]
    simp only [reached, Failure.reaches, Nat.sub_zero]
    rcases hextends.keys with ⟨others, hkeys⟩
    have hnodup : merged.keys.Nodup := merged.nodup
    rw [List.map_take]
    change _ ∉ merged.keys.take (index + stored.toNat)
    rw [hkeys] at hnodup ⊢
    rw [List.take_append_of_le_length (Nat.le_of_lt hlength)]
    intro hin
    rw [List.nodup_append] at hnodup
    rw [List.mem_take_iff_getElem] at hin
    rcases hin with ⟨j, hj, hsame⟩
    have := (List.Nodup.getElem_inj_iff hnodup.1).mp hsame
    omega
  have hcases := merge_cases tick loop
  unfold newRoots
  rw [runTick_eq]
  generalize (consumed tick loop).mergeDueInternalRoots tick (loop.contexts tick) = result at hcases
  cases hcases with
  | fenced hactive =>
      cases hfailure : tick.failure with
      | submit index stored => exact hnext index stored _ _ hfailure (.refl _) rfl
      | none | parkedClaim | reviewClaim =>
          exfalso
          apply hharm
          unfold Harmless
          simp [hfailure, hactive]
  | raised hactive hfailure =>
      simp only [consumed, List.drop_length, List.map_nil]
      apply hfirst
      intro hzero
      apply hharm
      unfold Harmless
      simp [hfailure, hzero]
  | stopped stop hactive hfailure =>
      simp only [consumed, List.drop_length, List.map_nil]
      apply hfirst
      intro hzero
      apply hharm
      unfold Harmless
      simp [hfailure, hzero]
  | merged hactive hparked hreviews =>
      cases hfailure : tick.failure with
      | submit index stored =>
          exact hnext index stored _ _ hfailure (merged_extends tick loop _) rfl
      | none =>
          exfalso
          apply hharm
          unfold Harmless
          simp [hfailure]
      | parkedClaim => exact absurd hfailure hparked
      | reviewClaim stop => exact absurd hfailure (hreviews stop)

/-- Nothing is lost exactly when no exception comes before the last contact of the handlers
is queued: the claimed roots stay with their source, and the contexts do not. -/
theorem tick_law (host : Host) (tick : Tick) (loop : EventLoop) :
    TickLaw host tick loop ↔ Harmless tick loop := by
  constructor
  · intro hlaw
    by_contra hharm
    rcases @contact_lost host _ _ hharm with ⟨contactId, hkey, hlost⟩
    rcases addContexts_from hkey with hempty | ⟨context, hmem, hcontext⟩
    · cases hempty
    rcases mem_returned.mp hmem with ⟨i, due, hget, hruns, hdue⟩
    rcases hlaw.returned i due contactId context hget hruns hdue hcontext with
      honce | ⟨left, hleft, hstill⟩
    · unfold EnqueuedOnce at honce
      rw [countP_absent hlost] at honce
      cases honce
    · rw [handler_consumed hget hruns hleft] at hstill
      cases hstill
  · intro hharmless
    constructor
    · intro i due contactId context hget hruns hdue hcontext
      left
      apply returned_runTick hharmless _ hcontext
      exact mem_returned.mpr ⟨i, due, hget, hruns, hdue⟩
    · intro root hmem
      exact .inr (parked_runTick hmem)
    · intro root hmem
      exact reviews_runTick hmem

/-- A cron of one contact and a worker of another have something to say. -/
def twoDue : EventLoop where
  handlers := [Dict.empty.set "c1" "Daily report is due.", Dict.empty.set "c2" "Worker done."]
  queued := .empty
  lifecycles := .empty
  maintenance := Maintenance.defaultState
  submitted := []

/-- The handlers return, and the claim of the parked roots raises. -/
def raisingTick : Tick where
  runs := fun _ => .returns
  maintenanceActive := false
  process := ⟨"p1", 1, fun _ => true⟩
  busy := fun _ => false
  now := 60
  admits := fun _ => true
  failure := .parkedClaim

/-- Neither context is queued, and no handler has it still. -/
theorem contexts_lost : ¬ TickLaw Maintenance.countingHost raisingTick twoDue := by
  intro hlaw
  rcases hlaw.returned 0 (Dict.empty.set "c1" "Daily report is due.") "c1" "Daily report is due."
    rfl rfl (by decide) (by decide) with honce | ⟨left, hleft, hstill⟩
  · unfold EnqueuedOnce at honce
    revert honce
    decide +kernel
  · have hnone : left = Dict.empty := Option.some.inj (hleft.symm.trans rfl)
    rw [hnone] at hstill
    cases hstill

end Loop
end Stemcell
