import Stemcell.Lib.DictOrder
import Stemcell.Lib.Lists
import Mathlib.Data.List.Induction
import Mathlib.Data.String.Basic
import Std.Data.String.ToNat

/-!
# Activity frames

Each item of a provider has a frame in the activity of its contact.  The frame keeps its id while
what it shows changes, and its revision goes up with each change.  The table of frames belongs to one
group, holds 500 frames, and is stored with sorted keys, so that the first keys in order go first.

Main results:

- Definition `activityFrameIdentity`: the frame of a call, and the table that it leaves.
- Theorem `frames_law_iff`: exactly when the revisions of a run are stable and monotone.

Current gaps:

- Frames and numbers that are malformed, and the other operations on an activity.
-/

namespace Stemcell
namespace WorkUpdates

open Lib (Dict)

/-! ## The table -/

/-- The digest of `_stable_id`: the first half of a SHA-256 in hexadecimal digits. -/
structure FrameEnv where
  digest : String → String

section Table

variable (env : FrameEnv)

/-- `_stable_id` with a prefix that is a safe fragment. -/
def stableId (kind : String) (parts : List String) : String :=
  kind ++ ":" ++ env.digest (String.intercalate "\x1f" parts)

def activityFrameId (groupId key : String) : String :=
  stableId env "activity" [groupId, key]

def providerFrameKey (frameKey : String) : String :=
  stableId env "frame-key" [frameKey]

structure ActivityFrame where
  frameId : String
  revision : ℕ
  fingerprint : String
deriving DecidableEq, Repr

/-- The activity of a contact.  Each frame has the id that belongs to its key. -/
structure Activity where
  groupId : Option String
  sequence : ℕ
  frames : Dict String ActivityFrame
  named : ∀ group key frame, groupId = some group → frames.get? key = some frame →
    frame.frameId = activityFrameId env group key

/-- The arguments of a call for a contact. -/
structure FrameCall where
  groupId : String
  frameKey : String
  fingerprint : String
deriving DecidableEq, Repr

def maxFrames : ℕ := 500

end Table

section Identity

variable {env : FrameEnv}

/-- The activity of the group: another group starts afresh. -/
def Activity.openedFor (activity : Activity env) (groupId : String) : Activity env :=
  if activity.groupId = some groupId then activity
  else
    { groupId := some groupId
      sequence := 0
      frames := Dict.empty
      named := by
        intro group key frame _ hframe
        rw [Dict.get?_empty] at hframe
        cases hframe }

/-- The key of the frame, in an activity of its group. -/
def Activity.keyFor (activity : Activity env) (call : FrameCall) : String :=
  if call.frameKey = "" then "sequence:" ++ toString (activity.sequence + 1)
  else providerFrameKey env call.frameKey

/-- The frame that answers a call. -/
def answerFrame (env : FrameEnv) (call : FrameCall) (key : String) :
    Option ActivityFrame → ActivityFrame
  | none => ⟨activityFrameId env call.groupId key, 0, call.fingerprint⟩
  | some frame =>
      if call.fingerprint ≠ "" ∧ frame.fingerprint = call.fingerprint then frame
      else { frame with revision := frame.revision + 1, fingerprint := call.fingerprint }

/-- Over the limit, the first keys go, but not the one just used. -/
def evictFrames (frames : Dict String ActivityFrame) (key : String) : Dict String ActivityFrame :=
  let stale := frames.keys.take (frames.size - maxFrames)
  frames.filter fun other _ => decide (other = key ∨ other ∉ stale)

theorem get?_evictFrames {frames : Dict String ActivityFrame} {key other : String}
    {frame : ActivityFrame} (h : (evictFrames frames key).get? other = some frame) :
    frames.get? other = some frame :=
  ((Dict.get?_filter_eq_some_iff _ _ _ _).mp h).1

theorem frameId_answerFrame {activity : Activity env} {call : FrameCall} {key : String}
    (hgroup : activity.groupId = some call.groupId) :
    (answerFrame env call key (activity.frames.get? key)).frameId =
      activityFrameId env call.groupId key := by
  cases hframe : activity.frames.get? key with
  | none => rfl
  | some frame =>
      have hnamed := activity.named call.groupId key frame hgroup hframe
      unfold answerFrame
      dsimp only
      split
      · exact hnamed
      · exact hnamed

theorem groupId_openedFor (activity : Activity env) (groupId : String) :
    (activity.openedFor groupId).groupId = some groupId := by
  unfold Activity.openedFor
  by_cases h : activity.groupId = some groupId
  · rw [if_pos h]
    exact h
  · rw [if_neg h]

/-- The call repeats what the frame shows. -/
def isDuplicate (call : FrameCall) : Option ActivityFrame → Bool
  | none => false
  | some frame => decide (call.fingerprint ≠ "" ∧ frame.fingerprint = call.fingerprint)

/-- `activity_frame_identity`: the id, the revision and whether the call is a duplicate, and the
activity as it is stored. -/
def activityFrameIdentity (activity : Activity env) (call : FrameCall) :
    (String × ℕ × Bool) × Activity env :=
  let opened := activity.openedFor call.groupId
  let key := opened.keyFor call
  let frame := answerFrame env call key (opened.frames.get? key)
  ((frame.frameId, frame.revision, isDuplicate call (opened.frames.get? key)),
    { groupId := some call.groupId
      sequence := if call.frameKey = "" then opened.sequence + 1 else opened.sequence
      frames := (evictFrames (opened.frames.set key frame) key).sortKeys
      named := by
        intro group other found hgroup hfound
        cases hgroup
        rw [Dict.get?_sortKeys] at hfound
        have hset := get?_evictFrames hfound
        rw [Dict.get?_set] at hset
        by_cases hkey : key = other
        · rw [if_pos hkey, Option.some.injEq] at hset
          rw [← hset, ← hkey]
          exact frameId_answerFrame (groupId_openedFor activity call.groupId)
        · rw [if_neg hkey] at hset
          exact opened.named call.groupId other found
            (groupId_openedFor activity call.groupId) hset })

end Identity

/-! ## Runs -/

/-- What a call was issued. -/
structure Issued where
  groupId : String
  key : String
  fingerprint : String
  frameId : String
  revision : ℕ
deriving DecidableEq, Repr

/-- The activity of a contact, and what its calls were issued so far. -/
structure FrameWorld (env : FrameEnv) where
  activity : Activity env
  history : List Issued

section Runs

variable {env : FrameEnv}

/-- The contact has no activity yet. -/
def FrameWorld.initial (env : FrameEnv) : FrameWorld env where
  activity :=
    { groupId := none
      sequence := 0
      frames := Dict.empty
      named := by
        intro group key frame hgroup
        cases hgroup }
  history := []

/-- The key of a call. -/
def FrameWorld.keyOf (w : FrameWorld env) (call : FrameCall) : String :=
  (w.activity.openedFor call.groupId).keyFor call

/-- The frame that the table has for a call. -/
def FrameWorld.held (w : FrameWorld env) (call : FrameCall) : Option ActivityFrame :=
  (w.activity.openedFor call.groupId).frames.get? (w.keyOf call)

def FrameWorld.next (w : FrameWorld env) (call : FrameCall) : FrameWorld env :=
  let result := activityFrameIdentity w.activity call
  { activity := result.2
    history := w.history ++
      [{ groupId := call.groupId
         key := w.keyOf call
         fingerprint := call.fingerprint
         frameId := result.1.1
         revision := result.1.2.1 }] }

def FrameWorld.run (w : FrameWorld env) (calls : List FrameCall) : FrameWorld env :=
  calls.foldl FrameWorld.next w

/-- Two issues are for the same key of the same group. -/
def Issued.SameKey (a b : Issued) : Prop :=
  a.groupId = b.groupId ∧ a.key = b.key

/-- Revisions never decrease, change when the fingerprint does, and stand for one fingerprint. -/
structure StableFrames (history : List Issued) : Prop where
  monotone : history.Pairwise fun a b => a.SameKey b → a.revision ≤ b.revision
  changes : ∀ before a between b after, history = before ++ a :: (between ++ b :: after) →
    a.SameKey b → (∀ c ∈ between, ¬ a.SameKey c) → a.fingerprint ≠ b.fingerprint →
      a.revision ≠ b.revision
  faithful : ∀ a ∈ history, ∀ b ∈ history, a.frameId = b.frameId → a.revision = b.revision →
    a.fingerprint = b.fingerprint

/-- The digests of the frames that were issued do not collide. -/
def NoCollision (history : List Issued) : Prop :=
  ∀ a ∈ history, ∀ b ∈ history, a.frameId = b.frameId → a.SameKey b

/-- The last issue for a key. -/
def lastIssue (history : List Issued) (groupId key : String) : Option Issued :=
  (history.filter fun a => decide (a.groupId = groupId ∧ a.key = key)).getLast?

/-- The table still has the frame of a key that was called before, or the call repeats the
fingerprint of a frame that has not changed. -/
def FrameWorld.Keeps (w : FrameWorld env) (call : FrameCall) : Prop :=
  ∀ last, lastIssue w.history call.groupId (w.keyOf call) = some last →
    w.held call ≠ none ∨ (last.revision = 0 ∧ last.fingerprint = call.fingerprint)

end Runs

/-! ## What the table knows of the history -/

section Tracked

variable {env : FrameEnv} {history : List Issued} {groupId key : String} {last added : Issued}

theorem lastIssue_mem (h : lastIssue history groupId key = some last) :
    last ∈ history ∧ last.groupId = groupId ∧ last.key = key := by
  have hmem := List.mem_of_getLast? h
  rw [List.mem_filter, decide_eq_true_iff] at hmem
  exact hmem

theorem lastIssue_eq_none_iff : lastIssue history groupId key = none ↔
    ∀ a ∈ history, ¬ (a.groupId = groupId ∧ a.key = key) := by
  unfold lastIssue
  rw [List.getLast?_eq_none_iff, List.filter_eq_nil_iff]
  simp

theorem lastIssue_append :
    lastIssue (history ++ [added]) groupId key =
      if added.groupId = groupId ∧ added.key = key then some added
      else lastIssue history groupId key := by
  unfold lastIssue
  rw [List.filter_append]
  by_cases h : added.groupId = groupId ∧ added.key = key
  · simp [h]
  · simp [h]

/-- No issue for a key has a higher revision than the last one. -/
theorem revision_le_lastIssue
    (hmono : history.Pairwise fun a b => a.SameKey b → a.revision ≤ b.revision)
    (hlast : lastIssue history groupId key = some last) {a : Issued} (ha : a ∈ history)
    (hkey : a.groupId = groupId ∧ a.key = key) : a.revision ≤ last.revision := by
  rcases lastIssue_mem hlast with ⟨_, hgroup, hlastKey⟩
  have hmem : a ∈ history.filter fun b => decide (b.groupId = groupId ∧ b.key = key) :=
    List.mem_filter.mpr ⟨ha, decide_eq_true hkey⟩
  rcases Lib.eq_or_rel_of_getLast? (hmono.filter _) hlast hmem with rfl | hle
  · exact Nat.le_refl _
  · apply hle
    exact ⟨by rw [hkey.1, hgroup], by rw [hkey.2, hlastKey]⟩

/-- The ids belong to the keys, and the table has each frame as it was last issued. -/
structure Tracked (w : FrameWorld env) : Prop where
  ids : ∀ a ∈ w.history, a.frameId = activityFrameId env a.groupId a.key
  current : ∀ group key frame last, w.activity.groupId = some group →
    w.activity.frames.get? key = some frame → lastIssue w.history group key = some last →
      last.revision = frame.revision ∧ last.fingerprint = frame.fingerprint

theorem Tracked.initial (env : FrameEnv) : Tracked (FrameWorld.initial env) := by
  constructor
  · intro a ha
    cases ha
  · intro group key frame last hgroup
    cases hgroup

/-- The frame held for a call is the last one issued for its key. -/
theorem Tracked.held {w : FrameWorld env} (h : Tracked w) {call : FrameCall}
    {frame : ActivityFrame} (hheld : w.held call = some frame)
    (hlast : lastIssue w.history call.groupId (w.keyOf call) = some last) :
    last.revision = frame.revision ∧ last.fingerprint = frame.fingerprint := by
  unfold FrameWorld.held at hheld
  by_cases hgroup : w.activity.groupId = some call.groupId
  · have hopened : w.activity.openedFor call.groupId = w.activity := if_pos hgroup
    rw [hopened] at hheld
    exact h.current _ _ frame last hgroup hheld hlast
  · have hopened : (w.activity.openedFor call.groupId).frames = Dict.empty := by
      unfold Activity.openedFor
      rw [if_neg hgroup]
    rw [hopened, Dict.get?_empty] at hheld
    cases hheld

/-- What a call is issued. -/
def FrameWorld.issue (w : FrameWorld env) (call : FrameCall) : Issued where
  groupId := call.groupId
  key := w.keyOf call
  fingerprint := call.fingerprint
  frameId := (answerFrame env call (w.keyOf call) (w.held call)).frameId
  revision := (answerFrame env call (w.keyOf call) (w.held call)).revision

theorem history_next (w : FrameWorld env) (call : FrameCall) :
    (w.next call).history = w.history ++ [w.issue call] :=
  rfl

theorem frameId_issue (w : FrameWorld env) (call : FrameCall) :
    (w.issue call).frameId = activityFrameId env call.groupId (w.keyOf call) :=
  frameId_answerFrame (groupId_openedFor w.activity call.groupId)

theorem fingerprint_answerFrame (call : FrameCall) (key : String) (held : Option ActivityFrame) :
    (answerFrame env call key held).fingerprint = call.fingerprint := by
  cases held with
  | none => rfl
  | some frame =>
      unfold answerFrame
      dsimp only
      by_cases hsame : call.fingerprint ≠ "" ∧ frame.fingerprint = call.fingerprint
      · rw [if_pos hsame]
        exact hsame.2
      · rw [if_neg hsame]

theorem Tracked.next {w : FrameWorld env} (h : Tracked w) (call : FrameCall) :
    Tracked (w.next call) := by
  constructor
  · intro a ha
    rw [history_next, List.mem_append, List.mem_singleton] at ha
    rcases ha with hold | rfl
    · exact h.ids a hold
    · exact frameId_issue w call
  · intro group key frame last hgroup hframe hlast
    rw [history_next, lastIssue_append] at hlast
    have hcall : call.groupId = group := Option.some.inj hgroup
    have hget : ((w.activity.openedFor call.groupId).frames.set (w.keyOf call)
        (answerFrame env call (w.keyOf call) (w.held call))).get? key = some frame := by
      change (Dict.sortKeys _).get? key = some frame at hframe
      rw [Dict.get?_sortKeys] at hframe
      exact get?_evictFrames hframe
    rw [Dict.get?_set] at hget
    by_cases hkey : w.keyOf call = key
    · rw [if_pos hkey, Option.some.injEq] at hget
      rw [if_pos ⟨hcall, hkey⟩, Option.some.injEq] at hlast
      rw [← hlast, ← hget]
      exact ⟨rfl, (fingerprint_answerFrame call _ _).symm⟩
    · rw [if_neg hkey] at hget
      have hother : ¬ ((w.issue call).groupId = group ∧ (w.issue call).key = key) :=
        fun hboth => hkey hboth.2
      rw [if_neg hother] at hlast
      by_cases hsame : w.activity.groupId = some call.groupId
      · have hopened : w.activity.openedFor call.groupId = w.activity := if_pos hsame
        rw [hopened] at hget
        exact h.current group key frame last (by rw [hsame, hcall]) hget hlast
      · have hopened : (w.activity.openedFor call.groupId).frames = Dict.empty := by
          unfold Activity.openedFor
          rw [if_neg hsame]
        rw [hopened, Dict.get?_empty] at hget
        cases hget

theorem Tracked.run {w : FrameWorld env} (h : Tracked w) (calls : List FrameCall) :
    Tracked (w.run calls) := by
  induction calls generalizing w with
  | nil => exact h
  | cons call rest ih => exact ih (h.next call)

end Tracked

/-! ## The law -/

section Law

variable {env : FrameEnv} {history : List Issued} {added : Issued}

/-- What the law asks of one more issue. -/
structure Follows (history : List Issued) (issue : Issued) : Prop where
  monotone : ∀ a ∈ history, a.SameKey issue → a.revision ≤ issue.revision
  faithful : ∀ a ∈ history, a.frameId = issue.frameId → a.revision = issue.revision →
    a.fingerprint = issue.fingerprint

/-- Where ids belong to keys, changed fingerprints follow from faithful revisions. -/
theorem stableFrames_iff (hids : ∀ a ∈ history, a.frameId = activityFrameId env a.groupId a.key) :
    StableFrames history ↔
      (history.Pairwise fun a b => a.SameKey b → a.revision ≤ b.revision) ∧
        ∀ a ∈ history, ∀ b ∈ history, a.frameId = b.frameId → a.revision = b.revision →
          a.fingerprint = b.fingerprint := by
  constructor
  · intro h
    exact ⟨h.monotone, h.faithful⟩
  · rintro ⟨hmono, hfaithful⟩
    refine ⟨hmono, ?_, hfaithful⟩
    intro before a between b after heq hkey _ hne hrevision
    have ha : a ∈ history := by simp [heq]
    have hb : b ∈ history := by simp [heq]
    have hid : a.frameId = b.frameId := by rw [hids a ha, hids b hb, hkey.1, hkey.2]
    exact hne (hfaithful a ha b hb hid hrevision)

theorem stableFrames_append_iff
    (hids : ∀ a ∈ history ++ [added], a.frameId = activityFrameId env a.groupId a.key) :
    StableFrames (history ++ [added]) ↔ StableFrames history ∧ Follows history added := by
  have hbefore : ∀ a ∈ history, a.frameId = activityFrameId env a.groupId a.key :=
    fun a ha => hids a (List.mem_append_left _ ha)
  rw [stableFrames_iff hids, stableFrames_iff hbefore, List.pairwise_append]
  constructor
  · rintro ⟨⟨hmono, _, hlast⟩, hfaithful⟩
    refine ⟨⟨hmono, ?_⟩, ?_, ?_⟩
    · intro a ha b hb
      exact hfaithful a (List.mem_append_left _ ha) b (List.mem_append_left _ hb)
    · intro a ha
      exact hlast a ha added (List.mem_singleton.mpr rfl)
    · intro a ha
      exact hfaithful a (List.mem_append_left _ ha) added (by simp)
  · rintro ⟨⟨hmono, hfaithful⟩, hfollows⟩
    refine ⟨⟨hmono, List.pairwise_singleton _ _, ?_⟩, ?_⟩
    · intro a ha b hb
      rw [List.mem_singleton.mp hb]
      exact hfollows.monotone a ha
    · intro a ha b hb hid hrevision
      rcases List.mem_append.mp ha with ha | ha
      · rcases List.mem_append.mp hb with hb | hb
        · exact hfaithful a ha b hb hid hrevision
        · rw [List.mem_singleton.mp hb] at hid hrevision ⊢
          exact hfollows.faithful a ha hid hrevision
      · rw [List.mem_singleton.mp ha] at hid hrevision ⊢
        rcases List.mem_append.mp hb with hb | hb
        · exact (hfollows.faithful b hb hid.symm hrevision.symm).symm
        · rw [List.mem_singleton.mp hb]

/-- A call is issued what the law asks exactly if the table keeps what it needs. -/
theorem follows_iff {w : FrameWorld env} (h : Tracked w) (hstable : StableFrames w.history)
    {call : FrameCall} (hdistinct : NoCollision (w.history ++ [w.issue call])) :
    Follows w.history (w.issue call) ↔ w.Keeps call := by
  have hsame : ∀ a ∈ w.history, a.frameId = (w.issue call).frameId → a.SameKey (w.issue call) :=
    fun a ha => hdistinct a (List.mem_append_left _ ha) (w.issue call) (by simp)
  cases hlast : lastIssue w.history call.groupId (w.keyOf call) with
  | none =>
      have hnew := lastIssue_eq_none_iff.mp hlast
      constructor
      · intro _ last hsome
        rw [hlast] at hsome
        cases hsome
      · intro _
        constructor
        · intro a ha hkey
          exact absurd hkey (hnew a ha)
        · intro a ha hid
          exact absurd (hsame a ha hid) (hnew a ha)
  | some last =>
      rcases lastIssue_mem hlast with ⟨hmem, hgroup, hkey⟩
      have hself : last.SameKey (w.issue call) := ⟨hgroup, hkey⟩
      have hid : last.frameId = (w.issue call).frameId := by
        rw [h.ids last hmem, frameId_issue, hgroup, hkey]
      have hbound : ∀ a ∈ w.history, a.SameKey (w.issue call) → a.revision ≤ last.revision :=
        fun a ha hk => revision_le_lastIssue hstable.monotone hlast ha hk
      have hsameRevision : ∀ a ∈ w.history, a.frameId = (w.issue call).frameId →
          a.revision = last.revision → a.fingerprint = last.fingerprint :=
        fun a ha hfid hrev => hstable.faithful a ha last hmem (by rw [hfid, hid]) hrev
      cases hheld : w.held call with
      | none =>
          have hrevision : (w.issue call).revision = 0 := by
            unfold FrameWorld.issue
            rw [hheld]
            rfl
          constructor
          · intro hfollows other hother
            rw [hlast, Option.some.injEq] at hother
            have hle := hfollows.monotone last hmem hself
            have hzero : last.revision = 0 := by omega
            right
            rw [← hother]
            exact ⟨hzero, hfollows.faithful last hmem hid (by rw [hzero, hrevision])⟩
          · intro hkeeps
            rcases hkeeps last hlast with hnone | ⟨hzero, hfingerprint⟩
            · exact absurd hheld hnone
            · constructor
              · intro a ha hk
                have hle := hbound a ha hk
                omega
              · intro a ha hfid hrev
                have hprint := hsameRevision a ha hfid (by omega)
                rw [hprint]
                exact hfingerprint
      | some frame =>
          rcases h.held hheld hlast with ⟨hrev, hprint⟩
          have hkeeps : w.Keeps call := by
            intro other _
            left
            rw [hheld]
            simp
          have hfollows : Follows w.history (w.issue call) := by
            by_cases hdup : call.fingerprint ≠ "" ∧ frame.fingerprint = call.fingerprint
            · have hrevision : (w.issue call).revision = frame.revision := by
                simp [FrameWorld.issue, hheld, answerFrame, hdup.1, hdup.2]
              constructor
              · intro a ha hk
                have hle := hbound a ha hk
                omega
              · intro a ha hfid hr
                rw [hsameRevision a ha hfid (by omega), hprint]
                exact hdup.2
            · have hrevision : (w.issue call).revision = frame.revision + 1 := by
                unfold FrameWorld.issue
                rw [hheld]
                unfold answerFrame
                dsimp only
                rw [if_neg hdup]
              constructor
              · intro a ha hk
                have hle := hbound a ha hk
                omega
              · intro a ha hfid hr
                have hle := hbound a ha (hsame a ha hfid)
                omega
          exact ⟨fun _ => hkeeps, fun _ => hfollows⟩

theorem run_append_singleton (w : FrameWorld env) (calls : List FrameCall) (call : FrameCall) :
    w.run (calls ++ [call]) = (w.run calls).next call := by
  unfold FrameWorld.run
  rw [List.foldl_append]
  rfl

/-- In every run of calls for a contact, the frames are stable and monotone exactly if each call for
a key that was called before finds its frame in the table, or repeats the fingerprint of a frame that
has not changed. -/
theorem frames_law_iff (env : FrameEnv) (calls : List FrameCall)
    (hdistinct : NoCollision ((FrameWorld.initial env).run calls).history) :
    StableFrames ((FrameWorld.initial env).run calls).history ↔
      ∀ before call after, calls = before ++ call :: after →
        ((FrameWorld.initial env).run before).Keeps call := by
  induction calls using List.reverseRecOn with
  | nil =>
      constructor
      · intro _ before call after heq
        simp at heq
      · intro _
        constructor
        · exact List.Pairwise.nil
        · intro before a between b after heq
          simp [FrameWorld.run, FrameWorld.initial] at heq
        · intro a ha
          cases ha
  | append_singleton rest call ih =>
      have htracked := (Tracked.initial env).run rest
      have hids := (htracked.next call).ids
      rw [run_append_singleton, history_next] at hdistinct ⊢
      rw [history_next] at hids
      have hbefore : NoCollision ((FrameWorld.initial env).run rest).history :=
        fun a ha b hb => hdistinct a (List.mem_append_left _ ha) b (List.mem_append_left _ hb)
      rw [stableFrames_append_iff hids, Lib.forall_split_append_singleton
        (P := fun before call => ((FrameWorld.initial env).run before).Keeps call), ih hbefore]
      apply and_congr_right
      intro hkeeps
      exact follows_iff htracked ((ih hbefore).mpr hkeeps) hdistinct

end Law

/-! ## Eviction -/

section Eviction

variable {env : FrameEnv}

def keylessCall (groupId : String) : FrameCall where
  groupId := groupId
  frameKey := ""
  fingerprint := "started"

/-- A table with one frame of a provider and the frames of some calls without a key. -/
structure Filling (w : FrameWorld env) (groupId key : String) (n : ℕ) : Prop where
  group : w.activity.groupId = some groupId
  sequence : w.activity.sequence = n
  size : w.activity.frames.size = n + 1
  mem : key ∈ w.activity.frames.keys
  others : ∀ other ∈ w.activity.frames.keys,
    other = key ∨ ∃ m ≤ n, other = "sequence:" ++ toString m
  sorted : ∃ frames : Dict String ActivityFrame, w.activity.frames = frames.sortKeys

/-- Keys of providers come before the other ones. -/
theorem providerFrameKey_le (frameKey : String) (m : ℕ) :
    providerFrameKey env frameKey < "sequence:" ++ toString m := by
  unfold providerFrameKey stableId
  have hkey : ("frame-key" ++ ":" ++ env.digest (String.intercalate "\x1f" [frameKey])).toList =
      "frame-key:".toList ++ (env.digest (String.intercalate "\x1f" [frameKey])).toList := by
    rw [String.toList_append]
    rfl
  rw [String.lt_iff_toList_lt, hkey, String.toList_append]
  apply List.Lex.rel
  decide

theorem sequenceKey_injective {m n : ℕ}
    (h : "sequence:" ++ toString m = "sequence:" ++ toString n) : m = n := by
  have hlist := congrArg String.toList h
  rw [String.toList_append, String.toList_append] at hlist
  exact Nat.repr_injective (String.ext (List.append_cancel_left hlist))

/-- The next call without a key has a key of its own. -/
theorem Filling.new_key {w : FrameWorld env} {groupId frameKey : String} {n : ℕ}
    (h : Filling w groupId (providerFrameKey env frameKey) n) :
    w.activity.openedFor groupId = w.activity ∧
      w.keyOf (keylessCall groupId) = "sequence:" ++ toString (n + 1) ∧
      "sequence:" ++ toString (n + 1) ∉ w.activity.frames.keys := by
  have hopened : w.activity.openedFor groupId = w.activity := if_pos h.group
  refine ⟨hopened, ?_, ?_⟩
  · unfold FrameWorld.keyOf keylessCall
    dsimp only
    rw [hopened]
    unfold Activity.keyFor
    rw [if_pos rfl, h.sequence]
  · intro hmem
    rcases h.others _ hmem with hkey | ⟨m, hm, hkey⟩
    · exact absurd hkey (ne_of_gt (providerFrameKey_le frameKey (n + 1)))
    · have heq := sequenceKey_injective hkey
      omega

theorem size_set_of_new {frames : Dict String ActivityFrame} {key : String}
    (hnew : key ∉ frames.keys) (frame : ActivityFrame) :
    (frames.set key frame).size = frames.size + 1 := by
  have hkeys := Dict.keys_set frames key frame
  rw [if_neg hnew] at hkeys
  have hlength := congrArg List.length hkeys
  rw [List.length_append, List.length_singleton] at hlength
  simpa [Dict.keys, Dict.size] using hlength

/-- A new key adds a frame, as long as there is room. -/
theorem frames_next (w : FrameWorld env) (call : FrameCall)
    (hnew : w.keyOf call ∉ (w.activity.openedFor call.groupId).frames.keys)
    (hroom : (w.activity.openedFor call.groupId).frames.size + 1 ≤ maxFrames) :
    ∃ frame, (w.next call).activity.frames =
      ((w.activity.openedFor call.groupId).frames.set (w.keyOf call) frame).sortKeys := by
  refine ⟨answerFrame env call (w.keyOf call) (w.held call), ?_⟩
  change (evictFrames ((w.activity.openedFor call.groupId).frames.set (w.keyOf call)
    (answerFrame env call (w.keyOf call) (w.held call))) (w.keyOf call)).sortKeys = _
  congr 1
  unfold evictFrames
  apply Dict.filter_eq_self
  intro other _
  have hzero : (w.activity.openedFor call.groupId).frames.size + 1 - maxFrames = 0 := by omega
  rw [size_set_of_new hnew, hzero]
  simp

/-- A call without a key adds a frame, as long as there is room. -/
theorem Filling.step {w : FrameWorld env} {groupId frameKey : String} {n : ℕ}
    (h : Filling w groupId (providerFrameKey env frameKey) n) (hroom : n + 2 ≤ maxFrames) :
    Filling (w.next (keylessCall groupId)) groupId (providerFrameKey env frameKey) (n + 1) := by
  rcases h.new_key with ⟨hopened, hkey, hnew⟩
  have hframes : ∃ frame, (w.next (keylessCall groupId)).activity.frames =
      (w.activity.frames.set ("sequence:" ++ toString (n + 1)) frame).sortKeys := by
    have hopen : w.activity.openedFor (keylessCall groupId).groupId = w.activity := hopened
    have hnext := frames_next w (keylessCall groupId)
    rw [hopen, hkey, h.size] at hnext
    exact hnext hnew hroom
  rcases hframes with ⟨frame, hframes⟩
  have hkeys : ∀ other, other ∈ (w.next (keylessCall groupId)).activity.frames.keys ↔
      other ∈ w.activity.frames.keys ∨ other = "sequence:" ++ toString (n + 1) := by
    intro other
    rw [hframes, Dict.mem_keys_sortKeys, Dict.keys_set, if_neg hnew, List.mem_append,
      List.mem_singleton]
  constructor
  · rfl
  · change (if (keylessCall groupId).frameKey = "" then (w.activity.openedFor groupId).sequence + 1
      else (w.activity.openedFor groupId).sequence) = n + 1
    have hkeyless : (keylessCall groupId).frameKey = "" := rfl
    rw [if_pos hkeyless, hopened, h.sequence]
  · rw [hframes, Dict.size_sortKeys, size_set_of_new hnew, h.size]
  · exact (hkeys _).mpr (.inl h.mem)
  · intro other hother
    rcases (hkeys other).mp hother with hold | rfl
    · rcases h.others other hold with heq | ⟨m, hm, heq⟩
      · exact .inl heq
      · exact .inr ⟨m, by omega, heq⟩
    · exact .inr ⟨n + 1, Nat.le_refl _, rfl⟩
  · exact ⟨_, hframes⟩

/-- In a full table the frame of the provider is the first one to go. -/
theorem Filling.evicts {w : FrameWorld env} {groupId frameKey : String}
    (h : Filling w groupId (providerFrameKey env frameKey) (maxFrames - 1)) :
    (w.next (keylessCall groupId)).activity.frames.get? (providerFrameKey env frameKey) = none := by
  rcases h.new_key with ⟨hopened, hkey, hnew⟩
  have hfirst : w.activity.frames.keys.head? = some (providerFrameKey env frameKey) := by
    rcases h.sorted with ⟨frames, hframes⟩
    have hmem := h.mem
    have hothers := h.others
    rw [hframes] at hmem hothers ⊢
    apply Dict.head_sortKeys ((Dict.mem_keys_sortKeys frames _).mp hmem)
    intro other hother
    rcases hothers other ((Dict.mem_keys_sortKeys frames _).mpr hother) with rfl | ⟨m, _, rfl⟩
    · exact le_refl _
    · exact le_of_lt (providerFrameKey_le frameKey m)
  cases hgone : (w.next (keylessCall groupId)).activity.frames.get?
      (providerFrameKey env frameKey) with
  | none => rfl
  | some frame =>
      exfalso
      change (evictFrames ((w.activity.openedFor groupId).frames.set
        (w.keyOf (keylessCall groupId)) _) (w.keyOf (keylessCall groupId))).sortKeys.get?
          (providerFrameKey env frameKey) = some frame at hgone
      rw [Dict.get?_sortKeys, hopened, hkey] at hgone
      unfold evictFrames at hgone
      rw [Dict.get?_filter_eq_some_iff, decide_eq_true_iff] at hgone
      rcases hgone.2 with heq | hstale
      · exact absurd heq (ne_of_lt (providerFrameKey_le frameKey (maxFrames - 1 + 1)))
      · apply hstale
        rw [size_set_of_new hnew, h.size, Dict.keys_set, if_neg hnew]
        cases hkeys : w.activity.frames.keys with
        | nil =>
            rw [hkeys] at hfirst
            cases hfirst
        | cons first rest =>
            rw [hkeys, List.head?_cons, Option.some.injEq] at hfirst
            rw [hfirst]
            simp [maxFrames]

/-- The calls of a run: a provider item, calls without a key, and the item again, changed. -/
def evictingCalls : List FrameCall :=
  ⟨"group-1", "item-1", "a"⟩ ::
    (List.replicate maxFrames (keylessCall "group-1") ++ [⟨"group-1", "item-1", "b"⟩])

theorem filling_run {w : FrameWorld env} {groupId frameKey : String}
    (h : Filling w groupId (providerFrameKey env frameKey) 0) (n : ℕ) (hroom : n + 1 ≤ maxFrames) :
    Filling (w.run (List.replicate n (keylessCall groupId))) groupId
      (providerFrameKey env frameKey) n := by
  induction n with
  | zero => exact h
  | succ n ih =>
      rw [List.replicate_succ', run_append_singleton]
      exact (ih (by omega)).step hroom

theorem history_run (w : FrameWorld env) (calls : List FrameCall) :
    w.history <+: (w.run calls).history := by
  induction calls generalizing w with
  | nil => exact List.prefix_rfl
  | cons call rest ih => exact (List.prefix_append w.history _).trans (ih (w.next call))

theorem run_cons (w : FrameWorld env) (call : FrameCall) (calls : List FrameCall) :
    w.run (call :: calls) = (w.next call).run calls :=
  rfl

theorem groupId_next (w : FrameWorld env) (call : FrameCall) :
    (w.next call).activity.groupId = some call.groupId :=
  rfl

theorem replicate_pred {α : Type} {n : ℕ} (h : 0 < n) (a : α) :
    List.replicate n a = List.replicate (n - 1) a ++ [a] := by
  cases n with
  | zero => cases h
  | succ n => rw [Nat.add_sub_cancel, List.replicate_succ']

theorem filling_first (env : FrameEnv) :
    Filling ((FrameWorld.initial env).next ⟨"group-1", "item-1", "a"⟩) "group-1"
      (providerFrameKey env "item-1") 0 := by
  have hkey : (FrameWorld.initial env).keyOf ⟨"group-1", "item-1", "a"⟩ =
      providerFrameKey env "item-1" := by
    unfold FrameWorld.keyOf Activity.keyFor
    simp
  have hopened : ((FrameWorld.initial env).activity.openedFor "group-1").frames = Dict.empty := rfl
  have hnew : providerFrameKey env "item-1" ∉
      (Dict.empty : Dict String ActivityFrame).keys := List.not_mem_nil
  have hroom : (Dict.empty : Dict String ActivityFrame).size + 1 ≤ maxFrames := by decide
  have hnext := frames_next (FrameWorld.initial env) ⟨"group-1", "item-1", "a"⟩
  rw [hkey, hopened] at hnext
  specialize hnext hnew hroom
  rcases hnext with ⟨frame, hframes⟩
  have hkeys : ∀ other, other ∈ ((FrameWorld.initial env).next
      ⟨"group-1", "item-1", "a"⟩).activity.frames.keys ↔ other = providerFrameKey env "item-1" := by
    intro other
    rw [hframes, Dict.mem_keys_sortKeys, Dict.keys_set, if_neg hnew]
    exact List.mem_singleton
  constructor
  · rfl
  · rfl
  · rw [hframes, Dict.size_sortKeys, size_set_of_new hnew]
    rfl
  · exact (hkeys _).mpr rfl
  · intro other hother
    exact .inl ((hkeys other).mp hother)
  · exact ⟨_, hframes⟩

/-- Whatever the digests are, the revision of the item is issued a second time. -/
theorem not_stable_of_eviction (env : FrameEnv) :
    ¬ StableFrames ((FrameWorld.initial env).run evictingCalls).history := by
  have hfull := filling_run (filling_first env) (maxFrames - 1) (by decide)
  have hgone := hfull.evicts
  have hbefore : (FrameWorld.initial env).run
      (⟨"group-1", "item-1", "a"⟩ :: List.replicate maxFrames (keylessCall "group-1")) =
      (((FrameWorld.initial env).next ⟨"group-1", "item-1", "a"⟩).run
        (List.replicate (maxFrames - 1) (keylessCall "group-1"))).next (keylessCall "group-1") := by
    rw [run_cons, replicate_pred (by decide : 0 < maxFrames), run_append_singleton]
  have hrun : (FrameWorld.initial env).run evictingCalls =
      ((FrameWorld.initial env).run (⟨"group-1", "item-1", "a"⟩ ::
        List.replicate maxFrames (keylessCall "group-1"))).next ⟨"group-1", "item-1", "b"⟩ := by
    rw [evictingCalls, ← List.cons_append, run_append_singleton]
  have hgroup : ((FrameWorld.initial env).run (⟨"group-1", "item-1", "a"⟩ ::
      List.replicate maxFrames (keylessCall "group-1"))).activity.groupId = some "group-1" := by
    rw [hbefore]
    exact groupId_next _ _
  have hold : (FrameWorld.initial env).issue ⟨"group-1", "item-1", "a"⟩ ∈
      ((FrameWorld.initial env).run (⟨"group-1", "item-1", "a"⟩ ::
        List.replicate maxFrames (keylessCall "group-1"))).history := by
    rw [run_cons]
    apply (history_run ((FrameWorld.initial env).next ⟨"group-1", "item-1", "a"⟩) _).subset
    exact List.mem_singleton.mpr rfl
  rw [← hbefore] at hgone
  generalize hw : (FrameWorld.initial env).run (⟨"group-1", "item-1", "a"⟩ ::
    List.replicate maxFrames (keylessCall "group-1")) = w at hgone hrun hgroup hold
  intro hstable
  have hopened : w.activity.openedFor "group-1" = w.activity := if_pos hgroup
  have hkey : w.keyOf ⟨"group-1", "item-1", "b"⟩ = providerFrameKey env "item-1" := by
    unfold FrameWorld.keyOf Activity.keyFor
    simp
  have hnone : w.held ⟨"group-1", "item-1", "b"⟩ = none := by
    unfold FrameWorld.held
    rw [hkey]
    dsimp only
    rw [hopened]
    exact hgone
  have hnew : (w.issue ⟨"group-1", "item-1", "b"⟩).revision = 0 := by
    unfold FrameWorld.issue
    rw [hnone]
    rfl
  have hid : (w.issue ⟨"group-1", "item-1", "b"⟩).frameId =
      activityFrameId env "group-1" (providerFrameKey env "item-1") := by
    rw [frameId_issue, hkey]
  rw [hrun, history_next] at hstable
  have hprint := hstable.faithful _ (List.mem_append_left _ hold)
    (w.issue ⟨"group-1", "item-1", "b"⟩) (by simp) (by rw [hid]; rfl) (by rw [hnew]; rfl)
  have hdifferent : ("a" : String) ≠ "b" := by decide
  exact hdifferent hprint

/-- The digests of one item and its frame. -/
def itemDigests : FrameEnv where
  digest text :=
    if text = "item-1" then "59908df50572502ceeabbcc6"
    else if text = "group-1\x1fframe-key:59908df50572502ceeabbcc6" then "840f6dad49b99c49d89ad51d"
    else if text = "group-1\x1fsequence:1" then "bc00995f065bf441728ad6ea"
    else text

theorem evicted_item_reissued :
    ¬ StableFrames ((FrameWorld.initial itemDigests).run evictingCalls).history :=
  not_stable_of_eviction itemDigests

/-- An item that changes, and a call without a key. -/
def changingCalls : List FrameCall :=
  [⟨"group-1", "item-1", "a"⟩, keylessCall "group-1", ⟨"group-1", "item-1", "b"⟩]

theorem frames_law_item :
    StableFrames ((FrameWorld.initial itemDigests).run changingCalls).history ↔
      ∀ before call after, changingCalls = before ++ call :: after →
        ((FrameWorld.initial itemDigests).run before).Keeps call := by
  apply frames_law_iff
  unfold NoCollision Issued.SameKey
  decide +kernel

end Eviction

end WorkUpdates
end Stemcell
