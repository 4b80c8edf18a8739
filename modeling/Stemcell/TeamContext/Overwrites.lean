import Stemcell.TeamContext.Sync

/-!
# Neither side is silently overwritten

A download replaces the file only when the file held what a base revision holds, and an
upload that overrides nothing replaces only a revision with the content of the base.  The
second holds in every run.  The first needs that no edit of the file falls between the
look of a sync and its write: the sync checks again what Glass has, but not the file.
Digests are taken to differ where contents differ.

Main results:

- Theorem `inv_step`: every step keeps what a sync has found out.
- Theorem `team_law`: the law of the undisturbed runs, and what a disturbed download loses.
- Theorem `draft_overwritten`: a run in which a draft is lost.
-/

namespace Stemcell
namespace TeamContext

open Lib

variable (digest : String → String)

/-! ## Runs -/

/-- The file, its recorded base and Glass agree. -/
structure Synchronized (d : Team) (remote : Remote) : Prop where
  current : d.current = some remote
  file : d.file = some (.text remote.content)
  own : d.saved.own = setOwnBase (remote.entry digest)
  context : ∀ entry, d.saved.context = some (some entry) → entry = remote.entry digest
  idle : d.sync = none

/-- Edits of the file, other writers, ticks, reconciliations and explicit updates in any
order, from a synchronized state. -/
def team : TransitionSystem Team TeamEvent where
  init d := ∃ remote, Synchronized digest d remote
  step d e d' := d.next digest e = some d'

/-- The sync has looked at the file, and may still write what it downloads over it. -/
def Stage.holdsLook : Stage → Bool
  | .absent _ => true
  | .looked _ => true
  | .refetching _ _ => true
  | .writing _ _ => true
  | _ => false

/-- No edit of the file falls between the look of a sync and its write. -/
def Undisturbed (d : Team) : TeamEvent → Prop
  | .editFile _ => ∀ sync, d.sync = some sync → sync.stage.holdsLook = false
  | _ => True

/-- A download replaces the content of a base. -/
def DownloadsKnown (d : Team) : Prop :=
  ∀ d', d.next digest .write = some d' → ∀ file, d.file = some file →
    ∃ sync base content, d.sync = some sync ∧ sync.memory.own.base = some base ∧
      d.glass[base.revision]? = some content ∧ file = .text content

/-- An upload that overrides nothing replaces a revision with the content of the base. -/
def UploadsBased (d : Team) : Prop :=
  ∀ answered reports keepsRevision d',
    d.next digest (.put answered reports keepsRevision) = some d' → d'.glass ≠ d.glass →
    ∀ sync content expected, d.sync = some sync →
      sync.stage = .uploading content expected false →
      ∃ base replaced, sync.memory.own.base = some base ∧
        d.glass[base.revision]? = some replaced ∧ d.glass.getLast? = some replaced

/-- Neither side is silently overwritten. -/
structure TeamLaw (d : Team) : Prop where
  downloads : DownloadsKnown digest d
  uploads : UploadsBased digest d

/-! ## What a sync has found out -/

/-- The entry describes a revision that Glass has or had. -/
def OnGlass (glass : List String) (entry : Entry) : Prop :=
  ∃ content, glass[entry.revision]? = some content ∧ entry.sha256 = digest content

/-- A recorded state describes revisions of Glass. -/
structure Truthful (glass : List String) (memory : Memory) : Prop where
  base : ∃ entry, memory.own.base = some entry ∧ OnGlass digest glass entry
  context : ∀ entry, memory.context = some (some entry) → OnGlass digest glass entry

/-- The base has the digest of this content. -/
def BasedOn (own : Own) (content : String) : Prop :=
  ∃ base, own.base = some base ∧ base.sha256 = digest content

/-- What is true at each stage of a sync.  What was seen of the file is still there as
long as the run is quiet. -/
def StageTruth (quiet : Prop) (glass : List String) (file : Option OwnFile) (own : Own) :
    Stage → Prop
  | .looking entry => ∀ known, entry = some known → OnGlass digest glass known
  | .absent _ => quiet → file = none
  | .looked content => quiet → file = some (.text content)
  | .refetching content entry =>
      (quiet → file = some (.text content)) ∧ BasedOn digest own content ∧
        OnGlass digest glass entry
  | .writing seen remote =>
      (quiet → file = seen.map .text) ∧ (∀ content, seen = some content → BasedOn digest own content) ∧
        glass[remote.revision]? = some remote.content
  | .uploading _ expected overrides =>
      overrides = false → ∃ content, BasedOn digest own content ∧ glass[expected]? = some content
  | .unbased _ => False
  | _ => True

/-- The invariant of a run, quiet or not. -/
structure Inv (quiet : Prop) (d : Team) : Prop where
  glass : d.glass ≠ []
  saved : Truthful digest d.glass d.saved
  memory : ∀ sync, d.sync = some sync → Truthful digest d.glass sync.memory
  stage : ∀ sync, d.sync = some sync →
    StageTruth digest quiet d.glass d.file sync.memory.own sync.stage

variable {digest} {quiet : Prop} {d d' : Team} {sync : Sync} {glass glass' : List String}
  {entry : Entry} {memory : Memory} {own : Own} {content : String} {remote : Remote} {e : TeamEvent}

theorem current_revision (h : d.current = some remote) :
    d.glass[remote.revision]? = some remote.content ∧ d.glass.getLast? = some remote.content ∧
      remote.revision + 1 = d.glass.length := by
  unfold Team.current at h
  rw [Option.map_eq_some_iff] at h
  rcases h with ⟨last, hlast, rfl⟩
  have hne : d.glass ≠ [] := by
    intro hempty
    rw [hempty] at hlast
    cases hlast
  have hpos := List.length_pos_of_ne_nil hne
  refine ⟨?_, hlast, ?_⟩
  · rw [← List.getLast?_eq_getElem?]
    exact hlast
  · simp only
    omega

theorem OnGlass.grows (h : OnGlass digest glass entry) (hgrows : ∃ more, glass' = glass ++ more) :
    OnGlass digest glass' entry := by
  rcases h with ⟨content, hget, hdigest⟩
  rcases hgrows with ⟨more, rfl⟩
  refine ⟨content, ?_, hdigest⟩
  rw [List.getElem?_append_left]
  · exact hget
  · exact (List.getElem?_eq_some_iff.mp hget).1

theorem Truthful.grows (h : Truthful digest glass memory)
    (hgrows : ∃ more, glass' = glass ++ more) : Truthful digest glass' memory := by
  rcases h.base with ⟨entry, hbase, hon⟩
  exact ⟨⟨entry, hbase, hon.grows hgrows⟩, fun known hknown => (h.context known hknown).grows hgrows⟩

theorem StageTruth.grows {file : Option OwnFile} {stage : Stage}
    (h : StageTruth digest quiet glass file own stage) (hgrows : ∃ more, glass' = glass ++ more) :
    StageTruth digest quiet glass' file own stage := by
  have hkept : ∀ {n : Nat} {text : String}, glass[n]? = some text → glass'[n]? = some text := by
    intro n text hget
    rcases hgrows with ⟨more, rfl⟩
    rw [List.getElem?_append_left]
    · exact hget
    · exact (List.getElem?_eq_some_iff.mp hget).1
  cases stage with
  | looking entry => exact fun known hknown => (h known hknown).grows hgrows
  | refetching text entry => exact ⟨h.1, h.2.1, h.2.2.grows hgrows⟩
  | writing seen remote => exact ⟨h.1, h.2.1, hkept h.2.2⟩
  | uploading text expected overrides =>
      intro hfalse
      rcases h hfalse with ⟨replaced, hbased, hget⟩
      exact ⟨replaced, hbased, hkept hget⟩
  | _ => exact h

theorem onGlass_entry (h : d.current = some remote) :
    OnGlass digest d.glass (remote.entry digest) :=
  ⟨remote.content, (current_revision h).1, rfl⟩

/-- A record whose base describes a revision of Glass. -/
theorem Truthful.settles (h : Truthful digest glass memory)
    (hbase : ∃ entry, own.base = some entry ∧ OnGlass digest glass entry) :
    Truthful digest glass { memory with own := own } :=
  ⟨hbase, h.context⟩

theorem Truthful.setBase (h : Truthful digest glass memory) (hentry : OnGlass digest glass entry) :
    Truthful digest glass { memory with own := setOwnBase entry } :=
  h.settles ⟨entry, rfl, hentry⟩

/-! ## Decisions -/

/-- What a decision of a sync rests on. -/
inductive DecisionTruth (digest : String → String) (glass : List String) (own : Own)
    (content : String) (remote : Entry) : Decision → Prop
  | settles (own' : Own) (h : ∃ base, own'.base = some base ∧ OnGlass digest glass base) :
      DecisionTruth digest glass own content remote (.settles own')
  | uploads (h : ∃ base, own.base = some base ∧ base.sha256 = remote.sha256) :
      DecisionTruth digest glass own content remote (.uploads remote.revision)
  | downloads (h : BasedOn digest own content) :
      DecisionTruth digest glass own content remote .downloads

theorem markOwnConflict_base (own : Own) (pending : String) (actual : Option Nat)
    (remoteSha256 : String) : (markOwnConflict own pending actual remoteSha256).base = own.base :=
  rfl

theorem syncOwn_truth (hbase : ∃ base, own.base = some base ∧ OnGlass digest glass base)
    (hremote : OnGlass digest glass entry) :
    DecisionTruth digest glass own content entry (syncOwn digest own content entry) := by
  rcases hbase with ⟨base, hown, hon⟩
  have hkeeps : ∀ own' : Own, own'.base = own.base →
      DecisionTruth digest glass own content entry (.settles own') :=
    fun own' hsame => .settles own' ⟨base, hsame.trans hown, hon⟩
  have hsets : DecisionTruth digest glass own content entry (.settles (setOwnBase entry)) :=
    .settles _ ⟨entry, rfl, hremote⟩
  unfold syncOwn
  simp only
  split
  · split
    · exact hsets
    · exact hkeeps _ rfl
  · rw [hown]
    simp only
    split
    · exact hsets
    · split
      · rename_i hdown
        exact .downloads ⟨base, hown, hdown.1.symm⟩
      · split
        · rename_i hup
          exact .uploads ⟨base, hown, hup.2.symm⟩
        · split
          · exact hsets
          · exact hkeeps _ hown.symm

/-! ## Steps -/

/-- What a step of a sync leaves behind. -/
structure SyncTruth (digest : String → String) (quiet : Prop) (d : Team) (sync : Sync) : Prop where
  memory : Truthful digest d.glass sync.memory
  stage : StageTruth digest quiet d.glass d.file sync.memory.own sync.stage

theorem Inv.holds (h : Inv digest quiet d) (hsync : SyncTruth digest quiet d sync) :
    Inv digest quiet (d.holds sync) := by
  refine ⟨h.glass, h.saved, ?_, ?_⟩
  · intro held hsome
    cases hsome
    exact hsync.memory
  · intro held hsome
    cases hsome
    exact hsync.stage

theorem SyncTruth.settles (h : Truthful digest d.glass sync.memory)
    (hbase : ∃ base, own.base = some base ∧ OnGlass digest d.glass base) :
    SyncTruth digest quiet d (sync.settles own) :=
  ⟨h.settles hbase, trivial⟩

theorem SyncTruth.finished (h : Truthful digest d.glass sync.memory) :
    SyncTruth digest quiet d (sync.goes .finished) :=
  ⟨h, trivial⟩

theorem SyncTruth.raises (h : Truthful digest d.glass sync.memory) :
    SyncTruth digest quiet d (sync.raises digest) := by
  unfold Sync.raises
  cases sync.edit with
  | none => exact .finished h
  | some content =>
      simp only
      split
      · exact .finished h
      · exact .settles h h.base

/-- A decision is carried out on what it rests on. -/
theorem SyncTruth.decides (h : Truthful digest d.glass sync.memory)
    (hentry : OnGlass digest d.glass entry)
    {download : Stage} (hdownload : BasedOn digest sync.memory.own content →
      StageTruth digest quiet d.glass d.file sync.memory.own download) :
    SyncTruth digest quiet d (sync.decides content (syncOwn digest sync.memory.own content entry)
      download) := by
  have htruth := @syncOwn_truth digest d.glass entry sync.memory.own content h.base hentry
  generalize syncOwn digest sync.memory.own content entry = decision at htruth
  cases htruth with
  | settles own' hbase => exact .settles h hbase
  | uploads hbase =>
      refine ⟨h, fun _ => ?_⟩
      rcases hbase with ⟨base, hbase, hsame⟩
      rcases hentry with ⟨replaced, hget, hreplaced⟩
      exact ⟨replaced, ⟨base, hbase, hsame.trans hreplaced⟩, hget⟩
  | downloads hbased => exact ⟨h, hdownload hbased⟩

theorem look_inv (h : Inv digest quiet d) (hsync : d.sync = some sync)
    (hnext : d.look digest sync = some d') : Inv digest quiet d' := by
  have hmemory := h.memory sync hsync
  have hstage := h.stage sync hsync
  unfold Team.look at hnext
  split at hnext
  swap
  · cases hnext
  rename_i entry hlooking
  rw [hlooking] at hstage
  split at hnext
  · rename_i hfile
    cases hnext
    exact h.holds ⟨hmemory, fun _ => hfile⟩
  rename_i file hfile
  split at hnext
  · cases hnext
    exact h.holds (.settles hmemory hmemory.base)
  rename_i content hread
  have hcontent : d.file = some (.text content) := by
    rw [hfile]
    cases file with
    | text text =>
        unfold OwnFile.read at hread
        simp only at hread
        split at hread
        · cases hread
          rfl
        · cases hread
    | unreadable => cases hread
  split at hnext
  · cases hnext
    exact h.holds ⟨hmemory, fun _ => hcontent⟩
  · cases hnext
    apply h.holds
    exact .decides hmemory (hstage _ rfl)
      fun hbased => ⟨fun _ => hcontent, hbased, hstage _ rfl⟩

theorem failed_inv {after : Sync} (h : Inv digest quiet d) (hsync : d.sync = some sync)
    (hfailed : Team.failed digest sync = some after) : Inv digest quiet (d.holds after) := by
  have hmemory := h.memory sync hsync
  unfold Team.failed at hfailed
  split at hfailed
  · cases hfailed
    exact h.holds (.settles hmemory hmemory.base)
  · cases hfailed
  · cases hfailed
    exact h.holds (.raises hmemory)

theorem fetched_inv {after : Sync} (h : Inv digest quiet d)
    (hsync : d.sync = some sync) (hcurrent : d.current = some remote)
    (hfetched : Team.fetched digest sync remote = some after) : Inv digest quiet (d.holds after) := by
  have hmemory := h.memory sync hsync
  have hstage := h.stage sync hsync
  have hentry := @onGlass_entry digest d remote hcurrent
  have hsets : SyncTruth digest quiet d (sync.settles (setOwnBase (remote.entry digest))) :=
    .settles hmemory ⟨_, rfl, hentry⟩
  have hmarks : ∀ pending actual sha, SyncTruth digest quiet d
      (sync.settles (markOwnConflict sync.memory.own pending actual sha)) :=
    fun _ _ _ => .settles hmemory hmemory.base
  apply h.holds
  unfold Team.fetched at hfetched
  simp only at hfetched
  split at hfetched <;> rename_i hat
  · rw [hat] at hstage
    split at hfetched
    · cases hfetched
      exact ⟨hmemory, hstage, (fun _ hsome => nomatch hsome), (current_revision hcurrent).1⟩
    · cases hfetched
      exact .raises hmemory
  · rw [hat] at hstage
    cases hfetched
    apply SyncTruth.decides hmemory hentry
    intro hbased
    refine ⟨hstage, ?_, (current_revision hcurrent).1⟩
    intro content hcontent
    cases hcontent
    exact hbased
  · rw [hat] at hstage
    split at hfetched
    · cases hfetched
      refine ⟨hmemory, hstage.1, ?_, (current_revision hcurrent).1⟩
      intro content hcontent
      cases hcontent
      exact hstage.2.1
    · cases hfetched
      exact .raises hmemory
  · split at hfetched
    · cases hfetched
      exact hsets
    · cases hfetched
      exact hmarks _ _ _
  · split at hfetched
    · cases hfetched
      exact hsets
    · cases hfetched
      exact ⟨hmemory, (fun hfalse => nomatch hfalse)⟩
  · rw [hat] at hstage
    exact hstage.elim
  · cases hfetched

theorem fetch_inv (h : Inv digest quiet d) (hsync : d.sync = some sync)
    (hnext : d.fetch digest sync = some d') : Inv digest quiet d' := by
  unfold Team.fetch at hnext
  split at hnext
  · cases hnext
  rename_i remote hcurrent
  split at hnext
  · rcases Option.map_eq_some_iff.mp hnext with ⟨after, hafter, rfl⟩
    exact fetched_inv h hsync hcurrent hafter
  · rcases Option.map_eq_some_iff.mp hnext with ⟨after, hafter, rfl⟩
    exact failed_inv h hsync hafter

/-- Glass goes on to a further revision. -/
theorem Inv.grows (h : Inv digest quiet d) (content : String) :
    Inv digest quiet { d with glass := d.glass ++ [content] } := by
  refine ⟨?_, h.saved.grows ⟨_, rfl⟩, ?_, ?_⟩
  · simp
  · intro sync hsync
    exact (h.memory sync hsync).grows ⟨_, rfl⟩
  · intro sync hsync
    exact (h.stage sync hsync).grows ⟨_, rfl⟩

theorem put_inv {answered reports keepsRevision : Bool} (h : Inv digest quiet d)
    (hsync : d.sync = some sync)
    (hnext : d.put digest sync answered reports keepsRevision = some d') : Inv digest quiet d' := by
  have hmemory := h.memory sync hsync
  unfold Team.put at hnext
  split at hnext
  swap
  · cases hnext
  rename_i content expected overrides remote hat hcurrent
  split at hnext
  swap
  · split at hnext
    · cases hnext
      exact h.holds ⟨hmemory, trivial⟩
    · cases hnext
      exact h.holds (.raises hmemory)
  simp only at hnext
  cases hsame : keepsRevision && decide (content = remote.content) with
  | true =>
      rw [hsame] at hnext
      rw [Bool.and_eq_true, decide_eq_true_eq] at hsame
      simp only [if_true] at hnext
      split at hnext
      · cases hnext
        refine h.holds (.settles hmemory ⟨_, rfl, ?_⟩)
        exact ⟨remote.content, (current_revision hcurrent).1, by rw [hsame.2]⟩
      · cases hnext
        exact h.holds (.raises hmemory)
  | false =>
      rw [hsame] at hnext
      simp only [Bool.false_eq_true, if_false] at hnext
      have hgrows := h.grows content
      have hmemory' := hgrows.memory sync hsync
      split at hnext
      · cases hnext
        refine hgrows.holds (.settles hmemory' ⟨_, rfl, ?_⟩)
        refine ⟨content, ?_, rfl⟩
        rw [(current_revision hcurrent).2.2]
        exact List.getElem?_concat_length
      · cases hnext
        exact hgrows.holds (.raises hmemory')

theorem write_inv (h : Inv digest quiet d) (hsync : d.sync = some sync)
    (hnext : d.write digest sync = some d') : Inv digest quiet d' := by
  have hmemory := h.memory sync hsync
  have hstage := h.stage sync hsync
  unfold Team.write at hnext
  split at hnext
  swap
  · cases hnext
  rename_i seen remote hat
  rw [hat] at hstage
  cases hnext
  refine ⟨h.glass, h.saved, ?_, ?_⟩
  · intro held hsome
    cases hsome
    exact hmemory.setBase ⟨remote.content, hstage.2.2, rfl⟩
  · intro held hsome
    cases hsome
    exact trivial

theorem Inv.begins (h : Inv digest quiet d) (hsync : SyncTruth digest quiet d sync)
    (hnext : d.begins sync = some d') : Inv digest quiet d' := by
  unfold Team.begins at hnext
  split at hnext
  · cases hnext
    exact h.holds hsync
  · cases hnext

theorem tick_inv (h : Inv digest quiet d) (hnext : d.tick = some d') : Inv digest quiet d' := by
  unfold Team.tick at hnext
  split at hnext
  · cases hnext
  rename_i entry hcontext
  refine h.begins ⟨h.saved, ?_⟩ hnext
  intro known hknown
  rw [hknown] at hcontext
  exact h.saved.context known hcontext

theorem reconcile_inv {answer : ContextAnswer} (h : Inv digest quiet d)
    (hnext : d.reconcile digest answer = some d') : Inv digest quiet d' := by
  unfold Team.reconcile at hnext
  simp only at hnext
  cases answer with
  | notModified => exact tick_inv h hnext
  | listed =>
      have hentry : ∀ known, d.current.map (Remote.entry digest) = some known →
          OnGlass digest d.glass known := by
        intro known hknown
        rcases Option.map_eq_some_iff.mp hknown with ⟨remote, hcurrent, rfl⟩
        exact onGlass_entry hcurrent
      apply h.begins _ hnext
      constructor
      · refine ⟨h.saved.base, ?_⟩
        intro known hknown
        exact hentry known (Option.some.inj hknown)
      · intro known hknown
        exact hentry known hknown
  | unlisted =>
      apply h.begins _ hnext
      constructor
      · refine ⟨h.saved.base, ?_⟩
        intro known hknown
        cases Option.some.inj hknown
      · intro known hknown
        cases hknown

/-- An explicit edit is written to the file under the lock. -/
theorem edited_inv (h : Inv digest quiet d) (hidle : d.sync = none) (content : String) :
    Inv digest quiet { d with file := some (.text content) } := by
  refine ⟨h.glass, h.saved, ?_, ?_⟩
  · intro sync hsync
    rw [show d.sync = some sync from hsync] at hidle
    cases hidle
  · intro sync hsync
    rw [show d.sync = some sync from hsync] at hidle
    cases hidle

theorem begins_idle (hnext : d.begins sync = some d') : d.sync = none := by
  unfold Team.begins at hnext
  split at hnext
  · rename_i hidle
    exact hidle
  · cases hnext

theorem update_inv {resolveConflict : Bool} (h : Inv digest quiet d)
    (hnext : d.update digest content resolveConflict = some d') : Inv digest quiet d' := by
  unfold Team.update at hnext
  split at hnext
  swap
  · cases hnext
  simp only at hnext
  have hidle := begins_idle hnext
  rcases h.saved.base with ⟨base, hbase, replaced, hget, hreplaced⟩
  apply (edited_inv h hidle content).begins _ hnext
  unfold Team.uploadExplicitOwn
  by_cases hconflict : d.saved.own.status = .conflict ∧ resolveConflict = false
  · simp only [if_pos hconflict]
    apply SyncTruth.settles h.saved
    exact h.saved.base
  simp only [if_neg hconflict]
  cases resolveConflict with
  | true => exact ⟨h.saved, trivial⟩
  | false =>
      simp only [hbase, Bool.false_eq_true, if_false]
      exact ⟨h.saved, fun _ => ⟨replaced, ⟨base, hbase, hreplaced⟩, hget⟩⟩

theorem updateOffline_inv (h : Inv digest quiet d)
    (hnext : d.updateOffline digest content = some d') : Inv digest quiet d' := by
  unfold Team.updateOffline at hnext
  split at hnext
  swap
  · cases hnext
  simp only at hnext
  have hidle := begins_idle hnext
  refine (edited_inv h hidle content).begins ?_ hnext
  exact .settles h.saved h.saved.base

theorem inv_init (h : (team digest).init d) : Inv digest quiet d := by
  rcases h with ⟨remote, hsync⟩
  have hentry := @onGlass_entry digest d remote hsync.current
  refine ⟨?_, ⟨⟨remote.entry digest, ?_, hentry⟩, ?_⟩, ?_, ?_⟩
  · intro hempty
    have hlast := (current_revision hsync.current).2.1
    rw [hempty] at hlast
    cases hlast
  · rw [hsync.own]
    rfl
  · intro known hknown
    rw [hsync.context known hknown]
    exact hentry
  · intro sync hsome
    rw [hsync.idle] at hsome
    cases hsome
  · intro sync hsome
    rw [hsync.idle] at hsome
    cases hsome

/-- What a sync has found out does not depend on the file unless it holds a look at it. -/
theorem StageTruth.edit {file file' : Option OwnFile} {stage : Stage}
    (h : StageTruth digest quiet glass file own stage)
    (hlook : quiet → stage.holdsLook = false) :
    StageTruth digest quiet glass file' own stage := by
  have hnever : stage.holdsLook = true → ¬ quiet := by
    intro hholds hquiet
    rw [hlook hquiet] at hholds
    cases hholds
  cases stage with
  | absent entry => exact fun hquiet => absurd hquiet (hnever rfl)
  | looked text => exact fun hquiet => absurd hquiet (hnever rfl)
  | refetching text entry => exact ⟨fun hquiet => absurd hquiet (hnever rfl), h.2⟩
  | writing seen remote => exact ⟨fun hquiet => absurd hquiet (hnever rfl), h.2⟩
  | _ => exact h

/-- Every step keeps what a sync has found out, and an undisturbed one what it saw of the
file. -/
theorem inv_step (h : Inv digest quiet d) (hundisturbed : quiet → Undisturbed d e)
    (hstep : (team digest).step d e d') : Inv digest quiet d' := by
  have hnext : d.next digest e = some d' := hstep
  cases e <;> simp only [Team.next, Option.bind_eq_some_iff, Option.some.injEq] at hnext
  case editFile file =>
    subst hnext
    exact ⟨h.glass, h.saved, h.memory,
      fun sync hsync => (h.stage sync hsync).edit fun hquiet => hundisturbed hquiet sync hsync⟩
  case editGlass content =>
    subst hnext
    exact h.grows content
  case tick => exact tick_inv h hnext
  case reconcile answer => exact reconcile_inv h hnext
  case update content resolveConflict => exact update_inv h hnext
  case updateOffline content => exact updateOffline_inv h hnext
  case look =>
    rcases hnext with ⟨sync, hsync, hnext⟩
    exact look_inv h hsync hnext
  case fetch =>
    rcases hnext with ⟨sync, hsync, hnext⟩
    exact fetch_inv h hsync hnext
  case put answered reports keepsRevision =>
    rcases hnext with ⟨sync, hsync, hnext⟩
    exact put_inv h hsync hnext
  case write =>
    rcases hnext with ⟨sync, hsync, hnext⟩
    exact write_inv h hsync hnext
  case fails =>
    rcases hnext with ⟨sync, hsync, hnext⟩
    rcases Option.map_eq_some_iff.mp hnext with ⟨after, hafter, rfl⟩
    exact failed_inv h hsync hafter
  case denied =>
    rcases hnext with ⟨sync, hsync, hnext⟩
    unfold Team.denied at hnext
    split at hnext
    · cases hnext
    · cases hnext
      refine h.holds (.finished ⟨(h.memory sync hsync).base, ?_⟩)
      intro known hknown
      cases hknown
  case save =>
    rcases hnext with ⟨sync, hsync, hnext⟩
    unfold Team.save at hnext
    split at hnext
    · cases hnext
      refine ⟨h.glass, h.memory sync hsync, ?_, ?_⟩
      · intro held hsome
        cases hsome
      · intro held hsome
        cases hsome
    · cases hnext
  case dies =>
    subst hnext
    refine ⟨h.glass, h.saved, ?_, ?_⟩
    · intro held hsome
      cases hsome
    · intro held hsome
      cases hsome

theorem undisturbed_inv (h : ((team digest).restrict Undisturbed).Reachable d) :
    Inv digest True d := by
  apply h.invariant
  · intro d hinit
    exact inv_init hinit
  · intro d e d' _ hinv hstep
    exact inv_step hinv (fun _ => hstep.1) hstep.2

theorem reachable_inv (h : (team digest).Reachable d) : Inv digest False d := by
  apply h.invariant
  · intro d hinit
    exact inv_init hinit
  · intro d e d' _ hinv hstep
    exact inv_step hinv False.elim hstep

/-! ## The law -/

/-- A base with the digest of a content has that content. -/
theorem Truthful.replaced (hdigest : Function.Injective digest)
    (h : Truthful digest glass memory) (hbased : BasedOn digest memory.own content) :
    ∃ base, memory.own.base = some base ∧ glass[base.revision]? = some content := by
  rcases h.base with ⟨base, hbase, replaced, hget, hreplaced⟩
  rcases hbased with ⟨same, hsame, hcontent⟩
  rw [hbase] at hsame
  cases hsame
  rw [hdigest (hcontent.symm.trans hreplaced)]
  exact ⟨base, hbase, hget⟩

theorem Inv.downloads (hdigest : Function.Injective digest) (h : Inv digest True d) :
    DownloadsKnown digest d := by
  intro d' hnext file hfile
  simp only [Team.next, Option.bind_eq_some_iff] at hnext
  rcases hnext with ⟨sync, hsync, hnext⟩
  have hstage := h.stage sync hsync
  unfold Team.write at hnext
  split at hnext
  swap
  · cases hnext
  rename_i seen remote hat
  rw [hat] at hstage
  rcases hstage with ⟨hfound, hbased, -⟩
  have hseen := hfound trivial
  rw [hfile] at hseen
  cases seen with
  | none => cases hseen
  | some content =>
      rcases (h.memory sync hsync).replaced hdigest (hbased content rfl) with ⟨base, hbase, hget⟩
      exact ⟨sync, base, content, hsync, hbase, hget, Option.some.inj hseen⟩

theorem Inv.uploads (hdigest : Function.Injective digest) (h : Inv digest quiet d) :
    UploadsBased digest d := by
  intro answered reports keepsRevision d' hnext hgrew sync content expected hsync hat
  have hstage := h.stage sync hsync
  rw [hat] at hstage
  rcases hstage rfl with ⟨replaced, hbased, hget⟩
  simp only [Team.next, hsync, Option.bind_some] at hnext
  unfold Team.put at hnext
  rw [hat] at hnext
  split at hnext
  swap
  · cases hnext
  rename_i text revision overrides remote heq hcurrent
  cases heq
  have hexpected : expected = remote.revision := by
    by_contra hne
    rw [if_neg hne] at hnext
    split at hnext
    · cases hnext
      exact hgrew rfl
    · cases hnext
      exact hgrew rfl
  rcases current_revision hcurrent with ⟨hat', hlast, -⟩
  rw [hexpected, hat'] at hget
  rcases (h.memory sync hsync).replaced hdigest hbased with ⟨base, hbase, hbaseGet⟩
  exact ⟨base, replaced, hbase, hbaseGet, hlast.trans hget⟩

/-- Neither side is silently overwritten in an undisturbed run, and no upload that
overrides nothing overwrites silently in any run.  An edit between the look of a sync and
its write that Glass does not have is lost with the write. -/
theorem team_law (hdigest : Function.Injective digest) :
    (∀ d, ((team digest).restrict Undisturbed).Reachable d → TeamLaw digest d) ∧
      (∀ d, (team digest).Reachable d → UploadsBased digest d) ∧
      ∀ (d : Team) sync seen remote draft, (team digest).Reachable d → d.sync = some sync →
        sync.stage = .writing seen remote → draft ∉ d.glass →
        ¬ DownloadsKnown digest { d with file := some (.text draft) } := by
  refine ⟨?_, ?_, ?_⟩
  · intro d hreach
    have hinv := undisturbed_inv hreach
    exact ⟨hinv.downloads hdigest, hinv.uploads hdigest⟩
  · intro d hreach
    exact (reachable_inv hreach).uploads hdigest
  · intro d sync seen remote draft _ hsync hat hnew hlaw
    have hwrite : (({ d with file := some (.text draft) } : Team).next digest .write).isSome := by
      simp only [Team.next, hsync, Option.bind_some, Team.write, hat, Option.isSome_some]
    rcases Option.isSome_iff_exists.mp hwrite with ⟨d', hwrite⟩
    rcases hlaw d' hwrite _ rfl with ⟨held, base, content, -, -, hget, heq⟩
    cases heq
    exact hnew (List.mem_of_getElem? hget)

/-! ## A lost draft -/

/-- A file that agrees with Glass. -/
def agreed : Team where
  glass := ["a"]
  file := some (.text "a")
  saved := { own := setOwnBase ⟨0, "a"⟩, context := some (some ⟨0, "a"⟩) }
  sync := none

/-- Another writer goes on, a reconciliation finds the file unchanged and fetches the new
document, and in the meantime a draft is written. -/
def draftDuringFetch : List TeamEvent :=
  [.editGlass "b", .reconcile .listed, .look, .editFile (some (.text "draft")), .fetch]

/-- The state after these events. -/
def overwritten : Option Team :=
  TransitionSystem.play (Team.next id) agreed draftDuringFetch

theorem agreed_synchronized : Synchronized id agreed ⟨0, "a"⟩ where
  current := by decide
  file := rfl
  own := rfl
  context entry h := (Option.some.inj (Option.some.inj h)).symm
  idle := rfl

/-- The draft is lost with the write that follows: it never was on Glass. -/
theorem draft_overwritten :
    ∃ d, (team id).Reachable d ∧ overwritten = some d ∧ ¬ TeamLaw id d := by
  rcases Option.isSome_iff_exists.mp (show overwritten.isSome = true by decide +kernel) with
    ⟨d, hd⟩
  have hinit : (team id).Reachable agreed := .init ⟨_, agreed_synchronized⟩
  refine ⟨d, hinit.play (fun _ _ _ hnext => hnext) hd, hd, ?_⟩
  intro hlaw
  have hfacts : (overwritten.map fun d => (d.file, d.glass, (d.next id .write).isSome)) =
      some (some (.text "draft"), ["a", "b"], true) := by
    decide +kernel
  rw [hd, Option.map_some, Option.some.injEq, Prod.mk.injEq, Prod.mk.injEq] at hfacts
  rcases hfacts with ⟨hfile, hglass, hwrite⟩
  rcases Option.isSome_iff_exists.mp hwrite with ⟨d', hd'⟩
  rcases hlaw.downloads d' hd' _ hfile with ⟨-, base, content, -, -, hget, heq⟩
  cases heq
  rw [hglass] at hget
  exact absurd (List.mem_of_getElem? hget) (by decide)

/-- The law where a digest is the content itself. -/
theorem team_law_agreed :
    TeamLaw id agreed ∧ UploadsBased id agreed ∧
      ∀ (d : Team) sync seen remote draft, (team id).Reachable d → d.sync = some sync →
        sync.stage = .writing seen remote → draft ∉ d.glass →
        ¬ DownloadsKnown id { d with file := some (.text draft) } :=
  ⟨(team_law Function.injective_id).1 agreed (.init ⟨_, agreed_synchronized⟩),
    (team_law Function.injective_id).2.1 agreed (.init ⟨_, agreed_synchronized⟩),
    (team_law Function.injective_id).2.2⟩

end TeamContext
end Stemcell
