import Stemcell.Storage.FileLock

/-!
# What the locks of files guarantee

Every step of a thread keeps the invariant of the locks, and so does the end of a process.  A file
that is read and changed in a block changes under no other thread.

Main results:

- Theorem `lockOk_step`: the invariant of the locks.
- Theorem `stuck_run`: who enters a lock that does not count a second time waits for itself.
- Theorem `lock_law`: in every interleaving, one thread at a time is in blocks of a lock, what it
  has last read or written is what the file holds, it can enter again where blocks are counted and
  waits forever where they are not, and nothing stays locked.
-/

namespace Stemcell
namespace Storage

open Lib

section Invariant

variable {π τ κ ν : Type} [DecidableEq κ] {counted : κ → Bool}
  {locked locked' : κ → Option (Handle π)} {files files' : κ → ν} {opened opened' : Nat}
  {process : π} {s s' : LockThread π κ ν} {t : π × τ} {w w' : LockWorld π τ κ ν}

/-! ## Steps of one thread -/

section Moves

variable [DecidableEq τ]

theorem LockOk.tracks_keep (h : LockOk counted w) {key : κ}
    (hholds : s'.holds key = (w.threads t).holds key) :
    (w.threadLocks t.1 key).Tracks
      (Function.update (fun n => (w.threads (t.1, n)).holds key) t.2 (s'.holds key)) := by
  apply (h.tracks t.1 key).congr
  intro n
  by_cases hn : n = t.2
  · subst hn
    rw [Function.update_self]
    exact hholds
  · rw [Function.update_of_ne hn]

theorem LockOk.tracks_acquire (h : LockOk counted w) {key : κ} {lock : ReentrantLock τ}
    (hacquire : (w.threadLocks t.1 key).acquire t.2 = some lock)
    (hholds : s'.holds key = (w.threads t).holds key + 1)
    (hothers : ∀ key', key' ≠ key → s'.holds key' = (w.threads t).holds key') (key' : κ) :
    (Function.update (w.threadLocks t.1) key lock key').Tracks
      (Function.update (fun n => (w.threads (t.1, n)).holds key') t.2 (s'.holds key')) := by
  by_cases hkey : key' = key
  · subst hkey
    rw [Function.update_self, hholds]
    exact (h.tracks t.1 key').acquire hacquire
  · rw [Function.update_of_ne hkey]
    exact h.tracks_keep (hothers key' hkey)

variable [DecidableEq π]

/-- A step of one thread that keeps the claims of the others. -/
theorem LockOk.move (h : LockOk counted w)
    (hthreads : w'.threads = Function.update w.threads t s')
    (hself : ThreadOk counted w'.locked w'.files w'.opened t.1 s')
    (hopened : w.opened ≤ w'.opened)
    (hsame : ∀ u, u ≠ t → ∀ key, 0 < (w.threads u).inside key →
      w'.locked key = w.locked key ∧ w'.files key = w.files key)
    (hwaits : ∀ u, u ≠ t → ∀ key handle, (w.threads u).stage = .locking key handle →
      w'.locked key ≠ some handle)
    (hlocks : ∀ process, process ≠ t.1 → w'.threadLocks process = w.threadLocks process)
    (htracks : ∀ key, (w'.threadLocks t.1 key).Tracks
      (Function.update (fun n => (w.threads (t.1, n)).holds key) t.2 (s'.holds key)))
    (howner : ∀ key handle, w'.locked key = some handle → s'.owns key handle ∨
      (w.locked key = some handle ∧ ¬ (w.threads t).owns key handle)) :
    LockOk counted w' := by
  constructor
  · intro u
    by_cases hu : u = t
    · subst hu
      rw [hthreads, Function.update_self]
      exact hself
    · rw [hthreads, Function.update_of_ne hu]
      exact (h.thread u).frame hopened (hsame u hu) (hwaits u hu)
  · intro process key
    by_cases hprocess : process = t.1
    · subst hprocess
      apply (htracks key).congr
      intro n
      rw [hthreads]
      by_cases hn : n = t.2
      · subst hn
        rw [Function.update_self]
        simp
      · have hne : (t.1, n) ≠ t := fun heq => hn (congrArg Prod.snd heq)
        rw [Function.update_of_ne hn, Function.update_of_ne hne]
    · rw [hlocks process hprocess]
      apply (h.tracks process key).congr
      intro n
      have hne : (process, n) ≠ t := fun heq => hprocess (congrArg Prod.fst heq)
      rw [hthreads, Function.update_of_ne hne]
  · intro key handle hlocked
    rcases howner key handle hlocked with howns | ⟨hbefore, hnot⟩
    · refine ⟨t, ?_⟩
      rw [hthreads, Function.update_self]
      exact howns
    · rcases h.owner key handle hbefore with ⟨u, hu⟩
      have hne : u ≠ t := by
        rintro rfl
        exact hnot hu
      refine ⟨u, ?_⟩
      rw [hthreads, Function.update_of_ne hne]
      exact hu

theorem LockOk.tracks_release (h : LockOk counted w) {key : κ}
    (hholds : s'.holds key + 1 = (w.threads t).holds key)
    (hothers : ∀ key', key' ≠ key → s'.holds key' = (w.threads t).holds key') (key' : κ) :
    ((w.releaseThreadLock t key).threadLocks t.1 key').Tracks
      (Function.update (fun n => (w.threads (t.1, n)).holds key') t.2 (s'.holds key')) := by
  unfold LockWorld.releaseThreadLock LockWorld.setThreadLock
  simp only [Function.update_self]
  by_cases hkey : key' = key
  · subst hkey
    rw [Function.update_self]
    have hcount : s'.holds key' = (w.threads (t.1, t.2)).holds key' - 1 := by
      have hsame : (w.threads (t.1, t.2)).holds key' = (w.threads t).holds key' := rfl
      omega
    rw [hcount]
    apply (h.tracks t.1 key').release
    change 0 < (w.threads t).holds key'
    omega
  · rw [Function.update_of_ne hkey]
    exact h.tracks_keep (hothers key' hkey)

/-- A step that locks and writes nothing. -/
theorem LockOk.quiet (h : LockOk counted w)
    (hthreads : w'.threads = Function.update w.threads t s')
    (hlocked : w'.locked = w.locked) (hfiles : w'.files = w.files) (hopened : w.opened ≤ w'.opened)
    (hself : ThreadOk counted w.locked w.files w'.opened t.1 s')
    (howns : ∀ key handle, (w.threads t).owns key handle → s'.owns key handle)
    (hlocks : ∀ process, process ≠ t.1 → w'.threadLocks process = w.threadLocks process)
    (htracks : ∀ key, (w'.threadLocks t.1 key).Tracks
      (Function.update (fun n => (w.threads (t.1, n)).holds key) t.2 (s'.holds key))) :
    LockOk counted w' := by
  apply h.move hthreads _ hopened _ _ hlocks htracks
  · intro key handle hbefore
    rw [hlocked] at hbefore
    by_cases howned : (w.threads t).owns key handle
    · exact .inl (howns key handle howned)
    · exact .inr ⟨hbefore, howned⟩
  · rw [hlocked, hfiles]
    exact hself
  · intro u _ key _
    rw [hlocked, hfiles]
    exact ⟨rfl, rfl⟩
  · intro u _ key handle hstage
    rw [hlocked]
    exact (h.thread u).waits key handle hstage


theorem LockOk.enter (h : LockOk counted w) {key : κ}
    (hnext : w.next counted (.enter t key) = some w') : LockOk counted w' := by
  have hthread := h.thread t
  unfold LockWorld.next at hnext
  dsimp only at hnext
  split at hnext
  · rename_i lock hstage hacquire
    have hkey : ∀ key', (w.threads t).holds key' = (w.threads t).inside key' := by
      intro key'
      simp [LockThread.holds, hstage, LockStage.key?]
    split_ifs at hnext with hdepth
    · rcases hdepth with ⟨hcounted, hdepth⟩
      cases hnext
      have hinside : 0 < (w.threads t).inside key := by
        rw [← hthread.depth key hcounted]
        exact Nat.pos_of_ne_zero hdepth
      refine h.quiet (t := t) rfl rfl rfl (Nat.le_refl _) (hthread.nest hinside hstage) ?_ ?_ ?_
      · rintro key' handle (hmem | hunlocking)
        · exact .inl (List.mem_cons_of_mem _ hmem)
        · exact .inr hunlocking
      · intro process hprocess
        exact Function.update_of_ne hprocess _ _
      · intro key'
        simp only [LockWorld.become, LockWorld.setThreadLock, Function.update_self]
        apply h.tracks_acquire hacquire
        · rw [hkey]
          simp [LockThread.holds, LockThread.inside, hstage, LockStage.key?]
        · intro other hother
          rw [hkey]
          simp [LockThread.holds, LockThread.inside, hstage, LockStage.key?, Ne.symm hother]
    · cases hnext
      have houtside : counted key = true → (w.threads t).inside key = 0 := by
        intro hcounted
        rw [← hthread.depth key hcounted]
        by_contra hne
        exact hdepth ⟨hcounted, hne⟩
      refine h.quiet (t := t) rfl rfl rfl (Nat.le_refl _) ?_ ?_ ?_ ?_
      · apply hthread.toStage rfl
        rintro key' hcounted hsame
        cases hsame
        exact houtside hcounted
      · intro key' handle howns
        exact .inl (howns.mem (by simp [hstage]) (by simp [hstage]))
      · intro process hprocess
        exact Function.update_of_ne hprocess _ _
      · intro key'
        simp only [LockWorld.become, LockWorld.setThreadLock, Function.update_self]
        apply h.tracks_acquire hacquire
        · rw [hkey]
          simp [LockThread.holds, LockThread.inside, LockStage.key?]
        · intro other hother
          rw [hkey]
          simp [LockThread.holds, LockThread.inside, LockStage.key?, Ne.symm hother]
  · cases hnext

theorem LockOk.openFile (h : LockOk counted w) {ok : Bool}
    (hnext : w.next counted (.openFile t ok) = some w') : LockOk counted w' := by
  have hthread := h.thread t
  unfold LockWorld.next at hnext
  dsimp only at hnext
  split at hnext
  · rename_i key hstage
    have howns : ∀ key' handle, (w.threads t).owns key' handle →
        ⟨key', some handle⟩ ∈ (w.threads t).blocks :=
      fun key' handle howned => howned.mem (by simp [hstage]) (by simp [hstage])
    cases ok with
    | true =>
        cases hnext
        refine h.quiet (t := t) rfl rfl rfl (Nat.le_succ _) ?_ ?_ (fun _ _ => rfl) ?_
        · have hfresh : ∀ key', ⟨key', some ⟨t.1, w.opened⟩⟩ ∉ (w.threads t).blocks := by
            intro key' hmem
            exact absurd (hthread.locks key' _ hmem).2.2 (Nat.lt_irrefl _)
          refine ⟨hthread.depth, hthread.nested, ?_, ?_, ?_, ?_, hthread.known⟩
          · intro key' handle hmem
            have hlocks := hthread.locks key' handle hmem
            exact ⟨hlocks.1, hlocks.2.1, Nat.lt_succ_of_lt hlocks.2.2⟩
          · intro key' handle _ hhandle
            cases hhandle
            exact ⟨hfresh key', rfl, Nat.lt_succ_self _⟩
          · intro key' hcounted hkey'
            cases hkey'
            exact hthread.once key hcounted (by rw [hstage]; rfl)
          · intro key' handle hlocking hlocked
            cases hlocking
            rcases h.owner key _ hlocked with ⟨u, hu⟩
            rcases hu with hmem | hother | hother
            · exact absurd ((h.thread u).locks key _ hmem).2.2 (Nat.lt_irrefl _)
            · have hnumber := (h.thread u).stage key _ (by rw [hother]; rfl) (by rw [hother]; rfl)
              exact absurd hnumber.2.2 (Nat.lt_irrefl _)
            · have hnumber := (h.thread u).stage key _ (by rw [hother]; rfl) (by rw [hother]; rfl)
              exact absurd hnumber.2.2 (Nat.lt_irrefl _)
        · intro key' handle howned
          exact .inl (howns key' handle howned)
        · intro key'
          apply h.tracks_keep
          simp [LockThread.holds, LockThread.inside, LockStage.key?, hstage]
    | false =>
        cases hnext
        refine h.quiet (t := t) rfl rfl rfl (Nat.le_refl _) ?_ ?_ ?_ ?_
        · apply hthread.toStage rfl
          rintro key' _ hsame
          cases hsame
        · intro key' handle howned
          exact .inl (howns key' handle howned)
        · intro process hprocess
          exact Function.update_of_ne hprocess _ _
        · apply h.tracks_release
          · simp [LockThread.holds, LockThread.inside, LockStage.key?, hstage]
          · intro other hother
            simp [LockThread.holds, LockThread.inside, LockStage.key?, hstage, Ne.symm hother]
  · cases hnext

theorem LockOk.lockFile (h : LockOk counted w) {ok : Bool}
    (hnext : w.next counted (.lockFile t ok) = some w') : LockOk counted w' := by
  have hthread := h.thread t
  unfold LockWorld.next at hnext
  dsimp only at hnext
  split at hnext
  · rename_i key handle hstage
    have hkey : (w.threads t).stage.key? = some key := by
      rw [hstage]
      rfl
    cases ok with
    | true =>
        have hfree : w.locked key = none := by
          by_contra hheld
          rw [if_pos rfl, if_neg hheld] at hnext
          cases hnext
        rw [if_pos rfl, if_pos hfree] at hnext
        cases hnext
        refine h.move (t := t) rfl (hthread.gain hstage hfree) (Nat.le_refl _) ?_ ?_
          (fun _ _ => rfl) ?_ ?_
        · intro u _ key' hinside
          refine ⟨?_, rfl⟩
          have hne : key' ≠ key := by
            rintro rfl
            rcases (h.thread u).exists_handle hinside with ⟨held, -, hheld, -⟩
            rw [hfree] at hheld
            cases hheld
          exact Function.update_of_ne hne _ _
        · intro u hne key' handle' hwaiting hlocked
          have hother := (h.thread u).stage key' handle' (by rw [hwaiting]; rfl)
            (by rw [hwaiting]; rfl)
          dsimp only [LockWorld.become] at hlocked
          by_cases hsame : key' = key
          · subst hsame
            rw [Function.update_self] at hlocked
            cases hlocked
            have hmine := hthread.stage key' handle hkey (by rw [hstage]; rfl)
            have hprocess : u.1 = t.1 := hother.2.1.symm.trans hmine.2.1
            exact hne (h.eq_of_holds hprocess
              (LockThread.holds_of_stage (by rw [hwaiting]; rfl)) (LockThread.holds_of_stage hkey))
          · rw [Function.update_of_ne hsame] at hlocked
            exact (h.thread u).waits key' handle' hwaiting hlocked
        · intro key'
          apply h.tracks_keep
          by_cases hsame : key = key'
          · simp [LockThread.holds, LockThread.inside, LockStage.key?, hstage, hsame]
          · simp [LockThread.holds, LockThread.inside, LockStage.key?, hstage, hsame]
        · intro key' handle' hlocked
          dsimp only [LockWorld.become] at hlocked
          by_cases hsame : key' = key
          · subst hsame
            rw [Function.update_self] at hlocked
            cases hlocked
            exact .inl (.inl List.mem_cons_self)
          · rw [Function.update_of_ne hsame] at hlocked
            by_cases howned : (w.threads t).owns key' handle'
            · have hmem := howned.mem (by simp [hstage]) (by simp [hstage])
              exact .inl (.inl (List.mem_cons_of_mem _ hmem))
            · exact .inr ⟨hlocked, howned⟩
    | false =>
        cases hnext
        have hopen := hthread.stage key handle hkey (by rw [hstage]; rfl)
        refine h.quiet (t := t) rfl rfl rfl (Nat.le_refl _) ?_ ?_ (fun _ _ => rfl) ?_
        · refine ⟨?_, hthread.nested, hthread.locks, ?_, ?_, nofun, hthread.known⟩
          · intro key' hcounted
            have hdepth := hthread.depth key' hcounted
            unfold LockThread.depth at hdepth ⊢
            by_cases hsame : key = key'
            · subst hsame
              have hzero := hthread.once key hcounted hkey
              simp only [hcounted, if_true, Dict.get?_pop_self]
              exact hzero.symm
            · dsimp only
              split_ifs
              · rw [Dict.get?_pop_of_ne _ hsame]
                exact hdepth
              · exact hdepth
          · intro key' handle' hkey' hhandle'
            cases hkey'
            cases hhandle'
            exact hopen
          · intro key' hcounted hkey'
            cases hkey'
            exact hthread.once key hcounted hkey
        · intro key' handle' howned
          exact .inl (howned.mem (by simp [hstage]) (by simp [hstage]))
        · intro key'
          apply h.tracks_keep
          simp [LockThread.holds, LockThread.inside, LockStage.key?, hstage]
  · cases hnext

theorem LockOk.leave (h : LockOk counted w) (hnext : w.next counted (.leave t) = some w') :
    LockOk counted w' := by
  have hthread := h.thread t
  unfold LockWorld.next at hnext
  dsimp only at hnext
  split at hnext
  · rename_i key blocks hstage hblocks
    cases hnext
    refine h.quiet (t := t) rfl rfl rfl (Nat.le_refl _) (hthread.unnest hblocks hstage) ?_ ?_ ?_
    · rintro key' handle (hmem | hother)
      · rw [hblocks] at hmem
        rcases List.mem_cons.mp hmem with heq | hmem
        · cases heq
        · exact .inl hmem
      · exact .inr hother
    · intro process hprocess
      exact Function.update_of_ne hprocess _ _
    · apply h.tracks_release
      · simp [LockThread.holds, LockThread.inside, LockStage.key?, hstage, hblocks]
      · intro other hother
        simp [LockThread.holds, LockThread.inside, LockStage.key?, hstage, hblocks, Ne.symm hother]
  · rename_i key handle blocks hstage hblocks
    cases hnext
    refine h.quiet (t := t) rfl rfl rfl (Nat.le_refl _) (hthread.leaveOuter hblocks) ?_
      (fun _ _ => rfl) ?_
    · intro key' handle' howned
      have hmem := howned.mem (by simp [hstage]) (by simp [hstage])
      rw [hblocks] at hmem
      rcases List.mem_cons.mp hmem with heq | hmem
      · cases heq
        exact .inr (.inl rfl)
      · exact .inl hmem
    · intro key'
      apply h.tracks_keep
      by_cases hsame : key = key'
      · simp [LockThread.holds, LockThread.inside, LockStage.key?, hstage, hblocks, hsame]
      · simp [LockThread.holds, LockThread.inside, LockStage.key?, hstage, hblocks, hsame]
  · cases hnext

/-- What a thread gives back is locked by nobody else. -/
theorem LockOk.unlockHandle (h : LockOk counted w) {key : κ} {handle : Handle π}
    {stage : LockStage π κ} (howns : (w.threads t).owns key handle)
    (hkey : (w.threads t).stage.key? = some key)
    (hhandle : (w.threads t).stage.handle? = some handle)
    (hnext : stage = .closing key handle ∨ stage = .body)
    (hthreads : w'.threads = Function.update w.threads t { w.threads t with stage := stage })
    (hlocked : ∀ key', w'.locked key' = w.locked key' ∨
      (key' = key ∧ w.locked key = some handle ∧ w'.locked key' = none))
    (hfiles : w'.files = w.files) (hopened : w'.opened = w.opened)
    (hlocks : ∀ process, process ≠ t.1 → w'.threadLocks process = w.threadLocks process)
    (htracks : ∀ key', (w'.threadLocks t.1 key').Tracks
      (Function.update (fun n => (w.threads (t.1, n)).holds key') t.2
        ({ w.threads t with stage := stage }.holds key')))
    (hgone : stage = .body → w'.locked key ≠ some handle) : LockOk counted w' := by
  have hthread := h.thread t
  have hopen := hthread.stage key handle hkey hhandle
  have hstageKey : ∀ key', stage.key? = some key' → key' = key := by
    intro key' hsome
    rcases hnext with rfl | rfl
    · exact (Option.some.inj hsome).symm
    · cases hsome
  have hstageHandle : ∀ handle', stage.handle? = some handle' → handle' = handle := by
    intro handle' hsome
    rcases hnext with rfl | rfl
    · exact (Option.some.inj hsome).symm
    · cases hsome
  have hbefore : ∀ key' handle', w'.locked key' = some handle' →
      w.locked key' = some handle' := by
    intro key' handle' hheld
    rcases hlocked key' with hkept | ⟨-, -, hgone⟩
    · rw [← hkept]
      exact hheld
    · rw [hgone] at hheld
      cases hheld
  have hframe : ThreadOk counted w'.locked w'.files w'.opened t.1 (w.threads t) := by
    refine ⟨hthread.depth, hthread.nested, ?_, ?_, hthread.once, ?_, ?_⟩
    · intro key' handle' hmem
      have hheld := hthread.locks key' handle' hmem
      rcases hlocked key' with hkept | ⟨rfl, hmine, -⟩
      · rw [hkept, hopened]
        exact hheld
      · have hsame : handle' = handle := Option.some.inj (hheld.1.symm.trans hmine)
        exact absurd (hsame ▸ hmem) hopen.1
    · rw [hopened]
      exact hthread.stage
    · intro key' handle' hlocking hheld
      exact hthread.waits key' handle' hlocking (hbefore key' handle' hheld)
    · rw [hfiles]
      exact hthread.known
  refine h.move hthreads ?_ (Nat.le_of_eq hopened.symm) ?_ ?_ hlocks htracks ?_
  · refine ⟨hframe.depth, hframe.nested, hframe.locks, ?_, ?_, ?_, hframe.known⟩
    · intro key' handle' hkey' hhandle'
      rw [hstageKey key' hkey', hstageHandle handle' hhandle']
      exact hframe.stage key handle hkey hhandle
    · intro key' hcounted hkey'
      rw [hstageKey key' hkey'] at hcounted ⊢
      exact hframe.once key hcounted hkey
    · rintro key' handle' hlocking
      dsimp only at hlocking
      rcases hnext with rfl | rfl
      · cases hlocking
      · cases hlocking
  · intro u hne key' hinside
    rw [hfiles]
    rcases hlocked key' with hkept | ⟨rfl, hmine, -⟩
    · exact ⟨hkept, rfl⟩
    · have hzero := h.outside_of_owns hmine howns hne
      omega
  · intro u hne key' handle' hwaiting hheld
    exact (h.thread u).waits key' handle' hwaiting (hbefore key' handle' hheld)
  · intro key' handle' hheld
    by_cases howned : (w.threads t).owns key' handle'
    · left
      rcases howned with hmem | hother
      · exact .inl hmem
      · have hsame : key = key' ∧ handle = handle' := by
          rcases hother with hother | hother
          · rw [hother] at hkey hhandle
            exact ⟨(Option.some.inj hkey).symm, (Option.some.inj hhandle).symm⟩
          · rw [hother] at hkey hhandle
            exact ⟨(Option.some.inj hkey).symm, (Option.some.inj hhandle).symm⟩
        rcases hsame with ⟨rfl, rfl⟩
        rcases hnext with rfl | rfl
        · exact .inr (.inr rfl)
        · exact absurd hheld (hgone rfl)
    · exact .inr ⟨hbefore key' handle' hheld, howned⟩

omit [DecidableEq τ] in
theorem LockWorld.unlockHandle_locked (w : LockWorld π τ κ ν) (key key' : κ) (handle : Handle π) :
    (w.unlockHandle key handle).locked key' = w.locked key' ∨
      (key' = key ∧ w.locked key = some handle ∧
        (w.unlockHandle key handle).locked key' = none) := by
  unfold LockWorld.unlockHandle
  by_cases hheld : w.locked key = some handle
  · by_cases hsame : key' = key
    · subst hsame
      simp [hheld]
    · simp [hheld, hsame]
  · simp [hheld]

theorem LockOk.unlockFile (h : LockOk counted w) {ok : Bool}
    (hnext : w.next counted (.unlockFile t ok) = some w') : LockOk counted w' := by
  unfold LockWorld.next at hnext
  dsimp only at hnext
  split at hnext
  · rename_i key handle hstage
    have hkey : (w.threads t).stage.key? = some key := by
      rw [hstage]
      rfl
    have hhandle : (w.threads t).stage.handle? = some handle := by
      rw [hstage]
      rfl
    have hholds : ∀ key', { w.threads t with stage := .closing key handle }.holds key' =
        (w.threads t).holds key' := by
      intro key'
      simp [LockThread.holds, LockThread.inside, LockStage.key?, hstage]
    cases ok with
    | true =>
        cases hnext
        exact h.unlockHandle (t := t) (.inr (.inl hstage)) hkey hhandle (.inl rfl) rfl
          (fun key' => w.unlockHandle_locked key key' handle) rfl rfl (fun _ _ => rfl)
          (fun key' => h.tracks_keep (hholds key')) nofun
    | false =>
        cases hnext
        exact h.unlockHandle (t := t) (.inr (.inl hstage)) hkey hhandle (.inl rfl) rfl
          (fun _ => .inl rfl) rfl rfl (fun _ _ => rfl)
          (fun key' => h.tracks_keep (hholds key')) nofun
  · cases hnext

theorem LockOk.closeFile (h : LockOk counted w) (hnext : w.next counted (.closeFile t) = some w') :
    LockOk counted w' := by
  unfold LockWorld.next at hnext
  dsimp only at hnext
  split at hnext
  · rename_i key handle hstage
    have hkey : (w.threads t).stage.key? = some key := by
      rw [hstage]
      rfl
    have hhandle : (w.threads t).stage.handle? = some handle := by
      rw [hstage]
      rfl
    cases hnext
    refine h.unlockHandle (t := t) (.inr (.inr hstage)) hkey hhandle (.inr rfl) rfl
      (fun key' => w.unlockHandle_locked key key' handle) rfl rfl ?_ ?_ ?_
    · intro process hprocess
      exact Function.update_of_ne hprocess _ _
    · apply h.tracks_release
      · simp [LockThread.holds, LockThread.inside, LockStage.key?, hstage]
      · intro other hother
        simp [LockThread.holds, LockThread.inside, LockStage.key?, hstage, Ne.symm hother]
    · rintro - hheld
      change (w.unlockHandle key handle).locked key = some handle at hheld
      unfold LockWorld.unlockHandle at hheld
      dsimp only at hheld
      split_ifs at hheld with hmine
      · rw [Function.update_self] at hheld
        cases hheld
      · exact hmine hheld
  · cases hnext

theorem LockOk.read (h : LockOk counted w) {key : κ}
    (hnext : w.next counted (.read t key) = some w') : LockOk counted w' := by
  have hthread := h.thread t
  unfold LockWorld.next at hnext
  dsimp only at hnext
  split_ifs at hnext with hinside
  cases hnext
  refine h.quiet (t := t) rfl rfl rfl (Nat.le_refl _) ?_ (fun _ _ howns => howns)
    (fun _ _ => rfl) fun key' => h.tracks_keep rfl
  refine ⟨hthread.depth, hthread.nested, hthread.locks, hthread.stage, hthread.once,
    hthread.waits, ?_⟩
  intro key' content hknown
  dsimp only at hknown
  by_cases hsame : key' = key
  · subst hsame
    rw [Function.update_self] at hknown
    exact ⟨hinside.2, Option.some.inj hknown⟩
  · rw [Function.update_of_ne hsame] at hknown
    exact hthread.known key' content hknown

theorem LockOk.write (h : LockOk counted w) {key : κ} {content : ν}
    (hnext : w.next counted (.write t key content) = some w') : LockOk counted w' := by
  have hthread := h.thread t
  unfold LockWorld.next at hnext
  dsimp only at hnext
  split_ifs at hnext with hinside
  cases hnext
  refine h.move (t := t) rfl ?_ (Nat.le_refl _) ?_ ?_ (fun _ _ => rfl)
    (fun key' => h.tracks_keep rfl) ?_
  · refine ⟨hthread.depth, hthread.nested, hthread.locks, hthread.stage, hthread.once,
      hthread.waits, ?_⟩
    intro key' content' hknown
    dsimp only [LockWorld.become] at hknown ⊢
    by_cases hsame : key' = key
    · subst hsame
      rw [Function.update_self] at hknown ⊢
      exact ⟨hinside.2, Option.some.inj hknown⟩
    · rw [Function.update_of_ne hsame] at hknown ⊢
      exact hthread.known key' content' hknown
  · intro u hne key' hother
    refine ⟨rfl, ?_⟩
    have hsame : key' ≠ key := by
      rintro rfl
      exact hne (h.exclusion hother hinside.2)
    exact Function.update_of_ne hsame _ _
  · intro u _ key' handle' hwaiting
    exact (h.thread u).waits key' handle' hwaiting
  · intro key' handle' hheld
    by_cases howned : (w.threads t).owns key' handle'
    · exact .inl howned
    · exact .inr ⟨hheld, howned⟩

omit [DecidableEq τ] in
/-- The end of a process gives back what its threads had. -/
theorem LockOk.die (h : LockOk counted w) (process : π) : LockOk counted (w.die process) := by
  have hkept : ∀ key handle, (w.die process).locked key = some handle →
      w.locked key = some handle ∧ handle.process ≠ process := by
    intro key handle hheld
    have hfilter := Option.filter_eq_some_iff.mp hheld
    exact ⟨hfilter.1, by simpa using hfilter.2⟩
  constructor
  · intro t
    by_cases ht : t.1 = process
    · have hstart : (w.die process).threads t = .start := if_pos ht
      rw [hstart]
      exact ThreadOk.start
    · have hsame : (w.die process).threads t = w.threads t := if_neg ht
      rw [hsame]
      apply (h.thread t).frame (Nat.le_refl _)
      · intro key hinside
        refine ⟨?_, rfl⟩
        rcases (h.thread t).exists_handle hinside with ⟨handle, -, hheld, hprocess⟩
        rw [hheld]
        apply Option.filter_eq_some_iff.mpr
        refine ⟨hheld, ?_⟩
        rw [hprocess]
        simpa using ht
      · intro key handle hwaiting hheld
        exact (h.thread t).waits key handle hwaiting (hkept key handle hheld).1
  · intro other key
    by_cases hother : other = process
    · subst hother
      have hfree : (w.die other).threadLocks other key = .free := by
        unfold LockWorld.die
        simp
      rw [hfree]
      apply ReentrantLock.tracks_free.congr
      intro n
      have hstart : (w.die other).threads (other, n) = .start := if_pos rfl
      rw [hstart]
      rfl
    · have hsame : (w.die process).threadLocks other = w.threadLocks other :=
        Function.update_of_ne hother _ _
      rw [hsame]
      apply (h.tracks other key).congr
      intro n
      have hthread : (w.die process).threads (other, n) = w.threads (other, n) := if_neg hother
      rw [hthread]
  · intro key handle hheld
    rcases hkept key handle hheld with ⟨hbefore, halive⟩
    rcases h.owner key handle hbefore with ⟨t, ht⟩
    have hprocess : t.1 ≠ process := by
      rw [← (h.thread t).process_of_owns ht]
      exact halive
    refine ⟨t, ?_⟩
    have hsame : (w.die process).threads t = w.threads t := if_neg hprocess
    rw [hsame]
    exact ht

theorem lockOk_step {e : LockEvent π τ κ ν} (h : LockOk counted w)
    (hnext : w.next counted e = some w') : LockOk counted w' := by
  cases e with
  | enter t key => exact h.enter hnext
  | openFile t ok => exact h.openFile hnext
  | lockFile t ok => exact h.lockFile hnext
  | leave t => exact h.leave hnext
  | unlockFile t ok => exact h.unlockFile hnext
  | closeFile t => exact h.closeFile hnext
  | read t key => exact h.read hnext
  | write t key content => exact h.write hnext
  | die process =>
      cases hnext
      exact h.die process

theorem lockOk_reachable (h : (lockSystem counted).Reachable w) : LockOk counted w := by
  apply h.invariant
  · rintro _ ⟨files, rfl⟩
    exact LockOk.start files
  · intro a e b _ ha hstep
    exact lockOk_step ha hstep

/-! ## Other threads -/

/-- The thread that takes the step. -/
def LockEvent.thread? : LockEvent π τ κ ν → Option (π × τ)
  | .enter t _ | .openFile t _ | .lockFile t _ | .leave t | .unlockFile t _ | .closeFile t
  | .read t _ | .write t _ _ => some t
  | .die _ => none

/-- A step changes its own thread only, and what that knows of a file only where it reads or
writes the file or leaves a block. -/
theorem next_become {e : LockEvent π τ κ ν} (hnext : w.next counted e = some w')
    (ht : e.thread? = some t) :
    ∃ s, w'.threads = Function.update w.threads t s ∧
      ∀ key, s.known key = (w.threads t).known key ∨ e = .leave t ∨ e = .read t key ∨
        ∃ content, e = .write t key content := by
  cases e <;> cases ht <;> unfold LockWorld.next at hnext <;> dsimp only at hnext
  case enter.refl key =>
    split at hnext
    · split_ifs at hnext <;> cases hnext <;> exact ⟨_, rfl, fun _ => .inl rfl⟩
    · cases hnext
  case openFile.refl ok =>
    split at hnext
    · split_ifs at hnext <;> cases hnext <;> exact ⟨_, rfl, fun _ => .inl rfl⟩
    · cases hnext
  case lockFile.refl ok =>
    split at hnext
    · rename_i key handle hstage
      by_cases hok : ok = true
      · by_cases hfree : w.locked key = none
        · rw [if_pos hok, if_pos hfree] at hnext
          cases hnext
          exact ⟨_, rfl, fun _ => .inl rfl⟩
        · rw [if_pos hok, if_neg hfree] at hnext
          cases hnext
      · rw [if_neg hok] at hnext
        cases hnext
        exact ⟨_, rfl, fun _ => .inl rfl⟩
    · cases hnext
  case leave.refl =>
    split at hnext <;> cases hnext <;> exact ⟨_, rfl, fun _ => .inr (.inl rfl)⟩
  case unlockFile.refl ok =>
    split at hnext
    · cases hnext
      cases ok <;> exact ⟨_, rfl, fun _ => .inl rfl⟩
    · cases hnext
  case closeFile.refl =>
    split at hnext <;> cases hnext
    exact ⟨_, rfl, fun _ => .inl rfl⟩
  case read.refl key =>
    split_ifs at hnext
    cases hnext
    refine ⟨_, rfl, fun key' => ?_⟩
    by_cases hsame : key' = key
    · exact .inr (.inr (.inl (by rw [hsame])))
    · exact .inl (Function.update_of_ne hsame _ _)
  case write.refl key content =>
    split_ifs at hnext
    cases hnext
    refine ⟨_, rfl, fun key' => ?_⟩
    by_cases hsame : key' = key
    · exact .inr (.inr (.inr ⟨content, by rw [hsame]⟩))
    · exact .inl (Function.update_of_ne hsame _ _)

/-- Steps of other threads and the end of other processes leave a thread alone. -/
theorem next_other {e : LockEvent π τ κ ν} (hnext : w.next counted e = some w')
    (hthread : e.thread? ≠ some t) (hdie : e ≠ .die t.1) : w'.threads t = w.threads t := by
  cases he : e.thread? with
  | some u =>
      rcases next_become hnext he with ⟨s, hs, -⟩
      have hne : t ≠ u := by
        rintro rfl
        exact hthread he
      rw [hs, Function.update_of_ne hne]
  | none =>
      cases e with
      | die process =>
          cases hnext
          have hne : t.1 ≠ process := by
            rintro rfl
            exact hdie rfl
          exact if_neg hne
      | _ => cases he

/-- What a thread knows of a file changes only where it reads or writes it, or leaves. -/
theorem known_kept {e : LockEvent π τ κ ν} {key : κ} (hnext : w.next counted e = some w') :
    (w'.threads t).known key = (w.threads t).known key ∨ e = .leave t ∨ e = .die t.1 ∨
      e = .read t key ∨ ∃ content, e = .write t key content := by
  by_cases hdie : e = .die t.1
  · exact .inr (.inr (.inl hdie))
  by_cases hthread : e.thread? = some t
  · rcases next_become hnext hthread with ⟨s, hs, hknown⟩
    rw [hs, Function.update_self]
    rcases hknown key with hkept | hleave | hread
    · exact .inl hkept
    · exact .inr (.inl hleave)
    · exact .inr (.inr (.inr hread))
  · left
    rw [next_other hnext hthread hdie]

/-! ## The law -/

/-- A thread waits for a file that it has locked itself. -/
def LockThread.Stuck (s : LockThread π κ ν) (key : κ) : Prop :=
  0 < s.inside key ∧ ∃ handle, s.stage = .locking key handle

theorem LockOk.stuck_step {e : LockEvent π τ κ ν} {key : κ} (h : LockOk counted w)
    (hstuck : (w.threads t).Stuck key) (hnext : w.next counted e = some w')
    (hdie : e ≠ .die t.1) (hfails : e ≠ .lockFile t false) : w'.threads t = w.threads t := by
  rcases hstuck with ⟨hinside, handle, hstage⟩
  apply next_other hnext _ hdie
  intro ht
  rcases (h.thread t).exists_handle hinside with ⟨held, -, hheld, -⟩
  cases e <;> cases ht <;> unfold LockWorld.next at hnext <;>
    simp only [hstage, reduceCtorEq, false_and, if_false] at hnext
  case lockFile.refl ok =>
    cases ok with
    | true => simp [hheld] at hnext
    | false => exact hfails rfl

/-- Who enters a lock that does not count a second time waits for itself. -/
theorem LockOk.stuck_run {es : List (LockEvent π τ κ ν)} {key : κ} (h : LockOk counted w)
    (hstuck : (w.threads t).Stuck key) (hrun : (lockSystem counted).Run w es w')
    (hdie : .die t.1 ∉ es) (hfails : .lockFile t false ∉ es) : w'.threads t = w.threads t := by
  induction hrun with
  | nil => rfl
  | @cons a b c e es hstep _ ih =>
      have hfirst : b.threads t = a.threads t :=
        h.stuck_step hstuck hstep (fun heq => hdie (heq ▸ List.mem_cons_self))
          (fun heq => hfails (heq ▸ List.mem_cons_self))
      rw [← hfirst]
      apply ih (lockOk_step h hstep) (by rw [hfirst]; exact hstuck)
      · exact fun hmem => hdie (List.mem_cons_of_mem _ hmem)
      · exact fun hmem => hfails (List.mem_cons_of_mem _ hmem)

/-- What the locks guarantee in a state. -/
structure LockLaw (counted : κ → Bool) (w : LockWorld π τ κ ν) : Prop where
  exclusion : ∀ t u key, 0 < (w.threads t).inside key → 0 < (w.threads u).inside key → t = u
  current : ∀ t key content, (w.threads t).known key = some content → w.files key = content
  kept : ∀ t key e w', w.next counted e = some w' →
    (w'.threads t).known key = (w.threads t).known key ∨ e = .leave t ∨ e = .die t.1 ∨
      e = .read t key ∨ ∃ content, e = .write t key content
  reenter : ∀ t key, counted key = true → (w.threads t).stage = .body →
    0 < (w.threads t).inside key → ∃ w', w.next counted (.enter t key) = some w' ∧
      (w'.threads t).stage = .body ∧ (w'.threads t).inside key = (w.threads t).inside key + 1
  enter : ∀ t key, (w.threads t).stage = .body →
    (∀ u, u.1 = t.1 → u ≠ t → (w.threads u).holds key = 0) →
    (w.next counted (.enter t key)).isSome = true
  lockFile : ∀ t key handle, (w.threads t).stage = .locking key handle →
    ((w.next counted (.lockFile t true)).isSome = true ↔
      ¬ ∃ u other, (w.threads u).owns key other ∧ w.locked key = some other)
  notStuck : ∀ t key, counted key = true → ¬ (w.threads t).Stuck key
  stuck : ∀ t key, (w.threads t).Stuck key → ∀ es w', (lockSystem counted).Run w es w' →
    .die t.1 ∉ es → .lockFile t false ∉ es → w'.threads t = w.threads t
  atRest : (∀ t, (w.threads t).blocks = [] ∧ (w.threads t).stage = .body) →
    (∀ process key, (w.threadLocks process key).owner = none) ∧ (∀ key, w.locked key = none) ∧
      ∀ t key, counted key = true → (w.threads t).depth key = 0

theorem LockOk.reenter (h : LockOk counted w) {key : κ} (hcounted : counted key = true)
    (hstage : (w.threads t).stage = .body) (hinside : 0 < (w.threads t).inside key) :
    ∃ w', w.next counted (.enter t key) = some w' ∧ (w'.threads t).stage = .body ∧
      (w'.threads t).inside key = (w.threads t).inside key + 1 := by
  have hothers : ∀ n, n ≠ t.2 → (w.threads (t.1, n)).holds key = 0 := by
    intro n hn
    by_contra hheld
    have hsame : (t.1, n) = t := h.eq_of_holds rfl (Nat.pos_of_ne_zero hheld)
      (LockThread.holds_of_inside hinside)
    exact hn (congrArg Prod.snd hsame)
  have hacquire := (h.tracks t.1 key).acquire_isSome hothers
  rcases Option.isSome_iff_exists.mp hacquire with ⟨lock, hlock⟩
  have hdepth : (w.threads t).depth key ≠ 0 := by
    rw [(h.thread t).depth key hcounted]
    omega
  have hnext : w.next counted (.enter t key) =
      some ((w.setThreadLock t.1 key lock).become t { w.threads t with
        depths := (w.threads t).depths.set key ((w.threads t).depth key + 1)
        blocks := ⟨key, none⟩ :: (w.threads t).blocks }) := by
    unfold LockWorld.next
    simp only [hlock, hstage]
    rw [if_pos ⟨hcounted, hdepth⟩]
  refine ⟨_, hnext, ?_, ?_⟩
  · simp [LockWorld.become, hstage]
  · simp [LockWorld.become, LockThread.inside]

theorem LockOk.enter_isSome (h : LockOk counted w) {key : κ}
    (hstage : (w.threads t).stage = .body)
    (hothers : ∀ u, u.1 = t.1 → u ≠ t → (w.threads u).holds key = 0) :
    (w.next counted (.enter t key)).isSome = true := by
  have hacquire := (h.tracks t.1 key).acquire_isSome (n := t.2) fun n hn =>
    hothers (t.1, n) rfl fun heq => hn (congrArg Prod.snd heq)
  rcases Option.isSome_iff_exists.mp hacquire with ⟨lock, hlock⟩
  unfold LockWorld.next
  simp only [hstage, hlock]
  split_ifs <;> rfl

theorem LockOk.lockFile_isSome_iff (h : LockOk counted w) {key : κ} {handle : Handle π}
    (hstage : (w.threads t).stage = .locking key handle) :
    (w.next counted (.lockFile t true)).isSome = true ↔
      ¬ ∃ u other, (w.threads u).owns key other ∧ w.locked key = some other := by
  unfold LockWorld.next
  simp only [hstage, if_true]
  cases hlocked : w.locked key with
  | none => simp
  | some held =>
      rcases h.owner key held hlocked with ⟨u, hu⟩
      simp only [reduceCtorEq, if_false, Option.isSome_none, Bool.false_eq_true, false_iff]
      intro hnobody
      exact hnobody ⟨u, held, hu, rfl⟩

omit [DecidableEq τ] [DecidableEq π] in
theorem LockOk.atRest (h : LockOk counted w)
    (hrest : ∀ t, (w.threads t).blocks = [] ∧ (w.threads t).stage = .body) :
    (∀ process key, (w.threadLocks process key).owner = none) ∧ (∀ key, w.locked key = none) ∧
      ∀ t key, counted key = true → (w.threads t).depth key = 0 := by
  have houtside : ∀ t key, (w.threads t).inside key = 0 := by
    intro t key
    unfold LockThread.inside
    rw [(hrest t).1]
    rfl
  refine ⟨?_, ?_, ?_⟩
  · intro process key
    apply (h.tracks process key).owner_eq_none
    intro n
    simp [LockThread.holds, houtside, (hrest (process, n)).2, LockStage.key?]
  · intro key
    by_contra hlocked
    rcases Option.ne_none_iff_exists'.mp hlocked with ⟨handle, hheld⟩
    rcases h.owner key handle hheld with ⟨t, hmem | hstage | hstage⟩
    · rw [(hrest t).1] at hmem
      cases hmem
    · rw [(hrest t).2] at hstage
      cases hstage
    · rw [(hrest t).2] at hstage
      cases hstage
  · intro t key hcounted
    rw [(h.thread t).depth key hcounted]
    exact houtside t key

/-- In every interleaving of threads and processes, whatever fails, one thread at a time is in
blocks of a lock and a file changes under no thread that has read it in a block.  A thread in a
block can enter again where blocks are counted, and never waits for itself there; where they are
not, entering again waits forever.  A thread waits for a thread in a block or on its way out of one
only, and nothing stays locked when all threads are out. -/
theorem lock_law (counted : κ → Bool) (w : LockWorld π τ κ ν)
    (hw : (lockSystem counted).Reachable w) : LockLaw counted w := by
  have h := lockOk_reachable hw
  constructor
  · intro t u key ht hu
    exact h.exclusion ht hu
  · intro t key content hknown
    exact ((h.thread t).known key content hknown).2
  · intro t key e w' hnext
    exact known_kept hnext
  · intro t key hcounted hstage hinside
    exact h.reenter hcounted hstage hinside
  · intro t key hstage hothers
    exact h.enter_isSome hstage hothers
  · intro t key handle hstage
    exact h.lockFile_isSome_iff hstage
  · rintro t key hcounted ⟨hinside, handle, hstage⟩
    have hzero := (h.thread t).once key hcounted (by rw [hstage]; rfl)
    omega
  · intro t key hstuck es w' hrun hdie hfails
    exact h.stuck_run hstuck hrun hdie hfails
  · exact h.atRest

end Moves

end Invariant

/-- Process 0 is in two blocks of the snapshot lock and process 1 waits with the file open; then a
second thread of process 0 is in the floor lock and enters it again. -/
def waitingSteps : List (LockEvent Nat Nat Bool Nat) :=
  [.enter (0, 0) true, .openFile (0, 0) true, .lockFile (0, 0) true, .enter (0, 0) true,
    .read (0, 0) true, .enter (1, 0) true, .openFile (1, 0) true, .write (0, 0) true 8,
    .enter (0, 1) false, .openFile (0, 1) true, .lockFile (0, 1) true, .enter (0, 1) false,
    .openFile (0, 1) true]

theorem lock_law_waiting :
    ∃ w : LockWorld Nat Nat Bool Nat,
      TransitionSystem.play (LockWorld.next fun key => key) (.start fun _ => 7) waitingSteps =
        some w ∧
      (w.threads (0, 0)).known true = some 8 ∧ (w.threads (0, 1)).Stuck false ∧
      LockLaw (fun key => key) w := by
  have hplay : TransitionSystem.play (LockWorld.next fun key => key) (.start fun _ => 7)
      waitingSteps = some _ := rfl
  refine ⟨_, hplay, rfl, ⟨by decide, _, rfl⟩, lock_law _ _ ?_⟩
  exact .play (.init ⟨_, rfl⟩) (fun _ _ _ hnext => hnext) hplay

end Storage
end Stemcell
