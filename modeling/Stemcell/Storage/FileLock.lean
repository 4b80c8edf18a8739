import Stemcell.Lib.Dict
import Stemcell.Lib.Reentrant
import Stemcell.Lib.Transition

/-!
# The locks of files

Threads of several processes change the same files.  Each file has a lock of its own: in a process
it is a lock that its thread can take again, and between processes it is a lock on an open file.  A
thread counts how many blocks of a lock it is in, and locks the file for the outermost block only.
The lock of the release floor does not count.

Main results:

- Definition `LockWorld.next`: one step of a thread, with its failures, or the end of a process.
- Definition `LockOk`: the invariant of the locks.
- Theorem `LockOk.exclusion`: two threads are never in blocks of one lock.
- Theorems `ThreadOk.nest`, `ThreadOk.unnest`, `ThreadOk.gain` and `ThreadOk.leaveOuter`: what a
  thread that enters or leaves a block keeps up.

Current gaps:

- Only threads that are in a block read and write the file.
- Lock files are not removed, and an interrupt does not fall between two statements.
-/

namespace Stemcell
namespace Storage

open Lib

/-! ## Threads and locks -/

/-- An open file, of one process. -/
structure Handle (π : Type) where
  process : π
  number : Nat
deriving DecidableEq

/-- A `with` block that a thread is in.  The outermost one of a lock has the open file. -/
structure Block (π κ : Type) where
  key : κ
  handle : Option (Handle π)
deriving DecidableEq

/-- What a thread does: it runs the code of its innermost block, opens the lock file, waits for the
lock on it, unlocks it, or closes it. -/
inductive LockStage (π κ : Type)
  | body
  | opening (key : κ)
  | locking (key : κ) (handle : Handle π)
  | unlocking (key : κ) (handle : Handle π)
  | closing (key : κ) (handle : Handle π)
deriving DecidableEq

/-- The lock that the thread is entering or leaving. -/
def LockStage.key? {π κ : Type} : LockStage π κ → Option κ
  | .body => none
  | .opening key | .locking key _ | .unlocking key _ | .closing key _ => some key

/-- The open file that the thread is locking or unlocking. -/
def LockStage.handle? {π κ : Type} : LockStage π κ → Option (Handle π)
  | .body | .opening _ => none
  | .locking _ handle | .unlocking _ handle | .closing _ handle => some handle

/-- A thread, with its blocks from the inside out, and what it has last read or written of a file
since it entered the outermost block of its lock. -/
structure LockThread (π κ ν : Type) where
  depths : Dict κ Nat
  blocks : List (Block π κ)
  stage : LockStage π κ
  known : κ → Option ν

/-- The threads of all processes, the locks of each process, the open files that are locked, and
the files. -/
structure LockWorld (π τ κ ν : Type) where
  threads : π × τ → LockThread π κ ν
  threadLocks : π → κ → ReentrantLock τ
  locked : κ → Option (Handle π)
  files : κ → ν
  opened : Nat

inductive LockEvent (π τ κ ν : Type)
  | enter (thread : π × τ) (key : κ)
  | openFile (thread : π × τ) (ok : Bool)
  | lockFile (thread : π × τ) (ok : Bool)
  | leave (thread : π × τ)
  | unlockFile (thread : π × τ) (ok : Bool)
  | closeFile (thread : π × τ)
  | read (thread : π × τ) (key : κ)
  | write (thread : π × τ) (key : κ) (content : ν)
  | die (process : π)
deriving DecidableEq

section Steps

variable {π τ κ ν : Type}

/-- A thread outside all blocks. -/
def LockThread.start : LockThread π κ ν where
  depths := .empty
  blocks := []
  stage := .body
  known := fun _ => none

/-- Before anything runs. -/
def LockWorld.start (files : κ → ν) : LockWorld π τ κ ν where
  threads := fun _ => .start
  threadLocks := fun _ _ => .free
  locked := fun _ => none
  files := files
  opened := 0

variable [DecidableEq κ]

/-- How many blocks of a lock the thread is in. -/
def LockThread.inside (s : LockThread π κ ν) (key : κ) : Nat :=
  s.blocks.countP (·.key = key)

/-- How often the thread holds the lock of its process. -/
def LockThread.holds (s : LockThread π κ ν) (key : κ) : Nat :=
  s.inside key + if s.stage.key? = some key then 1 else 0

/-- `depths.get(key, 0)`. -/
def LockThread.depth (s : LockThread π κ ν) (key : κ) : Nat :=
  (s.depths.get? key).getD 0

variable [DecidableEq π] [DecidableEq τ]

def LockWorld.become (w : LockWorld π τ κ ν) (thread : π × τ) (s : LockThread π κ ν) :
    LockWorld π τ κ ν :=
  { w with threads := Function.update w.threads thread s }

def LockWorld.setThreadLock (w : LockWorld π τ κ ν) (process : π) (key : κ)
    (lock : ReentrantLock τ) : LockWorld π τ κ ν :=
  { w with
    threadLocks := Function.update w.threadLocks process
      (Function.update (w.threadLocks process) key lock) }

/-- The thread releases the lock of its process. -/
def LockWorld.releaseThreadLock (w : LockWorld π τ κ ν) (thread : π × τ) (key : κ) :
    LockWorld π τ κ ν :=
  w.setThreadLock thread.1 key ((w.threadLocks thread.1 key).release thread.2)

/-- An open file that is not locked can be unlocked. -/
def LockWorld.unlockHandle (w : LockWorld π τ κ ν) (key : κ) (handle : Handle π) :
    LockWorld π τ κ ν :=
  { w with
    locked := if w.locked key = some handle then Function.update w.locked key none else w.locked }

/-- What a process leaves behind. -/
def LockWorld.die (w : LockWorld π τ κ ν) (process : π) : LockWorld π τ κ ν where
  threads := fun thread => if thread.1 = process then .start else w.threads thread
  threadLocks := Function.update w.threadLocks process fun _ => .free
  locked := fun key => (w.locked key).filter fun handle => handle.process ≠ process
  files := w.files
  opened := w.opened

/-- `counted` locks are those of `file_lock` and `_snapshot_store_lock`; the other one is that of
`_release_floor_lock`. -/
def LockWorld.next (counted : κ → Bool) (w : LockWorld π τ κ ν) :
    LockEvent π τ κ ν → Option (LockWorld π τ κ ν)
  | .enter thread key =>
      let s := w.threads thread
      match s.stage, (w.threadLocks thread.1 key).acquire thread.2 with
      | .body, some lock =>
          let w := w.setThreadLock thread.1 key lock
          if counted key = true ∧ s.depth key ≠ 0 then
            some (w.become thread { s with
              depths := s.depths.set key (s.depth key + 1)
              blocks := ⟨key, none⟩ :: s.blocks })
          else
            some (w.become thread { s with stage := .opening key })
      | _, _ => none
  | .openFile thread ok =>
      let s := w.threads thread
      match s.stage with
      | .opening key =>
          if ok then
            let handle : Handle π := ⟨thread.1, w.opened⟩
            some ({ w with opened := w.opened + 1 }.become thread { s with
              stage := .locking key handle })
          else
            some ((w.releaseThreadLock thread key).become thread { s with stage := .body })
      | _ => none
  | .lockFile thread ok =>
      let s := w.threads thread
      match s.stage with
      | .locking key handle =>
          if ok then
            if w.locked key = none then
              some ({ w with locked := Function.update w.locked key (some handle) }.become thread
                { s with
                  depths := if counted key then s.depths.set key 1 else s.depths
                  blocks := ⟨key, some handle⟩ :: s.blocks
                  stage := .body })
            else none
          else
            some (w.become thread { s with
              depths := if counted key then s.depths.pop key else s.depths
              stage := .unlocking key handle })
      | _ => none
  | .leave thread =>
      let s := w.threads thread
      match s.stage, s.blocks with
      | .body, ⟨key, none⟩ :: blocks =>
          some ((w.releaseThreadLock thread key).become thread { s with
            depths := s.depths.set key (s.depth key - 1)
            blocks := blocks })
      | .body, ⟨key, some handle⟩ :: blocks =>
          some (w.become thread { s with
            depths := if counted key then s.depths.pop key else s.depths
            blocks := blocks
            stage := .unlocking key handle
            known := Function.update s.known key none })
      | _, _ => none
  | .unlockFile thread ok =>
      let s := w.threads thread
      match s.stage with
      | .unlocking key handle =>
          let w := if ok then w.unlockHandle key handle else w
          some (w.become thread { s with stage := .closing key handle })
      | _ => none
  | .closeFile thread =>
      let s := w.threads thread
      match s.stage with
      | .closing key handle =>
          some (((w.unlockHandle key handle).releaseThreadLock thread key).become thread { s with
            stage := .body })
      | _ => none
  | .read thread key =>
      let s := w.threads thread
      if s.stage = .body ∧ 0 < s.inside key then
        some (w.become thread { s with known := Function.update s.known key (some (w.files key)) })
      else none
  | .write thread key content =>
      let s := w.threads thread
      if s.stage = .body ∧ 0 < s.inside key then
        some ({ w with files := Function.update w.files key content }.become thread
          { s with known := Function.update s.known key (some content) })
      else none
  | .die process => some (w.die process)

def lockSystem (counted : κ → Bool) :
    TransitionSystem (LockWorld π τ κ ν) (LockEvent π τ κ ν) where
  init := fun w => ∃ files, w = .start files
  step := fun w e w' => w.next counted e = some w'

end Steps

/-! ## The invariant -/

section Invariant

variable {π τ κ ν : Type} [DecidableEq κ]

/-- Of the blocks of a lock the outermost one, and no other, has the open file. -/
def Nested : List (Block π κ) → Prop
  | [] => True
  | block :: blocks =>
      (block.handle = none ↔ ∃ outer ∈ blocks, outer.key = block.key) ∧ Nested blocks

/-- What holds for a thread of a process. -/
structure ThreadOk (counted : κ → Bool) (locked : κ → Option (Handle π)) (files : κ → ν)
    (opened : Nat) (process : π) (s : LockThread π κ ν) : Prop where
  depth : ∀ key, counted key = true → s.depth key = s.inside key
  nested : Nested s.blocks
  locks : ∀ key handle, ⟨key, some handle⟩ ∈ s.blocks →
    locked key = some handle ∧ handle.process = process ∧ handle.number < opened
  stage : ∀ key handle, s.stage.key? = some key → s.stage.handle? = some handle →
    ⟨key, some handle⟩ ∉ s.blocks ∧ handle.process = process ∧ handle.number < opened
  once : ∀ key, counted key = true → s.stage.key? = some key → s.inside key = 0
  waits : ∀ key handle, s.stage = .locking key handle → locked key ≠ some handle
  known : ∀ key content, s.known key = some content → 0 < s.inside key ∧ files key = content

/-- The thread has, or is about to give back, the lock on the open file. -/
def LockThread.owns (s : LockThread π κ ν) (key : κ) (handle : Handle π) : Prop :=
  ⟨key, some handle⟩ ∈ s.blocks ∨ s.stage = .unlocking key handle ∨ s.stage = .closing key handle

structure LockOk (counted : κ → Bool) (w : LockWorld π τ κ ν) : Prop where
  thread : ∀ t, ThreadOk counted w.locked w.files w.opened t.1 (w.threads t)
  tracks : ∀ process key,
    (w.threadLocks process key).Tracks fun number => (w.threads (process, number)).holds key
  owner : ∀ key handle, w.locked key = some handle → ∃ t, (w.threads t).owns key handle

variable {counted : κ → Bool} {locked locked' : κ → Option (Handle π)} {files files' : κ → ν}
  {opened opened' : Nat} {process : π} {s s' : LockThread π κ ν} {t : π × τ}
  {w w' : LockWorld π τ κ ν}

theorem LockThread.inside_pos_iff {key : κ} :
    0 < s.inside key ↔ ∃ block ∈ s.blocks, block.key = key := by
  unfold LockThread.inside
  rw [List.countP_pos_iff]
  simp

/-- A thread in blocks of a lock has its open file. -/
theorem Nested.exists_handle {key : κ} {blocks : List (Block π κ)} (h : Nested blocks)
    (hinside : ∃ block ∈ blocks, block.key = key) : ∃ handle, ⟨key, some handle⟩ ∈ blocks := by
  induction blocks with
  | nil => simp at hinside
  | cons block blocks ih =>
      rcases block with ⟨key', handle⟩
      by_cases hbelow : ∃ outer ∈ blocks, outer.key = key
      · rcases ih h.2 hbelow with ⟨handle', hmem⟩
        exact ⟨handle', List.mem_cons_of_mem _ hmem⟩
      · rcases hinside with ⟨found, hfound, rfl⟩
        rcases List.mem_cons.mp hfound with rfl | hfound
        · cases handle with
          | some handle => exact ⟨handle, List.mem_cons_self⟩
          | none => exact absurd (h.1.mp rfl) hbelow
        · exact absurd ⟨found, hfound, rfl⟩ hbelow

theorem ThreadOk.exists_handle (h : ThreadOk counted locked files opened process s) {key : κ}
    (hinside : 0 < s.inside key) :
    ∃ handle, ⟨key, some handle⟩ ∈ s.blocks ∧ locked key = some handle ∧
      handle.process = process := by
  rcases h.nested.exists_handle (LockThread.inside_pos_iff.mp hinside) with ⟨handle, hmem⟩
  have hlocks := h.locks key handle hmem
  exact ⟨handle, hmem, hlocks.1, hlocks.2.1⟩

/-- What happens to other locks and files does not concern a thread. -/
theorem ThreadOk.frame (h : ThreadOk counted locked files opened process s)
    (hopened : opened ≤ opened')
    (hsame : ∀ key, 0 < s.inside key → locked' key = locked key ∧ files' key = files key)
    (hwaits : ∀ key handle, s.stage = .locking key handle → locked' key ≠ some handle) :
    ThreadOk counted locked' files' opened' process s := by
  have hinside : ∀ key handle, ⟨key, some handle⟩ ∈ s.blocks → 0 < s.inside key :=
    fun key handle hmem => LockThread.inside_pos_iff.mpr ⟨_, hmem, rfl⟩
  refine ⟨h.depth, h.nested, ?_, ?_, h.once, hwaits, ?_⟩
  · intro key handle hmem
    have hlocks := h.locks key handle hmem
    rw [(hsame key (hinside key handle hmem)).1]
    exact ⟨hlocks.1, hlocks.2.1, by omega⟩
  · intro key handle hkey hhandle
    have hstage := h.stage key handle hkey hhandle
    exact ⟨hstage.1, hstage.2.1, by omega⟩
  · intro key content hknown
    have hkept := h.known key content hknown
    rw [(hsame key hkept.1).2]
    exact hkept

/-- Threads that hold the lock of one process are one thread. -/
theorem LockOk.eq_of_holds (h : LockOk counted w) {key : κ} {t u : π × τ} (hprocess : t.1 = u.1)
    (ht : 0 < (w.threads t).holds key) (hu : 0 < (w.threads u).holds key) : t = u := by
  rcases t with ⟨p, m⟩
  rcases u with ⟨q, n⟩
  cases hprocess
  have hsame := (h.tracks p key).eq_of_holds ht hu
  rw [hsame]

theorem LockThread.holds_of_inside {key : κ} (h : 0 < s.inside key) : 0 < s.holds key := by
  unfold LockThread.holds
  omega

theorem LockThread.holds_of_stage {key : κ} (h : s.stage.key? = some key) : 0 < s.holds key := by
  unfold LockThread.holds
  rw [if_pos h]
  omega

omit [DecidableEq κ] in
/-- A thread that gives nothing back has what it owns in a block. -/
theorem LockThread.owns.mem {key : κ} {handle : Handle π} (h : s.owns key handle)
    (hunlocking : s.stage ≠ .unlocking key handle) (hclosing : s.stage ≠ .closing key handle) :
    ⟨key, some handle⟩ ∈ s.blocks := by
  rcases h with hmem | hstage | hstage
  · exact hmem
  · exact absurd hstage hunlocking
  · exact absurd hstage hclosing

theorem LockThread.holds_of_owns {key : κ} {handle : Handle π} (h : s.owns key handle) :
    0 < s.holds key := by
  rcases h with hmem | hstage | hstage
  · exact holds_of_inside (inside_pos_iff.mpr ⟨_, hmem, rfl⟩)
  · exact holds_of_stage (by rw [hstage]; rfl)
  · exact holds_of_stage (by rw [hstage]; rfl)

theorem ThreadOk.process_of_owns (h : ThreadOk counted locked files opened process s) {key : κ}
    {handle : Handle π} (howns : s.owns key handle) : handle.process = process := by
  rcases howns with hmem | hstage | hstage
  · exact (h.locks key handle hmem).2.1
  · exact (h.stage key handle (by rw [hstage]; rfl) (by rw [hstage]; rfl)).2.1
  · exact (h.stage key handle (by rw [hstage]; rfl) (by rw [hstage]; rfl)).2.1

/-- Two threads are never in blocks of one lock. -/
theorem LockOk.exclusion (h : LockOk counted w) {key : κ} {t u : π × τ}
    (ht : 0 < (w.threads t).inside key) (hu : 0 < (w.threads u).inside key) : t = u := by
  rcases (h.thread t).exists_handle ht with ⟨first, -, hfirst, hfirstProcess⟩
  rcases (h.thread u).exists_handle hu with ⟨second, -, hsecond, hsecondProcess⟩
  have hsame : first = second := Option.some.inj (hfirst.symm.trans hsecond)
  have hprocess : t.1 = u.1 := by rw [← hfirstProcess, ← hsecondProcess, hsame]
  apply h.eq_of_holds hprocess (LockThread.holds_of_inside ht) (LockThread.holds_of_inside hu)

/-- Who is about to give a locked file back keeps other threads out. -/
theorem LockOk.outside_of_owns (h : LockOk counted w) {key : κ} {handle : Handle π} {t u : π × τ}
    (hlocked : w.locked key = some handle) (ht : (w.threads t).owns key handle) (hne : u ≠ t) :
    (w.threads u).inside key = 0 := by
  by_contra hinside
  have hpos := Nat.pos_of_ne_zero hinside
  rcases (h.thread u).exists_handle hpos with ⟨other, -, hother, hprocess⟩
  have hsame : other = handle := Option.some.inj (hother.symm.trans hlocked)
  have hsameProcess : u.1 = t.1 := by
    rw [← hprocess, hsame, (h.thread t).process_of_owns ht]
  exact hne (h.eq_of_holds hsameProcess (LockThread.holds_of_inside hpos)
    (LockThread.holds_of_owns ht))

/-- A thread in a block is inside once more than the blocks below it say. -/
theorem LockThread.inside_cons {key : κ} {handle : Option (Handle π)} {blocks : List (Block π κ)}
    (h : s.blocks = ⟨key, handle⟩ :: blocks) (key' : κ) :
    s.inside key' = blocks.countP (·.key = key') + if key = key' then 1 else 0 := by
  unfold LockThread.inside
  rw [h, List.countP_cons]
  simp

/-- A thread outside all blocks. -/
theorem ThreadOk.start : ThreadOk counted locked files opened process .start := by
  refine ⟨fun _ _ => rfl, trivial, ?_, ?_, fun _ _ _ => rfl, ?_, ?_⟩
  · intro key handle hmem
    cases hmem
  · intro key handle hkey
    cases hkey
  · intro key handle hstage
    cases hstage
  · intro key content hknown
    cases hknown

/-- A thread goes on to a stage that is not about an open file. -/
theorem ThreadOk.toStage (h : ThreadOk counted locked files opened process s)
    {stage : LockStage π κ} (hhandle : stage.handle? = none)
    (honce : ∀ key, counted key = true → stage.key? = some key → s.inside key = 0) :
    ThreadOk counted locked files opened process { s with stage := stage } := by
  refine ⟨h.depth, h.nested, h.locks, ?_, honce, ?_, h.known⟩
  · intro key handle _ hsome
    rw [hhandle] at hsome
    cases hsome
  · rintro key handle rfl
    cases hhandle

theorem LockOk.start (files : κ → ν) :
    LockOk counted (LockWorld.start files : LockWorld π τ κ ν) := by
  refine ⟨fun _ => ThreadOk.start, fun _ _ => ReentrantLock.tracks_free, ?_⟩
  intro key handle hheld
  cases hheld

/-- A thread enters a block of a lock that it has. -/
theorem ThreadOk.nest (h : ThreadOk counted locked files opened process s) {key : κ}
    (hinside : 0 < s.inside key) (hstage : s.stage = .body) :
    ThreadOk counted locked files opened process { s with
      depths := s.depths.set key (s.depth key + 1)
      blocks := ⟨key, none⟩ :: s.blocks } := by
  have hcons : ∀ key', LockThread.inside { s with
      depths := s.depths.set key (s.depth key + 1)
      blocks := ⟨key, none⟩ :: s.blocks } key' = s.inside key' + if key = key' then 1 else 0 :=
    LockThread.inside_cons rfl
  refine ⟨?_, ?_, ?_, ?_, ?_, ?_, ?_⟩
  · intro key' hcounted'
    rw [hcons, ← h.depth key' hcounted']
    unfold LockThread.depth
    rw [Dict.get?_set]
    by_cases hsame : key = key'
    · subst hsame
      simp
    · simp [hsame]
  · exact ⟨⟨fun _ => LockThread.inside_pos_iff.mp hinside, fun _ => rfl⟩, h.nested⟩
  · intro key' handle hmem
    rcases List.mem_cons.mp hmem with heq | hmem
    · cases heq
    · exact h.locks key' handle hmem
  · intro key' handle hkey'
    dsimp only at hkey'
    rw [hstage] at hkey'
    cases hkey'
  · intro key' _ hkey'
    dsimp only at hkey'
    rw [hstage] at hkey'
    cases hkey'
  · intro key' handle hlocking
    exact h.waits key' handle hlocking
  · intro key' content hknown
    have hkept := h.known key' content hknown
    rw [hcons]
    exact ⟨by omega, hkept.2⟩

/-- A thread leaves a block that is not the outermost one. -/
theorem ThreadOk.unnest (h : ThreadOk counted locked files opened process s) {key : κ}
    {blocks : List (Block π κ)} (hblocks : s.blocks = ⟨key, none⟩ :: blocks)
    (hstage : s.stage = .body) :
    ThreadOk counted locked files opened process { s with
      depths := s.depths.set key (s.depth key - 1)
      blocks := blocks } := by
  have hnested : Nested (⟨key, none⟩ :: blocks) := hblocks ▸ h.nested
  have hmem : ∀ block ∈ blocks, block ∈ s.blocks := by
    intro block hblock
    rw [hblocks]
    exact List.mem_cons_of_mem _ hblock
  have hcons : ∀ key', s.inside key' =
      blocks.countP (·.key = key') + if key = key' then 1 else 0 :=
    LockThread.inside_cons hblocks
  refine ⟨?_, hnested.2, fun key' handle hblock => h.locks key' handle (hmem _ hblock), ?_, ?_,
    fun key' handle hlocking => h.waits key' handle hlocking, ?_⟩
  · intro key' hcounted
    have hdepth := h.depth key' hcounted
    rw [hcons] at hdepth
    unfold LockThread.depth at hdepth ⊢
    unfold LockThread.inside
    rw [Dict.get?_set]
    by_cases hsame : key = key'
    · subst hsame
      simp only [if_true] at hdepth ⊢
      simp only [Option.getD_some]
      omega
    · simp only [hsame, if_false] at hdepth ⊢
      exact hdepth
  · intro key' handle hkey'
    dsimp only at hkey'
    rw [hstage] at hkey'
    cases hkey'
  · intro key' _ hkey'
    dsimp only at hkey'
    rw [hstage] at hkey'
    cases hkey'
  · intro key' content hknown
    have hkept := h.known key' content hknown
    refine ⟨?_, hkept.2⟩
    by_cases hsame : key = key'
    · subst hsame
      exact LockThread.inside_pos_iff.mpr (hnested.1.mp rfl)
    · have hinside := hkept.1
      rw [hcons, if_neg hsame] at hinside
      exact hinside

/-- A thread leaves its outermost block of a lock. -/
theorem ThreadOk.leaveOuter (h : ThreadOk counted locked files opened process s) {key : κ}
    {handle : Handle π} {blocks : List (Block π κ)}
    (hblocks : s.blocks = ⟨key, some handle⟩ :: blocks) :
    ThreadOk counted locked files opened process { s with
      depths := if counted key then s.depths.pop key else s.depths
      blocks := blocks
      stage := .unlocking key handle
      known := Function.update s.known key none } := by
  have hnested : Nested (⟨key, some handle⟩ :: blocks) := hblocks ▸ h.nested
  have hmem : ∀ block ∈ blocks, block ∈ s.blocks := by
    intro block hblock
    rw [hblocks]
    exact List.mem_cons_of_mem _ hblock
  have houtside : ¬ ∃ outer ∈ blocks, outer.key = key := by
    intro hinside
    cases hnested.1.mpr hinside
  have hzero : blocks.countP (·.key = key) = 0 := by
    rw [List.countP_eq_zero]
    intro block hblock hsame
    exact houtside ⟨block, hblock, by simpa using hsame⟩
  have hcons : ∀ key', s.inside key' =
      blocks.countP (·.key = key') + if key = key' then 1 else 0 :=
    LockThread.inside_cons hblocks
  have hlocks := h.locks key handle (by rw [hblocks]; exact List.mem_cons_self)
  refine ⟨?_, hnested.2, fun key' handle hblock => h.locks key' handle (hmem _ hblock), ?_, ?_,
    ?_, ?_⟩
  · intro key' hcounted
    have hdepth := h.depth key' hcounted
    rw [hcons] at hdepth
    unfold LockThread.depth at hdepth ⊢
    unfold LockThread.inside
    by_cases hsame : key = key'
    · subst hsame
      simp only [hcounted, if_true]
      rw [Dict.get?_pop_self, hzero]
      rfl
    · simp only [hsame, if_false] at hdepth
      split_ifs
      · rw [Dict.get?_pop_of_ne _ hsame]
        exact hdepth
      · exact hdepth
  · intro key' handle' hkey' hhandle'
    cases hkey'
    cases hhandle'
    exact ⟨fun hblock => houtside ⟨_, hblock, rfl⟩, hlocks.2⟩
  · intro key' _ hkey'
    cases hkey'
    exact hzero
  · intro key' handle' hlocking
    cases hlocking
  · intro key' content hknown
    dsimp only at hknown
    by_cases hsame : key = key'
    · subst hsame
      rw [Function.update_self] at hknown
      cases hknown
    · rw [Function.update_of_ne (Ne.symm hsame)] at hknown
      have hkept := h.known key' content hknown
      have hinside := hkept.1
      rw [hcons, if_neg hsame] at hinside
      exact ⟨hinside, hkept.2⟩

/-- A thread has locked the file that it has opened. -/
theorem ThreadOk.gain (h : ThreadOk counted locked files opened process s) {key : κ}
    {handle : Handle π} (hstage : s.stage = .locking key handle) (hfree : locked key = none) :
    ThreadOk counted (Function.update locked key (some handle)) files opened process { s with
      depths := if counted key then s.depths.set key 1 else s.depths
      blocks := ⟨key, some handle⟩ :: s.blocks
      stage := .body } := by
  have houtside : ∀ block ∈ s.blocks, block.key ≠ key := by
    intro block hmem hsame
    rcases h.exists_handle (LockThread.inside_pos_iff.mpr ⟨block, hmem, hsame⟩) with
      ⟨held, -, hheld, -⟩
    rw [hfree] at hheld
    cases hheld
  have hkey : s.stage.key? = some key := by
    rw [hstage]
    rfl
  have hopen := h.stage key handle hkey (by rw [hstage]; rfl)
  have hcons : ∀ key', LockThread.inside { s with
      depths := if counted key then s.depths.set key 1 else s.depths
      blocks := ⟨key, some handle⟩ :: s.blocks
      stage := .body } key' = s.inside key' + if key = key' then 1 else 0 :=
    LockThread.inside_cons rfl
  refine ⟨?_, ⟨⟨nofun, ?_⟩, h.nested⟩, ?_, nofun, nofun, nofun, ?_⟩
  · intro key' hcounted
    have hdepth := h.depth key' hcounted
    rw [hcons]
    unfold LockThread.depth at hdepth ⊢
    by_cases hsame : key = key'
    · subst hsame
      simp [hcounted, h.once key hcounted hkey]
    · simp only [hsame, if_false, Nat.add_zero]
      rw [← hdepth]
      split_ifs
      · rw [Dict.get?_set_of_ne _ _ hsame]
      · rfl
  · rintro ⟨outer, hmem, hsame⟩
    exact absurd hsame (houtside outer hmem)
  · intro key' handle' hmem
    rcases List.mem_cons.mp hmem with heq | hmem
    · cases heq
      rw [Function.update_self]
      exact ⟨rfl, hopen.2⟩
    · rw [Function.update_of_ne (houtside _ hmem)]
      exact h.locks key' handle' hmem
  · intro key' content hknown
    have hkept := h.known key' content hknown
    rw [hcons]
    exact ⟨by omega, hkept.2⟩

end Invariant

end Storage
end Stemcell
