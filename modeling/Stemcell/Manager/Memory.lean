import Stemcell.Manager.Provider

/-!
# What a conversation holds

Later texts of a run rely on the conversation for the earlier ones.  Timeouts discard
conversations, missing sessions are created anew and a Codex thread may have to be
started, so which conversation holds a text depends on the outcomes of all attempts.

Main results:

- Definition `memory`: does the current conversation of a provider hold the text?  A
  fold over the outcomes of the attempts.
- Theorem `managerCode_remembers`: the fold tells the truth about every attempt.
-/

namespace Stemcell
namespace Manager

open Lib

/-! ## Folding the outcomes -/

/-- The attempt gets the text into its conversation. -/
def Started.receives (root : String) (e : Started) : Bool :=
  e.conversation.isSome && e.attempt.reached && e.text = root

/-- The conversation of the attempt holds the text, if `held` says whether the previous
conversation of its provider did. -/
def Started.holds (root : String) (held : Bool) (e : Started) : Bool :=
  (held && !e.begins) || e.receives root

/-- A timeout discards the conversation. -/
def Started.keeps (held : Bool) (e : Started) : Bool :=
  match e.attempt.ending with
  | .timedOut => false
  | _ => held

/-- One attempt, as far as the conversation of `provider` is concerned. -/
def remember (root : String) (provider : Provider) (held : Bool) (e : Started) : Bool :=
  if e.kind.provider = provider then e.keeps (e.holds root held) else held

/-- The conversation that `provider` would go on with holds the text. -/
def memory (root : String) (provider : Provider) (log : List Started) : Bool :=
  log.foldl (remember root provider) false

/-- An attempt of the log got the text into this conversation. -/
def Heard (root : String) (log : List Started) (provider : Provider) (id : String) : Prop :=
  ∃ e ∈ log, e.kind.provider = provider ∧ e.conversation = some id ∧
    e.attempt.reached = true ∧ e.text = root

/-! ## The invariant -/

/-- The conversation that a provider goes on with. -/
def ManagerState.current (s : ManagerState) : Provider → Option String
  | .claude => s.claudeSession
  | .codex => s.codexThread

/-- The id is none that will be made later. -/
def Old (env : Env) (drawn : Nat) (id : String) : Prop :=
  ∀ k, drawn ≤ k → env.fresh k ≠ id

/-- The fold is right about every attempt of the log. -/
def Sound (root : String) (log : List Started) : Prop :=
  ∀ front e rest, log = front ++ e :: rest → ∀ id, e.conversation = some id →
    (e.holds root (memory root e.kind.provider front) = true ↔
      Heard root (front ++ [e]) e.kind.provider id)

/-- The fold is right about the conversation that a provider goes on with. -/
def Knows (root : String) (s : ManagerState) (provider : Provider) : Prop :=
  ∀ id, s.current provider = some id →
    (memory root provider s.log = true ↔ Heard root s.log provider id)

/-- New conversations are new, and the fold is right about the attempts so far. -/
structure Tracks (env : Env) (root : String) (s : ManagerState) : Prop where
  heard : ∀ e ∈ s.log, ∀ id, e.conversation = some id → Old env s.drawn id
  current : ∀ provider id, s.current provider = some id → Old env s.drawn id
  sound : Sound root s.log

/-- The invariant between provider calls. -/
structure Remembers (env : Env) (root : String) (s : ManagerState) : Prop
    extends Tracks env root s where
  knows : ∀ provider, Knows root s provider

variable {env : Env} {root text : String} {later : Bool} {s t : ManagerState}
  {kind : Kind} {conversation : Option String} {begins : Bool} {provider : Provider}
  {log : List Started} {e : Started} {id : String}

theorem Old.mono {m n : Nat} (h : Old env m id) (hle : m ≤ n) : Old env n id :=
  fun k hk => h k (hle.trans hk)

theorem old_fresh (env : Env) (n : Nat) : Old env (n + 1) (env.fresh n) := by
  intro k hk heq
  have := env.fresh_injective heq
  omega

theorem memory_snoc : memory root provider (log ++ [e]) =
    remember root provider (memory root provider log) e := by
  rw [memory, List.foldl_append, List.foldl_cons, List.foldl_nil, ← memory]

/-- An attempt of this provider. -/
theorem memory_same (h : e.kind.provider = provider) : memory root provider (log ++ [e]) =
    e.keeps (e.holds root (memory root provider log)) := by
  rw [memory_snoc, remember, if_pos h]

/-- An attempt of the other provider. -/
theorem memory_other (h : e.kind.provider ≠ provider) : memory root provider (log ++ [e]) =
    memory root provider log := by
  rw [memory_snoc, remember, if_neg h]

theorem heard_snoc : Heard root (log ++ [e]) provider id ↔
    Heard root log provider id ∨
      e.kind.provider = provider ∧ e.conversation = some id ∧ e.attempt.reached = true ∧
        e.text = root := by
  simp only [Heard, List.mem_append, List.mem_singleton, or_and_right, exists_or,
    exists_eq_left]

theorem heard_other (h : e.kind.provider ≠ provider) :
    Heard root (log ++ [e]) provider id ↔ Heard root log provider id := by
  simp [heard_snoc, h]

theorem Started.keeps_eq {held : Bool} (h : e.attempt.ending ≠ .timedOut) :
    e.keeps held = held := by
  unfold Started.keeps
  split
  · exact absurd ‹_› h
  · rfl

theorem receives_iff (hconversation : e.conversation = some id) :
    e.receives root = true ↔ e.attempt.reached = true ∧ e.text = root := by
  simp [Started.receives, hconversation]

/-- A log without attempts. -/
theorem remembers_initial (hlog : s.log = [])
    (hcurrent : ∀ provider id, s.current provider = some id → Old env s.drawn id) :
    Remembers env root s where
  heard e he := by
    rw [hlog] at he
    exact absurd he List.not_mem_nil
  current := hcurrent
  sound front e rest hsplit := by
    rw [hlog] at hsplit
    simp at hsplit
  knows provider id _ := by
    simp [hlog, memory, Heard]

/-- One more attempt, about which the fold is right. -/
theorem Sound.snoc (h : Sound root log)
    (hlast : ∀ id, e.conversation = some id →
      (e.holds root (memory root e.kind.provider log) = true ↔
        Heard root (log ++ [e]) e.kind.provider id)) :
    Sound root (log ++ [e]) := by
  intro front b rest hsplit
  rcases List.eq_nil_or_concat' rest with rfl | ⟨rest, c, rfl⟩
  · rcases List.append_inj' hsplit rfl with ⟨rfl, heq⟩
    cases heq
    exact hlast
  · have hsplit' : log ++ [e] = (front ++ b :: rest) ++ [c] := by
      rw [hsplit, List.append_assoc, List.cons_append]
    exact h front b rest (List.append_inj' hsplit' rfl).1

/-! ## Attempts -/

/-- When an attempt may be started: its conversation is the current one of its provider
and began with it, or the fold is right about it. -/
structure Ready (root : String) (s : ManagerState) (kind : Kind)
    (conversation : Option String) (begins : Bool) : Prop where
  others : ∀ provider, provider ≠ kind.provider → Knows root s provider
  current : ∀ id, conversation = some id → s.current kind.provider = some id
  begun : ∀ id, conversation = some id → begins = true →
    ¬ Heard root s.log kind.provider id
  goesOn : begins = false → Knows root s kind.provider
  none : conversation = none → begins = false

theorem startAttempt_log :
    (startAttempt env text later s kind conversation begins).2.log =
      s.log ++ [(startAttempt env text later s kind conversation begins).1] :=
  rfl

theorem startAttempt_provider (env : Env) (text : String) (later : Bool) (s : ManagerState)
    (kind : Kind) (conversation : Option String) (begins : Bool) :
    (startAttempt env text later s kind conversation begins).1.kind.provider = kind.provider :=
  rfl

theorem startAttempt_current :
    (startAttempt env text later s kind conversation begins).2.current provider =
      s.current provider := by
  cases provider <;> rfl

/-- The fold is right about an attempt that was ready. -/
theorem Ready.holds_iff (h : Ready root s kind conversation begins)
    (hkind : e.kind = kind) (hconversation : e.conversation = conversation)
    (hbegins : e.begins = begins) (hid : conversation = some id) :
    e.holds root (memory root kind.provider s.log) = true ↔
      Heard root (s.log ++ [e]) kind.provider id := by
  have hprovider : e.kind.provider = kind.provider := by rw [hkind]
  have hsome : e.conversation = some id := hconversation.trans hid
  rw [heard_snoc, Started.holds, Bool.or_eq_true, receives_iff hsome, hbegins]
  simp only [hprovider, hsome, true_and]
  refine or_congr ?_ Iff.rfl
  cases begins with
  | true => simpa using h.begun id hid rfl
  | false => simpa using h.goesOn rfl id (h.current id hid)

theorem Tracks.start (h : Tracks env root s) (hready : Ready root s kind conversation begins) :
    Tracks env root (startAttempt env text later s kind conversation begins).2 where
  heard b hb id hid := by
    rcases List.mem_append.mp hb with hb | hb
    · exact h.heard b hb id hid
    · rw [List.mem_singleton] at hb
      subst hb
      exact h.current _ id (hready.current id hid)
  current p id hid := h.current p id (startAttempt_current ▸ hid)
  sound := h.sound.snoc fun _ hid => hready.holds_iff rfl rfl rfl hid

/-- A provider that did not make the attempt. -/
theorem knows_start_other (h : Knows root s provider) (hne : provider ≠ kind.provider) :
    Knows root (startAttempt env text later s kind conversation begins).2 provider := by
  intro id hid
  rw [startAttempt_log, memory_other hne.symm, heard_other hne.symm]
  exact h id (startAttempt_current ▸ hid)

/-- After an attempt that did not time out, the fold is right about its conversation. -/
theorem knows_start (hready : Ready root s kind conversation begins)
    (hending : (startAttempt env text later s kind conversation begins).1.attempt.ending ≠
      .timedOut) :
    Knows root (startAttempt env text later s kind conversation begins).2 kind.provider := by
  intro id hid
  rw [startAttempt_current] at hid
  rw [startAttempt_log, memory_same (startAttempt_provider ..), Started.keeps_eq hending]
  cases conversation with
  | some other =>
      have hsame := (hready.current other rfl).symm.trans hid
      cases hsame
      exact hready.holds_iff rfl rfl rfl rfl
  | none =>
      -- No conversation was found: the attempt changes nothing.
      have hbegins := hready.none rfl
      subst hbegins
      rw [heard_snoc, Started.holds, Started.receives]
      simpa [startAttempt] using hready.goesOn rfl id hid

/-- After a timeout the conversation of its provider holds nothing. -/
theorem memory_timedOut
    (hending : (startAttempt env text later s kind conversation begins).1.attempt.ending =
      .timedOut) :
    memory root kind.provider
      (startAttempt env text later s kind conversation begins).2.log = false := by
  rw [startAttempt_log, memory_same (startAttempt_provider ..), Started.keeps, hending]

theorem Remembers.start (h : Tracks env root s)
    (hready : Ready root s kind conversation begins)
    (hending : (startAttempt env text later s kind conversation begins).1.attempt.ending ≠
      .timedOut) :
    Remembers env root (startAttempt env text later s kind conversation begins).2 where
  toTracks := h.start hready
  knows p := by
    by_cases hp : p = kind.provider
    · exact hp ▸ knows_start hready hending
    · exact knows_start_other (hready.others p hp) hp

/-! ## Conversations -/

theorem Tracks.not_heard (h : Tracks env root s) (provider : Provider) {n : Nat}
    (hn : s.drawn ≤ n) : ¬ Heard root s.log provider (env.fresh n) := by
  rintro ⟨e, he, -, hconversation, -⟩
  exact h.heard e he _ hconversation n hn rfl

/-- A new Claude session. -/
theorem Tracks.newSession (h : Tracks env root s) :
    Tracks env root (newClaudeSession env s).2 where
  heard e he id hid := (h.heard e he id hid).mono (Nat.le_succ _)
  current p id hid := by
    cases p with
    | claude =>
        cases hid
        exact old_fresh env s.drawn
    | codex => exact (h.current .codex id hid).mono (Nat.le_succ _)
  sound := h.sound

theorem ready_newSession (kind : Kind) (h : Tracks env root s) (hknows : Knows root s .codex)
    (hkind : kind.provider = .claude) :
    Ready root (newClaudeSession env s).2 kind (some (newClaudeSession env s).1) true where
  others p hp := by
    cases p with
    | claude => exact absurd hkind.symm hp
    | codex => exact hknows
  current id hid := by rw [hkind]; exact hid
  begun id hid _ := by
    cases hid
    exact h.not_heard _ (le_refl _)
  goesOn hbegins := nomatch hbegins
  none hnone := nomatch hnone

/-- The session that a Claude attempt goes on with. -/
theorem getSession_ready (kind : Kind) (h : Remembers env root s)
    (hkind : kind.provider = .claude) :
    Tracks env root (getSessionId env s).2 ∧
      Ready root (getSessionId env s).2 kind (some (getSessionId env s).1)
        s.claudeSession.isNone := by
  unfold getSessionId
  cases hsession : s.claudeSession with
  | none => exact ⟨h.toTracks.newSession, ready_newSession kind h.toTracks (h.knows .codex) hkind⟩
  | some session =>
      refine ⟨h.toTracks, ?_⟩
      constructor
      · exact fun p _ => h.knows p
      · rintro id hid
        cases hid
        rw [hkind]
        exact hsession
      · exact fun _ _ hbegins => nomatch hbegins
      · exact fun _ => h.knows _
      · exact fun hnone => nomatch hnone

/-- After a timeout of Claude the next turn starts with a fresh session. -/
theorem remembers_timedOut (h : Tracks env root s)
    (hready : Ready root s kind conversation begins) (hkind : kind.provider = .claude)
    (hending : (startAttempt env text later s kind conversation begins).1.attempt.ending =
      .timedOut) :
    Remembers env root
      (newClaudeSession env (startAttempt env text later s kind conversation begins).2).2 where
  toTracks := (h.start hready).newSession
  knows p := by
    cases p with
    | codex =>
        have hne : Provider.codex ≠ kind.provider := by
          rw [hkind]
          nofun
        exact knows_start_other (hready.others _ hne) hne
    | claude =>
        intro id hid
        cases hid
        have hmemory : memory root kind.provider _ = false := memory_timedOut hending
        rw [hkind] at hmemory
        refine iff_of_false ?_ ((h.start hready).not_heard _ (le_refl _))
        exact Bool.eq_false_iff.mp hmemory

/-! ## Turns -/

theorem claudePlain_remembers (h : Remembers env root s) :
    Remembers env root (claudePlain env text later s).2 := by
  rcases getSession_ready .plain h rfl with ⟨htracks, hready⟩
  unfold claudePlain
  simp only
  split <;> rename_i hending
  · exact Remembers.start htracks hready (by simp [hending])
  · exact remembers_timedOut htracks hready rfl hending
  · exact Remembers.start htracks hready (by simp [hending])

theorem claudeCreated_remembers (h : Remembers env root s) :
    Remembers env root (claudeCreated env text later s).2 := by
  have htracks := h.toTracks.newSession
  have hready := ready_newSession .created h.toTracks (h.knows .codex) rfl
  unfold claudeCreated
  simp only
  split <;> rename_i hending
  · exact Remembers.start htracks hready (by simp [hending])
  · exact remembers_timedOut htracks hready rfl hending
  · exact claudePlain_remembers (Remembers.start htracks hready (by simp [hending]))

theorem claudeCode_remembers (h : Remembers env root s) :
    Remembers env root (claudeCode env text later s).2 := by
  rcases getSession_ready .resumed h rfl with ⟨htracks, hready⟩
  unfold claudeCode
  simp only
  split <;> rename_i hending
  · exact remembers_timedOut htracks hready rfl hending
  · exact claudePlain_remembers (Remembers.start htracks hready (by simp [hending]))
  · have hstart : Remembers env root (startAttempt env text later _ _ _ _).2 :=
      Remembers.start htracks hready (by simp [hending])
    split
    · exact hstart
    split
    · exact hstart
    split
    · exact claudeCreated_remembers hstart
    · exact claudePlain_remembers hstart

/-- The thread that a Codex turn goes on with. -/
theorem codexThread_ready (h : Remembers env root s) (thread : ThreadStart) :
    Tracks env root (codexThread env s thread).2.2 ∧
      Ready root (codexThread env s thread).2.2 .codex (codexThread env s thread).1
        (codexThread env s thread).2.1 := by
  have hnew : Tracks env root (newCodexThread env s).2 ∧
      Ready root (newCodexThread env s).2 .codex (some (newCodexThread env s).1) true := by
    refine ⟨⟨?_, ?_, h.sound⟩, ⟨?_, ?_, ?_, nofun, nofun⟩⟩
    · exact fun e he id hid => (h.heard e he id hid).mono (Nat.le_succ _)
    · intro p id hid
      cases p with
      | claude => exact (h.current .claude id hid).mono (Nat.le_succ _)
      | codex =>
          cases hid
          exact old_fresh env s.drawn
    · intro p hp
      cases p with
      | claude => exact h.knows .claude
      | codex => exact absurd rfl hp
    · exact fun id hid => hid
    · rintro id hid -
      cases hid
      exact h.not_heard _ (le_refl _)
  unfold codexThread
  split
  · exact ⟨h.toTracks, fun p _ => h.knows p, nofun, nofun, fun _ => h.knows _, fun _ => rfl⟩
  · rename_i id hthread
    refine ⟨h.toTracks, fun p _ => h.knows p, ?_, nofun, fun _ => h.knows _, nofun⟩
    rintro other hother
    cases hother
    exact hthread
  · exact hnew

theorem codexAppServer_remembers (h : Remembers env root s) :
    Remembers env root (codexAppServer env text later s).2 := by
  rcases codexThread_ready h (env.script s.log.length).thread with ⟨htracks, hready⟩
  unfold codexAppServer
  simp only
  split <;> rename_i hending
  · exact Remembers.start htracks hready (by simp [hending])
  · -- The next turn starts a new thread.
    have hstart : Tracks env root (startAttempt env text later _ _ _ _).2 :=
      htracks.start hready
    refine ⟨⟨hstart.heard, ?_, hstart.sound⟩, ?_⟩
    · intro p id hid
      cases p with
      | claude => exact hstart.current .claude id hid
      | codex => cases hid
    · intro p
      cases p with
      | claude => exact knows_start_other (hready.others .claude nofun) nofun
      | codex => exact nofun
  · exact Remembers.start htracks hready (by simp [hending])

theorem callProvider_remembers (h : Remembers env root s) :
    Remembers env root (callProvider env text later s provider).2 := by
  cases provider with
  | claude => exact claudeCode_remembers h
  | codex => exact codexAppServer_remembers h

theorem managerLoop_remembers {token : String} {last : Result} {providers : List Provider}
    (h : Remembers env root s) :
    Remembers env root (managerLoop env token text last providers s).2 := by
  induction providers generalizing s last with
  | nil => exact h
  | cons provider rest ih =>
      have hcalled : Remembers env root (callProvider env text (rest ≠ []) s provider).2 :=
        callProvider_remembers h
      unfold managerLoop
      simp only
      split
      · exact hcalled
      split
      · exact hcalled
      · exact ih hcalled

/-- The fold is right about the attempts of a turn. -/
theorem managerCode_remembers {token : String} {providers : List Provider}
    (h : Remembers env root s) :
    Remembers env root (managerCode env token text providers s).2 :=
  managerLoop_remembers h

end Manager
end Stemcell
