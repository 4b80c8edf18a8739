import Stemcell.Lib.Transition
import Stemcell.Update.Credentials

/-!
# Key rotation

A rotation stages a replacement as the pending key, sends it to Glass with the current key,
and then asks Glass which of the two is active.  The client may die anywhere; Glass may
install a replacement at any time after it was sent, and answers may be lost.

Main results:

- Definition `World.next`: the steps of the client and of Glass.
- Theorem `Inv.step`: what is known while replacements are installed in time.
- Theorem `rotation_law`: the key is kept in exactly the runs in which they are.
- Theorem `late_replacement`: a replacement that is installed after the client gave it up.

Current gaps:

- The lock of a rotation is not modelled: there is one client.
- An answer that does not come from Glass itself is not modelled.
-/

namespace Stemcell
namespace Update

open Lib

/-! ## Requests -/

/-- The answer to a request, with the `silicon_id` of its body if that is an identity. -/
inductive Response
  | lost
  | status (code : Nat) (siliconId : Option String)
deriving DecidableEq, Repr

/-- `_identity_response_is_authoritative`. -/
def identityResponseIsAuthoritative (expected : List String) (code : Nat)
    (siliconId : Option String) : Except String Bool :=
  if code ≠ 200 then .ok false
  else
    match siliconId with
    | none => .error "Glass key verification did not return a valid Silicon identity."
    | some siliconId =>
        if siliconId = "" ∨ (expected ≠ [] ∧ siliconId ∉ expected) then
          .error "Glass key verification returned the wrong Silicon identity."
        else .ok true

/-- `raise_for_status`. -/
def raiseForStatus (code : Nat) : Except String Unit :=
  if 400 ≤ code ∧ code < 600 then .error "HTTPError" else .ok ()

/-- `_reject_redirect`. -/
def rejectRedirect (code : Nat) (operation : String) : Except String Unit :=
  if 300 ≤ code ∧ code < 400 then
    .error (s!"Glass redirected the authenticated {operation}; " ++
      "refusing to forward the Silicon key.")
  else .ok ()

/-- What `_recover_pending_auth_key` makes of an answer of the identity endpoint: whether
the key of the request is active. -/
def verifyKey (expected : List String) : Response → Except String Bool
  | .lost => .error "RequestException"
  | .status code siliconId => do
      rejectRedirect code "key verification"
      if (← identityResponseIsAuthoritative expected code siliconId) then return true
      if code ≠ 401 ∧ code ≠ 403 then raiseForStatus code
      return false

/-! ## The client -/

/-- Who called `_recover_pending_auth_key`: the start of a rotation, with the pending key
that it found, or the end of one, with its replacement and the answer to its request. -/
inductive Caller
  | start (pendingBeforeRecovery : String)
  | rotation (replacement : String) (response : Response)
deriving DecidableEq, Repr

/-- Where the client is in `_rotate_auth_key`. -/
inductive Stage
  | idle
  | probing (pending current : String) (caller : Caller)
  | checking (pending current : String) (caller : Caller)
  | writing (key : String) (writes : List Write) (caller : Caller)
  | staging (current : String)
  | sending (current replacement : String)
  | waiting (current replacement : String)
  | returned (key : String)
  | raised (error : String)
deriving DecidableEq, Repr

/-- A request that Glass may still act on. -/
structure Post where
  authKey : String
  replacement : String
deriving DecidableEq, Repr

/-- The files, the client and Glass; `discarded` has the replacements the client gave up. -/
structure World where
  files : Files
  stage : Stage
  active : String
  inFlight : List Post
  discarded : List String
deriving DecidableEq, Repr

/-- How a rotation ends whose replacement is not active. -/
def rotationError : Response → String
  | .lost => "RequestException"
  | .status code _ =>
      if code = 200 ∨ code = 201 then
        "Glass acknowledged rotation but the replacement key is not active."
      else if code = 401 ∨ code = 403 then
        "Glass rejected the configured Silicon key. Ask the Silicon owner to reprovision it."
      else
        match raiseForStatus code with
        | .error error => error
        | .ok () => "Glass rejected Silicon key rotation."

/-- The rotation goes on with the key that `_recover_pending_auth_key` returns. -/
def Caller.resume (recovered : String) : Caller → Stage
  | .start pendingBeforeRecovery =>
      if pendingBeforeRecovery ≠ "" ∧ recovered = pendingBeforeRecovery then .returned recovered
      else if recovered = "" then
        .raised
          "No Silicon API key is configured. Ask the Silicon owner to reprovision it."
      else .staging recovered
  | .rotation replacement response =>
      if recovered = replacement then .returned replacement
      else .raised (rotationError response)

def unresolvedText : String :=
  "Silicon key rotation is unresolved. Ask the Silicon owner to reprovision its API key."

namespace World

variable (expected : List String) (w : World)

/-- `_recover_pending_auth_key`, up to its first request. -/
def recoverPendingAuthKey (current : String) (caller : Caller) : World :=
  if w.files.pendingAuthKey = "" then { w with stage := caller.resume current }
  else { w with stage := .probing w.files.pendingAuthKey current caller }

/-- Nobody has the key yet. -/
def Fresh (key : String) : Prop :=
  key ≠ "" ∧ key ≠ w.files.authKey ∧ key ≠ w.files.pendingAuthKey ∧ key ≠ w.active ∧
    key ∉ w.discarded ∧ ∀ post ∈ w.inFlight, post.replacement ≠ key

instance (key : String) : Decidable (w.Fresh key) := by
  unfold Fresh
  infer_instance

/-- An answer arrives.  The identity endpoint names a Silicon to its active key alone. -/
def answer (response : Response) : Option World :=
  match w.stage with
  | .probing pending current caller =>
      match verifyKey expected response with
      | .error error => some { w with stage := .raised error }
      | .ok true =>
          if pending = w.active then
            some { w with
              stage := .writing pending (persistAuthKey pending ++ [clearPendingAuthKey]) caller }
          else none
      | .ok false =>
          if current ≠ "" then some { w with stage := .checking pending current caller }
          else
            some { w with stage := .raised unresolvedText }
  | .checking _ current caller =>
      match verifyKey expected response with
      | .error error => some { w with stage := .raised error }
      | .ok true =>
          if current = w.active then
            some { w with stage := .writing current [clearPendingAuthKey] caller }
          else none
      | .ok false =>
          some { w with stage := .raised unresolvedText }
  | .waiting current replacement =>
      match response with
      | .lost => some (w.recoverPendingAuthKey current (.rotation replacement .lost))
      | .status code siliconId =>
          match rejectRedirect code "key rotation" with
          | .error error => some { w with stage := .raised error }
          | .ok () =>
              some (w.recoverPendingAuthKey current
                (.rotation replacement (.status code siliconId)))
  | _ => none

/-- The next write of a recovery.  Clearing the pending key gives it up, unless it is the
key that was found active. -/
def write : Option World :=
  match w.stage with
  | .writing key (write :: writes) caller =>
      match write.apply w.files with
      | .error error => some { w with stage := .raised error }
      | .ok files =>
          some { w with
            files := files
            stage := if writes = [] then caller.resume key else .writing key writes caller
            discarded :=
              if files.pendingAuthKey = "" ∧ w.files.pendingAuthKey ≠ key then
                w.files.pendingAuthKey :: w.discarded
              else w.discarded }
  | _ => none

end World

/-- The steps of the client, its death or an exception, and the steps of Glass. -/
inductive Event
  | start
  | stage (replacement : String)
  | send
  | answer (response : Response)
  | write
  | crash
  | takeEffect (replacement : String)
deriving DecidableEq, Repr

/-- One step. -/
def World.next (expected : List String) (w : World) : Event → Option World
  | .start =>
      match w.stage with
      | .idle | .returned _ | .raised _ =>
          some (w.recoverPendingAuthKey w.files.authKey (.start w.files.pendingAuthKey))
      | _ => none
  | .stage replacement =>
      match w.stage with
      | .staging current =>
          if w.Fresh replacement then
            match (stageAuthKey replacement).apply w.files with
            | .error error => some { w with stage := .raised error }
            | .ok files => some { w with files := files, stage := .sending current replacement }
          else none
      | _ => none
  | .send =>
      match w.stage with
      | .sending current replacement =>
          some { w with
            stage := .waiting current replacement
            inFlight := ⟨current, replacement⟩ :: w.inFlight }
      | _ => none
  | .answer response => w.answer expected response
  | .write => w.write
  | .crash => some { w with stage := .idle }
  | .takeEffect replacement =>
      if w.inFlight.any fun post => post.replacement = replacement then
        some { w with
          active := replacement
          inFlight := w.inFlight.filter fun post => post.replacement ≠ replacement }
      else none

/-- The key is configured or pending when the rotations begin. -/
structure Initial (w : World) : Prop where
  stage : w.stage = .idle
  inFlight : w.inFlight = []
  discarded : w.discarded = []
  active : w.active ≠ ""
  stored : w.active = w.files.authKey ∨ w.active = w.files.pendingAuthKey

/-- The rotations of a Silicon. -/
def rotating (expected : List String) : TransitionSystem World Event where
  init := Initial
  step w e w' := w.next expected e = some w'

/-! ## What is known of a rotation -/

/-- A replacement takes effect only before the client has given it up, and not between the
answer that found a key active and the write that follows. -/
def Timely (w : World) : Event → Prop
  | .takeEffect replacement => replacement ∉ w.discarded
  | .write => ∀ key writes caller, w.stage = .writing key writes caller → key = w.active
  | _ => True

/-- The active key is configured or pending, and a rotation returns the configured key,
which is active, and leaves no pending key. -/
structure KeyKept (w : World) : Prop where
  stored : w.active = w.files.authKey ∨ w.active = w.files.pendingAuthKey
  returned : ∀ key, w.stage = .returned key →
    w.files.authKey = key ∧ w.active = key ∧ w.files.pendingAuthKey = ""

/-- Nothing is pending, and the configured key is active. -/
structure Settled (w : World) (key : String) : Prop where
  authKey : w.files.authKey = key
  active : w.active = key
  pending : w.files.pendingAuthKey = ""

/-- A pending key that is not active is about to be cleared. -/
structure Discarding (w : World) (key : String) (writes : List Write) : Prop where
  writes : writes = [clearPendingAuthKey]
  authKey : w.files.authKey = key
  pending : w.files.pendingAuthKey ≠ ""

/-- The pending key, which is active, is being configured. -/
structure Promoting (w : World) (key : String) (writes : List Write) : Prop where
  active : w.active = key
  pending : w.files.pendingAuthKey = key
  writes : writes = persistAuthKey key ++ [clearPendingAuthKey] ∨
    w.files.glassKey = key ∧ ∃ rest, rest ⊆ scrubLegacy ∧ writes = rest ++ [clearPendingAuthKey]

/-- What each stage relies on. -/
def AtStage (w : World) : Stage → Prop
  | .idle | .raised _ => True
  | .probing pending current _ =>
      w.files.pendingAuthKey = pending ∧ pending ≠ "" ∧ w.files.authKey = current
  | .checking pending current _ =>
      w.files.pendingAuthKey = pending ∧ pending ≠ "" ∧ w.files.authKey = current ∧ current ≠ ""
  | .writing key writes _ => key ≠ "" ∧ (Discarding w key writes ∨ Promoting w key writes)
  | .staging current => w.files.pendingAuthKey = "" ∧ w.files.authKey = current
  | .sending current replacement =>
      w.files.pendingAuthKey = replacement ∧ w.files.authKey = current ∧ replacement ≠ "" ∧
        replacement ≠ w.active ∧ ∀ post ∈ w.inFlight, post.replacement ≠ replacement
  | .waiting current _ => w.files.authKey = current
  | .returned key => Settled w key

/-- What is known in every state. -/
structure Inv (w : World) : Prop where
  active : w.active ≠ ""
  stored : w.active = w.files.authKey ∨ w.active = w.files.pendingAuthKey
  authKept : w.files.authKey ∉ w.discarded
  pendingKept : w.files.pendingAuthKey ∉ w.discarded
  discarded : "" ∉ w.discarded
  -- What Glass may still install is pending, or given up.
  pending : ∀ post ∈ w.inFlight, post.replacement ∉ w.discarded →
    post.replacement = w.files.pendingAuthKey
  sent : ∀ post ∈ w.inFlight, post.replacement ≠ "" ∧ post.replacement ≠ w.active
  stage : AtStage w w.stage

variable {expected : List String} {w w' : World} {e : Event} {caller : Caller} {key : String}
  {stage : Stage}

/-- A stage may change where the new one has what it relies on. -/
theorem Inv.at (h : Inv w) (hstage : AtStage w stage) : Inv { w with stage := stage } where
  active := h.active
  stored := h.stored
  authKept := h.authKept
  pendingKept := h.pendingKept
  discarded := h.discarded
  pending := h.pending
  sent := h.sent
  stage := by
    cases stage with
    | writing key writes caller =>
        rcases hstage with ⟨hne, hdiscarding | hpromoting⟩
        · exact ⟨hne, .inl ⟨hdiscarding.1, hdiscarding.2, hdiscarding.3⟩⟩
        · exact ⟨hne, .inr ⟨hpromoting.1, hpromoting.2, hpromoting.3⟩⟩
    | returned key => exact ⟨hstage.1, hstage.2, hstage.3⟩
    | _ => exact hstage

/-- Without a pending key the configured key is active. -/
theorem Inv.settled (h : Inv w) (hpending : w.files.pendingAuthKey = "") :
    Settled w w.files.authKey := by
  refine ⟨rfl, h.stored.resolve_right fun hactive => ?_, hpending⟩
  exact h.active (hactive.trans hpending)

theorem Settled.resume (h : Settled w key) (caller : Caller) :
    AtStage w (caller.resume key) := by
  cases caller with
  | start pendingBeforeRecovery =>
      unfold Caller.resume
      simp only
      split
      · exact h
      split
      · trivial
      · exact ⟨h.pending, h.authKey⟩
  | rotation replacement response =>
      unfold Caller.resume
      simp only
      split
      · rename_i hsame
        rw [← hsame]
        exact h
      · trivial

theorem Inv.recover (h : Inv w) (hcurrent : w.files.authKey = key) :
    Inv (w.recoverPendingAuthKey key caller) := by
  unfold World.recoverPendingAuthKey
  split
  · rename_i hpending
    apply h.at
    rw [← hcurrent]
    exact (h.settled hpending).resume caller
  · rename_i hpending
    apply h.at
    exact ⟨rfl, hpending, hcurrent⟩

/-! ## Steps -/

theorem Inv.start (h : Inv w) (hnext : w.next expected .start = some w') : Inv w' := by
  unfold World.next at hnext
  simp only at hnext
  split at hnext <;> cases hnext
  all_goals exact h.recover rfl

theorem Inv.stageKey {replacement : String} (h : Inv w)
    (hnext : w.next expected (.stage replacement) = some w') : Inv w' := by
  unfold World.next at hnext
  simp only at hnext
  split at hnext
  · rename_i current hstage
    have hat := h.stage
    rw [hstage] at hat
    rcases hat with ⟨hpending, hcurrent⟩
    split at hnext
    · rename_i hfresh
      rcases hfresh with ⟨hne, -, -, hactive, hdiscarded, hsent⟩
      rcases apply_stage w.files replacement with ⟨files, happly, hauthKey, hnew⟩
      rw [happly] at hnext
      cases hnext
      constructor
      · exact h.active
      · left
        change w.active = files.authKey
        rw [hauthKey]
        exact (h.settled hpending).active
      · change files.authKey ∉ w.discarded
        rw [hauthKey]
        exact h.authKept
      · change files.pendingAuthKey ∉ w.discarded
        rw [hnew]
        exact hdiscarded
      · exact h.discarded
      · intro post hpost hkept
        exact absurd ((h.pending post hpost hkept).trans hpending) (h.sent post hpost).1
      · exact h.sent
      · exact ⟨hnew, hauthKey.trans hcurrent, hne, hactive, hsent⟩
    · cases hnext
  · cases hnext

theorem Inv.send (h : Inv w) (hnext : w.next expected .send = some w') : Inv w' := by
  unfold World.next at hnext
  simp only at hnext
  split at hnext
  · rename_i current replacement hstage
    have hat := h.stage
    rw [hstage] at hat
    rcases hat with ⟨hpending, hcurrent, hne, hactive, -⟩
    cases hnext
    constructor
    · exact h.active
    · exact h.stored
    · exact h.authKept
    · exact h.pendingKept
    · exact h.discarded
    · intro post hpost hkept
      rcases List.mem_cons.mp hpost with rfl | hold
      · exact hpending.symm
      · exact h.pending post hold hkept
    · intro post hpost
      rcases List.mem_cons.mp hpost with rfl | hold
      · exact ⟨hne, hactive⟩
      · exact h.sent post hold
    · exact hcurrent
  · cases hnext

theorem Inv.answer {response : Response} (h : Inv w)
    (hnext : w.next expected (.answer response) = some w') : Inv w' := by
  unfold World.next World.answer at hnext
  simp only at hnext
  have hat := h.stage
  split at hnext
  · rename_i pending current caller hstage
    rw [hstage] at hat
    rcases hat with ⟨hpending, hne, hcurrent⟩
    split at hnext
    · cases hnext
      exact h.at trivial
    · split at hnext
      · rename_i hactive
        cases hnext
        apply h.at
        exact ⟨hne, .inr ⟨hactive.symm, hpending, .inl rfl⟩⟩
      · cases hnext
    · split at hnext
      · rename_i hsome
        cases hnext
        apply h.at
        exact ⟨hpending, hne, hcurrent, hsome⟩
      · cases hnext
        exact h.at trivial
  · rename_i pending current caller hstage
    rw [hstage] at hat
    rcases hat with ⟨hpending, hne, hcurrent, hsome⟩
    split at hnext
    · cases hnext
      exact h.at trivial
    · split at hnext
      · cases hnext
        apply h.at
        refine ⟨hsome, .inl ⟨rfl, hcurrent, ?_⟩⟩
        rw [hpending]
        exact hne
      · cases hnext
    · cases hnext
      exact h.at trivial
  · rename_i current replacement hstage
    rw [hstage] at hat
    split at hnext
    · cases hnext
      exact h.recover hat
    · split at hnext <;> cases hnext
      · exact h.at trivial
      · exact h.recover hat
  · cases hnext

/-- What Glass installs in time is pending, so it is stored. -/
theorem Inv.takeEffect {replacement : String} (h : Inv w)
    (htimely : replacement ∉ w.discarded)
    (hnext : w.next expected (.takeEffect replacement) = some w') : Inv w' := by
  unfold World.next at hnext
  simp only at hnext
  split at hnext
  · rename_i hany
    cases hnext
    rcases List.any_eq_true.mp hany with ⟨post, hpost, hsame⟩
    have hreplacement : post.replacement = replacement := by simpa using hsame
    have hpending : replacement = w.files.pendingAuthKey := by
      rw [← hreplacement] at htimely ⊢
      exact h.pending post hpost htimely
    rcases h.sent post hpost with ⟨hne, hactive⟩
    rw [hreplacement] at hne hactive
    constructor
    · exact hne
    · exact .inr hpending
    · exact h.authKept
    · exact h.pendingKept
    · exact h.discarded
    · intro other hother hkept
      exact h.pending other (List.mem_of_mem_filter hother) hkept
    · intro other hother
      refine ⟨(h.sent other (List.mem_of_mem_filter hother)).1, ?_⟩
      simpa using (List.mem_filter.mp hother).2
    · have hat := h.stage
      change AtStage _ w.stage
      cases hstage : w.stage with
      | writing key writes caller =>
          rw [hstage] at hat
          rcases hat with ⟨hkey, hdiscarding | hpromoting⟩
          · exact ⟨hkey, .inl ⟨hdiscarding.1, hdiscarding.2, hdiscarding.3⟩⟩
          · have hsame := hpromoting.pending.trans hpromoting.active.symm
            exact absurd (hpending.trans hsame) hactive
      | sending current staged =>
          rw [hstage] at hat
          exact absurd (hreplacement.trans (hpending.trans hat.1)) (hat.2.2.2.2 post hpost)
      | returned key =>
          rw [hstage] at hat
          exact absurd (hpending.trans hat.pending) hne
      | _ =>
          rw [hstage] at hat
          exact hat
  · cases hnext

/-- Once the pending key is cleared, the key that was found active is settled. -/
theorem Inv.cleared {files : Files} (h : Inv w) (hactive : key = w.active)
    (hpending : w.files.pendingAuthKey ≠ "") (hauthKey : files.authKey = key)
    (hcleared : files.pendingAuthKey = "") :
    Inv { w with
      files := files
      stage := caller.resume key
      discarded :=
        if files.pendingAuthKey = "" ∧ w.files.pendingAuthKey ≠ key then
          w.files.pendingAuthKey :: w.discarded
        else w.discarded } := by
  have hactiveKept : key ∉ w.discarded := by
    rw [hactive]
    rcases h.stored with hstored | hstored <;> rw [hstored]
    · exact h.authKept
    · exact h.pendingKept
  constructor
  · exact h.active
  · left
    exact (hauthKey.trans hactive).symm
  · simp only [hauthKey, hcleared, true_and]
    split
    · rename_i hother
      rw [List.mem_cons, not_or]
      exact ⟨Ne.symm hother, hactiveKept⟩
    · exact hactiveKept
  · simp only [hcleared, true_and]
    split
    · rw [List.mem_cons, not_or]
      exact ⟨Ne.symm hpending, h.discarded⟩
    · exact h.discarded
  · simp only [hcleared, true_and]
    split
    · rw [List.mem_cons, not_or]
      exact ⟨Ne.symm hpending, h.discarded⟩
    · exact h.discarded
  · intro post hpost hkept
    exfalso
    simp only [hcleared, true_and] at hkept
    split at hkept
    · rw [List.mem_cons, not_or] at hkept
      exact hkept.1 (h.pending post hpost hkept.2)
    · rename_i hsame
      rw [not_not] at hsame
      apply (h.sent post hpost).2
      rw [← hactive, ← hsame]
      exact h.pending post hpost hkept
  · exact h.sent
  · have hsettled : Settled ({ w with files := files } : World) key :=
      ⟨hauthKey, hactive.symm, hcleared⟩
    cases hresume : caller.resume key with
    | returned _ =>
        have hat := hsettled.resume caller
        rw [hresume] at hat
        exact ⟨hat.1, hat.2, hat.3⟩
    | writing _ _ _ =>
        cases caller <;> unfold Caller.resume at hresume <;> simp only at hresume <;>
          split at hresume
        all_goals first | cases hresume | (split at hresume <;> cases hresume)
    | _ =>
        have hat := hsettled.resume caller
        rw [hresume] at hat
        exact hat

/-- A write after which the key that was found active is in `.glass.json`. -/
theorem Inv.promoted {files : Files} {writes : List Write} (h : Inv w) (hactive : key = w.active)
    (hne : key ≠ "") (hpending : w.files.pendingAuthKey = key)
    (hkept : files.pendingAuthKey = key) (hglass : files.glassKey = key)
    (hwrites : ∃ rest, rest ⊆ scrubLegacy ∧ writes = rest ++ [clearPendingAuthKey])
    (hsome : writes ≠ []) :
    Inv { w with
      files := files
      stage := if writes = [] then caller.resume key else .writing key writes caller
      discarded :=
        if files.pendingAuthKey = "" ∧ w.files.pendingAuthKey ≠ key then
          w.files.pendingAuthKey :: w.discarded
        else w.discarded } := by
  have hkeptKey : key ∉ w.discarded := by
    rw [← hpending]
    exact h.pendingKept
  have hsame : ¬ (files.pendingAuthKey = "" ∧ w.files.pendingAuthKey ≠ key) :=
    fun hboth => hboth.2 hpending
  rw [if_neg hsame, if_neg hsome]
  constructor
  · exact h.active
  · right
    exact (hkept.trans hactive).symm
  · change files.authKey ∉ w.discarded
    rw [authKey_of_glassKey hglass hne]
    exact hkeptKey
  · change files.pendingAuthKey ∉ w.discarded
    rw [hkept]
    exact hkeptKey
  · exact h.discarded
  · intro post hpost hnot
    change post.replacement = files.pendingAuthKey
    rw [hkept, ← hpending]
    exact h.pending post hpost hnot
  · exact h.sent
  · exact ⟨hne, .inr ⟨hactive.symm, hkept, .inr ⟨hglass, hwrites⟩⟩⟩

/-- The writes of a recovery, while the key that was found active is active. -/
theorem Inv.write (h : Inv w) (htimely : Timely w .write)
    (hnext : w.next expected .write = some w') : Inv w' := by
  unfold World.next World.write at hnext
  simp only at hnext
  have hat := h.stage
  split at hnext
  · rename_i key write writes caller hstage
    have hactive := htimely _ _ _ hstage
    rw [hstage] at hat
    rcases hat with ⟨hne, hdiscarding | hpromoting⟩
    · have hwrites := hdiscarding.writes
      cases hwrites
      rcases apply_clear w.files with ⟨files, happly, hauthKey, hcleared⟩
      rw [happly] at hnext
      cases hnext
      simp only [if_true]
      exact h.cleared hactive hdiscarding.pending (hauthKey.trans hdiscarding.authKey) hcleared
    · have hpending : w.files.pendingAuthKey ≠ "" := by
        rw [hpromoting.pending]
        exact hne
      rcases hpromoting.writes with hall | ⟨hglass, rest, hrest, hsplit⟩
      · cases hall
        cases happly : (Write.replaceGlass key).apply w.files with
        | error error =>
            rw [happly] at hnext
            cases hnext
            exact h.at trivial
        | ok files =>
            rw [happly] at hnext
            cases hnext
            rcases apply_replaceGlass happly hne with ⟨hglass, hkeeps⟩
            have hkept : files.pendingAuthKey = key := hkeeps.trans hpromoting.pending
            exact h.promoted hactive hne hpromoting.pending hkept hglass
              ⟨scrubLegacy, fun _ hmem => hmem, rfl⟩ (by simp [scrubLegacy])
      · cases rest with
        | nil =>
            cases hsplit
            rcases apply_clear w.files with ⟨files, happly, hauthKey, hcleared⟩
            rw [happly] at hnext
            cases hnext
            simp only [if_true]
            exact h.cleared hactive hpending
              (hauthKey.trans (authKey_of_glassKey hglass hne)) hcleared
        | cons first rest =>
            cases hsplit
            cases happly : write.apply w.files with
            | error error =>
                rw [happly] at hnext
                cases hnext
                exact h.at trivial
            | ok files =>
                rw [happly] at hnext
                cases hnext
                rcases apply_scrubLegacy (hrest List.mem_cons_self) happly with ⟨hsame, hkeeps⟩
                exact h.promoted hactive hne hpromoting.pending
                  (hkeeps.trans hpromoting.pending) (hsame.trans hglass)
                  ⟨rest, fun _ hmem => hrest (List.mem_cons_of_mem _ hmem), rfl⟩ (by simp)
  · cases hnext

theorem Inv.step (h : Inv w) (htimely : Timely w e) (hnext : w.next expected e = some w') :
    Inv w' := by
  cases e with
  | start => exact h.start hnext
  | stage replacement => exact h.stageKey hnext
  | send => exact h.send hnext
  | answer response => exact h.answer hnext
  | write => exact h.write htimely hnext
  | crash =>
      cases hnext
      exact h.at trivial
  | takeEffect replacement => exact h.takeEffect htimely hnext

theorem Initial.inv (h : Initial w) : Inv w where
  active := h.active
  stored := h.stored
  authKept := by
    rw [h.discarded]
    exact List.not_mem_nil
  pendingKept := by
    rw [h.discarded]
    exact List.not_mem_nil
  discarded := by
    rw [h.discarded]
    exact List.not_mem_nil
  pending := by
    rw [h.inFlight]
    exact fun _ hpost => nomatch hpost
  sent := by
    rw [h.inFlight]
    exact fun _ hpost => nomatch hpost
  stage := by
    rw [h.stage]
    trivial

theorem timely_inv (hreach : ((rotating expected).restrict Timely).Reachable w) : Inv w := by
  apply hreach.invariant
  · exact fun _ hinit => hinit.inv
  · exact fun _ _ _ _ hinv hstep => hinv.step hstep.1 hstep.2

/-! ## The law -/

theorem Inv.keyKept (h : Inv w) : KeyKept w := by
  refine ⟨h.stored, fun key hstage => ?_⟩
  have hat := h.stage
  rw [hstage] at hat
  exact ⟨hat.authKey, hat.active, hat.pending⟩

/-- What the client gave up is stored nowhere, and a write that follows an answer that is
no longer true removes the only copy. -/
theorem Inv.lost (h : Inv w) (hlate : ¬ Timely w e) (hnext : w.next expected e = some w') :
    ¬ KeyKept w' := by
  intro hkept
  cases e with
  | takeEffect replacement =>
      have hdiscarded : replacement ∈ w.discarded := not_not.mp hlate
      unfold World.next at hnext
      simp only at hnext
      split at hnext <;> cases hnext
      rcases hkept.stored with hstored | hstored
      · exact h.authKept (hstored ▸ hdiscarded)
      · exact h.pendingKept (hstored ▸ hdiscarded)
  | write =>
      unfold Timely at hlate
      push Not at hlate
      rcases hlate with ⟨key, writes, caller, hstage, hactive⟩
      have hat := h.stage
      rw [hstage] at hat
      rcases hat with ⟨hne, hdiscarding | hpromoting⟩
      · cases hdiscarding.writes
        rcases apply_clear w.files with ⟨files, happly, hauthKey, hcleared⟩
        unfold World.next World.write at hnext
        simp only [hstage, happly] at hnext
        cases hnext
        rcases hkept.stored with hstored | hstored
        · exact hactive (hdiscarding.authKey.symm.trans (hauthKey.symm.trans hstored.symm))
        · exact h.active (hstored.trans hcleared)
      · exact hactive hpromoting.active.symm
  | _ => exact hlate trivial

/-- The key is kept all along exactly the runs in which Glass installs every replacement in
time, if at all. -/
theorem rotation_law {w₀ : World} {es : List Event} (hinit : Initial w₀)
    (hrun : (rotating expected).Run w₀ es w) :
    (∀ fs v, fs <+: es → (rotating expected).Run w₀ fs v → KeyKept v) ↔
      ((rotating expected).restrict Timely).Run w₀ es w := by
  have hstart : ((rotating expected).restrict Timely).Reachable w₀ := .init hinit
  apply TransitionSystem.Run.restrict_iff _ _ _ hstart hrun
  · intro a e b c hb hc
    exact Option.some.inj (hb.symm.trans hc)
  · intro v hreach
    exact (timely_inv hreach).keyKept
  · intro v e v' hreach hstep hlate
    exact (timely_inv hreach).lost hlate hstep

/-! ## A late replacement -/

/-- A Silicon with its key in `.glass.json`. -/
def provisioned : World where
  files := ⟨.object ⟨some "scs_live_a", none⟩, .absent, [], none, []⟩
  stage := .idle
  active := "scs_live_a"
  inFlight := []
  discarded := []

theorem provisioned_initial : Initial provisioned :=
  ⟨rfl, rfl, rfl, by decide, .inl (by decide)⟩

/-- The request runs into its timeout, Glass refuses the replacement and accepts the current
key, and then installs the replacement. -/
def installedLate : List Event :=
  [.start, .stage "scs_live_b", .send, .answer .lost, .answer (.status 401 none),
    .answer (.status 200 (some "silicon-1")), .write, .takeEffect "scs_live_b"]

/-- The active key is stored nowhere. -/
theorem late_replacement :
    ¬ ∀ w₀ es w, Initial w₀ → (rotating ["silicon-1"]).Run w₀ es w → KeyKept w := by
  intro hclaim
  have hplay : (TransitionSystem.play (World.next ["silicon-1"]) provisioned installedLate).isSome :=
    by decide +kernel
  rcases Option.isSome_iff_exists.mp hplay with ⟨w, hw⟩
  have hkept := hclaim _ _ _ provisioned_initial (.play (fun _ _ _ hnext => hnext) hw)
  have hlost : ∀ w ∈ TransitionSystem.play (World.next ["silicon-1"]) provisioned installedLate,
      w.active ≠ w.files.authKey ∧ w.active ≠ w.files.pendingAuthKey := by
    decide +kernel
  rcases hkept.stored with hstored | hstored
  · exact (hlost w hw).1 hstored
  · exact (hlost w hw).2 hstored

/-- The law of a rotation that has not begun. -/
theorem rotation_law_provisioned :
    (∀ fs v, fs <+: [Event.start] →
      (rotating ["silicon-1"]).Run provisioned fs v → KeyKept v) ↔
        ((rotating ["silicon-1"]).restrict Timely).Run provisioned [Event.start]
          { provisioned with stage := .staging "scs_live_a" } :=
  rotation_law provisioned_initial (.single (by decide +kernel : _ = _))

end Update
end Stemcell
