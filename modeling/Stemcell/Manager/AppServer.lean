import Stemcell.Interface.Json
import Stemcell.Lib.Transition
import Mathlib.Data.List.Basic
import Mathlib.Tactic.SplitIfs
import Std.Data.String.ToNat

/-!
# The Codex app server

The client of the Codex app server is a child process: requests go to it line by line, and two
threads put its lines into a queue.  The thread that waits for an answer takes lines from the queue,
answers what the server asks, and passes over the rest.  Another thread may send a request of its
own meanwhile; it never takes a line.

Main results:

- Definitions `Client.send`, `serverRequest` and `Session.take`: the transport.
- Theorem `sameId_unique`: a message answers one request at most.
- Theorem `session_law`: in every run, no line is lost or taken twice, request ids are never used
  again, each request of the server that is taken is answered once and in order, and a call ends
  with the first message that it waits for.

Current gaps:

- What the hooks of a line print.
- A float is equal to an id if it prints like one with `.0` behind it.
- A write to a process that has closed its input leaves nothing.
-/

namespace Stemcell
namespace Manager

open Interface (Json)
open Lib (TransitionSystem)

namespace AppServer

/-! ## Lines and messages -/

/-- `json.loads` where it does not raise, and `str` of a value. -/
structure Wire where
  loads : String → Option Json
  str : Json → String

/-- A line that a thread has read from the process. -/
inductive Line
  | stdout (text : String)
  | stderr (text : String)
deriving DecidableEq

/-- `value.get(key, default)`; it raises where `value` is not a dictionary. -/
def getOrRaise (value : Json) (key : String) (default : Json) : Except String Json :=
  match value with
  | .obj fields =>
      .ok (((fields.find? fun field => field.1 = key).map Prod.snd).getD default)
  | _ => .error "AttributeError"

/-- `str(value)`. -/
def Wire.text (wire : Wire) : Json → String
  | .str text => text
  | value => wire.str value

/-- `message.get("id") == req_id`. -/
def sameId (id : Json) (number : Nat) : Bool :=
  match id with
  | .int value => value = number
  | .bool value => (if value then 1 else 0) = number
  | .float text _ => text = toString number ++ ".0"
  | _ => false

/-- What `handle_server_request` makes of a message. -/
inductive Demand
  | raises
  | none
  | answer (id : Json) (result : Json)

/-- `handle_server_request`.  A list or a dictionary cannot be looked for in a set. -/
def serverRequest (message : Json) : Demand :=
  match message.get "id", message.get "method" with
  | .null, _ => .none
  | _, .arr _ => .raises
  | _, .obj _ => .raises
  | id, .str method =>
      if method = "item/commandExecution/requestApproval" ∨
          method = "item/fileChange/requestApproval" then
        .answer id (.obj [("decision", .str "acceptForSession")])
      else if method = "item/tool/requestUserInput" then
        .answer id (.obj [("canceled", .bool true)])
      else if method = "mcpServer/elicitation/request" then
        .answer id (.obj [("action", .str "cancel")])
      else .none
  | _, _ => .none

/-- What `_next_message` makes of a line. -/
inductive Taken
  | skipped
  | raises
  | asked (id : Json) (result : Json)
  | message (value : Json)

def takeLine (wire : Wire) : Line → Taken
  | .stderr _ => .skipped
  | .stdout text =>
      match wire.loads text with
      | none => .skipped
      | some message =>
          if message.isObj then
            match serverRequest message with
            | .raises => .raises
            | .answer id result => .asked id result
            | .none => .message message
          else .skipped

/-! ## The client -/

/-- The client: the lines that nobody has taken, those of stderr, and what was written. -/
structure Client where
  nextId : Nat
  messages : List Line
  stderrLines : List String
  written : List Json
  broken : Bool
  returncode : Option Int

/-- What a line that was written is. -/
def requestLine (id : Nat) (method : String) (params : Option Json) : Json :=
  .obj ([("id", .int id), ("method", .str method)] ++
    match params with
    | some params => [("params", params)]
    | none => [])

def responseLine (id result : Json) : Json :=
  .obj [("id", id), ("result", result)]

/-- A line to the process; it raises when the process has closed its input. -/
def Client.write (client : Client) (line : Json) : Option Client :=
  if client.broken then none else some { client with written := client.written ++ [line] }

/-- `send` without a `msg_id`, as all callers have it.  The id is used up even where it raises. -/
def Client.send (client : Client) (method : String) (params : Option Json) : Client × Option Nat :=
  let next := { client with nextId := client.nextId + 1 }
  match next.write (requestLine client.nextId method params) with
  | some client' => (client', some client.nextId)
  | none => (next, none)

/-- `process_exit_message`. -/
def Client.processExitMessage (strip : String → String) (client : Client) (code : Int) : String :=
  let last := client.stderrLines.drop (client.stderrLines.length - 5)
  let detail := strip ("\n".intercalate last)
  let message := "codex app-server exited with code " ++ toString code
  message ++ if detail = "" then "" else ": " ++ detail

/-! ## Calls -/

/-- What the calling thread waits for: the response to a request, as it is or as a result, or the
end of a turn. -/
inductive Call
  | request (id : Nat) (method : String)
  | requestResult (id : Nat) (method : String)
  | turn

/-- How a call ends. -/
inductive Ending
  | returned (value : Json)
  | raised (text : String)
  | timedOut

/-- The text of an error: `error.get("message") if isinstance(error, dict) else str(error)`, and
`default` where that is empty. -/
def errorText (wire : Wire) (error : Json) (default : String) : String :=
  let error := error.orElse (.obj [])
  let detail := if error.isObj then error.get "message" else .str (wire.text error)
  if detail.truthy then wire.text detail else default

/-- `request_result`, of the response. -/
def responseResult (wire : Wire) (method : String) (message : Json) : Ending :=
  match message with
  | .obj fields =>
      if fields.any fun field => field.1 = "error" then
        .raised (errorText wire (message.get "error") (method ++ " failed"))
      else
        let result := message.get "result"
        .returned (if result.isObj then result else .obj [])
  | _ => .raised "TypeError"

/-- The turn of a `turn/completed` message. -/
def completedTurn (wire : Wire) (message : Json) : Ending :=
  let turn : Except String Json := do
    let params ← getOrRaise message "params" (.obj [])
    let turn ← getOrRaise params "turn" (.obj [])
    let _ ← getOrRaise turn "status" .null
    pure turn
  match turn with
  | .error text => .raised text
  | .ok turn =>
      match turn.get "status" with
      | .str "failed" => .raised (errorText wire (turn.get "error") "Codex turn failed")
      | _ => .returned turn

/-- Whether the call waits for the message. -/
def Call.awaits : Call → Json → Bool
  | .request id _, message | .requestResult id _, message => sameId (message.get "id") id
  | .turn, message =>
      match message.get "method" with
      | .str method => method = "turn/completed"
      | _ => false

/-- How a call ends with the message that it waits for. -/
def Call.conclude (wire : Wire) : Call → Json → Ending
  | .request _ _, message => .returned message
  | .requestResult _ method, message => responseResult wire method message
  | .turn, message => completedTurn wire message

/-- The id of the request that the call has sent. -/
def Call.id? : Call → Option Nat
  | .request id _ | .requestResult id _ => some id
  | .turn => none

/-! ## Sessions -/

/-- A call that has ended, with the number of lines that had been taken before it and at its
end. -/
structure Ended where
  call : Call
  since : Nat
  upto : Nat
  ending : Ending

/-- The client with the call that waits, and its history: the lines that have arrived, those that
were taken and the calls that have ended. -/
structure Session where
  client : Client
  call : Option (Call × Nat)
  arrived : List Line
  taken : List Line
  ended : List Ended

def Session.start : Session where
  client := ⟨1, [], [], [], false, none⟩
  call := none
  arrived := []
  taken := []
  ended := []

def Session.finish (s : Session) (call : Call) (since : Nat) (ending : Ending) : Session :=
  { s with
    call := none
    ended := s.ended ++ [⟨call, since, s.taken.length, ending⟩] }

/-- The call takes a line. -/
def Session.take (wire : Wire) (s : Session) (call : Call) (since : Nat) (line : Line)
    (rest : List Line) : Session :=
  let s := { s with client := { s.client with messages := rest }, taken := s.taken ++ [line] }
  match takeLine wire line with
  | .skipped => s
  | .raises => s.finish call since (.raised "TypeError")
  | .asked id result =>
      match s.client.write (responseLine id result) with
      | some client => { s with client := client }
      | none => s.finish call since (.raised "BrokenPipeError")
  | .message value =>
      if call.awaits value then s.finish call since (call.conclude wire value) else s

/-- What the calling thread asks for. -/
inductive Wanted
  | request
  | requestResult
  | turn

def Wanted.call (method : String) (id : Nat) : Wanted → Call
  | .request => .request id method
  | .requestResult => .requestResult id method
  | .turn => .turn

inductive Event
  | print (line : Line)
  | closeInput
  | exit (code : Int)
  | steer (method : String) (params : Option Json)
  | call (wanted : Wanted) (method : String) (params : Option Json)
  | take
  | empty
  | expire

/-- A request that cannot be written ends at once. -/
def Session.begin (s : Session) (wanted : Wanted) (method : String) (params : Option Json) :
    Session :=
  match wanted with
  | .turn => { s with call := some (.turn, s.taken.length) }
  | wanted =>
      let (client, sent) := s.client.send method params
      let call := wanted.call method s.client.nextId
      let s := { s with client := client }
      match sent with
      | some _ => { s with call := some (call, s.taken.length) }
      | none => s.finish call s.taken.length (.raised "BrokenPipeError")

def Session.next (wire : Wire) (strip : String → String) (s : Session) : Event → Option Session
  | .print line =>
      let stderr := match line with
        | .stderr text => [text]
        | .stdout _ => []
      some { s with
        client := { s.client with
          messages := s.client.messages ++ [line]
          stderrLines := s.client.stderrLines ++ stderr }
        arrived := s.arrived ++ [line] }
  | .closeInput => some { s with client := { s.client with broken := true } }
  | .exit code =>
      some { s with client := { s.client with returncode := some code, broken := true } }
  | .steer method params => some { s with client := (s.client.send method params).1 }
  | .call wanted method params =>
      match s.call with
      | none => some (s.begin wanted method params)
      | some _ => none
  | .take =>
      match s.call, s.client.messages with
      | some (call, since), line :: rest => some (s.take wire call since line rest)
      | _, _ => none
  | .empty =>
      match s.call, s.client.messages with
      | some (call, since), [] =>
          match s.client.returncode with
          | some code =>
              some (s.finish call since (.raised (s.client.processExitMessage strip code)))
          | none => some s
      | _, _ => none
  | .expire =>
      match s.call with
      | some (call, since) => some (s.finish call since .timedOut)
      | none => none

def system (wire : Wire) (strip : String → String) : TransitionSystem Session Event where
  init := fun s => s = .start
  step := fun s e s' => s.next wire strip e = some s'

/-! ## Histories -/

/-- The id of a request that was written. -/
def requestId? : Json → Option Nat
  | .obj (("id", .int id) :: ("method", .str _) :: _) => some id.toNat
  | _ => none

def requestIds (written : List Json) : List Nat :=
  written.filterMap requestId?

/-- The response that was written. -/
def response? : Json → Option (Json × Json)
  | .obj [("id", id), ("result", result)] => some (id, result)
  | _ => none

def responses (written : List Json) : List (Json × Json) :=
  written.filterMap response?

/-- What a line demands of the client. -/
def asked? (wire : Wire) (line : Line) : Option (Json × Json) :=
  match takeLine wire line with
  | .asked id result => some (id, result)
  | _ => none

def asked (wire : Wire) (lines : List Line) : List (Json × Json) :=
  lines.filterMap (asked? wire)

/-- The call waits for none of the lines. -/
def Quiet (wire : Wire) (call : Call) (lines : List Line) : Prop :=
  ∀ line ∈ lines, ∀ value, takeLine wire line = .message value → call.awaits value = false

/-- A call that has ended took the lines up to the first one that it waited for, or none that it
waited for. -/
structure EndedOk (wire : Wire) (taken : List Line) (e : Ended) : Prop where
  ordered : e.since ≤ e.upto
  bound : e.upto ≤ taken.length
  first : (∃ before line value, (taken.take e.upto).drop e.since = before ++ [line] ∧
      takeLine wire line = .message value ∧ e.call.awaits value = true ∧
      e.ending = e.call.conclude wire value ∧ Quiet wire e.call before) ∨
    (Quiet wire e.call ((taken.take e.upto).drop e.since) ∧ ∀ value, e.ending ≠ .returned value)

/-- All calls, the one that waits last. -/
def Session.calls (s : Session) : List Call :=
  s.ended.map Ended.call ++ (s.call.map Prod.fst).toList

/-- What is kept up while a line is taken. -/
structure HistoryOk (wire : Wire) (s : Session) : Prop where
  fifo : s.arrived = s.taken ++ s.client.messages
  requests : (requestIds s.client.written).Pairwise (· < ·)
  fresh : ∀ id ∈ requestIds s.client.written, id < s.client.nextId
  answers : responses s.client.written <+: asked wire s.taken
  answersAll : s.client.broken = false → responses s.client.written = asked wire s.taken
  ended : ∀ e ∈ s.ended, EndedOk wire s.taken e
  apart : s.ended.Pairwise fun a b => a.upto ≤ b.since
  before : ∀ call since, s.call = some (call, since) →
    since ≤ s.taken.length ∧ ∀ e ∈ s.ended, e.upto ≤ since
  ids : (s.calls.filterMap Call.id?).Pairwise (· < ·)
  idsFresh : ∀ id ∈ s.calls.filterMap Call.id?, id < s.client.nextId

structure SessionOk (wire : Wire) (s : Session) : Prop extends HistoryOk wire s where
  waits : ∀ call since, s.call = some (call, since) → Quiet wire call (s.taken.drop since)
  sent : ∀ call since id, s.call = some (call, since) → call.id? = some id →
    id ∈ requestIds s.client.written

variable {wire : Wire} {strip : String → String} {s s' : Session}

/-- A message answers one request at most. -/
theorem sameId_unique {id : Json} {m n : Nat} (hm : sameId id m = true) (hn : sameId id n = true) :
    m = n := by
  cases id with
  | int value =>
      simp only [sameId, decide_eq_true_eq] at hm hn
      omega
  | bool value =>
      simp only [sameId, decide_eq_true_eq] at hm hn
      omega
  | float text zero =>
      simp only [sameId, decide_eq_true_eq] at hm hn
      have hlist := congrArg String.toList (hm.symm.trans hn)
      rw [String.toList_append, String.toList_append] at hlist
      exact Nat.repr_injective (String.ext (List.append_cancel_right hlist))
  | _ => cases hm

theorem EndedOk.append {taken : List Line} {e : Ended} (h : EndedOk wire taken e)
    (more : List Line) : EndedOk wire (taken ++ more) e := by
  refine ⟨h.ordered, ?_, ?_⟩
  · rw [List.length_append]
    exact Nat.le_trans h.bound (Nat.le_add_right _ _)
  · rw [List.take_append_of_le_length h.bound]
    exact h.first

theorem Quiet.snoc {call : Call} {lines : List Line} {line : Line} (h : Quiet wire call lines)
    (hline : ∀ value, takeLine wire line = .message value → call.awaits value = false) :
    Quiet wire call (lines ++ [line]) := by
  intro other hother
  rcases List.mem_append.mp hother with hmem | hmem
  · exact h other hmem
  · cases List.mem_singleton.mp hmem
    exact hline

theorem requestIds_snoc (written : List Json) (id : Nat) (method : String)
    (params : Option Json) :
    requestIds (written ++ [requestLine id method params]) = requestIds written ++ [id] := by
  unfold requestIds
  rw [List.filterMap_append]
  rfl

theorem responses_request (written : List Json) (id : Nat) (method : String)
    (params : Option Json) :
    responses (written ++ [requestLine id method params]) = responses written := by
  unfold responses
  rw [List.filterMap_append]
  cases params with
  | none => exact List.append_nil _
  | some params => exact List.append_nil _

theorem requestIds_response (written : List Json) (id result : Json) :
    requestIds (written ++ [responseLine id result]) = requestIds written := by
  unfold requestIds responseLine
  rw [List.filterMap_append]
  cases id <;> exact List.append_nil _

theorem responses_snoc (written : List Json) (id result : Json) :
    responses (written ++ [responseLine id result]) = responses written ++ [(id, result)] := by
  unfold responses
  rw [List.filterMap_append]
  rfl

/-! ## Steps -/

theorem SessionOk.start : SessionOk wire .start := by
  refine ⟨⟨rfl, List.Pairwise.nil, nofun, List.prefix_rfl, fun _ => rfl, nofun, List.Pairwise.nil,
    nofun, List.Pairwise.nil, nofun⟩, nofun, nofun⟩

/-- A call ends. -/
theorem HistoryOk.finish (h : HistoryOk wire s) {call : Call} {since : Nat} {ending : Ending}
    (hcall : s.call = some (call, since))
    (hended : EndedOk wire s.taken ⟨call, since, s.taken.length, ending⟩) :
    SessionOk wire (s.finish call since ending) := by
  have hcalls : (s.finish call since ending).calls = s.calls := by
    simp [Session.finish, Session.calls, hcall]
  refine ⟨⟨h.fifo, h.requests, h.fresh, h.answers, h.answersAll, ?_, ?_, nofun, ?_, ?_⟩, nofun,
    nofun⟩
  · intro e hmem
    rcases List.mem_append.mp hmem with hmem | hmem
    · exact h.ended e hmem
    · cases List.mem_singleton.mp hmem
      exact hended
  · apply List.pairwise_append.mpr
    refine ⟨h.apart, List.pairwise_singleton _ _, ?_⟩
    intro a ha b hb
    cases List.mem_singleton.mp hb
    exact (h.before call since hcall).2 a ha
  · rw [hcalls]
    exact h.ids
  · rw [hcalls]
    exact h.idsFresh

/-- The call that waits has taken a line. -/
theorem SessionOk.took (h : SessionOk wire s) {line : Line} {client : Client}
    (hmessages : s.client.messages = line :: client.messages)
    (hids : requestIds client.written = requestIds s.client.written)
    (hnext : client.nextId = s.client.nextId)
    (hanswers : responses client.written <+: asked wire (s.taken ++ [line]))
    (hall : client.broken = false →
      responses client.written = asked wire (s.taken ++ [line])) :
    HistoryOk wire { s with client := client, taken := s.taken ++ [line] } := by
  refine ⟨?_, ?_, ?_, hanswers, hall, ?_, h.apart, ?_, h.ids, ?_⟩
  · rw [h.fifo, hmessages]
    simp
  · dsimp only
    rw [hids]
    exact h.requests
  · dsimp only
    rw [hids, hnext]
    exact h.fresh
  · intro e hmem
    exact (h.ended e hmem).append [line]
  · intro call since hcall
    have hbefore := h.before call since hcall
    refine ⟨?_, hbefore.2⟩
    rw [List.length_append]
    exact Nat.le_trans hbefore.1 (Nat.le_add_right _ _)
  · dsimp only
    rw [hnext]
    exact h.idsFresh

theorem asked_snoc (lines : List Line) (line : Line) :
    asked wire (lines ++ [line]) = asked wire lines ++ (asked? wire line).toList := by
  unfold asked
  rw [List.filterMap_append]
  cases hasked : asked? wire line with
  | none => simp [hasked]
  | some demand => simp [hasked]

/-- A line that asks nothing. -/
theorem SessionOk.took_quiet (h : SessionOk wire s) {line : Line} {rest : List Line}
    (hmessages : s.client.messages = line :: rest) (hasked : asked? wire line = none) :
    HistoryOk wire { s with
      client := { s.client with messages := rest }
      taken := s.taken ++ [line] } := by
  have hsame : asked wire (s.taken ++ [line]) = asked wire s.taken := by
    rw [asked_snoc, hasked]
    simp
  refine h.took hmessages rfl rfl ?_ ?_
  · rw [hsame]
    exact h.answers
  · intro hbroken
    rw [hsame]
    exact h.answersAll hbroken

/-- The lines of a call that goes on waiting. -/
theorem SessionOk.waits_snoc (h : SessionOk wire s) {call : Call} {since : Nat} {line : Line}
    (hcall : s.call = some (call, since))
    (hline : ∀ value, takeLine wire line = .message value → call.awaits value = false) :
    Quiet wire call ((s.taken ++ [line]).drop since) := by
  rw [List.drop_append_of_le_length (h.before call since hcall).1]
  exact (h.waits call since hcall).snoc hline

/-- A call that ends without what it waits for. -/
theorem endedOk_quiet {taken : List Line} {call : Call} {since : Nat} {ending : Ending}
    (hbound : since ≤ taken.length) (hquiet : Quiet wire call (taken.drop since))
    (hending : ∀ value, ending ≠ .returned value) :
    EndedOk wire taken ⟨call, since, taken.length, ending⟩ := by
  refine ⟨hbound, Nat.le_refl _, .inr ⟨?_, hending⟩⟩
  rw [List.take_length]
  exact hquiet

theorem SessionOk.take (h : SessionOk wire s) {call : Call} {since : Nat} {line : Line}
    {rest : List Line} (hcall : s.call = some (call, since))
    (hmessages : s.client.messages = line :: rest) :
    SessionOk wire (s.take wire call since line rest) := by
  have hbound : since ≤ (s.taken ++ [line]).length := by
    rw [List.length_append]
    exact Nat.le_trans (h.before call since hcall).1 (Nat.le_add_right _ _)
  have hgoes : ∀ client, HistoryOk wire { s with client := client, taken := s.taken ++ [line] } →
      requestIds client.written = requestIds s.client.written →
      (∀ value, takeLine wire line = .message value → call.awaits value = false) →
      SessionOk wire { s with client := client, taken := s.taken ++ [line] } := by
    intro client hhistory hids hline
    refine ⟨hhistory, ?_, ?_⟩
    · intro other start hother
      have hsame := hcall.symm.trans hother
      cases hsame
      exact h.waits_snoc hcall hline
    · intro other start id hother hid
      dsimp only
      rw [hids]
      exact h.sent other start id hother hid
  unfold Session.take
  dsimp only
  cases htake : takeLine wire line with
  | skipped =>
      dsimp only
      apply hgoes _ (h.took_quiet hmessages (by unfold asked?; rw [htake])) rfl
      intro value hvalue
      rw [htake] at hvalue
      cases hvalue
  | raises =>
      dsimp only
      refine (h.took_quiet hmessages (by unfold asked?; rw [htake])).finish hcall
        (endedOk_quiet hbound (h.waits_snoc hcall ?_) fun _ => nofun)
      intro value hvalue
      rw [htake] at hvalue
      cases hvalue
  | asked id result =>
      have hasked : asked wire (s.taken ++ [line]) = asked wire s.taken ++ [(id, result)] := by
        rw [asked_snoc]
        unfold asked?
        rw [htake]
        rfl
      have hline : ∀ value, takeLine wire line = .message value → call.awaits value = false := by
        intro value hvalue
        rw [htake] at hvalue
        cases hvalue
      dsimp only
      unfold Client.write
      dsimp only
      cases hbroken : s.client.broken with
      | true =>
          simp only [if_true]
          refine HistoryOk.finish ?_ hcall (endedOk_quiet hbound (h.waits_snoc hcall hline)
            fun _ => nofun)
          refine h.took hmessages rfl rfl ?_ ?_
          · rw [hasked]
            exact h.answers.trans (List.prefix_append _ _)
          · intro hopen
            cases hopen
      | false =>
          simp only [Bool.false_eq_true, if_false]
          refine hgoes _ ?_ (requestIds_response _ _ _) hline
          have hwritten : responses (s.client.written ++ [responseLine id result]) =
              asked wire (s.taken ++ [line]) := by
            rw [responses_snoc, h.answersAll hbroken, hasked]
          refine h.took hmessages (requestIds_response _ _ _) rfl ?_ ?_
          · exact hwritten ▸ List.prefix_rfl
          · intro _
            exact hwritten
  | message value =>
      have hquiet : asked? wire line = none := by
        unfold asked?
        rw [htake]
      have hhistory := h.took_quiet hmessages hquiet
      dsimp only
      split_ifs with hawaits
      · apply hhistory.finish hcall
        refine ⟨hbound, Nat.le_refl _, .inl ⟨s.taken.drop since, line, value, ?_, htake, hawaits,
          rfl, h.waits call since hcall⟩⟩
        rw [List.take_length, List.drop_append_of_le_length (h.before call since hcall).1]
      · apply hgoes _ hhistory rfl
        intro other hother
        rw [htake] at hother
        cases hother
        exact Bool.eq_false_iff.mpr hawaits

/-- A request that nobody waits for. -/
theorem SessionOk.send (h : SessionOk wire s) (method : String) (params : Option Json) :
    SessionOk wire { s with client := (s.client.send method params).1 } ∧
      (s.client.send method params).1.nextId = s.client.nextId + 1 ∧
      ∀ id, (s.client.send method params).2 = some id → id = s.client.nextId ∧
        id ∈ requestIds (s.client.send method params).1.written := by
  unfold Client.send Client.write
  dsimp only
  cases hbroken : s.client.broken with
  | true =>
      simp only [if_true]
      refine ⟨⟨⟨h.fifo, h.requests, ?_, h.answers, nofun, h.ended, h.apart, h.before, h.ids, ?_⟩,
        h.waits, h.sent⟩, trivial, nofun⟩
      · intro id hid
        exact Nat.lt_succ_of_lt (h.fresh id hid)
      · intro id hid
        exact Nat.lt_succ_of_lt (h.idsFresh id hid)
  | false =>
      simp only [Bool.false_eq_true, if_false]
      have hids := requestIds_snoc s.client.written s.client.nextId method params
      have hanswers := responses_request s.client.written s.client.nextId method params
      refine ⟨⟨⟨h.fifo, ?_, ?_, ?_, ?_, h.ended, h.apart, h.before, h.ids, ?_⟩, h.waits, ?_⟩,
        trivial, ?_⟩
      · dsimp only
        rw [hids]
        apply List.pairwise_append.mpr
        refine ⟨h.requests, List.pairwise_singleton _ _, ?_⟩
        intro a ha b hb
        cases List.mem_singleton.mp hb
        exact h.fresh a ha
      · intro id hid
        dsimp only at hid ⊢
        rw [hids] at hid
        rcases List.mem_append.mp hid with hid | hid
        · exact Nat.lt_succ_of_lt (h.fresh id hid)
        · cases List.mem_singleton.mp hid
          exact Nat.lt_succ_self _
      · dsimp only
        rw [hanswers]
        exact h.answers
      · intro _
        dsimp only
        rw [hanswers]
        exact h.answersAll hbroken
      · intro id hid
        exact Nat.lt_succ_of_lt (h.idsFresh id hid)
      · intro call since id hcall hid
        dsimp only
        rw [hids]
        exact List.mem_append_left _ (h.sent call since id hcall hid)
      · rintro id hid
        cases hid
        refine ⟨rfl, ?_⟩
        rw [hids]
        exact List.mem_append_right _ (List.mem_singleton_self _)

/-- A call begins to wait. -/
theorem HistoryOk.open (h : HistoryOk wire s) (hnone : s.call = none) {call : Call}
    (hnew : ∀ id, call.id? = some id →
      id < s.client.nextId ∧ ∀ old ∈ s.calls.filterMap Call.id?, old < id) :
    HistoryOk wire { s with call := some (call, s.taken.length) } := by
  have hcalls : ({ s with call := some (call, s.taken.length) } : Session).calls =
      s.calls ++ [call] := by
    simp [Session.calls, hnone]
  refine ⟨h.fifo, h.requests, h.fresh, h.answers, h.answersAll, h.ended, h.apart, ?_, ?_, ?_⟩
  · intro other since hother
    cases hother
    exact ⟨Nat.le_refl _, fun e hmem => (h.ended e hmem).bound⟩
  · rw [hcalls, List.filterMap_append]
    apply List.pairwise_append.mpr
    refine ⟨h.ids, ?_, ?_⟩
    · cases hid : call.id? with
      | none => simp [hid]
      | some id => simp [hid]
    · intro old hold id hid
      have hsome : call.id? = some id := by simpa using hid
      exact (hnew id hsome).2 old hold
  · intro id hid
    rw [hcalls, List.filterMap_append] at hid
    rcases List.mem_append.mp hid with hid | hid
    · exact h.idsFresh id hid
    · have hsome : call.id? = some id := by simpa using hid
      exact (hnew id hsome).1

theorem SessionOk.begin (h : SessionOk wire s) (hnone : s.call = none) (wanted : Wanted)
    (method : String) (params : Option Json) : SessionOk wire (s.begin wanted method params) := by
  have hturn : SessionOk wire { s with call := some (.turn, s.taken.length) } := by
    refine ⟨h.toHistoryOk.open hnone nofun, ?_, ?_⟩
    · intro call since hcall
      cases hcall
      dsimp only
      rw [List.drop_length]
      exact nofun
    · intro call since id hcall hid
      cases hcall
      cases hid
  have hrequest : ∀ call, call.id? = some s.client.nextId →
      SessionOk wire (match (s.client.send method params).2 with
        | some _ => { s with
            client := (s.client.send method params).1
            call := some (call, s.taken.length) }
        | none => ({ s with client := (s.client.send method params).1 } : Session).finish call
            s.taken.length (.raised "BrokenPipeError")) := by
    intro call hid
    rcases h.send method params with ⟨hsent, hnext, hid'⟩
    have hfresh : ∀ id, call.id? = some id → id < (s.client.send method params).1.nextId ∧
        ∀ old ∈ s.calls.filterMap Call.id?, old < id := by
      intro id hsome
      rw [hid] at hsome
      cases hsome
      refine ⟨?_, h.idsFresh⟩
      rw [hnext]
      exact Nat.lt_succ_self _
    have hopen := hsent.toHistoryOk.open hnone hfresh
    cases hresult : (s.client.send method params).2 with
    | some id =>
        refine ⟨hopen, ?_, ?_⟩
        · intro other since hother
          cases hother
          dsimp only
          rw [List.drop_length]
          exact nofun
        · intro other since id' hother hsome
          cases hother
          rw [hid] at hsome
          cases hsome
          have hwritten := hid' id hresult
          rw [hwritten.1] at hwritten
          exact hwritten.2
    | none =>
        apply hopen.finish rfl
        refine endedOk_quiet (Nat.le_refl _) ?_ fun _ => nofun
        dsimp only
        rw [List.drop_length]
        exact nofun
  cases wanted with
  | turn => exact hturn
  | request => exact hrequest (.request s.client.nextId method) rfl
  | requestResult => exact hrequest (.requestResult s.client.nextId method) rfl

theorem SessionOk.giveUp (h : SessionOk wire s) {call : Call} {since : Nat} {ending : Ending}
    (hcall : s.call = some (call, since)) (hending : ∀ value, ending ≠ .returned value) :
    SessionOk wire (s.finish call since ending) :=
  h.toHistoryOk.finish hcall
    (endedOk_quiet (h.before call since hcall).1 (h.waits call since hcall) hending)

theorem sessionOk_step {e : Event} (h : SessionOk wire s) (hnext : s.next wire strip e = some s') :
    SessionOk wire s' := by
  unfold Session.next at hnext
  cases e with
  | print line =>
      cases hnext
      refine ⟨⟨?_, h.requests, h.fresh, h.answers, h.answersAll, h.ended, h.apart, h.before, h.ids,
        h.idsFresh⟩, h.waits, h.sent⟩
      dsimp only
      rw [h.fifo, List.append_assoc]
  | closeInput =>
      cases hnext
      exact ⟨⟨h.fifo, h.requests, h.fresh, h.answers, nofun, h.ended, h.apart, h.before, h.ids,
        h.idsFresh⟩, h.waits, h.sent⟩
  | exit code =>
      cases hnext
      exact ⟨⟨h.fifo, h.requests, h.fresh, h.answers, nofun, h.ended, h.apart, h.before, h.ids,
        h.idsFresh⟩, h.waits, h.sent⟩
  | steer method params =>
      cases hnext
      exact (h.send method params).1
  | call wanted method params =>
      dsimp only at hnext
      split at hnext
      · rename_i hnone
        cases hnext
        exact h.begin hnone wanted method params
      · cases hnext
  | take =>
      dsimp only at hnext
      split at hnext
      · rename_i call since line rest hcall hmessages
        cases hnext
        exact h.take hcall hmessages
      · cases hnext
  | empty =>
      dsimp only at hnext
      split at hnext
      · rename_i call since hcall hmessages
        split at hnext
        · cases hnext
          exact h.giveUp hcall fun _ => nofun
        · cases hnext
          exact h
      · cases hnext
  | expire =>
      dsimp only at hnext
      split at hnext
      · rename_i call since hcall
        cases hnext
        exact h.giveUp hcall fun _ => nofun
      · cases hnext

theorem sessionOk_reachable (h : (system wire strip).Reachable s) : SessionOk wire s := by
  apply h.invariant
  · rintro _ rfl
    exact SessionOk.start
  · intro a e b _ ha hstep
    exact sessionOk_step ha hstep

/-! ## The law -/

theorem Call.awaits_unique {a b : Call} {m n : Nat} {value : Json} (ha : a.id? = some m)
    (hb : b.id? = some n) (hne : m ≠ n) (hawaits : a.awaits value = true) :
    b.awaits value = false := by
  have hsame : ∀ {c : Call} {k : Nat}, c.id? = some k →
      c.awaits value = sameId (value.get "id") k := by
    intro c k hc
    cases c <;> cases hc <;> rfl
  rw [hsame ha] at hawaits
  rw [hsame hb]
  by_contra hother
  exact hne (sameId_unique hawaits (Bool.not_eq_false _ ▸ hother))

/-- What a session keeps up. -/
structure SessionLaw (wire : Wire) (s : Session) : Prop where
  fifo : s.arrived = s.taken ++ s.client.messages
  ids : (requestIds s.client.written).Pairwise (· < ·)
  answers : responses s.client.written <+: asked wire s.taken
  answersAll : s.client.broken = false → responses s.client.written = asked wire s.taken
  ended : ∀ e ∈ s.ended, EndedOk wire s.taken e
  apart : s.ended.Pairwise fun a b => a.upto ≤ b.since
  own : s.ended.Pairwise fun a b => ∀ m n value, a.call.id? = some m → b.call.id? = some n →
    a.call.awaits value = true → b.call.awaits value = false
  waits : ∀ call since, s.call = some (call, since) →
    Quiet wire call (s.taken.drop since) ∧
      ∀ id, call.id? = some id → id ∈ requestIds s.client.written

/-- In every run, with another thread that sends requests, with timeouts and with a process that
closes its input or ends at any moment: every line is taken once, in the order of arrival; the ids
of requests go up; what the server asks in the lines that were taken is answered once and in order,
up to the point where the process has closed its input; a call that returns has taken the lines up
to the first one that it waits for, and any other call none that it waits for; no line is taken by
two calls, and no message that one request waits for is the answer to another. -/
theorem session_law (wire : Wire) (strip : String → String) (s : Session)
    (hs : (system wire strip).Reachable s) : SessionLaw wire s := by
  have h := sessionOk_reachable hs
  refine ⟨h.fifo, h.requests, h.answers, h.answersAll, h.ended, h.apart, ?_, ?_⟩
  · have hids := h.ids
    unfold Session.calls at hids
    rw [List.filterMap_append] at hids
    have hended := (List.pairwise_append.mp hids).1
    rw [List.filterMap_map, List.pairwise_filterMap] at hended
    refine hended.imp ?_
    intro a b hless m n value hm hn hawaits
    exact Call.awaits_unique hm hn (Nat.ne_of_lt (hless m hm n hn)) hawaits
  · intro call since hcall
    exact ⟨h.waits call since hcall, fun id hid => h.sent call since id hcall hid⟩

/-- A server that asks for an approval, answers a request that was steered in between and then the
one that waits. -/
def exampleWire : Wire where
  loads := fun text =>
    if text = "approve" then
      some (.obj [("id", .int 1), ("method", .str "item/fileChange/requestApproval")])
    else if text = "steered" then some (.obj [("id", .int 2), ("result", .obj [])])
    else if text = "started" then some (.obj [("id", .int 1), ("result", .obj [])])
    else none
  str := fun _ => ""

theorem session_law_approval :
    ∃ s, TransitionSystem.play (Session.next exampleWire id) .start
        [.call .requestResult "thread/start" none, .steer "turn/steer" none,
          .print (.stdout "approve"), .print (.stderr "warning"), .take, .print (.stdout "steered"),
          .take, .take, .print (.stdout "started"), .take] = some s ∧
      s.ended.map (fun e => (e.since, e.upto)) = [(0, 4)] ∧
      requestIds s.client.written = [1, 2] ∧ SessionLaw exampleWire s := by
  have hplay : TransitionSystem.play (Session.next exampleWire id) .start
      [.call .requestResult "thread/start" none, .steer "turn/steer" none,
        .print (.stdout "approve"), .print (.stderr "warning"), .take, .print (.stdout "steered"),
        .take, .take, .print (.stdout "started"), .take] = some _ := rfl
  refine ⟨_, hplay, rfl, rfl, session_law exampleWire id _ ?_⟩
  exact .play (.init rfl) (fun _ _ _ hnext => hnext) hplay

end AppServer

end Manager
end Stemcell
