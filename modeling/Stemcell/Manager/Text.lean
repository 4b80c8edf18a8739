import Mathlib.Data.List.Infix
import Stemcell.Interface.Json

/-!
# Texts of the manager

Providers answer with text.  The manager loop reads tool calls out of it, and tells
failures from answers by markers in the text.  This module has these readings and
the texts that the source makes up itself.

Main results:

- Definition `parseManagerOutput`: the tool calls in a text.
- Definition `managerProviderFailed`: does a provider's answer count as a failure?

Current gaps:

- `json`, `str.lower` and `redact_diagnostic_text` are parameters.
-/

namespace Stemcell
namespace Manager

open Interface (Json strip)

/-- A manager backend. -/
inductive Provider
  | claude
  | codex
deriving DecidableEq

/-- What the source takes from Python and from the redaction of diagnostics:
`str(value)` of a value that is no text, `str.lower`, `json.dumps` without and with
`sort_keys`, `JSONDecoder().raw_decode` and `redact_diagnostic_text(value, limit)`. -/
structure Texts where
  str : Json → String
  lower : String → String
  dumps : Json → String
  dumpsSorted : Json → String
  rawDecode : List Char → Option (Json × Nat)
  redact : String → Nat → String

/-- `needle in text`. -/
def contains (text needle : String) : Bool :=
  decide (needle.toList <:+: text.toList)

/-- `TIMEOUT_MSG`. -/
def timeoutMsg : String :=
  "SYSTEM: The manager provider stopped responding before it produced a " ++
    "complete tool result. Delegate long-running work to a worker and finish " ++
    "this turn promptly."

/-- The output that stands for "nothing to do". -/
def doNothingOutput : String :=
  "\x7b\"tools\": [\x7b\"tool\": \"do_nothing\"\x7d]\x7d"

/-- `provider_not_authenticated_message`. -/
def providerNotAuthenticatedMessage : Provider → String
  | .claude => "Claude not authenticated."
  | .codex => "Codex not authenticated."

variable (py : Texts)

/-! ## Failure markers -/

/-- `_is_rate_limit`. -/
def isRateLimit (text : String) : Bool :=
  ["rate limit", "rate_limit", "usage limit", "hit your limit", "too many requests",
    "quota exceeded", "overloaded"].any (contains (py.lower text))

/-- `_PROVIDER_AUTH_FAILURE_MARKERS`. -/
def providerAuthFailureMarkers : List String :=
  ["authentication_failed", "authentication failed", "failed to authenticate",
    "not authenticated", "not logged in", "login required", "please run /login",
    "oauth session expired", "oauth token expired", "invalid api key", "incorrect api key",
    "401 unauthorized"]

/-- `provider_authentication_failed`. -/
def providerAuthenticationFailed (values : List String) : Bool :=
  providerAuthFailureMarkers.any (contains (py.lower (" ".intercalate values)))

/-! ## Texts of the source -/

/-- A reply to the contact, then nothing. -/
def replyThenNothing (message : String) : List Json :=
  [.obj [("tool", .str "reply"), ("message", .str message)],
    .obj [("tool", .str "do_nothing")]]

/-- The same, as the output of a provider. -/
def replyTools (message : String) : String :=
  py.dumps (.obj [("tools", .arr (replyThenNothing message))])

/-- `_safe_manager_error_tools`. -/
def safeManagerErrorTools (value : String) : String :=
  let redacted := py.redact value 300
  let detail :=
    if redacted = "[private manager tool invocation omitted]" ∨
        redacted = "[advertising memory content omitted]" ∨ redacted = "" then
      "provider call failed"
    else redacted
  replyTools py ("Manager error: " ++ detail)

/-- `_provider_not_authenticated_tools`. -/
def providerNotAuthenticatedTools (provider : Provider) : String :=
  replyTools py (providerNotAuthenticatedMessage provider)

/-! ## Tool calls -/

/-- The tool calls of one decoded value. -/
def toolsOf (value : Json) : List Json :=
  if value.isObj then (value.get "tools").items.filter Json.isObj else []

/-- The loop of `parse_manager_output`: decode wherever a brace opens.  Every round
takes a character at least, so `fuel` is the length of the text. -/
def scanTools : Nat → List Char → List Json
  | 0, _ => []
  | fuel + 1, text =>
      match text.dropWhile fun c => c ≠ '{' with
      | [] => []
      | brace :: rest =>
          match py.rawDecode (brace :: rest) with
          | none => scanTools fuel rest
          | some (value, consumed) =>
              toolsOf value ++ scanTools fuel ((brace :: rest).drop (max consumed 1))

/-- `parse_manager_output`. -/
def parseManagerOutput (output : String) : Option (List Json) :=
  match scanTools py output.length output.toList with
  | [] => none
  | tools => some tools

/-- `str(tool.get("message") or "")`. -/
def messageOf (tool : Json) : String :=
  match tool.get "message" with
  | .str text => text
  | value => if value.truthy then py.str value else ""

/-- `tool.get("tool") == name`. -/
def isTool (name : String) (tool : Json) : Bool :=
  match tool.get "tool" with
  | .str text => text = name
  | _ => false

/-- A reply that reports a failure of a provider. -/
def reportsFailure (tool : Json) : Bool :=
  isTool "reply" tool &&
    (contains (messageOf py tool) "Manager error:" ||
      messageOf py tool = providerNotAuthenticatedMessage .claude ||
      messageOf py tool = providerNotAuthenticatedMessage .codex)

/-- `_manager_provider_failed`.  A complete tool call is usable even when its text
happens to contain a marker. -/
def managerProviderFailed (output : String) (rateLimit : Option String) : Bool :=
  let text := strip output
  if text = "" ∨ text = timeoutMsg then true
  else
    match parseManagerOutput py text with
    | some tools => tools.any (reportsFailure py)
    | none =>
        (rateLimit.getD "" ≠ "") || contains text "Manager error:" ||
          ["failed to authenticate", "authentication failed", "oauth session expired",
            "login required", "not logged in"].any (contains (py.lower text))

end Manager
end Stemcell
