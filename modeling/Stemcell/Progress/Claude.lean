import Stemcell.Progress.Redaction

/-!
# Progress of Claude

The lines that Claude streams become progress events.  What a tool returns is a text for some tools
and a list of blocks for others; it goes into the event as it is.

Main results:

- Definition `claudeProgressEvents`: the events of one line.
- Theorem `blocks_given_away`: a search result that leaves with the name of a private file in it.

Current gaps:

- `str` of a list or a dictionary is a parameter.
- Token usage is left out; a line that is not made of dictionaries, or a call without a textual id,
  raises in the source and has no events here.
-/

namespace Stemcell
namespace Progress

open Lib
open Interface (Json isSpace)

/-! ## Fields -/

variable (str : Json → String) (nowMs : Int)

/-- `str(value or "")`. -/
def textOrEmpty (value : Json) : String :=
  match value with
  | .str text => text
  | _ => if value.truthy then str value else ""

/-- `compact`. -/
def compact (value : Json) (limit : Nat) : String :=
  let words := ((textOrEmpty str value).toList.splitOnP isSpace).filter fun word => word ≠ []
  let text := [' '].intercalate words
  String.ofList (if limit < text.length then text.take (limit - 1) ++ ['.', '.', '.'] else text)

/-- `redact_private_manager_output`. -/
def redactPrivateManagerOutput (value : Json) (limit : Nat) : String :=
  let text := textOrEmpty str value
  if containsPrivateManagerTool text then privateManagerMarker
  else if containsAdvertisingMemoryReference text then advertisingContentMarker
  else compact str (.str text) limit

/-- A value that `progress_event` leaves out. -/
def isAbsent : Json → Bool
  | .null => true
  | .str text => text = ""
  | _ => false

/-- `progress_event`. -/
def progressEvent (provider kind : String) (fields : List (String × Json)) : Event :=
  let event := ((((Dict.empty.set "schema" (.str "silicon.progress")).set "version" (.int 1)).set
    "provider" (.str provider)).set "kind" (.str kind)).set "ts_ms" (.int nowMs)
  sanitizeProgressEvent
    (fields.foldl (fun event (key, value) =>
      if isAbsent value then event else event.set key value) event)

/-- `stringify_command`. -/
def stringifyCommand (command : Json) : String :=
  match command with
  | .arr parts => " ".intercalate (parts.map str)
  | _ => textOrEmpty str command

/-- `_first_present`. -/
def firstPresent (mapping : Json) : List String → Json
  | [] => .str ""
  | key :: keys =>
      if (mapping.get key).truthy then mapping.get key else firstPresent mapping keys

/-! ## Tools -/

/-- `_claude_tool_progress`. -/
def claudeToolProgress (block : Json) : Event :=
  let toolName := (block.get "name").orElse (.str "")
  let toolInput := (block.get "input").orElse (.obj [])
  let started := fun kind fields =>
    progressEvent nowMs "claude" kind
      ([("status", .str "started"), ("item_id", block.get "id"), ("tool_name", toolName)] ++ fields)
  let is := fun names : List String =>
    match toolName with
    | .str name => names.contains name
    | _ => false
  if is ["Read", "Glob", "Grep", "LS", "NotebookRead"] then
    started "reading_file" [("path",
      (firstPresent toolInput ["file_path", "path", "notebook_path"]).orElse
        (toolInput.get "pattern"))]
  else if is ["Write", "Edit", "MultiEdit", "NotebookEdit"] then
    started "writing_file" [("path",
      firstPresent toolInput ["file_path", "path", "notebook_path"])]
  else if is ["WebSearch", "WebFetch"] then
    started "searching_web" [("query", firstPresent toolInput ["query", "url"])]
  else if is ["Bash"] then
    started executing [("command", .str (stringifyCommand str (toolInput.get "command"))),
      ("description", toolInput.get "description")]
  else started executing []

/-- What is kept between two lines: the model, and the events of the calls that have started. -/
structure ClaudeState where
  model : Json
  items : Dict String Event

/-- The event of a call, under its id. -/
def ClaudeState.started (state : ClaudeState) (itemId : Json) : Event :=
  match itemId with
  | .str id => (state.items.get? id).getD .empty
  | _ => .empty

/-- The field of an event, `None` where it has none. -/
def fieldOf (event : Event) (key : String) : Json := (event.get? key).getD .null

/-- One block of what Claude says. -/
def assistantBlock (state : ClaudeState) (block : Json) : ClaudeState × List Event :=
  match block.get "type" with
  | .str "thinking" =>
      (state, [progressEvent nowMs "claude" "thinking" [("status", .str "started")]])
  | .str "tool_use" =>
      let progress := claudeToolProgress str nowMs block
      match fieldOf progress "item_id" with
      | .str id => ({ state with items := state.items.set id progress }, [progress])
      | _ => (state, [progress])
  | _ => (state, [])

/-- One block of what a tool returns. -/
def toolResult (state : ClaudeState) (block : Json) : List Event :=
  match block.get "type" with
  | .str "tool_result" =>
      let started := state.started (block.get "tool_use_id")
      let kind :=
        match fieldOf started "kind" with
        | .str kind => kind
        | _ => executing
      let content := block.get "content"
      [progressEvent nowMs "claude" kind
        [("status", .str "completed"), ("item_id", block.get "tool_use_id"),
          ("tool_name", fieldOf started "tool_name"), ("path", fieldOf started "path"),
          ("query", fieldOf started "query"), ("command", fieldOf started "command"),
          ("is_error", (block.get "is_error").orElse (.bool false)), ("output", content),
          ("preview", .str (compact str content 240))]]
  | _ => []

/-- `claude_progress_events`. -/
def claudeProgressEvents (event : Json) (state : ClaudeState) : ClaudeState × List Event :=
  let content := ((event.get "message").get "content").items
  match event.get "type" with
  | .str "system" =>
      match event.get "subtype" with
      | .str "init" =>
          (if (event.get "model").truthy then
            { state with model := .str (textOrEmpty str (event.get "model")) } else state, [])
      | _ => (state, [])
  | .str "assistant" =>
      content.foldl (fun (state, events) block =>
        let (state', more) := assistantBlock str nowMs state block
        (state', events ++ more)) (state, [])
  | .str "user" => (state, content.flatMap (toolResult str nowMs state))
  | .str "result" =>
      (state, [progressEvent nowMs "claude" "done"
        [("status", (event.get "subtype").orElse
          (.str (if (event.get "is_error").truthy then "error" else "success"))),
          ("is_error", (event.get "is_error").orElse (.bool false)),
          ("duration_ms", event.get "duration_ms"),
          ("cost_usd", (event.get "total_cost_usd").orElse (event.get "cost_usd")),
          ("preview", .str (redactPrivateManagerOutput str (event.get "result") 240)),
          ("model", state.model), ("model_provider", .str "anthropic")]])
  | _ => (state, [])

/-! ## A search result in blocks -/

/-- A character inside single quotes. -/
def reprChar (c : Char) : List Char :=
  if c = '\n' then ['\\', 'n'] else if c = '\\' then ['\\', '\\'] else [c]

/-- `str` of a list of blocks with a type and a text. -/
def blocksText (value : Json) : String :=
  let quoted := fun text : Json =>
    ['\''] ++ (match text with
      | .str text => text.toList.flatMap reprChar
      | _ => []) ++ ['\'']
  let block := fun item : Json =>
    "\x7b'type': ".toList ++ quoted (item.get "type") ++ ", 'text': ".toList ++
      quoted (item.get "text") ++ ['}']
  String.ofList (['['] ++ [',', ' '].intercalate (value.items.map block) ++ [']'])

/-- What the search has found. -/
def foundText : String := "Found 1 file\nprompts/advertising/memory.md"

/-- Claude searches, and the tool answers with a block of text. -/
def searchLines : List Json :=
  [.obj [("type", .str "assistant"), ("message", .obj [("content", .arr [.obj [
      ("type", .str "tool_use"), ("name", .str "Grep"), ("id", .str "t1"),
      ("input", .obj [("pattern", .str "team")])]])])],
    .obj [("type", .str "user"), ("message", .obj [("content", .arr [.obj [
      ("type", .str "tool_result"), ("tool_use_id", .str "t1"),
      ("content", .arr [.obj [("type", .str "text"), ("text", .str foundText)]])]])])]]

/-- The events of these lines. -/
def searchEvents : List Event :=
  (searchLines.foldl (fun (state, events) line =>
    let (state', more) := claudeProgressEvents blocksText 0 line state
    (state', events ++ more)) (⟨.null, .empty⟩, [])).2

/-- The name of the private file leaves in a block: the line break before it keeps the preview,
where it is printed, from being recognised. -/
theorem blocks_given_away : ∃ event ∈ searchEvents, ¬ Discreet event := by
  have hoff : searchEvents.map (fun event => texts (fieldOf event "output")) =
      [[], ["type", "text", "text", foundText]] := by decide +kernel
  have haway : GivesAway foundText := by decide +kernel
  have hfound : ["type", "text", "text", foundText] ∈
      searchEvents.map fun event => texts (fieldOf event "output") := by
    rw [hoff]
    exact List.mem_cons_of_mem _ (List.mem_singleton_self _)
  rcases List.mem_map.mp hfound with ⟨event, hmem, htexts⟩
  refine ⟨event, hmem, ?_⟩
  intro hdiscreet
  unfold fieldOf at htexts
  cases hget : event.get? "output" with
  | none => simp [hget, texts] at htexts
  | some value =>
      rw [hget, Option.getD_some] at htexts
      have hvalue := hdiscreet "output" (by simp [contentFields]) value hget foundText
      apply hvalue _ haway
      rw [htexts]
      simp

end Progress
end Stemcell
