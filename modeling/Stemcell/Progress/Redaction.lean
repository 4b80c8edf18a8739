import Mathlib.Data.List.Infix
import Stemcell.Lib.Dict
import Stemcell.Progress.Decoder

/-!
# Redaction of progress

A progress event goes to a contact.  Before that the texts of private tool calls and of advertising
memory are taken out of it: if a field of the event gives one away, every content field is replaced.

Main results:

- Definitions `containsPrivateManagerTool` and `containsAdvertisingMemoryReference`: the texts that
  must not leave.
- Definition `sanitizeProgressEvent`: what leaves.
- Theorem `sanitize_law`: a content field gives nothing away, at any depth, exactly if what is
  hidden inside a list or an object is given away by some text of the event itself.

Current gaps:

- Texts have no lone surrogates.
-/

namespace Stemcell
namespace Progress

open Lib
open Interface (Json isSpace)

/-! ## Private tool calls -/

/-- `re.sub(r"\\u002[fF]", "/", text)`. -/
def unescapeSolidus (text : List Char) : List Char :=
  go text.length text
where
  /-- Every round takes a character. -/
  go : Nat → List Char → List Char
    | 0, text => text
    | _ + 1, [] => []
    | fuel + 1, c :: rest =>
        match (after "\\u002".toList (c :: rest)) with
        | some (d :: later) =>
            if d = 'f' ∨ d = 'F' then '/' :: go fuel later else c :: go fuel rest
        | _ => c :: go fuel rest

/-- `text.replace("\\/", "/")`. -/
def unescapeSlash : List Char → List Char
  | [] => []
  | [c] => [c]
  | c :: d :: rest =>
      if c = '\\' ∧ d = '/' then '/' :: unescapeSlash rest else c :: unescapeSlash (d :: rest)

/-- The text in which a solidus is not escaped. -/
def normalizeSolidus (text : String) : List Char := unescapeSlash (unescapeSolidus text.toList)

/-- The tools whose calls are private. -/
def privateTools : List String :=
  ["advertising_memory/update", "work_update", "trust/list", "trust/get", "trust/set"]

/-- `tool_spec` calls a private tool. -/
def callsPrivate (toolSpec : Json) : Bool :=
  match toolSpec.get "tool" with
  | .str tool => privateTools.contains tool
  | _ => false

/-- The loop of `contains_private_manager_tool`: decode wherever a brace opens.  Every round takes
a character at least. -/
def decodedPrivate : Nat → List Char → Bool
  | 0, _ => false
  | fuel + 1, text =>
      match text.dropWhile fun c => c ≠ '{' with
      | [] => false
      | brace :: rest =>
          match rawDecode (brace :: rest) with
          | none => decodedPrivate fuel rest
          | some (parsed, consumed) =>
              (parsed.isObj && (parsed.get "tools").items.any fun toolSpec =>
                toolSpec.isObj && callsPrivate toolSpec) ||
                decodedPrivate fuel ((brace :: rest).drop (max consumed 1))

/-- `needle in text`. -/
def occurs (needle text : List Char) : Bool := decide (needle <:+: text)

/-- What is left behind a quote. -/
def afterQuote : List Char → Option (List Char)
  | [] => none
  | c :: rest => if c = '"' ∨ c = '\'' then some rest else none

/-- What is left behind a name in quotes. -/
def afterQuoted (name text : List Char) : Option (List Char) :=
  ((afterQuote text).bind (after name)).bind afterQuote

/-- A plain member `tool` with this name stands at the front. -/
def namesTool (name text : List Char) : Bool :=
  match (afterQuoted "tool".toList text).bind fun rest => after [':'] (rest.dropWhile isSpace) with
  | none => false
  | some rest => (afterQuoted name (rest.dropWhile isSpace)).isSome

/-- A plain member `tool` with this name is somewhere in the text. -/
def plainTool (name text : List Char) : Bool := text.tails.any (namesTool name)

/-- `contains_private_manager_tool`. -/
def containsPrivateManagerTool (value : String) : Bool :=
  let text := normalizeSolidus value
  decodedPrivate text.length text ||
    (occurs "advertising_memory/update".toList text ||
      plainTool "work_update".toList text ||
      ["trust/list", "trust/get", "trust/set"].any fun name => plainTool name.toList text)

/-! ## Paths -/

/-- A separator of paths. -/
def isSlash (c : Char) : Bool := decide (c = '/' ∨ c = '\\')

/-- A character of a path component. -/
def isPathChar (c : Char) : Bool :=
  c.isAlphanum || ['.', '_', '*', '?', '[', ']', '-'].contains c

/-- The components of a path token behind its first one. -/
def pathGroups : Nat → List Char → List Char × List Char
  | 0, text => ([], text)
  | fuel + 1, text =>
      let rest := text.dropWhile isSlash
      if text.takeWhile isSlash = [] ∨ rest.takeWhile isPathChar = [] then ([], text)
      else
        let later := pathGroups fuel (rest.dropWhile isPathChar)
        (text.takeWhile isSlash ++ rest.takeWhile isPathChar ++ later.1, later.2)

/-- `[A-Za-z]:`, if it stands at the front. -/
def drive (text : List Char) : List Char × List Char :=
  match text with
  | letter :: colon :: rest =>
      if letter.isAlpha ∧ colon = ':' then ([letter, colon], rest) else ([], text)
  | _ => ([], text)

/-- `[/\\]?`. -/
def rootSlash : List Char → List Char × List Char
  | c :: rest => if isSlash c then ([c], rest) else ([], c :: rest)
  | [] => ([], [])

/-- `_PATH_TOKEN_RE` at the front of a text: the token and what is left. -/
def pathToken (text : List Char) : Option (List Char × List Char) :=
  let (letters, rest) := drive text
  let (slash, rest) := rootSlash rest
  let (groups, later) := pathGroups rest.length (rest.dropWhile isPathChar)
  if rest.takeWhile isPathChar = [] ∨ groups = [] then none
  else some (letters ++ slash ++ rest.takeWhile isPathChar ++ groups, later)

/-- `_PATH_TOKEN_RE.finditer(text)`. -/
def pathTokens : Nat → List Char → List (List Char)
  | 0, _ => []
  | _ + 1, [] => []
  | fuel + 1, c :: rest =>
      match pathToken (c :: rest) with
      | none => pathTokens fuel rest
      | some (token, later) => token :: pathTokens fuel later

/-- The components of a path, `.` and `..` resolved.  The components found so far are given last
one first. -/
def normComponents (rooted : Bool) : List (List Char) → List (List Char) → List (List Char)
  | found, [] => found.reverse
  | found, comp :: rest =>
      if comp = [] ∨ comp = ['.'] then normComponents rooted found rest
      else if comp ≠ ['.', '.'] then normComponents rooted (comp :: found) rest
      else
        match found with
        | [] => normComponents rooted (if rooted then [] else [comp]) rest
        | last :: before =>
            if last = ['.', '.'] then normComponents rooted (comp :: found) rest
            else normComponents rooted before rest

/-- `posixpath.normpath`. -/
def normpath (path : List Char) : List Char :=
  let slashes := (path.takeWhile fun c => c = '/').length
  let initial := if slashes = 2 then 2 else min slashes 1
  let comps := normComponents (decide (0 < initial)) [] (path.splitOn '/')
  let joined := List.replicate initial '/' ++ ['/'].intercalate comps
  if joined = [] then ['.'] else joined

/-- A letter without its case, as `re.IGNORECASE` sees it. -/
def foldCase (c : Char) : Char :=
  if 'A' ≤ c ∧ c ≤ 'Z' then c.toLower
  else if c = '\u0130' ∨ c = '\u0131' then 'i'
  else if c = '\u017f' then 's'
  else if c = '\u212a' then 'k'
  else c

/-- `[A-Za-z0-9._-]` without case. -/
def isWordChar (c : Char) : Bool :=
  (foldCase c).isAlphanum || ['.', '_', '-'].contains c

/-- What is left behind a word, its case aside. -/
def afterWord : List Char → List Char → Option (List Char)
  | [], text => some text
  | _ :: _, [] => none
  | w :: word, c :: text => if foldCase c = w then afterWord word text else none

/-- `(?:[/\\]|$)`. -/
def closes : List Char → Bool
  | [] => true
  | c :: rest => isSlash c || decide (c = '\n' ∧ rest = [])

/-- Words with separators between them stand at the front, and nothing goes on. -/
def pathAt : List (List Char) → List Char → Bool
  | [], text => closes text
  | [word], text => (afterWord word text).any closes
  | word :: words, text =>
      (afterWord word text).any fun rest =>
        rest.takeWhile isSlash ≠ [] && pathAt words (rest.dropWhile isSlash)

/-- The words are a path somewhere in a text, at its start or behind a character that is of no
word. -/
def mentionsPath (words : List (List Char)) : Bool → List Char → Bool
  | _, [] => false
  | free, c :: rest =>
      (free && pathAt words (c :: rest)) || mentionsPath words (!isWordChar c) rest

/-- `_ADVERTISING_PATH_RE`. -/
def advertisingPath : List (List Char) := ["prompts".toList, "advertising".toList]

/-- `_DRAFT_ARCHIVE_PATH_RE`. -/
def draftArchivePath : List (List Char) :=
  ["core".toList, "interface_state".toList, "team_context_drafts".toList]

/-- A candidate with its backslashes turned, and its path tokens. -/
def normalizedCandidates (candidate : List Char) : List (List Char) :=
  let slashNormalized := candidate.map fun c => if c = '\\' then '/' else c
  slashNormalized :: (pathTokens slashNormalized.length slashNormalized).map normpath

/-- `contains_advertising_memory_reference`. -/
def containsAdvertisingMemoryReference (value : String) : Bool :=
  let text := normalizeSolidus value
  let unquoted := text.filter fun c => c ≠ '"' ∧ c ≠ '\''
  let joined := ['\n'].intercalate (normalizedCandidates text ++ normalizedCandidates unquoted)
  mentionsPath advertisingPath true joined || mentionsPath draftArchivePath true joined

/-- A text that must not leave. -/
def GivesAway (text : String) : Prop :=
  containsPrivateManagerTool text = true ∨ containsAdvertisingMemoryReference text = true

instance (text : String) : Decidable (GivesAway text) := by
  unfold GivesAway
  infer_instance

/-! ## Events -/

/-- `_PRIVATE_MANAGER_MARKER`. -/
def privateManagerMarker : String := "[private manager tool invocation omitted]"

/-- `_ADVERTISING_CONTENT_MARKER`. -/
def advertisingContentMarker : String := "[advertising memory content omitted]"

/-- `_COMMAND_MARKER`. -/
def commandMarker : String := "[command omitted]"

/-- `_COMMAND_OUTPUT_MARKER`. -/
def commandOutputMarker : String := "[command output omitted]"

/-- `EXECUTING`. -/
def executing : String := "executing"

/-- A progress event. -/
abbrev Event := Dict String Json

/-- The fields of an executing event that hold what the command printed. -/
def outputFields : List String := ["output", "preview", "delta", "error", "description"]

/-- The fields that are replaced when an event gives something away. -/
def contentFields : List String :=
  ["output", "preview", "delta", "summary_delta", "error", "description", "command", "query"]

/-- A marker in place of each of these fields that an event has. -/
def mark (marker : String) : List String → Event → Event
  | [], event => event
  | key :: keys, event =>
      mark marker keys (if event.contains key then event.set key (.str marker) else event)

/-- The event runs a command. -/
def isExecuting (event : Event) : Bool :=
  match event.get? "kind" with
  | some (.str kind) => decide (kind = executing)
  | _ => false

/-- The first step of `sanitize_progress_event`: commands and what they print are never shown. -/
def blankCommand (event : Event) : Event :=
  if isExecuting event then
    let blanked := mark commandOutputMarker outputFields (mark commandMarker ["command"] event)
    if ("command" :: outputFields).any fun key => event.contains key then
      blanked.set "content_redacted" (.bool true)
    else blanked
  else event

/-- The texts among the fields of an event. -/
def fieldTexts (event : Event) : List String :=
  event.values.filterMap fun
    | .str text => some text
    | _ => none

/-- `sanitize_progress_event`. -/
def sanitizeProgressEvent (event : Event) : Event :=
  let sanitized := blankCommand event
  let advertisingRelated := (fieldTexts sanitized).any containsAdvertisingMemoryReference
  let privateManager := (fieldTexts sanitized).any containsPrivateManagerTool
  if !advertisingRelated && !privateManager then sanitized
  else
    let marker := if privateManager then privateManagerMarker else advertisingContentMarker
    (mark marker contentFields sanitized).set "content_redacted" (.bool true)

/-! ## What an event gives away -/

mutual

/-- The texts in a value, at any depth. -/
def texts : Json → List String
  | .str text => [text]
  | .arr items => textsOfItems items
  | .obj fields => textsOfFields fields
  | _ => []

def textsOfItems : List Json → List String
  | [] => []
  | item :: rest => texts item ++ textsOfItems rest

def textsOfFields : List (String × Json) → List String
  | [] => []
  | (key, value) :: rest => key :: texts value ++ textsOfFields rest

end

/-- No content field of an event has a text in it that must not leave. -/
def Discreet (event : Event) : Prop :=
  ∀ key ∈ contentFields, ∀ value, event.get? key = some value →
    ∀ text ∈ texts value, ¬ GivesAway text

/-- The field is written over because the event runs a command. -/
def Blanked (event : Event) (key : String) : Prop :=
  isExecuting event = true ∧
    (key ∈ "command" :: outputFields ∨
      key = "content_redacted" ∧ ∃ other ∈ "command" :: outputFields, event.contains other = true)

/-- Some text of the event itself must not leave. -/
def Caught (event : Event) : Prop :=
  ∃ key text, event.get? key = some (.str text) ∧ ¬ Blanked event key ∧ GivesAway text

/-- A text that must not leave is inside a list or an object of a content field. -/
def Hidden (event : Event) : Prop :=
  ∃ key ∈ contentFields, ∃ value, event.get? key = some value ∧ ¬ Blanked event key ∧
    (∀ text, value ≠ .str text) ∧ ∃ text ∈ texts value, GivesAway text

/-- The markers themselves give nothing away. -/
theorem markers_clean : ∀ marker ∈ [privateManagerMarker, advertisingContentMarker, commandMarker,
    commandOutputMarker], ¬ GivesAway marker := by
  decide +kernel

variable {event : Event} {key marker : String} {value : Json}

theorem get?_mark (marker : String) (keys : List String) (event : Event) (key : String) :
    (mark marker keys event).get? key =
      if key ∈ keys ∧ event.contains key = true then some (.str marker) else event.get? key := by
  induction keys generalizing event with
  | nil => simp [mark]
  | cons first rest ih =>
      have hcontains : ∀ k, (if event.contains first = true then event.set first (.str marker)
          else event).contains k = event.contains k := by
        intro k
        split_ifs with hfirst
        · unfold Dict.contains at hfirst ⊢
          rw [Dict.get?_set]
          split_ifs with hk
          · rw [← hk, hfirst]
            rfl
          · rfl
        · rfl
      rw [mark, ih, hcontains]
      by_cases hkey : event.contains key = true
      · by_cases hrest : key ∈ rest
        · simp [hkey, hrest]
        · by_cases hfirst : key = first
          · subst hfirst
            simp [hkey, hrest]
          · have hne : first ≠ key := fun h => hfirst h.symm
            split_ifs <;> simp_all [Dict.get?_set_of_ne]
      · have hne : event.contains first = true → first ≠ key := by
          rintro hfirst rfl
          exact hkey hfirst
        have hskip : ∀ keys : List String, ¬ (key ∈ keys ∧ event.contains key = true) :=
          fun _ h => hkey h.2
        rw [if_neg (hskip rest), if_neg (hskip (first :: rest))]
        by_cases hfirst : event.contains first = true
        · rw [if_pos hfirst, Dict.get?_set_of_ne _ _ (hne hfirst)]
        · rw [if_neg hfirst]

/-- A field that is not written over stays. -/
theorem get?_blankCommand (h : ¬ Blanked event key) :
    (blankCommand event).get? key = event.get? key := by
  unfold blankCommand
  by_cases hexecuting : isExecuting event = true
  · rw [if_pos hexecuting]
    have hkey : key ∉ "command" :: outputFields := fun hmem => h ⟨hexecuting, .inl hmem⟩
    have hmarks : (mark commandOutputMarker outputFields (mark commandMarker ["command"] event)).get?
        key = event.get? key := by
      rw [get?_mark, get?_mark, if_neg, if_neg]
      · rintro ⟨hmem, -⟩
        exact hkey (List.mem_cons.mpr (.inl (List.mem_singleton.mp hmem)))
      · rintro ⟨hmem, -⟩
        exact hkey (List.mem_cons_of_mem _ hmem)
    dsimp only
    split_ifs with hany
    · rw [Dict.get?_set_of_ne, hmarks]
      rintro rfl
      exact h ⟨hexecuting, .inr ⟨rfl, List.any_eq_true.mp hany⟩⟩
    · exact hmarks
  · rw [if_neg hexecuting]

/-- A field that is written over has a marker. -/
theorem blanked_value (h : Blanked event key) (hget : (blankCommand event).get? key = some value) :
    value = .str commandMarker ∨ value = .str commandOutputMarker ∨ value = .bool true := by
  rcases h with ⟨hexecuting, h⟩
  unfold blankCommand at hget
  rw [if_pos hexecuting] at hget
  dsimp only at hget
  have hmarked : key ∈ "command" :: outputFields →
      (mark commandOutputMarker outputFields (mark commandMarker ["command"] event)).get? key =
        some value → value = .str commandMarker ∨ value = .str commandOutputMarker := by
    intro hmem hvalue
    rw [get?_mark, get?_mark] at hvalue
    split_ifs at hvalue with h1 h2
    · exact .inr (Option.some.inj hvalue).symm
    · exact .inl (Option.some.inj hvalue).symm
    · exfalso
      have hcontains : event.contains key = true := (Dict.contains_iff _ _).mpr ⟨_, hvalue⟩
      rcases List.mem_cons.mp hmem with hcommand | houtput
      · exact h2 ⟨List.mem_singleton.mpr hcommand, hcontains⟩
      · apply h1
        refine ⟨houtput, (Dict.contains_iff _ _).mpr ?_⟩
        rw [get?_mark, if_neg h2]
        exact ⟨value, hvalue⟩
  split_ifs at hget with hany
  · rw [Dict.get?_set] at hget
    split_ifs at hget with hredacted
    · exact .inr (.inr (Option.some.inj hget).symm)
    · rcases h with hmem | ⟨hkey, -⟩
      · rcases hmarked hmem hget with hvalue | hvalue
        · exact .inl hvalue
        · exact .inr (.inl hvalue)
      · exact absurd hkey.symm hredacted
  · rcases h with hmem | ⟨-, hother⟩
    · rcases hmarked hmem hget with hvalue | hvalue
      · exact .inl hvalue
      · exact .inr (.inl hvalue)
    · exact absurd (List.any_eq_true.mpr hother) hany

/-- What is written over gives nothing away. -/
theorem blanked_clean (h : Blanked event key) (hget : (blankCommand event).get? key = some value) :
    ∀ text ∈ texts value, ¬ GivesAway text := by
  intro text htext
  rcases blanked_value h hget with rfl | rfl | rfl
  · rw [texts, List.mem_singleton] at htext
    exact htext ▸ markers_clean commandMarker (by simp)
  · rw [texts, List.mem_singleton] at htext
    exact htext ▸ markers_clean commandOutputMarker (by simp)
  · simp [texts] at htext

theorem mem_fieldTexts {text : String} :
    text ∈ fieldTexts event ↔ ∃ key, event.get? key = some (.str text) := by
  unfold fieldTexts
  rw [List.mem_filterMap]
  constructor
  · rintro ⟨value, hmem, htext⟩
    rcases Dict.mem_values.mp hmem with ⟨key, hget⟩
    cases value <;> cases htext
    exact ⟨key, hget⟩
  · rintro ⟨key, hget⟩
    exact ⟨.str text, Dict.mem_values.mpr ⟨key, hget⟩, rfl⟩

/-- The texts that are looked at are those of the event that are not written over. -/
theorem caught_iff :
    Caught event ↔ ∃ text ∈ fieldTexts (blankCommand event), GivesAway text := by
  constructor
  · rintro ⟨key, text, hget, hblanked, haway⟩
    exact ⟨text, mem_fieldTexts.mpr ⟨key, (get?_blankCommand hblanked).trans hget⟩, haway⟩
  · rintro ⟨text, htext, haway⟩
    rcases mem_fieldTexts.mp htext with ⟨key, hget⟩
    by_cases hblanked : Blanked event key
    · have hclean := blanked_clean hblanked hget text
      rw [texts] at hclean
      exact absurd haway (hclean (List.mem_singleton_self text))
    · exact ⟨key, text, (get?_blankCommand hblanked).symm.trans hget, hblanked, haway⟩

/-- What is left of an event that gives nothing away itself. -/
theorem sanitize_of_not_caught (h : ¬ Caught event) :
    sanitizeProgressEvent event = blankCommand event := by
  have hclean : ∀ text ∈ fieldTexts (blankCommand event), ¬ GivesAway text := by
    intro text htext haway
    exact h (caught_iff.mpr ⟨text, htext, haway⟩)
  unfold sanitizeProgressEvent
  dsimp only
  rw [if_pos]
  rw [Bool.and_eq_true, Bool.not_eq_true', Bool.not_eq_true', List.any_eq_false, List.any_eq_false]
  constructor
  · intro text htext haway
    exact hclean text htext (.inr haway)
  · intro text htext haway
    exact hclean text htext (.inl haway)

/-- All content fields of an event that gives something away itself are replaced. -/
theorem discreet_of_caught (h : Caught event) : Discreet (sanitizeProgressEvent event) := by
  rcases caught_iff.mp h with ⟨text, htext, haway⟩
  unfold sanitizeProgressEvent
  dsimp only
  rw [if_neg]
  · intro key hkey value hget content hcontent
    have hredacted : "content_redacted" ≠ key := by
      rintro rfl
      revert hkey
      decide
    have hcontains : (blankCommand event).contains key = true := by
      by_contra habsent
      rw [Dict.get?_set_of_ne _ _ hredacted, get?_mark, if_neg fun h => habsent h.2] at hget
      exact habsent ((Dict.contains_iff _ _).mpr ⟨value, hget⟩)
    rw [Dict.get?_set_of_ne _ _ hredacted, get?_mark, if_pos ⟨hkey, hcontains⟩] at hget
    rcases Option.some.inj hget
    rw [texts, List.mem_singleton] at hcontent
    rw [hcontent]
    apply markers_clean
    cases (fieldTexts (blankCommand event)).any containsPrivateManagerTool <;> simp
  · intro hclean
    rw [Bool.and_eq_true, Bool.not_eq_true', Bool.not_eq_true', List.any_eq_false,
      List.any_eq_false] at hclean
    rcases haway with hprivate | hadvertising
    · exact hclean.2 text htext hprivate
    · exact hclean.1 text htext hadvertising

/-- A content field gives nothing away, at any depth, exactly if what is hidden inside a list or an
object is given away by some text of the event itself. -/
theorem sanitize_law (event : Event) :
    Discreet (sanitizeProgressEvent event) ↔ (Hidden event → Caught event) := by
  by_cases hcaught : Caught event
  · constructor
    · intro _ _
      exact hcaught
    · intro _
      exact discreet_of_caught hcaught
  · rw [sanitize_of_not_caught hcaught]
    constructor
    · rintro hdiscreet ⟨key, hkey, value, hget, hblanked, -, text, htext, haway⟩
      have hget' := (get?_blankCommand hblanked).trans hget
      exact absurd haway (hdiscreet key hkey value hget' text htext)
    · intro hhidden key hkey value hget text htext haway
      by_cases hblanked : Blanked event key
      · exact blanked_clean hblanked hget text htext haway
      · rw [get?_blankCommand hblanked] at hget
        apply hcaught
        by_cases hplain : ∃ plain, value = .str plain
        · rcases hplain with ⟨plain, rfl⟩
          rw [texts, List.mem_singleton] at htext
          exact ⟨key, plain, hget, hblanked, htext ▸ haway⟩
        · apply hhidden
          refine ⟨key, hkey, value, hget, hblanked, ?_, text, htext, haway⟩
          intro plain hvalue
          exact hplain ⟨plain, hvalue⟩

end Progress
end Stemcell
