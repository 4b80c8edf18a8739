import Stemcell.Lib.Dict

/-!
# Where a Silicon keeps its key

The API key is configured in `.glass.json`, or in one of the older places: the `glass`
object of `silicon.json`, `.env`, `env.py` and the environment.  A replacement that Glass
may have installed is pending in `.env` until it is known which of the two is active.

Main results:

- Definition `Files.authKey`: the configured key, from the first place that has one.
- Definition `persistAuthKey`: the writes that make a key the configured one.
- Theorem `apply_replaceGlass`: after the first of them the key is configured.
- Theorem `apply_scrubLegacy`: no later write changes that, or the pending key.
- Theorems `apply_stage` and `apply_clear`: what becomes of the pending key.

Current gaps:

- The address of Glass and the names of the Silicon are not in the files here.
- A file is read as the assignments or fields that it has; quotes, and blanks around a
  value, are not modelled.
-/

namespace Stemcell
namespace Update

open Lib

/-! ## Files of assignments -/

/-- A line of `.env` or `env.py`. -/
inductive EnvLine
  | assign (name value : String)
  | other (text : String)
deriving DecidableEq, Repr

/-- A line that assigns the name. -/
def EnvLine.assigns (name : String) : EnvLine → Bool
  | .assign assigned _ => assigned = name
  | .other _ => false

/-- The value after one more line. -/
def EnvLine.value (name : String) (before : String) : EnvLine → String
  | .assign assigned value => if assigned = name then value else before
  | .other _ => before

/-- `_read_dotenv().get(name) or ""`, where the last assignment counts. -/
def readKeyValue (name : String) (lines : List EnvLine) : String :=
  lines.foldl (EnvLine.value name) ""

/-- `_upsert_key_value`. -/
def upsertKeyValue (name value : String) (lines : List EnvLine) : List EnvLine :=
  let out := lines.map fun line => if line.assigns name then .assign name value else line
  if lines.any (EnvLine.assigns name) then out else out ++ [.assign name value]

/-- `_remove_key_value`. -/
def removeKeyValue (name : String) (lines : List EnvLine) : List EnvLine :=
  lines.filter fun line => !line.assigns name

section Lines

variable {name other value before : String} {line : EnvLine} {lines : List EnvLine}

theorem value_of_not_assigns (h : line.assigns name = false) : line.value name before = before := by
  cases line with
  | assign _ _ =>
      apply if_neg
      simpa [EnvLine.assigns] using h
  | other _ => rfl

/-- Without assignments the value is the one before. -/
theorem fold_of_not_assigns (h : ∀ line ∈ lines, line.assigns name = false) :
    lines.foldl (EnvLine.value name) before = before := by
  induction lines generalizing before with
  | nil => rfl
  | cons line rest ih =>
      rw [List.foldl_cons, value_of_not_assigns (h line List.mem_cons_self)]
      exact ih fun later hlater => h later (List.mem_cons_of_mem _ hlater)

/-- Lines that say the same of a name give it the same value. -/
theorem fold_map (f : EnvLine → EnvLine)
    (h : ∀ line ∈ lines, ∀ before, (f line).value name before = line.value name before) :
    (lines.map f).foldl (EnvLine.value name) before = lines.foldl (EnvLine.value name) before := by
  induction lines generalizing before with
  | nil => rfl
  | cons line rest ih =>
      rw [List.map_cons, List.foldl_cons, List.foldl_cons, h line List.mem_cons_self]
      exact ih fun later hlater => h later (List.mem_cons_of_mem _ hlater)

theorem value_assign_of_ne (h : name ≠ other) :
    (EnvLine.assign name value).value other before = before :=
  if_neg h

theorem assigns_ne (hassigns : line.assigns name = true) (h : name ≠ other) :
    line.value other before = before := by
  cases line with
  | assign found _ =>
      have hfound : found = name := by simpa [EnvLine.assigns] using hassigns
      exact if_neg fun hsame => h (hfound.symm.trans hsame)
  | other _ => rfl

@[simp]
theorem readKeyValue_remove (name : String) (lines : List EnvLine) :
    readKeyValue name (removeKeyValue name lines) = "" := by
  apply fold_of_not_assigns
  intro line hline
  simpa [removeKeyValue] using (List.mem_filter.mp hline).2

theorem readKeyValue_remove_of_ne (h : name ≠ other) :
    readKeyValue other (removeKeyValue name lines) = readKeyValue other lines := by
  unfold readKeyValue removeKeyValue
  generalize "" = before
  induction lines generalizing before with
  | nil => rfl
  | cons line rest ih =>
      rw [List.filter_cons, List.foldl_cons]
      by_cases hassigns : line.assigns name = true
      · rw [if_neg (by simp [hassigns]), ih, assigns_ne hassigns h]
      · rw [if_pos (by simpa using hassigns), List.foldl_cons, ih]

/-- A replaced assignment has the new value. -/
theorem fold_replaced (hany : lines.any (EnvLine.assigns name) = true) :
    (lines.map fun line => if line.assigns name then EnvLine.assign name value else line).foldl
      (EnvLine.value name) before = value := by
  induction lines generalizing before with
  | nil => cases hany
  | cons line rest ih =>
      rw [List.map_cons, List.foldl_cons]
      by_cases hrest : rest.any (EnvLine.assigns name) = true
      · exact ih hrest
      · have hline : line.assigns name = true := by
          rw [List.any_cons, Bool.or_eq_true] at hany
          exact hany.resolve_right hrest
        rw [if_pos hline]
        have hnone : ∀ line ∈ rest, line.assigns name = false := by
          simpa using hrest
        rw [@fold_map _ _ rest]
        · rw [fold_of_not_assigns hnone]
          exact if_pos rfl
        · intro later hlater _
          rw [hnone later hlater]
          rfl

@[simp]
theorem readKeyValue_upsert (name value : String) (lines : List EnvLine) :
    readKeyValue name (upsertKeyValue name value lines) = value := by
  unfold readKeyValue upsertKeyValue
  simp only
  split
  · rename_i hany
    exact fold_replaced hany
  · rw [List.foldl_append]
    exact if_pos rfl

theorem readKeyValue_upsert_of_ne (h : name ≠ other) :
    readKeyValue other (upsertKeyValue name value lines) = readKeyValue other lines := by
  have hmap : (lines.map fun line =>
      if line.assigns name then EnvLine.assign name value else line).foldl
        (EnvLine.value other) "" = readKeyValue other lines := by
    apply fold_map
    intro line _ before
    split
    · rename_i hassigns
      rw [assigns_ne hassigns h]
      exact if_neg h
    · rfl
  unfold readKeyValue upsertKeyValue at *
  simp only
  split
  · exact hmap
  · rw [List.foldl_append, hmap]
    exact if_neg h

end Lines

/-! ## Files of fields -/

/-- The fields of an object that may hold the key. -/
structure KeyFields where
  apiKey : Option String
  siliconApiKey : Option String
deriving DecidableEq, Repr

/-- The first that is not empty. -/
def firstKey : List String → String
  | [] => ""
  | key :: rest => if key = "" then firstKey rest else key

theorem firstKey_of_ne {key : String} (h : key ≠ "") (rest : List String) :
    firstKey (key :: rest) = key :=
  if_neg h

def KeyFields.key (fields : KeyFields) : String :=
  firstKey [fields.apiKey.getD "", fields.siliconApiKey.getD ""]

/-- A JSON file; what cannot be read counts as malformed. -/
inductive JsonFile (payload : Type)
  | absent
  | malformed
  | object (payload : payload)
deriving DecidableEq, Repr

/-- The files with the key, and the environment. -/
structure Files where
  glass : JsonFile KeyFields
  silicon : JsonFile (Option KeyFields)
  dotenv : List EnvLine
  envPy : Option (List EnvLine)
  environ : List EnvLine
deriving DecidableEq, Repr

def updateAuthKeyName : String := "SILICON_UPDATE_AUTH_KEY"
def glassApiKeyName : String := "GLASS_API_KEY"
def pendingAuthKeyName : String := "SILICON_UPDATE_PENDING_AUTH_KEY"

namespace Files

variable (files : Files)

/-- The key in `.glass.json`. -/
def glassKey : String :=
  match files.glass with
  | .object fields => fields.key
  | _ => ""

/-- The key in the `glass` object of `silicon.json`. -/
def nestedKey : String :=
  match files.silicon with
  | .object (some fields) => fields.key
  | _ => ""

/-- The key in a file of assignments. -/
def assignedKey (lines : List EnvLine) : String :=
  firstKey [readKeyValue updateAuthKeyName lines, readKeyValue glassApiKeyName lines]

/-- `_auth_key`. -/
def authKey : String :=
  firstKey [files.glassKey, files.nestedKey, assignedKey files.dotenv,
    assignedKey (files.envPy.getD []), assignedKey files.environ]

/-- `_pending_auth_key`. -/
def pendingAuthKey : String :=
  readKeyValue pendingAuthKeyName files.dotenv

end Files

/-! ## Writes -/

/-- One atomic replacement of a file. -/
inductive Write
  | replaceGlass (key : String)
  | scrubSilicon
  | upsertDotenv (name value : String)
  | removeDotenv (name : String)
  | removeEnvPy (name : String)
  | upsertEnvPy (name value : String)
deriving DecidableEq, Repr

/-- `_replace_json_auth_key` and its siblings: a malformed JSON file is not written. -/
def Write.apply (files : Files) : Write → Except String Files
  | .replaceGlass key =>
      match files.glass with
      | .absent => .ok { files with glass := .object ⟨some key, none⟩ }
      | .malformed => .error "Cannot safely update malformed credential file .glass.json."
      | .object fields =>
          .ok { files with glass := .object ⟨some key, fields.siliconApiKey.map fun _ => key⟩ }
  | .scrubSilicon =>
      match files.silicon with
      | .malformed => .error "Cannot safely scrub malformed credential file silicon.json."
      | .object (some _) => .ok { files with silicon := .object (some ⟨none, none⟩) }
      | _ => .ok files
  | .upsertDotenv name value =>
      .ok { files with dotenv := upsertKeyValue name value files.dotenv }
  | .removeDotenv name => .ok { files with dotenv := removeKeyValue name files.dotenv }
  | .removeEnvPy name => .ok { files with envPy := files.envPy.map (removeKeyValue name) }
  | .upsertEnvPy name value =>
      .ok { files with envPy := files.envPy.map (upsertKeyValue name value) }

/-- What `_persist_auth_key` writes after `.glass.json`. -/
def scrubLegacy : List Write :=
  [.scrubSilicon, .removeDotenv updateAuthKeyName, .removeDotenv glassApiKeyName,
    .removeEnvPy updateAuthKeyName, .upsertEnvPy glassApiKeyName ""]

/-- `_persist_auth_key`. -/
def persistAuthKey (key : String) : List Write :=
  .replaceGlass key :: scrubLegacy

/-- `_stage_auth_key`. -/
def stageAuthKey (key : String) : Write :=
  .upsertDotenv pendingAuthKeyName key

/-- `_clear_pending_auth_key`. -/
def clearPendingAuthKey : Write :=
  .removeDotenv pendingAuthKeyName

section Writes

variable {files files' : Files} {key name value : String} {write : Write}

theorem authKey_of_glassKey (hkey : files.glassKey = key) (hne : key ≠ "") : files.authKey = key := by
  subst hkey
  exact firstKey_of_ne hne _

/-- The key is in `.glass.json` from the first write on. -/
theorem apply_replaceGlass (h : (Write.replaceGlass key).apply files = .ok files') (hne : key ≠ "") :
    files'.glassKey = key ∧ files'.pendingAuthKey = files.pendingAuthKey := by
  unfold Write.apply at h
  simp only at h
  split at h <;> cases h
  · exact ⟨firstKey_of_ne hne _, rfl⟩
  · exact ⟨firstKey_of_ne hne _, rfl⟩

/-- The later writes of `_persist_auth_key` leave `.glass.json` and the pending key. -/
theorem apply_scrubLegacy (hmem : write ∈ scrubLegacy) (h : write.apply files = .ok files') :
    files'.glassKey = files.glassKey ∧ files'.pendingAuthKey = files.pendingAuthKey := by
  have hupdate : updateAuthKeyName ≠ pendingAuthKeyName := by decide
  have hglass : glassApiKeyName ≠ pendingAuthKeyName := by decide
  unfold scrubLegacy at hmem
  simp only [List.mem_cons, List.not_mem_nil, or_false] at hmem
  rcases hmem with rfl | rfl | rfl | rfl | rfl
  · unfold Write.apply at h
    simp only at h
    split at h <;> cases h <;> exact ⟨rfl, rfl⟩
  · cases h
    exact ⟨rfl, readKeyValue_remove_of_ne hupdate⟩
  · cases h
    exact ⟨rfl, readKeyValue_remove_of_ne hglass⟩
  · cases h
    exact ⟨rfl, rfl⟩
  · cases h
    exact ⟨rfl, rfl⟩

/-- The pending key is none of those that are configured. -/
theorem authKey_dotenv {lines : List EnvLine}
    (hupdate : readKeyValue updateAuthKeyName lines = readKeyValue updateAuthKeyName files.dotenv)
    (hglass : readKeyValue glassApiKeyName lines = readKeyValue glassApiKeyName files.dotenv) :
    ({ files with dotenv := lines } : Files).authKey = files.authKey := by
  simp only [Files.authKey, Files.assignedKey, hupdate, hglass, Files.glassKey, Files.nestedKey]

theorem apply_stage (files : Files) (key : String) :
    ∃ files', (stageAuthKey key).apply files = .ok files' ∧ files'.authKey = files.authKey ∧
      files'.pendingAuthKey = key := by
  refine ⟨_, rfl, ?_, readKeyValue_upsert _ _ _⟩
  apply authKey_dotenv
  · exact readKeyValue_upsert_of_ne (by decide)
  · exact readKeyValue_upsert_of_ne (by decide)

theorem apply_clear (files : Files) :
    ∃ files', clearPendingAuthKey.apply files = .ok files' ∧ files'.authKey = files.authKey ∧
      files'.pendingAuthKey = "" := by
  refine ⟨_, rfl, ?_, readKeyValue_remove _ _⟩
  apply authKey_dotenv
  · exact readKeyValue_remove_of_ne (by decide)
  · exact readKeyValue_remove_of_ne (by decide)

end Writes

end Update
end Stemcell
