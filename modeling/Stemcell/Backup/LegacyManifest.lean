import Stemcell.Backup.Protected
import Stemcell.Lib.FileLines
import Stemcell.TeamContext.Sync

/-!
# The legacy manifest

Older installations list what to back up in a file of their own, one pattern a line.  A file that
still has all the patterns it was generated with is written again without them, for the policy
names them itself; the other patterns are written in their canonical form, which is then read as
a line like any other.

Main results:

- Definition `readManifest`: the patterns of the file, and its text afterwards.
- Theorem `migration_law_iff`: the file means the same after it was written again, and stays as it
  is, exactly if every pattern is plain and none has a `#` behind its leading `./`.
- Theorem `comment_made_of_pattern`: a pattern that is a comment afterwards.

Current gaps:

- The file is given as its text; one that is no text is refused before this.
-/

namespace Stemcell
namespace Backup

open Interface (isSpace strip)
open Lib (universal)
open TeamContext (isLineBreak)

/-! ## Reading -/

/-- `LEGACY_DEFAULT_MANIFEST`. -/
def legacyDefaultManifest : List String :=
  ["prompts/MEMORY.md", "prompts/memory/**", "prompts/LORE.md", "prompts/CONTACTS.md",
    "core/interface_state/contacts.json", "logs/**"]

/-- `MANIFEST_HEADER`. -/
def manifestHeader : String :=
  "# Optional additive backup paths. Mandatory protection is defined by core/data_policy.py."

/-- What is at the path of the manifest. -/
inductive LegacyFile
  | absent
  | text (content : List Char)
  | link
  | other

/-- `ensure_manifest_file`: the text that is there then. -/
def ensureManifestFile : LegacyFile → Except String (List Char)
  | .link => .error ".backupsilicon must not be a symbolic link."
  | .text content => .ok content
  | .absent | .other => .ok (manifestHeader.toList ++ ['\n'])

/-- `str.splitlines()`, for a text without carriage returns. -/
def splitlines : List Char → List (List Char)
  | [] => []
  | c :: rest =>
      if isLineBreak c then [] :: splitlines rest
      else
        match splitlines rest with
        | [] => [[c]]
        | line :: more => (c :: line) :: more

/-- A line without its blanks, or the canonical form of its pattern. -/
structure ParsedLine where
  line : String
  pattern : Option String

/-- A line that names no pattern. -/
def isRemark (line : String) : Prop :=
  line = "" ∨ line.toList.head? = some '#'

instance (line : String) : Decidable (isRemark line) :=
  inferInstanceAs (Decidable (_ ∨ _))

/-- One line of the first loop of `read_manifest`. -/
def parseLine (rawLine : List Char) : Except String ParsedLine :=
  let line := strip (String.ofList rawLine)
  if isRemark line then .ok ⟨line, none⟩
  else
    match validateRelativePattern line with
    | .error error => .error error
    | .ok pattern => .ok ⟨pattern, some pattern⟩

/-- The first loop of `read_manifest`. -/
def parseLines : List (List Char) → Except String (List ParsedLine)
  | [] => .ok []
  | rawLine :: rest =>
      match parseLine rawLine with
      | .error error => .error error
      | .ok parsed =>
          match parseLines rest with
          | .error error => .error error
          | .ok later => .ok (parsed :: later)

/-- `present`. -/
def present (parsed : List ParsedLine) : List String :=
  parsed.filterMap ParsedLine.pattern

/-- `migrated`. -/
def isMigrated (parsed : List ParsedLine) : Bool :=
  legacyDefaultManifest.all fun pattern => pattern ∈ present parsed

/-- The lines that the second loop leaves out. -/
def isRetained (migrated : Bool) : ParsedLine → Bool
  | ⟨line, none⟩ => line ≠ "" && line ≠ manifestHeader
  | ⟨_, some pattern⟩ => !(migrated && pattern ∈ legacyDefaultManifest)

/-- The second loop of `read_manifest`. -/
def retainedLines (parsed : List ParsedLine) : List ParsedLine :=
  parsed.filter (isRetained (isMigrated parsed))

/-- `"\n".join(lines) + "\n"`. -/
def writeLines (lines : List String) : List Char :=
  (lines.map fun line => line.toList ++ ['\n']).flatten

/-- The patterns that are returned, and the text of the file afterwards. -/
structure Reading where
  patterns : List String
  text : List Char
deriving DecidableEq

/-- `read_manifest`. -/
def readManifest (file : LegacyFile) : Except String Reading :=
  match ensureManifestFile file with
  | .error error => .error error
  | .ok text =>
      match parseLines (splitlines (universal text)) with
      | .error error => .error error
      | .ok parsed =>
          let retained := retainedLines parsed
          .ok {
            patterns := (present retained).eraseDups
            text :=
              if isMigrated parsed then
                writeLines (manifestHeader :: retained.map ParsedLine.line)
              else text }

/-! ## What a line means -/

section Lines

variable {rawLine line : List Char} {rawLines : List (List Char)} {parsed : ParsedLine}
  {pattern text value : String} {lines : List String} {parsedLines : List ParsedLine}

/-- A line of the file has no line break. -/
theorem no_break_of_splitlines {source : List Char} (h : line ∈ splitlines source) :
    ∀ c ∈ line, isLineBreak c = false := by
  induction source generalizing line with
  | nil => cases h
  | cons d rest ih =>
      rw [splitlines] at h
      by_cases hbreak : isLineBreak d = true
      · rw [if_pos hbreak] at h
        rcases List.mem_cons.mp h with rfl | hlater
        · exact List.forall_mem_nil _
        · exact ih hlater
      · rw [if_neg hbreak] at h
        rw [Bool.not_eq_true] at hbreak
        cases hrest : splitlines rest with
        | nil =>
            rw [hrest] at h
            rw [List.mem_singleton.mp h]
            exact List.forall_mem_singleton.mpr hbreak
        | cons first more =>
            rw [hrest] at h ih
            rcases List.mem_cons.mp h with rfl | hlater
            · exact List.forall_mem_cons.mpr ⟨hbreak, ih List.mem_cons_self⟩
            · exact ih (List.mem_cons_of_mem _ hlater)

theorem splitlines_line (h : ∀ c ∈ line, isLineBreak c = false) (rest : List Char) :
    splitlines (line ++ '\n' :: rest) = line :: splitlines rest := by
  induction line with
  | nil =>
      have hbreak : isLineBreak '\n' = true := by decide
      rw [List.nil_append, splitlines, if_pos hbreak]
  | cons c more ih =>
      rw [List.forall_mem_cons] at h
      have hbreak : ¬ isLineBreak c = true := by
        rw [h.1]
        exact Bool.false_ne_true
      rw [List.cons_append, splitlines, if_neg hbreak, ih h.2]

/-- The lines that were written are read. -/
theorem splitlines_writeLines (h : ∀ line ∈ lines, ∀ c ∈ line.toList, isLineBreak c = false) :
    splitlines (universal (writeLines lines)) = lines.map String.toList := by
  have hreturn : '\r' ∉ writeLines lines := by
    unfold writeLines
    intro hmem
    rcases List.mem_flatten.mp hmem with ⟨written, hwritten, hc⟩
    rcases List.mem_map.mp hwritten with ⟨line, hline, rfl⟩
    rcases List.mem_append.mp hc with hin | hend
    · have hno := h line hline '\r' hin
      revert hno
      decide
    · revert hend
      decide
  rw [Lib.universal_of_no_return hreturn]
  clear hreturn
  induction lines with
  | nil => rfl
  | cons line more ih =>
      rw [List.forall_mem_cons] at h
      have hsplit : writeLines (line :: more) = line.toList ++ '\n' :: writeLines more := by
        unfold writeLines
        rw [List.map_cons, List.flatten_cons, List.append_assoc, List.singleton_append]
      rw [hsplit, splitlines_line h.1, ih h.2, List.map_cons]

theorem parseLine_remark_iff {line : String} :
    parseLine rawLine = .ok ⟨line, none⟩ ↔
      line = strip (String.ofList rawLine) ∧ isRemark line := by
  unfold parseLine
  dsimp only
  by_cases hremark : isRemark (strip (String.ofList rawLine))
  · rw [if_pos hremark, Except.ok.injEq, ParsedLine.mk.injEq]
    constructor
    · rintro ⟨heq, -⟩
      exact ⟨heq.symm, heq ▸ hremark⟩
    · rintro ⟨heq, -⟩
      exact ⟨heq.symm, rfl⟩
  · rw [if_neg hremark]
    constructor
    · intro h
      cases hvalid : validateRelativePattern (strip (String.ofList rawLine)) with
      | error message =>
          rw [hvalid] at h
          cases h
      | ok pattern =>
          rw [hvalid] at h
          cases h
    · rintro ⟨heq, hline⟩
      rw [heq] at hline
      exact absurd hline hremark

theorem parseLine_pattern_iff {line : String} :
    parseLine rawLine = .ok ⟨line, some pattern⟩ ↔
      line = pattern ∧ ¬ isRemark (strip (String.ofList rawLine)) ∧
        validateRelativePattern (strip (String.ofList rawLine)) = .ok pattern := by
  unfold parseLine
  dsimp only
  by_cases hremark : isRemark (strip (String.ofList rawLine))
  · rw [if_pos hremark, Except.ok.injEq, ParsedLine.mk.injEq]
    constructor
    · rintro ⟨-, heq⟩
      cases heq
    · rintro ⟨-, hno, -⟩
      exact absurd hremark hno
  · rw [if_neg hremark]
    cases hvalid : validateRelativePattern (strip (String.ofList rawLine)) with
    | error message =>
        constructor
        · intro h
          cases h
        · rintro ⟨-, -, heq⟩
          cases heq
    | ok other =>
        rw [Except.ok.injEq, ParsedLine.mk.injEq, Except.ok.injEq, Option.some.injEq]
        constructor
        · rintro ⟨hline, hpattern⟩
          exact ⟨hline.symm.trans hpattern, hremark, hpattern⟩
        · rintro ⟨hline, -, hpattern⟩
          exact ⟨hpattern.trans hline.symm, hpattern⟩

/-- A stripped text is not stripped again. -/
theorem accepted_of_strip (h : validateRelativePattern (strip text) = .ok pattern) :
    pattern.toList = canonical (remaining text) := by
  have hpattern := (accepted_of_ok h).2
  rw [strip_strip] at hpattern
  rw [hpattern, String.toList_ofList]
  rfl

theorem parseLines_ok_iff :
    parseLines rawLines = .ok parsedLines ↔
      List.Forall₂ (fun rawLine parsed => parseLine rawLine = .ok parsed) rawLines
        parsedLines := by
  induction rawLines generalizing parsedLines with
  | nil => simp [parseLines, eq_comm]
  | cons rawLine rest ih =>
      rw [parseLines, List.forall₂_cons_left_iff]
      cases hfirst : parseLine rawLine with
      | error message => simp
      | ok first =>
          dsimp only
          cases hrest : parseLines rest with
          | error message =>
              rw [hrest] at ih
              constructor
              · intro h
                cases h
              · rintro ⟨parsed, later, -, hlater, -⟩
                cases ih.mpr hlater
          | ok later =>
              rw [hrest] at ih
              constructor
              · intro h
                cases h
                exact ⟨first, later, rfl, ih.mp rfl, rfl⟩
              · rintro ⟨parsed, others, hparsed, hothers, rfl⟩
                cases hparsed
                cases ih.mpr hothers
                rfl

theorem mem_strip {c : Char} (h : c ∈ (strip text).toList) : c ∈ text.toList := by
  unfold strip at h
  rw [String.toList_ofList, List.mem_reverse] at h
  have hdropped := (List.dropWhile_suffix _).subset h
  rw [List.mem_reverse] at hdropped
  exact (List.dropWhile_suffix _).subset hdropped

theorem mem_canonical {c : Char} {value : List Char} (h : c ∈ canonical value) :
    c = '/' ∨ c ∈ value := by
  unfold canonical at h
  rcases List.mem_append.mp h with hroot | hjoined
  · left
    unfold posixRoot at hroot
    split at hroot <;> simp_all
  · rcases Lib.mem_intercalate hjoined with heq | ⟨part, hpart, hmem⟩
    · exact .inl heq
    · exact .inr ((mem_components hpart).2.2.2 c hmem)

/-- What is written of a line has no line break. -/
theorem no_break_of_parseLine (hraw : ∀ c ∈ rawLine, isLineBreak c = false)
    (h : parseLine rawLine = .ok parsed) : ∀ c ∈ parsed.line.toList, isLineBreak c = false := by
  have hstrip : ∀ c ∈ (strip (String.ofList rawLine)).toList, isLineBreak c = false := by
    intro c hc
    have hmem := mem_strip hc
    rw [String.toList_ofList] at hmem
    exact hraw c hmem
  intro c hc
  rcases parsed with ⟨line, _ | pattern⟩
  · rw [(parseLine_remark_iff.mp h).1] at hc
    exact hstrip c hc
  · rcases parseLine_pattern_iff.mp h with ⟨hline, -, hvalid⟩
    rw [hline, accepted_of_strip hvalid] at hc
    rcases mem_canonical hc with rfl | hmem
    · decide
    · exact hstrip c (mem_dropDot hmem)

end Lines

/-! ## Patterns that are read as they were written -/

section Settled

variable {rawLine : List Char} {parsed : ParsedLine} {pattern line : String}

/-- Written to a line of its own, a pattern is read as itself. -/
def Settled (pattern : String) : Prop :=
  parseLine pattern.toList = .ok ⟨pattern, some pattern⟩

/-- A plain pattern that is no remark without its leading `./`. -/
structure PlainLine (line : String) : Prop where
  plain : PlainPattern line
  noRemark : (remaining line).head? ≠ some '#'

/-- What a stripped pattern is read as is not longer than it. -/
theorem length_le_of_strip (h : validateRelativePattern (strip pattern) = .ok line) :
    line.toList.length ≤ (strip pattern).toList.length := by
  rw [accepted_of_strip h]
  exact Nat.le_trans (canonical_length_le _) (dropDot_length_le _).1

/-- What a pattern is read as is not longer, and the same if it is as long. -/
theorem parsed_length_le (h : parseLine pattern.toList = .ok ⟨line, some line⟩) :
    line.toList.length ≤ pattern.toList.length ∧
      (pattern.toList.length ≤ line.toList.length → line = pattern) := by
  rcases parseLine_pattern_iff.mp h with ⟨-, -, hvalid⟩
  rw [String.ofList_toList] at hvalid
  have hshort := length_le_of_strip hvalid
  rcases strip_length_le pattern with ⟨hstrip, hsame⟩
  refine ⟨Nat.le_trans hshort hstrip, ?_⟩
  intro hle
  have hfixed := hsame (by omega)
  rw [hfixed] at hvalid
  exact (unchanged_of_length hvalid hle).2.2.1

/-- A pattern that validation leaves as it is can be joined to the data root. -/
theorem safe_of_fixed (h : validateRelativePattern pattern = .ok pattern) : SafePattern pattern := by
  rcases unchanged_of_length h (Nat.le_refl _) with ⟨hstrip, hdropped, -, hjoined⟩
  have haccepted := (accepted_of_ok h).1
  rw [hstrip] at haccepted
  have hslash : pattern.toList.head? ≠ some '/' := by
    intro hhead
    rcases List.head?_eq_some_iff.mp hhead with ⟨rest, hrest⟩
    have habsolute := haccepted.relative
    rw [hrest] at habsolute
    cases habsolute
  have hparts := haccepted.parts
  have hparent := haccepted.noParent
  rw [hdropped, posixParts, if_pos (posixRoot_of_head hslash)] at hparts hparent
  constructor
  · exact hslash
  · rw [← hjoined, splitOn_components hparts]
    exact hparent
  · exact haccepted.noDrive
  · exact h

theorem settled_iff :
    Settled pattern ↔ SafePattern pattern ∧ pattern.toList.head? ≠ some '#' := by
  unfold Settled
  rw [parseLine_pattern_iff, String.ofList_toList]
  constructor
  · rintro ⟨-, hremark, hvalid⟩
    have hstrip := (strip_length_le pattern).2
      (Nat.le_antisymm (strip_length_le pattern).1 (length_le_of_strip hvalid))
    rw [hstrip] at hvalid hremark
    refine ⟨safe_of_fixed hvalid, ?_⟩
    intro hhead
    exact hremark (.inr hhead)
  · rintro ⟨hsafe, hhead⟩
    rw [(unchanged_of_length hsafe.fixed (Nat.le_refl _)).1]
    refine ⟨rfl, ?_, hsafe.fixed⟩
    rintro (hempty | hremark)
    · have hok := hsafe.fixed
      rw [hempty] at hok
      revert hok
      decide +kernel
    · exact hhead hremark

/-- The pattern of a line is read as itself exactly if the line is plain. -/
theorem settled_iff_plainLine (h : validateRelativePattern line = .ok pattern) :
    Settled pattern ↔ PlainLine line := by
  rw [settled_iff, pattern_law_iff h]
  have hhead (hplain : PlainPattern line) : pattern.toList.head? = (remaining line).head? := by
    have hcomponents : components (remaining line) ≠ [] := by
      have hparts := (accepted_of_ok h).1.parts
      change posixParts (remaining line) ≠ [] at hparts
      rw [posixParts, if_pos (posixRoot_of_head hplain.noSlash)] at hparts
      exact hparts
    have hpattern := (accepted_of_ok h).2
    change pattern = String.ofList (canonical (remaining line)) at hpattern
    rw [hpattern, String.toList_ofList, canonical_remaining hplain]
    exact (start_of_remaining hplain.noSlash hcomponents).1
  constructor
  · rintro ⟨hplain, hremark⟩
    constructor
    · exact hplain
    · rw [← hhead hplain]
      exact hremark
  · intro hline
    refine ⟨hline.plain, ?_⟩
    rw [hhead hline.plain]
    exact hline.noRemark

end Settled

/-! ## The file that was written again -/

section Again

variable {content : List Char} {parsed again : List ParsedLine} {line : ParsedLine}
  {pattern : String} {migrated : Bool}

/-- The lines of the file without its remarks. -/
def patternLines (content : List Char) : List String :=
  ((splitlines (universal content)).map fun rawLine => strip (String.ofList rawLine)).filter
    fun line => ¬ isRemark line

/-- Some line of the file is this pattern. -/
def HasPattern (content : List Char) (pattern : String) : Prop :=
  ∃ line ∈ patternLines content, validateRelativePattern line = .ok pattern

theorem mem_present : pattern ∈ present parsed ↔ ∃ line ∈ parsed, line.pattern = some pattern := by
  unfold present
  rw [List.mem_filterMap]

/-- What was parsed has the patterns of the file. -/
theorem mem_present_iff (h : parseLines (splitlines (universal content)) = .ok parsed) :
    pattern ∈ present parsed ↔ HasPattern content pattern := by
  rw [parseLines_ok_iff] at h
  rw [mem_present]
  unfold HasPattern patternLines
  constructor
  · rintro ⟨⟨text, named⟩, hline, rfl⟩
    rcases forall₂_right h _ hline with ⟨rawLine, hraw, hparse⟩
    rcases parseLine_pattern_iff.mp hparse with ⟨-, hremark, hvalid⟩
    refine ⟨strip (String.ofList rawLine), ?_, hvalid⟩
    rw [List.mem_filter]
    exact ⟨List.mem_map_of_mem hraw, by simpa using hremark⟩
  · rintro ⟨text, hmem, hvalid⟩
    rcases List.mem_filter.mp hmem with ⟨hmapped, hremark⟩
    rcases List.mem_map.mp hmapped with ⟨rawLine, hraw, rfl⟩
    rcases forall₂_left h _ hraw with ⟨line, hline, hparse⟩
    have hpattern : parseLine rawLine = .ok ⟨pattern, some pattern⟩ :=
      parseLine_pattern_iff.mpr ⟨rfl, by simpa using hremark, hvalid⟩
    rw [hparse] at hpattern
    refine ⟨line, hline, ?_⟩
    rw [Except.ok.inj hpattern]

/-- A line that was parsed is its pattern, or a remark without blanks at its ends. -/
theorem line_of_parsed (h : parseLines (splitlines (universal content)) = .ok parsed)
    (hline : line ∈ parsed) :
    (∀ c ∈ line.line.toList, isLineBreak c = false) ∧
      (line.pattern = some line.line ∨
        line.pattern = none ∧ isRemark line.line ∧ strip line.line = line.line) := by
  rw [parseLines_ok_iff] at h
  rcases forall₂_right h _ hline with ⟨rawLine, hraw, hparse⟩
  constructor
  · exact no_break_of_parseLine (no_break_of_splitlines hraw) hparse
  · rcases line with ⟨text, _ | pattern⟩
    · rcases parseLine_remark_iff.mp hparse with ⟨heq, hremark⟩
      refine .inr ⟨rfl, hremark, ?_⟩
      dsimp only
      rw [heq, strip_strip]
    · rcases parseLine_pattern_iff.mp hparse with ⟨heq, -⟩
      left
      dsimp only
      rw [heq]

/-- The lines that are written are the lines that are read. -/
theorem splitlines_retained (h : parseLines (splitlines (universal content)) = .ok parsed) :
    splitlines (universal (writeLines (manifestHeader ::
        (retainedLines parsed).map ParsedLine.line))) =
      manifestHeader.toList :: (retainedLines parsed).map fun line => line.line.toList := by
  have hlines : ∀ text ∈ manifestHeader :: (retainedLines parsed).map ParsedLine.line,
      ∀ c ∈ text.toList, isLineBreak c = false := by
    have hheader : (manifestHeader.toList.all fun c => !isLineBreak c) = true := by decide +kernel
    rw [List.forall_mem_cons]
    constructor
    · intro c hc
      simpa using List.all_eq_true.mp hheader c hc
    · intro text htext
      rcases List.mem_map.mp htext with ⟨line, hline, rfl⟩
      exact (line_of_parsed h (List.mem_of_mem_filter hline)).1
  rw [splitlines_writeLines hlines, List.map_cons, List.map_map]
  rfl

/-- A pattern that a file is rid of is not there any more. -/
theorem no_default_retained (h : isMigrated parsed = true)
    (hpattern : pattern ∈ present (retainedLines parsed)) : pattern ∉ legacyDefaultManifest := by
  rcases mem_present.mp hpattern with ⟨⟨text, named⟩, hline, hnamed⟩
  have hretained := (List.mem_filter.mp hline).2
  cases hnamed
  rw [h] at hretained
  simpa [isRetained] using hretained

/-- Reading the settled lines that were written gives them back, behind the header. -/
theorem parseLines_retained (h : parseLines (splitlines (universal content)) = .ok parsed)
    (hsettled : ∀ pattern ∈ present (retainedLines parsed), Settled pattern) :
    parseLines (manifestHeader.toList ::
        (retainedLines parsed).map fun line => line.line.toList) =
      .ok (⟨manifestHeader, none⟩ :: retainedLines parsed) := by
  rw [parseLines_ok_iff, List.forall₂_cons]
  constructor
  · rw [parseLine_remark_iff]
    decide +kernel
  · rw [List.forall₂_map_left_iff, List.forall₂_same]
    intro line hline
    rcases (line_of_parsed h (List.mem_of_mem_filter hline)).2 with hnamed | ⟨hnone, hremark, hstrip⟩
    · have hline' := hsettled line.line (mem_present.mpr ⟨line, hline, hnamed⟩)
      unfold Settled at hline'
      rw [hline', ← hnamed]
    · rcases line with ⟨text, named⟩
      dsimp only at hnone hremark hstrip ⊢
      rw [hnone, parseLine_remark_iff, String.ofList_toList, hstrip]
      exact ⟨rfl, hremark⟩

/-- Of a file that was written again nothing is left out but the header. -/
theorem retainedLines_again (h : isMigrated parsed = true) :
    isMigrated (⟨manifestHeader, none⟩ :: retainedLines parsed) = false ∧
      retainedLines (⟨manifestHeader, none⟩ :: retainedLines parsed) = retainedLines parsed := by
  have hnot : isMigrated (⟨manifestHeader, none⟩ :: retainedLines parsed) = false := by
    by_contra hagain
    rw [Bool.not_eq_false] at hagain
    have hall := List.all_eq_true.mp hagain "logs/**" (by decide)
    have hpresent : "logs/**" ∈ present (retainedLines parsed) := by simpa [present] using hall
    exact no_default_retained h hpresent (by decide)
  refine ⟨hnot, ?_⟩
  have hheader : isRetained false ⟨manifestHeader, none⟩ = false := by simp [isRetained]
  conv_lhs => rw [retainedLines, hnot]
  rw [List.filter_cons_of_neg (by rw [hheader]; exact Bool.false_ne_true), List.filter_eq_self]
  intro line hline
  have hretained := (List.mem_filter.mp hline).2
  rcases line with ⟨text, _ | pattern⟩
  · exact hretained
  · simp [isRetained]

/-- A file is read again as it was exactly if each pattern that was written is read as itself. -/
theorem read_again_iff (h : parseLines (splitlines (universal content)) = .ok parsed)
    (hmigrated : isMigrated parsed = true) :
    readManifest (.text (writeLines (manifestHeader ::
        (retainedLines parsed).map ParsedLine.line))) =
      .ok ⟨(present (retainedLines parsed)).eraseDups,
        writeLines (manifestHeader :: (retainedLines parsed).map ParsedLine.line)⟩ ↔
      ∀ pattern ∈ present (retainedLines parsed), Settled pattern := by
  have hsplit := splitlines_retained h
  constructor
  · intro hagain
    rw [readManifest, ensureManifestFile] at hagain
    dsimp only at hagain
    rw [hsplit] at hagain
    cases hparse : parseLines (manifestHeader.toList ::
        (retainedLines parsed).map fun line => line.line.toList) with
    | error message =>
        rw [hparse] at hagain
        cases hagain
    | ok again =>
        rw [hparse] at hagain
        have hpatterns := congrArg Reading.patterns (Except.ok.inj hagain)
        dsimp only at hpatterns
        rw [parseLines_ok_iff] at hparse
        -- an unsettled pattern is there, so it is what a longer one is read as
        have houtgrown : ∀ pattern ∈ present (retainedLines parsed), ¬ Settled pattern →
            ∃ other ∈ present (retainedLines parsed), ¬ Settled other ∧
              pattern.toList.length < other.toList.length := by
          intro pattern hpattern hunsettled
          have hmem : pattern ∈ (present (retainedLines again)).eraseDups := by
            rw [hpatterns]
            exact List.mem_eraseDups.mpr hpattern
          rcases mem_present.mp (List.mem_eraseDups.mp hmem) with ⟨⟨text, named⟩, hline, hnamed⟩
          cases hnamed
          rcases forall₂_right hparse _ (List.mem_of_mem_filter hline) with ⟨rawLine, hraw, hread⟩
          rcases parseLine_pattern_iff.mp hread with ⟨htext, hremark, -⟩
          rw [htext] at hread
          rcases List.mem_cons.mp hraw with rfl | hretained
          · exact absurd (by decide +kernel) hremark
          · rcases List.mem_map.mp hretained with ⟨line, hin, rfl⟩
            rw [String.ofList_toList] at hremark
            rcases (line_of_parsed h (List.mem_of_mem_filter hin)).2 with
              hpatternLine | ⟨-, hline, hstrip⟩
            · rcases parsed_length_le hread with ⟨hle, hsame⟩
              have hne : pattern ≠ line.line := by
                intro heq
                apply hunsettled
                rw [Settled]
                conv_lhs => rw [heq]
                exact hread
              refine ⟨line.line, mem_present.mpr ⟨line, hin, hpatternLine⟩, ?_, ?_⟩
              · intro hsettled
                unfold Settled at hsettled
                rw [hread] at hsettled
                apply hne
                exact congrArg ParsedLine.line (Except.ok.inj hsettled)
              · by_contra hnot
                exact hne (hsame (by omega))
            · rw [hstrip] at hremark
              exact absurd hline hremark
        intro pattern hpattern
        by_contra hunsettled
        exact Lib.not_of_outgrown houtgrown pattern hpattern hunsettled
  · intro hsettled
    rcases retainedLines_again hmigrated with ⟨hnot, hretained⟩
    rw [readManifest, ensureManifestFile]
    dsimp only
    rw [hsplit, parseLines_retained h hsettled]
    dsimp only
    rw [hretained, hnot, if_neg Bool.false_ne_true]

end Again

/-! ## What the policy has anyway -/

section Mandatory

variable {fnmatch : String → String → Bool} {pattern : String} {path : Path}

/-- The patterns of `MANDATORY_CLASSES`, without the class that is in no snapshot. -/
def mandatoryPatterns : String → List String
  | "security_state" => [".silicon/release-sequence-floor.json"]
  | "critical_living" =>
      ["prompts/MEMORY.md", "prompts/memory/**", "prompts/LORE.md", "prompts/CONTACTS.md",
        "silicon.json", ".backupsilicon", ".silicon/data-policy.json"]
  | "task_delivery" =>
      ["core/interface_state/**", "core/cron/checkbacks.json", "core/cron/history.json",
        ".silicon-interface/**", "sessions/**", "worker/sessions/**"]
  | "self_customization" =>
      ["prompts/**/*.md", "extensions/**", "skills/**", ".silicon/overlays/**"]
  | "artifacts" => ["logs/**", "worker/outputs/**"]
  | _ => []

/-- The policy protects the file without any addition. -/
def Mandatory (fnmatch : String → String → Bool) (path : Path) : Prop :=
  ∃ name ∈ snapshotClasses, ∃ pattern ∈ mandatoryPatterns name, Protects fnmatch pattern path

/-- The contacts are part of the state of the interface. -/
theorem mandatory_contacts (h : Protects fnmatch "core/interface_state/contacts.json" path) :
    Mandatory fnmatch path := by
  rcases h with ⟨canonical, front, back, hvalid, rfl, hselects, hback⟩
  have hcanonical : validateRelativePattern "core/interface_state/contacts.json" =
      .ok "core/interface_state/contacts.json" := by decide +kernel
  rw [hcanonical] at hvalid
  cases hvalid
  have hparts : pathParts "core/interface_state/contacts.json" =
      ["core", "interface_state", "contacts.json"] := by decide +kernel
  rw [hparts, selects_cons (by decide)] at hselects
  rcases hselects with ⟨name, later, rfl, hname, hselects⟩
  rw [selects_cons (by decide)] at hselects
  rcases hselects with ⟨name', later', rfl, hname', hselects⟩
  rw [selects_cons (by decide)] at hselects
  rcases hselects with ⟨name'', later'', rfl, hname'', hselects⟩
  cases selects_nil.mp hselects
  have hplain : ∀ segment ∈ ["core", "interface_state", "contacts.json"],
      hasMagic segment = false := by decide
  simp only [List.forall_mem_cons, List.not_mem_nil, false_implies, implies_true,
    and_true] at hplain
  unfold Tries at hname hname' hname''
  rw [hplain.1, if_neg Bool.false_ne_true] at hname
  rw [hplain.2.1, if_neg Bool.false_ne_true] at hname'
  rw [hplain.2.2, if_neg Bool.false_ne_true] at hname''
  subst hname hname' hname''
  refine ⟨"task_delivery", by decide, "core/interface_state/**", by decide,
    "core/interface_state/**", "core" :: "interface_state" :: "contacts.json" :: back, [], ?_, ?_,
    ?_, List.forall_mem_nil _⟩
  · decide +kernel
  · rw [List.append_nil]
    rfl
  · have hstars : pathParts "core/interface_state/**" = ["core", "interface_state", "**"] := by
      decide +kernel
    rw [hstars]
    apply Selects.literal hplain.1
    apply Selects.literal hplain.2.1
    rw [selects_stars]
    constructor
    · intro hnil
      cases hnil
    · rw [List.forall_mem_cons]
      exact ⟨by decide +kernel, hback⟩

/-- What a file is rid of is protected anyway. -/
theorem mandatory_of_default (h : pattern ∈ legacyDefaultManifest)
    (hprotects : Protects fnmatch pattern path) : Mandatory fnmatch path := by
  by_cases hcontacts : pattern = "core/interface_state/contacts.json"
  · subst hcontacts
    exact mandatory_contacts hprotects
  · by_cases hlogs : pattern = "logs/**"
    · exact ⟨"artifacts", by decide, pattern, by rw [hlogs]; decide, hprotects⟩
    · refine ⟨"critical_living", by decide, pattern, ?_, hprotects⟩
      unfold legacyDefaultManifest at h
      unfold mandatoryPatterns
      simp only [List.mem_cons, List.not_mem_nil, or_false] at h ⊢
      simp only [hcontacts, hlogs, or_false] at h
      rcases h with rfl | rfl | rfl | rfl <;> simp

/-- The patterns that a file is rid of are plain. -/
theorem settled_default (h : pattern ∈ legacyDefaultManifest) : Settled pattern := by
  unfold Settled
  revert pattern
  unfold legacyDefaultManifest
  simp only [List.forall_mem_cons, List.not_mem_nil, false_implies, implies_true, and_true,
    parseLine_pattern_iff, true_and]
  decide +kernel

end Mandatory

/-! ## The law -/

section Law

variable {fnmatch : String → String → Bool} {content : List Char} {reading : Reading}

/-- The file has all the patterns that it was generated with. -/
def Generated (content : List Char) : Prop :=
  ∀ pattern ∈ legacyDefaultManifest, HasPattern content pattern

/-- What is read afterwards is what was read, and protects what the lines of the file did. -/
structure KeepsMeaning (fnmatch : String → String → Bool) (content : List Char)
    (reading : Reading) : Prop where
  noneAdded : ∀ pattern ∈ reading.patterns, HasPattern content pattern
  noneLost : ∀ pattern, HasPattern content pattern → ∀ path, Protects fnmatch pattern path →
    (∃ kept ∈ reading.patterns, Protects fnmatch kept path) ∨ Mandatory fnmatch path
  again : readManifest (.text reading.text) = .ok reading

/-- For every manifest that is accepted: it means the same after it was read, and reading it again
leaves it as it is, exactly if it is not written again or all its patterns are plain. -/
theorem migration_law_iff (h : readManifest (.text content) = .ok reading) :
    KeepsMeaning fnmatch content reading ↔
      (Generated content → ∀ line ∈ patternLines content, PlainLine line) := by
  have hread := h
  rw [readManifest, ensureManifestFile] at hread
  dsimp only at hread
  cases hparsed : parseLines (splitlines (universal content)) with
  | error message =>
      rw [hparsed] at hread
      cases hread
  | ok parsed =>
      rw [hparsed] at hread
      have hreading := Except.ok.inj hread
      have hgenerated : isMigrated parsed = true ↔ Generated content := by
        unfold isMigrated Generated
        rw [List.all_eq_true]
        simp only [decide_eq_true_eq, mem_present_iff hparsed]
      have hretained {pattern : String} (hpattern : pattern ∈ present (retainedLines parsed)) :
          pattern ∈ present parsed := by
        rcases mem_present.mp hpattern with ⟨line, hline, hnamed⟩
        exact mem_present.mpr ⟨line, List.mem_of_mem_filter hline, hnamed⟩
      have hkept {pattern : String} (hpattern : pattern ∈ present parsed)
          (hdefault : pattern ∉ legacyDefaultManifest) :
          pattern ∈ present (retainedLines parsed) := by
        rcases mem_present.mp hpattern with ⟨⟨text, named⟩, hline, hnamed⟩
        cases hnamed
        refine mem_present.mpr ⟨⟨text, some pattern⟩, List.mem_filter.mpr ⟨hline, ?_⟩, rfl⟩
        simp [isRetained, hdefault]
      have hpatterns {pattern : String} :
          pattern ∈ reading.patterns ↔ pattern ∈ present (retainedLines parsed) := by
        rw [← hreading]
        exact List.mem_eraseDups
      have hagain : readManifest (.text reading.text) = .ok reading ↔
          (Generated content → ∀ line ∈ patternLines content, PlainLine line) := by
        by_cases hmigrated : isMigrated parsed = true
        · have htext : reading = ⟨(present (retainedLines parsed)).eraseDups,
              writeLines (manifestHeader :: (retainedLines parsed).map ParsedLine.line)⟩ := by
            rw [← hreading, if_pos hmigrated]
          rw [htext, read_again_iff hparsed hmigrated]
          constructor
          · intro hsettled _ line hline
            have hvalid : ∃ pattern, validateRelativePattern line = .ok pattern := by
              rcases List.mem_filter.mp hline with ⟨hmapped, hremark⟩
              rcases List.mem_map.mp hmapped with ⟨rawLine, hraw, rfl⟩
              rcases forall₂_left (parseLines_ok_iff.mp hparsed) _ hraw with
                ⟨⟨text, _ | pattern⟩, -, hparse⟩
              · rcases parseLine_remark_iff.mp hparse with ⟨rfl, hno⟩
                exact absurd hno (by simpa using hremark)
              · exact ⟨pattern, (parseLine_pattern_iff.mp hparse).2.2⟩
            rcases hvalid with ⟨pattern, hvalid⟩
            rw [← settled_iff_plainLine hvalid]
            by_cases hdefault : pattern ∈ legacyDefaultManifest
            · exact settled_default hdefault
            · apply hsettled pattern
              exact hkept ((mem_present_iff hparsed).mpr ⟨line, hline, hvalid⟩) hdefault
          · intro hplain pattern hpattern
            rcases (mem_present_iff hparsed).mp (hretained hpattern) with ⟨line, hline, hvalid⟩
            rw [settled_iff_plainLine hvalid]
            exact hplain (hgenerated.mp hmigrated) line hline
        · have htext : reading.text = content := by
            rw [← hreading]
            dsimp only
            rw [if_neg hmigrated]
          rw [htext]
          constructor
          · intro _ hall
            exact absurd (hgenerated.mpr hall) hmigrated
          · intro _
            exact h
      constructor
      · intro hkeeps
        exact hagain.mp hkeeps.again
      · intro hplain
        constructor
        · intro pattern hpattern
          exact (mem_present_iff hparsed).mp (hretained (hpatterns.mp hpattern))
        · intro pattern hpattern path hprotects
          by_cases hdefault : pattern ∈ legacyDefaultManifest
          · exact .inr (mandatory_of_default hdefault hprotects)
          · have hin := hkept ((mem_present_iff hparsed).mpr hpattern) hdefault
            exact .inl ⟨pattern, hpatterns.mpr hin, hprotects⟩
        · exact hagain.mpr hplain

/-- A generated file with an addition, in lines of its own. -/
def generatedFile (additions : List String) : List Char :=
  writeLines (legacyDefaultManifest ++ additions)

/-- An addition in a form that is not canonical. -/
theorem migration_law_notes :
    KeepsMeaning (fun _ _ => false) (generatedFile ["# mine", "./notes//a.txt"])
      ⟨["notes/a.txt"], writeLines [manifestHeader, "# mine", "notes/a.txt"]⟩ := by
  apply (migration_law_iff (by decide +kernel)).mpr
  intro _ line hline
  have hlines : patternLines (generatedFile ["# mine", "./notes//a.txt"]) =
      legacyDefaultManifest ++ ["./notes//a.txt"] := by decide +kernel
  rw [hlines] at hline
  rcases List.mem_append.mp hline with hdefault | hnotes
  · apply (settled_iff_plainLine _).mp (settled_default hdefault)
    rw [(settled_iff.mp (settled_default hdefault)).1.fixed]
  · rw [List.mem_singleton.mp hnotes]
    have hvalid : validateRelativePattern "./notes//a.txt" = .ok "notes/a.txt" := by decide +kernel
    rw [← settled_iff_plainLine hvalid, Settled, parseLine_pattern_iff]
    decide +kernel

/-- Without its leading `./` a pattern is a comment: the next reading does not find it. -/
theorem comment_made_of_pattern :
    readManifest (.text (generatedFile ["./#notes/**"])) =
        .ok ⟨["#notes/**"], writeLines [manifestHeader, "#notes/**"]⟩ ∧
      readManifest (.text (writeLines [manifestHeader, "#notes/**"])) =
        .ok ⟨[], writeLines [manifestHeader, "#notes/**"]⟩ ∧
      ¬ KeepsMeaning (fun _ _ => false) (generatedFile ["./#notes/**"])
        ⟨["#notes/**"], writeLines [manifestHeader, "#notes/**"]⟩ := by
  have hagain : readManifest (.text (writeLines [manifestHeader, "#notes/**"])) =
      .ok ⟨[], writeLines [manifestHeader, "#notes/**"]⟩ := by decide +kernel
  refine ⟨by decide +kernel, hagain, ?_⟩
  intro hkeeps
  have hsame := hkeeps.again
  dsimp only at hsame
  rw [hagain] at hsame
  cases hsame

end Law

end Backup
end Stemcell
