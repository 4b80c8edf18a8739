import Mathlib.Algebra.GroupWithZero.Nat
import Stemcell.Lib.Lines
import Stemcell.Lib.Transition
import Mathlib.Data.List.DropRight

/-!
# Tailing the process log

The sidecar mirrors the process log to Glass.  A tailer keeps a position in the file between polls;
a poll reads lines of bounded length from there on, sends each as a frame and moves the position
behind it.  A line still being written stays where it is until it is complete.

Main results:

- Definition `pollLoop`: the loop of a poll.
- Theorem `pollLoop_spec`: over lines that no piece cuts behind a carriage return, a poll sends the
  next complete lines, one frame each.
- Theorem `log_law`: where every poll finds such lines, and behind them no unfinished line that is
  too long or stops behind a carriage return, the frames sent are the lines of the file from the
  initial position on.
- Theorem `two_halves_sent`: a line sent as two frames.

Current gaps:

- The time of a frame is left out.
-/

namespace Stemcell
namespace Glass

open Lib

/-! ## Frames -/

def runtimeLogInitialLines : ℕ := 10
def runtimeLogBatchLines : ℕ := 100
def runtimeLogMaxLineBytes : ℕ := 16 * 1024
def runtimeLogInitialScanBytes : ℕ := 256 * 1024
def runtimeLogAnchorBytes : ℕ := 64

def isNewline (byte : UInt8) : Bool :=
  byte = 10

def isReturn (byte : UInt8) : Bool :=
  byte = 13

/-- What `endswith((b"\n", b"\r"))` takes for the end of a line. -/
def isLineEnd (byte : UInt8) : Bool :=
  isNewline byte || isReturn byte

/-- The bytes of a character still to come: how many, the range of the next one, and the bits so
far. -/
structure Utf8Pending where
  missing : ℕ
  low : ℕ
  high : ℕ
  bits : ℕ

/-- The first byte of a character. -/
def utf8Start (byte : ℕ) : Char ⊕ Utf8Pending :=
  if byte < 0x80 then .inl (Char.ofNat byte)
  else if 0xC2 ≤ byte ∧ byte ≤ 0xDF then .inr ⟨1, 0x80, 0xBF, byte - 0xC0⟩
  else if byte = 0xE0 then .inr ⟨2, 0xA0, 0xBF, 0⟩
  else if byte = 0xED then .inr ⟨2, 0x80, 0x9F, 0xD⟩
  else if 0xE1 ≤ byte ∧ byte ≤ 0xEF then .inr ⟨2, 0x80, 0xBF, byte - 0xE0⟩
  else if byte = 0xF0 then .inr ⟨3, 0x90, 0xBF, 0⟩
  else if byte = 0xF4 then .inr ⟨3, 0x80, 0x8F, 4⟩
  else if 0xF1 ≤ byte ∧ byte ≤ 0xF3 then .inr ⟨3, 0x80, 0xBF, byte - 0xF0⟩
  else .inl '\uFFFD'

/-- `decode("utf-8", errors="replace")`, inside a character or between two. -/
def decodeFrom : Option Utf8Pending → List UInt8 → List Char
  | none, [] => []
  | some _, [] => ['\uFFFD']
  | none, byte :: rest =>
      match utf8Start byte.toNat with
      | .inl c => c :: decodeFrom none rest
      | .inr pending => decodeFrom (some pending) rest
  | some pending, byte :: rest =>
      if pending.low ≤ byte.toNat ∧ byte.toNat ≤ pending.high then
        let bits := pending.bits * 64 + (byte.toNat - 0x80)
        if pending.missing = 1 then Char.ofNat bits :: decodeFrom none rest
        else decodeFrom (some ⟨pending.missing - 1, 0x80, 0xBF, bits⟩) rest
      else
        -- the bytes so far are one bad character, and this byte starts anew
        '\uFFFD' ::
          match utf8Start byte.toNat with
          | .inl c => c :: decodeFrom none rest
          | .inr pending => decodeFrom (some pending) rest

def decodeReplace (bytes : List UInt8) : List Char :=
  decodeFrom none bytes

/-- `str.lower` as far as the words of `runtimeLogLevel` go: of the other letters only the Kelvin
sign becomes one of theirs. -/
def lowerChar (c : Char) : Char :=
  if c = '\u212A' then 'k' else c.toLower

/-- `any(word in text for word in words)`. -/
def mentions (words : List String) (text : List Char) : Bool :=
  words.any fun word => decide (word.toList <:+: text)

/-- The Glass display level of a line. -/
def runtimeLogLevel (line : List Char) : String :=
  let lowered := line.map lowerChar
  if mentions ["error", "exception", "traceback", "fatal", "failed"] lowered then "error"
  else if mentions ["warning", "warn"] lowered then "warn"
  else "info"

structure LogFrame where
  type : String
  level : String
  source : String
  msg : List Char
deriving DecidableEq

/-- The frame of the bytes kept of a line, with how many more it has. -/
def logFrameOf (raw : List UInt8) (omitted : ℕ) : LogFrame :=
  let text := decodeReplace (raw.rdropWhile isLineEnd)
  let line :=
    if omitted = 0 then text
    else text ++ " …(+".toList ++ (toString omitted).toList ++ " bytes truncated)".toList
  { type := "log", level := runtimeLogLevel line, source := "silicon", msg := line }

/-! ## The tailer -/

/-- The log as `fstat` and `read` see it. -/
structure LogFile where
  identity : ℕ × ℕ
  content : List UInt8

structure RuntimeLogTailer where
  identity : Option (ℕ × ℕ)
  position : Option ℕ
  anchor : List UInt8
deriving DecidableEq

def RuntimeLogTailer.new : RuntimeLogTailer where
  identity := none
  position := none
  anchor := []

/-- `_read_anchor`. -/
def readAnchor (content : List UInt8) (position : ℕ) : List UInt8 :=
  let length := min position runtimeLogAnchorBytes
  (content.drop (position - length)).take length

/-- `bytes.splitlines(keepends=True)`: a line ends at `\n`, at `\r` or at both. -/
def splitlines : List UInt8 → List (List UInt8)
  | [] => []
  | byte :: rest =>
      if isNewline byte ∨ isReturn byte ∧ rest.head? ≠ some 10 then [byte] :: splitlines rest
      else
        match splitlines rest with
        | [] => [[byte]]
        | line :: more => (byte :: line) :: more

/-- Before the ten last lines of a sample that ends at a position. -/
def beforeLastLines (position : ℕ) (sample : List UInt8) : ℕ :=
  let lines := splitlines sample
  position -
    ((lines.drop (lines.length - runtimeLogInitialLines)).map List.length).sum

/-- `_initial_position`. -/
def initialPosition (content : List UInt8) : ℕ :=
  let start := content.length - runtimeLogInitialScanBytes
  let sample := content.drop start
  if start = 0 then beforeLastLines content.length sample
  else
    match sample.findIdx? isNewline with
    | none => content.length
    | some newline => beforeLastLines content.length (sample.drop (newline + 1))

/-- `_prepare`. -/
def prepare (t : RuntimeLogTailer) (file : LogFile) : RuntimeLogTailer :=
  if t.identity = some file.identity then
    let position := t.position.getD 0
    let replaced := decide (file.content.length < position) ||
      decide (t.anchor ≠ []) && decide (readAnchor file.content position ≠ t.anchor)
    if replaced then { t with position := some 0, anchor := [] } else t
  else
    let position :=
      match t.position with
      | none => initialPosition file.content
      | some _ => 0
    { identity := some file.identity
      position := some position
      anchor := readAnchor file.content position }

/-- `readline(limit)`. -/
def readlineAtMost (limit : ℕ) (rest : List UInt8) : List UInt8 :=
  (readline isNewline rest).take limit

theorem length_readlineAtMost_le (limit : ℕ) (rest : List UInt8) :
    (readlineAtMost limit rest).length ≤ rest.length := by
  rw [readlineAtMost, List.length_take]
  have h := (readline_before isNewline rest).length_le
  omega

/-- The bytes that go with a line that is too long: read in pieces, up to one that is complete. -/
def remainderLength (rest : List UInt8) : ℕ :=
  let remainder := readlineAtMost runtimeLogMaxLineBytes rest
  if _hne : remainder = [] then 0
  else if terminated isLineEnd remainder then remainder.length
  else remainder.length + remainderLength (rest.drop remainder.length)
termination_by rest.length
decreasing_by
  have hpos := List.length_pos_iff.mpr _hne
  have hle := length_readlineAtMost_le runtimeLogMaxLineBytes rest
  rw [List.length_drop]
  dsimp only [remainder] at hpos ⊢
  omega

/-- What a round of the poll reads: the bytes it keeps, how many more it omits, and how far it
reads. -/
structure LogItem where
  raw : List UInt8
  omitted : ℕ
  size : ℕ
deriving DecidableEq

/-- A round reads behind the position, or finds no complete line. -/
def nextItem (rest : List UInt8) : Option LogItem :=
  let raw := readlineAtMost (runtimeLogMaxLineBytes + 1) rest
  if raw = [] then none
  else
    let complete := terminated isLineEnd raw
    if complete = false ∧ raw.length ≤ runtimeLogMaxLineBytes then none
    else if runtimeLogMaxLineBytes < raw.length then
      let kept := raw.take runtimeLogMaxLineBytes
      let more := if complete then 0 else remainderLength (rest.drop raw.length)
      some { raw := kept, omitted := raw.length - kept.length + more, size := raw.length + more }
    else some { raw := raw, omitted := 0, size := raw.length }

/-- What a poll leaves: the tailer, the frames sent, and whether `send` raised. -/
structure PollResult where
  tailer : RuntimeLogTailer
  sent : List LogFrame
  raised : Bool
deriving DecidableEq

/-- The loop of a poll, for the rounds left in its batch and the number of the send that raises. -/
def pollLoop (content : List UInt8) : ℕ → Option ℕ → RuntimeLogTailer → PollResult
  | 0, _, t => { tailer := t, sent := [], raised := false }
  | rounds + 1, raises, t =>
      let position := t.position.getD 0
      match nextItem (content.drop position) with
      | none => { tailer := t, sent := [], raised := false }
      | some item =>
          if raises = some 0 then { tailer := t, sent := [], raised := true }
          else
            let next := position + item.size
            let after := pollLoop content rounds (raises.map Nat.pred)
              { t with position := some next, anchor := readAnchor content next }
            { after with sent := logFrameOf item.raw item.omitted :: after.sent }

/-- `poll` on an open file. -/
def poll (t : RuntimeLogTailer) (file : LogFile) (raises : Option ℕ) : PollResult :=
  pollLoop file.content runtimeLogBatchLines raises (prepare t file)

/-! ## Runs -/

/-- The log, the tailer, the frames sent so far, what the last poll returned since the log last
grew, and where the tailer started. -/
structure LogWorld where
  file : Option LogFile
  tailer : RuntimeLogTailer
  sent : List LogFrame
  returned : Option ℕ
  start : Option ℕ

inductive LogStep
  | create (identity : ℕ × ℕ)
  | append (bytes : List UInt8)
  | poll (raises : Option ℕ)

def LogWorld.initial (file : Option LogFile) : LogWorld where
  file := file
  tailer := .new
  sent := []
  returned := none
  start := none

def LogWorld.next (w : LogWorld) : LogStep → Option LogWorld
  | .create identity =>
      match w.file with
      | none => some { w with file := some ⟨identity, []⟩ }
      | some _ => none
  | .append bytes =>
      match w.file with
      | none => none
      | some file =>
          some { w with file := some ⟨file.identity, file.content ++ bytes⟩, returned := none }
  | .poll raises =>
      match w.file with
      | none => some { w with returned := some 0 }
      | some file =>
          let result := poll w.tailer file raises
          some
            { w with
              tailer := result.tailer
              sent := w.sent ++ result.sent
              returned := if result.raised then none else some result.sent.length
              start :=
                match w.start with
                | some start => some start
                | none => (prepare w.tailer file).position }

def logSystem : TransitionSystem LogWorld LogStep where
  init w := ∃ file, w = .initial file
  step w e w' := w.next e = some w'

/-! ## The law and its condition -/

/-- A line of the file starts at the position. -/
def LineStart (content : List UInt8) (position : ℕ) : Prop :=
  position = 0 ∨ terminated isNewline (content.take position) = true

instance (content : List UInt8) (position : ℕ) : Decidable (LineStart content position) :=
  inferInstanceAs (Decidable (_ ∨ _))

/-- The newline-terminated lines of the file that start at a position or behind it. -/
def linesFrom (content : List UInt8) (position : ℕ) : List (List UInt8) :=
  if LineStart content position then lines isNewline (content.drop position)
  else (lines isNewline (content.drop position)).tail

/-- The frame of a line of the file. -/
def lineFrame (line : List UInt8) : LogFrame :=
  logFrameOf (line.take runtimeLogMaxLineBytes) (line.length - runtimeLogMaxLineBytes)

/-- The frames sent are those of the first lines from the initial position on, and of all of them
once a poll returned less than a whole batch. -/
def LogLaw (w : LogWorld) : Prop :=
  match w.file, w.start with
  | some file, some start =>
      (∃ count, w.sent = ((linesFrom file.content start).take count).map lineFrame) ∧
        ∀ count, w.returned = some count → count < runtimeLogBatchLines →
          w.sent = (linesFrom file.content start).map lineFrame
  | _, _ => w.sent = []

/-- No piece of the line ends behind a carriage return. -/
def PiecesClean (line : List UInt8) : Prop :=
  ∀ i, 0 < i → i * runtimeLogMaxLineBytes + 1 < line.length →
    (line)[i * runtimeLogMaxLineBytes]? ≠ some 13

/-- The unfinished line is short enough and does not stop behind a carriage return. -/
def TailClean (tail : List UInt8) : Prop :=
  tail.length ≤ runtimeLogMaxLineBytes ∧ tail.getLast? ≠ some 13

/-- How many frames a poll of some rounds sends at most. -/
def allowed (rounds : ℕ) : Option ℕ → ℕ
  | none => rounds
  | some raises => min raises rounds

/-- A poll from the position that may send so many frames starts a first frame at the start of a
line, cuts no line behind a carriage return, and takes no unfinished line for a line. -/
def PollClean (content : List UInt8) (position count : ℕ) : Prop :=
  let found := lines isNewline (content.drop position)
  (0 < count → found ≠ [] → LineStart content position) ∧
    (∀ line ∈ found.take count, PiecesClean line) ∧
    (found.length < count → TailClean (content.drop (position + found.flatten.length)))

/-- The condition on a step: a poll finds such lines. -/
def ReadsLines (w : LogWorld) : LogStep → Prop
  | .poll raises =>
      ∀ file, w.file = some file →
        PollClean file.content ((prepare w.tailer file).position.getD 0)
          (allowed runtimeLogBatchLines raises)
  | _ => True

/-! ## Reading one line -/

section Reading

variable {rest line : List UInt8}

theorem terminated_isLineEnd_iff (raw : List UInt8) :
    terminated isLineEnd raw = true ↔ raw.getLast? = some 10 ∨ raw.getLast? = some 13 := by
  unfold terminated
  cases hlast : raw.getLast? with
  | none => simp
  | some byte => simp [isLineEnd, isNewline, isReturn]

theorem terminated_of_newline {raw : List UInt8} (h : terminated isNewline raw = true) :
    terminated isLineEnd raw = true := by
  unfold terminated at h ⊢
  cases hlast : raw.getLast? with
  | none =>
      rw [hlast] at h
      cases h
  | some byte =>
      rw [hlast] at h
      dsimp only at h ⊢
      rw [isLineEnd, h, Bool.true_or]

/-- The beginning of a line is taken for a line only if it stops behind a carriage return. -/
theorem terminated_take_false {size : ℕ} (hread : readline isNewline rest = line)
    (hsize : size + 1 < line.length) (hbyte : (line)[size]? ≠ some 13) :
    terminated isLineEnd (line.take (size + 1)) = false := by
  have hlast : (line.take (size + 1)).getLast? = (line)[size]? := by
    rw [List.getLast?_eq_getElem?, List.length_take, Nat.min_eq_left (by omega),
      Nat.add_sub_cancel, List.getElem?_take_of_lt (Nat.lt_succ_self _)]
  by_contra hcomplete
  rw [Bool.not_eq_false, terminated_isLineEnd_iff, hlast] at hcomplete
  rcases hcomplete with hnewline | hreturn
  · rw [← hread] at hnewline hsize
    have hends := ends_readline isNewline hsize hnewline
    simp [isNewline] at hends
  · exact hbyte hreturn

/-- Behind its first piece, a line is read to its end. -/
theorem remainderLength_eq (hread : readline isNewline rest = line)
    (hline : terminated isNewline line = true)
    (hclean : ∀ i, 0 < i → i * runtimeLogMaxLineBytes < line.length →
      (line)[i * runtimeLogMaxLineBytes - 1]? ≠ some 13) :
    remainderLength rest = line.length := by
  have hmax : 0 < runtimeLogMaxLineBytes := by decide
  induction hlength : rest.length using Nat.strong_induction_on generalizing rest line with
  | _ length ih =>
      have hne : line ≠ [] := ne_nil_of_terminated isNewline hline
      have hpos : 0 < line.length := List.length_pos_iff.mpr hne
      rw [remainderLength]
      have hpiece : readlineAtMost runtimeLogMaxLineBytes rest =
          line.take runtimeLogMaxLineBytes := by
        rw [readlineAtMost, hread]
      rw [hpiece]
      have hpiecene : line.take runtimeLogMaxLineBytes ≠ [] := by
        rw [ne_eq, List.take_eq_nil_iff]
        rintro (h | h)
        · omega
        · exact hne h
      rw [dif_neg hpiecene]
      by_cases hshort : line.length ≤ runtimeLogMaxLineBytes
      · rw [List.take_of_length_le hshort, if_pos (terminated_of_newline hline)]
      · have hmid : runtimeLogMaxLineBytes - 1 + 1 < line.length := by omega
        have hreturn := hclean 1 Nat.one_pos (by omega)
        rw [Nat.one_mul] at hreturn
        have hopen := terminated_take_false hread hmid hreturn
        rw [Nat.sub_add_cancel hmax] at hopen
        rw [hopen, if_neg Bool.false_ne_true, List.length_take, Nat.min_eq_left (by omega)]
        have hdrop : readline isNewline (rest.drop runtimeLogMaxLineBytes) =
            line.drop runtimeLogMaxLineBytes := by
          rw [readline_drop isNewline (by rw [hread]; omega), hread]
        have hlast : terminated isNewline (line.drop runtimeLogMaxLineBytes) = true := by
          unfold terminated at hline ⊢
          rw [List.getLast?_drop, if_neg (by omega)]
          exact hline
        have hbefore : line.length ≤ rest.length := by
          rw [← hread]
          exact (readline_before isNewline rest).length_le
        rw [ih (rest.drop runtimeLogMaxLineBytes).length (by rw [List.length_drop]; omega)
          hdrop hlast ?_ rfl, List.length_drop]
        · omega
        · intro i hi hlt
          rw [List.length_drop] at hlt
          rw [List.getElem?_drop]
          have hnext := hclean (i + 1) (Nat.succ_pos _) (by rw [Nat.add_mul]; omega)
          have hi' : runtimeLogMaxLineBytes ≤ i * runtimeLogMaxLineBytes :=
            Nat.le_mul_of_pos_left _ hi
          have hindex : runtimeLogMaxLineBytes + (i * runtimeLogMaxLineBytes - 1) =
              (i + 1) * runtimeLogMaxLineBytes - 1 := by
            rw [Nat.add_mul]
            omega
          rw [hindex]
          exact hnext

/-- A round reads a line that no piece cuts behind a carriage return. -/
theorem nextItem_of_line (hread : readline isNewline rest = line)
    (hline : terminated isNewline line = true) (hclean : PiecesClean line) :
    nextItem rest =
      some
        { raw := line.take runtimeLogMaxLineBytes
          omitted := line.length - runtimeLogMaxLineBytes
          size := line.length } := by
  have hne : line ≠ [] := ne_nil_of_terminated isNewline hline
  have hpos : 0 < line.length := List.length_pos_iff.mpr hne
  have hraw : readlineAtMost (runtimeLogMaxLineBytes + 1) rest =
      line.take (runtimeLogMaxLineBytes + 1) := by
    rw [readlineAtMost, hread]
  have hrawne : line.take (runtimeLogMaxLineBytes + 1) ≠ [] := by
    rw [ne_eq, List.take_eq_nil_iff]
    rintro (h | h)
    · cases h
    · exact hne h
  unfold nextItem
  dsimp only
  rw [hraw, if_neg hrawne]
  by_cases hshort : line.length ≤ runtimeLogMaxLineBytes + 1
  · rw [List.take_of_length_le hshort, terminated_of_newline hline, if_neg (by simp)]
    by_cases hfits : line.length ≤ runtimeLogMaxLineBytes
    · rw [if_neg (by omega), List.take_of_length_le hfits, Nat.sub_eq_zero_of_le hfits]
    · rw [if_pos (by omega), if_pos rfl, List.length_take, Nat.min_eq_left (by omega),
        Nat.add_zero, Nat.add_zero]
  · have hreturn := hclean 1 Nat.one_pos (by omega)
    rw [Nat.one_mul] at hreturn
    have hopen := terminated_take_false hread (by omega) hreturn
    have hsize : (line.take (runtimeLogMaxLineBytes + 1)).length = runtimeLogMaxLineBytes + 1 := by
      rw [List.length_take, Nat.min_eq_left (by omega)]
    have hdrop : readline isNewline (rest.drop (runtimeLogMaxLineBytes + 1)) =
        line.drop (runtimeLogMaxLineBytes + 1) := by
      rw [readline_drop isNewline (by rw [hread]; omega), hread]
    have hlast : terminated isNewline (line.drop (runtimeLogMaxLineBytes + 1)) = true := by
      unfold terminated at hline ⊢
      rw [List.getLast?_drop, if_neg (by omega)]
      exact hline
    have hmore := remainderLength_eq hdrop hlast (by
      intro i hi hlt
      rw [List.length_drop] at hlt
      rw [List.getElem?_drop]
      have hnext := hclean (i + 1) (Nat.succ_pos _) (by rw [Nat.add_mul]; omega)
      have hi' : runtimeLogMaxLineBytes ≤ i * runtimeLogMaxLineBytes :=
        Nat.le_mul_of_pos_left _ hi
      have hmax : 0 < runtimeLogMaxLineBytes := by decide
      have hindex : runtimeLogMaxLineBytes + 1 + (i * runtimeLogMaxLineBytes - 1) =
          (i + 1) * runtimeLogMaxLineBytes := by
        rw [Nat.add_mul]
        omega
      rw [hindex]
      exact hnext)
    rw [List.length_drop] at hmore
    rw [hopen, hsize, if_neg (by omega), if_pos (Nat.lt_succ_self _), if_neg Bool.false_ne_true,
      hmore, List.take_take, Nat.min_eq_left (Nat.le_succ _), List.length_take,
      Nat.min_eq_left (by omega)]
    have homitted : runtimeLogMaxLineBytes + 1 - runtimeLogMaxLineBytes +
        (line.length - (runtimeLogMaxLineBytes + 1)) = line.length - runtimeLogMaxLineBytes := by
      omega
    have hwhole : runtimeLogMaxLineBytes + 1 + (line.length - (runtimeLogMaxLineBytes + 1)) =
        line.length := by
      omega
    rw [homitted, hwhole]

/-- A round finds no line in an unfinished one. -/
theorem nextItem_of_tail (hnone : lines isNewline rest = []) (hclean : TailClean rest) :
    nextItem rest = none := by
  rcases readline_of_lines_nil isNewline hnone with ⟨hself, hopen⟩
  have hraw : readlineAtMost (runtimeLogMaxLineBytes + 1) rest = rest := by
    rw [readlineAtMost, hself, List.take_of_length_le (by have := hclean.1; omega)]
  unfold nextItem
  dsimp only
  rw [hraw]
  by_cases hnil : rest = []
  · rw [if_pos hnil]
  · have hincomplete : terminated isLineEnd rest = false := by
      by_contra hcomplete
      rw [Bool.not_eq_false, terminated_isLineEnd_iff] at hcomplete
      rcases hcomplete with hnewline | hreturn
      · rw [terminated, hnewline] at hopen
        cases hopen
      · exact hclean.2 hreturn
    rw [if_neg hnil, hincomplete, if_pos ⟨rfl, hclean.1⟩]

end Reading

/-! ## One poll -/

section Poll

variable {content : List UInt8} {found : List (List UInt8)} {position rounds : ℕ}
variable {raises : Option ℕ} {t : RuntimeLogTailer}

theorem allowed_zero (raises : Option ℕ) : allowed 0 raises = 0 := by
  cases raises with
  | none => rfl
  | some r => exact Nat.min_zero r

theorem allowed_eq_zero_iff : allowed (rounds + 1) raises = 0 ↔ raises = some 0 := by
  cases raises with
  | none => simp [allowed]
  | some r =>
      simp only [allowed, Option.some.injEq]
      omega

theorem allowed_pred :
    allowed rounds (raises.map Nat.pred) = allowed (rounds + 1) raises - 1 := by
  cases raises with
  | none => rfl
  | some r =>
      simp only [allowed, Option.map_some, Nat.pred_eq_sub_one]
      omega

/-- A round finds something where there is a complete line. -/
theorem nextItem_ne_none {rest line : List UInt8} (hread : readline isNewline rest = line)
    (hline : terminated isNewline line = true) : nextItem rest ≠ none := by
  have hne : line ≠ [] := ne_nil_of_terminated isNewline hline
  have hraw : readlineAtMost (runtimeLogMaxLineBytes + 1) rest =
      line.take (runtimeLogMaxLineBytes + 1) := by
    rw [readlineAtMost, hread]
  have hrawne : line.take (runtimeLogMaxLineBytes + 1) ≠ [] := by
    rw [ne_eq, List.take_eq_nil_iff]
    rintro (h | h)
    · cases h
    · exact hne h
  unfold nextItem
  dsimp only
  rw [hraw, if_neg hrawne]
  by_cases hshort : line.length ≤ runtimeLogMaxLineBytes
  · rw [List.take_of_length_le (by omega), terminated_of_newline hline, if_neg (by simp)]
    split_ifs <;> exact Option.some_ne_none _
  · have hsize : (line.take (runtimeLogMaxLineBytes + 1)).length = runtimeLogMaxLineBytes + 1 := by
      rw [List.length_take, Nat.min_eq_left (by omega)]
    rw [hsize, if_neg (by omega), if_pos (Nat.lt_succ_self _)]
    exact Option.some_ne_none _

/-- What a poll does that may send `count` frames where it finds some lines. -/
structure Polled (content : List UInt8) (found : List (List UInt8)) (position count rounds : ℕ)
    (t : RuntimeLogTailer) (result : PollResult) : Prop where
  sent : result.sent = (found.take count).map lineFrame
  identity : result.tailer.identity = t.identity
  position : result.tailer.position.getD 0 = position + (found.take count).flatten.length
  anchor : result.tailer = t ∨ result.tailer.position.isSome = true ∧
    result.tailer.anchor = readAnchor content (result.tailer.position.getD 0)
  whole : result.raised = false → found.length ≤ count ∨ count = rounds

/-- The loop sends the next lines, one frame each, and stops behind them. -/
theorem pollLoop_spec (ht : t.position.getD 0 = position)
    (hfound : lines isNewline (content.drop position) = found)
    (hclean : ∀ line ∈ found.take (allowed rounds raises), PiecesClean line)
    (htail : found.length < allowed rounds raises →
      TailClean (content.drop (position + found.flatten.length))) :
    Polled content found position (allowed rounds raises) rounds t
      (pollLoop content rounds raises t) := by
  induction rounds generalizing raises t position found with
  | zero =>
      rw [allowed_zero, pollLoop]
      constructor
      · rw [List.take_zero, List.map_nil]
      · rfl
      · rw [List.take_zero]
        exact ht
      · exact .inl rfl
      · intro _
        exact .inr rfl
  | succ rounds ih =>
      rw [pollLoop]
      dsimp only
      rw [ht]
      cases found with
      | nil =>
          have hstay (raised : Bool) : Polled content [] position (allowed (rounds + 1) raises)
              (rounds + 1) t { tailer := t, sent := [], raised := raised } := by
            constructor
            · rw [List.take_nil, List.map_nil]
            · rfl
            · rw [List.take_nil]
              exact ht
            · exact .inl rfl
            · intro _
              exact .inl (Nat.zero_le _)
          by_cases hzero : raises = some 0
          · cases hitem : nextItem (content.drop position) with
            | none => exact hstay false
            | some item =>
                dsimp only
                rw [if_pos hzero]
                exact hstay true
          · have hcount : 0 < allowed (rounds + 1) raises := by
              apply Nat.pos_of_ne_zero
              rw [ne_eq, allowed_eq_zero_iff]
              exact hzero
            have hitem := nextItem_of_tail hfound (htail hcount)
            rw [hitem]
            exact hstay false
      | cons line more =>
          have hlines := hfound
          rw [lines_eq] at hlines
          have hterminated : terminated isNewline (readline isNewline (content.drop position)) =
              true := by
            by_contra hopen
            rw [if_neg hopen] at hlines
            cases hlines
          rw [if_pos hterminated] at hlines
          rcases List.cons.inj hlines with ⟨hread, hrest⟩
          rw [hread] at hterminated hrest
          rw [List.drop_drop] at hrest
          by_cases hzero : raises = some 0
          · have hcount : allowed (rounds + 1) raises = 0 := allowed_eq_zero_iff.mpr hzero
            cases hitem : nextItem (content.drop position) with
            | none => exact absurd hitem (nextItem_ne_none hread hterminated)
            | some item =>
                dsimp only
                rw [if_pos hzero, hcount]
                constructor
                · rw [List.take_zero, List.map_nil]
                · rfl
                · rw [List.take_zero]
                  exact ht
                · exact .inl rfl
                · intro hraised
                  cases hraised
          · have hcount : 0 < allowed (rounds + 1) raises := by
              apply Nat.pos_of_ne_zero
              rw [ne_eq, allowed_eq_zero_iff]
              exact hzero
            have hpred := @allowed_pred rounds raises
            have htake : (line :: more).take (allowed (rounds + 1) raises) =
                line :: more.take (allowed rounds (raises.map Nat.pred)) := by
              rw [hpred]
              conv_lhs => rw [← Nat.sub_add_cancel hcount]
              rw [List.take_succ_cons]
            rw [htake] at hclean
            have hitem := nextItem_of_line hread hterminated (hclean line List.mem_cons_self)
            have hloop := @ih more (position + line.length) (raises.map Nat.pred)
              { t with
                position := some (position + line.length)
                anchor := readAnchor content (position + line.length) }
              rfl hrest
              (by
                intro other hother
                exact hclean other (List.mem_cons_of_mem _ hother))
              (by
                intro hlt
                have hlt' : (line :: more).length < allowed (rounds + 1) raises := by
                  rw [List.length_cons]
                  omega
                have hnext := htail hlt'
                rw [List.flatten_cons, List.length_append, ← Nat.add_assoc] at hnext
                exact hnext)
            rw [hitem]
            dsimp only
            rw [if_neg hzero]
            constructor
            · dsimp only
              rw [htake, List.map_cons, hloop.sent]
              rfl
            · exact hloop.identity
            · dsimp only
              rw [htake, hloop.position, List.flatten_cons, List.length_append, Nat.add_assoc]
            · right
              dsimp only
              rcases hloop.anchor with hsame | hmoved
              · rw [hsame]
                exact ⟨rfl, rfl⟩
              · exact hmoved
            · intro hraised
              rcases hloop.whole hraised with hall | hfull
              · left
                rw [List.length_cons]
                omega
              · right
                omega

end Poll

/-! ## The tailer between polls -/

section Tailer

variable {content bytes : List UInt8} {position : ℕ}

theorem readAnchor_append (h : position ≤ content.length) (bytes : List UInt8) :
    readAnchor (content ++ bytes) position = readAnchor content position := by
  unfold readAnchor
  dsimp only
  rw [List.drop_append_of_le_length (by omega), List.take_append_of_le_length]
  rw [List.length_drop]
  omega

theorem lineStart_append (h : position ≤ content.length) (bytes : List UInt8) :
    LineStart (content ++ bytes) position ↔ LineStart content position := by
  unfold LineStart
  rw [List.take_append_of_le_length h]

theorem initialPosition_le (content : List UInt8) : initialPosition content ≤ content.length := by
  have hbefore (sample : List UInt8) : beforeLastLines content.length sample ≤ content.length :=
    Nat.sub_le _ _
  unfold initialPosition
  dsimp only
  split_ifs
  · exact hbefore _
  · split
    · exact Nat.le_refl _
    · exact hbefore _

end Tailer

/-! ## Runs that read lines -/

/-- Where a tailer stands: the lines before its position are sent, and a poll that returned less
than a whole batch left none behind it. -/
structure Tailing (t : RuntimeLogTailer) (sent : List LogFrame) (returned : Option ℕ)
    (file : LogFile) (start : ℕ) (first more : List (List UInt8)) : Prop where
  identity : t.identity = some file.identity
  inside : start ≤ file.content.length
  lines : lines isNewline (file.content.drop start) = first ++ more
  position : t.position = some (start + first.flatten.length)
  anchor : t.anchor = readAnchor file.content (start + first.flatten.length)
  sent : sent = first.map lineFrame
  aligned : first ≠ [] → LineStart file.content start
  returned : ∀ count, returned = some count → count < runtimeLogBatchLines → more = []

/-- The invariant of a run: before the first poll of the file nothing is sent. -/
def LogInv (w : LogWorld) : Prop :=
  match w.start with
  | none => w.tailer = .new ∧ w.sent = []
  | some start =>
      ∃ file first more, w.file = some file ∧
        Tailing w.tailer w.sent w.returned file start first more

section Runs

variable {t : RuntimeLogTailer} {sent : List LogFrame} {returned : Option ℕ} {file : LogFile}
variable {start : ℕ} {first more : List (List UInt8)}

theorem Tailing.position_le (h : Tailing t sent returned file start first more) :
    start + first.flatten.length ≤ file.content.length := by
  have hbefore := (lines_flatten_before isNewline (file.content.drop start)).length_le
  rw [h.lines, List.flatten_append, List.length_append, List.length_drop] at hbefore
  have hinside := h.inside
  omega

/-- The tailer takes the grown file for the same file. -/
theorem Tailing.prepare (h : Tailing t sent returned file start first more) :
    prepare t file = t := by
  have hle := h.position_le
  have hanchor := h.anchor
  unfold Glass.prepare
  rw [if_pos h.identity, h.position, Option.getD_some]
  dsimp only
  rw [← hanchor, if_neg]
  simp only [Bool.or_eq_true, Bool.and_eq_true, decide_eq_true_eq, ne_eq, not_true_eq_false,
    and_false, or_false]
  omega

/-- The first poll of the file starts at its initial position. -/
theorem prepare_new (file : LogFile) :
    Tailing (prepare .new file) [] none file (initialPosition file.content) []
      (Lib.lines isNewline (file.content.drop (initialPosition file.content))) := by
  have hnew : prepare .new file =
      { identity := some file.identity
        position := some (initialPosition file.content)
        anchor := readAnchor file.content (initialPosition file.content) } := by
    unfold prepare RuntimeLogTailer.new
    rw [if_neg (by simp)]
  rw [hnew]
  constructor
  · rfl
  · exact initialPosition_le _
  · rw [List.nil_append]
  · rw [List.flatten_nil, List.length_nil, Nat.add_zero]
  · rw [List.flatten_nil, List.length_nil, Nat.add_zero]
  · rw [List.map_nil]
  · intro hne
    exact absurd rfl hne
  · intro count hcount
    cases hcount

/-- When the log grows, the tailer stays where it stands. -/
theorem Tailing.append (h : Tailing t sent returned file start first more) (bytes : List UInt8) :
    ∃ more', Tailing t sent none ⟨file.identity, file.content ++ bytes⟩ start first more' := by
  have hle := h.position_le
  have hinside := h.inside
  rcases lines_append_before isNewline (file.content.drop start) bytes with ⟨grown, hgrown⟩
  refine ⟨more ++ grown, ?_⟩
  constructor
  · exact h.identity
  · dsimp only
    rw [List.length_append]
    omega
  · dsimp only
    rw [List.drop_append_of_le_length hinside, ← hgrown, h.lines, List.append_assoc]
  · exact h.position
  · dsimp only
    rw [readAnchor_append hle]
    exact h.anchor
  · exact h.sent
  · intro hne
    dsimp only
    rw [lineStart_append hinside]
    exact h.aligned hne
  · intro count hcount
    cases hcount

/-- A poll that finds lines behind the position sends them. -/
theorem Tailing.poll {raises : Option ℕ} (h : Tailing t sent returned file start first more)
    (hclean : PollClean file.content (start + first.flatten.length)
      (allowed runtimeLogBatchLines raises))
    {result : PollResult} (hresult : pollLoop file.content runtimeLogBatchLines raises t = result) :
    ∃ first' more', Tailing result.tailer (sent ++ result.sent)
      (if result.raised then none else some result.sent.length) file start first' more' := by
  have hmore : Lib.lines isNewline (file.content.drop (start + first.flatten.length)) = more := by
    rw [← List.drop_drop]
    exact lines_drop isNewline h.lines
  rcases hclean with ⟨hlineStart, hpieces, htail⟩
  rw [hmore] at hlineStart hpieces htail
  have hpolled := @pollLoop_spec file.content more (start + first.flatten.length)
    runtimeLogBatchLines raises t (by rw [h.position, Option.getD_some]) hmore hpieces htail
  rw [hresult] at hpolled
  generalize hcount : allowed runtimeLogBatchLines raises = count at hlineStart hpolled
  have hflatten : start + (first ++ more.take count).flatten.length =
      start + first.flatten.length + (more.take count).flatten.length := by
    rw [List.flatten_append, List.length_append, Nat.add_assoc]
  have hposition := hpolled.position
  refine ⟨first ++ more.take count, more.drop count, ?_⟩
  constructor
  · rw [hpolled.identity]
    exact h.identity
  · exact h.inside
  · rw [h.lines, List.append_assoc, List.take_append_drop]
  · rw [hflatten, ← hposition]
    rcases hpolled.anchor with hsame | ⟨hmoved, -⟩
    · rw [hsame, h.position, Option.getD_some]
    · rcases Option.isSome_iff_exists.mp hmoved with ⟨p, hp⟩
      rw [hp, Option.getD_some]
  · rw [hflatten, ← hposition]
    rcases hpolled.anchor with hsame | ⟨-, hmoved⟩
    · rw [hsame, h.position, Option.getD_some]
      exact h.anchor
    · exact hmoved
  · rw [h.sent, hpolled.sent, List.map_append]
  · intro hne
    by_cases hfirst : first = []
    · subst hfirst
      have htake : more.take count ≠ [] := hne
      have hpos : 0 < count := by
        apply Nat.pos_of_ne_zero
        rintro rfl
        exact htake List.take_zero
      have hmorene : more ≠ [] := by
        rintro rfl
        exact htake List.take_nil
      simpa using hlineStart hpos hmorene
    · exact h.aligned hfirst
  · intro n hn hlt
    cases hraised : result.raised with
    | true =>
        rw [hraised, if_pos rfl] at hn
        cases hn
    | false =>
        rw [hraised, if_neg Bool.false_ne_true, Option.some.injEq, hpolled.sent, List.length_map,
          List.length_take] at hn
        rw [List.drop_eq_nil_iff]
        rcases hpolled.whole hraised with hall | hfull
        · exact hall
        · omega

/-- The law follows from where the tailer stands. -/
theorem LogInv.law {w : LogWorld} (h : LogInv w) : LogLaw w := by
  unfold LogInv at h
  unfold LogLaw
  cases hstart : w.start with
  | none =>
      rw [hstart] at h
      cases w.file <;> exact h.2
  | some start =>
      rw [hstart] at h
      rcases h with ⟨file, first, more, hfile, htailing⟩
      rw [hfile]
      dsimp only
      unfold linesFrom
      rw [htailing.lines, htailing.sent]
      by_cases haligned : LineStart file.content start
      · rw [if_pos haligned]
        constructor
        · refine ⟨first.length, ?_⟩
          rw [List.take_left]
        · intro count hcount hlt
          rw [htailing.returned count hcount hlt, List.append_nil]
      · have hfirst : first = [] := by
          by_contra hne
          exact haligned (htailing.aligned hne)
        rw [if_neg haligned, hfirst, List.nil_append]
        constructor
        · exact ⟨0, rfl⟩
        · intro count hcount hlt
          rw [htailing.returned count hcount hlt]
          rfl

/-- A poll keeps the invariant. -/
theorem LogInv.poll {w w' : LogWorld} (h : LogInv w) {raises : Option ℕ}
    (hreads : ReadsLines w (.poll raises)) (hstep : w.next (.poll raises) = some w') :
    LogInv w' := by
  unfold LogInv at h
  dsimp only [LogWorld.next] at hstep
  cases hfile : w.file with
  | none =>
      rw [hfile, Option.some.injEq] at hstep
      rw [← hstep]
      unfold LogInv
      dsimp only
      cases hstart : w.start with
      | none =>
          rw [hstart] at h
          exact h
      | some start =>
          rw [hstart, hfile] at h
          rcases h with ⟨file, first, more, hnone, -⟩
          cases hnone
  | some file =>
      rw [hfile, Option.some.injEq] at hstep
      have hclean := hreads file hfile
      rw [← hstep]
      unfold LogInv Glass.poll
      dsimp only
      cases hstart : w.start with
      | none =>
          rw [hstart] at h
          rcases h with ⟨hnew, hnothing⟩
          rw [hnew] at hclean ⊢
          rw [hnothing]
          have hprepared := prepare_new file
          have hposition := hprepared.position
          rw [hposition, Option.getD_some] at hclean
          rw [List.flatten_nil, List.length_nil, Nat.add_zero] at hposition
          rw [hposition]
          rcases hprepared.poll hclean rfl with ⟨first, more, htailing⟩
          exact ⟨file, first, more, rfl, htailing⟩
      | some start =>
          rw [hstart, hfile] at h
          rcases h with ⟨file', first, more, hsome, htailing⟩
          cases hsome
          rw [htailing.prepare] at hclean ⊢
          rw [htailing.position, Option.getD_some] at hclean
          rcases htailing.poll hclean rfl with ⟨first', more', hafter⟩
          exact ⟨file, first', more', rfl, hafter⟩

/-- One step keeps the invariant. -/
theorem LogInv.step {w w' : LogWorld} (h : LogInv w) {e : LogStep} (hreads : ReadsLines w e)
    (hstep : w.next e = some w') : LogInv w' := by
  cases e with
  | poll raises => exact h.poll hreads hstep
  | create identity =>
      unfold LogInv at h
      dsimp only [LogWorld.next] at hstep
      cases hfile : w.file with
      | some file =>
          rw [hfile] at hstep
          cases hstep
      | none =>
          rw [hfile, Option.some.injEq] at hstep
          rw [← hstep]
          unfold LogInv
          dsimp only
          cases hstart : w.start with
          | none =>
              rw [hstart] at h
              exact h
          | some start =>
              rw [hstart, hfile] at h
              rcases h with ⟨file, first, more, hnone, -⟩
              cases hnone
  | append bytes =>
      unfold LogInv at h
      dsimp only [LogWorld.next] at hstep
      cases hfile : w.file with
      | none =>
          rw [hfile] at hstep
          cases hstep
      | some file =>
          rw [hfile, Option.some.injEq] at hstep
          rw [← hstep]
          unfold LogInv
          dsimp only
          cases hstart : w.start with
          | none =>
              rw [hstart] at h
              exact h
          | some start =>
              rw [hstart, hfile] at h
              rcases h with ⟨file', first, more, hsome, htailing⟩
              cases hsome
              rcases htailing.append bytes with ⟨more', hgrown⟩
              exact ⟨_, first, more', rfl, hgrown⟩

/-- In every run whose polls find lines, the frames sent are those of the lines of the file from
the initial position on. -/
theorem log_law {w : LogWorld} (h : (logSystem.restrict ReadsLines).Reachable w) : LogLaw w := by
  have hinv : LogInv w := by
    apply h.invariant
    · rintro w ⟨file, rfl⟩
      exact ⟨rfl, rfl⟩
    · intro w e w' _ hw hstep
      exact hw.step hstep.1 hstep.2
  exact hinv.law

/-- A line, and the beginning of another one. -/
def lineAndHalf : LogFile where
  identity := (1, 1)
  content := [97, 98, 10, 99, 100]

theorem pollClean_lineAndHalf : PollClean lineAndHalf.content 0 runtimeLogBatchLines := by
  have hfound : Lib.lines isNewline (lineAndHalf.content.drop 0) = [[97, 98, 10]] := by decide
  unfold PollClean
  dsimp only
  rw [hfound]
  refine ⟨fun _ _ => .inl rfl, ?_, ?_⟩
  · intro line hline i hi hlt
    rw [List.mem_singleton.mp (List.mem_of_mem_take hline)] at hlt
    have hmax : runtimeLogMaxLineBytes ≤ i * runtimeLogMaxLineBytes := Nat.le_mul_of_pos_left _ hi
    simp only [runtimeLogMaxLineBytes, List.length_cons, List.length_nil] at hlt hmax
    omega
  · intro _
    constructor
    · decide
    · decide

/-- A poll of that file sends the line. -/
theorem log_law_lineAndHalf :
    ∃ w, (LogWorld.initial (some lineAndHalf)).next (.poll none) = some w ∧
      w.sent = [lineFrame [97, 98, 10]] ∧ LogLaw w := by
  have hreads : ReadsLines (LogWorld.initial (some lineAndHalf)) (.poll none) := by
    intro file hfile
    cases hfile
    have hposition : (prepare (LogWorld.initial (some lineAndHalf)).tailer lineAndHalf).position =
        some 0 := by
      decide +kernel
    rw [hposition]
    exact pollClean_lineAndHalf
  have hinit : (logSystem.restrict ReadsLines).Reachable (LogWorld.initial (some lineAndHalf)) :=
    .init ⟨_, rfl⟩
  exact ⟨_, rfl, by decide +kernel, log_law (hinit.step ⟨hreads, rfl⟩)⟩

/-- No more frames than lines. -/
theorem LogLaw.length_le {w : LogWorld} (h : LogLaw w) (hfile : w.file = some file)
    (hstart : w.start = some start) :
    w.sent.length ≤ (linesFrom file.content start).length := by
  unfold LogLaw at h
  rw [hfile, hstart] at h
  rcases h.1 with ⟨count, hsent⟩
  rw [hsent, List.length_map, List.length_take]
  exact Nat.min_le_right _ _

/-- A line that is written in two halves, the first one up to a carriage return, with a poll behind
each: the two halves are sent as two lines. -/
theorem two_halves_sent :
    ∃ w, logSystem.Reachable w ∧
      w.sent = [logFrameOf [97, 13] 0, logFrameOf [98, 10] 0] ∧ ¬ LogLaw w := by
  have hplay : TransitionSystem.play LogWorld.next (LogWorld.initial (some ⟨(1, 1), []⟩))
      [.append [97, 13], .poll none, .append [98, 10], .poll none] = some _ := rfl
  have hinit : logSystem.Reachable (LogWorld.initial (some ⟨(1, 1), []⟩)) := .init ⟨_, rfl⟩
  refine ⟨_, hinit.play (fun _ _ _ h => h) hplay, by decide +kernel, ?_⟩
  intro hlaw
  have hle := @LogLaw.length_le ⟨(1, 1), [97, 13, 98, 10]⟩ 0 _ hlaw rfl (by decide +kernel)
  revert hle
  decide +kernel

end Runs

end Glass
end Stemcell
