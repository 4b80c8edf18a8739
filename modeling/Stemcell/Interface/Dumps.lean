import Stemcell.Interface.Json
import Stemcell.Lib.Dict

/-!
# The text of a frame

Frames go out as `json.dumps(frame, separators=(",", ":"))`, which is ASCII: what is not printable
is escaped.  The size of a frame is the length of that text.

Main results:

- Definition `dumps`: the text of a value.
- Theorem `frameSize_set`: what a new value of a known key changes in the size of a frame.
- Theorem `length_escapeText_bounds`: a text is between one and twelve times as long as it counts.

Current gaps:

- Half pairs of code units are not in a text.
-/

namespace Stemcell
namespace Interface

open Lib

/-! ## Texts -/

def hexDigitOf (n : ℕ) : Char :=
  if n < 10 then Char.ofNat ('0'.toNat + n) else Char.ofNat ('a'.toNat + (n - 10))

/-- One code unit as an escape. -/
def escapeUnit (unit : ℕ) : List Char :=
  ['\\', 'u', hexDigitOf (unit / 0x1000 % 16), hexDigitOf (unit / 0x100 % 16),
    hexDigitOf (unit / 0x10 % 16), hexDigitOf (unit % 16)]

/-- A character in a text, between quotes. -/
def escapeChar (c : Char) : List Char :=
  if c = '"' then ['\\', '"']
  else if c = '\\' then ['\\', '\\']
  else if c = '\n' then ['\\', 'n']
  else if c = '\r' then ['\\', 'r']
  else if c = '\t' then ['\\', 't']
  else if c.toNat = 0x08 then ['\\', 'b']
  else if c.toNat = 0x0c then ['\\', 'f']
  else if 0x20 ≤ c.toNat ∧ c.toNat ≤ 0x7e then [c]
  else if c.toNat < 0x10000 then escapeUnit c.toNat
  else
    escapeUnit (0xd800 + (c.toNat - 0x10000) / 0x400) ++
      escapeUnit (0xdc00 + (c.toNat - 0x10000) % 0x400)

def escapeText (text : List Char) : List Char :=
  text.flatMap escapeChar

def dumpsText (text : String) : List Char :=
  '"' :: (escapeText text.toList ++ ['"'])

/-- A float as JSON prints it. -/
def floatText (text : String) : List Char :=
  if text = "inf" then "Infinity".toList
  else if text = "-inf" then "-Infinity".toList
  else if text = "nan" then "NaN".toList
  else text.toList

mutual

def dumps : Json → List Char
  | .null => "null".toList
  | .bool true => "true".toList
  | .bool false => "false".toList
  | .int value => (toString value).toList
  | .float text _ => floatText text
  | .str text => dumpsText text
  | .arr [] => "[]".toList
  | .arr (item :: rest) => '[' :: (dumps item ++ dumpsItems rest ++ [']'])
  | .obj [] => ['{', '}']
  | .obj ((key, value) :: rest) =>
      '{' :: (dumpsText key ++ ':' :: dumps value ++ dumpsFields rest ++ ['}'])

/-- The items after the first one. -/
def dumpsItems : List Json → List Char
  | [] => []
  | item :: rest => ',' :: (dumps item ++ dumpsItems rest)

/-- The fields after the first one. -/
def dumpsFields : List (String × Json) → List Char
  | [] => []
  | (key, value) :: rest => ',' :: (dumpsText key ++ ':' :: dumps value ++ dumpsFields rest)

end

/-- `len(json.dumps(value, …))`. -/
def dumpsSize (value : Json) : ℕ :=
  (dumps value).length

/-- A frame: a dictionary of the source. -/
abbrev Frame := Dict String Json

def Frame.json (frame : Frame) : Json :=
  .obj frame.entries

/-- `len(json.dumps(frame, …).encode("utf-8"))`. -/
def frameSize (frame : Frame) : ℕ :=
  dumpsSize (Frame.json frame)

/-! ## Sizes -/

/-- What a field takes in a frame, with the comma or brace before it. -/
def fieldSize (key : String) (value : Json) : ℕ :=
  (dumpsText key).length + dumpsSize value + 2

theorem length_dumpsFields (fields : List (String × Json)) :
    (dumpsFields fields).length = (fields.map fun field => fieldSize field.1 field.2).sum := by
  induction fields with
  | nil => simp [dumpsFields]
  | cons field rest ih =>
      rw [dumpsFields, List.map_cons, List.sum_cons, ← ih, fieldSize, dumpsSize]
      simp only [List.length_cons, List.length_append]
      omega

theorem frameSize_eq (frame : Frame) :
    frameSize frame = (frame.entries.map fun field => fieldSize field.1 field.2).sum +
      if frame.entries = [] then 2 else 1 := by
  unfold frameSize dumpsSize Frame.json
  cases hentries : frame.entries with
  | nil => simp [dumps]
  | cons field rest =>
      rw [dumps, List.map_cons, List.sum_cons, ← length_dumpsFields, if_neg (by simp), fieldSize,
        dumpsSize]
      simp only [List.length_cons, List.length_append, List.length_nil]
      omega

theorem sum_setEntries {frame : List (String × Json)} {key : String} {old : Json} (value : Json)
    (hget : Dict.getEntries key frame = some old) :
    ((Dict.setEntries key value frame).map fun field => fieldSize field.1 field.2).sum +
        dumpsSize old =
      (frame.map fun field => fieldSize field.1 field.2).sum + dumpsSize value := by
  induction frame with
  | nil => cases hget
  | cons field rest ih =>
      by_cases hkey : field.1 = key
      · rw [Dict.getEntries, if_pos hkey, Option.some.injEq] at hget
        rw [Dict.setEntries, if_pos hkey, List.map_cons, List.map_cons, List.sum_cons,
          List.sum_cons, ← hget, ← hkey]
        dsimp only [fieldSize]
        omega
      · rw [Dict.getEntries, if_neg hkey] at hget
        have hrest := ih hget
        rw [Dict.setEntries, if_neg hkey, List.map_cons, List.map_cons, List.sum_cons,
          List.sum_cons]
        omega

theorem setEntries_ne_nil (key : String) (value : Json) (frame : List (String × Json)) :
    Dict.setEntries key value frame ≠ [] := by
  cases frame with
  | nil => simp [Dict.setEntries]
  | cons field rest =>
      rw [Dict.setEntries]
      split_ifs <;> simp

/-- A new value of a known key changes the size by the difference of the values. -/
theorem frameSize_set {frame : Frame} {key : String} {old : Json} (value : Json)
    (hget : frame.get? key = some old) :
    frameSize (frame.set key value) + dumpsSize old = frameSize frame + dumpsSize value := by
  have hne : frame.entries ≠ [] := by
    intro hnil
    have hmem := (frame.get?_eq_some_iff key old).mp hget
    rw [hnil] at hmem
    cases hmem
  have hset := sum_setEntries value hget
  rw [frameSize_eq, frameSize_eq, if_neg hne]
  change (List.map _ (Dict.setEntries key value frame.entries)).sum +
    (if Dict.setEntries key value frame.entries = [] then 2 else 1) + _ = _
  rw [if_neg (setEntries_ne_nil key value frame.entries)]
  omega

theorem one_le_length_escapeChar (c : Char) : 1 ≤ (escapeChar c).length := by
  unfold escapeChar escapeUnit
  split_ifs <;> simp

theorem length_escapeChar_le (c : Char) : (escapeChar c).length ≤ 12 := by
  unfold escapeChar escapeUnit
  split_ifs <;> simp

/-- A text is between one and twelve times as long as it counts. -/
theorem length_escapeText_bounds (text : List Char) :
    text.length ≤ (escapeText text).length ∧ (escapeText text).length ≤ 12 * text.length := by
  induction text with
  | nil => simp [escapeText]
  | cons c rest ih =>
      have hlow := one_le_length_escapeChar c
      have hhigh := length_escapeChar_le c
      unfold escapeText at ih ⊢
      rw [List.flatMap_cons, List.length_append, List.length_cons]
      omega

theorem escapeText_append (text more : List Char) :
    escapeText (text ++ more) = escapeText text ++ escapeText more :=
  List.flatMap_append

theorem dumpsSize_str (text : String) :
    dumpsSize (.str text) = (escapeText text.toList).length + 2 := by
  unfold dumpsSize
  rw [dumps, dumpsText]
  simp

/-- Letters are not escaped. -/
theorem length_escapeText_replicate (n : ℕ) (c : Char) (h : escapeChar c = [c]) :
    (escapeText (List.replicate n c)).length = n := by
  induction n with
  | zero => rfl
  | succ n ih =>
      unfold escapeText at ih ⊢
      rw [List.replicate_succ, List.flatMap_cons, h, List.length_append, ih, List.length_singleton,
        Nat.add_comm]

end Interface
end Stemcell
