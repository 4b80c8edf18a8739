import Mathlib.Data.List.Basic

/-!
# Decoded frames

Inbox frames are Python values that `json.loads` made.  This module has the
values, the few lookups the source uses on them, and what the source takes from
Python's standard library.

Main results:

- Definition `firstText`: the first value whose text is not empty.
- Theorem `firstText_eq_empty_iff`: when there is none.
-/

namespace Stemcell
namespace Interface

/-- A decoded value.  A float is kept as Python prints it. -/
inductive Json
  | null
  | bool (value : Bool)
  | int (value : Int)
  | float (text : String) (zero : Bool)
  | str (text : String)
  | arr (items : List Json)
  | obj (fields : List (String × Json))

namespace Json

/-- `value.get(key)` on a dictionary; `None` on anything else. -/
def get (value : Json) (key : String) : Json :=
  match value with
  | obj fields =>
      match fields.find? fun field => field.1 = key with
      | some field => field.2
      | none => null
  | _ => null

/-- `isinstance(value, dict)`. -/
def isObj : Json → Bool
  | obj _ => true
  | _ => false

/-- The items of a list; none for anything else. -/
def items : Json → List Json
  | arr items => items
  | _ => []

/-- `bool(value)`. -/
def truthy : Json → Bool
  | null => false
  | bool value => value
  | int value => value ≠ 0
  | float _ zero => !zero
  | str text => text ≠ ""
  | arr items => !items.isEmpty
  | obj fields => !fields.isEmpty

/-- `value or default`. -/
def orElse (value default : Json) : Json :=
  if value.truthy then value else default

/-- The dictionary with `key` set. -/
def set (value : Json) (key : String) (item : Json) : Json :=
  match value with
  | obj fields => obj (fields.filter (fun field => field.1 ≠ key) ++ [(key, item)])
  | _ => value

end Json

/-- What the source takes from Python's standard library.

`loads` decodes UTF-8 text and parses it; `repr` prints a list or a dictionary,
`lower` maps a text to lower case and `basename` is `Path(name).name`. -/
structure Python where
  loads : List UInt8 → Option Json
  dumps : Json → String
  repr : Json → String
  lower : String → String
  basename : String → String
  sha256 : List UInt8 → String
  sha256_length : ∀ bytes, (sha256 bytes).toList.length = 64
  sha256_hex : ∀ bytes, ∀ c ∈ (sha256 bytes).toList, c ∈ "0123456789abcdef".toList

/-- `str(value)`. -/
def Python.text (py : Python) : Json → String
  | .null => "None"
  | .bool true => "True"
  | .bool false => "False"
  | .int value => toString value
  | .float text _ => text
  | .str text => text
  | value => py.repr value

/-- `_first_text`. -/
def firstText (py : Python) : List Json → String
  | [] => ""
  | .null :: rest => firstText py rest
  | value :: rest => if py.text value = "" then firstText py rest else py.text value

/-- White space for `str.strip`. -/
def isSpace (c : Char) : Bool :=
  c.val ∈ ([0x9, 0xa, 0xb, 0xc, 0xd, 0x1c, 0x1d, 0x1e, 0x1f, 0x20, 0x85, 0xa0, 0x1680, 0x2000,
    0x2001, 0x2002, 0x2003, 0x2004, 0x2005, 0x2006, 0x2007, 0x2008, 0x2009, 0x200a, 0x2028,
    0x2029, 0x202f, 0x205f, 0x3000] : List UInt32)

/-- `text.strip()`. -/
def strip (text : String) : String :=
  String.ofList (((text.toList.dropWhile isSpace).reverse.dropWhile isSpace).reverse)

/-- There is no text exactly if every value is `None` or prints as nothing. -/
theorem firstText_eq_empty_iff (py : Python) (values : List Json) :
    firstText py values = "" ↔ ∀ value ∈ values, value = .null ∨ py.text value = "" := by
  induction values with
  | nil => simp [firstText]
  | cons value rest ih =>
      by_cases hnull : value = .null
      · subst hnull
        simpa [firstText] using ih
      · have hstep : firstText py (value :: rest) =
            if py.text value = "" then firstText py rest else py.text value := by
          cases value with
          | null => exact absurd rfl hnull
          | _ => rfl
        rw [hstep]
        by_cases htext : py.text value = ""
        · simp [htext, hnull, ih]
        · simp [htext, hnull]

end Interface
end Stemcell
