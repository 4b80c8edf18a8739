import Stemcell.Interface.Json

/-!
# Decoding a value out of a text

Private tool calls are found by decoding JSON wherever a brace opens.  This module has the decoder
of the standard library: it reads one value from the front of a text and says how much it took.

Main results:

- Definition `rawDecode`: the value at the front of a text.
- Theorem `decode_fuel`: the length of the text is fuel enough.
- Theorem `decode_suffix`: what is left behind a value is the end of the text.

Current gaps:

- Floats keep their numeral; nesting is not limited.
-/

namespace Stemcell
namespace Progress

open Interface (Json)

/-! ## Strings -/

/-- The value of a hexadecimal digit. -/
def hexDigit (c : Char) : Option Nat :=
  if '0' ≤ c ∧ c ≤ '9' then some (c.toNat - '0'.toNat)
  else if 'a' ≤ c ∧ c ≤ 'f' then some (c.toNat - 'a'.toNat + 10)
  else if 'A' ≤ c ∧ c ≤ 'F' then some (c.toNat - 'A'.toNat + 10)
  else none

/-- Four hexadecimal digits. -/
def hexUnit (a b c d : Char) : Option Nat :=
  match hexDigit a, hexDigit b, hexDigit c, hexDigit d with
  | some a, some b, some c, some d => some (((a * 16 + b) * 16 + c) * 16 + d)
  | _, _, _, _ => none

/-- What may follow a backslash, and the character it stands for. -/
def escapes : List (Char × Nat) :=
  [('"', 34), ('\\', 92), ('/', 47), ('b', 8), ('f', 12), ('n', 10), ('r', 13), ('t', 9)]

/-- The code units up to the closing quote, and the rest of the text.  Control characters have to
be escaped. -/
def decodeString : List Char → Option (List Nat × List Char)
  | [] => none
  | c :: rest =>
      if c = '"' then some ([], rest)
      else if c ≠ '\\' then
        if c.toNat < 32 then none
        else (decodeString rest).map fun (units, rest) => (c.toNat :: units, rest)
      else
        match rest with
        | [] => none
        | letter :: rest =>
            if letter ≠ 'u' then
              match escapes.find? fun pair => pair.1 = letter with
              | none => none
              | some (_, unit) => (decodeString rest).map fun (units, rest) => (unit :: units, rest)
            else
              match rest with
              | a :: b :: c :: d :: rest =>
                  match hexUnit a b c d with
                  | none => none
                  | some unit =>
                      (decodeString rest).map fun (units, rest) => (unit :: units, rest)
              | _ => none

/-- Two halves of a pair make one character.  Half a pair, which is in no name the source looks
for, becomes a null character. -/
def joinUnits : List Nat → List Char
  | [] => []
  | [unit] => [Char.ofNat unit]
  | high :: low :: rest =>
      if 0xd800 ≤ high ∧ high < 0xdc00 ∧ 0xdc00 ≤ low ∧ low < 0xe000 then
        Char.ofNat (0x10000 + (high - 0xd800) * 0x400 + (low - 0xdc00)) :: joinUnits rest
      else Char.ofNat high :: joinUnits (low :: rest)

/-- The text of code units. -/
def textOf (units : List Nat) : String := String.ofList (joinUnits units)

/-! ## Numbers and names -/

/-- A decimal digit. -/
def isDigit (c : Char) : Bool := decide ('0' ≤ c ∧ c ≤ '9')

/-- The most digits that `int` converts. -/
def maxIntDigits : Nat := 4300

/-- The digits of a fraction with their point, if there are any. -/
def fraction : List Char → List Char × List Char
  | '.' :: rest =>
      if rest.takeWhile isDigit = [] then ([], '.' :: rest)
      else ('.' :: rest.takeWhile isDigit, rest.dropWhile isDigit)
  | text => ([], text)

/-- The exponent with its letter, if there is one. -/
def exponent (text : List Char) : List Char × List Char :=
  match text with
  | [] => ([], [])
  | letter :: rest =>
      if letter = 'e' ∨ letter = 'E' then
        let (sign, digits) :=
          match rest with
          | '+' :: digits => (['+'], digits)
          | '-' :: digits => (['-'], digits)
          | digits => ([], digits)
        if digits.takeWhile isDigit = [] then ([], text)
        else (letter :: sign ++ digits.takeWhile isDigit, digits.dropWhile isDigit)
      else ([], text)

/-- The number that digits write. -/
def digitsValue (digits : List Char) : Nat :=
  digits.foldl (fun n c => n * 10 + (c.toNat - '0'.toNat)) 0

/-- A number without its sign. -/
def decodeUnsigned (negative : Bool) (text : List Char) : Option (Json × List Char) :=
  let (digits, rest) :=
    match text with
    | '0' :: rest => (['0'], rest)
    | _ => (text.takeWhile isDigit, text.dropWhile isDigit)
  if digits = [] then none
  else
    let (fractionDigits, rest) := fraction rest
    let (exponentDigits, rest) := exponent rest
    if fractionDigits = [] ∧ exponentDigits = [] then
      if maxIntDigits < digits.length then none
      else
        some (.int (if negative then -digitsValue digits else digitsValue digits), rest)
    else
      some (.float (String.ofList ((if negative then ['-'] else []) ++ digits ++ fractionDigits ++
        exponentDigits)) (digits ++ fractionDigits |>.all fun c => c = '0' ∨ c = '.'), rest)

/-- What is left of a text after a word at its front. -/
def after : List Char → List Char → Option (List Char)
  | [], text => some text
  | _ :: _, [] => none
  | w :: word, c :: text => if w = c then after word text else none

/-- The names of constants, and what they stand for. -/
def constants : List (List Char × Json) :=
  [("null".toList, .null), ("true".toList, .bool true), ("false".toList, .bool false),
    ("NaN".toList, .float "nan" false), ("Infinity".toList, .float "inf" false),
    ("-Infinity".toList, .float "-inf" false)]

/-- A constant or a number. -/
def decodeScalar (text : List Char) : Option (Json × List Char) :=
  match constants.findSome? fun (name, value) => (after name text).map fun rest => (value, rest) with
  | some decoded => some decoded
  | none =>
      match text with
      | '-' :: rest => decodeUnsigned true rest
      | _ => decodeUnsigned false text

/-! ## Values -/

/-- White space between the parts of a value. -/
def skipSpace (text : List Char) : List Char :=
  text.dropWhile fun c => c = ' ' ∨ c = '\t' ∨ c = '\n' ∨ c = '\r'

/-- What is being read: a value, an object from a key on, or an array from behind an item on. -/
inductive Reading
  | value
  | members (fields : List (String × Json))
  | items (items : List Json)

/-- One value, or what is left of one.  A later member of an object replaces one of the same key.
Every call takes a character before the next. -/
def decode : Nat → Reading → List Char → Option (Json × List Char)
  | 0, _, _ => none
  | fuel + 1, .value, text =>
      match text with
      | [] => none
      | c :: rest =>
          if c = '"' then
            (decodeString rest).map fun (units, rest) => (.str (textOf units), rest)
          else if c = '{' then
            match after ['}'] (skipSpace rest) with
            | some rest => some (.obj [], rest)
            | none => decode fuel (.members []) (skipSpace rest)
          else if c = '[' then
            match after [']'] (skipSpace rest) with
            | some rest => some (.arr [], rest)
            | none =>
                (decode fuel .value (skipSpace rest)).bind fun (value, rest) =>
                  decode fuel (.items [value]) (skipSpace rest)
          else decodeScalar text
  | fuel + 1, .members fields, text =>
      ((after ['"'] text).bind decodeString).bind fun (units, rest) =>
        (after [':'] (skipSpace rest)).bind fun rest =>
          (decode fuel .value (skipSpace rest)).bind fun (value, rest) =>
            let fields := fields.filter (fun field => field.1 ≠ textOf units) ++
              [(textOf units, value)]
            match skipSpace rest with
            | [] => none
            | c :: rest =>
                if c = ',' then decode fuel (.members fields) (skipSpace rest)
                else if c = '}' then some (.obj fields, rest)
                else none
  | fuel + 1, .items items, text =>
      match text with
      | [] => none
      | c :: rest =>
          if c = ',' then
            (decode fuel .value (skipSpace rest)).bind fun (value, rest) =>
              decode fuel (.items (items ++ [value])) (skipSpace rest)
          else if c = ']' then some (.arr items, rest)
          else none

/-! ## Enough fuel -/

theorem skipSpace_length (text : List Char) : (skipSpace text).length ≤ text.length :=
  (List.dropWhile_sublist _).length_le

theorem after_length {word text rest : List Char} (h : after word text = some rest) :
    rest.length + word.length = text.length := by
  induction word generalizing text with
  | nil =>
      cases h
      rfl
  | cons w word ih =>
      cases text with
      | nil => cases h
      | cons c text =>
          unfold after at h
          split at h
          · have hrest := ih h
            simp only [List.length_cons]
            omega
          · cases h

/-- Reading on takes what the rest takes. -/
theorem decodeString_map {tail rest : List Char} {unit : Nat} {units : List Nat}
    (ih : ∀ units rest, decodeString tail = some (units, rest) → rest.length < tail.length)
    (h : (decodeString tail).map (fun (units, rest) => (unit :: units, rest)) =
      some (units, rest)) : rest.length < tail.length := by
  rcases Option.map_eq_some_iff.mp h with ⟨⟨units', rest'⟩, htail, heq⟩
  cases heq
  exact ih _ _ htail

/-- A string takes its closing quote at least. -/
theorem decodeString_shorter {text rest : List Char} {units : List Nat}
    (h : decodeString text = some (units, rest)) : rest.length < text.length := by
  fun_induction decodeString text generalizing units rest with
  | case1 => cases h
  | case2 =>
      cases h
      exact Nat.lt_succ_self _
  | case3 => cases h
  | case4 c tail _ _ _ ih =>
      have hlt := decodeString_map (fun _ _ => ih) h
      simp only [List.length_cons]
      omega
  | case5 => cases h
  | case6 => cases h
  | case7 =>
      rename_i ih
      have hlt := decodeString_map (fun _ _ => ih) h
      simp only [List.length_cons]
      omega
  | case8 => cases h
  | case9 =>
      rename_i ih
      have hlt := decodeString_map (fun _ _ => ih) h
      simp only [List.length_cons]
      omega
  | case10 => cases h

theorem dropWhile_length (p : Char → Bool) (text : List Char) :
    (text.dropWhile p).length + (text.takeWhile p).length = text.length := by
  have h := congrArg List.length (List.takeWhile_append_dropWhile (p := p) (l := text))
  rw [List.length_append] at h
  omega

theorem fraction_length (text : List Char) : (fraction text).2.length ≤ text.length := by
  unfold fraction
  split
  · split
    · exact Nat.le_refl _
    · exact Nat.le_trans (List.dropWhile_sublist _).length_le (Nat.le_succ _)
  · exact Nat.le_refl _

theorem exponent_length (text : List Char) : (exponent text).2.length ≤ text.length := by
  unfold exponent
  split
  · exact Nat.le_refl _
  · rename_i letter rest
    split_ifs
    · split
      rename_i sign digits hsign
      have hdigits : digits.length ≤ rest.length := by
        split at hsign <;> cases hsign
        · exact Nat.le_succ _
        · exact Nat.le_succ _
        · exact Nat.le_refl _
      split_ifs
      · exact Nat.le_refl _
      · have hdrop := (List.dropWhile_sublist isDigit (l := digits)).length_le
        simp only [List.length_cons]
        omega
    · exact Nat.le_refl _

/-- A number has a digit. -/
theorem decodeUnsigned_shorter {negative : Bool} {text rest : List Char} {value : Json}
    (h : decodeUnsigned negative text = some (value, rest)) : rest.length < text.length := by
  unfold decodeUnsigned at h
  split at h
  rename_i digits tail hdigits
  have htail : digits.length + tail.length = text.length := by
    split at hdigits <;> cases hdigits
    · simp only [List.length_cons, List.length_nil]
      omega
    · have hsum := dropWhile_length isDigit text
      omega
  have hempty : digits ≠ [] := by
    rintro rfl
    cases h
  have hpos := List.length_pos_of_ne_nil hempty
  rw [if_neg hempty] at h
  have hfraction := fraction_length tail
  have hexponent := exponent_length (fraction tail).2
  rcases fraction tail with ⟨fractionDigits, later⟩
  dsimp only at h hfraction hexponent
  rcases exponent later with ⟨exponentDigits, last⟩
  split_ifs at h <;> cases h <;> omega

/-- A constant or a number takes a character at least. -/
theorem decodeScalar_shorter {text rest : List Char} {value : Json}
    (h : decodeScalar text = some (value, rest)) : rest.length < text.length := by
  unfold decodeScalar at h
  split at h
  · rename_i decoded hfound
    cases h
    rcases List.exists_of_findSome?_eq_some hfound with ⟨⟨name, constant⟩, hmem, hafter⟩
    rcases Option.map_eq_some_iff.mp hafter with ⟨tail, htail, heq⟩
    cases heq
    have hlength := after_length htail
    have hname : 0 < name.length := by
      simp only [constants, List.mem_cons, Prod.mk.injEq, List.not_mem_nil, or_false] at hmem
      rcases hmem with ⟨rfl, -⟩ | ⟨rfl, -⟩ | ⟨rfl, -⟩ | ⟨rfl, -⟩ | ⟨rfl, -⟩ | ⟨rfl, -⟩ <;> decide
    omega
  · split at h
    · exact Nat.lt_succ_of_lt (decodeUnsigned_shorter h)
    · exact decodeUnsigned_shorter h

/-- What is read takes a character at least. -/
theorem decode_shorter {fuel : Nat} {reading : Reading} {text rest : List Char} {value : Json}
    (h : decode fuel reading text = some (value, rest)) : rest.length < text.length := by
  induction fuel generalizing reading text rest value with
  | zero => cases h
  | succ fuel ih =>
      cases reading with
      | value =>
          cases text with
          | nil => cases h
          | cons c tail =>
              have hspace := skipSpace_length tail
              simp only [decode] at h
              split_ifs at h
              · rcases Option.map_eq_some_iff.mp h with ⟨⟨units, tail'⟩, hstring, heq⟩
                cases heq
                exact Nat.lt_succ_of_lt (decodeString_shorter hstring)
              · split at h
                · rename_i tail' hafter
                  cases h
                  have hlength := after_length hafter
                  simp only [List.length_cons] at hlength ⊢
                  omega
                · have hlt := ih h
                  simp only [List.length_cons]
                  omega
              · split at h
                · rename_i tail' hafter
                  cases h
                  have hlength := after_length hafter
                  simp only [List.length_cons] at hlength ⊢
                  omega
                · rcases Option.bind_eq_some_iff.mp h with ⟨⟨item, tail'⟩, hitem, hitems⟩
                  have hfirst := ih hitem
                  have hlater := ih hitems
                  have hbetween := skipSpace_length tail'
                  simp only [List.length_cons] at hlater ⊢
                  omega
              · exact decodeScalar_shorter h
      | members fields =>
          simp only [decode] at h
          rcases Option.bind_eq_some_iff.mp h with ⟨⟨units, tail⟩, hkey, h⟩
          rcases Option.bind_eq_some_iff.mp hkey with ⟨quoted, hquote, hstring⟩
          rcases Option.bind_eq_some_iff.mp h with ⟨behind, hcolon, h⟩
          rcases Option.bind_eq_some_iff.mp h with ⟨⟨member, left⟩, hmember, h⟩
          have hquoted := after_length hquote
          have hunits := decodeString_shorter hstring
          have hbehind := after_length hcolon
          have htaken := ih hmember
          have hfirst := skipSpace_length tail
          have hsecond := skipSpace_length behind
          have hthird := skipSpace_length left
          simp only [List.length_cons, List.length_nil] at h hquoted hbehind
          split at h
          · cases h
          · rename_i c later hleft
            rw [hleft, List.length_cons] at hthird
            split_ifs at h
            · have hlater := ih h
              have hfourth := skipSpace_length later
              omega
            · cases h
              omega
      | items items =>
          cases text with
          | nil => cases h
          | cons c tail =>
              have hspace := skipSpace_length tail
              simp only [decode] at h
              split_ifs at h
              · rcases Option.bind_eq_some_iff.mp h with ⟨⟨item, tail'⟩, hitem, hitems⟩
                have hfirst := ih hitem
                have hlater := ih hitems
                have hbetween := skipSpace_length tail'
                simp only [List.length_cons] at hlater ⊢
                omega
              · cases h
                exact Nat.lt_succ_self _

/-- The length of the text is fuel enough: more changes nothing. -/
theorem decode_fuel {fuel : Nat} {reading : Reading} {text : List Char}
    (h : text.length < fuel) : decode (fuel + 1) reading text = decode fuel reading text := by
  induction fuel generalizing reading text with
  | zero => exact absurd h (Nat.not_lt_zero _)
  | succ fuel ih =>
      have hshort : ∀ {reading : Reading} {later : List Char}, later.length < text.length →
          decode (fuel + 1) reading later = decode fuel reading later := by
        intro reading later hlater
        apply ih
        omega
      cases reading with
      | value =>
          cases text with
          | nil => rfl
          | cons c tail =>
              have hspace := skipSpace_length tail
              have hfirst : ∀ {reading : Reading}, decode (fuel + 1) reading (skipSpace tail) =
                  decode fuel reading (skipSpace tail) := by
                intro reading
                apply hshort
                simp only [List.length_cons]
                omega
              conv_lhs => unfold decode
              conv_rhs => unfold decode
              dsimp only
              rw [hfirst, hfirst]
              split_ifs
              · rfl
              · rfl
              · cases after [']'] (skipSpace tail) with
                | some rest => rfl
                | none =>
                    apply Option.bind_congr
                    rintro ⟨item, later⟩ hitem
                    have hlater := decode_shorter hitem
                    have hbetween := skipSpace_length later
                    apply hshort
                    simp only [List.length_cons]
                    omega
              · rfl
      | members fields =>
          conv_lhs => unfold decode
          conv_rhs => unfold decode
          dsimp only
          apply Option.bind_congr
          rintro ⟨units, tail⟩ hkey
          rcases Option.bind_eq_some_iff.mp hkey with ⟨quoted, hquote, hstring⟩
          apply Option.bind_congr
          rintro behind hcolon
          have hquoted := after_length hquote
          have hunits := decodeString_shorter hstring
          have hbehind := after_length hcolon
          have htail := skipSpace_length tail
          have hspace := skipSpace_length behind
          simp only [List.length_cons, List.length_nil] at hquoted hbehind
          have hvalue : decode (fuel + 1) .value (skipSpace behind) =
              decode fuel .value (skipSpace behind) := by
            apply hshort
            omega
          rw [hvalue]
          apply Option.bind_congr
          rintro ⟨member, left⟩ hmember
          have htaken := decode_shorter hmember
          have hleft := skipSpace_length left
          dsimp only
          cases hend : skipSpace left with
          | nil => rfl
          | cons c later =>
              dsimp only
              split_ifs
              · rw [hend, List.length_cons] at hleft
                have hlater := skipSpace_length later
                apply hshort
                omega
              · rfl
              · rfl
      | items items =>
          cases text with
          | nil => rfl
          | cons c tail =>
              have hspace := skipSpace_length tail
              conv_lhs => unfold decode
              conv_rhs => unfold decode
              dsimp only
              split_ifs
              · have hvalue : decode (fuel + 1) .value (skipSpace tail) =
                    decode fuel .value (skipSpace tail) := by
                  apply hshort
                  simp only [List.length_cons]
                  omega
                rw [hvalue]
                apply Option.bind_congr
                rintro ⟨item, later⟩ hitem
                have hlater := decode_shorter hitem
                have hbetween := skipSpace_length later
                apply hshort
                simp only [List.length_cons]
                omega
              · rfl
              · rfl

/-! ## What is left -/

theorem after_suffix {word text rest : List Char} (h : after word text = some rest) :
    rest <:+ text := by
  induction word generalizing text with
  | nil =>
      cases h
      exact List.suffix_rfl
  | cons w word ih =>
      cases text with
      | nil => cases h
      | cons c text =>
          unfold after at h
          split at h
          · exact (ih h).trans (List.suffix_cons c text)
          · cases h

theorem skipSpace_suffix (text : List Char) : skipSpace text <:+ text :=
  List.dropWhile_suffix _

theorem decodeString_suffix {text rest : List Char} {units : List Nat}
    (h : decodeString text = some (units, rest)) : rest <:+ text := by
  have hmap {tail : List Char} {unit : Nat} {units : List Nat}
      (ih : ∀ units, decodeString tail = some (units, rest) → rest <:+ tail)
      (h : (decodeString tail).map (fun (units, rest) => (unit :: units, rest)) =
        some (units, rest)) : rest <:+ tail := by
    rcases Option.map_eq_some_iff.mp h with ⟨⟨units', rest'⟩, htail, heq⟩
    cases heq
    exact ih _ htail
  fun_induction decodeString text generalizing units with
  | case1 => cases h
  | case2 =>
      cases h
      exact List.suffix_cons _ _
  | case3 => cases h
  | case4 c tail _ _ _ ih => exact (hmap (fun _ => ih) h).trans (List.suffix_cons _ _)
  | case5 => cases h
  | case6 => cases h
  | case7 =>
      rename_i ih
      exact (hmap (fun _ => ih) h).trans ((List.suffix_cons _ _).trans (List.suffix_cons _ _))
  | case8 => cases h
  | case9 =>
      rename_i ih
      refine (hmap (fun _ => ih) h).trans ?_
      exact ⟨[_, _, _, _, _, _], rfl⟩
  | case10 => cases h

theorem fraction_suffix (text : List Char) : (fraction text).2 <:+ text := by
  unfold fraction
  split
  · split
    · exact List.suffix_rfl
    · exact (List.dropWhile_suffix _).trans (List.suffix_cons _ _)
  · exact List.suffix_rfl

theorem exponent_suffix (text : List Char) : (exponent text).2 <:+ text := by
  unfold exponent
  split
  · exact List.suffix_rfl
  · rename_i letter rest
    split_ifs
    · split
      rename_i sign digits hsign
      have hdigits : digits <:+ rest := by
        split at hsign <;> cases hsign
        · exact List.suffix_cons _ _
        · exact List.suffix_cons _ _
        · exact List.suffix_rfl
      split_ifs
      · exact List.suffix_rfl
      · exact ((List.dropWhile_suffix _).trans hdigits).trans (List.suffix_cons _ _)
    · exact List.suffix_rfl

theorem decodeUnsigned_suffix {negative : Bool} {text rest : List Char} {value : Json}
    (h : decodeUnsigned negative text = some (value, rest)) : rest <:+ text := by
  unfold decodeUnsigned at h
  split at h
  rename_i digits tail hdigits
  have htail : tail <:+ text := by
    split at hdigits <;> cases hdigits
    · exact List.suffix_cons _ _
    · exact List.dropWhile_suffix _
  have hfraction := fraction_suffix tail
  have hexponent := exponent_suffix (fraction tail).2
  rcases fraction tail with ⟨fractionDigits, later⟩
  dsimp only at h hfraction hexponent
  rcases exponent later with ⟨exponentDigits, last⟩
  have hlast := (hexponent.trans hfraction).trans htail
  split_ifs at h <;> cases h <;> exact hlast

theorem decodeScalar_suffix {text rest : List Char} {value : Json}
    (h : decodeScalar text = some (value, rest)) : rest <:+ text := by
  unfold decodeScalar at h
  split at h
  · rename_i decoded hfound
    cases h
    rcases List.exists_of_findSome?_eq_some hfound with ⟨⟨name, constant⟩, -, hafter⟩
    rcases Option.map_eq_some_iff.mp hafter with ⟨tail, htail, heq⟩
    cases heq
    exact after_suffix htail
  · split at h
    · exact (decodeUnsigned_suffix h).trans (List.suffix_cons _ _)
    · exact decodeUnsigned_suffix h

/-- What is left behind a value is the end of the text. -/
theorem decode_suffix {fuel : Nat} {reading : Reading} {text rest : List Char} {value : Json}
    (h : decode fuel reading text = some (value, rest)) : rest <:+ text := by
  induction fuel generalizing reading text rest value with
  | zero => cases h
  | succ fuel ih =>
      cases reading with
      | value =>
          cases text with
          | nil => cases h
          | cons c tail =>
              have htail := (skipSpace_suffix tail).trans (List.suffix_cons c tail)
              simp only [decode] at h
              split_ifs at h
              · rcases Option.map_eq_some_iff.mp h with ⟨⟨units, tail'⟩, hstring, heq⟩
                cases heq
                exact (decodeString_suffix hstring).trans (List.suffix_cons _ _)
              · split at h
                · rename_i tail' hafter
                  cases h
                  exact (after_suffix hafter).trans htail
                · exact (ih h).trans htail
              · split at h
                · rename_i tail' hafter
                  cases h
                  exact (after_suffix hafter).trans htail
                · rcases Option.bind_eq_some_iff.mp h with ⟨⟨item, tail'⟩, hitem, hitems⟩
                  exact ((ih hitems).trans (skipSpace_suffix tail')).trans ((ih hitem).trans htail)
              · exact decodeScalar_suffix h
      | members fields =>
          simp only [decode] at h
          rcases Option.bind_eq_some_iff.mp h with ⟨⟨units, tail⟩, hkey, h⟩
          rcases Option.bind_eq_some_iff.mp hkey with ⟨quoted, hquote, hstring⟩
          rcases Option.bind_eq_some_iff.mp h with ⟨behind, hcolon, h⟩
          rcases Option.bind_eq_some_iff.mp h with ⟨⟨member, left⟩, hmember, h⟩
          have hbehind : behind <:+ text :=
            ((after_suffix hcolon).trans (skipSpace_suffix tail)).trans
              ((decodeString_suffix hstring).trans (after_suffix hquote))
          have hleft : skipSpace left <:+ text :=
            ((skipSpace_suffix left).trans (ih hmember)).trans
              ((skipSpace_suffix behind).trans hbehind)
          dsimp only at h
          split at h
          · cases h
          · rename_i c later hcons
            rw [hcons] at hleft
            have hlater := (List.suffix_cons c later).trans hleft
            split_ifs at h
            · exact (ih h).trans ((skipSpace_suffix later).trans hlater)
            · cases h
              exact hlater
      | items items =>
          cases text with
          | nil => cases h
          | cons c tail =>
              have htail := (skipSpace_suffix tail).trans (List.suffix_cons c tail)
              simp only [decode] at h
              split_ifs at h
              · rcases Option.bind_eq_some_iff.mp h with ⟨⟨item, tail'⟩, hitem, hitems⟩
                exact ((ih hitems).trans (skipSpace_suffix tail')).trans ((ih hitem).trans htail)
              · cases h
                exact List.suffix_cons _ _

/-! ## The front of a text -/

/-- `JSONDecoder().raw_decode`: the value at the front of a text, and how many characters it
takes. -/
def rawDecode (text : List Char) : Option (Json × Nat) :=
  (decode (text.length + 1) .value text).map fun (value, rest) =>
    (value, text.length - rest.length)

example : (rawDecode "\x7b\"a\": [1, -2e5, \"\\u0041\"]\x7d rest".toList).map Prod.snd = some 26 := by
  decide +kernel

theorem decode_fuel_le {fuel : Nat} {reading : Reading} {text : List Char}
    (h : text.length < fuel) :
    decode fuel reading text = decode (text.length + 1) reading text := by
  induction fuel with
  | zero => exact absurd h (Nat.not_lt_zero _)
  | succ fuel ih =>
      by_cases hlt : text.length < fuel
      · rw [decode_fuel hlt, ih hlt]
      · have hfuel : fuel = text.length := by omega
        rw [hfuel]

/-- What is left behind the value at the front of a text, by the characters it takes. -/
theorem rawDecode_eq_some_iff {text : List Char} {value : Json} {taken : Nat} :
    rawDecode text = some (value, taken) ↔
      ∃ rest, decode (text.length + 1) .value text = some (value, rest) ∧
        0 < taken ∧ text.drop taken = rest ∧ taken = text.length - rest.length := by
  unfold rawDecode
  rw [Option.map_eq_some_iff]
  constructor
  · rintro ⟨⟨value', rest⟩, hdecode, heq⟩
    cases heq
    have hshorter := decode_shorter hdecode
    rcases decode_suffix hdecode with ⟨front, hfront⟩
    have hlength : text.length = front.length + rest.length := by
      rw [← hfront, List.length_append]
    refine ⟨rest, hdecode, by omega, ?_, rfl⟩
    have htaken : text.length - rest.length = front.length := by omega
    rw [htaken, ← hfront, List.drop_left]
  · rintro ⟨rest, hdecode, -, -, rfl⟩
    exact ⟨(value, rest), hdecode, rfl⟩

end Progress
end Stemcell
