import Stemcell.Manager.Text
import Stemcell.Progress.Claude
import Mathlib.Data.List.Basic

/-!
# Recognising private calls

Before it looks for private calls, the recogniser writes each escaped solidus of a text as a plain
one; what executes the calls decodes the text as it is.  The two find the same calls: the rewriting
changes no brace and keeps every string a string, and a string with a name that is looked for stays
the same.

Main results:

- Definition `Rewriting`: what a rewriting of a text leaves as it is.
- Theorem `Rewriting.decode`: a rewritten text decodes where the text does, and to a value in which
  every private call is kept.
- Theorem `private_recognised`: where a private call is extracted from a text, the text is
  recognised and not shown.

Current gaps:

- The same as for the decoder.
-/

namespace Stemcell
namespace Progress

open Interface (Json isSpace)
open Manager (Texts parseManagerOutput scanTools toolsOf)

/-! ## What reads the text -/

/-- `_rate_limit_reply_text`. -/
def rateLimitReplyText (py : Texts) (output : String) : String :=
  if containsPrivateManagerTool output || containsAdvertisingMemoryReference output then
    "The manager provider is rate-limited. Please try again shortly."
  else if py.redact output 500 = "" then
    "The manager provider is rate-limited. Please try again shortly."
  else py.redact output 500

/-- The texts of the manager with the decoder of the standard library. -/
def decodingTexts (py : Texts) : Texts :=
  { py with rawDecode := rawDecode }

/-! ## What is kept of a value -/

/-- The value names a private tool. -/
def NamesPrivate (value : Json) : Prop :=
  ∃ tool ∈ privateTools, value = .str tool

/-- The value is a private call. -/
def IsPrivateCall (value : Json) : Prop :=
  value.isObj = true ∧ NamesPrivate (value.get "tool")

def HasPrivateCall (value : Json) : Prop :=
  ∃ item ∈ value.items, IsPrivateCall item

/-- The value is a block with a private call among its tools. -/
def IsPrivateBlock (value : Json) : Prop :=
  value.isObj = true ∧ HasPrivateCall (value.get "tools")

/-- What is looked for in one value is also in the other. -/
structure Kept (value value' : Json) : Prop where
  names : NamesPrivate value → NamesPrivate value'
  call : IsPrivateCall value → IsPrivateCall value'
  calls : HasPrivateCall value → HasPrivateCall value'
  block : IsPrivateBlock value → IsPrivateBlock value'

/-- Either nothing has changed, or there was a backslash and now is a solidus. -/
def SameText (text text' : List Char) : Prop :=
  text = text' ∨ '\\' ∈ text ∧ '/' ∈ text'

/-- The same for code units. -/
def SameUnits (units units' : List Nat) : Prop :=
  units = units' ∨ 92 ∈ units ∧ 47 ∈ units'

/-- A rewriting of texts that changes escapes in strings only. -/
structure Rewriting (rewrite : List Char → List Char) : Prop where
  nil : rewrite [] = []
  cons : ∀ c rest, c ≠ '\\' → rewrite (c :: rest) = c :: rewrite rest
  backslash : ∀ rest, ∃ c rest', (c = '\\' ∨ c = '/') ∧ rewrite ('\\' :: rest) = c :: rest'
  brace : ∀ text, (rewrite text).dropWhile (fun c => c ≠ '{') =
    rewrite (text.dropWhile fun c => c ≠ '{')
  string : ∀ text, Option.Rel (fun read read' =>
      SameUnits read.1 read'.1 ∧ read'.2 = rewrite read.2)
    (decodeString text) (decodeString (rewrite text))


/-! ## Strings and values -/

theorem SameUnits.refl (units : List Nat) : SameUnits units units :=
  .inl rfl

theorem SameUnits.cons {units units' : List Nat} (h : SameUnits units units') (unit : Nat) :
    SameUnits (unit :: units) (unit :: units') := by
  rcases h with rfl | ⟨hback, hsolidus⟩
  · exact .inl rfl
  · exact .inr ⟨List.mem_cons_of_mem _ hback, List.mem_cons_of_mem _ hsolidus⟩

theorem SameUnits.trans {units units' units'' : List Nat} (h : SameUnits units units')
    (h' : SameUnits units' units'') : SameUnits units units'' := by
  rcases h with rfl | ⟨hback, hsolidus⟩
  · exact h'
  · rcases h' with rfl | ⟨-, hsolidus'⟩
    · exact .inr ⟨hback, hsolidus⟩
    · exact .inr ⟨hback, hsolidus'⟩

/-- A unit that is no half of a pair is a character of the text. -/
theorem mem_joinUnits {unit : Nat} (hunit : unit < 0xd800) {units : List Nat}
    (h : unit ∈ units) : Char.ofNat unit ∈ joinUnits units := by
  fun_induction joinUnits units with
  | case1 => cases h
  | case2 other =>
      rw [List.mem_singleton] at h ⊢
      rw [h]
  | case3 high low rest hpair ih =>
      rcases List.mem_cons.mp h with rfl | h
      · omega
      · rcases List.mem_cons.mp h with rfl | h
        · omega
        · exact List.mem_cons_of_mem _ (ih h)
  | case4 high low rest hpair ih =>
      rcases List.mem_cons.mp h with rfl | h
      · exact List.mem_cons_self
      · exact List.mem_cons_of_mem _ (ih h)

theorem SameUnits.text {units units' : List Nat} (h : SameUnits units units') :
    SameText (textOf units).toList (textOf units').toList := by
  unfold textOf
  rw [String.toList_ofList, String.toList_ofList]
  rcases h with rfl | ⟨hback, hsolidus⟩
  · exact .inl rfl
  · right
    constructor
    · exact mem_joinUnits (by decide) hback
    · exact mem_joinUnits (by decide) hsolidus

/-- A name without a backslash stays the same. -/
theorem SameText.eq_of_left {name text text' : String} (h : SameText text.toList text'.toList)
    (hname : '\\' ∉ name.toList) (heq : text = name) : text' = name := by
  rcases h with hsame | ⟨hback, -⟩
  · rw [← heq]
    exact (String.ext_iff.mpr hsame).symm
  · rw [heq] at hback
    exact absurd hback hname

/-- A name without a solidus was the same before. -/
theorem SameText.eq_of_right {name text text' : String} (h : SameText text.toList text'.toList)
    (hname : '/' ∉ name.toList) (heq : text' = name) : text = name := by
  rcases h with hsame | ⟨-, hsolidus⟩
  · rw [← heq]
    exact String.ext_iff.mpr hsame
  · rw [heq] at hsolidus
    exact absurd hsolidus hname

theorem Kept.refl (value : Json) : Kept value value :=
  ⟨id, id, id, id⟩

/-- A value that is neither a list nor an object, nor a private name, has nothing to keep. -/
theorem kept_str {text text' : String} (h : SameText text.toList text'.toList) :
    Kept (.str text) (.str text') := by
  constructor
  · rintro ⟨tool, htool, heq⟩
    cases heq
    have hname : ∀ tool ∈ privateTools, '\\' ∉ tool.toList := by decide
    exact ⟨text, htool, congrArg Json.str (h.eq_of_left (hname text htool) rfl)⟩
  · rintro ⟨hobj, -⟩
    cases hobj
  · rintro ⟨item, hitem, -⟩
    cases hitem
  · rintro ⟨hobj, -⟩
    cases hobj

theorem kept_arr {items items' : List Json} (h : ∀ item ∈ items, ∃ item' ∈ items', Kept item item') :
    Kept (.arr items) (.arr items') := by
  constructor
  · rintro ⟨tool, -, heq⟩
    cases heq
  · rintro ⟨hobj, -⟩
    cases hobj
  · rintro ⟨item, hitem, hcall⟩
    rcases h item hitem with ⟨item', hitem', hkept⟩
    exact ⟨item', hitem', hkept.call hcall⟩
  · rintro ⟨hobj, -⟩
    cases hobj

/-- What is looked for under the names that are read is kept. -/
def FieldsKept (fields fields' : List (String × Json)) : Prop :=
  ∀ key ∈ ["tool", "tools"], Kept ((Json.obj fields).get key) ((Json.obj fields').get key)

theorem kept_obj {fields fields' : List (String × Json)} (h : FieldsKept fields fields') :
    Kept (.obj fields) (.obj fields') := by
  constructor
  · rintro ⟨tool, -, heq⟩
    cases heq
  · rintro ⟨-, hnames⟩
    exact ⟨rfl, (h "tool" (by decide)).names hnames⟩
  · rintro ⟨item, hitem, -⟩
    cases hitem
  · rintro ⟨-, hcalls⟩
    exact ⟨rfl, (h "tools" (by decide)).calls hcalls⟩

/-- A later member replaces one of the same key. -/
theorem get_replace (fields : List (String × Json)) (name key : String) (value : Json) :
    (Json.obj (fields.filter (fun field => field.1 ≠ name) ++ [(name, value)])).get key =
      if name = key then value else (Json.obj fields).get key := by
  unfold Json.get
  dsimp only
  rw [List.find?_append]
  by_cases hkey : name = key
  · have hnone : (fields.filter fun field => field.1 ≠ name).find? (fun field => field.1 = key) =
        none := by
      rw [List.find?_eq_none]
      intro field hfield
      have hne := (List.mem_filter.mp hfield).2
      rw [← hkey]
      simpa using hne
    rw [if_pos hkey, hnone, hkey]
    simp
  · have hsame : (fields.filter fun field => field.1 ≠ name).find? (fun field => field.1 = key) =
        fields.find? fun field => field.1 = key := by
      rw [List.find?_filter]
      congr 1
      ext field
      by_cases hfield : field.1 = key
      · have hne : field.1 ≠ name := fun heq => hkey (heq.symm.trans hfield)
        simp [hfield, Ne.symm hkey]
      · simp [hfield]
    rw [if_neg hkey, hsame]
    have hlast : [(name, value)].find? (fun field => field.1 = key) = none := by
      simp [hkey]
    rw [hlast, Option.or_none]

theorem FieldsKept.replace {fields fields' : List (String × Json)} (h : FieldsKept fields fields')
    {name name' : String} (hname : SameText name.toList name'.toList) {value value' : Json}
    (hvalue : Kept value value') :
    FieldsKept (fields.filter (fun field => field.1 ≠ name) ++ [(name, value)])
      (fields'.filter (fun field => field.1 ≠ name') ++ [(name', value')]) := by
  intro key hkey
  have hplain : ∀ key ∈ ["tool", "tools"], '\\' ∉ key.toList ∧ '/' ∉ key.toList := by decide
  rcases hplain key hkey with ⟨hback, hsolidus⟩
  rw [get_replace, get_replace]
  by_cases hsame : name = key
  · rw [if_pos hsame, if_pos (hname.eq_of_left hback hsame)]
    exact hvalue
  · rw [if_neg hsame, if_neg fun heq => hsame (hname.eq_of_right hsolidus heq)]
    exact h key hkey

/-! ## Rewritten texts -/

theorem rel_bind {α β γ δ : Type} {r : α → β → Prop} {s : γ → δ → Prop} {x : Option α}
    {y : Option β} {f : α → Option γ} {g : β → Option δ} (h : Option.Rel r x y)
    (hnext : ∀ a b, r a b → Option.Rel s (f a) (g b)) : Option.Rel s (x.bind f) (y.bind g) := by
  cases h with
  | none => exact .none
  | some hab => exact hnext _ _ hab

section Rewriting

variable {rewrite : List Char → List Char} {text : List Char}

/-- The first character of a rewritten text. -/
theorem Rewriting.head (h : Rewriting rewrite) (c : Char) (rest : List Char) :
    c ≠ '\\' ∧ rewrite (c :: rest) = c :: rewrite rest ∨
      c = '\\' ∧ ∃ d rest', (d = '\\' ∨ d = '/') ∧ rewrite (c :: rest) = d :: rest' := by
  by_cases hc : c = '\\'
  · rw [hc]
    exact .inr ⟨rfl, h.backslash rest⟩
  · exact .inl ⟨hc, h.cons c rest hc⟩

/-- A character that is neither a backslash nor a solidus does not come to the front. -/
theorem Rewriting.head?_ne (h : Rewriting rewrite) {c : Char} (hback : c ≠ '\\')
    (hsolidus : c ≠ '/') (hne : text.head? ≠ some c) : (rewrite text).head? ≠ some c := by
  cases text with
  | nil =>
      rw [h.nil]
      exact hne
  | cons first rest =>
      rcases h.head first rest with ⟨-, hcons⟩ | ⟨rfl, d, rest', hd, hcons⟩
      · rw [hcons]
        exact hne
      · rw [hcons, List.head?_cons, ne_eq, Option.some.injEq]
        rintro rfl
        rcases hd with heq | heq
        · exact hback heq
        · exact hsolidus heq

theorem Rewriting.takeWhile (h : Rewriting rewrite) {p : Char → Bool} (hback : p '\\' = false)
    (hsolidus : p '/' = false) (text : List Char) :
    (rewrite text).takeWhile p = text.takeWhile p := by
  induction text with
  | nil => rw [h.nil]
  | cons c rest ih =>
      rcases h.head c rest with ⟨-, hcons⟩ | ⟨rfl, d, rest', hd, hcons⟩
      · rw [hcons, List.takeWhile_cons, List.takeWhile_cons, ih]
      · have hstop : p d = false := by
          rcases hd with rfl | rfl
          · exact hback
          · exact hsolidus
        rw [hcons, List.takeWhile_cons, List.takeWhile_cons, hstop, hback]
        rfl

theorem Rewriting.dropWhile (h : Rewriting rewrite) {p : Char → Bool} (hback : p '\\' = false)
    (hsolidus : p '/' = false) (text : List Char) :
    (rewrite text).dropWhile p = rewrite (text.dropWhile p) := by
  induction text with
  | nil => rw [h.nil, List.dropWhile_nil, h.nil]
  | cons c rest ih =>
      rcases h.head c rest with ⟨-, hcons⟩ | ⟨rfl, d, rest', hd, hcons⟩
      · rw [hcons, List.dropWhile_cons, List.dropWhile_cons, ih]
        by_cases hp : p c = true
        · rw [if_pos hp, if_pos hp]
        · rw [if_neg hp, if_neg hp, hcons]
      · have hstop : p d = false := by
          rcases hd with rfl | rfl
          · exact hback
          · exact hsolidus
        rw [hcons, List.dropWhile_cons, List.dropWhile_cons, hstop, hback, if_neg Bool.false_ne_true,
          if_neg Bool.false_ne_true, hcons]

theorem Rewriting.skipSpace (h : Rewriting rewrite) (text : List Char) :
    skipSpace (rewrite text) = rewrite (skipSpace text) := by
  unfold Progress.skipSpace
  exact h.dropWhile (by decide) (by decide) text

/-- A word without escapes stands at the front of both texts or of none. -/
theorem Rewriting.after (h : Rewriting rewrite) {word : List Char} (hback : '\\' ∉ word)
    (hsolidus : '/' ∉ word) (text : List Char) :
    after word (rewrite text) = (after word text).map rewrite := by
  induction word generalizing text with
  | nil => rfl
  | cons w word ih =>
      rw [List.mem_cons, not_or] at hback hsolidus
      cases text with
      | nil =>
          rw [h.nil]
          rfl
      | cons c rest =>
          rcases h.head c rest with ⟨-, hcons⟩ | ⟨rfl, d, rest', hd, hcons⟩
          · rw [hcons, Progress.after, Progress.after]
            by_cases hw : w = c
            · rw [if_pos hw, if_pos hw]
              exact ih hback.2 hsolidus.2 rest
            · rw [if_neg hw, if_neg hw]
              rfl
          · have hne : w ≠ d := by
              rcases hd with rfl | rfl
              · exact Ne.symm hback.1
              · exact Ne.symm hsolidus.1
            rw [hcons, Progress.after, Progress.after, if_neg hne, if_neg (Ne.symm hback.1)]
            rfl

/-! ## Numbers -/

theorem Rewriting.fraction (h : Rewriting rewrite) (text : List Char) :
    fraction (rewrite text) = ((fraction text).1, rewrite (fraction text).2) := by
  have hdigit : isDigit '\\' = false ∧ isDigit '/' = false := by decide
  cases text with
  | nil =>
      rw [h.nil]
      simp [Progress.fraction, h.nil]
  | cons c rest =>
      rcases h.head c rest with ⟨-, hcons⟩ | ⟨rfl, d, rest', hd, hcons⟩
      · by_cases hpoint : c = '.'
        · rw [hpoint] at hcons ⊢
          rw [hcons, Progress.fraction, Progress.fraction, h.takeWhile hdigit.1 hdigit.2,
            h.dropWhile hdigit.1 hdigit.2]
          split
          · rw [hcons]
          · rfl
        · have hplain (rest : List Char) : Progress.fraction (c :: rest) = ([], c :: rest) := by
            unfold Progress.fraction
            split
            · next heq =>
                rw [List.cons.injEq] at heq
                exact absurd heq.1 hpoint
            · rfl
          rw [hcons, hplain, hplain, hcons]
      · have hplain (d : Char) (hd : d = '\\' ∨ d = '/') (rest : List Char) :
            Progress.fraction (d :: rest) = ([], d :: rest) := by
          unfold Progress.fraction
          split
          · next heq =>
              rw [List.cons.injEq] at heq
              rw [heq.1] at hd
              exact absurd hd (by decide)
          · rfl
        rw [hcons, hplain d hd, hplain '\\' (.inl rfl), hcons]

/-- The sign of an exponent, and what is left behind it. -/
def signOf : List Char → List Char × List Char
  | '+' :: digits => (['+'], digits)
  | '-' :: digits => (['-'], digits)
  | digits => ([], digits)

theorem exponent_cons (letter : Char) (rest : List Char) :
    exponent (letter :: rest) =
      if letter = 'e' ∨ letter = 'E' then
        if (signOf rest).2.takeWhile isDigit = [] then ([], letter :: rest)
        else (letter :: (signOf rest).1 ++ (signOf rest).2.takeWhile isDigit,
          (signOf rest).2.dropWhile isDigit)
      else ([], letter :: rest) := by
  by_cases hletter : letter = 'e' ∨ letter = 'E'
  · rw [if_pos hletter]
    exact if_pos hletter
  · rw [if_neg hletter]
    exact if_neg hletter

theorem Rewriting.signOf (h : Rewriting rewrite) (text : List Char) :
    signOf (rewrite text) = ((signOf text).1, rewrite (signOf text).2) := by
  have hplain (c : Char) (hc : c ≠ '+' ∧ c ≠ '-') (rest : List Char) :
      Progress.signOf (c :: rest) = ([], c :: rest) := by
    unfold Progress.signOf
    split
    · next heq =>
        rw [List.cons.injEq] at heq
        exact absurd heq.1 hc.1
    · next heq =>
        rw [List.cons.injEq] at heq
        exact absurd heq.1 hc.2
    · rfl
  cases text with
  | nil =>
      rw [h.nil]
      simp [Progress.signOf, h.nil]
  | cons c rest =>
      rcases h.head c rest with ⟨-, hcons⟩ | ⟨rfl, d, rest', hd, hcons⟩
      · by_cases hplus : c = '+'
        · rw [hcons, hplus]
          rfl
        · by_cases hminus : c = '-'
          · rw [hcons, hminus]
            rfl
          · rw [hcons, hplain c ⟨hplus, hminus⟩, hplain c ⟨hplus, hminus⟩, hcons]
      · have hd' : d ≠ '+' ∧ d ≠ '-' := by
          rcases hd with rfl | rfl <;> simp
        rw [hcons, hplain d hd', hplain '\\' (by decide), hcons]

theorem Rewriting.exponent (h : Rewriting rewrite) (text : List Char) :
    exponent (rewrite text) = ((exponent text).1, rewrite (exponent text).2) := by
  have hdigit : isDigit '\\' = false ∧ isDigit '/' = false := by decide
  cases text with
  | nil =>
      rw [h.nil]
      simp [Progress.exponent, h.nil]
  | cons c rest =>
      rcases h.head c rest with ⟨-, hcons⟩ | ⟨rfl, d, rest', hd, hcons⟩
      · rw [hcons, exponent_cons, exponent_cons, h.signOf]
        dsimp only
        rw [h.takeWhile hdigit.1 hdigit.2, h.dropWhile hdigit.1 hdigit.2]
        split_ifs
        · rw [hcons]
        · rfl
        · rw [hcons]
      · have hd' : ¬ (d = 'e' ∨ d = 'E') := by
          rcases hd with rfl | rfl <;> simp
        rw [hcons, exponent_cons, exponent_cons, if_neg hd', if_neg (by decide), hcons]

/-- The integer part of a number, and what is left behind it. -/
def integerOf (text : List Char) : List Char × List Char :=
  match text with
  | '0' :: rest => (['0'], rest)
  | _ => (text.takeWhile isDigit, text.dropWhile isDigit)

theorem Rewriting.integerOf (h : Rewriting rewrite) (text : List Char) :
    integerOf (rewrite text) = ((integerOf text).1, rewrite (integerOf text).2) := by
  have hdigit : isDigit '\\' = false ∧ isDigit '/' = false := by decide
  have hplain (text : List Char) (hzero : text.head? ≠ some '0') :
      Progress.integerOf text = (text.takeWhile isDigit, text.dropWhile isDigit) := by
    unfold Progress.integerOf
    split
    · exact absurd rfl hzero
    · rfl
  by_cases hzero : text.head? = some '0'
  · rcases List.head?_eq_some_iff.mp hzero with ⟨rest, rfl⟩
    rw [h.cons '0' rest (by decide)]
    rfl
  · rw [hplain _ hzero, hplain _ (h.head?_ne (by decide) (by decide) hzero),
      h.takeWhile hdigit.1 hdigit.2, h.dropWhile hdigit.1 hdigit.2]

theorem decodeUnsigned_eq (negative : Bool) (text : List Char) :
    decodeUnsigned negative text =
      if (integerOf text).1 = [] then none
      else
        if (fraction (integerOf text).2).1 = [] ∧
            (exponent (fraction (integerOf text).2).2).1 = [] then
          if maxIntDigits < (integerOf text).1.length then none
          else some (.int (if negative then -digitsValue (integerOf text).1
            else digitsValue (integerOf text).1),
            (exponent (fraction (integerOf text).2).2).2)
        else some (.float (String.ofList ((if negative then ['-'] else []) ++ (integerOf text).1 ++
            (fraction (integerOf text).2).1 ++ (exponent (fraction (integerOf text).2).2).1))
          ((integerOf text).1 ++ (fraction (integerOf text).2).1 |>.all fun c => c = '0' ∨ c = '.'),
          (exponent (fraction (integerOf text).2).2).2) := by
  unfold decodeUnsigned
  split
  next digits rest hdigits =>
    have hinteger : integerOf text = (digits, rest) := by
      rw [← hdigits]
      rfl
    rw [hinteger]

theorem Rewriting.decodeUnsigned (h : Rewriting rewrite) (negative : Bool) (text : List Char) :
    decodeUnsigned negative (rewrite text) =
      (decodeUnsigned negative text).map fun read => (read.1, rewrite read.2) := by
  rw [decodeUnsigned_eq, decodeUnsigned_eq, h.integerOf]
  dsimp only
  rw [h.fraction]
  dsimp only
  rw [h.exponent]
  dsimp only
  split_ifs <;> rfl

/-- A number with its sign, if it has one. -/
def decodeSigned (text : List Char) : Option (Json × List Char) :=
  match text with
  | '-' :: rest => decodeUnsigned true rest
  | _ => decodeUnsigned false text

theorem Rewriting.decodeSigned (h : Rewriting rewrite) (text : List Char) :
    decodeSigned (rewrite text) =
      (decodeSigned text).map fun read => (read.1, rewrite read.2) := by
  have hplain (text : List Char) (hminus : text.head? ≠ some '-') :
      Progress.decodeSigned text = Progress.decodeUnsigned false text := by
    unfold Progress.decodeSigned
    split
    · exact absurd rfl hminus
    · rfl
  by_cases hminus : text.head? = some '-'
  · rcases List.head?_eq_some_iff.mp hminus with ⟨rest, rfl⟩
    rw [h.cons '-' rest (by decide)]
    exact h.decodeUnsigned true rest
  · rw [hplain _ hminus, hplain _ (h.head?_ne (by decide) (by decide) hminus)]
    exact h.decodeUnsigned false text

/-- The first of some names that stands at the front. -/
def decodeName (names : List (List Char × Json)) (text : List Char) : Option (Json × List Char) :=
  names.findSome? fun (name, value) => (after name text).map fun rest => (value, rest)

theorem Rewriting.decodeName (h : Rewriting rewrite) {names : List (List Char × Json)}
    (hnames : ∀ entry ∈ names, '\\' ∉ entry.1 ∧ '/' ∉ entry.1) (text : List Char) :
    decodeName names (rewrite text) =
      (decodeName names text).map fun read => (read.1, rewrite read.2) := by
  unfold Progress.decodeName
  induction names with
  | nil => rfl
  | cons entry rest ih =>
      rcases hnames entry List.mem_cons_self with ⟨hback, hsolidus⟩
      rw [List.findSome?_cons, List.findSome?_cons]
      dsimp only
      rw [h.after hback hsolidus]
      cases Progress.after entry.1 text with
      | none => exact ih fun other hother => hnames other (List.mem_cons_of_mem _ hother)
      | some later => rfl

theorem decodeScalar_eq (text : List Char) :
    decodeScalar text = (decodeName constants text).or (decodeSigned text) := by
  unfold decodeScalar decodeName
  split
  · next decoded hfound => rw [hfound, Option.some_or]
  · next hnone =>
      rw [hnone, Option.none_or]
      rfl

theorem Rewriting.decodeScalar (h : Rewriting rewrite) (text : List Char) :
    decodeScalar (rewrite text) =
      (decodeScalar text).map fun read => (read.1, rewrite read.2) := by
  have hnames : ∀ entry ∈ constants, '\\' ∉ entry.1 ∧ '/' ∉ entry.1 := by
    unfold constants
    simp only [List.forall_mem_cons]
    decide
  rw [decodeScalar_eq, decodeScalar_eq, h.decodeName hnames, h.decodeSigned]
  cases Progress.decodeName constants text <;> rfl

/-! ## Decoding -/

theorem rel_map {α β γ δ : Type} {r : α → β → Prop} {s : γ → δ → Prop} {x : Option α}
    {y : Option β} {f : α → γ} {g : β → δ} (h : Option.Rel r x y)
    (hnext : ∀ a b, r a b → s (f a) (g b)) : Option.Rel s (x.map f) (y.map g) := by
  cases h with
  | none => exact .none
  | some hab => exact .some (hnext _ _ hab)

/-- Both texts are read, or none is; what is read is kept, and what is left is rewritten. -/
def Reads (rewrite : List Char → List Char) (read read' : Option (Json × List Char)) : Prop :=
  Option.Rel (fun read read' => Kept read.1 read'.1 ∧ read'.2 = rewrite read.2) read read'

/-- What has been read so far is kept. -/
inductive ReadingKept : Reading → Reading → Prop
  | value : ReadingKept .value .value
  | members {fields fields' : List (String × Json)} (h : FieldsKept fields fields') :
      ReadingKept (.members fields) (.members fields')
  | items {items items' : List Json} (h : ∀ item ∈ items, ∃ item' ∈ items', Kept item item') :
      ReadingKept (.items items) (.items items')

theorem Rewriting.readsScalar (h : Rewriting rewrite) (text : List Char) :
    Reads rewrite (Progress.decodeScalar text) (Progress.decodeScalar (rewrite text)) := by
  unfold Reads
  rw [h.decodeScalar]
  cases Progress.decodeScalar text with
  | none => exact .none
  | some read => exact .some ⟨Kept.refl _, rfl⟩

theorem Rewriting.after_char (h : Rewriting rewrite) {c : Char} (hback : c ≠ '\\')
    (hsolidus : c ≠ '/') (text : List Char) :
    Progress.after [c] (rewrite text) = (Progress.after [c] text).map rewrite := by
  apply h.after
  · rw [List.mem_singleton]
    exact Ne.symm hback
  · rw [List.mem_singleton]
    exact Ne.symm hsolidus

theorem items_append {items items' : List Json} {item item' : Json}
    (h : ∀ item ∈ items, ∃ item' ∈ items', Kept item item') (hkept : Kept item item') :
    ∀ other ∈ items ++ [item], ∃ other' ∈ items' ++ [item'], Kept other other' := by
  intro other hother
  rcases List.mem_append.mp hother with hold | hnew
  · rcases h other hold with ⟨other', hother', hsame⟩
    exact ⟨other', List.mem_append_left _ hother', hsame⟩
  · rw [List.mem_singleton.mp hnew]
    exact ⟨item', List.mem_append_right _ (List.mem_singleton_self _), hkept⟩

/-- A rewritten text decodes where the text does, and every private call is kept. -/
theorem Rewriting.decode (h : Rewriting rewrite) (fuel : Nat) {reading reading' : Reading}
    (hreading : ReadingKept reading reading') (text : List Char) :
    Reads rewrite (decode fuel reading text) (decode fuel reading' (rewrite text)) := by
  induction fuel generalizing reading reading' text with
  | zero => exact .none
  | succ fuel ih =>
      cases hreading with
      | value =>
          cases text with
          | nil =>
              rw [h.nil]
              exact .none
          | cons c rest =>
              have hscalar := h.readsScalar (c :: rest)
              rcases h.head c rest with ⟨-, hcons⟩ | ⟨rfl, d, rest', hd, hcons⟩
              · rw [hcons] at hscalar ⊢
                simp only [Progress.decode]
                split_ifs
                · apply rel_map (h.string rest)
                  rintro ⟨units, left⟩ ⟨units', left'⟩ ⟨hunits, hleft⟩
                  exact ⟨kept_str hunits.text, hleft⟩
                · rw [h.skipSpace, h.after_char (by decide) (by decide)]
                  cases Progress.after ['}'] (Progress.skipSpace rest) with
                  | none => exact ih (.members fun key _ => Kept.refl _) _
                  | some left => exact .some ⟨Kept.refl _, rfl⟩
                · rw [h.skipSpace, h.after_char (by decide) (by decide)]
                  cases Progress.after [']'] (Progress.skipSpace rest) with
                  | none =>
                      apply rel_bind (ih .value _)
                      rintro ⟨value, left⟩ ⟨value', left'⟩ ⟨hvalue, rfl⟩
                      dsimp only
                      rw [h.skipSpace]
                      apply ih
                      apply ReadingKept.items
                      intro item hitem
                      rw [List.mem_singleton.mp hitem]
                      exact ⟨value', List.mem_singleton_self _, hvalue⟩
                  | some left => exact .some ⟨Kept.refl _, rfl⟩
                · exact hscalar
              · have hplain : d ≠ '"' ∧ d ≠ '{' ∧ d ≠ '[' := by
                  rcases hd with rfl | rfl <;> simp
                rw [hcons] at hscalar ⊢
                simp only [Progress.decode]
                rw [if_neg hplain.1, if_neg hplain.2.1, if_neg hplain.2.2, if_neg (by decide),
                  if_neg (by decide), if_neg (by decide)]
                exact hscalar
      | members hfields =>
          simp only [Progress.decode]
          rw [h.after_char (by decide) (by decide)]
          have hkey : Option.Rel (fun read read' => SameUnits read.1 read'.1 ∧
              read'.2 = rewrite read.2)
              ((Progress.after ['"'] text).bind decodeString)
              (((Progress.after ['"'] text).map rewrite).bind decodeString) := by
            cases Progress.after ['"'] text with
            | none => exact .none
            | some quoted => exact h.string quoted
          apply rel_bind hkey
          rintro ⟨units, left⟩ ⟨units', left'⟩ ⟨hunits, rfl⟩
          dsimp only
          rw [h.skipSpace, h.after_char (by decide) (by decide)]
          cases Progress.after [':'] (Progress.skipSpace left) with
          | none => exact .none
          | some behind =>
              rw [Option.map_some, Option.bind_some, Option.bind_some, h.skipSpace]
              apply rel_bind (ih .value _)
              rintro ⟨value, left⟩ ⟨value', left'⟩ ⟨hvalue, rfl⟩
              have hmembers := hfields.replace hunits.text hvalue
              dsimp only
              rw [h.skipSpace]
              cases Progress.skipSpace left with
              | nil =>
                  rw [h.nil]
                  exact .none
              | cons c later =>
                  rcases h.head c later with ⟨-, hcons⟩ | ⟨rfl, d, rest', hd, hcons⟩
                  · rw [hcons]
                    dsimp only
                    split_ifs
                    · rw [h.skipSpace]
                      exact ih (.members hmembers) _
                    · exact .some ⟨kept_obj hmembers, rfl⟩
                    · exact .none
                  · have hplain : d ≠ ',' ∧ d ≠ '}' := by
                      rcases hd with rfl | rfl <;> simp
                    rw [hcons]
                    dsimp only
                    rw [if_neg hplain.1, if_neg hplain.2, if_neg (by decide), if_neg (by decide)]
                    exact .none
      | items hitems =>
          cases text with
          | nil =>
              rw [h.nil]
              exact .none
          | cons c rest =>
              rcases h.head c rest with ⟨-, hcons⟩ | ⟨rfl, d, rest', hd, hcons⟩
              · rw [hcons]
                simp only [Progress.decode]
                split_ifs
                · rw [h.skipSpace]
                  apply rel_bind (ih .value _)
                  rintro ⟨value, left⟩ ⟨value', left'⟩ ⟨hvalue, rfl⟩
                  dsimp only
                  rw [h.skipSpace]
                  exact ih (.items (items_append hitems hvalue)) _
                · exact .some ⟨kept_arr hitems, rfl⟩
                · exact .none
              · have hplain : d ≠ ',' ∧ d ≠ ']' := by
                  rcases hd with rfl | rfl <;> simp
                rw [hcons]
                simp only [Progress.decode]
                rw [if_neg hplain.1, if_neg hplain.2, if_neg (by decide), if_neg (by decide)]
                exact .none

/-- Where a value is at the front of the text, one is at the front of the rewritten text. -/
theorem Rewriting.rawDecode (h : Rewriting rewrite) (text : List Char) :
    Option.Rel (fun read read' => Kept read.1 read'.1 ∧
        (rewrite text).drop (max read'.2 1) = rewrite (text.drop (max read.2 1)))
      (Progress.rawDecode text) (Progress.rawDecode (rewrite text)) := by
  have hreads := h.decode (max text.length (rewrite text).length + 1) .value text
  have hfuel : Progress.decode (max text.length (rewrite text).length + 1) .value text =
      Progress.decode (text.length + 1) .value text := decode_fuel_le (by omega)
  have hfuel' : Progress.decode (max text.length (rewrite text).length + 1) .value (rewrite text) =
      Progress.decode ((rewrite text).length + 1) .value (rewrite text) := decode_fuel_le (by omega)
  rw [hfuel, hfuel'] at hreads
  cases hread : Progress.rawDecode text with
  | none =>
      have hnone : Progress.decode (text.length + 1) .value text = none := by
        unfold Progress.rawDecode at hread
        exact Option.map_eq_none_iff.mp hread
      rw [hnone] at hreads
      have hnone' : Progress.rawDecode (rewrite text) = none := by
        unfold Progress.rawDecode
        generalize Progress.decode ((rewrite text).length + 1) .value (rewrite text) = read' at *
        cases hreads
        rfl
      rw [hnone']
      exact .none
  | some read =>
      rcases read with ⟨value, taken⟩
      rcases rawDecode_eq_some_iff.mp hread with ⟨rest, hdecode, hpositive, hdrop, -⟩
      rw [hdecode] at hreads
      cases hdecode' : Progress.decode ((rewrite text).length + 1) .value (rewrite text) with
      | none =>
          rw [hdecode'] at hreads
          cases hreads
      | some read' =>
          rcases read' with ⟨value', rest'⟩
          rw [hdecode'] at hreads
          cases hreads with
          | some hsame =>
              rcases hsame with ⟨hkept, hrest⟩
              have hread' : Progress.rawDecode (rewrite text) =
                  some (value', (rewrite text).length - rest'.length) := by
                unfold Progress.rawDecode
                rw [hdecode']
                rfl
              rcases rawDecode_eq_some_iff.mp hread' with ⟨rest'', hdecode'', hpositive', hdrop', -⟩
              rw [hdecode', Option.some.injEq, Prod.mk.injEq] at hdecode''
              rw [hread']
              refine .some ⟨hkept, ?_⟩
              dsimp only
              rw [max_eq_left hpositive', max_eq_left hpositive, hdrop, hdrop', ← hdecode''.2]
              exact hrest

/-! ## The two scans -/

theorem callsPrivate_iff {tool : Json} : callsPrivate tool = true ↔ NamesPrivate (tool.get "tool") := by
  unfold callsPrivate NamesPrivate
  cases tool.get "tool" <;> simp

theorem isPrivateBlock_iff {value : Json} :
    IsPrivateBlock value ↔
      (value.isObj && (value.get "tools").items.any fun tool => tool.isObj && callsPrivate tool) =
        true := by
  unfold IsPrivateBlock HasPrivateCall IsPrivateCall
  rw [Bool.and_eq_true, List.any_eq_true]
  simp only [Bool.and_eq_true, callsPrivate_iff]

/-- A private call that is extracted makes a private block. -/
theorem isPrivateBlock_of_mem {value tool : Json} (htool : tool ∈ toolsOf value)
    (hprivate : callsPrivate tool = true) : IsPrivateBlock value := by
  unfold toolsOf at htool
  by_cases hobj : value.isObj = true
  · rw [if_pos hobj, List.mem_filter] at htool
    exact ⟨hobj, tool, htool.1, htool.2, callsPrivate_iff.mp hprivate⟩
  · rw [if_neg hobj] at htool
    cases htool

/-- What is extracted from a text is recognised in the rewritten text. -/
theorem Rewriting.decodedPrivate (h : Rewriting rewrite) (py : Texts) {tool : Json}
    (hprivate : callsPrivate tool = true) (fuel fuel' : Nat) (text : List Char)
    (hfuel : (rewrite text).length ≤ fuel') (htool : tool ∈ scanTools (decodingTexts py) fuel text) :
    decodedPrivate fuel' (rewrite text) = true := by
  induction fuel generalizing fuel' text with
  | zero => cases htool
  | succ fuel ih =>
      unfold scanTools at htool
      cases hbrace : text.dropWhile fun c => c ≠ '{' with
      | nil =>
          rw [hbrace] at htool
          cases htool
      | cons brace rest =>
          rw [hbrace] at htool
          dsimp only at htool
          have hopen : brace = '{' := by
            have hstop := List.head?_dropWhile_not (fun c => decide (c ≠ '{')) text
            rw [hbrace] at hstop
            simpa using hstop
          have hrewritten : (rewrite text).dropWhile (fun c => c ≠ '{') =
              rewrite (brace :: rest) := by
            rw [h.brace, hbrace]
          have hlength := (List.dropWhile_sublist (fun c => decide (c ≠ '{'))
            (l := rewrite text)).length_le
          have hread := h.rawDecode (brace :: rest)
          have hcons : rewrite (brace :: rest) = brace :: rewrite rest := by
            rw [hopen]
            exact h.cons '{' rest (by decide)
          rw [hrewritten, hcons, List.length_cons] at hlength
          cases fuel' with
          | zero => omega
          | succ fuel' =>
              unfold Progress.decodedPrivate
              rw [hrewritten, hcons]
              dsimp only
              rw [hcons] at hread
              have hdecoding : (decodingTexts py).rawDecode (brace :: rest) =
                  Progress.rawDecode (brace :: rest) := rfl
              rw [hdecoding] at htool
              cases hplain : Progress.rawDecode (brace :: rest) with
              | none =>
                  rw [hplain] at hread htool
                  generalize Progress.rawDecode (brace :: rewrite rest) = read' at *
                  cases hread
                  exact ih fuel' rest (by omega) htool
              | some read =>
                  rcases read with ⟨value, taken⟩
                  rw [hplain] at hread htool
                  generalize hread' : Progress.rawDecode (brace :: rewrite rest) = read' at *
                  cases hread with
                  | some hsame =>
                      rename_i read'
                      rcases read' with ⟨value', taken'⟩
                      rcases hsame with ⟨hkept, hdrop⟩
                      dsimp only at htool hdrop ⊢
                      rw [Bool.or_eq_true]
                      rcases List.mem_append.mp htool with hhere | hlater
                      · left
                        exact isPrivateBlock_iff.mp
                          (hkept.block (isPrivateBlock_of_mem hhere hprivate))
                      · right
                        rw [hdrop]
                        apply ih fuel' _ _ hlater
                        rw [← hdrop, List.length_drop, List.length_cons]
                        omega

end Rewriting

/-! ## Strings under a pass -/

/-- A pass that writes a solidus for a backslash and what `escape` finds behind it. -/
structure Pass (escape : List Char → Option (List Char)) (rewrite : List Char → List Char) :
    Prop where
  nil : rewrite [] = []
  cons : ∀ c rest, c ≠ '\\' → rewrite (c :: rest) = c :: rewrite rest
  escaped : ∀ rest later, escape rest = some later → rewrite ('\\' :: rest) = '/' :: rewrite later
  kept : ∀ rest, escape rest = none → rewrite ('\\' :: rest) = '\\' :: rewrite rest
  /-- What is found are plain characters of a string. -/
  plain : ∀ rest later, escape rest = some later → ∃ front, front ≠ [] ∧ rest = front ++ later ∧
    ∀ c ∈ front, c ≠ '\\' ∧ c ≠ '"' ∧ c ≠ '{' ∧ 32 ≤ c.toNat
  /-- With the backslash it stands for a solidus. -/
  solidus : ∀ rest later, escape rest = some later → decodeString ('\\' :: rest) =
    (decodeString later).map fun read => (47 :: read.1, read.2)

/-- Digits at the front of a text. -/
def hexDigits : Nat → List Char → Option (List Nat × List Char)
  | 0, text => some ([], text)
  | _ + 1, [] => none
  | n + 1, c :: rest =>
      (hexDigit c).bind fun digit =>
        (hexDigits n rest).map fun read => (digit :: read.1, read.2)

theorem hexDigits_length {n : Nat} {text later : List Char} {digits : List Nat}
    (h : hexDigits n text = some (digits, later)) : later.length ≤ text.length := by
  induction n generalizing text digits with
  | zero =>
      cases h
      exact Nat.le_refl _
  | succ n ih =>
      cases text with
      | nil => cases h
      | cons c rest =>
          rcases Option.bind_eq_some_iff.mp h with ⟨digit, -, hrest⟩
          rcases Option.map_eq_some_iff.mp hrest with ⟨⟨others, left⟩, hread, heq⟩
          cases heq
          exact Nat.le_succ_of_le (ih hread)

theorem decodeString_quote (rest : List Char) : decodeString ('"' :: rest) = some ([], rest) := by
  conv_lhs => unfold decodeString
  rw [if_pos rfl]

theorem decodeString_plain {c : Char} (hquote : c ≠ '"') (hback : c ≠ '\\') (hc : 32 ≤ c.toNat)
    (rest : List Char) :
    decodeString (c :: rest) = (decodeString rest).map fun read => (c.toNat :: read.1, read.2) := by
  conv_lhs => unfold decodeString
  rw [if_neg hquote, if_pos hback, if_neg (Nat.not_lt.mpr hc)]

theorem decodeString_control {c : Char} (hquote : c ≠ '"') (hback : c ≠ '\\')
    (hc : c.toNat < 32) (rest : List Char) : decodeString (c :: rest) = none := by
  conv_lhs => unfold decodeString
  rw [if_neg hquote, if_pos hback, if_pos hc]

theorem decodeString_letter {letter : Char} (hletter : letter ≠ 'u') (rest : List Char) :
    decodeString ('\\' :: letter :: rest) =
      (escapes.find? fun pair => pair.1 = letter).bind fun pair =>
        (decodeString rest).map fun read => (pair.2 :: read.1, read.2) := by
  conv_lhs => unfold decodeString
  rw [if_neg (by decide), if_neg (by simp)]
  dsimp only
  rw [if_pos hletter]
  cases escapes.find? fun pair => pair.1 = letter <;> rfl

theorem decodeString_unicode (rest : List Char) :
    decodeString ('\\' :: 'u' :: rest) =
      (hexDigits 4 rest).bind fun read =>
        (decodeString read.2).map fun later =>
          (read.1.foldl (fun n digit => n * 16 + digit) 0 :: later.1, later.2) := by
  conv_lhs => unfold decodeString
  rw [if_neg (by decide), if_neg (by simp)]
  dsimp only
  rw [if_neg (by simp)]
  rcases rest with - | ⟨a, - | ⟨b, - | ⟨c, - | ⟨d, rest⟩⟩⟩⟩
  · rfl
  · cases ha : hexDigit a <;> simp [hexDigits, ha]
  · cases ha : hexDigit a <;> cases hb : hexDigit b <;> simp [hexDigits, ha, hb]
  · cases ha : hexDigit a <;> cases hb : hexDigit b <;> cases hc : hexDigit c <;>
      simp [hexDigits, ha, hb, hc]
  · cases ha : hexDigit a <;> cases hb : hexDigit b <;> cases hc : hexDigit c <;>
      cases hd : hexDigit d <;> simp [hexDigits, hexUnit, ha, hb, hc, hd]

section Pass

variable {escape : List Char → Option (List Char)} {rewrite : List Char → List Char}

/-- A string goes on behind plain characters. -/
theorem decodeString_front {front : List Char}
    (h : ∀ c ∈ front, c ≠ '\\' ∧ c ≠ '"' ∧ c ≠ '{' ∧ 32 ≤ c.toNat) (later : List Char) :
    decodeString (front ++ later) =
      (decodeString later).map fun read => (front.map Char.toNat ++ read.1, read.2) := by
  induction front with
  | nil =>
      rw [List.nil_append]
      cases decodeString later <;> rfl
  | cons c front ih =>
      rcases h c List.mem_cons_self with ⟨hback, hquote, -, hc⟩
      rw [List.cons_append, decodeString_plain hquote hback hc,
        ih fun c hc => h c (List.mem_cons_of_mem _ hc), Option.map_map]
      rfl

theorem Pass.head (h : Pass escape rewrite) (rest : List Char) :
    ∃ c rest', (c = '\\' ∨ c = '/') ∧ rewrite ('\\' :: rest) = c :: rest' := by
  cases hescape : escape rest with
  | none => exact ⟨'\\', _, .inl rfl, h.kept rest hescape⟩
  | some later => exact ⟨'/', _, .inr rfl, h.escaped rest later hescape⟩

theorem Pass.hexDigits (h : Pass escape rewrite) (n : Nat) (text : List Char) :
    hexDigits n (rewrite text) =
      (hexDigits n text).map fun read => (read.1, rewrite read.2) := by
  induction n generalizing text with
  | zero => rfl
  | succ n ih =>
      cases text with
      | nil =>
          rw [h.nil]
          rfl
      | cons c rest =>
          by_cases hc : c = '\\'
          · rw [hc]
            rcases h.head rest with ⟨d, rest', hd, hcons⟩
            have hnone : hexDigit d = none := by
              rcases hd with rfl | rfl <;> decide
            have hnone' : hexDigit '\\' = none := by decide
            rw [hcons, Progress.hexDigits, Progress.hexDigits, hnone, hnone']
            rfl
          · rw [h.cons c rest hc, Progress.hexDigits, Progress.hexDigits, ih]
            cases hexDigit c with
            | none => rfl
            | some digit => cases Progress.hexDigits n rest <;> rfl

/-- Reading on behind the same unit. -/
theorem rel_units {x y : Option (List Nat × List Char)} (unit : Nat)
    (h : Option.Rel (fun read read' => SameUnits read.1 read'.1 ∧ read'.2 = rewrite read.2) x y) :
    Option.Rel (fun read read' => SameUnits read.1 read'.1 ∧ read'.2 = rewrite read.2)
      (x.map fun read => (unit :: read.1, read.2)) (y.map fun read => (unit :: read.1, read.2)) := by
  apply rel_map h
  rintro read read' ⟨hunits, hleft⟩
  exact ⟨hunits.cons unit, hleft⟩

/-- A string stays a string. -/
theorem Pass.string (h : Pass escape rewrite) (text : List Char) :
    Option.Rel (fun read read' => SameUnits read.1 read'.1 ∧ read'.2 = rewrite read.2)
      (decodeString text) (decodeString (rewrite text)) := by
  induction hlength : text.length using Nat.strong_induction_on generalizing text with
  | _ n ih =>
  cases text with
  | nil =>
      rw [h.nil]
      exact .none
  | cons c rest =>
      rw [List.length_cons] at hlength
      by_cases hback : c = '\\'
      · rw [hback]
        cases hescape : escape rest with
        | some later =>
            -- the escape for a solidus becomes a solidus
            rcases h.plain _ _ hescape with ⟨front, hfront, heq, -⟩
            have hshorter : later.length < n := by
              rw [← hlength, heq, List.length_append]
              omega
            rw [h.escaped _ _ hescape, h.solidus _ _ hescape,
              decodeString_plain (by decide) (by decide) (by decide)]
            exact rel_units 47 (ih _ hshorter later rfl)
        | none =>
            rw [h.kept _ hescape]
            cases rest with
            | nil =>
                rw [h.nil]
                exact .none
            | cons letter rest =>
                rw [List.length_cons] at hlength
                by_cases hletter : letter = '\\'
                · rw [hletter]
                  cases hnext : escape rest with
                  | some later =>
                      -- an escaped backslash is lost before what becomes a solidus
                      rcases h.plain _ _ hnext with ⟨front, hfront, heq, hplain⟩
                      have hshorter : later.length < n := by
                        rw [← hlength, heq, List.length_append]
                        omega
                      rw [h.escaped _ _ hnext, decodeString_letter (by decide),
                        decodeString_letter (by decide), heq, decodeString_front hplain]
                      have hsolidus : front.map Char.toNat ≠ [] := by simpa using hfront
                      have hfind : (escapes.find? fun pair => pair.1 = '\\') = some ('\\', 92) := by
                        decide
                      have hfind' : (escapes.find? fun pair => pair.1 = '/') = some ('/', 47) := by
                        decide
                      rw [hfind, hfind', Option.bind_some, Option.bind_some, Option.map_map]
                      apply rel_map (ih _ hshorter later rfl)
                      rintro read read' ⟨-, hleft⟩
                      exact ⟨.inr ⟨List.mem_cons_self, List.mem_cons_self⟩, hleft⟩
                  | none =>
                      rw [h.kept _ hnext, decodeString_letter (by decide),
                        decodeString_letter (by decide)]
                      apply rel_bind (r := Eq) (by cases escapes.find? _ <;> constructor; rfl)
                      rintro pair _ rfl
                      exact rel_units pair.2 (ih _ (by omega) rest rfl)
                · rw [h.cons letter rest hletter]
                  by_cases hunicode : letter = 'u'
                  · rw [hunicode, decodeString_unicode, decodeString_unicode, h.hexDigits]
                    cases hhex : Progress.hexDigits 4 rest with
                    | none => exact .none
                    | some read =>
                        rcases read with ⟨digits, later⟩
                        have hshorter := hexDigits_length hhex
                        exact rel_units _ (ih _ (by omega) later rfl)
                  · rw [decodeString_letter hunicode, decodeString_letter hunicode]
                    apply rel_bind (r := Eq) (by cases escapes.find? _ <;> constructor; rfl)
                    rintro pair _ rfl
                    exact rel_units pair.2 (ih _ (by omega) rest rfl)
      · rw [h.cons c rest hback]
        by_cases hquote : c = '"'
        · rw [hquote]
          rw [decodeString_quote, decodeString_quote]
          exact .some ⟨SameUnits.refl _, rfl⟩
        · by_cases hc : 32 ≤ c.toNat
          · rw [decodeString_plain hquote hback hc, decodeString_plain hquote hback hc]
            exact rel_units c.toNat (ih _ (by omega) rest rfl)
          · rw [decodeString_control hquote hback (Nat.not_le.mp hc),
              decodeString_control hquote hback (Nat.not_le.mp hc)]
            exact .none

/-- A pass changes no brace. -/
theorem Pass.brace (h : Pass escape rewrite) (text : List Char) :
    (rewrite text).dropWhile (fun c => c ≠ '{') =
      rewrite (text.dropWhile fun c => c ≠ '{') := by
  induction hlength : text.length using Nat.strong_induction_on generalizing text with
  | _ n ih =>
  cases text with
  | nil => rw [h.nil, List.dropWhile_nil, h.nil]
  | cons c rest =>
      rw [List.length_cons] at hlength
      by_cases hback : c = '\\'
      · have hskip (d : Char) (hd : d ≠ '{') (later : List Char) :
            (d :: later).dropWhile (fun c => c ≠ '{') = later.dropWhile fun c => c ≠ '{' :=
          List.dropWhile_cons_of_pos (by simpa using hd)
        rw [hback, hskip '\\' (by decide)]
        cases hescape : escape rest with
        | none =>
            rw [h.kept _ hescape, hskip '\\' (by decide)]
            exact ih _ (by omega) rest rfl
        | some later =>
            rcases h.plain _ _ hescape with ⟨front, hfront, heq, hplain⟩
            have hshorter : later.length < n := by
              rw [← hlength, heq, List.length_append]
              omega
            have hall : ∀ d ∈ front, decide (d ≠ '{') = true := by
              intro d hd
              simpa using (hplain d hd).2.2.1
            rw [h.escaped _ _ hescape, hskip '/' (by decide), heq, List.dropWhile_append_of_pos hall]
            exact ih _ hshorter later rfl
      · rw [h.cons c rest hback, List.dropWhile_cons, List.dropWhile_cons, ih _ (by omega) rest rfl]
        split
        · rfl
        · exact (h.cons c rest hback).symm

theorem Pass.rewriting (h : Pass escape rewrite) : Rewriting rewrite where
  nil := h.nil
  cons := h.cons
  backslash := h.head
  brace := h.brace
  string := h.string

end Pass

/-- One rewriting after another. -/
theorem Rewriting.comp {first second : List Char → List Char} (hfirst : Rewriting first)
    (hsecond : Rewriting second) : Rewriting fun text => second (first text) where
  nil := by
    rw [hfirst.nil, hsecond.nil]
  cons c rest hc := by
    rw [hfirst.cons c rest hc, hsecond.cons c _ hc]
  backslash rest := by
    rcases hfirst.backslash rest with ⟨c, rest', hc | hc, heq⟩
    · rcases hsecond.backslash rest' with ⟨d, rest'', hd, heq'⟩
      refine ⟨d, rest'', hd, ?_⟩
      rw [heq, hc, heq']
    · refine ⟨'/', second rest', .inr rfl, ?_⟩
      rw [heq, hc, hsecond.cons '/' rest' (by decide)]
  brace text := by
    rw [hsecond.brace, hfirst.brace]
  string text := by
    have hread := hfirst.string text
    have hread' := hsecond.string (first text)
    generalize decodeString text = before at *
    generalize decodeString (first text) = between at *
    generalize decodeString (second (first text)) = behind at *
    cases hread with
    | none =>
        cases hread'
        exact .none
    | some hsame =>
        cases hread' with
        | some hsame' =>
            refine .some ⟨hsame.1.trans hsame'.1, ?_⟩
            rw [hsame'.2, hsame.2]

/-! ## The two passes -/

theorem after_eq_some_iff {word text rest : List Char} :
    after word text = some rest ↔ text = word ++ rest := by
  induction word generalizing text with
  | nil =>
      unfold after
      rw [Option.some.injEq, List.nil_append]
  | cons w word ih =>
      cases text with
      | nil =>
          unfold after
          simp
      | cons c text =>
          unfold after
          rw [List.cons_append, List.cons.injEq]
          by_cases hw : w = c
          · rw [if_pos hw, ih]
            simp [hw]
          · rw [if_neg hw]
            simp [Ne.symm hw]

/-- `u002f` or `u002F` at the front. -/
def escapedSolidus (text : List Char) : Option (List Char) :=
  match after "u002".toList text with
  | some (d :: later) => if d = 'f' ∨ d = 'F' then some later else none
  | _ => none

/-- `/` at the front. -/
def plainSolidus (text : List Char) : Option (List Char) :=
  after ['/'] text

theorem escapedSolidus_eq_some {text later : List Char} (h : escapedSolidus text = some later) :
    ∃ d, (d = 'f' ∨ d = 'F') ∧ text = ['u', '0', '0', '2', d] ++ later := by
  unfold escapedSolidus at h
  split at h
  · next d rest hafter =>
      by_cases hd : d = 'f' ∨ d = 'F'
      · rw [if_pos hd, Option.some.injEq] at h
        refine ⟨d, hd, ?_⟩
        rw [after_eq_some_iff.mp hafter, h]
        rfl
      · rw [if_neg hd] at h
        cases h
  · cases h

theorem unescapeSolidus_go_cons {fuel : Nat} {c : Char} {rest : List Char} (hc : c ≠ '\\') :
    unescapeSolidus.go (fuel + 1) (c :: rest) = c :: unescapeSolidus.go fuel rest := by
  rw [unescapeSolidus.go]
  have hnone : after "\\u002".toList (c :: rest) = none := if_neg (Ne.symm hc)
  rw [hnone]

theorem unescapeSolidus_go_backslash (fuel : Nat) (rest : List Char) :
    unescapeSolidus.go (fuel + 1) ('\\' :: rest) =
      match escapedSolidus rest with
      | some later => '/' :: unescapeSolidus.go fuel later
      | none => '\\' :: unescapeSolidus.go fuel rest := by
  rw [unescapeSolidus.go]
  have hafter : after "\\u002".toList ('\\' :: rest) = after "u002".toList rest := if_pos rfl
  unfold escapedSolidus
  rw [hafter]
  rcases after "u002".toList rest with - | ⟨- | ⟨d, later⟩⟩
  · rfl
  · rfl
  · dsimp only
    split_ifs <;> rfl

/-- Every round takes a character, so the length of the text is rounds enough. -/
theorem unescapeSolidus_go {fuel fuel' : Nat} {text : List Char} (h : text.length ≤ fuel)
    (h' : text.length ≤ fuel') :
    unescapeSolidus.go fuel text = unescapeSolidus.go fuel' text := by
  induction fuel generalizing fuel' text with
  | zero =>
      rw [List.eq_nil_of_length_eq_zero (Nat.le_zero.mp h)]
      cases fuel' <;> rfl
  | succ fuel ih =>
      cases text with
      | nil => cases fuel' <;> rfl
      | cons c rest =>
          rw [List.length_cons] at h h'
          cases fuel' with
          | zero => omega
          | succ fuel' =>
              by_cases hc : c = '\\'
              · rw [hc, unescapeSolidus_go_backslash, unescapeSolidus_go_backslash]
                cases hescape : escapedSolidus rest with
                | none =>
                    have hrest : unescapeSolidus.go fuel rest = unescapeSolidus.go fuel' rest :=
                      ih (by omega) (by omega)
                    dsimp only
                    rw [hrest]
                | some later =>
                    rcases escapedSolidus_eq_some hescape with ⟨d, -, heq⟩
                    rw [heq, List.length_append] at h h'
                    have hlater : unescapeSolidus.go fuel later = unescapeSolidus.go fuel' later :=
                      ih (by omega) (by omega)
                    dsimp only
                    rw [hlater]
              · have hrest : unescapeSolidus.go fuel rest = unescapeSolidus.go fuel' rest :=
                  ih (by omega) (by omega)
                rw [unescapeSolidus_go_cons hc, unescapeSolidus_go_cons hc, hrest]

theorem unescapeSolidus_pass : Pass escapedSolidus unescapeSolidus where
  nil := rfl
  cons c rest hc := by
    unfold unescapeSolidus
    rw [List.length_cons, unescapeSolidus_go_cons hc]
  escaped rest later h := by
    rcases escapedSolidus_eq_some h with ⟨d, -, heq⟩
    have hlength : later.length ≤ rest.length := by
      rw [heq, List.length_append]
      omega
    unfold unescapeSolidus
    rw [List.length_cons, unescapeSolidus_go_backslash, h]
    dsimp only
    rw [unescapeSolidus_go hlength (Nat.le_refl _)]
  kept rest h := by
    unfold unescapeSolidus
    rw [List.length_cons, unescapeSolidus_go_backslash, h]
  plain rest later h := by
    rcases escapedSolidus_eq_some h with ⟨d, hd, heq⟩
    refine ⟨['u', '0', '0', '2', d], List.cons_ne_nil _ _, heq, ?_⟩
    rcases hd with rfl | rfl <;> simp
  solidus rest later h := by
    rcases escapedSolidus_eq_some h with ⟨d, hd, heq⟩
    rw [heq]
    rcases hd with rfl | rfl <;> exact decodeString_unicode _

theorem unescapeSlash_pass : Pass plainSolidus unescapeSlash where
  nil := rfl
  cons c rest hc := by
    cases rest with
    | nil => rfl
    | cons d rest =>
        rw [unescapeSlash]
        exact if_neg fun h => hc h.1
  escaped rest later h := by
    rw [after_eq_some_iff.mp h]
    rfl
  kept rest h := by
    cases rest with
    | nil => rfl
    | cons d rest =>
        have hd : ¬ ('\\' = '\\' ∧ d = '/') := by
          rintro ⟨-, rfl⟩
          cases h
        rw [unescapeSlash, if_neg hd]
  plain rest later h := ⟨['/'], by decide, after_eq_some_iff.mp h, by simp⟩
  solidus rest later h := by
    rw [after_eq_some_iff.mp h]
    exact decodeString_letter (by decide) later

/-- The text in which a solidus is not escaped is a rewriting of the text. -/
theorem normalize_rewriting : Rewriting fun text => unescapeSlash (unescapeSolidus text) :=
  unescapeSolidus_pass.rewriting.comp unescapeSlash_pass.rewriting

/-! ## The law -/

/-- Where a private call is extracted from a text, the text is recognised, and neither log nor
contact gets it. -/
theorem private_recognised (py : Texts) (str : Json → String) {output : String} {tools : List Json}
    {tool : Json} (hparsed : parseManagerOutput (decodingTexts py) output = some tools)
    (htool : tool ∈ tools) (hprivate : callsPrivate tool = true) :
    containsPrivateManagerTool output = true ∧
      (∀ limit, redactPrivateManagerOutput str (.str output) limit = privateManagerMarker) ∧
      rateLimitReplyText py output =
        "The manager provider is rate-limited. Please try again shortly." := by
  have hscan : tool ∈ scanTools (decodingTexts py) output.length output.toList := by
    unfold parseManagerOutput at hparsed
    split at hparsed
    · cases hparsed
    · rw [Option.some.injEq] at hparsed
      rw [hparsed]
      exact htool
  have hcontains : containsPrivateManagerTool output = true := by
    unfold containsPrivateManagerTool
    dsimp only
    have hdecoded := normalize_rewriting.decodedPrivate py hprivate _ _ _ (Nat.le_refl _) hscan
    have hnormal : normalizeSolidus output = unescapeSlash (unescapeSolidus output.toList) := rfl
    rw [hnormal, hdecoded, Bool.true_or]
  refine ⟨hcontains, ?_, ?_⟩
  · intro limit
    unfold redactPrivateManagerOutput textOrEmpty
    dsimp only
    rw [if_pos hcontains]
  · unfold rateLimitReplyText
    rw [hcontains, Bool.true_or, if_pos rfl]

/-- A call whose name is written with an escaped solidus, behind a brace that opens nothing. -/
theorem private_recognised_escaped :
    containsPrivateManagerTool
        "\x7b\\ \x7b\"tools\": [\x7b\"tool\": \"trust\\u002fget\"\x7d]\x7d" = true ∧
      ∀ limit, redactPrivateManagerOutput (fun _ => "")
        (.str "\x7b\\ \x7b\"tools\": [\x7b\"tool\": \"trust\\u002fget\"\x7d]\x7d") limit =
          privateManagerMarker := by
  let py : Texts := ⟨fun _ => "", id, fun _ => "", fun _ => "", fun _ => none, fun text _ => text⟩
  have hfound : ((parseManagerOutput (decodingTexts py)
      "\x7b\\ \x7b\"tools\": [\x7b\"tool\": \"trust\\u002fget\"\x7d]\x7d").any
        fun tools => tools.any callsPrivate) = true := by decide +kernel
  cases hparsed : parseManagerOutput (decodingTexts py)
      "\x7b\\ \x7b\"tools\": [\x7b\"tool\": \"trust\\u002fget\"\x7d]\x7d" with
  | none =>
      rw [hparsed] at hfound
      cases hfound
  | some tools =>
      rw [hparsed] at hfound
      rcases List.any_eq_true.mp hfound with ⟨tool, htool, hprivate⟩
      have hlaw := private_recognised py (fun _ => "") hparsed htool hprivate
      exact ⟨hlaw.1, hlaw.2.1⟩

end Progress
end Stemcell
