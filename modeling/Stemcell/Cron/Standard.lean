import Stemcell.Cron.FireTimes
import Stemcell.Lib.Lists

/-!
# The standard meaning of triggers

A trigger has five fields, each a list of values, of ranges and of stars, the latter two with steps.
In the field of the day of the week both 0 and 7 are Sunday.  Where both day fields are restricted,
either suffices.  The scan of the wall clock is compared with this meaning.

Main results:

- Definition `Expression.standard`: the minutes that an expression means.
- Theorem `Field.matchPart_text`: the scan reads a field as it is meant.
- Theorem `Expression.matching_eq`: how the minutes that the scan takes differ from those meant.
- Theorem `cron_law_iff`: the spans of time on which the scan gives the first minutes meant.

Current gaps:

- Names of months and of days are left out, and so is the end of the calendar in the year 9999.
-/

namespace Stemcell
namespace Cron

open Interface (strip isSpace)
open Lib

/-! ## Expressions -/

/-- A number as it is written. -/
structure Number where
  digits : List Char
  nonempty : digits ≠ []
  decimal : ∀ c ∈ digits, c.isDigit = true
  /-- `int` reads no longer ones. -/
  short : digits.length ≤ 4300

def Number.value (number : Number) : ℕ :=
  number.digits.foldl (fun n c => 10 * n + (c.toNat - 48)) 0

/-- An element of a list. -/
inductive Element
  | star (step : Option Number)
  | single (value : Number)
  | range (first last : Number) (step : Option Number)

def stepText : Option Number → List Char
  | none => []
  | some step => '/' :: step.digits

def stepValue : Option Number → ℤ
  | none => 1
  | some step => step.value

namespace Element

def text : Element → List Char
  | star step => '*' :: stepText step
  | single value => value.digits
  | range first last step => first.digits ++ '-' :: (last.digits ++ stepText step)

/-- The first and the last value, and the step between them. -/
def span (minValue maxValue : ℤ) : Element → ℤ × ℤ × ℤ
  | star step => (minValue, maxValue, stepValue step)
  | single value => (value.value, value.value, 1)
  | range first last step => (first.value, last.value, stepValue step)

def Valid (minValue maxValue : ℤ) (element : Element) : Prop :=
  minValue ≤ (element.span minValue maxValue).1 ∧
    (element.span minValue maxValue).1 ≤ (element.span minValue maxValue).2.1 ∧
      (element.span minValue maxValue).2.1 ≤ maxValue ∧
        0 < (element.span minValue maxValue).2.2

def has (minValue maxValue : ℤ) (element : Element) (value : ℤ) : Bool :=
  match element.span minValue maxValue with
  | (first, last, step) => first ≤ value && value ≤ last && (value - first) % step = 0

def isStar : Element → Bool
  | star _ => true
  | _ => false

end Element

/-- A field whose values run from `minValue` to `maxValue`. -/
structure Field (minValue maxValue : ℤ) where
  elements : List Element
  nonempty : elements ≠ []
  valid : ∀ element ∈ elements, element.Valid minValue maxValue

namespace Field

variable {minValue maxValue : ℤ}

def text (field : Field minValue maxValue) : List Char :=
  [','].intercalate (field.elements.map Element.text)

def has (field : Field minValue maxValue) (value : ℤ) : Bool :=
  field.elements.any fun element => element.has minValue maxValue value

/-- The field is a star and nothing else. -/
def IsStar (field : Field minValue maxValue) : Prop :=
  field.elements = [.star none]

end Field

structure Expression where
  minute : Field 0 59
  hour : Field 0 23
  dom : Field 1 31
  month : Field 1 12
  dow : Field 0 7

/-- The trigger is the text of the expression. -/
def Expression.Writes (expression : Expression) (trigger : String) : Prop :=
  (trigger.toList.splitOnP isSpace).filter (· ≠ []) =
    [expression.minute.text, expression.hour.text, expression.dom.text, expression.month.text,
      expression.dow.text]

/-- Which fields are called restricted: a star is not, and a list of numbers and ranges is.  The
traditions differ about stars with a step or in a list. -/
structure Reading where
  restricted : List Element → Bool
  star : restricted [.star none] = false
  values : ∀ elements, (∀ element ∈ elements, element.isStar = false) → restricted elements = true

/-! ## The minutes that an expression means -/

namespace Expression

variable (reading : Reading) (expression : Expression)

/-- What does not concern the day. -/
def timeHas (t : ℤ) : Bool :=
  expression.minute.has (minuteOf t) && expression.hour.has (hourOf t) &&
    expression.month.has (monthOf t)

def domHas (t : ℤ) : Bool :=
  expression.dom.has (dayOf t)

/-- A Sunday is both 0 and 7. -/
def dowHas (t : ℤ) : Bool :=
  expression.dow.has ((weekday t + 1) % 7) || (weekday t = 6 && expression.dow.has 7)

def dayHas (t : ℤ) : Bool :=
  if reading.restricted expression.dom.elements && reading.restricted expression.dow.elements then
    expression.domHas t || expression.dowHas t
  else expression.domHas t && expression.dowHas t

/-- The expression means the minute. -/
def standard (t : ℤ) : Bool :=
  expression.timeHas t && expression.dayHas reading t

end Expression

/-- The minutes from a cursor on. -/
def minutesFrom (cursor stop : ℤ) : List ℤ :=
  (List.range ((stop - cursor) / minuteLength + 1).toNat).map fun i : ℕ =>
    cursor + (i : ℤ) * minuteLength

/-- The minutes after one time and up to another. -/
def minutesBetween (start stop : ℤ) : List ℤ :=
  minutesFrom (floorMinute start + minuteLength) stop

/-- The first minutes of a span that the expression means. -/
def standardFireTimes (reading : Reading) (expression : Expression) (start stop : ℤ)
    (limit : ℕ) : List ℤ :=
  ((minutesBetween start stop).filter (expression.standard reading)).take limit

/-! ## Where the scan differs -/

/-- The minute lies behind those that the scan checks. -/
def OutOfReach (start t : ℤ) : Prop :=
  floorMinute start + scanBound * minuteLength < t

namespace Expression

variable (reading : Reading) (expression : Expression)

/-- The minute is on a Sunday that the field of the day of the week has as 7 but not as 0, and the
day of the month does not stand in for it. -/
def SundayBySeven (t : ℤ) : Prop :=
  weekday t = 6 ∧ expression.dow.has 7 = true ∧ expression.dow.has 0 = false ∧
    (expression.dom.IsStar ∨ expression.domHas t = false)

/-- Neither day field is just a star, one of them is not restricted, and only one of them has the
day. -/
def EitherDay (t : ℤ) : Prop :=
  ¬ expression.dom.IsStar ∧ ¬ expression.dow.IsStar ∧
    (reading.restricted expression.dom.elements && reading.restricted expression.dow.elements) =
      false ∧
    expression.domHas t = !(expression.dowHas t) ∧ ¬ expression.SundayBySeven t

/-- At the minute the scan keeps to what the expression means. -/
def KeptAt (start t : ℤ) : Prop :=
  (expression.standard reading t = true →
    ¬ OutOfReach start t ∧ ¬ expression.SundayBySeven t) ∧
  (expression.timeHas t = true → expression.EitherDay reading t → OutOfReach start t)

end Expression

/-! ## Numbers -/

theorem isSpace_of_isDigit {c : Char} (h : c.isDigit = true) : isSpace c = false := by
  unfold Char.isDigit at h
  rw [Bool.and_eq_true, decide_eq_true_eq, decide_eq_true_eq] at h
  unfold isSpace
  rw [decide_eq_false_iff_not]
  intro hmem
  simp only [List.mem_cons, List.not_mem_nil, or_false] at hmem
  rcases h with ⟨hlow, hhigh⟩
  have hlow := UInt32.le_iff_toNat_le.mp hlow
  have hhigh := UInt32.le_iff_toNat_le.mp hhigh
  rcases hmem with h | h | h | h | h | h | h | h | h | h | h | h | h | h | h | h | h | h | h | h |
    h | h | h | h | h | h | h | h | h <;>
  · rw [h] at hlow hhigh
    simp at hlow hhigh

theorem stripChars_eq_self {text : List Char} (h : ∀ c ∈ text, isSpace c = false) :
    stripChars text = text := by
  have hdrop (cs : List Char) (hcs : ∀ c ∈ cs, isSpace c = false) : cs.dropWhile isSpace = cs := by
    cases cs with
    | nil => rfl
    | cons c rest => rw [List.dropWhile_cons_of_neg (by simp [hcs c List.mem_cons_self])]
  unfold stripChars strip
  rw [String.toList_ofList, String.toList_ofList, hdrop text h, hdrop text.reverse ?_,
    List.reverse_reverse]
  intro c hc
  exact h c (List.mem_reverse.mp hc)

theorem readDigits_eq {digits : List Char} (h : ∀ c ∈ digits, c.isDigit = true) (n : ℕ) :
    readDigits true n digits =
      some (digits.foldl (fun n c => 10 * n + (c.toNat - 48)) n) := by
  induction digits generalizing n with
  | nil => rfl
  | cons c rest ih =>
      rw [readDigits, if_pos (h c List.mem_cons_self), List.foldl_cons]
      exact ih (fun c hc => h c (List.mem_cons_of_mem _ hc)) _

theorem Number.readInt_digits (number : Number) : readInt number.digits = some number.value := by
  have hstrip : stripChars number.digits = number.digits :=
    stripChars_eq_self fun c hc => isSpace_of_isDigit (number.decimal c hc)
  unfold readInt
  rw [hstrip]
  have hdecimal := number.decimal
  unfold Number.value
  cases hdigits : number.digits with
  | nil => exact absurd hdigits number.nonempty
  | cons c rest =>
      rw [hdigits] at hdecimal
      have hc := hdecimal c List.mem_cons_self
      have hread : readDigits false 0 (c :: rest) =
          some ((c :: rest).foldl (fun n c => 10 * n + (c.toNat - 48)) 0) := by
        rw [readDigits, if_pos hc, List.foldl_cons]
        exact readDigits_eq (fun c hc => hdecimal c (List.mem_cons_of_mem _ hc)) _
      split
      · next heq =>
          rw [List.cons.injEq] at heq
          rw [heq.1] at hc
          cases hc
      · next heq =>
          rw [List.cons.injEq] at heq
          rw [heq.1] at hc
          cases hc
      · rw [hread]
        rfl


/-! ## Fields -/

theorem splitFirst_of_notMem {c : Char} {text : List Char} (h : c ∉ text) :
    splitFirst c text = none := by
  unfold splitFirst
  rw [if_neg h]

theorem splitFirst_append {c : Char} {before : List Char} (h : c ∉ before) (after : List Char) :
    splitFirst c (before ++ c :: after) = some (before, after) := by
  have hall : ∀ x ∈ before, decide (x ≠ c) = true := by
    intro x hx
    rw [decide_eq_true_eq]
    rintro rfl
    exact h hx
  unfold splitFirst
  rw [if_pos (List.mem_append_right _ List.mem_cons_self), List.takeWhile_append_of_pos hall,
    List.dropWhile_append_of_pos hall]
  simp

/-- A number is written without the signs of a field. -/
theorem Number.notMem_digits (number : Number) {c : Char} (h : c.isDigit = false) :
    c ∉ number.digits := by
  intro hmem
  rw [number.decimal c hmem] at h
  cases h

/-- The range of an element, without its step. -/
def Element.rangeText : Element → List Char
  | star _ => ['*']
  | single value => value.digits
  | range first last _ => first.digits ++ '-' :: last.digits

def Element.step : Element → Option Number
  | star step => step
  | single _ => none
  | range _ _ step => step

theorem Element.text_eq (element : Element) :
    element.text = element.rangeText ++ stepText element.step := by
  cases element with
  | star step => rfl
  | single value =>
      unfold Element.text Element.rangeText Element.step stepText
      exact (List.append_nil _).symm
  | range first last step =>
      unfold Element.text Element.rangeText Element.step
      rw [List.append_assoc, List.cons_append]

theorem Element.notMem_rangeText (element : Element) {c : Char} (hdigit : c.isDigit = false)
    (hstar : c ≠ '*') (hdash : c ≠ '-') : c ∉ element.rangeText := by
  cases element with
  | star step =>
      intro hmem
      exact hstar (List.mem_singleton.mp hmem)
  | single value => exact value.notMem_digits hdigit
  | range first last step =>
      intro hmem
      rcases List.mem_append.mp hmem with hfirst | hrest
      · exact first.notMem_digits hdigit hfirst
      · rcases List.mem_cons.mp hrest with heq | hlast
        · exact hdash heq
        · exact last.notMem_digits hdigit hlast

theorem Element.notMem_text (element : Element) {c : Char} (hdigit : c.isDigit = false)
    (hstar : c ≠ '*') (hdash : c ≠ '-') (hslash : c ≠ '/') : c ∉ element.text := by
  rw [element.text_eq]
  intro hmem
  rcases List.mem_append.mp hmem with hrange | hstep
  · exact element.notMem_rangeText hdigit hstar hdash hrange
  · cases hoption : element.step with
    | none =>
        rw [hoption] at hstep
        cases hstep
    | some step =>
        rw [hoption] at hstep
        rcases List.mem_cons.mp hstep with heq | hdigits
        · exact hslash heq
        · exact step.notMem_digits hdigit hdigits

theorem Element.isSpace_text (element : Element) : ∀ c ∈ element.text, isSpace c = false := by
  intro c hc
  cases hdigit : c.isDigit with
  | true => exact isSpace_of_isDigit hdigit
  | false =>
      by_contra hspace
      rw [Bool.not_eq_false] at hspace
      refine element.notMem_text hdigit ?_ ?_ ?_ hc <;>
      · rintro rfl
        revert hspace
        decide

theorem Element.text_ne_nil (element : Element) : element.text ≠ [] := by
  cases element with
  | star step => exact List.cons_ne_nil _ _
  | single value => exact value.nonempty
  | range first last step =>
      intro hnil
      exact first.nonempty (List.append_eq_nil_iff.mp hnil).1

/-- Of the texts of elements only a star without a step is a star. -/
theorem Element.text_eq_star_iff (element : Element) :
    element.text = ['*'] ↔ element = .star none := by
  have hdigits (number : Number) (rest : List Char) : number.digits ++ rest ≠ ['*'] := by
    intro heq
    rcases List.exists_cons_of_ne_nil number.nonempty with ⟨c, digits, hcons⟩
    have hc := number.decimal c (by rw [hcons]; exact List.mem_cons_self)
    rw [hcons, List.cons_append, List.cons.injEq] at heq
    rw [heq.1] at hc
    cases hc
  constructor
  · intro htext
    cases element with
    | star step =>
        cases step with
        | none => rfl
        | some step => cases htext
    | single value =>
        have hplain := hdigits value []
        rw [List.append_nil] at hplain
        exact absurd htext hplain
    | range first last step => exact absurd htext (hdigits first _)
  · rintro rfl
    rfl

theorem Element.readRange_text (element : Element) (minValue maxValue : ℤ) :
    readRange element.rangeText minValue maxValue =
      some ((element.span minValue maxValue).1, (element.span minValue maxValue).2.1) := by
  have hdash : ('-').isDigit = false := rfl
  have hstar (number : Number) (rest : List Char) : number.digits ++ rest ≠ ['*'] := by
    intro heq
    rcases List.exists_cons_of_ne_nil number.nonempty with ⟨c, digits, hcons⟩
    apply number.notMem_digits (c := '*') rfl
    rw [hcons, List.cons_append, List.cons.injEq] at heq
    rw [hcons, heq.1]
    exact List.mem_cons_self
  cases element with
  | star step => rfl
  | single value =>
      have hplain := hstar value []
      rw [List.append_nil] at hplain
      unfold readRange Element.rangeText
      rw [if_neg hplain, splitFirst_of_notMem (value.notMem_digits hdash), value.readInt_digits]
      rfl
  | range first last step =>
      unfold readRange Element.rangeText
      rw [if_neg (hstar first _), splitFirst_append (first.notMem_digits hdash)]
      dsimp only
      rw [first.readInt_digits, last.readInt_digits]
      rfl

theorem Element.readPart_text (element : Element) {minValue maxValue : ℤ}
    (h : element.Valid minValue maxValue) :
    readPart element.text minValue maxValue = some (element.span minValue maxValue) := by
  have hslash : '/' ∉ element.rangeText :=
    element.notMem_rangeText rfl (by decide) (by decide)
  have hstep : (element.span minValue maxValue).2.2 = stepValue element.step := by
    cases element <;> rfl
  rw [element.text_eq]
  unfold readPart
  cases hoption : element.step with
  | none =>
      rw [hoption] at hstep
      rw [stepText, List.append_nil, splitFirst_of_notMem hslash, element.readRange_text]
      dsimp only [Option.map_some]
      rw [← show (element.span minValue maxValue).2.2 = 1 from hstep]
  | some step =>
      rw [hoption] at hstep
      have hpositive := h.2.2.2
      rw [stepText, splitFirst_append hslash]
      dsimp only
      rw [step.readInt_digits, element.readRange_text]
      have hmax : max (step.value : ℤ) 1 = (element.span minValue maxValue).2.2 := by
        rw [hstep] at hpositive ⊢
        exact max_eq_left hpositive
      simp [hmax]

/-- The loop over the parts finds a part that has the value. -/
theorem matchParts_text (value : ℤ) {minValue maxValue : ℤ} (elements : List Element)
    (h : ∀ element ∈ elements, element.Valid minValue maxValue) :
    matchParts value minValue maxValue (elements.map Element.text) =
      elements.any fun element => element.has minValue maxValue value := by
  induction elements with
  | nil => rfl
  | cons element rest ih =>
      rw [List.map_cons, matchParts, stripChars_eq_self element.isSpace_text,
        if_neg element.text_ne_nil, element.readPart_text (h element List.mem_cons_self),
        ih fun other hother => h other (List.mem_cons_of_mem _ hother), List.any_cons]
      unfold Element.has
      rcases element.span minValue maxValue with ⟨first, last, step⟩
      dsimp only
      split
      · next hhas => rw [hhas, Bool.true_or]
      · next hhas =>
          rw [Bool.not_eq_true] at hhas
          rw [hhas, Bool.false_or]

section Fields

variable {minValue maxValue : ℤ} (field : Field minValue maxValue)

theorem Field.splitOn_text : field.text.splitOn ',' = field.elements.map Element.text := by
  unfold Field.text
  apply List.splitOn_intercalate
  · intro part hpart
    rcases List.mem_map.mp hpart with ⟨element, _, rfl⟩
    exact element.notMem_text rfl (by decide) (by decide) (by decide)
  · simpa using field.nonempty

theorem Field.text_eq_star_iff : field.text = ['*'] ↔ field.IsStar := by
  have hsplit := field.splitOn_text
  unfold Field.IsStar
  constructor
  · intro htext
    rw [htext] at hsplit
    have hstar : [['*']] = field.elements.map Element.text := hsplit
    cases helements : field.elements with
    | nil => exact absurd helements field.nonempty
    | cons element rest =>
        rw [helements, List.map_cons, List.cons.injEq] at hstar
        rw [element.text_eq_star_iff.mp hstar.1.symm, List.map_eq_nil_iff.mp hstar.2.symm]
  · intro helements
    unfold Field.text
    rw [helements]
    rfl

theorem Field.isSpace_text : ∀ c ∈ field.text, isSpace c = false := by
  intro c hc
  unfold Field.text at hc
  rcases mem_intercalate hc with hcomma | ⟨part, hpart, hc⟩
  · rw [hcomma]
    decide
  · rcases List.mem_map.mp hpart with ⟨element, _, rfl⟩
    exact element.isSpace_text c hc

/-- The scan reads a field as it is meant. -/
theorem Field.matchPart_text {value : ℤ} (hlow : minValue ≤ value) (hhigh : value ≤ maxValue) :
    matchPart value field.text minValue maxValue = field.has value := by
  unfold matchPart
  rw [stripChars_eq_self field.isSpace_text]
  by_cases hstar : field.IsStar
  · rw [if_pos (field.text_eq_star_iff.mpr hstar)]
    unfold Field.has
    rw [show field.elements = [.star none] from hstar]
    simp [Element.has, Element.span, stepValue, hlow, hhigh]
  · rw [if_neg fun htext => hstar (field.text_eq_star_iff.mp htext), field.splitOn_text,
      matchParts_text value field.elements field.valid]
    rfl

end Fields

/-! ## The clock -/

theorem dayOfYear_bounds (w : ℤ) : 0 ≤ dayOfYear w ∧ dayOfYear w ≤ 365 := by
  unfold dayOfYear
  dsimp only
  have hera : 0 ≤ (dayNumber w + 719468) % 146097 ∧ (dayNumber w + 719468) % 146097 < 146097 := by
    omega
  generalize (dayNumber w + 719468) % 146097 = day at *
  generalize hyear : (day - day / 1460 + day / 36524 - day / 146096) / 365 = year
  -- the centuries of an era, by the days and by the years
  have hcentury : day / 36524 = 0 ∨ day / 36524 = 1 ∨ day / 36524 = 2 ∨ day / 36524 = 3 ∨
      day / 36524 = 4 := by omega
  have hlast : day / 146096 = 0 ∨ day / 146096 = 1 := by omega
  have hyears : year / 100 = 0 ∨ year / 100 = 1 ∨ year / 100 = 2 ∨ year / 100 = 3 := by omega
  rcases hcentury with hday | hday | hday | hday | hday <;>
    rcases hlast with hlast | hlast <;>
      rcases hyears with hyear' | hyear' | hyear' | hyear' <;> omega

theorem dayOf_bounds (w : ℤ) : 1 ≤ dayOf w ∧ dayOf w ≤ 31 := by
  have hday := dayOfYear_bounds w
  unfold dayOf monthFromMarch
  omega

theorem monthOf_bounds (w : ℤ) : 1 ≤ monthOf w ∧ monthOf w ≤ 12 := by
  have hday := dayOfYear_bounds w
  unfold monthOf monthFromMarch
  split <;> omega

theorem minuteOf_bounds (w : ℤ) : 0 ≤ minuteOf w ∧ minuteOf w ≤ 59 := by
  unfold minuteOf
  omega

theorem hourOf_bounds (w : ℤ) : 0 ≤ hourOf w ∧ hourOf w ≤ 23 := by
  unfold hourOf
  omega

/-! ## What the scan takes -/

theorem Field.has_of_isStar {minValue maxValue value : ℤ} {field : Field minValue maxValue}
    (h : field.IsStar) (hlow : minValue ≤ value) (hhigh : value ≤ maxValue) :
    field.has value = true := by
  unfold Field.has
  rw [show field.elements = [.star none] from h]
  simp [Element.has, Element.span, stepValue, hlow, hhigh]

section Matching

variable (reading : Reading) (expression : Expression)

/-- The fields as the trigger has them. -/
def Expression.fields : CronFields where
  minute := expression.minute.text
  hour := expression.hour.text
  dom := expression.dom.text
  month := expression.month.text
  dow := expression.dow.text

variable {expression} in
theorem Expression.Writes.readTrigger {trigger : String} (h : expression.Writes trigger) :
    readTrigger trigger = some expression.fields := by
  unfold Cron.readTrigger
  rw [show (trigger.toList.splitOnP isSpace).filter (· ≠ []) = _ from h]
  rfl

theorem Reading.restricted_eq_false {minValue maxValue : ℤ} {field : Field minValue maxValue}
    (h : field.IsStar) : reading.restricted field.elements = false := by
  rw [show field.elements = [.star none] from h]
  exact reading.star

/-- How the days that the scan takes differ from those meant. -/
theorem Expression.dayOk_iff (t : ℤ) :
    (if expression.dow.text = ['*'] then expression.dom.has (dayOf t)
      else if expression.dom.text = ['*'] then expression.dow.has ((weekday t + 1) % 7)
      else expression.dom.has (dayOf t) || expression.dow.has ((weekday t + 1) % 7)) = true ↔
    expression.dayHas reading t = true ∧ ¬ expression.SundayBySeven t ∨
      expression.EitherDay reading t := by
  have hday := dayOf_bounds t
  have hweek : 0 ≤ weekday t ∧ weekday t ≤ 6 := by
    unfold weekday
    omega
  unfold Expression.dayHas Expression.EitherDay Expression.SundayBySeven Expression.dowHas
    Expression.domHas
  by_cases hdow : expression.dow.IsStar
  · have hzero := Field.has_of_isStar hdow (le_refl 0) (by omega : (0 : ℤ) ≤ 7)
    have hnow := Field.has_of_isStar hdow (by omega : 0 ≤ (weekday t + 1) % 7) (by omega)
    rw [if_pos (expression.dow.text_eq_star_iff.mpr hdow), reading.restricted_eq_false hdow]
    simp [hdow, hzero, hnow]
  rw [if_neg fun htext => hdow (expression.dow.text_eq_star_iff.mp htext)]
  by_cases hdom : expression.dom.IsStar
  · have hnow := Field.has_of_isStar hdom hday.1 hday.2
    rw [if_pos (expression.dom.text_eq_star_iff.mpr hdom), reading.restricted_eq_false hdom]
    by_cases hsunday : weekday t = 6
    · have hnumber : (weekday t + 1) % 7 = 0 := by omega
      rw [hnumber]
      simp only [hdom, hnow, hsunday]
      cases expression.dow.has 0 <;> cases expression.dow.has 7 <;> simp
    · simp [hdom, hnow, hsunday]
  rw [if_neg fun htext => hdom (expression.dom.text_eq_star_iff.mp htext)]
  by_cases hsunday : weekday t = 6
  · have hnumber : (weekday t + 1) % 7 = 0 := by omega
    rw [hnumber]
    simp only [hdom, hdow, hsunday]
    cases expression.dow.has 0 <;> cases expression.dow.has 7 <;>
      cases expression.dom.has (dayOf t) <;>
        cases (reading.restricted expression.dom.elements &&
          reading.restricted expression.dow.elements) <;> simp
  · simp only [hdom, hdow, hsunday]
    cases expression.dow.has ((weekday t + 1) % 7) <;> cases expression.dom.has (dayOf t) <;>
      cases (reading.restricted expression.dom.elements &&
        reading.restricted expression.dow.elements) <;> simp

/-- How the minutes that the scan takes differ from those meant. -/
theorem Expression.matching_iff (t : ℤ) :
    expression.fields.matching t = true ↔
      expression.standard reading t = true ∧ ¬ expression.SundayBySeven t ∨
        expression.timeHas t = true ∧ expression.EitherDay reading t := by
  have hminute := minuteOf_bounds t
  have hhour := hourOf_bounds t
  have hday := dayOf_bounds t
  have hmonth := monthOf_bounds t
  have hweek : 0 ≤ (weekday t + 1) % 7 ∧ (weekday t + 1) % 7 ≤ 7 := by omega
  unfold CronFields.matching Expression.fields
  dsimp only
  rw [expression.minute.matchPart_text hminute.1 hminute.2,
    expression.hour.matchPart_text hhour.1 hhour.2,
    expression.dom.matchPart_text hday.1 hday.2,
    expression.month.matchPart_text hmonth.1 hmonth.2,
    expression.dow.matchPart_text hweek.1 hweek.2]
  have hdays := expression.dayOk_iff reading t
  unfold Expression.standard Expression.timeHas
  rw [Bool.and_eq_true, Bool.and_eq_true, Bool.and_eq_true, hdays, Bool.and_eq_true,
    Bool.and_eq_true, Bool.and_eq_true]
  constructor
  · rintro ⟨⟨⟨hminutes, hhours⟩, hdays | heither⟩, hmonths⟩
    · exact .inl ⟨⟨⟨⟨hminutes, hhours⟩, hmonths⟩, hdays.1⟩, hdays.2⟩
    · exact .inr ⟨⟨⟨hminutes, hhours⟩, hmonths⟩, heither⟩
  · rintro (⟨⟨⟨⟨hminutes, hhours⟩, hmonths⟩, hdays⟩, hnot⟩ | ⟨⟨⟨hminutes, hhours⟩, hmonths⟩, heither⟩)
    · exact ⟨⟨⟨hminutes, hhours⟩, .inl ⟨hdays, hnot⟩⟩, hmonths⟩
    · exact ⟨⟨⟨hminutes, hhours⟩, .inr heither⟩, hmonths⟩

/-- What the scan takes beyond the meaning is not meant. -/
theorem Expression.EitherDay.not_standard {t : ℤ} (h : expression.EitherDay reading t) :
    expression.standard reading t = false := by
  rcases h with ⟨-, -, hrestricted, hone, -⟩
  unfold Expression.standard Expression.dayHas
  rw [hrestricted, if_neg Bool.false_ne_true, hone, Bool.not_and_self, Bool.and_false]

end Matching

/-! ## The law -/

theorem minutesFrom_of_lt {cursor stop : ℤ} (h : stop < cursor) : minutesFrom cursor stop = [] := by
  unfold minutesFrom minuteLength
  have hcount : ((stop - cursor) / 60000000 + 1).toNat = 0 := by omega
  rw [hcount]
  rfl

theorem minutesFrom_of_le {cursor stop : ℤ} (h : cursor ≤ stop) :
    minutesFrom cursor stop = cursor :: minutesFrom (cursor + minuteLength) stop := by
  unfold minutesFrom minuteLength
  have hcount : ((stop - cursor) / 60000000 + 1).toNat =
      ((stop - (cursor + 60000000)) / 60000000 + 1).toNat + 1 := by omega
  rw [hcount, List.range_succ_eq_map, List.map_cons, List.map_map]
  congr 1
  · simp
  · apply List.map_congr_left
    intro i _
    rw [Function.comp_apply]
    omega

/-- The minutes of a span are all minutes after its start and up to its end. -/
theorem mem_minutesBetween {start stop t : ℤ} :
    t ∈ minutesBetween start stop ↔ t % minuteLength = 0 ∧ start < t ∧ t ≤ stop := by
  unfold minutesBetween minutesFrom floorMinute minuteLength
  rw [List.mem_map]
  constructor
  · rintro ⟨i, hi, rfl⟩
    rw [List.mem_range] at hi
    omega
  · rintro ⟨haligned, hstart, hstop⟩
    refine ⟨((t - (start - start % 60000000 + 60000000)) / 60000000).toNat, ?_, ?_⟩
    · rw [List.mem_range]
      omega
    · omega

theorem sorted_minutesBetween (start stop : ℤ) :
    (minutesBetween start stop).Pairwise (· < ·) := by
  unfold minutesBetween minutesFrom
  rw [List.pairwise_map]
  apply List.Pairwise.imp _ List.pairwise_lt_range
  intro i j hlt
  unfold minuteLength
  omega

theorem minutesFrom_append (cursor stop : ℤ) (n : ℕ)
    (hle : cursor + n * minuteLength ≤ stop) :
    minutesFrom cursor stop =
      minutesFrom cursor (cursor + n * minuteLength - minuteLength) ++
        (cursor + n * minuteLength) :: minutesFrom (cursor + n * minuteLength + minuteLength) stop := by
  induction n generalizing cursor with
  | zero =>
      have hzero : cursor + ((0 : ℕ) : ℤ) * minuteLength = cursor := by simp
      rw [hzero] at hle ⊢
      have hbefore : cursor - minuteLength < cursor := by
        unfold minuteLength
        omega
      rw [minutesFrom_of_lt hbefore, List.nil_append]
      exact minutesFrom_of_le hle
  | succ n ih =>
      have hnext : cursor + ((n + 1 : ℕ) : ℤ) * minuteLength =
          cursor + minuteLength + n * minuteLength := by
        unfold minuteLength
        omega
      rw [hnext] at hle ⊢
      have hlong : cursor ≤ cursor + minuteLength + n * minuteLength - minuteLength := by
        unfold minuteLength
        omega
      have hfits : cursor ≤ stop := by
        unfold minuteLength at hle
        omega
      rw [minutesFrom_of_le hfits, minutesFrom_of_le hlong, List.cons_append, ih _ hle]

/-- The scan takes the first matching ones of the minutes that it checks. -/
theorem scan_eq (fields : CronFields) (stop : ℤ) (checks limit : ℕ) (cursor : ℤ) :
    scan fields stop checks limit cursor =
      (((minutesFrom cursor stop).take checks).filter fields.matching).take limit := by
  induction checks generalizing limit cursor with
  | zero =>
      cases limit <;> simp [scan]
  | succ checks ih =>
      cases limit with
      | zero => simp [scan]
      | succ limit =>
          rw [scan]
          by_cases hstop : cursor ≤ stop
          · rw [if_pos hstop, minutesFrom_of_le hstop, List.take_succ_cons]
            by_cases hmatch : fields.matching cursor = true
            · rw [if_pos hmatch, List.filter_cons_of_pos hmatch, List.take_succ_cons, ih]
            · rw [if_neg hmatch, List.filter_cons_of_neg hmatch, ih]
          · rw [if_neg hstop, minutesFrom_of_lt (not_le.mp hstop)]
            simp

section Law

variable {expression : Expression} {trigger : String} {start stop : ℤ}

/-- How often the expression means a minute of the span before a time. -/
def Expression.countBefore (reading : Reading) (expression : Expression) (start t : ℤ) : ℕ :=
  ((minutesBetween start (t - minuteLength)).filter (expression.standard reading)).length

/-- What keeping to the meaning is, in terms of the minutes that the scan matches. -/
theorem Expression.keptAt_iff (reading : Reading) (expression : Expression) {t : ℤ} {before : ℕ}
    (hbefore : t = floorMinute start + minuteLength + before * minuteLength) :
    (expression.standard reading t = true ↔
        before < scanBound ∧ expression.fields.matching t = true) ↔
      expression.KeptAt reading start t := by
  have hreach : before < scanBound ↔ ¬ OutOfReach start t := by
    unfold OutOfReach
    rw [hbefore]
    unfold minuteLength
    omega
  rw [hreach, expression.matching_iff reading t]
  unfold Expression.KeptAt
  by_cases heither : expression.EitherDay reading t
  · have hnot := heither.not_standard
    simp only [hnot, heither]
    tauto
  · simp only [heither]
    tauto

/-- The scan gives the first minutes that the expression means exactly if it keeps to the meaning
at each minute of the span that fewer of them precede. -/
theorem cron_law_iff (reading : Reading) (hwrites : expression.Writes trigger) (limit : ℕ) :
    fallbackFireTimes trigger start stop limit =
        standardFireTimes reading expression start stop limit ↔
      ∀ t, t % minuteLength = 0 → start < t → t ≤ stop →
        expression.countBefore reading start t < limit → expression.KeptAt reading start t := by
  have hnodup : (minutesBetween start stop).Nodup :=
    (sorted_minutesBetween start stop).imp ne_of_lt
  have hfirst := take_filter_eq_iff (p := expression.standard reading)
    (q := expression.fields.matching) hnodup scanBound limit
  unfold fallbackFireTimes standardFireTimes
  rw [hwrites.readTrigger]
  dsimp only
  rw [scan_eq]
  refine hfirst.trans ?_
  have hkept (t : ℤ) (before : ℕ)
      (hbefore : t = floorMinute start + minuteLength + before * minuteLength) :=
    expression.keptAt_iff reading hbefore
  constructor
  · intro hall t haligned hstart hstop hfew
    have hposition : ∃ n : ℕ, t = floorMinute start + minuteLength + n * minuteLength := by
      refine ⟨((t - floorMinute start - minuteLength) / minuteLength).toNat, ?_⟩
      unfold floorMinute minuteLength at *
      omega
    rcases hposition with ⟨n, hn⟩
    have hsplit := minutesFrom_append (floorMinute start + minuteLength) stop n
      (by rw [← hn]; exact hstop)
    rw [← hn] at hsplit
    have hlength : (minutesFrom (floorMinute start + minuteLength) (t - minuteLength)).length = n := by
      unfold minutesFrom
      rw [List.length_map, List.length_range, hn]
      unfold minuteLength
      omega
    have hcase := hall _ t _ hsplit hfew
    rw [hlength] at hcase
    exact (hkept t n hn).mp hcase
  · intro hall before t after hsplit hfew
    have hmem : t ∈ minutesBetween start stop := by
      rw [hsplit]
      exact List.mem_append_right _ List.mem_cons_self
    rcases mem_minutesBetween.mp hmem with ⟨haligned, hstart, hstop⟩
    have hposition : t = floorMinute start + minuteLength + before.length * minuteLength := by
      have hget : (minutesBetween start stop)[before.length]? = some t := by
        rw [hsplit]
        simp
      unfold minutesBetween minutesFrom at hget
      rw [List.getElem?_map, Option.map_eq_some_iff] at hget
      rcases hget with ⟨i, hi, rfl⟩
      rw [List.getElem?_eq_some_iff] at hi
      rcases hi with ⟨hlt, hi⟩
      rw [List.getElem_range] at hi
      rw [hi]
    have hbefore : before = minutesBetween start (t - minuteLength) := by
      have hsplit' := minutesFrom_append (floorMinute start + minuteLength) stop
        before.length (by rw [← hposition]; exact hstop)
      rw [← hposition] at hsplit'
      have hsame : before ++ t :: after =
          minutesFrom (floorMinute start + minuteLength) (t - minuteLength) ++
            t :: minutesFrom (t + minuteLength) stop := by
        rw [← hsplit, ← hsplit']
        rfl
      have hlength : before.length =
          (minutesFrom (floorMinute start + minuteLength) (t - minuteLength)).length := by
        unfold minutesFrom
        rw [List.length_map, List.length_range]
        unfold minuteLength at *
        omega
      exact (List.append_inj hsame hlength).1
    apply (hkept t before.length hposition).mpr
    apply hall t haligned hstart hstop
    unfold Expression.countBefore
    rw [← hbefore]
    exact hfew

end Law

/-! ## Noon on Sundays -/

/-- A field of one element. -/
def Field.one {minValue maxValue : ℤ} (element : Element) (h : element.Valid minValue maxValue) :
    Field minValue maxValue where
  elements := [element]
  nonempty := List.cons_ne_nil _ _
  valid := by
    intro other hother
    rw [List.mem_singleton.mp hother]
    exact h

/-- `0 12 * *` on a day of the week. -/
def noonOn (day : Number) (h : (day.value : ℤ) ≤ 7) : Expression where
  minute := .one (.single ⟨['0'], by decide, List.all_eq_true.mp (by decide), by decide⟩) (by
    unfold Element.Valid Element.span
    decide)
  hour := .one (.single ⟨['1', '2'], by decide, List.all_eq_true.mp (by decide), by decide⟩) (by
    unfold Element.Valid Element.span
    decide)
  dom := .one (.star none) (by
    unfold Element.Valid Element.span stepValue
    decide)
  month := .one (.star none) (by
    unfold Element.Valid Element.span stepValue
    decide)
  dow := .one (.single day) ⟨Int.natCast_nonneg _, le_rfl, h, Int.one_pos⟩

def noonOnSeven : Expression :=
  noonOn ⟨['7'], by decide, List.all_eq_true.mp (by decide), by decide⟩ (by decide)

def noonOnZero : Expression :=
  noonOn ⟨['0'], by decide, List.all_eq_true.mp (by decide), by decide⟩ (by decide)

/-- The reading that a field with a star in it is not restricted. -/
def Reading.anyStar : Reading where
  restricted elements := !elements.any Element.isStar
  star := rfl
  values := by
    intro elements h
    rw [Bool.not_eq_true', List.any_eq_false]
    intro element helement
    rw [h element helement]
    exact Bool.false_ne_true

/-- Noon of the first Sunday. -/
def sundayNoon : ℤ := (3 * 1440 + 720) * minuteLength

theorem minutesBetween_noon :
    minutesBetween (sundayNoon - minuteLength) sundayNoon = [sundayNoon] := by
  decide

/-- The scan misses a Sunday that is written as 7. -/
theorem sunday_missed :
    noonOnSeven.Writes "0 12 * * 7" ∧
      fallbackFireTimes "0 12 * * 7" (sundayNoon - minuteLength) sundayNoon 1 = [] ∧
      ∀ reading, standardFireTimes reading noonOnSeven (sundayNoon - minuteLength) sundayNoon 1 =
        [sundayNoon] := by
  have hwrites : noonOnSeven.Writes "0 12 * * 7" := by
    unfold Expression.Writes
    decide +kernel
  refine ⟨hwrites, ?_, ?_⟩
  · unfold fallbackFireTimes
    rw [hwrites.readTrigger]
    dsimp only
    rw [scan_eq]
    have hminutes : minutesFrom (floorMinute (sundayNoon - minuteLength) + minuteLength)
        sundayNoon = [sundayNoon] := minutesBetween_noon
    rw [hminutes, List.take_of_length_le (by decide)]
    decide +kernel
  · intro reading
    have hmeant : noonOnSeven.standard reading sundayNoon = true := by
      unfold Expression.standard Expression.dayHas
      have hdom : reading.restricted noonOnSeven.dom.elements = false := reading.star
      rw [hdom, Bool.false_and, if_neg Bool.false_ne_true]
      decide +kernel
    unfold standardFireTimes
    rw [minutesBetween_noon, List.filter_cons_of_pos hmeant]
    rfl

/-- A Sunday that is written as 0 is found. -/
theorem cron_law_sunday :
    noonOnZero.Writes "0 12 * * 0" ∧
      fallbackFireTimes "0 12 * * 0" (sundayNoon - minuteLength) sundayNoon 1 =
        standardFireTimes .anyStar noonOnZero (sundayNoon - minuteLength) sundayNoon 1 := by
  have hwrites : noonOnZero.Writes "0 12 * * 0" := by
    unfold Expression.Writes
    decide +kernel
  refine ⟨hwrites, (cron_law_iff .anyStar hwrites 1).mpr ?_⟩
  intro t haligned hstart hstop _
  have ht : t = sundayNoon := by
    unfold sundayNoon minuteLength at *
    omega
  have hzero : noonOnZero.dow.has 0 = true := by decide +kernel
  have hreach : ¬ OutOfReach (sundayNoon - minuteLength) sundayNoon := by
    unfold OutOfReach
    decide +kernel
  rw [ht]
  constructor
  · intro _
    refine ⟨hreach, ?_⟩
    rintro ⟨-, -, hnot, -⟩
    rw [hzero] at hnot
    cases hnot
  · rintro - ⟨hdom, -⟩
    exact absurd rfl hdom

end Cron
end Stemcell
