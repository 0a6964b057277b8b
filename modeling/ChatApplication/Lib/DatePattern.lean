import Mathlib.Data.Nat.Digits.Lemmas
import ChatApplication.Lib.Separator
import ChatApplication.Lib.WeekYear

/-!
# Dates by a pattern

A pattern is read in runs of equal letters.  `dd`, `MM` and `MMM`, `yyyy` and `YYYY` stand for the
day, the month and its short name, the calendar year and the week-based year of the date.  The
characters of the digits and the names of the months are those of a locale.

* `DateLocale.string` — the text of a date.
* `DateLocale.number_injective` — a padded numeral determines its number.
* `DateLocale.dayText_eq_iff` — what the text of a date determines.
-/

namespace Gregorian

/-- What the texts of dates use of a locale.  A digit is neither a space nor a sign. -/
structure DateLocale where
  week : WeekRule
  digit : Fin 10 ↪ Char
  monthSymbol : Fin 12 ↪ String
  digit_ne_space : ∀ i, digit i ≠ ' '
  digit_ne_minus : ∀ i, digit i ≠ '-'

namespace DateLocale

variable (locale : DateLocale)

/-- The digits of a number, at least `width` of them. -/
def digits (width n : Nat) : List Char :=
  ((Nat.digits 10 n).reverse.leftpad width 0).map fun k => locale.digit (Fin.ofNat 10 k)

/-- The numeral of a number. -/
def number (width : Nat) : Int → List Char
  | .ofNat n => locale.digits width n
  | .negSucc n => '-' :: locale.digits width (n + 1)

def shortMonth (d : CivilDate) : List Char := (locale.monthSymbol (Fin.ofNat 12 (d.month - 1))).toList

/-- One run of a pattern; what is not a field stands for itself. -/
def field (d : CivilDate) : List Char → List Char
  | ['d', 'd'] => locale.number 2 d.day
  | ['M', 'M'] => locale.number 2 d.month
  | ['M', 'M', 'M'] => locale.shortMonth d
  | ['y', 'y', 'y', 'y'] => locale.number 4 d.year
  | ['Y', 'Y', 'Y', 'Y'] => locale.number 4 (locale.week.weekYear d)
  | run => run

/-- The text of a date by a pattern. -/
def string (dateFormat : String) (d : CivilDate) : String :=
  String.ofList ((dateFormat.toList.splitBy (· == ·)).flatMap (locale.field d))

/-! ## Numerals -/

theorem digits_injective (width : Nat) : Function.Injective (locale.digits width) := by
  -- the value of the digits, read back through the characters
  have hval (n : Nat) : Nat.ofDigits 10 (((Nat.digits 10 n).reverse.leftpad width 0).map
      fun k => (Fin.ofNat 10 k).val).reverse = n := by
    have hdigit : ∀ k ∈ (Nat.digits 10 n).reverse.leftpad width 0, (Fin.ofNat 10 k).val = k := by
      intro k hk
      rw [List.leftpad, List.mem_append, List.mem_replicate, List.mem_reverse] at hk
      rcases hk with ⟨-, rfl⟩ | hk
      · rfl
      · exact Nat.mod_eq_of_lt (Nat.digits_lt_base (by omega) hk)
    rw [List.map_congr_left hdigit, List.map_id', List.leftpad, List.reverse_append, List.reverse_reverse,
      List.reverse_replicate, Nat.ofDigits_append_replicate_zero, Nat.ofDigits_digits]
  intro m n h
  have hfin : ((Nat.digits 10 m).reverse.leftpad width 0).map (Fin.ofNat 10) =
      ((Nat.digits 10 n).reverse.leftpad width 0).map (Fin.ofNat 10) := by
    apply List.map_injective_iff.mpr locale.digit.injective
    rw [List.map_map, List.map_map]
    exact h
  have hvals := congrArg (List.map Fin.val) hfin
  rw [List.map_map, List.map_map] at hvals
  rw [← hval m, ← hval n]
  exact congrArg (fun l => Nat.ofDigits 10 l.reverse) hvals

variable {locale}

theorem exists_digit_of_mem_digits {width n : Nat} {c : Char} (h : c ∈ locale.digits width n) :
    ∃ i, locale.digit i = c := by
  obtain ⟨k, -, rfl⟩ := List.mem_map.mp h
  exact ⟨_, rfl⟩

variable (locale)

/-- A sign is not a digit. -/
theorem number_injective (width : Nat) : Function.Injective (locale.number width) := by
  have hsign (m n : Nat) : locale.digits width m ≠ '-' :: locale.digits width n := by
    intro h
    have hmem : '-' ∈ locale.digits width m := by
      rw [h]
      exact List.mem_cons_self
    obtain ⟨i, hi⟩ := exists_digit_of_mem_digits hmem
    exact locale.digit_ne_minus i hi
  intro x y h
  cases x with
  | ofNat m =>
    cases y with
    | ofNat n => exact congrArg Int.ofNat (locale.digits_injective width h)
    | negSucc n => exact absurd h (hsign _ _)
  | negSucc m =>
    cases y with
    | ofNat n => exact absurd h.symm (hsign _ _)
    | negSucc n =>
      have hdigits := locale.digits_injective width (List.cons.inj h).2
      exact congrArg Int.negSucc (Nat.succ.inj hdigits)

theorem space_not_mem_number (width : Nat) (x : Int) : ' ' ∉ locale.number width x := by
  have hdigits (n : Nat) : ' ' ∉ locale.digits width n := by
    intro h
    obtain ⟨i, hi⟩ := exists_digit_of_mem_digits h
    exact locale.digit_ne_space i hi
  cases x with
  | ofNat n => exact hdigits n
  | negSucc n =>
    rw [number, List.mem_cons, not_or]
    exact ⟨by decide, hdigits (n + 1)⟩

/-! ## Day, name of the month and a year -/

def dayText (y : Int) (d : CivilDate) : String :=
  String.ofList (locale.number 2 d.day ++ ' ' :: (locale.shortMonth d ++ ' ' :: locale.number 4 y))

/-- `yyyy` is the calendar year. -/
theorem string_calendarYear (d : CivilDate) : locale.string "dd MMM yyyy" d = locale.dayText d.year d := by
  have hruns : "dd MMM yyyy".toList.splitBy (· == ·) =
      [['d', 'd'], [' '], ['M', 'M', 'M'], [' '], ['y', 'y', 'y', 'y']] := by decide
  rw [string, hruns]
  simp [dayText, field]

/-- `YYYY` is the week-based year. -/
theorem string_weekYear (d : CivilDate) :
    locale.string "dd MMM YYYY" d = locale.dayText (locale.week.weekYear d) d := by
  have hruns : "dd MMM YYYY".toList.splitBy (· == ·) =
      [['d', 'd'], [' '], ['M', 'M', 'M'], [' '], ['Y', 'Y', 'Y', 'Y']] := by decide
  rw [string, hruns]
  simp [dayText, field]

theorem shortMonth_inj {d d' : CivilDate} (h : locale.shortMonth d = locale.shortMonth d') :
    d.month = d'.month := by
  have hpos := d.month_pos
  have hle := d.month_le
  have hpos' := d'.month_pos
  have hle' := d'.month_le
  have hfin := locale.monthSymbol.injective (String.toList_inj.mp h)
  have hval : (d.month - 1) % 12 = (d'.month - 1) % 12 := congrArg Fin.val hfin
  omega

/-- **A text determines the year it shows, the month and the day.** -/
theorem dayText_eq_iff {y y' : Int} {d d' : CivilDate} :
    locale.dayText y d = locale.dayText y' d' ↔ y = y' ∧ d.month = d'.month ∧ d.day = d'.day := by
  constructor
  · intro h
    rw [dayText, dayText, String.ofList_inj] at h
    obtain ⟨hday, h⟩ := Separator.append_sep_inj_left (locale.space_not_mem_number _ _)
      (locale.space_not_mem_number _ _) h
    obtain ⟨hmonth, hyear⟩ := Separator.append_sep_inj_right (locale.space_not_mem_number _ _)
      (locale.space_not_mem_number _ _) h
    have hday' := locale.number_injective 2 hday
    exact ⟨locale.number_injective 4 hyear, locale.shortMonth_inj hmonth, by omega⟩
  · rintro ⟨rfl, hmonth, hday⟩
    simp only [dayText, shortMonth, hmonth, hday]

/-- A word without a space is no such text. -/
theorem dayText_ne {word : String} (h : ' ' ∉ word.toList) (y : Int) (d : CivilDate) :
    locale.dayText y d ≠ word := by
  rintro rfl
  simp [dayText] at h

end DateLocale

end Gregorian
