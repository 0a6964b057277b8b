import Mathlib.Data.Prod.Lex
import Mathlib.Order.Cover

/-!
# The Gregorian calendar

Civil dates of the proleptic Gregorian calendar, with every integer as a year.  A date carries the
bounds of its month and day, so the 30th of February does not exist.  Dates are ordered by year,
month and day.

* `CivilDate.pred_covBy`, `CivilDate.covBy_succ` — the day before and the day after, by the order.
* `CivilDate.dayNumber_succ`, `CivilDate.dayNumber_inj` — days are numbered without gaps.
* `CivilDate.ofDayNumber_dayNumber` — the date of a day number.
* `CivilDate.addDays_addDays`, `CivilDate.addDays_one` — days after a date.
* `roll_eq_iff` — which place rolling a number meets.
* `CivilDate.rollMonth`, `CivilDate.rollDay` — moving one component around its own range.
-/

namespace Gregorian

/-! ## Months -/

def isLeap (y : Int) : Bool := y % 4 == 0 && (y % 100 != 0 || y % 400 == 0)

theorem isLeap_iff {y : Int} : isLeap y = true ↔ y % 4 = 0 ∧ (y % 100 ≠ 0 ∨ y % 400 = 0) := by
  simp [isLeap]

def monthLength (y : Int) (m : Nat) : Nat :=
  if m = 2 then if isLeap y then 29 else 28
  else if m = 4 ∨ m = 6 ∨ m = 9 ∨ m = 11 then 30
  else 31

theorem monthLength_bounds (y : Int) (m : Nat) : 28 ≤ monthLength y m ∧ monthLength y m ≤ 31 := by
  unfold monthLength
  split
  · split <;> omega
  · split <;> omega

theorem monthLength_pos (y : Int) (m : Nat) : 1 ≤ monthLength y m := by
  have := monthLength_bounds y m
  omega

/-- The first day is in every month. -/
theorem min_monthLength_of_eq_one {n : Nat} (h : n = 1) (y : Int) (m : Nat) : min n (monthLength y m) = 1 := by
  rw [h]
  exact min_eq_left (monthLength_pos _ _)

theorem monthLength_twelve (y : Int) : monthLength y 12 = 31 := by simp [monthLength]

/-! ## Dates -/

@[ext] structure CivilDate where
  year : Int
  month : Nat
  day : Nat
  month_pos : 1 ≤ month
  month_le : month ≤ 12
  day_pos : 1 ≤ day
  day_le : day ≤ monthLength year month
  deriving DecidableEq

namespace CivilDate

/-- The date of a year, a month and a day. -/
def ofYMD (y : Int) (m d : Nat) (h : 1 ≤ m ∧ m ≤ 12 ∧ 1 ≤ d ∧ d ≤ monthLength y m) : CivilDate :=
  ⟨y, m, d, h.1, h.2.1, h.2.2.1, h.2.2.2⟩

def key (d : CivilDate) : Int ×ₗ Nat ×ₗ Nat := toLex (d.year, toLex (d.month, d.day))

theorem key_injective : Function.Injective key := by
  intro a b h
  simp only [key, EmbeddingLike.apply_eq_iff_eq, Prod.mk.injEq] at h
  exact CivilDate.ext h.1 h.2.1 h.2.2

instance instLinearOrder : LinearOrder CivilDate := LinearOrder.lift' key key_injective

theorem lt_iff {a b : CivilDate} :
    a < b ↔ a.year < b.year ∨ a.year = b.year ∧
      (a.month < b.month ∨ a.month = b.month ∧ a.day < b.day) := by
  show toLex (a.year, toLex (a.month, a.day)) < toLex (b.year, toLex (b.month, b.day)) ↔ _
  rw [Prod.Lex.toLex_lt_toLex, Prod.Lex.toLex_lt_toLex]

/-- The first day of a month. -/
def firstOf (y : Int) (m : Nat) (hpos : 1 ≤ m) (hle : m ≤ 12) : CivilDate :=
  ⟨y, m, 1, hpos, hle, le_refl 1, monthLength_pos y m⟩

/-- The last day of a month. -/
def lastOf (y : Int) (m : Nat) (hpos : 1 ≤ m) (hle : m ≤ 12) : CivilDate :=
  ⟨y, m, monthLength y m, hpos, hle, monthLength_pos y m, le_refl _⟩

/-- 31 December. -/
def lastOfYear (y : Int) : CivilDate := lastOf y 12 (by omega) (by omega)

theorem eq_lastOfYear_iff {d : CivilDate} {y : Int} :
    d = lastOfYear y ↔ d.year = y ∧ d.month = 12 ∧ d.day = 31 := by
  rw [CivilDate.ext_iff]
  show d.year = y ∧ d.month = 12 ∧ d.day = monthLength y 12 ↔ _
  rw [monthLength_twelve]

/-- The day before. -/
def pred (d : CivilDate) : CivilDate :=
  if h : 1 < d.day then
    ⟨d.year, d.month, d.day - 1, d.month_pos, d.month_le, by omega, by have := d.day_le; omega⟩
  else if h : 1 < d.month then
    lastOf d.year (d.month - 1) (by omega) (by have := d.month_le; omega)
  else lastOfYear (d.year - 1)

/-- The day after. -/
def succ (d : CivilDate) : CivilDate :=
  if h : d.day < monthLength d.year d.month then
    ⟨d.year, d.month, d.day + 1, d.month_pos, d.month_le, by omega, by omega⟩
  else if h : d.month < 12 then firstOf d.year (d.month + 1) (by omega) (by omega)
  else firstOf (d.year + 1) 1 (by omega) (by omega)

theorem pred_of_newYear {d : CivilDate} (hmonth : d.month = 1) (hday : d.day = 1) :
    d.pred = lastOfYear (d.year - 1) := by
  rw [pred, dif_neg (by omega), dif_neg (by omega)]

theorem pred_covBy (d : CivilDate) : d.pred ⋖ d := by
  have hpos := d.day_pos
  have hmpos := d.month_pos
  unfold pred
  split
  · rename_i hday
    refine ⟨lt_iff.mpr (.inr ⟨rfl, .inr ⟨rfl, by dsimp only; omega⟩⟩), fun c h₁ h₂ => ?_⟩
    rw [lt_iff] at h₁ h₂
    dsimp only at h₁
    omega
  split
  · rename_i hday hmonth
    refine ⟨lt_iff.mpr (.inr ⟨rfl, .inl (by dsimp only [lastOf]; omega)⟩), fun c h₁ h₂ => ?_⟩
    have hc := c.day_le
    have hcpos := c.day_pos
    rw [lt_iff] at h₁ h₂
    dsimp only [lastOf] at h₁
    -- a day in between is in the month before, after its end
    have hyear : c.year = d.year := by omega
    have hmonth' : c.month = d.month - 1 := by omega
    rw [hyear, hmonth'] at hc
    omega
  · rename_i hday hmonth
    refine ⟨lt_iff.mpr (.inl (by dsimp only [lastOfYear, lastOf]; omega)), fun c h₁ h₂ => ?_⟩
    have hc := c.day_le
    have hcpos := c.day_pos
    have hcm := c.month_le
    have hcm' := c.month_pos
    rw [lt_iff] at h₁ h₂
    dsimp only [lastOfYear, lastOf] at h₁
    rw [monthLength_twelve] at h₁
    have hmonth' : c.month = 12 := by omega
    rw [hmonth', monthLength_twelve] at hc
    omega

theorem pred_succ (d : CivilDate) : d.succ.pred = d := by
  have hpos := d.day_pos
  have hle := d.day_le
  have hmpos := d.month_pos
  have hmle := d.month_le
  unfold succ
  split
  · rename_i hday
    rw [pred, dif_pos (by dsimp only; omega)]
    rfl
  split
  · rename_i hday hmonth
    rw [pred, dif_neg (by dsimp only [firstOf]; omega), dif_pos (by dsimp only [firstOf]; omega)]
    ext
    · rfl
    · rfl
    · show monthLength d.year d.month = d.day
      omega
  · rename_i hday hmonth
    have htwelve : d.month = 12 := by omega
    rw [htwelve, monthLength_twelve] at hday hle
    rw [pred, dif_neg (by dsimp only [firstOf]; omega), dif_neg (by dsimp only [firstOf]; omega)]
    ext
    · show d.year + 1 - 1 = d.year
      omega
    · exact htwelve.symm
    · show monthLength (d.year + 1 - 1) 12 = d.day
      rw [monthLength_twelve]
      omega

theorem covBy_succ (d : CivilDate) : d ⋖ d.succ := by
  have h := pred_covBy d.succ
  rwa [pred_succ] at h

theorem succ_pred (d : CivilDate) : d.pred.succ = d := (covBy_succ d.pred).unique_right (pred_covBy d)

/-- The day before, by the order of the dates. -/
theorem covBy_iff {a b : CivilDate} : a ⋖ b ↔ a = b.pred :=
  ⟨fun h => h.unique_left (pred_covBy b), fun h => h ▸ pred_covBy b⟩

end CivilDate

/-! ## Day numbers -/

/-- The days of all years from 1 on before the year `y`; negative before the year 1. -/
def daysBeforeYear (y : Int) : Int := 365 * (y - 1) + (y - 1) / 4 - (y - 1) / 100 + (y - 1) / 400

/-- The days of a year before a month. -/
def daysBeforeMonth (y : Int) : Nat → Nat
  | 0 => 0
  | 1 => 0
  | m + 2 => daysBeforeMonth y (m + 1) + monthLength y (m + 1)

theorem daysBeforeMonth_succ (y : Int) {m : Nat} (h : 1 ≤ m) :
    daysBeforeMonth y (m + 1) = daysBeforeMonth y m + monthLength y m := by
  obtain ⟨m, rfl⟩ := Nat.exists_eq_add_of_le' h
  rfl

theorem daysBeforeMonth_mono (y : Int) {m m' : Nat} (h : 1 ≤ m) (hle : m ≤ m') :
    daysBeforeMonth y m ≤ daysBeforeMonth y m' := by
  induction m', hle using Nat.le_induction with
  | base => exact le_refl _
  | succ k hk ih =>
    rw [daysBeforeMonth_succ y (h.trans hk)]
    omega

/-- A year is a leap day longer than 365 days or not. -/
theorem daysBeforeYear_succ (y : Int) :
    daysBeforeYear (y + 1) = daysBeforeYear y + daysBeforeMonth y 12 + 31 := by
  have hlength : daysBeforeMonth y 12 = if isLeap y then 335 else 334 := by
    cases hy : isLeap y with
    | true => simp [daysBeforeMonth, monthLength, hy]
    | false => simp [daysBeforeMonth, monthLength, hy]
  unfold daysBeforeYear
  rw [hlength]
  split
  · rename_i h
    rw [isLeap_iff] at h
    omega
  · rename_i h
    rw [isLeap_iff] at h
    omega

theorem daysBeforeYear_mono {y y' : Int} (h : y ≤ y') : daysBeforeYear y ≤ daysBeforeYear y' := by
  unfold daysBeforeYear
  omega

namespace CivilDate

/-- The number of a day; the first of January of the year 1 has the number 1. -/
def dayNumber (d : CivilDate) : Int := daysBeforeYear d.year + daysBeforeMonth d.year d.month + d.day

example : (ofYMD 1970 1 1 (by decide)).dayNumber = 719163 := by decide

theorem dayNumber_succ (d : CivilDate) : d.succ.dayNumber = d.dayNumber + 1 := by
  have hle := d.day_le
  have hmpos := d.month_pos
  have hmle := d.month_le
  unfold succ
  split
  · simp only [dayNumber]
    omega
  split
  · simp only [dayNumber, firstOf, daysBeforeMonth_succ d.year hmpos]
    omega
  · rename_i hday hmonth
    have htwelve : d.month = 12 := by omega
    rw [htwelve, monthLength_twelve] at hday hle
    simp only [dayNumber, firstOf, daysBeforeYear_succ, htwelve, daysBeforeMonth]
    omega

theorem dayNumber_pred (d : CivilDate) : d.pred.dayNumber = d.dayNumber - 1 := by
  have h := dayNumber_succ d.pred
  rw [succ_pred] at h
  omega

theorem dayNumber_lt {a b : CivilDate} (h : a < b) : a.dayNumber < b.dayNumber := by
  have ha := a.day_le
  have hb := b.day_pos
  have hend := daysBeforeMonth_succ a.year a.month_pos
  simp only [dayNumber]
  rcases lt_iff.mp h with hyear | ⟨hyear, hmonth | ⟨hmonth, hday⟩⟩
  · have hmonth : a.month + 1 ≤ 12 + 1 := Nat.succ_le_succ a.month_le
    have hlast := daysBeforeMonth_mono a.year (by omega) hmonth
    have hyear' := daysBeforeYear_succ a.year
    have hmono : daysBeforeYear (a.year + 1) ≤ daysBeforeYear b.year := daysBeforeYear_mono hyear
    rw [daysBeforeMonth_succ a.year (by omega : 1 ≤ 12), monthLength_twelve] at hlast
    omega
  · have hmono : daysBeforeMonth a.year (a.month + 1) ≤ daysBeforeMonth a.year b.month :=
      daysBeforeMonth_mono a.year (by omega) hmonth
    rw [← hyear]
    omega
  · rw [← hyear, ← hmonth]
    omega

theorem dayNumber_inj {a b : CivilDate} (h : a.dayNumber = b.dayNumber) : a = b := by
  rcases lt_trichotomy a b with hlt | heq | hgt
  · have := dayNumber_lt hlt
    omega
  · exact heq
  · have := dayNumber_lt hgt
    omega

/-- The date of a day number, counted from the last day of the year 0. -/
def ofDayNumber : Int → CivilDate
  | .ofNat n => succ^[n] (lastOfYear 0)
  | .negSucc n => pred^[n + 1] (lastOfYear 0)

theorem dayNumber_iterate_succ (n : Nat) (d : CivilDate) : (succ^[n] d).dayNumber = d.dayNumber + n := by
  induction n with
  | zero => simp
  | succ n ih =>
    rw [Function.iterate_succ_apply', dayNumber_succ, ih]
    omega

theorem dayNumber_iterate_pred (n : Nat) (d : CivilDate) : (pred^[n] d).dayNumber = d.dayNumber - n := by
  induction n with
  | zero => simp
  | succ n ih =>
    rw [Function.iterate_succ_apply', dayNumber_pred, ih]
    omega

theorem dayNumber_ofDayNumber (n : Int) : (ofDayNumber n).dayNumber = n := by
  have hzero : (lastOfYear 0).dayNumber = 0 := by decide
  cases n with
  | ofNat n =>
    rw [ofDayNumber, dayNumber_iterate_succ, hzero]
    exact Int.zero_add _
  | negSucc n =>
    rw [ofDayNumber, dayNumber_iterate_pred, hzero, Int.negSucc_eq]
    omega

theorem ofDayNumber_dayNumber (d : CivilDate) : ofDayNumber d.dayNumber = d :=
  dayNumber_inj (dayNumber_ofDayNumber _)

/-- The date `n` days after; before, when `n` is negative. -/
def addDays (d : CivilDate) (n : Int) : CivilDate := ofDayNumber (d.dayNumber + n)

theorem eq_addDays_iff {d e : CivilDate} {n : Int} : e = d.addDays n ↔ e.dayNumber = d.dayNumber + n := by
  constructor
  · rintro rfl
    exact dayNumber_ofDayNumber _
  · intro h
    rw [addDays, ← h, ofDayNumber_dayNumber]

theorem addDays_addDays (d : CivilDate) (m n : Int) : (d.addDays m).addDays n = d.addDays (m + n) := by
  rw [addDays, addDays, dayNumber_ofDayNumber, Int.add_assoc, addDays]

theorem addDays_neg (d : CivilDate) (n : Int) : (d.addDays n).addDays (-n) = d := by
  rw [addDays_addDays, Int.add_right_neg, addDays, Int.add_zero, ofDayNumber_dayNumber]

theorem addDays_one (d : CivilDate) : d.addDays 1 = d.succ := (eq_addDays_iff.mpr (dayNumber_succ d)).symm

end CivilDate

/-! ## Rolling -/

/-- `x` moved by `k` within `1 … n`, around the ends. -/
def roll (n x : Nat) (k : Int) : Nat := ((x - 1 + k : Int) % n).toNat + 1

theorem roll_pos (n x : Nat) (k : Int) : 1 ≤ roll n x k := by
  unfold roll
  omega

theorem roll_le {n : Nat} (h : 1 ≤ n) (x : Nat) (k : Int) : roll n x k ≤ n := by
  have hlt := Int.emod_lt_of_pos (x - 1 + k : Int) (show (0 : Int) < n by omega)
  have hnonneg := Int.emod_nonneg (x - 1 + k : Int) (show (n : Int) ≠ 0 by omega)
  unfold roll
  omega

/-- Rolling meets a place exactly when the place is in the range and in the class of the sum. -/
theorem roll_eq_iff {n x : Nat} {k t : Int} (hn : 1 ≤ n) :
    (roll n x k : Int) = t ↔ 1 ≤ t ∧ t ≤ n ∧ (n : Int) ∣ t - (x + k) := by
  have hpos : (n : Int) ≠ 0 := by omega
  have hnonneg := Int.emod_nonneg (x - 1 + k : Int) hpos
  have hroll : (roll n x k : Int) = t ↔ (x - 1 + k : Int) % n = t - 1 := by
    unfold roll
    omega
  have hclass : t - 1 - (x - 1 + k : Int) = t - (x + k) := by omega
  rw [hroll, Int.emod_eq_iff hpos, hclass, Int.natAbs_natCast]
  constructor
  · rintro ⟨h₁, h₂, h₃⟩
    exact ⟨by omega, by omega, h₃⟩
  · rintro ⟨h₁, h₂, h₃⟩
    exact ⟨by omega, by omega, h₃⟩

/-- Rolling within the range is adding. -/
theorem roll_of_mem {n x : Nat} {k : Int} (hpos : 1 ≤ x + k) (hle : x + k ≤ n) :
    (roll n x k : Int) = x + k :=
  (roll_eq_iff (by omega)).mpr ⟨hpos, hle, by rw [Int.sub_self]; exact Int.dvd_zero _⟩

/-- One step back, not from the first place. -/
theorem roll_neg_one {n x : Nat} (hx : 1 < x) (hn : x ≤ n) : roll n x (-1) = x - 1 := by
  have h : (roll n x (-1) : Int) = x + -1 := roll_of_mem (by omega) (by omega)
  omega

/-- One step back from the first place, to the last. -/
theorem roll_one_neg_one {n : Nat} (h : 1 ≤ n) : roll n 1 (-1) = n := by
  have hlast : (roll n 1 (-1) : Int) = n := (roll_eq_iff h).mpr ⟨by omega, le_refl _, by simp⟩
  omega

/-- One step on, not from the last place. -/
theorem roll_one {n x : Nat} (h : x < n) : roll n x 1 = x + 1 := by
  have h : (roll n x 1 : Int) = x + 1 := roll_of_mem (by omega) (by omega)
  omega

/-- One step on from the last place, to the first. -/
theorem roll_self_one {n : Nat} (h : 1 ≤ n) : roll n n 1 = 1 := by
  have hfirst : (roll n n 1 : Int) = 1 := (roll_eq_iff h).mpr ⟨le_refl _, by omega, ⟨-1, by omega⟩⟩
  omega

namespace CivilDate

/-- Move the month within the year; the day is clamped to the length of the new month. -/
def rollMonth (d : CivilDate) (k : Int) : CivilDate where
  year := d.year
  month := roll 12 d.month k
  day := min d.day (monthLength d.year (roll 12 d.month k))
  month_pos := roll_pos _ _ _
  month_le := roll_le (by omega) _ _
  day_pos := le_min d.day_pos (monthLength_pos _ _)
  day_le := min_le_right _ _

/-- Move the day within the month. -/
def rollDay (d : CivilDate) (k : Int) : CivilDate where
  year := d.year
  month := d.month
  day := roll (monthLength d.year d.month) d.day k
  month_pos := d.month_pos
  month_le := d.month_le
  day_pos := roll_pos _ _ _
  day_le := roll_le (monthLength_pos _ _) _ _

end CivilDate

end Gregorian
