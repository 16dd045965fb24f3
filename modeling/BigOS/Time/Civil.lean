/-
  BigOS.Time.Civil — the number of a day (`core/time/time.cc`).

  `days_from_civil` is a closed formula: the year begins in March, so that the leap day
  is its last, and the divisions count the leap days.  It is compared with the calendar
  month by month: the days before a month and the length of the month are the days
  before the next one.  The formula is computed in 64 bits: the seconds overflow in the
  year 292277026596.

  Main results:
    • `daysFromCivil_ofInt` — up to which year 64 bits are enough,
    • `daysBefore_succ` — from one month to the next,
    • `civilDays_nextDay` — from one date to the next,
    • `unixSeconds_lt` — later dates have larger numbers.
-/
import BigOS.Time.Rtc
import Mathlib.Tactic.IntervalCases

namespace BigOS.Time

def SECONDS_PER_DAY : Int64 := 86400
def SECONDS_PER_HOUR : Int64 := 3600
def SECONDS_PER_MINUTE : Int64 := 60

def daysFromCivil (year month day : Int64) : Int64 :=
  let year := year - if month ≤ 2 then 1 else 0
  let era := (if 0 ≤ year then year else year - 399) / 400
  let yoe := year - era * 400
  let doy := (153 * (month + if 2 < month then -3 else 9) + 2) / 5 + day - 1
  let doe := yoe * 365 + yoe / 4 - yoe / 100 + doy
  era * 146097 + doe - 719468

/-- The number of the day of a date. -/
def DateTime.days (d : DateTime) : Int64 :=
  daysFromCivil (.ofNat d.year) (.ofNat d.month) (.ofNat d.day)

def toUnixSeconds (d : DateTime) : Int64 :=
  d.days * SECONDS_PER_DAY + .ofNat d.hour * SECONDS_PER_HOUR +
    .ofNat d.minute * SECONDS_PER_MINUTE + .ofNat d.second

/-! ## §1. The calendar. -/

def leapYear (year : Nat) : Prop := year % 4 = 0 ∧ (year % 100 ≠ 0 ∨ year % 400 = 0)

instance (year : Nat) : Decidable (leapYear year) := inferInstanceAs (Decidable (_ ∧ _))

def monthDays (year month : Nat) : Nat :=
  if month = 2 then if leapYear year then 29 else 28
  else if month = 4 ∨ month = 6 ∨ month = 9 ∨ month = 11 then 30 else 31

/-- A date of the Gregorian calendar, from the epoch on. -/
structure DateTime.Valid (d : DateTime) : Prop where
  year : 1970 ≤ d.year
  month : 1 ≤ d.month ∧ d.month ≤ 12
  day : 1 ≤ d.day ∧ d.day ≤ monthDays d.year d.month
  time : d.hour ≤ 23 ∧ d.minute ≤ 59 ∧ d.second ≤ 59

/-- The next date, at the same time of day. -/
def DateTime.nextDay (d : DateTime) : DateTime :=
  if d.day < monthDays d.year d.month then { d with day := d.day + 1 }
  else if d.month < 12 then { d with month := d.month + 1, day := 1 }
  else { d with year := d.year + 1, month := 1, day := 1 }

/-! ## §2. The formula. -/

/-- The days of the years before the March of a year. -/
def yearDays (y : Int) : Int := 365 * y + y / 4 - y / 100 + y / 400

/-- The number of a day, without a bound. -/
def civilDays (year month day : Int) : Int :=
  yearDays (year - if month ≤ 2 then 1 else 0) +
    (153 * (month + if 2 < month then -3 else 9) + 2) / 5 + day - 719469

def unixSeconds (d : DateTime) : Int :=
  civilDays d.year d.month d.day * 86400 + d.hour * 3600 + d.minute * 60 + d.second

theorem ofInt_div {a b : Int} (ha : 0 ≤ a ∧ a < 2 ^ 63) (hb : 0 < b ∧ b < 2 ^ 63) :
    Int64.ofInt a / Int64.ofInt b = Int64.ofInt (a / b) := by
  have hmin : Int64.minValue.toInt = -2 ^ 63 := rfl
  have hmax : Int64.maxValue.toInt = 2 ^ 63 - 1 := rfl
  rw [← Int.tdiv_eq_ediv_of_nonneg ha.1]
  exact (Int64.ofInt_tdiv (by omega) (by omega) (by omega) (by omega)).symm

theorem ofInt_le {a b : Int} (ha : 0 ≤ a ∧ a < 2 ^ 63) (hb : 0 ≤ b ∧ b < 2 ^ 63) :
    Int64.ofInt a ≤ Int64.ofInt b ↔ a ≤ b := by
  have hmin : Int64.minValue.toInt = -2 ^ 63 := rfl
  have hmax : Int64.maxValue.toInt = 2 ^ 63 - 1 := rfl
  exact Int64.ofInt_le_iff_le (by omega) (by omega) (by omega) (by omega)

/-- The eras are a way to count the leap days: 146097 is 400 * 365 + 97.  Of the operations
only the divisions depend on the width, the others wrap. -/
theorem daysFromCivil_ofInt {year month : Int} (hyear : 0 < year ∧ year < 2 ^ 63)
    (hmonth : 0 < month ∧ month ≤ 12) (day : Int) :
    daysFromCivil (.ofInt year) (.ofInt month) (.ofInt day) =
      .ofInt (civilDays year month day) := by
  have hle : Int64.ofInt month ≤ 2 ↔ month ≤ 2 := ofInt_le (b := 2) (by omega) (by decide)
  have hshift : (if Int64.ofInt month ≤ 2 then 1 else 0 : Int64) =
      .ofInt (if month ≤ 2 then 1 else 0) := by
    simp only [hle]
    split <;> rfl
  have hmarch : (if 2 < Int64.ofInt month then -3 else 9 : Int64) =
      .ofInt (if 2 < month then -3 else 9) := by
    simp only [← Int64.not_le, hle, ← Int.not_le]
    split <;> rfl
  have hy : 0 ≤ year - (if month ≤ 2 then 1 else 0) ∧
      year - (if month ≤ 2 then 1 else 0) < 2 ^ 63 := by split <;> omega
  have hm : 0 ≤ 153 * (month + if 2 < month then -3 else 9) + 2 ∧
      153 * (month + if 2 < month then -3 else 9) + 2 < 2 ^ 63 := by split <;> omega
  have hpos : 0 ≤ Int64.ofInt (year - if month ≤ 2 then 1 else 0) :=
    (ofInt_le (a := 0) (by decide) hy).mpr hy.1
  unfold daysFromCivil civilDays yearDays
  dsimp only
  rw [hshift, hmarch, ← Int64.ofInt_sub, if_pos hpos]
  generalize (year - if month ≤ 2 then 1 else 0) = y at hy ⊢
  generalize (if 2 < month then -3 else 9 : Int) = shift at hm ⊢
  have hyoe : 0 ≤ y - y / 400 * 400 ∧ y - y / 400 * 400 < 2 ^ 63 := by omega
  rw [show 365 * y + y / 4 - y / 100 + y / 400 + (153 * (month + shift) + 2) / 5 + day - 719469 =
    y / 400 * 146097 + ((y - y / 400 * 400) * 365 + (y - y / 400 * 400) / 4 -
      (y - y / 400 * 400) / 100 + ((153 * (month + shift) + 2) / 5 + day - 1)) - 719468 by omega]
  simp only [Int64.ofInt_add, Int64.ofInt_sub, Int64.ofInt_mul,
    ← ofInt_div hy (b := 400) (by decide), ← ofInt_div hm (b := 5) (by decide),
    ← ofInt_div hyoe (b := 4) (by decide), ← ofInt_div hyoe (b := 100) (by decide)]
  rfl

theorem yearDays_leap (y : Nat) :
    yearDays y = yearDays (y - 1) + 365 + if leapYear y then 1 else 0 := by
  unfold yearDays
  by_cases hleap : leapYear y
  · rw [if_pos hleap]
    obtain ⟨h4, h100⟩ := hleap
    omega
  · rw [if_neg hleap]
    unfold leapYear at hleap
    omega

/-- The days before a month; months are counted from the year 0. -/
def daysBefore (k : Nat) : Int := civilDays (k / 12 : Nat) (k % 12 + 1 : Nat) 0

/-- The length of a month. -/
def lastDay (k : Nat) : Nat := monthDays (k / 12) (k % 12 + 1)

theorem daysBefore_succ (k : Nat) : daysBefore (k + 1) = daysBefore k + lastDay k := by
  have hyear := yearDays_leap (k / 12)
  have hj : k % 12 < 12 := Nat.mod_lt _ (by decide)
  have hdiv : (k + 1) / 12 = k / 12 + (k % 12 + 1) / 12 := by omega
  have hmod : (k + 1) % 12 = (k % 12 + 1) % 12 := by omega
  unfold daysBefore lastDay monthDays civilDays
  rw [hdiv, hmod]
  generalize k / 12 = y at hyear ⊢
  generalize k % 12 = j at hj ⊢
  by_cases hleap : leapYear y <;> simp only [hleap, if_true, if_false] at hyear ⊢
  · interval_cases j <;> norm_num <;> omega
  · interval_cases j <;> norm_num <;> omega

theorem daysBefore_lt {k n : Nat} (hn : k < n) : daysBefore k + lastDay k ≤ daysBefore n := by
  induction n, hn using Nat.le_induction with
  | base => exact (daysBefore_succ k).ge
  | succ n hn ih =>
    rw [daysBefore_succ]
    omega

/-! ## §3. Dates. -/

variable {d d' : DateTime}

/-- The fields of a date, the largest unit first. -/
def DateTime.fields (d : DateTime) : List Nat :=
  [d.year, d.month, d.day, d.hour, d.minute, d.second]

/-- A date by its month. -/
theorem civilDays_month {year month : Nat} (hm : 1 ≤ month ∧ month ≤ 12) (day : Nat) :
    civilDays year month day = daysBefore (12 * year + (month - 1)) + day ∧
      lastDay (12 * year + (month - 1)) = monthDays year month := by
  have hdiv : (12 * year + (month - 1)) / 12 = year := by omega
  have hmod : (12 * year + (month - 1)) % 12 + 1 = month := by omega
  unfold lastDay daysBefore
  rw [hdiv, hmod]
  refine ⟨?_, rfl⟩
  unfold civilDays
  omega

theorem civilDays_nextDay (h : d.Valid) : civilDays d.nextDay.year d.nextDay.month d.nextDay.day =
      civilDays d.year d.month d.day + 1 := by
  obtain ⟨hy, hm, hday, -⟩ := h
  obtain ⟨hd, hlast⟩ := @civilDays_month d.year d.month hm d.day
  have hnext := daysBefore_succ (12 * d.year + (d.month - 1))
  unfold DateTime.nextDay
  split_ifs with hless hmonth <;> rw [(civilDays_month (by dsimp only; omega) _).1, hd] <;>
    dsimp only
  · omega
  · rw [show 12 * d.year + (d.month + 1 - 1) = 12 * d.year + (d.month - 1) + 1 by omega, hnext]
    omega
  · rw [show 12 * (d.year + 1) + (1 - 1) = 12 * d.year + (d.month - 1) + 1 by omega, hnext]
    omega

theorem unixSeconds_lt (h : d.Valid) (h' : d'.Valid) (hlt : d.fields < d'.fields) :
    unixSeconds d < unixSeconds d' := by
  obtain ⟨hy, hm, hday, ht⟩ := h
  obtain ⟨hy', hm', hday', ht'⟩ := h'
  obtain ⟨hd, hlast⟩ := @civilDays_month d.year d.month hm d.day
  obtain ⟨hd', -⟩ := @civilDays_month d'.year d'.month hm' d'.day
  have hmonths := @daysBefore_lt (12 * d.year + (d.month - 1)) (12 * d'.year + (d'.month - 1))
  simp only [DateTime.fields, List.cons_lt_cons_iff, List.lt_irrefl, and_false, or_false] at hlt
  simp only [unixSeconds, hd, hd']
  by_cases hk : 12 * d.year + (d.month - 1) < 12 * d'.year + (d'.month - 1)
  · have := hmonths hk
    omega
  · have heq : 12 * d.year + (d.month - 1) = 12 * d'.year + (d'.month - 1) := by omega
    rw [heq]
    omega

/-- The last year in which no sum of the formula overflows. -/
def LAST_YEAR_OF_DAYS : Nat := 25252734927766553

/-- The last year whose seconds fit. -/
def LAST_YEAR_OF_SECONDS : Nat := 292277026595

theorem DateTime.days_eq (hyear : 0 < d.year ∧ d.year < 2 ^ 63)
    (hmonth : 0 < d.month ∧ d.month ≤ 12) : d.days = .ofInt (civilDays d.year d.month d.day) := by
  rw [← daysFromCivil_ofInt (by omega) (by omega)]
  rfl

theorem toUnixSeconds_eq (h : d.Valid) (hyear : d.year < 2 ^ 63) :
    toUnixSeconds d = .ofInt (unixSeconds d) := by
  unfold toUnixSeconds unixSeconds
  rw [DateTime.days_eq ⟨by have := h.year; omega, hyear⟩ h.month]
  simp only [Int64.ofInt_add, Int64.ofInt_mul]
  rfl

/-- The values fit into 64 bits. -/
theorem DateTime.Valid.fits (h : d.Valid) : 0 ≤ civilDays d.year d.month d.day ∧
    (d.year ≤ LAST_YEAR_OF_DAYS → civilDays d.year d.month d.day + 1 < 2 ^ 63) ∧
    (d.year ≤ LAST_YEAR_OF_SECONDS → unixSeconds d < 2 ^ 63) := by
  obtain ⟨hy, hm, hday, ht⟩ := h
  have hlast : monthDays d.year d.month ≤ 31 := by
    unfold monthDays
    split_ifs <;> omega
  unfold unixSeconds LAST_YEAR_OF_DAYS LAST_YEAR_OF_SECONDS
  unfold civilDays yearDays
  split_ifs <;> omega

/-- The epoch is day 0, each date has the number after that of the date before it, and
the seconds keep the order of the dates, as long as 64 bits are enough. -/
theorem civil_calendar : daysFromCivil 1970 1 1 = 0 ∧
    (∀ d : DateTime, d.Valid → d.year ≤ LAST_YEAR_OF_DAYS →
      d.nextDay.days.toInt = d.days.toInt + 1) ∧
    ∀ d d' : DateTime, d.Valid → d'.Valid → d'.year ≤ LAST_YEAR_OF_SECONDS →
      d.fields < d'.fields → toUnixSeconds d < toUnixSeconds d' := by
  refine ⟨by decide, fun d h hyear => ?_, fun d d' h h' hyear hlt => ?_⟩
  · have hbound : LAST_YEAR_OF_DAYS < 2 ^ 62 := by decide
    have hfirst := h.year
    have hm := h.month
    have hnext : (0 < d.nextDay.year ∧ d.nextDay.year < 2 ^ 63) ∧
        0 < d.nextDay.month ∧ d.nextDay.month ≤ 12 := by
      unfold DateTime.nextDay
      split_ifs <;> dsimp only <;> omega
    obtain ⟨hnonneg, hfits, _⟩ := h.fits
    have := hfits hyear
    rw [DateTime.days_eq hnext.1 hnext.2, DateTime.days_eq (by omega) hm, civilDays_nextDay h,
      Int64.toInt_ofInt_of_le (by omega) (by omega), Int64.toInt_ofInt_of_le (by omega) (by omega)]
  · have hbound : LAST_YEAR_OF_SECONDS < 2 ^ 63 := by decide
    have hless := unixSeconds_lt h h' hlt
    have hlater := h'.fits.2.2 hyear
    have hpos : 0 ≤ unixSeconds d := by
      have := h.fits.1
      unfold unixSeconds
      omega
    have hyears : d.year ≤ d'.year := by
      simp only [DateTime.fields, List.cons_lt_cons_iff] at hlt
      omega
    rw [toUnixSeconds_eq h (by omega), toUnixSeconds_eq h' (by omega), Int64.lt_iff_toInt_lt,
      Int64.toInt_ofInt_of_le (by omega) (by omega), Int64.toInt_ofInt_of_le (by omega) hlater]
    exact hless

/-- The seconds overflow at half past three on the fourth of December of the next year. -/
def lastSecond : DateTime := ⟨LAST_YEAR_OF_SECONDS + 1, 12, 4, 15, 30, 7⟩

theorem seconds_overflow : ∃ d d' : DateTime, d.Valid ∧ d'.Valid ∧ d.fields < d'.fields ∧
    toUnixSeconds d' < toUnixSeconds d :=
  ⟨lastSecond, { lastSecond with second := 8 }, ⟨by decide, by decide, by decide, by decide⟩,
    ⟨by decide, by decide, by decide, by decide⟩, by decide, by decide⟩

end BigOS.Time
