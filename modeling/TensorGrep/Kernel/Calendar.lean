import Mathlib.Tactic.IntervalCases

/-!
# The Gregorian calendar

A date has a next one, by the lengths of the months and the leap-year rule.  Years that
begin with March have the leap day at their end, so that the months of every year begin at
the same days, and the number of days before a year is a polynomial with floors.

`iterate_next_eq_ofMarch` is the rule for functions that split a number of days into such
a year and a day in it: they give the date so many days later.
-/

namespace TensorGrep
namespace Kernel

/-! ## Dates -/

/-- A date. -/
structure Date where
  year : ℕ
  month : ℕ
  day : ℕ
deriving DecidableEq

/-- Every fourth year, but of the centuries only every fourth one. -/
def IsLeapYear (year : ℕ) : Prop :=
  year % 4 = 0 ∧ (year % 100 ≠ 0 ∨ year % 400 = 0)

instance : DecidablePred IsLeapYear := fun year =>
  inferInstanceAs (Decidable (year % 4 = 0 ∧ (year % 100 ≠ 0 ∨ year % 400 = 0)))

/-- The number of days of a month. -/
def daysInMonth
    (year : ℕ) : ℕ → ℕ
  | 2 => if IsLeapYear year then 29 else 28
  | 4 => 30
  | 6 => 30
  | 9 => 30
  | 11 => 30
  | _ => 31

/-- The next date. -/
def Date.next (d : Date) : Date :=
  if d.day < daysInMonth d.year d.month then ⟨d.year, d.month, d.day + 1⟩
  else if d.month < 12 then ⟨d.year, d.month + 1, 1⟩
  else ⟨d.year + 1, 1, 1⟩

/-- One date is before another one. -/
def Date.Before (a b : Date) : Prop :=
  a.year < b.year ∨ a.year = b.year ∧ (a.month < b.month ∨ a.month = b.month ∧ a.day < b.day)

theorem Date.Before.trans
    {a b c : Date}
    (hab : a.Before b)
    (hbc : b.Before c) :
    a.Before c := by
  unfold Date.Before at *
  omega

/-- A date is before the next one. -/
theorem Date.before_next (d : Date) : d.Before d.next := by
  rw [Date.next]
  split_ifs with hday hmonth
  · exact Or.inr ⟨rfl, Or.inr ⟨rfl, Nat.lt_succ_self _⟩⟩
  · exact Or.inr ⟨rfl, Or.inl (Nat.lt_succ_self _)⟩
  · exact Or.inl (Nat.lt_succ_self _)

/-- More days make a later date. -/
theorem before_iterate_next
    (start : Date)
    {m n : ℕ}
    (h : m < n) :
    (Date.next^[m] start).Before (Date.next^[n] start) := by
  induction n with
  | zero => exact absurd h (Nat.not_lt_zero m)
  | succ n ih =>
      rw [Function.iterate_succ_apply']
      have hstep := (Date.next^[n] start).before_next
      rcases Nat.lt_succ_iff_lt_or_eq.mp h with hlt | rfl
      · exact (ih hlt).trans hstep
      · exact hstep

/-! ## Years that begin with March -/

/-- The number of days of a year that begins with March. -/
def marchYearLength (year : ℕ) : ℕ :=
  if IsLeapYear (year + 1) then 366 else 365

/-- The number of days before a year that begins with March. -/
def daysBeforeMarchYear (year : ℕ) : ℕ :=
  365 * year + year / 4 - year / 100 + year / 400

/-- The first day of a month, where March is the month 0. -/
def monthStart (month : ℕ) : ℕ :=
  (153 * month + 2) / 5

/-- The month of a day of a year, where March is the month 0. -/
def marchMonth (dayOfYear : ℕ) : ℕ :=
  (5 * dayOfYear + 2) / 153

/-- The number of a month, where March is the month 0. -/
def civilMonth (month : ℕ) : ℕ :=
  if month < 10 then month + 3 else month - 9

/-- The date of a day of a year that begins with March. -/
def Date.ofMarch
    (year dayOfYear : ℕ) : Date where
  year := if civilMonth (marchMonth dayOfYear) ≤ 2 then year + 1 else year
  month := civilMonth (marchMonth dayOfYear)
  day := dayOfYear - monthStart (marchMonth dayOfYear) + 1

theorem daysBeforeMarchYear_succ (year : ℕ) :
    daysBeforeMarchYear (year + 1) = daysBeforeMarchYear year + marchYearLength year := by
  have hcenturies : year / 100 ≤ 365 * year + year / 4 := by omega
  have hleap : IsLeapYear (year + 1) ↔ 4 ∣ year + 1 ∧ (¬ 100 ∣ year + 1 ∨ 400 ∣ year + 1) := by
    simp only [IsLeapYear, Nat.dvd_iff_mod_eq_zero, ne_eq]
  have hfour : 100 ∣ year + 1 → 4 ∣ year + 1 := fun h => Dvd.dvd.trans (by decide) h
  have hcentury : 400 ∣ year + 1 → 100 ∣ year + 1 := fun h => Dvd.dvd.trans (by decide) h
  simp only [daysBeforeMarchYear, marchYearLength, hleap, Nat.succ_div]
  -- The day is added at every fourth year, taken at a century, and added at a fourth one.
  by_cases h4 : 4 ∣ year + 1
  · by_cases h100 : 100 ∣ year + 1
    · by_cases h400 : 400 ∣ year + 1
      · simp [h4, h100, h400]
        omega
      · simp [h4, h100, h400]
        omega
    · have h400 : ¬ 400 ∣ year + 1 := mt hcentury h100
      simp [h4, h100, h400]
      omega
  · have h100 : ¬ 100 ∣ year + 1 := mt hfour h4
    have h400 : ¬ 400 ∣ year + 1 := mt hcentury h100
    simp [h4, h100, h400]
    omega

theorem daysBeforeMarchYear_mono
    {m n : ℕ}
    (h : m ≤ n) :
    daysBeforeMarchYear m ≤ daysBeforeMarchYear n := by
  induction n, h using Nat.le_induction with
  | base => exact le_refl _
  | succ n _ ih =>
      rw [daysBeforeMarchYear_succ]
      omega

/-- A number of days is split into a year and a day of it in one way. -/
theorem marchYear_unique
    {m n i j : ℕ}
    (hi : i < marchYearLength m)
    (hj : j < marchYearLength n)
    (h : daysBeforeMarchYear m + i = daysBeforeMarchYear n + j) :
    m = n ∧ i = j := by
  have hle {a b k l : ℕ} (hk : k < marchYearLength a)
      (hsum : daysBeforeMarchYear a + k = daysBeforeMarchYear b + l) : b ≤ a := by
    by_contra hlt
    have hmono := daysBeforeMarchYear_mono (Nat.succ_le_of_lt (not_le.mp hlt))
    rw [Nat.succ_eq_add_one, daysBeforeMarchYear_succ] at hmono
    omega
  obtain rfl := le_antisymm (hle hj h.symm) (hle hi h)
  exact ⟨rfl, Nat.add_left_cancel h⟩

/-- The month of a day is the one that the day is in. -/
theorem marchMonth_eq_iff
    {dayOfYear month : ℕ} :
    marchMonth dayOfYear = month ↔
      monthStart month ≤ dayOfYear ∧ dayOfYear < monthStart (month + 1) := by
  unfold marchMonth monthStart
  omega

/-- The lengths of the months but the last one. -/
theorem daysInMonth_civilMonth
    (year : ℕ)
    {month : ℕ}
    (h : month < 11) :
    monthStart month + daysInMonth year (civilMonth month) = monthStart (month + 1) := by
  interval_cases month <;> rfl

/-- The length of the last month. -/
theorem daysInMonth_february (year : ℕ) :
    monthStart 11 + daysInMonth (year + 1) 2 = marchYearLength year := by
  unfold daysInMonth marchYearLength
  split_ifs <;> rfl

/-- The month and the day of a date are within their bounds. -/
theorem ofMarch_bounds
    (year : ℕ)
    {dayOfYear : ℕ}
    (h : dayOfYear < 366) :
    (1 ≤ (Date.ofMarch year dayOfYear).month ∧ (Date.ofMarch year dayOfYear).month ≤ 12) ∧
      1 ≤ (Date.ofMarch year dayOfYear).day ∧ (Date.ofMarch year dayOfYear).day ≤ 31 := by
  have hmonth : marchMonth dayOfYear ≤ 11 := by
    unfold marchMonth
    omega
  refine ⟨?_, ?_⟩
  · change 1 ≤ civilMonth (marchMonth dayOfYear) ∧ civilMonth (marchMonth dayOfYear) ≤ 12
    unfold civilMonth
    split_ifs <;> omega
  · change 1 ≤ dayOfYear - monthStart (marchMonth dayOfYear) + 1 ∧
      dayOfYear - monthStart (marchMonth dayOfYear) + 1 ≤ 31
    unfold monthStart marchMonth
    omega

/-! ## Days and dates -/

/-- The next day within a month. -/
theorem ofMarch_succ_of_same_month
    {year dayOfYear : ℕ}
    (hyear : dayOfYear + 1 < marchYearLength year)
    (hmonth : dayOfYear + 1 < monthStart (marchMonth dayOfYear + 1)) :
    Date.ofMarch year (dayOfYear + 1) = (Date.ofMarch year dayOfYear).next := by
  obtain ⟨hstart, hstop⟩ := marchMonth_eq_iff.mp (rfl : marchMonth dayOfYear = _)
  have hsame : marchMonth (dayOfYear + 1) = marchMonth dayOfYear :=
    marchMonth_eq_iff.mpr ⟨by omega, hmonth⟩
  set month := marchMonth dayOfYear with hdef
  have hroom : dayOfYear - monthStart month + 1 <
      daysInMonth (if civilMonth month ≤ 2 then year + 1 else year) (civilMonth month) := by
    by_cases hlast : month < 11
    · have hlength := daysInMonth_civilMonth
        (if civilMonth month ≤ 2 then year + 1 else year) hlast
      omega
    · have hmax : marchYearLength year ≤ 366 := by
        unfold marchYearLength
        split_ifs <;> omega
      have heleven : month = 11 := by
        unfold monthStart at hstart
        omega
      have hlength := daysInMonth_february year
      rw [heleven] at hstart ⊢
      change dayOfYear - monthStart 11 + 1 < daysInMonth (year + 1) 2
      omega
  have hnext : (Date.ofMarch year dayOfYear).next =
      ⟨(Date.ofMarch year dayOfYear).year, (Date.ofMarch year dayOfYear).month,
        (Date.ofMarch year dayOfYear).day + 1⟩ := by
    rw [Date.next, if_pos]
    exact hroom
  rw [hnext]
  simp only [Date.ofMarch, hsame, ← hdef, Date.mk.injEq, true_and]
  omega

/-- The first day of the next month. -/
theorem firstDay_succ
    (year : ℕ)
    {month : ℕ}
    (h : month < 11) :
    Date.mk (if civilMonth (month + 1) ≤ 2 then year + 1 else year) (civilMonth (month + 1)) 1 =
      if civilMonth month < 12 then
        ⟨if civilMonth month ≤ 2 then year + 1 else year, civilMonth month + 1, 1⟩
      else ⟨(if civilMonth month ≤ 2 then year + 1 else year) + 1, 1, 1⟩ := by
  interval_cases month <;> rfl

/-- The next day is the first one of the next month. -/
theorem ofMarch_succ_of_next_month
    {year dayOfYear : ℕ}
    (hyear : dayOfYear + 1 < marchYearLength year)
    (hmonth : dayOfYear + 1 = monthStart (marchMonth dayOfYear + 1)) :
    Date.ofMarch year (dayOfYear + 1) = (Date.ofMarch year dayOfYear).next := by
  obtain ⟨hstart, -⟩ := marchMonth_eq_iff.mp (rfl : marchMonth dayOfYear = _)
  have hafter : marchMonth (dayOfYear + 1) = marchMonth dayOfYear + 1 := by
    refine marchMonth_eq_iff.mpr ⟨hmonth.ge, ?_⟩
    rw [hmonth]
    unfold monthStart
    omega
  have hmax : marchYearLength year ≤ 366 := by
    unfold marchYearLength
    split_ifs <;> omega
  have hlast : marchMonth dayOfYear < 11 := by
    unfold marchMonth
    unfold marchMonth monthStart at hmonth
    omega
  have hlength := daysInMonth_civilMonth
    (if civilMonth (marchMonth dayOfYear) ≤ 2 then year + 1 else year) hlast
  have hfull : ¬ (Date.ofMarch year dayOfYear).day <
      daysInMonth (Date.ofMarch year dayOfYear).year (Date.ofMarch year dayOfYear).month := by
    simp only [Date.ofMarch]
    omega
  rw [Date.next, if_neg hfull]
  simp only [Date.ofMarch, hafter]
  rw [hmonth, Nat.sub_self]
  exact firstDay_succ year hlast

/-- The next day is the first one of the next year. -/
theorem ofMarch_zero
    {year dayOfYear : ℕ}
    (hyear : dayOfYear + 1 = marchYearLength year) :
    Date.ofMarch (year + 1) 0 = (Date.ofMarch year dayOfYear).next := by
  have hcases : marchYearLength year = 366 ∨ marchYearLength year = 365 := by
    unfold marchYearLength
    split_ifs
    · exact Or.inl rfl
    · exact Or.inr rfl
  have hlast : marchMonth dayOfYear = 11 := by
    unfold marchMonth
    omega
  have hlength := daysInMonth_february year
  have hdate : Date.ofMarch year dayOfYear =
      ⟨year + 1, 2, daysInMonth (year + 1) 2⟩ := by
    simp only [Date.ofMarch, hlast]
    change Date.mk (year + 1) 2 (dayOfYear - monthStart 11 + 1) = _
    rw [Date.mk.injEq]
    unfold monthStart at hlength ⊢
    omega
  rw [hdate, Date.next, if_neg (lt_irrefl _)]
  rfl

/-- A split of the numbers of days into years and days of them gives the dates that follow
one another. -/
theorem iterate_next_eq_ofMarch
    {offset : ℕ}
    {year dayOfYear : ℕ → ℕ}
    (hsum : ∀ n, daysBeforeMarchYear (year n) + dayOfYear n = n + offset)
    (hlt : ∀ n, dayOfYear n < marchYearLength (year n))
    (n : ℕ) :
    Date.next^[n] (Date.ofMarch (year 0) (dayOfYear 0)) =
      Date.ofMarch (year n) (dayOfYear n) := by
  induction n with
  | zero => rfl
  | succ n ih =>
      rw [Function.iterate_succ_apply', ih]
      by_cases hsame : dayOfYear n + 1 < marchYearLength (year n)
      · obtain ⟨hyear, hday⟩ : year (n + 1) = year n ∧ dayOfYear (n + 1) = dayOfYear n + 1 := by
          refine marchYear_unique (hlt (n + 1)) hsame ?_
          rw [hsum (n + 1), ← Nat.add_assoc, hsum n]
          omega
        rw [hyear, hday]
        have hmonth := (marchMonth_eq_iff.mp (rfl : marchMonth (dayOfYear n) = _)).2
        rcases Nat.lt_or_eq_of_le (Nat.succ_le_of_lt hmonth) with hmore | hlast
        · exact (ofMarch_succ_of_same_month hsame hmore).symm
        · exact (ofMarch_succ_of_next_month hsame hlast).symm
      · have hfull : dayOfYear n + 1 = marchYearLength (year n) :=
          le_antisymm (hlt n) (not_lt.mp hsame)
        have hpos : 0 < marchYearLength (year n + 1) := by
          unfold marchYearLength
          split_ifs <;> decide
        obtain ⟨hyear, hday⟩ : year (n + 1) = year n + 1 ∧ dayOfYear (n + 1) = 0 := by
          refine marchYear_unique (hlt (n + 1)) hpos ?_
          rw [hsum (n + 1), daysBeforeMarchYear_succ, ← hfull]
          have := hsum n
          omega
        rw [hyear, hday]
        exact (ofMarch_zero hfull).symm

end Kernel
end TensorGrep
