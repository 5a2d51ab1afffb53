import Mathlib.Data.Nat.Init
import Mathlib.Logic.Function.Iterate
import Mathlib.Order.Monotone.Basic
import Mathlib.Tactic.Common
import Mathlib.Tactic.IntervalCases

/-!
# The Gregorian calendar

A date of the proleptic Gregorian calendar, and the date of the next day. The days that follow an
epoch are counted by `daysAfter`. `marchDays` numbers the dates in a closed form, with years that
begin on the first of March, so that the leap day is the last of its year: the number of the next day
is the next number (`marchDays_next`). `rank` is a number that grows from day to day with the year,
the month and the day, in that order (`strictMono_rank_daysAfter`).
-/

namespace RvvmHal.Gregorian

/-- A leap year. -/
def IsLeap (year : ℕ) : Prop := year % 4 = 0 ∧ (year % 100 ≠ 0 ∨ year % 400 = 0)

instance (year : ℕ) : Decidable (IsLeap year) := inferInstanceAs (Decidable (_ ∧ _))

/-- How many days a month has. -/
def monthLength (year month : ℕ) : ℕ :=
  if month = 2 then if IsLeap year then 29 else 28
  else if month = 4 ∨ month = 6 ∨ month = 9 ∨ month = 11 then 30
  else 31

theorem monthLength_february_of_leap {year : ℕ} (h : IsLeap year) : monthLength year 2 = 29 := by
  rw [monthLength, if_pos rfl, if_pos h]

theorem monthLength_february_of_not_leap {year : ℕ} (h : ¬ IsLeap year) :
    monthLength year 2 = 28 := by
  rw [monthLength, if_pos rfl, if_neg h]

theorem monthLength_february_le (year : ℕ) : monthLength year 2 ≤ 29 := by
  rw [monthLength, if_pos rfl]
  split_ifs <;> decide

theorem monthLength_of_ne {year month : ℕ} (h : month ≠ 2) :
    monthLength year month =
      if month = 4 ∨ month = 6 ∨ month = 9 ∨ month = 11 then 30 else 31 :=
  if_neg h

/-- How many leap years there are from 1 on, up to a year. -/
def leapYears (year : ℕ) : ℕ := year / 4 - year / 100 + year / 400

theorem leapYears_succ_of_leap {year : ℕ} (h : IsLeap (year + 1)) :
    leapYears (year + 1) = leapYears year + 1 := by
  obtain ⟨hfour, hcentury⟩ := h
  unfold leapYears
  omega

theorem leapYears_succ_of_not_leap {year : ℕ} (h : ¬ IsLeap (year + 1)) :
    leapYears (year + 1) = leapYears year := by
  unfold leapYears
  by_cases hfour : (year + 1) % 4 = 0
  · -- the year ends a century and no era
    have hcentury : (year + 1) % 100 = 0 ∧ (year + 1) % 400 ≠ 0 := by
      unfold IsLeap at h
      omega
    have h₄ : (year + 1) / 4 = year / 4 + 1 := by omega
    have h₁₀₀ : (year + 1) / 100 = year / 100 + 1 := by omega
    have h₄₀₀ : (year + 1) / 400 = year / 400 := by omega
    rw [h₄, h₁₀₀, h₄₀₀, Nat.add_sub_add_right]
  · have h₄ : (year + 1) / 4 = year / 4 := by omega
    have h₁₀₀ : (year + 1) / 100 = year / 100 := by omega
    have h₄₀₀ : (year + 1) / 400 = year / 400 := by omega
    rw [h₄, h₁₀₀, h₄₀₀]

/-- A date. -/
@[ext]
structure Date where
  year : ℕ
  month : ℕ
  day : ℕ
  month_pos : 1 ≤ month
  month_le : month ≤ 12
  day_pos : 1 ≤ day
  day_le : day ≤ monthLength year month
  deriving DecidableEq

theorem monthLength_bounds (year month : ℕ) :
    28 ≤ monthLength year month ∧ monthLength year month ≤ 31 := by
  unfold monthLength
  split_ifs <;> omega

theorem one_le_monthLength (year month : ℕ) : 1 ≤ monthLength year month := by
  have h := monthLength_bounds year month
  omega

namespace Date

/-- The next day. -/
def next (d : Date) : Date :=
  if hday : d.day < monthLength d.year d.month then
    { d with
      day := d.day + 1
      day_pos := Nat.le_add_left 1 d.day
      day_le := hday }
  else if hmonth : d.month < 12 then
    { year := d.year
      month := d.month + 1
      day := 1
      month_pos := Nat.le_add_left 1 d.month
      month_le := hmonth
      day_pos := Nat.le_refl 1
      day_le := one_le_monthLength d.year (d.month + 1) }
  else
    { year := d.year + 1
      month := 1
      day := 1
      month_pos := Nat.le_refl 1
      month_le := by decide
      day_pos := Nat.le_refl 1
      day_le := one_le_monthLength (d.year + 1) 1 }

/-- The date so many days after a date. -/
def daysAfter (d : Date) (n : ℕ) : Date := next^[n] d

variable {d : Date}

theorem next_of_lt (hday : d.day < monthLength d.year d.month) :
    d.next.year = d.year ∧ d.next.month = d.month ∧ d.next.day = d.day + 1 := by
  rw [next, dif_pos hday]
  exact ⟨rfl, rfl, rfl⟩

theorem next_of_month (hday : ¬ d.day < monthLength d.year d.month) (hmonth : d.month < 12) :
    d.next.year = d.year ∧ d.next.month = d.month + 1 ∧ d.next.day = 1 := by
  rw [next, dif_neg hday, dif_pos hmonth]
  exact ⟨rfl, rfl, rfl⟩

theorem next_of_year (hday : ¬ d.day < monthLength d.year d.month) (hmonth : ¬ d.month < 12) :
    d.next.year = d.year + 1 ∧ d.next.month = 1 ∧ d.next.day = 1 := by
  rw [next, dif_neg hday, dif_neg hmonth]
  exact ⟨rfl, rfl, rfl⟩

theorem daysAfter_succ (d : Date) (n : ℕ) : d.daysAfter (n + 1) = (d.daysAfter n).next :=
  Function.iterate_succ_apply' next n d

/-! ## Years that begin in March -/

/-- The year that has begun last, on the first of March. -/
def marchYear (d : Date) : ℕ := if d.month ≤ 2 then d.year - 1 else d.year

/-- The month in that year, from 0 on. -/
def marchMonth (d : Date) : ℕ := if d.month ≤ 2 then d.month + 9 else d.month - 3

/-- The day in that year, from 0 on. -/
def marchDay (d : Date) : ℕ := (153 * d.marchMonth + 2) / 5 + d.day - 1

/-- The number of a date: that of the first of March of the year 0 is 0. -/
def marchDays (d : Date) : ℕ := 365 * d.marchYear + leapYears d.marchYear + d.marchDay

variable {d : Date}

theorem marchYear_of_le (h : d.month ≤ 2) : d.marchYear = d.year - 1 := if_pos h

theorem marchYear_of_lt (h : 2 < d.month) : d.marchYear = d.year := if_neg (Nat.not_le.2 h)

theorem marchMonth_of_le (h : d.month ≤ 2) : d.marchMonth = d.month + 9 := if_pos h

theorem marchMonth_of_lt (h : 2 < d.month) : d.marchMonth = d.month - 3 := if_neg (Nat.not_le.2 h)

/-- A day more in the same month. -/
theorem marchDays_next_of_lt (hday : d.day < monthLength d.year d.month) :
    d.next.marchDays = d.marchDays + 1 := by
  have hpos := d.day_pos
  obtain ⟨hy, hm, hd⟩ := next_of_lt hday
  unfold marchDays marchDay marchYear marchMonth
  rw [hy, hm, hd]
  omega

/-- The leap day, if there is one, is the last of its year. -/
theorem marchDays_next_of_february (hyear : 0 < d.year) (hfeb : d.month = 2)
    (hday : ¬ d.day < monthLength d.year d.month) : d.next.marchDays = d.marchDays + 1 := by
  obtain ⟨hy, hm, hd⟩ := next_of_month hday (by omega)
  have hlast : d.day = monthLength d.year 2 := by
    rw [← hfeb]
    exact Nat.le_antisymm d.day_le (Nat.not_lt.1 hday)
  obtain ⟨y, hy₁⟩ : ∃ y, d.year = y + 1 := ⟨d.year - 1, by omega⟩
  unfold marchDays marchDay
  rw [marchYear_of_lt (by omega), marchMonth_of_lt (by omega), marchYear_of_le (by omega),
    marchMonth_of_le (by omega), hy, hm, hd, hlast, hfeb, hy₁,
    Nat.add_sub_cancel y 1]
  by_cases hleap : IsLeap (y + 1)
  · rw [monthLength_february_of_leap hleap, leapYears_succ_of_leap hleap]
    omega
  · rw [monthLength_february_of_not_leap hleap, leapYears_succ_of_not_leap hleap]
    omega

/-- The months from March to November. -/
theorem marchDays_next_of_month (hmonth : d.month < 12) (hmarch : 2 < d.month)
    (hday : ¬ d.day < monthLength d.year d.month) : d.next.marchDays = d.marchDays + 1 := by
  obtain ⟨hy, hm, hd⟩ := next_of_month hday hmonth
  have hlast : d.day = monthLength d.year d.month := Nat.le_antisymm d.day_le (Nat.not_lt.1 hday)
  unfold marchDays marchDay
  rw [marchYear_of_lt (by omega), marchMonth_of_lt (by omega), marchYear_of_lt (by omega),
    marchMonth_of_lt (by omega), hy, hm, hd, hlast, monthLength_of_ne (by omega)]
  generalize d.month = month at hmonth hmarch ⊢
  interval_cases month <;> rfl

/-- The months that belong to the March year before. -/
theorem marchDays_next_of_january (hmonth : d.month = 1)
    (hday : ¬ d.day < monthLength d.year d.month) : d.next.marchDays = d.marchDays + 1 := by
  obtain ⟨hy, hm, hd⟩ := next_of_month hday (by omega)
  have hlast : d.day = monthLength d.year d.month := Nat.le_antisymm d.day_le (Nat.not_lt.1 hday)
  unfold marchDays marchDay
  rw [marchYear_of_le (by omega), marchMonth_of_le (by omega), marchYear_of_le (by omega),
    marchMonth_of_le (by omega), hy, hm, hd, hlast, monthLength_of_ne (by omega), hmonth,
    if_neg (by decide)]

/-- The first of January. -/
theorem marchDays_next_of_december (hmonth : d.month = 12)
    (hday : ¬ d.day < monthLength d.year d.month) : d.next.marchDays = d.marchDays + 1 := by
  obtain ⟨hy, hm, hd⟩ := next_of_year hday (by omega)
  have hlast : d.day = monthLength d.year d.month := Nat.le_antisymm d.day_le (Nat.not_lt.1 hday)
  unfold marchDays marchDay
  rw [marchYear_of_le (by omega), marchMonth_of_le (by omega), marchYear_of_lt (by omega),
    marchMonth_of_lt (by omega), hy, hm, hd, hlast, monthLength_of_ne (by omega), hmonth]
  rfl

/-- **The next day has the next number.** -/
theorem marchDays_next (hyear : 0 < d.year) : d.next.marchDays = d.marchDays + 1 := by
  have hpos := d.month_pos
  have hle := d.month_le
  by_cases hday : d.day < monthLength d.year d.month
  · exact marchDays_next_of_lt hday
  · rcases (by omega : d.month = 1 ∨ d.month = 2 ∨ d.month = 12 ∨ 2 < d.month ∧ d.month < 12) with
      hjan | hfeb | hdec | ⟨hmarch, hmonth⟩
    · exact marchDays_next_of_january hjan hday
    · exact marchDays_next_of_february hyear hfeb hday
    · exact marchDays_next_of_december hdec hday
    · exact marchDays_next_of_month hmonth hmarch hday

theorem year_le_next (d : Date) : d.year ≤ d.next.year := by
  unfold next
  split_ifs
  · exact Nat.le_refl _
  · exact Nat.le_refl _
  · exact Nat.le_succ _

theorem year_pos_daysAfter (hyear : 0 < d.year) (n : ℕ) : 0 < (d.daysAfter n).year := by
  induction n with
  | zero => exact hyear
  | succ n ih =>
    rw [daysAfter_succ]
    exact ih.trans_le (year_le_next _)

/-- **The number of a later date.** -/
theorem marchDays_daysAfter (hyear : 0 < d.year) (n : ℕ) :
    (d.daysAfter n).marchDays = d.marchDays + n := by
  induction n with
  | zero => rfl
  | succ n ih =>
    rw [daysAfter_succ, marchDays_next (year_pos_daysAfter hyear n), ih, Nat.add_assoc]

/-! ## Reading a number back -/

theorem marchMonth_le (d : Date) : d.marchMonth ≤ 11 := by
  have hle := d.month_le
  unfold marchMonth
  split_ifs <;> omega

/-- The months of a year that begins in March tile it. -/
theorem marchDay_lt (d : Date) : d.marchDay < (153 * (d.marchMonth + 1) + 2) / 5 := by
  have hpos := d.month_pos
  have hle := d.month_le
  have hday := d.day_le
  unfold marchDay
  by_cases hfeb : d.month = 2
  · have hlength := monthLength_february_le d.year
    rw [hfeb] at hday
    rw [marchMonth_of_le (by omega), hfeb]
    omega
  · rw [monthLength_of_ne hfeb] at hday
    unfold marchMonth
    generalize d.month = month at hpos hle hday hfeb ⊢
    interval_cases month <;> simp at hday ⊢ <;> omega

/-- Only a leap year has a day 365. -/
theorem marchDay_cases (d : Date) :
    d.marchDay ≤ 364 ∨ d.marchDay = 365 ∧ d.month = 2 ∧ IsLeap d.year := by
  have hlt := marchDay_lt d
  have hmonth := marchMonth_le d
  by_cases hfeb : d.month = 2
  · have hday := d.day_le
    rw [hfeb] at hday
    unfold marchDay
    rw [marchMonth_of_le (by omega), hfeb]
    by_cases hleap : IsLeap d.year
    · rw [monthLength_february_of_leap hleap] at hday
      refine (Nat.lt_or_ge d.day 29).imp (fun h => by omega) fun h => ⟨by omega, rfl, hleap⟩
    · rw [monthLength_february_of_not_leap hleap] at hday
      exact Or.inl (by omega)
  · have : d.marchMonth ≤ 10 := by
      have hpos := d.month_pos
      have hle := d.month_le
      unfold marchMonth
      split_ifs <;> omega
    exact Or.inl (by omega)

theorem leapYears_eq {e c q r : ℕ} (hc : c < 4) (hq : q < 25) (hr : r < 4) :
    leapYears (400 * e + 100 * c + 4 * q + r) = 97 * e + 24 * c + q := by
  unfold leapYears
  omega

/-- The year before a leap year is the last of its cycle, and the last of its century only if that is
the last of its era. -/
theorem cycle_of_isLeap_succ {y : ℕ} (hleap : IsLeap (y + 1)) :
    y % 4 = 3 ∧ (y / 4 % 25 < 24 ∨ y / 100 % 4 = 3) := by
  obtain ⟨hfour, hcentury⟩ := hleap
  refine ⟨by omega, ?_⟩
  rcases hcentury with hcentury | hera
  · exact Or.inl (by omega)
  · exact Or.inr (by omega)

/-- **A number splits into an era of 400 years, a century, a cycle of four years, a year and a day.**
-/
theorem exists_era (hyear : 0 < d.year) :
    ∃ e c q r, c < 4 ∧ q < 25 ∧ r < 4 ∧ d.marchYear = 400 * e + 100 * c + 4 * q + r ∧
      d.marchDays = 146097 * e + (36524 * c + 1461 * q + 365 * r + d.marchDay) ∧
      (d.marchDay ≤ 364 ∨ d.marchDay = 365 ∧ r = 3 ∧ (q < 24 ∨ c = 3)) := by
  have hyear₁ : d.marchYear = 400 * (d.marchYear / 400) + 100 * (d.marchYear / 100 % 4) +
      4 * (d.marchYear / 4 % 25) + d.marchYear % 4 := by
    omega
  have hc : d.marchYear / 100 % 4 < 4 := Nat.mod_lt _ (by decide)
  have hq : d.marchYear / 4 % 25 < 25 := Nat.mod_lt _ (by decide)
  have hr : d.marchYear % 4 < 4 := Nat.mod_lt _ (by decide)
  have hleap := leapYears_eq (e := d.marchYear / 400) hc hq hr
  rw [← hyear₁] at hleap
  refine ⟨_, _, _, _, hc, hq, hr, hyear₁, ?_, ?_⟩
  · rw [marchDays, hleap]
    generalize d.marchYear / 400 = e at hyear₁ ⊢
    generalize d.marchYear / 100 % 4 = c at hyear₁ ⊢
    generalize d.marchYear / 4 % 25 = q at hyear₁ ⊢
    generalize d.marchYear % 4 = r at hyear₁ ⊢
    omega
  · rcases marchDay_cases d with hday | ⟨hday, hfeb, hleap⟩
    · exact Or.inl hday
    · have hmarch : d.marchYear = d.year - 1 := marchYear_of_le (by omega)
      rw [hmarch]
      exact Or.inr ⟨hday, cycle_of_isLeap_succ (by rwa [Nat.sub_add_cancel hyear])⟩

/-! ## The order of dates -/

/-- A number that grows with the year, the month and the day, in that order. -/
def rank (d : Date) : ℕ := d.year * 512 + d.month * 32 + d.day

theorem rank_lt_next (d : Date) : d.rank < d.next.rank := by
  have hbounds := monthLength_bounds d.year d.month
  have hle := d.month_le
  have hday := d.day_le
  unfold rank
  by_cases hlt : d.day < monthLength d.year d.month
  · obtain ⟨hy, hm, hd⟩ := next_of_lt hlt
    omega
  · by_cases hmonth : d.month < 12
    · obtain ⟨hy, hm, hd⟩ := next_of_month hlt hmonth
      omega
    · obtain ⟨hy, hm, hd⟩ := next_of_year hlt hmonth
      omega

/-- **Dates go on.** -/
theorem strictMono_rank_daysAfter (d : Date) : StrictMono fun n => (d.daysAfter n).rank := by
  refine strictMono_nat_of_lt_succ fun n => ?_
  rw [daysAfter_succ]
  exact rank_lt_next _

end Date

end RvvmHal.Gregorian
