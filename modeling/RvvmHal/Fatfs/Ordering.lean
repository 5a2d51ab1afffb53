import RvvmHal.Fatfs.Timestamp

/-!
# The order of file timestamps

A later instant should not get a smaller word, and a word should name a date that exists. Beyond the
year 2107 `get_fattime` clamps the year only: the month, the day and the time go on, so the words jump
back at each new year, and the leap days that lie there are dates of a year without one.
-/

namespace RvvmHal.Fatfs

open Gregorian

/-- The date and the time of a stamp exist. -/
def IsTimestamp (x : Stamp) : Prop :=
  (1 ≤ x.month ∧ x.month ≤ 12) ∧ (1 ≤ x.day ∧ x.day ≤ monthLength x.year x.month) ∧
    x.hour < 24 ∧ x.minute < 60 ∧ x.second < 60

instance (x : Stamp) : Decidable (IsTimestamp x) := inferInstanceAs (Decidable (_ ∧ _))

/-- Two instants have words that do not go backwards and that name dates and times that exist. -/
def Ordered (s t : ℕ) : Prop :=
  ∃ v w, getFattime s = some v ∧ getFattime t = some w ∧ v ≤ w ∧
    IsTimestamp (unpack v) ∧ IsTimestamp (unpack w)

/-- A leap day that a word cannot name. -/
def IsLateLeapDay (secs : ℕ) : Prop :=
  2107 < (dateAt secs).year ∧ (dateAt secs).month = 2 ∧ (dateAt secs).day = 29

instance (secs : ℕ) : Decidable (IsLateLeapDay secs) := inferInstanceAs (Decidable (_ ∧ _))

/-- The month, the day and the time of an instant, in steps of two seconds, in that order. -/
def timeOfYear (secs : ℕ) : ℕ :=
  ((dateAt secs).month * 32 + (dateAt secs).day) * 43200 + secs % 86400 / 2

/-! ## Words as numbers -/

/-- The fields of the time as a number. -/
def timeWord (secOfDay : ℕ) : ℕ :=
  secOfDay / 3600 * 2 ^ 11 + secOfDay / 60 % 60 * 2 ^ 5 + secOfDay % 60 / 2

theorem timeWord_lt {a : ℕ} (ha : a < 86400) : timeWord a < 2 ^ 16 := by
  unfold timeWord
  omega

/-- The fields of the time are digits. -/
theorem half_eq (a : ℕ) :
    a / 2 = 1800 * (a / 3600) + 30 * (a / 60 % 60) + a % 60 / 2 ∧ a / 60 % 60 < 60 ∧
      a % 60 / 2 < 30 := by
  omega

theorem timeWord_le_iff (a b : ℕ) : timeWord a ≤ timeWord b ↔ a / 2 ≤ b / 2 := by
  obtain ⟨ha, hmin, hsec⟩ := half_eq a
  obtain ⟨hb, hmin₁, hsec₁⟩ := half_eq b
  unfold timeWord
  rw [ha, hb]
  rcases Nat.lt_trichotomy (a / 3600) (b / 3600) with hhour | hhour | hhour
  · omega
  · rcases Nat.lt_trichotomy (a / 60 % 60) (b / 60 % 60) with hmin₂ | hmin₂ | hmin₂ <;> omega
  · omega

/-- The fields below the year as a number. -/
def yearWord (secs : ℕ) : ℕ :=
  ((dateAt secs).month * 32 + (dateAt secs).day) * 2 ^ 16 + timeWord (secs % 86400)

variable {s t : ℕ}

theorem dayWord_eq (date : Date) (year secOfDay : ℕ) :
    dayWord date year secOfDay =
      (year - 1980) * 2 ^ 25 + ((date.month * 32 + date.day) * 2 ^ 16 + timeWord secOfDay) := by
  unfold dayWord packed timeWord
  omega

theorem yearWord_le_iff (s t : ℕ) : yearWord s ≤ yearWord t ↔ timeOfYear s ≤ timeOfYear t := by
  have hs := timeWord_lt (Nat.mod_lt s (by decide : 0 < 86400))
  have ht := timeWord_lt (Nat.mod_lt t (by decide : 0 < 86400))
  have hle := timeWord_le_iff (s % 86400) (t % 86400)
  unfold yearWord timeOfYear
  omega

theorem yearWord_lt (secs : ℕ) : yearWord secs < 2 ^ 25 := by
  have hmonth := (dateAt secs).month_le
  have hday := (monthLength_bounds (dateAt secs).year (dateAt secs).month).2.trans'
    (dateAt secs).day_le
  have htime := timeWord_lt (Nat.mod_lt secs (by decide : 0 < 86400))
  unfold yearWord
  omega

/-! ## The order of instants -/

theorem rank_dateAt_le (h : s ≤ t) : (dateAt s).rank ≤ (dateAt t).rank :=
  (Date.strictMono_rank_daysAfter epoch).monotone (Nat.div_le_div_right h)

theorem year_dateAt_le (h : s ≤ t) : (dateAt s).year ≤ (dateAt t).year := by
  have hrank := rank_dateAt_le h
  have hmonth := (dateAt t).month_le
  have hday := (monthLength_bounds (dateAt t).year (dateAt t).month).2.trans' (dateAt t).day_le
  unfold Date.rank at hrank
  omega

/-- Within a year the time goes on. -/
theorem timeOfYear_le (h : s ≤ t) (hyear : (dateAt s).year = (dateAt t).year) :
    timeOfYear s ≤ timeOfYear t := by
  rcases (Nat.div_le_div_right h : s / 86400 ≤ t / 86400).eq_or_lt with hday | hday
  · have hdate : dateAt s = dateAt t := by
      rw [dateAt, hday, ← dateAt]
    unfold timeOfYear
    rw [hdate]
    omega
  · have hrank : (dateAt s).rank < (dateAt t).rank := Date.strictMono_rank_daysAfter epoch hday
    unfold Date.rank at hrank
    unfold timeOfYear
    omega

/-! ## Which words are in order -/

/-- The word of an instant, as the code gives it. -/
def word (secs : ℕ) : ℕ :=
  if (dateAt secs).year < 1980 then packed 0 1 1 0 0 0
  else (min (dateAt secs).year 2107 - 1980) * 2 ^ 25 + yearWord secs

theorem getFattime_eq_word (hyear : (dateAt s).year < 2 ^ 31) : getFattime s = some (word s) := by
  rw [getFattime_eq hyear, dayWord_eq]
  rfl

/-- **A word names a date but for the leap days after 2107.** -/
theorem isTimestamp_word_iff : IsTimestamp (unpack (word s)) ↔ ¬ IsLateLeapDay s := by
  by_cases hearly : (dateAt s).year < 1980
  · rw [word, if_pos hearly]
    refine iff_of_true (by decide) fun hleap => ?_
    exact absurd hleap.1 (by omega)
  · have hmonth := (dateAt s).month_pos
    have hmonth₁ := (dateAt s).month_le
    have hday := (dateAt s).day_pos
    have hday₁ := (dateAt s).day_le
    have hday₂ := (monthLength_bounds (dateAt s).year (dateAt s).month).2.trans' hday₁
    have hstamp : unpack (word s) = ⟨min (dateAt s).year 2107, (dateAt s).month, (dateAt s).day,
        s % 86400 / 3600, s % 86400 / 60 % 60, 2 * (s % 86400 % 60 / 2)⟩ := by
      have hword : word s = dayWord (dateAt s) (min (dateAt s).year 2107) (s % 86400) := by
        rw [word, if_neg hearly, dayWord_eq]
        rfl
      rw [hword, dayWord, unpack_packed (by omega) (by omega) (by omega) (by omega) (by omega),
        Stamp.mk.injEq]
      omega
    have htime : s % 86400 / 3600 < 24 ∧ s % 86400 / 60 % 60 < 60 ∧
        2 * (s % 86400 % 60 / 2) < 60 := by
      omega
    rw [hstamp, IsTimestamp, IsLateLeapDay]
    simp only [hmonth, hmonth₁, hday, htime, true_and, and_true]
    rcases Nat.lt_or_ge 2107 (dateAt s).year with hlate | hlate
    · rw [Nat.min_eq_right (by omega)]
      by_cases hfeb : (dateAt s).month = 2
      · have hlength := monthLength_february_le (dateAt s).year
        rw [hfeb] at hday₁ ⊢
        rw [monthLength_february_of_not_leap (by decide)]
        omega
      · rw [monthLength_of_ne hfeb] at hday₁ ⊢
        exact iff_of_true hday₁ (by omega)
    · rw [Nat.min_eq_left hlate]
      exact iff_of_true hday₁ (by omega)

/-- **Words go on up to the end of 2107, and then within each year.** -/
theorem word_le_iff (h : s ≤ t) :
    word s ≤ word t ↔
      (dateAt t).year ≤ 2107 ∨ (dateAt s).year < 2107 ∨ timeOfYear s ≤ timeOfYear t := by
  have hyear := year_dateAt_le h
  have hs := yearWord_lt s
  have ht := yearWord_lt t
  have hle := yearWord_le_iff s t
  by_cases hearly : (dateAt s).year < 1980
  · refine iff_of_true ?_ (by omega)
    have hmonth := (dateAt t).month_pos
    have hday := (dateAt t).day_pos
    have hfirst : packed 0 1 1 0 0 0 ≤ yearWord t := by
      unfold packed yearWord
      omega
    rw [word, if_pos hearly, word]
    split_ifs
    · exact Nat.le_refl _
    · exact hfirst.trans (Nat.le_add_left _ _)
  · rw [word, if_neg hearly, word, if_neg (by omega)]
    rcases hyear.eq_or_lt with hsame | hlt
    · have htime := timeOfYear_le h hsame
      rw [hsame]
      omega
    · omega

/-- **Which words are valid and in order**, for two instants that the clock can show: neither is a
leap day after 2107, and if the second lies after 2107 and the first in 2107 or later, the second is
not earlier in its year. -/
theorem ordered_iff {lo hi lo' hi' : BitVec 32} (h : rtcNowSeconds lo hi ≤ rtcNowSeconds lo' hi') :
    Ordered (rtcNowSeconds lo hi) (rtcNowSeconds lo' hi') ↔
      (¬ IsLateLeapDay (rtcNowSeconds lo hi) ∧ ¬ IsLateLeapDay (rtcNowSeconds lo' hi')) ∧
        ((dateAt (rtcNowSeconds lo' hi')).year ≤ 2107 ∨ (dateAt (rtcNowSeconds lo hi)).year < 2107 ∨
          timeOfYear (rtcNowSeconds lo hi) ≤ timeOfYear (rtcNowSeconds lo' hi')) := by
  have hs := dateAt_year_lt (rtcNowSeconds_lt lo hi)
  have ht := dateAt_year_lt (rtcNowSeconds_lt lo' hi')
  rw [← word_le_iff h, ← isTimestamp_word_iff, ← isTimestamp_word_iff, Ordered,
    getFattime_eq_word (by omega), getFattime_eq_word (by omega)]
  constructor
  · rintro ⟨v, w, hv, hw, hle, hvalid, hvalid'⟩
    rw [Option.some_inj.1 hv, Option.some_inj.1 hw]
    exact ⟨⟨hvalid, hvalid'⟩, hle⟩
  · rintro ⟨⟨hvalid, hvalid'⟩, hle⟩
    exact ⟨_, _, rfl, rfl, hle, hvalid, hvalid'⟩

theorem ordered_iff_epoch :
    rtcNowSeconds 0 0 ≤ rtcNowSeconds 0 1 ∧
      (Ordered (rtcNowSeconds 0 0) (rtcNowSeconds 0 1) ↔
        (¬ IsLateLeapDay (rtcNowSeconds 0 0) ∧ ¬ IsLateLeapDay (rtcNowSeconds 0 1)) ∧
          ((dateAt (rtcNowSeconds 0 1)).year ≤ 2107 ∨ (dateAt (rtcNowSeconds 0 0)).year < 2107 ∨
            timeOfYear (rtcNowSeconds 0 0) ≤ timeOfYear (rtcNowSeconds 0 1))) :=
  ⟨by decide, ordered_iff (by decide)⟩

/-- From the last day of 2108 to the first of 2109 the word goes back; on the leap day of 2108 it names
the 29th of February 2107. -/
theorem ordered_newYear :
    rtcNowSeconds 0x82b00000 0x3cdf76d0 ≤ rtcNowSeconds 0x13ff0000 0x3cdfc565 ∧
      ¬ Ordered (rtcNowSeconds 0x82b00000 0x3cdf76d0) (rtcNowSeconds 0x13ff0000 0x3cdfc565) ∧
      (getFattime (rtcNowSeconds 0xd2420000 0x3c81893a)).map unpack = some ⟨2107, 2, 29, 0, 0, 0⟩ := by
  have hs : getFattime (rtcNowSeconds 0x82b00000 0x3cdf76d0) = some 4288610304 := by decide +kernel
  have ht : getFattime (rtcNowSeconds 0x13ff0000 0x3cdfc565) = some 4263575552 := by decide +kernel
  refine ⟨by decide, ?_, by decide +kernel⟩
  rintro ⟨v, w, hv, hw, hle, -⟩
  rw [hs, Option.some_inj] at hv
  rw [ht, Option.some_inj] at hw
  omega

end RvvmHal.Fatfs
