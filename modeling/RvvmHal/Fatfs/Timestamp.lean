import RvvmHal.Foundations.Gregorian
import RvvmHal.Foundations.Word

/-!
# File timestamps

`get_fattime` of `fatfs_disk.c` packs the instant that the clock shows into a word of the FAT layout.
An integer conversion or a signed operation that would overflow returns `none`. The date is found by
the closed form of the source (`civilFromDays`), which inverts the numbering of the dates from March
on (`civilFromDays_marchDays`).
-/

namespace RvvmHal.Fatfs

open Gregorian

/-! ## The clock -/

/-- `rtc_now_ns`: the low register, read first, and the high one. -/
def rtcNowNs (lo hi : BitVec 32) : ℕ := hi.toNat <<< 32 ||| lo.toNat

/-- `rtc_now_seconds`. -/
def rtcNowSeconds (lo hi : BitVec 32) : ℕ := rtcNowNs lo hi / 1000000000

theorem rtcNowNs_lt (lo hi : BitVec 32) : rtcNowNs lo hi < 2 ^ 64 := by
  have hhi := hi.isLt
  have hlo := lo.isLt
  rw [rtcNowNs, Nat.or_comm, Word.or_shiftLeft hlo]
  omega

theorem rtcNowSeconds_lt (lo hi : BitVec 32) : rtcNowSeconds lo hi < 18446744074 := by
  have h := rtcNowNs_lt lo hi
  unfold rtcNowSeconds
  omega

/-! ## Integer types -/

/-- A value of type `int`. -/
def int32 (x : ℤ) : Option ℤ := if -2 ^ 31 ≤ x ∧ x < 2 ^ 31 then some x else none

/-- A value of type `int64_t`. -/
def int64 (x : ℤ) : Option ℤ := if -2 ^ 63 ≤ x ∧ x < 2 ^ 63 then some x else none

/-- A value of type `unsigned`. -/
def uint32 (x : ℤ) : Option ℕ := if 0 ≤ x ∧ x < 2 ^ 32 then some x.toNat else none

theorem int32_eq {x y : ℤ} (h : x = y) (h₁ : -2 ^ 31 ≤ y) (h₂ : y < 2 ^ 31) :
    int32 x = some y := by
  rw [h, int32, if_pos ⟨h₁, h₂⟩]

theorem int64_eq {x y : ℤ} (h : x = y) (h₁ : -2 ^ 63 ≤ y) (h₂ : y < 2 ^ 63) :
    int64 x = some y := by
  rw [h, int64, if_pos ⟨h₁, h₂⟩]

theorem uint32_eq {x : ℤ} {n : ℕ} (h : x = n) (hn : n < 2 ^ 32) : uint32 x = some n := by
  rw [h, uint32, if_pos ⟨Int.natCast_nonneg n, by exact_mod_cast hn⟩, Int.toNat_natCast]

theorem bind_eq {α β : Type} {x : Option α} {a : α} {f : α → Option β} (h : x = some a) :
    (x >>= f) = f a := by
  rw [h]
  rfl

/-! ## The date -/

/-- The part of `get_fattime` that finds the year, the month and the day of the month from the days
since the epoch. -/
def civilFromDays (days : ℤ) : Option (ℤ × ℕ × ℕ) := do
  let days ← int64 (days + 719468)
  let floored ← int64 (if 0 ≤ days then days else days - 146096)
  let era ← int32 (floored.tdiv 146097)
  let eraDays ← int64 (era * 146097)
  let doe ← uint32 (days - eraDays)
  let yearDays ← uint32 ((doe : ℤ) - doe / 1460 + doe / 36524 - doe / 146096)
  let yoe := yearDays / 365
  let eraYears ← int32 (era * 400)
  let year ← int32 (yoe + eraYears)
  let doy ← uint32 ((doe : ℤ) - (365 * yoe + yoe / 4 - yoe / 100))
  let mp := (5 * doy + 2) / 153
  let mday ← uint32 ((doy : ℤ) - (153 * mp + 2) / 5 + 1)
  let month ← uint32 (if mp < 10 then (mp : ℤ) + 3 else mp - 9)
  let year ← int32 (if month ≤ 2 then year + 1 else year)
  some (year, month, mday)

section Civil

variable {c q r doy doe : ℕ}

/-- The days of an era without the leap days before. -/
theorem uint32_yearDays (hdoe : doe < 146097) :
    uint32 ((doe : ℤ) - doe / 1460 + doe / 36524 - doe / 146096) =
      some (doe - doe / 1460 + doe / 36524 - doe / 146096) := by
  have hleap : doe / 1460 ≤ doe := Nat.div_le_self doe 1460
  have hera : doe / 146096 ≤ doe / 36524 := Nat.div_le_div_left (by decide) (by decide)
  exact uint32_eq (by omega) (by omega)

/-- The days of an era that are not leap days, in years. -/
theorem yearOfEra_eq (hc : c < 4) (hq : q < 25) (hr : r < 4)
    (hdoy : doy ≤ 364 ∨ doy = 365 ∧ r = 3 ∧ (q < 24 ∨ c = 3))
    (hdoe : doe = 36524 * c + 1461 * q + 365 * r + doy) :
    (doe - doe / 1460 + doe / 36524 - doe / 146096) / 365 = 100 * c + 4 * q + r := by
  -- the last day of the era would begin a fifth century
  have hcentury : doe / 36524 - doe / 146096 = c ∧ doe / 146096 ≤ doe / 36524 := by
    rcases (by omega : 1461 * q + 365 * r + doy < 36524 ∧ doe < 146096 ∨ doe = 146096 ∧ c = 3) with
      ⟨hlt, hera⟩ | ⟨rfl, rfl⟩
    · have hdiv : doe / 36524 = c := Nat.div_eq_of_lt_le (by omega) (by omega)
      rw [Nat.div_eq_of_lt hera, hdiv]
      exact ⟨rfl, Nat.zero_le c⟩
    · decide
  by_cases hleap : 24 * c + q + 365 * r + doy < 1460
  · have hdiv : doe / 1460 = 25 * c + q := Nat.div_eq_of_lt_le (by omega) (by omega)
    rw [hdiv]
    exact Nat.div_eq_of_lt_le (by omega) (by omega)
  · -- a leap day lies before
    have hdiv : doe / 1460 = 25 * c + q + 1 := Nat.div_eq_of_lt_le (by omega) (by omega)
    rw [hdiv]
    exact Nat.div_eq_of_lt_le (by omega) (by omega)

variable {d : Date}

theorem month_of_marchDay (d : Date) : (5 * d.marchDay + 2) / 153 = d.marchMonth := by
  have hlt := d.marchDay_lt
  have hpos := d.day_pos
  have hge : (153 * d.marchMonth + 2) / 5 ≤ d.marchDay := by
    unfold Date.marchDay
    omega
  exact Nat.div_eq_of_lt_le (by omega) (by omega)

theorem uint32_day (d : Date) :
    uint32 ((d.marchDay : ℤ) - (153 * (d.marchMonth : ℕ) + 2) / 5 + 1) = some d.day := by
  have hday := d.day_pos
  have hday₁ := (monthLength_bounds d.year d.month).2.trans' d.day_le
  exact uint32_eq (by unfold Date.marchDay; omega) (by omega)

theorem uint32_month (d : Date) :
    uint32 (if d.marchMonth < 10 then (d.marchMonth : ℤ) + 3 else d.marchMonth - 9) =
      some d.month := by
  have hmonth₁ := d.month_pos
  have hmonth₂ := d.month_le
  unfold Date.marchMonth
  refine uint32_eq ?_ (by omega)
  split_ifs <;> omega

/-- January and February belong to the next year. -/
theorem int32_year (hpos : 0 < d.year) (hyear : d.year < 2 ^ 31) :
    int32 (if d.month ≤ 2 then (d.marchYear : ℤ) + 1 else d.marchYear) = some (d.year : ℤ) := by
  unfold Date.marchYear
  refine int32_eq ?_ (by omega) (by omega)
  split_ifs <;> omega

/-- **The closed form finds the date of a number.** No conversion overflows. -/
theorem civilFromDays_marchDays (hpos : 0 < d.year) (hyear : d.year < 2 ^ 31) :
    civilFromDays ((d.marchDays : ℤ) - 719468) = some ((d.year : ℤ), d.month, d.day) := by
  obtain ⟨e, c, q, r, hc, hq, hr, hmarch, hdays, hdoy⟩ := Date.exists_era hpos
  obtain ⟨doe, hdoe⟩ : ∃ doe, doe = 36524 * c + 1461 * q + 365 * r + d.marchDay := ⟨_, rfl⟩
  obtain ⟨yearDays, hyearDays⟩ : ∃ n, n = doe - doe / 1460 + doe / 36524 - doe / 146096 := ⟨_, rfl⟩
  have hyoe := yearOfEra_eq hc hq hr hdoy hdoe
  have hmp := month_of_marchDay d
  rw [← hyearDays] at hyoe
  rw [← hdoe] at hdays
  have hdoe₁ : doe < 146097 := by omega
  have hmarch₁ : d.marchYear ≤ d.year := by
    unfold Date.marchYear
    split_ifs <;> omega
  have hfour : yearDays / 365 / 4 = 25 * c + q := by omega
  have hhundred : yearDays / 365 / 100 = c := by
    rw [hyoe]
    exact Nat.div_eq_of_lt_le (by omega) (by omega)
  have hshift : int64 ((d.marchDays : ℤ) - 719468 + 719468) = some (d.marchDays : ℤ) :=
    int64_eq (sub_add_cancel _ _) (by omega) (by omega)
  have hfloor : int64 (if 0 ≤ (d.marchDays : ℤ) then (d.marchDays : ℤ)
      else (d.marchDays : ℤ) - 146096) = some (d.marchDays : ℤ) :=
    int64_eq (if_pos (Int.natCast_nonneg _)) (by omega) (by omega)
  have hera : int32 ((d.marchDays : ℤ).tdiv 146097) = some (e : ℤ) := by
    rw [Int.tdiv_eq_ediv_of_nonneg (by omega)]
    exact int32_eq (by omega) (by omega) (by omega)
  have heraDays : int64 ((e : ℤ) * 146097) = some ((e : ℤ) * 146097) :=
    int64_eq rfl (by omega) (by omega)
  have hdoe₂ : uint32 ((d.marchDays : ℤ) - e * 146097) = some doe :=
    uint32_eq (by omega) (by omega)
  have hyears : uint32 ((doe : ℤ) - doe / 1460 + doe / 36524 - doe / 146096) = some yearDays := by
    rw [hyearDays]
    exact uint32_yearDays hdoe₁
  have heraYears : int32 ((e : ℤ) * 400) = some ((e : ℤ) * 400) :=
    int32_eq rfl (by omega) (by omega)
  have hyear₁ : int32 (((yearDays / 365 : ℕ) : ℤ) + e * 400) = some (d.marchYear : ℤ) :=
    int32_eq (by omega) (by omega) (by omega)
  have hdoy₁ : uint32 ((doe : ℤ) - (365 * (yearDays / 365 : ℕ) + (yearDays / 365 : ℕ) / 4 -
      (yearDays / 365 : ℕ) / 100)) = some d.marchDay := by
    clear hyearDays hyears hyear₁
    exact uint32_eq (by omega) (by omega)
  rw [civilFromDays, bind_eq hshift, bind_eq hfloor, bind_eq hera, bind_eq heraDays, bind_eq hdoe₂,
    bind_eq hyears]
  simp only
  rw [bind_eq heraYears, bind_eq hyear₁, bind_eq hdoy₁, hmp, bind_eq (uint32_day d),
    bind_eq (uint32_month d), bind_eq (int32_year hpos hyear)]

end Civil

/-- The fields of a timestamp, from the year to the second. -/
structure Stamp where
  year : ℕ
  month : ℕ
  day : ℕ
  hour : ℕ
  minute : ℕ
  second : ℕ
  deriving DecidableEq

/-- `get_fattime`. -/
def getFattime (secs : ℕ) : Option ℕ := do
  let days ← int64 (secs / 86400 : ℕ)
  let secOfDay ← int32 (secs % 86400 : ℕ)
  let hour := secOfDay.tdiv 3600
  let min := (secOfDay.tdiv 60).tmod 60
  let sec := secOfDay.tmod 60
  let (year, month, mday) ← civilFromDays days
  let (year, month, mday, hour, min, sec) :=
    if year < 1980 then (1980, 1, 1, 0, 0, 0) else (year, month, mday, hour, min, sec)
  let year := if year > 2107 then 2107 else year
  let year ← uint32 (year - 1980)
  let hour ← uint32 hour
  let min ← uint32 min
  let sec ← uint32 (sec.tdiv 2)
  some (year <<< 25 % 2 ^ 32 ||| month <<< 21 % 2 ^ 32 ||| mday <<< 16 % 2 ^ 32 |||
    hour <<< 11 % 2 ^ 32 ||| min <<< 5 % 2 ^ 32 ||| sec)

/-- A word, read by the FAT layout. -/
def unpack (w : ℕ) : Stamp where
  year := 1980 + (w >>> 25)
  month := w >>> 21 &&& 0xF
  day := w >>> 16 &&& 0x1F
  hour := w >>> 11 &&& 0x1F
  minute := w >>> 5 &&& 0x3F
  second := 2 * (w &&& 0x1F)

/-! ## Packing -/

/-- The sum of the fields of a timestamp. -/
def packed (year month day hour minute halfSecond : ℕ) : ℕ :=
  year * 2 ^ 25 + month * 2 ^ 21 + day * 2 ^ 16 + hour * 2 ^ 11 + minute * 2 ^ 5 + halfSecond

theorem mul_two_pow_or (a : ℕ) {b k : ℕ} (hb : b < 2 ^ k) : a * 2 ^ k ||| b = a * 2 ^ k + b := by
  rw [← Nat.shiftLeft_eq, Nat.shiftLeft_add_eq_or_of_lt hb]

theorem or_eq_packed {year month day hour minute half : ℕ} (hyear : year < 2 ^ 7)
    (hmonth : month < 2 ^ 4) (hday : day < 2 ^ 5) (hhour : hour < 2 ^ 5) (hminute : minute < 2 ^ 6)
    (hhalf : half < 2 ^ 5) :
    (year <<< 25 % 2 ^ 32 ||| month <<< 21 % 2 ^ 32 ||| day <<< 16 % 2 ^ 32 |||
      hour <<< 11 % 2 ^ 32 ||| minute <<< 5 % 2 ^ 32 ||| half) =
      packed year month day hour minute half := by
  simp only [Nat.shiftLeft_eq]
  rw [Nat.mod_eq_of_lt (by omega), Nat.mod_eq_of_lt (by omega), Nat.mod_eq_of_lt (by omega),
    Nat.mod_eq_of_lt (by omega), Nat.mod_eq_of_lt (by omega)]
  simp only [Nat.or_assoc]
  rw [mul_two_pow_or minute hhalf, mul_two_pow_or hour (by omega), mul_two_pow_or day (by omega),
    mul_two_pow_or month (by omega), mul_two_pow_or year (by omega), packed]
  omega

theorem unpack_eq (w : ℕ) :
    unpack w = ⟨1980 + w / 2 ^ 25, w / 2 ^ 21 % 2 ^ 4, w / 2 ^ 16 % 2 ^ 5, w / 2 ^ 11 % 2 ^ 5,
      w / 2 ^ 5 % 2 ^ 6, 2 * (w % 2 ^ 5)⟩ := by
  have hmask₄ (x : ℕ) : x &&& 0xF = x % 2 ^ 4 := Word.and_low_mask x 4
  have hmask₅ (x : ℕ) : x &&& 0x1F = x % 2 ^ 5 := Word.and_low_mask x 5
  have hmask₆ (x : ℕ) : x &&& 0x3F = x % 2 ^ 6 := Word.and_low_mask x 6
  simp only [unpack, Word.shiftRight_eq, hmask₄, hmask₅, hmask₆]

/-- **The layout gives the fields back.** -/
theorem unpack_packed {year month day hour minute half : ℕ} (hmonth : month < 2 ^ 4)
    (hday : day < 2 ^ 5) (hhour : hour < 2 ^ 5) (hminute : minute < 2 ^ 6) (hhalf : half < 2 ^ 5) :
    unpack (packed year month day hour minute half) =
      ⟨1980 + year, month, day, hour, minute, 2 * half⟩ := by
  rw [unpack_eq, Stamp.mk.injEq, packed]
  omega

/-! ## The word of an instant -/

theorem one_le_twelve : 1 ≤ 12 := by decide

theorem one_le_january : 1 ≤ monthLength 1970 1 := by decide

/-- The first of January 1970. -/
def epoch : Date where
  year := 1970
  month := 1
  day := 1
  month_pos := Nat.one_pos
  month_le := one_le_twelve
  day_pos := Nat.one_pos
  day_le := one_le_january

/-- The date, in UTC, of so many seconds after the epoch. -/
def dateAt (secs : ℕ) : Date := epoch.daysAfter (secs / 86400)

theorem marchDays_dateAt (secs : ℕ) : (dateAt secs).marchDays = 719468 + secs / 86400 :=
  Date.marchDays_daysAfter (by decide) _

theorem dateAt_year_pos (secs : ℕ) : 0 < (dateAt secs).year :=
  Date.year_pos_daysAfter (by decide) _

/-- A number leaves room for its year. -/
theorem marchDays_le (d : Date) : d.marchDays ≤ 366 * d.year + 366 := by
  have hday := d.marchDay_lt
  have hmonth := d.marchMonth_le
  have hyear : d.marchYear ≤ d.year := by
    unfold Date.marchYear
    split_ifs <;> omega
  unfold Date.marchDays leapYears
  omega

/-- The word that stands for the time of a day, the seconds halved. -/
def dayWord (date : Date) (year secOfDay : ℕ) : ℕ :=
  packed (year - 1980) date.month date.day (secOfDay / 3600) (secOfDay / 60 % 60) (secOfDay % 60 / 2)

variable {secs : ℕ}

/-- **The word of an instant.** Before 1980 it is that of the first midnight of 1980; after 2107 only
the year is that of 2107. -/
theorem getFattime_eq (hyear : (dateAt secs).year < 2 ^ 31) :
    getFattime secs = some (if (dateAt secs).year < 1980 then packed 0 1 1 0 0 0
      else dayWord (dateAt secs) (min (dateAt secs).year 2107) (secs % 86400)) := by
  have hpos := dateAt_year_pos secs
  have hdays := marchDays_dateAt secs
  have hmonth := (dateAt secs).month_le
  have hmday := (monthLength_bounds (dateAt secs).year (dateAt secs).month).2.trans'
    (dateAt secs).day_le
  have hdate : civilFromDays (secs / 86400 : ℕ) =
      some (((dateAt secs).year : ℤ), (dateAt secs).month, (dateAt secs).day) := by
    rw [← civilFromDays_marchDays hpos hyear, hdays]
    congr 1
    omega
  have hbound := marchDays_le (dateAt secs)
  have hdays₁ : int64 (secs / 86400 : ℕ) = some ((secs / 86400 : ℕ) : ℤ) :=
    int64_eq rfl (by omega) (by omega)
  have hsecs : int32 (secs % 86400 : ℕ) = some ((secs % 86400 : ℕ) : ℤ) :=
    int32_eq rfl (by omega) (by omega)
  rw [getFattime, bind_eq hdays₁, bind_eq hsecs]
  simp only
  rw [bind_eq hdate]
  by_cases hearly : (dateAt secs).year < 1980
  · have hearly₁ : ((dateAt secs).year : ℤ) < 1980 := by exact_mod_cast hearly
    simp only [if_pos hearly₁, if_pos hearly]
    rfl
  · have hearly₁ : ¬ ((dateAt secs).year : ℤ) < 1980 := by exact_mod_cast hearly
    have hyear₁ : uint32 ((if ((dateAt secs).year : ℤ) > 2107 then 2107
        else ((dateAt secs).year : ℤ)) - 1980) = some (min (dateAt secs).year 2107 - 1980) := by
      refine uint32_eq ?_ (by omega)
      split_ifs <;> omega
    have hhour : uint32 (((secs % 86400 : ℕ) : ℤ).tdiv 3600) = some (secs % 86400 / 3600) := by
      rw [Int.tdiv_eq_ediv_of_nonneg (by omega)]
      exact uint32_eq (by omega) (by omega)
    have hmin : uint32 ((((secs % 86400 : ℕ) : ℤ).tdiv 60).tmod 60) =
        some (secs % 86400 / 60 % 60) := by
      rw [Int.tdiv_eq_ediv_of_nonneg (by omega), Int.tmod_eq_emod_of_nonneg (by omega)]
      exact uint32_eq (by omega) (by omega)
    have hsec : uint32 ((((secs % 86400 : ℕ) : ℤ).tmod 60).tdiv 2) =
        some (secs % 86400 % 60 / 2) := by
      rw [Int.tmod_eq_emod_of_nonneg (by omega), Int.tdiv_eq_ediv_of_nonneg (by omega)]
      exact uint32_eq (by omega) (by omega)
    simp only [if_neg hearly₁, if_neg hearly]
    rw [bind_eq hyear₁, bind_eq hhour, bind_eq hmin, bind_eq hsec, dayWord,
      or_eq_packed (by omega) (by omega) (by omega) (by omega) (by omega) (by omega)]

/-- A clock of 64 bits does not reach the year 2600. -/
theorem dateAt_year_lt (hsecs : secs < 18446744074) : (dateAt secs).year < 2600 := by
  have hdays := marchDays_dateAt secs
  have hyear : (dateAt secs).year ≤ (dateAt secs).marchYear + 1 := by
    unfold Date.marchYear
    split_ifs <;> omega
  unfold Date.marchDays at hdays
  omega

/-- **The word of an instant is its civil date.** From 1980 to 2107 the fields of the word are the
date and the time of the day, the second rounded down to even; before, they are the first midnight of
1980. No conversion overflows on any value of the clock. -/
theorem getFattime_civil :
    (∀ secs, 1980 ≤ (dateAt secs).year → (dateAt secs).year ≤ 2107 →
      (getFattime secs).map unpack = some ⟨(dateAt secs).year, (dateAt secs).month,
        (dateAt secs).day, secs % 86400 / 3600, secs % 3600 / 60, 2 * (secs % 60 / 2)⟩) ∧
    (∀ secs, (dateAt secs).year < 1980 →
      (getFattime secs).map unpack = some ⟨1980, 1, 1, 0, 0, 0⟩) ∧
    ∀ lo hi, (getFattime (rtcNowSeconds lo hi)).isSome := by
  refine ⟨fun secs hfrom hto => ?_, fun secs hearly => ?_, fun lo hi => ?_⟩
  · have hmonth := (dateAt secs).month_le
    have hmday := (monthLength_bounds (dateAt secs).year (dateAt secs).month).2.trans'
      (dateAt secs).day_le
    rw [getFattime_eq (by omega), if_neg (by omega), Option.map_some, dayWord,
      unpack_packed (by omega) (by omega) (by omega) (by omega) (by omega), Option.some_inj,
      Stamp.mk.injEq]
    omega
  · rw [getFattime_eq (by omega), if_pos hearly]
    rfl
  · have hyear := dateAt_year_lt (rtcNowSeconds_lt lo hi)
    rw [getFattime_eq (by omega)]
    rfl

end RvvmHal.Fatfs
