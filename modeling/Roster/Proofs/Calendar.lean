/-
Days and dates.

A day is the day of its date, and the date of a day is one that there is if its year is.  Years are
counted from March, in eras of four centuries; the year of a day grows with the day, so it is enough
to look at the first and at the last day of each year of an era.

* `yearStart_yearOfDay_le`, `lt_yearStart_succ`: the year of a day holds that day;
* `exists_dateOf`: the date of a day, in terms of the era, the year and the day of the year;
* `ofDate_toDate`, `valid_toDate`: the day of that date, and that there is one.
-/
import Mathlib.Tactic.Common
import Roster.Timestamp

namespace Roster.Timestamp

/-- The first day of a year of an era. -/
def yearStart (year : Int) : Int := year * 365 + year / 4 - year / 100

/-- The year of the era that a day of the era is in. -/
def yearOfDay (day : Int) : Int := (day - day / 1460 + day / 36524 - day / 146096) / 365

theorem yearOfDay_mono {m n : Int} (h : m ≤ n) : yearOfDay m ≤ yearOfDay n := by
  unfold yearOfDay
  refine Int.ediv_le_ediv (by decide) ?_
  omega

theorem yearOfDay_yearStart : ∀ y < 400, yearOfDay (yearStart (y : Nat)) = y ∧
    yearOfDay (yearStart ((y : Nat) + 1) - 1) = y := by
  decide +kernel

theorem yearOfDay_bounds {n : Int} (h0 : 0 ≤ n) (hn : n ≤ 146096) :
    0 ≤ yearOfDay n ∧ yearOfDay n < 400 := by
  constructor
  · exact yearOfDay_mono h0
  · have := yearOfDay_mono hn
    exact Int.lt_of_le_of_lt this (by decide)

/-- A day of an era does not come before the first day of its year. -/
theorem yearStart_yearOfDay_le {n : Int} (h0 : 0 ≤ n) (hn : n ≤ 146096) :
    yearStart (yearOfDay n) ≤ n := by
  obtain ⟨hy0, hy⟩ := yearOfDay_bounds h0 hn
  obtain ⟨y, hy'⟩ := Int.eq_ofNat_of_zero_le hy0
  by_contra hlt
  -- the day would not come after the last day of the year before
  have hm : yearOfDay n ≤ yearOfDay (yearStart (yearOfDay n) - 1) := yearOfDay_mono (by omega)
  rw [hy'] at hm hlt
  cases y with
  | zero =>
    have : yearStart ((0 : Nat) : Int) = 0 := rfl
    omega
  | succ y =>
    have hp := (yearOfDay_yearStart y (by omega)).2
    rw [← Int.natCast_succ] at hp
    rw [hp] at hm
    omega

/-- It comes before the first day of the next year, but for the leap day that ends the era. -/
theorem lt_yearStart_succ {n : Int} (h0 : 0 ≤ n) (hn : n ≤ 146096) :
    n < yearStart (yearOfDay n + 1) ∨ (yearOfDay n = 399 ∧ n = 146096) := by
  obtain ⟨hy0, hy⟩ := yearOfDay_bounds h0 hn
  obtain ⟨y, hy'⟩ := Int.eq_ofNat_of_zero_le hy0
  by_contra hlt
  rw [not_or, Int.not_lt] at hlt
  -- the first day of the next year would not come after it
  have hm : yearOfDay (yearStart (yearOfDay n + 1)) ≤ yearOfDay n := yearOfDay_mono hlt.1
  rw [hy'] at hm hlt
  by_cases hlast : y = 399
  · subst hlast
    have : yearStart ((399 : Nat) + 1) = 146096 := rfl
    omega
  · have hp := (yearOfDay_yearStart (y + 1) (by omega)).1
    rw [Int.natCast_succ] at hp
    rw [hp] at hm
    omega

/-- The month of a day of a year that starts in March. -/
def monthOf (day : Int) : Int :=
  if (5 * day + 2) / 153 < 10 then (5 * day + 2) / 153 + 3 else (5 * day + 2) / 153 - 9

/-- The day of the month of a day of a year that starts in March. -/
def dayOf (day : Int) : Int := day - (153 * ((5 * day + 2) / 153) + 2) / 5 + 1

/-- The date of a day of a year of an era. -/
def dateOf (era year day : Int) : Date :=
  ⟨if monthOf day ≤ 2 then year + era * 400 + 1 else year + era * 400, (monthOf day).toNat,
    (dayOf day).toNat⟩

/-- The date of a day, in terms of its era, of the year of the era and of the day of the year. -/
theorem exists_dateOf (days : Int) : ∃ era year day : Int,
    days = era * 146097 + yearStart year + day - 719468 ∧ 0 ≤ year ∧ year < 400 ∧
    0 ≤ day ∧ day ≤ 365 ∧
      (day = 365 → isLeap (year + era * 400 + 1) = true) ∧ toDate days = dateOf era year day := by
  have h0 : 0 ≤ (days + 719468) % 146097 := by omega
  have hn : (days + 719468) % 146097 ≤ 146096 := by omega
  obtain ⟨hy0, hy⟩ := yearOfDay_bounds h0 hn
  have hle := yearStart_yearOfDay_le h0 hn
  have hlt := lt_yearStart_succ h0 hn
  refine ⟨(days + 719468) / 146097, yearOfDay ((days + 719468) % 146097),
    (days + 719468) % 146097 - yearStart (yearOfDay ((days + 719468) % 146097)), ?_, hy0, hy,
      ?_, ?_, ?_, ?_⟩
  · omega
  · omega
  · unfold yearStart at *
    omega
  · intro h
    generalize yearOfDay ((days + 719468) % 146097) = y at *
    generalize (days + 719468) % 146097 = n at *
    generalize (days + 719468) / 146097 = era at *
    -- only a year that is followed by one more leap day in the count has 366 days
    have h4 : (y + 1) % 4 = 0 ∧ ((y + 1) % 100 ≠ 0 ∨ y = 399) := by
      have h4 : (y + 1) / 4 = y / 4 ∨ ((y + 1) / 4 = y / 4 + 1 ∧ (y + 1) % 4 = 0) := by omega
      have h100 : (y + 1) / 100 = y / 100 ∨
          ((y + 1) / 100 = y / 100 + 1 ∧ (y + 1) % 100 = 0) := by omega
      unfold yearStart at *
      omega
    simp only [isLeap, Bool.and_eq_true, Bool.or_eq_true, beq_iff_eq, bne_iff_ne]
    omega
  · have hs : ∀ y : Int, 365 * y + y / 4 - y / 100 = yearStart y :=
      fun y => by unfold yearStart; omega
    unfold toDate dateOf
    dsimp only
    rw [hs]
    rfl

theorem monthOf_bounds : ∀ day < 366, 1 ≤ monthOf (day : Nat) ∧ monthOf (day : Nat) ≤ 12 := by
  decide +kernel

theorem dayOf_sum : ∀ day < 366, 1 ≤ dayOf (day : Nat) ∧
    (153 * ((monthOf (day : Nat) + 9) % 12) + 2) / 5 + dayOf (day : Nat) - 1 = (day : Nat) := by
  decide +kernel

/-- Only the last day of a year is a leap day; of the years 1 and 4, the latter has one. -/
theorem dayOf_le : ∀ day < 366, (dayOf (day : Nat)).toNat ≤
    daysInMonth (if day = 365 then 4 else 1) (monthOf (day : Nat)).toNat := by
  decide +kernel

theorem daysInMonth_le {year other : Int} (h : isLeap year = true → isLeap other = true)
    (month : Nat) :
    daysInMonth year month ≤ daysInMonth other month := by
  unfold daysInMonth
  split
  · split
    · rename_i hy
      exact Nat.le_of_eq (if_pos (h hy)).symm
    · split <;> decide
  · exact Nat.le_refl _

theorem ofDate_dateOf {era year day : Int} (hy0 : 0 ≤ year) (hy : year < 400) (hd0 : 0 ≤ day)
    (hd : day ≤ 365) :
    ofDate (dateOf era year day) = era * 146097 + yearStart year + day - 719468 := by
  obtain ⟨d, rfl⟩ := Int.eq_ofNat_of_zero_le hd0
  obtain ⟨hm1, hm⟩ := monthOf_bounds d (by omega)
  obtain ⟨hday1, hsum⟩ := dayOf_sum d (by omega)
  have hm' : (((monthOf d).toNat : Nat) : Int) = monthOf d := Int.toNat_of_nonneg (by omega)
  have hd' : (((dayOf d).toNat : Nat) : Int) = dayOf d := Int.toNat_of_nonneg (by omega)
  -- January and February count to the next year, and back again
  have hyear : (if (monthOf d).toNat ≤ 2 then
      (if monthOf d ≤ 2 then year + era * 400 + 1 else year + era * 400) - 1
      else (if monthOf d ≤ 2 then year + era * 400 + 1 else year + era * 400)) = year +
        era * 400 := by
    split <;> split <;> omega
  unfold ofDate dateOf
  dsimp only
  rw [hyear, hm', hd']
  unfold yearStart
  omega

/-- A day is the day of its date. -/
theorem ofDate_toDate (days : Int) : ofDate (toDate days) = days := by
  obtain ⟨era, year, day, hdays, hy0, hy, hd0, hd, -, he⟩ := exists_dateOf days
  rw [he, ofDate_dateOf hy0 hy hd0 hd, hdays]

/-- The date of a day is one that there is if its year is. -/
theorem valid_toDate {days : Int} (h : IsYear (toDate days).year) : (toDate days).valid = true := by
  obtain ⟨era, year, day, -, hy0, hy, hd0, hd, hleap, he⟩ := exists_dateOf days
  rw [he] at h ⊢
  obtain ⟨d, rfl⟩ := Int.eq_ofNat_of_zero_le hd0
  obtain ⟨hm1, hm⟩ := monthOf_bounds d (by omega)
  obtain ⟨hday1, -⟩ := dayOf_sum d (by omega)
  have hmax : (dayOf d).toNat ≤ daysInMonth (dateOf era year d).year (monthOf d).toNat := by
    refine Nat.le_trans (dayOf_le d (by omega)) ?_
    by_cases h365 : d = 365
    · -- the leap day is in February, so its year is the one that the year of the era runs into
      subst h365
      refine daysInMonth_le (fun _ => ?_) _
      exact hleap rfl
    · rw [if_neg h365]
      exact daysInMonth_le (fun h1 => absurd h1 (by decide)) _
  simp only [Date.valid, Bool.and_eq_true, decide_eq_true_eq]
  refine ⟨⟨⟨⟨h, ?_⟩, ?_⟩, ?_⟩, hmax⟩
  · show 1 ≤ (monthOf d).toNat
    omega
  · show (monthOf d).toNat ≤ 12
    omega
  · show 1 ≤ (dayOf d).toNat
    omega

end Roster.Timestamp
