import Mathlib

/-!
The proleptic Gregorian calendar from the year 1 on: its dates, the date that follows one, and the
number of a date.
-/

namespace FcgiAppserver.GregorianCalendar

def IsLeap (year : ℕ) : Prop := year % 4 = 0 ∧ (year % 100 ≠ 0 ∨ year % 400 = 0)

instance : DecidablePred IsLeap := fun year =>
  inferInstanceAs (Decidable (year % 4 = 0 ∧ (year % 100 ≠ 0 ∨ year % 400 = 0)))

def monthLength (year : ℕ) : ℕ → ℕ
  | 2 => if IsLeap year then 29 else 28
  | 4 | 6 | 9 | 11 => 30
  | _ => 31

@[ext] structure CivilDate where
  year : ℕ
  month : ℕ
  day : ℕ
  year_pos : 1 ≤ year
  month_pos : 1 ≤ month
  month_le : month ≤ 12
  day_pos : 1 ≤ day
  day_le : day ≤ monthLength year month
deriving DecidableEq

theorem monthLength_pos (year month : ℕ) : 1 ≤ monthLength year month := by
  unfold monthLength
  split
  · split_ifs <;> decide
  all_goals decide

namespace CivilDate

def next (d : CivilDate) : CivilDate :=
  if hday : d.day < monthLength d.year d.month then { d with day := d.day + 1, day_pos := by omega, day_le := hday }
  else if hmonth : d.month < 12 then
    { d with
      month := d.month + 1, day := 1
      month_pos := by omega, month_le := hmonth, day_pos := le_refl 1, day_le := monthLength_pos _ _ }
  else
    { year := d.year + 1, month := 1, day := 1
      year_pos := by omega, month_pos := le_refl 1, month_le := by omega, day_pos := le_refl 1
      day_le := monthLength_pos _ _ }

def after (d : CivilDate) (n : ℕ) : CivilDate := next^[n] d

end CivilDate

def daysBeforeYear (year : ℕ) : ℕ := 365 * (year - 1) + (year - 1) / 4 - (year - 1) / 100 + (year - 1) / 400

def daysBeforeMonth (year month : ℕ) : ℕ := ∑ m ∈ Finset.Ico 1 month, monthLength year m

theorem daysBeforeMonth_succ (year : ℕ) {month : ℕ} (h : 1 ≤ month) :
    daysBeforeMonth year (month + 1) = daysBeforeMonth year month + monthLength year month :=
  Finset.sum_Ico_succ_top h _

theorem daysBeforeMonth_one (year : ℕ) : daysBeforeMonth year 1 = 0 := by
  rw [daysBeforeMonth, Finset.Ico_self, Finset.sum_empty]

/-- The days before each month of a year, the year's own length last. -/
theorem daysBeforeMonth_cases (year : ℕ) {month : ℕ} (hpos : 1 ≤ month) (hle : month ≤ 13) :
    daysBeforeMonth year month =
      [0, 31, 59, 90, 120, 151, 181, 212, 243, 273, 304, 334, 365].getD (month - 1) 0 +
        if 2 < month ∧ IsLeap year then 1 else 0 := by
  induction month, hpos using Nat.le_induction with
  | base =>
    rw [daysBeforeMonth_one]
    rfl
  | succ month hpos ih =>
    have hmonth : month ≤ 12 := by omega
    rw [daysBeforeMonth_succ year hpos, ih (by omega)]
    interval_cases month
    all_goals by_cases hleap : IsLeap year <;> simp [monthLength, hleap]

theorem year_length (year : ℕ) : daysBeforeMonth year 13 = 365 + if IsLeap year then 1 else 0 := by
  rw [daysBeforeMonth_cases year (by omega) (le_refl 13)]
  simp

theorem leap_count (year : ℕ) :
    (year + 1) / 4 + (year + 1) / 400 + year / 100 =
      year / 4 + year / 400 + (year + 1) / 100 + if IsLeap (year + 1) then 1 else 0 := by
  simp only [Nat.succ_div]
  have hcentury : 400 ∣ year + 1 → 100 ∣ year + 1 := (by decide : 100 ∣ 400).trans
  have hfour : 100 ∣ year + 1 → 4 ∣ year + 1 := (by decide : 4 ∣ 100).trans
  simp only [IsLeap, ← Nat.dvd_iff_mod_eq_zero, ne_eq]
  by_cases h400 : 400 ∣ year + 1
  · rw [if_pos (hfour (hcentury h400)), if_pos h400, if_pos (hcentury h400),
      if_pos ⟨hfour (hcentury h400), Or.inr h400⟩]
    omega
  · by_cases h100 : 100 ∣ year + 1
    · rw [if_pos (hfour h100), if_neg h400, if_pos h100, if_neg (fun h => h.2.elim (fun h => h h100) h400)]
      omega
    · by_cases h4 : 4 ∣ year + 1
      · rw [if_pos h4, if_neg h400, if_neg h100, if_pos ⟨h4, Or.inl h100⟩]
        omega
      · rw [if_neg h4, if_neg h400, if_neg h100, if_neg (fun h => h4 h.1)]
        omega

theorem daysBeforeYear_succ {year : ℕ} (h : 1 ≤ year) :
    daysBeforeYear (year + 1) = daysBeforeYear year + daysBeforeMonth year 13 := by
  obtain ⟨y, rfl⟩ : ∃ y, year = y + 1 := ⟨year - 1, by omega⟩
  have hle : y / 100 ≤ y / 4 := Nat.div_le_div_left (by decide) (by decide)
  have hle' : (y + 1) / 100 ≤ (y + 1) / 4 := Nat.div_le_div_left (by decide) (by decide)
  have hcount := leap_count y
  rw [year_length, daysBeforeYear, daysBeforeYear, Nat.add_sub_cancel, Nat.add_sub_cancel]
  generalize (if IsLeap (y + 1) then 1 else 0) = leap at *
  generalize y / 4 = a, (y + 1) / 4 = a', y / 100 = b, (y + 1) / 100 = b', y / 400 = c, (y + 1) / 400 = c' at *
  omega

theorem daysBeforeYear_mono : Monotone daysBeforeYear := by
  apply monotone_nat_of_le_succ
  intro year
  rcases Nat.eq_zero_or_pos year with rfl | hpos
  · exact le_refl _
  · rw [daysBeforeYear_succ hpos]
    exact Nat.le_add_right _ _

theorem daysBeforeMonth_mono (year : ℕ) : Monotone (daysBeforeMonth year) := by
  intro month later hle
  apply Finset.sum_le_sum_of_subset
  exact Finset.Ico_subset_Ico_right hle

namespace CivilDate

/-- The number of a date, 1 for the first day of the year 1. -/
def ordinal (d : CivilDate) : ℕ := daysBeforeYear d.year + daysBeforeMonth d.year d.month + d.day

theorem ordinal_next (d : CivilDate) : d.next.ordinal = d.ordinal + 1 := by
  have hday := d.day_le
  unfold next
  split_ifs with hinside hmonth
  · rfl
  · have hlast : d.day = monthLength d.year d.month := by omega
    rw [ordinal, ordinal, daysBeforeMonth_succ _ d.month_pos, hlast, ← Nat.add_assoc]
  · have hlast : d.day = monthLength d.year d.month := by omega
    have hdecember : d.month = 12 := by
      have hle := d.month_le
      omega
    have hyear := daysBeforeMonth_succ d.year d.month_pos
    rw [hdecember] at hyear
    rw [ordinal, ordinal, daysBeforeYear_succ d.year_pos, daysBeforeMonth_one, hlast, hdecember, hyear, Nat.add_zero,
      ← Nat.add_assoc]

theorem ordinal_after (d : CivilDate) (n : ℕ) : (d.after n).ordinal = d.ordinal + n := by
  induction n with
  | zero => rfl
  | succ n ih => rw [after, Function.iterate_succ_apply', ← after, ordinal_next, ih, Nat.add_assoc]

theorem dayOfYear_le (d : CivilDate) : daysBeforeMonth d.year d.month + d.day ≤ daysBeforeMonth d.year (d.month + 1) := by
  rw [daysBeforeMonth_succ d.year d.month_pos]
  exact Nat.add_le_add_left d.day_le _

theorem ordinal_lt_of_year {d e : CivilDate} (h : d.year < e.year) : d.ordinal < e.ordinal := by
  have hyears := daysBeforeYear_mono (Nat.succ_le_of_lt h)
  have hmonths : daysBeforeMonth d.year (d.month + 1) ≤ daysBeforeMonth d.year 13 :=
    daysBeforeMonth_mono d.year (Nat.succ_le_succ d.month_le)
  have hday := dayOfYear_le d
  have hpos := e.day_pos
  rw [Nat.succ_eq_add_one, daysBeforeYear_succ d.year_pos] at hyears
  unfold ordinal
  omega

theorem ordinal_lt_of_month {d e : CivilDate} (hyear : d.year = e.year) (h : d.month < e.month) :
    d.ordinal < e.ordinal := by
  have hmonths : daysBeforeMonth e.year (d.month + 1) ≤ daysBeforeMonth e.year e.month :=
    daysBeforeMonth_mono e.year (Nat.succ_le_of_lt h)
  have hday := dayOfYear_le d
  have hpos := e.day_pos
  rw [hyear] at hday
  unfold ordinal
  rw [hyear]
  omega

theorem ordinal_injective : Function.Injective ordinal := by
  intro d e h
  rcases lt_trichotomy d.year e.year with hlt | hyear | hlt
  · exact absurd h (ordinal_lt_of_year hlt).ne
  · rcases lt_trichotomy d.month e.month with hlt | hmonth | hlt
    · exact absurd h (ordinal_lt_of_month hyear hlt).ne
    · apply CivilDate.ext hyear hmonth
      rw [ordinal, ordinal, hyear, hmonth] at h
      exact Nat.add_left_cancel h
    · exact absurd h (ordinal_lt_of_month hyear.symm hlt).ne'
  · exact absurd h (ordinal_lt_of_year hlt).ne'

theorem year_le_next (d : CivilDate) : d.year ≤ d.next.year := by
  unfold next
  split_ifs
  · exact le_refl _
  · exact le_refl _
  · exact Nat.le_succ _

theorem year_le_after (d : CivilDate) (n : ℕ) : d.year ≤ (d.after n).year := by
  induction n with
  | zero => exact le_refl _
  | succ n ih =>
    rw [after, Function.iterate_succ_apply', ← after]
    exact ih.trans (year_le_next _)

theorem ordinal_le (d : CivilDate) : d.ordinal ≤ 366 * d.year := by
  have hday := d.day_le
  have hpos := d.year_pos
  have hmonth := daysBeforeMonth_cases d.year (Nat.le_add_left 1 d.month) (Nat.succ_le_succ d.month_le)
  have hlast : daysBeforeMonth d.year (d.month + 1) ≤ 366 := by
    have hfrom := d.month_pos
    have hto := d.month_le
    rw [hmonth]
    generalize d.month = month at hfrom hto
    interval_cases month
    all_goals simp
    all_goals split_ifs <;> decide
  rw [daysBeforeMonth_succ d.year d.month_pos] at hlast
  rw [ordinal, daysBeforeYear]
  omega

end CivilDate

end FcgiAppserver.GregorianCalendar
