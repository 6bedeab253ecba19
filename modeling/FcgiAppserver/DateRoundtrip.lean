import FcgiAppserver.DateConversion

namespace FcgiAppserver.Dates

open ByteStrings GregorianCalendar

theorem floor_div {x : Double} {n : ℤ} (d : ℕ) (h : x = (n : ℚ) / d) : ⌊x⌋ = n / d := by
  rw [h, Rat.floor_intCast_div_natCast]

theorem toUnsigned_cast {x : Double} {n : ℕ} (hn : n < 2 ^ 32) (h : x = n) : toUnsigned x = some (UInt32.ofNat n) := by
  have hfits : (-1 : ℚ) < n ∧ (n : ℚ) < 2 ^ 32 := by
    refine ⟨lt_of_lt_of_le (by norm_num) (Nat.cast_nonneg n), ?_⟩
    exact_mod_cast hn
  rw [toUnsigned, h, if_pos hfits, Int.floor_natCast, Int.toNat_natCast]

section

variable {y k : ℤ}

/-- The number that the day with number `k` of the year from March `y` on has, where the first is 123. -/
def dayNumber (y k : ℤ) : ℤ := 2 - y / 100 + y / 400 + 1461 * (y + 4716) / 4 + k - 1524

theorem century_found (hfrom : 123 ≤ k) (hto : k ≤ 488)
    (hleap : k = 488 → (y + 1) % 4 = 0 ∧ ((y + 1) % 100 ≠ 0 ∨ (y + 1) % 400 = 0)) :
    (4 * dayNumber y k - 7468865) / 146097 = y / 100 - 4 := by
  obtain ⟨q, s, u, v, rfl, hs, hu, hv⟩ : ∃ q s u v, y = 400 * q + 100 * s + 4 * u + v ∧
      (0 ≤ s ∧ s < 4) ∧ (0 ≤ u ∧ u < 25) ∧ 0 ≤ v ∧ v < 4 :=
    ⟨y / 400, y % 400 / 100, y % 100 / 4, y % 4, by omega, by omega, by omega, by omega⟩
  have h100 : (400 * q + 100 * s + 4 * u + v) / 100 = 4 * q + s := by omega
  have h400 : (400 * q + 100 * s + 4 * u + v) / 400 = q := by omega
  have hyears : 1461 * (400 * q + 100 * s + 4 * u + v + 4716) / 4 =
      1461 * (100 * q + 25 * s + u + 1179) + 1461 * v / 4 := by omega
  have hlast : k = 488 → v = 3 ∧ (u = 24 → s = 3) := by omega
  rw [dayNumber, h100, h400, hyears]
  obtain ⟨hv0, hv4⟩ := hv
  interval_cases v
  all_goals omega

theorem year_found (hfrom : 123 ≤ k) (hto : k ≤ 488) (hleap : k = 488 → (y + 1) % 4 = 0) :
    (20 * (1461 * (y + 4716) / 4 + k) - 2442) / 7305 = y + 4716 := by
  omega

end

section

variable (d : CivilDate)

def marchYear : ℕ := if d.month ≤ 2 then d.year - 1 else d.year

def marchMonth : ℕ := if d.month ≤ 2 then d.month + 12 else d.month

def yearDay : ℕ := 306001 * (marchMonth d + 1) / 10000 + d.day

theorem marchMonth_bounds : 4 ≤ marchMonth d + 1 ∧ marchMonth d ≤ 14 := by
  have hpos := d.month_pos
  have hle := d.month_le
  unfold marchMonth
  split_ifs <;> omega

theorem yearDay_cases : 123 ≤ yearDay d ∧ yearDay d ≤ 488 ∧ (yearDay d = 488 → IsLeap (marchYear d + 1)) ∧
    10000 * yearDay d / 306001 = marchMonth d + 1 := by
  have hfrom := d.month_pos
  have hto := d.month_le
  have hyear := d.year_pos
  have hpos := d.day_pos
  have hday := d.day_le
  unfold yearDay marchYear marchMonth
  generalize d.month = month at *
  interval_cases month
  all_goals simp only [monthLength] at hday
  all_goals simp
  · omega
  · split_ifs at hday with hleap
    · rw [Nat.sub_add_cancel hyear]
      refine ⟨by omega, by omega, fun _ => hleap, by omega⟩
    · omega
  all_goals omega

theorem dayNumber_ordinal : dayNumber (marchYear d) (yearDay d) = d.ordinal + 1721425 := by
  have hfrom := d.month_pos
  have hto := d.month_le
  have hyear := d.year_pos
  have hbefore := daysBeforeMonth_cases d.year hfrom (by omega)
  have hcount := leap_count (d.year - 1)
  rw [Nat.sub_add_cancel hyear] at hcount
  have hcentury : (d.year - 1) / 100 ≤ (d.year - 1) / 4 := Nat.div_le_div_left (by decide) (by decide)
  unfold dayNumber yearDay marchYear marchMonth CivilDate.ordinal daysBeforeYear
  generalize d.month = month at *
  interval_cases month
  all_goals simp at hbefore
  all_goals simp
  all_goals omega

theorem marchMonth_month : (if (((marchMonth d + 1 : ℕ) : ℤ) : ℚ) - 1 ≤ 12 then (((marchMonth d + 1 : ℕ) : ℤ) : ℚ) - 1
    else (((marchMonth d + 1 : ℕ) : ℤ) : ℚ) - 13) = d.month := by
  have hfrom := d.month_pos
  have hto := d.month_le
  have hone : (((marchMonth d + 1 : ℕ) : ℤ) : ℚ) - 1 = marchMonth d := by
    push_cast
    ring
  rw [hone]
  unfold marchMonth
  split_ifs with hearly hle hle
  · exfalso
    have hle' : d.month + 12 ≤ 12 := by exact_mod_cast hle
    omega
  · push_cast
    ring
  · rfl
  · exact absurd (by exact_mod_cast hto) hle

/-- The Julian day at which a date begins. -/
def julianDayOf : Double := d.ordinal + 1721424.5

theorem yyyymmdd_parts {date : Date} (h : date.julianDay = julianDayOf d) :
    date.yyyymmdd = do
      let day ← toUnsigned d.day
      let month ← toUnsigned d.month
      let year ← toUnsigned (if month = 1 ∨ month = 2 then ((marchYear d : ℚ) + 1) else marchYear d)
      return [Date.lastDigit (year / 1000), Date.lastDigit (year / 100), Date.lastDigit (year / 10), Date.lastDigit year,
        Date.lastDigit (month / 10), Date.lastDigit month, Date.lastDigit (day / 10), Date.lastDigit day] := by
  obtain ⟨hfrom, hto, hleap, hmonth⟩ := yearDay_cases d
  have hordinal := dayNumber_ordinal d
  have hday : 306001 * (marchMonth d + 1) / 10000 + d.day = yearDay d := rfl
  generalize hy : (marchYear d : ℤ) = y at hordinal
  generalize hk : (yearDay d : ℤ) = k at hordinal
  have hlast : k = 488 → (y + 1) % 4 = 0 ∧ ((y + 1) % 100 ≠ 0 ∨ (y + 1) % 400 = 0) := by
    unfold IsLeap at hleap
    omega
  have hz : date.julianDay + 0.5 = (dayNumber y k : ℤ) := by
    rw [h, julianDayOf, hordinal]
    push_cast
    ring
  have hw : ⌊((dayNumber y k : ℤ) - 1867216.25 : ℚ) / 36524.25⌋ = y / 100 - 4 := by
    refine (floor_div 146097 ?_).trans (century_found (by omega) (by omega) hlast)
    push_cast
    ring
  have hx : ⌊((y / 100 - 4 : ℤ) : ℚ) / 4⌋ = y / 400 - 1 := by
    rw [floor_div (n := y / 100 - 4) 4 (by norm_num)]
    omega
  have hb : ((dayNumber y k : ℤ) : ℚ) + 1 + (y / 100 - 4 : ℤ) - (y / 400 - 1 : ℤ) + 1524 =
      (1461 * (y + 4716) / 4 + k : ℤ) := by
    unfold dayNumber
    push_cast
    ring
  have hc : ⌊((1461 * (y + 4716) / 4 + k : ℤ) - 122.1 : ℚ) / 365.25⌋ = y + 4716 := by
    refine (floor_div 7305 ?_).trans (year_found (by omega) (by omega) (fun h => (hlast h).1))
    push_cast
    ring
  have hd : ⌊365.25 * ((y + 4716 : ℤ) : ℚ)⌋ = 1461 * (y + 4716) / 4 := by
    apply floor_div 4
    push_cast
    ring
  have hbd : ((1461 * (y + 4716) / 4 + k : ℤ) : ℚ) - (1461 * (y + 4716) / 4 : ℤ) = (k : ℤ) := by
    push_cast
    ring
  have he : ⌊((k : ℤ) : ℚ) / 30.6001⌋ = (marchMonth d + 1 : ℕ) := by
    rw [floor_div (n := 10000 * k) 306001 (by push_cast; ring)]
    omega
  have hf : ⌊30.6001 * (((marchMonth d + 1 : ℕ) : ℤ) : ℚ)⌋ = k - d.day := by
    rw [floor_div (n := 306001 * (marchMonth d + 1 : ℕ)) 10000 (by push_cast; ring)]
    omega
  have hdom : ((k : ℤ) : ℚ) - (k - d.day : ℤ) = (d.day : ℕ) := by
    push_cast
    ring
  have hmonth : (if (((marchMonth d + 1 : ℕ) : ℤ) : ℚ) - 1 ≤ 12 then (((marchMonth d + 1 : ℕ) : ℤ) : ℚ) - 1
      else (((marchMonth d + 1 : ℕ) : ℤ) : ℚ) - 13) = (d.month : ℕ) := marchMonth_month d
  have hlate : ((y + 4716 : ℤ) : ℚ) - 4715 = (marchYear d : ℚ) + 1 := by
    rw [← hy]
    push_cast
    ring
  have hearly : ((y + 4716 : ℤ) : ℚ) - 4716 = marchYear d := by
    rw [← hy]
    push_cast
    ring
  simp only [Date.yyyymmdd, hz, hw, hx, hb, hc, hd, hbd, he, hf, hdom, hmonth, hlate, hearly]

end

section

variable {n m : ℕ} (hn : n < 2 ^ 32)

include hn

theorem ofNat_inj (hm : m < 2 ^ 32) : UInt32.ofNat n = UInt32.ofNat m ↔ n = m := by
  rw [← UInt32.toNat_inj, UInt32.toNat_ofNat_of_lt' hn, UInt32.toNat_ofNat_of_lt' hm]

theorem div_ofNat (hm : m < 2 ^ 32) : UInt32.ofNat n / UInt32.ofNat m = UInt32.ofNat (n / m) := by
  have hle := Nat.div_le_self n m
  rw [← UInt32.toNat_inj, UInt32.toNat_div, UInt32.toNat_ofNat_of_lt' hn, UInt32.toNat_ofNat_of_lt' hm,
    UInt32.toNat_ofNat_of_lt' (lt_of_le_of_lt hle hn)]

theorem lastDigit_eq : Date.lastDigit (UInt32.ofNat n) = (48 + n % 10).toUInt8 := by
  rw [Date.lastDigit, ← UInt8.toNat_inj, UInt32.toNat_toUInt8, UInt32.toNat_add, UInt32.toNat_mod,
    UInt32.toNat_ofNat_of_lt' hn, Nat.toUInt8, UInt8.toNat_ofNat']
  change (48 + n % 10) % 2 ^ 32 % 2 ^ 8 = _
  omega

theorem lastDigit_div (hm : m < 2 ^ 32) :
    Date.lastDigit (UInt32.ofNat n / UInt32.ofNat m) = (48 + n / m % 10).toUInt8 := by
  rw [div_ofNat hn hm]
  apply lastDigit_eq
  exact lt_of_le_of_lt (Nat.div_le_self n m) hn

end

def decimal : ℕ → ℕ → Bytes
  | 0, _ => []
  | width + 1, n => decimal width (n / 10) ++ [(48 + n % 10).toUInt8]

section

variable (d : CivilDate)

def text : Bytes := decimal 4 d.year ++ decimal 2 d.month ++ decimal 2 d.day

theorem year_eq : (if d.month = 1 ∨ d.month = 2 then ((marchYear d : ℚ) + 1) else marchYear d) = d.year := by
  have hyear := d.year_pos
  have hfrom := d.month_pos
  unfold marchYear
  split_ifs with hearly hle hle
  · rw [Nat.cast_sub hyear]
    ring
  · omega
  · omega
  · rfl

theorem day_le : d.day ≤ 31 := by
  apply d.day_le.trans
  unfold monthLength
  split
  · split_ifs <;> decide
  all_goals decide

variable {d}

theorem yyyymmdd_text (hyear : d.year ≤ 9999) {date : Date} (h : date.julianDay = julianDayOf d) :
    date.yyyymmdd = some (text d) := by
  have hmonth := d.month_le
  have hday := day_le d
  have hone : UInt32.ofNat d.month = 1 ↔ d.month = 1 := ofNat_inj (by omega) (by decide)
  have htwo : UInt32.ofNat d.month = 2 ↔ d.month = 2 := ofNat_inj (by omega) (by decide)
  have hyears : d.year < 2 ^ 32 := by omega
  have hmonths : d.month < 2 ^ 32 := by omega
  have hdays : d.day < 2 ^ 32 := by omega
  have hthousand : Date.lastDigit (UInt32.ofNat d.year / 1000) = (48 + d.year / 1000 % 10).toUInt8 :=
    lastDigit_div hyears (m := 1000) (by decide)
  have hhundred : Date.lastDigit (UInt32.ofNat d.year / 100) = (48 + d.year / 100 % 10).toUInt8 :=
    lastDigit_div hyears (m := 100) (by decide)
  have hten {n : ℕ} (hn : n < 2 ^ 32) : Date.lastDigit (UInt32.ofNat n / 10) = (48 + n / 10 % 10).toUInt8 :=
    lastDigit_div hn (m := 10) (by decide)
  rw [yyyymmdd_parts d h]
  simp only [toUnsigned_cast hdays rfl, toUnsigned_cast hmonths rfl, Option.bind_eq_bind, Option.bind_some, hone, htwo,
    toUnsigned_cast hyears (year_eq d), hthousand, hhundred, hten hyears, hten hmonths, hten hdays,
    lastDigit_eq hyears, lastDigit_eq hmonths, lastDigit_eq hdays]
  simp only [text, decimal, Nat.div_div_eq_div_mul, List.nil_append, List.cons_append]
  rfl

theorem ofInt_natCast (n : ℕ) : UInt32.ofInt n = UInt32.ofNat n := by
  rw [← UInt32.toNat_inj, UInt32.ofInt, UInt32.toNat_ofNat', UInt32.toNat_ofNat']
  omega

theorem charAt_digit {s : Bytes} {i n : ℕ} (h : s[i]? = some (48 + n % 10).toUInt8) :
    charAt s i = some (48 + (n % 10 : ℕ) : ℤ) := by
  have hlt : n % 10 < 10 := Nat.mod_lt n (by decide)
  have hi : i < s.length := (List.getElem?_eq_some_iff.mp h).1
  have hbyte : (48 + n % 10).toUInt8.toNat = 48 + n % 10 := by
    rw [Nat.toUInt8, UInt8.toNat_ofNat']
    omega
  have hascii : (48 + n % 10).toUInt8 < 0x80 := by
    rw [UInt8.lt_iff_toNat_lt, hbyte]
    change 48 + n % 10 < 128
    omega
  simp only [charAt, if_pos (Nat.le_of_lt hi), List.getD_eq_getElem?_getD, h, Option.getD_some, if_pos hascii, hbyte,
    Nat.cast_add, Nat.cast_ofNat]

theorem numberAt_two {s : Bytes} {i n : ℕ} (hn : n < 100) (hten : s[i]? = some (48 + n / 10 % 10).toUInt8)
    (hone : s[i + 1]? = some (48 + n % 10).toUInt8) : numberAt s [(i, 10), (i + 1, 1)] = some (UInt32.ofNat n) := by
  have hsum : ((48 + (n / 10 % 10 : ℕ) - 48) * 10 + ((48 + (n % 10 : ℕ) - 48) * 1 + 0) : ℤ) = n := by omega
  simp only [numberAt, List.mapM_cons, List.mapM_nil, charAt_digit hten, charAt_digit hone, Option.bind_eq_bind,
    Option.bind_some, Option.pure_def, List.sum_cons, List.sum_nil, hsum, ofInt_natCast]

theorem numberAt_year (hyear : d.year ≤ 9999) :
    numberAt (text d) [(0, 1000), (1, 100), (2, 10), (3, 1)] = some (UInt32.ofNat d.year) := by
  have hthousand : charAt (text d) 0 = some (48 + (d.year / 10 / 10 / 10 % 10 : ℕ) : ℤ) := charAt_digit rfl
  have hhundred : charAt (text d) 1 = some (48 + (d.year / 10 / 10 % 10 : ℕ) : ℤ) := charAt_digit rfl
  have hten : charAt (text d) 2 = some (48 + (d.year / 10 % 10 : ℕ) : ℤ) := charAt_digit rfl
  have hone : charAt (text d) 3 = some (48 + (d.year % 10 : ℕ) : ℤ) := charAt_digit rfl
  have hsum : ((48 + (d.year / 10 / 10 / 10 % 10 : ℕ) - 48) * 1000 + ((48 + (d.year / 10 / 10 % 10 : ℕ) - 48) * 100 +
      ((48 + (d.year / 10 % 10 : ℕ) - 48) * 10 + ((48 + (d.year % 10 : ℕ) - 48) * 1 + 0))) : ℤ) = d.year := by
    omega
  simp only [numberAt, List.mapM_cons, List.mapM_nil, hthousand, hhundred, hten, hone, Option.bind_eq_bind,
    Option.bind_some, Option.pure_def, List.sum_cons, List.sum_nil, hsum, ofInt_natCast]

theorem march_pair (d : CivilDate) :
    (if UInt32.ofNat d.month = 1 ∨ UInt32.ofNat d.month = 2 then (UInt32.ofNat d.year - 1, UInt32.ofNat d.month + 12)
      else (UInt32.ofNat d.year, UInt32.ofNat d.month)) = (UInt32.ofNat (marchYear d), UInt32.ofNat (marchMonth d)) := by
  have hmonth := d.month_le
  have hfrom := d.month_pos
  have hone : UInt32.ofNat d.month = 1 ↔ d.month = 1 := ofNat_inj (by omega) (by decide)
  have htwo : UInt32.ofNat d.month = 2 ↔ d.month = 2 := ofNat_inj (by omega) (by decide)
  simp only [hone, htwo]
  unfold marchYear marchMonth
  split_ifs with hearly hle hle
  · rw [UInt32.ofNat_sub d.year_pos, UInt32.ofNat_add]
    rfl
  · omega
  · omega
  · rfl

theorem ymdToJulianDay_date (hyear : d.year ≤ 9999) :
    ymdToJulianDay (UInt32.ofNat d.year) (UInt32.ofNat d.month) (UInt32.ofNat d.day) = julianDayOf d := by
  have hmonth := d.month_le
  have hday := day_le d
  have hle : marchYear d ≤ 9999 := by
    unfold marchYear
    split_ifs
    · omega
    · exact hyear
  have hyears : (UInt32.ofNat (marchYear d) / 100).toNat = marchYear d / 100 := by
    rw [UInt32.toNat_div, UInt32.toNat_ofNat_of_lt' (lt_of_le_of_lt hle (by decide))]
    rfl
  have hshifted : (UInt32.ofNat (marchYear d) + 4716).toNat = marchYear d + 4716 := by
    rw [UInt32.toNat_add, UInt32.toNat_ofNat_of_lt' (lt_of_le_of_lt hle (by decide))]
    exact Nat.mod_eq_of_lt (by change _ + 4716 < _; omega)
  have hmonths : (UInt32.ofNat (marchMonth d) + 1).toNat = marchMonth d + 1 := by
    have hbound := (marchMonth_bounds d).2
    rw [UInt32.toNat_add, UInt32.toNat_ofNat_of_lt' (lt_of_le_of_lt hbound (by decide))]
    exact Nat.mod_eq_of_lt (by change _ + 1 < _; omega)
  have hdays : (UInt32.ofNat d.day).toNat = d.day := UInt32.toNat_ofNat_of_lt' (lt_of_le_of_lt hday (by decide))
  have hb : ⌊(((marchYear d / 100 : ℕ) : ℤ) : ℚ) / 4⌋ = (marchYear d / 400 : ℕ) := by
    rw [floor_div (n := (marchYear d / 100 : ℕ)) 4 (by norm_num)]
    omega
  have he : ⌊365.25 * ((marchYear d + 4716 : ℕ) : ℚ)⌋ = (1461 * (marchYear d + 4716) / 4 : ℕ) := by
    rw [floor_div (n := 1461 * (marchYear d + 4716 : ℕ)) 4 (by push_cast; ring)]
    omega
  have hf : ⌊30.6001 * ((marchMonth d + 1 : ℕ) : ℚ)⌋ = (306001 * (marchMonth d + 1) / 10000 : ℕ) := by
    rw [floor_div (n := 306001 * (marchMonth d + 1 : ℕ)) 10000 (by push_cast; ring)]
    omega
  have hnumber : (2 - (marchYear d / 100 : ℕ) + (marchYear d / 400 : ℕ) + d.day + (1461 * (marchYear d + 4716) / 4 : ℕ) +
      (306001 * (marchMonth d + 1) / 10000 : ℕ) - 1524 : ℤ) = d.ordinal + 1721425 := by
    rw [← dayNumber_ordinal d, dayNumber, yearDay]
    omega
  simp only [ymdToJulianDay, march_pair d, hyears, hshifted, hmonths, hdays, hb, he, hf, Int.floor_natCast, julianDayOf]
  generalize marchYear d / 100 = p, marchYear d / 400 = q, 1461 * (marchYear d + 4716) / 4 = r,
    306001 * (marchMonth d + 1) / 10000 = t at hnumber ⊢
  have hcast := congrArg (Int.cast : ℤ → ℚ) hnumber
  push_cast at hcast ⊢
  linarith

theorem date_text (hyear : d.year ≤ 9999) : date (text d) = some ⟨julianDayOf d⟩ := by
  have hmonth : d.month < 100 := lt_of_le_of_lt d.month_le (by decide)
  have hday : d.day < 100 := lt_of_le_of_lt (day_le d) (by decide)
  have hmonths : numberAt (text d) [(4, 10), (5, 1)] = some (UInt32.ofNat d.month) := numberAt_two hmonth rfl rfl
  have hdays : numberAt (text d) [(6, 10), (7, 1)] = some (UInt32.ofNat d.day) := numberAt_two hday rfl rfl
  simp only [date, yyyymmddToJulianDay, numberAt_year hyear, hmonths, hdays, Option.bind_eq_bind, Option.bind_some,
    Option.pure_def, ymdToJulianDay_date hyear]

end

end FcgiAppserver.Dates
