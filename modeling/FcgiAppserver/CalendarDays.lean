import FcgiAppserver.DateRoundtrip

namespace FcgiAppserver.Dates

open ByteStrings GregorianCalendar

theorem add_begins {s : CivilDate} {n : ℕ} (hn : n < 2 ^ 32) :
    (Date.add ⟨julianDayOf s⟩ (UInt32.ofNat n)).julianDay = julianDayOf (s.after n) := by
  rw [Date.add, UInt32.toNat_ofNat_of_lt' hn, julianDayOf, julianDayOf, CivilDate.ordinal_after]
  push_cast
  ring

theorem increment_begins (s : CivilDate) (n : ℕ) :
    (Date.increment^[n] ⟨julianDayOf s⟩).julianDay = julianDayOf (s.after n) := by
  induction n with
  | zero => rfl
  | succ n ih =>
    rw [Function.iterate_succ_apply', Date.increment, ih, julianDayOf, julianDayOf, CivilDate.ordinal_after,
      CivilDate.ordinal_after]
    push_cast
    ring

theorem days_fit {s : CivilDate} {n : ℕ} (h : (s.after n).year ≤ 9999) : n < 2 ^ 32 := by
  have hle := (s.after n).ordinal_le
  rw [CivilDate.ordinal_after] at hle
  omega

/-- A date that is read from its text and moved on by some days is the date that many days later. -/
theorem days_later {s : CivilDate} {n : ℕ} (h : (s.after n).year ≤ 9999) :
    ∃ d days, date (text s) = some d ∧ days.toNat = n ∧ (d.add days).yyyymmdd = some (text (s.after n)) ∧
      (Date.increment^[n] d).yyyymmdd = some (text (s.after n)) := by
  have hyear : s.year ≤ 9999 := (s.year_le_after n).trans h
  have hn : n < 2 ^ 32 := days_fit h
  refine ⟨⟨julianDayOf s⟩, UInt32.ofNat n, date_text hyear, UInt32.toNat_ofNat_of_lt' hn, ?_, ?_⟩
  · exact yyyymmdd_text h (add_begins hn)
  · exact yyyymmdd_text h (increment_begins s n)

def endOfFebruary : CivilDate := ⟨1900, 2, 28, by decide, by decide, by decide, by decide, by decide⟩

theorem days_later_february : ∃ d days, date (text endOfFebruary) = some d ∧ days.toNat = 1 ∧
    (d.add days).yyyymmdd = some (text (endOfFebruary.after 1)) ∧
      (Date.increment^[1] d).yyyymmdd = some (text (endOfFebruary.after 1)) :=
  days_later (by decide)

def unixEpoch : CivilDate := ⟨1970, 1, 1, by decide, by decide, by decide, by decide, by decide⟩

theorem ordinal_unixEpoch : unixEpoch.ordinal = 719163 := by decide

def dateOf (t : ℤ) : CivilDate := unixEpoch.after (t / secondsPerDay).toNat

theorem ordinal_dateOf {t : ℤ} (h : 0 ≤ t) : (dateOf t).ordinal = 719163 + t / secondsPerDay := by
  have hday : 0 ≤ t / secondsPerDay := Int.ediv_nonneg h (by decide)
  rw [dateOf, CivilDate.ordinal_after, ordinal_unixEpoch, Nat.cast_add, Int.toNat_of_nonneg hday]
  rfl

theorem epoch_begins {t : ℤ} (h : 0 ≤ t) : epochToJulianDay t = julianDayOf (dateOf t) := by
  have hcast := congrArg (Int.cast : ℤ → ℚ) (ordinal_dateOf h)
  rw [epochToJulianDay, Int.tdiv_eq_ediv_of_nonneg h, julianDayOf, unixEpochJulianDay]
  push_cast at hcast
  linarith

/-- The quarter hours whose ids lie between those that a date computes as its first and its last. -/
def quants (d : CivilDate) : Set ℤ :=
  {q | ∃ read first last, date (text d) = some read ∧ read.startQuantId = some first ∧ read.endQuantId = some last ∧
    first.toNat ≤ q ∧ q ≤ last.toNat}

theorem toUnsigned_neg {x : Double} (h : x ≤ -1) : toUnsigned x = none := by
  apply if_neg
  intro hfits
  exact absurd hfits.1 (not_lt.mpr h)

theorem days_since_epoch (d : CivilDate) : julianDayOf d - unixEpochJulianDay = (d.ordinal - 719163 : ℤ) := by
  rw [julianDayOf, unixEpochJulianDay]
  push_cast
  ring

theorem quant_ids {d : CivilDate} (hyear : d.year ≤ 9999) (hepoch : 719163 ≤ d.ordinal) :
    ∃ first last, (Date.mk (julianDayOf d)).startQuantId = some first ∧
      (Date.mk (julianDayOf d)).endQuantId = some last ∧
      (first.toNat : ℤ) = 96 * (d.ordinal - 719163) ∧ (last.toNat : ℤ) = 96 * (d.ordinal - 719163) + 95 := by
  obtain ⟨k, hk⟩ := Nat.exists_eq_add_of_le hepoch
  have hle := d.ordinal_le
  have hdays : julianDayOf d - unixEpochJulianDay = (k : ℕ) := by
    rw [days_since_epoch, hk]
    push_cast
    ring
  have hfits : k < 2 ^ 32 := by omega
  have hfirst : UInt32.ofNat k * quantsPerDay = UInt32.ofNat (k * 96) := (UInt32.ofNat_mul k 96).symm
  have hlast : UInt32.ofNat (k * 96) + quantsPerDay - 1 = UInt32.ofNat (k * 96 + 96 - 1) := by
    rw [UInt32.ofNat_sub (by omega), UInt32.ofNat_add]
    rfl
  refine ⟨UInt32.ofNat (k * 96), UInt32.ofNat (k * 96 + 96 - 1), ?_, ?_, ?_, ?_⟩
  · simp only [Date.startQuantId, hdays, toUnsigned_cast hfits rfl, Option.bind_eq_bind, Option.bind_some,
      Option.pure_def, hfirst]
  · simp only [Date.endQuantId, hdays, toUnsigned_cast hfits rfl, Option.bind_eq_bind, Option.bind_some,
      Option.pure_def, hfirst, hlast]
  · have hbound : k * 96 < 2 ^ 32 := by omega
    rw [UInt32.toNat_ofNat_of_lt' hbound]
    omega
  · have hbound : k * 96 + 96 - 1 < 2 ^ 32 := by omega
    rw [UInt32.toNat_ofNat_of_lt' hbound]
    omega

theorem no_quants {d : CivilDate} (hepoch : d.ordinal < 719163) : (Date.mk (julianDayOf d)).startQuantId = none := by
  have hneg : julianDayOf d - unixEpochJulianDay ≤ -1 := by
    rw [days_since_epoch]
    have hle : (d.ordinal : ℤ) - 719163 ≤ -1 := by omega
    exact_mod_cast hle
  rw [Date.startQuantId, toUnsigned_neg hneg]
  rfl

theorem mem_quants {d : CivilDate} (hyear : d.year ≤ 9999) {q : ℤ} :
    q ∈ quants d ↔ 0 ≤ q ∧ (d.ordinal : ℤ) = 719163 + q / 96 := by
  constructor
  · rintro ⟨read, first, last, hread, hfirst, hlast, hle, hle'⟩
    obtain rfl : Date.mk (julianDayOf d) = read := Option.some_inj.mp ((date_text hyear).symm.trans hread)
    rcases Nat.lt_or_ge d.ordinal 719163 with hbefore | hepoch
    · rw [no_quants hbefore] at hfirst
      cases hfirst
    · obtain ⟨first', last', hstart, hend, hfrom, hto⟩ := quant_ids hyear hepoch
      obtain rfl : first = first' := Option.some_inj.mp (hfirst.symm.trans hstart)
      obtain rfl : last = last' := Option.some_inj.mp (hlast.symm.trans hend)
      omega
  · rintro ⟨hq, hday⟩
    have hepoch : 719163 ≤ d.ordinal := by omega
    obtain ⟨first, last, hstart, hend, hfrom, hto⟩ := quant_ids hyear hepoch
    refine ⟨_, first, last, date_text hyear, hstart, hend, by omega, by omega⟩

theorem quarter_of_day (t : ℤ) : t / secondsPerQuant / 96 = t / secondsPerDay :=
  Int.ediv_ediv_of_nonneg (by decide)

theorem mem_quants_dateOf {t : ℤ} (ht : 0 ≤ t) {d : CivilDate} (hyear : d.year < 10000) :
    t / secondsPerQuant ∈ quants d ↔ d = dateOf t := by
  have hq : 0 ≤ t / secondsPerQuant := Int.ediv_nonneg ht (by decide)
  rw [mem_quants (Nat.le_of_lt_succ hyear), quarter_of_day, ← ordinal_dateOf ht]
  constructor
  · rintro ⟨-, h⟩
    exact CivilDate.ordinal_injective (by exact_mod_cast h)
  · rintro rfl
    exact ⟨hq, rfl⟩

theorem quants_disjoint {d e : CivilDate} (hd : d.year < 10000) (he : e.year < 10000) (hne : d ≠ e) :
    Disjoint (quants d) (quants e) := by
  apply Set.disjoint_left.mpr
  intro q hq hq'
  have hday := ((mem_quants (Nat.le_of_lt_succ hd)).mp hq).2
  have hday' := ((mem_quants (Nat.le_of_lt_succ he)).mp hq').2
  apply hne
  apply CivilDate.ordinal_injective
  omega

/-- The date of a second and its quarter hour belong together. -/
theorem quarter_hours {t : ℤ} (ht : 0 ≤ t) (hyear : (dateOf t).year < 10000) :
    (∃ s read first last, Date.yyyymmdd ⟨epochToJulianDay t⟩ = some s ∧ date s = some read ∧
      read.eq ⟨epochToJulianDay t⟩ = true ∧ read.startQuantId = some first ∧ read.endQuantId = some last ∧
      first.toNat ≤ t / secondsPerQuant ∧ t / secondsPerQuant ≤ last.toNat) ∧
    (∃! d : CivilDate, d.year < 10000 ∧ t / secondsPerQuant ∈ quants d) ∧
    ∀ d e : CivilDate, d.year < 10000 → e.year < 10000 → d ≠ e → Disjoint (quants d) (quants e) := by
  have hbegins := epoch_begins ht
  have hle : (dateOf t).year ≤ 9999 := Nat.le_of_lt_succ hyear
  have hmem : t / secondsPerQuant ∈ quants (dateOf t) := (mem_quants_dateOf ht hyear).mpr rfl
  refine ⟨?_, ?_, ?_⟩
  · obtain ⟨read, first, last, hread, hstart, hend, hfrom, hto⟩ := hmem
    obtain rfl : Date.mk (julianDayOf (dateOf t)) = read := Option.some_inj.mp ((date_text hle).symm.trans hread)
    refine ⟨_, _, first, last, yyyymmdd_text hle hbegins, hread, ?_, hstart, hend, hfrom, hto⟩
    rw [hbegins, Date.eq, decide_eq_true_eq]
  · refine ⟨dateOf t, ⟨hyear, hmem⟩, ?_⟩
    rintro d ⟨hd, hq⟩
    exact (mem_quants_dateOf ht hd).mp hq
  · intro d e hd he hne
    exact quants_disjoint hd he hne

theorem quarter_hours_last_second :
    (∃ s read first last, Date.yyyymmdd ⟨epochToJulianDay 172799⟩ = some s ∧ date s = some read ∧
      read.eq ⟨epochToJulianDay 172799⟩ = true ∧ read.startQuantId = some first ∧ read.endQuantId = some last ∧
      first.toNat ≤ (172799 : ℤ) / secondsPerQuant ∧ (172799 : ℤ) / secondsPerQuant ≤ last.toNat) ∧
    (∃! d : CivilDate, d.year < 10000 ∧ (172799 : ℤ) / secondsPerQuant ∈ quants d) ∧
    ∀ d e : CivilDate, d.year < 10000 → e.year < 10000 → d ≠ e → Disjoint (quants d) (quants e) :=
  quarter_hours (by decide) (by decide)

end FcgiAppserver.Dates
