import Lvu.Query.BasisEval

/-!
# The instants of a time basis

What the expression of a basis gives is compared with the instant that the cell denotes.

* `toInt_ofInt_iff` : a wrapped integer is the integer itself only if it fits.
* `rfc3339_exact`, `epoch_exact`, `native_exact`, `text_exact` : the four readings.
* `basis_never_wraps` : **when a basis gives the instant or nothing**.
-/

namespace Lvu.Query

open List

open Binary (Floating Format Representable)
open Time (EpochUnit ZoneAssumption Fits64)

/-! ### Wrapped integers -/

variable {n value scale seconds : ℤ} {cs : List Char} {s : Spelled}

/-- **A wrapped integer is the integer itself only if it fits.** -/
theorem toInt_ofInt_iff {m : ℤ} (hnear : (m - n).natAbs < 2 ^ 64) :
    (Int64.ofInt m).toInt = n ↔ m = n ∧ Fits64 n := by
  constructor
  · intro h
    have hfits : Fits64 n := by
      have hlow := Int64.le_toInt (Int64.ofInt m)
      have hhigh := Int64.toInt_lt (Int64.ofInt m)
      rw [h] at hlow hhigh
      exact ⟨hlow, hhigh⟩
    refine ⟨?_, hfits⟩
    rw [Int64.toInt_ofInt] at h
    have hmod : (m - n) % (2 ^ 64 : ℤ) = 0 := by
      have hbmod : (m.bmod Int64.size) % (Int64.size : ℤ) = m % (Int64.size : ℤ) := Int.bmod_emod
      rw [h] at hbmod
      exact Int.emod_eq_emod_iff_emod_sub_eq_zero.1 hbmod.symm
    have hdvd : ((2 ^ 64 : ℕ) : ℤ) ∣ m - n := Int.dvd_of_emod_eq_zero (by exact_mod_cast hmod)
    have hzero := Int.eq_zero_of_dvd_of_natAbs_lt_natAbs hdvd (by simpa using hnear)
    omega
  · rintro ⟨rfl, hlow, hhigh⟩
    exact Int64.toInt_ofInt_of_le hlow hhigh

theorem toInt_ofInt_self : (Int64.ofInt n).toInt = n ↔ Fits64 n := by
  rw [toInt_ofInt_iff (by simp)]
  simp

theorem shiftNanos_ofInt (n : ℤ) (offset : Int32) :
    shiftNanos (Int64.ofInt n) offset = Int64.ofInt (n - offset.toInt * 1000000000) := by
  unfold shiftNanos
  split_ifs with h
  · rw [h]
    simp
  · rw [Int64.ofInt_sub]

/-! ### Doubles -/

theorem nearest_eq (h : Representable Format.f64.fraction n.natAbs) : nearest n = n := by
  rw [nearest, h.round]
  exact Int.sign_mul_natAbs n

theorem natAbs_nearest_le (n : ℤ) : (nearest n).natAbs ≤ 2 * n.natAbs := by
  rw [nearest, Int.natAbs_mul, Int.natAbs_natCast]
  refine (Nat.mul_le_mul (?_ : n.sign.natAbs ≤ 1) (Binary.units_round_le _ _)).trans_eq
    (Nat.one_mul _)
  rw [Int.natAbs_sign]
  split_ifs <;> decide

theorem representable_signedUnits (x : Floating .f64) :
    Representable Format.f64.fraction (signedUnits x).natAbs := by
  have h := Binary.representable_units Format.f64.fraction x.magnitude
  unfold signedUnits
  split_ifs
  · rwa [Int.natAbs_neg, Int.natAbs_natCast]
  · rwa [Int.natAbs_natCast]

theorem natAbs_one : one.natAbs = 2 ^ Format.f64.scale := by
  have htwo : (2 : ℤ).natAbs = 2 := rfl
  rw [one, Int.natAbs_pow, htwo]

theorem one_ne : one ≠ 0 := by
  intro h
  have hpos := Nat.two_pow_pos Format.f64.scale
  rw [← natAbs_one, h] at hpos
  exact absurd hpos (lt_irrefl 0)

/-- **The fraction of a double is exact**: only its product with the unit is rounded. -/
theorem fraction_exact (h : Representable Format.f64.fraction value.natAbs) :
    nearest (nearest value - nearest (value.tdiv one * one)) = value.tmod one := by
  obtain ⟨hwhole, hrest⟩ := h.split Format.f64.scale
  have hwhole' : Representable Format.f64.fraction (value.tdiv one * one).natAbs := by
    rw [Int.natAbs_mul, Int.natAbs_tdiv, natAbs_one]
    exact hwhole
  have hrest' : Representable Format.f64.fraction (value.tmod one).natAbs := by
    rw [Int.natAbs_tmod, natAbs_one]
    exact hrest
  have hdiff : value - value.tdiv one * one = value.tmod one := by
    have := Int.tmod_add_tdiv_mul value one
    omega
  rw [nearest_eq h, nearest_eq hwhole', hdiff, nearest_eq hrest']

theorem fraction_integer (value : ℤ) :
    nearest (nearest (value * one) - nearest ((value * one).tdiv one * one)) =
      (value * one).tmod one := by
  rw [Int.mul_tdiv_cancel _ one_ne, Int.sub_self, Int.mul_tmod_left]
  exact nearest_eq ⟨0, 0, Nat.two_pow_pos _, rfl⟩

/-! ### Epochs -/

/-- The whole part is within the limit. -/
def InLimit (scale value : ℤ) : Prop :=
  -((2 ^ 63 - 1) / scale) ≤ value.tdiv one ∧ value.tdiv one ≤ (2 ^ 63 - 1) / scale

/-- The nanoseconds of the fraction, truncated. -/
def truncated (scale value : ℤ) : ℤ := (value.tmod one * scale).tdiv one

/-- The same, where the product is rounded to a double first. -/
def truncatedNearest (scale value : ℤ) : ℤ := (nearest (value.tmod one * scale)).tdiv one

theorem natAbs_truncated_le (scale value : ℤ) :
    (truncated scale value).natAbs ≤ scale.natAbs ∧
      (truncatedNearest scale value).natAbs ≤ 2 * scale.natAbs := by
  have hpos : 0 < 2 ^ Format.f64.scale := Nat.two_pow_pos _
  have hfraction : (value.tmod one * scale).natAbs ≤ scale.natAbs * 2 ^ Format.f64.scale := by
    rw [Int.natAbs_mul, Int.natAbs_tmod, natAbs_one, Nat.mul_comm]
    exact Nat.mul_le_mul_left _ (Nat.mod_lt _ hpos).le
  constructor
  · rw [truncated, Int.natAbs_tdiv, natAbs_one]
    exact Nat.div_le_of_le_mul (hfraction.trans_eq (Nat.mul_comm _ _))
  · rw [truncatedNearest, Int.natAbs_tdiv, natAbs_one]
    refine Nat.div_le_of_le_mul ((natAbs_nearest_le _).trans ?_)
    calc 2 * (value.tmod one * scale).natAbs
        ≤ 2 * (scale.natAbs * 2 ^ Format.f64.scale) := Nat.mul_le_mul_left 2 hfraction
      _ = 2 ^ Format.f64.scale * (2 * scale.natAbs) := by ring

/-- What the expression of an epoch is. -/
theorem epochNanos_eq (hlow : 1 ≤ scale) (hhigh : scale ≤ 1000000000)
    (hfraction : nearest (nearest value - nearest (value.tdiv one * one)) = value.tmod one) :
    epochNanos scale value = if -((2 ^ 63 - 1) / scale) ≤ value.tdiv one ∧
      value.tdiv one ≤ (2 ^ 63 - 1) / scale then
        some (Int64.ofInt (value.tdiv one * scale + truncatedNearest scale value)) else none := by
  have hlimit : (2 ^ 63 - 1) / scale ≤ 2 ^ 63 - 1 := Int.ediv_le_self _ (by decide)
  unfold epochNanos castInt64
  by_cases hfits : -2 ^ 63 ≤ value.tdiv one ∧ value.tdiv one < 2 ^ 63
  · have hwhole : (Int64.ofInt (value.tdiv one)).toInt = value.tdiv one :=
      Int64.toInt_ofInt_of_le hfits.1 hfits.2
    rw [if_pos hfits]
    change (if -((2 ^ 63 - 1) / scale) ≤ (Int64.ofInt (value.tdiv one)).toInt ∧
      (Int64.ofInt (value.tdiv one)).toInt ≤ (2 ^ 63 - 1) / scale then _ else _) = _
    rw [hwhole, hfraction]
    refine if_congr Iff.rfl ?_ rfl
    have hsmall := (natAbs_truncated_le scale value).2
    rw [truncatedNearest] at hsmall ⊢
    rw [if_pos (by omega), Int64.ofInt_add, Int64.ofInt_mul]
    rfl
  · rw [if_neg hfits, if_neg (by omega)]
    rfl

/-- **When an epoch is read exactly**: unless the fraction takes it out of range, or is rounded to
another number of nanoseconds. -/
theorem epoch_exact (hlow : 1 ≤ scale) (hhigh : scale ≤ 1000000000)
    (hfraction : nearest (nearest value - nearest (value.tdiv one * one)) = value.tmod one) :
    (∀ nanos, epochNanos scale value = some nanos →
      value.tdiv one * scale + truncated scale value = nanos.toInt) ↔
    (InLimit scale value → truncatedNearest scale value = truncated scale value ∧
      Fits64 (value.tdiv one * scale + truncated scale value)) := by
  rw [epochNanos_eq hlow hhigh hfraction]
  obtain ⟨hsmall, hsmall'⟩ := natAbs_truncated_le scale value
  have hnear : (value.tdiv one * scale + truncatedNearest scale value -
      (value.tdiv one * scale + truncated scale value)).natAbs < 2 ^ 64 := by omega
  constructor
  · intro h hin
    rw [InLimit] at hin
    obtain ⟨hsame, hfits⟩ := (toInt_ofInt_iff hnear).1 (h _ (if_pos hin)).symm
    exact ⟨by omega, hfits⟩
  · intro h nanos hnanos
    split_ifs at hnanos with hin
    cases hnanos
    obtain ⟨hsame, hfits⟩ := h hin
    rw [hsame]
    exact (toInt_ofInt_self.2 hfits).symm

/-- Integers are read exactly. -/
theorem epoch_integer (value : ℤ) (hlow : 1 ≤ scale) :
    InLimit scale (value * one) →
      truncatedNearest scale (value * one) = truncated scale (value * one) ∧
        Fits64 ((value * one).tdiv one * scale + truncated scale (value * one)) := by
  intro hin
  have hzero : nearest 0 = 0 := nearest_eq ⟨0, 0, Nat.two_pow_pos _, rfl⟩
  have hmod : (value * one).tmod one = 0 := Int.mul_tmod_left value one
  rw [InLimit, Int.mul_tdiv_cancel _ one_ne] at hin
  have hscale : (2 ^ 63 - 1) / scale * scale ≤ 2 ^ 63 - 1 := Int.ediv_mul_le _ (by omega)
  have hupper : value * scale ≤ (2 ^ 63 - 1) / scale * scale :=
    Int.mul_le_mul_of_nonneg_right hin.2 (by omega)
  have hlower : -((2 ^ 63 - 1) / scale * scale) ≤ value * scale := by
    have h := Int.mul_le_mul_of_nonneg_right hin.1 (by omega : 0 ≤ scale)
    rwa [Int.neg_mul] at h
  rw [truncatedNearest, truncated, hmod, Int.zero_mul, hzero, Int.zero_tdiv, Int.add_zero,
    Int.mul_tdiv_cancel _ one_ne]
  refine ⟨rfl, ?_, ?_⟩ <;> omega

/-! ### The RFC 3339 profile -/

theorem ofDigitChars_lt (h : ∀ c ∈ cs, c.isDigit = true) (n : ℕ) :
    Nat.ofDigitChars 10 cs n < (n + 1) * 10 ^ cs.length := by
  induction cs generalizing n with
  | nil => simp
  | cons c cs ih =>
    have hdigit := h c mem_cons_self
    have hle : c.toNat - '0'.toNat ≤ 9 := by
      simp only [Char.isDigit, Bool.and_eq_true, decide_eq_true_eq] at hdigit
      have hnine : c.toNat ≤ 57 := hdigit.2
      change c.toNat - 48 ≤ 9
      omega
    rw [Nat.ofDigitChars_cons, length_cons, Nat.pow_succ]
    refine (ih (fun d hd => h d (mem_cons_of_mem _ hd)) _).trans_le ?_
    calc (10 * n + (c.toNat - '0'.toNat) + 1) * 10 ^ cs.length
        ≤ (10 * (n + 1)) * 10 ^ cs.length := Nat.mul_le_mul_right _ (by omega)
      _ = (n + 1) * (10 ^ cs.length * 10) := by ring

theorem readNat_eq_some {n : ℕ} (h : readNat cs = some n) :
    (∀ c ∈ cs, c.isDigit = true) ∧ n < 10 ^ cs.length := by
  unfold readNat at h
  split_ifs at h with hcs
  cases h
  have hall : ∀ c ∈ cs, c.isDigit = true := all_eq_true.1 hcs.2
  exact ⟨hall, by simpa using ofDigitChars_lt hall 0⟩

/-- What the syntax says of the parts. -/
structure Spelled.Sized (s : Spelled) : Prop where
  year : s.year.length = 4
  hour : s.hour.length = 2
  second : s.second.length = 2
  fraction : ∀ ds ∈ s.fraction, ds ≠ [] ∧ ds.length ≤ 9
  suffix : ∀ negative hours minutes, s.suffix = .offset negative hours minutes →
    hours.length = 2 ∧ minutes.length = 2

variable {isNd : Char → Bool}

theorem length_of_digits {n : ℕ} {cs : List Char} {found : List Char × List Char}
    (h : digits isNd n cs = some found) : found.1.length = n := by
  unfold digits at h
  split_ifs at h with hcs
  cases h
  exact hcs.1

theorem fractionSyntax_sized {found : Option (List Char) × List Char}
    (h : fractionSyntax isNd cs = some found) : ∀ ds ∈ found.1, ds ≠ [] ∧ ds.length ≤ 9 := by
  unfold fractionSyntax at h
  split at h
  · dsimp only at h
    split_ifs at h with hrun
    cases h
    intro ds hds
    cases hds
    exact ⟨ne_nil_of_length_pos (by omega), hrun.2⟩
  · cases h
    exact nofun

theorem suffixSyntax_sized {suffix : Suffix} (h : suffixSyntax isNd cs = some suffix)
    {negative : Bool} {hours minutes : List Char}
    (hoffset : suffix = .offset negative hours minutes) :
    hours.length = 2 ∧ minutes.length = 2 := by
  unfold suffixSyntax at h
  split at h
  · cases h
    cases hoffset
  · split_ifs at h
    cases h
    cases hoffset
    exact ⟨rfl, rfl⟩
  · split_ifs at h
    cases h
    cases hoffset

theorem extractedTimeSyntax_sized {cs : List Char} {spelled : Spelled}
    (h : extractedTimeSyntax isNd cs = some spelled) : spelled.Sized := by
  unfold extractedTimeSyntax at h
  obtain ⟨⟨year, cs⟩, hyear, h⟩ := Option.bind_eq_some_iff.1 h
  obtain ⟨cs, -, h⟩ := Option.bind_eq_some_iff.1 h
  obtain ⟨⟨month, cs⟩, -, h⟩ := Option.bind_eq_some_iff.1 h
  obtain ⟨cs, -, h⟩ := Option.bind_eq_some_iff.1 h
  obtain ⟨⟨day, cs⟩, -, h⟩ := Option.bind_eq_some_iff.1 h
  obtain ⟨cs, -, h⟩ := Option.bind_eq_some_iff.1 h
  obtain ⟨⟨hour, cs⟩, hhour, h⟩ := Option.bind_eq_some_iff.1 h
  obtain ⟨cs, -, h⟩ := Option.bind_eq_some_iff.1 h
  obtain ⟨⟨minute, cs⟩, -, h⟩ := Option.bind_eq_some_iff.1 h
  obtain ⟨cs, -, h⟩ := Option.bind_eq_some_iff.1 h
  obtain ⟨⟨second, cs⟩, hsecond, h⟩ := Option.bind_eq_some_iff.1 h
  dsimp only at h
  split_ifs at h
  obtain ⟨⟨fraction, cs⟩, hfraction, h⟩ := Option.bind_eq_some_iff.1 h
  obtain ⟨suffix, hsuffix, rfl⟩ := Option.map_eq_some_iff.1 h
  exact ⟨length_of_digits hyear, length_of_digits hhour, length_of_digits hsecond,
    fractionSyntax_sized hfraction, fun _ _ _ => suffixSyntax_sized hsuffix⟩

theorem suffix_seconds_le (hs : s.Sized) {offset : ℤ} (h : s.suffix.seconds = some offset) :
    offset.natAbs ≤ 1000000 := by
  cases hsuffix : s.suffix with
  | utc =>
    rw [hsuffix] at h
    cases h
    decide
  | offset negative hours minutes =>
    rw [hsuffix] at h
    obtain ⟨hhours, hminutes⟩ := hs.suffix negative hours minutes hsuffix
    obtain ⟨m, hm, h⟩ := Option.bind_eq_some_iff.1 h
    obtain ⟨k, hk, rfl⟩ := Option.map_eq_some_iff.1 h
    have hmlt := (readNat_eq_some hm).2
    have hklt := (readNat_eq_some hk).2
    rw [hhours] at hmlt
    rw [hminutes] at hklt
    cases negative <;> simp <;> omega

theorem monthDays_le (year : ℤ) (month : ℕ) : Calendar.monthDays year month ≤ 31 := by
  unfold Calendar.monthDays
  split
  · split_ifs <;> decide
  all_goals decide

theorem dayNumber_epoch : Calendar.dayNumber 1970 1 1 = 719162 := by
  rw [Calendar.dayNumber, Calendar.daysBeforeYear_eq, Calendar.daysBeforeMonth_eq _ (by decide)
    (by decide)]
  rfl

/-- **Whole seconds are far from any bound**, as the year has four digits. -/
theorem seconds_le (hs : s.Sized) (h : s.seconds = some seconds) : seconds.natAbs ≤ 10 ^ 12 := by
  unfold Spelled.seconds at h
  obtain ⟨year, hyear, h⟩ := Option.bind_eq_some_iff.1 h
  obtain ⟨month, hmonth, h⟩ := Option.bind_eq_some_iff.1 h
  obtain ⟨day, hday, h⟩ := Option.bind_eq_some_iff.1 h
  obtain ⟨hour, hhour, h⟩ := Option.bind_eq_some_iff.1 h
  obtain ⟨minute, hminute, h⟩ := Option.bind_eq_some_iff.1 h
  obtain ⟨second, hsecond, h⟩ := Option.bind_eq_some_iff.1 h
  obtain ⟨offset, hoffset, h⟩ := Option.bind_eq_some_iff.1 h
  split_ifs at h with hvalid
  cases h
  obtain ⟨hlow, hhigh, hfirst, hlast, hhours, hminutes⟩ := hvalid
  have hyearlt := (readNat_eq_some hyear).2
  have hsecondlt := (readNat_eq_some hsecond).2
  rw [hs.year] at hyearlt
  rw [hs.second] at hsecondlt
  have hoff := suffix_seconds_le hs hoffset
  have hdays := hlast.trans (monthDays_le year month)
  have hmonths : 0 ≤ Calendar.daysBeforeMonth year month ∧
      Calendar.daysBeforeMonth year month ≤ 400 := by
    rw [Calendar.daysBeforeMonth_eq _ hlow hhigh]
    split_ifs <;> omega
  have hyears := Calendar.daysBeforeYear_eq (year - 1)
  rw [dayNumber_epoch, Calendar.dayNumber, hyears]
  generalize Calendar.daysBeforeMonth year month = before at hmonths
  omega

theorem extractedSeconds_eq (hs : s.Sized) (h : s.seconds = some seconds) :
    extractedSeconds s = some (Int64.ofInt seconds) ∧ (Int64.ofInt seconds).toInt = seconds := by
  have hsmall := seconds_le hs h
  have hmillis : (Int64.ofInt (seconds * 1000)).toInt = seconds * 1000 :=
    Int64.toInt_ofInt_of_le (by omega) (by omega)
  refine ⟨?_, Int64.toInt_ofInt_of_le (by omega) (by omega)⟩
  rw [extractedSeconds, h, Option.map_some, hmillis, Int.mul_tdiv_cancel _ (by decide)]

theorem byteSize_digits (h : ∀ c ∈ cs, c.isDigit = true) : byteSize cs = cs.length := by
  induction cs with
  | nil => rfl
  | cons c cs ih =>
    have hdigit := h c mem_cons_self
    have hsize : c.utf8Size = 1 := by
      simp only [Char.isDigit, Bool.and_eq_true, decide_eq_true_eq] at hdigit
      have hsmall : c.val ≤ 127 := UInt32.le_trans hdigit.2 (by decide)
      exact Char.utf8Size_eq_one_iff.2 hsmall
    have hrest := ih fun d hd => h d (mem_cons_of_mem _ hd)
    rw [byteSize] at hrest ⊢
    rw [map_cons, sum_cons, hsize, hrest, length_cons, Nat.add_comm]

theorem fractionScale_eq {n : ℕ} (hlow : 1 ≤ n) (hhigh : n ≤ 9) :
    fractionScale n = 10 ^ (9 - n) := by
  interval_cases n <;> rfl

/-- **A fraction in ASCII is read exactly**, and any other is read as nothing. -/
theorem extractedFraction_spec (hs : s.Sized) :
    (∀ ds ∈ s.fraction, ∀ c ∈ ds, c.isDigit = true) ∧
        (∃ nanos, fractionNanos s.fraction = some nanos ∧ 0 ≤ nanos ∧ nanos ≤ 999999999 ∧
          extractedFractionNanos s.fraction = Int64.ofInt nanos) ∨
      fractionNanos s.fraction = none ∧ extractedFractionNanos s.fraction = 0 := by
  cases hfraction : s.fraction with
  | none =>
    exact .inl ⟨nofun, 0, rfl, Int.le_refl 0, by decide, rfl⟩
  | some ds =>
    obtain ⟨hne, hlong⟩ := hs.fraction ds hfraction
    have hlow : 1 ≤ ds.length := length_pos_of_ne_nil hne
    cases hread : readNat ds with
    | none => exact .inr ⟨by simp [fractionNanos, hread], by simp [extractedFractionNanos, hread]⟩
    | some n =>
      obtain ⟨hdigits, hlt⟩ := readNat_eq_some hread
      have hscale := fractionScale_eq hlow hlong
      refine .inl ⟨?_, n * 10 ^ (9 - ds.length), by simp [fractionNanos, hread], ?_, ?_, ?_⟩
      · intro other hother
        cases hother
        exact hdigits
      · exact_mod_cast Nat.zero_le (n * 10 ^ (9 - ds.length))
      · have hprod : n * 10 ^ (9 - ds.length) < 10 ^ ds.length * 10 ^ (9 - ds.length) :=
          Nat.mul_lt_mul_of_pos_right hlt (Nat.pow_pos (by decide))
        rw [← Nat.pow_add, Nat.add_sub_cancel' hlong] at hprod
        have hle : n * 10 ^ (9 - ds.length) ≤ 999999999 := Nat.le_of_lt_succ hprod
        exact_mod_cast hle
      · rw [extractedFractionNanos, Option.bind_some, hread, Option.map_some,
          byteSize_digits hdigits, Option.getD_some, Option.getD_some, hscale]

/-- The guard lets through what fits, and the product and sum are exact then. -/
theorem checkedSecondsToNanos_eq {fraction : ℤ} (hseconds : seconds.natAbs ≤ 10 ^ 12)
    (hlow : 0 ≤ fraction) (hhigh : fraction ≤ 999999999) :
    checkedSecondsToNanos (Int64.ofInt seconds) (Int64.ofInt fraction) =
      if -9223372036 ≤ seconds ∧ seconds ≤ 9223372036 ∧
          (seconds < 9223372036 ∨ fraction ≤ 854775807) then
        some (Int64.ofInt (seconds * 1000000000 + fraction)) else none := by
  have hs : (Int64.ofInt seconds).toInt = seconds :=
    Int64.toInt_ofInt_of_le (by omega) (by omega)
  have hf : (Int64.ofInt fraction).toInt = fraction :=
    Int64.toInt_ofInt_of_le (by omega) (by omega)
  have hlimit : ((2 : ℤ) ^ 63 - 1) / 1000000000 = 9223372036 := by decide
  have hmost : (2 : ℤ) ^ 63 - 1 - 9223372036 * 1000000000 = 854775807 := by decide
  simp only [checkedSecondsToNanos, hs, hf, hlimit, hmost, Int64.ofInt_add, Int64.ofInt_mul]
  rfl

/-- The parts of a text that the profile has, as the guard lets them through. -/
def InProfile (s : Spelled) : Prop :=
  s.yearPositive = true ∧ ∃ seconds ∈ s.seconds, -9223372036 ≤ seconds ∧ seconds ≤ 9223372036

/-- **When the profile is read exactly**: unless the fraction has digits that are not ASCII. -/
theorem rfc3339_exact {text : List Char} :
    (∀ nanos, rfc3339Nanos isNd text = some nanos →
      rfc3339Instant isNd text = some nanos.toInt) ↔
    ∀ spelled ∈ extractedTimeSyntax isNd (Time.trim text), InProfile spelled →
      ∀ ds ∈ spelled.fraction, ∀ c ∈ ds, c.isDigit = true := by
  unfold rfc3339Nanos rfc3339Instant InProfile
  cases hspelled : extractedTimeSyntax isNd (Time.trim text) with
  | none => simp
  | some spelled =>
    have hs := extractedTimeSyntax_sized hspelled
    have hfraction := extractedFraction_spec hs
    simp only [Option.bind_some, Option.mem_def, Option.some.injEq, forall_eq']
    cases hyear : spelled.yearPositive with
    | false => simp
    | true =>
      cases hseconds : spelled.seconds with
      | none => simp [extractedSeconds, hseconds]
      | some seconds =>
        obtain ⟨hextracted, -⟩ := extractedSeconds_eq hs hseconds
        have hsmall := seconds_le hs hseconds
        simp only [if_true, hextracted, Option.bind_some, true_and, Option.some.injEq,
          exists_eq_left']
        rcases hfraction with ⟨hdigits, nanos, hnanos, hlow, hhigh, heq⟩ | ⟨hnone, hzero⟩
        · refine ⟨fun _ _ => hdigits, fun _ found hfound => ?_⟩
          rw [heq, checkedSecondsToNanos_eq hsmall hlow hhigh] at hfound
          split_ifs at hfound with hguard
          cases hfound
          rw [hnanos, Option.map_some]
          exact congrArg some (toInt_ofInt_self.2 ⟨by omega, by omega⟩).symm
        · have hresult := checkedSecondsToNanos_eq hsmall (Int.le_refl 0) (by decide)
          rw [hnone, hzero]
          change (∀ nanos, checkedSecondsToNanos (Int64.ofInt seconds) (Int64.ofInt 0) =
            some nanos → none = some nanos.toInt) ↔ _
          rw [hresult]
          constructor
          · intro h hin
            exact absurd (h _ (if_pos ⟨hin.1, hin.2, .inr (by decide)⟩)) (Option.some_ne_none _).symm
          · intro h found hfound
            split_ifs at hfound with hguard
            -- the digits would all be ASCII, and the fraction would be read
            have hdigits := h ⟨hguard.1, hguard.2.1⟩
            cases hds : spelled.fraction with
            | none =>
              rw [hds] at hnone
              cases hnone
            | some ds =>
              have hread : readNat ds ≠ none := by
                rw [readNat, if_pos ⟨(hs.fraction ds hds).1, all_eq_true.2 (hdigits ds hds)⟩]
                exact Option.some_ne_none _
              rw [hds] at hnone
              exact absurd (Option.map_eq_none_iff.1 hnone) hread

/-- The profile's lower bound is that of its whole seconds. -/
theorem rfc3339_bound {text : List Char} {nanos : Int64} {instant : ℤ}
    (h : rfc3339Nanos isNd text = some nanos) (hinstant : rfc3339Instant isNd text = some instant) :
    -9223372036000000000 ≤ instant := by
  unfold rfc3339Nanos at h
  unfold rfc3339Instant at hinstant
  obtain ⟨spelled, hspelled, h⟩ := Option.bind_eq_some_iff.1 h
  have hs := extractedTimeSyntax_sized hspelled
  rw [hspelled, Option.bind_some] at hinstant
  split_ifs at h hinstant with hyear
  obtain ⟨seconds, hseconds, hinstant⟩ := Option.bind_eq_some_iff.1 hinstant
  obtain ⟨fraction, hfraction, rfl⟩ := Option.map_eq_some_iff.1 hinstant
  rw [(extractedSeconds_eq hs hseconds).1, Option.bind_some] at h
  rcases extractedFraction_spec hs with ⟨-, found, hfound, hlow, hhigh, heq⟩ | ⟨hnone, -⟩
  · rw [hfound] at hfraction
    cases hfraction
    rw [heq, checkedSecondsToNanos_eq (seconds_le hs hseconds) hlow hhigh] at h
    split_ifs at h with hguard
    omega
  · rw [hnone] at hfraction
    cases hfraction

/-! ### Date-times and text -/

theorem offset_natAbs_le (offset : Int32) : (offset.toInt * 1000000000).natAbs < 2 ^ 63 := by
  have hlow := Int32.le_toInt offset
  have hhigh := Int32.toInt_lt offset
  omega

/-- **When a date-time is read exactly**: one with a zone must not be shifted again, and the result
must fit. -/
theorem native_exact (value : Int64) (unit : TimeUnit) (aware : Bool) (offset : Int32) :
    (shiftNanos (value * Int64.ofInt unit.nanos) offset).toInt =
        value.toInt * unit.nanos - (if aware then 0 else offset.toInt * 1000000000) ↔
      (aware = true → offset.toInt = 0) ∧
        Fits64 (value.toInt * unit.nanos - if aware then 0 else offset.toInt * 1000000000) := by
  have hvalue : value * Int64.ofInt unit.nanos = Int64.ofInt (value.toInt * unit.nanos) := by
    rw [Int64.ofInt_mul, Int64.ofInt_toInt]
  have hoffset := offset_natAbs_le offset
  rw [hvalue, shiftNanos_ofInt]
  cases aware with
  | true =>
    rw [if_pos rfl, toInt_ofInt_iff (by omega)]
    refine and_congr_left fun _ => ⟨fun h _ => by omega, fun h => by rw [h rfl]; omega⟩
  | false =>
    rw [if_neg Bool.false_ne_true, toInt_ofInt_self]
    simp

/-- What was read of a moment is exact: its instant fits, and an offset that no zone was asked for
is the declared one, or none is declared if it was applied. -/
def Moment.ReadExactly (aware : Bool) (declared n : ℤ) (moment : Moment) : Prop :=
  Fits64 (moment.instant declared) ∧ (aware = false → ∀ offset ∈ moment.offset,
    declared = if n = moment.localNanos then offset else 0)

/-- **When a text is read exactly.** -/
theorem text_exact {aware : Bool} {offset : Int32} (haware : aware = true → offset = 0)
    {moment : Moment}
    (hn : n = moment.instant 0 ∨ aware = false ∧ n = moment.localNanos) :
    moment.instant offset.toInt = (shiftNanos (Int64.ofInt n) offset).toInt ↔
      moment.ReadExactly aware offset.toInt n := by
  have hbound := offset_natAbs_le offset
  have hcarried := moment.offset_lt
  rw [shiftNanos_ofInt, eq_comm]
  unfold Moment.ReadExactly Moment.instant at *
  cases hoffset : moment.offset with
  | none =>
    rw [hoffset, Option.getD_none] at hn
    obtain rfl : n = moment.localNanos := by omega
    rw [Option.getD_none, toInt_ofInt_self]
    simp
  | some carried =>
    have hsmall := hcarried carried hoffset
    rw [hoffset, Option.getD_some] at hn
    rw [Option.getD_some, toInt_ofInt_iff (by omega), and_comm]
    refine and_congr_right fun _ => ?_
    cases aware with
    | true =>
      have hzero : offset.toInt = 0 := by rw [haware rfl, Int32.toInt_zero]
      have happlied := hn.resolve_right nofun
      exact iff_of_true (by omega) nofun
    | false =>
      simp only [forall_const, Option.mem_def, Option.some.injEq, forall_eq']
      split_ifs <;> omega

/-! ### Every reading -/

/-- The instants that a reading may give. -/
def InBounds : ColumnTimeInterpretation → ℤ → Prop
  | .rfc3339, instant => -9223372036000000000 ≤ instant ∧ Fits64 instant
  | _, instant => Fits64 instant

/-- **The result is the instant or nothing**, and nothing if the instant is out of bounds. -/
structure Faithful (interpretation : ColumnTimeInterpretation) (result : Option Int64)
    (instant : Option ℤ) : Prop where
  exact : ∀ nanos, result = some nanos → instant = some nanos.toInt
  bounded : ∀ i, instant = some i → ¬ InBounds interpretation i → result = none

/-- **The condition.**  An epoch's fraction stays in range and is not rounded over a nanosecond; a
date-time is not shifted twice and fits; a text fits, and its own offset is the one that is used; a
fraction in the RFC 3339 profile is in ASCII. -/
def ReadExactly (isNd : Char → Bool) (polars : Strptime) (selection : TimeColumnSelection) :
    Cell → Prop
  | .null | .integer _ => True
  | .float value => ∀ unit, selection.interpretation = .epoch unit → value.IsFinite →
      InLimit unit.nanosPerUnit (signedUnits value) →
        truncatedNearest unit.nanosPerUnit (signedUnits value) =
            truncated unit.nanosPerUnit (signedUnits value) ∧
          Fits64 ((signedUnits value).tdiv one * unit.nanosPerUnit +
            truncated unit.nanosPerUnit (signedUnits value))
  | .datetime value unit aware => selection.interpretation = .native →
      (aware = true → declared selection.zone = 0) ∧ Fits64 (value.toInt * unit.nanos -
        if aware then 0 else declared selection.zone * 1000000000)
  | .text value =>
    (∀ format, selection.interpretation = .text format →
      ∀ n ∈ polars.nanos format (formatReadsZone format) value,
        ∀ moment ∈ polars.chrono format value,
          moment.ReadExactly (formatReadsZone format) (declared selection.zone) n) ∧
    (selection.interpretation = .rfc3339 →
      ∀ spelled ∈ extractedTimeSyntax isNd (Time.trim value), InProfile spelled →
        ∀ ds ∈ spelled.fraction, ∀ c ∈ ds, c.isDigit = true)

/-- What a basis was compiled from. -/
theorem basis_of_expression {selection : TimeColumnSelection} {basis : Basis}
    (h : timeBasisExpression selection = .ok basis) :
    (selection.interpretation = .rfc3339 → basis = .rfc3339) ∧
    (∀ unit, selection.interpretation = .epoch unit → basis = .epoch unit.nanosPerUnit) ∧
    (selection.interpretation = .native → ∃ offset ∈ selection.zone.offsetSeconds,
      basis = .native offset) := by
  unfold timeBasisExpression at h
  by_cases hcolumn : selection.column = []
  · rw [if_pos hcolumn] at h
    cases h
  · by_cases hprotected : isProtected selection.column = true
    · rw [if_neg hcolumn, if_pos hprotected] at h
      cases h
    · rw [if_neg hcolumn, if_neg hprotected] at h
      refine ⟨fun heq => ?_, fun unit heq => ?_, fun heq => ?_⟩
      · rw [heq] at h
        dsimp only at h
        split_ifs at h
        exact (Except.ok.inj h).symm
      · rw [heq] at h
        dsimp only at h
        split_ifs at h
        exact (Except.ok.inj h).symm
      · rw [heq] at h
        dsimp only at h
        cases hoffset : selection.zone.offsetSeconds with
        | none =>
          rw [hoffset] at h
          cases h
        | some offset =>
          rw [hoffset] at h
          exact ⟨offset, rfl, (Except.ok.inj h).symm⟩

theorem nanosPerUnit_bounds (unit : EpochUnit) :
    1 ≤ unit.nanosPerUnit ∧ unit.nanosPerUnit ≤ 1000000000 := by
  cases unit <;> decide

theorem declared_eq {zone : ZoneAssumption} {offset : Int32} (h : offset ∈ zone.offsetSeconds) :
    declared zone = offset.toInt := by
  rw [Option.mem_def] at h
  rw [declared, h]
  rfl

/-- A result that is exact is in bounds. -/
theorem faithful_of_exact {interpretation : ColumnTimeInterpretation} {result : Option Int64}
    {instant : Option ℤ} (h : ∀ nanos, result = some nanos → instant = some nanos.toInt)
    (hlow : interpretation = .rfc3339 → ∀ nanos i, result = some nanos → instant = some i →
      -9223372036000000000 ≤ i) : Faithful interpretation result instant := by
  refine ⟨h, fun i hi hout => ?_⟩
  cases hresult : result with
  | none => rfl
  | some nanos =>
    have hsame := h nanos hresult
    rw [hi] at hsame
    cases hsame
    have hfits : Fits64 nanos.toInt := ⟨Int64.le_toInt nanos, Int64.toInt_lt nanos⟩
    refine absurd ?_ hout
    cases interpretation with
    | rfc3339 => exact ⟨hlow rfl nanos _ hresult hi, hfits⟩
    | native | epoch unit | text format => exact hfits

variable (isNd : Char → Bool) (polars : Strptime)

/-- **When a declared time basis gives the instant or nothing.** -/
theorem basis_never_wraps {selection : TimeColumnSelection} {basis : Basis}
    (h : timeBasisExpression selection = .ok basis) {cell : Cell}
    (hcell : compatible selection.interpretation cell) :
    Faithful selection.interpretation (basis.eval isNd polars cell)
        (denotes isNd polars selection cell) ↔
      ReadExactly isNd polars selection cell := by
  obtain ⟨hrfc, hepoch, hnative⟩ := basis_of_expression h
  have hfaithful : Faithful selection.interpretation (basis.eval isNd polars cell)
      (denotes isNd polars selection cell) ↔ ∀ nanos,
        basis.eval isNd polars cell = some nanos →
          denotes isNd polars selection cell = some nanos.toInt := by
    refine ⟨fun hf => hf.exact, fun hexact => faithful_of_exact hexact ?_⟩
    intro hinterpretation nanos i hresult hinstant
    rw [hrfc hinterpretation] at hresult
    cases cell with
    | text value =>
      simp only [denotes, hinterpretation] at hinstant
      exact rfc3339_bound hresult hinstant
    | _ => cases hresult
  rw [hfaithful]
  cases hinterpretation : selection.interpretation with
  | rfc3339 =>
    obtain rfl := hrfc hinterpretation
    rw [hinterpretation] at hcell
    cases cell with
    | null => simp [Basis.eval, ReadExactly]
    | text value =>
      simp only [Basis.eval, denotes, hinterpretation, ReadExactly, rfc3339_exact, reduceCtorEq,
        false_implies, implies_true, true_and, forall_const]
    | _ => exact hcell.elim
  | epoch unit =>
    obtain rfl := hepoch unit hinterpretation
    rw [hinterpretation] at hcell
    obtain ⟨hlow, hhigh⟩ := nanosPerUnit_bounds unit
    cases cell with
    | null => simp [Basis.eval, ReadExactly, Cell.exact]
    | integer value =>
      have hexact := (epoch_exact hlow hhigh (fraction_integer value)).2 (epoch_integer value hlow)
      simp only [Basis.eval, Cell.exact, Option.bind_some, denotes, hinterpretation, ReadExactly,
        Option.map_some, Option.some.injEq, iff_true]
      exact hexact
    | float value =>
      have hexact := epoch_exact hlow hhigh (fraction_exact (representable_signedUnits value))
      by_cases hfinite : value.IsFinite
      · simp only [Basis.eval, Cell.exact, hfinite, if_true, Option.bind_some, denotes,
          hinterpretation, ReadExactly, Option.map_some, Option.some.injEq, forall_const,
          ColumnTimeInterpretation.epoch.injEq, forall_eq']
        exact hexact
      · simp [Basis.eval, ReadExactly, Cell.exact, hfinite]
    | _ => exact hcell.elim
  | native =>
    obtain ⟨offset, hoffset, rfl⟩ := hnative hinterpretation
    rw [hinterpretation] at hcell
    cases cell with
    | null => simp [Basis.eval, ReadExactly]
    | datetime value unit aware =>
      simp only [Basis.eval, denotes, hinterpretation, ReadExactly, Option.some.injEq, forall_eq',
        declared_eq hoffset, forall_const]
      rw [eq_comm]
      exact native_exact value unit aware offset
    | _ => exact hcell.elim
  | text format =>
    rw [hinterpretation] at hcell
    obtain ⟨aware, offset, haware, hread, hdeclared, rfl⟩ : ∃ aware offset,
        (aware = true → offset = 0) ∧ formatReadsZone format = aware ∧
          declared selection.zone = offset.toInt ∧ basis = .text format aware offset := by
      rcases text_of_expression hinterpretation h with ⟨hread, hzone, rfl⟩ |
        ⟨hread, offset, hoffset, rfl⟩
      · exact ⟨true, 0, fun _ => rfl, hread, by rw [hzone]; rfl, rfl⟩
      · exact ⟨false, offset, nofun, hread, declared_eq hoffset, rfl⟩
    cases cell with
    | null => simp [Basis.eval, ReadExactly]
    | text value =>
      simp only [Basis.eval, denotes, hinterpretation, ReadExactly, reduceCtorEq, false_implies,
        and_true, ColumnTimeInterpretation.text.injEq, forall_eq', hread, hdeclared]
      cases hnanos : polars.nanos format aware value with
      | none => simp
      | some n =>
        obtain ⟨moment, hmoment, hn⟩ := polars.reading format aware value n hnanos
        simp only [hmoment, Option.map_some, Option.some.injEq, Option.mem_def, forall_eq']
        exact text_exact haware hn
    | _ => exact hcell.elim

/-- A local reading, whatever the text. -/
def always (localNanos : ℤ) : Strptime where
  chrono _ _ := some ⟨localNanos, none, nofun⟩
  nanos _ _ _ := some localNanos
  reading := by
    rintro format aware value n ⟨⟩
    exact ⟨_, rfl, .inl (Int.sub_zero _).symm⟩

/-- The first reading of the year 2000, an hour ahead of UTC, is read exactly. -/
theorem basis_never_wraps_year : Faithful (.text ['%', 'Y'])
    ((Basis.text ['%', 'Y'] false 3600).eval Char.isDigit (always 946684800000000000)
      (.text ['2', '0', '0', '0']))
    (denotes Char.isDigit (always 946684800000000000)
      ⟨['t'], .text ['%', 'Y'], .fixedOffsetSeconds 3600⟩ (.text ['2', '0', '0', '0'])) := by
  have hbasis : timeBasisExpression ⟨['t'], .text ['%', 'Y'], .fixedOffsetSeconds 3600⟩ =
      .ok (.text ['%', 'Y'] false 3600) := by decide
  have hcell : compatible (.text ['%', 'Y']) (.text ['2', '0', '0', '0']) := trivial
  refine (basis_never_wraps Char.isDigit (always 946684800000000000) hbasis hcell).2 ⟨?_, nofun⟩
  rintro format ⟨⟩ n - moment ⟨⟩
  exact ⟨by decide, nofun⟩

/-- The double next to 9223372036.9. -/
def lastSecond : Floating .f64 := ⟨false, 4756133310154355507, by decide⟩

/-- A fraction takes an epoch of seconds out of range; so does an offset the first date-time, and a
year a text. -/
theorem basis_wraps :
    (timeBasisExpression ⟨['t'], .epoch .seconds, .reject⟩ = .ok (.epoch 1000000000) ∧
      (Basis.epoch 1000000000).eval Char.isDigit (always 32503680000000000000) (.float lastSecond) =
        some (-9223372036809551998) ∧
      denotes Char.isDigit (always 32503680000000000000) ⟨['t'], .epoch .seconds, .reject⟩ (.float lastSecond) =
        some 9223372036899999618) ∧
    (timeBasisExpression ⟨['t'], .native, .fixedOffsetSeconds 1⟩ = .ok (.native 1) ∧
      (Basis.native 1).eval Char.isDigit (always 32503680000000000000)
        (.datetime Int64.minValue .nanoseconds false) = some 9223372035854775808 ∧
      denotes Char.isDigit (always 32503680000000000000) ⟨['t'], .native, .fixedOffsetSeconds 1⟩
        (.datetime Int64.minValue .nanoseconds false) = some (-9223372037854775808)) ∧
    timeBasisExpression ⟨['t'], .text ['%', 'Y'], .utc⟩ = .ok (.text ['%', 'Y'] false 0) ∧
      (Basis.text ['%', 'Y'] false 0).eval Char.isDigit (always 32503680000000000000)
        (.text ['3', '0', '0', '0']) = some (-4389808147419103232) ∧
      denotes Char.isDigit (always 32503680000000000000) ⟨['t'], .text ['%', 'Y'], .utc⟩
        (.text ['3', '0', '0', '0']) = some 32503680000000000000 := by
  refine ⟨⟨by decide, by decide +kernel, by decide +kernel⟩, ⟨by decide, by decide, by decide⟩,
    by decide, by decide, by decide⟩

end Lvu.Query
