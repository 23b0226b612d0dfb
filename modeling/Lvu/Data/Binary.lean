import Mathlib.Data.Nat.Log
import Mathlib.Tactic.Ring

/-!
# Binary floating-point numbers

The bits of a floating-point number are a sign, an exponent and a fraction; without the sign they
are read as one number, its magnitude, which ascends with the value.  A value is counted in units of
the smallest positive number.

* `units` : the value of a magnitude.
* `round` : the magnitude next to a value, half to even.
* `round_units` : the value of a magnitude rounds to the magnitude.
* `Representable` : a value that is rounded to itself.
* `Floating.convert` : one format is converted to another.
* `convert_convert` : a wider format loses nothing.
-/

namespace Lvu.Binary

/-! ### Magnitudes -/

/-- The significand of a magnitude, for fractions of `p` bits. -/
def significand (p b : ℕ) : ℕ := if b / 2 ^ p = 0 then b else 2 ^ p + b % 2 ^ p

/-- The value of a magnitude. -/
def units (p b : ℕ) : ℕ := significand p b * 2 ^ (b / 2 ^ p - 1)

/-- The quotient by a power of two, rounded to the nearest, half to even. -/
def nearestEven (n d : ℕ) : ℕ :=
  let q := n / 2 ^ d
  let r := n % 2 ^ d
  if 2 ^ d < 2 * r ∨ 2 * r = 2 ^ d ∧ q % 2 = 1 then q + 1 else q

/-- The magnitude next to a value of `2 ^ k` parts of a unit. -/
def round (p k n : ℕ) : ℕ :=
  let d := max k (n.log2 - p)
  (d - k) * 2 ^ p + nearestEven n d

theorem significand_lt (p b : ℕ) : significand p b < 2 ^ (p + 1) := by
  have hpos : 0 < 2 ^ p := Nat.two_pow_pos p
  rw [significand, Nat.pow_succ]
  split_ifs with h
  · have := (Nat.div_eq_zero_iff_lt hpos).1 h
    omega
  · have := Nat.mod_lt b hpos
    omega

theorem nearestEven_mul (q d : ℕ) : nearestEven (q * 2 ^ d) d = q := by
  have hpos : 0 < 2 ^ d := Nat.two_pow_pos d
  rw [nearestEven, Nat.mul_div_cancel _ hpos, Nat.mul_mod_left]
  simp only [Nat.mul_zero]
  rw [if_neg]
  omega

theorem log2_mul_pow {s : ℕ} (hs : s ≠ 0) (j : ℕ) : (s * 2 ^ j).log2 = s.log2 + j := by
  have hbits := (Nat.log2_eq_iff hs).1 rfl
  have hpos : 0 < 2 ^ j := Nat.two_pow_pos j
  rw [Nat.log2_eq_iff (Nat.mul_ne_zero hs hpos.ne'), Nat.add_right_comm, Nat.pow_add, Nat.pow_add]
  exact ⟨Nat.mul_le_mul_right _ hbits.1, Nat.mul_lt_mul_of_pos_right hbits.2 hpos⟩

/-- **The value of a magnitude rounds to the magnitude.** -/
theorem round_units (p k b : ℕ) : round p k (units p b * 2 ^ k) = b := by
  have hpos : 0 < 2 ^ p := Nat.two_pow_pos p
  unfold units significand round
  by_cases hsmall : b / 2 ^ p = 0
  · -- there is no exponent: the value is the magnitude itself
    have hlt := (Nat.div_eq_zero_iff_lt hpos).1 hsmall
    rw [if_pos hsmall, hsmall, Nat.zero_sub, Nat.pow_zero, Nat.mul_one]
    have hbits : (b * 2 ^ k).log2 - p ≤ k := by
      rcases Nat.eq_zero_or_pos b with rfl | hb
      · simp
      · have hlog : b.log2 < p := (Nat.log2_lt hb.ne').2 hlt
        rw [log2_mul_pow hb.ne']
        omega
    rw [max_eq_left hbits]
    simp only [Nat.sub_self, Nat.zero_mul, Nat.zero_add]
    exact nearestEven_mul b k
  · have hmod := Nat.mod_lt b hpos
    have hlog : (2 ^ p + b % 2 ^ p).log2 = p := by
      rw [Nat.log2_eq_iff (by omega), Nat.pow_succ]
      omega
    rw [if_neg hsmall, Nat.mul_assoc, ← Nat.pow_add, log2_mul_pow (by omega), hlog]
    have hdiv := Nat.div_add_mod b (2 ^ p)
    generalize b / 2 ^ p = q at hsmall hdiv ⊢
    have hd : max k (p + (q - 1 + k) - p) = q - 1 + k := by omega
    have hexponent : (q - 1) * 2 ^ p + 2 ^ p = q * 2 ^ p := by
      rw [← Nat.succ_mul]
      congr 1
      omega
    simp only [hd, nearestEven_mul, Nat.add_sub_cancel]
    rw [← Nat.add_assoc, hexponent, Nat.mul_comm]
    exact hdiv

/-- A value with no more bits than a significand is that of a magnitude. -/
theorem exists_units {p s : ℕ} (hs : s < 2 ^ (p + 1)) (j : ℕ) : ∃ b, units p b = s * 2 ^ j := by
  have hpos : 0 < 2 ^ p := Nat.two_pow_pos p
  rw [Nat.pow_succ] at hs
  induction j generalizing s with
  | zero =>
    refine ⟨s, ?_⟩
    by_cases hsmall : s / 2 ^ p = 0
    · simp [units, significand, hsmall]
    · have hone : s / 2 ^ p = 1 := by
        have hlt : s / 2 ^ p < 2 := Nat.div_lt_of_lt_mul hs
        generalize s / 2 ^ p = q at hsmall hlt ⊢
        omega
      have hdiv := Nat.div_add_mod s (2 ^ p)
      rw [hone, Nat.mul_one] at hdiv
      simp only [units, significand, hone, one_ne_zero, if_false, Nat.sub_self, Nat.pow_zero,
        Nat.mul_one, hdiv]
  | succ j ih =>
    by_cases hlt : s < 2 ^ p
    · obtain ⟨b, hb⟩ := ih (s := 2 * s) (by omega)
      refine ⟨b, hb.trans ?_⟩
      rw [Nat.pow_succ]
      ring
    · refine ⟨(j + 2) * 2 ^ p + (s - 2 ^ p), ?_⟩
      have hdiv : ((j + 2) * 2 ^ p + (s - 2 ^ p)) / 2 ^ p = j + 2 := by
        rw [Nat.mul_comm, Nat.mul_add_div hpos, Nat.div_eq_of_lt (by omega), Nat.add_zero]
      have hmod : ((j + 2) * 2 ^ p + (s - 2 ^ p)) % 2 ^ p = s - 2 ^ p := by
        rw [Nat.mul_comm, Nat.mul_add_mod, Nat.mod_eq_of_lt (by omega)]
      rw [units, significand, hdiv, hmod, if_neg (by omega)]
      congr 1
      omega

/-- **Such a value is rounded to itself.** -/
theorem units_round {p s : ℕ} (hs : s < 2 ^ (p + 1)) (j : ℕ) :
    units p (round p 0 (s * 2 ^ j)) = s * 2 ^ j := by
  obtain ⟨b, hb⟩ := exists_units hs j
  have hround := round_units p 0 b
  rw [Nat.pow_zero, Nat.mul_one, hb] at hround
  rw [hround, hb]

/-! ### Representable values -/

/-- The value is that of a magnitude: its significant bits fit a significand. -/
def Representable (p n : ℕ) : Prop := ∃ s j, s < 2 ^ (p + 1) ∧ n = s * 2 ^ j

theorem representable_units (p b : ℕ) : Representable p (units p b) :=
  ⟨_, _, significand_lt p b, rfl⟩

theorem Representable.round {p n : ℕ} (h : Representable p n) : units p (round p 0 n) = n := by
  obtain ⟨s, j, hs, rfl⟩ := h
  exact units_round hs j

/-- The bits above some place, and those below, are significant bits of the value. -/
theorem Representable.split {p n : ℕ} (h : Representable p n) (k : ℕ) :
    Representable p (n / 2 ^ k * 2 ^ k) ∧ Representable p (n % 2 ^ k) := by
  obtain ⟨s, j, hs, rfl⟩ := h
  have hpos : 0 < 2 ^ j := Nat.two_pow_pos j
  rcases Nat.le_total k j with hle | hle
  · -- all bits are above
    have hdvd : 2 ^ k ∣ s * 2 ^ j := (Nat.pow_dvd_pow 2 hle).mul_left s
    refine ⟨⟨s, j, hs, Nat.div_mul_cancel hdvd⟩, 0, 0, Nat.two_pow_pos _, ?_⟩
    rw [Nat.mod_eq_zero_of_dvd hdvd, Nat.zero_mul]
  · have hpow : 2 ^ k = 2 ^ (k - j) * 2 ^ j := by rw [← Nat.pow_add, Nat.sub_add_cancel hle]
    have hdiv : s * 2 ^ j / 2 ^ k = s / 2 ^ (k - j) := by
      rw [hpow, Nat.mul_div_mul_right _ _ hpos]
    have hmod : s * 2 ^ j % 2 ^ k = s % 2 ^ (k - j) * 2 ^ j := by
      rw [hpow, Nat.mul_mod_mul_right]
    exact ⟨⟨_, k, (Nat.div_le_self _ _).trans_lt hs, by rw [hdiv]⟩,
      ⟨_, j, (Nat.mod_le _ _).trans_lt hs, hmod⟩⟩

theorem nearestEven_le (n d : ℕ) : nearestEven n d ≤ n / 2 ^ d + 1 := by
  unfold nearestEven
  dsimp only
  split_ifs <;> omega

/-- **A value is rounded to at most twice the value.** -/
theorem units_round_le (p n : ℕ) : units p (round p 0 n) ≤ 2 * n := by
  by_cases hsmall : n < 2 ^ (p + 1)
  · have hround := units_round hsmall 0
    rw [Nat.pow_zero, Nat.mul_one] at hround
    omega
  · -- the significand is a quotient by a power of two, rounded up at most
    have hn : n ≠ 0 := by
      have := Nat.two_pow_pos (p + 1)
      omega
    have hbits := (Nat.log2_eq_iff hn).1 rfl
    have hlog : p + 1 ≤ n.log2 := (Nat.le_log2 hn).2 (Nat.le_of_not_lt hsmall)
    obtain ⟨d, hd⟩ : ∃ d, n.log2 = p + d := ⟨n.log2 - p, by omega⟩
    have hround : round p 0 n = d * 2 ^ p + nearestEven n d := by
      have hmax : max 0 (n.log2 - p) = d := by omega
      simp only [round, hmax, Nat.sub_zero]
    have hpow : 2 ^ d ≤ n := (Nat.pow_le_pow_right (by decide) (by omega)).trans hbits.1
    have hlow : 2 ^ p ≤ n / 2 ^ d :=
      (Nat.le_div_iff_mul_le (Nat.two_pow_pos d)).2 (by rw [← Nat.pow_add, ← hd]; exact hbits.1)
    have hhigh : n / 2 ^ d < 2 * 2 ^ p := by
      refine Nat.div_lt_of_lt_mul ?_
      have h := hbits.2
      rw [hd, Nat.add_right_comm, Nat.pow_add, Nat.pow_succ] at h
      rw [Nat.mul_comm]
      calc n < 2 ^ p * 2 * 2 ^ d := h
        _ = 2 * 2 ^ p * 2 ^ d := by rw [Nat.mul_comm (2 ^ p) 2]
    have hle := nearestEven_le n d
    have hge : n / 2 ^ d ≤ nearestEven n d := by
      unfold nearestEven
      dsimp only
      split_ifs <;> omega
    have hvalue : units p (round p 0 n) = nearestEven n d * 2 ^ d := by
      rw [hround]
      generalize nearestEven n d = m at hle hge ⊢
      have hrange : 2 ^ p ≤ m ∧ m ≤ 2 * 2 ^ p := by omega
      have hp := Nat.two_pow_pos p
      rcases Nat.lt_or_ge m (2 * 2 ^ p) with hlt | hge'
      · have hdiv : (d * 2 ^ p + m) / 2 ^ p = d + 1 := by
          rw [Nat.mul_comm, Nat.mul_add_div hp]
          have hone : m / 2 ^ p = 1 := by
            refine (Nat.div_eq_iff hp).2 ?_
            omega
          rw [hone]
        have hmod : (d * 2 ^ p + m) % 2 ^ p = m - 2 ^ p := by
          rw [Nat.mul_comm, Nat.mul_add_mod, Nat.mod_eq_sub_mod hrange.1, Nat.mod_eq_of_lt (by omega)]
        rw [units, significand, hdiv, hmod, if_neg (by omega), Nat.add_sub_cancel]
        congr 1
        omega
      · obtain rfl : m = 2 * 2 ^ p := by omega
        have hsum : d * 2 ^ p + 2 * 2 ^ p = (d + 2) * 2 ^ p := by ring
        have hdiv : (d + 2) * 2 ^ p / 2 ^ p = d + 2 := Nat.mul_div_cancel _ hp
        rw [hsum, units, significand, hdiv, if_neg (by omega), Nat.mul_mod_left, Nat.add_zero]
        have hexp : d + 2 - 1 = d + 1 := by omega
        rw [hexp, Nat.pow_succ]
        ring
    rw [hvalue]
    calc nearestEven n d * 2 ^ d ≤ (n / 2 ^ d + 1) * 2 ^ d := Nat.mul_le_mul_right _ hle
      _ = n / 2 ^ d * 2 ^ d + 2 ^ d := Nat.succ_mul _ _
      _ ≤ n + n := Nat.add_le_add (Nat.div_mul_le_self n _) hpow
      _ = 2 * n := (Nat.two_mul n).symm

/-! ### Formats -/

/-- The numbers of bits of a format. -/
structure Format where
  exponent : ℕ
  fraction : ℕ
  exponent_two : 2 ≤ exponent
  fraction_pos : 0 < fraction

namespace Format

/-- Half precision. -/
def f16 : Format := ⟨5, 10, by decide, by decide⟩

/-- Single precision. -/
def f32 : Format := ⟨8, 23, by decide, by decide⟩

/-- Double precision. -/
def f64 : Format := ⟨11, 52, by decide, by decide⟩

variable (f : Format)

/-- A unit is two to the power of minus this. -/
def scale : ℕ := 2 ^ (f.exponent - 1) - 1 + f.fraction - 1

/-- The magnitude of infinity; those above it are no numbers. -/
def infinity : ℕ := (2 ^ f.exponent - 1) * 2 ^ f.fraction

/-- **Every value of the one format is a value of the other.** -/
structure Widens (f g : Format) : Prop where
  fraction : f.fraction ≤ g.fraction
  scale : f.scale ≤ g.scale
  range : f.fraction + 2 ^ f.exponent + (g.scale - f.scale) ≤ g.fraction + 2 ^ g.exponent

theorem widens_f32 : Widens f32 f64 := ⟨by decide, by decide, by decide⟩

theorem infinity_lt : f.infinity + 2 ^ (f.fraction - 1) < 2 ^ (f.exponent + f.fraction) := by
  have hfraction : 2 ^ (f.fraction - 1) < 2 ^ f.fraction :=
    Nat.pow_lt_pow_right (by decide) (by have := f.fraction_pos; omega)
  have hpos : 0 < 2 ^ f.exponent := Nat.two_pow_pos _
  rw [infinity, Nat.sub_mul, Nat.one_mul, Nat.pow_add]
  have hle : 2 ^ f.fraction ≤ 2 ^ f.exponent * 2 ^ f.fraction := Nat.le_mul_of_pos_left _ hpos
  omega

end Format

/-- A floating-point number of a format, by its bits. -/
structure Floating (f : Format) where
  negative : Bool
  magnitude : ℕ
  bounded : magnitude < 2 ^ (f.exponent + f.fraction)
deriving DecidableEq

namespace Floating

variable {f g : Format}

/-- It is a number, and not an infinite one. -/
def IsFinite (x : Floating f) : Prop := x.magnitude < f.infinity

instance (x : Floating f) : Decidable x.IsFinite := inferInstanceAs (Decidable (_ < _))

/-- The comparison of values: zeros are equal, and what is no number equals nothing. -/
def Equals (x y : Floating f) : Prop :=
  x.magnitude ≤ f.infinity ∧ x.magnitude = y.magnitude ∧
    (x.negative = y.negative ∨ x.magnitude = 0)

instance (x y : Floating f) : Decidable (x.Equals y) := inferInstanceAs (Decidable (_ ∧ _ ∧ _))

/-- The magnitude in another format. -/
def converted (f g : Format) (magnitude : ℕ) : ℕ :=
  if f.infinity < magnitude then g.infinity + 2 ^ (g.fraction - 1)
  else if magnitude = f.infinity then g.infinity
  else min g.infinity
    (round g.fraction (f.scale - g.scale) (units f.fraction magnitude * 2 ^ (g.scale - f.scale)))

theorem converted_lt (f g : Format) (magnitude : ℕ) :
    converted f g magnitude < 2 ^ (g.exponent + g.fraction) := by
  have hinfinity := g.infinity_lt
  unfold converted
  split_ifs
  · exact hinfinity
  · exact (Nat.le_add_right _ _).trans_lt hinfinity
  · exact (min_le_left _ _).trans_lt ((Nat.le_add_right _ _).trans_lt hinfinity)

/-- The conversion to another format: a value that it does not have is rounded to the nearest one,
half to even. -/
def convert (g : Format) (x : Floating f) : Floating g :=
  ⟨x.negative, converted f g x.magnitude, converted_lt f g x.magnitude⟩

/-- The bits as a number. -/
def bits (x : Floating f) : ℕ :=
  (if x.negative then 2 ^ (f.exponent + f.fraction) else 0) + x.magnitude

/-- The number with these bits. -/
def ofBits (f : Format) (n : ℕ) : Floating f :=
  ⟨2 ^ (f.exponent + f.fraction) ≤ n, n % 2 ^ (f.exponent + f.fraction),
    Nat.mod_lt n (Nat.two_pow_pos _)⟩

theorem ofBits_bits (x : Floating f) : ofBits f x.bits = x := by
  obtain ⟨negative, magnitude, hbounded⟩ := x
  cases negative with
  | false => simp [ofBits, bits, Nat.not_le.2 hbounded, Nat.mod_eq_of_lt hbounded]
  | true => simp [ofBits, bits, Nat.mod_eq_of_lt hbounded]

theorem bits_lt (x : Floating f) : x.bits < 2 ^ (f.exponent + f.fraction + 1) := by
  have hbounded := x.bounded
  rw [bits, Nat.pow_succ]
  split_ifs <;> omega

theorem exponent_le {magnitude : ℕ} (hfinite : magnitude < f.infinity) :
    magnitude / 2 ^ f.fraction + 2 ≤ 2 ^ f.exponent := by
  have hlt : magnitude / 2 ^ f.fraction < 2 ^ f.exponent - 1 :=
    Nat.div_lt_of_lt_mul (by rw [Nat.mul_comm]; exact hfinite)
  generalize magnitude / 2 ^ f.fraction = q at hlt ⊢
  omega

theorem four_le (f : Format) : 4 ≤ 2 ^ f.exponent := by
  have hpow : 2 ^ 2 ≤ 2 ^ f.exponent := Nat.pow_le_pow_right (by decide) f.exponent_two
  exact hpow

theorem units_lt {magnitude : ℕ} (hfinite : magnitude < f.infinity) :
    units f.fraction magnitude < 2 ^ (f.fraction + 2 ^ f.exponent - 2) := by
  have hexponent := exponent_le hfinite
  have hfour := four_le f
  have hpow : 2 ^ (f.fraction + 1) * 2 ^ (magnitude / 2 ^ f.fraction - 1) ≤
      2 ^ (f.fraction + 2 ^ f.exponent - 2) := by
    rw [← Nat.pow_add]
    refine Nat.pow_le_pow_right (by decide) ?_
    generalize magnitude / 2 ^ f.fraction = q at hexponent ⊢
    omega
  exact (Nat.mul_lt_mul_of_pos_right (significand_lt _ _) (Nat.two_pow_pos _)).trans_le hpow

theorem le_units {magnitude : ℕ} (hinfinite : f.infinity ≤ magnitude) :
    2 ^ (f.fraction + 2 ^ f.exponent - 2) ≤ units f.fraction magnitude := by
  have hfour := four_le f
  have hexponent : 2 ^ f.exponent - 1 ≤ magnitude / 2 ^ f.fraction :=
    (Nat.le_div_iff_mul_le (Nat.two_pow_pos _)).2 hinfinite
  have hsignificand : 2 ^ f.fraction ≤ significand f.fraction magnitude := by
    rw [significand, if_neg]
    · exact Nat.le_add_right _ _
    · generalize magnitude / 2 ^ f.fraction = q at hexponent ⊢
      omega
  have hpow : f.fraction + 2 ^ f.exponent - 2 = f.fraction + (2 ^ f.exponent - 2) := by omega
  rw [hpow, Nat.pow_add, units]
  refine Nat.mul_le_mul hsignificand (Nat.pow_le_pow_right (by decide) ?_)
  generalize magnitude / 2 ^ f.fraction = q at hexponent ⊢
  omega

/-- A value of a narrower format, in the units of a wider one. -/
theorem units_converted (h : Format.Widens f g) {magnitude : ℕ} (hfinite : magnitude < f.infinity) :
    converted f g magnitude < g.infinity ∧ units g.fraction (converted f g magnitude) =
      units f.fraction magnitude * 2 ^ (g.scale - f.scale) := by
  have hsignificand : significand f.fraction magnitude < 2 ^ (g.fraction + 1) :=
    (significand_lt _ _).trans_le (Nat.pow_le_pow_right (by decide) (Nat.succ_le_succ h.fraction))
  have hexact := units_round hsignificand
    (magnitude / 2 ^ f.fraction - 1 + (g.scale - f.scale))
  rw [Nat.pow_add, ← Nat.mul_assoc] at hexact
  change units g.fraction
    (round g.fraction 0 (units f.fraction magnitude * 2 ^ (g.scale - f.scale)))
    = units f.fraction magnitude * 2 ^ (g.scale - f.scale) at hexact
  rw [converted, if_neg (by omega), if_neg (by omega), Nat.sub_eq_zero_of_le h.scale]
  -- a magnitude from infinity on has a value that is too great
  have hlt : round g.fraction 0 (units f.fraction magnitude * 2 ^ (g.scale - f.scale)) <
      g.infinity := by
    refine Nat.lt_of_not_le fun hle => absurd (hexact ▸ le_units hle) (Nat.not_le.2 ?_)
    have hfour := four_le f
    have hrange := h.range
    calc units f.fraction magnitude * 2 ^ (g.scale - f.scale)
        < 2 ^ (f.fraction + 2 ^ f.exponent - 2) * 2 ^ (g.scale - f.scale) :=
          Nat.mul_lt_mul_of_pos_right (units_lt hfinite) (Nat.two_pow_pos _)
      _ = 2 ^ (f.fraction + 2 ^ f.exponent - 2 + (g.scale - f.scale)) := (Nat.pow_add _ _ _).symm
      _ ≤ 2 ^ (g.fraction + 2 ^ g.exponent - 2) := Nat.pow_le_pow_right (by decide) (by omega)
  rw [min_eq_right hlt.le]
  exact ⟨hlt, hexact⟩

theorem not_isFinite_convert (g : Format) {x : Floating f} (hinfinite : ¬ x.IsFinite) :
    ¬ (x.convert g).IsFinite := by
  have hle : f.infinity ≤ x.magnitude := Nat.le_of_not_lt hinfinite
  change ¬ converted f g x.magnitude < g.infinity
  unfold converted
  split_ifs
  · exact Nat.not_lt.2 (Nat.le_add_right _ _)
  · exact Nat.lt_irrefl _
  · omega

/-- **What is converted to a wider format is converted back.** -/
theorem convert_convert (h : Format.Widens f g) {x : Floating f} (hfinite : x.IsFinite) :
    (x.convert g).convert f = x ∧ (x.convert g).IsFinite := by
  obtain ⟨hlt, hunits⟩ := units_converted h hfinite
  refine ⟨?_, hlt⟩
  obtain ⟨negative, magnitude, hbounded⟩ := x
  have hmagnitude : magnitude < f.infinity := hfinite
  simp only [convert, mk.injEq, true_and]
  change converted g f (converted f g magnitude) = magnitude
  have hunits' : units g.fraction (converted f g magnitude) =
      units f.fraction magnitude * 2 ^ (g.scale - f.scale) := hunits
  have hlt' : converted f g magnitude < g.infinity := hlt
  rw [converted, if_neg (by omega), if_neg (by omega), hunits', Nat.sub_eq_zero_of_le h.scale,
    Nat.pow_zero, Nat.mul_one, round_units, min_eq_right hmagnitude.le]

end Floating

end Lvu.Binary
