import Lvu.Data.Binary
import Lvu.Data.Decimal
import Mathlib.Data.List.TakeWhile

/-!
# Floating-point numbers in decimal

A floating-point number is read from a sign, digits with a point among them and an exponent of ten,
or from the name of what is infinite or no number.  What is read is the nearest number, half to
even.

* `roundRatio` : the magnitude next to a ratio.
* `roundRatio_mono` : a greater ratio is not rounded to less.
* `parse_decimal` : an integer reads as the number next to it.
* `nearestKey_mono` : of two integers the greater does not read as less.
-/

namespace Lvu.Binary

/-! ### Ratios -/

/-- A quotient, rounded to the nearest, half to even. -/
def nearestQuotient (n d : ℕ) : ℕ :=
  let q := n / d
  let r := n % d
  if d < 2 * r ∨ 2 * r = d ∧ q % 2 = 1 then q + 1 else q

/-- The magnitude next to a ratio of units. -/
def roundRatio (p n d : ℕ) : ℕ :=
  let e := (n / d).log2 - p
  e * 2 ^ p + nearestQuotient n (d * 2 ^ e)

theorem div_le_nearestQuotient (n d : ℕ) : n / d ≤ nearestQuotient n d := by
  unfold nearestQuotient
  dsimp only
  split_ifs <;> omega

theorem nearestQuotient_le (n d : ℕ) : nearestQuotient n d ≤ n / d + 1 := by
  unfold nearestQuotient
  dsimp only
  split_ifs <;> omega

theorem nearestQuotient_mono {m n : ℕ} (h : m ≤ n) (d : ℕ) :
    nearestQuotient m d ≤ nearestQuotient n d := by
  rcases Nat.lt_or_ge (m / d) (n / d) with hlt | hge
  · exact (nearestQuotient_le m d).trans (hlt.trans_le (div_le_nearestQuotient n d))
  · -- the quotients are equal, so the rests compare as the numbers do
    have hquotient : m / d = n / d := le_antisymm (Nat.div_le_div_right h) hge
    have hm := Nat.div_add_mod m d
    have hn := Nat.div_add_mod n d
    rw [hquotient] at hm
    unfold nearestQuotient
    dsimp only
    rw [hquotient]
    split_ifs <;> omega

/-- **A greater ratio is not rounded to less.** -/
theorem roundRatio_mono {m n : ℕ} (h : m ≤ n) (p d : ℕ) :
    roundRatio p m d ≤ roundRatio p n d := by
  unfold roundRatio
  dsimp only
  have hle : m / d ≤ n / d := Nat.div_le_div_right h
  have hlog : (m / d).log2 ≤ (n / d).log2 := by
    rcases Nat.eq_zero_or_pos (m / d) with hzero | hpos
    · simp [hzero]
    · exact (Nat.le_log2 (by omega)).2 ((Nat.log2_self_le (by omega)).trans hle)
  rcases Nat.lt_or_ge ((m / d).log2 - p) ((n / d).log2 - p) with hlt | hge
  · -- the significand of the one has more bits: it is at least twice that of the other
    obtain ⟨e, he⟩ : ∃ e, (m / d).log2 - p = e := ⟨_, rfl⟩
    obtain ⟨e', he'⟩ : ∃ e', (n / d).log2 - p = e' := ⟨_, rfl⟩
    rw [he, he'] at hlt ⊢
    have hm : nearestQuotient m (d * 2 ^ e) ≤ 2 * 2 ^ p := by
      refine (nearestQuotient_le _ _).trans ?_
      rw [← Nat.div_div_eq_div_mul]
      have hlt : m / d < 2 ^ (p + 1 + e) := by
        refine Nat.lt_log2_self.trans_le (Nat.pow_le_pow_right (by decide) ?_)
        omega
      rw [Nat.pow_add, Nat.mul_comm] at hlt
      have := Nat.div_lt_of_lt_mul hlt
      rw [Nat.pow_succ] at this
      omega
    have hn : 2 ^ p ≤ nearestQuotient n (d * 2 ^ e') := by
      refine le_trans ?_ (div_le_nearestQuotient _ _)
      rw [← Nat.div_div_eq_div_mul]
      refine (Nat.le_div_iff_mul_le (Nat.two_pow_pos _)).2 ?_
      rw [← Nat.pow_add]
      have hpos : n / d ≠ 0 := by
        intro hzero
        rw [hzero] at he'
        simp at he'
        omega
      refine (Nat.pow_le_pow_right (by decide) ?_).trans (Nat.log2_self_le hpos)
      omega
    calc e * 2 ^ p + nearestQuotient m (d * 2 ^ e)
        ≤ e * 2 ^ p + 2 * 2 ^ p := Nat.add_le_add_left hm _
      _ = (e + 1) * 2 ^ p + 2 ^ p := by ring
      _ ≤ e' * 2 ^ p + nearestQuotient n (d * 2 ^ e') :=
          Nat.add_le_add (Nat.mul_le_mul_right _ hlt) hn
  · have hsame : (m / d).log2 - p = (n / d).log2 - p := by omega
    rw [hsame]
    exact Nat.add_le_add_left (nearestQuotient_mono h _) _

namespace Floating

variable {f : Format}

/-! ### The order of the numbers -/

/-- It is no number. -/
def IsNaN (x : Floating f) : Prop := f.infinity < x.magnitude

instance (x : Floating f) : Decidable x.IsNaN := inferInstanceAs (Decidable (_ < _))

/-- The magnitude with its sign: it ascends with the value. -/
def key (x : Floating f) : ℤ := if x.negative then -x.magnitude else x.magnitude

/-- One number is less than another: zeros are equal, and what is no number compares with nothing. -/
def Less (x y : Floating f) : Prop := ¬ x.IsNaN ∧ ¬ y.IsNaN ∧ x.key < y.key

instance (x y : Floating f) : Decidable (x.Less y) := inferInstanceAs (Decidable (_ ∧ _ ∧ _))

/-! ### Reading -/

/-- The number next to an integer times a power of ten. -/
def ofDecimal (f : Format) (negative : Bool) (mantissa : ℕ) (exponent : ℤ) : Floating f :=
  ⟨negative,
    min f.infinity
      (roundRatio f.fraction (mantissa * 10 ^ exponent.toNat * 2 ^ f.scale)
        (10 ^ (-exponent).toNat)),
    (min_le_left _ _).trans_lt ((Nat.le_add_right _ _).trans_lt f.infinity_lt)⟩

/-- The exponent of ten: nothing, or a letter and an integer. -/
def parseExponent : List Char → Option ℤ
  | [] => some 0
  | c :: cs => if c = 'e' ∨ c = 'E' then readSigned cs else none

/-- Digits with a point among them: their integer, and the exponent of ten. -/
def parseNumber (cs : List Char) : Option (ℕ × ℤ) :=
  let whole := cs.takeWhile Char.isDigit
  let rest := cs.dropWhile Char.isDigit
  let fraction := if rest.head? = some '.' then rest.tail.takeWhile Char.isDigit else []
  let rest := if rest.head? = some '.' then rest.tail.dropWhile Char.isDigit else rest
  if whole = [] ∧ fraction = [] then none
  else (parseExponent rest).map fun exponent =>
    (Nat.ofDigitChars 10 (whole ++ fraction) 0, exponent - fraction.length)

/-- A text without its sign. -/
def parseUnsigned (f : Format) (negative : Bool) (cs : List Char) : Option (Floating f) :=
  match parseNumber cs with
  | some (mantissa, exponent) => some (ofDecimal f negative mantissa exponent)
  | none =>
    let name := String.ofList (cs.map Char.toLower)
    if name = "nan" then some ⟨negative, f.infinity + 2 ^ (f.fraction - 1), f.infinity_lt⟩
    else if name = "inf" ∨ name = "infinity" then
      some ⟨negative, f.infinity, (Nat.le_add_right _ _).trans_lt f.infinity_lt⟩
    else none

/-- The number that a text denotes. -/
def parse (f : Format) : List Char → Option (Floating f)
  | '-' :: cs => parseUnsigned f true cs
  | '+' :: cs => parseUnsigned f false cs
  | cs => parseUnsigned f false cs

example : parse .f64 "1.5e1".toList = parse .f64 "15".toList := by decide +kernel

theorem parse_digits (f : Format) {c : Char} {cs : List Char} (hminus : c ≠ '-') (hplus : c ≠ '+') :
    parse f (c :: cs) = parseUnsigned f false (c :: cs) := by
  unfold parse
  split
  · rename_i heq
    exact absurd (List.cons.inj heq).1 hminus
  · rename_i heq
    exact absurd (List.cons.inj heq).1 hplus
  · rfl

theorem parseNumber_toDigits (n : ℕ) : parseNumber (Nat.toDigits 10 n) = some (n, 0) := by
  have hdigits : ∀ c ∈ Nat.toDigits 10 n, c.isDigit := fun c hc =>
    Nat.isDigit_of_mem_toDigits (by decide) (by decide) hc
  have htake : (Nat.toDigits 10 n).takeWhile Char.isDigit = Nat.toDigits 10 n :=
    List.takeWhile_eq_self_iff.2 hdigits
  have hdrop : (Nat.toDigits 10 n).dropWhile Char.isDigit = [] :=
    List.dropWhile_eq_nil_iff.2 hdigits
  simp [parseNumber, htake, hdrop, parseExponent, Nat.toDigits_ne_nil]

/-- **An integer reads as the number next to it.** -/
theorem parse_decimal (f : Format) (n : ℤ) :
    parse f (decimal n) = some (ofDecimal f (decide (n < 0)) n.natAbs 0) := by
  unfold decimal
  by_cases hneg : n < 0
  · rw [if_pos hneg]
    simp only [parse, parseUnsigned, parseNumber_toDigits, hneg, decide_true]
  · obtain ⟨c, cs, hcs, hminus, hplus⟩ := toDigits_cases n.natAbs
    rw [if_neg hneg, hcs, parse_digits f hminus hplus, ← hcs]
    simp only [parseUnsigned, parseNumber_toDigits, hneg, decide_false]

theorem not_isNaN_ofDecimal (f : Format) (negative : Bool) (mantissa : ℕ) (exponent : ℤ) :
    ¬ (ofDecimal f negative mantissa exponent).IsNaN :=
  Nat.not_lt.2 (min_le_left _ _)

/-- What an integer reads as. -/
def nearestKey (f : Format) (n : ℤ) : ℤ := (ofDecimal f (decide (n < 0)) n.natAbs 0).key

/-- **Of two integers the greater does not read as less.** -/
theorem nearestKey_mono (f : Format) {m n : ℤ} (h : m ≤ n) : nearestKey f m ≤ nearestKey f n := by
  have hmono : ∀ {a b : ℕ}, a ≤ b → (ofDecimal f false a 0).magnitude ≤
      (ofDecimal f false b 0).magnitude := fun hab =>
    min_le_min_left _ (roundRatio_mono (Nat.mul_le_mul_right _ (Nat.mul_le_mul_right _ hab)) _ _)
  have hsign : ∀ k : ℤ, nearestKey f k = if k < 0 then -((ofDecimal f false k.natAbs 0).magnitude : ℤ)
      else (ofDecimal f false k.natAbs 0).magnitude := by
    intro k
    by_cases hk : k < 0 <;> simp [nearestKey, key, ofDecimal, hk]
  rw [hsign, hsign]
  split_ifs with hm hn hn
  · have := hmono (a := n.natAbs) (b := m.natAbs) (by omega)
    omega
  · omega
  · omega
  · have := hmono (a := m.natAbs) (b := n.natAbs) (by omega)
    omega

end Floating

end Lvu.Binary
