import Mathlib.Order.Nat
import Mathlib.Algebra.Order.Group.Int

/-!
# Decimal numbers

Integers as they are printed and read in decimal: a sign that is printed for negative numbers only
and may be read for all, and digits.  Reading is bounded, as it is into a machine integer.

* `readInt_decimal` : what is printed reads back.
-/

namespace Lvu

/-- The number that some digits denote. -/
def readNat (cs : List Char) : Option ℕ :=
  if cs ≠ [] ∧ cs.all Char.isDigit then some (Nat.ofDigitChars 10 cs 0) else none

/-- The integer that a text denotes. -/
def readSigned : List Char → Option ℤ
  | '-' :: cs => (readNat cs).map fun n : ℕ => -(n : ℤ)
  | '+' :: cs => (readNat cs).map fun n : ℕ => (n : ℤ)
  | cs => (readNat cs).map fun n : ℕ => (n : ℤ)

/-- The integer between two bounds that a text denotes. -/
def readInt (low high : ℤ) (cs : List Char) : Option ℤ :=
  (readSigned cs).filter fun n => low ≤ n ∧ n ≤ high

/-- An integer as it is printed. -/
def decimal (n : ℤ) : List Char :=
  if n < 0 then '-' :: Nat.toDigits 10 n.natAbs else Nat.toDigits 10 n.natAbs

theorem readNat_toDigits (n : ℕ) : readNat (Nat.toDigits 10 n) = some n := by
  have hdigits : ∀ c ∈ Nat.toDigits 10 n, c.isDigit := fun c hc =>
    Nat.isDigit_of_mem_toDigits (by decide) (by decide) hc
  rw [readNat, if_pos ⟨Nat.toDigits_ne_nil, List.all_eq_true.2 hdigits⟩,
    Nat.ofDigitChars_ten_toDigits]

theorem toDigits_cases (n : ℕ) : ∃ c cs, Nat.toDigits 10 n = c :: cs ∧ c ≠ '-' ∧ c ≠ '+' := by
  obtain ⟨c, cs, h⟩ := List.exists_cons_of_ne_nil (Nat.toDigits_ne_nil (b := 10) (n := n))
  have hdigit : c.isDigit := Nat.isDigit_of_mem_toDigits (by decide) (by decide) (h ▸ List.mem_cons_self)
  refine ⟨c, cs, h, ?_, ?_⟩ <;> rintro rfl <;> exact absurd hdigit (by decide)

theorem readSigned_digits {c : Char} {cs : List Char} (hminus : c ≠ '-') (hplus : c ≠ '+') :
    readSigned (c :: cs) = (readNat (c :: cs)).map fun n : ℕ => (n : ℤ) := by
  unfold readSigned
  split
  · rename_i heq
    exact absurd (List.cons.inj heq).1 hminus
  · rename_i heq
    exact absurd (List.cons.inj heq).1 hplus
  · rfl

theorem readSigned_decimal (n : ℤ) : readSigned (decimal n) = some n := by
  unfold decimal
  split_ifs with hneg
  · have hneg : -(n.natAbs : ℤ) = n := by omega
    rw [readSigned, readNat_toDigits, Option.map_some, hneg]
  · obtain ⟨c, cs, hcs, hminus, hplus⟩ := toDigits_cases n.natAbs
    have hpos : (n.natAbs : ℤ) = n := by omega
    rw [hcs, readSigned_digits hminus hplus, ← hcs, readNat_toDigits, Option.map_some, hpos]

/-- **What is printed reads back.** -/
theorem readInt_decimal {low high n : ℤ} (hlow : low ≤ n) (hhigh : n ≤ high) :
    readInt low high (decimal n) = some n := by
  rw [readInt, readSigned_decimal, Option.filter_some]
  simp [hlow, hhigh]

theorem mem_decimal {n : ℤ} {c : Char} (h : c ∈ decimal n) : c.isDigit ∨ c = '-' := by
  unfold decimal at h
  split_ifs at h
  · rcases List.mem_cons.1 h with rfl | h
    · exact .inr rfl
    · exact .inl (Nat.isDigit_of_mem_toDigits (by decide) (by decide) h)
  · exact .inl (Nat.isDigit_of_mem_toDigits (by decide) (by decide) h)

end Lvu
