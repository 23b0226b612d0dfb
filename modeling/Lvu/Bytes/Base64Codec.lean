import Lvu.Bytes.Base64
import Mathlib.Tactic.IntervalCases

/-!
# The base64 codec

The window encodes the chunks of a pipe, and the worker measures a text before it decodes it
(`lvu-shared/src/protocol.rs`).  Encoder, measure and decoder are three loops of their own.

* `base64Encode` : the encoder, piece by piece.
* `Padded` : symbols and then padding bytes, which is what the measure accepts.
* `base64Quanta_iff` : the decoder asks this of every quantum alone.
* `base64_agrees` : they agree, except on a text with padding inside.
-/

namespace Lvu

open List

namespace Shared

/-! ### The encoder -/

/-- `u32::from_be_bytes`, of a block that begins with a zero. -/
def base64Triple (a b c : UInt8) : UInt32 :=
  a.toUInt32 <<< 16 ||| b.toUInt32 <<< 8 ||| c.toUInt32

/-- A symbol of a block. -/
def base64Symbol (triple shift : UInt32) : UInt8 :=
  base64Alphabet.getD ((triple >>> shift) &&& 63).toNat 0

/-- What `base64_encode` writes of one piece: four symbols, of which the last give way to
padding. -/
def base64Piece (piece : List UInt8) : List UInt8 :=
  let triple := base64Triple (piece.getD 0 0) (piece.getD 1 0) (piece.getD 2 0)
  let symbols := [18, 12, 6, 0].map (base64Symbol triple)
  symbols.take (symbols.length - (3 - piece.length)) ++
    List.replicate (3 - piece.length) base64Padding

def base64Encode : List UInt8 → List UInt8
  | a :: b :: c :: raw => base64Piece [a, b, c] ++ base64Encode raw
  | [] => []
  | piece => base64Piece piece

variable {value : UInt32} {n padding : ℕ} {piece encoded : List UInt8} {seen : Prop}
  {quanta : List (List UInt8)}

theorem toNat_push {triple : UInt32} (htriple : triple.toNat < 2 ^ 26) (hvalue : value.toNat < 64) :
    (triple <<< 6 ||| value).toNat = triple.toNat * 64 + value.toNat := by
  have hshift : (triple <<< 6).toNat = triple.toNat * 64 := by
    rw [UInt32.toNat_shiftLeft, Nat.shiftLeft_eq]
    exact Nat.mod_eq_of_lt (by change triple.toNat * 64 < 2 ^ 32; omega)
  have hlow : value.toNat < 2 ^ 6 := hvalue
  have hor := Nat.shiftLeft_add_eq_or_of_lt hlow triple.toNat
  simp only [Nat.shiftLeft_eq, Nat.reducePow] at hor
  rw [UInt32.toNat_or, hshift, hor]

theorem toNat_base64Triple (a b c : UInt8) :
    (base64Triple a b c).toNat = a.toNat * 65536 + b.toNat * 256 + c.toNat := by
  have ha : a.toNat < 256 := a.toNat_lt
  have hb : b.toNat < 256 := b.toNat_lt
  have hc : c.toNat < 256 := c.toNat_lt
  have hfirst : (a.toUInt32 <<< 16).toNat = a.toNat * 65536 := by
    rw [UInt32.toNat_shiftLeft, UInt8.toNat_toUInt32, Nat.shiftLeft_eq]
    exact Nat.mod_eq_of_lt (by change a.toNat * 65536 < 2 ^ 32; omega)
  have hsecond : (b.toUInt32 <<< 8).toNat = b.toNat * 256 := by
    rw [UInt32.toNat_shiftLeft, UInt8.toNat_toUInt32, Nat.shiftLeft_eq]
    exact Nat.mod_eq_of_lt (by change b.toNat * 256 < 2 ^ 32; omega)
  rw [base64Triple, UInt32.toNat_or, UInt32.toNat_or, hfirst, hsecond, UInt8.toNat_toUInt32]
  have hhigh : a.toNat * 65536 ||| b.toNat * 256 = (a.toNat * 256 + b.toNat) * 256 := by
    have hlow : b.toNat * 256 < 2 ^ 16 := by omega
    have hor := Nat.shiftLeft_add_eq_or_of_lt hlow a.toNat
    simp only [Nat.shiftLeft_eq, Nat.reducePow] at hor
    omega
  have hlow : c.toNat < 2 ^ 8 := hc
  have hor := Nat.shiftLeft_add_eq_or_of_lt hlow (a.toNat * 256 + b.toNat)
  simp only [Nat.shiftLeft_eq, Nat.reducePow] at hor
  rw [hhigh, ← hor]
  omega

theorem idxOf_base64Alphabet : ∀ k < 64,
    base64Alphabet.idxOf? (base64Alphabet.getD k 0) = some k := by decide

theorem base64Alphabet_getD : ∀ k < 64, base64Alphabet.getD k 0 ∈ base64Alphabet := by decide

theorem padding_notMem : base64Padding ∉ base64Alphabet := by decide

theorem toNat_symbol (triple shift : UInt32) (hshift : shift.toNat < 32) :
    ((triple >>> shift) &&& 63).toNat = triple.toNat / 2 ^ shift.toNat % 64 := by
  rw [UInt32.toNat_and, UInt32.toNat_shiftRight, Nat.mod_eq_of_lt hshift, Nat.shiftRight_eq_div_pow]
  exact Nat.and_two_pow_sub_one_eq_mod _ 6

/-- A symbol of the encoder adds its six bits. -/
theorem base64Quantum_symbol (triple shift : UInt32) (k : ℕ) (hshift : shift.toNat = k)
    (hk : k < 32) (hvalue : value.toNat = n) (hn : n < 2 ^ 26) (quantum : List UInt8) :
    ∃ value' : UInt32, value'.toNat = n * 64 + triple.toNat / 2 ^ k % 64 ∧
      base64Quantum (base64Symbol triple shift :: quantum) value 0 =
        base64Quantum quantum value' 0 := by
  have hlt : triple.toNat / 2 ^ k % 64 < 64 := Nat.mod_lt _ (by decide)
  have hsmall : (triple.toNat / 2 ^ k % 64).toUInt32.toNat = triple.toNat / 2 ^ k % 64 :=
    Nat.mod_eq_of_lt (hlt.trans (by decide))
  refine ⟨value <<< 6 ||| (triple.toNat / 2 ^ k % 64).toUInt32, ?_, ?_⟩
  · rw [toNat_push (hvalue ▸ hn) (hsmall.symm ▸ hlt), hsmall, hvalue]
  · have hne : base64Alphabet.getD (triple.toNat / 2 ^ k % 64) 0 ≠ base64Padding :=
      fun heq => padding_notMem (heq ▸ base64Alphabet_getD _ hlt)
    have hsymbol : base64Symbol triple shift =
        base64Alphabet.getD (triple.toNat / 2 ^ k % 64) 0 := by
      rw [base64Symbol, toNat_symbol _ _ (hshift ▸ hk), hshift]
    rw [hsymbol, base64Quantum, if_neg hne, idxOf_base64Alphabet _ hlt]
    rfl

theorem base64Quantum_padding (hvalue : value.toNat = n) (hn : n < 2 ^ 26) (quantum : List UInt8)
    (padding : ℕ) :
    ∃ value' : UInt32, value'.toNat = n * 64 ∧
      base64Quantum (base64Padding :: quantum) value padding =
        base64Quantum quantum value' (padding + 1) := by
  refine ⟨value <<< 6, ?_, rfl⟩
  have hpush : (value <<< 6 ||| (0 : UInt32)).toNat = value.toNat * 64 + (0 : UInt32).toNat :=
    toNat_push (hvalue ▸ hn) (by decide)
  rwa [UInt32.or_zero, hvalue] at hpush

/-- The bytes of a block. -/
theorem base64Bytes_of_toNat {triple : UInt32} {a b c : UInt8} (hle : padding ≤ 2)
    (h : triple.toNat = a.toNat * 65536 + b.toNat * 256 + c.toNat) :
    base64Bytes triple padding = [a, b, c].take (3 - padding) := by
  have hb : b.toNat < 256 := b.toNat_lt
  have hc : c.toNat < 256 := c.toNat_lt
  have ha : a.toNat < 256 := a.toNat_lt
  have hfirst : (triple >>> 16).toUInt8 = a := by
    apply UInt8.toNat_inj.1
    rw [UInt32.toNat_toUInt8, UInt32.toNat_shiftRight, Nat.shiftRight_eq_div_pow, h]
    change (a.toNat * 65536 + b.toNat * 256 + c.toNat) / 65536 % 256 = a.toNat
    omega
  have hsecond : (triple >>> 8).toUInt8 = b := by
    apply UInt8.toNat_inj.1
    rw [UInt32.toNat_toUInt8, UInt32.toNat_shiftRight, Nat.shiftRight_eq_div_pow, h]
    change (a.toNat * 65536 + b.toNat * 256 + c.toNat) / 256 % 256 = b.toNat
    omega
  have hthird : triple.toUInt8 = c := by
    apply UInt8.toNat_inj.1
    rw [UInt32.toNat_toUInt8, h]
    omega
  rw [base64Bytes, hfirst, hsecond, hthird]
  interval_cases padding <;> rfl

/-- **A piece is read back.** -/
theorem base64Quantum_piece (hpos : piece ≠ []) (hle : piece.length ≤ 3) :
    ∃ triple, base64Quantum (base64Piece piece) 0 0 = some (triple, 3 - piece.length) ∧
      base64Bytes triple (3 - piece.length) = piece := by
  have hlt (byte : UInt8) : byte.toNat < 256 := byte.toNat_lt
  rcases piece with _ | ⟨a, _ | ⟨b, _ | ⟨c, _ | ⟨d, piece⟩⟩⟩⟩
  · exact absurd rfl hpos
  · -- two symbols and two padding bytes
    have htriple := toNat_base64Triple a 0 0
    have ha := hlt a
    have hzero : (0 : UInt8).toNat = 0 := rfl
    obtain ⟨v1, hv1, h1⟩ := base64Quantum_symbol (base64Triple a 0 0) 18 18 rfl (by decide)
      UInt32.toNat_zero (by decide) [base64Symbol (base64Triple a 0 0) 12, 61, 61]
    obtain ⟨v2, hv2, h2⟩ := base64Quantum_symbol (base64Triple a 0 0) 12 12 rfl (by decide)
      hv1 (by omega) [61, 61]
    obtain ⟨v3, hv3, h3⟩ := base64Quantum_padding hv2 (by omega) [61] 0
    obtain ⟨v4, hv4, h4⟩ := base64Quantum_padding hv3 (by omega) [] 1
    refine ⟨v4, h1.trans (h2.trans (h3.trans h4)), ?_⟩
    refine base64Bytes_of_toNat (b := 0) (c := 0) (Nat.le_refl 2) ?_
    rw [hv4, htriple, hzero]
    omega
  · -- three symbols and a padding byte
    have htriple := toNat_base64Triple a b 0
    have ha := hlt a
    have hb := hlt b
    have hzero : (0 : UInt8).toNat = 0 := rfl
    obtain ⟨v1, hv1, h1⟩ := base64Quantum_symbol (base64Triple a b 0) 18 18 rfl (by decide)
      UInt32.toNat_zero (by decide)
      [base64Symbol (base64Triple a b 0) 12, base64Symbol (base64Triple a b 0) 6, 61]
    obtain ⟨v2, hv2, h2⟩ := base64Quantum_symbol (base64Triple a b 0) 12 12 rfl (by decide)
      hv1 (by omega) [base64Symbol (base64Triple a b 0) 6, 61]
    obtain ⟨v3, hv3, h3⟩ := base64Quantum_symbol (base64Triple a b 0) 6 6 rfl (by decide)
      hv2 (by omega) [61]
    obtain ⟨v4, hv4, h4⟩ := base64Quantum_padding hv3 (by omega) [] 0
    refine ⟨v4, h1.trans (h2.trans (h3.trans h4)), ?_⟩
    exact base64Bytes_of_toNat (c := 0) (Nat.le_succ 1) (by omega)
  · -- four symbols
    have htriple := toNat_base64Triple a b c
    have ha := hlt a
    have hb := hlt b
    have hc := hlt c
    obtain ⟨v1, hv1, h1⟩ := base64Quantum_symbol (base64Triple a b c) 18 18 rfl (by decide)
      UInt32.toNat_zero (by decide) [base64Symbol (base64Triple a b c) 12,
        base64Symbol (base64Triple a b c) 6, base64Symbol (base64Triple a b c) 0]
    obtain ⟨v2, hv2, h2⟩ := base64Quantum_symbol (base64Triple a b c) 12 12 rfl (by decide)
      hv1 (by omega) [base64Symbol (base64Triple a b c) 6, base64Symbol (base64Triple a b c) 0]
    obtain ⟨v3, hv3, h3⟩ := base64Quantum_symbol (base64Triple a b c) 6 6 rfl (by decide)
      hv2 (by omega) [base64Symbol (base64Triple a b c) 0]
    obtain ⟨v4, hv4, h4⟩ := base64Quantum_symbol (base64Triple a b c) 0 0 rfl (by decide)
      hv3 (by omega) []
    refine ⟨v4, h1.trans (h2.trans (h3.trans h4)), ?_⟩
    exact base64Bytes_of_toNat (Nat.zero_le 2) (by omega)
  · simp only [length_cons] at hle
    omega

/-! ### The spelling -/

/-- Symbols, and then padding bytes. -/
def Padded (encoded : List UInt8) (padding : ℕ) : Prop :=
  ∃ symbols, encoded = symbols ++ List.replicate padding base64Padding ∧
    ∀ byte ∈ symbols, byte ∈ base64Alphabet

/-- What may follow: after a padding byte only more of them. -/
def Follows (seen : Prop) (encoded : List UInt8) (padding : ℕ) : Prop :=
  Padded encoded padding ∧ (seen → encoded = List.replicate padding base64Padding)

theorem follows_nil : Follows seen [] padding ↔ padding = 0 := by
  constructor
  · rintro ⟨⟨symbols, heq, -⟩, -⟩
    have hlength := congrArg List.length heq
    simp only [length_nil, length_append, length_replicate] at hlength
    omega
  · rintro rfl
    exact ⟨⟨[], rfl, by simp⟩, fun _ => rfl⟩

theorem follows_padding :
    Follows seen (base64Padding :: encoded) padding ↔
      ∃ rest, padding = rest + 1 ∧ Follows True encoded rest := by
  constructor
  · rintro ⟨⟨symbols, heq, hsymbols⟩, -⟩
    cases symbols with
    | nil =>
      cases padding with
      | zero => cases heq
      | succ padding =>
        obtain ⟨-, rfl⟩ := List.cons.inj heq
        exact ⟨padding, rfl, ⟨[], rfl, by simp⟩, fun _ => rfl⟩
    | cons byte symbols =>
      obtain ⟨rfl, -⟩ := List.cons.inj heq
      exact absurd (hsymbols _ mem_cons_self) padding_notMem
  · rintro ⟨rest, rfl, -, hrest⟩
    obtain rfl := hrest trivial
    exact ⟨⟨[], rfl, by simp⟩, fun _ => rfl⟩

theorem follows_symbol {byte : UInt8} (hbyte : byte ≠ base64Padding) :
    Follows seen (byte :: encoded) padding ↔
      ¬ seen ∧ byte ∈ base64Alphabet ∧ Follows seen encoded padding := by
  constructor
  · rintro ⟨⟨symbols, heq, hsymbols⟩, hseen⟩
    have hunseen : ¬ seen := by
      intro h
      have hmem : byte ∈ List.replicate padding base64Padding := hseen h ▸ mem_cons_self
      exact hbyte (eq_of_mem_replicate hmem)
    cases symbols with
    | nil =>
      have hmem : byte ∈ List.replicate padding base64Padding := by
        rw [nil_append] at heq
        exact heq ▸ mem_cons_self
      exact absurd (eq_of_mem_replicate hmem) hbyte
    | cons first symbols =>
      obtain ⟨rfl, rfl⟩ := List.cons.inj heq
      exact ⟨hunseen, hsymbols _ mem_cons_self, ⟨symbols, rfl, fun other hother =>
        hsymbols other (mem_cons_of_mem _ hother)⟩, fun h => absurd h hunseen⟩
  · rintro ⟨hunseen, hmem, ⟨symbols, rfl, hsymbols⟩, -⟩
    exact ⟨⟨byte :: symbols, rfl, forall_mem_cons.2 ⟨hmem, hsymbols⟩⟩,
      fun h => absurd h hunseen⟩

/-- The measure accepts symbols and then padding bytes. -/
theorem base64Paddings_iff (encoded : List UInt8) (index : ℕ) (seen : Bool) (before padding : ℕ) :
    base64Paddings encoded index seen before = .ok padding ↔
      ∃ more, padding = before + more ∧ Follows (seen = true) encoded more := by
  induction encoded generalizing index seen before with
  | nil =>
    simp only [base64Paddings, Except.ok.injEq, follows_nil, exists_eq_right, Nat.add_zero]
    exact eq_comm
  | cons byte encoded ih =>
    rw [base64Paddings]
    split_ifs with hpadding hseen hmem
    · subst hpadding
      rw [ih]
      constructor
      · rintro ⟨rest, rfl, hrest⟩
        exact ⟨rest + 1, by omega, follows_padding.2 ⟨rest, rfl, by simpa using hrest⟩⟩
      · rintro ⟨more, rfl, hmore⟩
        obtain ⟨rest, rfl, hrest⟩ := follows_padding.1 hmore
        exact ⟨rest, by omega, by simpa using hrest⟩
    · simp [follows_symbol hpadding, hseen]
    · rw [ih]
      simp [follows_symbol hpadding, hmem, hseen]
    · simp [follows_symbol hpadding, hmem]

/-- So does the loop over a quantum. -/
theorem base64Quantum_iff (quantum : List UInt8) (triple : UInt32) (before padding : ℕ) :
    (∃ value, base64Quantum quantum triple before = some (value, padding)) ↔
      ∃ more, padding = before + more ∧ Follows (0 < before) quantum more := by
  induction quantum generalizing triple before with
  | nil =>
    simp only [base64Quantum, Option.some.injEq, Prod.mk.injEq, exists_and_right, exists_eq',
      true_and, follows_nil, exists_eq_right, Nat.add_zero]
    exact eq_comm
  | cons byte quantum ih =>
    rw [base64Quantum]
    by_cases hpadding : byte = base64Padding
    · subst hpadding
      rw [if_pos rfl, ih]
      constructor
      · rintro ⟨rest, rfl, hrest⟩
        exact ⟨rest + 1, by omega, follows_padding.2 ⟨rest, rfl, by simpa using hrest⟩⟩
      · rintro ⟨more, rfl, hmore⟩
        obtain ⟨rest, rfl, hrest⟩ := follows_padding.1 hmore
        exact ⟨rest, by omega, by simpa using hrest⟩
    · have hfollows : (∃ more, padding = before + more ∧
          Follows (0 < before) (byte :: quantum) more) ↔ ¬ 0 < before ∧ byte ∈ base64Alphabet ∧
            ∃ more, padding = before + more ∧ Follows (0 < before) quantum more := by
        simp only [follows_symbol hpadding]
        tauto
      rw [if_neg hpadding, hfollows]
      cases hindex : base64Alphabet.idxOf? byte with
      | none =>
        have hmem : byte ∉ base64Alphabet := by simpa using hindex
        simp [hmem]
      | some index =>
        have hmem : byte ∈ base64Alphabet := by
          by_contra hnot
          have hnone : base64Alphabet.idxOf? byte = none := by simpa using hnot
          rw [hnone] at hindex
          cases hindex
        change (∃ value, (if 0 < before then none else base64Quantum quantum
          (triple <<< 6 ||| index.toUInt32) before) = some (value, padding)) ↔ _
        by_cases hbefore : 0 < before
        · simp [hbefore]
        · rw [if_neg hbefore, ih]
          simp only [hbefore, hmem, not_false_eq_true, true_and]

/-! ### Quanta -/

theorem Padded.count (h : Padded encoded padding) : encoded.count base64Padding = padding := by
  obtain ⟨symbols, rfl, hsymbols⟩ := h
  have hnone : symbols.count base64Padding = 0 :=
    count_eq_zero.2 fun hmem => padding_notMem (hsymbols _ hmem)
  rw [count_append, hnone, count_replicate_self, Nat.zero_add]

/-- A quantum as it should be: at least two symbols, and then padding. -/
def Quantum (quantum : List UInt8) : Prop :=
  quantum.length = 4 ∧ ∃ padding ≤ 2, Padded quantum padding

theorem count_flatten_le (hall : ∀ q ∈ quanta, Quantum q) :
    quanta.flatten.count base64Padding ≤ 2 * quanta.length := by
  induction quanta with
  | nil => simp
  | cons quantum quanta ih =>
    obtain ⟨⟨-, padding, hle, hpadded⟩, hrest⟩ := forall_mem_cons.1 hall
    rw [flatten_cons, count_append, length_cons, hpadded.count]
    have := ih hrest
    omega

theorem follows_of_padded : Follows (0 < 0) encoded padding ↔ Padded encoded padding :=
  ⟨And.left, fun h => ⟨h, fun hlt => absurd hlt (Nat.lt_irrefl 0)⟩⟩

theorem length_base64Bytes (triple : UInt32) (hle : padding ≤ 2) :
    (base64Bytes triple padding).length = 3 - padding := by
  interval_cases padding <;> rfl

/-- **The decoder reads quantum by quantum**, and leaves out a byte for every padding byte. -/
theorem base64Quanta_iff (hfour : ∀ q ∈ quanta, q.length = 4) (n : ℕ) :
    (∃ out, base64Quanta quanta.flatten = some out ∧ out.length = n) ↔
      (∀ q ∈ quanta, Quantum q) ∧ n + quanta.flatten.count base64Padding = 3 * quanta.length := by
  induction quanta generalizing n with
  | nil => simp [base64Quanta, eq_comm]
  | cons quantum quanta ih =>
    obtain ⟨hlength, hrest⟩ := forall_mem_cons.1 hfour
    obtain ⟨a, b, c, d, rfl⟩ : ∃ a b c d, quantum = [a, b, c, d] := by
      rcases quantum with _ | ⟨a, _ | ⟨b, _ | ⟨c, _ | ⟨d, _ | ⟨e, quantum⟩⟩⟩⟩⟩ <;>
        simp at hlength ⊢
    have hflatten : ([a, b, c, d] :: quanta).flatten = a :: b :: c :: d :: quanta.flatten := rfl
    rw [hflatten, base64Quanta]
    have hcount : (a :: b :: c :: d :: quanta.flatten).count base64Padding =
        [a, b, c, d].count base64Padding + quanta.flatten.count base64Padding := by
      rw [← count_append]
      rfl
    cases hquantum : base64Quantum [a, b, c, d] 0 0 with
    | none =>
      have hnot : ¬ Quantum [a, b, c, d] := by
        rintro ⟨-, padding, -, hpadded⟩
        obtain ⟨value, hvalue⟩ := (base64Quantum_iff [a, b, c, d] 0 0 padding).2
          ⟨padding, (Nat.zero_add _).symm, follows_of_padded.2 hpadded⟩
        rw [hquantum] at hvalue
        cases hvalue
      constructor
      · rintro ⟨out, hout, -⟩
        cases hout
      · rintro ⟨hall, -⟩
        exact absurd (hall _ mem_cons_self) hnot
    | some found =>
      obtain ⟨triple, padding⟩ := found
      obtain ⟨more, hmore, hfollows⟩ := (base64Quantum_iff [a, b, c, d] 0 0 padding).1
        ⟨triple, hquantum⟩
      obtain rfl : padding = more := hmore.trans (Nat.zero_add more)
      have hpadded := follows_of_padded.1 hfollows
      have hpaddings := hpadded.count
      change (∃ out, (if padding > 2 then none else (base64Quanta quanta.flatten).bind fun out =>
        some (base64Bytes triple padding ++ out)) = some out ∧ out.length = n) ↔ _
      by_cases hle : padding ≤ 2
      · have hwell : Quantum [a, b, c, d] := ⟨rfl, padding, hle, hpadded⟩
        rw [if_neg (by omega), forall_mem_cons, hcount, hpaddings, length_cons]
        have hlengths := length_base64Bytes triple hle
        constructor
        · rintro ⟨out, hout, hn⟩
          obtain ⟨rest, hsome, heq⟩ := Option.bind_eq_some_iff.1 hout
          cases heq
          rw [length_append, hlengths] at hn
          obtain ⟨hall, hsum⟩ := (ih hrest rest.length).1 ⟨rest, hsome, rfl⟩
          exact ⟨⟨hwell, hall⟩, by omega⟩
        · rintro ⟨⟨-, hall⟩, hsum⟩
          have hcounts := count_flatten_le hall
          obtain ⟨rest, hsome, hlen⟩ := (ih hrest (3 * quanta.length -
            quanta.flatten.count base64Padding)).2 ⟨hall, by omega⟩
          refine ⟨base64Bytes triple padding ++ rest, by rw [hsome]; rfl, ?_⟩
          rw [length_append, hlengths, hlen]
          omega
      · rw [if_pos (by omega)]
        constructor
        · rintro ⟨out, hout, -⟩
          cases hout
        · rintro ⟨hall, -⟩
          obtain ⟨-, padding', hle', hpadded'⟩ := hall _ mem_cons_self
          exact absurd (hpadded.count.symm.trans hpadded'.count ▸ hle') hle

theorem exists_quanta (k : ℕ) (encoded : List UInt8) (h : encoded.length = 4 * k) :
    ∃ quanta : List (List UInt8), quanta.length = k ∧ encoded = quanta.flatten ∧
      ∀ q ∈ quanta, q.length = 4 := by
  induction k generalizing encoded with
  | zero => exact ⟨[], rfl, eq_nil_of_length_eq_zero h, by simp⟩
  | succ k ih =>
    obtain ⟨quanta, hquanta, hrest, hfour⟩ := ih (encoded.drop 4) (by simp [h]; omega)
    refine ⟨encoded.take 4 :: quanta, by rw [length_cons, hquanta], ?_, ?_⟩
    · rw [flatten_cons, ← hrest, take_append_drop]
    · refine forall_mem_cons.2 ⟨?_, hfour⟩
      rw [length_take, h]
      omega

theorem length_flatten_quanta (hfour : ∀ q ∈ quanta, q.length = 4) :
    quanta.flatten.length = 4 * quanta.length := by
  induction quanta with
  | nil => rfl
  | cons quantum quanta ih =>
    obtain ⟨hlength, hrest⟩ := forall_mem_cons.1 hfour
    rw [flatten_cons, length_append, hlength, ih hrest, length_cons]
    omega

/-- What the measure accepts. -/
theorem decodedBase64Len_iff (hfour : ∀ q ∈ quanta, q.length = 4) (n : ℕ) :
    decodedBase64Len quanta.flatten = .ok n ↔
      ∃ padding ≤ 2, Padded quanta.flatten padding ∧ n = 3 * quanta.length - padding := by
  have hlength := length_flatten_quanta hfour
  have hmod : quanta.flatten.length % 4 = 0 := by omega
  have hpaddings := base64Paddings_iff quanta.flatten 0 false 0
  have hfollows (padding : ℕ) : (∃ more, padding = 0 + more ∧
      Follows (false = true) quanta.flatten more) ↔ Padded quanta.flatten padding := by
    constructor
    · rintro ⟨more, rfl, hpadded, -⟩
      rwa [Nat.zero_add]
    · intro hpadded
      exact ⟨padding, (Nat.zero_add _).symm, hpadded, fun h => Bool.noConfusion h⟩
  have hdivided : quanta.flatten.length / 4 * 3 = 3 * quanta.length := by omega
  unfold decodedBase64Len
  rw [hdivided]
  cases hloop : base64Paddings quanta.flatten 0 false 0 with
  | error error =>
    constructor
    · intro h
      rw [if_neg (by omega)] at h
      cases h
    · rintro ⟨padding, -, hpadded, -⟩
      have hok := (hpaddings padding).2 ((hfollows padding).2 hpadded)
      rw [hloop] at hok
      cases hok
  | ok padding =>
    have hpadded := (hfollows padding).1 ((hpaddings padding).1 hloop)
    rw [if_neg (by omega)]
    change (if padding > 2 then Except.error (ProtocolError.badBase64 "more than two padding bytes")
      else Except.ok (3 * quanta.length - padding)) = _ ↔ _
    constructor
    · intro h
      by_cases hle : padding ≤ 2
      · rw [if_neg (by omega)] at h
        exact ⟨padding, hle, hpadded, (Except.ok.inj h).symm⟩
      · rw [if_pos (by omega)] at h
        cases h
    · rintro ⟨padding', hle, hpadded', rfl⟩
      obtain rfl : padding = padding' := hpadded.count.symm.trans hpadded'.count
      rw [if_neg (by omega)]

theorem base64DecodeBounded_iff (hfour : ∀ q ∈ quanta, q.length = 4) (n : ℕ) :
    (∃ raw, base64DecodeBounded quanta.flatten n = some raw ∧ raw.length = n) ↔
      (∀ q ∈ quanta, Quantum q) ∧ n + quanta.flatten.count base64Padding = 3 * quanta.length := by
  have hlength := length_flatten_quanta hfour
  rw [← base64Quanta_iff hfour, base64DecodeBounded, if_neg (by omega)]
  constructor
  · rintro ⟨raw, hraw, hn⟩
    obtain ⟨out, hout, heq⟩ := Option.bind_eq_some_iff.1 hraw
    split_ifs at heq with hlen
    exact ⟨out, hout, hlen⟩
  · rintro ⟨out, hout, hlen⟩
    refine ⟨out, ?_, hlen⟩
    change (base64Quanta quanta.flatten).bind (fun out =>
      if out.length = n then some out else none) = some out
    rw [hout, Option.bind_some, if_pos hlen]

/-- Nothing but padding follows a padding byte. -/
theorem Padded.append {x y : List UInt8} (h : Padded (x ++ y) padding) :
    (base64Padding ∉ x ∧ (∀ byte ∈ x, byte ∈ base64Alphabet) ∧ Padded y padding) ∨
      base64Padding ∈ x ∧ ∀ byte ∈ y, byte = base64Padding := by
  obtain ⟨symbols, heq, hsymbols⟩ := h
  rcases append_eq_append_iff.1 heq with ⟨rest, rfl, rfl⟩ | ⟨rest, rfl, hrest⟩
  · -- the symbols go on in the second part
    have hx : ∀ byte ∈ x, byte ∈ base64Alphabet :=
      fun byte hbyte => hsymbols byte (mem_append_left _ hbyte)
    exact .inl ⟨fun hmem => padding_notMem (hx _ hmem), hx, rest, rfl,
      fun byte hbyte => hsymbols byte (mem_append_right _ hbyte)⟩
  · -- the padding begins in the first part, or right after it
    have hall : ∀ byte ∈ rest ++ y, byte = base64Padding :=
      fun byte hbyte => eq_of_mem_replicate (hrest ▸ hbyte)
    cases rest with
    | nil =>
      rw [append_nil]
      exact .inl ⟨fun hmem => padding_notMem (hsymbols _ hmem), hsymbols, [], hrest.symm, by simp⟩
    | cons byte rest =>
      obtain rfl := hall byte (by simp)
      exact .inr ⟨by simp, fun byte hbyte => hall byte (by simp [hbyte])⟩

/-- The quanta of a text that the measure accepts are as they should be. -/
theorem quantum_of_padded (hfour : ∀ q ∈ quanta, q.length = 4) (hle : padding ≤ 2)
    (h : Padded quanta.flatten padding) : ∀ q ∈ quanta, Quantum q := by
  induction quanta with
  | nil => simp
  | cons quantum quanta ih =>
    obtain ⟨hlength, hrest⟩ := forall_mem_cons.1 hfour
    rw [flatten_cons] at h
    cases quanta with
    | nil =>
      rw [flatten_nil, append_nil] at h
      simpa using ⟨hlength, padding, hle, h⟩
    | cons next quanta =>
      rcases h.append with ⟨-, hsymbols, hpadded⟩ | ⟨hmem, hall⟩
      · exact forall_mem_cons.2 ⟨⟨hlength, 0, Nat.zero_le 2, quantum, by simp, hsymbols⟩,
          ih hrest hpadded⟩
      · -- more than four padding bytes would follow
        have hlong := length_flatten_quanta hrest
        have hcount : (quantum ++ (next :: quanta).flatten).count base64Padding = padding := h.count
        have heq : (next :: quanta).flatten.count base64Padding = (next :: quanta).flatten.length :=
          count_eq_length.2 fun byte hbyte => (hall byte hbyte).symm
        rw [count_append, heq, hlong, length_cons] at hcount
        omega

/-- A quantum but the last is padded, and otherwise all are as they should be. -/
def PaddedInside (encoded : List UInt8) : Prop :=
  ∃ (quanta : List (List UInt8)) (last : List UInt8), encoded = (quanta ++ [last]).flatten ∧
    (∀ q ∈ quanta ++ [last], Quantum q) ∧ ∃ q ∈ quanta, base64Padding ∈ q

theorem refused_of_length (h : encoded.length % 4 ≠ 0) (n : ℕ) :
    base64DecodeBounded encoded n = none ∧ decodedBase64Len encoded ≠ .ok n := by
  refine ⟨if_pos h, fun hok => ?_⟩
  unfold decodedBase64Len at hok
  rw [if_pos h] at hok
  cases hok

theorem decoded_of_measured (h : decodedBase64Len encoded = .ok n) :
    ∃ raw, base64DecodeBounded encoded n = some raw ∧ raw.length = n := by
  have hmod : encoded.length % 4 = 0 := by
    by_contra hmod
    exact (refused_of_length hmod n).2 h
  obtain ⟨quanta, -, rfl, hfour⟩ := exists_quanta (encoded.length / 4) encoded (by omega)
  obtain ⟨padding, hle, hpadded, rfl⟩ := (decodedBase64Len_iff hfour n).1 h
  have hquanta := quantum_of_padded hfour hle hpadded
  have hcount := hpadded.count
  have hcounts := count_flatten_le hquanta
  exact (base64DecodeBounded_iff hfour _).2 ⟨hquanta, by omega⟩

/-- **The decoder accepts more than the measure where a quantum but the last is padded**, and
nowhere else. -/
theorem agrees_iff (encoded : List UInt8) :
    (∀ n, (∃ raw, base64DecodeBounded encoded n = some raw ∧ raw.length = n) ↔
      decodedBase64Len encoded = .ok n) ↔ ¬ PaddedInside encoded := by
  constructor
  · rintro hagrees ⟨quanta, last, rfl, hquanta, q, hq, hmem⟩
    have hfour : ∀ q ∈ quanta ++ [last], q.length = 4 := fun q hq => (hquanta q hq).1
    have hcounts := count_flatten_le hquanta
    have hlong : (quanta ++ [last]).length = quanta.length + 1 := by simp
    obtain ⟨padding, hle, hpadded, -⟩ := (decodedBase64Len_iff hfour _).1
      ((hagrees _).1 ((base64DecodeBounded_iff hfour _).2
        ⟨hquanta, Nat.sub_add_cancel (Nat.le_trans hcounts (by omega))⟩))
    -- the last quantum has symbols, behind a padding byte
    rw [flatten_append, flatten_singleton] at hpadded
    rcases hpadded.append with ⟨hnot, -⟩ | ⟨-, hall⟩
    · exact hnot (mem_flatten.2 ⟨q, hq, hmem⟩)
    · obtain ⟨hlength, padding', hle', hlast⟩ := hquanta last (by simp)
      have hcount := hlast.count
      rw [count_eq_length.2 fun byte hbyte => (hall byte hbyte).symm] at hcount
      omega
  · intro hinside n
    refine ⟨fun h => ?_, decoded_of_measured⟩
    have hmod : encoded.length % 4 = 0 := by
      by_contra hmod
      obtain ⟨raw, hraw, -⟩ := h
      rw [(refused_of_length hmod n).1] at hraw
      cases hraw
    obtain ⟨quanta, -, rfl, hfour⟩ := exists_quanta (encoded.length / 4) encoded (by omega)
    obtain ⟨hquanta, hsum⟩ := (base64DecodeBounded_iff hfour n).1 h
    refine (decodedBase64Len_iff hfour n).2 ?_
    -- only the last quantum is padded
    rcases eq_nil_or_concat quanta with rfl | ⟨before, last, rfl⟩
    · exact ⟨0, Nat.zero_le 2, ⟨[], rfl, by simp⟩, by simpa using hsum⟩
    · rw [concat_eq_append] at *
      obtain ⟨-, padding, hle, symbols, hlast, hsymbols⟩ := hquanta last (by simp)
      have hbefore : ∀ byte ∈ before.flatten, byte ∈ base64Alphabet := by
        intro byte hbyte
        obtain ⟨q, hq, hbyte⟩ := mem_flatten.1 hbyte
        obtain ⟨-, padding', -, symbols', rfl, hsymbols'⟩ := hquanta q (by simp [hq])
        rcases mem_append.1 hbyte with hbyte | hbyte
        · exact hsymbols' byte hbyte
        · obtain rfl := eq_of_mem_replicate hbyte
          exact absurd ⟨before, last, rfl, hquanta, _, hq, mem_append_right _ hbyte⟩ hinside
      have hpadded : Padded (before ++ [last]).flatten padding := by
        refine ⟨before.flatten ++ symbols, ?_, ?_⟩
        · rw [flatten_append, flatten_singleton, hlast, append_assoc]
        · exact fun byte hbyte => (mem_append.1 hbyte).elim (hbefore byte) (hsymbols byte)
      have hcount := hpadded.count
      exact ⟨padding, hle, hpadded, by omega⟩

/-! ### Round trip -/

theorem base64Symbol_mem (triple shift : UInt32) : base64Symbol triple shift ∈ base64Alphabet := by
  refine base64Alphabet_getD _ ?_
  rw [UInt32.toNat_and]
  exact Nat.lt_succ_of_le Nat.and_le_right

theorem length_base64Piece (hpos : piece ≠ []) (hle : piece.length ≤ 3) :
    (base64Piece piece).length = 4 := by
  have hlength := length_pos_of_ne_nil hpos
  simp only [base64Piece, length_append, length_take, length_map, length_cons,
    length_nil, length_replicate]
  omega

theorem padded_base64Piece (piece : List UInt8) :
    Padded (base64Piece piece) (3 - piece.length) := by
  refine ⟨_, rfl, fun byte hbyte => ?_⟩
  obtain ⟨shift, -, rfl⟩ := mem_map.1 (mem_of_mem_take hbyte)
  exact base64Symbol_mem _ shift

/-- A piece comes first. -/
theorem base64Quanta_piece (hpos : piece ≠ []) (hle : piece.length ≤ 3) (rest : List UInt8) :
    base64Quanta (base64Piece piece ++ rest) =
      (base64Quanta rest).map (piece ++ ·) := by
  obtain ⟨triple, hquantum, hbytes⟩ := base64Quantum_piece hpos hle
  have hlength := length_base64Piece hpos hle
  have hpositive := length_pos_of_ne_nil hpos
  generalize base64Piece piece = quantum at hquantum hlength
  obtain ⟨a, b, c, d, rfl⟩ : ∃ a b c d, quantum = [a, b, c, d] := by
    rcases quantum with _ | ⟨a, _ | ⟨b, _ | ⟨c, _ | ⟨d, _ | ⟨e, quantum⟩⟩⟩⟩⟩ <;>
      simp at hlength ⊢
  change base64Quanta (a :: b :: c :: d :: rest) = _
  rw [base64Quanta, hquantum]
  change (if 3 - piece.length > 2 then none else (base64Quanta rest).bind fun out =>
    some (base64Bytes triple (3 - piece.length) ++ out)) = _
  rw [if_neg (by omega), hbytes]
  cases base64Quanta rest <;> rfl

/-- **What is encoded is decoded**, and it is spelled as it should be. -/
theorem base64Encode_spec (raw : List UInt8) : base64Quanta (base64Encode raw) = some raw ∧
    (base64Encode raw).length % 4 = 0 ∧ ∃ padding ≤ 2, Padded (base64Encode raw) padding := by
  induction raw using base64Encode.induct with
  | case1 a b c raw ih =>
    obtain ⟨hquanta, hlength, padding, hle, symbols, hpadded, hsymbols⟩ := ih
    obtain ⟨symbols', hpiece, hsymbols'⟩ := padded_base64Piece [a, b, c]
    have hthree : [a, b, c].length ≤ 3 := Nat.le_refl 3
    refine ⟨?_, ?_, padding, hle, symbols' ++ symbols, ?_, ?_⟩
    · rw [base64Encode, base64Quanta_piece (by simp) hthree, hquanta]
      rfl
    · rw [base64Encode, length_append, length_base64Piece (by simp) hthree]
      omega
    · change base64Piece [a, b, c] = symbols' ++ [] at hpiece
      rw [base64Encode, hpadded, hpiece, append_nil, append_assoc]
    · exact fun byte hbyte => (mem_append.1 hbyte).elim (hsymbols' byte) (hsymbols byte)
  | case2 => exact ⟨rfl, rfl, 0, Nat.zero_le 2, [], rfl, by simp⟩
  | case3 piece hlong hne =>
    have hle : piece.length ≤ 3 := by
      rcases piece with _ | ⟨a, _ | ⟨b, _ | ⟨c, piece⟩⟩⟩
      · exact Nat.zero_le 3
      · exact Nat.le_add_left 1 2
      · exact Nat.le_add_left 2 1
      · exact absurd rfl (hlong a b c piece)
    have hencode : base64Encode piece = base64Piece piece := by
      rcases piece with _ | ⟨a, _ | ⟨b, _ | ⟨c, piece⟩⟩⟩
      · exact absurd rfl hne
      · rfl
      · rfl
      · exact absurd rfl (hlong a b c piece)
    have hpositive := length_pos_of_ne_nil hne
    have hquanta := base64Quanta_piece hne hle []
    rw [append_nil] at hquanta
    rw [hencode]
    refine ⟨hquanta.trans ?_, ?_, _, ?_, padded_base64Piece piece⟩
    · simp [base64Quanta]
    · rw [length_base64Piece hne hle]
    · omega

theorem base64_round_trip (raw : List UInt8) :
    decodedBase64Len (base64Encode raw) = .ok raw.length ∧
      base64DecodeBounded (base64Encode raw) raw.length = some raw := by
  obtain ⟨hquanta, hmod, padding, hle, hpadded⟩ := base64Encode_spec raw
  constructor
  · obtain ⟨quanta, -, hflatten, hfour⟩ := exists_quanta ((base64Encode raw).length / 4)
      (base64Encode raw) (by omega)
    rw [hflatten] at hquanta hpadded ⊢
    obtain ⟨-, hsum⟩ := (base64Quanta_iff hfour raw.length).1 ⟨raw, hquanta, rfl⟩
    have hcount := hpadded.count
    exact (decodedBase64Len_iff hfour _).2 ⟨padding, hle, hpadded, by omega⟩
  · rw [base64DecodeBounded, if_neg (by omega), hquanta]
    exact if_pos rfl

theorem checkStdinChunkBase64_iff :
    checkStdinChunkBase64 encoded = .ok n ↔
      decodedBase64Len encoded = .ok n ∧ n ≤ maxStdinChunkBytes := by
  unfold checkStdinChunkBase64
  cases hmeasured : decodedBase64Len encoded with
  | error refusal => exact ⟨nofun, fun h => nomatch h.1⟩
  | ok decoded =>
    simp only [bind, Except.bind, pure, Except.pure, throw, throwThe, MonadExceptOf.throw]
    split_ifs with hlarge
    · exact ⟨nofun, fun ⟨heq, hle⟩ => absurd hle (by cases heq; omega)⟩
    · exact ⟨fun heq => ⟨heq, by cases heq; omega⟩, fun h => h.1⟩

/-- **The codec, its measure, its decoder and its validator agree**, except on a text with padding
inside. -/
theorem base64_agrees (raw encoded : List UInt8) (n : ℕ) :
    (decodedBase64Len (base64Encode raw) = .ok raw.length ∧
      base64DecodeBounded (base64Encode raw) raw.length = some raw) ∧
    (decodedBase64Len encoded = .ok n →
      ∃ bytes, base64DecodeBounded encoded n = some bytes ∧ bytes.length = n) ∧
    (checkStdinChunkBase64 encoded = .ok n → n ≤ maxStdinChunkBytes ∧
      ∃ bytes, base64DecodeBounded encoded n = some bytes ∧ bytes.length = n) ∧
    ((∀ n, (∃ bytes, base64DecodeBounded encoded n = some bytes ∧ bytes.length = n) ↔
      decodedBase64Len encoded = .ok n) ↔ ¬ PaddedInside encoded) :=
  ⟨base64_round_trip raw, decoded_of_measured,
    fun h => ⟨(checkStdinChunkBase64_iff.1 h).2, decoded_of_measured (checkStdinChunkBase64_iff.1 h).1⟩,
    agrees_iff encoded⟩

/-- "QQ==QUJD" is decoded to four bytes, and refused by the measure. -/
theorem padding_inside_decoded :
    base64DecodeBounded [81, 81, 61, 61, 81, 85, 74, 68] 4 = some [65, 65, 66, 67] ∧
      decodedBase64Len [81, 81, 61, 61, 81, 85, 74, 68] ≠ .ok 4 := by
  constructor
  · decide
  · exact nofun

end Shared
end Lvu
