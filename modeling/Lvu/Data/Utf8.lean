import Mathlib.Data.List.Basic

/-!
# Bytes read as UTF-8

`String::from_utf8_lossy`: bytes that are no character are read as U+FFFD, once for each longest
beginning of a character.  `lossyUtf8Len_eq` : the length that is admitted before the text is built
(`lossy_utf8_len` of `lvu-view/src/union.rs`) is its length.
-/

namespace Lvu.Utf8

open List

/-- The bytes of a text. -/
def encode (cs : List Char) : List UInt8 := cs.flatMap String.utf8EncodeChar

/-- A byte that continues a character. -/
def continues (b : UInt8) : Bool := b &&& 0xC0 = 0x80

/-- The second byte that a first one of three or four bytes admits. -/
def secondOk (first second : UInt8) : Bool :=
  if first = 0xE0 then 0xA0 ≤ second ∧ second ≤ 0xBF
  else if first = 0xED then 0x80 ≤ second ∧ second ≤ 0x9F
  else if first = 0xF0 then 0x90 ≤ second ∧ second ≤ 0xBF
  else if first = 0xF4 then 0x80 ≤ second ∧ second ≤ 0x8F
  else continues second

/-- The low six bits. -/
def low (b : UInt8) : ℕ := (b &&& 0x3F).toNat

/-- What stands for bytes that are no character. -/
def replacement : Char := '\uFFFD'

/-- The character after a first byte, and how many more bytes it, or its longest beginning, has. -/
def decodeRest (first : UInt8) (rest : List UInt8) : Char × ℕ :=
  if first < 0x80 then (Char.ofNat first.toNat, 0)
  else if 0xC2 ≤ first ∧ first ≤ 0xDF then
    match rest with
    | b :: _ => if continues b then (Char.ofNat ((first &&& 0x1F).toNat * 64 + low b), 1)
      else (replacement, 0)
    | [] => (replacement, 0)
  else if 0xE0 ≤ first ∧ first ≤ 0xEF then
    match rest with
    | b :: c :: _ =>
      if ¬ secondOk first b then (replacement, 0)
      else if ¬ continues c then (replacement, 1)
      else (Char.ofNat (((first &&& 0x0F).toNat * 64 + low b) * 64 + low c), 2)
    | [b] => if secondOk first b then (replacement, 1) else (replacement, 0)
    | [] => (replacement, 0)
  else if 0xF0 ≤ first ∧ first ≤ 0xF4 then
    match rest with
    | b :: c :: d :: _ =>
      if ¬ secondOk first b then (replacement, 0)
      else if ¬ continues c then (replacement, 1)
      else if ¬ continues d then (replacement, 2)
      else (Char.ofNat ((((first &&& 0x07).toNat * 64 + low b) * 64 + low c) * 64 + low d), 3)
    | [b, c] =>
      if ¬ secondOk first b then (replacement, 0)
      else if ¬ continues c then (replacement, 1)
      else (replacement, 2)
    | [b] => if secondOk first b then (replacement, 1) else (replacement, 0)
    | [] => (replacement, 0)
  else (replacement, 0)

/-- `String::from_utf8_lossy`. -/
def decodeLossy : List UInt8 → List Char
  | [] => []
  | first :: rest =>
    let (c, more) := decodeRest first rest
    c :: decodeLossy (rest.drop more)
termination_by bs => bs.length
decreasing_by
  simp only [length_drop, length_cons]
  omega

theorem decodeLossy_ascii {bs : List UInt8} (h : ∀ b ∈ bs, b < 0x80) :
    decodeLossy bs = bs.map fun b => Char.ofNat b.toNat := by
  induction bs with
  | nil => simp [decodeLossy]
  | cons b rest ih =>
    have hb := h b mem_cons_self
    have hrest := ih fun b hb => h b (mem_cons_of_mem _ hb)
    have hread : decodeRest b rest = (Char.ofNat b.toNat, 0) := by
      unfold decodeRest
      exact if_pos hb
    rw [decodeLossy, hread]
    simp only [drop_zero, hrest, map_cons]

/-! ### How long the text is -/

/-- What `str::from_utf8` asks of the bytes that follow, one at a time: how many bytes the character
has, or how many are no character, `none` where the bytes end before that is known. -/
def follow (read : ℕ) : List (UInt8 → Bool) → List UInt8 → Except (Option ℕ) ℕ
  | [], _ => .ok read
  | _ :: _, [] => .error none
  | ok :: oks, b :: rest => if ok b then follow (read + 1) oks rest else .error (some read)

/-- What it says of the character that a byte begins. -/
def charLen (first : UInt8) (rest : List UInt8) : Except (Option ℕ) ℕ :=
  if first < 0x80 then .ok 1
  else if 0xC2 ≤ first ∧ first ≤ 0xDF then follow 1 [continues] rest
  else if 0xE0 ≤ first ∧ first ≤ 0xEF then follow 1 [secondOk first, continues] rest
  else if 0xF0 ≤ first ∧ first ≤ 0xF4 then follow 1 [secondOk first, continues, continues] rest
  else .error (some 1)

/-- `str::from_utf8`, where it fails: `valid_up_to` and `error_len`. -/
def fromUtf8 : List UInt8 → Option (ℕ × Option ℕ)
  | [] => none
  | first :: rest =>
    match charLen first rest with
    | .ok n => (fromUtf8 (rest.drop (n - 1))).map fun e => (n + e.1, e.2)
    | .error len => some (0, len)
termination_by bs => bs.length
decreasing_by
  simp only [length_drop, length_cons]
  omega

theorem utf8Size_ofNat {n : ℕ} (h : n.isValidChar) : (Char.ofNat n).utf8Size =
    if n < 0x80 then 1 else if n < 0x800 then 2 else if n < 0x10000 then 3 else 4 := by
  have hval : (Char.ofNat n).val.toNat = n := by
    rw [Char.ofNat, dif_pos h]
    rfl
  unfold Char.utf8Size
  simp only [UInt32.le_iff_toNat_le, hval, UInt32.toNat_ofNatLT, ← Nat.lt_succ_iff]

theorem toNat_and (b : UInt8) :
    (b &&& 0x3F).toNat = b.toNat % 64 ∧ (b &&& 0x1F).toNat = b.toNat % 32 ∧
      (b &&& 0x0F).toNat = b.toNat % 16 ∧ (b &&& 0x07).toNat = b.toNat % 8 := by
  simp only [UInt8.toNat_and]
  exact ⟨Nat.and_two_pow_sub_one_eq_mod _ 6, Nat.and_two_pow_sub_one_eq_mod _ 5,
    Nat.and_two_pow_sub_one_eq_mod _ 4, Nat.and_two_pow_sub_one_eq_mod _ 3⟩

/-- A second byte that is admitted keeps the character in range and out of the surrogates. -/
theorem low_second {first b : UInt8} (h : secondOk first b) : (first = 0xE0 → 32 ≤ low b) ∧
    (first = 0xED → low b < 32) ∧ (first = 0xF0 → 16 ≤ low b) ∧ (first = 0xF4 → low b < 16) := by
  have hwithin {lo hi : UInt8} (hb : lo ≤ b ∧ b ≤ hi) : lo.toNat ≤ b.toNat ∧ b.toNat ≤ hi.toNat :=
    ⟨UInt8.le_iff_toNat_le.1 hb.1, UInt8.le_iff_toNat_le.1 hb.2⟩
  rw [low, (toNat_and b).1]
  refine ⟨?_, ?_, ?_, ?_⟩ <;> rintro rfl
  · obtain ⟨hge, hle⟩ : 160 ≤ b.toNat ∧ b.toNat ≤ 191 := hwithin (of_decide_eq_true h)
    omega
  · obtain ⟨hge, hle⟩ : 128 ≤ b.toNat ∧ b.toNat ≤ 159 := hwithin (of_decide_eq_true h)
    omega
  · obtain ⟨hge, hle⟩ : 144 ≤ b.toNat ∧ b.toNat ≤ 191 := hwithin (of_decide_eq_true h)
    omega
  · obtain ⟨hge, hle⟩ : 128 ≤ b.toNat ∧ b.toNat ≤ 143 := hwithin (of_decide_eq_true h)
    omega

/-- Both read the same character, or find the same bytes to be none. -/
def SameChar (rest : ℕ) (checked : Except (Option ℕ) ℕ) (read : Char × ℕ) : Prop :=
  (∃ c n, checked = .ok (n + 1) ∧ read = (c, n) ∧ n ≤ rest ∧ c.utf8Size = n + 1) ∨
    ∃ len n, checked = .error len ∧ read = (replacement, n) ∧
      (len = some (n + 1) ∧ n ≤ rest ∨ len = none ∧ rest ≤ n)

theorem charLen_spec (first : UInt8) (rest : List UInt8) :
    SameChar rest.length (charLen first rest) (decodeRest first rest) := by
  have hlow : ∀ b, low b < 64 := by
    intro b
    rw [low, (toNat_and b).1]
    exact Nat.mod_lt _ (by decide)
  obtain ⟨-, h5, h4, h3⟩ := toNat_and first
  unfold charLen decodeRest
  split_ifs with h1 hw hw hw
  · refine .inl ⟨_, 0, rfl, rfl, Nat.zero_le _, ?_⟩
    have h1 : first.toNat < 128 := UInt8.lt_iff_toNat_lt.1 h1
    rw [utf8Size_ofNat (.inl (by omega)), if_pos h1]
  · have hge : 194 ≤ first.toNat := UInt8.le_iff_toNat_le.1 hw.1
    have hle : first.toNat ≤ 223 := UInt8.le_iff_toNat_le.1 hw.2
    rcases rest with _ | ⟨b, rest⟩
    · exact .inr ⟨_, _, rfl, rfl, .inr ⟨rfl, Nat.le_refl _⟩⟩
    · simp only [follow]
      split_ifs with hb
      · refine .inl ⟨_, 1, rfl, rfl, by simp, ?_⟩
        have := hlow b
        rw [h5, utf8Size_ofNat (.inl (by omega)), if_neg (by omega), if_pos (by omega)]
      · exact .inr ⟨_, _, rfl, rfl, .inl ⟨rfl, Nat.zero_le _⟩⟩
  · have hge : 224 ≤ first.toNat := UInt8.le_iff_toNat_le.1 hw.1
    have hle : first.toNat ≤ 239 := UInt8.le_iff_toNat_le.1 hw.2
    rcases rest with _ | ⟨b, rest⟩
    · exact .inr ⟨_, _, rfl, rfl, .inr ⟨rfl, Nat.le_refl _⟩⟩
    rcases rest with _ | ⟨c, rest⟩ <;> simp only [follow] <;> split_ifs with hb
    · exact .inr ⟨_, _, rfl, rfl, .inr ⟨rfl, Nat.le_refl _⟩⟩
    · exact .inr ⟨_, _, rfl, rfl, .inl ⟨rfl, Nat.zero_le _⟩⟩
    · refine .inl ⟨_, 2, rfl, rfl, by simp, ?_⟩
      have := hlow b
      have := hlow c
      obtain ⟨hE0, hED, -, -⟩ := low_second hb
      rw [← UInt8.toNat_inj] at hE0 hED
      change first.toNat = 224 → _ at hE0
      change first.toNat = 237 → _ at hED
      have hvalid : ((first.toNat % 16 * 64 + low b) * 64 + low c).isValidChar := by
        unfold Nat.isValidChar
        omega
      rw [h4, utf8Size_ofNat hvalid, if_neg (by omega), if_neg (by omega), if_pos (by omega)]
    · exact .inr ⟨_, _, rfl, rfl, .inl ⟨rfl, by simp⟩⟩
    · exact .inr ⟨_, _, rfl, rfl, .inl ⟨rfl, Nat.zero_le _⟩⟩
  · have hge : 240 ≤ first.toNat := UInt8.le_iff_toNat_le.1 hw.1
    have hle : first.toNat ≤ 244 := UInt8.le_iff_toNat_le.1 hw.2
    rcases rest with _ | ⟨b, rest⟩
    · exact .inr ⟨_, _, rfl, rfl, .inr ⟨rfl, Nat.le_refl _⟩⟩
    rcases rest with _ | ⟨c, _ | ⟨d, rest⟩⟩ <;> simp only [follow] <;> split_ifs with hb
    · exact .inr ⟨_, _, rfl, rfl, .inr ⟨rfl, Nat.le_refl _⟩⟩
    · exact .inr ⟨_, _, rfl, rfl, .inl ⟨rfl, Nat.zero_le _⟩⟩
    · exact .inr ⟨_, _, rfl, rfl, .inr ⟨rfl, Nat.le_refl _⟩⟩
    · exact .inr ⟨_, _, rfl, rfl, .inl ⟨rfl, by simp⟩⟩
    · exact .inr ⟨_, _, rfl, rfl, .inl ⟨rfl, Nat.zero_le _⟩⟩
    · refine .inl ⟨_, 3, rfl, rfl, by simp, ?_⟩
      have := hlow b
      have := hlow c
      have := hlow d
      obtain ⟨-, -, hF0, hF4⟩ := low_second hb
      rw [← UInt8.toNat_inj] at hF0 hF4
      change first.toNat = 240 → _ at hF0
      change first.toNat = 244 → _ at hF4
      have hvalid : (((first.toNat % 8 * 64 + low b) * 64 + low c) * 64 + low d).isValidChar := by
        unfold Nat.isValidChar
        omega
      rw [h3, utf8Size_ofNat hvalid, if_neg (by omega), if_neg (by omega), if_neg (by omega)]
    · exact .inr ⟨_, _, rfl, rfl, .inl ⟨rfl, by simp⟩⟩
    · exact .inr ⟨_, _, rfl, rfl, .inl ⟨rfl, by simp⟩⟩
    · exact .inr ⟨_, _, rfl, rfl, .inl ⟨rfl, Nat.zero_le _⟩⟩
  · exact .inr ⟨_, _, rfl, rfl, .inl ⟨rfl, Nat.zero_le _⟩⟩

/-- How long the text is that is read from bytes. -/
def lossyLength (bytes : List UInt8) : ℕ := (encode (decodeLossy bytes)).length

theorem lossyLength_cons (first : UInt8) (rest : List UInt8) :
    lossyLength (first :: rest) = (decodeRest first rest).1.utf8Size +
      lossyLength (rest.drop (decodeRest first rest).2) := by
  rw [lossyLength, decodeLossy]
  simp [encode, lossyLength]

/-- What `from_utf8` leaves to be read is shorter, and the text of what it does not is as long as
the valid bytes and one U+FFFD. -/
theorem fromUtf8_spec (bytes : List UInt8) :
    (fromUtf8 bytes = none → lossyLength bytes = bytes.length) ∧
      ∀ e, fromUtf8 bytes = some e → 0 < e.1 + e.2.getD (bytes.length - e.1) ∧
        lossyLength bytes = e.1 + replacement.utf8Size +
          lossyLength (bytes.drop (e.1 + e.2.getD (bytes.length - e.1))) ∧ bytes ≠ [] := by
  fun_induction fromUtf8 bytes with
  | case1 => simp [lossyLength, decodeLossy, encode]
  | case2 first rest n hn ih =>
    obtain ⟨c, m, hok, hread, hm, hsize⟩ := (charLen_spec first rest).resolve_right
      (by rintro ⟨len, m, herror, -⟩; rw [hn] at herror; cases herror)
    obtain rfl : n = m + 1 := Except.ok.inj (hn.symm.trans hok)
    rw [Nat.add_sub_cancel] at ih ⊢
    rw [lossyLength_cons, hread, hsize]
    refine ⟨fun hnone => ?_, fun e he => ?_⟩
    · rw [ih.1 (by simpa using hnone), length_drop, length_cons]
      omega
    · obtain ⟨⟨upTo, len⟩, hlater, rfl⟩ := Option.map_eq_some_iff.1 he
      obtain ⟨hpos, hlength, -⟩ := ih.2 _ hlater
      have hleft : (first :: rest).length - (m + 1 + upTo) = (rest.drop m).length - upTo := by
        rw [length_drop, length_cons]
        omega
      dsimp only at hpos hlength ⊢
      rw [hleft, hlength, drop_drop, Nat.add_assoc (m + 1), Nat.add_right_comm m 1,
        drop_succ_cons]
      exact ⟨by omega, by omega, cons_ne_nil _ _⟩
  | case3 first rest len hlen =>
    obtain ⟨len', n, herror, hread, hn⟩ := (charLen_spec first rest).resolve_left
      (by rintro ⟨c, m, hok, -⟩; rw [hlen] at hok; cases hok)
    obtain rfl : len = len' := Except.error.inj (hlen.symm.trans herror)
    refine ⟨by simp, fun e he => ?_⟩
    cases he
    rw [lossyLength_cons, hread]
    simp only [Nat.zero_add, Nat.sub_zero]
    rcases hn with ⟨rfl, -⟩ | ⟨rfl, hn⟩
    · exact ⟨Nat.succ_pos _, rfl, cons_ne_nil _ _⟩
    · refine ⟨Nat.succ_pos _, ?_, cons_ne_nil _ _⟩
      rw [Option.getD_none, drop_length, drop_eq_nil_of_le hn]

/-- `usize::checked_add`. -/
def checkedAdd (limit a b : ℕ) : Option ℕ := if a + b ≤ limit then some (a + b) else none

/-- The loop of `lossy_utf8_len`, `none` where the length passes the greatest `usize`. -/
def lossyLoop (limit length : ℕ) (remaining : List UInt8) : Option ℕ :=
  if remaining = [] then some length
  else match _hread : fromUtf8 remaining with
    | none => checkedAdd limit length remaining.length
    | some (validUpTo, errorLen) =>
      ((checkedAdd limit length validUpTo).bind (checkedAdd limit · replacement.utf8Size)).bind
        fun length => lossyLoop limit length
          (remaining.drop (validUpTo + errorLen.getD (remaining.length - validUpTo)))
termination_by remaining.length
decreasing_by
  obtain ⟨hpos, -, hne⟩ := (fromUtf8_spec remaining).2 _ ‹_›
  have := length_pos_iff.2 hne
  dsimp only at hpos
  rw [length_drop]
  omega

def lossyUtf8Len (limit : ℕ) (bytes : List UInt8) : Option ℕ := lossyLoop limit 0 bytes

theorem lossyLoop_eq (limit : ℕ) {length : ℕ} (remaining : List UInt8) (h : length ≤ limit) :
    lossyLoop limit length remaining = checkedAdd limit length (lossyLength remaining) := by
  fun_induction lossyLoop limit length remaining with
  | case1 length => simp [checkedAdd, lossyLength, decodeLossy, encode, h]
  | case2 length remaining hne hread => rw [(fromUtf8_spec remaining).1 hread]
  | case3 length remaining hne validUpTo errorLen hread ih =>
    obtain ⟨-, hlength, -⟩ := (fromUtf8_spec remaining).2 _ hread
    rw [hlength]
    dsimp only
    have hadd : (checkedAdd limit length validUpTo).bind (checkedAdd limit · replacement.utf8Size) =
        checkedAdd limit length (validUpTo + replacement.utf8Size) := by
      unfold checkedAdd
      split_ifs with h1 h2 h2
      · rw [Option.bind_some, if_pos (by omega), Nat.add_assoc]
      · rw [Option.bind_some, if_neg (by omega)]
      · omega
      · rfl
    rw [hadd, checkedAdd]
    split_ifs with h1
    · rw [Option.bind_some, ih _ h1, checkedAdd, checkedAdd, Nat.add_assoc length]
    · rw [Option.bind_none, checkedAdd, if_neg (by omega)]

/-- **The length that is admitted is the length of the text that is built**, wherever there can be a
text of that length at all. -/
theorem lossyUtf8Len_eq (limit : ℕ) (bytes : List UInt8) : lossyUtf8Len limit bytes =
    if (encode (decodeLossy bytes)).length ≤ limit then some (encode (decodeLossy bytes)).length
    else none := by
  rw [lossyUtf8Len, lossyLoop_eq limit bytes (Nat.zero_le _), checkedAdd, Nat.zero_add]
  rfl

end Lvu.Utf8
