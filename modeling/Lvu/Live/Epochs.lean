import Lvu.Live.Spelling

/-!
# The instants of numbers

An epoch is stated by its sign, its whole part and its fraction.  `epoch_nanos` reads that instant,
unless its whole part is an `i128` and its nanoseconds are none.

* `epochNanos_cases` : a number is refused, read exactly, or overflows.
* `inferred_fits` : a number whose unit is inferred does not overflow.
-/

namespace Lvu.Time

open List

/-! ### Epochs -/

/-- A number: its sign, its whole part, and its fraction. -/
structure EpochParts (text : List UInt8) (negative : Bool) (whole fraction : List UInt8) : Prop where
  text : ∃ rest, text = (if negative then [45] else []) ++ (whole ++ rest) ∧
    (rest = [] ∧ fraction = [] ∨ ∃ c, isPoint c = true ∧ rest = c :: fraction)
  whole_ne : whole ≠ []
  whole : whole.all isDigitByte = true
  fraction : fraction.all isDigitByte = true

/-- The nanoseconds of a number without its sign; what is less than one is cut off. -/
def magnitude (unit : EpochUnit) (whole fraction : List UInt8) : ℤ :=
  digitsValue whole * unit.nanosPerUnit +
    digitsValue fraction * unit.nanosPerUnit / 10 ^ fraction.length

/-- The instant of a number. -/
def epochInstant (unit : EpochUnit) (negative : Bool) (whole fraction : List UInt8) : ℤ :=
  if negative then -magnitude unit whole fraction else magnitude unit whole fraction

/-- A number whose whole part is an `i128`, but whose nanoseconds are none. -/
def EpochOverflows (unit : EpochUnit) (text : List UInt8) : Prop :=
  ∃ negative whole fraction, EpochParts text negative whole fraction ∧
    digitsValue whole < 2 ^ 127 ∧ 2 ^ 127 ≤ magnitude unit whole fraction

variable {text whole fraction : List UInt8} {negative : Bool} {n : ℤ} {α : Type}
  {f : ℤ → Except Halt α} {unit : EpochUnit}

/-- The parts of a number are those that `epoch_nanos` finds. -/
theorem epochParts_iff :
    EpochParts text negative whole fraction ↔ negative = decide (text.head? = some 45) ∧
      splitOnce isPoint (if text.head? = some 45 then text.tail else text) = (whole, fraction) ∧
      whole ≠ [] ∧ whole.all isDigitByte = true ∧ fraction.all isDigitByte = true := by
  have hpoint {b : UInt8} (hb : isDigitByte b = true) : isPoint b = false := by
    have h₁ : b ≠ 46 := isDigitByte_ne hb (by decide)
    have h₂ : b ≠ 44 := isDigitByte_ne hb (by decide)
    simp [isPoint, h₁, h₂]
  constructor
  · rintro ⟨⟨rest, rfl, hrest⟩, hne, hwhole, hfraction⟩
    obtain ⟨b, tail, rfl⟩ := exists_cons_of_ne_nil hne
    have hb : isDigitByte b = true := all_eq_true.1 hwhole b mem_cons_self
    have hsign : b ≠ 45 := isDigitByte_ne hb (by decide)
    have hsplit : splitOnce isPoint (b :: tail ++ rest) = (b :: tail, fraction) := by
      have hall : ∀ x ∈ b :: tail, (!isPoint x) = true := fun x hx => by
        rw [hpoint (all_eq_true.1 hwhole x hx), Bool.not_false]
      rw [splitOnce, takeWhile_append_of_pos hall, dropWhile_append_of_pos hall]
      rcases hrest with ⟨rfl, rfl⟩ | ⟨c, hc, rfl⟩
      · simp
      · simp [hc]
    cases negative with
    | false => exact ⟨by simp [hsign], by simpa [hsign] using hsplit, hne, hwhole, hfraction⟩
    | true => exact ⟨by simp, by simpa using hsplit, hne, hwhole, hfraction⟩
  · rintro ⟨rfl, hsplit, hne, hwhole, hfraction⟩
    refine ⟨?_, hne, hwhole, hfraction⟩
    obtain ⟨h₁, h₂⟩ := Prod.mk.inj hsplit
    generalize hbody : (if text.head? = some 45 then text.tail else text) = body at h₁ h₂
    have htext : text = (if decide (text.head? = some 45) = true then [45] else []) ++ body := by
      rcases text with _ | ⟨b, tail⟩
      · simpa using hbody.symm
      · by_cases hb : b = 45
        · simpa [hb] using hbody
        · simpa [hb] using hbody
    refine ⟨body.dropWhile (!isPoint ·), ?_, ?_⟩
    · conv_lhs => rw [htext, ← takeWhile_append_dropWhile (p := (!isPoint ·)) (l := body), h₁]
    · rcases hdrop : body.dropWhile (!isPoint ·) with _ | ⟨c, tail⟩
      · rw [hdrop] at h₂
        exact .inl ⟨rfl, h₂.symm⟩
      · have hc := head_dropWhile_not (!isPoint ·) (l := body) (by simp [hdrop])
        simp only [hdrop, head_cons, Bool.not_eq_false'] at hc
        rw [hdrop] at h₂
        exact .inr ⟨c, hc, by rw [← h₂, tail_cons]⟩

theorem EpochParts.unique {negative' : Bool} {whole' fraction' : List UInt8}
    (h : EpochParts text negative whole fraction) (h' : EpochParts text negative' whole' fraction') :
    negative = negative' ∧ whole = whole' ∧ fraction = fraction' := by
  obtain ⟨hsign, hsplit, -⟩ := epochParts_iff.1 h
  obtain ⟨hsign', hsplit', -⟩ := epochParts_iff.1 h'
  obtain ⟨h₁, h₂⟩ := Prod.mk.inj (hsplit.symm.trans hsplit')
  exact ⟨hsign.trans hsign'.symm, h₁, h₂⟩

/-! ### Machine arithmetic -/

theorem i64_ok (h : Fits64 n) : i64 n = .ok n := if_pos h

theorem i128_ok (h : Fits128 n) : i128 n = .ok n := if_pos h

theorem ok_bind {β : Type} {x : α} {f : α → Except Halt β} :
    ((Except.ok x : Except Halt α) >>= f) = f x := rfl

theorem i64_bind (h : Fits64 n) : (i64 n >>= f) = f n := by
  rw [i64_ok h]
  rfl

theorem i128_bind (h : Fits128 n) : (i128 n >>= f) = f n := by
  rw [i128_ok h]
  rfl

theorem i128_bind_overflowed (h : ¬ Fits128 n) : (i128 n >>= f) = .error .overflowed := by
  rw [i128, if_neg h]
  rfl

theorem checked64_ok {detail : Detail} (h : Fits64 n) : checked64 n detail = .ok n := if_pos h

theorem checked64_cases (n : ℤ) (detail : Detail) :
    Fits64 n ∧ checked64 n detail = .ok n ∨
      ¬ Fits64 n ∧ checked64 n detail = .error (.refused (.invalid detail)) := by
  by_cases h : Fits64 n
  · exact .inl ⟨h, if_pos h⟩
  · exact .inr ⟨h, if_neg h⟩

/-! ### Reading an epoch -/

theorem EpochUnit.scale_spec (unit : EpochUnit) :
    ∃ scale : ℕ, unit.nanosPerUnit = scale ∧ scale ∣ 10 ^ 18 ∧ 0 < scale ∧ scale ≤ 10 ^ 9 := by
  cases unit with
  | seconds => exact ⟨10 ^ 9, rfl, by decide⟩
  | milliseconds => exact ⟨10 ^ 6, rfl, by decide⟩
  | microseconds => exact ⟨10 ^ 3, rfl, by decide⟩
  | nanoseconds => exact ⟨1, rfl, by decide⟩

/-- The nanoseconds of a fraction: the digits that do not count change nothing, and what counts is
less than a unit. -/
theorem fraction_spec (unit : EpochUnit) (h : fraction.all isDigitByte = true) :
    (digitsValue (fraction.take (min fraction.length 18)) : ℤ) * unit.nanosPerUnit /
        10 ^ min fraction.length 18 =
      digitsValue fraction * unit.nanosPerUnit / 10 ^ fraction.length ∧
    0 ≤ (digitsValue (fraction.take (min fraction.length 18)) : ℤ) * unit.nanosPerUnit ∧
    (digitsValue (fraction.take (min fraction.length 18)) : ℤ) * unit.nanosPerUnit ≤ 10 ^ 27 ∧
    0 ≤ digitsValue fraction * unit.nanosPerUnit / 10 ^ fraction.length ∧
    digitsValue fraction * unit.nanosPerUnit / 10 ^ fraction.length < unit.nanosPerUnit := by
  obtain ⟨scale, hscale, hdvd, hpos, hle⟩ := unit.scale_spec
  have hkept := kept_eq h hdvd
  rw [hscale]
  refine ⟨by exact_mod_cast hkept, by positivity, ?_, by positivity, ?_⟩
  · have htake : (fraction.take (min fraction.length 18)).all isDigitByte = true :=
      all_eq_true.2 fun b hb => all_eq_true.1 h b (mem_of_mem_take hb)
    have hlt := digitsValue_lt htake
    have hlen : (fraction.take (min fraction.length 18)).length ≤ 18 := by
      rw [length_take]
      omega
    have hdigits : digitsValue (fraction.take (min fraction.length 18)) ≤ 10 ^ 18 :=
      Nat.le_trans (Nat.le_of_lt hlt) (Nat.pow_le_pow_right (by decide) hlen)
    have hmul : digitsValue (fraction.take (min fraction.length 18)) * scale ≤ 10 ^ 18 * 10 ^ 9 :=
      Nat.mul_le_mul hdigits hle
    exact_mod_cast hmul
  · have hlt := digitsValue_lt h
    have hdiv : digitsValue fraction * scale / 10 ^ fraction.length < scale := by
      rw [Nat.div_lt_iff_lt_mul (Nat.pow_pos (by decide)), Nat.mul_comm scale]
      exact (Nat.mul_lt_mul_right hpos).2 hlt
    exact_mod_cast hdiv

theorem magnitude_spec (unit : EpochUnit) (whole : List UInt8) (h : fraction.all isDigitByte = true) :
    0 ≤ (digitsValue whole : ℤ) * unit.nanosPerUnit ∧
      digitsValue whole * unit.nanosPerUnit ≤ magnitude unit whole fraction := by
  obtain ⟨scale, hscale, -⟩ := unit.scale_spec
  obtain ⟨-, -, -, hnonneg, -⟩ := fraction_spec unit h
  refine ⟨?_, ?_⟩
  · rw [hscale]
    positivity
  · rw [magnitude]
    omega

theorem addFraction_eq (h : fraction.all isDigitByte = true)
    (hfits : Fits128 (digitsValue whole * unit.nanosPerUnit)) :
    addFraction fraction unit.nanosPerUnit (digitsValue whole * unit.nanosPerUnit) =
      i128 (magnitude unit whole fraction) := by
  unfold addFraction
  split_ifs with hnone
  · have hzero : magnitude unit whole fraction = digitsValue whole * unit.nanosPerUnit := by
      rw [hnone]
      simp [magnitude, digitsValue]
    rw [hzero, i128_ok hfits]
  · obtain ⟨hkept, hlow, hhigh, -⟩ := fraction_spec unit h
    simp only
    rw [i128_bind ⟨by omega, by omega⟩, hkept]
    rfl

theorem applySign_eq (negative : Bool) (h : Fits128 (magnitude unit whole fraction))
    (hnonneg : 0 ≤ magnitude unit whole fraction) :
    applySign negative (magnitude unit whole fraction) =
      .ok (epochInstant unit negative whole fraction) := by
  have hhigh := h.2
  unfold applySign epochInstant
  split_ifs
  · exact i128_ok ⟨by omega, by omega⟩
  · rfl

/-- What `epoch_nanos` does with the parts of a number. -/
theorem epochNanos_of (h : EpochParts text negative whole fraction) :
    epochNanos text unit =
      if ¬ Fits128 (digitsValue whole) then .error (.refused (.invalid .epochRange))
      else i128 (digitsValue whole * unit.nanosPerUnit) >>= fun nanos =>
        addFraction fraction unit.nanosPerUnit nanos >>= fun nanos =>
          applySign negative nanos >>= fun nanos => checked64 nanos .nanosRange := by
  obtain ⟨rfl, hsplit, hne, hwhole, hfraction⟩ := epochParts_iff.1 h
  have hdigits : ¬ (whole = [] ∨ ¬ whole.all isDigitByte = true ∨ ¬ fraction.all isDigitByte = true) := by
    simp [hne, hwhole, hfraction]
  simp only [epochNanos, decide_eq_true_eq, hsplit, if_neg hdigits]

theorem epochNanos_none (h : ¬ ∃ negative whole fraction, EpochParts text negative whole fraction) :
    epochNanos text unit = .error (.refused (.notATime .notEpoch)) := by
  simp only [epochNanos, decide_eq_true_eq]
  rw [if_pos]
  by_contra hdigits
  simp only [not_or, not_not] at hdigits
  exact h ⟨_, _, _, epochParts_iff.2 ⟨rfl, rfl, hdigits⟩⟩

theorem epochOverflows_iff (unit : EpochUnit) (h : EpochParts text negative whole fraction) :
    EpochOverflows unit text ↔
      Fits128 (digitsValue whole) ∧ ¬ Fits128 (magnitude unit whole fraction) := by
  have hspec := magnitude_spec unit whole h.fraction
  constructor
  · rintro ⟨_, _, _, h', hlow, hhigh⟩
    obtain ⟨-, rfl, rfl⟩ := h'.unique h
    exact ⟨⟨by omega, by omega⟩, fun hfits => by have := hfits.2; omega⟩
  · rintro ⟨hlow, hhigh⟩
    refine ⟨_, _, _, h, by have := hlow.2; omega, ?_⟩
    by_contra hlt
    exact hhigh ⟨by omega, by omega⟩

/-- **A number is refused, read exactly, or overflows.** -/
theorem epochNanos_cases (text : List UInt8) (unit : EpochUnit) :
    (¬ EpochOverflows unit text ∧ ∃ refusal, epochNanos text unit = .error (.refused refusal)) ∨
      (¬ EpochOverflows unit text ∧ ∃ negative whole fraction, EpochParts text negative whole fraction ∧
        Fits64 (epochInstant unit negative whole fraction) ∧
        epochNanos text unit = .ok (epochInstant unit negative whole fraction)) ∨
      EpochOverflows unit text ∧ epochNanos text unit = .error .overflowed := by
  by_cases hparts : ∃ negative whole fraction, EpochParts text negative whole fraction
  swap
  · have hnot : ¬ EpochOverflows unit text := fun ⟨_, _, _, h, _⟩ => hparts ⟨_, _, _, h⟩
    exact .inl ⟨hnot, _, epochNanos_none hparts⟩
  obtain ⟨negative, whole, fraction, h⟩ := hparts
  have hiff := epochOverflows_iff unit h
  have hspec := magnitude_spec unit whole h.fraction
  rw [epochNanos_of h]
  by_cases hwhole : Fits128 (digitsValue whole)
  swap
  · rw [if_pos hwhole]
    exact .inl ⟨fun hover => hwhole (hiff.1 hover).1, _, rfl⟩
  rw [if_neg (not_not.2 hwhole)]
  by_cases hmagnitude : Fits128 (magnitude unit whole fraction)
  · -- no step overflows
    have hunits : Fits128 (digitsValue whole * unit.nanosPerUnit) :=
      ⟨by omega, by have := hmagnitude.2; omega⟩
    have hsigned := applySign_eq negative hmagnitude (by omega)
    have hnot : ¬ EpochOverflows unit text := fun hover => (hiff.1 hover).2 hmagnitude
    rw [i128_bind hunits, addFraction_eq h.fraction hunits, i128_bind hmagnitude, hsigned,
      ok_bind]
    rcases checked64_cases (epochInstant unit negative whole fraction) .nanosRange
      with ⟨hfits, heq⟩ | ⟨-, heq⟩
    · exact .inr (.inl ⟨hnot, negative, whole, fraction, h, hfits, heq⟩)
    · exact .inl ⟨hnot, _, heq⟩
  · refine .inr (.inr ⟨hiff.2 ⟨hwhole, hmagnitude⟩, ?_⟩)
    by_cases hunits : Fits128 (digitsValue whole * unit.nanosPerUnit)
    · rw [i128_bind hunits, addFraction_eq h.fraction hunits, i128_bind_overflowed hmagnitude]
    · rw [i128_bind_overflowed hunits]

/-! ### An inferred unit -/

theorem toNat_char (b : UInt8) : (Char.ofNat b.toNat).toNat = b.toNat := by
  have hlt : b.toNat < 256 := b.toNat_lt
  have hvalid : b.toNat.isValidChar := .inl (by omega)
  rw [Char.ofNat, dif_pos hvalid]
  rfl

theorem isDigit_char (b : UInt8) : (Char.ofNat b.toNat).isDigit = isDigitByte b := by
  have hval : (Char.ofNat b.toNat).val.toNat = b.toNat := toNat_char b
  rw [Bool.eq_iff_iff]
  simp only [Char.isDigit, isDigitByte, Bool.and_eq_true, decide_eq_true_eq, ge_iff_le,
    UInt32.le_iff_toNat_le, UInt8.le_iff_toNat_le, hval]
  exact Iff.rfl

theorem ofDigitChars_eq (bs : List UInt8) (n : ℕ) :
    Nat.ofDigitChars 10 (bs.map fun b => Char.ofNat b.toNat) n =
      bs.foldl (fun n b => 10 * n + (b.toNat - 48)) n := by
  induction bs generalizing n with
  | nil => rfl
  | cons b bs ih =>
    rw [map_cons, Nat.ofDigitChars_cons, ih, toNat_char]
    rfl

/-- A text that begins with no sign is read as an `i64` if it has digits only, and they denote
one. -/
theorem parseInt64_eq {b : UInt8} {bs : List UInt8} (hminus : b ≠ 45) (hplus : b ≠ 43)
    (hread : parseInt64 (b :: bs) = some n) :
    (b :: bs).all isDigitByte = true ∧ (digitsValue (b :: bs) : ℤ) ≤ 9223372036854775807 := by
  have hchar {c : Char} (h : b.toNat ≠ c.toNat) : Char.ofNat b.toNat ≠ c := fun heq =>
    h (by rw [← heq, toNat_char])
  have hminus' : Char.ofNat b.toNat ≠ '-' := hchar fun h => hminus (UInt8.toNat_inj.1 h)
  have hplus' : Char.ofNat b.toNat ≠ '+' := hchar fun h => hplus (UInt8.toNat_inj.1 h)
  have hread' : readSigned ((b :: bs).map fun b => Char.ofNat b.toNat) =
      (readNat ((b :: bs).map fun b => Char.ofNat b.toNat)).map fun n : ℕ => (n : ℤ) :=
    readSigned_digits hminus' hplus'
  rw [parseInt64, readInt, hread'] at hread
  have hdigits : ((b :: bs).map fun b => Char.ofNat b.toNat).all Char.isDigit =
      (b :: bs).all isDigitByte := by
    simp only [all_map, Function.comp_def, isDigit_char]
  by_cases hall : (b :: bs).all isDigitByte = true
  · refine ⟨hall, ?_⟩
    rw [readNat, if_pos ⟨by simp, hdigits ▸ hall⟩, ofDigitChars_eq, Option.map_some,
      Option.filter_some] at hread
    split_ifs at hread with hrange
    simp only [decide_eq_true_eq] at hrange
    exact hrange.2
  · rw [readNat, if_neg fun h => hall (hdigits ▸ h.2)] at hread
    cases hread

theorem inferred_isPlausible (h : inferEpochUnit text = .ok unit) :
    isPlausible text unit = true := by
  have hmem : unit ∈ EpochUnit.all.filter (isPlausible text) := by
    unfold inferEpochUnit at h
    split at h
    · rename_i found hfilter
      rw [hfilter, Except.ok.inj h]
      exact mem_singleton_self _
    · cases h
    · cases h
  exact (mem_filter.1 hmem).2

/-- A number whose unit is inferred does not overflow. -/
theorem inferred_fits (h : inferEpochUnit text = .ok unit) : ¬ EpochOverflows unit text := by
  have hunit := inferred_isPlausible h
  rintro ⟨negative, whole, fraction, hparts, -, hhigh⟩
  obtain ⟨rfl, hsplit, hne, hwhole, hfraction⟩ := epochParts_iff.1 hparts
  unfold isPlausible at hunit
  split_ifs at hunit with hsign
  rw [if_neg hsign] at hsplit
  rw [hsplit] at hunit
  split at hunit
  · rename_i n hread
    have hle : (digitsValue whole : ℤ) ≤ 9223372036854775807 := by
      obtain ⟨b, tail, rfl⟩ := exists_cons_of_ne_nil hne
      have hb : isDigitByte b = true := all_eq_true.1 hwhole b mem_cons_self
      exact (parseInt64_eq (isDigitByte_ne hb (by decide)) (isDigitByte_ne hb (by decide)) hread).2
    obtain ⟨scale, hscale, -, -, hsmall⟩ := unit.scale_spec
    obtain ⟨-, -, -, -, hlt⟩ := fraction_spec unit hfraction
    have hmul : (digitsValue whole : ℤ) * unit.nanosPerUnit ≤ 9223372036854775807 * 10 ^ 9 := by
      rw [hscale]
      exact Int.mul_le_mul hle (by exact_mod_cast hsmall) (by positivity) (by positivity)
    rw [magnitude] at hhigh
    have hscale' : unit.nanosPerUnit ≤ 10 ^ 9 := by
      rw [hscale]
      exact_mod_cast hsmall
    omega
  · cases hunit

/-- A date and time is no number: a byte that is no digit follows the digits it begins with. -/
theorem Written.byte {t : ScannedTime} (h : Written text t) :
    ∃ b tail c rest, text.takeWhile (!isPoint ·) = b :: tail ∧ text = b :: rest ∧ b ≠ 45 ∧ b ≠ 43 ∧
      c ∈ b :: tail ∧ isDigitByte c = false := by
  have hpoint {b : UInt8} (hb : isDigitByte b = true) : (!isPoint b) = true := by
    have h₁ : b ≠ 46 := isDigitByte_ne hb (by decide)
    have h₂ : b ≠ 44 := isDigitByte_ne hb (by decide)
    simp [isPoint, h₁, h₂]
  cases h with
  | dateTime hdate _ _ _ _ =>
    obtain ⟨a, b, c, d, e, f, g, i, rfl, ha, hyear, -⟩ := hdate.bytes
    have hall := hyear.all
    simp only [all_cons, all_nil, Bool.and_true, Bool.and_eq_true] at hall
    obtain ⟨ha, hb, hc, hd⟩ := hall
    have hdash : (!isPoint 45) = true := by decide
    simp only [cons_append, takeWhile_cons, hpoint ha, hpoint hb, hpoint hc, hpoint hd,
      hdash, if_true]
    exact ⟨_, _, 45, _, rfl, rfl, isDigitByte_ne ha (by decide), isDigitByte_ne ha (by decide),
      by simp, by decide⟩
  | @syslog name d clock fraction spaces month day hour minute second nanos hmonth _ _ _ _ =>
    obtain ⟨a, b, c, rfl⟩ := length_eq_three.1 (monthOf_length hmonth)
    obtain ⟨i, hi, -⟩ := Option.map_eq_some_iff.1 hmonth
    obtain ⟨hlt, hname, -⟩ := findIdx?_eq_some_iff_getElem.1 hi
    -- the names of the table are written in small letters
    have hall : (MONTH_NAMES.all fun known => known.head?.all (97 ≤ ·)) = true := by decide
    have hlow : 97 ≤ lowerByte a := by
      have hhead := all_eq_true.1 hall _ (getElem_mem hlt)
      rw [of_decide_eq_true hname] at hhead
      simpa using hhead
    have hletter : 65 ≤ a.toNat := by
      unfold lowerByte at hlow
      split_ifs at hlow with hupper
      · exact UInt8.le_iff_toNat_le.1 hupper.1
      · have : 97 ≤ a.toNat := UInt8.le_iff_toNat_le.1 hlow
        omega
    have hne (x : UInt8) (hx : x.toNat < 65) : a ≠ x := by
      rintro rfl
      omega
    have hnot : isDigitByte a = false := by
      rw [← Bool.not_eq_true]
      intro h
      simp only [isDigitByte, Bool.and_eq_true, decide_eq_true_eq] at h
      have : a.toNat ≤ 57 := UInt8.le_iff_toNat_le.1 h.2
      omega
    have hmark : (!isPoint a) = true := by
      simp [isPoint, hne 46 (by decide), hne 44 (by decide)]
    simp only [cons_append, takeWhile_cons, hmark, if_true]
    exact ⟨a, _, a, _, rfl, rfl, hne 45 (by decide), hne 43 (by decide), mem_cons_self, hnot⟩

theorem Written.not_parts {t : ScannedTime} (h : Written text t) :
    ¬ EpochParts text negative whole fraction := by
  intro hparts
  obtain ⟨b, tail, c, rest, htake, rfl, hminus, -, hc, hnot⟩ := h.byte
  obtain ⟨-, hsplit, -, hwhole, -⟩ := epochParts_iff.1 hparts
  have hsign : (b :: rest).head? ≠ some 45 := by simpa using hminus
  rw [if_neg hsign, splitOnce, htake] at hsplit
  rw [← (Prod.mk.inj hsplit).1] at hwhole
  rw [all_eq_true.1 hwhole c hc] at hnot
  cases hnot

end Lvu.Time
