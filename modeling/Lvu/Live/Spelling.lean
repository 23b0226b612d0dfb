import Lvu.Live.Reading

/-!
# How times are written

The texts of a date and time, as relations between a text and its fields, and what the scanners
have to do with them.

* `scanDatetime_text`, `scanSyslog_text` : what a scanner consumes is a text of the fields it finds.
* `Written.scan` : a text is scanned whole, and its fields are found.
-/

namespace Lvu.Time

open List

/-! ### Digits -/

/-- So many digits, and the number they denote. -/
structure Digits (len : ℕ) (part : List UInt8) (n : ℕ) : Prop where
  length : part.length = len
  all : part.all isDigitByte = true
  value : digitsValue part = n

variable {bs part text : List UInt8} {start len n nanos taken month hour minute second day : ℕ}
  {c : UInt8} {t : ScannedTime}

theorem digits_eq_some :
    digits bs start len = some n ↔ Digits len ((bs.drop start).take len) n := by
  simp only [digits]
  constructor
  · intro h
    split_ifs at h with hslice
    exact ⟨hslice.1, hslice.2, Option.some.inj h⟩
  · intro h
    rw [if_pos ⟨h.length, h.all⟩, h.value]

theorem Digits.scan (h : Digits len part n) (hpart : (bs.drop start).take len = part) :
    digits bs start len = some n :=
  digits_eq_some.2 (hpart.symm ▸ h)

theorem Digits.two (h : Digits 2 part n) :
    ∃ a b, part = [a, b] ∧ isDigitByte a = true ∧ isDigitByte b = true := by
  obtain ⟨a, b, rfl⟩ := length_eq_two.1 h.length
  have hall := h.all
  simp only [all_cons, all_nil, Bool.and_true, Bool.and_eq_true] at hall
  exact ⟨a, b, rfl, hall⟩

theorem Digits.four (h : Digits 4 part n) :
    ∃ a b c d, part = [a, b, c, d] ∧ isDigitByte a = true := by
  rcases part with _ | ⟨a, rest⟩
  · exact absurd h.length (by simp)
  · have hlen : rest.length = 3 := Nat.succ_injective h.length
    obtain ⟨b, c, d, rfl⟩ := length_eq_three.1 hlen
    have hall := h.all
    simp only [all_cons, Bool.and_eq_true] at hall
    exact ⟨a, b, c, d, rfl, hall.1⟩

theorem drop_digits (h : digits bs start len = some n) :
    ∃ part, Digits len part n ∧ bs.drop start = part ++ bs.drop (start + len) :=
  ⟨_, digits_eq_some.1 h, by rw [← drop_drop, take_append_drop]⟩

theorem drop_byte {i : ℕ} (h : bs[i]? = some c) : bs.drop i = c :: bs.drop (i + 1) := by
  obtain ⟨hi, hc⟩ := List.getElem?_eq_some_iff.1 h
  rw [drop_eq_getElem_cons hi, hc]

theorem isDigitByte_ne {b : UInt8} (hb : isDigitByte b = true) (hc : isDigitByte c = false) :
    b ≠ c := by
  rintro rfl
  rw [hb] at hc
  cases hc

/-! ### The fraction of a second -/

/-- The fraction of a second, and the whole nanoseconds in it. -/
inductive FractionText (point : UInt8 → Bool) : List UInt8 → ℕ → Prop
  | absent : FractionText point [] 0
  | present {c : UInt8} {fraction : List UInt8} (hpoint : point c = true) (hne : fraction ≠ [])
      (hdigits : fraction.all isDigitByte = true) :
      FractionText point (c :: fraction)
        (digitsValue fraction * 10 ^ 9 / 10 ^ fraction.length)

theorem digitsValue_append (as bs : List UInt8) :
    digitsValue (as ++ bs) = digitsValue as * 10 ^ bs.length + digitsValue bs := by
  induction bs using List.reverseRecOn with
  | nil => simp [digitsValue]
  | append_singleton bs b ih =>
    have hsnoc (cs : List UInt8) :
        digitsValue (cs ++ [b]) = 10 * digitsValue cs + (b.toNat - 48) := by
      simp [digitsValue]
    rw [← append_assoc, hsnoc, hsnoc, ih, length_append, length_singleton, pow_succ,
      Nat.mul_add, ← Nat.mul_assoc, ← Nat.mul_assoc, Nat.mul_comm 10, Nat.mul_right_comm,
      Nat.add_assoc]

theorem digitsValue_zeros (n : ℕ) : digitsValue (List.replicate n 48) = 0 := by
  induction n with
  | zero => rfl
  | succ n ih =>
    have hone : digitsValue [48] = 0 := by decide
    rw [replicate_succ', digitsValue_append, ih, hone, Nat.zero_mul]

theorem digitsValue_lt (h : bs.all isDigitByte = true) : digitsValue bs < 10 ^ bs.length := by
  induction bs using List.reverseRecOn with
  | nil => simp [digitsValue]
  | append_singleton bs b ih =>
    simp only [all_append, all_cons, all_nil, Bool.and_true, Bool.and_eq_true] at h
    have hb : b.toNat ≤ 57 := by
      have := h.2
      simp only [isDigitByte, Bool.and_eq_true, decide_eq_true_eq] at this
      exact UInt8.le_iff_toNat_le.1 this.2
    have hone : digitsValue [b] = b.toNat - 48 := by simp [digitsValue]
    have := ih h.1
    rw [digitsValue_append, hone, length_append, length_singleton, pow_one, pow_succ]
    omega

theorem digitsValue_take (h : bs.all isDigitByte = true) (k : ℕ) :
    digitsValue (bs.take k) = digitsValue bs / 10 ^ (bs.length - k) := by
  have hrest : (bs.drop k).all isDigitByte = true :=
    all_eq_true.2 fun b hb => all_eq_true.1 h b (mem_of_mem_drop hb)
  have hlow := digitsValue_lt hrest
  have hsplit : digitsValue bs =
      digitsValue (bs.drop k) + digitsValue (bs.take k) * 10 ^ (bs.drop k).length := by
    conv_lhs => rw [← take_append_drop k bs]
    rw [digitsValue_append, Nat.add_comm]
  rw [← length_drop, hsplit, Nat.add_mul_div_right _ _ (Nat.pow_pos (by decide)),
    Nat.div_eq_of_lt hlow, Nat.zero_add]

/-- Digits that are too small to count may be cut. -/
theorem kept_eq (h : bs.all isDigitByte = true) {k scale : ℕ} (hscale : scale ∣ 10 ^ k) :
    digitsValue (bs.take (min bs.length k)) * scale / 10 ^ min bs.length k =
      digitsValue bs * scale / 10 ^ bs.length := by
  rcases Nat.le_total bs.length k with hk | hk
  · rw [Nat.min_eq_left hk, take_length]
  · obtain ⟨m, hm⟩ := hscale
    have hpos : 0 < scale := by
      have : 0 < scale * m := hm ▸ Nat.pow_pos (by decide)
      exact Nat.pos_of_mul_pos_right this
    have hwhole : 10 ^ bs.length = 10 ^ (bs.length - k) * m * scale := by
      rw [Nat.mul_assoc, Nat.mul_comm m, ← hm, ← Nat.pow_add, Nat.sub_add_cancel hk]
    rw [Nat.min_eq_right hk, digitsValue_take h, hm, hwhole, Nat.mul_comm scale m,
      Nat.mul_div_mul_right _ _ hpos, Nat.mul_div_mul_right _ _ hpos, Nat.div_div_eq_div_mul]

theorem nineDigits_eq {fraction : List UInt8} (h : fraction.all isDigitByte = true) :
    nineDigits fraction = digitsValue fraction * 10 ^ 9 / 10 ^ fraction.length := by
  rw [← kept_eq h (k := 9) (dvd_refl _), nineDigits, digitsValue_append, digitsValue_zeros,
    length_replicate, Nat.add_zero]
  rcases Nat.le_total fraction.length 9 with hk | hk
  · rw [Nat.min_eq_left hk, take_length, take_of_length_le hk,
      Nat.mul_div_assoc _ (Nat.pow_dvd_pow 10 hk), Nat.pow_div hk (by decide)]
  · rw [Nat.min_eq_right hk, Nat.sub_eq_zero_of_le hk, pow_zero, Nat.mul_one,
      Nat.mul_div_cancel _ (Nat.pow_pos (by decide))]

theorem takeWhile_run {digits rest : List UInt8} (h : digits.all isDigitByte = true)
    (hrest : ∀ b, rest.head? = some b → isDigitByte b = false) :
    (digits ++ rest).takeWhile isDigitByte = digits := by
  rw [takeWhile_append_of_pos (all_eq_true.1 h)]
  rcases rest with _ | ⟨b, rest⟩
  · simp
  · rw [takeWhile_cons_of_neg (by simp [hrest b rfl]), append_nil]

/-- What is found as the fraction is a text of it. -/
theorem scanFraction_text (h : scanFraction bs = some (nanos, taken)) :
    ∃ text, FractionText isPoint text nanos ∧ text.length = taken ∧ bs = text ++ bs.drop taken := by
  rcases bs with _ | ⟨c, rest⟩
  · cases h
    exact ⟨[], .absent, rfl, rfl⟩
  · simp only [scanFraction] at h
    split_ifs at h with hpoint hnone
    · cases h
      have hdigits : (rest.takeWhile isDigitByte).all isDigitByte = true :=
        all_eq_true.2 fun b hb => mem_takeWhile_imp hb
      refine ⟨c :: rest.takeWhile isDigitByte, ?_, length_cons, ?_⟩
      · rw [nineDigits_eq hdigits]
        exact .present hpoint hnone hdigits
      · rw [drop_succ_cons, cons_append]
        congr 1
        exact (prefix_iff_eq_append.1 (List.takeWhile_prefix isDigitByte)).symm
    · cases h
      exact ⟨[], .absent, rfl, rfl⟩

theorem FractionText.scan {rest : List UInt8} (h : FractionText isPoint text nanos)
    (hrest : ∀ b, rest.head? = some b → isDigitByte b = false ∧ isPoint b = false) :
    scanFraction (text ++ rest) = some (nanos, text.length) := by
  cases h with
  | absent =>
    rcases rest with _ | ⟨b, rest⟩
    · rfl
    · simp [scanFraction, (hrest b rfl).2]
  | @present c fraction hpoint hne hdigits =>
    have hrun := takeWhile_run hdigits fun b hb => (hrest b hb).1
    simp only [cons_append, scanFraction, hrun, if_pos hpoint, if_neg hne,
      nineDigits_eq hdigits, length_cons]

/-- The same with a `.` only, and an end that a point may follow. -/
theorem scanSyslogFraction_text (bs : List UInt8) :
    ∃ text, FractionText (· = 46) text (scanSyslogFraction bs).1 ∧
      text.length = (scanSyslogFraction bs).2 ∧ bs = text ++ bs.drop (scanSyslogFraction bs).2 := by
  unfold scanSyslogFraction
  split
  · rename_i rest
    by_cases hnone : rest.takeWhile isDigitByte = []
    · simp only [hnone, if_true]
      exact ⟨[], .absent, rfl, rfl⟩
    · have hdigits : (rest.takeWhile isDigitByte).all isDigitByte = true := all_takeWhile
      simp only [if_neg hnone]
      refine ⟨46 :: rest.takeWhile isDigitByte, ?_, length_cons, ?_⟩
      · rw [nineDigits_eq hdigits]
        exact .present (by decide) hnone hdigits
      · rw [drop_succ_cons, cons_append]
        congr 1
        exact (prefix_iff_eq_append.1 (List.takeWhile_prefix isDigitByte)).symm
  · exact ⟨[], .absent, rfl, rfl⟩

theorem FractionText.scanSyslog (h : FractionText (· = 46) text nanos) :
    scanSyslogFraction text = (nanos, text.length) := by
  cases h with
  | absent => rfl
  | @present c fraction hpoint hne hdigits =>
    obtain rfl : c = 46 := by simpa using hpoint
    have hrun : fraction.takeWhile isDigitByte = fraction := by
      have := @takeWhile_run fraction [] hdigits (by simp)
      rwa [append_nil] at this
    simp only [scanSyslogFraction, hrun, if_neg hne, nineDigits_eq hdigits, length_cons]

/-! ### The offset -/

/-- The sign of an offset. -/
inductive SignText : UInt8 → ℤ → Prop
  | plus : SignText 43 1
  | minus : SignText 45 (-1)

/-- An offset, and the seconds in it. -/
inductive OffsetText : List UInt8 → ℤ → Prop
  | utc {c : UInt8} (hc : c = 90 ∨ c = 122) : OffsetText [c] 0
  | hours {c : UInt8} {sign : ℤ} {h : List UInt8} {hours : ℕ} (hsign : SignText c sign)
      (hhours : Digits 2 h hours) (hh : hours ≤ 23) :
      OffsetText (c :: h) (sign * (hours * 3600))
  | joined {c : UInt8} {sign : ℤ} {h m : List UInt8} {hours minutes : ℕ} (hsign : SignText c sign)
      (hhours : Digits 2 h hours) (hh : hours ≤ 23) (hminutes : Digits 2 m minutes)
      (hm : minutes ≤ 59) : OffsetText (c :: (h ++ m)) (sign * (hours * 3600 + minutes * 60))
  | apart {c : UInt8} {sign : ℤ} {h m : List UInt8} {hours minutes : ℕ} (hsign : SignText c sign)
      (hhours : Digits 2 h hours) (hh : hours ≤ 23) (hminutes : Digits 2 m minutes)
      (hm : minutes ≤ 59) : OffsetText (c :: (h ++ 58 :: m)) (sign * (hours * 3600 + minutes * 60))

theorem SignText.of_eq (h : c = 43 ∨ c = 45) : SignText c (if c = 43 then 1 else -1) := by
  rcases h with rfl | rfl
  · exact .plus
  · exact .minus

theorem SignText.cases {c : UInt8} {sign : ℤ} (h : SignText c sign) :
    (c = 43 ∨ c = 45) ∧ ¬ (c = 90 ∨ c = 122) ∧ (if c = 43 then (1 : ℤ) else -1) = sign := by
  cases h with
  | plus => decide
  | minus => decide

/-- What is found as the offset is a text of it. -/
theorem scanOffset_text {offset : ℤ} (h : scanOffset bs = some (offset, taken)) :
    ∃ text, OffsetText text offset ∧ text.length = taken ∧ bs = text ++ bs.drop taken := by
  rcases bs with _ | ⟨c, rest⟩
  · cases h
  · simp only [scanOffset] at h
    by_cases hutc : c = 90 ∨ c = 122
    · rw [if_pos hutc] at h
      cases h
      exact ⟨[c], .utc hutc, rfl, rfl⟩
    by_cases hsign : c = 43 ∨ c = 45
    · obtain ⟨sign, hsigned, hvalue⟩ :
          ∃ sign, SignText c sign ∧ (if c = 43 then (1 : ℤ) else -1) = sign :=
        ⟨_, .of_eq hsign, rfl⟩
      rw [if_neg hutc, if_pos hsign, hvalue] at h
      simp only [Option.bind_eq_bind, Option.bind_eq_some_iff] at h
      obtain ⟨hours, hhours, ⟨minutes, taken'⟩, hminutes, h⟩ := h
      obtain ⟨hpart, hdigits, hdrop⟩ := drop_digits hhours
      simp only [drop_succ_cons, drop_zero] at hdrop
      simp only at h
      split_ifs at h with hrange
      cases h
      have hh : hours ≤ 23 := by omega
      have hm : minutes ≤ 59 := by omega
      -- two digits after a colon, two digits at once, or none
      unfold offsetMinutes at hminutes
      split_ifs at hminutes with hcolon
      · obtain ⟨minutes, hfound, heq⟩ := Option.map_eq_some_iff.1 hminutes
        obtain ⟨rfl, rfl⟩ := Prod.mk.inj heq
        obtain ⟨mpart, hmdigits, hmdrop⟩ := drop_digits hfound
        have hbyte := drop_byte hcolon
        simp only [drop_succ_cons] at hbyte hmdrop
        refine ⟨c :: (hpart ++ 58 :: mpart), .apart hsigned hdigits hh hmdigits hm, ?_, ?_⟩
        · simp [hdigits.length, hmdigits.length]
        · conv_lhs => rw [hdrop, hbyte, hmdrop]
          simp
      · split at hminutes
        · rename_i minutes' hfound
          cases hminutes
          obtain ⟨mpart, hmdigits, hmdrop⟩ := drop_digits hfound
          simp only [drop_succ_cons] at hmdrop
          refine ⟨c :: (hpart ++ mpart), .joined hsigned hdigits hh hmdigits hm, ?_, ?_⟩
          · simp [hdigits.length, hmdigits.length]
          · conv_lhs => rw [hdrop, hmdrop]
            simp
        · cases hminutes
          refine ⟨c :: hpart, ?_, ?_, ?_⟩
          · have := OffsetText.hours hsigned hdigits hh
            simpa using this
          · simp [hdigits.length]
          · conv_lhs => rw [hdrop]
            simp
    · rw [if_neg hutc, if_neg hsign] at h
      cases h

/-- A text of an offset is found. -/
theorem OffsetText.scan {offset : ℤ} (h : OffsetText text offset) :
    scanOffset text = some (offset, text.length) := by
  cases h with
  | utc hc => simp [scanOffset, hc]
  | @hours c sign h hours hsign hhours hh =>
    obtain ⟨a, b, rfl, ha, hb⟩ := hhours.two
    obtain ⟨hc, hnot, hvalue⟩ := hsign.cases
    have hdigits : digits (c :: [a, b]) 1 2 = some hours := hhours.scan rfl
    have hminutes : offsetMinutes (c :: [a, b]) = some (0, 3) := by
      simp [offsetMinutes, digits]
    simp only [scanOffset, if_neg hnot, if_pos hc, hdigits, hminutes, Option.bind_eq_bind,
      Option.bind_some, hvalue]
    rw [if_neg (by omega)]
    simp
  | @joined c sign h m hours minutes hsign hhours hh hminutes hm =>
    obtain ⟨a, b, rfl, ha, hb⟩ := hhours.two
    obtain ⟨d, e, rfl, hd, he⟩ := hminutes.two
    obtain ⟨hc, hnot, hvalue⟩ := hsign.cases
    have hdigits : digits (c :: ([a, b] ++ [d, e])) 1 2 = some hours := hhours.scan rfl
    have hrest : digits (c :: ([a, b] ++ [d, e])) 3 2 = some minutes := hminutes.scan rfl
    have hcolon : (c :: ([a, b] ++ [d, e]))[3]? ≠ some 58 := by
      simpa using isDigitByte_ne hd (by decide)
    have hfound : offsetMinutes (c :: ([a, b] ++ [d, e])) = some (minutes, 5) := by
      rw [offsetMinutes, if_neg hcolon, hrest]
    simp only [scanOffset, if_neg hnot, if_pos hc, hdigits, hfound, Option.bind_eq_bind,
      Option.bind_some, hvalue]
    rw [if_neg (by omega)]
    rfl
  | @apart c sign h m hours minutes hsign hhours hh hminutes hm =>
    obtain ⟨a, b, rfl, ha, hb⟩ := hhours.two
    obtain ⟨d, e, rfl, hd, he⟩ := hminutes.two
    obtain ⟨hc, hnot, hvalue⟩ := hsign.cases
    have hdigits : digits (c :: ([a, b] ++ 58 :: [d, e])) 1 2 = some hours := hhours.scan rfl
    have hrest : digits (c :: ([a, b] ++ 58 :: [d, e])) 4 2 = some minutes := hminutes.scan rfl
    have hfound : offsetMinutes (c :: ([a, b] ++ 58 :: [d, e])) = some (minutes, 6) := by
      have hcolon : (c :: ([a, b] ++ 58 :: [d, e]))[3]? = some 58 := rfl
      rw [offsetMinutes, if_pos hcolon, hrest, Option.map_some]
    simp only [scanOffset, if_neg hnot, if_pos hc, hdigits, hfound, Option.bind_eq_bind,
      Option.bind_some, hvalue]
    rw [if_neg (by omega)]
    rfl

/-! ### The month -/

theorem monthOf_length {name : List UInt8} (h : monthOf name = some month) : name.length = 3 := by
  obtain ⟨i, hi, -⟩ := Option.map_eq_some_iff.1 h
  obtain ⟨hlt, hname, -⟩ := findIdx?_eq_some_iff_getElem.1 hi
  have hall : ∀ known ∈ MONTH_NAMES, known.length = 3 := by decide
  have hlen := hall _ (getElem_mem hlt)
  rwa [of_decide_eq_true hname, length_map] at hlen

/-! ### Dates and times -/

/-- The offset of a date and time, if it has one. -/
inductive ZoneText : List UInt8 → Option ℤ → Prop
  | absent : ZoneText [] none
  | present {text : List UInt8} {offset : ℤ} (h : OffsetText text offset) :
      ZoneText text (some offset)

/-- `YYYY-MM-DD`. -/
inductive DateText : List UInt8 → ℕ → ℕ → ℕ → Prop
  | intro {y m d : List UInt8} {year month day : ℕ} (hyear : Digits 4 y year)
      (hmonth : Digits 2 m month) (hday : Digits 2 d day) :
      DateText (y ++ 45 :: (m ++ 45 :: d)) year month day

/-- `HH:MM:SS`. -/
inductive ClockText : List UInt8 → ℕ → ℕ → ℕ → Prop
  | intro {h m s : List UInt8} {hour minute second : ℕ} (hhour : Digits 2 h hour)
      (hminute : Digits 2 m minute) (hsecond : Digits 2 s second) :
      ClockText (h ++ 58 :: (m ++ 58 :: s)) hour minute second

/-- A date and time, and its fields: `YYYY-MM-DD HH:MM:SS` with a fraction and an offset, or
`Mmm D HH:MM:SS` with a fraction. -/
inductive Written : List UInt8 → ScannedTime → Prop
  | dateTime {date clock fraction zone : List UInt8} {c : UInt8}
      {year month day hour minute second nanos : ℕ} {offset : Option ℤ}
      (hdate : DateText date year month day) (hc : c = 84 ∨ c = 116 ∨ c = 32)
      (hclock : ClockText clock hour minute second) (hfraction : FractionText isPoint fraction nanos)
      (hzone : ZoneText zone offset) :
      Written (date ++ c :: (clock ++ (fraction ++ zone)))
        ⟨some year, month, day, hour, minute, second, nanos, offset,
          if offset.isSome then .offsetDateTime else .naiveDateTime⟩
  | syslog {name d clock fraction : List UInt8} {spaces month day hour minute second nanos : ℕ}
      (hmonth : monthOf name = some month) (hspaces : 1 ≤ spaces ∧ spaces ≤ 2)
      (hday : Digits 2 d day ∨ Digits 1 d day) (hclock : ClockText clock hour minute second)
      (hfraction : FractionText (· = 46) fraction nanos) :
      Written (name ++ (List.replicate spaces 32 ++ (d ++ 32 :: (clock ++ fraction))))
        ⟨none, month, day, hour, minute, second, nanos, none, .syslogDateTime⟩

theorem clock_text {k : ℕ} (hhour : digits bs k 2 = some hour) (hcolon : bs[k + 2]? = some 58)
    (hminute : digits bs (k + 3) 2 = some minute) (hcolon' : bs[k + 5]? = some 58)
    (hsecond : digits bs (k + 6) 2 = some second) :
    ∃ text, ClockText text hour minute second ∧ bs.drop k = text ++ bs.drop (k + 8) := by
  obtain ⟨h, hh, hdrop⟩ := drop_digits hhour
  obtain ⟨m, hm, hdrop'⟩ := drop_digits hminute
  obtain ⟨s, hs, hdrop''⟩ := drop_digits hsecond
  refine ⟨_, .intro hh hm hs, ?_⟩
  rw [hdrop, drop_byte hcolon, hdrop', drop_byte hcolon', hdrop'']
  simp

theorem date_text {year : ℕ} (hyear : digits bs 0 4 = some year) (hdash : bs[4]? = some 45)
    (hmonth : digits bs 5 2 = some month) (hdash' : bs[7]? = some 45)
    (hday : digits bs 8 2 = some day) :
    ∃ text, DateText text year month day ∧ bs = text ++ bs.drop 10 := by
  obtain ⟨y, hy, hdrop⟩ := drop_digits hyear
  obtain ⟨m, hm, hdrop'⟩ := drop_digits hmonth
  obtain ⟨d, hd, hdrop''⟩ := drop_digits hday
  refine ⟨_, .intro hy hm hd, ?_⟩
  rw [drop_zero] at hdrop
  conv_lhs => rw [hdrop, drop_byte hdash, hdrop', drop_byte hdash', hdrop'']
  simp

theorem ClockText.bytes (h : ClockText text hour minute second) :
    ∃ a b c d e f, text = [a, b, 58, c, d, 58, e, f] ∧ Digits 2 [a, b] hour ∧
      Digits 2 [c, d] minute ∧ Digits 2 [e, f] second := by
  cases h with
  | intro hh hm hs =>
    obtain ⟨a, b, rfl, -, -⟩ := hh.two
    obtain ⟨c, d, rfl, -, -⟩ := hm.two
    obtain ⟨e, f, rfl, -, -⟩ := hs.two
    exact ⟨a, b, c, d, e, f, rfl, hh, hm, hs⟩

theorem DateText.bytes {year : ℕ} (h : DateText text year month day) :
    ∃ a b c d e f g i, text = [a, b, c, d, 45, e, f, 45, g, i] ∧ isDigitByte a = true ∧
      Digits 4 [a, b, c, d] year ∧ Digits 2 [e, f] month ∧ Digits 2 [g, i] day := by
  cases h with
  | intro hy hm hd =>
    obtain ⟨a, b, c, d, rfl, ha⟩ := hy.four
    obtain ⟨e, f, rfl, -, -⟩ := hm.two
    obtain ⟨g, i, rfl, -, -⟩ := hd.two
    exact ⟨a, b, c, d, e, f, g, i, rfl, ha, hy, hm, hd⟩

/-- **What `scan_datetime` consumes is a text of the fields it finds.** -/
theorem scanDatetime_text (h : scanDatetime bs = some (t, taken)) :
    ∃ text, Written text t ∧ text.length = taken ∧ bs = text ++ bs.drop taken := by
  unfold scanDatetime at h
  split_ifs at h with hdashes hcolons
  simp only [not_or, not_not] at hdashes
  obtain ⟨-, hdash, hdash'⟩ := hdashes
  have hsep := not_not.1 fun h => hcolons (.inl h)
  have hcolon := not_not.1 fun h => hcolons (.inr (.inl h))
  have hcolon' := not_not.1 fun h => hcolons (.inr (.inr h))
  simp only [Option.bind_eq_bind, Option.bind_eq_some_iff] at h
  obtain ⟨year, hyear, month, hmonth, day, hday, hour, hhour, minute, hminute, second, hsecond,
    ⟨nanos, width⟩, hfound, h⟩ := h
  obtain ⟨date, hdate, hbs⟩ := date_text hyear hdash hmonth hdash' hday
  obtain ⟨clock, hclock, hbs₁⟩ := clock_text hhour hcolon hminute hcolon' hsecond
  obtain ⟨fraction, hfraction, rfl, hbs₂⟩ := scanFraction_text hfound
  rw [drop_drop] at hbs₂
  obtain ⟨c, hc, hbyte⟩ : ∃ c : UInt8, (c = 84 ∨ c = 116 ∨ c = 32) ∧ bs[10]? = some c := by
    rcases hsep with h | h | h
    · exact ⟨_, .inl rfl, h⟩
    · exact ⟨_, .inr (.inl rfl), h⟩
    · exact ⟨_, .inr (.inr rfl), h⟩
  have hlen : (date ++ c :: clock).length = 19 := by
    obtain ⟨_, _, _, _, _, _, _, _, rfl, -⟩ := hdate.bytes
    obtain ⟨_, _, _, _, _, _, rfl, -⟩ := hclock.bytes
    rfl
  have hbs₃ : bs = date ++ c :: clock ++ (fraction ++ bs.drop (19 + fraction.length)) := by
    conv_lhs => rw [hbs, drop_byte hbyte, hbs₁, hbs₂]
    simp
  obtain ⟨zone, offset, hzone, htaken, hbs₄, ht⟩ : ∃ zone offset, ZoneText zone offset ∧
      19 + fraction.length + zone.length = taken ∧
      bs.drop (19 + fraction.length) = zone ++ bs.drop taken ∧
      t = ⟨some year, month, day, hour, minute, second, nanos, offset,
        if offset.isSome then .offsetDateTime else .naiveDateTime⟩ := by
    cases hoffset : scanOffset (bs.drop (19 + fraction.length)) with
    | none =>
      simp only [hoffset] at h
      cases h
      exact ⟨[], none, .absent, rfl, rfl, rfl⟩
    | some found =>
      obtain ⟨offset, width⟩ := found
      simp only [hoffset] at h
      cases h
      obtain ⟨zone, hzone, rfl, hrest⟩ := scanOffset_text hoffset
      rw [drop_drop] at hrest
      exact ⟨zone, some offset, .present hzone, rfl, hrest, rfl⟩
  refine ⟨date ++ c :: (clock ++ (fraction ++ zone)), ht ▸ .dateTime hdate hc hclock hfraction hzone,
    ?_, ?_⟩
  · rw [← htaken, ← hlen]
    simp only [length_append, length_cons]
    omega
  · conv_lhs => rw [hbs₃, hbs₄]
    simp

theorem scanDay_text {width : ℕ} (h : scanDay bs = some (day, width)) :
    ∃ text, (Digits 2 text day ∨ Digits 1 text day) ∧ text.length = width ∧
      bs = text ++ bs.drop width := by
  unfold scanDay at h
  split at h
  · rename_i found hfound
    cases h
    obtain ⟨text, htext, hdrop⟩ := drop_digits hfound
    exact ⟨text, .inl htext, htext.length, by simpa using hdrop⟩
  · obtain ⟨found, hfound, heq⟩ := Option.map_eq_some_iff.1 h
    obtain ⟨rfl, rfl⟩ := Prod.mk.inj heq
    obtain ⟨text, htext, hdrop⟩ := drop_digits hfound
    exact ⟨text, .inr htext, htext.length, by simpa using hdrop⟩

theorem blanks_text (bs : List UInt8) :
    bs = List.replicate (bs.takeWhile (· = 32)).length 32 ++
      bs.drop (bs.takeWhile (· = 32)).length := by
  have hblanks : List.replicate (bs.takeWhile (· = 32)).length 32 = bs.takeWhile (· = 32) :=
    (eq_replicate_of_mem fun b hb => by simpa using mem_takeWhile_imp hb).symm
  rw [hblanks]
  exact (prefix_iff_eq_append.1 (List.takeWhile_prefix _)).symm

/-- **What `scan_syslog` consumes is a text of the fields it finds.** -/
theorem scanSyslog_text (h : scanSyslog bs = some (t, taken)) :
    ∃ text, Written text t ∧ text.length = taken ∧ bs = text ++ bs.drop taken := by
  simp only [scanSyslog, Option.bind_eq_bind, Option.bind_eq_some_iff] at h
  obtain ⟨month, hmonth, h⟩ := h
  split at h
  · cases h
  rename_i hspaces
  simp only [Option.bind_eq_some_iff] at h
  obtain ⟨⟨day, width⟩, hday, h⟩ := h
  split at h
  · cases h
  rename_i hblank
  simp only [Option.bind_eq_some_iff] at h
  obtain ⟨hour, hhour, h⟩ := h
  split at h
  · cases h
  rename_i hcolons
  simp only [Option.bind_eq_some_iff] at h
  obtain ⟨minute, hminute, second, hsecond, h⟩ := h
  cases h
  have hcolon := not_not.1 fun h => hcolons (.inl h)
  have hcolon' := not_not.1 fun h => hcolons (.inr h)
  have hsplit := blanks_text (bs.drop 3)
  generalize ((bs.drop 3).takeWhile (· = 32)).length = spaces at *
  obtain ⟨d, hd, rfl, hbs⟩ := scanDay_text hday
  have hbyte := drop_byte (not_not.1 hblank)
  obtain ⟨clock, hclock, hbs₁⟩ := clock_text hhour hcolon hminute hcolon' hsecond
  obtain ⟨fraction, hfraction, hlen, hbs₂⟩ := scanSyslogFraction_text
    ((bs.drop (3 + spaces + d.length + 1)).drop 8)
  have hwhole : bs = bs.take 3 ++ (List.replicate spaces 32 ++ (d ++ 32 :: (clock ++ (fraction ++
      bs.drop (3 + spaces + d.length + 9 + fraction.length))))) := by
    rw [drop_drop] at hsplit hbs
    rw [drop_zero, Nat.zero_add] at hbs₁
    rw [← hlen] at hbs₂
    have hplace : 3 + spaces + d.length + 1 + (8 + fraction.length) =
        3 + spaces + d.length + 9 + fraction.length := by omega
    conv_lhs =>
      rw [← take_append_drop 3 bs, hsplit, hbs, hbyte, hbs₁, hbs₂, drop_drop,
        drop_drop, hplace]
  have hname : (bs.take 3).length = 3 := monthOf_length hmonth
  refine ⟨_, .syslog hmonth (not_not.1 hspaces) hd hclock hfraction, ?_, ?_⟩
  · obtain ⟨_, _, _, _, _, _, rfl, -⟩ := hclock.bytes
    simp only [length_append, length_cons, length_replicate, length_nil, hname,
      hlen]
    omega
  · conv_lhs => rw [hwhole]
    rw [hlen]
    simp

/-! ### Texts are scanned whole -/

theorem ZoneText.scan {offset : Option ℤ} (h : ZoneText text offset) :
    (∀ b, text.head? = some b → isDigitByte b = false ∧ isPoint b = false) ∧
      scanOffset text = offset.map fun offset => (offset, text.length) := by
  cases h with
  | absent => exact ⟨by simp, rfl⟩
  | present h =>
    refine ⟨fun b hb => ?_, h.scan⟩
    obtain ⟨c, rest, rfl, hc⟩ : ∃ c rest, text = c :: rest ∧
        (isDigitByte c = false ∧ isPoint c = false) := by
      cases h with
      | utc hc =>
        refine ⟨_, _, rfl, ?_⟩
        rcases hc with rfl | rfl <;> decide
      | hours hsign _ _ | joined hsign _ _ _ _ | apart hsign _ _ _ _ =>
        exact ⟨_, _, rfl, by cases hsign <;> decide⟩
    cases hb
    exact hc

/-- What `scan_datetime` finds, from what stands where. -/
theorem scanDatetime_of {bs : List UInt8} {year month day hour minute second nanos width zone : ℕ}
    {offset : Option ℤ} (hlen : 19 ≤ bs.length) (hdash : bs[4]? = some 45)
    (hdash' : bs[7]? = some 45)
    (hsep : bs[10]? = some 84 ∨ bs[10]? = some 116 ∨ bs[10]? = some 32) (hcolon : bs[13]? = some 58)
    (hcolon' : bs[16]? = some 58) (hyear : digits bs 0 4 = some year)
    (hmonth : digits bs 5 2 = some month) (hday : digits bs 8 2 = some day)
    (hhour : digits bs 11 2 = some hour) (hminute : digits bs 14 2 = some minute)
    (hsecond : digits bs 17 2 = some second)
    (hfraction : scanFraction (bs.drop 19) = some (nanos, width))
    (hoffset : scanOffset (bs.drop (19 + width)) = offset.map fun offset => (offset, zone))
    (hzone : offset = none → zone = 0) :
    scanDatetime bs = some (⟨some year, month, day, hour, minute, second, nanos, offset,
      if offset.isSome then .offsetDateTime else .naiveDateTime⟩, 19 + width + zone) := by
  have hdashes : ¬ (bs.length < 19 ∨ bs[4]? ≠ some 45 ∨ bs[7]? ≠ some 45) := by
    simp [hdash, hdash', hlen]
  have hcolons : ¬ (¬ (bs[10]? = some 84 ∨ bs[10]? = some 116 ∨ bs[10]? = some 32) ∨
      bs[13]? ≠ some 58 ∨ bs[16]? ≠ some 58) := by
    rw [not_or, not_not]
    exact ⟨hsep, by simp [hcolon, hcolon']⟩
  simp only [scanDatetime, if_neg hdashes, if_neg hcolons, hyear, hmonth, hday, hhour, hminute,
    hsecond, hfraction, Option.bind_eq_bind, Option.bind_some, hoffset]
  cases offset with
  | none => rw [hzone rfl]; rfl
  | some offset => rfl

/-- What `scan_syslog` finds, from what stands where. -/
theorem scanSyslog_of {rest : List UInt8} {spaces width : ℕ}
    (hmonth : monthOf (bs.take 3) = some month) (hspaces : 1 ≤ spaces ∧ spaces ≤ 2)
    (hblanks : ((bs.drop 3).takeWhile (· = 32)).length = spaces)
    (hday : scanDay (bs.drop (3 + spaces)) = some (day, width))
    (hblank : bs[3 + spaces + width]? = some 32) (hrest : bs.drop (3 + spaces + width + 1) = rest)
    (hhour : digits rest 0 2 = some hour) (hcolon : rest[2]? = some 58)
    (hminute : digits rest 3 2 = some minute) (hcolon' : rest[5]? = some 58)
    (hsecond : digits rest 6 2 = some second) :
    scanSyslog bs = some (⟨none, month, day, hour, minute, second, (scanSyslogFraction (rest.drop 8)).1,
      none, .syslogDateTime⟩, 3 + spaces + width + 9 + (scanSyslogFraction (rest.drop 8)).2) := by
  have hcolons : ¬ (rest[2]? ≠ some 58 ∨ rest[5]? ≠ some 58) := by simp [hcolon, hcolon']
  simp only [scanSyslog, hmonth, Option.bind_eq_bind, Option.bind_some, hblanks,
    if_neg (not_not.2 hspaces), hday, if_neg (not_not.2 hblank), hrest, hhour, if_neg hcolons,
    hminute, hsecond]

/-- A date and time is found by one of the scanners, whole. -/
theorem Written.scan (h : Written text t) :
    (scanDatetime text).or (scanSyslog text) = some (t, text.length) := by
  cases h with
  | @dateTime date clock fraction zone c year month day hour minute second nanos offset hdate hc
      hclock hfraction hzone =>
    obtain ⟨y₁, y₂, y₃, y₄, m₁, m₂, d₁, d₂, rfl, -, hyear, hmonth, hday⟩ := hdate.bytes
    obtain ⟨h₁, h₂, i₁, i₂, s₁, s₂, rfl, hhour, hminute, hsecond⟩ := hclock.bytes
    obtain ⟨hhead, hoffset⟩ := hzone.scan
    have hwidth : scanOffset ((fraction ++ zone).drop fraction.length) =
        offset.map fun offset => (offset, zone.length) := by
      rw [drop_left, hoffset]
    have hnone : offset = none → zone.length = 0 := fun hnone => by
      cases hzone with
      | absent => rfl
      | present _ => cases hnone
    have hsep : some c = some 84 ∨ some c = some 116 ∨ some c = some (32 : UInt8) := by simpa using hc
    have hfound := @scanDatetime_of ([y₁, y₂, y₃, y₄, 45, m₁, m₂, 45, d₁, d₂] ++
        c :: ([h₁, h₂, 58, i₁, i₂, 58, s₁, s₂] ++ (fraction ++ zone))) year month day hour minute
      second nanos fraction.length zone.length offset (by simp) rfl rfl hsep rfl rfl
      (hyear.scan rfl) (hmonth.scan rfl) (hday.scan rfl) (hhour.scan rfl) (hminute.scan rfl)
      (hsecond.scan rfl) (hfraction.scan hhead)
      (by rw [← drop_drop]; exact hwidth) hnone
    rw [hfound, Option.some_or]
    simp only [length_append, length_cons, length_nil]
    congr 2
    omega
  | @syslog name d clock fraction spaces month day hour minute second nanos hmonth hspaces hday
      hclock hfraction =>
    obtain ⟨a, b, c, rfl⟩ := length_eq_three.1 (monthOf_length hmonth)
    obtain ⟨h₁, h₂, i₁, i₂, s₁, s₂, rfl, hhour, hminute, hsecond⟩ := hclock.bytes
    generalize hafter : ([h₁, h₂, 58, i₁, i₂, 58, s₁, s₂] : List UInt8) ++ fraction = rest
    obtain ⟨d₁, d', rfl, hd₁⟩ : ∃ d₁ d', d = d₁ :: d' ∧ isDigitByte d₁ = true := by
      rcases hday with hday | hday
      · obtain ⟨x, y, rfl, hx, -⟩ := hday.two
        exact ⟨x, _, rfl, hx⟩
      · obtain ⟨x, rfl⟩ := length_eq_one_iff.1 hday.length
        exact ⟨x, _, rfl, by simpa using hday.all⟩
    have hscanned : scanDay (d₁ :: d' ++ 32 :: rest) = some (day, (d₁ :: d').length) := by
      rcases hday with hday | hday
      · have hfound : digits (d₁ :: d' ++ 32 :: rest) 0 2 = some day :=
          hday.scan (take_left' hday.length)
        rw [scanDay, hfound, hday.length]
      · obtain rfl : d' = [] := eq_nil_of_length_eq_zero (Nat.succ_injective hday.length)
        have hnone : digits ([d₁] ++ 32 :: rest) 0 2 = none := by
          simp [digits, isDigitByte]
        have hfound : digits ([d₁] ++ 32 :: rest) 0 1 = some day := hday.scan rfl
        rw [scanDay, hnone, hfound]
        rfl
    have hne : d₁ ≠ 32 := isDigitByte_ne hd₁ (by decide)
    have hne' : d₁ ≠ 45 := isDigitByte_ne hd₁ (by decide)
    have hother : scanDatetime ([a, b, c] ++ (List.replicate spaces 32 ++ (d₁ :: d' ++ 32 :: rest))) =
        none := by
      rw [scanDatetime, if_pos]
      right
      left
      -- the fifth byte is a blank or a digit
      rcases Nat.lt_or_ge 1 spaces with h | h
      · obtain rfl : spaces = 2 := by omega
        simp
      · obtain rfl : spaces = 1 := by omega
        simpa using hne'
    generalize htext : [a, b, c] ++ (List.replicate spaces 32 ++ (d₁ :: d' ++ 32 :: rest)) = text at *
    have hname : text.take 3 = [a, b, c] := by rw [← htext]; rfl
    have hdrop : text.drop 3 = List.replicate spaces 32 ++ (d₁ :: d' ++ 32 :: rest) := by
      rw [← htext]
      rfl
    have hblanks : ((text.drop 3).takeWhile (· = 32)).length = spaces := by
      rw [hdrop, takeWhile_append_of_pos (by simp), cons_append,
        takeWhile_cons_of_neg (by simpa using hne), append_nil, length_replicate]
    have hday' : text.drop (3 + spaces) = d₁ :: d' ++ 32 :: rest := by
      rw [← drop_drop, hdrop, drop_left' length_replicate]
    have hblank : text[3 + spaces + (d₁ :: d').length]? = some 32 := by
      rw [← getElem?_drop, hday', getElem?_append_right (Nat.le_refl _), Nat.sub_self]
      rfl
    have hrest : text.drop (3 + spaces + (d₁ :: d').length + 1) = rest := by
      rw [Nat.add_assoc (3 + spaces), ← drop_drop, hday', ← drop_drop, drop_left]
      rfl
    rw [← hafter] at hrest
    have hfound := scanSyslog_of (hname.symm ▸ hmonth) hspaces hblanks (hday'.symm ▸ hscanned) hblank
      hrest (hhour.scan rfl) rfl (hminute.scan rfl) rfl (hsecond.scan rfl)
    have hnanos : scanSyslogFraction
        (List.drop 8 ([h₁, h₂, 58, i₁, i₂, 58, s₁, s₂] ++ fraction)) = (nanos, fraction.length) :=
      hfraction.scanSyslog
    rw [hother, Option.none_or, hfound, hnanos]
    congr 2
    rw [← htext, ← hafter]
    simp only [length_append, length_cons, length_nil, length_replicate]
    omega

theorem Written.unique {t' : ScannedTime} (h : Written text t) (h' : Written text t') : t = t' :=
  congrArg Prod.fst (Option.some.inj (h.scan.symm.trans h'.scan))

/-- **What is found at a place is a text that begins there.** -/
theorem scanAt_text (h : scanAt bs start = some (t, taken)) :
    Written ((bs.drop start).take taken) t := by
  obtain ⟨text, htext, hlen, hbs⟩ : ∃ text, Written text t ∧ text.length = taken ∧
      bs.drop start = text ++ (bs.drop start).drop taken := by
    rcases Option.or_eq_some_iff.1 h with h | ⟨-, h⟩
    · exact scanDatetime_text h
    · exact scanSyslog_text h
  rw [hbs, take_left' hlen]
  exact htext

end Lvu.Time
