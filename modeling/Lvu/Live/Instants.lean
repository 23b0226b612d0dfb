import Lvu.Live.Epochs

/-!
# The instants of readings

The instant that a text denotes under a selection is stated on its own: a number in a unit, or a
date by the days before it.  A reading is that instant.

* `interpretValue_cases` : a value is refused, read exactly, or overflows.
* `readings_iff` : **when readings are exact**: unless a number of a declared unit overflows.
-/

namespace Lvu.Time

open Calendar List

/-! ### Dates -/

/-- A date that exists, and a clock that may be shown: a minute may have a leap second. -/
structure ScannedTime.Valid (t : ScannedTime) (year : ℤ) : Prop where
  era : 1 ≤ year
  month : 1 ≤ t.month ∧ t.month ≤ 12
  day : 1 ≤ t.day ∧ (t.day : ℤ) ≤ monthDays year t.month
  hour : t.hour ≤ 23
  minute : t.minute ≤ 59
  second : t.second ≤ 60

/-- The instant of a date and time: the days since 1970, the clock and the offset, in
nanoseconds. -/
def instant (t : ScannedTime) (year offset : ℤ) : ℤ :=
  ((dayNumber year.toNat t.month t.day - dayNumber 1970 1 1) * 86400 +
    (t.hour * 3600 + t.minute * 60 + t.second) - offset) * 10 ^ 9 + t.nanos

variable {month : ℕ} {year offset : ℤ} {t : ScannedTime} {text : List UInt8}

theorem daysInMonth_eq (year : ℤ) (hlow : 1 ≤ month) (hhigh : month ≤ 12) :
    (daysInMonth year month : ℤ) = monthDays year month := by
  have hleap : (year % 4 = 0 ∧ (year % 100 ≠ 0 ∨ year % 400 = 0)) ↔ IsLeap year := by
    simp only [IsLeap, Int.dvd_iff_emod_eq_zero, ne_eq]
  unfold daysInMonth
  interval_cases month <;> simp only [monthDays, hleap, Nat.reduceSub, getD_cons_zero, getD_cons_succ] <;>
    first | rfl | (split_ifs <;> rfl)

theorem marchDays_eq {y shifted day : ℤ} (hy : 0 ≤ y) (hy' : y < 2147483648) (hs : 0 ≤ shifted)
    (hs' : shifted ≤ 11) (hd : 0 ≤ day) (hd' : day ≤ 31) :
    marchDays y shifted day =
      .ok (365 * y + y / 4 - y / 100 + y / 400 + (153 * shifted + 2) / 5 + day - 719469) := by
  obtain ⟨era, he⟩ : ∃ era, y / 400 = era := ⟨_, rfl⟩
  obtain ⟨m, hm⟩ : ∃ m, (153 * shifted + 2) / 5 = m := ⟨_, rfl⟩
  unfold marchDays
  iterate 13 rw [i64_bind ⟨by omega, by omega⟩]
  rw [i64_ok ⟨by omega, by omega⟩]
  exact congrArg Except.ok (by omega)

/-- The days since 1970 are counted without overflow. -/
theorem civilDays_eq {day : ℕ} (hyear : 1 ≤ year) (hsmall : year < 2147483648) (hlow : 1 ≤ month)
    (hhigh : month ≤ 12) (hday : day ≤ 31) :
    civilDays year month day = .ok (dayNumber year.toNat month day - dayNumber 1970 1 1) := by
  have hepoch : dayNumber 1970 1 1 = 719162 := by
    rw [dayNumber, daysBeforeYear_eq]
    rfl
  have hcast : ((year.toNat : ℕ) : ℤ) = year := Int.toNat_of_nonneg (by omega)
  have hnumber := @dayNumber_eq year.toNat month day (by omega) hlow hhigh
  simp only [hcast] at hnumber
  rw [hnumber, hepoch]
  have hbounds : (0 : ℤ) ≤ day ∧ (day : ℤ) ≤ 31 := by omega
  have hy : 0 ≤ (year - if month ≤ 2 then 1 else 0) ∧
      (year - if month ≤ 2 then 1 else 0) < 2147483648 := by
    split_ifs <;> omega
  have hshifted : 0 ≤ ((month : ℤ) + if 2 < month then -3 else 9) ∧
      ((month : ℤ) + if 2 < month then -3 else 9) ≤ 11 := by
    split_ifs <;> omega
  rw [civilDays, i64_bind ⟨by omega, by omega⟩,
    marchDays_eq hy.1 hy.2 hshifted.1 hshifted.2 hbounds.1 hbounds.2]
  exact congrArg Except.ok (by omega)

/-! ### Reading a date and time -/

theorem clockSeconds_eq (hhour : t.hour ≤ 23) (hminute : t.minute ≤ 59) (hsecond : t.second ≤ 60) :
    clockSeconds t = .ok (t.hour * 3600 + t.minute * 60 + t.second) := by
  unfold clockSeconds
  rw [i64_bind ⟨by omega, by omega⟩, i64_bind ⟨by omega, by omega⟩, i64_bind ⟨by omega, by omega⟩,
    i64_ok ⟨by omega, by omega⟩]

theorem monthDays_le (year : ℤ) (month : ℕ) : monthDays year month ≤ 31 := by
  unfold monthDays
  split
  · split_ifs <;> decide
  · decide
  · decide
  · decide
  · decide
  · decide

/-- A date is far from the ends of an `i64`. -/
theorem dayNumber_bounds {day : ℕ} (hyear : 1 ≤ year) (hsmall : year < 2147483648)
    (hlow : 1 ≤ month) (hhigh : month ≤ 12) (hday : day ≤ 31) :
    -1000000 < dayNumber year.toNat month day - dayNumber 1970 1 1 ∧
      dayNumber year.toNat month day - dayNumber 1970 1 1 < 1000000000000 := by
  have hepoch : dayNumber 1970 1 1 = 719162 := by
    rw [dayNumber, daysBeforeYear_eq]
    rfl
  have hcast : ((year.toNat : ℕ) : ℤ) = year := Int.toNat_of_nonneg (by omega)
  have hnumber := @dayNumber_eq year.toNat month day (by omega) hlow hhigh
  simp only [hcast] at hnumber
  rw [hnumber, hepoch]
  split_ifs <;> omega

/-- **A date and time is refused, or read exactly.** -/
theorem instantOf_cases (hsmall : year < 2147483648) (hoffset : -2147483648 ≤ offset)
    (hoffset' : offset < 2147483648) :
    (∃ refusal, instantOf t year offset = .error (.refused refusal)) ∨
      t.Valid year ∧ Fits64 (instant t year offset) ∧
        instantOf t year offset = .ok (instant t year offset) := by
  unfold instantOf
  split_ifs with hera hday hclock
  · exact .inl ⟨_, rfl⟩
  · exact .inl ⟨_, rfl⟩
  · exact .inl ⟨_, rfl⟩
  have hyear : 1 ≤ year := by omega
  have hmonth : 1 ≤ t.month ∧ t.month ≤ 12 := by omega
  have hdays := daysInMonth_eq year hmonth.1 hmonth.2
  have hmax := monthDays_le year t.month
  have hvalid : t.Valid year :=
    ⟨hyear, hmonth, ⟨by omega, by omega⟩, by omega, by omega, by omega⟩
  have hdate : t.day ≤ 31 := by omega
  obtain ⟨hlow, hhigh⟩ := dayNumber_bounds hyear hsmall hmonth.1 hmonth.2 hdate
  rw [civilDays_eq hyear hsmall hmonth.1 hmonth.2 hdate, ok_bind, checked64_ok ⟨by omega, by omega⟩,
    ok_bind, clockSeconds_eq hvalid.hour hvalid.minute hvalid.second, ok_bind,
    checked64_ok ⟨by omega, by omega⟩, ok_bind, checked64_ok ⟨by omega, by omega⟩, ok_bind]
  rcases checked64_cases (((dayNumber year.toNat t.month t.day - dayNumber 1970 1 1) * 86400 +
      (t.hour * 3600 + t.minute * 60 + t.second) - offset) * 1000000000) .timestampRange
    with ⟨-, hseconds⟩ | ⟨-, hseconds⟩
  · rw [hseconds, ok_bind]
    rcases checked64_cases (instant t year offset) .timestampRange
      with ⟨hfits, heq⟩ | ⟨-, heq⟩
    · exact .inr ⟨hvalid, hfits, heq⟩
    · exact .inl ⟨_, heq⟩
  · rw [hseconds]
    exact .inl ⟨_, rfl⟩

/-! ### What a text denotes -/

/-- The year of a date: its own, or the assumed one. -/
def ScannedTime.YearIs (t : ScannedTime) (assumedYear : Option Int32) (year : ℤ) : Prop :=
  t.year = some year.toNat ∧ 0 ≤ year ∨ t.year = none ∧ ∃ y, assumedYear = some y ∧ year = y.toInt

/-- The offset of a time: its own, or the assumed one. -/
def ScannedTime.OffsetIs (t : ScannedTime) (zone : ZoneAssumption) (offset : ℤ) : Prop :=
  t.offsetSeconds = some offset ∨
    t.offsetSeconds = none ∧ ∃ o, zone.offsetSeconds = some o ∧ offset = o.toInt

/-- The unit in which a selection reads a number: the declared one, or the one that is inferred. -/
def TimeFieldSelection.UnitIs (s : TimeFieldSelection) (text : List UInt8) (unit : EpochUnit) : Prop :=
  s.interpretation = .epoch unit ∨ s.interpretation = .auto ∧ inferEpochUnit text = .ok unit

/-- **What a text denotes under a selection**, in a format. -/
inductive Denotes (s : TimeFieldSelection) (text : List UInt8) : TimeFormat → ℤ → Prop
  | epoch {unit : EpochUnit} {negative : Bool} {whole fraction : List UInt8}
      (hunit : s.UnitIs text unit) (hparts : EpochParts text negative whole fraction) :
      Denotes s text (.epoch unit) (epochInstant unit negative whole fraction)
  | written {t : ScannedTime} {year offset : ℤ} (hwritten : Written text t)
      (hyear : t.YearIs s.assumedYear year) (hoffset : t.OffsetIs s.zone offset)
      (hvalid : t.Valid year) : Denotes s text t.format (instant t year offset)

theorem ScannedTime.YearIs.unique {assumedYear : Option Int32} {year' : ℤ}
    (h : t.YearIs assumedYear year) (h' : t.YearIs assumedYear year') : year = year' := by
  rcases h with ⟨h, hpos⟩ | ⟨h, y, hy, rfl⟩ <;> rcases h' with ⟨h', hpos'⟩ | ⟨h', y', hy', rfl⟩
  · have : year.toNat = year'.toNat := Option.some.inj (h.symm.trans h')
    omega
  · exact absurd (h.symm.trans h') (by simp)
  · exact absurd (h.symm.trans h') (by simp)
  · rw [Option.some.inj (hy.symm.trans hy')]

theorem ScannedTime.OffsetIs.unique {zone : ZoneAssumption} {offset' : ℤ}
    (h : t.OffsetIs zone offset) (h' : t.OffsetIs zone offset') : offset = offset' := by
  rcases h with h | ⟨h, o, ho, rfl⟩ <;> rcases h' with h' | ⟨h', o', ho', rfl⟩
  · exact Option.some.inj (h.symm.trans h')
  · exact absurd (h.symm.trans h') (by simp)
  · exact absurd (h.symm.trans h') (by simp)
  · rw [Option.some.inj (ho.symm.trans ho')]

theorem TimeFieldSelection.UnitIs.unique {s : TimeFieldSelection} {unit unit' : EpochUnit}
    (h : s.UnitIs text unit) (h' : s.UnitIs text unit') : unit = unit' := by
  rcases h with h | ⟨h, hu⟩ <;> rcases h' with h' | ⟨h', hu'⟩
  · exact TimeInterpretation.epoch.inj (h.symm.trans h')
  · exact absurd (h.symm.trans h') (by simp)
  · exact absurd (h.symm.trans h') (by simp)
  · exact Except.ok.inj (hu.symm.trans hu')

/-- **A text denotes one instant at most.** -/
theorem Denotes.unique {s : TimeFieldSelection} {format format' : TimeFormat} {n n' : ℤ}
    (h : Denotes s text format n) (h' : Denotes s text format' n') : format = format' ∧ n = n' := by
  cases h with
  | epoch hunit hparts =>
    cases h' with
    | epoch hunit' hparts' =>
      obtain rfl := hunit.unique hunit'
      obtain ⟨rfl, rfl, rfl⟩ := hparts.unique hparts'
      exact ⟨rfl, rfl⟩
    | written hwritten _ _ _ => exact absurd hparts hwritten.not_parts
  | written hwritten hyear hoffset _ =>
    cases h' with
    | epoch _ hparts => exact absurd hparts hwritten.not_parts
    | written hwritten' hyear' hoffset' _ =>
      obtain rfl := hwritten.unique hwritten'
      obtain rfl := hyear.unique hyear'
      obtain rfl := hoffset.unique hoffset'
      exact ⟨rfl, rfl⟩

/-! ### Readings -/

/-- A reading is that of a text. -/
def Reads (s : TimeFieldSelection) (text : List UInt8) (reading : TimeReading) : Prop :=
  Fits64 reading.unixNanos ∧ Denotes s text reading.format reading.unixNanos

/-- What becomes of a text, where it does not overflow. -/
def Settled (s : TimeFieldSelection) (text : List UInt8) (result : Except Halt TimeReading) : Prop :=
  (∃ refusal, result = .error (.refused refusal)) ∨ ∃ reading, result = .ok reading ∧ Reads s text reading

theorem OffsetText.bounds (h : OffsetText text offset) : -86400 < offset ∧ offset < 86400 := by
  have hsigned {c : UInt8} {sign n : ℤ} (hsign : SignText c sign) (hlow : 0 ≤ n) (hhigh : n < 86400) :
      -86400 < sign * n ∧ sign * n < 86400 := by
    cases hsign <;> omega
  cases h with
  | utc _ => decide
  | hours hsign _ hh | joined hsign _ hh _ hm | apart hsign _ hh _ hm =>
    exact hsigned hsign (by omega) (by omega)

theorem yearOf_cases (h : Written text t) (assumedYear : Option Int32) :
    (∃ refusal, yearOf t assumedYear = .error (.refused refusal)) ∨
      ∃ year notes, yearOf t assumedYear = .ok (year, notes) ∧ t.YearIs assumedYear year ∧
        year < 2147483648 := by
  cases h with
  | @dateTime _ _ _ _ _ year _ _ _ _ _ _ _ hdate _ _ _ _ =>
    obtain ⟨a, b, c, d, -, -, -, -, -, -, hyear, -⟩ := hdate.bytes
    have hlt : year < 10 ^ 4 := by
      have := digitsValue_lt hyear.all
      rwa [hyear.value, hyear.length] at this
    exact .inr ⟨year, [], rfl, .inl ⟨by simp, by positivity⟩, by omega⟩
  | syslog _ _ _ _ _ =>
    cases assumedYear with
    | none => exact .inl ⟨_, rfl⟩
    | some year =>
      have hlt := year.toInt_lt
      exact .inr ⟨year.toInt, _, rfl, .inr ⟨rfl, year, rfl, rfl⟩, by omega⟩

theorem offsetOf_cases (h : Written text t) (zone : ZoneAssumption) :
    (∃ refusal, offsetOf t zone = .error (.refused refusal)) ∨
      ∃ offset notes, offsetOf t zone = .ok (offset, notes) ∧ t.OffsetIs zone offset ∧
        -2147483648 ≤ offset ∧ offset < 2147483648 := by
  have hassumed (hnone : t.offsetSeconds = none) :
      (∃ refusal, offsetOf t zone = .error (.refused refusal)) ∨
        ∃ offset notes, offsetOf t zone = .ok (offset, notes) ∧ t.OffsetIs zone offset ∧
          -2147483648 ≤ offset ∧ offset < 2147483648 := by
    cases hzone : zone.offsetSeconds with
    | none => exact .inl ⟨_, by rw [offsetOf, hnone, hzone]⟩
    | some offset =>
      have hlow := offset.le_toInt
      have hlt := offset.toInt_lt
      exact .inr ⟨offset.toInt, _, by rw [offsetOf, hnone, hzone],
        .inr ⟨hnone, offset, hzone, rfl⟩, by omega, by omega⟩
  cases h with
  | @dateTime _ _ _ _ _ _ _ _ _ _ _ _ offset _ _ _ _ hzone =>
    cases hzone with
    | absent => exact hassumed rfl
    | present htext =>
      obtain ⟨hlow, hhigh⟩ := htext.bounds
      exact .inr ⟨_, [], rfl, .inl rfl, by omega, by omega⟩
  | syslog _ _ _ _ _ => exact hassumed rfl

/-- **A scanned date and time is refused, or read exactly.** -/
theorem finalize_settled (h : Written text t) (s : TimeFieldSelection) (field : List Char) :
    Settled s text (finalize t s field) := by
  rcases yearOf_cases h s.assumedYear with ⟨refusal, heq⟩ | ⟨year, notes, heq, hyear, hsmall⟩
  · rw [finalize, heq]
    exact .inl ⟨refusal, rfl⟩
  rcases offsetOf_cases h s.zone with ⟨refusal, heq'⟩ | ⟨offset, notes', heq', hoffset, hlow, hhigh⟩
  · simp only [finalize, heq, ok_bind, heq']
    exact .inl ⟨refusal, rfl⟩
  rcases instantOf_cases (t := t) hsmall hlow hhigh with ⟨refusal, heq''⟩ | ⟨hvalid, hfits, heq''⟩
  · simp only [finalize, heq, ok_bind, heq', heq'']
    exact .inl ⟨refusal, rfl⟩
  · simp only [finalize, heq, ok_bind, heq', heq'']
    exact .inr ⟨_, rfl, hfits, .written h hyear hoffset hvalid⟩

theorem readEpoch_cases {s : TimeFieldSelection} {text : List UInt8} {unit : EpochUnit}
    (hunit : s.UnitIs text unit) (field : List Char) :
    (¬ EpochOverflows unit text ∧ Settled s text (readEpoch text unit field)) ∨
      EpochOverflows unit text ∧ readEpoch text unit field = .error .overflowed := by
  unfold readEpoch
  rcases epochNanos_cases text unit with ⟨hnot, refusal, heq⟩ |
    ⟨hnot, negative, whole, fraction, hparts, hfits, heq⟩ | ⟨hover, heq⟩
  · rw [heq]
    exact .inl ⟨hnot, .inl ⟨refusal, rfl⟩⟩
  · rw [heq]
    exact .inl ⟨hnot, .inr ⟨_, rfl, hfits, .epoch hunit hparts⟩⟩
  · rw [heq]
    exact .inr ⟨hover, rfl⟩

theorem parseTextTime_settled (text : List UInt8) (s : TimeFieldSelection) (field : List Char) :
    Settled s text (parseTextTime text s field) := by
  unfold parseTextTime
  split
  · exact .inl ⟨_, rfl⟩
  · rename_i t consumed hscan
    split_ifs with hlen
    · exact .inl ⟨_, rfl⟩
    · have hwritten : Written ((text.drop 0).take consumed) t := scanAt_text hscan
      rw [drop_zero, not_not.1 hlen, take_length] at hwritten
      exact finalize_settled hwritten s field

/-- A number of a declared unit that overflows. -/
def DeclaredOverflows (s : TimeFieldSelection) (text : List UInt8) : Prop :=
  ∃ unit, s.interpretation = .epoch unit ∧ EpochOverflows unit text

/-- The bytes of a value. -/
def ExtractedField.bytes (found : ExtractedField) : List UInt8 := Utf8.encode (trim found.value)

/-- A value is read as a number. -/
def ExtractedField.numeric (found : ExtractedField) : Bool :=
  found.numericType || isNumericToken found.bytes

/-- **A value is refused, read exactly, or overflows**: the last only as a number of a declared
unit. -/
theorem interpretValue_cases (found : ExtractedField) (s : TimeFieldSelection) :
    (¬ (found.numeric = true ∧ DeclaredOverflows s found.bytes) ∧
        Settled s found.bytes (interpretValue found s)) ∨
      (found.numeric = true ∧ DeclaredOverflows s found.bytes) ∧
        interpretValue found s = .error .overflowed := by
  have hempty : Utf8.encode (trim found.value) = [] → ∀ unit, ¬ EpochOverflows unit found.bytes := by
    rintro hnil unit ⟨negative, whole, fraction, ⟨⟨rest, hrest, -⟩, hne, -⟩, -⟩
    rw [ExtractedField.bytes, hnil] at hrest
    simp [hne] at hrest
  unfold interpretValue
  by_cases hnil : Utf8.encode (trim found.value) = []
  · rw [if_pos hnil]
    exact .inl ⟨fun ⟨_, unit, _, hover⟩ => hempty hnil unit hover, .inl ⟨_, rfl⟩⟩
  rw [if_neg hnil]
  have hbytes : Utf8.encode (trim found.value) = found.bytes := rfl
  have hnumeric : (found.numericType || isNumericToken found.bytes) = found.numeric := rfl
  simp only [hbytes, hnumeric]
  cases hread : s.interpretation with
  | epoch unit =>
    by_cases hnum : found.numeric = true
    · simp only [if_neg (not_not.2 hnum)]
      rcases readEpoch_cases (s := s) (.inl hread) found.path with ⟨hnot, hsettled⟩ | ⟨hover, heq⟩
      · refine .inl ⟨?_, hsettled⟩
        rintro ⟨-, unit', hunit, hover⟩
        exact hnot (TimeInterpretation.epoch.inj (hread.symm.trans hunit) ▸ hover)
      · exact .inr ⟨⟨hnum, unit, hread, hover⟩, heq⟩
    · simp only [if_pos hnum]
      exact .inl ⟨fun h => hnum h.1, .inl ⟨_, rfl⟩⟩
  | text =>
    refine .inl ⟨fun ⟨_, _, h, _⟩ => (by cases hread.symm.trans h), ?_⟩
    simp only
    split_ifs
    · exact .inl ⟨_, rfl⟩
    · exact parseTextTime_settled _ s _
  | auto =>
    refine .inl ⟨fun ⟨_, _, h, _⟩ => (by cases hread.symm.trans h), ?_⟩
    simp only
    split_ifs with hnum hkey
    · exact .inl ⟨_, rfl⟩
    · cases hinfer : inferEpochUnit found.bytes with
      | error refusal => exact .inl ⟨_, rfl⟩
      | ok unit =>
        -- an inferred unit makes no number overflow
        have hsettled : Settled s found.bytes (readEpoch found.bytes unit found.path) := by
          rcases readEpoch_cases (s := s) (.inr ⟨hread, hinfer⟩) found.path with ⟨-, h⟩ | ⟨hover, -⟩
          · exact h
          · exact absurd hover (inferred_fits hinfer)
        simp only
        cases found.unitHint with
        | none => exact hsettled
        | some hint =>
          simp only
          split_ifs
          · exact .inl ⟨_, rfl⟩
          · exact hsettled
    · exact parseTextTime_settled _ s _

/-! ### The text that is consumed -/

/-- The text of the date and time at a place. -/
def writtenAt (window : List UInt8) (start : ℕ) : Option (List UInt8) :=
  (scanAt window start).map fun found => (window.drop start).take found.2

/-- The text that is consumed at the beginning of a record. -/
def consumedBeginning (window : List UInt8) : TimeInterpretation → Option (List UInt8)
  | .epoch _ => (beginnings window).head?.bind fun start =>
    let token := firstWord (window.drop start)
    if isNumericToken token then some token else none
  | .text | .auto => (beginnings window).findSome? (writtenAt window)

/-- The first place that has a date and time has its text. -/
theorem findSome_written (window : List UInt8) (starts : List ℕ) :
    (starts.findSome? (scanAt window) = none ∧ starts.findSome? (writtenAt window) = none) ∨
      ∃ t taken text, starts.findSome? (scanAt window) = some (t, taken) ∧
        starts.findSome? (writtenAt window) = some text ∧ Written text t := by
  induction starts with
  | nil => exact .inl ⟨rfl, rfl⟩
  | cons start starts ih =>
    cases hscan : scanAt window start with
    | none =>
      have hnone : writtenAt window start = none := by rw [writtenAt, hscan, Option.map_none]
      rwa [findSome?_cons_of_isNone (by rw [hscan]; rfl),
        findSome?_cons_of_isNone (by rw [hnone]; rfl)]
    | some found =>
      obtain ⟨t, taken⟩ := found
      have hsome : writtenAt window start = some ((window.drop start).take taken) := by
        rw [writtenAt, hscan, Option.map_some]
      refine .inr ⟨t, taken, _, ?_, ?_, scanAt_text hscan⟩
      · rw [findSome?_cons_of_isSome (by rw [hscan]; rfl), hscan]
      · rw [findSome?_cons_of_isSome (by rw [hsome]; rfl), hsome]

/-- What becomes of the beginning of a record. -/
theorem rawBeginningReading_cases (text : List Char) (s : TimeFieldSelection) :
    (rawBeginningReading text s = none ∧ consumedBeginning (window text) s.interpretation = none) ∨
      ∃ result consumed, rawBeginningReading text s = some result ∧
        consumedBeginning (window text) s.interpretation = some consumed ∧
        ((¬ DeclaredOverflows s consumed ∧ Settled s consumed result) ∨
          DeclaredOverflows s consumed ∧ result = .error .overflowed) := by
  cases hread : s.interpretation with
  | epoch unit =>
    simp only [rawBeginningReading, hread, consumedBeginning]
    cases (beginnings (window text)).head? with
    | none => exact .inl ⟨rfl, rfl⟩
    | some start =>
      simp only [Option.bind_some]
      by_cases hnumeric : isNumericToken (firstWord ((window text).drop start)) = true
      · simp only [if_pos hnumeric]
        refine .inr ⟨_, _, rfl, rfl, ?_⟩
        rcases @readEpoch_cases s (firstWord ((window text).drop start)) unit (.inl hread)
          "raw".toList with ⟨hnot, hsettled⟩ | ⟨hover, heq⟩
        · refine .inl ⟨?_, hsettled⟩
          rintro ⟨unit', hunit, hover⟩
          exact hnot (TimeInterpretation.epoch.inj (hread.symm.trans hunit) ▸ hover)
        · exact .inr ⟨⟨unit, hread, hover⟩, heq⟩
      · exact .inl (by simp [if_neg hnumeric])
  | text | auto =>
    simp only [rawBeginningReading, hread, consumedBeginning]
    rcases findSome_written (window text) (beginnings (window text)) with ⟨h₁, h₂⟩ |
      ⟨t, taken, consumed, h₁, h₂, h⟩
    · exact .inl ⟨by rw [h₁, Option.map_none], h₂⟩
    · refine .inr ⟨_, consumed, by rw [h₁, Option.map_some], h₂, .inl ⟨?_, finalize_settled h s _⟩⟩
      rintro ⟨unit, hunit, -⟩
      cases hread.symm.trans hunit

/-! ### Records -/

/-- The text that `read` consumes. -/
def TimeFieldSelection.consumed (fromStr : List Char → Option Json) (s : TimeFieldSelection)
    (raw : List UInt8) : Option (List UInt8) :=
  if MAX_RECOGNITION_RECORD_BYTES < raw.length then none
  else match s.field with
  | .column _ => none
  | .rawPrefix => consumedBeginning (window (Utf8.decodeLossy raw)) s.interpretation
  | .structured path => match structuredFields fromStr (Utf8.decodeLossy raw) with
    | .error _ => none
    | .ok fields => (fields.find? (·.path = path)).map ExtractedField.bytes

/-- The text that `read` consumes as a number of a declared unit, if it does. -/
def TimeFieldSelection.number (fromStr : List Char → Option Json) (s : TimeFieldSelection)
    (raw : List UInt8) : Option (List UInt8) :=
  if MAX_RECOGNITION_RECORD_BYTES < raw.length then none
  else match s.field with
  | .column _ => none
  | .rawPrefix => consumedBeginning (window (Utf8.decodeLossy raw)) s.interpretation
  | .structured path => match structuredFields fromStr (Utf8.decodeLossy raw) with
    | .error _ => none
    | .ok fields =>
      ((fields.find? (·.path = path)).filter ExtractedField.numeric).map ExtractedField.bytes

/-- The number that is consumed overflows. -/
def Overflowing (fromStr : List Char → Option Json) (s : TimeFieldSelection) (raw : List UInt8) :
    Prop :=
  ∃ text, s.number fromStr raw = some text ∧ DeclaredOverflows s text

/-- What becomes of an answer: the text that was consumed is refused, read exactly, or
overflows. -/
theorem read_cases (fromStr : List Char → Option Json) (s : TimeFieldSelection) (raw : List UInt8) :
    (¬ Overflowing fromStr s raw ∧
        ((s.consumed fromStr raw = none ∧ (s.read fromStr raw = some .missing ∨
            s.read fromStr raw = some (.invalid s.field.label))) ∨
          ∃ text result, s.consumed fromStr raw = some text ∧ Settled s text result ∧
            s.read fromStr raw = outcomeOf s.field.label result)) ∨
      Overflowing fromStr s raw ∧ s.read fromStr raw = none := by
  unfold TimeFieldSelection.read TimeFieldSelection.consumed Overflowing TimeFieldSelection.number
  by_cases hlong : MAX_RECOGNITION_RECORD_BYTES < raw.length
  · simp only [if_pos hlong]
    refine .inl ⟨?_, .inl (by simp)⟩
    rintro ⟨_, h, _⟩
    cases h
  simp only [if_neg hlong]
  cases hfield : s.field with
  | column name =>
    refine .inl ⟨?_, .inl ⟨rfl, .inr rfl⟩⟩
    rintro ⟨_, h, _⟩
    cases h
  | rawPrefix =>
    simp only
    rcases rawBeginningReading_cases (Utf8.decodeLossy raw) s with ⟨hnone, hconsumed⟩ |
      ⟨result, consumed, hsome, hconsumed, hcases⟩
    · rw [hnone, hconsumed]
      refine .inl ⟨?_, .inl ⟨rfl, .inl rfl⟩⟩
      rintro ⟨_, h, _⟩
      cases h
    · rw [hsome, hconsumed]
      rcases hcases with ⟨hnot, hsettled⟩ | ⟨hover, rfl⟩
      · refine .inl ⟨?_, .inr ⟨consumed, result, rfl, hsettled, rfl⟩⟩
        rintro ⟨text, htext, hover⟩
        exact hnot (Option.some.inj htext ▸ hover)
      · exact .inr ⟨⟨consumed, rfl, hover⟩, rfl⟩
  | structured path =>
    simp only
    cases structuredFields fromStr (Utf8.decodeLossy raw) with
    | error _ =>
      refine .inl ⟨?_, .inl ⟨rfl, .inr rfl⟩⟩
      rintro ⟨_, h, _⟩
      cases h
    | ok fields =>
      simp only
      cases fields.find? (·.path = path) with
      | none =>
        refine .inl ⟨?_, .inl ⟨rfl, .inl rfl⟩⟩
        rintro ⟨_, h, _⟩
        cases h
      | some found =>
        simp only [Option.map_some, Option.filter_some]
        rcases interpretValue_cases found s with ⟨hnot, hsettled⟩ | ⟨⟨hnumeric, hover⟩, heq⟩
        · refine .inl ⟨?_, .inr ⟨found.bytes, _, rfl, hsettled, rfl⟩⟩
          rintro ⟨text, htext, hover⟩
          split_ifs at htext with hnumeric
          · exact hnot ⟨hnumeric, Option.some.inj htext ▸ hover⟩
          · cases htext
        · rw [if_pos hnumeric, heq]
          exact .inr ⟨⟨found.bytes, rfl, hover⟩, rfl⟩

/-- A text that recognition considers, and the field it is found in. -/
inductive Candidate (fromStr : List Char → Option Json) (raw : List UInt8) :
    TimeFieldRef → List UInt8 → Prop
  | field {fields : List ExtractedField} {found : ExtractedField}
      (hfields : structuredFields fromStr (Utf8.decodeLossy raw) = .ok fields)
      (hmem : found ∈ fields) : Candidate fromStr raw (.structured found.path) found.bytes
  | beginning {text : List UInt8}
      (h : consumedBeginning (window (Utf8.decodeLossy raw)) .auto = some text) :
      Candidate fromStr raw .rawPrefix text

/-- An answer of recognition is no overflow, and a reading of a text that it considers. -/
def Recognized (fromStr : List Char → Option Json) (options : RecognitionOptions) (raw : List UInt8)
    (answer : Option TimeOutcome) : Prop :=
  answer ≠ none ∧ ∀ reading, answer = some (.valid reading) →
    ∃ field text, Candidate fromStr raw field text ∧ Reads (options.selection field) text reading

section Recognition

variable {fromStr : List Char → Option Json} {options : RecognitionOptions} {raw : List UInt8}

theorem recognized_invalid (field : List Char) :
    Recognized fromStr options raw (some (.invalid field)) :=
  ⟨by simp, fun _ h => by cases h⟩

theorem recognized_outcome {field : TimeFieldRef} {text : List UInt8}
    {result : Except Halt TimeReading} (hcandidate : Candidate fromStr raw field text)
    (hsettled : Settled (options.selection field) text result) (label : List Char) :
    Recognized fromStr options raw (outcomeOf label result) := by
  rcases hsettled with ⟨refusal, rfl⟩ | ⟨reading, rfl, hreads⟩
  · exact recognized_invalid label
  · refine ⟨by simp [outcomeOf], fun reading' heq => ⟨field, text, hcandidate, ?_⟩⟩
    cases heq
    exact hreads

theorem interpretValue_settled (found : ExtractedField) (field : TimeFieldRef) :
    Settled (options.selection field) found.bytes (interpretValue found (options.selection field)) := by
  rcases interpretValue_cases found (options.selection field) with ⟨-, h⟩ | ⟨⟨-, unit, h, -⟩, -⟩
  · exact h
  · cases h

theorem beginning_recognized {reading : Except Halt TimeReading}
    (h : rawBeginningReading (Utf8.decodeLossy raw) (options.selection .rawPrefix) = some reading) :
    ∃ text, Candidate fromStr raw .rawPrefix text ∧
      Settled (options.selection .rawPrefix) text reading := by
  rcases rawBeginningReading_cases (Utf8.decodeLossy raw) (options.selection .rawPrefix) with
    ⟨hnone, -⟩ | ⟨result, consumed, hsome, hconsumed, hcases⟩
  · rw [hnone] at h
    cases h
  · cases hsome.symm.trans h
    rcases hcases with ⟨-, hsettled⟩ | ⟨⟨unit, hunit, -⟩, -⟩
    · exact ⟨consumed, .beginning hconsumed, hsettled⟩
    · cases hunit

theorem recognizeFields_recognized {all : List ExtractedField}
    (hall : structuredFields fromStr (Utf8.decodeLossy raw) = .ok all) (fields : List ExtractedField)
    (deferred : Option (List Char)) (hsub : fields ⊆ all) :
    Recognized fromStr options raw
      (recognizeFields options (Utf8.decodeLossy raw) fields deferred) := by
  induction fields generalizing deferred with
  | nil =>
    unfold recognizeFields
    split
    · rename_i reading hreading
      obtain ⟨text, hcandidate, hsettled⟩ := @beginning_recognized fromStr options raw _ hreading
      exact recognized_outcome hcandidate hsettled _
    · split
      · exact recognized_invalid _
      · exact ⟨by simp, fun _ h => by cases h⟩
  | cons found fields ih =>
    have hmem : found ∈ all := hsub mem_cons_self
    have hrest : fields ⊆ all := fun x hx => hsub (mem_cons_of_mem found hx)
    have hsettled := @interpretValue_settled options found (.structured found.path)
    unfold recognizeFields
    rcases hsettled with ⟨refusal, heq⟩ | ⟨reading, heq, hreads⟩
    · rw [heq]
      split
      · rename_i h
        cases h
      · exact ih _ hrest
      · exact ih _ hrest
      · exact ih _ hrest
      · rename_i h
        cases h
    · rw [heq]
      refine ⟨by simp, fun reading' h => ?_⟩
      cases h
      exact ⟨_, _, .field hall hmem, hreads⟩

/-- The step of `highestRanked` keeps one of the fields. -/
theorem foldl_mem {fields : List ExtractedField}
    {step : Option ExtractedField → ExtractedField → Option ExtractedField}
    (hstep : ∀ best found, step best found = best ∨ step best found = some found)
    (best : Option ExtractedField) {found : ExtractedField} (h : fields.foldl step best = some found) :
    best = some found ∨ found ∈ fields := by
  induction fields generalizing best with
  | nil => exact .inl h
  | cons first fields ih =>
    rcases ih _ h with hbest | hmem
    · rcases hstep best first with hkept | hfirst
      · exact .inl (hkept.symm.trans hbest)
      · exact .inr (Option.some.inj (hfirst.symm.trans hbest) ▸ mem_cons_self)
    · exact .inr (mem_cons_of_mem first hmem)

theorem highestRanked_mem {fields : List ExtractedField} {found : ExtractedField}
    (h : highestRanked fields = some found) : found ∈ fields := by
  refine (foldl_mem (fun best found => ?_) none h).resolve_left (by simp)
  split
  · exact .inl rfl
  · exact .inr rfl
  · split_ifs
    · exact .inr rfl
    · exact .inl rfl

/-- **Recognition never overflows, and reads exactly.** -/
theorem recognizeRecord_recognized :
    Recognized fromStr options raw (recognizeRecord fromStr options raw) := by
  unfold recognizeRecord
  split_ifs with hlong
  · exact recognized_invalid _
  simp only
  split
  · split
    · rename_i reading hreading
      obtain ⟨text, hcandidate, hsettled⟩ := @beginning_recognized fromStr options raw _ hreading
      exact @recognized_outcome fromStr options raw .rawPrefix text _ hcandidate hsettled []
    · rename_i hreading
      obtain ⟨text, hcandidate, hsettled⟩ := @beginning_recognized fromStr options raw _ hreading
      rcases hsettled with ⟨refusal, h⟩ | ⟨reading, h, -⟩ <;> cases h
    · exact recognized_invalid _
  · rename_i fields hfields
    split
    · rename_i found hfound
      exact recognized_outcome (.field hfields (highestRanked_mem hfound))
        (interpretValue_settled found _) _
    · exact recognizeFields_recognized hfields fields none (List.Subset.refl fields)

end Recognition

/-! ### When readings are exact -/

/-- **Readings of a record are exact.**  A valid answer is the instant that the consumed text
denotes; a text whose instant is no `i64` is refused; and no operation overflows. -/
structure Exact (fromStr : List Char → Option Json) (s : TimeFieldSelection)
    (options : RecognitionOptions) (raw : List UInt8) : Prop where
  valid : ∀ reading, s.read fromStr raw = some (.valid reading) →
    ∃ text, s.consumed fromStr raw = some text ∧ Reads s text reading
  refused : ∀ text format n, s.consumed fromStr raw = some text → Denotes s text format n →
    ¬ Fits64 n → s.read fromStr raw = some (.invalid s.field.label)
  total : s.read fromStr raw ≠ none
  recognized : Recognized fromStr options raw (recognizeRecord fromStr options raw)
  candidates : ∀ fields found, structuredFields fromStr (Utf8.decodeLossy raw) = .ok fields →
    found ∈ fields → ∀ format n,
      Denotes (options.selection (.structured found.path)) found.bytes format n → ¬ Fits64 n →
      ∃ refusal, interpretValue found (options.selection (.structured found.path)) =
        .error (.refused refusal)

theorem Settled.refused {s : TimeFieldSelection} {text : List UInt8} {result : Except Halt TimeReading}
    (h : Settled s text result) {format : TimeFormat} {n : ℤ} (hdenotes : Denotes s text format n)
    (hfits : ¬ Fits64 n) : ∃ refusal, result = .error (.refused refusal) := by
  rcases h with h | ⟨reading, -, hread, hdenotes'⟩
  · exact h
  · obtain ⟨-, rfl⟩ := hdenotes.unique hdenotes'
    exact absurd hread hfits

/-- **When readings are exact**: unless a number is read in a declared unit, whose whole part is an
`i128` and whose nanoseconds are none. -/
theorem readings_iff (fromStr : List Char → Option Json) (s : TimeFieldSelection)
    (options : RecognitionOptions) (raw : List UInt8) :
    Exact fromStr s options raw ↔ ¬ Overflowing fromStr s raw := by
  constructor
  · rintro hexact hover
    rcases read_cases fromStr s raw with ⟨hnot, -⟩ | ⟨-, hnone⟩
    · exact hnot hover
    · exact hexact.total hnone
  · intro hnot
    obtain ⟨-, hcases⟩ := (read_cases fromStr s raw).resolve_right fun h => hnot h.1
    refine ⟨fun reading hread => ?_, fun text format n htext hdenotes hfits => ?_, fun hnone => ?_,
      recognizeRecord_recognized, fun fields found _ _ format n hdenotes hfits =>
        (interpretValue_settled found _).refused hdenotes hfits⟩
    · rcases hcases with ⟨-, h | h⟩ | ⟨text, result, htext, hsettled, heq⟩
      · rw [h] at hread
        cases hread
      · rw [h] at hread
        cases hread
      · rcases hsettled with ⟨refusal, rfl⟩ | ⟨reading', rfl, hreads⟩
        · rw [heq] at hread
          cases hread
        · rw [heq] at hread
          cases hread
          exact ⟨text, htext, hreads⟩
    · rcases hcases with ⟨hnone, -⟩ | ⟨text', result, htext', hsettled, heq⟩
      · rw [htext] at hnone
        cases hnone
      · cases htext.symm.trans htext'
        obtain ⟨refusal, rfl⟩ := hsettled.refused hdenotes hfits
        exact heq
    · rcases hcases with ⟨-, h | h⟩ | ⟨text, result, -, ⟨refusal, rfl⟩ | ⟨reading, rfl, -⟩, heq⟩
      · rw [h] at hnone
        cases hnone
      · rw [h] at hnone
        cases hnone
      · rw [heq] at hnone
        cases hnone
      · rw [heq] at hnone
        cases hnone

/-- The digits of `340282366920938463463374607432`. -/
def exampleDigits : List UInt8 := Utf8.encode "340282366920938463463374607432".toList

/-- A record that begins with so many seconds is read in the declared unit, and their nanoseconds
are no `i128`. -/
theorem readings_overflow :
    let seconds : TimeFieldSelection := ⟨.rawPrefix, .epoch .seconds, .utc, none, none⟩
    seconds.read (fun _ => none) exampleDigits = none ∧
      ¬ Exact (fun _ => none) seconds ⟨.utc, none⟩ exampleDigits := by
  intro seconds
  have hdecode : Utf8.decodeLossy exampleDigits = "340282366920938463463374607432".toList :=
    Utf8.decodeLossy_ascii (by decide +kernel)
  have hnumber : seconds.number (fun _ => none) exampleDigits = some exampleDigits := by
    have hlen : ¬ MAX_RECOGNITION_RECORD_BYTES < exampleDigits.length := by decide
    simp only [TimeFieldSelection.number, if_neg hlen, hdecode, seconds]
    decide +kernel
  have hparts : EpochParts exampleDigits false exampleDigits [] := by
    refine ⟨⟨[], by simp, .inl ⟨rfl, rfl⟩⟩, by decide, by decide, by decide⟩
  have hover : Overflowing (fun _ => none) seconds exampleDigits :=
    ⟨exampleDigits, hnumber, .seconds, rfl, false, exampleDigits, [], hparts, by decide, by decide⟩
  have hnone : seconds.read (fun _ => none) exampleDigits = none := by
    rcases read_cases (fun _ => none) seconds exampleDigits with ⟨hnot, -⟩ | ⟨-, hnone⟩
    · exact absurd hover hnot
    · exact hnone
  exact ⟨hnone, fun hexact => hexact.total hnone⟩

end Lvu.Time
