import Lvu.Data.Calendar
import Lvu.Data.Utf8
import Lvu.Live.Extraction

/-!
# Reading the time of a record

A value is read as a number of some unit, or as a date and time in one of two spellings
(`lvu-live/src/time.rs`).  Machine arithmetic is explicit: an operation whose result does not fit
ends the reading (`Halt.overflowed`).  The notes and diagnostics of a reading keep their data, not
their words.
-/

namespace Lvu.Time

/-! ### Refusals -/

inductive TimeFormat
  | offsetDateTime
  | naiveDateTime
  | syslogDateTime
  | epoch (unit : EpochUnit)
deriving DecidableEq

/-- What a refusal says. -/
inductive Detail
  | empty | notEpoch | notDateTime | declaredEpoch (unit : EpochUnit) | declaredText
  | hint (named found : EpochUnit) | epochRange | fractionRange | nanosRange | trailing | month
  | date | clock | timestampRange
deriving DecidableEq

inductive Refusal
  | notATime (detail : Detail)
  | invalid (detail : Detail)
  | ambiguousEpoch (units : List EpochUnit)
  | implausibleEpoch
  | needsZone
  | needsYear
  | needsUnit (hint : Option EpochUnit)
deriving DecidableEq

/-- Why a reading ends without a time. -/
inductive Halt
  | refused (refusal : Refusal)
  /-- A machine operation had no result: a panic, or a wrapped value where it is not checked. -/
  | overflowed

/-- An `i64`. -/
def Fits64 (n : ℤ) : Prop := -9223372036854775808 ≤ n ∧ n < 9223372036854775808

/-- An `i128`. -/
def Fits128 (n : ℤ) : Prop :=
  -170141183460469231731687303715884105728 ≤ n ∧ n < 170141183460469231731687303715884105728

instance (n : ℤ) : Decidable (Fits64 n) := inferInstanceAs (Decidable (_ ∧ _))

instance (n : ℤ) : Decidable (Fits128 n) := inferInstanceAs (Decidable (_ ∧ _))

/-- The result of an operation on `i64`s. -/
def i64 (n : ℤ) : Except Halt ℤ := if Fits64 n then .ok n else .error .overflowed

/-- The result of an operation on `i128`s. -/
def i128 (n : ℤ) : Except Halt ℤ := if Fits128 n then .ok n else .error .overflowed

/-- The result of a checked operation on `i64`s, refused where there is none. -/
def checked64 (n : ℤ) (detail : Detail) : Except Halt ℤ :=
  if Fits64 n then .ok n else .error (.refused (.invalid detail))

/-! ### Numbers -/

/-- `u8::is_ascii_digit`. -/
def isDigitByte (b : UInt8) : Bool := 48 ≤ b && b ≤ 57

/-- The number that some digits denote. -/
def digitsValue (bs : List UInt8) : ℕ := bs.foldl (fun n b => 10 * n + (b.toNat - 48)) 0

/-- The text before the first byte that is no `q`, and the text after it (`split_once`). -/
def splitOnce (q : UInt8 → Bool) (bs : List UInt8) : List UInt8 × List UInt8 :=
  (bs.takeWhile (!q ·), (bs.dropWhile (!q ·)).tail)

/-- `.` or `,`. -/
def isPoint (b : UInt8) : Bool := b = 46 || b = 44

def isNumericToken (value : List UInt8) : Bool :=
  let body := if value.head? = some 45 then value.tail else value
  let (whole, fraction) :=
    if 46 ∈ body then splitOnce (· = 46) body else (body, [48])
  whole ≠ [] && fraction ≠ [] && whole.all isDigitByte && fraction.all isDigitByte

/-- The two bounds of `plausible_whole`, in seconds. -/
def PLAUSIBLE_EPOCH_START_SECONDS : ℤ := 315532800

def PLAUSIBLE_EPOCH_END_SECONDS : ℤ := 7258118400

/-- `saturating_mul` of `i64`s. -/
def saturatingMul (a b : ℤ) : ℤ := max (-9223372036854775808) (min (a * b) 9223372036854775807)

def EpochUnit.plausibleWhole (unit : EpochUnit) (whole : ℤ) : Bool :=
  let perSecond := 1000000000 / unit.nanosPerUnit
  saturatingMul PLAUSIBLE_EPOCH_START_SECONDS perSecond ≤ whole &&
    whole < saturatingMul PLAUSIBLE_EPOCH_END_SECONDS perSecond

/-- `str::parse::<i64>`, of a text whose bytes are these. -/
def parseInt64 (bs : List UInt8) : Option ℤ :=
  readInt (-9223372036854775808) 9223372036854775807 (bs.map fun b => Char.ofNat b.toNat)

/-- The source calls this `plausible`. -/
def isPlausible (value : List UInt8) (unit : EpochUnit) : Bool :=
  if value.head? = some 45 then false
  else match parseInt64 (splitOnce isPoint value).1 with
  | some whole => unit.plausibleWhole whole
  | none => false

def inferEpochUnit (value : List UInt8) : Except Refusal EpochUnit :=
  match EpochUnit.all.filter (isPlausible value) with
  | [unit] => .ok unit
  | [] => .error .implausibleEpoch
  | several => .error (.ambiguousEpoch several)

/-- Nanoseconds and those of a fraction, of which as many as 18 digits count. -/
def addFraction (fraction : List UInt8) (scale nanos : ℤ) : Except Halt ℤ :=
  if fraction = [] then .ok nanos
  else do
    let digits := min fraction.length 18
    let numerator : ℤ := digitsValue (fraction.take digits)
    let product ← i128 (numerator * scale)
    i128 (nanos + product / 10 ^ digits)

/-- The sign of an epoch, applied. -/
def applySign (negative : Bool) (nanos : ℤ) : Except Halt ℤ :=
  if negative then i128 (-nanos) else .ok nanos

def epochNanos (value : List UInt8) (unit : EpochUnit) : Except Halt ℤ :=
  let negative : Bool := value.head? = some 45
  let body := if negative then value.tail else value
  let (whole, fraction) := splitOnce isPoint body
  if whole = [] ∨ ¬ whole.all isDigitByte ∨ ¬ fraction.all isDigitByte then
    .error (.refused (.notATime .notEpoch))
  else if ¬ Fits128 (digitsValue whole) then .error (.refused (.invalid .epochRange))
  else do
    let scale := unit.nanosPerUnit
    let nanos ← i128 (digitsValue whole * scale)
    let nanos ← addFraction fraction scale nanos
    let nanos ← applySign negative nanos
    checked64 nanos .nanosRange

/-! ### Dates and times -/

structure ScannedTime where
  year : Option ℕ
  month : ℕ
  day : ℕ
  hour : ℕ
  minute : ℕ
  second : ℕ
  nanos : ℕ
  offsetSeconds : Option ℤ
  format : TimeFormat

/-- `digits`: so many bytes from a place on, if all are digits. -/
def digits (bs : List UInt8) (start len : ℕ) : Option ℕ :=
  let slice := (bs.drop start).take len
  if slice.length = len ∧ slice.all isDigitByte then some (digitsValue slice) else none

/-- Nanoseconds from the digits of a fraction: nine of them, zeros where there are fewer. -/
def nineDigits (fraction : List UInt8) : ℕ :=
  digitsValue (fraction.take 9 ++ List.replicate (9 - fraction.length) 48)

/-- The minutes of `scan_offset`, and how many bytes the offset takes with them. -/
def offsetMinutes (rest : List UInt8) : Option (ℕ × ℕ) :=
  if rest[3]? = some 58 then (digits rest 4 2).map fun minutes => (minutes, 6)
  else match digits rest 3 2 with
  | some minutes => some (minutes, 5)
  | none => some (0, 3)

/-- `scan_offset`, from `cursor` on: the offset and how many bytes it takes. -/
def scanOffset (rest : List UInt8) : Option (ℤ × ℕ) :=
  match rest with
  | [] => none
  | c :: _ =>
    if c = 90 ∨ c = 122 then some (0, 1)
    else if c = 43 ∨ c = 45 then do
      let sign : ℤ := if c = 43 then 1 else -1
      let hours ← digits rest 1 2
      let (minutes, taken) ← offsetMinutes rest
      if 23 < hours ∨ 59 < minutes then none
      else some (sign * (hours * 3600 + minutes * 60), taken)
    else none

/-- The fraction of a second of `scan_datetime`, and how many bytes it takes. -/
def scanFraction (rest : List UInt8) : Option (ℕ × ℕ) :=
  match rest with
  | c :: rest =>
    if isPoint c then
      let fraction := rest.takeWhile isDigitByte
      if fraction = [] then none else some (nineDigits fraction, fraction.length + 1)
    else some (0, 0)
  | [] => some (0, 0)

/-- `scan_datetime`: the fields and how many bytes they take. -/
def scanDatetime (bs : List UInt8) : Option (ScannedTime × ℕ) :=
  if bs.length < 19 ∨ bs[4]? ≠ some 45 ∨ bs[7]? ≠ some 45 then none
  else if ¬ (bs[10]? = some 84 ∨ bs[10]? = some 116 ∨ bs[10]? = some 32) ∨ bs[13]? ≠ some 58 ∨
      bs[16]? ≠ some 58 then none
  else do
    let year ← digits bs 0 4
    let month ← digits bs 5 2
    let day ← digits bs 8 2
    let hour ← digits bs 11 2
    let minute ← digits bs 14 2
    let second ← digits bs 17 2
    let (nanos, taken) ← scanFraction (bs.drop 19)
    let cursor := 19 + taken
    let (offsetSeconds, cursor) := match scanOffset (bs.drop cursor) with
      | some (offset, taken) => (some offset, cursor + taken)
      | none => (none, cursor)
    let format := if offsetSeconds.isSome then TimeFormat.offsetDateTime else .naiveDateTime
    some (⟨some year, month, day, hour, minute, second, nanos, offsetSeconds, format⟩, cursor)

def MONTH_NAMES : List (List UInt8) :=
  ["jan", "feb", "mar", "apr", "may", "jun", "jul", "aug", "sep", "oct", "nov", "dec"].map
    fun name => Utf8.encode name.toList

/-- `u8::to_ascii_lowercase`. -/
def lowerByte (b : UInt8) : UInt8 := if 65 ≤ b ∧ b ≤ 90 then b + 32 else b

/-- The month that three letters name. -/
def monthOf (name : List UInt8) : Option ℕ :=
  (MONTH_NAMES.findIdx? (· = name.map lowerByte)).map (· + 1)

/-- The day of `scan_syslog`: two digits, or else one. -/
def scanDay (rest : List UInt8) : Option (ℕ × ℕ) :=
  match digits rest 0 2 with
  | some day => some (day, 2)
  | none => (digits rest 0 1).map fun day => (day, 1)

/-- The fraction of a second of `scan_syslog`, which needs no digits. -/
def scanSyslogFraction (rest : List UInt8) : ℕ × ℕ :=
  match rest with
  | 46 :: rest =>
    let fraction := rest.takeWhile isDigitByte
    if fraction = [] then (0, 0) else (nineDigits fraction, fraction.length + 1)
  | _ => (0, 0)

def scanSyslog (bs : List UInt8) : Option (ScannedTime × ℕ) := do
  let month ← monthOf (bs.take 3)
  let spaces := ((bs.drop 3).takeWhile (· = 32)).length
  if ¬ (1 ≤ spaces ∧ spaces ≤ 2) then none
  else
    let (day, width) ← scanDay (bs.drop (3 + spaces))
    let cursor := 3 + spaces + width
    if bs[cursor]? ≠ some 32 then none
    else
      let rest := bs.drop (cursor + 1)
      let hour ← digits rest 0 2
      if rest[2]? ≠ some 58 ∨ rest[5]? ≠ some 58 then none
      else
        let minute ← digits rest 3 2
        let second ← digits rest 6 2
        let (nanos, taken) := scanSyslogFraction (rest.drop 8)
        some (⟨none, month, day, hour, minute, second, nanos, none, .syslogDateTime⟩,
          cursor + 9 + taken)

def daysInMonth (year : ℤ) (month : ℕ) : ℕ :=
  let leap := year % 4 = 0 ∧ (year % 100 ≠ 0 ∨ year % 400 = 0)
  [31, if leap then 29 else 28, 31, 30, 31, 30, 31, 31, 30, 31, 30, 31].getD (month - 1) 0

/-- `civil_days` after its first step: `y` is the year that begins in March, `shifted` the month
from there. -/
def marchDays (y shifted day : ℤ) : Except Halt ℤ := do
  let eraYears ← i64 (y / 400 * 400)
  let yearOfEra ← i64 (y - eraYears)
  let shifted ← i64 shifted
  let scaled ← i64 (153 * shifted)
  let scaled ← i64 (scaled + 2)
  let dayOfYear ← i64 (scaled / 5 + day)
  let dayOfYear ← i64 (dayOfYear - 1)
  let eraDays ← i64 (y / 400 * 146097)
  let yearDays ← i64 (yearOfEra * 365)
  let sum ← i64 (eraDays + yearDays)
  let sum ← i64 (sum + yearOfEra / 4)
  let sum ← i64 (sum - yearOfEra / 100)
  let sum ← i64 (sum + dayOfYear)
  i64 (sum - 719468)

def civilDays (year : ℤ) (month day : ℕ) : Except Halt ℤ := do
  let y ← i64 (year - if month ≤ 2 then 1 else 0)
  marchDays y (month + if 2 < month then -3 else 9) day

/-- What a reading assumed. -/
inductive Note
  | year (year : Int32)
  | zone (zone : ZoneAssumption)
deriving DecidableEq

/-- `TimeReading`, and `ParsedText` where no field is named yet. -/
structure TimeReading where
  field : List Char
  unixNanos : ℤ
  format : TimeFormat
  assumption : List Note
deriving DecidableEq

/-- The clock and the offset, in seconds. -/
def clockSeconds (t : ScannedTime) : Except Halt ℤ := do
  let hours ← i64 (t.hour * 3600)
  let minutes ← i64 (t.minute * 60)
  let sum ← i64 (hours + minutes)
  i64 (sum + t.second)

/-- The year, and what was assumed for it. -/
def yearOf (t : ScannedTime) (assumedYear : Option Int32) : Except Halt (ℤ × List Note) :=
  match t.year, assumedYear with
  | some year, _ => .ok (year, [])
  | none, some year => .ok (year.toInt, [.year year])
  | none, none => .error (.refused .needsYear)

/-- The offset, and what was assumed for it. -/
def offsetOf (t : ScannedTime) (zone : ZoneAssumption) : Except Halt (ℤ × List Note) :=
  match t.offsetSeconds, zone.offsetSeconds with
  | some offset, _ => .ok (offset, [])
  | none, some offset => .ok (offset.toInt, [.zone zone])
  | none, none => .error (.refused .needsZone)

/-- The end of `finalize`: the instant of a date, a clock and an offset. -/
def instantOf (t : ScannedTime) (year offset : ℤ) : Except Halt ℤ :=
  if year < 1 ∨ ¬ (1 ≤ t.month ∧ t.month ≤ 12) then .error (.refused (.invalid .month))
  else if t.day < 1 ∨ daysInMonth year t.month < t.day then .error (.refused (.invalid .date))
  else if 23 < t.hour ∨ 59 < t.minute ∨ 60 < t.second then .error (.refused (.invalid .clock))
  else do
    let days ← civilDays year t.month t.day
    let base ← checked64 (days * 86400) .timestampRange
    let clock ← clockSeconds t
    let base ← checked64 (base + clock) .timestampRange
    let seconds ← checked64 (base - offset) .timestampRange
    let nanos ← checked64 (seconds * 1000000000) .timestampRange
    checked64 (nanos + t.nanos) .timestampRange

def finalize (t : ScannedTime) (selection : TimeFieldSelection) (field : List Char) :
    Except Halt TimeReading := do
  let (year, yearNotes) ← yearOf t selection.assumedYear
  let (offset, zoneNotes) ← offsetOf t selection.zone
  let unixNanos ← instantOf t year offset
  return { field, unixNanos, format := t.format, assumption := yearNotes ++ zoneNotes }

def parseTextTime (value : List UInt8) (selection : TimeFieldSelection) (field : List Char) :
    Except Halt TimeReading :=
  match (scanDatetime value).or (scanSyslog value) with
  | none => .error (.refused (.notATime .notDateTime))
  | some (t, consumed) =>
    if consumed ≠ value.length then .error (.refused (.invalid .trailing))
    else finalize t selection field

/-! ### Values and records -/

/-- A reading of a number in some unit. -/
def readEpoch (value : List UInt8) (unit : EpochUnit) (field : List Char) : Except Halt TimeReading := do
  let unixNanos ← epochNanos value unit
  return { field, unixNanos, format := .epoch unit, assumption := [] }

def interpretValue (found : ExtractedField) (selection : TimeFieldSelection) :
    Except Halt TimeReading :=
  let value := Utf8.encode (trim found.value)
  if value = [] then .error (.refused (.notATime .empty))
  else
    let numeric := found.numericType || isNumericToken value
    match selection.interpretation with
    | .epoch unit =>
      if ¬ numeric then .error (.refused (.invalid (.declaredEpoch unit)))
      else readEpoch value unit found.path
    | .text =>
      if numeric then .error (.refused (.invalid .declaredText))
      else parseTextTime value selection found.path
    | .auto =>
      if numeric then
        if found.priority = none then
          .error (.refused (.needsUnit (EpochUnit.all.find? (isPlausible value))))
        else match inferEpochUnit value with
        | .error refusal => .error (.refused refusal)
        | .ok unit =>
          match found.unitHint with
          | some hint =>
            if hint ≠ unit then .error (.refused (.invalid (.hint hint unit)))
            else readEpoch value unit found.path
          | none => readEpoch value unit found.path
      else parseTextTime value selection found.path

def MAX_RAW_PREFIX_BYTES : ℕ := 128

/-- The places after a `<digits>` at `cursor`, and after a version that follows it. -/
def priorityStarts (bs : List UInt8) (cursor : ℕ) : List ℕ :=
  let rest := bs.drop cursor
  let inside := rest.tail.takeWhile (· ≠ 62)
  if rest.head? = some 60 ∧ 62 ∈ rest ∧ inside.all isDigitByte then
    let «end» := cursor + inside.length + 2
    let version := ((bs.drop «end»).takeWhile isDigitByte).length
    if 0 < version ∧ bs[«end» + version]? = some 32 then [«end», «end» + version + 1] else [«end»]
  else []

/-- `prefix_starts`. -/
def beginnings (bs : List UInt8) : List ℕ :=
  let cursor := (bs.takeWhile fun b => b = 32 || b = 9).length
  let starts := cursor :: priorityStarts bs cursor
  let inner := starts.filterMap fun start =>
    if bs[start]? = some 91 ∨ bs[start]? = some 40 then some (start + 1) else none
  (starts ++ inner).take 6

/-- `u8::is_ascii_whitespace`. -/
def isBlankByte (b : UInt8) : Bool := b = 32 || b = 9 || b = 10 || b = 12 || b = 13

/-- The first word of some bytes (`split_ascii_whitespace`). -/
def firstWord (bs : List UInt8) : List UInt8 := (bs.dropWhile isBlankByte).takeWhile (!isBlankByte ·)

/-- The bytes of a text that `raw_prefix_reading` looks at. -/
def window (text : List Char) : List UInt8 := Utf8.encode (cutChars MAX_RAW_PREFIX_BYTES text)

/-- What some bytes begin with. -/
def scanAt (bs : List UInt8) (start : ℕ) : Option (ScannedTime × ℕ) :=
  (scanDatetime (bs.drop start)).or (scanSyslog (bs.drop start))

/-- `raw_prefix_reading`. -/
def rawBeginningReading (text : List Char) (selection : TimeFieldSelection) :
    Option (Except Halt TimeReading) :=
  let window := window text
  let starts := beginnings window
  match selection.interpretation with
  | .epoch unit =>
    starts.head?.bind fun start =>
      let token := firstWord (window.drop start)
      if isNumericToken token then some (readEpoch token unit "raw".toList) else none
  | _ => (starts.findSome? (scanAt window)).map fun (t, _) => finalize t selection "raw".toList

def MAX_RECOGNITION_RECORD_BYTES : ℕ := 1048576

inductive TimeOutcome
  | valid (reading : TimeReading)
  | invalid (field : List Char)
  | missing

/-- The outcome of a reading; none if it overflowed. -/
def outcomeOf (field : List Char) : Except Halt TimeReading → Option TimeOutcome
  | .ok reading => some (.valid reading)
  | .error (.refused _) => some (.invalid field)
  | .error .overflowed => none

def TimeFieldRef.label : TimeFieldRef → List Char
  | structured path => path
  | rawPrefix => "raw".toList
  | column name => "column:".toList ++ name

def TimeFieldSelection.read (fromStr : List Char → Option Json) (s : TimeFieldSelection)
    (raw : List UInt8) : Option TimeOutcome :=
  if MAX_RECOGNITION_RECORD_BYTES < raw.length then some (.invalid s.field.label)
  else
    let text := Utf8.decodeLossy raw
    match s.field with
    | .column _ => some (.invalid s.field.label)
    | .rawPrefix =>
      match rawBeginningReading text s with
      | some reading => outcomeOf s.field.label reading
      | none => some .missing
    | .structured path =>
      match structuredFields fromStr text with
      | .error _ => some (.invalid s.field.label)
      | .ok fields =>
        match fields.find? (·.path = path) with
        | none => some .missing
        | some found => outcomeOf s.field.label (interpretValue found s)

/-- `RecognitionOptions`, as far as one record is read by them. -/
structure RecognitionOptions where
  zone : ZoneAssumption
  assumedYear : Option Int32

def RecognitionOptions.selection (options : RecognitionOptions) (field : TimeFieldRef) :
    TimeFieldSelection :=
  { field, interpretation := .auto, zone := options.zone, assumedYear := options.assumedYear
    textFormat := none }

/-- The field whose key has the lowest rank, the first of several. -/
def highestRanked (fields : List ExtractedField) : Option ExtractedField :=
  fields.foldl (fun best found =>
    match found.priority, best.bind (·.priority) with
    | none, _ => best
    | some _, none => some found
    | some rank, some rank' => if rank < rank' then some found else best) none

/-- The loop of `recognize_record` over fields whose keys say nothing, and then its raw beginning. -/
def recognizeFields (options : RecognitionOptions) (text : List Char) :
    List ExtractedField → Option (List Char) → Option TimeOutcome
  | [], deferred =>
    match rawBeginningReading text (options.selection .rawPrefix) with
    | some reading => outcomeOf "raw".toList reading
    | none => match deferred with
      | some field => some (.invalid field)
      | none => some .missing
  | found :: fields, deferred =>
    match interpretValue found (options.selection (.structured found.path)) with
    | .ok reading => some (.valid reading)
    | .error (.refused .needsZone) | .error (.refused .needsYear) =>
      recognizeFields options text fields (deferred.or (some found.path))
    | .error (.refused _) => recognizeFields options text fields deferred
    | .error .overflowed => none

def recognizeRecord (fromStr : List Char → Option Json) (options : RecognitionOptions)
    (raw : List UInt8) : Option TimeOutcome :=
  if MAX_RECOGNITION_RECORD_BYTES < raw.length then some (.invalid "record".toList)
  else
    let text := Utf8.decodeLossy raw
    match structuredFields fromStr text with
    | .error _ =>
      match rawBeginningReading text (options.selection .rawPrefix) with
      | some (.ok reading) => some (.valid reading)
      | some (.error .overflowed) => none
      | _ => some (.invalid "logfmt".toList)
    | .ok fields =>
      match highestRanked fields with
      | some found =>
        outcomeOf found.path (interpretValue found (options.selection (.structured found.path)))
      | none => recognizeFields options text fields none

end Lvu.Time
