import Lvu.Data.Binary
import Lvu.Live.Reading
import Lvu.Query.TimeBasis

/-!
# The expression of a time basis

A declared basis is one expression over the cells of its column
(`lvu-query/src/time_field.rs`).  Integers of Polars wrap, and so do date-times that are parsed or
cast to nanoseconds; a cast to an integer that has no room for the value is null.  Doubles are
counted in units of the smallest one.

* `epochNanos`, `shiftNanos`, `checkedSecondsToNanos` : the three guards.
* `Basis.eval` : the expression on one cell.
* `denotes` : the instant that the cell denotes under the declaration.
-/

namespace Lvu.Query

open Binary (Floating Format)
open Time (EpochUnit ZoneAssumption Fits64)

/-! ### Cells -/

/-- `TimeUnit`, by its nanoseconds. -/
inductive TimeUnit
  | milliseconds
  | microseconds
  | nanoseconds

/-- The nanoseconds of a unit. -/
def TimeUnit.nanos : TimeUnit → ℤ
  | .milliseconds => 1000000
  | .microseconds => 1000
  | .nanoseconds => 1

/-- A value of a column.  An integer may have any width, a smaller float is the double it is equal
to; a date-time with a zone is kept as UTC. -/
inductive Cell
  | null
  | integer (value : ℤ)
  | float (value : Floating .f64)
  | datetime (value : Int64) (unit : TimeUnit) (aware : Bool)
  | text (value : List Char)

def compatible : ColumnTimeInterpretation → Cell → Prop
  | _, .null => True
  | .epoch _, .integer _ | .epoch _, .float _ => True
  | .native, .datetime _ _ _ => True
  | .text _, .text _ | .rfc3339, .text _ => True
  | _, _ => False

/-! ### Numbers -/

/-- The units of one. -/
def one : ℤ := 2 ^ Format.f64.scale

/-- The value of a finite double. -/
def signedUnits (x : Floating .f64) : ℤ :=
  if x.negative then -(Binary.units Format.f64.fraction x.magnitude : ℤ)
  else Binary.units Format.f64.fraction x.magnitude

/-- The double next to a value. -/
def nearest (n : ℤ) : ℤ :=
  n.sign * Binary.units Format.f64.fraction (Binary.round Format.f64.fraction 0 n.natAbs)

/-- The value of a number, if it is one. -/
def Cell.exact : Cell → Option ℤ
  | .integer value => some (value * one)
  | .float value => if value.IsFinite then some (signedUnits value) else none
  | _ => none

/-- `cast(Int64)`, of an integer: null if there is no room. -/
def castInt64 (n : ℤ) : Option Int64 :=
  if -2 ^ 63 ≤ n ∧ n < 2 ^ 63 then some (Int64.ofInt n) else none

/-- `epoch_nanos`, of a value.  The fraction is computed in doubles. -/
def epochNanos (scale : ℤ) (value : ℤ) : Option Int64 :=
  (castInt64 (value.tdiv one)).bind fun whole =>
    let fraction := nearest (nearest (nearest value - nearest (whole.toInt * one)) * scale)
    let limit := (2 ^ 63 - 1) / scale
    if -limit ≤ whole.toInt ∧ whole.toInt ≤ limit then
      (castInt64 (fraction.tdiv one)).map fun fraction =>
        whole * Int64.ofInt scale + fraction
    else none

/-- `shift`, of a date-time in nanoseconds. -/
def shiftNanos (nanos : Int64) (offset : Int32) : Int64 :=
  if offset = 0 then nanos else nanos - Int64.ofInt (offset.toInt * 1000000000)

/-! ### Text -/

/-- What a text denotes in a format: a local reading in nanoseconds, and the offset that it carries
in seconds. -/
structure Moment where
  localNanos : ℤ
  offset : Option ℤ
  offset_lt : ∀ seconds ∈ offset, seconds.natAbs < 86400

/-- The instant of a reading, with the declared offset if it carries none. -/
def Moment.instant (moment : Moment) (declared : ℤ) : ℤ :=
  moment.localNanos - moment.offset.getD declared * 1000000000

/-- What Polars makes of texts: what a text denotes in a format, and what `strptime` reads, with a
zone or without, in nanoseconds before they wrap.  It may read nothing. -/
structure Strptime where
  chrono : List Char → List Char → Option Moment
  nanos : List Char → Bool → List Char → Option ℤ
  /-- The offset of a text is applied, and UTC is the zone of one that has none; where no zone is
  asked for, the offset may be dropped. -/
  reading : ∀ format aware value n, nanos format aware value = some n → ∃ moment,
    chrono format value = some moment ∧
      (n = moment.instant 0 ∨ aware = false ∧ n = moment.localNanos)

/-- The end of a text in the RFC 3339 profile. -/
inductive Suffix
  | utc
  | offset (negative : Bool) (hours minutes : List Char)

/-- The parts of a text in the RFC 3339 profile. -/
structure Spelled where
  year : List Char
  month : List Char
  day : List Char
  hour : List Char
  minute : List Char
  second : List Char
  fraction : Option (List Char)
  suffix : Suffix

section

variable (isNd : Char → Bool)

/-- So many digits, in the sense of `\d`: any decimal digit of Unicode. -/
def digits (n : ℕ) (cs : List Char) : Option (List Char × List Char) :=
  if (cs.take n).length = n ∧ (cs.take n).all isNd then some (cs.take n, cs.drop n) else none

/-- One character. -/
def char (c : Char) : List Char → Option (List Char)
  | d :: cs => if d = c then some cs else none
  | [] => none

/-- `(?:\.\d{1,9})?`, before something that is no digit. -/
def fractionSyntax : List Char → Option (Option (List Char) × List Char)
  | '.' :: cs =>
    let run := cs.takeWhile isNd
    if 1 ≤ run.length ∧ run.length ≤ 9 then some (some run, cs.dropWhile isNd) else none
  | cs => some (none, cs)

/-- `(?:Z|\s*UTC|[+-](?:[01]\d|2[0-3]):[0-5]\d)$`. -/
def suffixSyntax : List Char → Option Suffix
  | ['Z'] => some .utc
  | [sign, h, h', ':', m, m'] =>
    if (sign = '+' ∨ sign = '-') ∧
        ((h = '0' ∨ h = '1') ∧ isNd h' ∨ h = '2' ∧ '0' ≤ h' ∧ h' ≤ '3') ∧
        ('0' ≤ m ∧ m ≤ '5') ∧ isNd m' then
      some (.offset (sign = '-') [h, h'] [m, m'])
    else none
  | cs => if cs.dropWhile Time.isWhitespace = ['U', 'T', 'C'] then some .utc else none

def extractedTimeSyntax (cs : List Char) : Option Spelled :=
  (digits isNd 4 cs).bind fun (year, cs) => (char '-' cs).bind fun cs =>
  (digits isNd 2 cs).bind fun (month, cs) => (char '-' cs).bind fun cs =>
  (digits isNd 2 cs).bind fun (day, cs) => (char 'T' cs).bind fun cs =>
  (digits isNd 2 cs).bind fun (hour, cs) => (char ':' cs).bind fun cs =>
  (digits isNd 2 cs).bind fun (minute, cs) => (char ':' cs).bind fun cs =>
  (digits isNd 2 cs).bind fun (second, cs) =>
    if second.head?.any fun c => decide ('0' ≤ c ∧ c ≤ '5') then
      (fractionSyntax isNd cs).bind fun (fraction, cs) =>
        (suffixSyntax isNd cs).map fun suffix =>
          ⟨year, month, day, hour, minute, second, fraction, suffix⟩
    else none

end

/-- The seconds of an offset. -/
def Suffix.seconds : Suffix → Option ℤ
  | .utc => some 0
  | .offset negative hours minutes =>
    (readNat hours).bind fun hours => (readNat minutes).map fun minutes =>
      (if negative then -1 else 1) * ((hours * 3600 + minutes * 60 : ℕ) : ℤ)

/-- The whole seconds of a date and time that exist, less the offset. -/
def Spelled.seconds (s : Spelled) : Option ℤ :=
  (readNat s.year).bind fun year => (readNat s.month).bind fun month =>
  (readNat s.day).bind fun day => (readNat s.hour).bind fun hour =>
  (readNat s.minute).bind fun minute => (readNat s.second).bind fun second =>
  s.suffix.seconds.bind fun offset =>
    if 1 ≤ month ∧ month ≤ 12 ∧ 1 ≤ day ∧ (day : ℤ) ≤ Calendar.monthDays year month ∧
        hour ≤ 23 ∧ minute ≤ 59 then
      some ((Calendar.dayNumber year month day - Calendar.dayNumber 1970 1 1) * 86400 +
        (hour * 3600 + minute * 60 + second : ℕ) - offset)
    else none

/-- `gt(0)`, of the first four digits as an `Int32`. -/
def Spelled.yearPositive (s : Spelled) : Bool := (readNat s.year).any (0 < ·)

/-- The scale of so many digits. -/
def fractionScale : ℕ → ℤ
  | 1 => 100000000
  | 2 => 10000000
  | 3 => 1000000
  | 4 => 100000
  | 5 => 10000
  | 6 => 1000
  | 7 => 100
  | 8 => 10
  | _ => 1

/-- `extracted_fraction_nanos`: no digits, and digits that are not read, are zero. -/
def extractedFractionNanos (fraction : Option (List Char)) : Int64 :=
  Int64.ofInt (((fraction.bind readNat).getD 0 : ℕ) *
    fractionScale ((fraction.map byteSize).getD 0))

/-- `extracted_seconds_half`, of the two spellings: whole seconds, by way of milliseconds. -/
def extractedSeconds (s : Spelled) : Option Int64 :=
  s.seconds.map fun seconds =>
    Int64.ofInt ((Int64.ofInt (seconds * 1000)).toInt.tdiv 1000)

def checkedSecondsToNanos (seconds fraction : Int64) : Option Int64 :=
  let limit : ℤ := (2 ^ 63 - 1) / 1000000000
  let most : ℤ := 2 ^ 63 - 1 - limit * 1000000000
  if -limit ≤ seconds.toInt ∧ seconds.toInt ≤ limit ∧
      (seconds.toInt < limit ∨ fraction.toInt ≤ most) then
    some (seconds * 1000000000 + fraction)
  else none

/-- The expression of the RFC 3339 profile. -/
def rfc3339Nanos (isNd : Char → Bool) (text : List Char) : Option Int64 :=
  (extractedTimeSyntax isNd (Time.trim text)).bind fun spelled =>
    if spelled.yearPositive then
      (extractedSeconds spelled).bind fun seconds =>
        checkedSecondsToNanos seconds (extractedFractionNanos spelled.fraction)
    else none

/-! ### Values -/

variable (isNd : Char → Bool) (polars : Strptime)

/-- The expression on one cell. -/
def Basis.eval : Basis → Cell → Option Int64
  | .rfc3339, .text value => rfc3339Nanos isNd value
  | .epoch scale, cell => cell.exact.bind (epochNanos scale)
  | .native offset, .datetime value unit _ =>
    some (shiftNanos (value * Int64.ofInt unit.nanos) offset)
  | .text format aware offset, .text value =>
    (polars.nanos format aware value).map fun n => shiftNanos (Int64.ofInt n) offset
  | _, _ => none

/-- The declared offset, in seconds. -/
def declared (zone : ZoneAssumption) : ℤ := (zone.offsetSeconds.map Int32.toInt).getD 0

/-- The nanoseconds of a fraction. -/
def fractionNanos : Option (List Char) → Option ℤ
  | none => some 0
  | some cs => (readNat cs).map fun n : ℕ => (n : ℤ) * 10 ^ (9 - cs.length)

/-- What a text of the RFC 3339 profile denotes. -/
def rfc3339Instant (text : List Char) : Option ℤ :=
  (extractedTimeSyntax isNd (Time.trim text)).bind fun spelled =>
    if spelled.yearPositive then
      spelled.seconds.bind fun seconds => (fractionNanos spelled.fraction).map fun fraction =>
        seconds * 1000000000 + fraction
    else none

/-- **The instant that a cell denotes** under a declaration, in UTC nanoseconds. -/
def denotes (selection : TimeColumnSelection) : Cell → Option ℤ
  | .null => none
  | .datetime value unit aware => some (value.toInt * unit.nanos -
      if aware then 0 else declared selection.zone * 1000000000)
  | .text value =>
    match selection.interpretation with
    | .text format => (polars.chrono format value).map (·.instant (declared selection.zone))
    | _ => rfc3339Instant isNd value
  | cell =>
    match selection.interpretation with
    | .epoch unit => cell.exact.map fun value =>
        value.tdiv one * unit.nanosPerUnit + (value.tmod one * unit.nanosPerUnit).tdiv one
    | _ => none

end Lvu.Query
