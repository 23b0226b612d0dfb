import Lvu.Data.Decimal
import Lvu.Data.Text
import Mathlib.Data.List.DropRight

/-!
# Time fields

Which field of a record its event time is read from, and how (`lvu-live/src/time.rs`).  A choice is
stored as a token: its parts, with `|` between them.  A text is the list of its characters.
-/

namespace Lvu.Time

/-! ### Units, zones, readings -/

inductive EpochUnit
  | seconds | milliseconds | microseconds | nanoseconds
deriving DecidableEq

namespace EpochUnit

def all : List EpochUnit := [seconds, milliseconds, microseconds, nanoseconds]

def token : EpochUnit → List Char
  | seconds => ['s']
  | milliseconds => ['m', 's']
  | microseconds => ['u', 's']
  | nanoseconds => ['n', 's']

def parseToken (token : List Char) : Option EpochUnit :=
  if token ∈ ["s".toList, "sec".toList, "secs".toList, "seconds".toList] then some seconds
  else if token ∈ ["ms".toList, "millis".toList, "milliseconds".toList] then some milliseconds
  else if token ∈ ["us".toList, "micros".toList, "microseconds".toList] then some microseconds
  else if token ∈ ["ns".toList, "nanos".toList, "nanoseconds".toList] then some nanoseconds
  else none

def nanosPerUnit : EpochUnit → ℤ
  | seconds => 1000000000
  | milliseconds => 1000000
  | microseconds => 1000
  | nanoseconds => 1

end EpochUnit

inductive ZoneAssumption
  | reject
  | utc
  | fixedOffsetSeconds (offset : Int32)
deriving DecidableEq

/-- An `i32` as it is read from a text. -/
def parseInt32 (cs : List Char) : Option Int32 :=
  (readInt Int32.minValue.toInt Int32.maxValue.toInt cs).map Int32.ofInt

namespace ZoneAssumption

def offsetSeconds : ZoneAssumption → Option Int32
  | reject => none
  | utc => some 0
  | fixedOffsetSeconds offset => some offset

/-- An offset that `parse_token` lets through: `offset.abs() < 86_400`, where `abs` does not
overflow. -/
def inRange (offset : Int32) : Bool := -86400 < offset ∧ offset < 86400

def token : ZoneAssumption → List Char
  | reject => "reject".toList
  | utc => "utc".toList
  | fixedOffsetSeconds offset => "offset".toList ++ decimal offset.toInt

def parseToken (token : List Char) : Option ZoneAssumption :=
  if token = "reject".toList then some reject
  else if token = "utc".toList then some utc
  else (token.dropPrefix? "offset".toList).bind fun value =>
    ((parseInt32 value).filter inRange).map fixedOffsetSeconds

end ZoneAssumption

inductive TimeInterpretation
  | auto
  | text
  | epoch (unit : EpochUnit)
deriving DecidableEq

namespace TimeInterpretation

def token : TimeInterpretation → List Char
  | auto => "auto".toList
  | text => "text".toList
  | epoch unit => "epoch_".toList ++ unit.token

def parseToken (token : List Char) : Option TimeInterpretation :=
  if token = "auto".toList then some auto
  else if token = "text".toList then some text
  else (token.dropPrefix? "epoch_".toList).bind fun value =>
    (EpochUnit.parseToken value).map epoch

end TimeInterpretation

/-! ### A selection -/

inductive TimeFieldRef
  | structured (path : List Char)
  | rawPrefix
  | column (name : List Char)
deriving DecidableEq

structure TimeFieldSelection where
  field : TimeFieldRef
  interpretation : TimeInterpretation
  zone : ZoneAssumption
  assumedYear : Option Int32
  textFormat : Option (List Char)
deriving DecidableEq

def MAX_TIME_FORMAT_BYTES : ℕ := 64

/-- `char::is_whitespace`: the property `White_Space`. -/
def isWhitespace (c : Char) : Bool :=
  let n := c.toNat
  9 ≤ n ∧ n ≤ 13 ∨ n = 32 ∨ n = 0x85 ∨ n = 0xA0 ∨ n = 0x1680 ∨ 0x2000 ≤ n ∧ n ≤ 0x200A ∨
    n = 0x2028 ∨ n = 0x2029 ∨ n = 0x202F ∨ n = 0x205F ∨ n = 0x3000

/-- `str::trim`. -/
def trim (cs : List Char) : List Char := (cs.dropWhile isWhitespace).rdropWhile isWhitespace

def textFormatError (format : List Char) : Option String :=
  if trim format = [] then some "a time format cannot be empty"
  else if MAX_TIME_FORMAT_BYTES < byteSize format then some "a time format is at most 64 bytes"
  else if '|' ∈ format then some "a time format cannot contain '|'"
  else none

/-- The field part of a token. -/
def TimeFieldRef.token : TimeFieldRef → List Char
  | structured path => "structured:".toList ++ path
  | rawPrefix => "raw".toList
  | column name => "column:".toList ++ name

/-- What stands for an absent year, and for an absent format. -/
def absent : List Char := ['-']

/-- The parts of a token. -/
def TimeFieldSelection.parts (s : TimeFieldSelection) : List (List Char) :=
  [s.field.token, s.interpretation.token, s.zone.token,
    (s.assumedYear.map fun year => decimal year.toInt).getD absent, s.textFormat.getD absent]

def TimeFieldSelection.toToken (s : TimeFieldSelection) : List Char := ['|'].intercalate s.parts

/-- Why a token is refused. -/
inductive TokenError
  | parts
  | field (part : List Char)
  | interpretation (part : List Char)
  | zone (part : List Char)
  | year (part : List Char)
  | format
deriving DecidableEq

/-- The field that a part of a token names. -/
def parseField (field : List Char) : Except TokenError TimeFieldRef :=
  if field = "raw".toList then .ok .rawPrefix
  else match field.dropPrefix? "structured:".toList with
  | some path => .ok (.structured path)
  | none => match field.dropPrefix? "column:".toList with
    | some name => .ok (.column name)
    | none => .error (.field field)

/-- The year that a part of a token states. -/
def parseYear (year : List Char) : Except TokenError (Option Int32) :=
  if year = absent then .ok none
  else match parseInt32 year with
  | some year => .ok (some year)
  | none => .error (.year year)

/-- The format that a part of a token states. -/
def parseFormat (format : List Char) : Except TokenError (Option (List Char)) :=
  if format = absent then .ok none
  else if MAX_TIME_FORMAT_BYTES < byteSize format then .error .format
  else .ok (some format)

/-- The selection that five parts make. -/
def parseParts (field interpretation zone year format : List Char) :
    Except TokenError TimeFieldSelection := do
  let field ← parseField field
  let interpretation ← match TimeInterpretation.parseToken interpretation with
    | some interpretation => .ok interpretation
    | none => .error (.interpretation interpretation)
  let zone ← match ZoneAssumption.parseToken zone with
    | some zone => .ok zone
    | none => .error (.zone zone)
  let assumedYear ← parseYear year
  let textFormat ← parseFormat format
  return { field, interpretation, zone, assumedYear, textFormat }

/-- `TimeFieldSelection::parse_token`.  Four parts are a token without a format. -/
def parseToken (token : List Char) : Except TokenError TimeFieldSelection :=
  match token.splitOn '|' with
  | [field, interpretation, zone, year] => parseParts field interpretation zone year absent
  | [field, interpretation, zone, year, format] => parseParts field interpretation zone year format
  | _ => .error .parts

end Lvu.Time
