import Lvu.Data.Binary
import Lvu.Data.Decimal
import Lvu.View.CommitDigest

/-!
# Typed values of a frozen input

A precise replay encodes the cells of a view as JSON, with the native type of each
(`lvu-view/src/export.rs`), and a union decodes them into columns again
(`lvu-view/src/union.rs`).

* `preciseJsonValue`, `inputField` : the encoder.
* `decodeTypedField`, `decodeInferredField`, `decodeUnionField` : the decoder.
-/

namespace Lvu.View.FrozenField

open Binary CandidateDigest

variable {α : Type}

/-! ### Types and values -/

/-- The width of a machine integer. -/
inductive Width
  | w8
  | w16
  | w32
  | w64
deriving DecidableEq

/-- The number of bits. -/
def Width.bits : Width → ℕ
  | .w8 => 8
  | .w16 => 16
  | .w32 => 32
  | .w64 => 64

theorem Width.bits_le (w : Width) : w.bits ≤ 64 := by cases w <;> decide

/-- A scalar type that a union supports. -/
inductive Scalar
  | boolean
  | int (width : Width)
  | uint (width : Width)
  | float32
  | float64
  | string

/-- Its `{:?}`. -/
def Scalar.spelling : Scalar → String
  | .boolean => "Boolean"
  | .int .w8 => "Int8"
  | .int .w16 => "Int16"
  | .int .w32 => "Int32"
  | .int .w64 => "Int64"
  | .uint .w8 => "UInt8"
  | .uint .w16 => "UInt16"
  | .uint .w32 => "UInt32"
  | .uint .w64 => "UInt64"
  | .float32 => "Float32"
  | .float64 => "Float64"
  | .string => "String"

/-- `DataType`: a supported scalar, the unknown type, or any other by its `{:?}`. -/
inductive DataType
  | scalar (kind : Scalar)
  | null
  | other (spelling : String)
      (unsupported : spelling ≠ "Null" ∧ ∀ kind : Scalar, kind.spelling ≠ spelling)

/-- Its `{:?}`. -/
def DataType.spelling : DataType → String
  | .scalar kind => kind.spelling
  | .null => "Null"
  | .other spelling _ => spelling

/-- `TimeUnit`, in lower case. -/
inductive TimeUnit
  | nanoseconds
  | microseconds
  | milliseconds

def TimeUnit.lower : TimeUnit → String
  | .nanoseconds => "nanoseconds"
  | .microseconds => "microseconds"
  | .milliseconds => "milliseconds"

inductive AnyValue
  | null
  | boolean (value : Bool)
  | string (value : String)
  | uint (width : Width) (value : BitVec width.bits)
  | uint128 (value : BitVec 128)
  | int (width : Width) (value : BitVec width.bits)
  | int128 (value : BitVec 128)
  | float16 (value : Floating .f16)
  | float32 (value : Floating .f32)
  | float64 (value : Floating .f64)
  | date (days : Int32)
  | datetime (value : Int64) (unit : TimeUnit) (timezone : Option String)
  | duration (value : Int64) (unit : TimeUnit)
  | time (value : Int64)
  | list (values : List AnyValue)
  /-- Any other, by the `{:?}` of its type. -/
  | unsupported (dtype : String)

/-! ### The encoder -/

/-- `Number::from`, of a signed integer. -/
def fromI64 (value : Int64) : Number :=
  if h : value < 0 then .negInt value h else .posInt value.toUInt64

/-- `Number::from_f64`. -/
def fromF64 (value : Floating .f64) : Option Number :=
  if value.IsFinite then some (.float (UInt64.ofNat value.bits)) else none

def maxSafeInteger : ℕ := 2 ^ 53 - 1

/-- An integer as it is printed. -/
def toText (value : ℤ) : String := String.ofList (decimal value)

/-- An object of a kind and a number in decimal. -/
def wrapped (kind : String) (value : ℤ) : Json :=
  .object [("decimal", .string (toText value)), ("kind", .string kind)]

mutual

def preciseJsonValue : AnyValue → Except String Json
  | .null => .ok .null
  | .boolean value => .ok (.bool value)
  | .string value => .ok (.string value)
  | .uint width value =>
    if width = .w64 ∧ maxSafeInteger < value.toNat then .ok (wrapped "u64" value.toNat)
    else .ok (.number (.posInt (UInt64.ofNat value.toNat)))
  | .uint128 value => .ok (wrapped "u128" value.toNat)
  | .int width value =>
    if width = .w64 ∧ maxSafeInteger < value.toInt.natAbs then .ok (wrapped "i64" value.toInt)
    else .ok (.number (fromI64 (Int64.ofInt value.toInt)))
  | .int128 value => .ok (wrapped "i128" value.toInt)
  | .float16 value =>
    match fromF64 ((value.convert .f32).convert .f64) with
    | some number => .ok (.number number)
    | none => .error "non-finite Float16"
  | .float32 value =>
    match fromF64 (value.convert .f64) with
    | some number => .ok (.number number)
    | none => .error "non-finite Float32"
  | .float64 value =>
    match fromF64 value with
    | some number => .ok (.number number)
    | none => .error "non-finite Float64"
  | .date days => .ok (.object [("days_since_unix_epoch", .string (toText days.toInt)),
      ("kind", .string "date")])
  | .datetime value unit timezone => .ok (.object [("integer", .string (toText value.toInt)),
      ("kind", .string "datetime"), ("timezone", (timezone.map Json.string).getD .null),
      ("unit", .string unit.lower)])
  | .duration value unit => .ok (.object [("integer", .string (toText value.toInt)),
      ("kind", .string "duration"), ("unit", .string unit.lower)])
  | .time value => .ok (.object [("kind", .string "time"),
      ("nanoseconds_since_midnight", .string (toText value.toInt))])
  | .list values =>
    match preciseJsonValues values with
    | .ok values => .ok (.array values)
    | .error message => .error message
  | .unsupported dtype => .error ("unsupported value type " ++ dtype)

/-- The values of a list. -/
def preciseJsonValues : List AnyValue → Except String (List Json)
  | [] => .ok []
  | value :: values =>
    match preciseJsonValue value with
    | .error message => .error message
    | .ok value =>
      match preciseJsonValues values with
      | .error message => .error message
      | .ok values => .ok (value :: values)

end

def preciseJsonValueForField (observedType : Option String) (value : AnyValue) (derived : Bool) :
    Except String Json :=
  if !derived && (observedType = some "int64" || observedType = some "uint64") then
    match value with
    | .null => .error "canonical projection is null after a raw integer type conflict"
    | .float32 _ | .float64 _ =>
      .error "canonical projection coerces a raw integer through a potentially lossy float"
    | value => preciseJsonValue value
  else preciseJsonValue value

/-- What a value of a type can be. -/
def AnyValue.Fits : AnyValue → DataType → Prop
  | .null, _ => True
  | .boolean _, .scalar .boolean => True
  | .string _, .scalar .string => True
  | .uint width _, .scalar (.uint width') => width = width'
  | .int width _, .scalar (.int width') => width = width'
  | .float32 _, .scalar .float32 => True
  | .float64 _, .scalar .float64 => True
  | _, .other _ _ => True
  | _, _ => False

/-- One cell of a batch's frame: the type of its column, the type that the parser has observed, and
the value. -/
structure Cell where
  dtype : DataType
  observed : Option String
  value : AnyValue
  fits : value.Fits dtype

/-- What a frozen row has under one name. -/
structure FrozenCell where
  field : Option Json
  fieldType : Option String
  omitted : Option String

/-- The reason for an omission that a union reads as an absence. -/
def missing : String := "field missing from source record"

/-- `input_row`, for one column, in a precise replay.  A derived column has no observed type; a
batch may lack the column. -/
def inputField (derived : Bool) : Option Cell → FrozenCell
  | none => ⟨none, none, none⟩
  | some cell =>
    let dtype := some cell.dtype.spelling
    let observed := if derived then none else cell.observed
    if !derived && observed.isNone then ⟨none, dtype, some missing⟩
    else if observed = some "object" || observed = some "array" then
      ⟨none, dtype, some "structured object/array requires explicit conversion"⟩
    else
      match preciseJsonValueForField observed cell.value derived with
      | .ok value => ⟨some value, dtype, none⟩
      | .error message => ⟨none, dtype, some message⟩

/-- An input and a field of it. -/
structure Subject where
  viewId : String
  field : String

/-- What an error of the decoder says of the input and the field. -/
inductive Reason
  /-- "conflicting native dtype evidence across records" -/
  | conflictingEvidence
  /-- "field has values but no native dtype evidence" -/
  | noEvidence
  /-- "conflicting value kinds across records" -/
  | conflictingKinds
  /-- "whole numbers fit neither Int64 nor UInt64" -/
  | wholeNumbers
  /-- "declared … but found …" -/
  | declared (dtype : String) (found : Json)
  /-- "declared … but found negative …" -/
  | negative (dtype : String) (value : Int64)
  /-- "declared Float32 but … does not round-trip" -/
  | inexact (value : Floating .f64)
  /-- "declared … but a value overflows it" -/
  | overflows (dtype : String)
  /-- "non-null value under unknown native type" -/
  | unknownType

/-- `UnionError`, as far as the decoder makes one. -/
inductive UnionError
  | unsupportedValue (subject : Subject) (dtype reason : String)
  | engine (subject : Subject) (reason : Reason)

/-- Why a candidate is rejected: a whole value was omitted by the replay, or the union fails. -/
inductive Refusal
  | omitted (subject : Subject) (dtype reason : String)
  | union (error : UnionError)

/-- A row that a union freezes: an omission for any other reason rejects the candidate. -/
def freezeCell (subject : Subject) (derived : Bool) (cell : Option Cell) :
    Except Refusal FrozenCell :=
  let row := inputField derived cell
  match row.omitted with
  | none => .ok row
  | some reason =>
    if reason = missing then .ok row
    else .error (.omitted subject (row.fieldType.getD "unknown") reason)

/-- The loop over the rows. -/
def freezeInput (subject : Subject) (derived : Bool) (cells : List (Option Cell)) :
    Except Refusal (List FrozenCell) :=
  cells.mapM (freezeCell subject derived)

/-! ### The decoder -/

inductive FrozenInt
  | signed (value : Int64)
  | unsigned (value : UInt64)

/-- `Number::is_f64` and `Number::as_f64`, of a number that is one. -/
def asF64 : Number → Option (Floating .f64)
  | .float bits => some (.ofBits .f64 bits.toNat)
  | .posInt _ | .negInt _ _ => none

/-- `str::parse::<i64>`. -/
def parseI64 (text : String) : Option Int64 :=
  (readInt (-2 ^ 63) (2 ^ 63 - 1) text.toList).map Int64.ofInt

/-- The number that a text denotes which may have a plus sign. -/
def readUnsigned : List Char → Option ℕ
  | '+' :: cs => readNat cs
  | cs => readNat cs

/-- `str::parse::<u64>`. -/
def parseU64 (text : String) : Option UInt64 :=
  ((readUnsigned text.toList).filter (· < 2 ^ 64)).map UInt64.ofNat

/-- `Value::as_str`. -/
def asStr : Json → Option String
  | .string value => some value
  | _ => none

def frozenInt : Json → Option FrozenInt
  | .number number =>
    match number.asI64 with
    | some value => some (.signed value)
    | none => number.asU64.map .unsigned
  | .object entries =>
    if entries.length = 2 then
      ((entries.lookup "kind").bind asStr).bind fun kind =>
        ((entries.lookup "decimal").bind asStr).bind fun decimal =>
          if kind = "i64" then (parseI64 decimal).map .signed
          else if kind = "u64" then (parseU64 decimal).map .unsigned
          else none
    else none
  | _ => none

/-- A typed column. -/
structure Column where
  dtype : DataType
  values : List AnyValue

/-- A value or null. -/
def orNull (f : α → AnyValue) (value : Option α) : AnyValue := (value.map f).getD .null

/-- The value of a field in one row; nothing and null are null. -/
def decodeCell (f : Json → Except UnionError α) : Option Json → Except UnionError (Option α)
  | none | some .null => .ok none
  | some value => (f value).map some

/-- The values of a field. -/
def decodeCells (f : Json → Except UnionError α) (rows : List FrozenCell) :
    Except UnionError (List (Option α)) :=
  rows.mapM fun row => decodeCell f row.field

/-- `strict_cast`, to a signed integer of a width. -/
def castSigned (subject : Subject) (width : Width) (value : Option Int64) :
    Except UnionError AnyValue :=
  match value with
  | none => .ok .null
  | some value =>
    if -2 ^ (width.bits - 1) ≤ value.toInt ∧ value.toInt < 2 ^ (width.bits - 1) then
      .ok (.int width (BitVec.ofInt width.bits value.toInt))
    else .error (.engine subject (.overflows (Scalar.int width).spelling))

/-- `strict_cast`, to an unsigned integer of a width. -/
def castUnsigned (subject : Subject) (width : Width) (value : Option UInt64) :
    Except UnionError AnyValue :=
  match value with
  | none => .ok .null
  | some value =>
    if value.toNat < 2 ^ width.bits then .ok (.uint width (BitVec.ofNat width.bits value.toNat))
    else .error (.engine subject (.overflows (Scalar.uint width).spelling))

section

variable (subject : Subject)

/-- A value under a signed declaration. -/
def signedValue (dtype : String) (value : Json) : Except UnionError Int64 :=
  match frozenInt value with
  | some (.signed value) => .ok value
  | some (.unsigned _) | none => .error (.engine subject (.declared dtype value))

/-- A value under an unsigned declaration. -/
def unsignedValue (dtype : String) (value : Json) : Except UnionError UInt64 :=
  match frozenInt value with
  | some (.unsigned value) => .ok value
  | some (.signed value) =>
    if value < 0 then .error (.engine subject (.negative dtype value)) else .ok value.toUInt64
  | none => .error (.engine subject (.declared dtype value))

/-- A value under the declaration `Boolean`. -/
def booleanValue : Json → Except UnionError Bool
  | .bool value => .ok value
  | other => .error (.engine subject (.declared "Boolean" other))

/-- A value under the declaration `String`. -/
def stringValue : Json → Except UnionError String
  | .string value => .ok value
  | other => .error (.engine subject (.declared "String" other))

/-- A value under the declaration `Float64`. -/
def float64Value : Json → Except UnionError (Floating .f64)
  | .number number =>
    match asF64 number with
    | some value => .ok value
    | none => .error (.engine subject (.declared "Float64" (.number number)))
  | other => .error (.engine subject (.declared "Float64" other))

/-- A value under the declaration `Float32`. -/
def float32Value : Json → Except UnionError (Floating .f32)
  | .number number =>
    match asF64 number with
    | some value =>
      let narrow : Floating .f32 := value.convert .f32
      if (narrow.convert .f64).Equals value then .ok narrow
      else .error (.engine subject (.inexact value))
    | none => .error (.engine subject (.declared "Float32" (.number number)))
  | other => .error (.engine subject (.declared "Float32" other))

/-- The column of a signed declaration. -/
def decodeSigned (rows : List FrozenCell) (width : Width) : Except UnionError (Option Column) :=
  (decodeCells (signedValue subject (Scalar.int width).spelling) rows).bind fun values =>
    (values.mapM (castSigned subject width)).map fun values => some ⟨.scalar (.int width), values⟩

/-- The column of an unsigned declaration. -/
def decodeUnsigned (rows : List FrozenCell) (width : Width) : Except UnionError (Option Column) :=
  (decodeCells (unsignedValue subject (Scalar.uint width).spelling) rows).bind fun values =>
    (values.mapM (castUnsigned subject width)).map fun values =>
      some ⟨.scalar (.uint width), values⟩

def presentCount (rows : List FrozenCell) : ℕ :=
  (rows.filter fun row => match row.field with
    | none | some .null => false
    | some _ => true).length

def decodeTypedField (rows : List FrozenCell) (dtype : String) :
    Except UnionError (Option Column) :=
  match dtype with
  | "Boolean" => (decodeCells (booleanValue subject) rows).map fun values =>
      some ⟨.scalar .boolean, values.map (orNull .boolean)⟩
  | "String" => (decodeCells (stringValue subject) rows).map fun values =>
      some ⟨.scalar .string, values.map (orNull .string)⟩
  | "Float64" => (decodeCells (float64Value subject) rows).map fun values =>
      some ⟨.scalar .float64, values.map (orNull .float64)⟩
  | "Float32" => (decodeCells (float32Value subject) rows).map fun values =>
      some ⟨.scalar .float32, values.map (orNull .float32)⟩
  | "Int8" => decodeSigned subject rows .w8
  | "Int16" => decodeSigned subject rows .w16
  | "Int32" => decodeSigned subject rows .w32
  | "Int64" => decodeSigned subject rows .w64
  | "UInt8" => decodeUnsigned subject rows .w8
  | "UInt16" => decodeUnsigned subject rows .w16
  | "UInt32" => decodeUnsigned subject rows .w32
  | "UInt64" => decodeUnsigned subject rows .w64
  | "Null" =>
    if 0 < presentCount rows then .error (.engine subject .unknownType) else .ok none
  | _ => .error (.unsupportedValue subject dtype
      "no native union encoding carries this type yet; normalize upstream in enrichment")

def decodeInferredField (rows : List FrozenCell) : Except UnionError (Option Column) :=
  let fields := rows.map (·.field)
  let nested := fields.any fun field => match field with
    | some (.array _) | some (.object _) => true
    | _ => false
  let hasBool := fields.any fun field => match field with
    | some (.bool _) => true
    | _ => false
  let hasInt := fields.any fun field => match field with
    | some (.number number) => (asF64 number).isNone
    | _ => false
  let hasFloat := fields.any fun field => match field with
    | some (.number number) => (asF64 number).isSome
    | _ => false
  let hasString := fields.any fun field => match field with
    | some (.string _) => true
    | _ => false
  let kinds := ([hasBool, hasInt, hasFloat, hasString].filter id).length
  let numbers := fields.map fun field => match field with
    | some (.number number) => some number
    | _ => none
  if nested then .error (.unsupportedValue subject "unknown"
    "nested values need native dtype evidence; no coercion to text")
  else if kinds = 0 then .error (.engine subject .noEvidence)
  else if 1 < kinds then .error (.engine subject .conflictingKinds)
  else if hasBool then .ok (some ⟨.scalar .boolean, fields.map fun field => match field with
    | some (.bool value) => .boolean value
    | _ => .null⟩)
  else if hasInt then
    let ints := numbers.map fun number => number.bind Number.asI64
    let uints := numbers.map fun number => number.bind Number.asU64
    if ints.reduceOption.length = presentCount rows then
      .ok (some ⟨.scalar (.int .w64), ints.map (orNull fun value => .int .w64 value.toBitVec)⟩)
    else if uints.reduceOption.length = presentCount rows then
      .ok (some ⟨.scalar (.uint .w64), uints.map (orNull fun value => .uint .w64 value.toBitVec)⟩)
    else .error (.engine subject .wholeNumbers)
  else if hasFloat then
    .ok (some ⟨.scalar .float64, numbers.map fun number => orNull .float64 (number.bind asF64)⟩)
  else .ok (some ⟨.scalar .string, fields.map fun field => orNull .string (field.bind asStr)⟩)

/-- What the loop over the rows knows of the evidence. -/
structure Evidence where
  declared : Option String
  evidenced : Bool
  sawMissing : Bool

/-- The loop of `decode_union_field` over the rows that carry the field. -/
def evidence : List FrozenCell → Evidence → Except UnionError Evidence
  | [], seen => .ok seen
  | row :: rows, seen =>
    if row.field.isNone then evidence rows seen
    else match row.fieldType, seen.declared with
      | some dtype, none => evidence rows { seen with declared := some dtype, evidenced := true }
      | some dtype, some prior =>
        if prior = dtype then evidence rows { seen with evidenced := true }
        else .error (.engine subject .conflictingEvidence)
      | none, _ => evidence rows { seen with evidenced := true, sawMissing := true }

def decodeUnionField (rows : List FrozenCell) : Except UnionError (Option Column) :=
  (evidence subject rows ⟨none, false, false⟩).bind fun seen =>
    if !seen.evidenced then .ok none
    else if seen.sawMissing && seen.declared.isSome then
      .error (.engine subject .conflictingEvidence)
    else match seen.declared with
      | some dtype => decodeTypedField subject rows dtype
      | none => decodeInferredField subject rows

/-- The column of a field in a union candidate. -/
def candidate (derived : Bool) (cells : List (Option Cell)) : Except Refusal (Option Column) :=
  (freezeInput subject derived cells).bind fun rows =>
    (decodeUnionField subject rows).mapError .union

end

end Lvu.View.FrozenField
