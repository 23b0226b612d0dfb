import Lvu.Data.Table
import Lvu.Data.Utf8
import Lvu.Live.TimeField
import Lvu.Query.Execute
import Mathlib.Data.Char
import Mathlib.Data.List.Lex

/-!
# Records as columns

The adapter reads the fields of records and types a column for each of them
(`lvu-query/src/adapter.rs`).  The types of the fields are kept from batch to batch.

* `parseFields`, `parseLogfmt` : the fields of a record.
* `recordsToBatchWithContextAndExactField` : the canonical projection, of all fields.
* `recordsToFieldColumn`, `parseOneField` : the projection of one field.
-/

namespace Lvu.Query.Adapter

theorem lawful_names : LawfulBEq (List Char) := inferInstance

attribute [local instance] lawful_names

/-! ### Records -/

inductive StreamKind
  | stdout
  | stderr
  | file
  | http
  | stdin
deriving DecidableEq

inductive ChunkPosition
  | complete
  | start
  | continued
  | ended
deriving DecidableEq

structure RawRecord where
  sourceId : List Char
  sequence : ℕ
  bytes : List UInt8
  capturedAtUnixNanos : ℤ
  stream : StreamKind
  acquisitionId : List Char
  chunk : ChunkPosition
  delimiter : List UInt8

def streamName : StreamKind → List Char
  | .stdout => "stdout".toList
  | .stderr => "stderr".toList
  | .file => "file".toList
  | .http => "http".toList
  | .stdin => "stdin".toList

def chunkName : ChunkPosition → List Char
  | .complete => "complete".toList
  | .start => "start".toList
  | .continued => "continue".toList
  | .ended => "end".toList

/-! ### Values -/

inductive FieldType
  | unknown
  | bool
  | int64
  | float64
  | string
deriving DecidableEq

section Values

variable (Double : Type)

/-- A field of a record. -/
inductive Value
  | null
  | bool (b : Bool)
  | int (n : ℤ)
  | uint (n : ℕ)
  | float (x : Double)
  | string (s : List Char)
  | object (text : List Char)
  | array (text : List Char)
deriving DecidableEq

/-- A JSON value; what is nested is told by its text. -/
inductive Json
  | null
  | bool (b : Bool)
  | posInt (n : ℕ)
  | negInt (n : ℤ)
  | float (x : Double)
  | string (s : List Char)
  | object (text : List Char)
  | array (text : List Char)

/-- A JSON object: its keys are distinct. -/
structure Object where
  entries : List (List Char × Json Double)
  nodup : (entries.map Prod.fst).Nodup

/-- A JSON document. -/
inductive Document
  | object (object : Object Double)
  | other

/-- What the adapter uses of `serde_json`, of the numbers and of exact values. -/
structure Library where
  /-- `serde_json::from_str`. -/
  fromStr : List Char → Option (Document Double)
  /-- `as f64`. -/
  asF64 : ℤ → Double
  /-- `exact_scalar` and `exact_token`. -/
  exactToken : Value Double → Option (List Char)

end Values

variable {Double : Type}

def Value.kind : Value Double → Option FieldType
  | .null => none
  | .bool _ => some .bool
  | .int _ => some .int64
  | .uint _ => some .float64
  | .float _ => some .float64
  | .string _ | .object _ | .array _ => some .string

def Value.typeName : Value Double → List Char
  | .null => "null".toList
  | .bool _ => "bool".toList
  | .int _ => "int64".toList
  | .uint _ => "uint64".toList
  | .float _ => "float64".toList
  | .string _ => "string".toList
  | .object _ => "object".toList
  | .array _ => "array".toList

def jsonValue : Json Double → Value Double
  | .null => .null
  | .bool b => .bool b
  | .posInt n => if n < 2 ^ 63 then .int n else .uint n
  | .negInt n => .int n
  | .float x => .float x
  | .string s => .string s
  | .object text => .object text
  | .array text => .array text

def mergeType (a b : FieldType) : FieldType :=
  if a = .unknown then b
  else if b = .unknown ∨ a = b then a
  else if (a = .int64 ∧ b = .float64) ∨ (a = .float64 ∧ b = .int64) then .float64
  else a

/-! ### The fields of a record -/

inductive ParseStatus
  | json
  | logfmt
  | unstructured
  | malformedJson
  | unsupportedLogfmt
  | projectionLimited

def statusName : ParseStatus → List Char
  | .json => "json".toList
  | .logfmt => "logfmt".toList
  | .unstructured => "unstructured".toList
  | .malformedJson => "malformed_json".toList
  | .unsupportedLogfmt => "unsupported_logfmt".toList
  | .projectionLimited => "projection_limited".toList

/-- The fields of a record, in the order of their names. -/
abbrev Fields (Double : Type) := Table (List Char) (Value Double)

/-- `u8::is_ascii_whitespace`. -/
def isAsciiWhitespace (c : Char) : Bool := c = ' ' || c = '\t' || c = '\n' || c = '\x0C' || c = '\r'

/-- What stands before the closing quote, and what follows it. -/
def quoted : List Char → Option (List Char × List Char)
  | [] => none
  | '"' :: cs => some ([], cs)
  | '\\' :: c :: cs => (quoted cs).map fun cut => ('\\' :: c :: cut.1, cut.2)
  | c :: cs => (quoted cs).map fun cut => (c :: cut.1, cut.2)

def unescapeQuoted : List Char → Option (List Char)
  | [] => some []
  | '\\' :: '"' :: cs => (unescapeQuoted cs).map ('"' :: ·)
  | '\\' :: '\\' :: cs => (unescapeQuoted cs).map ('\\' :: ·)
  | '\\' :: _ => none
  | c :: cs => (unescapeQuoted cs).map (c :: ·)

/-- A value and what follows it; a blank follows a quoted one. -/
def logfmtValue : List Char → Option (List Char × List Char)
  | '"' :: cs =>
    match quoted cs with
    | none => none
    | some (text, rest) =>
      match unescapeQuoted text with
      | none => none
      | some value => if (rest.head?.all isAsciiWhitespace) then some (value, rest) else none
  | cs => some (cs.takeWhile (!isAsciiWhitespace ·), cs.dropWhile (!isAsciiWhitespace ·))

/-- A character of a key. -/
def isKeyChar (c : Char) : Bool := c.isAlphanum || c = '_' || c = '.' || c = '-'

/-- A pair and what follows it; a word that is no pair is skipped. -/
def logfmtPair (word : List Char) : Option (Option (List Char × List Char) × List Char) :=
  let key := word.takeWhile fun c => !isAsciiWhitespace c && c ≠ '='
  match word.dropWhile fun c => !isAsciiWhitespace c && c ≠ '=' with
  | '=' :: after =>
    if key = [] then some (none, after.dropWhile (!isAsciiWhitespace ·))
    else (logfmtValue after).map fun cut => (some (key, cut.1), cut.2)
  | after => some (none, after.dropWhile (!isAsciiWhitespace ·))

/-- The loop of `parse_logfmt`, for so many words at most. -/
def logfmtLoop (maxFields : ℕ) : ℕ → List Char → Fields Double → Option (Fields Double × Bool)
  | 0, _, fields => some (fields, false)
  | words + 1, cs, fields =>
    match cs.dropWhile isAsciiWhitespace with
    | [] => some (fields, false)
    | c :: rest =>
      match logfmtPair (c :: rest) with
      | none => none
      | some (none, after) => logfmtLoop maxFields words after fields
      | some (some (key, value), after) =>
        if maxFields ≤ fields.rows.length then some (fields, true)
        else logfmtLoop maxFields words after
          (if key.all isKeyChar then fields.insert key (.string value) else fields)

/-- `parse_logfmt`: the fields, and whether there are too many. -/
def parseLogfmt (text : List Char) (maxFields : ℕ) : Option (Fields Double × Bool) :=
  logfmtLoop maxFields text.length text .empty

theorem length_dropWhile_le (q : Char → Bool) (cs : List Char) :
    (cs.dropWhile q).length ≤ cs.length := (List.dropWhile_suffix q).length_le

theorem quoted_length {cs text rest : List Char} (h : quoted cs = some (text, rest)) :
    rest.length ≤ cs.length := by
  fun_induction quoted cs generalizing text with
  | case1 => cases h
  | case2 cs =>
    cases h
    exact Nat.le_succ _
  | case3 c cs ih =>
    obtain ⟨cut, hcut, heq⟩ := Option.map_eq_some_iff.1 h
    obtain ⟨-, rfl⟩ := Prod.mk.inj heq
    exact (ih hcut).trans ((Nat.le_succ _).trans (Nat.le_succ _))
  | case4 c cs _ _ ih =>
    obtain ⟨cut, hcut, heq⟩ := Option.map_eq_some_iff.1 h
    obtain ⟨-, rfl⟩ := Prod.mk.inj heq
    exact (ih hcut).trans (Nat.le_succ _)

theorem logfmtValue_length {cs value rest : List Char} (h : logfmtValue cs = some (value, rest)) :
    rest.length ≤ cs.length := by
  unfold logfmtValue at h
  split at h
  · rename_i cs
    cases hquoted : quoted cs with
    | none =>
      rw [hquoted] at h
      cases h
    | some cut =>
      rw [hquoted] at h
      dsimp only at h
      cases htext : unescapeQuoted cut.1 with
      | none =>
        rw [htext] at h
        cases h
      | some text =>
        rw [htext] at h
        dsimp only at h
        split_ifs at h
        cases h
        exact (quoted_length hquoted).trans (Nat.le_succ _)
  · cases h
    exact length_dropWhile_le _ _

/-- A word is shorter than what it stands in. -/
theorem logfmtPair_length {c : Char} {cs after : List Char} {pair : Option (List Char × List Char)}
    (hc : isAsciiWhitespace c = false) (h : logfmtPair (c :: cs) = some (pair, after)) :
    after.length < (c :: cs).length := by
  have hword := length_dropWhile_le (fun c => !isAsciiWhitespace c && c ≠ '=') (c :: cs)
  unfold logfmtPair at h
  dsimp only at h
  split at h
  · rename_i rest hrest
    rw [hrest, List.length_cons] at hword
    split_ifs at h
    · cases h
      exact (length_dropWhile_le _ _).trans_lt hword
    · obtain ⟨cut, hcut, heq⟩ := Option.map_eq_some_iff.1 h
      obtain ⟨-, rfl⟩ := Prod.mk.inj heq
      exact (logfmtValue_length hcut).trans_lt hword
  · -- the first character is no blank and no `=`, so it is dropped
    rename_i hnot
    cases h
    refine (length_dropWhile_le _ _).trans_lt ?_
    have hne : c ≠ '=' := by
      rintro rfl
      exact hnot cs (List.dropWhile_cons_of_neg (by decide))
    rw [List.dropWhile_cons_of_pos (by simp [hc, hne]), List.length_cons]
    exact Nat.lt_succ_of_le (length_dropWhile_le _ _)

theorem head_not_blank {c : Char} {cs rest : List Char}
    (h : cs.dropWhile isAsciiWhitespace = c :: rest) : isAsciiWhitespace c = false := by
  have hne : cs.dropWhile isAsciiWhitespace ≠ [] := by simp [h]
  have hhead := List.head_dropWhile_not isAsciiWhitespace hne
  simpa [h] using hhead

/-- **The loop ends with the text**: it does not need more rounds than the text has characters. -/
theorem logfmtLoop_enough (maxFields : ℕ) {words more : ℕ} {cs : List Char}
    (h : cs.length ≤ words) (hmore : cs.length ≤ more) (fields : Fields Double) :
    logfmtLoop maxFields words cs fields = logfmtLoop maxFields more cs fields := by
  induction words generalizing more cs fields with
  | zero =>
    obtain rfl := List.length_eq_zero_iff.1 (Nat.le_zero.1 h)
    cases more <;> rfl
  | succ words ih =>
    rcases more with _ | more
    · obtain rfl := List.length_eq_zero_iff.1 (Nat.le_zero.1 hmore)
      rfl
    · rw [logfmtLoop, logfmtLoop]
      cases hskip : cs.dropWhile isAsciiWhitespace with
      | nil => rfl
      | cons c rest =>
        dsimp only
        have hskipped := length_dropWhile_le isAsciiWhitespace cs
        rw [hskip] at hskipped
        rcases hpair : logfmtPair (c :: rest) with _ | ⟨pair, after⟩
        · rfl
        · have hafter := logfmtPair_length (head_not_blank hskip) hpair
          have hle : after.length ≤ words := by omega
          have hle' : after.length ≤ more := by omega
          rcases pair with _ | ⟨key, value⟩
          · exact ih hle hle' fields
          · dsimp only
            split_ifs
            · rfl
            · exact ih hle hle' _
            · exact ih hle hle' _

/-- A warning: its code and its text. -/
abbrev Warning := String × String

def malformedJson : Warning :=
  ("malformed_json", "JSON-looking record is malformed; raw bytes retained")

def unsupportedLogfmt : Warning :=
  ("unsupported_logfmt",
    "quoted logfmt is malformed or exceeds field bounds; no misleading fields projected")

def exactFieldNotProjected : Warning :=
  ("exact_field_not_projected",
    "requested exact field is outside the bounded canonical projection")

def logfmtNotProjected : Warning :=
  ("exact_field_not_projected",
    "requested exact field is unavailable because logfmt exceeds the canonical field limit")

variable (lib : Library Double)

/-- The fields of an object: the first ones, and the exact one. -/
def objectFields (maxFields : ℕ) (exactField : Option (List Char)) (object : Object Double) :
    Fields Double × ℕ × Bool :=
  object.entries.foldl
    (fun (fields, projected, notProjected) entry =>
      if projected < maxFields then
        (fields.insert entry.1 (jsonValue entry.2), projected + 1, notProjected)
      else if exactField = some entry.1 then
        (fields.insert entry.1 (jsonValue entry.2), projected, true)
      else (fields, projected, notProjected))
    (.empty, 0, false)

def parseFields (text : List Char) (maxFields : ℕ) (exactField : Option (List Char)) :
    ParseStatus × Fields Double × Option Warning :=
  let trimmed := Time.trim text
  if trimmed.head? = some '{' then
    match lib.fromStr trimmed with
    | some (.object object) =>
      let found := objectFields maxFields exactField object
      (.json, found.1, if found.2.2 then some exactFieldNotProjected else none)
    | _ => (.malformedJson, .empty, some malformedJson)
  else
    match parseLogfmt trimmed maxFields with
    | some (fields, false) =>
      if fields.rows = [] then (.unstructured, fields, none) else (.logfmt, fields, none)
    | some (fields, true) =>
      if exactField.isSome then (.logfmt, fields, some logfmtNotProjected)
      else (.unsupportedLogfmt, .empty, some unsupportedLogfmt)
    | none => (.unsupportedLogfmt, .empty, some unsupportedLogfmt)

/-- The value of one field of a record. -/
def parseOneField (text : List Char) (maxFields : ℕ) (field : List Char) :
    Option (Value Double) :=
  let trimmed := Time.trim text
  if trimmed.head? = some '{' then
    match lib.fromStr trimmed with
    | some (.object object) =>
      ((object.entries.take maxFields).find? fun entry => entry.1 = field).map fun entry =>
        jsonValue entry.2
    | _ => none
  else (parseFields lib text maxFields none).2.1.get? field

/-! ### The types of the fields -/

/-- The types of the fields so far, and the limits. -/
structure SchemaContext where
  fields : Table (List Char) FieldType
  maxFields : ℕ
  maxDiagnostics : ℕ
  maxParseBytes : ℕ

def SchemaContext.default : SchemaContext := ⟨.empty, 256, 4096, 1024 * 1024⟩

/-- The type of a field after a value of that kind. -/
def SchemaContext.observe (schema : SchemaContext) (key : List Char) (kind : FieldType) :
    SchemaContext :=
  { schema with
    fields := schema.fields.insert key
      (match schema.fields.get? key with
      | some existing => mergeType existing kind
      | none => kind) }

/-! ### Columns -/

/-- A typed column. -/
inductive Column (Double : Type)
  | null (height : ℕ)
  | boolean (values : List (Option Bool))
  | int64 (values : List (Option ℤ))
  | uint64 (values : List (Option ℕ))
  | float64 (values : List (Option Double))
  | string (values : List (Option (List Char)))
  | binary (values : List (Option (List UInt8)))

def Value.asBool : Value Double → Option Bool
  | .bool b => some b
  | _ => none

def Value.asInt : Value Double → Option ℤ
  | .int n => some n
  | _ => none

def Value.asFloat : Value Double → Option Double
  | .int n => some (lib.asF64 n)
  | .uint n => some (lib.asF64 n)
  | .float x => some x
  | _ => none

def Value.asText : Value Double → Option (List Char)
  | .string text | .object text | .array text => some text
  | _ => none

/-- `field_column`: a column of that type. -/
def fieldColumn (values : List (Option (Value Double))) : FieldType → Column Double
  | .unknown => .null values.length
  | .bool => .boolean (values.map (·.bind Value.asBool))
  | .int64 => .int64 (values.map (·.bind Value.asInt))
  | .float64 => .float64 (values.map (·.bind (Value.asFloat lib)))
  | .string => .string (values.map (·.bind Value.asText))

/-! ### The canonical projection -/

structure AdapterDiagnostic where
  row : ℕ
  field : Option (List Char)
  code : String
  message : String

def diagnostic (out : List AdapterDiagnostic) (limit row : ℕ) (field : Option (List Char))
    (warning : Warning) : List AdapterDiagnostic :=
  if out.length < limit then out ++ [⟨row, field, warning.1, warning.2⟩] else out

/-- A name that input may not use. -/
def isReserved (key : List Char) : Bool := "_lvu_".toList.isPrefixOf key || key = "raw".toList

def rawAlias : List Char := "raw".toList

def rawBytesColumn : List Char := "_lvu_raw_bytes".toList

def typeColumn (key : List Char) : List Char := "_lvu_type_".toList ++ key

/-- Types that differ, and are not both of numbers. -/
def conflicts (existing kind : FieldType) : Bool :=
  existing ≠ .unknown && kind ≠ .unknown && existing ≠ kind &&
    !((existing = .int64 && kind = .float64) || (existing = .float64 && kind = .int64))

/-- A field of a record is admitted to the schema, or is not projected. -/
def admitField (row : ℕ) (state : SchemaContext × List AdapterDiagnostic)
    (entry : List Char × Value Double) : SchemaContext × List AdapterDiagnostic :=
  let (schema, diagnostics) := state
  let (key, value) := entry
  let report := diagnostic diagnostics schema.maxDiagnostics row (some key)
  if isReserved key then
    (schema, report ("reserved_field", "reserved input field was not projected"))
  else if schema.fields.get? key = none ∧ schema.maxFields ≤ schema.fields.rows.length then
    (schema, report ("field_limit", "schema field limit reached"))
  else
    let kind := value.kind.getD .unknown
    (schema.observe key kind,
      if (schema.fields.get? key).any (conflicts · kind) then
        report ("type_conflict", "value is null in the canonical typed projection; " ++
          "original type remains in provenance")
      else diagnostics)

/-- What has been read of a batch. -/
structure Reading (Double : Type) where
  schema : SchemaContext
  rows : List (Fields Double)
  statuses : List ParseStatus
  diagnostics : List AdapterDiagnostic

inductive AdapterError
  | emptyField
  | fieldTooLarge
  | reservedField
  | notProjected
  | notAdmitted

/-- One record more. -/
def readRecord (exactField : Option (List Char)) (reading : Reading Double) (record : RawRecord) :
    Except AdapterError (Reading Double) :=
  let row := reading.rows.length
  let schema := reading.schema
  if schema.maxParseBytes < record.bytes.length then
    .ok ⟨schema, reading.rows ++ [.empty], reading.statuses ++ [.projectionLimited],
      diagnostic reading.diagnostics schema.maxDiagnostics row none ("projection_limited",
        "record exceeds bounded structured projection; raw bytes retained")⟩
  else
    let (status, fields, warning) :=
      parseFields lib (Utf8.decodeLossy record.bytes) schema.maxFields exactField
    if exactField.isSome ∧ warning.any (·.1 = "exact_field_not_projected") then
      .error .notProjected
    else
      let warned := warning.elim reading.diagnostics
        (diagnostic reading.diagnostics schema.maxDiagnostics row none)
      let admitted := fields.rows.foldl (admitField row) (schema, warned)
      .ok ⟨admitted.1, reading.rows ++ [fields], reading.statuses ++ [status], admitted.2⟩

/-- The records of a batch. -/
def readRecords (exactField : Option (List Char)) :
    List RawRecord → Reading Double → Except AdapterError (Reading Double)
  | [], reading => .ok reading
  | record :: records, reading => (readRecord lib exactField reading record).bind
      (readRecords exactField records)

/-- `ExactFieldConstraint::new`. -/
def exactFieldError (field : List Char) : Option AdapterError :=
  if field = [] then some .emptyField
  else if 64 < byteSize field then some .fieldTooLarge
  else if field = "raw".toList || "_lvu_".toList.isPrefixOf field then some .reservedField
  else none

/-- The columns of the records themselves. -/
def recordColumns (records : List RawRecord) (statuses : List ParseStatus) :
    List (List Char × Column Double) :=
  let raw := records.map fun record => some (Utf8.decodeLossy record.bytes)
  [(sourceIdColumn, .string (records.map (some ·.sourceId))),
    (sequenceColumn, .uint64 (records.map (some ·.sequence))),
    (rawBytesColumn, .binary (records.map (some ·.bytes))),
    (rawColumn, .string raw),
    (rawAlias, .string raw),
    ("_lvu_captured_at_unix_nanos".toList, .int64 (records.map (some ·.capturedAtUnixNanos))),
    ("_lvu_stream".toList, .string (records.map fun record => some (streamName record.stream))),
    ("_lvu_acquisition_id".toList, .string (records.map (some ·.acquisitionId))),
    ("_lvu_chunk".toList, .string (records.map fun record => some (chunkName record.chunk))),
    ("_lvu_delimiter".toList, .binary (records.map (some ·.delimiter))),
    ("_lvu_parse_status".toList, .string (statuses.map fun status => some (statusName status)))]

/-- The column of a field, and that of the types of its values. -/
def schemaColumns (rows : List (Fields Double)) (field : List Char × FieldType) :
    List (List Char × Column Double) :=
  let values := rows.map fun row => row.get? field.1
  [(field.1, fieldColumn lib values field.2),
    (typeColumn field.1, .string (values.map (·.map Value.typeName)))]

structure RecordBatch (Double : Type) where
  height : ℕ
  columns : List (List Char × Column Double)
  diagnostics : List AdapterDiagnostic
  parseStatus : List ParseStatus

/-- The column of that name. -/
def RecordBatch.column (batch : RecordBatch Double) (name : List Char) : Option (Column Double) :=
  (batch.columns.find? fun column => column.1 = name).map Prod.snd

/-- The records that do not have a field are told. -/
def missingDiagnostics (limit : ℕ) (rows : List (Fields Double)) (key : List Char)
    (diagnostics : List AdapterDiagnostic) : List AdapterDiagnostic :=
  rows.zipIdx.foldl
    (fun out row =>
      if row.1.get? key = none then
        diagnostic out limit row.2 (some key) ("missing", "field is absent in this record")
      else out)
    diagnostics

/-- The exact values of the field that was asked for. -/
def exactColumn (records : List RawRecord) (rows : List (Fields Double)) (field : List Char) :
    Column Double :=
  .string ((rows.zip records).map fun (row, record) =>
    if Utf8.encode (Utf8.decodeLossy record.bytes) = record.bytes then
      (row.get? field).bind lib.exactToken
    else none)

/-- The canonical projection: the batch, and the schema after it. -/
def recordsToBatchWithContextAndExactField (records : List RawRecord) (schema : SchemaContext)
    (exactField : Option (List Char)) : Except AdapterError (RecordBatch Double × SchemaContext) :=
  match exactField.bind exactFieldError with
  | some error => .error error
  | none =>
    match readRecords lib exactField records ⟨schema, [], [], []⟩ with
    | .error error => .error error
    | .ok reading =>
      if exactField.any fun field => reading.rows.any (fun row => (row.get? field).isSome) &&
          (reading.schema.fields.get? field).isNone then
        .error .notAdmitted
      else
        .ok (⟨records.length,
          recordColumns records reading.statuses ++
            (exactField.elim [] fun field =>
              [(exactValueColumn field, exactColumn lib records reading.rows field)]) ++
            reading.schema.fields.rows.flatMap (schemaColumns lib reading.rows),
          reading.schema.fields.rows.foldl
            (fun out field => missingDiagnostics schema.maxDiagnostics reading.rows field.1 out)
            reading.diagnostics,
          reading.statuses⟩, reading.schema)

def recordsToBatchWithContext (records : List RawRecord) (schema : SchemaContext) :
    Except AdapterError (RecordBatch Double × SchemaContext) :=
  recordsToBatchWithContextAndExactField lib records schema none

/-! ### The projection of one field -/

/-- One record more of the projection of one field. -/
def readField (field : List Char) (state : List (Option (Value Double)) × SchemaContext)
    (record : RawRecord) : List (Option (Value Double)) × SchemaContext :=
  let (values, schema) := state
  if schema.maxParseBytes < record.bytes.length then (values ++ [none], schema)
  else
    match parseOneField lib (Utf8.decodeLossy record.bytes) schema.maxFields field with
    | none => (values ++ [none], schema)
    | some value =>
      (values ++ [some value], schema.observe field (value.kind.getD .unknown))

/-- The column of one field, and the schema after it. -/
def recordsToFieldColumn (records : List RawRecord) (schema : SchemaContext) (field : List Char) :
    Column Double × SchemaContext :=
  if field = rawAlias ∨ field = rawColumn then
    (.string (records.map fun record => some (Utf8.decodeLossy record.bytes)), schema)
  else
    let read := records.foldl (readField lib field) ([], schema)
    (fieldColumn lib read.1 ((read.2.fields.get? field).getD .unknown), read.2)

end Lvu.Query.Adapter
