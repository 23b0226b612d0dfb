import Mathlib.Data.List.Basic

/-!
# Identities and records

The data model shared by acquisition, the journal and the writer (`lvu-core/src/model.rs`,
`acquisition.rs`): identities are 16-byte UUIDs, a record is addressed by its source and a
64-bit sequence, and keeps the captured bytes and the delimiter apart so that their
concatenation is the input again (`RawRecord.payload`).
-/

namespace Lvu

/-- A UUID: sixteen bytes. -/
structure Uuid where
  bytes : List UInt8
  length_eq : bytes.length = 16
deriving DecidableEq

namespace Uuid

/-- `Uuid::from_slice`: a slice of any other length is refused. -/
def fromSlice (bs : List UInt8) : Option Uuid :=
  if h : bs.length = 16 then some ⟨bs, h⟩ else none

/-- The UUID whose bytes are all `b` (`Uuid::nil` for `b = 0`). -/
def filled (b : UInt8) : Uuid := ⟨List.replicate 16 b, by simp⟩

@[simp] theorem fromSlice_bytes (u : Uuid) : fromSlice u.bytes = some u := by
  simp [fromSlice, u.length_eq]

end Uuid

/-- The identity of a source. -/
structure SourceId where
  uuid : Uuid
deriving DecidableEq

/-- The pair that addresses a record. -/
structure RecordId where
  sourceId : SourceId
  sequence : UInt64
deriving DecidableEq

/-- Where a record came from. -/
inductive StreamKind
  | stdout | stderr | file | http | stdin
deriving DecidableEq

/-- The place of a record in the logical line it belongs to. -/
inductive ChunkPosition
  | complete | start | «continue» | «end»
deriving DecidableEq

/-- A captured record as the journal stores it. -/
structure RawRecord where
  recordId : RecordId
  capturedAtUnixNanos : Int64
  stream : StreamKind
  bytes : List UInt8
  delimiter : List UInt8
  acquisitionId : Uuid
  chunk : ChunkPosition

/-- The captured input a record stands for. -/
def RawRecord.payload (r : RawRecord) : List UInt8 := r.bytes ++ r.delimiter

/-- The same record under another sequence. -/
def RawRecord.withSequence (r : RawRecord) (sequence : UInt64) : RawRecord :=
  { r with recordId := { r.recordId with sequence } }

@[simp] theorem RawRecord.withSequence_sourceId (r : RawRecord) (n : UInt64) :
    (r.withSequence n).recordId.sourceId = r.recordId.sourceId := rfl

/-- The captured input of a list of records. -/
def payloads (rs : List RawRecord) : List UInt8 := rs.flatMap RawRecord.payload

@[simp] theorem payloads_nil : payloads [] = [] := rfl

@[simp] theorem payloads_append (rs rs' : List RawRecord) :
    payloads (rs ++ rs') = payloads rs ++ payloads rs' := by simp [payloads]

@[simp] theorem payloads_cons (r : RawRecord) (rs : List RawRecord) :
    payloads (r :: rs) = r.payload ++ payloads rs := by simp [payloads]

end Lvu
