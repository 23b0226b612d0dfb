import Lvu.Core.Model

/-!
# What acquisition hands to the writer

Events, records and file cursors as `lvu-core/src/acquisition.rs` defines them.  A record comes
without a sequence: the journal assigns it (`CapturedRecord.intoRaw`).
-/

namespace Lvu

structure CapturedRecord where
  capturedAtUnixNanos : Int64
  stream : StreamKind
  bytes : List UInt8
  delimiter : List UInt8
  acquisitionId : Uuid
  chunk : ChunkPosition
  readerCpuNanos : ℕ
deriving DecidableEq

def CapturedRecord.intoRaw (r : CapturedRecord) (sourceId : SourceId) : RawRecord :=
  { recordId := ⟨sourceId, 0⟩, capturedAtUnixNanos := r.capturedAtUnixNanos, stream := r.stream
    bytes := r.bytes, delimiter := r.delimiter, acquisitionId := r.acquisitionId, chunk := r.chunk }

/-- The captured input a record stands for. -/
def CapturedRecord.payload (r : CapturedRecord) : List UInt8 := r.bytes ++ r.delimiter

/-- The captured input of a list of records. -/
def inputs (cs : List CapturedRecord) : List UInt8 := cs.flatMap CapturedRecord.payload

@[simp] theorem inputs_nil : inputs [] = [] := rfl

@[simp] theorem inputs_append (cs cs' : List CapturedRecord) :
    inputs (cs ++ cs') = inputs cs ++ inputs cs' := by simp [inputs]

@[simp] theorem inputs_cons (c : CapturedRecord) (cs : List CapturedRecord) :
    inputs (c :: cs) = c.payload ++ inputs cs := by simp [inputs]

inductive BoundaryReason
  | started | rotated | truncated
deriving DecidableEq

structure FileIdentity where
  device : UInt64
  inode : UInt64
deriving DecidableEq

structure FileResumeCursor where
  offset : ℕ
  identity : Option FileIdentity
  evidence : List UInt8
  contentCrc32 : UInt32
deriving DecidableEq

inductive FileEncoding
  | plain
  | gzip (compressedSize : ℕ) (compressedCrc32 : UInt32) (compressedEvidence : List UInt8)
deriving DecidableEq

/-- `CaptureEvent`.  An exit status is its code and whether it is a success. -/
inductive CaptureEvent
  | boundary (acquisitionId : Uuid) (reason : BoundaryReason)
  | records (records : List CapturedRecord)
  | fileCheckpoint (acquisitionId : Uuid) (cursor : FileResumeCursor) (encoding : FileEncoding)
  | commandExit (acquisitionId : Uuid) (code : Option Int) (success : Bool)
  | error (acquisitionId : Uuid) (message : String)
  | stopped (acquisitionId : Uuid)

end Lvu
