import Lvu.Core.Codec

/-!
# The journal

`Journal` is the append-only record store of one source (`lvu-core/src/journal.rs`): frames
are encoded into a write buffer, handed to the file when it is large enough or on request, and
made durable by `syncData`.  Sequence numbers are reserved in blocks in a file of their own
before the first frame that uses them.

What the filesystem answers to the calls of one operation is a parameter (`Answers`), so that
every failure the code provides for can be taken at every place.  Operations are state
transformers that may fail (`EStateM`): as in the source, what an operation has changed before
it fails stays changed.
-/

namespace Lvu

/-- `checked_add` on 64-bit counters. -/
def checkedAdd (a b : UInt64) : Option UInt64 :=
  if a.toNat + b.toNat < 2 ^ 64 then some (a + b) else none

theorem checkedAdd_eq_some {a b c : UInt64} :
    checkedAdd a b = some c ↔ c.toNat = a.toNat + b.toNat := by
  have hc := c.toNat_lt
  unfold checkedAdd
  split_ifs with h
  · rw [Option.some.injEq, ← UInt64.toNat_inj, UInt64.toNat_add, Nat.mod_eq_of_lt h]
    exact eq_comm
  · simp only [false_iff]
    omega

theorem eq_add_of_checkedAdd {a b c : UInt64} (h : checkedAdd a b = some c) : c = a + b := by
  unfold checkedAdd at h
  split_ifs at h
  exact (Option.some.inj h).symm

/-- `saturating_add` on 64-bit counters. -/
def saturatingAdd (a b : UInt64) : UInt64 := (checkedAdd a b).getD (UInt64.ofNat (2 ^ 64 - 1))

/-- The file of a journal: its bytes, and how many of them the last `sync_data` covered. -/
structure JournalFile where
  bytes : List UInt8
  synced : ℕ
deriving DecidableEq

/-- What survives a journal: the file, and the sequence watermark beside it. -/
structure JournalDisk where
  file : JournalFile
  /-- The bytes of the `.seq` file, if there is one. -/
  seqFile : Option (List UInt8)

/-- The disk before the first open. -/
def JournalDisk.fresh : JournalDisk := ⟨⟨[], 0⟩, none⟩

/-- Where replacing the watermark file may fail. -/
inductive ReplaceAnswer
  | ok
  /-- Before the rename: the old file is still there. -/
  | failBefore
  /-- After the rename, when the directory is synced. -/
  | failAfter

/-- What the filesystem answers to the calls one journal operation makes; by default every call
succeeds. -/
structure Answers where
  /-- Replacing the watermark file. -/
  watermark : ReplaceAnswer := .ok
  /-- `write_all`: `some k` fails after `k` bytes. -/
  write : Option ℕ := none
  /-- `File::flush`. -/
  flush : Bool := true
  /-- `sync_data`. -/
  sync : Bool := true
  /-- The answer of `stream_position`, if it has one. -/
  position : Option ℕ := some 0

structure Recovery where
  records : ℕ
  truncatedTailBytes : ℕ
  nextSequence : UInt64
  lastSequence : Option UInt64

structure ScanMetadata where
  records : ℕ
  validLen : ℕ
  maximumSequence : Option UInt64

structure JournalPage where
  records : List RawRecord
  nextOffset : ℕ
  endOfJournal : Bool

/-- An open journal. -/
structure Journal where
  sourceId : SourceId
  file : JournalFile
  seqFile : Option (List UInt8)
  nextSequence : UInt64
  reservedUntil : UInt64
  writtenBytes : ℕ
  buffer : List UInt8
  poisoned : Bool

namespace Journal

def sequenceBlock : UInt64 := 1024

def writeBufferBytes : ℕ := 256 * 1024

/-- `write_watermark`: the `.seq` file is replaced by the eight bytes of `value`. -/
def writeWatermark (seqFile : Option (List UInt8)) (value : UInt64) :
    ReplaceAnswer → Except JournalError Unit × Option (List UInt8)
  | .ok => (.ok (), some (leBytes 8 value.toNat))
  | .failBefore => (.error (.io .other), seqFile)
  | .failAfter => (.error (.io .other), some (leBytes 8 value.toNat))

def readWatermark : Option (List UInt8) → Except JournalError (Option UInt64)
  | none => .ok none
  | some value =>
    if value.length = 8 then .ok (some (UInt64.ofNat (leNat value)))
    else .error (.io .invalidData)

variable (hash : List UInt8 → UInt32)

/-- `scan_metadata` from `offset` on, having counted `records` frames. -/
def scanLoop (file : List UInt8) (source : SourceId) (offset records : ℕ)
    (maximumSequence : Option UInt64) : Except JournalError ScanMetadata :=
  if _h : offset < file.length then
    if file.length - offset < headerSize then .ok ⟨records, offset, maximumSequence⟩
    else match readHeader hash (file.drop offset) offset with
      | .error e => .error e
      | .ok header =>
        let frameLen := headerSize + header.length
        if file.length - offset < frameLen then .ok ⟨records, offset, maximumSequence⟩
        else match readBody hash (file.drop (offset + headerSize)) offset source header with
          | .error e => .error e
          | .ok record =>
            if ∃ last ∈ maximumSequence, record.recordId.sequence ≤ last then
              .error (.corrupt offset "non-monotonic sequence")
            else
              scanLoop file source (offset + frameLen) (records + 1) (some record.recordId.sequence)
  else .ok ⟨records, offset, maximumSequence⟩
termination_by file.length - offset
decreasing_by simp only [headerSize]; omega

def scanMetadata (file : List UInt8) (source : SourceId) : Except JournalError ScanMetadata :=
  scanLoop hash file source 0 0 none

/-- `read_complete_frame`: the record at `offset` and the length of its frame. -/
def readCompleteFrame (file : List UInt8) (offset : ℕ) (source : SourceId) :
    Except JournalError (RawRecord × ℕ) := do
  if file.length - offset < headerSize then
    throw (.corrupt offset "page begins at incomplete frame")
  let header ← readHeader hash (file.drop offset) offset
  if file.length - offset < headerSize + header.length then
    throw (.corrupt offset "page encounters incomplete frame")
  let record ← readBody hash (file.drop (offset + headerSize)) offset source header
  return (record, headerSize + header.length)

/-- The page loop of `read_page_from`.  `decodedBytes` counts the payload bytes of `records`;
they are in memory, so the count does not saturate. -/
def pageLoop (file : List UInt8) (source : SourceId) (maxRecords maxBytes : ℕ) (cursor : ℕ)
    (decodedBytes : ℕ) (records : List RawRecord) : Except JournalError (List RawRecord × ℕ) :=
  if _h : cursor < file.length ∧ records.length < maxRecords then
    match readCompleteFrame hash file cursor source with
    | .error e => .error e
    | .ok (record, frameLen) =>
      let recordBytes := record.bytes.length + record.delimiter.length
      if records ≠ [] ∧ decodedBytes + recordBytes > maxBytes then .ok (records, cursor)
      else if decodedBytes + recordBytes ≥ maxBytes then
        .ok (records ++ [record], cursor + frameLen)
      else pageLoop file source maxRecords maxBytes (cursor + frameLen)
        (decodedBytes + recordBytes) (records ++ [record])
  else .ok (records, cursor)
termination_by maxRecords - records.length
decreasing_by simp only [List.length_append, List.length_cons, List.length_nil]; omega

def readPageFrom (file : List UInt8) (source : SourceId) (offset maxRecords maxBytes : ℕ) :
    Except JournalError JournalPage := do
  if offset > file.length then throw (.corrupt offset "page offset beyond journal")
  if maxRecords = 0 ∨ maxBytes = 0 then
    return ⟨[], offset, offset == file.length⟩
  let (records, cursor) ← pageLoop hash file source maxRecords maxBytes offset 0 []
  return ⟨records, cursor, cursor == file.length⟩

/-- `Journal::open`.  `held` says that the lock path is claimed in this process or locked by
another one. -/
def «open» (source : SourceId) (held : Bool) :
    EStateM JournalError JournalDisk (Journal × Recovery) := do
  if held then throw .alreadyOpen
  let disk ← get
  match scanMetadata hash disk.file.bytes source with
  | .error e => throw e
  | .ok scan =>
    let truncatedTailBytes := disk.file.bytes.length - scan.validLen
    -- an incomplete tail is cut off, and the cut made durable
    if truncatedTailBytes > 0 then
      set { disk with file := ⟨disk.file.bytes.take scan.validLen, scan.validLen⟩ }
    match readWatermark disk.seqFile with
    | .error e => throw e
    | .ok watermark =>
      let afterRecords := scan.maximumSequence.elim 0 (saturatingAdd · 1)
      let nextSequence := max (watermark.getD 0) afterRecords
      return ({ sourceId := source, file := (← get).file, seqFile := disk.seqFile, nextSequence
                reservedUntil := nextSequence, writtenBytes := scan.validLen, buffer := []
                poisoned := false },
        { records := scan.records, truncatedTailBytes, nextSequence
          lastSequence := scan.maximumSequence })

/-- What is left when the journal is dropped: buffered frames are lost. -/
def disk (j : Journal) : JournalDisk := ⟨j.file, j.seqFile⟩

def writeBuffer (io : Answers) : EStateM JournalError Journal Unit := do
  let j ← get
  if j.buffer = [] then return
  match io.write with
  | none => set { j with file := { j.file with bytes := j.file.bytes ++ j.buffer }, buffer := [] }
  | some k =>
    -- a failed `write_all` may have left some of the bytes
    let written := j.buffer.dropLast.take k
    set { j with
      file := { j.file with bytes := j.file.bytes ++ written }, poisoned := true, buffer := [] }
    throw (.io .other)

/-- The error of an exhausted counter, reported at the stream position. -/
def exhausted (io : Answers) (reason : String) : JournalError :=
  match io.position with
  | some offset => .corrupt offset reason
  | none => .io .other

/-- The sequence reservation of `append`: a block is reserved before a frame may use it. -/
def reserve (io : Answers) (sequence next : UInt64) : EStateM JournalError Journal Unit := do
  let j ← get
  if next > j.reservedUntil then
    let some reservedUntil := checkedAdd sequence sequenceBlock
      | throw (exhausted io "sequence reservation exhausted")
    let (result, seqFile) := writeWatermark j.seqFile reservedUntil io.watermark
    set { j with seqFile }
    match result with
    | .error e => throw e
    | .ok () => modify fun j => { j with reservedUntil }

def append (io : Answers) (record : RawRecord) : EStateM JournalError Journal RecordId := do
  let j ← get
  if j.poisoned then throw .poisoned
  if record.recordId.sourceId ≠ j.sourceId then throw .wrongSource
  let sequence := j.nextSequence
  let some next := checkedAdd sequence 1 | throw (exhausted io "sequence exhausted")
  let record := record.withSequence sequence
  match encodeInto record with
  | .error e => throw e
  | .ok scratch =>
    reserve io sequence next
    modify fun j => { j with
      buffer := pushFrame hash j.buffer scratch
      writtenBytes := j.writtenBytes + (headerSize + scratch.length)
      nextSequence := next }
    if (← get).buffer.length ≥ writeBufferBytes then writeBuffer io
    return record.recordId

def flush (io : Answers) : EStateM JournalError Journal Unit := do
  if (← get).poisoned then throw .poisoned
  writeBuffer io
  if !io.flush then
    modify fun j => { j with poisoned := true }
    throw (.io .other)

def syncData (io : Answers) : EStateM JournalError Journal Unit := do
  if (← get).poisoned then throw .poisoned
  writeBuffer io
  if io.flush && io.sync then
    modify fun j => { j with file := { j.file with synced := j.file.bytes.length } }
  else
    modify fun j => { j with poisoned := true }
    throw (.io .other)

def readPage (io : Answers) (offset maxRecords maxBytes : ℕ) :
    EStateM JournalError Journal JournalPage := do
  writeBuffer io
  let j ← get
  match readPageFrom hash j.file.bytes j.sourceId offset maxRecords maxBytes with
  | .ok page => return page
  | .error e => throw e

end Journal

end Lvu
