import Lvu.Bytes.LittleEndian
import Lvu.Bytes.Framing
import Lvu.Core.Model

/-!
# The journal's frames

A frame is a 16-byte header (magic, body length, body checksum, header checksum) and a body of
58 fixed bytes followed by the record's bytes and delimiter (`lvu-core/src/journal.rs`:
`push_frame`, `encode_into`, `read_header`, `read_body`, `decode`).  The checksum is a
parameter: any function of the bytes will do.

* `readHeader_pushFrame`, `readBody_body` : a whole frame is read back as the record it was made
  of, whatever follows it.
* `frame_length` : a frame is never empty, and its length is what its header announces.
-/

namespace Lvu

open List

/-- Errors of `std::io` that the journal reports. -/
inductive IoErrorKind
  | unexpectedEof | invalidData | other
deriving DecidableEq

inductive JournalError
  | io (kind : IoErrorKind)
  | corrupt (offset : ℕ) (reason : String)
  | alreadyOpen
  | poisoned
  | wrongSource
  | frameTooLarge
deriving DecidableEq

namespace Journal

/-- `MAGIC`: the bytes of `LVU2`. -/
def magic : List UInt8 := [0x4c, 0x56, 0x55, 0x32]

/-- `HEADER`. -/
def headerSize : ℕ := 16

def fixed : ℕ := 58

def maxFrame : ℕ := 2 * 1024 * 1024

/-- The byte a stream kind is stored as. -/
def streamByte : StreamKind → UInt8
  | .stdout => 0
  | .stderr => 1
  | .file => 2
  | .http => 3
  | .stdin => 4

/-- The byte a chunk position is stored as. -/
def chunkByte : ChunkPosition → UInt8
  | .complete => 0
  | .start => 1
  | .continue => 2
  | .end => 3

/-- The body `encode_into` lays out. -/
def body (record : RawRecord) : List UInt8 :=
  leBytes 8 record.recordId.sequence.toNat ++ record.recordId.sourceId.uuid.bytes ++
    leBytes 8 record.capturedAtUnixNanos.toUInt64.toNat ++ [streamByte record.stream] ++
    record.acquisitionId.bytes ++ [chunkByte record.chunk] ++
    leBytes 4 record.bytes.length ++ leBytes 4 record.delimiter.length ++
    record.bytes ++ record.delimiter

/-- `encode_into`: the body of a record, or a refusal when it exceeds the frame limit. -/
def encodeInto (record : RawRecord) : Except JournalError (List UInt8) :=
  if fixed + record.bytes.length + record.delimiter.length > maxFrame then .error .frameTooLarge
  else .ok (body record)

variable (hash : List UInt8 → UInt32)

/-- The first twelve header bytes of the frame of `body`. -/
def frameHead (body : List UInt8) : List UInt8 :=
  magic ++ leBytes 4 body.length ++ leBytes 4 (hash body).toNat

/-- `push_frame`: appends the framed form of `body` to `out`. -/
def pushFrame (out body : List UInt8) : List UInt8 :=
  out ++ frameHead hash body ++ leBytes 4 (hash (frameHead hash body)).toNat ++ body

/-- The frame of a record. -/
def frame (record : RawRecord) : List UInt8 := pushFrame hash [] (body record)

structure FrameHeader where
  length : ℕ
  bodyChecksum : ℕ

/-- `Read::read_exact` of `n` bytes from what is left of a file. -/
def readExact (n : ℕ) (file : List UInt8) : Except JournalError (List UInt8) :=
  if file.length < n then .error (.io .unexpectedEof) else .ok (file.take n)

/-- The bytes `a ≤ i < b` of a slice. -/
def slice (bs : List UInt8) (a b : ℕ) : List UInt8 := (bs.take b).drop a

/-- `read_header`: `file` is what is left of the file from the header on. -/
def readHeader (file : List UInt8) (offset : ℕ) : Except JournalError FrameHeader := do
  let bytes ← readExact headerSize file
  if slice bytes 0 4 ≠ magic then throw (.corrupt offset "bad frame magic")
  if (hash (slice bytes 0 12)).toNat ≠ leNat (slice bytes 12 16) then
    throw (.corrupt offset "header checksum mismatch")
  let length := leNat (slice bytes 4 8)
  if ¬ (fixed ≤ length ∧ length ≤ maxFrame) then throw (.corrupt offset "invalid frame length")
  return ⟨length, leNat (slice bytes 8 12)⟩

/-- `decode`: a body of at least `fixed` bytes as a record of `source`. -/
def decode (body : List UInt8) (source : SourceId) : Option RawRecord := do
  let sequence := UInt64.ofNat (leNat (slice body 0 8))
  if (← Uuid.fromSlice (slice body 8 24)) ≠ source.uuid then none
  let capturedAtUnixNanos := (UInt64.ofNat (leNat (slice body 24 32))).toInt64
  let stream ← match body.getD 32 0 with
    | 0 => some .stdout
    | 1 => some .stderr
    | 2 => some .file
    | 3 => some .http
    | 4 => some .stdin
    | _ => none
  let acquisitionId ← Uuid.fromSlice (slice body 33 49)
  let chunk ← match body.getD 49 0 with
    | 0 => some .complete
    | 1 => some .start
    | 2 => some .continue
    | 3 => some .end
    | _ => none
  let bytesLen := leNat (slice body 50 54)
  let delimiterLen := leNat (slice body 54 58)
  if fixed + bytesLen + delimiterLen ≠ body.length then none
  return {
    recordId := { sourceId := source, sequence }
    capturedAtUnixNanos, stream
    bytes := slice body 58 (58 + bytesLen)
    delimiter := slice body (58 + bytesLen) body.length
    acquisitionId, chunk }

/-- `read_body`: `file` is what is left of the file after the header. -/
def readBody (file : List UInt8) (offset : ℕ) (source : SourceId) (header : FrameHeader) :
    Except JournalError RawRecord := do
  let body ← readExact header.length file
  if (hash body).toNat ≠ header.bodyChecksum then
    throw (.corrupt offset "body checksum mismatch")
  match decode body source with
  | some record => return record
  | none => throw (.corrupt offset "invalid frame body")

/-! ### Reading a frame back -/

/-- The records whose frames the journal of `source` can hold: they belong to the source and
fit the frame limit. -/
structure Fits (source : SourceId) (record : RawRecord) : Prop where
  source_eq : record.recordId.sourceId = source
  size_le : fixed + record.bytes.length + record.delimiter.length ≤ maxFrame

theorem length_body (record : RawRecord) :
    (body record).length = fixed + record.bytes.length + record.delimiter.length := by
  simp only [body, length_append, length_leBytes, Uuid.length_eq, length_cons,
    length_nil, fixed]

theorem length_frameHead (bs : List UInt8) : (frameHead hash bs).length = 12 := by
  simp [frameHead, magic]

variable {hash}

theorem pushFrame_eq (out : List UInt8) (bs : List UInt8) :
    pushFrame hash out bs = out ++ pushFrame hash [] bs := by
  simp [pushFrame, append_assoc]

theorem encodeInto_eq_ok {record : RawRecord} {bs : List UInt8} :
    encodeInto record = .ok bs ↔
      fixed + record.bytes.length + record.delimiter.length ≤ maxFrame ∧ bs = body record := by
  unfold encodeInto
  split_ifs with h
  · simp only [false_iff, not_and]
    omega
  · simp only [Except.ok.injEq]
    exact ⟨fun heq => ⟨by omega, heq.symm⟩, fun heq => heq.2.symm⟩

theorem length_pushFrame (hash : List UInt8 → UInt32) (bs : List UInt8) : (pushFrame hash [] bs).length = headerSize + bs.length := by
  simp only [pushFrame, nil_append, length_append, length_frameHead, length_leBytes,
    headerSize]

theorem frame_length (record : RawRecord) :
    (frame hash record).length =
      headerSize + (fixed + record.bytes.length + record.delimiter.length) := by
  rw [frame, length_pushFrame, length_body]

theorem frame_ne_nil (hash : List UInt8 → UInt32) (record : RawRecord) : frame hash record ≠ [] := by
  intro h
  have := congrArg List.length h
  rw [frame_length] at this
  simp [headerSize] at this

theorem slice_eq {bs p q r : List UInt8} {a b : ℕ} (h : bs = p ++ (q ++ r)) (ha : p.length = a)
    (hb : a + q.length = b) : slice bs a b = q := by
  subst h ha hb
  rw [slice, take_append, take_of_length_le (by omega), drop_left', Nat.add_sub_cancel_left,
    take_left']
  · rfl
  · rfl

theorem getD_eq {bs p r : List UInt8} {x : UInt8} {a : ℕ} (h : bs = p ++ ([x] ++ r))
    (ha : p.length = a) : bs.getD a 0 = x := by
  subst h ha
  simp

theorem readExact_append {n : ℕ} {p : List UInt8} (hn : p.length = n) (rest : List UInt8) :
    readExact n (p ++ rest) = .ok p := by
  subst hn
  simp [readExact]

/-- **A whole header is accepted**, whatever follows the frame. -/
theorem readHeader_pushFrame {bs : List UInt8} (hf : fixed ≤ bs.length) (hm : bs.length ≤ maxFrame)
    (rest : List UInt8) (offset : ℕ) :
    readHeader hash (pushFrame hash [] bs ++ rest) offset =
      .ok ⟨bs.length, (hash bs).toNat⟩ := by
  have hlen : leNat (leBytes 4 bs.length) = bs.length :=
    leNat_leBytes_of_lt (lt_of_le_of_lt hm (by decide))
  have hcrc : ∀ x : UInt32, leNat (leBytes 4 x.toNat) = x.toNat := fun x =>
    leNat_leBytes_of_lt x.toNat_lt
  let head := frameHead hash bs ++ leBytes 4 (hash (frameHead hash bs)).toNat
  have hhead : head.length = headerSize := by
    simp [head, length_frameHead, headerSize]
  have hread : readExact headerSize (pushFrame hash [] bs ++ rest) = .ok head := by
    have : pushFrame hash [] bs ++ rest = head ++ (bs ++ rest) := by
      simp [pushFrame, head, append_assoc]
    rw [this, readExact_append hhead]
  have h04 : slice head 0 4 = magic :=
    slice_eq (p := []) (r := leBytes 4 bs.length ++ leBytes 4 (hash bs).toNat ++
      leBytes 4 (hash (frameHead hash bs)).toNat) (by simp [head, frameHead]) rfl rfl
  have h48 : slice head 4 8 = leBytes 4 bs.length :=
    slice_eq (p := magic) (r := leBytes 4 (hash bs).toNat ++
      leBytes 4 (hash (frameHead hash bs)).toNat) (by simp [head, frameHead]) rfl (by simp)
  have h812 : slice head 8 12 = leBytes 4 (hash bs).toNat :=
    slice_eq (p := magic ++ leBytes 4 bs.length)
      (r := leBytes 4 (hash (frameHead hash bs)).toNat) (by simp [head, frameHead])
      (by simp [magic]) (by simp)
  have h012 : slice head 0 12 = frameHead hash bs :=
    slice_eq (p := []) (r := leBytes 4 (hash (frameHead hash bs)).toNat) (by simp [head]) rfl
      (by simp [length_frameHead])
  have h1216 : slice head 12 16 = leBytes 4 (hash (frameHead hash bs)).toNat :=
    slice_eq (p := frameHead hash bs) (r := []) (by simp [head]) (length_frameHead hash bs) (by simp)
  simp only [readHeader, hread, bind, Except.bind, h04, h012, h1216, h48, h812, hlen, hcrc, hf, hm]
  simp [pure, Except.pure]

/-- **Decoding a body gives the record back.** -/
theorem decode_body {source : SourceId} {record : RawRecord} (h : Fits source record) :
    decode (body record) source = some record := by
  obtain ⟨⟨⟨src⟩, seq⟩, nanos, stream, bytes, delimiter, acq, chunk⟩ := record
  obtain ⟨hsrc, hsize⟩ := h
  subst hsrc
  simp only [fixed, maxFrame] at hsize
  have hseq : leNat (leBytes 8 seq.toNat) = seq.toNat := leNat_leBytes_of_lt seq.toNat_lt
  have hnanos : leNat (leBytes 8 nanos.toUInt64.toNat) = nanos.toUInt64.toNat :=
    leNat_leBytes_of_lt nanos.toUInt64.toNat_lt
  have hbl : leNat (leBytes 4 bytes.length) = bytes.length :=
    leNat_leBytes_of_lt (by omega)
  have hdl : leNat (leBytes 4 delimiter.length) = delimiter.length :=
    leNat_leBytes_of_lt (by omega)
  -- the body, from left to right
  set b := body ⟨⟨⟨src⟩, seq⟩, nanos, stream, bytes, delimiter, acq, chunk⟩ with hb
  have hlen : b.length = fixed + bytes.length + delimiter.length := length_body _
  have s0 : slice b 0 8 = leBytes 8 seq.toNat :=
    slice_eq (p := []) (by rw [hb]; simp only [body, append_assoc, nil_append]; rfl) rfl
      (by simp)
  have s8 : slice b 8 24 = src.bytes :=
    slice_eq (p := leBytes 8 seq.toNat) (by rw [hb]; simp only [body, append_assoc]; rfl)
      (by simp) (by simp [src.length_eq])
  have s24 : slice b 24 32 = leBytes 8 nanos.toUInt64.toNat :=
    slice_eq (p := leBytes 8 seq.toNat ++ src.bytes)
      (by rw [hb]; simp only [body, append_assoc]; rfl) (by simp [src.length_eq]) (by simp)
  have s32 : b.getD 32 0 = streamByte stream :=
    getD_eq (p := leBytes 8 seq.toNat ++ src.bytes ++ leBytes 8 nanos.toUInt64.toNat)
      (by rw [hb]; simp only [body, append_assoc]; rfl) (by simp [src.length_eq])
  have s33 : slice b 33 49 = acq.bytes :=
    slice_eq (p := leBytes 8 seq.toNat ++ src.bytes ++ leBytes 8 nanos.toUInt64.toNat ++
      [streamByte stream]) (by rw [hb]; simp only [body, append_assoc]; rfl)
      (by simp [src.length_eq]) (by simp [acq.length_eq])
  have s49 : b.getD 49 0 = chunkByte chunk :=
    getD_eq (p := leBytes 8 seq.toNat ++ src.bytes ++ leBytes 8 nanos.toUInt64.toNat ++
      [streamByte stream] ++ acq.bytes) (by rw [hb]; simp only [body, append_assoc]; rfl)
      (by simp [src.length_eq, acq.length_eq])
  have s50 : slice b 50 54 = leBytes 4 bytes.length :=
    slice_eq (p := leBytes 8 seq.toNat ++ src.bytes ++ leBytes 8 nanos.toUInt64.toNat ++
      [streamByte stream] ++ acq.bytes ++ [chunkByte chunk])
      (by rw [hb]; simp only [body, append_assoc]; rfl)
      (by simp [src.length_eq, acq.length_eq]) (by simp)
  have s54 : slice b 54 58 = leBytes 4 delimiter.length :=
    slice_eq (p := leBytes 8 seq.toNat ++ src.bytes ++ leBytes 8 nanos.toUInt64.toNat ++
      [streamByte stream] ++ acq.bytes ++ [chunkByte chunk] ++ leBytes 4 bytes.length)
      (by rw [hb]; simp only [body, append_assoc]; rfl)
      (by simp [src.length_eq, acq.length_eq]) (by simp)
  have s58 : slice b 58 (58 + bytes.length) = bytes :=
    slice_eq (p := leBytes 8 seq.toNat ++ src.bytes ++ leBytes 8 nanos.toUInt64.toNat ++
      [streamByte stream] ++ acq.bytes ++ [chunkByte chunk] ++ leBytes 4 bytes.length ++
      leBytes 4 delimiter.length) (r := delimiter)
      (by rw [hb]; simp only [body, append_assoc])
      (by simp [src.length_eq, acq.length_eq]) rfl
  have sEnd : slice b (58 + bytes.length) (fixed + bytes.length + delimiter.length) = delimiter :=
    slice_eq (p := leBytes 8 seq.toNat ++ src.bytes ++ leBytes 8 nanos.toUInt64.toNat ++
      [streamByte stream] ++ acq.bytes ++ [chunkByte chunk] ++ leBytes 4 bytes.length ++
      leBytes 4 delimiter.length ++ bytes) (r := [])
      (by rw [hb]; simp only [body, append_assoc, append_nil])
      (by simp [src.length_eq, acq.length_eq]; omega) rfl
  simp only [decode, s0, s8, s24, s32, s33, s49, s50, s54, hseq, hnanos, hbl, hdl, s58, sEnd, hlen]
  cases stream <;> cases chunk <;> simp [streamByte, chunkByte]

theorem readBody_body {source : SourceId} {record : RawRecord} (h : Fits source record)
    (rest : List UInt8) (offset : ℕ) :
    readBody hash (body record ++ rest) offset source
      ⟨(body record).length, (hash (body record)).toNat⟩ = .ok record := by
  simp only [readBody, readExact_append rfl, bind, Except.bind, decode_body h]
  simp [pure, Except.pure]

end Journal

end Lvu
