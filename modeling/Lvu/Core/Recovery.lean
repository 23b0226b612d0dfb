import Lvu.Core.Journal
import Lvu.Machine.Outcome

/-!
# What the journal's operations keep

The disk of a journal holds a byte prefix of the frames it was handed, and a watermark above
every sequence it ever used (`DiskInv`); an open journal holds those frames in its file and its
buffer, unless it is poisoned (`LiveInv`).  Each operation is stated once here, with any answer
of the filesystem.

* `scanMetadata_cut` : however a sequence of frames is cut, the scan takes the cut for an
  incomplete tail.
* `writeBuffer_cases`, `reserve_cases`, `append_cases` : what an operation can do.
* `LiveInv.flush`, `LiveInv.syncData`, `LiveInv.readPage` : the invariant is kept.
-/

namespace Lvu.Journal

open Framing

variable {hash : List UInt8 → UInt32} {source : SourceId}

/-! ### Scanning a cut sequence of frames -/

/-- What a cut may leave after the last whole frame. -/
def Tail (hash : List UInt8 → UInt32) (source : SourceId) (tail : List UInt8) : Prop :=
  tail = [] ∨ ∃ r, Fits source r ∧ tail <+: frame hash r ∧ tail.length < (frame hash r).length

theorem frame_eq (r : RawRecord) (rest : List UInt8) :
    (frame hash r ++ rest).drop headerSize = body r ++ rest := by
  have hlen : (frameHead hash (body r) ++ leBytes 4 (hash (frameHead hash (body r))).toNat).length
      = headerSize := by
    simp [length_frameHead, headerSize]
  rw [frame, pushFrame, List.nil_append, List.append_assoc, List.drop_left' hlen]

variable {r : RawRecord} {tail : List UInt8} {io : Answers} {next : UInt64}

theorem fits_body_length (h : Fits source r) :
    fixed ≤ (body r).length ∧ (body r).length ≤ maxFrame := by
  rw [length_body]
  exact ⟨by omega, h.size_le⟩

theorem readHeader_at (hash : List UInt8 → UInt32) (h : Fits source r) (pre rest : List UInt8) :
    readHeader hash ((pre ++ (frame hash r ++ rest)).drop pre.length) pre.length =
      .ok ⟨(body r).length, (hash (body r)).toNat⟩ := by
  rw [List.drop_left, frame]
  exact readHeader_pushFrame (fits_body_length h).1 (fits_body_length h).2 rest _

theorem readBody_at (hash : List UInt8 → UInt32) (h : Fits source r) (pre rest : List UInt8) :
    readBody hash ((pre ++ (frame hash r ++ rest)).drop (pre.length + headerSize)) pre.length source
      ⟨(body r).length, (hash (body r)).toNat⟩ = .ok r := by
  rw [← List.drop_drop, List.drop_left, frame_eq]
  exact readBody_body h rest _

theorem readCompleteFrame_at (hash : List UInt8 → UInt32) (h : Fits source r)
    (pre rest : List UInt8) :
    readCompleteFrame hash (pre ++ (frame hash r ++ rest)) pre.length source =
      .ok (r, (frame hash r).length) := by
  have hlen : (pre ++ (frame hash r ++ rest)).length - pre.length =
      headerSize + (body r).length + rest.length := by
    rw [List.length_append, List.length_append, frame, length_pushFrame]
    omega
  have h1 : ¬ (pre ++ (frame hash r ++ rest)).length - pre.length < headerSize := by omega
  have h2 : ¬ (pre ++ (frame hash r ++ rest)).length - pre.length < headerSize + (body r).length := by
    omega
  simp only [readCompleteFrame, bind, Except.bind, pure, Except.pure, h1, ↓reduceIte,
    readHeader_at hash h, h2, readBody_at hash h]
  rw [frame, length_pushFrame]

/-- A strict prefix of a frame is an incomplete tail: too short for a header, or announced
longer than it is. -/
theorem scanLoop_tail (h : Tail hash source tail) (pre : List UInt8) (records : ℕ)
    (last : Option UInt64) :
    scanLoop hash (pre ++ tail) source pre.length records last = .ok ⟨records, pre.length, last⟩ := by
  rw [scanLoop]
  rcases h with rfl | ⟨r, hr, hp, hlt⟩
  · simp
  · split_ifs with hne hshort
    · rfl
    · obtain ⟨rest, hrest⟩ := hp
      have hlen := length_pushFrame hash (body r)
      rw [← frame] at hlen
      have hge : headerSize ≤ tail.length := by
        simp only [List.length_append, Nat.add_sub_cancel_left] at hshort
        omega
      -- the header is whole: it is that of `frame hash r`
      have hhead : readHeader hash ((pre ++ tail).drop pre.length) pre.length =
          .ok ⟨(body r).length, (hash (body r)).toNat⟩ := by
        have hfull := readHeader_at hash hr pre []
        rw [List.drop_left, List.append_nil, ← hrest] at hfull
        rw [List.drop_left]
        have hread : readExact headerSize tail = readExact headerSize (tail ++ rest) := by
          simp only [readExact, List.length_append, List.take_append_of_le_length hge]
          rw [if_neg (by omega), if_neg (by omega)]
        unfold readHeader at hfull ⊢
        rw [hread]
        exact hfull
      rw [hhead]
      have hcut : (pre ++ tail).length - pre.length < headerSize + (body r).length := by
        rw [List.length_append, Nat.add_sub_cancel_left]
        omega
      simp only [hcut, ↓reduceIte]
    · rfl

/-- A chain of increasing sequences above `last`. -/
def Ascends (last : Option UInt64) (rs : List RawRecord) : Prop :=
  (∀ x ∈ last, ∀ r ∈ rs, x < r.recordId.sequence) ∧
    rs.Pairwise fun a b => a.recordId.sequence < b.recordId.sequence

/-- The sequence of the last record, or `last` when there is none. -/
def lastSequence (last : Option UInt64) (rs : List RawRecord) : Option UInt64 :=
  rs.foldl (fun _ r => some r.recordId.sequence) last

theorem scanLoop_frames {rs : List RawRecord} (hfit : ∀ r ∈ rs, Fits source r)
    (htail : Tail hash source tail) (pre : List UInt8) (records : ℕ) (last : Option UInt64)
    (hasc : Ascends last rs) :
    scanLoop hash (pre ++ (encAll (frame hash) rs ++ tail)) source pre.length records last =
      .ok ⟨records + rs.length, pre.length + (encAll (frame hash) rs).length,
        lastSequence last rs⟩ := by
  induction rs generalizing pre records last with
  | nil => simpa [lastSequence] using scanLoop_tail htail pre records last
  | cons r rs ih =>
    have hr := hfit r List.mem_cons_self
    have hlen : (frame hash r).length = headerSize + (body r).length := by
      rw [frame, length_pushFrame]
    rw [encAll_cons, List.append_assoc]
    have htotal : (pre ++ (frame hash r ++ (encAll (frame hash) rs ++ tail))).length - pre.length =
        headerSize + (body r).length + (encAll (frame hash) rs ++ tail).length := by
      rw [List.length_append, Nat.add_sub_cancel_left, List.length_append, hlen]
    have hpos : pre.length < (pre ++ (frame hash r ++ (encAll (frame hash) rs ++ tail))).length := by
      simp only [headerSize] at htotal
      omega
    have h1 : ¬ (pre ++ (frame hash r ++ (encAll (frame hash) rs ++ tail))).length - pre.length <
        headerSize := by omega
    have h2 : ¬ (pre ++ (frame hash r ++ (encAll (frame hash) rs ++ tail))).length - pre.length <
        headerSize + (body r).length := by omega
    have h3 : ¬ ∃ x ∈ last, r.recordId.sequence ≤ x := by
      rintro ⟨x, hx, hle⟩
      exact absurd (hasc.1 x hx r List.mem_cons_self) (UInt64.not_lt.2 hle)
    rw [scanLoop]
    simp only [hpos, ↓reduceDIte, h1, ↓reduceIte, readHeader_at hash hr, h2, readBody_at hash hr, h3]
    have hstep := ih (fun x hx => hfit x (List.mem_cons_of_mem _ hx)) (pre ++ frame hash r)
      (records + 1) (some r.recordId.sequence)
      ⟨fun x hx r' hr' => by
        obtain rfl : r.recordId.sequence = x := by simpa using hx
        exact List.rel_of_pairwise_cons hasc.2 hr', hasc.2.of_cons⟩
    rw [List.append_assoc, List.length_append, hlen] at hstep
    rw [hstep, List.length_cons, List.length_append, hlen]
    simp only [lastSequence, List.foldl_cons, Except.ok.injEq, ScanMetadata.mk.injEq, and_true]
    omega

theorem lastSequence_eq (last : Option UInt64) (rs : List RawRecord) :
    lastSequence last rs = (rs.getLast?.map (·.recordId.sequence)).or last := by
  induction rs using List.reverseRecOn with
  | nil | append_singleton rs r _ => simp [lastSequence]

/-- **Any cut of a sequence of frames is an incomplete tail, never corruption**: the scan keeps
the whole frames. -/
theorem scanMetadata_cut (hash : List UInt8 → UInt32) {rs : List RawRecord}
    (hfit : ∀ r ∈ rs, Fits source r) (htail : Tail hash source tail)
    (hsorted : rs.Pairwise fun a b => a.recordId.sequence < b.recordId.sequence) :
    scanMetadata hash (encAll (frame hash) rs ++ tail) source =
      .ok ⟨rs.length, (encAll (frame hash) rs).length, rs.getLast?.map (·.recordId.sequence)⟩ := by
  have := scanLoop_frames hfit htail [] 0 none ⟨by simp, hsorted⟩
  simpa [scanMetadata, lastSequence_eq] using this

/-! ### What the disk and the open journal hold -/

/-- The value of the watermark file, `0` when there is none. -/
def watermark (seqFile : Option (List UInt8)) : ℕ := seqFile.elim 0 leNat

theorem readWatermark_eq {seqFile : Option (List UInt8)} (h : ∀ b ∈ seqFile, b.length = 8) :
    ∃ w, readWatermark seqFile = .ok w ∧ (w.getD 0).toNat = watermark seqFile := by
  cases seqFile with
  | none => exact ⟨none, rfl, rfl⟩
  | some b =>
    have hlen : b.length = 8 := h b rfl
    refine ⟨some (UInt64.ofNat (leNat b)), by simp [readWatermark, hlen], ?_⟩
    have hlt := leNat_lt b
    rw [hlen] at hlt
    exact UInt64.toNat_ofNat_of_lt' hlt

@[simp] theorem watermark_leBytes (v : UInt64) : watermark (some (leBytes 8 v.toNat)) = v.toNat :=
  leNat_leBytes_of_lt v.toNat_lt

/-- What a disk of the journal of `source` holds: a byte prefix of the frames `handed`, and a
watermark above every sequence ever used. -/
structure DiskInv (hash : List UInt8 → UInt32) (source : SourceId) (disk : JournalDisk)
    (handed : List RawRecord) (issued : List UInt64) : Prop where
  fits : ∀ r ∈ handed, Fits source r
  sorted : handed.Pairwise fun a b => a.recordId.sequence < b.recordId.sequence
  bytes_prefix : disk.file.bytes <+: encAll (frame hash) handed
  synced_le : disk.file.synced ≤ disk.file.bytes.length
  seqFile_length : ∀ b ∈ disk.seqFile, b.length = 8
  handed_lt : ∀ r ∈ handed, r.recordId.sequence.toNat < watermark disk.seqFile
  issued_lt : ∀ q ∈ issued, q.toNat < watermark disk.seqFile
  issued_sorted : issued.Pairwise (· < ·)

/-- What an open journal holds: its file and its buffer are the frames `handed`, unless it is
poisoned, and no sequence from `nextSequence` on has been used. -/
structure LiveInv (hash : List UInt8 → UInt32) (source : SourceId) (j : Journal)
    (handed : List RawRecord) (issued : List UInt64) : Prop
    extends DiskInv hash source j.disk handed issued where
  source_eq : j.sourceId = source
  bytes_eq : j.poisoned = false → j.file.bytes ++ j.buffer = encAll (frame hash) handed
  buffer_nil : j.poisoned = true → j.buffer = []
  written_eq : j.poisoned = false → j.writtenBytes = (encAll (frame hash) handed).length
  handed_lt_next : ∀ r ∈ handed, r.recordId.sequence < j.nextSequence
  issued_lt_next : ∀ q ∈ issued, q < j.nextSequence
  next_le : j.nextSequence ≤ j.reservedUntil
  reserved_le : j.reservedUntil.toNat ≤ watermark j.seqFile ∨ j.nextSequence = j.reservedUntil

section Operations

open Outcome

variable {j : Journal} {handed : List RawRecord} {issued : List UInt64}

theorem writeBuffer_nil (io : Answers) (h : j.buffer = []) : writeBuffer io j = .ok () j := by
  simp [writeBuffer, h]

theorem writeBuffer_ok (h : io.write = none) :
    writeBuffer io j = .ok ()
      { j with file := { j.file with bytes := j.file.bytes ++ j.buffer }, buffer := [] } := by
  by_cases hb : j.buffer = []
  · rw [writeBuffer_nil io hb, hb, List.append_nil, ← hb]
  · simp [writeBuffer, hb, h]

theorem writeBuffer_fail {k : ℕ} (hb : j.buffer ≠ []) (h : io.write = some k) :
    writeBuffer io j = .error (.io .other)
      { j with
        file := { j.file with bytes := j.file.bytes ++ j.buffer.dropLast.take k }
        poisoned := true, buffer := [] } := by
  simp [writeBuffer, hb, h]

/-- Handing the buffer over keeps the invariant, also where `write_all` fails half-way. -/
theorem LiveInv.writeBuffer (h : LiveInv hash source j handed issued) (io : Answers) :
    LiveInv hash source (after (writeBuffer io j)) handed issued := by
  by_cases hb : j.buffer = []
  · rw [writeBuffer_nil io hb]
    exact h
  have hp : j.poisoned = false := by
    by_contra hp
    exact hb (h.buffer_nil (by simpa using hp))
  have hsync := h.synced_le
  simp only [disk] at hsync
  cases hw : io.write with
  | none =>
    rw [writeBuffer_ok hw, after_ok]
    refine { h with
      bytes_prefix := ?_, synced_le := ?_, bytes_eq := fun _ => ?_, buffer_nil := fun _ => rfl
      written_eq := fun _ => h.written_eq hp }
    · exact (h.bytes_eq hp).symm ▸ List.prefix_rfl
    · simp only [disk, List.length_append]
      omega
    · simpa using h.bytes_eq hp
  | some k =>
    rw [writeBuffer_fail hb hw, after_error]
    refine { h with
      bytes_prefix := ?_, synced_le := ?_, bytes_eq := by simp, buffer_nil := fun _ => rfl
      written_eq := by simp }
    · rw [← h.bytes_eq hp]
      exact List.prefix_append_right_inj _ |>.2
        ((List.take_prefix _ _).trans (List.dropLast_prefix _))
    · simp only [disk, List.length_append]
      omega

theorem LiveInv.poison (h : LiveInv hash source j handed issued) (hb : j.buffer = []) :
    LiveInv hash source { j with poisoned := true } handed issued :=
  { h with bytes_eq := by simp, buffer_nil := fun _ => hb, written_eq := by simp }

/-- The three ways `write_buffer` can end, from a journal that is not poisoned. -/
theorem writeBuffer_cases (h : LiveInv hash source j handed issued) (hp : j.poisoned = false)
    (io : Answers) :
    (∃ j', writeBuffer io j = .ok () j' ∧ j'.poisoned = false ∧ j'.buffer = [] ∧
      j'.file = ⟨encAll (frame hash) handed, j.file.synced⟩ ∧ j'.writtenBytes = j.writtenBytes ∧
      j'.nextSequence = j.nextSequence) ∨
    ∃ j', writeBuffer io j = .error (.io .other) j' ∧ io.write ≠ none ∧ j'.poisoned = true ∧
      j'.file.synced = j.file.synced ∧ j'.writtenBytes = j.writtenBytes ∧
      j'.nextSequence = j.nextSequence := by
  cases hw : io.write with
  | none =>
    exact .inl ⟨_, writeBuffer_ok hw, hp, rfl, by simp [h.bytes_eq hp], rfl, rfl⟩
  | some k =>
    by_cases hb : j.buffer = []
    · refine .inl ⟨j, writeBuffer_nil io hb, hp, hb, ?_, rfl, rfl⟩
      have := h.bytes_eq hp
      rw [hb, List.append_nil] at this
      rw [← this]
    · exact .inr ⟨_, writeBuffer_fail hb hw, by simp, rfl, rfl, rfl, rfl⟩

/-- A call hands the buffer over and then asks for more: it is done, or the journal is poisoned. -/
theorem call_cases (h : LiveInv hash source j handed issued) (hp : j.poisoned = false)
    (op : EStateM JournalError Journal Unit) (io : Answers) (good : Bool) (f : Journal → Journal)
    (hf : ∀ j', LiveInv hash source j' handed issued → LiveInv hash source (f j') handed issued)
    (hop : op j = (do
      writeBuffer io
      if good then modify f
      else
        modify fun j => { j with poisoned := true }
        throw (.io .other) : EStateM JournalError Journal Unit) j) :
    (∃ j', op j = .ok () (f j') ∧ good = true ∧ j'.poisoned = false ∧ j'.buffer = [] ∧
      j'.file = ⟨encAll (frame hash) handed, j.file.synced⟩ ∧
      LiveInv hash source (f j') handed issued) ∨
    ∃ e j', op j = .error e j' ∧ ¬ (io.write = none ∧ good = true) ∧ j'.poisoned = true ∧
      j'.file.synced = j.file.synced ∧ LiveInv hash source j' handed issued := by
  have hinv := h.writeBuffer io
  rcases writeBuffer_cases h hp io with ⟨j', hj, hp', hb, hfile, -⟩ | ⟨j', hj, hw, hp', hsync, -⟩
  · rw [run_bind_ok hj] at hop
    rw [hj] at hinv
    cases good with
    | true => exact .inl ⟨j', hop, rfl, hp', hb, hfile, hf j' hinv⟩
    | false => exact .inr ⟨_, _, hop, nofun, rfl, by rw [hfile], hinv.poison hb⟩
  · rw [run_bind_error hj] at hop
    rw [hj] at hinv
    exact .inr ⟨_, j', hop, fun hc => hw hc.1, hp', hsync, hinv⟩

/-- `flush` hands everything to the file, or a call fails and the journal is poisoned. -/
theorem flush_cases (h : LiveInv hash source j handed issued) (hp : j.poisoned = false)
    (io : Answers) :
    (∃ j', Journal.flush io j = .ok () j' ∧ io.flush = true ∧ j'.poisoned = false ∧
      j'.buffer = [] ∧ j'.file = ⟨encAll (frame hash) handed, j.file.synced⟩ ∧
      LiveInv hash source j' handed issued) ∨
    ∃ e j', Journal.flush io j = .error e j' ∧ ¬ (io.write = none ∧ io.flush = true) ∧
      j'.poisoned = true ∧ j'.file.synced = j.file.synced ∧
      LiveInv hash source j' handed issued := by
  refine call_cases h hp _ io _ id (fun _ => id) ?_
  simp only [Journal.flush, run_get_bind, hp, Bool.false_eq_true, ↓reduceIte]
  cases io.flush <;> rfl

/-- `sync_data` makes everything durable, or a call fails and the journal is poisoned. -/
theorem syncData_cases (h : LiveInv hash source j handed issued) (hp : j.poisoned = false)
    (io : Answers) :
    (∃ j', Journal.syncData io j = .ok () j' ∧ j'.poisoned = false ∧ j'.buffer = [] ∧
      j'.file = ⟨encAll (frame hash) handed, (encAll (frame hash) handed).length⟩ ∧
      LiveInv hash source j' handed issued) ∨
    ∃ e j', Journal.syncData io j = .error e j' ∧
      ¬ (io.write = none ∧ io.flush = true ∧ io.sync = true) ∧ j'.poisoned = true ∧
      j'.file.synced = j.file.synced ∧ LiveInv hash source j' handed issued := by
  rcases call_cases h hp (Journal.syncData io) io (io.flush && io.sync)
    (fun j => { j with file := { j.file with synced := j.file.bytes.length } })
    (fun _ h => { h with synced_le := le_rfl })
    (by simp only [Journal.syncData, run_get_bind, hp, Bool.false_eq_true, ↓reduceIte]) with
    ⟨j', hj, -, hp', hb, hfile, hinv⟩ | ⟨e, j', hj, hnot, hrest⟩
  · exact .inl ⟨_, hj, hp', hb, by rw [hfile], hinv⟩
  · exact .inr ⟨e, j', hj, fun hc => hnot (by simpa using hc), hrest⟩

theorem LiveInv.flush (h : LiveInv hash source j handed issued) (io : Answers) :
    LiveInv hash source (after (flush io j)) handed issued := by
  cases hp : j.poisoned with
  | true => simpa [Journal.flush, hp] using h
  | false =>
    obtain ⟨j', hj, -, -, -, -, hinv⟩ | ⟨e, j', hj, -, -, -, hinv⟩ := flush_cases h hp io <;>
      rwa [hj]

theorem LiveInv.syncData (h : LiveInv hash source j handed issued) (io : Answers) :
    LiveInv hash source (after (syncData io j)) handed issued := by
  cases hp : j.poisoned with
  | true => simpa [Journal.syncData, hp] using h
  | false =>
    obtain ⟨j', hj, -, -, -, hinv⟩ | ⟨e, j', hj, -, -, -, hinv⟩ := syncData_cases h hp io <;>
      rwa [hj]

theorem after_readPage (io : Answers) (offset maxRecords maxBytes : ℕ) (j : Journal) :
    after (readPage hash io offset maxRecords maxBytes j) = after (Journal.writeBuffer io j) := by
  unfold Journal.readPage
  cases hj : Journal.writeBuffer io j with
  | error e j' => rw [run_bind_error hj]; rfl
  | ok u j' =>
    rw [run_bind_ok hj, run_get_bind]
    cases readPageFrom hash j'.file.bytes j'.sourceId offset maxRecords maxBytes <;> rfl

theorem after_writeBuffer_synced (io : Answers) (j : Journal) :
    (after (Journal.writeBuffer io j)).file.synced = j.file.synced := by
  by_cases hb : j.buffer = []
  · rw [writeBuffer_nil io hb, after_ok]
  · cases hw : io.write with
    | none => rw [writeBuffer_ok hw, after_ok]
    | some k => rw [writeBuffer_fail hb hw, after_error]

theorem poisoned_of_after_writeBuffer {io : Answers} {j : Journal}
    (h : (after (Journal.writeBuffer io j)).poisoned = false) : j.poisoned = false := by
  by_cases hb : j.buffer = []
  · rwa [writeBuffer_nil io hb, after_ok] at h
  · cases hw : io.write with
    | none => rwa [writeBuffer_ok hw, after_ok] at h
    | some k => simp [writeBuffer_fail hb hw] at h

theorem LiveInv.readPage (h : LiveInv hash source j handed issued) (io : Answers)
    (offset maxRecords maxBytes : ℕ) :
    LiveInv hash source (after (readPage hash io offset maxRecords maxBytes j)) handed issued := by
  rw [after_readPage]
  exact h.writeBuffer io

theorem flush_poisoned (io : Answers) (hp : j.poisoned = true) :
    Journal.flush io j = .error .poisoned j := by
  simp [Journal.flush, hp]

theorem syncData_poisoned (io : Answers) (hp : j.poisoned = true) :
    Journal.syncData io j = .error .poisoned j := by
  simp [Journal.syncData, hp]

theorem DiskInv.seqFile {disk : JournalDisk} (h : DiskInv hash source disk handed issued)
    {v : UInt64} (hh : ∀ r ∈ handed, r.recordId.sequence < v) (hi : ∀ q ∈ issued, q < v) :
    DiskInv hash source ⟨disk.file, some (leBytes 8 v.toNat)⟩ handed issued :=
  { h with
    seqFile_length := by simp
    handed_lt := fun r hr => by simpa using UInt64.lt_iff_toNat_lt.1 (hh r hr)
    issued_lt := fun q hq => by simpa using UInt64.lt_iff_toNat_lt.1 (hi q hq) }

/-- What the reservation of the next sequence does: it fails with the watermark file replaced or
not, or it returns with the next sequence reserved on disk. -/
theorem reserve_cases (h : LiveInv hash source j handed issued)
    (hn : checkedAdd j.nextSequence 1 = some next) (io : Answers) :
    (∃ seqFile reservedUntil, reserve io j.nextSequence next j =
        .ok () { j with seqFile, reservedUntil } ∧
      LiveInv hash source { j with seqFile, reservedUntil } handed issued ∧
      next ≤ reservedUntil ∧ reservedUntil.toNat ≤ watermark seqFile) ∨
    ∃ e seqFile, reserve io j.nextSequence next j = .error e { j with seqFile } ∧
      LiveInv hash source { j with seqFile } handed issued := by
  have hnext := checkedAdd_eq_some.1 hn
  have h1 : (1 : UInt64).toNat = 1 := rfl
  have hle := UInt64.le_iff_toNat_le.1 h.next_le
  by_cases hres : next > j.reservedUntil
  · have hgt := UInt64.lt_iff_toNat_lt.1 hres
    have heq : j.nextSequence = j.reservedUntil := UInt64.toNat_inj.1 (by omega)
    cases hc : checkedAdd j.nextSequence sequenceBlock with
    | none =>
      exact .inr ⟨exhausted io "sequence reservation exhausted", j.seqFile,
        by simp [reserve, hres, hc], h⟩
    | some limit =>
      have hlimit := checkedAdd_eq_some.1 hc
      have hb : sequenceBlock.toNat = 1024 := rfl
      have hlt : j.nextSequence < limit := UInt64.lt_iff_toNat_lt.2 (by omega)
      have hdisk := h.toDiskInv.seqFile (v := limit)
        (fun r hr => UInt64.lt_trans (h.handed_lt_next r hr) hlt)
        (fun q hq => UInt64.lt_trans (h.issued_lt_next q hq) hlt)
      cases hw : io.watermark with
      | ok =>
        refine .inl ⟨some (leBytes 8 limit.toNat), limit, ?_, ?_, ?_, ?_⟩
        · simp [reserve, hres, hc, hw, writeWatermark]
        · exact { hdisk, h with
            next_le := UInt64.le_of_lt hlt
            reserved_le := Or.inl (by simp) }
        · exact UInt64.le_iff_toNat_le.2 (by omega)
        · simp
      | failBefore =>
        exact .inr ⟨.io .other, j.seqFile, by simp [reserve, hres, hc, hw, writeWatermark], h⟩
      | failAfter =>
        refine .inr ⟨.io .other, some (leBytes 8 limit.toNat),
          by simp [reserve, hres, hc, hw, writeWatermark], ?_⟩
        exact { hdisk, h with reserved_le := Or.inr heq }
  · refine .inl ⟨j.seqFile, j.reservedUntil, by simp [reserve, hres], h, UInt64.not_lt.1 hres, ?_⟩
    have hge := UInt64.le_iff_toNat_le.1 (UInt64.not_lt.1 hres)
    rcases h.reserved_le with hw | heq
    · exact hw
    · rw [← heq] at hge
      omega

/-- The journal after `append` has put the frame of `record` in the buffer. -/
def pushed (hash : List UInt8 → UInt32) (j : Journal) (record : RawRecord) (next : UInt64) :
    Journal :=
  { j with
    buffer := pushFrame hash j.buffer (body record)
    writtenBytes := j.writtenBytes + (headerSize + (body record).length)
    nextSequence := next }

theorem LiveInv.pushed (h : LiveInv hash source j handed issued) {record : RawRecord}
    (hfit : Fits source record) (hp : j.poisoned = false) (hseq : record.recordId.sequence = j.nextSequence)
    {next : UInt64} (hn : checkedAdd j.nextSequence 1 = some next) (hle : next ≤ j.reservedUntil)
    (hw : j.reservedUntil.toNat ≤ watermark j.seqFile) :
    LiveInv hash source (pushed hash j record next) (handed ++ [record]) issued := by
  have hnext := checkedAdd_eq_some.1 hn
  have h1 : (1 : UInt64).toNat = 1 := rfl
  have hlt : j.nextSequence < next := UInt64.lt_iff_toNat_lt.2 (by omega)
  have hles := UInt64.le_iff_toNat_le.1 hle
  exact {
    fits := fun r hr => by
      rcases List.mem_append.1 hr with hr | hr
      · exact h.fits r hr
      · exact List.mem_singleton.1 hr ▸ hfit
    sorted := List.pairwise_append.2 ⟨h.sorted, List.pairwise_singleton _ _, fun a ha b hb => by
      rw [List.mem_singleton.1 hb, hseq]
      exact h.handed_lt_next a ha⟩
    bytes_prefix := by
      rw [encAll_append]
      exact h.bytes_prefix.trans (List.prefix_append _ _)
    synced_le := h.synced_le
    seqFile_length := h.seqFile_length
    handed_lt := fun r hr => by
      rcases List.mem_append.1 hr with hr | hr
      · exact h.handed_lt r hr
      · rw [List.mem_singleton.1 hr, hseq]
        exact lt_of_lt_of_le (by omega) hw
    issued_lt := h.issued_lt
    issued_sorted := h.issued_sorted
    source_eq := h.source_eq
    bytes_eq := fun _ => by
      rw [Journal.pushed, pushFrame_eq, ← List.append_assoc, h.bytes_eq hp, encAll_append,
        encAll_singleton, frame]
    buffer_nil := fun hp' => absurd hp (by simpa [Journal.pushed] using hp')
    written_eq := fun _ => by
      rw [Journal.pushed, encAll_append, encAll_singleton, List.length_append, h.written_eq hp, frame,
        length_pushFrame]
    handed_lt_next := fun r hr => by
      rcases List.mem_append.1 hr with hr | hr
      · exact UInt64.lt_trans (h.handed_lt_next r hr) hlt
      · rw [List.mem_singleton.1 hr, hseq]
        exact hlt
    issued_lt_next := fun q hq => UInt64.lt_trans (h.issued_lt_next q hq) hlt
    next_le := hle
    reserved_le := Or.inl hw }

/-- Past its checks, `append` reserves the sequence, pushes the frame and hands the buffer over
when it is full. -/
theorem append_eq {record : RawRecord} (hp : j.poisoned = false)
    (hs : record.recordId.sourceId = j.sourceId) (hn : checkedAdd j.nextSequence 1 = some next)
    (hfit : encodeInto (record.withSequence j.nextSequence) =
      .ok (body (record.withSequence j.nextSequence))) (io : Answers) :
    append hash io record j = (do
      reserve io j.nextSequence next
      modify fun j' => pushed hash j' (record.withSequence j.nextSequence) next
      if (← get).buffer.length ≥ writeBufferBytes then Journal.writeBuffer io
      return ⟨j.sourceId, j.nextSequence⟩ : EStateM JournalError Journal RecordId) j := by
  have hid : (record.withSequence j.nextSequence).recordId = ⟨j.sourceId, j.nextSequence⟩ := by
    rw [← hs]
    rfl
  simp only [append, run_get_bind, hp, Bool.false_eq_true, hs, ne_eq, not_true_eq_false, ↓reduceIte,
    hn, hfit, hid]
  rfl

/-- **What `append` does.**  It refuses the record and has at most moved the watermark; or it
fails handing the buffer over, with the record's frame in it and the journal poisoned; or it
returns the sequence it assigned. -/
theorem append_cases (h : LiveInv hash source j handed issued) (io : Answers) (record : RawRecord) :
    (∃ e seqFile, append hash io record j = .error e { j with seqFile } ∧
      LiveInv hash source { j with seqFile } handed issued) ∨
    (∃ j', append hash io record j = .error (.io .other) j' ∧ j'.poisoned = true ∧
      j'.file.synced = j.file.synced ∧ j.nextSequence < j'.nextSequence ∧
      LiveInv hash source j' (handed ++ [record.withSequence j.nextSequence]) issued) ∨
    (∃ j', append hash io record j = .ok ⟨source, j.nextSequence⟩ j' ∧ j'.poisoned = false ∧
      j'.file.synced = j.file.synced ∧ j.poisoned = false ∧
      checkedAdd j.nextSequence 1 = some j'.nextSequence ∧
      LiveInv hash source j' (handed ++ [record.withSequence j.nextSequence]) issued) := by
  by_cases hp : j.poisoned = true
  · have heq : append hash io record j = .error .poisoned j := by simp [append, hp]
    exact .inl ⟨_, j.seqFile, heq, h⟩
  have hpf : j.poisoned = false := by simpa using hp
  by_cases hs : record.recordId.sourceId = j.sourceId
  swap
  · have heq : append hash io record j = .error .wrongSource j := by simp [append, hpf, hs]
    exact .inl ⟨_, j.seqFile, heq, h⟩
  cases hn : checkedAdd j.nextSequence 1 with
  | none =>
    have heq : append hash io record j = .error (exhausted io "sequence exhausted") j := by
      simp [append, hpf, hs, hn]
    exact .inl ⟨_, j.seqFile, heq, h⟩
  | some next =>
    cases henc : encodeInto (record.withSequence j.nextSequence) with
    | error e =>
      have heq : append hash io record j = .error e j := by simp [append, hpf, hs, hn, henc]
      exact .inl ⟨_, j.seqFile, heq, h⟩
    | ok scratch =>
      obtain ⟨hsize, rfl⟩ := encodeInto_eq_ok.1 henc
      have hfit : Fits source (record.withSequence j.nextSequence) :=
        ⟨by rw [RawRecord.withSequence_sourceId, hs, h.source_eq], hsize⟩
      rcases reserve_cases h hn io with ⟨seqFile, limit, hr, hinv, hle, hw⟩ | ⟨e, seqFile, hr, hinv⟩
      · have hpush := hinv.pushed hfit hpf rfl hn hle hw
        set j₁ := pushed hash { j with seqFile, reservedUntil := limit }
          (record.withSequence j.nextSequence) next with hj₁
        have heq : append hash io record j =
            (do if j₁.buffer.length ≥ writeBufferBytes then Journal.writeBuffer io
                return ⟨j.sourceId, j.nextSequence⟩ : EStateM JournalError Journal RecordId) j₁ := by
          rw [append_eq hpf hs hn henc, run_bind_ok hr]
          rfl
        have hlt : j.nextSequence < j₁.nextSequence := by
          have hnext := checkedAdd_eq_some.1 hn
          exact UInt64.lt_iff_toNat_lt.2 (hnext ▸ Nat.lt_succ_self _)
        rw [heq]
        split_ifs with hfull
        · have hwi := hpush.writeBuffer io
          rcases writeBuffer_cases hpush hpf io with
            ⟨j', hj, hp', -, hfile, -, hns⟩ | ⟨j', hj, -, hp', hsync, -, hns⟩
          · rw [hj] at hwi
            refine .inr (.inr ⟨j', ?_, hp', by rw [hfile]; rfl, hpf, congrArg some hns.symm, hwi⟩)
            rw [run_bind_ok hj, h.source_eq]
            rfl
          · rw [hj] at hwi
            exact .inr (.inl ⟨j', by rw [run_bind_error hj], hp', hsync, hns ▸ hlt, hwi⟩)
        · refine .inr (.inr ⟨j₁, ?_, hpf, rfl, hpf, rfl, hpush⟩)
          rw [h.source_eq]
          rfl
      · refine .inl ⟨e, seqFile, ?_, hinv⟩
        rw [append_eq hpf hs hn henc, run_bind_error hr]

theorem reserve_ok (hio : io.watermark = .ok)
    (hres : next > j.reservedUntil → (checkedAdd j.nextSequence sequenceBlock).isSome) :
    ∃ seqFile, reserve io j.nextSequence next j = .ok () { j with
      seqFile
      reservedUntil :=
        if next > j.reservedUntil then j.nextSequence + sequenceBlock else j.reservedUntil } := by
  by_cases hgt : next > j.reservedUntil
  · obtain ⟨limit, hlimit⟩ := Option.isSome_iff_exists.1 (hres hgt)
    obtain rfl := eq_add_of_checkedAdd hlimit
    exact ⟨some (leBytes 8 (j.nextSequence + sequenceBlock).toNat),
      by simp [reserve, hgt, hlimit, hio, writeWatermark]⟩
  · exact ⟨j.seqFile, by simp [reserve, hgt]⟩

/-- **An append whose calls succeed** of a record the journal has a frame and a sequence for. -/
theorem append_ok (h : LiveInv hash source j handed issued) (hp : j.poisoned = false)
    (record : RawRecord) (hs : record.recordId.sourceId = source)
    (hsize : fixed + record.bytes.length + record.delimiter.length ≤ maxFrame)
    (hseq : (checkedAdd j.nextSequence 1).isSome)
    (hres : j.nextSequence + 1 > j.reservedUntil → (checkedAdd j.nextSequence sequenceBlock).isSome)
    (hio : io.watermark = .ok ∧ io.write = none) :
    ∃ j', append hash io record j = .ok ⟨source, j.nextSequence⟩ j' ∧ j'.poisoned = false ∧
      LiveInv hash source j' (handed ++ [record.withSequence j.nextSequence]) issued ∧
      j'.buffer.length = (if j.buffer.length + (frame hash record).length ≥ writeBufferBytes then 0
        else j.buffer.length + (frame hash record).length) ∧
      j'.writtenBytes = j.writtenBytes + (frame hash record).length ∧
      j'.nextSequence = j.nextSequence + 1 ∧
      j'.reservedUntil = (if j.nextSequence + 1 > j.reservedUntil
        then j.nextSequence + sequenceBlock else j.reservedUntil) := by
  obtain ⟨next, hn⟩ := Option.isSome_iff_exists.1 hseq
  obtain rfl := eq_add_of_checkedAdd hn
  have hs' : record.recordId.sourceId = j.sourceId := hs.trans h.source_eq.symm
  have hsize' : fixed + (record.withSequence j.nextSequence).bytes.length +
      (record.withSequence j.nextSequence).delimiter.length ≤ maxFrame := hsize
  have henc := encodeInto_eq_ok.2 ⟨hsize', rfl⟩
  obtain ⟨seqFile, hr⟩ := reserve_ok hio.1 hres
  have hlen : (pushFrame hash j.buffer (body (record.withSequence j.nextSequence))).length =
      j.buffer.length + (frame hash record).length := by
    rw [pushFrame_eq, List.length_append, length_pushFrame, length_body, frame_length]
    rfl
  have hwritten : headerSize + (body (record.withSequence j.nextSequence)).length =
      (frame hash record).length := by
    rw [length_body, frame_length]
    rfl
  -- what is appended, by its effect on the buffer
  have key : ∃ j', append hash io record j = .ok ⟨source, j.nextSequence⟩ j' ∧
      j'.buffer.length = (if j.buffer.length + (frame hash record).length ≥ writeBufferBytes then 0
        else j.buffer.length + (frame hash record).length) ∧
      j'.writtenBytes = j.writtenBytes + (frame hash record).length ∧
      j'.nextSequence = j.nextSequence + 1 ∧
      j'.reservedUntil = (if j.nextSequence + 1 > j.reservedUntil
        then j.nextSequence + sequenceBlock else j.reservedUntil) := by
    rw [append_eq hp hs' hn henc io, run_bind_ok hr, run_modify_bind, run_get_bind, ← h.source_eq]
    simp only [pushed, hlen, hwritten]
    by_cases hfull : j.buffer.length + (frame hash record).length ≥ writeBufferBytes
    · simp only [hfull, ↓reduceIte]
      rw [run_bind_ok (writeBuffer_ok hio.2)]
      exact ⟨_, rfl, rfl, rfl, rfl, rfl⟩
    · simp only [hfull, ↓reduceIte]
      exact ⟨_, rfl, hlen, rfl, rfl, rfl⟩
  obtain ⟨j', heq, hbuf, hwr, hnext, hresv⟩ := key
  rcases append_cases h io record with ⟨e, sf, herr, -⟩ | ⟨j₂, herr, -⟩ |
    ⟨j₂, hok, hp₂, -, -, -, hinv⟩
  · rw [heq] at herr
    simp at herr
  · rw [heq] at herr
    simp at herr
  · obtain rfl : j' = j₂ := by
      rw [heq] at hok
      simpa using hok
    exact ⟨j', heq, hp₂, hinv, hbuf, hwr, hnext, hresv⟩

/-! ### Nothing is taken back -/

theorem extends_writeBuffer (bytes : List UInt8) (io : Answers) :
    Keeps (fun j : Journal => bytes <+: j.file.bytes) (Journal.writeBuffer io) := by
  intro j h
  by_cases hb : j.buffer = []
  · rwa [writeBuffer_nil io hb]
  · cases hw : io.write with
    | none =>
      rw [writeBuffer_ok hw]
      exact h.trans (List.prefix_append _ _)
    | some k =>
      rw [writeBuffer_fail hb hw]
      exact h.trans (List.prefix_append _ _)

theorem extends_flush (bytes : List UInt8) (io : Answers) :
    Keeps (fun j : Journal => bytes <+: j.file.bytes) (Journal.flush io) := by
  refine .get_bind_keeps fun j => .ite (fun _ => .throw fun _ h => h) fun _ => ?_
  refine .bind (extends_writeBuffer bytes io) fun _ => .ite (fun _ => ?_) fun _ => .pure fun _ h => h
  exact .bind (Q := fun _ j => bytes <+: j.file.bytes) (.modify fun _ h => h) fun _ =>
    .throw fun _ h => h

theorem extends_syncData (bytes : List UInt8) (io : Answers) :
    Keeps (fun j : Journal => bytes <+: j.file.bytes) (Journal.syncData io) := by
  refine .get_bind_keeps fun j => .ite (fun _ => .throw fun _ h => h) fun _ => ?_
  refine .bind (extends_writeBuffer bytes io) fun _ => .ite (fun _ => .modify fun _ h => h) fun _ => ?_
  exact .bind (Q := fun _ j => bytes <+: j.file.bytes) (.modify fun _ h => h) fun _ =>
    .throw fun _ h => h

theorem extends_reserve (bytes : List UInt8) (io : Answers) (sequence next : UInt64) :
    Keeps (fun j : Journal => bytes <+: j.file.bytes) (Journal.reserve io sequence next) := by
  intro j h
  by_cases hnext : next > j.reservedUntil
  · cases hadd : checkedAdd sequence sequenceBlock with
    | none => simpa [reserve, hnext, hadd] using h
    | some reservedUntil =>
      cases hw : io.watermark <;> simpa [reserve, hnext, hadd, hw, writeWatermark] using h
  · simpa [reserve, hnext] using h

theorem extends_append (hash : List UInt8 → UInt32) (bytes : List UInt8) (io : Answers) (record : RawRecord) :
    Keeps (fun j : Journal => bytes <+: j.file.bytes) (Journal.append hash io record) := by
  intro j h
  cases hp : j.poisoned with
  | true => simpa [append, hp] using h
  | false =>
    by_cases hs : record.recordId.sourceId = j.sourceId
    · cases hn : checkedAdd j.nextSequence 1 with
      | none => simpa [append, hp, hs, hn] using h
      | some next =>
        cases hfit : encodeInto (record.withSequence j.nextSequence) with
        | error e => simpa [append, hp, hs, hn, hfit] using h
        | ok scratch =>
          simp only [append, run_get_bind, hp, Bool.false_eq_true, hs, ne_eq, not_true_eq_false,
            ↓reduceIte, hn, hfit]
          refine Ensures.bind (extends_reserve bytes io j.nextSequence next) (fun _ => ?_) j h
          refine .bind (Q := fun _ j => bytes <+: j.file.bytes) (.modify fun _ h => h) fun _ =>
            .get_bind_keeps fun j' => .ite (fun _ => ?_) fun _ => .pure fun _ h => h
          exact .bind (extends_writeBuffer bytes io) fun _ => .pure fun _ h => h
    · simpa [append, hp, hs] using h

end Operations

end Lvu.Journal
