import Lvu.Core.Capture

/-!
# Resuming a file

A resume cursor names a prefix of a file by its length, its checksum and its last
`FILE_EVIDENCE_BYTES` bytes (`lvu-core/src/acquisition.rs`).  The checksum is a function `crc` of
the bytes: a hasher is the bytes it has been given.

* `scanPrefix_eq` : the loop that reads the prefix again finds its bytes and its evidence.
* `validateResume_cursorAt` : a cursor that describes a prefix of the file is accepted.
-/

namespace Lvu

open List

def fileEvidenceBytes : ℕ := 4096

/-- The last `n` bytes. -/
def lastBytes (n : ℕ) (bs : List UInt8) : List UInt8 := bs.drop (bs.length - n)

theorem length_lastBytes (n : ℕ) (bs : List UInt8) : (lastBytes n bs).length = min n bs.length := by
  rw [lastBytes, length_drop]
  omega

theorem lastBytes_of_le {n : ℕ} {bs : List UInt8} (h : bs.length ≤ n) : lastBytes n bs = bs := by
  rw [lastBytes, Nat.sub_eq_zero_of_le h, drop_zero]

theorem lastBytes_append (n : ℕ) (as bs : List UInt8) :
    lastBytes n (lastBytes n as ++ bs) = lastBytes n (as ++ bs) := by
  simp only [lastBytes, length_append, length_drop, drop_append, drop_drop]
  congr 1
  · congr 1
    omega
  · congr 1
    omega

/-- A source file as it is at some moment. -/
structure SourceFile where
  identity : Option FileIdentity
  bytes : List UInt8

/-- The cursor of the first `offset` bytes of a file. -/
def cursorAt (crc : List UInt8 → UInt32) (file : SourceFile) (offset : ℕ) : FileResumeCursor :=
  { offset, identity := file.identity
    evidence := lastBytes fileEvidenceBytes (file.bytes.take offset)
    contentCrc32 := crc (file.bytes.take offset) }

/-- A file that has grown. -/
def SourceFile.grown (file : SourceFile) (bytes : List UInt8) : SourceFile :=
  { file with bytes := file.bytes ++ bytes }

theorem cursorAt_grown (crc : List UInt8 → UInt32) {file : SourceFile} {offset : ℕ}
    (h : offset ≤ file.bytes.length) (bytes : List UInt8) :
    cursorAt crc (file.grown bytes) offset = cursorAt crc file offset := by
  simp only [cursorAt, SourceFile.grown, take_append_of_le_length h]

theorem evidence_cursorAt_le (crc : List UInt8 → UInt32) (file : SourceFile) (offset : ℕ) :
    (cursorAt crc file offset).evidence.length ≤ fileEvidenceBytes ∧
      (cursorAt crc file offset).evidence.length ≤ offset := by
  simp only [cursorAt, length_lastBytes, length_take]
  omega

/-- The loop that reads `remaining` bytes again, 64 KiB at a time, into the hasher and the window:
nothing when the source ends before. -/
def scanPrefix (remaining : ℕ) (source hashed tail : List UInt8) :
    Option (List UInt8 × List UInt8) :=
  if _h : 0 < remaining then
    let chunk := source.take (min remaining (64 * 1024))
    if _hc : chunk = [] then none
    else
      scanPrefix (remaining - chunk.length) (source.drop chunk.length) (hashed ++ chunk)
        (lastBytes fileEvidenceBytes (tail ++ chunk))
  else some (hashed, tail)
termination_by remaining
decreasing_by exact Nat.sub_lt _h (length_pos_of_ne_nil _hc)

/-- **What reading the prefix again finds.** -/
theorem scanPrefix_eq (remaining : ℕ) (source hashed tail : List UInt8)
    (h : remaining ≤ source.length) (htail : tail.length ≤ fileEvidenceBytes) :
    scanPrefix remaining source hashed tail =
      some (hashed ++ source.take remaining,
        lastBytes fileEvidenceBytes (tail ++ source.take remaining)) := by
  induction remaining, source, hashed, tail using scanPrefix.induct with
  | case1 remaining source hashed tail hpos chunk hnil =>
    have hlen := congrArg List.length hnil
    simp only [chunk, length_take, length_nil] at hlen
    omega
  | case2 remaining source hashed tail hpos chunk hne ih =>
    have hlen : chunk.length = min remaining (64 * 1024) := by
      simp only [chunk, length_take]
      omega
    have hsplit : source.take remaining =
        chunk ++ (source.drop chunk.length).take (remaining - chunk.length) := by
      rw [hlen, ← take_add]
      congr 1
      omega
    rw [scanPrefix, dif_pos hpos, dif_neg hne, ih, hsplit, lastBytes_append, append_assoc,
      append_assoc]
    · rw [length_drop]
      omega
    · rw [length_lastBytes]
      omega
  | case3 remaining source hashed tail hzero =>
    obtain rfl : remaining = 0 := by omega
    rw [scanPrefix, dif_neg hzero, take_zero, append_nil, append_nil,
      lastBytes_of_le htail]

/-- What `validate_resume` settles on: where to read from, the evidence and the hasher of what is
before, and how the run begins. -/
structure Resumed where
  offset : ℕ
  evidence : List UInt8
  hashed : List UInt8
  reason : BoundaryReason

/-- What interrupts a capture. -/
inductive Signal
  | cancelled | stopped

/-- What an interrupted validation reports. -/
def Signal.message : Signal → String
  | .cancelled => "file resume validation aborted"
  | .stopped => "file resume validation stopped"

/-- `validate_resume`.  `interrupted` is a signal that comes while the prefix is read again. -/
def validateResume (crc : List UInt8 → UInt32) (file : SourceFile) (interrupted : Option Signal) :
    Option FileResumeCursor → Except String Resumed
  | none => .ok ⟨0, [], [], .started⟩
  | some resume =>
    if resume.identity ≠ file.identity then .ok ⟨0, [], [], .rotated⟩
    else if resume.evidence.length > fileEvidenceBytes ∨ resume.evidence.length > resume.offset then
      .error "invalid file resume evidence"
    else if file.bytes.length < resume.offset then .ok ⟨0, [], [], .truncated⟩
    else match interrupted with
      | some signal => .error signal.message
      | none =>
        match scanPrefix resume.offset file.bytes [] [] with
        | none => .ok ⟨0, [], [], .truncated⟩
        | some (hashed, tail) =>
          if tail ≠ resume.evidence ∨ crc hashed ≠ resume.contentCrc32 then
            .ok ⟨0, [], [], .truncated⟩
          else .ok ⟨resume.offset, resume.evidence, hashed, .started⟩

/-- **A cursor of a prefix of the file is resumed behind that prefix.** -/
theorem validateResume_cursorAt (crc : List UInt8 → UInt32) {file : SourceFile} {offset : ℕ}
    (h : offset ≤ file.bytes.length) :
    validateResume crc file none (some (cursorAt crc file offset)) =
      .ok ⟨offset, lastBytes fileEvidenceBytes (file.bytes.take offset), file.bytes.take offset,
        .started⟩ := by
  obtain ⟨hev, hoff⟩ := evidence_cursorAt_le crc file offset
  have hscan := scanPrefix_eq offset file.bytes [] [] h (Nat.zero_le _)
  simp only [nil_append] at hscan
  have hwindow : ¬ ((cursorAt crc file offset).evidence.length > fileEvidenceBytes ∨
      (cursorAt crc file offset).evidence.length > offset) := by omega
  have hidentity : (cursorAt crc file offset).identity = file.identity := rfl
  have hoffset : (cursorAt crc file offset).offset = offset := rfl
  simp only [validateResume, hidentity, ne_eq, not_true_eq_false, ↓reduceIte, hoffset, hwindow,
    Nat.not_lt.2 h, hscan]
  simp [cursorAt]

end Lvu
