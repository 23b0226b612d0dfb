import Lvu.Core.Paging
import Lvu.Core.Resume
import Lvu.Ingest.Progress

/-!
# Recovering a file cursor

When a file source starts, its cursor may be behind its journal: `recover_file_cursor` reads the
records behind the cursor, compares them with the file, and moves the cursor up to the end of the
journal (`lvu-ingest/src/writer.rs`).  It refuses a tail that is too long, that belongs to another
acquisition, or that the file no longer holds.

* `recoverLoop_eq` : the loop succeeds exactly on the tails that `Replays` describes.
* `recover_ok` : over a file the cursor describes, a recovery that succeeds leaves the cursor of what
  the journal holds.
-/

namespace Lvu.Recover

open Outcome

def maxRecoveryRecords : ℕ := 65536

def maxRecoveryBytes : ℕ := 8 * 1024 * 1024

/-- What the outside answers to a recovery: by default the start is not cancelled, and the file
and the cursor file can be read and written. -/
structure RecoverAnswers where
  cancelled : Bool := false
  readable : Bool := true
  store : ReplaceAnswer := .ok

structure FileCursorSetup where
  sourcePath : String
  durable : Option DurableFileCursor

/-- The journal and the cursor file during a start. -/
structure Recovering where
  journal : Journal
  cursorFile : Option DurableFileCursor

/-- A part of a start. -/
abbrev Op (α : Type) := EStateM RuntimeError Recovering α

/-- What `cursor::load` makes of the cursor file. -/
def loadCursor (source : SourceId) (path : String) (cursorFile : Option DurableFileCursor) :
    Except RuntimeError (Option DurableFileCursor) :=
  match cursorFile with
  | none => .ok none
  | some cursor =>
    if cursor.schemaVersion ≠ 1 ∨ cursor.sourceId ≠ source ∨ cursor.path ≠ path then
      .error (.io "file cursor schema or source identity mismatch")
    else .ok (some cursor)

/-- `validate_acknowledged_prefix`: what the hasher holds when the source begins with the prefix
the cursor describes. -/
def validateAcknowledgedPrefix (crc : List UInt8 → UInt32) (source : List UInt8)
    (cursor : FileResumeCursor) : Option (List UInt8) :=
  if cursor.evidence.length > cursor.offset then none
  else match scanPrefix cursor.offset source [] [] with
    | none => none
    | some (hashed, tail) =>
      if crc hashed ≠ cursor.contentCrc32 ∨ tail ≠ cursor.evidence then none else some hashed

def validateSourceEncoding (crc : List UInt8 → UInt32) (source : List UInt8) : FileEncoding → Bool
  | .plain => true
  | .gzip compressedSize compressedCrc32 compressedEvidence =>
    source.length = compressedSize ∧
      ∃ scanned ∈ scanPrefix source.length source [] [],
        crc scanned.1 = compressedCrc32 ∧ scanned.2 = compressedEvidence

/-- Where the loop of a recovery stands. -/
structure Replay where
  /-- The cursor, moved along but for its journal offset and its checksum. -/
  durable : DurableFileCursor
  journalOffset : ℕ
  recoveredBytes : ℕ
  hashed : List UInt8
  /-- What is left of the source. -/
  source : List UInt8

/-- The cursor behind `expected`. -/
def Replay.moved (r : Replay) (expected : List UInt8) (nextOffset : ℕ) : Replay :=
  { durable := { r.durable with
      file := { r.durable.file with
        offset := r.durable.file.offset + expected.length
        evidence := lastBytes fileEvidenceBytes (r.durable.file.evidence ++ expected) } }
    journalOffset := nextOffset
    recoveredBytes := r.recoveredBytes + expected.length
    hashed := r.hashed ++ expected
    source := r.source.drop expected.length }

/-- `Journal::read_page` on the journal of the start. -/
def readPage (hash : List UInt8 → UInt32) (offset maxRecords maxBytes : ℕ) : Op JournalPage :=
  fun s => match Journal.readPage hash {} offset maxRecords maxBytes s.journal with
    | .ok page journal => .ok page { s with journal }
    | .error e journal => .error (.journal e) { s with journal }

/-- The loop of `recover_file_cursor`, with `left` of the records it may recover left. -/
def recoverLoop (hash : List UInt8 → UInt32) (journalEnd : ℕ) : ℕ → Replay → Op Replay
  | 0, r =>
    if r.journalOffset < journalEnd then
      throw (.io "uncheckpointed file journal tail exceeds recovery bounds")
    else return r
  | left + 1, r =>
    if r.journalOffset < journalEnd then
      if r.recoveredBytes ≥ maxRecoveryBytes then
        throw (.io "uncheckpointed file journal tail exceeds recovery bounds")
      else do
        let page ← readPage hash r.journalOffset 1 (2 * 1024 * 1024)
        match page.records with
        | [] => throw (.io "file cursor journal tail made no progress")
        | record :: _ =>
          if record.stream ≠ .file ∨ record.acquisitionId ≠ r.durable.acquisitionId then
            throw (.io "file cursor journal tail crosses an uncheckpointed boundary")
          else
            let expected := record.bytes ++ record.delimiter
            if r.source.length < expected.length then throw (.io "failed to fill whole buffer")
            else if r.source.take expected.length ≠ expected then
              throw (.io "file content no longer matches the uncheckpointed journal tail")
            else recoverLoop hash journalEnd left (r.moved expected page.nextOffset)
    else return r

/-- `cursor::store`, during a start. -/
def store (io : RecoverAnswers) (cursor : DurableFileCursor) : Op Unit :=
  match io.store with
  | .ok => modify fun s => { s with cursorFile := some cursor }
  | .failBefore => throw (.io "cursor")
  | .failAfter => do
    modify fun s => { s with cursorFile := some cursor }
    throw (.io "cursor")

/-- The tail of a recovery: what is behind the cursor is replayed, and the cursor stored. -/
def replayTail (hash crc : List UInt8 → UInt32) (io : RecoverAnswers) (sourcePath : String)
    (durable : DurableFileCursor) (journalEnd : ℕ) (hashed source : List UInt8) :
    Op (Option FileCursorWriter) := do
  let r ← recoverLoop hash journalEnd maxRecoveryRecords
    ⟨durable, durable.journalOffset, 0, hashed, source⟩
  if r.journalOffset ≠ durable.journalOffset then
    let recovered := { r.durable with
      journalOffset := r.journalOffset
      file := { r.durable.file with contentCrc32 := crc r.hashed } }
    store io recovered
    return some ⟨sourcePath, some recovered⟩
  else return some ⟨sourcePath, some r.durable⟩

/-- `recover_file_cursor`.  `gunzip` is what the gzip decoder reads. -/
def recoverFileCursor (hash crc : List UInt8 → UInt32) (gunzip : List UInt8 → List UInt8)
    (io : RecoverAnswers) (file : SourceFile) :
    Option FileCursorSetup → Op (Option FileCursorWriter)
  | none => return none
  | some ⟨sourcePath, none⟩ => return some ⟨sourcePath, none⟩
  | some ⟨sourcePath, some durable⟩ => do
    let journalEnd := (← get).journal.writtenBytes
    if durable.journalOffset > journalEnd then
      throw (.io "file cursor points beyond the journal")
    else if durable.journalOffset = journalEnd then return some ⟨sourcePath, some durable⟩
    else if io.cancelled then throw .closed
    else if !io.readable then throw (.io "source")
    else if file.identity ≠ durable.file.identity then return some ⟨sourcePath, some durable⟩
    else if durable.encoding = .plain ∧ file.bytes.length < durable.file.offset then
      return some ⟨sourcePath, some durable⟩
    else if !validateSourceEncoding crc file.bytes durable.encoding then
      return some ⟨sourcePath, some durable⟩
    else
      let source := if durable.encoding = .plain then file.bytes else gunzip file.bytes
      match validateAcknowledgedPrefix crc source durable.file with
      | none => return some ⟨sourcePath, some durable⟩
      | some hashed =>
        replayTail hash crc io sourcePath durable journalEnd hashed
          (source.drop durable.file.offset)

/-! ### The loop -/

/-- The tails that the loop accepts: records of one file acquisition, within the bounds, that the
source goes on with. -/
def Replays (acquisitionId : Uuid) : ℕ → ℕ → List UInt8 → List RawRecord → Prop
  | _, _, _, [] => True
  | 0, _, _, _ :: _ => False
  | left + 1, recovered, source, r :: rest =>
    recovered < maxRecoveryBytes ∧ (r.stream = .file ∧ r.acquisitionId = acquisitionId) ∧
      r.payload <+: source ∧
      Replays acquisitionId left (recovered + r.payload.length) (source.drop r.payload.length) rest

theorem replays_nil (acquisitionId : Uuid) (left recovered : ℕ) (source : List UInt8) :
    Replays acquisitionId left recovered source [] := by
  cases left <;> trivial

theorem append_prefix_iff {as bs cs : List UInt8} :
    as ++ bs <+: cs ↔ as <+: cs ∧ bs <+: cs.drop as.length := by
  constructor
  · rintro ⟨ds, rfl⟩
    rw [List.append_assoc, List.drop_left]
    exact ⟨List.prefix_append _ _, List.prefix_append _ _⟩
  · rintro ⟨⟨ds, rfl⟩, hb⟩
    rw [List.drop_left] at hb
    exact (List.prefix_append_right_inj as).2 hb

/-- The same in closed form: only the bytes of the last record may lie beyond the bound. -/
theorem replays_iff {acquisitionId : Uuid} {left recovered : ℕ} {source : List UInt8}
    {tail : List RawRecord} :
    Replays acquisitionId left recovered source tail ↔
      (∀ r ∈ tail, r.stream = .file ∧ r.acquisitionId = acquisitionId) ∧
        payloads tail <+: source ∧ tail.length ≤ left ∧
        (tail ≠ [] → recovered + (payloads tail.dropLast).length < maxRecoveryBytes) := by
  induction tail generalizing left recovered source with
  | nil => simp [Replays]
  | cons r rest ih =>
    cases left with
    | zero => simp [Replays]
    | succ left =>
      have hbytes : recovered < maxRecoveryBytes ∧ (rest ≠ [] →
            recovered + r.payload.length + (payloads rest.dropLast).length < maxRecoveryBytes) ↔
          recovered + (payloads (r :: rest).dropLast).length < maxRecoveryBytes := by
        cases rest with
        | nil => simp
        | cons r' rest =>
          simp only [ne_eq, reduceCtorEq, not_false_eq_true, forall_const, List.dropLast_cons_cons,
            payloads_cons, List.length_append]
          omega
      rw [Replays, ih, payloads_cons, append_prefix_iff, List.forall_mem_cons, List.length_cons,
        Nat.add_le_add_iff_right]
      simp only [ne_eq, reduceCtorEq, not_false_eq_true, forall_const, ← hbytes]
      tauto

variable {hash crc : List UInt8 → UInt32} {source : SourceId} {j : Journal}
  {issued : List UInt64}

open Journal Framing

/-- A page of one record at a frame boundary of a journal with nothing buffered. -/
theorem readPage_one (cursorFile : Option DurableFileCursor) {pre rest : List RawRecord}
    {r : RawRecord} (h : LiveInv hash source j (pre ++ r :: rest) issued)
    (hp : j.poisoned = false) (hb : j.buffer = []) :
    ∃ endOfJournal, readPage hash (encAll (frame hash) pre).length 1 (2 * 1024 * 1024)
        ⟨j, cursorFile⟩ =
      .ok ⟨[r], (encAll (frame hash) (pre ++ [r])).length, endOfJournal⟩ ⟨j, cursorFile⟩ := by
  have hbytes := h.bytes_eq hp
  rw [hb, List.append_nil] at hbytes
  obtain ⟨taken, left, hrest, hpage, hlim, htaken⟩ :=
    readPageFrom_frames hash pre (fun x hx => h.fits x (List.mem_append_right _ hx))
      (by decide : 0 < 1 ∧ 0 < 2 * 1024 * 1024)
  obtain ⟨r', taken, rfl⟩ := List.exists_cons_of_ne_nil (htaken (List.cons_ne_nil _ _))
  -- one record at most
  obtain rfl : taken = [] := List.eq_nil_of_length_eq_zero (by
    have := hlim.1
    simp only [List.length_cons] at this
    omega)
  obtain ⟨rfl, -⟩ := List.cons_eq_cons.1 hrest
  refine ⟨left.isEmpty, ?_⟩
  rw [readPage, Journal.readPage, run_bind_ok (writeBuffer_nil {} hb), run_get_bind]
  simp only [hbytes, h.source_eq, hpage, run_pure]

theorem Replay.moved_moved (r : Replay) (as bs : List UInt8) (n m : ℕ) :
    (r.moved as n).moved bs m = r.moved (as ++ bs) m := by
  simp only [Replay.moved, lastBytes_append, List.length_append, List.append_assoc, Nat.add_assoc,
    List.drop_drop]

theorem Replay.moved_nil {r : Replay}
    (h : r.durable.file.evidence.length ≤ fileEvidenceBytes) : r.moved [] r.journalOffset = r := by
  simp only [Replay.moved, List.append_nil, lastBytes_of_le h, List.length_nil, Nat.add_zero,
    List.drop_zero]

/-- **The loop replays exactly the tails it accepts**, and reads without changing anything. -/
theorem recoverLoop_eq (cursorFile : Option DurableFileCursor) {pre tail : List RawRecord}
    (h : LiveInv hash source j (pre ++ tail) issued) (hp : j.poisoned = false) (hb : j.buffer = [])
    (left : ℕ) {r : Replay} (hoffset : r.journalOffset = (encAll (frame hash) pre).length)
    (hevidence : r.durable.file.evidence.length ≤ fileEvidenceBytes) :
    (Replays r.durable.acquisitionId left r.recoveredBytes r.source tail →
      recoverLoop hash (encAll (frame hash) (pre ++ tail)).length left r ⟨j, cursorFile⟩ =
        .ok (r.moved (payloads tail) (encAll (frame hash) (pre ++ tail)).length) ⟨j, cursorFile⟩) ∧
    (¬ Replays r.durable.acquisitionId left r.recoveredBytes r.source tail →
      ∃ e, recoverLoop hash (encAll (frame hash) (pre ++ tail)).length left r ⟨j, cursorFile⟩ =
        .error e ⟨j, cursorFile⟩) := by
  induction tail generalizing pre left r with
  | nil =>
    have hend : ¬ r.journalOffset < (encAll (frame hash) (pre ++ [])).length := by
      rw [List.append_nil, hoffset]
      exact lt_irrefl _
    refine ⟨fun _ => ?_, fun hn => absurd (replays_nil _ _ _ _) hn⟩
    rw [payloads_nil, List.append_nil, ← hoffset, Replay.moved_nil hevidence]
    cases left <;> simp [recoverLoop]
  | cons record rest ih =>
    have hmore : r.journalOffset < (encAll (frame hash) (pre ++ record :: rest)).length := by
      have := List.length_pos_of_ne_nil (frame_ne_nil hash record)
      rw [hoffset, encAll_append, encAll_cons, List.length_append, List.length_append]
      omega
    cases left with
    | zero => exact ⟨fun hr => hr.elim, fun _ => ⟨_, by rw [recoverLoop, if_pos hmore]; rfl⟩⟩
    | succ left =>
      rw [recoverLoop, if_pos hmore, Replays]
      by_cases hbytes : r.recoveredBytes ≥ maxRecoveryBytes
      · rw [if_pos hbytes]
        exact ⟨fun hr => absurd hr.1 (Nat.not_lt.2 hbytes), fun _ => ⟨_, rfl⟩⟩
      obtain ⟨endOfJournal, hpage⟩ := readPage_one cursorFile h hp hb
      rw [if_neg hbytes, hoffset, run_bind_ok hpage]
      by_cases htag : record.stream = .file ∧ record.acquisitionId = r.durable.acquisitionId
      swap
      · have hcross : record.stream ≠ .file ∨ record.acquisitionId ≠ r.durable.acquisitionId := by
          tauto
        refine ⟨fun hr => absurd hr.2.1 htag, fun _ => ?_⟩
        simp only [hcross, ↓reduceIte]
        exact ⟨_, rfl⟩
      simp only [htag.1, htag.2, ne_eq, not_true_eq_false, or_self, ↓reduceIte]
      by_cases hsource : record.payload <+: r.source
      swap
      · refine ⟨fun hr => absurd hr.2.2.1 hsource, fun _ => ?_⟩
        by_cases hshort : r.source.length < (record.bytes ++ record.delimiter).length
        · rw [if_pos hshort]
          exact ⟨_, rfl⟩
        · have hdiffer : r.source.take (record.bytes ++ record.delimiter).length ≠
              record.bytes ++ record.delimiter := fun heq =>
            hsource (heq ▸ List.take_prefix _ _ : record.bytes ++ record.delimiter <+: r.source)
          rw [if_neg hshort, if_pos hdiffer]
          exact ⟨_, rfl⟩
      have hlong : ¬ r.source.length < (record.bytes ++ record.delimiter).length :=
        Nat.not_lt.2 hsource.length_le
      have hsame : ¬ r.source.take (record.bytes ++ record.delimiter).length ≠
          record.bytes ++ record.delimiter := not_not.2 (List.prefix_iff_eq_take.1 hsource).symm
      rw [if_neg hlong, if_neg hsame]
      -- the rest of the tail, from behind this record
      have hrest : pre ++ record :: rest = (pre ++ [record]) ++ rest := by simp
      have hih := ih (hrest ▸ h) left
        (r := r.moved record.payload (encAll (frame hash) (pre ++ [record])).length) rfl (by rw [Replay.moved, length_lastBytes]; exact Nat.min_le_left _ _)
      rw [Replay.moved_moved, ← hrest] at hih
      refine ⟨fun hr => hih.1 hr.2.2.2, fun hr => hih.2 fun hrest => hr ?_⟩
      exact ⟨Nat.not_le.1 hbytes, ⟨trivial, trivial⟩, hsource, hrest⟩

/-! ### The whole recovery -/

/-- A cursor stands behind `before` in the journal and describes a prefix of the plain file. -/
structure Points (hash crc : List UInt8 → UInt32) (file : SourceFile) (before : List RawRecord)
    (cursor : DurableFileCursor) : Prop where
  journalOffset_eq : cursor.journalOffset = (encAll (frame hash) before).length
  file_eq : cursor.file = cursorAt crc file cursor.file.offset
  offset_le : cursor.file.offset ≤ file.bytes.length
  encoding_eq : cursor.encoding = .plain

/-- The cursor behind `after` as well. -/
def advanced (hash crc : List UInt8 → UInt32) (file : SourceFile) (cursor : DurableFileCursor)
    (before after : List RawRecord) : DurableFileCursor :=
  { cursor with
    journalOffset := (encAll (frame hash) (before ++ after)).length
    file := cursorAt crc file (cursor.file.offset + (payloads after).length) }

variable {file : SourceFile} {before after : List RawRecord} {cursor : DurableFileCursor}

theorem Points.advanced_nil (h : Points hash crc file before cursor) :
    advanced hash crc file cursor before [] = cursor := by
  simp only [advanced, List.append_nil, payloads_nil, List.length_nil, Nat.add_zero,
    ← h.journalOffset_eq, ← h.file_eq]

theorem validateAcknowledgedPrefix_cursorAt (crc : List UInt8 → UInt32) {offset : ℕ} (h : offset ≤ file.bytes.length) :
    validateAcknowledgedPrefix crc file.bytes (cursorAt crc file offset) =
      some (file.bytes.take offset) := by
  have hev := (evidence_cursorAt_le crc file offset).2
  have hscan := scanPrefix_eq offset file.bytes [] [] h (Nat.zero_le _)
  simp only [List.nil_append] at hscan
  have hoffset : (cursorAt crc file offset).offset = offset := rfl
  simp only [validateAcknowledgedPrefix, hoffset, Nat.not_lt.2 hev, ↓reduceIte, hscan]
  simp [cursorAt]

theorem tail_longer (hash : List UInt8 → UInt32) (before : List RawRecord) (hne : after ≠ []) :
    (encAll (frame hash) before).length < (encAll (frame hash) (before ++ after)).length := by
  obtain ⟨r, rest, rfl⟩ := List.exists_cons_of_ne_nil hne
  have := List.length_pos_of_ne_nil (frame_ne_nil hash r)
  rw [encAll_append, encAll_cons, List.length_append, List.length_append]
  omega

/-- Past its checks, recovery replays what is behind the cursor. -/
theorem recoverFileCursor_eq (h : LiveInv hash source j (before ++ after) issued)
    (hp : j.poisoned = false) (hc : Points hash crc file before cursor) (hne : after ≠ [])
    (gunzip : List UInt8 → List UInt8) {io : RecoverAnswers} (hio : io.cancelled = false)
    (hread : io.readable = true) (path : String) (cursorFile : Option DurableFileCursor) :
    recoverFileCursor hash crc gunzip io file (some ⟨path, some cursor⟩) ⟨j, cursorFile⟩ =
      replayTail hash crc io path cursor (encAll (frame hash) (before ++ after)).length
        (file.bytes.take cursor.file.offset) (file.bytes.drop cursor.file.offset)
        ⟨j, cursorFile⟩ := by
  have hlt := tail_longer hash before hne
  have hvalid := validateAcknowledgedPrefix_cursorAt crc hc.offset_le
  rw [← hc.file_eq] at hvalid
  have hidentity : file.identity = cursor.file.identity := by rw [hc.file_eq]; rfl
  simp only [recoverFileCursor, run_get_bind, h.written_eq hp, hc.journalOffset_eq,
    Nat.not_lt.2 hlt.le, hlt.ne, ↓reduceIte, hio, hread, hidentity, hc.encoding_eq,
    Nat.not_lt.2 hc.offset_le, validateSourceEncoding, hvalid, Bool.false_eq_true, Bool.not_true,
    ne_eq, not_true_eq_false, and_false]

/-- What the loop has made of the cursor, with the checksum taken. -/
theorem moved_cursor (hc : Points hash crc file before cursor)
    (hafter : payloads after <+: file.bytes.drop cursor.file.offset) (n : ℕ) :
    let r : Replay := ⟨cursor, n, 0, file.bytes.take cursor.file.offset,
      file.bytes.drop cursor.file.offset⟩
    let r' := r.moved (payloads after) (encAll (frame hash) (before ++ after)).length
    ({ r'.durable with
        journalOffset := r'.journalOffset
        file := { r'.durable.file with contentCrc32 := crc r'.hashed } } : DurableFileCursor) =
      advanced hash crc file cursor before after := by
  intro r r'
  have htake : file.bytes.take (cursor.file.offset + (payloads after).length) =
      file.bytes.take cursor.file.offset ++ payloads after := by
    rw [List.take_add, ← List.prefix_iff_eq_take.1 hafter]
  have hidentity : cursor.file.identity = file.identity := by rw [hc.file_eq]; rfl
  have hevidence : cursor.file.evidence =
      lastBytes fileEvidenceBytes (file.bytes.take cursor.file.offset) := by
    conv_lhs => rw [hc.file_eq]
    dsimp only [cursorAt]
  simp only [r', r, Replay.moved, advanced, cursorAt, htake, hidentity, hevidence, lastBytes_append]

/-- The end of a recovery with something behind the cursor. -/
theorem replayTail_cases (h : LiveInv hash source j (before ++ after) issued)
    (hp : j.poisoned = false) (hb : j.buffer = []) (hc : Points hash crc file before cursor)
    (hne : after ≠ []) (io : RecoverAnswers) (path : String)
    (cursorFile : Option DurableFileCursor) :
    (Replays cursor.acquisitionId maxRecoveryRecords 0 (file.bytes.drop cursor.file.offset) after ∧
      replayTail hash crc io path cursor (encAll (frame hash) (before ++ after)).length
          (file.bytes.take cursor.file.offset) (file.bytes.drop cursor.file.offset)
          ⟨j, cursorFile⟩ =
        (do store io (advanced hash crc file cursor before after)
            return some ⟨path, some (advanced hash crc file cursor before after)⟩ : Op _)
          ⟨j, cursorFile⟩) ∨
    (¬ Replays cursor.acquisitionId maxRecoveryRecords 0 (file.bytes.drop cursor.file.offset) after ∧
      ∃ e, replayTail hash crc io path cursor (encAll (frame hash) (before ++ after)).length
          (file.bytes.take cursor.file.offset) (file.bytes.drop cursor.file.offset)
          ⟨j, cursorFile⟩ = .error e ⟨j, cursorFile⟩) := by
  have hevidence : cursor.file.evidence.length ≤ fileEvidenceBytes := by
    rw [hc.file_eq]
    exact (evidence_cursorAt_le crc file _).1
  obtain ⟨hok, herror⟩ := recoverLoop_eq cursorFile h hp hb maxRecoveryRecords
    (r := ⟨cursor, cursor.journalOffset, 0, file.bytes.take cursor.file.offset,
      file.bytes.drop cursor.file.offset⟩) hc.journalOffset_eq hevidence
  by_cases hr : Replays cursor.acquisitionId maxRecoveryRecords 0
      (file.bytes.drop cursor.file.offset) after
  · refine .inl ⟨hr, ?_⟩
    have hlonger : (encAll (frame hash) (before ++ after)).length ≠ cursor.journalOffset := by
      rw [hc.journalOffset_eq]
      exact (tail_longer hash before hne).ne'
    have hmoved := moved_cursor hc (replays_iff.1 hr).2.1 cursor.journalOffset
    rw [replayTail, run_bind_ok (hok hr)]
    simp only [hmoved]
    exact congrFun (if_pos hlonger) _
  · obtain ⟨e, he⟩ := herror hr
    exact .inr ⟨hr, e, by rw [replayTail, run_bind_error he]⟩

/-- Nothing is behind the cursor. -/
theorem recover_nil (h : LiveInv hash source j before issued) (hp : j.poisoned = false)
    (hc : Points hash crc file before cursor) (gunzip : List UInt8 → List UInt8)
    (io : RecoverAnswers) (path : String) :
    recoverFileCursor hash crc gunzip io file (some ⟨path, some cursor⟩) ⟨j, some cursor⟩ =
      .ok (some ⟨path, some (advanced hash crc file cursor before [])⟩)
        ⟨j, some (advanced hash crc file cursor before [])⟩ := by
  have hend : cursor.journalOffset = j.writtenBytes := by
    rw [h.written_eq hp, hc.journalOffset_eq]
  simp only [recoverFileCursor, run_get_bind, hend, gt_iff_lt, lt_irrefl, ↓reduceIte,
    hc.advanced_nil]
  rfl

/-- **Where the journal's tail replays, recovery succeeds** with the cursor of what the journal
holds. -/
theorem recover_ok (h : LiveInv hash source j (before ++ after) issued) (hp : j.poisoned = false)
    (hb : j.buffer = []) (hc : Points hash crc file before cursor)
    (hreplays : Replays cursor.acquisitionId maxRecoveryRecords 0
      (file.bytes.drop cursor.file.offset) after)
    (gunzip : List UInt8 → List UInt8) {io : RecoverAnswers} (hio : io.cancelled = false)
    (hread : io.readable = true) (hstore : io.store = .ok) (path : String) :
    recoverFileCursor hash crc gunzip io file (some ⟨path, some cursor⟩) ⟨j, some cursor⟩ =
      .ok (some ⟨path, some (advanced hash crc file cursor before after)⟩)
        ⟨j, some (advanced hash crc file cursor before after)⟩ := by
  by_cases hne : after = []
  · subst hne
    exact recover_nil (List.append_nil before ▸ h) hp hc gunzip io path
  · rw [recoverFileCursor_eq h hp hc hne gunzip hio hread]
    rcases replayTail_cases h hp hb hc hne io path (some cursor) with ⟨-, heq⟩ | ⟨hr, -⟩
    · rw [heq]
      simp only [store, hstore]
      rfl
    · exact absurd hreplays hr

/-- **What any recovery does.**  It leaves the journal as it is.  Where it succeeds, the tail
replays and the cursor is that of what the journal holds; where it fails, the cursor file is as
before, or that of a tail that replays. -/
theorem recover_cases (h : LiveInv hash source j (before ++ after) issued) (hp : j.poisoned = false)
    (hb : j.buffer = []) (hc : Points hash crc file before cursor)
    (gunzip : List UInt8 → List UInt8) (io : RecoverAnswers) (path : String) :
    Holds (fun w s => w = some ⟨path, some (advanced hash crc file cursor before after)⟩ ∧
        s = ⟨j, some (advanced hash crc file cursor before after)⟩ ∧
        Replays cursor.acquisitionId maxRecoveryRecords 0 (file.bytes.drop cursor.file.offset) after)
      (fun s => s = ⟨j, some cursor⟩ ∨ s = ⟨j, some (advanced hash crc file cursor before after)⟩ ∧
        Replays cursor.acquisitionId maxRecoveryRecords 0 (file.bytes.drop cursor.file.offset) after)
      (recoverFileCursor hash crc gunzip io file (some ⟨path, some cursor⟩) ⟨j, some cursor⟩) := by
  by_cases hne : after = []
  · subst hne
    rw [recover_nil (List.append_nil before ▸ h) hp hc]
    exact ⟨rfl, rfl, replays_nil _ _ _ _⟩
  · by_cases hio : io.cancelled = false ∧ io.readable = true
    · rw [recoverFileCursor_eq h hp hc hne gunzip hio.1 hio.2]
      rcases replayTail_cases h hp hb hc hne io path (some cursor) with ⟨hr, heq⟩ | ⟨-, e, heq⟩
      · rw [heq]
        cases hstore : io.store <;> simp only [store, hstore]
        · exact ⟨rfl, rfl, hr⟩
        · exact .inl rfl
        · exact .inr ⟨rfl, hr⟩
      · rw [heq]
        exact .inl rfl
    · -- the start was cancelled, or the file could not be read
      have hlt := tail_longer hash before hne
      simp only [recoverFileCursor, run_get_bind, h.written_eq hp, hc.journalOffset_eq,
        Nat.not_lt.2 hlt.le, hlt.ne, ↓reduceIte]
      cases hcancel : io.cancelled with
      | true => exact .inl rfl
      | false =>
        have hunread : io.readable = false := by
          by_contra hread
          exact hio ⟨hcancel, by simpa using hread⟩
        simp only [hunread]
        exact .inl rfl

end Lvu.Recover
