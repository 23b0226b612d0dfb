import Lvu.Core.Framer
import Lvu.Core.Resume
import Lvu.Machine.Outcome

/-!
# Capturing a file

`run_file` reads a plain file from where its cursor says, sends what the framer makes of it, and
sends a checkpoint behind the records once enough of them are out (`lvu-core/src/acquisition.rs`).
A step of its loop is a state transformer that fails where an event is not taken, because the
capture is cancelled or nobody listens.

* `acknowledge_reading` : what is acknowledged is what the records sent so far hold.
* `captureStep_ensures` : whatever a step sends, each checkpoint among it is the cursor of exactly
  the bytes of the records before it.
-/

namespace Lvu

/-- `CaptureLimits`, as far as a file capture reads it.  `validate` has refused zeros. -/
structure CaptureLimits where
  readChunkBytes : ℕ
  maximumRecordBytes : ℕ
  maximumRecordBytes_pos : 0 < maximumRecordBytes

def CaptureLimits.default : CaptureLimits :=
  { readChunkBytes := 256 * 1024, maximumRecordBytes := 64 * 1024
    maximumRecordBytes_pos := by decide }

def fileCheckpointIntervalBytes : ℕ := 256 * 1024

structure FileState where
  identity : Option FileIdentity
  offset : ℕ
  acquisitionId : Uuid
  framer : Framer
  acknowledgedOffset : ℕ
  unacknowledged : List UInt8
  evidence : List UInt8
  checkpointedOffset : ℕ
  /-- What the content hasher has been given. -/
  hashed : List UInt8

def openFileState (crc : List UInt8 → UInt32) (limits : CaptureLimits) (file : SourceFile)
    (acquisitionId : Uuid) (interrupted : Option Signal) (resume : Option FileResumeCursor) :
    Except String (FileState × BoundaryReason) :=
  match validateResume crc file interrupted resume with
  | .error message => .error message
  | .ok resumed => .ok ({
      identity := file.identity, offset := resumed.offset, acquisitionId
      framer := .new limits.maximumRecordBytes limits.maximumRecordBytes_pos
      acknowledgedOffset := resumed.offset, unacknowledged := [], evidence := resumed.evidence
      checkpointedOffset := resumed.offset, hashed := resumed.hashed }, resumed.reason)

/-- The first half of `acknowledge_file`: what the framer no longer holds is acknowledged, and the
evidence keeps its last bytes. -/
def acknowledge (st : FileState) : FileState :=
  let emitted := st.unacknowledged.length - st.framer.bufferedLen
  if 0 < emitted then
    let acknowledged := st.unacknowledged.take emitted
    let keep := min acknowledged.length fileEvidenceBytes
    let evidence :=
      if keep = fileEvidenceBytes then []
      else if st.evidence.length + keep > fileEvidenceBytes then
        st.evidence.drop (st.evidence.length + keep - fileEvidenceBytes)
      else st.evidence
    { st with
      acknowledgedOffset := st.acknowledgedOffset + emitted
      hashed := st.hashed ++ acknowledged
      evidence := evidence ++ acknowledged.drop (acknowledged.length - keep)
      unacknowledged := st.unacknowledged.drop emitted }
  else st

/-- The cursor a checkpoint carries. -/
def FileState.cursor (crc : List UInt8 → UInt32) (st : FileState) : FileResumeCursor :=
  { offset := st.acknowledgedOffset, identity := st.identity, evidence := st.evidence
    contentCrc32 := crc st.hashed }

namespace FileCapture

open Outcome

/-- What the outside answers to one step of a capture: by default every event is taken. -/
structure CaptureAnswers where
  frame : FrameAnswers := {}
  /-- The records of the step are taken. -/
  records : Bool := true
  /-- Its checkpoint is. -/
  checkpoint : Bool := true
  /-- Its boundary, or its last word, is. -/
  boundary : Bool := true
  /-- Its error is. -/
  error : Bool := true
  /-- The metadata of the path cannot be read. -/
  metadata : Option String := none
  /-- The identity of a new acquisition. -/
  freshId : Uuid := .filled 0

/-- A capture in a step, and what the step has sent. -/
structure Capturing where
  state : FileState
  sent : List CaptureEvent

/-- A part of a step; it fails where an event is not taken. -/
abbrev Op (α : Type) := EStateM Unit Capturing α

def emit (taken : Bool) (event : CaptureEvent) : Op Unit := do
  if taken then modify fun c => { c with sent := c.sent ++ [event] }
  else throw ()

/-- `emit_records`: an empty batch is no event. -/
def emitRecords (taken : Bool) (records : List CapturedRecord) : Op Unit := do
  if records = [] then return
  emit taken (.records records)

def emitCheckpoint (crc : List UInt8 → UInt32) (taken : Bool) : Op Unit := do
  let c ← get
  emit taken (.fileCheckpoint c.state.acquisitionId (c.state.cursor crc) .plain)

def acknowledgeFile (crc : List UInt8 → UInt32) (taken force : Bool) : Op Unit := do
  modify fun c => { c with state := acknowledge c.state }
  let st := (← get).state
  if st.acknowledgedOffset = st.checkpointedOffset ∨ (!force ∧
      st.acknowledgedOffset - st.checkpointedOffset < fileCheckpointIntervalBytes) then return
  emitCheckpoint crc taken
  modify fun c => { c with
    state := { c.state with checkpointedOffset := c.state.acknowledgedOffset } }

/-- A call of the framer. -/
def framing (call : Framer → List CapturedRecord × Framer) : Op (List CapturedRecord) := fun c =>
  .ok (call c.state.framer).1 { c with state := { c.state with framer := (call c.state.framer).2 } }

/-- What `run_file` sends before it reads. -/
def begin (crc : List UInt8 → UInt32) (io : CaptureAnswers) (reason : BoundaryReason) : Op Unit := do
  emit io.boundary (.boundary (← get).state.acquisitionId reason)
  emitCheckpoint crc io.checkpoint

/-- What a framer's call has made is sent, and what is out is acknowledged. -/
def sendRecords (crc : List UInt8 → UInt32) (io : CaptureAnswers) (force : Bool)
    (records : List CapturedRecord) : Op Unit := do
  emitRecords io.records records
  acknowledgeFile crc io.checkpoint force

/-- A read of `count` bytes. -/
def read (crc : List UInt8 → UInt32) (file : SourceFile) (io : CaptureAnswers) (count : ℕ) :
    Op Unit := do
  let st := (← get).state
  let chunk := (file.bytes.drop st.offset).take count
  modify fun c => { c with
    state := { c.state with
      offset := c.state.offset + chunk.length
      unacknowledged := c.state.unacknowledged ++ chunk } }
  let records ← framing fun f => f.push io.frame .file st.acquisitionId chunk
  sendRecords crc io false records

/-- The partial-flush tick. -/
def tick (crc : List UInt8 → UInt32) (io : CaptureAnswers) : Op Unit := do
  let st := (← get).state
  let records ← framing fun f => f.flushPartial io.frame .file st.acquisitionId
  sendRecords crc io true records

/-- The framer's last records, sent and acknowledged. -/
def finishRecords (crc : List UInt8 → UInt32) (io : CaptureAnswers) : Op Unit := do
  let st := (← get).state
  let records ← framing fun f => f.finish io.frame .file st.acquisitionId
  sendRecords crc io true records

/-- `finish_file`.  A cancelled capture frames what is pending and drops it. -/
def finishFile (crc : List UInt8 → UInt32) (io : CaptureAnswers) (cancelled stopped : Bool) :
    Op Unit := do
  if cancelled then
    let st := (← get).state
    let _ ← framing fun f => f.finish io.frame .file st.acquisitionId
  else
    let _ ← attempt (finishRecords crc io)
  if stopped then
    let _ ← attempt (emit io.boundary (.stopped (← get).state.acquisitionId))

/-- `update_follow_state`, with the file that is open and the one the path names now. -/
def updateFollowState (crc : List UInt8 → UInt32) (limits : CaptureLimits)
    (io : CaptureAnswers) («open» path : SourceFile) : Op (Except String Unit) := do
  match io.metadata with
  | some message => return .error message
  | none =>
    let st := (← get).state
    if st.identity ≠ none ∧ path.identity ≠ st.identity then
      if «open».bytes.length > st.offset then return .ok ()
      match ← attempt (finishRecords crc io) with
      | .error () => return .ok ()
      | .ok () =>
        match openFileState crc limits path io.freshId none none with
        | .error message => return .error message
        | .ok (state, _) =>
          modify fun c => { c with state }
          let _ ← attempt (emit io.boundary (.boundary io.freshId .rotated))
          let _ ← attempt (emitCheckpoint crc io.checkpoint)
          return .ok ()
    else if path.bytes.length < st.offset then
      match ← attempt (finishRecords crc io) with
      | .error () => return .ok ()
      | .ok () =>
        modify fun c => { c with
          state := {
            identity := c.state.identity, offset := 0, acquisitionId := io.freshId
            framer := .new limits.maximumRecordBytes limits.maximumRecordBytes_pos
            acknowledgedOffset := 0, unacknowledged := [], evidence := [], checkpointedOffset := 0
            hashed := [] } }
        let _ ← attempt (emit io.boundary (.boundary io.freshId .truncated))
        let _ ← attempt (emitCheckpoint crc io.checkpoint)
        return .ok ()
    else return .ok ()

/-- What the loop of `run_file` wakes for. -/
inductive CaptureStep
  | read (io : CaptureAnswers) (count : ℕ)
  | tick (io : CaptureAnswers)
  /-- A read of nothing, where the file is not followed. -/
  | endOfFile (io : CaptureAnswers) (cancelled : Bool)
  /-- A read of nothing and a poll interval, where it is. -/
  | poll (io : CaptureAnswers)
  | interrupted (io : CaptureAnswers) (cancelled : Bool)
  | closed
  | readError (io : CaptureAnswers) (message : String)

/-- What the file must be like for a wake: a read returns at least a byte and at most a chunk,
and nothing only at the end. -/
def CaptureStep.Enabled (limits : CaptureLimits) (file : SourceFile) (st : FileState) :
    CaptureStep → Prop
  | .read _ count =>
    0 < count ∧ count ≤ limits.readChunkBytes ∧ st.offset + count ≤ file.bytes.length
  | .endOfFile _ _ => file.bytes.length ≤ st.offset
  | .poll _ => file.bytes.length ≤ st.offset
  | _ => True

instance (limits : CaptureLimits) (file : SourceFile) (st : FileState) :
    (step : CaptureStep) → Decidable (step.Enabled limits file st)
  | .read _ _ => inferInstanceAs (Decidable (_ ∧ _ ∧ _))
  | .endOfFile _ _ | .poll _ => inferInstanceAs (Decidable (_ ≤ _))
  | .tick _ | .interrupted _ _ | .closed | .readError _ _ => inferInstanceAs (Decidable True)

/-- One turn of the loop of `run_file`: whether it returns. -/
def captureStep (crc : List UInt8 → UInt32) (limits : CaptureLimits) (file : SourceFile) :
    CaptureStep → Op Bool
  | .read io count => do
    read crc file io count
    return false
  | .tick io => do
    tick crc io
    return false
  | .endOfFile io cancelled => do
    finishFile crc io cancelled false
    return true
  | .poll io => do
    match ← updateFollowState crc limits io file file with
    | .ok () => return false
    | .error message =>
      emit io.error (.error (← get).state.acquisitionId message)
      return false
  | .interrupted io cancelled => do
    finishFile crc io cancelled true
    return true
  | .closed => return true
  | .readError io message => do
    let _ ← attempt (emit io.error (.error (← get).state.acquisitionId message))
    return true

/-! ### What is sent -/

/-- The bytes of the records among some events. -/
def eventInputs (events : List CaptureEvent) : List UInt8 :=
  events.flatMap fun
    | .records records => inputs records
    | _ => []

@[simp] theorem eventInputs_nil : eventInputs [] = [] := rfl

@[simp] theorem eventInputs_append (es es' : List CaptureEvent) :
    eventInputs (es ++ es') = eventInputs es ++ eventInputs es' := List.flatMap_append

/-- Events as an acquisition sends them from the offset `at` of a file on: its own records, and
checkpoints that are the cursors of exactly what is before them. -/
def Stream (crc : List UInt8 → UInt32) (file : SourceFile) (acquisitionId : Uuid) :
    ℕ → List CaptureEvent → Prop
  | _, [] => True
  | n, .records records :: events =>
    Framer.Tagged .file acquisitionId records ∧
      Stream crc file acquisitionId (n + (inputs records).length) events
  | n, .fileCheckpoint id cursor encoding :: events =>
    (id = acquisitionId ∧ cursor = cursorAt crc file n ∧ encoding = .plain) ∧
      Stream crc file acquisitionId n events
  | n, _ :: events => Stream crc file acquisitionId n events

variable {crc : List UInt8 → UInt32} {file : SourceFile} {acquisitionId : Uuid}

theorem stream_append {n : ℕ} {es es' : List CaptureEvent} :
    Stream crc file acquisitionId n (es ++ es') ↔
      Stream crc file acquisitionId n es ∧
        Stream crc file acquisitionId (n + (eventInputs es).length) es' := by
  induction es generalizing n with
  | nil => simp [Stream]
  | cons e es ih =>
    cases e <;> simp only [List.cons_append, Stream, ih, and_assoc] <;>
      simp [eventInputs, Nat.add_assoc]

theorem Stream.grown {n : ℕ} {es : List CaptureEvent} (h : Stream crc file acquisitionId n es)
    (hle : n + (eventInputs es).length ≤ file.bytes.length) (bytes : List UInt8) :
    Stream crc (file.grown bytes) acquisitionId n es := by
  induction es generalizing n with
  | nil => trivial
  | cons e es ih =>
    cases e with
    | records records =>
      refine ⟨h.1, ih h.2 ?_⟩
      simpa [eventInputs, Nat.add_assoc] using hle
    | fileCheckpoint id cursor encoding =>
      obtain ⟨⟨hid, hcursor, henc⟩, hrest⟩ := h
      have hn : n ≤ file.bytes.length := by omega
      exact ⟨⟨hid, hcursor.trans (cursorAt_grown crc hn bytes).symm, henc⟩, ih hrest hle⟩
    | _ => exact ih h hle

/-! ### What a capture has read -/

/-- Where a capture stands that began at `base` and has sent `emitted`: what it has read is sent
or pending, and what is acknowledged is a prefix of the file that the pending bytes follow. -/
structure Reading (crc : List UInt8 → UInt32) (file : SourceFile) (acquisitionId : Uuid)
    (base : ℕ) (st : FileState) (emitted : List UInt8) : Prop where
  identity_eq : st.identity = file.identity
  acquisition_eq : st.acquisitionId = acquisitionId
  offset_le : st.offset ≤ file.bytes.length
  base_le : base ≤ st.offset
  reads : emitted ++ st.framer.pending = (file.bytes.take st.offset).drop base
  unacknowledged : file.bytes.take st.offset =
    file.bytes.take st.acknowledgedOffset ++ st.unacknowledged
  acknowledged_eq : st.acknowledgedOffset + st.unacknowledged.length = st.offset
  pending_le : st.framer.pending.length ≤ st.unacknowledged.length
  evidence_eq : st.evidence = lastBytes fileEvidenceBytes (file.bytes.take st.acknowledgedOffset)
  hashed_eq : st.hashed = file.bytes.take st.acknowledgedOffset

variable {base : ℕ} {st : FileState} {emitted : List UInt8}

/-- What has been sent is what stands in the file from `base` on. -/
theorem Reading.emitted_prefix (h : Reading crc file acquisitionId base st emitted) :
    emitted <+: file.bytes.drop base := by
  have hread : emitted <+: (file.bytes.take st.offset).drop base := h.reads ▸ List.prefix_append _ _
  rw [List.drop_take] at hread
  exact hread.trans (List.take_prefix _ _)

theorem Reading.length_eq (h : Reading crc file acquisitionId base st emitted) :
    base + emitted.length + st.framer.pending.length = st.offset := by
  have := congrArg List.length h.reads
  have := h.base_le
  have := h.offset_le
  simp only [List.length_append, List.length_drop, List.length_take] at *
  omega

/-- The evidence after some more bytes is the last of all of them. -/
theorem evidence_acknowledge (evidence acknowledged : List UInt8) :
    (if min acknowledged.length fileEvidenceBytes = fileEvidenceBytes then []
      else if evidence.length + min acknowledged.length fileEvidenceBytes > fileEvidenceBytes then
        evidence.drop (evidence.length + min acknowledged.length fileEvidenceBytes - fileEvidenceBytes)
      else evidence) ++
      acknowledged.drop (acknowledged.length - min acknowledged.length fileEvidenceBytes) =
      lastBytes fileEvidenceBytes (evidence ++ acknowledged) := by
  rw [lastBytes, List.length_append, List.drop_append]
  generalize fileEvidenceBytes = n at *
  rcases Nat.le_total n acknowledged.length with hle | hle
  · -- the acknowledged bytes alone fill the window
    rw [Nat.min_eq_right hle, if_pos rfl, (List.drop_eq_nil_of_le (by omega) : evidence.drop _ = [])]
    congr 2
    omega
  · rw [Nat.min_eq_left hle, Nat.sub_self, List.drop_zero]
    have hzero : evidence.length + acknowledged.length - n - evidence.length = 0 := by omega
    rw [hzero, List.drop_zero]
    congr 1
    split_ifs with hfull hmore
    · exact (List.drop_eq_nil_of_le (by omega)).symm
    · rfl
    · rw [Nat.sub_eq_zero_of_le (Nat.not_lt.1 hmore), List.drop_zero]

theorem acknowledge_eq (h : st.evidence.length ≤ fileEvidenceBytes) :
    acknowledge st = { st with
      acknowledgedOffset := st.acknowledgedOffset +
        (st.unacknowledged.length - st.framer.pending.length)
      hashed := st.hashed ++
        st.unacknowledged.take (st.unacknowledged.length - st.framer.pending.length)
      evidence := lastBytes fileEvidenceBytes (st.evidence ++
        st.unacknowledged.take (st.unacknowledged.length - st.framer.pending.length))
      unacknowledged :=
        st.unacknowledged.drop (st.unacknowledged.length - st.framer.pending.length) } := by
  unfold acknowledge Framer.bufferedLen
  by_cases hpos : 0 < st.unacknowledged.length - st.framer.pending.length
  · simp only [if_pos hpos]
    rw [evidence_acknowledge]
  · have hzero : st.unacknowledged.length - st.framer.pending.length = 0 := by omega
    simp only [if_neg hpos]
    simp only [hzero, Nat.add_zero, List.take_zero, List.append_nil, List.drop_zero,
      lastBytes_of_le h]

/-- **What is acknowledged is what the records sent so far hold.** -/
theorem acknowledge_reading (h : Reading crc file acquisitionId base st emitted) :
    Reading crc file acquisitionId base (acknowledge st) emitted ∧
      (acknowledge st).acknowledgedOffset = base + emitted.length := by
  have hlen := h.length_eq
  have hack := h.acknowledged_eq
  have hpending := h.pending_le
  have hevidence : st.evidence.length ≤ fileEvidenceBytes := by
    rw [h.evidence_eq, length_lastBytes]
    omega
  rw [acknowledge_eq hevidence]
  set n := st.unacknowledged.length - st.framer.pending.length with hn
  have htake : file.bytes.take (st.acknowledgedOffset + n) =
      file.bytes.take st.acknowledgedOffset ++ st.unacknowledged.take n := by
    have hcut := congrArg (List.take (st.acknowledgedOffset + n)) h.unacknowledged
    have hle := h.offset_le
    have hwhole : (file.bytes.take st.acknowledgedOffset).length = st.acknowledgedOffset := by
      rw [List.length_take]
      omega
    rwa [List.take_take, Nat.min_eq_left (by omega), List.take_append, hwhole,
      Nat.add_sub_cancel_left, List.take_of_length_le (l := file.bytes.take _) (by omega)] at hcut
  refine ⟨{ h with
    unacknowledged := ?_
    acknowledged_eq := ?_
    pending_le := ?_
    evidence_eq := ?_
    hashed_eq := ?_ }, ?_⟩
  · rw [htake, List.append_assoc, List.take_append_drop]
    exact h.unacknowledged
  · simp only [List.length_drop]
    omega
  · simp only [List.length_drop]
    omega
  · rw [htake, h.evidence_eq, lastBytes_append]
  · rw [htake, h.hashed_eq]
  · simp only
    omega

/-! ### What a step keeps -/

/-- A capture in the middle of a step that began with `emitted` sent, with `records` framed and
not sent yet. -/
structure Owing (crc : List UInt8 → UInt32) (file : SourceFile) (acquisitionId : Uuid) (base : ℕ)
    (emitted : List UInt8) (records : List CapturedRecord) (c : Capturing) : Prop where
  stream : Stream crc file acquisitionId (base + emitted.length) c.sent
  tagged : Framer.Tagged .file acquisitionId records
  reading : Reading crc file acquisitionId base c.state
    (emitted ++ eventInputs c.sent ++ inputs records)

/-- What holds however a step ends. -/
structure Sent (crc : List UInt8 → UInt32) (file : SourceFile) (acquisitionId : Uuid) (base : ℕ)
    (emitted : List UInt8) (c : Capturing) : Prop where
  stream : Stream crc file acquisitionId (base + emitted.length) c.sent
  sent_prefix : emitted ++ eventInputs c.sent <+: file.bytes.drop base

theorem Owing.sent {records : List CapturedRecord} {c : Capturing}
    (h : Owing crc file acquisitionId base emitted records c) :
    Sent crc file acquisitionId base emitted c :=
  ⟨h.stream, (List.prefix_append _ _).trans h.reading.emitted_prefix⟩

theorem emit_ensures (taken : Bool) {event : CaptureEvent} (hinputs : eventInputs [event] = []) :
    Ensures (fun c => Owing crc file acquisitionId base emitted [] c ∧
        Stream crc file acquisitionId (base + emitted.length + (eventInputs c.sent).length) [event])
      (emit taken event) (fun _ => Owing crc file acquisitionId base emitted [])
      (Sent crc file acquisitionId base emitted) := by
  refine .ite (fun _ => .modify fun c h => ?_) fun _ => .throw fun _ h => h.1.sent
  refine ⟨stream_append.2 ⟨h.1.stream, h.2⟩, Framer.tagged_nil _ _, ?_⟩
  simp only [eventInputs_append, hinputs, List.append_nil]
  exact h.1.reading

theorem emitRecords_ensures {taken : Bool} {records : List CapturedRecord} :
    Ensures (Owing crc file acquisitionId base emitted records) (emitRecords taken records)
      (fun _ => Owing crc file acquisitionId base emitted [])
      (Sent crc file acquisitionId base emitted) := by
  refine .ite (fun hnil => .pure fun c h => hnil ▸ h) fun _ => ?_
  refine .ite (fun _ => .modify fun c h => ?_) fun _ => .throw fun _ h => h.sent
  refine ⟨stream_append.2 ⟨h.stream, h.tagged, trivial⟩, Framer.tagged_nil _ _, ?_⟩
  have hone : eventInputs [.records records] = inputs records := List.append_nil _
  simp only [eventInputs_append, hone, inputs_nil, List.append_nil, ← List.append_assoc]
  exact h.reading

theorem emitCheckpoint_ensures {taken : Bool} :
    Ensures (fun c => Owing crc file acquisitionId base emitted [] c ∧
        c.state.acknowledgedOffset = base + (emitted ++ eventInputs c.sent).length)
      (emitCheckpoint crc taken) (fun _ => Owing crc file acquisitionId base emitted [])
      (Sent crc file acquisitionId base emitted) := by
  rintro c ⟨h, hack⟩
  rw [emitCheckpoint, run_get_bind]
  have hcursor : c.state.cursor crc = cursorAt crc file c.state.acknowledgedOffset := by
    simp only [FileState.cursor, cursorAt, h.reading.identity_eq, h.reading.evidence_eq,
      h.reading.hashed_eq]
  refine emit_ensures taken rfl c ⟨h, ⟨h.reading.acquisition_eq, ?_, rfl⟩, trivial⟩
  rw [hcursor, hack, List.length_append, Nat.add_assoc]

theorem acknowledgeFile_ensures {taken force : Bool} :
    Ensures (Owing crc file acquisitionId base emitted []) (acknowledgeFile crc taken force)
      (fun _ => Owing crc file acquisitionId base emitted [])
      (Sent crc file acquisitionId base emitted) := by
  refine .bind (Q := fun _ c => Owing crc file acquisitionId base emitted [] c ∧
    c.state.acknowledgedOffset = base + (emitted ++ eventInputs c.sent).length)
    (.modify fun c h => ?_) fun _ => .get_bind fun c hc => ?_
  · obtain ⟨hreading, hack⟩ := acknowledge_reading h.reading
    rw [inputs_nil, List.append_nil] at hack
    exact ⟨⟨h.stream, h.tagged, hreading⟩, hack⟩
  · refine .ite (fun _ => .pure fun _ h => h ▸ hc.1) fun _ => ?_
    refine .bind (emitCheckpoint_ensures.weaken (fun _ h => h ▸ hc) (fun _ _ h => h) fun _ h => h)
      fun _ => .modify fun c h => ?_
    exact ⟨h.stream, h.tagged, { h.reading with }⟩

theorem sendRecords_ensures {io : CaptureAnswers} {force : Bool} {records : List CapturedRecord} :
    Ensures (Owing crc file acquisitionId base emitted records) (sendRecords crc io force records)
      (fun _ => Owing crc file acquisitionId base emitted [])
      (Sent crc file acquisitionId base emitted) :=
  .bind emitRecords_ensures fun _ => acknowledgeFile_ensures

/-- A call of the framer that takes nothing new. -/
theorem framing_ensures {call : Framer → List CapturedRecord × Framer}
    (hcall : ∀ f : Framer, Framer.Frames .file acquisitionId f.maximum f.pending (call f)) :
    Ensures (Owing crc file acquisitionId base emitted []) (framing call)
      (fun records => Owing crc file acquisitionId base emitted records)
      (Sent crc file acquisitionId base emitted) := by
  intro c h
  have hframes := hcall c.state.framer
  have hreading := h.reading
  rw [inputs_nil, List.append_nil] at hreading
  refine ⟨h.stream, hframes.tagged, { hreading with reads := ?_, pending_le := ?_ }⟩
  · rw [List.append_assoc, hframes.conserves]
    exact hreading.reads
  · have hle := congrArg List.length hframes.conserves
    have := hreading.pending_le
    simp only [List.length_append] at hle ⊢
    omega

theorem tick_ensures (io : CaptureAnswers) :
    Ensures (Owing crc file acquisitionId base emitted []) (tick crc io)
      (fun _ => Owing crc file acquisitionId base emitted [])
      (Sent crc file acquisitionId base emitted) := by
  intro c h
  rw [tick, run_get_bind, h.reading.acquisition_eq]
  exact Ensures.bind (framing_ensures fun f => f.flushPartial_spec) (fun _ => sendRecords_ensures) c h

theorem finishRecords_ensures (io : CaptureAnswers) :
    Ensures (Owing crc file acquisitionId base emitted []) (finishRecords crc io)
      (fun _ => Owing crc file acquisitionId base emitted [])
      (Sent crc file acquisitionId base emitted) := by
  intro c h
  rw [finishRecords, run_get_bind, h.reading.acquisition_eq]
  exact Ensures.bind (framing_ensures fun f => f.finish_spec.1) (fun _ => sendRecords_ensures) c h

theorem read_ensures (io : CaptureAnswers) (count : ℕ) :
    Ensures (Owing crc file acquisitionId base emitted []) (read crc file io count)
      (fun _ => Owing crc file acquisitionId base emitted [])
      (Sent crc file acquisitionId base emitted) := by
  intro c h
  have hreading := h.reading
  rw [inputs_nil, List.append_nil] at hreading
  obtain rfl := hreading.acquisition_eq
  have hbase := hreading.base_le
  have hoffset := hreading.offset_le
  have hpending := hreading.pending_le
  have hack := hreading.acknowledged_eq
  set chunk := (file.bytes.drop c.state.offset).take count with hchunk
  have hframes : Framer.Frames .file c.state.acquisitionId c.state.framer.maximum
      (c.state.framer.pending ++ chunk)
      (c.state.framer.push io.frame .file c.state.acquisitionId chunk) :=
    c.state.framer.push_spec chunk
  have hle : c.state.offset + chunk.length ≤ file.bytes.length := by
    rw [hchunk, List.length_take, List.length_drop]
    omega
  have htake : file.bytes.take (c.state.offset + chunk.length) =
      file.bytes.take c.state.offset ++ chunk := by
    have hself : (file.bytes.drop c.state.offset).take chunk.length = chunk := by
      rw [hchunk, List.length_take, ← List.take_take, List.take_length]
    rw [List.take_add, hself]
  rw [read, run_get_bind, run_modify_bind]
  refine sendRecords_ensures _ ⟨h.stream, hframes.tagged, { hreading with
    offset_le := hle
    base_le := by simp only; omega
    reads := ?_
    unacknowledged := ?_
    acknowledged_eq := ?_
    pending_le := ?_ }⟩
  · rw [List.append_assoc, hframes.conserves, ← List.append_assoc, hreading.reads, htake,
      List.drop_append_of_le_length]
    rw [List.length_take]
    omega
  · rw [htake, hreading.unacknowledged, List.append_assoc]
  · simp only [List.length_append]
    omega
  · have hlen := congrArg List.length hframes.conserves
    show (c.state.framer.push io.frame .file c.state.acquisitionId chunk).2.pending.length ≤
      (c.state.unacknowledged ++ chunk).length
    simp only [List.length_append] at hlen ⊢
    omega

theorem updateFollowState_ensures (limits : CaptureLimits) (io : CaptureAnswers) :
    Ensures (Owing crc file acquisitionId base emitted [])
      (updateFollowState crc limits io file file)
      (fun _ => Owing crc file acquisitionId base emitted [])
      (Sent crc file acquisitionId base emitted) := by
  intro c h
  rw [updateFollowState]
  cases io.metadata with
  | some message => exact h
  | none =>
    have hsame : ¬ (c.state.identity ≠ none ∧ file.identity ≠ c.state.identity) := fun hne =>
      hne.2 h.reading.identity_eq.symm
    have hlong : ¬ file.bytes.length < c.state.offset := Nat.not_lt.2 h.reading.offset_le
    simp only [run_get_bind, if_neg hsame, if_neg hlong]
    exact h

theorem emit_sent (taken : Bool) {event : CaptureEvent} (hinputs : eventInputs [event] = [])
    (hstream : ∀ n, Stream crc file acquisitionId n [event]) :
    Keeps (Sent crc file acquisitionId base emitted) (emit taken event) := by
  refine .ite (fun _ => .modify fun c h => ?_) fun _ => .throw fun _ h => h
  refine ⟨stream_append.2 ⟨h.stream, hstream _⟩, ?_⟩
  simp only [eventInputs_append, hinputs, List.append_nil]
  exact h.sent_prefix

theorem finishFile_ensures (io : CaptureAnswers) (cancelled stopped : Bool) :
    Ensures (Owing crc file acquisitionId base emitted []) (finishFile crc io cancelled stopped)
      (fun _ => Sent crc file acquisitionId base emitted)
      (Sent crc file acquisitionId base emitted) := by
  have hlast : Keeps (Sent crc file acquisitionId base emitted) (do
      if stopped then
        let _ ← attempt (emit io.boundary (.stopped (← get).state.acquisitionId)) : Op Unit) :=
    .ite (fun _ => .get_bind_keeps fun _ => .bind (.attempt_keeps (emit_sent _ rfl fun _ => trivial))
      fun _ => .pure fun _ h => h) fun _ => .pure fun _ h => h
  cases cancelled with
  | true =>
    intro c h
    obtain rfl := h.reading.acquisition_eq
    exact Ensures.bind (framing_ensures fun f => f.finish_spec.1)
      (fun _ => hlast.weaken (fun _ h => h.sent) (fun _ _ h => h) fun _ h => h) c h
  | false =>
    refine .bind (.attempt (finishRecords_ensures io)) fun result => ?_
    refine hlast.weaken (fun c h => ?_) (fun _ _ h => h) fun _ h => h
    cases result with
    | ok u => exact Owing.sent h
    | error e => exact h

/-- **A step sends a stream**: its own records, each checkpoint the cursor of exactly the bytes of
the records before it.  Where the capture returns, what it has sent is a prefix of the file. -/
theorem captureStep_ensures (limits : CaptureLimits) (step : CaptureStep) :
    Ensures (Owing crc file acquisitionId base emitted []) (captureStep crc limits file step)
      (fun done c => Sent crc file acquisitionId base emitted c ∧
        (done = false → Owing crc file acquisitionId base emitted [] c))
      (Sent crc file acquisitionId base emitted) := by
  have goes : ∀ c, Owing crc file acquisitionId base emitted [] c →
      Sent crc file acquisitionId base emitted c ∧
        (false = false → Owing crc file acquisitionId base emitted [] c) :=
    fun _ h => ⟨h.sent, fun _ => h⟩
  cases step with
  | read io count => exact .bind (read_ensures io count) fun _ => .pure goes
  | tick io => exact .bind (tick_ensures io) fun _ => .pure goes
  | endOfFile io cancelled =>
    exact .bind (finishFile_ensures io cancelled false) fun _ => .pure fun _ h =>
      ⟨h, fun hf => absurd hf (by decide)⟩
  | poll io =>
    refine .bind (updateFollowState_ensures limits io) fun result => ?_
    cases result with
    | ok u => exact .pure goes
    | error message =>
      exact .get_bind_any fun _ => .bind ((emit_ensures io.error rfl).weaken
        (fun _ h => ⟨h, trivial⟩) (fun _ _ h => h) fun _ h => h) fun _ => .pure goes
  | interrupted io cancelled =>
    exact .bind (finishFile_ensures io cancelled true) fun _ => .pure fun _ h =>
      ⟨h, fun hf => absurd hf (by decide)⟩
  | closed => exact .pure fun _ h => ⟨h.sent, fun hf => absurd hf (by decide)⟩
  | readError io message =>
    refine .weaken (P := Sent crc file acquisitionId base emitted) ?_ (fun _ h => h.sent)
      (fun _ _ h => h) fun _ h => h
    exact .get_bind_any fun _ => .bind (.attempt_keeps (emit_sent _ rfl fun _ => trivial)) fun _ =>
      .pure fun _ h => ⟨h, fun hf => absurd hf (by decide)⟩

/-! ### Where a capture begins and ends -/

/-- What is sent before the first read. -/
theorem begin_ensures (io : CaptureAnswers) (reason : BoundaryReason) :
    Ensures (fun c => Owing crc file acquisitionId base emitted [] c ∧
        c.state.acknowledgedOffset = base + (emitted ++ eventInputs c.sent).length)
      (begin crc io reason) (fun _ => Owing crc file acquisitionId base emitted [])
      (Sent crc file acquisitionId base emitted) := by
  refine .get_bind_any fun c => .bind (Q := fun _ c =>
    Owing crc file acquisitionId base emitted [] c ∧
      c.state.acknowledgedOffset = base + (emitted ++ eventInputs c.sent).length) ?_ fun _ =>
    emitCheckpoint_ensures
  refine .ite (fun _ => .modify fun c h => ?_) fun _ => .throw fun _ h => h.1.sent
  obtain ⟨h, hack⟩ := h
  refine ⟨⟨stream_append.2 ⟨h.stream, trivial⟩, Framer.tagged_nil _ _, ?_⟩, ?_⟩
  · rw [eventInputs_append]
    exact (List.append_nil (eventInputs c.sent)).symm ▸ h.reading
  · rw [eventInputs_append]
    exact (List.append_nil (eventInputs c.sent)).symm ▸ hack

end FileCapture

end Lvu
