import Lvu.Core.FileCapture
import Lvu.Ingest.Recover

/-!
# Checkpoints of a capture

A capture of a file runs from where it was opened, while the file may grow.  What it has sent tells
how far it has come: a checkpoint is the cursor of the bytes of the records before it.

* `checkpoints_certify` : **every checkpoint validates**, against whatever still begins with the
  bytes it counts, and recovery moves it to another such cursor.
-/

namespace Lvu.FileCapture

open Outcome List
open Journal (lives History inv_run inv_fresh)

/-! ### Runs -/

/-- A capture: where it stands unless it has ended, the file as it is, and all that it has sent. -/
structure Capture where
  state : Option FileState
  file : SourceFile
  sent : List CaptureEvent

/-- A turn of the loop, or growth of the file. -/
inductive CaptureLabel
  | turn (step : CaptureStep)
  | grow (bytes : List UInt8)

/-- Where a capture stands after a turn. -/
def standing : EStateM.Result Unit Capturing Bool → Option FileState
  | .ok false c => some c.state
  | _ => none

/-- A step of a capture. -/
def Capture.step (crc : List UInt8 → UInt32) (limits : CaptureLimits) (c : Capture) :
    CaptureLabel → Option Capture
  | .grow bytes => some { c with file := c.file.grown bytes }
  | .turn step =>
    c.state.bind fun st =>
      if step.Enabled limits c.file st then
        let result := captureStep crc limits c.file step ⟨st, []⟩
        some { c with state := standing result, sent := c.sent ++ (after result).sent }
      else none

/-- The runs of a capture. -/
def captures (crc : List UInt8 → UInt32) (limits : CaptureLimits) : Machine Capture CaptureLabel :=
  .ofFun (Capture.step crc limits)

/-- A capture before its first read. -/
def Capture.start (crc : List UInt8 → UInt32) (io : CaptureAnswers) (file : SourceFile)
    (st : FileState) (reason : BoundaryReason) : Capture :=
  match begin crc io reason ⟨st, []⟩ with
  | .ok () c => ⟨some c.state, file, c.sent⟩
  | .error () c => ⟨none, file, c.sent⟩

variable {crc : List UInt8 → UInt32} {limits : CaptureLimits} {file : SourceFile}
  {acquisitionId : Uuid} {base : ℕ}

/-- What a capture stands behind: its events are a stream of the file from `base` on, and what it
has read is what they hold. -/
structure Capture.Stands (crc : List UInt8 → UInt32) (acquisitionId : Uuid) (base : ℕ)
    (c : Capture) : Prop where
  stream : Stream crc c.file acquisitionId base c.sent
  sent_prefix : eventInputs c.sent <+: c.file.bytes.drop base
  base_le : base ≤ c.file.bytes.length
  reading : ∀ st ∈ c.state, Reading crc c.file acquisitionId base st (eventInputs c.sent)

variable {st : FileState} {c : Capture} {interrupted : Option Signal}
  {resume : Option FileResumeCursor} {n : ℕ}

/-- Growth of the file changes nothing of what has been read. -/
theorem Reading.grown {emitted : List UInt8} (h : Reading crc file acquisitionId base st emitted)
    (bytes : List UInt8) : Reading crc (file.grown bytes) acquisitionId base st emitted := by
  have hack : st.acknowledgedOffset ≤ file.bytes.length := by
    have := h.acknowledged_eq
    have := h.offset_le
    omega
  have htake : (file.grown bytes).bytes.take st.offset = file.bytes.take st.offset :=
    take_append_of_le_length h.offset_le
  have htake' : (file.grown bytes).bytes.take st.acknowledgedOffset =
      file.bytes.take st.acknowledgedOffset := take_append_of_le_length hack
  exact {
    identity_eq := h.identity_eq
    acquisition_eq := h.acquisition_eq
    offset_le := by
      rw [SourceFile.grown, length_append]
      exact h.offset_le.trans (Nat.le_add_right _ _)
    base_le := h.base_le
    reads := by rw [htake]; exact h.reads
    unacknowledged := by rw [htake, htake']; exact h.unacknowledged
    acknowledged_eq := h.acknowledged_eq
    pending_le := h.pending_le
    evidence_eq := by rw [htake']; exact h.evidence_eq
    hashed_eq := by rw [htake']; exact h.hashed_eq }

theorem Capture.Stands.grown (h : c.Stands crc acquisitionId base) (bytes : List UInt8) :
    Capture.Stands crc acquisitionId base { c with file := c.file.grown bytes } := by
  have hlen := h.sent_prefix.length_le
  have hbase := h.base_le
  rw [length_drop] at hlen
  refine ⟨h.stream.grown (by omega) bytes, ?_, ?_, fun st hst => (h.reading st hst).grown bytes⟩
  · simp only [SourceFile.grown, drop_append_of_le_length hbase]
    exact h.sent_prefix.trans (prefix_append _ _)
  · simp only [SourceFile.grown, length_append]
    omega

/-- A turn keeps what a capture stands behind. -/
theorem Capture.Stands.turn (h : c.Stands crc acquisitionId base) (hst : c.state = some st)
    (step : CaptureStep) :
    Capture.Stands crc acquisitionId base
      { c with
        state := standing (captureStep crc limits c.file step ⟨st, []⟩)
        sent := c.sent ++ (after (captureStep crc limits c.file step ⟨st, []⟩)).sent } := by
  have howing : Owing crc c.file acquisitionId base (eventInputs c.sent) [] ⟨st, []⟩ := by
    refine ⟨trivial, Framer.tagged_nil _ _, ?_⟩
    simp only [eventInputs_nil, inputs_nil, append_nil]
    exact h.reading st hst
  have hturn := captureStep_ensures limits step ⟨st, []⟩ howing
  generalize captureStep crc limits c.file step ⟨st, []⟩ = result at hturn
  have hsent : Sent crc c.file acquisitionId base (eventInputs c.sent) (after result) := by
    cases result with
    | ok done c' => exact hturn.1
    | error e c' => exact hturn
  refine ⟨stream_append.2 ⟨h.stream, hsent.stream⟩, ?_, h.base_le, fun st' hst' => ?_⟩
  · rw [eventInputs_append]
    exact hsent.sent_prefix
  · cases result with
    | ok done c' =>
      cases done with
      | true => cases hst'
      | false =>
        cases hst'
        have hreading := (hturn.2 rfl).reading
        rw [inputs_nil, append_nil] at hreading
        rw [eventInputs_append]
        exact hreading
    | error e c' => cases hst'

theorem stands_run {c' : Capture} {labels : List CaptureLabel}
    (h : (captures crc limits).Run c labels c') (h₀ : c.Stands crc acquisitionId base) :
    c'.Stands crc acquisitionId base := by
  refine h.invariant h₀ fun c label c' hc hstep => ?_
  cases label with
  | grow bytes =>
    cases hstep
    exact hc.grown bytes
  | turn step =>
    obtain ⟨st, hst, hstep⟩ := Option.bind_eq_some_iff.1 hstep
    split_ifs at hstep
    cases hstep
    exact hc.turn hst step

/-! ### Where a capture begins -/

/-- An accepted cursor is that of the prefix it names. -/
theorem validateResume_ok {resumed : Resumed}
    (h : validateResume crc file interrupted resume = .ok resumed) :
    resumed.offset ≤ file.bytes.length ∧
      resumed.evidence = lastBytes fileEvidenceBytes (file.bytes.take resumed.offset) ∧
      resumed.hashed = file.bytes.take resumed.offset := by
  have hfresh (reason : BoundaryReason) (h : Except.ok (⟨0, [], [], reason⟩ : Resumed) =
      (Except.ok resumed : Except String Resumed)) : resumed.offset ≤ file.bytes.length ∧
      resumed.evidence = lastBytes fileEvidenceBytes (file.bytes.take resumed.offset) ∧
      resumed.hashed = file.bytes.take resumed.offset := by
    cases h
    exact ⟨Nat.zero_le _, (lastBytes_of_le (Nat.zero_le _)).symm, rfl⟩
  cases resume with
  | none => exact hfresh _ h
  | some resume =>
    simp only [validateResume] at h
    split_ifs at h with hidentity hevidence hshort
    · exact hfresh _ h
    · exact hfresh _ h
    · have hle : resume.offset ≤ file.bytes.length := Nat.not_lt.1 hshort
      have hscan := scanPrefix_eq resume.offset file.bytes [] [] hle (Nat.zero_le _)
      simp only [nil_append] at hscan
      cases interrupted with
      | some signal => cases h
      | none =>
        simp only [hscan] at h
        split_ifs at h with hdiffers
        · exact hfresh _ h
        · cases h
          simp only [not_or, not_not] at hdiffers
          exact ⟨hle, hdiffers.1.symm, rfl⟩

/-- A capture that could be opened stands behind where it begins. -/
theorem openFileState_ok {reason : BoundaryReason}
    (h : openFileState crc limits file acquisitionId interrupted resume = .ok (st, reason)) :
    Reading crc file acquisitionId st.offset st [] ∧ st.acknowledgedOffset = st.offset := by
  unfold openFileState at h
  cases hresume : validateResume crc file interrupted resume with
  | error message =>
    rw [hresume] at h
    cases h
  | ok resumed =>
    rw [hresume] at h
    obtain ⟨hle, hevidence, hhashed⟩ := validateResume_ok hresume
    cases h
    have htake : (file.bytes.take resumed.offset).drop resumed.offset = [] :=
      drop_eq_nil_of_le (length_take_le _ _)
    exact ⟨{
      identity_eq := rfl
      acquisition_eq := rfl
      offset_le := hle
      base_le := Nat.le_refl _
      reads := htake.symm
      unacknowledged := (append_nil _).symm
      acknowledged_eq := rfl
      pending_le := Nat.le_refl _
      evidence_eq := hevidence
      hashed_eq := hhashed }, rfl⟩

theorem start_stands {reason : BoundaryReason}
    (h : openFileState crc limits file acquisitionId interrupted resume = .ok (st, reason))
    (io : CaptureAnswers) :
    (Capture.start crc io file st reason).Stands crc acquisitionId st.offset ∧
      (Capture.start crc io file st reason).file = file := by
  obtain ⟨hreading, hack⟩ := openFileState_ok h
  have howing : Owing crc file acquisitionId st.offset [] [] ⟨st, []⟩ := by
    refine ⟨trivial, Framer.tagged_nil _ _, ?_⟩
    simp only [eventInputs_nil, inputs_nil, append_nil]
    exact hreading
  have hbegin := begin_ensures io reason ⟨st, []⟩
    ⟨howing, by simpa only [eventInputs_nil, append_nil, length_nil, Nat.add_zero] using hack⟩
  unfold Capture.start
  generalize begin crc io reason ⟨st, []⟩ = result at hbegin
  have hbase := hreading.offset_le
  cases result with
  | ok u c =>
    obtain ⟨hstream, -, hread⟩ := hbegin
    rw [inputs_nil, append_nil, nil_append] at hread
    rw [length_nil, Nat.add_zero] at hstream
    refine ⟨⟨hstream, hread.emitted_prefix, hbase, fun st' hst' => ?_⟩, rfl⟩
    cases hst'
    exact hread
  | error e c =>
    obtain ⟨hstream, hbegins⟩ := hbegin
    rw [length_nil, Nat.add_zero] at hstream
    rw [nil_append] at hbegins
    exact ⟨⟨hstream, hbegins, hbase, fun st' hst' => by cases hst'⟩, rfl⟩

theorem identity_run {c' : Capture} {labels : List CaptureLabel}
    (h : (captures crc limits).Run c labels c') : c'.file.identity = c.file.identity := by
  refine @Machine.Run.relation _ _ (captures crc limits) c c' labels
    (fun c c' => c'.file.identity = c.file.identity) h (fun _ => rfl)
    (fun _ _ _ h h' => h'.trans h) fun c label c' hstep => ?_
  cases label with
  | grow bytes =>
    cases hstep
    rfl
  | turn step =>
    obtain ⟨st, hst, hstep⟩ := Option.bind_eq_some_iff.1 hstep
    split_ifs at hstep
    cases hstep
    rfl

/-! ### What a checkpoint is good for -/

theorem Stream.checkpoint {before after : List CaptureEvent} {id : Uuid} {cursor : FileResumeCursor}
    {encoding : FileEncoding}
    (h : Stream crc file acquisitionId n (before ++ .fileCheckpoint id cursor encoding :: after)) :
    id = acquisitionId ∧ cursor = cursorAt crc file (n + (eventInputs before).length) ∧
      encoding = .plain :=
  (stream_append.1 h).2.1

theorem cursorAt_of_prefix (crc : List UInt8 → UInt32) {later : SourceFile}
    (hn : n ≤ file.bytes.length) (hidentity : later.identity = file.identity)
    (hbegins : file.bytes.take n <+: later.bytes) :
    cursorAt crc later n = cursorAt crc file n ∧ n ≤ later.bytes.length := by
  have hlen : (file.bytes.take n).length = n := length_take_of_le hn
  have htake : later.bytes.take n = file.bytes.take n := by
    have := prefix_iff_eq_take.1 hbegins
    rw [hlen] at this
    exact this.symm
  refine ⟨by simp only [cursorAt, hidentity, htake], ?_⟩
  have := hbegins.length_le
  omega

/-- **What a checkpoint of `n` bytes is good for**: it names them by their number, checksum and
last bytes; whatever still begins with them is resumed behind them; and recovery over a journal
whose tail goes on with the file leaves such a cursor again. -/
structure Certifies (crc : List UInt8 → UInt32) (file : SourceFile) (n : ℕ)
    (cursor : FileResumeCursor) : Prop where
  within : n ≤ file.bytes.length
  offset : cursor.offset = n
  contentCrc32 : cursor.contentCrc32 = crc (file.bytes.take n)
  evidence : cursor.evidence = (file.bytes.take n).drop (n - min fileEvidenceBytes n)
  resumes : ∀ later : SourceFile, later.identity = file.identity →
    file.bytes.take n <+: later.bytes →
    validateResume crc later none (some cursor) =
      .ok ⟨n, cursor.evidence, file.bytes.take n, .started⟩
  recovers : ∀ later : SourceFile, later.identity = file.identity →
    file.bytes.take n <+: later.bytes →
    ∀ hash source events (h : History) (disk disk' : JournalDisk) (j : Journal) (recovery : Recovery),
      (lives hash source).Run .fresh events h → h.life = .down disk →
      Journal.open hash source false disk = .ok (j, recovery) disk' →
      ∃ old, j.file.bytes = Framing.encAll (Journal.frame hash) old ∧
        ∀ before after, old = before ++ after → ∀ durable : DurableFileCursor, durable.file = cursor →
          durable.encoding = .plain →
          durable.journalOffset = (Framing.encAll (Journal.frame hash) before).length →
          ∀ gunzip (io : Recover.RecoverAnswers) path,
            let recovered : DurableFileCursor := { durable with
              journalOffset := (Framing.encAll (Journal.frame hash) old).length
              file := cursorAt crc later (n + (payloads after).length) }
            let result := Recover.recoverFileCursor hash crc gunzip io later
              (some ⟨path, some durable⟩) ⟨j, some durable⟩
            (∀ w s, result = .ok w s → w = some ⟨path, some recovered⟩ ∧
              payloads after <+: later.bytes.drop n) ∧
            (Recover.Replays durable.acquisitionId Recover.maxRecoveryRecords 0
                (later.bytes.drop n) after → io.cancelled = false → io.readable = true →
              io.store = .ok → result = .ok (some ⟨path, some recovered⟩) ⟨j, some recovered⟩)

theorem certifies_cursorAt (hn : n ≤ file.bytes.length) :
    Certifies crc file n (cursorAt crc file n) where
  within := hn
  offset := rfl
  contentCrc32 := rfl
  evidence := by
    have hcut (k : ℕ) : n - k = n - min k n := by omega
    rw [← hcut fileEvidenceBytes]
    simp only [cursorAt, lastBytes, length_take, Nat.min_eq_left hn]
  resumes later hidentity hbegins := by
    obtain ⟨hcursor, hle⟩ := cursorAt_of_prefix crc hn hidentity hbegins
    have htake : later.bytes.take n = file.bytes.take n := by
      have := prefix_iff_eq_take.1 hbegins
      rw [length_take_of_le hn] at this
      exact this.symm
    rw [← hcursor, validateResume_cursorAt crc hle, htake]
    simp only [cursorAt, htake]
  recovers later hidentity hbegins hash source events h disk disk' j recovery hlives hdown hopen := by
    obtain ⟨hcursor, hle⟩ := cursorAt_of_prefix crc hn hidentity hbegins
    obtain ⟨old, hfile, hbuffer, hp, hlive, -⟩ := Journal.open_live hlives hdown hopen
    refine ⟨old, hfile, ?_⟩
    rintro before after rfl durable hfileEq hplain hoffset gunzip io path recovered result
    have hpoints : Recover.Points hash crc later before durable := by
      have hn' : durable.file.offset = n := by rw [hfileEq]; rfl
      refine ⟨hoffset, ?_, ?_, hplain⟩
      · rw [hn', hcursor, hfileEq]
      · rw [hn']
        exact hle
    have hn' : durable.file.offset = n := by rw [hfileEq]; rfl
    have hadvanced : Recover.advanced hash crc later durable before after = recovered := by
      simp only [Recover.advanced, hn', recovered]
    refine ⟨fun w s hresult => ?_, fun hreplays hcancelled hreadable hstore => ?_⟩
    · have hcases := Recover.recover_cases hlive hp hbuffer hpoints gunzip io path
      rw [show Recover.recoverFileCursor hash crc gunzip io later (some ⟨path, some durable⟩)
        ⟨j, some durable⟩ = .ok w s from hresult, hadvanced] at hcases
      obtain ⟨rfl, -, hreplays⟩ := hcases
      rw [hn'] at hreplays
      exact ⟨rfl, (Recover.replays_iff.1 hreplays).2.1⟩
    · have hok := Recover.recover_ok hlive hp hbuffer hpoints (hn'.symm ▸ hreplays) gunzip hcancelled
        hreadable hstore path
      rw [hadvanced] at hok
      exact hok

/-- **Every checkpoint validates.**  In any run of a capture that could be opened, afresh or from a
cursor that was accepted, each checkpoint certifies the bytes that the records before it hold,
behind those that the capture began with. -/
theorem checkpoints_certify {interrupted : Option Signal} {resume : Option FileResumeCursor}
    {st : FileState} {reason : BoundaryReason}
    (hopen : openFileState crc limits file acquisitionId interrupted resume = .ok (st, reason))
    (io : CaptureAnswers) {labels : List CaptureLabel} {c : Capture}
    (hrun : (captures crc limits).Run (.start crc io file st reason) labels c)
    {before after : List CaptureEvent} {id : Uuid} {cursor : FileResumeCursor}
    {encoding : FileEncoding}
    (hsent : c.sent = before ++ .fileCheckpoint id cursor encoding :: after) :
    id = acquisitionId ∧ encoding = .plain ∧
      eventInputs before <+: c.file.bytes.drop st.offset ∧ cursor.identity = file.identity ∧
      Certifies crc c.file (st.offset + (eventInputs before).length) cursor := by
  obtain ⟨hstart, hfile⟩ := start_stands hopen io
  have hstands := stands_run hrun hstart
  have hidentity := identity_run hrun
  rw [hfile] at hidentity
  have hstream := hstands.stream
  rw [hsent] at hstream
  obtain ⟨rfl, rfl, rfl⟩ := hstream.checkpoint
  have hbefore : eventInputs before <+: c.file.bytes.drop st.offset := by
    have hbegins := hstands.sent_prefix
    rw [hsent, eventInputs_append] at hbegins
    exact (prefix_append _ _).trans hbegins
  have hlen := hbefore.length_le
  have hbase := hstands.base_le
  rw [length_drop] at hlen
  exact ⟨rfl, rfl, hbefore, hidentity, certifies_cursorAt (by omega)⟩

/-- A file of one line. -/
def lineFile : SourceFile := ⟨none, [104, 105, 10]⟩

/-- A capture that reads it from the start. -/
def lineState : FileState where
  identity := none
  offset := 0
  acquisitionId := .filled 1
  framer := .new CaptureLimits.default.maximumRecordBytes
    CaptureLimits.default.maximumRecordBytes_pos
  acknowledgedOffset := 0
  unacknowledged := []
  evidence := []
  checkpointedOffset := 0
  hashed := []

/-- The line is read; another one comes, of which the capture reads a part before it is interrupted,
when it sends its records and acknowledges them. -/
def lineLabels : List CaptureLabel :=
  [.turn (.read {} 3), .grow [104, 105, 10], .turn (.read {} 1), .turn (.interrupted {} false)]

def CaptureEvent.isCheckpoint : CaptureEvent → Bool
  | .fileCheckpoint _ _ _ => true
  | _ => false

/-- The checkpoint behind the records counts four bytes. -/
theorem checkpoints_certify_line : ∃ file cursor, file.bytes = [104, 105, 10, 104, 105, 10] ∧
    Certifies (fun _ => 0) file 4 cursor := by
  have hopen : openFileState (fun _ => 0) .default lineFile (.filled 1) none none =
      .ok (lineState, .started) := rfl
  obtain ⟨c, hrun, hbytes, hlength, h⟩ : ∃ c, (captures (fun _ => 0) .default).Run
      (.start (fun _ => 0) {} lineFile lineState .started) lineLabels c ∧
      c.file.bytes = [104, 105, 10, 104, 105, 10] ∧ (eventInputs (c.sent.take 4)).length = 4 ∧
      c.sent[4]?.any CaptureEvent.isCheckpoint = true := Machine.exists_run (by decide +kernel)
  obtain ⟨event, hevent, hcheckpoint⟩ := (Option.any_eq_true _ _).1 h
  obtain ⟨hlt, hevent⟩ := List.getElem?_eq_some_iff.1 hevent
  cases event with
  | fileCheckpoint id cursor encoding =>
    have hsent : c.sent = c.sent.take 4 ++ .fileCheckpoint id cursor encoding :: c.sent.drop 5 := by
      rw [← hevent, ← drop_eq_getElem_cons, take_append_drop]
    obtain ⟨-, -, -, -, hcertifies⟩ := checkpoints_certify hopen {} hrun hsent
    rw [hlength] at hcertifies
    exact ⟨c.file, cursor, hbytes, hcertifies⟩
  | _ => cases hcheckpoint

end Lvu.FileCapture
