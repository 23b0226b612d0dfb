import Lvu.Core.Lives
import Lvu.Ingest.Writer

/-!
# What the writer publishes

Between its steps the writer's file holds the frames of every record handed to it, and the
progress in the cell counts them (`Sound`).  A step that appends nothing keeps this whatever the
filesystem answers; a batch keeps it when its appends go through (`BatchSafe`).

* `published_describes` : under that condition every publication describes the journal file.
* `storage_limit_drops_buffer` : at the storage limit frames that were counted are lost.
-/

namespace Lvu.Writer

open Journal Framing Outcome

/-- The records `rs` are the captured records `cs`, under sequences of their own. -/
def Framed (source : SourceId) (rs : List RawRecord) (cs : List CapturedRecord) : Prop :=
  rs.map (·.withSequence 0) = cs.map (·.intoRaw source)

/-- A progress counts a journal file made of the frames of `rs`. -/
structure Tallies (hash : List UInt8 → UInt32) (p : SourceProgress) (file : List UInt8)
    (rs : List RawRecord) : Prop where
  file_eq : file = encAll (frame hash) rs
  records_eq : p.records = rs.length
  watermark_eq : p.highWatermark = rs.getLast?.map (·.recordId)
  bytes_eq : p.journalBytes = file.length

/-- A publication describes the journal file: the file holds the frames of `old` and of the
records handed over, counted exactly, and what is not in it is counted as discarded. -/
def Describes (hash : List UInt8 → UInt32) (source : SourceId) (old : List RawRecord)
    (p : Publication) : Prop :=
  ∃ new, Tallies hash p.progress p.file (old ++ new) ∧
    Framed source new (p.handed.take new.length) ∧
    ((p.handed.drop new.length).flatMap (·.payload)).length ≤ p.progress.discardedBytes

/-- Nothing is buffered, and the writer's counters count the file. -/
structure Flushed (hash : List UInt8 → UInt32) (source : SourceId) (old : List RawRecord)
    (issued : List UInt64) (s : WriterState) (new : List RawRecord) : Prop where
  live : LiveInv hash source s.journal (old ++ new) issued
  buffer_nil : s.journal.buffer = []
  written_eq : s.journal.writtenBytes = s.journal.file.bytes.length
  source_eq : s.current.sourceId = source
  current : Tallies hash s.current s.journal.file.bytes (old ++ new)
  framed : Framed source new s.handed
  published : ∀ p ∈ s.published, Describes hash source old p

/-- Between two steps the cell counts the file as well. -/
structure Settled (hash : List UInt8 → UInt32) (source : SourceId) (old : List RawRecord)
    (issued : List UInt64) (s : WriterState) (new : List RawRecord) : Prop
    extends Flushed hash source old issued s new where
  progress : Tallies hash s.progress s.journal.file.bytes (old ++ new)

/-- The invariant of a running writer. -/
def Sound (hash : List UInt8 → UInt32) (source : SourceId) (old : List RawRecord)
    (issued : List UInt64) (s : WriterState) : Prop :=
  ∃ new, Settled hash source old issued s new

variable {hash : List UInt8 → UInt32} {source : SourceId} {old : List RawRecord}
  {issued : List UInt64} {config : RuntimeConfig}

variable {rs new : List RawRecord} {p : SourceProgress} {file : List UInt8} {s : WriterState}
  {io : StepAnswers}

theorem Framed.length_eq {cs : List CapturedRecord} (h : Framed source rs cs) :
    rs.length = cs.length := by
  have := congrArg List.length h
  simpa using this

theorem describes_of_framed {handed : List CapturedRecord} (ht : Tallies hash p file (old ++ new))
    (hf : Framed source new handed) : Describes hash source old ⟨p, file, handed⟩ := by
  refine ⟨new, ht, ?_, ?_⟩
  · rw [hf.length_eq, List.take_length]
    exact hf
  · rw [hf.length_eq, List.drop_length]
    exact Nat.zero_le _

theorem describes_append {ps : List Publication} {p : Publication}
    (h : ∀ q ∈ ps, Describes hash source old q) (hp : Describes hash source old p) :
    ∀ q ∈ ps ++ [p], Describes hash source old q := by
  intro q hq
  rcases List.mem_append.1 hq with hq | hq
  · exact h q hq
  · exact List.mem_singleton.1 hq ▸ hp

/-! ### Steps that append nothing -/

/-- An operation that leaves the file and the buffer alone when nothing is buffered. -/
def Quiet {α : Type} (op : EStateM JournalError Journal α) : Prop :=
  ∀ j, j.buffer = [] → (after (op j)).buffer = [] ∧
    (after (op j)).file.bytes = j.file.bytes ∧ (after (op j)).writtenBytes = j.writtenBytes

theorem quiet_flush (io : Answers) : Quiet (Journal.flush io) := by
  intro j hb
  cases hp : j.poisoned with
  | true => simpa [Journal.flush, hp] using hb
  | false =>
    simp only [Journal.flush, run_get_bind, hp, Bool.false_eq_true, ↓reduceIte]
    rw [run_bind_ok (writeBuffer_nil io hb)]
    cases io.flush <;> simpa using hb

theorem quiet_syncData (io : Answers) : Quiet (Journal.syncData io) := by
  intro j hb
  cases hp : j.poisoned with
  | true => simpa [Journal.syncData, hp] using hb
  | false =>
    simp only [Journal.syncData, run_get_bind, hp, Bool.false_eq_true, ↓reduceIte]
    rw [run_bind_ok (writeBuffer_nil io hb)]
    cases io.flush && io.sync <;> simpa using hb

theorem quiet_readPage (io : Answers) (offset maxRecords maxBytes : ℕ) :
    Quiet (Journal.readPage hash io offset maxRecords maxBytes) := by
  intro j hb
  rw [after_readPage, writeBuffer_nil io hb]
  exact ⟨hb, rfl, rfl⟩

theorem Settled.journal {s : WriterState} {new : List RawRecord} {j : Journal}
    (h : Settled hash source old issued s new) (hl : LiveInv hash source j (old ++ new) issued)
    (hb : j.buffer = []) (hf : j.file.bytes = s.journal.file.bytes)
    (hw : j.writtenBytes = s.journal.writtenBytes) (failed : Bool) :
    Settled hash source old issued { s with journal := j, journalFailed := failed } new :=
  { h with
    live := hl
    buffer_nil := hb
    written_eq := by rw [hw, hf, h.written_eq]
    current := hf ▸ h.current
    progress := hf ▸ h.progress }

/-- What the counts of a progress depend on. -/
def counts (p : SourceProgress) : SourceId × ℕ × Option RecordId × ℕ :=
  (p.sourceId, p.records, p.highWatermark, p.journalBytes)

theorem Tallies.congr {q : SourceProgress} (h : Tallies hash p file rs) (hc : counts q = counts p) :
    Tallies hash q file rs := by
  simp only [counts, Prod.mk.injEq] at hc
  obtain ⟨-, h1, h2, h3⟩ := hc
  exact ⟨h.file_eq, h1 ▸ h.records_eq, h2 ▸ h.watermark_eq, h3 ▸ h.bytes_eq⟩

/-- What `Flushed` looks at. -/
def view (s : WriterState) := (s.journal, s.handed, s.published, counts s.current)

theorem Flushed.congr {s' : WriterState} (h : Flushed hash source old issued s new)
    (hv : view s' = view s) : Flushed hash source old issued s' new := by
  simp only [view, Prod.mk.injEq] at hv
  obtain ⟨hj, hh, hp, hc⟩ := hv
  exact {
    live := hj ▸ h.live
    buffer_nil := hj ▸ h.buffer_nil
    written_eq := hj ▸ h.written_eq
    source_eq := (congrArg Prod.fst hc).trans h.source_eq
    current := hj ▸ h.current.congr hc
    framed := hh ▸ h.framed
    published := hp ▸ h.published }

theorem Settled.congr {s' : WriterState} (h : Settled hash source old issued s new)
    (hv : view s' = view s) (hp : counts s'.progress = counts s.progress) :
    Settled hash source old issued s' new := by
  refine { h.toFlushed.congr hv with progress := ?_ }
  simp only [view, Prod.mk.injEq] at hv
  rw [hv.1]
  exact h.progress.congr hp

theorem keeps_modify {f : WriterState → WriterState} (hv : ∀ s, view (f s) = view s)
    (hp : ∀ s, counts (f s).progress = counts s.progress) :
    Keeps (Sound hash source old issued) (modify f : Op Unit) :=
  .modify fun s ⟨new, h⟩ => ⟨new, h.congr (hv s) (hp s)⟩

theorem keeps_onJournal {α : Type} {op : EStateM JournalError Journal α} (hq : Quiet op)
    (hl : ∀ j rs, LiveInv hash source j rs issued → LiveInv hash source (after (op j)) rs issued) :
    Keeps (Sound hash source old issued) (onJournal op) := by
  rintro s ⟨new, h⟩
  obtain ⟨hb, hf, hw⟩ := hq s.journal h.buffer_nil
  have hlive := hl s.journal _ h.live
  cases hop : op s.journal with
  | ok a j | error e j =>
    rw [hop] at hb hf hw hlive
    simp only [onJournal, hop]
    exact ⟨new, h.journal hlive hb hf hw _⟩

theorem keeps_record (io : StepAnswers) (event : CatalogEvent) :
    Keeps (Sound hash source old issued) (record io event) :=
  .ite (fun _ => keeps_modify (fun _ => rfl) fun _ => rfl)
    fun _ => .throw fun _ h => h

theorem keeps_noteCpu (io : StepAnswers) (captureWork : Bool) :
    Keeps (Sound hash source old issued) (noteCpu io captureWork) :=
  keeps_modify (fun _ => rfl) fun _ => rfl

theorem keeps_publish : Keeps (Sound hash source old issued) publish :=
  .modify fun _ ⟨new, h⟩ => ⟨new, { h with
    progress := h.current
    published := describes_append h.published (describes_of_framed h.current h.framed) }⟩

theorem keeps_publishDurable : Keeps (Sound hash source old issued) publishDurable :=
  .modify fun _ ⟨new, h⟩ => ⟨new, { h with
    progress := h.current.congr rfl
    published := describes_append h.published
      (describes_of_framed (h.current.congr rfl) h.framed) }⟩

theorem keeps_store (io : StepAnswers) (cursor : DurableFileCursor) :
    Keeps (Sound hash source old issued) (store io cursor) := by
  have hmod : Keeps (Sound hash source old issued) (modify fun s =>
      { s with stored := s.stored ++ [⟨cursor, s.journal, s.journalFailed || s.journal.poisoned⟩] }
      : Op Unit) :=
    keeps_modify (fun _ => rfl) fun _ => rfl
  unfold store
  cases io.store with
  | ok => exact hmod
  | failBefore => exact .throw fun _ h => h
  | failAfter => exact .bind hmod fun _ => .throw fun _ h => h

theorem keeps_commit (io : StepAnswers) : Keeps (Sound hash source old issued) (commit io) := by
  refine .bind ?_ fun _ => .get_bind_keeps fun s => ?_
  · refine .get_bind_keeps fun s => .ite (fun _ => ?_) fun _ => ?_
    · exact .bind (keeps_onJournal (quiet_syncData _) fun _ _ hl => hl.syncData _) fun _ =>
        keeps_modify (fun _ => rfl) fun _ => rfl
    · exact keeps_onJournal (quiet_flush _) fun _ _ hl => hl.flush _
  · cases s.commit.pendingCursor with
    | none => exact .pure fun _ h => h
    | some cursor =>
      exact .bind (keeps_modify (fun _ => rfl) fun _ => rfl) fun _ =>
        .bind (keeps_store io cursor) fun _ => keeps_modify (fun _ => rfl) fun _ => rfl

theorem keeps_timedCommit (io : StepAnswers) :
    Keeps (Sound hash source old issued) (timedCommit io) :=
  .bind (keeps_commit io) fun _ => .bind (keeps_noteCpu io true) fun _ => keeps_publish

theorem keeps_readJournal {α : Type} {op : EStateM JournalError Journal α} (hq : Quiet op)
    (hl : ∀ j rs, LiveInv hash source j rs issued → LiveInv hash source (after (op j)) rs issued) :
    Keeps (Sound hash source old issued) (readJournal op) := by
  rintro s ⟨new, h⟩
  obtain ⟨hb, hf, hw⟩ := hq s.journal h.buffer_nil
  have hlive := hl s.journal _ h.live
  cases hop : op s.journal with
  | ok a j | error e j =>
    rw [hop] at hb hf hw hlive
    simp only [readJournal, hop]
    exact ⟨new, h.journal hlive hb hf hw _⟩

theorem keeps_servePage (io : StepAnswers) (request : PageRequest) :
    Keeps (Sound hash source old issued) (servePage hash config io request) :=
  .bind (keeps_readJournal (quiet_readPage _ _ _ _) fun _ _ hl => hl.readPage _ _ _ _) fun _ =>
    .bind (keeps_noteCpu io false) fun _ => .pure fun _ h => h

theorem keeps_handleEvent (io : StepAnswers) (event : CaptureEvent) :
    Keeps (Sound hash source old issued) (handleEvent io event) := by
  cases event with
  | boundary acquisitionId reason | commandExit acquisitionId code success
  | error acquisitionId message =>
    exact .bind (keeps_modify (fun _ => rfl) fun _ => rfl) fun _ => keeps_record io _
  | fileCheckpoint acquisitionId file encoding =>
    refine .get_bind_keeps fun s => ?_
    cases s.fileCursor with
    | none => exact .throw fun _ h => h
    | some state => exact keeps_modify (fun _ => rfl) fun _ => rfl
  | stopped acquisitionId | records records => exact .pure fun _ h => h

theorem keeps_finishWriter (io : StepAnswers) (requested : RuntimeState) (discardedBytes : ℕ)
    (known : Bool) :
    Keeps (Sound hash source old issued) (finishWriter io requested discardedBytes known) := by
  refine .bind (keeps_commit io) fun _ => .bind (Q := fun _ => Sound hash source old issued)
    (.modify ?_) fun _ => ?_
  · -- `written_bytes` is what the counter already says
    rintro s ⟨new, h⟩
    refine ⟨new, h.congr ?_ rfl⟩
    simp only [view, counts, h.written_eq, h.current.bytes_eq]
  · cases requested <;> first | exact keeps_record io _ | exact .pure fun _ h => h

theorem keeps_handleNonRecord (io : StepAnswers) (message : WriterMessage) :
    Keeps (Sound hash source old issued) (handleNonRecord io message) := by
  cases message with
  | event event =>
    exact .bind (keeps_handleEvent io event) fun _ => .bind (keeps_noteCpu io true) fun _ =>
      .bind keeps_publish fun _ => .pure fun _ h => h
  | finish state discardedBytes known replyClosed =>
    refine .bind (.attempt (keeps_finishWriter io _ discardedBytes known)) fun result => ?_
    cases result with
    | ok u =>
      exact .bind (keeps_noteCpu io true) fun _ => .bind keeps_publishDurable fun _ =>
        .pure fun _ h => h
    | error e => exact .bind (keeps_noteCpu io true) fun _ => .pure fun _ h => h

theorem keeps_closePath (io : StepAnswers) :
    Keeps (Sound hash source old issued) (closePath io) :=
  .bind (keeps_commit io) fun _ => .bind (keeps_noteCpu io true) fun _ =>
    .bind (keeps_modify (fun _ => rfl) fun _ => rfl) fun _ => .get_bind_keeps fun _ =>
      .bind (keeps_record io _) fun _ => keeps_publish

/-! ### The condition on a batch -/

/-- What an append depends on. -/
structure Room where
  buffered : ℕ
  journalBytes : ℕ
  next : UInt64
  reserved : UInt64

namespace Room

/-- The room of a writer. -/
def of (s : WriterState) : Room :=
  ⟨s.journal.buffer.length, s.current.journalBytes, s.journal.nextSequence, s.journal.reservedUntil⟩

/-- The journal has a frame and a sequence for the record. -/
def Accepts (room : Room) (r : CapturedRecord) : Prop :=
  fixed + r.bytes.length + r.delimiter.length ≤ maxFrame ∧
    (checkedAdd room.next 1).isSome ∧
    (room.next + 1 > room.reserved → (checkedAdd room.next sequenceBlock).isSome)

/-- The room after the record is appended: a full buffer is handed over. -/
def take (room : Room) (r : CapturedRecord) : Room :=
  let frame := headerSize + (fixed + r.bytes.length + r.delimiter.length)
  { buffered := if room.buffered + frame ≥ writeBufferBytes then 0 else room.buffered + frame
    journalBytes := room.journalBytes + frame
    next := room.next + 1
    reserved := if room.next + 1 > room.reserved then room.next + sequenceBlock else room.reserved }

end Room

/-- No record of the batch is refused by the journal, and the storage limit, if the batch reaches
it, is reached while no frame is in the write buffer. -/
def BatchSafe (config : RuntimeConfig) : Room → List CapturedRecord → Prop
  | _, [] => True
  | room, r :: records =>
    match exceededLimit config room.journalBytes r with
    | some _ => room.buffered = 0
    | none => room.Accepts r ∧ BatchSafe config (room.take r) records

/-- Every call of the step succeeds. -/
structure StepAnswers.AllSucceed (io : StepAnswers) : Prop where
  append : ∀ i, (io.append i).watermark = .ok ∧ (io.append i).write = none
  flush : io.flush.write = none ∧ io.flush.flush = true
  commit : io.commit.write = none ∧ io.commit.flush = true ∧ io.commit.sync = true
  store : io.store = .ok
  catalog : io.catalog = true

/-- The condition on a step: a batch finds a journal that has not failed, its calls succeed, and
it is safe. -/
def StepSafe (config : RuntimeConfig) (s : WriterState) : Step → Prop
  | .batch io handovers =>
    s.journal.poisoned = false ∧ io.AllSucceed ∧ BatchSafe config (.of s) handovers.flatten
  | _ => True

/-- The condition on a label. -/
def LabelSafe (config : RuntimeConfig) : Life → Label → Prop
  | .running s, .step step => StepSafe config s step
  | _, _ => True

/-! ### A batch -/

/-- Inside a batch: `new` has been appended, and `rest` of the records handed over is left. -/
structure Appending (hash : List UInt8 → UInt32) (source : SourceId) (old : List RawRecord)
    (issued : List UInt64) (s : WriterState) (new : List RawRecord) (rest : List CapturedRecord) :
    Prop where
  live : LiveInv hash source s.journal (old ++ new) issued
  poisoned_eq : s.journal.poisoned = false
  source_eq : s.current.sourceId = source
  records_eq : s.current.records = (old ++ new).length
  watermark_eq : s.current.highWatermark = (old ++ new).getLast?.map (·.recordId)
  bytes_eq : s.current.journalBytes = s.journal.writtenBytes
  framed : ∃ done, s.handed = done ++ rest ∧ Framed source new done
  published : ∀ p ∈ s.published, Describes hash source old p

/-- What is left when the writer ends: all it has published describes its file, and so does what
the cell shows. -/
def Ended (hash : List UInt8 → UInt32) (source : SourceId) (old : List RawRecord)
    (s : WriterState) : Prop :=
  (∀ p ∈ s.published, Describes hash source old p) ∧
    Describes hash source old ⟨s.progress, s.journal.file.bytes, s.handed⟩

theorem Framed.concat {cs : List CapturedRecord} (h : Framed source rs cs) (r : CapturedRecord)
    (q : UInt64) : Framed source (rs ++ [(r.intoRaw source).withSequence q]) (cs ++ [r]) := by
  rw [Framed, List.map_append, List.map_append, h]
  rfl

/-- At the storage limit with nothing buffered, what is left of the batch is counted. -/
theorem ended_storageBlocked {rest : List CapturedRecord}
    (h : Appending hash source old issued s new rest) (hb : s.journal.buffer = [])
    (hc : io.catalog = true) (limit appended : ℕ) :
    ∃ s', storageBlocked io limit appended rest s = .error (.storageLimit limit) s' ∧
      Ended hash source old s' := by
  obtain ⟨done, hhanded, hframed⟩ := h.framed
  have hfile : s.journal.file.bytes = encAll (frame hash) (old ++ new) := by
    have := h.live.bytes_eq h.poisoned_eq
    rwa [hb, List.append_nil] at this
  have hbytes : s.current.journalBytes = s.journal.file.bytes.length := by
    rw [h.bytes_eq, h.live.written_eq h.poisoned_eq, hfile]
  -- the publication: what was appended is in the file, the rest is counted
  have hpub : ∀ p : SourceProgress, counts p = counts s.current →
      p.discardedBytes = s.current.discardedBytes + (rest.flatMap (·.payload)).length →
      Describes hash source old ⟨p, s.journal.file.bytes, s.handed⟩ := by
    intro p hp hd
    have ht : Tallies hash s.current s.journal.file.bytes (old ++ new) :=
      ⟨hfile, h.records_eq, h.watermark_eq, hbytes⟩
    refine ⟨new, ht.congr hp, ?_, ?_⟩
    · rw [hhanded, hframed.length_eq, List.take_left]
      exact hframed
    · rw [hhanded, hframed.length_eq, List.drop_left, hd]
      exact Nat.le_add_left _ _
  have hrun : storageBlocked io limit appended rest s = .error (.storageLimit limit) { s with
      current := blocked limit rest s.current
      progress := blocked limit rest s.current
      catalog := s.catalog ++
        [.storageBlocked limit (blocked limit rest s.current).discardedBytes false]
      commit := s.commit.appended appended
      published := s.published ++
        [⟨blocked limit rest s.current, s.journal.file.bytes, s.handed⟩] } := by
    simp only [storageBlocked, record, hc, publish, run_modify_bind, run_get_bind, ↓reduceIte,
      run_throw]
  exact ⟨_, hrun, describes_append h.published (hpub _ rfl rfl), hpub _ rfl rfl⟩

theorem appendLoop_ensures (hio : io.AllSucceed) (batch : List CapturedRecord) (appended : ℕ)
    (h : Appending hash source old issued s new batch) (hsafe : BatchSafe config (.of s) batch) :
    Holds (fun _ s' => ∃ new', Appending hash source old issued s' new' [])
      (Ended hash source old) (appendLoop hash config io appended batch s) := by
  induction batch generalizing appended s new with
  | nil => exact ⟨new, h⟩
  | cons r batch ih =>
    rw [appendLoop, run_get_bind]
    rw [BatchSafe] at hsafe
    cases hlimit : exceededLimit config s.current.journalBytes r with
    | some limit =>
      simp only [Room.of, hlimit, List.length_eq_zero_iff] at hsafe
      obtain ⟨s', hs', hended⟩ := ended_storageBlocked h hsafe hio.catalog limit appended
      simp only [run_bind_error hs']
      exact hended
    | none =>
      simp only [Room.of, hlimit] at hsafe
      obtain ⟨⟨hsize, hseq, hres⟩, hrest⟩ := hsafe
      obtain ⟨j', happend, hp', hlive, hbuf, hwritten, hnext, hreserved⟩ :=
        append_ok h.live h.poisoned_eq (r.intoRaw source) rfl hsize hseq hres (hio.append appended)
      obtain ⟨done, hhanded, hframed⟩ := h.framed
      have hrun : onJournal (Journal.append hash (io.append appended)
          (r.intoRaw s.current.sourceId)) s =
          .ok ⟨source, s.journal.nextSequence⟩ { s with journal := j' } := by
        simp only [onJournal, h.source_eq, happend]
      simp only [run_get_bind]
      rw [run_bind_ok hrun, run_modify_bind]
      have happ : Appending hash source old issued { s with
          journal := j'
          current := { s.current with
            records := s.current.records + 1
            highWatermark := some ⟨source, s.journal.nextSequence⟩
            journalBytes := j'.writtenBytes } }
          (new ++ [(r.intoRaw source).withSequence s.journal.nextSequence]) batch := {
        live := by rwa [← List.append_assoc]
        poisoned_eq := hp'
        source_eq := h.source_eq
        records_eq := by simp [h.records_eq, Nat.add_assoc]
        watermark_eq := by
          rw [← List.append_assoc, List.getLast?_concat]
          rfl
        bytes_eq := rfl
        framed := ⟨done ++ [r], by rw [hhanded, List.append_assoc]; rfl, hframed.concat r _⟩
        published := h.published }
      refine ih (appended + 1) happ ?_
      -- the room is what the journal has after the append
      have hroom : Room.of { s with
          journal := j'
          current := { s.current with
            records := s.current.records + 1
            highWatermark := some ⟨source, s.journal.nextSequence⟩
            journalBytes := j'.writtenBytes } } = (Room.of s).take r := by
        simp only [Room.of, Room.take, hbuf, hwritten, hnext, hreserved, h.bytes_eq, frame_length]
        rfl
      rw [hroom]
      exact hrest

/-- After the appends of a batch: flushed, with a journal that has not failed. -/
def Handed (hash : List UInt8 → UInt32) (source : SourceId) (old : List RawRecord)
    (issued : List UInt64) (s : WriterState) : Prop :=
  (∃ new, Flushed hash source old issued s new) ∧ s.journal.poisoned = false

theorem handed_modify {f : WriterState → WriterState} (hv : ∀ s, view (f s) = view s) :
    Ensures (Handed hash source old issued) (modify f : Op Unit)
      (fun _ => Handed hash source old issued) (fun _ => False) := by
  refine .modify fun s ⟨⟨new, h⟩, hp⟩ => ⟨⟨new, h.congr (hv s)⟩, ?_⟩
  have hj := congrArg Prod.fst (hv s)
  simp only [view] at hj
  rw [hj]
  exact hp

/-- A flush that succeeds ends the appends. -/
theorem handed_flush {io : Answers} (hio : io.write = none ∧ io.flush = true) :
    Ensures (fun s => ∃ new, Appending hash source old issued s new [])
      (onJournal (Journal.flush io)) (fun _ => Handed hash source old issued) (fun _ => False) := by
  rintro s ⟨new, h⟩
  obtain ⟨done, hhanded, hframed⟩ := h.framed
  rcases flush_cases h.live h.poisoned_eq io with ⟨j', hj, -, hp, hb, hfile, hinv⟩ |
    ⟨e, j', -, hc, -⟩
  · have hbytes : j'.file.bytes = encAll (frame hash) (old ++ new) := by rw [hfile]
    have hw : j'.writtenBytes = j'.file.bytes.length := by rw [hinv.written_eq hp, hbytes]
    have hjb : s.current.journalBytes = j'.file.bytes.length := by
      rw [h.bytes_eq, h.live.written_eq h.poisoned_eq, hbytes]
    simp only [onJournal, hj]
    refine ⟨⟨new, hinv, hb, hw, h.source_eq, ⟨hbytes, h.records_eq, h.watermark_eq, hjb⟩, ?_,
      h.published⟩, hp⟩
    rw [hhanded, List.append_nil]
    exact hframed
  · exact absurd hio hc

/-- A journal call that succeeds between two steps. -/
theorem handed_onJournal {op : EStateM JournalError Journal Unit}
    (hop : ∀ j rs, LiveInv hash source j rs issued → j.poisoned = false → ∃ j',
      op j = .ok () j' ∧ j'.poisoned = false ∧ j'.buffer = [] ∧
        j'.file.bytes = encAll (frame hash) rs ∧ LiveInv hash source j' rs issued) :
    Ensures (Handed hash source old issued) (onJournal op)
      (fun _ => Handed hash source old issued) (fun _ => False) := by
  rintro s ⟨⟨new, h⟩, hp⟩
  obtain ⟨j', hj, hp', hb, hfile, hinv⟩ := hop _ _ h.live hp
  have hsame : j'.file.bytes = s.journal.file.bytes := by rw [hfile, h.current.file_eq]
  simp only [onJournal, hj]
  refine ⟨⟨new, { h with
    live := hinv
    buffer_nil := hb
    written_eq := ?_
    current := hsame ▸ h.current }⟩, hp'⟩
  show j'.writtenBytes = j'.file.bytes.length
  rw [hinv.written_eq hp', hfile]

theorem handed_commit (hio : io.AllSucceed) :
    Ensures (Handed hash source old issued) (commit io)
      (fun _ => Handed hash source old issued) (fun _ => False) := by
  refine .bind (Q := fun _ => Handed hash source old issued) ?_ fun _ => ?_
  · refine .get_bind fun s hs => .weaken (P := Handed hash source old issued) ?_
      (fun _ h => h ▸ hs) (fun _ _ h => h) fun _ h => h
    refine .ite (fun _ => ?_) fun _ => ?_
    · refine .bind (handed_onJournal fun j rs hl hp => ?_) fun _ => handed_modify fun _ => rfl
      rcases syncData_cases hl hp io.commit with ⟨j', hj, hp', hb, hf, hinv⟩ | ⟨e, j', -, hc, -⟩
      · exact ⟨j', hj, hp', hb, by rw [hf], hinv⟩
      · exact absurd hio.commit hc
    · refine handed_onJournal fun j rs hl hp => ?_
      rcases flush_cases hl hp io.commit with ⟨j', hj, -, hp', hb, hf, hinv⟩ | ⟨e, j', -, hc, -⟩
      · exact ⟨j', hj, hp', hb, by rw [hf], hinv⟩
      · exact absurd ⟨hio.commit.1, hio.commit.2.1⟩ hc
  · refine .get_bind fun s hs => .weaken (P := Handed hash source old issued) ?_
      (fun _ h => h ▸ hs) (fun _ _ h => h) fun _ h => h
    cases s.commit.pendingCursor with
    | none => exact .pure fun _ h => h
    | some cursor =>
      refine .bind (handed_modify fun _ => rfl) fun _ => .bind ?_ fun _ => handed_modify fun _ => rfl
      rw [store, hio.store]
      exact handed_modify fun _ => rfl

theorem handed_copyBack :
    Ensures (Handed hash source old issued) copyBack
      (fun _ => Handed hash source old issued) (fun _ => False) := by
  refine handed_modify fun s => ?_
  split_ifs <;> rfl

theorem handed_publish :
    Ensures (Handed hash source old issued) publish
      (fun _ => Sound hash source old issued) (fun _ => False) :=
  .modify fun _ ⟨⟨new, h⟩, _⟩ => ⟨new, { h with
    progress := h.current
    published := describes_append h.published (describes_of_framed h.current h.framed) }⟩

theorem Sound.ended (h : Sound hash source old issued s) : Ended hash source old s := by
  obtain ⟨new, h⟩ := h
  exact ⟨h.published, describes_of_framed h.progress h.framed⟩

/-- A safe batch. -/
theorem appendBatch_ensures (hio : io.AllSucceed) {batch : List CapturedRecord}
    (h : Appending hash source old issued s new batch) (hsafe : BatchSafe config (.of s) batch)
    (hne : batch ≠ []) :
    Holds (fun _ => Sound hash source old issued) (Ended hash source old)
      (appendBatch hash config io batch s) := by
  have hloop : Ensures (· = s) (appendLoop hash config io 0 batch)
      (fun _ s' => ∃ new', Appending hash source old issued s' new' [])
      (Ended hash source old) := by
    rintro _ rfl
    exact appendLoop_ensures hio batch 0 h hsafe
  have hcapture : Ensures (· = s) (appendAndCommit hash config io batch)
      (fun _ => Handed hash source old issued) (Ended hash source old) := by
    refine .bind hloop fun appended => ?_
    refine .weaken (E := fun _ => False) (.bind (handed_flush hio.flush) fun _ =>
      .bind (handed_modify fun _ => rfl) fun _ => .bind ?_ fun _ => handed_modify fun _ => rfl)
      (fun _ h => h) (fun _ _ h => h) fun _ h => h.elim
    refine .get_bind fun t ht => .weaken (P := Handed hash source old issued) ?_
      (fun _ h => h ▸ ht) (fun _ _ h => h) fun _ h => h
    exact .ite (fun _ => handed_commit hio) fun _ => .pure fun _ h => h
  have hrest : Ensures (Handed hash source old issued) (do copyBack; publish)
      (fun _ => Sound hash source old issued) (Ended hash source old) :=
    .weaken (.bind handed_copyBack fun _ => handed_publish) (fun _ h => h) (fun _ _ h => h)
      fun _ h => h.elim
  rw [appendBatch, if_neg hne]
  exact (hcapture.bind fun _ => hrest) s rfl

/-- Every step keeps the invariant, a batch when it is safe; and where the writer ends, all it has
published describes its file. -/
theorem perform_ensures {step : Step} (h : Sound hash source old issued s)
    (hsafe : StepSafe config s step) :
    Holds (fun _ => Sound hash source old issued) (Ended hash source old)
      (perform hash config step s) := by
  have quiet : ∀ {x : Op Bool}, Keeps (Sound hash source old issued) x →
      Holds (fun _ => Sound hash source old issued) (Ended hash source old) (x s) := fun hx =>
    hx.weaken (fun _ h => h) (fun _ _ h => h) (fun _ h => h.ended) s h
  have hpure : ∀ b : Bool, Keeps (Sound hash source old issued) (pure b : Op Bool) := fun _ =>
    .pure fun _ h => h
  cases step with
  | overdue io | timeout io =>
    exact quiet (.get_bind_keeps fun t =>
      .ite (fun _ => .bind (keeps_timedCommit io) fun _ => hpure false) fun _ => hpure false)
  | page io request => exact quiet (.bind (keeps_servePage io request) fun _ => hpure false)
  | message io message => exact quiet (keeps_handleNonRecord io message)
  | close io => exact quiet (.bind (keeps_closePath io) fun _ => hpure true)
  | batch io handovers =>
    obtain ⟨hp, hio, hbatch⟩ := hsafe
    obtain ⟨new, h⟩ := h
    obtain ⟨n, cpu, htake⟩ := forM_takeHandover_run handovers s
    rw [perform, run_bind_ok htake]
    by_cases hne : handovers.flatten = []
    · -- an empty batch does nothing
      simp only [appendBatch, hne, ↓reduceIte, List.append_nil]
      exact ⟨new, h.congr rfl rfl⟩
    · have happ : Appending hash source old issued { s with
          handed := s.handed ++ handovers.flatten
          current := { s.current with handovers := n, readerCpuNanos := cpu } } new
          handovers.flatten :=
        ⟨h.live, hp, h.source_eq, h.current.records_eq, h.current.watermark_eq,
          h.current.bytes_eq.trans h.written_eq.symm, ⟨s.handed, rfl, h.framed⟩, h.published⟩
      exact (appendBatch_ensures hio happ hbatch hne).bind fun _ _ hs => hs

/-! ### Runs -/

/-- The invariant of a life: a running writer is sound, and all it has published describes its
file. -/
def LifeSound (hash : List UInt8 → UInt32) (source : SourceId) (old : List RawRecord)
    (issued : List UInt64) : Life → Prop
  | .running s => Sound hash source old issued s
  | .returned s => ∀ p ∈ s.published, Describes hash source old p

theorem Describes.congr {q : SourceProgress} {handed : List CapturedRecord}
    (h : Describes hash source old ⟨p, file, handed⟩) (hc : counts q = counts p)
    (hd : q.discardedBytes = p.discardedBytes) : Describes hash source old ⟨q, file, handed⟩ := by
  obtain ⟨new, ht, hf, hb⟩ := h
  exact ⟨new, ht.congr hc, hf, hd.symm ▸ hb⟩

/-- One label keeps the invariant. -/
theorem lifeSound_step {life life' : Life} {label : Label}
    (h : LifeSound hash source old issued life) (hsafe : LabelSafe config life label)
    (hstep : (writer hash config).step life label life') :
    LifeSound hash source old issued life' := by
  simp only [writer, Machine.ofFun] at hstep
  cases life with
  | returned s => simp [advance] at hstep
  | running s =>
    cases label with
    | updateState state error | updateCompletionState state discardedBytes known =>
      obtain ⟨new, h⟩ := h
      rw [← Option.some.inj hstep]
      exact ⟨new, h.congr rfl rfl⟩
    | step step =>
      have hres := perform_ensures h hsafe
      rw [← Option.some.inj hstep]
      cases hp : perform hash config step s with
      | ok done s' =>
        rw [hp] at hres
        cases done with
        | false => exact hres
        | true =>
          obtain ⟨new, hs⟩ := hres
          exact hs.published
      | error e s' =>
        rw [hp] at hres
        exact describes_append hres.1 (hres.2.congr rfl rfl)

/-- The writer starts with a progress that counts its file. -/
theorem sound_spawn {j : Journal} {recovery : Recovery} {initial : SourceProgress}
    {fileCursor : Option FileCursorWriter} (hl : LiveInv hash source j old issued)
    (hb : j.buffer = []) (hp : j.poisoned = false) (hr : recovery.records = old.length)
    (hlast : recovery.lastSequence = old.getLast?.map (·.recordId.sequence))
    (hs : initial.sourceId = source) :
    Sound hash source old issued (spawnWriter config j recovery initial fileCursor) := by
  have hfile : j.file.bytes = encAll (frame hash) old := by
    have := hl.bytes_eq hp
    rwa [hb, List.append_nil] at this
  have hmark : (recovery.lastSequence.map fun q => (⟨j.sourceId, q⟩ : RecordId)) =
      old.getLast?.map (·.recordId) := by
    rw [hlast, hl.source_eq]
    cases hr : old.getLast? with
    | none => rfl
    | some r =>
      have hfit := hl.fits r (List.mem_of_getLast? hr)
      simp only [Option.map_some, Option.some.injEq]
      rw [← hfit.source_eq]
  have ht : Tallies hash (spawnWriter config j recovery initial fileCursor).current j.file.bytes
      (old ++ []) := by
    rw [List.append_nil]
    exact ⟨hfile, hr, hmark, rfl⟩
  have hframed : Framed source [] ([] : List CapturedRecord) := rfl
  exact ⟨[], {
    live := by rwa [List.append_nil]
    buffer_nil := hb
    written_eq := by rw [spawnWriter, hl.written_eq hp, hfile]
    source_eq := hs
    current := ht
    progress := ht
    framed := hframed
    published := fun p hp => List.mem_singleton.1 hp ▸ describes_of_framed ht hframed }⟩

/-- **Under the condition, every publication describes the journal file**, over whatever an
earlier history of the journal has left on disk. -/
theorem published_describes {events : List Event} {h : History} {disk disk' : JournalDisk}
    (hlives : (lives hash source).Run .fresh events h) (hdown : h.life = .down disk)
    {j : Journal} {recovery : Recovery}
    (hopen : Journal.open hash source false disk = .ok (j, recovery) disk')
    {generation : ℕ} {fileCursor : Option FileCursorWriter} {labels : List Label} {life : Life}
    (hrun : ((writer hash config).only (LabelSafe config)).Run
      (.running (spawnWriter config j recovery (.initial source generation) fileCursor))
      labels life) :
    ∃ old, j.file.bytes = encAll (frame hash) old ∧
      ∀ p ∈ life.state.published, Describes hash source old p := by
  obtain ⟨old, hfile, hb, hp, hlive, hrecords, hlast⟩ := open_live hlives hdown hopen
  refine ⟨old, hfile, ?_⟩
  have hlife : LifeSound hash source old h.issued life :=
    hrun.invariant_only (sound_spawn hlive hb hp hrecords hlast rfl)
      fun _ _ _ hs hc hst => lifeSound_step hs hc hst
  cases life with
  | returned s => exact hlife
  | running s =>
    obtain ⟨new, hs⟩ := hlife
    exact hs.published

/-- A captured line of three bytes. -/
def line : CapturedRecord :=
  { capturedAtUnixNanos := 0, stream := .file, bytes := [104, 105], delimiter := [10]
    acquisitionId := .filled 2, chunk := .complete, readerCpuNanos := 0 }

/-- A writer started over an empty journal. -/
def startedEmpty (config : RuntimeConfig) : WriterState :=
  spawnWriter config (empty ⟨.filled 1⟩) ⟨0, 0, 0, none⟩ (.initial ⟨.filled 1⟩ 1) none

/-- One line under the default configuration. -/
theorem published_describes_line : ∃ life,
    ((writer (fun _ => 0) .default).only (LabelSafe .default)).Run
      (.running (startedEmpty .default)) [.step (.batch {} [[line]])] life ∧
    life.state.current.records = 1 ∧
    ∃ old, (empty ⟨.filled 1⟩).file.bytes = encAll (frame fun _ => 0) old ∧
      ∀ p ∈ life.state.published, Describes (fun _ => 0) ⟨.filled 1⟩ old p := by
  have hsafe : LabelSafe .default (.running (startedEmpty .default))
      (.step (.batch {} [[line]])) := by
    refine ⟨rfl, ⟨fun _ => ⟨rfl, rfl⟩, ⟨rfl, rfl⟩, ⟨rfl, rfl, rfl⟩, rfl, rfl⟩, ?_⟩
    exact ⟨⟨by decide, by decide, fun _ => by decide⟩, trivial⟩
  have hrun : ((writer (fun _ => 0) .default).only (LabelSafe .default)).Run
      (.running (startedEmpty .default)) [.step (.batch {} [[line]])]
      (settle (perform (fun _ => 0) .default (.batch {} [[line]]) (startedEmpty .default))) :=
    .single ⟨hsafe, rfl⟩
  exact ⟨_, hrun, rfl, published_describes (.nil) rfl open_fresh hrun⟩

/-- A journal limited to a hundred bytes. -/
def limited : RuntimeConfig := { RuntimeConfig.default with storageLimitBytes := some 100 }

/-- **At the storage limit the writer publishes records it then drops**: of two lines the first
is counted, the second reaches the limit, and the file stays empty. -/
theorem storage_limit_drops_buffer : ¬ ∀ labels life,
    (writer (fun _ => 0) limited).Run (.running (startedEmpty limited)) labels life →
      ∀ p ∈ life.state.published, Describes (fun _ => 0) ⟨.filled 1⟩ [] p := by
  intro h
  set life := settle (perform (fun _ => 0) limited (.batch {} [[line, line]]) (startedEmpty limited))
  have hmem : ∃ p ∈ life.state.published, p.progress.records = 1 ∧ p.file = [] :=
    ⟨_, List.mem_cons_of_mem _ List.mem_cons_self, rfl, rfl⟩
  obtain ⟨p, hp, hrecords, hfile⟩ := hmem
  obtain ⟨new, ht, -⟩ := h [.step (.batch {} [[line, line]])] life (.single rfl) p hp
  have hlen := congrArg List.length (ht.file_eq.symm.trans hfile)
  have hle := length_le_encAll (frame_ne_nil fun _ => 0) ([] ++ new)
  rw [← ht.records_eq, hrecords, hlen] at hle
  simp at hle

end Lvu.Writer
