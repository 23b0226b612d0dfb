import Lvu.Ingest.Progress
import Lvu.Machine.Run
import Lvu.Machine.Outcome

/-!
# The source writer

One writer owns the journal of a source, its catalog and its file cursor, and publishes what it
has done (`lvu-ingest/src/writer.rs`).  Its functions are state transformers that may fail, under
the source's names; `StepAnswers` holds what the filesystem and the clock answer to one of them.

`perform` is one message or deadline, `turn` one turn of the loop of `run_writer`, and `writer`
the machine of its steps, with the supervisor's sends to the progress cell between them.
`turn_eq` and `runWriter_run` say that the loop runs on that machine.
-/

namespace Lvu.Writer

open Outcome

/-- What the outside answers to one step of the writer; by default every call succeeds and the
commit interval has not passed. -/
structure StepAnswers where
  /-- The journal's answers to the appends of a batch, by their place in it. -/
  append : ℕ → Answers := fun _ => {}
  /-- To the flush after a batch. -/
  flush : Answers := {}
  /-- To the sync or flush of a commit. -/
  commit : Answers := {}
  /-- To a page read. -/
  page : Answers := {}
  /-- To `cursor::store`. -/
  store : ReplaceAnswer := .ok
  /-- To writing a catalog line. -/
  catalog : Bool := true
  /-- `last.elapsed() >= interval`. -/
  late : Bool := false
  /-- The thread's processor time since the step began. -/
  cpuNanos : ℕ := 0

structure Commit where
  everyRecords : ℕ
  sinceSync : ℕ
  pendingCursor : Option DurableFileCursor

namespace Commit

def new (config : RuntimeConfig) : Commit :=
  { everyRecords := config.syncEveryRecords, sinceSync := 0, pendingCursor := none }

def appended (c : Commit) (records : ℕ) : Commit := { c with sinceSync := c.sinceSync + records }

def outstanding (c : Commit) : Bool := 0 < c.sinceSync ∨ c.pendingCursor.isSome

def due (c : Commit) (late : Bool) : Bool := c.outstanding ∧ (c.sinceSync ≥ c.everyRecords ∨ late)

/-- `Commit::defer_cursor`: a newer checkpoint supersedes one not written yet. -/
def deferCursor (c : Commit) (cursor : DurableFileCursor) : Commit :=
  { c with pendingCursor := some cursor }

end Commit

/-- A cursor file as it was written, and the journal behind it at that moment. -/
structure Stored where
  cursor : DurableFileCursor
  journal : Journal
  /-- An append, flush or sync of this writer had failed before. -/
  failed : Bool

/-- A progress as it was sent, and the journal file and the records handed over at that
moment. -/
structure Publication where
  progress : SourceProgress
  file : List UInt8
  handed : List CapturedRecord

/-- `WriterState`, with the disk it writes to and what has gone out of it. -/
structure WriterState where
  journal : Journal
  /-- The events this writer has recorded. -/
  catalog : List CatalogEvent
  current : SourceProgress
  /-- The cell subscribers and the supervisor see. -/
  progress : SourceProgress
  fileCursor : Option FileCursorWriter
  commit : Commit
  /-- The records handed to the writer so far. -/
  handed : List CapturedRecord
  /-- What the writer has published, in order. -/
  published : List Publication
  /-- The cursor files it has written, in order. -/
  stored : List Stored
  /-- An append, flush or sync of the journal has failed. -/
  journalFailed : Bool

variable (hash : List UInt8 → UInt32)

/-- A step of the writer. -/
abbrev Op (α : Type) := EStateM RuntimeError WriterState α

/-- An append, flush or sync of the journal. -/
def onJournal {α : Type} (op : EStateM JournalError Journal α) : Op α := fun s =>
  match op s.journal with
  | .ok a journal => .ok a { s with journal }
  | .error e journal => .error (.journal e) { s with journal, journalFailed := true }

/-- `Catalog::record`. -/
def record (io : StepAnswers) (event : CatalogEvent) : Op Unit := do
  if io.catalog then modify fun s => { s with catalog := s.catalog ++ [event] }
  else throw (.io "catalog")

/-- `WriterState::publish`. -/
def publish : Op Unit :=
  modify fun s => { s with
    progress := s.current
    published := s.published ++ [⟨s.current, s.journal.file.bytes, s.handed⟩] }

/-- `WriterState::note_cpu`. -/
def noteCpu (io : StepAnswers) (captureWork : Bool) : Op Unit :=
  modify fun s => { s with
    current := { s.current with
      writerCpuNanos := s.current.writerCpuNanos + if captureWork then io.cpuNanos else 0 } }

/-- `cursor::store`. -/
def store (io : StepAnswers) (cursor : DurableFileCursor) : Op Unit := do
  let written : WriterState → WriterState := fun s =>
    { s with stored := s.stored ++ [⟨cursor, s.journal, s.journalFailed || s.journal.poisoned⟩] }
  match io.store with
  | .ok => modify written
  | .failBefore => throw (.io "cursor")
  | .failAfter =>
    modify written
    throw (.io "cursor")

/-- The first half of `WriterState::commit`: with nothing appended since the last sync there is
nothing to make durable. -/
def makeDurable (io : StepAnswers) : Op Unit := do
  if 0 < (← get).commit.sinceSync then
    onJournal (Journal.syncData io.commit)
    modify fun s => { s with
      commit := { s.commit with sinceSync := 0 }
      current := { s.current with syncs := s.current.syncs + 1, syncedRecords := s.current.records } }
  else
    onJournal (Journal.flush io.commit)

/-- The second half: the cursor that was waiting is taken and stored. -/
def storePending (io : StepAnswers) : Op Unit := do
  match (← get).commit.pendingCursor with
  | none => return
  | some cursor =>
    modify fun s => { s with commit := { s.commit with pendingCursor := none } }
    store io cursor
    modify fun s => { s with
      fileCursor := s.fileCursor.map fun state => { state with durable := some cursor } }

/-- `WriterState::commit`. -/
def commit (io : StepAnswers) : Op Unit := do
  makeDurable io
  storePending io

/-- `WriterState::commit_if_due`. -/
def commitIfDue (io : StepAnswers) : Op Unit := do
  if (← get).commit.due io.late then commit io

/-- The bytes a record is estimated to take in the journal. -/
def estimated (record : CapturedRecord) : ℕ := record.bytes.length + record.delimiter.length + 80

/-- The storage limit, when `record` would exceed it. -/
def exceededLimit (config : RuntimeConfig) (journalBytes : ℕ) (record : CapturedRecord) :
    Option ℕ :=
  config.storageLimitBytes.filter fun limit => limit < journalBytes + estimated record

/-- The progress of a writer that has reached its storage limit with `rejected` left. -/
def blocked (limit : ℕ) (rejected : List CapturedRecord) (current : SourceProgress) :
    SourceProgress :=
  { current with
    state := .storageBlocked
    discardedBytes := current.discardedBytes + (rejected.flatMap (·.payload)).length
    discardedBytesKnown := false
    lastError := some s!"durable capture limit {limit} bytes reached" }

/-- The storage-limit branch of `append_batch`, with `appended` records of the batch appended and
`rejected` left. -/
def storageBlocked (io : StepAnswers) (limit appended : ℕ) (rejected : List CapturedRecord) :
    Op Unit := do
  modify fun s => { s with current := blocked limit rejected s.current }
  record io (.storageBlocked limit (← get).current.discardedBytes false)
  modify fun s => { s with commit := s.commit.appended appended }
  publish
  throw (.storageLimit limit)

/-- The loop of `append_batch`, with `appended` records of the batch appended. -/
def appendLoop (config : RuntimeConfig) (io : StepAnswers) (appended : ℕ) :
    List CapturedRecord → Op ℕ
  | [] => return appended
  | record :: records => do
    match exceededLimit config (← get).current.journalBytes record with
    | some limit =>
      storageBlocked io limit appended (record :: records)
      return appended
    | none =>
      let id ← onJournal (Journal.append hash (io.append appended)
        (record.intoRaw (← get).current.sourceId))
      modify fun s => { s with
        current := { s.current with
          records := s.current.records + 1
          highWatermark := some id
          journalBytes := s.journal.writtenBytes } }
      appendLoop config io (appended + 1) records

/-- The capture work of `append_batch`: append, flush, and commit if it is time. -/
def appendAndCommit (config : RuntimeConfig) (io : StepAnswers) (batch : List CapturedRecord) :
    Op Unit := do
  let appended ← appendLoop hash config io 0 batch
  onJournal (Journal.flush io.flush)
  modify fun s => { s with commit := s.commit.appended appended }
  commitIfDue io
  noteCpu io true

/-- A stop the supervisor has announced is taken over into the writer's own copy. -/
def copyBack : Op Unit :=
  modify fun s =>
    if s.progress.state = .stopping ∨ s.progress.state = .aborting then
      { s with current := { s.current with state := s.progress.state } }
    else s

def appendBatch (config : RuntimeConfig) (io : StepAnswers) (batch : List CapturedRecord) :
    Op Unit := do
  if batch = [] then return
  appendAndCommit hash config io batch
  copyBack
  publish

/-- A message to the writer.  Of the reply channel of `finish` only whether the caller still
listens matters. -/
inductive WriterMessage
  | event (event : CaptureEvent)
  | finish (state : RuntimeState) (discardedBytes : ℕ) (discardedBytesKnown replyClosed : Bool)

/-- A page request. -/
structure PageRequest where
  offset : ℕ
  maxRecords : ℕ
  maxBytes : ℕ

def finishWriter (io : StepAnswers) (requested : RuntimeState) (discardedBytes : ℕ)
    (discardedBytesKnown : Bool) : Op Unit := do
  commit io
  modify fun s => { s with
    current := { s.current with
      journalBytes := s.journal.writtenBytes
      state := requested
      discardedBytes, discardedBytesKnown } }
  match requested with
  | .stopped => record io .stopped
  | .aborted => record io (.aborted discardedBytes discardedBytesKnown)
  | .incomplete =>
    record io (.incomplete discardedBytes discardedBytesKnown "shutdown deadline exceeded")
  | _ => return

/-- The checkpoint branch of `handle_non_record`. -/
def checkpoint (acquisitionId : Uuid) (file : FileResumeCursor) (encoding : FileEncoding) :
    Op Unit := do
  match (← get).fileCursor with
  | none => throw (.io "file checkpoint received for non-file source")
  | some state =>
    -- the offset is taken now, so any later commit covers these records
    modify fun s => { s with
      commit := s.commit.deferCursor {
        schemaVersion := 1, sourceId := s.current.sourceId, path := state.sourcePath, acquisitionId
        journalOffset := s.journal.writtenBytes, file, encoding } }

/-- The event branch of `handle_non_record`. -/
def handleEvent (io : StepAnswers) : CaptureEvent → Op Unit
  | .boundary acquisitionId reason => do
    modify fun s => { s with current := { s.current with boundaries := s.current.boundaries + 1 } }
    record io (.boundary acquisitionId (boundaryName reason))
  | .commandExit acquisitionId code success => do
    modify fun s => { s with current := { s.current with exitCode := code } }
    record io (.commandExit acquisitionId code success)
  | .error acquisitionId message => do
    modify fun s => { s with current := { s.current with lastError := some message } }
    record io (.error acquisitionId message)
  | .fileCheckpoint acquisitionId file encoding => checkpoint acquisitionId file encoding
  | .stopped _ => return
  | .records _ => return

/-- The publication after a successful `finish`: the state in it is the supervisor's. -/
def publishDurable : Op Unit :=
  modify fun s =>
    let durable := { s.current with state := s.progress.state }
    { s with
      progress := durable
      published := s.published ++ [⟨durable, s.journal.file.bytes, s.handed⟩] }

/-- `handle_non_record`: whether the writer is done. -/
def handleNonRecord (io : StepAnswers) : WriterMessage → Op Bool
  | .event event => do
    handleEvent io event
    noteCpu io true
    publish
    return false
  | .finish state discardedBytes discardedBytesKnown replyClosed => do
    let requested := if replyClosed then .incomplete else state
    let result ← attempt (finishWriter io requested discardedBytes discardedBytesKnown)
    noteCpu io true
    match result with
    | .ok () =>
      publishDurable
      return true
    | .error _ => return false

/-- A read of the journal, whose failure is an answer. -/
def readJournal {α : Type} (op : EStateM JournalError Journal α) : Op (Except JournalError α) :=
  fun s => match op s.journal with
    | .ok answer journal => .ok (.ok answer) { s with journal }
    | .error e journal => .ok (.error e) { s with journal }

/-- `serve_page`: the answer goes to the reader, and an error does not end the writer. -/
def servePage (config : RuntimeConfig) (io : StepAnswers) (page : PageRequest) :
    Op (Except JournalError JournalPage) := do
  let answer ← readJournal (Journal.readPage hash io.page page.offset
    (min page.maxRecords config.maxPageRecords) (min page.maxBytes config.maxPageBytes))
  noteCpu io false
  return answer

/-- Taking the records of one capture event into a batch. -/
def takeHandover (records : List CapturedRecord) : Op Unit :=
  modify fun s => { s with
    handed := s.handed ++ records
    current := { s.current with
      handovers := s.current.handovers + 1
      readerCpuNanos := s.current.readerCpuNanos + (records.map (·.readerCpuNanos)).sum } }

/-- The loop of `append_records` over what is queued, with `batch` taken so far.  A message that
is not a record event ends the batch and is handled behind it. -/
def appendRecordsLoop (config : RuntimeConfig) (io behind : StepAnswers)
    (batch : List CapturedRecord) : List WriterMessage → Op Bool
  | [] => do
    appendBatch hash config io batch
    return false
  | message :: queued =>
    if batch.length < config.batchRecords then
      match message with
      | .event (.records records) => do
        takeHandover records
        appendRecordsLoop config io behind (batch ++ records) queued
      | other => do
        appendBatch hash config io batch
        handleNonRecord behind other
    else do
      appendBatch hash config io batch
      return false

/-- `append_records`: one handover and what is queued behind it. -/
def appendRecords (config : RuntimeConfig) (io behind : StepAnswers)
    (records : List CapturedRecord) (queued : List WriterMessage) : Op Bool := do
  takeHandover records
  appendRecordsLoop hash config io behind records queued

/-- A commit whose time has come: the overdue commit of the loop, or its deadline. -/
def timedCommit (io : StepAnswers) : Op Unit := do
  commit io
  noteCpu io true
  publish

/-- The end of `run_writer` when the channel closes without a `finish`. -/
def closePath (io : StepAnswers) : Op Unit := do
  commit io
  noteCpu io true
  modify fun s => { s with
    current := { s.current with
      state := .incomplete
      lastError := some "writer channel closed without completion" } }
  record io (.incomplete (← get).current.discardedBytes false "writer channel closed")
  publish

/-! ### The loop -/

/-- What the wait of a turn woke for; `queued` is what `try_recv` finds behind a record event. -/
inductive Wake
  | page (request : PageRequest)
  | event (message : WriterMessage) (queued : List WriterMessage)
  | timeout
  | eventsClosed

/-- One turn of the loop: what it wakes for, and the answers to the overdue commit, to the
message and to the one handled behind a batch. -/
structure Turn where
  wake : Wake
  overdue : StepAnswers := {}
  io : StepAnswers := {}
  behind : StepAnswers := {}

/-- One turn of the loop of `run_writer`: whether the writer is done. -/
def turn (config : RuntimeConfig) (t : Turn) : Op Bool := do
  -- an overdue commit outranks everything queued
  if (← get).commit.due t.overdue.late then timedCommit t.overdue
  match t.wake with
  | .page request =>
    let _ ← servePage hash config t.io request
    return false
  | .event (.event (.records records)) queued =>
    appendRecords hash config t.io t.behind records queued
  | .event message _ => handleNonRecord t.io message
  | .timeout =>
    if (← get).commit.outstanding then timedCommit t.io
    return false
  | .eventsClosed => return false

/-- `run_writer`, for the turns until its channel is closed and drained. -/
def runWriter (config : RuntimeConfig) (closing : StepAnswers) : List Turn → Op Unit
  | [] => closePath closing
  | t :: turns => do
    if ← turn hash config t then return
    runWriter config closing turns

/-! ### The machine -/

/-- What the loop does in one step. -/
inductive Step
  | overdue (io : StepAnswers)
  | timeout (io : StepAnswers)
  | page (io : StepAnswers) (request : PageRequest)
  /-- The record events taken into one batch. -/
  | batch (io : StepAnswers) (handovers : List (List CapturedRecord))
  | message (io : StepAnswers) (message : WriterMessage)
  | close (io : StepAnswers)

/-- One step: whether the writer is done. -/
def perform (config : RuntimeConfig) : Step → Op Bool
  | .overdue io => do
    if (← get).commit.due io.late then timedCommit io
    return false
  | .timeout io => do
    if (← get).commit.outstanding then timedCommit io
    return false
  | .page io request => do
    let _ ← servePage hash config io request
    return false
  | .batch io handovers => do
    handovers.forM takeHandover
    appendBatch hash config io handovers.flatten
    return false
  | .message io message => handleNonRecord io message
  | .close io => do
    closePath io
    return true

/-- Steps in order, until one says that the writer is done. -/
def performAll (config : RuntimeConfig) : List Step → Op Bool
  | [] => return false
  | step :: steps => do
    if ← perform hash config step then return true
    performAll config steps

/-- `update_state`: what the supervisor makes of the progress it has read. -/
def updateState (state : RuntimeState) (error : Option String) (value : SourceProgress) :
    SourceProgress :=
  { value with state, lastError := error.or value.lastError }

def updateCompletionState (state : RuntimeState) (discardedBytes : ℕ)
    (discardedBytesKnown : Bool) (value : SourceProgress) : SourceProgress :=
  { value with state, discardedBytes, discardedBytesKnown }

/-- What a failed writer publishes last: the progress in the cell, as an error. -/
def fail (error : RuntimeError) (s : WriterState) : WriterState :=
  let failed := { s.progress with
    state := if s.progress.state = .storageBlocked then .storageBlocked else .error
    lastError := some error.message }
  { s with
    progress := failed
    published := s.published ++ [⟨failed, s.journal.file.bytes, s.handed⟩] }

/-- A writer in its loop, or back from it with its journal dropped. -/
inductive Life
  | running (s : WriterState)
  | returned (s : WriterState)

/-- The state of a writer, running or not. -/
def Life.state : Life → WriterState
  | .running s => s
  | .returned s => s

/-- What can happen: a step of the writer, or a send of the supervisor. -/
inductive Label
  | step (step : Step)
  | updateState (state : RuntimeState) (error : Option String)
  | updateCompletionState (state : RuntimeState) (discardedBytes : ℕ) (discardedBytesKnown : Bool)

/-- Where a step that ended so leaves the writer. -/
def settle : EStateM.Result RuntimeError WriterState Bool → Life
  | .ok false s => .running s
  | .ok true s => .returned s
  | .error e s => .returned (fail e s)

/-- One label, in a running writer. -/
def advance (config : RuntimeConfig) : Life → Label → Option Life
  | .returned _, _ => none
  | .running s, .step step => some (settle (perform hash config step s))
  | .running s, .updateState state error =>
    some (.running { s with progress := updateState state error s.progress })
  | .running s, .updateCompletionState state discardedBytes known =>
    some (.running { s with
      progress := updateCompletionState state discardedBytes known s.progress })

/-- The machine of one writer. -/
def writer (config : RuntimeConfig) : Machine Life Label := .ofFun (advance hash config)

/-- `spawn_writer`: the writer over an opened journal.  `initial` is the progress of the start,
and `fileCursor` the recovered cursor of a file source. -/
def spawnWriter (config : RuntimeConfig) (journal : Journal) (recovery : Recovery)
    (initial : SourceProgress) (fileCursor : Option FileCursorWriter) : WriterState :=
  let current := { initial with
    records := recovery.records
    highWatermark := recovery.lastSequence.map fun sequence => ⟨journal.sourceId, sequence⟩
    journalBytes := journal.file.bytes.length
    syncedRecords := recovery.records
    state := .running }
  { journal, catalog := [.running], current, progress := current, fileCursor
    commit := .new config, handed := []
    published := [⟨current, journal.file.bytes, []⟩], stored := [], journalFailed := false }

/-! ### The loop is the machine -/

/-- The steps of `append_records` when `handovers` have been taken. -/
def drainSteps (config : RuntimeConfig) (io behind : StepAnswers)
    (handovers : List (List CapturedRecord)) : List WriterMessage → List Step
  | [] => [.batch io handovers]
  | message :: queued =>
    if handovers.flatten.length < config.batchRecords then
      match message with
      | .event (.records records) =>
        drainSteps config io behind (handovers ++ [records]) queued
      | other => [.batch io handovers, .message behind other]
    else [.batch io handovers]

/-- The steps of one turn. -/
def Turn.steps (config : RuntimeConfig) (t : Turn) : List Step :=
  .overdue t.overdue :: match t.wake with
    | .page request => [.page t.io request]
    | .event (.event (.records records)) queued => drainSteps config t.io t.behind [records] queued
    | .event message _ => [.message t.io message]
    | .timeout => [.timeout t.io]
    | .eventsClosed => []

variable {hash} {config : RuntimeConfig}

theorem bind_flag (x : Op Bool) :
    (do if ← x then return true
        return false) = x := by
  have hid : ∀ b : Bool, (if b then pure true else pure false : Op Bool) = pure b := by
    intro b
    cases b <;> rfl
  simp only [hid, bind_pure]

theorem performAll_singleton (step : Step) :
    performAll hash config [step] = perform hash config step :=
  bind_flag _

theorem forM_takeHandover (handovers : List (List CapturedRecord)) (records : List CapturedRecord) :
    (handovers ++ [records]).forM takeHandover = (do
      handovers.forM takeHandover
      takeHandover records) := by
  induction handovers with
  | nil => simp [List.forM_eq_forM]
  | cons h handovers ih =>
    simp only [List.forM_eq_forM] at ih
    simp [List.forM_eq_forM, ih]

/-- Taking record events moves only the counters of handovers. -/
theorem forM_takeHandover_run (handovers : List (List CapturedRecord)) (s : WriterState) :
    ∃ n cpu, handovers.forM takeHandover s = .ok () { s with
      handed := s.handed ++ handovers.flatten
      current := { s.current with handovers := n, readerCpuNanos := cpu } } := by
  induction handovers generalizing s with
  | nil => exact ⟨s.current.handovers, s.current.readerCpuNanos, by simp [List.forM_eq_forM]⟩
  | cons records handovers ih =>
    simp only [List.forM_eq_forM] at ih
    obtain ⟨n, cpu, h⟩ := ih { s with
      handed := s.handed ++ records
      current := { s.current with
        handovers := s.current.handovers + 1
        readerCpuNanos := s.current.readerCpuNanos + (records.map (·.readerCpuNanos)).sum } }
    refine ⟨n, cpu, ?_⟩
    rw [List.forM_eq_forM, List.forM_cons, takeHandover, run_modify_bind, h, List.append_assoc]
    rfl

theorem performAll_batch (io behind : StepAnswers) (handovers : List (List CapturedRecord))
    (message : WriterMessage) :
    performAll hash config [.batch io handovers, .message behind message] = (do
      handovers.forM takeHandover
      appendBatch hash config io handovers.flatten
      handleNonRecord behind message) := by
  rw [performAll, performAll_singleton]
  simp [perform]

/-- `append_records` takes its steps: the record events it takes make one batch. -/
theorem appendRecordsLoop_eq (hash : List UInt8 → UInt32) (config : RuntimeConfig) (io behind : StepAnswers)
    (handovers : List (List CapturedRecord)) (queued : List WriterMessage) :
    (do handovers.forM takeHandover
        appendRecordsLoop hash config io behind handovers.flatten queued) =
      performAll hash config (drainSteps config io behind handovers queued) := by
  induction queued generalizing handovers with
  | nil => rw [drainSteps, performAll_singleton, appendRecordsLoop, perform]
  | cons message queued ih =>
    by_cases hfull : handovers.flatten.length < config.batchRecords
    · -- a record event joins the batch, any other message ends it
      cases message with
      | event event =>
        cases event with
        | records records =>
          simp only [appendRecordsLoop, drainSteps, hfull, ↓reduceIte]
          rw [← ih, forM_takeHandover, List.flatten_append]
          simp
        | _ => simp only [appendRecordsLoop, drainSteps, hfull, ↓reduceIte, performAll_batch]
      | finish state discardedBytes known replyClosed =>
        simp only [appendRecordsLoop, drainSteps, hfull, ↓reduceIte, performAll_batch]
    · simp only [appendRecordsLoop, drainSteps, hfull, ↓reduceIte, performAll_singleton, perform]

/-- **A turn of the loop is its steps.** -/
theorem turn_eq (t : Turn) : turn hash config t = performAll hash config (t.steps config) := by
  obtain ⟨wake, overdue, io, behind⟩ := t
  have hfirst : ∀ steps, performAll hash config (.overdue overdue :: steps) = (do
      if (← get).commit.due overdue.late then timedCommit overdue
      performAll hash config steps) := by
    intro steps
    simp only [performAll, perform, bind_assoc]
    refine bind_congr fun s => ?_
    split_ifs <;> simp
  cases wake with
  | page request | timeout =>
    rw [Turn.steps, hfirst, performAll_singleton]
    rfl
  | eventsClosed =>
    rw [Turn.steps, hfirst]
    rfl
  | event message queued =>
    cases message with
    | finish state discardedBytes known replyClosed =>
      rw [Turn.steps, hfirst, performAll_singleton]
      rfl
    | event event =>
      cases event with
      | records records =>
        have hdrain := appendRecordsLoop_eq hash config io behind [records] queued
        simp only [Turn.steps]
        rw [hfirst, ← hdrain]
        simp [turn, appendRecords]
      | _ =>
        rw [Turn.steps, hfirst, performAll_singleton]
        rfl

/-! ### Runs of the loop -/

/-- Where a sequence of steps leaves the writer is where a run of the machine does. -/
theorem performAll_run (hash : List UInt8 → UInt32) (config : RuntimeConfig) (steps : List Step)
    (s : WriterState) :
    ∃ labels, (writer hash config).Run (.running s) labels
      (settle (performAll hash config steps s)) := by
  induction steps generalizing s with
  | nil => exact ⟨[], .nil⟩
  | cons step steps ih =>
    have hstep : (writer hash config).Run (.running s) [.step step]
        (settle (perform hash config step s)) := .single rfl
    rw [performAll]
    cases h : perform hash config step s with
    | error e s' =>
      rw [h] at hstep
      exact ⟨_, by rwa [run_bind_error h]⟩
    | ok done s' =>
      rw [h] at hstep
      rw [run_bind_ok h]
      cases done with
      | true => exact ⟨_, hstep⟩
      | false =>
        obtain ⟨labels, hrest⟩ := ih s'
        exact ⟨_, hstep.append hrest⟩

/-- **The loop of `run_writer` runs on the machine**: however it ends, the writer is where a run
of the machine leaves it. -/
theorem runWriter_run (closing : StepAnswers) (turns : List Turn) (s : WriterState) :
    ∃ labels, (writer hash config).Run (.running s) labels
      (settle ((do runWriter hash config closing turns
                   return true) s)) := by
  induction turns generalizing s with
  | nil =>
    refine ⟨[.step (.close closing)], .single ?_⟩
    rfl
  | cons t turns ih =>
    obtain ⟨labels, hturn⟩ := performAll_run hash config (t.steps config) s
    rw [← turn_eq] at hturn
    rw [runWriter]
    cases h : turn hash config t s with
    | error e s' =>
      rw [h] at hturn
      exact ⟨labels, by rwa [run_bind_error (run_bind_error h)]⟩
    | ok done s' =>
      rw [h] at hturn
      rw [bind_assoc, run_bind_ok h]
      cases done with
      | true => exact ⟨labels, hturn⟩
      | false =>
        obtain ⟨rest, hrest⟩ := ih s'
        exact ⟨_, hturn.append hrest⟩

end Lvu.Writer
