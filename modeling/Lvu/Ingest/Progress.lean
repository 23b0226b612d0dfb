import Lvu.Core.Capture
import Lvu.Core.Journal

/-!
# The writer's data

What one source's writer is configured with, what it publishes and what it stores
(`lvu-ingest/src/manager.rs`, `catalog.rs`, `cursor.rs`).  Counters are natural numbers: they
count records and bytes that exist.
-/

namespace Lvu

/-- `RuntimeConfig`, as far as the writer reads it.  The interval of the group commit is not a
number here: whether it has passed is an answer from outside. -/
structure RuntimeConfig where
  batchRecords : ℕ
  syncEveryRecords : ℕ
  maxPageRecords : ℕ
  maxPageBytes : ℕ
  storageLimitBytes : Option ℕ

def RuntimeConfig.default : RuntimeConfig :=
  { batchRecords := 64, syncEveryRecords := 4096, maxPageRecords := 8192
    maxPageBytes := 4 * 1024 * 1024, storageLimitBytes := none }

/-- `RuntimeConfig::validate`. -/
def RuntimeConfig.Valid (config : RuntimeConfig) : Prop :=
  0 < config.batchRecords ∧ 0 < config.syncEveryRecords ∧ 0 < config.maxPageRecords ∧
    0 < config.maxPageBytes

inductive RuntimeState
  | starting | running | stopping | stopped | aborting | aborted | incomplete | storageBlocked
  | error
deriving DecidableEq

structure SourceProgress where
  sourceId : SourceId
  generation : ℕ
  state : RuntimeState
  records : ℕ
  highWatermark : Option RecordId
  journalBytes : ℕ
  syncedRecords : ℕ
  syncs : ℕ
  handovers : ℕ
  writerCpuNanos : ℕ
  readerCpuNanos : ℕ
  boundaries : ℕ
  exitCode : Option Int
  discardedBytes : ℕ
  discardedBytesKnown : Bool
  lastError : Option String

/-- The progress a start begins with. -/
def SourceProgress.initial (sourceId : SourceId) (generation : ℕ) : SourceProgress :=
  { sourceId, generation, state := .starting, records := 0, highWatermark := none, journalBytes := 0
    syncedRecords := 0, syncs := 0, handovers := 0, writerCpuNanos := 0, readerCpuNanos := 0
    boundaries := 0, exitCode := none, discardedBytes := 0, discardedBytesKnown := true
    lastError := none }

/-- `RuntimeError`, as far as the writer reports it. -/
inductive RuntimeError
  | storageLimit (limit : ℕ)
  | closed
  | io (message : String)
  | journal (error : JournalError)
deriving DecidableEq

/-- The text of an I/O error of a kind. -/
def IoErrorKind.message : IoErrorKind → String
  | .unexpectedEof => "unexpected end of file"
  | .invalidData => "invalid data"
  | .other => "other error"

/-- The text a journal error is shown as. -/
def JournalError.message : JournalError → String
  | .io kind => "journal I/O: " ++ kind.message
  | .corrupt offset reason => s!"committed journal corruption at byte {offset}: {reason}"
  | .alreadyOpen => "journal already has an owning writer"
  | .poisoned => "journal writer is poisoned; reopen to recover its incomplete tail"
  | .wrongSource => "record source does not match journal"
  | .frameTooLarge => "record payload exceeds journal frame limit"

/-- The text a runtime error is shown as. -/
def RuntimeError.message : RuntimeError → String
  | .storageLimit limit => s!"durable capture storage limit {limit} bytes reached"
  | .closed => "source runtime task closed"
  | .io message => "I/O: " ++ message
  | .journal error => "journal: " ++ error.message

inductive CatalogEvent
  | starting (generation : ℕ)
  | running
  | startFailed (message : String)
  | boundary (acquisitionId : Uuid) (reason : String)
  | commandExit (acquisitionId : Uuid) (code : Option Int) (success : Bool)
  | error (acquisitionId : Uuid) (message : String)
  | storageBlocked (limitBytes discardedBufferedBytes : ℕ) (discardedBytesKnown : Bool)
  | stopped
  | aborted (discardedBufferedBytes : ℕ) (discardedBytesKnown : Bool)
  | incomplete (discardedBufferedBytes : ℕ) (discardedBytesKnown : Bool) (reason : String)

def boundaryName : BoundaryReason → String
  | .started => "started"
  | .rotated => "rotated"
  | .truncated => "truncated"

structure DurableFileCursor where
  schemaVersion : ℕ
  sourceId : SourceId
  path : String
  acquisitionId : Uuid
  journalOffset : ℕ
  file : FileResumeCursor
  encoding : FileEncoding
deriving DecidableEq

/-- `FileCursorWriter`.  There is one cursor file for each source, so its path is not kept. -/
structure FileCursorWriter where
  sourcePath : String
  durable : Option DurableFileCursor

end Lvu
