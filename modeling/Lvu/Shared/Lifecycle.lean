import Lvu.Machine.Run
import Lvu.Shared.Admission
import Lvu.Shared.Sources

/-!
# Starts, stops and restarts

The worker's lifecycle operations (`lvu-shared/src/worker.rs`) run side by side: every request of
a window waits for a settlement that was spawned for it, or for the one of another request with
the same admission key, and may be dropped while it waits; the settlements take turns under one
mutex; the manager starts captures in tasks of its own (`lvu-ingest/src/manager.rs`); captures end
by themselves; and the worker shuts down in between.

A step of the machine is what runs between two points at which another thread can see the state:
a section under a lock, or an answer from the file system, the manager or a capture.  These
answers are part of the step.
-/

namespace Lvu.Shared.Lifecycle

/-! ### Requests and what they are told -/

inductive StartedOutcome
  | started (sourceId : SourceId) (warning : Option String)
  | stdinBound (sourceId : SourceId) (warning : Option String)
  | present (liveId : SourceId)
deriving DecidableEq

/-- The source an outcome names. -/
def StartedOutcome.sourceId : StartedOutcome → SourceId
  | .started sourceId _ => sourceId
  | .stdinBound sourceId _ => sourceId
  | .present liveId => liveId

inductive StartSettlement
  | settled (outcome : StartedOutcome)
  | failed (reason : String)
  | abandoned
deriving DecidableEq

/-- A request of a window. -/
inductive Request
  | start (definition : SourceDefinition)
  | stop (sourceId : SourceId)
  | restart (sourceId : SourceId)
  | noteSessionMember (definition : SourceDefinition)
deriving DecidableEq

/-- What a request that succeeds is told. -/
inductive Reply
  | outcome (outcome : StartedOutcome)
  | stopped
  | sessionNoted
deriving DecidableEq

/-- A failure's text, or what was asked for. -/
abbrev Result (α : Type) := Except String α

/-- Where a request stands. -/
inductive CallStage
  | arrived
  /-- `request_start` at the head of its loop. -/
  | entering (definition : SourceDefinition) (key : AdmissionKey)
  /-- Admitted; the registry of starts is to be asked. -/
  | electing (definition : SourceDefinition) (key : AdmissionKey) (permit : ℕ)
  /-- The settlement is to be spawned; the permit goes with it. -/
  | spawning (work : Option (SourceDefinition × AdmissionKey × ℕ)) (permit : ℕ)
  /-- Its abort handle is to be attached. -/
  | attaching (work : Option (SourceDefinition × AdmissionKey × ℕ)) (permit task : ℕ)
  /-- `wait_start_settlement`; a joiner has kept its permit. -/
  | waiting (definition : SourceDefinition) (key : AdmissionKey) (share : ℕ) (permit : Option ℕ)
  /-- Waits for what its settlement sends. -/
  | receiving (task : ℕ)
  /-- The settlement it has seen is of no use; its reservation is to be removed. -/
  | retiring (definition : SourceDefinition) (key : AdmissionKey) (share : ℕ) (permit : Option ℕ)
  /-- A joiner leaves, to return or to start over. -/
  | dropping (permit : ℕ) (next : (SourceDefinition × AdmissionKey) ⊕ Result Reply)
  /-- `note_session_member` before the session's lock. -/
  | noting (definition : SourceDefinition)
  /-- Its manifest write, after the lock. -/
  | writing (snapshot : List SourceDefinition) (version : ℕ)
  | done (reply : Result Reply)
  /-- The dispatch deadline passed while it waited. -/
  | dropped
deriving DecidableEq

/-- A request in flight, or past. -/
structure Call where
  request : Request
  stage : CallStage
deriving DecidableEq

/-! ### Settlements -/

/-- What a settlement was spawned for. -/
inductive Work
  | leader (key : AdmissionKey) (share : ℕ) (definition : SourceDefinition)
  | keyless (definition : SourceDefinition)
  | stop (sourceId : SourceId)
  | restart (sourceId : SourceId)
deriving DecidableEq

/-- Where a settlement stands. -/
inductive Stage
  /-- Not polled yet. -/
  | spawned
  /-- Waits for the lifecycle mutex. -/
  | queued
  /-- Holds it; the permit is to begin. -/
  | held
  /-- `settle_start_path`. -/
  | deciding (definition : SourceDefinition)
  /-- `present_or_restart`, and its lookup of the definition. -/
  | presenting (liveId : SourceId)
  | recalling (liveId : SourceId)
  /-- `restart_inner`. -/
  | restarting (sourceId : SourceId)
  /-- `restart_original`, and the stop it awaits. -/
  | checking (definition : SourceDefinition)
  | stopping (definition : SourceDefinition)
  /-- `start_admitted`, the manager's start it awaits, and `publish_started`. -/
  | starting (definition : SourceDefinition)
  | launching (definition : SourceDefinition) (launch : ℕ)
  | publishing (definition : SourceDefinition)
  | storing (definition : SourceDefinition) (snapshot : List SourceDefinition) (version : ℕ)
  /-- `stop_inner`, the stop it awaits, and `note_session_stopped`. -/
  | unbinding (sourceId : SourceId)
  | stopChecking (sourceId : SourceId)
  | stopAwaiting (sourceId : SourceId)
  | forgetting (sourceId : SourceId)
  | forgotten (sourceId : SourceId) (snapshot : List SourceDefinition) (version : ℕ)
  /-- The outcome is to be sent. -/
  | settled (outcome : Result StartedOutcome)
  | stopSettled (outcome : Result Unit)
  /-- A leader's reservation is to be released. -/
  | announced
  /-- The lifecycle mutex is to be released, then the permit. -/
  | releasing
  | leaving
  | finished
deriving DecidableEq

/-- The settlement is at a point where it can be torn down. -/
def Stage.awaits : Stage → Bool
  | .spawned | .queued | .deciding _ | .recalling _ | .restarting _ | .stopping _ | .launching _ _
  | .publishing _ | .unbinding _ | .stopAwaiting _ | .forgetting _ => true
  | .held | .presenting _ | .checking _ | .starting _ | .storing _ _ _ | .stopChecking _
  | .forgotten _ _ _ | .settled _ | .stopSettled _ | .announced | .releasing | .leaving
  | .finished => false

/-- A detached settlement. -/
structure Task where
  /-- The request it was spawned for. -/
  call : ℕ
  work : Work
  permit : ℕ
  stage : Stage
  /-- Its permit has begun. -/
  begun : Bool
  /-- Its abort handle was used. -/
  cancelled : Bool
  /-- It was torn down. -/
  torn : Bool
  /-- What it has sent to the request that waits for it. -/
  sent : Option (Result Reply)

/-! ### The manager -/

/-- A source handle: what it captures, and whether its progress is terminal. -/
structure Capture where
  definition : SourceDefinition
  terminal : Bool

/-- Where a start of the manager stands. -/
inductive LaunchStage
  /-- `start_inner` up to its disk work. -/
  | preparing
  /-- Before the admission barrier and the acquisition. -/
  | acquiring
  /-- Captures; the barrier is to be looked at again. -/
  | acquired
  /-- Captures; its handle is to be put into the map. -/
  | checked
  /-- Captures from the map; the start is to be answered. -/
  | installed
  | finished (result : Result Unit)
deriving DecidableEq

/-- A start of the manager, for a settlement. -/
structure Launch where
  definition : SourceDefinition
  task : ℕ
  stage : LaunchStage

/-- The source is in the manager's set of starting sources. -/
def Launch.pending (l : Launch) : Bool :=
  match l.stage with
  | .finished _ => false
  | .preparing | .acquiring | .acquired | .checked | .installed => true

/-! ### Shutdown -/

/-- What shutdown says of one source. -/
abbrev Report := SourceId × Result String

/-- Where `WorkerService::shutdown` stands. -/
inductive Shutdown
  | idle
  | flagged
  /-- Its first bounded wait. -/
  | draining
  /-- The wait has expired; `abort_settlements`, and the handles it goes through. -/
  | aborting
  | cancelling (failed : List SourceId) (handles : List ℕ)
  /-- The second wait, and what is done when it expires too. -/
  | redraining (failed : List SourceId)
  | expired (failed : List SourceId)
  | unbinding (failed : List SourceId)
  /-- `SourceManager::shutdown`: its flag, its bounded wait, its snapshot, the starts it gave up
  on, and the stops. -/
  | closing (failed : List SourceId)
  | waiting (failed : List SourceId)
  | collecting (failed : List SourceId) (startsFinished : Bool)
  | listing (failed : List SourceId) (handles : List SourceId)
  | stopping (failed : List SourceId) (handles : List SourceId) (reports : List Report)
  | returned (reports : List Report)
deriving DecidableEq

/-! ### The worker -/

/-- `WorkerService`, its tasks, its manager and the files they share. -/
structure World where
  gate : LifecycleState
  /-- The registry of starts, and the settlements its entries share. -/
  starting : Dict AdmissionKey ℕ
  shares : List (Option StartSettlement)
  calls : List Call
  tasks : List Task
  /-- The settlement that holds the lifecycle mutex. -/
  lifecycle : Option ℕ
  definitions : Dict SourceId SourceDefinition
  session : List SourceDefinition
  /-- The settlement that holds the session's lock over its write. -/
  sessionLock : Option ℕ
  /-- How many snapshots of the session were taken, and the writes: which snapshot, and whether it
  reached the file. -/
  version : ℕ
  writes : List (ℕ × Bool)
  /-- `session.json`. -/
  manifest : List SourceDefinition
  stdinBindings : List SourceId
  /-- The manager: its map, its starts, the metadata files and its flag. -/
  active : Dict SourceId Capture
  launches : List Launch
  metadata : Dict SourceId SourceDefinition
  managerClosed : Bool
  shutdown : Shutdown

namespace World

/-- `WorkerService::open`, with the session that was read from the manifest. -/
def opened (session : List SourceDefinition) (metadata : Dict SourceId SourceDefinition) : World where
  gate := .new
  starting := ∅
  shares := []
  calls := []
  tasks := []
  lifecycle := none
  definitions := ∅
  session := session
  sessionLock := none
  version := 0
  writes := [(0, true)]
  manifest := session
  stdinBindings := []
  active := ∅
  launches := []
  metadata := metadata
  managerClosed := false
  shutdown := .idle

def isLive (w : World) (id : SourceId) : Bool :=
  match w.active.lookup id with
  | some capture => !capture.terminal
  | none => false

/-- `SourceManager::start` up to its task: why it would refuse. -/
def startRefusal (w : World) (d : SourceDefinition) : Option String :=
  if w.managerClosed then some "source runtime task closed"
  else if d.schemaVersion ≠ 1 then some "source definition schema is unsupported"
  else if w.isLive d.id then some "source is already running"
  else if w.launches.any (fun l => l.pending && l.definition.id == d.id) then
    some "source is already running"
  else none

/-- `next_generation` and the check after it: why the disk work of a start would refuse. -/
def metadataRefusal (w : World) (d : SourceDefinition) : Option String :=
  match w.metadata.lookup d.id with
  | some known =>
    if known ≠ d then some "I/O: persisted source definition does not match the submitted definition"
    else if d.isStdin then
      some "stdin source was already captured; create a new SourceId for a new stdin session"
    else none
  | none => none

/-- The definitions of the sources the manager is asked for by name. -/
def known (w : World) : List SourceDefinition := w.definitions.entries.map (·.2)

/-- A request written back. -/
def call (w : World) (c : ℕ) (call : Call) (stage : CallStage) : World :=
  { w with calls := w.calls.set c { call with stage } }

/-- A settlement written back. -/
def goto (w : World) (t : ℕ) (task : Task) (stage : Stage) : World :=
  { w with tasks := w.tasks.set t { task with stage } }

/-- A start of the manager written back. -/
def launch (w : World) (l : ℕ) (launch : Launch) (stage : LaunchStage) : World :=
  { w with launches := w.launches.set l { launch with stage } }

/-- A snapshot of the session reaches the file, or does not. -/
def write (w : World) (snapshot : List SourceDefinition) (version : ℕ) : Result Unit → World
  | .ok _ => { w with manifest := snapshot, writes := w.writes ++ [(version, true)] }
  | .error _ => { w with writes := w.writes ++ [(version, false)] }

end World

/-! ### Resuming the session -/

section
-- `std::fs::canonicalize`
variable (canonicalize : Path → Option Path)

/-- `resume_session`, one source of it; `disk` and `capture` are what the disk work and the
acquisition of its restore come to. -/
def resumeOne (w : World) (definition : SourceDefinition) (disk capture : Result Unit) : World :=
  match validateStartBoundary definition with
  | .error _ => w
  | .ok () =>
    let d := canonicalizeDefinition canonicalize definition
    match d.acquisition with
    | .file _ _ =>
      if w.startRefusal d = none ∧ w.metadataRefusal d = none then
        match disk, capture with
        | .error _, _ => w
        | .ok (), .error _ => { w with metadata := w.metadata.insert d.id d }
        | .ok (), .ok () =>
          { w with
            metadata := w.metadata.insert d.id d
            active := w.active.insert d.id ⟨d, false⟩
            definitions := w.definitions.insert d.id d }
      else w
    | .stdin | .command _ | .http _ _ _ _ _ => w

def resumeSession : World → List (SourceDefinition × Result Unit × Result Unit) → World
  | w, [] => w
  | w, (definition, disk, capture) :: rest =>
    resumeSession (resumeOne canonicalize w definition disk capture) rest

/-- A worker that serves: its session is the one it read, resumed as far as that went. -/
def Serves (w : World) : Prop :=
  ∃ (session : List SourceDefinition) (metadata : Dict SourceId SourceDefinition)
    (answers : List (Result Unit × Result Unit)), answers.length = session.length ∧
    w = resumeSession canonicalize (.opened session metadata) (session.zip answers)

/-- No two sources of the session have one admission key. -/
def DistinctKeys (session : List SourceDefinition) : Prop :=
  (session.filterMap fun d => keyOf canonicalize (canonicalizeDefinition canonicalize d)).Nodup

end

/-! ### What settlements do -/

/-- An answer from outside: of a stop, whether it is complete; of a write or of disk work, that it
succeeded; and the order in which a map was walked. -/
inductive Answer
  | none
  | stop (report : Result Bool)
  | io (result : Result Unit)
  | live (definitions : List SourceDefinition)
  | ended (terminal : Bool)
deriving DecidableEq

section
-- `std::fs::canonicalize`, and why the workspace store is unavailable, if it is
variable (canonicalize : Path → Option Path) (storeUnavailable : Option String)

/-- The warning of a start whose session could not be stored. -/
def unavailableWarning (reason : String) : String :=
  s!"workspace store unavailable ({reason}); capture started but the session manifest was not rewritten — durable bytes unchanged"

/-- The refusal of a stop that could not be stored. -/
def unavailableStop (reason : String) : String :=
  s!"workspace store unavailable ({reason}); refusing to rewrite the session manifest — stop refused, capture still running, durable bytes unchanged"

/-- `start_admitted`'s text for a refusal of the manager. -/
def startText (d : SourceDefinition) (error : String) : String :=
  if d.isStdin then s!"start stdin: {error}" else s!"start {d.name}: {error}"

/-- What `start_admitted` returns. -/
def startOutcome (d : SourceDefinition) (warning : Option String) : StartedOutcome :=
  if d.isStdin then .stdinBound d.id warning else .started d.id warning

/-- The first stage of a settlement that has begun. -/
def firstStage : Work → Stage
  | .leader _ _ definition => .deciding definition
  | .keyless definition => .starting definition
  | .stop sourceId => .unbinding sourceId
  | .restart sourceId => .restarting sourceId

/-- The stage of a settlement whose permit could not begin. -/
def refusedStage (reason : String) : Work → Stage
  | .leader _ _ _ | .keyless _ | .restart _ => .settled (.error reason)
  | .stop _ => .stopSettled (.error reason)

/-- `publish_started`, up to its write. -/
def publishStarted (w : World) (t : ℕ) (task : Task) (d : SourceDefinition) : World :=
  let session := if w.session.any (·.id == d.id) then w.session else w.session ++ [d]
  let w := { w with
    stdinBindings := if d.isStdin then d.id :: w.stdinBindings.erase d.id else w.stdinBindings
    definitions := w.definitions.insert d.id d
    session
    version := w.version + 1 }
  match storeUnavailable with
  | some reason => w.goto t task (.settled (.ok (startOutcome d (some (unavailableWarning reason)))))
  | none => { w with sessionLock := some t }.goto t task (.storing d session w.version)

/-- The next step of a settlement. -/
def taskStep (w : World) (t : ℕ) (task : Task) (answer : Answer) : Option World :=
  match task.stage, answer with
  | .spawned, .none => some (w.goto t task .queued)
  | .queued, .none =>
    if w.lifecycle = none then some ({ w with lifecycle := some t }.goto t task .held) else none
  | .held, .none =>
    match w.gate.beginPermit task.permit with
    | .error reason => some (w.goto t task (refusedStage reason task.work))
    | .ok gate => some ({ w with gate }.goto t { task with begun := true } (firstStage task.work))
  | .deciding d, .live live =>
    if live.Perm w.known then
      match admitKnown canonicalize d live with
      | .refuse reason => some (w.goto t task (.settled (.error reason)))
      | .present liveId => some (w.goto t task (.presenting liveId))
      | .admitted => some (w.goto t task (.starting d))
    else none
  | .presenting liveId, .none =>
    if w.isLive liveId then some (w.goto t task (.settled (.ok (.present liveId))))
    else some (w.goto t task (.recalling liveId))
  | .recalling liveId, .none =>
    match w.definitions.lookup liveId with
    | none => some (w.goto t task (.settled (.error s!"unknown source {uuidText liveId.uuid}")))
    | some d =>
      if d.isStdin then
        some (w.goto t task (.settled
          (.error s!"stdin source {uuidText liveId.uuid} is stopped; attach a fresh pipeline")))
      else some (w.goto t task (.checking d))
  | .restarting sourceId, .none =>
    match w.definitions.lookup sourceId with
    | none => some (w.goto t task (.settled (.error "unknown source")))
    | some d =>
      if d.isStdin then
        some (w.goto t task (.settled (.error "stdin cannot restart; attach a fresh pipeline")))
      else some (w.goto t task (.checking d))
  | .checking d, .none =>
    if w.isLive d.id then some (w.goto t task (.stopping d))
    else some (w.goto t task (.starting d))
  | .stopping d, .stop report =>
    match report with
    | .error error => some (w.goto t task (.settled (.error s!"stop: {error}")))
    | .ok false =>
      some (w.goto t task (.settled (.error "capture stop incomplete; restart was not attempted")))
    | .ok true => some (w.goto t task (.starting d))
  | .starting d, .none =>
    match w.startRefusal d with
    | some error => some (w.goto t task (.settled (.error (startText d error))))
    | none =>
      some ({ w with launches := w.launches ++ [(⟨d, t, .preparing⟩ : Launch)] }.goto t task
        (.launching d w.launches.length))
  | .launching d l, .none =>
    match w.launches[l]? with
    | some ⟨_, _, .finished (.error error)⟩ =>
      some (w.goto t task (.settled (.error (startText d error))))
    | some ⟨_, _, .finished (.ok ())⟩ => some (w.goto t task (.publishing d))
    | _ => none
  | .publishing d, .none =>
    if w.sessionLock = none then some (publishStarted storeUnavailable w t task d) else none
  | .storing d snapshot version, .io result =>
    some ({ w.write snapshot version result with sessionLock := none }.goto t task
      (.settled (.ok (startOutcome d (match result with
        | .ok _ => none
        | .error error => some error)))))
  | .unbinding sourceId, .none =>
    match storeUnavailable with
    | some reason => some (w.goto t task (.stopSettled (.error (unavailableStop reason))))
    | none =>
      some ({ w with stdinBindings := w.stdinBindings.erase sourceId }.goto t task
        (.stopChecking sourceId))
  | .stopChecking sourceId, .none =>
    if w.isLive sourceId then some (w.goto t task (.stopAwaiting sourceId))
    else some (w.goto t task (.forgetting sourceId))
  | .stopAwaiting sourceId, .stop report =>
    match report with
    | .error error => some (w.goto t task (.stopSettled (.error s!"stop: {error}")))
    | .ok false =>
      some (w.goto t task (.stopSettled
        (.error "capture stop incomplete; source remains in the session")))
    | .ok true => some (w.goto t task (.forgetting sourceId))
  | .forgetting sourceId, .none =>
    if w.sessionLock = none then
      let session := w.session.filter (·.id ≠ sourceId)
      some ({ w with session, version := w.version + 1 }.goto t task
        (.forgotten sourceId session (w.version + 1)))
    else none
  | .forgotten _ snapshot version, .io result =>
    some ((w.write snapshot version result).goto t task (.stopSettled (match result with
      | .ok _ => .ok ()
      | .error error =>
        .error s!"capture stopped but session update failed: {error}; retry stop")))
  | .settled outcome, .none =>
    match task.work with
    | .leader _ share _ =>
      some ({ w with shares := w.shares.set share (some (match outcome with
        | .ok outcome => .settled outcome
        | .error reason => .failed reason)) }.goto t task .announced)
    | .keyless _ | .stop _ | .restart _ =>
      some (w.goto t { task with sent := some (outcome.map .outcome) } .releasing)
  | .stopSettled outcome, .none =>
    some (w.goto t { task with sent := some (outcome.map fun _ => .stopped) } .releasing)
  | .announced, .none =>
    match task.work with
    | .leader key _ _ => some ({ w with starting := w.starting.erase key }.goto t task .releasing)
    | .keyless _ | .stop _ | .restart _ => some (w.goto t task .releasing)
  | .releasing, .none => some ({ w with lifecycle := none }.goto t task .leaving)
  | .leaving, .none =>
    some ({ w with gate := w.gate.dropPermit task.permit }.goto t task .finished)
  | _, _ => none

/-- `StartGuard::drop` for a settlement that has not settled. -/
def dropGuard (w : World) (task : Task) : World :=
  match task.work, task.stage with
  -- the guard is made when the settlement is polled first
  | .leader _ _ _, .spawned => w
  | .leader key share _, _ =>
    { w with
      shares := match w.shares[share]? with
        | some none => w.shares.set share (some .abandoned)
        | _ => w.shares
      starting := if w.starting.lookup key = some share then w.starting.erase key else w.starting }
  | _, _ => w

/-- An aborted settlement is torn down: its locks first, its permit last. -/
def tearStep (w : World) (t : ℕ) (task : Task) : Option World :=
  if task.cancelled ∧ task.stage.awaits then
    let w := dropGuard w task
    some ({ w with lifecycle := if w.lifecycle = some t then none else w.lifecycle }.goto t
      { task with torn := true } .leaving)
  else none

/-! ### What requests do -/

/-- The work a request spawns. -/
def workOf (request : Request) : Option (SourceDefinition × AdmissionKey × ℕ) → Work
  | some (definition, key, share) => .leader key share definition
  | none =>
    match request with
    | .start definition => .keyless (canonicalizeDefinition canonicalize definition)
    | .stop sourceId => .stop sourceId
    | .restart sourceId => .restart sourceId
    | .noteSessionMember definition => .keyless definition

/-- The next step of a request that has just come, or of one without a key: to its settlement. -/
def enter (w : World) (c : ℕ) (call : Call) (sourceId : SourceId)
    (next : ℕ → CallStage) : World :=
  match w.gate.tryEnter sourceId with
  | .error reason => w.call c call (.done (.error reason))
  | .ok (permit, gate) => { w with gate }.call c call (next permit)

/-- The first step of a request. -/
def arriveStep (w : World) (c : ℕ) (call : Call) : World :=
  match call.request with
  | .start definition =>
    match validateStartBoundary definition with
    | .error reason => w.call c call (.done (.error reason))
    | .ok () =>
      let d := canonicalizeDefinition canonicalize definition
      match admissionKey canonicalize d with
      | .error reason => w.call c call (.done (.error reason))
      | .ok (some key) => w.call c call (.entering d key)
      | .ok none => enter w c call d.id (.spawning none)
  | .stop sourceId => enter w c call sourceId (.spawning none)
  | .restart sourceId => enter w c call sourceId (.spawning none)
  | .noteSessionMember definition =>
    match storeUnavailable with
    | some reason => w.call c call (.done (.error
        s!"workspace store unavailable ({reason}); session member not recorded, durable bytes unchanged"))
    | none => w.call c call (.noting definition)

/-- Where a joiner goes when it is through: its permit is dropped on the way. -/
def leaveStage (permit : Option ℕ) (next : (SourceDefinition × AdmissionKey) ⊕ Result Reply) :
    CallStage :=
  match permit, next with
  | some permit, next => .dropping permit next
  | none, .inl (definition, key) => .entering definition key
  | none, .inr reply => .done reply

/-- The next step of a request. -/
def callStep (w : World) (c : ℕ) (call : Call) (answer : Answer) : Option World :=
  match call.stage, answer with
  | .arrived, .none => some (arriveStep canonicalize storeUnavailable w c call)
  | .entering d key, .none => some (enter w c call d.id (.electing d key))
  | .electing d key permit, .none =>
    match w.starting.lookup key with
    | some share => some (w.call c call (.waiting d key share (some permit)))
    | none =>
      some ({ w with
        shares := w.shares ++ [none]
        starting := w.starting.insert key w.shares.length }.call c call
          (.spawning (some (d, key, w.shares.length)) permit))
  | .spawning work permit, .none =>
    let task : Task :=
      ⟨c, workOf canonicalize call.request work, permit, .spawned, false, false, false, none⟩
    some ({ w with tasks := w.tasks ++ [task] }.call c call (.attaching work permit w.tasks.length))
  | .attaching work permit task, .none =>
    some ({ w with gate := w.gate.attachSettlement permit task }.call c call (match work with
      | some (d, key, share) => .waiting d key share none
      | none => .receiving task))
  | .waiting d key share permit, .none =>
    match w.shares[share]? with
    | some (some (.settled outcome)) =>
      match permit with
      | none => some (w.call c call (.done (.ok (.outcome outcome))))
      | some permit =>
        if w.isLive outcome.sourceId then
          some (w.call c call (leaveStage (some permit)
            (.inr (.ok (.outcome (.present outcome.sourceId))))))
        else some (w.call c call (.retiring d key share (some permit)))
    | some (some (.failed reason)) =>
      some (w.call c call (leaveStage permit (.inr (.error reason))))
    | some (some .abandoned) => some (w.call c call (.retiring d key share permit))
    | _ => none
  | .receiving task, .none =>
    match w.tasks[task]? with
    | some task =>
      match task.sent with
      | some reply => some (w.call c call (.done reply))
      | none =>
        if task.stage = .leaving ∨ task.stage = .finished then
          some (w.call c call (.done (.error "worker lifecycle settlement task closed")))
        else none
    | none => none
  | .retiring d key share permit, .none =>
    some ({ w with starting :=
      if w.starting.lookup key = some share then w.starting.erase key else w.starting }.call c call
        (leaveStage permit (.inl (d, key))))
  | .dropping permit next, .none =>
    some ({ w with gate := w.gate.dropPermit permit }.call c call (leaveStage none next))
  | .noting d, .none =>
    if w.sessionLock = none then
      let session := if w.session.any (·.id == d.id) then w.session else w.session ++ [d]
      some ({ w with session, version := w.version + 1 }.call c call
        (.writing session (w.version + 1)))
    else none
  | .writing snapshot version, .io result =>
    some ((w.write snapshot version result).call c call
      (.done (result.map fun _ => .sessionNoted)))
  | _, _ => none

/-- The dispatch deadline of a request passes while it waits. -/
def dropStep (w : World) (c : ℕ) (call : Call) : Option World :=
  match call.stage with
  | .waiting _ _ _ none | .receiving _ | .noting _ => some (w.call c call .dropped)
  | .waiting _ _ _ (some permit) =>
    some ({ w with gate := w.gate.dropPermit permit }.call c call .dropped)
  | _ => none

/-! ### What the manager does -/

/-- Somebody awaits the answer of a start. -/
def awaited (w : World) (l : ℕ) (launch : Launch) : Bool :=
  match w.tasks[launch.task]? with
  | some task => task.stage == .launching launch.definition l
  | none => false

/-- The next step of a start of the manager. -/
def launchStep (w : World) (l : ℕ) (launch : Launch) (answer : Answer) : Option World :=
  let d := launch.definition
  match launch.stage, answer with
  | .preparing, .io (.error error) => some (w.launch l launch (.finished (.error error)))
  | .preparing, .io (.ok ()) =>
    match w.metadataRefusal d with
    | some error => some (w.launch l launch (.finished (.error error)))
    | none => some ({ w with metadata := w.metadata.insert d.id d }.launch l launch .acquiring)
  | .acquiring, .io result =>
    if w.managerClosed ∨ ¬ awaited w l launch then
      some (w.launch l launch (.finished (.error "source runtime task closed")))
    else match result with
      | .error error => some (w.launch l launch (.finished (.error error)))
      | .ok () => some (w.launch l launch .acquired)
  | .acquired, .none =>
    if w.managerClosed ∨ ¬ awaited w l launch then
      some (w.launch l launch (.finished (.error "source runtime task closed")))
    else some (w.launch l launch .checked)
  | .checked, .ended terminal =>
    some ({ w with active := w.active.insert d.id ⟨d, terminal⟩ }.launch l launch .installed)
  | .installed, .none => some (w.launch l launch (.finished (.ok ())))
  | _, _ => none

/-- A capture ends by itself. -/
def endStep (w : World) (id : SourceId) : Option World :=
  match w.active.lookup id with
  | some capture => some { w with active := w.active.insert id { capture with terminal := true } }
  | none => none

/-! ### Shutdown -/

def shutdownStopOutcome : Result Bool → Result String
  | .ok true => .ok "stopped"
  | .ok false => .error "stop incomplete"
  | .error error => .error s!"stop: {error}"

/-- The failure of a settlement that shutdown gave up on. -/
def settlementFailure : Result String :=
  .error "lifecycle settlement did not settle cleanly during shutdown"

/-- A failed settlement enters the reports: the first one of its source is replaced. -/
def reportFailure (id : SourceId) : List Report → List Report
  | [] => [(id, settlementFailure)]
  | (reported, outcome) :: rest =>
    if reported = id then (reported, settlementFailure) :: rest
    else (reported, outcome) :: reportFailure id rest

/-- What shutdown returns. -/
def finalReports (reports : List Report) (failed : List SourceId) : List Report :=
  failed.foldl (fun reports id => reportFailure id reports) reports

/-- The next step of `shutdown`; where it waits, `expire` says that the wait expires. -/
def shutdownStep (w : World) (expire : Bool) (answer : Answer) : Option World :=
  match w.shutdown, answer with
  | .idle, .none => some { w with shutdown := .flagged }
  | .flagged, .none => some { w with gate := w.gate.close, shutdown := .draining }
  | .draining, .none =>
    if expire then some { w with shutdown := .aborting }
    else if w.gate.inFlight = 0 then some { w with shutdown := .unbinding [] }
    else none
  | .aborting, .none =>
    let (failed, handles) := w.gate.abortSettlements
    some { w with shutdown := .cancelling failed handles }
  | .cancelling failed [], .none => some { w with shutdown := .redraining failed }
  | .cancelling failed (t :: handles), .none =>
    match w.tasks[t]? with
    | some task =>
      some { w with
        tasks := w.tasks.set t { task with cancelled := true }
        shutdown := .cancelling failed handles }
    | none => some { w with shutdown := .cancelling failed handles }
  | .redraining failed, .none =>
    if expire then some { w with shutdown := .expired failed }
    else if w.gate.inFlight = 0 then some { w with shutdown := .unbinding failed }
    else none
  | .expired failed, .none =>
    some { w with shutdown := .unbinding (failed ++ w.gate.unsettledSources) }
  | .unbinding failed, .none => some { w with stdinBindings := [], shutdown := .closing failed }
  | .closing failed, .none => some { w with managerClosed := true, shutdown := .waiting failed }
  | .waiting failed, .none =>
    if expire then some { w with shutdown := .collecting failed false }
    else if w.launches.all (!·.pending) then some { w with shutdown := .collecting failed true }
    else none
  | .collecting failed startsFinished, .none =>
    let handles := (w.active.entries.filter fun e => !e.2.terminal).map (·.1)
    some { w with shutdown :=
      if startsFinished then .stopping failed handles [] else .listing failed handles }
  | .listing failed handles, .none =>
    let reports := (w.launches.filter (·.pending)).map fun l =>
      (l.definition.id, shutdownStopOutcome (.error "source shutdown exceeded its deadline"))
    some { w with shutdown := .stopping failed handles reports }
  | .stopping failed (id :: handles) reports, .stop report =>
    let reports := reports ++ [(id, shutdownStopOutcome report)]
    some { w with shutdown := .stopping failed handles reports }
  | .stopping failed [] reports, .none =>
    some { w with shutdown := .returned (finalReports reports failed) }
  | _, _ => none

/-! ### The machine -/

/-- A step of the worker. -/
inductive Event
  /-- A window sends a request. -/
  | request (request : Request)
  | call (c : ℕ) (answer : Answer)
  | drop (c : ℕ)
  | task (t : ℕ) (answer : Answer)
  | tear (t : ℕ)
  | launch (l : ℕ) (answer : Answer)
  | ended (sourceId : SourceId)
  | requestShutdown
  | shutdown (expire : Bool) (answer : Answer)

/-- The step function of the worker. -/
def step (w : World) : Event → Option World
  | .request request => some { w with calls := w.calls ++ [⟨request, .arrived⟩] }
  | .call c answer => w.calls[c]?.bind fun call => callStep canonicalize storeUnavailable w c call answer
  | .drop c => w.calls[c]?.bind fun call => dropStep w c call
  | .task t answer => w.tasks[t]?.bind fun task => taskStep canonicalize storeUnavailable w t task answer
  | .tear t => w.tasks[t]?.bind fun task => tearStep w t task
  | .launch l answer => w.launches[l]?.bind fun launch => launchStep w l launch answer
  | .ended id => endStep w id
  | .requestShutdown => some { w with gate := w.gate.close }
  | .shutdown expire answer => shutdownStep w expire answer

/-- The worker's runs. -/
def worker : Machine World Event := .ofFun (step canonicalize storeUnavailable)

end

end Lvu.Shared.Lifecycle
