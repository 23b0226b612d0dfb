import Lvu.Bytes.Base64
import Lvu.Shared.Connections
import Lvu.Shared.Starts

/-!
# Forwarded stdin

A window forwards its pipe to a capture of the worker: a start gives the manager the reading end of
a duplex pipe, the writing end is bound to the source, and the chunks of the window are written to
it in the order of their numbers (`lvu-shared/src/worker.rs`).  The bindings are one map for all
connections, and its lock is held while a chunk is written.

* `forwarding` : the connections with the pipes they forward.
* `Exact` : what a capture has received is what was acknowledged.
* `Released` : an ended connection has nothing bound, and its captures come to an end.
* `forwarded_exactly` : both hold as long as nobody else sends the next chunk of a stream, no
  connection ends with a stream bound, and no capture stops in the middle of a chunk.
* `bound_after_end` : a connection that ends leaves its stream bound.
-/

namespace Lvu.Shared.Stdin

open List

open Lifecycle (set_cases append_cases)

def stdinBufferBytes : ℕ := 8 * 64 * 1024

def stdinCreditWindow : UInt32 := 8

/-- `StdinBinding`: the pipe it writes to, and the number of the next chunk. -/
structure StdinBinding where
  writer : ℕ
  expectedSeq : UInt64
deriving DecidableEq

inductive StdinNoteError
  | unknownStream
  | desync (reason : String)

/-- The events that answer a chunk or a close. -/
inductive Answer
  | refused (requestId reason : String)
  | stdinCredit (sourceId : SourceId) (ackSeq : UInt64) (window : UInt32)
  | stopped (requestId : String) (sourceId : SourceId)

/-- A chunk that was acknowledged: its number, its bytes, and the connection it came by. -/
structure Chunk where
  seq : UInt64
  raw : List UInt8
  sender : ℕ
deriving DecidableEq

/-- Who has the writing end of a pipe. -/
inductive Writer
  /-- The start that made the pipe; it is still to be bound. -/
  | starting
  | bound
  | dropped
deriving DecidableEq

/-- A duplex pipe, from a binding to a capture. -/
structure Pipe where
  sourceId : SourceId
  /-- The connection that asked for the start. -/
  opener : ℕ
  writer : Writer
  /-- The capture reads. -/
  readable : Bool
  buffer : List UInt8
  /-- What the capture has read. -/
  received : List UInt8
  /-- The capture has reached the end of its input. -/
  ended : Bool
  acked : List Chunk

/-- The bytes of the chunks that were acknowledged. -/
def Pipe.ackedBytes (p : Pipe) : List UInt8 := p.acked.flatMap (·.raw)

/-- The call of `note_stdin_chunk` that has the lock and writes. -/
structure Writing where
  connection : ℕ
  requestId : String
  sourceId : SourceId
  binding : StdinBinding
  raw : List UInt8
  /-- How many bytes are in the pipe. -/
  written : ℕ

/-- `WorkerService`, with its connections and the pipes it was given. -/
structure World where
  worker : Shared.World
  bindings : Dict SourceId StdinBinding
  pipes : List Pipe
  writing : Option Writing
  /-- What the connections were told, in order. -/
  answers : List (ℕ × Answer)

namespace World

/-- A worker at its start. -/
def new (worker : Shared.World) : World := ⟨worker, ∅, [], none, []⟩

/-- The connection is in its loop. -/
def serves (w : World) (i : ℕ) : Bool := w.worker.connections[i]?.any (·.served)

/-- A pipe written back. -/
def put (w : World) (p : ℕ) (pipe : Pipe) : World := { w with pipes := w.pipes.set p pipe }

/-- The writing end of a pipe is dropped. -/
def dropWriter (w : World) (p : ℕ) : World :=
  { w with pipes := w.pipes.modify p fun pipe => { pipe with writer := .dropped } }

/-- A binding removed, and dropped with it. -/
def unbind (w : World) (id : SourceId) : World :=
  match w.bindings.lookup id with
  | some binding => { w.dropWriter binding.writer with bindings := w.bindings.erase id }
  | none => w

/-- All bindings removed. -/
def unbindAll (w : World) : World :=
  { w with
    bindings := ∅
    pipes := w.pipes.map fun pipe =>
      if pipe.writer = .bound then { pipe with writer := .dropped } else pipe }

end World

/-! ### Dispatch -/

section
-- `Uuid::parse_str`
variable (parse : String → Option SourceId)

/-- Where the dispatch of a chunk leads: to an answer, or to the pipe. -/
inductive Noted
  | answer (closes : Bool) (answers : List Answer)
  | write (sourceId : SourceId) (binding : StdinBinding) (raw : List UInt8)

/-- The decoding of a chunk in `dispatch_request`. -/
def decodeChunk (base64 : List UInt8) : Except String (List UInt8) :=
  match decodedBase64Len base64 with
  | .ok len =>
    if len ≤ maxStdinChunkBytes then
      match base64DecodeBounded base64 len with
      | some raw => .ok raw
      | none => .error "stdin chunk failed to decode"
    else .error "stdin chunk violates size bounds"
  | .error _ => .error "stdin chunk violates size bounds"

/-- `note_stdin_chunk`, up to the write. -/
def noteStdinChunk (bindings : Dict SourceId StdinBinding) (sourceId : SourceId) (seq : UInt64)
    (raw : List UInt8) : Except StdinNoteError StdinBinding :=
  if raw.length > maxStdinChunkBytes then
    .error (.desync s!"stdin chunk is {raw.length} bytes; limit is {maxStdinChunkBytes}")
  else match bindings.lookup sourceId with
  | none => .error .unknownStream
  | some binding =>
    if seq ≠ binding.expectedSeq then
      .error (.desync s!"stdin chunk out of order: got {seq}, expected {binding.expectedSeq}")
    else .ok binding

/-- `dispatch_request` of a `StdinChunk`, up to the write. -/
def dispatchChunk (bindings : Dict SourceId StdinBinding) (attached : Bool)
    (requestId sourceId : String) (seq : UInt64) (base64 : List UInt8) : Noted :=
  match checkStdinChunkBase64 base64 with
  | .error error => .answer true [.refused requestId s!"protocol violation: {error.text}"]
  | .ok _ =>
    if attached = false then .answer true []
    else match parse sourceId with
    | none => .answer false [.refused requestId "invalid source id"]
    | some id =>
      match decodeChunk base64 with
      | .error reason => .answer true [.refused requestId reason]
      | .ok raw =>
        match noteStdinChunk bindings id seq raw with
        | .error .unknownStream =>
          .answer false
            [.refused requestId "stdin stream is not bound (stale or replaced worker)"]
        | .error (.desync reason) => .answer true [.refused requestId reason]
        | .ok binding => .write id binding raw

/-! ### The machine -/

/-- What may happen next. -/
inductive Event
  /-- A step of the connections that has nothing to do with a forwarded stream. -/
  | serve (e : Shared.Event)
  /-- A connection dispatches a `StdinChunk`. -/
  | chunk (i : ℕ) (requestId sourceId : String) (seq : UInt64) (base64 : List UInt8)
  /-- A connection dispatches a `StdinClose`. -/
  | close (i : ℕ) (requestId sourceId : String)
  /-- The write puts some bytes into the pipe. -/
  | push (n : ℕ)
  /-- The write is complete. -/
  | acknowledge
  /-- The write finds the pipe closed. -/
  | broken
  /-- A start for a connection gives the manager the reading end of a pipe. -/
  | start (i : ℕ) (sourceId : SourceId)
  /-- `publish_started` : the writing end is bound. -/
  | publish (p : ℕ)
  /-- A start is given up before that. -/
  | abandon (p : ℕ)
  /-- `stop_inner` takes the binding of a source away. -/
  | stop (sourceId : SourceId)
  /-- `shutdown` takes all bindings away. -/
  | shutdown
  /-- The capture reads some bytes. -/
  | read (p n : ℕ)
  /-- The capture finds the end of its input. -/
  | finish (p : ℕ)
  /-- The capture stops reading. -/
  | drop (p : ℕ)

/-- The connection whose handler takes the step. -/
def connectionOf : Shared.Event → Option ℕ
  | .request i _ | .settle i _ | .lost i | .exit i _ => some i
  | .accept _ | .requestShutdown => none

/-- A handler that is free to take a step: it is not writing a chunk. -/
def World.free (w : World) (i : ℕ) : Bool :=
  w.writing.all fun writing => decide (writing.connection ≠ i)

/-- The handler of a connection has an answer for its window; the rest of the connection is as after
any other request. -/
def World.tell (w : World) (i : ℕ) (c : Connection) (closes : Bool) (answers : List Answer) : World :=
  { w with
    worker := w.worker.put i (c.answer (if closes then .close [] else .reply []))
    answers := w.answers ++ answers.map (Prod.mk i) }

variable (size : StoreMethod → ℕ)

/-- The step of an event, where it can happen. -/
def World.next (w : World) : Event → Option World
  | .serve e => do
    if (connectionOf e).all w.free then
      let worker ← w.worker.next size e
      some { w with worker }
    else none
  | .chunk i requestId sourceId seq base64 => do
    let c ← w.worker.connections[i]?
    if c.phase = .serving ∧ w.free i then
      match dispatchChunk parse w.bindings c.window.isSome requestId sourceId seq base64 with
      | .answer closes answers => some (w.tell i c closes answers)
      | .write id binding raw =>
        if w.writing = none then some { w with writing := some ⟨i, requestId, id, binding, raw, 0⟩ }
        else none
    else none
  | .close i requestId sourceId => do
    let c ← w.worker.connections[i]?
    if c.phase = .serving ∧ w.free i then
      if c.window = none then some (w.tell i c true [])
      else match parse sourceId with
      | none => some (w.tell i c false [.refused requestId "invalid source id"])
      | some id =>
        if w.writing = none then some ((w.unbind id).tell i c false [.stopped requestId id]) else none
    else none
  | .push n => do
    let writing ← w.writing
    let pipe ← w.pipes[writing.binding.writer]?
    let bytes := (writing.raw.drop writing.written).take n
    if pipe.readable ∧ bytes ≠ [] ∧ pipe.buffer.length + bytes.length ≤ stdinBufferBytes then
      some { w.put writing.binding.writer { pipe with buffer := pipe.buffer ++ bytes } with
        writing := some { writing with written := writing.written + bytes.length } }
    else none
  | .acknowledge => do
    let writing ← w.writing
    let pipe ← w.pipes[writing.binding.writer]?
    let c ← w.worker.connections[writing.connection]?
    if writing.written = writing.raw.length then
      let binding := { writing.binding with expectedSeq := writing.binding.expectedSeq + 1 }
      some { (w.put writing.binding.writer { pipe with
          acked := pipe.acked ++
            [⟨writing.binding.expectedSeq, writing.raw, writing.connection⟩] }).tell
          writing.connection c false
          [.stdinCredit writing.sourceId writing.binding.expectedSeq stdinCreditWindow] with
        bindings := w.bindings.insert writing.sourceId binding
        writing := none }
    else none
  | .broken => do
    let writing ← w.writing
    let pipe ← w.pipes[writing.binding.writer]?
    let c ← w.worker.connections[writing.connection]?
    if pipe.readable = false ∧ writing.written < writing.raw.length then
      some { w.tell writing.connection c true
          [.refused writing.requestId "stdin stream closed: broken pipe"] with
        writing := none }
    else none
  | .start i sourceId =>
    if i < w.worker.connections.length ∧ ∀ pipe ∈ w.pipes, pipe.sourceId ≠ sourceId then
      some { w with pipes := w.pipes ++ [⟨sourceId, i, .starting, true, [], [], false, []⟩] }
    else none
  | .publish p => do
    let pipe ← w.pipes[p]?
    if pipe.writer = .starting ∧ w.writing = none then
      some { (w.unbind pipe.sourceId).put p { pipe with writer := .bound } with
        bindings := w.bindings.insert pipe.sourceId ⟨p, 0⟩ }
    else none
  | .abandon p => do
    let pipe ← w.pipes[p]?
    if pipe.writer = .starting then some (w.dropWriter p) else none
  | .stop sourceId => if w.writing = none then some (w.unbind sourceId) else none
  | .shutdown => if w.writing = none then some w.unbindAll else none
  | .read p n => do
    let pipe ← w.pipes[p]?
    if pipe.readable then
      some (w.put p { pipe with
        buffer := pipe.buffer.drop n, received := pipe.received ++ pipe.buffer.take n })
    else none
  | .finish p => do
    let pipe ← w.pipes[p]?
    if pipe.readable ∧ pipe.buffer = [] ∧ pipe.writer = .dropped then
      some (w.put p { pipe with ended := true, readable := false })
    else none
  | .drop p => do
    let pipe ← w.pipes[p]?
    if pipe.readable then some (w.put p { pipe with readable := false, buffer := [] }) else none

/-- The worker and the captures it forwards to. -/
def forwarding : Machine World Event := .ofFun (World.next parse size)

/-! ### What is kept -/

/-- The bytes that the write under way has put into a pipe. -/
def World.partly (w : World) (p : ℕ) : List UInt8 :=
  match w.writing with
  | some writing => if writing.binding.writer = p then writing.raw.take writing.written else []
  | none => []

/-- The chunks of a source that were acknowledged to a connection. -/
def World.credits (w : World) (id : SourceId) : List (ℕ × UInt64) :=
  w.answers.filterMap fun (i, answer) =>
    match answer with
    | .stdinCredit sourceId ackSeq _ => if sourceId = id then some (i, ackSeq) else none
    | .refused _ _ | .stopped _ _ => none

/-- A chunk that is going to be written comes by the connection that opened the stream. -/
def Noted.byOpener (w : World) (i : ℕ) : Noted → Prop
  | .answer _ _ => True
  | .write _ binding _ => ∀ pipe ∈ w.pipes[binding.writer]?, pipe.opener = i

instance (w : World) (i : ℕ) (noted : Noted) : Decidable (noted.byOpener w i) :=
  match noted with
  | .answer _ _ => .isTrue trivial
  | .write _ binding _ => inferInstanceAs (Decidable (∀ pipe ∈ w.pipes[binding.writer]?, pipe.opener = i))

/-- A connection sends the next chunk only of a stream it opened, a start binds a stream only while
its connection is there, and a capture stops reading only before or behind a chunk. -/
def Proper (w : World) : Event → Prop
  | .chunk i requestId sourceId seq base64 => ∀ c ∈ w.worker.connections[i]?,
    (dispatchChunk parse w.bindings c.window.isSome requestId sourceId seq base64).byOpener w i
  | .publish p => ∀ pipe ∈ w.pipes[p]?, w.serves pipe.opener = true
  | .drop p => ∀ pipe ∈ w.pipes[p]?, pipe.received.length ≤ pipe.ackedBytes.length
  | .serve _ | .close _ _ _ | .push _ | .acknowledge | .broken | .start _ _ | .abandon _ | .stop _
  | .shutdown | .read _ _ | .finish _ => True

instance (w : World) (e : Event) : Decidable (Proper parse w e) :=
  match e with
  | .chunk i requestId sourceId seq base64 => inferInstanceAs (Decidable
    (∀ c ∈ w.worker.connections[i]?,
      (dispatchChunk parse w.bindings c.window.isSome requestId sourceId seq base64).byOpener w i))
  | .publish p => inferInstanceAs (Decidable (∀ pipe ∈ w.pipes[p]?, w.serves pipe.opener = true))
  | .drop p => inferInstanceAs (Decidable
    (∀ pipe ∈ w.pipes[p]?, pipe.received.length ≤ pipe.ackedBytes.length))
  | .serve _ | .close _ _ _ | .push _ | .acknowledge | .broken | .start _ _ | .abandon _ | .stop _
  | .shutdown | .read _ _ | .finish _ => .isTrue trivial

/-- Besides, no connection ends while a stream it opened is bound. -/
def Behaved (w : World) (e : Event) : Prop :=
  Proper parse w e ∧ ∀ w' ∈ w.next parse size e, ∀ pipe ∈ w.pipes, pipe.writer = .bound →
    w.serves pipe.opener = true → w'.serves pipe.opener = true

instance (w : World) (e : Event) : Decidable (Behaved parse size w e) :=
  inferInstanceAs (Decidable (Proper parse w e ∧ ∀ w' ∈ w.next parse size e, ∀ pipe ∈ w.pipes,
    pipe.writer = .bound → w.serves pipe.opener = true → w'.serves pipe.opener = true))

/-- **A capture receives what was acknowledged**: chunks 0, 1, 2, … of the connection that opened
the stream, each once and in order. -/
structure Exact (w : World) : Prop where
  numbered : ∀ (p : ℕ) (pipe : Pipe), w.pipes[p]? = some pipe → ∀ (k : ℕ) (chunk : Chunk),
    pipe.acked[k]? = some chunk → chunk.seq = UInt64.ofNat k ∧ chunk.sender = pipe.opener
  told : ∀ (p : ℕ) (pipe : Pipe), w.pipes[p]? = some pipe →
    w.credits pipe.sourceId = pipe.acked.map fun chunk => (chunk.sender, chunk.seq)
  received : ∀ (p : ℕ) (pipe : Pipe), w.pipes[p]? = some pipe →
    pipe.received <+: pipe.ackedBytes ++ w.partly p
  stopped : ∀ (p : ℕ) (pipe : Pipe), w.pipes[p]? = some pipe → pipe.readable = false →
    pipe.received <+: pipe.ackedBytes
  ended : ∀ (p : ℕ) (pipe : Pipe), w.pipes[p]? = some pipe → pipe.ended = true →
    pipe.received = pipe.ackedBytes

/-- **An ended connection has nothing bound**, and its captures come to the end of their input with
what was acknowledged. -/
structure Released (w : World) : Prop where
  unbound : ∀ (p : ℕ) (pipe : Pipe), w.pipes[p]? = some pipe → w.serves pipe.opener = false →
    ∀ id binding, w.bindings.lookup id = some binding → binding.writer ≠ p
  drains : ∀ (p : ℕ) (pipe : Pipe), w.pipes[p]? = some pipe → w.serves pipe.opener = false →
    pipe.writer = .dropped → pipe.readable = true → ∃ w' pipe',
      (forwarding parse size).Run w [.read p pipe.buffer.length, .finish p] w' ∧
      w'.pipes[p]? = some pipe' ∧ pipe'.ended = true ∧ pipe'.received = pipe.ackedBytes

/-- A pipe between its binding and its capture. -/
structure Flow (pipe : Pipe) (partly : List UInt8) : Prop where
  flows : pipe.readable = true → pipe.received ++ pipe.buffer = pipe.ackedBytes ++ partly
  stopped : pipe.readable = false → pipe.received <+: pipe.ackedBytes
  ended : pipe.ended = true →
    pipe.received = pipe.ackedBytes ∧ pipe.writer = .dropped ∧ pipe.readable = false
  numbered : ∀ (k : ℕ) (chunk : Chunk), pipe.acked[k]? = some chunk →
    chunk.seq = UInt64.ofNat k ∧ chunk.sender = pipe.opener
  fresh : pipe.writer = .starting → pipe.acked = []

/-- The pipes, their bindings, and the write under way. -/
structure Streams (w : World) : Prop where
  bound : ∀ id binding, w.bindings.lookup id = some binding → ∃ pipe,
    w.pipes[binding.writer]? = some pipe ∧ pipe.sourceId = id ∧ pipe.writer = .bound ∧
    binding.expectedSeq = UInt64.ofNat pipe.acked.length
  binding : ∀ (p : ℕ) (pipe : Pipe), w.pipes[p]? = some pipe → pipe.writer = .bound →
    ∃ binding, w.bindings.lookup pipe.sourceId = some binding ∧ binding.writer = p
  one : ∀ (p q : ℕ) (pipe pipe' : Pipe), w.pipes[p]? = some pipe → w.pipes[q]? = some pipe' →
    pipe.sourceId = pipe'.sourceId → p = q
  writing : ∀ writing, w.writing = some writing →
    w.bindings.lookup writing.sourceId = some writing.binding ∧
    writing.written ≤ writing.raw.length ∧ w.serves writing.connection = true ∧
    ∀ pipe, w.pipes[writing.binding.writer]? = some pipe → pipe.opener = writing.connection
  flow : ∀ (p : ℕ) (pipe : Pipe), w.pipes[p]? = some pipe → Flow pipe (w.partly p)
  told : ∀ (p : ℕ) (pipe : Pipe), w.pipes[p]? = some pipe →
    w.credits pipe.sourceId = pipe.acked.map fun chunk => (chunk.sender, chunk.seq)
  silent : ∀ id, (∀ pipe ∈ w.pipes, pipe.sourceId ≠ id) → w.credits id = []

/-- A bound stream has the connection that opened it. -/
def Attended (w : World) : Prop :=
  ∀ pipe ∈ w.pipes, pipe.writer = .bound → w.serves pipe.opener = true

end

/-! ### Small steps -/

variable {parse : String → Option SourceId} {size : StoreMethod → ℕ} {w w' : World} {e : Event}
  {es : List Event} {i p : ℕ} {c : Connection} {pipe pipe' : Pipe} {id : SourceId}

namespace World

@[simp] theorem unbind_worker (w : World) (id : SourceId) : (w.unbind id).worker = w.worker := by
  unfold unbind
  split <;> rfl

@[simp] theorem unbind_writing (w : World) (id : SourceId) : (w.unbind id).writing = w.writing := by
  unfold unbind
  split <;> rfl

theorem partly_of_none (h : w.writing = none) (p : ℕ) : w.partly p = [] := by
  simp only [partly, h]

theorem partly_congr (h : w'.writing = w.writing) (p : ℕ) : w'.partly p = w.partly p := by
  simp only [partly, h]

theorem credits_append (w : World) (worker : Shared.World) (more : List (ℕ × Answer)) (id : SourceId) :
    ({ w with worker, answers := w.answers ++ more } : World).credits id
      = w.credits id ++ ({ w with answers := more } : World).credits id :=
  filterMap_append

/-- The world once the chunk that was being written is acknowledged. -/
def acknowledged (w : World) (writing : Writing) (pipe : Pipe) (c : Connection) : World :=
  { (w.put writing.binding.writer { pipe with
        acked := pipe.acked ++ [⟨writing.binding.expectedSeq, writing.raw, writing.connection⟩] }).tell
      writing.connection c false
      [.stdinCredit writing.sourceId writing.binding.expectedSeq stdinCreditWindow] with
    bindings := w.bindings.insert writing.sourceId
      { writing.binding with expectedSeq := writing.binding.expectedSeq + 1 }
    writing := none }

theorem credits_acknowledged (writing : Writing) (pipe : Pipe) (c : Connection) (id : SourceId) :
    (w.acknowledged writing pipe c).credits id = w.credits id ++
      if writing.sourceId = id then [(writing.connection, writing.binding.expectedSeq)] else [] := by
  refine filterMap_append.trans (congrArg (w.credits id ++ ·) ?_)
  show List.filterMap _ [(writing.connection, Answer.stdinCredit _ _ _)] = _
  simp only [filterMap_cons, filterMap_nil]
  split_ifs <;> rfl

end World

/-! ### Dispatch -/

variable {bindings : Dict SourceId StdinBinding} {closes : Bool} {answers : List Answer}
  {writing : Writing}

theorem dispatchChunk_answer {attached : Bool} {requestId sourceId : String} {seq : UInt64}
    {base64 : List UInt8}
    (h : dispatchChunk parse bindings attached requestId sourceId seq base64 = .answer closes answers) :
    answers = [] ∨ ∃ reason, answers = [.refused requestId reason] := by
  unfold dispatchChunk at h
  split at h
  · cases h; exact .inr ⟨_, rfl⟩
  split_ifs at h
  · cases h; exact .inl rfl
  split at h
  · cases h; exact .inr ⟨_, rfl⟩
  split at h
  · cases h; exact .inr ⟨_, rfl⟩
  split at h <;> cases h <;> exact .inr ⟨_, rfl⟩

theorem dispatchChunk_write {attached : Bool} {requestId sourceId : String} {seq : UInt64}
    {base64 raw : List UInt8} {binding : StdinBinding}
    (h : dispatchChunk parse bindings attached requestId sourceId seq base64 = .write id binding raw) :
    bindings.lookup id = some binding ∧ seq = binding.expectedSeq ∧ decodeChunk base64 = .ok raw := by
  unfold dispatchChunk at h
  split at h
  · cases h
  split_ifs at h
  split at h
  · cases h
  split at h
  · cases h
  rename_i raw' hdecode
  split at h <;> cases h
  rename_i hnoted
  unfold noteStdinChunk at hnoted
  split_ifs at hnoted
  split at hnoted
  · cases hnoted
  rename_i hlookup
  split_ifs at hnoted with hseq
  cases hnoted
  exact ⟨hlookup, not_not.1 hseq, hdecode⟩

/-! ### Connections -/

theorem dispatchStore_connections (w : Shared.World) (i : ℕ) (c : Connection) (attached : String)
    (method : StoreMethod) :
    ∃ c', (dispatchStore size w i c attached method).connections = w.connections.set i c' := by
  unfold dispatchStore
  split
  · exact ⟨_, rfl⟩
  split
  · split <;> exact ⟨_, rfl⟩
  all_goals exact ⟨_, rfl⟩

theorem dispatchRequest_connections (w : Shared.World) (i : ℕ) (c : Connection) (request : Request) :
    ∃ c', (dispatchRequest size w i c request).connections = w.connections.set i c' := by
  unfold dispatchRequest
  split
  · exact ⟨_, rfl⟩
  · split
    · exact dispatchStore_connections _ _ _ _ _
    · exact ⟨_, rfl⟩
  · split <;> exact ⟨_, rfl⟩
  · exact ⟨_, rfl⟩
  · split_ifs <;> exact ⟨_, rfl⟩

/-- A step of one handler leaves the other connections as they are. -/
theorem connections_of_next {v v' : Shared.World} {e : Shared.Event} {j : ℕ} {c : Connection}
    (h : v.next size e = some v') (hother : connectionOf e ≠ some j)
    (hj : v.connections[j]? = some c) : v'.connections[j]? = some c := by
  have hset : ∀ (i : ℕ) (c' : Connection), connectionOf e = some i →
      (v.connections.set i c')[j]? = some c := by
    intro i c' hi
    rw [getElem?_set_ne fun hij : i = j => hother (hij ▸ hi)]
    exact hj
  cases e with
  | accept now =>
    simp only [Shared.World.next] at h
    split_ifs at h
    cases h
    obtain ⟨hlt, -⟩ := List.getElem?_eq_some_iff.1 hj
    exact (getElem?_append_left hlt).trans hj
  | request i request =>
    obtain ⟨c₀, -, h⟩ := Option.bind_eq_some_iff.1 h
    split_ifs at h
    cases h
    obtain ⟨c', hc'⟩ := @dispatchRequest_connections size v i c₀ request
    rw [hc']
    exact hset i c' rfl
  | settle i current =>
    obtain ⟨c₀, -, h⟩ := Option.bind_eq_some_iff.1 h
    split at h
    · cases h
      exact hset i _ rfl
    · cases h
  | lost i | exit i now =>
    obtain ⟨c₀, -, h⟩ := Option.bind_eq_some_iff.1 h
    split_ifs at h
    cases h
    exact hset i _ rfl
  | requestShutdown =>
    cases h
    exact hj

theorem serves_tell {j : ℕ} (hj : i ≠ j) : (w.tell i c closes answers).serves j = w.serves j := by
  show ((w.worker.connections.set i _)[j]?).any _ = _
  rw [getElem?_set_ne hj]
  rfl

theorem World.ne_of_free (h : w.free i = true) (hw : w.writing = some writing) :
    i ≠ writing.connection := by
  simp only [World.free, hw, Option.all_some, decide_eq_true_eq] at h
  exact Ne.symm h

theorem lookup_insert_cases {id j : SourceId} {binding b : StdinBinding}
    (h : (bindings.insert id b).lookup j = some binding) :
    j = id ∧ binding = b ∨ j ≠ id ∧ bindings.lookup j = some binding := by
  rw [Dict.lookup_insert_eq] at h
  split_ifs at h with hj
  · exact .inl ⟨hj, (Option.some.inj h).symm⟩
  · exact .inr ⟨hj, h⟩

namespace Streams

/-- A step that leaves the streams as they are. -/
theorem frame (h : Streams w) (hbindings : w'.bindings = w.bindings) (hpipes : w'.pipes = w.pipes)
    (hwriting : w'.writing = w.writing) (hcredits : ∀ id, w'.credits id = w.credits id)
    (hserves : ∀ writing, w.writing = some writing → w'.serves writing.connection = true) :
    Streams w' := by
  refine ⟨?_, ?_, ?_, ?_, ?_, ?_, ?_⟩
  · rw [hbindings, hpipes]; exact h.bound
  · rw [hbindings, hpipes]; exact h.binding
  · rw [hpipes]; exact h.one
  · intro writing hw
    rw [hwriting] at hw
    obtain ⟨hlookup, hle, -, hopener⟩ := h.writing writing hw
    rw [hbindings, hpipes]
    exact ⟨hlookup, hle, hserves writing hw, hopener⟩
  · intro p pipe hp
    rw [World.partly_congr hwriting]
    exact h.flow p pipe (hpipes ▸ hp)
  · intro p pipe hp
    rw [hcredits]
    exact h.told p pipe (hpipes ▸ hp)
  · intro id hid
    rw [hcredits]
    exact h.silent id (hpipes ▸ hid)

theorem one_put (h : Streams w) (hp : w.pipes[p]? = some pipe)
    (hid : pipe'.sourceId = pipe.sourceId) {q q' : ℕ} {pipe₁ pipe₂ : Pipe}
    (hq : (w.pipes.set p pipe')[q]? = some pipe₁) (hq' : (w.pipes.set p pipe')[q']? = some pipe₂)
    (hsame : pipe₁.sourceId = pipe₂.sourceId) : q = q' := by
  obtain ⟨hqp, hpipe₁⟩ | ⟨-, hq⟩ := set_cases hq <;>
    obtain ⟨hqp', hpipe₂⟩ | ⟨-, hq'⟩ := set_cases hq'
  · exact hqp.trans hqp'.symm
  · exact hqp.trans (h.one _ _ pipe pipe₂ hp hq' (by rw [← hid, ← hpipe₁, hsame]))
  · exact (h.one _ _ pipe₁ pipe hq hp (by rw [← hid, ← hpipe₂, hsame])).trans hqp'.symm
  · exact h.one _ _ pipe₁ pipe₂ hq hq' hsame

theorem silent_put (h : Streams w) (hp : w.pipes[p]? = some pipe)
    (hid : pipe'.sourceId = pipe.sourceId) {id : SourceId}
    (hnone : ∀ pipe ∈ w.pipes.set p pipe', pipe.sourceId ≠ id) : w.credits id = [] := by
  refine h.silent id fun pipe₁ hmem => ?_
  obtain ⟨q, hq⟩ := mem_iff_getElem?.1 hmem
  by_cases hqp : q = p
  · obtain rfl := Option.some.inj ((hqp ▸ hq).symm.trans hp)
    rw [← hid]
    exact hnone pipe' (mem_iff_getElem?.2
      ⟨p, getElem?_set_self (List.getElem?_eq_some_iff.1 hp).1⟩)
  · exact hnone pipe₁ (mem_iff_getElem?.2 ⟨q, (getElem?_set_ne (Ne.symm hqp)).trans hq⟩)

/-- A pipe through which bytes move, some of them perhaps of the write under way. -/
theorem put {writing' : Option Writing} (h : Streams w) (hp : w.pipes[p]? = some pipe)
    (hid : pipe'.sourceId = pipe.sourceId) (hopener : pipe'.opener = pipe.opener)
    (hwriter : pipe'.writer = pipe.writer) (hacked : pipe'.acked = pipe.acked)
    (hwriting : ∀ writing, writing' = some writing → writing.written ≤ writing.raw.length ∧
      ∃ before, w.writing = some before ∧ writing.sourceId = before.sourceId ∧
        writing.binding = before.binding ∧ writing.connection = before.connection)
    (hothers : ∀ q, q ≠ p → ({ w with writing := writing' } : World).partly q = w.partly q)
    (hflow : Flow pipe' (({ w with writing := writing' } : World).partly p)) :
    Streams { w.put p pipe' with writing := writing' } := by
  have hlt : p < w.pipes.length := (List.getElem?_eq_some_iff.1 hp).1
  refine ⟨?_, ?_, ?_, ?_, ?_, ?_, ?_⟩
  · intro id binding hl
    obtain ⟨pipe₁, hp₁, hid₁, hbound, hseq⟩ := h.bound id binding hl
    by_cases hq : binding.writer = p
    · obtain rfl := Option.some.inj ((hq ▸ hp₁).symm.trans hp)
      refine ⟨pipe', ?_, hid.trans hid₁, hwriter.trans hbound, hacked ▸ hseq⟩
      rw [hq]
      exact getElem?_set_self hlt
    · exact ⟨pipe₁, (getElem?_set_ne (Ne.symm hq)).trans hp₁, hid₁, hbound, hseq⟩
  · intro q pipe₁ hq hbound
    obtain ⟨rfl, rfl⟩ | ⟨-, hq⟩ := set_cases hq
    · rw [hid]
      exact h.binding _ pipe hp (hwriter ▸ hbound)
    · exact h.binding q pipe₁ hq hbound
  · exact fun q q' pipe₁ pipe₂ => h.one_put hp hid
  · intro writing hw
    obtain ⟨hle, before, hbefore, hsource, hbinding, hconnection⟩ := hwriting writing hw
    obtain ⟨hlookup, -, hserves, hop⟩ := h.writing before hbefore
    rw [hsource, hbinding, hconnection]
    refine ⟨hlookup, hle, hserves, fun pipe₁ hp₁ => ?_⟩
    obtain ⟨hq, rfl⟩ | ⟨-, hp₁⟩ := set_cases hp₁
    · exact hopener.trans (hop pipe (hq ▸ hp))
    · exact hop pipe₁ hp₁
  · intro q pipe₁ hq
    obtain ⟨rfl, rfl⟩ | ⟨hne, hq⟩ := set_cases hq
    · exact hflow
    · have hflow₁ := h.flow q pipe₁ hq
      rw [← hothers q hne] at hflow₁
      exact hflow₁
  · intro q pipe₁ hq
    obtain ⟨rfl, rfl⟩ | ⟨-, hq⟩ := set_cases hq
    · rw [hid, hacked]
      exact h.told _ pipe hp
    · exact h.told q pipe₁ hq
  · exact fun id => h.silent_put hp hid

theorem tell (h : Streams w) (hfree : w.free i = true)
    (hquiet : ∀ id, ({ w with answers := answers.map (Prod.mk i) } : World).credits id = []) :
    Streams (w.tell i c closes answers) := by
  refine h.frame rfl rfl rfl (fun id => ?_) fun writing hw => ?_
  · show ({ w with worker := _, answers := w.answers ++ answers.map (Prod.mk i) } : World).credits id = _
    rw [World.credits_append, hquiet, append_nil]
  · rw [serves_tell (World.ne_of_free hfree hw)]
    exact (h.writing writing hw).2.2.1

/-- The pipes with some writing ends dropped, the bindings to these ends removed with them. -/
theorem drops {bindings : Dict SourceId StdinBinding} {f : ℕ → Pipe → Pipe} (h : Streams w)
    (hpipes : ∀ p : ℕ, w'.pipes[p]? = (w.pipes[p]?).map (f p)) (hbindings : w'.bindings = bindings)
    (hworker : w'.worker = w.worker) (hwriting : w'.writing = w.writing) (hanswers : w'.answers = w.answers)
    (hlocked : ∀ writing, w.writing = some writing →
      bindings.lookup writing.sourceId = w.bindings.lookup writing.sourceId)
    (hf : ∀ p pipe, f p pipe = pipe ∨ f p pipe = { pipe with writer := .dropped })
    (hsub : ∀ id binding, bindings.lookup id = some binding → w.bindings.lookup id = some binding ∧
      ∀ pipe, w.pipes[binding.writer]? = some pipe → f binding.writer pipe = pipe)
    (hkept : ∀ p pipe, w.pipes[p]? = some pipe → (f p pipe).writer = .bound →
      bindings.lookup pipe.sourceId = w.bindings.lookup pipe.sourceId) : Streams w' := by
  have hfields : ∀ p pipe, (f p pipe).sourceId = pipe.sourceId ∧ (f p pipe).acked = pipe.acked ∧
      ((f p pipe).writer = .bound → pipe.writer = .bound) := by
    intro p pipe
    obtain heq | heq := hf p pipe <;> rw [heq]
    · exact ⟨rfl, rfl, id⟩
    · exact ⟨rfl, rfl, fun hbound => by cases hbound⟩
  have hback : ∀ (p : ℕ) (pipe' : Pipe), w'.pipes[p]? = some pipe' →
      ∃ pipe, w.pipes[p]? = some pipe ∧ f p pipe = pipe' := by
    intro p pipe' hp
    rw [hpipes] at hp
    exact Option.map_eq_some_iff.1 hp
  have hcredits : ∀ id, w'.credits id = w.credits id := by
    intro id
    simp only [World.credits, hanswers]
  refine ⟨?_, ?_, ?_, ?_, ?_, ?_, ?_⟩
  · intro id binding hl
    rw [hbindings] at hl
    obtain ⟨hl', hsame⟩ := hsub id binding hl
    obtain ⟨pipe, hp, hid, hbound, hseq⟩ := h.bound id binding hl'
    exact ⟨pipe, by rw [hpipes, hp, Option.map_some, hsame pipe hp], hid, hbound, hseq⟩
  · intro p pipe' hp' hbound
    obtain ⟨pipe, hp, rfl⟩ := hback p pipe' hp'
    obtain ⟨hid, -, hwriter⟩ := hfields p pipe
    obtain ⟨binding, hl, heq⟩ := h.binding p pipe hp (hwriter hbound)
    exact ⟨binding, by rw [hbindings, hid, hkept p pipe hp hbound, hl], heq⟩
  · intro p q pipe₁ pipe₂ hp' hq' hsame
    obtain ⟨pipe, hp, rfl⟩ := hback p pipe₁ hp'
    obtain ⟨pipe', hq, rfl⟩ := hback q pipe₂ hq'
    rw [(hfields p pipe).1, (hfields q pipe').1] at hsame
    exact h.one p q pipe pipe' hp hq hsame
  · intro writing hw
    rw [hwriting] at hw
    obtain ⟨hl, hle, hserves, hopener⟩ := h.writing writing hw
    refine ⟨by rw [hbindings, hlocked writing hw, hl], hle, ?_, fun pipe' hp' => ?_⟩
    · rw [World.serves, hworker]
      exact hserves
    · obtain ⟨pipe, hp, rfl⟩ := hback _ pipe' hp'
      rw [(hsub _ _ ((hlocked writing hw).trans hl)).2 pipe hp]
      exact hopener pipe hp
  · intro p pipe' hp'
    obtain ⟨pipe, hp, rfl⟩ := hback p pipe' hp'
    have hflow := h.flow p pipe hp
    rw [World.partly_congr hwriting]
    obtain heq | heq := hf p pipe <;> rw [heq]
    · exact hflow
    · refine ⟨hflow.flows, hflow.stopped, fun hended => ?_, hflow.numbered,
        fun hstarting => by cases hstarting⟩
      exact ⟨(hflow.ended hended).1, rfl, (hflow.ended hended).2.2⟩
  · intro p pipe' hp'
    obtain ⟨pipe, hp, rfl⟩ := hback p pipe' hp'
    rw [hcredits, (hfields p pipe).1, (hfields p pipe).2.1]
    exact h.told p pipe hp
  · intro id hnone
    rw [hcredits]
    refine h.silent id fun pipe hmem => ?_
    obtain ⟨p, hp⟩ := mem_iff_getElem?.1 hmem
    rw [← (hfields p pipe).1]
    exact hnone _ (mem_iff_getElem?.2 ⟨p, by rw [hpipes, hp]; rfl⟩)

theorem dropWriter (h : Streams w) (hp : w.pipes[p]? = some pipe)
    (hstarting : pipe.writer = .starting) : Streams (w.dropWriter p) := by
  refine h.drops (f := fun q pipe => if p = q then { pipe with writer := .dropped } else pipe)
    (fun q => ?_) rfl rfl rfl rfl (fun _ _ => rfl) (fun q pipe => ?_)
    (fun id binding hl => ⟨hl, fun pipe₁ hp₁ => ?_⟩) fun _ _ _ _ => rfl
  · show (w.pipes.modify p _)[q]? = _
    rw [getElem?_modify]
    split_ifs <;> simp
  · show (if p = q then _ else _) = _ ∨ _
    split_ifs
    · exact .inr rfl
    · exact .inl rfl
  · obtain ⟨pipe₂, hp₂, -, hbound, -⟩ := h.bound id binding hl
    refine if_neg fun heq => ?_
    obtain rfl := Option.some.inj (hp.symm.trans (heq ▸ hp₂))
    rw [hstarting] at hbound
    cases hbound

/-- A binding is removed. -/
theorem unbind (h : Streams w) (hwriting : w.writing = none) (id : SourceId) : Streams (w.unbind id) := by
  unfold World.unbind
  split
  swap
  · exact h
  rename_i binding hl
  obtain ⟨pipe₀, hp₀, hid₀, hbound₀, -⟩ := h.bound id binding hl
  refine h.drops (f := fun q pipe => if binding.writer = q then { pipe with writer := .dropped } else pipe)
    (fun q => ?_) rfl rfl rfl rfl (fun writing hw => ?_) (fun q pipe => ?_) (fun id' binding' hl' => ?_)
    fun q pipe hq hbound => ?_
  · show (w.pipes.modify binding.writer _)[q]? = _
    rw [getElem?_modify]
    split_ifs <;> simp
  · rw [hwriting] at hw
    cases hw
  · show (if binding.writer = q then _ else _) = _ ∨ _
    split_ifs
    · exact .inr rfl
    · exact .inl rfl
  · rw [Dict.lookup_erase_eq] at hl'
    split_ifs at hl' with hne
    refine ⟨hl', fun pipe hp => if_neg fun heq => hne ?_⟩
    obtain ⟨pipe₁, hp₁, hid₁, -⟩ := h.bound id' binding' hl'
    obtain rfl := Option.some.inj (hp₁.symm.trans (heq ▸ hp₀))
    exact hid₁.symm.trans hid₀
  · rw [Dict.lookup_erase_eq, if_neg]
    intro heq
    have hqw : binding.writer = q := h.one _ _ _ _ hp₀ hq (hid₀.trans heq.symm)
    rw [if_pos hqw] at hbound
    cases hbound

theorem unbindAll (h : Streams w) (hwriting : w.writing = none) : Streams w.unbindAll := by
  refine h.drops (f := fun _ pipe => if pipe.writer = .bound then { pipe with writer := .dropped } else pipe)
    (fun q => ?_) rfl rfl rfl rfl (fun writing hw => ?_) (fun q pipe => ?_)
    (fun id binding hl => by cases hl) fun q pipe _ hbound => ?_
  · exact getElem?_map
  · rw [hwriting] at hw
    cases hw
  · show (if pipe.writer = .bound then _ else _) = _ ∨ _
    split_ifs
    · exact .inr rfl
    · exact .inl rfl
  · by_cases heq : pipe.writer = .bound
    · rw [if_pos heq] at hbound
      cases hbound
    · rw [if_neg heq] at hbound
      exact absurd hbound heq

/-- The lock is taken for the next chunk of a stream. -/
theorem takes (h : Streams w) (hwriting : w.writing = none)
    (hlookup : w.bindings.lookup writing.sourceId = some writing.binding)
    (hwritten : writing.written = 0) (hserves : w.serves writing.connection = true)
    (hopener : ∀ pipe, w.pipes[writing.binding.writer]? = some pipe → pipe.opener = writing.connection) :
    Streams { w with writing := some writing } := by
  refine ⟨h.bound, h.binding, h.one, fun writing' hw => ?_, fun p pipe hp => ?_, h.told, h.silent⟩
  · cases hw
    exact ⟨hlookup, by omega, hserves, hopener⟩
  · have hpartly : ({ w with writing := some writing } : World).partly p = w.partly p := by
      rw [World.partly_of_none hwriting]
      show (if writing.binding.writer = p then writing.raw.take writing.written else []) = []
      rw [hwritten]
      split_ifs <;> rfl
    rw [hpartly]
    exact h.flow p pipe hp

theorem gives (h : Streams w) (hwriting : w.writing = some writing)
    (hp : w.pipes[writing.binding.writer]? = some pipe) (hclosed : pipe.readable = false) :
    Streams { w with writing := none } := by
  refine ⟨h.bound, h.binding, h.one, fun writing' hw => ?_, fun p pipe' hp' => ?_, h.told, h.silent⟩
  · cases hw
  have hflow := h.flow p pipe' hp'
  by_cases hq : writing.binding.writer = p
  · obtain rfl := Option.some.inj ((hq ▸ hp).symm.trans hp')
    refine ⟨fun hreads => ?_, hflow.stopped, hflow.ended, hflow.numbered, hflow.fresh⟩
    rw [hclosed] at hreads
    cases hreads
  · have hpartly : w.partly p = [] := by
      simp only [World.partly, hwriting, if_neg hq]
    rw [hpartly] at hflow
    exact hflow

theorem uses (h : Streams w) (hp : w.pipes[p]? = some pipe) (hid : pipe'.sourceId = pipe.sourceId)
    (hopener : pipe'.opener = pipe.opener) (hwriter : pipe'.writer = pipe.writer)
    (hacked : pipe'.acked = pipe.acked) (hflow : Flow pipe' (w.partly p)) : Streams (w.put p pipe') :=
  h.put hp hid hopener hwriter hacked
    (fun writing hw => ⟨(h.writing writing hw).2.1, writing, hw, rfl, rfl, rfl⟩) (fun _ _ => rfl) hflow

/-- Some bytes of the chunk go into the pipe. -/
theorem pushes {n : ℕ} (h : Streams w) (hwriting : w.writing = some writing)
    (hp : w.pipes[writing.binding.writer]? = some pipe) (hreads : pipe.readable = true) :
    Streams { w.put writing.binding.writer
        { pipe with buffer := pipe.buffer ++ (writing.raw.drop writing.written).take n } with
      writing := some { writing with
        written := writing.written + ((writing.raw.drop writing.written).take n).length } } := by
  have hpartly : w.partly writing.binding.writer = writing.raw.take writing.written := by
    simp only [World.partly, hwriting, if_true]
  have hmore : writing.raw.take (writing.written + ((writing.raw.drop writing.written).take n).length)
      = writing.raw.take writing.written ++ (writing.raw.drop writing.written).take n := by
    rw [take_add, length_take, ← take_eq_take_min]
  have hflow := h.flow _ pipe hp
  rw [hpartly] at hflow
  refine h.put hp rfl rfl rfl rfl (fun writing' hw => ?_) (fun q hq => ?_) ?_
  · cases hw
    refine ⟨?_, writing, hwriting, rfl, rfl, rfl⟩
    have hle := (h.writing writing hwriting).2.1
    simp only [length_take, length_drop]
    omega
  · simp only [World.partly, hwriting, if_neg (Ne.symm hq)]
  · simp only [World.partly, if_true, hmore]
    refine ⟨fun _ => ?_, fun hclosed => ?_, hflow.ended, hflow.numbered, hflow.fresh⟩
    · show pipe.received ++ (pipe.buffer ++ _) = pipe.ackedBytes ++ (_ ++ _)
      rw [← append_assoc, hflow.flows hreads, append_assoc]
    · rw [hreads] at hclosed
      cases hclosed

theorem ackedBytes_append (pipe : Pipe) (chunk : Chunk) :
    ({ pipe with acked := pipe.acked ++ [chunk] } : Pipe).ackedBytes = pipe.ackedBytes ++ chunk.raw := by
  simp [Pipe.ackedBytes]

/-- The write is complete: the chunk is acknowledged and the next one expected. -/
theorem acknowledges (h : Streams w) (hwriting : w.writing = some writing)
    (hp : w.pipes[writing.binding.writer]? = some pipe)
    (hfull : writing.written = writing.raw.length) :
    Streams (w.acknowledged writing pipe c) := by
  obtain ⟨hlookup, -, -, hopener⟩ := h.writing writing hwriting
  obtain ⟨pipe₀, hp₀, hid, hbound, hseq⟩ := h.bound _ _ hlookup
  cases hp.symm.trans hp₀
  have hlt : writing.binding.writer < w.pipes.length := (List.getElem?_eq_some_iff.1 hp).1
  have hpartly : w.partly writing.binding.writer = writing.raw := by
    simp only [World.partly, hwriting, if_true, hfull, take_length]
  have hnone : ∀ q, q ≠ writing.binding.writer → w.partly q = [] := by
    intro q hq
    simp only [World.partly, hwriting, if_neg (Ne.symm hq)]
  refine ⟨?_, ?_, ?_, ?_, ?_, ?_, ?_⟩
  · intro id binding hl
    obtain ⟨rfl, rfl⟩ | ⟨hne, hl⟩ := lookup_insert_cases hl
    · refine ⟨_, getElem?_set_self hlt, hid, hbound, ?_⟩
      show writing.binding.expectedSeq + 1 = UInt64.ofNat (pipe.acked ++ [_]).length
      rw [length_append, length_singleton, UInt64.ofNat_add, hseq]
      rfl
    · obtain ⟨pipe₁, hp₁, hid₁, hrest⟩ := h.bound id binding hl
      refine ⟨pipe₁, (getElem?_set_ne fun hq => hne ?_).trans hp₁, hid₁, hrest⟩
      obtain rfl := Option.some.inj (hp₁.symm.trans (hq ▸ hp))
      exact hid₁.symm.trans hid
  · intro q pipe₁ hq hbound₁
    obtain ⟨rfl, rfl⟩ | ⟨hne, hq⟩ := set_cases hq
    · refine ⟨{ writing.binding with expectedSeq := writing.binding.expectedSeq + 1 }, ?_, rfl⟩
      show (w.bindings.insert writing.sourceId _).lookup pipe.sourceId = _
      rw [hid]
      exact AList.lookup_insert _
    · obtain ⟨binding, hl, rfl⟩ := h.binding q pipe₁ hq hbound₁
      refine ⟨binding, (AList.lookup_insert_ne fun hsame => hne ?_).trans hl, rfl⟩
      exact h.one _ _ pipe₁ pipe hq hp (hsame.trans hid.symm)
  · exact fun q q' pipe₁ pipe₂ => h.one_put hp (by rfl)
  · intro writing' hw
    cases hw
  · intro q pipe₁ hq
    obtain ⟨rfl, rfl⟩ | ⟨hne, hq⟩ := set_cases hq
    · have hflow := h.flow _ pipe hp
      rw [hpartly] at hflow
      refine ⟨fun hreads => ?_, fun hclosed => ?_, fun hended => ?_, fun k chunk hk => ?_,
        fun hstarting => ?_⟩
      · rw [ackedBytes_append]
        exact (hflow.flows hreads).trans (append_nil _).symm
      · rw [ackedBytes_append]
        exact (hflow.stopped hclosed).trans (prefix_append _ _)
      · -- an ended capture has no binding
        have hdropped := (hflow.ended hended).2.1
        rw [hbound] at hdropped
        cases hdropped
      · obtain ⟨rfl, rfl⟩ | hk := append_cases hk
        · exact ⟨hseq, (hopener pipe hp).symm⟩
        · exact hflow.numbered k chunk hk
      · rw [show pipe.writer = .starting from hstarting] at hbound
        cases hbound
    · have hflow := h.flow q pipe₁ hq
      rw [hnone q hne] at hflow
      exact hflow
  · intro q pipe₁ hq
    rw [World.credits_acknowledged]
    obtain ⟨rfl, rfl⟩ | ⟨hne, hq⟩ := set_cases hq
    · rw [if_pos hid.symm, map_append, ← h.told _ pipe hp]
      rfl
    · rw [if_neg fun hsource => hne (h.one _ _ pipe₁ pipe hq hp (hsource.symm.trans hid.symm)),
        append_nil]
      exact h.told q pipe₁ hq
  · intro id hnot
    have hpipe := hnot _ (mem_iff_getElem?.2 ⟨_, getElem?_set_self hlt⟩)
    rw [World.credits_acknowledged, if_neg fun hsource => hpipe (hid.trans hsource), append_nil]
    exact h.silent_put hp (by rfl) hnot

/-- A start makes a pipe, for a source that had none. -/
theorem starts (h : Streams w) (hnew : ∀ pipe ∈ w.pipes, pipe.sourceId ≠ id) :
    Streams { w with pipes := w.pipes ++ [⟨id, i, .starting, true, [], [], false, []⟩] } := by
  have hold : ∀ {q : ℕ} {pipe : Pipe}, w.pipes[q]? = some pipe →
      (w.pipes ++ [⟨id, i, .starting, true, [], [], false, []⟩])[q]? = some pipe := by
    intro q pipe hq
    exact (getElem?_append_left (List.getElem?_eq_some_iff.1 hq).1).trans hq
  have hmem : ∀ {q : ℕ} {pipe : Pipe}, w.pipes[q]? = some pipe → pipe ∈ w.pipes :=
    fun hq => mem_iff_getElem?.2 ⟨_, hq⟩
  refine ⟨?_, ?_, ?_, ?_, ?_, ?_, ?_⟩
  · intro id' binding hl
    obtain ⟨pipe, hp, hrest⟩ := h.bound id' binding hl
    exact ⟨pipe, hold hp, hrest⟩
  · intro q pipe hq hbound
    obtain ⟨-, rfl⟩ | hq := append_cases hq
    · cases hbound
    · exact h.binding q pipe hq hbound
  · intro q q' pipe₁ pipe₂ hq hq' hsame
    obtain ⟨rfl, rfl⟩ | hq := append_cases hq <;> obtain ⟨rfl, rfl⟩ | hq' := append_cases hq'
    · rfl
    · exact absurd hsame.symm (hnew _ (hmem hq'))
    · exact absurd hsame (hnew _ (hmem hq))
    · exact h.one _ _ pipe₁ pipe₂ hq hq' hsame
  · intro writing hw
    obtain ⟨hlookup, hle, hserves, hopener⟩ := h.writing writing hw
    refine ⟨hlookup, hle, hserves, fun pipe hp => ?_⟩
    obtain ⟨pipe', hp', -⟩ := h.bound _ _ hlookup
    obtain rfl := Option.some.inj ((hold hp').symm.trans hp)
    exact hopener _ hp'
  · intro q pipe hq
    obtain ⟨rfl, rfl⟩ | hq := append_cases hq
    · have hpartly : w.partly w.pipes.length = [] := by
        unfold World.partly
        split
        · rename_i writing hw
          obtain ⟨pipe', hp', -⟩ := h.bound _ _ (h.writing writing hw).1
          exact if_neg fun heq => absurd (List.getElem?_eq_some_iff.1 hp').1 (by omega)
        · rfl
      refine ⟨fun _ => ?_, fun hclosed => ?_, fun hended => ?_, fun k chunk hk => ?_, fun _ => rfl⟩
      · exact hpartly.symm
      · cases hclosed
      · cases hended
      · cases hk
    · exact h.flow q pipe hq
  · intro q pipe hq
    obtain ⟨rfl, rfl⟩ | hq := append_cases hq
    · exact h.silent id hnew
    · exact h.told q pipe hq
  · intro id' hnot
    exact h.silent id' fun pipe hp => hnot pipe (mem_append_left _ hp)

/-- The writing end of a pipe is bound to its source. -/
theorem publishes (h : Streams w) (hp : w.pipes[p]? = some pipe) (hstarting : pipe.writer = .starting)
    (hwriting : w.writing = none) :
    Streams { (w.unbind pipe.sourceId).put p { pipe with writer := .bound } with
      bindings := w.bindings.insert pipe.sourceId ⟨p, 0⟩ } := by
  have hunbound : w.bindings.lookup pipe.sourceId = none := by
    cases hl : w.bindings.lookup pipe.sourceId with
    | none => rfl
    | some binding =>
      obtain ⟨pipe', hp', hid, hbound, -⟩ := h.bound _ _ hl
      have hsame := h.one _ _ pipe' pipe hp' hp hid
      obtain rfl := Option.some.inj ((hsame ▸ hp').symm.trans hp)
      rw [hstarting] at hbound
      cases hbound
  have hunbind : w.unbind pipe.sourceId = w := by
    simp only [World.unbind, hunbound]
  rw [hunbind]
  have hlt : p < w.pipes.length := (List.getElem?_eq_some_iff.1 hp).1
  have hflow := h.flow p pipe hp
  refine ⟨?_, ?_, ?_, ?_, ?_, ?_, ?_⟩
  · intro id binding hl
    obtain ⟨rfl, rfl⟩ | ⟨hne, hl⟩ := lookup_insert_cases hl
    · refine ⟨_, getElem?_set_self hlt, rfl, rfl, ?_⟩
      show (0 : UInt64) = UInt64.ofNat pipe.acked.length
      rw [hflow.fresh hstarting]
      rfl
    · obtain ⟨pipe₁, hp₁, hid₁, hrest⟩ := h.bound id binding hl
      refine ⟨pipe₁, (getElem?_set_ne fun hq => hne ?_).trans hp₁, hid₁, hrest⟩
      obtain rfl := Option.some.inj (hp₁.symm.trans (hq ▸ hp))
      exact hid₁.symm
  · intro q pipe₁ hq hbound
    obtain ⟨rfl, rfl⟩ | ⟨hne, hq⟩ := set_cases hq
    · exact ⟨⟨q, 0⟩, AList.lookup_insert _, rfl⟩
    · obtain ⟨binding, hl, rfl⟩ := h.binding q pipe₁ hq hbound
      exact ⟨binding, (AList.lookup_insert_ne fun hsame => hne (h.one _ _ pipe₁ pipe hq hp hsame)).trans hl, rfl⟩
  · exact fun q q' pipe₁ pipe₂ => h.one_put hp (by rfl)
  · intro writing hw
    have hw : w.writing = some writing := hw
    rw [hwriting] at hw
    cases hw
  · intro q pipe₁ hq
    obtain ⟨rfl, rfl⟩ | ⟨-, hq⟩ := set_cases hq
    · refine ⟨hflow.flows, hflow.stopped, fun hended => ?_, hflow.numbered, fun hstart => by cases hstart⟩
      have hdropped := (hflow.ended hended).2.1
      rw [hstarting] at hdropped
      cases hdropped
    · exact h.flow q pipe₁ hq
  · intro q pipe₁ hq
    obtain ⟨rfl, rfl⟩ | ⟨-, hq⟩ := set_cases hq
    · exact h.told _ pipe hp
    · exact h.told q pipe₁ hq
  · exact fun id => h.silent_put hp (by rfl)

theorem partly_of_unbound (h : Streams w) (hp : w.pipes[p]? = some pipe) (hunbound : pipe.writer ≠ .bound) :
    w.partly p = [] := by
  unfold World.partly
  split
  · rename_i writing hw
    obtain ⟨pipe', hp', -, hbound, -⟩ := h.bound _ _ (h.writing writing hw).1
    refine if_neg fun heq => hunbound ?_
    obtain rfl := Option.some.inj ((heq ▸ hp').symm.trans hp)
    exact hbound
  · rfl

theorem drained (h : Streams w) (hp : w.pipes[p]? = some pipe) (hreads : pipe.readable = true)
    (hbuffer : pipe.buffer = []) (hdropped : pipe.writer = .dropped) :
    pipe.received = pipe.ackedBytes := by
  have hflows := (h.flow p pipe hp).flows hreads
  rw [h.partly_of_unbound hp (by rw [hdropped]; decide), hbuffer, append_nil, append_nil] at hflows
  exact hflows

/-- Every step keeps the streams. -/
theorem step (h : Streams w) (hb : Behaved parse size w e) (hst : w.next parse size e = some w') :
    Streams w' := by
  cases e with
  | serve e =>
    simp only [World.next] at hst
    split_ifs at hst with hfree
    obtain ⟨worker, hworker, hst⟩ := Option.bind_eq_some_iff.1 hst
    cases hst
    refine h.frame rfl rfl rfl (fun _ => rfl) fun writing hw => ?_
    have hserves := (h.writing writing hw).2.2.1
    obtain ⟨c, hc, hserved⟩ := (Option.any_eq_true _ _).1 hserves
    have hother : connectionOf e ≠ some writing.connection := by
      intro heq
      rw [heq] at hfree
      exact World.ne_of_free hfree hw rfl
    exact (Option.any_eq_true _ _).2 ⟨c, connections_of_next hworker hother hc, hserved⟩
  | chunk i requestId sourceId seq base64 =>
    obtain ⟨c, hc, hst⟩ := Option.bind_eq_some_iff.1 hst
    split at hst
    swap
    · cases hst
    rename_i hserving
    obtain ⟨hphase, hfree⟩ := hserving
    split at hst
    · rename_i closes answers hnoted
      cases hst
      refine h.tell hfree fun id => ?_
      obtain rfl | ⟨reason, rfl⟩ := dispatchChunk_answer hnoted <;> rfl
    · rename_i id binding raw hnoted
      split_ifs at hst with hwriting
      cases hst
      refine h.takes hwriting (dispatchChunk_write hnoted).1 rfl ?_ fun pipe hp => ?_
      · exact (Option.any_eq_true _ _).2 ⟨c, hc, c.served_of_serving hphase⟩
      · have hopener : (Noted.write id binding raw).byOpener w i := hnoted ▸ hb.1 c hc
        exact hopener pipe hp
  | close i requestId sourceId =>
    obtain ⟨c, hc, hst⟩ := Option.bind_eq_some_iff.1 hst
    split at hst
    swap
    · cases hst
    rename_i hserving
    split at hst
    · cases hst
      exact h.tell hserving.2 fun _ => rfl
    · split at hst
      · cases hst
        exact h.tell hserving.2 fun _ => rfl
      · rename_i id hid
        split_ifs at hst with hwriting
        cases hst
        refine (h.unbind hwriting id).tell ?_ fun _ => rfl
        rw [World.free, World.unbind_writing]
        exact hserving.2
  | push n =>
    obtain ⟨writing, hwriting, hst⟩ := Option.bind_eq_some_iff.1 hst
    obtain ⟨pipe, hp, hst⟩ := Option.bind_eq_some_iff.1 hst
    dsimp only at hst
    split_ifs at hst with hroom
    cases hst
    exact h.pushes hwriting hp hroom.1
  | acknowledge =>
    obtain ⟨writing, hwriting, hst⟩ := Option.bind_eq_some_iff.1 hst
    obtain ⟨pipe, hp, hst⟩ := Option.bind_eq_some_iff.1 hst
    obtain ⟨c, hc, hst⟩ := Option.bind_eq_some_iff.1 hst
    split_ifs at hst with hfull
    cases hst
    exact h.acknowledges hwriting hp hfull
  | broken =>
    obtain ⟨writing, hwriting, hst⟩ := Option.bind_eq_some_iff.1 hst
    obtain ⟨pipe, hp, hst⟩ := Option.bind_eq_some_iff.1 hst
    obtain ⟨c, hc, hst⟩ := Option.bind_eq_some_iff.1 hst
    split_ifs at hst with hclosed
    cases hst
    refine (h.gives hwriting hp hclosed.1).tell (i := writing.connection) ?_ fun _ => rfl
    rfl
  | start i id =>
    simp only [World.next] at hst
    split_ifs at hst with hnew
    cases hst
    exact h.starts hnew.2
  | publish p =>
    obtain ⟨pipe, hp, hst⟩ := Option.bind_eq_some_iff.1 hst
    split_ifs at hst with hstarting
    cases hst
    exact h.publishes hp hstarting.1 hstarting.2
  | abandon p =>
    obtain ⟨pipe, hp, hst⟩ := Option.bind_eq_some_iff.1 hst
    split_ifs at hst with hstarting
    cases hst
    exact h.dropWriter hp hstarting
  | stop id =>
    simp only [World.next] at hst
    split_ifs at hst with hwriting
    cases hst
    exact h.unbind hwriting id
  | shutdown =>
    simp only [World.next] at hst
    split_ifs at hst with hwriting
    cases hst
    exact h.unbindAll hwriting
  | read p n =>
    obtain ⟨pipe, hp, hst⟩ := Option.bind_eq_some_iff.1 hst
    split_ifs at hst with hreads
    cases hst
    have hflow := h.flow p pipe hp
    refine h.uses hp rfl rfl rfl rfl ⟨fun _ => ?_, fun hclosed => ?_, fun hended => ?_, hflow.numbered,
      hflow.fresh⟩
    · show pipe.received ++ pipe.buffer.take n ++ pipe.buffer.drop n = _
      rw [append_assoc, take_append_drop]
      exact hflow.flows hreads
    · rw [hreads] at hclosed
      cases hclosed
    · rw [(hflow.ended hended).2.2] at hreads
      cases hreads
  | finish p =>
    obtain ⟨pipe, hp, hst⟩ := Option.bind_eq_some_iff.1 hst
    split_ifs at hst with hempty
    cases hst
    obtain ⟨hreads, hbuffer, hdropped⟩ := hempty
    have hflow := h.flow p pipe hp
    have hall : pipe.received = pipe.ackedBytes := h.drained hp hreads hbuffer hdropped
    refine h.uses hp rfl rfl rfl rfl ⟨fun hreads => ?_, fun _ => ?_,
      fun _ => ⟨hall, hdropped, rfl⟩, hflow.numbered, hflow.fresh⟩
    · cases hreads
    show pipe.received <+: pipe.ackedBytes
    rw [hall]
  | drop p =>
    obtain ⟨pipe, hp, hst⟩ := Option.bind_eq_some_iff.1 hst
    split_ifs at hst with hreads
    cases hst
    have hflow := h.flow p pipe hp
    refine h.uses hp rfl rfl rfl rfl ⟨fun hreads => ?_, fun _ => ?_,
      fun hended => ⟨(hflow.ended hended).1, (hflow.ended hended).2.1, rfl⟩, hflow.numbered, hflow.fresh⟩
    · cases hreads
    have hlength := hb.1 pipe hp
    have hflows := hflow.flows hreads
    show pipe.received <+: pipe.ackedBytes
    exact prefix_of_prefix_length_le (hflows ▸ prefix_append _ _) (prefix_append _ _) hlength

end Streams

/-! ### Over whole runs -/

theorem streams_new {worker : Shared.World} : Streams (.new worker) := by
  refine ⟨fun id binding hl => ?_, fun p pipe hp => ?_, fun p q pipe pipe' hp => ?_,
    fun writing hw => ?_, fun p pipe hp => ?_, fun p pipe hp => ?_, fun _ _ => rfl⟩
  · cases hl
  · cases hp
  · cases hp
  · cases hw
  · cases hp
  · cases hp

/-- The bound pipes were bound before, for the same connections. -/
def Kept (w w' : World) : Prop :=
  ∀ pipe' ∈ w'.pipes, pipe'.writer = .bound →
    ∃ pipe ∈ w.pipes, pipe.writer = .bound ∧ pipe.opener = pipe'.opener

theorem kept_of_eq (h : w'.pipes = w.pipes) : Kept w w' :=
  fun pipe' hp hbound => ⟨pipe', h ▸ hp, hbound, rfl⟩

theorem kept_put (hp : w.pipes[p]? = some pipe) (h : w'.pipes = w.pipes.set p pipe')
    (hopener : pipe'.opener = pipe.opener) (hwriter : pipe'.writer = pipe.writer) : Kept w w' := by
  intro pipe₁ hp₁ hbound
  rw [h] at hp₁
  obtain hp₁ | rfl := mem_or_eq_of_mem_set hp₁
  · exact ⟨pipe₁, hp₁, hbound, rfl⟩
  · exact ⟨pipe, mem_of_getElem? hp, hwriter ▸ hbound, hopener.symm⟩

theorem kept_dropWriter (w : World) (p : ℕ) : Kept w (w.dropWriter p) := by
  intro pipe' hp hbound
  obtain ⟨q, hq⟩ := mem_iff_getElem?.1 hp
  have hq : (w.pipes.modify p _)[q]? = some pipe' := hq
  rw [getElem?_modify] at hq
  split_ifs at hq
  · obtain ⟨pipe, -, rfl⟩ := Option.map_eq_some_iff.1 hq
    cases hbound
  · exact ⟨pipe', mem_of_getElem? (by simpa using hq), hbound, rfl⟩

theorem kept_unbind (w : World) (id : SourceId) : Kept w (w.unbind id) := by
  unfold World.unbind
  split
  · exact kept_dropWriter w _
  · exact kept_of_eq rfl

theorem kept_unbindAll (w : World) : Kept w w.unbindAll := by
  intro pipe' hp hbound
  obtain ⟨pipe, -, rfl⟩ := mem_map.1 hp
  split_ifs at hbound with hwriter
  exact absurd hbound hwriter

/-- Only a start that comes to its end binds a pipe. -/
theorem kept_of_next (hst : w.next parse size e = some w') : Kept w w' ∨ ∃ p pipe, e = .publish p ∧
    w.pipes[p]? = some pipe ∧ w'.worker = w.worker ∧
    w'.pipes = (w.unbind pipe.sourceId).pipes.set p { pipe with writer := .bound } := by
  cases e with
  | serve e =>
    simp only [World.next] at hst
    split_ifs at hst
    obtain ⟨worker, -, hst⟩ := Option.bind_eq_some_iff.1 hst
    cases hst
    exact .inl (kept_of_eq rfl)
  | chunk i requestId sourceId seq base64 =>
    obtain ⟨c, -, hst⟩ := Option.bind_eq_some_iff.1 hst
    split at hst
    swap
    · cases hst
    split at hst
    · cases hst
      exact .inl (kept_of_eq rfl)
    · split_ifs at hst
      cases hst
      exact .inl (kept_of_eq rfl)
  | close i requestId sourceId =>
    obtain ⟨c, -, hst⟩ := Option.bind_eq_some_iff.1 hst
    split at hst
    swap
    · cases hst
    split at hst
    · cases hst
      exact .inl (kept_of_eq rfl)
    · split at hst
      · cases hst
        exact .inl (kept_of_eq rfl)
      · split_ifs at hst
        cases hst
        exact .inl (kept_unbind w _)
  | push n =>
    obtain ⟨writing, -, hst⟩ := Option.bind_eq_some_iff.1 hst
    obtain ⟨pipe, hp, hst⟩ := Option.bind_eq_some_iff.1 hst
    dsimp only at hst
    split_ifs at hst
    cases hst
    exact .inl (kept_put hp rfl rfl rfl)
  | acknowledge =>
    obtain ⟨writing, -, hst⟩ := Option.bind_eq_some_iff.1 hst
    obtain ⟨pipe, hp, hst⟩ := Option.bind_eq_some_iff.1 hst
    obtain ⟨c, -, hst⟩ := Option.bind_eq_some_iff.1 hst
    split_ifs at hst
    cases hst
    exact .inl (kept_put hp rfl rfl rfl)
  | broken =>
    obtain ⟨writing, -, hst⟩ := Option.bind_eq_some_iff.1 hst
    obtain ⟨pipe, -, hst⟩ := Option.bind_eq_some_iff.1 hst
    obtain ⟨c, -, hst⟩ := Option.bind_eq_some_iff.1 hst
    split_ifs at hst
    cases hst
    exact .inl (kept_of_eq rfl)
  | start i id =>
    simp only [World.next] at hst
    split_ifs at hst
    cases hst
    refine .inl fun pipe' hp hbound => ?_
    obtain hp | hp := mem_append.1 hp
    · exact ⟨pipe', hp, hbound, rfl⟩
    · obtain rfl := mem_singleton.1 hp
      cases hbound
  | publish p =>
    obtain ⟨pipe, hp, hst⟩ := Option.bind_eq_some_iff.1 hst
    split_ifs at hst
    cases hst
    exact .inr ⟨p, pipe, rfl, hp, World.unbind_worker w _, rfl⟩
  | abandon p =>
    obtain ⟨pipe, -, hst⟩ := Option.bind_eq_some_iff.1 hst
    split_ifs at hst
    cases hst
    exact .inl (kept_dropWriter w p)
  | stop id =>
    simp only [World.next] at hst
    split_ifs at hst
    cases hst
    exact .inl (kept_unbind w id)
  | shutdown =>
    simp only [World.next] at hst
    split_ifs at hst
    cases hst
    exact .inl (kept_unbindAll w)
  | read p n | finish p | drop p =>
    obtain ⟨pipe, hp, hst⟩ := Option.bind_eq_some_iff.1 hst
    split_ifs at hst
    cases hst
    exact .inl (kept_put hp rfl rfl rfl)

theorem attended_step (h : Attended w) (hb : Behaved parse size w e)
    (hst : w.next parse size e = some w') : Attended w' := by
  intro pipe' hp' hbound
  have hold : ∀ pipe ∈ w.pipes, pipe.writer = .bound → w'.serves pipe.opener = true :=
    fun pipe hp hbound => hb.2 w' hst pipe hp hbound (h pipe hp hbound)
  obtain hkept | ⟨p, pipe, rfl, hp, hworker, hpipes⟩ := kept_of_next hst
  · obtain ⟨pipe, hp, hbound, hopener⟩ := hkept pipe' hp' hbound
    exact hopener ▸ hold pipe hp hbound
  · rw [hpipes] at hp'
    obtain hp' | rfl := mem_or_eq_of_mem_set hp'
    · obtain ⟨pipe₁, hp₁, hbound, hopener⟩ := kept_unbind w _ pipe' hp' hbound
      exact hopener ▸ hold pipe₁ hp₁ hbound
    · rw [World.serves, hworker]
      exact hb.1 pipe hp

theorem streams_run {worker : Shared.World}
    (h : ((forwarding parse size).only (Behaved parse size)).Run (.new worker) es w) :
    Streams w ∧ Attended w := by
  refine h.invariant_only (I := fun w => Streams w ∧ Attended w) ⟨streams_new, fun pipe hp => ?_⟩ ?_
  · cases hp
  · intro w e w' hI hb hst
    exact ⟨hI.1.step hb hst, attended_step hI.2 hb hst⟩

namespace Streams

theorem exact (h : Streams w) : Exact w := by
  refine ⟨fun p pipe hp => (h.flow p pipe hp).numbered, h.told, fun p pipe hp => ?_,
    fun p pipe hp => (h.flow p pipe hp).stopped, fun p pipe hp hended => ((h.flow p pipe hp).ended hended).1⟩
  have hflow := h.flow p pipe hp
  cases hreads : pipe.readable with
  | true => exact hflow.flows hreads ▸ prefix_append _ _
  | false => exact (hflow.stopped hreads).trans (prefix_append _ _)

theorem next_read (hp : w.pipes[p]? = some pipe) (hreads : pipe.readable = true) (n : ℕ) :
    w.next parse size (.read p n) = some (w.put p { pipe with
      buffer := pipe.buffer.drop n, received := pipe.received ++ pipe.buffer.take n }) := by
  simp only [World.next, hp, Option.bind_eq_bind, Option.bind_some, hreads, if_true]

theorem next_finish (hp : w.pipes[p]? = some pipe) (hreads : pipe.readable = true)
    (hbuffer : pipe.buffer = []) (hdropped : pipe.writer = .dropped) :
    w.next parse size (.finish p) = some (w.put p { pipe with ended := true, readable := false }) := by
  simp only [World.next, hp, Option.bind_eq_bind, Option.bind_some, hreads, hbuffer, hdropped, and_self,
    if_true]

/-- A capture whose pipe has no writer reads what there is and comes to the end. -/
theorem drains (h : Streams w) (hp : w.pipes[p]? = some pipe) (hdropped : pipe.writer = .dropped)
    (hreads : pipe.readable = true) : ∃ w' pipe',
      (forwarding parse size).Run w [.read p pipe.buffer.length, .finish p] w' ∧
      w'.pipes[p]? = some pipe' ∧ pipe'.ended = true ∧ pipe'.received = pipe.ackedBytes := by
  have hlt : p < w.pipes.length := (List.getElem?_eq_some_iff.1 hp).1
  have hflows := (h.flow p pipe hp).flows hreads
  rw [h.partly_of_unbound hp (by rw [hdropped]; decide), append_nil] at hflows
  have hread := @next_read parse size w p pipe hp hreads pipe.buffer.length
  rw [drop_length, take_length] at hread
  have hfinish := @next_finish parse size (w.put p { pipe with
    buffer := [], received := pipe.received ++ pipe.buffer }) p _ (getElem?_set_self hlt) hreads rfl hdropped
  refine ⟨_, _, (Machine.Run.single hread).snoc hfinish, getElem?_set_self ?_, rfl, hflows⟩
  simpa [World.put] using hlt

end Streams

/-- **Forwarded stdin is exact and ends with its window**, in every run in which nobody but its
opener sends the next chunk of a stream, no connection ends with a stream bound, and no capture
stops in the middle of a chunk. -/
theorem forwarded_exactly {worker : Shared.World}
    (h : ((forwarding parse size).only (Behaved parse size)).Run (.new worker) es w) :
    Exact w ∧ Released parse size w := by
  obtain ⟨hstreams, hattended⟩ := streams_run h
  refine ⟨hstreams.exact, fun p pipe hp hended id binding hl heq => ?_,
    fun p pipe hp _ hdropped hreads => hstreams.drains hp hdropped hreads⟩
  obtain ⟨pipe', hp', -, hbound, -⟩ := hstreams.bound id binding hl
  obtain rfl := Option.some.inj ((heq ▸ hp').symm.trans hp)
  have hserves := hattended _ (mem_of_getElem? hp) hbound
  rw [hended] at hserves
  cases hserves

/-! ### A stream that outlives its connection -/

/-- A source. -/
def exampleSource : SourceId := ⟨⟨List.replicate 15 0 ++ [1], by simp⟩⟩

/-- A parser of the text of one source. -/
def exampleParse (text : String) : Option SourceId :=
  if text = uuidText exampleSource.uuid then some exampleSource else none

/-- A window attaches. -/
def attachEvents (i : ℕ) (pid : UInt32) : List Event :=
  [.serve (.accept 0), .serve (.request i (.control (.hello "r" pid "w" 1)))]

/-- A chunk of the two bytes "AB" goes into the pipe and is acknowledged. -/
def chunkEvents (i : ℕ) (seq : UInt64) : List Event :=
  [.chunk i "r" (uuidText exampleSource.uuid) seq [81, 85, 73, 61], .push 2, .acknowledge]

/-- A window opens a stream and forwards a chunk. -/
def openEvents : List Event :=
  attachEvents 0 401 ++ [.start 0 exampleSource, .publish 0] ++ chunkEvents 0 0

/-- It closes the stream, and dies. -/
def closeEvents : List Event := [.close 0 "r" (uuidText exampleSource.uuid), .serve (.lost 0)]

/-- Another window sends a chunk of it, then the window that opened it dies. -/
def strayEvents : List Event := attachEvents 1 402 ++ chunkEvents 1 1 ++ [.serve (.lost 0)]

theorem forwarded_exactly_once : ∃ w,
    ((forwarding exampleParse fun _ => 0).only (Behaved exampleParse fun _ => 0)).Run
      (.new (.new "x" 0 10))
      (openEvents ++ closeEvents) w ∧
    Exact w ∧ Released exampleParse (fun _ => 0) w := by
  obtain ⟨w, hrun, -⟩ : ∃ w,
      ((forwarding exampleParse fun _ => 0).only (Behaved exampleParse fun _ => 0)).Run
        (.new (.new "x" 0 10)) (openEvents ++ closeEvents) w ∧ True :=
    Machine.exists_run_only (by decide +kernel)
  exact ⟨w, hrun, forwarded_exactly hrun⟩

/-- **A stream outlives its connection**, and takes the next chunk from any other: a second window
sends a chunk of it, and the one that opened it dies without closing it. -/
theorem bound_after_end : ∃ w,
    (forwarding exampleParse fun _ => 0).Run (.new (.new "x" 0 10)) (openEvents ++ strayEvents) w ∧
    ¬ Exact w ∧ ¬ Released exampleParse (fun _ => 0) w := by
  obtain ⟨w, hw, hpipe, hended, hbound⟩ : ∃ w, (forwarding exampleParse fun _ => 0).Run
      (.new (.new "x" 0 10)) (openEvents ++ strayEvents) w ∧
      (w.pipes[0]?.any fun pipe : Pipe =>
        decide (pipe.acked[1]? = some (⟨1, [65, 66], 1⟩ : Chunk) ∧ pipe.opener = 0)) = true ∧
      w.serves 0 = false ∧ w.bindings.lookup exampleSource = some ⟨0, 2⟩ :=
    Machine.exists_run (by decide +kernel)
  obtain ⟨pipe, hp, hacked⟩ := (Option.any_eq_true _ _).1 hpipe
  obtain ⟨hacked, hopener⟩ := of_decide_eq_true hacked
  refine ⟨w, hw, fun hexact => ?_, fun hreleased => ?_⟩
  · have hsender := (hexact.numbered 0 pipe hp 1 _ hacked).2
    rw [hopener] at hsender
    cases hsender
  · exact hreleased.unbound 0 pipe hp (hopener ▸ hended) _ _ hbound rfl

end Lvu.Shared.Stdin
