import Lvu.Shared.Frames

/-!
# Exchanges of a client with its worker

A client sends one request at a time over its connection and reads frames until it has the reply
(`lvu-shared/src/client.rs`).  A control request collects frames until none comes for a while; a
store request takes one frame; the recoverable store requests of a union commit go on after a
timeout and drain what comes late.

* `checkBatch`, `single`, `recoverableRead` : what is taken for the reply.
* `World.next` : the calls, the reads and the answers of the worker, with cancellations and
  timeouts.
* `Fresh` : nothing that an exchange could take for its reply is on its way when it opens.
-/

namespace Lvu.Shared.Exchange

open Frames

/-! ### Events -/

section Events

variable {Id Payload : Type}

/-- A reply of the store. -/
inductive StoreEvent (Id Payload : Type)
  | reply (requestId : Id) (payload : Payload)
  | fatal (reason : Payload)
deriving DecidableEq

/-- What a worker sends. -/
inductive WorkerEvent (Id Payload : Type)
  /-- `Welcome`, `Started`, `Refused`, `Stopped`, `SessionNoted`, `StdinOpen`, `SourceProgress`. -/
  | answer (requestId : Id) (payload : Payload)
  | store (event : StoreEvent Id Payload)
  | shutdownNotice (reason : Payload)
  | sourceStatus (payload : Payload)
  | stdinCredit (payload : Payload)

def storeEventRequestId : StoreEvent Id Payload → Option Id
  | .reply requestId _ => some requestId
  | .fatal _ => none

def eventRequestId : WorkerEvent Id Payload → Option Id
  | .answer requestId _ => some requestId
  | .store event => storeEventRequestId event
  | .shutdownNotice _ | .sourceStatus _ | .stdinCredit _ => none

/-- An event that may ride along with an answer. -/
def WorkerEvent.isNotice : WorkerEvent Id Payload → Bool
  | .shutdownNotice _ => true
  | _ => false

def WorkerEvent.isStore : WorkerEvent Id Payload → Bool
  | .store _ => true
  | _ => false

end Events

/-! ### Replies -/

/-- Why an exchange fails. -/
inductive Fault (Id : Type)
  /-- `worker connection retired after a transport fault`. -/
  | alreadyRetired
  /-- `previous exchange never completed`. -/
  | neverCompleted
  | write
  | read
  | decode (error : FrameError)
  | shape (error : String)
  | closed
  | timedOut
  | unprompted
  | twoPrimaries
  | mismatch (got : Id)
  | noAnswer
  | batch
  | fatal
  | unexpected

/-- The kinds of exchanges. -/
inductive Kind
  /-- `roundtrip`. -/
  | control
  /-- `store_with_timeout`. -/
  | strict
  /-- `store_recoverable`. -/
  | recoverable
deriving DecidableEq

section Replies

variable {Id Payload Value Tag : Type} [DecidableEq Id]

/-- Verify a batch: an answer to the request, once, and notices. -/
def checkBatch (expected : Id) : Bool → List (WorkerEvent Id Payload) → Except (Fault Id) Unit
  | found, [] => if found then .ok () else .error .noAnswer
  | found, .shutdownNotice _ :: events => checkBatch expected found events
  | _, .store _ :: _ | _, .sourceStatus _ :: _ | _, .stdinCredit _ :: _ => .error .unprompted
  | found, .answer id _ :: events =>
    if id = expected then
      if found then .error .twoPrimaries else checkBatch expected true events
    else .error (.mismatch id)

/-- What an exchange comes to: it waits with what it has collected, fails, or has its reply.  Each
frame carries a mark of its origin that the client does not look at. -/
inductive Verdict (Id Payload Tag : Type)
  | waiting (events : List (Tag × WorkerEvent Id Payload))
  | failed (fault : Fault Id)
  | ok (events : List (Tag × WorkerEvent Id Payload))

variable (fromValue : Value → Except String (WorkerEvent Id Payload))

/-- The events of some values, up to the first that is none. -/
def parseAll : List (Tag × Value) → Except String (List (Tag × WorkerEvent Id Payload))
  | [] => .ok []
  | (tag, value) :: values =>
    match fromValue value with
    | .error error => .error error
    | .ok event => (parseAll values).map ((tag, event) :: ·)

/-- The one frame that answers a store request. -/
def single (expected : Id) (event : Tag × WorkerEvent Id Payload) : Verdict Id Payload Tag :=
  match event.2 with
  | .store (.fatal _) => .failed .fatal
  | .store (.reply id _) => if id = expected then .ok [event] else .failed (.mismatch id)
  | _ => .failed .unexpected

/-- A control request collects what comes. -/
def controlRead (events : List (Tag × WorkerEvent Id Payload)) (values : List (Tag × Value)) :
    Verdict Id Payload Tag :=
  match parseAll fromValue values with
  | .error error => .failed (.shape error)
  | .ok more => .waiting (events ++ more)

/-- A store request takes one frame. -/
def strictRead (expected : Id) : List (Tag × Value) → Verdict Id Payload Tag
  | [] => .waiting []
  | [(tag, value)] =>
    match fromValue value with
    | .error error => .failed (.shape error)
    | .ok event => single expected (tag, event)
  | _ :: _ :: _ => .failed .batch

/-- A late reply of an attempt that is remembered. -/
def isStale (expected : Id) (stale : List Id) : WorkerEvent Id Payload → Bool
  | .store event =>
    match storeEventRequestId event with
    | some id => id ≠ expected && id ∈ stale
    | none => false
  | _ => false

/-- A recoverable request drains the late replies, and takes one frame besides. -/
def recoverableRead (expected : Id) (stale : List Id) (values : List (Tag × Value)) :
    Verdict Id Payload Tag :=
  match parseAll fromValue values with
  | .error error => .failed (.shape error)
  | .ok events =>
    match events.filter fun event => !isStale expected stale event.2 with
    | [] => .waiting []
    | [event] => single expected event
    | _ :: _ :: _ => .failed .batch

end Replies

/-! ### The world -/

section World

/-- What the two ends do with frames: JSON values to lines and back, events to values and back. -/
structure Wire (Id Payload Value : Type) where
  toVec : Value → Except String (List UInt8)
  fromSlice : List UInt8 → Except String Value
  toValue : WorkerEvent Id Payload → Value
  fromValue : Value → Except String (WorkerEvent Id Payload)

variable {Id Payload Value : Type} [DecidableEq Id]

/-- An exchange that is open. -/
structure Call (Id Payload : Type) where
  number : ℕ
  kind : Kind
  id : Id
  /-- The request is written. -/
  sent : Bool
  /-- The frames that a control request has collected, each with the call it is a reply to. -/
  events : List (Option ℕ × WorkerEvent Id Payload)

/-- How a call ended. -/
inductive Ending (Id Payload : Type)
  | ok (events : List (Option ℕ × WorkerEvent Id Payload))
  | failed (fault : Fault Id)
  | cancelled

/-- The client, what is on its way, and how the calls ended. -/
structure World (Id Payload : Type) where
  /-- The bytes that the decoder retains. -/
  buffered : List UInt8
  retired : Bool
  inFlight : Bool
  staleRequestIds : List Id
  call : Option (Call Id Payload)
  /-- The bytes that the worker has sent and the client has not read. -/
  stream : List UInt8
  /-- The frames that are sent and not decoded, each with the call it is a reply to. -/
  pending : List (ℕ × WorkerEvent Id Payload)
  /-- The requests that the worker has not answered. -/
  unanswered : List (ℕ × Kind × Id)
  /-- The frames that the worker has sent, each with the call it is a reply to. -/
  answers : List (ℕ × WorkerEvent Id Payload)
  /-- The calls that were made. -/
  count : ℕ
  ended : List (ℕ × Kind × Ending Id Payload)

/-- A connection. -/
def World.new : World Id Payload := ⟨[], false, false, [], none, [], [], [], [], 0, []⟩

/-- What may happen next. -/
inductive Event (Id Payload : Type)
  /-- A call, up to `begin_exchange`. -/
  | start (kind : Kind) (id : Id)
  /-- `write_all`. -/
  | write (ok : Bool)
  /-- A read of that many bytes. -/
  | read (size : ℕ)
  | readFailed
  /-- The end of the stream. -/
  | eof
  /-- The deadline, or the grace after the first frames. -/
  | timeout
  /-- The future of the call is dropped. -/
  | cancel
  /-- The worker answers the request that came first. -/
  | answer (events : List (WorkerEvent Id Payload))
  /-- `poll_progress` does not trust the answer. -/
  | distrust

def maxStaleRequestIds : ℕ := 64

def rememberStale (stale : List Id) (id : Id) : List Id :=
  (if maxStaleRequestIds ≤ stale.length then stale.drop 1 else stale) ++ [id]

namespace World

variable (w : World Id Payload) (call : Call Id Payload)

/-- The call ends with an error and the connection is retired. -/
def fail (fault : Fault Id) : World Id Payload :=
  { w with
    retired := true
    inFlight := false
    call := none
    ended := w.ended ++ [(call.number, call.kind, .failed fault)] }

/-- The exchange goes on, or the call ends. -/
def settle : Verdict Id Payload (Option ℕ) → World Id Payload
  | .waiting events => { w with call := some { call with events := events } }
  | .failed fault => w.fail call fault
  | .ok events =>
    { w with
      inFlight := false
      call := none
      ended := w.ended ++ [(call.number, call.kind, .ok events)] }

/-- No more frames are waited for: the deadline, the grace or the end of the stream. -/
def finish (closed : Bool) : World Id Payload :=
  match call.kind with
  | .control =>
    if call.events = [] then w.fail call (if closed then .closed else .timedOut)
    else
      match checkBatch call.id false (call.events.map Prod.snd) with
      | .error fault => w.fail call fault
      | .ok () => w.settle call (.ok call.events)
  | .strict => w.fail call (if closed then .closed else .timedOut)
  | .recoverable =>
    if closed then w.fail call .closed
    else
      -- the outcome is unknown, and the connection goes on
      { w with
        inFlight := false
        call := none
        staleRequestIds := rememberStale w.staleRequestIds call.id
        ended := w.ended ++ [(call.number, call.kind, .failed .timedOut)] }

end World

/-- The values of a read, with the calls that they are replies to. -/
def tag : List (ℕ × WorkerEvent Id Payload) → List Value → List (Option ℕ × Value)
  | _, [] => []
  | [], value :: values => (none, value) :: tag [] values
  | frame :: frames, value :: values => (some frame.1, value) :: tag frames values

variable (wire : Wire Id Payload Value)

/-- A read, by the kind of the exchange. -/
def onRead (call : Call Id Payload) (stale : List Id) (values : List (Option ℕ × Value)) :
    Verdict Id Payload (Option ℕ) :=
  match call.kind with
  | .control => controlRead wire.fromValue call.events values
  | .strict => strictRead wire.fromValue call.id values
  | .recoverable => recoverableRead wire.fromValue call.id stale values

/-- The bytes of some events. -/
def encodeAll : List (WorkerEvent Id Payload) → Except FrameError (List UInt8)
  | [] => .ok []
  | event :: events =>
    match encodeFrame wire.toVec (wire.toValue event) with
    | .error error => .error error
    | .ok bytes => (encodeAll events).map (bytes ++ ·)

/-- A worker's answer echoes the id of the request; a store request has store events only. -/
def Echoes (kind : Kind) (id : Id) (events : List (WorkerEvent Id Payload)) : Prop :=
  ∀ event ∈ events, (∀ echoed ∈ eventRequestId event, echoed = id) ∧
    (kind ≠ .control → event.isStore = true)

instance (kind : Kind) (id : Id) (events : List (WorkerEvent Id Payload)) :
    Decidable (Echoes kind id events) := inferInstanceAs (Decidable (∀ _ ∈ _, _ ∧ _))

namespace World

variable (w : World Id Payload)

/-- A read of the connection. -/
def readBytes (call : Call Id Payload) (size : ℕ) : World Id Payload :=
  let pushed := pushBytes wire.fromSlice w.buffered (w.stream.take size)
  let w' := { w with buffered := pushed.2, stream := w.stream.drop size }
  match pushed.1 with
  | .error error => w'.fail call (.decode error)
  | .ok values =>
    { w' with pending := w.pending.drop values.length }.settle call
      (onRead wire call w.staleRequestIds (tag w.pending values))

/-- The step of an event, where it can happen. -/
def next : Event Id Payload → Option (World Id Payload)
  | .start kind id =>
    if w.call.isSome then none
    else if w.retired then
      some { w with
        count := w.count + 1
        ended := w.ended ++ [(w.count, kind, .failed .alreadyRetired)] }
    else if w.inFlight then
      some { w with
        retired := true
        inFlight := false
        count := w.count + 1
        ended := w.ended ++ [(w.count, kind, .failed .neverCompleted)] }
    else
      some { w with
        inFlight := true
        count := w.count + 1
        call := some ⟨w.count, kind, id, false, []⟩ }
  | .write ok => w.call.bind fun call =>
    if call.sent then none
    else if ok then
      some { w with
        call := some { call with sent := true }
        unanswered := w.unanswered ++ [(call.number, call.kind, call.id)] }
    else some (w.fail call .write)
  | .read size => w.call.bind fun call =>
    if call.sent ∧ 0 < size ∧ size ≤ w.stream.length then some (w.readBytes wire call size)
    else none
  | .readFailed => w.call.bind fun call => if call.sent then some (w.fail call .read) else none
  | .eof => w.call.bind fun call => if call.sent then some (w.finish call true) else none
  | .timeout => w.call.bind fun call => if call.sent then some (w.finish call false) else none
  | .cancel => w.call.map fun call =>
    { w with call := none, ended := w.ended ++ [(call.number, call.kind, .cancelled)] }
  | .answer events =>
    match w.unanswered with
    | [] => none
    | (number, kind, id) :: rest =>
      if Echoes kind id events then
        match encodeAll wire events with
        | .error _ => none
        | .ok bytes =>
          some { w with
            stream := w.stream ++ bytes
            pending := w.pending ++ events.map fun event => (number, event)
            unanswered := rest
            answers := w.answers ++ events.map fun event => (number, event) }
      else none
  | .distrust => if w.call.isSome then none else some { w with retired := true, inFlight := false }

end World

/-- A client and its worker on one connection. -/
def connection : Machine (World Id Payload) (Event Id Payload) := .ofFun fun w => w.next wire

/-- Where an exchange opens, nothing that it could take for its reply is on its way: no frame and no
request has its id, and a control request finds no notice. -/
def Fresh (w : World Id Payload) : Event Id Payload → Prop
  | .start kind id => w.retired = false → w.inFlight = false →
      (∀ request ∈ w.unanswered, request.2.2 ≠ id) ∧
      ∀ frame ∈ w.pending, eventRequestId frame.2 ≠ some id ∧
        (kind = .control → frame.2.isNotice = false)
  | _ => True

instance (w : World Id Payload) : ∀ e : Event Id Payload, Decidable (Fresh w e)
  | .start _ _ => inferInstanceAs (Decidable (_ = false → _ = false → _ ∧ _))
  | .write _ | .read _ | .readFailed | .eof | .timeout | .cancel | .answer _ | .distrust =>
    inferInstanceAs (Decidable True)

end World

end Lvu.Shared.Exchange
