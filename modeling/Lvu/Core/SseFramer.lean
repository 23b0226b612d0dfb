import Lvu.Bytes.EventStream
import Lvu.Core.Framer

/-!
# The framer of event streams

`SseFramer` cuts what an HTTP source reads into records (`lvu-core/src/http.rs`).  An event is
kept until its blank line; one that grows past `maximum` bytes is cut into fragments.  The `id`
of an event is where a new connection resumes.
-/

namespace Lvu

/-! ### The resume point of an event -/

def MAXIMUM_DETAIL_BYTES : ℕ := 512

/-- The loop of `split_sse_lines`: `line` stands between `start` and `index`. -/
def splitSseLinesFrom (line : List UInt8) : List UInt8 → List (List UInt8)
  | [] => if line = [] then [] else [line]
  | b :: rest =>
    if b = 13 then
      match rest with
      | [] => [line]
      | c :: rest' =>
        if c = 10 then line :: splitSseLinesFrom [] rest'
        else line :: splitSseLinesFrom [] (c :: rest')
    else if b = 10 then line :: splitSseLinesFrom [] rest
    else splitSseLinesFrom (line ++ [b]) rest

theorem splitFrom_newline (line s : List UInt8) :
    splitSseLinesFrom line (10 :: s) = line :: splitSseLinesFrom [] s := by
  cases s <;> simp [splitSseLinesFrom]

def splitSseLines (event : List UInt8) : List (List UInt8) := splitSseLinesFrom [] event

/-- What a line of `last_event_id` finds: the value of an `id` field that is acceptable. -/
def eventIdOf (line : List UInt8) : Option String :=
  if [105, 100].isPrefixOf line then
    let value := match line.drop 2 with
      | [] => some []
      | 58 :: value => some (if value.head? = some 32 then value.tail else value)
      | _ => none
    value.bind fun value =>
      if 0 ∈ value ∨ MAXIMUM_DETAIL_BYTES < value.length then none
      else String.fromUTF8? ⟨value.toArray⟩
  else none

def lastEventId (event : List UInt8) : Option String :=
  ((splitSseLines event).filterMap eventIdOf).getLast?

/-! ### Framing -/

structure FrameOutcome where
  records : List CapturedRecord
  lastEventId : Option String
  oversized : Bool
  invalidUtf8 : Bool
  limitBytes : ℕ

/-- `std::str::from_utf8(bytes).is_err()`. -/
def isInvalidUtf8 (bytes : List UInt8) : Bool := !(ByteArray.mk bytes.toArray).validateUTF8

/-- `SseFramer`.  The limit that `HttpFramer::new` passes is never zero. -/
structure SseFramer where
  pending : List UInt8
  /-- Where in `pending` the line that is being read begins. -/
  lineStart : ℕ
  /-- A `\r` was seen, and how long its terminator is is not decided. -/
  carriageReturn : Bool
  fragmented : Bool
  maximum : ℕ
  maximum_pos : 0 < maximum

namespace SseFramer

def new (maximum : ℕ) (h : 0 < maximum) : SseFramer :=
  { pending := [], lineStart := 0, carriageReturn := false, fragmented := false, maximum
    maximum_pos := h }

section

variable (io : FrameAnswers) (acquisitionId : Uuid)

def record (f : SseFramer) (place : ℕ) (bytes delimiter : List UInt8) («end» : Bool) :
    CapturedRecord :=
  { capturedAtUnixNanos := io.now place, stream := .http, bytes, delimiter, acquisitionId
    chunk := match f.fragmented, «end» with
      | false, true => .complete
      | false, false => .start
      | true, false => .continue
      | true, true => .end
    readerCpuNanos := 0 }

/-- `SseFramer::close_line`: the last `terminator` pending bytes ended a line. -/
def closeLine (f : SseFramer) (terminator : ℕ) (outcome : FrameOutcome) :
    SseFramer × FrameOutcome :=
  let «end» := f.pending.length
  let bodyEnd := «end» - terminator
  if bodyEnd = f.lineStart then
    -- a blank line ends the event
    let bytes := f.pending.take bodyEnd
    let delimiter := (f.pending.drop bodyEnd).take terminator
    ({ f with pending := [], lineStart := 0, fragmented := false },
      { outcome with
        lastEventId := (Lvu.lastEventId bytes).or outcome.lastEventId
        invalidUtf8 := outcome.invalidUtf8 || isInvalidUtf8 bytes
        records := outcome.records ++
          [f.record io acquisitionId outcome.records.length bytes delimiter true] })
  else ({ f with lineStart := «end» }, outcome)

/-- `SseFramer::enforce_limit`: an event that is too long goes out in fragments. -/
def enforceLimit (f : SseFramer) (outcome : FrameOutcome) : SseFramer × FrameOutcome :=
  if _h : f.maximum < f.pending.length then
    let bytes := f.pending.take f.maximum
    enforceLimit
      { f with
        pending := f.pending.drop f.maximum
        fragmented := true
        lineStart := f.lineStart - f.maximum }
      { outcome with
        invalidUtf8 := outcome.invalidUtf8 || isInvalidUtf8 bytes
        oversized := true
        records := outcome.records ++
          [f.record io acquisitionId outcome.records.length bytes [] false] }
  else (f, outcome)
termination_by f.pending.length
decreasing_by
  have := f.maximum_pos
  simp only [List.length_drop]
  omega

/-- A byte is pending. -/
def hold (f : SseFramer) (byte : UInt8) : SseFramer := { f with pending := f.pending ++ [byte] }

/-- One round of the loop of `push`, after a `\r` was dealt with. -/
def pushPlain (f : SseFramer) (outcome : FrameOutcome) (byte : UInt8) : SseFramer × FrameOutcome :=
  if byte = 13 then
    enforceLimit io acquisitionId { f.hold byte with carriageReturn := true } outcome
  else
    let f := f.hold byte
    let (f, outcome) := if byte = 10 then f.closeLine io acquisitionId 1 outcome else (f, outcome)
    f.enforceLimit io acquisitionId outcome

/-- One round of the loop of `push`. -/
def pushByte (s : SseFramer × FrameOutcome) (byte : UInt8) : SseFramer × FrameOutcome :=
  let (f, outcome) := s
  if f.carriageReturn then
    let f := { f with carriageReturn := false }
    if byte = 10 then
      -- the pending `\r` and this `\n` are one terminator
      let (f, outcome) := (f.hold byte).closeLine io acquisitionId 2 outcome
      f.enforceLimit io acquisitionId outcome
    else
      -- the `\r` alone ended the line before
      let (f, outcome) := f.closeLine io acquisitionId 1 outcome
      f.pushPlain io acquisitionId outcome byte
  else f.pushPlain io acquisitionId outcome byte

def push (f : SseFramer) (input : List UInt8) : SseFramer × FrameOutcome :=
  input.foldl (pushByte io acquisitionId) (f, ⟨[], none, false, false, f.maximum⟩)

def finish (f : SseFramer) : List CapturedRecord × SseFramer :=
  let f := { f with carriageReturn := false, lineStart := 0 }
  if f.pending = [] then
    if f.fragmented then
      ([f.record io acquisitionId 0 [] [] true], { f with fragmented := false })
    else ([], f)
  else ([f.record io acquisitionId 0 f.pending [] true], { f with pending := [], fragmented := false })

/-- What several reads give, each with its own clock. -/
def pushAll (f : SseFramer) : List (FrameAnswers × List UInt8) → List FrameOutcome × SseFramer
  | [] => ([], f)
  | (io, input) :: rest =>
    let (f, outcome) := f.push io acquisitionId input
    let (outcomes, f) := f.pushAll rest
    (outcome :: outcomes, f)

end

end SseFramer

end Lvu
