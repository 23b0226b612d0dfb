import Mathlib.Data.List.Induction

/-!
# Lines and events of an event stream

A line ends with `\n`, `\r\n` or a `\r` that no `\n` follows.  An event is the lines up to a blank
one.  `scan` reads a stream byte by byte: a `\r` ends its line only once the next byte is known.

* `scan_bytes` : no byte of the stream is lost or moved.
-/

namespace Lvu.EventStream

/-- A line and what ended it. -/
structure Line where
  content : List UInt8
  terminator : List UInt8
deriving DecidableEq

def Line.bytes (line : Line) : List UInt8 := line.content ++ line.terminator

/-- The lines before a blank one, and the terminator of the blank one. -/
structure Event where
  lines : List Line
  terminator : List UInt8
deriving DecidableEq

/-- What the lines of an event say. -/
def Event.text (e : Event) : List UInt8 := e.lines.flatMap Line.bytes

/-- How far a stream was read. -/
structure Scan where
  /-- The events that were completed. -/
  events : List Event
  /-- The whole lines of the open event. -/
  lines : List Line
  /-- What the open line says so far. -/
  content : List UInt8
  /-- The open line ended with a `\r`; a `\n` may belong to it. -/
  ret : Bool

namespace Scan

/-- Nothing was read. -/
def start : Scan := ⟨[], [], [], false⟩

/-- The open line ends. -/
def close (s : Scan) (terminator : List UInt8) : Scan :=
  if s.content = [] then ⟨s.events ++ [⟨s.lines, terminator⟩], [], [], false⟩
  else ⟨s.events, s.lines ++ [⟨s.content, terminator⟩], [], false⟩

/-- A byte that does not belong to a terminator before it. -/
def plain (s : Scan) (b : UInt8) : Scan :=
  if b = 10 then s.close [10]
  else if b = 13 then { s with ret := true }
  else { s with content := s.content ++ [b] }

/-- The next byte. -/
def byte (s : Scan) (b : UInt8) : Scan :=
  if s.ret then
    if b = 10 then s.close [13, 10] else (s.close [13]).plain b
  else s.plain b

/-- The end of the stream: nothing follows the last `\r`. -/
def finish (s : Scan) : Scan := if s.ret then s.close [13] else s

/-- The whole lines of the open event. -/
def text (s : Scan) : List UInt8 := s.lines.flatMap Line.bytes

/-- The open line, as far as it was read. -/
def line (s : Scan) : List UInt8 := s.content ++ if s.ret then [13] else []

/-- Everything that was read. -/
def bytes (s : Scan) : List UInt8 :=
  s.events.flatMap (fun e => e.text ++ e.terminator) ++ s.text ++ s.line

@[simp] theorem close_ret (s : Scan) (t : List UInt8) : (s.close t).ret = false := by
  unfold close
  split_ifs <;> rfl

@[simp] theorem close_content (s : Scan) (t : List UInt8) : (s.close t).content = [] := by
  unfold close
  split_ifs <;> rfl

theorem close_blank {s : Scan} (h : s.content = []) (t : List UInt8) :
    s.close t = ⟨s.events ++ [⟨s.lines, t⟩], [], [], false⟩ := if_pos h

theorem close_line {s : Scan} (h : s.content ≠ []) (t : List UInt8) :
    s.close t = ⟨s.events, s.lines ++ [⟨s.content, t⟩], [], false⟩ := if_neg h

end Scan

/-- A stream is read byte by byte. -/
def scan (stream : List UInt8) : Scan := stream.foldl Scan.byte .start

/-- The events of a whole stream. -/
def events (stream : List UInt8) : List Event := (scan stream).finish.events

@[simp] theorem scan_snoc (stream : List UInt8) (b : UInt8) :
    scan (stream ++ [b]) = (scan stream).byte b := by simp [scan]

/-- The events that `input` completes after `p`. -/
def completed (p input : List UInt8) : List Event :=
  (scan (p ++ input)).events.drop (scan p).events.length

/-! ### What a scan keeps -/

namespace Scan

theorem close_bytes (s : Scan) (t : List UInt8) :
    (s.close t).bytes = s.events.flatMap (fun e => e.text ++ e.terminator) ++ s.text ++ s.content ++ t := by
  by_cases h : s.content = []
  · simp [close_blank h, bytes, text, line, Event.text, h]
  · simp [close_line h, bytes, text, line, Line.bytes]

theorem plain_bytes {s : Scan} (hs : s.ret = false) (b : UInt8) : (s.plain b).bytes = s.bytes ++ [b] := by
  unfold plain
  split_ifs with hn hr
  · rw [close_bytes]
    simp [bytes, line, hs, hn]
  · simp [bytes, text, line, hs, hr]
  · simp [bytes, text, line, hs]

theorem byte_bytes (s : Scan) (b : UInt8) : (s.byte b).bytes = s.bytes ++ [b] := by
  unfold byte
  split_ifs with hs hb
  · rw [close_bytes]
    simp [bytes, line, hs, hb]
  · rw [plain_bytes (close_ret s _), close_bytes]
    simp [bytes, line, hs]
  · exact plain_bytes (by simpa using hs) b

theorem text_close {s : Scan} (h : s.content ≠ []) (t : List UInt8) :
    (s.close t).text = s.text ++ s.content ++ t := by
  simp [close_line h, text, Line.bytes]

theorem text_plain (s : Scan) {b : UInt8} (h : b ≠ 10) : (s.plain b).text = s.text := by
  rw [plain, if_neg h]
  split_ifs <;> rfl

theorem events_plain (s : Scan) {b : UInt8} (h : b ≠ 10) : (s.plain b).events = s.events := by
  rw [plain, if_neg h]
  split_ifs <;> rfl

/-- A line that ended with a `\r` is whole once the next byte is known. -/
theorem text_byte_ret {s : Scan} (hs : s.ret = true) (h : s.content ≠ []) (b : UInt8) :
    ∃ t, t ≠ [] ∧ (s.byte b).text = s.text ++ s.content ++ t := by
  rw [byte, if_pos hs]
  split_ifs with hb
  · exact ⟨[13, 10], by simp, text_close h _⟩
  · exact ⟨[13], by simp, by rw [text_plain _ hb, text_close h]⟩

/-- While no event is completed, its text grows. -/
theorem text_byte {s : Scan} {b : UInt8} (h : (s.byte b).events = s.events) :
    s.text <+: (s.byte b).text := by
  have hclose : ∀ t, (s.close t).events = s.events → s.text <+: (s.close t).text := by
    intro t ht
    by_cases hnil : s.content = []
    · simp [close_blank hnil] at ht
    · rw [text_close hnil, List.append_assoc]
      exact List.prefix_append _ _
  cases hs : s.ret with
  | false =>
    simp only [byte, hs, Bool.false_eq_true, if_false] at h ⊢
    by_cases hb : b = 10
    · rw [plain, if_pos hb] at h ⊢
      exact hclose _ h
    · exact ⟨[], by rw [List.append_nil, text_plain s hb]⟩
  | true =>
    simp only [byte, hs, if_true] at h ⊢
    split_ifs at h ⊢ with hb
    · exact hclose _ h
    · rw [events_plain _ hb] at h
      rw [text_plain _ hb]
      exact hclose _ h

theorem events_byte (s : Scan) (b : UInt8) :
    (s.byte b).events = s.events ∨ ∃ e, (s.byte b).events = s.events ++ [e] := by
  have hclose : ∀ t, (s.close t).events = s.events ∨ ∃ e, (s.close t).events = s.events ++ [e] := by
    intro t
    unfold close
    split_ifs
    · exact .inr ⟨_, rfl⟩
    · exact .inl rfl
  unfold byte
  split_ifs with hs hb
  · exact hclose _
  · rw [events_plain _ hb]
    exact hclose _
  · by_cases hb : b = 10
    · rw [plain, if_pos hb]
      exact hclose _
    · exact .inl (events_plain s hb)

end Scan

theorem events_append (p input : List UInt8) :
    (scan (p ++ input)).events = (scan p).events ++ completed p input := by
  have hprefix : (scan p).events <+: (scan (p ++ input)).events := by
    induction input using List.reverseRecOn with
    | nil => exact ⟨[], by rw [List.append_nil, List.append_nil]⟩
    | append_singleton input b ih =>
      rw [← List.append_assoc, scan_snoc]
      obtain hsame | ⟨e, hsnoc⟩ := Scan.events_byte (scan (p ++ input)) b
      · rw [hsame]
        exact ih
      · rw [hsnoc]
        exact ih.trans (List.prefix_append _ _)
  obtain ⟨more, hmore⟩ := hprefix
  simp [completed, ← hmore]

theorem completed_append (p input input' : List UInt8) :
    completed p (input ++ input') = completed p input ++ completed (p ++ input) input' := by
  have h := events_append p (input ++ input')
  rw [← List.append_assoc, events_append, events_append, List.append_assoc] at h
  exact (List.append_cancel_left h).symm

theorem completed_singleton (p : List UInt8) (b : UInt8) :
    completed p [b] = [] ∨ ∃ e, completed p [b] = [e] := by
  obtain hsame | ⟨e, hsnoc⟩ := Scan.events_byte (scan p) b
  · exact .inl (by simp [completed, hsame])
  · exact .inr ⟨e, by simp [completed, hsnoc]⟩

end Lvu.EventStream
