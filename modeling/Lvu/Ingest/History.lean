import Lvu.Bytes.Lines
import Lvu.Data.Text
import Lvu.Machine.Run

/-!
# The history of a source

The events of a source go through a bounded channel, which drops and counts rather than blocks
(`lvu-core/src/source_event.rs`), to a thread that keeps the last ones and appends them to a bounded
file (`lvu-ingest/src/history.rs`).

* `history` : the machine of the senders and the thread.
* `history_complete` : nothing is lost uncounted, and what ends complete has missed nothing.
* `history_durable` : the file goes on with the first events, with all unless it says otherwise.
-/

namespace Lvu.History

open List

def HISTORY_WINDOW_ENTRIES : ℕ := 256

def HISTORY_FILE_BYTES : ℕ := 1048576

def MAXIMUM_DETAIL_BYTES : ℕ := 512

def boundedDetail (text : String) : String :=
  if text.utf8ByteSize ≤ MAXIMUM_DETAIL_BYTES then text else cut MAXIMUM_DETAIL_BYTES text ++ "…"

/-- A newline. -/
def newline : UInt8 := 10

/-! ### The writer -/

variable {R : Type} (toVec : R → Except String (List UInt8))

structure SourceHistory (R : Type) where
  /-- Oldest first. -/
  entries : List R
  published : ℕ
  dropped : ℕ
  durableTruncated : Bool
  durableError : Option String

def SourceHistory.complete (h : SourceHistory R) : Bool :=
  h.dropped = 0 ∧ h.published ≤ h.entries.length

/-- What comes of `write_line`. -/
inductive WriteAnswer
  | written
  /-- So many bytes were written. -/
  | failed (bytes : ℕ) (error : String)

/-- With the file that it appends to. -/
structure HistoryWriter (R : Type) where
  file : List UInt8
  written : ℕ
  state : SourceHistory R

namespace HistoryWriter

/-- The length of the file may not be had. -/
def new (file : List UInt8) (measured : Bool) : HistoryWriter R :=
  ⟨file, if measured then file.length else 0, ⟨[], 0, 0, false, none⟩⟩

/-- Nothing is written any more. -/
def shut (w : HistoryWriter R) : Bool := w.state.durableTruncated || w.state.durableError.isSome

def failed (w : HistoryWriter R) (error : String) : HistoryWriter R :=
  { w with state := { w.state with durableError := some (boundedDetail error) } }

def persist (w : HistoryWriter R) (answer : WriteAnswer) (record : R) : HistoryWriter R :=
  if w.shut then w
  else match toVec record with
    | .error error => w.failed error
    | .ok text =>
      let line := text ++ [newline]
      if HISTORY_FILE_BYTES < w.written + line.length then
        { w with state := { w.state with durableTruncated := true } }
      else match answer with
        | .written => { w with file := w.file ++ line, written := w.written + line.length }
        | .failed bytes error => { w with file := w.file ++ line.take bytes }.failed error

def append (w : HistoryWriter R) (answer : WriteAnswer) (record : R) (dropped : ℕ) :
    HistoryWriter R :=
  let entries := if HISTORY_WINDOW_ENTRIES ≤ w.state.entries.length then w.state.entries.tail
    else w.state.entries
  let state := { w.state with
    published := w.state.published + 1, dropped, entries := entries ++ [record] }
  { w with state }.persist toVec answer record

def finish (w : HistoryWriter R) (dropped : ℕ) : HistoryWriter R :=
  if dropped ≠ w.state.dropped then { w with state := { w.state with dropped } } else w

end HistoryWriter

/-- The window takes the record; the file takes its line, or is known to miss some of it. -/
theorem append_cases (v : HistoryWriter R) (answer : WriteAnswer) (record : R) (lost : ℕ) :
    let v' := v.append toVec answer record lost
    v'.state.published = v.state.published + 1 ∧
      v'.state.entries = (if HISTORY_WINDOW_ENTRIES ≤ v.state.entries.length
        then v.state.entries.tail else v.state.entries) ++ [record] ∧
      (v'.shut = true ∧ v'.file = v.file ∨
        ∃ text, v.shut = false ∧ toVec record = .ok text ∧
          v.written + (text ++ [newline]).length ≤ HISTORY_FILE_BYTES ∧
          (v'.written = v.written + (text ++ [newline]).length ∧
              v'.file = v.file ++ (text ++ [newline]) ∨
            v'.shut = true ∧ ∃ bytes, v'.file = v.file ++ (text ++ [newline]).take bytes)) := by
  unfold HistoryWriter.append HistoryWriter.persist
  generalize (if HISTORY_WINDOW_ENTRIES ≤ v.state.entries.length then v.state.entries.tail
    else v.state.entries) = entries
  dsimp only
  split_ifs with hshut
  · exact ⟨rfl, rfl, .inl ⟨hshut, rfl⟩⟩
  split
  · exact ⟨rfl, rfl, .inl ⟨Bool.or_true _, rfl⟩⟩
  · rename_i text htext
    split_ifs with hfull
    · exact ⟨rfl, rfl, .inl ⟨rfl, rfl⟩⟩
    refine ⟨?_, ?_, .inr ⟨text, eq_false_of_ne_true hshut, htext, not_lt.1 hfull, ?_⟩⟩
    all_goals cases answer
    all_goals first | rfl | exact .inl ⟨rfl, rfl⟩ | exact .inr ⟨Bool.or_true _, _, rfl⟩

theorem finish_eq (v : HistoryWriter R) (dropped : ℕ) :
    v.finish dropped = { v with state := { v.state with dropped } } := by
  unfold HistoryWriter.finish
  split_ifs with h
  · rfl
  · obtain rfl := not_not.1 h
    rfl

/-- A window moves on by one. -/
theorem window_snoc {n : ℕ} (hn : 0 < n) (t : List R) (r : R) :
    (if n ≤ (t.drop (t.length - n)).length then (t.drop (t.length - n)).tail
      else t.drop (t.length - n)) ++ [r] = (t ++ [r]).drop ((t ++ [r]).length - n) := by
  rw [length_append, length_singleton, length_drop]
  split_ifs with hfull
  · rw [tail_drop, drop_append_of_le_length (by omega)]
    congr 2
    omega
  · rw [show t.length - n = 0 by omega, show t.length + 1 - n = 0 by omega, drop_zero, drop_zero]

/-! ### The channel -/

/-- Where the thread of `spawn_history` stands. -/
inductive Drain (R : Type)
  | idle
  | received (record : R)
  /-- With the drops that were counted by then. -/
  | counted (record : R) (lost : ℕ)
  | finished

/-- What the thread has in hand. -/
def Drain.held : Drain R → List R
  | .received record | .counted record _ => [record]
  | .idle | .finished => []

/-- Last the ghosts: what was emitted, and what was appended. -/
structure World (R : Type) where
  queue : List R
  /-- The senders whose `try_send` failed, before they count it. -/
  losing : ℕ
  dropped : ℕ
  /-- No sender is left. -/
  closed : Bool
  drain : Drain R
  writer : HistoryWriter R
  emitted : List R
  taken : List R

inductive Step (R : Type)
  /-- `try_send` of `SourceEventSink::emit`. -/
  | emit (record : R)
  /-- `dropped.fetch_add`. -/
  | lose
  | close
  /-- `blocking_recv`. -/
  | receive
  /-- `dropped.load`. -/
  | count
  | append (answer : WriteAnswer)
  | finish

/-- Before any event. -/
def World.new (file : List UInt8) (measured : Bool) : World R :=
  ⟨[], 0, 0, false, .idle, .new file measured, [], []⟩

/-- The capacity is that of `source_event_channel`. -/
def World.next (capacity : ℕ) (w : World R) : Step R → Option (World R)
  | .emit record =>
    if w.closed then none
    else if w.queue.length < max capacity 1 then
      some { w with queue := w.queue ++ [record], emitted := w.emitted ++ [record] }
    else some { w with losing := w.losing + 1, emitted := w.emitted ++ [record] }
  | .lose =>
    if 0 < w.losing then some { w with losing := w.losing - 1, dropped := w.dropped + 1 } else none
  | .close => if w.losing = 0 then some { w with closed := true } else none
  | .receive =>
    match w.drain, w.queue with
    | .idle, record :: queue => some { w with queue, drain := .received record }
    | _, _ => none
  | .count =>
    match w.drain with
    | .received record => some { w with drain := .counted record w.dropped }
    | _ => none
  | .append answer =>
    match w.drain with
    | .counted record lost => some { w with
        drain := .idle
        writer := w.writer.append toVec answer record lost
        taken := w.taken ++ [record] }
    | _ => none
  | .finish =>
    -- the channel is empty for good, and nobody drops any more
    match w.drain, w.queue, w.closed with
    | .idle, [], true => some { w with drain := .finished, writer := w.writer.finish w.dropped }
    | _, _, _ => none

/-- The senders and the thread. -/
def history (capacity : ℕ) : Machine (World R) (Step R) := .ofFun (World.next toVec capacity)

/-- What went into the channel. -/
def World.accepted (w : World R) : List R := w.taken ++ (w.drain.held ++ w.queue)

variable {toVec} {w w' : World R} {l : Step R} {ls : List (Step R)} {file : List UInt8}
  {capacity : ℕ} {measured : Bool}

/-! ### Nothing is lost without being counted -/

structure Sound (capacity : ℕ) (w : World R) : Prop where
  room : w.queue.length ≤ max capacity 1
  order : w.accepted <+ w.emitted
  count : w.accepted.length + w.dropped + w.losing = w.emitted.length
  published : w.writer.state.published = w.taken.length
  entries : w.writer.state.entries = w.taken.drop (w.taken.length - HISTORY_WINDOW_ENTRIES)
  counted : w.closed = true → w.losing = 0
  ended : w.drain = .finished →
    w.closed = true ∧ w.queue = [] ∧ w.writer.state.dropped = w.dropped

theorem sound_new : Sound capacity (.new file measured : World R) :=
  ⟨Nat.zero_le _, .refl _, rfl, rfl, drop_nil.symm, fun _ => rfl, by rintro ⟨⟩⟩

theorem Sound.step (h : Sound capacity w) (hst : (history toVec capacity).step w l w') :
    Sound capacity w' := by
  change w.next toVec capacity l = some w' at hst
  obtain ⟨queue, losing, dropped, closed, drain, writer, emitted, taken⟩ := w
  obtain ⟨hroom, horder, hcount, hpublished, hentries, hcounted, hended⟩ := h
  cases l with
  | emit record =>
    simp only [World.next] at hst
    split_ifs at hst with hclosed hfull <;> cases hst
    · refine ⟨?_, ?_, ?_, hpublished, hentries, hcounted, fun hend =>
        absurd (hended hend).1 hclosed⟩
      · rw [length_append]
        exact hfull
      · simpa only [World.accepted, append_assoc] using horder.append (.refl [record])
      · simp only [World.accepted, length_append, length_singleton] at hcount ⊢
        omega
    · refine ⟨hroom, horder.trans (sublist_append_left _ _), ?_, hpublished, hentries,
        fun hend => absurd hend hclosed, hended⟩
      simp only [World.accepted, length_append, length_singleton] at hcount ⊢
      omega
  | lose =>
    simp only [World.next] at hst
    split_ifs at hst with hlosing
    cases hst
    -- a sender that still counts keeps the channel open
    have hopen : ¬ closed = true := fun hclosed => hlosing.ne' (hcounted hclosed)
    refine ⟨hroom, horder, ?_, hpublished, hentries, fun hend => absurd hend hopen,
      fun hend => absurd (hended hend).1 hopen⟩
    simp only [World.accepted] at hcount ⊢
    omega
  | close =>
    simp only [World.next] at hst
    split_ifs at hst with hlosing
    cases hst
    exact ⟨hroom, horder, hcount, hpublished, hentries, fun _ => hlosing,
      fun hend => ⟨rfl, (hended hend).2⟩⟩
  | receive =>
    simp only [World.next] at hst
    split at hst <;> cases hst
    exact ⟨Nat.le_of_succ_le hroom, horder, hcount, hpublished, hentries, hcounted, by rintro ⟨⟩⟩
  | count =>
    simp only [World.next] at hst
    split at hst <;> cases hst
    exact ⟨hroom, horder, hcount, hpublished, hentries, hcounted, by rintro ⟨⟩⟩
  | append answer =>
    simp only [World.next] at hst
    split at hst <;> cases hst
    rename_i record lost
    obtain ⟨hpublished', hentries', -⟩ := append_cases toVec writer answer record lost
    refine ⟨hroom, ?_, ?_, ?_, ?_, hcounted, by rintro ⟨⟩⟩
    · simpa only [World.accepted, Drain.held, append_assoc, nil_append] using horder
    · simpa only [World.accepted, Drain.held, append_assoc, nil_append] using hcount
    · rw [hpublished', hpublished, length_append, length_singleton]
    · rw [hentries', hentries, window_snoc (by decide)]
  | finish =>
    simp only [World.next] at hst
    split at hst <;> cases hst
    rw [finish_eq]
    exact ⟨hroom, horder, hcount, hpublished, hentries, hcounted, fun _ => ⟨rfl, rfl, rfl⟩⟩

/-- **Nothing is lost without being counted**, the window is the last that was appended, and what ends
complete has missed nothing. -/
theorem history_complete (h : (history toVec capacity).Run (.new file measured) ls w) :
    w.queue.length ≤ max capacity 1 ∧
      w.writer.state.published + w.drain.held.length + w.queue.length + w.dropped + w.losing =
        w.emitted.length ∧
      w.taken ++ (w.drain.held ++ w.queue) <+ w.emitted ∧
      w.writer.state.published = w.taken.length ∧
      w.writer.state.entries <:+ w.taken ∧
      w.writer.state.entries.length = min w.writer.state.published HISTORY_WINDOW_ENTRIES ∧
      (w.drain = .finished →
        w.writer.state.published + w.writer.state.dropped = w.emitted.length ∧
        (w.writer.state.complete = true ↔ w.writer.state.entries = w.emitted)) := by
  obtain ⟨hroom, horder, hcount, hpublished, hentries, hcounted, hended⟩ :=
    h.invariant sound_new fun _ _ _ => Sound.step
  have hlength := congrArg length hentries
  rw [length_drop] at hlength
  refine ⟨hroom, ?_, horder, hpublished, hentries ▸ drop_suffix .., by omega, fun hend => ?_⟩
  · simp only [World.accepted, length_append] at hcount
    omega
  obtain ⟨hclosed, hqueue, hdropped⟩ := hended hend
  have hall : w.accepted = w.taken := by
    rw [World.accepted, hend, hqueue]
    exact append_nil _
  -- nobody is counting a drop any more
  have hopen := hcounted hclosed
  rw [hall] at hcount horder
  refine ⟨by omega, fun hcomplete => ?_, fun hsame => ?_⟩
  · obtain ⟨hzero, hkept⟩ := of_decide_eq_true hcomplete
    rw [hentries, show w.taken.length - HISTORY_WINDOW_ENTRIES = 0 by omega, drop_zero]
    exact horder.eq_of_length (by omega)
  · have hsize := congrArg length hsame
    exact decide_eq_true ⟨by omega, by omega⟩

/-! ### The file -/

/-- A beginning of the line of the next event, or nothing. -/
def Torn (toVec : R → Except String (List UInt8)) (rest : List R) (torn : List UInt8) : Prop :=
  torn = [] ∨ ∃ record later text, rest = record :: later ∧ toVec record = .ok text ∧
    torn <+: text ++ [newline]

/-- The file goes on with the lines of the first events that were appended, and a torn one of the next;
while it is written, with those of all. -/
def Durable (toVec : R → Except String (List UInt8)) (file : List UInt8) (measured : Bool)
    (w : World R) : Prop :=
  ∃ first rest lines torn, w.taken = first ++ rest ∧ first.map toVec = lines.map .ok ∧
    w.writer.file = file ++ Lines.join newline lines ++ torn ∧ Torn toVec rest torn ∧
    (measured = true → w.writer.file.length ≤ max file.length HISTORY_FILE_BYTES) ∧
    (w.writer.shut = false → rest = [] ∧ torn = [] ∧
      (measured = true → w.writer.written = w.writer.file.length))

theorem Torn.append {rest : List R} {torn : List UInt8} (h : Torn toVec rest torn) (record : R) :
    Torn toVec (rest ++ [record]) torn := by
  rcases h with hnone | ⟨next, later, text, rfl, htext, htorn⟩
  · exact .inl hnone
  · exact .inr ⟨next, later ++ [record], text, rfl, htext, htorn⟩

theorem Durable.append {answer : WriteAnswer} {record : R} {lost : ℕ} {drain : Drain R}
    (h : Durable toVec file measured w) :
    Durable toVec file measured { w with
      drain
      writer := w.writer.append toVec answer record lost
      taken := w.taken ++ [record] } := by
  obtain ⟨first, rest, lines, torn, htaken, hlines, hfile, htorn, hbound, hopen⟩ := h
  have htaken' : w.taken ++ [record] = first ++ (rest ++ [record]) := by rw [htaken, append_assoc]
  obtain ⟨-, -, ⟨hshut, hsame⟩ | ⟨text, hwas, htext, hfits, hwrote⟩⟩ :=
    append_cases toVec w.writer answer record lost
  · exact ⟨first, _, lines, torn, htaken', hlines, hsame.trans hfile, htorn.append record,
      fun hmeasured => hsame ▸ hbound hmeasured, fun ho => absurd (hshut.symm.trans ho) (by decide)⟩
  -- the file had all
  obtain ⟨rfl, rfl, hwritten⟩ := hopen hwas
  rw [append_nil] at hfile
  rcases hwrote with ⟨hw, hf⟩ | ⟨hshut, bytes, hf⟩
  · refine ⟨first ++ [record], [], lines ++ [text], [], ?_, ?_, ?_, .inl rfl, fun hmeasured => ?_,
      fun _ => ⟨rfl, rfl, fun hmeasured => ?_⟩⟩
    · rw [htaken', nil_append, append_nil]
    · simp [hlines, htext]
    · simp [hf, hfile]
    · rw [hf, length_append, ← hwritten hmeasured]
      exact hfits.trans (le_max_right ..)
    · rw [hw, hf, hwritten hmeasured]
      exact length_append.symm
  · refine ⟨first, _, lines, _, htaken', hlines, hfile ▸ hf,
      .inr ⟨record, [], text, rfl, htext, take_prefix ..⟩, fun hmeasured => ?_,
      fun ho => absurd (hshut.symm.trans ho) (by decide)⟩
    have := hwritten hmeasured
    rw [hf, length_append, length_take]
    omega

theorem Durable.step (h : Durable toVec file measured w)
    (hst : (history toVec capacity).step w l w') : Durable toVec file measured w' := by
  change w.next toVec capacity l = some w' at hst
  cases l with
  | append answer =>
    rw [World.next] at hst
    split at hst <;> cases hst
    exact h.append
  | finish =>
    rw [World.next] at hst
    split at hst <;> cases hst
    rw [finish_eq]
    exact h
  | _ =>
    rw [World.next] at hst
    repeat' split at hst
    all_goals cases hst
    all_goals exact h

/-- **The file is what was there, the lines of the first events and a piece of the next**, and nothing
is missing of those that were appended where it is neither truncated nor in error. -/
theorem history_durable (h : (history toVec capacity).Run (.new file measured) ls w) :
    Durable toVec file measured w := by
  refine h.invariant ⟨[], [], [], [], rfl, rfl, ?_, .inl rfl, fun _ => le_max_left .., fun _ => ?_⟩
    fun _ _ _ => Durable.step
  · simp [World.new, HistoryWriter.new]
  · exact ⟨rfl, rfl, fun hmeasured => if_pos hmeasured⟩

/-- A number is written as one byte. -/
def byteVec (n : ℕ) : Except String (List UInt8) := .ok [n.toUInt8]

/-- The second event of three found the channel full, and the line of the third was torn. -/
def tornWorld : World ℕ where
  queue := []
  losing := 0
  dropped := 1
  closed := true
  drain := .finished
  writer := ⟨[1, newline, 3], 2, ⟨[1, 3], 2, 1, false, some (boundedDetail "disk full")⟩⟩
  emitted := [1, 2, 3]
  taken := [1, 3]

theorem run_tornWorld : (history byteVec 1).Run (.new [] true)
    [.emit 1, .emit 2, .receive, .lose, .count, .append .written, .emit 3, .receive, .count,
      .append (.failed 1 "disk full"), .close, .finish] tornWorld := Machine.run_ofFun.2 rfl

theorem history_complete_torn :
    tornWorld.writer.state.entries <:+ [1, 3] ∧
      tornWorld.writer.state.published + tornWorld.writer.state.dropped = 3 ∧
      (tornWorld.writer.state.complete = true ↔ tornWorld.writer.state.entries = [1, 2, 3]) := by
  obtain ⟨-, -, -, -, hsuffix, -, hended⟩ := history_complete run_tornWorld
  obtain ⟨hcount, hcomplete⟩ := hended rfl
  exact ⟨hsuffix, hcount, hcomplete⟩

theorem history_durable_torn : Durable byteVec [] true tornWorld := history_durable run_tornWorld

end Lvu.History
