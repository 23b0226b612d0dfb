import Lvu.Machine.Outcome
import Lvu.Bytes.Lines
import Lvu.Shared.Connections

/-!
# Control frames

A message of the control socket is one line of JSON, and the decoder is fed with whatever a read
returns (`lvu-shared/src/frame.rs`).  The JSON itself is a parameter.

* `pushBytes` : `FrameDecoder::push_bytes`, with its four tests of the bound.
* `Decoded` : what a stream is, line by line.
* `run_iff` : **a run gives what the stream is**, however it was read.
-/

namespace Lvu.Shared.Frames

open List

inductive FrameError
  | tooLarge (bytes : ℕ)
  | overflow
  | malformed (error : String)
deriving DecidableEq

/-- The byte that ends a line. -/
abbrev newline : UInt8 := 10

variable {Value : Type}

def encodeFrame (toVec : Value → Except String (List UInt8)) (value : Value) :
    Except FrameError (List UInt8) :=
  match toVec value with
  | .error error => .error (.malformed error)
  | .ok bytes =>
    if maxControlMessageBytes < (bytes ++ [newline]).length then
      .error (.tooLarge (bytes ++ [newline]).length)
    else .ok (bytes ++ [newline])

variable (fromSlice : List UInt8 → Except String Value)

def decodeFrame (line : List UInt8) : Except FrameError Value :=
  if maxControlMessageBytes < line.length + 1 then .error (.tooLarge (line.length + 1))
  else (fromSlice line).mapError .malformed

/-- The first line, without its end, and what follows. -/
def cutLine : List UInt8 → Option (List UInt8 × List UInt8)
  | [] => none
  | byte :: bytes =>
    if byte = newline then some ([], bytes)
    else (cutLine bytes).map fun cut => (byte :: cut.1, cut.2)

theorem length_of_cutLine {bytes : List UInt8} {cut : List UInt8 × List UInt8}
    (h : cutLine bytes = some cut) : cut.2.length < bytes.length := by
  induction bytes generalizing cut with
  | nil => cases h
  | cons byte bytes ih =>
    rw [cutLine] at h
    split_ifs at h
    · cases h
      exact Nat.lt_succ_self _
    · obtain ⟨rest, hrest, rfl⟩ := Option.map_eq_some_iff.1 h
      exact (ih hrest).trans (Nat.lt_succ_self _)

/-- The lines of a slice, and the unterminated tail. -/
def pushLines (rest : List UInt8) : Except FrameError (List Value × List UInt8) :=
  match _h : cutLine rest with
  | none => .ok ([], rest)
  | some cut =>
    match decodeFrame fromSlice cut.1 with
    | .error error => .error error
    | .ok value => (pushLines cut.2).map fun pushed => (value :: pushed.1, pushed.2)
termination_by rest.length
decreasing_by exact length_of_cutLine _h

/-- What `push_bytes` does once nothing is buffered: the values so far, and what is left of the
read. -/
def pushRest (values : List Value) (rest : List UInt8) :
    Except FrameError (List Value) × List UInt8 :=
  match pushLines fromSlice rest with
  | .error error => (.error error, [])
  | .ok (more, tail) =>
    if tail ≠ [] ∧ maxControlMessageBytes ≤ tail.length then (.error .overflow, [])
    else (.ok (values ++ more), tail)

/-- `FrameDecoder::push_bytes`, with what is buffered before and after. -/
def pushBytes (buffered bytes : List UInt8) : Except FrameError (List Value) × List UInt8 :=
  if buffered = [] then pushRest fromSlice [] bytes
  else
    match cutLine bytes with
    | some (line, rest) =>
      let wire := buffered.length + line.length + 1
      if maxControlMessageBytes < wire then (.error (.tooLarge wire), buffered)
      else
        match decodeFrame fromSlice (buffered ++ line) with
        | .error error => (.error error, [])
        | .ok value => pushRest fromSlice [value] rest
    | none =>
      if maxControlMessageBytes ≤ buffered.length + bytes.length then (.error .overflow, buffered)
      else (.ok [], buffered ++ bytes)

/-- A connection: the reads go to the decoder until it reports an error. -/
def run : List (List UInt8) → List UInt8 → Except FrameError (List Value × List UInt8)
  | [], buffered => .ok ([], buffered)
  | bytes :: reads, buffered =>
    match pushBytes fromSlice buffered bytes with
    | (.error error, _) => .error error
    | (.ok values, buffered) => (run reads buffered).map fun more => (values ++ more.1, more.2)

/-- What is buffered after some reads, whether they were errors or not. -/
def retained (reads : List (List UInt8)) : List UInt8 :=
  reads.foldl (fun buffered bytes => (pushBytes fromSlice buffered bytes).2) []

/-! ### Streams -/

/-- A line is accepted as a value. -/
def Accepted (line : List UInt8) (value : Value) : Prop :=
  newline ∉ line ∧ decodeFrame fromSlice line = .ok value

/-- **What a stream is**: lines that are accepted, and a tail without an end. -/
def Decoded (stream : List UInt8) (values : List Value) (tail : List UInt8) : Prop :=
  ∃ lines, stream = Lines.join newline lines ++ tail ∧ newline ∉ tail ∧
    List.Forall₂ (Accepted fromSlice) lines values

variable {fromSlice}

theorem cutLine_eq_none {bytes : List UInt8} : cutLine bytes = none ↔ newline ∉ bytes := by
  induction bytes with
  | nil => simp [cutLine]
  | cons byte bytes ih =>
    rw [cutLine]
    split_ifs with hbyte
    · simp [hbyte]
    · simp [ih, Ne.symm hbyte]

theorem cutLine_eq_some {bytes line rest : List UInt8} (h : cutLine bytes = some (line, rest)) :
    bytes = line ++ newline :: rest ∧ newline ∉ line := by
  induction bytes generalizing line with
  | nil => cases h
  | cons byte bytes ih =>
    rw [cutLine] at h
    split_ifs at h with hbyte
    · cases h
      simp [hbyte]
    · obtain ⟨⟨line', rest'⟩, hcut, heq⟩ := Option.map_eq_some_iff.1 h
      cases heq
      obtain ⟨rfl, hline⟩ := ih hcut
      exact ⟨rfl, by simp [hline, Ne.symm hbyte]⟩

/-- A stream begins with a line. -/
theorem decoded_line {line rest tail : List UInt8} {values : List Value} (hline : newline ∉ line) :
    Decoded fromSlice (line ++ newline :: rest) values tail ↔
      ∃ value more, values = value :: more ∧ decodeFrame fromSlice line = .ok value ∧
        Decoded fromSlice rest more tail := by
  constructor
  · rintro ⟨lines, hstream, htail, hall⟩
    cases lines with
    | nil =>
      rw [Lines.join_nil, nil_append] at hstream
      exact absurd (hstream ▸ mem_append_right line mem_cons_self) htail
    | cons first lines =>
      obtain ⟨value, more, hfirst, hmore, rfl⟩ := List.forall₂_cons_left_iff.1 hall
      have hsplit := congrArg (Lines.split newline) hstream
      rw [Lines.join_cons, append_assoc, cons_append, Lines.split_line hline,
        Lines.split_line hfirst.1] at hsplit
      obtain rfl : line = first := append_cancel_right (List.cons.inj hsplit).1
      rw [Lines.join_cons, append_assoc, cons_append] at hstream
      have hrest := (List.cons.inj (append_cancel_left hstream)).2
      exact ⟨value, more, rfl, hfirst.2, lines, hrest, htail, hmore⟩
  · rintro ⟨value, more, rfl, hvalue, lines, rfl, htail, hall⟩
    exact ⟨line :: lines, by simp, htail, .cons ⟨hline, hvalue⟩ hall⟩

theorem decoded_tail {stream tail : List UInt8} {values : List Value} (h : newline ∉ stream) :
    Decoded fromSlice stream values tail ↔ values = [] ∧ tail = stream := by
  constructor
  · rintro ⟨lines, rfl, -, hall⟩
    cases lines with
    | nil => exact ⟨List.forall₂_nil_left_iff.1 hall, rfl⟩
    | cons line lines => simp at h
  · rintro ⟨rfl, rfl⟩
    exact ⟨[], rfl, h, .nil⟩

/-- Whole lines are cut off one by one. -/
theorem pushLines_iff {rest tail : List UInt8} {values : List Value} :
    pushLines fromSlice rest = .ok (values, tail) ↔ Decoded fromSlice rest values tail := by
  induction hlength : rest.length using Nat.strong_induction_on generalizing rest values with
  | _ n ih =>
    cases hcut : cutLine rest with
    | none =>
      have hpush : pushLines fromSlice rest = .ok ([], rest) := by
        rw [pushLines]
        split
        · rfl
        · next heq => rw [hcut] at heq; cases heq
      rw [hpush, decoded_tail (cutLine_eq_none.1 hcut), Except.ok.injEq, Prod.mk.injEq, eq_comm,
        @eq_comm _ rest]
    | some cut =>
      obtain ⟨line, rest'⟩ := cut
      have hlt := length_of_cutLine hcut
      have hpush : pushLines fromSlice rest =
          match decodeFrame fromSlice line with
          | .error error => .error error
          | .ok value => (pushLines fromSlice rest').map fun pushed =>
              (value :: pushed.1, pushed.2) := by
        rw [pushLines]
        split
        · next heq => rw [hcut] at heq; cases heq
        · next heq =>
          rw [hcut] at heq
          cases heq
          rfl
      obtain ⟨rfl, hline⟩ := cutLine_eq_some hcut
      rw [hpush, decoded_line hline]
      cases hvalue : decodeFrame fromSlice line with
      | error error => simp
      | ok value =>
        constructor
        · intro h
          obtain ⟨pushed, hrest, h⟩ := Outcome.bind_eq_ok.1 h
          cases h
          exact ⟨value, _, rfl, rfl, (ih _ (hlength ▸ hlt) rfl).1 hrest⟩
        · rintro ⟨value', more, rfl, hsame, hdecoded⟩
          cases hsame
          have hrest := (ih _ (hlength ▸ hlt) rfl).2 hdecoded
          dsimp only
          rw [hrest]
          rfl

/-- With nothing buffered a read gives its lines, and a tail that can still complete. -/
theorem pushRest_iff {rest tail : List UInt8} {values more : List Value} :
    pushRest fromSlice values rest = (.ok more, tail) ↔ ∃ pushed, more = values ++ pushed ∧
      Decoded fromSlice rest pushed tail ∧ tail.length < maxControlMessageBytes := by
  have hpositive : 0 < maxControlMessageBytes := by decide
  unfold pushRest
  cases hpush : pushLines fromSlice rest with
  | error error =>
    constructor
    · intro h
      cases (Prod.mk.inj h).1
    · rintro ⟨pushed, -, hdecoded, -⟩
      rw [pushLines_iff.2 hdecoded] at hpush
      cases hpush
  | ok found =>
    obtain ⟨pushed, left⟩ := found
    have hdecoded := pushLines_iff.1 hpush
    change (if left ≠ [] ∧ maxControlMessageBytes ≤ left.length then
      ((.error .overflow, []) : Except FrameError (List Value) × List UInt8)
        else (.ok (values ++ pushed), left)) = _ ↔ _
    constructor
    · intro h
      split_ifs at h with hlong
      · cases (Prod.mk.inj h).1
      · obtain ⟨hmore, rfl⟩ := Prod.mk.inj h
        cases hmore
        refine ⟨pushed, rfl, hdecoded, ?_⟩
        by_cases hnil : left = []
        · rwa [hnil]
        · exact Nat.lt_of_not_le fun hle => hlong ⟨hnil, hle⟩
    · rintro ⟨pushed', rfl, hdecoded', hshort⟩
      obtain ⟨rfl, rfl⟩ : pushed = pushed' ∧ left = tail := by
        have hpush' := pushLines_iff.2 hdecoded'
        rw [hpush] at hpush'
        exact Prod.mk.inj (Except.ok.inj hpush')
      rw [if_neg fun h => absurd hshort (Nat.not_lt.2 h.2)]

/-- What a decoder retains between reads: a line without its end, shorter than the bound. -/
structure Retained (buffered : List UInt8) : Prop where
  unterminated : newline ∉ buffered
  short : buffered.length < maxControlMessageBytes

theorem length_of_decodeFrame {line : List UInt8} {value : Value}
    (h : decodeFrame fromSlice line = .ok value) : line.length + 1 ≤ maxControlMessageBytes := by
  unfold decodeFrame at h
  split_ifs at h with hlong
  exact Nat.le_of_not_lt hlong

/-- **A read gives what the stream up to its end is.** -/
theorem pushBytes_iff {buffered bytes tail : List UInt8} {values : List Value}
    (hbuffered : Retained buffered) :
    pushBytes fromSlice buffered bytes = (.ok values, tail) ↔
      Decoded fromSlice (buffered ++ bytes) values tail ∧
        tail.length < maxControlMessageBytes := by
  unfold pushBytes
  by_cases hnil : buffered = []
  · subst hnil
    rw [if_pos rfl, pushRest_iff]
    simp
  · rw [if_neg hnil]
    cases hcut : cutLine bytes with
    | none =>
      have hnone : newline ∉ buffered ++ bytes := by
        simp [hbuffered.unterminated, cutLine_eq_none.1 hcut]
      rw [decoded_tail hnone]
      change (if maxControlMessageBytes ≤ buffered.length + bytes.length then
        ((.error .overflow, buffered) : Except FrameError (List Value) × List UInt8)
          else (.ok [], buffered ++ bytes)) = _ ↔ _
      constructor
      · intro h
        split_ifs at h with hlong
        · cases (Prod.mk.inj h).1
        · obtain ⟨hvalues, rfl⟩ := Prod.mk.inj h
          refine ⟨⟨(Except.ok.inj hvalues).symm, rfl⟩, ?_⟩
          rw [length_append]
          exact Nat.lt_of_not_le hlong
      · rintro ⟨⟨rfl, rfl⟩, hshort⟩
        rw [length_append] at hshort
        rw [if_neg (Nat.not_le.2 hshort)]
    | some cut =>
      obtain ⟨line, rest⟩ := cut
      obtain ⟨rfl, hline⟩ := cutLine_eq_some hcut
      have hwhole : newline ∉ buffered ++ line := by simp [hbuffered.unterminated, hline]
      rw [← append_assoc, decoded_line hwhole]
      change (if maxControlMessageBytes < buffered.length + line.length + 1 then
        ((.error (.tooLarge (buffered.length + line.length + 1)), buffered) :
          Except FrameError (List Value) × List UInt8)
        else match decodeFrame fromSlice (buffered ++ line) with
          | .error error => (.error error, [])
          | .ok value => pushRest fromSlice [value] rest) = _ ↔ _
      constructor
      · intro h
        split_ifs at h with hlong
        · cases (Prod.mk.inj h).1
        · cases hvalue : decodeFrame fromSlice (buffered ++ line) with
          | error error =>
            rw [hvalue] at h
            cases (Prod.mk.inj h).1
          | ok value =>
            rw [hvalue] at h
            obtain ⟨pushed, rfl, hdecoded, hshort⟩ := pushRest_iff.1 h
            exact ⟨⟨value, pushed, rfl, rfl, hdecoded⟩, hshort⟩
      · rintro ⟨⟨value, more, rfl, hvalue, hdecoded⟩, hshort⟩
        have hlong := length_of_decodeFrame hvalue
        rw [length_append] at hlong
        rw [if_neg (Nat.not_lt.2 hlong), hvalue]
        exact pushRest_iff.2 ⟨more, rfl, hdecoded, hshort⟩

/-- Every stream is made of lines and a tail. -/
theorem exists_lines (stream : List UInt8) : ∃ lines tail,
    stream = Lines.join newline lines ++ tail ∧ (∀ line ∈ lines, newline ∉ line) ∧
      newline ∉ tail := by
  induction stream with
  | nil => exact ⟨[], [], rfl, by simp, by simp⟩
  | cons byte stream ih =>
    obtain ⟨lines, tail, rfl, hlines, htail⟩ := ih
    by_cases hbyte : byte = newline
    · subst hbyte
      exact ⟨[] :: lines, tail, by simp, forall_mem_cons.2 ⟨by simp, hlines⟩, htail⟩
    · cases lines with
      | nil => exact ⟨[], byte :: tail, rfl, by simp, by simp [htail, Ne.symm hbyte]⟩
      | cons line lines =>
        obtain ⟨hline, hrest⟩ := forall_mem_cons.1 hlines
        exact ⟨(byte :: line) :: lines, tail, by simp,
          forall_mem_cons.2 ⟨by simp [hline, Ne.symm hbyte], hrest⟩, htail⟩

/-- **A stream may be cut anywhere**: what is left of the head goes before the rest. -/
theorem decoded_append {x y tail : List UInt8} {values : List Value} :
    Decoded fromSlice (x ++ y) values tail ↔ ∃ first left more, values = first ++ more ∧
      Decoded fromSlice x first left ∧ Decoded fromSlice (left ++ y) more tail := by
  obtain ⟨lines, left, rfl, hlines, hleft⟩ := exists_lines x
  induction lines generalizing values with
  | nil =>
    rw [Lines.join_nil, nil_append]
    constructor
    · intro h
      exact ⟨[], left, values, rfl, (decoded_tail hleft).2 ⟨rfl, rfl⟩, h⟩
    · rintro ⟨first, left', more, rfl, hfirst, hmore⟩
      obtain ⟨rfl, rfl⟩ := (decoded_tail hleft).1 hfirst
      exact hmore
  | cons line lines ih =>
    obtain ⟨hline, hrest⟩ := forall_mem_cons.1 hlines
    have hstream : Lines.join newline (line :: lines) ++ left =
        line ++ newline :: (Lines.join newline lines ++ left) := by simp
    rw [hstream, append_assoc, cons_append, decoded_line hline]
    constructor
    · rintro ⟨value, values, rfl, hvalue, hdecoded⟩
      obtain ⟨first, left', more, rfl, hfirst, hmore⟩ := (ih hrest).1 hdecoded
      exact ⟨value :: first, left', more, rfl,
        (decoded_line hline).2 ⟨value, first, rfl, hvalue, hfirst⟩, hmore⟩
    · rintro ⟨first, left', more, rfl, hfirst, hmore⟩
      obtain ⟨value, first', rfl, hvalue, hdecoded⟩ := (decoded_line hline).1 hfirst
      exact ⟨value, first' ++ more, rfl, hvalue,
        (ih hrest).2 ⟨first', left', more, rfl, hdecoded, hmore⟩⟩

/-- What was left before a read that was accepted is shorter than the bound. -/
theorem retained_of_decoded {left bytes tail : List UInt8} {values : List Value}
    (hleft : newline ∉ left) (h : Decoded fromSlice (left ++ bytes) values tail)
    (hshort : tail.length < maxControlMessageBytes) : Retained left := by
  refine ⟨hleft, ?_⟩
  cases hcut : cutLine bytes with
  | none =>
    have hnone : newline ∉ left ++ bytes := by simp [hleft, cutLine_eq_none.1 hcut]
    obtain ⟨-, rfl⟩ := (decoded_tail hnone).1 h
    rw [length_append] at hshort
    omega
  | some cut =>
    obtain ⟨line, rest⟩ := cut
    obtain ⟨rfl, hline⟩ := cutLine_eq_some hcut
    have hwhole : newline ∉ left ++ line := by simp [hleft, hline]
    rw [← append_assoc, decoded_line hwhole] at h
    obtain ⟨value, -, -, hvalue, -⟩ := h
    have hlength := length_of_decodeFrame hvalue
    rw [length_append] at hlength
    omega

theorem Decoded.tail {stream tail : List UInt8} {values : List Value}
    (h : Decoded fromSlice stream values tail) : newline ∉ tail := by
  obtain ⟨-, -, htail, -⟩ := h
  exact htail

/-- **A run gives what the stream is**, however it was read. -/
theorem run_iff {reads : List (List UInt8)} {buffered tail : List UInt8} {values : List Value}
    (hbuffered : Retained buffered) : run fromSlice reads buffered = .ok (values, tail) ↔
      Decoded fromSlice (buffered ++ reads.flatten) values tail ∧
        tail.length < maxControlMessageBytes := by
  induction reads generalizing buffered values with
  | nil =>
    rw [flatten_nil, append_nil, decoded_tail hbuffered.unterminated, run,
      Except.ok.injEq, Prod.mk.injEq]
    constructor
    · rintro ⟨rfl, rfl⟩
      exact ⟨⟨rfl, rfl⟩, hbuffered.short⟩
    · rintro ⟨⟨rfl, rfl⟩, -⟩
      exact ⟨rfl, rfl⟩
  | cons bytes reads ih =>
    rw [flatten_cons, ← append_assoc, decoded_append]
    constructor
    · intro h
      rw [run] at h
      split at h
      · cases h
      · next first left hpush =>
        obtain ⟨hfirst, hshort⟩ := (pushBytes_iff hbuffered).1 hpush
        have hleft : Retained left := ⟨hfirst.tail, hshort⟩
        obtain ⟨found, hrun, h⟩ := Outcome.bind_eq_ok.1 h
        cases h
        obtain ⟨hmore, htail⟩ := (ih hleft).1 hrun
        exact ⟨⟨first, left, found.1, rfl, hfirst, hmore⟩, htail⟩
    · rintro ⟨⟨first, left, more, rfl, hfirst, hmore⟩, hshort⟩
      have hleft := retained_of_decoded hfirst.tail hmore hshort
      have hpush := (pushBytes_iff hbuffered).2 ⟨hfirst, hleft.short⟩
      have hrun := (ih hleft).2 ⟨hmore, hshort⟩
      rw [run, hpush]
      dsimp only
      rw [hrun]
      rfl

/-! ### Reads -/

theorem retained_nil : Retained [] := ⟨by simp, by decide⟩

/-- A decoder retains less than the bound, also where it has reported an error. -/
theorem Retained.push {buffered : List UInt8} (h : Retained buffered) (bytes : List UInt8) :
    Retained (pushBytes fromSlice buffered bytes).2 := by
  have hrest (values : List Value) (rest : List UInt8) :
      Retained (pushRest fromSlice values rest).2 := by
    cases hpush : pushRest fromSlice values rest with
    | mk result left =>
      cases result with
      | error error =>
        unfold pushRest at hpush
        split at hpush
        · obtain ⟨-, rfl⟩ := Prod.mk.inj hpush
          exact retained_nil
        · split_ifs at hpush
          · obtain ⟨-, rfl⟩ := Prod.mk.inj hpush
            exact retained_nil
          · cases (Prod.mk.inj hpush).1
      | ok more =>
        obtain ⟨pushed, -, hdecoded, hshort⟩ := pushRest_iff.1 hpush
        exact ⟨hdecoded.tail, hshort⟩
  unfold pushBytes
  by_cases hnil : buffered = []
  · rw [if_pos hnil]
    exact hrest [] bytes
  · rw [if_neg hnil]
    split
    · dsimp only
      split_ifs
      · exact h
      · split
        · exact retained_nil
        · exact hrest _ _
    · next hcut =>
      split_ifs with hlong
      · exact h
      · refine ⟨by simp [h.unterminated, cutLine_eq_none.1 hcut], ?_⟩
        rw [length_append]
        exact Nat.lt_of_not_le hlong

theorem retained_retained (reads : List (List UInt8)) : Retained (retained fromSlice reads) := by
  unfold retained
  induction reads using List.reverseRecOn with
  | nil => exact retained_nil
  | append_singleton reads bytes ih =>
    rw [foldl_append]
    exact ih.push bytes

/-- The JSON of the value has no end of line and is read back. -/
def ReadBack (toVec : Value → Except String (List UInt8))
    (fromSlice : List UInt8 → Except String Value) (value : Value) : Prop :=
  ∀ bytes, toVec value = .ok bytes → newline ∉ bytes ∧ fromSlice bytes = .ok value

/-- A frame is a line that is accepted, if the JSON of the value is read back. -/
theorem accepted_of_encodeFrame {toVec : Value → Except String (List UInt8)} {value : Value}
    {frame : List UInt8} (hback : ReadBack toVec fromSlice value)
    (h : encodeFrame toVec value = .ok frame) :
    ∃ line, frame = line ++ [newline] ∧ Accepted fromSlice line value := by
  unfold encodeFrame at h
  split at h
  · cases h
  · next line hvec =>
    split_ifs at h with hlong
    cases h
    obtain ⟨hline, hvalue⟩ := hback line hvec
    refine ⟨line, rfl, hline, ?_⟩
    rw [length_append, length_singleton] at hlong
    rw [decodeFrame, if_neg hlong, hvalue]
    rfl

/-- The frames of some values are these values. -/
theorem decoded_frames {toVec : Value → Except String (List UInt8)} {values : List Value}
    {frames : List (List UInt8)} (hback : ∀ value ∈ values, ReadBack toVec fromSlice value)
    (h : List.Forall₂ (fun value frame => encodeFrame toVec value = .ok frame) values frames) :
    Decoded fromSlice frames.flatten values [] := by
  induction h with
  | nil => exact ⟨[], rfl, by simp, .nil⟩
  | cons hframe hrest ih =>
    obtain ⟨line, rfl, haccepted⟩ := accepted_of_encodeFrame (hback _ mem_cons_self) hframe
    rw [flatten_cons, append_assoc, singleton_append, decoded_line haccepted.1]
    exact ⟨_, _, rfl, haccepted.2, ih fun value hvalue => hback value (by simp [hvalue])⟩

/-- **Control framing does not depend on read boundaries**, and gives the values that `serde_json`
reads back. -/
theorem framing_of_reads (toVec : Value → Except String (List UInt8))
    (fromSlice : List UInt8 → Except String Value) (reads reads' : List (List UInt8))
    (hsame : reads.flatten = reads'.flatten) :
    ((∃ error, run fromSlice reads [] = .error error) ↔
      ∃ error, run fromSlice reads' [] = .error error) ∧
    (∀ found, run fromSlice reads [] = .ok found → run fromSlice reads' [] = .ok found) ∧
    (∀ values frames, (∀ value ∈ values, ReadBack toVec fromSlice value) →
      List.Forall₂ (fun value frame => encodeFrame toVec value = .ok frame) values frames →
        reads.flatten = frames.flatten → run fromSlice reads [] = .ok (values, [])) ∧
    (∀ found tail, run fromSlice reads [] = .ok (found, tail) → ∃ lines,
      reads.flatten = Lines.join newline lines ++ tail ∧
      List.Forall₂ (fun line value => fromSlice line = .ok value ∧
        line.length + 1 ≤ maxControlMessageBytes) lines found) ∧
    (retained fromSlice reads).length < maxControlMessageBytes := by
  have hrun (reads : List (List UInt8)) (found : List Value × List UInt8) :
      run fromSlice reads [] = .ok found ↔ Decoded fromSlice reads.flatten found.1 found.2 ∧
        found.2.length < maxControlMessageBytes := run_iff retained_nil
  have hiff (found : List Value × List UInt8) :
      run fromSlice reads [] = .ok found ↔ run fromSlice reads' [] = .ok found := by
    rw [hrun, hrun, hsame]
  refine ⟨?_, fun found => (hiff found).1, fun values frames hback hframes hstream => ?_, ?_,
    (retained_retained reads).short⟩
  · -- a run that reports no error gives values
    cases hfirst : run fromSlice reads [] with
    | ok found => simp [(hiff found).1 hfirst]
    | error error =>
      cases hsecond : run fromSlice reads' [] with
      | ok found =>
        rw [(hiff found).2 hsecond] at hfirst
        cases hfirst
      | error error' => simp
  · exact (hrun reads _).2 ⟨hstream ▸ decoded_frames hback hframes, retained_nil.short⟩
  · intro found tail h
    obtain ⟨⟨lines, hstream, -, hall⟩, -⟩ := (hrun reads _).1 h
    refine ⟨lines, hstream, hall.imp fun line value haccepted => ?_⟩
    have hlength := length_of_decodeFrame haccepted.2
    have hvalue := haccepted.2
    rw [decodeFrame, if_neg (Nat.not_lt.2 hlength)] at hvalue
    refine ⟨?_, hlength⟩
    cases hslice : fromSlice line with
    | error error =>
      rw [hslice] at hvalue
      cases hvalue
    | ok value' =>
      rw [hslice] at hvalue
      exact congrArg Except.ok (Except.ok.inj hvalue)

/-- The JSON of a truth value. -/
def boolToVec : Bool → Except String (List UInt8)
  | true => .ok [116, 114, 117, 101]
  | false => .ok [102, 97, 108, 115, 101]

/-- The truth value of a JSON. -/
def boolFromSlice (bytes : List UInt8) : Except String Bool :=
  if bytes = [116, 114, 117, 101] then .ok true
  else if bytes = [102, 97, 108, 115, 101] then .ok false
  else .error "expected value"

/-- "true" and "false", read in one piece and in three. -/
theorem framing_of_reads_example :
    run boolFromSlice [[116, 114, 117, 101, 10, 102, 97, 108, 115, 101, 10]] [] =
        .ok ([true, false], []) ∧
      run boolFromSlice [[116, 114], [117, 101, 10, 102, 97, 108, 115, 101], [10]] [] =
        .ok ([true, false], []) := by
  have hback : ∀ value ∈ [true, false], ReadBack boolToVec boolFromSlice value := by
    rintro (_ | _) - bytes h <;> cases h <;> exact ⟨by decide, rfl⟩
  have h := framing_of_reads boolToVec boolFromSlice
    [[116, 114, 117, 101, 10, 102, 97, 108, 115, 101, 10]]
    [[116, 114], [117, 101, 10, 102, 97, 108, 115, 101], [10]] rfl
  have hfirst := h.2.2.1 [true, false] [[116, 114, 117, 101, 10], [102, 97, 108, 115, 101, 10]]
    hback (.cons rfl (.cons rfl .nil)) rfl
  exact ⟨hfirst, h.2.1 _ hfirst⟩

/-- The JSON of an empty array in so many others. -/
def arraysToVec (n : ℕ) : Except String (List UInt8) :=
  .ok (replicate (n + 1) 91 ++ replicate (n + 1) 93)

/-- It is read 127 arrays deep, as `serde_json` does. -/
def arraysFromSlice (bytes : List UInt8) : Except String ℕ :=
  let depth := (bytes.takeWhile (· = 91)).length
  if 128 ≤ depth then .error "recursion limit exceeded at line 1 column 128"
  else if depth ≠ 0 ∧ bytes.drop depth = replicate depth 93 then .ok (depth - 1)
  else .error "expected value"

/-- **A value that is nested too deep is written and not read**: 128 arrays in each other. -/
theorem deep_frame_refused : ∃ frame, encodeFrame arraysToVec 127 = .ok frame ∧
    run arraysFromSlice [frame] [] =
      .error (.malformed "recursion limit exceeded at line 1 column 128") := by
  refine ⟨replicate 128 91 ++ replicate 128 93 ++ [newline], by decide +kernel, ?_⟩
  rw [run, pushBytes, if_pos rfl, pushRest, pushLines]
  decide +kernel

end Lvu.Shared.Frames
