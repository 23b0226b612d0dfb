import Lvu.Core.Capture

/-!
# The framer

`Framer` cuts what an acquisition reads into records (`lvu-core/src/acquisition.rs`).  A line ends
at `\n` and carries `\r\n` when the byte before is `\r`; a run without a terminator is cut every
`maximum` bytes.  How a record's bytes are allocated is not modelled.

* `push_spec`, `finish_spec`, `flushPartial_spec` : no byte is lost, repeated or moved, and every
  record belongs to the acquisition it was framed for.
-/

namespace Lvu

open List

/-- What the clocks answer to one call of the framer: the times of the records it makes, and the
thread's processor time. -/
structure FrameAnswers where
  now : ℕ → Int64 := fun _ => 0
  cpuNanos : ℕ := 0

/-- `Framer`.  What is pending never exceeds a record, which is what the subtraction in `push`
relies on. -/
structure Framer where
  pending : List UInt8
  fragmented : Bool
  maximum : ℕ
  readerCpuPending : ℕ
  maximum_pos : 0 < maximum
  pending_le : pending.length ≤ maximum

namespace Framer

def new (maximum : ℕ) (h : 0 < maximum) : Framer :=
  { pending := [], fragmented := false, maximum, readerCpuPending := 0, maximum_pos := h
    pending_le := Nat.zero_le _ }

/-- `Framer::record`: its place in the line follows from whether it was fragmented before and
ends now. -/
def record (f : Framer) (io : FrameAnswers) (stream : StreamKind) (acquisitionId : Uuid)
    (place : ℕ) (bytes delimiter : List UInt8) («end» : Bool) : CapturedRecord :=
  { capturedAtUnixNanos := io.now place, stream, bytes, delimiter, acquisitionId
    chunk := match f.fragmented, «end» with
      | false, true => .complete
      | false, false => .start
      | true, false => .continue
      | true, true => .end
    readerCpuNanos := 0 }

/-- Nothing pending, in the middle of a line or not. -/
def cleared (f : Framer) (fragmented : Bool) : Framer :=
  { f with pending := [], fragmented, pending_le := Nat.zero_le _ }

/-- The middle of a line, with the first `n` of the pending bytes gone. -/
def drained (f : Framer) (n : ℕ) : Framer :=
  { f with
    pending := f.pending.drop n
    fragmented := true
    pending_le := Nat.le_trans (drop_suffix n f.pending).length_le f.pending_le }

/-- What is left of a run once its fragments are cut off. -/
structure Cut where
  framer : Framer
  tail : List UInt8
  output : List CapturedRecord
  fits : framer.pending.length + tail.length ≤ framer.maximum

section Push

variable (io : FrameAnswers) (stream : StreamKind) (acquisitionId : Uuid)

/-- The inner loop of `push`: fragments are cut off the run until it fits. -/
def cut (f : Framer) (run : List UInt8) (output : List CapturedRecord) : Cut :=
  if _h : f.maximum < f.pending.length + run.length then
    let take := f.maximum - f.pending.length
    let bytes := f.pending ++ run.take take
    cut (f.cleared true) (run.drop take)
      (output ++ [f.record io stream acquisitionId output.length bytes [] false])
  else ⟨f, run, output, by omega⟩
termination_by f.pending.length + run.length
decreasing_by
  have := f.maximum_pos
  have := f.pending_le
  simp only [cleared, length_nil, length_drop]
  omega

/-- What stands before the next terminator (`memchr`). -/
def runOf (input : List UInt8) : List UInt8 := input.takeWhile (· ≠ 10)

/-- The outer loop of `push`, a line at a time. -/
def pushLoop (f : Framer) (input : List UInt8) (output : List CapturedRecord) :
    List CapturedRecord × Framer :=
  if _h : input = [] then (output, f)
  else
    let run := runOf input
    let c := f.cut io stream acquisitionId run output
    if input.length ≤ run.length then
      -- no terminator in this read: the rest waits for the next one
      (c.output, { c.framer with
        pending := c.framer.pending ++ c.tail
        pending_le := by rw [length_append]; exact c.fits })
    else
      let line := c.framer.pending ++ c.tail
      let delimiter := if c.tail.getLast?.or c.framer.pending.getLast? = some 13 then [13, 10] else [10]
      let bytes := line.take (line.length + 1 - delimiter.length)
      pushLoop (c.framer.cleared false) (input.drop (run.length + 1))
        (c.output ++ [c.framer.record io stream acquisitionId c.output.length bytes delimiter true])
termination_by input.length
decreasing_by
  have := length_pos_of_ne_nil _h
  simp only [length_drop]
  omega

/-- The processor time of a call goes to the next record there is. -/
def charge (io : FrameAnswers) (r : List CapturedRecord × Framer) : List CapturedRecord × Framer :=
  let cpu := r.2.readerCpuPending + io.cpuNanos
  match r.1 with
  | [] => ([], { r.2 with readerCpuPending := cpu })
  | first :: rest => ({ first with readerCpuNanos := cpu } :: rest, { r.2 with readerCpuPending := 0 })

/-- `Framer::push`: the records a read completes. -/
def push (f : Framer) (input : List UInt8) : List CapturedRecord × Framer :=
  charge io (f.pushLoop io stream acquisitionId input [])

/-- `Framer::finish`: what is pending ends the line, and an open line with nothing pending is
ended by an empty record. -/
def finish (f : Framer) : List CapturedRecord × Framer :=
  if f.pending = [] then
    if f.fragmented then
      charge io ([f.record io stream acquisitionId 0 [] [] true], f.cleared false)
    else ([], f)
  else charge io ([f.record io stream acquisitionId 0 f.pending [] true], f.cleared false)

/-- `Framer::flush_partial`: what is pending goes out, but for a `\r` whose `\n` may follow. -/
def flushPartial (f : Framer) : List CapturedRecord × Framer :=
  let keep := if f.pending.getLast? = some 13 then 1 else 0
  let emitLength := f.pending.length - keep
  if emitLength = 0 then ([], f)
  else charge io
    ([f.record io stream acquisitionId 0 (f.pending.take emitLength) [] false], f.drained emitLength)

def bufferedLen (f : Framer) : ℕ := f.pending.length

end Push

/-! ### Conservation -/

variable {io : FrameAnswers} {stream : StreamKind} {acquisitionId : Uuid}

/-- The records belong to an acquisition and its stream. -/
def Tagged (stream : StreamKind) (acquisitionId : Uuid) (cs : List CapturedRecord) : Prop :=
  ∀ c ∈ cs, c.stream = stream ∧ c.acquisitionId = acquisitionId

theorem Tagged.append {cs cs' : List CapturedRecord} (h : Tagged stream acquisitionId cs)
    (h' : Tagged stream acquisitionId cs') : Tagged stream acquisitionId (cs ++ cs') :=
  fun c hc => (mem_append.1 hc).elim (h c) (h' c)

theorem Tagged.concat {cs : List CapturedRecord} (h : Tagged stream acquisitionId cs) (f : Framer)
    (place : ℕ) (bytes delimiter : List UInt8) («end» : Bool) :
    Tagged stream acquisitionId
      (cs ++ [f.record io stream acquisitionId place bytes delimiter «end»]) :=
  h.append fun c hc => by rw [mem_singleton.1 hc]; exact ⟨rfl, rfl⟩

theorem tagged_nil (stream : StreamKind) (acquisitionId : Uuid) : Tagged stream acquisitionId [] :=
  fun _ h => absurd h not_mem_nil

/-- What a call of the framer does: from `taken`, pending and then read, it makes records of the
acquisition and leaves the rest pending. -/
structure Frames (stream : StreamKind) (acquisitionId : Uuid) (maximum : ℕ) (taken : List UInt8)
    (r : List CapturedRecord × Framer) : Prop where
  conserves : inputs r.1 ++ r.2.pending = taken
  tagged : Tagged stream acquisitionId r.1
  maximum_eq : r.2.maximum = maximum

theorem Frames.charge {maximum : ℕ} {taken : List UInt8} {r : List CapturedRecord × Framer}
    (h : Frames stream acquisitionId maximum taken r) :
    Frames stream acquisitionId maximum taken (charge io r) := by
  obtain ⟨output, f⟩ := r
  cases output with
  | nil => exact ⟨h.conserves, h.tagged, h.maximum_eq⟩
  | cons first rest =>
    refine ⟨h.conserves, fun c hc => ?_, h.maximum_eq⟩
    rcases mem_cons.1 hc with rfl | hc
    · exact h.tagged first mem_cons_self
    · exact h.tagged c (mem_cons_of_mem _ hc)

theorem inputs_concat_record (f : Framer) (output : List CapturedRecord) (place : ℕ)
    (bytes delimiter : List UInt8) («end» : Bool) :
    inputs (output ++ [f.record io stream acquisitionId place bytes delimiter «end»]) =
      inputs output ++ (bytes ++ delimiter) := by
  rw [inputs_append, inputs_cons, inputs_nil, append_nil]
  rfl

theorem cut_spec (io : FrameAnswers) (f : Framer) (run : List UInt8) {output : List CapturedRecord}
    (h : Tagged stream acquisitionId output) :
    let c := f.cut io stream acquisitionId run output
    inputs c.output ++ c.framer.pending ++ c.tail = inputs output ++ f.pending ++ run ∧
      Tagged stream acquisitionId c.output ∧ c.framer.maximum = f.maximum := by
  induction f, run, output using cut.induct io stream acquisitionId with
  | case1 f run output hlt take bytes ih =>
    rw [cut, dif_pos hlt]
    obtain ⟨hbytes, htagged, hmax⟩ := ih (h.concat f _ bytes [] false)
    refine ⟨hbytes.trans ?_, htagged, hmax⟩
    rw [inputs_concat_record]
    simp [cleared, bytes]
  | case2 f run output hle =>
    rw [cut, dif_neg hle]
    exact ⟨rfl, h, rfl⟩

theorem line_delimiter (pending tail : List UInt8) :
    let line := pending ++ tail
    let delimiter := if tail.getLast?.or pending.getLast? = some 13 then [13, 10] else [10]
    line.take (line.length + 1 - delimiter.length) ++ delimiter = line ++ [10] := by
  intro line delimiter
  have hlast : line.getLast? = tail.getLast?.or pending.getLast? := getLast?_append
  by_cases h : tail.getLast?.or pending.getLast? = some 13
  · have hline : line = line.dropLast ++ [13] := by
      rw [h] at hlast
      exact (dropLast_append_getLast? 13 hlast).symm
    have hd : delimiter = [13, 10] := if_pos h
    rw [hd]
    conv_rhs => rw [hline]
    rw [dropLast_eq_take, append_assoc]
    rfl
  · have hd : delimiter = [10] := if_neg h
    rw [hd]
    simp

/-- A read that is longer than its first run goes on with a newline. -/
theorem runOf_newline {input : List UInt8} (h : ¬ input.length ≤ (runOf input).length) :
    runOf input ++ [10] ++ input.drop ((runOf input).length + 1) = input := by
  have hsplit : runOf input ++ input.dropWhile (· ≠ 10) = input := takeWhile_append_dropWhile
  have hne : input.dropWhile (· ≠ 10) ≠ [] := by
    intro hnil
    rw [hnil, append_nil] at hsplit
    exact h (congrArg List.length hsplit ▸ Nat.le_refl _)
  obtain ⟨b, rest, hrest⟩ := exists_cons_of_ne_nil hne
  have hb : b = 10 := by
    have hhead := head_dropWhile_not (fun b : UInt8 => decide (b ≠ 10)) hne
    simp only [hrest, head_cons] at hhead
    simpa using hhead
  rw [hrest, hb] at hsplit
  have hdrop : input.drop ((runOf input).length + 1) = rest := by
    have : (runOf input ++ 10 :: rest).drop ((runOf input).length + 1) = rest := by simp
    rwa [hsplit] at this
  rw [hdrop, append_assoc]
  exact hsplit

theorem pushLoop_spec (f : Framer) (input : List UInt8) {output : List CapturedRecord}
    (h : Tagged stream acquisitionId output) :
    Frames stream acquisitionId f.maximum (inputs output ++ f.pending ++ input)
      (f.pushLoop io stream acquisitionId input output) := by
  induction f, input, output using pushLoop.induct io stream acquisitionId with
  | case1 f output =>
    rw [pushLoop, dif_pos rfl]
    exact ⟨by rw [append_nil], h, rfl⟩
  | case2 f input output hne run hle =>
    obtain ⟨hbytes, htagged, hmax⟩ := cut_spec io f run h
    have hrun : runOf input = input := (List.takeWhile_prefix _).eq_of_length_le hle
    rw [pushLoop, dif_neg hne]
    simp only [run, if_pos hle] at *
    refine ⟨?_, htagged, hmax⟩
    rw [← append_assoc, hbytes, hrun]
  | case3 f input output hne run c hlt line delimiter bytes ih =>
    obtain ⟨hbytes, htagged, hmax⟩ := cut_spec io f run h
    have hframes := ih (htagged.concat c.framer _ bytes delimiter true)
    rw [pushLoop, dif_neg hne, if_neg hlt]
    refine ⟨hframes.conserves.trans ?_, hframes.tagged, hframes.maximum_eq.trans hmax⟩
    have hline : bytes ++ delimiter = c.framer.pending ++ c.tail ++ [10] := line_delimiter _ _
    rw [inputs_concat_record, hline]
    calc _ = inputs c.output ++ c.framer.pending ++ c.tail ++ ([10] ++ input.drop (run.length + 1)) := by
          simp [cleared]
      _ = inputs output ++ f.pending ++ (run ++ [10] ++ input.drop (run.length + 1)) := by
          rw [hbytes]
          simp
      _ = _ := by rw [runOf_newline hlt]

/-- **`push` loses, repeats and moves no byte.** -/
theorem push_spec (f : Framer) (input : List UInt8) :
    Frames stream acquisitionId f.maximum (f.pending ++ input)
      (f.push io stream acquisitionId input) :=
  (pushLoop_spec f input fun _ h => absurd h not_mem_nil).charge

theorem finish_spec (f : Framer) :
    Frames stream acquisitionId f.maximum f.pending (f.finish io stream acquisitionId) ∧
      (f.finish io stream acquisitionId).2.pending = [] := by
  unfold finish
  split_ifs with hp hf
  · refine ⟨Frames.charge ⟨?_, ?_, rfl⟩, rfl⟩
    · rw [hp]
      rfl
    · exact Tagged.concat (tagged_nil _ _) f 0 [] [] true
  · exact ⟨⟨rfl, fun _ h => absurd h not_mem_nil, rfl⟩, hp⟩
  · refine ⟨Frames.charge ⟨?_, ?_, rfl⟩, rfl⟩
    · exact (append_nil _).trans ((append_nil _).trans (append_nil _))
    · exact Tagged.concat (tagged_nil _ _) f 0 f.pending [] true

theorem flushPartial_spec (f : Framer) :
    Frames stream acquisitionId f.maximum f.pending (f.flushPartial io stream acquisitionId) := by
  simp only [flushPartial]
  generalize f.pending.length - (if f.pending.getLast? = some 13 then 1 else 0) = emitLength
  split_ifs
  · exact ⟨rfl, fun _ h => absurd h not_mem_nil, rfl⟩
  · refine Frames.charge ⟨?_, ?_, rfl⟩
    · rw [← nil_append [_], inputs_concat_record, inputs_nil, nil_append, append_nil]
      exact take_append_drop _ _
    · exact Tagged.concat (tagged_nil _ _) f 0 _ [] false

end Framer

end Lvu
