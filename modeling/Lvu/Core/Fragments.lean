import Lvu.Core.SseFramer
import Mathlib.Computability.Language

/-!
# Fragments

A framer cuts a line, or an event, into records that say where in it they stand.  Whatever the
order of reads and of flushes, the records of a framer spell whole lines once it has finished
(`lineWords`), and nothing that was read is lost.

* `Emits` : what holds of the records made so far; `Emits.add` : of one record more.
* `Framer.run_emits`, `SseFramer.run_emits` : what the calls of a framer keep.
* `framers_conserve` : **the two framers under any schedule**.
-/

namespace Lvu

open List

/-! ### The words of chunk positions -/

/-- Lines, whole or in fragments. -/
def lineWords : Language ChunkPosition :=
  KStar.kstar ({[.complete]} + {[.start]} * KStar.kstar {[.continue]} * {[.end]})

/-- Where a record stands: whether the line was open before it, and whether it ends it. -/
def chunkOf (fragmented «end» : Bool) : ChunkPosition :=
  match fragmented, «end» with
  | false, true => .complete
  | false, false => .start
  | true, false => .continue
  | true, true => .end

/-- Whole lines, and fragments of one more if a line is open. -/
def Spelled (fragmented : Bool) (word : List ChunkPosition) : Prop :=
  if fragmented then
    ∃ lines ∈ lineWords, ∃ n, word = lines ++ .start :: List.replicate n .continue
  else word ∈ lineWords

theorem spelled_nil : Spelled false [] := Language.nil_mem_kstar _

theorem lineWords_append {lines line : List ChunkPosition} (h : lines ∈ lineWords)
    (hline : line ∈ ({[.complete]} + {[.start]} * KStar.kstar {[.continue]} * {[.end]} :
      Language ChunkPosition)) : lines ++ line ∈ lineWords := by
  obtain ⟨ws, rfl, hws⟩ := Language.mem_kstar.1 h
  refine Language.mem_kstar.2 ⟨ws ++ [line], by simp, fun w hw => ?_⟩
  rcases mem_append.1 hw with hw | hw
  · exact hws w hw
  · rwa [mem_singleton.1 hw]

theorem replicate_mem_kstar (n : ℕ) :
    List.replicate n ChunkPosition.continue ∈ KStar.kstar ({[.continue]} : Language ChunkPosition) :=
  Language.mem_kstar.2 ⟨List.replicate n [.continue], by simp, fun w hw =>
    eq_of_mem_replicate hw⟩

theorem Spelled.snoc {fragmented : Bool} {word : List ChunkPosition} (h : Spelled fragmented word)
    («end» : Bool) : Spelled (!«end») (word ++ [chunkOf fragmented «end»]) := by
  cases fragmented with
  | false =>
    cases «end» with
    | true => exact lineWords_append h (.inl rfl)
    | false => exact ⟨word, h, 0, rfl⟩
  | true =>
    obtain ⟨lines, hlines, n, rfl⟩ := h
    cases «end» with
    | true =>
      rw [append_assoc]
      refine lineWords_append hlines (.inr ⟨.start :: List.replicate n .continue, ?_, [.end], rfl, rfl⟩)
      exact ⟨[.start], rfl, _, replicate_mem_kstar n, rfl⟩
    | false =>
      refine ⟨lines, hlines, n + 1, ?_⟩
      rw [append_assoc, replicate_succ']
      rfl

/-! ### Records -/

/-- The records made so far: no one is longer than `maximum`, and a terminator stands at the end of
a line only. -/
structure Emits (maximum : ℕ) (output : List CapturedRecord) (fragmented : Bool) : Prop where
  spelled : Spelled fragmented (output.map CapturedRecord.chunk)
  bytes_le : ∀ c ∈ output, c.bytes.length ≤ maximum
  delimited : ∀ c ∈ output, c.delimiter ≠ [] → c.chunk = .complete ∨ c.chunk = .end

variable {maximum : ℕ} {output : List CapturedRecord} {fragmented : Bool}

theorem emits_nil (maximum : ℕ) : Emits maximum [] false :=
  ⟨spelled_nil, fun _ h => absurd h not_mem_nil, fun _ h => absurd h not_mem_nil⟩

theorem Emits.add (h : Emits maximum output fragmented) {c : CapturedRecord} {«end» : Bool}
    (hchunk : c.chunk = chunkOf fragmented «end») (hbytes : c.bytes.length ≤ maximum)
    (hdelimiter : «end» = false → c.delimiter = []) : Emits maximum (output ++ [c]) (!«end») where
  spelled := by
    rw [map_append, map_singleton, hchunk]
    exact h.spelled.snoc «end»
  bytes_le c' hc' := by
    rcases mem_append.1 hc' with hc' | hc'
    · exact h.bytes_le c' hc'
    · rwa [mem_singleton.1 hc']
  delimited c' hc' hne := by
    rcases mem_append.1 hc' with hc' | hc'
    · exact h.delimited c' hc' hne
    · rw [mem_singleton.1 hc'] at hne ⊢
      rw [hchunk]
      cases «end» with
      | true => cases fragmented <;> simp [chunkOf]
      | false => exact absurd (hdelimiter rfl) hne

/-- What is compared of the records is all that counts. -/
theorem Emits.congr (h : Emits maximum output fragmented) {output' : List CapturedRecord}
    (hsame : output'.map (fun c => (c.chunk, c.bytes, c.delimiter)) =
      output.map (fun c => (c.chunk, c.bytes, c.delimiter))) : Emits maximum output' fragmented := by
  have hmem : ∀ c ∈ output', ∃ c₀ ∈ output,
      (c₀.chunk, c₀.bytes, c₀.delimiter) = (c.chunk, c.bytes, c.delimiter) := fun c hc =>
    mem_map.1 (hsame ▸ mem_map_of_mem hc)
  refine ⟨?_, fun c hc => ?_, fun c hc => ?_⟩
  · have hchunks : output'.map CapturedRecord.chunk = output.map CapturedRecord.chunk := by
      have hfst := congrArg (List.map Prod.fst) hsame
      rwa [map_map, map_map] at hfst
    rw [hchunks]
    exact h.spelled
  · obtain ⟨c₀, hc₀, heq⟩ := hmem c hc
    simp only [Prod.mk.injEq] at heq
    rw [← heq.2.1]
    exact h.bytes_le c₀ hc₀
  · obtain ⟨c₀, hc₀, heq⟩ := hmem c hc
    simp only [Prod.mk.injEq] at heq
    rw [← heq.1, ← heq.2.2]
    exact h.delimited c₀ hc₀

/-! ### The framer of lines -/

namespace Framer

/-- A call of the framer. -/
inductive Call
  | push (io : FrameAnswers) (stream : StreamKind) (acquisitionId : Uuid) (input : List UInt8)
  | flushPartial (io : FrameAnswers) (stream : StreamKind) (acquisitionId : Uuid)

/-- What a call gives the framer. -/
def Call.input : Call → List UInt8
  | .push _ _ _ input => input
  | .flushPartial .. => []

/-- What a call does. -/
def call (f : Framer) : Call → List CapturedRecord × Framer
  | .push io stream acquisitionId input => f.push io stream acquisitionId input
  | .flushPartial io stream acquisitionId => f.flushPartial io stream acquisitionId

/-- What several calls do. -/
def run (f : Framer) : List Call → List CapturedRecord × Framer
  | [] => ([], f)
  | c :: calls =>
    let (output, f) := f.call c
    let (outputs, f) := f.run calls
    (output ++ outputs, f)

variable {io : FrameAnswers} {stream : StreamKind} {acquisitionId : Uuid} {f : Framer}
  {before : List CapturedRecord}

theorem record_chunk (f : Framer) (place : ℕ) (bytes delimiter : List UInt8) («end» : Bool) :
    (f.record io stream acquisitionId place bytes delimiter «end»).chunk =
      chunkOf f.fragmented «end» := by
  unfold record chunkOf
  cases f.fragmented <;> cases «end» <;> rfl

theorem emits_record (h : Emits maximum (before ++ output) f.fragmented) {place : ℕ}
    {bytes delimiter : List UInt8} {«end» : Bool} (hbytes : bytes.length ≤ maximum)
    (hdelimiter : «end» = false → delimiter = []) :
    Emits maximum
      (before ++ (output ++ [f.record io stream acquisitionId place bytes delimiter «end»])) (!«end») := by
  rw [← append_assoc]
  exact h.add (record_chunk f place bytes delimiter «end») hbytes hdelimiter

theorem emits_charge {r : List CapturedRecord × Framer}
    (h : Emits maximum (before ++ r.1) r.2.fragmented) :
    Emits maximum (before ++ (charge io r).1) (charge io r).2.fragmented := by
  obtain ⟨output, f⟩ := r
  cases output with
  | nil => exact h
  | cons first rest => exact h.congr (by simp [charge])

theorem cut_emits (io : FrameAnswers) (stream : StreamKind) (acquisitionId : Uuid) (f : Framer) (run : List UInt8) (output : List CapturedRecord)
    (h : Emits f.maximum (before ++ output) f.fragmented) :
    let c := f.cut io stream acquisitionId run output
    Emits f.maximum (before ++ c.output) c.framer.fragmented ∧ c.framer.maximum = f.maximum := by
  induction f, run, output using cut.induct io stream acquisitionId with
  | case1 f run output hlt take bytes ih =>
    rw [cut, dif_pos hlt]
    have hbytes : bytes.length ≤ f.maximum := by
      have := f.pending_le
      simp only [bytes, take, length_append, length_take]
      omega
    exact ih (emits_record h hbytes fun _ => rfl)
  | case2 f run output hle =>
    rw [cut, dif_neg hle]
    exact ⟨h, rfl⟩

theorem pushLoop_emits (io : FrameAnswers) (stream : StreamKind) (acquisitionId : Uuid) (f : Framer) (input : List UInt8) (output : List CapturedRecord)
    (h : Emits f.maximum (before ++ output) f.fragmented) :
    let r := f.pushLoop io stream acquisitionId input output
    Emits f.maximum (before ++ r.1) r.2.fragmented := by
  induction f, input, output using pushLoop.induct io stream acquisitionId with
  | case1 f output =>
    rw [pushLoop, dif_pos rfl]
    exact h
  | case2 f input output hne run hle =>
    rw [pushLoop, dif_neg hne, if_pos hle]
    exact (cut_emits io stream acquisitionId f run output h).1
  | case3 f input output hne run c hlt line delimiter bytes ih =>
    obtain ⟨hcut, hmaximum⟩ := cut_emits io stream acquisitionId f run output h
    rw [pushLoop, dif_neg hne, if_neg hlt]
    have hmax : (c.framer.cleared false).maximum = f.maximum := hmaximum
    have hline : line.length ≤ f.maximum := by
      rw [← hmaximum, length_append]
      exact c.fits
    have hbytes : bytes.length ≤ f.maximum := (length_take_le' _ _).trans hline
    rw [hmax] at ih
    exact ih (emits_record hcut hbytes fun h => by cases h)

theorem call_emits (f : Framer) (c : Call) (h : Emits f.maximum before f.fragmented) :
    Emits f.maximum (before ++ (f.call c).1) (f.call c).2.fragmented := by
  rw [← append_nil before] at h
  cases c with
  | push io stream acquisitionId input => exact emits_charge (pushLoop_emits io stream acquisitionId f input [] h)
  | flushPartial io stream acquisitionId =>
    simp only [call, flushPartial]
    generalize f.pending.length - (if f.pending.getLast? = some 13 then 1 else 0) = emitLength
    split_ifs with hnone
    · exact h
    · refine emits_charge ?_
      have hbytes : (f.pending.take emitLength).length ≤ f.maximum :=
        (length_take_le' _ _).trans f.pending_le
      exact emits_record h hbytes fun _ => rfl

theorem call_conserves (f : Framer) (c : Call) :
    inputs (f.call c).1 ++ (f.call c).2.pending = f.pending ++ c.input ∧
      (f.call c).2.maximum = f.maximum := by
  cases c with
  | push io stream acquisitionId input =>
    have h : Frames stream acquisitionId f.maximum (f.pending ++ input)
      (f.push io stream acquisitionId input) := push_spec f input
    exact ⟨h.conserves, h.maximum_eq⟩
  | flushPartial io stream acquisitionId =>
    have h : Frames stream acquisitionId f.maximum f.pending
      (f.flushPartial io stream acquisitionId) := flushPartial_spec f
    exact ⟨h.conserves.trans (append_nil _).symm, h.maximum_eq⟩

theorem run_conserves (f : Framer) (calls : List Call) :
    inputs (f.run calls).1 ++ (f.run calls).2.pending = f.pending ++ calls.flatMap Call.input ∧
      (f.run calls).2.maximum = f.maximum := by
  induction calls generalizing f with
  | nil => exact ⟨(append_nil _).symm, rfl⟩
  | cons c calls ih =>
    obtain ⟨hcall, hmaximum⟩ := f.call_conserves c
    obtain ⟨hrun, hmaximum'⟩ := ih (f.call c).2
    refine ⟨?_, hmaximum'.trans hmaximum⟩
    rw [run, inputs_append, append_assoc, hrun, ← append_assoc, hcall]
    simp

theorem run_emits (f : Framer) (calls : List Call) (h : Emits f.maximum before f.fragmented) :
    Emits f.maximum (before ++ (f.run calls).1) (f.run calls).2.fragmented := by
  induction calls generalizing f before with
  | nil => rwa [run, append_nil]
  | cons c calls ih =>
    have hcall := f.call_emits c h
    rw [← (f.call_conserves c).2] at hcall
    have hrun := ih _ hcall
    rw [(f.call_conserves c).2, append_assoc] at hrun
    exact hrun

theorem finish_emits (io : FrameAnswers) (stream : StreamKind) (acquisitionId : Uuid) (f : Framer) (h : Emits f.maximum before f.fragmented) :
    let e := f.finish io stream acquisitionId
    Emits f.maximum (before ++ e.1) false := by
  rw [← append_nil before] at h
  unfold finish
  split_ifs with hp hf
  · exact emits_charge (emits_record h (Nat.zero_le _) fun h => by cases h)
  · rw [Bool.not_eq_true] at hf
    rwa [hf] at h
  · exact emits_charge (emits_record h f.pending_le fun h => by cases h)

end Framer

/-! ### The framer of events -/

namespace SseFramer

variable {io : FrameAnswers} {acquisitionId : Uuid} {f : SseFramer} {o : FrameOutcome}
  {before : List CapturedRecord} {taken : List UInt8}

/-- `HttpFramer::buffered_len`, of this framer. -/
def bufferedLen (f : SseFramer) : ℕ := f.pending.length

theorem record_chunk (f : SseFramer) (place : ℕ) (bytes delimiter : List UInt8) («end» : Bool) :
    (f.record io acquisitionId place bytes delimiter «end»).chunk = chunkOf f.fragmented «end» := by
  unfold record chunkOf
  cases f.fragmented <;> cases «end» <;> rfl

/-- In the middle of a call: what was taken is in the records or pending, and a `\r` whose line is
not closed is pending. -/
structure Keeps (maximum : ℕ) (before : List CapturedRecord) (taken : List UInt8) (f : SseFramer)
    (o : FrameOutcome) : Prop where
  emits : Emits maximum (before ++ o.records) f.fragmented
  conserves : inputs o.records ++ f.pending = taken
  maximum_eq : f.maximum = maximum
  pending_ne : f.carriageReturn = true → f.pending ≠ []

theorem Keeps.emits_record (h : Keeps maximum before taken f o) {place : ℕ}
    {bytes delimiter : List UInt8} {«end» : Bool} (hbytes : bytes.length ≤ maximum)
    (hdelimiter : «end» = false → delimiter = []) :
    Emits maximum (before ++ (o.records ++ [f.record io acquisitionId place bytes delimiter «end»]))
      (!«end») := by
  rw [← append_assoc]
  exact h.emits.add (record_chunk f place bytes delimiter «end») hbytes hdelimiter

theorem Keeps.enforceLimit (h : Keeps maximum before taken f o) :
    let r := f.enforceLimit io acquisitionId o
    Keeps maximum before taken r.1 r.2 ∧ r.1.pending.length ≤ maximum := by
  induction f, o using enforceLimit.induct io acquisitionId with
  | case1 f o hlt bytes ih =>
    rw [SseFramer.enforceLimit, dif_pos hlt]
    refine ih ⟨?_, ?_, h.maximum_eq, fun _ hnil => ?_⟩
    · refine h.emits_record ?_ fun _ => rfl
      rw [← h.maximum_eq, length_take]
      exact Nat.min_le_left _ _
    · rw [← h.conserves, inputs_append, append_assoc]
      refine congrArg (inputs o.records ++ ·) ?_
      rw [inputs_cons, inputs_nil, append_nil]
      change bytes ++ [] ++ f.pending.drop f.maximum = f.pending
      rw [append_nil]
      exact take_append_drop _ _
    · have := congrArg List.length hnil
      simp only [length_drop, length_nil] at this
      omega
  | case2 f o hle =>
    rw [SseFramer.enforceLimit, dif_neg hle]
    exact ⟨h, h.maximum_eq ▸ Nat.le_of_not_lt hle⟩

theorem Keeps.closeLine (h : Keeps maximum before taken f o) (io : FrameAnswers)
    (acquisitionId : Uuid) {terminator : ℕ} (hpos : 0 < terminator)
    (hle : terminator ≤ f.pending.length) (hfits : f.pending.length ≤ maximum + 1)
    (hreturn : f.carriageReturn = false) :
    let r := f.closeLine io acquisitionId terminator o
    Keeps maximum before taken r.1 r.2 ∧ r.1.pending.length ≤ f.pending.length ∧
      r.1.carriageReturn = false := by
  unfold SseFramer.closeLine
  by_cases hblank : f.pending.length - terminator = f.lineStart
  · simp only [hblank, if_true]
    rw [← hblank]
    refine ⟨⟨?_, ?_, h.maximum_eq, fun h => absurd (hreturn.symm.trans h) Bool.false_ne_true⟩,
      Nat.zero_le _, hreturn⟩
    · refine h.emits_record ?_ fun h => by cases h
      rw [length_take]
      omega
    · rw [← h.conserves, inputs_append, append_assoc]
      refine congrArg (inputs o.records ++ ·) ?_
      have hall : (f.pending.drop (f.pending.length - terminator)).take terminator =
          f.pending.drop (f.pending.length - terminator) :=
        take_of_length_le (by simp; omega)
      simp [inputs, CapturedRecord.payload, record, hall]
  · simp only [hblank, if_false]
    exact ⟨⟨h.emits, h.conserves, h.maximum_eq, h.pending_ne⟩, le_refl _, hreturn⟩

theorem Keeps.hold (h : Keeps maximum before taken f o) (b : UInt8) :
    Keeps maximum before (taken ++ [b]) (f.hold b) o where
  emits := h.emits
  conserves := by
    rw [← h.conserves, append_assoc]
    rfl
  maximum_eq := h.maximum_eq
  pending_ne _ := by simp [SseFramer.hold]

theorem Keeps.pushPlain (h : Keeps maximum before taken f o) (hfits : f.pending.length ≤ maximum)
    (hreturn : f.carriageReturn = false) (b : UInt8) :
    let r := f.pushPlain io acquisitionId o b
    Keeps maximum before (taken ++ [b]) r.1 r.2 ∧ r.1.pending.length ≤ maximum := by
  have hhold := h.hold b
  have hlen : (f.hold b).pending.length = f.pending.length + 1 := by simp [SseFramer.hold]
  unfold SseFramer.pushPlain
  split_ifs with hret hnl
  · exact Keeps.enforceLimit ⟨hhold.emits, hhold.conserves, hhold.maximum_eq, fun _ => by
      simp [SseFramer.hold]⟩
  · exact (hhold.closeLine io acquisitionId Nat.one_pos (by omega) (by omega) hreturn).1.enforceLimit
  · exact hhold.enforceLimit

/-- **One byte.** -/
theorem Keeps.pushByte (h : Keeps maximum before taken f o) (io : FrameAnswers)
    (acquisitionId : Uuid) (hfits : f.pending.length ≤ maximum)
    (b : UInt8) :
    let r := pushByte io acquisitionId (f, o) b
    Keeps maximum before (taken ++ [b]) r.1 r.2 ∧ r.1.pending.length ≤ maximum := by
  unfold SseFramer.pushByte
  by_cases hreturn : f.carriageReturn = true
  · have hne := length_pos_of_ne_nil (h.pending_ne hreturn)
    have hcleared : Keeps maximum before taken { f with carriageReturn := false } o :=
      ⟨h.emits, h.conserves, h.maximum_eq, fun h => by cases h⟩
    simp only [hreturn, if_true]
    split_ifs with hnl
    · have hhold := hcleared.hold b
      have hlen : (({ f with carriageReturn := false } : SseFramer).hold b).pending.length =
          f.pending.length + 1 := by simp [SseFramer.hold]
      exact (hhold.closeLine io acquisitionId Nat.two_pos (by omega) (by omega) rfl).1.enforceLimit
    · obtain ⟨hclosed, hlen, hreturn'⟩ := hcleared.closeLine io acquisitionId
        Nat.one_pos hne (Nat.le_succ_of_le hfits) rfl
      exact hclosed.pushPlain (hlen.trans hfits) hreturn' b
  · rw [Bool.not_eq_true] at hreturn
    simp only [hreturn]
    exact h.pushPlain hfits hreturn b

theorem foldl_keeps (h : Keeps maximum before taken f o) (io : FrameAnswers)
    (acquisitionId : Uuid) (hfits : f.pending.length ≤ maximum)
    (input : List UInt8) :
    let r := input.foldl (SseFramer.pushByte io acquisitionId) (f, o)
    Keeps maximum before (taken ++ input) r.1 r.2 ∧ r.1.pending.length ≤ maximum := by
  induction input generalizing f o taken with
  | nil => exact ⟨by rwa [append_nil], hfits⟩
  | cons b input ih =>
    obtain ⟨hbyte, hlen⟩ := h.pushByte io acquisitionId hfits b
    have hrest := ih hbyte hlen
    rwa [append_assoc] at hrest

/-- Between two calls. -/
structure Rests (maximum : ℕ) (before : List CapturedRecord) (f : SseFramer) : Prop where
  emits : Emits maximum before f.fragmented
  maximum_eq : f.maximum = maximum
  fits : f.bufferedLen ≤ maximum
  pending_ne : f.carriageReturn = true → f.pending ≠ []

theorem Rests.push (h : Rests maximum before f) (io : FrameAnswers) (acquisitionId : Uuid)
    (input : List UInt8) :
    let r := f.push io acquisitionId input
    Rests maximum (before ++ r.2.records) r.1 ∧
      inputs r.2.records ++ r.1.pending = f.pending ++ input := by
  have hstart : Keeps maximum before f.pending f ⟨[], none, false, false, f.maximum⟩ :=
    ⟨by rw [append_nil]; exact h.emits, rfl, h.maximum_eq, h.pending_ne⟩
  obtain ⟨hread, hlen⟩ := foldl_keeps hstart io acquisitionId h.fits input
  exact ⟨⟨hread.emits, hread.maximum_eq, hlen, hread.pending_ne⟩, hread.conserves⟩

/-- Reads of a stream, each with its own clock and for its own acquisition. -/
def run (f : SseFramer) : List (FrameAnswers × Uuid × List UInt8) → List CapturedRecord × SseFramer
  | [] => ([], f)
  | (io, acquisitionId, input) :: rest =>
    let (f, outcome) := f.push io acquisitionId input
    let (outputs, f) := f.run rest
    (outcome.records ++ outputs, f)

theorem Rests.run (h : Rests maximum before f) (reads : List (FrameAnswers × Uuid × List UInt8)) :
    Rests maximum (before ++ (f.run reads).1) (f.run reads).2 ∧
      inputs (f.run reads).1 ++ (f.run reads).2.pending =
        f.pending ++ reads.flatMap fun read => read.2.2 := by
  induction reads generalizing f before with
  | nil => exact ⟨by rwa [SseFramer.run, append_nil], (append_nil _).symm⟩
  | cons read reads ih =>
    obtain ⟨io, acquisitionId, input⟩ := read
    obtain ⟨hpush, hconserves⟩ := h.push io acquisitionId input
    obtain ⟨hrest, hconserves'⟩ := ih hpush
    rw [append_assoc] at hrest
    refine ⟨hrest, ?_⟩
    rw [SseFramer.run, inputs_append, append_assoc, hconserves', ← append_assoc, hconserves]
    simp

theorem Rests.finish (h : Rests maximum before f) (io : FrameAnswers) (acquisitionId : Uuid) :
    let e := f.finish io acquisitionId
    Emits maximum (before ++ e.1) false ∧ inputs e.1 = f.pending ∧ e.2.pending = [] := by
  simp only [SseFramer.finish]
  split_ifs with hp hf
  · refine ⟨h.emits.add (record_chunk f 0 [] [] true) (Nat.zero_le _) fun h => (by cases h), ?_, hp⟩
    rw [hp]
    rfl
  · rw [Bool.not_eq_true] at hf
    refine ⟨?_, hp.symm, hp⟩
    have := h.emits
    rwa [hf, ← append_nil before] at this
  · refine ⟨h.emits.add (record_chunk f 0 f.pending [] true) h.fits fun h => (by cases h), ?_, rfl⟩
    exact (append_nil _).trans (append_nil _)

end SseFramer

/-! ### Both framers -/

/-- What is asked of the records of a framer that has finished. -/
structure Finished (maximum : ℕ) (output : List CapturedRecord) : Prop where
  words : output.map CapturedRecord.chunk ∈ lineWords
  bytes_le : ∀ c ∈ output, c.bytes.length ≤ maximum
  delimited : ∀ c ∈ output, c.delimiter ≠ [] → c.chunk = .complete ∨ c.chunk = .end

/-- **Nothing is lost, and the records spell lines**, in whatever order the calls come: after them
what was read is in the records or pending, no more than a record is pending, and finishing puts it
all into records that spell whole lines. -/
theorem framers_conserve (maximum : ℕ) (hmaximum : 0 < maximum) (io : FrameAnswers)
    (stream : StreamKind) (acquisitionId : Uuid) :
    (∀ calls : List Framer.Call,
      let r := (Framer.new maximum hmaximum).run calls
      let e := r.2.finish io stream acquisitionId
      let read := calls.flatMap Framer.Call.input
      inputs r.1 ++ r.2.pending = read ∧ r.2.bufferedLen ≤ maximum ∧
        inputs (r.1 ++ e.1) ++ e.2.pending = read ∧ e.2.pending = [] ∧ Finished maximum (r.1 ++ e.1)) ∧
    (∀ reads : List (FrameAnswers × Uuid × List UInt8),
      let r := (SseFramer.new maximum hmaximum).run reads
      let e := r.2.finish io acquisitionId
      let read := reads.flatMap fun read => read.2.2
      inputs r.1 ++ r.2.pending = read ∧ r.2.bufferedLen ≤ maximum ∧
        inputs (r.1 ++ e.1) ++ e.2.pending = read ∧ e.2.pending = [] ∧ Finished maximum (r.1 ++ e.1)) := by
  constructor
  · intro calls r e read
    obtain ⟨hconserves, hmax⟩ := (Framer.new maximum hmaximum).run_conserves calls
    have hrun := (Framer.new maximum hmaximum).run_emits calls (emits_nil maximum)
    have hlen := r.2.pending_le
    have hfinish := Framer.finish_emits io stream acquisitionId r.2 (by rw [hmax]; exact hrun)
    rw [hmax] at hfinish hlen
    obtain ⟨hframes, hnil⟩ : Framer.Frames stream acquisitionId _ r.2.pending e ∧ e.2.pending = [] :=
      Framer.finish_spec r.2
    refine ⟨hconserves, hlen, ?_, hnil, ⟨hfinish.spelled, hfinish.bytes_le, hfinish.delimited⟩⟩
    rw [inputs_append, append_assoc, hframes.conserves]
    exact hconserves
  · intro reads r e read
    have hnew : SseFramer.Rests maximum [] (.new maximum hmaximum) :=
      ⟨emits_nil maximum, rfl, Nat.zero_le _, fun h => by cases h⟩
    obtain ⟨hrun, hconserves⟩ := hnew.run reads
    obtain ⟨hfinish, hinputs, hnil⟩ := hrun.finish io acquisitionId
    refine ⟨hconserves, hrun.fits, ?_, hnil, ⟨hfinish.spelled, hfinish.bytes_le, hfinish.delimited⟩⟩
    rw [inputs_append, hinputs, hnil, append_nil]
    exact hconserves

/-- `ab\r`, a flush, and `\nc`. -/
theorem framers_conserve_example :
    let r := (Framer.new 2 (by decide)).run [.push {} .file (.filled 0) [97, 98, 13],
      .flushPartial {} .file (.filled 0), .push {} .file (.filled 0) [10, 99]]
    inputs r.1 ++ r.2.pending = [97, 98, 13, 10, 99] ∧ r.2.bufferedLen ≤ 2 :=
  have h := (framers_conserve 2 (by decide) {} .file (.filled 0)).1
    [.push {} .file (.filled 0) [97, 98, 13], .flushPartial {} .file (.filled 0),
      .push {} .file (.filled 0) [10, 99]]
  ⟨h.1, h.2.1⟩

end Lvu
