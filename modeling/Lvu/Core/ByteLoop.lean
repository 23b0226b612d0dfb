import Lvu.Core.Framer
import Mathlib.Data.List.TakeWhile
import Mathlib.Order.Nat

/-!
# The framer against the loop over bytes

`Framer::push` scans a read for its terminators.  The rule it follows is the loop that looked at
every byte (`framing_equivalence::reference`): a byte is pending, a newline ends the line, and a
line that grows past `maximum` is cut.

* `pushLoop_reference` : one read is framed as the loop frames it.
* `pushAll_reference` : **so are all reads, however the input was split into them**.
-/

namespace Lvu.Framer

open List

/-- What is compared of a record. -/
structure Framed where
  bytes : List UInt8
  delimiter : List UInt8
  «end» : Bool
deriving DecidableEq

/-- `framing_equivalence::observed`, of one record. -/
def observed (r : CapturedRecord) : Framed :=
  ⟨r.bytes, r.delimiter, r.chunk = .complete || r.chunk = .end⟩

/-- What the loop keeps from one read to the next. -/
structure Carry where
  pending : List UInt8
  fragmented : Bool

/-- What a framer keeps of that. -/
def carry (f : Framer) : Carry := ⟨f.pending, f.fragmented⟩

/-- One round of the loop of `reference`. -/
def referenceByte (maximum : ℕ) (s : List Framed × Carry) (byte : UInt8) : List Framed × Carry :=
  let (output, c) := s
  let pending := c.pending ++ [byte]
  if byte = 10 then
    let delimiter :=
      if 2 ≤ pending.length ∧ pending[pending.length - 2]? = some 13 then [13, 10] else [10]
    let bodyLength := pending.length - delimiter.length
    (output ++ [⟨pending.take bodyLength, delimiter, true⟩], ⟨[], false⟩)
  else if maximum < pending.length then
    (output ++ [⟨pending.take maximum, [], false⟩], ⟨pending.drop maximum, true⟩)
  else (output, { c with pending })

/-- `framing_equivalence::reference`: one read. -/
def reference (maximum : ℕ) (c : Carry) (input : List UInt8) : List Framed × Carry :=
  input.foldl (referenceByte maximum) ([], c)

/-- All reads. -/
def referenceAll (maximum : ℕ) (c : Carry) : List (List UInt8) → List Framed × Carry
  | [] => ([], c)
  | input :: rest =>
    let (output, c) := reference maximum c input
    let (outputs, c) := referenceAll maximum c rest
    (output ++ outputs, c)

/-- What `push` makes of several reads, each with its own clock. -/
def pushAll (stream : StreamKind) (acquisitionId : Uuid) (f : Framer) :
    List (FrameAnswers × List UInt8) → List CapturedRecord × Framer
  | [] => ([], f)
  | (io, input) :: rest =>
    let (output, f) := f.push io stream acquisitionId input
    let (outputs, f) := f.pushAll stream acquisitionId rest
    (output ++ outputs, f)

/-! ### The loop over bytes -/

section Reference

variable {maximum : ℕ}

theorem referenceByte_output (output : List Framed) (c : Carry) (byte : UInt8) :
    referenceByte maximum (output, c) byte =
      (output ++ (referenceByte maximum ([], c) byte).1, (referenceByte maximum ([], c) byte).2) := by
  simp only [referenceByte]
  split_ifs <;> simp

theorem foldl_referenceByte (output : List Framed) (c : Carry) (input : List UInt8) :
    input.foldl (referenceByte maximum) (output, c) =
      (output ++ (reference maximum c input).1, (reference maximum c input).2) := by
  induction input generalizing output c with
  | nil => simp [reference]
  | cons b input ih =>
    have hrest := ih (referenceByte maximum ([], c) b).1 (referenceByte maximum ([], c) b).2
    rw [reference, foldl_cons, foldl_cons, referenceByte_output, ih, hrest,
      append_assoc]

theorem reference_cons (c : Carry) (b : UInt8) (input : List UInt8) :
    reference maximum c (b :: input) =
      ((referenceByte maximum ([], c) b).1 ++
          (reference maximum (referenceByte maximum ([], c) b).2 input).1,
        (reference maximum (referenceByte maximum ([], c) b).2 input).2) := by
  rw [reference, foldl_cons]
  exact foldl_referenceByte _ _ _

theorem reference_append (c : Carry) (input input' : List UInt8) :
    reference maximum c (input ++ input') =
      ((reference maximum c input).1 ++ (reference maximum (reference maximum c input).2 input').1,
        (reference maximum (reference maximum c input).2 input').2) := by
  rw [reference, foldl_append]
  exact foldl_referenceByte _ _ _

theorem referenceAll_eq (c : Carry) (reads : List (List UInt8)) :
    referenceAll maximum c reads = reference maximum c reads.flatten := by
  induction reads generalizing c with
  | nil => rfl
  | cons input reads ih =>
    rw [flatten_cons, reference_append, ← ih]
    rfl

theorem reference_fits (maximum : ℕ) (c : Carry) {run : List UInt8} (hrun : 10 ∉ run)
    (hfits : c.pending.length + run.length ≤ maximum) :
    reference maximum c run = ([], { c with pending := c.pending ++ run }) := by
  induction run generalizing c with
  | nil => simp [reference]
  | cons b run ih =>
    simp only [mem_cons, not_or, length_cons] at hrun hfits
    have hbyte : referenceByte maximum ([], c) b = ([], { c with pending := c.pending ++ [b] }) := by
      simp only [referenceByte]
      rw [if_neg (Ne.symm hrun.1), if_neg (by simp; omega)]
    rw [reference_cons, hbyte, ih _ hrun.2 (by simp; omega)]
    simp

/-- A run that does not fit is cut where the framer cuts it. -/
theorem reference_cut (c : Carry) {run : List UInt8} (hmaximum : 0 < maximum) (hrun : 10 ∉ run)
    (hpending : c.pending.length ≤ maximum) (hlt : maximum < c.pending.length + run.length) :
    let take := maximum - c.pending.length
    reference maximum c run =
      (⟨c.pending ++ run.take take, [], false⟩ :: (reference maximum ⟨[], true⟩ (run.drop take)).1,
        (reference maximum ⟨[], true⟩ (run.drop take)).2) := by
  intro take
  obtain ⟨b, rest, hdrop⟩ : ∃ b rest, run.drop take = b :: rest :=
    exists_cons_of_ne_nil (by simp [take]; omega)
  have hsplit : run.take take ++ b :: rest = run := hdrop ▸ take_append_drop take run
  have htake : (c.pending ++ run.take take).length = maximum := by simp [take]; omega
  have hb : b ≠ 10 := fun h => hrun (hsplit ▸ by simp [h])
  have hfits := reference_fits maximum c
    (fun h => hrun (mem_of_mem_take h)) (by rw [← length_append]; exact htake.le)
  -- the byte after the cut is pending, in the loop and in the framer
  have hcut : reference maximum { c with pending := c.pending ++ run.take take } (b :: rest) =
      (⟨c.pending ++ run.take take, [], false⟩ :: (reference maximum ⟨[], true⟩ (b :: rest)).1,
        (reference maximum ⟨[], true⟩ (b :: rest)).2) := by
    have hover : referenceByte maximum ([], { c with pending := c.pending ++ run.take take }) b =
        ([⟨c.pending ++ run.take take, [], false⟩], ⟨[b], true⟩) := by
      simp only [referenceByte]
      rw [if_neg hb, if_pos (by rw [length_append, htake]; simp),
        take_append_of_le_length htake.ge, take_of_length_le htake.le,
        drop_append_of_le_length htake.ge, drop_of_length_le htake.le]
      rfl
    have hfirst : referenceByte maximum ([], ⟨[], true⟩) b = ([], ⟨[b], true⟩) := by
      simp only [referenceByte]
      rw [if_neg hb, if_neg (by simp; omega)]
      rfl
    rw [reference_cons, hover, reference_cons ⟨[], true⟩, hfirst]
    rfl
  rw [hdrop]
  conv_lhs => rw [← hsplit]
  rw [reference_append, hfits, hcut]
  rfl

theorem before_newline_iff (pending : List UInt8) :
    (2 ≤ (pending ++ [10]).length ∧
      (pending ++ [10])[(pending ++ [10]).length - 2]? = some 13) ↔ pending.getLast? = some 13 := by
  rw [getLast?_eq_getElem?, length_append, length_singleton]
  rcases eq_nil_or_concat pending with rfl | ⟨front, last, rfl⟩
  · simp
  · simp

/-- A newline ends what is pending. -/
theorem reference_newline (maximum : ℕ) (c : Carry) (rest : List UInt8) :
    let delimiter := if c.pending.getLast? = some 13 then [13, 10] else [10]
    reference maximum c (10 :: rest) =
      (⟨c.pending.take (c.pending.length + 1 - delimiter.length), delimiter, true⟩ ::
          (reference maximum ⟨[], false⟩ rest).1,
        (reference maximum ⟨[], false⟩ rest).2) := by
  intro delimiter
  have hbyte : referenceByte maximum ([], c) 10 =
      ([⟨c.pending.take (c.pending.length + 1 - delimiter.length), delimiter, true⟩], ⟨[], false⟩) := by
    have hdelimiter : 1 ≤ delimiter.length := by
      simp only [delimiter]
      split_ifs <;> simp
    have hsame : (if 2 ≤ (c.pending ++ [10]).length ∧
        (c.pending ++ [10])[(c.pending ++ [10]).length - 2]? = some 13 then [13, 10] else [10]) =
        delimiter := if_congr (before_newline_iff c.pending) rfl rfl
    have htake : (c.pending ++ [10]).take ((c.pending ++ [10]).length - delimiter.length) =
        c.pending.take (c.pending.length + 1 - delimiter.length) := by
      rw [length_append, length_singleton, take_append_of_le_length (by omega)]
    unfold referenceByte
    simp only [if_true, hsame, htake, nil_append]
  rw [reference_cons, hbyte]
  rfl

end Reference

/-! ### The framer -/

variable {io : FrameAnswers} {stream : StreamKind} {acquisitionId : Uuid}

theorem observed_record (f : Framer) (place : ℕ) (bytes delimiter : List UInt8) («end» : Bool) :
    observed (f.record io stream acquisitionId place bytes delimiter «end») =
      ⟨bytes, delimiter, «end»⟩ := by
  unfold observed record
  cases f.fragmented <;> cases «end» <;> rfl

theorem observed_charge (io : FrameAnswers) (r : List CapturedRecord × Framer) :
    (charge io r).1.map observed = r.1.map observed ∧ (charge io r).2.carry = r.2.carry := by
  obtain ⟨output, f⟩ := r
  cases output <;> exact ⟨rfl, rfl⟩

/-- The inner loop cuts what the loop over bytes cuts, and leaves what that leaves. -/
theorem cut_reference (io : FrameAnswers) (stream : StreamKind) (acquisitionId : Uuid) (f : Framer) (run : List UInt8)
    (output : List CapturedRecord) (hrun : 10 ∉ run) :
    let c := f.cut io stream acquisitionId run output
    c.output.map observed = output.map observed ++ (reference f.maximum f.carry run).1 ∧
      (reference f.maximum f.carry run).2 =
        ⟨c.framer.pending ++ c.tail, c.framer.fragmented⟩ ∧
      c.framer.maximum = f.maximum := by
  induction f, run, output using cut.induct io stream acquisitionId with
  | case1 f run output hlt take bytes ih =>
    rw [cut, dif_pos hlt]
    obtain ⟨houtput, hcarry, hmaximum⟩ := ih fun h => hrun (mem_of_mem_drop h)
    have hstep := reference_cut f.carry f.maximum_pos hrun f.pending_le hlt
    refine ⟨houtput.trans ?_, ?_, hmaximum⟩
    · rw [hstep, map_append, append_assoc]
      congr 1
      rw [map_singleton, observed_record]
      rfl
    · rw [hstep]
      exact hcarry
  | case2 f run output hle =>
    rw [cut, dif_neg hle]
    have hfits := reference_fits f.maximum f.carry hrun (Nat.le_of_not_lt hle)
    refine ⟨?_, ?_, rfl⟩
    · rw [hfits, append_nil]
    · rw [hfits]
      rfl

theorem runOf_newline_not_mem (input : List UInt8) : 10 ∉ runOf input := fun h => by
  have := mem_takeWhile_imp h
  simp at this

/-- **A read is framed as the loop over bytes frames it.** -/
theorem pushLoop_reference (io : FrameAnswers) (stream : StreamKind) (acquisitionId : Uuid) (f : Framer) (input : List UInt8) (output : List CapturedRecord) :
    let r := f.pushLoop io stream acquisitionId input output
    r.1.map observed = output.map observed ++ (reference f.maximum f.carry input).1 ∧
      r.2.carry = (reference f.maximum f.carry input).2 := by
  induction f, input, output using pushLoop.induct io stream acquisitionId with
  | case1 f output =>
    rw [pushLoop, dif_pos rfl]
    exact ⟨(append_nil _).symm, rfl⟩
  | case2 f input output hne run hle =>
    obtain ⟨houtput, hcarry, -⟩ := cut_reference io stream acquisitionId
      f run output (runOf_newline_not_mem input)
    have hall : run = input := (List.takeWhile_prefix _).eq_of_length_le hle
    have hsame : reference f.maximum f.carry run = reference f.maximum f.carry input :=
      congrArg _ hall
    rw [hsame] at houtput hcarry
    rw [pushLoop, dif_neg hne, if_pos hle]
    exact ⟨houtput, hcarry.symm⟩
  | case3 f input output hne run c hlt line delimiter bytes ih =>
    obtain ⟨houtput, hcarry, hmaximum⟩ := cut_reference io stream
      acquisitionId f run output (runOf_newline_not_mem input)
    rw [pushLoop, dif_neg hne, if_neg hlt]
    have hlast : line.getLast? = c.tail.getLast?.or c.framer.pending.getLast? := getLast?_append
    have hnewline := reference_newline f.maximum ⟨line, c.framer.fragmented⟩
      (input.drop (run.length + 1))
    simp only [hlast] at hnewline
    have hsplit : run ++ 10 :: input.drop (run.length + 1) = input :=
      (append_assoc run [10] _).symm.trans (runOf_newline hlt)
    have hinput : reference f.maximum f.carry input =
        ((reference f.maximum f.carry run).1 ++ ⟨bytes, delimiter, true⟩ ::
            (reference f.maximum ⟨[], false⟩ (input.drop (run.length + 1))).1,
          (reference f.maximum ⟨[], false⟩ (input.drop (run.length + 1))).2) := by
      conv_lhs => rw [← hsplit, reference_append, hcarry]
      exact congrArg (fun r => ((reference f.maximum f.carry run).1 ++ r.1, r.2)) hnewline
    obtain ⟨ihoutput, ihcarry⟩ := ih
    have hmax : (c.framer.cleared false).maximum = f.maximum := hmaximum
    rw [hmax] at ihoutput ihcarry
    rw [hinput]
    refine ⟨ihoutput.trans ?_, ihcarry⟩
    rw [map_append, map_singleton, observed_record, houtput, append_assoc,
      append_assoc]
    rfl

theorem push_reference (io : FrameAnswers) (stream : StreamKind) (acquisitionId : Uuid) (f : Framer) (input : List UInt8) :
    let r := f.push io stream acquisitionId input
    r.1.map observed = (reference f.maximum f.carry input).1 ∧
      r.2.carry = (reference f.maximum f.carry input).2 := by
  obtain ⟨houtput, hcarry⟩ := pushLoop_reference io stream acquisitionId f input []
  obtain ⟨hobserved, hkept⟩ := observed_charge io (f.pushLoop io stream acquisitionId input [])
  exact ⟨hobserved.trans houtput, hkept.trans hcarry⟩

theorem pushAll_eq_referenceAll (stream : StreamKind) (acquisitionId : Uuid) (f : Framer) (reads : List (FrameAnswers × List UInt8)) :
    let r := f.pushAll stream acquisitionId reads
    r.1.map observed = (referenceAll f.maximum f.carry (reads.map Prod.snd)).1 ∧
      r.2.carry = (referenceAll f.maximum f.carry (reads.map Prod.snd)).2 := by
  induction reads generalizing f with
  | nil => exact ⟨rfl, rfl⟩
  | cons read reads ih =>
    obtain ⟨io, input⟩ := read
    obtain ⟨houtput, hcarry⟩ := push_reference io stream acquisitionId f input
    obtain ⟨ihoutput, ihcarry⟩ := ih (f.push io stream acquisitionId input).2
    rw [(push_spec f input).maximum_eq, hcarry] at ihoutput ihcarry
    refine ⟨?_, ihcarry⟩
    rw [pushAll, map_append, houtput, ihoutput]
    rfl

/-- **The framer equals the loop over bytes**: over all reads it makes the same records and keeps
the same bytes and the same flag; so how the input was split into reads does not matter. -/
theorem pushAll_reference (maximum : ℕ) (hmaximum : 0 < maximum) (stream : StreamKind)
    (acquisitionId : Uuid) (reads : List (FrameAnswers × List UInt8)) :
    let r := (new maximum hmaximum).pushAll stream acquisitionId reads
    let s := referenceAll maximum ⟨[], false⟩ (reads.map Prod.snd)
    (r.1.map observed = s.1 ∧ r.2.pending = s.2.pending ∧ r.2.fragmented = s.2.fragmented) ∧
      ∀ reads' : List (FrameAnswers × List UInt8),
        (reads'.map Prod.snd).flatten = (reads.map Prod.snd).flatten →
        let r' := (new maximum hmaximum).pushAll stream acquisitionId reads'
        r'.1.map observed = r.1.map observed ∧ r'.2.pending = r.2.pending ∧
          r'.2.fragmented = r.2.fragmented := by
  intro r s
  obtain ⟨houtput, hcarry⟩ := pushAll_eq_referenceAll stream acquisitionId
    (new maximum hmaximum) reads
  refine ⟨⟨houtput, congrArg Carry.pending hcarry, congrArg Carry.fragmented hcarry⟩,
    fun reads' hflatten => ?_⟩
  obtain ⟨houtput', hcarry'⟩ := pushAll_eq_referenceAll stream acquisitionId
    (new maximum hmaximum) reads'
  rw [referenceAll_eq, hflatten, ← referenceAll_eq] at houtput' hcarry'
  have hsame := hcarry'.trans hcarry.symm
  exact ⟨houtput'.trans houtput.symm, congrArg Carry.pending hsame, congrArg Carry.fragmented hsame⟩

/-- `ab\r` and `\ncdefg\n`, with records of three bytes. -/
theorem pushAll_reference_example :
    ((new 3 (by decide)).pushAll .file (.filled 0)
        [({}, [97, 98, 13]), ({}, [10, 99, 100, 101, 102, 103, 10])]).1.map observed =
      [⟨[97, 98], [13, 10], true⟩, ⟨[99, 100, 101], [], false⟩, ⟨[102, 103], [10], true⟩] :=
  (pushAll_reference 3 (by decide) .file (.filled 0)
    [({}, [97, 98, 13]), ({}, [10, 99, 100, 101, 102, 103, 10])]).1.1.trans (by decide)

end Lvu.Framer
