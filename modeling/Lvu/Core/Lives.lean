import Lvu.Core.Recovery
import Lvu.Machine.Run

/-!
# The lives of a journal

One disk outlives the journals opened over it.  `lives` is the machine of such histories: opens,
appends, flushes, syncs and page reads with any answer of the filesystem, and crashes that leave
any byte prefix of the file that includes everything synced.  A history remembers the records
whose frames the file and the buffer are made of (`handed`) and every sequence number ever given
to a record (`issued`).

* `Inv` holds in every reachable state: `inv_step`, `inv_run`.
* `open_recovers` : opening after any history keeps the longest whole-frame prefix, and later
  sequence numbers are larger than all earlier ones.
-/

namespace Lvu.Journal

open Framing Outcome List

/-- A journal is closed, on its disk, or open. -/
inductive Life
  | down (disk : JournalDisk)
  | up (journal : Journal)

/-- What a life leaves when it ends. -/
def Life.disk : Life → JournalDisk
  | .down disk => disk
  | .up journal => journal.disk

/-- A journal's state, with what has happened to it. -/
structure History where
  life : Life
  handed : List RawRecord
  issued : List UInt64

/-- Before the first open. -/
def History.fresh : History := ⟨.down .fresh, [], []⟩

/-- What can happen to a journal. -/
inductive Event
  | «open»
  | append (io : Answers) (record : RawRecord)
  | flush (io : Answers)
  | syncData (io : Answers)
  | readPage (io : Answers) (offset maxRecords maxBytes : ℕ)
  /-- The process ends here, and `keep` bytes of the file are left. -/
  | crash (keep : ℕ)

section

variable (hash : List UInt8 → UInt32) (source : SourceId)

/-- Opening: recovery drops the records it cuts off. -/
def History.open (h : History) : Option History :=
  match h.life with
  | .up _ => none
  | .down disk =>
    match Journal.open hash source false disk with
    | .ok (j, recovery) _ => some { h with life := .up j, handed := h.handed.take recovery.records }
    | .error _ disk => some { h with life := .down disk }

/-- Appending.  A record has its sequence once its frame is in the buffer, also when the append
then fails. -/
def History.append (h : History) (io : Answers) (record : RawRecord) : Option History :=
  match h.life with
  | .down _ => none
  | .up j =>
    match Journal.append hash io record j with
    | .ok id j' => some {
        life := .up j'
        handed := h.handed ++ [record.withSequence id.sequence]
        issued := h.issued ++ [id.sequence] }
    | .error _ j' =>
      if j'.nextSequence = j.nextSequence then some { h with life := .up j' }
      else some {
        life := .up j'
        handed := h.handed ++ [record.withSequence j.nextSequence]
        issued := h.issued ++ [j.nextSequence] }

/-- An operation that hands over no new record. -/
def History.operate {α : Type} (h : History) (op : EStateM JournalError Journal α) :
    Option History :=
  match h.life with
  | .down _ => none
  | .up j => some { h with life := .up (Outcome.after (op j)) }

/-- One event. -/
def History.step (h : History) : Event → Option History
  | .open => h.open hash source
  | .append io record => h.append hash io record
  | .flush io => h.operate (Journal.flush io)
  | .syncData io => h.operate (Journal.syncData io)
  | .readPage io offset maxRecords maxBytes =>
    h.operate (Journal.readPage hash io offset maxRecords maxBytes)
  | .crash keep =>
    let disk := h.life.disk
    if disk.file.synced ≤ keep then
      some { h with life := .down { disk with file := ⟨disk.file.bytes.take keep, disk.file.synced⟩ } }
    else none

/-- The histories of a journal. -/
def lives : Machine History Event := .ofFun (History.step hash source)

/-- What holds of a history. -/
def Inv (h : History) : Prop :=
  match h.life with
  | .down disk => DiskInv hash source disk h.handed h.issued
  | .up j => LiveInv hash source j h.handed h.issued

end

variable {hash : List UInt8 → UInt32} {source : SourceId} {handed : List RawRecord}
  {issued : List UInt64}

/-! ### Opening -/

theorem frame_prefixCode : PrefixCode (frame hash) (Fits source) := by
  rintro a b ha hb bs ⟨x, rfl⟩ ⟨y, hy⟩
  have h1 := readCompleteFrame_at hash ha [] x
  have h2 := readCompleteFrame_at hash hb [] y
  rw [hy] at h2
  simp only [nil_append, length_nil] at h1 h2
  rw [h1] at h2
  simp only [Except.ok.injEq, Prod.mk.injEq] at h2
  exact h2.1

theorem DiskInv.exists_cut {disk : JournalDisk} (h : DiskInv hash source disk handed issued) :
    ∃ tail, disk.file.bytes =
        encAll (frame hash) (handed.take (wholeFrames (frame hash) handed disk.file.bytes.length)) ++
          tail ∧ Tail hash source tail := by
  obtain ⟨rest, heq, hrest⟩ := take_encAll (frame hash) handed disk.file.bytes.length
  refine ⟨rest, ?_, hrest.imp_right ?_⟩
  · rw [← heq]
    exact prefix_iff_eq_take.1 h.bytes_prefix
  · rintro ⟨r, hr, hp⟩
    exact ⟨r, h.fits r hr, hp⟩

theorem lt_of_lt_watermark {q a b : UInt64} (h : q.toNat < a.toNat) : q < max a b := by
  rw [UInt64.lt_iff_toNat_lt]
  refine lt_of_lt_of_le h (UInt64.le_iff_toNat_le.1 ?_)
  change a ≤ if a ≤ b then b else a
  split_ifs with hab
  · exact hab
  · exact UInt64.le_refl a

/-- The journal that opens over a disk. -/
theorem open_eq {disk : JournalDisk} (h : DiskInv hash source disk handed issued) :
    ∃ kept tail j, kept <+: handed ∧ disk.file.bytes = encAll (frame hash) kept ++ tail ∧
      Tail hash source tail ∧
      Journal.open hash source false disk = .ok (j, {
        records := kept.length
        truncatedTailBytes := tail.length
        nextSequence := j.nextSequence
        lastSequence := kept.getLast?.map (·.recordId.sequence) }) j.disk ∧
      j.file.bytes = encAll (frame hash) kept ∧ j.buffer = [] ∧ j.poisoned = false ∧
      LiveInv hash source j kept issued := by
  obtain ⟨tail, hbytes, htail⟩ := h.exists_cut
  set kept := handed.take (wholeFrames (frame hash) handed disk.file.bytes.length) with hkept
  have hpre : kept <+: handed := take_prefix _ _
  have hmem : ∀ r ∈ kept, r ∈ handed := fun r hr => hpre.subset hr
  have hfit : ∀ r ∈ kept, Fits source r := fun r hr => h.fits r (hmem r hr)
  have hsorted := h.sorted.sublist hpre.sublist
  have hscan := scanMetadata_cut hash hfit htail hsorted
  rw [← hbytes] at hscan
  obtain ⟨w, hw, hwn⟩ := readWatermark_eq h.seqFile_length
  set next := max (w.getD 0)
    ((kept.getLast?.map (·.recordId.sequence)).elim 0 (saturatingAdd · 1)) with hnext
  have hlt : ∀ q : UInt64, q.toNat < watermark disk.seqFile → q < next := fun q hq =>
    lt_of_lt_watermark (hwn ▸ hq)
  -- the file after the cut
  set file : JournalFile := if tail.length > 0 then
    ⟨encAll (frame hash) kept, (encAll (frame hash) kept).length⟩ else disk.file with hfile
  have hfileBytes : file.bytes = encAll (frame hash) kept := by
    rw [hfile]
    split_ifs with ht
    · rfl
    · obtain rfl : tail = [] := length_eq_zero_iff.1 (Nat.eq_zero_of_not_pos ht)
      rw [hbytes, append_nil]
  have hsynced : file.synced ≤ file.bytes.length := by
    rw [hfile]
    split_ifs with ht
    · exact le_rfl
    · exact h.synced_le
  let j : Journal := {
    sourceId := source, file, seqFile := disk.seqFile, nextSequence := next, reservedUntil := next
    writtenBytes := (encAll (frame hash) kept).length, buffer := [], poisoned := false }
  refine ⟨kept, tail, j, hpre, hbytes, htail, ?_, hfileBytes, rfl, rfl, ?_⟩
  · have htrunc : disk.file.bytes.length - (encAll (frame hash) kept).length = tail.length := by
      rw [hbytes, length_append, Nat.add_sub_cancel_left]
    have htake : disk.file.bytes.take (encAll (frame hash) kept).length =
        encAll (frame hash) kept := by rw [hbytes, take_left]
    simp only [Journal.open, Bool.false_eq_true, ↓reduceIte, run_get_bind, hscan, htrunc, htake, hw]
    by_cases ht : tail.length > 0
    · have hf : file = ⟨encAll (frame hash) kept, (encAll (frame hash) kept).length⟩ := if_pos ht
      simp only [ht, ↓reduceIte, run_set_bind, hf, j]
      rfl
    · have hf : file = disk.file := if_neg ht
      simp only [ht, ↓reduceIte, hf, j]
      rfl
  · exact {
      fits := hfit
      sorted := hsorted
      bytes_prefix := hfileBytes ▸ prefix_rfl
      synced_le := hsynced
      seqFile_length := h.seqFile_length
      handed_lt := fun r hr => h.handed_lt r (hmem r hr)
      issued_lt := h.issued_lt
      issued_sorted := h.issued_sorted
      source_eq := rfl
      bytes_eq := fun _ => (append_nil _).trans hfileBytes
      buffer_nil := fun _ => rfl
      written_eq := fun _ => rfl
      handed_lt_next := fun r hr => hlt _ (h.handed_lt r (hmem r hr))
      issued_lt_next := fun q hq => hlt q (h.issued_lt q hq)
      next_le := UInt64.le_refl _
      reserved_le := Or.inr rfl }

/-- The journal that opens where there was none. -/
def empty (source : SourceId) : Journal :=
  { sourceId := source, file := ⟨[], 0⟩, seqFile := none, nextSequence := 0, reservedUntil := 0
    writtenBytes := 0, buffer := [], poisoned := false }

theorem open_fresh : Journal.open hash source false .fresh =
    .ok (empty source, ⟨0, 0, 0, none⟩) .fresh := by
  have hscan : scanMetadata hash JournalDisk.fresh.file.bytes source = .ok ⟨0, 0, none⟩ :=
    scanMetadata_cut hash (forall_mem_nil _) (.inl rfl) List.Pairwise.nil
  simp only [Journal.open, Bool.false_eq_true, ↓reduceIte, run_get_bind, hscan]
  rfl

theorem live_empty (hash : List UInt8 → UInt32) (source : SourceId) :
    LiveInv hash source (empty source) [] [] where
  fits := by simp
  sorted := List.Pairwise.nil
  bytes_prefix := nil_prefix
  synced_le := le_rfl
  seqFile_length := by simp [disk, empty]
  handed_lt := by simp
  issued_lt := by simp
  issued_sorted := List.Pairwise.nil
  source_eq := rfl
  bytes_eq := fun _ => rfl
  buffer_nil := fun _ => rfl
  written_eq := fun _ => rfl
  handed_lt_next := by simp
  issued_lt_next := by simp
  next_le := UInt64.le_refl _
  reserved_le := Or.inr rfl

/-! ### One event -/

/-- A record whose frame was pushed has used its sequence. -/
theorem LiveInv.issue {j : Journal} {record : RawRecord} {q : UInt64}
    (h : LiveInv hash source j (handed ++ [record]) issued) (hq : record.recordId.sequence = q)
    (hnew : ∀ p ∈ issued, p < q) :
    LiveInv hash source j (handed ++ [record]) (issued ++ [q]) := by
  have hmem : record ∈ handed ++ [record] := by simp
  refine { h with issued_lt := ?_, issued_sorted := ?_, issued_lt_next := ?_ }
  · intro p hp
    rcases mem_append.1 hp with hp | hp
    · exact h.issued_lt p hp
    · rw [mem_singleton.1 hp, ← hq]
      exact h.handed_lt record hmem
  · exact pairwise_append.2 ⟨h.issued_sorted, pairwise_singleton _ _,
      fun a ha b hb => mem_singleton.1 hb ▸ hnew a ha⟩
  · intro p hp
    rcases mem_append.1 hp with hp | hp
    · exact h.issued_lt_next p hp
    · rw [mem_singleton.1 hp, ← hq]
      exact h.handed_lt_next record hmem

theorem inv_fresh : Inv hash source .fresh := (live_empty hash source).toDiskInv

theorem inv_append {h h' : History} {io : Answers} {record : RawRecord} (hi : Inv hash source h)
    (hstep : h.append hash io record = some h') : Inv hash source h' := by
  obtain ⟨life, handed, issued⟩ := h
  cases life with
  | down disk => simp [History.append] at hstep
  | up j =>
    have hj : LiveInv hash source j handed issued := hi
    simp only [History.append] at hstep
    rcases append_cases hj io record with ⟨e, seqFile, heq, hinv⟩ | ⟨j', heq, -, -, hlt, hinv⟩ |
      ⟨j', heq, -, -, -, -, hinv⟩
    · simp only [heq, ↓reduceIte, Option.some.injEq] at hstep
      exact hstep ▸ hinv
    · have hne : j'.nextSequence ≠ j.nextSequence := fun he => UInt64.lt_irrefl _ (he ▸ hlt)
      simp only [heq, hne, ↓reduceIte, Option.some.injEq] at hstep
      exact hstep ▸ hinv.issue rfl hj.issued_lt_next
    · simp only [heq, Option.some.injEq] at hstep
      exact hstep ▸ hinv.issue rfl hj.issued_lt_next

theorem inv_operate {α : Type} {h h' : History} {op : EStateM JournalError Journal α}
    (hop : ∀ j handed issued, LiveInv hash source j handed issued →
      LiveInv hash source (after (op j)) handed issued)
    (hi : Inv hash source h) (hstep : h.operate op = some h') : Inv hash source h' := by
  obtain ⟨life, handed, issued⟩ := h
  cases life with
  | down disk => simp [History.operate] at hstep
  | up j =>
    simp only [History.operate, Option.some.injEq] at hstep
    exact hstep ▸ hop j handed issued hi

theorem Inv.disk {h : History} (hi : Inv hash source h) :
    DiskInv hash source h.life.disk h.handed h.issued := by
  obtain ⟨life, handed, issued⟩ := h
  cases life with
  | down disk => exact hi
  | up j => exact LiveInv.toDiskInv hi

/-- Every event keeps the invariant. -/
theorem inv_step {h : History} {e : Event} {h' : History} (hi : Inv hash source h)
    (hstep : (lives hash source).step h e h') : Inv hash source h' := by
  simp only [lives, Machine.ofFun] at hstep
  cases e with
  | «open» =>
    obtain ⟨life, handed, issued⟩ := h
    cases life with
    | up j => simp [History.step, History.open] at hstep
    | down disk =>
      obtain ⟨kept, tail, j, hpre, -, -, hopen, -, -, -, hinv⟩ := open_eq hi
      simp only [History.step, History.open, hopen, Option.some.injEq] at hstep
      rw [← hstep, Inv, ← prefix_iff_eq_take.1 hpre]
      exact hinv
  | append io record => exact inv_append hi hstep
  | flush io => exact inv_operate (fun _ _ _ hj => hj.flush io) hi hstep
  | syncData io => exact inv_operate (fun _ _ _ hj => hj.syncData io) hi hstep
  | readPage io offset maxRecords maxBytes =>
    exact inv_operate (fun _ _ _ hj => hj.readPage io offset maxRecords maxBytes) hi hstep
  | crash keep =>
    simp only [History.step] at hstep
    split_ifs at hstep with hkeep
    simp only [Option.some.injEq] at hstep
    have hd := hi.disk
    have hle := hd.synced_le
    rw [← hstep]
    exact { hd with
      bytes_prefix := (List.take_prefix _ _).trans hd.bytes_prefix
      synced_le := by simp only [length_take]; omega }

theorem inv_run {h h' : History} {es : List Event} (hrun : (lives hash source).Run h es h')
    (hi : Inv hash source h) : Inv hash source h' :=
  hrun.invariant hi fun _ _ _ => inv_step

theorem Inv.issued_sorted {h : History} (hi : Inv hash source h) : h.issued.Pairwise (· < ·) :=
  hi.disk.issued_sorted

theorem issued_prefix_step {h h' : History} {e : Event} (hstep : (lives hash source).step h e h') :
    h.issued <+: h'.issued := by
  have operate_issued : ∀ {α : Type} (op : EStateM JournalError Journal α),
      h.operate op = some h' → h'.issued = h.issued := by
    intro α op hop
    unfold History.operate at hop
    split at hop
    · simp at hop
    · rw [← Option.some.inj hop]
  simp only [lives, Machine.ofFun] at hstep
  cases e with
  | «open» =>
    simp only [History.step, History.open] at hstep
    split at hstep
    · simp at hstep
    · split at hstep <;> exact Option.some.inj hstep ▸ prefix_rfl
  | append io record =>
    simp only [History.step, History.append] at hstep
    split at hstep
    · simp at hstep
    · split at hstep
      · exact Option.some.inj hstep ▸ prefix_append _ _
      · split_ifs at hstep
        · exact Option.some.inj hstep ▸ prefix_rfl
        · exact Option.some.inj hstep ▸ prefix_append _ _
  | flush io | syncData io | readPage io offset maxRecords maxBytes =>
    exact operate_issued _ hstep ▸ prefix_rfl
  | crash keep =>
    simp only [History.step] at hstep
    split_ifs at hstep
    exact Option.some.inj hstep ▸ prefix_rfl

theorem issued_prefix {h h' : History} {es : List Event} (hrun : (lives hash source).Run h es h') :
    h.issued <+: h'.issued :=
  hrun.relation (R := fun a b => a.issued <+: b.issued) (fun _ => prefix_rfl)
    (fun _ _ _ => List.IsPrefix.trans) fun _ _ _ => issued_prefix_step

/-! ### Recovery -/

/-- **Recovery after any history.**  Wherever the crash fell, opening succeeds, keeps the longest
prefix of the file that is made of whole frames and cuts off the rest, reports what it kept, and
goes on with sequence numbers larger than every one used in an earlier life. -/
theorem open_recovers {es : List Event} {h : History} {disk : JournalDisk}
    (hrun : (lives hash source).Run .fresh es h) (hdown : h.life = .down disk) :
    ∃ kept j,
      Journal.open hash source false disk = .ok (j, {
        records := kept.length
        truncatedTailBytes := disk.file.bytes.length - (encAll (frame hash) kept).length
        nextSequence := j.nextSequence
        lastSequence := kept.getLast?.map (·.recordId.sequence) }) j.disk ∧
      kept <+: h.handed ∧
      encAll (frame hash) kept <+: disk.file.bytes ∧
      (∀ rs, (∀ r ∈ rs, Fits source r) → encAll (frame hash) rs <+: disk.file.bytes → rs <+: kept) ∧
      j.file.bytes = encAll (frame hash) kept ∧
      ∀ es' h', (lives hash source).Run ⟨.up j, kept, h.issued⟩ es' h' →
        ∃ later, h'.issued = h.issued ++ later ∧ (∀ old ∈ h.issued, ∀ new ∈ later, old < new) ∧
          h'.issued.Nodup := by
  have hi := inv_run hrun inv_fresh
  rw [Inv, hdown] at hi
  obtain ⟨kept, tail, j, hpre, hbytes, htail, hopen, hfile, -, -, hlive⟩ := open_eq hi
  refine ⟨kept, j, ?_, hpre, hbytes ▸ prefix_append _ _, ?_, hfile, ?_⟩
  · rw [hopen, hbytes, length_append, Nat.add_sub_cancel_left]
  · intro rs hrs hp
    rw [hbytes] at hp
    exact frame_prefixCode.prefix_of_encAll hrs hlive.fits htail (frame_ne_nil hash) hp
  · intro es' h' hrun'
    obtain ⟨later, heq⟩ := issued_prefix hrun'
    have hsorted := (inv_run hrun' hlive).issued_sorted
    refine ⟨later, heq.symm, fun old hold new hnew => ?_, hsorted.imp UInt64.ne_of_lt⟩
    rw [← heq] at hsorted
    exact (pairwise_append.1 hsorted).2.2 old hold new hnew

/-- What an opened journal holds, whatever an earlier history has left on disk. -/
theorem open_live {events : List Event} {h : History} {disk disk' : JournalDisk}
    (hlives : (lives hash source).Run .fresh events h) (hdown : h.life = .down disk)
    {j : Journal} {recovery : Recovery}
    (hopen : Journal.open hash source false disk = .ok (j, recovery) disk') :
    ∃ old, j.file.bytes = encAll (frame hash) old ∧ j.buffer = [] ∧ j.poisoned = false ∧
      LiveInv hash source j old h.issued ∧ recovery.records = old.length ∧
      recovery.lastSequence = old.getLast?.map (·.recordId.sequence) := by
  have hi := inv_run hlives inv_fresh
  rw [Inv, hdown] at hi
  obtain ⟨old, tail, j', -, -, -, hopen', hfile, hbuffer, hp, hlive⟩ := open_eq hi
  rw [hopen'] at hopen
  simp only [EStateM.Result.ok.injEq, Prod.mk.injEq] at hopen
  obtain ⟨⟨rfl, rfl⟩, -⟩ := hopen
  exact ⟨old, hfile, hbuffer, hp, hlive, rfl, rfl⟩

/-- A record whose frame a crash cuts after forty bytes. -/
def tornRecord : RawRecord :=
  { recordId := ⟨⟨.filled 1⟩, 0⟩, capturedAtUnixNanos := 0, stream := .file, bytes := [104, 105]
    delimiter := [10], acquisitionId := .filled 2, chunk := .complete }

/-- The disk such a crash leaves. -/
def tornDisk : JournalDisk :=
  ⟨⟨(frame (fun _ => 0) tornRecord).take 40, 0⟩, some (leBytes 8 1024)⟩

theorem torn_run : (lives (fun _ => 0) ⟨.filled 1⟩).Run .fresh
    [.open, .append {} tornRecord, .flush {}, .crash 40] ⟨.down tornDisk, [tornRecord], [0]⟩ := by
  have hopen : History.step (fun _ => 0) ⟨.filled 1⟩ .fresh .open =
      some ⟨.up (empty ⟨.filled 1⟩), [], []⟩ := by
    simp only [History.step, History.open, History.fresh, open_fresh]
    rfl
  rw [lives, Machine.run_ofFun, foldlM_cons, hopen]
  rfl

/-- The cut frame is dropped, and its sequence is not used again. -/
theorem open_recovers_torn : ∃ j next, Journal.open (fun _ => 0) ⟨.filled 1⟩ false tornDisk =
    .ok (j, ⟨0, 40, next, none⟩) j.disk ∧
      ∀ es h, (lives (fun _ => 0) ⟨.filled 1⟩).Run ⟨.up j, [], [0]⟩ es h →
        ∃ later, h.issued = [0] ++ later ∧ ∀ new ∈ later, 0 < new := by
  obtain ⟨kept, j, hopen, -, hbytes, -, -, hlater⟩ := open_recovers torn_run rfl
  obtain rfl : kept = [] := by
    cases kept with
    | nil => rfl
    | cons r rs =>
      have := hbytes.length_le
      rw [encAll_cons, length_append, frame_length] at this
      have hlen : tornDisk.file.bytes.length = 40 := by decide
      simp only [headerSize, fixed] at this
      omega
  refine ⟨j, j.nextSequence, hopen, fun es h' hrun' => ?_⟩
  obtain ⟨later, heq, hlt, -⟩ := hlater es h' hrun'
  exact ⟨later, heq, hlt 0 (mem_singleton.2 rfl)⟩

end Lvu.Journal
