import Lvu.Core.Lives
import Lvu.Data.Packing

/-!
# Reading a journal page by page

`readAll` reads pages from an offset on, each call with record and byte limits of its own, until
a page ends the journal.

* `pageLoop_page` : the page loop packs the records that are left into a page.
* `pageLoop_frames` : so it reads a prefix of them, within both limits, and at least one.
* `readAll_appendAll` : the pages of a journal are what was appended to it.
-/

namespace Lvu.Journal

open Framing Outcome List

variable (hash : List UInt8 → UInt32)

/-- Appends records in order, each with what the filesystem answers to it. -/
def appendAll : List (Answers × RawRecord) → EStateM JournalError Journal (List RecordId)
  | [] => return []
  | (io, record) :: rest => do
    let id ← append hash io record
    return id :: (← appendAll rest)

/-- Reads pages until one ends the journal: call `i` has the limits `geometry i`. -/
def readAll (geometry : ℕ → ℕ × ℕ) (call offset : ℕ) :
    (fuel : ℕ) → EStateM JournalError Journal (List JournalPage)
  | 0 => return []
  | fuel + 1 => do
    let page ← readPage hash {} offset (geometry call).1 (geometry call).2
    if page.endOfJournal then return [page]
    return page :: (← readAll geometry (call + 1) page.nextOffset fuel)

/-- The appended records under the sequences they were assigned. -/
def assigned (records : List RawRecord) (ids : List RecordId) : List RawRecord :=
  List.zipWith (fun record id => record.withSequence id.sequence) records ids

/-- A page of at most `maxRecords` records which, but for its first record, has at most
`maxBytes` payload bytes. -/
def WithinLimits (limits : ℕ × ℕ) (records : List RawRecord) : Prop :=
  records.length ≤ limits.1 ∧ (records.length ≤ 1 ∨ (payloads records).length ≤ limits.2)

variable {hash} {source : SourceId} {handed : List RawRecord} {issued : List UInt64} {j : Journal}

/-! ### One page -/

theorem length_payload (r : RawRecord) : r.payload.length = r.bytes.length + r.delimiter.length :=
  length_append

theorem total_payload (rs : List RawRecord) :
    Packing.total (·.payload.length) rs = (payloads rs).length := by
  induction rs with
  | nil => rfl
  | cons r rs ih => simp [ih]

variable {rest : List RawRecord} {maxRecords maxBytes : ℕ}

/-- **The page loop packs the records that follow** those it already has. -/
theorem pageLoop_page (hash : List UInt8 → UInt32) (hfit : ∀ r ∈ rest, Fits source r)
    (maxRecords maxBytes decoded : ℕ) (pre acc : List RawRecord) :
    pageLoop hash (encAll (frame hash) (pre ++ acc ++ rest)) source maxRecords maxBytes
        (encAll (frame hash) (pre ++ acc)).length decoded acc =
      .ok (acc ++ Packing.page (·.payload.length) maxRecords maxBytes acc.length decoded rest,
        (encAll (frame hash) (pre ++ acc ++
          Packing.page (·.payload.length) maxRecords maxBytes acc.length decoded rest)).length) := by
  induction rest generalizing acc decoded with
  | nil =>
    rw [pageLoop]
    simp [Packing.page]
  | cons r rest ih =>
    have hr := hfit r mem_cons_self
    have hfile : encAll (frame hash) (pre ++ acc ++ r :: rest) =
        encAll (frame hash) (pre ++ acc) ++ (frame hash r ++ encAll (frame hash) rest) := by
      rw [encAll_append, encAll_cons]
    have hcursor : (encAll (frame hash) (pre ++ acc)).length <
        (encAll (frame hash) (pre ++ acc ++ r :: rest)).length := by
      have := length_pos_of_ne_nil (frame_ne_nil hash r)
      rw [hfile, length_append, length_append]
      omega
    have hread : readCompleteFrame hash (encAll (frame hash) (pre ++ acc ++ r :: rest))
        (encAll (frame hash) (pre ++ acc)).length source = .ok (r, (frame hash r).length) := by
      rw [hfile]
      exact readCompleteFrame_at hash hr _ _
    have hnext : (encAll (frame hash) (pre ++ acc)).length + (frame hash r).length =
        (encAll (frame hash) (pre ++ (acc ++ [r]))).length := by
      rw [← append_assoc, encAll_append (pre ++ acc), encAll_singleton, length_append]
    have hnil : acc = [] ↔ acc.length = 0 := length_eq_zero_iff.symm
    rw [pageLoop, Packing.page]
    by_cases hfull : acc.length < maxRecords
    · simp only [hcursor, hfull, and_self, ↓reduceDIte, hread, hnext, ← length_payload, ne_eq, hnil,
        if_true, gt_iff_lt, ge_iff_le]
      split_ifs
      · -- the record does not fit: it is left for the next page
        simp
      · rw [append_assoc]
      · have hlater := ih (fun x hx => hfit x (mem_cons_of_mem _ hx)) (decoded + r.payload.length)
          (acc ++ [r])
        simpa using hlater
    · simp [hfull]

/-- The page loop reads on from the records `acc` it already has. -/
theorem pageLoop_frames (hash : List UInt8 → UInt32) (hfit : ∀ r ∈ rest, Fits source r)
    (pre acc : List RawRecord) (hacc : acc.length ≤ maxRecords)
    (hbytes : acc = [] ∨ (payloads acc).length < maxBytes) :
    ∃ taken left, rest = taken ++ left ∧
      pageLoop hash (encAll (frame hash) (pre ++ acc ++ rest)) source maxRecords maxBytes
          (encAll (frame hash) (pre ++ acc)).length (payloads acc).length acc =
        .ok (acc ++ taken, (encAll (frame hash) (pre ++ acc ++ taken)).length) ∧
      WithinLimits (maxRecords, maxBytes) (acc ++ taken) ∧
      (acc = [] → 0 < maxRecords → rest ≠ [] → taken ≠ []) := by
  obtain ⟨left, hleft⟩ := Packing.page_prefix (·.payload.length) maxRecords maxBytes acc.length
    (payloads acc).length rest
  refine ⟨_, left, hleft.symm, pageLoop_page hash hfit maxRecords maxBytes _ pre acc, ⟨?_, ?_⟩, ?_⟩
  · rw [length_append]
    exact Packing.length_page_le hacc
  · have hsum : acc.length ≠ 0 → (payloads acc).length < maxBytes := by
      intro hne
      exact hbytes.resolve_left fun hnil => hne (by simp [hnil])
    have hle := Packing.total_page_le (·.payload.length) maxRecords rest hsum
    rw [length_append, payloads_append, length_append, ← total_payload (Packing.page _ _ _ _ _ _)]
    exact hle
  · rintro rfl hpos hrest
    exact Packing.page_ne_nil hpos hrest

/-- **A page read at a frame boundary packs the records that follow.** -/
theorem readPageFrom_page (hash : List UInt8 → UInt32) (pre : List RawRecord)
    (hfit : ∀ r ∈ rest, Fits source r) (hpos : 0 < maxRecords ∧ 0 < maxBytes) :
    readPageFrom hash (encAll (frame hash) (pre ++ rest)) source
        (encAll (frame hash) pre).length maxRecords maxBytes =
      .ok ⟨Packing.page (·.payload.length) maxRecords maxBytes 0 0 rest,
        (encAll (frame hash) (pre ++
          Packing.page (·.payload.length) maxRecords maxBytes 0 0 rest)).length,
        (rest.drop (Packing.page (·.payload.length) maxRecords maxBytes 0 0 rest).length).isEmpty⟩ := by
  obtain ⟨left, hleft⟩ := Packing.page_prefix (·.payload.length) maxRecords maxBytes 0 0 rest
  have hloop := pageLoop_page hash hfit maxRecords maxBytes 0 pre []
  rw [append_nil, length_nil, nil_append] at hloop
  generalize hpage : Packing.page (fun r : RawRecord => r.payload.length) maxRecords maxBytes 0 0 rest =
    taken at *
  have hend : ((encAll (frame hash) (pre ++ taken)).length ==
      (encAll (frame hash) (pre ++ rest)).length) = (rest.drop taken.length).isEmpty := by
    rw [← hleft, drop_left, ← append_assoc, encAll_append _ left, length_append]
    cases left with
    | nil => simp
    | cons r left =>
      have := length_pos_of_ne_nil (frame_ne_nil hash r)
      simp only [encAll_cons, length_append, isEmpty_cons, beq_eq_false_iff_ne]
      omega
  have hle : ¬ (encAll (frame hash) pre).length > (encAll (frame hash) (pre ++ rest)).length := by
    rw [encAll_append, length_append]
    omega
  have hzero : ¬ (maxRecords = 0 ∨ maxBytes = 0) := by omega
  simp only [readPageFrom, hle, hzero, ↓reduceIte, hloop, bind, Except.bind, pure, Except.pure, hend]

/-- A page read at a frame boundary is the records that follow, as many as the limits allow. -/
theorem readPageFrom_frames (hash : List UInt8 → UInt32) (pre : List RawRecord)
    (hfit : ∀ r ∈ rest, Fits source r) (hpos : 0 < maxRecords ∧ 0 < maxBytes) :
    ∃ taken left, rest = taken ++ left ∧
      readPageFrom hash (encAll (frame hash) (pre ++ rest)) source
          (encAll (frame hash) pre).length maxRecords maxBytes =
        .ok ⟨taken, (encAll (frame hash) (pre ++ taken)).length, left.isEmpty⟩ ∧
      WithinLimits (maxRecords, maxBytes) taken ∧ (rest ≠ [] → taken ≠ []) := by
  obtain ⟨taken, left, hrest, hloop, hlim, hprogress⟩ :=
    pageLoop_frames hash hfit pre [] (Nat.zero_le maxRecords)
      (.inl rfl : [] = [] ∨ (payloads []).length < maxBytes)
  have hpage := readPageFrom_page hash pre hfit hpos
  have htaken : Packing.page (·.payload.length) maxRecords maxBytes 0 0 rest = taken := by
    have := pageLoop_page hash hfit maxRecords maxBytes 0 pre []
    rw [payloads_nil, length_nil, this] at hloop
    simpa using congrArg Prod.fst (Except.ok.inj hloop)
  rw [htaken] at hpage
  refine ⟨taken, left, hrest, ?_, hlim, hprogress rfl hpos.1⟩
  rw [hpage, hrest, drop_left]

/-- The same of an open journal, whose buffer is handed over first. -/
theorem readPage_frames (h : LiveInv hash source j handed issued) (hp : j.poisoned = false)
    {pre : List RawRecord} (hhanded : handed = pre ++ rest) (hpos : 0 < maxRecords ∧ 0 < maxBytes) :
    ∃ taken left j', rest = taken ++ left ∧
      readPage hash {} (encAll (frame hash) pre).length maxRecords maxBytes j =
        .ok ⟨taken, (encAll (frame hash) (pre ++ taken)).length, left.isEmpty⟩ j' ∧
      j'.poisoned = false ∧ LiveInv hash source j' handed issued ∧
      WithinLimits (maxRecords, maxBytes) taken ∧ (rest ≠ [] → taken ≠ []) := by
  subst hhanded
  obtain ⟨taken, left, hrest, hpage, hlim, hprogress⟩ :=
    readPageFrom_frames hash pre (fun r (hr : r ∈ rest) => h.fits r (mem_append_right _ hr)) hpos
  rcases writeBuffer_cases h hp {} with ⟨j', hj, hp', -, hfile, -, -⟩ | ⟨j', hj, -⟩
  · have hw := h.writeBuffer {}
    rw [hj, after_ok] at hw
    refine ⟨taken, left, j', hrest, ?_, hp', hw, hlim, hprogress⟩
    rw [readPage, run_bind_ok hj, run_get_bind]
    simp only [hfile, hw.source_eq, hpage, run_pure]
  · rw [writeBuffer_ok rfl] at hj
    simp at hj

/-! ### All pages -/

theorem appendAll_spec (h : LiveInv hash source j handed issued) (hp : j.poisoned = false)
    {records : List (Answers × RawRecord)} {ids : List RecordId} {j' : Journal}
    (haccept : appendAll hash records j = .ok ids j') :
    j'.poisoned = false ∧
      LiveInv hash source j' (handed ++ assigned (records.map Prod.snd) ids) issued := by
  induction records generalizing j handed ids with
  | nil =>
    obtain ⟨rfl, rfl⟩ : ([] : List RecordId) = ids ∧ j = j' := by simpa [appendAll] using haccept
    exact ⟨hp, by simpa [assigned] using h⟩
  | cons entry records ih =>
    obtain ⟨io, record⟩ := entry
    rw [appendAll] at haccept
    rcases append_cases h io record with ⟨e, seqFile, heq, -⟩ | ⟨j₁, heq, -⟩ |
      ⟨j₁, heq, hp₁, -, -, -, hinv⟩
    · rw [run_bind_error heq] at haccept
      simp at haccept
    · rw [run_bind_error heq] at haccept
      simp at haccept
    · rw [run_bind_ok heq] at haccept
      cases hrest : appendAll hash records j₁ with
      | error e j₂ =>
        rw [run_bind_error hrest] at haccept
        simp at haccept
      | ok ids₁ j₂ =>
        rw [run_bind_ok hrest, run_pure] at haccept
        obtain ⟨rfl, rfl⟩ : ⟨source, j.nextSequence⟩ :: ids₁ = ids ∧ j₂ = j' := by
          simpa using haccept
        have := ih hinv hp₁ hrest
        rw [append_assoc] at this
        exact this

theorem readAll_frames (h : LiveInv hash source j handed issued) (hp : j.poisoned = false)
    {geometry : ℕ → ℕ × ℕ} (hpos : ∀ i, 0 < (geometry i).1 ∧ 0 < (geometry i).2)
    (pre rest : List RawRecord) (hhanded : handed = pre ++ rest) (call : ℕ) {fuel : ℕ}
    (hfuel : rest.length < fuel) :
    ∃ pages j', readAll hash geometry call (encAll (frame hash) pre).length fuel j = .ok pages j' ∧
      pages.getLast?.map (·.endOfJournal) = some true ∧ pages.flatMap (·.records) = rest ∧
      ∀ i page, pages[i]? = some page → WithinLimits (geometry (call + i)) page.records := by
  induction fuel generalizing j pre rest call with
  | zero => omega
  | succ fuel ih =>
    obtain ⟨taken, left, j₁, hrest, heq, hp₁, hinv, hlim, hprogress⟩ :=
      readPage_frames h hp hhanded (hpos call)
    rw [readAll, run_bind_ok heq]
    cases left with
    | nil =>
      rw [append_nil] at hrest
      refine ⟨[_], j₁, rfl, rfl, by simpa using hrest.symm, fun i page hpage => ?_⟩
      obtain ⟨rfl, rfl⟩ : i = 0 ∧ _ = page := by
        cases i with
        | zero => exact ⟨rfl, by simpa using hpage⟩
        | succ i => simp at hpage
      exact hlim
    | cons r left =>
      have htaken := hprogress (by simp [hrest])
      have hshorter : (r :: left).length < fuel := by
        have := length_pos_of_ne_nil htaken
        rw [hrest, length_append] at hfuel
        omega
      obtain ⟨pages, j₂, hpages, hlast, hall, hlims⟩ := ih hinv hp₁
        (pre ++ taken) (r :: left) (by rw [hhanded, hrest, append_assoc])
        (call + 1) hshorter
      refine ⟨⟨taken, (encAll (frame hash) (pre ++ taken)).length, false⟩ :: pages, j₂, ?_, ?_,
        by simp [hall, hrest], fun i page hpage => ?_⟩
      · simp only [isEmpty_cons, Bool.false_eq_true, ↓reduceIte]
        rw [run_bind_ok hpages]
        rfl
      · cases pages with
        | nil => simp at hlast
        | cons p ps => simpa using hlast
      · cases i with
        | zero =>
          cases hpage
          exact hlim
        | succ i =>
          have := hlims i page hpage
          rwa [Nat.add_assoc, Nat.add_comm 1 i] at this

/-- **Paging returns what was appended.**  Whatever limits each call has, reading from offset
`0` ends, the pages together are the accepted records in order under their assigned sequences,
and each page keeps its limits. -/
theorem readAll_appendAll {records : List (Answers × RawRecord)} {ids : List RecordId}
    (geometry : ℕ → ℕ × ℕ) (hpos : ∀ i, 0 < (geometry i).1 ∧ 0 < (geometry i).2)
    (haccept : appendAll hash records (empty source) = .ok ids j) :
    ∃ pages j', readAll hash geometry 0 0 (records.length + 1) j = .ok pages j' ∧
      pages.getLast?.map (·.endOfJournal) = some true ∧
      pages.flatMap (·.records) = assigned (records.map Prod.snd) ids ∧
      ∀ i page, pages[i]? = some page → WithinLimits (geometry i) page.records := by
  obtain ⟨hp, hinv⟩ := appendAll_spec (live_empty hash source) rfl haccept
  rw [nil_append] at hinv
  have hfuel : (assigned (records.map Prod.snd) ids).length < records.length + 1 := by
    simp only [assigned, length_zipWith, length_map]
    omega
  obtain ⟨pages, j', heq, hlast, hall, hlims⟩ := readAll_frames hinv hp hpos [] _
    (nil_append _).symm 0 hfuel
  simp only [Nat.zero_add] at hlims
  exact ⟨pages, j', heq, hlast, hall, hlims⟩

set_option maxRecDepth 4000 in
theorem appendAll_two : ∃ j, appendAll (fun _ => 0) [({}, tornRecord), ({}, tornRecord)]
    (empty ⟨.filled 1⟩) = .ok [⟨⟨.filled 1⟩, 0⟩, ⟨⟨.filled 1⟩, 1⟩] j := ⟨_, rfl⟩

/-- Two records, read one at a time. -/
theorem readAll_appendAll_two : ∃ j pages j',
    readAll (fun _ => 0) (fun _ => (1, 1)) 0 0 3 j = .ok pages j' ∧
      pages.flatMap (·.records) = [tornRecord.withSequence 0, tornRecord.withSequence 1] := by
  obtain ⟨j, haccept⟩ := appendAll_two
  obtain ⟨pages, j', hread, -, hall, -⟩ :=
    readAll_appendAll (fun _ => (1, 1)) (fun _ => ⟨Nat.one_pos, Nat.one_pos⟩) haccept
  exact ⟨j, pages, j', hread, hall⟩

end Lvu.Journal
