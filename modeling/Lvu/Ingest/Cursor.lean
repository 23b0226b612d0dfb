import Lvu.Ingest.Covering

/-!
# The cursor and the records behind it

* `stored_covered` : every cursor file ever written is covered, provided that no commit stores a
  checkpoint before this writer's first sync, unless the journal was durable when it was opened.
* `cursor_stored_unsynced` : without that condition, a commit with nothing appended stores one
  ahead of the synced bytes.
-/

namespace Lvu.Writer

open Journal Framing Outcome

/-- **A written cursor is covered**: the journal file holds whole frames, the cursor stands
between two of them with what its acquisition has read of the file from `base` to the cursor's
offset before it, the synced bytes reach up to it, and no journal call had failed. -/
def Covered (hash : List UInt8 → UInt32) (base : Uuid → ℕ) (old : List RawRecord) (e : Stored) :
    Prop :=
  (∃ mine later, e.journal.file.bytes = encAll (frame hash) (old ++ mine ++ later) ∧
    e.cursor.journalOffset = (encAll (frame hash) (old ++ mine)).length ∧
    base e.cursor.acquisitionId + (recordedBy e.cursor.acquisitionId mine).length =
      e.cursor.file.offset) ∧
  e.cursor.journalOffset ≤ e.journal.file.synced ∧ e.failed = false

/-- A checkpoint is sent behind the records it counts: its offset is where the acquisition began
and what it has handed over since. -/
def Counts (base : Uuid → ℕ) (s : WriterState) : WriterMessage → Prop
  | .event (.fileCheckpoint acquisitionId file _) =>
    base acquisitionId + (capturedBy acquisitionId s.handed).length = file.offset
  | _ => True

/-- A writer that is sent its checkpoints so. -/
def LabelCounts (base : Uuid → ℕ) : Life → Label → Prop
  | .running s, .step (.message _ message) => Counts base s message
  | _, _ => True

/-- The condition on a label of a writer over the journal `start`: where the step stores a
checkpoint before this writer has appended or synced anything, all of `start` was synced when it
was opened. -/
def LabelCovered (start : Journal) : Life → Label → Prop
  | .running s, .step step => CommitsUnsynced s step → start.file.bytes.length ≤ start.file.synced
  | _, _ => True

variable {hash : List UInt8 → UInt32} {source : SourceId} {base : Uuid → ℕ}
  {old : List RawRecord} {issued : List UInt64} {config : RuntimeConfig}

/-- A writer over `start`, whose cursors are to be within the synced bytes. -/
def syncedSetting (hash : List UInt8 → UInt32) (source : SourceId) (base : Uuid → ℕ)
    (old : List RawRecord) (issued : List UInt64) (start : Journal) (path : Option String) :
    Setting :=
  { hash, source, path, old, issued, synced := start.file.synced, strict := True
    reads := fun cursor bytes => base cursor.acquisitionId + bytes.length = cursor.file.offset }

theorem lifeCovering_step {start : Journal} {path : Option String}
    (hstart : start.file.bytes = encAll (frame hash) old) {life life' : Life} {label : Label}
    (h : LifeCovering (syncedSetting hash source base old issued start path) life)
    (hcond : LabelCounts base life label ∧ LabelCovered start life label)
    (hstep : (writer hash config).step life label life') :
    LifeCovering (syncedSetting hash source base old issued start path) life' := by
  simp only [writer, Machine.ofFun] at hstep
  cases life with
  | returned s => simp [advance] at hstep
  | running s =>
    cases label with
    | updateState state error | updateCompletionState state discardedBytes known =>
      obtain ⟨new, h, hs⟩ := h
      rw [← Option.some.inj hstep]
      exact ⟨new, h.congr rfl, hs.congr rfl⟩
    | step step =>
      rw [← Option.some.inj hstep]
      refine lifeCovering_settle (covering_perform config h ?_ ?_)
      · cases step with
        | message io message =>
          cases message with
          | finish state discardedBytes known replyClosed => trivial
          | event event => cases event <;> first | trivial | exact fun _ _ => hcond.1
        | _ => trivial
      · intro _ hcommits
        have hle := hcond.2 hcommits
        rwa [hstart] at hle

theorem covered_of_backed {start : Journal} {path : Option String} {e : Stored}
    (h : Backed (syncedSetting hash source base old issued start path) e) :
    Covered hash base old e := by
  obtain ⟨⟨_, hbytes, mine, later, rfl, hoffset, hreads⟩, hfailed, hsynced⟩ := h
  refine ⟨⟨mine, later, ?_, hoffset, hreads⟩, hsynced trivial, hfailed⟩
  rw [hbytes, List.append_assoc]
  rfl

/-- **Under the condition, every cursor file a writer stores is covered**: it stands at a frame
boundary within the synced bytes, what is before it is what its acquisition has read up to the
cursor's offset, and no journal call of this writer had failed before. -/
theorem stored_covered {events : List Event} {h : History} {disk disk' : JournalDisk}
    (hlives : (lives hash source).Run .fresh events h) (hdown : h.life = .down disk)
    {j : Journal} {recovery : Recovery}
    (hopen : Journal.open hash source false disk = .ok (j, recovery) disk')
    {generation : ℕ} {fileCursor : Option FileCursorWriter} {labels : List Label} {life : Life}
    (hrun : ((writer hash config).only fun life label =>
      LabelCounts base life label ∧ LabelCovered j life label).Run
      (.running (spawnWriter config j recovery (.initial source generation) fileCursor))
      labels life) :
    ∃ old, j.file.bytes = encAll (frame hash) old ∧
      ∀ e ∈ life.state.stored, Covered hash base old e := by
  obtain ⟨old, hfile, -, -, hlive, -⟩ := open_live hlives hdown hopen
  refine ⟨old, hfile, ?_⟩
  have hlife : LifeCovering (syncedSetting hash source base old h.issued j
      (fileCursor.map (·.sourcePath))) life :=
    hrun.invariant_only (covering_spawn hlive (hfile ▸ List.prefix_rfl) rfl rfl) fun _ _ _ hs hc hst =>
      lifeCovering_step hfile hs hc hst
  obtain ⟨new, rest, hremains⟩ := hlife.left
  exact fun e he => covered_of_backed (hremains.stored e he).1

/-- The checkpoint of the acquisition `2` after three bytes. -/
def afterLine (acquisitionId : Uuid) : WriterMessage :=
  .event (.fileCheckpoint acquisitionId ⟨3, none, [104, 105, 10], 0⟩ .plain)

/-- A writer of a file source over an empty journal. -/
def startedFile : WriterState :=
  spawnWriter .default (empty ⟨.filled 1⟩) ⟨0, 0, 0, none⟩ (.initial ⟨.filled 1⟩ 1)
    (some ⟨"app.log", none⟩)

/-- The writer after a step. -/
def stepped (step : Step) (s : WriterState) : WriterState :=
  after (perform (fun _ => 0) .default step s)

/-- A line, its checkpoint, and the end of the channel. -/
theorem stored_covered_line : ∃ life : Life, life.state.stored.length = 1 ∧
    ∃ old, (empty ⟨.filled 1⟩).file.bytes = encAll (frame fun _ => 0) old ∧
      ∀ e ∈ life.state.stored, Covered (fun _ => 0) (fun _ => 0) old e := by
  have hdurable : ∀ life label, LabelCovered (empty ⟨.filled 1⟩) life label := by
    rintro (s | s) (step | _ | _) <;> simp [LabelCovered, empty]
  let M := (writer (fun _ => 0) .default).only fun life label =>
    LabelCounts (fun _ => 0) life label ∧ LabelCovered (empty ⟨.filled 1⟩) life label
  let s₁ := stepped (.batch {} [[line]]) startedFile
  let s₂ := stepped (.message {} (afterLine (.filled 2))) s₁
  have h₁ : M.step (.running startedFile) (.step (.batch {} [[line]])) (.running s₁) :=
    ⟨⟨trivial, hdurable _ _⟩, rfl⟩
  have h₂ : M.step (.running s₁) (.step (.message {} (afterLine (.filled 2)))) (.running s₂) :=
    ⟨⟨rfl, hdurable _ _⟩, rfl⟩
  have h₃ : M.step (.running s₂) (.step (.close {})) (.returned (stepped (.close {}) s₂)) :=
    ⟨⟨trivial, hdurable _ _⟩, rfl⟩
  exact ⟨_, rfl, stored_covered .nil rfl open_fresh (((Machine.Run.single h₁).snoc h₂).snoc h₃)⟩

/-- The disk after a process that flushed one record and did not sync. -/
def flushedDisk : JournalDisk :=
  ⟨⟨frame (fun _ => 0) tornRecord, 0⟩, some (leBytes 8 1024)⟩

/-- The journal that opens over it. -/
def flushedJournal : Journal :=
  { empty ⟨.filled 1⟩ with
    file := flushedDisk.file, seqFile := flushedDisk.seqFile, nextSequence := 1024
    reservedUntil := 1024, writtenBytes := 77 }

theorem flushed_run : (lives (fun _ => 0) ⟨.filled 1⟩).Run .fresh
    [.open, .append {} tornRecord, .flush {}, .crash 77] ⟨.down flushedDisk, [tornRecord], [0]⟩ := by
  have hopen : History.step (fun _ => 0) ⟨.filled 1⟩ .fresh .open =
      some ⟨.up (empty ⟨.filled 1⟩), [], []⟩ := by
    simp only [History.step, History.open, History.fresh, open_fresh]
    rfl
  rw [lives, Machine.run_ofFun, List.foldlM_cons, hopen]
  rfl

theorem open_flushed : Journal.open (fun _ => 0) ⟨.filled 1⟩ false flushedDisk =
    .ok (flushedJournal, ⟨1, 0, 1024, some 0⟩) flushedDisk := by
  have hfit : ∀ r ∈ [tornRecord], Fits ⟨.filled 1⟩ r := by
    simp only [List.mem_singleton, forall_eq]
    exact ⟨rfl, by decide⟩
  have hscan : scanMetadata (fun _ => 0) flushedDisk.file.bytes ⟨.filled 1⟩ = .ok ⟨1, 77, some 0⟩ :=
    scanMetadata_cut (fun _ => 0) hfit (.inl rfl) (List.pairwise_singleton _ _)
  simp only [Journal.open, Bool.false_eq_true, ↓reduceIte, run_get_bind, hscan]
  rfl

/-- **A commit with nothing appended stores a cursor ahead of the synced bytes**: the acquisition
resumed after three bytes, its first checkpoint is held, and the deadline passes. -/
theorem cursor_stored_unsynced : ¬ ∀ events (h : History) (disk disk' : JournalDisk) (j : Journal)
    (recovery : Recovery) labels (life : Life),
    (lives (fun _ => 0) ⟨.filled 1⟩).Run .fresh events h → h.life = .down disk →
    Journal.open (fun _ => 0) ⟨.filled 1⟩ false disk = .ok (j, recovery) disk' →
    ((writer (fun _ => 0) .default).only (LabelCounts fun _ => 3)).Run
      (.running (spawnWriter .default j recovery (.initial ⟨.filled 1⟩ 2) (some ⟨"app.log", none⟩)))
      labels life →
    ∃ old, j.file.bytes = encAll (frame fun _ => 0) old ∧
      ∀ e ∈ life.state.stored, Covered (fun _ => 0) (fun _ => 3) old e := by
  intro hclaim
  let s₀ := spawnWriter .default flushedJournal ⟨1, 0, 1024, some 0⟩ (.initial ⟨.filled 1⟩ 2)
    (some ⟨"app.log", none⟩)
  let s₁ := stepped (.message {} (afterLine (.filled 3))) s₀
  let s₂ := stepped (.timeout {}) s₁
  let M := (writer (fun _ => 0) .default).only (LabelCounts fun _ => 3)
  have h₁ : M.step (.running s₀) (.step (.message {} (afterLine (.filled 3)))) (.running s₁) :=
    ⟨rfl, rfl⟩
  have h₂ : M.step (.running s₁) (.step (.timeout {})) (.running s₂) := ⟨trivial, rfl⟩
  have hmem : ∃ e ∈ s₂.stored, e.cursor.journalOffset = 77 ∧ e.journal.file.synced = 0 :=
    ⟨_, List.mem_singleton_self _, rfl, rfl⟩
  obtain ⟨e, he, hoffset, hsynced⟩ := hmem
  obtain ⟨_, -, hcovered⟩ := hclaim _ _ _ _ _ _ _ _ flushed_run rfl open_flushed
    ((Machine.Run.single h₁).snoc h₂)
  obtain ⟨-, hle, -⟩ := hcovered e he
  rw [hoffset, hsynced] at hle
  exact absurd hle (by decide)

end Lvu.Writer
