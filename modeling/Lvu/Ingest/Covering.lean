import Lvu.Ingest.Published

/-!
# What a writer keeps between its checkpoints and its journal

A checkpoint is held until a commit has covered it, and only then written to the cursor file.
`Covers` is what holds between two steps of a writer, whatever the filesystem answers and however
pages and events interleave; `Left` is what is left of it where the writer has failed.

* `commit_ensures` : a commit stores only the checkpoint it has made durable.
* `covering_perform` : every step keeps the invariant.
-/

namespace Lvu.Writer

open Journal Framing Outcome

/-- The bytes of an acquisition among captured records. -/
def capturedBy (acquisitionId : Uuid) (cs : List CapturedRecord) : List UInt8 :=
  (cs.filter (·.acquisitionId = acquisitionId)).flatMap (·.payload)

/-- The bytes of an acquisition among journal records. -/
def recordedBy (acquisitionId : Uuid) (rs : List RawRecord) : List UInt8 :=
  payloads (rs.filter (·.acquisitionId = acquisitionId))

/-- What a writer starts from, and what its checkpoints are to say. -/
structure Setting where
  hash : List UInt8 → UInt32
  source : SourceId
  /-- The path of a file source. -/
  path : Option String
  /-- The records of the journal as it was opened. -/
  old : List RawRecord
  /-- The sequences used before. -/
  issued : List UInt64
  /-- How much of the journal was synced as it was opened. -/
  synced : ℕ
  /-- The cursors that stand where their acquisition had handed over these bytes. -/
  reads : DurableFileCursor → List UInt8 → Prop
  /-- Whether cursors must be within the synced bytes. -/
  strict : Prop

/-- A cursor stands between two frames: `old` and `mine` are before it, and its acquisition had
handed over what `mine` holds of it. -/
def Placed (σ : Setting) (new : List RawRecord) (cursor : DurableFileCursor) : Prop :=
  ∃ mine later, new = mine ++ later ∧
    cursor.journalOffset = (encAll (frame σ.hash) (σ.old ++ mine)).length ∧
    σ.reads cursor (recordedBy cursor.acquisitionId mine)

/-- A cursor file was written behind a journal file of whole frames, with the cursor between two
of them, before any journal call had failed. -/
def Backed (σ : Setting) (e : Stored) : Prop :=
  (∃ new, e.journal.file.bytes = encAll (frame σ.hash) (σ.old ++ new) ∧ Placed σ new e.cursor) ∧
    e.failed = false ∧ (σ.strict → e.cursor.journalOffset ≤ e.journal.file.synced)

/-- What is left of a writer, failed or not: its journal holds `old` and `new`, of the records
handed over `rest` are not in it, and its cursor files are backed by a journal file that has only
grown since. -/
structure Remains (σ : Setting) (s : WriterState) (new : List RawRecord)
    (rest : List CapturedRecord) : Prop where
  live : LiveInv σ.hash σ.source s.journal (σ.old ++ new) σ.issued
  framed : ∃ done, s.handed = done ++ rest ∧ Framed σ.source new done
  stored : ∀ e ∈ s.stored, Backed σ e ∧ e.journal.file.bytes <+: s.journal.file.bytes
  began : encAll (frame σ.hash) σ.old <+: s.journal.file.bytes

/-- What holds of a writer in its loop. -/
structure Covers (σ : Setting) (s : WriterState) (new : List RawRecord)
    (rest : List CapturedRecord) : Prop extends Remains σ s new rest where
  source_eq : s.current.sourceId = σ.source
  path_eq : s.fileCursor.map (·.sourcePath) = σ.path
  pending : s.journal.poisoned = false → ∀ cursor ∈ s.commit.pendingCursor, Placed σ new cursor
  failed : s.journalFailed = true → s.journal.poisoned = true

/-- With nothing appended since the last sync, the whole file is synced, or this writer has not
synced and not appended at all and as many bytes are synced as when it began. -/
def Synced (σ : Setting) (s : WriterState) (new : List RawRecord) : Prop :=
  s.journal.poisoned = false → s.commit.sinceSync = 0 →
    s.journal.file.synced = (encAll (frame σ.hash) (σ.old ++ new)).length ∨
      new = [] ∧ s.current.syncs = 0 ∧ σ.synced ≤ s.journal.file.synced

/-- The invariant of a running writer. -/
def Covering (σ : Setting) (s : WriterState) : Prop := ∃ new, Covers σ s new [] ∧ Synced σ s new

/-- What holds of a writer that has ended. -/
def Left (σ : Setting) (s : WriterState) : Prop := ∃ new rest, Remains σ s new rest

variable {σ : Setting} {config : RuntimeConfig}

variable {s s' : WriterState} {new : List RawRecord} {rest : List CapturedRecord} {j : Journal}

theorem Covering.left (h : Covering σ s) : Left σ s := by
  obtain ⟨new, h, -⟩ := h
  exact ⟨new, [], h.toRemains⟩

/-- What the invariant looks at. -/
def cursorView (s : WriterState) :=
  (s.journal, s.handed, s.commit, s.stored, s.journalFailed, s.current.sourceId, s.current.syncs,
    s.fileCursor)

theorem Covers.congr (h : Covers σ s new rest) (hv : cursorView s' = cursorView s) :
    Covers σ s' new rest := by
  simp only [cursorView, Prod.mk.injEq] at hv
  obtain ⟨hj, hh, hc, hst, hf, hs, -, hp⟩ := hv
  exact {
    live := hj ▸ h.live
    framed := hh ▸ h.framed
    stored := by rw [hst, hj]; exact h.stored
    began := hj ▸ h.began
    source_eq := hs.trans h.source_eq
    path_eq := by rw [hp]; exact h.path_eq
    pending := by rw [hj, hc]; exact h.pending
    failed := by rw [hj, hf]; exact h.failed }

theorem Synced.congr (h : Synced σ s new) (hv : cursorView s' = cursorView s) :
    Synced σ s' new := by
  simp only [cursorView, Prod.mk.injEq] at hv
  obtain ⟨hj, -, hc, -, -, -, hn, -⟩ := hv
  rw [Synced, hj, hc, hn]
  exact h

theorem Left.congr (h : Left σ s) (hj : s'.journal = s.journal) (hh : s'.handed = s.handed)
    (hst : s'.stored = s.stored) : Left σ s' := by
  obtain ⟨new, rest, h⟩ := h
  exact ⟨new, rest, {
    live := hj ▸ h.live
    framed := hh ▸ h.framed
    stored := by rw [hst, hj]; exact h.stored
    began := hj ▸ h.began }⟩

/-- The invariant of a writer whose last commit has succeeded: its journal file is whole. -/
def Committed (σ : Setting) (s : WriterState) : Prop :=
  ∃ new, Covers σ s new [] ∧ Synced σ s new ∧
    s.journal.file.bytes = encAll (frame σ.hash) (σ.old ++ new)

theorem Committed.covering (h : Committed σ s) : Covering σ s := by
  obtain ⟨new, h, hs, -⟩ := h
  exact ⟨new, h, hs⟩

/-- A property of no more than the invariant looks at. -/
def Viewed (I : WriterState → Prop) : Prop :=
  ∀ {s s'}, cursorView s' = cursorView s → I s → I s'

theorem covering_viewed : Viewed (Covering σ) := by
  rintro s s' hv ⟨new, h, hs⟩
  exact ⟨new, h.congr hv, hs.congr hv⟩

theorem committed_viewed : Viewed (Committed σ) := by
  rintro s s' hv ⟨new, h, hs, hbytes⟩
  have hj : s'.journal = s.journal := congrArg Prod.fst hv
  exact ⟨new, h.congr hv, hs.congr hv, by rw [hj]; exact hbytes⟩

section Viewed

variable {I : WriterState → Prop}

theorem Viewed.modify (hI : Viewed I) {f : WriterState → WriterState}
    (hv : ∀ s, cursorView (f s) = cursorView s) : Keeps I (modify f : Op Unit) :=
  .modify fun s h => hI (hv s) h

theorem Viewed.record (hI : Viewed I) (io : StepAnswers) (event : CatalogEvent) :
    Keeps I (Writer.record io event) :=
  .ite (fun _ => hI.modify fun _ => rfl) fun _ => .throw fun _ h => h

theorem Viewed.noteCpu (hI : Viewed I) (io : StepAnswers) (captureWork : Bool) :
    Keeps I (Writer.noteCpu io captureWork) :=
  hI.modify fun _ => rfl

theorem Viewed.publish (hI : Viewed I) : Keeps I Writer.publish := hI.modify fun _ => rfl

end Viewed

theorem Framed.recordedBy_eq {source : SourceId} {rs : List RawRecord} {cs : List CapturedRecord}
    (h : Framed source rs cs) (acquisitionId : Uuid) :
    recordedBy acquisitionId rs = capturedBy acquisitionId cs := by
  induction rs generalizing cs with
  | nil =>
    obtain rfl : cs = [] := List.map_eq_nil_iff.1 h.symm
    rfl
  | cons r rs ih =>
    cases cs with
    | nil => simp [Framed] at h
    | cons c cs =>
      simp only [Framed, List.map_cons, List.cons.injEq] at h
      obtain ⟨hr, hrest⟩ := h
      have ha : r.acquisitionId = c.acquisitionId := congrArg RawRecord.acquisitionId hr
      have hp : r.payload = c.payload := congrArg RawRecord.payload hr
      have := ih hrest
      simp only [recordedBy, capturedBy, List.filter_cons, ha] at this ⊢
      split_ifs
      · simp only [payloads_cons, List.flatMap_cons, hp, this]
      · exact this

/-! ### Journal calls between two steps -/

theorem Remains.journal {s : WriterState} {new : List RawRecord} {rest : List CapturedRecord}
    (h : Remains σ s new rest) {j : Journal} {new' : List RawRecord} {rest' : List CapturedRecord}
    (hl : LiveInv σ.hash σ.source j (σ.old ++ new') σ.issued)
    (hf : ∃ done, s.handed = done ++ rest' ∧ Framed σ.source new' done)
    (hle : s.journal.file.bytes <+: j.file.bytes) (failed : Bool) (current : SourceProgress) :
    Remains σ { s with journal := j, journalFailed := failed, current } new' rest' :=
  ⟨hl, hf, fun e he => ⟨(h.stored e he).1, (h.stored e he).2.trans hle⟩, h.began.trans hle⟩

theorem Covers.failing (h : Covers σ s new rest)
    (hl : LiveInv σ.hash σ.source j (σ.old ++ new) σ.issued)
    (hle : s.journal.file.bytes <+: j.file.bytes) (hp : j.poisoned = true) (failed : Bool) :
    Covers σ { s with journal := j, journalFailed := failed } new rest :=
  { h.toRemains.journal hl h.framed hle failed s.current with
    source_eq := h.source_eq
    path_eq := h.path_eq
    pending := fun h' => absurd h' (by simp [hp])
    failed := fun _ => hp }

theorem Covers.succeeding (h : Covers σ s new rest)
    (hl : LiveInv σ.hash σ.source j (σ.old ++ new) σ.issued)
    (hle : s.journal.file.bytes <+: j.file.bytes) (hp : s.journal.poisoned = false) :
    Covers σ { s with journal := j } new rest :=
  { h.toRemains.journal hl h.framed hle s.journalFailed s.current with
    source_eq := h.source_eq
    path_eq := h.path_eq
    pending := fun _ => h.pending hp
    failed := fun hf => absurd (h.failed hf) (by simp [hp]) }

/-! ### A commit -/

/-- Where cursors must be within the synced bytes: a commit that would store a checkpoint although
nothing was appended since the last sync and this writer has not synced yet finds the journal's
bytes synced from the beginning. -/
def CommitFine (σ : Setting) (io : StepAnswers) (s : WriterState) : Prop :=
  σ.strict → s.commit.sinceSync = 0 → s.commit.pendingCursor ≠ none → s.current.syncs = 0 →
    s.journal.poisoned = false → io.commit.flush = true → io.store ≠ .failBefore →
    (encAll (frame σ.hash) σ.old).length ≤ σ.synced

theorem length_encAll_le (hash : List UInt8 → UInt32) (old mine later : List RawRecord) :
    (encAll (frame hash) (old ++ mine)).length ≤
      (encAll (frame hash) (old ++ (mine ++ later))).length := by
  rw [← List.append_assoc, encAll_append _ later, List.length_append]
  exact Nat.le_add_right _ _

/-- After the first half of a commit: the journal file is whole, and the synced bytes reach up to
a checkpoint that may be stored. -/
def Ready (σ : Setting) (io : StepAnswers) (s : WriterState) : Prop :=
  ∃ new, Covers σ s new [] ∧ Synced σ s new ∧ s.journal.poisoned = false ∧
    s.journal.file.bytes = encAll (frame σ.hash) (σ.old ++ new) ∧
    ∀ cursor ∈ s.commit.pendingCursor, σ.strict → io.store ≠ .failBefore →
      cursor.journalOffset ≤ s.journal.file.synced

theorem makeDurable_ensures (io : StepAnswers) :
    Ensures (fun s => Covering σ s ∧ CommitFine σ io s) (makeDurable io)
      (fun _ => Ready σ io) (Covering σ) := by
  rintro s ⟨⟨new, h, hs⟩, hfine⟩
  have hfail : ∀ {j : Journal}, LiveInv σ.hash σ.source j (σ.old ++ new) σ.issued →
      s.journal.file.bytes <+: j.file.bytes → j.poisoned = true →
      Covering σ { s with journal := j, journalFailed := true } :=
    fun hl hle hp => ⟨new, h.failing hl hle hp true, fun h' => absurd h' (by simp [hp])⟩
  rw [makeDurable, run_get_bind]
  by_cases hsince : 0 < s.commit.sinceSync
  · rw [if_pos hsince]
    cases hp : s.journal.poisoned with
    | true =>
      have hrun : onJournal (Journal.syncData io.commit) s =
          .error (.journal .poisoned) { s with journalFailed := true } := by
        simp only [onJournal, syncData_poisoned _ hp]
      rw [run_bind_error hrun]
      exact hfail h.live List.prefix_rfl hp
    | false =>
      rcases syncData_cases h.live hp io.commit with ⟨j', hj, hp', hb, hfile, hinv⟩ |
        ⟨e, j', hj, -, hp', -, hinv⟩
      · have hrun : onJournal (Journal.syncData io.commit) s = .ok () { s with journal := j' } := by
          simp only [onJournal, hj]
        have hle := (extends_syncData _ io.commit).of_ok List.prefix_rfl hj
        rw [run_bind_ok hrun]
        refine ⟨new, { h.succeeding hinv hle hp with }, fun _ _ => Or.inl (by rw [hfile]), hp',
          by rw [hfile], ?_⟩
        -- everything is synced
        intro cursor hcursor _ _
        obtain ⟨mine, later, rfl, hoff, -⟩ := h.pending hp cursor hcursor
        rw [hoff, hfile]
        exact length_encAll_le σ.hash σ.old mine later
      · have hrun : onJournal (Journal.syncData io.commit) s =
            .error (.journal e) { s with journal := j', journalFailed := true } := by
          simp only [onJournal, hj]
        rw [run_bind_error hrun]
        exact hfail hinv ((extends_syncData _ io.commit).of_error List.prefix_rfl hj) hp'
  · rw [if_neg hsince]
    have hzero : s.commit.sinceSync = 0 := by omega
    cases hp : s.journal.poisoned with
    | true =>
      simp only [onJournal, flush_poisoned _ hp]
      exact hfail h.live List.prefix_rfl hp
    | false =>
      rcases flush_cases h.live hp io.commit with ⟨j', hj, hio, hp', hb, hfile, hinv⟩ |
        ⟨e, j', hj, -, hp', -, hinv⟩
      · simp only [onJournal, hj]
        have hc := h.succeeding hinv ((extends_flush _ io.commit).of_ok List.prefix_rfl hj) hp
        have hsame : j'.file.synced = s.journal.file.synced := by rw [hfile]
        have hs' := hs hp hzero
        rw [← hsame] at hs'
        refine ⟨new, hc, fun _ _ => hs', hp', by rw [hfile], ?_⟩
        intro cursor hcursor hstrict hstore
        obtain ⟨mine, later, rfl, hoff, -⟩ := h.pending hp cursor hcursor
        rw [hoff]
        rcases hs' with hall | ⟨hnil, hsyncs, hle⟩
        · exact (length_encAll_le σ.hash σ.old mine later).trans hall.ge
        · -- nothing of this writer is in the journal: what is synced was so from the beginning
          obtain ⟨rfl, -⟩ := List.append_eq_nil_iff.1 hnil
          rw [List.append_nil]
          have hheld : s.commit.pendingCursor ≠ none := by
            intro hn
            simp [hn] at hcursor
          exact (hfine hstrict hzero hheld hsyncs hp hio hstore).trans hle
      · simp only [onJournal, hj]
        exact hfail hinv ((extends_flush _ io.commit).of_error List.prefix_rfl hj) hp'

theorem storePending_ensures (io : StepAnswers) :
    Ensures (Ready σ io) (storePending io) (fun _ => Committed σ) (Covering σ) := by
  rintro s ⟨new, h, hs, hp, hbytes, hsync⟩
  rw [storePending, run_get_bind]
  cases hcursor : s.commit.pendingCursor with
  | none => exact ⟨new, h, hs, hbytes⟩
  | some cursor =>
    -- with the checkpoint taken, the invariant no longer looks at it
    have htaken : Covers σ { s with commit := { s.commit with pendingCursor := none } } new [] :=
      { h with pending := by simp }
    have hfailed : (s.journalFailed || s.journal.poisoned) = false := by
      have : s.journalFailed = false := by
        by_contra hf
        simp [h.failed (by simpa using hf)] at hp
      simp [this, hp]
    have hbacked : io.store ≠ .failBefore →
        Backed σ ⟨cursor, s.journal, s.journalFailed || s.journal.poisoned⟩ := fun hstore =>
      ⟨⟨new, hbytes, h.pending hp cursor hcursor⟩, hfailed, fun hstrict =>
        hsync cursor hcursor hstrict hstore⟩
    have hstored : io.store ≠ .failBefore → Covers σ { s with
        commit := { s.commit with pendingCursor := none }
        stored := s.stored ++ [⟨cursor, s.journal, s.journalFailed || s.journal.poisoned⟩] }
        new [] := fun hstore =>
      { htaken with
        stored := by
          intro e he
          rcases List.mem_append.1 he with he | he
          · exact h.stored e he
          · rw [List.mem_singleton.1 he]
            exact ⟨hbacked hstore, List.prefix_rfl⟩ }
    simp only [run_modify_bind, store]
    cases hio : io.store with
    | ok =>
      refine ⟨new, { hstored (by simp [hio]) with path_eq := ?_ }, hs, hbytes⟩
      rw [← h.path_eq]
      cases s.fileCursor <;> rfl
    | failBefore => exact ⟨new, htaken, hs⟩
    | failAfter => exact ⟨new, hstored (by simp [hio]), hs⟩

/-- **A commit keeps the invariant**, and so stores only a backed cursor. -/
theorem commit_ensures (io : StepAnswers) :
    Ensures (fun s => Covering σ s ∧ CommitFine σ io s) (commit io) (fun _ => Committed σ)
      (Covering σ) :=
  .bind (makeDurable_ensures io) fun _ => storePending_ensures io

theorem after_commit {α : Type} {x : Op α} (h : Keeps (Committed σ) x) :
    Ensures (Committed σ) x (fun _ => Committed σ) (Covering σ) :=
  h.weaken (fun _ h => h) (fun _ _ h => h) fun _ h => h.covering

/-! ### The other steps -/

theorem covering_finishWriter (io : StepAnswers) (requested : RuntimeState) (discardedBytes : ℕ)
    (known : Bool) :
    Ensures (fun s => Covering σ s ∧ CommitFine σ io s)
      (finishWriter io requested discardedBytes known) (fun _ => Committed σ) (Covering σ) := by
  refine .bind (commit_ensures io) fun _ =>
    .bind (after_commit (committed_viewed.modify fun _ => rfl)) fun _ => after_commit ?_
  cases requested <;> first | exact committed_viewed.record io _ | exact .pure fun _ h => h

/-- The cursor a checkpoint is held as. -/
def heldCursor (s : WriterState) (sourcePath : String) (acquisitionId : Uuid)
    (file : FileResumeCursor) (encoding : FileEncoding) : DurableFileCursor :=
  { schemaVersion := 1, sourceId := s.current.sourceId, path := sourcePath, acquisitionId
    journalOffset := s.journal.writtenBytes, file, encoding }

/-- A checkpoint says where its acquisition stands with what it has handed over. -/
def Announces (σ : Setting) (s : WriterState) : WriterMessage → Prop
  | .event (.fileCheckpoint acquisitionId file encoding) =>
    ∀ state ∈ s.fileCursor,
      σ.reads (heldCursor s state.sourcePath acquisitionId file encoding)
        (capturedBy acquisitionId s.handed)
  | _ => True

theorem covering_handleEvent (io : StepAnswers) (event : CaptureEvent) :
    Ensures (fun s => Covering σ s ∧ Announces σ s (.event event)) (handleEvent io event)
      (fun _ => Covering σ) (Covering σ) := by
  have keeps : ∀ {x : Op Unit}, Keeps (Covering σ) x →
      Ensures (fun s => Covering σ s ∧ Announces σ s (.event event)) x (fun _ => Covering σ)
        (Covering σ) := fun hx => hx.weaken (fun _ h => h.1) (fun _ _ h => h) fun _ h => h
  cases event with
  | boundary acquisitionId reason | commandExit acquisitionId code success
  | error acquisitionId message =>
    exact keeps (.bind (covering_viewed.modify fun _ => rfl) fun _ => covering_viewed.record io _)
  | stopped acquisitionId | records records => exact keeps (.pure fun _ h => h)
  | fileCheckpoint acquisitionId file encoding =>
    rintro s ⟨⟨new, h, hs⟩, hannounce⟩
    rw [handleEvent, checkpoint, run_get_bind]
    cases hstate : s.fileCursor with
    | none => exact ⟨new, h, hs⟩
    | some state =>
      refine ⟨new, { h with pending := fun hp cursor hcursor => ?_ }, hs⟩
      obtain ⟨done, hhanded, hframed⟩ := h.framed
      rw [List.append_nil] at hhanded
      rw [← Option.some.inj hcursor]
      refine ⟨new, [], (List.append_nil _).symm, h.live.written_eq hp, ?_⟩
      rw [hframed.recordedBy_eq, ← hhanded]
      exact hannounce state hstate

theorem covering_handleNonRecord (io : StepAnswers) (message : WriterMessage) :
    Ensures (fun s => Covering σ s ∧ Announces σ s message ∧
        ((∃ state discardedBytes known replyClosed,
          message = .finish state discardedBytes known replyClosed) → CommitFine σ io s))
      (handleNonRecord io message)
      (fun done s => Covering σ s ∧ (done = true → Committed σ s)) (Covering σ) := by
  have goes : ∀ s, Covering σ s → Covering σ s ∧ (false = true → Committed σ s) :=
    fun _ h => ⟨h, fun hf => absurd hf (by decide)⟩
  cases message with
  | event event =>
    refine .bind ((covering_handleEvent io event).weaken (fun _ h => ⟨h.1, h.2.1⟩)
      (fun _ _ h => h) fun _ h => h) fun _ => ?_
    exact .bind (covering_viewed.noteCpu io true) fun _ => .bind covering_viewed.publish fun _ =>
      .pure goes
  | finish state discardedBytes known replyClosed =>
    refine .bind (.attempt ((covering_finishWriter io _ discardedBytes known).weaken
      (fun _ h => ⟨h.1, h.2.2 ⟨_, _, _, _, rfl⟩⟩) (fun _ _ h => h) fun _ h => h)) fun result => ?_
    cases result with
    | ok u =>
      exact .bind (after_commit (committed_viewed.noteCpu io true)) fun _ =>
        .bind (after_commit (committed_viewed.modify fun _ => rfl)) fun _ =>
          .pure fun _ h => ⟨h.covering, fun _ => h⟩
    | error e => exact .bind (covering_viewed.noteCpu io true) fun _ => .pure goes

theorem covering_timedCommit (io : StepAnswers) :
    Ensures (fun s => Covering σ s ∧ CommitFine σ io s) (timedCommit io) (fun _ => Committed σ)
      (Covering σ) :=
  .bind (commit_ensures io) fun _ => after_commit (.bind (committed_viewed.noteCpu io true) fun _ =>
    committed_viewed.publish)

theorem covering_closePath (io : StepAnswers) :
    Ensures (fun s => Covering σ s ∧ CommitFine σ io s) (closePath io) (fun _ => Committed σ)
      (Covering σ) :=
  .bind (commit_ensures io) fun _ => after_commit (.bind (committed_viewed.noteCpu io true) fun _ =>
    .bind (committed_viewed.modify fun _ => rfl) fun _ => .get_bind_keeps fun _ =>
      .bind (committed_viewed.record io _) fun _ => committed_viewed.publish)

/-- A page read moves nothing but the buffer. -/
theorem covering_servePage (io : StepAnswers) (request : PageRequest) :
    Keeps (Covering σ) (servePage σ.hash config io request) := by
  refine .bind (Q := fun _ => Covering σ) ?_ fun _ =>
    .bind (covering_viewed.noteCpu io false) fun _ => .pure fun _ h => h
  rintro s ⟨new, h, hs⟩
  have hread : ∀ j, after (Journal.readPage σ.hash io.page request.offset
      (min request.maxRecords config.maxPageRecords) (min request.maxBytes config.maxPageBytes)
      s.journal) = j → Covering σ { s with journal := j } := by
    rintro _ rfl
    have hl := h.live.readPage io.page request.offset
      (min request.maxRecords config.maxPageRecords) (min request.maxBytes config.maxPageBytes)
    rw [after_readPage] at hl ⊢
    have hpoison := @poisoned_of_after_writeBuffer io.page s.journal
    have hle := (extends_writeBuffer s.journal.file.bytes io.page).after (s := s.journal)
      List.prefix_rfl
    refine ⟨new, { h.toRemains.journal hl h.framed hle s.journalFailed s.current with
      source_eq := h.source_eq
      path_eq := h.path_eq
      pending := fun hp => h.pending (hpoison hp)
      failed := ?_ }, ?_⟩
    · intro hf
      by_contra hp
      have := hpoison (by simpa using hp)
      simp [h.failed hf] at this
    · intro hp hsince
      rw [after_writeBuffer_synced]
      exact hs (hpoison hp) hsince
  unfold readJournal
  split
  · next a j hj => exact hread j (by rw [hj]; rfl)
  · next e j hj => exact hread j (by rw [hj]; rfl)

/-! ### A batch -/

theorem left_storageBlocked (io : StepAnswers) (limit appended : ℕ)
    (rejected : List CapturedRecord) :
    Ensures (Left σ) (storageBlocked io limit appended rejected) (fun _ _ => False) (Left σ) := by
  have keeps : ∀ {f : WriterState → WriterState}, (∀ s, (f s).journal = s.journal) →
      (∀ s, (f s).handed = s.handed) → (∀ s, (f s).stored = s.stored) →
      Keeps (Left σ) (modify f : Op Unit) := fun hj hh hst =>
    .modify fun s h => h.congr (hj s) (hh s) (hst s)
  refine .bind (keeps (fun _ => rfl) (fun _ => rfl) fun _ => rfl) fun _ => .get_bind fun t ht => ?_
  refine .weaken (P := Left σ) ?_ (fun _ h => h ▸ ht) (fun _ _ h => h) fun _ h => h
  refine .bind (.ite (fun _ => keeps (fun _ => rfl) (fun _ => rfl) fun _ => rfl) fun _ =>
    .throw fun _ h => h) fun _ => ?_
  exact .bind (keeps (fun _ => rfl) (fun _ => rfl) fun _ => rfl) fun _ =>
    .bind (keeps (fun _ => rfl) (fun _ => rfl) fun _ => rfl) fun _ => .throw fun _ h => h

theorem Remains.appended {r : CapturedRecord} (h : Remains σ s new (r :: rest)) {q : UInt64}
    (hl : LiveInv σ.hash σ.source j (σ.old ++ new ++ [(r.intoRaw σ.source).withSequence q]) σ.issued)
    (hle : s.journal.file.bytes <+: j.file.bytes) (failed : Bool) (current : SourceProgress) :
    Remains σ { s with journal := j, journalFailed := failed, current }
      (new ++ [(r.intoRaw σ.source).withSequence q]) rest := by
  obtain ⟨done, hhanded, hframed⟩ := h.framed
  refine h.journal (by rwa [← List.append_assoc]) ⟨done ++ [r], ?_, hframed.concat r q⟩ hle failed
    current
  rw [hhanded, List.append_assoc]
  rfl

theorem Covers.appended {r : CapturedRecord} (h : Covers σ s new (r :: rest))
    (hp : s.journal.poisoned = false) {q : UInt64}
    (hl : LiveInv σ.hash σ.source j (σ.old ++ new ++ [(r.intoRaw σ.source).withSequence q]) σ.issued)
    (hle : s.journal.file.bytes <+: j.file.bytes) (current : SourceProgress)
    (hs : current.sourceId = σ.source) :
    Covers σ { s with journal := j, current } (new ++ [(r.intoRaw σ.source).withSequence q]) rest := by
  refine { h.toRemains.appended hl hle s.journalFailed current with
    source_eq := hs
    path_eq := h.path_eq
    pending := fun _ cursor hcursor => ?_
    failed := fun hf => absurd (h.failed hf) (by simp [hp]) }
  obtain ⟨mine, later, rfl, hoff, hfile⟩ := h.pending hp cursor hcursor
  exact ⟨mine, later ++ _, List.append_assoc _ _ _, hoff, hfile⟩

theorem covers_appendLoop {io : StepAnswers} (batch : List CapturedRecord) (appended : ℕ)
    (h : Covers σ s new batch) :
    Holds (fun n s' => (∃ new', Covers σ s' new' []) ∧ n = appended + batch.length)
      (Left σ) (appendLoop σ.hash config io appended batch s) := by
  induction batch generalizing appended s new with
  | nil => exact ⟨⟨new, h⟩, rfl⟩
  | cons r batch ih =>
    rw [appendLoop, run_get_bind]
    cases exceededLimit config s.current.journalBytes r with
    | some limit =>
      exact (left_storageBlocked io limit appended (r :: batch) s ⟨_, _, h.toRemains⟩).bind
        fun _ _ hf => hf.elim
    | none =>
      simp only [run_get_bind, h.source_eq]
      have hext := extends_append σ.hash s.journal.file.bytes (io.append appended)
        (r.intoRaw σ.source)
      rcases append_cases h.live (io.append appended) (r.intoRaw σ.source) with
        ⟨e, seqFile, happ, hinv⟩ | ⟨j', happ, -, -, -, hinv⟩ | ⟨j', happ, hp', -, hp, -, hinv⟩
      · have hrun : onJournal (Journal.append σ.hash (io.append appended) (r.intoRaw σ.source)) s =
            .error (.journal e) { s with
              journal := { s.journal with seqFile }, journalFailed := true } := by
          simp only [onJournal, happ]
        rw [run_bind_error hrun]
        exact ⟨new, r :: batch, h.toRemains.journal hinv h.framed (hext.of_error List.prefix_rfl happ)
          true s.current⟩
      · have hrun : onJournal (Journal.append σ.hash (io.append appended) (r.intoRaw σ.source)) s =
            .error (.journal (.io .other)) { s with journal := j', journalFailed := true } := by
          simp only [onJournal, happ]
        rw [run_bind_error hrun]
        exact ⟨_, batch, h.toRemains.appended hinv (hext.of_error List.prefix_rfl happ) true s.current⟩
      · have hrun : onJournal (Journal.append σ.hash (io.append appended) (r.intoRaw σ.source)) s =
            .ok ⟨σ.source, s.journal.nextSequence⟩ { s with journal := j' } := by
          simp only [onJournal, happ]
        rw [run_bind_ok hrun, run_modify_bind]
        rw [List.length_cons, Nat.add_comm batch.length, ← Nat.add_assoc]
        exact ih (appended + 1)
          (h.appended hp hinv (hext.of_ok List.prefix_rfl happ) _ h.source_eq)

/-- What is left of a batch once its appends are done. -/
theorem covering_afterAppends (io : StepAnswers) {n : ℕ} (hn : 0 < n) :
    Ensures (fun s => ∃ new, Covers σ s new []) (do
        onJournal (Journal.flush io.flush)
        modify fun s => { s with commit := s.commit.appended n }
        commitIfDue io
        noteCpu io true
        copyBack
        publish : Op Unit)
      (fun _ => Covering σ) (Left σ) := by
  refine .bind (Q := fun _ s => ∃ new, Covers σ s new []) ?_ fun _ =>
    .bind (Q := fun _ s => Covering σ s ∧ 0 < s.commit.sinceSync) (.modify ?_) fun _ => ?_
  · rintro s ⟨new, h⟩
    cases hp : s.journal.poisoned with
    | true =>
      simp only [onJournal, flush_poisoned _ hp]
      exact ⟨new, [], h.toRemains.journal h.live h.framed List.prefix_rfl true s.current⟩
    | false =>
      rcases flush_cases h.live hp io.flush with ⟨j', hj, -, hp', hb, hfile, hinv⟩ |
        ⟨e, j', hj, -, -, -, hinv⟩
      · simp only [onJournal, hj]
        exact ⟨new, h.succeeding hinv ((extends_flush _ io.flush).of_ok List.prefix_rfl hj) hp⟩
      · simp only [onJournal, hj]
        exact ⟨new, [], h.toRemains.journal hinv h.framed
          ((extends_flush _ io.flush).of_error List.prefix_rfl hj) true s.current⟩
  · rintro s ⟨new, h⟩
    have hpos : 0 < s.commit.sinceSync + n := by omega
    exact ⟨⟨new, { h with }, fun _ hzero => absurd hzero (Nat.ne_of_gt hpos)⟩, hpos⟩
  · -- something is unsynced: a commit syncs
    refine .bind (Q := fun _ => Covering σ) ?_ fun _ => ?_
    · refine .weaken (E := Covering σ) ?_ (fun _ h => h) (fun _ _ h => h) fun _ h => h.left
      refine .get_bind fun s hs => .ite (fun _ => ?_) fun _ => .pure fun _ h => h ▸ hs.1
      refine (commit_ensures io).weaken ?_ (fun _ _ h => h.covering) fun _ h => h
      rintro _ rfl
      exact ⟨hs.1, fun _ hzero => absurd hzero (Nat.ne_of_gt hs.2)⟩
    · refine .weaken (E := Covering σ) ?_ (fun _ h => h) (fun _ _ h => h) fun _ h => h.left
      refine .bind (covering_viewed.noteCpu io true) fun _ => .bind (covering_viewed.modify fun s => ?_) fun _ =>
        covering_viewed.publish
      split_ifs <;> rfl

/-- A batch keeps the invariant; where it fails the writer ends. -/
theorem covering_appendBatch (io : StepAnswers) {batch : List CapturedRecord} (hne : batch ≠ [])
    (h : Covers σ s new batch) :
    Holds (fun _ => Covering σ) (Left σ) (appendBatch σ.hash config io batch s) := by
  have heq : appendBatch σ.hash config io batch = (do
      let appended ← appendLoop σ.hash config io 0 batch
      onJournal (Journal.flush io.flush)
      modify fun s => { s with commit := s.commit.appended appended }
      commitIfDue io
      noteCpu io true
      copyBack
      publish) := by
    simp only [appendBatch, hne, ↓reduceIte, appendAndCommit, bind_assoc]
  rw [heq]
  refine (covers_appendLoop batch 0 h).bind fun n s' hn => ?_
  obtain ⟨hcovers, rfl⟩ := hn
  have hpos : 0 < 0 + batch.length := by
    have := List.length_pos_of_ne_nil hne
    omega
  exact covering_afterAppends io hpos s' hcovers

/-! ### A step -/

/-- A commit in this state stores a checkpoint although this writer has appended and synced
nothing since it began. -/
def StoresUnsynced (s : WriterState) (io : StepAnswers) : Prop :=
  s.commit.sinceSync = 0 ∧ s.commit.pendingCursor ≠ none ∧ s.current.syncs = 0 ∧
    s.journal.poisoned = false ∧ io.commit.flush = true ∧ io.store ≠ .failBefore

/-- The step makes such a commit. -/
def CommitsUnsynced (s : WriterState) : Step → Prop
  | .overdue io => s.commit.due io.late ∧ StoresUnsynced s io
  | .timeout io => StoresUnsynced s io
  | .message io (.finish _ _ _ _) => StoresUnsynced s io
  | .close io => StoresUnsynced s io
  | _ => False

/-- The checkpoints a step handles say what has been handed over. -/
def StepAnnounces (σ : Setting) (s : WriterState) : Step → Prop
  | .message _ message => Announces σ s message
  | _ => True

/-- **Every step keeps the invariant**; a writer that is done has just committed, and what one
that fails has stored is backed. -/
theorem covering_perform (config : RuntimeConfig) {step : Step} (h : Covering σ s)
    (hannounce : StepAnnounces σ s step)
    (hcommit : σ.strict → CommitsUnsynced s step → (encAll (frame σ.hash) σ.old).length ≤ σ.synced) :
    Holds (fun done s' => Covering σ s' ∧ (done = true → Committed σ s')) (Left σ)
      (perform σ.hash config step s) := by
  have hfine : ∀ {io : StepAnswers}, (StoresUnsynced s io → CommitsUnsynced s step) →
      CommitFine σ io s := fun himp hstrict h1 h2 h3 h4 h5 h6 =>
    hcommit hstrict (himp ⟨h1, h2, h3, h4, h5, h6⟩)
  have goes : ∀ s', Covering σ s' → Covering σ s' ∧ (false = true → Committed σ s') :=
    fun _ h => ⟨h, fun hf => absurd hf (by decide)⟩
  have lift : ∀ {P : WriterState → Prop} {Q : Bool → WriterState → Prop} {x : Op Bool},
      Ensures P x Q (Covering σ) → P s → Holds Q (Left σ) (x s) := fun hx hs =>
    (hx.weaken (fun _ h => h) (fun _ _ h => h) fun _ h => h.left) s hs
  cases step with
  | overdue io =>
    rw [perform, run_get_bind]
    by_cases hdue : s.commit.due io.late = true
    · simp only [hdue]
      exact lift (.bind (covering_timedCommit io) fun _ => .pure fun _ h => goes _ h.covering)
        ⟨h, hfine fun hst => ⟨hdue, hst⟩⟩
    · simp only [hdue]
      exact goes s h
  | timeout io =>
    rw [perform, run_get_bind]
    by_cases hout : s.commit.outstanding = true
    · simp only [hout]
      exact lift (.bind (covering_timedCommit io) fun _ => .pure fun _ h => goes _ h.covering)
        ⟨h, hfine fun hst => hst⟩
    · simp only [hout]
      exact goes s h
  | page io request => exact lift (.bind (covering_servePage io request) fun _ => .pure goes) h
  | message io message =>
    refine lift (covering_handleNonRecord io message) ⟨h, hannounce, ?_⟩
    rintro ⟨state, discardedBytes, known, replyClosed, rfl⟩
    exact hfine fun hst => hst
  | close io =>
    exact lift (.bind (covering_closePath io) fun _ => .pure fun _ h => ⟨h.covering, fun _ => h⟩)
      ⟨h, hfine fun hst => hst⟩
  | batch io handovers =>
    obtain ⟨new, h, hs⟩ := h
    obtain ⟨n, cpu, htake⟩ := forM_takeHandover_run handovers s
    rw [perform, run_bind_ok htake]
    by_cases hne : handovers.flatten = []
    · simp only [appendBatch, hne, ↓reduceIte, List.append_nil]
      exact goes _ ⟨new, h.congr rfl, hs.congr rfl⟩
    · obtain ⟨done, hhanded, hframed⟩ := h.framed
      rw [List.append_nil] at hhanded
      have hc : Covers σ { s with
          handed := s.handed ++ handovers.flatten
          current := { s.current with handovers := n, readerCpuNanos := cpu } } new
          handovers.flatten := { h with framed := ⟨done, by rw [hhanded], hframed⟩ }
      exact (covering_appendBatch io hne hc).bind fun _ s' h => goes s' h

/-- The invariant of a life. -/
def LifeCovering (σ : Setting) : Life → Prop
  | .running s => Covering σ s
  | .returned s => Left σ s

theorem LifeCovering.left {life : Life} (h : LifeCovering σ life) : Left σ life.state := by
  cases life with
  | running s => exact Covering.left h
  | returned s => exact h

theorem lifeCovering_settle {r : EStateM.Result RuntimeError WriterState Bool}
    (h : Holds (fun done s => Covering σ s ∧ (done = true → Committed σ s)) (Left σ) r) :
    LifeCovering σ (settle r) := by
  cases r with
  | ok done s =>
    cases done with
    | false => exact h.1
    | true => exact Covering.left h.1
  | error e s => exact Left.congr h rfl rfl rfl

theorem covering_spawn {recovery : Recovery} {generation : ℕ} {fileCursor : Option FileCursorWriter}
    (hl : LiveInv σ.hash σ.source j σ.old σ.issued)
    (hbegan : encAll (frame σ.hash) σ.old <+: j.file.bytes)
    (hpath : fileCursor.map (·.sourcePath) = σ.path) (hsynced : j.file.synced = σ.synced) :
    Covering σ (spawnWriter config j recovery (.initial σ.source generation) fileCursor) :=
  ⟨[], {
    live := by rwa [List.append_nil]
    framed := ⟨[], rfl, rfl⟩
    stored := by simp [spawnWriter]
    began := hbegan
    source_eq := rfl
    path_eq := hpath
    pending := fun _ _ hc => absurd hc (by simp [spawnWriter, Commit.new])
    failed := by simp [spawnWriter] }, fun _ _ => Or.inr ⟨rfl, rfl, hsynced.ge⟩⟩

end Lvu.Writer
