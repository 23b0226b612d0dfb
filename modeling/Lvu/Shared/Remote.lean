import Lvu.Core.Lives
import Lvu.Ingest.Progress

/-!
# The remote window of a journal

A window reads the journal of a worker's capture by path, page by page, and is told the progress of
the capture by status ticks (`lvu-shared/src/remote.rs`, `tail.rs`).  The file at the path may be
replaced at any time: what has been at the path is a sequence of incarnations.

* `classify` : what two polls of the path tell of a replacement.
* `remote` : the handle of a window, with its ticks and its reads, each split where it waits, polls
  or takes the lock.
* `Telling` : whatever poll of an earlier incarnation is held is told apart from the next one.
* `remote_window` : the progress moves forward, a page is of one incarnation, and after a
  replacement no read succeeds without a newer generation.
* `restored_page` : neighbours that differ do not suffice: a file that is put back hides the one
  that was there in between.
-/

namespace Lvu.Shared.Remote

open List

/-! ### Polls -/

structure FileIdentity where
  device : UInt64
  inode : UInt64
deriving DecidableEq

structure RecordAnchor where
  acquisitionId : Uuid
  firstRecordLen : ℕ
deriving DecidableEq

structure TailStatus where
  sourceId : SourceId
  fileLen : ℕ
  identity : FileIdentity
  anchor : Option RecordAnchor
  writerPresent : Bool
deriving DecidableEq

inductive Continuity
  | continuous
  | replaced
deriving DecidableEq

def classify (previous current : TailStatus) : Continuity :=
  if previous.identity ≠ current.identity then .replaced
  else if current.fileLen < previous.fileLen then .replaced
  else match previous.anchor, current.anchor with
  | some before, some after => if before ≠ after then .replaced else .continuous
  | some _, none => if current.fileLen > 0 then .replaced else .continuous
  | none, _ => .continuous

/-- The file at the journal path, and how many were there before it. -/
structure File where
  identity : FileIdentity
  bytes : List UInt8
  incarnation : ℕ

/-- A poll, and the incarnation it was taken of. -/
structure Poll where
  status : TailStatus
  incarnation : ℕ

/-- What the filesystem answers to a step that asks it something. -/
structure Answer where
  /-- The error it fails with. -/
  failure : Option IoErrorKind := none
  /-- A writer holds the journal. -/
  writerPresent : Bool := false
  /-- What a page read across a replacement decodes to. -/
  torn : Except JournalError JournalPage := .error .poisoned

section
variable (hash : List UInt8 → UInt32)

/-- `FileJournalTail::read_anchor`. -/
def readAnchor (source : SourceId) (file : File) : Option RecordAnchor :=
  match Journal.readPageFrom hash file.bytes source 0 1 (64 * 1024) with
  | .ok page => page.records.head?.map fun record => ⟨record.acquisitionId, record.bytes.length⟩
  | .error _ => none

/-- `FileJournalTail::poll_status`, of a file that is there. -/
def pollStatus (source : SourceId) (file : File) (answer : Answer) : Poll :=
  ⟨⟨source, file.bytes.length, file.identity, readAnchor hash source file, answer.writerPresent⟩,
    file.incarnation⟩

end

/-! ### The handle -/

structure RemoteState where
  progress : SourceProgress
  lastStatus : Option Poll
  fileState : Option Poll
  invalidGeneration : Option ℕ

/-- `RemoteSourceHandle`.  The epoch and the count of replacements are natural numbers: they move
once a tick. -/
structure Handle where
  sourceId : SourceId
  workerSession : String
  state : RemoteState
  published : SourceProgress
  authority : ℕ
  maxPageRecords : ℕ
  maxPageBytes : ℕ
  replacements : ℕ

/-- `RemoteSourceHandle::new`. -/
def Handle.new (sourceId : SourceId) (workerSession : String) (initial : SourceProgress)
    (maxPageRecords maxPageBytes : ℕ) : Except String Handle :=
  if initial.sourceId ≠ sourceId then .error "initial snapshot names another source"
  else .ok ⟨sourceId, workerSession, ⟨initial, none, none, none⟩, initial, 0, maxPageRecords,
    maxPageBytes, 0⟩

def changedError : RuntimeError := .io "journal file changed under read; re-anchor via progress fences"

def hwSequence (p : SourceProgress) : Option UInt64 := p.highWatermark.map (·.sequence)

/-- The order of watermarks: none is below everything. -/
def below : Option UInt64 → Option UInt64 → Bool
  | none, some _ => true
  | some a, some b => decide (a < b)
  | _, none => false

/-- The checks of `update_progress` before it takes the lock. -/
def Handle.foreign (handle : Handle) (session : String) (snapshot : SourceProgress) : Bool :=
  handle.workerSession != session || snapshot.sourceId != handle.sourceId

/-- The checks of `update_progress` under the lock, before it polls. -/
def stale (cached snapshot : SourceProgress) : Bool :=
  decide (snapshot.generation < cached.generation) ||
    snapshot.generation == cached.generation && (decide (snapshot.records < cached.records) ||
      below (hwSequence snapshot) (hwSequence cached))

/-- The poll a tick compares with. -/
def RemoteState.previous (state : RemoteState) : Option Poll := state.lastStatus.or state.fileState

/-- The tick has seen a replacement. -/
def Handle.sees (handle : Handle) (fresh : Poll) : Bool :=
  handle.state.previous.any fun previous => classify previous.status fresh.status = .replaced

/-- `update_progress`, from its poll on. -/
def Handle.settle (handle : Handle) (snapshot : SourceProgress) (fresh : Poll) : Handle :=
  let replaced := handle.sees fresh
  let invalid := if replaced ∧ snapshot.generation = handle.state.progress.generation then
    some snapshot.generation else handle.state.invalidGeneration
  -- a newer generation ends the distrust, and moves the epoch if the replacement has not
  let cleared := invalid.any fun held => decide (held < snapshot.generation)
  { handle with
    state := ⟨snapshot, some fresh, some fresh, if cleared then none else invalid⟩
    published := snapshot
    authority := if replaced ∨ cleared then handle.authority + 1 else handle.authority
    replacements := if replaced then handle.replacements + 1 else handle.replacements }

/-! ### Reads -/

/-- A page, with the incarnation that was at the path when the reader opened it and the one that was
when the page was complete. -/
structure Served where
  page : JournalPage
  opened : ℕ
  closed : ℕ

/-- Where a call of `read_page` stands. -/
inductive Phase
  /-- The epoch is sampled. -/
  | entered
  /-- The handle is not distrusted; the poll is next. -/
  | checked
  | polled (pre : Poll)
  /-- Waiting for the gate. -/
  | queued (pre : Poll)
  /-- It has the permit, and looks at the distrust again. -/
  | permitted (pre : Poll)
  | opening (pre : Poll)
  | reading (pre : Poll) (opened : ℕ)
  /-- The page is read; the second poll is next. -/
  | read (pre : Poll) (served : Served)
  /-- The second poll fits; the epoch is next. -/
  | fenced (pre : Poll) (served : Served)
  | done (outcome : Except RuntimeError Served)
  /-- The caller has dropped the read while its page was read. -/
  | orphaned
  | dropped

/-- A call of `read_page`. -/
structure Reading where
  offset : ℕ
  maxRecords : ℕ
  maxBytes : ℕ
  /-- The epoch sampled. -/
  observed : ℕ
  /-- What the handle remembered of the file when the read began. -/
  began : Option Poll
  phase : Phase

/-- The handle of a window, its tick that has the lock, its reads, and the file. -/
structure World where
  file : File
  handle : Handle
  ticking : Option (SourceProgress × Poll)
  /-- What the ticks returned, in order. -/
  ticks : List Bool
  gate : Option ℕ
  reads : List Reading

/-- A handle at its start. -/
def World.new (file : File) (handle : Handle) : World := ⟨file, handle, none, [], none, []⟩

/-- A read goes on. -/
def World.goto (w : World) (r : ℕ) (reading : Reading) (phase : Phase) : World :=
  { w with reads := w.reads.set r { reading with phase } }

/-- What may happen next. -/
inductive Event
  /-- The worker appends to the journal. -/
  | append (bytes : List UInt8)
  /-- The file is replaced, or truncated in place. -/
  | replace (identity : FileIdentity) (bytes : List UInt8)
  /-- `update_progress` up to its poll; it keeps the lock if it goes on. -/
  | tick (session : String) (snapshot : SourceProgress) (answer : Answer)
  /-- The rest of `update_progress`. -/
  | settle
  /-- A read begins by sampling the epoch. -/
  | begin (offset maxRecords maxBytes : ℕ)
  /-- A read goes on. -/
  | advance (r : ℕ) (answer : Answer)
  /-- The caller drops a read that waits. -/
  | cancel (r : ℕ)

section
variable (hash : List UInt8 → UInt32)

/-- A poll of the path now. -/
def World.poll (w : World) (answer : Answer) : Poll := pollStatus hash w.handle.sourceId w.file answer

/-- The next step of a read.  The steps that take the lock wait for the tick that has it. -/
def World.advance (w : World) (r : ℕ) (reading : Reading) (answer : Answer) : Option World :=
  match reading.phase with
  | .entered =>
    if w.ticking.isSome then none
    else if w.handle.state.invalidGeneration.isSome then
      some (w.goto r reading (.done (.error changedError)))
    else some (w.goto r reading .checked)
  | .checked =>
    match answer.failure with
    | some kind => some (w.goto r reading (.done (.error (.io kind.message))))
    | none => some (w.goto r reading (.polled (w.poll hash answer)))
  | .polled pre =>
    if w.ticking.isSome then none
    else match w.handle.state.fileState with
    | some remembered =>
      if classify remembered.status pre.status = .replaced then
        some (w.goto r reading (.done (.error changedError)))
      else some (w.goto r reading (.queued pre))
    | none =>
      some { w.goto r reading (.queued pre) with
        handle := { w.handle with state := { w.handle.state with fileState := some pre } } }
  | .queued pre =>
    if w.gate.isSome then none
    else some { w.goto r reading (.permitted pre) with gate := some r }
  | .permitted pre =>
    if w.ticking.isSome then none
    else if w.handle.state.invalidGeneration.isSome then
      some { w.goto r reading (.done (.error changedError)) with gate := none }
    else some (w.goto r reading (.opening pre))
  | .opening pre =>
    match answer.failure with
    | some kind => some { w.goto r reading (.done (.error (.journal (.io kind)))) with gate := none }
    | none => some (w.goto r reading (.reading pre w.file.incarnation))
  | .reading pre opened =>
    let result : Except JournalError JournalPage := match answer.failure with
      | some kind => .error (.io kind)
      | none =>
        if opened = w.file.incarnation then
          Journal.readPageFrom hash w.file.bytes w.handle.sourceId reading.offset
            (min reading.maxRecords w.handle.maxPageRecords) (min reading.maxBytes w.handle.maxPageBytes)
        else answer.torn
    match result with
    | .error error => some { w.goto r reading (.done (.error (.journal error))) with gate := none }
    | .ok page =>
      some { w.goto r reading (.read pre ⟨page, opened, w.file.incarnation⟩) with gate := none }
  | .read pre served =>
    match answer.failure with
    | some kind => some (w.goto r reading (.done (.error (.io kind.message))))
    | none =>
      if classify pre.status (w.poll hash answer).status = .replaced then
        some (w.goto r reading (.done (.error changedError)))
      else some (w.goto r reading (.fenced pre served))
  | .fenced _ served =>
    if w.handle.authority ≠ reading.observed then some (w.goto r reading (.done (.error changedError)))
    else some (w.goto r reading (.done (.ok served)))
  | .orphaned => some { w.goto r reading .dropped with gate := none }
  | .done _ | .dropped => none

/-- The step of an event, where it can happen. -/
def World.next (w : World) : Event → Option World
  | .append bytes => some { w with file := { w.file with bytes := w.file.bytes ++ bytes } }
  | .replace identity bytes =>
    some { w with file := ⟨identity, bytes, w.file.incarnation + 1⟩ }
  | .tick session snapshot answer =>
    if w.handle.foreign session snapshot then some { w with ticks := w.ticks ++ [false] }
    else if w.ticking.isSome then none
    else if stale w.handle.state.progress snapshot ∨ answer.failure.isSome then
      some { w with ticks := w.ticks ++ [false] }
    else some { w with ticking := some (snapshot, w.poll hash answer) }
  | .settle => do
    let (snapshot, fresh) ← w.ticking
    some { w with handle := w.handle.settle snapshot fresh, ticking := none, ticks := w.ticks ++ [true] }
  | .begin offset maxRecords maxBytes =>
    some { w with reads := w.reads ++
      [⟨offset, maxRecords, maxBytes, w.handle.authority, w.handle.state.fileState, .entered⟩] }
  | .advance r answer => do
    let reading ← w.reads[r]?
    w.advance hash r reading answer
  | .cancel r => do
    let reading ← w.reads[r]?
    match reading.phase with
    | .queued _ => some (w.goto r reading .dropped)
    | .opening _ | .reading _ _ => some (w.goto r reading .orphaned)
    | _ => none

/-- The remote window. -/
def remote : Machine World Event := .ofFun (World.next hash)

/-! ### What a run keeps -/

/-- The first poll of a read, while it is needed. -/
def Reading.pre (reading : Reading) : Option Poll :=
  match reading.phase with
  | .polled pre | .queued pre | .permitted pre | .opening pre | .reading pre _ | .read pre _
  | .fenced pre _ => some pre
  | .entered | .checked | .done _ | .orphaned | .dropped => none

/-- The polls that the handle, its tick and its reads hold. -/
def World.held (w : World) : List Poll :=
  w.handle.state.lastStatus.toList ++ w.handle.state.fileState.toList
    ++ (w.ticking.map (·.2)).toList ++ w.reads.filterMap (·.pre)

/-- A poll taken now tells every poll of an earlier incarnation that is held from the file. -/
def World.tells (w : World) (answer : Answer) : Prop :=
  ∀ o ∈ w.held, o.incarnation ≠ w.file.incarnation →
    classify o.status (w.poll hash answer).status = .replaced

instance (w : World) (answer : Answer) : Decidable (w.tells hash answer) :=
  inferInstanceAs (Decidable (∀ o ∈ w.held, o.incarnation ≠ w.file.incarnation →
    classify o.status (w.poll hash answer).status = .replaced))

/-- **Incarnations are told apart**: not just from the one before, but from every one a poll is held
of, whenever the path is polled. -/
def Telling (w : World) : Event → Prop
  | .tick _ _ answer | .advance _ answer => w.tells hash answer
  | .append _ | .replace _ _ | .settle | .begin _ _ _ | .cancel _ => True

instance (w : World) (e : Event) : Decidable (Telling hash w e) :=
  match e with
  | .tick _ _ answer | .advance _ answer => inferInstanceAs (Decidable (w.tells hash answer))
  | .append _ | .replace _ _ | .settle | .begin _ _ _ | .cancel _ => .isTrue trivial

/-- The generation moves forward, and within one neither the records nor the watermark back. -/
def Forward (p q : SourceProgress) : Prop :=
  p.generation < q.generation ∨
    (p.generation = q.generation ∧ p.records ≤ q.records ∧ below (hwSequence q) (hwSequence p) = false)

/-- A page was read from one incarnation, the one that was remembered when the read began. -/
def OneJournal (w : World) : Prop :=
  ∀ (r : ℕ) (reading : Reading) (served : Served), w.reads[r]? = some reading →
    reading.phase = .done (.ok served) →
    served.opened = served.closed ∧ ∀ b ∈ reading.began, b.incarnation = served.opened

/-- The tick that has the lock has seen a replacement, and brings no newer generation. -/
def World.distrusts (w : World) : Prop :=
  ∃ snapshot fresh, w.ticking = some (snapshot, fresh) ∧ w.handle.sees fresh = true ∧
    snapshot.generation = w.handle.state.progress.generation

end

/-! ### The progress -/

variable {hash : List UInt8 → UInt32} {w w' w'' : World} {e : Event} {es es' : List Event}
  {p q x : SourceProgress} {r : ℕ} {reading : Reading} {answer : Answer} {o : Poll}

theorem below_irrefl (a : Option UInt64) : below a a = false := by
  cases a with
  | none => rfl
  | some a => simp [below]

theorem below_trans {a b c : Option UInt64} (h : below b a = false) (h' : below c b = false) :
    below c a = false := by
  cases a with
  | none => cases c <;> cases b <;> simp_all [below]
  | some a =>
    cases b with
    | none => cases h
    | some b =>
      cases c with
      | none => cases h'
      | some c =>
        simp only [below, decide_eq_false_iff_not, UInt64.not_lt] at h h' ⊢
        exact UInt64.le_trans h h'

theorem Forward.refl (p : SourceProgress) : Forward p p :=
  .inr ⟨rfl, le_rfl, below_irrefl _⟩

theorem Forward.trans (h : Forward p q) (h' : Forward q x) : Forward p x := by
  obtain h | ⟨hg, hr, hw⟩ := h <;> obtain h' | ⟨hg', hr', hw'⟩ := h'
  · exact .inl (h.trans h')
  · exact .inl (hg' ▸ h)
  · exact .inl (hg ▸ h')
  · exact .inr ⟨hg.trans hg', hr.trans hr', below_trans hw hw'⟩

theorem Forward.generation_le (h : Forward p q) : p.generation ≤ q.generation := by
  obtain h | ⟨h, -⟩ := h <;> omega

theorem forward_of_not_stale (h : ¬ stale p q = true) : Forward p q := by
  simp only [stale, Bool.or_eq_true, decide_eq_true_eq, Bool.and_eq_true, beq_iff_eq, not_or,
    not_and, not_lt, Bool.not_eq_true] at h
  obtain ⟨hle, hsame⟩ := h
  obtain hlt | heq := Nat.lt_or_eq_of_le hle
  · exact .inl hlt
  · obtain ⟨hr, hw⟩ := hsame heq.symm
    exact .inr ⟨heq, hr, hw⟩

/-! ### The steps of a read -/

/-- Where a read goes from a phase. -/
inductive Goes (hash : List UInt8 → UInt32) (w : World) (reading : Reading) (answer : Answer) :
    Phase → Phase → Prop
  | fails (phase : Phase) (error : RuntimeError) : Goes hash w reading answer phase (.done (.error error))
  | checks (trusted : w.handle.state.invalidGeneration = none) : Goes hash w reading answer .entered .checked
  | polls : Goes hash w reading answer .checked (.polled (w.poll hash answer))
  | compares {pre : Poll} (same : ∀ o, w.handle.state.fileState = some o →
      classify o.status pre.status ≠ .replaced) : Goes hash w reading answer (.polled pre) (.queued pre)
  | enters {pre : Poll} : Goes hash w reading answer (.queued pre) (.permitted pre)
  | spawns {pre : Poll} : Goes hash w reading answer (.permitted pre) (.opening pre)
  | opens {pre : Poll} :
      Goes hash w reading answer (.opening pre) (.reading pre w.file.incarnation)
  | serves {pre : Poll} {opened : ℕ} {page : JournalPage} :
      Goes hash w reading answer (.reading pre opened) (.read pre ⟨page, opened, w.file.incarnation⟩)
  | fences {pre : Poll} {served : Served}
      (same : classify pre.status (w.poll hash answer).status ≠ .replaced) :
      Goes hash w reading answer (.read pre served) (.fenced pre served)
  | succeeds {pre : Poll} {served : Served} (unmoved : w.handle.authority = reading.observed) :
      Goes hash w reading answer (.fenced pre served) (.done (.ok served))
  | releases : Goes hash w reading answer .orphaned .dropped

/-- A read goes to a phase, and what the step leaves of the rest. -/
structure Moves (w w' : World) (r : ℕ) (reading : Reading) (phase : Phase) : Prop where
  reads : w'.reads = w.reads.set r { reading with phase }
  file : w'.file = w.file
  ticking : w'.ticking = w.ticking
  ticks : w'.ticks = w.ticks
  progress : w'.handle.state.progress = w.handle.state.progress
  invalid : w'.handle.state.invalidGeneration = w.handle.state.invalidGeneration
  lastStatus : w'.handle.state.lastStatus = w.handle.state.lastStatus
  authority : w'.handle.authority = w.handle.authority
  sourceId : w'.handle.sourceId = w.handle.sourceId
  published : w'.handle.published = w.handle.published
  fileState : w'.handle.state.fileState = w.handle.state.fileState ∨
    (w.handle.state.fileState = none ∧ w.ticking = none ∧ w'.handle.state.fileState = reading.pre)

/-- What a step of a read can do. -/
structure Advances (hash : List UInt8 → UInt32) (w w' : World) (r : ℕ) (reading : Reading)
    (answer : Answer) (phase : Phase) : Prop extends Moves w w' r reading phase where
  goes : Goes hash w reading answer reading.phase phase

theorem moves_goto {phase : Phase} {gate : Option ℕ} :
    Moves w { w.goto r reading phase with gate } r reading phase :=
  ⟨rfl, rfl, rfl, rfl, rfl, rfl, rfl, rfl, rfl, rfl, .inl rfl⟩

theorem advances_goto {before phase : Phase} {gate : Option ℕ} (hp : reading.phase = before)
    (h : Goes hash w reading answer before phase) :
    ∃ phase', Advances hash w { w.goto r reading phase with gate } r reading answer phase' :=
  ⟨phase, moves_goto, hp ▸ h⟩

/-- **The steps of a read.** -/
theorem advance_spec (h : w.advance hash r reading answer = some w') :
    ∃ phase, Advances hash w w' r reading answer phase := by
  unfold World.advance at h
  cases hp : reading.phase with
  | entered =>
    simp only [hp] at h
    split_ifs at h with hlock hinvalid <;> cases h
    · exact advances_goto hp (.fails _ _)
    · exact advances_goto hp (.checks (by simpa using hinvalid))
  | checked =>
    simp only [hp] at h
    split at h <;> cases h
    · exact advances_goto hp (.fails _ _)
    · exact advances_goto hp .polls
  | polled pre =>
    simp only [hp] at h
    split_ifs at h with hlock
    split at h
    · rename_i remembered hstate
      split_ifs at h with hreplaced <;> cases h
      · exact advances_goto hp (.fails _ _)
      · refine advances_goto hp (.compares fun o ho => ?_)
        cases hstate.symm.trans ho
        exact hreplaced
    · rename_i hstate
      cases h
      refine ⟨.queued pre, ⟨rfl, rfl, rfl, rfl, rfl, rfl, rfl, rfl, rfl, rfl, .inr ⟨hstate, ?_, ?_⟩⟩,
        hp ▸ .compares fun o ho => ?_⟩
      · simpa using hlock
      · simp only [Reading.pre, hp]
      · rw [hstate] at ho
        cases ho
  | queued pre =>
    simp only [hp] at h
    split_ifs at h
    cases h
    exact advances_goto hp .enters
  | permitted pre =>
    simp only [hp] at h
    split_ifs at h <;> cases h
    · exact advances_goto hp (.fails _ _)
    · exact advances_goto hp .spawns
  | opening pre =>
    simp only [hp] at h
    split at h <;> cases h
    · exact advances_goto hp (.fails _ _)
    · exact advances_goto hp .opens
  | reading pre opened =>
    simp only [hp] at h
    split at h <;> cases h
    · exact advances_goto hp (.fails _ _)
    · exact advances_goto hp .serves
  | read pre served =>
    simp only [hp] at h
    split at h
    · cases h
      exact advances_goto hp (.fails _ _)
    · split_ifs at h with hreplaced <;> cases h
      · exact advances_goto hp (.fails _ _)
      · exact advances_goto hp (.fences hreplaced)
  | fenced pre served =>
    simp only [hp] at h
    split_ifs at h with hmoved <;> cases h
    · exact advances_goto hp (.fails _ _)
    · exact advances_goto hp (.succeeds (not_not.1 hmoved))
  | done outcome | dropped => simp only [hp, reduceCtorEq] at h
  | orphaned =>
    simp only [hp] at h
    cases h
    exact advances_goto hp .releases

/-- A read is cancelled: it gives up what it waits for, or leaves its page behind. -/
theorem cancel_spec (hst : w.next hash (.cancel r) = some w') :
    ∃ reading phase, w.reads[r]? = some reading ∧ w' = w.goto r reading phase ∧
      (phase = .orphaned ∨ phase = .dropped) ∧ ∃ pre, reading.pre = some pre := by
  obtain ⟨reading, hread, hst⟩ := Option.bind_eq_some_iff.1 hst
  split at hst <;> cases hst
  case h_1 hp => exact ⟨reading, .dropped, hread, rfl, .inr rfl, _, by rw [Reading.pre, hp]⟩
  all_goals
    rename_i hp
    exact ⟨reading, .orphaned, hread, rfl, .inl rfl, _, by rw [Reading.pre, hp]⟩

/-! ### The ticks -/

/-- What holds in every run: the previous poll of a tick is the one remembered, and the tick that
has the lock moves forward. -/
structure Ticking (w : World) : Prop where
  one : ∀ o, w.handle.state.lastStatus = some o → w.handle.state.fileState = some o
  pending : ∀ snapshot fresh, w.ticking = some (snapshot, fresh) →
    Forward w.handle.state.progress snapshot
  published : w.handle.published = w.handle.state.progress

theorem Ticking.previous (h : Ticking w) : w.handle.state.previous = w.handle.state.fileState := by
  unfold RemoteState.previous
  cases hl : w.handle.state.lastStatus with
  | none => rfl
  | some o => exact (h.one o hl).symm

theorem Ticking.step (h : Ticking w) (hst : w.next hash e = some w') : Ticking w' := by
  cases e with
  | append bytes | replace identity bytes | begin offset maxRecords maxBytes =>
    cases hst
    exact ⟨h.one, h.pending, h.published⟩
  | tick session snapshot answer =>
    simp only [World.next] at hst
    split_ifs at hst with hforeign hlock hstale <;> cases hst
    · exact ⟨h.one, h.pending, h.published⟩
    · exact ⟨h.one, h.pending, h.published⟩
    · refine ⟨h.one, fun snapshot' fresh hticking => ?_, h.published⟩
      cases hticking
      exact forward_of_not_stale fun hs => hstale (.inl hs)
  | settle =>
    obtain ⟨⟨snapshot, fresh⟩, -, hst⟩ := Option.bind_eq_some_iff.1 hst
    cases hst
    refine ⟨fun o ho => ho, fun _ _ hticking => ?_, rfl⟩
    cases hticking
  | advance r answer =>
    obtain ⟨reading, -, hst⟩ := Option.bind_eq_some_iff.1 hst
    obtain ⟨phase, hadv⟩ := advance_spec hst
    refine ⟨fun o ho => ?_, fun snapshot fresh hticking => ?_, ?_⟩
    · rw [hadv.lastStatus] at ho
      obtain hsame | ⟨hnone, -⟩ := hadv.fileState
      · exact hsame.trans (h.one o ho)
      · rw [h.one o ho] at hnone
        cases hnone
    · rw [hadv.progress]
      exact h.pending snapshot fresh (hadv.ticking ▸ hticking)
    · rw [hadv.published, hadv.progress]
      exact h.published
  | cancel r =>
    obtain ⟨reading, phase, -, rfl, -⟩ := cancel_spec hst
    exact ⟨h.one, h.pending, h.published⟩

/-- A step moves the progress forward. -/
theorem forward_step (h : Ticking w) (hst : w.next hash e = some w') :
    Forward w.handle.state.progress w'.handle.state.progress := by
  cases e with
  | append bytes | replace identity bytes | begin offset maxRecords maxBytes =>
    cases hst
    exact .refl _
  | tick session snapshot answer =>
    simp only [World.next] at hst
    split_ifs at hst <;> cases hst <;> exact .refl _
  | settle =>
    obtain ⟨⟨snapshot, fresh⟩, hticking, hst⟩ := Option.bind_eq_some_iff.1 hst
    cases hst
    exact h.pending snapshot fresh hticking
  | advance r answer =>
    obtain ⟨reading, -, hst⟩ := Option.bind_eq_some_iff.1 hst
    obtain ⟨phase, hadv⟩ := advance_spec hst
    rw [hadv.progress]
    exact .refl _
  | cancel r =>
    obtain ⟨reading, phase, -, rfl, -⟩ := cancel_spec hst
    exact .refl _

theorem forward_run (h : Ticking w) (hrun : (remote hash).Run w es w') :
    Ticking w' ∧ Forward w.handle.state.progress w'.handle.state.progress := by
  refine hrun.invariant (I := fun w' => Ticking w' ∧
    Forward w.handle.state.progress w'.handle.state.progress) ⟨h, .refl _⟩ ?_
  intro w₁ e w₂ hI hst
  exact ⟨hI.1.step hst, hI.2.trans (forward_step hI.1 hst)⟩

/-- A refused snapshot changes nothing. -/
theorem refused_step (hst : w.next hash e = some w') (hrefused : w'.ticks = w.ticks ++ [false]) :
    w' = { w with ticks := w.ticks ++ [false] } := by
  have hnot : w.ticks ≠ w.ticks ++ [false] := fun h => by simpa using congrArg List.length h
  cases e with
  | append bytes | replace identity bytes | begin offset maxRecords maxBytes =>
    cases hst
    exact absurd hrefused hnot
  | tick session snapshot answer =>
    simp only [World.next] at hst
    split_ifs at hst <;> cases hst
    · rfl
    · rfl
    · exact absurd hrefused hnot
  | settle =>
    obtain ⟨⟨snapshot, fresh⟩, hticking, hst⟩ := Option.bind_eq_some_iff.1 hst
    cases hst
    have := append_cancel_left hrefused
    cases this
  | advance r answer =>
    obtain ⟨reading, -, hst⟩ := Option.bind_eq_some_iff.1 hst
    obtain ⟨phase, hadv⟩ := advance_spec hst
    rw [hadv.ticks] at hrefused
    exact absurd hrefused hnot
  | cancel r =>
    obtain ⟨reading, phase, -, rfl, -⟩ := cancel_spec hst
    exact absurd hrefused hnot

/-! ### Distrust -/

/-- From a generation on that is distrusted, the reads after the first `n` have not been let in. -/
structure Distrusted (g n : ℕ) (w : World) : Prop where
  invalid : w.handle.state.invalidGeneration = some g
  reads : ∀ (r : ℕ) (reading : Reading), n ≤ r → w.reads[r]? = some reading →
    reading.phase = .entered ∨ ∃ error, reading.phase = .done (.error error)

theorem Distrusted.step {g n : ℕ} (h : Distrusted g n w) (hst : w.next hash e = some w')
    (hg : w'.handle.state.progress.generation = g) : Distrusted g n w' := by
  cases e with
  | append bytes | replace identity bytes =>
    cases hst
    exact ⟨h.invalid, h.reads⟩
  | tick session snapshot answer =>
    simp only [World.next] at hst
    split_ifs at hst <;> cases hst <;> exact ⟨h.invalid, h.reads⟩
  | settle =>
    obtain ⟨⟨snapshot, fresh⟩, hticking, hst⟩ := Option.bind_eq_some_iff.1 hst
    cases hst
    have hgen : snapshot.generation = g := hg
    refine ⟨?_, h.reads⟩
    simp only [Handle.settle, h.invalid]
    by_cases hsees : w.handle.sees fresh = true ∧
        snapshot.generation = w.handle.state.progress.generation
    · simp [hsees.1, ← hsees.2, hgen]
    · simp only [if_neg hsees]
      simp [hgen]
  | begin offset maxRecords maxBytes =>
    cases hst
    refine ⟨h.invalid, fun r reading hr hread => ?_⟩
    rw [getElem?_append] at hread
    split_ifs at hread with hlt
    · exact h.reads r reading hr hread
    · obtain rfl := mem_singleton.1 (mem_of_getElem? hread)
      exact .inl rfl
  | advance i answer =>
    obtain ⟨reading, hi, hst⟩ := Option.bind_eq_some_iff.1 hst
    obtain ⟨phase, hadv⟩ := advance_spec hst
    refine ⟨hadv.invalid.trans h.invalid, fun r reading' hr hread => ?_⟩
    rw [hadv.reads, getElem?_set] at hread
    split_ifs at hread with hir hlt
    · cases hread
      have hgoes := hadv.goes
      obtain hp | ⟨error, hp⟩ := h.reads i reading (hir ▸ hr) hi <;> rw [hp] at hgoes
      · cases hgoes with
        | fails => exact .inr ⟨_, rfl⟩
        | checks trusted =>
          rw [h.invalid] at trusted
          cases trusted
      · cases hgoes
        exact .inr ⟨_, rfl⟩
    · exact h.reads r reading' hr hread
  | cancel i =>
    obtain ⟨reading, phase, hi, rfl, -, pre, hpre⟩ := cancel_spec hst
    refine ⟨h.invalid, fun r reading' hr hread => ?_⟩
    rw [World.goto, getElem?_set] at hread
    split_ifs at hread with hir hlt
    · obtain hp | ⟨error, hp⟩ := h.reads i reading (hir ▸ hr) hi <;>
        simp only [Reading.pre, hp, reduceCtorEq] at hpre
    · exact h.reads r reading' hr hread

theorem reads_length (hst : w.next hash e = some w') : w.reads.length ≤ w'.reads.length := by
  cases e with
  | append bytes | replace identity bytes =>
    cases hst
    exact le_rfl
  | tick session snapshot answer =>
    simp only [World.next] at hst
    split_ifs at hst <;> cases hst <;> exact le_rfl
  | settle =>
    obtain ⟨⟨snapshot, fresh⟩, -, hst⟩ := Option.bind_eq_some_iff.1 hst
    cases hst
    exact le_rfl
  | begin offset maxRecords maxBytes =>
    cases hst
    simp
  | advance r answer =>
    obtain ⟨reading, -, hst⟩ := Option.bind_eq_some_iff.1 hst
    obtain ⟨phase, hadv⟩ := advance_spec hst
    rw [hadv.reads, length_set]
  | cancel r =>
    obtain ⟨reading, phase, -, rfl, -⟩ := cancel_spec hst
    rw [World.goto, length_set]

/-- **Distrust lasts** as long as the generation does. -/
theorem distrusted_run {g n : ℕ} (ht : Ticking w) (h : Distrusted g n w) (hn : n ≤ w.reads.length)
    (hg : w.handle.state.progress.generation = g) (hrun : (remote hash).Run w es w')
    (hg' : w'.handle.state.progress.generation = g) : Distrusted g n w' := by
  have hall : Ticking w' ∧ g ≤ w'.handle.state.progress.generation ∧ n ≤ w'.reads.length ∧
      (w'.handle.state.progress.generation = g → Distrusted g n w') := by
    refine hrun.invariant (I := fun w' => Ticking w' ∧ g ≤ w'.handle.state.progress.generation ∧
      n ≤ w'.reads.length ∧ (w'.handle.state.progress.generation = g → Distrusted g n w'))
      ⟨ht, hg.ge, hn, fun _ => h⟩ ?_
    rintro w₁ e w₂ ⟨ht₁, hle, hlen, hdis⟩ hst
    have hforward := (forward_step ht₁ hst).generation_le
    refine ⟨ht₁.step hst, hle.trans hforward, hlen.trans (reads_length hst), fun hg₂ => ?_⟩
    exact (hdis (by omega)).step hst hg₂
  exact hall.2.2.2 hg'

theorem distrusted_settle (hd : w.distrusts) (hst : w.next hash .settle = some w') :
    Distrusted w'.handle.state.progress.generation w'.reads.length w' := by
  obtain ⟨snapshot, fresh, hticking, hsees, hsame⟩ := hd
  obtain ⟨⟨snapshot', fresh'⟩, hticking', hst⟩ := Option.bind_eq_some_iff.1 hst
  obtain ⟨rfl, rfl⟩ := Prod.mk.inj (Option.some.inj (hticking.symm.trans hticking'))
  cases hst
  refine ⟨?_, fun r reading hr hread => ?_⟩
  · simp [Handle.settle, hsees, hsame]
  · exact absurd (List.getElem?_eq_some_iff.1 hread).1 (by omega)

/-! ### One incarnation -/

/-- What a read has made sure of, while the epoch it sampled is the present one. -/
def Reading.certain (reading : Reading) (authority file : ℕ) : Prop :=
  (∀ b ∈ reading.began, b.incarnation ≤ file) ∧
  match reading.phase with
  | .polled pre => pre.incarnation ≤ file ∧ ∀ b ∈ reading.began, b.incarnation ≤ pre.incarnation
  | .queued pre | .permitted pre | .opening pre => pre.incarnation ≤ file ∧
    (reading.observed = authority → ∀ b ∈ reading.began, b.incarnation = pre.incarnation)
  | .reading pre opened => pre.incarnation ≤ opened ∧ opened ≤ file ∧
    (reading.observed = authority → ∀ b ∈ reading.began, b.incarnation = pre.incarnation)
  | .read pre served => pre.incarnation ≤ served.opened ∧ served.opened ≤ served.closed ∧
    served.closed ≤ file ∧
    (reading.observed = authority → ∀ b ∈ reading.began, b.incarnation = pre.incarnation)
  | .fenced pre served => served.opened = pre.incarnation ∧ served.closed = pre.incarnation ∧
    (reading.observed = authority → ∀ b ∈ reading.began, b.incarnation = pre.incarnation)
  | .done (.ok served) => served.opened = served.closed ∧
    ∀ b ∈ reading.began, b.incarnation = served.opened
  | .entered | .checked | .done (.error _) | .orphaned | .dropped => True

/-- The polls that are held, and what is known of them. -/
structure Fenced (w : World) : Prop where
  past : ∀ o ∈ w.held, o.incarnation ≤ w.file.incarnation
  told : ∀ o ∈ w.held, ∀ o' ∈ w.held, o.incarnation < o'.incarnation →
    classify o.status o'.status = .replaced
  later : ∀ snapshot fresh, w.ticking = some (snapshot, fresh) → ∀ o,
    w.handle.state.fileState = some o → o.incarnation ≤ fresh.incarnation
  epoch : ∀ reading ∈ w.reads, reading.observed ≤ w.handle.authority
  began : ∀ reading ∈ w.reads, reading.observed = w.handle.authority → ∀ b ∈ reading.began,
    ∃ o, w.handle.state.fileState = some o ∧ o.incarnation = b.incarnation
  certain : ∀ reading ∈ w.reads, reading.certain w.handle.authority w.file.incarnation

theorem mem_held : o ∈ w.held ↔ w.handle.state.lastStatus = some o ∨
    w.handle.state.fileState = some o ∨ (∃ snapshot, w.ticking = some (snapshot, o)) ∨
    ∃ reading ∈ w.reads, reading.pre = some o := by
  simp only [World.held, mem_append, Option.mem_toList, Option.map_eq_some_iff,
    mem_filterMap, Prod.exists, exists_eq_right, or_assoc]

theorem held_status (h : w.handle.state.lastStatus = some o) : o ∈ w.held := mem_held.2 (.inl h)

theorem held_state (h : w.handle.state.fileState = some o) : o ∈ w.held := mem_held.2 (.inr (.inl h))

theorem held_tick {snapshot : SourceProgress} (h : w.ticking = some (snapshot, o)) : o ∈ w.held :=
  mem_held.2 (.inr (.inr (.inl ⟨snapshot, h⟩)))

theorem held_read (hr : reading ∈ w.reads) (h : reading.pre = some o) : o ∈ w.held :=
  mem_held.2 (.inr (.inr (.inr ⟨reading, hr, h⟩)))

theorem held_polled {snapshot : SourceProgress} {fresh : Poll}
    (h : o ∈ World.held { w with ticking := some (snapshot, fresh) }) : o ∈ w.held ∨ o = fresh := by
  obtain h | h | ⟨snapshot', h⟩ | ⟨reading, hr, h⟩ := mem_held.1 h
  · exact .inl (held_status h)
  · exact .inl (held_state h)
  · exact .inr (Prod.mk.inj (Option.some.inj h)).2.symm
  · exact .inl (held_read hr h)

theorem held_settled {snapshot : SourceProgress} {fresh : Poll} {ticks : List Bool}
    (h : o ∈ World.held { w with
      handle := w.handle.settle snapshot fresh, ticking := none, ticks }) :
    o ∈ w.held ∨ o = fresh := by
  obtain h | h | ⟨snapshot', h⟩ | ⟨reading, hr, h⟩ := mem_held.1 h
  · exact .inr (Option.some.inj h).symm
  · exact .inr (Option.some.inj h).symm
  · cases h
  · exact .inl (held_read hr h)

theorem held_begun {offset maxRecords maxBytes authority : ℕ} {began : Option Poll}
    (h : o ∈ World.held { w with reads := w.reads ++
      [⟨offset, maxRecords, maxBytes, authority, began, .entered⟩] }) : o ∈ w.held := by
  obtain h | h | ⟨snapshot, h⟩ | ⟨reading, hr, h⟩ := mem_held.1 h
  · exact held_status h
  · exact held_state h
  · exact held_tick h
  · obtain hr | hr := mem_append.1 hr
    · exact held_read hr h
    · obtain rfl := mem_singleton.1 hr
      cases h

theorem Reading.certain_mono {a a' f f' : ℕ} (reading : Reading) (h : reading.certain a f)
    (hobserved : reading.observed ≤ a) (ha : a ≤ a') (hf : f ≤ f') : reading.certain a' f' := by
  have hepoch : reading.observed = a' → reading.observed = a := fun heq => by omega
  obtain ⟨hbegan, h⟩ := h
  refine ⟨fun b hb => (hbegan b hb).trans hf, ?_⟩
  cases hp : reading.phase with
  | polled pre =>
    simp only [hp] at h ⊢
    exact ⟨h.1.trans hf, h.2⟩
  | queued pre | permitted pre | opening pre =>
    simp only [hp] at h ⊢
    exact ⟨h.1.trans hf, fun heq => h.2 (hepoch heq)⟩
  | reading pre opened =>
    simp only [hp] at h ⊢
    exact ⟨h.1, h.2.1.trans hf, fun heq => h.2.2 (hepoch heq)⟩
  | read pre served =>
    simp only [hp] at h ⊢
    exact ⟨h.1, h.2.1, h.2.2.1.trans hf, fun heq => h.2.2.2 (hepoch heq)⟩
  | fenced pre served =>
    simp only [hp] at h ⊢
    exact ⟨h.1, h.2.1, fun heq => h.2.2 (hepoch heq)⟩
  | done outcome =>
    simp only [hp] at h ⊢
    cases outcome with
    | error error => trivial
    | ok served => exact h
  | entered | checked | orphaned | dropped => trivial

/-- No poll is held but those held before, or one taken now. -/
theorem Fenced.polls (h : Fenced w) (hheld : ∀ o ∈ w'.held, o ∈ w.held ∨ o = w.poll hash answer)
    (htells : w.tells hash answer ∨ ∀ o ∈ w'.held, o ∈ w.held)
    (hfile : w.file.incarnation ≤ w'.file.incarnation) :
    (∀ o ∈ w'.held, o.incarnation ≤ w'.file.incarnation) ∧
    ∀ o ∈ w'.held, ∀ o' ∈ w'.held, o.incarnation < o'.incarnation →
      classify o.status o'.status = .replaced := by
  have hnow : (w.poll hash answer).incarnation = w.file.incarnation := rfl
  refine ⟨fun o ho => ?_, fun o ho o' ho' hlt => ?_⟩
  · obtain ho | rfl := hheld o ho
    · exact (h.past o ho).trans hfile
    · exact hfile
  · obtain htells | hsub := htells
    · obtain ho | rfl := hheld o ho <;> obtain ho' | rfl := hheld o' ho'
      · exact h.told o ho o' ho' hlt
      · exact htells o ho (by omega)
      · have := h.past o' ho'
        omega
      · omega
    · exact h.told o (hsub o ho) o' (hsub o' ho') hlt

theorem Fenced.unpolled (h : Fenced w) (hheld : ∀ o ∈ w'.held, o ∈ w.held)
    (hfile : w.file.incarnation ≤ w'.file.incarnation) :
    (∀ o ∈ w'.held, o.incarnation ≤ w'.file.incarnation) ∧
    ∀ o ∈ w'.held, ∀ o' ∈ w'.held, o.incarnation < o'.incarnation →
      classify o.status o'.status = .replaced :=
  @Fenced.polls (fun _ => 0) w w' {} h (fun o ho => .inl (hheld o ho)) (.inr hheld) hfile

theorem goes_pre {phase : Phase} (h : Goes hash w reading answer reading.phase phase)
    (ho : ({ reading with phase } : Reading).pre = some o) :
    reading.pre = some o ∨ o = w.poll hash answer := by
  unfold Reading.pre at ho ⊢
  generalize reading.phase = before at h
  cases h with
  | fails | checks | succeeds | releases => cases ho
  | polls => exact .inr (Option.some.inj ho).symm
  | compares | enters | spawns | opens | serves | fences => exact .inl ho

/-- What a read makes sure of by a step. -/
theorem Fenced.goes {phase : Phase} (h : Fenced w) (hr : reading ∈ w.reads) (htells : w.tells hash answer)
    (hgoes : Goes hash w reading answer reading.phase phase) :
    ({ reading with phase } : Reading).certain w.handle.authority w.file.incarnation := by
  obtain ⟨hbegan, hcertain⟩ := h.certain reading hr
  refine ⟨hbegan, ?_⟩
  have hheld : ∀ pre, reading.pre = some pre → pre ∈ w.held :=
    fun pre hpre => held_read hr hpre
  unfold Reading.pre at hheld
  have hepoch := h.began reading hr
  generalize reading.phase = before at hgoes hcertain hheld
  cases hgoes with
  | fails | checks | releases => trivial
  | polls => exact ⟨le_rfl, hbegan⟩
  | @compares pre same =>
    refine ⟨hcertain.1, fun heq b hb => ?_⟩
    obtain ⟨o, ho, hob⟩ := hepoch heq b hb
    have hnot : ¬ o.incarnation < pre.incarnation := fun hlt =>
      same o ho (h.told o (held_state ho) pre (hheld pre rfl) hlt)
    have := hcertain.2 b hb
    omega
  | enters | spawns => exact hcertain
  | opens => exact ⟨hcertain.1, le_rfl, hcertain.2⟩
  | serves => exact ⟨hcertain.1, hcertain.2.1, le_rfl, hcertain.2.2⟩
  | @fences pre served same =>
    obtain ⟨hopened, hclosed, hfile, hepoch⟩ := hcertain
    have hnow : pre.incarnation = w.file.incarnation := by
      by_contra hne
      exact same (htells pre (hheld pre rfl) hne)
    exact ⟨by omega, by omega, hepoch⟩
  | succeeds unmoved =>
    obtain ⟨hopened, hclosed, hepoch⟩ := hcertain
    refine ⟨hopened.trans hclosed.symm, fun b hb => ?_⟩
    exact (hepoch unmoved.symm b hb).trans hopened.symm

/-- A poll is taken by a tick. -/
theorem Fenced.polled {snapshot : SourceProgress} (h : Fenced w) (htells : w.tells hash answer) :
    Fenced { w with ticking := some (snapshot, w.poll hash answer) } := by
  obtain ⟨hpast, htold⟩ := h.polls (fun o => @held_polled w o snapshot _) (.inl htells) le_rfl
  refine ⟨hpast, htold, fun snapshot' fresh hticking o ho => ?_, h.epoch, h.began, h.certain⟩
  cases hticking
  exact h.past o (held_state ho)

/-- A tick settles. -/
theorem Fenced.settles {snapshot : SourceProgress} {fresh : Poll} (h : Fenced w) (ht : Ticking w)
    (hticking : w.ticking = some (snapshot, fresh)) :
    Fenced { w with
      handle := w.handle.settle snapshot fresh, ticking := none, ticks := w.ticks ++ [true] } := by
  have hfresh : fresh ∈ w.held := held_tick hticking
  have hheld : ∀ o ∈ World.held { w with
      handle := w.handle.settle snapshot fresh, ticking := none, ticks := w.ticks ++ [true] },
      o ∈ w.held := fun o ho => (held_settled ho).elim id fun heq => heq ▸ hfresh
  have hauthority : w.handle.authority ≤ (w.handle.settle snapshot fresh).authority := by
    simp only [Handle.settle]
    split_ifs <;> omega
  obtain ⟨hpast, htold⟩ := h.unpolled hheld le_rfl
  refine ⟨hpast, htold, fun _ _ hnone => ?_, fun reading hr => (h.epoch reading hr).trans hauthority,
    fun reading hr heq b hb => ?_, fun reading hr =>
      reading.certain_mono (h.certain reading hr) (h.epoch reading hr) hauthority le_rfl⟩
  · cases hnone
  · have hle := h.epoch reading hr
    have heq : reading.observed = (w.handle.settle snapshot fresh).authority := heq
    have hsame : (w.handle.settle snapshot fresh).authority = w.handle.authority :=
      le_antisymm (heq ▸ hle) hauthority
    obtain ⟨o, ho, hob⟩ := h.began reading hr (heq.trans hsame) b hb
    refine ⟨fresh, rfl, ?_⟩
    -- the epoch has not moved, so the tick has seen no replacement
    have hsees : w.handle.sees fresh = false := by
      by_contra hsees
      have hsees : w.handle.sees fresh = true := by simpa using hsees
      simp only [Handle.settle, hsees, true_or, if_true] at hsame
      omega
    have hnot : ¬ o.incarnation < fresh.incarnation := by
      intro hlt
      have hreplaced := h.told o (held_state ho) fresh hfresh hlt
      simp [Handle.sees, ht.previous, ho, hreplaced] at hsees
    have := h.later snapshot fresh hticking o ho
    omega

/-- A read begins. -/
theorem Fenced.begins {offset maxRecords maxBytes : ℕ} (h : Fenced w) :
    Fenced { w with reads := w.reads ++
      [⟨offset, maxRecords, maxBytes, w.handle.authority, w.handle.state.fileState, .entered⟩] } := by
  obtain ⟨hpast, htold⟩ := h.unpolled (fun o => held_begun) le_rfl
  refine ⟨hpast, htold, h.later, forall_mem_append.2 ⟨h.epoch, forall_mem_singleton.2 le_rfl⟩,
    forall_mem_append.2 ⟨h.began, forall_mem_singleton.2 fun _ b hb => ⟨b, hb, rfl⟩⟩,
    forall_mem_append.2 ⟨h.certain, forall_mem_singleton.2 ⟨fun b hb => ?_, trivial⟩⟩⟩
  exact h.past b (held_state hb)

/-- A read goes to another phase, of which it is certain. -/
theorem Fenced.moves {phase : Phase} (h : Fenced w) (hread : w.reads[r]? = some reading)
    (hmoves : Moves w w' r reading phase)
    (htells : w.tells hash answer ∨ ({ reading with phase } : Reading).pre = none)
    (hpre : ∀ o, ({ reading with phase } : Reading).pre = some o →
      reading.pre = some o ∨ o = w.poll hash answer)
    (hcertain : ({ reading with phase } : Reading).certain w.handle.authority w.file.incarnation) :
    Fenced w' := by
  have hr : reading ∈ w.reads := mem_of_getElem? hread
  have hstate : ∀ o, w'.handle.state.fileState = some o → w.handle.state.fileState = some o ∨
      (w.handle.state.fileState = none ∧ w.ticking = none ∧ reading.pre = some o) := by
    intro o ho
    obtain hsame | ⟨hnone, hfree, hpre⟩ := hmoves.fileState
    · exact .inl (hsame ▸ ho)
    · exact .inr ⟨hnone, hfree, hpre ▸ ho⟩
  have hheld : ∀ o ∈ w'.held, o ∈ w.held ∨ ({ reading with phase } : Reading).pre = some o := by
    intro o ho
    obtain ho | ho | ho | ⟨reading₁, hr₁, ho⟩ := mem_held.1 ho
    · exact .inl (held_status (hmoves.lastStatus ▸ ho))
    · obtain ho | ⟨-, -, ho⟩ := hstate o ho
      · exact .inl (held_state ho)
      · exact .inl (held_read hr ho)
    · exact .inl (mem_held.2 (.inr (.inr (.inl (hmoves.ticking ▸ ho)))))
    · obtain hr₁ | rfl := mem_or_eq_of_mem_set (hmoves.reads ▸ hr₁)
      · exact .inl (held_read hr₁ ho)
      · exact .inr ho
  obtain ⟨hpast, htold⟩ := h.polls (fun o ho => (hheld o ho).elim .inl fun ho =>
      (hpre o ho).imp_left fun ho => held_read hr ho)
    (htells.imp_right fun hnone o ho => (hheld o ho).resolve_right (by simp [hnone]))
    (by rw [hmoves.file])
  have hreads : ∀ {p : Reading → Prop}, (∀ reading₁ ∈ w.reads, p reading₁) →
      p { reading with phase } → ∀ reading₁ ∈ w'.reads, p reading₁ := by
    intro p hold hnew reading₁ hr₁
    obtain hr₁ | rfl := mem_or_eq_of_mem_set (hmoves.reads ▸ hr₁)
    · exact hold reading₁ hr₁
    · exact hnew
  refine ⟨hpast, htold, fun snapshot fresh hticking o ho => ?_, ?_, ?_, ?_⟩
  · rw [hmoves.ticking] at hticking
    obtain ho | ⟨-, hfree, -⟩ := hstate o ho
    · exact h.later snapshot fresh hticking o ho
    · rw [hfree] at hticking
      cases hticking
  · rw [hmoves.authority]
    exact hreads h.epoch (h.epoch reading hr)
  · rw [hmoves.authority]
    intro reading₁ hr₁ heq b hb
    obtain ⟨o, ho, hob⟩ := hreads h.began (h.began reading hr) reading₁ hr₁ heq b hb
    obtain hsame | ⟨hnone, -⟩ := hmoves.fileState
    · exact ⟨o, hsame.trans ho, hob⟩
    · rw [ho] at hnone
      cases hnone
  · rw [hmoves.authority, hmoves.file]
    exact hreads h.certain hcertain

theorem Fenced.step (h : Fenced w) (ht : Ticking w) (htells : Telling hash w e)
    (hst : w.next hash e = some w') : Fenced w' := by
  cases e with
  | append bytes =>
    cases hst
    exact ⟨h.past, h.told, h.later, h.epoch, h.began, h.certain⟩
  | replace identity bytes =>
    cases hst
    refine ⟨fun o ho => (h.past o ho).trans (Nat.le_succ _), h.told, h.later, h.epoch, h.began,
      fun reading hr => ?_⟩
    exact reading.certain_mono (h.certain reading hr) (h.epoch reading hr) le_rfl (Nat.le_succ _)
  | tick session snapshot answer =>
    simp only [World.next] at hst
    split_ifs at hst <;> cases hst
    · exact ⟨h.past, h.told, h.later, h.epoch, h.began, h.certain⟩
    · exact ⟨h.past, h.told, h.later, h.epoch, h.began, h.certain⟩
    · exact h.polled htells
  | settle =>
    obtain ⟨⟨snapshot, fresh⟩, hticking, hst⟩ := Option.bind_eq_some_iff.1 hst
    cases hst
    exact h.settles ht hticking
  | begin offset maxRecords maxBytes =>
    cases hst
    exact h.begins
  | advance r answer =>
    obtain ⟨reading, hread, hst⟩ := Option.bind_eq_some_iff.1 hst
    obtain ⟨phase, hadv⟩ := advance_spec hst
    exact h.moves hread hadv.toMoves (.inl htells) (fun o => goes_pre hadv.goes)
      (h.goes (mem_of_getElem? hread) htells hadv.goes)
  | cancel r =>
    obtain ⟨reading, phase, hread, rfl, hphase, -⟩ := cancel_spec hst
    have hpre : ({ reading with phase } : Reading).pre = none := by
      obtain rfl | rfl := hphase <;> rfl
    refine @Fenced.moves (fun _ => 0) w _ r reading {} phase h hread moves_goto (.inr hpre)
      (fun o ho => ?_) ⟨(h.certain reading (mem_of_getElem? hread)).1, ?_⟩
    · rw [hpre] at ho
      cases ho
    · obtain rfl | rfl := hphase <;> trivial

/-! ### Over whole runs -/

variable {file : File} {source : SourceId} {session : String} {initial : SourceProgress}
  {maxPageRecords maxPageBytes : ℕ} {handle : Handle}

theorem ticking_new
    (hnew : Handle.new source session initial maxPageRecords maxPageBytes = .ok handle) :
    Ticking (.new file handle) := by
  unfold Handle.new at hnew
  split_ifs at hnew
  cases hnew
  refine ⟨fun o ho => ?_, fun _ _ hticking => ?_, rfl⟩
  · cases ho
  · cases hticking

theorem fenced_new
    (hnew : Handle.new source session initial maxPageRecords maxPageBytes = .ok handle) :
    Fenced (.new file handle) := by
  unfold Handle.new at hnew
  split_ifs at hnew
  cases hnew
  refine ⟨fun o ho => ?_, fun o ho => ?_, fun _ _ hticking => ?_, fun _ hr => ?_, fun _ hr => ?_,
    fun _ hr => ?_⟩
  · cases ho
  · cases ho
  · cases hticking
  · cases hr
  · cases hr
  · cases hr

theorem Fenced.oneJournal (h : Fenced w) : OneJournal w := by
  intro r reading served hread hdone
  have hcertain := (h.certain reading (mem_of_getElem? hread)).2
  simp only [hdone] at hcertain
  exact hcertain

/-- **A remote window never mixes two journals.**  The progress it shows moves forward, and a
snapshot it refuses changes nothing; while incarnations are told apart, a page is of one of them,
the one that was remembered; and once a tick has seen a replacement without a newer generation, no
read that starts afterwards succeeds before there is one. -/
theorem remote_window
    (hnew : Handle.new source session initial maxPageRecords maxPageBytes = .ok handle) :
    (∀ es w es' w', (remote hash).Run (.new file handle) es w → (remote hash).Run w es' w' →
      Forward w.handle.state.progress w'.handle.state.progress ∧
      w'.handle.published = w'.handle.state.progress) ∧
    (∀ w e w', (remote hash).step w e w' → w'.ticks = w.ticks ++ [false] →
      w' = { w with ticks := w.ticks ++ [false] }) ∧
    (∀ es w, ((remote hash).only (Telling hash)).Run (.new file handle) es w → OneJournal w) ∧
    ∀ es w w' es' w'', (remote hash).Run (.new file handle) es w → w.distrusts →
      (remote hash).step w .settle w' → (remote hash).Run w' es' w'' →
      w''.handle.state.progress.generation = w'.handle.state.progress.generation →
      ∀ (r : ℕ) (reading : Reading) (served : Served), w'.reads.length ≤ r →
        w''.reads[r]? = some reading → reading.phase ≠ .done (.ok served) := by
  have ht := @ticking_new file _ _ _ _ _ _ hnew
  refine ⟨fun es w es' w' h h' => ?_, fun w e w' hst => refused_step hst, fun es w h => ?_, ?_⟩
  · obtain ⟨ht₁, -⟩ := forward_run ht h
    obtain ⟨ht₂, hforward⟩ := forward_run ht₁ h'
    exact ⟨hforward, ht₂.published⟩
  · have hboth : Fenced w ∧ Ticking w :=
      h.invariant_only (I := fun w => Fenced w ∧ Ticking w) ⟨fenced_new hnew, ht⟩
        fun w e w' hI htells hst => ⟨hI.1.step hI.2 htells hst, hI.2.step hst⟩
    exact hboth.1.oneJournal
  · intro es w w' es' w'' h hd hst h' hg r reading served hr hread hdone
    obtain ⟨ht₁, -⟩ := forward_run ht h
    have hdis := distrusted_run (ht₁.step hst) (distrusted_settle hd hst) le_rfl rfl h' hg
    obtain hp | ⟨error, hp⟩ := hdis.reads r reading hr hread
    · rw [hdone] at hp
      cases hp
    · rw [hdone] at hp
      cases hp

/-! ### A file that is put back -/

/-- Every file differs from the one it replaces: in its identity, in its first record, or by being
shorter. -/
def Neighbours (hash : List UInt8 → UInt32) (w : World) : Event → Prop
  | .replace identity bytes => identity ≠ w.file.identity ∨ bytes.length < w.file.bytes.length ∨
    readAnchor hash w.handle.sourceId ⟨identity, bytes, 0⟩ ≠ readAnchor hash w.handle.sourceId w.file
  | .append _ | .tick _ _ _ | .settle | .begin _ _ _ | .advance _ _ | .cancel _ => True

instance (hash : List UInt8 → UInt32) (w : World) (e : Event) : Decidable (Neighbours hash w e) :=
  match e with
  | .replace identity bytes => inferInstanceAs (Decidable
    (identity ≠ w.file.identity ∨ bytes.length < w.file.bytes.length ∨
      readAnchor hash w.handle.sourceId ⟨identity, bytes, 0⟩ ≠ readAnchor hash w.handle.sourceId w.file))
  | .append _ | .tick _ _ _ | .settle | .begin _ _ _ | .advance _ _ | .cancel _ => .isTrue trivial

/-- A journal of one record. -/
def exampleBytes : List UInt8 := Journal.frame (fun _ => 0) Journal.tornRecord

/-- A window onto it. -/
def exampleHandle : Handle :=
  ⟨⟨.filled 1⟩, "x", ⟨.initial ⟨.filled 1⟩ 0, none, none, none⟩, .initial ⟨.filled 1⟩ 0, 0, 8, 4096, 0⟩

/-- A tick remembers the file, and a read gets to where it opens it. -/
def openingEvents : List Event :=
  [.tick "x" (.initial ⟨.filled 1⟩ 0) {}, .settle, .begin 0 8 4096, .advance 0 {}, .advance 0 {},
    .advance 0 {}, .advance 0 {}, .advance 0 {}]

/-- The file is replaced under the read, which its second poll refuses; a tick of a newer generation
remembers the new file, and another read is through. -/
def replacedEvents : List Event :=
  openingEvents ++ [.replace ⟨7, 8⟩ exampleBytes, .advance 0 {}, .advance 0 {}, .advance 0 {},
    .tick "x" (.initial ⟨.filled 1⟩ 1) {}, .settle, .begin 0 8 4096] ++
    List.replicate 9 (.advance 1 {})

/-- The page is read from a file that was there in between. -/
def restoredEvents : List Event :=
  openingEvents ++ [.replace ⟨7, 8⟩ exampleBytes, .advance 0 {}, .advance 0 {},
    .replace ⟨7, 7⟩ exampleBytes, .advance 0 {}, .advance 0 {}]

/-- A read that has returned a page of an incarnation. -/
def World.returned (w : World) (r incarnation began : ℕ) : Bool :=
  w.reads[r]?.any fun reading =>
    (match reading.phase with
      | .done (.ok served) => served.opened == incarnation && served.closed == incarnation
      | _ => false) && reading.began.any fun b => b.incarnation == began

theorem returned_spec {r incarnation began : ℕ} (h : w.returned r incarnation began = true) :
    ∃ reading served b, w.reads[r]? = some reading ∧ reading.phase = .done (.ok served) ∧
      served.opened = incarnation ∧ served.closed = incarnation ∧ b ∈ reading.began ∧
      b.incarnation = began := by
  obtain ⟨reading, hread, h⟩ := (Option.any_eq_true _ _).1 h
  obtain ⟨hphase, hbegan⟩ := Bool.and_eq_true_iff.1 h
  obtain ⟨b, hb, hb'⟩ := (Option.any_eq_true _ _).1 hbegan
  split at hphase
  · rename_i served hdone
    obtain ⟨hopened, hclosed⟩ := Bool.and_eq_true_iff.1 hphase
    exact ⟨reading, served, b, hread, hdone, beq_iff_eq.1 hopened, beq_iff_eq.1 hclosed, hb, beq_iff_eq.1 hb'⟩
  · cases hphase

/-- A read that has failed. -/
def World.refused (w : World) (r : ℕ) : Bool :=
  w.reads[r]?.any fun reading => match reading.phase with
    | .done (.error _) => true
    | _ => false

/-- A replacement between two reads: the page of the second one is of the new file. -/
theorem remote_window_read : ∃ w, ((remote fun _ => 0).only (Telling fun _ => 0)).Run
    (.new ⟨⟨7, 7⟩, exampleBytes, 0⟩ exampleHandle) replacedEvents w ∧
    w.refused 0 = true ∧ w.returned 1 1 1 = true ∧ OneJournal w := by
  obtain ⟨w, hrun, hrefused, hreturned⟩ : ∃ w, ((remote fun _ => 0).only (Telling fun _ => 0)).Run
      (.new ⟨⟨7, 7⟩, exampleBytes, 0⟩ exampleHandle) replacedEvents w ∧
      w.refused 0 = true ∧ w.returned 1 1 1 = true := Machine.exists_run_only (by decide +kernel)
  obtain ⟨-, -, hone, -⟩ := @remote_window (fun _ => 0) ⟨⟨7, 7⟩, exampleBytes, 0⟩ ⟨.filled 1⟩ "x"
    (.initial ⟨.filled 1⟩ 0) 8 4096 exampleHandle rfl
  exact ⟨w, hrun, hrefused, hreturned, hone _ _ hrun⟩

/-- **A file that is put back hides the one that was there in between**: both polls of the read see
the file that is remembered, and the page is of the other one. -/
theorem restored_page : ∃ w, ((remote fun _ => 0).only (Neighbours fun _ => 0)).Run
    (.new ⟨⟨7, 7⟩, exampleBytes, 0⟩ exampleHandle) restoredEvents w ∧ ¬ OneJournal w := by
  obtain ⟨w, hrun, hreturned⟩ : ∃ w, ((remote fun _ => 0).only (Neighbours fun _ => 0)).Run
      (.new ⟨⟨7, 7⟩, exampleBytes, 0⟩ exampleHandle) restoredEvents w ∧ w.returned 0 1 0 = true :=
    Machine.exists_run_only (by decide +kernel)
  refine ⟨w, hrun, fun hone => ?_⟩
  obtain ⟨reading, served, b, hread, hdone, hopened, -, hb, hb'⟩ := returned_spec hreturned
  have hsame := (hone 0 reading served hread hdone).2 b hb
  rw [hb', hopened] at hsame
  cases hsame

end Lvu.Shared.Remote
