import Lvu.Shared.Remote

/-!
# Polls of a journal that only grows

A poll of the journal path is two looks at the file: first its identity and length, then its first
record (`lvu-shared/src/tail.rs`).  A tick makes both under the lock; a read makes them before it
takes the lock (`remote.rs`).  Here both looks are steps, and the worker may append between any two
steps, also a part of a frame.

* `readAnchor_append` : appended bytes do not change the first record.
* `polling` : the window of `remote`, with each poll split into its looks.
* `Calm` : what is held was seen of the file as it was, and a tick compares in file order.
* `append_only_window` : a tick never sees a replacement, and a read sees none unless its poll was
  overtaken.
* `append_looks_replaced` : a read whose poll is overtaken fails.
-/

namespace Lvu.Shared.Remote

open List

/-- `FileIdentity::of`: the first look of a poll. -/
structure Look where
  identity : FileIdentity
  fileLen : ℕ

/-- The first look at a file. -/
def File.look (file : File) : Look := ⟨file.identity, file.bytes.length⟩

/-- A read is about to poll. -/
def Reading.polls (reading : Reading) : Bool :=
  match reading.phase with
  | .checked | .read _ _ => true
  | .entered | .polled _ | .queued _ | .permitted _ | .opening _ | .reading _ _ | .fenced _ _
  | .done _ | .orphaned | .dropped => false

/-- The next step of a read takes the lock. -/
def Reading.locks (reading : Reading) : Bool :=
  match reading.phase with
  | .entered | .polled _ | .permitted _ => true
  | .checked | .queued _ | .opening _ | .reading _ _ | .read _ _ | .fenced _ _
  | .done _ | .orphaned | .dropped => false

/-- A window, and the polls of which only the first look is made. -/
structure Polling where
  window : World
  /-- The tick that has the lock and has looked once. -/
  admitted : Option (SourceProgress × Look)
  /-- What the reads have looked at. -/
  looks : ℕ → Option Look

/-- A handle at its start. -/
def Polling.new (file : File) (handle : Handle) : Polling :=
  ⟨.new file handle, none, fun _ => none⟩

/-- What may happen next. -/
inductive Move
  /-- The worker appends to the journal. -/
  | append (bytes : List UInt8)
  /-- `update_progress` up to its first look; it keeps the lock if it goes on. -/
  | attach (session : String) (snapshot : SourceProgress) (answer : Answer)
  /-- The second look of the tick. -/
  | measure (answer : Answer)
  /-- The rest of `update_progress`. -/
  | settle
  /-- A read begins by sampling the epoch. -/
  | begin (offset maxRecords maxBytes : ℕ)
  /-- The first look of a poll of a read. -/
  | look (r : ℕ) (answer : Answer)
  /-- A read goes on; where it polls this is the second look. -/
  | advance (r : ℕ) (answer : Answer)
  /-- The caller drops a read that waits. -/
  | cancel (r : ℕ)

/-- A read goes on with its poll. -/
def World.completes (w : World) (r : ℕ) (reading : Reading) (fresh : Poll) : World :=
  match reading.phase with
  | .read pre served =>
    if classify pre.status fresh.status = .replaced then
      w.goto r reading (.done (.error changedError))
    else w.goto r reading (.fenced pre served)
  | _ => w.goto r reading (.polled fresh)

/-- A tick is refused. -/
def Polling.refuse (p : Polling) : Polling :=
  { p with window := { p.window with ticks := p.window.ticks ++ [false] } }

section
variable (hash : List UInt8 → UInt32)

/-- A poll of a file, after its first look. -/
def pollAfter (source : SourceId) (look : Look) (file : File) (answer : Answer) : Poll :=
  ⟨⟨source, look.fileLen, look.identity, readAnchor hash source file, answer.writerPresent⟩,
    file.incarnation⟩

/-- A poll of the path that is completed now. -/
def Polling.poll (p : Polling) (look : Look) (answer : Answer) : Poll :=
  pollAfter hash p.window.handle.sourceId look p.window.file answer

/-- A step of the window alone. -/
def Polling.inWindow (p : Polling) (e : Event) : Option Polling :=
  (p.window.next hash e).map fun window => { p with window }

/-- The step of a move, where it can happen. -/
def Polling.next (p : Polling) : Move → Option Polling
  | .append bytes => p.inWindow hash (.append bytes)
  | .attach session snapshot answer =>
    if p.window.handle.foreign session snapshot then some p.refuse
    else if p.admitted.isSome ∨ p.window.ticking.isSome then none
    else if stale p.window.handle.state.progress snapshot ∨ answer.failure.isSome then some p.refuse
    else some { p with admitted := some (snapshot, p.window.file.look) }
  | .measure answer => do
    let (snapshot, look) ← p.admitted
    if answer.failure.isSome then some { p.refuse with admitted := none }
    else some { p with
      admitted := none
      window := { p.window with ticking := some (snapshot, p.poll hash look answer) } }
  | .settle => p.inWindow hash .settle
  | .begin offset maxRecords maxBytes => p.inWindow hash (.begin offset maxRecords maxBytes)
  | .look r answer => do
    let reading ← p.window.reads[r]?
    if reading.polls && (p.looks r).isNone then
      match answer.failure with
      | some kind =>
        some { p with window := p.window.goto r reading (.done (.error (.io kind.message))) }
      | none => some { p with looks := Function.update p.looks r (some p.window.file.look) }
    else none
  | .advance r answer => do
    let reading ← p.window.reads[r]?
    if reading.polls then
      let look ← p.looks r
      some { p with
        looks := Function.update p.looks r none
        window := match answer.failure with
          | some kind => p.window.goto r reading (.done (.error (.io kind.message)))
          | none => p.window.completes r reading (p.poll hash look answer) }
    else if reading.locks && p.admitted.isSome then none
    else p.inWindow hash (.advance r answer)
  | .cancel r => p.inWindow hash (.cancel r)

/-- The remote window of a journal that only grows. -/
def polling : Machine Polling Move := .ofFun (Polling.next hash)

/-! ### Comparisons -/

/-- The two polls that a step compares. -/
def Polling.compares (p : Polling) : Move → Option (TailStatus × TailStatus)
  | .settle => do
    let (_, fresh) ← p.window.ticking
    let previous ← p.window.handle.state.previous
    some (previous.status, fresh.status)
  | .advance r answer => do
    let reading ← p.window.reads[r]?
    match reading.phase with
    | .polled pre => do
      let remembered ← p.window.handle.state.fileState
      some (remembered.status, pre.status)
    | .read pre _ => do
      let look ← p.looks r
      if answer.failure.isSome then none
      else some (pre.status, (p.poll hash look answer).status)
    | _ => none
  | .append _ | .attach _ _ _ | .measure _ | .begin _ _ _ | .look _ _ | .cancel _ => none

/-- `classify` answers that the file was replaced. -/
def Alarms (p : Polling) (m : Move) : Prop :=
  ∃ c ∈ p.compares hash m, classify c.1 c.2 = .replaced

end

/-- The remembered poll has seen more of the file than the poll `pre` of a read: more bytes, or a
first record in a file where `pre` has seen bytes but no record. -/
def Overtaken (remembered pre : TailStatus) : Prop :=
  pre.fileLen < remembered.fileLen ∨
    (0 < pre.fileLen ∧ pre.anchor = none ∧ remembered.anchor ≠ none)

instance (remembered pre : TailStatus) : Decidable (Overtaken remembered pre) :=
  inferInstanceAs (Decidable (_ ∨ _))

/-- The read that is about to compare its poll was overtaken. -/
def Reading.overtaken (reading : Reading) (state : RemoteState) : Bool :=
  match reading.phase, state.fileState with
  | .polled pre, some remembered => decide (Overtaken remembered.status pre.status)
  | _, _ => false

/-- **A read compares in file order**: no tick and no other read has remembered more of the file
since the read has polled. -/
def InOrder (p : Polling) : Move → Prop
  | .advance r _ => (p.window.reads[r]?).all fun reading =>
      !reading.overtaken p.window.handle.state
  | .append _ | .attach _ _ _ | .measure _ | .settle | .begin _ _ _ | .look _ _ | .cancel _ => True

instance (p : Polling) (m : Move) : Decidable (InOrder p m) :=
  match m with
  | .advance _ _ => inferInstanceAs (Decidable (_ = true))
  | .append _ | .attach _ _ _ | .measure _ | .settle | .begin _ _ _ | .look _ _ | .cancel _ =>
    .isTrue trivial

/-- No read has failed because the file changed. -/
def Polling.Unfailed (p : Polling) : Prop :=
  ∀ reading ∈ p.window.reads, reading.phase ≠ .done (.error changedError)

/-! ### The first record -/

variable {hash : List UInt8 → UInt32} {source : SourceId} {file : File} {more : List UInt8}

theorem readExact_more {n : ℕ} {bytes : List UInt8} (h : n ≤ bytes.length) (more : List UInt8) :
    Journal.readExact n (bytes ++ more) = Journal.readExact n bytes := by
  have hshort : ¬ bytes.length < n := by omega
  have hlong : ¬ (bytes ++ more).length < n := by
    rw [length_append]
    omega
  simp only [Journal.readExact, hshort, hlong, if_false, take_append_of_le_length h]

/-- A frame that is whole is read the same, whatever follows it. -/
theorem readCompleteFrame_more {bytes : List UInt8} {found : RawRecord × ℕ}
    (h : Journal.readCompleteFrame hash bytes 0 source = .ok found) (more : List UInt8) :
    Journal.readCompleteFrame hash (bytes ++ more) 0 source = .ok found := by
  simp only [Journal.readCompleteFrame, Nat.sub_zero, drop_zero, Nat.zero_add] at h ⊢
  by_cases hhead : bytes.length < Journal.headerSize
  · simp [hhead, throw, throwThe, MonadExceptOf.throw, bind, Except.bind] at h
  · have hmore : ¬ (bytes ++ more).length < Journal.headerSize := by
      rw [length_append]
      omega
    have hheader : Journal.readHeader hash (bytes ++ more) 0 = Journal.readHeader hash bytes 0 := by
      rw [Journal.readHeader, readExact_more (by omega), Journal.readHeader]
    simp only [hhead, hmore, if_false, hheader] at h ⊢
    cases hread : Journal.readHeader hash bytes 0 with
    | error e => simp [hread, bind, Except.bind] at h
    | ok header =>
      rw [hread] at h
      simp only [bind, Except.bind] at h ⊢
      by_cases hbody : bytes.length < Journal.headerSize + header.length
      · simp [hbody, throw, throwThe, MonadExceptOf.throw] at h
      · have hmore : ¬ (bytes ++ more).length < Journal.headerSize + header.length := by
          rw [length_append]
          omega
        have hrest : Journal.readBody hash ((bytes ++ more).drop Journal.headerSize) 0 source header =
            Journal.readBody hash (bytes.drop Journal.headerSize) 0 source header := by
          rw [drop_append_of_le_length (by omega), Journal.readBody, readExact_more ?_,
            Journal.readBody]
          rw [length_drop]
          omega
        simp only [hbody, hmore, if_false, hrest] at h ⊢
        exact h

/-- The anchor is the first frame, if it is whole. -/
theorem readAnchor_eq_some {a : RecordAnchor} :
    readAnchor hash source file = some a ↔ ∃ record frameLen,
      Journal.readCompleteFrame hash file.bytes 0 source = .ok (record, frameLen) ∧
      a = ⟨record.acquisitionId, record.bytes.length⟩ := by
  have hlimits : ¬ (1 = 0 ∨ 64 * 1024 = 0) := by decide
  simp only [readAnchor, Journal.readPageFrom, Nat.not_lt_zero, gt_iff_lt, if_false, hlimits]
  rw [Journal.pageLoop]
  cases hframe : Journal.readCompleteFrame hash file.bytes 0 source with
  | error e =>
    -- of an empty file the page is empty, of another one it is an error
    split_ifs <;> simp [bind, Except.bind, pure, Except.pure]
  | ok found =>
    obtain ⟨record, frameLen⟩ := found
    have hsome : 0 < file.bytes.length := by
      by_contra hempty
      obtain hnil : file.bytes = [] := eq_nil_of_length_eq_zero (by omega)
      rw [hnil] at hframe
      simp [Journal.readCompleteFrame, Journal.headerSize, throw, throwThe, MonadExceptOf.throw, bind,
        Except.bind] at hframe
    have hone : ∀ cursor decoded, Journal.pageLoop hash file.bytes source 1 (64 * 1024) cursor
        decoded [record] = .ok ([record], cursor) := by
      intro cursor decoded
      rw [Journal.pageLoop]
      simp
    simp only [hsome, length_nil, Nat.lt_one_iff, and_self, ↓reduceDIte, ne_eq, not_true,
      false_and, if_false, nil_append, hone]
    split_ifs <;> simp [bind, Except.bind, pure, Except.pure, eq_comm]

/-- **What is appended does not change the first record.** -/
theorem readAnchor_append {a : RecordAnchor} (h : readAnchor hash source file = some a)
    (more : List UInt8) :
    readAnchor hash source { file with bytes := file.bytes ++ more } = some a := by
  obtain ⟨record, frameLen, hframe, ha⟩ := readAnchor_eq_some.1 h
  exact readAnchor_eq_some.2 ⟨record, frameLen, readCompleteFrame_more hframe more, ha⟩

/-- `o` was seen of the file, as it is now or as it was before bytes were appended. -/
structure Seen (hash : List UInt8 → UInt32) (source : SourceId) (file : File) (o : Poll) :
    Prop where
  identity : o.status.identity = file.identity
  fileLen : o.status.fileLen ≤ file.bytes.length
  anchor : ∀ a, o.status.anchor = some a → readAnchor hash source file = some a

variable {o : Poll} {look : Look} {w : World}

theorem Seen.append (h : Seen hash source file o) (more : List UInt8) :
    Seen hash source { file with bytes := file.bytes ++ more } o := by
  refine ⟨h.identity, h.fileLen.trans ?_, fun a ha => readAnchor_append (h.anchor a ha) more⟩
  rw [length_append]
  omega

theorem seen_pollAfter (hidentity : look.identity = file.identity)
    (hlen : look.fileLen ≤ file.bytes.length) (answer : Answer) :
    Seen hash source file (pollAfter hash source look file answer) :=
  ⟨hidentity, hlen, fun _ ha => ha⟩

/-- **A poll that looked no earlier is no replacement.** -/
theorem Seen.classify_pollAfter (h : Seen hash source file o)
    (hidentity : look.identity = file.identity) (hlen : o.status.fileLen ≤ look.fileLen)
    (answer : Answer) :
    classify o.status (pollAfter hash source look file answer).status ≠ .replaced := by
  have hshort : ¬ look.fileLen < o.status.fileLen := by omega
  simp only [classify, pollAfter, h.identity, hidentity, ne_eq, not_true, if_false, hshort]
  cases ha : o.status.anchor with
  | none => simp
  | some a => simp [h.anchor a ha]

theorem Seen.classify_iff {pre : Poll} (h : Seen hash source file o)
    (hpre : Seen hash source file pre) :
    classify o.status pre.status = .replaced ↔ Overtaken o.status pre.status := by
  have hsame : ¬ o.status.identity ≠ pre.status.identity := by
    rw [h.identity, hpre.identity]
    exact fun hne => hne rfl
  simp only [classify, hsame, if_false, Overtaken]
  by_cases hshort : pre.status.fileLen < o.status.fileLen
  · simp [hshort]
  · cases ha : o.status.anchor with
    | none => simp [hshort]
    | some a =>
      cases hb : pre.status.anchor with
      | none => simp [hshort]
      | some b =>
        obtain rfl : a = b := Option.some.inj ((h.anchor a ha).symm.trans (hpre.anchor b hb))
        simp [hshort]

/-! ### What is kept -/

variable {p p' : Polling} {m : Move} {ms : List Move} {w' : World} {looks : ℕ → Option Look}
  {r : ℕ} {reading : Reading} {answer : Answer} {phase : Phase}

/-- A poll the handle remembers. -/
def RemoteState.remembers (state : RemoteState) (o : Poll) : Prop :=
  state.lastStatus = some o ∨ state.fileState = some o

/-- A look at the file, as it is now or as it was before bytes were appended. -/
def Look.of (look : Look) (file : File) : Prop :=
  look.identity = file.identity ∧ look.fileLen ≤ file.bytes.length

theorem look_of (file : File) : file.look.of file := ⟨rfl, le_rfl⟩

theorem Look.of.append (h : look.of file) (more : List UInt8) :
    look.of { file with bytes := file.bytes ++ more } := by
  refine ⟨h.1, h.2.trans ?_⟩
  rw [length_append]
  omega

/-- **Nothing looks replaced to a tick.**  All that is held was seen of the file; the tick that has
the lock looks after everything the handle remembers was seen, and a read looks again after its
first poll. -/
structure Calm (hash : List UInt8 → UInt32) (p : Polling) : Prop where
  seen : ∀ o ∈ p.window.held, Seen hash p.window.handle.sourceId p.window.file o
  exclusive : p.admitted = none ∨ p.window.ticking = none
  admitted : ∀ snapshot look, p.admitted = some (snapshot, look) → look.of p.window.file ∧
    ∀ o, p.window.handle.state.remembers o → o.status.fileLen ≤ look.fileLen
  ticking : ∀ snapshot fresh, p.window.ticking = some (snapshot, fresh) →
    ∀ o, p.window.handle.state.remembers o → classify o.status fresh.status ≠ .replaced
  looks : ∀ r look, p.looks r = some look → look.of p.window.file ∧
    ∀ reading o, p.window.reads[r]? = some reading → reading.pre = some o →
      o.status.fileLen ≤ look.fileLen
  trusted : p.window.handle.state.invalidGeneration = none
  unreplaced : p.window.handle.replacements = 0
  epoch : ∀ reading ∈ p.window.reads, reading.observed = p.window.handle.authority

theorem Calm.remembered (h : Calm hash p) (ho : p.window.handle.state.remembers o) :
    Seen hash p.window.handle.sourceId p.window.file o :=
  h.seen o (mem_held.2 (ho.elim .inl fun ho => .inr (.inl ho)))

theorem Calm.pre (h : Calm hash p) (hread : p.window.reads[r]? = some reading)
    (ho : reading.pre = some o) : Seen hash p.window.handle.sourceId p.window.file o :=
  h.seen o (mem_held.2 (.inr (.inr (.inr ⟨reading, mem_of_getElem? hread, ho⟩))))

/-- The steps of a read keep it, if the read keeps its first poll or has just completed it. -/
theorem Calm.goes (h : Calm hash p) (hread : p.window.reads[r]? = some reading)
    (hfile : w'.file = p.window.file) (hhandle : w'.handle = p.window.handle)
    (hticking : w'.ticking = p.window.ticking)
    (hreads : w'.reads = p.window.reads.set r { reading with phase })
    (hpre : ∀ o, ({ reading with phase } : Reading).pre = some o → reading.pre = some o ∨
      (Seen hash p.window.handle.sourceId p.window.file o ∧ looks r = none))
    (hlooks : ∀ i look, looks i = some look → p.looks i = some look) :
    Calm hash { p with looks, window := w' } := by
  refine ⟨fun o ho => ?_, ?_, ?_, ?_, fun i look hlook => ?_, ?_, ?_, fun reading₁ hr₁ => ?_⟩
  · simp only [hfile, hhandle]
    obtain ho | ho | ho | ⟨reading₁, hr₁, ho⟩ := mem_held.1 ho
    · exact h.seen o (held_status (hhandle ▸ ho))
    · exact h.seen o (held_state (hhandle ▸ ho))
    · exact h.seen o (mem_held.2 (.inr (.inr (.inl (hticking ▸ ho)))))
    · simp only [hreads] at hr₁
      obtain hr₁ | rfl := mem_or_eq_of_mem_set hr₁
      · exact h.seen o (held_read hr₁ ho)
      · obtain ho | ⟨ho, -⟩ := hpre o ho
        · exact h.pre hread ho
        · exact ho
  · simpa only [hticking] using h.exclusive
  · simpa only [hfile, hhandle] using h.admitted
  · simpa only [hticking, hhandle] using h.ticking
  · obtain ⟨hof, hle⟩ := h.looks i look (hlooks i look hlook)
    refine ⟨by simpa only [hfile] using hof, fun reading₁ o hread₁ ho => ?_⟩
    simp only [hreads, getElem?_set] at hread₁
    split_ifs at hread₁ with hir hlt
    · cases hread₁
      subst hir
      obtain ho | ⟨-, hnone⟩ := hpre o ho
      · exact hle reading o hread ho
      · cases hnone.symm.trans hlook
    · exact hle reading₁ o hread₁ ho
  · simpa only [hhandle] using h.trusted
  · simpa only [hhandle] using h.unreplaced
  · simp only [hreads] at hr₁
    simp only [hhandle]
    obtain hr₁ | rfl := mem_or_eq_of_mem_set hr₁
    · exact h.epoch reading₁ hr₁
    · exact h.epoch reading (mem_of_getElem? hread)

/-- The first read establishes what is remembered. -/
theorem Calm.establish (h : Calm hash p) (hread : p.window.reads[r]? = some reading) {pre : Poll}
    (hpre : reading.pre = some pre) (hadmitted : p.admitted = none)
    (hticking : p.window.ticking = none) :
    Calm hash { p with window := { p.window with handle := { p.window.handle with
      state := { p.window.handle.state with fileState := some pre } } } } := by
  refine ⟨fun o ho => ?_, .inl hadmitted, fun snapshot look hlook => ?_,
    fun snapshot fresh hfresh => ?_, h.looks, h.trusted, h.unreplaced, h.epoch⟩
  · obtain ho | ho | ho | ho := mem_held.1 ho
    · exact h.seen o (held_status ho)
    · obtain rfl : pre = o := Option.some.inj ho
      exact h.pre hread hpre
    · exact h.seen o (mem_held.2 (.inr (.inr (.inl ho))))
    · exact h.seen o (mem_held.2 (.inr (.inr (.inr ho))))
  · simp only [hadmitted, reduceCtorEq] at hlook
  · simp only [hticking, reduceCtorEq] at hfresh

/-- What a step of a read does to the handle. -/
theorem advance_handle (h : w.advance hash r reading answer = some w') :
    w'.handle = w.handle ∨ ∃ pre, reading.phase = .polled pre ∧ w.handle.state.fileState = none ∧
      w.ticking = none ∧
      w'.handle = { w.handle with state := { w.handle.state with fileState := some pre } } := by
  unfold World.advance at h
  cases hp : reading.phase with
  | polled pre =>
    simp only [hp] at h
    split_ifs at h with hlock
    split at h
    · split_ifs at h <;> cases h <;> exact .inl rfl
    · rename_i hnone
      cases h
      exact .inr ⟨pre, rfl, hnone, by simpa using hlock, rfl⟩
  | entered | checked | queued _ | permitted _ | opening _ | reading _ _ | read _ _ | fenced _ _
  | done _ | orphaned | dropped =>
    simp only [hp] at h
    (try split at h) <;> (try split at h) <;>
      first | (obtain rfl := Option.some.inj h; exact .inl rfl) | cases h

theorem goes_pre_of_not_polls (hpolls : reading.polls = false)
    (h : Goes hash w reading answer reading.phase phase)
    (ho : ({ reading with phase } : Reading).pre = some o) : reading.pre = some o := by
  unfold Reading.pre at ho ⊢
  unfold Reading.polls at hpolls
  generalize reading.phase = before at h hpolls
  cases h with
  | fails | checks | succeeds | releases => cases ho
  | polls => cases hpolls
  | compares | enters | spawns | opens | serves | fences => exact ho

theorem pre_done {outcome : Except RuntimeError Served}
    (ho : ({ reading with phase := .done outcome } : Reading).pre = some o) :
    reading.pre = some o ∨ (Seen hash p.window.handle.sourceId p.window.file o ∧ looks r = none) := by
  cases ho

theorem forget_looks {i : ℕ} (h : Function.update p.looks r none i = some look) :
    p.looks i = some look := by
  rw [Function.update_apply] at h
  split_ifs at h
  exact h

theorem next_advance {w₁ : World} (hread : w.reads[r]? = some reading)
    (h : w.next hash (.advance r answer) = some w₁) :
    w.advance hash r reading answer = some w₁ := by
  obtain ⟨reading₁, hread₁, h⟩ := Option.bind_eq_some_iff.1 h
  cases hread.symm.trans hread₁
  exact h

theorem inWindow_spec {e : Event} (h : p.inWindow hash e = some p') :
    ∃ w₁, p.window.next hash e = some w₁ ∧ p' = { p with window := w₁ } := by
  obtain ⟨w₁, hw, heq⟩ := Option.map_eq_some_iff.1 h
  exact ⟨w₁, hw, heq.symm⟩

theorem Calm.step (h : Calm hash p) (hst : p.next hash m = some p') : Calm hash p' := by
  cases m with
  | append bytes =>
    obtain ⟨w₁, hw, rfl⟩ := inWindow_spec hst
    cases hw
    refine ⟨fun o ho => (h.seen o ho).append bytes, h.exclusive, fun snapshot look hlook => ?_,
      h.ticking, fun r look hlook => ?_, h.trusted, h.unreplaced, h.epoch⟩
    · obtain ⟨hof, hle⟩ := h.admitted snapshot look hlook
      exact ⟨hof.append bytes, hle⟩
    · obtain ⟨hof, hle⟩ := h.looks r look hlook
      exact ⟨hof.append bytes, hle⟩
  | attach session snapshot answer =>
    simp only [Polling.next] at hst
    split_ifs at hst with hforeign hlock hstale <;> cases hst
    · exact ⟨h.seen, h.exclusive, h.admitted, h.ticking, h.looks, h.trusted, h.unreplaced, h.epoch⟩
    · exact ⟨h.seen, h.exclusive, h.admitted, h.ticking, h.looks, h.trusted, h.unreplaced, h.epoch⟩
    · -- the tick has the lock, so nothing is remembered from here to its comparison
      refine ⟨h.seen, .inr ?_, fun snapshot' look hlook => ?_, h.ticking, h.looks, h.trusted,
        h.unreplaced, h.epoch⟩
      · simpa using (not_or.1 hlock).2
      · cases hlook
        exact ⟨look_of _, fun o ho => (h.remembered ho).fileLen⟩
  | measure answer =>
    obtain ⟨⟨snapshot, look⟩, hlook, hst⟩ := Option.bind_eq_some_iff.1 hst
    obtain ⟨hof, hle⟩ := h.admitted snapshot look hlook
    split_ifs at hst <;> cases hst
    · exact ⟨h.seen, .inl rfl, (fun _ _ hnone => by cases hnone), h.ticking, h.looks, h.trusted,
        h.unreplaced, h.epoch⟩
    · refine ⟨fun o ho => ?_, .inl rfl, (fun _ _ hnone => by cases hnone),
        fun snapshot' fresh hfresh o ho => ?_, h.looks, h.trusted, h.unreplaced, h.epoch⟩
      · obtain ho | rfl := held_polled ho
        · exact h.seen o ho
        · exact seen_pollAfter hof.1 hof.2 answer
      · cases hfresh
        exact (h.remembered ho).classify_pollAfter hof.1 (hle o ho) answer
  | settle =>
    obtain ⟨w₁, hw, rfl⟩ := inWindow_spec hst
    obtain ⟨⟨snapshot, fresh⟩, hticking, hw⟩ := Option.bind_eq_some_iff.1 hw
    cases hw
    have hsees : p.window.handle.sees fresh = false := by
      refine Bool.eq_false_iff.2 fun hsees => ?_
      obtain ⟨o, ho, hreplaced⟩ := (Option.any_eq_true _ _).1 hsees
      have ho : p.window.handle.state.remembers o := by
        obtain ho | ⟨-, ho⟩ := Option.or_eq_some_iff.1 ho
        · exact .inl ho
        · exact .inr ho
      exact h.ticking snapshot fresh hticking o ho (of_decide_eq_true hreplaced)
    have hadmitted : p.admitted = none := by
      obtain hnone | hnone := h.exclusive
      · exact hnone
      · rw [hticking] at hnone
        cases hnone
    have hfresh : Seen hash p.window.handle.sourceId p.window.file fresh :=
      h.seen fresh (held_tick hticking)
    refine ⟨fun o ho => ?_, .inl hadmitted, fun _ look hlook => ?_,
      (fun _ _ hnone => by cases hnone), h.looks, ?_, ?_, fun reading hr => ?_⟩
    · obtain ho | rfl := held_settled ho
      · exact h.seen o ho
      · exact hfresh
    · cases hadmitted.symm.trans hlook
    · simp [Handle.settle, hsees, h.trusted]
    · simpa [Handle.settle, hsees] using h.unreplaced
    · rw [h.epoch reading hr]
      simp [Handle.settle, hsees, h.trusted]
  | begin offset maxRecords maxBytes =>
    obtain ⟨w₁, hw, rfl⟩ := inWindow_spec hst
    cases hw
    refine ⟨fun o ho => h.seen o (held_begun ho), h.exclusive, h.admitted, h.ticking,
      fun r look hlook => ?_, h.trusted, h.unreplaced, fun reading hr => ?_⟩
    · obtain ⟨hof, hle⟩ := h.looks r look hlook
      refine ⟨hof, fun reading o hread ho => ?_⟩
      simp only [getElem?_append] at hread
      split_ifs at hread with hlt
      · exact hle reading o hread ho
      · obtain rfl := mem_singleton.1 (mem_of_getElem? hread)
        cases ho
    · obtain hr | hr := mem_append.1 hr
      · exact h.epoch reading hr
      · obtain rfl := mem_singleton.1 hr
        rfl
  | look r answer =>
    obtain ⟨reading, hread, hst⟩ := Option.bind_eq_some_iff.1 hst
    split_ifs at hst with hpolls
    split at hst <;> cases hst
    · exact h.goes hread rfl rfl rfl rfl (fun o ho => pre_done ho) fun i look hlook => hlook
    · refine ⟨h.seen, h.exclusive, h.admitted, h.ticking, fun i look hlook => ?_, h.trusted,
        h.unreplaced, h.epoch⟩
      simp only [Function.update_apply] at hlook
      split_ifs at hlook with hir
      · -- the read looks after it has polled the first time
        cases hlook
        exact ⟨look_of _, fun reading₁ o hread₁ ho => (h.pre hread₁ ho).fileLen⟩
      · exact h.looks i look hlook
  | advance r answer =>
    obtain ⟨reading, hread, hst⟩ := Option.bind_eq_some_iff.1 hst
    split_ifs at hst with hpolls hlock
    · obtain ⟨look, hlook, hst⟩ := Option.bind_eq_some_iff.1 hst
      cases hst
      obtain ⟨hof, -⟩ := h.looks r look hlook
      have hforgot : Function.update p.looks r none r = none := Function.update_self _ _ _
      have hfresh : Seen hash p.window.handle.sourceId p.window.file (p.poll hash look answer) :=
        seen_pollAfter hof.1 hof.2 answer
      split
      · exact h.goes hread rfl rfl rfl rfl (fun o ho => pre_done ho) fun i look => forget_looks
      · unfold World.completes
        split
        · rename_i pre served hphase
          split_ifs
          · exact h.goes hread rfl rfl rfl rfl (fun o ho => pre_done ho) fun i look => forget_looks
          · refine h.goes hread rfl rfl rfl rfl (fun o ho => .inl ?_) fun i look => forget_looks
            simpa only [Reading.pre, hphase] using ho
        · refine h.goes hread rfl rfl rfl rfl (fun o ho => .inr ?_) fun i look => forget_looks
          obtain rfl : p.poll hash look answer = o := Option.some.inj ho
          exact ⟨hfresh, hforgot⟩
    · obtain ⟨w₁, hw, rfl⟩ := inWindow_spec hst
      have hw := next_advance hread hw
      obtain ⟨phase, hadv⟩ := advance_spec hw
      have hpre : ∀ o, ({ reading with phase } : Reading).pre = some o → reading.pre = some o :=
        fun o ho => goes_pre_of_not_polls (by simpa using hpolls) hadv.goes ho
      obtain hhandle | ⟨pre, hphase, -, hticking, hhandle⟩ := advance_handle hw
      · exact h.goes hread hadv.file hhandle hadv.ticking hadv.reads (fun o ho => .inl (hpre o ho))
          fun i look hlook => hlook
      · have hadmitted : p.admitted = none := by
          simpa [Reading.locks, hphase] using hlock
        have hpolled : reading.pre = some pre := by
          simp only [Reading.pre, hphase]
        have hremembered := h.establish hread hpolled hadmitted hticking
        exact hremembered.goes hread hadv.file hhandle hadv.ticking hadv.reads
          (fun o ho => .inl (hpre o ho)) fun i look hlook => hlook
  | cancel r =>
    obtain ⟨w₁, hw, rfl⟩ := inWindow_spec hst
    obtain ⟨reading, phase, hread, rfl, hphase, -⟩ := cancel_spec hw
    refine h.goes hread rfl rfl rfl rfl (fun o ho => ?_) fun i look hlook => hlook
    obtain rfl | rfl := hphase <;> cases ho

/-! ### Alarms -/

/-- **A step raises an alarm exactly when it is the comparison of a read that was overtaken.** -/
theorem Calm.alarms_iff (h : Calm hash p) : Alarms hash p m ↔ ¬ InOrder p m := by
  cases m with
  | append _ | attach _ _ _ | measure _ | begin _ _ _ | look _ _ | cancel _ =>
    simp [Alarms, InOrder, Polling.compares]
  | settle =>
    simp only [InOrder, not_true, iff_false]
    rintro ⟨c, hc, hreplaced⟩
    obtain ⟨⟨snapshot, fresh⟩, hticking, hc⟩ := Option.bind_eq_some_iff.1 hc
    obtain ⟨previous, hprevious, hc⟩ := Option.bind_eq_some_iff.1 hc
    cases hc
    have hremembered : p.window.handle.state.remembers previous := by
      obtain ho | ⟨-, ho⟩ := Option.or_eq_some_iff.1 hprevious
      · exact .inl ho
      · exact .inr ho
    exact h.ticking snapshot fresh hticking previous hremembered hreplaced
  | advance r answer =>
    cases hread : p.window.reads[r]? with
    | none => simp [Alarms, InOrder, Polling.compares, hread]
    | some reading =>
      simp only [Alarms, InOrder, Polling.compares, hread, Option.bind_eq_bind, Option.bind_some,
        Option.all_some, Bool.not_eq_true', Bool.not_eq_false, Reading.overtaken]
      cases hphase : reading.phase with
      | polled pre =>
        cases hstate : p.window.handle.state.fileState with
        | none => simp
        | some remembered =>
          have hpre := h.pre hread (o := pre) (by simp only [Reading.pre, hphase])
          simp [(h.remembered (.inr hstate)).classify_iff hpre]
      | read pre served =>
        -- the second poll of a read looks after the first
        cases hlook : p.looks r with
        | none => simp
        | some look =>
          have hpre : reading.pre = some pre := by simp only [Reading.pre, hphase]
          obtain ⟨hof, hle⟩ := h.looks r look hlook
          have hsame := (h.pre hread hpre).classify_pollAfter hof.1 (hle reading pre hread hpre) answer
          simpa [Polling.poll] using fun _ => hsame
      | entered | checked | queued _ | permitted _ | opening _ | reading _ _ | fenced _ _ | done _
      | orphaned | dropped => simp

theorem message_ne_changed (kind : IoErrorKind) :
    (Phase.done (.error (.io kind.message)) : Phase) ≠ .done (.error changedError) := by
  cases kind <;> simp [changedError, IoErrorKind.message]

/-- A read that is trusted and not overtaken does not fail for a change. -/
theorem advance_unfailed (h : w.advance hash r reading answer = some w')
    (hpolls : reading.polls = false) (htrusted : w.handle.state.invalidGeneration = none)
    (hepoch : reading.observed = w.handle.authority)
    (hsame : ∀ pre o, reading.phase = .polled pre → w.handle.state.fileState = some o →
      classify o.status pre.status ≠ .replaced) :
    ∃ phase, w'.reads = w.reads.set r { reading with phase } ∧ phase ≠ .done (.error changedError) := by
  unfold World.advance at h
  cases hp : reading.phase with
  | entered | permitted _ =>
    simp only [hp, htrusted, Option.isSome_none, Bool.false_eq_true, if_false] at h
    split_ifs at h
    cases h
    exact ⟨_, rfl, by simp⟩
  | checked | read _ _ => simp [Reading.polls, hp] at hpolls
  | polled pre =>
    simp only [hp] at h
    split_ifs at h
    split at h
    · rename_i remembered hstate
      rw [if_neg (hsame pre remembered hp hstate)] at h
      cases h
      exact ⟨_, rfl, by simp⟩
    · cases h
      exact ⟨_, rfl, by simp⟩
  | queued pre =>
    simp only [hp] at h
    split_ifs at h
    cases h
    exact ⟨_, rfl, by simp⟩
  | opening pre | reading pre opened =>
    simp only [hp] at h
    split at h <;> cases h <;> exact ⟨_, rfl, by simp [changedError]⟩
  | fenced pre served =>
    simp only [hp] at h
    split_ifs at h with hmoved
    · exact absurd hepoch.symm hmoved
    · cases h
      exact ⟨_, rfl, by simp⟩
  | done outcome | dropped => simp only [hp, reduceCtorEq] at h
  | orphaned =>
    simp only [hp] at h
    cases h
    exact ⟨_, rfl, by simp⟩

theorem Polling.Unfailed.goes (h : p.Unfailed)
    (hreads : p'.window.reads = p.window.reads.set r { reading with phase })
    (hphase : phase ≠ .done (.error changedError)) : p'.Unfailed := by
  intro reading₁ hr₁
  rw [hreads] at hr₁
  obtain hr₁ | rfl := mem_or_eq_of_mem_set hr₁
  · exact h reading₁ hr₁
  · exact hphase

theorem Calm.unfailed_step (h : Calm hash p) (hu : p.Unfailed) (horder : InOrder p m)
    (hst : p.next hash m = some p') : p'.Unfailed := by
  have hquiet : ¬ Alarms hash p m := fun halarm => h.alarms_iff.1 halarm horder
  cases m with
  | append bytes =>
    obtain ⟨w₁, hw, rfl⟩ := inWindow_spec hst
    cases hw
    exact hu
  | attach session snapshot answer =>
    simp only [Polling.next] at hst
    split_ifs at hst <;> cases hst <;> exact hu
  | measure answer =>
    obtain ⟨⟨snapshot, look⟩, -, hst⟩ := Option.bind_eq_some_iff.1 hst
    split_ifs at hst <;> cases hst <;> exact hu
  | settle =>
    obtain ⟨w₁, hw, rfl⟩ := inWindow_spec hst
    obtain ⟨⟨snapshot, fresh⟩, -, hw⟩ := Option.bind_eq_some_iff.1 hw
    cases hw
    exact hu
  | begin offset maxRecords maxBytes =>
    obtain ⟨w₁, hw, rfl⟩ := inWindow_spec hst
    cases hw
    intro reading hr
    obtain hr | hr := mem_append.1 hr
    · exact hu reading hr
    · obtain rfl := mem_singleton.1 hr
      exact Phase.noConfusion
  | look r answer =>
    obtain ⟨reading, hread, hst⟩ := Option.bind_eq_some_iff.1 hst
    split_ifs at hst
    split at hst <;> cases hst
    · exact hu.goes rfl (message_ne_changed _)
    · exact hu
  | advance r answer =>
    obtain ⟨reading, hread, hst⟩ := Option.bind_eq_some_iff.1 hst
    split_ifs at hst with hpolls hlock
    · obtain ⟨look, hlook, hst⟩ := Option.bind_eq_some_iff.1 hst
      cases hst
      split
      · exact hu.goes rfl (message_ne_changed _)
      · rename_i hanswer
        unfold World.completes
        split
        · rename_i pre served hphase
          have hsame : classify pre.status (p.poll hash look answer).status ≠ .replaced := by
            refine fun hreplaced => hquiet ⟨(pre.status, _), ?_, hreplaced⟩
            simp [Polling.compares, hread, hphase, hlook, hanswer]
          rw [if_neg hsame]
          exact hu.goes rfl Phase.noConfusion
        · exact hu.goes rfl Phase.noConfusion
    · obtain ⟨w₁, hw, rfl⟩ := inWindow_spec hst
      have hsame : ∀ pre o, reading.phase = .polled pre → p.window.handle.state.fileState = some o →
          classify o.status pre.status ≠ .replaced := by
        refine fun pre o hphase hstate hreplaced => hquiet ⟨(o.status, pre.status), ?_, hreplaced⟩
        simp [Polling.compares, hread, hphase, hstate]
      obtain ⟨phase, hreads, hphase⟩ := advance_unfailed (next_advance hread hw) (by simpa using hpolls)
        h.trusted (h.epoch reading (mem_of_getElem? hread)) hsame
      exact hu.goes hreads hphase
  | cancel r =>
    obtain ⟨w₁, hw, rfl⟩ := inWindow_spec hst
    obtain ⟨reading, phase, -, rfl, hphase, -⟩ := cancel_spec hw
    refine hu.goes rfl ?_
    obtain rfl | rfl := hphase <;> exact Phase.noConfusion

/-! ### Over whole runs -/

theorem calm_new {session : String} {initial : SourceProgress} {maxPageRecords maxPageBytes : ℕ}
    {handle : Handle}
    (hnew : Handle.new source session initial maxPageRecords maxPageBytes = .ok handle) :
    Calm hash (.new file handle) := by
  unfold Handle.new at hnew
  split_ifs at hnew
  cases hnew
  refine ⟨fun o ho => ?_, .inl rfl, fun _ _ hnone => ?_, fun _ _ hnone => ?_, fun _ _ hnone => ?_,
    rfl, rfl, fun _ hr => ?_⟩
  · cases ho
  · cases hnone
  · cases hnone
  · cases hnone
  · cases hr

/-- The runs that meet a condition are those that meet one that is the same where the invariant
holds. -/
theorem only_congr {C D : Polling → Move → Prop} (hCD : ∀ p m, Calm hash p → (C p m ↔ D p m))
    (h₀ : Calm hash p) (h : ((polling hash).only C).Run p ms p') : ((polling hash).only D).Run p ms p' := by
  induction h with
  | nil => exact .nil
  | snoc hrun hst ih =>
    have hcalm := hrun.invariant_only h₀ fun _ _ _ hI _ hst => hI.step hst
    exact ih.snoc ⟨(hCD _ _ hcalm).1 hst.1, hst.2⟩

/-- **An append-only journal never looks replaced to a tick**, and to a read exactly when its poll is
overtaken: whatever is appended and however the polls interleave, no replacement is counted and the
handle is never distrusted; and `classify` answers that the file was replaced nowhere in a run, and
no read fails for a change, if and only if every read of the run compares in file order. -/
theorem append_only_window {session : String} {initial : SourceProgress}
    {maxPageRecords maxPageBytes : ℕ} {handle : Handle}
    (hnew : Handle.new source session initial maxPageRecords maxPageBytes = .ok handle)
    (h : (polling hash).Run (.new file handle) ms p) :
    (p.window.handle.replacements = 0 ∧ p.window.handle.state.invalidGeneration = none) ∧
    ((((polling hash).only fun p m => ¬ Alarms hash p m).Run (.new file handle) ms p ∧ p.Unfailed) ↔
      ((polling hash).only InOrder).Run (.new file handle) ms p) := by
  have h₀ : Calm hash (.new file handle) := calm_new hnew
  have hcalm : Calm hash p := h.invariant h₀ fun _ _ _ hI hst => hI.step hst
  have hiff : ∀ p m, Calm hash p → (¬ Alarms hash p m ↔ InOrder p m) := fun p m hp =>
    not_iff_comm.1 hp.alarms_iff.symm
  refine ⟨⟨hcalm.unreplaced, hcalm.trusted⟩, fun hquiet => only_congr hiff h₀ hquiet.1, fun horder =>
    ⟨only_congr (fun p m hp => (hiff p m hp).symm) h₀ horder, ?_⟩⟩
  have hboth : Calm hash p ∧ p.Unfailed := by
    refine horder.invariant_only (I := fun p => Calm hash p ∧ p.Unfailed) ⟨h₀, ?_⟩ ?_
    · intro reading hr
      cases hr
    · intro p m p' hI hm hst
      exact ⟨hI.1.step hst, hI.1.unfailed_step hI.2 hm hst⟩
  exact hboth.2

/-- The journal of one record, to which another one is appended. -/
def exampleFile : File := ⟨⟨7, 7⟩, exampleBytes, 0⟩

/-- A tick with the progress that is known. -/
def tickMoves : List Move := [.attach "x" (.initial ⟨.filled 1⟩ 0) {}, .measure {}, .settle]

/-- A read between whose looks a frame is cut, and which is ahead of the tick. -/
def orderedMoves : List Move :=
  [.begin 0 8 4096, .advance 0 {}, .look 0 {}, .append (exampleBytes.take 5), .advance 0 {},
      .advance 0 {}] ++ tickMoves
    ++ [.append (exampleBytes.drop 5), .advance 0 {}, .advance 0 {}, .advance 0 {}, .advance 0 {},
      .look 0 {}, .advance 0 {}, .advance 0 {}]

/-- A read that is overtaken: the worker appends and a tick remembers it, between its poll and its
comparison. -/
def overtakenMoves : List Move :=
  [.begin 0 8 4096, .advance 0 {}, .look 0 {}, .advance 0 {}, .append exampleBytes] ++ tickMoves
    ++ [.advance 0 {}]

/-- How many records the reads that are done have returned. -/
def World.pages (w : World) : List ℕ :=
  w.reads.filterMap fun reading => match reading.phase with
    | .done (.ok served) => some served.page.records.length
    | _ => none

/-- A read has failed because the file changed. -/
def World.changed (w : World) (r : ℕ) : Bool :=
  w.reads[r]?.any fun reading => match reading.phase with
    | .done (.error error) => error == changedError
    | _ => false

theorem changed_spec (h : w.changed r = true) :
    ∃ reading ∈ w.reads, reading.phase = .done (.error changedError) := by
  obtain ⟨reading, hread, h⟩ := (Option.any_eq_true _ _).1 h
  refine ⟨reading, mem_of_getElem? hread, ?_⟩
  split at h
  · rename_i error hdone
    rw [hdone, beq_iff_eq.1 h]
  · cases h

/-- A read ahead of a tick serves its page. -/
theorem append_only_window_read : ∃ p,
    (polling fun _ => 0).Run (.new exampleFile exampleHandle) orderedMoves p ∧
    p.window.handle.replacements = 0 ∧ p.Unfailed ∧ p.window.pages = [2] := by
  obtain ⟨p, hrun, hserved⟩ : ∃ p, ((polling fun _ => 0).only InOrder).Run
      (.new exampleFile exampleHandle) orderedMoves p ∧ p.window.pages = [2] :=
    Machine.exists_run_only (by decide +kernel)
  obtain ⟨⟨hnone, -⟩, hiff⟩ := @append_only_window (fun _ => 0) ⟨.filled 1⟩ exampleFile p _ "x"
    (.initial ⟨.filled 1⟩ 0) 8 4096 exampleHandle rfl hrun.of_only
  exact ⟨p, hrun.of_only, hnone, (hiff.2 hrun).2, hserved⟩

/-- **An overtaken read takes an append for a replacement**: the tick has remembered a longer file
than the read has polled. -/
theorem append_looks_replaced : ∃ p,
    (polling fun _ => 0).Run (.new exampleFile exampleHandle) overtakenMoves p ∧
    ¬ p.Unfailed := by
  obtain ⟨p, hrun, hchanged⟩ : ∃ p, (polling fun _ => 0).Run (.new exampleFile exampleHandle)
      overtakenMoves p ∧ p.window.changed 0 = true := Machine.exists_run (by decide +kernel)
  refine ⟨p, hrun, fun hu => ?_⟩
  obtain ⟨reading, hr, hphase⟩ := changed_spec hchanged
  exact hu reading hr hphase

end Lvu.Shared.Remote
