import Lvu.Machine.Run
import Lvu.View.Folding
import Lvu.View.Order

/-!
# The folded view

A view shows its stream of rows folded.  It feeds them to the fold engine page by page, from an
anchor on, and remembers what it has fed; it starts again when the view's revision has changed
(`lvu-view/src/lib.rs`).

* `prepareFold`, `advanceFold`, `foldPlan` : one page request.
* `Sound` : what the engine holds is what stands in the stream.
* `display_perm` : the folded display then has each row once.
* `display_partitions` : it does in every run, as long as no publication moves, under the revision
  that is applied, a row that has been fed, and every eviction is intact.
* `stale_fold` : a late record under the applied revision moves one.
-/

namespace Lvu.View.Fold

open List

/-! ### The stream -/

/-- The row that stands for an entry of the order: a record, or the first of a group. -/
def rowAt (m : Membership) (e : ℕ × ℕ) : Option RowId :=
  (m.sources[e.1]?).bind fun source =>
    (if m.grouped then (source.groups[e.2]?).map (·.start) else some e.2).bind fun record =>
      (source.sequences[record]?).map fun sequence => (source.sourceId, sequence)

/-- `membership_ids`, and the rows of `membership_groups`. -/
def membershipIds (m : Membership) (start len : ℕ) : List RowId :=
  ((m.order.drop start).take len).filterMap (rowAt m)

def membershipDisplayCount (m : Membership) : ℕ := unitTotal m.sources m.grouped

def groupIndexForSequence (groups : List GroupRange) (record : ℕ) : Option ℕ :=
  let boundary := (groups.takeWhile (·.start ≤ record)).length
  if boundary = 0 then none
  else (groups[boundary - 1]?).bind fun group =>
    if record < group.start + group.len then some (boundary - 1) else none

/-- `membership_index` and `membership_group_index`. -/
def membershipIndex (m : Membership) (wanted : RowId) : Option ℕ :=
  (m.sources.findIdx? fun source => source.sourceId = wanted.1).bind fun position =>
    (m.sources[position]?).bind fun source =>
      (source.sequences.idxOf? wanted.2).bind fun record =>
        (if m.grouped then groupIndexForSequence source.groups record else some record).bind
          fun unit => (m.ranks[position]?).bind (·[unit]?)

/-- A membership whose order names rows only, as many as it counts. -/
structure Shown where
  membership : Membership
  resolves : ∀ e ∈ membership.order, (rowAt membership e).isSome
  counted : membership.order.length = membershipDisplayCount membership

inductive Published
  | raw
  | filtered (shown : Shown)

/-- The rows that are published. -/
def Published.rows (raw : List RowId) : Published → List RowId
  | .raw => raw
  | .filtered shown => shown.membership.order.filterMap (rowAt shown.membership)

/-! ### The state of a view -/

def foldFeedPerPage : ℕ := 256

def foldFeedBatch : ℕ := 64

def foldLeadIn : ℕ := 4096

def foldReanchorGap : ℕ := 32768

def minRetainedPageRows : ℕ := 2

inductive FoldNormalisation
  | conservative
  | standard
  | aggressive
deriving DecidableEq

structure FoldRequest where
  enabled : Bool
  minimumRun : ℕ
  keyColumn : Option String
  scope : FoldScope
  normalisation : FoldNormalisation
  expanded : List RowId
deriving DecidableEq

def foldConfig (request : FoldRequest) : FoldConfig :=
  { FoldConfig.default with
    enabled := request.enabled
    minimumRun := max request.minimumRun 2
    scope := request.scope }

structure FoldViewState where
  request : FoldRequest
  engine : FoldEngine
  anchor : ℕ
  fed : ℕ
  placed : Bool
  generation : ℕ
  expanded : List RowId

def FoldViewState.new (request : FoldRequest) (generation anchor : ℕ) : FoldViewState where
  request := request
  engine := .startingAt (foldConfig request) anchor
  anchor := anchor
  fed := anchor
  placed := false
  generation := generation
  expanded := request.expanded

def FoldViewState.collapsed (fold : FoldViewState) (entry : FoldEntry) : Bool :=
  entry.folded && !fold.expanded.contains entry.first.id

/-- `ViewState`, as far as its rows are folded, with the rows of the raw provider. -/
structure ViewState where
  isUnion : Bool
  desiredRevision : ℕ
  appliedRevision : ℕ
  published : Published
  raw : List RowId
  fold : Option FoldViewState

structure ViewportRequest where
  start : ℕ
  len : ℕ

namespace ViewState

variable (view : ViewState)

/-- A view that is registered over raw rows. -/
def new (isUnion : Bool) (raw : List RowId) : ViewState where
  isUnion := isUnion
  desiredRevision := 0
  appliedRevision := 0
  published := .raw
  raw := raw
  fold := none

/-- The rows of the view before folding. -/
def stream : List RowId := view.published.rows view.raw

def streamTotal : ℕ :=
  match view.published with
  | .raw => view.raw.length
  | .filtered shown => membershipDisplayCount shown.membership

/-- `collect_rows`, where all are there. -/
def collectRows (request : ViewportRequest) : List RowId :=
  match view.published with
  | .raw => (view.raw.drop request.start).take request.len
  | .filtered shown => membershipIds shown.membership request.start request.len

def unfoldedIndexOf (id : RowId) : Option ℕ :=
  match view.published with
  | .raw => view.raw.idxOf? id
  | .filtered shown => membershipIndex shown.membership id

/-! ### A page request -/

/-- The rows that the loop of `advance_fold` consumes.  In each turn the provider serves so many
rows of what is asked; the loop stops where it has none, or the first is not the next one. -/
def feeds : List ℕ → ℕ → ℕ → List RowId
  | [], _, _ => []
  | served :: answers, budget, fed =>
    let remaining := view.streamTotal - fed
    let take := min (min budget foldFeedBatch) remaining
    let rows := (view.collectRows ⟨fed, take⟩).take served
    match rows.head? with
    | none => []
    | some first =>
      if view.unfoldedIndexOf first = some fed then
        rows ++ feeds answers (budget - rows.length) (fed + rows.length)
      else []

/-- What a fold reads of these rows, each with its key. -/
def events (fold : FoldViewState) (answers : List ℕ) (key : RowId → Option String) :
    List FoldEvent :=
  if fold.request.enabled then
    (view.feeds answers foldFeedPerPage fold.fed).map fun id => ⟨id, key id⟩
  else []

def advanceFold (answers : List ℕ) (key : RowId → Option String) : ViewState :=
  { view with
    fold := view.fold.map fun fold =>
      let events := view.events fold answers key
      { fold with
        engine := fold.engine.extend events
        fed := fold.fed + events.length } }

end ViewState

/-- Where the engine's entries begin, or what has been fed. -/
def FoldViewState.head (fold : FoldViewState) : ℕ :=
  (fold.engine.entries.head?.map (·.first.position)).getD fold.fed

/-- Where the rows begin that have not been fed. -/
def FoldViewState.tailStart (fold : FoldViewState) : ℕ :=
  max ((fold.engine.entries.getLast?.map (·.last.position + 1)).getD fold.head) fold.fed

/-- How many lines an entry takes. -/
def FoldViewState.lineCount (fold : FoldViewState) (entry : FoldEntry) : ℕ :=
  if fold.collapsed entry then 1 else entry.count

/-- The loop of `fold_stream_index` over the entries. -/
def FoldViewState.streamIndex (fold : FoldViewState) (display : ℕ) : List FoldEntry → ℕ → ℕ
  | [], cursor => fold.tailStart + (display - cursor)
  | entry :: entries, cursor =>
    if display < cursor + fold.lineCount entry then
      let offset := if fold.collapsed entry then 0 else display - cursor
      ((entry.members[offset]?).map (·.position)).getD 0
    else streamIndex fold display entries (cursor + fold.lineCount entry)

def FoldViewState.foldStreamIndex (fold : FoldViewState) (display : ℕ) : ℕ :=
  if fold.request.enabled then
    if display < fold.head then display
    else fold.streamIndex display fold.engine.entries fold.head
  else display

/-- Where `prepare_fold` places the feed for a window. -/
def FoldViewState.place (fold : FoldViewState) (window : ViewportRequest) : FoldViewState :=
  let start := fold.foldStreamIndex window.start
  let desired := start - foldLeadIn
  let behind := window.start + window.len ≤ fold.head ∧ desired < fold.anchor
  let farAhead := fold.fed + foldReanchorGap < start
  if fold.placed ∧ ¬behind ∧ ¬farAhead then fold
  else if desired = fold.anchor then { fold with placed := true }
  else { FoldViewState.new fold.request fold.generation desired with placed := true }

/-- `prepare_fold`: a fold of another revision starts again, and a viewport places it. -/
def FoldViewState.prepare (fold : FoldViewState) (appliedRevision : ℕ) (window : ViewportRequest) :
    FoldViewState :=
  if fold.request.enabled then
    let fold :=
      if fold.generation = appliedRevision then fold else .new fold.request appliedRevision 0
    if window.len < minRetainedPageRows then fold else fold.place window
  else fold

/-- `set_fold`. -/
def FoldViewState.set (fold : FoldViewState) (appliedRevision : ℕ) (request : FoldRequest) :
    FoldViewState :=
  if fold.request = request then fold
  else if { fold.request with expanded := request.expanded } = request then
    { fold with request := request, expanded := request.expanded }
  else .new request appliedRevision 0

namespace ViewState

variable (view : ViewState)

def prepareFold (window : ViewportRequest) : ViewState :=
  { view with fold := view.fold.map (·.prepare view.appliedRevision window) }

def setFold (request : FoldRequest) : ViewState :=
  { view with
    fold := some ((view.fold.map (·.set view.appliedRevision request)).getD
      (.new request view.appliedRevision 0)) }

end ViewState

/-! ### The plan of a page -/

inductive FoldExtent
  | first
  | middle
  | last

def FoldExtent.at (offset count : ℕ) : FoldExtent :=
  if offset = 0 then .first else if offset + 1 = count then .last else .middle

/-- `FoldFacts`; the count, the first and the last row are those of the entry. -/
structure FoldFacts where
  entry : FoldEntry
  pattern : Option String
  keyColumn : Option String

inductive FoldSlot
  | stream (position : ℕ)
  | folded (facts : FoldFacts)
  | member (id : RowId) (extent : Option FoldExtent) (members : ℕ)

/-- The lines of an entry. -/
def FoldViewState.lines (fold : FoldViewState) (entry : FoldEntry) : List FoldSlot :=
  if fold.collapsed entry then
    [.folded ⟨entry, if fold.request.keyColumn.isNone then some entry.pattern else none,
      fold.request.keyColumn⟩]
  else
    let run := entry.folded ∧ 1 < entry.count
    entry.members.mapIdx fun offset member =>
      .member member.id (if run then some (.at offset entry.count) else none) entry.count

/-- The lines that fall into a window, and the display position where the walk over them ends. -/
def windowed (start finish : ℕ) : List FoldSlot → ℕ → List FoldSlot × ℕ
  | [], display => ([], display)
  | slot :: slots, display =>
    if finish ≤ display then ([], display)
    else
      let rest := windowed start finish slots (display + 1)
      (if start ≤ display then slot :: rest.1 else rest.1, rest.2)

structure FoldSummary where
  enabled : Bool
  entries : ℕ
  runs : ℕ
  foldedEntries : ℕ
  hiddenRows : ℕ
  evictedEntries : ℕ
  pendingRows : ℕ

structure FoldPlan where
  total : ℕ
  slots : List FoldSlot
  summary : FoldSummary

def foldPlan (view : ViewState) (streamTotal : ℕ) (request : ViewportRequest) : Option FoldPlan :=
  (view.fold.filter (·.request.enabled)).map fun fold =>
    let entries := fold.engine.entries
    let pending := streamTotal - fold.tailStart
    let collapsed := entries.filter fold.collapsed
    let entryRows := (entries.map fold.lineCount).sum
    let total := fold.head + entryRows + pending
    let start := min request.start total
    let finish := min (start + request.len) total
    let above := (List.range' start (min fold.head finish - start)).map .stream
    let (shown, display) := windowed start finish (entries.flatMap fold.lines) fold.head
    let display := max display start
    let below := (List.range' display (finish - display)).map fun display =>
      .stream (fold.tailStart + (display - (fold.head + entryRows)))
    { total := total
      slots := above ++ shown ++ below
      summary :=
        { enabled := true
          entries := entries.length
          runs := entries.countP (·.folded)
          foldedEntries := collapsed.length
          hiddenRows := (collapsed.map (·.count - 1)).sum
          evictedEntries := fold.engine.baseSerial
          pendingRows := pending } }

/-! ### The view over time -/

/-- What happens to a view. -/
inductive Event
  /-- A query is accepted. -/
  | submit (revision : ℕ)
  /-- A query fails. -/
  | fail (revision : ℕ)
  /-- The rows of a query are published, or published anew. -/
  | publish (revision : ℕ) (published : Published)
  /-- A union is installed. -/
  | install (revision : ℕ) (shown : Shown)
  /-- The raw provider has other rows. -/
  | capture (raw : List RowId)
  /-- The folding policy, or what is expanded, is set. -/
  | setFold (request : FoldRequest)
  /-- A page is asked, and the provider serves so many rows of each batch that is fed. -/
  | page (window : ViewportRequest) (answers : List ℕ) (key : RowId → Option String)

/-- What a page request leaves behind. -/
def ViewState.paged (view : ViewState) (window : ViewportRequest) (answers : List ℕ)
    (key : RowId → Option String) : ViewState :=
  (view.prepareFold window).advanceFold answers key

/-- One event.  A query is published under the revision that is desired, which only a higher one
replaces; a union is installed under a revision above the published one. -/
def ViewState.next (view : ViewState) : Event → Option ViewState
  | .submit revision =>
    if view.isUnion then none
    else some { view with desiredRevision := max revision view.desiredRevision }
  | .fail revision =>
    if view.desiredRevision = revision then
      some { view with desiredRevision := view.appliedRevision }
    else some view
  | .publish revision published =>
    if view.isUnion then none
    else if view.desiredRevision = revision then
      some { view with published := published, appliedRevision := revision }
    else some view
  | .install revision shown =>
    if view.isUnion ∧ view.appliedRevision < revision then
      some { view with published := .filtered shown, appliedRevision := revision }
    else none
  | .capture raw => some { view with raw := raw }
  | .setFold request => some (view.setFold request)
  | .page window answers key => some (view.paged window answers key)

/-- The views that are folded, over time. -/
def folding : Machine ViewState Event := .ofFun ViewState.next

/-! ### The display -/

/-- All lines of a view. -/
def ViewState.display (view : ViewState) : List FoldSlot :=
  match view.fold.filter (·.request.enabled) with
  | none => (List.range view.stream.length).map .stream
  | some fold =>
    (List.range fold.head).map .stream ++ fold.engine.entries.flatMap fold.lines ++
      (List.range' fold.tailStart (view.streamTotal - fold.tailStart)).map .stream

/-- The rows behind a line. -/
def ViewState.rowsOf (view : ViewState) : FoldSlot → List RowId
  | .stream position => (view.stream[position]?).toList
  | .folded facts => facts.entry.members.map (·.id)
  | .member id _ _ => [id]

/-- The rows of the display, once a page has been asked. -/
def ViewState.shown (view : ViewState) (window : ViewportRequest) (answers : List ℕ)
    (key : RowId → Option String) : List RowId :=
  (view.paged window answers key).display.flatMap (view.paged window answers key).rowsOf

variable {view view' : ViewState} {fold : FoldViewState}

/-! ### What is fed -/

theorem filterMap_window {α β : Type} {f : α → Option β} {l : List α} (h : ∀ a ∈ l, (f a).isSome)
    (start len : ℕ) : ((l.drop start).take len).filterMap f = ((l.filterMap f).drop start).take len := by
  induction l generalizing start len with
  | nil => simp
  | cons a l ih =>
    obtain ⟨b, hb⟩ := Option.isSome_iff_exists.1 (h a mem_cons_self)
    have ih' := ih fun a ha => h a (mem_cons_of_mem _ ha)
    cases start with
    | succ start => simpa [hb] using ih' start len
    | zero =>
      cases len with
      | zero => simp
      | succ len => simpa [hb] using ih' 0 len

theorem collectRows_eq (view : ViewState) (request : ViewportRequest) :
    view.collectRows request = (view.stream.drop request.start).take request.len := by
  unfold ViewState.collectRows ViewState.stream Published.rows
  cases view.published with
  | raw => rfl
  | filtered shown => exact filterMap_window shown.resolves request.start request.len

theorem streamTotal_eq (view : ViewState) : view.streamTotal = view.stream.length := by
  unfold ViewState.streamTotal ViewState.stream Published.rows
  cases view.published with
  | raw => rfl
  | filtered shown =>
    show membershipDisplayCount shown.membership = _
    rw [← shown.counted]
    exact (filterMap_length_eq_length.2 shown.resolves).symm

/-- **What is fed comes next in the stream.** -/
theorem feeds_prefix (view : ViewState) (answers : List ℕ) (budget fed : ℕ) :
    view.feeds answers budget fed <+: view.stream.drop fed := by
  induction answers generalizing budget fed with
  | nil => exact nil_prefix
  | cons served answers ih =>
    unfold ViewState.feeds
    simp only
    split
    · exact nil_prefix
    · split_ifs
      · rw [collectRows_eq, take_take]
        generalize min served _ = n
        -- the rows of this turn, and those of the others behind them
        have hrows := prefix_iff_eq_take.1 (List.take_prefix n (view.stream.drop fed))
        set rows := (view.stream.drop fed).take n with hset
        have hsplit : rows ++ view.stream.drop (fed + rows.length) = view.stream.drop fed := by
          conv_rhs => rw [← take_append_drop rows.length (view.stream.drop fed), ← hrows]
          rw [drop_drop]
        rw [← hsplit]
        exact (prefix_append_right_inj rows).2 (ih _ _)
      · exact nil_prefix

/-! ### What a view's fold is good for -/

/-- **What the engine holds is what stands in the stream**, if the fold is of the revision that is
applied. -/
structure Sound (applied : ℕ) (stream : List RowId) (fold : FoldViewState) : Prop where
  next : fold.engine.nextPosition = fold.fed
  spans : Spans fold.engine
  contiguous : fold.request.scope = .adjacent → Contiguous fold.engine
  generation : fold.generation ≤ applied
  stands : fold.generation = applied → Stands stream fold.engine

/-- The fold of the view is sound, and what is desired is not behind what is applied. -/
structure Steady (view : ViewState) : Prop where
  desired : view.isUnion = false → view.appliedRevision ≤ view.desiredRevision
  fold : ∀ fold ∈ view.fold, Sound view.appliedRevision view.stream fold

variable {applied : ℕ} {stream : List RowId}

theorem sound_new (request : FoldRequest) {generation : ℕ} (hgeneration : generation ≤ applied)
    (anchor : ℕ) : Sound applied stream (.new request generation anchor) where
  next := rfl
  spans := spans_startingAt _ _
  contiguous hscope := contiguous_startingAt hscope _
  generation := hgeneration
  stands _ := by simp [Stands, FoldViewState.new, FoldEngine.startingAt]

theorem Sound.same {fold' : FoldViewState} (h : Sound applied stream fold) (hengine : fold'.engine = fold.engine)
    (hfed : fold'.fed = fold.fed) (hscope : fold'.request.scope = fold.request.scope)
    (hgeneration : fold'.generation = fold.generation) : Sound applied stream fold' := by
  obtain ⟨hnext, hspans, hcontiguous, hold, hstands⟩ := h
  rw [← hengine] at hnext hspans hcontiguous hstands
  exact ⟨hfed ▸ hnext, hspans, fun h => hcontiguous (hscope ▸ h), hgeneration ▸ hold,
    fun h => hstands (hgeneration ▸ h)⟩

theorem Sound.place (h : Sound applied stream fold) (window : ViewportRequest) :
    Sound applied stream (fold.place window) := by
  unfold FoldViewState.place
  simp only
  split_ifs
  · exact h
  · exact h.same rfl rfl rfl rfl
  · exact (sound_new fold.request h.generation _).same rfl rfl rfl rfl

theorem Sound.prepare (h : Sound applied stream fold) (window : ViewportRequest) :
    Sound applied stream (fold.prepare applied window) := by
  unfold FoldViewState.prepare
  have hnew : Sound applied stream (if fold.generation = applied then fold
      else .new fold.request applied 0) := by
    split_ifs
    · exact h
    · exact sound_new _ le_rfl _
  generalize (if fold.generation = applied then fold
      else FoldViewState.new fold.request applied 0) = fold₀ at hnew ⊢
  split_ifs
  · exact hnew
  · exact hnew.place window
  · exact h

theorem Sound.set (h : Sound applied stream fold) (request : FoldRequest) :
    Sound applied stream (fold.set applied request) := by
  unfold FoldViewState.set
  split_ifs with hsame hexpanded
  · exact h
  · -- the engine stays, so does the scope
    exact h.same rfl rfl (congrArg FoldRequest.scope hexpanded).symm rfl
  · exact sound_new _ le_rfl _

/-- The rows that have been fed, and are retained, stay where they are. -/
def Undisturbed (view : ViewState) (stream' : List RowId) : Prop :=
  ∀ fold ∈ view.fold, fold.generation = view.appliedRevision →
    ∀ i, fold.engine.head ≤ i → i < fold.fed → stream'[i]? = view.stream[i]?

/-- **What the display relies on**: a publication under the revision that is applied moves no row
that has been fed, and every eviction is intact. -/
def Harmless (view : ViewState) : Event → Prop
  | .publish revision published =>
    revision = view.appliedRevision → Undisturbed view (published.rows view.raw)
  | .capture raw => Undisturbed view (view.published.rows raw)
  | .page window answers key =>
    ∀ fold ∈ (view.prepareFold window).fold, fold.request.scope ≠ .adjacent →
      IntactThrough fold.engine ((view.prepareFold window).events fold answers key)
  | _ => True

theorem Sound.moved (h : Sound view.appliedRevision view.stream fold) (hfold : fold ∈ view.fold)
    (hrevision : view.appliedRevision ≤ view'.appliedRevision)
    (hsame : view'.appliedRevision = view.appliedRevision → Undisturbed view view'.stream) :
    Sound view'.appliedRevision view'.stream fold where
  next := h.next
  spans := h.spans
  contiguous := h.contiguous
  generation := h.generation.trans hrevision
  stands hgeneration := by
    -- a fold of the new revision is one of the old, so the revision is the same
    have hle := h.generation
    have hold : fold.generation = view.appliedRevision := by omega
    refine (h.stands hold).moved h.spans fun i hhead hlt => ?_
    exact hsame (by omega) fold hfold hold i hhead (h.next ▸ hlt)

theorem events_ids (view : ViewState) (fold : FoldViewState) (answers : List ℕ)
    (key : RowId → Option String) :
    (view.events fold answers key).map (·.id) <+: view.stream.drop fold.fed := by
  unfold ViewState.events
  split_ifs
  · simpa [Function.comp_def] using feeds_prefix view answers foldFeedPerPage fold.fed
  · exact nil_prefix

/-- **The feed keeps the fold sound**, if the evictions are intact. -/
theorem Sound.extend (h : Sound applied stream fold) {events : List FoldEvent}
    (hintact : fold.request.scope ≠ .adjacent → IntactThrough fold.engine events)
    (hevents : events.map (·.id) <+: stream.drop fold.fed) :
    Sound applied stream { fold with
      engine := fold.engine.extend events
      fed := fold.fed + events.length } := by
  have hthrough : IntactThrough fold.engine events := by
    by_cases hscope : fold.request.scope = .adjacent
    · exact ((h.contiguous hscope).extend events).1
    · exact hintact hscope
  rw [← h.next] at hevents
  exact
    { next := (nextPosition_extend _ _).trans (by rw [h.next])
      spans := h.spans.extend hthrough
      contiguous := fun hscope => ((h.contiguous hscope).extend events).2
      generation := h.generation
      stands := fun hgeneration => (h.stands hgeneration).extend hevents }

/-! ### Runs -/

theorem steady_new (isUnion : Bool) (raw : List RowId) : Steady (.new isUnion raw) :=
  ⟨fun _ => le_rfl, fun _ hfold => absurd hfold (by simp [ViewState.new])⟩

theorem Steady.paged (h : Steady view) {window : ViewportRequest} {answers : List ℕ}
    {key : RowId → Option String} (hpage : Harmless view (.page window answers key)) :
    Steady (view.paged window answers key) := by
  refine ⟨h.desired, fun fold hfold => ?_⟩
  obtain ⟨prepared, hprepared, rfl⟩ := Option.mem_map.1 hfold
  obtain ⟨before, hbefore, rfl⟩ := Option.mem_map.1 hprepared
  exact ((h.fold before hbefore).prepare window).extend (hpage _ hprepared)
    (events_ids (view.prepareFold window) _ answers key)

/-- **What each event keeps.** -/
theorem Steady.step {event : Event} (h : Steady view) (hharmless : Harmless view event)
    (hst : folding.step view event view') : Steady view' := by
  have hnext : view.next event = some view' := hst
  cases event with
  | submit revision =>
    simp only [ViewState.next] at hnext
    split_ifs at hnext
    cases hnext
    exact ⟨fun hunion => (h.desired hunion).trans (le_max_right _ _), fun fold hfold =>
      (h.fold fold hfold).moved hfold le_rfl fun _ _ _ _ _ _ _ => rfl⟩
  | fail revision =>
    simp only [ViewState.next] at hnext
    split_ifs at hnext
    · cases hnext
      exact ⟨fun _ => le_rfl, fun fold hfold =>
        (h.fold fold hfold).moved hfold le_rfl fun _ _ _ _ _ _ _ => rfl⟩
    · cases hnext
      exact h
  | publish revision published =>
    simp only [ViewState.next] at hnext
    split_ifs at hnext with hunion hdesired
    · cases hnext
      have hle : view.appliedRevision ≤ revision := hdesired ▸ h.desired (by simpa using hunion)
      exact ⟨fun _ => hdesired.ge, fun fold hfold => (h.fold fold hfold).moved hfold hle hharmless⟩
    · cases hnext
      exact h
  | install revision shown =>
    simp only [ViewState.next] at hnext
    split_ifs at hnext with hunion
    cases hnext
    refine ⟨fun hordinary => absurd hunion.1 (by simpa using hordinary), fun fold hfold => ?_⟩
    exact (h.fold fold hfold).moved hfold hunion.2.le fun hsame => absurd hsame hunion.2.ne'
  | capture raw =>
    cases hnext
    exact ⟨h.desired, fun fold hfold => (h.fold fold hfold).moved hfold le_rfl fun _ => hharmless⟩
  | setFold request =>
    cases hnext
    refine ⟨h.desired, fun fold hfold => ?_⟩
    cases hfold
    cases hbefore : view.fold with
    | none => exact sound_new request le_rfl 0
    | some before => exact (h.fold before hbefore).set request
  | page window answers key =>
    cases hnext
    exact h.paged hharmless

theorem steady_run {isUnion : Bool} {raw : List RowId} {es : List Event}
    (h : (folding.only Harmless).Run (.new isUnion raw) es view) : Steady view :=
  h.invariant_only (steady_new isUnion raw) fun _ _ _ hv hharmless hst => hv.step hharmless hst

/-! ### The display has each row once -/

theorem length_lines (fold : FoldViewState) (entry : FoldEntry) :
    (fold.lines entry).length = fold.lineCount entry := by
  unfold FoldViewState.lines FoldViewState.lineCount
  simp only
  split
  · rfl
  · exact length_mapIdx

theorem flatMap_mapIdx {α β γ : Type} {l : List α} {f : ℕ → α → β} {g : β → List γ} {k : α → γ}
    (h : ∀ i a, g (f i a) = [k a]) : (l.mapIdx f).flatMap g = l.map k := by
  induction l generalizing f with
  | nil => rfl
  | cons a l ih =>
    rw [mapIdx_cons, flatMap_cons, h, ih fun i => h (i + 1)]
    rfl

/-- **Folded or expanded, an entry stands for its members.** -/
theorem flatMap_lines (view : ViewState) (fold : FoldViewState) (entry : FoldEntry) :
    (fold.lines entry).flatMap view.rowsOf = entry.members.map (·.id) := by
  unfold FoldViewState.lines
  simp only
  split
  · exact append_nil _
  · exact flatMap_mapIdx fun _ _ => rfl

theorem flatMap_stream (view : ViewState) (start len : ℕ) :
    ((List.range' start len).map FoldSlot.stream).flatMap view.rowsOf =
      (view.stream.drop start).take len := by
  induction len generalizing start with
  | zero => simp
  | succ len ih =>
    rw [range'_succ, map_cons, flatMap_cons, ih]
    show (view.stream[start]?).toList ++ _ = _
    cases hrow : view.stream[start]? with
    | none =>
      have hlen := List.getElem?_eq_none_iff.1 hrow
      rw [drop_eq_nil_of_le (hlen.trans (Nat.le_succ start)), drop_eq_nil_of_le hlen]
      simp
    | some row =>
      obtain ⟨hlt, rfl⟩ := List.getElem?_eq_some_iff.1 hrow
      rw [drop_eq_getElem_cons hlt, take_succ_cons]
      rfl

theorem head_eq_head (hnext : fold.engine.nextPosition = fold.fed) :
    fold.head = fold.engine.head := by
  unfold FoldViewState.head FoldEngine.head
  rw [hnext]

theorem tailStart_eq_fed (hnext : fold.engine.nextPosition = fold.fed) (hheld : Held fold.engine) :
    fold.tailStart = fold.fed := by
  unfold FoldViewState.tailStart
  refine max_eq_right ?_
  cases hlast : fold.engine.entries.getLast? with
  | none =>
    have hle := hheld.head_le_next
    rw [hnext] at hle
    exact (head_eq_head hnext).trans_le hle
  | some entry =>
    have hmem : entry ∈ fold.engine.entries := mem_of_getLast? hlast
    have hposition : entry.last.position ∈ entry.positions :=
      mem_map_of_mem (getLast_mem entry.nonempty)
    exact hnext ▸ hheld.fed _ (mem_positions.2 ⟨entry, hmem, hposition⟩)

/-- **The folded display has each row of the stream once**, where the engine spans its rows. -/
theorem display_perm_of_spans (hfold : view.fold.filter (·.request.enabled) = some fold)
    (hnext : fold.engine.nextPosition = fold.fed) (hspans : Spans fold.engine)
    (hstands : Stands view.stream fold.engine) :
    (view.display.flatMap view.rowsOf).Perm view.stream := by
  unfold ViewState.display
  rw [hfold]
  have hmembers := memberIds_perm hspans hstands
  have hle : fold.head ≤ fold.fed := by
    have := hspans.head_le
    rwa [← head_eq_head hnext, hnext] at this
  rw [hnext, ← head_eq_head hnext] at hmembers
  have hentries : (fold.engine.entries.flatMap fold.lines).flatMap view.rowsOf =
      fold.engine.memberIds := by
    rw [flatMap_assoc]
    exact flatMap_congr fun entry _ => flatMap_lines view fold entry
  simp only [flatMap_append, range_eq_range', flatMap_stream, hentries,
    tailStart_eq_fed hnext hspans.held, streamTotal_eq, drop_zero]
  have hall : (view.stream.take fold.head ++ (view.stream.take fold.fed).drop fold.head) ++
      (view.stream.drop fold.fed).take (view.stream.length - fold.fed) = view.stream := by
    have hfirst : view.stream.take fold.head = (view.stream.take fold.fed).take fold.head := by
      rw [take_take, min_eq_left hle]
    have hlast : (view.stream.drop fold.fed).take (view.stream.length - fold.fed) =
        view.stream.drop fold.fed := by
      rw [← length_drop, take_length]
    rw [hfirst, hlast, take_append_drop, take_append_drop]
  conv_rhs => rw [← hall]
  exact (hmembers.append_left _).append_right _

/-- **The folded display has each row of the stream once.** -/
theorem display_perm (h : Steady view)
    (hcurrent : ∀ fold ∈ view.fold, fold.request.enabled → fold.generation = view.appliedRevision) :
    (view.display.flatMap view.rowsOf).Perm view.stream := by
  cases hfold : view.fold.filter (·.request.enabled) with
  | none =>
    unfold ViewState.display
    rw [hfold]
    show (((List.range view.stream.length).map FoldSlot.stream).flatMap view.rowsOf).Perm _
    rw [range_eq_range', flatMap_stream, drop_zero, take_length]
  | some fold =>
    obtain ⟨hmem, henabled⟩ := Option.filter_eq_some_iff.1 hfold
    have hsound := h.fold fold hmem
    exact display_perm_of_spans hfold hsound.next hsound.spans
      (hsound.stands (hcurrent fold hmem henabled))

/-! ### A page is a window of the display -/

theorem windowed_eq (start finish : ℕ) (slots : List FoldSlot) (display : ℕ) :
    windowed start finish slots display =
      ((slots.take (finish - display)).drop (start - display),
        if display < finish then min finish (display + slots.length) else display) := by
  induction slots generalizing display with
  | nil =>
    simp only [windowed, take_nil, drop_nil, length_nil, Prod.mk.injEq, true_and]
    split_ifs <;> omega
  | cons slot slots ih =>
    unfold windowed
    by_cases hfinish : finish ≤ display
    · rw [if_pos hfinish, if_neg (by omega), Nat.sub_eq_zero_of_le hfinish, take_zero,
        drop_nil]
    · obtain ⟨n, hn⟩ : ∃ n, finish - display = n + 1 := ⟨finish - display - 1, by omega⟩
      have hn' : finish - (display + 1) = n := by omega
      simp only [if_neg hfinish, ih, hn, hn', take_succ_cons, Prod.mk.injEq]
      constructor
      · by_cases hstart : start ≤ display
        · rw [if_pos hstart, Nat.sub_eq_zero_of_le hstart, Nat.sub_eq_zero_of_le (by omega)]
          rfl
        · obtain ⟨m, hm⟩ : ∃ m, start - display = m + 1 := ⟨start - display - 1, by omega⟩
          have hm' : start - (display + 1) = m := by omega
          rw [if_neg hstart, hm, hm', drop_succ_cons]
      · rw [length_cons]
        split_ifs <;> omega

theorem range'_window (a n start finish : ℕ) :
    ((List.range' a n).take finish).drop start = List.range' (a + start) (min finish n - start) := by
  refine ext_getElem (by simp) fun i hi hi' => ?_
  simp only [getElem_drop, getElem_take, getElem_range']
  omega

theorem range'_same {a b n m : ℕ} (hlen : n = m) (h : n = 0 ∨ a = b) :
    List.range' a n = List.range' b m := by
  subst hlen
  rcases h with rfl | rfl <;> rfl

theorem range'_shift {a m n t : ℕ} (h : n = 0 ∨ m ≤ a) :
    (List.range' a n).map (fun position => t + (position - m)) = List.range' (t + (a - m)) n := by
  refine ext_getElem (by simp) fun i hi hi' => ?_
  have hlt : i < n := by simpa using hi
  simp only [getElem_map, getElem_range']
  omega

theorem take_drop_append {α : Type} (a b : List α) (start finish : ℕ) :
    ((a ++ b).take finish).drop start =
      (a.take finish).drop start ++ (b.take (finish - a.length)).drop (start - a.length) := by
  rw [take_append, drop_append]
  by_cases h : finish ≤ a.length
  · rw [Nat.sub_eq_zero_of_le h]
    simp
  · rw [take_of_length_le (by omega)]

/-- **A page is a window of the display.** -/
theorem foldPlan_window {request : ViewportRequest} {plan : FoldPlan}
    (hplan : foldPlan view view.streamTotal request = some plan) :
    plan.total = view.display.length ∧
    plan.slots = (view.display.drop request.start).take request.len := by
  obtain ⟨fold, hfold, rfl⟩ := Option.map_eq_some_iff.1 hplan
  have hrows : (fold.engine.entries.map fold.lineCount).sum =
      (fold.engine.entries.flatMap fold.lines).length := by
    rw [length_flatMap]
    exact congrArg List.sum (map_congr_left fun entry _ => (length_lines fold entry).symm)
  have hdisplay : view.display = (List.range fold.head).map .stream ++
      fold.engine.entries.flatMap fold.lines ++
        (List.range' fold.tailStart (view.streamTotal - fold.tailStart)).map .stream := by
    unfold ViewState.display
    rw [hfold]
  have htotal : view.display.length = fold.head + (fold.engine.entries.flatMap fold.lines).length +
      (view.streamTotal - fold.tailStart) := by
    rw [hdisplay]
    simp only [length_append, length_map, length_range, length_range']
  simp only [hrows, windowed_eq, ← htotal]
  refine ⟨trivial, ?_⟩
  generalize fold.engine.entries.flatMap fold.lines = slots at *
  generalize view.streamTotal - fold.tailStart = pending at *
  -- what is asked, as far as there are lines
  have hwindow : (view.display.drop request.start).take request.len =
      (view.display.take (min (min request.start view.display.length + request.len)
        view.display.length)).drop (min request.start view.display.length) := by
    refine ext_getElem (by simp; omega) fun i hi hi' => ?_
    have hlt : i < view.display.length - request.start := by
      have := hi
      simp only [length_take, length_drop] at this
      omega
    simp only [getElem_take, getElem_drop]
    congr 1
    omega
  generalize hstart : min request.start view.display.length = start at *
  generalize hfinish : min (start + request.len) view.display.length = finish at *
  rw [hwindow, hdisplay, take_drop_append, take_drop_append, ← map_take, ← map_drop,
    ← map_take, ← map_drop, range_eq_range', range'_window, range'_window]
  have htail : ∀ a n, n = 0 ∨ fold.head + slots.length ≤ a →
      (List.range' a n).map (fun display => FoldSlot.stream
        (fold.tailStart + (display - (fold.head + slots.length)))) =
      (List.range' (fold.tailStart + (a - (fold.head + slots.length))) n).map .stream := by
    intro a n h
    rw [← range'_shift h, map_map]
    rfl
  rw [htail _ _ (by split_ifs <;> omega)]
  simp only [length_append, length_map, length_range']
  have hle : finish ≤ fold.head + slots.length + pending := by omega
  have hfirst : List.range' start (min fold.head finish - start) =
      List.range' (0 + start) (min finish fold.head - start) := range'_same (by omega) (by omega)
  rw [hfirst]
  congr 2
  refine range'_same ?_ ?_
  · split_ifs <;> omega
  · split_ifs <;> omega

/-! ### An order that is extended -/

theorem getElem?_prefix {α : Type} {l l' : List α} (h : l <+: l') {i : ℕ} {a : α}
    (hget : l[i]? = some a) : l'[i]? = some a := by
  obtain ⟨rest, rfl⟩ := h
  rw [getElem?_append_left (List.getElem?_eq_some_iff.1 hget).1, hget]

/-! ### Runs whose publications move nothing -/

theorem generation_place (fold : FoldViewState) (window : ViewportRequest) :
    (fold.place window).generation = fold.generation := by
  unfold FoldViewState.place
  simp only
  split_ifs
  · rfl
  · rfl
  · rfl

/-- A fold that is shown is of the revision that is applied. -/
theorem paged_current {window : ViewportRequest} {answers : List ℕ} {key : RowId → Option String} :
    ∀ fold ∈ (view.paged window answers key).fold, fold.request.enabled →
      fold.generation = view.appliedRevision := by
  intro fold hfold henabled
  obtain ⟨prepared, hprepared, rfl⟩ := Option.mem_map.1 hfold
  obtain ⟨before, -, rfl⟩ := Option.mem_map.1 hprepared
  show (before.prepare view.appliedRevision window).generation = view.appliedRevision
  have henabled' : (before.prepare view.appliedRevision window).request.enabled := henabled
  unfold FoldViewState.prepare at henabled' ⊢
  have hrestarted : (if before.generation = view.appliedRevision then before
      else .new before.request view.appliedRevision 0).generation = view.appliedRevision := by
    split_ifs with hsame
    · exact hsame
    · rfl
  generalize (if before.generation = view.appliedRevision then before
      else FoldViewState.new before.request view.appliedRevision 0) = restarted at *
  split_ifs at henabled' ⊢
  · exact hrestarted
  · exact (generation_place restarted window).trans hrestarted
  · contradiction

/-- **The folded display has each row of the stream once**, in every run whose publications move no
row that has been fed and whose evictions are intact; and a page is a window of it. -/
theorem display_partitions {isUnion : Bool} {raw : List RowId} {es : List Event}
    {window : ViewportRequest} {answers : List ℕ} {key : RowId → Option String}
    (h : (folding.only Harmless).Run (.new isUnion raw) es view)
    (hpage : Harmless view (.page window answers key)) :
    (view.shown window answers key).Perm view.stream ∧
    ∀ request plan, foldPlan (view.paged window answers key)
        (view.paged window answers key).streamTotal request = some plan →
      plan.total = (view.paged window answers key).display.length ∧
      plan.slots = ((view.paged window answers key).display.drop request.start).take request.len :=
  ⟨display_perm ((steady_run h).paged hpage) paged_current, fun _ _ hplan => foldPlan_window hplan⟩

/-! ### A record that comes late -/

/-- A source with one record, or none yet. -/
def exampleSource (sourceId : String) (sequences : List UInt64) (time : ℤ) : SourceMatches where
  sourceId := sourceId
  sequences := sequences
  times := sequences.map fun _ => time
  groups := []
  mergeKeys := sequences.map fun _ => time
  ascending := true

/-- The membership that these sources produce, after a prior one. -/
def exampleMembership (sources : List SourceMatches) (prior : Option Membership) : Membership :=
  let (order, ranks, maxKey) := mergeOrder sources false true prior
  ⟨sources, false, order, ranks, maxKey⟩

/-- The record of the second source is shown; the first source has none. -/
def exampleEarly : Shown where
  membership := exampleMembership [exampleSource "s" [] 1, exampleSource "t" [0] 2] none
  resolves := by decide
  counted := by decide

/-- The first source has an older record. -/
def exampleLate : Shown where
  membership := exampleMembership [exampleSource "s" [0] 1, exampleSource "t" [0] 2]
    (some exampleEarly.membership)
  resolves := by decide
  counted := by decide

def exampleFold : FoldRequest := ⟨true, 2, none, .adjacent, .standard, []⟩

/-- A query is published and folded. -/
def exampleFolded : List Event :=
  [.submit 1, .publish 1 (.filtered exampleEarly), .setFold exampleFold]

/-- Two records of the second source are shown. -/
def examplePair : Shown where
  membership := exampleMembership [exampleSource "s" [] 1, exampleSource "t" [0, 1] 2] none
  resolves := by decide
  counted := by decide

/-- It has a third one. -/
def exampleGrown : Shown where
  membership := exampleMembership [exampleSource "s" [] 1, exampleSource "t" [0, 1, 2] 2]
    (some examplePair.membership)
  resolves := by decide
  counted := by decide

/-- The pair, with a fold that looks back. -/
def examplePaired : ViewState :=
  { (ViewState.new false []) with
    desiredRevision := 1
    appliedRevision := 1
    published := .filtered examplePair
    fold := some (.new { exampleFold with scope := .lookback 2 } 1 0) }

/-- A page of the pair is fed, and then a refresh shows the third record. -/
def exampleView : ViewState :=
  { examplePaired.paged ⟨0, 10⟩ [10] (fun _ => some "k") with published := .filtered exampleGrown }

theorem exampleView_run : ∃ es, (folding.only Harmless).Run (.new false []) es exampleView := by
  have hsubmit : (folding.only Harmless).Run (.new false []) [.submit 1]
      { (ViewState.new false []) with desiredRevision := 1 } := Machine.Run.single ⟨trivial, rfl⟩
  have hpublish : (folding.only Harmless).Run (.new false [])
      [.submit 1, .publish 1 (.filtered examplePair)] { examplePaired with fold := none } :=
    hsubmit.snoc ⟨fun hsame => absurd hsame (by decide), rfl⟩
  have hfold : (folding.only Harmless).Run (.new false []) (_ ++ [.setFold _]) examplePaired :=
    hpublish.snoc ⟨trivial, rfl⟩
  have hpage : (folding.only Harmless).Run (.new false [])
      (_ ++ [.page ⟨0, 10⟩ [10] fun _ => some "k"])
      (examplePaired.paged ⟨0, 10⟩ [10] fun _ => some "k") :=
    hfold.snoc ⟨fun fold hfold _ => Option.some.inj hfold ▸ by decide +kernel, rfl⟩
  have hrefresh : (folding.only Harmless).step (examplePaired.paged ⟨0, 10⟩ [10] fun _ => some "k")
      (.publish 1 (.filtered exampleGrown)) exampleView := by
    refine ⟨fun _ fold hfold _ i _ hfed => ?_, rfl⟩
    -- the rows that were fed stand where they stood
    obtain rfl := Option.some.inj hfold
    have hfed : i < 2 := hfed
    obtain rfl | rfl : i = 0 ∨ i = 1 := by omega
    all_goals decide +kernel
  exact ⟨_, hpage.snoc hrefresh⟩

theorem display_partitions_folded :
    (exampleView.shown ⟨0, 10⟩ [10] fun _ => some "k").Perm [("t", 0), ("t", 1), ("t", 2)] := by
  obtain ⟨es, hrun⟩ := exampleView_run
  exact (display_partitions hrun fun fold hfold _ =>
    Option.some.inj hfold ▸ by decide +kernel).1

/-- A page is shown, and a refresh publishes the late record. -/
def exampleRefreshed : List Event :=
  exampleFolded ++ [.page ⟨0, 10⟩ [10] fun _ => some "k", .publish 1 (.filtered exampleLate)]

/-- **A late record, under the revision that is applied, moves a row that has been fed**: it is shown
again, in the place of the late one. -/
theorem stale_fold : ¬ ∀ (isUnion : Bool) (raw : List RowId) (es : List Event) (view : ViewState),
    folding.Run (.new isUnion raw) es view → ∀ window answers key,
      (view.shown window answers key).Perm view.stream := by
  intro hall
  obtain ⟨view, hview, hdisplay, hstream⟩ : ∃ view : ViewState,
      folding.Run (.new false []) exampleRefreshed view ∧
      view.shown ⟨0, 10⟩ [10] (fun _ => some "k") = [("t", 0), ("t", 0)] ∧
      view.stream = [("s", 0), ("t", 0)] := Machine.exists_run (by decide +kernel)
  have hperm := hall _ _ _ view hview ⟨0, 10⟩ [10] fun _ => some "k"
  rw [hdisplay, hstream] at hperm
  exact absurd hperm (by decide)

end Lvu.View.Fold
