import Lvu.Data.Table
import Lvu.View.Folding

/-!
# The tables of the fold engine

The engine keeps its open runs twice: by their pattern, and in a recency table by the position of
their last member, from which it reads the run to close next (`lvu-view/src/folding.rs`).

* `FoldTables` : the engine with its recency table and its statistics.
* `Inverse` : the two tables are inverse to each other.
* `Inverse.oldest_eq` : the first row of the recency table is the oldest run.
* `push_toFoldEngine` : the tables stay inverse, and the engine does what it does without them.
-/

namespace Lvu.View.Fold

open List

/-! ### The engine with its tables -/

/-- `FoldEngine` with its `recency`, the pattern of each open run at the position of its last
member, and its `stats`. -/
structure FoldTables extends FoldEngine where
  recency : Table ℕ String
  observedEvents : ℕ
  evictedEntries : ℕ
  evictedMembers : ℕ

def FoldTables.startingAt (config : FoldConfig) (firstPosition : ℕ) : FoldTables :=
  { FoldEngine.startingAt config firstPosition with
    recency := .empty
    observedEvents := 0
    evictedEntries := 0
    evictedMembers := 0 }

namespace FoldTables

variable (t : FoldTables)

def appendMember (index : ℕ) (member : FoldMember) : FoldTables :=
  { t with
    entries := t.entries.modify index (·.append (max t.config.minimumRun 2) member)
    retainedMembers := t.retainedMembers + 1 }

/-- A run is entered in both tables. -/
def openRun (pattern : String) (run : OpenRun) : FoldTables :=
  { t with
    openRuns := t.openRuns.insert pattern run
    recency := t.recency.insert run.lastPosition pattern }

def touch (pattern : String) (position : ℕ) : FoldTables :=
  match t.openRuns.lookup pattern with
  | none => t
  | some run =>
    { t with recency := t.recency.erase run.lastPosition }.openRun pattern
      { run with lastPosition := position }

def closePattern (pattern : String) : FoldTables :=
  match t.openRuns.lookup pattern with
  | none => t
  | some run =>
    { t with
      openRuns := t.openRuns.erase pattern
      recency := t.recency.erase run.lastPosition }

/-- A row of the recency table is removed, and its pattern from the open runs. -/
def closeRow (row : ℕ × String) : FoldTables :=
  { t with
    recency := t.recency.erase row.1
    openRuns := t.openRuns.erase row.2 }

/-- The loop of `close_stale`; each turn removes a row. -/
def closeStaleLoop (threshold : ℕ) : ℕ → FoldTables → FoldTables
  | 0, t => t
  | fuel + 1, t =>
    match t.recency.rows with
    | [] => t
    | row :: _ => if threshold ≤ row.1 then t else closeStaleLoop threshold fuel (t.closeRow row)

def closeStale (position : ℕ) : FoldTables :=
  closeStaleLoop (position - t.config.scope.gapLimit) t.recency.rows.length t

/-- `enforce_pattern_cap`; each turn closes a run. -/
def enforcePatternCap : ℕ → FoldTables → FoldTables
  | 0, t => t
  | fuel + 1, t =>
    if t.openRuns.size > max t.config.maximumPatterns 1 then
      match t.recency.rows with
      | [] => t
      | row :: _ => enforcePatternCap fuel (t.closeRow row)
    else t

def startEntry (pattern : String) (member : FoldMember) (isOpen : Bool) : FoldTables :=
  let serial := t.baseSerial + t.entries.length
  let started := { t with
    entries := t.entries ++ [.single pattern member]
    retainedMembers := t.retainedMembers + 1 }
  if isOpen then
    enforcePatternCap started.openRuns.size.succ
      ((started.closePattern pattern).openRun pattern ⟨serial, member.position⟩)
  else started

def enforceRetention : FoldTables :=
  let gone := t.entries.take t.evicted
  let members := (gone.map (·.count)).sum
  let drained := { t with
    entries := t.entries.drop t.evicted
    retainedMembers := t.retainedMembers - members
    evictedMembers := t.evictedMembers + members }
  let closed := (gone.map (·.pattern)).foldl closePattern drained
  { closed with
    baseSerial := closed.baseSerial + t.evicted
    evictedEntries := closed.evictedEntries + t.evicted }

/-- `push`, before retention is enforced. -/
def place (event : FoldEvent) : FoldTables :=
  let position := t.nextPosition
  let t := { t with
    nextPosition := position + 1
    observedEvents := t.observedEvents + 1 }
  match t.config.enabled, event.key with
  | false, _ | true, none => t.startEntry "" ⟨event.id, position⟩ false
  | true, some pattern =>
    let t := t.closeStale position
    match t.openRuns.lookup pattern with
    | none => t.startEntry pattern ⟨event.id, position⟩ true
    | some run => match t.indexOf run.serial with
      | none => (t.closePattern pattern).startEntry pattern ⟨event.id, position⟩ true
      | some index =>
        if ((t.entries[index]?).map (·.count)).getD 0 < t.config.maximumRun then
          (t.appendMember index ⟨event.id, position⟩).touch pattern position
        else (t.closePattern pattern).startEntry pattern ⟨event.id, position⟩ true

def push (event : FoldEvent) : FoldTables := (t.place event).enforceRetention

def extend (events : List FoldEvent) : FoldTables := events.foldl push t

end FoldTables

variable {t : FoldTables} {event : FoldEvent} {pattern : String} {bound : ℕ}

/-! ### The two tables -/

/-- **The tables are inverse to each other**, and no run was extended from `bound` on. -/
structure Inverse (bound : ℕ) (t : FoldTables) : Prop where
  mem : ∀ position pattern, (position, pattern) ∈ t.recency.rows ↔
    ∃ run, t.openRuns.lookup pattern = some run ∧ run.lastPosition = position
  before : ∀ row ∈ t.recency.rows, row.1 < bound

theorem inverse_startingAt (config : FoldConfig) (firstPosition : ℕ) :
    Inverse firstPosition (.startingAt config firstPosition) := by
  refine ⟨fun position pattern => ⟨fun h => absurd h not_mem_nil, ?_⟩,
    fun row h => absurd h not_mem_nil⟩
  rintro ⟨run, hrun, -⟩
  exact absurd hrun (by simp [FoldTables.startingAt, FoldEngine.startingAt])

namespace Inverse

theorem row (h : Inverse bound t) {run : OpenRun} (hrun : t.openRuns.lookup pattern = some run) :
    (run.lastPosition, pattern) ∈ t.recency.rows :=
  (h.mem _ _).2 ⟨run, hrun, rfl⟩

theorem pattern_eq (h : Inverse bound t) {other : String} {run run' : OpenRun}
    (hrun : t.openRuns.lookup pattern = some run) (hrun' : t.openRuns.lookup other = some run')
    (hlast : run.lastPosition = run'.lastPosition) : pattern = other :=
  congrArg Prod.snd (Table.eq_of_key (h.row hrun) (h.row hrun') hlast)

theorem closePattern (h : Inverse bound t) (pattern : String) :
    Inverse bound (t.closePattern pattern) := by
  unfold FoldTables.closePattern
  cases hrun : t.openRuns.lookup pattern with
  | none => exact h
  | some run =>
    refine ⟨fun position other => ?_, fun row hrow => h.before row (Table.mem_erase.1 hrow).1⟩
    rw [Table.mem_erase, Dict.lookup_erase_eq, h.mem]
    constructor
    · rintro ⟨⟨run', hrun', rfl⟩, hne⟩
      refine ⟨run', ?_, rfl⟩
      rw [if_neg, hrun']
      rintro rfl
      rw [hrun] at hrun'
      exact hne (congrArg OpenRun.lastPosition (Option.some.inj hrun').symm)
    · rintro ⟨run', hrun', rfl⟩
      split_ifs at hrun' with hother
      exact ⟨⟨run', hrun', rfl⟩, fun hlast => hother (h.pattern_eq hrun' hrun hlast)⟩

/-- A run that is extended now gets a row. -/
theorem openRun (h : Inverse bound t) {run : OpenRun} (hnone : t.openRuns.lookup pattern = none)
    (hlast : run.lastPosition = bound) : Inverse (bound + 1) (t.openRun pattern run) := by
  have hfresh : ∀ row ∈ t.recency.rows, row.1 ≠ run.lastPosition := fun row hrow =>
    hlast ▸ (h.before row hrow).ne
  constructor
  · intro position other
    change (position, other) ∈ (t.recency.insert run.lastPosition pattern).rows ↔
      ∃ run', (t.openRuns.insert pattern run).lookup other = some run' ∧
        run'.lastPosition = position
    rw [Table.mem_insert, Dict.lookup_insert_eq]
    constructor
    · rintro (heq | ⟨hrow, hne⟩)
      · obtain ⟨rfl, rfl⟩ := Prod.mk.inj heq
        exact ⟨run, if_pos rfl, rfl⟩
      · obtain ⟨run', hrun', rfl⟩ := (h.mem _ _).1 hrow
        refine ⟨run', ?_, rfl⟩
        rw [if_neg, hrun']
        rintro rfl
        rw [hnone] at hrun'
        cases hrun'
    · rintro ⟨run', hrun', rfl⟩
      split_ifs at hrun' with hother
      · cases hrun'
        exact .inl (by rw [hother])
      · exact .inr ⟨h.row hrun', hfresh _ (h.row hrun')⟩
  · intro row hrow
    rcases Table.mem_insert.1 hrow with rfl | ⟨hold, -⟩
    · exact hlast.le.trans_lt (Nat.lt_succ_self _)
    · exact (h.before row hold).trans (Nat.lt_succ_self _)

theorem closeRow_eq (h : Inverse bound t) {row : ℕ × String} (hrow : row ∈ t.recency.rows) :
    t.closeRow row = t.closePattern row.2 := by
  obtain ⟨run, hrun, hlast⟩ := (h.mem row.1 row.2).1 hrow
  simp only [FoldTables.closePattern, FoldTables.closeRow, hrun, hlast]

end Inverse

/-! ### The engine under the tables -/

@[simp] theorem closePattern_toFoldEngine (t : FoldTables) (pattern : String) :
    (t.closePattern pattern).toFoldEngine = t.toFoldEngine.closePattern pattern := by
  unfold FoldTables.closePattern FoldEngine.closePattern
  cases hrun : t.openRuns.lookup pattern with
  | none => rw [Dict.erase_of_lookup_none hrun]
  | some run => rfl

/-- What `close_stale` leaves: the runs from the threshold on. -/
theorem closeStaleLoop_toFoldEngine {threshold : ℕ} {fuel : ℕ} (h : Inverse bound t)
    (hfuel : t.recency.rows.length ≤ fuel) :
    (FoldTables.closeStaleLoop threshold fuel t).toFoldEngine = { t.toFoldEngine with
      openRuns := t.openRuns.filter fun _ run => threshold ≤ run.lastPosition } := by
  have hkeep (t : FoldTables) (h : Inverse bound t)
      (hall : ∀ row ∈ t.recency.rows, threshold ≤ row.1) :
      t.toFoldEngine = { t.toFoldEngine with
        openRuns := t.openRuns.filter fun _ run => threshold ≤ run.lastPosition } := by
    rw [Dict.filter_eq_self fun pattern run hrun => by simpa using hall _ (h.row hrun)]
  induction fuel generalizing t with
  | zero =>
    refine hkeep t h fun row hrow => ?_
    rw [length_eq_zero_iff.1 (Nat.le_zero.1 hfuel)] at hrow
    exact absurd hrow not_mem_nil
  | succ fuel ih =>
    unfold FoldTables.closeStaleLoop
    cases hrows : t.recency.rows with
    | nil => exact hkeep t h (by simp [hrows])
    | cons row rest =>
      have hmem : row ∈ t.recency.rows := hrows ▸ mem_cons_self
      simp only
      split_ifs with hthreshold
      · -- the rows ascend, so that no later one is below the threshold
        refine hkeep t h fun other hother => ?_
        have hsorted := hrows ▸ t.recency.sorted
        rcases mem_cons.1 (hrows ▸ hother) with rfl | hrest
        · exact hthreshold
        · exact hthreshold.trans ((pairwise_cons.1 hsorted).1 other hrest).le
      · obtain ⟨run, hrun, hlast⟩ := (h.mem row.1 row.2).1 hmem
        have hlength : (t.closeRow row).recency.rows.length ≤ fuel := by
          rw [hrows] at hfuel
          exact (congrArg List.length (Table.erase_first hrows)).trans_le
            (Nat.le_of_succ_le_succ hfuel)
        have hclosed : Inverse bound (t.closeRow row) :=
          h.closeRow_eq hmem ▸ h.closePattern row.2
        rw [ih hclosed hlength]
        change { t.toFoldEngine with
          openRuns := Dict.filter (fun _ run => threshold ≤ run.lastPosition)
            (t.openRuns.erase row.2) } = _
        rw [Dict.erase_eq_filter, Dict.filter_filter,
          Dict.filter_congr fun pattern run' hrun' => ?_]
        by_cases heq : pattern = row.2
        · subst heq
          rw [hrun] at hrun'
          cases hrun'
          simpa [hlast] using hthreshold
        · simp [heq]

theorem Inverse.closeRow (h : Inverse bound t) {row : ℕ × String} (hrow : row ∈ t.recency.rows) :
    Inverse bound (t.closeRow row) :=
  h.closeRow_eq hrow ▸ h.closePattern row.2

theorem Inverse.closeStaleLoop {threshold fuel : ℕ} (h : Inverse bound t) :
    Inverse bound (FoldTables.closeStaleLoop threshold fuel t) := by
  induction fuel generalizing t with
  | zero => exact h
  | succ fuel ih =>
    unfold FoldTables.closeStaleLoop
    cases hrows : t.recency.rows with
    | nil => exact h
    | cons row rest =>
      simp only
      split_ifs
      · exact h
      · exact ih (h.closeRow (hrows ▸ mem_cons_self))

/-- One turn of the search for the run that was extended least recently. -/
def older (best run : Sigma fun _ : String => OpenRun) : Sigma fun _ : String => OpenRun :=
  if run.2.lastPosition < best.2.lastPosition then run else best

theorem older_le (best run : Sigma fun _ : String => OpenRun) :
    (older best run).2.lastPosition ≤ best.2.lastPosition ∧
      (older best run).2.lastPosition ≤ run.2.lastPosition := by
  unfold older
  split_ifs with hlt
  · exact ⟨hlt.le, le_rfl⟩
  · exact ⟨le_rfl, Nat.le_of_not_lt hlt⟩

theorem foldl_older_le (runs : List (Sigma fun _ : String => OpenRun))
    (best : Sigma fun _ : String => OpenRun) :
    ∀ run ∈ best :: runs, (runs.foldl older best).2.lastPosition ≤ run.2.lastPosition := by
  induction runs generalizing best with
  | nil =>
    intro run hrun
    rw [mem_singleton.1 hrun]
    exact le_rfl
  | cons run runs ih =>
    have hfirst := ih (older best run) _ mem_cons_self
    intro other hother
    rcases mem_cons.1 hother with rfl | hother
    · exact hfirst.trans (older_le _ run).1
    · rcases mem_cons.1 hother with rfl | hother
      · exact hfirst.trans (older_le best _).2
      · exact ih _ _ (mem_cons_of_mem _ hother)

theorem foldl_older_mem (runs : List (Sigma fun _ : String => OpenRun))
    (best : Sigma fun _ : String => OpenRun) : runs.foldl older best ∈ best :: runs := by
  induction runs generalizing best with
  | nil => exact mem_singleton_self best
  | cons run runs ih =>
    rcases mem_cons.1 (ih (older best run)) with heq | hin
    · rw [foldl_cons, heq]
      unfold older
      split_ifs
      · exact mem_cons_of_mem _ mem_cons_self
      · exact mem_cons_self
    · exact mem_cons_of_mem _ (mem_cons_of_mem _ hin)

/-- The search begins at the first run. -/
theorem oldest_cons {e : FoldEngine} {run : Sigma fun _ : String => OpenRun}
    {runs : List (Sigma fun _ : String => OpenRun)} (hentries : e.openRuns.entries = run :: runs) :
    e.oldest = some (runs.foldl older run).1 := by
  have hsome (g : Option (Sigma fun _ : String => OpenRun) → (Sigma fun _ : String => OpenRun) →
      Option (Sigma fun _ : String => OpenRun)) (hg : ∀ best run, g (some best) run =
        some (older best run)) (runs : List (Sigma fun _ : String => OpenRun))
      (best : Sigma fun _ : String => OpenRun) :
      runs.foldl g (some best) = some (runs.foldl older best) := by
    induction runs generalizing best with
    | nil => rfl
    | cons run runs ih => rw [foldl_cons, foldl_cons, ← ih, hg]
  rw [FoldEngine.oldest, hentries, foldl_cons]
  refine congrArg _ (hsome _ (fun best run => ?_) runs run)
  simp only [older]
  split_ifs <;> rfl

/-- **The first row of the recency table is the run that was extended least recently.** -/
theorem Inverse.oldest_eq (h : Inverse bound t) {row : ℕ × String} {rest : List (ℕ × String)}
    (hrows : t.recency.rows = row :: rest) : t.oldest = some row.2 := by
  obtain ⟨run, hrun, hlast⟩ := (h.mem row.1 row.2).1 (hrows ▸ mem_cons_self)
  have hentry := AList.mem_lookup_iff.1 hrun
  cases hentries : t.openRuns.entries with
  | nil =>
    rw [hentries] at hentry
    exact absurd hentry not_mem_nil
  | cons best runs =>
    rw [oldest_cons hentries]
    have hfound : t.openRuns.lookup (runs.foldl older best).1 = some (runs.foldl older best).2 :=
      AList.mem_lookup_iff.2 (hentries ▸ foldl_older_mem runs best)
    have hle := foldl_older_le runs best _ (hentries ▸ hentry)
    -- the row of what was found is not behind the first one
    have hsorted := hrows ▸ t.recency.sorted
    rcases mem_cons.1 (hrows ▸ h.row hfound) with heq | hrest
    · exact congrArg some (congrArg Prod.snd heq)
    · have hlt := (pairwise_cons.1 hsorted).1 _ hrest
      simp only [hlast] at hle
      exact absurd hlt (Nat.not_lt.2 hle)

theorem Inverse.oldest_nil (h : Inverse bound t) (hrows : t.recency.rows = []) :
    t.oldest = none := by
  cases hentries : t.openRuns.entries with
  | nil => rw [FoldEngine.oldest, hentries]; rfl
  | cons best runs =>
    have hbest : t.openRuns.lookup best.1 = some best.2 :=
      AList.mem_lookup_iff.2 (hentries ▸ mem_cons_self)
    have hrow := h.row hbest
    rw [hrows] at hrow
    exact absurd hrow not_mem_nil

theorem enforcePatternCap_toFoldEngine (h : Inverse bound t) (fuel : ℕ) :
    (FoldTables.enforcePatternCap fuel t).toFoldEngine =
      FoldEngine.enforcePatternCap fuel t.toFoldEngine ∧
    Inverse bound (FoldTables.enforcePatternCap fuel t) := by
  induction fuel generalizing t with
  | zero => exact ⟨rfl, h⟩
  | succ fuel ih =>
    unfold FoldTables.enforcePatternCap FoldEngine.enforcePatternCap
    split_ifs with hcap
    · cases hrows : t.recency.rows with
      | nil =>
        simp only [h.oldest_nil hrows]
        exact ⟨trivial, h⟩
      | cons row rest =>
        have hmem : row ∈ t.recency.rows := hrows ▸ mem_cons_self
        simp only [h.oldest_eq hrows]
        obtain ⟨hengine, hinverse⟩ := ih (h.closeRow hmem)
        exact ⟨hengine, hinverse⟩
    · exact ⟨rfl, h⟩

/-- A run that is closed and opened now. -/
theorem Inverse.reopen (h : Inverse bound t) (pattern : String) (serial : ℕ) :
    ((t.closePattern pattern).openRun pattern ⟨serial, bound⟩).toFoldEngine =
      { t.toFoldEngine with
        openRuns := (t.openRuns.erase pattern).insert pattern ⟨serial, bound⟩ } ∧
    Inverse (bound + 1) ((t.closePattern pattern).openRun pattern ⟨serial, bound⟩) := by
  have hclosed := closePattern_toFoldEngine t pattern
  have hruns : (t.closePattern pattern).openRuns = t.openRuns.erase pattern :=
    congrArg FoldEngine.openRuns hclosed
  refine ⟨?_, (h.closePattern pattern).openRun ?_ rfl⟩
  · have hengine : ((t.closePattern pattern).openRun pattern ⟨serial, bound⟩).toFoldEngine =
        { (t.closePattern pattern).toFoldEngine with
          openRuns := (t.closePattern pattern).openRuns.insert pattern ⟨serial, bound⟩ } := rfl
    rw [hengine, hclosed]
    rfl
  · rw [hruns]
    exact AList.lookup_erase _ _

theorem touch_eq {run : OpenRun} (hrun : t.openRuns.lookup pattern = some run) (position : ℕ) :
    t.touch pattern position =
      (t.closePattern pattern).openRun pattern ⟨run.serial, position⟩ := by
  simp only [FoldTables.touch, FoldTables.closePattern, hrun, FoldTables.openRun,
    Dict.insert_erase]

/-- A new entry; its run is opened now. -/
theorem startEntry_toFoldEngine {member : FoldMember} {isOpen : Bool} (h : Inverse bound t)
    (hmember : member.position = bound) :
    (t.startEntry pattern member isOpen).toFoldEngine =
      t.toFoldEngine.startEntry pattern member isOpen ∧
    Inverse (bound + 1) (t.startEntry pattern member isOpen) := by
  unfold FoldTables.startEntry FoldEngine.startEntry
  cases isOpen with
  | false => exact ⟨rfl, h.mem, fun row hrow => (h.before row hrow).trans (Nat.lt_succ_self _)⟩
  | true =>
    have hstarted : Inverse bound { t with
        entries := t.entries ++ [.single pattern member]
        retainedMembers := t.retainedMembers + 1 } := ⟨h.mem, h.before⟩
    obtain ⟨hengine, hinverse⟩ :=
      hstarted.reopen pattern (t.baseSerial + t.entries.length)
    rw [hmember]
    have hcap := enforcePatternCap_toFoldEngine hinverse t.openRuns.size.succ
    exact ⟨hcap.1.trans (congrArg _ hengine), hcap.2⟩

theorem closeStale_toFoldEngine (h : Inverse bound t) (position : ℕ) :
    (t.closeStale position).toFoldEngine = t.toFoldEngine.closeStale position ∧
      Inverse bound (t.closeStale position) :=
  ⟨closeStaleLoop_toFoldEngine h le_rfl, h.closeStaleLoop⟩

theorem closePattern_startEntry_toFoldEngine {member : FoldMember} (h : Inverse bound t)
    (hmember : member.position = bound) :
    ((t.closePattern pattern).startEntry pattern member true).toFoldEngine =
      (t.toFoldEngine.closePattern pattern).startEntry pattern member true ∧
    Inverse (bound + 1) ((t.closePattern pattern).startEntry pattern member true) := by
  rw [← closePattern_toFoldEngine]
  exact startEntry_toFoldEngine (h.closePattern pattern) hmember

/-- **The tables do not change where a row is placed.** -/
theorem place_toFoldEngine (h : Inverse t.nextPosition t) (event : FoldEvent) :
    (t.place event).toFoldEngine = t.toFoldEngine.place event ∧
      Inverse (t.nextPosition + 1) (t.place event) := by
  have hnext : Inverse t.nextPosition { t with
      nextPosition := t.nextPosition + 1
      observedEvents := t.observedEvents + 1 } := ⟨h.mem, h.before⟩
  unfold FoldTables.place FoldEngine.place
  simp only
  cases t.config.enabled with
  | false => exact startEntry_toFoldEngine hnext rfl
  | true =>
    cases event.key with
    | none => exact startEntry_toFoldEngine hnext rfl
    | some pattern =>
      obtain ⟨hengine, hinverse⟩ := closeStale_toFoldEngine hnext t.nextPosition
      simp only
      rw [← hengine]
      generalize FoldTables.closeStale _ t.nextPosition = closed at hinverse ⊢
      cases hrun : closed.openRuns.lookup pattern with
      | none => exact startEntry_toFoldEngine hinverse rfl
      | some run =>
        simp only
        cases closed.indexOf run.serial with
        | none => exact closePattern_startEntry_toFoldEngine hinverse rfl
        | some index =>
          simp only
          split_ifs
          · -- the entry is extended, and its run is touched
            have happended : Inverse t.nextPosition
                (closed.appendMember index ⟨event.id, t.nextPosition⟩) :=
              ⟨hinverse.mem, hinverse.before⟩
            obtain ⟨hreopened, hboth⟩ := happended.reopen pattern run.serial
            have hrun' : (closed.appendMember index ⟨event.id, t.nextPosition⟩).openRuns.lookup
                pattern = some run := hrun
            rw [touch_eq hrun']
            refine ⟨hreopened.trans ?_, hboth⟩
            rw [Dict.insert_erase]
            rfl
          · exact closePattern_startEntry_toFoldEngine hinverse rfl

theorem foldl_closePattern_toFoldEngine (h : Inverse bound t) (patterns : List String) :
    (patterns.foldl FoldTables.closePattern t).toFoldEngine = { t.toFoldEngine with
      openRuns := patterns.foldl (fun runs pattern => runs.erase pattern) t.openRuns } ∧
    Inverse bound (patterns.foldl FoldTables.closePattern t) := by
  induction patterns generalizing t with
  | nil => exact ⟨rfl, h⟩
  | cons pattern patterns ih =>
    obtain ⟨hengine, hinverse⟩ := ih (h.closePattern pattern)
    refine ⟨hengine.trans ?_, hinverse⟩
    rw [closePattern_toFoldEngine]
    rfl

theorem enforceRetention_toFoldEngine (h : Inverse bound t) :
    t.enforceRetention.toFoldEngine = t.toFoldEngine.enforceRetention ∧
      Inverse bound t.enforceRetention := by
  have hdrained : Inverse bound { t with
      entries := t.entries.drop t.evicted
      retainedMembers := t.retainedMembers - ((t.entries.take t.evicted).map (·.count)).sum
      evictedMembers := t.evictedMembers + ((t.entries.take t.evicted).map (·.count)).sum } :=
    ⟨h.mem, h.before⟩
  obtain ⟨hengine, hinverse⟩ :=
    foldl_closePattern_toFoldEngine hdrained ((t.entries.take t.evicted).map (·.pattern))
  refine ⟨?_, hinverse.mem, hinverse.before⟩
  unfold FoldTables.enforceRetention FoldEngine.enforceRetention
  simp only
  rw [hengine]

/-- **The tables do not change what the engine does, and they stay inverse to each other.** -/
theorem push_toFoldEngine (h : Inverse t.nextPosition t) (event : FoldEvent) :
    (t.push event).toFoldEngine = t.toFoldEngine.push event ∧
      Inverse (t.push event).nextPosition (t.push event) := by
  obtain ⟨hplaced, hinverse⟩ := place_toFoldEngine h event
  obtain ⟨hengine, hretained⟩ := enforceRetention_toFoldEngine hinverse
  have hpush : (t.push event).toFoldEngine = t.toFoldEngine.push event := by
    rw [FoldTables.push, hengine, hplaced]
    rfl
  refine ⟨hpush, ?_⟩
  rw [hpush, nextPosition_push]
  exact hretained

theorem extend_toFoldEngine (h : Inverse t.nextPosition t) (events : List FoldEvent) :
    (t.extend events).toFoldEngine = t.toFoldEngine.extend events ∧
      Inverse (t.extend events).nextPosition (t.extend events) := by
  induction events generalizing t with
  | nil => exact ⟨rfl, h⟩
  | cons event events ih =>
    obtain ⟨hpush, hinverse⟩ := push_toFoldEngine h event
    obtain ⟨hengine, hall⟩ := ih hinverse
    refine ⟨hengine.trans ?_, hall⟩
    rw [hpush]
    rfl

/-! ### The statistics -/

/-- What is observed and evicted. -/
def FoldTables.stats (t : FoldTables) : ℕ × ℕ × ℕ :=
  (t.observedEvents, t.evictedEntries, t.evictedMembers)

@[simp] theorem stats_closePattern (t : FoldTables) (pattern : String) :
    (t.closePattern pattern).stats = t.stats := by
  unfold FoldTables.closePattern
  cases t.openRuns.lookup pattern <;> rfl

@[simp] theorem stats_touch (t : FoldTables) (pattern : String) (position : ℕ) :
    (t.touch pattern position).stats = t.stats := by
  unfold FoldTables.touch
  cases t.openRuns.lookup pattern <;> rfl

@[simp] theorem stats_closeStaleLoop (threshold fuel : ℕ) (t : FoldTables) :
    (FoldTables.closeStaleLoop threshold fuel t).stats = t.stats := by
  induction fuel generalizing t with
  | zero => rfl
  | succ fuel ih =>
    unfold FoldTables.closeStaleLoop
    cases t.recency.rows with
    | nil => rfl
    | cons row rest =>
      simp only
      split_ifs
      · rfl
      · exact ih (t.closeRow row)

@[simp] theorem stats_enforcePatternCap (fuel : ℕ) (t : FoldTables) :
    (FoldTables.enforcePatternCap fuel t).stats = t.stats := by
  induction fuel generalizing t with
  | zero => rfl
  | succ fuel ih =>
    unfold FoldTables.enforcePatternCap
    split_ifs
    · cases t.recency.rows with
      | nil => rfl
      | cons row rest => exact ih (t.closeRow row)
    · rfl

@[simp] theorem stats_startEntry (t : FoldTables) (pattern : String) (member : FoldMember)
    (isOpen : Bool) : (t.startEntry pattern member isOpen).stats = t.stats := by
  unfold FoldTables.startEntry
  cases isOpen with
  | false => rfl
  | true =>
    simp only [if_true, stats_enforcePatternCap]
    exact stats_closePattern _ _

/-- A row that is placed is observed. -/
theorem stats_place (t : FoldTables) (event : FoldEvent) :
    (t.place event).stats = (t.observedEvents + 1, t.evictedEntries, t.evictedMembers) := by
  unfold FoldTables.place
  simp only
  split
  · exact stats_startEntry _ _ _ _
  · exact stats_startEntry _ _ _ _
  · -- whatever is closed, nothing else is counted
    have hstale := stats_closeStaleLoop (t.nextPosition - t.config.scope.gapLimit)
      t.recency.rows.length { t with
        nextPosition := t.nextPosition + 1
        observedEvents := t.observedEvents + 1 }
    split
    · exact (stats_startEntry _ _ _ _).trans hstale
    · split
      · exact ((stats_startEntry _ _ _ _).trans (stats_closePattern _ _)).trans hstale
      · split_ifs
        · exact (stats_touch _ _ _).trans hstale
        · exact ((stats_startEntry _ _ _ _).trans (stats_closePattern _ _)).trans hstale

@[simp] theorem stats_foldl_closePattern (patterns : List String) (t : FoldTables) :
    (patterns.foldl FoldTables.closePattern t).stats = t.stats := by
  induction patterns generalizing t with
  | nil => rfl
  | cons pattern patterns ih => rw [foldl_cons, ih, stats_closePattern]

theorem stats_enforceRetention (t : FoldTables) : t.enforceRetention.stats =
    (t.observedEvents, t.evictedEntries + t.evicted,
      t.evictedMembers + ((t.entries.take t.evicted).map (·.count)).sum) := by
  have hclosed := stats_foldl_closePattern ((t.entries.take t.evicted).map (·.pattern))
    { t with
      entries := t.entries.drop t.evicted
      retainedMembers := t.retainedMembers - ((t.entries.take t.evicted).map (·.count)).sum
      evictedMembers := t.evictedMembers + ((t.entries.take t.evicted).map (·.count)).sum }
  have hobserved := congrArg Prod.fst hclosed
  have hentries := congrArg (fun s => s.2.1) hclosed
  have hmembers := congrArg (fun s => s.2.2) hclosed
  refine Prod.ext hobserved (Prod.ext ?_ hmembers)
  exact congrArg (· + t.evicted) hentries

end Lvu.View.Fold
