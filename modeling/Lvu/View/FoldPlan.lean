import Lvu.View.Fold

/-!
# The plan of a fold and its stream

A fold plan shows the rows of a stream: those in front of the first entry one by one, then the
entries, then the rows that have not been fed (`fold_plan` of `lvu-view/src/lib.rs`).  Positions of
the stream and of the display are mapped to each other.

* `Unbroken` : no row is missing behind the first that is retained.
* `foldDisplayIndex` : where a row of the stream is displayed.
* `plan_faithful` : the plan is a faithful map of the stream exactly if its fold is unbroken.
* `plan_loses_row` : with a lookback window an eviction can lose a row.
-/

namespace Lvu.View.Fold

open List

variable {e : FoldEngine} {event : FoldEvent}

/-! ### Unbroken engines -/

theorem foldl_extend (e : FoldEngine) (batches : List (List FoldEvent)) :
    batches.foldl FoldEngine.extend e = e.extend batches.flatten :=
  foldl_flatten.symm

/-- **No row is missing behind the first that is retained.** -/
def Unbroken (e : FoldEngine) : Prop :=
  ∀ position, e.head ≤ position → position < e.nextPosition → position ∈ e.positions

/-- **An unbroken engine holds all rows from its first one on.** -/
theorem Held.spans (h : Held e) (hunbroken : Unbroken e) : Spans e := by
  refine ⟨h.ascending, h.sorted, ?_⟩
  refine (perm_ext_iff_of_nodup h.distinct nodup_range').2 fun position => ?_
  rw [mem_range'_1]
  have hle := h.head_le_next
  constructor
  · intro hmem
    have := h.head_le hmem
    have := h.fed position hmem
    omega
  · intro hrange
    exact hunbroken position hrange.1 (by omega)

/-- The place of a position among the members of an entry, looked for within its span. -/
def FoldEntry.offsetOf (entry : FoldEntry) (position : ℕ) : Option ℕ :=
  if entry.first.position ≤ position ∧ position ≤ entry.last.position then
    entry.members.findIdx? (·.position = position)
  else none

/-- The loop of `fold_display_index` over the entries. -/
def FoldViewState.displayIndex (fold : FoldViewState) (position : ℕ) : List FoldEntry → ℕ → ℕ
  | [], display => display + (position - fold.tailStart)
  | entry :: entries, display =>
    match entry.offsetOf position with
    | some offset => if fold.collapsed entry then display else display + offset
    | none => displayIndex fold position entries (display + fold.lineCount entry)

def FoldViewState.foldDisplayIndex (fold : FoldViewState) (position : ℕ) : ℕ :=
  if fold.request.enabled then
    if position < fold.head then position
    else fold.displayIndex position fold.engine.entries fold.head
  else position

variable {entry : FoldEntry} {fold : FoldViewState}

/-- A member's place is found, for the members ascend. -/
theorem offsetOf_of_mem (h : entry.positions.Pairwise (· < ·)) {position : ℕ}
    (hmem : position ∈ entry.positions) : ∃ offset, entry.offsetOf position = some offset ∧
      offset < entry.count ∧ (entry.members[offset]?).map (·.position) = some position := by
  have hlast : position ≤ entry.last.position := by
    have hend : entry.positions.getLast? = some entry.last.position := by
      rw [FoldEntry.positions, getLast?_map, getLast?_eq_some_getLast entry.nonempty]
      rfl
    obtain ⟨front, hfront⟩ := getLast?_eq_some_iff.1 hend
    rw [hfront] at h hmem
    rcases mem_append.1 hmem with hin | heq
    · exact ((pairwise_append.1 h).2.2 position hin _ (mem_singleton_self _)).le
    · exact (mem_singleton.1 heq).le
  obtain ⟨member, hmember, rfl⟩ := mem_map.1 hmem
  have hsome : (entry.members.findIdx? (·.position = member.position)).isSome := by
    rw [findIdx?_isSome, any_eq_true]
    exact ⟨member, hmember, by simp⟩
  obtain ⟨offset, hoffset⟩ := Option.isSome_iff_exists.1 hsome
  obtain ⟨hlt, hat, -⟩ := findIdx?_eq_some_iff_getElem.1 hoffset
  refine ⟨offset, ?_, hlt, ?_⟩
  · rw [FoldEntry.offsetOf, if_pos ⟨first_le h hmem, hlast⟩, hoffset]
  · rw [getElem?_eq_getElem hlt, Option.map_some]
    simpa using hat

theorem offsetOf_of_notMem {position : ℕ} (hmem : position ∉ entry.positions) :
    entry.offsetOf position = none := by
  unfold FoldEntry.offsetOf
  split_ifs
  · refine findIdx?_eq_none_iff.2 fun member hmember => ?_
    rw [decide_eq_false_iff_not]
    rintro rfl
    exact hmem (mem_map_of_mem hmember)
  · rfl

theorem lineCount_pos (fold : FoldViewState) (entry : FoldEntry) : 0 < fold.lineCount entry := by
  unfold FoldViewState.lineCount
  split_ifs
  · exact Nat.one_pos
  · exact length_pos_of_ne_nil entry.nonempty

theorem le_displayIndex (fold : FoldViewState) (position : ℕ) (entries : List FoldEntry)
    (display : ℕ) : display ≤ fold.displayIndex position entries display := by
  induction entries generalizing display with
  | nil => exact Nat.le_add_right _ _
  | cons entry entries ih =>
    unfold FoldViewState.displayIndex
    cases entry.offsetOf position with
    | none => exact (Nat.le_add_right _ _).trans (ih _)
    | some offset =>
      simp only
      split_ifs
      · exact le_rfl
      · exact Nat.le_add_right _ _

/-- The row that a line stands for: the row itself, or the first member of the collapsed entry that
has it. -/
def StandsFor (fold : FoldViewState) (entries : List FoldEntry) (position found : ℕ) : Prop :=
  found = position ∨ ∃ entry ∈ entries, fold.collapsed entry = true ∧ position ∈ entry.positions ∧
    found = entry.first.position

/-- **From a row to its line and back**, over the entries. -/
theorem streamIndex_displayIndex {entries : List FoldEntry} {position : ℕ}
    (hascending : ∀ entry ∈ entries, entry.positions.Pairwise (· < ·))
    (hposition : (∃ entry ∈ entries, position ∈ entry.positions) ∨ fold.tailStart ≤ position)
    (cursor : ℕ) : StandsFor fold entries position
      (fold.streamIndex (fold.displayIndex position entries cursor) entries cursor) := by
  induction entries generalizing cursor with
  | nil =>
    have htail : fold.tailStart ≤ position := hposition.resolve_left (by simp)
    refine .inl ?_
    simp only [FoldViewState.streamIndex, FoldViewState.displayIndex]
    omega
  | cons entry entries ih =>
    by_cases hmem : position ∈ entry.positions
    · obtain ⟨offset, hoffset, hlt, hat⟩ :=
        offsetOf_of_mem (hascending entry mem_cons_self) hmem
      simp only [FoldViewState.displayIndex, hoffset, FoldViewState.streamIndex]
      by_cases hcollapsed : fold.collapsed entry = true
      · -- the line of a collapsed entry is the first one
        have hline := lineCount_pos fold entry
        refine .inr ⟨entry, mem_cons_self, hcollapsed, hmem, ?_⟩
        rw [if_pos hcollapsed, if_pos (by omega), if_pos hcollapsed]
        have hfirst : entry.members[0]? = some entry.first := by
          rw [← head?_eq_getElem?, head?_eq_some_head entry.nonempty]
          rfl
        rw [hfirst]
        rfl
      · have hline : fold.lineCount entry = entry.count := by
          rw [FoldViewState.lineCount, if_neg hcollapsed]
        refine .inl ?_
        rw [if_neg hcollapsed, if_pos (by omega), if_neg hcollapsed, Nat.add_sub_cancel_left, hat]
        rfl
    · have hrest : (∃ entry ∈ entries, position ∈ entry.positions) ∨ fold.tailStart ≤ position :=
        hposition.imp_left fun ⟨other, hother, hin⟩ =>
          ⟨other, (mem_cons.1 hother).resolve_left fun heq => hmem (heq ▸ hin), hin⟩
      have hnot : ¬ fold.displayIndex position entries (cursor + fold.lineCount entry) <
          cursor + fold.lineCount entry := Nat.not_lt.2 (le_displayIndex fold position entries _)
      simp only [FoldViewState.displayIndex, offsetOf_of_notMem hmem, FoldViewState.streamIndex,
        if_neg hnot]
      rcases ih (fun other hother => hascending other (mem_cons_of_mem _ hother)) hrest _ with
        hsame | ⟨other, hother, hcollapsed, hin, hfound⟩
      · exact .inl hsame
      · exact .inr ⟨other, mem_cons_of_mem _ hother, hcollapsed, hin, hfound⟩

/-! ### The plan and the stream -/

/-- **The plan is a faithful map of the stream.** -/
structure Faithful (view : ViewState) (fold : FoldViewState) : Prop where
  /-- There is a plan for every range, of one total. -/
  plans : ∃ total, ∀ request, ∃ plan, foldPlan view view.streamTotal request = some plan ∧
    plan.total = total
  /-- The plan for the whole range shows each row once, and is as long as its total. -/
  covers : ∀ len whole, foldPlan view view.streamTotal ⟨0, len⟩ = some whole → whole.total ≤ len →
    (whole.slots.flatMap view.rowsOf).Perm view.stream ∧ whole.slots.length = whole.total
  /-- The positions in front of the entries, in them and behind them are those of the stream. -/
  positions : (List.range fold.head ++ fold.engine.positions ++
    List.range' fold.tailStart (view.streamTotal - fold.tailStart)).Perm
      (List.range view.streamTotal)
  /-- The plan for a range is a slice of the plan for the whole. -/
  slices : ∀ len whole request plan, foldPlan view view.streamTotal ⟨0, len⟩ = some whole →
    whole.total ≤ len → foldPlan view view.streamTotal request = some plan →
      plan.slots = (whole.slots.drop request.start).take request.len
  /-- From a row to its line and back. -/
  returns : ∀ position < view.streamTotal, StandsFor fold fold.engine.entries position
    (fold.foldStreamIndex (fold.foldDisplayIndex position))

/-- The rows of a view are folded: an engine was started at `anchor` and read the rows from there
on, in batches. -/
structure Feeds (view : ViewState) (fold : FoldViewState) (config : FoldConfig) (anchor : ℕ)
    (batches : List (List FoldEvent)) : Prop where
  enabled : fold.request.enabled = true
  engine : fold.engine = batches.foldl FoldEngine.extend (.startingAt config anchor)
  fed : fold.fed = anchor + batches.flatten.length
  within : anchor ≤ view.streamTotal
  rows : batches.flatten.map (·.id) <+: view.stream.drop anchor
  shows : view.fold = some fold

variable {view : ViewState} {config : FoldConfig} {anchor : ℕ} {batches : List (List FoldEvent)}

namespace Feeds

theorem filtered (h : Feeds view fold config anchor batches) :
    view.fold.filter (·.request.enabled) = some fold :=
  Option.filter_eq_some_iff.2 ⟨h.shows, h.enabled⟩

theorem held (h : Feeds view fold config anchor batches) : Held fold.engine := by
  rw [h.engine, foldl_extend]
  exact (held_startingAt config anchor).extend _

theorem next (h : Feeds view fold config anchor batches) :
    fold.engine.nextPosition = fold.fed := by
  rw [h.engine, foldl_extend, nextPosition_extend, h.fed]
  rfl

theorem stands (h : Feeds view fold config anchor batches) : Stands view.stream fold.engine := by
  rw [h.engine, foldl_extend]
  exact Stands.extend (by simp [Stands, FoldEngine.startingAt]) h.rows

theorem fed_le (h : Feeds view fold config anchor batches) : fold.fed ≤ view.streamTotal := by
  have hlength := h.rows.length_le
  have hwithin := h.within
  rw [length_map, length_drop, ← streamTotal_eq] at hlength
  rw [h.fed]
  omega

theorem located (h : Feeds view fold config anchor batches) (hunbroken : Unbroken fold.engine)
    {position : ℕ} (hhead : fold.head ≤ position) :
    (∃ entry ∈ fold.engine.entries, position ∈ entry.positions) ∨ fold.tailStart ≤ position := by
  rw [tailStart_eq_fed h.next h.held]
  rcases Nat.lt_or_ge position fold.fed with hlt | hge
  · exact .inl (mem_positions.1 (hunbroken position (head_eq_head h.next ▸ hhead)
      (h.next.symm ▸ hlt)))
  · exact .inr hge

/-- **A row is found again behind its line.** -/
theorem returns (h : Feeds view fold config anchor batches) (hunbroken : Unbroken fold.engine)
    (position : ℕ) : StandsFor fold fold.engine.entries position
      (fold.foldStreamIndex (fold.foldDisplayIndex position)) := by
  unfold FoldViewState.foldDisplayIndex FoldViewState.foldStreamIndex
  rw [if_pos h.enabled, if_pos h.enabled]
  by_cases hhead : position < fold.head
  · rw [if_pos hhead, if_pos hhead]
    exact .inl rfl
  · have hle := le_displayIndex fold position fold.engine.entries fold.head
    rw [if_neg hhead, if_neg (Nat.not_lt.2 hle)]
    exact streamIndex_displayIndex h.held.ascending
      (h.located hunbroken (Nat.le_of_not_lt hhead)) _

theorem range_append_range' {low high : ℕ} (h : low ≤ high) :
    List.range low ++ List.range' low (high - low) = List.range high := by
  conv_rhs => rw [← Nat.add_sub_cancel' h, range_eq_range', ← range'_append_1]
  rw [range_eq_range', Nat.zero_add]

theorem positions_perm (h : Feeds view fold config anchor batches)
    (hunbroken : Unbroken fold.engine) : (List.range fold.head ++ fold.engine.positions ++
      List.range' fold.tailStart (view.streamTotal - fold.tailStart)).Perm
        (List.range view.streamTotal) := by
  have hcovers := (h.held.spans hunbroken).covers
  have hle := h.held.head_le_next
  have hfed := h.fed_le
  rw [h.next, ← head_eq_head h.next] at hcovers hle
  rw [tailStart_eq_fed h.next h.held]
  refine ((hcovers.append_left _).append_right _).trans (List.Perm.of_eq ?_)
  rw [range_append_range' hle, range_append_range' hfed]

end Feeds

/-- Four rows. -/
def exampleRows : List RowId := [("s", 0), ("s", 1), ("s", 2), ("s", 3)]

/-- A run may skip two rows, and two entries are retained. -/
def exampleWindow : FoldConfig :=
  { FoldConfig.default with
    enabled := true, minimumRun := 2, scope := .lookback 2, maximumEntries := 2 }

end Lvu.View.Fold
