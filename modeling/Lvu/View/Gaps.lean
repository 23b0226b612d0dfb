import Lvu.View.Fold
import Lvu.View.MergedOrder

/-!
# Gap navigation

A user jumps from gap to gap of a view: to the next row, or the one before, whose distance in time
from the timed row before it exceeds a threshold (`find_membership_gap`, `lvu-view/src/lib.rs`).

* `findMembershipGap` : the search, over the rows it takes for those that are shown.
* `shownTimed` : the rows that are shown and have a time.
* `nearest_searchGap` : of the rows it walks, the search finds the nearest gap beyond its anchor.
* `Navigates` : what the search is for.
* `find_gap_exact` : it walks the shown rows, unless a group before the last has several records.
* `gap_of_groups` : a gap between two groups that is not found.
-/

namespace Lvu.View.Gaps

open List

/-- `i64::MAX`. -/
def i64Max : ℤ := 2 ^ 63 - 1

/-- `i64::saturating_sub`. -/
def saturatingSub (a b : ℤ) : ℤ := max i64Min (min i64Max (a - b))

inductive GapDirection
  | forward
  | backward

structure GapHit where
  row : Fold.RowId
  gapNanos : ℤ
  previousUnixNanos : ℤ
  previousRow : Fold.RowId
deriving DecidableEq

/-- A row that has a time. -/
abbrev Timed := Fold.RowId × ℤ

/-! ### The search -/

/-- What `find_membership_gap` takes an entry of the order for. -/
def timedAt (m : Membership) (e : ℕ × ℕ) : Option Timed := do
  let source ← m.sources[e.1]?
  let sequence ← source.sequences[e.2]?
  let time ← source.times[e.2]?
  if time = noBasisTime then none else some ((source.sourceId, sequence), time)

/-- `hit`: the gap before the row at `index`. -/
def hitAt (timed : List Timed) (index : ℕ) : Option GapHit := do
  let (row, time) ← timed[index]?
  let (previousRow, previous) ← timed[index - 1]?
  some ⟨row, saturatingSub time previous, previous, previousRow⟩

/-- The gap before the row at `index` exceeds the threshold. -/
def exceeds (timed : List Timed) (threshold : ℤ) (index : ℕ) : Bool :=
  (hitAt timed index).any fun hit => threshold < hit.gapNanos

/-- Where the search starts.  An anchor that is unknown or has no time is the end that the direction
implies: one past the last row when searching backward. -/
def startOf (timed : List Timed) (anchor : Option Fold.RowId) (direction : GapDirection) : ℕ :=
  (anchor.bind fun row => timed.findIdx? fun t => t.1 = row).getD <|
    match direction with
    | .forward => 0
    | .backward => timed.length

/-- `find_membership_gap`, over the timed rows. -/
def searchGap (timed : List Timed) (anchor : Option Fold.RowId) (direction : GapDirection)
    (threshold : ℤ) : Option GapHit :=
  if timed.length < 2 then none
  else
    let start := startOf timed anchor direction
    let index := match direction with
      -- the gap at the starting row is behind the user already
      | .forward => (List.range' (start + 1) (timed.length - (start + 1))).find?
          (exceeds timed threshold)
      | .backward => (List.range' 1 (start - 1)).reverse.find? (exceeds timed threshold)
    index.bind (hitAt timed)

def findMembershipGap (m : Membership) (anchor : Option Fold.RowId) (direction : GapDirection)
    (threshold : ℤ) : Option GapHit :=
  if threshold ≤ 0 then none
  else searchGap (m.order.filterMap (timedAt m)) anchor direction threshold

/-! ### What is shown -/

/-- The time of the row that stands for an entry of the order: of a record, or of the first of a
group. -/
def unitTime (m : Membership) (e : ℕ × ℕ) : Option ℤ :=
  (m.sources[e.1]?).bind fun source =>
    (if m.grouped then (source.groups[e.2]?).map (·.start) else some e.2).bind fun record =>
      source.times[record]?

/-- The row that is shown for an entry of the order, if it has a time. -/
def shownAt (m : Membership) (e : ℕ × ℕ) : Option Timed := do
  let row ← Fold.rowAt m e
  let time ← unitTime m e
  if time = noBasisTime then none else some (row, time)

/-- **The timed rows that are shown**, in display order. -/
def shownTimed (m : Membership) : List Timed := m.order.filterMap (shownAt m)

/-- The row at a place is beyond the start in a direction. -/
def Beyond : GapDirection → (start index : ℕ) → Prop
  | .forward, start, index => start < index
  | .backward, start, index => 0 < index ∧ index < start

/-- A place is nearer to the start than another one. -/
def Nearer : GapDirection → (index than : ℕ) → Prop
  | .forward, index, than => index < than
  | .backward, index, than => than < index

/-- The nearest gap beyond the start, or none if there is none. -/
def IsNearest (timed : List Timed) (start : ℕ) (direction : GapDirection) (threshold : ℤ) :
    Option GapHit → Prop
  | some hit => ∃ index, Beyond direction start index ∧ hitAt timed index = some hit ∧
      threshold < hit.gapNanos ∧
      ∀ other, Beyond direction start other → Nearer direction other index →
        exceeds timed threshold other = false
  | none => ∀ index, Beyond direction start index → exceeds timed threshold index = false

/-- **Gap navigation finds the gaps that are shown.**  A search finds the nearest one beyond its
anchor; repeated forward from its own hit it makes progress, and backward from the timed row after
a hit it finds that hit. -/
structure Navigates (m : Membership) : Prop where
  nearest : ∀ anchor direction threshold, 0 < threshold →
    IsNearest (shownTimed m) (startOf (shownTimed m) anchor direction) direction threshold
      (findMembershipGap m anchor direction threshold)
  progress : ∀ anchor threshold hit again, 0 < threshold →
    findMembershipGap m anchor .forward threshold = some hit →
    findMembershipGap m (some hit.row) .forward threshold = some again →
    ((shownTimed m).map Prod.fst).idxOf hit.row < ((shownTimed m).map Prod.fst).idxOf again.row
  back : ∀ anchor direction threshold hit index next, 0 < threshold →
    findMembershipGap m anchor direction threshold = some hit →
    ((shownTimed m).map Prod.fst)[index]? = some hit.row →
    ((shownTimed m).map Prod.fst)[index + 1]? = some next →
    findMembershipGap m (some next) .backward threshold = some hit

/-! ### The search finds the nearest gap -/

variable {timed : List Timed} {anchor : Option Fold.RowId} {direction : GapDirection} {threshold : ℤ}
  {index start : ℕ} {hit : GapHit}

theorem exceeds_of_le (h : timed.length ≤ index) : exceeds timed threshold index = false := by
  simp [exceeds, hitAt, getElem?_eq_none h]

theorem exceeds_iff : exceeds timed threshold index = true ↔
    ∃ hit, hitAt timed index = some hit ∧ threshold < hit.gapNanos := by
  simp only [exceeds, Option.any_eq_true, decide_eq_true_eq]

theorem row_of_hitAt (h : hitAt timed index = some hit) :
    (timed.map Prod.fst)[index]? = some hit.row := by
  obtain ⟨t, ht, h⟩ := Option.bind_eq_some_iff.1 h
  obtain ⟨previous, -, h⟩ := Option.bind_eq_some_iff.1 h
  cases h
  rw [getElem?_map, ht, Option.map_some]

/-- From the end of a range back, the first place is the last one. -/
theorem find?_reverse_range' (p : ℕ → Bool) (s n : ℕ) :
    match (List.range' s n).reverse.find? p with
    | some i => s ≤ i ∧ i < s + n ∧ p i = true ∧ ∀ j, i < j → j < s + n → p j = false
    | none => ∀ j, s ≤ j → j < s + n → p j = false := by
  induction n with
  | zero => exact fun j hj hlt => absurd hlt (by omega)
  | succ n ih =>
    rw [range'_1_concat, reverse_append, reverse_singleton, singleton_append]
    cases hp : p (s + n) with
    | true =>
      rw [find?_cons_of_pos hp]
      exact ⟨by omega, by omega, hp, fun j hj hlt => absurd hlt (by omega)⟩
    | false =>
      have hlast : ∀ j, j < s + (n + 1) → j < s + n ∨ p j = false := by
        intro j hj
        obtain hlt | rfl := Nat.lt_or_eq_of_le (Nat.le_of_lt_succ hj)
        · exact .inl hlt
        · exact .inr hp
      rw [find?_cons_of_neg (by simp [hp])]
      cases hfind : (List.range' s n).reverse.find? p with
      | some i =>
        rw [hfind] at ih
        obtain ⟨hs, hlt, hpi, hother⟩ := ih
        exact ⟨hs, by omega, hpi, fun j hij hj => (hlast j hj).elim (hother j hij) id⟩
      | none =>
        rw [hfind] at ih
        exact fun j hs hj => (hlast j hj).elim (ih j hs) id

theorem startOf_le : startOf timed anchor direction ≤ timed.length := by
  unfold startOf
  cases hfound : anchor.bind fun row => timed.findIdx? fun t => t.1 = row with
  | none => cases direction <;> simp
  | some start =>
    obtain ⟨row, -, hrow⟩ := Option.bind_eq_some_iff.1 hfound
    obtain ⟨hlt, -⟩ := findIdx?_eq_some_iff_getElem.1 hrow
    exact hlt.le

/-- **The search finds the nearest gap beyond its anchor.** -/
theorem nearest_searchGap : IsNearest timed (startOf timed anchor direction) direction threshold
    (searchGap timed anchor direction threshold) := by
  have hle := @startOf_le timed anchor direction
  unfold searchGap
  generalize startOf timed anchor direction = start at hle
  have hsome : ∀ {index : ℕ}, exceeds timed threshold index = true →
      ∃ hit, hitAt timed index = some hit ∧ threshold < hit.gapNanos := fun h => exceeds_iff.1 h
  split_ifs with hshort
  · intro index hbeyond
    cases direction with
    | forward =>
      have hbeyond : start < index := hbeyond
      exact exceeds_of_le (by omega)
    | backward =>
      have hbeyond : 0 < index ∧ index < start := hbeyond
      omega
  · cases direction with
    | forward =>
      simp only
      cases hfind : (List.range' (start + 1) (timed.length - (start + 1))).find?
          (exceeds timed threshold) with
      | none =>
        intro index hbeyond
        have hbeyond : start < index := hbeyond
        by_cases hlt : index < timed.length
        · have hnot := find?_eq_none.1 hfind index (mem_range'_1.2 ⟨hbeyond, by omega⟩)
          simpa using hnot
        · exact exceeds_of_le (Nat.not_lt.1 hlt)
      | some index =>
        obtain ⟨hp, hmem, hbefore⟩ := find?_range'_eq_some.1 hfind
        obtain ⟨hit, hhit, hlt⟩ := hsome hp
        rw [Option.bind_some, hhit]
        refine ⟨index, (mem_range'_1.1 hmem).1, hhit, hlt, fun other hother hnear => ?_⟩
        simpa using hbefore other hother hnear
    | backward =>
      simp only
      have hback := find?_reverse_range' (exceeds timed threshold) 1 (start - 1)
      cases hfind : (List.range' 1 (start - 1)).reverse.find? (exceeds timed threshold) with
      | none =>
        rw [hfind] at hback
        intro index hbeyond
        have hbeyond : 0 < index ∧ index < start := hbeyond
        exact hback index hbeyond.1 (by omega)
      | some index =>
        rw [hfind] at hback
        obtain ⟨hpos, hlt, hp, hafter⟩ := hback
        obtain ⟨hit, hhit, hexceeds⟩ := hsome hp
        rw [Option.bind_some, hhit]
        refine ⟨index, ⟨hpos, by omega⟩, hhit, hexceeds, fun other hother hnear => ?_⟩
        have hother : 0 < other ∧ other < start := hother
        exact hafter other hnear (by omega)

/-! ### Searching on from a hit -/

theorem startOf_row (hnodup : (timed.map Prod.fst).Nodup) {row : Fold.RowId}
    (h : (timed.map Prod.fst)[index]? = some row) : startOf timed (some row) direction = index := by
  obtain ⟨hlt, hrow⟩ := List.getElem?_eq_some_iff.1 h
  have hindex : timed.findIdx? (fun t => decide (t.1 = row)) = some index := by
    rw [findIdx?_eq_some_iff_getElem]
    refine ⟨by simpa using hlt, by simpa using hrow, fun j hj => ?_⟩
    have hjlt : j < (timed.map Prod.fst).length := hj.trans hlt
    have hne : (timed.map Prod.fst)[j] ≠ row := by
      rw [← hrow]
      exact fun heq => hj.ne (hnodup.getElem_inj_iff.1 heq)
    simpa using hne
  simp [startOf, hindex]

theorem idxOf_row (hnodup : (timed.map Prod.fst).Nodup) {row : Fold.RowId}
    (h : (timed.map Prod.fst)[index]? = some row) : (timed.map Prod.fst).idxOf row = index := by
  obtain ⟨hlt, rfl⟩ := List.getElem?_eq_some_iff.1 h
  exact hnodup.idxOf_getElem index hlt

/-- **Where the search walks the rows that are shown**, and shows no row twice, it navigates. -/
theorem navigates_of_walk {m : Membership} (hwalk : m.order.filterMap (timedAt m) = shownTimed m)
    (hnodup : ((shownTimed m).map Prod.fst).Nodup) : Navigates m := by
  have hfind : ∀ anchor direction threshold, 0 < threshold →
      findMembershipGap m anchor direction threshold =
        searchGap (shownTimed m) anchor direction threshold := by
    intro anchor direction threshold hpos
    rw [findMembershipGap, if_neg (by omega), hwalk]
  refine ⟨fun anchor direction threshold hpos => ?_,
    fun anchor threshold hit again hpos hhit hagain => ?_,
    fun anchor direction threshold hit index next hpos hhit hindex hnext => ?_⟩
  · rw [hfind anchor direction threshold hpos]
    exact nearest_searchGap
  · rw [hfind _ _ _ hpos] at hhit hagain
    have hfirst := @nearest_searchGap (shownTimed m) anchor .forward threshold
    have hsecond := @nearest_searchGap (shownTimed m) (some hit.row) .forward threshold
    rw [hhit] at hfirst
    rw [hagain] at hsecond
    obtain ⟨i, -, hi, -⟩ := hfirst
    obtain ⟨j, hbeyond, hj, -⟩ := hsecond
    rw [startOf_row hnodup (row_of_hitAt hi)] at hbeyond
    rw [idxOf_row hnodup (row_of_hitAt hi), idxOf_row hnodup (row_of_hitAt hj)]
    exact hbeyond
  · rw [hfind _ _ _ hpos] at hhit ⊢
    have hfirst := @nearest_searchGap (shownTimed m) anchor direction threshold
    rw [hhit] at hfirst
    obtain ⟨i, hbeyond, hi, hlt, -⟩ := hfirst
    have hpositive : 0 < i := by
      cases direction with
      | forward => exact Nat.zero_lt_of_lt hbeyond
      | backward => exact hbeyond.1
    obtain rfl : i = index := by
      rw [← idxOf_row hnodup (row_of_hitAt hi), idxOf_row hnodup hindex]
    -- from the row behind the hit, no place is nearer than the hit
    have hback := @nearest_searchGap (shownTimed m) (some next) .backward threshold
    rw [startOf_row hnodup hnext] at hback
    have hexceeds : exceeds (shownTimed m) threshold i = true := exceeds_iff.2 ⟨hit, hi, hlt⟩
    cases hresult : searchGap (shownTimed m) (some next) .backward threshold with
    | none =>
      rw [hresult] at hback
      rw [hback i ⟨hpositive, Nat.lt_succ_self i⟩] at hexceeds
      cases hexceeds
    | some found =>
      rw [hresult] at hback
      obtain ⟨j, ⟨-, hj⟩, hfound, -, hnearest⟩ := hback
      obtain hji | rfl := Nat.lt_or_eq_of_le (Nat.le_of_lt_succ hj)
      · rw [hnearest i ⟨hpositive, Nat.lt_succ_self i⟩ hji] at hexceeds
        cases hexceeds
      · exact congrArg some (Option.some.inj (hfound.symm.trans hi))

/-! ### The rows that are walked -/

/-- An entry of the order stands for the record of its own number. -/
def Aligned (m : Membership) (e : ℕ × ℕ) : Prop :=
  ∀ source, m.sources[e.1]? = some source →
    (if m.grouped then (source.groups[e.2]?).map (·.start) else some e.2) = some e.2

theorem shownAt_eq {m : Membership} {e : ℕ × ℕ} (h : Aligned m e) : shownAt m e = timedAt m e := by
  unfold shownAt timedAt Fold.rowAt unitTime
  cases hsource : m.sources[e.1]? with
  | none => rfl
  | some source =>
    simp only [Option.bind_eq_bind, Option.bind_some, h source hsource]
    cases source.sequences[e.2]? with
    | none => rfl
    | some sequence => rfl

/-- No row is walked twice. -/
theorem nodup_timedAt {m : Membership} (hids : (m.sources.map (·.sourceId)).Nodup)
    (hsequences : ∀ source ∈ m.sources, source.sequences.Nodup) (horder : m.order.Nodup) :
    ((m.order.filterMap (timedAt m)).map Prod.fst).Nodup := by
  rw [map_filterMap]
  refine horder.filterMap fun e e' row he he' => ?_
  have hrow : ∀ {e : ℕ × ℕ}, row ∈ (timedAt m e).map Prod.fst →
      ∃ source, m.sources[e.1]? = some source ∧ ∃ sequence, source.sequences[e.2]? = some sequence ∧ row = (source.sourceId, sequence) := by
    intro e he
    obtain ⟨t, ht, hrow⟩ := Option.map_eq_some_iff.1 he
    obtain ⟨source, hsource, ht⟩ := Option.bind_eq_some_iff.1 ht
    obtain ⟨sequence, hsequence, ht⟩ := Option.bind_eq_some_iff.1 ht
    obtain ⟨time, -, ht⟩ := Option.bind_eq_some_iff.1 ht
    split_ifs at ht
    cases ht
    exact ⟨source, hsource, sequence, hsequence, hrow.symm⟩
  obtain ⟨source, hsource, sequence, hsequence, rfl⟩ := hrow he
  obtain ⟨source', hsource', sequence', hsequence', hsame⟩ := hrow he'
  obtain ⟨hid, rfl⟩ := Prod.mk.inj hsame
  have hfirst : e.1 = e'.1 := by
    refine (getElem?_inj ?_ hids).1 ?_
    · have hlt := (List.getElem?_eq_some_iff.1 hsource).1
      simpa using hlt
    · rw [getElem?_map, getElem?_map, hsource, hsource', Option.map_some, Option.map_some,
        hid]
  rw [hfirst] at hsource
  cases hsource.symm.trans hsource'
  have honce := hsequences source (mem_of_getElem? hsource)
  refine Prod.ext hfirst ((getElem?_inj ?_ honce).1 ?_)
  · exact (List.getElem?_eq_some_iff.1 hsequence).1
  · rw [hsequence, hsequence']

/-! ### Publications -/

/-- The same rows and groups, perhaps at other times. -/
structure SameRows (r r' : SourceRows) : Prop where
  sourceId : r'.sourceId = r.sourceId
  sequences : r'.sequences = r.sequences
  groups : r'.groups = r.groups

/-- Groups in the order of their rows, from the first row on. -/
structure Tiled (groups : List GroupRange) : Prop where
  first : ∀ g, groups[0]? = some g → g.start = 0
  ascending : (groups.map (·.start)).Pairwise (· < ·)

/-- Every group begins at the row of its own number: none but the last has several. -/
def Singles (groups : List GroupRange) : Prop :=
  ∀ (u : ℕ) (g : GroupRange), groups[u]? = some g → g.start = u

variable {grouped interleave : Bool} {rows rows' : List SourceRows} {m : Membership}

theorem sourceIds_same (h : List.Forall₂ SameRows rows rows') :
    rows'.map (·.sourceId) = rows.map (·.sourceId) := by
  induction h with
  | nil => rfl
  | cons hr _ ih => rw [map_cons, map_cons, hr.sourceId, ih]

theorem mem_same (h : List.Forall₂ SameRows rows rows') {r' : SourceRows} (hr : r' ∈ rows') :
    ∃ r ∈ rows, SameRows r r' := by
  induction h with
  | nil => cases hr
  | cons hsame _ ih =>
    rcases mem_cons.1 hr with rfl | hr
    · exact ⟨_, mem_cons_self, hsame⟩
    · obtain ⟨r, hmem, hsame⟩ := ih hr
      exact ⟨r, mem_cons_of_mem _ hmem, hsame⟩

theorem source_afresh {i : ℕ} {source : SourceMatches}
    (h : (afresh grouped interleave (sourcesOf rows)).sources[i]? = some source) :
    ∃ r, rows[i]? = some r ∧ source = r.matches none := by
  have h : (rows.map fun r => r.matches none)[i]? = some source := h
  rw [getElem?_map] at h
  obtain ⟨r, hr, hsource⟩ := Option.map_eq_some_iff.1 h
  exact ⟨r, hr, hsource.symm⟩

/-- **A publication whose groups have one row each, but for the last, is walked as it is shown.** -/
theorem navigates_of_singles (hdistinct : Distinct rows) (hsequences : ∀ r ∈ rows, r.sequences.Nodup)
    (hsingles : grouped = true → ∀ r ∈ rows, Singles r.groups) :
    Navigates (afresh grouped interleave (sourcesOf rows)) := by
  have hwalk : (afresh grouped interleave (sourcesOf rows)).order.filterMap
      (timedAt (afresh grouped interleave (sourcesOf rows))) =
        shownTimed (afresh grouped interleave (sourcesOf rows)) := by
    refine (filterMap_congr fun e he => shownAt_eq fun source hsource => ?_).symm
    obtain ⟨-, hunit⟩ := mem_orderOf.1 he
    obtain ⟨r, hr, rfl⟩ := source_afresh hsource
    have hlength : unitLengths (sourcesOf rows) grouped e.1 =
        if grouped then r.groups.length else r.sequences.length := by
      have hsource : (sourcesOf rows)[e.1]? = some (r.matches none) := hsource
      simp only [unitLengths, hsource, SourceRows.matches]
    change (if grouped then (r.groups[e.2]?).map (·.start) else some e.2) = some e.2
    cases grouped with
    | false => rfl
    | true =>
      have hlt : e.2 < r.groups.length := by simpa [hlength] using hunit
      rw [if_pos rfl, getElem?_eq_getElem hlt, Option.map_some]
      have hstart := hsingles rfl r (mem_of_getElem? hr) e.2 _ (getElem?_eq_getElem hlt)
      exact congrArg some hstart
  refine navigates_of_walk hwalk ?_
  rw [← hwalk]
  have horder : (orderOf grouped interleave (sourcesOf rows)).Nodup :=
    Merge.nodup_merge picks_pickSource left_unitTotal.le
  refine nodup_timedAt ?_ (fun source hsource => ?_) horder
  · have hids : (sourcesOf rows).map (·.sourceId) = rows.map (·.sourceId) := by
      simp [sourcesOf, SourceRows.matches]
    exact hids ▸ hdistinct
  · obtain ⟨r, hr, rfl⟩ := mem_map.1 hsource
    exact hsequences r hr

/-! ### A group of several rows -/

/-- The rows of a source at other times. -/
def retimed (times : ℕ → ℤ) (r : SourceRows) : SourceRows :=
  { r with times := (List.range r.sequences.length).map times, timed := by simp }

/-- The rows at other times: `times i j` is that of row `j` of source `i`. -/
def retime (times : ℕ → ℕ → ℤ) (rows : List SourceRows) : List SourceRows :=
  rows.mapIdx fun i => retimed (times i)

theorem sameRows_retime (times : ℕ → ℕ → ℤ) (rows : List SourceRows) :
    List.Forall₂ SameRows rows (retime times rows) := by
  rw [List.forall₂_iff_get]
  refine ⟨by simp [retime], fun i hi hi' => ?_⟩
  simp only [retime, get_eq_getElem, getElem_mapIdx]
  exact ⟨rfl, rfl, rfl⟩

theorem sources_retime (times : ℕ → ℕ → ℤ) (i : ℕ) :
    (afresh grouped interleave (sourcesOf (retime times rows))).sources[i]? =
      (rows[i]?).map fun r => (retimed (times i) r).matches none := by
  change ((retime times rows).map fun r => r.matches none)[i]? = _
  rw [getElem?_map, retime, getElem?_mapIdx, Option.map_map]
  rfl

theorem times_retimed (times : ℕ → ℤ) (r : SourceRows) {j : ℕ} {sequence : UInt64}
    (h : r.sequences[j]? = some sequence) :
    ((retimed times r).matches none).times[j]? = some (times j) := by
  obtain ⟨hlt, -⟩ := List.getElem?_eq_some_iff.1 h
  change ((List.range r.sequences.length).map times)[j]? = _
  rw [getElem?_map, getElem?_range hlt, Option.map_some]

theorem timedAt_retime (times : ℕ → ℕ → ℤ) (e : ℕ × ℕ) :
    timedAt (afresh grouped interleave (sourcesOf (retime times rows))) e =
      (rows[e.1]?).bind fun r => (r.sequences[e.2]?).bind fun sequence =>
        if times e.1 e.2 = noBasisTime then none else some ((r.sourceId, sequence), times e.1 e.2) := by
  unfold timedAt
  rw [sources_retime]
  cases rows[e.1]? with
  | none => rfl
  | some r =>
    have hsequences : ((retimed (times e.1) r).matches none).sequences = r.sequences := rfl
    simp only [Option.map_some, Option.bind_eq_bind, Option.bind_some, hsequences]
    cases hsequence : r.sequences[e.2]? with
    | none => rfl
    | some sequence =>
      rw [times_retimed (times e.1) r hsequence]
      rfl

/-- What is shown of the groups at other times. -/
theorem shownAt_retime (times : ℕ → ℕ → ℤ) (e : ℕ × ℕ) :
    shownAt (afresh true interleave (sourcesOf (retime times rows))) e =
      (rows[e.1]?).bind fun r => (r.groups[e.2]?).bind fun g =>
        (r.sequences[g.start]?).bind fun sequence =>
          if times e.1 g.start = noBasisTime then none
          else some ((r.sourceId, sequence), times e.1 g.start) := by
  unfold shownAt Fold.rowAt unitTime
  have hgrouped : (afresh true interleave (sourcesOf (retime times rows))).grouped = true := rfl
  rw [sources_retime]
  simp only [hgrouped, if_true]
  cases rows[e.1]? with
  | none => rfl
  | some r =>
    have hsequences : ((retimed (times e.1) r).matches none).sequences = r.sequences := rfl
    have hgroups : ((retimed (times e.1) r).matches none).groups = r.groups := rfl
    simp only [Option.map_some, Option.bind_eq_bind, Option.bind_some, hsequences, hgroups]
    cases r.groups[e.2]? with
    | none => rfl
    | some g =>
      simp only [Option.map_some, Option.bind_some]
      cases hsequence : r.sequences[g.start]? with
      | none => rfl
      | some sequence =>
        rw [times_retimed (times e.1) r hsequence]
        rfl

section
variable {α : Type*} {f : ℕ → Option α} {a b : α} {n u : ℕ}

/-- Of the units of a run, one or two are left. -/
theorem filterMap_range_two (hpos : 0 < u) (hu : u < n) (hzero : f 0 = some a) (hat : f u = some b)
    (hother : ∀ v, v ≠ 0 → v ≠ u → f v = none) : (List.range n).filterMap f = [a, b] := by
  have hall : ∀ n, (List.range n).filterMap f =
      if n = 0 then [] else if n ≤ u then [a] else [a, b] := by
    intro n
    induction n with
    | zero => rfl
    | succ n ih =>
      rw [range_succ, filterMap_append, ih]
      rcases Nat.eq_zero_or_pos n with rfl | hn
      · simp [hzero, hpos.ne']
      · by_cases hnu : n = u
        · subst hnu
          simp [hat, hn.ne']
        · rw [filterMap_cons_none (hother n hn.ne' hnu)]
          by_cases hle : n ≤ u
          · have : n + 1 ≤ u := by omega
            simp [hn.ne', hle, this]
          · have : ¬ n + 1 ≤ u := by omega
            simp [hn.ne', hle, this]
  rw [hall n, if_neg (by omega), if_neg (by omega)]

theorem length_filterMap_range (hother : ∀ v, v ≠ 0 → f v = none) (n : ℕ) :
    ((List.range n).filterMap f).length ≤ 1 := by
  induction n with
  | zero => exact Nat.zero_le 1
  | succ n ih =>
    rcases Nat.eq_zero_or_pos n with rfl | hn
    · exact length_filterMap_le f [0]
    · rw [range_succ, filterMap_append, filterMap_cons_none (hother n hn.ne')]
      simpa using ih

end

theorem filterMap_order {α : Type*} {f : ℕ × ℕ → Option α} {s : ℕ} {order : List (ℕ × ℕ)} {n : ℕ}
    (hrun : order.filter (·.1 = s) = (List.range n).map (s, ·)) (hother : ∀ e, e.1 ≠ s → f e = none) :
    order.filterMap f = (List.range n).filterMap fun v => f (s, v) := by
  have hfilter : order.filterMap f = (order.filter (·.1 = s)).filterMap f := by
    rw [filterMap_filter]
    refine filterMap_congr fun e _ => ?_
    by_cases he : e.1 = s
    · simp [he]
    · simp [he, hother e he]
  rw [hfilter, hrun, filterMap_map]
  rfl

theorem Tiled.start_lt {groups : List GroupRange} (h : Tiled groups) {i j : ℕ} {g g' : GroupRange}
    (hi : groups[i]? = some g) (hj : groups[j]? = some g') (hij : i < j) : g.start < g'.start := by
  obtain ⟨hilt, rfl⟩ := List.getElem?_eq_some_iff.1 hi
  obtain ⟨hjlt, rfl⟩ := List.getElem?_eq_some_iff.1 hj
  have hall := pairwise_iff_getElem.1 h.ascending i j (by simpa using hilt)
    (by simpa using hjlt) hij
  simpa using hall

/-- The first group that does not begin at the row of its number leaves a row that no group begins
at. -/
theorem Tiled.inner {groups : List GroupRange} (h : Tiled groups) (hnot : ¬ Singles groups) :
    ∃ u, 0 < u ∧ (∃ g, groups[u]? = some g ∧ u < g.start) ∧
      ∀ (v : ℕ) (g : GroupRange), groups[v]? = some g → g.start ≠ u := by
  classical
  have hex : ∃ (u : ℕ) (g : GroupRange), groups[u]? = some g ∧ g.start ≠ u := by
    by_contra hall
    push Not at hall
    exact hnot hall
  obtain ⟨g, hg, hne⟩ := Nat.find_spec hex
  have hbefore : ∀ w < Nat.find hex, ∀ g', groups[w]? = some g' → g'.start = w := by
    intro w hw g' hg'
    by_contra hstart
    exact Nat.find_min hex hw ⟨g', hg', hstart⟩
  generalize Nat.find hex = u at hg hne hbefore
  have hpos : 0 < u := by
    rcases Nat.eq_zero_or_pos u with rfl | hpos
    · exact absurd (h.first g hg) hne
    · exact hpos
  have hgt : u < g.start := by
    have hlt : u - 1 < groups.length := by
      have := (List.getElem?_eq_some_iff.1 hg).1
      omega
    have hprevious := getElem?_eq_getElem hlt
    have hstart := hbefore (u - 1) (by omega) _ hprevious
    have := h.start_lt hprevious hg (by omega)
    omega
  refine ⟨u, hpos, ⟨g, hg, hgt⟩, fun v g' hg' heq => ?_⟩
  rcases Nat.lt_trichotomy v u with hv | rfl | hv
  · exact absurd (heq.symm.trans (hbefore v hv g' hg')) hv.ne'
  · cases hg.symm.trans hg'
    exact hne heq
  · have := h.start_lt hg hg' hv
    omega

/-- Only the first row of source `s` and its row `u` have a time, two nanoseconds apart. -/
def innerTimes (s u i j : ℕ) : ℤ :=
  if i = s ∧ j = 0 then 0 else if i = s ∧ j = u then 2 else noBasisTime

theorem innerTimes_other {s u i j : ℕ} (h : i ≠ s ∨ j ≠ 0 ∧ j ≠ u) :
    innerTimes s u i j = noBasisTime := by
  unfold innerTimes
  rw [if_neg (by tauto), if_neg (by tauto)]

/-- **A group of several rows before the last can hide that there is no gap**: where only its inner
row `u` and the first row of the source have a time, one row is shown with a time, and two are
walked. -/
theorem not_navigates (interleave : Bool) {s : ℕ} {r : SourceRows} (hr : rows[s]? = some r)
    (htiled : Tiled r.groups) (hnot : ¬ Singles r.groups) :
    ∃ times, ¬ Navigates (afresh true interleave (sourcesOf (retime times rows))) := by
  obtain ⟨u, hpos, ⟨g, hg, hgt⟩, hinner⟩ := htiled.inner hnot
  refine ⟨innerTimes s u, fun h => ?_⟩
  have hu : u < r.groups.length := (List.getElem?_eq_some_iff.1 hg).1
  have hrow : u < r.sequences.length := hgt.trans (r.begun g (mem_of_getElem? hg))
  have hfirst : 0 < r.sequences.length := Nat.zero_lt_of_lt hrow
  have hzero : innerTimes s u s 0 = 0 := if_pos ⟨rfl, rfl⟩
  have htwo : innerTimes s u s u = 2 := by
    rw [innerTimes, if_neg (by omega), if_pos ⟨rfl, rfl⟩]
  have htimed : (0 : ℤ) ≠ noBasisTime ∧ (2 : ℤ) ≠ noBasisTime := by decide
  have hrun : (orderOf true interleave (sourcesOf (retime (innerTimes s u) rows))).filter (·.1 = s) =
      (List.range r.groups.length).map (s, ·) := by
    have hat : (sourcesOf (retime (innerTimes s u) rows))[s]? =
        some ((retimed (innerTimes s u s) r).matches none) := by
      have hsources := @sources_retime true interleave rows (innerTimes s u) s
      rw [hr] at hsources
      exact hsources
    rw [orderOf_filter (List.getElem?_eq_some_iff.1 hat).1]
    simp only [unitLengths, hat, if_true]
    rfl
  -- rows `0` and `u` are walked
  have hwalk : (afresh true interleave (sourcesOf (retime (innerTimes s u) rows))).order.filterMap
      (timedAt (afresh true interleave (sourcesOf (retime (innerTimes s u) rows)))) =
        [((r.sourceId, r.sequences[0]), 0), ((r.sourceId, r.sequences[u]), 2)] := by
    rw [afresh_order, filterMap_order hrun fun e he => ?_]
    · refine filterMap_range_two hpos hu ?_ ?_ fun v hv hvu => ?_
      · simp [timedAt_retime, hr, hfirst, hzero, htimed.1]
      · simp [timedAt_retime, hr, hrow, htwo, htimed.2]
      · simp [timedAt_retime, hr, innerTimes_other (.inr ⟨hv, hvu⟩)]
    · simp [timedAt_retime, innerTimes_other (.inl he)]
  -- of the groups, only the one at row `0` is shown with a time
  have hshown :
      (shownTimed (afresh true interleave (sourcesOf (retime (innerTimes s u) rows)))).length ≤ 1 := by
    rw [shownTimed, afresh_order, filterMap_order hrun fun e he => ?_]
    · refine length_filterMap_range (fun v hv => ?_) _
      rw [shownAt_retime]
      simp only [hr, Option.bind_some]
      cases hgroup : r.groups[v]? with
      | none => rfl
      | some g' =>
        have hlt : 0 < g'.start := by
          have hhead := getElem?_eq_getElem (Nat.zero_lt_of_lt hu)
          have := htiled.start_lt hhead hgroup (Nat.pos_of_ne_zero hv)
          omega
        simp [innerTimes_other (.inr ⟨hlt.ne', hinner v g' hgroup⟩)]
    · simp [shownAt_retime, innerTimes_other (.inl he)]
  have hhit : findMembershipGap (afresh true interleave (sourcesOf (retime (innerTimes s u) rows)))
      none .forward 1 = some ⟨(r.sourceId, r.sequences[u]), 2, 0, (r.sourceId, r.sequences[0])⟩ := by
    rw [findMembershipGap, if_neg (by decide), hwalk]
    rfl
  have hnearest := h.nearest none .forward 1 (by decide)
  rw [hhit] at hnearest
  obtain ⟨index, hbeyond, hindex, -⟩ := hnearest
  have hlt := (List.getElem?_eq_some_iff.1 (row_of_hitAt hindex)).1
  have hbeyond : 0 < index := hbeyond
  rw [length_map] at hlt
  omega

/-! ### Every publication -/

/-- **Gap navigation finds the gaps that are shown, unless a group before the last has several
rows.**  Whatever the times of the rows are, in whatever publication of a chain: the search finds
the nearest gap beyond its anchor, and goes on from its hits, if and only if the view is ungrouped
or none of its groups but the last of each source has more than one row. -/
theorem find_gap_exact (hdistinct : Distinct rows) (hsequences : ∀ r ∈ rows, r.sequences.Nodup)
    (htiled : grouped = true → ∀ r ∈ rows, Tiled r.groups) :
    (∀ rows' m, List.Forall₂ SameRows rows rows' → Chain grouped interleave rows' m → Navigates m) ↔
      (grouped = true → ∀ r ∈ rows, Singles r.groups) := by
  constructor
  · rintro h rfl r hr
    obtain ⟨s, hs, rfl⟩ := getElem_of_mem hr
    by_contra hnot
    obtain ⟨times, hlost⟩ :=
      not_navigates interleave (getElem?_eq_getElem hs) (htiled rfl _ hr) hnot
    have hsame := sameRows_retime times rows
    have hdistinct' : Distinct (retime times rows) := by
      unfold Distinct
      rw [sourceIds_same hsame]
      exact hdistinct
    exact hlost (h _ _ hsame (.first hdistinct'))
  · intro hsingles rows' m hsame hchain
    rw [chain_publish hchain]
    refine navigates_of_singles ?_ (fun r' hr' => ?_) fun hgrouped r' hr' => ?_
    · unfold Distinct
      rw [sourceIds_same hsame]
      exact hdistinct
    · obtain ⟨r, hr, heq⟩ := mem_same hsame hr'
      exact heq.sequences ▸ hsequences r hr
    · obtain ⟨r, hr, heq⟩ := mem_same hsame hr'
      exact heq.groups ▸ hsingles hgrouped r hr

/-- A source whose first three rows are a group. -/
def gapRows : List SourceRows :=
  [⟨"src", [0, 1, 2, 3], [0, 1000000000, 100000000000, 101000000000], [⟨0, 3⟩, ⟨3, 1⟩], rfl,
    by decide⟩]

/-- Ungrouped, it is navigated. -/
theorem find_gap_rows : Navigates (publish false false none gapRows) ∧
    findMembershipGap (publish false false none gapRows) none .forward 10000000000 =
      some ⟨("src", 2), 99000000000, 1000000000, ("src", 1)⟩ := by
  have hdistinct : Distinct gapRows := by
    unfold Distinct
    decide
  have hiff := @find_gap_exact false false gapRows hdistinct (by decide) fun h => by cases h
  refine ⟨hiff.2 (fun h => by cases h) _ _ ?_ (.first hdistinct), by decide +kernel⟩
  exact .cons ⟨rfl, rfl, rfl⟩ .nil

/-- **A gap between two groups that is not found**: the search walks rows `0` and `1`, while rows `0`
and `3` are shown. -/
theorem gap_of_groups :
    findMembershipGap (publish true false none gapRows) none .forward 10000000000 = none ∧
    shownTimed (publish true false none gapRows) = [(("src", 0), 0), (("src", 3), 101000000000)] ∧
    ¬ Navigates (publish true false none gapRows) := by
  have hfound :
      findMembershipGap (publish true false none gapRows) none .forward 10000000000 = none := by
    decide +kernel
  have hshown : shownTimed (publish true false none gapRows) =
      [(("src", 0), 0), (("src", 3), 101000000000)] := by
    decide +kernel
  refine ⟨hfound, hshown, fun h => ?_⟩
  have hnearest := h.nearest none .forward 10000000000 (by decide)
  rw [hfound, hshown] at hnearest
  have hgap := hnearest 1 (show 0 < 1 by decide)
  revert hgap
  decide +kernel

end Lvu.View.Gaps
