import Lvu.View.Order
import Mathlib

/-!
# Union views

A union merges the frozen rows of several views.  The engine stacks them, keeps the first row of
each record and sorts (`lvu-query/src/union.rs`); the worker splits the rows that the filter keeps
by source, gives each the rank it has in the engine's order as its merge key, and lets
`merge_order` arrange them again (`lvu-view/src/union.rs`, `union_worker.rs`).

* `unionFrozenInputs` : the engine's order.
* `publishUnion` : the membership that is published.
* `displayed_eq_union` : the union order is displayed exactly if no source runs against it.
* `displayed_backwards` : timestamps that go backwards within a source are displayed out of order.
-/

namespace Lvu.View

open List

def maxUnionInputs : ℕ := 8

def maxUnionRows : ℕ := 1000000

def maxUnionViewIdBytes : ℕ := 256

/-- A record's identity: its source, in its textual form, and its sequence there. -/
abbrev Identity := String × UInt64

/-- `UnionFrozenRow`; the filter sees its other data too. -/
structure UnionFrozenRow (F : Type) where
  sourceId : String
  sequence : UInt64
  timestampNanos : Option ℤ
  fields : F

/-- `UnionFrozenInput`, with the sources of its view. -/
structure UnionFrozenInput (F : Type) where
  viewId : String
  sources : List String
  rows : List (UnionFrozenRow F)

/-- A row of the merged frame: a frozen row with the position of its input. -/
structure UnionRow (F : Type) extends UnionFrozenRow F where
  input : ℕ

variable {F : Type}

namespace UnionRow

/-- The columns of identity. -/
def identity (row : UnionRow F) : Identity := (row.sourceId, row.sequence)

/-- The timestamp, missing ones last. -/
def time (row : UnionRow F) : WithTop ℤ := row.timestampNanos.elim ⊤ (↑)

/-- The columns of the sort. -/
def key (row : UnionRow F) : WithTop ℤ ×ₗ ℕ ×ₗ ℕ ×ₗ String :=
  toLex (row.time, toLex (row.input, toLex (row.sequence.toNat, row.sourceId)))

/-- The first two of them. -/
def place (row : UnionRow F) : WithTop ℤ ×ₗ ℕ := toLex (row.time, row.input)

end UnionRow

/-! ### The engine -/

/-- `unique_stable` on the columns of identity, keeping the first row. -/
def uniqueStable : List (UnionRow F) → List (UnionRow F)
  | [] => []
  | row :: rows => row :: (uniqueStable rows).filter (·.identity ≠ row.identity)

/-- The frames stacked in the order of the inputs, each row tagged with its input. -/
def stacked (frames : List (List (UnionFrozenRow F))) : List (UnionRow F) :=
  frames.zipIdx.flatMap fun frame => frame.1.map fun row => { row with input := frame.2 }

def unionSortedFrames (frames : List (List (UnionFrozenRow F))) : Except String (List (UnionRow F)) :=
  if frames.length < 2 then .error "a union needs at least two input frames"
  else .ok ((uniqueStable (stacked frames)).insertionSort (·.key ≤ ·.key))

def validateUnionSpec (unionViewId : String) (inputViewIds : List String) : Except String Unit :=
  if inputViewIds.length < 2 then .error "a union needs at least two input views"
  else if inputViewIds.length > maxUnionInputs then
    .error s!"a union takes at most {maxUnionInputs} input views, got {inputViewIds.length}"
  else check [] inputViewIds
where
  /-- Its loop: `seen` are the views before. -/
  check (seen : List String) : List String → Except String Unit
    | [] => .ok ()
    | viewId :: viewIds =>
      if viewId.utf8ByteSize > maxUnionViewIdBytes ∨ unionViewId.utf8ByteSize > maxUnionViewIdBytes then
        .error s!"view identity exceeds {maxUnionViewIdBytes} bytes"
      else if viewId = unionViewId then .error s!"a union cannot contain itself ('{viewId}')"
      else if viewId ∈ seen then .error s!"input view '{viewId}' is listed twice"
      else check (viewId :: seen) viewIds

def unionFrozenInputs (unionViewId : String) (inputs : List (UnionFrozenInput F)) :
    Except String (List (UnionRow F)) := do
  validateUnionSpec unionViewId (inputs.map (·.viewId))
  let total := (inputs.map (·.rows.length)).sum
  if total > maxUnionRows then
    .error s!"union would hold {total} rows, above the {maxUnionRows} bound"
  else unionSortedFrames (inputs.map (·.rows))

/-! ### The publication -/

/-- What the publication keeps of a row: its rank is its position in the engine's order. -/
structure Ranked where
  sourceId : String
  sequence : UInt64
  time : Option ℤ
  rank : ℕ

/-- The loop of `publish_union` that ranks the rows that match. -/
def rankSurvivors : List (UnionRow F) → List Identity → ℕ → Except String (List Ranked)
  | [], [], _ => .ok []
  | [], id :: _, _ =>
    .error s!"union engine returned an unknown or out-of-order identity {id.1}:{id.2}"
  | _ :: rows, [], rank => rankSurvivors rows [] rank
  | row :: rows, id :: ids, rank =>
    if row.identity = id then do
      let ranked ← rankSurvivors rows ids (rank + 1)
      .ok (⟨row.sourceId, row.sequence, row.timestampNanos, rank⟩ :: ranked)
    else rankSurvivors rows (id :: ids) rank

/-- The members of each registered source, taken out of the map one source after another. -/
def takeSources : List String → List Ranked → List (String × List Ranked)
  | [], _ => []
  | key :: keys, ranked =>
    (key, ranked.filter (·.sourceId = key)) :: takeSources keys (ranked.filter (·.sourceId ≠ key))

/-- `members.sort_by_key`. -/
def sortMembers (members : List Ranked) : List Ranked :=
  members.insertionSort (·.sequence.toNat ≤ ·.sequence.toNat)

/-- The `SourceMatches` of a source, with the groups of its members where the view is grouped. -/
def sourceMatches (grouping : Option (List Ranked → List GroupRange)) (source : String × List Ranked) :
    SourceMatches :=
  let members := sortMembers source.2
  { sourceId := source.1
    sequences := members.map (·.sequence)
    times := members.map fun member => member.time.getD noBasisTime
    groups := (grouping.map (· members)).getD []
    mergeKeys := members.map fun member => (member.rank : ℤ)
    ascending := decide ((members.map (·.rank)).IsChain (· ≤ ·)) }

def sourceSetMoved : String :=
  "a union input source set moved; refresh requires a new union definition"

/-- `publish_union`, up to the membership: `matchedIds` are the identities that the filter kept. -/
def publishUnion (registered : List String) (inputs : List (UnionFrozenInput F))
    (merged : List (UnionRow F)) (matchedIds : List Identity)
    (grouping : Option (List Ranked → List GroupRange)) : Except String Membership := do
  if (inputs.flatMap (·.sources)).toFinset ≠ registered.toFinset then .error sourceSetMoved
  else match matchedIds.find? (·.1 ∉ registered) with
    | some id => .error s!"union engine returned an unregistered source identity {id.1}"
    | none =>
      let ranked ← rankSurvivors merged matchedIds 0
      let sources := (takeSources registered ranked).map (sourceMatches grouping)
      let (order, ranks, maxKey) := mergeOrder sources grouping.isSome true none
      .ok { sources, grouped := grouping.isSome, order, ranks, maxKey }

/-- The part of `run_union_job` from the frozen inputs on: `keep` is the filter, which sees the whole
frame. -/
def runUnion (unionViewId : String) (registered : List String) (inputs : List (UnionFrozenInput F))
    (keep : List (UnionRow F) → UnionRow F → Bool)
    (grouping : Option (List Ranked → List GroupRange)) : Except String Membership := do
  let merged ← unionFrozenInputs unionViewId inputs
  publishUnion registered inputs merged ((merged.filter (keep merged)).map (·.identity)) grouping

/-- The record an entry of the display order shows. -/
def Membership.recordAt (m : Membership) (e : ℕ × ℕ) : Option Identity := do
  let source ← m.sources[e.1]?
  let sequence ← source.sequences[e.2]?
  some (source.sourceId, sequence)

/-- The records in display order. -/
def Membership.displayed (m : Membership) : List Identity := m.order.filterMap m.recordAt

/-! ### The engine's order -/

variable {rows : List (UnionRow F)} {row a b : UnionRow F}

theorem nodup_uniqueStable (rows : List (UnionRow F)) :
    ((uniqueStable rows).map (·.identity)).Nodup := by
  induction rows with
  | nil => exact nodup_nil
  | cons row rows ih =>
    rw [uniqueStable, map_cons, nodup_cons]
    refine ⟨fun hmem => ?_, ih.sublist (filter_sublist.map _)⟩
    obtain ⟨other, hother, heq⟩ := mem_map.1 hmem
    exact absurd heq (by simpa using (mem_filter.1 hother).2)

/-- What the engine keeps and sorts. -/
def survivors (inputs : List (UnionFrozenInput F)) : List (UnionRow F) :=
  uniqueStable (stacked (inputs.map (·.rows)))

/-- The engine's order. -/
def unionOrder (inputs : List (UnionFrozenInput F)) : List (UnionRow F) :=
  (survivors inputs).insertionSort (·.key ≤ ·.key)

theorem unionFrozenInputs_ok {unionViewId : String} {inputs : List (UnionFrozenInput F)}
    (h : unionFrozenInputs unionViewId inputs = .ok rows) : rows = unionOrder inputs := by
  unfold unionFrozenInputs at h
  cases hv : validateUnionSpec unionViewId (inputs.map (·.viewId)) with
  | error reason => simp [hv, bind, Except.bind] at h
  | ok u =>
    simp only [hv, bind, Except.bind, unionSortedFrames] at h
    split_ifs at h
    exact (Except.ok.inj h).symm

theorem perm_unionOrder (inputs : List (UnionFrozenInput F)) :
    (unionOrder inputs).Perm (survivors inputs) :=
  perm_insertionSort _ _

theorem nodup_unionOrder (inputs : List (UnionFrozenInput F)) :
    ((unionOrder inputs).map (·.identity)).Nodup :=
  ((perm_unionOrder inputs).map _).nodup_iff.2 (nodup_uniqueStable _)

theorem sorted_unionOrder (inputs : List (UnionFrozenInput F)) :
    (unionOrder inputs).Pairwise (·.key ≤ ·.key) := by
  have : Std.Total fun a b : UnionRow F => a.key ≤ b.key := ⟨fun a b => le_total a.key b.key⟩
  have : IsTrans (UnionRow F) fun a b => a.key ≤ b.key := ⟨fun _ _ _ => le_trans⟩
  exact pairwise_insertionSort _ _

/-! ### Ranks -/

/-- The rows that match, with their ranks from `rank` on. -/
def rankedFrom (rows : List (UnionRow F)) (rank : ℕ) : List Ranked :=
  (rows.zipIdx rank).map fun e => ⟨e.1.sourceId, e.1.sequence, e.1.timestampNanos, e.2⟩

/-- **The loop ranks exactly the rows that the filter kept.** -/
theorem rankSurvivors_filter (hn : (rows.map (·.identity)).Nodup) (keep : UnionRow F → Bool) (rank : ℕ) :
    rankSurvivors rows ((rows.filter keep).map (·.identity)) rank =
      .ok (rankedFrom (rows.filter keep) rank) := by
  induction rows generalizing rank with
  | nil => rfl
  | cons row rows ih =>
    rw [map_cons, nodup_cons] at hn
    obtain ⟨hnot, hn⟩ := hn
    by_cases hkeep : keep row = true
    · rw [filter_cons_of_pos hkeep, map_cons, rankSurvivors, if_pos rfl, ih hn]
      rfl
    · rw [filter_cons_of_neg hkeep]
      -- the row is passed over: the next match is another record
      have hskip : ∀ ids : List Identity, row.identity ∉ ids →
          rankSurvivors (row :: rows) ids rank = rankSurvivors rows ids rank := by
        intro ids hids
        cases ids with
        | nil => rfl
        | cons id ids =>
          rw [rankSurvivors, if_neg]
          rintro rfl
          exact hids mem_cons_self
      rw [hskip, ih hn]
      exact fun hmem => hnot (map_subset _ (filter_subset_self rows) hmem)

/-- The record of a ranked row. -/
def Ranked.identity (r : Ranked) : Identity := (r.sourceId, r.sequence)

theorem row_of_ranked {r : Ranked} (h : r ∈ rankedFrom rows 0) :
    ∃ row, rows[r.rank]? = some row ∧ row.identity = r.identity := by
  obtain ⟨⟨row, rank⟩, hmem, rfl⟩ := mem_map.1 h
  exact ⟨row, mem_zipIdx_iff_getElem?.1 hmem, rfl⟩

theorem map_identity_rankedFrom (rows : List (UnionRow F)) (rank : ℕ) :
    (rankedFrom rows rank).map Ranked.identity = rows.map (·.identity) := by
  unfold rankedFrom
  rw [map_map]
  exact (map_map (f := Prod.fst) (g := UnionRow.identity)).symm.trans
    (congrArg _ (zipIdx_map_fst ..))

theorem map_rank_rankedFrom (rows : List (UnionRow F)) :
    (rankedFrom rows 0).map (·.rank) = List.range rows.length := by
  unfold rankedFrom
  rw [map_map, range_eq_range']
  exact zipIdx_map_snd ..

/-! ### Sources -/

variable {ranked : List Ranked} {keys : List String} {key : String} {members : List Ranked}

theorem sourceId_of_takeSources (h : (key, members) ∈ takeSources keys ranked) {r : Ranked}
    (hr : r ∈ members) : r.sourceId = key := by
  induction keys generalizing ranked with
  | nil => exact absurd h not_mem_nil
  | cons first keys ih =>
    rcases mem_cons.1 h with heq | h
    · obtain ⟨rfl, rfl⟩ := Prod.mk.inj heq
      simpa using (mem_filter.1 hr).2
    · exact ih h

theorem mem_of_takeSources (h : (key, members) ∈ takeSources keys ranked) :
    members.Sublist ranked := by
  induction keys generalizing ranked with
  | nil => exact absurd h not_mem_nil
  | cons first keys ih =>
    rcases mem_cons.1 h with heq | h
    · obtain ⟨rfl, rfl⟩ := Prod.mk.inj heq
      exact filter_sublist
    · exact (ih h).trans filter_sublist

theorem pairwise_takeSources (keys : List String) (ranked : List Ranked) :
    (takeSources keys ranked).Pairwise fun a b => ∀ x ∈ a.2, ∀ y ∈ b.2, x.sourceId ≠ y.sourceId := by
  induction keys generalizing ranked with
  | nil => exact List.Pairwise.nil
  | cons key keys ih =>
    refine List.Pairwise.cons ?_ (ih _)
    rintro ⟨key', members⟩ hmem x hx y hy heq
    have hxkey : x.sourceId = key := by simpa using (mem_filter.1 hx).2
    have hykey : y.sourceId ≠ key := by
      simpa using (mem_filter.1 ((mem_of_takeSources hmem).subset hy)).2
    exact hykey (heq ▸ hxkey)

/-- The registered sources have all members between them. -/
theorem takeSources_perm (h : ∀ r ∈ ranked, r.sourceId ∈ keys) :
    ((takeSources keys ranked).map Prod.snd).flatten.Perm ranked := by
  induction keys generalizing ranked with
  | nil =>
    obtain rfl : ranked = [] := eq_nil_iff_forall_not_mem.2 fun r hr => not_mem_nil (h r hr)
    exact List.Perm.refl _
  | cons key keys ih =>
    have hrest : ∀ r ∈ ranked.filter (·.sourceId ≠ key), r.sourceId ∈ keys := by
      intro r hr
      obtain ⟨hmem, hne⟩ := mem_filter.1 hr
      exact (mem_cons.1 (h r hmem)).resolve_left (by simpa using hne)
    rw [takeSources, map_cons, flatten_cons]
    refine (List.Perm.append_left _ (ih hrest)).trans ?_
    have hsplit := filter_append_perm (fun r : Ranked => r.sourceId = key) ranked
    simpa using hsplit

/-- The runs that are merged: the members of each source by their sequences. -/
def runsOf (keys : List String) (ranked : List Ranked) : List (List Ranked) :=
  (takeSources keys ranked).map fun source => sortMembers source.2

theorem sortMembers_perm (members : List Ranked) : (sortMembers members).Perm members :=
  perm_insertionSort _ _

theorem sorted_sortMembers (members : List Ranked) :
    (sortMembers members).Pairwise (·.sequence.toNat ≤ ·.sequence.toNat) := by
  have : Std.Total fun a b : Ranked => a.sequence.toNat ≤ b.sequence.toNat :=
    ⟨fun a b => le_total a.sequence.toNat b.sequence.toNat⟩
  have : IsTrans Ranked fun a b => a.sequence.toNat ≤ b.sequence.toNat := ⟨fun _ _ _ => le_trans⟩
  exact pairwise_insertionSort _ _

theorem runsOf_perm (h : ∀ r ∈ ranked, r.sourceId ∈ keys) : (runsOf keys ranked).flatten.Perm ranked := by
  refine List.Perm.trans ?_ (takeSources_perm h)
  unfold runsOf
  induction takeSources keys ranked with
  | nil => exact List.Perm.refl _
  | cons source sources ih =>
    simp only [map_cons, flatten_cons]
    exact (sortMembers_perm source.2).append ih

theorem mem_runsOf {run : List Ranked} {i : ℕ} (h : (runsOf keys ranked)[i]? = some run) :
    ∃ source, (takeSources keys ranked)[i]? = some source ∧ run = sortMembers source.2 := by
  rw [runsOf, getElem?_map, Option.map_eq_some_iff] at h
  obtain ⟨source, hsource, rfl⟩ := h
  exact ⟨source, hsource, rfl⟩

/-- Different runs are of different sources. -/
theorem runsOf_disjoint {i j : ℕ} {run run' : List Ranked} (hi : (runsOf keys ranked)[i]? = some run)
    (hj : (runsOf keys ranked)[j]? = some run') (hij : i ≠ j) :
    ∀ a ∈ run, ∀ b ∈ run', a.sourceId ≠ b.sourceId := by
  obtain ⟨source, hsource, rfl⟩ := mem_runsOf hi
  obtain ⟨source', hsource', rfl⟩ := mem_runsOf hj
  obtain ⟨hil, rfl⟩ := List.getElem?_eq_some_iff.1 hsource
  obtain ⟨hjl, rfl⟩ := List.getElem?_eq_some_iff.1 hsource'
  have hpair := pairwise_iff_getElem.1 (pairwise_takeSources keys ranked)
  intro a ha b hb
  have ha' := (sortMembers_perm _).subset ha
  have hb' := (sortMembers_perm _).subset hb
  rcases Nat.lt_or_gt_of_ne hij with hlt | hgt
  · exact hpair i j hil hjl hlt a ha' b hb'
  · exact (hpair j i hjl hil hgt b hb' a ha').symm

/-! ### The display order -/

/-- No source runs against the union order: of two of its records, the later one has not the smaller
timestamp, and for equal timestamps not the earlier input. -/
def InOrder (rows : List (UnionRow F)) : Prop :=
  ∀ a ∈ rows, ∀ b ∈ rows, a.sourceId = b.sourceId → a.sequence < b.sequence → a.place ≤ b.place

theorem place_le_of_key_le (h : a.key ≤ b.key) : a.place ≤ b.place := by
  simp only [UnionRow.key, UnionRow.place, Prod.Lex.toLex_le_toLex] at h ⊢
  rcases h with htime | ⟨htime, hinput | ⟨hinput, -⟩⟩
  · exact .inl htime
  · exact .inr ⟨htime, hinput.le⟩
  · exact .inr ⟨htime, hinput.le⟩

theorem not_key_le_of_place_le (h : a.place ≤ b.place) (hseq : a.sequence < b.sequence) :
    ¬ b.key ≤ a.key := by
  have hseq' : a.sequence.toNat < b.sequence.toNat := UInt64.lt_iff_toNat_lt.1 hseq
  simp only [UnionRow.key, UnionRow.place, Prod.Lex.toLex_le_toLex] at h ⊢
  rintro (htime | ⟨htime, hinput | ⟨hinput, hlt | ⟨heq, -⟩⟩⟩)
  · rcases h with h | ⟨h, -⟩
    · exact lt_asymm h htime
    · exact absurd h.symm htime.ne
  · rcases h with h | ⟨-, h⟩
    · exact absurd htime.symm h.ne
    · exact absurd hinput (not_lt.2 h)
  · exact absurd hlt (not_lt.2 hseq'.le)
  · exact absurd heq hseq'.ne'

theorem key_le_of_rank_le {rows : List (UnionRow F)} (hsorted : rows.Pairwise (·.key ≤ ·.key))
    {i j : ℕ} (hi : rows[i]? = some a) (hj : rows[j]? = some b) (hij : i < j) : a.key ≤ b.key := by
  obtain ⟨hil, rfl⟩ := List.getElem?_eq_some_iff.1 hi
  obtain ⟨hjl, rfl⟩ := List.getElem?_eq_some_iff.1 hj
  exact pairwise_iff_getElem.1 hsorted i j hil hjl hij

/-- In a source that runs with the order, ranks ascend with sequences. -/
theorem rank_le_of_sequence_le {rows : List (UnionRow F)} (hsorted : rows.Pairwise (·.key ≤ ·.key))
    (hn : (rows.map (·.identity)).Nodup) (h : InOrder rows) {x y : Ranked}
    (hx : x ∈ rankedFrom rows 0) (hy : y ∈ rankedFrom rows 0) (hsource : x.sourceId = y.sourceId)
    (hseq : x.sequence.toNat ≤ y.sequence.toNat) : x.rank ≤ y.rank := by
  obtain ⟨a, ha, hxa⟩ := row_of_ranked hx
  obtain ⟨b, hb, hyb⟩ := row_of_ranked hy
  obtain ⟨hasource, haseq⟩ := Prod.mk.inj hxa
  obtain ⟨hbsource, hbseq⟩ := Prod.mk.inj hyb
  by_contra hlt
  have hkey := key_le_of_rank_le hsorted hb ha (Nat.not_le.1 hlt)
  rcases hseq.lt_or_eq with hless | heq
  · have hless' : a.sequence < b.sequence := by
      rw [haseq, hbseq]
      exact UInt64.lt_iff_toNat_lt.2 hless
    have hplace := h a (mem_of_getElem? ha) b (mem_of_getElem? hb)
      (hasource.trans (hsource.trans hbsource.symm)) hless'
    exact not_key_le_of_place_le hplace hless' hkey
  · -- the same record stands at one position only
    have hid : a.identity = b.identity := by
      rw [hxa, hyb, Ranked.identity, Ranked.identity, hsource, UInt64.toNat_inj.1 heq]
    have hpos : x.rank = y.rank := by
      obtain ⟨hxl, rfl⟩ := List.getElem?_eq_some_iff.1 ha
      obtain ⟨hyl, rfl⟩ := List.getElem?_eq_some_iff.1 hb
      refine (nodup_iff_injective_get.1 hn).eq_iff (a := ⟨x.rank, by simpa using hxl⟩)
        (b := ⟨y.rank, by simpa using hyl⟩) |>.1 ?_ |> Fin.mk.inj
      simpa using hid
    exact hlt hpos.le

/-- What is displayed of `rows`, merged by rank. -/
def arranged (keys : List String) (rows : List (UnionRow F)) (rank : ℕ → ℕ → ℤ) (fuel : ℕ) :
    List Ranked :=
  let runs := runsOf keys (rankedFrom rows 0)
  Merge.shown runs (Merge.merge (Merge.least runs.length (Merge.runLength runs) rank) fuel fun _ => 0)

section
variable {rows : List (UnionRow F)} {rank : ℕ → ℕ → ℤ} {fuel : ℕ}
  (hkeys : ∀ row ∈ rows, row.sourceId ∈ keys)
  (hrank : ∀ e r, Merge.unitAt (runsOf keys (rankedFrom rows 0)) e = some r → rank e.1 e.2 = (r.rank : ℤ))
  (hfuel : Merge.left (runsOf keys (rankedFrom rows 0)).length
    (Merge.runLength (runsOf keys (rankedFrom rows 0))) (fun _ => 0) ≤ fuel)
include hkeys hfuel

theorem arranged_perm : (arranged keys rows rank fuel).Perm (rankedFrom rows 0) := by
  refine (Merge.shown_perm Merge.picks_least hfuel).trans (runsOf_perm fun r hr => ?_)
  obtain ⟨row, hrow, hid⟩ := row_of_ranked hr
  have hsource : row.sourceId = r.sourceId := congrArg Prod.fst hid
  exact hsource ▸ hkeys row (mem_of_getElem? hrow)

omit hkeys in
theorem arranged_sequences : (arranged keys rows rank fuel).Pairwise fun x y =>
    x.sourceId = y.sourceId → x.sequence.toNat ≤ y.sequence.toNat := by
  refine Merge.pairwise_shown Merge.picks_least hfuel (fun run hrun => ?_) ?_
  · obtain ⟨source, -, rfl⟩ := mem_map.1 hrun
    exact (sorted_sortMembers source.2).imp fun {a b} hle (_ : a.sourceId = b.sourceId) => hle
  · intro i j run run' hi hj hij x hx y hy heq
    exact absurd heq (runsOf_disjoint hi hj hij x hx y hy)

include hrank in
/-- **The rows are displayed in order exactly if no source runs against it.** -/
theorem arranged_eq (hsorted : rows.Pairwise (·.key ≤ ·.key)) (hn : (rows.map (·.identity)).Nodup) :
    (arranged keys rows rank fuel).map Ranked.identity = rows.map (·.identity) ↔ InOrder rows := by
  have hperm : (arranged keys rows rank fuel).Perm (rankedFrom rows 0) := arranged_perm hkeys hfuel
  constructor
  · intro heq x hx y hy hsource hseq
    -- a source is displayed by its sequences, and the rows are sorted by their keys
    have hsequences : (rows.map (·.identity)).Pairwise fun p q : Identity =>
        p.1 = q.1 → p.2.toNat ≤ q.2.toNat := by
      rw [← heq]
      exact pairwise_map.2 (arranged_sequences hfuel)
    have hboth : rows.Pairwise fun a b => (a.key ≤ b.key ∧
        (a.sourceId = b.sourceId → a.sequence.toNat ≤ b.sequence.toNat)) :=
      hsorted.and (pairwise_map.1 hsequences)
    have hseq' : x.sequence.toNat < y.sequence.toNat := UInt64.lt_iff_toNat_lt.1 hseq
    obtain ⟨i, hi⟩ := mem_iff_getElem?.1 hx
    obtain ⟨j, hj⟩ := mem_iff_getElem?.1 hy
    obtain ⟨hil, rfl⟩ := List.getElem?_eq_some_iff.1 hi
    obtain ⟨hjl, rfl⟩ := List.getElem?_eq_some_iff.1 hj
    rcases Nat.lt_trichotomy i j with hlt | rfl | hgt
    · exact place_le_of_key_le (pairwise_iff_getElem.1 hboth i j hil hjl hlt).1
    · exact absurd hseq' (lt_irrefl _)
    · have := (pairwise_iff_getElem.1 hboth j i hjl hil hgt).2 hsource.symm
      exact absurd hseq' (not_lt.2 this)
  · intro horder
    have hascend : (arranged keys rows rank fuel).Pairwise fun x y => (x.rank : ℤ) ≤ y.rank := by
      refine Merge.sorted_shown (fun r => (r.rank : ℤ)) hrank hfuel fun run hrun => ?_
      obtain ⟨source, hsource, rfl⟩ := mem_map.1 hrun
      refine (sorted_sortMembers source.2).imp_of_mem fun {x y} hx hy hle => ?_
      have hx' := (sortMembers_perm source.2).subset hx
      have hy' := (sortMembers_perm source.2).subset hy
      have hsub := (mem_of_takeSources (show (source.1, source.2) ∈ _ from hsource)).subset
      have hxy : x.sourceId = y.sourceId := (sourceId_of_takeSources hsource hx').trans
        (sourceId_of_takeSources hsource hy').symm
      exact Int.ofNat_le.2 (rank_le_of_sequence_le hsorted hn horder (hsub hx') (hsub hy') hxy hle)
    -- a rank determines the row
    have hranks : ((rankedFrom rows 0).map (·.rank)).Nodup := by
      rw [map_rank_rankedFrom]
      exact nodup_range
    have hrows : (rankedFrom rows 0).Pairwise fun x y => x.rank ≤ y.rank := by
      refine pairwise_map.1 ?_
      rw [map_rank_rankedFrom]
      exact pairwise_le_range
    have hsame : arranged keys rows rank fuel = rankedFrom rows 0 :=
      hperm.eq_of_pairwise (fun x y hx hy hxy hyx =>
        inj_on_of_nodup_map hranks (hperm.subset hx) hy (le_antisymm hxy hyx))
        (hascend.imp Int.ofNat_le.1) hrows
    rw [hsame, map_identity_rankedFrom]

end

/-! ### The membership -/

/-- The membership of a union that is not grouped. -/
theorem recordAt_union {m : Membership}
    (hm : m.sources = (takeSources keys ranked).map (sourceMatches none)) (e : ℕ × ℕ) :
    m.recordAt e = (Merge.unitAt (runsOf keys ranked) e).map Ranked.identity := by
  unfold Membership.recordAt Merge.unitAt runsOf
  rw [hm, getElem?_map, getElem?_map]
  cases hsource : (takeSources keys ranked)[e.1]? with
  | none => rfl
  | some source =>
    simp only [Option.map_some, Option.bind_eq_bind, Option.bind_some, sourceMatches,
      getElem?_map]
    cases hunit : (sortMembers source.2)[e.2]? with
    | none => rfl
    | some r =>
      have hr := (sortMembers_perm source.2).subset (mem_of_getElem? hunit)
      have hid := sourceId_of_takeSources (mem_of_getElem? hsource) hr
      simp only [Option.map_some, Option.bind_some, Ranked.identity, hid]

theorem unitLengths_union {sources : List SourceMatches}
    (hm : sources = (takeSources keys ranked).map (sourceMatches none)) (i : ℕ) :
    unitLengths sources false i = Merge.runLength (runsOf keys ranked) i := by
  unfold unitLengths Merge.runLength runsOf
  rw [hm, getElem?_map, getElem?_map]
  cases (takeSources keys ranked)[i]? with
  | none => rfl
  | some source => simp [sourceMatches]

theorem keyOf_union {sources : List SourceMatches}
    (hm : sources = (takeSources keys ranked).map (sourceMatches none)) {e : ℕ × ℕ} {r : Ranked}
    (h : Merge.unitAt (runsOf keys ranked) e = some r) : keyOf sources false e.1 e.2 = (r.rank : ℤ) := by
  obtain ⟨run, hrun, hr⟩ := Merge.unitAt_eq_some.1 h
  obtain ⟨source, hsource, rfl⟩ := mem_runsOf hrun
  unfold keyOf
  simp [hm, hsource, sourceMatches, hr]

/-- What `publish_union` publishes when it is not grouped. -/
theorem publishUnion_ok {registered : List String} {inputs : List (UnionFrozenInput F)}
    {merged : List (UnionRow F)} {keep : UnionRow F → Bool} {m : Membership}
    (hn : (merged.map (·.identity)).Nodup)
    (h : publishUnion registered inputs merged ((merged.filter keep).map (·.identity)) none = .ok m) :
    (∀ row ∈ merged.filter keep, row.sourceId ∈ registered) ∧
      ∃ fuel rank, m.displayed = (arranged registered (merged.filter keep) rank fuel).map Ranked.identity ∧
        Merge.left (runsOf registered (rankedFrom (merged.filter keep) 0)).length
          (Merge.runLength (runsOf registered (rankedFrom (merged.filter keep) 0))) (fun _ => 0) ≤ fuel ∧
        ∀ e r, Merge.unitAt (runsOf registered (rankedFrom (merged.filter keep) 0)) e = some r →
          rank e.1 e.2 = (r.rank : ℤ) := by
  unfold publishUnion at h
  split_ifs at h with hsources
  cases hfind : ((merged.filter keep).map (·.identity)).find? (·.1 ∉ registered) with
  | some id => simp only [hfind, reduceCtorEq] at h
  | none =>
    simp only [hfind, rankSurvivors_filter hn keep 0, Option.isSome_none, mergeOrder_none,
      bind, Except.bind] at h
    cases h
    -- the sources are the runs
    generalize hsources : (takeSources registered (rankedFrom (merged.filter keep) 0)).map
      (sourceMatches none) = sources
    have hlen : sources.length = (runsOf registered (rankedFrom (merged.filter keep) 0)).length := by
      rw [← hsources, runsOf, length_map, length_map]
    have hunits : unitLengths sources false =
        Merge.runLength (runsOf registered (rankedFrom (merged.filter keep) 0)) :=
      funext fun i => unitLengths_union hsources.symm i
    refine ⟨fun row hrow => ?_, unitTotal sources false, keyOf sources false, ?_, ?_,
      fun e r => keyOf_union hsources.symm⟩
    · have hpassed := find?_eq_none.1 hfind row.identity (mem_map_of_mem hrow)
      exact not_not.1 fun hnot => hpassed (decide_eq_true hnot)
    · simp only [Membership.displayed, arranged, Merge.shown, pickSource, if_true, hlen, hunits,
        map_filterMap]
      exact congrArg (List.filterMap · _) (funext fun e => recordAt_union hsources.symm e)
    · rw [← hlen, ← hunits]
      exact left_unitTotal.le

/-- **The union order is displayed exactly if no source runs against it**; in any case the display
shows each record that the engine kept and the filter passed, and shows it once. -/
theorem displayed_eq_union {unionViewId : String} {registered : List String}
    {inputs : List (UnionFrozenInput F)} {keep : List (UnionRow F) → UnionRow F → Bool}
    {m : Membership} (h : runUnion unionViewId registered inputs keep none = .ok m) :
    (m.displayed.Nodup ∧ m.displayed.Perm
      (((unionOrder inputs).filter (keep (unionOrder inputs))).map (·.identity))) ∧
    (m.displayed = ((unionOrder inputs).filter (keep (unionOrder inputs))).map (·.identity) ↔
      InOrder ((survivors inputs).filter (keep (unionOrder inputs)))) := by
  unfold runUnion at h
  cases hmerged : unionFrozenInputs unionViewId inputs with
  | error reason => simp [hmerged, bind, Except.bind] at h
  | ok merged =>
    obtain rfl := unionFrozenInputs_ok hmerged
    simp only [hmerged, bind, Except.bind] at h
    obtain ⟨hkeys, fuel, rank, hdisplayed, hfuel, hrank⟩ := publishUnion_ok (nodup_unionOrder inputs) h
    have hsub := filter_sublist (p := keep (unionOrder inputs)) (l := unionOrder inputs)
    have hsorted := (sorted_unionOrder inputs).sublist hsub
    have hn := (nodup_unionOrder inputs).sublist (hsub.map _)
    have hperm := (arranged_perm hkeys hfuel : (arranged _ _ rank fuel).Perm _).map Ranked.identity
    rw [map_identity_rankedFrom, ← hdisplayed] at hperm
    refine ⟨⟨hperm.nodup_iff.2 hn, hperm⟩, ?_⟩
    rw [hdisplayed, arranged_eq hkeys hrank hfuel hsorted hn]
    have hmem : ∀ row, row ∈ (unionOrder inputs).filter (keep (unionOrder inputs)) ↔
        row ∈ (survivors inputs).filter (keep (unionOrder inputs)) :=
      fun row => ((perm_unionOrder inputs).filter _).mem_iff
    simp only [InOrder, hmem]

/-! ### Timestamps that go backwards -/

/-- Two views: the timestamps of the first go backwards, or not. -/
def exampleInputs (first second : ℤ) (others : List (UnionFrozenRow Unit)) :
    List (UnionFrozenInput Unit) :=
  [⟨"v", ["a"], [⟨"a", 0, some first, ()⟩, ⟨"a", 1, some second, ()⟩]⟩, ⟨"w", ["b"], others⟩]

/-- The row of the second view stands between those of the first. -/
theorem displayed_eq_union_two : ∃ m, runUnion "u" ["a", "b"] (exampleInputs 5 10 [⟨"b", 0, some 7, ()⟩])
    (fun _ _ => true) none = .ok m ∧ m.displayed = [("a", 0), ("b", 0), ("a", 1)] := by
  have hrun : (runUnion "u" ["a", "b"] (exampleInputs 5 10 [⟨"b", 0, some 7, ()⟩])
      (fun _ _ => true) none).toOption.isSome = true := by decide +kernel
  cases h : runUnion "u" ["a", "b"] (exampleInputs 5 10 [⟨"b", 0, some 7, ()⟩])
      (fun _ _ => true) none with
  | error reason => simp [h, Except.toOption] at hrun
  | ok m =>
    refine ⟨m, rfl, ((displayed_eq_union h).2.2 ?_).trans (by decide +kernel)⟩
    intro a ha b hb
    revert a b
    decide +kernel

/-- **Timestamps that go backwards within a source are displayed out of order.** -/
theorem displayed_backwards : ¬ ∀ (unionViewId : String) (registered : List String)
    (inputs : List (UnionFrozenInput Unit)) (keep : List (UnionRow Unit) → UnionRow Unit → Bool)
    (m : Membership), runUnion unionViewId registered inputs keep none = .ok m →
      m.displayed = ((unionOrder inputs).filter (keep (unionOrder inputs))).map (·.identity) := by
  intro hall
  have hrun : (runUnion "u" ["a", "b"] (exampleInputs 10 5 []) (fun _ _ => true) none).toOption.map
      Membership.displayed = some [("a", 0), ("a", 1)] := by decide +kernel
  have horder : ((unionOrder (exampleInputs 10 5 [])).filter fun _ => true).map (·.identity) =
      [("a", 1), ("a", 0)] := by decide +kernel
  cases h : runUnion "u" ["a", "b"] (exampleInputs 10 5 []) (fun _ _ => true) none with
  | error reason => simp [h, Except.toOption] at hrun
  | ok m =>
    have hdisplayed : m.displayed = [("a", 0), ("a", 1)] := by
      simpa [h, Except.toOption] using hrun
    have heq := hall _ _ _ _ m h
    rw [hdisplayed, horder] at heq
    exact absurd heq (by decide)

end Lvu.View
