import Lvu.View.Order

/-!
# The merged order of a view that goes on

Each publication of a view has its merge keys and its display order made from those of the
publication before (`merge_keys_for`, `merge_order`, `lvu-view/src/lib.rs`).  A source that goes on
has more rows behind those it had, and perhaps more groups; the last group may have grown.

* `mergeKeysFor`, `publish` : what a publication makes.
* `mergeKeysFor_extends` : merge keys that are extended are those of all times.
* `publish_extends` : an order that is extended is the one built from nothing.
* `Arranged` : what a display order is.
* `order_arranged` : **every publication of a chain is arranged**, and as if it were the first.
-/

namespace Lvu.View

open List

/-! ### Merge keys -/

/-- What the loop of `merge_keys_for` goes by. -/
structure KeyScan where
  carried : ℤ
  previous : ℤ
  ascending : Bool
  arrived : List ℤ

/-- A turn of the loop of `merge_keys_for`. -/
def KeyScan.time (s : KeyScan) (time : ℤ) : KeyScan :=
  let carried := if time ≠ noBasisTime then time else s.carried
  ⟨carried, carried, if carried < s.previous then false else s.ascending, s.arrived ++ [carried]⟩

def mergeKeysFor (prior : Option (List ℤ × Bool)) (times : List ℤ) : List ℤ × Bool :=
  let (keys, ascending) := match prior with
    | some (keys, ascending) => if keys.length ≤ times.length then (keys, ascending) else ([], true)
    | none => ([], true)
  let carried := keys.getLast?.getD i64Min
  let s := (times.drop keys.length).foldl KeyScan.time ⟨carried, carried, ascending, []⟩
  (keys ++ s.arrived, s.ascending)

/-! ### Publications -/

/-- What a query has of a source: its rows, in the order of their sequences, and its groups. -/
structure SourceRows where
  sourceId : String
  sequences : List UInt64
  times : List ℤ
  groups : List GroupRange
  /-- The times are those of the rows. -/
  timed : times.length = sequences.length
  /-- A group begins with a row. -/
  begun : ∀ g ∈ groups, g.start < sequences.length

/-- The matches of a source, behind those of the publication before. -/
def SourceRows.matches (r : SourceRows) (prior : Option SourceMatches) : SourceMatches :=
  let keys := mergeKeysFor (prior.map fun s => (s.mergeKeys, s.ascending)) r.times
  ⟨r.sourceId, r.sequences, r.times, r.groups, keys.1, keys.2⟩

/-- A publication, behind the one before. -/
def publish (grouped interleave : Bool) (prior : Option Membership) (rows : List SourceRows) :
    Membership :=
  let sources := rows.map fun r =>
    r.matches (prior.bind fun m => m.sources.find? (·.sourceId = r.sourceId))
  let (order, ranks, maxKey) := mergeOrder sources grouped interleave prior
  ⟨sources, grouped, order, ranks, maxKey⟩

/-- A source has gone on. -/
structure SourceRows.Gains (r r' : SourceRows) : Prop where
  sourceId : r'.sourceId = r.sourceId
  sequences : r.sequences <+: r'.sequences
  times : r.times <+: r'.times
  groups : r.groups.map (·.start) <+: r'.groups.map (·.start)

/-- The sources of a view have gone on, and there may be more of them. -/
def Gains (rows rows' : List SourceRows) : Prop :=
  ∃ front added, rows' = front ++ added ∧ List.Forall₂ SourceRows.Gains rows front

/-- The sources of a view are distinct. -/
def Distinct (rows : List SourceRows) : Prop := (rows.map (·.sourceId)).Nodup

/-- A chain of publications, and what the last of them published. -/
inductive Chain (grouped interleave : Bool) : List SourceRows → Membership → Prop
  | first {rows : List SourceRows} (hdistinct : Distinct rows) :
      Chain grouped interleave rows (publish grouped interleave none rows)
  | next {rows rows' : List SourceRows} {m : Membership} (h : Chain grouped interleave rows m)
      (hgains : Gains rows rows') (hdistinct : Distinct rows') :
      Chain grouped interleave rows' (publish grouped interleave (some m) rows')

/-! ### Keys that are extended -/

theorem foldl_time_previous (times : List ℤ) (s : KeyScan) (h : s.previous = s.carried) :
    (times.foldl KeyScan.time s).previous = (times.foldl KeyScan.time s).carried := by
  induction times generalizing s with
  | nil => exact h
  | cons t times ih => exact ih (s.time t) rfl

theorem foldl_time_arrived (times : List ℤ) (c p : ℤ) (a : Bool) (arrived : List ℤ) :
    times.foldl KeyScan.time ⟨c, p, a, arrived⟩ =
      { times.foldl KeyScan.time ⟨c, p, a, []⟩ with
        arrived := arrived ++ (times.foldl KeyScan.time ⟨c, p, a, []⟩).arrived } := by
  induction times generalizing c p a arrived with
  | nil => simp
  | cons t times ih =>
    rw [foldl_cons, foldl_cons, KeyScan.time, KeyScan.time, ih,
      ih _ _ _ ([] ++ _)]
    simp

theorem foldl_time_carried (times : List ℤ) (s : KeyScan)
    (h : s.arrived.getLast?.getD i64Min = s.carried) :
    (times.foldl KeyScan.time s).arrived.getLast?.getD i64Min =
      (times.foldl KeyScan.time s).carried := by
  induction times generalizing s with
  | nil => exact h
  | cons t times ih => exact ih (s.time t) (by simp [KeyScan.time])

theorem length_foldl_time (times : List ℤ) (s : KeyScan) :
    (times.foldl KeyScan.time s).arrived.length = s.arrived.length + times.length := by
  induction times generalizing s with
  | nil => rfl
  | cons t times ih =>
    rw [foldl_cons, ih]
    simp [KeyScan.time]
    omega

theorem mergeKeysFor_none (times : List ℤ) : mergeKeysFor none times =
    ((times.foldl KeyScan.time ⟨i64Min, i64Min, true, []⟩).arrived,
      (times.foldl KeyScan.time ⟨i64Min, i64Min, true, []⟩).ascending) := by
  simp [mergeKeysFor]

theorem length_mergeKeysFor (times : List ℤ) : (mergeKeysFor none times).1.length = times.length := by
  simp [mergeKeysFor_none, length_foldl_time]

/-- **Merge keys that are extended are those of all times.** -/
theorem mergeKeysFor_extends (times added : List ℤ) :
    mergeKeysFor (some (mergeKeysFor none times)) (times ++ added) =
      mergeKeysFor none (times ++ added) := by
  have hlength := length_mergeKeysFor times
  rw [mergeKeysFor_none (times ++ added), foldl_append]
  rw [mergeKeysFor_none] at hlength ⊢
  set s := times.foldl KeyScan.time ⟨i64Min, i64Min, true, []⟩ with hs
  have hprevious : s.previous = s.carried := foldl_time_previous times _ rfl
  have hcarried : s.arrived.getLast?.getD i64Min = s.carried := foldl_time_carried times _ rfl
  simp only at hlength
  unfold mergeKeysFor
  simp only [hlength, length_append, Nat.le_add_right, if_true, drop_left, hcarried]
  have hsplit := foldl_time_arrived added s.carried s.previous s.ascending s.arrived
  rw [show (⟨s.carried, s.previous, s.ascending, s.arrived⟩ : KeyScan) = s from rfl, hprevious] at hsplit
  rw [hsplit]

theorem mergeKeysFor_prefix (times added : List ℤ) :
    (mergeKeysFor none times).1 <+: (mergeKeysFor none (times ++ added)).1 := by
  rw [mergeKeysFor_none, mergeKeysFor_none, foldl_append, foldl_time_arrived added]
  exact prefix_append _ _

/-! ### Sources that go on -/

/-- The sources that are published of some rows. -/
def sourcesOf (rows : List SourceRows) : List SourceMatches := rows.map fun r => r.matches none

theorem matches_extends {r r' : SourceRows} (h : r.Gains r') :
    r'.matches (some (r.matches none)) = r'.matches none := by
  obtain ⟨added, hadded⟩ := h.times
  have hkeys := mergeKeysFor_extends r.times added
  rw [hadded] at hkeys
  unfold SourceRows.matches
  simp only [Option.map_some, Option.map_none, Prod.mk.eta, hkeys]

variable {rows rows' : List SourceRows} {i : ℕ}

theorem find_matches (h : Distinct rows) {r : SourceRows} (hr : r ∈ rows) :
    (sourcesOf rows).find? (·.sourceId = r.sourceId) = some (r.matches none) := by
  induction rows with
  | nil => cases hr
  | cons t rows ih =>
    obtain ⟨hnot, hrows⟩ := nodup_cons.1 h
    unfold sourcesOf
    rw [map_cons]
    rcases mem_cons.1 hr with rfl | hr
    · exact find?_cons_of_pos (by simp [SourceRows.matches])
    · rw [find?_cons_of_neg]
      · exact ih hrows hr
      · intro heq
        have heq : t.sourceId = r.sourceId := of_decide_eq_true heq
        exact hnot (mem_map.2 ⟨r, hr, heq.symm⟩)

theorem find_none {id : String} (h : id ∉ rows.map (·.sourceId)) :
    (sourcesOf rows).find? (·.sourceId = id) = none := by
  rw [find?_eq_none]
  intro s hs heq
  obtain ⟨t, ht, rfl⟩ := mem_map.1 hs
  exact h (mem_map.2 ⟨t, ht, of_decide_eq_true heq⟩)

theorem gains_ids {front : List SourceRows} (h : List.Forall₂ SourceRows.Gains rows front) :
    front.map (·.sourceId) = rows.map (·.sourceId) := by
  induction h with
  | nil => rfl
  | cons hr _ ih => rw [map_cons, map_cons, hr.sourceId, ih]

theorem matches_front {part front : List SourceRows} (hrows : Distinct rows)
    (hpart : ∀ r ∈ part, r ∈ rows) (h : List.Forall₂ SourceRows.Gains part front) :
    (front.map fun r => r.matches ((sourcesOf rows).find? (·.sourceId = r.sourceId))) =
      sourcesOf front := by
  unfold sourcesOf at *
  induction h with
  | nil => rfl
  | cons hr _ ih =>
    have hfind := find_matches hrows (hpart _ mem_cons_self)
    unfold sourcesOf at hfind
    rw [map_cons, map_cons, hr.sourceId, hfind, matches_extends hr,
      ih fun r hr => hpart r (mem_cons_of_mem _ hr)]

/-- **A publication that goes on has the sources it would have afresh.** -/
theorem sources_next (hgains : Gains rows rows') (hdistinct : Distinct rows') :
    (rows'.map fun r => r.matches
      ((sourcesOf rows).find? (·.sourceId = r.sourceId))) = sourcesOf rows' := by
  obtain ⟨front, added, rfl, hfront⟩ := hgains
  unfold Distinct at hdistinct
  rw [map_append, gains_ids hfront, nodup_append] at hdistinct
  obtain ⟨hrows, -, hdisjoint⟩ := hdistinct
  rw [map_append, matches_front hrows (fun _ h => h) hfront]
  unfold sourcesOf
  rw [map_append]
  refine congrArg _ (map_congr_left fun r hr => ?_)
  have hnone : (sourcesOf rows).find? (·.sourceId = r.sourceId) = none :=
    find_none fun hmem => hdisjoint _ hmem _ (mem_map.2 ⟨r, hr, rfl⟩) rfl
  unfold sourcesOf at hnone
  rw [hnone]

/-- What an order is made of stays, and there is more of it. -/
structure Continues (grouped : Bool) (sources sources' : List SourceMatches) : Prop where
  length : sources.length ≤ sources'.length
  units : ∀ i, unitLengths sources grouped i ≤ unitLengths sources' grouped i
  keys : ∀ i, ∀ unit < unitLengths sources grouped i,
    keyOf sources' grouped i unit = keyOf sources grouped i unit

theorem continues_of_gains (grouped : Bool) (hgains : Gains rows rows') :
    Continues grouped (sourcesOf rows) (sourcesOf rows') := by
  obtain ⟨front, added, rfl, hfront⟩ := hgains
  have hlength := hfront.length_eq
  -- what is published of a source at each place
  have hat (i : ℕ) : ((sourcesOf rows)[i]? = none) ∨
      ∃ r r' : SourceRows, (sourcesOf rows)[i]? = some (r.matches none) ∧
        (sourcesOf (front ++ added))[i]? = some (r'.matches none) ∧ r.Gains r' := by
    by_cases hi : i < rows.length
    · have hi' : i < front.length := hlength ▸ hi
      refine .inr ⟨rows[i], front[i], ?_, ?_, List.forall₂_iff_get.1 hfront |>.2 i hi hi'⟩
      · simp [sourcesOf, hi]
      · rw [sourcesOf, map_append, getElem?_append_left (by simpa using hi')]
        simp [hi']
    · exact .inl (by simp [sourcesOf, Nat.not_lt.1 hi])
  refine ⟨by simp [sourcesOf, hlength], fun i => ?_, fun i unit hunit => ?_⟩
  · unfold unitLengths
    rcases hat i with hnone | ⟨r, r', hr, hr', hgains⟩
    · rw [hnone]
      exact Nat.zero_le _
    · rw [hr, hr']
      cases grouped with
      | false => exact hgains.sequences.length_le
      | true => simpa [SourceRows.matches] using hgains.groups.length_le
  · rcases hat i with hnone | ⟨r, r', hr, hr', hgains⟩
    · unfold unitLengths at hunit
      rw [hnone] at hunit
      exact absurd hunit (Nat.not_lt_zero _)
    · unfold unitLengths at hunit
      unfold keyOf
      rw [hr] at hunit ⊢
      rw [hr']
      obtain ⟨more, hmore⟩ := hgains.times
      have hkey (record : ℕ) (hrecord : record < r.sequences.length) :
          (r'.matches none).mergeKeys[record]? = (r.matches none).mergeKeys[record]? := by
        have hprefix := mergeKeysFor_prefix r.times more
        rw [hmore] at hprefix
        have hlt : record < (mergeKeysFor none r.times).1.length := by
          rw [length_mergeKeysFor, r.timed]
          exact hrecord
        exact (getElem?_append_left hlt ▸ congrArg (·[record]?) hprefix.choose_spec).symm
      cases grouped with
      | false => simp only [Bool.false_eq_true, if_false, hkey unit hunit]
      | true =>
        have hunit : unit < r.groups.length := hunit
        have hstart : r'.groups[unit]?.map (·.start) = r.groups[unit]?.map (·.start) := by
          rw [← getElem?_map, ← getElem?_map]
          obtain ⟨others, hothers⟩ := hgains.groups
          rw [← hothers, getElem?_append_left (by simpa using hunit)]
        have hbegun := r.begun r.groups[unit] (getElem_mem hunit)
        have hget : r.groups[unit]?.map (·.start) = some r.groups[unit].start := by
          rw [getElem?_eq_getElem hunit, Option.map_some]
        simp only [if_true]
        have h₁ : (r.matches none).groups[unit]?.map (·.start) = some r.groups[unit].start := hget
        have h₂ : (r'.matches none).groups[unit]?.map (·.start) = some r.groups[unit].start :=
          hstart.trans hget
        rw [h₁, h₂, Option.getD_some, hkey _ hbegun]

/-! ### Orders that are extended -/

section Extended

variable {grouped interleave : Bool} {sources sources' : List SourceMatches}

/-- A publication from nothing. -/
def afresh (grouped interleave : Bool) (sources : List SourceMatches) : Membership :=
  let (order, ranks, maxKey) := mergeOrder sources grouped interleave none
  ⟨sources, grouped, order, ranks, maxKey⟩

/-- The order from nothing. -/
def orderOf (grouped interleave : Bool) (sources : List SourceMatches) : List (ℕ × ℕ) :=
  Merge.merge (pickSource sources grouped interleave) (unitTotal sources grouped) fun _ => 0

theorem afresh_order : (afresh grouped interleave sources).order = orderOf grouped interleave sources :=
  rfl

theorem afresh_ranks (i : ℕ) (hi : i < sources.length) :
    (afresh grouped interleave sources).ranks[i]? =
      some ((((orderOf grouped interleave sources).zipIdx).filter (·.1.1 = i)).map Prod.snd) := by
  simp [afresh, mergeOrder, orderOf, hi]

theorem length_ranks : (afresh grouped interleave sources).ranks.length = sources.length := by
  simp [afresh, mergeOrder]

theorem orderOf_filter (hi : i < sources.length) :
    (orderOf grouped interleave sources).filter (·.1 = i) =
      (List.range (unitLengths sources grouped i)).map (i, ·) := by
  unfold orderOf
  rw [Merge.filter_merge picks_pickSource left_unitTotal.le hi, range_eq_range']
  rfl

theorem length_orderOf : (orderOf grouped interleave sources).length = unitTotal sources grouped :=
  Merge.length_merge picks_pickSource left_unitTotal.le

theorem mem_orderOf {e : ℕ × ℕ} : e ∈ orderOf grouped interleave sources ↔
    e.1 < sources.length ∧ e.2 < unitLengths sources grouped e.1 := by
  obtain ⟨i, u⟩ := e
  unfold orderOf
  rw [Merge.mem_merge picks_pickSource left_unitTotal.le]
  simp

theorem fst_filter_zipIdx (order : List (ℕ × ℕ)) (i : ℕ) :
    ((order.zipIdx).filter (·.1.1 = i)).map Prod.fst = order.filter (·.1 = i) := by
  have hfst := filter_map (f := Prod.fst) (p := fun e : ℕ × ℕ => decide (e.1 = i))
    (l := order.zipIdx)
  rw [zipIdx_map_fst] at hfst
  exact hfst.symm

theorem done_afresh (i : ℕ) : (afresh grouped interleave sources).done i =
    if i < sources.length then unitLengths sources grouped i else 0 := by
  unfold Membership.done
  split_ifs with hi
  · rw [afresh_ranks i hi, Option.map_some, Option.getD_some, length_map,
      ← length_map Prod.fst, fst_filter_zipIdx, orderOf_filter hi, length_map,
      length_range]
  · rw [getElem?_eq_none (by rw [length_ranks]; omega)]
    rfl

theorem foldl_max_le (order : List (ℕ × ℕ)) (key : ℕ → ℕ → ℤ) (k : ℤ) :
    k ≤ order.foldl (fun k e => max k (key e.1 e.2)) k ∧
      ∀ e ∈ order, key e.1 e.2 ≤ order.foldl (fun k e => max k (key e.1 e.2)) k := by
  induction order generalizing k with
  | nil => exact ⟨le_rfl, fun _ h => by cases h⟩
  | cons e order ih =>
    obtain ⟨hle, hmem⟩ := ih (max k (key e.1 e.2))
    refine ⟨(le_max_left _ _).trans hle, fun f hf => ?_⟩
    rcases mem_cons.1 hf with rfl | hf
    · exact (le_max_right _ _).trans hle
    · exact hmem f hf

theorem key_le_maxKey (interleave : Bool) {unit : ℕ} (hi : i < sources.length)
    (hunit : unit < unitLengths sources grouped i) :
    keyOf sources grouped i unit ≤ (afresh grouped interleave sources).maxKey :=
  (foldl_max_le (orderOf grouped interleave sources) (keyOf sources grouped) i64Min).2 (i, unit)
    (mem_orderOf.2 ⟨hi, hunit⟩)

/-- **Where an order is extended, the same sources are picked** as long as units are left that were
there before. -/
theorem pick_agrees (hc : Continues grouped sources sources')
    (hextends : extendsPrior sources' grouped interleave (afresh grouped interleave sources) = true)
    {c : ℕ → ℕ} (hle : ∀ i < sources.length, c i ≤ unitLengths sources grouped i)
    (hpick : pickSource sources grouped interleave c = some i) :
    pickSource sources' grouped interleave c = some i := by
  have hnew : ∀ j, c j < unitLengths sources' grouped j →
      (j < sources.length ∧ c j < unitLengths sources grouped j) ∨
        (afresh grouped interleave sources).done j ≤ c j := by
    intro j hj
    rw [done_afresh]
    split_ifs with hlt
    · have := hle j hlt
      by_cases hmore : c j < unitLengths sources grouped j
      · exact .inl ⟨hlt, hmore⟩
      · exact .inr (Nat.not_lt.1 hmore)
    · exact .inr (Nat.zero_le _)
  unfold extendsPrior at hextends
  simp only [decide_eq_true_eq] at hextends
  obtain ⟨-, -, -, hrest⟩ := hextends
  unfold pickSource at hpick ⊢
  cases interleave with
  | true =>
    simp only [if_true] at hpick hrest ⊢
    rw [Merge.least_eq_some] at hpick ⊢
    have hi := hpick.lt
    have hikey := hc.keys i (c i) hpick.more
    have hmax := key_le_maxKey true hi hpick.more
    have hother {j : ℕ} (hj : j < sources'.length) (hjmore : c j < unitLengths sources' grouped j)
        (hjnew : (afresh grouped true sources).done j ≤ c j) :
        keyOf sources' grouped i (c i) < keyOf sources' grouped j (c j) := by
      rw [hikey]
      exact hmax.trans_lt (hrest j hj (c j) hjmore hjnew)
    refine ⟨hi.trans_le hc.length, hpick.more.trans_le (hc.units i), fun j hj hjmore => ?_,
      fun j hj hjmore => ?_⟩
    · rcases hnew j hjmore with ⟨hlt, hold⟩ | hjnew
      · rw [hikey, hc.keys j (c j) hold]
        exact hpick.least j hlt hold
      · exact (hother hj hjmore hjnew).le
    · rcases hnew j hjmore with ⟨hlt, hold⟩ | hjnew
      · rw [hikey, hc.keys j (c j) hold]
        exact hpick.first j hj hold
      · exact hother ((hj.trans hi).trans_le hc.length) hjmore hjnew
  | false =>
    simp only [Bool.false_eq_true, if_false] at hpick hrest ⊢
    rw [Merge.first_eq_some] at hpick ⊢
    obtain ⟨hi, hmore, hbefore⟩ := hpick
    refine ⟨hi.trans_le hc.length, hmore.trans_le (hc.units i), fun j hj => ?_⟩
    by_contra hjmore
    rcases hnew j (Nat.not_le.1 hjmore) with ⟨_, hold⟩ | hjnew
    · exact absurd hold (Nat.not_lt.2 (hbefore j hj))
    · -- a source before this one grew, so that none behind it has units
      have hnone := hrest j ((hj.trans hi).trans_le hc.length)
        (hjnew.trans_lt (Nat.not_le.1 hjmore)) i (hi.trans_le hc.length) hj
      have := hc.units i
      omega

/-- **An order that is extended is the one built from nothing.** -/
theorem mergeOrder_some (hc : Continues grouped sources sources') :
    mergeOrder sources' grouped interleave (some (afresh grouped interleave sources)) =
      mergeOrder sources' grouped interleave none := by
  by_cases hextends : extendsPrior sources' grouped interleave (afresh grouped interleave sources) = true
  swap
  · unfold mergeOrder
    rw [Option.filter_some, if_neg hextends]
    rfl
  have hpicked : Merge.merge (pickSource sources' grouped interleave) (unitTotal sources grouped)
      (fun _ => 0) = orderOf grouped interleave sources := by
    unfold orderOf
    rw [← left_unitTotal]
    refine Merge.merge_agree picks_pickSource (fun c _ hle _ i hpick => ?_) fun _ _ => Nat.zero_le _
    exact pick_agrees hc hextends hle hpick
  have hdone : (fun i => (afresh grouped interleave sources).done i) =
      Merge.advanced (fun _ => 0) (orderOf grouped interleave sources) := by
    funext i
    rw [done_afresh, orderOf]
    split_ifs with hi
    · exact (Merge.advanced_merge picks_pickSource left_unitTotal.le hi (Nat.zero_le _)).symm
    · rw [Merge.advanced_other picks_pickSource (Nat.not_lt.1 hi)]
  have htotal : unitTotal sources grouped ≤ unitTotal sources' grouped := by
    unfold unitTotal
    exact (Finset.sum_le_sum fun i _ => hc.units i).trans
      (Finset.sum_le_sum_of_subset (Finset.range_mono hc.length))
  obtain ⟨more, hmore⟩ := Nat.exists_eq_add_of_le htotal
  have hfull : orderOf grouped interleave sources' = orderOf grouped interleave sources ++
      Merge.merge (pickSource sources' grouped interleave) more
        fun i => (afresh grouped interleave sources).done i := by
    rw [hdone, ← hpicked, orderOf, hmore, Merge.merge_add]
  have hmoreLength : unitTotal sources' grouped - (orderOf grouped interleave sources).length = more := by
    rw [length_orderOf, hmore]
    omega
  set arrived := Merge.merge (pickSource sources' grouped interleave) more
    (fun i => (afresh grouped interleave sources).done i) with harrived
  have hnone : mergeOrder sources' grouped interleave none =
      (orderOf grouped interleave sources',
        (List.range sources'.length).map (fun i =>
          (((orderOf grouped interleave sources').zipIdx).filter (·.1.1 = i)).map Prod.snd),
        (orderOf grouped interleave sources').foldl
          (fun key e => max key (keyOf sources' grouped e.1 e.2)) i64Min) := by
    simp [mergeOrder, orderOf]
  have hsome : mergeOrder sources' grouped interleave (some (afresh grouped interleave sources)) =
      (orderOf grouped interleave sources ++ arrived,
        (List.range sources'.length).map (fun i =>
          ((afresh grouped interleave sources).ranks[i]?.getD []) ++
            ((arrived.zipIdx (orderOf grouped interleave sources).length).filter (·.1.1 = i)).map
              Prod.snd),
        arrived.foldl (fun key e => max key (keyOf sources' grouped e.1 e.2))
          (afresh grouped interleave sources).maxKey) := by
    unfold mergeOrder
    rw [Option.filter_some, if_pos hextends]
    simp only [Option.map_some, Option.getD_some, Option.bind_some, afresh_order, hmoreLength]
    rfl
  rw [hnone, hsome, hfull]
  refine Prod.ext rfl (Prod.ext (map_congr_left fun i _ => ?_) ?_)
  · -- the positions of the units that were there, and of those that arrived
    rw [zipIdx_append, filter_append, map_append, Nat.zero_add]
    refine congrArg (· ++ _) ?_
    by_cases hi : i < sources.length
    · rw [afresh_ranks i hi, Option.getD_some]
    · rw [getElem?_eq_none (by rw [length_ranks]; omega), Option.getD_none]
      have hnil : (orderOf grouped interleave sources).zipIdx.filter (·.1.1 = i) = [] := by
        rw [filter_eq_nil_iff]
        rintro ⟨e, p⟩ he
        have hlt : e.1 < sources.length := (mem_orderOf.1 (fst_mem_of_mem_zipIdx he)).1
        simp only [decide_eq_true_eq]
        omega
      rw [hnil]
      rfl
  · -- the keys of the units that were there are as before
    rw [foldl_append]
    refine congrArg (fun k => arrived.foldl _ k) ?_
    change (orderOf grouped interleave sources).foldl
      (fun key e => max key (keyOf sources grouped e.1 e.2)) i64Min = _
    refine foldl_ext _ _ _ fun k e he => ?_
    rw [hc.keys e.1 e.2 (mem_orderOf.1 he).2]

end Extended

/-- **A publication that goes on is as if it were the first.** -/
theorem publish_extends {grouped interleave : Bool} (hgains : Gains rows rows')
    (hdistinct : Distinct rows') :
    publish grouped interleave (some (publish grouped interleave none rows)) rows' =
      publish grouped interleave none rows' := by
  have hsources := sources_next hgains hdistinct
  have horder : mergeOrder (sourcesOf rows') grouped interleave
      (some (afresh grouped interleave (sourcesOf rows))) =
        mergeOrder (sourcesOf rows') grouped interleave none :=
    mergeOrder_some (continues_of_gains grouped hgains)
  have hfirst : publish grouped interleave none rows = afresh grouped interleave (sourcesOf rows) := rfl
  have hnext : publish grouped interleave none rows' = afresh grouped interleave (sourcesOf rows') := rfl
  rw [hnext, hfirst]
  unfold publish
  simp only [Option.bind_some]
  have hfound : (rows'.map fun r => r.matches
      ((afresh grouped interleave (sourcesOf rows)).sources.find? (·.sourceId = r.sourceId))) =
        sourcesOf rows' := hsources
  rw [hfound, horder]
  rfl

theorem chain_publish {grouped interleave : Bool} {m : Membership}
    (h : Chain grouped interleave rows m) : m = publish grouped interleave none rows := by
  induction h with
  | first _ => rfl
  | next _ hgains hdistinct ih =>
    rw [ih]
    exact publish_extends hgains hdistinct

/-! ### Arranged orders -/

/-- The time of the last row up to this one that has a time. -/
def filledKey (times : List ℤ) (record : ℕ) : ℤ :=
  (((times.take (record + 1)).filter (· ≠ noBasisTime)).getLast?).getD i64Min

/-- How many units of a source stand among the first `p`. -/
def Membership.taken (m : Membership) (p i : ℕ) : ℕ := ((m.order.take p).filter (·.1 = i)).length

/-- What a display order is. -/
structure Arranged (grouped interleave : Bool) (m : Membership) : Prop where
  /-- Each record has the last time before it for its key. -/
  filled : ∀ s ∈ m.sources, s.mergeKeys = (List.range s.times.length).map (filledKey s.times)
  ascending : ∀ s ∈ m.sources, s.ascending = true ↔ (i64Min :: s.mergeKeys).IsChain (· ≤ ·)
  /-- Each unit is there, once. -/
  once : m.order.Nodup
  units : ∀ i u, (i, u) ∈ m.order ↔ i < m.sources.length ∧ u < unitLengths m.sources grouped i
  /-- The units of a source are in its own order. -/
  own : ∀ i < m.sources.length, m.order.filter (·.1 = i) =
    (List.range (unitLengths m.sources grouped i)).map (i, ·)
  /-- Each unit is the head of its source, behind those that were taken. -/
  head : ∀ p i u, m.order[p]? = some (i, u) → u = m.taken p i
  /-- Interleaved, it is the first that has the least key. -/
  least : interleave = true → ∀ p i u, m.order[p]? = some (i, u) →
    Merge.Leads (unitLengths m.sources grouped) (keyOf m.sources grouped) (m.taken p)
      m.sources.length i
  /-- Concatenated, it is that of the first source that is left. -/
  first : interleave = false → ∀ p i u, m.order[p]? = some (i, u) →
    ∀ j < i, unitLengths m.sources grouped j ≤ m.taken p j
  /-- The ranks are where the units stand. -/
  ranked : m.ranks.length = m.sources.length
  ranks : ∀ p i u : ℕ, (m.ranks[i]?.bind fun ranks => ranks[u]?) = some p ↔ m.order[p]? = some (i, u)

theorem filledKey_append {times : List ℤ} {record : ℕ} (added : List ℤ) (h : record < times.length) :
    filledKey (times ++ added) record = filledKey times record := by
  unfold filledKey
  rw [take_append_of_le_length h]

theorem filledKey_last (times : List ℤ) (t : ℤ) : filledKey (times ++ [t]) times.length =
    (((times ++ [t]).filter (· ≠ noBasisTime)).getLast?).getD i64Min := by
  unfold filledKey
  rw [take_of_length_le (by simp)]

/-- What the scan over all times comes to. -/
structure KeyScan.Spec (s : KeyScan) (times : List ℤ) : Prop where
  carried : s.carried = ((times.filter (· ≠ noBasisTime)).getLast?).getD i64Min
  previous : s.previous = s.carried
  last : (i64Min :: s.arrived).getLast? = some s.carried
  arrived : s.arrived = (List.range times.length).map (filledKey times)
  ascending : s.ascending = true ↔ (i64Min :: s.arrived).IsChain (· ≤ ·)

theorem KeyScan.Spec.time {s : KeyScan} {times : List ℤ} (h : s.Spec times) (t : ℤ) :
    (s.time t).Spec (times ++ [t]) := by
  have hcarried : (s.time t).carried =
      (((times ++ [t]).filter (· ≠ noBasisTime)).getLast?).getD i64Min := by
    rw [filter_append]
    by_cases ht : t = noBasisTime
    · simp [KeyScan.time, ht, h.carried]
    · simp [KeyScan.time, ht]
  refine ⟨hcarried, rfl, ?_, ?_, ?_⟩
  · change (i64Min :: (s.arrived ++ [(s.time t).carried])).getLast? = _
    rw [← cons_append, getLast?_concat]
  · change s.arrived ++ [(s.time t).carried] = _
    rw [length_append, length_singleton, range_succ, map_append, map_singleton,
      filledKey_last, ← hcarried, h.arrived]
    refine congrArg (· ++ _) (map_congr_left fun record hrecord => ?_)
    exact (filledKey_append _ (mem_range.1 hrecord)).symm
  · change (if (s.time t).carried < s.previous then false else s.ascending) = true ↔
      (i64Min :: (s.arrived ++ [(s.time t).carried])).IsChain (· ≤ ·)
    rw [← cons_append, isChain_append, h.last, h.previous]
    by_cases hlt : (s.time t).carried < s.carried
    · simp [hlt]
    · simp [hlt, not_lt.1 hlt, h.ascending]

theorem foldl_time_spec (times : List ℤ) :
    (times.foldl KeyScan.time ⟨i64Min, i64Min, true, []⟩).Spec times := by
  induction times using List.reverseRecOn with
  | nil => exact ⟨rfl, rfl, rfl, rfl, iff_of_true rfl (isChain_singleton _)⟩
  | append_singleton times t ih =>
    rw [foldl_append]
    exact ih.time t

theorem taken_publish {grouped interleave : Bool} {sources : List SourceMatches} (p : ℕ) :
    (afresh grouped interleave sources).taken p =
      Merge.advanced (fun _ => 0) ((orderOf grouped interleave sources).take p) := by
  funext i
  rw [Merge.advanced_apply, Nat.zero_add]
  rfl

/-- The rank of a unit is its position. -/
theorem ranks_afresh {grouped interleave : Bool} {sources : List SourceMatches} (p i u : ℕ) :
    ((afresh grouped interleave sources).ranks[i]?.bind fun ranks => ranks[u]?) = some p ↔
      (afresh grouped interleave sources).order[p]? = some (i, u) := by
  rw [afresh_order]
  by_cases hi : i < sources.length
  swap
  · rw [getElem?_eq_none (by rw [length_ranks]; omega)]
    refine ⟨(fun h => by simp at h), fun h => ?_⟩
    exact absurd (mem_orderOf.1 (mem_of_getElem? h)).1 hi
  rw [afresh_ranks i hi, Option.bind_some, getElem?_map, Option.map_eq_some_iff]
  have hplaces := fst_filter_zipIdx (orderOf grouped interleave sources) i
  rw [orderOf_filter hi] at hplaces
  set placed := (orderOf grouped interleave sources).zipIdx.filter (·.1.1 = i) with hplaced
  have hunit {k : ℕ} {e : (ℕ × ℕ) × ℕ} (h : placed[k]? = some e) : e.1 = (i, k) := by
    have hfst := congrArg (·[k]?) hplaces
    simp only [getElem?_map, h, Option.map_some] at hfst
    obtain ⟨v, hv, hev⟩ := Option.map_eq_some_iff.1 hfst.symm
    obtain rfl : k = v := by
      obtain ⟨hlt, rfl⟩ := List.getElem?_eq_some_iff.1 hv
      simp
    exact hev.symm
  constructor
  · rintro ⟨e, he, rfl⟩
    have hmem := mem_of_mem_filter (mem_of_getElem? he)
    rw [← hunit he]
    exact mem_zipIdx_iff_getElem?.1 hmem
  · intro h
    have hmem : ((i, u), p) ∈ placed :=
      mem_filter.2 ⟨mem_zipIdx_iff_getElem?.2 h, by simp⟩
    obtain ⟨k, hk, hget⟩ := getElem_of_mem hmem
    have hat : placed[k]? = some ((i, u), p) := List.getElem?_eq_some_iff.2 ⟨hk, hget⟩
    obtain rfl : u = k := congrArg Prod.snd (hunit hat)
    exact ⟨_, hat, rfl⟩

theorem arranged_publish (grouped interleave : Bool) (rows : List SourceRows) :
    Arranged grouped interleave (publish grouped interleave none rows) := by
  change Arranged grouped interleave (afresh grouped interleave (sourcesOf rows))
  have hhead {p i u : ℕ} (h : (orderOf grouped interleave (sourcesOf rows))[p]? = some (i, u)) :=
    Merge.merge_getElem? h
  have hsource {s : SourceMatches} (hs : s ∈ sourcesOf rows) :
      ∃ scan : KeyScan, scan.Spec s.times ∧ s.mergeKeys = scan.arrived ∧ s.ascending = scan.ascending := by
    obtain ⟨r, -, rfl⟩ := mem_map.1 hs
    refine ⟨_, foldl_time_spec r.times, ?_, ?_⟩
    · exact congrArg Prod.fst (mergeKeysFor_none r.times)
    · exact congrArg Prod.snd (mergeKeysFor_none r.times)
  refine ⟨fun s hs => ?_, fun s hs => ?_, ?_, fun i u => mem_orderOf, fun i hi => orderOf_filter hi,
    fun p i u h => ?_, fun hleast p i u h => ?_, fun hfirst p i u h => ?_, length_ranks, ranks_afresh⟩
  · obtain ⟨scan, hscan, hkeys, -⟩ := hsource hs
    rw [hkeys, hscan.arrived]
  · obtain ⟨scan, hscan, hkeys, hascending⟩ := hsource hs
    rw [hascending, hkeys, hscan.ascending]
  · exact Merge.nodup_merge picks_pickSource left_unitTotal.le
  · rw [taken_publish]
    exact (hhead h).2
  · rw [taken_publish]
    subst hleast
    have hpick : Merge.least _ _ _ _ = some i := (hhead h).1
    exact Merge.least_eq_some.1 hpick
  · rw [taken_publish]
    subst hfirst
    have hpick : Merge.first _ _ _ = some i := (hhead h).1
    exact (Merge.first_eq_some.1 hpick).2.2

/-- **Every publication of a chain is arranged**, and as if it were the first: its order and its
ranks are those built from nothing, and so are the merge keys of each source. -/
theorem order_arranged {grouped interleave : Bool} {rows : List SourceRows} {m : Membership}
    (h : Chain grouped interleave rows m) :
    Arranged grouped interleave m ∧
      (m.order, m.ranks, m.maxKey) = mergeOrder m.sources grouped interleave none ∧
      m.sources.map (fun s => (s.mergeKeys, s.ascending)) =
        rows.map (fun r => mergeKeysFor none r.times) := by
  rw [chain_publish h]
  refine ⟨arranged_publish grouped interleave rows, rfl, ?_⟩
  change (rows.map _).map _ = _
  rw [map_map]
  rfl

/-- Two sources, the first with a row that has no time. -/
def exampleRows : List SourceRows :=
  [⟨"a", [0, 1], [5, noBasisTime], [], rfl, by simp⟩, ⟨"b", [0], [4], [], rfl, by simp⟩]

/-- Both have gone on. -/
def exampleGrown : List SourceRows :=
  [⟨"a", [0, 1, 2], [5, noBasisTime, noBasisTime], [], rfl, by simp⟩,
    ⟨"b", [0, 3], [4, 5], [], rfl, by simp⟩]

theorem order_arranged_grown :
    Arranged false true (publish false true (some (publish false true none exampleRows)) exampleGrown) ∧
      (publish false true none exampleGrown).order = [(1, 0), (0, 0), (0, 1), (0, 2), (1, 1)] := by
  have hgains : Gains exampleRows exampleGrown := by
    refine ⟨exampleGrown, [], rfl, List.Forall₂.cons ?_ (List.Forall₂.cons ?_ .nil)⟩
    · exact ⟨rfl, ⟨[2], rfl⟩, ⟨[noBasisTime], rfl⟩, ⟨[], rfl⟩⟩
    · exact ⟨rfl, ⟨[3], rfl⟩, ⟨[5], rfl⟩, ⟨[], rfl⟩⟩
  have hchain : Chain false true exampleRows (publish false true none exampleRows) :=
    .first (by unfold Distinct; decide)
  exact ⟨(order_arranged (hchain.next hgains (by unfold Distinct; decide))).1, by decide⟩

end Lvu.View
