import Lvu.Data.Merge

/-!
# Display order

A view shows the records of several sources in one order.  Each source brings its records in the
order of their sequences, with a merge key for each, and `merge_order` arranges them
(`lvu-view/src/lib.rs`).  A unit is a record, or a group of records where the view is grouped.

* `mergeOrder_none` : without a prior order, it is the merge of all units.
-/

namespace Lvu.View

/-- `i64::MIN`. -/
def i64Min : ℤ := -2 ^ 63

def noBasisTime : ℤ := i64Min

/-- `GroupRange`, as far as it places the group. -/
structure GroupRange where
  start : ℕ
  len : ℕ
deriving DecidableEq

/-- `SourceMatches`, as far as it is ordered. -/
structure SourceMatches where
  sourceId : String
  sequences : List UInt64
  times : List ℤ
  groups : List GroupRange
  mergeKeys : List ℤ
  ascending : Bool
deriving DecidableEq

/-- `Membership`, as far as it is ordered. -/
structure Membership where
  sources : List SourceMatches
  grouped : Bool
  order : List (ℕ × ℕ)
  ranks : List (List ℕ)
  maxKey : ℤ

variable (sources : List SourceMatches) (grouped interleave : Bool)

def unitLengths (i : ℕ) : ℕ :=
  match sources[i]? with
  | none => 0
  | some source => if grouped then source.groups.length else source.sequences.length

/-- `key_of` of `merge_order`. -/
def keyOf (i unit : ℕ) : ℤ :=
  match sources[i]? with
  | none => i64Min
  | some source =>
    let record := if grouped then (source.groups[unit]?.map (·.start)).getD 0 else unit
    source.mergeKeys[record]?.getD i64Min

/-- How many units of a source a membership shows. -/
def Membership.done (m : Membership) (i : ℕ) : ℕ := (m.ranks[i]?.map List.length).getD 0

/-- `extends`: whether the order of `prior` is a prefix of the one these sources produce. -/
def extendsPrior (prior : Membership) : Bool :=
  let n := sources.length
  let len := unitLengths sources grouped
  prior.grouped = grouped ∧ prior.ranks.length ≤ n ∧ (∀ i < n, prior.done i ≤ len i) ∧
    if interleave then
      ∀ i < n, ∀ unit < len i, prior.done i ≤ unit → prior.maxKey < keyOf sources grouped i unit
    else
      ∀ i < n, prior.done i < len i → ∀ j < n, i < j → len j = 0

/-- The rule by which `merge_order` picks a source. -/
def pickSource : (ℕ → ℕ) → Option ℕ :=
  if interleave then Merge.least sources.length (unitLengths sources grouped) (keyOf sources grouped)
  else Merge.first sources.length (unitLengths sources grouped)

/-- The units of all sources. -/
def unitTotal : ℕ := ∑ i ∈ Finset.range sources.length, unitLengths sources grouped i

def mergeOrder (prior : Option Membership) : List (ℕ × ℕ) × List (List ℕ) × ℤ :=
  let prior := prior.filter (extendsPrior sources grouped interleave)
  let order := (prior.map (·.order)).getD []
  let cursors := fun i => (prior.map (·.done i)).getD 0
  let maxKey := (prior.map (·.maxKey)).getD i64Min
  let arrived := Merge.merge (pickSource sources grouped interleave)
    (unitTotal sources grouped - order.length) cursors
  let ranks := (List.range sources.length).map fun i =>
    ((prior.bind (·.ranks[i]?)).getD []) ++
      ((arrived.zipIdx order.length).filter (·.1.1 = i)).map Prod.snd
  (order ++ arrived, ranks,
    arrived.foldl (fun key e => max key (keyOf sources grouped e.1 e.2)) maxKey)

variable {sources grouped interleave}

theorem picks_pickSource :
    Merge.Picks sources.length (unitLengths sources grouped) (pickSource sources grouped interleave) := by
  unfold pickSource
  split_ifs
  · exact Merge.picks_least
  · exact Merge.picks_first

theorem left_unitTotal :
    Merge.left sources.length (unitLengths sources grouped) (fun _ => 0) = unitTotal sources grouped := rfl

theorem mergeOrder_none : (mergeOrder sources grouped interleave none).1 =
    Merge.merge (pickSource sources grouped interleave) (unitTotal sources grouped) fun _ => 0 := rfl

end Lvu.View
