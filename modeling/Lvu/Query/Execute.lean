import Lvu.Query.TextSearch

/-!
# The execution of a batch

The enrichment stages run in order over a growing frame; one that fails is reported and leaves the
frame as it is, and what depends on it is not evaluated.  Then the rows are selected by the
predicates, and by each colour rule.

* `runStages` : the stages.
* `validateIdentities` : every row has an identity, and no two the same.
* `selectRows`, `colorRows` : the predicates and the colours.
* `executeBatch` : `execute_batch_with_predicates`.
-/

namespace Lvu.Query

/-! ### Diagnostics -/

inductive DerivedState
  | pending
  | ready
  | unmatched
  | error
deriving DecidableEq

structure QueryDiagnostic where
  field : Option (List Char)
  state : DerivedState
  code : String
  message : List Char

/-- An error; its text is cut. -/
def errorDiagnostic (field : Option (List Char)) (code : String) (message : List Char) :
    QueryDiagnostic :=
  ⟨field, .error, code, message.take 512⟩

/-! ### Identities -/

structure StableRecordId where
  sourceId : List Char
  sequence : ℕ
deriving DecidableEq

def sourceIdColumn : List Char := "_lvu_source_id".toList

def sequenceColumn : List Char := "_lvu_sequence".toList

variable (polars : Polars)

/-- The columns of the identities. -/
def identityColumns (frame : Frame) :
    Except (List Char) (List (Option (List Char)) × List (Option ℕ)) :=
  match frame.column sourceIdColumn with
  | none => .error (polars.notFound sourceIdColumn)
  | some (.string sources) =>
    match frame.column sequenceColumn with
    | none => .error (polars.notFound sequenceColumn)
    | some (.uint64 sequences) => .ok (sources, sequences)
    | some series =>
      .error ("sequence identity must be UInt64: ".toList ++ polars.notOfType series)
  | some series => .error ("source identity must be String: ".toList ++ polars.notOfType series)

/-- The identity of a row. -/
def rowIdentity (columns : List (Option (List Char)) × List (Option ℕ)) (index : ℕ) :
    Except (List Char) StableRecordId :=
  match columns.1[index]?.join with
  | none => .error ("row ".toList ++ Nat.toDigits 10 index ++ " has null source identity".toList)
  | some sourceId =>
    match columns.2[index]?.join with
    | none =>
      .error ("row ".toList ++ Nat.toDigits 10 index ++ " has null sequence identity".toList)
    | some sequence => .ok ⟨sourceId, sequence⟩

/-- The order of the identities: by source, then by sequence. -/
def StableRecordId.Before (a b : StableRecordId) : Prop :=
  a.sourceId < b.sourceId ∨ a.sourceId = b.sourceId ∧ a.sequence < b.sequence

instance (a b : StableRecordId) : Decidable (a.Before b) := inferInstanceAs (Decidable (_ ∨ _ ∧ _))

/-- The rows ascend, up to the first that does not. -/
def ascendingRows (columns : List (Option (List Char)) × List (Option ℕ)) :
    Option StableRecordId → List ℕ → Except (List Char) Bool
  | _, [] => .ok true
  | previous, index :: rest =>
    match rowIdentity columns index with
    | .error message => .error message
    | .ok current =>
      if ∃ earlier ∈ previous, ¬ earlier.Before current then .ok false
      else ascendingRows columns (some current) rest

/-- No row repeats one before it. -/
def uniqueRows (columns : List (Option (List Char)) × List (Option ℕ)) :
    List StableRecordId → List ℕ → Except (List Char) Unit
  | _, [] => .ok ()
  | seen, index :: rest =>
    match rowIdentity columns index with
    | .error message => .error message
    | .ok current =>
      if current ∈ seen then
        .error ("row ".toList ++ Nat.toDigits 10 index ++ " has duplicate stable identity".toList)
      else uniqueRows columns (current :: seen) rest

/-- Every row has an identity, and no two the same. -/
def validateIdentities (frame : Frame) : Except (List Char) Unit :=
  match identityColumns polars frame with
  | .error message => .error message
  | .ok columns =>
    match ascendingRows columns none (List.range frame.height) with
    | .error message => .error message
    | .ok true => .ok ()
    | .ok false => uniqueRows columns [] (List.range frame.height)

/-- The identities of the rows at some places that the mask selects. -/
def selectedRows (columns : List (Option (List Char)) × List (Option ℕ))
    (mask : Option (List (Option Bool))) : List ℕ → Except (List Char) (List StableRecordId)
  | [] => .ok []
  | index :: rest =>
    if ∃ values ∈ mask, values[index]?.join ≠ some true then selectedRows columns mask rest
    else
      match rowIdentity columns index with
      | .error message => .error message
      | .ok identity => (selectedRows columns mask rest).map (identity :: ·)

/-- The identities of the rows that the mask selects, or of all rows. -/
def selectedIds (frame : Frame) (mask : Option (List (Option Bool))) :
    Except (List Char) (List StableRecordId) :=
  match identityColumns polars frame with
  | .error message => .error message
  | .ok columns => selectedRows columns mask (List.range frame.height)

/-! ### Stages -/

structure EnrichmentStage where
  name : List Char
  definition : CompiledDefinition

/-- A column that no stage may write. -/
def isProtectedName (name : List Char) : Bool :=
  "_lvu_".toList.isPrefixOf name || name = "raw".toList

/-- Who asks for an evaluation: a stage or a colour rule by its place, or the predicate. -/
inductive Consumer
  | stage (index : ℕ)
  | predicate
  | color (index : ℕ)
  | columnColor (index : ℕ)

/-- What a stage comes to: an error before it is evaluated, an error of the evaluation, or a new
batch. -/
inductive StageOutcome
  | refused (diagnostic : QueryDiagnostic)
  | failed (diagnostic : QueryDiagnostic)
  | ready (candidate : Frame)

variable (debug : Debug)

attribute [local instance] lawful_names

/-- The batch so far, what is reported of it, the outputs that failed and who was evaluated. -/
structure Progress where
  frame : Frame
  diagnostics : List QueryDiagnostic
  failedFields : List (List Char)
  evaluated : List Consumer

/-- The batch after a stage. -/
def Progress.after (p : Progress) (index : ℕ) (stage : EnrichmentStage) : StageOutcome → Progress
  | .refused diagnostic =>
    { p with
      diagnostics := p.diagnostics ++ [diagnostic]
      failedFields := p.failedFields ++ [stage.name] }
  | .failed diagnostic =>
    { p with
      diagnostics := p.diagnostics ++ [diagnostic]
      failedFields := p.failedFields ++ [stage.name]
      evaluated := p.evaluated ++ [.stage index] }
  | .ready candidate =>
    { p with
      frame := candidate
      diagnostics := p.diagnostics ++
        [⟨some stage.name, .ready, "ready", "stage applied".toList⟩]
      evaluated := p.evaluated ++ [.stage index] }

/-- An exact constraint: its field, and what its value comes to. -/
structure ExactFieldConstraint where
  field : List Char
  token : Except (List Char) (List Char)

structure BatchQuery where
  generation : ℕ
  definitionGeneration : ℕ
  stages : List EnrichmentStage
  filter : Option CompiledDefinition
  textSearch : Option TextSearch
  colors : List (List Char × TextSearch)
  columnColors : List (List Char × List Char × List Char)

inductive BatchValidity
  | valid
  | invalidIdentity
  | invalidFilter
deriving DecidableEq

/-- The column of the exact values of a field. -/
def exactValueColumn (field : List Char) : List Char :=
  "_lvu_exact_correlation_value:".toList ++ field

/-- Both constraints, where there are two. -/
def bothOf : Option Expr → Option Expr → Option Expr
  | some left, some right => some (left.and right)
  | some left, none => some left
  | none, right => right

/-- The predicate so far, what is reported of it and whether it can still be used. -/
structure Predicate where
  expression : Option Expr
  diagnostics : List QueryDiagnostic
  validity : BatchValidity

variable (query : BatchQuery) (exact : Option ExactFieldConstraint) (direct : Option Expr)

/-- The search and the filter. -/
def searchAndFilter (frame : Frame) : Predicate :=
  let search := query.textSearch.bind fun search => search.predicate frame
  match query.filter with
  | none => ⟨search, [], .valid⟩
  | some filter =>
    match filter.expression .filter with
    | .error message => ⟨none, [errorDiagnostic none "invalid_expression" message], .invalidFilter⟩
    | .ok advanced => ⟨bothOf search (some advanced), [], .valid⟩

/-- The exact constraint with them. -/
def withExact (frame : Frame) (p : Predicate) : Predicate :=
  match exact with
  | none => p
  | some constraint =>
    match constraint.token with
    | .error message =>
      ⟨none, p.diagnostics ++
        [errorDiagnostic (some constraint.field) "invalid_exact_constraint" message],
        .invalidFilter⟩
    | .ok token =>
      if frame.column (exactValueColumn constraint.field) = none then
        ⟨none, p.diagnostics ++
          [errorDiagnostic (some constraint.field) "exact_projection_unavailable"
            "batch was not projected for the requested exact field".toList], .invalidFilter⟩
      else
        { p with
          expression := bothOf p.expression
            (some ((Expr.column (exactValueColumn constraint.field)).eq (.lit token))) }

/-- The native predicate with them. -/
def withNative (p : Predicate) : Predicate :=
  { p with expression := bothOf p.expression direct }

/-- The predicate of a query. -/
def predicateOf (frame : Frame) : Predicate :=
  withNative direct (withExact exact frame (searchAndFilter query frame))

/-- The mask of a search that stands alone, where its rows are of two kinds. -/
def standaloneMask (frame : Frame) : Option (Except Failure (List (Option Bool))) :=
  if query.filter.isNone ∧ exact.isNone ∧ direct.isNone then
    query.textSearch.bind fun search => search.partitionedMask polars frame
  else none

/-- The rows that a mask selects, as a predicate reports its failures. -/
def maskedIds (frame : Frame) (mask : Except Failure (List (Option Bool))) :
    Except Failure (List StableRecordId) :=
  match mask with
  | .error failure => .error failure
  | .ok mask => (selectedIds polars frame (some mask)).mapError fun message =>
    ("invalid_identity", message)

/-- What is selected. -/
structure Selection where
  matchedIds : List StableRecordId
  diagnostics : List QueryDiagnostic
  validity : BatchValidity
  evaluated : List Consumer

/-- Rows that are selected without a predicate's failure. -/
def identified (p : Predicate) (evaluated : List Consumer) :
    Except (List Char) (List StableRecordId) → Selection
  | .ok ids => ⟨ids, p.diagnostics, p.validity, evaluated⟩
  | .error message => ⟨[], p.diagnostics ++ [errorDiagnostic none "invalid_identity" message],
      .invalidIdentity, evaluated⟩

/-- The rows of each colour, what is reported of the rules and who was evaluated. -/
structure Colors where
  matched : List (List Char × List StableRecordId)
  diagnostics : List QueryDiagnostic
  evaluated : List Consumer

/-- The rows of a colour replace those that it had. -/
def Colors.insert (colors : Colors) (name : List Char) (ids : List StableRecordId) : Colors :=
  { colors with matched := colors.matched.filter (·.1 ≠ name) ++ [(name, ids)] }

/-- A rule is evaluated: its rows, or an error. -/
def Colors.record (colors : Colors) (consumer : Consumer) (name : List Char) :
    Except Failure (List StableRecordId) → Colors
  | .ok ids => { colors.insert name ids with evaluated := colors.evaluated ++ [consumer] }
  | .error failure =>
    { colors with
      diagnostics := colors.diagnostics ++ [errorDiagnostic (some name) failure.1 failure.2]
      evaluated := colors.evaluated ++ [consumer] }

/-- The mask of a colour rule; a rule without a condition has none. -/
def colorMask (frame : Frame) (rule : TextSearch) :
    Option (Except Failure (List (Option Bool))) :=
  match rule.partitionedMask polars frame with
  | some mask => some mask
  | none => (rule.predicate frame).map (predicateMaskExpr polars frame)

/-- Which outputs a column rule may name: those that the caller gives, with the rows that have them,
or those of the stages. -/
def authorityOf (authority : Option (List (List Char × Expr))) (column : List Char) :
    Option (Option Expr) :=
  match authority with
  | some outputs => (outputs.find? (·.1 = column)).map fun output => some output.2
  | none => if query.stages.any (·.name = column) then some none else none

structure BatchResult where
  generation : ℕ
  definitionGeneration : ℕ
  enrichedRows : Frame
  matchedIds : List StableRecordId
  colorMatches : List (List Char × List StableRecordId)
  colorDiagnostics : List QueryDiagnostic
  diagnostics : List QueryDiagnostic
  validity : BatchValidity

/-- The first dependency of the filter or the search that failed. -/
def failedDependency (failedFields : List (List Char)) : Option (List Char) :=
  ((query.filter.elim [] CompiledDefinition.dependencies) ++
    query.textSearch.elim [] TextSearch.dependencies).find? (· ∈ failedFields)

end Lvu.Query
