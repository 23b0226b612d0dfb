import Lvu.Data.Text

/-!
# Frames and expressions

A batch is a frame of named columns.  The expressions over it are those of the row-local subset; the
engine resolves and evaluates them, and what it answers is a parameter.

* `Frame`, `Series` : the columns of a batch.
* `Expr`, `collectDependencies` : the expressions and the columns that they read.
* `Polars` : what the engine answers.
* `CompiledDefinition` : an expression with its kind and the columns it depends on.
* `missingDependency` : the first column that a batch does not have.
-/

namespace Lvu.Query

/-! ### Frames -/

/-- The values of a column. -/
inductive Series
  | string (values : List (Option (List Char)))
  | uint64 (values : List (Option ℕ))
  | boolean (values : List (Option Bool))
  | other (dtype : List Char) (values : List (Option (List Char)))
deriving DecidableEq

/-- The columns of a batch. -/
structure Frame where
  height : ℕ
  columns : List (List Char × Series)

/-- The column of that name. -/
def Frame.column (frame : Frame) (name : List Char) : Option Series := frame.columns.lookup name

/-! ### Expressions -/

/-- The binary operators that the model builds, and the others. -/
inductive Operator
  | and
  | eq
  | other (name : List Char)

/-- The functions that the model builds, and the others. -/
inductive FunctionExpr
  | lowercase
  | containsLiteral
  | contains
  | other (name : List Char)

/-- A literal: a text, a truth value or another one. -/
inductive Literal
  | string (s : List Char)
  | boolean (b : Bool)
  | other (spelling : List Char)

/-- The row-local expressions. -/
inductive Expr
  | column (name : List Char)
  | literal (value : Literal)
  | aliased (child : Expr) (name : List Char)
  | cast (child : Expr) (dtype : List Char)
  | binary (operator : Operator) (left right : Expr)
  | ternary (predicate truthy falsy : Expr)
  | function (name : FunctionExpr) (inputs : List Expr)

namespace Expr

mutual

/-- The columns that an expression reads, in order. -/
def collectDependencies : Expr → List (List Char)
  | column name => [name]
  | literal _ => []
  | aliased child _ => child.collectDependencies
  | cast child _ => child.collectDependencies
  | binary _ left right => left.collectDependencies ++ right.collectDependencies
  | ternary predicate truthy falsy =>
    predicate.collectDependencies ++ truthy.collectDependencies ++ falsy.collectDependencies
  | function _ inputs => collectAll inputs

/-- The columns that some expressions read. -/
def collectAll : List Expr → List (List Char)
  | [] => []
  | child :: rest => child.collectDependencies ++ collectAll rest

end

def and (left right : Expr) : Expr := binary .and left right

def eq (left right : Expr) : Expr := binary .eq left right

def lit (s : List Char) : Expr := literal (.string s)

/-- The type of texts. -/
def stringType : List Char := "String".toList

def castString (child : Expr) : Expr := cast child stringType

def toLowercase (child : Expr) : Expr := function .lowercase [child]

def containsLiteral (child : Expr) (needle : List Char) : Expr :=
  function .containsLiteral [child, lit needle]

def contains (child : Expr) (pattern : List Char) : Expr := function .contains [child, lit pattern]

end Expr

/-! ### The engine -/

/-- What the engine answers: whether it can resolve an expression over a batch, the batch with one
column more, the rows that are selected, and the texts of its errors. -/
structure Polars where
  resolve : Frame → Expr → Except (List Char) Unit
  withColumns : Frame → Expr → Except (List Char) Frame
  filter : Frame → List Bool → Except (List Char) Frame
  notFound : List Char → List Char
  notOfType : Series → List Char
  dtype : Series → List Char

/-- What an expression is compiled for. -/
inductive ExpressionKind
  | enrichment
  | filter
deriving DecidableEq

def ExpressionKind.debug : ExpressionKind → List Char
  | enrichment => "Enrichment".toList
  | filter => "Filter".toList

/-- A compiled expression: its dependencies are the columns that it reads. -/
structure CompiledDefinition where
  kind : ExpressionKind
  body : Expr
  dependencies : List (List Char)
  mem_dependencies : ∀ name, name ∈ dependencies ↔ name ∈ body.collectDependencies

/-- The expression, if it was compiled for this. -/
def CompiledDefinition.expression (definition : CompiledDefinition) (kind : ExpressionKind) :
    Except (List Char) Expr :=
  if definition.kind ≠ kind then
    .error ("compiled ".toList ++ definition.kind.debug ++
      " expression cannot be used as ".toList ++ kind.debug)
  else .ok definition.body

theorem lawful_names : LawfulBEq (List Char) := inferInstance

attribute [local instance] lawful_names

/-- The first dependency that neither failed nor is there. -/
def missingDependency (frame : Frame) (dependencies failedFields : List (List Char)) :
    Option (List Char) :=
  dependencies.find? fun name => name ∉ failedFields ∧ frame.column name = none

end Lvu.Query
