import Lvu.Query.TextSearch

/-!
# Evaluation row by row

What the engine documents of the expressions that a search is built of: texts and their lowercase,
whether a text contains another one or matches a pattern, equality, and the conjunction of three
values.

* `evaluate` : the values of an expression over a batch.
* `Polars.Evaluates` : the engine evaluates like that and filters rows in order.
* `rowPolars` : an engine that does.
-/

namespace Lvu.Query

/-! ### Frames -/

/-- A column is added, or replaces the one of its name. -/
def setColumn (name : List Char) (series : Series) :
    List (List Char × Series) → List (List Char × Series)
  | [] => [(name, series)]
  | column :: rest =>
    if column.1 = name then (name, series) :: rest else column :: setColumn name series rest

def Frame.set (frame : Frame) (name : List Char) (series : Series) : Frame :=
  { frame with columns := setColumn name series frame.columns }

theorem Frame.column_set (frame : Frame) (name other : List Char) (series : Series) :
    (frame.set name series).column other =
      if other = name then some series else frame.column other := by
  obtain ⟨height, columns⟩ := frame
  simp only [Frame.column, Frame.set]
  induction columns with
  | nil =>
    rw [setColumn, List.lookup_cons]
    split_ifs with h
    · rw [beq_iff_eq.2 h]
    · rw [beq_eq_false_iff_ne.2 h]
  | cons column rest ih =>
    rw [setColumn]
    by_cases hname : column.1 = name
    · rw [if_pos hname, List.lookup_cons, List.lookup_cons, hname]
      split_ifs with h
      · rw [beq_iff_eq.2 h]
      · rw [beq_eq_false_iff_ne.2 h]
    · rw [if_neg hname, List.lookup_cons, List.lookup_cons, ih]
      split_ifs with h
      · rw [beq_eq_false_iff_ne.2 (h ▸ Ne.symm hname)]
      · rfl

/-- The values at the rows that are kept. -/
def keepValues {α : Type} : List Bool → List α → List α
  | true :: keep, value :: values => value :: keepValues keep values
  | false :: keep, _ :: values => keepValues keep values
  | _, _ => []

def Series.keepRows (keep : List Bool) : Series → Series
  | .string values => .string (keepValues keep values)
  | .uint64 values => .uint64 (keepValues keep values)
  | .boolean values => .boolean (keepValues keep values)
  | .other dtype values => .other dtype (keepValues keep values)

/-- The rows that are kept, in order. -/
def Frame.keepRows (frame : Frame) (keep : List Bool) : Frame where
  height := keep.count true
  columns := frame.columns.map fun column => (column.1, column.2.keepRows keep)

theorem Frame.column_keepRows (frame : Frame) (keep : List Bool) (name : List Char) :
    (frame.keepRows keep).column name = (frame.column name).map (·.keepRows keep) := by
  obtain ⟨height, columns⟩ := frame
  simp only [Frame.column, Frame.keepRows]
  induction columns with
  | nil => rfl
  | cons column rest ih =>
    rw [List.map_cons, List.lookup_cons, List.lookup_cons, ih]
    cases name == column.1 <;> rfl

/-! ### Expressions -/

/-- What the libraries do with texts: the lowercase, and how a pattern matches, if it is one. -/
structure TextFunctions where
  lowercase : List Char → List Char
  regex : List Char → Option (List Char → Bool)

/-- A conjunction of three values: it is false where one side is. -/
def andValue : Option Bool → Option Bool → Option Bool
  | some true, right => right
  | some false, _ => some false
  | none, some false => some false
  | none, _ => none

theorem andValue_eq_true {l r : Option Bool} :
    andValue l r = some true ↔ l = some true ∧ r = some true := by
  rcases l with _ | _ | _ <;> rcases r with _ | _ | _ <;> decide

/-- A test of two texts, with no answer where one is missing. -/
def testValue (test : List Char → List Char → Bool) (l r : Option (List Char)) : Option Bool :=
  l.bind fun l => r.map (test l)

def applyBinary : Operator → Series → Series → Option Series
  | .and, .boolean l, .boolean r => some (.boolean (List.zipWith andValue l r))
  | .eq, .string l, .string r => some (.boolean (List.zipWith (testValue (· = ·)) l r))
  | _, _, _ => none

variable (functions : TextFunctions)

def applyFunction : FunctionExpr → List Series → Option Series
  | .lowercase, [.string values] => some (.string (values.map (·.map functions.lowercase)))
  | .containsLiteral, [.string values, .string needles] =>
    some (.boolean (List.zipWith (testValue fun text needle => needle <:+: text) values needles))
  | .contains, [.string values, .string patterns] =>
    -- a pattern that is none is an error
    if patterns.all (·.any fun pattern => (functions.regex pattern).isSome) then
      some (.boolean (List.zipWith
        (testValue fun text pattern => (functions.regex pattern).any (· text)) values patterns))
    else none
  | _, _ => none

def castSeries (dtype : List Char) : Series → Option Series
  | .string values => if dtype = Expr.stringType then some (.string values) else none
  | _ => none

mutual

/-- The values of an expression, a literal at every row. -/
def evaluate (frame : Frame) : Expr → Option Series
  | .column name => frame.column name
  | .literal (.string s) => some (.string (List.replicate frame.height (some s)))
  | .literal (.boolean b) => some (.boolean (List.replicate frame.height (some b)))
  | .literal (.other _) => none
  | .aliased child _ => evaluate frame child
  | .cast child dtype => (evaluate frame child).bind (castSeries dtype)
  | .binary operator left right =>
    (evaluate frame left).bind fun l => (evaluate frame right).bind (applyBinary operator l)
  | .ternary _ _ _ => none
  | .function name inputs => (evaluateAll frame inputs).bind (applyFunction functions name)

/-- The values of some expressions. -/
def evaluateAll (frame : Frame) : List Expr → Option (List Series)
  | [] => some []
  | child :: rest =>
    (evaluate frame child).bind fun series => (evaluateAll frame rest).map (series :: ·)

end

/-! ### The engine -/

/-- The engine evaluates these expressions row by row, and filters rows in order. -/
structure Polars.Evaluates (polars : Polars) (functions : TextFunctions) : Prop where
  resolve : ∀ frame e series, evaluate functions frame e = some series →
    polars.resolve frame e = .ok ()
  withColumns : ∀ frame e name series, evaluate functions frame e = some series →
    polars.withColumns frame (.aliased e name) = .ok (frame.set name series)
  filter : ∀ frame keep, keep.length = frame.height →
    polars.filter frame keep = .ok (frame.keepRows keep)

theorem Polars.Evaluates.predicateMask {polars : Polars} {functions : TextFunctions}
    (h : polars.Evaluates functions) {frame : Frame} {e : Expr} {mask : List (Option Bool)}
    (he : evaluate functions frame e = some (.boolean mask)) :
    predicateMaskExpr polars frame e = .ok mask := by
  rw [predicateMaskExpr, h.resolve frame e _ he]
  dsimp only
  rw [h.withColumns frame e predicateColumn _ he]
  dsimp only
  rw [Frame.column_set, if_pos rfl]

/-- An engine of these expressions only. -/
def rowPolars : Polars where
  resolve frame e :=
    if (evaluate functions frame e).isSome then .ok () else .error "not resolved".toList
  withColumns frame e :=
    match e with
    | .aliased child name =>
      match evaluate functions frame child with
      | some series => .ok (frame.set name series)
      | none => .error "not evaluated".toList
    | _ => .error "not named".toList
  filter frame keep := .ok (frame.keepRows keep)
  notFound name := "not found: ".toList ++ name
  notOfType _ := "data types don't match".toList
  dtype
    | .string _ => "str".toList
    | .uint64 _ => "u64".toList
    | .boolean _ => "bool".toList
    | .other dtype _ => dtype

theorem rowPolars_evaluates : (rowPolars functions).Evaluates functions where
  resolve frame e series h := by
    simp only [rowPolars]
    rw [h]
    rfl
  withColumns frame e name series h := by
    simp only [rowPolars]
    rw [h]
  filter _ _ _ := rfl

end Lvu.Query
