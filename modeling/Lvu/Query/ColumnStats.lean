import Lvu.Data.FloatText
import Mathlib.Data.List.Lex
import Mathlib.Data.Char

/-!
# The statistics of a column

A pass over a view pushes the rows of one column batch by batch.  The values are grouped by their
texts and counted, up to a cap; the extremes of a batch are taken in the order of the column, and
those of two batches are merged by their texts.

* `Value` : the values of a column, their order and their text.
* `Engine` : what the aggregations of the engine do.
* `mergeExtreme` : the extremes of two batches.
* `Aggregator.push`, `pushAbsent`, `finish` : the pass.
-/

namespace Lvu.Query.ColumnStats

open Binary (Floating Format)

/-! ### Values -/

/-- The type that a column is cast to. -/
inductive Dtype
  | integer
  | float
  | boolean
  | string
deriving DecidableEq

/-- A value of a column; its floats are doubles. -/
inductive Value
  | integer (n : ℤ)
  | float (x : Floating .f64)
  | boolean (b : Bool)
  | string (s : List Char)

namespace Value

def dtype : Value → Dtype
  | integer _ => .integer
  | float _ => .float
  | boolean _ => .boolean
  | string _ => .string

/-- The one double comes before the other; what is no number comes last. -/
def FloatBefore (smaller : Bool) (x y : Floating .f64) : Prop :=
  ¬ x.IsNaN ∧ (y.IsNaN ∨ if smaller then x.key < y.key else y.key < x.key)

instance (smaller : Bool) (x y : Floating .f64) : Decidable (FloatBefore smaller x y) :=
  inferInstanceAs (Decidable (_ ∧ (_ ∨ ite _ _ _)))

/-- The order of the column: the one value is smaller than the other, or greater. -/
def before (smaller : Bool) : Value → Value → Bool
  | integer m, integer n => decide (if smaller then m < n else n < m)
  | float x, float y => decide (FloatBefore smaller x y)
  | boolean a, boolean b => decide (if smaller then a < b else b < a)
  | string s, string t => decide (if smaller then s < t else t < s)
  | _, _ => false

end Value

/-! ### The engine -/

/-- The aggregations of the engine: how it casts a double to text, the least or the greatest value
of a batch, how it sorts by descending counts, and from where on its counts begin at zero again. -/
structure Engine where
  spell : Floating .f64 → List Char
  extreme : Bool → List Value → Option Value
  sortByCount : List (List Char × ℕ) → List (List Char × ℕ)
  modulus : ℕ

def boolText (b : Bool) : List Char :=
  if b then ['t', 'r', 'u', 'e'] else ['f', 'a', 'l', 's', 'e']

/-- The value as text. -/
def Value.text (engine : Engine) : Value → List Char
  | .integer n => decimal n
  | .float x => engine.spell x
  | .boolean b => boolText b
  | .string s => s

/-- The texts are grouped, and their counts are summed. -/
def sumByValue (engine : Engine) (entries : List (List Char × ℕ)) : List (List Char × ℕ) :=
  (entries.map Prod.fst).dedup.map fun value =>
    (value, ((entries.filter fun entry => entry.1 = value).map Prod.snd).sum % engine.modulus)

/-- The texts are grouped and counted. -/
def countByValue (engine : Engine) (texts : List (List Char)) : List (List Char × ℕ) :=
  sumByValue engine (texts.map fun text => (text, 1))

/-! ### The pass -/

/-- A row of a batch: the value of the column and what else a predicate reads. -/
structure Row (ρ : Type) where
  value : Option Value
  rest : ρ

/-- What is counted. -/
structure ColumnAggregate where
  rows : ℕ
  present : ℕ
  matching : ℕ
  distinct : ℕ
  distinctCapped : Bool
  top : List (List Char × ℕ)
  minimum : Option (List Char)
  maximum : Option (List Char)

/-- A sum that stays at the greatest 64-bit number. -/
def saturatingAdd (m n : ℕ) : ℕ := min (m + n) (2 ^ 64 - 1)

/-- The text of the candidate replaces the one held: as numbers if both are, else as texts. -/
def replaces (smaller : Bool) (current candidate : List Char) : Bool :=
  match Floating.parse .f64 current, Floating.parse .f64 candidate with
  | some currentNumber, some candidateNumber =>
    decide (if smaller then candidateNumber.Less currentNumber
      else currentNumber.Less candidateNumber)
  | _, _ => decide (if smaller then candidate < current else current < candidate)

def mergeExtreme (smaller : Bool) (held candidate : Option (List Char)) : Option (List Char) :=
  match candidate with
  | none => held
  | some candidate =>
    match held with
    | none => some candidate
    | some current => if replaces smaller current candidate then some candidate else some current

/-- A column is aggregated: the caller's predicate, how many values to show and how many to keep. -/
structure Request (ρ : Type) where
  predicate : Option (Row ρ → Bool)
  top : ℕ
  distinctCap : ℕ

structure Aggregator where
  counts : Option (List (List Char × ℕ))
  aggregate : ColumnAggregate

def Aggregator.new : Aggregator := ⟨none, ⟨0, 0, 0, 0, false, [], none, none⟩⟩

/-- The rows of which a predicate holds. -/
def satisfying {ρ : Type} (predicate : Option (Row ρ → Bool)) (rows : List (Row ρ)) : ℕ :=
  match predicate with
  | none => 0
  | some predicate => rows.countP predicate

/-- The values of the rows that have one. -/
def presentValues {ρ : Type} (rows : List (Row ρ)) : List Value := rows.filterMap Row.value

variable {ρ : Type} (engine : Engine) (request : Request ρ)

namespace Aggregator

/-- Past the cap the most frequent values are kept. -/
def capped (a : Aggregator) (running : List (List Char × ℕ)) : Aggregator :=
  if request.distinctCap < running.length then
    { a with
      counts := some ((engine.sortByCount running).take (request.distinctCap % 2 ^ 32))
      aggregate := { a.aggregate with distinctCapped := true } }
  else { a with counts := some running }

/-- One batch. -/
def push (a : Aggregator) (frame : List (Row ρ)) : Aggregator :=
  let values := presentValues frame
  let aggregate := { a.aggregate with
    rows := saturatingAdd a.aggregate.rows frame.length
    present := saturatingAdd a.aggregate.present values.length
    matching := saturatingAdd a.aggregate.matching (satisfying request.predicate frame) }
  if values = [] then { a with aggregate := aggregate }
  else
    let batch := countByValue engine (values.map (Value.text engine))
    let running := match a.counts with
      | none => batch
      | some running => sumByValue engine (running ++ batch)
    let a := capped engine request { a with aggregate := aggregate } running
    let batchMin := (engine.extreme true values).map (Value.text engine)
    let batchMax := (engine.extreme false values).map (Value.text engine)
    { a with aggregate := { a.aggregate with
      minimum := mergeExtreme true a.aggregate.minimum batchMin
      maximum := mergeExtreme false a.aggregate.maximum batchMax } }

/-- So many rows without the column. -/
def pushAbsent (a : Aggregator) (rows : ℕ) : Aggregator :=
  { a with aggregate := { a.aggregate with rows := saturatingAdd a.aggregate.rows rows } }

def finish (a : Aggregator) : ColumnAggregate :=
  match a.counts with
  | none => a.aggregate
  | some counts => { a.aggregate with
      distinct := counts.length
      top := (engine.sortByCount counts).take (request.top % 2 ^ 32) }

end Aggregator

/-- A batch as the pass finds it: with the column, or without it. -/
inductive Batch (ρ : Type)
  | frame (rows : List (Row ρ))
  | absent (rests : List ρ)

/-- The rows of a batch: without the column they have no value. -/
def Batch.rows : Batch ρ → List (Row ρ)
  | frame rows => rows
  | absent rests => rests.map (⟨none, ·⟩)

def step (a : Aggregator) : Batch ρ → Aggregator
  | .frame rows => a.push engine request rows
  | .absent rests => a.pushAbsent rests.length

/-- The batches are pushed one after the other. -/
def run (batches : List (Batch ρ)) : Aggregator := batches.foldl (step engine request) .new

end Lvu.Query.ColumnStats
