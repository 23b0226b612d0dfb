import Lvu.Query.Expression

/-!
# Text search

The search box is read as a compiled expression, a regular expression or a literal, over one column.
A literal search has two predicates: one that lowercases the text, and a faster one for ASCII.

* `TextSearch.new`, `TextSearch.parse` : the two entry points.
* `TextSearch.predicate` : the predicate over a batch.
* `TextSearch.partitionedMask` : the rows with ASCII texts and the others, each by its predicate.
-/

namespace Lvu.Query

/-! ### The library -/

/-- What a search asks of the libraries: the lowercase of a text, whether a character is
alphanumeric or white space, the JSON string that a text begins with and what follows it, and the
error of a regular expression. -/
structure TextLibrary where
  lowercase : List Char → List Char
  isAlphanumeric : Char → Bool
  isWhitespace : Char → Bool
  readQuoted : List Char → Option (List Char × List Char)
  regexError : List Char → Option (List Char)

/-- A text of ASCII characters. -/
def isAscii (cs : List Char) : Bool := cs.all fun c => c.toNat < 128

/-- `regex::escape`: a backslash before what means something in a regular expression. -/
def escapeRegex (cs : List Char) : List Char :=
  cs.flatMap fun c => if c ∈ "\\.+*?()|[]\x7b\x7d^$#&-~".toList then ['\\', c] else [c]

/-- The parts before and after the first separator. -/
def splitOnce (separator : List Char) : List Char → Option (List Char × List Char)
  | [] => none
  | c :: cs =>
    if separator.isPrefixOf (c :: cs) then some ([], (c :: cs).drop separator.length)
    else (splitOnce separator cs).map fun parts => (c :: parts.1, parts.2)

/-- What follows the start, if the text has it. -/
def stripStart (start cs : List Char) : Option (List Char) :=
  if start.isPrefixOf cs then some (cs.drop start.length) else none

/-! ### Regular expressions -/

/-- The pattern up to the slash that closes it, and what follows the slash. -/
def patternOf : List Char → Option (List Char × List Char)
  | [] => none
  | '\\' :: '/' :: cs => (patternOf cs).map fun parts => ('/' :: parts.1, parts.2)
  | '\\' :: c :: cs => (patternOf cs).map fun parts => ('\\' :: c :: parts.1, parts.2)
  | ['\\'] => none
  | '/' :: cs => some ([], cs)
  | c :: cs => (patternOf cs).map fun parts => (c :: parts.1, parts.2)

/-- The flags: each of three at most once. -/
def flagsOf (flags : List Char) : List Char → Except (List Char) (List Char)
  | [] => .ok flags
  | c :: cs =>
    if c ∉ ['i', 'm', 's'] then
      .error ("invalid regex enrichment flag '".toList ++ [c] ++
        "'; supported flags are i, m, and s".toList)
    else if c ∈ flags then .error ("duplicate regex enrichment flag '".toList ++ [c] ++ ['\''])
    else flagsOf (flags ++ [c]) cs

/-- The pattern and the flags of a text that begins with a slash. -/
def splitPattern (source : List Char) : Except (List Char) (List Char × List Char) :=
  match patternOf source.tail with
  | none => .error ("regex enrichment must end with an unescaped '/' followed only by " ++
      "optional i, m, or s flags").toList
  | some (pattern, suffix) => (flagsOf [] suffix).map fun flags => (pattern, flags)

/-! ### A search -/

/-- The column of the raw text. -/
def rawColumn : List Char := "_lvu_raw".toList

/-- A search: its predicates read no column but its dependencies. -/
structure TextSearch where
  expression : Option Expr
  asciiExpression : Option Expr
  dependencies : List (List Char)
  field : Option (List Char)
  mem_dependencies : ∀ e, e ∈ expression ∨ e ∈ asciiExpression →
    ∀ name ∈ e.collectDependencies, name ∈ dependencies

/-- The predicate for ASCII texts, if the literal is one. -/
def literalAsciiExpression (column value : List Char) : Option Expr :=
  if value ≠ [] ∧ isAscii value then
    some ((Expr.column column).castString.contains
      ("(?i-u:".toList ++ escapeRegex value ++ ")".toList))
  else none

theorem dependencies_literalAscii {column value : List Char} {e : Expr}
    (h : e ∈ literalAsciiExpression column value) : e.collectDependencies = [column] := by
  unfold literalAsciiExpression at h
  split_ifs at h
  · rw [← Option.some.inj h]
    rfl
  · cases h

/-- A search of one column: its predicates read the column. -/
def TextSearch.ofColumn (column : List Char) (expression : Option Expr) (value : Option (List Char))
    (h : ∀ e ∈ expression, e.collectDependencies = [column]) : TextSearch where
  expression := expression
  asciiExpression := value.bind (literalAsciiExpression column)
  dependencies := [column]
  field := some column
  mem_dependencies := by
    intro e he name hname
    rcases he with he | he
    · rwa [h e he] at hname
    · obtain ⟨value, -, he⟩ := Option.bind_eq_some_iff.1 he
      rwa [dependencies_literalAscii he] at hname

namespace TextSearch

def maxBytes : ℕ := 16 * 1024

variable (library : TextLibrary)

/-- The predicate that lowercases the raw text. -/
def rawExpression (text : List Char) : Option Expr :=
  if text = [] then none
  else some ((Expr.column rawColumn).toLowercase.containsLiteral (library.lowercase text))

/-- The literal search of the raw text. -/
def new (text : List Char) : Except ℕ TextSearch :=
  if maxBytes < byteSize text then .error maxBytes
  else .ok (ofColumn rawColumn (rawExpression library text) (some text) (by
    intro e he
    unfold rawExpression at he
    split_ifs at he
    · cases he
    · rw [← Option.some.inj he]
      rfl))

/-- The text is an expression of the engine. -/
def isPolars (text : List Char) : Bool :=
  let trimmed := text.dropWhile library.isWhitespace
  "pl.".toList.isPrefixOf trimmed || "(pl.".toList.isPrefixOf trimmed

/-- The characters of a field that is named without quotes. -/
def isFieldChar (c : Char) : Bool := library.isAlphanumeric c || c ∈ ['_', '.', '-']

/-- The field and the value: a quoted field, a plain one or none. -/
def fieldAndValue (text : List Char) : List Char × List Char :=
  let quoted := if text.head? = some '"' then
      (library.readQuoted text).bind fun parts =>
        (stripStart ": ".toList parts.2).map fun value => (parts.1, value)
    else none
  let plain := (splitOnce ": ".toList text).filter fun parts =>
    parts.1 ≠ [] ∧ byteSize parts.1 ≤ 64 ∧ parts.1.all (isFieldChar library)
  (quoted.orElse fun _ => plain).getD ("raw".toList, text)

/-- The column of a field. -/
def columnOf (field : List Char) : List Char := if field = "raw".toList then rawColumn else field

/-- A value that begins with a backslash and a slash is a literal that begins with the slash. -/
def escapedLiteral (value : List Char) : Option (List Char) :=
  (stripStart ['\\', '/'] value).map ('/' :: ·)

/-- The value is a regular expression. -/
def isRegex (value : List Char) : Prop := escapedLiteral value = none ∧ value.head? = some '/'

instance (value : List Char) : Decidable (isRegex value) := inferInstanceAs (Decidable (_ ∧ _))

/-- The predicate that searches for a regular expression. -/
def regexExpression (column value : List Char) : Except (List Char) Expr :=
  match splitPattern value with
  | .error error => .error error
  | .ok (pattern, flags) =>
    let pattern := if flags = [] then pattern else "(?".toList ++ flags ++ ")".toList ++ pattern
    match library.regexError pattern with
    | some error => .error ("invalid search regex: ".toList ++ error)
    | none => .ok ((Expr.column column).castString.contains pattern)

/-- The predicate that lowercases a column. -/
def literalExpression (column value : List Char) : Expr :=
  (Expr.column column).castString.toLowercase.containsLiteral (library.lowercase value)

theorem dependencies_regex {column value : List Char} {e : Expr}
    (h : regexExpression library column value = .ok e) : e.collectDependencies = [column] := by
  unfold regexExpression at h
  split at h
  · cases h
  · dsimp only at h
    split at h
    · cases h
    · rw [← Except.ok.inj h]
      rfl

/-- The search of a compiled expression, which is its body. -/
def ofCompiled (definition : CompiledDefinition) : Except (List Char) TextSearch :=
  (definition.expression .filter).map fun _ => {
    expression := some definition.body
    asciiExpression := none
    dependencies := definition.dependencies
    field := none
    mem_dependencies := by
      intro e he name hname
      obtain rfl := Option.some.inj (he.resolve_right nofun)
      exact (definition.mem_dependencies name).2 hname }

/-- The search box. -/
def parse (text : List Char) (compiled : Option CompiledDefinition) :
    Except (List Char) TextSearch :=
  if maxBytes < byteSize text then .error "search exceeds 16 KiB".toList
  else if isPolars library text then
    match compiled with
    | none => .error "search expression compiler is not configured".toList
    | some definition => ofCompiled definition
  else
    let (field, value) := fieldAndValue library text
    if 64 < byteSize field then .error "search field name exceeds 64 UTF-8 bytes".toList
    else if isRegex value then
      match h : regexExpression library (columnOf field) value with
      | .error error => .error error
      | .ok expression => .ok (ofColumn (columnOf field) (some expression) none (by
          rintro e ⟨⟩
          exact dependencies_regex library h))
    else
      let literal := (escapedLiteral value).getD value
      -- only a literal that is not escaped has the faster predicate
      .ok (ofColumn (columnOf field)
        (if text = [] then none else some (literalExpression library (columnOf field) literal))
        (if escapedLiteral value = none then some literal else none) (by
          intro e he
          split_ifs at he
          · cases he
          · rw [← Option.some.inj he]
            rfl))

/-! ### The predicate over a batch -/

/-- The texts of a column that has no others. -/
def texts (frame : Frame) (column : List Char) : Option (List (Option (List Char))) :=
  match frame.column column with
  | some (.string values) => some values
  | _ => none

/-- The predicate that a search contributes: none without a constraint, one that never holds where
the batch has not the column, the faster one where all texts are ASCII. -/
def predicate (search : TextSearch) (frame : Frame) : Option Expr :=
  if ∃ field ∈ search.field, frame.column field = none then some (.literal (.boolean false))
  else
    match search.field, search.asciiExpression with
    | some field, some expression =>
      if ∃ values ∈ texts frame field, values.all (·.all isAscii) then some expression
      else search.expression
    | _, _ => search.expression

end TextSearch

/-! ### Masks -/

/-- Why a predicate could not be evaluated: a code and a text. -/
abbrev Failure := String × List Char

def predicateColumn : List Char := "_lvu_internal_predicate".toList

variable (polars : Polars)

/-- The rows of which an expression holds. -/
def predicateMaskExpr (frame : Frame) (expression : Expr) : Except Failure (List (Option Bool)) :=
  match polars.resolve frame expression with
  | .error error => .error ("invalid_expression", error)
  | .ok () =>
    match polars.withColumns frame (.aliased expression predicateColumn) with
    | .error error => .error ("evaluation_error", error)
    | .ok output =>
      match output.column predicateColumn with
      | none => .error ("evaluation_error", polars.notFound predicateColumn)
      | some (.boolean mask) => .ok mask
      | some series => .error ("predicate_not_boolean",
          "predicate returned ".toList ++ polars.dtype series ++ ", expected Boolean".toList)

/-- The masks of the two kinds of rows, put together by running indices. -/
def reassemble : List Bool → List (Option Bool) → List (Option Bool) → List (Option Bool)
  | [], _, _ => []
  | true :: rows, ascii, unicode => ascii.head?.join :: reassemble rows ascii.tail unicode
  | false :: rows, ascii, unicode => unicode.head?.join :: reassemble rows ascii unicode.tail

/-- The rows of a standalone search: those with ASCII texts by the faster predicate, the others by
the predicate that lowercases.  There is no such mask where all rows are of one kind. -/
def TextSearch.partitionedMask (search : TextSearch) (frame : Frame) :
    Option (Except Failure (List (Option Bool))) :=
  search.field.bind fun field =>
  search.asciiExpression.bind fun fast =>
  search.expression.bind fun fallback =>
  (TextSearch.texts frame field).bind fun values =>
    let asciiRows := values.map fun value => value.any isAscii
    if asciiRows.all (· = true) ∨ asciiRows.all (· = false) then none
    else some (
      match polars.filter frame asciiRows, polars.filter frame (asciiRows.map Bool.not) with
      | .error error, _ => .error ("evaluation_error", error)
      | _, .error error => .error ("evaluation_error", error)
      | .ok asciiFrame, .ok unicodeFrame =>
        match predicateMaskExpr polars asciiFrame fast,
          predicateMaskExpr polars unicodeFrame fallback with
        | .error failure, _ => .error failure
        | _, .error failure => .error failure
        | .ok asciiMatches, .ok unicodeMatches =>
          .ok (reassemble asciiRows asciiMatches unicodeMatches))

end Lvu.Query
