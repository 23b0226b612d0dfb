import Lvu.Query.BatchSound

/-!
# The paths of a text search

A literal search is evaluated by one of three predicates: the one that lowercases, the faster one
where all texts are ASCII, and both on their own rows where the search stands alone.  All of them
mark the rows whose lowercase has the lowercase of the needle in it.

* `EntryPoint` : the searches that the two entry points make, with their columns and needles.
* `AsciiCase` : what the libraries do with ASCII letters.
* `Marks` : the rows that a mask marks.
* `text_paths` : **all paths mark the same rows**.
-/

namespace Lvu.Query

open List

/-! ### Masks -/

section Masks

variable {α β : Type}

theorem length_keepValues {keep : List Bool} {values : List α} (h : keep.length = values.length) :
    (keepValues keep values).length = keep.count true := by
  induction keep generalizing values with
  | nil => cases values <;> rfl
  | cons kept keep ih =>
    cases values with
    | nil => cases h
    | cons value values =>
      have ih := ih (Nat.succ.inj h)
      cases kept <;> simp [keepValues, ih]

/-- **The two masks are put together** at the rows that they come from. -/
theorem reassemble_keepValues (ascii : α → Bool) (fast slow : α → Option Bool) (values : List α) :
    reassemble (values.map ascii) ((keepValues (values.map ascii) values).map fast)
        ((keepValues ((values.map ascii).map Bool.not) values).map slow) =
      values.map fun value => if ascii value then fast value else slow value := by
  induction values with
  | nil => rfl
  | cons value values ih =>
    rw [map_cons, map_cons, map_cons]
    cases hascii : ascii value with
    | true =>
      rw [Bool.not_true, keepValues, keepValues, map_cons, reassemble, tail_cons, ih]
      rfl
    | false =>
      rw [Bool.not_false, keepValues, keepValues, map_cons, reassemble, tail_cons, ih]
      rfl

theorem zipWith_testValue (test : List Char → List Char → Bool)
    (values : List (Option (List Char))) (text : List Char) {n : ℕ} (h : values.length = n) :
    List.zipWith (testValue test) values (List.replicate n (some text)) =
      values.map (·.map fun value => test value text) := by
  subst h
  induction values with
  | nil => rfl
  | cons value values ih =>
    rw [length_cons, replicate_succ, zipWith_cons_cons, ih, map_cons]
    cases value <;> rfl

theorem map_join_eq_true (test : List Char → Bool) (values : List (Option (List Char))) (i : ℕ) :
    (values.map (·.map test))[i]?.join = some true ↔
      ∃ text, values[i]?.join = some text ∧ test text = true := by
  rw [getElem?_map]
  rcases values[i]? with _ | _ | text
  · simp
  · simp
  · simp

end Masks

/-! ### Searches -/

variable (library : TextLibrary) (functions : TextFunctions)

/-- What the libraries do with ASCII letters: the lowercase of an ASCII text lowers the letters A to
Z only, and the pattern of an ASCII literal matches exactly where a variant of it in case is. -/
structure AsciiCase : Prop where
  needle : ∀ text, isAscii text = true → library.lowercase text = text.map Char.toLower
  text : ∀ text, isAscii text = true → functions.lowercase text = text.map Char.toLower
  regex : ∀ literal, literal ≠ [] → isAscii literal = true →
    ∃ isMatch, functions.regex ("(?i-u:".toList ++ escapeRegex literal ++ ")".toList) =
        some isMatch ∧
      ∀ text, isAscii text = true → (isMatch text = true ↔
        ∃ part, part <:+: text ∧ part.map Char.toLower = literal.map Char.toLower)

/-- The search of a text, the column that it searches and the literal that it searches for. -/
inductive EntryPoint : List Char → TextSearch → List Char → List Char → Prop
  | new {text search} : TextSearch.new library text = .ok search →
    EntryPoint text search rawColumn text
  | parse {text compiled search field value} : TextSearch.parse library text compiled = .ok search →
    TextSearch.isPolars library text = false →
    TextSearch.fieldAndValue library text = (field, value) → ¬ TextSearch.isRegex value →
    EntryPoint text search (TextSearch.columnOf field)
      ((TextSearch.escapedLiteral value).getD value)

/-- A text contains the needle, whatever their cases. -/
def Contains (needle text : List Char) : Prop :=
  library.lowercase needle <:+: functions.lowercase text

instance (needle text : List Char) : Decidable (Contains library functions needle text) :=
  inferInstanceAs (Decidable (_ <:+: _))

/-- The mask marks the rows whose texts contain the needle. -/
def Marks (needle : List Char) (values : List (Option (List Char))) (mask : List (Option Bool)) :
    Prop :=
  ∀ i : ℕ, mask[i]?.join = some true ↔
    ∃ text, values[i]?.join = some text ∧ Contains library functions needle text

variable {library functions}

theorem AsciiCase.isMatch_iff (h : AsciiCase library functions) {literal text : List Char}
    (hliteral : isAscii literal = true) (htext : isAscii text = true) :
    (∃ part, part <:+: text ∧ part.map Char.toLower = literal.map Char.toLower) ↔
      Contains library functions literal text := by
  rw [Contains, h.needle literal hliteral, h.text text htext, infix_map_iff]
  constructor
  · rintro ⟨part, hpart, hsame⟩
    exact ⟨part, hpart, hsame.symm⟩
  · rintro ⟨part, hpart, hsame⟩
    exact ⟨part, hpart, hsame.symm⟩

/-- The predicate that lowercases, and the faster one. -/
structure LiteralSearch (library : TextLibrary) (search : TextSearch) (column needle : List Char) :
    Prop where
  field : search.field = some column
  expression : ∀ e ∈ search.expression,
    e = (Expr.column column).toLowercase.containsLiteral (library.lowercase needle) ∨
      e = TextSearch.literalExpression library column needle
  ascii : ∀ e ∈ search.asciiExpression, e ∈ literalAsciiExpression column needle

/-- **The searches of both entry points** have these predicates; only a text that is empty has
none. -/
theorem EntryPoint.literal {text column needle : List Char} {search : TextSearch}
    (h : EntryPoint library text search column needle) :
    LiteralSearch library search column needle ∧ (text ≠ [] → search.expression ≠ none) := by
  cases h with
  | new h =>
    unfold TextSearch.new at h
    split_ifs at h with hlarge
    cases h
    refine ⟨⟨rfl, fun e he => ?_, fun e he => ?_⟩, fun htext => ?_⟩
    · simp only [TextSearch.ofColumn, TextSearch.rawExpression] at he
      split_ifs at he with hempty
      · cases he
      · exact .inl (Option.some.inj he).symm
    · simpa only [TextSearch.ofColumn, Option.bind_some] using he
    · simp only [TextSearch.ofColumn, TextSearch.rawExpression, if_neg htext]
      exact nofun
  | parse h hpolars hparts hregex =>
    unfold TextSearch.parse at h
    by_cases hlarge : TextSearch.maxBytes < byteSize text
    · rw [if_pos hlarge] at h
      cases h
    rw [if_neg hlarge, if_neg (by rw [hpolars]; exact Bool.false_ne_true), hparts] at h
    dsimp only at h
    rename_i field value
    by_cases hlong : 64 < byteSize field
    · rw [if_pos hlong] at h
      cases h
    rw [if_neg hlong, if_neg hregex] at h
    cases h
    refine ⟨⟨rfl, fun e he => ?_, fun e he => ?_⟩, fun htext => ?_⟩
    · simp only [TextSearch.ofColumn] at he
      split_ifs at he with hempty
      · cases he
      · exact .inr (Option.some.inj he).symm
    · simp only [TextSearch.ofColumn] at he
      split_ifs at he with hescaped
      · simpa only [Option.bind_some] using he
      · cases he
    · simp only [TextSearch.ofColumn, if_neg htext]
      exact nofun

/-! ### One predicate -/

variable {polars : Polars} {frame : Frame} {search : TextSearch} {column needle : List Char}
  {values : List (Option (List Char))}

/-- The predicate that lowercases tests each text. -/
theorem LiteralSearch.evaluate_slow (h : LiteralSearch library search column needle)
    (functions : TextFunctions) {e : Expr} (he : e ∈ search.expression)
    (hcolumn : frame.column column = some (.string values))
    (hlength : values.length = frame.height) :
    evaluate functions frame e = some (.boolean (values.map (·.map fun text =>
      decide (Contains library functions needle text)))) := by
  have htest : evaluate functions frame
      ((Expr.column column).toLowercase.containsLiteral (library.lowercase needle)) =
        some (.boolean (values.map (·.map fun text =>
          decide (Contains library functions needle text)))) := by
    simp only [Expr.containsLiteral, Expr.toLowercase, Expr.lit, evaluate, evaluateAll, hcolumn,
      Option.bind_some, Option.map_some, applyFunction]
    rw [zipWith_testValue _ _ _ (by rw [length_map, hlength]), map_map]
    congr 2
    refine map_congr_left fun value _ => ?_
    cases value <;> rfl
  rcases h.expression e he with rfl | rfl
  · exact htest
  · rw [← htest]
    simp only [TextSearch.literalExpression, Expr.castString, Expr.containsLiteral,
      Expr.toLowercase, evaluate, evaluateAll, hcolumn, Option.bind_some, castSeries, if_pos]

/-- The faster predicate tests each text by the pattern. -/
theorem LiteralSearch.evaluate_fast (h : LiteralSearch library search column needle)
    (hcase : AsciiCase library functions) {e : Expr} (he : e ∈ search.asciiExpression) :
    ∃ isMatch : List Char → Bool,
      (∀ text, isAscii text = true → (isMatch text = true ↔
        Contains library functions needle text)) ∧
      ∀ (frame : Frame) (values : List (Option (List Char))),
        frame.column column = some (.string values) → values.length = frame.height →
          evaluate functions frame e = some (.boolean (values.map (·.map isMatch))) := by
  have hfast := h.ascii e he
  unfold literalAsciiExpression at hfast
  split_ifs at hfast with hascii
  · cases hfast
    obtain ⟨isMatch, hregex, hmatch⟩ := hcase.regex needle hascii.1 hascii.2
    refine ⟨isMatch, fun text htext => (hmatch text htext).trans
      (hcase.isMatch_iff hascii.2 htext), fun frame values hcolumn hlength => ?_⟩
    simp only [Expr.contains, Expr.castString, Expr.lit, evaluate, evaluateAll, hcolumn,
      Option.bind_some, Option.map_some, castSeries, if_pos, applyFunction]
    rw [if_pos, zipWith_testValue _ _ _ hlength, hregex]
    · rfl
    · refine all_eq_true.2 fun pattern hpattern => ?_
      rw [eq_of_mem_replicate hpattern, Option.any_some, hregex]
      rfl
  · cases hfast

theorem marks_map {test : List Char → Bool} (h : ∀ text, some text ∈ values →
    (test text = true ↔ Contains library functions needle text)) :
    Marks library functions needle values (values.map (·.map test)) := by
  intro i
  rw [map_join_eq_true]
  refine exists_congr fun text => and_congr_right fun hi => h text ?_
  exact mem_of_getElem? (Option.join_eq_some_iff.1 hi)

/-- **The predicate that lowercases** marks the rows. -/
theorem LiteralSearch.marks_slow (h : LiteralSearch library search column needle) {e : Expr}
    (he : e ∈ search.expression)
    (hcolumn : frame.column column = some (.string values))
    (hlength : values.length = frame.height) :
    ∃ mask, evaluate functions frame e = some (.boolean mask) ∧
      Marks library functions needle values mask :=
  ⟨_, h.evaluate_slow functions he hcolumn hlength, marks_map fun _ _ => decide_eq_true_iff⟩

/-- **The faster predicate** marks the rows where all texts are ASCII. -/
theorem LiteralSearch.marks_fast (h : LiteralSearch library search column needle)
    (hcase : AsciiCase library functions) {e : Expr} (he : e ∈ search.asciiExpression)
    (hcolumn : frame.column column = some (.string values))
    (hlength : values.length = frame.height) (hascii : values.all (·.all isAscii) = true) :
    ∃ mask, evaluate functions frame e = some (.boolean mask) ∧
      Marks library functions needle values mask := by
  obtain ⟨isMatch, hmatch, heval⟩ := h.evaluate_fast hcase he
  refine ⟨_, heval frame values hcolumn hlength, marks_map fun text htext => hmatch text ?_⟩
  exact all_eq_true.1 hascii (some text) htext

/-- **Each kind of rows by its own predicate** marks the rows. -/
theorem LiteralSearch.marks_partitioned (h : LiteralSearch library search column needle)
    (hengine : polars.Evaluates functions) (hcase : AsciiCase library functions)
    (hcolumn : frame.column column = some (.string values))
    (hlength : values.length = frame.height) {result : Except Failure (List (Option Bool))}
    (hresult : result ∈ search.partitionedMask polars frame) :
    ∃ mask, result = .ok mask ∧ Marks library functions needle values mask := by
  unfold TextSearch.partitionedMask at hresult
  rw [h.field, Option.mem_def, Option.bind_some] at hresult
  obtain ⟨fast, hfast, hresult⟩ := Option.bind_eq_some_iff.1 hresult
  obtain ⟨slow, hslow, hresult⟩ := Option.bind_eq_some_iff.1 hresult
  have htexts : TextSearch.texts frame column = some values := by
    rw [TextSearch.texts, hcolumn]
  rw [htexts, Option.bind_some] at hresult
  dsimp only at hresult
  split_ifs at hresult with hone
  cases hresult
  -- the rows of the two kinds
  generalize hrows : values.map (fun value => value.any isAscii) = rows
  have hrowsLength : rows.length = values.length := by rw [← hrows, length_map]
  have hothersLength : (rows.map Bool.not).length = values.length := by
    rw [length_map, hrowsLength]
  rw [hengine.filter frame rows (hrowsLength.trans hlength),
    hengine.filter frame (rows.map Bool.not) (hothersLength.trans hlength)]
  dsimp only
  obtain ⟨isMatch, hmatch, heval⟩ := h.evaluate_fast hcase hfast
  have hkept (keep : List Bool) : (frame.keepRows keep).column column =
      some (.string (keepValues keep values)) := by
    rw [Frame.column_keepRows, hcolumn]
    rfl
  have hfastMask := hengine.predicateMask (heval (frame.keepRows rows) (keepValues rows values)
    (hkept rows) (length_keepValues hrowsLength))
  have hslowMask := hengine.predicateMask (h.evaluate_slow functions hslow
    (hkept (rows.map Bool.not)) (length_keepValues hothersLength))
  rw [hfastMask, hslowMask]
  dsimp only
  refine ⟨_, rfl, ?_⟩
  rw [← hrows, reassemble_keepValues]
  intro i
  rw [getElem?_map]
  cases hi : values[i]? with
  | none => simp
  | some value =>
    cases value with
    | none => simp
    | some text =>
      cases hascii : isAscii text with
      | true => simpa [hascii] using hmatch text hascii
      | false => simp [hascii]

theorem TextSearch.exists_predicate (frame : Frame) (h : search.expression ≠ none) :
    ∃ e, search.predicate frame = some e := by
  obtain ⟨slow, hslow⟩ := Option.ne_none_iff_exists'.1 h
  unfold TextSearch.predicate
  rw [hslow]
  split_ifs with hmissing
  · exact ⟨_, rfl⟩
  · cases search.field with
    | none => exact ⟨slow, rfl⟩
    | some field =>
      cases search.asciiExpression with
      | none => exact ⟨slow, rfl⟩
      | some fast =>
        dsimp only
        split_ifs
        · exact ⟨fast, rfl⟩
        · exact ⟨slow, rfl⟩

/-- **The predicate that a search contributes** marks the rows. -/
theorem LiteralSearch.marks_predicate (h : LiteralSearch library search column needle)
    (hcase : AsciiCase library functions) (hcolumn : frame.column column = some (.string values))
    (hlength : values.length = frame.height) {e : Expr} (he : e ∈ search.predicate frame) :
    ∃ mask, evaluate functions frame e = some (.boolean mask) ∧
      Marks library functions needle values mask := by
  unfold TextSearch.predicate at he
  rw [h.field, if_neg (by rintro ⟨field, ⟨⟩, hnone⟩; rw [hcolumn] at hnone; cases hnone)] at he
  have htexts : TextSearch.texts frame column = some values := by
    rw [TextSearch.texts, hcolumn]
  cases hfast : search.asciiExpression with
  | none =>
    rw [hfast] at he
    exact h.marks_slow he hcolumn hlength
  | some fast =>
    rw [hfast] at he
    dsimp only at he
    split_ifs at he with hascii
    · obtain ⟨values', hvalues', hascii⟩ := hascii
      rw [htexts] at hvalues'
      cases hvalues'
      exact h.marks_fast hcase (hfast.trans he) hcolumn hlength hascii
    · exact h.marks_slow he hcolumn hlength

/-! ### Combined predicates -/

/-- The predicate of an exact constraint. -/
def exactPredicate (constraint : ExactFieldConstraint) : Option Expr :=
  constraint.token.toOption.map fun token =>
    (Expr.column (exactValueColumn constraint.field)).eq (.lit token)

/-- The other predicates of a query: the filter, the exact constraint and the native one. -/
def others (query : BatchQuery) (exact : Option ExactFieldConstraint) (direct : Option Expr) :
    List Expr :=
  (query.filter.map CompiledDefinition.body).toList ++
    ((exact.bind exactPredicate).toList ++ direct.toList)

/-- All predicates hold of the row. -/
def AllHold (functions : TextFunctions) (frame : Frame) (predicates : List Expr) (i : ℕ) : Prop :=
  ∀ e ∈ predicates, ∀ rows, evaluate functions frame e = some (.boolean rows) →
    rows[i]?.join = some true

theorem join_zipWith_andValue (l r : List (Option Bool)) (i : ℕ) :
    (List.zipWith andValue l r)[i]?.join = some true ↔
      l[i]?.join = some true ∧ r[i]?.join = some true := by
  rw [getElem?_zipWith]
  cases l[i]? with
  | none => simp
  | some left =>
    cases r[i]? with
    | none => simp
    | some right => exact andValue_eq_true

/-- **A conjunction** holds of the rows of which all its parts hold. -/
theorem evaluate_foldl_and {predicates : List Expr}
    (h : ∀ e ∈ predicates, ∃ rows, evaluate functions frame e = some (.boolean rows)) {e : Expr}
    {mask : List (Option Bool)} (he : evaluate functions frame e = some (.boolean mask)) :
    ∃ mask', evaluate functions frame (predicates.foldl Expr.and e) = some (.boolean mask') ∧
      ∀ i : ℕ, mask'[i]?.join = some true ↔
        mask[i]?.join = some true ∧ AllHold functions frame predicates i := by
  induction predicates generalizing e mask with
  | nil => exact ⟨mask, he, fun i => by simp [AllHold]⟩
  | cons first rest ih =>
    obtain ⟨rows, hrows⟩ := h first mem_cons_self
    have hboth : evaluate functions frame (e.and first) =
        some (.boolean (List.zipWith andValue mask rows)) := by
      simp only [Expr.and, evaluate, he, hrows, Option.bind_some, applyBinary]
    obtain ⟨mask', hmask', hi⟩ := ih (fun e' he' => h e' (mem_cons_of_mem _ he')) hboth
    refine ⟨mask', hmask', fun i => ?_⟩
    rw [hi, join_zipWith_andValue, and_assoc]
    refine and_congr_right fun _ => ?_
    unfold AllHold
    rw [forall_mem_cons, hrows]
    refine and_congr_left fun _ => ⟨fun hrow rows' hrows' => ?_, fun hrow => hrow rows rfl⟩
    obtain rfl := Series.boolean.inj (Option.some.inj hrows')
    exact hrow

/-- The predicate of a query is the conjunction of its parts. -/
theorem expression_predicateOf {query : BatchQuery} {exact : Option ExactFieldConstraint}
    {direct : Option Expr} (hcompiles : Compiles query exact frame) {e : Expr}
    (hsearch : query.textSearch = some search) (he : search.predicate frame = some e) :
    (predicateOf query exact direct frame).expression =
      some ((others query exact direct).foldl Expr.and e) := by
  have hfirst : (searchAndFilter query frame).expression =
      some ((query.filter.map CompiledDefinition.body).toList.foldl Expr.and e) := by
    unfold searchAndFilter
    rw [hsearch, Option.bind_some, he]
    cases hfilter : query.filter with
    | none => rfl
    | some filter =>
      dsimp only
      rw [CompiledDefinition.expression, if_neg (not_not.2 (hcompiles.filter filter hfilter))]
      rfl
  have hsecond : (withExact exact frame (searchAndFilter query frame)).expression =
      some ((exact.bind exactPredicate).toList.foldl Expr.and
        ((query.filter.map CompiledDefinition.body).toList.foldl Expr.and e)) := by
    unfold withExact
    cases exact with
    | none => exact hfirst
    | some constraint =>
      obtain ⟨token, htoken⟩ := hcompiles.token constraint rfl
      dsimp only
      rw [htoken]
      dsimp only
      rw [if_neg (hcompiles.column constraint rfl), hfirst, Option.bind_some, exactPredicate,
        htoken]
      rfl
  unfold predicateOf withNative others
  rw [hsecond, foldl_append, foldl_append]
  cases direct <;> rfl

/-! ### All paths -/

/-- What every path of a search comes to over a batch. -/
structure Paths (polars : Polars) (library : TextLibrary) (functions : TextFunctions)
    (frame : Frame) (values : List (Option (List Char))) (text : List Char) (search : TextSearch)
    (needle : List Char) : Prop where
  /-- The predicate that lowercases. -/
  slow : ∀ e ∈ search.expression, ∃ mask, predicateMaskExpr polars frame e = .ok mask ∧
    Marks library functions needle values mask
  /-- The faster predicate, where all texts are ASCII. -/
  fast : values.all (·.all isAscii) = true → ∀ e ∈ search.asciiExpression,
    ∃ mask, predicateMaskExpr polars frame e = .ok mask ∧
      Marks library functions needle values mask
  /-- Both, each on its own rows. -/
  partitioned : ∀ result ∈ search.partitionedMask polars frame, ∃ mask, result = .ok mask ∧
    Marks library functions needle values mask
  /-- A colour rule. -/
  colored : ∀ result ∈ colorMask polars frame search, ∃ mask, result = .ok mask ∧
    Marks library functions needle values mask
  /-- The mask of a query, alone or with other predicates. -/
  selected : text ≠ [] → ∀ query exact direct, query.textSearch = some search →
    Compiles query exact frame →
    (∀ e ∈ others query exact direct, ∃ rows, evaluate functions frame e = some (.boolean rows)) →
    ∃ mask, maskOf polars query exact direct frame = some (.ok mask) ∧
      ∀ i : ℕ, mask[i]?.join = some true ↔
        (∃ text, values[i]?.join = some text ∧ Contains library functions needle text) ∧
          AllHold functions frame (others query exact direct) i

/-- **All paths of a text search mark the same rows**: those whose texts, in lowercase, contain the
lowercase of the needle. -/
theorem text_paths (hengine : polars.Evaluates functions) (hcase : AsciiCase library functions)
    {text : List Char} (hentry : EntryPoint library text search column needle)
    (hcolumn : frame.column column = some (.string values))
    (hlength : values.length = frame.height) :
    Paths polars library functions frame values text search needle := by
  obtain ⟨h, hsome⟩ := hentry.literal
  have hmask {e : Expr} (he : ∃ mask, evaluate functions frame e = some (.boolean mask) ∧
      Marks library functions needle values mask) :
      ∃ mask, predicateMaskExpr polars frame e = .ok mask ∧
        Marks library functions needle values mask := by
    obtain ⟨mask, heval, hmarks⟩ := he
    exact ⟨mask, hengine.predicateMask heval, hmarks⟩
  refine ⟨fun e he => hmask (h.marks_slow he hcolumn hlength),
    fun hascii e he => hmask (h.marks_fast hcase he hcolumn hlength hascii),
    fun result hresult => h.marks_partitioned hengine hcase hcolumn hlength hresult,
    fun result hresult => ?_, fun htext query exact direct hsearch hcompiles hothers => ?_⟩
  · unfold colorMask at hresult
    cases hpartitioned : search.partitionedMask polars frame with
    | some mask =>
      rw [hpartitioned] at hresult
      exact h.marks_partitioned hengine hcase hcolumn hlength (hpartitioned.trans hresult)
    | none =>
      rw [hpartitioned] at hresult
      obtain ⟨e, he, rfl⟩ := Option.map_eq_some_iff.1 hresult
      exact hmask (h.marks_predicate hcase hcolumn hlength he)
  · unfold maskOf
    cases hstandalone : standaloneMask polars query exact direct frame with
    | some result =>
      -- a search that stands alone has no other predicates
      unfold standaloneMask at hstandalone
      split_ifs at hstandalone with halone
      rw [hsearch, Option.bind_some] at hstandalone
      obtain ⟨mask, rfl, hmarks⟩ :=
        h.marks_partitioned hengine hcase hcolumn hlength hstandalone
      refine ⟨mask, rfl, fun i => (hmarks i).trans (and_iff_left ?_).symm⟩
      obtain ⟨hfilter, hexact, hnative⟩ := halone
      rw [Option.isNone_iff_eq_none] at hfilter hexact hnative
      rw [others, hfilter, hexact, hnative]
      exact fun e he => by cases he
    | none =>
      obtain ⟨e, he⟩ := TextSearch.exists_predicate frame (hsome htext)
      obtain ⟨mask, heval, hmarks⟩ := h.marks_predicate hcase hcolumn hlength he
      obtain ⟨mask', heval', hrows⟩ := evaluate_foldl_and hothers heval
      refine ⟨mask', ?_, fun i => by rw [hrows, hmarks]⟩
      dsimp only
      rw [expression_predicateOf hcompiles hsearch he, Option.map_some,
        hengine.predicateMask heval']

/-! ### ASCII only -/

/-- What a backslash stands before. -/
def unescape : List Char → List Char
  | '\\' :: c :: cs => c :: unescape cs
  | c :: cs => c :: unescape cs
  | [] => []

theorem unescape_escapeRegex (cs : List Char) : unescape (escapeRegex cs) = cs := by
  induction cs with
  | nil => rfl
  | cons c cs ih =>
    rw [escapeRegex, flatMap_cons, ← escapeRegex]
    split_ifs with hspecial
    · rw [cons_append, singleton_append, unescape, ih]
    · have hc : c ≠ '\\' := by
        rintro rfl
        exact hspecial (by decide)
      rw [singleton_append, unescape, ih]
      exact fun d ds heq => absurd heq hc

theorem stripStart_append (start cs : List Char) : stripStart start (start ++ cs) = some cs := by
  have hstart : start.isPrefixOf (start ++ cs) = true := by
    induction start with
    | nil => rfl
    | cons c start ih => rw [cons_append, List.isPrefixOf, ih, beq_self_eq_true]; rfl
  rw [stripStart, if_pos hstart, drop_left]

/-- Libraries that know the letters A to Z. -/
def asciiLibrary : TextLibrary :=
  ⟨List.map Char.toLower, Char.isAlphanum, Char.isWhitespace, fun _ => none, fun _ => none⟩

def asciiFunctions : TextFunctions where
  lowercase := List.map Char.toLower
  regex pattern := (stripStart "(?i-u:".toList pattern).map fun body text =>
    (unescape body.dropLast).map Char.toLower <:+: text.map Char.toLower

theorem asciiCase : AsciiCase asciiLibrary asciiFunctions where
  needle _ _ := rfl
  text _ _ := rfl
  regex literal _ _ := by
    refine ⟨fun text => literal.map Char.toLower <:+: text.map Char.toLower, ?_, fun text _ => ?_⟩
    · simp only [asciiFunctions]
      rw [append_assoc, stripStart_append, Option.map_some]
      simp only [show ")".toList = [')'] from rfl, dropLast_concat, unescape_escapeRegex]
    · rw [decide_eq_true_iff, infix_map_iff]
      constructor
      · rintro ⟨part, hpart, hsame⟩
        exact ⟨part, hpart, hsame.symm⟩
      · rintro ⟨part, hpart, hsame⟩
        exact ⟨part, hpart, hsame.symm⟩

/-- An ASCII text, another one and a missing one. -/
def mixedValues : List (Option (List Char)) :=
  [some "an Error".toList, some "Fehler ö".toList, none]

theorem text_paths_mixed : ∃ search, TextSearch.new asciiLibrary "err".toList = .ok search ∧
    Paths (rowPolars asciiFunctions) asciiLibrary asciiFunctions
      ⟨3, [(rawColumn, .string mixedValues)]⟩ mixedValues "err".toList search "err".toList := by
  refine ⟨_, if_neg (by decide +kernel), ?_⟩
  exact text_paths (rowPolars_evaluates asciiFunctions) asciiCase
    (.new (if_neg (by decide +kernel))) (by decide +kernel) rfl

end Lvu.Query
