import Lvu.Live.Extraction

/-!
# What a stored time field reads back as

* `parseToken_toToken` : a selection whose parts neither contain the separator nor look like an
  absent one comes back.
* `tokens_iff` : **which selections come back, each from a token of its own**.
-/

namespace Lvu.Time

open List

/-! ### The parts -/

theorem dropPrefix_append (front cs : List Char) : (front ++ cs).dropPrefix? front = some cs :=
  dropPrefix?_append_of_beq cs (beq_self_eq_true front)

theorem TimeInterpretation.parseToken_token (i : TimeInterpretation) : parseToken i.token = some i := by
  cases i with
  | auto => rfl
  | text => rfl
  | epoch unit => cases unit <;> decide

theorem parseInt32_decimal (n : Int32) : parseInt32 (decimal n.toInt) = some n := by
  rw [parseInt32, readInt_decimal n.minValue_le_toInt n.toInt_le]
  exact congrArg some n.ofInt_toInt

theorem ZoneAssumption.parseToken_token {zone : ZoneAssumption}
    (h : ∀ offset, zone = .fixedOffsetSeconds offset → inRange offset = true) :
    parseToken zone.token = some zone := by
  cases zone with
  | reject => rfl
  | utc => rfl
  | fixedOffsetSeconds offset =>
    have hne (word : List Char) (hword : word.head? ≠ some 'o') :
        "offset".toList ++ decimal offset.toInt ≠ word := by
      rintro rfl
      exact hword rfl
    have hreject := hne "reject".toList (by decide)
    have hutc := hne "utc".toList (by decide)
    change parseToken ("offset".toList ++ decimal offset.toInt) = _
    rw [parseToken, if_neg hreject, if_neg hutc, dropPrefix_append, Option.bind_some, parseInt32_decimal, Option.filter_some, h offset rfl]
    rfl

theorem dropPrefix_other {c d : Char} (h : c ≠ d) (front other cs : List Char) :
    (c :: front ++ cs).dropPrefix? (d :: other) = none := by
  simp [List.dropPrefix?, h]

theorem parseField_structured (path : List Char) :
    parseField ("structured:".toList ++ path) = .ok (.structured path) := by
  have hraw : "raw".toList = ['r', 'a', 'w'] := by decide
  have hstructured : "structured:".toList = 's' :: "tructured:".toList := by decide
  have hne : "structured:".toList ++ path ≠ "raw".toList := by
    simp only [hstructured, hraw, cons_append]
    exact fun h => absurd (List.cons.inj h).1 (by decide)
  rw [parseField, if_neg hne, dropPrefix_append]

theorem parseField_column (name : List Char) :
    parseField ("column:".toList ++ name) = .ok (.column name) := by
  have hraw : "raw".toList = ['r', 'a', 'w'] := by decide
  have hstructured : "structured:".toList = 's' :: "tructured:".toList := by decide
  have hcolumn : "column:".toList = 'c' :: "olumn:".toList := by decide
  have hne : "column:".toList ++ name ≠ "raw".toList := by
    simp only [hcolumn, hraw, cons_append]
    exact fun h => absurd (List.cons.inj h).1 (by decide)
  have hnone : ("column:".toList ++ name).dropPrefix? "structured:".toList = none := by
    simp only [hcolumn, hstructured]
    exact dropPrefix_other (by decide) _ _ _
  rw [parseField, if_neg hne, hnone, dropPrefix_append]

theorem parseField_token (field : TimeFieldRef) : parseField field.token = .ok field := by
  cases field with
  | structured path => exact parseField_structured path
  | rawPrefix => rfl
  | column name => exact parseField_column name

theorem parseYear_part (year : Option Int32) :
    parseYear ((year.map fun year => decimal year.toInt).getD absent) = .ok year := by
  cases year with
  | none => rfl
  | some year =>
    have hne : decimal year.toInt ≠ absent := fun h => by
      have hread := parseInt32_decimal year
      have hnone : parseInt32 absent = none := by decide
      rw [h, hnone] at hread
      cases hread
    rw [Option.map_some, Option.getD_some, parseYear, if_neg hne, parseInt32_decimal]

theorem parseFormat_part {format : Option (List Char)}
    (hlen : ∀ f, format = some f → byteSize f ≤ MAX_TIME_FORMAT_BYTES) :
    parseFormat (format.getD absent) = .ok format ↔ format ≠ some absent := by
  cases format with
  | none => exact iff_of_true rfl (by simp)
  | some f =>
    rw [Option.getD_some, parseFormat]
    by_cases hf : f = absent
    · rw [if_pos hf, hf]
      exact iff_of_false (by simp) (by simp)
    · rw [if_neg hf, if_neg (Nat.not_lt_of_le (hlen f rfl))]
      exact iff_of_true rfl (by simpa using hf)

/-! ### The separator -/

theorem interpretation_separator (i : TimeInterpretation) : '|' ∉ i.token := by
  cases i with
  | auto => decide
  | text => decide
  | epoch unit => cases unit <;> decide

theorem decimal_separator (n : ℤ) : '|' ∉ decimal n := fun h => by
  rcases mem_decimal h with hdigit | hsign
  · exact absurd hdigit (by decide)
  · exact absurd hsign (by decide)

theorem zone_separator (zone : ZoneAssumption) : '|' ∉ zone.token := by
  cases zone with
  | reject => decide
  | utc => decide
  | fixedOffsetSeconds offset =>
    intro h
    rcases mem_append.1 h with h | h
    · exact absurd h (by decide)
    · exact decimal_separator _ h

theorem year_separator (year : Option Int32) :
    '|' ∉ (year.map fun year => decimal year.toInt).getD absent := by
  cases year with
  | none => decide
  | some year => exact decimal_separator _

/-- The path or the name in a field. -/
def TimeFieldRef.text : TimeFieldRef → List Char
  | structured path => path
  | rawPrefix => []
  | column name => name

theorem mem_append_iff {front : List Char} (h : '|' ∉ front) (cs : List Char) :
    '|' ∈ front ++ cs ↔ '|' ∈ cs := by
  rw [mem_append]
  exact or_iff_right h

theorem field_separator (field : TimeFieldRef) : '|' ∈ field.token ↔ '|' ∈ field.text := by
  cases field with
  | structured path => exact mem_append_iff (by decide) path
  | rawPrefix => exact iff_of_false (by decide) not_mem_nil
  | column name => exact mem_append_iff (by decide) name

theorem two_le_length_splitOn {x : Char} {part : List Char} (h : x ∈ part) :
    2 ≤ (part.splitOn x).length := by
  obtain ⟨before, after, rfl⟩ := append_of_mem h
  rw [splitOn_append_cons_self, length_append]
  have hbefore := length_pos_of_ne_nil (splitOn_ne_nil x before)
  have hafter := length_pos_of_ne_nil (splitOn_ne_nil x after)
  omega

theorem splitOn_toToken (s : TimeFieldSelection) :
    s.toToken.splitOn '|' = s.parts.flatMap fun part => part.splitOn '|' := by
  simp only [TimeFieldSelection.toToken, TimeFieldSelection.parts, List.intercalate,
    List.intersperse, flatten_cons, flatten_nil, append_nil, cons_append,
    nil_append, splitOn_append_cons_self, flatMap_cons, flatMap_nil]

/-! ### What comes back -/

/-- What the program builds: its field was found in a record, its offset is less than a day, and its
format was let through. -/
structure Producible (fromStr : List Char → Option Json) (s : TimeFieldSelection) : Prop where
  extracted : ∀ path, s.field = .structured path →
    ∃ text fields, structuredFields fromStr text = .ok fields ∧ ∃ f ∈ fields, f.path = path
  zone : ∀ offset, s.zone = .fixedOffsetSeconds offset → ZoneAssumption.inRange offset = true
  format : ∀ f, s.textFormat = some f → textFormatError f = none

/-- Neither its field contains the separator, nor is its format the mark of an absent one. -/
structure Plain (s : TimeFieldSelection) : Prop where
  field : '|' ∉ s.field.text
  format : s.textFormat ≠ some absent

theorem textFormatError_none {f : List Char} (h : textFormatError f = none) :
    byteSize f ≤ MAX_TIME_FORMAT_BYTES ∧ '|' ∉ f := by
  unfold textFormatError at h
  split_ifs at h with hempty hlen hmem
  exact ⟨Nat.le_of_not_lt hlen, hmem⟩

variable {fromStr : List Char → Option Json} {s : TimeFieldSelection}

theorem Producible.format_separator (h : Producible fromStr s) : '|' ∉ s.textFormat.getD absent := by
  cases hformat : s.textFormat with
  | none => decide
  | some f => exact (textFormatError_none (h.format f hformat)).2

theorem Producible.splitOn (h : Producible fromStr s) (hfield : '|' ∉ s.field.text) :
    s.toToken.splitOn '|' = s.parts := by
  refine splitOn_intercalate '|' (fun part hpart => ?_) (by simp [TimeFieldSelection.parts])
  simp only [TimeFieldSelection.parts, mem_cons, not_mem_nil, or_false] at hpart
  rcases hpart with rfl | rfl | rfl | rfl | rfl
  · exact fun hmem => hfield ((field_separator _).1 hmem)
  · exact interpretation_separator _
  · exact zone_separator _
  · exact year_separator _
  · exact h.format_separator

theorem Producible.parseParts (h : Producible fromStr s) :
    parseParts s.field.token s.interpretation.token s.zone.token
        ((s.assumedYear.map fun year => decimal year.toInt).getD absent)
        (s.textFormat.getD absent) = .ok s ↔ s.textFormat ≠ some absent := by
  have hformat := parseFormat_part (fun f hf => (textFormatError_none (h.format f hf)).1)
  rw [← hformat, Time.parseParts, parseField_token, TimeInterpretation.parseToken_token,
    ZoneAssumption.parseToken_token h.zone, parseYear_part]
  cases hread : parseFormat (s.textFormat.getD absent) with
  | error e => exact iff_of_false (fun h => by cases h) fun h => by cases h
  | ok format =>
    constructor
    · intro heq
      have := congrArg TimeFieldSelection.textFormat (Except.ok.inj heq)
      exact congrArg Except.ok this
    · intro heq
      rw [Except.ok.inj heq]
      rfl

/-- **A selection comes back exactly if it is plain.** -/
theorem Producible.parseToken_toToken (h : Producible fromStr s) :
    parseToken s.toToken = .ok s ↔ Plain s := by
  by_cases hfield : '|' ∈ s.field.text
  · -- six parts at least
    refine iff_of_false (fun hread => ?_) fun hplain => hplain.field hfield
    have hlen : 6 ≤ (s.toToken.splitOn '|').length := by
      rw [splitOn_toToken]
      have h₀ := two_le_length_splitOn ((field_separator s.field).2 hfield)
      have hpos (part : List Char) : 0 < (part.splitOn '|').length :=
        length_pos_of_ne_nil (splitOn_ne_nil _ _)
      have h₁ := hpos s.interpretation.token
      have h₂ := hpos s.zone.token
      have h₃ := hpos ((s.assumedYear.map fun year => decimal year.toInt).getD absent)
      have h₄ := hpos (s.textFormat.getD absent)
      simp only [TimeFieldSelection.parts, flatMap_cons, flatMap_nil, length_append,
        append_nil]
      omega
    unfold parseToken at hread
    split at hread
    · rename_i hparts
      rw [hparts] at hlen
      simp at hlen
    · rename_i hparts
      rw [hparts] at hlen
      simp at hlen
    · cases hread
  · have hparts : parseToken s.toToken = Time.parseParts s.field.token s.interpretation.token
        s.zone.token ((s.assumedYear.map fun year => decimal year.toInt).getD absent)
        (s.textFormat.getD absent) := by
      unfold parseToken
      rw [h.splitOn hfield]
      rfl
    rw [hparts, h.parseParts]
    exact ⟨fun hformat => ⟨hfield, hformat⟩, fun hplain => hplain.format⟩

/-- **Which selections come back, each from a token of its own**: those of a set do exactly if all
of them are plain. -/
theorem tokens_iff (fromStr : List Char → Option Json) (S : Set TimeFieldSelection)
    (h : ∀ s ∈ S, Producible fromStr s) :
    ((∀ s ∈ S, parseToken s.toToken = .ok s) ∧ S.InjOn TimeFieldSelection.toToken) ↔
      ∀ s ∈ S, Plain s := by
  constructor
  · exact fun hread s hs => ((h s hs).parseToken_toToken).1 (hread.1 s hs)
  · intro hplain
    have hread : ∀ s ∈ S, parseToken s.toToken = .ok s := fun s hs =>
      ((h s hs).parseToken_toToken).2 (hplain s hs)
    refine ⟨hread, fun s hs s' hs' htoken => ?_⟩
    have := (hread s hs).symm.trans (htoken ▸ hread s' hs')
    exact Except.ok.inj this

/-- A basis that is a field of a record, and one that is a column with a format. -/
def exampleSelections : Set TimeFieldSelection :=
  {⟨.structured ['t', 's'], .auto, .fixedOffsetSeconds (-3600), some 2026, none⟩,
    ⟨.column ['t'], .text, .utc, none, some ['%', 'Y']⟩}

theorem tokens_iff_example :
    (∀ s ∈ exampleSelections, parseToken s.toToken = .ok s) ∧
      exampleSelections.InjOn TimeFieldSelection.toToken := by
  have hfields : structuredFields (fun _ => none) ['t', 's', '=', '1'] =
      .ok [field ['t', 's'] ['1'] false] := by
    have hround := @logfmtLoop_pair ['t', 's', '=', '1'] ['s', '=', '1'] ['1'] [] ['1'] 't'
      [] (by decide) rfl rfl rfl
    exact hround.trans (logfmtLoop_end rfl)
  refine (tokens_iff (fun _ => none) exampleSelections ?_).2 ?_
  · rintro s (rfl | rfl)
    · refine ⟨fun path h => ?_, fun offset h => ?_, fun f h => (by cases h)⟩
      · cases h
        exact ⟨_, _, hfields, _, mem_singleton_self _, rfl⟩
      · cases h
        decide
    · refine ⟨fun path h => (by cases h), fun offset h => (by cases h), fun f h => ?_⟩
      cases h
      decide
  · rintro s (rfl | rfl) <;> exact ⟨by decide, by decide⟩

/-- The key `a|b` is a field of its record, and `-` is a format that is let through. -/
theorem tokens_lost :
    let keyed : TimeFieldSelection := ⟨.structured ['a', '|', 'b'], .auto, .reject, none, none⟩
    let dashed : TimeFieldSelection := ⟨.column ['t'], .text, .utc, none, some ['-']⟩
    let formless : TimeFieldSelection := { dashed with textFormat := none }
    (Producible (fun _ => none) keyed ∧ parseToken keyed.toToken = .error .parts) ∧
      (Producible (fun _ => none) dashed ∧ parseToken dashed.toToken = .ok formless) ∧
      dashed ≠ formless ∧ dashed.toToken = formless.toToken := by
  intro keyed dashed formless
  have hfields : structuredFields (fun _ => none) ['a', '|', 'b', '=', '1'] =
      .ok [field ['a', '|', 'b'] ['1'] false] := by
    have hround := @logfmtLoop_pair ['a', '|', 'b', '=', '1'] ['|', 'b', '=', '1'] ['1'] [] ['1'] 'a'
      [] (by decide) rfl rfl rfl
    exact hround.trans (logfmtLoop_end rfl)
  refine ⟨⟨⟨fun path h => ?_, fun offset h => (by cases h), fun f h => (by cases h)⟩, by decide⟩,
    ⟨⟨fun path h => (by cases h), fun offset h => (by cases h), fun f h => ?_⟩, by decide⟩, by decide,
    by decide⟩
  · cases h
    exact ⟨_, _, hfields, _, mem_singleton_self _, rfl⟩
  · cases h
    decide

end Lvu.Time
