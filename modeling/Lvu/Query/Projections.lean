import Lvu.Query.OneField

/-!
# The two projections of a run of batches

The statistics of a field read that field only, and a filter reads the canonical projection
(`lvu-query/src/adapter.rs`).

* `AgreeAll` : the projections agree on every batch of a run.
* `Served` : what the records and the name are where they do.
* `one_field_agrees` : **the one-field projection agrees with the canonical one** exactly there.
* `one_field_differs` : a reserved name is read as a field.
-/

namespace Lvu.Query.Adapter

open List

attribute [local instance] lawful_names

variable {Double : Type} {lib : Library Double} {schema : SchemaContext} {field : List Char}
  {before batch : List RawRecord}

/-! ### The runs -/

/-- The canonical projections of some batches, each with the schema after those before it. -/
def projectAll (lib : Library Double) :
    List (List RawRecord) → SchemaContext → Except AdapterError (List (RecordBatch Double))
  | [], _ => .ok []
  | records :: batches, schema => (recordsToBatchWithContext lib records schema).bind
      fun (batch, schema) => (projectAll lib batches schema).map (batch :: ·)

/-- The columns of one field of some batches. -/
def fieldColumns (lib : Library Double) (field : List Char) :
    List (List RawRecord) → SchemaContext → List (Column Double)
  | [], _ => []
  | records :: batches, schema =>
    let (column, schema) := recordsToFieldColumn lib records schema field
    column :: fieldColumns lib field batches schema

/-- One field is as the canonical column, and all null where there is none. -/
def Agrees (canonical : Option (Column Double)) (column : Column Double) : Prop :=
  canonical.elim column.AllNull (column = ·)

/-- **The projections agree** on every batch. -/
def AgreeAll (lib : Library Double) (schema : SchemaContext) (batches : List (List RawRecord))
    (field : List Char) : Prop :=
  ∃ results, projectAll lib batches schema = .ok results ∧
    List.Forall₂ (fun batch column => Agrees (batch.column field) column) results
      (fieldColumns lib field batches schema)

/-! ### When they agree -/

/-- The values of the records are those of a column of texts or of integers. -/
def Repeats (values : List (Option (Value Double))) (kind : Option FieldType) :
    Column Double → Prop
  | .string texts => kind = some .string ∧ values.map (·.bind Value.asText) = texts
  | .int64 numbers => kind = some .int64 ∧ values.map (·.bind Value.asInt) = numbers
  | _ => False

/-- **The projections agree on a batch** that comes after some records: the name is that of the
text; or it is not reserved, and it is admitted by then or no record has a value under it; or it is
reserved, and the records repeat the bookkeeping of that name under it, or have no value under it
where there is none. -/
def Served (lib : Library Double) (schema : SchemaContext) (before batch : List RawRecord)
    (field : List Char) : Prop :=
  let own := ownValues lib schema batch field
  (field = rawAlias ∨ field = rawColumn) ∨
  (isReserved field = false ∧
    (Admits schema (entriesOf lib schema (before ++ batch)) field ∨ Nulls own)) ∨
  (isReserved field = true ∧
    (∀ column, Bookkeeping lib schema before batch field column →
      Repeats own (kindAfter none (ownValues lib schema (before ++ batch) field)) column) ∧
    ((¬ ∃ column, Bookkeeping lib schema before batch field column) → Nulls own))

/-! ### One batch -/

/-- The projections agree on a batch that comes after some records. -/
def AgreeAt (lib : Library Double) (schema : SchemaContext) (before batch : List RawRecord)
    (field : List Char) : Prop :=
  Agrees (canonicalColumn lib schema before batch field) (oneColumn lib schema before batch field)

theorem isReserved_raw (h : field = rawAlias ∨ field = rawColumn) : isReserved field = true := by
  rcases h with rfl | rfl <;> rfl

theorem canonicalColumn_raw (hschema : schema.Unreserved)
    (h : field = rawAlias ∨ field = rawColumn) :
    canonicalColumn lib schema before batch field =
      some (.string (batch.map fun record => some (Utf8.decodeLossy record.bytes))) := by
  refine (canonicalColumn_reserved hschema (isReserved_raw h) before batch _).2 (.inl ?_)
  rcases h with rfl | rfl <;> simp [recordColumns]

theorem agreeAt_raw (hschema : schema.Unreserved) (h : field = rawAlias ∨ field = rawColumn) :
    AgreeAt lib schema before batch field := by
  rw [AgreeAt, canonicalColumn_raw hschema h, oneColumn, if_pos h]
  rfl

theorem agreeAt_of_admits (hreserved : isReserved field = false)
    (hadmits : Admits schema (entriesOf lib schema (before ++ batch)) field) :
    AgreeAt lib schema before batch field := by
  have hraw : ¬ (field = rawAlias ∨ field = rawColumn) := fun h => by
    rw [isReserved_raw h] at hreserved
    cases hreserved
  obtain ⟨kind, hkind⟩ := Option.isSome_iff_exists.1 ((has_admitAll hreserved).2 hadmits)
  have hafter := get?_admitAll hreserved hadmits
  rw [AgreeAt, canonicalColumn_field hreserved, hkind, oneColumn, if_neg hraw, kindAfter_ownValues,
    ← hafter, hkind]
  rfl

theorem kindAfter_nulls {known : Option FieldType} (hknown : known.getD .unknown = .unknown)
    {values : List (Option (Value Double))} (h : Nulls values) :
    (kindAfter known values).getD .unknown = .unknown := by
  induction values generalizing known with
  | nil => exact hknown
  | cons first values ih =>
    refine ih ?_ fun value hvalue => h value (mem_cons_of_mem _ hvalue)
    cases first with
    | none => exact hknown
    | some value =>
      rw [h value mem_cons_self]
      rcases known with _ | kind
      · rfl
      · obtain rfl : kind = .unknown := hknown
        rfl

/-- Where there is no canonical column, and the records before have no value, the projections agree
where the records have none. -/
theorem agreeAt_of_none (hraw : ¬ (field = rawAlias ∨ field = rawColumn))
    (hcanonical : canonicalColumn lib schema before batch field = none)
    (hknown : schema.fields.get? field = none)
    (hbefore : Nulls (ownValues lib schema before field)) :
    AgreeAt lib schema before batch field ↔ Nulls (ownValues lib schema batch field) := by
  rw [AgreeAt, hcanonical, oneColumn, if_neg hraw, hknown, ownValues_append, kindAfter_append]
  exact ⟨nulls_of_allNull (kindAfter_nulls rfl hbefore), fun h => allNull_of_nulls h _⟩

/-- A column of texts or integers is the one that the values are, where they repeat it. -/
theorem eq_iff_repeats {before batch : List RawRecord} {column : Column Double}
    (hbook : Bookkeeping lib schema before batch field column)
    (values : List (Option (Value Double))) (kind : Option FieldType) :
    fieldColumn lib values (kind.getD .unknown) = column ↔ Repeats values kind column := by
  have hshape : (∃ texts, column = .string texts) ∨ (∃ numbers, column = .int64 numbers) ∨
      (∃ numbers, column = .uint64 numbers) ∨ ∃ bytes, column = .binary bytes := by
    rcases hbook with hmem | ⟨key, -, -, -, rfl⟩
    · simp only [recordColumns, mem_cons, not_mem_nil, or_false, Prod.mk.injEq] at hmem
      rcases hmem with ⟨-, rfl⟩ | ⟨-, rfl⟩ | ⟨-, rfl⟩ | ⟨-, rfl⟩ | ⟨-, rfl⟩ | ⟨-, rfl⟩ | ⟨-, rfl⟩ |
        ⟨-, rfl⟩ | ⟨-, rfl⟩ | ⟨-, rfl⟩ | ⟨-, rfl⟩
      all_goals first
        | exact .inl ⟨_, rfl⟩
        | exact .inr (.inl ⟨_, rfl⟩)
        | exact .inr (.inr (.inl ⟨_, rfl⟩))
        | exact .inr (.inr (.inr ⟨_, rfl⟩))
    · exact .inl ⟨_, rfl⟩
  rcases hshape with ⟨texts, rfl⟩ | ⟨numbers, rfl⟩ | ⟨numbers, rfl⟩ | ⟨bytes, rfl⟩
  · rcases kind with _ | (_ | _ | _ | _ | _) <;> simp [fieldColumn, Repeats]
  · rcases kind with _ | (_ | _ | _ | _ | _) <;> simp [fieldColumn, Repeats]
  · rcases kind with _ | (_ | _ | _ | _ | _) <;> simp [fieldColumn, Repeats]
  · rcases kind with _ | (_ | _ | _ | _ | _) <;> simp [fieldColumn, Repeats]

/-- Where there is a canonical column, the projections agree where the name is served. -/
theorem agreeAt_of_some (hschema : schema.Unreserved) {column : Column Double}
    (hcanonical : canonicalColumn lib schema before batch field = some column) :
    AgreeAt lib schema before batch field ↔ Served lib schema before batch field := by
  by_cases hraw : field = rawAlias ∨ field = rawColumn
  · exact iff_of_true (agreeAt_raw hschema hraw) (.inl hraw)
  cases hreserved : isReserved field with
  | false =>
    have hadmits : Admits schema (entriesOf lib schema (before ++ batch)) field := by
      rw [canonicalColumn_field hreserved] at hcanonical
      obtain ⟨kind, hkind, -⟩ := Option.map_eq_some_iff.1 hcanonical
      exact (has_admitAll hreserved).1 (Option.isSome_iff_exists.2 ⟨kind, hkind⟩)
    exact iff_of_true (agreeAt_of_admits hreserved hadmits)
      (.inr (.inl ⟨hreserved, .inl hadmits⟩))
  | true =>
    have hbook := (canonicalColumn_reserved hschema hreserved before batch column).1 hcanonical
    have hagrees : AgreeAt lib schema before batch field ↔
        Repeats (ownValues lib schema batch field)
          (kindAfter none (ownValues lib schema (before ++ batch) field)) column := by
      rw [AgreeAt, hcanonical, oneColumn, if_neg hraw, get?_eq_none_of_reserved hschema hreserved,
        ← eq_iff_repeats hbook]
      rfl
    refine hagrees.trans ⟨fun hrepeats => .inr (.inr ⟨hreserved, fun other hother => ?_,
      fun hnone => absurd ⟨column, hbook⟩ hnone⟩), fun hserved => ?_⟩
    · have hsame := (canonicalColumn_reserved hschema hreserved before batch other).2 hother
      rw [hcanonical] at hsame
      exact Option.some.inj hsame ▸ hrepeats
    · rcases hserved with h | ⟨h, -⟩ | ⟨-, hall, -⟩
      · exact absurd h hraw
      · rw [hreserved] at h
        cases h
      · exact hall column hbook

theorem not_raw_of_none (hschema : schema.Unreserved)
    (hcanonical : canonicalColumn lib schema before batch field = none) :
    ¬ (field = rawAlias ∨ field = rawColumn) := fun h => by
  rw [canonicalColumn_raw hschema h] at hcanonical
  cases hcanonical

/-- There is no canonical column where the name is not admitted, or has no bookkeeping. -/
theorem canonicalColumn_eq_none (hschema : schema.Unreserved) :
    canonicalColumn lib schema before batch field = none ↔
      (isReserved field = false → ¬ Admits schema (entriesOf lib schema (before ++ batch)) field) ∧
      (isReserved field = true → ¬ ∃ column, Bookkeeping lib schema before batch field column) := by
  cases hreserved : isReserved field with
  | false =>
    rw [canonicalColumn_field hreserved, Option.map_eq_none_iff, ← Option.not_isSome_iff_eq_none]
    have hhas : (admitAll schema (entriesOf lib schema (before ++ batch))).Has field ↔ _ :=
      has_admitAll hreserved
    refine ⟨fun hnone => ⟨fun _ hadmits => hnone (hhas.2 hadmits), nofun⟩,
      fun h hsome => h.1 rfl (hhas.1 hsome)⟩
  | true =>
    have hbook (column : Column Double) :
        canonicalColumn lib schema before batch field = some column ↔ _ :=
      canonicalColumn_reserved hschema hreserved before batch column
    refine ⟨fun hnone => ⟨nofun, fun _ ⟨column, hcolumn⟩ => ?_⟩, fun h => ?_⟩
    · rw [(hbook column).2 hcolumn] at hnone
      cases hnone
    · exact Option.eq_none_iff_forall_ne_some.2 fun column hcolumn =>
        h.2 rfl ⟨column, (hbook column).1 hcolumn⟩

/-- Where there is no canonical column, a name is served where the records have no value. -/
theorem served_of_none (hschema : schema.Unreserved)
    (hcanonical : canonicalColumn lib schema before batch field = none) :
    Served lib schema before batch field ↔ Nulls (ownValues lib schema batch field) := by
  obtain ⟨hnot, hnone⟩ := (canonicalColumn_eq_none hschema).1 hcanonical
  constructor
  · rintro (h | ⟨hreserved, hadmits | hnulls⟩ | ⟨hreserved, -, hnulls⟩)
    · exact absurd h (not_raw_of_none hschema hcanonical)
    · exact absurd hadmits (hnot hreserved)
    · exact hnulls
    · exact hnulls (hnone hreserved)
  · intro hnulls
    cases hreserved : isReserved field with
    | false => exact .inr (.inl ⟨hreserved, .inr hnulls⟩)
    | true => exact .inr (.inr ⟨hreserved, fun column hcolumn =>
        absurd ⟨column, hcolumn⟩ (hnone hreserved), fun _ => hnulls⟩)

/-- A batch without the canonical column comes after batches without it. -/
theorem canonicalColumn_none_earlier (hschema : schema.Unreserved) {more : List RawRecord}
    {first second : List RawRecord} (hsplit : before ++ batch = first ++ second ++ more)
    (h : canonicalColumn lib schema before batch field = none) :
    canonicalColumn lib schema first second field = none := by
  obtain ⟨hnot, hnone⟩ := (canonicalColumn_eq_none hschema).1 h
  have hlater {key : List Char}
      (hadmits : Admits schema (entriesOf lib schema (first ++ second)) key) :
      Admits schema (entriesOf lib schema (before ++ batch)) key := by
    rw [hsplit, entriesOf_append (first ++ second)]
    exact hadmits.append _
  refine (canonicalColumn_eq_none hschema).2
    ⟨fun hreserved hadmits => hnot hreserved (hlater hadmits), ?_⟩
  rintro hreserved ⟨column, hmem | ⟨key, hkey, hunreserved, hadmits, rfl⟩⟩
  · have hname : field ∈ recordNames := mem_map_of_mem (f := Prod.fst) hmem
    have hnames : (recordColumns batch (batch.map (recordStatus lib schema)) :
        List (List Char × Column Double)).map Prod.fst = recordNames := rfl
    rw [← hnames] at hname
    obtain ⟨other, hother, rfl⟩ := mem_map.1 hname
    exact hnone hreserved ⟨other.2, .inl hother⟩
  · exact hnone hreserved ⟨_, .inr ⟨key, hkey, hunreserved, hlater hadmits, rfl⟩⟩

/-! ### All batches -/

theorem nulls_append {values more : List (Option (Value Double))} (h : Nulls values)
    (h' : Nulls more) : Nulls (values ++ more) :=
  fun value hvalue => (mem_append.1 hvalue).elim (h value) (h' value)

theorem known_of_none (hschema : schema.Unreserved)
    (hcanonical : canonicalColumn lib schema before batch field = none) :
    schema.fields.get? field = none := by
  cases hreserved : isReserved field with
  | false =>
    have hnot := ((canonicalColumn_eq_none hschema).1 hcanonical).1 hreserved
    exact Option.not_isSome_iff_eq_none.1 fun hhas => hnot (.inl hhas)
  | true => exact get?_eq_none_of_reserved hschema hreserved

/-- Where the batches before one without the canonical column have no value each, they have none. -/
theorem nulls_before (hschema : schema.Unreserved) {earlier : List (List RawRecord)}
    {X : List RawRecord → List RawRecord → Prop}
    (hX : ∀ {before batch : List RawRecord},
      canonicalColumn lib schema before batch field = none →
      Nulls (ownValues lib schema before field) → X before batch →
      Nulls (ownValues lib schema batch field))
    (hall : ∀ mid batch after, earlier = mid ++ batch :: after → X mid.flatten batch)
    (hnone : canonicalColumn lib schema earlier.flatten batch field = none) :
    Nulls (ownValues lib schema earlier.flatten field) := by
  induction earlier using List.reverseRecOn generalizing batch with
  | nil => exact fun value hvalue => absurd hvalue not_mem_nil
  | append_singleton earlier last ih =>
    rw [flatten_append, flatten_singleton] at hnone ⊢
    have hlast : canonicalColumn lib schema earlier.flatten last field = none :=
      canonicalColumn_none_earlier hschema rfl hnone
    have hbefore := ih (fun mid batch after hsplit => hall mid batch (after ++ [last])
      (by rw [hsplit, append_assoc, cons_append])) hlast
    rw [ownValues_append]
    exact nulls_append hbefore (hX hlast hbefore (hall earlier last [] rfl))

/-- **The projections agree on every batch exactly where the name is served in every batch.** -/
theorem agree_iff_served (hschema : schema.Unreserved) (batches : List (List RawRecord)) :
    (∀ mid batch after, batches = mid ++ batch :: after →
      AgreeAt lib schema mid.flatten batch field) ↔
    ∀ mid batch after, batches = mid ++ batch :: after →
      Served lib schema mid.flatten batch field := by
  have hagree {before batch : List RawRecord}
      (hnone : canonicalColumn lib schema before batch field = none)
      (hbefore : Nulls (ownValues lib schema before field)) :
      AgreeAt lib schema before batch field ↔ Served lib schema before batch field :=
    (agreeAt_of_none (not_raw_of_none hschema hnone) hnone (known_of_none hschema hnone)
      hbefore).trans (served_of_none hschema hnone).symm
  constructor
  · intro hall mid batch after hsplit
    cases hcanonical : canonicalColumn lib schema mid.flatten batch field with
    | some column => exact (agreeAt_of_some hschema hcanonical).1 (hall mid batch after hsplit)
    | none =>
      refine (hagree hcanonical (nulls_before hschema (X := fun before batch =>
        AgreeAt lib schema before batch field) ?_ ?_ hcanonical)).1 (hall mid batch after hsplit)
      · exact fun hnone hbefore h => (served_of_none hschema hnone).1 ((hagree hnone hbefore).1 h)
      · exact fun first second last h => hall first second (last ++ batch :: after)
          (by rw [hsplit, h, append_assoc, cons_append])
  · intro hall mid batch after hsplit
    cases hcanonical : canonicalColumn lib schema mid.flatten batch field with
    | some column => exact (agreeAt_of_some hschema hcanonical).2 (hall mid batch after hsplit)
    | none =>
      refine (hagree hcanonical (nulls_before hschema (X := fun before batch =>
        Served lib schema before batch field) ?_ ?_ hcanonical)).2 (hall mid batch after hsplit)
      · exact fun hnone _ h => (served_of_none hschema hnone).1 h
      · exact fun first second last h => hall first second (last ++ batch :: after)
          (by rw [hsplit, h, append_assoc, cons_append])

/-- The schema of the projection of one field after some records. -/
structure Follows (lib : Library Double) (schema : SchemaContext) (before : List RawRecord)
    (field : List Char) (now : SchemaContext) : Prop where
  maxFields : now.maxFields = schema.maxFields
  maxParseBytes : now.maxParseBytes = schema.maxParseBytes
  kind : ¬ (field = rawAlias ∨ field = rawColumn) → now.fields.get? field =
    kindAfter (schema.fields.get? field) (ownValues lib schema before field)

/-- The projection of one field of a batch. -/
theorem Follows.recordsToFieldColumn {now : SchemaContext}
    (h : Follows lib schema before field now) (batch : List RawRecord) :
    ∃ later, recordsToFieldColumn lib batch now field =
      (oneColumn lib schema before batch field, later) ∧
        Follows lib schema (before ++ batch) field later := by
  unfold Adapter.recordsToFieldColumn oneColumn
  by_cases hraw : field = rawAlias ∨ field = rawColumn
  · rw [if_pos hraw, if_pos hraw]
    exact ⟨now, rfl, h.maxFields, h.maxParseBytes, fun hnot => absurd hraw hnot⟩
  · rw [if_neg hraw, if_neg hraw]
    have hsame : recordFields lib now = recordFields lib schema := by
      funext record
      rw [recordFields, recordFields, h.maxFields, h.maxParseBytes]
    obtain ⟨hvalues, hkind, hfields, hparse⟩ := foldl_readField lib field batch [] now
    rw [hsame] at hvalues hkind
    rw [h.kind hraw] at hkind
    dsimp only
    have hall : kindAfter (schema.fields.get? field)
        (ownValues lib schema (before ++ batch) field) =
          (batch.foldl (readField lib field) ([], now)).2.fields.get? field := by
      rw [ownValues_append, kindAfter_append, hkind]
      rfl
    refine ⟨_, ?_, hfields.trans h.maxFields, hparse.trans h.maxParseBytes, fun _ => hall.symm⟩
    rw [hvalues, hall]
    rfl

/-- The canonical projection of a batch that comes after some records. -/
theorem recordsToBatchWithContext_after (lib : Library Double) (schema : SchemaContext)
    (before batch : List RawRecord) : ∃ result : RecordBatch Double,
      recordsToBatchWithContext lib batch (admitAll schema (entriesOf lib schema before)) =
        .ok (result, admitAll schema (entriesOf lib schema (before ++ batch))) ∧
      ∀ field, result.column field = canonicalColumn lib schema before batch field := by
  obtain ⟨result, hresult, hcolumns⟩ := recordsToBatchWithContext_ok lib batch
    (admitAll schema (entriesOf lib schema before))
  have hschema : admitAll (admitAll schema (entriesOf lib schema before))
      (entriesOf lib (admitAll schema (entriesOf lib schema before)) batch) =
        admitAll schema (entriesOf lib schema (before ++ batch)) := by
    rw [entriesOf_admitAll, entriesOf_append, admitAll, admitAll, admitAll, foldl_append]
  rw [hschema] at hresult hcolumns
  rw [recordStatus_admitAll, recordFields_admitAll] at hcolumns
  exact ⟨result, hresult, fun field => by rw [RecordBatch.column, hcolumns]; rfl⟩

/-- The runs agree where the projections agree on every batch. -/
theorem agreeFrom_iff (batches : List (List RawRecord)) {now : SchemaContext}
    (h : Follows lib schema before field now) :
    (∃ results, projectAll lib batches (admitAll schema (entriesOf lib schema before)) =
        .ok results ∧ List.Forall₂ (fun batch column => Agrees (batch.column field) column) results
          (fieldColumns lib field batches now)) ↔
      ∀ mid batch after, batches = mid ++ batch :: after →
        AgreeAt lib schema (before ++ mid.flatten) batch field := by
  induction batches generalizing before now with
  | nil =>
    refine iff_of_true ⟨[], rfl, .nil⟩ fun mid batch after hsplit => ?_
    exact absurd hsplit.symm (append_ne_nil_of_right_ne_nil mid (cons_ne_nil _ _))
  | cons records batches ih =>
    obtain ⟨later, hone, hlater⟩ := h.recordsToFieldColumn records
    obtain ⟨result, hall, hcolumn⟩ := recordsToBatchWithContext_after lib schema before records
    have hrest := ih hlater
    have hproject : projectAll lib (records :: batches)
        (admitAll schema (entriesOf lib schema before)) =
          (projectAll lib batches (admitAll schema (entriesOf lib schema (before ++ records)))).map
            (result :: ·) := by
      rw [projectAll, hall]
      rfl
    rw [hproject, fieldColumns, hone]
    constructor
    · rintro ⟨results, hresults, hagree⟩ mid batch after hsplit
      obtain ⟨tail, htail, rfl⟩ : ∃ tail, projectAll lib batches
          (admitAll schema (entriesOf lib schema (before ++ records))) = .ok tail ∧
            result :: tail = results := by
        cases htail : projectAll lib batches
            (admitAll schema (entriesOf lib schema (before ++ records))) with
        | error error =>
          rw [htail] at hresults
          cases hresults
        | ok tail =>
          rw [htail] at hresults
          exact ⟨tail, rfl, Except.ok.inj hresults⟩
      obtain ⟨hfirst, htails⟩ := List.forall₂_cons.1 hagree
      rcases mid with _ | ⟨first, mid⟩
      · obtain ⟨rfl, rfl⟩ := List.cons.inj hsplit
        rw [hcolumn] at hfirst
        rw [flatten_nil, append_nil]
        exact hfirst
      · obtain ⟨rfl, rfl⟩ := List.cons.inj hsplit
        rw [flatten_cons, ← append_assoc]
        exact hrest.1 ⟨tail, htail, htails⟩ mid batch after rfl
    · intro hagree
      obtain ⟨tail, htail, htails⟩ := hrest.2 fun mid batch after hsplit => by
        rw [append_assoc, ← flatten_cons]
        exact hagree (records :: mid) batch after (by rw [hsplit]; rfl)
      refine ⟨result :: tail, by rw [htail]; rfl, List.forall₂_cons.2 ⟨?_, htails⟩⟩
      rw [hcolumn]
      have hfirst := hagree [] records batches rfl
      rwa [flatten_nil, append_nil] at hfirst

/-- **The one-field projection agrees with the canonical one** exactly where the name is served in
every batch. -/
theorem one_field_agrees (lib : Library Double) (schema : SchemaContext)
    (hschema : schema.Unreserved) (batches : List (List RawRecord)) (field : List Char) :
    AgreeAll lib schema batches field ↔ ∀ before batch after,
      batches = before ++ batch :: after → Served lib schema before.flatten batch field := by
  rw [← agree_iff_served hschema]
  have hfollows : Follows lib schema [] field schema := ⟨rfl, rfl, fun _ => rfl⟩
  refine (agreeFrom_iff batches hfollows).trans ?_
  simp only [nil_append]

/-- The bytes of a text of one byte each. -/
def asciiBytes (text : String) : List UInt8 := text.toList.map fun c => UInt8.ofNat c.toNat

/-- A record of that text. -/
def exampleRecord (text : String) : RawRecord :=
  ⟨"s".toList, 0, asciiBytes text, 0, .stdout, "a".toList, .complete, [10]⟩

/-- What three texts are read as. -/
def exampleLibrary : Library ℤ where
  fromStr text :=
    if text = "\x7b\"a\":1\x7d".toList then
      some (.object ⟨[("a".toList, .posInt 1)], by decide⟩)
    else if text = "\x7b\"a\":\"x\"\x7d".toList then
      some (.object ⟨[("a".toList, .string "x".toList)], by decide⟩)
    else if text = "\x7b\"_lvu_x\":1\x7d".toList then
      some (.object ⟨[("_lvu_x".toList, .posInt 1)], by decide⟩)
    else none
  asF64 n := n
  exactToken _ := none

theorem recordFields_example {text : String} {fields : Fields ℤ}
    (hascii : ∀ b ∈ asciiBytes text, b < 0x80) (hshort : (asciiBytes text).length ≤ 1024)
    (hparse : (parseFields exampleLibrary ((asciiBytes text).map fun b => Char.ofNat b.toNat) 256
      none).2.1 = fields) :
    recordFields exampleLibrary .default (exampleRecord text) = fields := by
  rw [recordFields, if_neg, exampleRecord, Utf8.decodeLossy_ascii hascii]
  · exact hparse
  · exact Nat.not_lt.2 (hshort.trans (by decide))

theorem unreserved_default : SchemaContext.default.Unreserved := fun key hkey => by
  cases hkey

theorem one_field_agrees_example : AgreeAll exampleLibrary .default
    [[exampleRecord "\x7b\"a\":1\x7d"], [exampleRecord "\x7b\"a\":\"x\"\x7d"]] "a".toList := by
  have hfields : recordFields exampleLibrary .default (exampleRecord "\x7b\"a\":1\x7d") =
      Table.empty.insert "a".toList (.int 1) :=
    recordFields_example (by decide +kernel) (by decide) (by decide +kernel)
  have hadmits : Admits .default (entriesOf exampleLibrary .default
      [exampleRecord "\x7b\"a\":1\x7d"]) "a".toList := by
    rw [entriesOf, flatMap_singleton, hfields]
    exact .inr ⟨by decide, [], [], .int 1, rfl, by decide⟩
  refine (one_field_agrees exampleLibrary .default unreserved_default _ _).2 ?_
  intro before batch after hsplit
  refine .inr (.inl ⟨by decide, .inl ?_⟩)
  rcases before with _ | ⟨first, before⟩
  · obtain ⟨rfl, -⟩ := List.cons.inj hsplit
    exact hadmits
  · obtain ⟨rfl, -⟩ := List.cons.inj hsplit
    rw [flatten_cons, append_assoc, entriesOf_append]
    exact hadmits.append _

/-- **A reserved name is read as a field**, of which there is no canonical column. -/
theorem one_field_differs : ¬ ∀ (lib : Library ℤ) (schema : SchemaContext), schema.Unreserved →
    ∀ batches field, AgreeAll lib schema batches field := by
  intro hall
  have hfields : recordFields exampleLibrary .default (exampleRecord "\x7b\"_lvu_x\":1\x7d") =
      Table.empty.insert "_lvu_x".toList (.int 1) :=
    recordFields_example (by decide +kernel) (by decide) (by decide +kernel)
  have hagree := hall exampleLibrary .default unreserved_default
    [[exampleRecord "\x7b\"_lvu_x\":1\x7d"]] "_lvu_x".toList
  have hfollows : Follows exampleLibrary .default [] "_lvu_x".toList .default :=
    ⟨rfl, rfl, fun _ => rfl⟩
  have hone := (agreeFrom_iff _ hfollows).1 hagree [] _ [] rfl
  have hnone : canonicalColumn exampleLibrary .default []
      [exampleRecord "\x7b\"_lvu_x\":1\x7d"] "_lvu_x".toList = none := by
    refine (canonicalColumn_eq_none unreserved_default).2 ⟨fun h => absurd h (by decide), ?_⟩
    rintro - ⟨column, hmem | ⟨key, hkey, -⟩⟩
    · have hname : "_lvu_x".toList ∈ recordNames := mem_map_of_mem (f := Prod.fst) hmem
      exact absurd hname (by decide)
    · have hstarts : "_lvu_type_".toList.isPrefixOf (typeColumn key) = true := rfl
      rw [← hkey] at hstarts
      exact absurd hstarts (by decide)
  have hnulls := (agreeAt_of_none (not_raw_of_none unreserved_default hnone) hnone rfl
    fun value hvalue => absurd hvalue not_mem_nil).1 hone
  refine absurd (hnulls (.int 1) ?_) nofun
  rw [ownValues, map_singleton, hfields]
  decide

end Lvu.Query.Adapter
