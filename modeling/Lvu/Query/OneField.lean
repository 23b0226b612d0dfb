import Lvu.Query.Admits

/-!
# The columns of a name

* `nulls_of_allNull` : the column of some values has no value only where these are nulls.
* `canonicalColumn_field`, `canonicalColumn_reserved` : the canonical column of a name.
-/

namespace Lvu.Query.Adapter

open List

attribute [local instance] lawful_names

variable {Double : Type} {lib : Library Double} {schema : SchemaContext} {field : List Char}

/-! ### Columns of nulls -/

/-- A column without a value. -/
def Column.AllNull : Column Double → Prop
  | .null _ => True
  | .boolean values => ∀ value ∈ values, value = none
  | .int64 values => ∀ value ∈ values, value = none
  | .uint64 values => ∀ value ∈ values, value = none
  | .float64 values => ∀ value ∈ values, value = none
  | .string values => ∀ value ∈ values, value = none
  | .binary values => ∀ value ∈ values, value = none

/-- No value but null. -/
def Nulls (values : List (Option (Value Double))) : Prop :=
  ∀ value, some value ∈ values → value = .null

variable {values : List (Option (Value Double))} {kind wider : FieldType}

theorem Nulls.map {α : Type} (h : Nulls values) {f : Value Double → Option α} (hf : f .null = none) :
    ∀ cell ∈ values.map (·.bind f), cell = none := by
  refine forall_mem_map.2 fun value hvalue => ?_
  cases value with
  | none => rfl
  | some value => rw [h value hvalue]; exact hf

theorem allNull_of_nulls (h : Nulls values) (kind : FieldType) :
    (fieldColumn lib values kind).AllNull := by
  cases kind with
  | unknown => exact trivial
  | bool | int64 | float64 | string => exact h.map rfl

/-- A type that shows the values of the other one: the same, or the wider one of numbers. -/
def Keeps (kind wider : FieldType) : Prop :=
  wider = kind ∨ kind = .int64 ∧ wider = .float64

theorem keeps_mergeType {other : FieldType} (hkind : kind ≠ .unknown) (h : Keeps kind wider) :
    Keeps kind (mergeType wider other) := by
  rcases h with rfl | ⟨rfl, rfl⟩ <;> cases other
  all_goals first
    | exact .inr ⟨rfl, rfl⟩
    | (cases wider <;> first | exact absurd rfl hkind | exact .inl rfl | exact .inr ⟨rfl, rfl⟩)

theorem keeps_kindAfter (hkind : kind ≠ .unknown) (h : Keeps kind wider)
    (values : List (Option (Value Double))) :
    ∃ later, kindAfter (some wider) values = some later ∧ Keeps kind later := by
  induction values generalizing wider with
  | nil => exact ⟨wider, rfl, h⟩
  | cons value values ih =>
    cases value with
    | none => exact ih h
    | some value => exact ih (keeps_mergeType hkind h)

/-- A value shows in a column of its type. -/
theorem not_allNull {value : Value Double} (hin : some value ∈ values)
    (hkind : value.kind = some kind) (h : Keeps kind wider) :
    ¬ (fieldColumn lib values wider).AllNull := by
  have hcell {α : Type} {f : Value Double → Option α} (hf : f value ≠ none)
      (hall : ∀ cell ∈ values.map (·.bind f), cell = none) : False :=
    hf (hall _ (mem_map.2 ⟨some value, hin, rfl⟩))
  rcases h with rfl | ⟨rfl, rfl⟩
  · cases value with
    | null => cases hkind
    | bool _ | int _ | uint _ | float _ | string _ | object _ | array _ =>
      cases hkind; exact hcell nofun
  · cases value with
    | int _ => exact hcell nofun
    | _ => cases hkind

/-- **A value shows**: the column of some values has no value only where these are nulls. -/
theorem nulls_of_allNull {known : Option FieldType} (hknown : known.getD .unknown = .unknown)
    (h : (fieldColumn lib values ((kindAfter known values).getD .unknown)).AllNull) :
    Nulls values := by
  by_contra hnot
  obtain ⟨value, hin, hvalue⟩ : ∃ value, some value ∈ values ∧ value ≠ .null := by
    simpa [Nulls] using hnot
  clear hnot
  -- the first value that is not null gives its type, and later ones keep it
  suffices hshows : ∃ value kind wider, some value ∈ values ∧ value.kind = some kind ∧
      (kindAfter known values).getD .unknown = wider ∧ Keeps kind wider by
    obtain ⟨shown, kind, wider, hshown, hkind, rfl, hkeeps⟩ := hshows
    exact not_allNull hshown hkind hkeeps h
  clear h
  induction values generalizing known with
  | nil => cases hin
  | cons first values ih =>
    by_cases hnull : first = none ∨ first = some .null
    · have hlater : some value ∈ values := by
        rcases mem_cons.1 hin with rfl | hin
        · rcases hnull with hnull | hnull
          · cases hnull
          · exact absurd (Option.some.inj hnull) hvalue
        · exact hin
      have hstill : (observeValue known first).getD .unknown = .unknown := by
        rcases hnull with rfl | rfl
        · exact hknown
        · rcases known with _ | kind
          · rfl
          · obtain rfl : kind = .unknown := hknown
            rfl
      obtain ⟨shown, kind, wider, hshown, hrest⟩ := ih hstill hlater
      exact ⟨shown, kind, wider, mem_cons_of_mem _ hshown, hrest⟩
    · obtain ⟨shown, rfl⟩ := Option.ne_none_iff_exists'.1 (not_or.1 hnull).1
      obtain ⟨kind, hkind⟩ : ∃ kind, shown.kind = some kind := by
        cases shown with
        | null => exact absurd (.inr rfl) hnull
        | _ => exact ⟨_, rfl⟩
      have hne : kind ≠ .unknown := by
        rintro rfl
        cases shown <;> cases hkind
      have hnow : observeValue known (some shown) = some kind := by
        rw [observeValue, hkind]
        rcases known with _ | before
        · rfl
        · obtain rfl : before = .unknown := hknown
          rfl
      obtain ⟨later, hlater, hkeeps⟩ := keeps_kindAfter hne (.inl rfl) values
      refine ⟨shown, kind, later, mem_cons_self, hkind, ?_, hkeeps⟩
      rw [kindAfter, foldl_cons, hnow]
      exact congrArg (Option.getD · .unknown) hlater

/-! ### The canonical column -/

/-- The columns of a batch that comes after some records. -/
def canonicalColumns (lib : Library Double) (schema : SchemaContext)
    (before batch : List RawRecord) : List (List Char × Column Double) :=
  recordColumns batch (batch.map (recordStatus lib schema)) ++
    (admitAll schema (entriesOf lib schema (before ++ batch))).fields.rows.flatMap
      (schemaColumns lib (batch.map (recordFields lib schema)))

/-- The canonical column of a name. -/
def canonicalColumn (lib : Library Double) (schema : SchemaContext) (before batch : List RawRecord)
    (field : List Char) : Option (Column Double) :=
  ((canonicalColumns lib schema before batch).find? fun column => column.1 = field).map Prod.snd

/-- The values of a field in some records. -/
def ownValues (lib : Library Double) (schema : SchemaContext) (records : List RawRecord)
    (field : List Char) : List (Option (Value Double)) :=
  records.map fun record => (recordFields lib schema record).get? field

/-- The column of one field of a batch that comes after some records. -/
def oneColumn (lib : Library Double) (schema : SchemaContext) (before batch : List RawRecord)
    (field : List Char) : Column Double :=
  if field = rawAlias ∨ field = rawColumn then
    .string (batch.map fun record => some (Utf8.decodeLossy record.bytes))
  else
    fieldColumn lib (ownValues lib schema batch field)
      ((kindAfter (schema.fields.get? field) (ownValues lib schema (before ++ batch) field)).getD
        .unknown)

/-- No name of the schema is reserved. -/
def SchemaContext.Unreserved (schema : SchemaContext) : Prop :=
  ∀ key, schema.Has key → isReserved key = false

theorem recordColumns_reserved {records : List RawRecord} {statuses : List ParseStatus}
    {column : List Char × Column Double} (h : column ∈ recordColumns records statuses) :
    isReserved column.1 = true := by
  have hall : ∀ name ∈ (recordColumns records statuses : List (List Char × Column Double)).map
      Prod.fst,
      isReserved name = true := by
    change ∀ name ∈ [sourceIdColumn, sequenceColumn, rawBytesColumn, rawColumn, rawAlias,
      "_lvu_captured_at_unix_nanos".toList, "_lvu_stream".toList, "_lvu_acquisition_id".toList,
      "_lvu_chunk".toList, "_lvu_delimiter".toList, "_lvu_parse_status".toList], _
    decide
  exact hall _ (mem_map_of_mem h)

theorem isReserved_typeColumn (key : List Char) : isReserved (typeColumn key) = true := rfl

theorem typeColumn_inj {key other : List Char} (h : typeColumn key = typeColumn other) :
    key = other := append_cancel_left h

theorem valuesOf_rows (fields : Fields Double) (field : List Char) :
    valuesOf fields.rows field = (fields.get? field).toList.map some := by
  have hfilter : fields.rows.filter (fun entry => entry.1 = field) =
      (fields.get? field).toList.map fun value => (field, value) := by
    rw [← Table.filter_key]
    exact List.filter_congr fun entry _ => by rw [decide_eq_decide]
  rw [valuesOf, hfilter, map_map]
  rfl

theorem kindAfter_ownValues (known : Option FieldType) (records : List RawRecord) :
    kindAfter known (ownValues lib schema records field) =
      kindAfter known (valuesOf (entriesOf lib schema records) field) := by
  induction records generalizing known with
  | nil => rfl
  | cons record records ih =>
    rw [entriesOf, flatMap_cons, valuesOf_append, kindAfter_append, valuesOf_rows, ownValues,
      map_cons, kindAfter, foldl_cons]
    refine (ih _).trans (congrArg (kindAfter · _) ?_)
    cases (recordFields lib schema record).get? field <;> rfl

theorem find?_key {V : Type} (t : Table (List Char) V) (key : List Char) :
    t.rows.find? (fun row => row.1 = key) = (t.get? key).map fun value => (key, value) := by
  cases hget : t.get? key with
  | none =>
    refine find?_eq_none.2 fun row hrow heq => ?_
    exact Table.get?_eq_none.1 hget row hrow (of_decide_eq_true heq)
  | some value =>
    have hmem := Table.get?_eq_some.1 hget
    cases hfind : t.rows.find? fun row => row.1 = key with
    | none => exact absurd (decide_eq_true rfl) (find?_eq_none.1 hfind _ hmem)
    | some row =>
      have hkey : row.1 = key := by simpa using find?_some hfind
      rw [Table.eq_of_key (mem_of_find?_eq_some hfind) hmem hkey]
      rfl

theorem map_get?_recordFields (records : List RawRecord) (key : List Char) :
    (records.map (recordFields lib schema)).map (·.get? key) = ownValues lib schema records key :=
  map_map

/-! #### Names that are not reserved -/

theorem find?_recordColumns (hreserved : isReserved field = false) (records : List RawRecord)
    (statuses : List ParseStatus) :
    (recordColumns records statuses : List (List Char × Column Double)).find?
      (fun column => column.1 = field) = none := by
  refine find?_eq_none.2 fun column hcolumn heq => ?_
  rw [← of_decide_eq_true heq, recordColumns_reserved hcolumn] at hreserved
  cases hreserved

/-- The column of a field that is not reserved is that of its row. -/
theorem find?_schemaColumns (hreserved : isReserved field = false) (rows : List (Fields Double))
    (types : List (List Char × FieldType)) :
    (types.flatMap (schemaColumns lib rows)).find? (fun column => column.1 = field) =
      (types.find? fun row => row.1 = field).map fun row =>
        (row.1, fieldColumn lib (rows.map (·.get? row.1)) row.2) := by
  induction types with
  | nil => rfl
  | cons row types ih =>
    have htype : typeColumn row.1 ≠ field := by
      rintro rfl
      rw [isReserved_typeColumn] at hreserved
      cases hreserved
    rw [flatMap_cons, schemaColumns, cons_append, singleton_append]
    by_cases hrow : row.1 = field
    · rw [find?_cons_of_pos (by simpa using hrow),
        find?_cons_of_pos (by simpa using hrow)]
      rfl
    · rw [find?_cons_of_neg (by simpa using hrow),
        find?_cons_of_neg (by simpa using htype),
        find?_cons_of_neg (by simpa using hrow)]
      exact ih

/-- **The canonical column of a field that is not reserved.** -/
theorem canonicalColumn_field (hreserved : isReserved field = false)
    (before batch : List RawRecord) : canonicalColumn lib schema before batch field =
      ((admitAll schema (entriesOf lib schema (before ++ batch))).fields.get? field).map
        (fieldColumn lib (ownValues lib schema batch field)) := by
  rw [canonicalColumn, canonicalColumns, find?_append, find?_recordColumns hreserved,
    Option.none_or, find?_schemaColumns hreserved, Option.map_map]
  generalize (admitAll schema (entriesOf lib schema (before ++ batch))).fields = types
  rw [find?_key, Option.map_map]
  cases types.get? field with
  | none => rfl
  | some kind =>
    exact congrArg (fun values => some (fieldColumn lib values kind)) (map_get?_recordFields _ _)

theorem ownValues_append (before batch : List RawRecord) :
    ownValues lib schema (before ++ batch) field =
      ownValues lib schema before field ++ ownValues lib schema batch field := map_append

theorem entriesOf_append (before batch : List RawRecord) :
    entriesOf lib schema (before ++ batch) =
      entriesOf lib schema before ++ entriesOf lib schema batch := flatMap_append

theorem get?_eq_none_of_reserved (hschema : schema.Unreserved)
    (hreserved : isReserved field = true) : schema.fields.get? field = none := by
  refine Option.not_isSome_iff_eq_none.1 fun hhas => ?_
  rw [hschema field hhas] at hreserved
  cases hreserved

theorem unreserved_admitAll (hschema : schema.Unreserved)
    (entries : List (List Char × Value Double)) : (admitAll schema entries).Unreserved :=
  fun key hkey => ((admitted_admitAll schema entries).only key hkey).elim (hschema key)
    fun hnew => (mem_newNames.1 hnew).2.1

/-! #### Reserved names -/

/-- The column of the types of a field. -/
def typesColumn (lib : Library Double) (schema : SchemaContext) (batch : List RawRecord)
    (key : List Char) : Column Double :=
  .string ((ownValues lib schema batch key).map (·.map Value.typeName))

/-- A column that a batch has besides those of the fields: one of the records themselves, or that of
the types of a field that is admitted. -/
def Bookkeeping (lib : Library Double) (schema : SchemaContext) (before batch : List RawRecord)
    (field : List Char) (column : Column Double) : Prop :=
  (field, column) ∈ recordColumns batch (batch.map (recordStatus lib schema)) ∨
    ∃ key, field = typeColumn key ∧ isReserved key = false ∧
      Admits schema (entriesOf lib schema (before ++ batch)) key ∧
      column = typesColumn lib schema batch key

theorem find?_typeColumns (hreserved : isReserved field = true) (rows : List (Fields Double))
    {types : List (List Char × FieldType)} (htypes : ∀ row ∈ types, isReserved row.1 = false) :
    (types.flatMap (schemaColumns lib rows)).find? (fun column => column.1 = field) =
      (types.find? fun row => typeColumn row.1 = field).map fun row =>
        (typeColumn row.1, .string ((rows.map (·.get? row.1)).map (·.map Value.typeName))) := by
  induction types with
  | nil => rfl
  | cons row types ih =>
    have hrow : row.1 ≠ field := by
      rintro rfl
      rw [htypes row mem_cons_self] at hreserved
      cases hreserved
    rw [flatMap_cons, schemaColumns, cons_append, singleton_append,
      find?_cons_of_neg (by simpa using hrow)]
    by_cases htype : typeColumn row.1 = field
    · rw [find?_cons_of_pos (by simpa using htype),
        find?_cons_of_pos (by simpa using htype)]
      rfl
    · rw [find?_cons_of_neg (by simpa using htype),
        find?_cons_of_neg (by simpa using htype)]
      exact ih fun other hother => htypes other (mem_cons_of_mem _ hother)

/-- The names of the columns of the records. -/
def recordNames : List (List Char) :=
  [sourceIdColumn, sequenceColumn, rawBytesColumn, rawColumn, rawAlias,
    "_lvu_captured_at_unix_nanos".toList, "_lvu_stream".toList, "_lvu_acquisition_id".toList,
    "_lvu_chunk".toList, "_lvu_delimiter".toList, "_lvu_parse_status".toList]

theorem typeColumn_notMem (key : List Char) : typeColumn key ∉ recordNames := by
  have hall : ∀ name ∈ recordNames, "_lvu_type_".toList.isPrefixOf name = false := by decide
  intro hmem
  have hstarts : "_lvu_type_".toList.isPrefixOf (typeColumn key) = true := rfl
  rw [hall _ hmem] at hstarts
  cases hstarts

theorem find?_of_mem {α : Type} {columns : List (List Char × α)} {column : α}
    (hnodup : (columns.map Prod.fst).Nodup) (hmem : (field, column) ∈ columns) :
    columns.find? (fun column => column.1 = field) = some (field, column) := by
  cases hfind : columns.find? fun column => column.1 = field with
  | none => exact absurd (decide_eq_true rfl) (find?_eq_none.1 hfind _ hmem)
  | some found =>
    have hname : found.1 = field := by simpa using find?_some hfind
    rw [inj_on_of_nodup_map hnodup (mem_of_find?_eq_some hfind) hmem hname]

/-- **The canonical column of a reserved name** is one of the bookkeeping. -/
theorem canonicalColumn_reserved (hschema : schema.Unreserved) (hreserved : isReserved field = true)
    (before batch : List RawRecord) (column : Column Double) :
    canonicalColumn lib schema before batch field = some column ↔
      Bookkeeping lib schema before batch field column := by
  have hnames : (recordColumns batch (batch.map (recordStatus lib schema)) :
      List (List Char × Column Double)).map Prod.fst = recordNames := rfl
  have hkeys := unreserved_admitAll hschema (entriesOf lib schema (before ++ batch))
  have hhas (row : List Char × FieldType)
      (hrow : row ∈ (admitAll schema (entriesOf lib schema (before ++ batch))).fields.rows) :
      (admitAll schema (entriesOf lib schema (before ++ batch))).Has row.1 :=
    Option.isSome_iff_exists.2 ⟨row.2, Table.get?_eq_some.2 hrow⟩
  rw [canonicalColumn, canonicalColumns, find?_append,
    find?_typeColumns hreserved _ fun row hrow => hkeys _ (hhas row hrow)]
  constructor
  · intro h
    cases hrecord : (recordColumns batch (batch.map (recordStatus lib schema)) :
        List (List Char × Column Double)).find? fun column => column.1 = field with
    | some found =>
      rw [hrecord] at h
      cases h
      have hname : found.1 = field := by simpa using find?_some hrecord
      exact .inl (hname ▸ mem_of_find?_eq_some hrecord)
    | none =>
      rw [hrecord, Option.none_or, Option.map_map] at h
      obtain ⟨row, hfind, rfl⟩ := Option.map_eq_some_iff.1 h
      have hname : typeColumn row.1 = field := by simpa using find?_some hfind
      have hin := hhas row (mem_of_find?_eq_some hfind)
      refine .inr ⟨row.1, hname.symm, hkeys _ hin, (has_admitAll (hkeys _ hin)).1 hin, ?_⟩
      rw [typesColumn, ← map_get?_recordFields]
      rfl
  · rintro (hmem | ⟨key, rfl, hkey, hadmits, rfl⟩)
    · rw [find?_of_mem (hnames ▸ by decide) hmem]
      rfl
    · have hnone : (recordColumns batch (batch.map (recordStatus lib schema)) :
          List (List Char × Column Double)).find? (fun column => column.1 = typeColumn key) =
            none := by
        refine find?_eq_none.2 fun column hcolumn heq => typeColumn_notMem key ?_
        rw [← hnames, ← of_decide_eq_true heq]
        exact mem_map_of_mem hcolumn
      rw [hnone, Option.none_or, Option.map_map]
      obtain ⟨kind, hkind⟩ := Option.isSome_iff_exists.1 ((has_admitAll hkey).2 hadmits)
      have hsame : (fun row : List Char × FieldType => decide (typeColumn row.1 = typeColumn key)) =
          fun row => decide (row.1 = key) := by
        funext row
        exact decide_eq_decide.2 ⟨typeColumn_inj, congrArg typeColumn⟩
      rw [hsame, find?_key, hkind, typesColumn, ← map_get?_recordFields]
      rfl

end Lvu.Query.Adapter
