import Lvu.Query.Adapter

/-!
# What a batch is read as

* `parseOneField_eq` : one field is read as it is among all of them.
* `recordsToBatchWithContext_ok` : the canonical projection of a batch, by the fields of its records.
* `foldl_readField` : the values and the type that the projection of one field collects.
-/

namespace Lvu.Query.Adapter

open List

attribute [local instance] lawful_names

variable {Double : Type} {lib : Library Double}

/-! ### The fields of a record -/

/-- Entries that are inserted one after the other. -/
def insertAll (fields : Fields Double) (entries : List (List Char × Json Double)) :
    Fields Double :=
  entries.foldl (fun fields entry => fields.insert entry.1 (jsonValue entry.2)) fields

theorem objectFields_foldl (maxFields : ℕ) (entries : List (List Char × Json Double))
    (fields : Fields Double) (projected : ℕ) (notProjected : Bool) :
    (entries.foldl
      (fun (state : Fields Double × ℕ × Bool) entry =>
        if state.2.1 < maxFields then
          (state.1.insert entry.1 (jsonValue entry.2), state.2.1 + 1, state.2.2)
        else if (none : Option (List Char)) = some entry.1 then
          (state.1.insert entry.1 (jsonValue entry.2), state.2.1, true)
        else state)
      (fields, projected, notProjected)).1 =
        insertAll fields (entries.take (maxFields - projected)) := by
  induction entries generalizing fields projected with
  | nil => rw [take_nil]; rfl
  | cons entry entries ih =>
    rw [foldl_cons]
    by_cases hroom : projected < maxFields
    · rw [if_pos hroom, ih]
      obtain ⟨room, hsub⟩ := Nat.exists_eq_add_of_lt hroom
      rw [show maxFields - projected = room + 1 by omega, take_succ_cons,
        show maxFields - (projected + 1) = room by omega]
      rfl
    · rw [if_neg hroom, if_neg nofun, ih, Nat.sub_eq_zero_of_le (Nat.le_of_not_lt hroom)]
      rfl

theorem objectFields_none (maxFields : ℕ) (object : Object Double) :
    (objectFields maxFields none object).1 = insertAll .empty (object.entries.take maxFields) :=
  objectFields_foldl maxFields object.entries .empty 0 false

theorem get?_insertAll {entries : List (List Char × Json Double)}
    (hnodup : (entries.map Prod.fst).Nodup) (fields : Fields Double) (field : List Char) :
    (insertAll fields entries).get? field =
      ((entries.find? fun entry => entry.1 = field).map fun entry => jsonValue entry.2).or
        (fields.get? field) := by
  induction entries generalizing fields with
  | nil => rfl
  | cons entry entries ih =>
    obtain ⟨hnew, hrest⟩ := nodup_cons.1 (map_cons ▸ hnodup)
    rw [insertAll, foldl_cons]
    refine (ih hrest _).trans ?_
    rw [Table.get?_insert]
    by_cases heq : field = entry.1
    · subst heq
      have hnone : entries.find? (fun other => other.1 = entry.1) = none :=
        find?_eq_none.2 fun other hother hsame =>
          hnew (mem_map.2 ⟨other, hother, of_decide_eq_true hsame⟩)
      rw [if_pos rfl, hnone, find?_cons_of_pos (by simp)]
      rfl
    · rw [if_neg heq, find?_cons_of_neg (by simpa using Ne.symm heq)]

/-- **One field is read as it is among all of them.** -/
theorem parseOneField_eq (text : List Char) (maxFields : ℕ) (field : List Char) :
    parseOneField lib text maxFields field =
      (parseFields lib text maxFields none).2.1.get? field := by
  unfold parseOneField
  by_cases hjson : (Time.trim text).head? = some '{'
  · simp only [hjson, if_true]
    unfold parseFields
    simp only [hjson, if_true]
    rcases lib.fromStr (Time.trim text) with _ | (object | _)
    · rfl
    · dsimp only
      rw [objectFields_none, get?_insertAll]
      · exact (Option.or_none).symm
      · exact object.nodup.sublist ((take_sublist _ _).map _)
    · rfl
  · simp only [hjson, if_false]

/-! ### What a batch is read as -/

/-- The fields of a record that are read. -/
def recordFields (lib : Library Double) (schema : SchemaContext) (record : RawRecord) :
    Fields Double :=
  if schema.maxParseBytes < record.bytes.length then .empty
  else (parseFields lib (Utf8.decodeLossy record.bytes) schema.maxFields none).2.1

def recordStatus (lib : Library Double) (schema : SchemaContext) (record : RawRecord) :
    ParseStatus :=
  if schema.maxParseBytes < record.bytes.length then .projectionLimited
  else (parseFields lib (Utf8.decodeLossy record.bytes) schema.maxFields none).1

/-- What a field does to the schema. -/
def admitEntry (schema : SchemaContext) (entry : List Char × Value Double) : SchemaContext :=
  if isReserved entry.1 then schema
  else if schema.fields.get? entry.1 = none ∧ schema.maxFields ≤ schema.fields.rows.length then
    schema
  else schema.observe entry.1 (entry.2.kind.getD .unknown)

/-- The fields of some records, one after the other. -/
def entriesOf (lib : Library Double) (schema : SchemaContext) (records : List RawRecord) :
    List (List Char × Value Double) :=
  records.flatMap fun record => (recordFields lib schema record).rows

/-- The schema after some fields. -/
def admitAll (schema : SchemaContext) (entries : List (List Char × Value Double)) :
    SchemaContext := entries.foldl admitEntry schema

theorem admitField_fst (row : ℕ) (state : SchemaContext × List AdapterDiagnostic)
    (entry : List Char × Value Double) :
    (admitField row state entry).1 = admitEntry state.1 entry := by
  obtain ⟨schema, diagnostics⟩ := state
  obtain ⟨key, value⟩ := entry
  simp only [admitField, admitEntry]
  split_ifs <;> rfl

theorem foldl_admitField_fst (row : ℕ) (entries : List (List Char × Value Double))
    (state : SchemaContext × List AdapterDiagnostic) :
    (entries.foldl (admitField row) state).1 = admitAll state.1 entries := by
  induction entries generalizing state with
  | nil => rfl
  | cons entry entries ih =>
    rw [foldl_cons, ih, admitField_fst]
    rfl

/-- The limits stay. -/
theorem admitAll_limits (schema : SchemaContext) (entries : List (List Char × Value Double)) :
    (admitAll schema entries).maxFields = schema.maxFields ∧
      (admitAll schema entries).maxParseBytes = schema.maxParseBytes ∧
      (admitAll schema entries).maxDiagnostics = schema.maxDiagnostics := by
  induction entries generalizing schema with
  | nil => exact ⟨rfl, rfl, rfl⟩
  | cons entry entries ih =>
    obtain ⟨hfields, hparse, hdiagnostics⟩ := ih (admitEntry schema entry)
    have hone : (admitEntry schema entry).maxFields = schema.maxFields ∧
        (admitEntry schema entry).maxParseBytes = schema.maxParseBytes ∧
        (admitEntry schema entry).maxDiagnostics = schema.maxDiagnostics := by
      unfold admitEntry
      split_ifs <;> exact ⟨rfl, rfl, rfl⟩
    exact ⟨hfields.trans hone.1, hparse.trans hone.2.1, hdiagnostics.trans hone.2.2⟩

theorem recordFields_admitAll (schema : SchemaContext)
    (entries : List (List Char × Value Double)) :
    recordFields lib (admitAll schema entries) = recordFields lib schema := by
  funext record
  obtain ⟨hfields, hparse, -⟩ := admitAll_limits schema entries
  rw [recordFields, recordFields, hfields, hparse]

theorem recordStatus_admitAll (schema : SchemaContext)
    (entries : List (List Char × Value Double)) :
    recordStatus lib (admitAll schema entries) = recordStatus lib schema := by
  funext record
  obtain ⟨hfields, hparse, -⟩ := admitAll_limits schema entries
  rw [recordStatus, recordStatus, hfields, hparse]

theorem entriesOf_admitAll (schema : SchemaContext) (entries : List (List Char × Value Double))
    (records : List RawRecord) :
    entriesOf lib (admitAll schema entries) records = entriesOf lib schema records := by
  rw [entriesOf, recordFields_admitAll]
  rfl

theorem readRecord_none (lib : Library Double) (reading : Reading Double)
    (record : RawRecord) : ∃ diagnostics, readRecord lib none reading record =
      .ok ⟨admitAll reading.schema (recordFields lib reading.schema record).rows,
        reading.rows ++ [recordFields lib reading.schema record],
        reading.statuses ++ [recordStatus lib reading.schema record], diagnostics⟩ := by
  unfold readRecord recordFields recordStatus
  by_cases hlong : reading.schema.maxParseBytes < record.bytes.length
  · simp only [hlong, if_true]
    exact ⟨_, rfl⟩
  · simp only [hlong, if_false]
    rw [if_neg (by rintro ⟨h, -⟩; cases h), foldl_admitField_fst]
    exact ⟨_, rfl⟩

theorem readRecords_none (lib : Library Double) (records : List RawRecord)
    (reading : Reading Double) : ∃ diagnostics, readRecords lib none records reading =
      .ok ⟨admitAll reading.schema (entriesOf lib reading.schema records),
        reading.rows ++ records.map (recordFields lib reading.schema),
        reading.statuses ++ records.map (recordStatus lib reading.schema), diagnostics⟩ := by
  induction records generalizing reading with
  | nil =>
    refine ⟨reading.diagnostics, ?_⟩
    rw [map_nil, map_nil, append_nil, append_nil]
    rfl
  | cons record records ih =>
    obtain ⟨first, hfirst⟩ := readRecord_none lib reading record
    obtain ⟨diagnostics, hrest⟩ := ih ⟨admitAll reading.schema
      (recordFields lib reading.schema record).rows, reading.rows ++
      [recordFields lib reading.schema record], reading.statuses ++
      [recordStatus lib reading.schema record], first⟩
    refine ⟨diagnostics, ?_⟩
    rw [readRecords, hfirst]
    refine hrest.trans ?_
    dsimp only
    rw [entriesOf_admitAll, recordFields_admitAll, recordStatus_admitAll, entriesOf, entriesOf,
      flatMap_cons, admitAll, admitAll, admitAll, foldl_append, map_cons,
      map_cons, append_assoc, append_assoc]
    rfl

/-- **The canonical projection of a batch.** -/
theorem recordsToBatchWithContext_ok (lib : Library Double) (records : List RawRecord)
    (schema : SchemaContext) : ∃ batch, recordsToBatchWithContext lib records schema =
      .ok (batch, admitAll schema (entriesOf lib schema records)) ∧ batch.columns =
        recordColumns records (records.map (recordStatus lib schema)) ++
          (admitAll schema (entriesOf lib schema records)).fields.rows.flatMap
            (schemaColumns lib (records.map (recordFields lib schema))) := by
  obtain ⟨diagnostics, hread⟩ := readRecords_none lib records ⟨schema, [], [], []⟩
  unfold recordsToBatchWithContext recordsToBatchWithContextAndExactField
  simp only [Option.bind_none, hread, Option.any_none, Bool.false_eq_true, if_false,
    Option.elim_none, nil_append, append_nil]
  exact ⟨_, rfl, rfl⟩

/-! ### One field -/

/-- The type of a field after a value. -/
def observeValue (known : Option FieldType) : Option (Value Double) → Option FieldType
  | none => known
  | some value =>
    let kind := value.kind.getD .unknown
    some (known.elim kind (mergeType · kind))

/-- The type of a field after some values. -/
def kindAfter (known : Option FieldType) (values : List (Option (Value Double))) :
    Option FieldType := values.foldl observeValue known

theorem get?_observe (schema : SchemaContext) (key field : List Char) (kind : FieldType) :
    (schema.observe key kind).fields.get? field =
      if field = key then some ((schema.fields.get? key).elim kind (mergeType · kind))
      else schema.fields.get? field := by
  rw [SchemaContext.observe, Table.get?_insert]
  by_cases hfield : field = key
  · rw [if_pos hfield, if_pos hfield]
    cases schema.fields.get? key <;> rfl
  · rw [if_neg hfield, if_neg hfield]

/-- The values of one field, and what they do to its type. -/
theorem foldl_readField (lib : Library Double) (field : List Char) (records : List RawRecord)
    (values : List (Option (Value Double))) (schema : SchemaContext) :
    let read := records.foldl (readField lib field) (values, schema)
    let own := records.map fun record => (recordFields lib schema record).get? field
    read.1 = values ++ own ∧ read.2.fields.get? field = kindAfter (schema.fields.get? field) own ∧
      read.2.maxFields = schema.maxFields ∧ read.2.maxParseBytes = schema.maxParseBytes := by
  induction records generalizing values schema with
  | nil => exact ⟨(append_nil _).symm, rfl, rfl, rfl⟩
  | cons record records ih =>
    have hone : ∃ schema', readField lib field (values, schema) record =
        (values ++ [(recordFields lib schema record).get? field], schema') ∧
        schema'.fields.get? field =
          observeValue (schema.fields.get? field) ((recordFields lib schema record).get? field) ∧
        schema'.maxFields = schema.maxFields ∧ schema'.maxParseBytes = schema.maxParseBytes := by
      unfold readField recordFields
      by_cases hlong : schema.maxParseBytes < record.bytes.length
      · simp only [hlong, if_true]
        exact ⟨schema, rfl, rfl, rfl, rfl⟩
      · simp only [hlong, if_false]
        rw [parseOneField_eq]
        cases (parseFields lib (Utf8.decodeLossy record.bytes) schema.maxFields none).2.1.get? field
          with
        | none => exact ⟨schema, rfl, rfl, rfl, rfl⟩
        | some value =>
          refine ⟨schema.observe field (value.kind.getD .unknown), rfl, ?_, rfl, rfl⟩
          rw [get?_observe, if_pos rfl]
          rfl
    obtain ⟨schema', hread, hkind, hfields, hparse⟩ := hone
    have hsame : recordFields lib schema' = recordFields lib schema := by
      funext other
      rw [recordFields, recordFields, hfields, hparse]
    obtain ⟨hvalues, hkinds, hfields', hparse'⟩ :=
      ih (values ++ [(recordFields lib schema record).get? field]) schema'
    rw [hsame] at hvalues hkinds
    simp only [foldl_cons, map_cons, hread]
    refine ⟨?_, ?_, hfields'.trans hfields, hparse'.trans hparse⟩
    · rw [hvalues, append_assoc]
      rfl
    · rw [hkinds, hkind]
      rfl

end Lvu.Query.Adapter
