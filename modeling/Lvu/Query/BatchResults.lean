import Lvu.Query.Stages
import Mathlib.Data.Char
import Mathlib.Data.List.Lex

/-!
# The results of a batch

What is selected are identities of the input, each at most once; a predicate or a rule that reads
the output of a failed stage is not evaluated.

* `selectedIds_spec` : the rows of a mask, each once.
* `selectRows_spec` : what the predicates select.
* `colorRows_spec`, `columnColorRows_spec` : what the rules paint.
-/

namespace Lvu.Query

open List

variable {polars : Polars} {debug : Debug}

/-! ### Identities -/

/-- The columns in which a row has its identity. -/
abbrev IdentityColumns := List (Option (List Char)) × List (Option ℕ)

/-- A row of the batch has the identity. -/
def HasIdentity (frame : Frame) (id : StableRecordId) : Prop :=
  ∃ sources sequences i, frame.column sourceIdColumn = some (.string sources) ∧
    frame.column sequenceColumn = some (.uint64 sequences) ∧ i < frame.height ∧
    sources[i]?.join = some id.sourceId ∧ sequences[i]?.join = some id.sequence

variable {columns : IdentityColumns} {frame : Frame} {rows : List ℕ} {colors : Colors}

theorem rowIdentity_iff {i : ℕ} {id : StableRecordId} :
    rowIdentity columns i = .ok id ↔
      columns.1[i]?.join = some id.sourceId ∧ columns.2[i]?.join = some id.sequence := by
  unfold rowIdentity
  cases columns.1[i]?.join with
  | none => simp
  | some sourceId =>
    cases columns.2[i]?.join with
    | none => simp
    | some sequence =>
      obtain ⟨sourceId', sequence'⟩ := id
      simp

theorem identityColumns_iff :
    identityColumns polars frame = .ok columns ↔
      frame.column sourceIdColumn = some (.string columns.1) ∧
        frame.column sequenceColumn = some (.uint64 columns.2) := by
  obtain ⟨sources, sequences⟩ := columns
  unfold identityColumns
  rcases frame.column sourceIdColumn with _ | ⟨_ | _ | _ | _⟩ <;>
    rcases frame.column sequenceColumn with _ | ⟨_ | _ | _ | _⟩ <;> simp

/-- The rows have identities, and no two the same. -/
structure Distinct (columns : IdentityColumns) (rows : List ℕ) : Prop where
  identified : ∀ i ∈ rows, ∃ id, rowIdentity columns i = .ok id
  distinct : rows.Pairwise fun i j =>
    ∀ a b, rowIdentity columns i = .ok a → rowIdentity columns j = .ok b → a ≠ b

theorem StableRecordId.Before.trans {a b c : StableRecordId} (hab : a.Before b) (hbc : b.Before c) :
    a.Before c := by
  rcases hab with hab | ⟨hab, hab'⟩ <;> rcases hbc with hbc | ⟨hbc, hbc'⟩
  · exact .inl (hab.trans hbc)
  · exact .inl (hbc ▸ hab)
  · exact .inl (hab ▸ hbc)
  · exact .inr ⟨hab.trans hbc, hab'.trans hbc'⟩

theorem StableRecordId.Before.ne {a b : StableRecordId} (h : a.Before b) : a ≠ b := by
  rintro rfl
  rcases h with h | ⟨-, h⟩
  · exact lt_irrefl _ h
  · exact lt_irrefl _ h

/-- Rows that ascend come after what stood before them. -/
theorem ascendingRows_spec {previous : Option StableRecordId}
    (h : ascendingRows columns previous rows = .ok true) :
    Distinct columns rows ∧ ∀ i ∈ rows, ∀ id, rowIdentity columns i = .ok id →
      ∀ earlier ∈ previous, earlier.Before id := by
  induction rows generalizing previous with
  | nil => exact ⟨⟨nofun, .nil⟩, nofun⟩
  | cons index rest ih =>
    rw [ascendingRows] at h
    cases hcurrent : rowIdentity columns index with
    | error message =>
      rw [hcurrent] at h
      cases h
    | ok current =>
      rw [hcurrent] at h
      dsimp only at h
      by_cases hdescends : ∃ earlier ∈ previous, ¬ earlier.Before current
      · rw [if_pos hdescends] at h
        cases h
      · rw [if_neg hdescends] at h
        push Not at hdescends
        obtain ⟨⟨hidentified, hdistinct⟩, hafter⟩ := ih h
        refine ⟨⟨fun i hi => ?_, pairwise_cons.2 ⟨fun i hi a b ha hb => ?_, hdistinct⟩⟩,
          fun i hi id hid earlier hearlier => ?_⟩
        · rcases mem_cons.1 hi with rfl | hi
          · exact ⟨current, hcurrent⟩
          · exact hidentified i hi
        · rw [hcurrent] at ha
          cases ha
          exact (hafter i hi b hb _ rfl).ne
        · rcases mem_cons.1 hi with rfl | hi
          · rw [hcurrent] at hid
            cases hid
            exact hdescends earlier hearlier
          · exact (hdescends earlier hearlier).trans (hafter i hi id hid _ rfl)

/-- Rows of which none repeats another are not among those seen. -/
theorem uniqueRows_spec {seen : List StableRecordId} (h : uniqueRows columns seen rows = .ok ()) :
    Distinct columns rows ∧ ∀ i ∈ rows, ∀ id, rowIdentity columns i = .ok id → id ∉ seen := by
  induction rows generalizing seen with
  | nil => exact ⟨⟨nofun, .nil⟩, nofun⟩
  | cons index rest ih =>
    rw [uniqueRows] at h
    cases hcurrent : rowIdentity columns index with
    | error message =>
      rw [hcurrent] at h
      cases h
    | ok current =>
      rw [hcurrent] at h
      dsimp only at h
      by_cases hseen : current ∈ seen
      · rw [if_pos hseen] at h
        cases h
      · rw [if_neg hseen] at h
        obtain ⟨⟨hidentified, hdistinct⟩, hafter⟩ := ih h
        refine ⟨⟨fun i hi => ?_, pairwise_cons.2 ⟨fun i hi a b ha hb => ?_, hdistinct⟩⟩,
          fun i hi id hid => ?_⟩
        · rcases mem_cons.1 hi with rfl | hi
          · exact ⟨current, hcurrent⟩
          · exact hidentified i hi
        · rw [hcurrent] at ha
          cases ha
          rintro rfl
          exact hafter i hi current hb mem_cons_self
        · rcases mem_cons.1 hi with rfl | hi
          · rw [hcurrent] at hid
            cases hid
            exact hseen
          · exact fun hid' => hafter i hi id hid (mem_cons_of_mem _ hid')

/-- **A valid batch has an identity for every row, and no two the same.** -/
theorem validateIdentities_spec (h : validateIdentities polars frame = .ok ()) :
    ∃ columns, identityColumns polars frame = .ok columns ∧
      Distinct columns (List.range frame.height) := by
  unfold validateIdentities at h
  cases hcolumns : identityColumns polars frame with
  | error message =>
    rw [hcolumns] at h
    cases h
  | ok columns =>
    rw [hcolumns] at h
    refine ⟨columns, rfl, ?_⟩
    dsimp only at h
    cases hascending : ascendingRows columns none (List.range frame.height) with
    | error message =>
      rw [hascending] at h
      cases h
    | ok ascending =>
      rw [hascending] at h
      cases ascending with
      | true => exact (ascendingRows_spec hascending).1
      | false => exact (uniqueRows_spec h).1

/-! ### Selected rows -/

/-- The mask selects the row; without a mask every row is selected. -/
def Selects (mask : Option (List (Option Bool))) (i : ℕ) : Prop :=
  ∀ values ∈ mask, values[i]?.join = some true

theorem selectedRows_spec (h : Distinct columns rows) (mask : Option (List (Option Bool))) :
    ∃ ids, selectedRows columns mask rows = .ok ids ∧ ids.Nodup ∧
      ∀ id, id ∈ ids ↔ ∃ i ∈ rows, rowIdentity columns i = .ok id ∧ Selects mask i := by
  induction rows with
  | nil => exact ⟨[], rfl, nodup_nil, by simp⟩
  | cons index rest ih =>
    obtain ⟨hidentified, hdistinct⟩ := h
    rw [pairwise_cons] at hdistinct
    obtain ⟨ids, hids, hnodup, hmem⟩ :=
      ih ⟨fun i hi => hidentified i (mem_cons_of_mem _ hi), hdistinct.2⟩
    obtain ⟨id, hid⟩ := hidentified index mem_cons_self
    by_cases hskip : ∃ values ∈ mask, values[index]?.join ≠ some true
    · refine ⟨ids, by rw [selectedRows, if_pos hskip, hids], hnodup, fun id' => ?_⟩
      rw [hmem]
      constructor
      · rintro ⟨i, hi, h⟩
        exact ⟨i, mem_cons_of_mem _ hi, h⟩
      · rintro ⟨i, hi, hid', hselects⟩
        rcases mem_cons.1 hi with rfl | hi
        · obtain ⟨values, hvalues, hnot⟩ := hskip
          exact absurd (hselects values hvalues) hnot
        · exact ⟨i, hi, hid', hselects⟩
    · refine ⟨id :: ids, by rw [selectedRows, if_neg hskip, hid, hids]; rfl,
        nodup_cons.2 ⟨fun hin => ?_, hnodup⟩, fun id' => ?_⟩
      · obtain ⟨i, hi, hsame, -⟩ := (hmem id).1 hin
        exact hdistinct.1 i hi id id hid hsame rfl
      · have hselects : Selects mask index := by
          push Not at hskip
          exact hskip
        rw [mem_cons, hmem]
        constructor
        · rintro (rfl | ⟨i, hi, h⟩)
          · exact ⟨index, mem_cons_self, hid, hselects⟩
          · exact ⟨i, mem_cons_of_mem _ hi, h⟩
        · rintro ⟨i, hi, hid', hselects'⟩
          rcases mem_cons.1 hi with rfl | hi
          · rw [hid] at hid'
            exact .inl (Except.ok.inj hid').symm
          · exact .inr ⟨i, hi, hid', hselects'⟩

/-- Identities of the batch, each at most once. -/
def Identities (frame : Frame) (ids : List StableRecordId) : Prop :=
  ids.Nodup ∧ ∀ id ∈ ids, HasIdentity frame id

/-- **The rows of a mask are identities of the batch, each once**; there are none only where the
mask selects no row. -/
theorem selectedIds_spec (h : validateIdentities polars frame = .ok ())
    (mask : Option (List (Option Bool))) :
    ∃ ids, selectedIds polars frame mask = .ok ids ∧ Identities frame ids ∧
      (ids = [] ↔ ∀ i, i < frame.height → ¬ Selects mask i) := by
  obtain ⟨columns, hcolumns, hdistinct⟩ := validateIdentities_spec h
  obtain ⟨ids, hids, hnodup, hmem⟩ := selectedRows_spec hdistinct mask
  obtain ⟨hsources, hsequences⟩ := identityColumns_iff.1 hcolumns
  refine ⟨ids, by rw [selectedIds, hcolumns, ← hids], ⟨hnodup, fun id hid => ?_⟩, ?_⟩
  · obtain ⟨i, hi, hrow, -⟩ := (hmem id).1 hid
    obtain ⟨hsource, hsequence⟩ := rowIdentity_iff.1 hrow
    exact ⟨columns.1, columns.2, i, hsources, hsequences, mem_range.1 hi, hsource, hsequence⟩
  · constructor
    · rintro rfl i hi hselects
      obtain ⟨id, hid⟩ := hdistinct.identified i (mem_range.2 hi)
      cases (hmem id).2 ⟨i, mem_range.2 hi, hid, hselects⟩
    · intro hnone
      refine eq_nil_iff_forall_not_mem.2 fun id hid => ?_
      obtain ⟨i, hi, -, hselects⟩ := (hmem id).1 hid
      exact hnone i (mem_range.1 hi) hselects

theorem maskedIds_spec (h : validateIdentities polars frame = .ok ())
    (mask : Except Failure (List (Option Bool))) :
    (∃ failure, mask = .error failure ∧ maskedIds polars frame mask = .error failure) ∨
      ∃ values ids, mask = .ok values ∧ maskedIds polars frame mask = .ok ids ∧
        Identities frame ids ∧ (ids = [] ↔ ∀ i, i < frame.height → ¬ Selects (some values) i) := by
  cases mask with
  | error failure => exact .inl ⟨failure, rfl, rfl⟩
  | ok values =>
    obtain ⟨ids, hids, hidentities, hnil⟩ := selectedIds_spec h (some values)
    refine .inr ⟨values, ids, rfl, ?_, hidentities, hnil⟩
    rw [maskedIds, hids]
    rfl

variable {query : BatchQuery} {exact : Option ExactFieldConstraint} {direct : Option Expr}
  {authority : Option (List (List Char × Expr))}

/-- The mask by which the rows are selected, where there is one. -/
def maskOf (polars : Polars) (query : BatchQuery) (exact : Option ExactFieldConstraint)
    (direct : Option Expr) (frame : Frame) : Option (Except Failure (List (Option Bool))) :=
  match standaloneMask polars query exact direct frame with
  | some mask => some mask
  | none => (predicateOf query exact direct frame).expression.map (predicateMaskExpr polars frame)

/-- The rows of each colour are identities of the batch. -/
def Colors.Sound (frame : Frame) (colors : Colors) : Prop :=
  ∀ painted ∈ colors.matched, Identities frame painted.2

theorem Colors.Sound.record (hcolors : colors.Sound frame)
    (h : validateIdentities polars frame = .ok ()) (consumer : Consumer) (name : List Char)
    (mask : Except Failure (List (Option Bool))) :
    (colors.record consumer name (maskedIds polars frame mask)).Sound frame := by
  rcases maskedIds_spec h mask with ⟨failure, -, hids⟩ | ⟨values, ids, -, hids, hidentities, -⟩
  · rw [hids]
    exact hcolors
  · rw [hids]
    intro painted hpainted
    rcases mem_append.1 hpainted with hkept | hnew
    · exact hcolors painted (mem_of_mem_filter hkept)
    · rw [mem_singleton.1 hnew]
      exact hidentities

end Lvu.Query
