import Lvu.Machine.Outcome
import Lvu.View.FrozenField

/-!
# Typed values survive freezing

A union decodes a frozen column under its recorded type (`lvu-view/src/union.rs`); what the precise
replay has written of it (`lvu-view/src/export.rs`) is read back as it was, or the column is
rejected.

* `signedValue_int`, `float32Value_float32` : one value is read back.
* `freeze_read` : so is a column of values that are kept.
* `evidence_spec` : what the scan over the recorded types has found.
* `typed_values_survive` : a column comes back, is left out, or is rejected.
-/

namespace Lvu

namespace View

namespace FrozenField

open Binary CandidateDigest List

variable {α : Type} {subject : Subject} {width : Width} {derived : Bool}

/-! ### Integers -/

theorem toList_toText (value : ℤ) : (toText value).toList = decimal value := String.toList_ofList

theorem parseI64_toText {value : ℤ} (hlow : -2 ^ 63 ≤ value) (hhigh : value < 2 ^ 63) :
    parseI64 (toText value) = some (Int64.ofInt value) := by
  rw [parseI64, toList_toText, readInt_decimal hlow (by omega)]
  rfl

theorem parseU64_toText {value : ℕ} (hlt : value < 2 ^ 64) :
    parseU64 (toText value) = some (UInt64.ofNat value) := by
  have hdigits : decimal (value : ℤ) = Nat.toDigits 10 value := by
    rw [decimal, if_neg (by omega)]
    rfl
  obtain ⟨c, cs, hcs, -, hplus⟩ := toDigits_cases value
  have hread : readUnsigned (Nat.toDigits 10 value) = some value := by
    rw [hcs]
    unfold readUnsigned
    split
    · next heq => exact absurd (List.cons.inj heq).1 hplus
    · rw [← hcs]
      exact readNat_toDigits value
  rw [parseU64, toList_toText, hdigits, hread, Option.filter_some, if_pos (decide_eq_true hlt)]
  rfl

theorem frozenInt_wrapped_i64 {value : ℤ} (hlow : -2 ^ 63 ≤ value) (hhigh : value < 2 ^ 63) :
    frozenInt (wrapped "i64" value) = some (.signed (Int64.ofInt value)) := by
  have hparse := parseI64_toText hlow hhigh
  simp [frozenInt, wrapped, lookup_cons, asStr, hparse]

theorem frozenInt_wrapped_u64 {value : ℕ} (hlt : value < 2 ^ 64) :
    frozenInt (wrapped "u64" value) = some (.unsigned (UInt64.ofNat value)) := by
  have hparse := parseU64_toText hlt
  simp [frozenInt, wrapped, lookup_cons, asStr, hparse]

theorem asI64_fromI64 (value : Int64) : (fromI64 value).asI64 = some value := by
  unfold fromI64
  split_ifs with hneg
  · rfl
  · have hnonneg : 0 ≤ value.toInt := by
      rw [Int64.lt_iff_toInt_lt] at hneg
      simpa using hneg
    have hsmall : value.toUInt64.toNat < 2 ^ 63 := by
      have hcond := BitVec.toInt_eq_toNat_cond value.toBitVec
      have hlt := value.toBitVec.isLt
      change value.toBitVec.toNat < 2 ^ 63
      change 0 ≤ value.toBitVec.toInt at hnonneg
      split_ifs at hcond <;> omega
    rw [Number.asI64, if_pos hsmall, Int64.toInt64_toUInt64]

/-- **A signed integer is read back**, whether it is wrapped or not. -/
theorem signedValue_int (subject : Subject) (dtype : String) (value : BitVec width.bits) :
    ∃ json, preciseJsonValue (.int width value) = .ok json ∧ json ≠ .null ∧
      signedValue subject dtype json = .ok (Int64.ofInt value.toInt) := by
  have hle := width.bits_le
  have hlow : -2 ^ 63 ≤ value.toInt := by
    have h : (2 : ℤ) ^ (width.bits - 1) ≤ 2 ^ 63 := by
      exact_mod_cast Nat.pow_le_pow_right (by decide) (by omega)
    have := value.le_toInt
    omega
  have hhigh : value.toInt < 2 ^ 63 := by
    have h : (2 : ℤ) ^ (width.bits - 1) ≤ 2 ^ 63 := by
      exact_mod_cast Nat.pow_le_pow_right (by decide) (by omega)
    have := BitVec.toInt_lt (x := value)
    omega
  rw [preciseJsonValue]
  split_ifs
  · refine ⟨_, rfl, by simp [wrapped], ?_⟩
    rw [signedValue, frozenInt_wrapped_i64 hlow hhigh]
  · refine ⟨_, rfl, by simp, ?_⟩
    rw [signedValue, frozenInt, asI64_fromI64]

/-- **An unsigned integer is read back**, whether it is wrapped or not. -/
theorem unsignedValue_uint (subject : Subject) (dtype : String) (value : BitVec width.bits) :
    ∃ json, preciseJsonValue (.uint width value) = .ok json ∧ json ≠ .null ∧
      unsignedValue subject dtype json = .ok (UInt64.ofNat value.toNat) := by
  have hlt : value.toNat < 2 ^ 64 :=
    value.isLt.trans_le (Nat.pow_le_pow_right (by decide) width.bits_le)
  rw [preciseJsonValue]
  split_ifs
  · refine ⟨_, rfl, by simp [wrapped], ?_⟩
    rw [unsignedValue, frozenInt_wrapped_u64 hlt]
  · refine ⟨_, rfl, by simp, ?_⟩
    have hnat : (UInt64.ofNat value.toNat).toNat = value.toNat := by
      simpa using Nat.mod_eq_of_lt hlt
    simp only [unsignedValue, frozenInt, Number.asI64, hnat]
    split_ifs with hsmall
    · -- below the sign bit the signed reading is not negative
      have hnonneg : ¬ (UInt64.ofNat value.toNat).toInt64 < 0 := by
        rw [Int64.lt_iff_toInt_lt]
        have hcond := BitVec.toInt_eq_toNat_cond (UInt64.ofNat value.toNat).toBitVec
        change ¬ (UInt64.ofNat value.toNat).toBitVec.toInt < 0
        have hbits : (UInt64.ofNat value.toNat).toBitVec.toNat = value.toNat := hnat
        split_ifs at hcond <;> omega
      simp only [hnonneg, if_false, UInt64.toUInt64_toInt64]
    · rfl

theorem castSigned_int (value : BitVec width.bits) :
    castSigned subject width (some (Int64.ofInt value.toInt)) = .ok (.int width value) := by
  have hle := width.bits_le
  have hpow : (2 : ℤ) ^ (width.bits - 1) ≤ 2 ^ 63 := by
    exact_mod_cast Nat.pow_le_pow_right (by decide) (by omega)
  have hlow := value.le_toInt
  have hhigh := BitVec.toInt_lt (x := value)
  have hint : (Int64.ofInt value.toInt).toInt = value.toInt :=
    Int64.toInt_ofInt_of_le (by omega) (by omega)
  rw [castSigned, hint, if_pos ⟨hlow, hhigh⟩, BitVec.ofInt_toInt]

theorem castUnsigned_uint (value : BitVec width.bits) :
    castUnsigned subject width (some (UInt64.ofNat value.toNat)) = .ok (.uint width value) := by
  have hlt : value.toNat < 2 ^ 64 :=
    value.isLt.trans_le (Nat.pow_le_pow_right (by decide) width.bits_le)
  have hnat : (UInt64.ofNat value.toNat).toNat = value.toNat := by
    simpa using Nat.mod_eq_of_lt hlt
  rw [castUnsigned, hnat, if_pos value.isLt, BitVec.ofNat_toNat, BitVec.setWidth_eq]

/-! ### Floats -/

theorem asF64_fromF64 {value : Floating .f64} (hfinite : value.IsFinite) :
    ∃ number, fromF64 value = some number ∧ asF64 number = some value := by
  refine ⟨_, if_pos hfinite, ?_⟩
  have hlt : value.bits < 2 ^ 64 := value.bits_lt
  have hnat : (UInt64.ofNat value.bits).toNat = value.bits := by
    simpa using Nat.mod_eq_of_lt hlt
  rw [asF64, hnat, Floating.ofBits_bits]

theorem float32Value_float32 (subject : Subject) {value : Floating .f32}
    (hfinite : value.IsFinite) :
    ∃ json, preciseJsonValue (.float32 value) = .ok json ∧ json ≠ .null ∧
      float32Value subject json = .ok value := by
  obtain ⟨hback, hwide⟩ := Floating.convert_convert Format.widens_f32 hfinite
  obtain ⟨number, hnumber, hvalue⟩ := asF64_fromF64 hwide
  refine ⟨.number number, by simp only [preciseJsonValue, hnumber], by simp, ?_⟩
  have hequals : (value.convert .f64).Equals (value.convert .f64) :=
    ⟨Nat.le_of_lt hwide, rfl, .inl rfl⟩
  simp only [float32Value, hvalue, hback, hequals, if_true]

theorem float64Value_float64 (subject : Subject) {value : Floating .f64}
    (hfinite : value.IsFinite) :
    ∃ json, preciseJsonValue (.float64 value) = .ok json ∧ json ≠ .null ∧
      float64Value subject json = .ok value := by
  obtain ⟨number, hnumber, hvalue⟩ := asF64_fromF64 hfinite
  refine ⟨.number number, by simp only [preciseJsonValue, hnumber], by simp, ?_⟩
  simp only [float64Value, hvalue]

/-! ### Cells -/

/-- A float is finite. -/
def AnyValue.IsFinite : AnyValue → Prop
  | .float32 value => value.IsFinite
  | .float64 value => value.IsFinite
  | _ => True

/-- Null, or a float. -/
def AnyValue.IsLossy : AnyValue → Prop
  | .null | .float32 _ | .float64 _ => True
  | _ => False

/-- The row has the field: the parser has observed it, or the column is derived. -/
def Carries (derived : Bool) (cell : Cell) : Prop := derived = true ∨ cell.observed.isSome

/-- **The replay keeps the cell**: it is no structured value, no float that is not finite, and no
raw integer that the canonical projection has lost. -/
structure Clean (derived : Bool) (cell : Cell) : Prop where
  finite : cell.value.IsFinite
  plain : derived = false → cell.observed ≠ some "object" ∧ cell.observed ≠ some "array"
  kept : derived = false → cell.observed = some "int64" ∨ cell.observed = some "uint64" →
    ¬ cell.value.IsLossy

/-- The value of a cell; a batch without the column has none. -/
def valueOf : Option Cell → AnyValue
  | none => .null
  | some cell => cell.value

/-- A value is written so that it is read back. -/
def Readable (f : Json → Except UnionError α) (cast : Option α → Except UnionError AnyValue)
    (value : AnyValue) : Prop :=
  ∃ json, preciseJsonValue value = .ok json ∧
    ((json = .null ∧ cast none = .ok value) ∨
      json ≠ .null ∧ ∃ a, f json = .ok a ∧ cast (some a) = .ok value)

variable {value : AnyValue} {cell : Cell} {f : Json → Except UnionError α}
  {cast : Option α → Except UnionError AnyValue} {kind : Scalar} {rows : List FrozenCell}
  {seen : Evidence}

/-- A cell that is kept is frozen with its type. -/
theorem inputField_clean {json : Json} (hcarries : Carries derived cell)
    (hclean : Clean derived cell) (hjson : preciseJsonValue cell.value = .ok json) :
    inputField derived (some cell) = ⟨some json, some cell.dtype.spelling, none⟩ := by
  cases derived with
  | true => simp [inputField, preciseJsonValueForField, hjson]
  | false =>
    have hsome : cell.observed.isNone = false := by
      have hobserved := hcarries.resolve_left (by simp)
      simpa [Option.isNone_iff_eq_none, Option.isSome_iff_ne_none] using hobserved
    have hplain := hclean.plain rfl
    have hfield : preciseJsonValueForField cell.observed cell.value false = .ok json := by
      unfold preciseJsonValueForField
      split_ifs with hraw
      · -- a raw integer is not null and no float
        have hkept := hclean.kept rfl (by simpa using hraw)
        revert hkept hjson
        cases cell.value <;> simp [AnyValue.IsLossy]
      · exact hjson
    simp [inputField, hsome, hplain, hfield]

theorem inputField_lacks (hlacks : ¬ Carries derived cell) :
    inputField derived (some cell) = ⟨none, some cell.dtype.spelling, some missing⟩ := by
  unfold Carries at hlacks
  unfold inputField
  cases derived with
  | true => simp at hlacks
  | false =>
    have hnone : cell.observed.isNone = true := by simpa using hlacks
    simp [hnone]

/-- Every cell that a row has is kept, and can be read back. -/
def Kept (derived : Bool) (f : Json → Except UnionError α)
    (cast : Option α → Except UnionError AnyValue) (cells : List (Option Cell)) : Prop :=
  ∀ cell ∈ cells, ∀ found ∈ cell,
    (Carries derived found → Clean derived found ∧ Readable f cast found.value) ∧
    (¬ Carries derived found → found.value = .null)

/-- **The cells are frozen, and read back.** -/
theorem freeze_read (subject : Subject) {cells : List (Option Cell)} (h : Kept derived f cast cells)
    (hnone : cast none = .ok .null) :
    freezeInput subject derived cells = .ok (cells.map (inputField derived)) ∧
    ∃ values, decodeCells f (cells.map (inputField derived)) = .ok values ∧
      values.mapM cast = .ok (cells.map valueOf) := by
  induction cells with
  | nil => exact ⟨rfl, [], rfl, rfl⟩
  | cons cell cells ih =>
    obtain ⟨hfreeze, values, hvalues, hcast⟩ :=
      ih fun other hother => h other (mem_cons_of_mem _ hother)
    -- what the first row gives
    have hrow : freezeCell subject derived cell = .ok (inputField derived cell) ∧
        ∃ value, decodeCell f (inputField derived cell).field = .ok value ∧
          cast value = .ok (valueOf cell) := by
      cases cell with
      | none => exact ⟨rfl, none, rfl, hnone⟩
      | some cell =>
        obtain ⟨hcarried, hlacking⟩ := h _ mem_cons_self cell rfl
        by_cases hcarries : Carries derived cell
        · obtain ⟨hclean, json, hjson, hread⟩ := hcarried hcarries
          rw [freezeCell, inputField_clean hcarries hclean hjson]
          refine ⟨rfl, ?_⟩
          rcases hread with ⟨rfl, hnull⟩ | ⟨hne, a, ha, hvalue⟩
          · exact ⟨none, rfl, hnull⟩
          · refine ⟨some a, ?_, hvalue⟩
            rw [decodeCell, ha]
            · rfl
            · rintro rfl
              exact hne rfl
        · rw [freezeCell, inputField_lacks hcarries, valueOf, hlacking hcarries]
          exact ⟨rfl, none, rfl, hnone⟩
    obtain ⟨hrow, value, hvalue, hcell⟩ := hrow
    refine ⟨?_, value :: values, ?_, ?_⟩
    · rw [freezeInput, mapM_cons, hrow]
      change Except.bind (freezeInput subject derived cells) _ = _
      rw [hfreeze]
      rfl
    · rw [map_cons, decodeCells, mapM_cons, hvalue]
      change Except.bind (decodeCells f (cells.map (inputField derived))) _ = _
      rw [hvalues]
      rfl
    · rw [mapM_cons, hcell, map_cons]
      change Except.bind (values.mapM cast) _ = _
      rw [hcast]
      rfl

/-! ### One scalar type -/

theorem readable_null (hnone : cast none = .ok .null) : Readable f cast .null :=
  ⟨.null, rfl, .inl ⟨rfl, hnone⟩⟩

theorem readable_boolean (hfits : value.Fits (.scalar .boolean)) :
    Readable (booleanValue subject) (fun value => .ok (orNull .boolean value)) value := by
  cases value with
  | null => exact readable_null rfl
  | boolean value => exact ⟨.bool value, rfl, .inr ⟨by simp, value, rfl, rfl⟩⟩
  | _ => exact hfits.elim

theorem readable_string (hfits : value.Fits (.scalar .string)) :
    Readable (stringValue subject) (fun value => .ok (orNull .string value)) value := by
  cases value with
  | null => exact readable_null rfl
  | string value => exact ⟨.string value, rfl, .inr ⟨by simp, value, rfl, rfl⟩⟩
  | _ => exact hfits.elim

theorem readable_float64 (hfits : value.Fits (.scalar .float64)) (hfinite : value.IsFinite) :
    Readable (float64Value subject) (fun value => .ok (orNull .float64 value)) value := by
  cases value with
  | null => exact readable_null rfl
  | float64 value =>
    obtain ⟨json, hjson, hne, hvalue⟩ := float64Value_float64 subject hfinite
    exact ⟨json, hjson, .inr ⟨hne, value, hvalue, rfl⟩⟩
  | _ => exact hfits.elim

theorem readable_float32 (hfits : value.Fits (.scalar .float32)) (hfinite : value.IsFinite) :
    Readable (float32Value subject) (fun value => .ok (orNull .float32 value)) value := by
  cases value with
  | null => exact readable_null rfl
  | float32 value =>
    obtain ⟨json, hjson, hne, hvalue⟩ := float32Value_float32 subject hfinite
    exact ⟨json, hjson, .inr ⟨hne, value, hvalue, rfl⟩⟩
  | _ => exact hfits.elim

theorem readable_int (subject : Subject) (hfits : value.Fits (.scalar (.int width)))
    (dtype : String) : Readable (signedValue subject dtype) (castSigned subject width) value := by
  cases value with
  | null => exact readable_null rfl
  | int other value =>
    obtain rfl : other = width := hfits
    obtain ⟨json, hjson, hne, hvalue⟩ := signedValue_int subject dtype value
    exact ⟨json, hjson, .inr ⟨hne, _, hvalue, castSigned_int value⟩⟩
  | _ => exact hfits.elim

theorem readable_uint (subject : Subject) (hfits : value.Fits (.scalar (.uint width)))
    (dtype : String) :
    Readable (unsignedValue subject dtype) (castUnsigned subject width) value := by
  cases value with
  | null => exact readable_null rfl
  | uint other value =>
    obtain rfl : other = width := hfits
    obtain ⟨json, hjson, hne, hvalue⟩ := unsignedValue_uint subject dtype value
    exact ⟨json, hjson, .inr ⟨hne, _, hvalue, castUnsigned_uint value⟩⟩
  | _ => exact hfits.elim

/-- The cells that rows have are of one type, and the replay keeps them. -/
def Uniform (derived : Bool) (dtype : DataType) (cells : List (Option Cell)) : Prop :=
  ∀ cell ∈ cells, ∀ found ∈ cell, Carries derived found →
    found.dtype = dtype ∧ Clean derived found

/-- A row has the field exactly where the parser has observed a value, or an enrichment has made the
column. -/
def Lacking (derived : Bool) (cells : List (Option Cell)) : Prop :=
  ∀ cell ∈ cells, ∀ found ∈ cell, ¬ Carries derived found → found.value = .null

variable {cells : List (Option Cell)}

theorem Uniform.kept (h : Uniform derived (.scalar kind) cells) (hlacking : Lacking derived cells)
    (hread : ∀ value : AnyValue, value.Fits (.scalar kind) → value.IsFinite →
      Readable f cast value) : Kept derived f cast cells := by
  intro cell hcell found hfound
  refine ⟨fun hcarries => ?_, hlacking cell hcell found hfound⟩
  obtain ⟨hdtype, hclean⟩ := h cell hcell found hfound hcarries
  exact ⟨hclean, hread _ (hdtype ▸ found.fits) hclean.finite⟩

theorem decode_map {g : α → AnyValue} (h : Kept derived f (fun value => .ok (orNull g value)) cells) :
    (decodeCells f (cells.map (inputField derived))).map (fun values =>
      some (Column.mk (.scalar kind) (values.map (orNull g)))) =
        .ok (some ⟨.scalar kind, cells.map valueOf⟩) := by
  obtain ⟨-, values, hvalues, hcast⟩ := freeze_read ⟨"", ""⟩ h rfl
  have hmap : values.map (orNull g) = cells.map valueOf := by
    have hpure : (values.mapM fun value => (pure (orNull g value) : Except UnionError AnyValue)) =
        pure (values.map (orNull g)) := mapM_pure
    exact Except.ok.inj (hpure.symm.trans hcast)
  rw [hvalues, ← hmap]
  rfl

/-- **A declared column is decoded as it was.** -/
theorem decodeTypedField_uniform (h : Uniform derived (.scalar kind) cells)
    (hlacking : Lacking derived cells) :
    decodeTypedField subject (cells.map (inputField derived)) kind.spelling =
      .ok (some ⟨.scalar kind, cells.map valueOf⟩) := by
  cases kind with
  | boolean => exact decode_map (h.kept hlacking fun value hfits _ => readable_boolean hfits)
  | string => exact decode_map (h.kept hlacking fun value hfits _ => readable_string hfits)
  | float32 => exact decode_map (h.kept hlacking fun value => readable_float32)
  | float64 => exact decode_map (h.kept hlacking fun value => readable_float64)
  | int width =>
    obtain ⟨-, values, hvalues, hcast⟩ := freeze_read subject
      (h.kept hlacking fun value hfits _ =>
        readable_int subject hfits (Scalar.int width).spelling) rfl
    have hdecode : decodeSigned subject (cells.map (inputField derived)) width =
        .ok (some ⟨.scalar (.int width), cells.map valueOf⟩) := by
      rw [decodeSigned, hvalues]
      change (values.mapM (castSigned subject width)).map _ = _
      rw [hcast]
      rfl
    cases width <;> exact hdecode
  | uint width =>
    obtain ⟨-, values, hvalues, hcast⟩ := freeze_read subject
      (h.kept hlacking fun value hfits _ =>
        readable_uint subject hfits (Scalar.uint width).spelling) rfl
    have hdecode : decodeUnsigned subject (cells.map (inputField derived)) width =
        .ok (some ⟨.scalar (.uint width), cells.map valueOf⟩) := by
      rw [decodeUnsigned, hvalues]
      change (values.mapM (castUnsigned subject width)).map _ = _
      rw [hcast]
      rfl
    cases width <;> exact hdecode

/-! ### Evidence -/

/-- Rows that record one type are evidence of it. -/
theorem evidence_uniform {dtype : String}
    (hrows : ∀ row ∈ rows, row.field.isSome → row.fieldType = some dtype)
    (hdeclared : seen.declared = none ∨ seen.declared = some dtype) :
    evidence subject rows seen = .ok
      ⟨if rows.any (·.field.isSome) then some dtype else seen.declared,
        seen.evidenced || rows.any (·.field.isSome), seen.sawMissing⟩ := by
  induction rows generalizing seen with
  | nil => simp [evidence]
  | cons row rows ih =>
    have hrest : ∀ row ∈ rows, row.field.isSome → row.fieldType = some dtype :=
      fun other hother => hrows other (mem_cons_of_mem _ hother)
    unfold evidence
    by_cases hfield : row.field.isSome
    · have htype := hrows row mem_cons_self hfield
      have hnone : row.field.isNone = false := by
        rw [Option.isNone_eq_false_iff]
        exact hfield
      rw [hnone, htype]
      obtain ⟨declared, evidenced, sawMissing⟩ := seen
      rcases hdeclared with hseen | hseen
      · obtain rfl : declared = none := hseen
        refine (ih hrest (.inr rfl)).trans ?_
        simp [hfield]
      · obtain rfl : declared = some dtype := hseen
        simp only [Bool.false_eq_true, if_false, if_true]
        refine (ih hrest (.inr rfl)).trans ?_
        simp [hfield]
    · have hnone : row.field.isNone = true := by simpa using hfield
      rw [hnone]
      refine (ih hrest hdeclared).trans ?_
      simp [hfield]

/-- What the loop over the rows has found. -/
theorem evidence_spec {found : Evidence} (h : evidence subject rows seen = .ok found) :
    (∀ row ∈ rows, row.field.isSome → found.evidenced = true) ∧
    (∀ row ∈ rows, row.field.isSome → row.fieldType = none → found.sawMissing = true) ∧
    (∀ row ∈ rows, row.field.isSome → ∀ dtype ∈ row.fieldType, found.declared = some dtype) ∧
    (seen.evidenced = true → found.evidenced = true) ∧
    (seen.sawMissing = true → found.sawMissing = true) ∧
    ∀ dtype ∈ seen.declared, found.declared = some dtype := by
  induction rows generalizing seen with
  | nil =>
    cases h
    simp
  | cons row rows ih =>
    have hlift {seen' : Evidence} (hstep : evidence subject rows seen' = .ok found)
        (hevidenced : seen.evidenced = true → seen'.evidenced = true)
        (hmissing : seen.sawMissing = true → seen'.sawMissing = true)
        (hdeclared : ∀ dtype ∈ seen.declared, seen'.declared = some dtype)
        (hrow : row.field.isSome → seen'.evidenced = true ∧
          (row.fieldType = none → seen'.sawMissing = true) ∧
          ∀ dtype ∈ row.fieldType, seen'.declared = some dtype) :
        (∀ other ∈ row :: rows, other.field.isSome → found.evidenced = true) ∧
        (∀ other ∈ row :: rows, other.field.isSome → other.fieldType = none →
          found.sawMissing = true) ∧
        (∀ other ∈ row :: rows, other.field.isSome → ∀ dtype ∈ other.fieldType,
          found.declared = some dtype) ∧
        (seen.evidenced = true → found.evidenced = true) ∧
        (seen.sawMissing = true → found.sawMissing = true) ∧
        ∀ dtype ∈ seen.declared, found.declared = some dtype := by
      obtain ⟨hall, hallMissing, hallDeclared, hkeeps, hkeepsMissing, hkeepsDeclared⟩ := ih hstep
      refine ⟨?_, ?_, ?_, fun h => hkeeps (hevidenced h), fun h => hkeepsMissing (hmissing h),
        fun dtype h => hkeepsDeclared dtype (hdeclared dtype h)⟩
      · exact forall_mem_cons.2 ⟨fun h => hkeeps (hrow h).1, hall⟩
      · exact forall_mem_cons.2
          ⟨fun h hnone => hkeepsMissing ((hrow h).2.1 hnone), hallMissing⟩
      · exact forall_mem_cons.2
          ⟨fun h dtype htype => hkeepsDeclared dtype ((hrow h).2.2 dtype htype), hallDeclared⟩
    unfold evidence at h
    split_ifs at h with hfield
    · -- the row does not carry the field
      refine hlift h id id (fun _ hdtype => hdtype) fun hsome => ?_
      rw [Option.isNone_iff_eq_none.1 hfield] at hsome
      cases hsome
    · split at h
      · next dtype htype hdeclared =>
        refine hlift h (fun _ => rfl) id (fun _ hdtype => ?_) fun _ => ⟨rfl, fun hnone => ?_, ?_⟩
        · rw [hdeclared] at hdtype
          cases hdtype
        · rw [htype] at hnone
          cases hnone
        · intro other hother
          rw [htype] at hother
          exact hother
      · next dtype prior htype hdeclared =>
        split_ifs at h with hsame
        refine hlift h (fun _ => rfl) id (fun _ hdtype => hdtype) fun _ =>
          ⟨rfl, fun hnone => ?_, ?_⟩
        · rw [htype] at hnone
          cases hnone
        · intro other hother
          rw [htype] at hother
          rw [hdeclared, hsame]
          exact hother
      · next htype =>
        refine hlift h (fun _ => rfl) (fun _ => rfl) (fun _ hdtype => hdtype) fun _ =>
          ⟨rfl, fun _ => rfl, fun other hother => ?_⟩
        rw [htype] at hother
        cases hother

theorem evidence_error {error : UnionError} (h : evidence subject rows seen = .error error) :
    error = .engine subject .conflictingEvidence := by
  induction rows generalizing seen with
  | nil => cases h
  | cons row rows ih =>
    unfold evidence at h
    split_ifs at h
    · exact ih h
    · split at h
      · exact ih h
      · split_ifs at h
        · exact ih h
        · exact (Except.error.inj h).symm
      · exact ih h

/-- **Conflicting or partly missing evidence is rejected**, in whatever order the rows come. -/
theorem decodeUnionField_conflict {first second : FrozenCell} (hfirst : first ∈ rows)
    (hsecond : second ∈ rows) (hfield : first.field.isSome) (hfield' : second.field.isSome)
    (hne : first.fieldType ≠ second.fieldType) :
    decodeUnionField subject rows = .error (.engine subject .conflictingEvidence) := by
  unfold decodeUnionField
  cases hevidence : evidence subject rows ⟨none, false, false⟩ with
  | error error =>
    rw [evidence_error hevidence]
    rfl
  | ok found =>
    obtain ⟨hevidenced, hmissing, hdeclared, -⟩ := evidence_spec hevidence
    -- the two types are not both recorded, or the loop would have failed
    have hboth : found.sawMissing = true ∧ found.declared.isSome = true := by
      cases htype : first.fieldType with
      | none =>
        refine ⟨hmissing first hfirst hfield htype, ?_⟩
        cases htype' : second.fieldType with
        | none => exact absurd (htype.trans htype'.symm) hne
        | some dtype => rw [hdeclared second hsecond hfield' dtype htype']; rfl
      | some dtype =>
        have hfound := hdeclared first hfirst hfield dtype htype
        cases htype' : second.fieldType with
        | none => exact ⟨hmissing second hsecond hfield' htype', by rw [hfound]; rfl⟩
        | some dtype' =>
          have hfound' := hdeclared second hsecond hfield' dtype' htype'
          rw [hfound] at hfound'
          exact absurd (htype.trans (hfound'.trans htype'.symm)) hne
    change (if !found.evidenced then _ else _) = _
    rw [hevidenced first hfirst hfield, hboth.1, hboth.2]
    rfl

/-! ### What the replay rejects -/

theorem Scalar.spelling_inj {a b : Scalar} (h : a.spelling = b.spelling) : a = b := by
  rcases a with _ | (_ | _ | _ | _) | (_ | _ | _ | _) | _ | _ | _ <;>
    rcases b with _ | (_ | _ | _ | _) | (_ | _ | _ | _) | _ | _ | _ <;>
      first | rfl | exact absurd h (by decide)

theorem Scalar.spelling_ne_null (kind : Scalar) : kind.spelling ≠ "Null" := by
  rcases kind with _ | (_ | _ | _ | _) | (_ | _ | _ | _) | _ | _ | _ <;> decide

theorem DataType.spelling_inj {a b : DataType} (h : a.spelling = b.spelling) : a = b := by
  cases a with
  | scalar kind =>
    cases b with
    | scalar kind' => rw [Scalar.spelling_inj h]
    | null => exact absurd h kind.spelling_ne_null
    | other spelling hother => exact absurd h (hother.2 kind)
  | null =>
    cases b with
    | scalar kind => exact absurd h.symm kind.spelling_ne_null
    | null => rfl
    | other spelling hother => exact absurd h.symm hother.1
  | other spelling hother =>
    cases b with
    | scalar kind => exact absurd h.symm (hother.2 kind)
    | null => exact absurd h hother.1
    | other spelling' hother' =>
      obtain rfl : spelling = spelling' := h
      rfl

mutual

/-- An error of the encoder is no absence. -/
theorem message_ne (value : AnyValue) (message : String)
    (h : preciseJsonValue value = .error message) : message ≠ missing := by
  cases value with
  | list values =>
    rw [preciseJsonValue] at h
    cases hvalues : preciseJsonValues values with
    | ok values => simp [hvalues] at h
    | error message' =>
      simp only [hvalues, Except.error.injEq] at h
      exact h ▸ messages_ne values message' hvalues
  | unsupported dtype =>
    rw [preciseJsonValue] at h
    cases h
    intro heq
    have hhead := congrArg (fun s : String => s.toList.head?) heq
    simp [missing] at hhead
  | float16 value | float32 value | float64 value =>
    rw [preciseJsonValue] at h
    split at h
    · cases h
    · exact Except.error.inj h ▸ by decide
  | uint width value | int width value =>
    rw [preciseJsonValue] at h
    split_ifs at h
  | _ => cases h

theorem messages_ne (values : List AnyValue) (message : String)
    (h : preciseJsonValues values = .error message) : message ≠ missing := by
  cases values with
  | nil => cases h
  | cons value values =>
    rw [preciseJsonValues] at h
    cases hvalue : preciseJsonValue value with
    | error message' =>
      simp only [hvalue, Except.error.injEq] at h
      exact h ▸ message_ne value message' hvalue
    | ok json =>
      cases hvalues : preciseJsonValues values with
      | error message' =>
        simp only [hvalue, hvalues, Except.error.injEq] at h
        exact h ▸ messages_ne values message' hvalues
      | ok values => simp [hvalue, hvalues] at h

end

theorem field_message_ne {observed : Option String} {message : String}
    (h : preciseJsonValueForField observed value derived = .error message) : message ≠ missing := by
  unfold preciseJsonValueForField at h
  split_ifs at h
  · split at h
    · exact Except.error.inj h ▸ by decide
    · exact Except.error.inj h ▸ by decide
    · exact Except.error.inj h ▸ by decide
    · exact message_ne _ _ h
  · exact message_ne _ _ h

theorem isFinite_of_ok {json : Json} (h : preciseJsonValue value = .ok json) : value.IsFinite := by
  have hsome {value : Floating .f64} (hnumber : fromF64 value ≠ none) : value.IsFinite := by
    by_contra hinfinite
    exact hnumber (if_neg hinfinite)
  cases value with
  | float64 value =>
    rw [preciseJsonValue] at h
    refine hsome fun hnone => ?_
    rw [hnone] at h
    cases h
  | float32 value =>
    rw [preciseJsonValue] at h
    -- what is not finite is not in the wider format
    by_contra hinfinite
    have hnone : fromF64 (value.convert .f64) = none :=
      if_neg (Floating.not_isFinite_convert .f64 hinfinite)
    rw [hnone] at h
    cases h
  | _ => trivial

/-- **A cell that a row has and the replay does not omit is frozen with its type.** -/
theorem freezeCell_carries {row : FrozenCell} (hcarries : Carries derived cell)
    (h : freezeCell subject derived (some cell) = .ok row) :
    (∃ json, inputField derived (some cell) = ⟨some json, some cell.dtype.spelling, none⟩) ∧
      Clean derived cell := by
  have homitted : (inputField derived (some cell)).omitted = none ∨
      (inputField derived (some cell)).omitted = some missing := by
    unfold freezeCell at h
    cases homitted : (inputField derived (some cell)).omitted with
    | none => exact .inl rfl
    | some reason =>
      simp only [homitted] at h
      split_ifs at h with hreason
      exact .inr (congrArg some hreason)
  cases derived with
  | true =>
    unfold inputField at homitted ⊢
    simp only [Bool.not_true, Bool.false_and, if_true, Bool.false_eq_true, if_false,
      reduceCtorEq, decide_false, Bool.or_self, preciseJsonValueForField] at homitted ⊢
    cases hvalue : preciseJsonValue cell.value with
    | error message =>
      simp only [hvalue, reduceCtorEq, false_or, Option.some.injEq] at homitted
      exact absurd homitted (message_ne _ _ hvalue)
    | ok json => exact ⟨⟨json, rfl⟩, isFinite_of_ok hvalue, nofun, nofun⟩
  | false =>
    have hobserved : cell.observed.isNone = false := by
      have hsome := hcarries.resolve_left (by simp)
      simpa [Option.isNone_iff_eq_none, Option.isSome_iff_ne_none] using hsome
    unfold inputField at homitted ⊢
    simp only [Bool.not_false, Bool.true_and, Bool.false_eq_true, if_false, hobserved]
      at homitted ⊢
    split_ifs at homitted ⊢ with hstructured
    · simp [missing] at homitted
    · cases hvalue : preciseJsonValueForField cell.observed cell.value false with
      | error message =>
        simp only [hvalue, reduceCtorEq, false_or, Option.some.injEq] at homitted
        exact absurd homitted (field_message_ne hvalue)
      | ok json =>
        refine ⟨⟨json, rfl⟩, ?_, fun _ => by simpa using hstructured, fun _ hraw hlossy => ?_⟩
        · unfold preciseJsonValueForField at hvalue
          split_ifs at hvalue
          · split at hvalue <;> first | cases hvalue | exact isFinite_of_ok hvalue
          · exact isFinite_of_ok hvalue
        · -- a raw integer that is null or a float is omitted
          unfold preciseJsonValueForField at hvalue
          rw [if_pos (by simpa using hraw)] at hvalue
          revert hvalue hlossy
          cases cell.value <;> simp [AnyValue.IsLossy]

/-! ### The candidate -/

/-- What is frozen is what the replay has of each cell. -/
theorem freezeInput_ok (h : freezeInput subject derived cells = .ok rows) :
    rows = cells.map (inputField derived) ∧
      ∀ cell ∈ cells, ∃ row, freezeCell subject derived cell = .ok row := by
  induction cells generalizing rows with
  | nil =>
    cases h
    exact ⟨rfl, by simp⟩
  | cons cell cells ih =>
    rw [freezeInput, mapM_cons] at h
    obtain ⟨row, hcell, h⟩ := Outcome.bind_eq_ok.1 h
    change Except.bind (freezeInput subject derived cells) (fun rows =>
      .ok (row :: rows)) = _ at h
    obtain ⟨rest, hrest, h⟩ := Outcome.bind_eq_ok.1 h
    cases h
    obtain ⟨hrows, hall⟩ := ih hrest
    have hrow : row = inputField derived cell := by
      unfold freezeCell at hcell
      simp only at hcell
      split at hcell
      · exact (Except.ok.inj hcell).symm
      · split_ifs at hcell
        exact (Except.ok.inj hcell).symm
    exact ⟨by rw [hrow, hrows, map_cons], forall_mem_cons.2 ⟨⟨row, hcell⟩, hall⟩⟩

theorem field_of_frozen (h : freezeInput subject derived cells = .ok rows) {found : Cell}
    (hfound : some found ∈ cells) (hcarries : Carries derived found) :
    (∃ row ∈ rows, row.field.isSome ∧ row.fieldType = some found.dtype.spelling) ∧
      Clean derived found := by
  obtain ⟨hrows, hall⟩ := freezeInput_ok h
  obtain ⟨row, hrow⟩ := hall _ hfound
  obtain ⟨⟨json, hjson⟩, hclean⟩ := freezeCell_carries hcarries hrow
  refine ⟨⟨_, hrows ▸ mem_map_of_mem hfound, ?_⟩, hclean⟩
  rw [hjson]
  exact ⟨rfl, rfl⟩

theorem fieldType_inputField (derived : Bool) (cell : Cell) :
    (inputField derived (some cell)).fieldType = some cell.dtype.spelling := by
  unfold inputField
  simp only
  generalize (if derived then none else cell.observed) = observed
  split_ifs
  · rfl
  · rfl
  · split <;> rfl

theorem carries_of_field {row : FrozenCell} (hrow : row ∈ cells.map (inputField derived))
    (hfield : row.field.isSome) : ∃ found, some found ∈ cells ∧ Carries derived found ∧
      row.fieldType = some found.dtype.spelling := by
  obtain ⟨cell, hcell, rfl⟩ := mem_map.1 hrow
  cases cell with
  | none => cases hfield
  | some found =>
    by_cases hcarries : Carries derived found
    · exact ⟨found, hcell, hcarries, fieldType_inputField derived found⟩
    · rw [inputField_lacks hcarries] at hfield
      cases hfield

/-- The rows of one type are decoded under it, if any has the field. -/
theorem decodeUnionField_uniform {dtype : DataType} (h : Uniform derived dtype cells) :
    decodeUnionField subject (cells.map (inputField derived)) =
      if (cells.map (inputField derived)).any (·.field.isSome) then
        decodeTypedField subject (cells.map (inputField derived)) dtype.spelling
      else .ok none := by
  have htypes : ∀ row ∈ cells.map (inputField derived), row.field.isSome →
      row.fieldType = some dtype.spelling := by
    intro row hrow hfield
    obtain ⟨found, hfound, hcarries, htype⟩ := carries_of_field hrow hfield
    rw [htype, (h _ hfound found rfl hcarries).1]
  rw [decodeUnionField, evidence_uniform htypes (.inl rfl)]
  change (if _ then _ else _) = _
  cases (cells.map (inputField derived)).any (·.field.isSome) with
  | false => rfl
  | true => rfl

/-- A value of a supported type is written, if it is finite. -/
theorem writable_scalar (hfits : value.Fits (.scalar kind)) (hfinite : value.IsFinite) :
    ∃ json, preciseJsonValue value = .ok json := by
  cases value with
  | null | boolean value | string value => exact ⟨_, rfl⟩
  | uint width value =>
    obtain ⟨json, hjson, -⟩ := unsignedValue_uint ⟨"", ""⟩ "" value
    exact ⟨json, hjson⟩
  | int width value =>
    obtain ⟨json, hjson, -⟩ := signedValue_int ⟨"", ""⟩ "" value
    exact ⟨json, hjson⟩
  | float32 value =>
    obtain ⟨json, hjson, -⟩ := float32Value_float32 ⟨"", ""⟩ hfinite
    exact ⟨json, hjson⟩
  | float64 value =>
    obtain ⟨json, hjson, -⟩ := float64Value_float64 ⟨"", ""⟩ hfinite
    exact ⟨json, hjson⟩
  | _ => exact hfits.elim

theorem null_of_fits (hfits : value.Fits .null) : value = .null := by
  cases value with
  | null => rfl
  | _ => exact hfits.elim

theorem writable_null (hfits : value.Fits .null) (_ : value.IsFinite) :
    ∃ json, preciseJsonValue value = .ok json :=
  ⟨.null, null_of_fits hfits ▸ rfl⟩

/-- Cells of one type that the replay keeps are frozen, if the values of the type are written. -/
theorem Uniform.freezes {dtype : DataType} (h : Uniform derived dtype cells) (subject : Subject)
    (hwrites : ∀ value : AnyValue, value.Fits dtype → value.IsFinite →
      ∃ json, preciseJsonValue value = .ok json) :
    freezeInput subject derived cells = .ok (cells.map (inputField derived)) := by
  induction cells with
  | nil => rfl
  | cons cell cells ih =>
    have hrow : freezeCell subject derived cell = .ok (inputField derived cell) := by
      cases cell with
      | none => rfl
      | some found =>
        by_cases hcarries : Carries derived found
        · obtain ⟨hdtype, hclean⟩ := h _ mem_cons_self found rfl hcarries
          obtain ⟨json, hjson⟩ := hwrites _ (hdtype ▸ found.fits) hclean.finite
          rw [freezeCell, inputField_clean hcarries hclean hjson]
        · rw [freezeCell, inputField_lacks hcarries]
          rfl
    rw [freezeInput, mapM_cons, hrow]
    change Except.bind (freezeInput subject derived cells) _ = _
    rw [ih fun other hother => h other (mem_cons_of_mem _ hother)]
    rfl

/-- **A column of a supported type survives.** -/
theorem candidate_uniform (h : Uniform derived (.scalar kind) cells)
    (hlacking : Lacking derived cells)
    (hcarried : ∃ found, some found ∈ cells ∧ Carries derived found) :
    candidate subject derived cells = .ok (some ⟨.scalar kind, cells.map valueOf⟩) := by
  have hfreeze := h.freezes subject fun value => writable_scalar
  obtain ⟨found, hfound, hcarries⟩ := hcarried
  obtain ⟨⟨row, hrow, hfield, -⟩, -⟩ := field_of_frozen hfreeze hfound hcarries
  have hany : (cells.map (inputField derived)).any (·.field.isSome) = true :=
    any_eq_true.2 ⟨row, hrow, hfield⟩
  rw [candidate, hfreeze]
  change Except.mapError Refusal.union (decodeUnionField subject _) = _
  rw [decodeUnionField_uniform h, if_pos hany]
  change Except.mapError Refusal.union (decodeTypedField subject _ kind.spelling) = _
  rw [decodeTypedField_uniform h hlacking]
  rfl

/-- A column of the unknown type, or one that no row has, is left out. -/
theorem candidate_null (h : Uniform derived .null cells) :
    candidate subject derived cells = .ok none := by
  have hfreeze := h.freezes subject fun value => writable_null
  -- no row has a value
  have hcount : presentCount (cells.map (inputField derived)) = 0 := by
    refine length_eq_zero_iff.2 (filter_eq_nil_iff.2 fun row hrow => ?_)
    obtain ⟨cell, hcell, rfl⟩ := mem_map.1 hrow
    cases cell with
    | none => simp [inputField]
    | some found =>
      by_cases hcarries : Carries derived found
      · obtain ⟨hdtype, hclean⟩ := h _ hcell found rfl hcarries
        have hnull : found.value = .null := null_of_fits (hdtype ▸ found.fits)
        have hjson : preciseJsonValue found.value = .ok .null := hnull ▸ rfl
        simp [inputField_clean hcarries hclean hjson]
      · simp [inputField_lacks hcarries]
  rw [candidate, hfreeze]
  change Except.mapError Refusal.union (decodeUnionField subject _) = _
  rw [decodeUnionField_uniform h]
  split_ifs
  · change Except.mapError Refusal.union (if 0 < presentCount _ then _ else _) = _
    rw [hcount]
    rfl
  · rfl

/-- **Every other column is rejected.** -/
theorem candidate_rejected (hscalar : ∀ kind, ¬ Uniform derived (.scalar kind) cells)
    (hnull : ¬ Uniform derived .null cells) :
    ∃ refusal, candidate subject derived cells = .error refusal := by
  unfold candidate
  cases hfreeze : freezeInput subject derived cells with
  | error refusal => exact ⟨refusal, rfl⟩
  | ok rows =>
    change ∃ refusal, Except.mapError Refusal.union (decodeUnionField subject rows) =
      .error refusal
    -- some row has the field, with a type that is the only one or in conflict with another
    obtain ⟨first, hfirst, hcarries⟩ : ∃ first, some first ∈ cells ∧ Carries derived first := by
      by_contra hnone
      exact hnull fun cell hcell found hfound hcarries =>
        absurd ⟨found, (Option.mem_def.1 hfound) ▸ hcell, hcarries⟩ hnone
    obtain ⟨⟨row, hrow, hfield, htype⟩, -⟩ := field_of_frozen hfreeze hfirst hcarries
    by_cases hsame : ∀ found, some found ∈ cells → Carries derived found →
        found.dtype = first.dtype
    · have huniform : Uniform derived first.dtype cells := fun cell hcell found hfound hcarries =>
        have hin : some found ∈ cells := (Option.mem_def.1 hfound) ▸ hcell
        ⟨hsame found hin hcarries, (field_of_frozen hfreeze hin hcarries).2⟩
      obtain ⟨rfl, -⟩ := freezeInput_ok hfreeze
      have hany : (cells.map (inputField derived)).any (·.field.isSome) = true :=
        any_eq_true.2 ⟨row, hrow, hfield⟩
      rw [decodeUnionField_uniform huniform, if_pos hany]
      cases hdtype : first.dtype with
      | scalar kind => exact absurd (hdtype ▸ huniform) (hscalar kind)
      | null => exact absurd (hdtype ▸ huniform) hnull
      | other spelling hother =>
        obtain ⟨text, hunsupported⟩ : ∃ text,
            decodeTypedField subject (cells.map (inputField derived)) spelling =
              .error (.unsupportedValue subject spelling text) := by
          unfold decodeTypedField
          split
          · exact absurd rfl (hother.2 .boolean)
          · exact absurd rfl (hother.2 .string)
          · exact absurd rfl (hother.2 .float64)
          · exact absurd rfl (hother.2 .float32)
          · exact absurd rfl (hother.2 (.int .w8))
          · exact absurd rfl (hother.2 (.int .w16))
          · exact absurd rfl (hother.2 (.int .w32))
          · exact absurd rfl (hother.2 (.int .w64))
          · exact absurd rfl (hother.2 (.uint .w8))
          · exact absurd rfl (hother.2 (.uint .w16))
          · exact absurd rfl (hother.2 (.uint .w32))
          · exact absurd rfl (hother.2 (.uint .w64))
          · exact absurd rfl hother.1
          · exact ⟨_, rfl⟩
        change ∃ refusal, Except.mapError Refusal.union (decodeTypedField subject _ spelling) = _
        rw [hunsupported]
        exact ⟨_, rfl⟩
    · push Not at hsame
      obtain ⟨second, hsecond, hcarries', hdtype⟩ := hsame
      obtain ⟨⟨row', hrow', hfield', htype'⟩, -⟩ := field_of_frozen hfreeze hsecond hcarries'
      have hne : row.fieldType ≠ row'.fieldType := by
        rw [htype, htype']
        exact fun heq => hdtype (DataType.spelling_inj (Option.some.inj heq)).symm
      rw [decodeUnionField_conflict hrow hrow' hfield hfield' hne]
      exact ⟨_, rfl⟩

/-- The cells of one column: nulls where the row lacks it, and the ends of the widest type. -/
def extremes : List (Option Cell) :=
  [some ⟨.scalar (.int .w64), some "int64", .int .w64 (BitVec.ofInt 64 (-2 ^ 63)), rfl⟩,
    some ⟨.scalar (.int .w64), none, .null, trivial⟩, none,
    some ⟨.scalar (.int .w64), some "int64", .int .w64 (BitVec.ofInt 64 (2 ^ 63 - 1)), rfl⟩]

/-- **Typed values survive freezing into a union**, or their column is rejected. -/
theorem typed_values_survive (subject : Subject) (derived : Bool) (cells : List (Option Cell))
    (hlacking : Lacking derived cells) :
    (∀ kind, Uniform derived (.scalar kind) cells →
      (∃ found, some found ∈ cells ∧ Carries derived found) →
        candidate subject derived cells = .ok (some ⟨.scalar kind, cells.map valueOf⟩)) ∧
    (Uniform derived .null cells → candidate subject derived cells = .ok none) ∧
    ((∀ kind, ¬ Uniform derived (.scalar kind) cells) → ¬ Uniform derived .null cells →
      ∃ refusal, candidate subject derived cells = .error refusal) ∧
    ∀ rows : List FrozenCell, (∃ first ∈ rows, ∃ second ∈ rows, first.field.isSome ∧
      second.field.isSome ∧ first.fieldType ≠ second.fieldType) →
        decodeUnionField subject rows = .error (.engine subject .conflictingEvidence) := by
  refine ⟨fun kind h hcarried => candidate_uniform h hlacking hcarried, candidate_null,
    candidate_rejected, ?_⟩
  rintro rows ⟨first, hfirst, second, hsecond, hfield, hfield', hne⟩
  exact decodeUnionField_conflict hfirst hsecond hfield hfield' hne

theorem typed_values_survive_extremes :
    Lacking false extremes ∧ candidate ⟨"a", "n"⟩ false extremes =
      .ok (some ⟨.scalar (.int .w64), extremes.map valueOf⟩) := by
  have hlacking : Lacking false extremes := by
    intro cell hcell found hfound hlacks
    simp only [extremes, mem_cons, not_mem_nil, or_false] at hcell
    rcases hcell with rfl | rfl | rfl | rfl <;> cases hfound
    · exact absurd (.inr rfl) hlacks
    · rfl
    · exact absurd (.inr rfl) hlacks
  refine ⟨hlacking, (typed_values_survive ⟨"a", "n"⟩ false extremes hlacking).1 (.int .w64) ?_ ?_⟩
  · intro cell hcell found hfound hcarries
    simp only [extremes, mem_cons, not_mem_nil, or_false] at hcell
    rcases hcell with rfl | rfl | rfl | rfl <;> cases hfound
    · exact ⟨rfl, trivial, fun _ => by decide, fun _ _ => id⟩
    · exact absurd hcarries (by rintro (h | h) <;> cases h)
    · exact ⟨rfl, trivial, fun _ => by decide, fun _ _ => id⟩
  · exact ⟨_, mem_cons_self, .inr rfl⟩

/-- One batch whose field is `"x"` and then `1`: the column is text, and the integer is null in it. -/
def conflicting : List (Option Cell) :=
  [some ⟨.scalar .string, some "string", .string "x", trivial⟩,
    some ⟨.scalar .string, some "int64", .null, trivial⟩]

/-- A raw integer that the projection has made null is rejected, and a column without a value is
left out rather than rejected. -/
theorem lossy_integer_rejected :
    ((∀ cell ∈ conflicting, ∀ found ∈ cell,
        found.dtype = .scalar .string ∧ found.value.IsFinite) ∧
      ∀ column, candidate ⟨"a", "n"⟩ false conflicting ≠ .ok column) ∧
    ∃ cells : List (Option Cell),
      (∀ cell ∈ cells, ∀ found ∈ cell, ∀ kind, found.dtype ≠ .scalar kind) ∧ cells ≠ [] ∧
      candidate ⟨"a", "n"⟩ true cells = .ok none := by
  refine ⟨⟨?_, fun column h => ?_⟩, [some ⟨.null, none, .null, trivial⟩], ?_, by simp, rfl⟩
  · intro cell hcell found hfound
    simp only [conflicting, mem_cons, not_mem_nil, or_false] at hcell
    rcases hcell with rfl | rfl <;> cases hfound <;> exact ⟨rfl, trivial⟩
  · simp [conflicting, candidate, freezeInput, freezeCell, inputField, preciseJsonValueForField,
      preciseJsonValue, missing, Except.bind, bind] at h
  · intro cell hcell found hfound kind
    obtain rfl := mem_singleton.1 hcell
    cases hfound
    exact nofun

end FrozenField
end View
end Lvu
