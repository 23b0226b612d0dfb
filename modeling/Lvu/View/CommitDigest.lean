import Lvu.Bytes.Delimited
import Lvu.Core.Model
import Mathlib.Data.List.Sort

/-!
# The writer of candidate digests

The digest of a union candidate is the hash of a byte string that `CandidateDigest` writes value by
value (`lvu-view/src/remote_union_commit.rs`).  What it writes of a value ends by itself, so that
two candidates with the same bytes have the same values.

* `tag`, `bool`, `u64`, `i64`, `bytes`, `string`, `optionalU64`, `optionalI64`, `json` : the writer.
* `Json.Same` : the same JSON, up to the order of entries.
* `delimited_json` : two typed cells with the same bytes are the same.
-/

namespace Lvu.View.CandidateDigest

open List

/-- A string whose length is a 64-bit number. -/
abbrev Text := { s : String // s.utf8ByteSize < 2 ^ 64 }

/-- The UTF-8 bytes of a string. -/
def utf8 (s : String) : List UInt8 := s.toUTF8.data.toList

/-- `DOMAIN`: `lvu.remote-union.commit.v1` and a zero byte. -/
def domain : List UInt8 := utf8 "lvu.remote-union.commit.v1" ++ [0]

def tag (value : UInt8) : List UInt8 := [value]

def bool (value : Bool) : List UInt8 := tag (if value then 1 else 0)

def u64 (value : UInt64) : List UInt8 := be64 value

def i64 (value : Int64) : List UInt8 := be64 value.toUInt64

def bytes (value : List UInt8) : List UInt8 := u64 (UInt64.ofNat value.length) ++ value

def string (value : String) : List UInt8 := bytes (utf8 value)

def optionalU64 : Option UInt64 → List UInt8
  | some value => tag 1 ++ u64 value
  | none => tag 0

def optionalI64 : Option Int64 → List UInt8
  | some value => tag 1 ++ i64 value
  | none => tag 0

/-- `serde_json::Number`. -/
inductive Number
  | posInt (value : UInt64)
  | negInt (value : Int64) (negative : value < 0)
  /-- The bits of a finite number. -/
  | float (bits : UInt64)

def Number.asI64 : Number → Option Int64
  | .posInt value => if value.toNat < 2 ^ 63 then some value.toInt64 else none
  | .negInt value _ => some value
  | .float _ => none

def Number.asU64 : Number → Option UInt64
  | .posInt value => some value
  | .negInt _ _ | .float _ => none

/-- The bits of `Number::as_f64` of a number that is neither. -/
def Number.bits : Number → UInt64
  | .float bits => bits
  | .posInt _ | .negInt _ _ => 0

/-- `serde_json::Value`. -/
inductive Json
  | null
  | bool (value : Bool)
  | number (value : Number)
  | string (value : String)
  | array (values : List Json)
  | object (entries : List (String × Json))

/-- The number of `json`. -/
def number (value : Number) : List UInt8 :=
  match value.asI64 with
  | some value => tag 0 ++ i64 value
  | none =>
    match value.asU64 with
    | some value => tag 1 ++ u64 value
    | none => tag 2 ++ u64 value.bits

/-- Entries in the order of their keys. -/
def sortKeys {α : Type*} (entries : List (String × α)) : List (String × α) :=
  entries.insertionSort fun left right => left.1 ≤ right.1

mutual

def json : Json → List UInt8
  | .null => tag 0
  | .bool value => tag 1 ++ bool value
  | .number value => tag 2 ++ number value
  | .string value => tag 3 ++ string value
  | .array values => tag 4 ++ u64 (UInt64.ofNat values.length) ++ jsonValues values
  | .object entries => tag 5 ++ u64 (UInt64.ofNat entries.length) ++
      (sortKeys (jsonEntries entries)).flatMap fun entry => string entry.1 ++ entry.2

/-- The values of an array. -/
def jsonValues : List Json → List UInt8
  | [] => []
  | value :: values => json value ++ jsonValues values

/-- The entries of an object, each with what is written of its value. -/
def jsonEntries : List (String × Json) → List (String × List UInt8)
  | [] => []
  | (key, value) :: entries => (key, json value) :: jsonEntries entries

end

/-! ### Plain values -/

theorem length_utf8 (s : String) : (utf8 s).length = s.utf8ByteSize := by
  rw [utf8, Array.length_toList]
  rfl

theorem utf8_injective : Function.Injective utf8 := by
  intro s t h
  simp only [utf8, String.toUTF8] at h
  exact String.toByteArray_inj.1 (ByteArray.ext (Array.toList_inj.1 h))

theorem delimited_tag : Delimited tag Eq :=
  delimited_of_length (n := 1) (fun _ => rfl) fun _ _ h => (List.cons.inj h).1

theorem delimited_bool : Delimited bool Eq :=
  (delimited_tag.comap fun value : Bool => if value then 1 else 0).mono fun a b h => by
    cases a <;> cases b <;> simp_all

theorem delimited_u64 : Delimited u64 Eq := delimited_be64

theorem delimited_i64 : Delimited i64 Eq :=
  (delimited_be64.comap Int64.toUInt64).mono fun a b h => by
    cases a
    cases b
    exact congrArg _ h

theorem delimited_bytes : Delimited (fun value : Vec UInt8 => bytes value.1) Eq := by
  intro v w x y h
  simp only [bytes, append_assoc] at h
  obtain ⟨hlength, h⟩ := length_inj v.2 w.2 h
  obtain ⟨hbytes, h⟩ := append_inj h hlength
  exact ⟨Subtype.ext hbytes, h⟩

theorem string_delimited {s t : String} {x y : List UInt8} (hs : s.utf8ByteSize < 2 ^ 64)
    (ht : t.utf8ByteSize < 2 ^ 64) (h : string s ++ x = string t ++ y) : s = t ∧ x = y := by
  have hs' : (utf8 s).length < 2 ^ 64 := length_utf8 s ▸ hs
  have ht' : (utf8 t).length < 2 ^ 64 := length_utf8 t ▸ ht
  obtain ⟨hbytes, h⟩ := @delimited_bytes ⟨utf8 s, hs'⟩ ⟨utf8 t, ht'⟩ x y h
  exact ⟨utf8_injective (congrArg Subtype.val hbytes), h⟩

theorem delimited_string : Delimited (fun value : Text => string value.1) Eq := by
  intro s t x y h
  obtain ⟨hst, h⟩ := string_delimited s.2 t.2 h
  exact ⟨Subtype.ext hst, h⟩

theorem delimited_optionalU64 : Delimited optionalU64 Eq := by
  have heq : optionalU64 = encOption u64 := by
    funext value
    cases value <;> rfl
  exact heq ▸ delimited_u64.option_eq

theorem delimited_optionalI64 : Delimited optionalI64 Eq := by
  have heq : optionalI64 = encOption i64 := by
    funext value
    cases value <;> rfl
  exact heq ▸ delimited_i64.option_eq

/-! ### Numbers -/

theorem not_neg_of_small {v : UInt64} (h : v.toNat < 2 ^ 63) : ¬ v.toInt64 < 0 := by
  have hint : v.toInt64.toInt = v.toNat := by
    have hbits : v.toInt64.toBitVec.toNat = v.toNat := rfl
    rw [← hbits]
    exact BitVec.toInt_eq_toNat_of_lt (by omega)
  rw [Int64.lt_iff_toInt_lt, hint]
  exact Int.not_lt.2 (Int.natCast_nonneg _)

/-- What is written of a number, by how it is seen. -/
theorem number_cases (value : Number) :
    (∃ v : UInt64, value = .posInt v ∧ ¬ v.toInt64 < 0 ∧ number value = tag 0 ++ i64 v.toInt64) ∨
    (∃ i h, value = .negInt i h ∧ number value = tag 0 ++ i64 i) ∨
    (∃ v, value = .posInt v ∧ number value = tag 1 ++ u64 v) ∨
    ∃ bits, value = .float bits ∧ number value = tag 2 ++ u64 bits := by
  cases value with
  | posInt v =>
    by_cases hsmall : v.toNat < 2 ^ 63
    · have hwritten : number (.posInt v) = tag 0 ++ i64 v.toInt64 := by
        simp only [number, Number.asI64, if_pos hsmall]
      exact .inl ⟨v, rfl, not_neg_of_small hsmall, hwritten⟩
    · have hwritten : number (.posInt v) = tag 1 ++ u64 v := by
        simp only [number, Number.asI64, Number.asU64, if_neg hsmall]
      exact .inr (.inr (.inl ⟨v, rfl, hwritten⟩))
  | negInt i h => exact .inr (.inl ⟨i, h, rfl, rfl⟩)
  | float bits => exact .inr (.inr (.inr ⟨bits, rfl, rfl⟩))

/-- **Numbers are told apart**, also signed and unsigned ones of the same bits. -/
theorem delimited_number : Delimited number Eq := by
  intro a b x y h
  have htag : ∀ {t t' : UInt8} {u v : List UInt8}, (tag t ++ u) ++ x = (tag t' ++ v) ++ y →
      t = t' ∧ u ++ x = v ++ y := by
    intro t t' u v h
    simp only [append_assoc] at h
    exact delimited_tag h
  obtain ⟨v, rfl, hv, ha⟩ | ⟨i, hi, rfl, ha⟩ | ⟨v, rfl, ha⟩ | ⟨bits, rfl, ha⟩ := number_cases a <;>
    obtain ⟨w, rfl, hw, hb⟩ | ⟨j, hj, rfl, hb⟩ | ⟨w, rfl, hb⟩ | ⟨bits', rfl, hb⟩ :=
      number_cases b <;>
    rw [ha, hb] at h <;> obtain ⟨ht, h⟩ := htag h <;>
    try exact absurd ht (by decide)
  · obtain ⟨heq, hrest⟩ := delimited_i64 h
    have hvw : v = w := congrArg Int64.toUInt64 heq
    exact ⟨congrArg _ hvw, hrest⟩
  · obtain ⟨rfl, -⟩ := delimited_i64 h
    exact absurd hj hv
  · obtain ⟨rfl, -⟩ := delimited_i64 h
    exact absurd hi hw
  · obtain ⟨rfl, hrest⟩ := delimited_i64 h
    exact ⟨rfl, hrest⟩
  · obtain ⟨rfl, hrest⟩ := delimited_u64 h
    exact ⟨rfl, hrest⟩
  · obtain ⟨rfl, hrest⟩ := delimited_u64 h
    exact ⟨rfl, hrest⟩

/-! ### JSON -/

/-- Every length in the value is a 64-bit number. -/
inductive Json.Fits : Json → Prop
  | null : Fits .null
  | bool (value : Bool) : Fits (.bool value)
  | number (value : Number) : Fits (.number value)
  | string {value : String} (h : value.utf8ByteSize < 2 ^ 64) : Fits (.string value)
  | array {values : List Json} (h : values.length < 2 ^ 64) (hall : ∀ value ∈ values, Fits value) :
      Fits (.array values)
  | object {entries : List (String × Json)} (h : entries.length < 2 ^ 64)
      (hkeys : ∀ entry ∈ entries, entry.1.utf8ByteSize < 2 ^ 64)
      (hall : ∀ entry ∈ entries, Fits entry.2) : Fits (.object entries)

/-- **The same JSON**, up to the order of the entries of its objects. -/
inductive Json.Same : Json → Json → Prop
  | null : Same .null .null
  | bool (value : Bool) : Same (.bool value) (.bool value)
  | number (value : Number) : Same (.number value) (.number value)
  | string (value : String) : Same (.string value) (.string value)
  | array {values values' : List Json} (hlength : values.length = values'.length)
      (hall : ∀ (i : ℕ) value value', values[i]? = some value → values'[i]? = some value' →
        Same value value') : Same (.array values) (.array values')
  | object {entries entries' sorted sorted' : List (String × Json)} (hperm : sorted.Perm entries)
      (hperm' : sorted'.Perm entries') (hlength : sorted.length = sorted'.length)
      (hkeys : ∀ (i : ℕ) entry entry', sorted[i]? = some entry → sorted'[i]? = some entry' →
        entry.1 = entry'.1)
      (hall : ∀ (i : ℕ) entry entry', sorted[i]? = some entry → sorted'[i]? = some entry' →
        Same entry.2 entry'.2) : Same (.object entries) (.object entries')

theorem jsonValues_eq (values : List Json) : jsonValues values = values.flatMap json := by
  induction values with
  | nil => simp [jsonValues]
  | cons value values ih => simp [jsonValues, ih]

theorem jsonEntries_eq (entries : List (String × Json)) :
    jsonEntries entries = entries.map fun entry => (entry.1, json entry.2) := by
  induction entries with
  | nil => simp [jsonEntries]
  | cons entry entries ih => simp [jsonEntries, ih]

theorem json_object (entries : List (String × Json)) : json (.object entries) =
    tag 5 ++ u64 (UInt64.ofNat entries.length) ++
      (sortKeys entries).flatMap fun entry => string entry.1 ++ json entry.2 := by
  have hsort : sortKeys (jsonEntries entries) =
      (sortKeys entries).map fun entry => (entry.1, json entry.2) := by
    rw [jsonEntries_eq, sortKeys, sortKeys]
    symm
    apply map_insertionSort
    intro entry _ other _
    rfl
  rw [json, hsort, flatMap_map]

theorem getElem?_of_forall₂ {α β : Type*} {R : α → β → Prop} {l : List α} {l' : List β}
    (h : List.Forall₂ R l l') {i : ℕ} {a : α} {b : β} (ha : l[i]? = some a) (hb : l'[i]? = some b) :
    R a b := by
  obtain ⟨hi, rfl⟩ := List.getElem?_eq_some_iff.1 ha
  obtain ⟨hi', rfl⟩ := List.getElem?_eq_some_iff.1 hb
  exact (List.forall₂_iff_get.1 h).2 i hi hi'

/-- The first byte of JSON tells its kind. -/
def Json.kind : Json → UInt8
  | .null => 0
  | .bool _ => 1
  | .number _ => 2
  | .string _ => 3
  | .array _ => 4
  | .object _ => 5

theorem json_kind (a : Json) : ∃ rest, json a = a.kind :: rest := by
  cases a <;> exact ⟨_, by simp [json, tag, Json.kind]; rfl⟩

theorem kind_eq {a b : Json} {x y : List UInt8} (h : json a ++ x = json b ++ y) :
    a.kind = b.kind := by
  obtain ⟨rest, ha⟩ := json_kind a
  obtain ⟨rest', hb⟩ := json_kind b
  rw [ha, hb] at h
  exact (List.cons.inj h).1

/-- **JSON that fits is told apart**, up to the order of entries. -/
theorem json_delimited {a : Json} (ha : a.Fits) : ∀ {b : Json} {x y : List UInt8}, b.Fits →
    json a ++ x = json b ++ y → a.Same b ∧ x = y := by
  induction ha with
  | null =>
    intro b x y hb h
    cases hb with
    | null => exact ⟨.null, (List.cons.inj h).2⟩
    | _ => exact absurd (kind_eq h) (by simp [Json.kind])
  | bool value =>
    intro b x y hb h
    cases hb with
    | bool value' =>
      simp only [json, append_assoc] at h
      obtain ⟨-, h⟩ := delimited_tag h
      obtain ⟨rfl, hrest⟩ := delimited_bool h
      exact ⟨.bool _, hrest⟩
    | _ => exact absurd (kind_eq h) (by simp [Json.kind])
  | number value =>
    intro b x y hb h
    cases hb with
    | number value' =>
      simp only [json, append_assoc] at h
      obtain ⟨-, h⟩ := delimited_tag h
      obtain ⟨rfl, hrest⟩ := delimited_number h
      exact ⟨.number _, hrest⟩
    | _ => exact absurd (kind_eq h) (by simp [Json.kind])
  | string hfits =>
    intro b x y hb h
    cases hb with
    | string hfits' =>
      simp only [json, append_assoc] at h
      obtain ⟨-, h⟩ := delimited_tag h
      obtain ⟨rfl, hrest⟩ := string_delimited hfits hfits' h
      exact ⟨.string _, hrest⟩
    | _ => exact absurd (kind_eq h) (by simp [Json.kind])
  | @array values hfits _ ih =>
    intro b x y hb h
    cases hb with
    | @array values' hfits' hall' =>
      simp only [json, jsonValues_eq, append_assoc] at h
      obtain ⟨-, h⟩ := delimited_tag h
      obtain ⟨hlength, h⟩ := length_inj hfits hfits' h
      obtain ⟨hsame, h⟩ := flatMap_delimited hlength
        (fun value hvalue value' hvalue' x y heq => ih value hvalue (hall' value' hvalue') heq) h
      exact ⟨.array hlength fun i value value' hi hi' => getElem?_of_forall₂ hsame hi hi', h⟩
    | _ => exact absurd (kind_eq h) (by simp [Json.kind])
  | @object entries hfits hkeys _ ih =>
    intro b x y hb h
    cases hb with
    | @object entries' hfits' hkeys' hall' =>
      simp only [json_object, append_assoc] at h
      obtain ⟨-, h⟩ := delimited_tag h
      obtain ⟨hlength, h⟩ := length_inj hfits hfits' h
      have hperm : (sortKeys entries).Perm entries := perm_insertionSort _ _
      have hperm' : (sortKeys entries').Perm entries' := perm_insertionSort _ _
      have hsorted : (sortKeys entries).length = (sortKeys entries').length :=
        hperm.length_eq.trans (hlength.trans hperm'.length_eq.symm)
      have hentry : ∀ entry ∈ sortKeys entries, ∀ entry' ∈ sortKeys entries', ∀ x y,
          (string entry.1 ++ json entry.2) ++ x = (string entry'.1 ++ json entry'.2) ++ y →
          (entry.1 = entry'.1 ∧ entry.2.Same entry'.2) ∧ x = y := by
        intro entry hentry entry' hentry' x y heq
        have hmem := hperm.mem_iff.1 hentry
        have hmem' := hperm'.mem_iff.1 hentry'
        simp only [append_assoc] at heq
        obtain ⟨hkey, heq⟩ := string_delimited (hkeys entry hmem) (hkeys' entry' hmem') heq
        obtain ⟨hsame, heq⟩ := ih entry hmem (hall' entry' hmem') heq
        exact ⟨⟨hkey, hsame⟩, heq⟩
      obtain ⟨hsame, h⟩ := flatMap_delimited hsorted hentry h
      exact ⟨.object hperm hperm' hsorted
        (fun i entry entry' hi hi' => (getElem?_of_forall₂ hsame hi hi').1)
        fun i entry entry' hi hi' => (getElem?_of_forall₂ hsame hi hi').2, h⟩
    | _ => exact absurd (kind_eq h) (by simp [Json.kind])

/-- A typed cell. -/
abbrev Cell := { value : Json // value.Fits }

theorem delimited_json : Delimited (fun value : Cell => json value.1) fun a b => a.1.Same b.1 :=
  fun a b _ _ h => json_delimited a.2 b.2 h

end Lvu.View.CandidateDigest
