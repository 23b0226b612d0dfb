import Lvu.Query.FieldColumn
import Mathlib.Data.Finset.Card

/-!
# The fields that a schema admits

A schema takes new names until it is full, in the order in which the records have them.

* `Admits` : a name stands among the fields where the names before it do not fill the schema.
* `has_admitAll` : **the schema has the names that are admitted.**
* `get?_admitAll` : **the type of a field** is that of all its values.
-/

namespace Lvu.Query.Adapter

open List

attribute [local instance] lawful_names

variable {Double : Type} {lib : Library Double} {schema : SchemaContext}
  {entries : List (List Char × Value Double)} {field : List Char}

/-! ### Admission -/

/-- The number of fields. -/
def SchemaContext.size (schema : SchemaContext) : ℕ := schema.fields.rows.length

/-- The schema has a field of that name. -/
def SchemaContext.Has (schema : SchemaContext) (key : List Char) : Prop :=
  (schema.fields.get? key).isSome = true

instance (schema : SchemaContext) (key : List Char) : Decidable (schema.Has key) :=
  inferInstanceAs (Decidable (_ = true))

/-- The names that are not reserved and that the schema does not have. -/
def newNames (schema : SchemaContext) (entries : List (List Char × Value Double)) :
    Finset (List Char) :=
  ((entries.map Prod.fst).filter fun name => !isReserved name && !decide (schema.Has name)).toFinset

theorem mem_newNames {key : List Char} : key ∈ newNames schema entries ↔
    (∃ value, (key, value) ∈ entries) ∧ isReserved key = false ∧ ¬ schema.Has key := by
  simp [newNames]

variable {entry : List Char × Value Double}

theorem newNames_snoc_of (hreserved : isReserved entry.1 = false) (hnew : ¬ schema.Has entry.1) :
    newNames schema (entries ++ [entry]) = insert entry.1 (newNames schema entries) := by
  ext key
  rw [Finset.mem_insert, mem_newNames, mem_newNames]
  constructor
  · rintro ⟨⟨value, hvalue⟩, hkey⟩
    rcases mem_append.1 hvalue with hvalue | hvalue
    · exact .inr ⟨⟨value, hvalue⟩, hkey⟩
    · exact .inl (congrArg Prod.fst (mem_singleton.1 hvalue))
  · rintro (rfl | ⟨⟨value, hvalue⟩, hkey⟩)
    · exact ⟨⟨entry.2, mem_append_right _ (mem_singleton_self _)⟩, hreserved, hnew⟩
    · exact ⟨⟨value, mem_append_left _ hvalue⟩, hkey⟩

theorem newNames_snoc_eq
    (h : isReserved entry.1 = true ∨ schema.Has entry.1 ∨ entry.1 ∈ newNames schema entries) :
    newNames schema (entries ++ [entry]) = newNames schema entries := by
  ext key
  rw [mem_newNames, mem_newNames]
  refine and_congr_left fun ⟨hreserved, hnew⟩ => ⟨?_, ?_⟩
  · rintro ⟨value, hvalue⟩
    rcases mem_append.1 hvalue with hvalue | hvalue
    · exact ⟨value, hvalue⟩
    · obtain rfl : key = entry.1 := congrArg Prod.fst (mem_singleton.1 hvalue)
      rcases h with h | h | h
      · rw [hreserved] at h
        cases h
      · exact absurd h hnew
      · exact (mem_newNames.1 h).1
  · rintro ⟨value, hvalue⟩
    exact ⟨value, mem_append_left _ hvalue⟩

theorem card_newNames_mono (schema : SchemaContext)
    (before after : List (List Char × Value Double)) :
    (newNames schema before).card ≤ (newNames schema (before ++ after)).card := by
  refine Finset.card_le_card fun key hkey => ?_
  obtain ⟨⟨value, hvalue⟩, hkey⟩ := mem_newNames.1 hkey
  exact mem_newNames.2 ⟨⟨value, mem_append_left _ hvalue⟩, hkey⟩

theorem size_observe (schema : SchemaContext) (key : List Char) (kind : FieldType) :
    (schema.observe key kind).size = if schema.Has key then schema.size else schema.size + 1 := by
  refine (Table.length_insert _ _ _).trans ?_
  by_cases hin : schema.Has key
  · rw [if_pos hin]
    exact if_pos hin
  · rw [if_neg hin]
    exact if_neg hin

/-- What a field does to a schema: nothing, where its name is reserved or the schema is full; or it
is observed, with a row of its own where it is new. -/
theorem admitEntry_cases (schema : SchemaContext) (entry : List Char × Value Double) :
    (admitEntry schema entry = schema ∧ (isReserved entry.1 = true ∨
      isReserved entry.1 = false ∧ ¬ schema.Has entry.1 ∧ schema.maxFields ≤ schema.size)) ∨
    (isReserved entry.1 = false ∧
      (∀ key, (admitEntry schema entry).fields.get? key = if key = entry.1 then
        observeValue (schema.fields.get? entry.1) (some entry.2) else schema.fields.get? key) ∧
      (schema.Has entry.1 ∧ (admitEntry schema entry).size = schema.size ∨
        ¬ schema.Has entry.1 ∧ schema.size < schema.maxFields ∧
          (admitEntry schema entry).size = schema.size + 1)) := by
  have hhas : schema.Has entry.1 ↔ schema.fields.get? entry.1 ≠ none := by
    rw [SchemaContext.Has, Option.isSome_iff_ne_none]
  unfold admitEntry
  by_cases hreserved : isReserved entry.1 = true
  · rw [if_pos hreserved]
    exact .inl ⟨rfl, .inl hreserved⟩
  · rw [if_neg hreserved]
    rw [Bool.not_eq_true] at hreserved
    by_cases hfull : schema.fields.get? entry.1 = none ∧
        schema.maxFields ≤ schema.fields.rows.length
    · rw [if_pos hfull]
      exact .inl ⟨rfl, .inr ⟨hreserved, fun h => hhas.1 h hfull.1, hfull.2⟩⟩
    · rw [if_neg hfull]
      refine .inr ⟨hreserved, fun key => get?_observe schema entry.1 key _, ?_⟩
      have hsize := size_observe schema entry.1 (entry.2.kind.getD .unknown)
      by_cases hin : schema.Has entry.1
      · rw [if_pos hin] at hsize
        exact .inl ⟨hin, hsize⟩
      · rw [if_neg hin] at hsize
        refine .inr ⟨hin, ?_, hsize⟩
        exact Nat.lt_of_not_le fun hle => hfull ⟨not_not.1 fun h => hin (hhas.2 h), hle⟩

theorem has_admitEntry (hget : ∀ key,
    (admitEntry schema entry).fields.get? key = if key = entry.1 then
      observeValue (schema.fields.get? entry.1) (some entry.2) else schema.fields.get? key)
    (key : List Char) : (admitEntry schema entry).Has key ↔ key = entry.1 ∨ schema.Has key := by
  rw [SchemaContext.Has, hget]
  split_ifs with hkey
  · exact iff_of_true (by rw [observeValue]; rfl) (.inl hkey)
  · exact (or_iff_right hkey).symm

/-- What some fields do to a schema. -/
structure Admitted (schema after : SchemaContext) (entries : List (List Char × Value Double)) :
    Prop where
  limit : after.maxFields = schema.maxFields
  keeps : ∀ key, schema.Has key → after.Has key
  only : ∀ key, after.Has key → schema.Has key ∨ key ∈ newNames schema entries
  atMost : after.size ≤ schema.size + (newNames schema entries).card
  all : after.size < schema.maxFields → (∀ key ∈ newNames schema entries, after.Has key) ∧
    after.size = schema.size + (newNames schema entries).card

theorem admitAll_snoc (schema : SchemaContext) (entries : List (List Char × Value Double))
    (entry : List Char × Value Double) :
    admitAll schema (entries ++ [entry]) = admitEntry (admitAll schema entries) entry := by
  rw [admitAll, foldl_append]
  rfl

/-- **Names are admitted until the schema is full.** -/
theorem admitted_admitAll (schema : SchemaContext) (entries : List (List Char × Value Double)) :
    Admitted schema (admitAll schema entries) entries := by
  induction entries using List.reverseRecOn with
  | nil => exact ⟨rfl, fun _ h => h, fun _ h => .inl h, Nat.le_add_right _ _,
      fun _ => ⟨fun key hkey => by simp [newNames] at hkey, by simp [newNames, admitAll]⟩⟩
  | append_singleton entries entry ih =>
    have hmono := card_newNames_mono schema entries [entry]
    have hlimit := (admitAll_limits schema (entries ++ [entry])).1
    have hsub (key : List Char) (hkey : key ∈ newNames schema entries) :
        key ∈ newNames schema (entries ++ [entry]) := by
      obtain ⟨⟨value, hvalue⟩, hkey⟩ := mem_newNames.1 hkey
      exact mem_newNames.2 ⟨⟨value, mem_append_left _ hvalue⟩, hkey⟩
    rw [admitAll_snoc] at hlimit ⊢
    generalize admitAll schema entries = now at ih hlimit ⊢
    rcases admitEntry_cases now entry with ⟨hsame, hwhy⟩ | ⟨hreserved, hget, hsize⟩
    · rw [hsame]
      refine ⟨ih.limit, ih.keeps, fun key hkey => (ih.only key hkey).imp_right (hsub key),
        ih.atMost.trans (Nat.add_le_add_left hmono _), fun hroom => ?_⟩
      rcases hwhy with hreserved | ⟨-, -, hfull⟩
      · rw [newNames_snoc_eq (.inl hreserved)]
        exact ih.all hroom
      · rw [ih.limit] at hfull
        exact absurd hroom (Nat.not_lt.2 hfull)
    · have hhas := has_admitEntry hget
      rcases hsize with ⟨hin, hsize⟩ | ⟨hnew, hroom, hsize⟩
      · -- the name is there already
        have hnames : newNames schema (entries ++ [entry]) = newNames schema entries :=
          newNames_snoc_eq (.inr (ih.only entry.1 hin))
        have hsame (key : List Char) : (admitEntry now entry).Has key ↔ now.Has key :=
          (hhas key).trans ⟨fun h => h.elim (fun h => h ▸ hin) id, .inr⟩
        refine ⟨hlimit, fun key hkey => (hsame key).2 (ih.keeps key hkey), ?_, ?_, ?_⟩ <;>
          rw [hnames]
        · exact fun key hkey => ih.only key ((hsame key).1 hkey)
        · exact hsize ▸ ih.atMost
        intro hroom
        rw [hsize] at hroom ⊢
        exact ⟨fun key hkey => (hsame key).2 ((ih.all hroom).1 key hkey), (ih.all hroom).2⟩
      · -- the name is new to the schema, and was not among the fields before
        have hroom' : now.size < schema.maxFields := ih.limit ▸ hroom
        obtain ⟨hall, hcount⟩ := ih.all hroom'
        have hnew' : ¬ schema.Has entry.1 := fun h => hnew (ih.keeps _ h)
        have hnames : newNames schema (entries ++ [entry]) =
            insert entry.1 (newNames schema entries) := newNames_snoc_of hreserved hnew'
        have hcard : (newNames schema (entries ++ [entry])).card =
            (newNames schema entries).card + 1 := by
          rw [hnames, Finset.card_insert_of_notMem fun h => hnew (hall _ h)]
        refine ⟨hlimit, fun key hkey => (hhas key).2 (.inr (ih.keeps key hkey)), fun key hkey => ?_,
          by rw [hsize, hcard, hcount, Nat.add_assoc], fun _ => ⟨fun key hkey => ?_, ?_⟩⟩
        · rw [hnames, Finset.mem_insert]
          rcases (hhas key).1 hkey with rfl | hkey
          · exact .inr (.inl rfl)
          · exact (ih.only key hkey).imp_right .inr
        · rw [hnames, Finset.mem_insert] at hkey
          exact (hhas key).2 (hkey.imp_right (hall key))
        · rw [hsize, hcard, hcount, Nat.add_assoc]

/-- **A name is admitted**: the schema has it, or it stands among the fields where the schema is not
full of the names before it. -/
def Admits (schema : SchemaContext) (entries : List (List Char × Value Double))
    (field : List Char) : Prop :=
  schema.Has field ∨ isReserved field = false ∧ ∃ before after value,
    entries = before ++ (field, value) :: after ∧
      schema.size + (newNames schema before).card < schema.maxFields

/-- The values under a name. -/
def valuesOf (entries : List (List Char × Value Double)) (field : List Char) :
    List (Option (Value Double)) :=
  (entries.filter fun entry => entry.1 = field).map fun entry => some entry.2

theorem Admits.append (h : Admits schema entries field)
    (more : List (List Char × Value Double)) : Admits schema (entries ++ more) field := by
  refine h.imp_right ?_
  rintro ⟨hreserved, before, after, value, rfl, hroom⟩
  exact ⟨hreserved, before, after ++ more, value, by rw [append_assoc, cons_append],
    hroom⟩

theorem size_admitAll_lt : (admitAll schema entries).size < schema.maxFields ↔
    schema.size + (newNames schema entries).card < schema.maxFields := by
  have h := admitted_admitAll schema entries
  exact ⟨fun hroom => (h.all hroom).2 ▸ hroom, h.atMost.trans_lt⟩

/-- The last field decides for its own name only. -/
theorem admits_snoc : Admits schema (entries ++ [entry]) field ↔
    Admits schema entries field ∨ (isReserved field = false ∧ entry.1 = field ∧
      (admitAll schema entries).size < schema.maxFields) := by
  constructor
  · rintro (hhas | ⟨hreserved, before, after, value, hsplit, hroom⟩)
    · exact .inl (.inl hhas)
    · rcases eq_nil_or_concat after with rfl | ⟨init, last, rfl⟩
      · obtain ⟨rfl, hlast⟩ := append_inj' hsplit rfl
        obtain rfl := singleton_inj.1 hlast
        exact .inr ⟨hreserved, rfl, size_admitAll_lt.2 hroom⟩
      · rw [concat_eq_append, ← cons_append, ← append_assoc] at hsplit
        obtain ⟨rfl, -⟩ := append_inj' hsplit rfl
        exact .inl (.inr ⟨hreserved, before, init, value, rfl, hroom⟩)
  · rintro (h | ⟨hreserved, rfl, hroom⟩)
    · exact h.append _
    · exact .inr ⟨hreserved, entries, [], entry.2, rfl, size_admitAll_lt.1 hroom⟩

theorem valuesOf_eq_nil (hnot : ¬ Admits schema entries field)
    (hreserved : isReserved field = false)
    (hroom : schema.size + (newNames schema entries).card < schema.maxFields) :
    valuesOf entries field = [] := by
  rw [valuesOf, map_eq_nil_iff, filter_eq_nil_iff]
  intro entry hentry hkey
  obtain rfl := of_decide_eq_true hkey
  obtain ⟨before, after, rfl⟩ := append_of_mem hentry
  exact hnot (.inr ⟨hreserved, before, after, entry.2, rfl,
    (Nat.add_le_add_left (card_newNames_mono schema before _) _).trans_lt hroom⟩)

theorem kindAfter_append (known : Option FieldType) (values more : List (Option (Value Double))) :
    kindAfter known (values ++ more) = kindAfter (kindAfter known values) more :=
  foldl_append

theorem valuesOf_append (entries more : List (List Char × Value Double)) (field : List Char) :
    valuesOf (entries ++ more) field = valuesOf entries field ++ valuesOf more field := by
  rw [valuesOf, filter_append, map_append]
  rfl

/-- **The schema has the names that are admitted.** -/
theorem has_admitAll (hreserved : isReserved field = false) :
    (admitAll schema entries).Has field ↔ Admits schema entries field := by
  induction entries using List.reverseRecOn with
  | nil =>
    refine ⟨.inl, fun hadmits => hadmits.resolve_right ?_⟩
    rintro ⟨-, before, after, value, hsplit, -⟩
    exact append_ne_nil_of_right_ne_nil before (cons_ne_nil _ after) hsplit.symm
  | append_singleton entries entry ih =>
    have hlimit := (admitAll_limits schema entries).1
    rw [admits_snoc, admitAll_snoc, ← ih]
    rcases admitEntry_cases (admitAll schema entries) entry with ⟨hsame, hwhy⟩ | ⟨-, hget, hsize⟩
    · rw [hsame]
      refine ⟨.inl, fun h => h.resolve_right ?_⟩
      rintro ⟨-, rfl, hroom⟩
      rcases hwhy with hwhy | ⟨-, -, hfull⟩
      · rw [hreserved] at hwhy
        cases hwhy
      · exact absurd hroom (Nat.not_lt.2 (hlimit ▸ hfull))
    · rw [has_admitEntry hget]
      constructor
      · rintro (rfl | hhas)
        · exact hsize.imp And.left fun hnew => ⟨hreserved, rfl, hlimit ▸ hnew.2.1⟩
        · exact .inl hhas
      · rintro (hhas | ⟨-, rfl, -⟩)
        · exact .inr hhas
        · exact .inl rfl

theorem get?_admitAll_of_not (hreserved : isReserved field = false)
    (hnot : ¬ Admits schema entries field) : (admitAll schema entries).fields.get? field = none :=
  Option.not_isSome_iff_eq_none.1 fun hhas => hnot ((has_admitAll hreserved).1 hhas)

/-- **The type of a field in the schema** is that of all its values. -/
theorem get?_admitAll (hreserved : isReserved field = false)
    (hadmits : Admits schema entries field) : (admitAll schema entries).fields.get? field =
      kindAfter (schema.fields.get? field) (valuesOf entries field) := by
  induction entries using List.reverseRecOn with
  | nil => rfl
  | append_singleton entries entry ih =>
    have hhas := (has_admitAll hreserved).2 hadmits
    have hlimit := (admitAll_limits schema entries).1
    rw [admits_snoc] at hadmits
    rw [admitAll_snoc] at hhas ⊢
    rw [valuesOf_append, kindAfter_append]
    by_cases hkey : entry.1 = field
    · have hvalue : valuesOf [entry] field = [some entry.2] := by
        rw [valuesOf, filter_singleton, decide_eq_true hkey]
        rfl
      rw [hvalue]
      rcases admitEntry_cases (admitAll schema entries) entry with ⟨hsame, hwhy⟩ | ⟨-, hget, -⟩
      · -- it is not left out, as the schema has it
        rw [hsame] at hhas
        rcases hwhy with hwhy | ⟨-, hnew, -⟩
        · rw [hkey, hreserved] at hwhy
          cases hwhy
        · exact absurd hhas (hkey ▸ hnew)
      · rw [hget, if_pos hkey.symm, hkey]
        refine congrArg (observeValue · (some entry.2)) ?_
        by_cases hbefore : Admits schema entries field
        · exact ih hbefore
        · obtain ⟨-, -, hroom⟩ := hadmits.resolve_left hbefore
          rw [get?_admitAll_of_not hreserved hbefore,
            valuesOf_eq_nil hbefore hreserved (size_admitAll_lt.1 hroom)]
          exact (Option.not_isSome_iff_eq_none.1 fun h => hbefore (.inl h)).symm
    · have hvalue : valuesOf [entry] field = [] := by
        rw [valuesOf, filter_singleton, decide_eq_false hkey]
        rfl
      have hbefore : Admits schema entries field :=
        hadmits.resolve_right fun hother => hkey hother.2.1
      rw [hvalue]
      refine Eq.trans ?_ (ih hbefore)
      rcases admitEntry_cases (admitAll schema entries) entry with ⟨hsame, -⟩ | ⟨-, hget, -⟩
      · rw [hsame]
      · rw [hget, if_neg (Ne.symm hkey)]

end Lvu.Query.Adapter
