import Lvu.Query.ColumnStats
import Mathlib.Data.List.Dedup
import Mathlib.Data.List.Infix
import Mathlib.Data.List.Sort

/-!
# The figures of a column

The figures of a pass are those of all rows at once, however the rows are cut into batches, if every
two extremes that meet are merged in the order of the column.

* `Faithful` : the figures are those of the rows.
* `reads_iff` : when the texts of two values are merged in the order of the values.
* `isExtreme_merge` : then, and only then, the merged extreme is an extreme.
* `Tallies` : what a table of counts says of the values; `Tallies.append` is of two parts.
* `figures_of_batches` : **when the figures do not depend on the batches**.
-/

namespace Lvu.Query.ColumnStats

open List

open Binary (Floating Format)

/-! ### The order of a column -/

namespace Value

variable {smaller : Bool} {u v w : Value}

/-- Values of one type that come before one another are strictly weakly ordered. -/
theorem before_or (huv : u.dtype = v.dtype) (hvw : v.dtype = w.dtype)
    (h : u.before smaller w = true) : u.before smaller v = true ∨ v.before smaller w = true := by
  cases u <;> cases v <;> cases w <;> simp only [dtype, reduceCtorEq] at huv hvw <;>
    simp only [before, decide_eq_true_eq] at h ⊢
  · split_ifs at h ⊢ <;> omega
  · rename_i x y z
    obtain ⟨hx, hz⟩ := h
    unfold FloatBefore
    by_cases hy : y.IsNaN
    · exact .inl ⟨hx, .inl hy⟩
    · rcases hz with hz | hz
      · exact .inr ⟨hy, .inl hz⟩
      · split_ifs at hz ⊢
        · rcases lt_or_ge x.key y.key with hlt | hge
          · exact .inl ⟨hx, .inr hlt⟩
          · exact .inr ⟨hy, .inr (by omega)⟩
        · rcases lt_or_ge y.key x.key with hlt | hge
          · exact .inl ⟨hx, .inr hlt⟩
          · exact .inr ⟨hy, .inr (by omega)⟩
  · rename_i a b c
    revert h
    cases smaller <;> cases a <;> cases b <;> cases c <;> decide
  · rename_i s t r
    split_ifs at h ⊢
    · rcases lt_or_ge s t with hlt | hge
      · exact .inl hlt
      · exact .inr (hge.trans_lt h)
    · rcases lt_or_ge t s with hlt | hge
      · exact .inl hlt
      · exact .inr (h.trans_le hge)

theorem before_irrefl (v : Value) : v.before smaller v = false := by
  cases v <;> simp only [before, decide_eq_false_iff_not]
  · split_ifs <;> omega
  · rintro ⟨hx, hnan | hlt⟩
    · exact hx hnan
    · split_ifs at hlt <;> omega
  · split_ifs <;> exact lt_irrefl _
  · split_ifs <;> exact lt_irrefl _

theorem before_asymm (h : v.before smaller w = true) : w.before smaller v = false := by
  cases v <;> cases w <;> simp only [before, decide_eq_true_eq, decide_eq_false_iff_not,
    Bool.false_eq_true] at h ⊢
  · split_ifs at h ⊢ <;> omega
  · rintro ⟨hy, hx | hlt⟩
    · exact h.1 hx
    · have hlt' := h.2.resolve_left hy
      split_ifs at hlt hlt' <;> omega
  · split_ifs at h ⊢ <;> exact lt_asymm h
  · split_ifs at h ⊢ <;> exact lt_asymm h

end Value

/-- A value that nothing comes before. -/
def Best (smaller : Bool) (values : List Value) (v : Value) : Prop :=
  v ∈ values ∧ ∀ w ∈ values, w.before smaller v = false

/-- What the documentation of the engine says: its extremes are extremes, and it sorts by descending
counts, whatever it does with equal ones. -/
structure Engine.Documented (engine : Engine) : Prop where
  extreme : ∀ smaller values d, values ≠ [] → (∀ v ∈ values, v.dtype = d) →
    ∃ v, engine.extreme smaller values = some v ∧ Best smaller values v
  sort_perm : ∀ entries, (engine.sortByCount entries).Perm entries
  sorted : ∀ entries, (engine.sortByCount entries).Pairwise fun a b => b.2 ≤ a.2

/-- The text of a double reads as the double. -/
def Engine.Spells (engine : Engine) (x : Floating .f64) : Prop :=
  ∃ y, Floating.parse .f64 (engine.spell x) = some y ∧ (y = x ∨ y.IsNaN ∧ x.IsNaN)

/-- A double that is spelled so that it reads back; of the others nothing is asked. -/
def Engine.SpellsValue (engine : Engine) : Value → Prop
  | .float x => engine.Spells x
  | _ => True

variable (engine : Engine)

theorem decimal_injective {m n : ℤ} (h : decimal m = decimal n) : m = n := by
  have hm := readSigned_decimal m
  rw [h, readSigned_decimal] at hm
  exact (Option.some.inj hm).symm

/-- **Values with one text are equal in the order of the column.** -/
theorem before_eq_false_of_text {smaller : Bool} {v w : Value} (hv : engine.SpellsValue v)
    (hw : engine.SpellsValue w) (htext : v.text engine = w.text engine)
    (hdtype : v.dtype = w.dtype) : v.before smaller w = false := by
  cases v <;> cases w <;> simp only [Value.dtype, reduceCtorEq] at hdtype
  · simp only [Value.text] at htext
    obtain rfl := decimal_injective htext
    exact Value.before_irrefl _
  · rename_i x y
    simp only [Value.text] at htext
    obtain ⟨x', hx', hx⟩ := hv
    obtain ⟨y', hy', hy⟩ := hw
    rw [htext, hy'] at hx'
    obtain rfl := Option.some.inj hx'
    rw [Bool.eq_false_iff]
    simp only [Value.before, ne_eq, decide_eq_true_eq]
    intro hbefore
    obtain rfl := hx.resolve_right fun h => hbefore.1 h.2
    obtain rfl := hy.resolve_right fun h => hbefore.1 h.1
    have hirrefl : (Value.float y').before smaller (.float y') = false := Value.before_irrefl _
    simp only [Value.before, decide_eq_false_iff_not] at hirrefl
    exact hirrefl hbefore
  · rename_i a b
    have hinjective : ∀ a b : Bool, boolText a = boolText b → a = b := by decide
    rw [hinjective a b htext]
    exact Value.before_irrefl _
  · simp only [Value.text] at htext
    rw [htext]
    exact Value.before_irrefl _

/-! ### Two extremes that meet -/

/-- The extremes are merged in the order of the column: of two integers the one that comes before
reads as another double; what is no number does not meet a number that comes later; texts that read
as numbers are ordered as the numbers. -/
def Reads (smaller : Bool) : Value → Value → Prop
  | .integer held, .integer candidate =>
    (Value.integer candidate).before smaller (.integer held) = true →
      Floating.nearestKey .f64 candidate ≠ Floating.nearestKey .f64 held
  | .float held, .float candidate => held.IsNaN → candidate.IsNaN
  | .string held, .string candidate =>
    ∀ x ∈ Floating.parse .f64 held, ∀ y ∈ Floating.parse .f64 candidate,
      ((Value.string candidate).before smaller (.string held) = true ↔
        if smaller then y.Less x else x.Less y)
  | _, _ => True

theorem replaces_boolText : ∀ smaller a b,
    ((Value.boolean b).before smaller (.boolean a) = true →
      replaces smaller (boolText a) (boolText b) = true) ∧
    ((Value.boolean a).before smaller (.boolean b) = true →
      replaces smaller (boolText a) (boolText b) = false) := by
  decide

/-- **When the texts of two values are merged in the order of the values.** -/
theorem reads_iff {smaller : Bool} {held candidate : Value} (hheld : engine.SpellsValue held)
    (hcandidate : engine.SpellsValue candidate) (hdtype : held.dtype = candidate.dtype) :
    Reads smaller held candidate ↔
      (candidate.before smaller held = true →
        replaces smaller (held.text engine) (candidate.text engine) = true) ∧
      (held.before smaller candidate = true →
        replaces smaller (held.text engine) (candidate.text engine) = false) := by
  cases held <;> cases candidate <;> simp only [Value.dtype, reduceCtorEq] at hdtype
  · rename_i m n
    have hmn := Floating.nearestKey_mono .f64 (m := m) (n := n)
    have hnm := Floating.nearestKey_mono .f64 (m := n) (n := m)
    have hless : ∀ a b : ℤ, (Floating.ofDecimal .f64 (decide (a < 0)) a.natAbs 0).Less
        (Floating.ofDecimal .f64 (decide (b < 0)) b.natAbs 0) ↔
          Floating.nearestKey .f64 a < Floating.nearestKey .f64 b := fun a b =>
      ⟨fun h => h.2.2, fun h => ⟨Floating.not_isNaN_ofDecimal _ _ _ _,
        Floating.not_isNaN_ofDecimal _ _ _ _, h⟩⟩
    simp only [Reads, Value.text, replaces, Floating.parse_decimal, Value.before, hless]
    cases smaller <;> simp only [Bool.false_eq_true, if_false, if_true, decide_eq_true_eq,
      decide_eq_false_iff_not] <;> omega
  · rename_i x y
    obtain ⟨x', hx', hx⟩ := hheld
    obtain ⟨y', hy', hy⟩ := hcandidate
    have hbefore : ∀ u v : Floating .f64,
        (Value.float u).before smaller (.float v) = true ↔ Value.FloatBefore smaller u v :=
      fun u v => decide_eq_true_iff
    have hreplaces : replaces smaller (engine.spell x) (engine.spell y) = true ↔
        if smaller then y'.Less x' else x'.Less y' := by
      rw [replaces, hx', hy']
      exact decide_eq_true_iff
    simp only [Reads, Value.text, ← Bool.not_eq_true, hreplaces, hbefore, Value.FloatBefore]
    by_cases hxnan : x.IsNaN
    · -- what is no number is not replaced
      have hxnan' : x'.IsNaN := by
        rcases hx with rfl | hx
        · exact hxnan
        · exact hx.1
      have hkept : ¬ if smaller then y'.Less x' else x'.Less y' := by
        split_ifs
        · exact fun h => h.2.1 hxnan'
        · exact fun h => h.1 hxnan'
      simp [hxnan, hkept]
    · obtain rfl := hx.resolve_right fun h => hxnan h.2
      by_cases hynan : y.IsNaN
      · have hynan' : y'.IsNaN := by
          rcases hy with rfl | hy
          · exact hynan
          · exact hy.1
        have hkept : ¬ if smaller then y'.Less x' else x'.Less y' := by
          split_ifs
          · exact fun h => h.1 hynan'
          · exact fun h => h.2.1 hynan'
        simp [hxnan, hynan, hkept]
      · obtain rfl := hy.resolve_right fun h => hynan h.2
        cases smaller <;> simp [hxnan, hynan, Floating.Less] <;> omega
  · rename_i a b
    simp only [Reads, true_iff]
    exact replaces_boolText smaller a b
  · rename_i s t
    have hbefore : ∀ u v : List Char, (Value.string u).before smaller (.string v) = true ↔
        if smaller then u < v else v < u := fun u v => decide_eq_true_iff
    have hlexical : (if smaller then t < s else s < t) → ¬ if smaller then s < t else t < s := by
      split_ifs <;> exact lt_asymm
    simp only [Reads, Value.text, hbefore, ← Bool.not_eq_true]
    cases hs : Floating.parse .f64 s with
    | none =>
      have hreplaces : replaces smaller s t = true ↔ if smaller then t < s else s < t := by
        rw [replaces, hs]
        exact decide_eq_true_iff
      simp only [Option.mem_def, reduceCtorEq, false_implies, implies_true, true_iff, hreplaces]
      exact ⟨fun h => h, fun h h' => hlexical h' h⟩
    | some x =>
      cases ht : Floating.parse .f64 t with
      | none =>
        have hreplaces : replaces smaller s t = true ↔ if smaller then t < s else s < t := by
          rw [replaces, hs, ht]
          exact decide_eq_true_iff
        simp only [Option.mem_def, reduceCtorEq, false_implies, implies_true, true_iff, hreplaces]
        exact ⟨fun h => h, fun h h' => hlexical h' h⟩
      | some y =>
        have hreplaces : replaces smaller s t = true ↔ if smaller then y.Less x else x.Less y := by
          rw [replaces, hs, ht]
          exact decide_eq_true_iff
        simp only [Option.mem_some_iff, forall_eq', hreplaces]
        rcases eq_or_ne s t with rfl | hne
        · -- equal texts read as equal numbers
          rw [hs] at ht
          cases ht
          cases smaller <;> simp [Floating.Less]
        · have hor : (if smaller then t < s else s < t) ∨ if smaller then s < t else t < s := by
            split_ifs
            · exact hne.lt_or_gt.symm
            · exact hne.lt_or_gt
          tauto

variable {d : Dtype} {table : List (List Char × ℕ)} {texts : List (List Char)}

/-- Extremes that are equal in the order of the column are merged alike. -/
theorem Reads.congr {smaller : Bool} {m m' c c' : Value} (hm : m.dtype = d) (hm' : m'.dtype = d)
    (hc : c.dtype = d) (hc' : c'.dtype = d) (hmm' : m.before smaller m' = false)
    (hm'm : m'.before smaller m = false) (hcc' : c.before smaller c' = false)
    (hc'c : c'.before smaller c = false) (h : Reads smaller m c) : Reads smaller m' c' := by
  have hfloat : ∀ {x y : Floating .f64}, (Value.float x).before smaller (.float y) = false →
      y.IsNaN → x.IsNaN := by
    intro x y hxy hy
    by_contra hx
    rw [Value.before, decide_eq_false_iff_not] at hxy
    exact hxy ⟨hx, .inl hy⟩
  have hinteger : ∀ {a b : ℤ}, (Value.integer a).before smaller (.integer b) = false →
      (Value.integer b).before smaller (.integer a) = false → a = b := by
    intro a b hab hba
    rw [Value.before, decide_eq_false_iff_not] at hab hba
    split_ifs at hab hba <;> omega
  have hstring : ∀ {a b : List Char}, (Value.string a).before smaller (.string b) = false →
      (Value.string b).before smaller (.string a) = false → a = b := by
    intro a b hab hba
    rw [Value.before, decide_eq_false_iff_not] at hab hba
    split_ifs at hab hba
    · exact le_antisymm (not_lt.1 hba) (not_lt.1 hab)
    · exact le_antisymm (not_lt.1 hab) (not_lt.1 hba)
  subst hm
  cases m <;> cases m' <;> simp only [Value.dtype, reduceCtorEq] at hm' <;>
    cases c <;> simp only [Value.dtype, reduceCtorEq] at hc <;>
    cases c' <;> simp only [Value.dtype, reduceCtorEq] at hc'
  · obtain rfl := hinteger hmm' hm'm
    obtain rfl := hinteger hcc' hc'c
    exact h
  · exact fun hx => hfloat hc'c (h (hfloat hmm' hx))
  · trivial
  · obtain rfl := hstring hmm' hm'm
    obtain rfl := hstring hcc' hc'c
    exact h

/-! ### Two batches -/

variable {engine}

/-- **The merged extreme is an extreme** if and only if the two are merged in the order of the
column. -/
theorem best_append {smaller : Bool} {left right : List Value} {held candidate : Value}
    (hdtype : ∀ v ∈ left ++ right, v.dtype = d) (hspell : ∀ v ∈ left ++ right, engine.SpellsValue v)
    (hheld : Best smaller left held) (hcandidate : Best smaller right candidate) :
    (∃ v, Best smaller (left ++ right) v ∧
        (if replaces smaller (held.text engine) (candidate.text engine) = true then
          candidate.text engine else held.text engine) = v.text engine) ↔
      Reads smaller held candidate := by
  have hmem := mem_append_left right hheld.1
  have hmem' := mem_append_right left hcandidate.1
  have htype : ∀ {v w}, v ∈ left ++ right → w ∈ left ++ right → v.dtype = w.dtype := fun hv hw =>
    (hdtype _ hv).trans (hdtype _ hw).symm
  rw [reads_iff engine (hspell _ hmem) (hspell _ hmem') (htype hmem hmem')]
  constructor
  · rintro ⟨v, ⟨hv, hbest⟩, htext⟩
    constructor
    · -- the text held cannot be that of the extreme: the candidate comes before it
      intro hbefore
      by_contra hkept
      rw [if_neg hkept] at htext
      have hequal : v.before smaller held = false := before_eq_false_of_text engine (hspell _ hv)
        (hspell _ hmem) htext.symm (htype hv hmem)
      rcases Value.before_or (htype hmem' hv) (htype hv hmem) hbefore with h | h
      · rw [hbest _ hmem'] at h
        cases h
      · rw [hequal] at h
        cases h
    · intro hbefore
      by_contra htaken
      rw [Bool.not_eq_false] at htaken
      rw [if_pos htaken] at htext
      have hequal : v.before smaller candidate = false := before_eq_false_of_text engine
        (hspell _ hv) (hspell _ hmem') htext.symm (htype hv hmem')
      rcases Value.before_or (htype hmem hv) (htype hv hmem') hbefore with h | h
      · rw [hbest _ hmem] at h
        cases h
      · rw [hequal] at h
        cases h
  · rintro ⟨htake, hkeep⟩
    by_cases htaken : replaces smaller (held.text engine) (candidate.text engine) = true
    · refine ⟨candidate, ⟨hmem', fun w hw => ?_⟩, if_pos htaken⟩
      rcases mem_append.1 hw with hleft | hright
      · by_contra h
        rw [Bool.not_eq_false] at h
        rcases Value.before_or (htype hw hmem) (htype hmem hmem') h with h | h
        · rw [hheld.2 w hleft] at h
          cases h
        · rw [hkeep h] at htaken
          cases htaken
      · exact hcandidate.2 w hright
    · refine ⟨held, ⟨hmem, fun w hw => ?_⟩, if_neg htaken⟩
      rcases mem_append.1 hw with hleft | hright
      · exact hheld.2 w hleft
      · by_contra h
        rw [Bool.not_eq_false] at h
        rcases Value.before_or (htype hw hmem') (htype hmem' hmem) h with h | h
        · rw [hcandidate.2 w hright] at h
          cases h
        · exact htaken (htake h)

/-- The text is that of an extreme of the values; without values there is none. -/
def IsExtreme (engine : Engine) (smaller : Bool) (values : List Value)
    (text : Option (List Char)) : Prop :=
  if values = [] then text = none else ∃ v, Best smaller values v ∧ text = some (v.text engine)

/-- The extreme of a batch, as text. -/
def batchExtreme (engine : Engine) (smaller : Bool) (values : List Value) : Option (List Char) :=
  if values = [] then none else (engine.extreme smaller values).map (Value.text engine)

/-- **The extreme of one batch more**: it is exact if and only if any two extremes that meet are
merged in the order of the column. -/
theorem isExtreme_merge (hengine : engine.Documented) {smaller : Bool} {left right : List Value}
    {held : Option (List Char)} (hdtype : ∀ v ∈ left ++ right, v.dtype = d)
    (hspell : ∀ v ∈ left ++ right, engine.SpellsValue v)
    (hheld : IsExtreme engine smaller left held) :
    IsExtreme engine smaller (left ++ right)
        (mergeExtreme smaller held (batchExtreme engine smaller right)) ↔
      ∀ m c, Best smaller left m → Best smaller right c → Reads smaller m c := by
  have hnil : ∀ {v}, ¬ Best smaller [] v := fun h => not_mem_nil h.1
  have hsingle : ∀ {values : List Value}, values ≠ [] → (∀ v ∈ values, v.dtype = d) → ∃ v,
      Best smaller values v ∧ batchExtreme engine smaller values = some (v.text engine) := by
    intro values hne htype
    obtain ⟨v, hv, hbest⟩ := hengine.extreme smaller values d hne htype
    exact ⟨v, hbest, by rw [batchExtreme, if_neg hne, hv, Option.map_some]⟩
  rcases eq_or_ne right [] with rfl | hright
  · rw [append_nil]
    exact iff_of_true hheld fun m c _ hc => (hnil hc).elim
  · obtain ⟨c, hc, hctext⟩ := hsingle hright fun v hv => hdtype v (mem_append_right _ hv)
    rw [hctext]
    rcases eq_or_ne left [] with rfl | hleft
    · rw [IsExtreme, if_pos rfl] at hheld
      rw [hheld, nil_append, IsExtreme, if_neg hright]
      exact iff_of_true ⟨c, hc, rfl⟩ fun m c hm _ => (hnil hm).elim
    · rw [IsExtreme, if_neg hleft] at hheld
      obtain ⟨m, hm, rfl⟩ := hheld
      have happend : left ++ right ≠ [] := fun h => hleft (append_eq_nil_iff.1 h).1
      have hmerge : mergeExtreme smaller (some (m.text engine)) (some (c.text engine)) =
          some (if replaces smaller (m.text engine) (c.text engine) = true then c.text engine
            else m.text engine) := by
        simp only [mergeExtreme]
        split_ifs <;> rfl
      rw [IsExtreme, if_neg happend, hmerge]
      simp only [Option.some.injEq]
      rw [best_append hdtype hspell hm hc]
      constructor
      · intro h m' c' hm' hc'
        have htype : ∀ {v}, v ∈ left → v.dtype = d := fun hv =>
          hdtype _ (mem_append_left _ hv)
        have htype' : ∀ {v}, v ∈ right → v.dtype = d := fun hv =>
          hdtype _ (mem_append_right _ hv)
        exact h.congr (htype hm.1) (htype hm'.1) (htype' hc.1) (htype' hc'.1) (hm'.2 m hm.1)
          (hm.2 m' hm'.1) (hc'.2 c hc.1) (hc.2 c' hc'.1)
      · exact fun h => h m c hm hc

/-! ### Counts -/

/-- The counts of a text, summed. -/
def weight (entries : List (List Char × ℕ)) (text : List Char) : ℕ :=
  ((entries.filter fun entry => entry.1 = text).map Prod.snd).sum

/-- The table has every text once, and its count as far as it fits. -/
structure Tallies (engine : Engine) (texts : List (List Char))
    (table : List (List Char × ℕ)) : Prop where
  nodup : (table.map Prod.fst).Nodup
  mem_iff : ∀ text, text ∈ table.map Prod.fst ↔ text ∈ texts
  counts : ∀ text, weight table text = texts.count text % engine.modulus

theorem weight_append (left right : List (List Char × ℕ)) (text : List Char) :
    weight (left ++ right) text = weight left text + weight right text := by
  rw [weight, filter_append, map_append, sum_append]
  rfl

theorem weight_eq_zero {entries : List (List Char × ℕ)} {text : List Char}
    (h : text ∉ entries.map Prod.fst) : weight entries text = 0 := by
  have hnil : (entries.filter fun entry => entry.1 = text) = [] := by
    refine filter_eq_nil_iff.2 fun entry hentry => ?_
    simp only [decide_eq_true_eq]
    rintro rfl
    exact h (mem_map_of_mem hentry)
  rw [weight, hnil]
  rfl

theorem weight_ones (texts : List (List Char)) (text : List Char) :
    weight (texts.map fun text => (text, 1)) text = texts.count text := by
  induction texts with
  | nil => rfl
  | cons head rest ih =>
    rw [weight] at ih ⊢
    rw [map_cons, filter_cons, count_cons]
    by_cases h : head = text
    · simp only [h, decide_true, if_true, map_cons, sum_cons, ih, beq_self_eq_true]
      exact Nat.add_comm _ _
    · simp only [h, decide_false, Bool.false_eq_true, if_false, ih, beq_iff_eq, Nat.add_zero]

theorem weight_eq_of_mem (hnodup : (table.map Prod.fst).Nodup) {entry : List Char × ℕ}
    (h : entry ∈ table) : weight table entry.1 = entry.2 := by
  induction table with
  | nil => cases h
  | cons head rest ih =>
    rw [map_cons, nodup_cons] at hnodup
    have hcons : weight (head :: rest) entry.1 = weight [head] entry.1 + weight rest entry.1 :=
      weight_append [head] rest entry.1
    rw [hcons]
    rcases mem_cons.1 h with rfl | h
    · rw [weight_eq_zero hnodup.1]
      simp [weight]
    · have hne : head.1 ≠ entry.1 := by
        intro heq
        exact hnodup.1 (heq ▸ mem_map_of_mem h)
      rw [ih hnodup.2 h]
      simp [weight, hne]

/-- Grouping sums the weights. -/
theorem tallies_sumByValue {entries : List (List Char × ℕ)}
    (hmem : ∀ text, text ∈ entries.map Prod.fst ↔ text ∈ texts)
    (hcounts : ∀ text, weight entries text % engine.modulus = texts.count text % engine.modulus) :
    Tallies engine texts (sumByValue engine entries) := by
  have hkeys : (sumByValue engine entries).map Prod.fst = (entries.map Prod.fst).dedup := by
    rw [sumByValue, map_map]
    exact map_id _
  have hnodup : ((sumByValue engine entries).map Prod.fst).Nodup := by
    rw [hkeys]
    exact nodup_dedup _
  refine ⟨hnodup, fun text => ?_, fun text => ?_⟩
  · rw [hkeys, mem_dedup, hmem]
  · by_cases htext : text ∈ entries.map Prod.fst
    · have hentry : (text, weight entries text % engine.modulus) ∈ sumByValue engine entries :=
        mem_map.2 ⟨text, mem_dedup.2 htext, rfl⟩
      rw [weight_eq_of_mem hnodup hentry, hcounts]
    · have hzero : texts.count text = 0 := count_eq_zero.2 fun h => htext ((hmem text).2 h)
      rw [hzero, Nat.zero_mod]
      refine weight_eq_zero ?_
      rw [hkeys, mem_dedup]
      exact htext

theorem tallies_countByValue (texts : List (List Char)) :
    Tallies engine texts (countByValue engine texts) := by
  refine tallies_sumByValue (fun text => ?_) fun text => by rw [weight_ones]
  rw [map_map]
  exact iff_of_eq (congrArg _ (map_id texts))

/-- **One batch more is added to the counts.** -/
theorem Tallies.append {left right : List (List Char)} (h : Tallies engine left table) :
    Tallies engine (left ++ right) (sumByValue engine (table ++ countByValue engine right)) := by
  have hright : Tallies engine right (countByValue engine right) := tallies_countByValue right
  refine tallies_sumByValue (fun text => ?_) fun text => ?_
  · rw [map_append, mem_append, mem_append, h.mem_iff, hright.mem_iff]
  · rw [weight_append, h.counts, hright.counts, count_append, Nat.mod_add_mod, Nat.add_mod_mod]

theorem Tallies.length (h : Tallies engine texts table) : table.length = texts.dedup.length := by
  have hperm : (table.map Prod.fst).Perm texts.dedup :=
    (perm_ext_iff_of_nodup h.nodup (nodup_dedup _)).2 fun text => by
      rw [h.mem_iff, mem_dedup]
  rw [← length_map (f := Prod.fst), hperm.length_eq]

/-- The most frequent texts with their counts: as many as asked for. -/
structure TopExact (texts : List (List Char)) (n : ℕ) (top : List (List Char × ℕ)) : Prop where
  counts : ∀ entry ∈ top, entry.1 ∈ texts ∧ entry.2 = texts.count entry.1
  nodup : (top.map Prod.fst).Nodup
  length : top.length = min n texts.dedup.length
  sorted : top.Pairwise fun a b => b.2 ≤ a.2
  frequent : ∀ text ∈ texts, text ∉ top.map Prod.fst → ∀ entry ∈ top, texts.count text ≤ entry.2

/-- **The values shown are exact** if and only if every count fits, or none is shown. -/
theorem topExact_iff (hengine : engine.Documented) (h : Tallies engine texts table) (n : ℕ) :
    TopExact texts n ((engine.sortByCount table).take n) ↔
      n = 0 ∨ ∀ text ∈ texts, texts.count text % engine.modulus = texts.count text := by
  have hperm := hengine.sort_perm table
  have hsorted := hengine.sorted table
  have hentry : ∀ entry ∈ table, entry.2 = texts.count entry.1 % engine.modulus := by
    intro entry he
    rw [← weight_eq_of_mem h.nodup he, h.counts]
  have htake : ∀ entry ∈ (engine.sortByCount table).take n, entry ∈ table := fun entry he =>
    hperm.mem_iff.1 (mem_of_mem_take he)
  have hlength : ((engine.sortByCount table).take n).length = min n texts.dedup.length := by
    rw [length_take, hperm.length_eq, h.length]
  constructor
  · intro htop
    rcases Nat.eq_zero_or_pos n with hn | hn
    · exact .inl hn
    refine .inr fun text htext => ?_
    -- an entry shown has a count that fits, so a text with a greater count is not shown
    by_contra hwide
    have hmodulus : engine.modulus ≤ texts.count text ∧ 0 < engine.modulus := by
      rcases Nat.eq_zero_or_pos engine.modulus with hzero | hpos
      · rw [hzero, Nat.mod_zero] at hwide
        exact absurd rfl hwide
      · exact ⟨Nat.le_of_not_lt fun hlt => hwide (Nat.mod_eq_of_lt hlt), hpos⟩
    have hfits : ∀ entry ∈ (engine.sortByCount table).take n, entry.2 < engine.modulus :=
      fun entry he => by
        rw [hentry entry (htake entry he)]
        exact Nat.mod_lt _ hmodulus.2
    have hshown : text ∉ ((engine.sortByCount table).take n).map Prod.fst := by
      intro hmem
      obtain ⟨entry, he, rfl⟩ := mem_map.1 hmem
      have hlt := hfits entry he
      rw [(htop.counts entry he).2] at hlt
      omega
    obtain ⟨entry, he⟩ : ∃ entry, entry ∈ (engine.sortByCount table).take n := by
      refine exists_mem_of_length_pos ?_
      rw [hlength]
      have hpos := length_pos_of_mem (mem_dedup.2 htext)
      omega
    have hlt := hfits entry he
    have hle := htop.frequent text htext hshown entry he
    omega
  · intro hexact
    have hcounts : ∀ entry ∈ (engine.sortByCount table).take n,
        ∀ text ∈ texts, texts.count text % engine.modulus = texts.count text := by
      intro entry he
      refine hexact.resolve_left ?_
      rintro rfl
      cases he
    refine ⟨fun entry he => ?_, ?_, hlength, hsorted.sublist (take_sublist _ _), ?_⟩
    · have htext : entry.1 ∈ texts :=
        (h.mem_iff entry.1).1 (mem_map_of_mem (htake entry he))
      exact ⟨htext, by rw [hentry entry (htake entry he), hcounts entry he _ htext]⟩
    · exact ((hperm.map Prod.fst).nodup_iff.2 h.nodup).sublist ((take_sublist _ _).map _)
    · intro text htext hshown entry he
      obtain ⟨entry', he', rfl⟩ := mem_map.1 ((h.mem_iff text).2 htext)
      have hdrop : entry' ∈ (engine.sortByCount table).drop n := by
        have hmem := hperm.mem_iff.2 he'
        rw [← take_append_drop n (engine.sortByCount table)] at hmem
        exact (mem_append.1 hmem).resolve_left fun h => hshown (mem_map_of_mem h)
      have hle : entry'.2 ≤ entry.2 := by
        rw [← take_append_drop n (engine.sortByCount table)] at hsorted
        exact (pairwise_append.1 hsorted).2.2 entry he entry' hdrop
      rwa [hentry entry' he', hcounts entry he _ htext] at hle

/-! ### A pass -/

variable {ρ : Type} {request : Request ρ}

/-- The rows of the batches. -/
def rowsOf (batches : List (Batch ρ)) : List (Row ρ) := batches.flatMap Batch.rows

/-- The values of the batches. -/
def valuesOf (batches : List (Batch ρ)) : List Value := presentValues (rowsOf batches)

/-- The rows of a batch that has the column. -/
def Batch.frameRows : Batch ρ → List (Row ρ)
  | frame rows => rows
  | absent _ => []

/-- The rows of a batch that has it not. -/
def Batch.absentRows : Batch ρ → List (Row ρ)
  | frame _ => []
  | absent rests => rests.map (⟨none, ·⟩)

theorem rowsOf_concat (batches : List (Batch ρ)) (batch : Batch ρ) :
    rowsOf (batches ++ [batch]) = rowsOf batches ++ batch.rows := by
  simp [rowsOf]

theorem presentValues_append (left right : List (Row ρ)) :
    presentValues (left ++ right) = presentValues left ++ presentValues right :=
  filterMap_append

theorem valuesOf_concat (batches : List (Batch ρ)) (batch : Batch ρ) :
    valuesOf (batches ++ [batch]) = valuesOf batches ++ presentValues batch.rows := by
  rw [valuesOf, rowsOf_concat, presentValues_append]
  rfl

theorem run_concat (batches : List (Batch ρ)) (batch : Batch ρ) :
    run engine request (batches ++ [batch]) =
      step engine request (run engine request batches) batch := by
  rw [run, foldl_append]
  rfl

theorem satisfying_append (predicate : Option (Row ρ → Bool)) (left right : List (Row ρ)) :
    satisfying predicate (left ++ right) =
      satisfying predicate left + satisfying predicate right := by
  cases predicate with
  | none => rfl
  | some predicate => exact countP_append

theorem presentValues_absent (rests : List ρ) :
    presentValues (Batch.absent rests).rows = [] := by
  simp [presentValues, Batch.rows]

/-- **What a batch does to the figures.** -/
theorem push_aggregate (engine : Engine) (request : Request ρ) (a : Aggregator)
    (frame : List (Row ρ)) :
    (a.push engine request frame).aggregate.rows = saturatingAdd a.aggregate.rows frame.length ∧
    (a.push engine request frame).aggregate.present =
      saturatingAdd a.aggregate.present (presentValues frame).length ∧
    (a.push engine request frame).aggregate.matching =
      saturatingAdd a.aggregate.matching (satisfying request.predicate frame) ∧
    (a.push engine request frame).aggregate.minimum = mergeExtreme true a.aggregate.minimum
      (batchExtreme engine true (presentValues frame)) ∧
    (a.push engine request frame).aggregate.maximum = mergeExtreme false a.aggregate.maximum
      (batchExtreme engine false (presentValues frame)) ∧
    (a.push engine request frame).aggregate.distinct = a.aggregate.distinct ∧
    (a.push engine request frame).aggregate.top = a.aggregate.top := by
  unfold Aggregator.push
  dsimp only
  by_cases hvalues : presentValues frame = []
  · simp only [if_pos hvalues, batchExtreme, mergeExtreme, and_self]
  · simp only [if_neg hvalues, batchExtreme]
    unfold Aggregator.capped
    split_ifs <;> exact ⟨rfl, rfl, rfl, rfl, rfl, rfl, rfl⟩

/-- The counts are those of the texts, up to the width of a count. -/
def Counted (engine : Engine) (texts : List (List Char)) :
    Option (List (List Char × ℕ)) → Prop
  | none => texts = []
  | some table => Tallies engine texts table

/-- What a batch does to the counts, as long as they are under the cap. -/
theorem Counted.push {a : Aggregator} (frame : List (Row ρ)) (h : Counted engine texts a.counts)
    (hcap : (texts ++ (presentValues frame).map (Value.text engine)).dedup.length ≤
      request.distinctCap) :
    Counted engine (texts ++ (presentValues frame).map (Value.text engine))
      (a.push engine request frame).counts := by
  unfold Aggregator.push
  dsimp only
  by_cases hvalues : presentValues frame = []
  · rw [if_pos hvalues, hvalues, map_nil, append_nil]
    exact h
  · have hcapped : ∀ {b : Aggregator} {running : List (List Char × ℕ)},
        Tallies engine (texts ++ (presentValues frame).map (Value.text engine)) running →
        Counted engine (texts ++ (presentValues frame).map (Value.text engine))
          (b.capped engine request running).counts := by
      intro b running hrunning
      rw [Aggregator.capped, if_neg (by rw [hrunning.length]; exact Nat.not_lt.2 hcap)]
      exact hrunning
    rw [if_neg hvalues]
    cases hcounts : a.counts with
    | none =>
      rw [hcounts] at h
      obtain rfl : texts = [] := h
      exact hcapped (tallies_countByValue _)
    | some table =>
      rw [hcounts] at h
      exact hcapped (Tallies.append h)

theorem dedup_length_le (left right : List (List Char)) :
    left.dedup.length ≤ (left ++ right).dedup.length := by
  refine (subperm_of_subset (nodup_dedup _) fun text htext => ?_).length_le
  exact mem_dedup.2 (mem_append_left _ (mem_dedup.1 htext))

/-- The texts of the values of the batches. -/
def textsOf (engine : Engine) (batches : List (Batch ρ)) : List (List Char) :=
  (valuesOf batches).map (Value.text engine)

theorem textsOf_concat (batches : List (Batch ρ)) (batch : Batch ρ) :
    textsOf engine (batches ++ [batch]) =
      textsOf engine batches ++ (presentValues batch.rows).map (Value.text engine) := by
  rw [textsOf, valuesOf_concat, map_append]
  rfl

/-- **Under the cap the counts are those of all values**, up to the width of a count. -/
theorem counted_run (batches : List (Batch ρ))
    (hcap : (textsOf engine batches).dedup.length ≤ request.distinctCap) :
    Counted engine (textsOf engine batches) (run engine request batches).counts := by
  induction batches using List.reverseRecOn with
  | nil => rfl
  | append_singleton batches batch ih =>
    rw [textsOf_concat] at hcap ⊢
    have hcounted := ih ((dedup_length_le _ _).trans hcap)
    rw [run_concat]
    cases batch with
    | frame rows => exact hcounted.push rows hcap
    | absent rests =>
      rw [presentValues_absent, map_nil, append_nil]
      exact hcounted

theorem saturatingAdd_min (m n : ℕ) :
    saturatingAdd (min m (2 ^ 64 - 1)) n = min (m + n) (2 ^ 64 - 1) := by
  unfold saturatingAdd
  omega

/-- **The sums of a run.** -/
theorem run_sums (engine : Engine) (request : Request ρ) (batches : List (Batch ρ)) :
    (run engine request batches).aggregate.rows = min (rowsOf batches).length (2 ^ 64 - 1) ∧
    (run engine request batches).aggregate.present =
      min (valuesOf batches).length (2 ^ 64 - 1) ∧
    (run engine request batches).aggregate.matching =
      min (satisfying request.predicate (batches.flatMap Batch.frameRows)) (2 ^ 64 - 1) ∧
    (run engine request batches).aggregate.distinct = 0 ∧
    (run engine request batches).aggregate.top = [] := by
  induction batches using List.reverseRecOn with
  | nil =>
    refine ⟨rfl, rfl, ?_, rfl, rfl⟩
    cases hpredicate : request.predicate <;> rfl
  | append_singleton batches batch ih =>
    obtain ⟨hrows, hpresent, hmatching, hdistinct, htop⟩ := ih
    have hframes : (batches ++ [batch]).flatMap Batch.frameRows =
        batches.flatMap Batch.frameRows ++ batch.frameRows := by simp
    rw [run_concat, rowsOf_concat, valuesOf_concat, hframes, satisfying_append,
      length_append, length_append]
    cases batch with
    | frame rows =>
      obtain ⟨h₁, h₂, h₃, _, _, h₆, h₇⟩ :=
        push_aggregate engine request (run engine request batches) rows
      refine ⟨h₁.trans ?_, h₂.trans ?_, h₃.trans ?_, h₆.trans hdistinct, h₇.trans htop⟩
      · rw [hrows, saturatingAdd_min]
        rfl
      · rw [hpresent, saturatingAdd_min]
        rfl
      · rw [hmatching, saturatingAdd_min]
        rfl
    | absent rests =>
      refine ⟨?_, ?_, ?_, hdistinct, htop⟩
      · change saturatingAdd (run engine request batches).aggregate.rows rests.length = _
        rw [hrows, saturatingAdd_min, Batch.rows, length_map]
      · rw [presentValues_absent]
        exact hpresent
      · have hnone : satisfying request.predicate (Batch.absent rests).frameRows = 0 := by
          cases hpredicate : request.predicate <;> rfl
        rw [hnone]
        exact hmatching

/-! ### The figures -/

/-- The figures are those of the rows. -/
structure Faithful (engine : Engine) (request : Request ρ) (seen : List (Row ρ))
    (a : ColumnAggregate) : Prop where
  rows : a.rows = min seen.length (2 ^ 64 - 1)
  present : a.present = min (presentValues seen).length (2 ^ 64 - 1)
  matching : a.matching = min (satisfying request.predicate seen) (2 ^ 64 - 1)
  minimum : IsExtreme engine true (presentValues seen) a.minimum
  maximum : IsExtreme engine false (presentValues seen) a.maximum
  counts : ((presentValues seen).map (Value.text engine)).dedup.length ≤ request.distinctCap →
    a.distinct = ((presentValues seen).map (Value.text engine)).dedup.length ∧
      TopExact ((presentValues seen).map (Value.text engine)) (request.top % 2 ^ 32) a.top

/-- The counts of the batches can be told: the predicate holds of no row without the column, and
under the cap every count fits if any is shown. -/
structure Tellable (engine : Engine) (request : Request ρ) (batches : List (Batch ρ)) : Prop where
  absent : satisfying request.predicate (batches.flatMap Batch.absentRows) = 0 ∨
    2 ^ 64 - 1 ≤ satisfying request.predicate (batches.flatMap Batch.frameRows)
  counts : (textsOf engine batches).dedup.length ≤ request.distinctCap →
    request.top % 2 ^ 32 = 0 ∨ ∀ text ∈ textsOf engine batches,
      (textsOf engine batches).count text % engine.modulus = (textsOf engine batches).count text

/-- The extremes of what is pushed and of the next batch are merged in the order of the column. -/
def Meets (pushed : List (Batch ρ)) (batch : Batch ρ) : Prop :=
  ∀ smaller held candidate, Best smaller (valuesOf pushed) held →
    Best smaller (presentValues batch.rows) candidate → Reads smaller held candidate

/-- All rows that satisfy the predicate: those with the column and those without. -/
theorem satisfying_rowsOf (predicate : Option (Row ρ → Bool)) (batches : List (Batch ρ)) :
    satisfying predicate (rowsOf batches) =
      satisfying predicate (batches.flatMap Batch.frameRows) +
        satisfying predicate (batches.flatMap Batch.absentRows) := by
  induction batches with
  | nil => cases predicate <;> rfl
  | cons batch rest ih =>
    have hrows : rowsOf (batch :: rest) = batch.rows ++ rowsOf rest := by simp [rowsOf]
    have hbatch : satisfying predicate batch.rows =
        satisfying predicate batch.frameRows + satisfying predicate batch.absentRows := by
      cases batch <;> cases predicate <;> simp [Batch.rows, Batch.frameRows, Batch.absentRows,
        satisfying]
    rw [hrows, flatMap_cons, flatMap_cons, satisfying_append, satisfying_append,
      satisfying_append, ih, hbatch]
    omega

theorem run_extremes (engine : Engine) (request : Request ρ) (batches : List (Batch ρ))
    (batch : Batch ρ) :
    (run engine request (batches ++ [batch])).aggregate.minimum =
      mergeExtreme true (run engine request batches).aggregate.minimum
        (batchExtreme engine true (presentValues batch.rows)) ∧
    (run engine request (batches ++ [batch])).aggregate.maximum =
      mergeExtreme false (run engine request batches).aggregate.maximum
        (batchExtreme engine false (presentValues batch.rows)) := by
  rw [run_concat]
  cases batch with
  | frame rows =>
    obtain ⟨-, -, -, h₄, h₅, -⟩ :=
      push_aggregate engine request (run engine request batches) rows
    exact ⟨h₄, h₅⟩
  | absent rests =>
    rw [presentValues_absent]
    exact ⟨rfl, rfl⟩

theorem finish_extremes (engine : Engine) (request : Request ρ) (a : Aggregator) :
    (a.finish engine request).minimum = a.aggregate.minimum ∧
      (a.finish engine request).maximum = a.aggregate.maximum ∧
      (a.finish engine request).rows = a.aggregate.rows ∧
      (a.finish engine request).present = a.aggregate.present ∧
      (a.finish engine request).matching = a.aggregate.matching := by
  unfold Aggregator.finish
  cases a.counts <;> exact ⟨rfl, rfl, rfl, rfl, rfl⟩

/-- **The sums and counts are those of the rows** if and only if they can be told. -/
theorem tellable_iff (hengine : engine.Documented) (batches : List (Batch ρ)) :
    ((run engine request batches).finish engine request).matching =
        min (satisfying request.predicate (rowsOf batches)) (2 ^ 64 - 1) ∧
      ((textsOf engine batches).dedup.length ≤ request.distinctCap →
        ((run engine request batches).finish engine request).distinct =
          (textsOf engine batches).dedup.length ∧
        TopExact (textsOf engine batches) (request.top % 2 ^ 32)
          ((run engine request batches).finish engine request).top) ↔
      Tellable engine request batches := by
  obtain ⟨-, -, hmatching, hdistinct, htop⟩ := run_sums engine request batches
  have habsent : ((run engine request batches).finish engine request).matching =
      min (satisfying request.predicate (rowsOf batches)) (2 ^ 64 - 1) ↔
      satisfying request.predicate (batches.flatMap Batch.absentRows) = 0 ∨
        2 ^ 64 - 1 ≤ satisfying request.predicate (batches.flatMap Batch.frameRows) := by
    rw [(finish_extremes engine request _).2.2.2.2, hmatching, satisfying_rowsOf]
    omega
  have hcounts : (textsOf engine batches).dedup.length ≤ request.distinctCap →
      (((run engine request batches).finish engine request).distinct =
          (textsOf engine batches).dedup.length ∧
        TopExact (textsOf engine batches) (request.top % 2 ^ 32)
          ((run engine request batches).finish engine request).top ↔
      (request.top % 2 ^ 32 = 0 ∨ ∀ text ∈ textsOf engine batches,
        (textsOf engine batches).count text % engine.modulus =
          (textsOf engine batches).count text)) := by
    intro hcap
    have hcounted := counted_run batches hcap
    unfold Aggregator.finish
    cases htable : (run engine request batches).counts with
    | none =>
      -- there is no value
      rw [htable] at hcounted
      have hnil : textsOf engine batches = [] := hcounted
      simp only [hdistinct, htop, hnil]
      refine iff_of_true ⟨rfl, ?_⟩ (.inr nofun)
      exact ⟨nofun, nodup_nil, by simp, .nil, nofun⟩
    | some table =>
      rw [htable] at hcounted
      have htallies : Tallies engine (textsOf engine batches) table := hcounted
      simp only [htallies.length, true_and]
      exact topExact_iff hengine htallies _
  constructor
  · rintro ⟨hmatch, hexact⟩
    exact ⟨habsent.1 hmatch, fun hcap => (hcounts hcap).1 (hexact hcap)⟩
  · rintro ⟨hmatch, hfits⟩
    exact ⟨habsent.2 hmatch, fun hcap => (hcounts hcap).2 (hfits hcap)⟩

/-- **The extremes of every run are those of its values** if and only if any two that meet are
merged in the order of the column. -/
theorem extremes_iff (request : Request ρ) (hengine : engine.Documented) {batches : List (Batch ρ)}
    (hdtype : ∀ v ∈ valuesOf batches, v.dtype = d)
    (hspell : ∀ v ∈ valuesOf batches, engine.SpellsValue v) :
    (∀ pushed, pushed <+: batches →
      IsExtreme engine true (valuesOf pushed) (run engine request pushed).aggregate.minimum ∧
      IsExtreme engine false (valuesOf pushed) (run engine request pushed).aggregate.maximum) ↔
    ∀ pushed batch, pushed ++ [batch] <+: batches → Meets pushed batch := by
  have hvalues : ∀ {pushed}, pushed <+: batches → ∀ v ∈ valuesOf pushed, v ∈ valuesOf batches := by
    rintro pushed ⟨rest, rfl⟩ v hv
    rw [valuesOf, rowsOf, flatMap_append, presentValues_append]
    exact mem_append_left _ hv
  have hmerge : ∀ smaller pushed batch held, pushed ++ [batch] <+: batches →
      IsExtreme engine smaller (valuesOf pushed) held →
      (IsExtreme engine smaller (valuesOf (pushed ++ [batch]))
        (mergeExtreme smaller held (batchExtreme engine smaller (presentValues batch.rows))) ↔
      ∀ m c, Best smaller (valuesOf pushed) m → Best smaller (presentValues batch.rows) c →
        Reads smaller m c) := by
    intro smaller pushed batch held hprefix hheld
    have hsub := hvalues hprefix
    rw [valuesOf_concat] at hsub ⊢
    exact isExtreme_merge hengine (fun v hv => hdtype v (hsub v hv))
      (fun v hv => hspell v (hsub v hv)) hheld
  constructor
  · intro h pushed batch hprefix smaller
    obtain ⟨hmin, hmax⟩ := h pushed ((prefix_append _ _).trans hprefix)
    obtain ⟨hmin', hmax'⟩ := h _ hprefix
    obtain ⟨hrunmin, hrunmax⟩ := run_extremes engine request pushed batch
    rw [hrunmin] at hmin'
    rw [hrunmax] at hmax'
    cases smaller with
    | true => exact (hmerge true pushed batch _ hprefix hmin).1 hmin'
    | false => exact (hmerge false pushed batch _ hprefix hmax).1 hmax'
  · intro h pushed
    -- each batch keeps the extremes exact
    induction pushed using List.reverseRecOn with
    | nil => exact fun _ => ⟨rfl, rfl⟩
    | append_singleton pushed batch ih =>
      intro hprefix
      obtain ⟨hmin, hmax⟩ := ih ((prefix_append _ _).trans hprefix)
      obtain ⟨hrunmin, hrunmax⟩ := run_extremes engine request pushed batch
      rw [hrunmin, hrunmax]
      exact ⟨(hmerge true pushed batch _ hprefix hmin).2 (h pushed batch hprefix true),
        (hmerge false pushed batch _ hprefix hmax).2 (h pushed batch hprefix false)⟩

/-- **When the figures do not depend on the batches**: after every batch they are those of the rows
so far, if and only if the counts can be told and any two extremes that meet are merged in the order
of the column. -/
theorem figures_of_batches (hengine : engine.Documented) {d : Dtype} {batches : List (Batch ρ)}
    (hdtype : ∀ v ∈ valuesOf batches, v.dtype = d)
    (hspell : ∀ v ∈ valuesOf batches, engine.SpellsValue v) :
    (∀ pushed, pushed <+: batches → Faithful engine request (rowsOf pushed)
      ((run engine request pushed).finish engine request)) ↔
    (∀ pushed, pushed <+: batches → Tellable engine request pushed) ∧
      ∀ pushed batch, pushed ++ [batch] <+: batches → Meets pushed batch := by
  rw [← extremes_iff request hengine hdtype hspell]
  constructor
  · intro h
    refine ⟨fun pushed hprefix => ?_, fun pushed hprefix => ?_⟩
    · have hfaithful := h pushed hprefix
      exact (tellable_iff hengine pushed).1 ⟨hfaithful.matching, hfaithful.counts⟩
    · have hfaithful := h pushed hprefix
      obtain ⟨hmin, hmax, -⟩ := finish_extremes engine request (run engine request pushed)
      exact ⟨hmin ▸ hfaithful.minimum, hmax ▸ hfaithful.maximum⟩
  · rintro ⟨htellable, hextremes⟩ pushed hprefix
    obtain ⟨hmatching, hcounts⟩ := (tellable_iff hengine pushed).2 (htellable pushed hprefix)
    obtain ⟨hmin, hmax⟩ := hextremes pushed hprefix
    obtain ⟨hmin', hmax', hrows', hpresent', -⟩ :=
      finish_extremes engine request (run engine request pushed)
    obtain ⟨hrows, hpresent, -⟩ := run_sums engine request pushed
    exact ⟨hrows'.trans hrows, hpresent'.trans hpresent, hmatching, hmin' ▸ hmin, hmax' ▸ hmax,
      hcounts⟩

/-! ### Two columns -/

/-- The first of the extremes. -/
def firstExtreme (smaller : Bool) : List Value → Option Value
  | [] => none
  | v :: rest =>
    match firstExtreme smaller rest with
    | none => some v
    | some w => if w.before smaller v then some w else some v

/-- An engine that takes the first of equal extremes, keeps the order of equal counts and counts in
32 bits; of the doubles it spells one, and what is no number. -/
def firstEngine : Engine :=
  ⟨fun x => if x.IsNaN then ['N', 'a', 'N'] else ['1', '.', '0'], firstExtreme,
    List.insertionSort fun a b => b.2 ≤ a.2, 2 ^ 32⟩

theorem best_firstExtreme {smaller : Bool} {values : List Value} (hne : values ≠ [])
    (hdtype : ∀ v ∈ values, v.dtype = d) :
    ∃ v, firstExtreme smaller values = some v ∧ Best smaller values v := by
  induction values with
  | nil => exact absurd rfl hne
  | cons v rest ih =>
    have hv := hdtype v mem_cons_self
    have hrest : ∀ w ∈ rest, w.dtype = d := fun w hw => hdtype w (mem_cons_of_mem _ hw)
    rcases eq_or_ne rest [] with rfl | hcons
    · refine ⟨v, rfl, mem_singleton_self v, fun w hw => ?_⟩
      rw [mem_singleton.1 hw]
      exact Value.before_irrefl v
    · obtain ⟨w, hfirst, hmem, hbest⟩ := ih hcons hrest
      simp only [firstExtreme, hfirst]
      by_cases hbefore : w.before smaller v = true
      · refine ⟨w, if_pos hbefore, mem_cons_of_mem _ hmem, fun u hu => ?_⟩
        rcases mem_cons.1 hu with rfl | hu
        · exact Value.before_asymm hbefore
        · exact hbest u hu
      · refine ⟨v, if_neg hbefore, mem_cons_self, fun u hu => ?_⟩
        rcases mem_cons.1 hu with rfl | hu
        · exact Value.before_irrefl u
        · by_contra h
          rw [Bool.not_eq_false] at h
          rcases Value.before_or ((hrest u hu).trans (hrest w hmem).symm)
            ((hrest w hmem).trans hv.symm) h with h | h
          · rw [hbest u hu] at h
            cases h
          · exact hbefore h

theorem firstEngine_documented : firstEngine.Documented := by
  refine ⟨fun smaller values d hne hdtype => best_firstExtreme hne hdtype, fun entries => ?_,
    fun entries => ?_⟩
  · exact perm_insertionSort _ entries
  · have : Std.Total fun a b : List Char × ℕ => b.2 ≤ a.2 := ⟨fun a b => Nat.le_total b.2 a.2⟩
    have : IsTrans (List Char × ℕ) fun a b => b.2 ≤ a.2 := ⟨fun a b c hab hbc => hbc.trans hab⟩
    exact pairwise_insertionSort _ entries

/-- A batch of the values. -/
def column (values : List (Option Value)) : Batch Unit := .frame (values.map (⟨·, ()⟩))

/-- The five most frequent of 4096 values, and how many there are. -/
def fiveOfAll : Request Unit := ⟨some fun row => row.value.isNone, 5, 4096⟩

/-- The figures that the batches give. -/
def figures (batches : List (Batch Unit)) : ColumnAggregate :=
  (run firstEngine fiveOfAll batches).finish firstEngine fiveOfAll

/-- The integers 9 and 1000 in one batch and 37 in the next. -/
def threeIntegers : List (Batch Unit) :=
  [column [some (.integer 9), some (.integer 1000)], column [some (.integer 37)]]

/-- Their figures are those of the three. -/
theorem figures_of_threeIntegers :
    Faithful firstEngine fiveOfAll (rowsOf threeIntegers) (figures threeIntegers) := by
  have hdtype : ∀ v ∈ valuesOf threeIntegers, v.dtype = .integer := by decide
  have hspell : ∀ v ∈ valuesOf threeIntegers, firstEngine.SpellsValue v := by
    intro v hv
    have hinteger := hdtype v hv
    cases v with
    | float x => cases hinteger
    | _ => trivial
  refine (figures_of_batches firstEngine_documented hdtype hspell).2 ⟨fun pushed hprefix => ?_,
    fun pushed batch hprefix => ?_⟩ threeIntegers (prefix_refl _)
  · have hmem := (mem_inits pushed threeIntegers).2 hprefix
    change pushed ∈ [[], [_], [_, _]] at hmem
    simp only [mem_cons, not_mem_nil, or_false] at hmem
    rcases hmem with rfl | rfl | rfl <;> exact ⟨.inl rfl, fun _ => .inr (by decide)⟩
  · have hmem := (mem_inits (pushed ++ [batch]) threeIntegers).2 hprefix
    change _ ∈ [[], [_], [_, _]] at hmem
    intro smaller held candidate hheld hcandidate
    rcases pushed with _ | ⟨first, _ | ⟨second, rest⟩⟩
    · cases hheld.1
    · simp only [cons_append, nil_append, mem_cons, reduceCtorEq, List.cons.injEq,
        not_mem_nil, or_false, false_or, and_false, and_true] at hmem
      obtain ⟨rfl, rfl⟩ := hmem
      have hfirst : held ∈ [.integer 9, .integer 1000] := hheld.1
      have hsecond : candidate ∈ [.integer 37] := hcandidate.1
      simp only [mem_cons, not_mem_nil, or_false] at hfirst hsecond
      subst hsecond
      rcases hfirst with rfl | rfl <;> exact fun _ => by decide +kernel
    · simp at hmem

/-- What is no number, and the number one. -/
def noNumber : Value := .float ⟨false, 9221120237041090560, by decide⟩

def one : Value := .float ⟨false, 4607182418800017408, by decide⟩

/-- Two integers that read as one double, two texts that read as numbers, a batch without a number
and rows without the column: each is cut so that the figures differ from those of one batch. -/
theorem figures_differ :
    (figures [column [some (.integer 9007199254740993)],
        column [some (.integer 9007199254740992)]]).minimum ≠
      (figures [column [some (.integer 9007199254740993),
        some (.integer 9007199254740992)]]).minimum ∧
    (figures [column [some (.string ['9'])], column [some (.string ['1', '0'])]]).minimum ≠
      (figures [column [some (.string ['9']), some (.string ['1', '0'])]]).minimum ∧
    (figures [column [some noNumber], column [some one]]).minimum ≠
      (figures [column [some noNumber, some one]]).minimum ∧
    (figures [.absent [(), ()]]).matching ≠ (figures [column [none, none]]).matching := by
  decide +kernel

end Lvu.Query.ColumnStats
