import Mathlib.Data.List.Sort

/-!
# Tables with a key

The rows of a table in the order of their key, which no two of them share.

* `Table.mem_insert` : the row is there, in place of the one with its key.
* `Table.erase_first` : without its first row, a table is the rest.
* `Table.ofList_perm` : rows of distinct keys, inserted one after the other, are all there.
* `Table.get?_insert` : the value of a key changes with the rows inserted under it only.
* `Table.ofList_rows` : the rows of a table, inserted one after the other, are the table again.
-/

namespace Lvu

open List

/-- Rows in the order of their key. -/
structure Table (K V : Type) [LinearOrder K] where
  rows : List (K × V)
  sorted : rows.Pairwise fun a b => a.1 < b.1

namespace Table

variable {K V : Type} [LinearOrder K]

variable {t : Table K V} {k : K} {v : V} {l : List (K × V)} {x : K × V}

@[ext] theorem ext {t' : Table K V} (h : t.rows = t'.rows) : t = t' := by
  cases t
  cases t'
  cases h
  rfl

instance [DecidableEq V] : DecidableEq (Table K V) := fun t t' =>
  decidable_of_iff (t.rows = t'.rows) ⟨ext, congrArg rows⟩

/-- No rows. -/
def empty : Table K V := ⟨[], .nil⟩

@[simp] theorem rows_empty : (empty : Table K V).rows = [] := rfl

/-- The row goes where its key belongs, in place of one with the same key. -/
def insertRows (k : K) (v : V) : List (K × V) → List (K × V)
  | [] => [(k, v)]
  | r :: rest =>
    if k < r.1 then (k, v) :: r :: rest
    else if k = r.1 then (k, v) :: rest
    else r :: insertRows k v rest

theorem mem_insertRows (h : l.Pairwise fun a b => a.1 < b.1) :
    x ∈ insertRows k v l ↔ x = (k, v) ∨ x ∈ l ∧ x.1 ≠ k := by
  induction l with
  | nil => simp [insertRows]
  | cons r rest ih =>
    have hlater : ∀ y ∈ rest, r.1 < y.1 := (pairwise_cons.1 h).1
    have hne {y : K × V} (hy : y ∈ rest) (hle : k ≤ r.1) : y.1 ≠ k := fun heq =>
      absurd (hlater y hy) (not_lt_of_ge (heq.trans_le hle))
    rw [insertRows]
    by_cases hlt : k < r.1
    · rw [if_pos hlt, mem_cons, mem_cons]
      constructor
      · rintro (rfl | rfl | hx)
        · exact .inl rfl
        · exact .inr ⟨.inl rfl, hlt.ne'⟩
        · exact .inr ⟨.inr hx, hne hx hlt.le⟩
      · rintro (rfl | ⟨hx, -⟩)
        · exact .inl rfl
        · exact .inr hx
    · rw [if_neg hlt]
      by_cases heq : k = r.1
      · rw [if_pos heq, mem_cons, mem_cons]
        constructor
        · rintro (rfl | hx)
          · exact .inl rfl
          · exact .inr ⟨.inr hx, hne hx heq.le⟩
        · rintro (rfl | ⟨rfl | hx, hk⟩)
          · exact .inl rfl
          · exact absurd heq.symm hk
          · exact .inr hx
      · rw [if_neg heq, mem_cons, ih (pairwise_cons.1 h).2, mem_cons]
        constructor
        · rintro (rfl | rfl | ⟨hx, hk⟩)
          · exact .inr ⟨.inl rfl, fun h => heq h.symm⟩
          · exact .inl rfl
          · exact .inr ⟨.inr hx, hk⟩
        · rintro (rfl | ⟨rfl | hx, hk⟩)
          · exact .inr (.inl rfl)
          · exact .inl rfl
          · exact .inr (.inr ⟨hx, hk⟩)

theorem sorted_insertRows (k : K) (v : V) (h : l.Pairwise fun a b => a.1 < b.1) :
    (insertRows k v l).Pairwise fun a b => a.1 < b.1 := by
  induction l with
  | nil => exact pairwise_singleton _ _
  | cons r rest ih =>
    obtain ⟨hlater, hrest⟩ := pairwise_cons.1 h
    rw [insertRows]
    by_cases hlt : k < r.1
    · rw [if_pos hlt]
      refine pairwise_cons.2 ⟨fun x hx => ?_, h⟩
      obtain rfl | hx := mem_cons.1 hx
      · exact hlt
      · exact hlt.trans (hlater x hx)
    · rw [if_neg hlt]
      by_cases heq : k = r.1
      · rw [if_pos heq]
        exact pairwise_cons.2 ⟨fun x hx => heq.trans_lt (hlater x hx), hrest⟩
      · rw [if_neg heq]
        refine pairwise_cons.2 ⟨fun x hx => ?_, ih hrest⟩
        obtain rfl | ⟨hx, -⟩ := (mem_insertRows hrest).1 hx
        · exact lt_of_le_of_ne (not_lt.1 hlt) fun h => heq h.symm
        · exact hlater x hx

/-- `INSERT OR REPLACE`. -/
def insert (t : Table K V) (k : K) (v : V) : Table K V :=
  ⟨insertRows k v t.rows, sorted_insertRows k v t.sorted⟩

theorem mem_insert :
    x ∈ (t.insert k v).rows ↔ x = (k, v) ∨ x ∈ t.rows ∧ x.1 ≠ k := mem_insertRows t.sorted

/-- The row of a key is removed. -/
def erase (t : Table K V) (k : K) : Table K V :=
  ⟨t.rows.filter fun row => row.1 ≠ k, t.sorted.filter _⟩

@[simp] theorem mem_erase : x ∈ (t.erase k).rows ↔ x ∈ t.rows ∧ x.1 ≠ k := by
  simp [erase]

theorem erase_first {first : K × V} {rest : List (K × V)} (h : t.rows = first :: rest) :
    (t.erase first.1).rows = rest := by
  have hsorted := h ▸ t.sorted
  change t.rows.filter _ = rest
  rw [h, filter_cons_of_neg (by simp)]
  refine List.filter_eq_self.2 fun row hrow => ?_
  simpa using ((pairwise_cons.1 hsorted).1 row hrow).ne'

theorem nodup_keys (t : Table K V) : (t.rows.map Prod.fst).Nodup :=
  pairwise_map.2 (t.sorted.imp fun h => h.ne)

theorem nodup_rows (t : Table K V) : t.rows.Nodup := .of_map _ t.nodup_keys

theorem eq_of_key {y : K × V} (hx : x ∈ t.rows) (hy : y ∈ t.rows) (h : x.1 = y.1) :
    x = y := inj_on_of_nodup_map t.nodup_keys hx hy h

/-- The rows, inserted one after the other. -/
def ofList (l : List (K × V)) : Table K V := l.foldl (fun t x => t.insert x.1 x.2) empty

theorem mem_foldl_insert (h : (l.map Prod.fst).Nodup) :
    x ∈ (l.foldl (fun t x => t.insert x.1 x.2) t).rows ↔
      x ∈ l ∨ x ∈ t.rows ∧ x.1 ∉ l.map Prod.fst := by
  induction l generalizing t with
  | nil => simp
  | cons y l ih =>
    obtain ⟨hy, hl⟩ := nodup_cons.1 h
    have hfirst : y.1 ∉ l.map Prod.fst := hy
    rw [foldl_cons, ih hl, mem_insert, mem_cons, map_cons, mem_cons]
    constructor
    · rintro (hx | ⟨rfl | ⟨hx, hne⟩, hnot⟩)
      · exact .inl (.inr hx)
      · exact .inl (.inl rfl)
      · exact .inr ⟨hx, fun h => h.elim hne hnot⟩
    · rintro ((rfl | hx) | ⟨hx, hnot⟩)
      · exact .inr ⟨.inl rfl, hfirst⟩
      · exact .inl hx
      · exact .inr ⟨.inr ⟨hx, fun h => hnot (.inl h)⟩, fun h => hnot (.inr h)⟩

theorem mem_ofList (h : (l.map Prod.fst).Nodup) : x ∈ (ofList l).rows ↔ x ∈ l := by
  rw [ofList, mem_foldl_insert h]
  simp

theorem ofList_perm (h : (l.map Prod.fst).Nodup) : (ofList l).rows.Perm l :=
  (perm_ext_iff_of_nodup (nodup_rows _) (.of_map _ h)).2 fun _ => mem_ofList h

theorem length_insertRows_le (k : K) (v : V) (l : List (K × V)) : (insertRows k v l).length ≤ l.length + 1 := by
  induction l with
  | nil => exact le_refl _
  | cons r rest ih =>
    rw [insertRows]
    split
    · exact le_refl _
    · split
      · exact Nat.le_succ _
      · exact Nat.succ_le_succ ih

theorem length_ofList_le (l : List (K × V)) : (ofList l).rows.length ≤ l.length := by
  have hfold (t : Table K V) :
      (l.foldl (fun t x => t.insert x.1 x.2) t).rows.length ≤ t.rows.length + l.length := by
    induction l generalizing t with
    | nil => exact le_refl _
    | cons x l ih =>
      have hinsert : (t.insert x.1 x.2).rows.length ≤ t.rows.length + 1 := length_insertRows_le _ _ _
      rw [foldl_cons, length_cons]
      exact (ih _).trans (by omega)
  exact (hfold empty).trans (le_of_eq (Nat.zero_add _))

theorem ofList_rows (t : Table K V) : ofList t.rows = t := by
  refine ext ((ofList_perm t.nodup_keys).eq_of_pairwise (fun a b _ _ hab hba => ?_)
    (ofList t.rows).sorted t.sorted)
  exact absurd (hab.trans hba) (lt_irrefl _)

/-- The value of a key. -/
def get? (t : Table K V) (k : K) : Option V := (t.rows.find? fun row => row.1 = k).map Prod.snd

@[simp] theorem get?_empty (k : K) : (empty : Table K V).get? k = none := rfl

theorem get?_eq_some : t.get? k = some v ↔ (k, v) ∈ t.rows := by
  constructor
  · intro h
    obtain ⟨row, hrow, rfl⟩ := Option.map_eq_some_iff.1 h
    obtain rfl : row.1 = k := by simpa using find?_some hrow
    exact mem_of_find?_eq_some hrow
  · intro h
    cases hfind : t.rows.find? fun row => row.1 = k with
    | none => exact absurd rfl (of_decide_eq_false (Bool.eq_false_of_not_eq_true
        (find?_eq_none.1 hfind (k, v) h)))
    | some row =>
      have hkey : row.1 = k := by simpa using find?_some hfind
      rw [get?, hfind, eq_of_key (mem_of_find?_eq_some hfind) h hkey]
      rfl

theorem get?_eq_none : t.get? k = none ↔ ∀ row ∈ t.rows, row.1 ≠ k := by
  rw [get?, Option.map_eq_none_iff, find?_eq_none]
  simp only [decide_eq_true_eq]

theorem get?_insert (t : Table K V) (k j : K) (v : V) :
    (t.insert k v).get? j = if j = k then some v else t.get? j := by
  refine Option.ext fun w => ?_
  rw [get?_eq_some, mem_insert]
  split_ifs with hj
  · subst hj
    simp [eq_comm]
  · simp [hj, get?_eq_some]

/-- A key has one row at most. -/
theorem filter_key (t : Table K V) (k : K) :
    t.rows.filter (fun row => row.1 = k) = (t.get? k).toList.map fun v => (k, v) := by
  obtain ⟨rows, hsorted⟩ := t
  rw [get?]
  dsimp only
  induction rows with
  | nil => rfl
  | cons row rows ih =>
    obtain ⟨hlater, hrows⟩ := pairwise_cons.1 hsorted
    by_cases hrow : row.1 = k
    · have hnone : rows.filter (fun row => row.1 = k) = [] := by
        refine filter_eq_nil_iff.2 fun other hother => ?_
        simpa [← hrow] using (hlater other hother).ne'
      rw [filter_cons_of_pos (by simpa using hrow), hnone,
        find?_cons_of_pos (by simpa using hrow), ← hrow]
      rfl
    · rw [filter_cons_of_neg (by simpa using hrow),
        find?_cons_of_neg (by simpa using hrow)]
      exact ih hrows

theorem length_insertRows (h : l.Pairwise fun a b => a.1 < b.1) :
    (insertRows k v l).length = if k ∈ l.map Prod.fst then l.length else l.length + 1 := by
  induction l with
  | nil => rfl
  | cons row rest ih =>
    obtain ⟨hlater, hrest⟩ := pairwise_cons.1 h
    rw [insertRows, map_cons]
    by_cases hlt : k < row.1
    · have hnew : k ∉ row.1 :: rest.map Prod.fst := by
        refine not_mem_cons_of_ne_of_not_mem hlt.ne fun hmem => ?_
        obtain ⟨other, hother, rfl⟩ := mem_map.1 hmem
        exact absurd (hlater other hother) hlt.asymm
      rw [if_pos hlt, if_neg hnew]
      rfl
    · rw [if_neg hlt]
      by_cases heq : k = row.1
      · rw [if_pos heq, if_pos (heq ▸ mem_cons_self)]
        rfl
      · rw [if_neg heq, length_cons, ih hrest]
        simp only [mem_cons, heq, false_or]
        split_ifs <;> rfl

theorem length_insert (t : Table K V) (k : K) (v : V) :
    (t.insert k v).rows.length =
      if (t.get? k).isSome then t.rows.length else t.rows.length + 1 := by
  refine (length_insertRows t.sorted).trans ?_
  congr 1
  simp only [mem_map, Prod.exists, exists_and_right, exists_eq_right,
    Option.isSome_iff_exists, get?_eq_some]

end Table

end Lvu
