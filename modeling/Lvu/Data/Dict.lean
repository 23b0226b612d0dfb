import Mathlib.Algebra.BigOperators.Group.List.Basic
import Mathlib.Algebra.GroupWithZero.Nat
import Mathlib.Data.List.AList

/-!
# Dictionaries

Finite maps from keys to values of one type, their size, and the sum of values that are numbers.
-/

namespace Lvu

open List

/-- A finite map. -/
abbrev Dict (K V : Type*) := AList fun _ : K => V

namespace Dict

variable {K V : Type*} [DecidableEq K] {d : Dict K V} {k : K}

/-- The number of keys. -/
def size (d : Dict K V) : ℕ := d.keys.length

omit [DecidableEq K] in
@[simp] theorem size_empty : size (∅ : Dict K V) = 0 := rfl

omit [DecidableEq K] in
theorem eq_empty_of_size (h : size d = 0) : d = ∅ :=
  AList.ext (map_eq_nil_iff.1 (eq_nil_of_length_eq_zero h))

theorem size_insert_of_mem (h : k ∈ d) (v : V) : size (d.insert k v) = size d := by
  have hk : k ∈ d.keys := AList.mem_keys.1 h
  have hpos := length_pos_of_mem hk
  simp only [size, AList.keys_insert, length_cons, length_erase_of_mem hk]
  omega

theorem size_insert_of_notMem (h : k ∉ d) (v : V) : size (d.insert k v) = size d + 1 := by
  have hk : k ∉ d.keys := fun hmem => h (AList.mem_keys.2 hmem)
  simp only [size, AList.keys_insert, length_cons, erase_of_not_mem hk]

theorem size_erase_of_mem (h : k ∈ d) : size (d.erase k) + 1 = size d := by
  have hk : k ∈ d.keys := AList.mem_keys.1 h
  have hpos := length_pos_of_mem hk
  simp only [size, AList.keys_erase, length_erase_of_mem hk]
  omega

theorem size_erase_le (d : Dict K V) (k : K) : size (d.erase k) ≤ size d := by
  rw [size, AList.keys_erase]
  exact length_erase_le

theorem lookup_insert_eq (d : Dict K V) (k j : K) (v : V) :
    (d.insert k v).lookup j = if j = k then some v else d.lookup j := by
  split_ifs with h
  · rw [h, AList.lookup_insert]
  · exact AList.lookup_insert_ne h

theorem lookup_erase_eq (d : Dict K V) (k j : K) :
    (d.erase k).lookup j = if j = k then none else d.lookup j := by
  split_ifs with h
  · rw [h, AList.lookup_erase]
  · exact AList.lookup_erase_ne h

theorem replace_of_lookup {v : V} (h : d.lookup k = some v) : d.replace k v = d :=
  AList.ext (kreplace_self d.nodupKeys (of_mem_dlookup h))

/-- Every value replaced by one computed from its key and itself. -/
def map (f : K → V → V) (d : Dict K V) : Dict K V :=
  ⟨d.entries.map fun e => ⟨e.1, f e.1 e.2⟩, by
    simpa [List.NodupKeys, List.keys, Function.comp_def] using d.nodupKeys⟩

theorem lookup_map (f : K → V → V) (d : Dict K V) (k : K) :
    (d.map f).lookup k = (d.lookup k).map (f k) := by
  obtain ⟨entries, hnodup⟩ := d
  simp only [map, AList.lookup]
  induction entries with
  | nil => rfl
  | cons e entries ih =>
    obtain ⟨j, v⟩ := e
    have htail : entries.NodupKeys := (nodupKeys_cons.1 hnodup).2
    by_cases hj : j = k
    · subst hj
      simp
    · rw [map_cons, dlookup_cons_ne _ _ (Ne.symm hj), dlookup_cons_ne _ _ (Ne.symm hj)]
      exact ih htail

/-- The keys and values that meet a condition. -/
def filter (p : K → V → Bool) (d : Dict K V) : Dict K V :=
  ⟨d.entries.filter fun e => p e.1 e.2, d.nodupKeys.sublist filter_sublist⟩

theorem lookup_filter {p : K → V → Bool} {v : V} (h : (d.filter p).lookup k = some v) :
    d.lookup k = some v ∧ p k v = true := by
  have hmem := mem_filter.1 (AList.mem_lookup_iff.1 h)
  exact ⟨AList.mem_lookup_iff.2 hmem.1, hmem.2⟩

theorem mem_of_lookup {v : V} (h : d.lookup k = some v) : k ∈ d :=
  AList.lookup_isSome.1 (by rw [h]; rfl)

theorem erase_eq_filter (d : Dict K V) (k : K) : d.erase k = d.filter fun j _ => j ≠ k := by
  obtain ⟨entries, hnodup⟩ := d
  refine AList.ext ?_
  change List.kerase k entries = entries.filter fun e => decide (e.1 ≠ k)
  induction entries with
  | nil => rfl
  | cons e entries ih =>
    obtain ⟨hnotMem, htail⟩ := nodupKeys_cons.1 hnodup
    by_cases hk : k = e.1
    · rw [kerase_cons_eq hk, filter_cons_of_neg (by simp [hk])]
      refine (List.filter_eq_self.2 fun other hother => ?_).symm
      have hne : other.1 ≠ e.1 := fun heq => hnotMem (heq ▸ mem_keys_of_mem hother)
      simpa [hk] using hne
    · rw [kerase_cons_ne hk, filter_cons_of_pos (by simpa using Ne.symm hk), ih htail]

omit [DecidableEq K] in
theorem filter_filter {p q : K → V → Bool} (d : Dict K V) :
    (d.filter p).filter q = d.filter fun k v => p k v && q k v :=
  AList.ext (List.filter_filter.trans (List.filter_congr fun _ _ => Bool.and_comm _ _))

theorem filter_congr {p q : K → V → Bool} (h : ∀ k v, d.lookup k = some v → p k v = q k v) :
    d.filter p = d.filter q :=
  AList.ext (List.filter_congr fun e he => h e.1 e.2 (AList.mem_lookup_iff.2 he))

theorem filter_eq_self {p : K → V → Bool} (h : ∀ k v, d.lookup k = some v → p k v = true) :
    d.filter p = d :=
  AList.ext (List.filter_eq_self.2 fun e he => h e.1 e.2 (AList.mem_lookup_iff.2 he))

theorem lookup_filter_iff {p : K → V → Bool} {v : V} :
    (d.filter p).lookup k = some v ↔ d.lookup k = some v ∧ p k v = true := by
  refine ⟨lookup_filter, fun ⟨hlookup, hp⟩ => AList.mem_lookup_iff.2 ?_⟩
  exact mem_filter.2 ⟨AList.mem_lookup_iff.1 hlookup, hp⟩

omit [DecidableEq K] in
theorem size_filter_le (d : Dict K V) (p : K → V → Bool) : size (d.filter p) ≤ size d := by
  simp only [size, AList.keys, List.keys, length_map]
  exact length_filter_le _ _

theorem erase_of_lookup_none (h : d.lookup k = none) : d.erase k = d := by
  rw [erase_eq_filter]
  refine filter_eq_self fun j v hj => ?_
  rw [decide_eq_true_eq]
  rintro rfl
  rw [h] at hj
  cases hj

theorem insert_erase (d : Dict K V) (k : K) (v : V) : (d.erase k).insert k v = d.insert k v := by
  refine AList.ext ?_
  rw [AList.entries_insert, AList.entries_insert]
  congr 1
  change List.kerase k (List.kerase k d.entries) = List.kerase k d.entries
  exact kerase_of_notMem_keys (notMem_keys_kerase k d.nodupKeys)

section Total

variable {K : Type*}

/-- The sum of the values. -/
def total (d : Dict K ℕ) : ℕ := (d.entries.map Sigma.snd).sum

@[simp] theorem total_empty : total (∅ : Dict K ℕ) = 0 := rfl

variable [DecidableEq K]

theorem total_erase (d : Dict K ℕ) (k : K) : total (d.erase k) + (d.lookup k).getD 0 = total d := by
  obtain ⟨entries, hnodup⟩ := d
  change ((List.kerase k entries).map Sigma.snd).sum + (List.dlookup k entries).getD 0 =
    (entries.map Sigma.snd).sum
  induction entries with
  | nil => rfl
  | cons e entries ih =>
    obtain ⟨j, v⟩ := e
    have htail := ih (nodupKeys_cons.1 hnodup).2
    by_cases hj : k = j
    · subst hj
      simp [Nat.add_comm]
    · have herase : List.kerase k (⟨j, v⟩ :: entries) = ⟨j, v⟩ :: List.kerase k entries :=
        kerase_cons_ne hj
      rw [herase, dlookup_cons_ne _ _ hj, map_cons, map_cons, sum_cons,
        sum_cons, Nat.add_assoc, htail]

theorem total_insert (d : Dict K ℕ) (k : K) (v : ℕ) :
    total (d.insert k v) + (d.lookup k).getD 0 = total d + v := by
  have hinsert : total (d.insert k v) = v + total (d.erase k) := by
    rw [total, AList.entries_insert, map_cons, sum_cons]
    rfl
  have := total_erase d k
  omega

end Total

end Dict

end Lvu
