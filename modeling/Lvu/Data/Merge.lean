import Mathlib.Algebra.Order.BigOperators.Group.Finset

/-!
# Merging runs

There are `n` runs, run `i` of length `len i`, and a cursor in each.  Again and again a rule picks
a run that is not used up and takes its next unit; a unit is named by its run and its place in it.

* `Merge.filter_merge` : every run is taken in its own order, whatever the rule.
* `Merge.sorted_merge` : runs that ascend merge into one that ascends, taking the least head.
* `Merge.least_eq_some`, `Merge.merge_getElem?` : which run is picked, and what stands at a place.
* `Merge.merge_add`, `Merge.merge_agree` : a merge that goes on, and two rules that agree.
-/

namespace Lvu.Merge

open List

/-- A unit: its run, and its place there. -/
abbrev Entry := ℕ × ℕ

variable (n : ℕ) (len : ℕ → ℕ)

/-- The first run that is not used up. -/
def first (cursors : ℕ → ℕ) : Option ℕ := (List.range n).find? fun i => cursors i < len i

section
variable {K : Type*} [LinearOrder K] (key : ℕ → ℕ → K)

/-- The better of the run chosen so far and run `i`: the one with the smaller head, the chosen one
for equal heads. -/
def better (cursors : ℕ → ℕ) (chosen : Option ℕ) (i : ℕ) : Option ℕ :=
  if len i ≤ cursors i then chosen
  else match chosen with
    | none => some i
    | some best => if key i (cursors i) < key best (cursors best) then some i else some best

/-- The run with the least head, the first of them. -/
def least (cursors : ℕ → ℕ) : Option ℕ := (List.range n).foldl (better len key cursors) none

end

/-- At most `fuel` units, each of the run that the rule picks. -/
def merge (pick : (ℕ → ℕ) → Option ℕ) : ℕ → (ℕ → ℕ) → List Entry
  | 0, _ => []
  | fuel + 1, cursors =>
    match pick cursors with
    | none => []
    | some i => (i, cursors i) :: merge pick fuel (Function.update cursors i (cursors i + 1))

/-- The rule picks a run that is not used up, as long as there is one. -/
structure Picks (pick : (ℕ → ℕ) → Option ℕ) : Prop where
  some : ∀ cursors i, pick cursors = some i → i < n ∧ cursors i < len i
  none : ∀ cursors, pick cursors = none → ∀ i < n, len i ≤ cursors i

/-- The units that are left. -/
def left (cursors : ℕ → ℕ) : ℕ := ∑ i ∈ Finset.range n, (len i - cursors i)

variable {n len} {pick pick' : (ℕ → ℕ) → Option ℕ} {cursors : ℕ → ℕ} {fuel i u : ℕ}

/-! ### Rules -/

theorem picks_first : Picks n len (first n len) where
  some cursors i h := by
    have hlt : cursors i < len i := by simpa using find?_some h
    exact ⟨mem_range.1 (mem_of_find?_eq_some h), hlt⟩
  none cursors h i hi := by
    have := find?_eq_none.1 h i (mem_range.2 hi)
    simpa using this

section
variable {K : Type*} [LinearOrder K] {key : ℕ → ℕ → K}

/-- The run chosen among the first `m` has the least head of them. -/
structure Chosen (len : ℕ → ℕ) (key : ℕ → ℕ → K) (cursors : ℕ → ℕ) (m : ℕ) (chosen : Option ℕ) :
    Prop where
  some : ∀ i, chosen = some i → i < m ∧ cursors i < len i ∧
    ∀ j < m, cursors j < len j → key i (cursors i) ≤ key j (cursors j)
  none : chosen = none → ∀ j < m, len j ≤ cursors j

theorem Chosen.step {m : ℕ} {chosen : Option ℕ} (h : Chosen len key cursors m chosen) :
    Chosen len key cursors (m + 1) (better len key cursors chosen m) := by
  have hlast : ∀ j < m + 1, j < m ∨ j = m := fun j hj => Nat.lt_succ_iff_lt_or_eq.1 hj
  unfold better
  by_cases hm : len m ≤ cursors m
  · rw [if_pos hm]
    constructor
    · intro i hi
      obtain ⟨hlt, hnot, hle⟩ := h.some i hi
      refine ⟨hlt.trans (Nat.lt_succ_self m), hnot, fun j hj hjlen => ?_⟩
      rcases hlast j hj with hj | rfl
      · exact hle j hj hjlen
      · exact absurd hjlen (Nat.not_lt.2 hm)
    · intro hnone j hj
      rcases hlast j hj with hj | rfl
      · exact h.none hnone j hj
      · exact hm
  rw [if_neg hm]
  have hlen : cursors m < len m := Nat.not_le.1 hm
  cases chosen with
  | none =>
    refine ⟨fun i hi => ?_, fun hnone => absurd hnone (by simp)⟩
    obtain rfl : m = i := Option.some.inj hi
    refine ⟨Nat.lt_succ_self m, hlen, fun j hj hjlen => ?_⟩
    rcases hlast j hj with hj | rfl
    · exact absurd hjlen (Nat.not_lt.2 (h.none rfl j hj))
    · exact le_rfl
  | some best =>
    obtain ⟨hbest, hbestLen, hle⟩ := h.some best rfl
    by_cases hkey : key m (cursors m) < key best (cursors best)
    · simp only [hkey, if_true]
      refine ⟨fun i hi => ?_, fun hnone => absurd hnone (by simp)⟩
      obtain rfl : m = i := Option.some.inj hi
      refine ⟨Nat.lt_succ_self m, hlen, fun j hj hjlen => ?_⟩
      rcases hlast j hj with hj | rfl
      · exact hkey.le.trans (hle j hj hjlen)
      · exact le_rfl
    · simp only [hkey, if_false]
      refine ⟨fun i hi => ?_, fun hnone => absurd hnone (by simp)⟩
      obtain rfl : best = i := Option.some.inj hi
      refine ⟨hbest.trans (Nat.lt_succ_self m), hbestLen, fun j hj hjlen => ?_⟩
      rcases hlast j hj with hj | rfl
      · exact hle j hj hjlen
      · exact not_lt.1 hkey

theorem chosen_least (n : ℕ) : Chosen len key cursors n (least n len key cursors) := by
  unfold least
  induction n with
  | zero => exact ⟨fun i hi => absurd hi (by simp), fun _ j hj => absurd hj (Nat.not_lt_zero j)⟩
  | succ m ih =>
    rw [range_succ, foldl_append]
    exact ih.step

theorem picks_least : Picks n len (least n len key) where
  some _ i h := ⟨((chosen_least n).some i h).1, ((chosen_least n).some i h).2.1⟩
  none _ h := (chosen_least n).none h

end

/-! ### What is taken -/

theorem left_update (h : i < n ∧ cursors i < len i) :
    left n len (Function.update cursors i (cursors i + 1)) + 1 = left n len cursors := by
  unfold left
  have hi : i ∈ Finset.range n := Finset.mem_range.2 h.1
  rw [← Finset.add_sum_erase _ _ hi, ← Finset.add_sum_erase (Finset.range n) _ hi,
    Function.update_self]
  have hothers : ∑ j ∈ (Finset.range n).erase i,
      (len j - Function.update cursors i (cursors i + 1) j) =
        ∑ j ∈ (Finset.range n).erase i, (len j - cursors j) :=
    Finset.sum_congr rfl fun j hj => by rw [Function.update_of_ne (Finset.ne_of_mem_erase hj)]
  rw [hothers]
  omega

theorem left_eq_zero : left n len cursors = 0 ↔ ∀ i < n, len i ≤ cursors i := by
  simp only [left, Finset.sum_eq_zero_iff, Finset.mem_range, Nat.sub_eq_zero_iff_le]

/-- **Every run is taken in its own order**, from its cursor to its end. -/
theorem filter_merge (hpick : Picks n len pick) (hfuel : left n len cursors ≤ fuel) (hi : i < n) :
    (merge pick fuel cursors).filter (·.1 = i) =
      (List.range' (cursors i) (len i - cursors i)).map (i, ·) := by
  induction fuel generalizing cursors with
  | zero =>
    have hdone := left_eq_zero.1 (Nat.le_zero.1 hfuel) i hi
    simp [merge, Nat.sub_eq_zero_of_le hdone]
  | succ fuel ih =>
    rw [merge]
    cases hp : pick cursors with
    | none => simp [Nat.sub_eq_zero_of_le (hpick.none cursors hp i hi)]
    | some j =>
      have hj := hpick.some cursors j hp
      have hless : left n len (Function.update cursors j (cursors j + 1)) ≤ fuel := by
        have := left_update hj
        omega
      simp only [filter_cons, ih hless]
      by_cases hji : j = i
      · subst hji
        have hsucc : len j - cursors j = len j - (cursors j + 1) + 1 := by omega
        rw [Function.update_self, hsucc, range'_succ]
        simp
      · rw [Function.update_of_ne (Ne.symm hji)]
        simp [hji]

theorem run_lt (hpick : Picks n len pick) {e : Entry} (h : e ∈ merge pick fuel cursors) :
    e.1 < n := by
  induction fuel generalizing cursors with
  | zero => exact absurd h not_mem_nil
  | succ fuel ih =>
    rw [merge] at h
    cases hp : pick cursors with
    | none => simp [hp] at h
    | some j =>
      simp only [hp, mem_cons] at h
      rcases h with rfl | h
      · exact (hpick.some cursors j hp).1
      · exact ih h

/-- The units taken are those from the cursors on. -/
theorem mem_merge (hpick : Picks n len pick) (hfuel : left n len cursors ≤ fuel) :
    (i, u) ∈ merge pick fuel cursors ↔ i < n ∧ cursors i ≤ u ∧ u < len i := by
  constructor
  · intro h
    have hi : i < n := run_lt hpick h
    have hmem : (i, u) ∈ (merge pick fuel cursors).filter (·.1 = i) :=
      mem_filter.2 ⟨h, by simp⟩
    rw [filter_merge hpick hfuel hi] at hmem
    obtain ⟨v, hv, heq⟩ := mem_map.1 hmem
    obtain rfl : v = u := congrArg Prod.snd heq
    have := mem_range'_1.1 hv
    omega
  · rintro ⟨hi, hge, hlt⟩
    have hmem : (i, u) ∈ (merge pick fuel cursors).filter (·.1 = i) := by
      rw [filter_merge hpick hfuel hi]
      refine mem_map.2 ⟨u, mem_range'_1.2 ⟨hge, by omega⟩, rfl⟩
    exact mem_of_mem_filter hmem

theorem nodup_merge (hpick : Picks n len pick) (hfuel : left n len cursors ≤ fuel) :
    (merge pick fuel cursors).Nodup := by
  rw [nodup_iff_count_le_one]
  rintro ⟨i, u⟩
  by_cases hi : i < n
  · have hcount : (merge pick fuel cursors).count (i, u) =
        ((merge pick fuel cursors).filter (·.1 = i)).count (i, u) :=
      (count_filter (by simp)).symm
    rw [hcount, filter_merge hpick hfuel hi]
    have hnodup : ((List.range' (cursors i) (len i - cursors i)).map (i, ·)).Nodup :=
      (nodup_range').map fun a b h => congrArg Prod.snd h
    exact nodup_iff_count_le_one.1 hnodup (i, u)
  · have hnone : (i, u) ∉ merge pick fuel cursors := fun h => hi (run_lt hpick h)
    rw [count_eq_zero_of_not_mem hnone]
    exact Nat.zero_le 1

section
variable {K : Type*} [LinearOrder K] {key : ℕ → ℕ → K}

/-- **Runs that ascend merge into one that ascends.** -/
theorem sorted_merge (hfuel : left n len cursors ≤ fuel)
    (hrun : ∀ i < n, ∀ u v, cursors i ≤ u → u ≤ v → v < len i → key i u ≤ key i v) :
    (merge (least n len key) fuel cursors).Pairwise fun a b => key a.1 a.2 ≤ key b.1 b.2 := by
  induction fuel generalizing cursors with
  | zero => exact List.Pairwise.nil
  | succ fuel ih =>
    rw [merge]
    cases hp : least n len key cursors with
    | none => exact List.Pairwise.nil
    | some i =>
      obtain ⟨hi, hlen, hle⟩ := (chosen_least n).some i hp
      have hless : left n len (Function.update cursors i (cursors i + 1)) ≤ fuel := by
        have := left_update (n := n) ⟨hi, hlen⟩
        omega
      have hfrom : ∀ j, cursors j ≤ Function.update cursors i (cursors i + 1) j := by
        intro j
        by_cases hj : j = i
        · subst hj
          simp
        · rw [Function.update_of_ne hj]
      refine List.Pairwise.cons ?_ (ih hless fun j hj u v hu => hrun j hj u v ((hfrom j).trans hu))
      rintro ⟨j, u⟩ hmem
      obtain ⟨hj, hu, hlt⟩ := (mem_merge picks_least hless).1 hmem
      -- the head taken is no larger than the head of run `j`, nor than what follows there
      have hcursor : cursors j ≤ u := (hfrom j).trans hu
      exact (hle j hj (hcursor.trans_lt hlt)).trans (hrun j hj _ u le_rfl hcursor hlt)

end

/-! ### Which run is picked -/

theorem first_eq_some : first n len cursors = some i ↔
    i < n ∧ cursors i < len i ∧ ∀ j < i, len j ≤ cursors j := by
  simp only [first, find?_range_eq_some, decide_eq_true_eq, mem_range, Bool.not_eq_true',
    decide_eq_false_iff_not, Nat.not_lt]
  tauto

section
variable {K : Type*} [LinearOrder K] {key : ℕ → ℕ → K}

/-- Among the first `m` runs, run `i` is the first with the least head. -/
structure Leads (len : ℕ → ℕ) (key : ℕ → ℕ → K) (cursors : ℕ → ℕ) (m i : ℕ) : Prop where
  lt : i < m
  more : cursors i < len i
  least : ∀ j < m, cursors j < len j → key i (cursors i) ≤ key j (cursors j)
  first : ∀ j < i, cursors j < len j → key i (cursors i) < key j (cursors j)

theorem Leads.unique {m j : ℕ} (hi : Leads len key cursors m i) (hj : Leads len key cursors m j) :
    i = j := by
  rcases Nat.lt_trichotomy i j with h | h | h
  · exact absurd (hj.first i h hi.more) (not_lt.2 (hi.least j hj.lt hj.more))
  · exact h
  · exact absurd (hi.first j h hj.more) (not_lt.2 (hj.least i hi.lt hi.more))

theorem leads_of_least (h : least n len key cursors = some i) : Leads len key cursors n i := by
  unfold least at h
  induction n generalizing i with
  | zero => cases h
  | succ m ih =>
    rw [range_succ, foldl_append] at h
    change better len key cursors ((List.range m).foldl (better len key cursors) none) m = some i at h
    have hlast : ∀ j < m + 1, j < m ∨ j = m := fun j hj => Nat.lt_succ_iff_lt_or_eq.1 hj
    have hchosen : Chosen len key cursors m (least m len key cursors) := chosen_least m
    have hnone := hchosen.none
    unfold least at hnone
    cases hc : (List.range m).foldl (better len key cursors) none with
    | none =>
      rw [hc] at h
      unfold better at h
      split_ifs at h with hm
      cases h
      refine ⟨Nat.lt_succ_self _, Nat.not_le.1 hm, fun j hj hjlen => ?_, fun j hj hjlen => ?_⟩
      · rcases hlast j hj with hj | rfl
        · exact absurd hjlen (Nat.not_lt.2 (hnone hc j hj))
        · exact le_rfl
      · exact absurd hjlen (Nat.not_lt.2 (hnone hc j hj))
    | some best =>
      have hbest := ih hc
      rw [hc] at h
      unfold better at h
      simp only at h
      split_ifs at h with hm hkey
      · cases h
        refine ⟨hbest.lt.trans (Nat.lt_succ_self m), hbest.more, fun j hj hjlen => ?_, hbest.first⟩
        rcases hlast j hj with hj | rfl
        · exact hbest.least j hj hjlen
        · exact absurd hjlen (Nat.not_lt.2 hm)
      · cases h
        refine ⟨Nat.lt_succ_self _, Nat.not_le.1 hm, fun j hj hjlen => ?_, fun j hj hjlen => ?_⟩
        · rcases hlast j hj with hj | rfl
          · exact hkey.le.trans (hbest.least j hj hjlen)
          · exact le_rfl
        · exact hkey.trans_le (hbest.least j hj hjlen)
      · cases h
        refine ⟨hbest.lt.trans (Nat.lt_succ_self m), hbest.more, fun j hj hjlen => ?_, hbest.first⟩
        rcases hlast j hj with hj | rfl
        · exact hbest.least j hj hjlen
        · exact not_lt.1 hkey

/-- **The run that is picked is the first with the least head.** -/
theorem least_eq_some : least n len key cursors = some i ↔ Leads len key cursors n i := by
  refine ⟨leads_of_least, fun h => ?_⟩
  cases hp : least n len key cursors with
  | none => exact absurd h.more (Nat.not_lt.2 ((chosen_least n).none hp i h.lt))
  | some j => rw [(leads_of_least hp).unique h]

end

/-! ### Going on -/

/-- The cursors once some units are taken. -/
def advanced (cursors : ℕ → ℕ) (taken : List Entry) : ℕ → ℕ :=
  taken.foldl (fun c e => Function.update c e.1 (c e.1 + 1)) cursors

theorem advanced_apply (cursors : ℕ → ℕ) (taken : List Entry) (i : ℕ) :
    advanced cursors taken i = cursors i + (taken.filter (·.1 = i)).length := by
  induction taken generalizing cursors with
  | nil => rfl
  | cons e taken ih =>
    rw [advanced, foldl_cons, ← advanced, ih, filter_cons]
    by_cases he : e.1 = i
    · subst he
      simp only [Function.update_self, decide_true, if_true, length_cons]
      omega
    · simp [Function.update_of_ne (Ne.symm he), he]

theorem merge_add (pick : (ℕ → ℕ) → Option ℕ) (fuel more : ℕ) (cursors : ℕ → ℕ) :
    merge pick (fuel + more) cursors =
      merge pick fuel cursors ++ merge pick more (advanced cursors (merge pick fuel cursors)) := by
  induction fuel generalizing cursors with
  | zero => simp [merge, advanced]
  | succ fuel ih =>
    have hsucc : fuel + 1 + more = fuel + more + 1 := by omega
    rw [hsucc, merge, merge]
    cases hp : pick cursors with
    | none =>
      cases more with
      | zero => rfl
      | succ more => simp [merge, advanced, hp]
    | some i =>
      simp only [cons_append]
      rw [ih]
      rfl

theorem merge_getElem? {p : ℕ} {e : Entry} (h : (merge pick fuel cursors)[p]? = some e) :
    pick (advanced cursors ((merge pick fuel cursors).take p)) = some e.1 ∧
      e.2 = advanced cursors ((merge pick fuel cursors).take p) e.1 := by
  induction fuel generalizing cursors p with
  | zero => simp [merge] at h
  | succ fuel ih =>
    rw [merge] at h ⊢
    cases hp : pick cursors with
    | none =>
      rw [hp] at h
      simp at h
    | some i =>
      simp only [hp] at h ⊢
      cases p with
      | zero =>
        obtain rfl : (i, cursors i) = e := by simpa using h
        exact ⟨hp, rfl⟩
      | succ p => exact ih (by simpa using h)

theorem advanced_merge (hpick : Picks n len pick) (hfuel : left n len cursors ≤ fuel) (hi : i < n)
    (hle : cursors i ≤ len i) : advanced cursors (merge pick fuel cursors) i = len i := by
  rw [advanced_apply, filter_merge hpick hfuel hi, length_map, length_range']
  omega

theorem advanced_other (hpick : Picks n len pick) (hi : n ≤ i) :
    advanced cursors (merge pick fuel cursors) i = cursors i := by
  rw [advanced_apply, filter_eq_nil_iff.2, length_nil, Nat.add_zero]
  intro e he
  have := run_lt hpick he
  simp only [decide_eq_true_eq]
  omega

theorem length_merge (hpick : Picks n len pick) (hfuel : left n len cursors ≤ fuel) :
    (merge pick fuel cursors).length = left n len cursors := by
  induction fuel generalizing cursors with
  | zero => rw [Nat.le_zero.1 hfuel]; rfl
  | succ fuel ih =>
    rw [merge]
    cases hp : pick cursors with
    | none =>
      rw [left_eq_zero.2 (hpick.none cursors hp)]
      rfl
    | some i =>
      have hless := left_update (hpick.some cursors i hp)
      rw [length_cons, ih (by omega), hless]

/-- **Rules that agree as long as something is left** take the same units. -/
theorem merge_agree (hpick : Picks n len pick)
    (hagree : ∀ c : ℕ → ℕ, (∀ i, cursors i ≤ c i) → (∀ i < n, c i ≤ len i) →
      (∀ i, n ≤ i → c i = cursors i) → ∀ i, pick c = some i → pick' c = some i)
    (hle : ∀ i < n, cursors i ≤ len i) :
    merge pick' (left n len cursors) cursors = merge pick (left n len cursors) cursors := by
  generalize hfuel : left n len cursors = fuel
  induction fuel generalizing cursors with
  | zero => rfl
  | succ fuel ih =>
    rw [merge, merge]
    cases hp : pick cursors with
    | none => 
      have := left_eq_zero.2 (hpick.none cursors hp)
      omega
    | some i =>
      have hi := hpick.some cursors i hp
      rw [hagree cursors (fun _ => le_rfl) hle (fun _ _ => rfl) i hp]
      have hless := left_update hi
      simp only
      refine congrArg _ (ih (fun c hc hcle hcn j hj => ?_) (fun j hj => ?_) (by omega))
      · refine hagree c (fun k => ?_) hcle (fun k hk => ?_) j hj
        · refine le_trans ?_ (hc k)
          by_cases hk : k = i
          · subst hk
            simp
          · rw [Function.update_of_ne hk]
        · rw [hcn k hk, Function.update_of_ne]
          omega
      · by_cases hji : j = i
        · subst hji
          rw [Function.update_self]
          omega
        · rw [Function.update_of_ne hji]
          exact hle j hj

/-! ### Runs as lists -/

section
variable {α : Type*} {runs : List (List α)} {a b : α} {R : α → α → Prop}

/-- The length of a run. -/
def runLength (runs : List (List α)) (i : ℕ) : ℕ := (runs[i]?.map List.length).getD 0

/-- The unit an entry names. -/
def unitAt (runs : List (List α)) (e : Entry) : Option α := runs[e.1]?.bind fun run => run[e.2]?

/-- What a merge of all runs shows. -/
def shown (runs : List (List α)) (es : List Entry) : List α := es.filterMap (unitAt runs)

theorem unitAt_eq_some {e : Entry} : unitAt runs e = some a ↔ ∃ run, runs[e.1]? = some run ∧ run[e.2]? = some a :=
  Option.bind_eq_some_iff

/-- All entries, run by run. -/
def entries (runs : List (List α)) : List Entry :=
  (List.range runs.length).flatMap fun i => (List.range (runLength runs i)).map (i, ·)

theorem mem_entries {e : Entry} : e ∈ entries runs ↔ e.1 < runs.length ∧ e.2 < runLength runs e.1 := by
  obtain ⟨i, u⟩ := e
  simp only [entries, mem_flatMap, mem_range, mem_map, Prod.mk.injEq]
  constructor
  · rintro ⟨j, hj, v, hv, rfl, rfl⟩
    exact ⟨hj, hv⟩
  · rintro ⟨hi, hu⟩
    exact ⟨i, hi, u, hu, rfl, rfl⟩

theorem nodup_entries : (entries runs).Nodup := by
  refine nodup_flatMap.2 ⟨fun i _ => ?_, ?_⟩
  · exact nodup_range.map fun a b h => congrArg Prod.snd h
  · refine nodup_range.imp fun {i j} hij => ?_
    simp only [Function.onFun, disjoint_left, mem_map]
    rintro e ⟨u, -, rfl⟩ ⟨v, -, hv⟩
    exact hij (congrArg Prod.fst hv).symm

theorem shown_entries : shown runs (entries runs) = runs.flatten := by
  have hrun : ∀ i < runs.length, ((List.range (runLength runs i)).map (i, ·)).filterMap (unitAt runs) =
      runs[i]?.getD [] := by
    intro i hi
    have hget : runs[i]? = some runs[i] := getElem?_eq_getElem hi
    rw [filterMap_map, hget, Option.getD_some]
    have hlen : runLength runs i = runs[i].length := by simp [runLength, hget]
    have hunit : ∀ u, (unitAt runs ∘ fun u => (i, u)) u = runs[i][u]? := by
      intro u
      simp [unitAt, hget]
    rw [hlen, filterMap_congr fun u _ => hunit u]
    generalize runs[i] = run
    induction run using List.reverseRecOn with
    | nil => rfl
    | append_singleton run a ih =>
      rw [length_append, length_singleton, range_succ, filterMap_append]
      refine congrArg₂ _ ((filterMap_congr fun u hu => ?_).trans ih) ?_
      · exact getElem?_append_left (mem_range.1 hu)
      · simp
  unfold shown entries
  rw [filterMap_flatMap, flatMap_congr fun i hi => hrun i (mem_range.1 hi)]
  rw [flatMap_def]
  refine congrArg List.flatten (ext_getElem (by simp) fun i hi _ => ?_)
  simp only [length_map, length_range] at hi
  simp [hi]

/-- **A merge of all runs shows what they hold.** -/
theorem shown_perm (hpick : Picks runs.length (runLength runs) pick)
    (hfuel : left runs.length (runLength runs) (fun _ => 0) ≤ fuel) :
    (shown runs (merge pick fuel fun _ => 0)).Perm runs.flatten := by
  rw [← shown_entries]
  refine List.Perm.filterMap _ ?_
  rw [perm_ext_iff_of_nodup (nodup_merge hpick hfuel) nodup_entries]
  rintro ⟨i, u⟩
  rw [mem_merge hpick hfuel, mem_entries]
  simp

theorem pairwise_merge (hpick : Picks n len pick) (hfuel : left n len cursors ≤ fuel) :
    (merge pick fuel cursors).Pairwise fun a b => a.1 = b.1 → a.2 < b.2 := by
  induction fuel generalizing cursors with
  | zero => exact List.Pairwise.nil
  | succ fuel ih =>
    rw [merge]
    cases hp : pick cursors with
    | none => exact List.Pairwise.nil
    | some j =>
      have hless : left n len (Function.update cursors j (cursors j + 1)) ≤ fuel := by
        have := left_update (hpick.some cursors j hp)
        omega
      refine List.Pairwise.cons ?_ (ih hless)
      rintro ⟨i, u⟩ hmem heq
      obtain rfl : j = i := heq
      have := ((mem_merge hpick hless).1 hmem).2.1
      rw [Function.update_self] at this
      exact this

/-- **What holds between the units of a run, in its order, holds between them as shown**, if units
of different runs are related anyway. -/
theorem pairwise_shown (hpick : Picks runs.length (runLength runs) pick)
    (hfuel : left runs.length (runLength runs) (fun _ => 0) ≤ fuel)
    (hrun : ∀ run ∈ runs, run.Pairwise R)
    (hothers : ∀ (i j : ℕ) run run', runs[i]? = some run → runs[j]? = some run' → i ≠ j →
      ∀ a ∈ run, ∀ b ∈ run', R a b) :
    (shown runs (merge pick fuel fun _ => 0)).Pairwise R := by
  refine pairwise_filterMap.2 ((pairwise_merge hpick hfuel).imp ?_)
  rintro ⟨i, u⟩ ⟨j, v⟩ hlt a ha b hb
  obtain ⟨run, hi, hu⟩ := unitAt_eq_some.1 ha
  obtain ⟨run', hj, hv⟩ := unitAt_eq_some.1 hb
  by_cases hij : i = j
  · subst hij
    obtain rfl : run = run' := Option.some.inj (hi.symm.trans hj)
    obtain ⟨hul, rfl⟩ := List.getElem?_eq_some_iff.1 hu
    obtain ⟨hvl, rfl⟩ := List.getElem?_eq_some_iff.1 hv
    exact pairwise_iff_getElem.1 (hrun run (mem_of_getElem? hi)) u v hul hvl (hlt rfl)
  · exact hothers i j run run' hi hj hij a (mem_of_getElem? hu) b (mem_of_getElem? hv)

/-- **Runs that ascend are shown ascending.** -/
theorem sorted_shown {K : Type*} [LinearOrder K] {key : ℕ → ℕ → K} (value : α → K)
    (hkey : ∀ e a, unitAt runs e = some a → key e.1 e.2 = value a)
    (hfuel : left runs.length (runLength runs) (fun _ => 0) ≤ fuel)
    (hrun : ∀ run ∈ runs, run.Pairwise fun a b => value a ≤ value b) :
    (shown runs (merge (least runs.length (runLength runs) key) fuel fun _ => 0)).Pairwise
      fun a b => value a ≤ value b := by
  refine pairwise_filterMap.2 ((sorted_merge hfuel ?_).imp ?_)
  · intro i hi u v _ huv hv
    have hget : runs[i]? = some runs[i] := getElem?_eq_getElem hi
    have hvl : v < runs[i].length := by simpa [runLength, hget] using hv
    have hul : u < runs[i].length := huv.trans_lt hvl
    have hat : ∀ x (hx : x < runs[i].length), key i x = value runs[i][x] := fun x hx =>
      hkey (i, x) _ (unitAt_eq_some.2 ⟨runs[i], hget, getElem?_eq_getElem hx⟩)
    rw [hat u hul, hat v hvl]
    rcases huv.lt_or_eq with hlt | rfl
    · exact pairwise_iff_getElem.1 (hrun _ (getElem_mem hi)) u v hul hvl hlt
    · exact le_rfl
  · intro e e' hle a ha b hb
    rw [← hkey e a ha, ← hkey e' b hb]
    exact hle

end

end Lvu.Merge
