import Mathlib.Algebra.Group.Nat.Defs
import Mathlib.Data.List.Chain
import Mathlib.Data.List.InsertIdx
import Mathlib.Data.List.Nodup
import Mathlib.Data.Nat.Log
import Mathlib.Order.Lattice

/-!
# A published sequence that is extended

Membership is published in immutable chunks that readers hold on to; a refresh adds a chunk and
merges it with those before it that are no longer (`lvu-view/src/appended.rs`).  Chunks are values,
as none is written to once it is shared.  `slice::binary_search` is a parameter.

* `run_refines` : whatever is done to any number of sequences, builders and clones, each of them
  answers as a plain list would.
* `chunks_logarithmic` : where no batch is put behind a chunk less than twice as long, the number of
  chunks is logarithmic.
-/

namespace Lvu.View

open List

variable {T : Type}

/-- What `slice::binary_search` may answer: a place of the value, or where it would go. -/
def Found [LinearOrder T] (values : List T) (value : T) : Except ℕ ℕ → Prop
  | .ok i => values[i]? = some value
  | .error i =>
    i ≤ values.length ∧ (∀ x ∈ values.take i, x < value) ∧ ∀ x ∈ values.drop i, value < x

/-- Where no two values are equal, there is one answer. -/
theorem Found.unique [LinearOrder T] {values : List T} (hsorted : values.Pairwise (· < ·))
    {value : T} {r r' : Except ℕ ℕ} (h : Found values value r) (h' : Found values value r') :
    r = r' := by
  -- a value that is there is neither before nor behind the place where it would go
  have habsent : ∀ {i j}, Found values value (.ok i) → ¬ Found values value (.error j) := by
    rintro i j hi ⟨-, hless, hmore⟩
    have hmem : value ∈ values.take j ++ values.drop j :=
      (take_append_drop j values).symm ▸ mem_of_getElem? hi
    rcases mem_append.1 hmem with hmem | hmem
    · exact lt_irrefl _ (hless _ hmem)
    · exact lt_irrefl _ (hmore _ hmem)
  have hat : ∀ {i j}, i < j → Found values value (.error i) → ¬ Found values value (.error j) := by
    rintro i j hij ⟨-, -, hmore⟩ ⟨hj, hless, -⟩
    have hi := getElem?_eq_getElem (hij.trans_le hj)
    refine lt_asymm (hmore values[i] (mem_of_getElem? (i := 0) ?_)) (hless _ ?_)
    · rw [getElem?_drop, Nat.add_zero, hi]
    · exact mem_of_getElem? (i := i) (by rw [getElem?_take_of_lt hij, hi])
  cases r with
  | ok i =>
    cases r' with
    | ok j =>
      obtain ⟨hi, hvi⟩ := List.getElem?_eq_some_iff.1 h
      obtain ⟨hj, hvj⟩ := List.getElem?_eq_some_iff.1 h'
      have hnodup : values.Nodup := hsorted.imp ne_of_lt
      rw [hnodup.getElem_inj_iff.1 (hvi.trans hvj.symm)]
    | error j => exact absurd h' (habsent h)
  | error i =>
    cases r' with
    | ok j => exact absurd h (habsent h')
    | error j =>
      rcases Nat.lt_trichotomy i j with hij | rfl | hij
      · exact absurd h' (hat hij h)
      · rfl
      · exact absurd h (hat hij h')

/-- `slice::binary_search`, which may find any of several equal values. -/
structure SliceSearch where
  run : ∀ {α : Type} [LinearOrder α], List α → α → Except ℕ ℕ
  found : ∀ {α : Type} [LinearOrder α] (values : List α) (value : α),
    values.Pairwise (· ≤ ·) → Found values value (run values value)

theorem found_first {α : Type} [LinearOrder α] {values : List α} {value : α}
    (hsorted : values.Pairwise (· ≤ ·)) :
    Found values value (let i := values.findIdx (value ≤ ·)
      if values[i]? = some value then .ok i else .error i) := by
  dsimp only
  split_ifs with hat
  · exact hat
  · refine ⟨findIdx_le_length, fun x hx => ?_, fun x hx => ?_⟩
    · obtain ⟨j, hj, rfl⟩ := mem_take_iff_getElem.1 hx
      simpa using not_of_lt_findIdx (show j < values.findIdx (value ≤ ·) by omega)
    · obtain hlt | hge := Nat.lt_or_ge (values.findIdx (value ≤ ·)) values.length
      · have hle : value ≤ values[values.findIdx (value ≤ ·)] := by
          simpa using findIdx_getElem (w := hlt)
        have hless := lt_of_le_of_ne hle fun heq => hat (by rw [getElem?_eq_getElem hlt, ← heq])
        rw [drop_eq_getElem_cons hlt, mem_cons] at hx
        obtain rfl | hx := hx
        · exact hless
        · have hpairs := hsorted.drop (i := values.findIdx (value ≤ ·))
          rw [drop_eq_getElem_cons hlt] at hpairs
          exact hless.trans_le (rel_of_pairwise_cons hpairs hx)
      · rw [drop_eq_nil_of_le hge] at hx
        cases hx

/-- A search that answers the first place. -/
instance : Inhabited SliceSearch where
  default :=
    { run := fun values value =>
        let i := values.findIdx (value ≤ ·)
        if values[i]? = some value then .ok i else .error i
      found := fun _ _ => found_first }

/-- The fields of `Appended`. -/
structure Parts (T : Type) where
  /-- Oldest first. -/
  chunks : List (List T)
  starts : List ℕ
  len : ℕ

namespace Parts

/-! ### The operations -/

/-- The loop of `extend`, on the chunks and their starts from the last one back: what is left of
them, and what is put behind it. -/
def mergeLoop : List (List T) → List ℕ → ℕ → List T → Parts T × List T
  | [], starts, len, pending => (⟨[], starts.reverse, len⟩, pending)
  | last :: chunks, starts, len, pending =>
    if last.length ≤ pending.length then
      mergeLoop chunks starts.tail (len - last.length) (last ++ pending)
    else (⟨(last :: chunks).reverse, starts.reverse, len⟩, pending)

/-- A chunk is put behind the others. -/
def put (p : Parts T) (chunk : List T) : Parts T :=
  ⟨p.chunks ++ [chunk], p.starts ++ [p.len], p.len + chunk.length⟩

/-- `extend`. -/
def extend (p : Parts T) (values : List T) : Parts T :=
  if values = [] then p
  else
    let merged := mergeLoop p.chunks.reverse p.starts.reverse p.len values
    merged.1.put merged.2

/-- `pop_last`, and the value it takes out. -/
def popLast (p : Parts T) : Option T × Parts T :=
  match p.chunks.getLast? with
  | none => (none, p)
  | some chunk =>
    let rest : Parts T := ⟨p.chunks.dropLast, p.starts.dropLast, p.len - chunk.length⟩
    (chunk.getLast?, if 1 < chunk.length then rest.put chunk.dropLast else rest)

/-- The search of `partition_point` and of `binary_search`, over the places where something holds up
to one of them. -/
def bisect (holds : ℕ → Bool) (low high : ℕ) : ℕ :=
  if low < high then
    let middle := low + (high - low) / 2
    if holds middle then bisect holds (middle + 1) high else bisect holds low middle
  else low
termination_by high - low

/-- `iter`. -/
def iter (p : Parts T) : List T := p.chunks.flatten

section
variable (slices : SliceSearch)

/-- `chunk_of`. -/
def chunkOf (p : Parts T) (index : ℕ) : Option ℕ :=
  if p.len ≤ index then none
  else match slices.run p.starts index with
    | .ok exact => some exact
    | .error after => some (after - 1)

/-- `get`. -/
def get (p : Parts T) (index : ℕ) : Option T :=
  (p.chunkOf slices index).bind fun chunk =>
    (p.chunks.getD chunk [])[index - p.starts.getD chunk 0]?

/-- `partition_point`. -/
def partitionPoint (p : Parts T) (predicate : T → Bool) : ℕ :=
  bisect (fun middle => (p.get slices middle).any predicate) 0 p.len

/-- `binary_search`: the last chunk that begins no later than the value has it, if any has. -/
def binarySearch [LinearOrder T] (p : Parts T) (value : T) : Except ℕ ℕ :=
  let low :=
    bisect (fun middle => ((p.chunks.getD middle []).head?).any (· ≤ value)) 0 p.chunks.length
  if low = 0 then .error 0
  else match slices.run (p.chunks.getD (low - 1) []) value with
    | .ok index => .ok (p.starts.getD (low - 1) 0 + index)
    | .error index => .error (p.starts.getD (low - 1) 0 + index)

end

/-! ### Parts that fit -/

/-- Where chunks begin, the first at a place. -/
def offsets (at' : ℕ) : List (List T) → List ℕ
  | [] => []
  | chunk :: chunks => at' :: offsets (at' + chunk.length) chunks

/-- No chunk is empty, and the chunks begin and end where it is said. -/
structure Fits (p : Parts T) : Prop where
  nonempty : ∀ chunk ∈ p.chunks, chunk ≠ []
  starts : p.starts = offsets 0 p.chunks
  len : p.len = p.iter.length

variable {p : Parts T} {chunk values : List T}

theorem offsets_append (at' : ℕ) (cs ds : List (List T)) :
    offsets at' (cs ++ ds) = offsets at' cs ++ offsets (at' + cs.flatten.length) ds := by
  induction cs generalizing at' with
  | nil => rfl
  | cons c cs ih =>
    simp only [cons_append, offsets, ih, flatten_cons, length_append, Nat.add_assoc]

theorem iter_put (p : Parts T) (chunk : List T) : (p.put chunk).iter = p.iter ++ chunk := by
  simp [put, iter]

theorem Fits.put (h : p.Fits) (hchunk : chunk ≠ []) : (p.put chunk).Fits where
  nonempty c hc := by
    rcases mem_append.1 hc with hc | hc
    · exact h.nonempty c hc
    · exact mem_singleton.1 hc ▸ hchunk
  starts := by
    rw [Parts.put, offsets_append, h.starts, h.len]
    simp [offsets, iter]
  len := by
    rw [iter_put, length_append, ← h.len]
    rfl

/-- What fits, without its last chunk. -/
theorem Fits.init {init : List (List T)} (h : p.Fits) (hp : p.chunks = init ++ [chunk]) :
    Fits ⟨init, p.starts.dropLast, p.len - chunk.length⟩ where
  nonempty c hc := h.nonempty c (hp ▸ mem_append_left _ hc)
  starts := by
    rw [h.starts, hp, offsets_append]
    simp [offsets]
  len := by
    rw [h.len, iter, hp]
    simp [iter]

/-- The merged chunks are the last ones. -/
theorem mergeLoop_spec (h : p.Fits) (pending : List T) : ∃ rest merged,
    mergeLoop p.chunks.reverse p.starts.reverse p.len pending = (rest, merged.flatten ++ pending) ∧
      rest.Fits ∧ p.chunks = rest.chunks ++ merged := by
  obtain ⟨chunks, starts, len⟩ := p
  induction chunks using List.reverseRec generalizing starts len pending with
  | nil => exact ⟨_, [], rfl, by simpa using h, rfl⟩
  | append_singleton init last ih =>
    simp only [reverse_append, reverse_singleton, singleton_append, mergeLoop]
    split_ifs with hle
    · obtain ⟨rest, merged, hrun, hfits, hchunks⟩ := ih (last ++ pending) _ _ (h.init rfl)
      rw [tail_reverse, hrun]
      exact ⟨rest, merged ++ [last], by simp, hfits, by simp [show init = _ from hchunks]⟩
    · exact ⟨_, [], rfl, by simpa using h, by simp⟩

theorem extend_spec (h : p.Fits) (values : List T) :
    (p.extend values).Fits ∧ (p.extend values).iter = p.iter ++ values := by
  unfold extend
  split_ifs with hempty
  · exact ⟨h, by rw [hempty, append_nil]⟩
  · obtain ⟨rest, merged, hrun, hfits, hchunks⟩ := mergeLoop_spec h values
    rw [hrun]
    refine ⟨hfits.put (by simp [hempty]), ?_⟩
    rw [iter_put, iter, iter, hchunks, flatten_append, append_assoc]

theorem popLast_spec (h : p.Fits) : p.popLast.2.Fits ∧ p.popLast.2.iter = p.iter.dropLast ∧
    p.popLast.1 = p.iter.getLast? := by
  unfold popLast
  obtain hchunks | ⟨init, chunk, hchunks⟩ := eq_nil_or_concat' p.chunks
  · simp [hchunks, iter, h]
  · have hne : chunk ≠ [] := h.nonempty chunk (by simp [hchunks])
    have hinit := h.init hchunks
    obtain ⟨front, last, rfl⟩ := (eq_nil_or_concat' chunk).resolve_left hne
    have hiter : p.iter = init.flatten ++ front ++ [last] := by simp [iter, hchunks]
    simp only [hchunks, getLast?_concat, dropLast_concat, dropLast_concat, hiter]
    split_ifs with hlong
    · refine ⟨hinit.put (by rintro rfl; simp at hlong), ?_⟩
      rw [iter_put]
      simp [iter]
    · obtain rfl : front = [] := by simpa using hlong
      exact ⟨hinit, by simp [iter]⟩

/-! ### Where a value is -/

/-- Where a chunk begins. -/
def startOf (chunks : List (List T)) (k : ℕ) : ℕ := (chunks.take k).flatten.length

variable {cs : List (List T)} {k i : ℕ}

theorem startOf_succ (hk : cs[k]? = some chunk) :
    startOf cs (k + 1) = startOf cs k + chunk.length := by
  simp [startOf, take_add_one, hk]

theorem getElem?_offsets (at' : ℕ) (hk : k < cs.length) :
    (offsets at' cs)[k]? = some (at' + startOf cs k) := by
  induction cs generalizing at' k with
  | nil => simp at hk
  | cons c cs ih =>
    cases k with
    | zero => simp [offsets, startOf]
    | succ k =>
      rw [offsets, getElem?_cons_succ, ih _ (by simpa using hk)]
      simp [startOf, Nat.add_assoc]

theorem length_offsets (at' : ℕ) (cs : List (List T)) : (offsets at' cs).length = cs.length := by
  induction cs generalizing at' with
  | nil => rfl
  | cons c cs ih => simp [offsets, ih]

theorem sorted_offsets (at' : ℕ) (cs : List (List T)) :
    (offsets at' cs).Pairwise (· ≤ ·) ∧ ∀ x ∈ offsets at' cs, at' ≤ x := by
  induction cs generalizing at' with
  | nil => simp [offsets]
  | cons c cs ih =>
    obtain ⟨hsorted, hle⟩ := ih (at' + c.length)
    have hlater : ∀ x ∈ offsets (at' + c.length) cs, at' ≤ x := fun x hx =>
      (Nat.le_add_right _ _).trans (hle x hx)
    exact ⟨pairwise_cons.2 ⟨hlater, hsorted⟩, by simpa [offsets] using hlater⟩

/-- The values of a chunk are where it begins. -/
theorem getElem?_flatten (hk : cs[k]? = some chunk) (hi : i < chunk.length) :
    cs.flatten[startOf cs k + i]? = chunk[i]? := by
  obtain ⟨hlt, rfl⟩ := List.getElem?_eq_some_iff.1 hk
  have hcut : cs.flatten = (cs.take k).flatten ++ (cs[k] ++ (cs.drop (k + 1)).flatten) := by
    rw [← flatten_cons, ← flatten_append, getElem_cons_drop, take_append_drop]
  rw [hcut, startOf, getElem?_append_right (Nat.le_add_right _ _), Nat.add_sub_cancel_left,
    getElem?_append_left hi]

variable {slices : SliceSearch}

variable (slices) in
theorem chunkOf_spec (h : p.Fits) (hi : i < p.len) : ∃ k chunk, p.chunkOf slices i = some k ∧
    p.chunks[k]? = some chunk ∧ startOf p.chunks k ≤ i ∧ i < startOf p.chunks (k + 1) := by
  have hfound := slices.found p.starts i (h.starts ▸ (sorted_offsets 0 p.chunks).1)
  have hstart : ∀ k, k < p.chunks.length → p.starts[k]? = some (startOf p.chunks k) := by
    intro k hk
    rw [h.starts, getElem?_offsets 0 hk, Nat.zero_add]
  have hlength : p.starts.length = p.chunks.length := by rw [h.starts, length_offsets]
  have hall : startOf p.chunks p.chunks.length = p.len := by
    rw [startOf, take_length, h.len]
    rfl
  rw [chunkOf, if_neg (by omega)]
  cases hrun : slices.run p.starts i with
  | ok k =>
    rw [hrun] at hfound
    have hk : k < p.chunks.length := hlength ▸ (List.getElem?_eq_some_iff.1 hfound).1
    have hat : startOf p.chunks k = i := Option.some.inj ((hstart k hk).symm.trans hfound)
    have hchunk := getElem?_eq_getElem hk
    have hpos := length_pos_iff.2 (h.nonempty _ (mem_of_getElem? hchunk))
    exact ⟨k, _, rfl, hchunk, hat.le, by rw [startOf_succ hchunk]; omega⟩
  | error n =>
    rw [hrun] at hfound
    obtain ⟨hn, hbefore, hafter⟩ := hfound
    -- the first chunk begins at 0, so that something begins before the index
    have hmem : ∀ k, n ≤ k → k < p.chunks.length → i < startOf p.chunks k := by
      intro k hnk hk
      refine hafter _ (mem_iff_getElem?.2 ⟨k - n, ?_⟩)
      rw [getElem?_drop, Nat.add_sub_cancel' hnk, hstart k hk]
    have hzero : n ≠ 0 := by
      rintro rfl
      rcases Nat.eq_zero_or_pos p.chunks.length with hnone | hpos
      · rw [hnone] at hall
        simp [startOf] at hall
        omega
      · exact absurd (hmem 0 le_rfl hpos) (by simp [startOf])
    obtain ⟨k, rfl⟩ := Nat.exists_eq_succ_of_ne_zero hzero
    have hk : k < p.chunks.length := by omega
    refine ⟨k, _, rfl, getElem?_eq_getElem hk, (hbefore _ ?_).le, ?_⟩
    · exact mem_iff_getElem?.2 ⟨k, by rw [getElem?_take_of_lt (by omega), hstart k hk]⟩
    · rcases Nat.lt_or_ge (k + 1) p.chunks.length with hlt | hge
      · exact hmem (k + 1) le_rfl hlt
      · rw [show k + 1 = p.chunks.length by omega, hall]
        exact hi

theorem get_spec (h : p.Fits) (i : ℕ) : p.get slices i = p.iter[i]? := by
  rcases Nat.lt_or_ge i p.len with hi | hi
  · obtain ⟨k, chunk, hk, hchunk, hle, hlt⟩ := chunkOf_spec slices h hi
    have hstart : p.starts.getD k 0 = startOf p.chunks k := by
      rw [h.starts, getD_eq_getElem?_getD,
        getElem?_offsets 0 (List.getElem?_eq_some_iff.1 hchunk).1, Option.getD_some, Nat.zero_add]
    rw [startOf_succ hchunk] at hlt
    rw [get, hk, Option.bind_some, getD_eq_getElem?_getD, hchunk, Option.getD_some, hstart,
      ← getElem?_flatten hchunk (by omega), Nat.add_sub_cancel' hle]
    rfl
  · rw [get, chunkOf, if_pos hi, Option.bind_none, List.getElem?_eq_none (h.len ▸ hi)]

theorem bisect_spec (holds : ℕ → Bool) (low high : ℕ) (h : low ≤ high) :
    low ≤ bisect holds low high ∧ bisect holds low high ≤ high ∧
      (low < bisect holds low high → holds (bisect holds low high - 1) = true) ∧
      (bisect holds low high < high → holds (bisect holds low high) = false) := by
  fun_induction bisect holds low high with
  | case1 low high hlt middle hholds ih =>
    obtain ⟨hle, hge, hbelow, habove⟩ := ih (by omega)
    refine ⟨by omega, hge, fun _ => ?_, habove⟩
    rcases Nat.lt_or_ge (middle + 1) (bisect holds (middle + 1) high) with h' | h'
    · exact hbelow h'
    · rwa [show bisect holds (middle + 1) high = middle + 1 by omega, Nat.add_sub_cancel]
  | case2 low high hlt middle hholds ih =>
    obtain ⟨hle, hge, hbelow, habove⟩ := ih (by omega)
    refine ⟨hle, by omega, hbelow, fun _ => ?_⟩
    rcases Nat.lt_or_ge (bisect holds low middle) middle with h' | h'
    · exact habove h'
    · rw [show bisect holds low middle = middle by omega]
      simpa using hholds
  | case3 low high hge =>
    exact ⟨le_rfl, h, fun hlt => absurd hlt (lt_irrefl _), fun hlt => absurd hlt hge⟩

/-- Where a predicate holds up to a place, that place is found. -/
theorem partitionPoint_spec (h : p.Fits) {predicate : T → Bool} {n : ℕ} (hn : n ≤ p.iter.length)
    (hbefore : ∀ x ∈ p.iter.take n, predicate x = true)
    (hafter : ∀ x ∈ p.iter.drop n, predicate x = false) :
    p.partitionPoint slices predicate = n := by
  have hholds : ∀ i < p.iter.length,
      (p.get slices i).any predicate = true ↔ i < n := by
    intro i hi
    rw [get_spec h, getElem?_eq_getElem hi, Option.any_some]
    refine ⟨fun hpredicate => ?_, fun hlt => ?_⟩
    · by_contra hge
      have hfalse := hafter p.iter[i] (mem_iff_getElem?.2 ⟨i - n, by
        rw [getElem?_drop, Nat.add_sub_cancel' (by omega), getElem?_eq_getElem hi]⟩)
      rw [hpredicate] at hfalse
      cases hfalse
    · exact hbefore _ (mem_iff_getElem?.2 ⟨i, by
        rw [getElem?_take_of_lt hlt, getElem?_eq_getElem hi]⟩)
  obtain ⟨-, hge, hbelow, habove⟩ :=
    bisect_spec (fun i => (p.get slices i).any predicate) 0 p.len (Nat.zero_le _)
  rw [h.len] at hge hbelow habove
  unfold partitionPoint
  rw [h.len]
  generalize bisect _ 0 p.iter.length = r at hge hbelow habove ⊢
  refine le_antisymm ?_ ?_
  · by_contra hlt
    have hpos := (hholds (r - 1) (by omega)).1 (hbelow (by omega))
    omega
  · by_contra hlt
    have hfalse := habove (by omega)
    rw [(hholds r (by omega)).2 (by omega)] at hfalse
    cases hfalse

/-- In ascending values, a value is found or would go where it is said. -/
theorem binarySearch_spec [LinearOrder T] (h : p.Fits) (hsorted : p.iter.Pairwise (· ≤ ·))
    (value : T) : Found p.iter value (p.binarySearch slices value) := by
  have hhead : ∀ k, k < p.chunks.length → ∃ first rest, p.chunks[k]? = some (first :: rest) ∧
      p.chunks.getD k [] = first :: rest := by
    intro k hk
    obtain ⟨first, rest, hchunk⟩ := exists_cons_of_ne_nil
      (h.nonempty _ (getElem_mem hk))
    exact ⟨first, rest, by rw [getElem?_eq_getElem hk, hchunk], by
      rw [getD_eq_getElem?_getD, getElem?_eq_getElem hk, hchunk, Option.getD_some]⟩
  have hcut : ∀ k, p.iter = (p.chunks.take k).flatten ++ (p.chunks.drop k).flatten := fun k => by
    rw [← flatten_append, take_append_drop, iter]
  -- behind the chunks that begin no later, all is greater
  have hgreater : ∀ k,
      (k < p.chunks.length → ((p.chunks.getD k []).head?).any (· ≤ value) = false) →
        ∀ x ∈ (p.chunks.drop k).flatten, value < x := by
    intro k hk x hx
    rcases Nat.lt_or_ge k p.chunks.length with hlt | hge
    · obtain ⟨first, rest, hchunk, hget⟩ := hhead k hlt
      have hfirst : value < first := by
        have hnot := hk hlt
        rw [hget] at hnot
        simpa using hnot
      have hpairs := (pairwise_append.1 (hcut k ▸ hsorted)).2.1
      rw [drop_eq_getElem_cons hlt,
        Option.some.inj ((getElem?_eq_getElem hlt).symm.trans hchunk), flatten_cons,
        cons_append] at hx hpairs
      rcases mem_cons.1 hx with rfl | hx
      · exact hfirst
      · exact hfirst.trans_le (rel_of_pairwise_cons hpairs hx)
    · rw [drop_eq_nil_of_le hge] at hx
      cases hx
  obtain ⟨-, hle, hbelow, habove⟩ := bisect_spec
    (fun k => ((p.chunks.getD k []).head?).any (· ≤ value)) 0 p.chunks.length (Nat.zero_le _)
  unfold binarySearch
  generalize bisect _ 0 p.chunks.length = r at hle hbelow habove ⊢
  dsimp only
  split_ifs with hr
  · subst hr
    have hall := hgreater 0 habove
    exact ⟨Nat.zero_le _, by simp, by rw [drop_zero, hcut 0]; simpa using hall⟩
  · obtain ⟨k, rfl⟩ := Nat.exists_eq_succ_of_ne_zero hr
    obtain ⟨first, rest, hchunk, hget⟩ := hhead k (by omega)
    have hfirst : first ≤ value := by
      have hholds := hbelow (by omega)
      rw [Nat.succ_sub_one, hget] at hholds
      simpa using hholds
    have hstart : p.starts.getD k 0 = startOf p.chunks k := by
      rw [h.starts, getD_eq_getElem?_getD, getElem?_offsets 0 (by omega), Option.getD_some,
        Nat.zero_add]
    have hdrop : (p.chunks.drop k).flatten = first :: rest ++ (p.chunks.drop (k + 1)).flatten := by
      rw [drop_eq_getElem_cons (by omega),
        Option.some.inj ((getElem?_eq_getElem (by omega)).symm.trans hchunk), flatten_cons]
    have hpairs := pairwise_append.1 (hcut k ▸ hsorted)
    have hown : (first :: rest).Pairwise (· ≤ ·) := (pairwise_append.1 (hdrop ▸ hpairs.2.1)).1
    have hfound := slices.found _ value hown
    rw [Nat.succ_sub_one, hget, hstart]
    cases hrun : slices.run (first :: rest) value with
    | ok i =>
      rw [hrun] at hfound
      exact (getElem?_flatten hchunk (List.getElem?_eq_some_iff.1 hfound).1).trans hfound
    | error i =>
      rw [hrun] at hfound
      obtain ⟨hi, hless, hmore⟩ := hfound
      have hlength : (p.chunks.take k).flatten.length = startOf p.chunks k := rfl
      have hne : first ≠ value := by
        rintro rfl
        cases i with
        | zero => exact lt_irrefl _ (hmore first mem_cons_self)
        | succ i => exact lt_irrefl _ (hless first mem_cons_self)
      refine ⟨?_, fun x hx => ?_, fun x hx => ?_⟩
      · rw [hcut k, hdrop, length_append, length_append, hlength]
        omega
      · rw [hcut k, hdrop, ← hlength, take_length_add_append,
          take_append_of_le_length hi] at hx
        rcases mem_append.1 hx with hx | hx
        · exact (hpairs.2.2 x hx first (by simp [hdrop])).trans_lt (lt_of_le_of_ne hfirst hne)
        · exact hless x hx
      · rw [hcut k, hdrop, ← hlength, drop_length_add_append,
          drop_append_of_le_length hi] at hx
        rcases mem_append.1 hx with hx | hx
        · exact hmore x hx
        · exact hgreater (k + 1) habove x hx

end Parts

/-! ### Sequences and their builders -/

/-- `Appended`. -/
structure Appended (T : Type) extends Parts T where
  fits : toParts.Fits

namespace Appended

theorem fits_empty : Parts.Fits (⟨[], [], 0⟩ : Parts T) := ⟨by simp, rfl, rfl⟩

/-- `Appended::default`. -/
def empty : Appended T := ⟨⟨[], [], 0⟩, fits_empty⟩

/-- `extend`. -/
def extend (a : Appended T) (values : List T) : Appended T :=
  ⟨a.toParts.extend values, (Parts.extend_spec a.fits values).1⟩

/-- `pop_last`. -/
def popLast (a : Appended T) : Option T × Appended T :=
  (a.toParts.popLast.1, ⟨a.toParts.popLast.2, (Parts.popLast_spec a.fits).1⟩)

/-- The sequence answers as a list does. -/
structure Answers [LinearOrder T] (slices : SliceSearch) (a : Appended T) (values : List T) :
    Prop where
  iter : a.iter = values
  len : a.len = values.length
  get : ∀ i, a.get slices i = values[i]?
  last : a.popLast.1 = values.getLast?
  partitionPoint : ∀ predicate n, n ≤ values.length → (∀ x ∈ values.take n, predicate x = true) →
    (∀ x ∈ values.drop n, predicate x = false) → a.partitionPoint slices predicate = n
  binarySearch : values.Pairwise (· ≤ ·) → ∀ value, Found values value (a.binarySearch slices value)
  binarySearch_eq : values.Pairwise (· < ·) → ∀ value,
    a.binarySearch slices value = slices.run values value

theorem answers [LinearOrder T] (slices : SliceSearch) (a : Appended T) :
    a.Answers slices a.iter where
  iter := rfl
  len := a.fits.len
  get := Parts.get_spec a.fits
  last := (Parts.popLast_spec a.fits).2.2
  partitionPoint _ _ := Parts.partitionPoint_spec a.fits
  binarySearch hsorted := Parts.binarySearch_spec a.fits hsorted
  binarySearch_eq hsorted value := Found.unique hsorted
    (Parts.binarySearch_spec a.fits (hsorted.imp le_of_lt) value)
    (slices.found _ value (hsorted.imp le_of_lt))

end Appended

/-- `AppendedBuilder`. -/
structure Builder (T : Type) where
  base : Appended T
  added : List T

namespace Builder

/-- `push`. -/
def push (b : Builder T) (value : T) : Builder T := { b with added := b.added ++ [value] }

/-- A change through `last_mut`, which takes the last published value back where none is new. -/
def lastMut (b : Builder T) (change : T → T) : Builder T :=
  let reopened : Builder T :=
    if b.added = [] then ⟨b.base.popLast.2, b.base.popLast.1.toList⟩ else b
  { reopened with added := reopened.added.dropLast ++ (reopened.added.getLast?.map change).toList }

/-- `finish`. -/
def finish (b : Builder T) : Appended T := b.base.extend b.added

/-- `len`. -/
def len (b : Builder T) : ℕ := b.base.len + b.added.length

/-- `last`. -/
def last (slices : SliceSearch) (b : Builder T) : Option T :=
  b.added.getLast?.or (if b.base.len = 0 then none else b.base.get slices (b.base.len - 1))

/-- The values, in order. -/
def iter (b : Builder T) : List T := b.base.iter ++ b.added

end Builder

/-- A list whose last value is changed. -/
def changeLast (change : T → T) (values : List T) : List T :=
  values.dropLast ++ (values.getLast?.map change).toList

namespace Builder

theorem iter_lastMut (b : Builder T) (change : T → T) :
    (b.lastMut change).iter = changeLast change b.iter := by
  unfold lastMut iter changeLast
  obtain hadded | ⟨init, last, hadded⟩ := eq_nil_or_concat' b.added
  · obtain ⟨-, hiter, hlast⟩ := Parts.popLast_spec b.base.fits
    rw [if_pos hadded, hadded, append_nil]
    change b.base.popLast.2.iter ++ (b.base.popLast.1.toList.dropLast ++
      (b.base.popLast.1.toList.getLast?.map change).toList) = _
    rw [show b.base.popLast.2.iter = _ from hiter, show b.base.popLast.1 = _ from hlast]
    cases b.base.iter.getLast? <;> simp
  · rw [if_neg (by simp [hadded])]
    simp [hadded, ← append_assoc]

theorem last_eq (slices : SliceSearch) (b : Builder T) : b.last slices = b.iter.getLast? := by
  unfold last iter
  rw [getLast?_append, Parts.get_spec b.base.fits, b.base.fits.len,
    b.base.iter.getLast?_eq_getElem?]
  split_ifs with h
  · rw [length_eq_zero_iff.1 h]
    rfl
  · rfl

end Builder

/-! ### Whatever is done -/

/-- Sequences and builders, each with a place of its own. -/
structure World (A B : Type) where
  sequences : List A
  builders : List B

/-- What is done to them. -/
inductive Op (T : Type)
  | new
  | extend (a : ℕ) (values : List T)
  | pop (a : ℕ)
  | clone (a : ℕ)
  /-- A builder over a clone. -/
  | builder (a : ℕ)
  | push (b : ℕ) (value : T)
  | lastMut (b : ℕ) (change : T → T)
  | finish (b : ℕ)

/-- The step of an operation, where there is what it is done to. -/
def World.step {A B : Type} (empty : A) (extend : List T → A → A) (pop : A → A) (builder : A → B)
    (push : T → B → B) (lastMut : (T → T) → B → B) (finish : B → A) (w : World A B) :
    Op T → Option (World A B)
  | .new => some { w with sequences := w.sequences ++ [empty] }
  | .extend a values => w.sequences[a]?.map fun s =>
    { w with sequences := w.sequences.set a (extend values s) }
  | .pop a => w.sequences[a]?.map fun s => { w with sequences := w.sequences.set a (pop s) }
  | .clone a => w.sequences[a]?.map fun s => { w with sequences := w.sequences ++ [s] }
  | .builder a => w.sequences[a]?.map fun s => { w with builders := w.builders ++ [builder s] }
  | .push b value => w.builders[b]?.map fun s =>
    { w with builders := w.builders.set b (push value s) }
  | .lastMut b change => w.builders[b]?.map fun s =>
    { w with builders := w.builders.set b (lastMut change s) }
  | .finish b => w.builders[b]?.map fun s =>
    ⟨w.sequences ++ [finish s], w.builders.eraseIdx b⟩

/-- On sequences of chunks. -/
def stepChunks : World (Appended T) (Builder T) → Op T → Option (World (Appended T) (Builder T)) :=
  World.step .empty (fun values a => a.extend values) (fun a => a.popLast.2) (fun a => ⟨a, []⟩)
    (fun value b => b.push value) (fun change b => b.lastMut change) Builder.finish

/-- On plain lists. -/
def stepPlain : World (List T) (List T) → Op T → Option (World (List T) (List T)) :=
  World.step [] (fun values l => l ++ values) List.dropLast id (fun value l => l ++ [value])
    changeLast id

/-- The lists that sequences and builders stand for. -/
def World.plain (w : World (Appended T) (Builder T)) : World (List T) (List T) :=
  ⟨w.sequences.map fun a => a.iter, w.builders.map fun b => b.iter⟩

/-- What is done at a place is done to the list that stands there. -/
theorem map_at {A B C D : Type} (f : A → B) {g : A → C} {h : B → D} {k : C → D}
    (hk : ∀ x, k (g x) = h (f x)) (l : List A) (i : ℕ) :
    (l[i]?.map g).map k = ((l.map f)[i]?).map h := by
  rw [getElem?_map]
  cases l[i]? <;> simp [hk]

/-- One operation does to the chunks what it does to the lists. -/
theorem step_refines (w : World (Appended T) (Builder T)) (op : Op T) :
    (stepChunks w op).map World.plain = stepPlain w.plain op := by
  have hextend (a : Appended T) (values : List T) : (a.extend values).iter = a.iter ++ values :=
    (Parts.extend_spec a.fits values).2
  have hpop (a : Appended T) : a.popLast.2.iter = a.iter.dropLast := (Parts.popLast_spec a.fits).2.1
  cases op with
  | new => simp [stepChunks, stepPlain, World.step, World.plain, Appended.empty, Parts.iter]
  | extend a values =>
    refine map_at (fun s : Appended T => s.iter) (fun s => ?_) _ _
    simp [World.plain, List.map_set, hextend]
  | pop a =>
    refine map_at (fun s : Appended T => s.iter) (fun s => ?_) _ _
    simp [World.plain, List.map_set, hpop]
  | clone a =>
    refine map_at (fun s : Appended T => s.iter) (fun s => ?_) _ _
    simp [World.plain]
  | builder a =>
    refine map_at (fun s : Appended T => s.iter) (fun s => ?_) _ _
    simp [World.plain, Builder.iter]
  | push b value =>
    refine map_at (fun s : Builder T => s.iter) (fun s => ?_) _ _
    simp [World.plain, List.map_set, Builder.iter, Builder.push]
  | lastMut b change =>
    refine map_at (fun s : Builder T => s.iter) (fun s => ?_) _ _
    simp [World.plain, List.map_set, Builder.iter_lastMut]
  | finish b =>
    refine map_at (fun s : Builder T => s.iter) (fun s => ?_) _ _
    have hfinish : s.finish.iter = s.iter := hextend _ _
    simp [World.plain, hfinish, eraseIdx_map]

/-- **Whatever is done to sequences, their clones and builders is done to the lists they stand
for**, and each of them answers as its list does. -/
theorem run_refines [LinearOrder T] (slices : SliceSearch) (ops : List (Op T)) :
    ((ops.foldlM stepChunks ⟨[], []⟩).map World.plain =
      ops.foldlM stepPlain (⟨[], []⟩ : World (List T) (List T))) ∧
    ∀ w, ops.foldlM stepChunks ⟨[], []⟩ = some w →
      (∀ a ∈ w.sequences, a.Answers slices a.iter) ∧
      ∀ b ∈ w.builders, b.len = b.iter.length ∧ b.last slices = b.iter.getLast? := by
  refine ⟨?_, fun w _ => ⟨fun a _ => a.answers slices, fun b _ => ⟨?_, b.last_eq slices⟩⟩⟩
  · have hrun : ∀ w : World (Appended T) (Builder T),
        (ops.foldlM stepChunks w).map World.plain = ops.foldlM stepPlain w.plain := by
      induction ops with
      | nil => exact fun w => rfl
      | cons op ops ih =>
        intro w
        have hstep := step_refines w op
        rw [foldlM_cons, foldlM_cons, ← hstep]
        cases stepChunks w op with
        | none => rfl
        | some w' => exact ih w'
    exact hrun ⟨[], []⟩
  · rw [Builder.len, Builder.iter, length_append, b.base.fits.len]

/-! ### How many chunks there are -/

/-- A batch of a length is put, with the chunks that are merged into it, behind one that is at least
twice as long.  The chunks are from the last one back. -/
def Halves : List (List T) → ℕ → Prop
  | [], _ => True
  | last :: chunks, n =>
    if last.length ≤ n then Halves chunks (last.length + n) else 2 * n ≤ last.length

/-- Every batch in turn is. -/
def Halving (a : Appended T) : List (List T) → Prop
  | [] => True
  | batch :: batches => Halves a.chunks.reverse batch.length ∧ Halving (a.extend batch) batches

/-- Each chunk, from the last one back, is at most half as long as the one before it. -/
def Halved (chunks : List (List T)) : Prop :=
  chunks.IsChain fun newer older => 2 * newer.length ≤ older.length

theorem halved_mergeLoop {cs : List (List T)} {pending : List T} (hcs : Halved cs)
    (h : Halves cs pending.length) (starts : List ℕ) (len : ℕ) :
    Halved ((Parts.mergeLoop cs starts len pending).2 ::
      (Parts.mergeLoop cs starts len pending).1.chunks.reverse) := by
  fun_induction Parts.mergeLoop cs starts len pending with
  | case1 starts len pending => exact isChain_singleton _
  | case2 starts len pending last cs hle ih =>
    rw [Halves, if_pos hle, ← length_append] at h
    exact ih hcs.tail h
  | case3 starts len pending last cs hlt =>
    rw [Halves, if_neg hlt] at h
    rw [reverse_reverse]
    exact isChain_cons_cons.2 ⟨h, hcs⟩

theorem halved_extend {a : Appended T} {batch : List T} (ha : Halved a.chunks.reverse)
    (h : Halves a.chunks.reverse batch.length) : Halved (a.extend batch).chunks.reverse := by
  change Halved (a.toParts.extend batch).chunks.reverse
  unfold Parts.extend
  split_ifs with hempty
  · exact ha
  · dsimp only [Parts.put]
    rw [reverse_concat]
    exact halved_mergeLoop ha h _ _

/-- Where chunks halve, each doubles what there is. -/
theorem pow_le_length {c : List T} {cs : List (List T)} (h : Halved (c :: cs)) :
    2 ^ cs.length * c.length ≤ (c :: cs).flatten.length := by
  induction cs generalizing c with
  | nil => simp
  | cons d ds ih =>
    obtain ⟨hcd, hds⟩ := isChain_cons_cons.1 h
    calc 2 ^ (d :: ds).length * c.length = 2 ^ ds.length * (2 * c.length) := by
          rw [length_cons, Nat.pow_succ, Nat.mul_assoc]
      _ ≤ 2 ^ ds.length * d.length := Nat.mul_le_mul_left _ hcd
      _ ≤ (d :: ds).flatten.length := ih hds
      _ ≤ (c :: d :: ds).flatten.length := by simp

theorem length_chunks_le {a : Appended T} (h : Halved a.chunks.reverse) :
    a.chunks.length ≤ Nat.log 2 a.len + 1 := by
  obtain hchunks | ⟨init, c, hchunks⟩ := eq_nil_or_concat' a.chunks
  · simp [hchunks]
  · rw [hchunks, reverse_concat] at h
    have hpos := length_pos_iff.2 (a.fits.nonempty c (by simp [hchunks]))
    have hlen : ((c :: init.reverse).flatten).length = a.len := by
      rw [a.fits.len, Parts.iter, hchunks]
      simp [Nat.add_comm]
    have hpow : 2 ^ init.length ≤ a.len := by
      calc 2 ^ init.length ≤ 2 ^ init.reverse.length * c.length := by
            rw [length_reverse]
            exact Nat.le_mul_of_pos_right _ hpos
        _ ≤ a.len := hlen ▸ pow_le_length h
    rw [hchunks, length_append, length_singleton]
    exact Nat.succ_le_succ (Nat.le_log_of_pow_le Nat.one_lt_two hpow)

/-- **Where every batch is put behind a chunk at least twice as long**, the number of chunks is
logarithmic all along. -/
theorem chunks_logarithmic (batches : List (List T)) (h : Halving Appended.empty batches) :
    ∀ done, done <+: batches →
      (done.foldl Appended.extend .empty).chunks.length ≤
        Nat.log 2 (done.foldl Appended.extend .empty).len + 1 := by
  have hrun : ∀ (batches : List (List T)) (a : Appended T), Halved a.chunks.reverse →
      Halving a batches → ∀ done, done <+: batches →
        Halved (done.foldl Appended.extend a).chunks.reverse := by
    intro batches
    induction batches with
    | nil =>
      intro a ha _ done hdone
      rw [prefix_nil.1 hdone]
      exact ha
    | cons batch batches ih =>
      intro a ha h done hdone
      cases done with
      | nil => exact ha
      | cons first done =>
        obtain ⟨rfl, htail⟩ := cons_prefix_cons.1 hdone
        exact ih _ (halved_extend ha h.1) h.2 done htail
  intro done hdone
  exact length_chunks_le (hrun batches .empty isChain_nil h done hdone)

/-- Values that arrive one at a time are counted in binary. -/
theorem chunks_logarithmic_singles :
    Halving Appended.empty [[1], [2], [3], [4]] ∧
      ([[1], [2], [3], [4]].foldl Appended.extend .empty).chunks.length ≤
        Nat.log 2 ([[1], [2], [3], [4]].foldl Appended.extend .empty).len + 1 := by
  have h : Halving Appended.empty [[1], [2], [3], [4]] := by
    simp [Halving, Halves, Appended.empty, Appended.extend, Parts.extend, Parts.mergeLoop,
      Parts.put]
  exact ⟨h, chunks_logarithmic _ h _ (prefix_refl _)⟩

/-- Batches that shrink one by one are never merged: five chunks hold fifteen values. -/
theorem chunks_shrinking : ¬ ∀ batches : List (List ℕ),
    (batches.foldl Appended.extend .empty).chunks.length ≤
      Nat.log 2 (batches.foldl Appended.extend .empty).len + 1 := by
  intro h
  have hfive := h [[1, 2, 3, 4, 5], [6, 7, 8, 9], [10, 11, 12], [13, 14], [15]]
  have hlog : Nat.log 2 15 = 3 := Nat.log_eq_iff (Or.inl (by decide)) |>.2 (by decide)
  change 5 ≤ Nat.log 2 15 + 1 at hfive
  rw [hlog] at hfive
  exact absurd hfive (by decide)

end Lvu.View
