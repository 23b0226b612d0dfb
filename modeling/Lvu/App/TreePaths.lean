import Lvu.App.JsonTree
import Mathlib.Data.List.Induction

/-!
# Paths that lead back

Which rows of a record's tree have a path that names their value: those of objects whose keys are
distinct, not empty and free of the two characters a path is cut at.

* `path_leads_back` : exactly then every shown row is found by its path, no two share one, and the
  path's top-level key and JSONPath address the row's value.
-/

namespace Lvu.App.JsonTree

open List

/-! ### Texts of segments -/

/-- A segment as a path spells it behind another. -/
def Segment.text : Segment → List Char
  | .key name => '.' :: name
  | .index i => '[' :: Nat.toDigits 10 i ++ [']']

/-- A key that a path can spell. -/
def IsKey (key : List Char) : Prop := key ≠ [] ∧ ∀ c ∈ key, isInner c = true

/-- A segment that a path can spell. -/
def Segment.Good : Segment → Prop
  | .key name => IsKey name
  | .index i => i < 2 ^ 64

/-- The path of the node that some segments lead to. -/
def pathOf (ss : List Segment) : List Char := ss.foldl childPath []

theorem pathOf_append (ss : List Segment) (s : Segment) :
    pathOf (ss ++ [s]) = childPath (pathOf ss) s := by
  simp [pathOf]

theorem foldl_childPath {base : List Char} (hbase : base ≠ []) (ss : List Segment) :
    ss.foldl childPath base = base ++ ss.flatMap Segment.text := by
  induction ss generalizing base with
  | nil => simp
  | cons s ss ih =>
    have hchild : childPath base s = base ++ s.text := by
      cases s with
      | key name => simp [childPath, joinKey, hbase, Segment.text]
      | index i => simp [childPath, Segment.text]
    rw [foldl_cons, hchild, ih (by simp [hbase]), flatMap_cons, append_assoc]

theorem pathOf_cons {key : List Char} (hkey : key ≠ []) (ss : List Segment) :
    pathOf (.key key :: ss) = key ++ ss.flatMap Segment.text :=
  foldl_childPath hkey ss

theorem takeWhile_texts (ss : List Segment) (rest : List Char)
    (hrest : rest.takeWhile isInner = []) :
    (ss.flatMap Segment.text ++ rest).takeWhile isInner = [] := by
  cases ss with
  | nil => exact hrest
  | cons s ss => cases s <;> simp [Segment.text, isInner]

theorem takeWhile_key {key rest : List Char} (hkey : ∀ c ∈ key, isInner c = true)
    (hrest : rest.takeWhile isInner = []) : (key ++ rest).takeWhile isInner = key := by
  rw [takeWhile_append_of_pos hkey, hrest, append_nil]

theorem splitPath_key {key rest : List Char} (hkey : IsKey key)
    (hrest : rest.takeWhile isInner = []) :
    splitPath (key ++ rest) = .key key :: splitPath (stripDot rest) := by
  have htake := takeWhile_key hkey.2 hrest
  obtain ⟨c, cs, rfl⟩ := exists_cons_of_ne_nil hkey.1
  have hc : c ≠ '[' := by
    rintro rfl
    exact absurd (hkey.2 _ mem_cons_self) (by decide)
  rw [cons_append] at htake ⊢
  rw [splitPath, if_neg hc, htake, ← cons_append, drop_left]

theorem mem_digits {c : Char} {i : ℕ} (h : c ∈ Nat.toDigits 10 i) : c.isDigit = true :=
  Nat.isDigit_of_mem_toDigits (by decide) (by decide) h

theorem takeWhile_digits (i : ℕ) (rest : List Char) :
    (Nat.toDigits 10 i ++ ']' :: rest).takeWhile (· ≠ ']') = Nat.toDigits 10 i := by
  rw [takeWhile_append_of_pos, takeWhile_cons_of_neg (by decide), append_nil]
  intro c hc
  have hdigit := mem_digits hc
  simp only [ne_eq, decide_eq_true_eq]
  rintro rfl
  exact absurd hdigit (by decide)

theorem parseUsize_digits {i : ℕ} (hi : i < 2 ^ 64) : parseUsize (Nat.toDigits 10 i) = some i := by
  obtain ⟨c, cs, h, -, hplus⟩ := toDigits_cases i
  have hread := readNat_toDigits i
  rw [h] at hread ⊢
  unfold parseUsize
  split
  · rename_i heq
    exact absurd (List.cons.inj heq).1 hplus
  · rw [hread, Option.filter_some, if_pos (by simpa using hi)]

theorem splitPath_index {i : ℕ} (hi : i < 2 ^ 64) (rest : List Char) :
    splitPath ((Segment.index i).text ++ rest) = .index i :: splitPath (stripDot rest) := by
  have htake := takeWhile_digits i rest
  rw [Segment.text, append_assoc, cons_append, singleton_append, splitPath,
    if_pos rfl, htake, parseUsize_digits hi, ← drop_drop, drop_left, drop_one,
    tail_cons]
  rfl

/-- **Segments that a path can spell are read back**, behind the first and before any text that
begins where a path is cut. -/
theorem splitPath_texts {ss : List Segment} (hss : ∀ s ∈ ss, s.Good) {rest : List Char}
    (hrest : rest.takeWhile isInner = []) :
    splitPath (stripDot (ss.flatMap Segment.text ++ rest)) = ss ++ splitPath (stripDot rest) := by
  induction ss with
  | nil => rfl
  | cons s ss ih =>
    have hs := hss s mem_cons_self
    specialize ih fun s' hs' => hss s' (mem_cons_of_mem _ hs')
    rw [flatMap_cons, append_assoc]
    cases s with
    | key name =>
      rw [Segment.text, cons_append, stripDot,
        splitPath_key hs (takeWhile_texts ss rest hrest), ih, cons_append]
    | index i =>
      have hstrip : ∀ more, stripDot ((Segment.index i).text ++ more) =
          (Segment.index i).text ++ more := fun more => by simp [Segment.text, stripDot]
      rw [hstrip, splitPath_index hs, ih, cons_append]

theorem splitPath_pathOf {key : List Char} (hkey : IsKey key) {ss : List Segment}
    (hss : ∀ s ∈ ss, s.Good) : splitPath (pathOf (.key key :: ss)) = .key key :: ss := by
  have htail := takeWhile_texts ss [] rfl
  have hback := splitPath_texts hss (takeWhile_nil (p := isInner))
  rw [append_nil] at htail hback
  rw [pathOf_cons hkey.1, splitPath_key hkey htail, hback, stripDot.eq_def, splitPath,
    append_nil]

theorem inner_of_mem_splitPath (path : List Char) {key : List Char}
    (h : Segment.key key ∈ splitPath path) : ∀ c ∈ key, isInner c = true := by
  fun_induction splitPath path with
  | case1 => cases h
  | case2 cs ih =>
    rcases mem_append.1 h with h | h
    · simp at h
    · exact ih h
  | case3 c cs hc ih =>
    rcases mem_cons.1 h with h | h
    · intro c' hc'
      rw [Segment.key.inj h] at hc'
      exact all_eq_true.1 all_takeWhile c' hc'
    · exact ih h

/-- Where the segments before a key are good and the whole path is read back, the key is good. -/
theorem isKey_of_splitPath {ss : List Segment} {key : List Char}
    (hss : ∀ s ∈ ss, s.Good) (hhead : ∀ s ∈ ss.head?, ∃ name, s = .key name)
    (h : splitPath (pathOf (ss ++ [.key key])) = ss ++ [.key key]) : IsKey key := by
  refine ⟨?_, inner_of_mem_splitPath _ (h ▸ mem_append_right _ (mem_singleton.2 rfl))⟩
  -- an empty key adds nothing or a dot, which the reader drops
  rintro rfl
  cases ss with
  | nil => simp [pathOf, childPath, joinKey, splitPath] at h
  | cons s ss =>
    obtain ⟨name, rfl⟩ := hhead s rfl
    have hname : IsKey name := hss _ mem_cons_self
    have hdot : (['.'] : List Char).takeWhile isInner = [] := by decide
    have hback := splitPath_texts (fun s hs => hss s (mem_cons_of_mem _ hs)) hdot
    have htail := takeWhile_texts ss ['.'] hdot
    rw [cons_append, pathOf_cons hname.1, flatMap_append, flatMap_singleton,
      Segment.text, splitPath_key hname htail, hback] at h
    have hlength := congrArg List.length h
    simp [stripDot, splitPath] at hlength

/-! ### Reading a JSONPath -/

theorem takeWhile_head {p : Char → Bool} {c : Char} (cs : List Char) (h : p c = false) :
    (c :: cs).takeWhile p = [] := by
  simp [h]

theorem takeWhile_spell {s : Segment} {text : List Char} (h : spell s = some text) :
    ∃ c cs, text = c :: cs ∧ isInner c = false := by
  cases s with
  | index i =>
    cases h
    exact ⟨_, _, rfl, by decide⟩
  | key name =>
    simp only [spell] at h
    split_ifs at h with hquote hplain
    · cases h
      exact ⟨_, _, rfl, by decide⟩
    · cases h
      exact ⟨_, _, rfl, by decide⟩

/-- A spelled segment is read as itself. -/
theorem readSteps_spell {s : Segment} (hs : s.Good) {text rest : List Char}
    (h : spell s = some text) (hrest : rest.takeWhile isInner = []) :
    readSteps (text ++ rest) = (readSteps rest).map (s :: ·) := by
  cases s with
  | index i =>
    cases h
    have htake := takeWhile_digits i rest
    have hquote : (Nat.toDigits 10 i ++ ']' :: rest).head? ≠ some '\'' := by
      obtain ⟨c, cs, hdigits, -, -⟩ := toDigits_cases i
      have hdigit : c.isDigit = true := mem_digits (hdigits ▸ mem_cons_self)
      rw [hdigits, cons_append, head?_cons, ne_eq, Option.some.injEq]
      rintro rfl
      exact absurd hdigit (by decide)
    rw [append_assoc, cons_append, singleton_append, readSteps, if_neg hquote, htake,
      readNat_toDigits, Option.bind_some, ← drop_drop, drop_left, drop_one,
      tail_cons]
  | key name =>
    simp only [spell] at h
    split_ifs at h with hquote hplain
    · cases h
      rw [cons_append, readSteps, takeWhile_key hs.2 hrest, drop_left]
    · cases h
      have hname : ∀ c ∈ name, decide (c ≠ '\'') = true := by
        intro c hc
        rw [decide_eq_true_eq]
        rintro rfl
        exact hquote (.inr (any_eq_true.2 ⟨_, hc, by decide⟩))
      have htake : (name ++ '\'' :: ']' :: rest).takeWhile (· ≠ '\'') = name := by
        rw [takeWhile_append_of_pos hname, takeWhile_head _ (by decide), append_nil]
      rw [append_assoc, cons_append, cons_append, readSteps, cons_append,
        cons_append, nil_append, head?_cons, if_pos rfl, tail_cons, htake]
      dsimp only
      rw [drop_left, take_succ_cons, take_succ_cons, take_zero, if_pos rfl,
        show name.length + 3 = (name.length + 2) + 1 from rfl, drop_succ_cons,
        ← drop_drop, drop_left]
      rfl

/-- **A JSONPath that is spelled is read as its segments.** -/
theorem readSteps_flatten {ss : List Segment} (hss : ∀ s ∈ ss, s.Good)
    {spelled : List (List Char)} (h : ss.mapM spell = some spelled) :
    readSteps spelled.flatten = some ss ∧ spelled.flatten.takeWhile isInner = [] := by
  induction ss generalizing spelled with
  | nil =>
    obtain rfl : [] = spelled := by simpa using h
    exact ⟨by rw [flatten_nil, readSteps], rfl⟩
  | cons s ss ih =>
    rw [mapM_cons] at h
    obtain ⟨text, htext, h⟩ := Option.bind_eq_some_iff.1 h
    obtain ⟨spelled, hspelled, h⟩ := Option.bind_eq_some_iff.1 h
    cases h
    obtain ⟨hread, htake⟩ := ih (fun s' hs' => hss s' (mem_cons_of_mem _ hs')) hspelled
    rw [flatten_cons, readSteps_spell (hss s mem_cons_self) htext htake, hread]
    obtain ⟨c, cs, rfl, hc⟩ := takeWhile_spell htext
    exact ⟨rfl, by rw [cons_append, takeWhile_head _ hc]⟩

theorem topLevelKey_pathOf {key : List Char} (hkey : IsKey key) (ss : List Segment) :
    topLevelKey (pathOf (.key key :: ss)) = key := by
  have htail := takeWhile_texts ss [] rfl
  rw [append_nil] at htail
  rw [pathOf_cons hkey.1, topLevelKey, takeWhile_key hkey.2 htail]

/-- What `nested_suffix` trims is one dot. -/
theorem dropWhile_texts {ss : List Segment} (hss : ∀ s ∈ ss, s.Good) :
    (ss.flatMap Segment.text).dropWhile (· = '.') = stripDot (ss.flatMap Segment.text) := by
  cases ss with
  | nil => rfl
  | cons s ss =>
    cases s with
    | index i => rfl
    | key name =>
      obtain ⟨hne, hinner⟩ : IsKey name := hss _ mem_cons_self
      obtain ⟨c, cs, rfl⟩ := exists_cons_of_ne_nil hne
      have hc : c ≠ '.' := by
        rintro rfl
        exact absurd (hinner _ mem_cons_self) (by decide)
      simp [Segment.text, stripDot, hc]

/-- The JSONPath of good segments is read as those below the first. -/
theorem readSteps_jsonPath {key : List Char} (hkey : IsKey key) {ss : List Segment}
    (hss : ∀ s ∈ ss, s.Good) {p : List Char} (h : jsonPath (pathOf (.key key :: ss)) = some p) :
    ∃ text, p = '$' :: text ∧ readSteps text = some ss := by
  have hback := splitPath_texts hss (takeWhile_nil (p := isInner))
  rw [append_nil] at hback
  obtain ⟨suffix, hsuffix, hp⟩ := Option.bind_eq_some_iff.1 h
  obtain ⟨spelled, hspelled, rfl⟩ := Option.map_eq_some_iff.1 hp
  rw [nestedSuffix, topLevelKey_pathOf hkey] at hsuffix
  split_ifs at hsuffix
  rw [pathOf_cons hkey.1, drop_left, dropWhile_texts hss] at hsuffix
  cases hsuffix
  rw [hback, stripDot.eq_def, splitPath, append_nil] at hspelled
  exact ⟨_, rfl, (readSteps_flatten hss hspelled).1⟩

/-! ### Where segments lead -/

/-- The nodes that segments lead to from a root, through parents of a kind. -/
inductive Leads (P : Node → Prop) (root : Node) : List Segment → NodeId → Node → Prop
  | root : Leads P root [] [] root
  | child {ss : List Segment} {id : NodeId} {node child : Node} {i : ℕ} {s : Segment}
      (h : Leads P root ss id node) (hp : P node) (hi : node.children[i]? = some (s, child)) :
      Leads P root (ss ++ [s]) (id ++ [i]) child

section

variable {P Q : Node → Prop} {root node child : Node} {ss : List Segment} {id : NodeId} {i : ℕ}
  {s : Segment}

theorem Leads.mono (hpq : ∀ n, P n → Q n) (h : Leads P root ss id node) :
    Leads Q root ss id node := by
  induction h with
  | root => exact .root
  | child _ hp hi ih => exact .child ih (hpq _ hp) hi

theorem Leads.unique (h : Leads P root ss id node) {ss' : List Segment} {node' : Node}
    (h' : Leads Q root ss' id node') : ss = ss' ∧ node = node' := by
  induction h generalizing ss' node' with
  | root =>
    generalize hid : ([] : NodeId) = id at h'
    cases h' with
    | root => exact ⟨rfl, rfl⟩
    | child => simp at hid
  | @child ss₁ id₁ node₁ child₁ i₁ s₁ h hp hi ih =>
    generalize hid : id₁ ++ [i₁] = id at h'
    cases h' with
    | root => simp at hid
    | child h₂ hp₂ hi₂ =>
      obtain ⟨rfl, hlast⟩ := append_inj' hid rfl
      obtain rfl := singleton_inj.1 hlast
      obtain ⟨rfl, rfl⟩ := ih h₂
      obtain ⟨rfl, rfl⟩ := Prod.mk.inj (Option.some.inj (hi.symm.trans hi₂))
      exact ⟨rfl, rfl⟩

theorem Leads.behind (h : Leads P root ss id node) : (ss = [] ∧ id = [] ∧ node = root) ∨
    ∃ s ss' i id' top, ss = s :: ss' ∧ id = i :: id' ∧ root.children[i]? = some (s, top) ∧
      Leads P top ss' id' node := by
  induction h with
  | root => exact .inl ⟨rfl, rfl, rfl⟩
  | child h hp hi ih =>
    obtain ⟨rfl, rfl, rfl⟩ | ⟨s', ss', i', id', top, rfl, rfl, htop, hlead⟩ := ih
    · exact .inr ⟨_, [], _, [], _, rfl, rfl, hi, .root⟩
    · exact .inr ⟨s', _, i', _, top, rfl, rfl, htop, hlead.child hp hi⟩

/-! ### Nodes whose children have names of their own -/

/-- An object whose keys are distinct and can be spelled. -/
def Node.Spelled (node : Node) : Prop :=
  ∀ entries, node = .object entries → (entries.map (·.1)).Nodup ∧ ∀ e ∈ entries, IsKey e.1

theorem filter_zipIdx {α β : Type*} [DecidableEq β] {f : α → β} {l : List α}
    (hnodup : (l.map f).Nodup) {j : ℕ} {x : α} (hj : l[j]? = some x) (k : ℕ) :
    (l.zipIdx k).filter (fun e => f e.1 = f x) = [(x, k + j)] := by
  induction l generalizing j k with
  | nil => cases hj
  | cons y l ih =>
    obtain ⟨hy, hl⟩ := nodup_cons.1 (map_cons ▸ hnodup)
    rw [zipIdx_cons]
    cases j with
    | zero =>
      cases hj
      rw [filter_cons_of_pos (by simp), filter_eq_nil_iff.2]
      · rfl
      · intro e he heq
        refine hy (mem_map.2 ⟨e.1, fst_mem_of_mem_zipIdx he, ?_⟩)
        simpa using heq
    | succ j =>
      rw [getElem?_cons_succ] at hj
      have hne : f y ≠ f x := fun heq =>
        hy (heq ▸ mem_map_of_mem (mem_of_getElem? hj))
      rw [filter_cons_of_neg (by simpa using hne), ih hl hj, Nat.add_right_comm, Nat.add_assoc]

theorem Node.nodup_children (h : node.Spelled) : (node.children.map (·.1)).Nodup := by
  cases node with
  | object entries =>
    have hkeys := (h entries rfl).1.map fun _ _ heq => Segment.key.inj heq
    rw [map_map] at hkeys
    rw [children, map_map]
    exact hkeys
  | array items =>
    have hindexes : (items.zipIdx.map (·.2)).Nodup :=
      zipIdx_map_snd 0 items ▸ nodup_range'
    have hsegments := hindexes.map fun _ _ heq => Segment.index.inj heq
    rw [map_map] at hsegments
    rw [children, map_map]
    exact hsegments
  | scalar kind => exact nodup_nil

/-- A child by its position is the child by its segment. -/
theorem Node.child_of_children (h : node.Spelled) (hi : node.children[i]? = some (s, child)) :
    node.child s = some (i, child) := by
  cases node with
  | object entries =>
    rw [children, getElem?_map] at hi
    obtain ⟨entry, hentry, heq⟩ := Option.map_eq_some_iff.1 hi
    obtain ⟨rfl, rfl⟩ := Prod.mk.inj heq
    have hfilter := filter_zipIdx (h entries rfl).1 hentry 0
    rw [Node.child, ← head?_filter, hfilter, Nat.zero_add]
    rfl
  | array items =>
    rw [children, getElem?_map, getElem?_zipIdx] at hi
    obtain ⟨item, hitem, heq⟩ := Option.map_eq_some_iff.1 hi
    obtain ⟨item, hitem', rfl⟩ := Option.map_eq_some_iff.1 hitem
    obtain ⟨rfl, rfl⟩ := Prod.mk.inj heq
    rw [Node.child, Nat.zero_add, hitem']
    rfl
  | scalar kind => cases hi

theorem Node.children_of_child (h : node.child s = some (i, child)) :
    node.children[i]? = some (s, child) := by
  unfold Node.child at h
  split at h
  · rename_i entries key
    obtain ⟨entry, hfind, heq⟩ := Option.map_eq_some_iff.1 h
    obtain ⟨rfl, rfl⟩ := Prod.mk.inj heq
    have hkey : entry.1.1 = key := by simpa using find?_some hfind
    have hentry := mem_zipIdx_iff_getElem?.1 (mem_of_find?_eq_some hfind)
    rw [children, getElem?_map, hentry, ← hkey]
    rfl
  · rename_i items index
    obtain ⟨item, hitem, heq⟩ := Option.map_eq_some_iff.1 h
    obtain ⟨rfl, rfl⟩ := Prod.mk.inj heq
    rw [children, getElem?_map, getElem?_zipIdx, hitem, Nat.zero_add]
    rfl
  · cases h

theorem walk_append (ss : List Segment) (s : Segment) :
    walk root (ss ++ [s]) = (walk root ss).bind fun at' => enter at' s := by
  simp only [walk, foldlM_append, foldlM_cons, foldlM_nil, bind_pure]
  rfl

theorem Leads.walk (h : Leads Node.Spelled root ss id node) :
    walk root ss = some (id, node) := by
  induction h with
  | root => rfl
  | child h hp hi ih =>
    rw [walk_append, ih, Option.bind_some, enter, Node.child_of_children hp hi]
    rfl

theorem leads_of_walk (h : walk root ss = some (id, node)) :
    Leads (fun _ => True) root ss id node := by
  induction ss using List.reverseRec generalizing id node with
  | nil =>
    cases h
    exact .root
  | append_singleton ss s ih =>
    rw [walk_append] at h
    obtain ⟨⟨id', node'⟩, hwalk, henter⟩ := Option.bind_eq_some_iff.1 h
    obtain ⟨⟨i, child⟩, hchild, heq⟩ := Option.map_eq_some_iff.1 henter
    obtain ⟨rfl, rfl⟩ := Prod.mk.inj heq
    exact (ih hwalk).child trivial (Node.children_of_child hchild)

theorem Leads.selectSteps (h : Leads Node.Spelled root ss id node) :
    selectSteps root ss = [(id, node)] := by
  induction h with
  | root => rfl
  | child h hp hi ih =>
    unfold JsonTree.selectSteps at ih ⊢
    rw [foldl_append, ih, foldl_cons, foldl_nil, visit, flatMap_singleton,
      filter_zipIdx (Node.nodup_children hp) hi 0, Nat.zero_add]
    rfl

end

/-! ### Rows -/

/-- The row of a child. -/
def rowOf (expanded : List Char → Bool) (base : List Char) (depth : ℕ) (id : NodeId)
    (e : (Segment × Node) × ℕ) : TreeRow :=
  ⟨childPath base e.1.1, depth, e.1.1.label, id ++ [e.2],
    e.1.2.shape expanded (childPath base e.1.1)⟩

theorem pushChildren_eq (expanded : List Char → Bool) (node : Node) (base : List Char) (depth : ℕ)
    (id : NodeId) : pushChildren expanded node base depth id =
      node.children.zipIdx.flatMap fun e => rowOf expanded base depth id e ::
        if (rowOf expanded base depth id e).shape.isOpen then
          pushChildren expanded e.1.2 (childPath base e.1.1) (depth + 1) (id ++ [e.2])
        else [] := by
  have hattach : node.children.zipIdx = node.children.attach.zipIdx.map fun e => (e.1.1, e.2) := by
    conv_lhs => rw [← attach_map_subtype_val node.children, zipIdx_map]
    rfl
  rw [pushChildren, hattach, flatMap_map]
  rfl

theorem mem_pushChildren {expanded : List Char → Bool} {node : Node} {base : List Char} {depth : ℕ}
    {id : NodeId} {row : TreeRow} : row ∈ pushChildren expanded node base depth id ↔
      ∃ i s child, node.children[i]? = some (s, child) ∧
        (row = rowOf expanded base depth id ((s, child), i) ∨
          (rowOf expanded base depth id ((s, child), i)).shape.isOpen = true ∧
            row ∈ pushChildren expanded child (childPath base s) (depth + 1) (id ++ [i])) := by
  rw [pushChildren_eq, mem_flatMap]
  constructor
  · rintro ⟨⟨⟨s, child⟩, i⟩, he, hrow⟩
    refine ⟨i, s, child, mem_zipIdx_iff_getElem?.1 he, ?_⟩
    rcases mem_cons.1 hrow with hrow | hrow
    · exact .inl hrow
    · split_ifs at hrow with hopen
      · exact .inr ⟨hopen, hrow⟩
      · cases hrow
  · rintro ⟨i, s, child, hi, hrow⟩
    refine ⟨((s, child), i), mem_zipIdx_iff_getElem?.2 hi, mem_cons.2 ?_⟩
    exact hrow.imp_right fun hdeep => by rw [if_pos hdeep.1]; exact hdeep.2

theorem node_of_pushChildren {expanded : List Char → Bool} (node : Node) {base : List Char}
    {depth : ℕ} {id : NodeId} {row : TreeRow} (h : row ∈ pushChildren expanded node base depth id) :
    ∃ i rest, row.node = id ++ i :: rest := by
  obtain ⟨i, s, child, hi, rfl | ⟨-, hdeep⟩⟩ := mem_pushChildren.1 h
  · exact ⟨i, [], rfl⟩
  · obtain ⟨j, rest, hnode⟩ := node_of_pushChildren child hdeep
    exact ⟨i, j :: rest, by rw [hnode, append_assoc, singleton_append]⟩
termination_by node
decreasing_by exact Node.sizeOf_children (mem_of_getElem? hi)

/-- No two rows are of one node. -/
theorem nodup_nodes (expanded : List Char → Bool) (node : Node) (base : List Char) (depth : ℕ)
    (id : NodeId) : ((pushChildren expanded node base depth id).map (·.node)).Nodup := by
  rw [pushChildren_eq, map_flatMap]
  refine nodup_flatMap.2 ⟨fun e he => ?_, ?_⟩
  · have hchild := mem_of_getElem? (mem_zipIdx_iff_getElem?.1 he)
    rw [map_cons]
    split_ifs with hopen
    · refine nodup_cons.2 ⟨fun hmem => ?_, nodup_nodes expanded e.1.2 _ _ _⟩
      obtain ⟨row, hrow, heq⟩ := mem_map.1 hmem
      obtain ⟨i, rest, hnode⟩ := node_of_pushChildren e.1.2 hrow
      rw [hnode, rowOf] at heq
      simp at heq
    · simp
  · -- rows of different children differ at the place of the child
    have hindex : node.children.zipIdx.Pairwise fun e e' => e.2 ≠ e'.2 :=
      pairwise_map.1 (zipIdx_map_snd 0 node.children ▸ nodup_range')
    have hblock : ∀ (e : (Segment × Node) × ℕ) (id' : NodeId), id' ∈
        (rowOf expanded base depth id e :: if (rowOf expanded base depth id e).shape.isOpen then
          pushChildren expanded e.1.2 (childPath base e.1.1) (depth + 1) (id ++ [e.2])
        else []).map (·.node) → ∃ rest, id' = id ++ e.2 :: rest := by
      intro e id' hid
      obtain ⟨row, hrow, rfl⟩ := mem_map.1 hid
      rcases mem_cons.1 hrow with rfl | hrow
      · exact ⟨[], rfl⟩
      · split_ifs at hrow
        · obtain ⟨i, rest, hnode⟩ := node_of_pushChildren e.1.2 hrow
          exact ⟨i :: rest, by rw [hnode, append_assoc, singleton_append]⟩
        · cases hrow
    refine hindex.imp fun hne => disjoint_left.2 fun id' hid hid' => ?_
    obtain ⟨rest, rfl⟩ := hblock _ _ hid
    obtain ⟨rest', heq⟩ := hblock _ _ hid'
    exact hne (List.cons.inj (append_cancel_left heq)).1
termination_by node
decreasing_by exact Node.sizeOf_children hchild

/-- The nodes whose children are drawn, and the segments that lead to them. -/
inductive Opened (expanded : List Char → Bool) (root : Node) : List Segment → NodeId → Node → Prop
  | root : Opened expanded root [] [] root
  | child {ss : List Segment} {id : NodeId} {node child : Node} {i : ℕ} {s : Segment}
      (h : Opened expanded root ss id node) (hi : node.children[i]? = some (s, child))
      (he : expanded (pathOf (ss ++ [s])) = true) :
      Opened expanded root (ss ++ [s]) (id ++ [i]) child

section

variable {expanded : List Char → Bool} {root node child : Node} {ss : List Segment} {id : NodeId}
  {i : ℕ} {s : Segment} {row : TreeRow}

theorem Opened.leads (h : Opened expanded root ss id node) :
    Leads (fun _ => True) root ss id node := by
  induction h with
  | root => exact .root
  | child _ hi _ ih => exact ih.child trivial hi

/-- A row is of a child of an opened node. -/
def IsRow (expanded : List Char → Bool) (root : Node) (row : TreeRow) : Prop :=
  ∃ ss id node i s child, Opened expanded root ss id node ∧ node.children[i]? = some (s, child) ∧
    row = rowOf expanded (pathOf ss) ss.length id ((s, child), i)

theorem isRow_of_mem (node : Node) {ss : List Segment} {id : NodeId}
    (h : Opened expanded root ss id node)
    (hrow : row ∈ pushChildren expanded node (pathOf ss) ss.length id) :
    IsRow expanded root row := by
  obtain ⟨i, s, child, hi, rfl | ⟨hopen, hdeep⟩⟩ := mem_pushChildren.1 hrow
  · exact ⟨ss, id, node, i, s, child, h, hi, rfl⟩
  · have hexpanded : expanded (pathOf (ss ++ [s])) = true := by
      rw [pathOf_append]
      cases child with
      | scalar kind => cases hopen
      | _ => exact hopen
    refine isRow_of_mem child (h.child hi hexpanded) ?_
    rw [pathOf_append, length_append]
    exact hdeep
termination_by node
decreasing_by exact Node.sizeOf_children (mem_of_getElem? hi)

theorem mem_rows_of_opened (h : Opened expanded root ss id node)
    (hrow : row ∈ pushChildren expanded node (pathOf ss) ss.length id) :
    row ∈ rows expanded root := by
  induction h with
  | root => exact hrow
  | @child ss₁ id₁ node₁ child₁ i₁ s₁ h hi he ih =>
    refine ih (mem_pushChildren.2 ⟨i₁, s₁, child₁, hi, .inr ⟨?_, ?_⟩⟩)
    · cases child₁ with
      | scalar kind =>
        obtain ⟨j, s', child', hj, -⟩ := mem_pushChildren.1 hrow
        cases hj
      | _ => rw [pathOf_append] at he; exact he
    · rw [pathOf_append, length_append] at hrow
      exact hrow

/-- **The rows are those of the children of opened nodes.** -/
theorem mem_rows : row ∈ rows expanded root ↔ IsRow expanded root row := by
  constructor
  · exact isRow_of_mem root .root
  · rintro ⟨ss, id, node, i, s, child, h, hi, rfl⟩
    exact mem_rows_of_opened h (mem_pushChildren.2 ⟨i, s, child, hi, .inl rfl⟩)

end

/-! ### Paths -/

/-- The tree of a record: an object, whose containers are as long as `classify` admits. -/
structure RecordTree where
  entries : List (List Char × Node)
  within : ∀ ss id node, Leads (fun _ => True) (.object entries) ss id node →
    node.children.length ≤ MAX_JSON_TOKENS

def RecordTree.root (tree : RecordTree) : Node := .object tree.entries

/-- What is wanted of the paths of the rows that are drawn. -/
structure LeadsBack (tree : RecordTree) (expanded : List Char → Bool) : Prop where
  /-- A row's node is found by its path. -/
  found : ∀ row ∈ rows expanded tree.root, find tree.root row.path = some row.node
  /-- Two rows never share a path. -/
  apart : ((rows expanded tree.root).map (·.path)).Nodup
  /-- A path names the top-level member its row lies under, and its JSONPath selects exactly the
  row's node in that member. -/
  addresses : ∀ row ∈ rows expanded tree.root, ∃ i rest entry, row.node = i :: rest ∧
    tree.entries[i]? = some entry ∧ topLevelKey row.path = entry.1 ∧
    ∀ p, jsonPath row.path = some p → select entry.2 p = [rest]

section

variable {tree : RecordTree} {expanded : List Char → Bool} {node child : Node}
  {ss : List Segment} {id : NodeId} {i : ℕ} {s : Segment}

theorem good_of_children (hspelled : node.Spelled)
    (hlength : node.children.length ≤ MAX_JSON_TOKENS)
    (hi : node.children[i]? = some (s, child)) : s.Good := by
  obtain ⟨hlt, -⟩ := List.getElem?_eq_some_iff.1 hi
  cases node with
  | object entries =>
    rw [Node.children, getElem?_map] at hi
    obtain ⟨entry, hentry, heq⟩ := Option.map_eq_some_iff.1 hi
    obtain ⟨rfl, rfl⟩ := Prod.mk.inj heq
    exact (hspelled entries rfl).2 entry (mem_of_getElem? hentry)
  | array items =>
    rw [Node.children, getElem?_map, getElem?_zipIdx] at hi
    obtain ⟨item, hitem, heq⟩ := Option.map_eq_some_iff.1 hi
    obtain ⟨item, -, rfl⟩ := Option.map_eq_some_iff.1 hitem
    obtain ⟨rfl, rfl⟩ := Prod.mk.inj heq
    have hbound : MAX_JSON_TOKENS < 2 ^ 64 := by decide
    simp only [Segment.Good]
    omega
  | scalar kind => cases hi

theorem Leads.good (h : Leads Node.Spelled tree.root ss id node) : ∀ s ∈ ss, s.Good := by
  induction h with
  | root => simp
  | child h hp hi ih =>
    intro s' hs'
    rcases mem_append.1 hs' with hs' | hs'
    · exact ih s' hs'
    · obtain rfl := mem_singleton.1 hs'
      exact good_of_children hp (tree.within _ _ _ (h.mono fun _ _ => trivial)) hi

theorem Leads.member {P : Node → Prop} (h : Leads P tree.root ss id node) (hss : ss ≠ []) :
    ∃ entry ss' i rest, ss = .key entry.1 :: ss' ∧ id = i :: rest ∧
      tree.entries[i]? = some entry ∧ Leads P entry.2 ss' rest node := by
  obtain ⟨rfl, -, -⟩ | ⟨s, ss', i, rest, top, rfl, rfl, htop, hlead⟩ := h.behind
  · exact absurd rfl hss
  · rw [RecordTree.root, Node.children, getElem?_map] at htop
    obtain ⟨entry, hentry, heq⟩ := Option.map_eq_some_iff.1 htop
    obtain ⟨rfl, rfl⟩ := Prod.mk.inj heq
    exact ⟨entry, ss', i, rest, rfl, rfl, hentry, hlead⟩

/-- Where the path of every row is found, an opened node behind spelled ones is spelled. -/
theorem spelled_of_found (hback : LeadsBack tree expanded)
    (h : Opened expanded tree.root ss id node) (hlead : Leads Node.Spelled tree.root ss id node) :
    node.Spelled := by
  rintro entries rfl
  -- the row of an entry is found where it is
  have hfound : ∀ (j : ℕ) (entry : List Char × Node), entries[j]? = some entry →
      (Node.object entries).children[j]? = some (.key entry.1, entry.2) ∧
        find tree.root (pathOf (ss ++ [.key entry.1])) = some (id ++ [j]) := by
    intro j entry hj
    have hchild : (Node.object entries).children[j]? = some (.key entry.1, entry.2) := by
      rw [Node.children, getElem?_map, hj]
      rfl
    have hrow := hback.found _ (mem_rows.2 ⟨ss, id, _, j, _, _, h, hchild, rfl⟩)
    rw [rowOf, ← pathOf_append] at hrow
    exact ⟨hchild, hrow⟩
  refine ⟨nodup_iff_getElem?_ne_getElem?.2 fun j j' hlt hj' heq => ?_, fun entry hentry => ?_⟩
  · rw [length_map] at hj'
    rw [getElem?_map, getElem?_map, getElem?_eq_getElem hj',
      getElem?_eq_getElem (hlt.trans hj'), Option.map_some, Option.map_some,
      Option.some.injEq] at heq
    have hfirst := (hfound j _ (getElem?_eq_getElem (hlt.trans hj'))).2
    have hsecond := (hfound j' _ (getElem?_eq_getElem hj')).2
    rw [heq, hsecond, Option.some.injEq] at hfirst
    have hindex := (List.cons.inj (append_cancel_left hfirst)).1
    omega
  · obtain ⟨j, hj⟩ := mem_iff_getElem?.1 hentry
    obtain ⟨hchild, hfind⟩ := hfound j entry hj
    obtain ⟨⟨id', node'⟩, hwalk, hid⟩ := Option.map_eq_some_iff.1 hfind
    obtain rfl : id' = id ++ [j] := hid
    -- the path is read as the segments that lead to the entry
    have hread := ((leads_of_walk hwalk).unique (h.leads.child trivial hchild)).1
    refine isKey_of_splitPath hlead.good (fun s hs => ?_) hread
    obtain ⟨entry', ss', -, -, rfl, -⟩ := hlead.member (by rintro rfl; cases hs)
    exact ⟨entry'.1, (Option.some.inj hs).symm⟩

theorem Opened.through (h : Opened expanded tree.root ss id node)
    (hspelled : ∀ ss id node, Opened expanded tree.root ss id node →
      Leads Node.Spelled tree.root ss id node → node.Spelled) :
    Leads Node.Spelled tree.root ss id node := by
  induction h with
  | root => exact .root
  | child h hi _ ih => exact ih.child (hspelled _ _ _ h ih) hi

end

/-- **A tree path leads back to its value** exactly where, in every object whose entries are drawn,
the keys are distinct, not empty and without a dot or an opening bracket. -/
theorem path_leads_back (tree : RecordTree) (expanded : List Char → Bool) :
    LeadsBack tree expanded ↔
      ∀ ss id node, Opened expanded tree.root ss id node → node.Spelled := by
  refine ⟨fun hback ss id node h => ?_, fun hspelled => ?_⟩
  · exact spelled_of_found hback h (h.through fun _ _ _ => spelled_of_found hback)
  -- a row's segments are good and lead to it through spelled nodes
  have hrow : ∀ row ∈ rows expanded tree.root, ∃ entry ss' i rest node,
      row.path = pathOf (.key entry.1 :: ss') ∧ row.node = i :: rest ∧
        tree.entries[i]? = some entry ∧ (∀ s ∈ Segment.key entry.1 :: ss', s.Good) ∧
        Leads Node.Spelled tree.root (.key entry.1 :: ss') (i :: rest) node ∧
        Leads Node.Spelled entry.2 ss' rest node := by
    intro row hmem
    obtain ⟨ss, id, node, i, s, child, h, hi, rfl⟩ := mem_rows.1 hmem
    have hlead : Leads Node.Spelled tree.root (ss ++ [s]) (id ++ [i]) child :=
      (h.through fun _ _ _ h' _ => hspelled _ _ _ h').child (hspelled _ _ _ h) hi
    obtain ⟨entry, ss', i', rest, hss, hid, hentry, hbelow⟩ := hlead.member (by simp)
    refine ⟨entry, ss', i', rest, child, ?_, hid, hentry, hss ▸ hlead.good, hss ▸ hid ▸ hlead,
      hbelow⟩
    rw [← hss, pathOf_append]
    rfl
  have hfound : ∀ row ∈ rows expanded tree.root, find tree.root row.path = some row.node := by
    intro row hmem
    obtain ⟨entry, ss', i, rest, node, hpath, hnode, -, hgood, hlead, -⟩ := hrow row hmem
    rw [hpath, hnode, find, splitPath_pathOf (hgood _ mem_cons_self)
      fun s hs => hgood s (mem_cons_of_mem _ hs), hlead.walk]
    rfl
  refine ⟨hfound, ?_, fun row hmem => ?_⟩
  · have hnodes := pairwise_map.1 (nodup_nodes expanded tree.root [] 0 [])
    refine pairwise_map.2 (hnodes.imp_of_mem fun hrow hrow' hne heq => hne ?_)
    have hsame := hfound _ hrow
    rw [heq, hfound _ hrow'] at hsame
    exact (Option.some.inj hsame).symm
  · obtain ⟨entry, ss', i, rest, node, hpath, hnode, hentry, hgood, -, hbelow⟩ := hrow row hmem
    have hkey : IsKey entry.1 := hgood _ mem_cons_self
    refine ⟨i, rest, entry, hnode, hentry, hpath ▸ topLevelKey_pathOf hkey ss', fun p hp => ?_⟩
    rw [hpath] at hp
    obtain ⟨text, rfl, hread⟩ :=
      readSteps_jsonPath hkey (fun s hs => hgood s (mem_cons_of_mem _ hs)) hp
    rw [select, hread, Option.elim_some, hbelow.selectSteps]
    rfl

theorem dotted_within {ss : List Segment} {id : NodeId} {node : Node}
    (h : Leads (fun _ => True) (.object [(['a', '.', 'b'], .scalar .number)]) ss id node) :
    node.children.length ≤ MAX_JSON_TOKENS := by
  obtain ⟨-, -, rfl⟩ | ⟨s, ss', i, id', top, -, -, htop, hlead⟩ := h.behind
  · decide
  · obtain rfl : top = .scalar .number :=
      (Prod.mk.inj (mem_singleton.1 (mem_of_getElem? htop))).2
    obtain ⟨-, -, rfl⟩ | ⟨_, _, j, _, _, -, -, hj, -⟩ := hlead.behind
    · decide
    · cases hj

/-- A record with one member, whose key has a dot. -/
def dotted : RecordTree where
  entries := [(['a', '.', 'b'], .scalar .number)]
  within _ _ _ := dotted_within

/-- Its row is not found by its path, which is read as two keys. -/
theorem dotted_lost : ¬ ∀ (tree : RecordTree) (expanded : List Char → Bool),
    LeadsBack tree expanded := by
  intro h
  have hfound := (h dotted fun _ => false).found
    (rowOf (fun _ => false) [] 0 [] ((.key ['a', '.', 'b'], .scalar .number), 0))
    (mem_pushChildren.2 ⟨0, _, _, rfl, .inl rfl⟩)
  have hsplit : splitPath ['a', '.', 'b'] = [.key ['a'], .key ['b']] := by
    simp [splitPath, isInner, stripDot]
  rw [rowOf, childPath, joinKey, if_pos rfl, find, hsplit] at hfound
  exact absurd hfound (by decide)

end Lvu.App.JsonTree
