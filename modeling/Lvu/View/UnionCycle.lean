import Lvu.Data.Dict
import Lvu.Data.Cycles
import Lvu.View.Union

/-!
# Cycles among unions

A union view is made of other views, and some of these are unions with stored inputs of their own.
`detect_union_cycle` walks what a new union depends on, depth first, with marks
(`lvu-view/src/union.rs`).

* `visit`, `detectUnionCycle` : the walk as the code has it.
* `Walk.Inv` : what holds between two steps: the grey nodes are the stack, which is a walk from the
  new union, and the black ones are finished.
* `visit_spec` : a visit ends, and leaves its node finished or reports what it found.
* `detectUnionCycle_exact` : **the walk accepts exactly the unions that depend on no cycle**, on
  nothing too wide and on not too much.
-/

namespace Lvu.View

open List

/-- `MAX_VISITED` of `detect_union_cycle`. -/
def maxVisited : ℕ := 64

/-- `UnionError`, as far as `detect_union_cycle` tells it. -/
inductive UnionError
  | tooManyInputs (count maximum : ℕ)
  | unionCycle (path : String)

/-- `Mark` of `detect_union_cycle`. -/
inductive Mark
  | gray
  | black

/-- The marks and the stack of `visit`. -/
structure Walk where
  marks : Dict String Mark
  stack : List String

/-- The node is marked gray, and put on the stack. -/
def Walk.enter (w : Walk) (node : String) : Walk := ⟨w.marks.insert node .gray, w.stack ++ [node]⟩

/-- The node is taken from the stack, and marked black. -/
def Walk.leave (w : Walk) (node : String) : Walk := ⟨w.marks.insert node .black, w.stack.dropLast⟩

/-- The part of the stack from the node on, and the node again. -/
def Walk.loop (w : Walk) (node : String) : List String :=
  w.stack.drop (w.stack.idxOf node) ++ [node]

/-- What is said of a graph that is too large. -/
def exceeds : String := s!"dependency graph exceeds {maxVisited} views"

/-- The inputs are visited in turn, until one of them fails. -/
def visitAll (visit : String → Walk → Option (Except UnionError Walk)) :
    List String → Walk → Option (Except UnionError Walk)
  | [], w => some (.ok w)
  | input :: inputs, w =>
    match visit input w with
    | some (.ok w) => visitAll visit inputs w
    | failed => failed

variable (resolve : String → Option (List String))

/-- `visit`, for at most so many nested calls. -/
def visit : ℕ → String → Walk → Option (Except UnionError Walk)
  | 0, _, _ => none
  | depth + 1, node, w =>
    match w.marks.lookup node with
    | some .black => some (.ok w)
    | some .gray => some (.error (.unionCycle (" -> ".intercalate (w.loop node))))
    | none =>
      if maxVisited ≤ w.marks.size then some (.error (.unionCycle exceeds))
      else
        match resolve node with
        | none => some (.ok ((w.enter node).leave node))
        | some inputs =>
          if maxUnionInputs < inputs.length then
            some (.error (.tooManyInputs inputs.length maxUnionInputs))
          else
            match visitAll (visit depth) inputs (w.enter node) with
            | some (.ok w) => some (.ok (w.leave node))
            | failed => failed

/-- Before the walk, the new union is marked gray. -/
def Walk.start (unionViewId : String) : Walk :=
  ⟨(∅ : Dict String Mark).insert unionViewId .gray, [unionViewId]⟩

/-- `detect_union_cycle`, for at most so many nested calls. -/
def detectUnionCycle (depth : ℕ) (unionViewId : String) (inputViewIds : List String) :
    Option (Except UnionError Unit) :=
  match visitAll (visit resolve depth) inputViewIds (.start unionViewId) with
  | some (.ok _) => some (.ok ())
  | some (.error e) => some (.error e)
  | none => none

/-! ### The graph -/

section Exact

variable (unionViewId : String) (inputViewIds : List String)

/-- What a view depends on: the new union on its inputs, a stored one on those that it stored. -/
def dependencies (view : String) : List String :=
  if view = unionViewId then inputViewIds else (resolve view).getD []

/-- What the new union depends on, at any remove. -/
def reached : Set String :=
  {view | Cycles.Reaches (dependencies resolve unionViewId inputViewIds) unionViewId view}

/-- What an error tells of the graph. -/
def Earned : UnionError → Prop
  | .tooManyInputs count maximum => maximum = maxUnionInputs ∧ maxUnionInputs < count ∧
      ∃ view ∈ reached resolve unionViewId inputViewIds, ∃ inputs, resolve view = some inputs ∧
        inputs.length = count
  | .unionCycle path =>
      (∃ nodes : List String, path = " -> ".intercalate nodes ∧
        Cycles.Loop (dependencies resolve unionViewId inputViewIds) nodes ∧
          ∀ node ∈ nodes, node = unionViewId ∨ node ∈ reached resolve unionViewId inputViewIds) ∨
      path = exceeds ∧ ¬ (reached resolve unionViewId inputViewIds).encard + 1 ≤ maxVisited

/-- Between two steps of the walk. -/
structure Walk.Inv (w : Walk) : Prop where
  gray : ∀ view, w.marks.lookup view = some .gray ↔ view ∈ w.stack
  nodup : w.stack.Nodup
  first : w.stack.head? = some unionViewId
  walk : w.stack.IsChain (Cycles.Edge (dependencies resolve unionViewId inputViewIds))
  black : ∃ left, Cycles.Finished (dependencies resolve unionViewId inputViewIds) left ∧
    ∀ view, w.marks.lookup view = some .black ↔ view ∈ left
  narrow : ∀ view, w.marks.lookup view = some .black → ∀ inputs, resolve view = some inputs →
    inputs.length ≤ maxUnionInputs
  reached : ∀ view ∈ w.marks, view = unionViewId ∨ view ∈ reached resolve unionViewId inputViewIds
  size : w.marks.size ≤ maxVisited

/-- What makes a union acceptable. -/
structure Acceptable : Prop where
  /-- The new union is not among what it depends on. -/
  fresh : unionViewId ∉ reached resolve unionViewId inputViewIds
  acyclic : ∀ view ∈ reached resolve unionViewId inputViewIds,
    ¬ Cycles.Reaches (dependencies resolve unionViewId inputViewIds) view view
  narrow : ∀ view ∈ reached resolve unionViewId inputViewIds, ∀ inputs, resolve view = some inputs →
    inputs.length ≤ maxUnionInputs
  /-- With the new union, there are no more views than are visited at most. -/
  few : (reached resolve unionViewId inputViewIds).encard + 1 ≤ maxVisited

variable {resolve unionViewId inputViewIds} {w w' : Walk} {node : String} {e : UnionError}

theorem Earned.not_acceptable (h : Earned resolve unionViewId inputViewIds e) :
    ¬ Acceptable resolve unionViewId inputViewIds := by
  intro hacceptable
  cases e with
  | tooManyInputs count maximum =>
    obtain ⟨-, hcount, view, hview, inputs, hinputs, rfl⟩ := h
    exact absurd (hacceptable.narrow view hview inputs hinputs) (Nat.not_le.2 hcount)
  | unionCycle path =>
    rcases h with ⟨nodes, -, hloop, hnodes⟩ | ⟨-, hmany⟩
    · obtain ⟨node, hnode, hturn⟩ := hloop.turns
      rcases hnodes node hnode with rfl | hreached
      · exact hacceptable.fresh hturn
      · exact hacceptable.acyclic node hreached hturn
    · exact hmany hacceptable.few

/-! ### The walk -/

/-- The node is an input of the last of the stack. -/
def Walk.Leads (resolve : String → Option (List String)) (unionViewId : String)
    (inputViewIds : List String) (w : Walk) (node : String) : Prop :=
  ∃ last, w.stack.getLast? = some last ∧
    Cycles.Edge (dependencies resolve unionViewId inputViewIds) last node

namespace Walk.Inv

theorem longer (h : w.Inv resolve unionViewId inputViewIds)
    (hnode : w.Leads resolve unionViewId inputViewIds node) :
    (w.stack ++ [node]).IsChain (Cycles.Edge (dependencies resolve unionViewId inputViewIds)) := by
  obtain ⟨last, hlast, hedge⟩ := hnode
  refine isChain_append.2 ⟨h.walk, isChain_singleton _, fun a ha b hb => ?_⟩
  obtain rfl : last = a := Option.some.inj (hlast.symm.trans ha)
  obtain rfl : node = b := Option.some.inj hb
  exact hedge

theorem reaches (h : w.Inv resolve unionViewId inputViewIds)
    (hnode : w.Leads resolve unionViewId inputViewIds node) :
    node ∈ View.reached resolve unionViewId inputViewIds := by
  obtain ⟨rest, hrest⟩ := head?_eq_some_iff.1 h.first
  have hlonger := h.longer hnode
  rw [hrest, cons_append] at hlonger
  exact Cycles.reaches_last hlonger (by simp)

theorem not_mem_stack (h : w.Inv resolve unionViewId inputViewIds) (hnew : w.marks.lookup node = none) :
    node ∉ w.stack := by
  intro hmem
  rw [(h.gray node).2 hmem] at hnew
  cases hnew

theorem enter (h : w.Inv resolve unionViewId inputViewIds)
    (hnode : w.Leads resolve unionViewId inputViewIds node) (hnew : w.marks.lookup node = none)
    (hsize : w.marks.size < maxVisited) : (w.enter node).Inv resolve unionViewId inputViewIds := by
  have hstack := h.not_mem_stack hnew
  have hother {view : String} (hview : (w.enter node).marks.lookup view = some .black) :
      w.marks.lookup view = some .black := by
    rw [Walk.enter, Dict.lookup_insert_eq] at hview
    split_ifs at hview with heq
    · cases hview
    · exact hview
  constructor
  · intro view
    rw [Walk.enter, Dict.lookup_insert_eq, mem_append, mem_singleton]
    split_ifs with heq
    · simp [heq]
    · simp [heq, h.gray view]
  · exact nodup_append.2 ⟨h.nodup, nodup_singleton _, by
      rintro a ha b hb rfl
      exact hstack (mem_singleton.1 hb ▸ ha)⟩
  · rw [Walk.enter, head?_append, h.first]
    rfl
  · exact h.longer hnode
  · obtain ⟨left, hleft, hblack⟩ := h.black
    refine ⟨left, hleft, fun view => ?_⟩
    rw [Walk.enter, Dict.lookup_insert_eq, ← hblack view]
    split_ifs with heq
    · rw [heq, hnew]
      simp
    · rfl
  · exact fun view hview => h.narrow view (hother hview)
  · intro view hview
    rcases AList.mem_insert _ |>.1 hview with rfl | hview
    · exact .inr (h.reaches hnode)
    · exact h.reached view hview
  · rw [Walk.enter, Dict.size_insert_of_notMem (AList.lookup_eq_none.1 hnew)]
    exact hsize

theorem leave {stack : List String} (h : w.Inv resolve unionViewId inputViewIds)
    (hstack : w.stack = stack ++ [node]) (hbelow : stack ≠ [])
    (hdone : ∀ view ∈ dependencies resolve unionViewId inputViewIds node,
      w.marks.lookup view = some .black)
    (hnarrow : ∀ inputs, resolve node = some inputs → inputs.length ≤ maxUnionInputs) :
    (w.leave node).Inv resolve unionViewId inputViewIds := by
  have hnodup := h.nodup
  rw [hstack, nodup_append] at hnodup
  have hnot : node ∉ stack := fun hmem => hnodup.2.2 node hmem node mem_cons_self rfl
  have hgray : w.marks.lookup node = some .gray := (h.gray node).2 (by rw [hstack]; simp)
  have hdrop : (w.leave node).stack = stack := by rw [Walk.leave, hstack, dropLast_concat]
  have hmarks (view : String) : (w.leave node).marks.lookup view =
      if view = node then some .black else w.marks.lookup view := Dict.lookup_insert_eq _ _ _ _
  constructor
  · intro view
    rw [hmarks, hdrop]
    split_ifs with heq
    · subst heq
      simp [hnot]
    · rw [h.gray view, hstack]
      simp [heq]
  · rw [hdrop]
    exact hnodup.1
  · rw [hdrop]
    have hfirst := h.first
    rw [hstack, head?_append_of_ne_nil _ hbelow] at hfirst
    exact hfirst
  · rw [hdrop]
    have hwalk := h.walk
    rw [hstack] at hwalk
    exact (isChain_append.1 hwalk).1
  · obtain ⟨left, hleft, hblack⟩ := h.black
    have hnew : node ∉ left := fun hmem => by
      rw [(hblack node).2 hmem] at hgray
      cases hgray
    refine ⟨node :: left, .cons hnew (fun view hview => (hblack view).1 (hdone view hview)) hleft,
      fun view => ?_⟩
    rw [hmarks, mem_cons]
    split_ifs with heq
    · simp [heq]
    · simp [heq, hblack view]
  · intro view hview
    rw [hmarks] at hview
    split_ifs at hview with heq
    · exact heq ▸ hnarrow
    · exact h.narrow view hview
  · intro view hview
    rcases AList.mem_insert _ |>.1 hview with rfl | hview
    · exact h.reached _ (Dict.mem_of_lookup hgray)
    · exact h.reached view hview
  · rw [Walk.leave, Dict.size_insert_of_mem (Dict.mem_of_lookup hgray)]
    exact h.size

/-- **A gray node closes a cycle.** -/
theorem loop (h : w.Inv resolve unionViewId inputViewIds)
    (hnode : w.Leads resolve unionViewId inputViewIds node) (hgray : w.marks.lookup node = some .gray) :
    Cycles.Loop (dependencies resolve unionViewId inputViewIds) (w.loop node) ∧
      ∀ view ∈ w.loop node, view = unionViewId ∨ view ∈ View.reached resolve unionViewId inputViewIds := by
  have hmem : node ∈ w.stack := (h.gray node).1 hgray
  have hlt : w.stack.idxOf node < w.stack.length := idxOf_lt_length_iff.2 hmem
  have hloop : w.loop node = (w.stack ++ [node]).drop (w.stack.idxOf node) := by
    rw [drop_append_of_le_length hlt.le]
    rfl
  refine ⟨⟨?_, ?_, ?_⟩, fun view hview => ?_⟩
  · rw [hloop]
    exact (h.longer hnode).drop _
  · rw [hloop, length_drop, length_append, length_singleton]
    omega
  · rw [hloop, head?_drop, getElem?_append_left hlt, getElem?_eq_getElem hlt,
      getElem_idxOf, ← hloop]
    exact getLast?_concat
  · rw [hloop] at hview
    rcases mem_append.1 (mem_of_mem_drop hview) with hview | hview
    · exact h.reached view (Dict.mem_of_lookup ((h.gray view).2 hview))
    · exact .inr (mem_singleton.1 hview ▸ h.reaches hnode)

/-- **A new node when all marks are given is one too many.** -/
theorem many (h : w.Inv resolve unionViewId inputViewIds)
    (hnode : w.Leads resolve unionViewId inputViewIds node) (hnew : w.marks.lookup node = none)
    (hfull : maxVisited ≤ w.marks.size) :
    ¬ (View.reached resolve unionViewId inputViewIds).encard + 1 ≤ maxVisited := by
  intro hfew
  have hnot : node ∉ w.marks.keys := fun hmem => by
    obtain ⟨mark, hmark⟩ := AList.lookup_isSome.2 (AList.mem_keys.2 hmem) |> Option.isSome_iff_exists.1
    rw [hnew] at hmark
    cases hmark
  have hnodup : (node :: w.marks.keys).Nodup := nodup_cons.2 ⟨hnot, w.marks.keys_nodup⟩
  have hsub : ((node :: w.marks.keys).toFinset : Set String) ⊆
      insert unionViewId (View.reached resolve unionViewId inputViewIds) := by
    intro view hview
    rcases mem_cons.1 (mem_toFinset.1 hview) with rfl | hview
    · exact .inr (h.reaches hnode)
    · exact h.reached view (AList.mem_keys.2 hview)
  have hcard := (Set.encard_le_encard hsub).trans (Set.encard_insert_le _ _)
  rw [Set.encard_coe_eq_coe_finsetCard, toFinset_card_of_nodup hnodup, length_cons] at hcard
  have hlt : ((w.marks.keys.length + 1 : ℕ) : ℕ∞) ≤ (maxVisited : ℕ) := hcard.trans hfew
  have := Nat.cast_le.1 hlt
  unfold Dict.size at hfull
  omega

theorem dependencies_new (h : w.Inv resolve unionViewId inputViewIds)
    (hnew : w.marks.lookup node = none) :
    dependencies resolve unionViewId inputViewIds node = (resolve node).getD [] := by
  refine if_neg fun heq => h.not_mem_stack hnew ?_
  rw [heq]
  exact mem_of_mem_head? (h.first ▸ rfl)

end Walk.Inv

/-- What a visit of some nodes leaves. -/
structure Walk.Visited (resolve : String → Option (List String)) (unionViewId : String)
    (inputViewIds nodes : List String) (w w' : Walk) : Prop where
  inv : w'.Inv resolve unionViewId inputViewIds
  stack : w'.stack = w.stack
  size : w.marks.size ≤ w'.marks.size
  black : ∀ view, w.marks.lookup view = some .black → w'.marks.lookup view = some .black
  done : ∀ node ∈ nodes, w'.marks.lookup node = some .black

/-- How a visit of some nodes ends. -/
inductive Walk.Ends (resolve : String → Option (List String)) (unionViewId : String)
    (inputViewIds nodes : List String) (w : Walk) : Option (Except UnionError Walk) → Prop
  | visited {w' : Walk} (h : w.Visited resolve unionViewId inputViewIds nodes w') :
      Ends resolve unionViewId inputViewIds nodes w (some (.ok w'))
  | failed {e : UnionError} (h : Earned resolve unionViewId inputViewIds e) :
      Ends resolve unionViewId inputViewIds nodes w (some (.error e))

theorem visitAll_spec {depth : ℕ}
    (hvisit : ∀ (node : String) (w : Walk), w.Inv resolve unionViewId inputViewIds →
      w.Leads resolve unionViewId inputViewIds node → maxVisited < depth + w.marks.size →
        w.Ends resolve unionViewId inputViewIds [node] (visit resolve depth node w))
    {nodes : List String} (hw : w.Inv resolve unionViewId inputViewIds)
    (hnodes : ∀ node ∈ nodes, w.Leads resolve unionViewId inputViewIds node)
    (hdepth : maxVisited < depth + w.marks.size) :
    w.Ends resolve unionViewId inputViewIds nodes (visitAll (visit resolve depth) nodes w) := by
  induction nodes generalizing w with
  | nil => exact .visited ⟨hw, rfl, le_rfl, fun _ h => h, fun _ h => absurd h not_mem_nil⟩
  | cons node nodes ih =>
    have hfirst := hvisit node w hw (hnodes node mem_cons_self) hdepth
    unfold visitAll
    generalize visit resolve depth node w = answer at hfirst
    cases hfirst with
    | failed he => exact .failed he
    | @visited w₁ h₁ =>
      have hrest : ∀ node ∈ nodes, w₁.Leads resolve unionViewId inputViewIds node := by
        intro node hnode
        unfold Walk.Leads
        rw [h₁.stack]
        exact hnodes node (mem_cons_of_mem _ hnode)
      have hsecond := ih h₁.inv hrest (hdepth.trans_le (Nat.add_le_add_left h₁.size _))
      simp only
      generalize visitAll (visit resolve depth) nodes w₁ = answer at hsecond
      cases hsecond with
      | failed he => exact .failed he
      | visited h₂ =>
        refine .visited ⟨h₂.inv, h₂.stack.trans h₁.stack, h₁.size.trans h₂.size,
          fun view hview => h₂.black view (h₁.black view hview), fun view hview => ?_⟩
        rcases mem_cons.1 hview with rfl | hview
        · exact h₂.black _ (h₁.done _ mem_cons_self)
        · exact h₂.done view hview

/-- **A visit ends**: its node is finished, or what it reports is so. -/
theorem visit_spec (depth : ℕ) (node : String) (w : Walk) (hw : w.Inv resolve unionViewId inputViewIds)
    (hnode : w.Leads resolve unionViewId inputViewIds node)
    (hdepth : maxVisited < depth + w.marks.size) :
    w.Ends resolve unionViewId inputViewIds [node] (visit resolve depth node w) := by
  induction depth generalizing node w with
  | zero =>
    have := hw.size
    omega
  | succ depth ih =>
    unfold visit
    cases hmark : w.marks.lookup node with
    | some mark =>
      cases mark with
      | gray =>
        obtain ⟨hloop, hnodes⟩ := hw.loop hnode hmark
        exact .failed (.inl ⟨_, rfl, hloop, hnodes⟩)
      | black =>
        refine .visited ⟨hw, rfl, le_rfl, fun _ h => h, fun view hview => ?_⟩
        exact mem_singleton.1 hview ▸ hmark
    | none =>
      simp only
      by_cases hfull : maxVisited ≤ w.marks.size
      · rw [if_pos hfull]
        exact .failed (.inr ⟨rfl, hw.many hnode hmark hfull⟩)
      rw [if_neg hfull]
      have hdependencies := hw.dependencies_new hmark
      have hentered := hw.enter hnode hmark (Nat.not_le.1 hfull)
      have hsize : (w.enter node).marks.size = w.marks.size + 1 :=
        Dict.size_insert_of_notMem (AList.lookup_eq_none.1 hmark) _
      -- the marks and the stack once the inputs are visited, and the node is left
      have hleft {w₁ : Walk} {inputs : List String}
          (hvisited : (w.enter node).Visited resolve unionViewId inputViewIds inputs w₁)
          (hinputs : dependencies resolve unionViewId inputViewIds node = inputs)
          (hnarrow : ∀ inputs, resolve node = some inputs → inputs.length ≤ maxUnionInputs) :
          w.Visited resolve unionViewId inputViewIds [node] (w₁.leave node) := by
        have hstack : w₁.stack = w.stack ++ [node] := hvisited.stack
        have hbelow : w.stack ≠ [] := fun hnil => by
          have hfirst := hw.first
          rw [hnil] at hfirst
          cases hfirst
        have hgray : w₁.marks.lookup node = some .gray := (hvisited.inv.gray node).2 (by rw [hstack]; simp)
        have hkept (view : String) (hview : w.marks.lookup view = some .black) :
            w₁.marks.lookup view = some .black := by
          refine hvisited.black view ?_
          rw [Walk.enter, Dict.lookup_insert_eq, if_neg, hview]
          rintro rfl
          rw [hmark] at hview
          cases hview
        refine ⟨hvisited.inv.leave hstack hbelow (hinputs ▸ hvisited.done) hnarrow, ?_, ?_,
          fun view hview => ?_, fun view hview => ?_⟩
        · rw [Walk.leave, hstack, dropLast_concat]
        · have hle := hvisited.size
          rw [Walk.leave, Dict.size_insert_of_mem (Dict.mem_of_lookup hgray)]
          omega
        · rw [Walk.leave, Dict.lookup_insert_eq]
          split_ifs
          · rfl
          · exact hkept view hview
        · rw [Walk.leave, Dict.lookup_insert_eq, if_pos (mem_singleton.1 hview)]
      cases hresolve : resolve node with
      | none =>
        rw [hresolve] at hdependencies
        refine .visited (hleft ⟨hentered, rfl, le_rfl, fun _ h => h, ?_⟩ hdependencies ?_)
        · exact fun _ h => absurd h not_mem_nil
        · intro inputs hinputs
          rw [hresolve] at hinputs
          cases hinputs
      | some inputs =>
        rw [hresolve] at hdependencies
        simp only
        by_cases hwide : maxUnionInputs < inputs.length
        · rw [if_pos hwide]
          exact .failed ⟨rfl, hwide, node, hw.reaches hnode, inputs, hresolve, rfl⟩
        rw [if_neg hwide]
        have hleads : ∀ input ∈ inputs, (w.enter node).Leads resolve unionViewId inputViewIds input := by
          intro input hinput
          refine ⟨node, getLast?_concat, ?_⟩
          unfold Cycles.Edge
          rw [hdependencies]
          exact hinput
        have hinputs := visitAll_spec ih hentered hleads (by omega)
        generalize visitAll (visit resolve depth) inputs (w.enter node) = answer at hinputs
        cases hinputs with
        | failed he => exact .failed he
        | visited hvisited =>
          refine .visited (hleft hvisited hdependencies fun inputs' hinputs' => ?_)
          rw [hresolve] at hinputs'
          obtain rfl : inputs = inputs' := Option.some.inj hinputs'
          exact Nat.not_lt.1 hwide

/-! ### More nested calls -/

theorem visitAll_mono {visit visit' : String → Walk → Option (Except UnionError Walk)}
    (hvisit : ∀ node w answer, visit node w = some answer → visit' node w = some answer)
    {nodes : List String} {answer : Except UnionError Walk} (h : visitAll visit nodes w = some answer) :
    visitAll visit' nodes w = some answer := by
  induction nodes generalizing w with
  | nil => exact h
  | cons node nodes ih =>
    unfold visitAll at h ⊢
    cases hfirst : visit node w with
    | none =>
      rw [hfirst] at h
      cases h
    | some first =>
      rw [hfirst] at h
      rw [hvisit node w first hfirst]
      cases first with
      | error e => exact h
      | ok w₁ => exact ih h

/-- What a visit answers does not depend on how many nested calls it may have. -/
theorem visit_mono {depth : ℕ} {answer : Except UnionError Walk}
    (h : visit resolve depth node w = some answer) : visit resolve (depth + 1) node w = some answer := by
  induction depth generalizing node w answer with
  | zero => cases h
  | succ depth ih =>
    rw [visit] at h ⊢
    cases hmark : w.marks.lookup node with
    | some mark =>
      rw [hmark] at h
      cases mark <;> exact h
    | none =>
      rw [hmark] at h
      simp only at h ⊢
      split_ifs at h ⊢ with hfull
      · exact h
      cases hresolve : resolve node with
      | none =>
        rw [hresolve] at h
        exact h
      | some inputs =>
        rw [hresolve] at h
        simp only at h ⊢
        split_ifs at h ⊢ with hwide
        · exact h
        cases hall : visitAll (visit resolve depth) inputs (w.enter node) with
        | none =>
          rw [hall] at h
          cases h
        | some answer =>
          rw [hall] at h
          rw [visitAll_mono (fun _ _ _ => ih) hall]
          exact h

theorem detectUnionCycle_mono {depth more : ℕ} {answer : Except UnionError Unit} (hle : depth ≤ more)
    (h : detectUnionCycle resolve depth unionViewId inputViewIds = some answer) :
    detectUnionCycle resolve more unionViewId inputViewIds = some answer := by
  induction hle with
  | refl => exact h
  | @step depth _ ih =>
    unfold detectUnionCycle at ih ⊢
    cases hall : visitAll (visit resolve depth) inputViewIds (.start unionViewId) with
    | none =>
      rw [hall] at ih
      cases ih
    | some result =>
      rw [hall] at ih
      rw [visitAll_mono (fun _ _ _ => visit_mono) hall]
      exact ih

/-! ### What is accepted -/

theorem lookup_start (view : String) : (Walk.start unionViewId).marks.lookup view =
    if view = unionViewId then some .gray else none := by
  rw [Walk.start, Dict.lookup_insert_eq, AList.lookup_empty]

theorem size_start : (Walk.start unionViewId).marks.size = 1 :=
  Dict.size_insert_of_notMem (AList.notMem_empty _) _

theorem inv_start : (Walk.start unionViewId).Inv resolve unionViewId inputViewIds := by
  have hnone (view : String) : (Walk.start unionViewId).marks.lookup view ≠ some .black := by
    rw [lookup_start]
    split_ifs <;> simp
  refine ⟨fun view => ?_, nodup_singleton _, rfl, isChain_singleton _,
    ⟨[], .nil, fun view => iff_of_false (hnone view) not_mem_nil⟩,
    fun view hview => absurd hview (hnone view), fun view hview => ?_, ?_⟩
  · rw [lookup_start, Walk.start, mem_singleton]
    simp
  · rcases AList.mem_insert _ |>.1 hview with rfl | hview
    · exact .inl rfl
    · exact absurd hview (AList.notMem_empty _)
  · rw [size_start]
    decide

/-- A walk that comes to its end has seen all that the new union depends on. -/
theorem acceptable_of_visited
    (h : (Walk.start unionViewId).Visited resolve unionViewId inputViewIds inputViewIds w) :
    Acceptable resolve unionViewId inputViewIds := by
  obtain ⟨left, hleft, hblack⟩ := h.inv.black
  have hgray : w.marks.lookup unionViewId = some .gray :=
    (h.inv.gray unionViewId).2 (by rw [h.stack]; exact mem_cons_self)
  have hfresh : unionViewId ∉ left := fun hmem => by
    rw [(hblack unionViewId).2 hmem] at hgray
    cases hgray
  have hreached : ∀ view ∈ reached resolve unionViewId inputViewIds, view ∈ left := by
    intro view hview
    obtain ⟨input, hinput, hrest⟩ := Relation.TransGen.head'_iff.1 hview
    rw [Cycles.Edge, dependencies, if_pos rfl] at hinput
    have hmem := (hblack input).1 (h.done input hinput)
    rcases Relation.reflTransGen_iff_eq_or_transGen.1 hrest with rfl | hrest
    · exact hmem
    · exact hleft.closed hmem hrest
  refine ⟨fun hmem => hfresh (hreached _ hmem), fun view hview => hleft.acyclic (hreached view hview),
    fun view hview => h.inv.narrow view ((hblack view).2 (hreached view hview)), ?_⟩
  -- the new union and all that was left are marked
  have hnodup : (unionViewId :: left).Nodup := nodup_cons.2 ⟨hfresh, hleft.nodup⟩
  have hmarked : unionViewId :: left ⊆ w.marks.keys := by
    intro view hview
    rw [AList.mem_keys.symm]
    rcases mem_cons.1 hview with rfl | hview
    · exact Dict.mem_of_lookup hgray
    · exact Dict.mem_of_lookup ((hblack view).2 hview)
  have hlength : left.length + 1 ≤ maxVisited :=
    (hnodup.subperm hmarked).length_le.trans h.inv.size
  have hsub : reached resolve unionViewId inputViewIds ⊆ (left.toFinset : Set String) :=
    fun view hview => mem_toFinset.2 (hreached view hview)
  have hcard := Set.encard_le_encard hsub
  rw [Set.encard_coe_eq_coe_finsetCard, toFinset_card_of_nodup hleft.nodup] at hcard
  calc (reached resolve unionViewId inputViewIds).encard + 1
      ≤ (left.length : ℕ∞) + 1 := by gcongr
    _ ≤ maxVisited := by exact_mod_cast hlength

/-- **The walk accepts exactly the unions that depend on no cycle**, on no stored union that is too
wide and on not too many views; what it reports of any other is so.  It ends, with the same answer
however many nested calls it may have. -/
theorem detectUnionCycle_exact (resolve : String → Option (List String)) (unionViewId : String)
    (inputViewIds : List String) :
    ∃ answer : Except UnionError Unit,
      (∀ depth, maxVisited ≤ depth →
        detectUnionCycle resolve depth unionViewId inputViewIds = some answer) ∧
      (answer = .ok () ↔ Acceptable resolve unionViewId inputViewIds) ∧
      ∀ e, answer = .error e → Earned resolve unionViewId inputViewIds e := by
  have hleads : ∀ input ∈ inputViewIds,
      (Walk.start unionViewId).Leads resolve unionViewId inputViewIds input :=
    fun input hinput => ⟨unionViewId, rfl, by rwa [Cycles.Edge, dependencies, if_pos rfl]⟩
  have hends := visitAll_spec (visit_spec maxVisited) inv_start hleads (by rw [size_start]; omega)
  have hdetect : ∃ answer : Except UnionError Unit,
      detectUnionCycle resolve maxVisited unionViewId inputViewIds = some answer ∧
      (answer = .ok () ↔ Acceptable resolve unionViewId inputViewIds) ∧
      ∀ e, answer = .error e → Earned resolve unionViewId inputViewIds e := by
    unfold detectUnionCycle
    generalize visitAll (visit resolve maxVisited) inputViewIds (.start unionViewId) = result at hends
    cases hends with
    | failed he =>
      refine ⟨.error _, rfl, ⟨(fun h => by cases h), fun h => absurd h he.not_acceptable⟩, ?_⟩
      intro e' he'
      cases he'
      exact he
    | visited h =>
      exact ⟨.ok (), rfl, iff_of_true rfl (acceptable_of_visited h), fun e he => by cases he⟩
  obtain ⟨answer, hanswer, hspec⟩ := hdetect
  exact ⟨answer, fun depth hdepth => detectUnionCycle_mono hdepth hanswer, hspec⟩

end Exact

end Lvu.View
