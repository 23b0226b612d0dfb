import Mathlib.Data.List.Chain

/-!
# Cycles and finishing orders

A directed graph is given by the successors of each node.

* `Cycles.Finished` : nodes in the order in which a depth-first search leaves them.
* `Cycles.Finished.closed`, `Cycles.Finished.acyclic` : no edge leads out of them, and none of them is
  on a cycle.
* `Cycles.Loop` : a walk that returns to where it began.
-/

namespace Lvu.Cycles

variable {V : Type*}

/-- An edge of the graph. -/
def Edge (next : V → List V) (a b : V) : Prop := b ∈ next a

/-- A node that is reached from another by one edge or more. -/
abbrev Reaches (next : V → List V) : V → V → Prop := Relation.TransGen (Edge next)

/-- Nodes that a depth-first search has left, the last of them first: all successors of a node were
left before it. -/
inductive Finished (next : V → List V) : List V → Prop
  | nil : Finished next []
  | cons {v : V} {left : List V} (hnew : v ∉ left) (hnext : ∀ w ∈ next v, w ∈ left)
      (hleft : Finished next left) : Finished next (v :: left)

/-- A walk of at least one edge that ends where it began. -/
structure Loop (next : V → List V) (path : List V) : Prop where
  walk : path.IsChain (Edge next)
  long : 2 ≤ path.length
  returns : path.getLast? = path.head?

variable {next : V → List V} {left path : List V} {a b v : V}

namespace Finished

theorem nodup (h : Finished next left) : left.Nodup := by
  induction h with
  | nil => exact List.nodup_nil
  | cons hnew _ _ ih => exact List.nodup_cons.2 ⟨hnew, ih⟩

theorem edge (h : Finished next left) (ha : a ∈ left) (hab : Edge next a b) : b ∈ left := by
  induction h with
  | nil => exact absurd ha List.not_mem_nil
  | cons _ hnext _ ih =>
    rcases List.mem_cons.1 ha with rfl | ha
    · exact List.mem_cons_of_mem _ (hnext b hab)
    · exact List.mem_cons_of_mem _ (ih ha)

theorem closed (h : Finished next left) (ha : a ∈ left) (hab : Reaches next a b) : b ∈ left := by
  induction hab with
  | single hab => exact h.edge ha hab
  | tail _ hbc ih => exact h.edge ih hbc

/-- **No node that was left is on a cycle.** -/
theorem acyclic (h : Finished next left) (ha : a ∈ left) : ¬ Reaches next a a := by
  induction h with
  | nil => exact absurd ha List.not_mem_nil
  | cons hnew hnext hleft ih =>
    rcases List.mem_cons.1 ha with rfl | ha
    · intro hturn
      -- the first edge leads to a node that was left before, and so does every further one
      obtain ⟨w, haw, hwa⟩ := Relation.TransGen.head'_iff.1 hturn
      have hw := hnext w haw
      rcases Relation.reflTransGen_iff_eq_or_transGen.1 hwa with rfl | hwa
      · exact hnew hw
      · exact hnew (hleft.closed hw hwa)
    · exact ih ha

end Finished

theorem reaches_last {rest : List V} (hwalk : (a :: rest).IsChain (Edge next))
    (hlast : rest.getLast? = some b) : Reaches next a b := by
  induction rest generalizing a with
  | nil => cases hlast
  | cons c rest ih =>
    obtain ⟨hac, hrest⟩ := List.isChain_cons_cons.1 hwalk
    cases rest with
    | nil =>
      obtain rfl : c = b := by simpa using hlast
      exact .single hac
    | cons d rest => exact .head hac (ih hrest (by simpa using hlast))

theorem Loop.turns (h : Loop next path) : ∃ v ∈ path, Reaches next v v := by
  obtain ⟨hwalk, hlong, hreturns⟩ := h
  rcases path with _ | ⟨v, _ | ⟨w, rest⟩⟩
  · simp at hlong
  · simp at hlong
  · refine ⟨v, List.mem_cons_self, reaches_last hwalk ?_⟩
    simpa [List.getLast?_cons_cons] using hreturns

end Lvu.Cycles
