import Mathlib.Data.List.Induction

/-!
# Machines and their runs

A `Machine S L` moves between states of type `S` by steps labelled in `L`.  `Run s ls s'` says
that the steps `ls`, in order, lead from `s` to `s'`.  A run is extended at its end
(`Run.snoc`), so that the last step is the one an invariant argument looks at.

* `Run.invariant` : what holds at the start and is kept by every step holds at the end.
* `Run.split` : a run in two parts stands in some state between them.
* `Machine.only` : the machine whose steps are restricted by a condition on the state before
  the step and its label; `Run.invariant_only` is the invariant rule for its runs.
* `Run.last_change` : what steps turn on and off holds at the end as the last change says.
-/

namespace Lvu

open List

/-- Labelled steps between states. -/
structure Machine (S : Type*) (L : Type*) where
  /-- `step s l s'` : in state `s` the step `l` may lead to `s'`. -/
  step : S → L → S → Prop

namespace Machine

variable {S L : Type*}

/-- The machine whose steps are the successes of a partial function. -/
def ofFun (f : S → L → Option S) : Machine S L := ⟨fun s l s' => f s l = some s'⟩

/-- The runs of a machine: `Run s ls s'` performs the steps `ls` in order. -/
inductive Run (M : Machine S L) (s : S) : List L → S → Prop
  | nil : Run M s [] s
  | snoc {ls : List L} {m : S} {l : L} {s' : S} :
      Run M s ls m → M.step m l s' → Run M s (ls ++ [l]) s'

/-- Only the steps that meet `C`. -/
def only (M : Machine S L) (C : S → L → Prop) : Machine S L :=
  ⟨fun s l s' => C s l ∧ M.step s l s'⟩

variable {M : Machine S L} {s s' s'' : S} {ls ls' : List L}

namespace Run

variable {l : L} {I : S → Prop} {C : S → L → Prop}

theorem single (h : M.step s l s') : M.Run s [l] s' := nil.snoc h

theorem append (h : M.Run s ls s') (h' : M.Run s' ls' s'') : M.Run s (ls ++ ls') s'' := by
  induction h' with
  | nil => simpa using h
  | snoc _ hst ih => rw [← append_assoc]; exact snoc ih hst

theorem split (h : M.Run s (ls ++ ls') s'') : ∃ m, M.Run s ls m ∧ M.Run m ls' s'' := by
  induction ls' using List.reverseRecOn generalizing s'' with
  | nil => exact ⟨s'', by simpa using h, nil⟩
  | append_singleton ls' l ih =>
    rw [← append_assoc] at h
    generalize hall : (ls ++ ls') ++ [l] = all at h
    cases h with
    | nil => simp at hall
    | snoc h hst =>
      obtain ⟨rfl, hl⟩ := append_inj' hall rfl
      obtain rfl : l = _ := by simpa using hl
      obtain ⟨m, h₁, h₂⟩ := ih h
      exact ⟨m, h₁, h₂.snoc hst⟩

theorem cons_split (h : M.Run s (l :: ls) s'') : ∃ m, M.step s l m ∧ M.Run m ls s'' := by
  obtain ⟨m, h₁, h₂⟩ := split (show M.Run s ([l] ++ ls) s'' from h)
  generalize hone : [l] = one at h₁
  cases h₁ with
  | nil => simp at hone
  | @snoc ls₀ m₀ l₀ _ h₀ hst =>
    obtain ⟨rfl, hl⟩ := append_inj' (show [] ++ [l] = ls₀ ++ [l₀] from hone) rfl
    obtain rfl : l = l₀ := by simpa using hl
    generalize hnil : ([] : List L) = none at h₀
    cases h₀ with
    | nil => exact ⟨m, hst, h₂⟩
    | snoc => simp at hnil

/-- What holds at the start and is kept by the steps that meet a condition holds at the end of a
run of such steps. -/
theorem invariant_of {C : L → Prop} (h : M.Run s ls s') (h₀ : I s) (hls : ∀ l ∈ ls, C l)
    (hstep : ∀ s l s', I s → C l → M.step s l s' → I s') : I s' := by
  induction h with
  | nil => exact h₀
  | snoc _ hst ih =>
    exact hstep _ _ _ (ih fun l hl => hls l (mem_append_left _ hl)) (hls _ (by simp)) hst

/-- **The invariant rule.** -/
theorem invariant (h : M.Run s ls s') (h₀ : I s) (hstep : ∀ s l s', I s → M.step s l s' → I s') :
    I s' := by
  induction h with
  | nil => exact h₀
  | snoc _ hst ih => exact hstep _ _ _ ih hst

theorem relation {R : S → S → Prop} (h : M.Run s ls s') (hrefl : ∀ s, R s s)
    (htrans : ∀ a b c, R a b → R b c → R a c) (hstep : ∀ s l s', M.step s l s' → R s s') :
    R s s' := by
  induction h with
  | nil => exact hrefl _
  | snoc _ hst ih => exact htrans _ _ _ ih (hstep _ _ _ hst)

theorem of_only (h : (M.only C).Run s ls s') : M.Run s ls s' := by
  induction h with
  | nil => exact nil
  | snoc _ hst ih => exact snoc ih hst.2

theorem only_mono {C' : S → L → Prop} (h : (M.only C).Run s ls s') (hC : ∀ s l, C s l → C' s l) :
    (M.only C').Run s ls s' := by
  induction h with
  | nil => exact nil
  | snoc _ hst ih => exact ih.snoc ⟨hC _ _ hst.1, hst.2⟩

theorem to_only (h : M.Run s ls s') (hC : ∀ s, ∀ l ∈ ls, C s l) : (M.only C).Run s ls s' := by
  induction h with
  | nil => exact nil
  | snoc _ hst ih =>
    exact (ih fun s l hl => hC s l (mem_append_left _ hl)).snoc ⟨hC _ _ (by simp), hst⟩

theorem invariant_only (h : (M.only C).Run s ls s') (h₀ : I s)
    (hstep : ∀ s l s', I s → C s l → M.step s l s' → I s') : I s' :=
  h.invariant h₀ fun s l s' hI hst => hstep s l s' hI hst.1 hst.2

end Run

theorem run_ofFun {f : S → L → Option S} :
    (ofFun f).Run s ls s' ↔ ls.foldlM f s = some s' := by
  constructor
  · intro h
    induction h with
    | nil => rfl
    | snoc _ hst ih => simpa [ih, ofFun] using hst
  · intro h
    induction ls using List.reverseRecOn generalizing s' with
    | nil =>
      obtain rfl : s = s' := by simpa using h
      exact .nil
    | append_singleton ls l ih =>
      rw [foldlM_append, Option.bind_eq_bind, Option.bind_eq_some_iff] at h
      obtain ⟨m, hm, hl⟩ := h
      exact .snoc (ih hm) (by simpa [ofFun] using hl)

theorem run_only_ofFun {f : S → L → Option S} [∀ s l, Decidable (C s l)]
    (h : ls.foldlM (fun s l => if C s l then f s l else none) s = some s') :
    ((ofFun f).only C).Run s ls s' := by
  have hrun := run_ofFun.2 h
  clear h
  induction hrun with
  | nil => exact .nil
  | snoc _ hst ih =>
    simp only [ofFun] at hst
    split_ifs at hst with hC
    exact ih.snoc ⟨hC, hst⟩

/-- A run that is computed, and what its end is checked for. -/
theorem exists_run {f : S → L → Option S} {P : S → Prop} [DecidablePred P]
    (h : ((ls.foldlM f s).any fun s' => decide (P s')) = true) :
    ∃ s', (ofFun f).Run s ls s' ∧ P s' := by
  obtain ⟨s', hs, hP⟩ := (Option.any_eq_true _ _).1 h
  exact ⟨s', run_ofFun.2 hs, of_decide_eq_true hP⟩

theorem exists_run_only {f : S → L → Option S} [∀ s l, Decidable (C s l)] {P : S → Prop}
    [DecidablePred P]
    (h : ((ls.foldlM (fun s l => if C s l then f s l else none) s).any fun s' => decide (P s'))
      = true) :
    ∃ s', ((ofFun f).only C).Run s ls s' ∧ P s' := by
  obtain ⟨s', hs, hP⟩ := (Option.any_eq_true _ _).1 h
  exact ⟨s', run_only_ofFun hs, of_decide_eq_true hP⟩

theorem Run.det (hdet : ∀ s l a b, M.step s l a → M.step s l b → a = b)
    (h : M.Run s ls s') (h' : M.Run s ls s'') : s' = s'' := by
  induction h generalizing s'' with
  | nil =>
    generalize hls : ([] : List L) = ls at h'
    cases h' with
    | nil => rfl
    | snoc => simp at hls
  | @snoc ls m l t _ hst ih =>
    generalize hls : ls ++ [l] = ls' at h'
    cases h' with
    | nil => simp at hls
    | snoc h₁ hst' =>
      obtain ⟨rfl, hl⟩ := append_inj' hls rfl
      obtain rfl : l = _ := by simpa using hl
      rw [ih h₁] at hst
      exact hdet _ _ _ _ hst hst'

/-! ### What happened on the way -/

/-- A step that meets `Q` was taken on the way. -/
def Took (M : Machine S L) (Q : S → L → Prop) (s : S) (ls : List L) (s' : S) : Prop :=
  ∃ ls₁ m l m' ls₂, ls = ls₁ ++ l :: ls₂ ∧ M.Run s ls₁ m ∧ Q m l ∧ M.step m l m' ∧ M.Run m' ls₂ s'

/-- A step that meets `Q` was taken on the way, and none that meets `R` since. -/
def TookLast (M : Machine S L) (Q R : S → L → Prop) (s : S) (ls : List L) (s' : S) : Prop :=
  ∃ ls₁ m l m' ls₂, ls = ls₁ ++ l :: ls₂ ∧ M.Run s ls₁ m ∧ Q m l ∧ M.step m l m' ∧
    M.Run m' ls₂ s' ∧ ¬ M.Took R m' ls₂ s'

section
variable {Q R : S → L → Prop}

theorem not_took_nil : ¬ M.Took Q s [] s' := by
  rintro ⟨ls₁, m, l, m', ls₂, hls, -⟩
  simp at hls

theorem not_tookLast_nil : ¬ M.TookLast Q R s [] s' := by
  rintro ⟨ls₁, m, l, m', ls₂, hls, -⟩
  simp at hls

theorem append_cons_cases {ls ls₁ ls₂ : List L} {l₁ : L} (h : ls ++ [l] = ls₁ ++ l₁ :: ls₂) :
    (ls₂ = [] ∧ ls₁ = ls ∧ l₁ = l) ∨ ∃ ls₃, ls₂ = ls₃ ++ [l] ∧ ls = ls₁ ++ l₁ :: ls₃ := by
  induction ls₂ using List.reverseRecOn with
  | nil =>
    obtain ⟨hls, hl⟩ := append_inj' h rfl
    exact .inl ⟨rfl, hls.symm, by simpa using hl.symm⟩
  | append_singleton ls₃ l₂ =>
    rw [← cons_append, ← append_assoc] at h
    obtain ⟨hls, hl⟩ := append_inj' h rfl
    obtain rfl : l = l₂ := by simpa using hl
    exact .inr ⟨ls₃, rfl, hls⟩

section
variable (hdet : ∀ s l a b, M.step s l a → M.step s l b → a = b)
include hdet

theorem took_snoc {m : S} (h : M.Run s ls m) (hst : M.step m l s') :
    M.Took Q s (ls ++ [l]) s' ↔ M.Took Q s ls m ∨ Q m l := by
  constructor
  · rintro ⟨ls₁, m₁, l₁, m₂, ls₂, hls, h₁, hQ, hst₁, h₂⟩
    obtain ⟨rfl, rfl, rfl⟩ | ⟨ls₃, rfl, rfl⟩ := append_cons_cases hls
    · exact .inr (h.det hdet h₁ ▸ hQ)
    · obtain ⟨m₃, h₃, -⟩ := h₂.split
      have hm : m = m₃ := h.det hdet (by simpa using (h₁.snoc hst₁).append h₃)
      exact .inl ⟨ls₁, m₁, l₁, m₂, ls₃, rfl, h₁, hQ, hst₁, hm ▸ h₃⟩
  · rintro (⟨ls₁, m₁, l₁, m₂, ls₂, rfl, h₁, hQ, hst₁, h₂⟩ | hQ)
    · exact ⟨ls₁, m₁, l₁, m₂, ls₂ ++ [l], by simp, h₁, hQ, hst₁, h₂.snoc hst⟩
    · exact ⟨ls, m, l, s', [], rfl, h, hQ, hst, .nil⟩

theorem tookLast_snoc {m : S} (h : M.Run s ls m) (hst : M.step m l s') :
    M.TookLast Q R s (ls ++ [l]) s' ↔ (M.TookLast Q R s ls m ∧ ¬ R m l) ∨ Q m l := by
  constructor
  · rintro ⟨ls₁, m₁, l₁, m₂, ls₂, hls, h₁, hQ, hst₁, h₂, hnot⟩
    obtain ⟨rfl, rfl, rfl⟩ | ⟨ls₃, rfl, rfl⟩ := append_cons_cases hls
    · exact .inr (h.det hdet h₁ ▸ hQ)
    · obtain ⟨m₃, h₃, -⟩ := h₂.split
      obtain rfl : m = m₃ := h.det hdet (by simpa using (h₁.snoc hst₁).append h₃)
      rw [took_snoc hdet h₃ hst, not_or] at hnot
      exact .inl ⟨⟨ls₁, m₁, l₁, m₂, ls₃, rfl, h₁, hQ, hst₁, h₃, hnot.1⟩, hnot.2⟩
  · rintro (⟨⟨ls₁, m₁, l₁, m₂, ls₂, rfl, h₁, hQ, hst₁, h₂, hnot⟩, hR⟩ | hQ)
    · refine ⟨ls₁, m₁, l₁, m₂, ls₂ ++ [l], by simp, h₁, hQ, hst₁, h₂.snoc hst, ?_⟩
      rw [took_snoc hdet h₂ hst, not_or]
      exact ⟨hnot, hR⟩
    · exact ⟨ls, m, l, s', [], rfl, h, hQ, hst, .nil, not_took_nil⟩

/-- **The last change counts.**  What each step turns on by `Q`, or off by `R`, holds at the end of
a run as its last change says. -/
theorem Run.last_change {P : S → Prop} (h : M.Run s ls s')
    (hP : ∀ s l s', M.step s l s' → (P s' ↔ (P s ∧ ¬ R s l) ∨ Q s l)) :
    P s' ↔ (P s ∧ ¬ M.Took R s ls s') ∨ M.TookLast Q R s ls s' := by
  induction h with
  | nil => simp [not_took_nil, not_tookLast_nil]
  | @snoc ls m l s' h hst ih =>
    rw [hP m l s' hst, ih, took_snoc hdet h hst, tookLast_snoc hdet h hst, not_or]
    tauto

end

end

theorem ofFun_det {f : S → L → Option S} (s : S) (l : L) (a b : S) (ha : (ofFun f).step s l a)
    (hb : (ofFun f).step s l b) : a = b := Option.some.inj (ha.symm.trans hb)

end Machine

end Lvu
