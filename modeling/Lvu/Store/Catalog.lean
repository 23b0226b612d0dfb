import Lvu.Machine.Outcome
import Lvu.Store.Recipes

/-!
# The catalog of recipes

What a catalog takes in of its recipes directory, and what every operation keeps of it
(`lvu-memory/src/store.rs`).

* `reconcile_again` : what was just reconciled is reconciled again without a change.
* `Catalog.Sound` : revisions are documents that were written and checked.
* `RecipeStore.Reachable.sound` : so it is of every catalog that can be reached.
-/

namespace Lvu.Store

open List

variable {V S : Type} {fmt : RecipeFormat V S}

/-! ### Revisions of the catalog -/

variable {recipe : RecipeFile V S} {document : List UInt8} {c c' : Catalog} {current : List Uuid}
  {recipeId : RecipeId} {l : List (Uuid × List UInt8)} {n n' : ℕ} {files : List (RecipeFile V S)}
  {d : RecipeDirectory} {s : RecipeStore}

theorem documentOf_ok :
    documentOf fmt recipe = .ok document ↔ fmt.toStringPretty recipe = .ok document := by
  unfold documentOf
  cases fmt.toStringPretty recipe with
  | error reason => exact ⟨fun h => (by cases h), fun h => (by cases h)⟩
  | ok bytes => exact ⟨fun h => (by cases h; rfl), fun h => (by cases h; rfl)⟩

/-- The revision is in the catalog, with this document. -/
def Cataloged (fmt : RecipeFormat V S) (c : Catalog) (recipe : RecipeFile V S) : Prop :=
  ∃ document row, fmt.toStringPretty recipe = .ok document ∧ c.revision recipe.revisionId = some row ∧
    sameRevision fmt recipe document row = true

/-- The revisions of a catalog are in the other one. -/
def Catalog.Extends (c' c : Catalog) : Prop := ∀ id row, c.revision id = some row → c'.revision id = some row

theorem Catalog.Extends.refl (c : Catalog) : c.Extends c := fun _ _ h => h

theorem Catalog.Extends.trans {c'' : Catalog} (h : c'.Extends c) (h' : c''.Extends c') :
    c''.Extends c :=
  fun id row hrow => h' id row (h id row hrow)

theorem Cataloged.mono (h : Cataloged fmt c recipe) (hextends : c'.Extends c) :
    Cataloged fmt c' recipe := by
  obtain ⟨document, row, hdocument, hrow, hsame⟩ := h
  exact ⟨document, row, hdocument, hextends _ _ hrow, hsame⟩

theorem revision_insertRevision (c : Catalog) (row : RevisionRow) (id : Uuid) :
    (c.insertRevision row).revision id =
      (c.revision id).or (if row.revisionId = id then some row else none) := by
  unfold Catalog.insertRevision
  by_cases hold : (c.revision row.revisionId).isSome = true
  · rw [if_pos hold]
    by_cases hid : row.revisionId = id
    · rw [if_pos hid]
      rw [hid] at hold
      obtain ⟨old, hold⟩ := Option.isSome_iff_exists.1 hold
      rw [hold]
      rfl
    · rw [if_neg hid, Option.or_none]
  · rw [if_neg hold, Catalog.revision, find?_append, find?_singleton, ← Catalog.revision]
    by_cases hid : row.revisionId = id
    · rw [if_pos (decide_eq_true hid), if_pos hid]
    · rw [if_neg (by simpa using hid), if_neg hid]

theorem extends_insertRevision (c : Catalog) (row : RevisionRow) : (c.insertRevision row).Extends c :=
  fun id old hold => by
    rw [revision_insertRevision, hold]
    rfl

theorem recipes_insertRevision (c : Catalog) (row : RevisionRow) :
    (c.insertRevision row).recipes = c.recipes := by
  unfold Catalog.insertRevision
  split <;> rfl

theorem preflightRevision_known {old : RevisionRow}
    (hdocument : fmt.toStringPretty recipe = .ok document)
    (hrow : c.revision recipe.revisionId = some old) :
    preflightRevision fmt c recipe =
      if sameRevision fmt recipe document old then .ok () else .error .conflict := by
  unfold preflightRevision
  rw [documentOf_ok.2 hdocument, hrow]
  rfl

theorem preflightRevision_unknown (hdocument : fmt.toStringPretty recipe = .ok document)
    (hrow : c.revision recipe.revisionId = none) : preflightRevision fmt c recipe = .ok () := by
  unfold preflightRevision
  rw [documentOf_ok.2 hdocument, hrow]
  rfl

theorem preflightRevision_ok :
    preflightRevision fmt c recipe = .ok () ↔ ∃ document, fmt.toStringPretty recipe = .ok document ∧
      ∀ old, c.revision recipe.revisionId = some old → sameRevision fmt recipe document old = true := by
  cases hdocument : documentOf fmt recipe with
  | error e =>
    unfold preflightRevision
    rw [hdocument]
    refine ⟨fun h => (by cases h), fun ⟨document, h, _⟩ => ?_⟩
    rw [documentOf_ok.2 h] at hdocument
    cases hdocument
  | ok document =>
    have hdocument' := documentOf_ok.1 hdocument
    cases hrow : c.revision recipe.revisionId with
    | none =>
      exact iff_of_true (preflightRevision_unknown hdocument' hrow) ⟨document, hdocument', fun _ h => by cases h⟩
    | some old =>
      rw [preflightRevision_known hdocument' hrow]
      by_cases hsame : sameRevision fmt recipe document old = true
      · rw [if_pos hsame]
        refine iff_of_true rfl ⟨document, hdocument', fun old' h => ?_⟩
        cases h
        exact hsame
      · rw [if_neg hsame]
        refine iff_of_false (fun h => (by cases h)) fun ⟨document', h, hall⟩ => hsame ?_
        rw [hdocument'] at h
        cases h
        exact hall old rfl

/-- A revision that is taken in. -/
theorem importRevision_ok (h : importRevision fmt c recipe = .ok c') :
    ∃ document, fmt.toStringPretty recipe = .ok document ∧
      c' = c.insertRevision (revisionRow fmt recipe document) ∧ Cataloged fmt c' recipe := by
  unfold importRevision at h
  obtain ⟨document, hdocument, h⟩ := Outcome.bind_eq_ok.1 h
  obtain ⟨_, hpreflight, h⟩ := Outcome.bind_eq_ok.1 h
  cases h
  obtain ⟨document', hdocument', hsame⟩ := preflightRevision_ok.1 hpreflight
  have hdoc := documentOf_ok.1 hdocument
  rw [hdoc] at hdocument'
  cases hdocument'
  refine ⟨document, hdoc, rfl, document, ?_⟩
  cases hold : c.revision recipe.revisionId with
  | some old =>
    refine ⟨old, hdoc, ?_, hsame old hold⟩
    rw [revision_insertRevision, hold]
    rfl
  | none =>
    refine ⟨revisionRow fmt recipe document, hdoc, ?_, ?_⟩
    · have hid : (revisionRow fmt recipe document).revisionId = recipe.revisionId := rfl
      rw [revision_insertRevision, hold, if_pos hid]
      rfl
    · simp [sameRevision, revisionRow]

theorem importRevision_again (h : Cataloged fmt c recipe) :
    importRevision fmt c recipe = .ok c := by
  obtain ⟨document, row, hdocument, hrow, hsame⟩ := h
  have hpreflight : preflightRevision fmt c recipe = .ok () := by
    refine preflightRevision_ok.2 ⟨document, hdocument, fun old hold => ?_⟩
    rw [hrow] at hold
    cases hold
    exact hsame
  have hinsert : c.insertRevision (revisionRow fmt recipe document) = c := by
    unfold Catalog.insertRevision
    refine if_pos ?_
    change (c.revision recipe.revisionId).isSome = true
    rw [hrow]
    rfl
  unfold importRevision
  rw [documentOf_ok.2 hdocument, hpreflight]
  exact congrArg Except.ok hinsert

theorem recipe_upsertRecipe (c : Catalog) (row : RecipeRow) (id : RecipeId) :
    (c.upsertRecipe row).recipe id = if row.recipeId = id then some row else c.recipe id := by
  unfold Catalog.upsertRecipe
  by_cases hold : (c.recipe row.recipeId).isSome = true
  · rw [if_pos hold, Catalog.recipe, find?_map]
    have hcomp : ((fun r : RecipeRow => decide (r.recipeId = id)) ∘ fun r : RecipeRow =>
        if r.recipeId = row.recipeId then row else r) = fun r => decide (r.recipeId = id) := by
      funext r
      rw [Function.comp_apply]
      by_cases h : r.recipeId = row.recipeId
      · rw [if_pos h, h]
      · rw [if_neg h]
    rw [hcomp, ← Catalog.recipe]
    by_cases hid : row.recipeId = id
    · rw [hid] at hold
      obtain ⟨old, hold⟩ := Option.isSome_iff_exists.1 hold
      have holdId : old.recipeId = id := by simpa using find?_some hold
      rw [hold, Option.map_some, if_pos (holdId.trans hid.symm), if_pos hid]
    · rw [if_neg hid]
      cases hrow : c.recipe id with
      | none => rfl
      | some r =>
        have hr : r.recipeId = id := by simpa using find?_some hrow
        rw [Option.map_some, if_neg fun h => hid (h.symm.trans hr)]
  · rw [if_neg hold, Catalog.recipe, find?_append, find?_singleton, ← Catalog.recipe]
    by_cases hid : row.recipeId = id
    · rw [hid] at hold
      rw [if_pos (decide_eq_true hid), if_pos hid, Option.not_isSome_iff_eq_none.1 hold]
      rfl
    · rw [if_neg (by simpa using hid), if_neg hid, Option.or_none]

/-! ### Reconciling -/

theorem Catalog.Extends.isSome (h : c'.Extends c) {id : Uuid}
    (hsome : (c.revision id).isSome = true) : (c'.revision id).isSome = true := by
  obtain ⟨row, hrow⟩ := Option.isSome_iff_exists.1 hsome
  rw [h _ _ hrow]
  rfl

/-- A shared revision is known, or is read and inserted. -/
theorem importRevisions_cons {revisionId : Uuid} {bytes : List UInt8}
    (h : importRevisions fmt current recipeId ((revisionId, bytes) :: l) (c, n) = .ok (c', n')) :
    ((revisionId ∈ current ∨ (c.revision revisionId).isSome = true) ∧
      importRevisions fmt current recipeId l (c, n) = .ok (c', n')) ∨
    ∃ recipe hash c₁, readRecipe fmt bytes = .ok (recipe, hash) ∧ recipe.revisionId = revisionId ∧
      importRevision fmt c recipe = .ok c₁ ∧
      importRevisions fmt current recipeId l (c₁, n + bytes.length) = .ok (c', n') := by
  rw [importRevisions] at h
  by_cases hknown : revisionId ∈ current ∨ (c.revision revisionId).isSome = true
  · rw [if_pos hknown] at h
    exact .inl ⟨hknown, h⟩
  · rw [if_neg hknown] at h
    obtain ⟨⟨recipe, hash⟩, hread, h⟩ := Outcome.bind_eq_ok.1 h
    dsimp only at h
    split at h
    · cases h
    · rename_i hidentity
      split at h
      · cases h
      · obtain ⟨c₁, himport, h⟩ := Outcome.bind_eq_ok.1 h
        exact .inr ⟨recipe, hash, c₁, hread, not_not.1 (not_or.1 hidentity).2, himport, h⟩

/-- The shared revisions leave the recipes, and are known afterwards. -/
theorem importRevisions_ok (h : importRevisions fmt current recipeId l (c, n) = .ok (c', n')) :
    c'.Extends c ∧ c'.recipes = c.recipes ∧ ∀ x ∈ l, x.1 ∈ current ∨ (c'.revision x.1).isSome = true := by
  induction l generalizing c n with
  | nil =>
    cases h
    exact ⟨.refl _, rfl, fun x hx => (not_mem_nil hx).elim⟩
  | cons x rest ih =>
    obtain ⟨hknown, h⟩ | ⟨recipe, hash, c₁, -, hid, himport, h⟩ := importRevisions_cons h <;>
      obtain ⟨hextends, hrecipes, hall⟩ := ih h
    · exact ⟨hextends, hrecipes, forall_mem_cons.2 ⟨hknown.imp_right hextends.isSome, hall⟩⟩
    · obtain ⟨document, -, rfl, document', row, -, hrow, -⟩ := importRevision_ok himport
      have hfirst := extends_insertRevision c (revisionRow fmt recipe document)
      refine ⟨hfirst.trans hextends, hrecipes.trans ?_, forall_mem_cons.2 ⟨.inr ?_, hall⟩⟩
      · exact recipes_insertRevision c _
      · rw [← hid, hextends _ _ hrow]
        rfl

theorem importRevisions_again (h : ∀ x ∈ l, x.1 ∈ current ∨ (c.revision x.1).isSome = true) (n : ℕ) :
    importRevisions fmt current recipeId l (c, n) = .ok (c, n) := by
  induction l with
  | nil => rfl
  | cons x rest ih =>
    obtain ⟨revisionId, bytes⟩ := x
    rw [importRevisions, if_pos (h _ mem_cons_self)]
    exact ih fun y hy => h y (mem_cons_of_mem _ hy)

theorem importSharedRevisions_ok {l : List (RecipeId × List (Uuid × List UInt8))} {seen : ℕ}
    (h : importSharedRevisions fmt current seen l (c, n) = .ok (c', n')) :
    c'.Extends c ∧ c'.recipes = c.recipes ∧
      (∀ x ∈ l, ∀ y ∈ x.2, y.1 ∈ current ∨ (c'.revision y.1).isSome = true) ∧
      ∀ c'' : Catalog, c''.Extends c' → importSharedRevisions fmt current seen l (c'', 0) = .ok (c'', 0) := by
  induction l generalizing seen c n with
  | nil =>
    cases h
    exact ⟨.refl _, rfl, fun x hx => (not_mem_nil hx).elim, fun _ _ => rfl⟩
  | cons x rest ih =>
    obtain ⟨recipeId, revisions⟩ := x
    rw [importSharedRevisions] at h
    by_cases hseen : MAX_RECONCILE_FILES < seen + 1
    · rw [if_pos hseen] at h
      cases h
    · rw [if_neg hseen] at h
      by_cases hcount : MAX_SHARED_REVISIONS_PER_RECIPE < revisions.length
      · rw [if_pos hcount] at h
        cases h
      · rw [if_neg hcount] at h
        obtain ⟨⟨c₁, n₁⟩, himport, h⟩ := Outcome.bind_eq_ok.1 h
        obtain ⟨hextends, hrecipes, hall⟩ := importRevisions_ok himport
        obtain ⟨hextends', hrecipes', hall', hagain⟩ := ih h
        have hfirst : ∀ y ∈ revisions, y.1 ∈ current ∨ (c'.revision y.1).isSome = true := fun y hy =>
          (hall y hy).imp_right hextends'.isSome
        refine ⟨hextends.trans hextends', hrecipes'.trans hrecipes, fun y hy => ?_, fun c'' hc'' => ?_⟩
        · obtain rfl | hy := mem_cons.1 hy
          · exact hfirst
          · exact hall' y hy
        · rw [importSharedRevisions, if_neg hseen, if_neg hcount,
            importRevisions_again fun y hy => (hfirst y hy).imp_right hc''.isSome]
          exact hagain c'' hc''

/-- The row of a recipe after some files were taken in. -/
def lastRow (id : RecipeId) (files : List (RecipeFile V S)) (row : Option RecipeRow) : Option RecipeRow :=
  files.foldl (fun row recipe =>
    if recipe.recipeId = id then some ⟨recipe.recipeId, recipe.revisionId, recipe.name⟩ else row) row

/-- The last file of the recipe decides, if there is one. -/
theorem lastRow_again (id : RecipeId) (files : List (RecipeFile V S)) (row : Option RecipeRow) :
    lastRow id files (lastRow id files row) = lastRow id files row := by
  have hdecided : (∀ row, lastRow id files row = row) ∨ ∃ r, ∀ row, lastRow id files row = some r := by
    induction files with
    | nil => exact .inl fun _ => rfl
    | cons recipe rest ih =>
      obtain hsame | ⟨r, hr⟩ := ih
      · by_cases hid : recipe.recipeId = id
        · refine .inr ⟨⟨recipe.recipeId, recipe.revisionId, recipe.name⟩, fun row => ?_⟩
          rw [lastRow, foldl_cons, if_pos hid]
          exact hsame _
        · refine .inl fun row => ?_
          rw [lastRow, foldl_cons, if_neg hid]
          exact hsame row
      · exact .inr ⟨r, fun row => hr _⟩
  obtain hsame | ⟨r, hr⟩ := hdecided
  · rw [hsame]
  · rw [hr, hr]

theorem importRecipe_ok (h : importRecipe fmt c recipe = .ok c') :
    ∃ c₁, importRevision fmt c recipe = .ok c₁ ∧
      c' = c₁.upsertRecipe ⟨recipe.recipeId, recipe.revisionId, recipe.name⟩ := by
  unfold importRecipe at h
  obtain ⟨c₁, himport, h⟩ := Outcome.bind_eq_ok.1 h
  cases h
  exact ⟨c₁, himport, rfl⟩

@[simp] theorem revisions_upsertRecipe (c : Catalog) (row : RecipeRow) :
    (c.upsertRecipe row).revisions = c.revisions := by
  unfold Catalog.upsertRecipe
  split <;> rfl

theorem revision_congr (h : c'.revisions = c.revisions) (id : Uuid) :
    c'.revision id = c.revision id := by
  rw [Catalog.revision, Catalog.revision, h]

theorem recipe_congr (h : c'.recipes = c.recipes) (id : RecipeId) : c'.recipe id = c.recipe id := by
  rw [Catalog.recipe, Catalog.recipe, h]

theorem importFiles_ok (h : importFiles fmt files c = .ok c') :
    c'.Extends c ∧ (∀ recipe ∈ files, Cataloged fmt c' recipe) ∧
      ∀ id, c'.recipe id = lastRow id files (c.recipe id) := by
  induction files generalizing c with
  | nil =>
    cases h
    exact ⟨.refl _, fun x hx => (not_mem_nil hx).elim, fun _ => rfl⟩
  | cons recipe rest ih =>
    rw [importFiles] at h
    obtain ⟨c₁, himport, h⟩ := Outcome.bind_eq_ok.1 h
    obtain ⟨hextends, hall, hrecipes⟩ := ih h
    obtain ⟨c₀, hrevision, rfl⟩ := importRecipe_ok himport
    obtain ⟨document, -, rfl, hcataloged⟩ := importRevision_ok hrevision
    have hfirst : ((c.insertRevision (revisionRow fmt recipe document)).upsertRecipe
        ⟨recipe.recipeId, recipe.revisionId, recipe.name⟩).Extends
          (c.insertRevision (revisionRow fmt recipe document)) := fun id row hrow => by
      rwa [revision_congr (revisions_upsertRecipe _ _)]
    refine ⟨((extends_insertRevision _ _).trans hfirst).trans hextends, fun r hr => ?_, fun id => ?_⟩
    · obtain rfl | hr := mem_cons.1 hr
      · exact hcataloged.mono (hfirst.trans hextends)
      · exact hall r hr
    · rw [hrecipes, recipe_upsertRecipe, recipe_congr (recipes_insertRevision _ _)]
      rfl

/-- Files that are cataloged are taken in again. -/
theorem importFiles_again (h : ∀ recipe ∈ files, Cataloged fmt c recipe) :
    ∃ c', importFiles fmt files c = .ok c' ∧ c'.revisions = c.revisions := by
  induction files generalizing c with
  | nil => exact ⟨c, rfl, rfl⟩
  | cons recipe rest ih =>
    have himport : importRecipe fmt c recipe =
        .ok (c.upsertRecipe ⟨recipe.recipeId, recipe.revisionId, recipe.name⟩) := by
      rw [importRecipe, importRevision_again (h _ mem_cons_self)]
      rfl
    have hrevisions := revisions_upsertRecipe c ⟨recipe.recipeId, recipe.revisionId, recipe.name⟩
    obtain ⟨c', hfiles, hc'⟩ := ih fun r hr => (h r (mem_cons_of_mem _ hr)).mono
      fun id row hrow => by rwa [revision_congr hrevisions]
    refine ⟨c', ?_, hc'.trans hrevisions⟩
    rw [importFiles, himport]
    exact hfiles

/-- What a reconciliation takes in. -/
theorem reconcile_ok (h : reconcile fmt d c = .ok c') :
    ∃ parsed c₁ n, ¬ MAX_RECONCILE_FILES < d.files.rows.length ∧ readFiles fmt d.files.rows = .ok parsed ∧
      importSharedRevisions fmt (parsed.map RecipeFile.revisionId) 0 d.revisions (c, 0) = .ok (c₁, n) ∧
        importFiles fmt parsed c₁ = .ok c' := by
  unfold reconcile at h
  split at h
  · cases h
  · rename_i hcount
    obtain ⟨parsed, hparsed, h⟩ := Outcome.bind_eq_ok.1 h
    obtain ⟨⟨c₁, n⟩, hshared, h⟩ := Outcome.bind_eq_ok.1 h
    exact ⟨parsed, c₁, n, hcount, hparsed, hshared, h⟩

/-- **What was just reconciled is reconciled again, and nothing changes.** -/
theorem reconcile_again (h : reconcile fmt d c = .ok c') :
    ∃ c'', reconcile fmt d c' = .ok c'' ∧ c''.revisions = c'.revisions ∧ ∀ id, c''.recipe id = c'.recipe id := by
  obtain ⟨parsed, c₁, n, hcount, hparsed, hshared, hfiles⟩ := reconcile_ok h
  obtain ⟨-, -, -, hagain⟩ := importSharedRevisions_ok hshared
  obtain ⟨hextends, hall, hrecipes⟩ := importFiles_ok hfiles
  obtain ⟨c'', hfiles', hrevisions⟩ := importFiles_again hall
  refine ⟨c'', ?_, hrevisions, fun id => ?_⟩
  · rw [reconcile, if_neg hcount, hparsed]
    change ((importSharedRevisions fmt (parsed.map RecipeFile.revisionId) 0 d.revisions (c', 0)) >>= _) = _
    rw [hagain c' hextends]
    exact hfiles'
  · rw [(importFiles_ok hfiles').2.2, hrecipes, lastRow_again]

/-! ### What every operation keeps of a catalog -/

/-- Revisions are documents that were written and checked, and the current revision of a recipe is
one of its own. -/
structure Catalog.Sound (fmt : RecipeFormat V S) (c : Catalog) : Prop where
  rows : ∀ row ∈ c.revisions, ∃ recipe document, fmt.toStringPretty recipe = .ok document ∧
    fmt.validate recipe = .ok () ∧ row = revisionRow fmt recipe document
  current : ∀ row ∈ c.recipes, ∃ revision, c.revision row.currentRevisionId = some revision ∧
    revision.recipeId = row.recipeId
  keyed : (c.recipes.map RecipeRow.recipeId).Nodup

theorem sound_empty : Catalog.empty.Sound fmt where
  rows := fun _ h => (not_mem_nil h).elim
  current := fun _ h => (not_mem_nil h).elim
  keyed := nodup_nil

theorem sound_importRevision (hc : c.Sound fmt) (hvalid : fmt.validate recipe = .ok ())
    (h : importRevision fmt c recipe = .ok c') : c'.Sound fmt := by
  obtain ⟨document, hdocument, rfl, -⟩ := importRevision_ok h
  refine ⟨fun row hrow => ?_, fun row hrow => ?_, ?_⟩
  · unfold Catalog.insertRevision at hrow
    split at hrow
    · exact hc.rows row hrow
    · obtain hrow | hrow := mem_append.1 hrow
      · exact hc.rows row hrow
      · exact ⟨recipe, document, hdocument, hvalid, mem_singleton.1 hrow⟩
  · rw [recipes_insertRevision] at hrow
    obtain ⟨revision, hrevision, hid⟩ := hc.current row hrow
    exact ⟨revision, extends_insertRevision _ _ _ _ hrevision, hid⟩
  · rw [recipes_insertRevision]
    exact hc.keyed

theorem sound_importRecipe (hc : c.Sound fmt) (hvalid : fmt.validate recipe = .ok ())
    (h : importRecipe fmt c recipe = .ok c') : c'.Sound fmt := by
  obtain ⟨c₁, hrevision, rfl⟩ := importRecipe_ok h
  have hc₁ := sound_importRevision hc hvalid hrevision
  obtain ⟨document, -, rfl, document', row', -, hrow', hsame⟩ := importRevision_ok hrevision
  have hown : row'.recipeId = recipe.recipeId := by
    unfold sameRevision at hsame
    rw [Bool.and_eq_true, decide_eq_true_eq] at hsame
    exact hsame.2
  refine ⟨fun row hrow => hc₁.rows row (by rwa [revisions_upsertRecipe] at hrow), fun row hrow => ?_, ?_⟩
  · have hrevision (id : Uuid) := revision_congr (revisions_upsertRecipe
      (c.insertRevision (revisionRow fmt recipe document)) ⟨recipe.recipeId, recipe.revisionId, recipe.name⟩) id
    unfold Catalog.upsertRecipe at hrow
    split at hrow
    · obtain ⟨old, hold, rfl⟩ := mem_map.1 hrow
      rw [hrevision]
      split
      · exact ⟨row', hrow', hown⟩
      · exact hc₁.current old hold
    · rw [hrevision]
      obtain hold | hnew := mem_append.1 hrow
      · exact hc₁.current row hold
      · obtain rfl := mem_singleton.1 hnew
        exact ⟨row', hrow', hown⟩
  · unfold Catalog.upsertRecipe
    split
    · rw [map_map]
      have hids : (RecipeRow.recipeId ∘ fun r : RecipeRow => if r.recipeId = recipe.recipeId then
          ⟨recipe.recipeId, recipe.revisionId, recipe.name⟩ else r) = RecipeRow.recipeId := by
        funext r
        rw [Function.comp_apply]
        split
        · rename_i h
          exact h.symm
        · rfl
      rw [hids]
      exact hc₁.keyed
    · rename_i hnew
      rw [map_append, nodup_append]
      refine ⟨hc₁.keyed, nodup_singleton _, fun id hid id' hid' heq => hnew ?_⟩
      obtain rfl := mem_singleton.1 hid'
      obtain ⟨row, hrow, rfl⟩ := mem_map.1 hid
      rw [Catalog.recipe, find?_isSome]
      exact ⟨row, hrow, decide_eq_true heq⟩

theorem readRecipe_ok {bytes : List UInt8} {hash : String}
    (h : readRecipe fmt bytes = .ok (recipe, hash)) :
    fmt.fromStr bytes = .ok recipe ∧ fmt.validate recipe = .ok () ∧ hash = fmt.contentHash bytes := by
  unfold readRecipe at h
  split at h
  · cases h
  · cases hread : fmt.fromStr bytes with
    | error reason =>
      rw [hread] at h
      cases h
    | ok recipe' =>
      rw [hread] at h
      dsimp only at h
      cases hvalid : fmt.validate recipe' with
      | error e =>
        rw [hvalid] at h
        cases h
      | ok u =>
        rw [hvalid] at h
        cases h
        exact ⟨rfl, hvalid, rfl⟩

theorem readFiles_ok {l : List (String × List UInt8)} {parsed : List (RecipeFile V S)}
    (h : readFiles fmt l = .ok parsed) :
    (∀ recipe ∈ parsed, fmt.validate recipe = .ok ()) ∧
      ∀ x ∈ l, ∃ recipe hash, readRecipe fmt x.2 = .ok (recipe, hash) := by
  induction l generalizing parsed with
  | nil =>
    cases h
    exact ⟨fun _ h => (not_mem_nil h).elim, fun _ h => (not_mem_nil h).elim⟩
  | cons x rest ih =>
    obtain ⟨name, bytes⟩ := x
    rw [readFiles] at h
    obtain ⟨⟨recipe, hash⟩, hread, h⟩ := Outcome.bind_eq_ok.1 h
    obtain ⟨recipes, hrest, h⟩ := Outcome.bind_eq_ok.1 h
    cases h
    obtain ⟨hvalid, hall⟩ := ih hrest
    refine ⟨fun r hr => ?_, fun x hx => ?_⟩
    · obtain rfl | hr := mem_cons.1 hr
      · exact (readRecipe_ok hread).2.1
      · exact hvalid r hr
    · obtain rfl | hx := mem_cons.1 hx
      · exact ⟨recipe, hash, hread⟩
      · exact hall x hx

theorem sound_importFiles (hc : c.Sound fmt)
    (hvalid : ∀ recipe ∈ files, fmt.validate recipe = .ok ()) (h : importFiles fmt files c = .ok c') :
    c'.Sound fmt := by
  induction files generalizing c with
  | nil =>
    cases h
    exact hc
  | cons recipe rest ih =>
    rw [importFiles] at h
    obtain ⟨c₁, himport, h⟩ := Outcome.bind_eq_ok.1 h
    exact ih (sound_importRecipe hc (hvalid _ mem_cons_self) himport)
      (fun r hr => hvalid r (mem_cons_of_mem _ hr)) h

theorem sound_importRevisions (hc : c.Sound fmt)
    (h : importRevisions fmt current recipeId l (c, n) = .ok (c', n')) : c'.Sound fmt := by
  induction l generalizing c n with
  | nil =>
    cases h
    exact hc
  | cons x rest ih =>
    obtain ⟨-, h⟩ | ⟨recipe, hash, c₁, hread, -, himport, h⟩ := importRevisions_cons h
    · exact ih hc h
    · exact ih (sound_importRevision hc (readRecipe_ok hread).2.1 himport) h

theorem sound_importSharedRevisions {l : List (RecipeId × List (Uuid × List UInt8))} {seen : ℕ}
    (hc : c.Sound fmt) (h : importSharedRevisions fmt current seen l (c, n) = .ok (c', n')) :
    c'.Sound fmt := by
  induction l generalizing seen c n with
  | nil =>
    cases h
    exact hc
  | cons x rest ih =>
    obtain ⟨recipeId, revisions⟩ := x
    rw [importSharedRevisions] at h
    split at h
    · cases h
    · split at h
      · cases h
      · obtain ⟨⟨c₁, n₁⟩, himport, h⟩ := Outcome.bind_eq_ok.1 h
        exact ih (sound_importRevisions hc himport) h

theorem sound_reconcile (hc : c.Sound fmt) (h : reconcile fmt d c = .ok c') : c'.Sound fmt := by
  obtain ⟨parsed, c₁, n, -, hparsed, hshared, hfiles⟩ := reconcile_ok h
  exact sound_importFiles (sound_importSharedRevisions hc hshared) (readFiles_ok hparsed).1 hfiles

theorem sound_saveAndImport (hs : s.catalog.Sound fmt) (hvalid : fmt.validate recipe = .ok ())
    (expected : Option String) : (saveAndImport fmt s recipe expected).2.catalog.Sound fmt := by
  unfold saveAndImport
  split
  · exact hs
  · split
    · exact hs
    · split
      · exact hs
      · rename_i c himport
        exact sound_importRecipe hs hvalid himport

/-- The operations on recipes. -/
inductive RecipeOp (V S : Type)
  | reconcile
  | list (limit : ℕ)
  | save (recipe : RecipeFile V S) (expected : Option String)
  | update (id : RecipeId) (expected : Uuid) (view : ViewDefinition V) (savedAt : Option ℤ) (revision : Uuid)
  | restore (id : RecipeId) (revision : Uuid) (expected : String)

/-- The store after an operation. -/
def RecipeOp.after (fmt : RecipeFormat V S) (s : RecipeStore) : RecipeOp V S → RecipeStore
  | reconcile =>
    match Store.reconcile fmt s.directory s.catalog with
    | .ok c => { s with catalog := c }
    | .error _ => s
  | list limit => (listRecipes fmt limit s).2
  | save recipe expected => (saveRecipe fmt recipe expected s).2
  | update id expected view savedAt revision => (updateRecipeRevision fmt id expected view savedAt revision s).2
  | restore id revision expected => (restoreRecipeRevision fmt id revision expected s).2

theorem RecipeOp.sound (hs : s.catalog.Sound fmt) (op : RecipeOp V S) :
    (op.after fmt s).catalog.Sound fmt := by
  cases op with
  | reconcile =>
    rw [RecipeOp.after]
    split
    · rename_i c hreconcile
      exact sound_reconcile hs hreconcile
    · exact hs
  | list limit =>
    rw [RecipeOp.after, listRecipes]
    split
    · exact hs
    · split
      · exact hs
      · rename_i c hreconcile
        exact sound_reconcile hs hreconcile
  | save recipe expected =>
    rw [RecipeOp.after, saveRecipe]
    split
    · exact hs
    · rename_i hvalid
      split
      · exact hs
      · rename_i c hreconcile
        exact sound_saveAndImport (s := { s with catalog := c }) (sound_reconcile hs hreconcile) hvalid expected
  | update id expected view savedAt revision =>
    rw [RecipeOp.after, updateRecipeRevision]
    split
    · exact hs
    · rename_i c hreconcile
      have hc := sound_reconcile hs hreconcile
      split
      · exact hc
      · split
        · exact hc
        · rename_i hvalid
          exact sound_saveAndImport (s := { s with catalog := c }) hc hvalid _
  | restore id revision expected =>
    rw [RecipeOp.after, restoreRecipeRevision]
    split
    · exact hs
    · rename_i c hreconcile
      have hc := sound_reconcile hs hreconcile
      split
      · exact hc
      · rename_i recipe hdocument
        refine sound_saveAndImport (s := { s with catalog := c }) hc ?_ _
        unfold revisionDocument at hdocument
        split at hdocument
        · cases hdocument
        · split at hdocument
          · cases hdocument
          · split at hdocument
            · cases hdocument
            · rename_i hvalid
              cases hdocument
              exact hvalid

/-- What becomes of a catalog and its directory: the files are also written by hand, by other
workspaces and by other versions. -/
inductive RecipeStep (fmt : RecipeFormat V S) : RecipeStore → RecipeStore → Prop
  | files (s : RecipeStore) (directory : RecipeDirectory) : RecipeStep fmt s { s with directory }
  | op (s : RecipeStore) (op : RecipeOp V S) : RecipeStep fmt s (op.after fmt s)

/-- What can be reached with a new catalog. -/
def RecipeStore.Reachable (fmt : RecipeFormat V S) (s : RecipeStore) : Prop :=
  ∃ directory, Relation.ReflTransGen (RecipeStep fmt) ⟨directory, .empty⟩ s

theorem RecipeStore.Reachable.sound (h : s.Reachable fmt) : s.catalog.Sound fmt := by
  obtain ⟨directory, hrun⟩ := h
  induction hrun with
  | refl => exact sound_empty
  | tail _ hstep ih =>
    cases hstep with
    | files directory => exact ih
    | op op => exact op.sound ih

end Lvu.Store
