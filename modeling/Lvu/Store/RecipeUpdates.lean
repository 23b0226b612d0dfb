import Lvu.Store.Catalog

/-!
# Recipes are updated against their files

When an update of a recipe that was just listed is refused as a conflict
(`lvu-memory/src/store.rs`, `lvu-memory/src/recipe.rs`): the catalog has the hash of the document
that it wrote for itself, and the update compares it with the hash of the file.

* `listRecipes_shown` : what a listing shows.
* `recipeWrite_accepted` : **when an update is not refused**.
-/

namespace Lvu.Store

open List

variable {V S : Type} {fmt : RecipeFormat V S}

/-! ### What is listed -/

/-- What was written is read again. -/
def RecipeFormat.Lawful (fmt : RecipeFormat V S) : Prop :=
  ∀ recipe document, fmt.toStringPretty recipe = .ok document → fmt.fromStr document = .ok recipe

variable {recipe : RecipeFile V S} {hash : String} {document : List UInt8} {s : RecipeStore}
  {d : RecipeDirectory}

theorem decodeRows_ok {l : List (RecipeRow × RevisionRow)} {listed : List (RecipeFile V S × String)}
    (h : decodeRows fmt l = .ok listed) (hlisted : (recipe, hash) ∈ listed) :
    ∃ x ∈ l, decodeDocument fmt x.2.document = .ok recipe ∧ x.2.contentHash = hash := by
  induction l generalizing listed with
  | nil =>
    cases h
    cases hlisted
  | cons x rest ih =>
    obtain ⟨row, revision⟩ := x
    rw [decodeRows] at h
    obtain ⟨recipe', hdecode, h⟩ := Outcome.bind_eq_ok.1 h
    obtain ⟨recipes, hrest, h⟩ := Outcome.bind_eq_ok.1 h
    cases h
    obtain heq | hmem := mem_cons.1 hlisted
    · cases heq
      exact ⟨_, mem_cons_self, hdecode, rfl⟩
    · obtain ⟨y, hy, hdocument, hhash⟩ := ih hrest hmem
      exact ⟨y, mem_cons_of_mem _ hy, hdocument, hhash⟩

theorem decodeDocument_ok (h : decodeDocument fmt document = .ok recipe) :
    document.length ≤ MAX_DEFINITION_BYTES ∧ fmt.fromStr document = .ok recipe ∧
      fmt.validate recipe = .ok () := by
  unfold decodeDocument at h
  split at h
  · cases h
  · rename_i hsize
    cases hread : fmt.fromStr document with
    | error reason =>
      rw [hread] at h
      cases h
    | ok recipe' =>
      rw [hread] at h
      dsimp only at h
      cases hvalid : fmt.validate recipe' with
      | error e =>
        rw [hvalid] at h
        cases h
      | ok u =>
        rw [hvalid] at h
        cases h
        exact ⟨by omega, rfl, hvalid⟩

/-- What a listing shows of a recipe: its current revision, in a catalog that was reconciled. -/
structure Shown (fmt : RecipeFormat V S) (s : RecipeStore) (recipe : RecipeFile V S) (hash : String) : Prop where
  sound : s.catalog.Sound fmt
  reconciled : ∃ c, reconcile fmt s.directory c = .ok s.catalog
  current : ∃ row document, s.catalog.recipe recipe.recipeId = some row ∧
    s.catalog.revision row.currentRevisionId = some (revisionRow fmt recipe document) ∧
      fmt.toStringPretty recipe = .ok document ∧ document.length ≤ MAX_DEFINITION_BYTES ∧
        fmt.validate recipe = .ok () ∧ hash = fmt.contentHash document

theorem listRecipes_shown (hfmt : fmt.Lawful) {s' : RecipeStore} (hs : s.Reachable fmt) {limit : ℕ}
    {listed : List (RecipeFile V S × String)} (hlist : listRecipes fmt limit s = (.ok listed, s'))
    (hlisted : (recipe, hash) ∈ listed) : Shown fmt s' recipe hash := by
  unfold listRecipes at hlist
  split at hlist
  · cases hlist
  · cases hreconcile : reconcile fmt s.directory s.catalog with
    | error e =>
      rw [hreconcile] at hlist
      cases hlist
    | ok c =>
      rw [hreconcile] at hlist
      obtain ⟨hrows, rfl⟩ := Prod.mk.inj hlist
      have hsound := sound_reconcile hs.sound hreconcile
      obtain ⟨x, hx, hdecode, rfl⟩ := decodeRows_ok hrows hlisted
      obtain ⟨hsize, hread, hvalid⟩ := decodeDocument_ok hdecode
      have hx := mem_of_mem_take hx
      rw [Catalog.rows, mem_insertionSort] at hx
      obtain ⟨row, hrow, hx⟩ := mem_filterMap.1 hx
      obtain ⟨revision, hrevision, rfl⟩ := Option.map_eq_some_iff.1 hx
      -- the document that is listed is the one that was written
      obtain ⟨recipe', document, hdocument, -, hrow'⟩ := hsound.rows revision (mem_of_find?_eq_some hrevision)
      have hdoc : revision.document = document := by rw [hrow']; rfl
      rw [hdoc, hfmt _ _ hdocument] at hread
      cases hread
      obtain ⟨own, hown, hid⟩ := hsound.current row hrow
      rw [hrevision] at hown
      cases hown
      have hrecipe : row.recipeId = recipe.recipeId := by
        rw [← hid, hrow']
        rfl
      refine ⟨hsound, ⟨_, hreconcile⟩, row, document, ?_, ?_, hdocument, hdoc ▸ hsize, hvalid, ?_⟩
      · rw [← hrecipe, Catalog.recipe]
        cases hfind : c.recipes.find? fun r => decide (r.recipeId = row.recipeId) with
        | none => exact absurd (decide_eq_true rfl) (find?_eq_none.1 hfind row hrow)
        | some r =>
          have hr : r.recipeId = row.recipeId := by simpa using find?_some hfind
          rw [inj_on_of_nodup_map hsound.keyed (mem_of_find?_eq_some hfind) hrow hr]
      · rw [← hrow']
        exact hrevision
      · rw [hrow']
        rfl

/-! ### When an update is refused -/

/-- An operation is refused as a conflict. -/
def Refused {A : Type} (r : Except CatalogError A) : Prop := ∃ e, r = .error e ∧ e.isConflict = true

theorem not_refused_ok {A : Type} (a : A) : ¬ Refused (.ok a : Except CatalogError A) := by
  rintro ⟨e, h, -⟩
  cases h

theorem refused_error {A : Type} {e : CatalogError} : Refused (.error e : Except CatalogError A) ↔ e.isConflict = true :=
  ⟨fun ⟨_, h, he⟩ => (by cases h; exact he), fun h => ⟨e, rfl, h⟩⟩

/-- The canonical file of the recipe is there, holds it, and its bytes have this hash. -/
def Canonical (fmt : RecipeFormat V S) (d : RecipeDirectory) (id : RecipeId) (hash : String) : Prop :=
  ∃ bytes recipe, d.file (fmt.fileName id) = some bytes ∧ readRecipe fmt bytes = .ok (recipe, hash) ∧
    recipe.recipeId = id

/-- A revision was not published with other bytes. -/
def Publishable (d : RecipeDirectory) (id : RecipeId) (revision : Uuid) (document : List UInt8) : Prop :=
  document.length ≤ MAX_DEFINITION_BYTES → ∀ existing, d.published id revision = some existing →
    existing.length ≤ MAX_DEFINITION_BYTES → existing = document

/-- The files of the directory can be read. -/
def Readable (fmt : RecipeFormat V S) (d : RecipeDirectory) : Prop :=
  ∀ name bytes, d.file name = some bytes → ∃ recipe hash, readRecipe fmt bytes = .ok (recipe, hash)

theorem readable_of_reconcile {c c' : Catalog} (h : reconcile fmt d c = .ok c') :
    Readable fmt d := by
  obtain ⟨parsed, -, -, -, hparsed, -, -⟩ := reconcile_ok h
  intro name bytes hfile
  obtain ⟨x, hx, rfl⟩ := Option.map_eq_some_iff.1 hfile
  exact (readFiles_ok hparsed).2 x (mem_of_find?_eq_some hx)

theorem checkFile_of_canonical (h : Canonical fmt d recipe.recipeId hash) :
    checkFile fmt d recipe (some hash) = .ok () := by
  obtain ⟨bytes, current, hfile, hread, hid⟩ := h
  rw [checkFile, hfile]
  dsimp only
  rw [hread]
  change (if current.recipeId ≠ recipe.recipeId then Except.error (CatalogError.recipe .conflict)
    else if some hash ≠ some hash then .error (.recipe .conflict) else .ok ()) = _
  rw [if_neg fun h => h hid, if_neg fun h => h rfl]

theorem checkFile_of_not_canonical (hreadable : Readable fmt d)
    (h : ¬ Canonical fmt d recipe.recipeId hash) :
    checkFile fmt d recipe (some hash) = .error (.recipe .conflict) := by
  rw [checkFile]
  cases hfile : d.file (fmt.fileName recipe.recipeId) with
  | none => rfl
  | some bytes =>
    obtain ⟨current, hash', hread⟩ := hreadable _ _ hfile
    dsimp only
    rw [hread]
    change (if current.recipeId ≠ recipe.recipeId then Except.error (CatalogError.recipe .conflict)
      else if some hash ≠ some hash' then .error (.recipe .conflict) else .ok ()) = _
    by_cases hid : current.recipeId = recipe.recipeId
    · rw [if_neg fun h => h hid]
      refine if_pos fun heq => h ⟨bytes, current, hfile, ?_, hid⟩
      rw [hread, Option.some_injective _ heq]
    · rw [if_pos hid]

/-- What can refuse a save: the file, and the revision that is published. -/
theorem saveRecipeLocked_refused (hreadable : Readable fmt d) (hash : String)
    (hvalid : fmt.validate recipe = .ok ()) (hdocument : fmt.toStringPretty recipe = .ok document) :
    Refused (saveRecipeLocked fmt d recipe (some hash)) ↔
      ¬ (Canonical fmt d recipe.recipeId hash ∧ Publishable d recipe.recipeId recipe.revisionId document) := by
  unfold saveRecipeLocked
  rw [hvalid, hdocument]
  dsimp only
  by_cases hcanonical : Canonical fmt d recipe.recipeId hash
  · rw [checkFile_of_canonical hcanonical]
    change Refused (if MAX_DEFINITION_BYTES < document.length then Except.error (CatalogError.recipe .tooLarge)
      else publishSharedRevision d recipe document >>= fun d =>
        pure (fmt.contentHash document, d.write (fmt.fileName recipe.recipeId) document)) ↔ _
    by_cases hsize : MAX_DEFINITION_BYTES < document.length
    · rw [if_pos hsize, refused_error]
      exact iff_of_false (by decide) fun h => h ⟨hcanonical, fun hle => absurd hsize (by omega)⟩
    · rw [if_neg hsize, publishSharedRevision]
      cases hpublished : d.published recipe.recipeId recipe.revisionId with
      | none =>
        refine iff_of_false (not_refused_ok _) fun h => h ⟨hcanonical, fun _ existing hexisting => ?_⟩
        rw [hpublished] at hexisting
        cases hexisting
      | some existing =>
        dsimp only
        by_cases hlarge : MAX_DEFINITION_BYTES < existing.length
        · rw [if_pos hlarge]
          refine iff_of_false (fun h => ?_) fun h => h ⟨hcanonical, fun _ other hother hle => ?_⟩
          · exact absurd (refused_error.1 h) (by decide)
          · rw [hpublished] at hother
            cases hother
            exact absurd hlarge (by omega)
        · rw [if_neg hlarge]
          by_cases hsame : existing = document
          · rw [if_pos hsame]
            refine iff_of_false (not_refused_ok _) fun h => h ⟨hcanonical, fun _ other hother _ => ?_⟩
            rw [hpublished] at hother
            cases hother
            exact hsame
          · rw [if_neg hsame]
            refine iff_of_true (refused_error.2 (by decide)) fun h => hsame ?_
            exact h.2 (by omega) existing hpublished (by omega)
  · rw [checkFile_of_not_canonical hreadable hcanonical]
    exact iff_of_true (refused_error.2 (by decide)) fun h => hcanonical h.1

theorem saveAndImport_refused (hreadable : Readable fmt s.directory) (hash : String)
    (hvalid : fmt.validate recipe = .ok ()) (hdocument : fmt.toStringPretty recipe = .ok document) :
    Refused (saveAndImport fmt s recipe (some hash)).1 ↔
      ¬ ((∀ old, s.catalog.revision recipe.revisionId = some old → sameRevision fmt recipe document old = true) ∧
        Canonical fmt s.directory recipe.recipeId hash ∧
          Publishable s.directory recipe.recipeId recipe.revisionId document) := by
  have hsave := saveRecipeLocked_refused hreadable hash hvalid hdocument
  unfold saveAndImport
  by_cases hsame : ∀ old, s.catalog.revision recipe.revisionId = some old → sameRevision fmt recipe document old = true
  · have hpreflight : preflightRevision fmt s.catalog recipe = .ok () :=
      preflightRevision_ok.2 ⟨document, hdocument, hsame⟩
    simp only [hpreflight]
    cases hlocked : saveRecipeLocked fmt s.directory recipe (some hash) with
    | error e =>
      rw [hlocked] at hsave
      rw [refused_error] at hsave ⊢
      rw [hsave, and_iff_right hsame]
    | ok r =>
      obtain ⟨saved, d⟩ := r
      rw [hlocked] at hsave
      have himport : ∃ c, importRecipe fmt s.catalog recipe = .ok c := by
        refine ⟨(s.catalog.insertRevision (revisionRow fmt recipe document)).upsertRecipe
          ⟨recipe.recipeId, recipe.revisionId, recipe.name⟩, ?_⟩
        rw [importRecipe, importRevision, documentOf_ok.2 hdocument, hpreflight]
        rfl
      obtain ⟨c, himport⟩ := himport
      rw [himport]
      refine iff_of_false (not_refused_ok _) fun h => h ⟨hsame, ?_⟩
      by_contra hnot
      exact not_refused_ok _ (hsave.2 hnot)
  · have hpreflight : preflightRevision fmt s.catalog recipe = .error .conflict := by
      cases hold : s.catalog.revision recipe.revisionId with
      | none => exact absurd (fun old h => by rw [hold] at h; cases h) hsame
      | some old =>
        rw [preflightRevision_known hdocument hold]
        refine if_neg fun hok => hsame fun old' h => ?_
        rw [hold] at h
        cases h
        exact hok
    rw [hpreflight]
    exact iff_of_true (refused_error.2 (by decide)) fun h => hsame h.1

/-- A change of a recipe that is listed. -/
inductive RecipeWrite (V S : Type)
  | update (view : ViewDefinition V) (savedAt : Option ℤ) (revision : Uuid)
  | save (recipe : RecipeFile V S)
  | restore (revision : Uuid)

namespace RecipeWrite

/-- It names the revision, or the hash, that is listed. -/
def run (fmt : RecipeFormat V S) (s : RecipeStore) (recipe : RecipeFile V S) (hash : String) :
    RecipeWrite V S → Except CatalogError String × RecipeStore
  | update view savedAt revision =>
    updateRecipeRevision fmt recipe.recipeId recipe.revisionId view savedAt revision s
  | save recipe' => saveRecipe fmt recipe' (some hash) s
  | restore revision => restoreRecipeRevision fmt recipe.recipeId revision hash s

/-- The view is valid, and the identity that is drawn is new; what is saved is a valid document of
the recipe. -/
def Valid (fmt : RecipeFormat V S) (s : RecipeStore) (recipe : RecipeFile V S) : RecipeWrite V S → Prop
  | update view savedAt revision =>
    fmt.validate (recipe.revised view revision savedAt) = .ok () ∧
      (∃ document, fmt.toStringPretty (recipe.revised view revision savedAt) = .ok document) ∧
        s.catalog.revision revision = none ∧ s.directory.published recipe.recipeId revision = none
  | save recipe' =>
    recipe'.recipeId = recipe.recipeId ∧ fmt.validate recipe' = .ok () ∧
      ∃ document, fmt.toStringPretty recipe' = .ok document
  | restore _ => True

/-- The file of the recipe has the hash that is listed, and the revision that is written has no
other document. -/
def Agrees (fmt : RecipeFormat V S) (s : RecipeStore) (recipe : RecipeFile V S) (hash : String) :
    RecipeWrite V S → Prop
  | update _ _ _ => Canonical fmt s.directory recipe.recipeId hash
  | save recipe' => ∀ document, fmt.toStringPretty recipe' = .ok document →
    (∀ old, s.catalog.revision recipe'.revisionId = some old → sameRevision fmt recipe' document old = true) ∧
      Canonical fmt s.directory recipe.recipeId hash ∧
        Publishable s.directory recipe.recipeId recipe'.revisionId document
  | restore revision => ∀ row, s.catalog.revision revision = some row → row.recipeId = recipe.recipeId →
    Canonical fmt s.directory recipe.recipeId hash ∧
      Publishable s.directory recipe.recipeId revision row.document

end RecipeWrite

theorem update_refused (hfmt : fmt.Lawful) (hshown : Shown fmt s recipe hash)
    {view : ViewDefinition V} {savedAt : Option ℤ} {revision : Uuid}
    (hvalid : (RecipeWrite.update view savedAt revision).Valid fmt s recipe) :
    Refused (updateRecipeRevision fmt recipe.recipeId recipe.revisionId view savedAt revision s).1 ↔
      ¬ Canonical fmt s.directory recipe.recipeId hash := by
  obtain ⟨hcheck, ⟨document', hdocument'⟩, hnew, hunpublished⟩ := hvalid
  obtain ⟨row, document, hrow, hcurrent, hdocument, hsize, hrecipe, rfl⟩ := hshown.current
  obtain ⟨c₀, hreconciled⟩ := hshown.reconciled
  obtain ⟨c, hagain, hrevisions, hrecipes⟩ := reconcile_again hreconciled
  have hdecode : decodeDocument fmt document = .ok recipe := by
    rw [decodeDocument, if_neg (by omega), hfmt _ _ hdocument]
    dsimp only
    rw [hrecipe]
  have hrevision : currentRevision fmt c recipe.recipeId recipe.revisionId =
      .ok (recipe, fmt.contentHash document) := by
    unfold currentRevision
    rw [hrecipes, hrow, Option.bind_some, revision_congr hrevisions, hcurrent]
    dsimp only [revisionRow]
    rw [if_neg fun h => h rfl, hdecode]
    exact if_neg fun h => h.elim (fun h => h rfl) fun h => h rfl
  unfold updateRecipeRevision
  rw [hagain]
  dsimp only
  rw [hrevision]
  dsimp only
  rw [hcheck]
  have hrefused := saveAndImport_refused (s := ⟨s.directory, c⟩) (readable_of_reconcile hreconciled)
    (fmt.contentHash document) hcheck hdocument'
  have hfree : ∀ old, c.revision (recipe.revised view revision savedAt).revisionId = some old →
      sameRevision fmt (recipe.revised view revision savedAt) document' old = true := fun old hold => by
    rw [revision_congr hrevisions] at hold
    exact absurd (hnew.symm.trans hold) (Option.some_ne_none old).symm
  have hpublish : Publishable s.directory recipe.recipeId revision document' := fun _ existing hexisting => by
    rw [hunpublished] at hexisting
    cases hexisting
  refine hrefused.trans (not_congr ?_)
  exact ⟨fun h => h.2.1, fun h => ⟨hfree, h, hpublish⟩⟩

theorem save_refused {recipe' : RecipeFile V S} (hshown : Shown fmt s recipe hash)
    (hvalid : (RecipeWrite.save recipe').Valid fmt s recipe) :
    Refused (saveRecipe fmt recipe' (some hash) s).1 ↔ ¬ (RecipeWrite.save recipe').Agrees fmt s recipe hash := by
  obtain ⟨hid, hcheck, document, hdocument⟩ := hvalid
  obtain ⟨c₀, hreconciled⟩ := hshown.reconciled
  obtain ⟨c, hagain, hrevisions, -⟩ := reconcile_again hreconciled
  unfold saveRecipe
  rw [hcheck]
  dsimp only
  rw [hagain]
  refine (saveAndImport_refused (s := ⟨s.directory, c⟩) (readable_of_reconcile hreconciled) hash hcheck
    hdocument).trans (not_congr ?_)
  rw [hid, revision_congr hrevisions]
  constructor
  · rintro h document' hdocument'
    rw [hdocument] at hdocument'
    cases hdocument'
    exact h
  · exact fun h => h document hdocument

theorem restore_refused (hfmt : fmt.Lawful) (hshown : Shown fmt s recipe hash) (revision : Uuid) :
    Refused (restoreRecipeRevision fmt recipe.recipeId revision hash s).1 ↔
      ¬ (RecipeWrite.restore (V := V) (S := S) revision).Agrees fmt s recipe hash := by
  obtain ⟨c₀, hreconciled⟩ := hshown.reconciled
  obtain ⟨c, hagain, hrevisions, -⟩ := reconcile_again hreconciled
  unfold restoreRecipeRevision
  rw [hagain]
  dsimp only
  have hlookup := revision_congr hrevisions revision
  cases hrow : s.catalog.revision revision with
  | none =>
    have hdocument : revisionDocument fmt c recipe.recipeId revision =
        .error (.invalidData "revision does not belong to recipe") := by
      rw [revisionDocument, hlookup, hrow]
      rfl
    rw [hdocument]
    refine iff_of_false (fun h => absurd (refused_error.1 h) (by decide)) fun h => h fun row hrow' => ?_
    rw [hrow] at hrow'
    cases hrow'
  | some row =>
    by_cases hid : row.recipeId = recipe.recipeId
    · -- the document is one that was written and checked
      obtain ⟨recipe', document, hdocument, hcheck, hown⟩ :=
        hshown.sound.rows row (mem_of_find?_eq_some hrow)
      have hdoc : row.document = document := by rw [hown]; rfl
      have hrevisionId : recipe'.revisionId = revision := by
        have : row.revisionId = revision := by simpa using find?_some hrow
        rw [← this, hown]
        rfl
      have hrecipeId : recipe'.recipeId = recipe.recipeId := by
        rw [← hid, hown]
        rfl
      have hread : revisionDocument fmt c recipe.recipeId revision = .ok recipe' := by
        rw [revisionDocument, hlookup, hrow, Option.filter_some, if_pos (decide_eq_true hid)]
        dsimp only
        rw [hdoc, hfmt _ _ hdocument]
        dsimp only
        rw [hcheck]
      rw [hread]
      refine (saveAndImport_refused (s := ⟨s.directory, c⟩) (readable_of_reconcile hreconciled) hash hcheck
        hdocument).trans (not_congr ?_)
      have hsame : ∀ old, c.revision recipe'.revisionId = some old →
          sameRevision fmt recipe' document old = true := fun old hold => by
        rw [hrevisionId, hlookup, hrow] at hold
        cases hold
        rw [hown]
        simp [sameRevision, revisionRow]
      rw [and_iff_right hsame, hrecipeId, hrevisionId]
      constructor
      · rintro h row' hrow' -
        rw [hrow] at hrow'
        cases hrow'
        rw [hdoc]
        exact h
      · intro h
        have := h row hrow hid
        rwa [hdoc] at this
    · have hdocument : revisionDocument fmt c recipe.recipeId revision =
          .error (.invalidData "revision does not belong to recipe") := by
        rw [revisionDocument, hlookup, hrow, Option.filter_some, if_neg (by simpa using hid)]
      rw [hdocument]
      refine iff_of_false (fun h => absurd (refused_error.1 h) (by decide)) fun h => h fun row' hrow' hid' => ?_
      rw [hrow] at hrow'
      cases hrow'
      exact absurd hid' hid

/-- **When a change of a recipe that was just listed is not refused as a conflict.** -/
theorem recipeWrite_accepted (hfmt : fmt.Lawful) {s s' : RecipeStore} (hs : s.Reachable fmt) {limit : ℕ}
    {listed : List (RecipeFile V S × String)} (hlist : listRecipes fmt limit s = (.ok listed, s'))
    {recipe : RecipeFile V S} {hash : String} (hlisted : (recipe, hash) ∈ listed) (w : RecipeWrite V S)
    (hvalid : w.Valid fmt s' recipe) :
    ¬ Refused (w.run fmt s' recipe hash).1 ↔ w.Agrees fmt s' recipe hash := by
  have hshown := listRecipes_shown hfmt hs hlist hlisted
  cases w with
  | update view savedAt revision => exact not_iff_comm.1 (iff_comm.1 (update_refused hfmt hshown hvalid))
  | save recipe' => exact not_iff_comm.1 (iff_comm.1 (save_refused hshown hvalid))
  | restore revision => exact not_iff_comm.1 (iff_comm.1 (restore_refused hfmt hshown revision))

/-- A recipe. -/
def plainRecipe : RecipeFile Unit Unit where
  recipeId := ⟨.filled 7⟩
  revisionId := .filled 1
  name := "errors"
  savedAtUnixNanos := none
  sourceId := ⟨.filled 0x11⟩
  source := ()
  view := ⟨⟨.filled 5⟩, "Errors", [⟨.filled 0x11⟩], ()⟩

/-- Its next revision. -/
def revisedRecipe : RecipeFile Unit Unit := plainRecipe.revised plainRecipe.view (.filled 2) none

/-- A format that writes each of the two in one way, and reads the first one in another way too. -/
def twoWays : RecipeFormat Unit Unit where
  toStringPretty := fun recipe =>
    if recipe = plainRecipe then .ok [1]
    else if recipe = revisedRecipe then .ok [3]
    else .error "unknown"
  fromStr := fun bytes =>
    if bytes = [1] ∨ bytes = [2] then .ok plainRecipe
    else if bytes = [3] then .ok revisedRecipe
    else .error "unknown"
  validate := fun _ => .ok ()
  contentHash := fun bytes => if bytes = [1] then "first" else if bytes = [2] then "second" else "third"
  fileName := fun _ => "recipe.toml"

theorem twoWays_lawful : twoWays.Lawful := by
  intro recipe document h
  simp only [twoWays] at h ⊢
  split_ifs at h with h₁ h₂
  · cases h
    rw [h₁]
    rfl
  · cases h
    rw [h₂]
    rfl

/-- A new workspace, with the file of the recipe. -/
def oneRecipe (bytes : List UInt8) : RecipeStore where
  directory := ⟨⟨[("recipe.toml", bytes)], pairwise_singleton _ _⟩, []⟩
  catalog := .empty

/-- What it has cataloged once it was listed. -/
def oneCataloged (bytes : List UInt8) : RecipeStore where
  directory := (oneRecipe bytes).directory
  catalog := ⟨[revisionRow twoWays plainRecipe [1]], [⟨plainRecipe.recipeId, plainRecipe.revisionId, "errors"⟩]⟩

/-- A recipe whose file was written by this version is updated. -/
theorem recipeWrite_accepted_example :
    listRecipes twoWays 128 (oneRecipe [1]) = (.ok [(plainRecipe, "first")], oneCataloged [1]) ∧
      ¬ Refused ((RecipeWrite.update plainRecipe.view none (.filled 2)).run twoWays (oneCataloged [1])
        plainRecipe "first").1 := by
  have hlist : listRecipes twoWays 128 (oneRecipe [1]) = (.ok [(plainRecipe, "first")], oneCataloged [1]) := rfl
  refine ⟨hlist, ?_⟩
  refine (recipeWrite_accepted twoWays_lawful ⟨_, .refl⟩ hlist mem_cons_self
    (.update plainRecipe.view none (.filled 2)) ⟨rfl, ⟨[3], rfl⟩, rfl, rfl⟩).2 ?_
  exact ⟨[1], plainRecipe, rfl, rfl, rfl⟩

/-- **A recipe that was written by hand is listed, and cannot be updated.** -/
theorem handWritten_refused :
    listRecipes twoWays 128 (oneRecipe [2]) = (.ok [(plainRecipe, "first")], oneCataloged [2]) ∧
      (RecipeWrite.update plainRecipe.view none (.filled 2)).Valid twoWays (oneCataloged [2]) plainRecipe ∧
        Refused ((RecipeWrite.update plainRecipe.view none (.filled 2)).run twoWays (oneCataloged [2])
          plainRecipe "first").1 :=
  ⟨rfl, ⟨rfl, ⟨[3], rfl⟩, rfl, rfl⟩, .recipe .conflict, rfl, by decide⟩

end Lvu.Store
