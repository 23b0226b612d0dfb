import Mathlib.Data.String.Basic
import Lvu.Data.Table
import Lvu.Store.Views

/-!
# Recipes

A recipe's document is a file of the shared recipes directory; its revisions are published there as
files that are never replaced, and each workspace catalogs both in its own database
(`lvu-memory/src/recipe.rs`, `lvu-memory/src/store.rs`).  Reading and writing TOML, the checks of a
document and the hash of a file are parameters.

* `reconcile` : the catalog takes in what the directory holds.
* `listRecipes`, `updateRecipeRevision`, `saveRecipe`, `restoreRecipeRevision` : the operations.
-/

namespace Lvu.Store

/-- `NamedViewDefinition`: its identity, its name, its sources, and the rest. -/
structure ViewDefinition (V : Type) where
  id : ViewId
  name : String
  sourceIds : List SourceId
  rest : V
deriving DecidableEq

/-- `RecipeFile`; of its source it is the identity that matters here. -/
structure RecipeFile (V S : Type) where
  recipeId : RecipeId
  revisionId : Uuid
  name : String
  savedAtUnixNanos : Option ℤ
  sourceId : SourceId
  source : S
  view : ViewDefinition V
deriving DecidableEq

inductive RecipeError
  | tooLarge
  | futureVersion (version : UInt32)
  | invalid (reason : String)
  | conflict
  | toml (reason : String)
deriving DecidableEq

/-- What the operations on recipes report. -/
inductive CatalogError
  | recipe (e : RecipeError)
  | invalidData (reason : String)
  | conflict
  | reconcileLimit
deriving DecidableEq

/-- The operation is refused as a conflict, by the catalog or by the file. -/
def CatalogError.isConflict (e : CatalogError) : Bool := decide (e = .conflict) || decide (e = .recipe .conflict)

/-- How documents are written, read and checked. -/
structure RecipeFormat (V S : Type) where
  /-- `toml::to_string_pretty`. -/
  toStringPretty : RecipeFile V S → Except String (List UInt8)
  /-- `std::str::from_utf8` and `toml::from_str`. -/
  fromStr : List UInt8 → Except String (RecipeFile V S)
  /-- `RecipeFile::validate`. -/
  validate : RecipeFile V S → Except RecipeError Unit
  /-- `content_hash`. -/
  contentHash : List UInt8 → String
  /-- The name of the canonical file of a recipe. -/
  fileName : RecipeId → String

def MAX_DEFINITION_BYTES : ℕ := 1048576

def MAX_RECONCILE_FILES : ℕ := 1024

def MAX_SHARED_REVISIONS_PER_RECIPE : ℕ := 256

def MAX_SHARED_REVISION_BYTES : ℕ := 33554432

/-- The recipes directory: its TOML files in the order of their names, and the revisions that were
published, recipe by recipe, in the order in which they are read. -/
structure RecipeDirectory where
  files : Table String (List UInt8)
  revisions : List (RecipeId × List (Uuid × List UInt8))

/-- A row of `recipe_revisions`. -/
structure RevisionRow where
  revisionId : Uuid
  recipeId : RecipeId
  name : String
  contentHash : String
  document : List UInt8
deriving DecidableEq

/-- A row of `recipes`. -/
structure RecipeRow where
  recipeId : RecipeId
  currentRevisionId : Uuid
  name : String
deriving DecidableEq

/-- What a workspace has cataloged. -/
structure Catalog where
  revisions : List RevisionRow
  recipes : List RecipeRow

variable {V S : Type}

namespace RecipeDirectory

/-- A file of the directory. -/
def file (d : RecipeDirectory) (name : String) : Option (List UInt8) :=
  (d.files.rows.find? fun x => decide (x.1 = name)).map Prod.snd

/-- A published revision. -/
def published (d : RecipeDirectory) (recipe : RecipeId) (revision : Uuid) : Option (List UInt8) :=
  (d.revisions.find? fun x => decide (x.1 = recipe)).bind fun x =>
    (x.2.find? fun y => decide (y.1 = revision)).map Prod.snd

/-- A revision is published under its name. -/
def publish (d : RecipeDirectory) (recipe : RecipeId) (revision : Uuid) (bytes : List UInt8) :
    RecipeDirectory :=
  if d.revisions.any fun x => decide (x.1 = recipe) then
    { d with
      revisions := d.revisions.map fun x =>
        if x.1 = recipe then (x.1, x.2 ++ [(revision, bytes)]) else x }
  else { d with revisions := d.revisions ++ [(recipe, [(revision, bytes)])] }

/-- The canonical file is replaced. -/
def write (d : RecipeDirectory) (name : String) (bytes : List UInt8) : RecipeDirectory :=
  { d with files := d.files.insert name bytes }

end RecipeDirectory

namespace Catalog

/-- No rows. -/
def empty : Catalog := ⟨[], []⟩

/-- The row of a revision. -/
def revision (c : Catalog) (id : Uuid) : Option RevisionRow :=
  c.revisions.find? fun row => decide (row.revisionId = id)

/-- The row of a recipe. -/
def recipe (c : Catalog) (id : RecipeId) : Option RecipeRow :=
  c.recipes.find? fun row => decide (row.recipeId = id)

/-- `INSERT OR IGNORE INTO recipe_revisions`. -/
def insertRevision (c : Catalog) (row : RevisionRow) : Catalog :=
  if (c.revision row.revisionId).isSome then c else { c with revisions := c.revisions ++ [row] }

/-- `INSERT INTO recipes … ON CONFLICT(recipe_id) DO UPDATE`. -/
def upsertRecipe (c : Catalog) (row : RecipeRow) : Catalog :=
  if (c.recipe row.recipeId).isSome then
    { c with recipes := c.recipes.map fun r => if r.recipeId = row.recipeId then row else r }
  else { c with recipes := c.recipes ++ [row] }

end Catalog

variable (fmt : RecipeFormat V S)

/-! ### Reading the directory -/

/-- `read_recipe`: the document of a file, and the hash of its bytes. -/
def readRecipe (bytes : List UInt8) : Except CatalogError (RecipeFile V S × String) :=
  if MAX_DEFINITION_BYTES < bytes.length then .error (.recipe .tooLarge)
  else match fmt.fromStr bytes with
    | .error reason => .error (.recipe (.toml reason))
    | .ok recipe =>
      match fmt.validate recipe with
      | .error e => .error (.recipe e)
      | .ok () => .ok (recipe, fmt.contentHash bytes)

/-- The document that is cataloged for a recipe: not the bytes of its file. -/
def documentOf (recipe : RecipeFile V S) : Except CatalogError (List UInt8) :=
  match fmt.toStringPretty recipe with
  | .error reason => .error (.invalidData reason)
  | .ok document => .ok document

/-- The row of a revision. -/
def revisionRow (recipe : RecipeFile V S) (document : List UInt8) : RevisionRow where
  revisionId := recipe.revisionId
  recipeId := recipe.recipeId
  name := recipe.name
  contentHash := fmt.contentHash document
  document

/-- A revision that is cataloged has the hash, the document and the recipe of this one. -/
def sameRevision (recipe : RecipeFile V S) (document : List UInt8) (old : RevisionRow) : Bool :=
  decide (old.contentHash = fmt.contentHash document) && decide (old.document = document) &&
    decide (old.recipeId = recipe.recipeId)

def preflightRevision (c : Catalog) (recipe : RecipeFile V S) : Except CatalogError Unit := do
  let document ← documentOf fmt recipe
  match c.revision recipe.revisionId with
  | some old => if sameRevision fmt recipe document old then .ok () else .error .conflict
  | none => .ok ()

/-- `import_revision_tx`. -/
def importRevision (c : Catalog) (recipe : RecipeFile V S) : Except CatalogError Catalog := do
  let document ← documentOf fmt recipe
  preflightRevision fmt c recipe
  return c.insertRevision (revisionRow fmt recipe document)

/-- `import_tx`. -/
def importRecipe (c : Catalog) (recipe : RecipeFile V S) : Except CatalogError Catalog := do
  let c ← importRevision fmt c recipe
  return c.upsertRecipe ⟨recipe.recipeId, recipe.revisionId, recipe.name⟩

/-- The revisions of one recipe; those that are known or current are not read.  The bytes that were
read are counted. -/
def importRevisions (current : List Uuid) (recipeId : RecipeId) :
    List (Uuid × List UInt8) → Catalog × ℕ → Except CatalogError (Catalog × ℕ)
  | [], acc => .ok acc
  | (revisionId, bytes) :: rest, (c, total) =>
    if revisionId ∈ current ∨ (c.revision revisionId).isSome = true then
      importRevisions current recipeId rest (c, total)
    else do
      let (recipe, _) ← readRecipe fmt bytes
      if recipe.recipeId ≠ recipeId ∨ recipe.revisionId ≠ revisionId then
        .error (.invalidData "shared revision document does not match its published identity")
      else if MAX_SHARED_REVISION_BYTES < total + bytes.length then .error .reconcileLimit
      else do
        let c ← importRevision fmt c recipe
        importRevisions current recipeId rest (c, total + bytes.length)

/-- `import_shared_revisions`: the recipes that were seen are counted. -/
def importSharedRevisions (current : List Uuid) :
    ℕ → List (RecipeId × List (Uuid × List UInt8)) → Catalog × ℕ → Except CatalogError (Catalog × ℕ)
  | _, [], acc => .ok acc
  | seen, (recipeId, revisions) :: rest, acc =>
    if MAX_RECONCILE_FILES < seen + 1 then .error .reconcileLimit
    else if MAX_SHARED_REVISIONS_PER_RECIPE < revisions.length then .error .reconcileLimit
    else do
      let acc ← importRevisions fmt current recipeId revisions acc
      importSharedRevisions current (seen + 1) rest acc

/-- The documents of the files. -/
def readFiles : List (String × List UInt8) → Except CatalogError (List (RecipeFile V S))
  | [] => .ok []
  | (_, bytes) :: rest => do
    let (recipe, _) ← readRecipe fmt bytes
    let recipes ← readFiles rest
    return recipe :: recipes

/-- The recipes of the files, one after the other. -/
def importFiles : List (RecipeFile V S) → Catalog → Except CatalogError Catalog
  | [], c => .ok c
  | recipe :: rest, c => do
    let c ← importRecipe fmt c recipe
    importFiles rest c

/-- `reconcile_toml_locked`: the shared history first, then the current documents. -/
def reconcile (d : RecipeDirectory) (c : Catalog) : Except CatalogError Catalog :=
  if MAX_RECONCILE_FILES < d.files.rows.length then .error .reconcileLimit
  else do
    let parsed ← readFiles fmt d.files.rows
    let (c, _) ← importSharedRevisions fmt (parsed.map RecipeFile.revisionId) 0 d.revisions (c, 0)
    importFiles fmt parsed c

/-! ### The operations -/

/-- A workspace's catalog and the directory that it shares. -/
structure RecipeStore where
  directory : RecipeDirectory
  catalog : Catalog

/-- A document of the catalog. -/
def decodeDocument (document : List UInt8) : Except CatalogError (RecipeFile V S) :=
  if MAX_DEFINITION_BYTES < document.length then .error (.recipe .tooLarge)
  else match fmt.fromStr document with
    | .error reason => .error (.recipe (.toml reason))
    | .ok recipe =>
      match fmt.validate recipe with
      | .error e => .error (.recipe e)
      | .ok () => .ok recipe

/-- `ORDER BY r.name,r.recipe_id`. -/
def Listed (a b : RecipeRow × RevisionRow) : Prop :=
  a.1.name < b.1.name ∨ a.1.name = b.1.name ∧
    a.1.recipeId.uuid.bytes.map UInt8.toNat ≤ b.1.recipeId.uuid.bytes.map UInt8.toNat

instance : DecidableRel Listed := fun _ _ => inferInstanceAs (Decidable (_ ∨ _))

/-- The recipes with their current revisions. -/
def Catalog.rows (c : Catalog) : List (RecipeRow × RevisionRow) :=
  (c.recipes.filterMap fun row => (c.revision row.currentRevisionId).map fun revision =>
    (row, revision)).insertionSort Listed

/-- The documents of some rows, with their hashes. -/
def decodeRows : List (RecipeRow × RevisionRow) → Except CatalogError (List (RecipeFile V S × String))
  | [] => .ok []
  | (_, row) :: rest => do
    let recipe ← decodeDocument fmt row.document
    let recipes ← decodeRows rest
    return (recipe, row.contentHash) :: recipes

def listRecipes (limit : ℕ) (s : RecipeStore) :
    Except CatalogError (List (RecipeFile V S × String)) × RecipeStore :=
  if limit = 0 ∨ 128 < limit then (.error (.invalidData "recipe list limit must be 1..=128"), s)
  else match reconcile fmt s.directory s.catalog with
    | .error e => (.error e, s)
    | .ok c => (decodeRows fmt (c.rows.take limit), { s with catalog := c })

def publishSharedRevision (d : RecipeDirectory) (recipe : RecipeFile V S) (bytes : List UInt8) :
    Except CatalogError RecipeDirectory :=
  match d.published recipe.recipeId recipe.revisionId with
  | some existing =>
    if MAX_DEFINITION_BYTES < existing.length then .error (.recipe .tooLarge)
    else if existing = bytes then .ok d else .error (.recipe .conflict)
  | none => .ok (d.publish recipe.recipeId recipe.revisionId bytes)

/-- The file of a recipe is the one that is expected. -/
def checkFile (d : RecipeDirectory) (recipe : RecipeFile V S) (expected : Option String) :
    Except CatalogError Unit :=
  match d.file (fmt.fileName recipe.recipeId) with
  | some bytes => do
    let (current, hash) ← readRecipe fmt bytes
    if current.recipeId ≠ recipe.recipeId then .error (.recipe .conflict)
    else if expected ≠ some hash then .error (.recipe .conflict)
    else .ok ()
  | none => if expected.isSome then .error (.recipe .conflict) else .ok ()

/-- `save_recipe_locked`: the revision is published before the file is replaced. -/
def saveRecipeLocked (d : RecipeDirectory) (recipe : RecipeFile V S) (expected : Option String) :
    Except CatalogError (String × RecipeDirectory) := do
  match fmt.validate recipe with
  | .error e => .error (.recipe e)
  | .ok () =>
    checkFile fmt d recipe expected
    match fmt.toStringPretty recipe with
    | .error reason => .error (.recipe (.toml reason))
    | .ok bytes =>
      if MAX_DEFINITION_BYTES < bytes.length then .error (.recipe .tooLarge)
      else do
        let d ← publishSharedRevision d recipe bytes
        return (fmt.contentHash bytes, d.write (fmt.fileName recipe.recipeId) bytes)

/-- The file is saved, and then cataloged. -/
def saveAndImport (s : RecipeStore) (recipe : RecipeFile V S) (expected : Option String) :
    Except CatalogError String × RecipeStore :=
  match preflightRevision fmt s.catalog recipe with
  | .error e => (.error e, s)
  | .ok () =>
    match saveRecipeLocked fmt s.directory recipe expected with
    | .error e => (.error e, s)
    | .ok (hash, d) =>
      match importRecipe fmt s.catalog recipe with
      | .error e => (.error e, { s with directory := d })
      | .ok c => (.ok hash, ⟨d, c⟩)

def saveRecipe (recipe : RecipeFile V S) (expected : Option String) (s : RecipeStore) :
    Except CatalogError String × RecipeStore :=
  match fmt.validate recipe with
  | .error e => (.error (.recipe e), s)
  | .ok () =>
    match reconcile fmt s.directory s.catalog with
    | .error e => (.error e, s)
    | .ok c => saveAndImport fmt { s with catalog := c } recipe expected

/-- The current revision of a recipe, when it is the expected one. -/
def currentRevision (c : Catalog) (id : RecipeId) (expected : Uuid) :
    Except CatalogError (RecipeFile V S × String) :=
  match (c.recipe id).bind fun row => c.revision row.currentRevisionId with
  | none => .error .conflict
  | some row =>
    if row.revisionId ≠ expected then .error .conflict
    else do
      let recipe ← decodeDocument fmt row.document
      if recipe.recipeId ≠ id ∨ recipe.revisionId ≠ expected then .error .conflict
      else .ok (recipe, row.contentHash)

/-- The recipe with another view, as a revision of its own. -/
def RecipeFile.revised (recipe : RecipeFile V S) (view : ViewDefinition V) (revision : Uuid)
    (savedAt : Option ℤ) : RecipeFile V S :=
  { recipe with
    view := { view with id := recipe.view.id, name := recipe.view.name, sourceIds := [recipe.sourceId] }
    revisionId := revision
    savedAtUnixNanos := savedAt }

/-- `update_recipe_revision`; the new identity is drawn at random. -/
def updateRecipeRevision (id : RecipeId) (expected : Uuid) (view : ViewDefinition V) (savedAt : Option ℤ)
    (revision : Uuid) (s : RecipeStore) : Except CatalogError String × RecipeStore :=
  match reconcile fmt s.directory s.catalog with
  | .error e => (.error e, s)
  | .ok c =>
    match currentRevision fmt c id expected with
    | .error e => (.error e, { s with catalog := c })
    | .ok (recipe, hash) =>
      match fmt.validate (recipe.revised view revision savedAt) with
      | .error e => (.error (.recipe e), { s with catalog := c })
      | .ok () => saveAndImport fmt { s with catalog := c } (recipe.revised view revision savedAt) (some hash)

/-- The document of a revision of a recipe. -/
def revisionDocument (c : Catalog) (id : RecipeId) (revision : Uuid) : Except CatalogError (RecipeFile V S) :=
  match (c.revision revision).filter fun row => decide (row.recipeId = id) with
  | none => .error (.invalidData "revision does not belong to recipe")
  | some row =>
    match fmt.fromStr row.document with
    | .error reason => .error (.invalidData reason)
    | .ok recipe =>
      match fmt.validate recipe with
      | .error e => .error (.recipe e)
      | .ok () => .ok recipe

def restoreRecipeRevision (id : RecipeId) (revision : Uuid) (expected : String) (s : RecipeStore) :
    Except CatalogError String × RecipeStore :=
  match reconcile fmt s.directory s.catalog with
  | .error e => (.error e, s)
  | .ok c =>
    match revisionDocument fmt c id revision with
    | .error e => (.error e, { s with catalog := c })
    | .ok recipe => saveAndImport fmt { s with catalog := c } recipe (some expected)

end Lvu.Store
