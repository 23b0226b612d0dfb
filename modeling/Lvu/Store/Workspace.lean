import Lvu.Data.Table
import Lvu.Data.Text
import Lvu.Machine.Transaction
import Lvu.Store.Views

/-!
# The workspace store

Views with their columns, the tables that keep them and their bookmarks, and the checks that a view
passes when it is written and again when it is read (`lvu-memory/src/store.rs`).  Bookmarks belong
to a source: a view's row holds none.  `R` is what a presentation holds that the store does not
look at, and `M` what it knows of a source.

* `validateWorkingView` : the checks.
* `readSourceBookmarks`, `getView` : what is read.
-/

namespace Lvu.Store

/-- What the operations report. -/
inductive MemoryError
  | recipe (reason : String)
  | database (reason : String)
  | invalidData (reason : String)
  | conflict
deriving DecidableEq

/-- A mark on a record, with the user's words. -/
structure StoredBookmark where
  record : RecordId
  note : String
deriving DecidableEq

/-- A text that is being edited. -/
structure DraftState where
  text : String
  diagnostics : List String
deriving DecidableEq

/-- Where a view is. -/
structure NavigationState where
  selected : Option RecordId
  anchor : Option RecordId
  follow : Bool
deriving DecidableEq

/-- An enrichment stage; a command step has its definition in the rest of the presentation. -/
structure StoredEnrichment where
  id : String
  source : String
deriving DecidableEq

/-- The fields of a presentation that the store looks at, and the rest. -/
structure PresentationState (R : Type) where
  /-- Empty for the source that owns the view. -/
  sourceIds : List SourceId
  bookmarks : List StoredBookmark
  /-- Zero when the view has never been chosen. -/
  selectedAt : UInt64
  pinnedColumns : List String
  colorField : Option String
  foldMinimumRun : Option UInt32
  foldKeyColumn : Option String
  foldLookback : UInt32
  foldExpanded : List RecordId
  appliedEnrichment : Option String
  enrichmentChain : Option (List StoredEnrichment)
  enrichmentEditing : Option String
  enrichmentSelected : Option String
  enrichmentDraft : Option DraftState
  rest : R
deriving DecidableEq

def PresentationState.default (R : Type) [Inhabited R] : PresentationState R :=
  ⟨[], [], 0, [], none, none, none, 0, [], none, none, none, none, none, Inhabited.default⟩

/-- The presentation without its bookmarks. -/
def PresentationState.cleared {R : Type} (p : PresentationState R) : PresentationState R :=
  { p with bookmarks := [] }

/-- What a view's row holds beside its presentation. -/
structure Definition where
  appliedRevisionId : Option Uuid
  appliedSearch : String
  searchDraft : Option String
  appliedAdvancedFilter : Option String
  advancedFilterDraft : Option DraftState
  navigation : NavigationState
deriving DecidableEq

/-- A view's definition and presentation. -/
structure Body (R : Type) where
  definition : Definition
  presentation : PresentationState R

/-- A view as it is saved and read. -/
abbrev View (R : Type) := WorkingView (Body R)

def ViewRole.token : ViewRole → String
  | .canonical => "canonical"
  | .derived => "derived"

def ViewRole.parseToken (token : String) : ViewRole :=
  if token = "canonical" then .canonical else .derived

variable {R M : Type}

namespace WorkingView

/-- The view with other bookmarks. -/
def withBookmarks (v : View R) (bookmarks : List StoredBookmark) : View R :=
  { v with body := { v.body with presentation := { v.body.presentation with bookmarks } } }

end WorkingView

/-- `view_sources`: the ordered membership, or the owning source. -/
def viewSources (v : View R) : List SourceId :=
  if v.body.presentation.sourceIds.isEmpty then [v.sourceId] else v.body.presentation.sourceIds

/-! ### The checks of a view -/

def MAX_SOURCE_BOOKMARKS : ℕ := 128

def MAX_BOOKMARK_NOTE_BYTES : ℕ := 1024

def MAX_VIEW_NAME_BYTES : ℕ := 128

def MAX_CANONICAL_ID_ATTEMPTS : ℕ := 8

def MAX_SEARCH_BYTES : ℕ := 16384

def MAX_EDITOR_BYTES : ℕ := 262144

def MAX_DIAGNOSTICS : ℕ := 128

def MAX_FOLD_EXPANDED : ℕ := 256

def MAX_FOLD_LOOKBACK : UInt32 := 4096

/-- `char::is_control`. -/
def isControl (c : Char) : Bool := c.val < 0x20 || 0x7F ≤ c.val && c.val < 0xA0

/-- `char::is_whitespace`. -/
def isWhitespace (c : Char) : Bool :=
  0x09 ≤ c.val && c.val ≤ 0x0D || 0x2000 ≤ c.val && c.val ≤ 0x200A ||
    c.val ∈ [0x20, 0x85, 0xA0, 0x1680, 0x2028, 0x2029, 0x202F, 0x205F, 0x3000]

/-- `trim().is_empty()`. -/
def blank (s : String) : Bool := s.toList.all isWhitespace

/-- A text is missing, or neither empty nor longer than so many bytes. -/
def named (limit : ℕ) (s : Option String) : Bool :=
  s.all fun s => !s.isEmpty && decide (s.utf8ByteSize ≤ limit)

/-- The ordered membership. -/
def validSources (v : View R) : Bool :=
  let sources := v.body.presentation.sourceIds
  sources.isEmpty || decide (sources.length ≤ 32) && decide (v.sourceId ∈ sources) && decide sources.Nodup

/-- A bookmark by itself: it marks a record of the view's sources, with a note in its bounds. -/
def validBookmark (v : View R) (b : StoredBookmark) : Bool :=
  (decide (b.record.sourceId = v.sourceId) ||
      decide (b.record.sourceId ∈ v.body.presentation.sourceIds)) &&
    decide (b.note.utf8ByteSize ≤ 1024) && !b.note.toList.any isControl

/-- The bookmarks. -/
def validBookmarks (v : View R) : Bool :=
  let bookmarks := v.body.presentation.bookmarks
  decide (bookmarks.length ≤ 128) && bookmarks.all (validBookmark v) &&
    decide (bookmarks.map StoredBookmark.record).Nodup

/-- The checks of the name, the definition and the rest of the presentation. -/
def validateRest (v : View R) : Except MemoryError Unit :=
  let d := v.body.definition
  let p := v.body.presentation
  if blank v.name || decide (1024 < v.name.utf8ByteSize) then .error (.invalidData "invalid view name")
  else if decide (MAX_SEARCH_BYTES < d.appliedSearch.utf8ByteSize) ||
      d.searchDraft.any (fun s => decide (MAX_SEARCH_BYTES < s.utf8ByteSize)) then
    .error (.invalidData "search text exceeds 16 KiB")
  else if d.appliedAdvancedFilter.any fun s =>
      blank s || decide (MAX_EDITOR_BYTES < s.utf8ByteSize) then
    .error (.invalidData "invalid applied advanced filter")
  else if d.advancedFilterDraft.any fun draft =>
      decide (MAX_EDITOR_BYTES < draft.text.utf8ByteSize) ||
        decide (MAX_DIAGNOSTICS < draft.diagnostics.length) ||
          decide (MAX_EDITOR_BYTES < (draft.diagnostics.map String.utf8ByteSize).sum) then
    .error (.invalidData "draft or diagnostics exceed bounds")
  else if decide (MAX_FOLD_EXPANDED < p.foldExpanded.length) ||
      p.foldMinimumRun.any (fun run => decide (run < 2) || decide (1000000 < run)) ||
      decide (MAX_FOLD_LOOKBACK < p.foldLookback) || !named 64 p.foldKeyColumn then
    .error (.invalidData "invalid folding presentation")
  else if decide (8 < p.pinnedColumns.length) || !p.pinnedColumns.all (fun f => named 64 (some f)) ||
      !named 64 p.colorField then
    .error (.invalidData "invalid presentation fields")
  else if p.appliedEnrichment.any (fun s => decide (MAX_EDITOR_BYTES < s.utf8ByteSize)) ||
      p.enrichmentDraft.any (fun draft => decide (MAX_EDITOR_BYTES < draft.text.utf8ByteSize)) then
    .error (.invalidData "enrichment exceeds bounds")
  else if p.enrichmentChain.any fun chain =>
      decide (32 < chain.length) ||
        chain.any (fun stage => !named 128 (some stage.id) || blank stage.source ||
          decide (16384 < stage.source.utf8ByteSize) || stage.id.toList.any isControl) ||
        !decide (chain.map StoredEnrichment.id).Nodup then
    .error (.invalidData "invalid enrichment chain")
  else if !named 128 p.enrichmentEditing || !named 128 p.enrichmentSelected then
    .error (.invalidData "invalid enrichment editor target")
  else .ok ()

def validateWorkingView (v : View R) : Except MemoryError Unit :=
  if !validSources v then .error (.invalidData "invalid ordered view sources")
  else if !validBookmarks v then
    .error (.invalidData "invalid bookmarks: source, duplicate identity, count or note size")
  else validateRest v

/-! ### The tables -/

/-- How a presentation is written and read. -/
structure Json (R : Type) where
  /-- `serde_json::to_vec`. -/
  toVec : PresentationState R → List UInt8
  /-- `serde_json::from_slice`. -/
  fromSlice : List UInt8 → Option (PresentationState R)

/-- A row of `working_views`. -/
structure ViewRow where
  id : ViewId
  sourceId : SourceId
  name : String
  role : String
  definition : Definition
  version : ℤ
  presentation : List UInt8

structure SourceMetadata (M : Type) where
  id : SourceId
  rest : M

/-- The tables: sources, views in the order of their rows, and the bookmarks of each source in the
order of their sequence. -/
structure Tables (M : Type) where
  sources : SourceId → Option (SourceMetadata M)
  views : List ViewRow
  bookmarks : SourceId → Table ℤ String

namespace Tables

/-- No rows. -/
def empty : Tables M := ⟨fun _ => none, [], fun _ => .empty⟩

variable (t : Tables M)

/-- The row of a view. -/
def view (id : ViewId) : Option ViewRow := t.views.find? fun row => decide (row.id = id)

/-- `INSERT INTO sources … ON CONFLICT(source_id) DO UPDATE`. -/
def upsertSource (source : SourceMetadata M) : Tables M :=
  { t with sources := fun id => if id = source.id then some source else t.sources id }

/-- `INSERT INTO working_views`: the identity is new, and the source is there. -/
def insertView (row : ViewRow) : Except MemoryError (Tables M) :=
  if (t.view row.id).isSome then
    .error (.database "UNIQUE constraint failed: working_views.view_id")
  else if (t.sources row.sourceId).isNone then .error (.database "FOREIGN KEY constraint failed")
  else .ok { t with views := t.views ++ [row] }

/-- `UPDATE working_views … WHERE view_id=?1 AND version=?10`: the rows, and how many changed.  The
source and the role of a row stay. -/
def updateView (id : ViewId) (version : ℤ) (row : ViewRow) : ℕ × Tables M :=
  ((t.views.filter fun r => decide (r.id = id ∧ r.version = version)).length,
    { t with
      views := t.views.map fun r =>
        if r.id = id ∧ r.version = version then { row with id := r.id, sourceId := r.sourceId, role := r.role }
        else r })

/-- `DELETE FROM source_bookmarks WHERE source_id=?1`. -/
def clearBookmarks (source : SourceId) : Tables M :=
  { t with bookmarks := fun id => if id = source then .empty else t.bookmarks id }

/-- `INSERT OR REPLACE INTO source_bookmarks`. -/
def insertBookmark (source : SourceId) (sequence : ℤ) (note : String) : Tables M :=
  { t with
    bookmarks := fun id =>
      if id = source then (t.bookmarks id).insert sequence note else t.bookmarks id }

end Tables

def toI64 (value : UInt64) : Except MemoryError ℤ :=
  if value.toNat < 9223372036854775808 then .ok value.toNat
  else .error (.invalidData "integer exceeds SQLite range")

/-- The bookmark of a row. -/
def bookmarkOf (source : SourceId) (row : ℤ × String) : StoredBookmark :=
  ⟨⟨source, .ofNat row.1.toNat⟩, row.2⟩

/-- `read_source_bookmarks`: the bound is on all sources together. -/
def readSourceBookmarks (t : Tables M) (sources : List SourceId) : List StoredBookmark :=
  sources.foldl (fun bookmarks source =>
    bookmarks ++ ((t.bookmarks source).rows.take (MAX_SOURCE_BOOKMARKS - bookmarks.length)).map
      (bookmarkOf source)) []

/-- The columns of a row as a view, before its bookmarks are read. -/
def ViewRow.decode (json : Json R) (row : ViewRow) : Except MemoryError (View R) :=
  if row.version < 0 then .error (.database "version is out of range")
  else match json.fromSlice row.presentation with
    | none => .error (.database "presentation_json is invalid")
    | some presentation => .ok
      { id := row.id, sourceId := row.sourceId, name := row.name, role := .parseToken row.role
        body := ⟨row.definition, presentation⟩, version := .ofNat row.version.toNat }

def getView (json : Json R) (t : Tables M) (id : ViewId) : Except MemoryError (Option (View R)) :=
  match t.view id with
  | none => .ok none
  | some row => do
    let view ← row.decode json
    let view := view.withBookmarks (readSourceBookmarks t (viewSources view))
    validateWorkingView view
    return some view

end Lvu.Store
