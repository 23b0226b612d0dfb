import Lvu.Bytes.LittleEndian
import Lvu.Store.Soundness

/-!
# What is saved is read

What is read of a view after it was saved, and what is left of the bookmarks when a view is saved as
it was read (`lvu-memory/src/store.rs`).

* `savedIsRead_iff` : when what was saved is what is read.
* `unchanged_iff` : when a view that is saved as it was read changes nothing else.
* `viewWrite_readsBack` : both, **for every operation on every store**.
-/

namespace Lvu.Store

open List

variable {R M : Type}

/-! ### What is read of a view that was saved -/

/-- The selection time that a save of the view keeps. -/
def keptSelection (json : Json R) (t : Tables M) (v : View R) : UInt64 :=
  if v.body.presentation.selectedAt = 0 then storedSelection json t v.id else v.body.presentation.selectedAt

theorem presentationOf_eq (json : Json R) (t : Tables M) (v : View R) :
    presentationOf json t v = { v.body.presentation.cleared with selectedAt := keptSelection json t v } := by
  unfold presentationOf keptSelection
  dsimp only [PresentationState.cleared]
  by_cases h : v.body.presentation.selectedAt = 0
  · rw [if_pos h, if_pos h]
  · rw [if_neg h, if_neg h]

/-- The view with the role that its row has, another version, the selection time that is kept, and
some bookmarks. -/
def savedView (json : Json R) (t : Tables M) (v : View R) (role : String) (version : UInt64)
    (bookmarks : List StoredBookmark) : View R :=
  { v with
    role := .parseToken role
    version
    body := ⟨v.body.definition,
      { v.body.presentation with bookmarks, selectedAt := keptSelection json t v }⟩ }

/-- What was written of a view's presentation is read again. -/
def Json.Keeps (json : Json R) (v : View R) : Prop :=
  ∀ n, json.fromSlice (json.toVec { v.body.presentation.cleared with selectedAt := n }) =
    some { v.body.presentation.cleared with selectedAt := n }

/-- Bookmarks, one source after the other. -/
theorem perm_flatMap_sources {sources : List SourceId} (hnodup : sources.Nodup) {l : List StoredBookmark}
    (h : ∀ b ∈ l, b.record.sourceId ∈ sources) :
    (sources.flatMap fun s => l.filter fun b => decide (b.record.sourceId = s)).Perm l := by
  induction sources generalizing l with
  | nil =>
    obtain rfl : l = [] := eq_nil_iff_forall_not_mem.2 fun b hb => not_mem_nil (h b hb)
    rfl
  | cons s rest ih =>
    obtain ⟨hs, hrest⟩ := nodup_cons.1 hnodup
    have hlater : (rest.flatMap fun s' => l.filter fun b => decide (b.record.sourceId = s')) =
        rest.flatMap fun s' => (l.filter fun b => !decide (b.record.sourceId = s)).filter fun b =>
          decide (b.record.sourceId = s') := by
      refine flatMap_congr fun s' hs' => ?_
      rw [List.filter_filter]
      refine List.filter_congr fun b _ => ?_
      by_cases hb : b.record.sourceId = s'
      · have hne : s' ≠ s := fun heq => hs (heq ▸ hs')
        simp [hb, hne]
      · simp [hb]
    rw [flatMap_cons, hlater]
    have hothers := ih hrest (l := l.filter fun b => !decide (b.record.sourceId = s)) fun b hb => by
      obtain ⟨hb, hne⟩ := mem_filter.1 hb
      obtain heq | hmem := mem_cons.1 (h b hb)
      · simp [heq] at hne
      · exact hmem
    exact (hothers.append_left _).trans (filter_append_perm _ l)

/-- The bookmarks of a valid view are bookmarks of its sources, no more than the bound, each of a
record of its own. -/
theorem bookmarks_of_valid {v : View R} (h : validateWorkingView v = .ok ()) :
    validSources v = true ∧ v.body.presentation.bookmarks.length ≤ MAX_SOURCE_BOOKMARKS ∧
      (v.body.presentation.bookmarks.map StoredBookmark.record).Nodup ∧
        ∀ b ∈ v.body.presentation.bookmarks, b.record.sourceId ∈ viewSources v := by
  unfold validateWorkingView at h
  by_cases hsources : validSources v = true
  · rw [hsources, Bool.not_true, if_neg Bool.false_ne_true] at h
    by_cases hbookmarks : validBookmarks v = true
    · unfold validBookmarks at hbookmarks
      rw [Bool.and_eq_true, Bool.and_eq_true, decide_eq_true_eq, decide_eq_true_eq] at hbookmarks
      refine ⟨hsources, hbookmarks.1.1, hbookmarks.2, fun b hb => ?_⟩
      have hvalid := all_eq_true.1 hbookmarks.1.2 b hb
      unfold validBookmark at hvalid
      simp only [Bool.and_eq_true, Bool.or_eq_true, decide_eq_true_eq] at hvalid
      unfold validSources at hsources
      unfold viewSources
      cases hempty : v.body.presentation.sourceIds.isEmpty with
      | true =>
        rw [if_pos rfl, mem_singleton]
        rw [List.isEmpty_iff.1 hempty] at hvalid
        exact hvalid.1.1.elim id fun h => (not_mem_nil h).elim
      | false =>
        rw [if_neg Bool.false_ne_true]
        simp only [hempty, Bool.false_or, Bool.and_eq_true, decide_eq_true_eq] at hsources
        exact hvalid.1.1.elim (fun heq => heq ▸ hsources.1.2) id
    · rw [eq_false_of_ne_true hbookmarks, Bool.not_false, if_pos rfl] at h
      cases h
  · rw [eq_false_of_ne_true hsources, Bool.not_false, if_pos rfl] at h
    cases h

theorem bookmarksFor_eq {v : View R} (h : validateWorkingView v = .ok ()) (source : SourceId) :
    bookmarksFor source v.body.presentation.bookmarks =
      v.body.presentation.bookmarks.filter fun b => decide (b.record.sourceId = source) :=
  take_of_length_le ((length_filter_le _ _).trans (bookmarks_of_valid h).2.1)

/-- The bookmarks that were written for a source are there. -/
theorem marks_replaceBookmarks (t : Tables M) {sources : List SourceId} {source : SourceId} (h : source ∈ sources)
    {bookmarks : List StoredBookmark} (hnodup : (bookmarks.map StoredBookmark.record).Nodup) :
    ((t.replaceBookmarks sources bookmarks).marks source).Perm (bookmarksFor source bookmarks) := by
  have hsource {b : StoredBookmark} (hb : b ∈ bookmarksFor source bookmarks) : b.record.sourceId = source :=
    of_decide_eq_true (mem_filter.1 (mem_of_mem_take hb)).2
  have hsub : (bookmarksFor source bookmarks).Sublist bookmarks :=
    (take_sublist _ _).trans filter_sublist
  have hkeys : (((bookmarksFor source bookmarks).map rowOf).map Prod.fst).Nodup := by
    rw [map_map]
    refine List.Nodup.map_on (fun a ha b hb heq => ?_) ((hsub.map StoredBookmark.record).nodup hnodup).of_map
    have hsequence : a.record.sequence = b.record.sequence := UInt64.toNat_inj.1 (Int.ofNat_inj.1 heq)
    have hrecord : a.record = b.record := by
      cases ha' : a.record
      cases hb' : b.record
      have h₁ := hsource ha
      have h₂ := hsource hb
      rw [ha', hb'] at hsequence
      rw [ha'] at h₁
      rw [hb'] at h₂
      cases hsequence
      cases h₁
      cases h₂
      rfl
    exact inj_on_of_nodup_map hnodup (hsub.subset ha) (hsub.subset hb) hrecord
  have hrows := (Table.ofList_perm hkeys).map (bookmarkOf source)
  have hback : ((bookmarksFor source bookmarks).map rowOf).map (bookmarkOf source) =
      bookmarksFor source bookmarks := by
    rw [map_map]
    conv_rhs => rw [← map_id (bookmarksFor source bookmarks)]
    refine map_congr_left fun b hb => ?_
    rw [Function.comp_apply, ← hsource hb, bookmarkOf_rowOf, id]
  rw [hback] at hrows
  rw [Tables.marks, Tables.replaceBookmarks]
  dsimp only
  rw [if_pos h]
  exact hrows

theorem perm_readSourceBookmarks {v : View R} (hvalid : validateWorkingView v = .ok ()) {t t' : Tables M}
    (hbookmarks : t'.bookmarks = (t.replaceBookmarks (viewSources v) v.body.presentation.bookmarks).bookmarks) :
    (readSourceBookmarks t' (viewSources v)).Perm v.body.presentation.bookmarks := by
  obtain ⟨hsources, hlength, hnodup, hmem⟩ := bookmarks_of_valid hvalid
  have hmarks : ∀ source ∈ viewSources v, (t'.marks source).Perm
      (v.body.presentation.bookmarks.filter fun b => decide (b.record.sourceId = source)) := fun source hsource => by
    rw [← bookmarksFor_eq hvalid, Tables.marks, hbookmarks]
    exact marks_replaceBookmarks t hsource hnodup
  have hall : ((viewSources v).flatMap t'.marks).Perm v.body.presentation.bookmarks :=
    (List.Perm.flatMap_left _ hmarks).trans (perm_flatMap_sources (nodup_viewSources hsources) hmem)
  rwa [readSourceBookmarks_all (hall.length_eq.trans_le hlength)]

/-- The checks look at the bookmarks as a set, and not at the role, the version and the selection time. -/
theorem validate_savedView {json : Json R} {t : Tables M} {v : View R} (hvalid : validateWorkingView v = .ok ())
    (role : String) (version : UInt64) {bookmarks : List StoredBookmark}
    (hperm : bookmarks.Perm v.body.presentation.bookmarks) :
    validateWorkingView (savedView json t v role version bookmarks) = .ok () := by
  have hbookmarks : validBookmarks (savedView json t v role version bookmarks) = validBookmarks v := by
    have hall : bookmarks.all (validBookmark v) = v.body.presentation.bookmarks.all (validBookmark v) := by
      rw [Bool.eq_iff_iff, all_eq_true, all_eq_true]
      exact forall_congr' fun b => imp_congr_left hperm.mem_iff
    have hrecords : decide (bookmarks.map StoredBookmark.record).Nodup =
        decide (v.body.presentation.bookmarks.map StoredBookmark.record).Nodup :=
      decide_eq_decide.2 (hperm.map _).nodup_iff
    unfold validBookmarks
    change (decide (bookmarks.length ≤ 128) && bookmarks.all (validBookmark v) &&
      decide (bookmarks.map StoredBookmark.record).Nodup) = _
    rw [hall, hrecords, hperm.length_eq]
  unfold validateWorkingView at hvalid ⊢
  rw [hbookmarks]
  exact hvalid

theorem decode_savedRow {json : Json R} {v : View R} (hjson : json.Keeps v) (t : Tables M) (source : SourceId)
    (role : String) (version : UInt64) :
    (savedRow json t v source role version).decode json =
      .ok { savedView json t v role version [] with sourceId := source } := by
  have hslice : json.fromSlice (storedPresentation json t v) = some (presentationOf json t v) := by
    rw [storedPresentation, presentationOf_eq]
    exact hjson (keptSelection json t v)
  have hversion : ¬ ((version.toNat : ℤ) < 0) := by omega
  have hback : UInt64.ofNat (version.toNat : ℤ).toNat = version := by
    rw [Int.toNat_natCast, UInt64.ofNat_toNat]
  unfold ViewRow.decode savedRow rowOfView
  dsimp only
  rw [if_neg hversion, hslice, presentationOf_eq, hback]
  rfl

theorem Wrote.read {json : Json R} {t t' : Tables M} {v : View R} {role : String} {version : UInt64}
    (h : Wrote json t t' v v.sourceId role version) (hjson : json.Keeps v) :
    ∃ bookmarks, bookmarks.Perm v.body.presentation.bookmarks ∧
      getView json t' v.id = .ok (some (savedView json t v role version bookmarks)) := by
  have hperm := perm_readSourceBookmarks h.valid h.bookmarks
  refine ⟨_, hperm, getView_eq_some.2 ⟨_, _, h.row, decode_savedRow hjson t v.sourceId role version, rfl, ?_⟩⟩
  exact validate_savedView h.valid role version hperm

/-! ### What a save leaves -/

theorem getView_congr {json : Json R} {t t' : Tables M} {id : ViewId} (hview : t'.view id = t.view id)
    (hmarks : ∀ r, getView json t id = .ok (some r) → ∀ source ∈ viewSources r, t'.bookmarks source = t.bookmarks source)
    {r : View R} (hread : getView json t id = .ok (some r)) : getView json t' id = .ok (some r) := by
  obtain ⟨row, w, hrow, hdecode, rfl, hcheck⟩ := getView_eq_some.1 hread
  have hsources : readSourceBookmarks t' (viewSources w) = readSourceBookmarks t (viewSources w) := by
    rw [readSourceBookmarks_eq, readSourceBookmarks_eq]
    congr 1
    refine flatMap_congr fun source hsource => ?_
    rw [Tables.marks, Tables.marks, hmarks _ hread source hsource]
  refine getView_eq_some.2 ⟨row, w, hview.trans hrow, hdecode, ?_, hcheck⟩
  rw [hsources]

theorem getView_same {json : Json R} {t t' : Tables M} {id : ViewId} (hview : t'.view id = t.view id)
    (hbookmarks : ∀ source, t'.bookmarks source = t.bookmarks source) : getView json t' id = getView json t id := by
  have hread (sources : List SourceId) : readSourceBookmarks t' sources = readSourceBookmarks t sources := by
    rw [readSourceBookmarks, readSourceBookmarks, funext hbookmarks]
  unfold getView
  rw [hview]
  simp only [hread]

theorem Save.Done.view {json : Json R} {t t' : Tables M} {x : Save R} (h : x.Done json t t') {id : ViewId}
    (hid : id ≠ x.view.id) : t'.view id = t.view id := by
  obtain ⟨-, h⟩ | ⟨old, -, h⟩ := h
  · exact h.others id hid
  · exact h.others id hid

theorem Save.Done.bookmarks {json : Json R} {t t' : Tables M} {x : Save R} (h : x.Done json t t') :
    t'.bookmarks = (t.replaceBookmarks (viewSources x.view) x.view.body.presentation.bookmarks).bookmarks := by
  obtain ⟨-, h⟩ | ⟨old, -, h⟩ := h
  · exact h.bookmarks
  · exact h.bookmarks

theorem Serial.view {json : Json R} {t t' : Tables M} {saves : List (Save R)} (h : Serial json t saves t')
    {id : ViewId} (hid : ∀ x ∈ saves, id ≠ x.view.id) : t'.view id = t.view id := by
  induction h with
  | nil t => rfl
  | cons first later ih =>
    rw [ih fun x hx => hid x (mem_cons_of_mem _ hx), first.view (hid _ mem_cons_self)]

theorem Serial.bookmarks_of_not_mem {json : Json R} {t t' : Tables M} {saves : List (Save R)}
    (h : Serial json t saves t') {source : SourceId} (hsource : ∀ x ∈ saves, source ∉ viewSources x.view) :
    t'.bookmarks source = t.bookmarks source := by
  induction h with
  | nil t => rfl
  | cons first later ih =>
    rw [ih fun x hx => hsource x (mem_cons_of_mem _ hx), first.bookmarks]
    exact if_neg (hsource _ mem_cons_self)

theorem Serial.split {json : Json R} {t t' : Tables M} {before later : List (Save R)} {x : Save R}
    (h : Serial json t (before ++ x :: later) t') :
    ∃ t₁ t₂, Serial json t before t₁ ∧ x.Done json t₁ t₂ ∧ Serial json t₂ later t' := by
  induction before generalizing t with
  | nil =>
    obtain _ | ⟨first, hlater⟩ := h
    exact ⟨_, _, .nil t, first, hlater⟩
  | cons y before ih =>
    obtain _ | ⟨first, hlater⟩ := h
    obtain ⟨t₁, t₂, hbefore, hdone, hrest⟩ := ih hlater
    exact ⟨t₁, t₂, .cons first hbefore, hdone, hrest⟩

/-! ### What was saved is what is read -/

/-- The role that the row of the view keeps. -/
def storedRole (t : Tables M) (x : Save R) : String :=
  ((t.view x.view.id).map ViewRow.role).getD x.role.token

/-- A save that no later one of the same batch writes a bookmark over. -/
def Standing (saves : List (Save R)) (x : Save R) : Prop :=
  ∃ before later, saves = before ++ x :: later ∧
    ∀ y ∈ later, ∀ source ∈ viewSources x.view, source ∉ viewSources y.view

/-- What was saved is what is read: the view with its new version, its stored role, the selection
time that is kept, and its bookmarks as a set. -/
def SavedIsRead (json : Json R) (t : Tables M) (saves : List (Save R)) (t' : Tables M) : Prop :=
  ∀ x, Standing saves x → ∃ bookmarks, bookmarks.Perm x.view.body.presentation.bookmarks ∧
    getView json t' x.view.id = .ok (some (savedView json t x.view (storedRole t x) x.version bookmarks))

/-- The views that are saved have the sources that their rows have. -/
def SourcesStay (t : Tables M) (saves : List (Save R)) : Prop :=
  ∀ x, Standing saves x → ∀ row, t.view x.view.id = some row → row.sourceId = x.view.sourceId

/-- **When what was saved is what is read.** -/
theorem savedIsRead_iff {json : Json R} {t t' : Tables M} {saves : List (Save R)} (h : Serial json t saves t')
    (hnodup : (saves.map fun x => x.view.id).Nodup) (hjson : ∀ x ∈ saves, json.Keeps x.view) :
    SavedIsRead json t saves t' ↔ SourcesStay t saves := by
  refine forall_congr' fun x => imp_congr_right ?_
  rintro ⟨before, later, rfl, hstanding⟩
  obtain ⟨t₁, t₂, hbefore, hdone, hlater⟩ := h.split
  rw [map_append, map_cons, nodup_append, nodup_cons] at hnodup
  -- the other saves are of other views
  have hview₁ : t₁.view x.view.id = t.view x.view.id := hbefore.view fun y hy heq =>
    hnodup.2.2 _ (mem_map_of_mem hy) _ mem_cons_self heq.symm
  have hview₂ : t'.view x.view.id = t₂.view x.view.id := hlater.view fun y hy heq =>
    hnodup.2.1.1 (mem_map.2 ⟨y, hy, heq.symm⟩)
  have hkept (role : String) (bookmarks : List StoredBookmark) :
      savedView json t₁ x.view role x.version bookmarks = savedView json t x.view role x.version bookmarks := by
    have hselection : keptSelection json t₁ x.view = keptSelection json t x.view := by
      rw [keptSelection, keptSelection, storedSelection, storedSelection, hview₁]
    rw [savedView, savedView, hselection]
  have hbookmarks : ∀ source ∈ viewSources x.view, t'.bookmarks source = t₂.bookmarks source :=
    fun source hsource => hlater.bookmarks_of_not_mem fun y hy => hstanding y hy source hsource
  -- what is read right after the save is read at the end
  have hread {role : String} (hwrote : Wrote json t₁ t₂ x.view x.view.sourceId role x.version) :
      ∃ bookmarks, bookmarks.Perm x.view.body.presentation.bookmarks ∧
        getView json t' x.view.id = .ok (some (savedView json t x.view role x.version bookmarks)) := by
    obtain ⟨bookmarks, hperm, hget⟩ := hwrote.read (hjson x (by simp))
    rw [hkept] at hget
    refine ⟨bookmarks, hperm, getView_congr hview₂ (fun r hr => ?_) hget⟩
    rw [hget] at hr
    cases hr
    exact hbookmarks
  obtain ⟨hnone, hwrote⟩ | ⟨old, hold, hwrote⟩ := hdone
  · rw [hview₁] at hnone
    refine iff_of_true ?_ fun row hrow => ?_
    · rw [storedRole, hnone]
      exact hread hwrote
    · rw [hnone] at hrow
      cases hrow
  · rw [hview₁] at hold
    have hrole : storedRole t x = old.role := by rw [storedRole, hold]; rfl
    rw [hrole]
    constructor
    · rintro ⟨bookmarks, -, hget⟩ row hrow
      rw [hold] at hrow
      cases hrow
      -- the row that is read is the one that was written
      obtain ⟨row, w, hrow, hdecode, hw, -⟩ := getView_eq_some.1 hget
      rw [hview₂, hwrote.row] at hrow
      cases hrow
      rw [decode_savedRow (hjson x (by simp))] at hdecode
      cases hdecode
      exact (congrArg WorkingView.sourceId hw).symm
    · intro hstay
      have hsource := hstay old hold
      rw [hsource] at hwrote
      exact hread hwrote

/-! ### Saving what was read -/

theorem rowOf_bookmarkOf {t : Tables M} (hranged : t.Ranged) {source : SourceId} {row : ℤ × String}
    (h : row ∈ (t.bookmarks source).rows) : rowOf (bookmarkOf source row) = row := by
  obtain ⟨hzero, hlt⟩ := hranged source row h
  have hsequence : (UInt64.ofNat row.1.toNat).toNat = row.1.toNat :=
    UInt64.toNat_ofNat_of_lt' (by
      change row.1.toNat < 18446744073709551616
      omega)
  rw [rowOf, bookmarkOf]
  dsimp only
  rw [hsequence, Int.toNat_of_nonneg hzero]

theorem Tables.Ranged.nodup_marks {t : Tables M} (hranged : t.Ranged) (source : SourceId) : (t.marks source).Nodup := by
  refine List.Nodup.map_on (fun a ha b hb heq => ?_) (t.bookmarks source).nodup_rows
  rw [← rowOf_bookmarkOf hranged ha, heq, rowOf_bookmarkOf hranged hb]

/-- The last save over a source. -/
def lastOver (source : SourceId) : List (Save R) → Option (Save R)
  | [] => none
  | x :: rest => (lastOver source rest).or (if source ∈ viewSources x.view then some x else none)

theorem Serial.bookmarks {json : Json R} {t t' : Tables M} {saves : List (Save R)} (h : Serial json t saves t')
    (source : SourceId) :
    t'.bookmarks source =
      ((lastOver source saves).map fun x =>
        Table.ofList ((bookmarksFor source x.view.body.presentation.bookmarks).map rowOf)).getD
          (t.bookmarks source) := by
  induction h with
  | nil t => rfl
  | @cons t t₁ t' x rest first later ih =>
    rw [ih, lastOver, first.bookmarks]
    cases lastOver source rest with
    | some y => rfl
    | none =>
      rw [Option.map_none, Option.getD_none, Option.or, Tables.replaceBookmarks]
      dsimp only
      split <;> rfl

/-- The saves are of views as they were read. -/
def AsRead (json : Json R) (t : Tables M) (saves : List (Save R)) : Prop :=
  ∀ x ∈ saves, getView json t x.view.id = .ok (some x.view)

/-- All bookmarks are as they were, and so is what is read of the other views. -/
def Unchanged (json : Json R) (t : Tables M) (saves : List (Save R)) (t' : Tables M) : Prop :=
  (∀ source, t'.bookmarks source = t.bookmarks source) ∧
    ∀ id, (∀ x ∈ saves, id ≠ x.view.id) → getView json t' id = getView json t id

/-- The last view that is saved over a source shows all of its bookmarks. -/
def AllShown (t : Tables M) (saves : List (Save R)) : Prop :=
  ∀ source, ∀ x ∈ lastOver source saves, ∀ b ∈ t.marks source, b ∈ x.view.body.presentation.bookmarks

theorem lastOver_mem {source : SourceId} {saves : List (Save R)} {x : Save R} (h : lastOver source saves = some x) :
    x ∈ saves ∧ source ∈ viewSources x.view := by
  induction saves with
  | nil => cases h
  | cons y rest ih =>
    rw [lastOver, Option.or_eq_some_iff] at h
    obtain h | ⟨-, h⟩ := h
    · exact (ih h).imp_left (mem_cons_of_mem _)
    · by_cases hsource : source ∈ viewSources y.view
      · rw [if_pos hsource] at h
        cases h
        exact ⟨mem_cons_self, hsource⟩
      · rw [if_neg hsource] at h
        cases h

theorem eq_of_prefix_of_subset {α : Type} {l l' : List α} (h : l' <+: l) (hnodup : l.Nodup)
    (hall : ∀ a ∈ l, a ∈ l') : l' = l := by
  obtain ⟨tail, rfl⟩ := h
  have htail : tail = [] := eq_nil_iff_forall_not_mem.2 fun a ha =>
    (nodup_append.1 hnodup).2.2 a (hall a (mem_append_right _ ha)) a ha rfl
  rw [htail, append_nil]

theorem filter_marks {sources : List SourceId} (hnodup : sources.Nodup) (t : Tables M) {source : SourceId}
    (h : source ∈ sources) :
    (sources.flatMap t.marks).filter (fun b => decide (b.record.sourceId = source)) = t.marks source := by
  have hown : (t.marks source).filter (fun b => decide (b.record.sourceId = source)) = t.marks source :=
    List.filter_eq_self.2 fun b hb => decide_eq_true (sourceId_of_mem_marks hb)
  have hother {s : SourceId} (hs : s ≠ source) :
      (t.marks s).filter (fun b => decide (b.record.sourceId = source)) = [] :=
    filter_eq_nil_iff.2 fun b hb => by
      rw [sourceId_of_mem_marks hb, decide_eq_true_eq]
      exact hs
  induction sources with
  | nil => cases h
  | cons s rest ih =>
    obtain ⟨hs, hrest⟩ := nodup_cons.1 hnodup
    rw [flatMap_cons, filter_append]
    by_cases heq : s = source
    · have hnone : (rest.flatMap t.marks).filter (fun b => decide (b.record.sourceId = source)) = [] := by
        refine filter_eq_nil_iff.2 fun b hb => ?_
        obtain ⟨s', hs', hb⟩ := mem_flatMap.1 hb
        rw [sourceId_of_mem_marks hb, decide_eq_true_eq]
        exact fun h => hs (heq ▸ h ▸ hs')
      rw [hnone, append_nil, heq, hown]
    · rw [hother heq, nil_append]
      exact ih hrest ((mem_cons.1 h).resolve_left fun h => heq h.symm)

/-- What is written for a source of a view that was read is the beginning of its rows. -/
theorem bookmarksFor_read {json : Json R} {t : Tables M} {v : View R} (hread : getView json t v.id = .ok (some v))
    {source : SourceId} (hsource : source ∈ viewSources v) :
    bookmarksFor source v.body.presentation.bookmarks <+: t.marks source := by
  obtain ⟨row, w, -, -, hv, hcheck⟩ := getView_eq_some.1 hread
  have hsources : viewSources w = viewSources v := by
    rw [hv]
    rfl
  have hbookmarks : v.body.presentation.bookmarks =
      ((viewSources v).flatMap t.marks).take MAX_SOURCE_BOOKMARKS := by
    rw [← readSourceBookmarks_eq, ← hsources]
    exact congrArg (fun v : View R => v.body.presentation.bookmarks) hv
  rw [bookmarksFor_eq hcheck, hbookmarks,
    ← filter_marks (nodup_viewSources (bookmarks_of_valid hcheck).1) t hsource]
  have htake := take_prefix MAX_SOURCE_BOOKMARKS ((viewSources v).flatMap t.marks)
  exact htake.filter _

theorem ofList_marks {t : Tables M} (hranged : t.Ranged) (source : SourceId) :
    Table.ofList ((t.marks source).map rowOf) = t.bookmarks source := by
  have hrows : (t.marks source).map rowOf = (t.bookmarks source).rows := by
    rw [Tables.marks, map_map]
    conv_rhs => rw [← map_id (t.bookmarks source).rows]
    exact map_congr_left fun row hrow => rowOf_bookmarkOf hranged hrow
  rw [hrows, Table.ofList_rows]

/-- The rows that are written for a source of a view that was read are its rows, when it shows all
of them. -/
theorem ofList_bookmarksFor_iff {json : Json R} {t : Tables M} (hranged : t.Ranged) {v : View R}
    (hread : getView json t v.id = .ok (some v)) {source : SourceId} (hsource : source ∈ viewSources v) :
    Table.ofList ((bookmarksFor source v.body.presentation.bookmarks).map rowOf) = t.bookmarks source ↔
      ∀ b ∈ t.marks source, b ∈ v.body.presentation.bookmarks := by
  have hbegin := bookmarksFor_read hread hsource
  have hcheck : validateWorkingView v = .ok () := by
    obtain ⟨-, -, -, -, -, hcheck⟩ := getView_eq_some.1 hread
    exact hcheck
  have hmem {b : StoredBookmark} (hb : b ∈ t.marks source) :
      b ∈ bookmarksFor source v.body.presentation.bookmarks ↔ b ∈ v.body.presentation.bookmarks := by
    rw [bookmarksFor_eq hcheck, mem_filter]
    simp [sourceId_of_mem_marks hb]
  constructor
  · intro heq b hb
    rw [← hmem hb]
    -- as many rows are written as there are
    have hlength : (t.marks source).length ≤ (bookmarksFor source v.body.presentation.bookmarks).length := by
      have hrows : (t.bookmarks source).rows.length ≤
          ((bookmarksFor source v.body.presentation.bookmarks).map rowOf).length := by
        rw [← heq]
        exact Table.length_ofList_le _
      rwa [length_map, ← length_map (bookmarkOf source)] at hrows
    rw [hbegin.eq_of_length_le hlength]
    exact hb
  · intro hshown
    have hall : bookmarksFor source v.body.presentation.bookmarks = t.marks source :=
      eq_of_prefix_of_subset hbegin (hranged.nodup_marks source) fun b hb => (hmem hb).2 (hshown b hb)
    rw [hall, ofList_marks hranged]

/-- **When a view that is saved as it was read changes nothing else.** -/
theorem unchanged_iff {json : Json R} {t t' : Tables M} (hranged : t.Ranged) {saves : List (Save R)}
    (h : Serial json t saves t') (hread : AsRead json t saves) :
    Unchanged json t saves t' ↔ AllShown t saves := by
  have hiff (source : SourceId) : t'.bookmarks source = t.bookmarks source ↔
      ∀ x ∈ lastOver source saves, ∀ b ∈ t.marks source, b ∈ x.view.body.presentation.bookmarks := by
    rw [h.bookmarks source]
    cases hlast : lastOver source saves with
    | none => exact iff_of_true rfl fun x hx => by cases hx
    | some x =>
      obtain ⟨hx, hsource⟩ := lastOver_mem hlast
      rw [Option.map_some, Option.getD_some, ofList_bookmarksFor_iff hranged (hread x hx) hsource]
      exact ⟨fun h y hy => by cases hy; exact h, fun h => h x rfl⟩
  constructor
  · exact fun hunchanged source => (hiff source).1 (hunchanged.1 source)
  · intro hshown
    have hbookmarks := fun source => (hiff source).2 (hshown source)
    exact ⟨hbookmarks, fun id hid => getView_same (h.view hid) hbookmarks⟩

/-- A view by itself shows all bookmarks of its sources, unless they are more than the bound. -/
theorem allShown_single {json : Json R} {t : Tables M} (hranged : t.Ranged) {x : Save R}
    (hread : AsRead json t [x]) :
    AllShown t [x] ↔ ((viewSources x.view).flatMap t.marks).length ≤ MAX_SOURCE_BOOKMARKS := by
  obtain ⟨row, w, -, -, hv, hcheck⟩ := getView_eq_some.1 (hread x (mem_singleton.2 rfl))
  have hsources : viewSources w = viewSources x.view := by
    rw [hv]
    rfl
  have hbookmarks : x.view.body.presentation.bookmarks =
      ((viewSources x.view).flatMap t.marks).take MAX_SOURCE_BOOKMARKS := by
    rw [← readSourceBookmarks_eq, ← hsources]
    exact congrArg (fun v : View R => v.body.presentation.bookmarks) hv
  constructor
  · intro hshown
    have hnodup : ((viewSources x.view).flatMap t.marks).Nodup := by
      refine nodup_flatMap.2 ⟨fun source _ => hranged.nodup_marks source, ?_⟩
      refine (nodup_viewSources (bookmarks_of_valid hcheck).1).imp fun hne b hb hb' => hne ?_
      rw [← sourceId_of_mem_marks hb, sourceId_of_mem_marks hb']
    have htake := take_prefix MAX_SOURCE_BOOKMARKS ((viewSources x.view).flatMap t.marks)
    have hall := eq_of_prefix_of_subset htake hnodup fun b hb => by
      obtain ⟨source, hsource, hb⟩ := mem_flatMap.1 hb
      rw [← hbookmarks]
      exact hshown source x (by rw [lastOver, if_pos hsource]; rfl) b hb
    rw [← hall]
    exact length_take_le _ _
  · intro hle source y hy b hb
    obtain ⟨hmem, hsource⟩ := lastOver_mem hy
    obtain rfl := mem_singleton.1 hmem
    rw [hbookmarks, take_of_length_le hle]
    exact mem_flatMap.2 ⟨source, hsource, hb⟩

/-! ### All saves -/

namespace ViewWrite

variable [Inhabited R] (json : Json R) (validateSource : SourceMetadata M → Except MemoryError Unit)
  (t : Tables M) (fs : List (Fault MemoryError))

/-- The views whose save reports a version. -/
def saves : ViewWrite R M → List (Save R)
  | createView v =>
    match (Store.createView json v t fs).1 with
    | .ok _ => [⟨v, v.role, v.version⟩]
    | .error _ => []
  | updateView v expected =>
    match (Store.updateView json v expected t fs).1 with
    | .ok version => [⟨v, v.role, version⟩]
    | .error _ => []
  | ensureCanonicalView _ _ _ _ => []
  | saveSourceAndView e =>
    match (Store.saveSourceAndView json validateSource e t fs).1 with
    | .ok version => [⟨e.view, .derived, version⟩]
    | .error _ => []
  | saveSourcesAndViews items =>
    match (Store.saveSourcesAndViews json validateSource items t fs).1 with
    | .ok outcomes => savedEntries items outcomes
    | .error _ => []

variable {json validateSource t fs}

/-- What an operation with such saves has done. -/
theorem serial (hkeyed : t.Keyed) {w : ViewWrite R M} (hsaves : w.saves json validateSource t fs ≠ []) :
    Serial json t (w.saves json validateSource t fs) (w.tables json validateSource t fs) ∧
      ((w.saves json validateSource t fs).map fun x => x.view.id).Nodup := by
  cases w with
  | createView v =>
    rw [saves, tables] at *
    cases hrun : Store.createView json v t fs with
    | mk result rest =>
      obtain ⟨t', fs'⟩ := rest
      rw [hrun] at hsaves
      cases result with
      | ok u => exact ⟨(createView_ended hkeyed hrun).serial, nodup_singleton _⟩
      | error stop => exact absurd rfl hsaves
  | updateView v expected =>
    rw [saves, tables] at *
    cases hrun : Store.updateView json v expected t fs with
    | mk result rest =>
      obtain ⟨t', fs'⟩ := rest
      rw [hrun] at hsaves
      cases result with
      | ok version => exact ⟨(updateView_ended hkeyed hrun).serial, nodup_singleton _⟩
      | error stop => exact absurd rfl hsaves
  | ensureCanonicalView source preferred legacy name => exact absurd rfl hsaves
  | saveSourceAndView e =>
    rw [saves, tables] at *
    cases hrun : Store.saveSourceAndView json validateSource e t fs with
    | mk result rest =>
      obtain ⟨t', fs'⟩ := rest
      rw [hrun] at hsaves
      cases result with
      | ok version => exact ⟨(saveSourceAndView_ended hkeyed hrun).serial, nodup_singleton _⟩
      | error stop => exact absurd rfl hsaves
  | saveSourcesAndViews items =>
    have hbatch := saveSourcesAndViews_whole json validateSource items t fs
    unfold BatchAtomic at hbatch
    rw [saves, tables] at *
    cases hrun : Store.saveSourcesAndViews json validateSource items t fs with
    | mk result rest =>
      obtain ⟨t', fs'⟩ := rest
      rw [hrun] at hsaves hbatch
      cases result with
      | error stop => exact absurd rfl hsaves
      | ok outcomes =>
        dsimp only at hbatch ⊢
        split at hbatch
        · obtain ⟨seen, -, hserial⟩ := hbatch
          obtain ⟨hserial, hnodup, -⟩ := saveSerially_ended hkeyed hserial
          exact ⟨hserial, hnodup⟩
        · -- no entry was saved
          refine absurd (filterMap_eq_nil_iff.2 fun x hx => ?_) hsaves
          have := hbatch.2 x.2 (of_mem_zip hx).2
          cases hx2 : x.2 with
          | error e => rfl
          | ok version =>
            rw [hx2] at this
            cases this

variable (json validateSource t fs)

/-- What was saved is what is read, and a view that is saved as it was read changes nothing else. -/
def ReadsBack (w : ViewWrite R M) : Prop :=
  SavedIsRead json t (w.saves json validateSource t fs) (w.tables json validateSource t fs) ∧
    (w.saves json validateSource t fs ≠ [] → AsRead json t (w.saves json validateSource t fs) →
      Unchanged json t (w.saves json validateSource t fs) (w.tables json validateSource t fs))

/-- The views that are saved have the sources of their rows, and a view that is saved as it was read
shows all bookmarks of the sources that no later one of the batch is saved over. -/
def ShowsAll (w : ViewWrite R M) : Prop :=
  SourcesStay t (w.saves json validateSource t fs) ∧
    (w.saves json validateSource t fs ≠ [] → AsRead json t (w.saves json validateSource t fs) →
      AllShown t (w.saves json validateSource t fs))

end ViewWrite

/-- **When a view is read as it was saved, and saved as it was read.** -/
theorem viewWrite_readsBack [Inhabited R] (json : Json R)
    (validateSource : SourceMetadata M → Except MemoryError Unit) (s : Workspace M) (fs : List (Fault MemoryError))
    (w : ViewWrite R M) (hjson : ∀ x ∈ w.saves json validateSource s.toTables fs, json.Keeps x.view) :
    w.ReadsBack json validateSource s.toTables fs ↔ w.ShowsAll json validateSource s.toTables fs := by
  unfold ViewWrite.ReadsBack ViewWrite.ShowsAll
  by_cases hsaves : w.saves json validateSource s.toTables fs = []
  · -- no save reported a version
    rw [hsaves]
    have hnone (x : Save R) : ¬ Standing [] x := by
      rintro ⟨before, later, heq, -⟩
      exact absurd heq.symm (by simp)
    exact iff_of_true ⟨fun x hx => absurd hx (hnone x), fun h => absurd rfl h⟩
      ⟨fun x hx => absurd hx (hnone x), fun h => absurd rfl h⟩
  · obtain ⟨hserial, hnodup⟩ := w.serial s.keyed hsaves
    refine and_congr (savedIsRead_iff hserial hnodup hjson) (imp_congr_right fun _ => ?_)
    exact imp_congr_right fun hread => unchanged_iff s.ranged hserial hread

/-- A view of one source with a bookmark, as it is read. -/
def markedView : View Unit where
  id := ⟨.filled 1⟩
  sourceId := ⟨.filled 0x11⟩
  name := "Errors"
  role := .derived
  body := ⟨⟨none, "", none, none, none, ⟨none, none, true⟩⟩,
    { PresentationState.default Unit with bookmarks := [⟨⟨⟨.filled 0x11⟩, 5⟩, "here"⟩] }⟩
  version := 0

/-- The store that has it. -/
def markedWorkspace : Workspace Unit where
  sources := fun id => some ⟨id, ()⟩
  views := [⟨⟨.filled 1⟩, ⟨.filled 0x11⟩, "Errors", "derived", markedView.body.definition, 0, leBytes 8 0⟩]
  bookmarks := fun source =>
    if source = ⟨.filled 0x11⟩ then ⟨[(5, "here")], pairwise_singleton _ _⟩ else .empty
  keyed := nodup_singleton _
  ranged := fun source row hrow => by
    dsimp only at hrow
    split_ifs at hrow
    · rw [mem_singleton.1 hrow]
      decide
    · cases hrow

/-- The view is saved as it was read: it is read again, with its bookmark, and nothing else changes. -/
theorem viewWrite_readsBack_example :
    let json : Json Unit := ⟨fun p => leBytes 8 p.selectedAt.toNat,
      fun bytes => some { PresentationState.default Unit with selectedAt := .ofNat (leNat bytes) }⟩
    (ViewWrite.updateView markedView 0).saves json (fun _ => .ok ()) markedWorkspace.toTables [] =
        [⟨markedView, .derived, 1⟩] ∧
      (ViewWrite.updateView markedView 0).ReadsBack json (fun _ => .ok ()) markedWorkspace.toTables [] := by
  intro json
  have hkeeps : json.Keeps markedView := fun n => by
    have hlt : n.toNat < 256 ^ 8 := n.toNat_lt
    change some { PresentationState.default Unit with selectedAt := .ofNat (leNat (leBytes 8 n.toNat)) } = _
    rw [leNat_leBytes_of_lt hlt, UInt64.ofNat_toNat]
    rfl
  have hvalid : validateWorkingView markedView = .ok () := by decide +kernel
  have hread : getView json markedWorkspace.toTables markedView.id = .ok (some markedView) := by
    refine getView_eq_some.2 ⟨_, markedView.withBookmarks [], rfl, rfl, ?_, hvalid⟩
    have hmarks : readSourceBookmarks markedWorkspace.toTables [⟨.filled 0x11⟩] =
        markedView.body.presentation.bookmarks := by decide +kernel
    change markedView =
      markedView.withBookmarks (readSourceBookmarks markedWorkspace.toTables [⟨.filled 0x11⟩])
    rw [hmarks]
    rfl
  have hfit : AllFit (viewSources markedView) markedView.body.presentation.bookmarks := by decide +kernel
  have hrun := updateView_eq json markedWorkspace.keyed hvalid
    (⟨by decide, calm_nil 1, _, rfl, rfl⟩ : Advances markedWorkspace.toTables [] markedView 0)
    ⟨hfit, calm_nil _⟩
  have hsaves : (ViewWrite.updateView markedView 0).saves json (fun _ => .ok ())
      markedWorkspace.toTables [] = [⟨markedView, .derived, 1⟩] := by
    rw [ViewWrite.saves, hrun]
    rfl
  refine ⟨hsaves, (viewWrite_readsBack json (fun _ => .ok ()) markedWorkspace []
    (.updateView markedView 0) fun x hx => ?_).2 ⟨?_, ?_⟩⟩
  · rw [hsaves] at hx
    rw [mem_singleton.1 hx]
    exact hkeeps
  · rw [hsaves]
    rintro x ⟨before, later, heq, -⟩ row hrow
    have hx : x ∈ [⟨markedView, .derived, 1⟩] := heq ▸ by simp
    rw [mem_singleton.1 hx] at hrow ⊢
    cases hrow
    rfl
  · rw [hsaves]
    exact fun _ hasRead => (allShown_single markedWorkspace.ranged hasRead).2 (by decide +kernel)

/-- The bookmarks of two sources: as many as a view shows, and one more. -/
def crowdedMarks (source : SourceId) : Table ℤ String :=
  if source = ⟨.filled 0x11⟩ then
    ⟨(List.range 128).map fun n : ℕ => ((n : ℤ), ""), by
      rw [pairwise_map]
      exact pairwise_lt_range.imp fun h => Int.ofNat_lt.2 h⟩
  else if source = ⟨.filled 0x22⟩ then ⟨[(0, "lost")], pairwise_singleton _ _⟩
  else .empty

/-- The presentation of a view over both of them. -/
def bothSources : PresentationState Unit :=
  { PresentationState.default Unit with sourceIds := [⟨.filled 0x11⟩, ⟨.filled 0x22⟩] }

/-- A view over both of them, with what is read of it. -/
def crowdedView : View Unit where
  id := ⟨.filled 1⟩
  sourceId := ⟨.filled 0x11⟩
  name := "Both"
  role := .derived
  body := ⟨⟨none, "", none, none, none, ⟨none, none, true⟩⟩,
    { bothSources with bookmarks := (List.range 128).map fun n => ⟨⟨⟨.filled 0x11⟩, .ofNat n⟩, ""⟩ }⟩
  version := 0

theorem crowdedMarks_ranged {source : SourceId} {row : ℤ × String}
    (hrow : row ∈ (crowdedMarks source).rows) : 0 ≤ row.1 ∧ row.1 < 2 ^ 63 := by
  unfold crowdedMarks at hrow
  split_ifs at hrow
  · obtain ⟨n, hn, rfl⟩ := mem_map.1 hrow
    have hlt := mem_range.1 hn
    exact ⟨by omega, by omega⟩
  · obtain rfl := mem_singleton.1 hrow
    exact ⟨le_refl _, by decide⟩
  · cases hrow

/-- The store that has it. -/
def crowdedWorkspace : Workspace Unit where
  sources := fun id => some ⟨id, ()⟩
  views := [⟨⟨.filled 1⟩, ⟨.filled 0x11⟩, "Both", "derived", crowdedView.body.definition, 0, []⟩]
  bookmarks := crowdedMarks
  keyed := nodup_singleton _
  ranged := fun _ _ => crowdedMarks_ranged

/-- **A bookmark is lost when the view is saved as it was read.** -/
theorem crowdedView_loses :
    let json : Json Unit := ⟨fun _ => [], fun _ => some bothSources⟩
    ¬ (ViewWrite.updateView crowdedView 0).ReadsBack json (fun _ => .ok ()) crowdedWorkspace.toTables [] := by
  intro json hreads
  have hvalid : validateWorkingView crowdedView = .ok () := by decide +kernel
  have hread : getView json crowdedWorkspace.toTables crowdedView.id = .ok (some crowdedView) := by
    have hmarks : readSourceBookmarks crowdedWorkspace.toTables [⟨.filled 0x11⟩, ⟨.filled 0x22⟩] =
        crowdedView.body.presentation.bookmarks := by decide +kernel
    refine getView_eq_some.2 ⟨_, crowdedView.withBookmarks [], rfl, rfl, ?_, hvalid⟩
    change crowdedView = crowdedView.withBookmarks
      (readSourceBookmarks crowdedWorkspace.toTables [⟨.filled 0x11⟩, ⟨.filled 0x22⟩])
    rw [hmarks]
    rfl
  have hfit : AllFit (viewSources crowdedView) crowdedView.body.presentation.bookmarks := by decide +kernel
  have hadvances : Advances crowdedWorkspace.toTables [] crowdedView 0 := ⟨by decide, calm_nil 1, _, rfl, rfl⟩
  have hrun := updateView_eq json crowdedWorkspace.keyed hvalid hadvances ⟨hfit, calm_nil _⟩
  have hsaves : (ViewWrite.updateView crowdedView 0).saves json (fun _ => .ok ()) crowdedWorkspace.toTables [] =
      [⟨crowdedView, .derived, 0 + 1⟩] := by
    rw [ViewWrite.saves, hrun]
    rfl
  have hasRead : AsRead json crowdedWorkspace.toTables [⟨crowdedView, .derived, 0 + 1⟩] := fun x hx => by
    rw [mem_singleton.1 hx]
    exact hread
  have hserial := (updateView_ended crowdedWorkspace.keyed hrun).serial
  have hunchanged := hreads.2
  rw [hsaves, ViewWrite.tables, hrun] at hunchanged
  have hshown := (unchanged_iff crowdedWorkspace.ranged hserial hasRead).1 (hunchanged (by simp) hasRead)
  have hle := (allShown_single crowdedWorkspace.ranged hasRead).1 hshown
  exact absurd hle (by decide +kernel)

end Lvu.Store
