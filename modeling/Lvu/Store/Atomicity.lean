import Lvu.Store.Saves

/-!
# View writes are atomic

What is left of an operation on views when it reports an error or is cut off between any two of its
statements (`lvu-memory/src/store.rs`).

* `createView_atomic`, `updateView_atomic`, `ensureCanonicalView_atomic` : when an operation that
  writes each statement for itself leaves nothing behind.
* `saveBatch_serial` : a batch that commits is its entries, saved one after the other.
* `viewWrite_atomic` : **when an operation is atomic**.
-/

namespace Lvu.Store

open List

variable {R M : Type}

/-! ### The bookmarks leave the views -/

theorem keeps_insertBookmarks {I : Tables M → Prop}
    (h : ∀ t source sequence note, I t → I (t.insertBookmark source sequence note)) (source : SourceId)
    (l : List StoredBookmark) : Prog.Keeps I (insertBookmarks source l) := by
  induction l with
  | nil => exact Prog.keeps_pure ()
  | cons b rest ih =>
    refine (Prog.keeps_check _).bind fun sequence => ?_
    exact (Prog.keeps_write fun t ht => h t source sequence b.note ht).bind fun _ => ih

theorem keeps_writeSourceBookmarks {I : Tables M → Prop}
    (hclear : ∀ t source, I t → I (t.clearBookmarks source))
    (hinsert : ∀ t source sequence note, I t → I (t.insertBookmark source sequence note))
    (sources : List SourceId) (bookmarks : List StoredBookmark) :
    Prog.Keeps I (writeSourceBookmarks sources bookmarks) := by
  induction sources with
  | nil => exact Prog.keeps_pure ()
  | cons source rest ih =>
    refine (Prog.keeps_write fun t ht => hclear t source ht).bind fun _ => ?_
    exact (keeps_insertBookmarks hinsert source _).bind fun _ => ih

theorem views_writeSourceBookmarks (sources : List SourceId) (bookmarks : List StoredBookmark)
    (t : Tables M) (fs : List (Fault MemoryError)) :
    (writeSourceBookmarks sources bookmarks t fs).2.1.views = t.views :=
  keeps_writeSourceBookmarks (I := fun t' : Tables M => t'.views = t.views) (fun _ _ h => h)
    (fun _ _ _ _ h => h) sources bookmarks t fs rfl

theorem writeSourceBookmarks_ends {sources : List SourceId} {bookmarks : List StoredBookmark}
    {t : Tables M} {fs : List (Fault MemoryError)} :
    (∃ u, (writeSourceBookmarks sources bookmarks t fs).1 = .ok u) ↔
      AllFit sources bookmarks ∧ Calm fs (writeCount sources bookmarks) := by
  constructor
  · rintro ⟨u, hu⟩
    by_contra hnot
    obtain ⟨stop, hstop⟩ := writeSourceBookmarks_stopped (t := t) hnot
    rw [hstop] at hu
    cases hu
  · rintro ⟨hfit, hcalm⟩
    exact ⟨(), by rw [writeSourceBookmarks_eq hfit hcalm]⟩

/-! ### Operations that write each statement for itself -/

/-- The bookmarks of a view can be written, and nothing befalls the statements that do. -/
def BookmarksGoOn (v : View R) (fs : List (Fault MemoryError)) : Prop :=
  AllFit (viewSources v) v.body.presentation.bookmarks ∧
    Calm fs (writeCount (viewSources v) v.body.presentation.bookmarks)

theorem createView_atomic (json : Json R) (t : Tables M) (fs : List (Fault MemoryError)) (v : View R) :
    Prog.AllOrNothing (createView json v) t fs ↔ (Inserts t fs v → BookmarksGoOn v fs.tail) := by
  have hrun (h : Inserts t fs v) := createRow_eq json h
  rw [createView, Prog.allOrNothing_bind_iff (allOrNothing_createRow json t fs v)]
  · constructor
    · intro h hinserts
      exact writeSourceBookmarks_ends.1 (h _ _ _ (hrun hinserts))
    · intro h u t' fs' hcreated
      by_cases hinserts : Inserts t fs v
      · rw [hrun hinserts] at hcreated
        cases hcreated
        exact writeSourceBookmarks_ends.2 (h hinserts)
      · obtain ⟨stop, hstop⟩ := createRow_stopped json hinserts
        rw [hcreated] at hstop
        cases hstop
  · -- the row that was inserted stays
    intro u t' fs' hcreated heq
    by_cases hinserts : Inserts t fs v
    · rw [hrun hinserts] at hcreated
      cases hcreated
      have hviews := congrArg Tables.views heq
      rw [views_writeSourceBookmarks] at hviews
      exact absurd (congrArg List.length hviews) (by simp [Tables.withRow])
    · obtain ⟨stop, hstop⟩ := createRow_stopped json hinserts
      rw [hcreated] at hstop
      cases hstop

theorem withReplaced_views_ne {t : Tables M} (hkeyed : t.Keyed) (row : ViewRow) {old : ViewRow}
    (hold : t.view row.id = some old) (hne : old.version ≠ row.version) :
    (t.withReplaced row).views ≠ t.views := by
  intro heq
  obtain ⟨hmem, hid⟩ := hkeyed.view_iff.1 hold
  have hrow : { row with id := old.id, sourceId := old.sourceId, role := old.role } ∈ t.views := by
    rw [← heq]
    exact mem_map.2 ⟨old, hmem, if_pos hid⟩
  have hsame := inj_on_of_nodup_map hkeyed hrow hmem rfl
  exact hne (congrArg ViewRow.version hsame).symm

theorem updateView_atomic (json : Json R) {t : Tables M} (hkeyed : t.Keyed)
    (fs : List (Fault MemoryError)) (v : View R) (expected : UInt64) :
    Prog.AllOrNothing (updateView json v expected) t fs ↔
      (validateWorkingView v = .ok () → Advances t fs v expected → BookmarksGoOn v fs.tail) := by
  have hstopped (h : ¬ (validateWorkingView v = .ok () ∧ Advances t fs v expected)) {a t' fs'}
      (hrun : updateRow json v expected t fs = (.ok a, t', fs')) : False := by
    obtain ⟨stop, _, hstop⟩ := updateRow_stopped json hkeyed h
    rw [hstop] at hrun
    cases hrun
  have hatomic : Prog.AllOrNothing (updateRow json v expected) t fs := by
    by_cases h : validateWorkingView v = .ok () ∧ Advances t fs v expected
    · exact Prog.allOrNothing_of_ok (by rw [updateRow_eq json hkeyed h.1 h.2])
    · obtain ⟨stop, fs', hstop⟩ := updateRow_stopped json hkeyed h
      intro _ _
      rw [hstop]
  have hafter (a : UInt64) (t' : Tables M) (fs' : List (Fault MemoryError)) :
      (do
        writeSourceBookmarks (viewSources v) v.body.presentation.bookmarks
        return a : Prog (Tables M) MemoryError UInt64) t' fs' =
      ((writeSourceBookmarks (viewSources v) v.body.presentation.bookmarks t' fs').1.map fun _ => a,
        (writeSourceBookmarks (viewSources v) v.body.presentation.bookmarks t' fs').2) := by
    cases hrun : writeSourceBookmarks (viewSources v) v.body.presentation.bookmarks t' fs' with
    | mk result rest =>
      cases result with
      | ok u => rw [Prog.bind_of_ok hrun]; rfl
      | error stop => rw [Prog.bind_of_error hrun]; rfl
  rw [updateView, Prog.allOrNothing_bind_iff hatomic]
  · constructor
    · intro h hvalid hadvances
      obtain ⟨b, hb⟩ := h _ _ _ (updateRow_eq json hkeyed hvalid hadvances)
      rw [hafter] at hb
      refine (writeSourceBookmarks_ends
        (t := t.withReplaced (rowOfView json t v "" (expected.toNat + 1)))).1 ?_
      cases hresult : (writeSourceBookmarks (viewSources v) v.body.presentation.bookmarks
        (t.withReplaced (rowOfView json t v "" (expected.toNat + 1))) fs.tail).1 with
      | ok u => exact ⟨u, rfl⟩
      | error stop =>
        rw [hresult] at hb
        cases hb
    · intro h a t' fs' hrun
      by_cases hok : validateWorkingView v = .ok () ∧ Advances t fs v expected
      · rw [updateRow_eq json hkeyed hok.1 hok.2] at hrun
        cases hrun
        obtain ⟨u, hu⟩ := writeSourceBookmarks_ends
          (t := t.withReplaced (rowOfView json t v "" (expected.toNat + 1))).2 (h hok.1 hok.2)
        rw [hafter, hu]
        exact ⟨_, rfl⟩
      · exact (hstopped hok hrun).elim
  · -- the row has its next version
    intro a t' fs' hrun heq
    by_cases hok : validateWorkingView v = .ok () ∧ Advances t fs v expected
    · rw [updateRow_eq json hkeyed hok.1 hok.2] at hrun
      cases hrun
      obtain ⟨-, -, old, hold, hversion⟩ := hok.2
      have hviews := congrArg Tables.views heq
      rw [hafter, views_writeSourceBookmarks] at hviews
      refine withReplaced_views_ne hkeyed (rowOfView json t v "" (expected.toNat + 1)) hold ?_ hviews
      change old.version ≠ expected.toNat + 1
      omega
    · exact (hstopped hok hrun).elim

/-! ### Reading first -/

/-- A read that nothing befalls is all or nothing with what comes after it; otherwise it stops. -/
theorem allOrNothing_read {A B : Type} {f : Tables M → Except MemoryError A} {q : A → Prog (Tables M) MemoryError B}
    {t : Tables M} {fs : List (Fault MemoryError)} :
    Prog.AllOrNothing (Prog.statement (fun t => (f t).map fun x => (x, t)) >>= q) t fs ↔
      (Calm fs 1 → ∀ a, f t = .ok a → Prog.AllOrNothing (q a) t fs.tail) := by
  obtain ⟨a, hcalm, hf, hread⟩ | ⟨hnot, stop, hstop⟩ := statement_read_cases f t fs
  · rw [Prog.allOrNothing_of_read hread]
    constructor
    · rintro h - b hb
      cases hf.symm.trans hb
      exact h
    · exact fun h => h hcalm a hf
  · exact iff_of_true (Prog.allOrNothing_of_stopped hstop) fun h a ha => absurd ha (hnot a h)

/-! ### Canonical views -/

theorem bookmarksGoOn_newCanonicalView [Inhabited R] (source : SourceId) (name : String) (id : ViewId)
    (fs : List (Fault MemoryError)) :
    BookmarksGoOn (newCanonicalView (R := R) source name id) fs ↔ Calm fs 1 := by
  constructor
  · exact fun h => h.2
  · refine fun h => ⟨fun _ _ b hb => ?_, h⟩
    exact absurd hb not_mem_nil

/-- The search comes to an identity, and its view's row is inserted. -/
def Allocates [Inhabited R] (t : Tables M) (fs : List (Fault MemoryError)) (source : SourceId)
    (name : String) (candidate : ViewId) (j : ℕ) : Prop :=
  Calm fs (j + 1) ∧ (∀ i < j, t.view (nextId^[i] candidate) ≠ none) ∧
    Inserts t (fs.drop (j + 1)) (newCanonicalView (R := R) source name (nextId^[j] candidate))

theorem allocates_zero [Inhabited R] {t : Tables M} {fs : List (Fault MemoryError)} {source : SourceId}
    {name : String} {candidate : ViewId} :
    Allocates (R := R) t fs source name candidate 0 ↔
      Calm fs 1 ∧ Inserts t fs.tail (newCanonicalView (R := R) source name candidate) := by
  rw [Allocates, drop_one]
  simp

theorem allocates_succ [Inhabited R] {t : Tables M} {fs : List (Fault MemoryError)} {source : SourceId}
    {name : String} {candidate : ViewId} {j : ℕ} :
    Allocates (R := R) t fs source name candidate (j + 1) ↔
      Calm fs 1 ∧ t.view candidate ≠ none ∧
        Allocates (R := R) t fs.tail source name (nextId candidate) j := by
  have htaken : (∀ i < j + 1, t.view (nextId^[i] candidate) ≠ none) ↔
      t.view candidate ≠ none ∧ ∀ i < j, t.view (nextId^[i] (nextId candidate)) ≠ none :=
    Nat.forall_lt_succ_left
  have hcalm : Calm fs (j + 1 + 1) ↔ Calm fs 1 ∧ Calm fs.tail (j + 1) :=
    ⟨fun h => ⟨h.mono (by omega), h.tail⟩, fun h => calm_succ h.1.head h.2⟩
  rw [Allocates, Allocates, htaken, hcalm, drop_tail, Function.iterate_succ_apply]
  tauto

theorem allocateCanonicalView_atomic [Inhabited R] (json : Json R) (t : Tables M)
    (fs : List (Fault MemoryError)) (source : SourceId) (name : String) (attempts : ℕ) (candidate : ViewId) :
    Prog.AllOrNothing (allocateCanonicalView json source name attempts candidate) t fs ↔
      ∀ j < attempts, Allocates (R := R) t fs source name candidate j → Calm (fs.drop (j + 2)) 1 := by
  induction attempts generalizing candidate fs with
  | zero => exact iff_of_true (Prog.allOrNothing_check _) fun j hj => absurd hj (Nat.not_lt_zero j)
  | succ attempts ih =>
    rw [allocateCanonicalView]
    refine (allOrNothing_read (f := fun t => .ok (t.view candidate).isNone)).trans ?_
    rw [Nat.forall_lt_succ_left, allocates_zero]
    cases hview : t.view candidate with
    | none =>
      -- the view is created with this identity
      have hlater : ∀ j < attempts, Allocates (R := R) t fs source name candidate (j + 1) →
          Calm (fs.drop (j + 1 + 2)) 1 := fun j _ h => absurd hview (allocates_succ.1 h).2.1
      have hcreate := (Prog.allOrNothing_bind_pure (fun _ : Unit => newCanonicalView (R := R) source name candidate)).trans
        (createView_atomic json t fs.tail (newCanonicalView source name candidate))
      have hdrop : fs.tail.tail = fs.drop (0 + 2) := by rw [← drop_one, ← drop_one, drop_drop]
      rw [bookmarksGoOn_newCanonicalView, hdrop] at hcreate
      constructor
      · exact fun h => ⟨fun hfirst => hcreate.1 (h hfirst.1 true rfl) hfirst.2, hlater⟩
      · rintro h hcalm _ ⟨⟩
        exact hcreate.2 fun hinserts => h.1 ⟨hcalm, hinserts⟩
    | some row =>
      have hfirst : ¬ Inserts t fs.tail (newCanonicalView (R := R) source name candidate) := fun h => by
        have hnew := h.2.2.2.1
        rw [show (newCanonicalView (R := R) source name candidate).id = candidate from rfl, hview] at hnew
        cases hnew
      constructor
      · refine fun h => ⟨fun hzero => absurd hzero.2 hfirst, fun j hj hallocates => ?_⟩
        obtain ⟨hcalm, -, hrest⟩ := allocates_succ.1 hallocates
        have := (ih fs.tail (nextId candidate)).1 (h hcalm false rfl) j hj hrest
        rwa [drop_tail] at this
      · rintro ⟨-, h⟩ hcalm _ ⟨⟩
        refine (ih fs.tail (nextId candidate)).2 fun j hj hallocates => ?_
        have := h j hj (allocates_succ.2 ⟨hcalm, by rw [hview]; exact Option.some_ne_none row, hallocates⟩)
        rwa [drop_tail]

theorem find_of_unique {α : Type} {l : List α} {p : α → Bool} {a : α} (ha : a ∈ l) (hp : p a = true)
    (h : ∀ b ∈ l, p b = true → b = a) : l.find? p = some a := by
  cases hfind : l.find? p with
  | none =>
    have := find?_eq_none.1 hfind a ha
    exact absurd hp this
  | some b => rw [h b (mem_of_find?_eq_some hfind) (find?_some hfind)]

/-- The canonical view is read from a row of its source. -/
theorem canonicalView_row {json : Json R} {t : Tables M} {source : SourceId} {v : View R}
    (h : canonicalView json t source = .ok (some v)) :
    ∃ row ∈ t.views, row.sourceId = source ∧ getView json t row.id = .ok (some v) := by
  have hfold (a : ViewRow) (l : List ViewRow) : l.foldl firstRow a ∈ a :: l := by
    induction l generalizing a with
    | nil => exact mem_singleton.2 rfl
    | cons b l ih =>
      have := ih (firstRow a b)
      rw [foldl_cons]
      unfold firstRow at this ⊢
      grind
  unfold canonicalView at h
  cases hrows : t.views.filter fun row =>
      decide (row.sourceId = source ∧ row.role = ViewRole.canonical.token) with
  | nil =>
    rw [hrows] at h
    cases h
  | cons row rest =>
    rw [hrows] at h
    dsimp only at h
    have hrow : rest.foldl firstRow row ∈ t.views.filter fun row =>
        decide (row.sourceId = source ∧ row.role = ViewRole.canonical.token) := by
      rw [hrows]
      exact hfold row rest
    obtain ⟨hmem, hsource⟩ := mem_filter.1 hrow
    refine ⟨_, hmem, (of_decide_eq_true hsource).1, ?_⟩
    cases hget : getView json t (rest.foldl firstRow row).id with
    | error e =>
      rw [hget] at h
      cases h
    | ok view =>
      rw [hget] at h
      cases view with
      | none => cases h
      | some view =>
        cases h
        rfl

/-- A view that can be read can be read under its new identity. -/
theorem requireView_renamed {json : Json R} {t : Tables M} (hkeyed : t.Keyed) {source : SourceId}
    {target : ViewId} {row : ViewRow} (hrow : row ∈ t.views) (hsource : row.sourceId = source) {v : View R}
    (hget : getView json t row.id = .ok (some v)) (hfree : t.view target = none) :
    ∃ v', requireView json (t.renameView target row.id source) target =
      .ok (v', t.renameView target row.id source) := by
  have hview : (t.renameView target row.id source).view target = some { row with id := target } := by
    rw [Tables.view, Tables.renameView, find?_map]
    have hfind : t.views.find? ((fun r => decide (r.id = target)) ∘ fun r : ViewRow =>
        if r.id = row.id ∧ r.sourceId = source then { r with id := target } else r) = some row := by
      refine find_of_unique hrow ?_ fun r hr hp => ?_
      · rw [Function.comp_apply, if_pos ⟨rfl, hsource⟩]
        exact decide_eq_true rfl
      · rw [Function.comp_apply, decide_eq_true_eq] at hp
        by_cases h : r.id = row.id ∧ r.sourceId = source
        · exact inj_on_of_nodup_map hkeyed hr hrow h.1
        · rw [if_neg h] at hp
          exact absurd hp (view_eq_none.1 hfree r hr)
    rw [hfind, Option.map_some, if_pos ⟨rfl, hsource⟩]
  obtain ⟨row', w, hold, hdecode, rfl, hcheck⟩ := getView_eq_some.1 hget
  obtain rfl : row = row' := Option.some_injective _ ((hkeyed.view_iff.2 ⟨hrow, rfl⟩).symm.trans hold)
  -- no check looks at the identity
  have hrenamed : getView json (t.renameView target row.id source) target =
      .ok (some { w.withBookmarks (readSourceBookmarks t (viewSources w)) with id := target }) := by
    refine getView_eq_some.2 ⟨_, { w with id := target }, hview, ?_, rfl, hcheck⟩
    unfold ViewRow.decode at hdecode ⊢
    dsimp only
    by_cases hversion : row.version < 0
    · rw [if_pos hversion] at hdecode
      cases hdecode
    · rw [if_neg hversion] at hdecode ⊢
      cases hpresentation : json.fromSlice row.presentation with
      | none =>
        rw [hpresentation] at hdecode
        cases hdecode
      | some presentation =>
        rw [hpresentation] at hdecode
        cases hdecode
        rfl
  exact ⟨_, by rw [requireView, hrenamed]; rfl⟩

/-- The source has a canonical view that the legacy identity names, and the preferred one is free. -/
def Renames (json : Json R) (t : Tables M) (fs : List (Fault MemoryError)) (source : SourceId)
    (preferred : ViewId) (legacy : Option ViewId) : Prop :=
  Calm fs 3 ∧ ∃ v, canonicalView json t source = .ok (some v) ∧ v.id ≠ preferred ∧ legacy = some v.id ∧
    t.view preferred = none

/-- The source has no canonical view, and one is created. -/
def Creates [Inhabited R] (json : Json R) (t : Tables M) (fs : List (Fault MemoryError)) (source : SourceId)
    (preferred : ViewId) (name : String) (j : ℕ) : Prop :=
  Calm fs 1 ∧ canonicalView json t source = .ok none ∧
    ¬ (name.isEmpty || decide (MAX_VIEW_NAME_BYTES < name.utf8ByteSize)) = true ∧
      Allocates (R := R) t fs.tail source name preferred j

theorem adoptLegacyCanonicalView_atomic {json : Json R} {t : Tables M} (hkeyed : t.Keyed)
    (fs : List (Fault MemoryError)) {source : SourceId} (target : ViewId) {row : ViewRow} (hrow : row ∈ t.views)
    (hsource : row.sourceId = source) {v : View R} (hget : getView json t row.id = .ok (some v)) :
    Prog.AllOrNothing (adoptLegacyCanonicalView json source row.id target) t fs ↔
      (t.view target = none → Calm fs 2 → Calm (fs.drop 2) 1) := by
  rw [adoptLegacyCanonicalView]
  refine (allOrNothing_read (f := fun t => .ok (t.view target).isNone)).trans ?_
  cases hview : t.view target with
  | some other =>
    -- nothing is written before the last statement
    refine iff_of_true ?_ fun h => by cases h
    rintro hcalm _ ⟨⟩
    refine allOrNothing_read.2 fun _ survivor _ => ?_
    cases survivor with
    | none => exact Prog.allOrNothing_statement _
    | some survivor =>
      dsimp only
      split
      · exact (Prog.allOrNothing_bind_pure fun _ : Unit => survivor).2 (Prog.allOrNothing_statement _)
      · exact Prog.allOrNothing_statement _
  | none =>
    have hrenamed : t.renameView target row.id source ≠ t := fun heq => by
      have hmem : { row with id := target } ∈ t.views := by
        rw [← heq]
        exact mem_map.2 ⟨row, hrow, if_pos ⟨rfl, hsource⟩⟩
      exact view_eq_none.1 hview _ hmem rfl
    have hread : Prog.AllOrNothing (do
        Prog.write fun t => t.renameView target row.id source
        Prog.statement fun t => requireView json t target : Prog (Tables M) MemoryError (View R)) t fs.tail ↔
        (Calm fs.tail 1 → Calm fs.tail.tail 1) := by
      by_cases hcalm : Calm fs.tail 1
      · have hwrite : Prog.write (fun t => t.renameView target row.id source) t fs.tail =
            (.ok (), t.renameView target row.id source, fs.tail.tail) := write_of_calm hcalm.head
        obtain ⟨v', hv'⟩ := requireView_renamed hkeyed hrow hsource hget hview
        rw [Prog.AllOrNothing, Prog.bind_of_ok hwrite]
        by_cases hlast : Calm fs.tail.tail 1
        · refine iff_of_true (fun stop h => ?_) fun _ => hlast
          rw [statement_ok hlast hv'] at h
          cases h
        · refine iff_of_false (fun h => ?_) fun h => hlast (h hcalm)
          obtain ⟨stop, hstop⟩ := statement_of_not_calm (fun t => requireView json t target)
            (t.renameView target row.id source) hlast
          rw [hstop] at h
          exact hrenamed (h stop rfl)
      · obtain ⟨stop, hstop⟩ := write_of_fault (fun t : Tables M => t.renameView target row.id source) t
          fun h => hcalm (calm_succ h fun x hx => by simp at hx)
        exact iff_of_true (Prog.allOrNothing_of_stopped hstop) fun h => absurd h hcalm
    have hdrop : fs.tail.tail = fs.drop 2 := by rw [← drop_one, ← drop_one, drop_drop]
    rw [hdrop] at hread
    constructor
    · exact fun h _ hcalm => hread.1 (h (hcalm.mono (by omega)) true rfl) hcalm.tail
    · rintro h hcalm _ ⟨⟩
      exact hread.2 fun htail => h rfl (calm_succ hcalm.head htail)

theorem ensureCanonicalView_atomic [Inhabited R] (json : Json R) {t : Tables M} (hkeyed : t.Keyed)
    (fs : List (Fault MemoryError)) (source : SourceId) (preferred : ViewId) (legacy : Option ViewId)
    (name : String) :
    Prog.AllOrNothing (ensureCanonicalView json source preferred legacy name) t fs ↔
      (Renames json t fs source preferred legacy → Calm (fs.drop 3) 1) ∧
        ∀ j < MAX_CANONICAL_ID_ATTEMPTS,
          Creates json t fs source preferred name j → Calm (fs.drop (j + 3)) 1 := by
  rw [ensureCanonicalView, allOrNothing_read]
  cases hcanonical : canonicalView json t source with
  | error e =>
    refine iff_of_true (fun _ _ h => by cases h) ⟨fun h => ?_, fun j _ h => ?_⟩
    · obtain ⟨-, v, hv, -⟩ := h
      rw [hcanonical] at hv
      cases hv
    · have hv := h.2.1
      rw [hcanonical] at hv
      cases hv
  | ok existing =>
    cases existing with
    | none =>
      have hrename : Renames json t fs source preferred legacy → Calm (fs.drop 3) 1 := fun h => by
        obtain ⟨-, v, hv, -⟩ := h
        rw [hcanonical] at hv
        cases hv
      by_cases hname : (name.isEmpty || decide (MAX_VIEW_NAME_BYTES < name.utf8ByteSize)) = true
      · refine iff_of_true ?_ ⟨hrename, fun j _ h => absurd hname h.2.2.1⟩
        rintro hcalm _ ⟨⟩
        dsimp only
        rw [if_pos hname]
        exact Prog.allOrNothing_check _
      · have hsearch := allocateCanonicalView_atomic json t fs.tail source name
          MAX_CANONICAL_ID_ATTEMPTS preferred
        constructor
        · refine fun h => ⟨hrename, fun j hj hcreates => ?_⟩
          have h' := h hcreates.1 none rfl
          dsimp only at h'
          rw [if_neg hname, hsearch] at h'
          have := h' j hj hcreates.2.2.2
          rwa [drop_tail] at this
        · rintro ⟨-, h⟩ hcalm _ ⟨⟩
          dsimp only
          rw [if_neg hname, hsearch]
          intro j hj hallocates
          rw [drop_tail]
          exact h j hj ⟨hcalm, hcanonical, hname, hallocates⟩
    | some existing =>
      have hcreate : ∀ j < MAX_CANONICAL_ID_ATTEMPTS,
          Creates json t fs source preferred name j → Calm (fs.drop (j + 3)) 1 := fun j _ h => by
        have hv := h.2.1
        rw [hcanonical] at hv
        cases hv
      rw [and_iff_left hcreate]
      by_cases hlegacy : existing.id ≠ preferred ∧ legacy = some existing.id
      · -- a legacy view is folded into the preferred one
        obtain ⟨hne, rfl⟩ := hlegacy
        obtain ⟨row, hrow, hsource, hget⟩ := canonicalView_row hcanonical
        have hid : existing.id = row.id := id_of_getView hget
        have hadopt := adoptLegacyCanonicalView_atomic hkeyed fs.tail preferred hrow hsource hget
        rw [← hid] at hadopt
        constructor
        · rintro h ⟨hcalm, v, hv, -, -, hfree⟩
          have h' := h (hcalm.mono (by omega)) (some existing) rfl
          dsimp only at h'
          rw [if_neg hne, if_pos rfl, hadopt] at h'
          have := h' hfree hcalm.tail
          rwa [drop_tail] at this
        · rintro h hcalm _ ⟨⟩
          dsimp only
          rw [if_neg hne, if_pos rfl, hadopt]
          intro hfree htail
          rw [drop_tail]
          exact h ⟨calm_succ hcalm.head htail, existing, hcanonical, hne, rfl, hfree⟩
      · refine iff_of_true ?_ fun h => ?_
        · rintro hcalm _ ⟨⟩
          dsimp only
          by_cases hid : existing.id = preferred
          · rw [if_pos hid]
            cases legacy with
            | none => exact Prog.allOrNothing_of_ok rfl
            | some legacy =>
              dsimp only
              split
              · exact Prog.allOrNothing_of_ok rfl
              · exact (Prog.allOrNothing_bind_pure fun _ : Unit => existing).2 (Prog.allOrNothing_statement _)
          · rw [if_neg hid, if_neg fun h => hlegacy ⟨hid, h⟩]
            exact Prog.allOrNothing_of_ok rfl
        · obtain ⟨-, v, hv, hne, hlegacy', -⟩ := h
          rw [hcanonical] at hv
          cases hv
          exact absurd ⟨hne, hlegacy'⟩ hlegacy

/-! ### The batch -/

theorem local_insertBookmarks (source : SourceId) (l : List StoredBookmark) :
    Prog.Local (insertBookmarks (M := M) source l) := by
  induction l with
  | nil => exact Prog.local_pure ()
  | cons b rest ih =>
    refine (Prog.local_check _).bind fun sequence => ?_
    exact (Prog.local_statement _).bind fun _ => ih

theorem local_writeSourceBookmarks (sources : List SourceId) (bookmarks : List StoredBookmark) :
    Prog.Local (writeSourceBookmarks (M := M) sources bookmarks) := by
  induction sources with
  | nil => exact Prog.local_pure ()
  | cons source rest ih =>
    refine (Prog.local_statement _).bind fun _ => ?_
    exact (local_insertBookmarks source _).bind fun _ => ih

theorem local_writeRow (json : Json R) (e : Entry R M) : Prog.Local (writeRow json e) := by
  unfold writeRow
  cases e.expected with
  | none => exact (Prog.local_statement _).bind fun _ => Prog.local_pure _
  | some expected =>
    refine (Prog.local_check _).bind fun next => ?_
    refine (Prog.local_check _).bind fun version => ?_
    refine (Prog.local_check _).bind fun old => ?_
    refine Prog.Local.bind ?_ fun _ => Prog.local_pure _
    refine (Prog.local_statement _).bind fun changed => ?_
    split
    · exact Prog.local_check _
    · exact Prog.local_pure _

theorem local_saveBody (json : Json R) (e : Entry R M) : Prog.Local (saveBody json e) := by
  refine (Prog.local_statement _).bind fun _ => ?_
  refine (local_writeRow json e).bind fun version => ?_
  exact (local_writeSourceBookmarks _ _).bind fun _ => Prog.local_pure _

/-- What a batch is for: its entries are saved one after the other with `save_source_and_view`, and
an entry that repeats the view of an entry that passed the checks is refused. -/
def saveSerially (json : Json R) (validateSource : SourceMetadata M → Except MemoryError Unit) :
    List ViewId → List (Entry R M) → Prog (Tables M) MemoryError (List (Except MemoryError UInt64))
  | _, [] => pure []
  | seen, e :: rest =>
    match e.check validateSource with
    | .error _ => do
      let outcome ← Prog.attempt (saveSourceAndView json validateSource e)
      let outcomes ← saveSerially json validateSource seen rest
      return outcome :: outcomes
    | .ok () =>
      if e.view.id ∈ seen then do
        let outcomes ← saveSerially json validateSource seen rest
        return .error .conflict :: outcomes
      else do
        let outcome ← Prog.attempt (saveSourceAndView json validateSource e)
        let outcomes ← saveSerially json validateSource (e.view.id :: seen) rest
        return outcome :: outcomes

/-- An entry as it is saved by itself. -/
def saveAlone (json : Json R) : Entry R M × Except MemoryError Unit →
    Prog (Tables M) MemoryError (Except MemoryError UInt64)
  | (_, .error error) => pure (.error error)
  | (e, .ok ()) => Prog.attempt (Prog.transaction (saveBody json e))

theorem saveSerially_eq (json : Json R) (validateSource : SourceMetadata M → Except MemoryError Unit)
    (seen : List ViewId) (items : List (Entry R M)) :
    saveSerially json validateSource seen items =
      Prog.sequence ((checkEntries validateSource seen items).map (saveAlone json)) := by
  induction items generalizing seen with
  | nil => rfl
  | cons e rest ih =>
    unfold saveSerially checkEntries
    cases hcheck : e.check validateSource with
    | error error =>
      have halone : Prog.attempt (saveSourceAndView json validateSource e) =
          saveAlone json (e, .error error) := by
        funext t fs
        rw [saveSourceAndView, hcheck]
        rfl
      rw [halone, ih seen]
      rfl
    | ok u =>
      have halone : Prog.attempt (saveSourceAndView json validateSource e) =
          saveAlone json (e, .ok ()) := by
        funext t fs
        rw [saveSourceAndView, hcheck]
        rfl
      rw [halone]
      dsimp only
      by_cases hseen : e.view.id ∈ seen
      · rw [if_pos hseen, if_pos hseen, ih seen]
        rfl
      · rw [if_neg hseen, if_neg hseen, ih (e.view.id :: seen)]
        rfl

theorem follows_saveEntry (json : Json R) (x : Entry R M × Except MemoryError Unit) :
    Prog.Follows (saveEntry json x) (saveAlone json x) := by
  obtain ⟨e, refused | ok⟩ := x
  · exact Prog.follows_pure _
  · exact Prog.follows_savepoint (local_saveBody json e)

/-- **A batch that commits is its entries, saved one after the other**, with what befell its
statements. -/
theorem saveBatch_serial {json : Json R} {validateSource : SourceMetadata M → Except MemoryError Unit}
    {items : List (Entry R M)} {t : Tables M} {fs : List (Fault MemoryError)}
    {outcomes : List (Except MemoryError UInt64)}
    (h : (saveBatch json (checkEntries validateSource [] items) t fs).1 = .ok outcomes) :
    ∃ seen, (∀ x ∈ seen, x ∈ fs ∨ x = .none) ∧ saveSerially json validateSource [] items t seen =
      (.ok outcomes, (saveBatch json (checkEntries validateSource [] items) t fs).2.1, []) := by
  obtain ⟨rest, hrun⟩ := Prog.transaction_ok h
  obtain ⟨seen, hseen, -, hserial⟩ := Prog.follows_sequence (fun x _ => follows_saveEntry json x) t
    fs.tail outcomes (by rw [hrun])
  refine ⟨seen, fun x hx => (hseen x hx).imp_left mem_of_mem_tail, ?_⟩
  have := hserial []
  rw [append_nil, hrun] at this
  rw [saveSerially_eq, this]
  rfl

/-- A batch is atomic: it is saved one entry after the other when its transaction commits, and
otherwise not at all. -/
def BatchAtomic (json : Json R) (validateSource : SourceMetadata M → Except MemoryError Unit)
    (items : List (Entry R M)) (t : Tables M) (fs : List (Fault MemoryError)) : Prop :=
  match saveSourcesAndViews json validateSource items t fs with
  | (.error _, t', _) => t' = t
  | (.ok outcomes, t', _) =>
    if (saveBatch json (checkEntries validateSource [] items) t fs).1.isOk then
      ∃ seen, (∀ x ∈ seen, x ∈ fs ∨ x = .none) ∧
        saveSerially json validateSource [] items t seen = (.ok outcomes, t', [])
    else t' = t ∧ ∀ outcome ∈ outcomes, outcome.isOk = false

theorem sequence_refused (json : Json R) {admitted : List (Entry R M × Except MemoryError Unit)}
    (h : ∀ x ∈ admitted, x.2.isOk = false) (t : Tables M) (fs : List (Fault MemoryError)) :
    Prog.sequence (admitted.map (saveAlone json)) t fs =
      (.ok (admitted.map fun x => x.2.map fun _ => 0), t, fs) := by
  induction admitted with
  | nil => rfl
  | cons x rest ih =>
    obtain ⟨e, refused | ok⟩ := x
    · have hrest := ih fun y hy => h y (mem_cons_of_mem _ hy)
      have hfirst : saveAlone json (e, .error refused) t fs = (.ok (.error refused), t, fs) := rfl
      rw [map_cons, Prog.sequence, Prog.bind_of_ok hfirst, Prog.bind_of_ok hrest]
      rfl
    · cases h _ mem_cons_self

section Ends

variable {json : Json R} {validateSource : SourceMetadata M → Except MemoryError Unit} {items : List (Entry R M)}
  {t : Tables M} {fs : List (Fault MemoryError)}

theorem saveSourcesAndViews_refused
    (hall : ((checkEntries validateSource [] items).all fun x => !x.2.isOk) = true) :
    saveSourcesAndViews json validateSource items t fs =
      (.ok ((checkEntries validateSource [] items).map fun x => x.2.map fun _ => 0), t, fs) := by
  unfold saveSourcesAndViews
  rw [if_pos hall]
  rfl

/-- What the batch comes to. -/
theorem saveSourcesAndViews_cases
    (hall : ¬ ((checkEntries validateSource [] items).all fun x => !x.2.isOk) = true) :
    match saveBatch json (checkEntries validateSource [] items) t fs with
    | (.ok outcomes, t', fs') =>
      saveSourcesAndViews json validateSource items t fs = (.ok outcomes, t', fs')
    | (.error .killed, t', fs') =>
      saveSourcesAndViews json validateSource items t fs = (.error .killed, t', fs')
    | (.error (.error _), t', fs') =>
      ∃ outcomes, saveSourcesAndViews json validateSource items t fs = (.ok outcomes, t', fs') ∧
        ∀ outcome ∈ outcomes, outcome.isOk = false := by
  unfold saveSourcesAndViews
  rw [if_neg hall]
  have hattempt := Prog.attempt.eq_1 (saveBatch json (checkEntries validateSource [] items)) t fs
  split <;> rename_i hbatch <;> rw [hbatch] at hattempt
  · exact Prog.bind_of_ok hattempt
  · exact Prog.bind_of_error hattempt
  · refine ⟨_, Prog.bind_of_ok hattempt, fun outcome houtcome => ?_⟩
    obtain ⟨x, -, rfl⟩ := mem_map.1 houtcome
    obtain ⟨-, refused | ok⟩ := x <;> rfl

end Ends

/-- A batch whose transaction does not commit changes nothing, and each of its entries reports an error. -/
theorem saveSourcesAndViews_whole (json : Json R) (validateSource : SourceMetadata M → Except MemoryError Unit)
    (items : List (Entry R M)) (t : Tables M) (fs : List (Fault MemoryError)) :
    BatchAtomic json validateSource items t fs := by
  unfold BatchAtomic
  by_cases hall : ((checkEntries validateSource [] items).all fun x => !x.2.isOk) = true
  · have hrefused : ∀ x ∈ checkEntries validateSource [] items, x.2.isOk = false := fun x hx => by
      simpa using all_eq_true.1 hall x hx
    rw [saveSourcesAndViews_refused hall]
    dsimp only
    split
    · exact ⟨[], fun x hx => (not_mem_nil hx).elim, by rw [saveSerially_eq, sequence_refused json hrefused]⟩
    · refine ⟨rfl, fun outcome houtcome => ?_⟩
      obtain ⟨x, hx, rfl⟩ := mem_map.1 houtcome
      have := hrefused x hx
      obtain ⟨e, refused | ok⟩ := x
      · rfl
      · cases this
  · cases hbatch : saveBatch json (checkEntries validateSource [] items) t fs with
    | mk result rest =>
      obtain ⟨t', fs'⟩ := rest
      -- a transaction that stops leaves the tables
      have hsame {stop : Stop MemoryError} (hresult : result = .error stop) : t' = t := by
        have hstop : (saveBatch json (checkEntries validateSource [] items) t fs).1 = .error stop := by
          rw [hbatch, hresult]
        have : (saveBatch json (checkEntries validateSource [] items) t fs).2.1 = t :=
          Prog.transaction_stopped hstop
        rwa [hbatch] at this
      have hcases := @saveSourcesAndViews_cases R M json validateSource items t fs hall
      rw [hbatch] at hcases
      cases result with
      | ok outcomes =>
        have hok : (saveBatch json (checkEntries validateSource [] items) t fs).1 = .ok outcomes := by
          rw [hbatch]
        have hserial := saveBatch_serial hok
        rw [hbatch] at hserial
        rw [hcases]
        exact hserial
      | error stop =>
        cases stop with
        | killed =>
          rw [hcases]
          exact hsame rfl
        | error e =>
          obtain ⟨outcomes, hrun, herrors⟩ := hcases
          rw [hrun]
          exact ⟨hsame rfl, herrors⟩

/-! ### All operations -/

/-- A store whose views are keyed. -/
structure Database (M : Type) extends Tables M where
  keyed : toTables.Keyed

/-- The operations that write views. -/
inductive ViewWrite (R M : Type)
  | createView (v : View R)
  | updateView (v : View R) (expected : UInt64)
  | ensureCanonicalView (source : SourceId) (preferred : ViewId) (legacy : Option ViewId) (name : String)
  | saveSourceAndView (e : Entry R M)
  | saveSourcesAndViews (items : List (Entry R M))

namespace ViewWrite

/-- The operation is atomic, whatever befalls its statements. -/
def Atomic [Inhabited R] (json : Json R) (validateSource : SourceMetadata M → Except MemoryError Unit)
    (t : Tables M) (fs : List (Fault MemoryError)) : ViewWrite R M → Prop
  | createView v => Prog.AllOrNothing (Store.createView json v) t fs
  | updateView v expected => Prog.AllOrNothing (Store.updateView json v expected) t fs
  | ensureCanonicalView source preferred legacy name =>
    Prog.AllOrNothing (Store.ensureCanonicalView json source preferred legacy name) t fs
  | saveSourceAndView e => Prog.AllOrNothing (Store.saveSourceAndView json validateSource e) t fs
  | saveSourcesAndViews items => BatchAtomic json validateSource items t fs

/-- Once a view's row is written, nothing stops the operation: its bookmarks fit their column, and
nothing befalls the statements after the row's. -/
def GoesOn [Inhabited R] (json : Json R) (t : Tables M) (fs : List (Fault MemoryError)) : ViewWrite R M → Prop
  | createView v => Inserts t fs v → BookmarksGoOn v fs.tail
  | updateView v expected => validateWorkingView v = .ok () → Advances t fs v expected → BookmarksGoOn v fs.tail
  | ensureCanonicalView source preferred legacy name =>
    (Renames json t fs source preferred legacy → Calm (fs.drop 3) 1) ∧
      ∀ j < MAX_CANONICAL_ID_ATTEMPTS, Creates json t fs source preferred name j → Calm (fs.drop (j + 3)) 1
  | saveSourceAndView _ => True
  | saveSourcesAndViews _ => True

end ViewWrite

/-- **When an operation is atomic.** -/
theorem viewWrite_atomic [Inhabited R] (json : Json R) (validateSource : SourceMetadata M → Except MemoryError Unit)
    (s : Database M) (fs : List (Fault MemoryError)) (w : ViewWrite R M) :
    w.Atomic json validateSource s.toTables fs ↔ w.GoesOn json s.toTables fs := by
  cases w with
  | createView v => exact createView_atomic json s.toTables fs v
  | updateView v expected => exact updateView_atomic json s.keyed fs v expected
  | ensureCanonicalView source preferred legacy name =>
    exact ensureCanonicalView_atomic json s.keyed fs source preferred legacy name
  | saveSourceAndView e =>
    refine iff_of_true (Prog.allOrNothing_bind (Prog.allOrNothing_check _) fun u t fs' hcheck => ?_) trivial
    obtain ⟨-, rfl, rfl⟩ := check_run hcheck
    exact ⟨rfl, Prog.allOrNothing_transaction _⟩
  | saveSourcesAndViews items =>
    exact iff_of_true (saveSourcesAndViews_whole json validateSource items s.toTables fs) trivial

/-- A view with a bookmark at the last sequence that there is. -/
def lastMarked : View Unit where
  id := ⟨.filled 1⟩
  sourceId := ⟨.filled 0x11⟩
  name := "Errors"
  role := .derived
  body := ⟨⟨none, "", none, none, none, ⟨none, none, true⟩⟩,
    { PresentationState.default Unit with
      bookmarks := [⟨⟨⟨.filled 0x11⟩, 18446744073709551615⟩, "the last one"⟩] }⟩
  version := 0

/-- Its source, and no views. -/
def sourceOnly : Database Unit where
  sources := fun _ => some ⟨⟨.filled 0x11⟩, ()⟩
  views := []
  bookmarks := fun _ => .empty
  keyed := nodup_nil

/-- **A view is created although an error is reported**: its row is there, its bookmark is not. -/
theorem createView_partial :
    let json : Json Unit := ⟨fun _ => [], fun _ => none⟩
    ¬ (ViewWrite.createView lastMarked).Atomic json (fun _ => .ok ()) sourceOnly.toTables [] := by
  intro json hatomic
  have hinserts : Inserts sourceOnly.toTables [] lastMarked :=
    ⟨by decide +kernel, by decide, calm_nil 1, rfl, rfl⟩
  have hfit := ((createView_atomic json sourceOnly.toTables [] lastMarked).1 hatomic hinserts).1
  exact absurd hfit (by decide +kernel)

end Lvu.Store
