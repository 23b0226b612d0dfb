import Lvu.Store.Atomicity

/-!
# What a save has done

What an operation that reports a version for a view has done to the tables
(`lvu-memory/src/store.rs`).

* `Save.Done` : the view has its row, and its bookmarks are those of its sources.
* `Serial` : saves, one after the other.
* `saveSerially_ended` : a batch is such a series, with no view twice.
-/

namespace Lvu.Store

open List

variable {R M : Type}

/-! ### Runs that end -/

variable {t t' : Tables M} {fs fs' : List (Fault MemoryError)} {u : Unit} {v : View R}
  {json : Json R} {expected version : UInt64} {e : Entry R M}
  {validateSource : SourceMetadata M → Except MemoryError Unit}

theorem write_ended {f : Tables M → Tables M} (h : Prog.write f t fs = (.ok u, t', fs')) :
    t' = f t := by
  by_cases hcalm : ∀ x ∈ fs.head?, x = Fault.none
  · rw [write_of_calm hcalm] at h
    cases h
    rfl
  · obtain ⟨stop, hstop⟩ := write_of_fault f t hcalm
    rw [hstop] at h
    cases h

theorem writeSourceBookmarks_ended {sources : List SourceId} {bookmarks : List StoredBookmark}
    (h : writeSourceBookmarks sources bookmarks t fs = (.ok u, t', fs')) :
    AllFit sources bookmarks ∧ t' = t.replaceBookmarks sources bookmarks := by
  have hends := writeSourceBookmarks_ends.1 ⟨u, congrArg Prod.fst h⟩
  rw [writeSourceBookmarks_eq hends.1 hends.2] at h
  cases h
  exact ⟨hends.1, rfl⟩

/-! ### What a save has done -/

/-- The row of a view with a source and a role. -/
def savedRow (json : Json R) (t : Tables M) (v : View R) (source : SourceId) (role : String) (version : UInt64) :
    ViewRow :=
  { rowOfView json t v role version.toNat with sourceId := source }

/-- The view is written: its row, and the bookmarks of its sources. -/
structure Wrote (json : Json R) (t t' : Tables M) (v : View R) (source : SourceId) (role : String)
    (version : UInt64) : Prop where
  valid : validateWorkingView v = .ok ()
  fit : AllFit (viewSources v) v.body.presentation.bookmarks
  row : t'.view v.id = some (savedRow json t v source role version)
  others : ∀ id, id ≠ v.id → t'.view id = t.view id
  bookmarks : t'.bookmarks = (t.replaceBookmarks (viewSources v) v.body.presentation.bookmarks).bookmarks
  keyed : t'.Keyed

/-- A view that was saved, the role that its row has when it is new, and the version that is reported. -/
structure Save (R : Type) where
  view : View R
  role : ViewRole
  version : UInt64

/-- A save: the row is new, or it keeps its source and its role. -/
def Save.Done (json : Json R) (t : Tables M) (x : Save R) (t' : Tables M) : Prop :=
  t.view x.view.id = none ∧ Wrote json t t' x.view x.view.sourceId x.role.token x.version ∨
    ∃ old, t.view x.view.id = some old ∧ Wrote json t t' x.view old.sourceId old.role x.version

theorem view_withRow (row : ViewRow) (hnew : t.view row.id = none) :
    (t.withRow row).view row.id = some row ∧ ∀ id, id ≠ row.id → (t.withRow row).view id = t.view id := by
  constructor
  · rw [Tables.view, Tables.withRow, find?_append, ← Tables.view, hnew]
    simp
  · intro id hid
    rw [Tables.view, Tables.withRow, find?_append, find?_singleton,
      if_neg (by simpa using fun h => hid h.symm), Option.or_none, ← Tables.view]

theorem keyed_withRow (hkeyed : t.Keyed) (row : ViewRow) (hnew : t.view row.id = none) :
    (t.withRow row).Keyed := by
  rw [Tables.Keyed, Tables.withRow, map_append, nodup_append]
  refine ⟨hkeyed, nodup_singleton _, fun id hid id' hid' => ?_⟩
  obtain ⟨r, hr, rfl⟩ := mem_map.1 hid
  obtain rfl := mem_singleton.1 hid'
  exact view_eq_none.1 hnew r hr

theorem view_withReplaced (row : ViewRow) {old : ViewRow} (hold : t.view row.id = some old) :
    (t.withReplaced row).view row.id = some { row with sourceId := old.sourceId, role := old.role } ∧
      ∀ id, id ≠ row.id → (t.withReplaced row).view id = t.view id := by
  have hview (id : ViewId) : (t.withReplaced row).view id = (t.view id).map fun r =>
      if r.id = row.id then { row with id := r.id, sourceId := r.sourceId, role := r.role } else r := by
    rw [Tables.view, Tables.withReplaced, find?_map, Tables.view]
    congr 2
    funext r
    rw [Function.comp_apply]
    split <;> rfl
  constructor
  · have hid : old.id = row.id := by simpa using find?_some hold
    rw [hview, hold, Option.map_some, if_pos hid, hid]
  · intro id hid
    rw [hview]
    cases hrow : t.view id with
    | none => rfl
    | some r =>
      have hr : r.id = id := by simpa using find?_some hrow
      rw [Option.map_some, if_neg fun h => hid (hr.symm.trans h)]

theorem keyed_withReplaced (hkeyed : t.Keyed) (row : ViewRow) : (t.withReplaced row).Keyed := by
  have hids : (t.withReplaced row).views.map ViewRow.id = t.views.map ViewRow.id := by
    rw [Tables.withReplaced, map_map]
    refine map_congr_left fun r _ => ?_
    rw [Function.comp_apply]
    split <;> rfl
  rw [Tables.Keyed, hids]
  exact hkeyed

theorem wrote_withRow (json : Json R) (hkeyed : t.Keyed) (role : String) (version : UInt64)
    (hvalid : validateWorkingView v = .ok ()) (hnew : t.view v.id = none)
    (hfit : AllFit (viewSources v) v.body.presentation.bookmarks) :
    Wrote json t ((t.withRow (rowOfView json t v role version.toNat)).replaceBookmarks (viewSources v)
      v.body.presentation.bookmarks) v v.sourceId role version where
  valid := hvalid
  fit := hfit
  row := (view_withRow (rowOfView json t v role version.toNat) hnew).1
  others := (view_withRow (rowOfView json t v role version.toNat) hnew).2
  bookmarks := rfl
  keyed := keyed_withRow hkeyed (rowOfView json t v role version.toNat) hnew

theorem wrote_withReplaced (json : Json R) (hkeyed : t.Keyed) (version : UInt64) {old : ViewRow}
    (hvalid : validateWorkingView v = .ok ()) (hold : t.view v.id = some old)
    (hfit : AllFit (viewSources v) v.body.presentation.bookmarks) :
    Wrote json t ((t.withReplaced (rowOfView json t v "" version.toNat)).replaceBookmarks (viewSources v)
      v.body.presentation.bookmarks) v old.sourceId old.role version where
  valid := hvalid
  fit := hfit
  row := (view_withReplaced (rowOfView json t v "" version.toNat) hold).1
  others := (view_withReplaced (rowOfView json t v "" version.toNat) hold).2
  bookmarks := rfl
  keyed := keyed_withReplaced hkeyed _

theorem createView_ended (hkeyed : t.Keyed) (h : createView json v t fs = (.ok u, t', fs')) :
    Save.Done json t ⟨v, v.role, v.version⟩ t' := by
  obtain ⟨a, t₁, fs₁, hrow, hbookmarks⟩ := Prog.bind_ended h
  by_cases hinserts : Inserts t fs v
  · rw [createRow_eq json hinserts] at hrow
    cases hrow
    obtain ⟨hfit, rfl⟩ := writeSourceBookmarks_ended hbookmarks
    exact .inl ⟨hinserts.2.2.2.1, wrote_withRow json hkeyed _ _ hinserts.1 hinserts.2.2.2.1 hfit⟩
  · obtain ⟨stop, hstop⟩ := createRow_stopped json hinserts
    rw [hrow] at hstop
    cases hstop

theorem advanceRow_ended (hkeyed : t.Keyed)
    (h : advanceRow json v expected t fs = (.ok version, t', fs')) :
    (∃ old, t.view v.id = some old ∧ old.version = expected.toNat) ∧ version.toNat = expected.toNat + 1 ∧
      t' = t.withReplaced (rowOfView json t v "" version.toNat) := by
  by_cases hadvances : Advances t fs v expected
  · rw [advanceRow_eq json hkeyed hadvances] at h
    cases h
    have hnext := (nextVersion_eq hadvances.1).2
    refine ⟨hadvances.2.2, hnext, ?_⟩
    rw [hnext]
    rfl
  · obtain ⟨stop, fs₁, hstop⟩ := advanceRow_stopped json hkeyed hadvances
    rw [hstop] at h
    cases h

theorem updateView_ended (hkeyed : t.Keyed)
    (h : updateView json v expected t fs = (.ok version, t', fs')) :
    Save.Done json t ⟨v, v.role, version⟩ t' := by
  obtain ⟨next, t₁, fs₁, hrow, hrest⟩ := Prog.bind_ended h
  obtain ⟨a, t₂, fs₂, hcheck, hadvance⟩ := Prog.bind_ended hrow
  obtain ⟨hvalid, rfl, rfl⟩ := check_run hcheck
  obtain ⟨⟨old, hold, -⟩, -, rfl⟩ := advanceRow_ended hkeyed hadvance
  obtain ⟨b, t₃, fs₃, hbookmarks, hpure⟩ := Prog.bind_ended hrest
  obtain ⟨hfit, rfl⟩ := writeSourceBookmarks_ended hbookmarks
  cases hpure
  exact .inr ⟨old, hold, wrote_withReplaced json hkeyed _ hvalid hold hfit⟩

theorem updateView_eq (json : Json R) (hkeyed : t.Keyed) (hvalid : validateWorkingView v = .ok ())
    (hadvances : Advances t fs v expected) (hgo : BookmarksGoOn v fs.tail) :
    updateView json v expected t fs =
      (.ok (expected + 1), (t.withReplaced (rowOfView json t v "" (expected.toNat + 1))).replaceBookmarks
        (viewSources v) v.body.presentation.bookmarks,
          fs.tail.drop (writeCount (viewSources v) v.body.presentation.bookmarks)) := by
  rw [updateView, Prog.bind_of_ok (updateRow_eq json hkeyed hvalid hadvances)]
  exact (Prog.bind_of_ok (writeSourceBookmarks_eq hgo.1 hgo.2)).trans rfl

theorem saveBody_ended (hkeyed : t.Keyed) (hvalid : validateWorkingView e.view = .ok ())
    (h : saveBody json e t fs = (.ok version, t', fs')) :
    Save.Done json t ⟨e.view, .derived, version⟩ t' := by
  obtain ⟨a, t₁, fs₁, hsource, hrest⟩ := Prog.bind_ended h
  obtain rfl := write_ended hsource
  have hkeyed' : (t.upsertSource e.source).Keyed := hkeyed
  obtain ⟨version', t₂, fs₂, hrow, hrest⟩ := Prog.bind_ended hrest
  obtain ⟨b, t₃, fs₃, hbookmarks, hpure⟩ := Prog.bind_ended hrest
  obtain ⟨hfit, rfl⟩ := writeSourceBookmarks_ended hbookmarks
  cases hpure
  unfold writeRow at hrow
  cases hexpected : e.expected with
  | none =>
    rw [hexpected] at hrow
    obtain ⟨c, t₄, fs₄, hinsert, hzero⟩ := Prog.bind_ended hrow
    cases hzero
    by_cases hok : Calm fs₁ 1 ∧ (t.upsertSource e.source).view e.view.id = none ∧
        ((t.upsertSource e.source).sources e.view.sourceId).isSome = true
    · rw [insertRow_eq json _ _ hok.1 hok.2.1 hok.2.2] at hinsert
      cases hinsert
      have hwrote := wrote_withRow json hkeyed' ViewRole.derived.token 0 hvalid hok.2.1 hfit
      exact .inl ⟨hok.2.1, hwrote.1, hwrote.2, hwrote.3, hwrote.4, hwrote.5, hwrote.6⟩
    · obtain ⟨stop, hstop⟩ := insertRow_stopped json ViewRole.derived.token 0 hok
      rw [hinsert] at hstop
      cases hstop
  | some expected =>
    rw [hexpected] at hrow
    obtain ⟨⟨old, hold, -⟩, -, rfl⟩ := advanceRow_ended hkeyed' hrow
    have hwrote := wrote_withReplaced json hkeyed' version hvalid hold hfit
    exact .inr ⟨old, hold, hwrote.1, hwrote.2, hwrote.3, hwrote.4, hwrote.5, hwrote.6⟩

/-- Saves, one after the other. -/
inductive Serial (json : Json R) : Tables M → List (Save R) → Tables M → Prop
  | nil (t : Tables M) : Serial json t [] t
  | cons {t t₁ t' : Tables M} {x : Save R} {rest : List (Save R)} (first : x.Done json t t₁)
      (later : Serial json t₁ rest t') : Serial json t (x :: rest) t'

theorem Save.Done.keyed {x : Save R} (h : x.Done json t t') : t'.Keyed := by
  obtain ⟨-, h⟩ | ⟨old, -, h⟩ := h
  · exact h.keyed
  · exact h.keyed

theorem Save.Done.serial {x : Save R} (h : x.Done json t t') :
    Serial json t [x] t' := .cons h (.nil t')

theorem saveSourceAndView_ended (hkeyed : t.Keyed)
    (h : saveSourceAndView json validateSource e t fs = (.ok version, t', fs')) :
    Save.Done json t ⟨e.view, .derived, version⟩ t' := by
  obtain ⟨a, t₁, fs₁, hcheck, htransaction⟩ := Prog.bind_ended h
  obtain ⟨hvalid, rfl, rfl⟩ := check_run hcheck
  obtain ⟨fs₂, hbody⟩ := Prog.transaction_ok (congrArg Prod.fst htransaction)
  rw [htransaction] at hbody
  refine saveBody_ended hkeyed ?_ hbody
  -- the checks of the entry are those of its view, among others
  unfold Entry.check at hvalid
  cases hsource : validateSource e.source with
  | error error =>
    rw [hsource] at hvalid
    cases hvalid
  | ok u =>
    cases hview : validateWorkingView e.view with
    | error error =>
      rw [hsource, hview] at hvalid
      cases hvalid
    | ok u => rfl

/-! ### The saves of a batch -/

/-- The entries whose save reported a version. -/
def savedEntries (items : List (Entry R M)) (outcomes : List (Except MemoryError UInt64)) : List (Save R) :=
  (items.zip outcomes).filterMap fun x =>
    match x.2 with
    | .ok version => some ⟨x.1.view, .derived, version⟩
    | .error _ => none

theorem saveSourceAndView_stopped {stop : Stop MemoryError}
    (h : saveSourceAndView json validateSource e t fs = (.error stop, t', fs')) : t' = t := by
  have hatomic : Prog.AllOrNothing (saveSourceAndView json validateSource e) t fs := by
    refine Prog.allOrNothing_bind (Prog.allOrNothing_check _) fun u t fs' hcheck => ?_
    obtain ⟨-, rfl, rfl⟩ := check_run hcheck
    exact ⟨rfl, Prog.allOrNothing_transaction _⟩
  have := hatomic stop (congrArg Prod.fst h)
  rwa [h] at this

/-- What a batch has saved: one view after the other, and no view twice. -/
theorem saveSerially_ended (hkeyed : t.Keyed) {seen : List ViewId} {items : List (Entry R M)}
    {outcomes : List (Except MemoryError UInt64)}
    (h : saveSerially json validateSource seen items t fs = (.ok outcomes, t', fs')) :
    Serial json t (savedEntries items outcomes) t' ∧
      ((savedEntries items outcomes).map fun x => x.view.id).Nodup ∧
        ∀ x ∈ savedEntries items outcomes, x.view.id ∉ seen := by
  induction items generalizing t seen outcomes fs with
  | nil =>
    cases h
    exact ⟨.nil _, nodup_nil, fun x hx => (not_mem_nil hx).elim⟩
  | cons e rest ih =>
    unfold saveSerially at h
    -- an entry that is attempted is saved, or it leaves the tables
    have hattempt {seen' : List ViewId} (hseen' : ∀ id ∈ seen, id ∈ seen')
        (hself : (e.check validateSource) = .ok () → e.view.id ∉ seen ∧ e.view.id ∈ seen')
        (h : (do
          let outcome ← Prog.attempt (saveSourceAndView json validateSource e)
          let outcomes ← saveSerially json validateSource seen' rest
          return outcome :: outcomes) t fs = (.ok outcomes, t', fs')) :
        Serial json t (savedEntries (e :: rest) outcomes) t' ∧
          ((savedEntries (e :: rest) outcomes).map fun x => x.view.id).Nodup ∧
            ∀ x ∈ savedEntries (e :: rest) outcomes, x.view.id ∉ seen := by
      obtain ⟨outcome, t₁, fs₁, hfirst, hrest⟩ := Prog.bind_ended h
      obtain ⟨outcomes', t₂, fs₂, hlater, hpure⟩ := Prog.bind_ended hrest
      cases hpure
      obtain ⟨version, rfl, hsave⟩ | ⟨error, rfl, hsave⟩ := Prog.attempt_ended hfirst
      · have hdone := saveSourceAndView_ended hkeyed hsave
        obtain ⟨hserial, hnodup, hnew⟩ := ih hdone.keyed hlater
        have hcheck : e.check validateSource = .ok () := by
          obtain ⟨a, t₃, fs₃, hcheck, -⟩ := Prog.bind_ended hsave
          exact (check_run hcheck).1
        refine ⟨.cons hdone hserial, nodup_cons.2 ⟨fun hmem => ?_, hnodup⟩, fun x hx => ?_⟩
        · obtain ⟨x, hx, hid⟩ := mem_map.1 hmem
          exact hnew x hx (hid ▸ (hself hcheck).2)
        · obtain rfl | hx := mem_cons.1 hx
          · exact (hself hcheck).1
          · exact fun hseen => hnew x hx (hseen' _ hseen)
      · obtain rfl := saveSourceAndView_stopped hsave
        obtain ⟨hserial, hnodup, hnew⟩ := ih hkeyed hlater
        exact ⟨hserial, hnodup, fun x hx hseen => hnew x hx (hseen' _ hseen)⟩
    cases hcheck : e.check validateSource with
    | error error =>
      rw [hcheck] at h
      exact hattempt (fun _ hid => hid) (fun hok => by rw [hcheck] at hok; cases hok) h
    | ok u =>
      rw [hcheck] at h
      dsimp only at h
      by_cases hseen : e.view.id ∈ seen
      · rw [if_pos hseen] at h
        obtain ⟨outcomes', t₁, fs₁, hlater, hpure⟩ := Prog.bind_ended h
        cases hpure
        exact ih hkeyed hlater
      · rw [if_neg hseen] at h
        exact hattempt (fun _ hid => mem_cons_of_mem _ hid) (fun _ => ⟨hseen, mem_cons_self⟩) h

end Lvu.Store
