import Lvu.Machine.Outcome
import Lvu.Store.Effects

/-!
# The stores that there are

What every operation keeps of the tables, whatever befalls its statements
(`lvu-memory/src/store.rs`): views are keyed, and bookmarks have the sequences of records.

* `ViewWrite.sound` : one operation keeps it.
* `reachable_workspace` : so it holds of every store that can be reached.
-/

namespace Lvu.Store

variable {R M : Type}

/-- The sequences of the bookmarks are what `to_i64` makes of a number. -/
def Tables.Ranged (t : Tables M) : Prop :=
  ∀ source, ∀ row ∈ (t.bookmarks source).rows, 0 ≤ row.1 ∧ row.1 < 9223372036854775808

/-- What the operations keep of a store, whatever befalls them. -/
def Tables.Sound (t : Tables M) : Prop := t.Keyed ∧ t.Ranged

variable {t : Tables M} {I : Tables M → Prop}

theorem sound_clearBookmarks (h : t.Sound) (source : SourceId) :
    (t.clearBookmarks source).Sound := by
  refine ⟨h.1, fun id row hrow => ?_⟩
  rw [Tables.clearBookmarks] at hrow
  dsimp only at hrow
  by_cases hid : id = source
  · rw [if_pos hid] at hrow
    exact (List.not_mem_nil hrow).elim
  · rw [if_neg hid] at hrow
    exact h.2 id row hrow

theorem sound_insertBookmark (h : t.Sound) (source : SourceId) {value : UInt64} {sequence : ℤ}
    (hsequence : toI64 value = .ok sequence) (note : String) :
    (t.insertBookmark source sequence note).Sound := by
  refine ⟨h.1, fun id row hrow => ?_⟩
  rw [Tables.insertBookmark] at hrow
  dsimp only at hrow
  by_cases hid : id = source
  · rw [if_pos hid, Table.mem_insert] at hrow
    obtain rfl | ⟨hrow, -⟩ := hrow
    · unfold toI64 at hsequence
      split at hsequence
      · cases hsequence
        exact ⟨by omega, by omega⟩
      · cases hsequence
    · exact h.2 id row hrow
  · rw [if_neg hid] at hrow
    exact h.2 id row hrow

theorem sound_insertView {t' : Tables M} (h : t.Sound) {row : ViewRow}
    (hinsert : t.insertView row = .ok t') : t'.Sound := by
  unfold Tables.insertView at hinsert
  split at hinsert
  · cases hinsert
  · rename_i hnew
    split at hinsert
    · cases hinsert
    · cases hinsert
      exact ⟨keyed_withRow h.1 _ (Option.not_isSome_iff_eq_none.1 hnew), h.2⟩

theorem sound_updateView (h : t.Sound) (id : ViewId) (version : ℤ) (row : ViewRow) :
    (t.updateView id version row).2.Sound := by
  refine ⟨?_, h.2⟩
  have hids : (t.updateView id version row).2.views.map ViewRow.id = t.views.map ViewRow.id := by
    rw [Tables.updateView]
    dsimp only
    rw [List.map_map]
    refine List.map_congr_left fun r _ => ?_
    rw [Function.comp_apply]
    split <;> rfl
  rw [Tables.Keyed, hids]
  exact h.1

theorem sound_deleteView (h : t.Sound) (id : ViewId) (source : SourceId) :
    (t.deleteView id source).Sound :=
  ⟨(List.filter_sublist.map ViewRow.id).nodup h.1, h.2⟩

theorem sound_renameView (h : t.Sound) {target : ViewId} (hfree : t.view target = none)
    (start : ViewId) (source : SourceId) : (t.renameView target start source).Sound := by
  refine ⟨?_, h.2⟩
  have hids : (t.renameView target start source).views.map ViewRow.id =
      t.views.map fun r => if r.id = start ∧ r.sourceId = source then target else r.id := by
    rw [Tables.renameView]
    dsimp only
    rw [List.map_map]
    refine List.map_congr_left fun r _ => ?_
    rw [Function.comp_apply]
    split <;> rfl
  rw [Tables.Keyed, hids]
  refine List.Nodup.map_on (fun a ha b hb heq => ?_) (List.Nodup.of_map _ h.1)
  have hne := view_eq_none.1 hfree
  by_cases hra : a.id = start ∧ a.sourceId = source
  · by_cases hrb : b.id = start ∧ b.sourceId = source
    · exact List.inj_on_of_nodup_map h.1 ha hb (hra.1.trans hrb.1.symm)
    · rw [if_pos hra, if_neg hrb] at heq
      exact absurd heq.symm (hne b hb)
  · by_cases hrb : b.id = start ∧ b.sourceId = source
    · rw [if_neg hra, if_pos hrb] at heq
      exact absurd heq (hne a ha)
    · rw [if_neg hra, if_neg hrb] at heq
      exact List.inj_on_of_nodup_map h.1 ha hb heq

theorem keeps_check_bind {A B : Type} {x : Except MemoryError A}
    {q : A → Prog (Tables M) MemoryError B} (h : ∀ a, x = .ok a → Prog.Keeps I (q a)) :
    Prog.Keeps I (Prog.check x >>= q) := by
  cases x with
  | ok a => exact fun t fs ht => h a rfl t fs ht
  | error e => exact fun t fs ht => ht

theorem sound_insertBookmarks (source : SourceId) (l : List StoredBookmark) :
    Prog.Keeps (Tables.Sound (M := M)) (insertBookmarks source l) := by
  induction l with
  | nil => exact Prog.keeps_pure ()
  | cons b rest ih =>
    refine keeps_check_bind fun sequence hsequence => ?_
    exact (Prog.keeps_write fun t ht => sound_insertBookmark ht source hsequence b.note).bind fun _ => ih

theorem sound_writeSourceBookmarks (sources : List SourceId) (bookmarks : List StoredBookmark) :
    Prog.Keeps (Tables.Sound (M := M)) (writeSourceBookmarks sources bookmarks) := by
  induction sources with
  | nil => exact Prog.keeps_pure ()
  | cons source rest ih =>
    refine (Prog.keeps_write fun t ht => sound_clearBookmarks ht source).bind fun _ => ?_
    exact (sound_insertBookmarks source _).bind fun _ => ih

theorem sound_insertRow (json : Json R) (v : View R) (role : String) (version : ℤ) :
    Prog.Keeps (Tables.Sound (M := M)) (insertRow json v role version) :=
  Prog.keeps_statement fun t a t' ht heq => by
    obtain ⟨t'', hinsert, heq⟩ := Outcome.bind_eq_ok.1 heq
    cases heq
    exact sound_insertView ht hinsert

theorem sound_advanceRow (json : Json R) (v : View R) (expected : UInt64) :
    Prog.Keeps (Tables.Sound (M := M)) (advanceRow json v expected) := by
  refine (Prog.keeps_check _).bind fun next => ?_
  refine (Prog.keeps_check _).bind fun version => ?_
  refine (Prog.keeps_check _).bind fun old => ?_
  refine Prog.Keeps.bind ?_ fun _ => Prog.keeps_pure _
  refine (Prog.keeps_statement fun t a t' ht heq => ?_).bind fun changed => ?_
  · cases heq
    exact sound_updateView ht _ _ _
  · split
    · exact Prog.keeps_check _
    · exact Prog.keeps_pure _

theorem sound_createView (json : Json R) (v : View R) : Prog.Keeps (Tables.Sound (M := M)) (createView json v) := by
  refine Prog.Keeps.bind ?_ fun _ => sound_writeSourceBookmarks _ _
  refine (Prog.keeps_check _).bind fun _ => (Prog.keeps_check _).bind fun version => ?_
  exact sound_insertRow json v _ version

theorem sound_updateView_op (json : Json R) (v : View R) (expected : UInt64) :
    Prog.Keeps (Tables.Sound (M := M)) (updateView json v expected) := by
  refine Prog.Keeps.bind ?_ fun next => (sound_writeSourceBookmarks _ _).bind fun _ => Prog.keeps_pure _
  exact (Prog.keeps_check _).bind fun _ => sound_advanceRow json v expected

theorem sound_saveBody (json : Json R) (e : Entry R M) : Prog.Keeps Tables.Sound (saveBody json e) := by
  refine (Prog.keeps_write (f := fun t : Tables M => t.upsertSource e.source) fun t ht => ht).bind fun _ => ?_
  refine Prog.Keeps.bind ?_ fun version => (sound_writeSourceBookmarks _ _).bind fun _ => Prog.keeps_pure _
  unfold writeRow
  cases e.expected with
  | none => exact (sound_insertRow json e.view _ 0).bind fun _ => Prog.keeps_pure _
  | some expected => exact sound_advanceRow json e.view expected

theorem sound_saveSourcesAndViews (json : Json R) (validateSource : SourceMetadata M → Except MemoryError Unit)
    (items : List (Entry R M)) : Prog.Keeps Tables.Sound (saveSourcesAndViews json validateSource items) := by
  have hbatch : Prog.Keeps Tables.Sound (saveBatch json (checkEntries validateSource [] items)) := by
    refine (Prog.keeps_sequence fun p hp => ?_).transaction
    obtain ⟨⟨e, refused | ok⟩, -, rfl⟩ := List.mem_map.1 hp
    · exact Prog.keeps_pure _
    · exact (sound_saveBody json e).savepoint
  unfold saveSourcesAndViews
  dsimp only
  split
  · exact Prog.keeps_pure _
  · refine hbatch.attempt.bind fun r => ?_
    cases r with
    | ok outcomes | error e => exact Prog.keeps_pure _

/-- What a program does after a read is what it does here with what is read. -/
theorem keeps_read {A B : Type} {f : Tables M → Except MemoryError A}
    {q : A → Prog (Tables M) MemoryError B} (ht : I t) (fs : List (Fault MemoryError))
    (h : ∀ a fs', f t = .ok a → I (q a t fs').2.1) :
    I ((Prog.statement (fun t => (f t).map fun x => (x, t)) >>= q) t fs).2.1 := by
  obtain ⟨a, -, hf, hread⟩ | ⟨-, stop, hstop⟩ := statement_read_cases f t fs
  · rw [Prog.bind_of_ok hread]
    exact h a _ hf
  · rw [Prog.bind_of_error hstop]
    exact ht

theorem keeps_requireView (json : Json R) (id : ViewId) :
    Prog.Keeps I (Prog.statement fun t => requireView json t id) :=
  Prog.keeps_statement fun t v t' ht heq => by
    unfold requireView at heq
    obtain ⟨view, hget, heq⟩ := Outcome.bind_eq_ok.1 heq
    cases view with
    | none => cases heq
    | some view =>
      cases heq
      exact ht

theorem keeps_deleteView (id : ViewId) (source : SourceId) (v : View R) :
    Prog.Keeps Tables.Sound (do
      Prog.write fun t => t.deleteView id source
      return v : Prog (Tables M) MemoryError (View R)) :=
  (Prog.keeps_write fun _ ht => sound_deleteView ht id source).bind fun _ => Prog.keeps_pure v

theorem sound_adoptLegacyCanonicalView (json : Json R) (source : SourceId) (start target : ViewId) :
    Prog.Keeps (Tables.Sound (M := M)) (adoptLegacyCanonicalView json source start target) := by
  intro t fs ht
  refine keeps_read (f := fun t => .ok (t.view target).isNone) ht fs fun free fs' hfree => ?_
  cases hview : t.view target with
  | none =>
    rw [hview] at hfree
    cases hfree
    -- the identity is free when the row is renamed
    rw [if_pos Option.isNone_none]
    by_cases hcalm : ∀ x ∈ fs'.head?, x = Fault.none
    · rw [Prog.bind_of_ok (write_of_calm hcalm)]
      exact keeps_requireView json target _ _ (sound_renameView ht hview start source)
    · obtain ⟨stop, hstop⟩ := write_of_fault (fun t : Tables M => t.renameView target start source) t hcalm
      rw [Prog.bind_of_error hstop]
      exact ht
  | some row =>
    rw [hview] at hfree
    cases hfree
    refine keeps_read ht fs' fun survivor fs'' _ => ?_
    cases survivor with
    | none => exact keeps_requireView json start t fs'' ht
    | some survivor =>
      dsimp only
      split
      · exact keeps_deleteView start source survivor t fs'' ht
      · exact keeps_requireView json start t fs'' ht

theorem sound_allocateCanonicalView [Inhabited R] (json : Json R) (source : SourceId) (name : String)
    (attempts : ℕ) (candidate : ViewId) :
    Prog.Keeps (Tables.Sound (M := M)) (allocateCanonicalView json source name attempts candidate) := by
  induction attempts generalizing candidate with
  | zero => exact Prog.keeps_check _
  | succ attempts ih =>
    intro t fs ht
    rw [allocateCanonicalView]
    refine keeps_read (f := fun t => .ok (t.view candidate).isNone) ht fs fun free fs' _ => ?_
    cases free with
    | true => exact ((sound_createView json _).bind fun _ => Prog.keeps_pure _) t fs' ht
    | false => exact ih (nextId candidate) t fs' ht

theorem sound_ensureCanonicalView [Inhabited R] (json : Json R) (source : SourceId) (preferred : ViewId)
    (legacy : Option ViewId) (name : String) :
    Prog.Keeps (Tables.Sound (M := M)) (ensureCanonicalView json source preferred legacy name) := by
  intro t fs ht
  rw [ensureCanonicalView]
  refine keeps_read ht fs fun existing fs' _ => ?_
  cases existing with
  | none =>
    dsimp only
    split
    · exact ht
    · exact sound_allocateCanonicalView json source name _ preferred t fs' ht
  | some existing =>
    dsimp only
    split
    · cases legacy with
      | none => exact ht
      | some legacy =>
        dsimp only
        split
        · exact ht
        · exact keeps_deleteView legacy source existing t fs' ht
    · split
      · exact sound_adoptLegacyCanonicalView json source existing.id preferred t fs' ht
      · exact ht

namespace ViewWrite

/-- The tables after the operation. -/
def tables [Inhabited R] (json : Json R) (validateSource : SourceMetadata M → Except MemoryError Unit)
    (t : Tables M) (fs : List (Fault MemoryError)) : ViewWrite R M → Tables M
  | createView v => (Store.createView json v t fs).2.1
  | updateView v expected => (Store.updateView json v expected t fs).2.1
  | ensureCanonicalView source preferred legacy name =>
    (Store.ensureCanonicalView json source preferred legacy name t fs).2.1
  | saveSourceAndView e => (Store.saveSourceAndView json validateSource e t fs).2.1
  | saveSourcesAndViews items => (Store.saveSourcesAndViews json validateSource items t fs).2.1

theorem sound [Inhabited R] (json : Json R)
    (validateSource : SourceMetadata M → Except MemoryError Unit) (ht : t.Sound)
    (fs : List (Fault MemoryError)) (w : ViewWrite R M) :
    (w.tables json validateSource t fs).Sound := by
  cases w with
  | createView v => exact sound_createView json v t fs ht
  | updateView v expected => exact sound_updateView_op json v expected t fs ht
  | ensureCanonicalView source preferred legacy name =>
    exact sound_ensureCanonicalView json source preferred legacy name t fs ht
  | saveSourceAndView e =>
    exact ((Prog.keeps_check _).bind fun _ => (sound_saveBody json e).transaction) t fs ht
  | saveSourcesAndViews items => exact sound_saveSourcesAndViews json validateSource items t fs ht

end ViewWrite

/-- A store that can be: its views are keyed, and its bookmarks have the sequences of records. -/
structure Workspace (M : Type) extends Database M where
  ranged : toTables.Ranged

/-- What becomes of the tables, step by step: the sources are written by other operations too. -/
inductive StoreStep [Inhabited R] (json : Json R) (validateSource : SourceMetadata M → Except MemoryError Unit) :
    Tables M → Tables M → Prop
  | sources (t : Tables M) (sources : SourceId → Option (SourceMetadata M)) :
    StoreStep json validateSource t { t with sources }
  | write (t : Tables M) (w : ViewWrite R M) (fs : List (Fault MemoryError)) :
    StoreStep json validateSource t (w.tables json validateSource t fs)

/-- **What can be reached from no tables is a store that can be**, whatever befell the operations. -/
theorem reachable_workspace [Inhabited R] {json : Json R}
    {validateSource : SourceMetadata M → Except MemoryError Unit}
    (h : Relation.ReflTransGen (StoreStep json validateSource) .empty t) :
    ∃ s : Workspace M, s.toTables = t := by
  have hsound : t.Sound := by
    induction h with
    | refl => exact ⟨List.nodup_nil, fun _ row hrow => (List.not_mem_nil hrow).elim⟩
    | tail _ hstep ih =>
      cases hstep with
      | sources sources => exact ih
      | write w fs => exact w.sound json validateSource ih fs
  exact ⟨⟨⟨t, hsound.1⟩, hsound.2⟩, rfl⟩

/-- A view is created although its bookmark is not. -/
theorem reachable_workspace_marked :
    let json : Json Unit := ⟨fun _ => [], fun _ => none⟩
    ∃ s : Workspace Unit, s.toTables =
      (ViewWrite.createView lastMarked).tables json (fun _ => .ok ()) sourceOnly.toTables [] :=
  reachable_workspace (.tail (.single (.sources _ _)) (.write _ (.createView lastMarked) []))

end Lvu.Store
