import Lvu.Machine.Outcome
import Lvu.Store.Workspace

/-!
# Bookmarks and their rows

How the bookmarks of some sources are read and replaced (`read_source_bookmarks`,
`write_source_bookmarks` of `lvu-memory/src/store.rs`).

* `readSourceBookmarks_eq` : what is read is the beginning of the rows of all the sources.
* `writeSourceBookmarks_eq` : when all that is written fits the column and no statement fails, the
  rows of the sources are replaced.
* `writeSourceBookmarks_stopped` : otherwise it stops.
* `validBookmark_of_source` : a bookmark at one of a view's sources passes the checks.
-/

namespace Lvu.Store

open List

variable {R M : Type}

/-! ### Reading -/

/-- The bookmarks of a source. -/
def Tables.marks (t : Tables M) (source : SourceId) : List StoredBookmark :=
  (t.bookmarks source).rows.map (bookmarkOf source)

variable {t : Tables M} {b : StoredBookmark} {sources : List SourceId}
  {fs : List (Fault MemoryError)} {n m : ℕ} {v : View R} {json : Json R} {id : ViewId}

theorem sourceId_of_mem_marks {source : SourceId} (h : b ∈ t.marks source) :
    b.record.sourceId = source := by
  obtain ⟨row, -, rfl⟩ := mem_map.1 h
  rfl

/-- What is read is the beginning of the rows of all the sources together. -/
theorem readSourceBookmarks_eq (t : Tables M) (sources : List SourceId) :
    readSourceBookmarks t sources = (sources.flatMap t.marks).take MAX_SOURCE_BOOKMARKS := by
  have hfold (read : List StoredBookmark) (h : read.length ≤ MAX_SOURCE_BOOKMARKS) :
      sources.foldl (fun bookmarks source => bookmarks ++
        ((t.bookmarks source).rows.take (MAX_SOURCE_BOOKMARKS - bookmarks.length)).map
          (bookmarkOf source)) read = (read ++ sources.flatMap t.marks).take MAX_SOURCE_BOOKMARKS := by
    induction sources generalizing read with
    | nil => rw [foldl_nil, flatMap_nil, append_nil, take_of_length_le h]
    | cons source rest ih =>
      have hnext : read ++ ((t.bookmarks source).rows.take (MAX_SOURCE_BOOKMARKS - read.length)).map
          (bookmarkOf source) = (read ++ t.marks source).take MAX_SOURCE_BOOKMARKS := by
        rw [take_append, take_of_length_le h, Tables.marks, map_take]
      have hcut (l l' : List StoredBookmark) :
          (l.take MAX_SOURCE_BOOKMARKS ++ l').take MAX_SOURCE_BOOKMARKS =
            (l ++ l').take MAX_SOURCE_BOOKMARKS := by
        rw [take_append, take_append, take_take, Nat.min_self, length_take]
        congr 2
        omega
      rw [foldl_cons, hnext, ih _ (length_take_le _ _), hcut, append_assoc,
        flatMap_cons]
  exact hfold [] (Nat.zero_le _)

theorem readSourceBookmarks_all (h : (sources.flatMap t.marks).length ≤ MAX_SOURCE_BOOKMARKS) :
    readSourceBookmarks t sources = sources.flatMap t.marks := by
  rw [readSourceBookmarks_eq, take_of_length_le h]

/-! ### Writing -/

/-- The rows of some bookmarks of a source, one after the other. -/
def insertBookmarks (source : SourceId) : List StoredBookmark → Prog (Tables M) MemoryError Unit
  | [] => pure ()
  | b :: rest => do
    let sequence ← Prog.check (toI64 b.record.sequence)
    Prog.write fun t => t.insertBookmark source sequence b.note
    insertBookmarks source rest

/-- The bookmarks that are written for a source. -/
def bookmarksFor (source : SourceId) (bookmarks : List StoredBookmark) : List StoredBookmark :=
  (bookmarks.filter fun b => decide (b.record.sourceId = source)).take MAX_SOURCE_BOOKMARKS

def writeSourceBookmarks : List SourceId → List StoredBookmark → Prog (Tables M) MemoryError Unit
  | [], _ => pure ()
  | source :: rest, bookmarks => do
    Prog.write fun t => t.clearBookmarks source
    insertBookmarks source (bookmarksFor source bookmarks)
    writeSourceBookmarks rest bookmarks

/-- The sequence is a number of the column. -/
def Fits (b : StoredBookmark) : Prop := b.record.sequence.toNat < 9223372036854775808

instance (b : StoredBookmark) : Decidable (Fits b) := inferInstanceAs (Decidable (_ < _))

/-- The row of a bookmark. -/
def rowOf (b : StoredBookmark) : ℤ × String := (b.record.sequence.toNat, b.note)

theorem bookmarkOf_rowOf (b : StoredBookmark) : bookmarkOf b.record.sourceId (rowOf b) = b := by
  cases b
  simp [bookmarkOf, rowOf]

theorem toI64_of_fits (h : Fits b) : toI64 b.record.sequence = .ok (rowOf b).1 :=
  if_pos h

theorem toI64_of_not_fits (h : ¬ Fits b) :
    toI64 b.record.sequence = .error (.invalidData "integer exceeds SQLite range") := if_neg h

/-- Nothing befalls the next statements. -/
def Calm (fs : List (Fault MemoryError)) (n : ℕ) : Prop := ∀ x ∈ fs.take n, x = .none

instance (fs : List (Fault MemoryError)) (n : ℕ) : Decidable (Calm fs n) :=
  inferInstanceAs (Decidable (∀ x ∈ fs.take n, x = .none))

theorem Calm.head (h : Calm fs (n + 1)) : ∀ x ∈ fs.head?, x = .none := by
  cases fs with
  | nil => exact fun _ hx => by cases hx
  | cons y fs =>
    rintro x ⟨rfl⟩
    exact h y (by simp)

theorem Calm.tail (h : Calm fs (n + 1)) : Calm fs.tail n := by
  cases fs with
  | nil => exact fun x hx => by simp at hx
  | cons y fs => exact fun x hx => h x (mem_cons_of_mem _ hx)

theorem Calm.mono (h : Calm fs n) (hmn : m ≤ n) :
    Calm fs m := fun x hx => h x ((take_sublist_take_left hmn).subset hx)

theorem Calm.drop (h : Calm fs (m + n)) :
    Calm (fs.drop m) n := fun x hx => h x (by
  rw [take_drop] at hx
  exact mem_of_mem_drop hx)

theorem calm_succ (h : ∀ x ∈ fs.head?, x = .none) (htail : Calm fs.tail n) : Calm fs (n + 1) := by
  cases fs with
  | nil => exact fun x hx => by simp at hx
  | cons y fs =>
    intro x hx
    obtain rfl | hx := mem_cons.1 hx
    · exact h x rfl
    · exact htail x hx

theorem calm_add (h : Calm fs m) (hdrop : Calm (fs.drop m) n) : Calm fs (m + n) := by
  intro x hx
  rw [take_add, mem_append] at hx
  exact hx.elim (h x) (hdrop x)

@[simp] theorem calm_nil (n : ℕ) : Calm [] n := fun x hx => by simp at hx

theorem write_of_calm {f : Tables M → Tables M} (h : ∀ x ∈ fs.head?, x = .none) :
    Prog.write f t fs = (.ok (), f t, fs.tail) :=
  Prog.statement_of_none h

theorem write_of_fault (f : Tables M → Tables M) (t : Tables M) (h : ¬ ∀ x ∈ fs.head?, x = .none) :
    ∃ stop, Prog.write f t fs = (.error stop, t, fs.tail) := by
  cases fs with
  | nil => exact absurd (fun x hx => by cases hx) h
  | cons x fs =>
    have hx : x ≠ .none := fun heq => h fun y hy => by
      cases hy
      exact heq
    obtain ⟨stop, hstop⟩ := Prog.statement_of_fault (fun t => .ok ((), f t)) fs hx
    exact ⟨stop, hstop t⟩

/-- The rows of a source with more rows. -/
def Tables.addRows (t : Tables M) (source : SourceId) (l : List StoredBookmark) : Tables M :=
  { t with
    bookmarks := fun id =>
      if id = source then (l.map rowOf).foldl (fun rows x => rows.insert x.1 x.2) (t.bookmarks id)
      else t.bookmarks id }

theorem insertBookmark_addRows (t : Tables M) (source : SourceId) (b : StoredBookmark)
    (l : List StoredBookmark) :
    (t.insertBookmark source (rowOf b).1 b.note).addRows source l = t.addRows source (b :: l) := by
  simp only [Tables.addRows, Tables.insertBookmark, Tables.mk.injEq, true_and]
  funext id
  by_cases h : id = source
  · rw [if_pos h, if_pos h, if_pos h, map_cons, foldl_cons]
    rfl
  · rw [if_neg h, if_neg h, if_neg h]

theorem insertBookmarks_eq (source : SourceId) {l : List StoredBookmark} (hfits : ∀ b ∈ l, Fits b)
    (hcalm : Calm fs l.length) :
    insertBookmarks source l t fs = (.ok (), t.addRows source l, fs.drop l.length) := by
  induction l generalizing t fs with
  | nil =>
    rw [insertBookmarks, Prog.pure_apply]
    simp only [Tables.addRows, map_nil, foldl_nil, ite_self, length_nil, drop_zero]
  | cons b rest ih =>
    have hsequence : Prog.check (toI64 b.record.sequence) t fs = (.ok (rowOf b).1, t, fs) := by
      rw [toI64_of_fits (hfits b (by simp)), Prog.check_ok]
    rw [insertBookmarks, Prog.bind_of_ok hsequence, Prog.bind_of_ok (write_of_calm hcalm.head),
      ih (fun b hb => hfits b (mem_cons_of_mem _ hb)) hcalm.tail, insertBookmark_addRows,
      length_cons, drop_tail]

theorem insertBookmarks_stopped {source : SourceId} {l : List StoredBookmark}
    (h : ¬ ((∀ b ∈ l, Fits b) ∧ Calm fs l.length)) :
    ∃ stop, (insertBookmarks source l t fs).1 = .error stop := by
  induction l generalizing t fs with
  | nil => exact absurd ⟨fun _ hb => (not_mem_nil hb).elim, fun x hx => by simp at hx⟩ h
  | cons b rest ih =>
    rw [insertBookmarks]
    by_cases hb : Fits b
    · have hsequence : Prog.check (toI64 b.record.sequence) t fs = (.ok (rowOf b).1, t, fs) := by
        rw [toI64_of_fits hb, Prog.check_ok]
      rw [Prog.bind_of_ok hsequence]
      by_cases hhead : ∀ x ∈ fs.head?, x = .none
      · rw [Prog.bind_of_ok (write_of_calm hhead)]
        refine ih fun hrest => h ⟨fun c hc => ?_, calm_succ hhead hrest.2⟩
        obtain rfl | hc := mem_cons.1 hc
        · exact hb
        · exact hrest.1 c hc
      · obtain ⟨stop, hstop⟩ := write_of_fault (fun t => t.insertBookmark source (rowOf b).1 b.note) t
          hhead
        rw [Prog.bind_of_error hstop]
        exact ⟨stop, rfl⟩
    · have hsequence : Prog.check (toI64 b.record.sequence) t fs =
          (.error (.error (.invalidData "integer exceeds SQLite range")), t, fs) := by
        rw [toI64_of_not_fits hb, Prog.check_error]
      rw [Prog.bind_of_error hsequence]
      exact ⟨_, rfl⟩

/-- The rows of the sources are replaced. -/
def Tables.replaceBookmarks (t : Tables M) (sources : List SourceId) (bookmarks : List StoredBookmark) :
    Tables M :=
  { t with
    bookmarks := fun id =>
      if id ∈ sources then .ofList ((bookmarksFor id bookmarks).map rowOf) else t.bookmarks id }

/-- The statements that write some bookmarks. -/
def writeCount (sources : List SourceId) (bookmarks : List StoredBookmark) : ℕ :=
  (sources.map fun source => (bookmarksFor source bookmarks).length + 1).sum

/-- All that is written fits the column. -/
def AllFit (sources : List SourceId) (bookmarks : List StoredBookmark) : Prop :=
  ∀ source ∈ sources, ∀ b ∈ bookmarksFor source bookmarks, Fits b

instance (sources : List SourceId) (bookmarks : List StoredBookmark) :
    Decidable (AllFit sources bookmarks) :=
  inferInstanceAs (Decidable (∀ source ∈ sources, ∀ b ∈ bookmarksFor source bookmarks, Fits b))

theorem addRows_clearBookmarks (t : Tables M) (source : SourceId) (bookmarks : List StoredBookmark) :
    (t.clearBookmarks source).addRows source (bookmarksFor source bookmarks) =
      t.replaceBookmarks [source] bookmarks := by
  simp only [Tables.addRows, Tables.clearBookmarks, Tables.replaceBookmarks, Tables.mk.injEq, true_and]
  funext id
  by_cases h : id = source
  · rw [if_pos h, if_pos h, if_pos (by simp [h]), Table.ofList, h]
  · rw [if_neg h, if_neg h, if_neg (by simp [h])]

theorem replaceBookmarks_cons (t : Tables M) (source : SourceId) (rest : List SourceId)
    (bookmarks : List StoredBookmark) :
    (t.replaceBookmarks [source] bookmarks).replaceBookmarks rest bookmarks =
      t.replaceBookmarks (source :: rest) bookmarks := by
  simp only [Tables.replaceBookmarks, Tables.mk.injEq, true_and]
  funext id
  by_cases hrest : id ∈ rest
  · rw [if_pos hrest, if_pos (mem_cons_of_mem _ hrest)]
  · by_cases h : id = source
    · rw [if_neg hrest, if_pos (by simp [h]), if_pos (by simp [h])]
    · rw [if_neg hrest, if_neg (by simp [h]), if_neg (by simp [h, hrest])]

theorem writeSourceBookmarks_eq {bookmarks : List StoredBookmark} (hfit : AllFit sources bookmarks)
    (hcalm : Calm fs (writeCount sources bookmarks)) :
    writeSourceBookmarks sources bookmarks t fs =
      (.ok (), t.replaceBookmarks sources bookmarks, fs.drop (writeCount sources bookmarks)) := by
  induction sources generalizing t fs with
  | nil =>
    rw [writeSourceBookmarks, Prog.pure_apply]
    simp [Tables.replaceBookmarks, writeCount]
  | cons source rest ih =>
    have hcount : writeCount (source :: rest) bookmarks =
        ((bookmarksFor source bookmarks).length + writeCount rest bookmarks) + 1 := by
      simp only [writeCount, map_cons, sum_cons]
      omega
    rw [hcount] at hcalm ⊢
    have hinsert := insertBookmarks_eq source (hfit source (by simp))
      (t := t.clearBookmarks source) (hcalm.tail.mono (Nat.le_add_right _ _))
    rw [addRows_clearBookmarks] at hinsert
    rw [writeSourceBookmarks, Prog.bind_of_ok (write_of_calm hcalm.head), Prog.bind_of_ok hinsert,
      ih (fun source hsource => hfit source (mem_cons_of_mem _ hsource)) hcalm.tail.drop,
      replaceBookmarks_cons, drop_drop, drop_tail]

theorem writeSourceBookmarks_stopped {bookmarks : List StoredBookmark}
    (h : ¬ (AllFit sources bookmarks ∧ Calm fs (writeCount sources bookmarks))) :
    ∃ stop, (writeSourceBookmarks sources bookmarks t fs).1 = .error stop := by
  induction sources generalizing t fs with
  | nil => exact absurd ⟨fun _ hs => (not_mem_nil hs).elim, fun x hx => by simp [writeCount] at hx⟩ h
  | cons source rest ih =>
    have hcount : writeCount (source :: rest) bookmarks =
        ((bookmarksFor source bookmarks).length + writeCount rest bookmarks) + 1 := by
      simp only [writeCount, map_cons, sum_cons]
      omega
    rw [hcount] at h
    rw [writeSourceBookmarks]
    by_cases hhead : ∀ x ∈ fs.head?, x = .none
    · rw [Prog.bind_of_ok (write_of_calm hhead)]
      by_cases hsource : (∀ b ∈ bookmarksFor source bookmarks, Fits b) ∧
          Calm fs.tail (bookmarksFor source bookmarks).length
      · -- the rows of this source are written, so a later source stops
        rw [Prog.bind_of_ok (insertBookmarks_eq source hsource.1 hsource.2)]
        refine ih fun hrest => h ⟨fun id hid => ?_, calm_succ hhead (calm_add hsource.2 hrest.2)⟩
        obtain rfl | hid := mem_cons.1 hid
        · exact hsource.1
        · exact hrest.1 id hid
      · obtain ⟨stop, hstop⟩ := insertBookmarks_stopped (t := t.clearBookmarks source) hsource
        refine ⟨stop, ?_⟩
        have hrun : insertBookmarks source (bookmarksFor source bookmarks) (t.clearBookmarks source)
            fs.tail = (.error stop, (insertBookmarks source (bookmarksFor source bookmarks)
              (t.clearBookmarks source) fs.tail).2) := Prod.ext hstop rfl
        rw [Prog.bind_of_error hrun]
    · obtain ⟨stop, hstop⟩ := write_of_fault (fun t => t.clearBookmarks source) t hhead
      rw [Prog.bind_of_error hstop]
      exact ⟨stop, rfl⟩

/-! ### Bookmarks that pass the checks -/

/-- A note in its bounds. -/
def ValidNote (note : String) : Prop :=
  note.utf8ByteSize ≤ MAX_BOOKMARK_NOTE_BYTES ∧ note.toList.any isControl = false

instance (note : String) : Decidable (ValidNote note) := inferInstanceAs (Decidable (_ ∧ _))

theorem nodup_viewSources (h : validSources v = true) : (viewSources v).Nodup := by
  unfold viewSources
  unfold validSources at h
  cases hempty : v.body.presentation.sourceIds.isEmpty with
  | true =>
    rw [if_pos rfl]
    exact nodup_singleton _
  | false =>
    rw [if_neg Bool.false_ne_true]
    simp only [hempty, Bool.false_or, Bool.and_eq_true, decide_eq_true_eq] at h
    exact h.2

/-- What it takes for a view to be read. -/
theorem getView_eq_some :
    getView json t id = .ok (some v) ↔ ∃ row w, t.view id = some row ∧ row.decode json = .ok w ∧
      v = w.withBookmarks (readSourceBookmarks t (viewSources w)) ∧ validateWorkingView v = .ok () := by
  unfold getView
  cases hview : t.view id with
  | none => exact ⟨fun h => (by cases h), fun ⟨_, _, h, _⟩ => by cases h⟩
  | some row =>
    dsimp only
    cases hdecode : row.decode json with
    | error e => exact ⟨fun h => (by cases h), fun ⟨_, _, hrow, h, _⟩ => by
        cases hrow
        rw [hdecode] at h
        cases h⟩
    | ok w =>
      change (do
        validateWorkingView (w.withBookmarks (readSourceBookmarks t (viewSources w)))
        return some (w.withBookmarks (readSourceBookmarks t (viewSources w)))) = _ ↔ _
      constructor
      · intro h
        refine ⟨row, w, rfl, hdecode, ?_⟩
        obtain ⟨u, hcheck, h⟩ := Outcome.bind_eq_ok.1 h
        cases h
        exact ⟨rfl, hcheck⟩
      · rintro ⟨_, w', ⟨⟩, hdecode', rfl, hcheck⟩
        rw [hdecode] at hdecode'
        cases hdecode'
        rw [hcheck]
        rfl

theorem decode_id {row : ViewRow} {w : View R} (h : row.decode json = .ok w) : w.id = row.id := by
  unfold ViewRow.decode at h
  split at h
  · cases h
  · split at h
    · cases h
    · cases h
      rfl

theorem id_of_getView (h : getView json t id = .ok (some v)) : v.id = id := by
  obtain ⟨row, w, hview, hdecode, rfl, -⟩ := getView_eq_some.1 h
  exact (decode_id hdecode).trans (by simpa using find?_some hview)

end Lvu.Store
