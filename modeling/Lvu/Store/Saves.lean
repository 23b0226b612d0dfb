import Lvu.Store.Bookmarks

/-!
# Writing views

The operations that write views and their bookmarks (`lvu-memory/src/store.rs`), statement by
statement: `create_view` and `update_view` write each statement for itself, `save_source_and_view`
all of them in a transaction, and `save_sources_and_views` each view at a savepoint of one
transaction.

* `createRow_eq`, `advanceRow_eq` : what writes a view's row, when nothing is in its way.
* `createRow_stopped`, `advanceRow_stopped` : otherwise nothing is written.
-/

namespace Lvu.Store

open List

variable {R M : Type}

/-- The selection time that the view's row has. -/
def storedSelection (json : Json R) (t : Tables M) (id : ViewId) : UInt64 :=
  (((t.view id).bind fun row => json.fromSlice row.presentation).map
    PresentationState.selectedAt).getD 0

/-- The presentation that is stored. -/
def presentationOf (json : Json R) (t : Tables M) (v : View R) : PresentationState R :=
  let p := v.body.presentation.cleared
  if p.selectedAt = 0 then { p with selectedAt := storedSelection json t v.id } else p

def storedPresentation (json : Json R) (t : Tables M) (v : View R) : List UInt8 :=
  json.toVec (presentationOf json t v)

/-- The row of a view. -/
def rowOfView (json : Json R) (t : Tables M) (v : View R) (role : String) (version : ℤ) : ViewRow where
  id := v.id
  sourceId := v.sourceId
  name := v.name
  role
  definition := v.body.definition
  version
  presentation := storedPresentation json t v

/-- The row is inserted. -/
def insertRow (json : Json R) (v : View R) (role : String) (version : ℤ) :
    Prog (Tables M) MemoryError Unit :=
  Prog.statement fun t => (t.insertView (rowOfView json t v role version)).map fun t' => ((), t')

/-- The row is replaced, when it has the version that is expected. -/
def replaceRow (json : Json R) (v : View R) (expected next : ℤ) : Prog (Tables M) MemoryError Unit := do
  let changed ← Prog.statement fun t =>
    .ok (t.updateView v.id expected (rowOfView json t v "" next))
  if changed ≠ 1 then Prog.check (.error .conflict) else pure ()

/-- The version after the expected one. -/
def nextVersion (expected : UInt64) : Except MemoryError UInt64 :=
  if expected.toNat + 1 < 18446744073709551616 then .ok (expected + 1)
  else .error (.invalidData "view version overflow")

/-- The checks and the row of `create_view`. -/
def createRow (json : Json R) (v : View R) : Prog (Tables M) MemoryError Unit := do
  Prog.check (validateWorkingView v)
  let version ← Prog.check (toI64 v.version)
  insertRow json v v.role.token version

def createView (json : Json R) (v : View R) : Prog (Tables M) MemoryError Unit := do
  createRow json v
  writeSourceBookmarks (viewSources v) v.body.presentation.bookmarks

/-- The row of a view with an expected version is replaced by its next version. -/
def advanceRow (json : Json R) (v : View R) (expected : UInt64) : Prog (Tables M) MemoryError UInt64 := do
  let next ← Prog.check (nextVersion expected)
  let version ← Prog.check (toI64 next)
  let old ← Prog.check (toI64 expected)
  replaceRow json v old version
  return next

/-- The checks and the row of `update_view`. -/
def updateRow (json : Json R) (v : View R) (expected : UInt64) :
    Prog (Tables M) MemoryError UInt64 := do
  Prog.check (validateWorkingView v)
  advanceRow json v expected

def updateView (json : Json R) (v : View R) (expected : UInt64) :
    Prog (Tables M) MemoryError UInt64 := do
  let next ← updateRow json v expected
  writeSourceBookmarks (viewSources v) v.body.presentation.bookmarks
  return next

/-- What is saved: a source, a view of it, and the version that the view is expected to have. -/
structure Entry (R M : Type) where
  source : SourceMetadata M
  view : View R
  expected : Option UInt64

/-- The checks of a save; `validate_source` is a parameter. -/
def Entry.check (validateSource : SourceMetadata M → Except MemoryError Unit) (e : Entry R M) :
    Except MemoryError Unit := do
  validateSource e.source
  validateWorkingView e.view
  if e.source.id ≠ e.view.sourceId then .error (.invalidData "view/source identity mismatch") else .ok ()

/-- The row of a save: a new one is derived and has the version zero. -/
def writeRow (json : Json R) (e : Entry R M) : Prog (Tables M) MemoryError UInt64 :=
  match e.expected with
  | none => do
    insertRow json e.view ViewRole.derived.token 0
    return 0
  | some expected => advanceRow json e.view expected

/-- The statements of a save. -/
def saveBody (json : Json R) (e : Entry R M) : Prog (Tables M) MemoryError UInt64 := do
  Prog.write fun t => t.upsertSource e.source
  let version ← writeRow json e
  writeSourceBookmarks (viewSources e.view) e.view.body.presentation.bookmarks
  return version

def saveSourceAndView (json : Json R) (validateSource : SourceMetadata M → Except MemoryError Unit)
    (e : Entry R M) : Prog (Tables M) MemoryError UInt64 := do
  Prog.check (e.check validateSource)
  Prog.transaction (saveBody json e)

/-- `MemoryError`'s text. -/
def MemoryError.message : MemoryError → String
  | .recipe reason => reason
  | .database reason => "workspace database error: " ++ reason
  | .invalidData reason => "stored data is invalid: " ++ reason
  | .conflict => "concurrent update conflict"

/-- The first loop of `save_sources_and_views`: an entry that passes the checks is admitted, unless
its view was admitted before. -/
def checkEntries (validateSource : SourceMetadata M → Except MemoryError Unit) :
    List ViewId → List (Entry R M) → List (Entry R M × Except MemoryError Unit)
  | _, [] => []
  | seen, e :: rest =>
    match e.check validateSource with
    | .error error => (e, .error error) :: checkEntries validateSource seen rest
    | .ok () =>
      if e.view.id ∈ seen then (e, .error .conflict) :: checkEntries validateSource seen rest
      else (e, .ok ()) :: checkEntries validateSource (e.view.id :: seen) rest

/-- One entry of the batch. -/
def saveEntry (json : Json R) : Entry R M × Except MemoryError Unit →
    Prog (Tables M) MemoryError (Except MemoryError UInt64)
  | (_, .error error) => pure (.error error)
  | (e, .ok ()) => Prog.savepoint (saveBody json e)

/-- The transaction of the batch. -/
def saveBatch (json : Json R) (items : List (Entry R M × Except MemoryError Unit)) :
    Prog (Tables M) MemoryError (List (Except MemoryError UInt64)) :=
  Prog.transaction (Prog.sequence (items.map (saveEntry json)))

def saveSourcesAndViews (json : Json R) (validateSource : SourceMetadata M → Except MemoryError Unit)
    (items : List (Entry R M)) : Prog (Tables M) MemoryError (List (Except MemoryError UInt64)) := do
  let admitted := checkEntries validateSource [] items
  if admitted.all fun x => !x.2.isOk then
    return admitted.map fun x => x.2.map fun _ => 0
  else
    match ← Prog.attempt (saveBatch json admitted) with
    | .ok outcomes => return outcomes
    | .error error => return admitted.map fun x =>
        match x.2 with
        | .ok () => .error (.invalidData error.message)
        | .error refused => .error refused

/-! ### Canonical views -/

/-- `DELETE FROM working_views WHERE view_id=?1 AND source_id=?2`. -/
def Tables.deleteView (t : Tables M) (id : ViewId) (source : SourceId) : Tables M :=
  { t with views := t.views.filter fun row => !decide (row.id = id ∧ row.sourceId = source) }

/-- `UPDATE working_views SET view_id=?1 WHERE view_id=?2 AND source_id=?3`. -/
def Tables.renameView (t : Tables M) (target start : ViewId) (source : SourceId) : Tables M :=
  { t with
    views := t.views.map fun row =>
      if row.id = start ∧ row.sourceId = source then { row with id := target } else row }

/-- The first of two rows in the order of their identities. -/
def firstRow (a b : ViewRow) : ViewRow :=
  if (b.id.uuid.bytes.map UInt8.toNat) < (a.id.uuid.bytes.map UInt8.toNat) then b else a

/-- `canonical_view_for_source`. -/
def canonicalView (json : Json R) (t : Tables M) (source : SourceId) :
    Except MemoryError (Option (View R)) :=
  match t.views.filter fun row => decide (row.sourceId = source ∧ row.role = ViewRole.canonical.token) with
  | [] => .ok none
  | row :: rest => do
    match ← getView json t (rest.foldl firstRow row).id with
    | some view => return some view
    | none => .error (.invalidData "canonical view disappeared")

/-- The view of an identity that must be there. -/
def requireView (json : Json R) (t : Tables M) (id : ViewId) : Except MemoryError (View R × Tables M) := do
  match ← getView json t id with
  | some view => return (view, t)
  | none => .error (.invalidData "canonical view disappeared")

def adoptLegacyCanonicalView (json : Json R) (source : SourceId) (start target : ViewId) :
    Prog (Tables M) MemoryError (View R) := do
  let free ← Prog.statement fun t => .ok ((t.view target).isNone, t)
  if free then
    Prog.write fun t => t.renameView target start source
    Prog.statement fun t => requireView json t target
  else
    let survivor ← Prog.statement fun t => (getView json t target).map fun view => (view, t)
    match survivor with
    | some survivor =>
      if survivor.sourceId = source then
        Prog.write fun t => t.deleteView start source
        return survivor
      else Prog.statement fun t => requireView json t start
    | none => Prog.statement fun t => requireView json t start

/-- The identity after this one: its last byte is one more. -/
def nextId (id : ViewId) : ViewId :=
  ⟨⟨id.uuid.bytes.dropLast ++ [id.uuid.bytes.getLastD 0 + 1], by
    have := id.uuid.length_eq
    simp [this]⟩⟩

/-- The canonical view that is created. -/
def newCanonicalView [Inhabited R] (source : SourceId) (name : String) (id : ViewId) : View R where
  id
  sourceId := source
  name
  role := .canonical
  body := ⟨⟨none, "", none, none, none, ⟨none, none, true⟩⟩, .default R⟩
  version := 0

/-- The search for a free identity. -/
def allocateCanonicalView [Inhabited R] (json : Json R) (source : SourceId) (name : String) :
    ℕ → ViewId → Prog (Tables M) MemoryError (View R)
  | 0, _ => Prog.check (.error (.invalidData "could not allocate a canonical view identity"))
  | attempts + 1, candidate => do
    let free ← Prog.statement fun t => .ok ((t.view candidate).isNone, t)
    if free then
      createView json (newCanonicalView source name candidate)
      return newCanonicalView source name candidate
    else allocateCanonicalView json source name attempts (nextId candidate)

def ensureCanonicalView [Inhabited R] (json : Json R) (source : SourceId) (preferred : ViewId)
    (legacy : Option ViewId) (name : String) : Prog (Tables M) MemoryError (View R) := do
  let existing ← Prog.statement fun t => (canonicalView json t source).map fun view => (view, t)
  match existing with
  | some existing =>
    if existing.id = preferred then
      match legacy with
      | some legacy =>
        if legacy = preferred then return existing
        else
          Prog.write fun t => t.deleteView legacy source
          return existing
      | none => return existing
    else if legacy = some existing.id then adoptLegacyCanonicalView json source existing.id preferred
    else return existing
  | none =>
    if name.isEmpty || decide (MAX_VIEW_NAME_BYTES < name.utf8ByteSize) then
      Prog.check (.error (.invalidData "invalid canonical view name"))
    else allocateCanonicalView json source name MAX_CANONICAL_ID_ATTEMPTS preferred

/-! ### Rows -/

/-- The primary key of `working_views`. -/
def Tables.Keyed (t : Tables M) : Prop := (t.views.map ViewRow.id).Nodup

variable {t : Tables M} {id : ViewId} {A : Type} {fs : List (Fault MemoryError)} {v : View R}
  {expected : UInt64}

theorem Tables.Keyed.view_iff (h : t.Keyed) {row : ViewRow} :
    t.view id = some row ↔ row ∈ t.views ∧ row.id = id := by
  constructor
  · intro hview
    exact ⟨mem_of_find?_eq_some hview, by simpa using find?_some hview⟩
  · rintro ⟨hrow, rfl⟩
    cases hview : t.view row.id with
    | none =>
      have := find?_eq_none.1 hview row hrow
      simp at this
    | some row' =>
      have hid : row'.id = row.id := by simpa using find?_some hview
      rw [inj_on_of_nodup_map h (mem_of_find?_eq_some hview) hrow hid]

theorem view_eq_none : t.view id = none ↔ ∀ row ∈ t.views, row.id ≠ id := by
  rw [Tables.view, find?_eq_none]
  simp

/-- The tables with one more view. -/
def Tables.withRow (t : Tables M) (row : ViewRow) : Tables M := { t with views := t.views ++ [row] }

theorem insertView_ok (row : ViewRow) (hnew : t.view row.id = none)
    (hsource : (t.sources row.sourceId).isSome = true) :
    t.insertView row = .ok (t.withRow row) := by
  rw [Tables.insertView, hnew, Option.isSome_none, if_neg Bool.false_ne_true]
  cases hs : t.sources row.sourceId with
  | none =>
    rw [hs] at hsource
    cases hsource
  | some source => rfl

theorem insertView_error (row : ViewRow)
    (h : ¬ (t.view row.id = none ∧ (t.sources row.sourceId).isSome = true)) :
    ∃ e, t.insertView row = .error e := by
  rw [Tables.insertView]
  cases hview : t.view row.id with
  | some row' => exact ⟨_, if_pos rfl⟩
  | none =>
    cases hs : t.sources row.sourceId with
    | none => exact ⟨_, rfl⟩
    | some source => exact absurd ⟨hview, by rw [hs]; rfl⟩ h

/-- The row of a view in place of the one it has. -/
def Tables.withReplaced (t : Tables M) (row : ViewRow) : Tables M :=
  { t with
    views := t.views.map fun r =>
      if r.id = row.id then { row with id := r.id, sourceId := r.sourceId, role := r.role } else r }

theorem updateView_ok (h : t.Keyed) (row : ViewRow) {old : ViewRow}
    (hold : t.view row.id = some old) :
    t.updateView row.id old.version row = (1, t.withReplaced row) := by
  obtain ⟨hmem, hid⟩ := h.view_iff.1 hold
  have hsame {r : ViewRow} (hr : r ∈ t.views) : r.id = row.id ∧ r.version = old.version ↔ r.id = row.id := by
    refine ⟨fun h => h.1, fun hrid => ⟨hrid, ?_⟩⟩
    rw [inj_on_of_nodup_map h hr hmem (hrid.trans hid.symm)]
  rw [Tables.updateView, Prod.mk.injEq]
  constructor
  · have hcount : (t.views.map ViewRow.id).count row.id = 1 := count_eq_one_of_mem h (hid ▸ mem_map_of_mem hmem)
    rw [List.count, countP_map, countP_eq_length_filter] at hcount
    rw [← hcount]
    refine congrArg List.length (List.filter_congr fun r hr => ?_)
    rw [Bool.eq_iff_iff, decide_eq_true_eq, hsame hr]
    simp
  · rw [Tables.withReplaced]
    congr 1
    refine map_congr_left fun r hr => ?_
    by_cases hrid : r.id = row.id
    · rw [if_pos ((hsame hr).2 hrid), if_pos hrid]
    · rw [if_neg fun h => hrid h.1, if_neg hrid]

theorem updateView_none {version : ℤ} (row : ViewRow)
    (h : ∀ r ∈ t.views, r.id = id → r.version ≠ version) :
    t.updateView id version row = (0, t) := by
  rw [Tables.updateView, Prod.mk.injEq]
  constructor
  · rw [length_eq_zero_iff, filter_eq_nil_iff]
    intro r hr heq
    obtain ⟨hid, hversion⟩ := of_decide_eq_true heq
    exact h r hr hid hversion
  · have hviews : (t.views.map fun r => if r.id = id ∧ r.version = version then
        { row with id := r.id, sourceId := r.sourceId, role := r.role } else r) = t.views := by
      conv_rhs => rw [← map_id t.views]
      refine map_congr_left fun r hr => ?_
      rw [if_neg fun heq => h r hr heq.1 heq.2]
      rfl
    rw [hviews]

/-! ### The statements that write a row -/

theorem statement_ok {f : Tables M → Except MemoryError (A × Tables M)} {t' : Tables M} {a : A}
    (h : Calm fs 1) (hf : f t = .ok (a, t')) : Prog.statement f t fs = (.ok a, t', fs.tail) := by
  rw [Prog.statement_of_none h.head, hf]

theorem statement_error {f : Tables M → Except MemoryError (A × Tables M)} {e : MemoryError}
    (h : Calm fs 1) (hf : f t = .error e) :
    Prog.statement f t fs = (.error (.error e), t, fs.tail) := by
  rw [Prog.statement_of_none h.head, hf]

theorem statement_of_not_calm (f : Tables M → Except MemoryError (A × Tables M)) (t : Tables M)
    (h : ¬ Calm fs 1) : ∃ stop, Prog.statement f t fs = (.error stop, t, fs.tail) := by
  cases fs with
  | nil => exact absurd (calm_nil 1) h
  | cons x fs =>
    have hx : x ≠ .none := fun heq => h fun y hy => by
      rw [take_succ_cons, take_zero, mem_singleton] at hy
      exact hy.trans heq
    obtain ⟨stop, hstop⟩ := Prog.statement_of_fault f fs hx
    exact ⟨stop, hstop t⟩

/-- A read gives what is there, or the program stops over the same tables. -/
theorem statement_read_cases (f : Tables M → Except MemoryError A) (t : Tables M)
    (fs : List (Fault MemoryError)) :
    (∃ a, Calm fs 1 ∧ f t = .ok a ∧
      Prog.statement (fun t => (f t).map fun x => (x, t)) t fs = (.ok a, t, fs.tail)) ∨
    (∀ a, Calm fs 1 → f t ≠ .ok a) ∧ ∃ stop,
      Prog.statement (fun t => (f t).map fun x => (x, t)) t fs = (.error stop, t, fs.tail) := by
  by_cases hcalm : Calm fs 1
  · cases hf : f t with
    | ok a => exact .inl ⟨a, hcalm, rfl, statement_ok hcalm (by rw [hf]; rfl)⟩
    | error e => exact .inr ⟨nofun, _, statement_error hcalm (by rw [hf]; rfl)⟩
  · exact .inr ⟨fun _ h => absurd h hcalm, statement_of_not_calm _ t hcalm⟩

theorem insertRow_eq (json : Json R) (role : String) (version : ℤ) (hcalm : Calm fs 1)
    (hnew : t.view v.id = none) (hsource : (t.sources v.sourceId).isSome = true) :
    insertRow json v role version t fs =
      (.ok (), t.withRow (rowOfView json t v role version), fs.tail) := by
  refine statement_ok hcalm ?_
  rw [insertView_ok (rowOfView json t v role version) hnew hsource]
  rfl

theorem insertRow_stopped (json : Json R) (role : String) (version : ℤ)
    (h : ¬ (Calm fs 1 ∧ t.view v.id = none ∧ (t.sources v.sourceId).isSome = true)) :
    ∃ stop, (insertRow json v role version t fs).1 = .error stop := by
  by_cases hcalm : Calm fs 1
  · obtain ⟨e, he⟩ := insertView_error (t := t) (rowOfView json t v role version)
      fun hok => h ⟨hcalm, hok.1, hok.2⟩
    rw [insertRow, statement_error (e := e) hcalm (by rw [he]; rfl)]
    exact ⟨_, rfl⟩
  · obtain ⟨stop, hstop⟩ := statement_of_not_calm (fun t : Tables M =>
      (t.insertView (rowOfView json t v role version)).map fun t' => ((), t')) t hcalm
    rw [insertRow, hstop]
    exact ⟨stop, rfl⟩

theorem replaceRow_eq (json : Json R) (hkeyed : t.Keyed) {expected : ℤ} (next : ℤ)
    (hcalm : Calm fs 1) {old : ViewRow} (hold : t.view v.id = some old)
    (hversion : old.version = expected) :
    replaceRow json v expected next t fs =
      (.ok (), t.withReplaced (rowOfView json t v "" next), fs.tail) := by
  subst hversion
  have hrow := updateView_ok hkeyed (rowOfView json t v "" next) hold
  have hstatement : Prog.statement (fun t : Tables M =>
      .ok (t.updateView v.id old.version (rowOfView json t v "" next))) t fs =
        (.ok 1, t.withReplaced (rowOfView json t v "" next), fs.tail) :=
    statement_ok hcalm (congrArg Except.ok hrow)
  rw [replaceRow, Prog.bind_of_ok hstatement]
  rfl

/-- A row that is not there, or has another version, is left. -/
theorem replaceRow_stopped (json : Json R) (hkeyed : t.Keyed) (v : View R) (expected next : ℤ)
    (h : ¬ (Calm fs 1 ∧ ∃ old, t.view v.id = some old ∧ old.version = expected)) :
    ∃ stop fs', replaceRow json v expected next t fs = (.error stop, t, fs') := by
  by_cases hcalm : Calm fs 1
  · have hnone : ∀ r ∈ t.views, r.id = v.id → r.version ≠ expected := fun r hr hid hversion =>
      h ⟨hcalm, r, hkeyed.view_iff.2 ⟨hr, hid⟩, hversion⟩
    have hstatement : Prog.statement (fun t : Tables M =>
        .ok (t.updateView v.id expected (rowOfView json t v "" next))) t fs = (.ok 0, t, fs.tail) :=
      statement_ok hcalm (congrArg Except.ok (updateView_none _ hnone))
    rw [replaceRow, Prog.bind_of_ok hstatement]
    exact ⟨_, _, rfl⟩
  · obtain ⟨stop, hstop⟩ := statement_of_not_calm (fun t : Tables M =>
      .ok (t.updateView v.id expected (rowOfView json t v "" next))) t hcalm
    rw [replaceRow, Prog.bind_of_error hstop]
    exact ⟨stop, _, rfl⟩

/-! ### What the row of a view needs -/

/-- The row of a new view is inserted. -/
def Inserts (t : Tables M) (fs : List (Fault MemoryError)) (v : View R) : Prop :=
  validateWorkingView v = .ok () ∧ v.version.toNat < 9223372036854775808 ∧ Calm fs 1 ∧
    t.view v.id = none ∧ (t.sources v.sourceId).isSome = true

/-- The row of a view moves on from the expected version. -/
def Advances (t : Tables M) (fs : List (Fault MemoryError)) (v : View R) (expected : UInt64) : Prop :=
  expected.toNat + 1 < 9223372036854775808 ∧ Calm fs 1 ∧
    ∃ old, t.view v.id = some old ∧ old.version = expected.toNat

theorem createRow_eq (json : Json R) (h : Inserts t fs v) :
    createRow json v t fs =
      (.ok (), t.withRow (rowOfView json t v v.role.token v.version.toNat), fs.tail) := by
  obtain ⟨hvalid, hversion, hcalm, hnew, hsource⟩ := h
  have htoI64 : toI64 v.version = .ok v.version.toNat := if_pos hversion
  rw [createRow, hvalid, Prog.bind_of_ok (Prog.check_ok _), htoI64, Prog.bind_of_ok (Prog.check_ok _)]
  exact insertRow_eq json _ _ hcalm hnew hsource

theorem createRow_stopped (json : Json R) (h : ¬ Inserts t fs v) :
    ∃ stop, (createRow json v t fs).1 = .error stop := by
  rw [createRow]
  cases hvalid : validateWorkingView v with
  | error e =>
    rw [Prog.bind_of_error (Prog.check_error _)]
    exact ⟨_, rfl⟩
  | ok u =>
    rw [Prog.bind_of_ok (Prog.check_ok _)]
    by_cases hversion : v.version.toNat < 9223372036854775808
    · have htoI64 : toI64 v.version = .ok v.version.toNat := if_pos hversion
      rw [htoI64, Prog.bind_of_ok (Prog.check_ok _)]
      exact insertRow_stopped json _ _ fun hrow => h ⟨hvalid, hversion, hrow⟩
    · have htoI64 : toI64 v.version = .error (.invalidData "integer exceeds SQLite range") := if_neg hversion
      rw [htoI64, Prog.bind_of_error (Prog.check_error _)]
      exact ⟨_, rfl⟩

theorem allOrNothing_insertRow (json : Json R) (t : Tables M) (fs : List (Fault MemoryError)) (v : View R)
    (role : String) (version : ℤ) : Prog.AllOrNothing (insertRow json v role version) t fs :=
  Prog.allOrNothing_statement _

theorem check_run {x : Except MemoryError A} {t' : Tables M} {fs' : List (Fault MemoryError)}
    {a : A} (h : Prog.check x t fs = (.ok a, t', fs')) : x = .ok a ∧ t' = t ∧ fs' = fs := by
  cases x with
  | error e => cases h
  | ok b =>
    cases h
    exact ⟨rfl, rfl, rfl⟩

theorem allOrNothing_createRow (json : Json R) (t : Tables M) (fs : List (Fault MemoryError)) (v : View R) :
    Prog.AllOrNothing (createRow json v) t fs := by
  refine Prog.allOrNothing_bind (Prog.allOrNothing_check _) fun u t₁ fs₁ h₁ => ?_
  obtain ⟨-, rfl, rfl⟩ := check_run h₁
  refine ⟨rfl, Prog.allOrNothing_bind (Prog.allOrNothing_check _) fun version t₂ fs₂ h₂ => ?_⟩
  obtain ⟨-, rfl, rfl⟩ := check_run h₂
  exact ⟨rfl, allOrNothing_insertRow json _ _ _ _ _⟩

theorem nextVersion_eq (h : expected.toNat + 1 < 9223372036854775808) :
    nextVersion expected = .ok (expected + 1) ∧ (expected + 1).toNat = expected.toNat + 1 := by
  have hlt : expected.toNat + 1 < 18446744073709551616 := by omega
  refine ⟨if_pos hlt, ?_⟩
  rw [UInt64.toNat_add, UInt64.toNat_one]
  exact Nat.mod_eq_of_lt hlt

theorem advanceRow_eq (json : Json R) (hkeyed : t.Keyed) (h : Advances t fs v expected) :
    advanceRow json v expected t fs =
      (.ok (expected + 1), t.withReplaced (rowOfView json t v "" (expected.toNat + 1)), fs.tail) := by
  obtain ⟨hlt, hcalm, old, hold, hversion⟩ := h
  obtain ⟨hnext, hval⟩ := nextVersion_eq hlt
  have hnew : toI64 (expected + 1) = .ok (expected.toNat + 1 : ℤ) := by
    rw [toI64, if_pos (by omega), hval]
    rfl
  have hexpected : toI64 expected = .ok expected.toNat := if_pos (by omega)
  rw [advanceRow, hnext, Prog.bind_of_ok (Prog.check_ok _), hnew, Prog.bind_of_ok (Prog.check_ok _),
    hexpected, Prog.bind_of_ok (Prog.check_ok _),
    Prog.bind_of_ok (replaceRow_eq json hkeyed _ hcalm hold hversion)]
  rfl

theorem advanceRow_stopped (json : Json R) (hkeyed : t.Keyed) (h : ¬ Advances t fs v expected) :
    ∃ stop fs', advanceRow json v expected t fs = (.error stop, t, fs') := by
  rw [advanceRow]
  by_cases hlt : expected.toNat + 1 < 9223372036854775808
  · obtain ⟨hnext, hval⟩ := nextVersion_eq hlt
    have hnew : toI64 (expected + 1) = .ok (expected.toNat + 1 : ℤ) := by
      rw [toI64, if_pos (by omega), hval]
      rfl
    have hexpected : toI64 expected = .ok expected.toNat := if_pos (by omega)
    obtain ⟨stop, fs', hstop⟩ := replaceRow_stopped json hkeyed v expected.toNat
      (expected.toNat + 1) fun hrow => h ⟨hlt, hrow⟩
    refine ⟨stop, fs', ?_⟩
    rw [hnext, Prog.bind_of_ok (Prog.check_ok _), hnew, Prog.bind_of_ok (Prog.check_ok _),
      hexpected, Prog.bind_of_ok (Prog.check_ok _), Prog.bind_of_error hstop]
  · cases hnext : nextVersion expected with
    | error e => exact ⟨_, _, Prog.bind_of_error (Prog.check_error _)⟩
    | ok next =>
      have hnext' : next.toNat = expected.toNat + 1 := by
        unfold nextVersion at hnext
        by_cases hmax : expected.toNat + 1 < 18446744073709551616
        · rw [if_pos hmax] at hnext
          cases hnext
          rw [UInt64.toNat_add, UInt64.toNat_one]
          exact Nat.mod_eq_of_lt hmax
        · rw [if_neg hmax] at hnext
          cases hnext
      have hnew : toI64 next = .error (.invalidData "integer exceeds SQLite range") := if_neg (by omega)
      refine ⟨.error (.invalidData "integer exceeds SQLite range"), fs, ?_⟩
      rw [Prog.bind_of_ok (Prog.check_ok _), hnew, Prog.bind_of_error (Prog.check_error _)]

theorem updateRow_eq (json : Json R) (hkeyed : t.Keyed) (hvalid : validateWorkingView v = .ok ())
    (h : Advances t fs v expected) :
    updateRow json v expected t fs =
      (.ok (expected + 1), t.withReplaced (rowOfView json t v "" (expected.toNat + 1)), fs.tail) := by
  rw [updateRow, hvalid, Prog.bind_of_ok (Prog.check_ok _), advanceRow_eq json hkeyed h]

theorem updateRow_stopped (json : Json R) (hkeyed : t.Keyed)
    (h : ¬ (validateWorkingView v = .ok () ∧ Advances t fs v expected)) :
    ∃ stop fs', updateRow json v expected t fs = (.error stop, t, fs') := by
  rw [updateRow]
  cases hvalid : validateWorkingView v with
  | error e => exact ⟨_, _, Prog.bind_of_error (Prog.check_error _)⟩
  | ok u =>
    rw [Prog.bind_of_ok (Prog.check_ok _)]
    exact advanceRow_stopped json hkeyed fun hadvances => h ⟨hvalid, hadvances⟩

end Lvu.Store
