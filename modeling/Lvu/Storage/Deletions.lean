import Lvu.Data.Dict
import Lvu.Machine.Run
import Lvu.Storage.Ownership

/-!
# Deletions and the ledger

Any number of processes execute deletions under one capture root (`OwnershipIndex::execute` of
`lvu-app/src/storage/ownership.rs`): each records its intent in the ledger, removes the items of
its plan file by file (`remove_tree`), and records how that ended.  A process may be killed before
every step and after every byte it appends, and other programs change the files under the root.

* `removals_gone` : an item is taken for removed only when nothing is at its path, by a process
  inside the deletion.
* `gaps_visible` : **no deletion without a visible boundary**, in every run in which nothing is
  appended to a ledger that ends in a torn line.
* `torn_line_hides_gap` : a run in which an intent is appended to a torn line.
-/

namespace Lvu.Storage

open List

/-! ### Removing a tree -/

/-- What is at a path. -/
inductive FileKind
  | file (length : ℕ)
  | symlink
  | directory

/-- What is left to do of the removal of an item. -/
inductive Task
  | visit (path : Path) (depth : ℕ)
  /-- An entry of the directory could not be read. -/
  | unreadable (path : Path) (error : String)
  | removeDir (path : Path)
deriving DecidableEq

/-- `remove_tree` under way. -/
structure Removal where
  /-- The item. -/
  path : Path
  tasks : List Task
  budget : ℕ
deriving DecidableEq

/-- `remove_tree` at its start. -/
def Removal.start (path : Path) : Removal :=
  ⟨path, [.visit path 0], MAX_TREE_FILES + MAX_TREE_DIRECTORIES⟩

/-- What the system answers to the call of a step. -/
inductive OsReply
  | failed (error : String)
  /-- It was done; reading a directory yields its entries, of which some may be unreadable. -/
  | done (entries : List (Except String String))

/-- What a step of a removal comes to. -/
inductive Progress
  /-- The removal stops: something is left. -/
  | stopped (error : Option String)
  /-- Nothing is at the path of the task any more, or its entries are to be removed first. -/
  | went (removal : Removal) (unlinked : Option Path) (bytes : ℕ)

/-- How a path is written in a message. -/
def display (path : Path) : String := "/".intercalate path

/-- The tasks that a directory's entries make. -/
def entryTasks (path : Path) (depth : ℕ) (entries : List (Except String String)) : List Task :=
  entries.map fun e => match e with
    | .ok name => .visit (path ++ [name]) (depth + 1)
    | .error error => .unreadable path error

/-- One call of `remove_tree_inner`, with the files as they are. -/
def Removal.step (r : Removal) (files : Dict Path FileKind) (cancelled : Bool) (reply : OsReply) :
    Option Progress :=
  match r.tasks with
  | [] => none
  | .unreadable path error :: _ => some (.stopped (some (display path ++ ": " ++ error)))
  | .visit path depth :: rest =>
    if cancelled then some (.stopped none)
    else if r.budget = 0 ∨ MAX_TREE_DEPTH < depth then
      some (.stopped (some (display path ++ ": removal limit reached")))
    else match reply with
      | .failed error => some (.stopped (some (display path ++ ": " ++ error)))
      | .done entries =>
        let r := { r with budget := r.budget - 1 }
        match files.lookup path with
        | none => some (.went { r with tasks := rest } none 0)
        | some (.file length) => some (.went { r with tasks := rest } (some path) length)
        | some .symlink => some (.went { r with tasks := rest } (some path) 0)
        | some .directory =>
          some (.went { r with tasks := entryTasks path depth entries ++ .removeDir path :: rest } none 0)
  | .removeDir path :: rest => match reply with
    | .failed error => some (.stopped (some (display path ++ ": " ++ error)))
    | .done _ =>
      -- a directory that holds something is not removed
      if files.keys.any fun q => decide (q.dropLast = path ∧ q ≠ []) then none
      else some (.went { r with tasks := rest } (some path) 0)

/-- The files after a step that went. -/
def filesAfter (files : Dict Path FileKind) (unlinked : Option Path) : Dict Path FileKind :=
  match unlinked with
  | some path => files.erase path
  | none => files

/-! ### Executions -/

/-- A process inside `execute`, past its intent. -/
structure Execution where
  intent : DeletionRecord
  /-- The items that are not begun. -/
  items : List PlanItem
  removal : Option Removal
  removed : ℕ
  complete : Bool
  errors : List String

/-- A deletion that was begun: its intent, and the paths it planned to remove. -/
structure Begun where
  intent : DeletionRecord
  paths : List Path

/-- The capture root, the ledger, and the processes. -/
structure World where
  files : Dict Path FileKind
  ledger : List UInt8
  processes : Dict ℕ Execution
  /-- The records whose lines were appended whole, in order. -/
  written : List DeletionRecord
  /-- The records of which an append was attempted. -/
  attempted : List DeletionRecord
  begun : List Begun
  /-- The intents of the executions that removed something. -/
  touched : List DeletionRecord
  /-- The items that were removed, with the entry of their deletion. -/
  removals : List (String × Path)

/-- A root with some files, and no history. -/
def World.initial (files : Dict Path FileKind) : World := ⟨files, [], ∅, [], [], [], [], []⟩

/-- What happens. -/
inductive Act
  /-- A process executes a plan that it made of its index, under the fingerprint that was confirmed:
  it appends the intent. -/
  | begin (pid : ℕ) (index : OwnershipIndex) (stat : Path → Metadata)
      (digest : DeletionPlan → UInt64) (target : DeletionTarget) (cause : DeletionCause)
      (policy : Option String) (confirmed : UInt64) (entryId : String) (now : Int64)
      (appended : Appended)
  /-- A process goes on to its next item. -/
  | next (pid : ℕ)
  | remove (pid : ℕ) (cancelled : Bool) (reply : OsReply)
  /-- A process appends how the deletion ended, and is done with it. -/
  | settle (pid : ℕ) (cancelled : Bool) (now : Int64) (appended : Appended)
  | kill (pid : ℕ)
  /-- Other programs change the files. -/
  | other (files : Dict Path FileKind)

/-- How the append of a step ends, if it appends. -/
def Act.appended : Act → Option Appended
  | .begin _ _ _ _ _ _ _ _ _ _ appended => some appended
  | .settle _ _ _ appended => some appended
  | _ => none

/-- The identity of the deletion that a step begins. -/
def Act.entryId : Act → Option String
  | .begin _ _ _ _ _ _ _ _ entryId _ _ => some entryId
  | _ => none

namespace World

variable (json : Json) (ids : Ids) (formatBytes : UInt64 → String)

/-- A record is appended. -/
def append (w : World) (r : DeletionRecord) (appended : Appended) : World :=
  { w with
    ledger := Storage.append json w.ledger r appended
    written := if landed json r appended then w.written ++ [r] else w.written
    attempted := w.attempted ++ [r] }

/-- What is recorded of how a removal ended. -/
def settlement (x : Execution) (cancelled : Bool) (now : Int64) : DeletionRecord :=
  let state := if x.complete && !cancelled then DeletionState.completed else .failed
  let removed := formatBytes (.ofNat x.removed)
  let detail := match state with
    | .completed => "removed " ++ removed
    | _ =>
      if cancelled then "cancelled after removing " ++ removed ++ "; this item is incomplete"
      else "stopped after removing " ++ removed ++ "; this item is incomplete: " ++
        x.errors.head?.getD ""
  x.intent.settled now state (.ofNat x.removed) detail

/-- One step. -/
def step (w : World) : Act → Option World
  | .begin pid index stat digest target cause policy confirmed entryId now appended =>
    let plan := { index.replan ids stat digest target cause policy with digest := confirmed }
    if w.processes.lookup pid = none then
      match index.validate ids stat digest plan entryId now with
      | .error _ => some w
      | .ok intent =>
        let w := { w.append json intent appended with
          begun := w.begun ++ [⟨intent, plan.items.map PlanItem.path⟩] }
        -- an intent that cannot be recorded ends the deletion before it removes anything
        if appendOk json intent appended then
          some { w with
            processes := w.processes.insert pid ⟨intent, plan.items, none, 0, true, []⟩ }
        else some w
    else none
  | .next pid => match w.processes.lookup pid with
    | none => none
    | some x => match x.removal, x.items with
      | none, item :: rest => some { w with
          processes := w.processes.insert pid
            { x with removal := some (.start item.path), items := rest } }
      | _, _ => none
  | .remove pid cancelled reply => match w.processes.lookup pid with
    | none => none
    | some x => match x.removal with
      | none => none
      | some r => match r.step w.files cancelled reply with
        | none => none
        | some (.stopped error) => some { w with
            processes := w.processes.insert pid
              { x with removal := none, items := [], complete := false
                       errors := x.errors ++ error.toList } }
        | some (.went r' unlinked bytes) =>
          some { w with
            files := filesAfter w.files unlinked
            touched := if unlinked.isSome then w.touched ++ [x.intent] else w.touched
            removals := if r'.tasks = [] then w.removals ++ [(x.intent.entryId, r'.path)]
              else w.removals
            processes := w.processes.insert pid
              { x with
                removal := if r'.tasks = [] then none else some r'
                removed := saturatingAdd x.removed bytes } }
  | .settle pid cancelled now appended => match w.processes.lookup pid with
    | none => none
    | some x => match x.removal, x.items with
      | none, [] => some { w.append json (settlement formatBytes x cancelled now) appended with
          processes := w.processes.erase pid }
      | _, _ => none
  | .kill pid => some { w with processes := w.processes.erase pid }
  | .other files => some { w with files }

/-- The processes under one capture root. -/
def machine : Machine World Act := .ofFun (step json ids formatBytes)

variable {json : Json} {ids : Ids} {formatBytes : UInt64 → String}

/-! ### Items that are removed -/

/-- The last task of a removal is about its item. -/
def LastTask (r : Removal) : Prop :=
  ∃ before last, r.tasks = before ++ [last] ∧
    ((∃ depth, last = .visit r.path depth) ∨ last = .removeDir r.path)

theorem lastTask_start (path : Path) : LastTask (.start path) :=
  ⟨[], _, rfl, .inl ⟨0, rfl⟩⟩

theorem LastTask.tail {r : Removal} {task : Task} {rest : List Task} (h : LastTask r)
    (htasks : r.tasks = task :: rest) (new : List Task) (budget : ℕ) (hrest : rest ≠ []) :
    LastTask ⟨r.path, new ++ rest, budget⟩ := by
  obtain ⟨before, last, hlast, hitem⟩ := h
  rw [htasks] at hlast
  cases before with
  | nil =>
    obtain ⟨-, rfl⟩ := List.cons.inj hlast
    exact absurd rfl hrest
  | cons b before =>
    obtain ⟨-, rfl⟩ := List.cons.inj hlast
    exact ⟨new ++ before, last, by simp, hitem⟩

theorem removal_path {r r' : Removal} {files : Dict Path FileKind} {cancelled : Bool}
    {reply : OsReply} {unlinked : Option Path} {bytes : ℕ}
    (h : r.step files cancelled reply = some (.went r' unlinked bytes)) : r'.path = r.path := by
  unfold Removal.step at h
  split at h
  · cases h
  · cases h
  · split_ifs at h
    · cases h
    · cases h
    · split at h
      · cases h
      · dsimp only at h
        split at h <;> cases h <;> rfl
  · split at h
    · cases h
    · split_ifs at h
      cases h
      rfl

/-- What a step of a removal leaves: when no task is left, nothing is at the item's path. -/
theorem removal_step {r r' : Removal} {files : Dict Path FileKind} {cancelled : Bool}
    {reply : OsReply} {unlinked : Option Path} {bytes : ℕ} (hlast : LastTask r)
    (h : r.step files cancelled reply = some (.went r' unlinked bytes)) :
    r'.path = r.path ∧ (r'.tasks ≠ [] → LastTask r') ∧
      (r'.tasks = [] → (filesAfter files unlinked).lookup r.path = none) := by
  -- a task about the last path, when it is the only one, is about the item
  have honly : ∀ task, r.tasks = [task] →
      (∃ depth, task = .visit r.path depth) ∨ task = .removeDir r.path := by
    intro task htask
    obtain ⟨before, last, hl, hitem⟩ := hlast
    rw [htask] at hl
    cases before with
    | nil =>
      obtain ⟨rfl, -⟩ := List.cons.inj hl
      exact hitem
    | cons b before => simp at hl
  unfold Removal.step at h
  split at h
  · cases h
  · cases h
  · rename_i path depth rest htasks
    have hpath : rest = [] → path = r.path := by
      rintro rfl
      obtain ⟨d, hvisit⟩ | hdir := honly _ htasks
      · cases hvisit
        rfl
      · cases hdir
    split_ifs at h with hcancelled hlimit
    · cases h
    · cases h
    · split at h
      · cases h
      · rename_i entries
        dsimp only at h
        split at h
        · rename_i hnone
          cases h
          refine ⟨rfl, fun hrest => hlast.tail htasks [] _ hrest, fun hrest => ?_⟩
          rw [← hpath hrest]
          exact hnone
        · cases h
          refine ⟨rfl, fun hrest => hlast.tail htasks [] _ hrest, fun hrest => ?_⟩
          rw [← hpath hrest]
          exact AList.lookup_erase _ _
        · cases h
          refine ⟨rfl, fun hrest => hlast.tail htasks [] _ hrest, fun hrest => ?_⟩
          rw [← hpath hrest]
          exact AList.lookup_erase _ _
        · cases h
          refine ⟨rfl, fun _ => ?_, fun hrest => by simp at hrest⟩
          by_cases hrest : rest = []
          · subst hrest
            exact ⟨entryTasks path depth entries, _, rfl, .inr (by rw [hpath rfl])⟩
          · have := hlast.tail htasks (entryTasks path depth entries ++ [.removeDir path])
              (r.budget - 1) hrest
            simpa using this
  · rename_i path rest htasks
    split at h
    · cases h
    · split_ifs at h with hholds
      cases h
      refine ⟨rfl, fun hrest => hlast.tail htasks [] _ hrest, fun hrest => ?_⟩
      have hpath : path = r.path := by
        dsimp only at hrest
        subst hrest
        obtain ⟨d, hvisit⟩ | hdir := honly _ htasks
        · cases hvisit
        · cases hdir
          rfl
      rw [← hpath]
      exact AList.lookup_erase _ _

/-- The removals under way have something left to do about their items. -/
def Ordered (w : World) : Prop :=
  ∀ pid x, w.processes.lookup pid = some x → ∀ r, x.removal = some r → LastTask r

variable {r : DeletionRecord} {pid : ℕ} {x : Execution} {w' : World} {act : Act}
  {appended : Appended}

theorem Ordered.insert {w : World} (h : w.Ordered) (hx : ∀ r, x.removal = some r → LastTask r)
    (hprocesses : w'.processes = w.processes.insert pid x) : w'.Ordered := by
  intro pid' x' hlookup r hr
  rw [hprocesses, Dict.lookup_insert_eq] at hlookup
  split_ifs at hlookup with heq
  · cases hlookup
    exact hx r hr
  · exact h pid' x' hlookup r hr

theorem Ordered.erase {w : World} (h : w.Ordered)
    (hprocesses : w'.processes = w.processes.erase pid) : w'.Ordered := by
  intro pid' x' hlookup r hr
  rw [hprocesses, Dict.lookup_erase_eq] at hlookup
  split_ifs at hlookup with heq
  exact h pid' x' hlookup r hr

/-- Some process is inside the deletion of an entry, past its intent and before its settlement. -/
def Executing (w : World) (entryId : String) : Prop :=
  ∃ pid x, w.processes.lookup pid = some x ∧ x.intent.entryId = entryId

/-- What a step does to the processes and to the items that are removed. -/
theorem ordered_step {w : World} (h : w.Ordered) (hstep : w.step json ids formatBytes act = some w') :
    w'.Ordered ∧ ∀ e ∈ w'.removals,
      e ∈ w.removals ∨ w'.files.lookup e.2 = none ∧ w'.Executing e.1 := by
  cases act with
  | begin pid index stat digest target cause policy confirmed entryId now appended =>
    simp only [step] at hstep
    split_ifs at hstep with hfree
    split at hstep
    · cases hstep
      exact ⟨h, fun e he => .inl he⟩
    · split_ifs at hstep with hok
      · cases hstep
        refine ⟨h.insert (x := ⟨_, _, none, 0, true, []⟩) ?_ rfl, fun e he => .inl he⟩
        intro r hr
        cases hr
      · cases hstep
        exact ⟨h, fun e he => .inl he⟩
  | next pid =>
    simp only [step] at hstep
    split at hstep
    · cases hstep
    · split at hstep
      · rename_i x hx _ _ item rest hremoval hitems
        cases hstep
        refine ⟨h.insert ?_ rfl, fun e he => .inl he⟩
        intro r hr
        cases hr
        exact lastTask_start _
      · cases hstep
  | remove pid cancelled reply =>
    simp only [step] at hstep
    split at hstep
    · cases hstep
    · rename_i x hx
      split at hstep
      · cases hstep
      · rename_i r hr
        split at hstep
        · cases hstep
        · cases hstep
          refine ⟨h.insert ?_ rfl, fun e he => .inl he⟩
          intro r' hr'
          cases hr'
        · rename_i r' unlinked bytes hwent
          obtain ⟨hpath, hlast, hgone⟩ := removal_step (h pid x hx r hr) hwent
          cases hstep
          refine ⟨h.insert ?_ rfl, ?_⟩
          · intro r'' hr''
            dsimp only at hr''
            split_ifs at hr'' with htasks
            cases hr''
            exact hlast htasks
          · intro e he
            dsimp only at he
            split_ifs at he with htasks
            · obtain hold | hnew := mem_append.1 he
              · exact .inl hold
              · obtain rfl := mem_singleton.1 hnew
                refine .inr ⟨?_, pid, _, AList.lookup_insert _, rfl⟩
                rw [hpath]
                exact hgone htasks
            · exact .inl he
  | settle pid cancelled now appended =>
    simp only [step] at hstep
    split at hstep
    · cases hstep
    · split at hstep
      · cases hstep
        exact ⟨h.erase rfl, fun e he => .inl he⟩
      · cases hstep
  | kill pid =>
    cases hstep
    exact ⟨h.erase rfl, fun e he => .inl he⟩
  | other files =>
    cases hstep
    exact ⟨h, fun e he => .inl he⟩

variable {files : Dict Path FileKind} {acts : List Act} {w : World}

/-- **An item is taken for removed only when nothing is at its path**: there was such a moment
inside the deletion. -/
theorem removals_gone (h : (machine json ids formatBytes).Run (.initial files) acts w) :
    ∀ e ∈ w.removals, ∃ acts₁ m, acts₁ <+: acts ∧
      (machine json ids formatBytes).Run (.initial files) acts₁ m ∧
      m.files.lookup e.2 = none ∧ m.Executing e.1 := by
  have hordered : ∀ {acts w}, (machine json ids formatBytes).Run (.initial files) acts w →
      w.Ordered := by
    intro acts w h
    refine h.invariant ?_ fun s l s' hs hst => (ordered_step hs hst).1
    intro pid x hlookup
    simp [initial] at hlookup
  induction h with
  | nil =>
    intro e he
    cases he
  | @snoc acts m act w hrun hst ih =>
    intro e he
    obtain hold | hnew := (ordered_step (hordered hrun) hst).2 e he
    · obtain ⟨acts₁, m₁, hpre, hrun₁, hgone⟩ := ih e hold
      exact ⟨acts₁, m₁, hpre.trans (prefix_append _ _), hrun₁, hgone⟩
    · exact ⟨acts ++ [act], w, prefix_refl _, hrun.snoc hst, hnew⟩

/-! ### What the ledger records -/

/-- Nothing is appended to a ledger that ends in a torn line, and deletions have identities of their
own. -/
def Careful (w : World) (act : Act) : Prop :=
  (∀ appended, act.appended = some appended → Untorn w.ledger ∨ appended.Nothing) ∧
    ∀ id, act.entryId = some id → id ∉ w.begun.map fun b => b.intent.entryId

instance (w : World) (act : Act) : Decidable (Careful w act) := by
  unfold Careful
  infer_instance

/-- An intent, of which the boundary names the capture that is deleted. -/
structure Proper (r : DeletionRecord) : Prop where
  schema : r.schemaVersion = LEDGER_SCHEMA_VERSION
  intended : r.state = .intended
  boundary : r.kind = .capture → ∃ b, r.boundary = some b ∧
    b.sourceId = r.targetId ∧ b.wholeCapture = true

/-- The ledger is what was written of it. -/
structure Faithful (json : Json) (w : World) : Prop where
  lines : ∃ tail, newline ∉ tail ∧ w.ledger = whole json w.written ++ tail
  attempted : ∀ r ∈ w.written, r ∈ w.attempted
  schema : ∀ r ∈ w.written, r.schemaVersion = LEDGER_SCHEMA_VERSION

/-- An execution has recorded its intent, and has not forgotten any of its paths. -/
structure Underway (w : World) (x : Execution) : Prop where
  recorded : x.intent ∈ w.written
  begun : ∃ b ∈ w.begun, b.intent = x.intent ∧ (x.complete = true → ∀ path ∈ b.paths,
    (x.intent.entryId, path) ∈ w.removals ∨ (∃ item ∈ x.items, item.path = path) ∨
      ∃ r, x.removal = some r ∧ r.path = path)

/-- What was written agrees with what was done. -/
structure Accounted (w : World) : Prop where
  proper : ∀ b ∈ w.begun, Proper b.intent
  distinct : (w.begun.map fun b => b.intent.entryId).Nodup
  known : ∀ r ∈ w.written, ∃ b ∈ w.begun, b.intent.entryId = r.entryId
  intended : ∀ r ∈ w.written, r.state = .intended → ∃ b ∈ w.begun, b.intent = r
  completed : ∀ r ∈ w.written, r.state = .completed → ∀ b ∈ w.begun,
    b.intent.entryId = r.entryId → ∀ path ∈ b.paths, (r.entryId, path) ∈ w.removals
  executions : ∀ pid x, w.processes.lookup pid = some x → Underway w x
  touched : ∀ r ∈ w.touched, r ∈ w.written ∧ ∃ b ∈ w.begun, b.intent = r

theorem mem_written_append {r' : DeletionRecord} (h : r' ∈ (w.append json r appended).written) :
    r' ∈ w.written ∨ r' = r := by
  simp only [append] at h
  split_ifs at h
  · simpa using h
  · exact .inl h

theorem written_subset_append {r' : DeletionRecord} (h : r' ∈ w.written) :
    r' ∈ (w.append json r appended).written := by
  simp only [append]
  split_ifs
  · exact mem_append_left _ h
  · exact h

theorem Faithful.append (h : Faithful json w) (hr : json.Lawful r)
    (hschema : r.schemaVersion = LEDGER_SCHEMA_VERSION)
    (huntorn : Untorn w.ledger ∨ appended.Nothing) :
    Faithful json (w.append json r appended) where
  lines := by
    obtain ⟨tail, htail, hlines⟩ := h.lines
    rw [hlines] at huntorn
    obtain ⟨tail', htail', happend⟩ := append_whole htail hr huntorn
    refine ⟨tail', htail', ?_⟩
    simp only [World.append, hlines]
    exact happend
  attempted := by
    intro r' hr'
    obtain hold | rfl := mem_written_append hr'
    · exact mem_append_left _ (h.attempted r' hold)
    · exact mem_append_right _ (mem_singleton_self _)
  schema := by
    intro r' hr'
    obtain hold | rfl := mem_written_append hr'
    · exact h.schema r' hold
    · exact hschema

theorem Underway.mono {w : World} (h : Underway w x) (hwritten : ∀ r ∈ w.written, r ∈ w'.written)
    (hbegun : ∀ b ∈ w.begun, b ∈ w'.begun) (hremovals : ∀ e ∈ w.removals, e ∈ w'.removals) :
    Underway w' x where
  recorded := hwritten _ h.recorded
  begun := by
    obtain ⟨b, hb, hintent, hpaths⟩ := h.begun
    refine ⟨b, hbegun b hb, hintent, fun hcomplete path hpath => ?_⟩
    obtain hremoved | hleft := hpaths hcomplete path hpath
    · exact .inl (hremovals _ hremoved)
    · exact .inr hleft

/-- The intent of a plan. -/
theorem validate_intent {index : OwnershipIndex} {stat : Path → Metadata}
    {digest : DeletionPlan → UInt64} {target : DeletionTarget} {cause : DeletionCause}
    {policy : Option String} {confirmed : UInt64} {entryId : String} {now : Int64}
    {intent : DeletionRecord}
    (h : index.validate ids stat digest
      { index.replan ids stat digest target cause policy with digest := confirmed } entryId now =
        .ok intent) :
    Proper intent ∧ intent.entryId = entryId := by
  unfold OwnershipIndex.validate at h
  dsimp only at h
  split_ifs at h with hdigest hallowed
  cases h
  refine ⟨⟨rfl, rfl, fun hkind => ?_⟩, rfl⟩
  cases target with
  | investigation directory =>
    simp only [DeletionRecord.intent, OwnershipIndex.replan, OwnershipIndex.planDeleteInvestigation]
      at hkind
    cases hi : index.investigation directory <;> simp [hi, refusedPlan, finishPlan] at hkind
  | capture source =>
    obtain ⟨htarget, hcause, hpolicy, -⟩ :=
      planDeleteCapture_fields index ids stat digest source cause policy
    simp only [OwnershipIndex.replan, htarget, hcause, hpolicy] at hallowed ⊢
    obtain ⟨c, hc, -⟩ := OwnershipIndex.planDeleteCapture_allowed.1 (by simpa using hallowed)
    have hsource : c.sourceId = source := by simpa using find?_some hc
    refine ⟨c.boundary ids, ?_, ?_, rfl⟩
    · simp [DeletionRecord.intent, OwnershipIndex.planDeleteCapture, hc, finishPlan]
    · simp [DeletionRecord.intent, CaptureUnit.boundary, hsource]

theorem Accounted.unique (h : Accounted w) {b b' : Begun} (hb : b ∈ w.begun) (hb' : b' ∈ w.begun)
    (heq : b.intent.entryId = b'.intent.entryId) : b = b' :=
  inj_on_of_nodup_map h.distinct hb hb' heq

/-- A record is appended about a deletion that was begun. -/
theorem Accounted.append (h : Accounted w) (hknown : ∃ b ∈ w.begun, b.intent.entryId = r.entryId)
    (hintended : r.state = .intended → ∃ b ∈ w.begun, b.intent = r)
    (hcompleted : r.state = .completed → ∀ b ∈ w.begun,
      b.intent.entryId = r.entryId → ∀ path ∈ b.paths, (r.entryId, path) ∈ w.removals) :
    Accounted (w.append json r appended) where
  proper := h.proper
  distinct := h.distinct
  known := by
    intro r' hr'
    obtain hold | rfl := mem_written_append hr'
    · exact h.known r' hold
    · exact hknown
  intended := by
    intro r' hr' hstate
    obtain hold | rfl := mem_written_append hr'
    · exact h.intended r' hold hstate
    · exact hintended hstate
  completed := by
    intro r' hr' hstate
    obtain hold | rfl := mem_written_append hr'
    · exact h.completed r' hold hstate
    · exact hcompleted hstate
  executions := fun pid x hx => (h.executions pid x hx).mono (fun _ => written_subset_append)
    (fun _ hb => hb) fun _ he => he
  touched := fun r' hr' => ⟨written_subset_append (h.touched r' hr').1, (h.touched r' hr').2⟩

/-- A deletion of a new identity is begun. -/
theorem Accounted.begin (h : Accounted w) {intent : DeletionRecord} (hproper : Proper intent)
    (hnew : intent.entryId ∉ w.begun.map fun b => b.intent.entryId) (paths : List Path) :
    Accounted { w with begun := w.begun ++ [⟨intent, paths⟩] } where
  proper := by
    intro b hb
    obtain hold | hb := mem_append.1 hb
    · exact h.proper b hold
    · obtain rfl := mem_singleton.1 hb
      exact hproper
  distinct := by
    rw [map_append, nodup_append]
    refine ⟨h.distinct, nodup_singleton _, fun id hid id' hid' => ?_⟩
    obtain rfl : id' = intent.entryId := by simpa using hid'
    rintro rfl
    exact hnew hid
  known := by
    intro r hr
    obtain ⟨b, hb, heq⟩ := h.known r hr
    exact ⟨b, mem_append_left _ hb, heq⟩
  intended := by
    intro r hr hstate
    obtain ⟨b, hb, heq⟩ := h.intended r hr hstate
    exact ⟨b, mem_append_left _ hb, heq⟩
  completed := by
    intro r hr hstate b hb heq
    obtain hold | hb := mem_append.1 hb
    · exact h.completed r hr hstate b hold heq
    · -- what was completed was begun under another identity
      obtain rfl := mem_singleton.1 hb
      obtain ⟨b', hb', heq'⟩ := h.known r hr
      exact absurd (mem_map.2 ⟨b', hb', heq'.trans heq.symm⟩) hnew
  executions := fun pid x hx => (h.executions pid x hx).mono (fun _ hr => hr)
    (fun _ hb => mem_append_left _ hb) fun _ he => he
  touched := by
    intro r hr
    obtain ⟨hwritten, b, hb, heq⟩ := h.touched r hr
    exact ⟨hwritten, b, mem_append_left _ hb, heq⟩

theorem Accounted.insert (h : Accounted w) (hx : Underway w x) :
    Accounted { w with processes := w.processes.insert pid x } :=
  { h with
    executions := by
      intro pid' x' hlookup
      rw [Dict.lookup_insert_eq] at hlookup
      split_ifs at hlookup with heq
      · cases hlookup
        exact ⟨hx.recorded, hx.begun⟩
      · exact ⟨(h.executions pid' x' hlookup).recorded, (h.executions pid' x' hlookup).begun⟩ }

theorem Accounted.erase (h : Accounted w) (pid : ℕ) :
    Accounted { w with processes := w.processes.erase pid } :=
  { h with
    executions := by
      intro pid' x' hlookup
      rw [Dict.lookup_erase_eq] at hlookup
      split_ifs at hlookup with heq
      exact ⟨(h.executions pid' x' hlookup).recorded, (h.executions pid' x' hlookup).begun⟩ }

/-- Something was removed by an execution that is under way. -/
theorem Accounted.remove (h : Accounted w) (hx : Underway w x) (files : Dict Path FileKind)
    {touched : List DeletionRecord} {removals : List (String × Path)}
    (htouched : ∀ r ∈ touched, r ∈ w.touched ∨ r = x.intent)
    (hremovals : ∀ e ∈ w.removals, e ∈ removals) :
    Accounted { w with files, touched, removals } where
  proper := h.proper
  distinct := h.distinct
  known := h.known
  intended := h.intended
  completed := fun r hr hstate b hb heq path hpath =>
    hremovals _ (h.completed r hr hstate b hb heq path hpath)
  executions := fun pid x' hx' => (h.executions pid x' hx').mono (fun _ hr => hr) (fun _ hb => hb)
    hremovals
  touched := by
    intro r hr
    obtain hold | rfl := htouched r hr
    · exact h.touched r hold
    · obtain ⟨b, hb, heq, -⟩ := hx.begun
      exact ⟨hx.recorded, b, hb, heq⟩

/-- A record is attempted to be appended by a step, or what was attempted stays. -/
theorem attempted_step (hstep : w.step json ids formatBytes act = some w') :
    ∀ r ∈ w.attempted, r ∈ w'.attempted := by
  intro r hr
  cases act with
  | begin pid index stat digest target cause policy confirmed entryId now appended =>
    simp only [step] at hstep
    split_ifs at hstep with hfree
    split at hstep
    · cases hstep
      exact hr
    · split_ifs at hstep with hok <;> cases hstep <;> exact mem_append_left _ hr
  | next pid =>
    simp only [step] at hstep
    split at hstep
    · cases hstep
    · split at hstep <;> cases hstep
      exact hr
  | remove pid cancelled reply =>
    simp only [step] at hstep
    split at hstep
    · cases hstep
    · split at hstep
      · cases hstep
      · split at hstep <;> cases hstep <;> exact hr
  | settle pid cancelled now appended =>
    simp only [step] at hstep
    split at hstep
    · cases hstep
    · split at hstep <;> cases hstep
      exact mem_append_left _ hr
  | kill pid | other files =>
    cases hstep
    exact hr

/-- What holds of the ledger and of what was done, as long as records are encoded soundly. -/
def Consistent (json : Json) (w : World) : Prop := Faithful json w ∧ Accounted w

/-- **A careful step keeps the ledger faithful and the deletions accounted for.** -/
theorem consistent_step (h : Consistent json w) (hcareful : Careful w act)
    (hlawful : ∀ r ∈ w'.attempted, json.Lawful r)
    (hstep : w.step json ids formatBytes act = some w') : Consistent json w' := by
  obtain ⟨hfaithful, haccounted⟩ := h
  cases act with
  | begin pid index stat digest target cause policy confirmed entryId now appended =>
    obtain ⟨huntorn, hnew⟩ := hcareful
    simp only [step] at hstep
    split_ifs at hstep with hfree
    split at hstep
    · cases hstep
      exact ⟨hfaithful, haccounted⟩
    · rename_i intent hvalid
      obtain ⟨hproper, rfl⟩ := validate_intent hvalid
      generalize (index.replan ids stat digest target cause policy).items = items at hstep
      generalize hpaths : items.map PlanItem.path = paths at hstep
      have hbegun := haccounted.begin hproper (hnew _ rfl) paths
      have hmem : (⟨intent, paths⟩ : Begun) ∈ w.begun ++ [⟨intent, paths⟩] := by simp
      have happended : Accounted (World.append json
          { w with begun := w.begun ++ [⟨intent, paths⟩] } intent appended) := by
        refine hbegun.append ⟨_, hmem, rfl⟩ (fun _ => ⟨_, hmem, rfl⟩) fun hstate => ?_
        rw [hproper.intended] at hstate
        cases hstate
      split_ifs at hstep with hok
      · cases hstep
        have hlawful' := hlawful intent (by simp [World.append])
        refine ⟨⟨(hfaithful.append hlawful' hproper.schema (huntorn _ rfl)).lines,
          (hfaithful.append hlawful' hproper.schema (huntorn _ rfl)).attempted,
          (hfaithful.append hlawful' hproper.schema (huntorn _ rfl)).schema⟩, ?_⟩
        refine happended.insert (x := ⟨intent, items, none, 0, true, []⟩)
          ⟨?_, ⟨intent, paths⟩, hmem, rfl, fun _ path hpath => ?_⟩
        · simp [World.append, landed_of_appendOk hok]
        · rw [← hpaths] at hpath
          obtain ⟨item, hitem, rfl⟩ := mem_map.1 hpath
          exact .inr (.inl ⟨item, hitem, rfl⟩)
      · cases hstep
        have hlawful' := hlawful intent (by simp [World.append])
        exact ⟨⟨(hfaithful.append hlawful' hproper.schema (huntorn _ rfl)).lines,
          (hfaithful.append hlawful' hproper.schema (huntorn _ rfl)).attempted,
          (hfaithful.append hlawful' hproper.schema (huntorn _ rfl)).schema⟩, happended⟩
  | next pid =>
    simp only [step] at hstep
    split at hstep
    · cases hstep
    · rename_i x hx
      obtain ⟨hrecorded, b, hb, heq, hpaths⟩ := haccounted.executions pid x hx
      split at hstep
      · rename_i item rest hremoval hitems
        cases hstep
        refine ⟨⟨hfaithful.lines, hfaithful.attempted, hfaithful.schema⟩,
          haccounted.insert ⟨hrecorded, b, hb, heq, fun hcomplete path hpath => ?_⟩⟩
        obtain hremoved | ⟨item', hitem', rfl⟩ | ⟨r, hr, -⟩ := hpaths hcomplete path hpath
        · exact .inl hremoved
        · rw [hitems] at hitem'
          obtain rfl | hrest := mem_cons.1 hitem'
          · exact .inr (.inr ⟨_, rfl, rfl⟩)
          · exact .inr (.inl ⟨item', hrest, rfl⟩)
        · rw [hremoval] at hr
          cases hr
      · cases hstep
  | remove pid cancelled reply =>
    simp only [step] at hstep
    split at hstep
    · cases hstep
    · rename_i x hx
      have hunderway := haccounted.executions pid x hx
      obtain ⟨hrecorded, b, hb, heq, hpaths⟩ := haccounted.executions pid x hx
      split at hstep
      · cases hstep
      · rename_i r hr
        split at hstep
        · cases hstep
        · cases hstep
          refine ⟨⟨hfaithful.lines, hfaithful.attempted, hfaithful.schema⟩,
            haccounted.insert ⟨hrecorded, b, hb, heq, fun hcomplete => ?_⟩⟩
          cases hcomplete
        · rename_i r' unlinked bytes hwent
          have hpath : r'.path = r.path := removal_path hwent
          cases hstep
          have hremoved : Accounted { w with
              files := filesAfter w.files unlinked
              touched := if unlinked.isSome then w.touched ++ [x.intent] else w.touched
              removals := if r'.tasks = [] then w.removals ++ [(x.intent.entryId, r'.path)]
                else w.removals } := by
            refine haccounted.remove hunderway _ (fun r₀ hr₀ => ?_) fun e he => ?_
            · split_ifs at hr₀
              · simpa using hr₀
              · exact .inl hr₀
            · split_ifs
              · exact mem_append_left _ he
              · exact he
          refine ⟨⟨hfaithful.lines, hfaithful.attempted, hfaithful.schema⟩,
            hremoved.insert ⟨hrecorded, b, hb, heq, fun hcomplete path hpath' => ?_⟩⟩
          obtain hold | hitem | ⟨r₀, hr₀, rfl⟩ := hpaths hcomplete path hpath'
          · left
            dsimp only
            split_ifs
            · exact mem_append_left _ hold
            · exact hold
          · exact .inr (.inl hitem)
          · rw [hr] at hr₀
            cases hr₀
            dsimp only
            split_ifs with htasks
            · exact .inl (by simp [hpath])
            · exact .inr (.inr ⟨r', rfl, hpath⟩)
  | settle pid cancelled now appended =>
    obtain ⟨huntorn, -⟩ := hcareful
    simp only [step] at hstep
    split at hstep
    · cases hstep
    · rename_i x hx
      obtain ⟨hrecorded, b, hb, heq, hpaths⟩ := haccounted.executions pid x hx
      split at hstep
      · rename_i hremoval hitems
        cases hstep
        have hlawful' := hlawful (settlement formatBytes x cancelled now) (by simp [World.append])
        have hschema : (settlement formatBytes x cancelled now).schemaVersion =
            LEDGER_SCHEMA_VERSION := hfaithful.schema x.intent hrecorded
        have hfaithful' := hfaithful.append hlawful' hschema (huntorn _ rfl)
        refine ⟨⟨hfaithful'.lines, hfaithful'.attempted, hfaithful'.schema⟩,
          (haccounted.append (r := settlement formatBytes x cancelled now)
            ⟨b, hb, by rw [heq]; rfl⟩ ?_ ?_).erase pid⟩
        · intro hstate
          simp only [settlement, DeletionRecord.settled] at hstate
          split_ifs at hstate
        · intro hstate b' hb' heq' path hpath
          have hcomplete : x.complete = true := by
            simp only [settlement, DeletionRecord.settled] at hstate
            split_ifs at hstate with hdone
            exact (Bool.and_eq_true _ _ ▸ hdone).1
          obtain rfl : b = b' := haccounted.unique hb hb'
            ((congrArg DeletionRecord.entryId heq).trans heq'.symm)
          obtain hremoved | ⟨item, hitem, -⟩ | ⟨r, hr, -⟩ := hpaths hcomplete path hpath
          · exact hremoved
          · rw [hitems] at hitem
            cases hitem
          · rw [hremoval] at hr
            cases hr
      · cases hstep
  | kill pid =>
    cases hstep
    exact ⟨⟨hfaithful.lines, hfaithful.attempted, hfaithful.schema⟩, haccounted.erase pid⟩
  | other files =>
    cases hstep
    refine ⟨⟨hfaithful.lines, hfaithful.attempted, hfaithful.schema⟩, ?_⟩
    exact ⟨haccounted.proper, haccounted.distinct, haccounted.known, haccounted.intended,
      haccounted.completed, fun pid x hx => (haccounted.executions pid x hx).mono (fun _ hr => hr)
        (fun _ hb => hb) fun _ he => he, haccounted.touched⟩

theorem consistent_initial (files : Dict Path FileKind) : Consistent json (.initial files) := by
  refine ⟨⟨⟨[], not_mem_nil, by simp [initial, whole]⟩, ?_, ?_⟩, ?_⟩
  · simp [initial]
  · simp [initial]
  · constructor <;> simp [initial]

theorem consistent_run (h : ((machine json ids formatBytes).only Careful).Run (.initial files) acts w)
    (hlawful : ∀ r ∈ w.attempted, json.Lawful r) : Consistent json w := by
  have hrun : (∀ r ∈ w.attempted, json.Lawful r) → Consistent json w :=
    h.invariant_only (I := fun w => (∀ r ∈ w.attempted, json.Lawful r) → Consistent json w)
      (fun _ => consistent_initial files) fun s act s' ih hcareful hst hlawful' =>
        consistent_step (ih fun r hr => hlawful' r (attempted_step hst r hr)) hcareful hlawful' hst
  exact hrun hlawful

/-- **No deletion without a visible boundary.**  In every careful run, whatever is killed and
whenever, a ledger that is read without a fault
* is read as truncated, or has the gap of each capture of which something was removed, with its
  boundary;
* is read as the records whose lines were written whole, in order, all of them unless truncated;
* has a gap as completed only if at each path of its plan nothing was left at some moment between
  its intent and its settlement. -/
theorem gaps_visible (h : ((machine json ids formatBytes).only Careful).Run (.initial files) acts w)
    (hlawful : ∀ r ∈ w.attempted, json.Lawful r) :
    let readout := read json .fine w.ledger
    (∀ r ∈ w.touched, r.kind = .capture → readout.truncated = true ∨
      ∃ b, r.boundary = some b ∧ b.sourceId = r.targetId ∧ b.wholeCapture = true ∧
        ∃ gap ∈ captureGaps formatBytes readout.records,
          gap = gapOf formatBytes readout.records r ∧ gap.sourceId = r.targetId) ∧
    (readout.records <+: w.written ∧
      (readout.truncated = false → readout.records = w.written)) ∧
    ∀ gap ∈ captureGaps formatBytes readout.records, gap.state = .completed →
      ∃ b ∈ w.begun, gap = gapOf formatBytes readout.records b.intent ∧ ∀ path ∈ b.paths,
        ∃ acts₁ m, acts₁ <+: acts ∧
          (machine json ids formatBytes).Run (.initial files) acts₁ m ∧
          m.files.lookup path = none ∧ m.Executing b.intent.entryId := by
  intro readout
  obtain ⟨⟨⟨tail, htail, hlines⟩, hattempted, hschema⟩, haccounted⟩ := consistent_run h hlawful
  have hsound : Sound json w.written := fun r hr => ⟨hlawful r (hattempted r hr), hschema r hr⟩
  obtain ⟨hhead, hall⟩ := read_join hsound htail
  rw [← hlines] at hhead hall
  refine ⟨fun r hr hkind => ?_, ⟨hhead, hall⟩, fun gap hgap hcompleted => ?_⟩
  · cases htruncated : readout.truncated with
    | true => exact .inl rfl
    | false =>
      right
      obtain ⟨hwritten, b₀, hb₀, rfl⟩ := haccounted.touched r hr
      obtain ⟨-, hintended, hboundary⟩ := haccounted.proper b₀ hb₀
      obtain ⟨b, hb, hsource, hwhole⟩ := hboundary hkind
      refine ⟨b, hb, hsource, hwhole, _, mem_map.2 ⟨b₀.intent, mem_filter.2 ⟨?_, ?_⟩, rfl⟩,
        rfl, ?_⟩
      · rw [hall htruncated]
        exact hwritten
      · simp [isCaptureIntent, hintended, hkind]
      · simp [gapOf, hb, hsource]
  · obtain ⟨r, hr, rfl⟩ := mem_map.1 hgap
    obtain ⟨hmem, hintent⟩ := mem_filter.1 hr
    simp only [isCaptureIntent, Bool.and_eq_true, decide_eq_true_eq] at hintent
    obtain ⟨b, hb, rfl⟩ := haccounted.intended r (hhead.subset hmem) hintent.1
    refine ⟨b, hb, rfl, fun path hpath => ?_⟩
    obtain ⟨r', hr', hid, hstate⟩ := settled_of_completed hcompleted
    have hremoved := haccounted.completed r' (hhead.subset hr') hstate b hb hid.symm path hpath
    rw [← hid]
    exact removals_gone h.of_only _ hremoved

end World

/-! ### Two runs -/

section Example

/-- The text of a string that needs no escapes. -/
def quoted (text : String) : String := "\"" ++ text ++ "\""

/-- The text of a value, or `null`. -/
def orNull {α : Type} [ToString α] : Option α → String
  | some value => toString value
  | none => "null"

/-- The text of a boundary. -/
def boundaryText (b : CaptureBoundary) : String :=
  "\x7b\"source_id\":" ++ quoted b.sourceId ++ ",\"source_name\":" ++ quoted b.sourceName ++
    ",\"generation\":" ++ toString b.generation ++ ",\"first_sequence\":" ++ orNull b.firstSequence ++
    ",\"last_sequence\":" ++ orNull b.lastSequence ++ ",\"reserved_sequence_upper_bound\":" ++
    orNull b.reservedSequenceUpperBound ++ ",\"first_captured_at_unix_nanos\":" ++
    orNull b.firstCapturedAtUnixNanos ++ ",\"journal_bytes\":" ++ toString b.journalBytes ++
    ",\"whole_capture\":" ++ toString b.wholeCapture ++ ",\"probed\":" ++ toString b.probed ++ "\x7d"

/-- The text of a record. -/
def recordText (r : DeletionRecord) : String :=
  let state := match r.state with
    | .intended => "intended"
    | .completed => "completed"
    | .failed => "failed"
  let kind := match r.kind with
    | .capture => "capture"
    | .investigation => "investigation"
  let cause := match r.cause with
    | .userRequested => "user_requested"
    | .retention => "retention"
  let policy := match r.policy with
    | some policy => ",\"policy\":" ++ quoted policy
    | none => ""
  let boundary := match r.boundary with
    | some b => ",\"boundary\":" ++ boundaryText b
    | none => ""
  "\x7b\"schema_version\":" ++ toString r.schemaVersion ++ ",\"entry_id\":" ++ quoted r.entryId ++
    ",\"recorded_at_unix_nanos\":" ++ toString r.recordedAtUnixNanos ++ ",\"state\":" ++ quoted state ++
    ",\"kind\":" ++ quoted kind ++ ",\"target_id\":" ++ quoted r.targetId ++ ",\"target_label\":" ++
    quoted r.targetLabel ++ ",\"cause\":" ++ quoted cause ++ policy ++ boundary ++
    ",\"bytes_freed\":" ++ toString r.bytesFreed ++ ",\"detail\":" ++ quoted r.detail ++ "\x7d"

/-- The encoding of some records; every other line is no record. -/
def exampleJson (known : List DeletionRecord) : Json where
  toVec r := (recordText r).toByteArray.data.toList
  fromLine line :=
    match known.find? fun r => decide ((recordText r).toByteArray.data.toList ++ [newline] = line) with
    | some r => .ok r
    | none => .error "expected value at line 1 column 1"
  utf8 _ := true

def exampleFormat (bytes : UInt64) : String := toString bytes ++ " B"

/-- A capture of one record. -/
def exampleIndex : OwnershipIndex where
  root := ["captures"]
  captures := [⟨⟨.filled 0x11⟩, "source", ["captures", exampleName], 1, 10, 10, 0, none, none, some 0,
    none, false, false, []⟩]
  investigations := []
  derived := []
  workspaceBytes := 0
  truncated := false
  cancelled := false
  errors := []

/-- Its files. -/
def exampleFiles : Dict Path FileKind :=
  ((∅ : Dict Path FileKind).insert ["captures", exampleName] .directory).insert
    ["captures", exampleName, "source.journal"] (.file 10)

/-- Its deletion is begun. -/
def exampleBegin (pid : ℕ) (entryId : String) (appended : Appended) : Act :=
  .begin pid exampleIndex (fun _ => .directory) (fun _ => 0) (.capture ⟨.filled 0x11⟩) .userRequested
    none 0 entryId 1 appended

/-- What is recorded when it is begun, and when it is done. -/
def exampleIntent (entryId : String) : DeletionRecord :=
  .intent entryId 1 .capture exampleName "source (11111111)" .userRequested none
    (some ⟨exampleName, "source", 1, some 0, none, none, none, 10, true, true⟩) 10

def exampleSettled (entryId : String) (bytes : UInt64) : DeletionRecord :=
  (exampleIntent entryId).settled 2 .completed bytes ("removed " ++ exampleFormat bytes)

def exampleRecords : List DeletionRecord :=
  [exampleIntent "1-1-0", exampleIntent "1-2-0", exampleSettled "1-2-0" 0, exampleSettled "1-2-0" 10]

/-- What is relied on of an encoding, as a check. -/
def lawful (json : Json) (r : DeletionRecord) : Bool :=
  decide (newline ∉ json.toVec r) && json.utf8 (json.line r) &&
    decide (json.fromLine (json.line r) = .ok r)

theorem lawful_iff {json : Json} : lawful json r = true ↔ json.Lawful r := by
  simp only [lawful, Bool.and_eq_true, decide_eq_true_eq]
  exact ⟨fun h => ⟨h.1.1, h.1.2, h.2⟩, fun h => ⟨⟨h.oneLine, h.utf8⟩, h.fromLine⟩⟩

theorem example_lawful : ∀ r ∈ exampleRecords, (exampleJson exampleRecords).Lawful r := by
  have hall : exampleRecords.all (lawful (exampleJson exampleRecords)) = true := by decide +kernel
  exact fun r hr => lawful_iff.1 (all_eq_true.1 hall r hr)

/-- The processes of the runs. -/
abbrev exampleMachine : Machine World Act :=
  World.machine (exampleJson exampleRecords) exampleOutside.ids exampleFormat

/-- A process is killed when it has removed the journal, and another one removes the rest. -/
def exampleKilled : List Act :=
  [exampleBegin 1 "1-1-0" .synced, .next 1, .remove 1 false (.done [.ok "source.journal"]),
   .remove 1 false (.done []), .kill 1,
   exampleBegin 2 "1-2-0" .synced, .next 2, .remove 2 false (.done []), .remove 2 false (.done []),
   .settle 2 false 2 .synced]

/-- The gap of the deletion that was killed is visible. -/
theorem killed_gap_visible : ∃ w, exampleMachine.Run (.initial exampleFiles) exampleKilled w ∧
    exampleIntent "1-1-0" ∈ w.touched ∧
    ∃ gap ∈ captureGaps exampleFormat (read (exampleJson exampleRecords) .fine w.ledger).records,
      gap.sourceId = exampleName := by
  obtain ⟨w, hcareful, hattempted, htouched, hnot⟩ : ∃ w,
      (exampleMachine.only World.Careful).Run (.initial exampleFiles) exampleKilled w ∧
      (∀ r ∈ w.attempted, r ∈ exampleRecords) ∧ exampleIntent "1-1-0" ∈ w.touched ∧
      (read (exampleJson exampleRecords) .fine w.ledger).truncated = false :=
    Machine.exists_run_only (by decide +kernel)
  obtain ⟨hgaps, -⟩ := World.gaps_visible hcareful fun r hr => example_lawful r (hattempted r hr)
  obtain htruncated | ⟨b, -, -, -, gap, hgap, -, hsource⟩ := hgaps _ htouched rfl
  · rw [hnot] at htruncated
    cases htruncated
  · exact ⟨w, hcareful.of_only, htouched, gap, hgap, hsource⟩

/-- A process is killed when it has written a part of its intent; another one removes the capture. -/
def exampleTorn : List Act :=
  [exampleBegin 1 "1-1-0" (.killed 5),
   exampleBegin 2 "1-2-0" .synced, .next 2, .remove 2 false (.done [.ok "source.journal"]),
   .remove 2 false (.done []), .remove 2 false (.done []), .settle 2 false 2 .synced]

/-- **An intent that is appended to a torn line is lost with it**: the capture is gone, its
deletion is settled, and no gap is shown. -/
theorem torn_line_hides_gap : ∃ w, exampleMachine.Run (.initial exampleFiles) exampleTorn w ∧
    (∀ r ∈ w.attempted, (exampleJson exampleRecords).Lawful r) ∧
    (w.begun.map fun b => b.intent.entryId).Nodup ∧
    (∃ r ∈ w.touched, r.kind = .capture ∧ r.targetId = exampleName) ∧
    (read (exampleJson exampleRecords) .fine w.ledger).truncated = false ∧
    captureGaps exampleFormat (read (exampleJson exampleRecords) .fine w.ledger).records = [] := by
  obtain ⟨w, hrun, hattempted, hdistinct, htouched, hnot, hnone⟩ : ∃ w,
      exampleMachine.Run (.initial exampleFiles) exampleTorn w ∧
      (∀ r ∈ w.attempted, r ∈ exampleRecords) ∧ (w.begun.map fun b => b.intent.entryId).Nodup ∧
      exampleIntent "1-2-0" ∈ w.touched ∧
      (read (exampleJson exampleRecords) .fine w.ledger).truncated = false ∧
      (captureGaps exampleFormat
        (read (exampleJson exampleRecords) .fine w.ledger).records).isEmpty = true :=
    Machine.exists_run (by decide +kernel)
  exact ⟨w, hrun, fun r hr => example_lawful r (hattempted r hr), hdistinct,
    ⟨_, htouched, rfl, rfl⟩, hnot, List.isEmpty_iff.1 hnone⟩

end Example

end Lvu.Storage
