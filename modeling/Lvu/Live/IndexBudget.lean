import Lvu.Data.Dict
import Lvu.Machine.Run
import Lvu.Storage.Plan

/-!
# The budget of the derived indexes

Every index of rows stands in one directory (`lvu-live/src/index.rs`), beside a ledger of how many
bytes they may hold together.  Whoever lets an index grow holds the ownership lock of the
directory, so that one operation follows another.  Of an index only its length is told here, and
what the file system answers is given with each operation.

* `reconcileBudget` : the ledger is written anew from what the directory holds.
* `reserveBudget` : room for growth is taken from the ledger.
* `openBudgeted`, `appendPage`, `removeArtifact` : what is done to the indexes.
-/

namespace Lvu.IndexBudget

def HEADER_LEN : ℕ := 60

def ENTRY_LEN : ℕ := 40

/-- `u64::MAX`. -/
def U64_MAX : ℕ := 18446744073709551615

/-! ### The ledger -/

structure BudgetState where
  bytes : ℕ
  maximum : ℕ
  verified : Bool
deriving DecidableEq

/-- The file `.lvu-index-budget`. -/
inductive LedgerFile
  | missing
  /-- Too short, or of another checksum. -/
  | garbled
  | holds (state : BudgetState)

/-- Why an operation ends early. -/
inductive BudgetError
  | notFound
  | io
  /-- "global derived-index budget ledger is invalid". -/
  | invalid
  /-- "global derived-index budget ledger is unverified while writers are active; growth refused". -/
  | unverifiedWhileActive
  /-- "global derived-index budget mismatch". -/
  | mismatch (shared requested : ℕ)
  /-- "global derived-index budget reached". -/
  | reached (bytes added maximum : ℕ)

/-- What comes of a write of the ledger. -/
inductive WriteAnswer
  | written
  /-- It could not be opened. -/
  | unopened
  /-- It was truncated, and not written in full. -/
  | torn
deriving DecidableEq

/-- What the file system answers where the ledger is read and then written. -/
structure LedgerAnswers where
  readFails : Bool
  write : WriteAnswer

def readBudget (readFails : Bool) : LedgerFile → Except BudgetError BudgetState
  | .missing => if readFails then .error .io else .error .notFound
  | .garbled => if readFails then .error .io else .error .invalid
  | .holds state => if readFails then .error .io else .ok state

def writeBudget (answer : WriteAnswer) (state : BudgetState) (l : LedgerFile) :
    Except BudgetError Unit × LedgerFile :=
  match answer with
  | .written => (.ok (), .holds state)
  | .unopened => (.error .io, l)
  | .torn => (.error .io, .garbled)

def reserveBudget (a : LedgerAnswers) (added maximum : ℕ) (l : LedgerFile) :
    Except BudgetError Unit × LedgerFile :=
  match readBudget a.readFails l with
  | .error e => (.error e, l)
  | .ok state =>
    if state.verified = false then
      -- the aggregate is unknown, and not enforced
      writeBudget a.write { state with bytes := Storage.saturatingAdd state.bytes added } l
    else if state.maximum ≠ maximum then (.error (.mismatch state.maximum maximum), l)
    else if state.maximum < Storage.saturatingAdd state.bytes added then
      (.error (.reached state.bytes added state.maximum), l)
    else writeBudget a.write { state with bytes := state.bytes + added } l

def releaseBudgetLocked (a : LedgerAnswers) (released : ℕ) (l : LedgerFile) :
    Except BudgetError Unit × LedgerFile :=
  match readBudget a.readFails l with
  | .error e => (.error e, l)
  | .ok state => writeBudget a.write { state with bytes := state.bytes - released } l

/-! ### The directory -/

/-- What comes of the attempt to lock an index. -/
inductive LockAnswer
  | free
  /-- Another handle has it. -/
  | held
  /-- It could not be opened, or not be tried. -/
  | failed
deriving DecidableEq

/-- What is learned of an index in the directory. -/
inductive IndexAnswer
  /-- Not even that it is a file. -/
  | unknown
  | noMetadata
  | sized (lock : LockAnswer)

/-- What `read_dir` yields. -/
inductive DirItem (N : Type)
  /-- An entry that cannot be read: an index perhaps. -/
  | unreadable (entry : Option ((_ : N) × ℕ))
  /-- An entry of another name. -/
  | other
  /-- An entry with the name of an index, and no file. -/
  | irregular
  | index (entry : (_ : N) × ℕ) (answer : IndexAnswer)

/-- The index that an entry is. -/
def DirItem.index? {N : Type} : DirItem N → Option ((_ : N) × ℕ)
  | .unreadable entry => entry
  | .other | .irregular => none
  | .index entry _ => some entry

/-- What a look at the directory found. -/
structure Scan where
  bytes : ℕ
  verified : Bool
  active : Bool

/-- A turn of the loop of `reconcile_budget`. -/
def Scan.item {N : Type} (sc : Scan) : DirItem N → Scan
  | .unreadable _ | .irregular => { sc with verified := false }
  | .other => sc
  | .index entry answer =>
    match answer with
    | .unknown | .noMetadata => { sc with verified := false }
    | .sized .free => { sc with bytes := Storage.saturatingAdd sc.bytes entry.2 }
    | .sized .held => { sc with bytes := Storage.saturatingAdd sc.bytes entry.2, active := true }
    | .sized .failed => { sc with bytes := Storage.saturatingAdd sc.bytes entry.2, verified := false }

/-- The loop of `reconcile_budget`. -/
def scan {N : Type} (limit : ℕ) (items : List (DirItem N)) : Scan :=
  let sc := (items.take limit).foldl Scan.item ⟨0, true, false⟩
  if limit < items.length then { sc with verified := false } else sc

/-- What the file system answers to `reconcile_budget`. -/
structure ReconcileAnswers (N : Type) where
  /-- The entries of the directory, unless it cannot be read. -/
  listing : Option (List (DirItem N))
  ledger : LedgerAnswers

/-- The end of `reconcile_budget`. -/
def recordScan (answer : WriteAnswer) (state : BudgetState) (l : LedgerFile) :
    Except BudgetError BudgetState × LedgerFile :=
  match writeBudget answer state l with
  | (.error e, l') => (.error e, l')
  | (.ok (), l') => (.ok state, l')

def reconcileBudget {N : Type} (a : ReconcileAnswers N) (limit requestedMaximum : ℕ)
    (l : LedgerFile) : Except BudgetError BudgetState × LedgerFile :=
  match a.listing with
  | none => (.error .io, l)
  | some items =>
    let sc := scan limit items
    let state : BudgetState := ⟨sc.bytes, requestedMaximum, sc.verified⟩
    match readBudget a.ledger.readFails l with
    | .ok existing =>
      if existing.maximum ≠ requestedMaximum ∧ sc.active = true then
        (.error (.mismatch existing.maximum requestedMaximum), l)
      else recordScan a.ledger.write state l
    | .error .notFound => recordScan a.ledger.write state l
    | .error _ =>
      if sc.active then (.error .unverifiedWhileActive, l) else recordScan a.ledger.write state l

/-- What `reconcile_after_mutation` does where the reconciliation failed. -/
def markUnverified (a : LedgerAnswers) (l : LedgerFile) : LedgerFile :=
  match readBudget a.readFails l with
  | .error _ => l
  | .ok state => (writeBudget a.write { state with verified := false } l).2

/-! ### The indexes -/

/-- `IndexBudget`. -/
structure Budget where
  perSource : ℕ
  total : ℕ
  reconciliationLimit : ℕ

/-- What an open `DiskIndex` knows of the budget. -/
structure Handle where
  maximumTotalBytes : ℕ
  reconciliationLimit : ℕ

/-- A growth that was granted. -/
structure Grant where
  /-- The ledger was verified then. -/
  verified : Bool
  /-- The size of an earlier mutation was not reconciled. -/
  outstanding : Bool
  maximum : ℕ
  /-- The bytes of all indexes after the operation. -/
  total : ℕ

/-- The directory of the indexes, and the indexes that are open.  The last two fields are kept by no
program: whether a mutation failed whose size was not reconciled since, and the growth that was
granted. -/
structure Indexes (N : Type) [DecidableEq N] where
  files : Dict N ℕ
  ledger : LedgerFile
  handles : Dict N Handle
  outstanding : Bool
  grants : List Grant

section Operations

variable {N : Type} [DecidableEq N]

/-- The answers tell of the indexes that are there, in some order. -/
def ReconcileAnswers.Lists (a : ReconcileAnswers N) (files : Dict N ℕ) : Prop :=
  ∀ items ∈ a.listing, (items.filterMap DirItem.index?).Perm files.entries

instance (a : ReconcileAnswers N) (files : Dict N ℕ) : Decidable (a.Lists files) :=
  inferInstanceAs (Decidable (∀ items ∈ a.listing, _))

/-- A reconciliation that found all there is. -/
def isClean : Except BudgetError BudgetState → Bool
  | .ok state => state.verified
  | .error _ => false

namespace Indexes

/-- The total of the files, `*.rows.idx`. -/
def total (s : Indexes N) : ℕ := Dict.total s.files

/-- An index has another length. -/
def resized (s : Indexes N) (name : N) (length : ℕ) : Indexes N :=
  { s with files := s.files.insert name length }

/-- `reconcile_budget`, of the directory as it is. -/
def reconcile (s : Indexes N) (a : ReconcileAnswers N) (limit requestedMaximum : ℕ) :
    Option (Except BudgetError BudgetState × Indexes N) :=
  if a.Lists s.files then
    let result := reconcileBudget a limit requestedMaximum s.ledger
    some (result.1,
      { s with ledger := result.2, outstanding := s.outstanding && !isClean result.1 })
  else none

def reconcileAfterMutation (s : Indexes N) (a : ReconcileAnswers N) (mark : LedgerAnswers)
    (limit total : ℕ) : Option (Indexes N) :=
  match s.reconcile a limit total with
  | none => none
  | some (.ok _, s) => some s
  | some (.error _, s) =>
    some { s with ledger := markUnverified mark s.ledger, outstanding := true }

end Indexes

/-! ### Growth -/

/-- How far an operation came without room for growth. -/
inductive Prepared (N : Type) [DecidableEq N]
  /-- It ended. -/
  | done (s : Indexes N)
  /-- It asks for so many bytes. -/
  | asks (s : Indexes N) (added maximum : ℕ)

/-- The reservation, and what is done once it is granted. -/
def Prepared.finish (a : LedgerAnswers) (mutate : Indexes N → Option (Indexes N)) :
    Prepared N → Option (Indexes N)
  | .done s => some s
  | .asks s added maximum =>
    match reserveBudget a added maximum s.ledger with
    | (.error _, l) => some { s with ledger := l }
    | (.ok (), l) =>
      match mutate { s with ledger := l } with
      | none => none
      | some s' =>
        match s.ledger with
        | .holds state =>
          if 0 < added then
            some { s' with
              grants := s'.grants ++ [⟨state.verified, s.outstanding, state.maximum, s'.total⟩] }
          else some s'
        | _ => some s'

/-- What `validate` says, and the length it leaves. -/
inductive Validation
  | accepted (length : ℕ)
  | refused (length : ℕ)

/-- Where the rebuild of an index fails. -/
inductive RebuildFault
  | notTruncated
  /-- So much of the header was written. -/
  | cut (written : ℕ)

/-- The length a failed rebuild leaves. -/
def RebuildFault.length (prior : ℕ) : RebuildFault → ℕ
  | .notTruncated => prior
  | .cut written => min written HEADER_LEN

/-- What the file system answers to `open_budgeted`. -/
structure OpenAnswers (N : Type) where
  /-- The ownership lock is had. -/
  owned : Bool
  first : ReconcileAnswers N
  /-- The index is opened, or created. -/
  opened : Bool
  /-- Nothing but an open index is in the way of its lock. -/
  lockable : Bool
  validation : Validation
  /-- Its length is told. -/
  measured : Bool
  reserve : LedgerAnswers
  rebuild : Option RebuildFault
  after : ReconcileAnswers N
  mark : LedgerAnswers

/-- `open_budgeted` once the index is locked, up to the reservation. -/
def prepareLocked (s : Indexes N) (name : N) (present : ℕ) (budget : Budget) (accounted : BudgetState)
    (a : OpenAnswers N) : Prepared N :=
  match a.validation with
  | .accepted length =>
    let s := s.resized name (min length present)
    .done { s with
      handles := s.handles.insert name ⟨budget.total, budget.reconciliationLimit⟩ }
  | .refused length =>
    let prior := min length present
    let s := s.resized name prior
    if a.measured = false then .done s
    else if accounted.verified = true ∧
        budget.total < Storage.saturatingAdd (accounted.bytes - prior) HEADER_LEN then .done s
    else .asks s (HEADER_LEN - prior) budget.total

/-- `open_budgeted`, up to the reservation. -/
def prepareOpen (s : Indexes N) (name : N) (budget : Budget) (a : OpenAnswers N) :
    Option (Prepared N) :=
  if a.owned = false then some (.done s)
  else match s.reconcile a.first budget.reconciliationLimit budget.total with
    | none => none
    | some (.error _, s) => some (.done s)
    | some (.ok accounted, s) =>
      if a.opened = false then some (.done s)
      else
        let present := (s.files.lookup name).getD 0
        let s := s.resized name present
        if name ∈ s.handles ∨ a.lockable = false then some (.done s)
        else some (prepareLocked s name present budget accounted a)

/-- `open_budgeted`, once it has room. -/
def rebuildIndex (name : N) (budget : Budget) (a : OpenAnswers N) (s : Indexes N) :
    Option (Indexes N) :=
  match a.rebuild with
  | some fault =>
    (s.resized name (fault.length ((s.files.lookup name).getD 0))).reconcileAfterMutation a.after
      a.mark budget.reconciliationLimit budget.total
  | none =>
    match (s.resized name HEADER_LEN).reconcile a.after budget.reconciliationLimit budget.total with
    | none => none
    | some (.error _, s) => some s
    | some (.ok _, s) =>
      some { s with
        handles := s.handles.insert name ⟨budget.total, budget.reconciliationLimit⟩ }

def openBudgeted (s : Indexes N) (name : N) (budget : Budget) (a : OpenAnswers N) :
    Option (Indexes N) :=
  (prepareOpen s name budget a).bind (Prepared.finish a.reserve (rebuildIndex name budget a))

/-- What the file system answers to `append_page`. -/
structure AppendAnswers (N : Type) where
  /-- The length of the index is told, and its end is found. -/
  measured : Bool
  /-- The ownership lock is had. -/
  owned : Bool
  reserve : LedgerAnswers
  /-- How many bytes were written before a write or a flush failed. -/
  fault : Option ℕ
  /-- The index is cut back to its length. -/
  truncated : Bool
  after : ReconcileAnswers N
  mark : LedgerAnswers

/-- `append_page`, up to the reservation. -/
def prepareAppend (s : Indexes N) (h : Handle) (length records maximumBytes : ℕ)
    (a : AppendAnswers N) : Prepared N :=
  let added := min (records * ENTRY_LEN) U64_MAX
  if a.measured = false ∨ maximumBytes < Storage.saturatingAdd length added ∨ records = 0 ∨
      4294967295 < records - 1 ∨ a.owned = false then .done s
  else .asks s added h.maximumTotalBytes

/-- `append_page`, once it has room. -/
def writePage (name : N) (h : Handle) (length records : ℕ) (a : AppendAnswers N) (s : Indexes N) :
    Option (Indexes N) :=
  match a.fault with
  | none => some (s.resized name (length + records * ENTRY_LEN))
  | some written =>
    (s.resized name
      (if a.truncated then length else length + min written (records * ENTRY_LEN))).reconcileAfterMutation
      a.after a.mark h.reconciliationLimit h.maximumTotalBytes

/-- `append_page`, for so many records. -/
def appendPage (s : Indexes N) (name : N) (records maximumBytes : ℕ) (a : AppendAnswers N) :
    Option (Indexes N) :=
  match s.handles.lookup name, s.files.lookup name with
  | some h, some length =>
    (prepareAppend s h length records maximumBytes a).finish a.reserve
      (writePage name h length records a)
  | _, _ => none

/-! ### Removal -/

/-- What the file system answers to a removal. -/
inductive RemoveAnswers (N : Type)
  /-- The index is out of the way, and what stands in its place is left. -/
  | replaced
  /-- It is gone.  The last answers are for the ledger that cannot be brought down. -/
  | gone (release : LedgerAnswers) (readFails : Bool) (after : ReconcileAnswers N)

def releaseGlobalBudgetLocked (s : Indexes N) (released : ℕ) (release : LedgerAnswers)
    (readFails : Bool) (after : ReconcileAnswers N) : Option (Indexes N) :=
  match releaseBudgetLocked release released s.ledger with
  | (.ok (), l) => some { s with ledger := l }
  | (.error _, l) =>
    let maximum := match readBudget readFails l with
      | .ok state => state.maximum
      | .error _ => U64_MAX
    (Indexes.reconcile { s with ledger := l } after 4096 maximum).map Prod.snd

/-- `remove_unused_derived_artifact_cancellable`, of an index that was reviewed. -/
def removeArtifact (s : Indexes N) (name : N) (a : RemoveAnswers N) : Option (Indexes N) :=
  match s.files.lookup name with
  | none => none
  | some length =>
    if name ∈ s.handles then none
    else match a with
      | .replaced => some (s.resized name 0)
      | .gone release readFails after =>
        releaseGlobalBudgetLocked { s with files := s.files.erase name } length release readFails
          after

/-! ### Runs -/

/-- An operation on the directory. -/
inductive IndexStep (N : Type)
  | opens (name : N) (budget : Budget) (answers : OpenAnswers N)
  | append (name : N) (records maximumBytes : ℕ) (answers : AppendAnswers N)
  /-- A `DiskIndex` is dropped. -/
  | close (name : N)
  | remove (name : N) (answers : RemoveAnswers N)
  /-- `sweep_stale_window_indexes` unlinks an index. -/
  | sweep (name : N)

/-- What an operation does. -/
def Indexes.operate (s : Indexes N) : IndexStep N → Option (Indexes N)
  | .opens name budget a => openBudgeted s name budget a
  | .append name records maximumBytes a => appendPage s name records maximumBytes a
  | .close name => some { s with handles := s.handles.erase name }
  | .remove name a => removeArtifact s name a
  | .sweep name => if name ∈ s.handles then none else some { s with files := s.files.erase name }

/-- A step: no directory holds more bytes than a `u64` counts. -/
def Indexes.step (s : Indexes N) (l : IndexStep N) : Option (Indexes N) :=
  (s.operate l).filter fun s' => s'.total ≤ U64_MAX

/-- A directory without a ledger, and nobody at work. -/
def Indexes.fresh (files : Dict N ℕ) : Indexes N := ⟨files, .missing, ∅, false, []⟩

end Operations

end Lvu.IndexBudget
