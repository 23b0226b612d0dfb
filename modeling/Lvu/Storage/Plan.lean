import Lvu.Core.Model
import Lvu.Storage.Ledger

/-!
# Deletion plans

What a scan of the capture root found, and the plan of a deletion that is made of it
(`lvu-app/src/storage/ownership.rs`): the items to remove, what depends on them, and what blocks
the deletion.  Paths are lists of names.

* `blocks` : what a listed investigation blocks.
* `planDeleteCapture_allowed` : when nothing blocks the plan to delete a capture.
-/

namespace Lvu.Storage

/-- A path. -/
abbrev Path := List String

/-- `u64::saturating_add`. -/
def saturatingAdd (a b : ℕ) : ℕ := min (a + b) 18446744073709551615

/-- How identities are written and read. -/
structure Ids where
  /-- `Uuid::parse_str` on a name of 36 bytes. -/
  parseUuid : String → Option Uuid
  /-- `Uuid::to_string`. -/
  format : Uuid → String

def Ids.parseSourceId (ids : Ids) (value : String) : Option SourceId :=
  if value.utf8ByteSize ≠ 36 then none else (ids.parseUuid value).map SourceId.mk

def shortId (value : String) : String := String.ofList (value.toList.take 8)

/-- A derived index, as the live provider classified it. -/
structure DerivedIndexEntry where
  path : Path
  bytes : ℕ
  sourceId : Option SourceId
deriving DecidableEq

/-- A capture under the root. -/
structure CaptureUnit where
  sourceId : SourceId
  name : String
  directory : Path
  generation : UInt64
  journalBytes : UInt64
  durableBytes : ℕ
  derivedBytes : ℕ
  lastModifiedUnixNanos : Option Int64
  firstCapturedAtUnixNanos : Option Int64
  firstSequence : Option UInt64
  reservedSequence : Option UInt64
  /-- A writer holds the journal lock, or might. -/
  active : Bool
  incomplete : Bool
  notes : List String
deriving DecidableEq

def CaptureUnit.label (ids : Ids) (c : CaptureUnit) : String :=
  c.name ++ " (" ++ shortId (ids.format c.sourceId.uuid) ++ ")"

def CaptureUnit.boundary (ids : Ids) (c : CaptureUnit) : CaptureBoundary where
  sourceId := ids.format c.sourceId.uuid
  sourceName := c.name
  generation := c.generation
  firstSequence := c.firstSequence
  -- the last sequence is left unrecorded rather than inferred from the reservation watermark
  lastSequence := none
  reservedSequenceUpperBound := c.reservedSequence
  firstCapturedAtUnixNanos := c.firstCapturedAtUnixNanos
  journalBytes := c.journalBytes
  wholeCapture := true
  probed := true

/-- An investigation's claim on a source capture. -/
structure CapturePin where
  sourceId : SourceId
  generation : UInt64
  highWatermark : Option UInt64
  exportedProjection : Bool
  exportedRows : ℕ
deriving DecidableEq

/-- An investigation under the root. -/
structure InvestigationUnit where
  investigationId : String
  name : String
  directory : Path
  durableBytes : ℕ
  createdAtUnixNanos : Option Int64
  pins : List CapturePin
  /-- The manifest exists but could not be read. -/
  unknownPins : Bool
  incomplete : Bool
  notes : List String
deriving DecidableEq

def InvestigationUnit.label (i : InvestigationUnit) : String :=
  if i.name = "" then shortId i.investigationId
  else i.name ++ " (" ++ shortId i.investigationId ++ ")"

/-- The investigation must be taken to depend on the capture: it pins it, or what it pins is
unknown. -/
def InvestigationUnit.blocks (i : InvestigationUnit) (source : SourceId) : Bool :=
  i.unknownPins || i.pins.any fun pin => decide (pin.sourceId = source)

/-- What is deleted; an investigation is named by its directory. -/
inductive DeletionTarget
  | capture (sourceId : SourceId)
  | investigation (directory : String)
deriving DecidableEq

/-- Whether what is removed can be made again. -/
inductive ItemClass
  | durable | disposable
deriving DecidableEq

/-- A path to remove. -/
structure PlanItem where
  path : Path
  bytes : ℕ
  itemClass : ItemClass
deriving DecidableEq

/-- Why a deletion is refused. -/
inductive DeletionBlocker
  | pinnedByInvestigation (investigation : String) (highWatermark : Option UInt64)
      (exportedProjection : Bool)
  | unknownPins (investigation : String)
  | sourceCapturing
  | investigationOpen
  | notFound
  | pathRefused (reason : String)
  | boundaryNotRecordable (reason : String)
  | planStale
deriving DecidableEq

/-- What refers to the target, or is referred to by it. -/
structure Dependent where
  label : String
  detail : String
deriving DecidableEq

/-- The plan of a deletion. -/
structure DeletionPlan where
  target : DeletionTarget
  label : String
  cause : DeletionCause
  policy : Option String
  durableBytes : ℕ
  disposableBytes : ℕ
  items : List PlanItem
  dependents : List Dependent
  blockers : List DeletionBlocker
  boundary : Option CaptureBoundary
  digest : UInt64
  truncated : Bool
deriving DecidableEq

def DeletionPlan.allowed (p : DeletionPlan) : Bool := p.blockers.isEmpty

def DeletionPlan.freedBytes (p : DeletionPlan) : ℕ := saturatingAdd p.durableBytes p.disposableBytes

/-- `finish_plan`: the bytes by class, and the fingerprint; the hash is a parameter. -/
def finishPlan (digest : DeletionPlan → UInt64) (target : DeletionTarget) (label : String)
    (cause : DeletionCause) (policy : Option String) (items : List PlanItem)
    (dependents : List Dependent) (blockers : List DeletionBlocker)
    (boundary : Option CaptureBoundary) (truncated : Bool) : DeletionPlan :=
  let bytes (c : ItemClass) : ℕ := (items.filter (·.itemClass = c)).foldl
    (fun total item => saturatingAdd total item.bytes) 0
  let plan : DeletionPlan :=
    { target, label, cause, policy, items, dependents, blockers, boundary, truncated
      durableBytes := bytes .durable
      disposableBytes := bytes .disposable
      digest := 0 }
  { plan with digest := digest plan }

def refusedPlan (digest : DeletionPlan → UInt64) (target : DeletionTarget) (label : String)
    (cause : DeletionCause) (policy : Option String) (blocker : DeletionBlocker) : DeletionPlan :=
  finishPlan digest target label cause policy [] [] [blocker] none false

/-- What the scan found. -/
structure OwnershipIndex where
  root : Path
  captures : List CaptureUnit
  investigations : List InvestigationUnit
  derived : List DerivedIndexEntry
  workspaceBytes : ℕ
  truncated : Bool
  cancelled : Bool
  errors : List String

def OPEN_NOTE : String := "open in the application"

def INVESTIGATIONS_DIR : String := "investigations"

/-- What `symlink_metadata` says of a path. -/
inductive Metadata
  | missing (error : String)
  | symlink
  | directory
  | file

def verifyDirectory : Metadata → Except String Unit
  | .missing error => .error error
  | .symlink => .error "the target is a symbolic link"
  | .file => .error "the target is not a directory"
  | .directory => .ok ()

def verifyCapturePath (ids : Ids) (stat : Path → Metadata) (root directory : Path)
    (source : SourceId) : Except String Unit :=
  if directory.dropLast ≠ root ∨ directory = [] then
    .error "capture directory is not directly under the capture root"
  else if ids.parseSourceId (directory.getLast?.getD "") ≠ some source then
    .error "capture directory name does not match its source identity"
  else verifyDirectory (stat directory)

def verifyInvestigationPath (stat : Path → Metadata) (root directory : Path) : Except String Unit :=
  if directory.dropLast ≠ root ++ [INVESTIGATIONS_DIR] ∨ directory = [] then
    .error "investigation directory is not under the investigations directory"
  else verifyDirectory (stat directory)

namespace OwnershipIndex

variable (index : OwnershipIndex)

def capture (source : SourceId) : Option CaptureUnit :=
  index.captures.find? (·.sourceId = source)

def investigation (directory : String) : Option InvestigationUnit :=
  index.investigations.find? (·.directory.getLast? = some directory)

/-- `OwnershipIndex::pins_for`: an unknown set counts as a reference. -/
def pinsFor (source : SourceId) : List (InvestigationUnit × Option CapturePin) :=
  index.investigations.filterMap fun i =>
    if i.unknownPins then some (i, none)
    else (i.pins.find? (·.sourceId = source)).map fun pin => (i, some pin)

variable (ids : Ids) (stat : Path → Metadata) (digest : DeletionPlan → UInt64)

/-- The blocker and the dependent that a pin makes. -/
def pinned : InvestigationUnit × Option CapturePin → DeletionBlocker × Dependent
  | (i, some pin) =>
    (.pinnedByInvestigation i.label pin.highWatermark pin.exportedProjection,
      ⟨i.label, "pins generation " ++ toString pin.generation ++ " through record " ++
        ((pin.highWatermark.map toString).getD "unknown") ++
        if pin.exportedProjection then "; holds " ++ toString pin.exportedRows ++ " exported rows"
        else ""⟩)
  | (i, none) => (.unknownPins i.label, ⟨i.label, "dependencies unknown; manifest unreadable"⟩)

def planDeleteCapture (source : SourceId) (cause : DeletionCause) (policy : Option String) :
    DeletionPlan :=
  match index.capture source with
  | none =>
    refusedPlan digest (.capture source) (shortId (ids.format source.uuid)) cause policy .notFound
  | some capture =>
    let refused := match verifyCapturePath ids stat index.root capture.directory source with
      | .error reason => [.pathRefused reason]
      | .ok () => []
    let pins := (index.pinsFor source).map pinned
    let items := ⟨capture.directory, capture.durableBytes, .durable⟩ ::
      (index.derived.filter (·.sourceId = some source)).map fun entry =>
        ⟨entry.path, entry.bytes, .disposable⟩
    finishPlan digest (.capture source) (capture.label ids) cause policy items
      (pins.map Prod.snd)
      ((if capture.active then [.sourceCapturing] else []) ++ refused ++ pins.map Prod.fst)
      (some (capture.boundary ids)) capture.incomplete

def planDeleteInvestigation (directory : String) (cause : DeletionCause)
    (policy : Option String) : DeletionPlan :=
  match index.investigation directory with
  | none => refusedPlan digest (.investigation directory) directory cause policy .notFound
  | some i =>
    let refused := match verifyInvestigationPath stat index.root i.directory with
      | .error reason => [.pathRefused reason]
      | .ok () => []
    finishPlan digest (.investigation directory) i.label cause policy
      [⟨i.directory, i.durableBytes, .durable⟩]
      (i.pins.map fun pin =>
        ⟨((index.capture pin.sourceId).map (·.label ids)).getD
          (shortId (ids.format pin.sourceId.uuid)),
          "pin released; that capture becomes deletable"⟩)
      (refused ++ if i.notes.any (· = OPEN_NOTE) then [.investigationOpen] else []) none i.incomplete

/-- The plan for a target, made anew. -/
def replan (target : DeletionTarget) (cause : DeletionCause) (policy : Option String) :
    DeletionPlan :=
  match target with
  | .capture source => index.planDeleteCapture ids stat digest source cause policy
  | .investigation directory => index.planDeleteInvestigation ids stat digest directory cause policy

/-- The checks of `OwnershipIndex::execute`: a plan that is not the present one is refused, and so
is one that is blocked.  What is returned is the intent to record. -/
def validate (plan : DeletionPlan) (entryId : String) (now : Int64) :
    Except (List DeletionBlocker) DeletionRecord :=
  let current := index.replan ids stat digest plan.target plan.cause plan.policy
  if current.digest ≠ plan.digest then .error [.planStale]
  else if current.allowed = false then .error current.blockers
  else .ok (.intent entryId now
    (match plan.target with
      | .capture _ => .capture
      | .investigation _ => .investigation)
    (match plan.target with
      | .capture source => ids.format source.uuid
      | .investigation directory => directory)
    plan.label plan.cause plan.policy plan.boundary (.ofNat plan.freedBytes))

/-! ### What blocks a deletion -/

variable {index ids stat digest} {source : SourceId} {cause : DeletionCause}
  {policy : Option String}

theorem pinsFor_eq_nil :
    index.pinsFor source = [] ↔ ∀ i ∈ index.investigations, i.blocks source = false := by
  rw [pinsFor, List.filterMap_eq_nil_iff]
  refine forall₂_congr fun i hi => ?_
  cases hunknown : i.unknownPins with
  | true => simp [InvestigationUnit.blocks, hunknown]
  | false =>
    simp only [Bool.false_eq_true, if_false, Option.map_eq_none_iff, InvestigationUnit.blocks,
      hunknown, Bool.false_or, List.find?_eq_none, List.any_eq_false]

/-- **When nothing blocks the plan to delete a capture**: the capture is listed and not active, its
path is as it should be, and no listed investigation blocks it. -/
theorem planDeleteCapture_allowed :
    (index.planDeleteCapture ids stat digest source cause policy).allowed = true ↔
      ∃ c, index.capture source = some c ∧ c.active = false ∧
        verifyCapturePath ids stat index.root c.directory source = .ok () ∧
        ∀ i ∈ index.investigations, i.blocks source = false := by
  rw [← pinsFor_eq_nil, planDeleteCapture]
  cases hc : index.capture source with
  | none => simp [refusedPlan, finishPlan, DeletionPlan.allowed]
  | some c =>
    simp only [finishPlan, DeletionPlan.allowed, List.isEmpty_iff, List.append_eq_nil_iff,
      List.map_eq_nil_iff, Option.some.injEq, exists_eq_left']
    cases hv : verifyCapturePath ids stat index.root c.directory source with
    | error reason => simp
    | ok => cases c.active <;> simp

end OwnershipIndex

end Lvu.Storage
