import Lvu.Storage.Plan

/-!
# The scan of the capture root

`OwnershipIndex::build` of `lvu-app/src/storage/ownership.rs` lists the captures and the
investigations under the capture root.  The root is a tree of nodes, of which any may turn out to
be unreadable; the scan is bounded in entries, files, directories, captures and investigations,
and may be cancelled at any of its checks.

* `build` : the scan, and `Frame` : what the size of a tree leaves as it was.
-/

namespace Lvu.Storage

def MAX_CAPTURES : ℕ := 256

def MAX_INVESTIGATIONS : ℕ := 256

def MAX_ROOT_ENTRIES : ℕ := 1024

def MAX_TREE_FILES : ℕ := 8192

def MAX_TREE_DIRECTORIES : ℕ := 2048

def MAX_TREE_DEPTH : ℕ := 6

def MAX_ERRORS : ℕ := 32

def MAX_MANIFEST_BYTES : ℕ := 8 * 1024 * 1024

/-- `MAX_RECORD_BYTES` of `ownership.rs`. -/
def MAX_INVESTIGATION_RECORD_BYTES : ℕ := 64 * 1024

def MAX_METADATA_BYTES : ℕ := 1024 * 1024

def MAX_PINS_PER_INVESTIGATION : ℕ := 64

def WORKSPACE_DIR : String := "workspace"

def SOURCE_METADATA_FILE : String := "source.json"

def MANIFEST_FILE : String := "manifest.json"

def INVESTIGATION_RECORD_FILE : String := "lvu-investigation.json"

/-! ### The tree -/

/-- An entry of a directory. -/
structure Dirent (α : Type) where
  name : String
  /-- Reading the directory yields the entry. -/
  readable : Bool
  /-- The entry's metadata can be read. -/
  stat : Bool
  node : α

/-- What is at a path. -/
inductive Node
  /-- A file: its length, and what reading it yields. -/
  | file (length : ℕ) (content : Except String (List UInt8))
  | symlink
  | special
  /-- A directory: whether it can be read, and its entries in the order they are read. -/
  | directory (listable : Bool) (entries : List (Dirent Node))

namespace Node

/-- The entries of a directory. -/
def entries : Node → List (Dirent Node)
  | directory _ entries => entries
  | _ => []

def isDirectory : Node → Bool
  | directory _ _ => true
  | _ => false

/-- The entries that reading a directory yields: none when it cannot be read. -/
def listing : Node → List (Dirent Node)
  | directory true entries => entries
  | _ => []

/-- `symlink_metadata` of a path below the node. -/
def metadata (n : Node) (path : Path) : Metadata :=
  match path with
  | [] => match n with
    | file _ _ => .file
    | special => .file
    | symlink => .symlink
    | directory _ _ => .directory
  | name :: rest => match n.entries.find? (·.name = name) with
    | none => .missing "not found"
    | some e => if e.stat then e.node.metadata rest else .missing "metadata unavailable"

end Node

/-! ### JSON files -/

/-- `serde_json::Value`, as far as it is looked at; a number is kept when it is an integer. -/
inductive Value
  | null
  | bool (b : Bool)
  | number (n : Option Int)
  | string (s : String)
  | array (values : List Value)
  | object (fields : List (String × Value))

namespace Value

def get : Value → String → Option Value
  | object fields, key => (fields.find? (·.1 = key)).map Prod.snd
  | _, _ => none

def asStr : Value → Option String
  | string s => some s
  | _ => none

def asArray : Value → Option (List Value)
  | array values => some values
  | _ => none

def asU64 : Value → Option UInt64
  | number (some n) => if 0 ≤ n ∧ n < 18446744073709551616 then some (.ofNat n.toNat) else none
  | _ => none

def asI64 : Value → Option Int64
  | number (some n) => if -9223372036854775808 ≤ n ∧ n < 9223372036854775808 then some (.ofInt n) else none
  | _ => none

end Value

/-- What the scan relies on outside the root. -/
structure Outside where
  ids : Ids
  /-- `serde_json::from_slice`. -/
  parseJson : List UInt8 → Except String Value
  /-- What the journal of a capture directory, its lock and the times of its files say. -/
  journalBytes : Node → UInt64
  lastModifiedUnixNanos : Node → Option Int64
  /-- `probe_first_record`. -/
  firstRecord : Node → SourceId → Option (UInt64 × Int64)
  /-- `read_sequence_watermark`. -/
  reservedSequence : Node → Option UInt64
  /-- `journal::writer_present`. -/
  writerPresent : Node → Except String Bool

/-- `read_json` of a file of a directory: `none` when it does not exist, an error when it exists
but cannot be read or parsed. -/
def readJson (parseJson : List UInt8 → Except String Value) (directory : Node) (name : String)
    (limit : ℕ) : Option (Except String Value) :=
  match directory.entries.find? (·.name = name) with
  | none => none
  | some e =>
    if e.stat = false then some (.error "metadata unavailable")
    else match e.node with
      | .file length content =>
        if limit < length then some (.error "exceeds the bounded read limit")
        else match content with
          | .error error => some (.error error)
          | .ok bytes =>
            if limit < bytes.length then some (.error "exceeds the bounded read limit")
            else some (parseJson bytes)
      | _ => some (.error "not a regular file")

def readInvestigationRecord (out : Outside) (directory : Node) (unit : InvestigationUnit) :
    InvestigationUnit :=
  match readJson out.parseJson directory INVESTIGATION_RECORD_FILE MAX_INVESTIGATION_RECORD_BYTES with
  | none => { unit with notes := unit.notes ++ ["no investigation record; directory retained"] }
  | some (.error _) =>
    { unit with notes := unit.notes ++ ["investigation record unreadable; directory retained"] }
  | some (.ok value) =>
    { unit with
      investigationId := ((value.get "id").bind Value.asStr).getD unit.investigationId
      name := (((value.get "question").bind Value.asStr).map fun s =>
        String.ofList (s.toList.take 60)).getD ""
      createdAtUnixNanos := ((value.get "created_at").bind Value.asI64).or
        ((value.get "created_at_unix_nanos").bind Value.asI64) }

/-- The pin that an entry of a manifest's source list makes, with the parts that were exported. -/
def manifestPin (ids : Ids) (parts : List Value) (source : Value) : Option CapturePin :=
  ((source.get "source_id").bind Value.asStr).bind fun text =>
    (ids.parseSourceId text).map fun sourceId =>
      let highWatermark := (source.get "high_watermark").bind Value.asU64
      let own := parts.filter fun part =>
        decide ((part.get "source_id").bind Value.asStr = some (ids.format sourceId.uuid))
      let exportedRows := own.foldl (fun rows part =>
        saturatingAdd rows (((part.get "rows").bind Value.asU64).getD 0).toNat) 0
      let covered := own.foldl (fun (covered : Option UInt64) part =>
        let last := ((part.get "last_sequence").bind Value.asU64).getD 0
        some ((covered.map fun value => max value last).getD last)) none
      { sourceId
        generation := ((source.get "generation").bind Value.asU64).getD 0
        highWatermark
        exportedProjection := decide (0 < exportedRows) && match covered, highWatermark with
          | some covered, some watermark => decide (watermark ≤ covered)
          | _, _ => false
        exportedRows }

/-- The loop of `read_manifest_pins` over the source list. -/
def manifestPins (ids : Ids) (parts : List Value) : InvestigationUnit → List Value →
    InvestigationUnit
  | unit, [] => unit
  | unit, source :: rest => match manifestPin ids parts source with
    | none => manifestPins ids parts
        { unit with
          unknownPins := true
          notes := unit.notes ++ ["manifest source entry is unreadable; dependencies unknown"] } rest
    | some pin => manifestPins ids parts { unit with pins := unit.pins ++ [pin] } rest

def readManifestPins (out : Outside) (directory : Node) (unit : InvestigationUnit) :
    InvestigationUnit :=
  match readJson out.parseJson directory MANIFEST_FILE MAX_MANIFEST_BYTES with
  | none => { unit with notes := unit.notes ++ ["no published dataset; no capture is pinned"] }
  | some (.error reason) =>
    { unit with
      unknownPins := true
      notes := unit.notes ++ ["manifest unreadable (" ++ reason ++ "); dependencies unknown"] }
  | some (.ok value) =>
    let parts := ((value.get "source_parts").bind Value.asArray).getD []
    match (value.get "sources").bind Value.asArray with
    | none =>
      { unit with
        unknownPins := true
        notes := unit.notes ++ ["manifest has no source list; dependencies unknown"] }
    | some sources =>
      let unit := manifestPins out.ids parts unit (sources.take MAX_PINS_PER_INVESTIGATION)
      if MAX_PINS_PER_INVESTIGATION < sources.length then
        { unit with
          unknownPins := true
          notes := unit.notes ++
            ["manifest lists more sources than the pin limit; dependencies unknown"] }
      else unit

/-! ### The scan -/

/-- What is asked of the scan. -/
structure ScanRequest where
  root : Path
  derived : List DerivedIndexEntry
  activeSources : List SourceId
  openInvestigations : List String

/-- The scan under way: the index, the budget, and how often the cancel flag was looked at. -/
structure Scan where
  captures : List CaptureUnit
  investigations : List InvestigationUnit
  workspaceBytes : ℕ
  truncated : Bool
  cancelled : Bool
  errors : List String
  files : ℕ
  directories : ℕ
  loads : ℕ

namespace Scan

def empty : Scan := ⟨[], [], 0, false, false, [], 0, 0, 0⟩

/-- `OwnershipIndex::push_error`. -/
def pushError (s : Scan) (error : String) : Scan :=
  if s.errors.length < MAX_ERRORS then { s with errors := s.errors ++ [error] }
  else { s with truncated := true }

/-- An error that may have been met. -/
def note (s : Scan) : Option String → Scan
  | some error => s.pushError error
  | none => s

/-- A look at the cancel flag. -/
def load (s : Scan) : Scan := { s with loads := s.loads + 1 }

end Scan

section
variable (cancel : ℕ → Bool)

/-- The loop of `tree_bytes` over the entries of a directory. -/
def treeEntries (visit : Dirent Node → Scan → ℕ × Scan) : ℕ → List (Dirent Node) → ℕ × Scan → ℕ × Scan
  | _, [], acc => acc
  | position, e :: rest, (total, s) =>
    if position = MAX_ROOT_ENTRIES then (total, { s with truncated := true })
    else if e.readable = false then
      treeEntries visit (position + 1) rest (total, s.pushError "entry unreadable")
    else
      let (bytes, s') := visit e s
      treeEntries visit (position + 1) rest (saturatingAdd total bytes, s')

/-- `tree_bytes`, with the levels that are left below `MAX_TREE_DEPTH`. -/
def treeBytes : ℕ → Dirent Node → Scan → ℕ × Scan
  | levels, e, s =>
    if cancel s.loads then (0, { s.load with cancelled := true })
    else if MAX_TREE_FILES ≤ s.files ∨ MAX_TREE_DIRECTORIES ≤ s.directories then
      (0, { s.load with truncated := true })
    else match levels with
      | 0 => (0, { s.load with truncated := true })
      | levels + 1 =>
        if e.stat = false then (0, s.load.pushError (e.name ++ ": metadata unavailable"))
        else match e.node with
          | .symlink => (0, s.load)
          | .special => (0, s.load)
          | .file length _ => (length, { s.load with files := s.files + 1 })
          | .directory listable entries =>
            let s' := { s.load with directories := s.directories + 1 }
            if listable = false then (0, s'.pushError (e.name ++ ": unreadable"))
            else treeEntries (treeBytes levels) 0 entries (0, s')

/-- `tree_bytes` of a directory under the root. -/
def treeSize (e : Dirent Node) (s : Scan) : ℕ × Scan := treeBytes cancel (MAX_TREE_DEPTH + 1) e s

def readSourceMetadata (out : Outside) (e : Dirent Node) : (String × UInt64) × Option String :=
  match readJson out.parseJson e.node SOURCE_METADATA_FILE MAX_METADATA_BYTES with
  | none => ((shortId e.name, 0), none)
  | some (.error _) => ((shortId e.name, 0), some (e.name ++ ": source metadata unreadable"))
  | some (.ok value) =>
    let name := ((value.get "definition").bind (·.get "name")).bind Value.asStr
    ((match name with
      | some name =>
        if name.toList.all Char.isWhitespace then shortId e.name
        else String.ofList (name.toList.take 80)
      | none => shortId e.name,
      ((value.get "generation").bind Value.asU64).getD 0), none)

/-- Whether a capture counts as active; a probe that fails counts as a writer. -/
def captureActive (out : Outside) (request : ScanRequest) (source : SourceId) (directory : Node) :
    Bool :=
  request.activeSources.contains source || match out.writerPresent directory with
    | .ok present => present
    | .error _ => true

def scanCapture (out : Outside) (request : ScanRequest) (source : SourceId) (e : Dirent Node)
    (s : Scan) : Scan :=
  let (durableBytes, s₁) := treeSize cancel e s
  let ((name, generation), error) := readSourceMetadata out e
  let s₂ := s₁.note error
  let unit : CaptureUnit :=
    { sourceId := source
      name
      directory := request.root ++ [e.name]
      generation
      journalBytes := out.journalBytes e.node
      durableBytes
      derivedBytes := 0
      lastModifiedUnixNanos := out.lastModifiedUnixNanos e.node
      firstCapturedAtUnixNanos := (out.firstRecord e.node source).map Prod.snd
      firstSequence := (out.firstRecord e.node source).map Prod.fst
      reservedSequence := out.reservedSequence e.node
      active := captureActive out request source e.node
      incomplete := s₂.truncated && !s.truncated
      notes := match out.writerPresent e.node with
        | .ok _ => []
        | .error error =>
          if request.activeSources.contains source then []
          else ["capture activity could not be probed: " ++ error] }
  { s₂ with captures := s₂.captures ++ [unit] }

/-- The unit of an investigation directory, with what its record and its manifest say. -/
def investigationUnit (out : Outside) (request : ScanRequest) (e : Dirent Node) (durableBytes : ℕ)
    (incomplete : Bool) : InvestigationUnit :=
  let unit := readManifestPins out e.node (readInvestigationRecord out e.node
    { investigationId := e.name
      name := ""
      directory := request.root ++ [INVESTIGATIONS_DIR, e.name]
      durableBytes
      createdAtUnixNanos := none
      pins := []
      unknownPins := false
      incomplete
      notes := [] })
  if request.openInvestigations.contains unit.investigationId ||
      request.openInvestigations.contains e.name then
    { unit with notes := unit.notes ++ [OPEN_NOTE] }
  else unit

/-- The part of `scan_investigations` for one directory. -/
def scanInvestigation (out : Outside) (request : ScanRequest) (e : Dirent Node) (s : Scan) : Scan :=
  let (durableBytes, s') := treeSize cancel e s
  { s' with investigations := s'.investigations ++
      [investigationUnit out request e durableBytes (s'.truncated && !s.truncated)] }

/-- The loop of `scan_investigations`. -/
def scanInvestigations (out : Outside) (request : ScanRequest) : ℕ → List (Dirent Node) → Scan → Scan
  | _, [], s => s
  | position, e :: rest, s =>
    if cancel s.loads then { s.load with cancelled := true }
    else if position = MAX_ROOT_ENTRIES ∨ MAX_INVESTIGATIONS ≤ s.investigations.length then
      { s.load with truncated := true }
    else if e.readable = false then
      scanInvestigations out request (position + 1) rest
        (s.load.pushError "investigation entry unreadable")
    else if e.stat && e.node.isDirectory then
      scanInvestigations out request (position + 1) rest (scanInvestigation cancel out request e s.load)
    else scanInvestigations out request (position + 1) rest s.load

/-- The part of `OwnershipIndex::build` for one directory of the root. -/
def scanDirectory (out : Outside) (request : ScanRequest) (e : Dirent Node) (s : Scan) : Scan :=
  if e.name = WORKSPACE_DIR then
    let (bytes, s') := treeSize cancel e s
    { s' with workspaceBytes := bytes }
  else if e.name = INVESTIGATIONS_DIR then
    match e.node with
    | .directory false _ => s.pushError "investigations: unreadable"
    | node => scanInvestigations cancel out request 0 node.entries s
  else match out.ids.parseSourceId e.name with
    | none => s
    | some source =>
      if MAX_CAPTURES ≤ s.captures.length then { s with truncated := true }
      else scanCapture cancel out request source e s

/-- The order of captures: by name. -/
def captureLe (a b : CaptureUnit) : Bool := decide (a.name ≤ b.name)

/-- The order of investigations: the latest first, those without a time last. -/
def investigationLe (a b : InvestigationUnit) : Bool :=
  match a.createdAtUnixNanos, b.createdAtUnixNanos with
  | some a, some b => decide (b ≤ a)
  | some _, none => true
  | none, some _ => false
  | none, none => true

namespace Scan

/-- What a scan that stops on the way comes to. -/
def unfinished (s : Scan) (request : ScanRequest) : OwnershipIndex where
  root := request.root
  captures := s.captures
  investigations := s.investigations
  derived := request.derived
  workspaceBytes := s.workspaceBytes
  truncated := s.truncated
  cancelled := s.cancelled
  errors := s.errors

/-- The bytes of the derived indexes that are attributed to a capture. -/
def attributed (request : ScanRequest) (c : CaptureUnit) : CaptureUnit :=
  let own := request.derived.filter fun entry => decide (entry.sourceId = some c.sourceId)
  { c with derivedBytes := own.foldl (fun total entry => saturatingAdd total entry.bytes) 0 }

/-- What a scan that comes to its end comes to. -/
def finished (s : Scan) (request : ScanRequest) : OwnershipIndex :=
  { s.unfinished request with
    captures := (s.captures.map (attributed request)).mergeSort captureLe
    investigations := s.investigations.mergeSort investigationLe }

end Scan

/-- The end of `OwnershipIndex::build`: the index, and how often the flag was looked at. -/
def finish (request : ScanRequest) (s : Scan) : OwnershipIndex × ℕ :=
  ({ s with cancelled := s.cancelled || cancel s.loads }.finished request, s.loads + 1)

/-- The loop of `OwnershipIndex::build`. -/
def scanRoot (out : Outside) (request : ScanRequest) :
    ℕ → List (Dirent Node) → Scan → OwnershipIndex × ℕ
  | _, [], s => finish cancel request s
  | position, e :: rest, s =>
    if cancel s.loads then ({ s with cancelled := true }.unfinished request, s.loads + 1)
    else if position = MAX_ROOT_ENTRIES then finish cancel request { s.load with truncated := true }
    else if e.readable = false then
      scanRoot out request (position + 1) rest (s.load.pushError "capture root entry unreadable")
    else if e.stat = false then
      scanRoot out request (position + 1) rest (s.load.pushError (e.name ++ ": metadata unavailable"))
    else if e.node.isDirectory then
      scanRoot out request (position + 1) rest (scanDirectory cancel out request e s.load)
    else scanRoot out request (position + 1) rest s.load

/-- `OwnershipIndex::build`, and how often the cancel flag was looked at. -/
def build (out : Outside) (root : Node) (request : ScanRequest) : OwnershipIndex × ℕ :=
  match root with
  | .directory true entries => scanRoot cancel out request 0 entries .empty
  | _ => ((Scan.empty.pushError "capture root: unreadable").unfinished request, 0)

end

/-! ### What the scan leaves alone -/

/-- A step of the scan that lists nothing. -/
structure Frame (s s' : Scan) : Prop where
  captures : s'.captures = s.captures
  investigations : s'.investigations = s.investigations
  loads : s.loads ≤ s'.loads

namespace Frame

variable {s s' s'' : Scan}

theorem refl (s : Scan) : Frame s s := ⟨rfl, rfl, Nat.le_refl _⟩

theorem trans (h : Frame s s') (h' : Frame s' s'') : Frame s s'' :=
  ⟨h'.captures.trans h.captures, h'.investigations.trans h.investigations, Nat.le_trans h.loads h'.loads⟩

theorem pushError (s : Scan) (error : String) : Frame s (s.pushError error) := by
  unfold Scan.pushError
  split_ifs <;> exact ⟨rfl, rfl, Nat.le_refl _⟩

theorem note (s : Scan) (error : Option String) : Frame s (s.note error) := by
  cases error with
  | none => exact refl s
  | some error => exact pushError s error

theorem load (s : Scan) : Frame s s.load := ⟨rfl, rfl, Nat.le_succ _⟩

theorem load_of {s' : Scan} (h : Frame s.load s') : Frame s s' := (load s).trans h

end Frame

variable {cancel : ℕ → Bool}

theorem frame_treeEntries {visit : Dirent Node → Scan → ℕ × Scan}
    (hvisit : ∀ e s, Frame s (visit e s).2) (entries : List (Dirent Node)) (position : ℕ)
    (acc : ℕ × Scan) : Frame acc.2 (treeEntries visit position entries acc).2 := by
  induction entries generalizing position acc with
  | nil => exact .refl _
  | cons e rest ih =>
    obtain ⟨total, s⟩ := acc
    rw [treeEntries]
    split_ifs
    · exact ⟨rfl, rfl, Nat.le_refl _⟩
    · exact (Frame.pushError _ _).trans (ih (position + 1) (total, s.pushError _))
    · exact (hvisit e s).trans (ih (position + 1) (saturatingAdd total (visit e s).1, (visit e s).2))

theorem frame_treeBytes (levels : ℕ) (e : Dirent Node) (s : Scan) :
    Frame s (treeBytes cancel levels e s).2 := by
  induction levels generalizing e s with
  | zero =>
    unfold treeBytes
    split_ifs <;> exact .load_of ⟨rfl, rfl, Nat.le_refl _⟩
  | succ levels ih =>
    simp only [treeBytes]
    split_ifs
    · exact .load_of ⟨rfl, rfl, Nat.le_refl _⟩
    · exact .load_of ⟨rfl, rfl, Nat.le_refl _⟩
    · exact .load_of (.pushError _ _)
    · have hdir : Frame s { s.load with directories := s.directories + 1 } :=
        .load_of ⟨rfl, rfl, Nat.le_refl _⟩
      cases e.node with
      | symlink | special => exact .load s
      | file length content => exact .load_of ⟨rfl, rfl, Nat.le_refl _⟩
      | directory listable entries =>
        cases listable with
        | false => exact hdir.trans (.pushError _ _)
        | true => exact hdir.trans (frame_treeEntries ih _ _ (0, _))

theorem frame_treeSize (e : Dirent Node) (s : Scan) : Frame s (treeSize cancel e s).2 :=
  frame_treeBytes _ _ _

end Lvu.Storage
