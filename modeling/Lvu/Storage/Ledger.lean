import Lvu.Bytes.Lines

/-!
# The deletion ledger

`deletions.jsonl` under the capture root records every explicit deletion of captured data, one
JSON object a line (`lvu-app/src/storage/ledger.rs`).  A record is appended before the first
unlink of a deletion and another one after the last; an append that is cut short leaves a torn
line.  The encoding is the one of `serde_json`, here a parameter.

* `Json.Lawful` : what is relied on of the encoding of a record.
* `read_join` : a ledger of whole lines and one torn line at its end is read as the records of
  its lines, as many as the bounds allow; all of them, where the readout is not truncated.
* `append_whole` : an append to such a ledger that does not end in a torn line keeps it such.
-/

namespace Lvu.Storage

open List

def LEDGER_SCHEMA_VERSION : UInt32 := 1

def MAX_RECORD_BYTES : ℕ := 8 * 1024

def MAX_LEDGER_BYTES : ℕ := 8 * 1024 * 1024

def MAX_RECORDS : ℕ := 4096

/-- Why captured data is deleted. -/
inductive DeletionCause
  /-- The user selected it and confirmed. -/
  | userRequested
  /-- A configured retention rule selected it. -/
  | retention
deriving DecidableEq

def DeletionCause.label : DeletionCause → String
  | .userRequested => "requested"
  | .retention => "retention"

/-- How far a deletion got. -/
inductive DeletionState
  /-- Written and synced before the first unlink. -/
  | intended
  /-- Every planned path was removed. -/
  | completed
  /-- Removal stopped early. -/
  | failed
deriving DecidableEq

/-- What is deleted. -/
inductive DeletedKind
  | capture | investigation
deriving DecidableEq

/-- What was removed from a source's captured history. -/
structure CaptureBoundary where
  sourceId : String
  sourceName : String
  generation : UInt64
  firstSequence : Option UInt64
  lastSequence : Option UInt64
  reservedSequenceUpperBound : Option UInt64
  firstCapturedAtUnixNanos : Option Int64
  journalBytes : UInt64
  wholeCapture : Bool
  probed : Bool
deriving DecidableEq

def CaptureBoundary.default : CaptureBoundary :=
  ⟨"", "", 0, none, none, none, none, 0, false, false⟩

/-- An entry of the ledger. -/
structure DeletionRecord where
  schemaVersion : UInt32
  entryId : String
  recordedAtUnixNanos : Int64
  state : DeletionState
  kind : DeletedKind
  targetId : String
  targetLabel : String
  cause : DeletionCause
  policy : Option String
  boundary : Option CaptureBoundary
  bytesFreed : UInt64
  detail : String
deriving DecidableEq

namespace DeletionRecord

/-- `DeletionRecord::intent`.  The entry's identity is made of the time, the process and a
counter. -/
def intent (entryId : String) (recordedAtUnixNanos : Int64) (kind : DeletedKind)
    (targetId targetLabel : String) (cause : DeletionCause) (policy : Option String)
    (boundary : Option CaptureBoundary) (plannedBytes : UInt64) : DeletionRecord where
  schemaVersion := LEDGER_SCHEMA_VERSION
  entryId
  recordedAtUnixNanos
  state := .intended
  kind
  targetId
  targetLabel
  cause
  policy
  boundary
  bytesFreed := plannedBytes
  detail := "deletion authorized; removal not yet finished"

def settled (r : DeletionRecord) (recordedAtUnixNanos : Int64) (state : DeletionState)
    (bytesFreed : UInt64) (detail : String) : DeletionRecord :=
  { r with state, bytesFreed, detail, recordedAtUnixNanos }

end DeletionRecord

/-! ### Lines -/

/-- `b'\n'`. -/
def newline : UInt8 := 10

/-- The encoding of records: `serde_json`, and the check that a line is text. -/
structure Json where
  /-- `serde_json::to_vec`. -/
  toVec : DeletionRecord → List UInt8
  /-- `serde_json::from_str` of a line, trimmed at its end. -/
  fromLine : List UInt8 → Except String DeletionRecord
  /-- `String::from_utf8` accepts the line. -/
  utf8 : List UInt8 → Bool

/-- The line of a record. -/
def Json.line (json : Json) (r : DeletionRecord) : List UInt8 := json.toVec r ++ [newline]

/-- An encoded record takes one line of text, and is decoded from it. -/
structure Json.Lawful (json : Json) (r : DeletionRecord) : Prop where
  oneLine : newline ∉ json.toVec r
  utf8 : json.utf8 (json.line r) = true
  fromLine : json.fromLine (json.line r) = .ok r

/-- How an append ended. -/
inductive Appended
  /-- The line is on stable storage. -/
  | synced
  /-- It failed when some bytes of the line were written. -/
  | failed (written : ℕ)
  /-- The process was killed when some bytes of the line were written. -/
  | killed (written : ℕ)
deriving DecidableEq

/-- The bytes of a line that an append wrote. -/
def Appended.bytes (line : List UInt8) : Appended → List UInt8
  | .synced => line
  | .failed written => line.take written
  | .killed written => line.take written

/-- A record whose line is too long is refused before anything is written. -/
def fits (json : Json) (r : DeletionRecord) : Bool :=
  decide ((json.toVec r).length + 1 ≤ MAX_RECORD_BYTES)

/-- `DeletionLedger::append`: the file afterwards. -/
def append (json : Json) (file : List UInt8) (r : DeletionRecord) (appended : Appended) :
    List UInt8 :=
  if fits json r then file ++ appended.bytes (json.line r) else file

/-- The append returned `Ok`. -/
def appendOk (json : Json) (r : DeletionRecord) (appended : Appended) : Bool :=
  fits json r && decide (appended = .synced)

/-- The line was appended whole. -/
def landed (json : Json) (r : DeletionRecord) (appended : Appended) : Bool :=
  fits json r && match appended with
    | .synced => true
    | .failed written => decide ((json.line r).length ≤ written)
    | .killed written => decide ((json.line r).length ≤ written)

/-- The ledger does not end in a torn line. -/
def Untorn (file : List UInt8) : Prop := file = [] ∨ file.getLast? = some newline

instance (file : List UInt8) : Decidable (Untorn file) := inferInstanceAs (Decidable (_ ∨ _))

/-- An append that wrote nothing. -/
def Appended.Nothing (appended : Appended) : Prop := appended = .failed 0 ∨ appended = .killed 0

instance (appended : Appended) : Decidable appended.Nothing := inferInstanceAs (Decidable (_ ∨ _))

/-! ### Reading -/

/-- What is read of the ledger. -/
structure LedgerReadout where
  records : List DeletionRecord
  truncated : Bool
  readable : Bool
  errors : List String

/-- What the system answers to a read of the ledger. -/
structure ReadIo where
  /-- The file is there and cannot be opened. -/
  openError : Option String
  metadataError : Option String
  /-- The n-th line cannot be read. -/
  lineError : ℕ → Option String

/-- Nothing fails. -/
def ReadIo.fine : ReadIo := ⟨none, none, fun _ => none⟩

/-- An error is reported. -/
def LedgerReadout.push (out : LedgerReadout) (error : String) : LedgerReadout :=
  { out with errors := out.errors ++ [error] }

/-- The loop of `DeletionLedger::read`, from the n-th line on. -/
def readLoop (json : Json) (lineError : ℕ → Option String) (n : ℕ) (out : LedgerReadout) :
    List (List UInt8) → LedgerReadout
  | [] => match lineError n with
    | some error => out.push ("deletion ledger: " ++ error)
    | none => out
  | line :: rest => match lineError n with
    | some error => out.push ("deletion ledger: " ++ error)
    | none =>
      if json.utf8 line = false then
        out.push "deletion ledger: stream did not contain valid UTF-8"
      else if line.getLast? ≠ some newline then
        -- a torn tail from an interrupted append is not history
        out.push "deletion ledger has an incomplete final entry"
      else if MAX_RECORDS ≤ out.records.length then { out with truncated := true }
      else match json.fromLine line with
        | .ok record =>
          if record.schemaVersion = LEDGER_SCHEMA_VERSION then
            readLoop json lineError (n + 1) { out with records := out.records ++ [record] } rest
          else
            readLoop json lineError (n + 1) (out.push
              ("deletion ledger entry uses unsupported schema " ++ toString record.schemaVersion)) rest
        | .error error =>
          readLoop json lineError (n + 1) (out.push ("deletion ledger entry: " ++ error)) rest

/-- `DeletionLedger::read`.  A file that is not there reads as an empty one. -/
def read (json : Json) (io : ReadIo) (file : List UInt8) : LedgerReadout :=
  match io.openError with
  | some error => ⟨[], false, false, ["deletion ledger: " ++ error]⟩
  | none =>
    let out : LedgerReadout := match io.metadataError with
      | some error => ⟨[], false, true, ["deletion ledger: " ++ error]⟩
      | none => ⟨[], decide (MAX_LEDGER_BYTES < file.length), true, []⟩
    readLoop json io.lineError 0 out (Lines.split newline (file.take MAX_LEDGER_BYTES))

/-! ### Gaps -/

/-- A recorded discontinuity in a source's captured history. -/
structure CaptureGap where
  sourceId : String
  sourceName : String
  recordedAtUnixNanos : Int64
  cause : DeletionCause
  state : DeletionState
  sequenceRange : Option (UInt64 × UInt64)
  firstCapturedAtUnixNanos : Option Int64
  bytesFreed : UInt64
  policy : Option String
  summary : String

section
variable (formatBytes : UInt64 → String)

/-- `gap_summary`; how a number of bytes is written is a parameter. -/
def gapSummary (record : DeletionRecord) (state : DeletionState) (boundary : CaptureBoundary)
    (sequenceRange : Option (UInt64 × UInt64)) (bytesFreed : UInt64) : String :=
  let range := match sequenceRange, boundary.firstSequence with
    | some (first, last), _ => "records " ++ toString first ++ "–" ++ toString last
    | none, some first => "records from " ++ toString first ++ " onward"
    | none, none => "an unrecorded record range"
  let verb := match state with
    | .completed => "removed"
    | .failed => "partially removed"
    | .intended => "left in an interrupted removal"
  let scope := if boundary.wholeCapture then "the whole capture" else "part of the capture"
  let tail := match state with
    | .intended =>
      " Restart did not observe a completion entry; treat this source as incomplete."
    | .failed => " Some files may remain; this source is incomplete."
    | .completed => ""
  scope ++ " of \"" ++ record.targetLabel ++ "\" was " ++ verb ++ " by " ++ record.cause.label ++
    " (" ++ range ++ ", " ++ formatBytes bytesFreed ++ " freed)." ++ tail

/-- The settlement of an entry: the last one that names it. -/
def settledBy (records : List DeletionRecord) (entryId : String) : Option DeletionRecord :=
  (records.filter fun r => decide (r.state ≠ .intended) && decide (r.entryId = entryId)).getLast?

/-- The state of a deletion as the ledger has it. -/
def stateOf (records : List DeletionRecord) (record : DeletionRecord) : DeletionState :=
  ((settledBy records record.entryId).map DeletionRecord.state).getD .intended

/-- The gap of an intent. -/
def gapOf (records : List DeletionRecord) (record : DeletionRecord) : CaptureGap :=
  let outcome := settledBy records record.entryId
  let state := stateOf records record
  let bytesFreed := (outcome.map DeletionRecord.bytesFreed).getD record.bytesFreed
  let boundary := record.boundary.getD .default
  let sequenceRange := match boundary.firstSequence, boundary.lastSequence with
    | some first, some last => if first ≤ last then some (first, last) else none
    | _, _ => none
  { sourceId := boundary.sourceId
    sourceName := if boundary.sourceName = "" then record.targetLabel else boundary.sourceName
    recordedAtUnixNanos := record.recordedAtUnixNanos
    cause := record.cause
    state
    sequenceRange
    firstCapturedAtUnixNanos := boundary.firstCapturedAtUnixNanos
    bytesFreed
    policy := record.policy
    summary := gapSummary formatBytes record state boundary sequenceRange bytesFreed }

/-- An intent to delete a capture. -/
def isCaptureIntent (record : DeletionRecord) : Bool :=
  decide (record.state = .intended) && decide (record.kind = .capture)

def captureGaps (records : List DeletionRecord) : List CaptureGap :=
  (records.filter isCaptureIntent).map (gapOf formatBytes records)

end

theorem settled_of_completed {formatBytes : UInt64 → String} {records : List DeletionRecord}
    {record : DeletionRecord} (h : (gapOf formatBytes records record).state = .completed) :
    ∃ r ∈ records, r.entryId = record.entryId ∧ r.state = .completed := by
  change stateOf records record = .completed at h
  unfold stateOf settledBy at h
  cases hlast : (records.filter fun r =>
      decide (r.state ≠ .intended) && decide (r.entryId = record.entryId)).getLast? with
  | none =>
    rw [hlast] at h
    cases h
  | some r =>
    rw [hlast] at h
    obtain ⟨hmem, hr⟩ := mem_filter.1 (mem_of_getLast? hlast)
    simp only [Bool.and_eq_true, decide_eq_true_eq] at hr
    exact ⟨r, hmem, hr.2, h⟩

/-! ### What is read of whole lines -/

variable {json : Json}

/-- A ledger of whole lines. -/
def whole (json : Json) (written : List DeletionRecord) : List UInt8 :=
  Lines.join newline (written.map json.toVec)

@[simp] theorem whole_append (written written' : List DeletionRecord) :
    whole json (written ++ written') = whole json written ++ whole json written' := by
  simp [whole]

@[simp] theorem whole_singleton (r : DeletionRecord) : whole json [r] = json.line r := by
  simp [whole, Json.line]

/-- Records of this schema whose encoding is sound. -/
def Sound (json : Json) (written : List DeletionRecord) : Prop :=
  ∀ r ∈ written, json.Lawful r ∧ r.schemaVersion = LEDGER_SCHEMA_VERSION

variable {written : List DeletionRecord} {r : DeletionRecord} {tail : List UInt8}

theorem Sound.oneLine (h : Sound json written) :
    ∀ line ∈ written.map json.toVec, newline ∉ line := by
  intro line hline
  obtain ⟨r, hr, rfl⟩ := mem_map.1 hline
  exact (h r hr).1.oneLine

theorem landed_of_appendOk {appended : Appended} (h : appendOk json r appended = true) :
    landed json r appended = true := by
  simp only [appendOk, Bool.and_eq_true, decide_eq_true_eq] at h
  obtain ⟨hfits, rfl⟩ := h
  simp [landed, hfits]

theorem append_cut (hr : json.Lawful r) (file : List UInt8) (n : ℕ) :
    ∃ tail, newline ∉ tail ∧ file ++ (json.line r).take n =
      file ++ (if (json.line r).length ≤ n then json.line r else []) ++ tail := by
  split_ifs with hle
  · exact ⟨[], by simp, by rw [take_of_length_le hle, append_nil]⟩
  · have hlt : n ≤ (json.toVec r).length := by
      simp only [Json.line, length_append, length_singleton] at hle
      omega
    refine ⟨(json.toVec r).take n, fun hmem => hr.oneLine (mem_of_mem_take hmem), ?_⟩
    rw [Json.line, take_append_of_le_length hlt, append_nil]

/-- **An append to a ledger that does not end in a torn line** adds a whole line, or leaves a torn
one after the lines that were there. -/
theorem append_whole (htail : newline ∉ tail) (hr : json.Lawful r) {appended : Appended}
    (huntorn : Untorn (whole json written ++ tail) ∨ appended.Nothing) :
    ∃ tail', newline ∉ tail' ∧ append json (whole json written ++ tail) r appended =
      whole json (if landed json r appended then written ++ [r] else written) ++ tail' := by
  have hpositive : ¬ (json.line r).length ≤ 0 := by simp [Json.line]
  by_cases hfits : fits json r = true
  · obtain huntorn | hnothing := huntorn
    · obtain rfl : tail = [] := by
        by_contra hne
        obtain hempty | hlast := huntorn
        · exact hne (append_eq_nil_iff.1 hempty).2
        · rw [getLast?_append_of_ne_nil _ hne] at hlast
          exact htail (mem_of_getLast? hlast)
      simp only [append, landed, hfits, Bool.true_and, append_nil]
      cases appended with
      | synced => exact ⟨[], by simp, by simp [Appended.bytes]⟩
      | failed n | killed n =>
        obtain ⟨tail', htail', hcut⟩ := append_cut hr (whole json written) n
        refine ⟨tail', htail', ?_⟩
        rw [Appended.bytes, hcut]
        by_cases hle : (json.line r).length ≤ n <;> simp [hle]
    · -- the torn line stays as it is
      refine ⟨tail, htail, ?_⟩
      obtain rfl | rfl := hnothing <;>
        simp [append, hfits, Appended.bytes, landed, hpositive]
  · exact ⟨tail, htail, by simp [append, landed, hfits]⟩

theorem readLoop_torn (n : ℕ) (out : LedgerReadout) (htail : newline ∉ tail) :
    (readLoop json (fun _ => none) n out (Lines.torn tail)).records = out.records ∧
      (readLoop json (fun _ => none) n out (Lines.torn tail)).truncated = out.truncated := by
  cases tail with
  | nil => exact ⟨rfl, rfl⟩
  | cons b bs =>
    have hlast : (b :: bs).getLast? ≠ some newline := fun h => htail (mem_of_getLast? h)
    rw [Lines.torn, readLoop]
    · split_ifs <;> exact ⟨rfl, rfl⟩
    · simp

/-- The loop takes the records of whole lines up to its bound, and says where it stopped there. -/
theorem readLoop_whole (h : Sound json written) (htail : newline ∉ tail) (n : ℕ)
    (out : LedgerReadout) :
    ∃ k, let out' := readLoop json (fun _ => none) n out (written.map json.line ++ Lines.torn tail)
      out'.records = out.records ++ written.take k ∧
      (out'.truncated = false → out.truncated = false ∧ out'.records = out.records ++ written) := by
  induction written generalizing n out with
  | nil =>
    obtain ⟨hrecords, htruncated⟩ := readLoop_torn n out htail
    refine ⟨0, ?_, fun hnot => ?_⟩
    · simpa using hrecords
    · rw [map_nil, nil_append] at hnot ⊢
      exact ⟨htruncated ▸ hnot, by simpa using hrecords⟩
  | cons r rest ih =>
    obtain ⟨hlawful, hversion⟩ := h r (by simp)
    have hrest : Sound json rest := fun r' hr' => h r' (mem_cons_of_mem _ hr')
    have hlast : (json.line r).getLast? = some newline := by simp [Json.line]
    simp only [map_cons, cons_append, readLoop, hlawful.utf8, hlast, hlawful.fromLine,
      hversion, Bool.true_eq_false, if_false, ne_eq, not_true, if_true]
    split_ifs with hfull
    · exact ⟨0, by simp, fun hnot => by cases hnot⟩
    · obtain ⟨k, hrecords, hnot⟩ := ih hrest (n + 1) { out with records := out.records ++ [r] }
      refine ⟨k + 1, ?_, fun ht => ?_⟩
      · rw [hrecords, append_assoc]
        rfl
      · obtain ⟨h₁, h₂⟩ := hnot ht
        refine ⟨h₁, ?_⟩
        rw [h₂, append_assoc]
        rfl

theorem split_whole (h : Sound json written) (htail : newline ∉ tail) :
    Lines.split newline (whole json written ++ tail) =
      written.map json.line ++ Lines.torn tail := by
  rw [whole, Lines.split_join h.oneLine htail, map_map]
  rfl

theorem read_fine (file : List UInt8) : read json .fine file =
    readLoop json (fun _ => none) 0 ⟨[], decide (MAX_LEDGER_BYTES < file.length), true, []⟩
      (Lines.split newline (file.take MAX_LEDGER_BYTES)) := rfl

/-- **What is read of a ledger**: the records of its whole lines in order, up to a bound; where the
readout is not truncated, all of them. -/
theorem read_join (h : Sound json written) (htail : newline ∉ tail) :
    (read json .fine (whole json written ++ tail)).records <+: written ∧
      ((read json .fine (whole json written ++ tail)).truncated = false →
        (read json .fine (whole json written ++ tail)).records = written) := by
  by_cases hshort : (whole json written ++ tail).length ≤ MAX_LEDGER_BYTES
  · have hread : read json .fine (whole json written ++ tail) =
        readLoop json (fun _ => none) 0
          ⟨[], decide (MAX_LEDGER_BYTES < (whole json written ++ tail).length), true, []⟩
          (written.map json.line ++ Lines.torn tail) := by
      rw [read_fine, take_of_length_le hshort, split_whole h htail]
    rw [hread]
    obtain ⟨k, hrecords, hnot⟩ := readLoop_whole h htail 0
      ⟨[], decide (MAX_LEDGER_BYTES < (whole json written ++ tail).length), true, []⟩
    rw [nil_append] at hrecords
    exact ⟨hrecords ▸ take_prefix _ _, fun htruncated => (hnot htruncated).2⟩
  · -- the file is cut, and the readout says so
    obtain ⟨k, tail', htake, htail'⟩ := Lines.take_join htail h.oneLine MAX_LEDGER_BYTES
    have hhead : Sound json (written.take k) := fun r hr => h r (mem_of_mem_take hr)
    have hread : read json .fine (whole json written ++ tail) =
        readLoop json (fun _ => none) 0
          ⟨[], decide (MAX_LEDGER_BYTES < (whole json written ++ tail).length), true, []⟩
          ((written.take k).map json.line ++ Lines.torn tail') := by
      rw [read_fine, ← split_whole hhead htail', whole, htake, ← map_take]
      rfl
    rw [hread]
    obtain ⟨j, hrecords, hnot⟩ := readLoop_whole hhead htail' 0
      ⟨[], decide (MAX_LEDGER_BYTES < (whole json written ++ tail).length), true, []⟩
    rw [nil_append, take_take] at hrecords
    refine ⟨hrecords ▸ take_prefix _ _, fun htruncated => ?_⟩
    have hle : (whole json written ++ tail).length ≤ MAX_LEDGER_BYTES := by
      simpa using (hnot htruncated).1
    exact absurd hle hshort

end Lvu.Storage
