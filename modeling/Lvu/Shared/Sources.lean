import Lvu.Core.Model

/-!
# Source definitions and their admission keys

A window asks for a capture by its definition (`lvu-core/src/model.rs`).  The worker brings the
definition into one spelling, keys it by what it captures, and asks the admission hook of the
child whether a capture it knows already is that one (`lvu-shared/src/worker.rs`, `child.rs`).
The resolution of a path by the file system is a parameter.

* `admitKnown_admits` : a definition is admitted only if no known one has its id or its key.
* `admitKnown_present` : a definition that is presented is known under its id or its key.
-/

namespace Lvu.Shared

/-! ### Definitions -/

/-- A path: its bytes. -/
structure Path where
  bytes : List UInt8
deriving DecidableEq

/-- The byte `/`. -/
def slash : UInt8 := 47

def Path.isAbsolute (p : Path) : Bool := p.bytes.head? == some slash

/-- The first component of a relative path is a name and the only one: separators at the end and
`.` after the first component are none. -/
def Path.isBareName (p : Path) : Bool :=
  match (p.bytes.splitOn slash).filter (· ≠ []) with
  | [] => false
  | first :: rest => first ≠ [46] && first ≠ [46, 46] && rest.all (· = [46])

inductive RestartPolicy
  | never | onFailure | always
deriving DecidableEq

inductive HttpFraming
  | newline | sse
deriving DecidableEq

/-- `ReconnectPolicy`; delays are in milliseconds, as on the wire. -/
structure ReconnectPolicy where
  enabled : Bool
  delay : ℕ
  maximumDelay : ℕ
  jitterPercent : UInt8
  maximumAttempts : UInt32
  attemptWindow : ℕ
  resume : Bool
deriving DecidableEq

structure HttpHeader where
  name : String
  value : String
deriving DecidableEq

structure HttpLimits where
  maximumFrameBytes : ℕ
  maximumPendingBytes : ℕ
  connectTimeout : ℕ
  readTimeout : ℕ
deriving DecidableEq

inductive CommandProgram
  | shell (text : String)
  | exec (executable : Path) (args : List String)
deriving DecidableEq

structure CommandDefinition where
  program : CommandProgram
  cwd : Option Path
  environment : List (String × String)
  restart : RestartPolicy
deriving DecidableEq

inductive Acquisition
  | stdin
  | file (path : Path) (follow : Bool)
  | command (command : CommandDefinition)
  | http (url : String) (framing : HttpFraming) (reconnect : ReconnectPolicy)
      (headers : List HttpHeader) (limits : HttpLimits)
deriving DecidableEq

structure RetentionPolicy where
  maximumBytes : Option UInt64
  maximumAgeSeconds : Option UInt64
deriving DecidableEq

structure SourceDefinition where
  schemaVersion : UInt32
  id : SourceId
  name : String
  acquisition : Acquisition
  identityHints : List (String × String)
  retention : Option RetentionPolicy
deriving DecidableEq

/-- The definition attaches a pipe. -/
def SourceDefinition.isStdin (d : SourceDefinition) : Bool :=
  match d.acquisition with
  | .stdin => true
  | .file _ _ | .command _ | .http _ _ _ _ _ => false

/-! ### Texts -/

/-- A hexadecimal digit. -/
def hexDigit (n : UInt8) : Char := if n < 10 then Char.ofNat (48 + n.toNat) else Char.ofNat (87 + n.toNat)

/-- The two digits of a byte. -/
def hexByte (b : UInt8) : List Char := [hexDigit (b / 16), hexDigit (b % 16)]

/-- A UUID as it is printed. -/
def uuidText (u : Uuid) : String :=
  let digits := u.bytes.flatMap hexByte
  String.ofList (digits.take 8 ++ '-' :: (digits.drop 8).take 4 ++ '-' :: (digits.drop 12).take 4
    ++ '-' :: (digits.drop 16).take 4 ++ '-' :: digits.drop 20)

/-- `lossless_path_text`, as a path again. -/
def losslessPathText (p : Path) : Path :=
  ⟨[104, 101, 120, 58] ++ (p.bytes.flatMap hexByte).map fun c => UInt8.ofNat c.toNat⟩

/-! ### The boundary -/

def validateStartBoundary (d : SourceDefinition) : Except String Unit :=
  if d.schemaVersion ≠ 1 then .error s!"unsupported source schema_version {d.schemaVersion}"
  else match d.acquisition with
  | .file path _ =>
    if path.isAbsolute then .ok () else .error "file path must be absolute before worker admission"
  | .command command =>
    match command.cwd with
    | none => .error "command cwd must be explicit before worker admission"
    | some cwd =>
      if ¬ cwd.isAbsolute then .error "command cwd must be absolute before worker admission"
      else match command.program with
      | .exec executable _ =>
        if executable.isAbsolute || executable.isBareName then .ok ()
        else .error "relative command executable paths must be resolved before worker admission"
      | .shell _ => .ok ()
  | .stdin | .http _ _ _ _ _ => .ok ()

section
-- `std::fs::canonicalize`
variable (canonicalize : Path → Option Path)

def canonicalizeDefinition (d : SourceDefinition) : SourceDefinition :=
  match d.acquisition with
  | .file path follow =>
    if path.isAbsolute then
      { d with acquisition := .file ((canonicalize path).getD path) follow }
    else d
  | .stdin | .command _ | .http _ _ _ _ _ => d

/-- `acquisition_identity`, before its serialization: the acquisition with its paths resolved and
written without loss. -/
def acquisitionIdentity : Acquisition → Except String Acquisition
  | .file path follow =>
    if path.isAbsolute then
      .ok (.file (losslessPathText ((canonicalize path).getD path)) follow)
    else .error "file path must be absolute before worker admission"
  | .command command =>
    match command.cwd with
    | none => .error "command cwd must be explicit before worker admission"
    | some cwd =>
      if cwd.isAbsolute then
        .ok (.command { command with
          cwd := some (losslessPathText cwd)
          program := match command.program with
            | .exec executable args => .exec (losslessPathText executable) args
            | .shell text => .shell text })
      else .error "command cwd must be absolute before worker admission"
  | .stdin => .ok .stdin
  | .http url framing reconnect headers limits => .ok (.http url framing reconnect headers limits)

/-- An admission key: what the key's two serialized parts say. -/
abbrev AdmissionKey := Acquisition × Option RetentionPolicy

def admissionKey (d : SourceDefinition) : Except String (Option AdmissionKey) :=
  if d.isStdin then .ok none
  else match acquisitionIdentity canonicalize d.acquisition with
    | .error reason => .error reason
    | .ok identity => .ok (some (identity, d.retention))

/-- The key of a definition that has one. -/
def keyOf (d : SourceDefinition) : Option AdmissionKey :=
  match admissionKey canonicalize d with
  | .ok key => key
  | .error _ => none

/-! ### The hook -/

inductive AdmissionVerdict
  | admitted
  | present (liveId : SourceId)
  | refuse (reason : String)

def acquisitionIdentical (live proposed : Acquisition) : Except String Bool :=
  match acquisitionIdentity canonicalize live with
  | .error reason => .error reason
  | .ok l =>
    match acquisitionIdentity canonicalize proposed with
    | .error reason => .error reason
    | .ok p => .ok (l == p)

/-- `ChildAdmission::admit_known`, its loop over the known definitions. -/
def admitLoop (d : SourceDefinition) : List SourceDefinition → AdmissionVerdict
  | [] => .admitted
  | known :: rest =>
    if known.id = d.id then .present known.id
    else if known.retention = d.retention then
      match acquisitionIdentical canonicalize known.acquisition d.acquisition with
      | .ok true => .present known.id
      | .ok false => admitLoop d rest
      | .error reason => .refuse reason
    else admitLoop d rest

/-- `ChildAdmission::admit_known`. -/
def admitKnown (d : SourceDefinition) (live : List SourceDefinition) : AdmissionVerdict :=
  if d.isStdin then .admitted else admitLoop canonicalize d live

end

variable {canonicalize : Path → Option Path} {d known : SourceDefinition} {key : AdmissionKey}

theorem keyOf_eq_some_iff : keyOf canonicalize d = some key ↔
    d.isStdin = false ∧ acquisitionIdentity canonicalize d.acquisition = .ok key.1 ∧
      d.retention = key.2 := by
  obtain ⟨identity, retention⟩ := key
  unfold keyOf admissionKey
  cases hs : d.isStdin with
  | true => simp
  | false => cases hi : acquisitionIdentity canonicalize d.acquisition <;> simp

@[simp] theorem keyOf_of_isStdin (h : d.isStdin = true) : keyOf canonicalize d = none := by
  simp [keyOf, admissionKey, h]

theorem keyOf_of_admissionKey {k : Option AdmissionKey}
    (h : admissionKey canonicalize d = .ok k) : keyOf canonicalize d = k := by
  simp [keyOf, h]

theorem isStdin_of_admissionKey_none (h : admissionKey canonicalize d = .ok none) :
    d.isStdin = true := by
  unfold admissionKey at h
  cases hs : d.isStdin with
  | true => rfl
  | false =>
    rw [hs] at h
    cases hi : acquisitionIdentity canonicalize d.acquisition <;> simp [hi] at h

theorem acquisitionIdentical_of_keyOf (hknown : keyOf canonicalize known = some key)
    (hd : keyOf canonicalize d = some key) :
    acquisitionIdentical canonicalize known.acquisition d.acquisition = .ok true := by
  rw [acquisitionIdentical, (keyOf_eq_some_iff.1 hknown).2.1, (keyOf_eq_some_iff.1 hd).2.1]
  simp

theorem acquisitionIdentity_stdin {a : Acquisition}
    (h : acquisitionIdentity canonicalize a = .ok .stdin) : a = .stdin := by
  cases a with
  | stdin => rfl
  | file path follow =>
    rw [acquisitionIdentity] at h
    split_ifs at h
    simp at h
  | command command =>
    rw [acquisitionIdentity] at h
    cases hcwd : command.cwd with
    | none => simp [hcwd] at h
    | some cwd => cases habs : cwd.isAbsolute <;> simp [hcwd, habs] at h
  | http url framing reconnect headers limits => simp [acquisitionIdentity] at h

theorem keyOf_of_acquisitionIdentical (hd : keyOf canonicalize d = some key)
    (hret : known.retention = d.retention)
    (h : acquisitionIdentical canonicalize known.acquisition d.acquisition = .ok true) :
    keyOf canonicalize known = some key := by
  obtain ⟨hs, hid, hr⟩ := keyOf_eq_some_iff.1 hd
  rw [acquisitionIdentical, hid] at h
  cases hi : acquisitionIdentity canonicalize known.acquisition with
  | error reason => simp [hi] at h
  | ok identity =>
    rw [hi] at h
    obtain rfl : identity = key.1 := by simpa using h
    refine keyOf_eq_some_iff.2 ⟨?_, hi, hret.trans hr⟩
    -- a pipe is identified as a pipe, and `d` is none
    by_contra hknown
    have hpipe : known.acquisition = .stdin := by
      unfold SourceDefinition.isStdin at hknown
      cases ha : known.acquisition <;> simp_all
    rw [hpipe] at hi
    have := acquisitionIdentity_stdin (hid.trans hi.symm)
    simp [SourceDefinition.isStdin, this] at hs

/-- The hook admits only what is new. -/
theorem admitLoop_admit {live : List SourceDefinition} (hd : keyOf canonicalize d = some key)
    (h : admitLoop canonicalize d live = .admitted) :
    ∀ known ∈ live, known.id ≠ d.id ∧ keyOf canonicalize known ≠ some key := by
  induction live with
  | nil => simp
  | cons known rest ih =>
    rw [admitLoop] at h
    split_ifs at h with hid hret
    · cases hident : acquisitionIdentical canonicalize known.acquisition d.acquisition with
      | error reason => simp [hident] at h
      | ok same =>
        cases same with
        | true => simp [hident] at h
        | false =>
          rw [hident] at h
          refine List.forall_mem_cons.2 ⟨⟨hid, fun hk => ?_⟩, ih h⟩
          simp [acquisitionIdentical_of_keyOf hk hd] at hident
    · refine List.forall_mem_cons.2 ⟨⟨hid, fun hk => hret ?_⟩, ih h⟩
      exact (keyOf_eq_some_iff.1 hk).2.2.trans (keyOf_eq_some_iff.1 hd).2.2.symm

theorem admitKnown_admits {live : List SourceDefinition} (hd : keyOf canonicalize d = some key)
    (h : admitKnown canonicalize d live = .admitted) :
    ∀ known ∈ live, known.id ≠ d.id ∧ keyOf canonicalize known ≠ some key := by
  rw [admitKnown, (keyOf_eq_some_iff.1 hd).1] at h
  exact admitLoop_admit hd (by simpa using h)

/-- What the hook presents is known, by its id or by its acquisition. -/
theorem admitLoop_present {live : List SourceDefinition} {liveId : SourceId}
    (hd : keyOf canonicalize d = some key)
    (h : admitLoop canonicalize d live = .present liveId) :
    ∃ known ∈ live, known.id = liveId ∧
      (known.id = d.id ∨ keyOf canonicalize known = some key) := by
  induction live with
  | nil => simp [admitLoop] at h
  | cons known rest ih =>
    have later : admitLoop canonicalize d rest = .present liveId → ∃ known' ∈ known :: rest,
        known'.id = liveId ∧
          (known'.id = d.id ∨ keyOf canonicalize known' = some key) := by
      intro h
      obtain ⟨known', hmem, hk⟩ := ih h
      exact ⟨known', List.mem_cons_of_mem _ hmem, hk⟩
    rw [admitLoop] at h
    split_ifs at h with hid hret
    · exact ⟨known, List.mem_cons_self, AdmissionVerdict.present.inj h, .inl hid⟩
    · cases hident : acquisitionIdentical canonicalize known.acquisition d.acquisition with
      | error reason => simp [hident] at h
      | ok same =>
        cases same with
        | true =>
          rw [hident] at h
          exact ⟨known, List.mem_cons_self, AdmissionVerdict.present.inj h,
            .inr (keyOf_of_acquisitionIdentical hd hret hident)⟩
        | false => exact later (by simpa [hident] using h)
    · exact later h

theorem admitKnown_present {live : List SourceDefinition} {liveId : SourceId}
    (hd : keyOf canonicalize d = some key)
    (h : admitKnown canonicalize d live = .present liveId) :
    ∃ known ∈ live, known.id = liveId ∧
      (known.id = d.id ∨ keyOf canonicalize known = some key) := by
  rw [admitKnown, (keyOf_eq_some_iff.1 hd).1] at h
  exact admitLoop_present hd (by simpa using h)

end Lvu.Shared
