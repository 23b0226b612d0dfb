import Mathlib.Data.List.Nodup
import Lvu.Storage.Scan

/-!
# Deletions and what depends on the deleted

A request deletes a capture, or applies the retention rules (`run` of
`lvu-app/src/storage/governance.rs`): the root is scanned, plans are made of what was found, and
`OwnershipIndex::execute` removes the items of a plan that is the present one and not blocked.

* `Node.investigations` : the investigations under a root; `reachedInvestigations` : those a scan
  looks at.
* `Depends` : an investigation depends on a capture, or what it depends on cannot be read.
* `deletes_iff` : **when no deletion of a capture loses what an investigation depends on.**
* `unlisted_investigations` : the investigations directory cannot be read, and the capture that
  one of them names is deleted.
-/

namespace Lvu.Storage

open List

/-! ### What is under a root -/

/-- The investigations under a root. -/
def Node.investigations (root : Node) : List (Dirent Node) :=
  (root.entries.filter (·.name = INVESTIGATIONS_DIR)).flatMap fun e =>
    e.node.entries.filter (·.node.isDirectory)

/-- The source that an entry of a manifest's source list names. -/
def namedSource (ids : Ids) (source : Value) : Option SourceId :=
  ((source.get "source_id").bind Value.asStr).bind ids.parseSourceId

/-- An investigation depends on the capture: its manifest names the source, or cannot be read. -/
def Depends (out : Outside) (directory : Node) (source : SourceId) : Prop :=
  match readJson out.parseJson directory MANIFEST_FILE MAX_MANIFEST_BYTES with
  | none => False
  | some (.error _) => True
  | some (.ok value) => match (value.get "sources").bind Value.asArray with
    | none => True
    | some sources =>
      ∃ s ∈ sources, namedSource out.ids s = none ∨ namedSource out.ids s = some source

/-! ### What a scan looks at -/

/-- An entry that is a directory, and can be seen to be one. -/
def Dirent.usable (e : Dirent Node) : Bool := e.readable && e.stat && e.node.isDirectory

/-- The directories of a directory that a scan looks at. -/
def reachedDirs (n : Node) : List (Dirent Node) :=
  (n.listing.take MAX_ROOT_ENTRIES).filter Dirent.usable

/-- The investigations that a scan looks at. -/
def reachedInvestigations (root : Node) : List (Dirent Node) :=
  (((reachedDirs root).filter (·.name = INVESTIGATIONS_DIR)).flatMap fun e =>
    reachedDirs e.node).take MAX_INVESTIGATIONS

/-- The capture directories that a scan looks at. -/
def reachedCaptures (ids : Ids) (root : Node) : List (SourceId × Dirent Node) :=
  ((reachedDirs root).filterMap fun e =>
    (ids.parseSourceId e.name).map fun source => (source, e)).take MAX_CAPTURES

/-- What a manifest claims: whether some of it is unknown, and the pins. -/
def claims (out : Outside) (directory : Node) : Bool × List CapturePin :=
  match readJson out.parseJson directory MANIFEST_FILE MAX_MANIFEST_BYTES with
  | none => (false, [])
  | some (.error _) => (true, [])
  | some (.ok value) =>
    let parts := ((value.get "source_parts").bind Value.asArray).getD []
    match (value.get "sources").bind Value.asArray with
    | none => (true, [])
    | some sources =>
      let head := (sources.take MAX_PINS_PER_INVESTIGATION).map (manifestPin out.ids parts)
      (head.any Option.isNone || decide (MAX_PINS_PER_INVESTIGATION < sources.length),
        head.filterMap id)

/-- What a manifest claims blocks the deletion of a capture. -/
def claimsBlock (out : Outside) (directory : Node) (source : SourceId) : Bool :=
  (claims out directory).1 || (claims out directory).2.any fun pin => decide (pin.sourceId = source)

section Claims

variable {out : Outside} {directory : Node} {source : SourceId}

theorem manifestPins_spec (ids : Ids) (parts : List Value) (unit : InvestigationUnit)
    (sources : List Value) :
    (manifestPins ids parts unit sources).pins =
        unit.pins ++ (sources.map (manifestPin ids parts)).filterMap id ∧
      (manifestPins ids parts unit sources).unknownPins =
        (unit.unknownPins || (sources.map (manifestPin ids parts)).any Option.isNone) := by
  induction sources generalizing unit with
  | nil => simp [manifestPins]
  | cons s rest ih =>
    cases hpin : manifestPin ids parts s with
    | none | some pin => simp [manifestPins, hpin, ih]

/-- What is read of a manifest is what it claims. -/
theorem readManifestPins_spec {unit : InvestigationUnit} (hpins : unit.pins = [])
    (hunknown : unit.unknownPins = false) :
    (readManifestPins out directory unit).unknownPins = (claims out directory).1 ∧
      (readManifestPins out directory unit).pins = (claims out directory).2 := by
  unfold readManifestPins claims
  rcases readJson out.parseJson directory MANIFEST_FILE MAX_MANIFEST_BYTES with _ | error | value
  · exact ⟨hunknown, hpins⟩
  · exact ⟨rfl, hpins⟩
  · dsimp only
    cases (value.get "sources").bind Value.asArray with
    | none => exact ⟨rfl, hpins⟩
    | some sources =>
      obtain ⟨hpins', hunknown'⟩ := manifestPins_spec out.ids
        (((value.get "source_parts").bind Value.asArray).getD []) unit
        (sources.take MAX_PINS_PER_INVESTIGATION)
      rw [hpins, nil_append] at hpins'
      rw [hunknown, Bool.false_or] at hunknown'
      dsimp only
      split_ifs with hmany
      · exact ⟨by simp [hmany], hpins'⟩
      · exact ⟨by rw [hunknown']; simp [hmany], hpins'⟩

theorem manifestPin_sourceId (ids : Ids) (parts : List Value) (s : Value) :
    (manifestPin ids parts s).map CapturePin.sourceId = namedSource ids s := by
  unfold manifestPin namedSource
  cases (s.get "source_id").bind Value.asStr with
  | none => rfl
  | some text => cases h : ids.parseSourceId text <;> simp [h]

/-- A dependency blocks. -/
theorem claimsBlock_of_depends (h : Depends out directory source) :
    claimsBlock out directory source = true := by
  revert h
  unfold Depends claimsBlock claims
  rcases readJson out.parseJson directory MANIFEST_FILE MAX_MANIFEST_BYTES with _ | error | value
  · intro h
    cases h
  · intro _
    rfl
  · dsimp only
    cases hsources : (value.get "sources").bind Value.asArray with
    | none =>
      intro _
      rfl
    | some sources =>
      rintro ⟨s, hs, hnamed⟩
      dsimp only
      generalize ((value.get "source_parts").bind Value.asArray).getD [] = parts
      by_cases hmany : MAX_PINS_PER_INVESTIGATION < sources.length
      · simp [hmany]
      · -- every entry was looked at, this one too
        rw [take_of_length_le (Nat.le_of_not_lt hmany)]
        rw [← manifestPin_sourceId out.ids parts] at hnamed
        obtain hnone | hsome := hnamed
        · have hany : (sources.map (manifestPin out.ids parts)).any Option.isNone = true := by
            rw [any_map, any_eq_true]
            exact ⟨s, hs, by simpa using hnone⟩
          simp only [hany, Bool.true_or]
        · obtain ⟨pin, hpin, rfl⟩ := Option.map_eq_some_iff.1 hsome
          have hany : ((sources.map (manifestPin out.ids parts)).filterMap id).any
              (fun p => decide (p.sourceId = pin.sourceId)) = true := by
            rw [any_eq_true]
            refine ⟨pin, mem_filterMap.2 ⟨some pin, mem_map.2 ⟨s, hs, hpin⟩, rfl⟩, ?_⟩
            exact decide_eq_true rfl
          rw [hany, Bool.or_true]

end Claims

/-! ### What a scan that is not cancelled lists -/

/-- The cancel flag was not seen raised. -/
def Quiet (cancel : ℕ → Bool) (loads : ℕ) : Prop := ∀ n < loads, cancel n = false

section Listed

variable {cancel : ℕ → Bool} {out : Outside} {request : ScanRequest}

/-- What the scan keeps of an investigation. -/
def InvestigationUnit.claims (i : InvestigationUnit) : Bool × List CapturePin :=
  (i.unknownPins, i.pins)

theorem investigationUnit_claims (e : Dirent Node) (bytes : ℕ) (incomplete : Bool) :
    (investigationUnit out request e bytes incomplete).claims = claims out e.node := by
  have hrecord : ∀ unit : InvestigationUnit,
      (readInvestigationRecord out e.node unit).pins = unit.pins ∧
        (readInvestigationRecord out e.node unit).unknownPins = unit.unknownPins := by
    intro unit
    unfold readInvestigationRecord
    split <;> exact ⟨rfl, rfl⟩
  unfold investigationUnit InvestigationUnit.claims
  dsimp only
  obtain ⟨hunknown, hpins⟩ := @readManifestPins_spec out e.node _
    (hrecord ⟨e.name, "", request.root ++ [INVESTIGATIONS_DIR, e.name], bytes, none, [], false,
      incomplete, []⟩).1 (hrecord _).2
  split_ifs <;> simp [hunknown, hpins]

/-- The loop over investigations looks at the flag on, and lists no capture. -/
theorem loads_scanInvestigations (entries : List (Dirent Node)) (position : ℕ) (s : Scan) :
    s.loads ≤ (scanInvestigations cancel out request position entries s).loads ∧
      (scanInvestigations cancel out request position entries s).captures = s.captures := by
  induction entries generalizing position s with
  | nil => exact ⟨Nat.le_refl _, rfl⟩
  | cons e rest ih =>
    rw [scanInvestigations]
    have hload : s.loads ≤ s.load.loads := Nat.le_succ _
    split_ifs
    · exact ⟨hload, rfl⟩
    · exact ⟨hload, rfl⟩
    · have hframe := Frame.pushError s.load "investigation entry unreadable"
      obtain ⟨hl, hc⟩ := ih (position + 1) (s.load.pushError "investigation entry unreadable")
      exact ⟨Nat.le_trans hload (Nat.le_trans hframe.loads hl), hc.trans hframe.captures⟩
    · have hframe := @frame_treeSize cancel e s.load
      obtain ⟨hl, hc⟩ := ih (position + 1) (scanInvestigation cancel out request e s.load)
      exact ⟨Nat.le_trans hload (Nat.le_trans hframe.loads hl), hc.trans hframe.captures⟩
    · obtain ⟨hl, hc⟩ := ih (position + 1) s.load
      exact ⟨Nat.le_trans hload hl, hc⟩

theorem Quiet.mono {n m : ℕ} (h : Quiet cancel m) (hle : n ≤ m) : Quiet cancel n :=
  fun k hk => h k (Nat.lt_of_lt_of_le hk hle)

theorem take_reached {α : Type} (e : α) (rest : List α) {position : ℕ}
    (h : position < MAX_ROOT_ENTRIES) :
    (e :: rest).take (MAX_ROOT_ENTRIES - position) =
      e :: rest.take (MAX_ROOT_ENTRIES - (position + 1)) := by
  obtain ⟨n, hn⟩ : ∃ n, MAX_ROOT_ENTRIES - position = n + 1 := ⟨MAX_ROOT_ENTRIES - position - 1, by omega⟩
  rw [hn, take_succ_cons, show MAX_ROOT_ENTRIES - (position + 1) = n by omega]

/-- The loop over investigations lists those within its limits. -/
theorem scanInvestigations_spec (entries : List (Dirent Node)) {position : ℕ} {s : Scan}
    (hposition : position ≤ MAX_ROOT_ENTRIES)
    (hquiet : Quiet cancel (scanInvestigations cancel out request position entries s).loads) :
    (scanInvestigations cancel out request position entries s).investigations.map
        InvestigationUnit.claims =
      s.investigations.map InvestigationUnit.claims ++
        ((((entries.take (MAX_ROOT_ENTRIES - position)).filter Dirent.usable).take
          (MAX_INVESTIGATIONS - s.investigations.length)).map fun e => claims out e.node) := by
  induction entries generalizing position s with
  | nil => simp [scanInvestigations]
  | cons e rest ih =>
    rw [scanInvestigations] at hquiet ⊢
    split_ifs at hquiet ⊢ with hcancel hbound hreadable husable
    · exact absurd hcancel (by simp [hquiet s.loads (Nat.lt_succ_self _)])
    · -- a limit was met: nothing more is listed
      obtain rfl | hfull := hbound
      · simp [Scan.load]
      · rw [Nat.sub_eq_zero_of_le hfull]
        simp [Scan.load]
    all_goals
      rw [not_or, Nat.not_le] at hbound
      have hlt : position < MAX_ROOT_ENTRIES := Nat.lt_of_le_of_ne hposition hbound.1
      rw [take_reached e rest hlt]
    · have hframe := Frame.pushError s.load "investigation entry unreadable"
      rw [ih hlt hquiet, hframe.investigations, filter_cons_of_neg (by simp [Dirent.usable, hreadable])]
      rfl
    · have hframe := @frame_treeSize cancel e s.load
      obtain ⟨n, hn⟩ : ∃ n, MAX_INVESTIGATIONS - s.investigations.length = n + 1 :=
        ⟨MAX_INVESTIGATIONS - s.investigations.length - 1, by omega⟩
      rw [ih hlt hquiet, filter_cons_of_pos (by
        simp only [Dirent.usable, Bool.and_eq_true] at husable ⊢
        exact ⟨⟨by simpa using hreadable, husable.1⟩, husable.2⟩), hn]
      simp only [scanInvestigation, hframe.investigations, map_append, map_cons,
        map_nil, investigationUnit_claims, length_append, length_cons,
        length_nil, take_succ_cons, append_assoc, cons_append, nil_append]
      rw [show MAX_INVESTIGATIONS - ((s.load).investigations.length + (0 + 1)) = n by
        change MAX_INVESTIGATIONS - (s.investigations.length + 1) = n
        omega]
      rfl
    · rw [ih hlt hquiet, filter_cons_of_neg (by
        simp only [Dirent.usable]
        intro h
        simp only [Bool.and_eq_true] at h husable
        exact husable ⟨h.1.2, h.2⟩)]
      rfl

/-- What the scan keeps of a capture. -/
structure CaptureKey where
  sourceId : SourceId
  name : String
  directory : Path
  active : Bool

def CaptureUnit.key (c : CaptureUnit) : CaptureKey := ⟨c.sourceId, c.name, c.directory, c.active⟩

/-- What the scan keeps of a capture directory. -/
def captureKey (out : Outside) (request : ScanRequest) (c : SourceId × Dirent Node) : CaptureKey :=
  ⟨c.1, (readSourceMetadata out c.2).1.1, request.root ++ [c.2.name],
    captureActive out request c.1 c.2.node⟩

theorem scanCapture_spec (source : SourceId) (e : Dirent Node) (s : Scan) :
    s.loads ≤ (scanCapture cancel out request source e s).loads ∧
      (scanCapture cancel out request source e s).investigations = s.investigations ∧
      (scanCapture cancel out request source e s).captures.map CaptureUnit.key =
        s.captures.map CaptureUnit.key ++ [captureKey out request (source, e)] := by
  have hframe : Frame s ((treeSize cancel e s).2.note (readSourceMetadata out e).2) :=
    (frame_treeSize e s).trans (.note _ _)
  refine ⟨hframe.loads, hframe.investigations, ?_⟩
  simp only [scanCapture, hframe.captures, map_append, map_cons, map_nil]
  rfl

theorem parseSourceId_workspace (ids : Ids) : ids.parseSourceId WORKSPACE_DIR = none := rfl

theorem parseSourceId_investigations (ids : Ids) : ids.parseSourceId INVESTIGATIONS_DIR = none := rfl

/-- What a directory of the root adds to the investigations. -/
def ownInvestigations (e : Dirent Node) : List (Dirent Node) :=
  if e.name = INVESTIGATIONS_DIR then reachedDirs e.node else []

/-- What a directory of the root adds to the captures. -/
def ownCapture (ids : Ids) (e : Dirent Node) : Option (SourceId × Dirent Node) :=
  (ids.parseSourceId e.name).map fun source => (source, e)

/-- A directory of the root adds its investigations, or itself, within the limits. -/
theorem scanDirectory_spec (e : Dirent Node) (s : Scan) :
    s.loads ≤ (scanDirectory cancel out request e s).loads ∧
      (Quiet cancel (scanDirectory cancel out request e s).loads →
        (scanDirectory cancel out request e s).investigations.map InvestigationUnit.claims =
          s.investigations.map InvestigationUnit.claims ++
            ((ownInvestigations e).take (MAX_INVESTIGATIONS - s.investigations.length)).map
              fun e => claims out e.node) ∧
      (scanDirectory cancel out request e s).captures.map CaptureUnit.key =
        s.captures.map CaptureUnit.key ++
          ((ownCapture out.ids e).toList.take (MAX_CAPTURES - s.captures.length)).map
            (captureKey out request) := by
  unfold scanDirectory ownInvestigations ownCapture
  by_cases hworkspace : e.name = WORKSPACE_DIR
  · have hframe := @frame_treeSize cancel e s
    have hne : e.name ≠ INVESTIGATIONS_DIR := by
      rw [hworkspace]
      decide
    rw [if_pos hworkspace, if_neg hne, hworkspace, parseSourceId_workspace]
    refine ⟨hframe.loads, fun _ => ?_, ?_⟩
    · simp [hframe.investigations]
    · simp [hframe.captures]
  rw [if_neg hworkspace]
  by_cases hinvestigations : e.name = INVESTIGATIONS_DIR
  · rw [if_pos hinvestigations, if_pos hinvestigations, hinvestigations,
      parseSourceId_investigations]
    rcases hnode : e.node with _ | _ | _ | ⟨listable, entries⟩
    case directory =>
      cases listable with
      | false =>
        have hframe := Frame.pushError s "investigations: unreadable"
        exact ⟨hframe.loads, fun _ => by simp [hframe.investigations, reachedDirs, Node.listing],
          by simp [hframe.captures]⟩
      | true =>
        obtain ⟨hloads, hcaptures⟩ := @loads_scanInvestigations cancel out request entries 0 s
        refine ⟨hloads, fun hquiet => ?_, by simp [Node.entries, hcaptures]⟩
        exact scanInvestigations_spec entries (Nat.zero_le _) hquiet
    all_goals exact ⟨Nat.le_refl _, fun _ => by simp [reachedDirs, Node.listing, Node.entries,
      scanInvestigations], by simp [Node.entries, scanInvestigations]⟩
  rw [if_neg hinvestigations, if_neg hinvestigations]
  cases out.ids.parseSourceId e.name with
  | none => exact ⟨Nat.le_refl _, fun _ => by simp, by simp⟩
  | some source =>
    dsimp only
    split_ifs with hfull
    · rw [Nat.sub_eq_zero_of_le hfull]
      exact ⟨Nat.le_refl _, fun _ => by simp, by simp⟩
    · obtain ⟨hloads, hinv, hcaptures⟩ := @scanCapture_spec cancel out request source e s
      refine ⟨hloads, fun _ => by simp [hinv], ?_⟩
      rw [hcaptures]
      obtain ⟨n, hn⟩ : ∃ n, MAX_CAPTURES - s.captures.length = n + 1 :=
        ⟨MAX_CAPTURES - s.captures.length - 1, by omega⟩
      simp [hn]

theorem ownInvestigations_flatMap (l : List (Dirent Node)) :
    l.flatMap ownInvestigations =
      (l.filter (·.name = INVESTIGATIONS_DIR)).flatMap fun e => reachedDirs e.node := by
  induction l with
  | nil => rfl
  | cons e rest ih =>
    by_cases h : e.name = INVESTIGATIONS_DIR
    · simp [flatMap_cons, ownInvestigations, h, ih]
    · simp [flatMap_cons, ownInvestigations, h, ih]

/-- What is listed so far, with what the rest of the root adds. -/
structure Lists (out : Outside) (request : ScanRequest) (s : Scan) (dirs : List (Dirent Node))
    (s' : Scan) : Prop where
  investigations : s'.investigations.map InvestigationUnit.claims =
    s.investigations.map InvestigationUnit.claims ++
      ((dirs.flatMap ownInvestigations).take (MAX_INVESTIGATIONS - s.investigations.length)).map
        fun e => claims out e.node
  captures : s'.captures.map CaptureUnit.key = s.captures.map CaptureUnit.key ++
    ((dirs.filterMap (ownCapture out.ids)).take (MAX_CAPTURES - s.captures.length)).map
      (captureKey out request)

theorem Lists.of_frame {s s' s'' : Scan} {dirs : List (Dirent Node)} (hframe : Frame s s')
    (h : Lists out request s' dirs s'') : Lists out request s dirs s'' := by
  obtain ⟨hi, hc⟩ := h
  rw [hframe.investigations] at hi
  rw [hframe.captures] at hc
  exact ⟨hi, hc⟩

/-- A directory, and then the rest. -/
theorem Lists.cons {s s' s'' : Scan} {e : Dirent Node} {dirs : List (Dirent Node)}
    (h : Lists out request s [e] s') (h' : Lists out request s' dirs s'') :
    Lists out request s (e :: dirs) s'' := by
  constructor
  · have hlength := congrArg List.length h.investigations
    have hcons : (e :: dirs).flatMap ownInvestigations =
        [e].flatMap ownInvestigations ++ dirs.flatMap ownInvestigations := by
      rw [← flatMap_append]
      rfl
    rw [h'.investigations, h.investigations, hcons, take_append, map_append,
      append_assoc]
    simp only [length_append, length_map, length_take] at hlength ⊢
    rw [show MAX_INVESTIGATIONS - s'.investigations.length = MAX_INVESTIGATIONS -
      s.investigations.length - ([e].flatMap ownInvestigations).length by omega]
  · have hlength := congrArg List.length h.captures
    have hcons : (e :: dirs).filterMap (ownCapture out.ids) =
        [e].filterMap (ownCapture out.ids) ++ dirs.filterMap (ownCapture out.ids) := by
      rw [← filterMap_append]
      rfl
    rw [h'.captures, h.captures, hcons, take_append, map_append, append_assoc]
    simp only [length_append, length_map, length_take] at hlength ⊢
    rw [show MAX_CAPTURES - s'.captures.length = MAX_CAPTURES - s.captures.length -
      ([e].filterMap (ownCapture out.ids)).length by omega]

/-- The loop over the root comes to its end when it is not cancelled, and lists what is within its
limits. -/
theorem scanRoot_spec (entries : List (Dirent Node)) {position : ℕ} {s : Scan}
    (hposition : position ≤ MAX_ROOT_ENTRIES) :
    s.loads ≤ (scanRoot cancel out request position entries s).2 ∧
    (Quiet cancel (scanRoot cancel out request position entries s).2 →
      ∃ s', (scanRoot cancel out request position entries s).1 = s'.finished request ∧
        Lists out request s ((entries.take (MAX_ROOT_ENTRIES - position)).filter Dirent.usable) s') := by
  induction entries generalizing position s with
  | nil => exact ⟨Nat.le_succ _, fun _ => ⟨_, rfl, by rw [take_nil]; exact ⟨by simp, by simp⟩⟩⟩
  | cons e rest ih =>
    rw [scanRoot]
    by_cases hcancel : cancel s.loads = true
    · rw [if_pos hcancel]
      exact ⟨Nat.le_succ _, fun hquiet => absurd hcancel (by simp [hquiet s.loads (Nat.lt_succ_self _)])⟩
    rw [if_neg hcancel]
    by_cases hbound : position = MAX_ROOT_ENTRIES
    · rw [if_pos hbound, hbound, Nat.sub_self]
      refine ⟨Nat.le_trans (Nat.le_succ _) (Nat.le_succ _), fun _ => ⟨_, rfl, ?_⟩⟩
      rw [take_zero]
      exact ⟨by simp [Scan.load], by simp [Scan.load]⟩
    have hlt : position < MAX_ROOT_ENTRIES := Nat.lt_of_le_of_ne hposition hbound
    rw [if_neg hbound, take_reached e rest hlt]
    -- an entry that is passed over lists nothing
    have hskip : ∀ s₁, Frame s s₁ → e.usable = false →
        s.loads ≤ (scanRoot cancel out request (position + 1) rest s₁).2 ∧
        (Quiet cancel (scanRoot cancel out request (position + 1) rest s₁).2 →
          ∃ s', (scanRoot cancel out request (position + 1) rest s₁).1 = s'.finished request ∧
            Lists out request s ((e :: rest.take (MAX_ROOT_ENTRIES - (position + 1))).filter
              Dirent.usable) s') := by
      intro s₁ hframe husable
      obtain ⟨hloads, hend⟩ := @ih (position + 1) s₁ hlt
      refine ⟨Nat.le_trans hframe.loads hloads, fun hquiet => ?_⟩
      obtain ⟨s', hs', hlists⟩ := hend hquiet
      refine ⟨s', hs', ?_⟩
      rw [filter_cons_of_neg (by simp [husable])]
      exact .of_frame hframe hlists
    split_ifs with hreadable hstat hdir
    · exact hskip _ ((Frame.load s).trans (.pushError _ _)) (by simp [Dirent.usable, hreadable])
    · exact hskip _ ((Frame.load s).trans (.pushError _ _)) (by simp [Dirent.usable, hstat])
    · obtain ⟨hscan, hinv, hcap⟩ := @scanDirectory_spec cancel out request e s.load
      obtain ⟨hloads, hend⟩ := @ih (position + 1) (scanDirectory cancel out request e s.load) hlt
      refine ⟨Nat.le_trans (Nat.le_succ _) (Nat.le_trans hscan hloads), fun hquiet => ?_⟩
      obtain ⟨s', hs', hlists⟩ := hend hquiet
      refine ⟨s', hs', ?_⟩
      have husable : e.usable = true := by
        rw [Dirent.usable, hdir, eq_true_of_ne_false hreadable, eq_true_of_ne_false hstat]
        rfl
      rw [filter_cons_of_pos husable]
      refine .cons (.of_frame (Frame.load s) ⟨?_, ?_⟩) hlists
      · rw [hinv (hquiet.mono hloads)]
        simp
      · rw [hcap]
        cases hown : ownCapture out.ids e <;> simp [hown]
    · exact hskip _ (Frame.load s) (by simp [Dirent.usable, hdir])

/-- The captures a scan lists, in their order. -/
def listedCaptures (out : Outside) (request : ScanRequest) (root : Node) : List CaptureKey :=
  ((reachedCaptures out.ids root).map (captureKey out request)).mergeSort fun a b =>
    decide (a.name ≤ b.name)

/-- The capture that a scan lists under a source. -/
def listedCapture (out : Outside) (request : ScanRequest) (root : Node) (source : SourceId) :
    Option CaptureKey :=
  (listedCaptures out request root).find? (·.sourceId = source)

/-- **A scan that is not cancelled lists what it reaches.** -/
theorem build_spec {root : Node} (hquiet : Quiet cancel (build cancel out root request).2) :
    (build cancel out root request).1.root = request.root ∧
    (∀ source, (∃ i ∈ (build cancel out root request).1.investigations, i.blocks source = true) ↔
      ∃ e ∈ reachedInvestigations root, claimsBlock out e.node source = true) ∧
    ∀ source, ((build cancel out root request).1.capture source).map CaptureUnit.key =
      listedCapture out request root source := by
  have hnothing : ∀ root : Node, root.listing = [] →
      reachedInvestigations root = [] ∧ reachedCaptures out.ids root = [] := by
    intro root hroot
    simp [reachedInvestigations, reachedCaptures, reachedDirs, hroot]
  have hempty : ∀ root : Node, root.listing = [] →
      let index := (Scan.empty.pushError "capture root: unreadable").unfinished request
      index.root = request.root ∧
      (∀ source, (∃ i ∈ index.investigations, i.blocks source = true) ↔
        ∃ e ∈ reachedInvestigations root, claimsBlock out e.node source = true) ∧
      ∀ source, (index.capture source).map CaptureUnit.key =
        listedCapture out request root source := by
    intro root hroot
    obtain ⟨hi, hc⟩ := hnothing root hroot
    have hframe := Frame.pushError .empty "capture root: unreadable"
    have hinvs : ((Scan.empty.pushError "capture root: unreadable").unfinished
        request).investigations = [] := hframe.investigations
    have hcaps : ((Scan.empty.pushError "capture root: unreadable").unfinished
        request).captures = [] := hframe.captures
    refine ⟨rfl, fun source => ?_, fun source => ?_⟩
    · simp [hi, hinvs]
    · simp [listedCapture, listedCaptures, hc, OwnershipIndex.capture, hcaps]
  rcases root with _ | _ | _ | ⟨listable, entries⟩
  case directory =>
    cases listable with
    | false => exact hempty _ rfl
    | true =>
      obtain ⟨-, hend⟩ := @scanRoot_spec cancel out request entries 0 .empty (Nat.zero_le _)
      obtain ⟨s', hs', hinv, hcap⟩ := hend hquiet
      rw [build, hs']
      refine ⟨rfl, fun source => ?_, fun source => ?_⟩
      · have hmem : ∀ i, i ∈ (s'.finished request).investigations ↔ i ∈ s'.investigations :=
          fun i => mem_mergeSort
        have hclaims : s'.investigations.map InvestigationUnit.claims =
            (reachedInvestigations (.directory true entries)).map fun e => claims out e.node := by
          rw [hinv, reachedInvestigations, ← ownInvestigations_flatMap]
          rfl
        constructor
        · rintro ⟨i, hi, hblocks⟩
          have : i.claims ∈ s'.investigations.map InvestigationUnit.claims :=
            mem_map_of_mem ((hmem i).1 hi)
          rw [hclaims] at this
          obtain ⟨e, he, heq⟩ := mem_map.1 this
          refine ⟨e, he, ?_⟩
          rw [claimsBlock, heq]
          exact hblocks
        · rintro ⟨e, he, hblocks⟩
          have : claims out e.node ∈ s'.investigations.map InvestigationUnit.claims := by
            rw [hclaims]
            exact mem_map_of_mem he
          obtain ⟨i, hi, heq⟩ := mem_map.1 this
          refine ⟨i, (hmem i).2 hi, ?_⟩
          rw [claimsBlock, ← heq] at hblocks
          exact hblocks
      · have hkeys : (s'.finished request).captures.map CaptureUnit.key =
            listedCaptures out request (.directory true entries) := by
          have hsort : ((s'.captures.map (Scan.attributed request)).mergeSort captureLe).map
              CaptureUnit.key = ((s'.captures.map (Scan.attributed request)).map
                CaptureUnit.key).mergeSort fun a b => decide (a.name ≤ b.name) :=
            map_mergeSort fun a _ b _ => rfl
          change ((s'.captures.map (Scan.attributed request)).mergeSort captureLe).map
            CaptureUnit.key = _
          rw [hsort, map_map]
          change (s'.captures.map CaptureUnit.key).mergeSort _ = _
          rw [hcap]
          rfl
        rw [listedCapture, ← hkeys, OwnershipIndex.capture, find?_map]
        rfl
  all_goals exact hempty _ rfl

end Listed

/-! ### Requests -/

/-- The metadata of a path under the root. -/
def statUnder (request : ScanRequest) (root : Node) (path : Path) : Metadata :=
  if request.root <+: path then root.metadata (path.drop request.root.length)
  else .missing "not found"

/-- A request that removes captured data. -/
inductive Job
  | delete (target : DeletionTarget) (digest : UInt64)
  | applyRetention (digest : UInt64)

/-- What a request meets besides the root. -/
structure Setting where
  /-- The cancel flag, at each look at it. -/
  cancel : ℕ → Bool
  /-- The fingerprint of a plan. -/
  digest : DeletionPlan → UInt64
  /-- The captures that the retention rules select, and why. -/
  select : OwnershipIndex → List (SourceId × String)
  /-- The intent of the n-th deletion was recorded. -/
  recorded : ℕ → Bool
  /-- How often the n-th removal looks at the flag on its way. -/
  looks : ℕ → ℕ

/-- The flag stays raised. -/
def Setting.Lasting (setting : Setting) : Prop :=
  ∀ n m, n ≤ m → setting.cancel n = true → setting.cancel m = true

section
variable (setting : Setting) (out : Outside) (root : Node) (request : ScanRequest)

/-- `OwnershipIndex::execute`, as far as its first removal: the plan whose items are removed, and
how often the flag was looked at.  A removal looks at the flag before it touches anything. -/
def execute (index : OwnershipIndex) (n loads : ℕ) (plan : DeletionPlan) : List DeletionPlan × ℕ :=
  match index.validate out.ids (statUnder request root) setting.digest plan "" 0 with
  | .error _ => ([], loads)
  | .ok _ =>
    if setting.recorded n = false then ([], loads)
    else if setting.cancel loads then ([], loads + 1)
    else ([plan], loads + 1 + setting.looks n)

/-- `retention::apply`. -/
def applyPlans (index : OwnershipIndex) : ℕ → ℕ → List DeletionPlan → List DeletionPlan
  | _, _, [] => []
  | n, loads, plan :: rest =>
    if setting.cancel loads then []
    else match plan.target with
      | .investigation _ => applyPlans index n (loads + 1) rest
      | .capture _ =>
        let executed := execute setting out root request index n (loads + 1) plan
        executed.1 ++ applyPlans index (n + 1) executed.2 rest

/-- `retention::assess`: the plans of the selected captures that nothing blocks. -/
def assess (index : OwnershipIndex) : List DeletionPlan :=
  ((setting.select index).map fun (source, reason) => index.planDeleteCapture out.ids
    (statUnder request root) setting.digest source .retention (some reason)).filter
      DeletionPlan.allowed

/-- `StorageInventory::retention_digest`. -/
def retentionDigest (plans : List DeletionPlan) : UInt64 :=
  plans.foldl (fun total plan => (total <<< 7 ||| total >>> 57) ^^^ plan.digest) 0

/-- What `run` does with the scan: the plans whose removal is begun. -/
def act (index : OwnershipIndex) (loads : ℕ) (job : Job) : List DeletionPlan :=
  match job with
  | .delete target digest =>
    let current := index.replan out.ids (statUnder request root) setting.digest target .userRequested none
    (execute setting out root request index 0 loads { current with digest }).1
  | .applyRetention digest =>
    let plans := assess setting out root request index
    if retentionDigest plans ≠ digest then [] else applyPlans setting out root request index 0 loads plans

def run (job : Job) : List DeletionPlan :=
  let scan := build setting.cancel out root request
  act setting out root request scan.1 scan.2 job

/-- A capture may be removed: no investigation depends on it, and no writer holds it. -/
def Safe (source : SourceId) (plan : DeletionPlan) : Prop :=
  (∀ e ∈ root.investigations, ¬ Depends out e.node source) ∧
  ∀ e ∈ root.entries, plan.items.head?.map PlanItem.path = some (request.root ++ [e.name]) →
    out.writerPresent e.node ≠ .ok true

/-- Where an investigation depends on the capture, the scan reaches one that must be taken to, or
does not offer the capture. -/
def Harmless (source : SourceId) : Prop :=
  (∃ e ∈ root.investigations, Depends out e.node source) →
    (∃ e ∈ reachedInvestigations root, claimsBlock out e.node source = true) ∨
    ∀ c, listedCapture out request root source = some c → c.active = true

end

/-! ### What is removed -/

section Removed

variable {setting : Setting} {out : Outside} {root : Node} {request : ScanRequest}
  {source : SourceId} {plan : DeletionPlan}

theorem planDeleteCapture_fields (index : OwnershipIndex) (ids : Ids) (stat : Path → Metadata)
    (digest : DeletionPlan → UInt64) (source : SourceId) (cause : DeletionCause)
    (policy : Option String) :
    let plan := index.planDeleteCapture ids stat digest source cause policy
    plan.target = .capture source ∧ plan.cause = cause ∧ plan.policy = policy ∧
      ∀ c, index.capture source = some c → plan.items.head?.map PlanItem.path = some c.directory := by
  unfold OwnershipIndex.planDeleteCapture
  cases index.capture source with
  | none => exact ⟨rfl, rfl, rfl, fun c hc => by cases hc⟩
  | some c =>
    refine ⟨rfl, rfl, rfl, fun c' hc => ?_⟩
    obtain rfl : c = c' := by simpa using hc
    rfl

/-- A plan is removed only when it is the present one, nothing blocks it, and the flag was not
raised. -/
theorem execute_removed {index : OwnershipIndex} {n loads : ℕ} {plan' : DeletionPlan}
    (h : plan' ∈ (execute setting out root request index n loads plan).1) :
    plan' = plan ∧ setting.cancel loads = false ∧
      (index.replan out.ids (statUnder request root) setting.digest plan.target plan.cause
        plan.policy).allowed = true := by
  unfold execute OwnershipIndex.validate at h
  split at h
  · cases h
  · rename_i record hvalid
    dsimp only at hvalid
    split_ifs at hvalid with hdigest hallowed
    split_ifs at h with hrecorded hcancel
    · cases h
    · cases h
    · refine ⟨by simpa using h, by simpa using hcancel, by simpa using hallowed⟩

theorem loads_execute (index : OwnershipIndex) (n loads : ℕ) (plan : DeletionPlan) :
    loads ≤ (execute setting out root request index n loads plan).2 := by
  unfold execute
  split
  · exact Nat.le_refl _
  · split_ifs
    · exact Nat.le_refl _
    · exact Nat.le_succ _
    · omega

/-- Retention removes only plans that are still the present ones. -/
theorem applyPlans_removed {index : OwnershipIndex} {plans : List DeletionPlan} {n loads : ℕ}
    (h : plan ∈ applyPlans setting out root request index n loads plans) :
    plan ∈ plans ∧ ∃ loads', loads ≤ loads' ∧ setting.cancel loads' = false ∧
      (index.replan out.ids (statUnder request root) setting.digest plan.target plan.cause
        plan.policy).allowed = true := by
  induction plans generalizing n loads with
  | nil => cases h
  | cons first rest ih =>
    rw [applyPlans] at h
    split_ifs at h with hcancel
    · cases h
    · split at h
      · obtain ⟨hmem, loads', hle, hrest⟩ := ih h
        exact ⟨mem_cons_of_mem _ hmem, loads', by omega, hrest⟩
      · obtain hfirst | hrest := mem_append.1 h
        · obtain ⟨rfl, hcancel', hallowed⟩ := execute_removed hfirst
          exact ⟨mem_cons_self, loads + 1, Nat.le_succ _, hcancel', hallowed⟩
        · have hloads := @loads_execute setting out root request index n (loads + 1) first
          obtain ⟨hmem, loads', hle, hrest⟩ := ih hrest
          exact ⟨mem_cons_of_mem _ hmem, loads', by omega, hrest⟩

/-- What is removed was planned, and nothing that is listed blocks it. -/
theorem act_removed {index : OwnershipIndex} {loads : ℕ} {job : Job}
    (h : plan ∈ act setting out root request index loads job)
    (htarget : plan.target = .capture source) :
    (∃ loads', loads ≤ loads' ∧ setting.cancel loads' = false) ∧
    ∃ cause policy, (index.planDeleteCapture out.ids (statUnder request root) setting.digest source
        cause policy).allowed = true ∧
      plan.items = (index.planDeleteCapture out.ids (statUnder request root) setting.digest source
        cause policy).items := by
  cases job with
  | delete target digest =>
    obtain ⟨rfl, hcancel, hallowed⟩ := execute_removed h
    refine ⟨⟨loads, Nat.le_refl _, hcancel⟩, .userRequested, none, ?_⟩
    cases target with
    | capture source' =>
      obtain ⟨ht, hc, hp, -⟩ := planDeleteCapture_fields index out.ids (statUnder request root)
        setting.digest source' .userRequested none
      simp only [OwnershipIndex.replan] at htarget hallowed ⊢
      rw [ht] at htarget
      cases htarget
      simp only [ht, hc, hp] at hallowed
      exact ⟨hallowed, rfl⟩
    | investigation directory =>
      simp only [OwnershipIndex.replan, OwnershipIndex.planDeleteInvestigation] at htarget
      split at htarget <;> cases htarget
  | applyRetention digest =>
    simp only [act] at h
    split_ifs at h with hdigest
    · cases h
    · obtain ⟨hmem, loads', hle, hcancel, hallowed⟩ := applyPlans_removed h
      obtain ⟨⟨source', reason⟩, -, rfl⟩ := mem_map.1 (mem_filter.1 hmem).1
      obtain ⟨ht, hc, hp, -⟩ := planDeleteCapture_fields index out.ids (statUnder request root)
        setting.digest source' .retention (some reason)
      dsimp only at htarget hallowed
      rw [ht] at htarget
      cases htarget
      simp only [ht, hc, hp, OwnershipIndex.replan] at hallowed
      exact ⟨⟨loads', hle, hcancel⟩, .retention, some reason, hallowed, rfl⟩

theorem Setting.Lasting.quiet (h : setting.Lasting) {loads loads' : ℕ} (hle : loads ≤ loads')
    (hcancel : setting.cancel loads' = false) : Quiet setting.cancel loads := by
  intro n hn
  by_contra hne
  have := h n loads' (by omega) (by simpa using hne)
  simp [hcancel] at this

/-- A capture that is listed is a directory of the root, not active if it is listed so. -/
theorem listedCapture_entry {c : CaptureKey} (h : listedCapture out request root source = some c) :
    ∃ e ∈ root.entries, e.stat = true ∧ e.node.isDirectory = true ∧
      out.ids.parseSourceId e.name = some source ∧ c.directory = request.root ++ [e.name] ∧
      c.active = captureActive out request source e.node := by
  have hsource : c.sourceId = source := by simpa using find?_some h
  have hmem : c ∈ (reachedCaptures out.ids root).map (captureKey out request) :=
    mem_mergeSort.1 (mem_of_find?_eq_some h)
  obtain ⟨⟨source', e⟩, hreached, rfl⟩ := mem_map.1 hmem
  obtain rfl : source' = source := hsource
  obtain ⟨e', he', hown⟩ := mem_filterMap.1 (mem_of_mem_take hreached)
  obtain ⟨source'', hparse, hpair⟩ := Option.map_eq_some_iff.1 hown
  cases hpair
  obtain ⟨hlisting, husable⟩ := mem_filter.1 he'
  have hentry : e ∈ root.entries := by
    have hmem := mem_of_mem_take hlisting
    unfold Node.listing at hmem
    split at hmem
    · exact hmem
    · cases hmem
  simp only [Dirent.usable, Bool.and_eq_true] at husable
  exact ⟨e, hentry, husable.1.2, husable.2, hparse, rfl, rfl⟩

section
variable (hnames : (root.entries.map Dirent.name).Nodup)
include hnames

theorem find_entry {e : Dirent Node} (he : e ∈ root.entries) :
    root.entries.find? (·.name = e.name) = some e := by
  cases hfind : root.entries.find? (·.name = e.name) with
  | none =>
    have := find?_eq_none.1 hfind e he
    simp at this
  | some e' =>
    have hname : e'.name = e.name := by simpa using find?_some hfind
    rw [inj_on_of_nodup_map hnames (mem_of_find?_eq_some hfind) he hname]

theorem verify_listed {e : Dirent Node} (he : e ∈ root.entries) (hstat : e.stat = true)
    (hdir : e.node.isDirectory = true) (hparse : out.ids.parseSourceId e.name = some source) :
    verifyCapturePath out.ids (statUnder request root) request.root (request.root ++ [e.name]) source =
      .ok () := by
  have hmeta : statUnder request root (request.root ++ [e.name]) = .directory := by
    rw [statUnder, if_pos (prefix_append _ _), drop_left, Node.metadata,
      find_entry hnames he]
    simp only [hstat, if_true]
    cases hnode : e.node with
    | directory listable entries => rfl
    | _ => simp [hnode, Node.isDirectory] at hdir
  simp [verifyCapturePath, hparse, hmeta, verifyDirectory]

/-- What is removed is safe to remove, where the scan looks far enough. -/
theorem safe_of_harmless (h : Harmless out root request source) (hlasting : setting.Lasting)
    {job : Job} (hplan : plan ∈ run setting out root request job)
    (htarget : plan.target = .capture source) : Safe out root request source plan := by
  obtain ⟨⟨loads', hle, hcancel⟩, cause, policy, hallowed, hitems⟩ := act_removed hplan htarget
  obtain ⟨hroot, hinvestigations, hcaptures⟩ :=
    @build_spec setting.cancel out request root (hlasting.quiet hle hcancel)
  obtain ⟨c, hc, hactive, -, hblocks⟩ := OwnershipIndex.planDeleteCapture_allowed.1 hallowed
  have hlisted : listedCapture out request root source = some c.key := by
    rw [← hcaptures source, hc]
    rfl
  constructor
  · intro e he hdepends
    obtain ⟨e', he', hblock⟩ | hnone := h ⟨e, he, hdepends⟩
    · obtain ⟨i, hi, hiblocks⟩ := (hinvestigations source).2 ⟨e', he', hblock⟩
      simp [hblocks i hi] at hiblocks
    · have := hnone _ hlisted
      rw [show c.key.active = c.active from rfl, hactive] at this
      cases this
  · intro e he hpath hwriter
    obtain ⟨e', he', -, -, -, hdirectory, hactive'⟩ := listedCapture_entry hlisted
    rw [hitems, (planDeleteCapture_fields _ _ _ _ _ _ _).2.2.2 c hc] at hpath
    have hname : e'.name = e.name := by
      have : c.directory = request.root ++ [e'.name] := hdirectory
      rw [this] at hpath
      simpa using hpath
    obtain rfl : e' = e := inj_on_of_nodup_map hnames he' he hname
    rw [show c.key.active = c.active from rfl, hactive] at hactive'
    simp [captureActive, hwriter] at hactive'

/-- Where it does not, a capture that an investigation depends on can be deleted. -/
theorem deleted_of_not_harmless (h : ¬ Harmless out root request source) :
    (∃ e ∈ root.investigations, Depends out e.node source) ∧
    ∃ setting job, setting.Lasting ∧ ∃ plan ∈ run setting out root request job,
      plan.target = .capture source := by
  simp only [Harmless, Classical.not_imp, not_or, not_exists, not_and, not_forall] at h
  obtain ⟨⟨e, he, hdepends⟩, hreached, c, hlisted, hactive⟩ := h
  refine ⟨⟨e, he, hdepends⟩, ⟨fun _ => false, fun _ => 0, fun _ => [], fun _ => true, fun _ => 0⟩,
    .delete (.capture source) 0, fun _ _ _ hraised => absurd hraised Bool.false_ne_true, ?_⟩
  have hquiet : Quiet (fun _ => false) (build (fun _ => false) out root request).2 := fun _ _ => rfl
  obtain ⟨hroot, hinvestigations, hcaptures⟩ := build_spec hquiet
  obtain ⟨c', hc', rfl⟩ := Option.map_eq_some_iff.1 ((hcaptures source).trans hlisted)
  obtain ⟨e', he', hstat, hdir, hparse, hdirectory, -⟩ := listedCapture_entry hlisted
  simp only [run, act, OwnershipIndex.replan]
  generalize (build (fun _ => false) out root request).1 = index at *
  have hallowed : (index.planDeleteCapture out.ids (statUnder request root) (fun _ => 0) source
      .userRequested none).allowed = true := by
    refine OwnershipIndex.planDeleteCapture_allowed.2 ⟨c', hc', eq_false_of_ne_true hactive, ?_, ?_⟩
    · rw [hroot, show c'.directory = request.root ++ [e'.name] from hdirectory]
      exact verify_listed hnames he' hstat hdir hparse
    · intro i hi
      by_contra hblocks
      obtain ⟨e'', he'', hblock⟩ := (hinvestigations source).1 ⟨i, hi, by simpa using hblocks⟩
      exact hreached e'' he'' hblock
  obtain ⟨ht, hc, hp, -⟩ := planDeleteCapture_fields index out.ids (statUnder request root)
    (fun _ => 0) source .userRequested none
  have hdigest : (index.planDeleteCapture out.ids (statUnder request root) (fun _ => 0) source
      .userRequested none).digest = 0 := by
    unfold OwnershipIndex.planDeleteCapture
    cases index.capture source <;> rfl
  obtain ⟨record, hrecord⟩ : ∃ record, index.validate out.ids (statUnder request root) (fun _ => 0)
      { index.planDeleteCapture out.ids (statUnder request root) (fun _ => 0) source .userRequested
          none with digest := 0 } "" 0 = .ok record := by
    simp only [OwnershipIndex.validate, OwnershipIndex.replan, ht, hc, hp, hdigest, hallowed]
    exact ⟨_, rfl⟩
  refine ⟨{ index.planDeleteCapture out.ids (statUnder request root) (fun _ => 0) source
    .userRequested none with digest := 0 }, ?_, ht⟩
  rw [execute, hrecord]
  exact mem_singleton_self _

/-- **When no deletion of a capture loses what an investigation depends on.**  Whatever is asked and
whenever it is cancelled, only captures that no investigation depends on, and no writer holds, are
removed, exactly if the scan reaches an investigation that must be taken to depend on the capture
wherever there is one that does, or does not offer the capture. -/
theorem deletes_iff :
    (∀ setting : Setting, setting.Lasting → ∀ job, ∀ plan ∈ run setting out root request job,
      plan.target = .capture source → Safe out root request source plan) ↔
    Harmless out root request source := by
  constructor
  · intro hall
    by_contra h
    obtain ⟨⟨e, he, hdepends⟩, setting, job, hlasting, plan, hplan, htarget⟩ :=
      deleted_of_not_harmless hnames h
    exact (hall setting hlasting job plan hplan htarget).1 e he hdepends
  · intro h setting hlasting job plan hplan htarget
    exact safe_of_harmless hnames h hlasting hplan htarget

end

end Removed

theorem harmless_of_reached {out : Outside} {root : Node} {request : ScanRequest} {source : SourceId}
    (h : ∀ e ∈ root.investigations, e ∈ reachedInvestigations root) :
    Harmless out root request source := by
  rintro ⟨e, he, hdepends⟩
  exact .inl ⟨e, h e he, claimsBlock_of_depends hdepends⟩

/-! ### Two roots -/

/-- The directory of a capture. -/
def exampleName : String := "11111111-1111-1111-1111-111111111111"

/-- A manifest that names the capture. -/
def exampleManifest : List UInt8 :=
  ("\x7b\"sources\":[\x7b\"source_id\":\"" ++ exampleName ++ "\"\x7d]\x7d").toUTF8.toList

/-- What the manifest decodes to, the identity in the capture's name, and no writer. -/
def exampleOutside : Outside where
  ids :=
    { parseUuid := fun name => if name = exampleName then some (.filled 0x11) else none
      format := fun _ => exampleName }
  parseJson := fun bytes =>
    if bytes = exampleManifest then
      .ok (.object [("sources", .array [.object [("source_id", .string exampleName)]])])
    else .error "expected value at line 1 column 1"
  journalBytes := fun _ => 0
  lastModifiedUnixNanos := fun _ => none
  firstRecord := fun _ _ => none
  reservedSequence := fun _ => none
  writerPresent := fun _ => .ok false

/-- A root with a capture and an investigation whose manifest names it; the investigations
directory can be read or not. -/
def exampleRoot (listable : Bool) : Node :=
  .directory true
    [⟨exampleName, true, true, .directory true []⟩,
     ⟨INVESTIGATIONS_DIR, true, true, .directory listable
      [⟨"first", true, true, .directory true
        [⟨MANIFEST_FILE, true, true, .file exampleManifest.length (.ok exampleManifest)⟩]⟩]⟩]

def exampleScan : ScanRequest := ⟨["captures"], [], [], []⟩

/-- Everything can be read: the capture stays. -/
theorem deletes_listed : ((exampleRoot true).entries.map Dirent.name).Nodup ∧
    ∀ setting : Setting, setting.Lasting → ∀ job,
      ∀ plan ∈ run setting exampleOutside (exampleRoot true) exampleScan job,
        plan.target = .capture ⟨.filled 0x11⟩ →
        Safe exampleOutside (exampleRoot true) exampleScan ⟨.filled 0x11⟩ plan := by
  have hnames : ((exampleRoot true).entries.map Dirent.name).Nodup := by
    change [exampleName, INVESTIGATIONS_DIR].Nodup
    decide
  exact ⟨hnames, (deletes_iff hnames).2 (harmless_of_reached fun e he => he)⟩

/-- The investigation depends on the capture. -/
theorem example_depends : Depends exampleOutside (.directory true
    [⟨MANIFEST_FILE, true, true, .file exampleManifest.length (.ok exampleManifest)⟩])
    ⟨.filled 0x11⟩ := by
  have hlength : ¬ MAX_MANIFEST_BYTES < exampleManifest.length := by decide +kernel
  have hparse : exampleOutside.ids.parseSourceId exampleName = some ⟨.filled 0x11⟩ := by
    decide +kernel
  have hread : readJson exampleOutside.parseJson (.directory true
      [⟨MANIFEST_FILE, true, true, .file exampleManifest.length (.ok exampleManifest)⟩])
      MANIFEST_FILE MAX_MANIFEST_BYTES =
        some (.ok (.object [("sources", .array [.object [("source_id", .string exampleName)]])])) := by
    simp [readJson, Node.entries, hlength, exampleOutside]
  rw [Depends, hread]
  exact ⟨_, mem_singleton_self _, .inr hparse⟩

/-- **The investigations directory cannot be read, and the capture that an investigation depends on
is deleted.** -/
theorem unlisted_investigations : ∃ setting job, setting.Lasting ∧
    ∃ plan ∈ run setting exampleOutside (exampleRoot false) exampleScan job,
      plan.target = .capture ⟨.filled 0x11⟩ ∧
      ¬ Safe exampleOutside (exampleRoot false) exampleScan ⟨.filled 0x11⟩ plan := by
  have hnames : ((exampleRoot false).entries.map Dirent.name).Nodup := by
    change [exampleName, INVESTIGATIONS_DIR].Nodup
    decide
  have hcaptures : reachedCaptures exampleOutside.ids (exampleRoot false) =
      [(⟨.filled 0x11⟩, ⟨exampleName, true, true, .directory true []⟩)] := by
    rfl
  have hharm : ¬ Harmless exampleOutside (exampleRoot false) exampleScan ⟨.filled 0x11⟩ := by
    intro h
    obtain ⟨e, he, -⟩ | hnone := h ⟨_, mem_singleton_self _, example_depends⟩
    · cases he
    · have hlisted := hnone (captureKey exampleOutside exampleScan
        (⟨.filled 0x11⟩, ⟨exampleName, true, true, .directory true []⟩)) (by
          rw [listedCapture, listedCaptures, hcaptures, map_singleton, mergeSort_singleton]
          rfl)
      cases hlisted
  obtain ⟨⟨e, he, hdepends⟩, setting, job, hlasting, plan, hplan, htarget⟩ :=
    deleted_of_not_harmless hnames hharm
  exact ⟨setting, job, hlasting, plan, hplan, htarget, fun hsafe => hsafe.1 e he hdepends⟩

end Lvu.Storage
