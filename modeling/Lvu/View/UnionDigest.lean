import Lvu.Machine.Outcome
import Lvu.View.CommitDigest
import Mathlib.Data.List.Dedup

/-!
# The digest of a union candidate

A union candidate is committed under the hash of everything it retains: its definition, the fences
of its inputs, what was frozen of them, and the membership that would be published
(`union_candidate_digest` of `lvu-view/src/union_worker.rs`).  Vectors are written in their order;
only maps and sets are sorted.

Each type has its writer and the lemma that what it writes ends by itself.

* `UnionCandidate` : what is hashed.
* `unionCandidateDigest` : the digest, for the hash of the bytes.
* `UnionCandidate.Same` : the same candidate, up to the order of entries of maps and sets.
* `digest_identifies` : one digest stands for one candidate.
-/

namespace Lvu.View.Digest

open CandidateDigest List

/-! ### Plain values -/

theorem delimited_code {α : Type*} {code : α → UInt8} (hcode : Function.Injective code) :
    Delimited (fun a => tag (code a)) Eq :=
  (delimited_tag.comap code).mono fun _ _ h => hcode h

theorem delimited_uuid : Delimited (fun id : Uuid => bytes id.bytes) Eq := by
  intro id id' x y h
  have hid : id.bytes.length < 2 ^ 64 := by rw [id.length_eq]; decide
  have hid' : id'.bytes.length < 2 ^ 64 := by rw [id'.length_eq]; decide
  obtain ⟨hbytes, hrest⟩ := @delimited_bytes ⟨id.bytes, hid⟩ ⟨id'.bytes, hid'⟩ x y h
  cases id
  cases id'
  cases Subtype.mk.inj hbytes
  exact ⟨rfl, hrest⟩

theorem delimited_sourceId : Delimited (fun source : SourceId => bytes source.uuid.bytes) Eq :=
  (delimited_uuid.comap SourceId.uuid).mono fun a b h => by
    cases a
    cases b
    exact congrArg _ h

/-- The byte of a stream. -/
def streamCode : StreamKind → UInt8
  | .stdout => 0
  | .stderr => 1
  | .file => 2
  | .http => 3
  | .stdin => 4

def hashStream (stream : StreamKind) : List UInt8 := tag (streamCode stream)

theorem delimited_hashStream : Delimited hashStream Eq :=
  delimited_code fun a b h => by cases a <;> cases b <;> first | rfl | exact absurd h (by decide)

/-- The byte of a position in a logical line. -/
def chunkCode : ChunkPosition → UInt8
  | .complete => 0
  | .start => 1
  | .continue => 2
  | .end => 3

def hashChunk (chunk : ChunkPosition) : List UInt8 := tag (chunkCode chunk)

theorem delimited_hashChunk : Delimited hashChunk Eq :=
  delimited_code fun a b h => by cases a <;> cases b <;> first | rfl | exact absurd h (by decide)

/-- The times a view is read by. -/
inductive TimeBasis
  | capture | event | extracted | selected

/-- The byte of a basis. -/
def basisCode : TimeBasis → UInt8
  | .capture => 0
  | .event => 1
  | .extracted => 2
  | .selected => 3

def hashBasis (basis : TimeBasis) : List UInt8 := tag (basisCode basis)

theorem delimited_hashBasis : Delimited hashBasis Eq :=
  delimited_code fun a b h => by cases a <;> cases b <;> first | rfl | exact absurd h (by decide)

def hashOptionalString (value : Option Text) : List UInt8 :=
  encOption (fun value : Text => string value.1) value

theorem delimited_hashOptionalString : Delimited hashOptionalString Eq :=
  delimited_string.option_eq

/-! ### The definition of the union -/

inductive ExactScalar
  | null
  | bool (value : Bool)
  | signedInteger (value : Int64)
  | unsignedInteger (value : UInt64)
  | floatBits (value : UInt64)
  | string (value : Text)
deriving DecidableEq

def hashExactScalar : ExactScalar → List UInt8
  | .null => tag 0
  | .bool value => tag 1 ++ CandidateDigest.bool value
  | .signedInteger value => tag 2 ++ i64 value
  | .unsignedInteger value => tag 3 ++ u64 value
  | .floatBits value => tag 4 ++ u64 value
  | .string value => tag 5 ++ CandidateDigest.string value.1

/-- The byte that tells the kind of a scalar. -/
def ExactScalar.kind : ExactScalar → UInt8
  | .null => 0
  | .bool _ => 1
  | .signedInteger _ => 2
  | .unsignedInteger _ => 3
  | .floatBits _ => 4
  | .string _ => 5

theorem hashExactScalar_kind (a : ExactScalar) : ∃ rest, hashExactScalar a = a.kind :: rest := by
  cases a <;> exact ⟨_, rfl⟩

theorem delimited_hashExactScalar : Delimited hashExactScalar Eq := by
  intro a b x y h
  have hkind : a.kind = b.kind := by
    obtain ⟨rest, ha⟩ := hashExactScalar_kind a
    obtain ⟨rest', hb⟩ := hashExactScalar_kind b
    rw [ha, hb] at h
    exact (List.cons.inj h).1
  cases a <;> cases b <;> (try cases hkind) <;>
    simp only [hashExactScalar, append_assoc] at h <;> obtain ⟨-, h⟩ := delimited_tag h
  · exact ⟨rfl, h⟩
  · obtain ⟨rfl, hrest⟩ := delimited_bool h
    exact ⟨rfl, hrest⟩
  · obtain ⟨rfl, hrest⟩ := delimited_i64 h
    exact ⟨rfl, hrest⟩
  · obtain ⟨rfl, hrest⟩ := delimited_u64 h
    exact ⟨rfl, hrest⟩
  · obtain ⟨rfl, hrest⟩ := delimited_u64 h
    exact ⟨rfl, hrest⟩
  · obtain ⟨hvalue, hrest⟩ := delimited_string h
    exact ⟨congrArg _ hvalue, hrest⟩

@[ext]
structure ExactFieldConstraint where
  field : Text
  value : ExactScalar

/-- A typed key filter. -/
def hashExactKey (exact : ExactFieldConstraint) : List UInt8 :=
  string exact.field.1 ++ hashExactScalar exact.value

theorem delimited_hashExactKey : Delimited hashExactKey Eq := by
  intro a b x y h
  simp only [hashExactKey, append_assoc] at h
  obtain ⟨hfield, h⟩ := delimited_string h
  obtain ⟨hvalue, h⟩ := delimited_hashExactScalar h
  exact ⟨ExactFieldConstraint.ext hfield hvalue, h⟩

/-- The colours of rules. -/
inductive RuleColor
  | red | orange | yellow | green | cyan | blue | purple | magenta

def RuleColor.label : RuleColor → Text
  | .red => ⟨"red", by decide⟩
  | .orange => ⟨"orange", by decide⟩
  | .yellow => ⟨"yellow", by decide⟩
  | .green => ⟨"green", by decide⟩
  | .cyan => ⟨"cyan", by decide⟩
  | .blue => ⟨"blue", by decide⟩
  | .purple => ⟨"purple", by decide⟩
  | .magenta => ⟨"magenta", by decide⟩

theorem RuleColor.label_injective : Function.Injective label := by
  intro a b h
  have hlabel := congrArg Subtype.val h
  cases a <;> cases b <;> first | rfl | exact absurd hlabel (by decide)

@[ext]
structure ColorRule where
  predicate : Text
  color : RuleColor
  column : Option Text
  value : Option Text

/-- One rule of `hash_color_rules`. -/
def hashColorRule (rule : ColorRule) : List UInt8 :=
  string rule.predicate.1 ++ string rule.color.label.1 ++ hashOptionalString rule.column ++
    hashOptionalString rule.value

theorem delimited_hashColorRule : Delimited hashColorRule Eq := by
  intro a b x y h
  simp only [hashColorRule, append_assoc] at h
  obtain ⟨hpredicate, h⟩ := delimited_string h
  obtain ⟨hlabel, h⟩ := delimited_string h
  obtain ⟨hcolumn, h⟩ := delimited_hashOptionalString h
  obtain ⟨hvalue, h⟩ := delimited_hashOptionalString h
  exact ⟨ColorRule.ext hpredicate (RuleColor.label_injective hlabel) hcolumn hvalue, h⟩

def hashColorRules (rules : Vec ColorRule) : List UInt8 := encList hashColorRule rules.1

theorem delimited_hashColorRules : Delimited hashColorRules Eq := delimited_hashColorRule.list_eq

@[ext]
structure UnionFilterSpec where
  search : Text
  advancedPolars : Option Text
  exactKey : Option ExactFieldConstraint
  grouping : Option Text

/-- `UnionCandidateSpec`, without its inputs: they are submitted as the candidate's `fence`. -/
@[ext]
structure UnionCandidateSpec where
  unionViewId : Text
  unionRevision : UInt64
  generation : UInt64
  filter : UnionFilterSpec
  colorRules : Vec ColorRule

def hashUnionFilter (filter : UnionFilterSpec) (colorRules : Vec ColorRule) : List UInt8 :=
  string filter.search.1 ++ hashOptionalString filter.advancedPolars ++
    encOption hashExactKey filter.exactKey ++ hashOptionalString filter.grouping ++
    hashColorRules colorRules

theorem hashUnionFilter_delimited {f f' : UnionFilterSpec} {r r' : Vec ColorRule} {x y : List UInt8}
    (h : hashUnionFilter f r ++ x = hashUnionFilter f' r' ++ y) : f = f' ∧ r = r' ∧ x = y := by
  simp only [hashUnionFilter, append_assoc] at h
  obtain ⟨hsearch, h⟩ := delimited_string h
  obtain ⟨hadvanced, h⟩ := delimited_hashOptionalString h
  obtain ⟨hexact, h⟩ := delimited_hashExactKey.option_eq h
  obtain ⟨hgrouping, h⟩ := delimited_hashOptionalString h
  obtain ⟨hrules, h⟩ := delimited_hashColorRules h
  exact ⟨UnionFilterSpec.ext hsearch hadvanced hexact hgrouping, hrules, h⟩

/-! ### The fences and what was frozen of the inputs -/

@[ext]
structure UnionSourceFence where
  sourceId : Text
  generation : UInt64
  highWatermark : Option UInt64

/-- One fence of a raw source. -/
def hashSourceFence (source : UnionSourceFence) : List UInt8 :=
  string source.sourceId.1 ++ u64 source.generation ++ optionalU64 source.highWatermark

theorem delimited_hashSourceFence : Delimited hashSourceFence Eq := by
  intro a b x y h
  simp only [hashSourceFence, append_assoc] at h
  obtain ⟨hsource, h⟩ := delimited_string h
  obtain ⟨hgeneration, h⟩ := delimited_u64 h
  obtain ⟨hhigh, h⟩ := delimited_optionalU64 h
  exact ⟨UnionSourceFence.ext hsource hgeneration hhigh, h⟩

@[ext]
structure StoredUnionInput where
  viewId : Text
  acceptedRevision : UInt64
  appliedGeneration : UInt64

/-- What publication an input was frozen from. -/
inductive FrozenPublicationKind
  | raw | filtered

/-- The byte of a publication. -/
def publicationCode : FrozenPublicationKind → UInt8
  | .raw => 0
  | .filtered => 1

theorem publicationCode_injective : Function.Injective publicationCode := by
  intro a b h
  cases a <;> cases b <;> first | rfl | exact absurd h (by decide)

/-- Who vouches for a source. -/
inductive FrozenSourceAuthority
  | «local»
  | remote (workerSession : Text)

/-- One authority of a frozen input. -/
def hashAuthority : SourceId × FrozenSourceAuthority → List UInt8
  | (source, .local) => bytes source.uuid.bytes ++ tag 0
  | (source, .remote workerSession) => bytes source.uuid.bytes ++ tag 1 ++ string workerSession.1

theorem delimited_hashAuthority : Delimited hashAuthority Eq := by
  rintro ⟨source, authority⟩ ⟨source', authority'⟩ x y h
  cases authority with
  | «local» =>
    cases authority' with
    | «local» =>
      simp only [hashAuthority, append_assoc] at h
      obtain ⟨hsource, h⟩ := delimited_sourceId h
      obtain ⟨-, h⟩ := delimited_tag h
      exact ⟨by rw [hsource], h⟩
    | remote session' =>
      simp only [hashAuthority, append_assoc] at h
      obtain ⟨-, h⟩ := delimited_sourceId h
      exact absurd (delimited_tag h).1 (by decide)
  | remote session =>
    cases authority' with
    | «local» =>
      simp only [hashAuthority, append_assoc] at h
      obtain ⟨-, h⟩ := delimited_sourceId h
      exact absurd (delimited_tag h).1 (by decide)
    | remote session' =>
      simp only [hashAuthority, append_assoc] at h
      obtain ⟨hsource, h⟩ := delimited_sourceId h
      obtain ⟨-, h⟩ := delimited_tag h
      obtain ⟨hsession, h⟩ := delimited_string h
      exact ⟨by rw [hsource, hsession], h⟩

/-- One source of a frozen input, with its generation and high watermark. -/
def hashSourceMeta (source : SourceId × UInt64 × Option UInt64) : List UInt8 :=
  bytes source.1.uuid.bytes ++ u64 source.2.1 ++ optionalU64 source.2.2

theorem delimited_hashSourceMeta : Delimited hashSourceMeta Eq := by
  rintro ⟨source, generation, high⟩ ⟨source', generation', high'⟩ x y h
  simp only [hashSourceMeta, append_assoc] at h
  obtain ⟨hsource, h⟩ := delimited_sourceId h
  obtain ⟨hgeneration, h⟩ := delimited_u64 h
  obtain ⟨hhigh, h⟩ := delimited_optionalU64 h
  exact ⟨by rw [hsource, hgeneration, hhigh], h⟩

structure FrozenUnionMeta where
  viewId : Text
  appliedRevision : UInt64
  appliedGeneration : UInt64
  kind : FrozenPublicationKind
  registeredSources : Vec SourceId
  sourceAuthorities : Vec (SourceId × FrozenSourceAuthority)
  selectedRecords : Option UInt64
  basis : TimeBasis
  sourceMeta : Vec (SourceId × UInt64 × Option UInt64)
  scannedRecords : UInt64
  acceptedEnrichmentOutputs : Vec Text

/-- The outputs, sorted and without repetitions. -/
def sortOutputs (outputs : List Text) : List Text :=
  (outputs.insertionSort fun left right => left.1 ≤ right.1).dedup

theorem mem_sortOutputs {outputs : List Text} {output : Text} :
    output ∈ sortOutputs outputs ↔ output ∈ outputs := by
  rw [sortOutputs, mem_dedup, mem_insertionSort]

theorem length_sortOutputs (outputs : Vec Text) : (sortOutputs outputs.1).length < 2 ^ 64 := by
  have hle : (sortOutputs outputs.1).length ≤ outputs.1.length := by
    rw [← length_insertionSort (fun left right : Text => left.1 ≤ right.1) outputs.1]
    exact (dedup_sublist _).length_le
  exact hle.trans_lt outputs.2

/-- The outputs of a frozen input. -/
def hashOutputs (outputs : Vec Text) : List UInt8 :=
  encList (fun output : Text => string output.1) (sortOutputs outputs.1)

theorem delimited_hashOutputs :
    Delimited hashOutputs fun a b => ∀ output, output ∈ a.1 ↔ output ∈ b.1 := by
  intro a b x y h
  obtain ⟨hsorted, h⟩ := @Delimited.list_eq _ _ delimited_string
    ⟨sortOutputs a.1, length_sortOutputs a⟩ ⟨sortOutputs b.1, length_sortOutputs b⟩ x y h
  have hsorted : sortOutputs a.1 = sortOutputs b.1 := congrArg Subtype.val hsorted
  refine ⟨fun output => ?_, h⟩
  rw [← mem_sortOutputs, hsorted, mem_sortOutputs]

/-- **The same frozen input**, its outputs as a set. -/
structure FrozenUnionMeta.Same (a b : FrozenUnionMeta) : Prop where
  viewId : a.viewId = b.viewId
  appliedRevision : a.appliedRevision = b.appliedRevision
  appliedGeneration : a.appliedGeneration = b.appliedGeneration
  kind : a.kind = b.kind
  registeredSources : a.registeredSources = b.registeredSources
  sourceAuthorities : a.sourceAuthorities = b.sourceAuthorities
  selectedRecords : a.selectedRecords = b.selectedRecords
  basis : a.basis = b.basis
  sourceMeta : a.sourceMeta = b.sourceMeta
  scannedRecords : a.scannedRecords = b.scannedRecords
  outputs : ∀ output,
    output ∈ a.acceptedEnrichmentOutputs.1 ↔ output ∈ b.acceptedEnrichmentOutputs.1

/-- A submitted input. -/
def hashSubmitted (submitted : StoredUnionInput) : List UInt8 :=
  string submitted.viewId.1 ++ u64 submitted.acceptedRevision ++ u64 submitted.appliedGeneration

theorem delimited_hashSubmitted : Delimited hashSubmitted Eq := by
  intro a b x y h
  simp only [hashSubmitted, append_assoc] at h
  obtain ⟨hview, h⟩ := delimited_string h
  obtain ⟨hrevision, h⟩ := delimited_u64 h
  obtain ⟨hgeneration, h⟩ := delimited_u64 h
  exact ⟨StoredUnionInput.ext hview hrevision hgeneration, h⟩

/-- What was frozen of an input. -/
def hashFrozen (frozen : FrozenUnionMeta) : List UInt8 :=
  string frozen.viewId.1 ++ u64 frozen.appliedRevision ++ u64 frozen.appliedGeneration ++
    tag (publicationCode frozen.kind) ++ optionalU64 frozen.selectedRecords ++
    encList (fun source : SourceId => bytes source.uuid.bytes) frozen.registeredSources.1 ++
    encList hashAuthority frozen.sourceAuthorities.1 ++
    encList hashSourceMeta frozen.sourceMeta.1 ++
    hashOutputs frozen.acceptedEnrichmentOutputs ++ hashBasis frozen.basis ++
    u64 frozen.scannedRecords

theorem delimited_hashFrozen : Delimited hashFrozen FrozenUnionMeta.Same := by
  intro a b x y h
  simp only [hashFrozen, append_assoc] at h
  obtain ⟨hview, h⟩ := delimited_string h
  obtain ⟨hrevision, h⟩ := delimited_u64 h
  obtain ⟨hgeneration, h⟩ := delimited_u64 h
  obtain ⟨hkind, h⟩ := delimited_code publicationCode_injective h
  obtain ⟨hselected, h⟩ := delimited_optionalU64 h
  obtain ⟨hregistered, h⟩ := delimited_sourceId.list_eq h
  obtain ⟨hauthorities, h⟩ := delimited_hashAuthority.list_eq h
  obtain ⟨hmeta, h⟩ := delimited_hashSourceMeta.list_eq h
  obtain ⟨houtputs, h⟩ := delimited_hashOutputs h
  obtain ⟨hbasis, h⟩ := delimited_hashBasis h
  obtain ⟨hscanned, h⟩ := delimited_u64 h
  exact ⟨⟨hview, hrevision, hgeneration, hkind, hregistered, hauthorities, hselected, hbasis, hmeta,
    hscanned, houtputs⟩, h⟩

/-- The submitted inputs, each with what was frozen of it. -/
def hashInputs (fence : Vec StoredUnionInput) (frozen : List FrozenUnionMeta) : List UInt8 :=
  u64 (UInt64.ofNat fence.1.length) ++
    (fence.1.zip frozen).flatMap fun input => hashSubmitted input.1 ++ hashFrozen input.2

/-- **The inputs are told apart**: each submitted input has its frozen one, so the length that is
written pins both lists. -/
theorem hashInputs_delimited {fence fence' : Vec StoredUnionInput}
    {frozen frozen' : List FrozenUnionMeta} {x y : List UInt8}
    (hpaired : fence.1.length = frozen.length) (hpaired' : fence'.1.length = frozen'.length)
    (h : hashInputs fence frozen ++ x = hashInputs fence' frozen' ++ y) :
    fence = fence' ∧ List.Forall₂ FrozenUnionMeta.Same frozen frozen' ∧ x = y := by
  simp only [hashInputs, append_assoc] at h
  obtain ⟨hlength, h⟩ := length_inj fence.2 fence'.2 h
  have hzip : (fence.1.zip frozen).length = (fence'.1.zip frozen').length := by
    simp only [length_zip]
    omega
  have hinput := (delimited_hashSubmitted.comap Prod.fst).append
    (delimited_hashFrozen.comap (Prod.snd (α := StoredUnionInput)))
  obtain ⟨hall, h⟩ := hinput.flatMap hzip h
  have hfence : List.Forall₂ Eq fence.1 fence'.1 := by
    rw [← map_fst_zip hpaired.le, ← map_fst_zip hpaired'.le, List.forall₂_map_left_iff,
      List.forall₂_map_right_iff]
    exact hall.imp fun _ _ hR => hR.1
  have hfrozen : List.Forall₂ FrozenUnionMeta.Same frozen frozen' := by
    rw [← map_snd_zip hpaired.ge, ← map_snd_zip hpaired'.ge, List.forall₂_map_left_iff,
      List.forall₂_map_right_iff]
    exact hall.imp fun _ _ hR => hR.2
  rw [List.forall₂_eq_eq_eq] at hfence
  exact ⟨Subtype.ext hfence, hfrozen, h⟩

/-! ### The decoded rows -/

/-- `BTreeMap`: entries in the order of their keys. -/
abbrev BTreeMap (α : Type) :=
  { entries : Vec (Text × α) // (entries.1.map fun entry => entry.1.1).Pairwise (· < ·) }

/-- The typed cell of a field. -/
def hashField (entry : Text × Cell) : List UInt8 := string entry.1.1 ++ json entry.2.1

/-- The same field with the same typed cell. -/
def SameField (a b : Text × Cell) : Prop := a.1 = b.1 ∧ a.2.1.Same b.2.1

theorem delimited_hashField : Delimited hashField SameField :=
  (delimited_string.comap Prod.fst).append (delimited_json.comap Prod.snd)

/-- The type of a field. -/
def hashFieldType (entry : Text × Text) : List UInt8 := string entry.1.1 ++ string entry.2.1

theorem delimited_hashFieldType : Delimited hashFieldType Eq :=
  ((delimited_string.comap Prod.fst).append (delimited_string.comap Prod.snd)).mono
    fun _ _ h => Prod.ext h.1 h.2

/-- `UnionFrozenRow`, without the text it is shown as. -/
structure UnionFrozenRow where
  recordId : RecordId
  timestampNanos : Option Int64
  fields : BTreeMap Cell
  fieldTypes : BTreeMap Text
  rawBytes : Vec UInt8
  capturedAtUnixNanos : Int64
  stream : StreamKind
  acquisitionId : Uuid
  chunk : ChunkPosition

/-- **The same row**, its cells as JSON. -/
structure UnionFrozenRow.Same (a b : UnionFrozenRow) : Prop where
  recordId : a.recordId = b.recordId
  timestampNanos : a.timestampNanos = b.timestampNanos
  fields : List.Forall₂ SameField a.fields.1.1 b.fields.1.1
  fieldTypes : a.fieldTypes = b.fieldTypes
  rawBytes : a.rawBytes = b.rawBytes
  capturedAtUnixNanos : a.capturedAtUnixNanos = b.capturedAtUnixNanos
  stream : a.stream = b.stream
  acquisitionId : a.acquisitionId = b.acquisitionId
  chunk : a.chunk = b.chunk

/-- A row. -/
def hashRow (row : UnionFrozenRow) : List UInt8 :=
  bytes row.recordId.sourceId.uuid.bytes ++ u64 row.recordId.sequence ++
    optionalI64 row.timestampNanos ++ encList hashField row.fields.1.1 ++
    encList hashFieldType row.fieldTypes.1.1 ++ bytes row.rawBytes.1 ++
    i64 row.capturedAtUnixNanos ++ hashStream row.stream ++ bytes row.acquisitionId.bytes ++
    hashChunk row.chunk

theorem delimited_hashRow : Delimited hashRow UnionFrozenRow.Same := by
  intro a b x y h
  simp only [hashRow, append_assoc] at h
  obtain ⟨hsource, h⟩ := delimited_sourceId h
  obtain ⟨hsequence, h⟩ := delimited_u64 h
  obtain ⟨htimestamp, h⟩ := delimited_optionalI64 h
  obtain ⟨hfields, h⟩ := delimited_hashField.list h
  obtain ⟨htypes, h⟩ := delimited_hashFieldType.list_eq h
  obtain ⟨hraw, h⟩ := delimited_bytes h
  obtain ⟨hcaptured, h⟩ := delimited_i64 h
  obtain ⟨hstream, h⟩ := delimited_hashStream h
  obtain ⟨hacquisition, h⟩ := delimited_uuid h
  obtain ⟨hchunk, h⟩ := delimited_hashChunk h
  have hrecord : a.recordId = b.recordId := RecordId.mk.injEq .. ▸ ⟨hsource, hsequence⟩
  exact ⟨⟨hrecord, htimestamp, hfields, Subtype.ext htypes, hraw, hcaptured, hstream, hacquisition,
    hchunk⟩, h⟩

structure UnionFrozenInput where
  viewId : Text
  appliedRevision : UInt64
  appliedGeneration : UInt64
  timestampColumn : Text
  rows : Vec UnionFrozenRow

/-- **The same decoded input.** -/
structure UnionFrozenInput.Same (a b : UnionFrozenInput) : Prop where
  viewId : a.viewId = b.viewId
  appliedRevision : a.appliedRevision = b.appliedRevision
  appliedGeneration : a.appliedGeneration = b.appliedGeneration
  timestampColumn : a.timestampColumn = b.timestampColumn
  rows : List.Forall₂ UnionFrozenRow.Same a.rows.1 b.rows.1

/-- A decoded input. -/
def hashDecoded (input : UnionFrozenInput) : List UInt8 :=
  string input.viewId.1 ++ u64 input.appliedRevision ++ u64 input.appliedGeneration ++
    string input.timestampColumn.1 ++ encList hashRow input.rows.1

theorem delimited_hashDecoded : Delimited hashDecoded UnionFrozenInput.Same := by
  intro a b x y h
  simp only [hashDecoded, append_assoc] at h
  obtain ⟨hview, h⟩ := delimited_string h
  obtain ⟨hrevision, h⟩ := delimited_u64 h
  obtain ⟨hgeneration, h⟩ := delimited_u64 h
  obtain ⟨hcolumn, h⟩ := delimited_string h
  obtain ⟨hrows, h⟩ := delimited_hashRow.list h
  exact ⟨⟨hview, hrevision, hgeneration, hcolumn, hrows⟩, h⟩

/-! ### The membership -/

/-- `GroupRange`, without the rows it is shown as. -/
@[ext]
structure GroupRange where
  start : UInt64
  len : UInt64
  logicalLines : UInt64
  payloadBytes : UInt64
  stream : StreamKind
  orphan : Bool
  split : Bool
  oversized : Bool
  pending : Bool
  runKey : Option (Vec UInt8)
  configured : Bool
  keyRefused : Bool
  autoOpen : Bool
  autoStructured : Bool
  autoStructureDepth : UInt16
  partialOpen : Bool
  partialTruncated : Bool
  structureTruncated : Bool
  partialPrefix : Vec UInt8
  structurePrefix : Vec UInt8
  acquisitionId : Uuid
  lastChunk : ChunkPosition
  firstCaptureNanos : Int64
  lastCaptureNanos : Int64

/-- The flags of a group, as they are written. -/
def GroupRange.flags (group : GroupRange) : List Bool :=
  [group.orphan, group.split, group.oversized, group.pending, group.configured, group.keyRefused,
    group.autoOpen, group.autoStructured, group.partialOpen, group.partialTruncated,
    group.structureTruncated]

/-- A group. -/
def hashGroup (group : GroupRange) : List UInt8 :=
  u64 group.start ++ u64 group.len ++ u64 group.logicalLines ++ u64 group.payloadBytes ++
    hashStream group.stream ++ group.flags.flatMap bool ++ u64 group.autoStructureDepth.toUInt64 ++
    encOption (fun value : Vec UInt8 => bytes value.1) group.runKey ++
    bytes group.partialPrefix.1 ++ bytes group.structurePrefix.1 ++
    bytes group.acquisitionId.bytes ++ hashChunk group.lastChunk ++
    i64 group.firstCaptureNanos ++ i64 group.lastCaptureNanos

theorem delimited_u16 : Delimited (fun value : UInt16 => u64 value.toUInt64) Eq :=
  (delimited_u64.comap UInt16.toUInt64).mono fun _ _ h => UInt16.toUInt64_inj.1 h

theorem delimited_u32 : Delimited (fun value : UInt32 => u64 value.toUInt64) Eq :=
  (delimited_u64.comap UInt32.toUInt64).mono fun _ _ h => UInt32.toUInt64_inj.1 h

theorem flags_delimited {a b : GroupRange} {x y : List UInt8}
    (h : a.flags.flatMap bool ++ x = b.flags.flatMap bool ++ y) : a.flags = b.flags ∧ x = y := by
  have hlength : a.flags.length = b.flags.length := rfl
  obtain ⟨hall, h⟩ := delimited_bool.flatMap hlength h
  exact ⟨List.forall₂_eq_eq_eq ▸ hall, h⟩

theorem delimited_hashGroup : Delimited hashGroup Eq := by
  intro a b x y h
  simp only [hashGroup, append_assoc] at h
  obtain ⟨hstart, h⟩ := delimited_u64 h
  obtain ⟨hlen, h⟩ := delimited_u64 h
  obtain ⟨hlines, h⟩ := delimited_u64 h
  obtain ⟨hpayload, h⟩ := delimited_u64 h
  obtain ⟨hstream, h⟩ := delimited_hashStream h
  obtain ⟨hflags, h⟩ := flags_delimited h
  obtain ⟨hdepth, h⟩ := delimited_u16 h
  obtain ⟨hkey, h⟩ := delimited_bytes.option_eq h
  obtain ⟨hpart, h⟩ := delimited_bytes h
  obtain ⟨hstructure, h⟩ := delimited_bytes h
  obtain ⟨hacquisition, h⟩ := delimited_uuid h
  obtain ⟨hchunk, h⟩ := delimited_hashChunk h
  obtain ⟨hfirst, h⟩ := delimited_i64 h
  obtain ⟨hlast, h⟩ := delimited_i64 h
  simp only [GroupRange.flags, List.cons.injEq, and_true] at hflags
  obtain ⟨horphan, hsplit, hoversized, hpending, hconfigured, hrefused, hopen, hstructured,
    hopenPart, hcutPart, hstructureTruncated⟩ := hflags
  exact ⟨GroupRange.ext hstart hlen hlines hpayload hstream horphan hsplit hoversized hpending hkey
    hconfigured hrefused hopen hstructured hdepth hopenPart hcutPart hstructureTruncated
    hpart hstructure hacquisition hchunk hfirst hlast, h⟩

@[ext]
structure SourceTimeBounds where
  first : Option Int64
  last : Option Int64
  count : UInt64
  missing : UInt64

@[ext]
structure SourceMatches where
  sourceId : Text
  generation : UInt64
  highWatermark : Option UInt64
  sequences : Vec UInt64
  times : Vec Int64
  groups : Vec GroupRange
  bounds : SourceTimeBounds
  mergeKeys : Vec Int64
  ascending : Bool

/-- The bounds of a source. -/
def hashBounds (bounds : SourceTimeBounds) : List UInt8 :=
  optionalI64 bounds.first ++ optionalI64 bounds.last ++ u64 bounds.count ++ u64 bounds.missing

theorem delimited_hashBounds : Delimited hashBounds Eq := by
  intro a b x y h
  simp only [hashBounds, append_assoc] at h
  obtain ⟨hfirst, h⟩ := delimited_optionalI64 h
  obtain ⟨hlast, h⟩ := delimited_optionalI64 h
  obtain ⟨hcount, h⟩ := delimited_u64 h
  obtain ⟨hmissing, h⟩ := delimited_u64 h
  exact ⟨SourceTimeBounds.ext hfirst hlast hcount hmissing, h⟩

/-- The records, times and groups of one source. -/
def hashMatches (source : SourceMatches) : List UInt8 :=
  string source.sourceId.1 ++ u64 source.generation ++ optionalU64 source.highWatermark ++
    encList u64 source.sequences.1 ++ encList i64 source.times.1 ++
    encList i64 source.mergeKeys.1 ++ bool source.ascending ++ hashBounds source.bounds ++
    encList hashGroup source.groups.1

theorem delimited_hashMatches : Delimited hashMatches Eq := by
  intro a b x y h
  simp only [hashMatches, append_assoc] at h
  obtain ⟨hsource, h⟩ := delimited_string h
  obtain ⟨hgeneration, h⟩ := delimited_u64 h
  obtain ⟨hhigh, h⟩ := delimited_optionalU64 h
  obtain ⟨hsequences, h⟩ := delimited_u64.list_eq h
  obtain ⟨htimes, h⟩ := delimited_i64.list_eq h
  obtain ⟨hkeys, h⟩ := delimited_i64.list_eq h
  obtain ⟨hascending, h⟩ := delimited_bool h
  obtain ⟨hbounds, h⟩ := delimited_hashBounds h
  obtain ⟨hgroups, h⟩ := delimited_hashGroup.list_eq h
  exact ⟨SourceMatches.ext hsource hgeneration hhigh hsequences htimes hgroups hbounds hkeys
    hascending, h⟩

/-- `HashMap`: one entry for each of its keys, in any order. -/
structure HashMap (κ α : Type) where
  entries : Vec (κ × α)
  nodup : (entries.1.map Prod.fst).Nodup

structure HashSet (κ : Type) where
  keys : Vec κ
  nodup : keys.1.Nodup

/-- A cell of a stage: its source, sequence and field. -/
abbrev CellKey := Text × UInt64 × Text

/-- The order of cells. -/
def CellKey.le (left right : CellKey) : Prop :=
  left.1.1 < right.1.1 ∨ left.1 = right.1 ∧
    (left.2.1 < right.2.1 ∨ left.2.1 = right.2.1 ∧ left.2.2.1 ≤ right.2.2.1)

instance : DecidableRel CellKey.le :=
  fun _ _ => inferInstanceAs (Decidable (_ ∨ _ ∧ (_ ∨ _ ∧ _)))

/-- The order of rows. -/
def rowLe (left right : Text × UInt64) : Prop :=
  left.1.1 < right.1.1 ∨ left.1 = right.1 ∧ left.2 ≤ right.2

instance : DecidableRel rowLe := fun _ _ => inferInstanceAs (Decidable (_ ∨ _ ∧ _))

/-- The key of a cell. -/
def hashCellKey (key : CellKey) : List UInt8 :=
  string key.1.1 ++ u64 key.2.1 ++ string key.2.2.1

theorem delimited_hashCellKey : Delimited hashCellKey Eq := by
  rintro ⟨source, sequence, field⟩ ⟨source', sequence', field'⟩ x y h
  simp only [hashCellKey, append_assoc] at h
  obtain ⟨hsource, h⟩ := delimited_string h
  obtain ⟨hsequence, h⟩ := delimited_u64 h
  obtain ⟨hfield, h⟩ := delimited_string h
  exact ⟨by rw [hsource, hsequence, hfield], h⟩

/-- The displayed value of a cell. -/
def hashDerived (entry : CellKey × Option Text) : List UInt8 :=
  hashCellKey entry.1 ++ hashOptionalString entry.2

theorem delimited_hashDerived : Delimited hashDerived Eq :=
  ((delimited_hashCellKey.comap Prod.fst).append (delimited_hashOptionalString.comap Prod.snd)).mono
    fun _ _ h => Prod.ext h.1 h.2

/-- The typed value of a cell. -/
def hashPrecise (entry : CellKey × Cell × Text) : List UInt8 :=
  hashCellKey entry.1 ++ (json entry.2.1.1 ++ string entry.2.2.1)

/-- The same cell with the same typed value. -/
def SamePrecise (a b : CellKey × Cell × Text) : Prop :=
  a.1 = b.1 ∧ a.2.1.1.Same b.2.1.1 ∧ a.2.2 = b.2.2

theorem delimited_hashPrecise : Delimited hashPrecise SamePrecise :=
  (delimited_hashCellKey.comap Prod.fst).append
    ((delimited_json.comap fun entry : CellKey × Cell × Text => entry.2.1).append
      (delimited_string.comap fun entry : CellKey × Cell × Text => entry.2.2))

/-- The rule that paints a row. -/
def hashColorMatch (entry : (Text × UInt64) × UInt16) : List UInt8 :=
  string entry.1.1.1 ++ u64 entry.1.2 ++ u64 entry.2.toUInt64

theorem delimited_hashColorMatch : Delimited hashColorMatch Eq := by
  rintro ⟨⟨source, sequence⟩, rule⟩ ⟨⟨source', sequence'⟩, rule'⟩ x y h
  simp only [hashColorMatch, append_assoc] at h
  obtain ⟨hsource, h⟩ := delimited_string h
  obtain ⟨hsequence, h⟩ := delimited_u64 h
  obtain ⟨hrule, h⟩ := delimited_u16 h
  exact ⟨by rw [hsource, hsequence, hrule], h⟩

/-- A displayed unit: its source and its place there. -/
def hashUnit (unit : UInt32 × UInt32) : List UInt8 := u64 unit.1.toUInt64 ++ u64 unit.2.toUInt64

theorem delimited_hashUnit : Delimited hashUnit Eq :=
  ((delimited_u32.comap Prod.fst).append (delimited_u32.comap Prod.snd)).mono
    fun _ _ h => Prod.ext h.1 h.2

/-- The entries of a map in the order of their keys. -/
def sortEntries {κ α : Type} (le : κ → κ → Prop) [DecidableRel le] (entries : List (κ × α)) :
    List (κ × α) :=
  entries.insertionSort fun left right => le left.1 right.1

/-- `Membership`: of what is not hashed, only whether there is any. -/
structure Membership where
  sources : Vec SourceMatches
  count : UInt64
  bytes : UInt64
  enrichmentNames : Vec Text
  derived : HashMap CellKey (Option Text)
  derivedErrors : HashSet CellKey
  frozenDerived : Option (HashMap CellKey (Cell × Text))
  colorMatches : HashMap (Text × UInt64) UInt16
  colorRules : Vec ColorRule
  advancedPresent : Bool
  enrichmentCount : ℕ
  evaluationBatchCount : ℕ
  evaluationPageBytes : UInt64
  eventTimeMissing : UInt64
  eventTimeInvalid : UInt64
  basis : TimeBasis
  grouped : Bool
  order : Vec (UInt32 × UInt32)
  ranks : Vec (Vec UInt32)
  maxKey : Int64

/-- The maps of `hash_union_membership_extras`. -/
def hashExtras (m : Membership) : List UInt8 :=
  encList hashDerived (sortEntries CellKey.le m.derived.entries.1) ++
    encList hashCellKey (m.derivedErrors.keys.1.insertionSort CellKey.le) ++
    encOption (fun values : HashMap CellKey (Cell × Text) =>
      encList hashPrecise (sortEntries CellKey.le values.entries.1)) m.frozenDerived ++
    hashColorRules m.colorRules ++ tag 0 ++ u64 0 ++ u64 0

def hashUnionMembershipExtras (m : Membership) : Except String (List UInt8) :=
  if m.advancedPresent then
    .error "remote union membership unexpectedly retains an advanced definition"
  else if m.enrichmentCount ≠ 0 then
    .error "remote union membership unexpectedly retains enrichment stages"
  else if m.evaluationBatchCount ≠ 0 then
    .error "remote union membership unexpectedly retains evaluation batches"
  else .ok (hashExtras m)

theorem hashUnionMembershipExtras_ok {m : Membership} {extras : List UInt8}
    (h : hashUnionMembershipExtras m = .ok extras) : m.advancedPresent = false ∧
      m.enrichmentCount = 0 ∧ m.evaluationBatchCount = 0 ∧ extras = hashExtras m := by
  unfold hashUnionMembershipExtras at h
  split_ifs at h with hadvanced henrichment hbatches
  rw [not_not] at henrichment hbatches
  exact ⟨Bool.eq_false_iff.2 hadvanced, henrichment, hbatches, (Except.ok.inj h).symm⟩

/-- **The same membership**: maps and sets have the same entries in any order. -/
structure Membership.Same (a b : Membership) : Prop where
  sources : a.sources = b.sources
  count : a.count = b.count
  bytes : a.bytes = b.bytes
  enrichmentNames : a.enrichmentNames = b.enrichmentNames
  derived : a.derived.entries.1.Perm b.derived.entries.1
  derivedErrors : a.derivedErrors.keys.1.Perm b.derivedErrors.keys.1
  frozenDerived : Option.Rel (fun values values' : HashMap CellKey (Cell × Text) =>
    SameEntries SamePrecise values.entries.1 values'.entries.1) a.frozenDerived b.frozenDerived
  colorMatches : a.colorMatches.entries.1.Perm b.colorMatches.entries.1
  colorRules : a.colorRules = b.colorRules
  advancedPresent : a.advancedPresent = b.advancedPresent
  enrichmentCount : a.enrichmentCount = b.enrichmentCount
  evaluationBatchCount : a.evaluationBatchCount = b.evaluationBatchCount
  evaluationPageBytes : a.evaluationPageBytes = b.evaluationPageBytes
  eventTimeMissing : a.eventTimeMissing = b.eventTimeMissing
  eventTimeInvalid : a.eventTimeInvalid = b.eventTimeInvalid
  basis : a.basis = b.basis
  grouped : a.grouped = b.grouped
  order : a.order = b.order
  ranks : a.ranks = b.ranks
  maxKey : a.maxKey = b.maxKey

theorem delimited_entries {κ α : Type} {enc : κ × α → List UInt8} {R : κ × α → κ × α → Prop}
    (le : κ → κ → Prop) [DecidableRel le] (h : Delimited enc R) :
    Delimited (fun m : HashMap κ α => encList enc (sortEntries le m.entries.1))
      fun m m' => SameEntries R m.entries.1 m'.entries.1 :=
  (h.sorted (sortEntries le) fun _ => perm_insertionSort _ _).comap HashMap.entries

/-- What comes before the extras of a membership. -/
def hashSources (m : Membership) : List UInt8 :=
  u64 m.count ++ u64 m.bytes ++ encList hashMatches m.sources.1 ++
    encList (fun name : Text => string name.1) m.enrichmentNames.1

/-- What comes after the extras of a membership. -/
def hashOrder (m : Membership) : List UInt8 :=
  encList hashColorMatch (sortEntries rowLe m.colorMatches.entries.1) ++ hashBasis m.basis ++
    bool m.grouped ++ encList hashUnit m.order.1 ++
    encList (fun ranks : Vec UInt32 => encList (fun rank : UInt32 => u64 rank.toUInt64) ranks.1)
      m.ranks.1 ++
    i64 m.maxKey ++ u64 m.eventTimeMissing ++ u64 m.eventTimeInvalid ++ u64 m.evaluationPageBytes

/-- **Memberships that are written are told apart.** -/
theorem membership_delimited {a b : Membership} {extras extras' x y : List UInt8}
    (ha : hashUnionMembershipExtras a = .ok extras) (hb : hashUnionMembershipExtras b = .ok extras')
    (h : hashSources a ++ extras ++ hashOrder a ++ x =
      hashSources b ++ extras' ++ hashOrder b ++ y) :
    a.Same b ∧ x = y := by
  obtain ⟨hadvanced, henrichment, hbatches, rfl⟩ := hashUnionMembershipExtras_ok ha
  obtain ⟨hadvanced', henrichment', hbatches', rfl⟩ := hashUnionMembershipExtras_ok hb
  simp only [hashSources, hashExtras, hashOrder, append_assoc] at h
  obtain ⟨hcount, h⟩ := delimited_u64 h
  obtain ⟨hbytes, h⟩ := delimited_u64 h
  obtain ⟨hsources, h⟩ := delimited_hashMatches.list_eq h
  obtain ⟨hnames, h⟩ := delimited_string.list_eq h
  obtain ⟨hderived, h⟩ := delimited_entries CellKey.le delimited_hashDerived h
  obtain ⟨herrors, h⟩ := delimited_hashCellKey.sorted (List.insertionSort CellKey.le)
    (fun _ => perm_insertionSort _ _) h
  obtain ⟨hprecise, h⟩ := (delimited_entries CellKey.le delimited_hashPrecise).option h
  obtain ⟨hrules, h⟩ := delimited_hashColorRules h
  obtain ⟨-, h⟩ := delimited_tag h
  obtain ⟨-, h⟩ := delimited_u64 h
  obtain ⟨-, h⟩ := delimited_u64 h
  obtain ⟨hmatches, h⟩ := delimited_entries rowLe delimited_hashColorMatch h
  obtain ⟨hbasis, h⟩ := delimited_hashBasis h
  obtain ⟨hgrouped, h⟩ := delimited_bool h
  obtain ⟨horder, h⟩ := delimited_hashUnit.list_eq h
  obtain ⟨hranks, h⟩ := delimited_u32.list_eq.list_eq h
  obtain ⟨hmax, h⟩ := delimited_i64 h
  obtain ⟨hmissing, h⟩ := delimited_u64 h
  obtain ⟨hinvalid, h⟩ := delimited_u64 h
  obtain ⟨hpage, h⟩ := delimited_u64 h
  exact ⟨⟨hsources, hcount, hbytes, hnames, sameEntries_eq hderived, sameEntries_eq herrors,
    hprecise, sameEntries_eq hmatches, hrules, hadvanced.trans hadvanced'.symm,
    henrichment.trans henrichment'.symm, hbatches.trans hbatches'.symm, hpage, hmissing, hinvalid,
    hbasis, hgrouped, horder, hranks, hmax⟩, h⟩

/-! ### The candidate -/

/-- The loop of `run_union_job` over its inputs: what is frozen and visited in each turn, or what that
fails with. -/
def freezeInputs (visit : ℕ → StoredUnionInput → Except String FrozenUnionMeta) :
    ℕ → List StoredUnionInput → Except String (List FrozenUnionMeta)
  | _, [] => .ok []
  | turn, input :: inputs =>
    match visit turn input with
    | .error reason => .error reason
    | .ok frozen => (freezeInputs visit (turn + 1) inputs).map (frozen :: ·)

/-- **One input is frozen for each that is submitted.** -/
theorem length_freezeInputs {visit : ℕ → StoredUnionInput → Except String FrozenUnionMeta} {turn : ℕ}
    {inputs : List StoredUnionInput} {frozen : List FrozenUnionMeta}
    (h : freezeInputs visit turn inputs = .ok frozen) : inputs.length = frozen.length := by
  induction inputs generalizing turn frozen with
  | nil =>
    cases h
    rfl
  | cons input inputs ih =>
    rw [freezeInputs] at h
    cases hvisit : visit turn input with
    | error reason =>
      rw [hvisit] at h
      cases h
    | ok first =>
      rw [hvisit] at h
      dsimp only at h
      obtain ⟨rest, hrest, h⟩ := Outcome.bind_eq_ok.1 h
      cases h
      rw [length_cons, length_cons, ih hrest]

/-- What `union_candidate_digest` is given. -/
structure UnionCandidate where
  spec : UnionCandidateSpec
  /-- The generation of the job. -/
  generation : UInt64
  nonce : Text
  rawFences : Vec UnionSourceFence
  fence : Vec StoredUnionInput
  frozenInputs : List FrozenUnionMeta
  decodedInputs : Vec UnionFrozenInput
  membership : Membership
  /-- The job has frozen the inputs that are submitted. -/
  frozen : ∃ visit, freezeInputs visit 0 fence.1 = .ok frozenInputs

theorem UnionCandidate.paired (c : UnionCandidate) : c.fence.1.length = c.frozenInputs.length :=
  length_freezeInputs c.frozen.choose_spec

/-- What is written before the membership. -/
def hashCandidate (c : UnionCandidate) : List UInt8 :=
  string c.spec.unionViewId.1 ++ u64 c.spec.unionRevision ++ u64 c.spec.generation ++
    u64 c.generation ++ string c.nonce.1 ++ encList hashSourceFence c.rawFences.1 ++
    hashInputs c.fence c.frozenInputs ++ hashUnionFilter c.spec.filter c.spec.colorRules ++
    encList hashDecoded c.decodedInputs.1

/-- `union_candidate_digest`, where `sha256` hashes a byte string. -/
def unionCandidateDigest {δ : Type*} (sha256 : List UInt8 → δ) (c : UnionCandidate) :
    Except String δ :=
  (hashUnionMembershipExtras c.membership).map fun extras =>
    sha256 (domain ++ hashCandidate c ++ (hashSources c.membership ++ extras ++
      hashOrder c.membership))

/-- **The same candidate.** -/
structure UnionCandidate.Same (a b : UnionCandidate) : Prop where
  spec : a.spec = b.spec
  generation : a.generation = b.generation
  nonce : a.nonce = b.nonce
  rawFences : a.rawFences = b.rawFences
  fence : a.fence = b.fence
  frozenInputs : List.Forall₂ FrozenUnionMeta.Same a.frozenInputs b.frozenInputs
  decodedInputs : List.Forall₂ UnionFrozenInput.Same a.decodedInputs.1 b.decodedInputs.1
  membership : a.membership.Same b.membership

theorem unionCandidateDigest_ok {δ : Type*} {sha256 : List UInt8 → δ} {c : UnionCandidate} {d : δ}
    (h : unionCandidateDigest sha256 c = .ok d) :
    ∃ extras, hashUnionMembershipExtras c.membership = .ok extras ∧
      d = sha256 (domain ++ hashCandidate c ++ (hashSources c.membership ++ extras ++
        hashOrder c.membership)) := by
  unfold unionCandidateDigest at h
  cases hextras : hashUnionMembershipExtras c.membership with
  | error message =>
    rw [hextras] at h
    cases h
  | ok extras =>
    rw [hextras] at h
    exact ⟨extras, rfl, (Except.ok.inj h).symm⟩

/-- **One digest stands for one candidate**: with a hash that tells byte strings apart, two
candidates with one digest are the same, up to the order of entries of maps and sets. -/
theorem digest_identifies {δ : Type*} {sha256 : List UInt8 → δ} (hsha : Function.Injective sha256)
    {a b : UnionCandidate} {d : δ} (ha : unionCandidateDigest sha256 a = .ok d)
    (hb : unionCandidateDigest sha256 b = .ok d) : a.Same b := by
  obtain ⟨extras, hextras, rfl⟩ := unionCandidateDigest_ok ha
  obtain ⟨extras', hextras', hdigest⟩ := unionCandidateDigest_ok hb
  have h := hsha hdigest
  simp only [hashCandidate, append_assoc] at h
  have h := append_cancel_left h
  obtain ⟨hview, h⟩ := delimited_string h
  obtain ⟨hrevision, h⟩ := delimited_u64 h
  obtain ⟨hspecGeneration, h⟩ := delimited_u64 h
  obtain ⟨hgeneration, h⟩ := delimited_u64 h
  obtain ⟨hnonce, h⟩ := delimited_string h
  obtain ⟨hfences, h⟩ := delimited_hashSourceFence.list_eq h
  obtain ⟨hfence, hfrozen, h⟩ := hashInputs_delimited a.paired b.paired h
  obtain ⟨hfilter, hrules, h⟩ := hashUnionFilter_delimited h
  obtain ⟨hdecoded, h⟩ := delimited_hashDecoded.list h
  have h : hashSources a.membership ++ extras ++ hashOrder a.membership ++ [] =
      hashSources b.membership ++ extras' ++ hashOrder b.membership ++ [] := by
    simpa only [append_assoc, append_nil] using h
  obtain ⟨hmembership, -⟩ := membership_delimited hextras hextras' h
  exact ⟨UnionCandidateSpec.ext hview hrevision hspecGeneration hfilter hrules, hgeneration, hnonce,
    hfences, hfence, hfrozen, hdecoded, hmembership⟩

/-- What is frozen of one input, with its accepted outputs. -/
def exampleMeta (outputs : Vec Text) : FrozenUnionMeta where
  viewId := ⟨"app", by decide⟩
  appliedRevision := 1
  appliedGeneration := 1
  kind := .raw
  registeredSources := ⟨[⟨.filled 1⟩], by decide⟩
  sourceAuthorities := ⟨[], by decide⟩
  selectedRecords := none
  basis := .capture
  sourceMeta := ⟨[(⟨.filled 1⟩, 1, none)], by decide⟩
  scannedRecords := 2
  acceptedEnrichmentOutputs := outputs

/-- A record of it. -/
def exampleRow : UnionFrozenRow where
  recordId := ⟨⟨.filled 1⟩, 1⟩
  timestampNanos := some 5
  fields := ⟨⟨[], by decide⟩, .nil⟩
  fieldTypes := ⟨⟨[], by decide⟩, .nil⟩
  rawBytes := ⟨[104], by decide⟩
  capturedAtUnixNanos := 5
  stream := .file
  acquisitionId := .filled 2
  chunk := .complete

/-- A candidate of one input, with the displayed values `derived`. -/
def displayCandidate (outputs : Vec Text) (derived : HashMap CellKey (Option Text)) :
    UnionCandidate where
  spec :=
    { unionViewId := ⟨"all", by decide⟩
      unionRevision := 1
      generation := 2
      filter := ⟨⟨"", by decide⟩, none, none, none⟩
      colorRules := ⟨[], by decide⟩ }
  generation := 3
  nonce := ⟨"7-3-0", by decide⟩
  rawFences := ⟨[], by decide⟩
  fence := ⟨[⟨⟨"app", by decide⟩, 1, 1⟩], by decide⟩
  frozenInputs := [exampleMeta outputs]
  decodedInputs :=
    ⟨[⟨⟨"app", by decide⟩, 1, 1, ⟨"", by decide⟩, ⟨[exampleRow], by decide⟩⟩], by decide⟩
  membership :=
    { sources := ⟨[], by decide⟩
      count := 2
      bytes := 0
      enrichmentNames := ⟨[⟨"status", by decide⟩], by decide⟩
      derived
      derivedErrors := ⟨⟨[], by decide⟩, nodup_nil⟩
      frozenDerived := none
      colorMatches := ⟨⟨[], by decide⟩, nodup_nil⟩
      colorRules := ⟨[], by decide⟩
      advancedPresent := false
      enrichmentCount := 0
      evaluationBatchCount := 0
      evaluationPageBytes := 0
      eventTimeMissing := 0
      eventTimeInvalid := 0
      basis := .capture
      grouped := false
      order := ⟨[], by decide⟩
      ranks := ⟨[], by decide⟩
      maxKey := 0 }
  frozen := ⟨fun _ _ => .ok (exampleMeta outputs), rfl⟩

/-- The status of the record `sequence`. -/
def statusCell (sequence : UInt64) (value : Option Text) : CellKey × Option Text :=
  ((⟨"app", by decide⟩, sequence, ⟨"status", by decide⟩), value)

/-- The statuses of two records, the first one first. -/
def statuses : HashMap CellKey (Option Text) where
  entries := ⟨[statusCell 1 none, statusCell 2 (some ⟨"ok", by decide⟩)], by decide⟩
  nodup := by decide

/-- The same statuses, the second one first. -/
def statusesSwapped : HashMap CellKey (Option Text) where
  entries := ⟨[statusCell 2 (some ⟨"ok", by decide⟩), statusCell 1 none], by decide⟩
  nodup := by decide

/-- The accepted outputs of the input. -/
def outputs : Vec Text := ⟨[⟨"level", by decide⟩, ⟨"status", by decide⟩], by decide⟩

/-- The same outputs, the second one first. -/
def outputsSwapped : Vec Text := ⟨[⟨"status", by decide⟩, ⟨"level", by decide⟩], by decide⟩

theorem digest_identifies_statuses :
    (displayCandidate outputs statuses).Same (displayCandidate outputsSwapped statusesSwapped) := by
  have hsort : sortEntries CellKey.le statuses.entries.1 =
      sortEntries CellKey.le statusesSwapped.entries.1 := by decide +kernel
  refine digest_identifies Function.injective_id rfl ?_
  simp only [unionCandidateDigest, hashUnionMembershipExtras, hashExtras, displayCandidate, hsort]
  rfl

end Lvu.View.Digest
