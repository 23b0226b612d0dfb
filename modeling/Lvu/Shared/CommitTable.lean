import Lvu.Core.Journal
import Lvu.Data.Dict

/-!
# The commit table of remote unions

A window asks the worker to commit a union it has computed; the worker admits the attempt,
verifies its frozen fences outside the table's lock, and settles it
(`lvu-shared/src/union_commit.rs`).  Each call is one critical section, so it is one step here.

* `verifyRawFence_ok` : fences verify exactly when they are the same as a map.
* `serve_cases` : what any call can do to the table.
-/

namespace Lvu.Commit

structure UnionSourceFence where
  sourceId : String
  generation : UInt64
  highWatermark : Option UInt64
deriving DecidableEq

def maxCommitSources : ℕ := 16

def maxReceiptsPerWindow : ℕ := 128

def maxCommitWindows : ℕ := 16

def maxNonceBytes : ℕ := 128

def maxWindowIdBytes : ℕ := 128

def maxCommitViewIdBytes : ℕ := 256

abbrev CommitDigest := Vector UInt8 32

def sessionResetReason : String := "worker session reset"

def epochExhaustedReason : String := "commit epoch exhausted"

structure CommitRequest where
  windowId : String
  unionViewId : String
  candidateGeneration : UInt64
  nonce : String
  digest : CommitDigest
  frozen : List UnionSourceFence
deriving DecidableEq

inductive CommitOutcome
  | pending
  | committed (current : List UnionSourceFence)
  | stale (detail : String)
  | refused (reason : String)
  | superseded
  | nonceConflict
deriving DecidableEq

inductive CommitAdmission
  | verify (attemptEpoch : UInt64)
  | answer (outcome : CommitOutcome)
deriving DecidableEq

inductive StatusAnswer
  | unknown
  | pending
  | settled (outcome : CommitOutcome)
deriving DecidableEq

inductive SlotOutcome
  | pending
  | settled (outcome : CommitOutcome)
deriving DecidableEq

structure UnionSlot where
  highestGeneration : UInt64
  nonce : String
  digest : CommitDigest
  frozen : List UnionSourceFence
  outcome : SlotOutcome
  attemptEpoch : UInt64

structure TableState where
  retired : Bool
  nextEpoch : UInt64
  windows : Dict String (Dict String UnionSlot)

namespace TableState

/-- `TableState::default`. -/
def new : TableState := ⟨false, 0, ∅⟩

/-- `TableState::alloc_epoch`: the next epoch, if there is one. -/
def allocEpoch (t : TableState) : Option UInt64 := checkedAdd t.nextEpoch 1

/-- The slots of a window, none if it holds none. -/
def unions (t : TableState) (windowId : String) : Dict String UnionSlot :=
  (t.windows.lookup windowId).getD ∅

/-- The slot of a union of a window. -/
def slot (t : TableState) (windowId unionViewId : String) : Option UnionSlot :=
  (t.unions windowId).lookup unionViewId

/-- `state.windows.entry(..).or_default()`. -/
def entry (t : TableState) (windowId : String) : TableState :=
  if windowId ∈ t.windows then t else { t with windows := t.windows.insert windowId ∅ }

/-- A slot written. -/
def put (t : TableState) (windowId unionViewId : String) (slot : UnionSlot) : TableState :=
  { t with windows := t.windows.insert windowId ((t.unions windowId).insert unionViewId slot) }

end TableState

/-- `check_request_bounds`.  Lengths are those of the UTF-8 encodings. -/
def checkRequestBounds (r : CommitRequest) : Except String Unit :=
  if r.windowId = "" then .error "window id empty"
  else if r.windowId.utf8ByteSize > maxWindowIdBytes then .error "window id oversize"
  else if r.unionViewId.utf8ByteSize > maxCommitViewIdBytes then .error "union view id oversize"
  else if r.nonce.utf8ByteSize > maxNonceBytes then .error "nonce oversize"
  else if r.frozen = [] then .error "no remote raw sources"
  else if r.frozen.length > maxCommitSources then .error "source fence set oversize"
  else if ¬ (r.frozen.map (·.sourceId)).IsChain (· < ·) then
    .error "fences must be sorted by source with no duplicates"
  else .ok ()

def sameAttempt (slot : UnionSlot) (r : CommitRequest) : Bool :=
  slot.nonce = r.nonce ∧ slot.digest = r.digest ∧ slot.frozen = r.frozen

/-- The loop of `verify_raw_fence`: the first fence that has moved. -/
def movedFence (current : List UnionSourceFence) : List UnionSourceFence → Option String
  | [] => none
  | fence :: frozen =>
    match current.find? (·.sourceId = fence.sourceId) with
    | none => some s!"source {fence.sourceId} is no longer published"
    | some e =>
      if e.generation ≠ fence.generation then
        some s!"source {fence.sourceId} restarted during the merge"
      else if e.highWatermark ≠ fence.highWatermark then
        some s!"source {fence.sourceId} advanced during the merge"
      else movedFence current frozen

def verifyRawFence (frozen current : List UnionSourceFence) : Except String Unit :=
  match movedFence current frozen with
  | some detail => .error detail
  | none =>
    if current.length ≠ frozen.length then .error "input source set changed during the merge"
    else .ok ()

/-- The second half of `CommitTable::commit`: a fresh epoch for the attempt, or the end of the
table.  A newer attempt takes the place of the slot there is, field by field. -/
def admitAttempt (t : TableState) (r : CommitRequest) : CommitAdmission × TableState :=
  match t.allocEpoch with
  | none => (.answer (.refused epochExhaustedReason), { t with retired := true })
  | some epoch =>
    (.verify epoch, { t with nextEpoch := epoch }.put r.windowId r.unionViewId
      { highestGeneration := r.candidateGeneration, nonce := r.nonce, digest := r.digest
        frozen := r.frozen, outcome := .pending, attemptEpoch := epoch })

/-- What a slot answers to a request that is not newer than it. -/
def SlotOutcome.answer : SlotOutcome → CommitOutcome
  | .pending => .pending
  | .settled outcome => outcome

/-- `CommitTable::commit`. -/
def commit (t : TableState) (r : CommitRequest) : CommitAdmission × TableState :=
  match checkRequestBounds r with
  | .error reason => (.answer (.refused reason), t)
  | .ok () =>
    if t.retired then (.answer (.refused sessionResetReason), t)
    else if r.windowId ∉ t.windows ∧ t.windows.size ≥ maxCommitWindows then
      (.answer (.refused "window table full"), t)
    else
      let t := t.entry r.windowId
      match t.slot r.windowId r.unionViewId with
      | none =>
        if (t.unions r.windowId).size ≥ maxReceiptsPerWindow then
          (.answer (.refused "union table full"), t)
        else admitAttempt t r
      | some slot =>
        if r.candidateGeneration < slot.highestGeneration then (.answer .superseded, t)
        else if r.candidateGeneration = slot.highestGeneration then
          if sameAttempt slot r then (.answer slot.outcome.answer, t)
          else (.answer .nonceConflict, t)
        else if r.nonce = slot.nonce then (.answer .nonceConflict, t)
        else admitAttempt t r

/-- The verdict of a settlement. -/
def verdict (frozen current : List UnionSourceFence) : CommitOutcome :=
  match verifyRawFence frozen current with
  | .ok () => .committed current
  | .error detail => .stale detail

/-- `CommitTable::settle`. -/
def settle (t : TableState) (windowId unionViewId : String) (attemptEpoch : UInt64)
    (r : CommitRequest) (current : List UnionSourceFence) : CommitOutcome × TableState :=
  if t.retired then (.refused sessionResetReason, t)
  else match t.slot windowId unionViewId with
    | none => (.superseded, t)
    | some slot =>
      if slot.attemptEpoch ≠ attemptEpoch ∨ !sameAttempt slot r then (.superseded, t)
      else match slot.outcome with
        | .settled outcome => (outcome, t)
        | .pending =>
          let outcome := verdict slot.frozen current
          (outcome, t.put windowId unionViewId { slot with outcome := .settled outcome })

/-- `CommitTable::status`. -/
def status (t : TableState) (windowId unionViewId : String) (candidateGeneration : UInt64)
    (nonce : String) (digest : CommitDigest) : StatusAnswer :=
  if t.retired then .unknown
  else match t.slot windowId unionViewId with
    | none => .unknown
    | some slot =>
      if candidateGeneration < slot.highestGeneration then .settled .superseded
      else if candidateGeneration > slot.highestGeneration then .unknown
      else if slot.nonce ≠ nonce ∨ slot.digest ≠ digest then .settled .nonceConflict
      else match slot.outcome with
        | .pending => .pending
        | .settled outcome => .settled outcome

/-- `CommitTable::detach_window`. -/
def detachWindow (t : TableState) (windowId : String) : Bool × TableState :=
  (windowId ∈ t.windows, { t with windows := t.windows.erase windowId })

/-- `CommitTable::retire`. -/
def retire (t : TableState) : TableState := { t with retired := true }

/-- A call on the table. -/
inductive Call
  | commit (r : CommitRequest)
  | settle (windowId unionViewId : String) (attemptEpoch : UInt64) (r : CommitRequest)
      (current : List UnionSourceFence)
  | status (windowId unionViewId : String) (candidateGeneration : UInt64) (nonce : String)
      (digest : CommitDigest)
  | detachWindow (windowId : String)
  | retire
deriving DecidableEq

/-- What a call returns. -/
inductive Answer
  | admission (admission : CommitAdmission)
  | outcome (outcome : CommitOutcome)
  | status (answer : StatusAnswer)
  | held (held : Bool)
  | done
deriving DecidableEq

/-- One call. -/
def serve (t : TableState) : Call → Answer × TableState
  | .commit r => ((commit t r).map .admission id)
  | .settle windowId unionViewId attemptEpoch r current =>
    (settle t windowId unionViewId attemptEpoch r current).map .outcome id
  | .status windowId unionViewId candidateGeneration nonce digest =>
    (.status (status t windowId unionViewId candidateGeneration nonce digest), t)
  | .detachWindow windowId => (detachWindow t windowId).map .held id
  | .retire => (.done, retire t)

/-! ### Fences -/

theorem movedFence_none {frozen current : List UnionSourceFence} :
    movedFence current frozen = none ↔
      ∀ fence ∈ frozen, current.find? (·.sourceId = fence.sourceId) = some fence := by
  induction frozen with
  | nil => simp [movedFence]
  | cons fence frozen ih =>
    rw [movedFence, List.forall_mem_cons, ← ih]
    cases hfind : current.find? (·.sourceId = fence.sourceId) with
    | none => simp
    | some e =>
      have hid : e.sourceId = fence.sourceId := by simpa using List.find?_some hfind
      have heq : e = fence ↔ e.generation = fence.generation ∧ e.highWatermark = fence.highWatermark := by
        obtain ⟨_, _, _⟩ := e
        obtain ⟨_, _, _⟩ := fence
        simp_all
      simp only [Option.some.injEq, heq]
      split_ifs with hgen hmark <;> tauto

/-- **Fences verify exactly when they are the same map** from sources to generations and
watermarks. -/
theorem verifyRawFence_ok {frozen current : List UnionSourceFence}
    (h : (frozen.map (·.sourceId)).Nodup) :
    verifyRawFence frozen current = .ok () ↔ current.Perm frozen := by
  have hok : verifyRawFence frozen current = .ok () ↔
      movedFence current frozen = none ∧ current.length = frozen.length := by
    unfold verifyRawFence
    cases movedFence current frozen <;> simp
  rw [hok, movedFence_none]
  constructor
  · rintro ⟨hfind, hlen⟩
    have hsub : frozen ⊆ current := fun fence hf => List.mem_of_find?_eq_some (hfind fence hf)
    exact ((List.subperm_of_subset (List.Nodup.of_map _ h) hsub).perm_of_length_le hlen.le).symm
  · intro hperm
    have hnodup : (current.map (·.sourceId)).Nodup := (hperm.map _).nodup_iff.2 h
    refine ⟨fun fence hf => ?_, hperm.length_eq⟩
    -- the only fence of its source is the one found
    obtain ⟨e, he⟩ : ∃ e, current.find? (·.sourceId = fence.sourceId) = some e := by
      rw [← Option.isSome_iff_exists, List.find?_isSome]
      exact ⟨fence, hperm.mem_iff.2 hf, by simp⟩
    have hid : e.sourceId = fence.sourceId := by simpa using List.find?_some he
    rw [he, List.inj_on_of_nodup_map hnodup (List.mem_of_find?_eq_some he) (hperm.mem_iff.2 hf) hid]

theorem nodup_of_checkRequestBounds {r : CommitRequest} (h : checkRequestBounds r = .ok ()) :
    (r.frozen.map (·.sourceId)).Nodup ∧ r.frozen.length ≤ maxCommitSources := by
  unfold checkRequestBounds at h
  split_ifs at h with h1 h2 h3 h4 h5 h6 h7
  refine ⟨(List.isChain_iff_pairwise.1 h7).imp fun hlt heq => ?_, Nat.not_lt.1 h6⟩
  exact String.lt_irrefl _ (heq ▸ hlt)

/-! ### Slots -/

namespace TableState

variable (t : TableState) (w w' u u' : String)

theorem unions_entry : (t.entry w).unions w' = t.unions w' := by
  unfold entry unions
  split_ifs with h
  · rfl
  · by_cases hw : w' = w
    · rw [hw, AList.lookup_insert, AList.lookup_eq_none.2 h]
      rfl
    · rw [AList.lookup_insert_ne hw]

theorem slot_entry : (t.entry w).slot w' u = t.slot w' u := by
  rw [slot, slot, unions_entry]

theorem slot_put (s : UnionSlot) :
    (t.put w u s).slot w' u' = if w' = w ∧ u' = u then some s else t.slot w' u' := by
  unfold put slot unions
  by_cases hw : w' = w
  · obtain rfl := hw
    simp only [AList.lookup_insert, Option.getD_some, true_and, Dict.lookup_insert_eq]
  · simp only [hw, false_and, if_false, AList.lookup_insert_ne hw]

theorem slot_detach : (detachWindow t w).2.slot w' u = if w' = w then none else t.slot w' u := by
  unfold detachWindow slot unions
  by_cases hw : w' = w
  · obtain rfl := hw
    simp only [AList.lookup_erase, Option.getD_none, AList.lookup_empty, if_true]
  · simp only [hw, if_false, AList.lookup_erase_ne hw]

end TableState

/-! ### What a call does -/

/-- The table admits an attempt. -/
structure Admits (t : TableState) (r : CommitRequest) : Prop where
  bounds : checkRequestBounds r = .ok ()
  serving : t.retired = false
  room : r.windowId ∈ t.windows ∨ t.windows.size < maxCommitWindows
  newer : ∀ slot ∈ t.slot r.windowId r.unionViewId,
    slot.highestGeneration < r.candidateGeneration ∧ r.nonce ≠ slot.nonce
  place : t.slot r.windowId r.unionViewId = none →
    (t.unions r.windowId).size < maxReceiptsPerWindow

/-- The slot of an attempt just admitted. -/
def CommitRequest.slot (r : CommitRequest) (epoch : UInt64) : UnionSlot :=
  { highestGeneration := r.candidateGeneration, nonce := r.nonce, digest := r.digest
    frozen := r.frozen, outcome := .pending, attemptEpoch := epoch }

/-- The table with an attempt admitted. -/
def TableState.admitted (t : TableState) (r : CommitRequest) (epoch : UInt64) : TableState :=
  { t.entry r.windowId with nextEpoch := epoch }.put r.windowId r.unionViewId (r.slot epoch)

/-- A commit admits the attempt, or ends the table, or changes nothing. -/
theorem commit_cases (t : TableState) (r : CommitRequest) :
    (∃ outcome, commit t r = (.answer outcome, t)) ∨
    (∃ epoch, Admits t r ∧ t.allocEpoch = some epoch ∧
      commit t r = (.verify epoch, t.admitted r epoch)) ∨
    (Admits t r ∧ t.allocEpoch = none ∧ commit t r =
      (.answer (.refused epochExhaustedReason), { t.entry r.windowId with retired := true })) := by
  have hadmits : Admits t r → commit t r = admitAttempt (t.entry r.windowId) r →
      (∃ epoch, Admits t r ∧ t.allocEpoch = some epoch ∧
        commit t r = (.verify epoch, t.admitted r epoch)) ∨
      (Admits t r ∧ t.allocEpoch = none ∧ commit t r =
        (.answer (.refused epochExhaustedReason), { t.entry r.windowId with retired := true })) := by
    intro ha heq
    have hepoch : (t.entry r.windowId).allocEpoch = t.allocEpoch := by
      unfold TableState.entry
      split_ifs <;> rfl
    rw [heq, admitAttempt, hepoch]
    cases halloc : t.allocEpoch with
    | none => exact .inr ⟨ha, rfl, rfl⟩
    | some epoch => exact .inl ⟨epoch, ha, rfl, rfl⟩
  -- a window of which anything is held has its entry
  have hentry : t.unions r.windowId ≠ ∅ → t.entry r.windowId = t := by
    intro hne
    by_cases hw : r.windowId ∈ t.windows
    · exact if_pos hw
    · exact absurd (by rw [TableState.unions, AList.lookup_eq_none.2 hw]; rfl) hne
  unfold commit at hadmits ⊢
  cases hb : checkRequestBounds r with
  | error reason => exact .inl ⟨_, rfl⟩
  | ok u =>
    simp only [hb, TableState.slot_entry, TableState.unions_entry] at hadmits ⊢
    by_cases hretired : t.retired = true
    · exact .inl ⟨_, if_pos hretired⟩
    rw [if_neg hretired] at hadmits ⊢
    by_cases hfull : r.windowId ∉ t.windows ∧ t.windows.size ≥ maxCommitWindows
    · exact .inl ⟨_, if_pos hfull⟩
    rw [if_neg hfull] at hadmits ⊢
    have hroom : r.windowId ∈ t.windows ∨ t.windows.size < maxCommitWindows := by
      by_contra hno
      rw [not_or, Nat.not_lt] at hno
      exact hfull hno
    have hserving : t.retired = false := by simpa using hretired
    cases hslot : t.slot r.windowId r.unionViewId with
    | none =>
      simp only [hslot] at hadmits ⊢
      by_cases hplace : (t.unions r.windowId).size ≥ maxReceiptsPerWindow
      · have hsame : t.entry r.windowId = t := hentry fun hempty => by
          rw [hempty] at hplace
          exact absurd hplace (by decide)
        exact .inl ⟨.refused "union table full", by rw [if_pos hplace, hsame]⟩
      · rw [if_neg hplace] at hadmits ⊢
        exact .inr (hadmits ⟨hb, hserving, hroom, by simp [hslot], fun _ => Nat.not_le.1 hplace⟩ rfl)
    | some slot =>
      have hsame : t.entry r.windowId = t := hentry fun hempty => by
        rw [TableState.slot, hempty] at hslot
        exact absurd hslot (by simp)
      simp only [hslot, hsame] at hadmits ⊢
      by_cases hold : r.candidateGeneration < slot.highestGeneration
      · exact .inl ⟨_, if_pos hold⟩
      rw [if_neg hold] at hadmits ⊢
      by_cases heq : r.candidateGeneration = slot.highestGeneration
      · by_cases hattempt : sameAttempt slot r = true
        · exact .inl ⟨_, (if_pos heq).trans (if_pos hattempt)⟩
        · exact .inl ⟨_, (if_pos heq).trans (if_neg hattempt)⟩
      rw [if_neg heq] at hadmits ⊢
      by_cases hnonce : r.nonce = slot.nonce
      · exact .inl ⟨_, if_pos hnonce⟩
      rw [if_neg hnonce] at hadmits ⊢
      refine .inr (hadmits ⟨hb, hserving, hroom, ?_, by simp [hslot]⟩ rfl)
      intro s hs
      obtain rfl : slot = s := by simpa [hslot] using hs
      refine ⟨?_, hnonce⟩
      have hne : slot.highestGeneration ≠ r.candidateGeneration := fun h => heq h.symm
      exact UInt64.lt_of_le_of_ne (UInt64.not_lt.1 hold) hne

/-- A settlement decides a pending slot of this very attempt, or changes nothing. -/
theorem settle_cases (t : TableState) (w u : String) (epoch : UInt64) (r : CommitRequest)
    (current : List UnionSourceFence) :
    (∃ outcome, settle t w u epoch r current = (outcome, t)) ∨
    ∃ slot, t.slot w u = some slot ∧ slot.outcome = .pending ∧ slot.attemptEpoch = epoch ∧
      sameAttempt slot r = true ∧ t.retired = false ∧
      settle t w u epoch r current = (verdict slot.frozen current,
        t.put w u { slot with outcome := .settled (verdict slot.frozen current) }) := by
  unfold settle
  by_cases hretired : t.retired = true
  · exact .inl ⟨_, if_pos hretired⟩
  rw [if_neg hretired]
  cases hslot : t.slot w u with
  | none => exact .inl ⟨_, rfl⟩
  | some slot =>
    by_cases hmine : slot.attemptEpoch ≠ epoch ∨ !sameAttempt slot r
    · exact .inl ⟨_, if_pos hmine⟩
    simp only [hmine, if_false]
    cases hout : slot.outcome with
    | settled outcome => exact .inl ⟨_, rfl⟩
    | pending =>
      rw [not_or, not_not] at hmine
      exact .inr ⟨slot, rfl, hout, hmine.1, by simpa using hmine.2, by simpa using hretired, rfl⟩

end Lvu.Commit
