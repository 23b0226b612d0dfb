import Lvu.Core.Model
import Lvu.Data.Dict
import Lvu.Shared.Viewers

/-!
# The admission of lifecycle work

One mutex decides whether a start, a stop or a restart may still enter, counts what has entered,
and is asked again before its first side effect (`LifecycleAdmission` and `LifecyclePermit`,
`lvu-shared/src/worker.rs`).  `GateInv` is what its operations keep: the count is that of the
permits, and it stays within the cap.
-/

namespace Lvu.Shared

def maxLifecycleSettlements : ℕ := maxViewers

structure LifecycleOperation where
  sourceId : SourceId
  begun : Bool

/-- `LifecycleState`; a settlement's abort handle is the index of its task. -/
structure LifecycleState where
  closed : Bool
  inFlight : ℕ
  nextId : ℕ
  permits : Dict ℕ LifecycleOperation
  settlements : Dict ℕ ℕ

namespace LifecycleState

/-- `LifecycleState::default`. -/
def new : LifecycleState := ⟨false, 0, 0, ∅, ∅⟩

/-- `LifecycleAdmission::try_enter`: the permit's id. -/
def tryEnter (g : LifecycleState) (sourceId : SourceId) : Except String (ℕ × LifecycleState) :=
  if g.closed then .error "worker is shutting down"
  else if maxLifecycleSettlements ≤ g.inFlight then
    .error "worker lifecycle settlement capacity is full"
  else if UInt64.size ≤ g.nextId + 1 then .error "worker lifecycle settlement id space exhausted"
  else .ok (g.nextId, { g with
    nextId := g.nextId + 1
    inFlight := g.inFlight + 1
    permits := g.permits.insert g.nextId ⟨sourceId, false⟩ })

/-- `LifecycleAdmission::close`. -/
def close (g : LifecycleState) : LifecycleState := { g with closed := true }

/-- `LifecycleAdmission::attach_settlement`. -/
def attachSettlement (g : LifecycleState) (id task : ℕ) : LifecycleState :=
  if id ∈ g.permits then { g with settlements := g.settlements.insert id task } else g

/-- `LifecycleAdmission::abort_settlements`, under its lock: the sources it reports, and the
handles it is going to abort. -/
def abortSettlements (g : LifecycleState) : List SourceId × List ℕ :=
  (((g.settlements.keys.filterMap g.permits.lookup).filter (·.begun)).map (·.sourceId),
    g.settlements.entries.map (·.2))

/-- `LifecycleAdmission::unsettled_sources`. -/
def unsettledSources (g : LifecycleState) : List SourceId :=
  g.permits.entries.map (·.2.sourceId)

/-- `LifecyclePermit::begin`. -/
def beginPermit (g : LifecycleState) (id : ℕ) : Except String LifecycleState :=
  if g.closed then .error "worker is shutting down"
  else match g.permits.lookup id with
    | some operation => .ok { g with permits := g.permits.insert id { operation with begun := true } }
    | none => .error "live lifecycle permit missing"

/-- `LifecyclePermit::drop`. -/
def dropPermit (g : LifecycleState) (id : ℕ) : LifecycleState :=
  { g with
    inFlight := g.inFlight - 1
    permits := g.permits.erase id
    settlements := g.settlements.erase id }

@[simp] theorem dropPermit_closed (g : LifecycleState) (id : ℕ) :
    (g.dropPermit id).closed = g.closed := rfl

@[simp] theorem dropPermit_permits (g : LifecycleState) (id : ℕ) :
    (g.dropPermit id).permits = g.permits.erase id := rfl

@[simp] theorem attachSettlement_closed (g : LifecycleState) (id task : ℕ) :
    (g.attachSettlement id task).closed = g.closed := by
  unfold attachSettlement; split_ifs <;> rfl

@[simp] theorem attachSettlement_permits (g : LifecycleState) (id task : ℕ) :
    (g.attachSettlement id task).permits = g.permits := by
  unfold attachSettlement; split_ifs <;> rfl

@[simp] theorem attachSettlement_inFlight (g : LifecycleState) (id task : ℕ) :
    (g.attachSettlement id task).inFlight = g.inFlight := by
  unfold attachSettlement; split_ifs <;> rfl

@[simp] theorem attachSettlement_nextId (g : LifecycleState) (id task : ℕ) :
    (g.attachSettlement id task).nextId = g.nextId := by
  unfold attachSettlement; split_ifs <;> rfl

theorem tryEnter_ok {g g' : LifecycleState} {sourceId : SourceId} {id : ℕ}
    (h : g.tryEnter sourceId = .ok (id, g')) :
    g.closed = false ∧ g.inFlight < maxLifecycleSettlements ∧ id = g.nextId ∧
      g' = { g with
        nextId := g.nextId + 1
        inFlight := g.inFlight + 1
        permits := g.permits.insert g.nextId ⟨sourceId, false⟩ } := by
  unfold tryEnter at h
  split_ifs at h with hclosed hfull
  cases h
  exact ⟨by simpa using hclosed, by omega, rfl, rfl⟩

theorem beginPermit_ok {g g' : LifecycleState} {id : ℕ} (h : g.beginPermit id = .ok g') :
    g.closed = false ∧ ∃ operation, g.permits.lookup id = some operation ∧
      g' = { g with permits := g.permits.insert id { operation with begun := true } } := by
  unfold beginPermit at h
  split_ifs at h with hclosed
  cases hl : g.permits.lookup id with
  | none => simp [hl] at h
  | some operation =>
    rw [hl] at h
    exact ⟨by simpa using hclosed, operation, rfl, (Except.ok.inj h).symm⟩

end LifecycleState

/-- The count is that of the permits, which are within the cap; ids are not given twice. -/
structure GateInv (g : LifecycleState) : Prop where
  counted : g.inFlight = Dict.size g.permits
  capped : g.inFlight ≤ maxLifecycleSettlements
  fresh : ∀ id ∈ g.permits, id < g.nextId

namespace GateInv

open LifecycleState

variable {g g' : LifecycleState} {sourceId : SourceId} {id task : ℕ}

theorem new : GateInv LifecycleState.new :=
  ⟨rfl, Nat.zero_le _, fun _ h => absurd h (AList.notMem_empty _)⟩

theorem close (h : GateInv g) : GateInv g.close := ⟨h.counted, h.capped, h.fresh⟩

theorem attachSettlement (h : GateInv g) : GateInv (g.attachSettlement id task) := by
  constructor
  · simpa using h.counted
  · simpa using h.capped
  · simpa using h.fresh

theorem tryEnter (h : GateInv g) (hok : g.tryEnter sourceId = .ok (id, g')) : GateInv g' := by
  obtain ⟨_, hroom, rfl, rfl⟩ := tryEnter_ok hok
  have hnew : g.nextId ∉ g.permits := fun hmem => absurd (h.fresh _ hmem) (lt_irrefl _)
  refine ⟨?_, hroom, fun id hid => ?_⟩
  · show g.inFlight + 1 = _
    rw [Dict.size_insert_of_notMem hnew, h.counted]
  · rcases AList.mem_insert _ |>.1 hid with rfl | hid
    · exact Nat.lt_succ_self _
    · exact Nat.lt_succ_of_lt (h.fresh id hid)

theorem beginPermit (h : GateInv g) (hok : g.beginPermit id = .ok g') : GateInv g' := by
  obtain ⟨_, operation, hl, rfl⟩ := beginPermit_ok hok
  have hmem : id ∈ g.permits := Dict.mem_of_lookup hl
  refine ⟨?_, h.capped, fun j hj => ?_⟩
  · show g.inFlight = _
    rw [Dict.size_insert_of_mem hmem, h.counted]
  · rcases AList.mem_insert _ |>.1 hj with rfl | hj
    · exact h.fresh _ hmem
    · exact h.fresh j hj

theorem dropPermit (h : GateInv g) (hmem : id ∈ g.permits) : GateInv (g.dropPermit id) := by
  have hsize := Dict.size_erase_of_mem hmem
  refine ⟨?_, ?_, fun j hj => h.fresh j (AList.mem_erase.1 hj).2⟩
  · show g.inFlight - 1 = Dict.size (g.permits.erase id)
    have := h.counted
    omega
  · show g.inFlight - 1 ≤ _
    have := h.capped
    omega

end GateInv

end Lvu.Shared
