import Lvu.Shared.LifecycleSteps

/-!
# One acquisition, one capture

Whatever requests come in whatever order, the worker never captures one thing twice: of two
captures that run, the admission keys differ.

* `Keyed` : what a request or a settlement calls its key is the key of its definition.
* `Single` : of all the definitions that are known, that run, or that are on their way to run, two
  with one key have one id.
-/

namespace Lvu.Shared.Lifecycle

open List

section
variable (canonicalize : Path → Option Path)

/-! ### Keys -/

/-- The definition and the key a request goes by, once it has them. -/
def CallStage.asks : CallStage → Option (SourceDefinition × AdmissionKey)
  | .entering d key | .electing d key _ | .spawning (some (d, key, _)) _
  | .attaching (some (d, key, _)) _ _ | .waiting d key _ _ | .retiring d key _ _
  | .dropping _ (.inl (d, key)) => some (d, key)
  | _ => none

/-- The key that goes with a definition is its key. -/
structure Keyed (w : World) : Prop where
  calls : ∀ (c : ℕ) (call : Call) d key, w.calls[c]? = some call → call.stage.asks = some (d, key) →
    keyOf canonicalize d = some key ∧ ∃ definition, call.request = .start definition ∧
      d = canonicalizeDefinition canonicalize definition
  unkeyed : ∀ (c : ℕ) (call : Call) permit, w.calls[c]? = some call → call.stage = .spawning none permit →
    ∀ definition, call.request = .start definition ∨ call.request = .noteSessionMember definition →
      (canonicalizeDefinition canonicalize definition).isStdin = true ∧
        call.request = .start definition
  leaders : ∀ (t : ℕ) (task : Task) key share d, w.tasks[t]? = some task → task.work = .leader key share d →
    keyOf canonicalize d = some key
  keyless : ∀ (t : ℕ) (task : Task) d, w.tasks[t]? = some task → task.work = .keyless d → d.isStdin = true
  deciding : ∀ (t : ℕ) (task : Task) d, w.tasks[t]? = some task → task.stage = .deciding d →
    ∃ key share, task.work = .leader key share d

end

variable {canonicalize : Path → Option Path} {storeUnavailable : Option String}
  {w w' : World} {t : ℕ} {task : Task} {answer : Answer} {c : ℕ} {call : Call}

variable {stage : Stage} {d d' : SourceDefinition} {key : AdmissionKey} {task' : Task}
  {id : SourceId} {session : List SourceDefinition}

theorem CallNext.asks {stage : CallStage} (h : CallNext canonicalize w call stage)
    (hs : stage.asks = some (d, key)) :
    call.stage.asks = some (d, key) ∨ ∃ definition, call.request = .start definition ∧
      d = canonicalizeDefinition canonicalize definition ∧
      admissionKey canonicalize d = .ok (some key) := by
  cases h with
  | enter h asked keyed =>
    simp only [CallStage.asks, Option.some.injEq, Prod.mk.injEq] at hs
    obtain ⟨rfl, rfl⟩ := hs
    exact .inr ⟨_, asked, rfl, keyed⟩
  | elect h | join h | lead h | attachLeader h | retire h => left; rw [h]; exact hs
  | @spawn work permit h => left; rw [h]; cases work <;> exact hs
  | @failed d' key' share permit reason h => cases permit <;> simp [leaveStage, CallStage.asks] at hs
  | @again d' key' share permit h =>
    left; rw [h]
    cases permit <;> exact hs
  | @leave permit next h =>
    left; rw [h]
    cases next <;> exact hs
  | _ => simp [CallStage.asks] at hs

theorem CallNext.detached {stage : CallStage} {permit : ℕ}
    (h : CallNext canonicalize w call stage) (hs : stage = .spawning none permit) :
    (∀ definition, call.request = .start definition →
      admissionKey canonicalize (canonicalizeDefinition canonicalize definition) = .ok none) ∧
      ∀ definition, call.request ≠ .noteSessionMember definition := by
  cases h with
  | detach _ unkeyed work => exact ⟨unkeyed, work⟩
  | @failed _ _ _ p | @again _ _ _ p | @leave _ p => cases p <;> cases hs
  | _ => cases hs

theorem Next.deciding (h : Next canonicalize storeUnavailable w task stage)
    (hs : stage = .deciding d) : ∃ key share, task.work = .leader key share d := by
  cases h <;> try cases hs
  case begins =>
    cases hw : task.work <;> rw [hw] at hs <;> cases hs
    exact ⟨_, _, rfl⟩
  case refuse => cases hw : task.work <;> rw [hw] at hs <;> cases hs

theorem Keyed.taskStep (hinv : Keyed canonicalize w) (ht : w.tasks[t]? = some task)
    (h : TaskSpec canonicalize storeUnavailable w w' t task task') : Keyed canonicalize w' := by
  constructor
  · rw [h.calls]; exact hinv.calls
  · rw [h.calls]; exact hinv.unkeyed
  · intro i task₁ key share d hi hw
    obtain ⟨rfl, rfl⟩ | ⟨-, hi⟩ := h.task_at hi
    · exact hinv.leaders _ _ _ _ _ ht (h.work ▸ hw)
    · exact hinv.leaders _ _ _ _ _ hi hw
  · intro i task₁ d hi hw
    obtain ⟨rfl, rfl⟩ | ⟨-, hi⟩ := h.task_at hi
    · exact hinv.keyless _ _ _ ht (h.work ▸ hw)
    · exact hinv.keyless _ _ _ hi hw
  · intro i task₁ d hi hs
    obtain ⟨rfl, rfl⟩ | ⟨-, hi⟩ := h.task_at hi
    · rw [h.work]; exact h.next.deciding hs
    · exact hinv.deciding _ _ _ hi hs

theorem Keyed.aside (hinv : Keyed canonicalize w) (h : Aside w w') : Keyed canonicalize w' := by
  constructor
  · intro i call d key hi hs
    obtain hi | harrived | hdropped := h.calls i call hi
    · exact hinv.calls _ _ _ _ hi hs
    · rw [harrived] at hs; cases hs
    · rw [hdropped] at hs; cases hs
  · intro i call permit hi hs
    obtain hi | harrived | hdropped := h.calls i call hi
    · exact hinv.unkeyed _ _ _ hi hs
    · cases harrived.symm.trans hs
    · cases hdropped.symm.trans hs
  · intro i task' key share d hi hw
    obtain ⟨task, hi, hrests⟩ := h.tasks i task' hi
    exact hinv.leaders _ _ _ _ _ hi (hrests.work ▸ hw)
  · intro i task' d hi hw
    obtain ⟨task, hi, hrests⟩ := h.tasks i task' hi
    exact hinv.keyless _ _ _ hi (hrests.work ▸ hw)
  · intro i task' d hi hs
    obtain ⟨task, hi, hrests⟩ := h.tasks i task' hi
    rw [hrests.work]
    obtain hsame | ⟨-, hleft⟩ := hrests.stage
    · exact hinv.deciding _ _ _ hi (hsame ▸ hs)
    · cases hleft.symm.trans hs

theorem Keyed.callStep {call' : Call} (hinv : Keyed canonicalize w) (hc : w.calls[c]? = some call)
    (h : CallSpec canonicalize w w' c call call') : Keyed canonicalize w' := by
  constructor
  · intro i call₁ d key hi hs
    obtain ⟨rfl, rfl⟩ | ⟨-, hi⟩ := h.call_at hi
    · rw [h.request]
      obtain hbefore | ⟨definition, hask, rfl, hkey⟩ := h.next.asks hs
      · exact hinv.calls _ _ _ _ hc hbefore
      · exact ⟨keyOf_of_admissionKey hkey, definition, hask, rfl⟩
    · exact hinv.calls _ _ _ _ hi hs
  · intro i call₁ permit hi hs definition hask
    obtain ⟨rfl, rfl⟩ | ⟨-, hi⟩ := h.call_at hi
    · rw [h.request] at hask ⊢
      obtain ⟨hun, hwork⟩ := h.next.detached hs
      obtain hask | hask := hask
      · exact ⟨isStdin_of_admissionKey_none (hun _ hask), hask⟩
      · exact absurd hask (hwork _)
    · exact hinv.unkeyed _ _ _ hi hs definition hask
  · intro i task key share d hi hw
    obtain hi | ⟨work, permit, hs, -, rfl⟩ := h.spawned hi
    · exact hinv.leaders _ _ _ _ _ hi hw
    · change workOf canonicalize call.request work = _ at hw
      cases work with
      | none => cases hr : call.request <;> rw [hr] at hw <;> cases hw
      | some work =>
        obtain ⟨d', key', share'⟩ := work
        obtain ⟨rfl, rfl, rfl⟩ := Work.leader.inj hw
        exact (hinv.calls c call _ _ hc (by rw [hs]; rfl)).1
  · intro i task d hi hw
    obtain hi | ⟨work, permit, hs, -, rfl⟩ := h.spawned hi
    · exact hinv.keyless _ _ _ hi hw
    · change workOf canonicalize call.request work = _ at hw
      cases work with
      | some work => cases hw
      | none =>
        have hunkeyed := hinv.unkeyed _ _ _ hc hs
        cases hr : call.request with
        | start definition =>
          rw [hr] at hw
          obtain rfl := Work.keyless.inj hw
          exact (hunkeyed _ (.inl hr)).1
        | noteSessionMember definition =>
          exact absurd (hr.symm.trans (hunkeyed _ (.inr hr)).2) (by simp)
        | stop id | restart id => rw [hr] at hw; cases hw
  · intro i task d hi hs
    obtain hi | ⟨work, permit, -, -, rfl⟩ := h.spawned hi
    · exact hinv.deciding _ _ _ hi hs
    · cases hs

theorem Keyed.step {e : Event} (hinv : Keyed canonicalize w)
    (h : step canonicalize storeUnavailable w e = some w') : Keyed canonicalize w' := by
  obtain ⟨c, answer, call, call', -, hc, -, hspec⟩ | ⟨t, answer, task, task', -, ht, -, hspec⟩ |
    haside := step_spec h
  · exact hinv.callStep hc hspec
  · exact hinv.taskStep ht hspec
  · exact hinv.aside haside

/-! ### One key, one id -/

/-- Nobody may act any more: the gate is closed, and no settlement is at work. -/
def Orphaned (w : World) : Prop :=
  w.gate.closed = true ∧ ∀ (t : ℕ) (task : Task), w.tasks[t]? = some task → task.stage.acts = false

/-- The manager captures for this start, or is about to. -/
def LaunchStage.prepared : LaunchStage → Bool
  | .preparing | .finished (.error _) => false
  | .acquiring | .acquired | .checked | .installed | .finished (.ok ()) => true

/-- The manager's map has the capture of this start. -/
def LaunchStage.held : LaunchStage → Bool
  | .installed | .finished (.ok ()) => true
  | .preparing | .acquiring | .acquired | .checked | .finished (.error _) => false

/-- A definition that is known, that runs, or that is on its way to run. -/
inductive Claimed (w : World) : SourceDefinition → Prop
  | known {id : SourceId} {d : SourceDefinition} (h : w.definitions.lookup id = some d) : Claimed w d
  | active {id : SourceId} {d : SourceDefinition} (h : w.active.lookup id = some ⟨d, false⟩) :
      Claimed w d
  | launch {l : ℕ} {launch : Launch} (h : w.launches[l]? = some launch)
      (pending : launch.pending = true) : Claimed w launch.definition
  | task {t : ℕ} {task : Task} {d : SourceDefinition} (h : w.tasks[t]? = some task)
      (source : task.stage.source = some d) : Claimed w d

/-- A capture that runs is known, or the settlement that asked for it is at it. -/
inductive Traced (w : World) (id : SourceId) (d : SourceDefinition) : Prop
  | known (h : w.definitions.lookup id = some d)
  | launching {t l : ℕ} {task : Task} {launch : Launch} (ht : w.tasks[t]? = some task)
      (stage : task.stage = .launching d l) (hl : w.launches[l]? = some launch)
      (held : launch.stage.held = true)
  | publishing {t : ℕ} {task : Task} (ht : w.tasks[t]? = some task)
      (stage : task.stage = .publishing d)
  | orphaned (h : Orphaned w)

/-- A definition that was read with the session. -/
def Restored (canonicalize : Path → Option Path) (session : List SourceDefinition)
    (d : SourceDefinition) : Prop :=
  ∃ definition ∈ session, d = canonicalizeDefinition canonicalize definition

/-- One key, one id, but for two definitions that were read with the session; and what it rests on. -/
structure Single (canonicalize : Path → Option Path) (session : List SourceDefinition) (w : World) :
    Prop where
  ids : ∀ id d, w.definitions.lookup id = some d → d.id = id
  captured : ∀ id capture, w.active.lookup id = some capture → capture.definition.id = id
  recorded : ∀ id d, w.definitions.lookup id = some d → w.metadata.lookup id = some d
  holder : ∀ (t : ℕ) (task : Task), w.tasks[t]? = some task → task.stage.holds = true →
    w.lifecycle = some t
  cancelled : ∀ (t : ℕ) (task : Task), w.tasks[t]? = some task → task.cancelled = true →
    w.gate.closed = true
  shut : w.shutdown.past = true → w.gate.closed = true
  oneKey : ∀ d d' key, Claimed w d → Claimed w d' → keyOf canonicalize d = some key →
    keyOf canonicalize d' = some key →
    d.id = d'.id ∨ Restored canonicalize session d ∧ Restored canonicalize session d'
  launching : ∀ (t : ℕ) (task : Task) d l, w.tasks[t]? = some task → task.stage = .launching d l →
    ∃ launch, w.launches[l]? = some launch ∧ launch.definition = d ∧ launch.task = t
  publishing : ∀ (t : ℕ) (task : Task) d, w.tasks[t]? = some task → task.stage = .publishing d →
    w.metadata.lookup d.id = some d
  prepared : ∀ (l : ℕ) (launch : Launch), w.launches[l]? = some launch →
    launch.stage.prepared = true → w.metadata.lookup launch.definition.id = some launch.definition
  pending : ∀ (l : ℕ) (launch : Launch), w.launches[l]? = some launch → launch.pending = true →
    (∃ task, w.tasks[launch.task]? = some task ∧ task.stage = .launching launch.definition l) ∨
      Orphaned w
  running : ∀ id d, w.active.lookup id = some ⟨d, false⟩ → Traced w id d
  apart : ∀ (l : ℕ) (launch : Launch), w.launches[l]? = some launch → launch.pending = true →
    launch.stage ≠ .installed → w.isLive launch.definition.id = false
  distinct : ∀ (l l' : ℕ) (launch launch' : Launch), w.launches[l]? = some launch →
    w.launches[l']? = some launch' → launch.pending = true → launch'.pending = true →
    launch.definition.id = launch'.definition.id → l = l'

theorem Next.holds (h : Next canonicalize storeUnavailable w task stage) (hs : stage.holds = true) :
    task.stage.holds = true ∨ task.stage = .queued := by
  cases h with
  | lock h => exact .inr h
  | poll | leave | release => cases hs
  | recalled h | start h | forget h => left; obtain h | h := h <;> simp [h, Stage.holds]
  | send h => left; obtain ⟨_, h⟩ | ⟨_, h⟩ := h <;> simp [h, Stage.holds]
  | fail h | stopEnd h => exact .inl (Stage.holds_of_acts h)
  | begins h | refuse h | admitted h | present h | live h | stale h | stop h | launch h | launched h
  | publish h | publishUnstored h | stored h | unbind h | awaitStop h | forgot h | announce h
  | retire h => left; simp [h, Stage.holds]

theorem Next.acts (h : Next canonicalize storeUnavailable w task stage) (hs : stage.acts = true) :
    task.stage.acts = true ∨ (task.stage = .held ∧ w.gate.closed = false) := by
  cases h with
  | begins h opened => exact .inr ⟨h, opened⟩
  | refuse h => cases hw : task.work <;> simp [hw, refusedStage, Stage.acts] at hs
  | recalled h | start h | forget h => left; obtain h | h := h <;> simp [h, Stage.acts]
  | admitted h | present h | stale h | stop h | launch h | launched h | publish h | unbind h
  | awaitStop h | forgot h => left; simp [h, Stage.acts]
  | _ => cases hs

theorem Next.source (h : Next canonicalize storeUnavailable w task stage)
    (hs : stage.source = some d) :
    task.stage.source = some d ∨ (∃ id, w.definitions.lookup id = some d) ∨
      (∃ live : List SourceDefinition, task.stage = .deciding d ∧ live.Perm w.known ∧
        admitKnown canonicalize d live = .admitted) ∨ task.work = .keyless d := by
  cases h with
  | begins h =>
    cases hw : task.work <;> simp [hw, firstStage, Stage.source] at hs
    simp [hs]
  | refuse h => cases hw : task.work <;> simp [hw, refusedStage, Stage.source] at hs
  | admitted h walked verdict =>
    cases hs
    exact .inr (.inr (.inl ⟨_, h, walked, verdict⟩))
  | recalled h known =>
    cases hs
    exact .inr (.inl ⟨_, known⟩)
  | start h => left; obtain h | h := h <;> rw [h] <;> exact hs
  | stop h | launch h | launched h => left; rw [h]; exact hs
  | _ => cases hs

theorem Next.launches {l : ℕ} (h : Next canonicalize storeUnavailable w task stage)
    (hs : stage = .launching d l) :
    task.stage = .starting d ∧ l = w.launches.length ∧ w.startRefusal d = none := by
  cases h with
  | launch h willing =>
    obtain ⟨rfl, rfl⟩ := Stage.launching.inj hs
    exact ⟨h, rfl, willing⟩
  | begins h | refuse h => cases hw : task.work <;> rw [hw] at hs <;> cases hs
  | _ => cases hs

theorem Next.publishes {stage : Stage} {d : SourceDefinition}
    (h : Next canonicalize storeUnavailable w task stage) (hs : stage = .publishing d) :
    ∃ l d' i, task.stage = .launching d l ∧ w.launches[l]? = some ⟨d', i, .finished (.ok ())⟩ := by
  cases h with
  | launched h answered =>
    obtain rfl := Stage.publishing.inj hs
    exact ⟨_, _, _, h, answered⟩
  | begins h | refuse h => cases hw : task.work <;> rw [hw] at hs <;> cases hs
  | _ => cases hs

/-- A settlement leaves its start of the manager only when that is over. -/
theorem Next.launched_over {l : ℕ} (h : Next canonicalize storeUnavailable w task stage)
    (hs : task.stage = .launching d l) :
    (∃ d' i error, w.launches[l]? = some ⟨d', i, .finished (.error error)⟩) ∨
      stage = .publishing d ∧ ∃ d' i, w.launches[l]? = some ⟨d', i, .finished (.ok ())⟩ := by
  cases h with
  | launched h answered =>
    obtain ⟨rfl, rfl⟩ := Stage.launching.inj (h.symm.trans hs)
    exact .inr ⟨rfl, _, _, answered⟩
  | fail _ refused => exact .inl (refused d l hs)
  | stopEnd _ source => rw [hs] at source; cases source
  | recalled h | start h | forget h => obtain h | h := h <;> rw [h] at hs <;> cases hs
  | send h => obtain ⟨_, h⟩ | ⟨_, h⟩ := h <;> rw [h] at hs <;> cases hs
  | poll h | lock h | begins h | refuse h | admitted h | present h | live h | stale h | stop h
  | launch h | publish h | publishUnstored h | stored h | unbind h | awaitStop h | forgot h
  | announce h | retire h | release h | leave h => rw [h] at hs; cases hs

theorem Next.queued (h : Next canonicalize storeUnavailable w task stage)
    (hs : task.stage = .queued) : w.lifecycle = none := by
  cases h with
  | lock _ free => exact free
  | fail h | stopEnd h => rw [hs] at h; cases h
  | recalled h | start h | forget h => obtain h | h := h <;> rw [h] at hs <;> cases hs
  | send h => obtain ⟨_, h⟩ | ⟨_, h⟩ := h <;> rw [h] at hs <;> cases hs
  | poll h | begins h | refuse h | admitted h | present h | live h | stale h | stop h
  | launch h | launched h | publish h | publishUnstored h | stored h | unbind h | awaitStop h
  | forgot h | announce h | retire h | release h | leave h => rw [h] at hs; cases hs

namespace Single

theorem unique (hinv : Single canonicalize session w) {t t' : ℕ} {task : Task}
    (ht : w.tasks[t]? = some task) (ht' : w.tasks[t']? = some task') (hs : task.stage.holds = true)
    (hs' : task'.stage.holds = true) : t = t' :=
  Option.some.inj ((hinv.holder t task ht hs).symm.trans (hinv.holder t' task' ht' hs'))

/-- While a settlement decides, whatever has a claim is known. -/
theorem known_of_claimed (hinv : Single canonicalize session w) (ht : w.tasks[t]? = some task)
    (hs : task.stage = .deciding d) (h : Claimed w d') : d' ∈ w.known := by
  have hholds : task.stage.holds = true := by rw [hs]; rfl
  have hacts : task.stage.acts = true := by rw [hs]; rfl
  have hmem : ∀ id, w.definitions.lookup id = some d' → d' ∈ w.known := fun id hid =>
    mem_map.2 ⟨⟨id, d'⟩, AList.mem_lookup_iff.1 hid, rfl⟩
  -- no other settlement is at work, and this one is not at a source
  have hself : ∀ (i : ℕ) (task₁ : Task), w.tasks[i]? = some task₁ → task₁.stage.acts = true →
      task₁.stage = .deciding d := by
    intro i task₁ hi ha
    obtain rfl := hinv.unique hi ht (Stage.holds_of_acts ha) hholds
    rw [← hs, Option.some.inj (hi.symm.trans ht)]
  have hbusy : ¬ Orphaned w := fun ho => by simpa [hacts] using ho.2 t task ht
  cases h with
  | known h => exact hmem _ h
  | active h =>
    cases hinv.running _ _ h with
    | known h => exact hmem _ h
    | launching hi hstage | publishing hi hstage =>
      cases hstage.symm.trans (hself _ _ hi (by rw [hstage]; rfl))
    | orphaned h => exact absurd h hbusy
  | launch hl hpending =>
    obtain ⟨task₁, hi, hstage⟩ | h := hinv.pending _ _ hl hpending
    · cases hstage.symm.trans (hself _ _ hi (by rw [hstage]; rfl))
    · exact absurd h hbusy
  | task hi hsource =>
    rw [hself _ _ hi (Stage.acts_of_source hsource)] at hsource
    cases hsource

/-- A step of a settlement makes no claim but that of a definition it admits, or of a pipe. -/
theorem claimed_taskStep (hk : Keyed canonicalize w) (ht : w.tasks[t]? = some task)
    (h : TaskSpec canonicalize storeUnavailable w w' t task task') (hd : Claimed w' d) :
    Claimed w d ∨ d.isStdin = true ∨ ∃ live : List SourceDefinition, task.stage = .deciding d ∧
      live.Perm w.known ∧ admitKnown canonicalize d live = .admitted := by
  have hsource : ∀ d, task.stage.source = some d → Claimed w d := fun d => .task ht
  cases hd with
  | known hid =>
    left
    rw [h.definitions] at hid
    split at hid
    · rename_i d₀ hs
      rw [Dict.lookup_insert_eq] at hid
      split_ifs at hid
      · cases hid
        exact hsource _ (by rw [hs]; rfl)
      · exact .known hid
    · exact .known hid
  | active hid => exact .inl (.active (h.active ▸ hid))
  | launch hl hpending =>
    left
    rw [h.launches] at hl
    unfold launchesAfter at hl
    split at hl
    · rename_i d₀ l₀ hs
      obtain ⟨-, rfl⟩ | hl := append_cases hl
      · exact hsource _ (by rw [(h.next.launches hs).1]; rfl)
      · exact .launch hl hpending
    · exact .launch hl hpending
  | task hi hs =>
    obtain ⟨rfl, rfl⟩ | ⟨-, hi⟩ := h.task_at hi
    · obtain hs | ⟨id, hid⟩ | hadmit | hkeyless := h.next.source hs
      · exact .inl (hsource _ hs)
      · exact .inl (.known hid)
      · exact .inr (.inr hadmit)
      · exact .inr (.inl (hk.keyless _ _ _ ht hkeyless))
    · exact .inl (.task hi hs)

theorem oneKey_taskStep (hk : Keyed canonicalize w) (hinv : Single canonicalize session w)
    (ht : w.tasks[t]? = some task) (h : TaskSpec canonicalize storeUnavailable w w' t task task') :
    ∀ d d' key, Claimed w' d → Claimed w' d' → keyOf canonicalize d = some key →
      keyOf canonicalize d' = some key →
      d.id = d'.id ∨ Restored canonicalize session d ∧ Restored canonicalize session d' := by
  intro d d' key hd hd' hkey hkey'
  have hpipe : ∀ d, d.isStdin = true → keyOf canonicalize d ≠ some key := by
    intro d hs
    rw [keyOf_of_isStdin hs]
    simp
  -- what is admitted has a key that nobody claims
  have hfresh : ∀ d₁ d₂, (∃ live : List SourceDefinition, task.stage = .deciding d₁ ∧
      live.Perm w.known ∧ admitKnown canonicalize d₁ live = .admitted) →
      keyOf canonicalize d₁ = some key → Claimed w d₂ → keyOf canonicalize d₂ ≠ some key := by
    rintro d₁ d₂ ⟨live, hs, hperm, hverdict⟩ hkey₁ hclaimed
    have hknown := hinv.known_of_claimed ht hs hclaimed
    exact (admitKnown_admits hkey₁ hverdict d₂ (hperm.mem_iff.2 hknown)).2
  obtain hd | hd | hd := claimed_taskStep hk ht h hd
  · obtain hd' | hd' | hd' := claimed_taskStep hk ht h hd'
    · exact hinv.oneKey d d' key hd hd' hkey hkey'
    · exact absurd hkey' (hpipe _ hd')
    · exact absurd hkey (hfresh _ _ hd' hkey' hd)
  · exact absurd hkey (hpipe _ hd)
  · obtain hd' | hd' | hd' := claimed_taskStep hk ht h hd'
    · exact absurd hkey' (hfresh _ _ hd hkey hd')
    · exact absurd hkey' (hpipe _ hd')
    · obtain ⟨_, hs, -, -⟩ := hd
      obtain ⟨_, hs', -, -⟩ := hd'
      exact .inl (by rw [Stage.deciding.inj (hs.symm.trans hs')])

theorem known_taskStep (hinv : Single canonicalize session w) (ht : w.tasks[t]? = some task)
    (h : TaskSpec canonicalize storeUnavailable w w' t task task')
    (hd : w.definitions.lookup id = some d) : w'.definitions.lookup id = some d := by
  rw [h.definitions]
  split
  · rename_i d₀ hs
    rw [Dict.lookup_insert_eq]
    split_ifs with hid
    · have hmeta := hinv.publishing t task d₀ ht hs
      rw [← hid, hinv.recorded id d hd] at hmeta
      exact hmeta.symm
    · exact hd
  · exact hd

theorem holder_taskStep (hinv : Single canonicalize session w) (ht : w.tasks[t]? = some task)
    (h : TaskSpec canonicalize storeUnavailable w w' t task task') :
    ∀ (i : ℕ) (task₁ : Task), w'.tasks[i]? = some task₁ → task₁.stage.holds = true →
      w'.lifecycle = some i := by
  intro i task₁ hi hs
  rw [h.tasks] at hi
  rw [h.lifecycle]
  obtain ⟨rfl, rfl⟩ | ⟨hne, hi⟩ := set_cases hi
  · split
    · rfl
    · rename_i hstage
      have hnext := h.next
      rw [show task₁.stage = .leaving from ?_] at hs
      · cases hs
      · generalize task₁.stage = stage at hnext
        cases hnext with
        | release => rfl
        | fail h | stopEnd h => rw [hstage] at h; cases h
        | recalled h | start h | forget h => obtain h | h := h <;> rw [h] at hstage <;> cases hstage
        | send h => obtain ⟨_, h⟩ | ⟨_, h⟩ := h <;> rw [h] at hstage <;> cases hstage
        | poll h | lock h | begins h | refuse h | admitted h | present h | live h | stale h | stop h
        | launch h | launched h | publish h | publishUnstored h | stored h | unbind h | awaitStop h
        | forgot h | announce h | retire h | leave h => rw [h] at hstage; cases hstage
    · rename_i hq _
      obtain hb | hb := h.next.holds hs
      · exact hinv.holder _ _ ht hb
      · exact absurd hb hq
  · have hlife := hinv.holder _ _ hi hs
    split
    · rename_i hq
      simp [h.next.queued hq] at hlife
    · rename_i hr
      exact absurd (hinv.unique hi ht hs (by rw [hr]; rfl)) hne
    · exact hlife

theorem mem_tasks (ht : w.tasks[t]? = some task) (htasks : w'.tasks = w.tasks.set t task') :
    w'.tasks[t]? = some task' := by
  rw [htasks, getElem?_set_self (List.getElem?_eq_some_iff.1 ht).1]

theorem other_tasks {task₁ : Task} {i : ℕ} (htasks : w'.tasks = w.tasks.set t task') (hne : i ≠ t)
    (hi : w.tasks[i]? = some task₁) : w'.tasks[i]? = some task₁ := by
  rw [htasks, getElem?_set_ne (Ne.symm hne), hi]

theorem orphaned_taskStep (ht : w.tasks[t]? = some task)
    (h : TaskSpec canonicalize storeUnavailable w w' t task task') (ho : Orphaned w) :
    Orphaned w' := by
  refine ⟨h.closed.trans ho.1, fun i task₁ hi => ?_⟩
  obtain ⟨rfl, rfl⟩ | ⟨-, hi⟩ := h.task_at hi
  · by_contra hacts
    obtain hb | ⟨-, hopen⟩ := h.next.acts (by simpa using hacts)
    · simp [ho.2 _ _ ht] at hb
    · simp [ho.1] at hopen
  · exact ho.2 _ _ hi

theorem launch_taskStep (h : TaskSpec canonicalize storeUnavailable w w' t task task') {l : ℕ}
    {launch : Launch} (hl : w.launches[l]? = some launch) : w'.launches[l]? = some launch := by
  rw [h.launches]
  unfold launchesAfter
  split
  · rw [getElem?_append_left (List.getElem?_eq_some_iff.1 hl).1, hl]
  · exact hl

theorem launch_cases (h : TaskSpec canonicalize storeUnavailable w w' t task task') {l : ℕ}
    {launch : Launch} (hl : w'.launches[l]? = some launch) :
    w.launches[l]? = some launch ∨ ∃ d, task'.stage = .launching d l ∧ launch = ⟨d, t, .preparing⟩ ∧
      w.startRefusal d = none ∧ l = w.launches.length := by
  rw [h.launches] at hl
  unfold launchesAfter at hl
  split at hl
  · rename_i d l₀ hs
    obtain ⟨-, rfl, hwilling⟩ := h.next.launches hs
    obtain ⟨rfl, rfl⟩ | hl := append_cases hl
    · exact .inr ⟨d, hs, rfl, hwilling, rfl⟩
    · exact .inl hl
  · exact .inl hl

theorem not_isLive_of_willing (h : w.startRefusal d = none) : w.isLive d.id = false := by
  unfold World.startRefusal at h
  split_ifs at h with _ _ hlive
  simpa using hlive

theorem not_pending_of_willing (h : w.startRefusal d = none) {l : ℕ} {launch : Launch}
    (hl : w.launches[l]? = some launch) (hp : launch.pending = true) :
    launch.definition.id ≠ d.id := by
  unfold World.startRefusal at h
  split_ifs at h with _ _ _ hany
  intro heq
  exact hany (any_eq_true.2 ⟨launch, mem_of_getElem? hl, by simp [hp, heq]⟩)

theorem traced_taskStep (hinv : Single canonicalize session w) (ht : w.tasks[t]? = some task)
    (h : TaskSpec canonicalize storeUnavailable w w' t task task') (hid : d.id = id)
    (htraced : Traced w id d) : Traced w' id d := by
  cases htraced with
  | known hd => exact .known (hinv.known_taskStep ht h hd)
  | @launching i l task₁ launch hi hs hl hheld =>
    by_cases hit : i = t
    · subst hit
      cases hi.symm.trans ht
      obtain ⟨d', j, error, hl'⟩ | ⟨hpub, -⟩ := h.next.launched_over hs
      · cases hl.symm.trans hl'
        cases hheld
      · exact .publishing (mem_tasks ht h.tasks) hpub
    · exact .launching (other_tasks h.tasks hit hi) hs (launch_taskStep h hl) hheld
  | @publishing i task₁ hi hs =>
    by_cases hit : i = t
    · subst hit
      cases hi.symm.trans ht
      refine .known ?_
      rw [h.definitions, hs, Dict.lookup_insert_eq, if_pos hid.symm]
    · exact .publishing (other_tasks h.tasks hit hi) hs
  | orphaned ho => exact .orphaned (orphaned_taskStep ht h ho)

/-- A step of a settlement. -/
theorem taskStep (hk : Keyed canonicalize w) (hinv : Single canonicalize session w)
    (ht : w.tasks[t]? = some task) (h : TaskSpec canonicalize storeUnavailable w w' t task task') :
    Single canonicalize session w' where
  ids := by
    intro id d hd
    rw [h.definitions] at hd
    split at hd
    · rw [Dict.lookup_insert_eq] at hd
      split_ifs at hd with hid
      · cases hd
        exact hid.symm
      · exact hinv.ids id d hd
    · exact hinv.ids id d hd
  captured := by rw [h.active]; exact hinv.captured
  recorded := by
    intro id d hd
    rw [h.metadata]
    rw [h.definitions] at hd
    split at hd
    · rename_i d₀ hs
      rw [Dict.lookup_insert_eq] at hd
      split_ifs at hd with hid
      · obtain rfl := Option.some.inj hd
        exact hid ▸ hinv.publishing t task d₀ ht hs
      · exact hinv.recorded id d hd
    · exact hinv.recorded id d hd
  holder := hinv.holder_taskStep ht h
  cancelled := by
    intro i task₁ hi hc
    rw [h.tasks] at hi
    rw [h.closed]
    obtain ⟨rfl, rfl⟩ | ⟨-, hi⟩ := set_cases hi
    · exact hinv.cancelled _ _ ht (h.cancelled ▸ hc)
    · exact hinv.cancelled _ _ hi hc
  shut := by
    intro hp
    rw [h.shutdown] at hp
    rw [h.closed]
    exact hinv.shut hp
  oneKey := hinv.oneKey_taskStep hk ht h
  launching := by
    intro i task₁ d l hi hs
    obtain ⟨rfl, rfl⟩ | ⟨-, hi⟩ := h.task_at hi
    · obtain ⟨-, rfl, -⟩ := h.next.launches hs
      refine ⟨⟨d, i, .preparing⟩, ?_, rfl, rfl⟩
      rw [h.launches, hs]
      simp [launchesAfter]
    · obtain ⟨launch, hl, hd, htask⟩ := hinv.launching _ _ _ _ hi hs
      exact ⟨launch, launch_taskStep h hl, hd, htask⟩
  publishing := by
    intro i task₁ d hi hs
    rw [h.tasks] at hi
    rw [h.metadata]
    obtain ⟨rfl, rfl⟩ | ⟨-, hi⟩ := set_cases hi
    · obtain ⟨l, d', j, hstage, hl⟩ := h.next.publishes hs
      obtain ⟨launch, hl', rfl, -⟩ := hinv.launching _ _ _ _ ht hstage
      exact hinv.prepared l launch hl' (by rw [Option.some.inj (hl'.symm.trans hl)]; rfl)
    · exact hinv.publishing _ _ _ hi hs
  prepared := by
    intro l launch hl hp
    rw [h.metadata]
    obtain hl | ⟨d, -, rfl, -⟩ := launch_cases h hl
    · exact hinv.prepared _ _ hl hp
    · cases hp
  pending := by
    intro l launch hl hp
    obtain hl | ⟨d, hs, rfl, -⟩ := launch_cases h hl
    · obtain ⟨task₁, hi, hs⟩ | ho := hinv.pending _ _ hl hp
      · by_cases hit : launch.task = t
        · rw [hit] at hi
          cases hi.symm.trans ht
          obtain ⟨d', j, error, hl'⟩ | ⟨-, d', j, hl'⟩ := h.next.launched_over hs <;>
            · rw [Option.some.inj (hl.symm.trans hl')] at hp
              cases hp
        · exact .inl ⟨task₁, other_tasks h.tasks hit hi, hs⟩
      · exact .inr (orphaned_taskStep ht h ho)
    · exact .inl ⟨task', mem_tasks ht h.tasks, hs⟩
  running := by
    intro id d hd
    rw [h.active] at hd
    exact hinv.traced_taskStep ht h (hinv.captured id ⟨d, false⟩ hd) (hinv.running id d hd)
  apart := by
    intro l launch hl hp hne
    have hlive : w'.isLive launch.definition.id = w.isLive launch.definition.id := by
      simp only [World.isLive, h.active]
    rw [hlive]
    obtain hl | ⟨d, -, rfl, hwilling, -⟩ := launch_cases h hl
    · exact hinv.apart _ _ hl hp hne
    · exact not_isLive_of_willing hwilling
  distinct := by
    intro l l' launch launch' hl hl' hp hp' hid
    obtain hl | ⟨d, -, rfl, hwilling, rfl⟩ := launch_cases h hl
    · obtain hl' | ⟨d, -, rfl, hwilling, rfl⟩ := launch_cases h hl'
      · exact hinv.distinct _ _ _ _ hl hl' hp hp' hid
      · exact absurd hid (not_pending_of_willing hwilling hl hp)
    · obtain hl' | ⟨d', -, rfl, hwilling', rfl⟩ := launch_cases h hl'
      · exact absurd hid.symm (not_pending_of_willing hwilling hl' hp')
      · rfl

/-- What leaves the sources alone, and every settlement at work where it is unless nobody is left
to finish one. -/
theorem carry (hinv : Single canonicalize session w) (hdefinitions : w'.definitions = w.definitions)
    (hactive : w'.active = w.active) (hlaunches : w'.launches = w.launches)
    (hmetadata : w'.metadata = w.metadata) (horphaned : Orphaned w → Orphaned w')
    (hcancelled : ∀ (i : ℕ) (task' : Task), w'.tasks[i]? = some task' → task'.cancelled = true →
      w'.gate.closed = true)
    (hshut : w'.shutdown.past = true → w'.gate.closed = true)
    (hback : ∀ (i : ℕ) (task' : Task), w'.tasks[i]? = some task' → task'.stage.holds = true →
      (w.lifecycle = some i → w'.lifecycle = some i) ∧
        ∃ task, w.tasks[i]? = some task ∧ task'.stage = task.stage)
    (hkept : ∀ (i : ℕ) (task : Task), w.tasks[i]? = some task → task.stage.acts = true →
      (∃ task', w'.tasks[i]? = some task' ∧ task'.stage = task.stage) ∨ Orphaned w') :
    Single canonicalize session w' := by
  have hclaimed : ∀ d, Claimed w' d → Claimed w d := by
    intro d hd
    cases hd with
    | known h => exact .known (hdefinitions ▸ h)
    | active h => exact .active (hactive ▸ h)
    | launch h hp => exact .launch (hlaunches ▸ h) hp
    | task hi hs =>
      obtain ⟨-, task, hi', hs'⟩ := hback _ _ hi (Stage.holds_of_acts (Stage.acts_of_source hs))
      exact .task hi' (hs' ▸ hs)
  constructor
  · rw [hdefinitions]; exact hinv.ids
  · rw [hactive]; exact hinv.captured
  · rw [hdefinitions, hmetadata]; exact hinv.recorded
  · intro i task' hi hs
    obtain ⟨hlifecycle, task, hi', hs'⟩ := hback _ _ hi hs
    exact hlifecycle (hinv.holder _ _ hi' (hs' ▸ hs))
  · exact hcancelled
  · exact hshut
  · exact fun d d' key hd hd' => hinv.oneKey d d' key (hclaimed d hd) (hclaimed d' hd')
  · intro i task' d l hi hs
    rw [hlaunches]
    obtain ⟨-, task, hi', hs'⟩ := hback _ _ hi (by rw [hs]; rfl)
    exact hinv.launching _ _ _ _ hi' (hs' ▸ hs)
  · intro i task' d hi hs
    rw [hmetadata]
    obtain ⟨-, task, hi', hs'⟩ := hback _ _ hi (by rw [hs]; rfl)
    exact hinv.publishing _ _ _ hi' (hs' ▸ hs)
  · rw [hlaunches, hmetadata]; exact hinv.prepared
  · intro l launch hl hp
    obtain ⟨task, hi, hs⟩ | ho := hinv.pending l launch (hlaunches ▸ hl) hp
    · obtain ⟨task', hi', hs'⟩ | ho := hkept _ _ hi (by rw [hs]; rfl)
      · exact .inl ⟨task', hi', hs'.trans hs⟩
      · exact .inr ho
    · exact .inr (horphaned ho)
  · intro id d hd
    cases hinv.running id d (hactive ▸ hd) with
    | known h => exact .known (hdefinitions ▸ h)
    | launching hi hs hl hheld =>
      obtain ⟨task', hi', hs'⟩ | ho := hkept _ _ hi (by rw [hs]; rfl)
      · exact .launching hi' (hs'.trans hs) (hlaunches ▸ hl) hheld
      · exact .orphaned ho
    | publishing hi hs =>
      obtain ⟨task', hi', hs'⟩ | ho := hkept _ _ hi (by rw [hs]; rfl)
      · exact .publishing hi' (hs'.trans hs)
      · exact .orphaned ho
    | orphaned ho => exact .orphaned (horphaned ho)
  · intro l launch hl hp hne
    have hlive : w'.isLive launch.definition.id = w.isLive launch.definition.id := by
      simp only [World.isLive, hactive]
    rw [hlive]
    exact hinv.apart l launch (hlaunches ▸ hl) hp hne
  · rw [hlaunches]; exact hinv.distinct

/-- What leaves the sources alone, and the settlements where they are. -/
theorem frame (hinv : Single canonicalize session w) (hdefinitions : w'.definitions = w.definitions)
    (hactive : w'.active = w.active) (hlaunches : w'.launches = w.launches)
    (hmetadata : w'.metadata = w.metadata) (hlifecycle : w'.lifecycle = w.lifecycle)
    (hclosed : w.gate.closed = true → w'.gate.closed = true)
    (hshut : w'.shutdown.past = true → w.shutdown.past = true ∨ w'.gate.closed = true)
    (htasks : ∀ (i : ℕ) (task' : Task), w'.tasks[i]? = some task' →
      (∃ task, w.tasks[i]? = some task ∧ task'.stage = task.stage ∧
        (task'.cancelled = true → task.cancelled = true ∨ w'.gate.closed = true)) ∨
      (task'.stage = .spawned ∧ task'.cancelled = false))
    (hkept : ∀ (i : ℕ) (task : Task), w.tasks[i]? = some task →
      ∃ task', w'.tasks[i]? = some task' ∧ task'.stage = task.stage) :
    Single canonicalize session w' := by
  refine hinv.carry hdefinitions hactive hlaunches hmetadata
    (fun ho => ⟨hclosed ho.1, fun i task' hi => ?_⟩) (fun i task' hi hc => ?_)
    (fun hp => (hshut hp).elim (fun hp => hclosed (hinv.shut hp)) id)
    (fun i task' hi hs => ⟨hlifecycle.trans, ?_⟩) fun i task hi _ => .inl (hkept i task hi)
  · obtain ⟨task, hi', hs, -⟩ | ⟨hs, -⟩ := htasks i task' hi
    · rw [hs]; exact ho.2 _ _ hi'
    · rw [hs]; rfl
  · obtain ⟨task, hi', -, hc'⟩ | ⟨-, hc'⟩ := htasks _ _ hi
    · exact (hc' hc).elim (fun hc' => hclosed (hinv.cancelled _ _ hi' hc')) id
    · simp [hc'] at hc
  · obtain ⟨task, hi', hs', -⟩ | ⟨hs', -⟩ := htasks _ _ hi
    · exact ⟨task, hi', hs'⟩
    · rw [hs'] at hs; cases hs

/-- A settlement that is torn down leaves nobody at work, if it was. -/
theorem tear (hinv : Single canonicalize session w) (ht : w.tasks[t]? = some task)
    (h : tearStep w t task = some w') : Single canonicalize session w' := by
  obtain ⟨hcan, hawaits, htasks, hlife, heq, -⟩ := tearStep_spec h
  have hclosed : w'.gate.closed = true := by rw [heq]; exact hinv.cancelled _ _ ht hcan
  refine hinv.carry (by rw [heq]) (by rw [heq]) (by rw [heq]) (by rw [heq])
    (fun ho => ⟨hclosed, fun i task₁ hi => ?_⟩) (fun _ _ _ _ => hclosed) (fun _ => hclosed)
    (fun i task₁ hi hs => ?_) fun i task₁ hi hs => ?_
  · rw [htasks] at hi
    obtain ⟨rfl, rfl⟩ | ⟨-, hi⟩ := set_cases hi
    · rfl
    · exact ho.2 _ _ hi
  · rw [htasks] at hi
    obtain ⟨rfl, rfl⟩ | ⟨hne, hi⟩ := set_cases hi
    · cases hs
    · refine ⟨fun hi' => ?_, task₁, hi, rfl⟩
      rw [hlife, if_neg (by rw [hi']; simpa using hne), hi']
  · by_cases hit : i = t
    · -- whoever was at work was this one
      subst hit
      rw [Option.some.inj (hi.symm.trans ht)] at hs
      refine .inr ⟨hclosed, fun j task₂ hj => ?_⟩
      rw [htasks] at hj
      obtain ⟨rfl, rfl⟩ | ⟨hne, hj⟩ := set_cases hj
      · rfl
      · by_contra hs'
        exact hne (hinv.unique hj ht (Stage.holds_of_acts (by simpa using hs'))
          (Stage.holds_of_acts hs))
    · exact .inl ⟨task₁, other_tasks htasks hit hi, rfl⟩

variable {l : ℕ} {launch : Launch}

/-- What a step of a start of the manager changes. -/
structure LaunchSpec (w w' : World) (l : ℕ) (launch launch' : Launch) : Prop where
  launches : w'.launches = w.launches.set l launch'
  definition : launch'.definition = launch.definition
  task : launch'.task = launch.task
  tasks : w'.tasks = w.tasks
  definitions : w'.definitions = w.definitions
  lifecycle : w'.lifecycle = w.lifecycle
  gate : w'.gate = w.gate
  shutdown : w'.shutdown = w.shutdown
  pending : launch'.pending = true → launch.pending = true
  installed : launch'.pending = true → launch'.stage ≠ .installed → launch.stage ≠ .installed
  held : launch.stage.held = true → launch'.stage.held = true
  prepared : launch'.stage.prepared = true → launch.stage.prepared = true ∨
    (w'.metadata = w.metadata.insert launch.definition.id launch.definition)
  metadata : w'.metadata = w.metadata ∨ (w.metadataRefusal launch.definition = none ∧
    w'.metadata = w.metadata.insert launch.definition.id launch.definition)
  active : w'.active = w.active ∨ (launch.stage = .checked ∧ launch'.stage = .installed ∧
    ∃ terminal, w'.active = w.active.insert launch.definition.id ⟨launch.definition, terminal⟩)

theorem launchSpec_of_effect (h : LaunchEffect w l launch w') :
    ∃ launch', LaunchSpec w w' l launch launch' := by
  obtain ⟨d, task, stage⟩ := launch
  cases h with
  | @fail error h =>
    refine ⟨_, rfl, rfl, rfl, rfl, rfl, rfl, rfl, rfl, nofun, nofun, fun hheld => ?_, nofun, .inl rfl,
      .inl rfl⟩
    obtain rfl | rfl | rfl : stage = .preparing ∨ stage = .acquiring ∨ stage = .acquired := h <;>
      cases hheld
  | prepare h willing =>
    obtain rfl : stage = .preparing := h
    exact ⟨_, rfl, rfl, rfl, rfl, rfl, rfl, rfl, rfl, fun _ => rfl, fun _ _ => (by simp), nofun,
      fun _ => .inr rfl, .inr ⟨willing, rfl⟩, .inl rfl⟩
  | acquire h | check h =>
    obtain rfl : stage = _ := h
    exact ⟨_, rfl, rfl, rfl, rfl, rfl, rfl, rfl, rfl, fun _ => rfl, fun _ _ => (by simp), nofun,
      fun _ => .inl rfl, .inl rfl, .inl rfl⟩
  | @install terminal h =>
    obtain rfl : stage = .checked := h
    exact ⟨_, rfl, rfl, rfl, rfl, rfl, rfl, rfl, rfl, fun _ => rfl, fun _ _ => (by simp), nofun,
      fun _ => .inl rfl, .inl rfl, .inr ⟨rfl, rfl, terminal, rfl⟩⟩
  | answer h =>
    obtain rfl : stage = .installed := h
    exact ⟨_, rfl, rfl, rfl, rfl, rfl, rfl, rfl, rfl, nofun, nofun, fun _ => rfl, fun _ => .inl rfl,
      .inl rfl, .inl rfl⟩

theorem metadata_launch {launch' : Launch} (h : LaunchSpec w w' l launch launch')
    (hd : w.metadata.lookup id = some d) : w'.metadata.lookup id = some d := by
  obtain hm | ⟨hwilling, hm⟩ := h.metadata
  · rw [hm, hd]
  · rw [hm, Dict.lookup_insert_eq]
    split_ifs with hid
    · subst hid
      unfold World.metadataRefusal at hwilling
      rw [hd] at hwilling
      simp only at hwilling
      split_ifs at hwilling with hne
      exact congrArg some (not_not.1 hne).symm
    · exact hd

/-- A step of a start of the manager. -/
theorem launchStep {launch' : Launch} (hinv : Single canonicalize session w)
    (hl : w.launches[l]? = some launch) (h : LaunchSpec w w' l launch launch') :
    Single canonicalize session w' := by
  have hmem : w'.launches[l]? = some launch' := by
    rw [h.launches, getElem?_set_self (List.getElem?_eq_some_iff.1 hl).1]
  have hother : ∀ (i : ℕ) (launch₁ : Launch), i ≠ l → w.launches[i]? = some launch₁ →
      w'.launches[i]? = some launch₁ := by
    intro i launch₁ hne hi
    rw [h.launches, getElem?_set_ne (Ne.symm hne), hi]
  have hcases : ∀ (i : ℕ) (launch₁ : Launch), w'.launches[i]? = some launch₁ →
      i = l ∧ launch₁ = launch' ∨ i ≠ l ∧ w.launches[i]? = some launch₁ := by
    intro i launch₁ hi
    rw [h.launches] at hi
    exact set_cases hi
  have horphaned : Orphaned w → Orphaned w' :=
    fun ho => ⟨h.gate ▸ ho.1, fun t task ht => ho.2 t task (h.tasks ▸ ht)⟩
  have hactive : ∀ id d, w'.active.lookup id = some ⟨d, false⟩ →
      w.active.lookup id = some ⟨d, false⟩ ∨ (launch.stage = .checked ∧ launch'.stage = .installed ∧
        id = launch.definition.id ∧ d = launch.definition) := by
    intro id d hd
    obtain ha | ⟨hs, hs', terminal, ha⟩ := h.active
    · exact .inl (ha ▸ hd)
    · rw [ha, Dict.lookup_insert_eq] at hd
      split_ifs at hd with hid
      · exact .inr ⟨hs, hs', hid, (congrArg Capture.definition (Option.some.inj hd)).symm⟩
      · exact .inl hd
  have hclaimed : ∀ d, Claimed w' d → Claimed w d := by
    intro d hd
    cases hd with
    | known hd => exact .known (h.definitions ▸ hd)
    | active hd =>
      obtain hd | ⟨hs, -, -, rfl⟩ := hactive _ _ hd
      · exact .active hd
      · exact .launch hl (by unfold Launch.pending; rw [hs])
    | launch hi hp =>
      obtain ⟨rfl, rfl⟩ | ⟨-, hi⟩ := hcases _ _ hi
      · rw [h.definition]; exact .launch hl (h.pending hp)
      · exact .launch hi hp
    | task ht hs => exact .task (h.tasks ▸ ht) hs
  have htrace : ∀ id d, Traced w id d → Traced w' id d := by
    intro id d htraced
    cases htraced with
    | known hd => exact .known (h.definitions ▸ hd)
    | @launching t i task launch₁ ht hs hi hheld =>
      by_cases hil : i = l
      · subst hil
        cases hi.symm.trans hl
        exact .launching (h.tasks ▸ ht) hs hmem (h.held hheld)
      · exact .launching (h.tasks ▸ ht) hs (hother _ _ hil hi) hheld
    | publishing ht hs => exact .publishing (h.tasks ▸ ht) hs
    | orphaned ho => exact .orphaned (horphaned ho)
  constructor
  · rw [h.definitions]; exact hinv.ids
  · intro id capture hcap
    obtain ha | ⟨-, -, terminal, ha⟩ := h.active
    · exact hinv.captured id capture (ha ▸ hcap)
    · rw [ha, Dict.lookup_insert_eq] at hcap
      split_ifs at hcap with hid
      · cases hcap
        exact hid.symm
      · exact hinv.captured id capture hcap
  · intro id d hd
    exact metadata_launch h (hinv.recorded id d (h.definitions ▸ hd))
  · rw [h.tasks, h.lifecycle]; exact hinv.holder
  · rw [h.tasks, h.gate]; exact hinv.cancelled
  · rw [h.shutdown, h.gate]; exact hinv.shut
  · exact fun d d' key hd hd' => hinv.oneKey d d' key (hclaimed d hd) (hclaimed d' hd')
  · intro t task d i ht hs
    obtain ⟨launch₁, hi, hd, htask⟩ := hinv.launching t task d i (h.tasks ▸ ht) hs
    by_cases hil : i = l
    · subst hil
      cases hi.symm.trans hl
      exact ⟨launch', hmem, h.definition.trans hd, h.task.trans htask⟩
    · exact ⟨launch₁, hother _ _ hil hi, hd, htask⟩
  · intro t task d ht hs
    exact metadata_launch h (hinv.publishing t task d (h.tasks ▸ ht) hs)
  · intro i launch₁ hi hp
    obtain ⟨rfl, rfl⟩ | ⟨-, hi⟩ := hcases _ _ hi
    · obtain hp | hm := h.prepared hp
      · rw [h.definition]
        exact metadata_launch h (hinv.prepared _ _ hl hp)
      · rw [hm, h.definition, Dict.lookup_insert_eq, if_pos rfl]
    · exact metadata_launch h (hinv.prepared _ _ hi hp)
  · intro i launch₁ hi hp
    obtain ⟨rfl, rfl⟩ | ⟨-, hi⟩ := hcases _ _ hi
    · rw [h.tasks, h.task, h.definition]
      exact (hinv.pending _ _ hl (h.pending hp)).imp_right horphaned
    · rw [h.tasks]
      exact (hinv.pending _ _ hi hp).imp_right horphaned
  · intro id d hd
    obtain hd | ⟨hs, hs', rfl, rfl⟩ := hactive _ _ hd
    · exact htrace id d (hinv.running id d hd)
    · obtain ⟨task, ht, hstage⟩ | ho := hinv.pending _ _ hl (by unfold Launch.pending; rw [hs])
      · exact .launching (h.tasks ▸ ht) hstage hmem (by rw [hs']; rfl)
      · exact .orphaned (horphaned ho)
  · intro i launch₁ hi hp hne
    -- the start that installs its capture is the only one with its id
    have hlive : ∀ (i : ℕ) (launch₁ : Launch), w.launches[i]? = some launch₁ →
        launch₁.pending = true → launch₁.stage ≠ .installed →
        (launch'.stage = .installed → i ≠ l) → w'.isLive launch₁.definition.id = false := by
      intro i launch₁ hi hp hne hself
      have hbefore := hinv.apart i launch₁ hi hp hne
      obtain ha | ⟨hs, hs', terminal, ha⟩ := h.active
      · simpa only [World.isLive, ha] using hbefore
      · have hid : launch₁.definition.id ≠ launch.definition.id := fun hid =>
          hself hs' (hinv.distinct i l launch₁ launch hi hl hp
            (by unfold Launch.pending; rw [hs]) hid)
        simpa only [World.isLive, ha, Dict.lookup_insert_eq, if_neg hid] using hbefore
    obtain ⟨rfl, rfl⟩ | ⟨hil, hi⟩ := hcases _ _ hi
    · rw [h.definition]
      exact hlive i launch hl (h.pending hp) (h.installed hp hne) fun hs => absurd hs hne
    · exact hlive i launch₁ hi hp hne fun _ => hil
  · intro i j launch₁ launch₂ hi hj hp hp' hid
    obtain ⟨rfl, rfl⟩ | ⟨-, hi⟩ := hcases _ _ hi
    · obtain ⟨rfl, rfl⟩ | ⟨-, hj⟩ := hcases _ _ hj
      · rfl
      · exact hinv.distinct _ _ _ _ hl hj (h.pending hp) hp' (h.definition ▸ hid)
    · obtain ⟨rfl, rfl⟩ | ⟨-, hj⟩ := hcases _ _ hj
      · exact hinv.distinct _ _ _ _ hi hl hp (h.pending hp') (h.definition ▸ hid)
      · exact hinv.distinct _ _ _ _ hi hj hp hp' hid

/-- A capture ends by itself. -/
theorem ended (hinv : Single canonicalize session w) (h : endStep w id = some w') :
    Single canonicalize session w' := by
  unfold endStep at h
  split at h <;> cases h
  rename_i capture hcap
  have hrunning : ∀ id' d, (w.active.insert id { capture with terminal := true }).lookup id' =
      some ⟨d, false⟩ → w.active.lookup id' = some ⟨d, false⟩ := by
    intro id' d hd
    rw [Dict.lookup_insert_eq] at hd
    split_ifs at hd
    · simp at hd
    · exact hd
  have hclaimed : ∀ d, Claimed { w with
      active := w.active.insert id { capture with terminal := true } } d → Claimed w d := by
    intro d hd
    cases hd with
    | known hd => exact .known hd
    | active hd => exact .active (hrunning _ _ hd)
    | launch hl hp => exact .launch hl hp
    | task ht hs => exact .task ht hs
  refine ⟨hinv.ids, ?_, hinv.recorded, hinv.holder, hinv.cancelled, hinv.shut,
    fun d d' key hd hd' => hinv.oneKey d d' key (hclaimed d hd) (hclaimed d' hd'), hinv.launching,
    hinv.publishing, hinv.prepared, hinv.pending, ?_, ?_, hinv.distinct⟩
  · intro id' capture' hc
    rw [Dict.lookup_insert_eq] at hc
    split_ifs at hc with hid
    · cases hc
      exact hid ▸ hinv.captured id capture hcap
    · exact hinv.captured id' capture' hc
  · intro id' d hd
    cases hinv.running id' d (hrunning _ _ hd) with
    | known hd => exact .known hd
    | launching ht hs hl hheld => exact .launching ht hs hl hheld
    | publishing ht hs => exact .publishing ht hs
    | orphaned ho => exact .orphaned ho
  · intro l launch hl hp hne
    have hbefore := hinv.apart l launch hl hp hne
    simp only [World.isLive, Dict.lookup_insert_eq]
    split_ifs with hid
    · rfl
    · exact hbefore

/-- One key, one id: kept by every step. -/
theorem step {e : Event} (hk : Keyed canonicalize w) (hinv : Single canonicalize session w)
    (h : step canonicalize storeUnavailable w e = some w') : Single canonicalize session w' := by
  have hsame : ∀ (i : ℕ) (task : Task), w.tasks[i]? = some task →
      ∃ task', w.tasks[i]? = some task' ∧ task'.stage = task.stage :=
    fun i task hi => ⟨task, hi, rfl⟩
  have hsame' : ∀ (w' : World) (i : ℕ) (task' : Task), w.tasks[i]? = some task' →
      (∃ task, w.tasks[i]? = some task ∧ task'.stage = task.stage ∧
        (task'.cancelled = true → task.cancelled = true ∨ w'.gate.closed = true)) ∨
      (task'.stage = .spawned ∧ task'.cancelled = false) :=
    fun w' i task hi => .inl ⟨task, hi, rfl, .inl⟩
  cases e with
  | request request =>
    cases h
    exact hinv.frame rfl rfl rfl rfl rfl id .inl (hsame' _) hsame
  | call c answer =>
    obtain ⟨call, hc, h⟩ := Option.bind_eq_some_iff.1 h
    obtain ⟨call', hspec⟩ := callStep_spec h
    refine hinv.frame hspec.definitions hspec.active hspec.launches hspec.metadata hspec.lifecycle
      (fun h => hspec.closed.trans h) (fun h => .inl (hspec.shutdown ▸ h)) ?_ ?_
    · intro i task' hi
      obtain hi | ⟨_, _, -, -, rfl⟩ := hspec.spawned hi
      · exact hsame' _ i task' hi
      · exact .inr ⟨rfl, rfl⟩
    · exact fun i task hi => ⟨task, hspec.back hi, rfl⟩
  | drop c =>
    obtain ⟨call, hc, h⟩ := Option.bind_eq_some_iff.1 h
    obtain ⟨gate, rfl, hgate⟩ := dropStep_spec h
    have hclosed : gate.closed = w.gate.closed := by
      obtain ⟨rfl, -⟩ | ⟨_, -, rfl⟩ := hgate <;> rfl
    exact hinv.frame rfl rfl rfl rfl rfl (fun h => hclosed.trans h) .inl (hsame' _) hsame
  | task t answer =>
    obtain ⟨task, ht, h⟩ := Option.bind_eq_some_iff.1 h
    obtain ⟨task', hspec⟩ := taskStep_spec h
    exact hinv.taskStep hk ht hspec
  | tear t =>
    obtain ⟨task, ht, h⟩ := Option.bind_eq_some_iff.1 h
    exact hinv.tear ht h
  | launch l answer =>
    obtain ⟨launch, hl, h⟩ := Option.bind_eq_some_iff.1 h
    obtain ⟨launch', hspec⟩ := launchSpec_of_effect (launchStep_effect h)
    exact hinv.launchStep hl hspec
  | ended id => exact hinv.ended h
  | requestShutdown =>
    cases h
    exact hinv.frame rfl rfl rfl rfl rfl (fun _ => rfl) .inl (hsame' _) hsame
  | shutdown expire answer =>
    have hspec := shutdownStep_spec h
    refine hinv.frame hspec.definitions hspec.active hspec.launches hspec.metadata hspec.lifecycle
      hspec.closed hspec.past ?_ ?_
    · intro i task' hi
      obtain htasks | ⟨failed, handles, t, task, hshut, ht, htasks⟩ := hspec.tasks
      · exact hsame' _ i task' (htasks ▸ hi)
      · rw [htasks] at hi
        obtain ⟨rfl, rfl⟩ | ⟨-, hi⟩ := set_cases hi
        · exact .inl ⟨task, ht, rfl, fun _ =>
            .inr (hspec.closed (hinv.shut (by rw [hshut]; rfl)))⟩
        · exact hsame' _ i task' hi
    · intro i task hi
      obtain htasks | ⟨failed, handles, t, task₁, hshut, ht, htasks⟩ := hspec.tasks
      · exact ⟨task, htasks ▸ hi, rfl⟩
      · by_cases hit : i = t
        · subst hit
          cases hi.symm.trans ht
          exact ⟨_, mem_tasks ht htasks, rfl⟩
        · exact ⟨task, other_tasks htasks hit hi, rfl⟩

end Single

/-! ### A worker that serves -/

theorem canonicalizeDefinition_id (d : SourceDefinition) :
    (canonicalizeDefinition canonicalize d).id = d.id := by
  unfold canonicalizeDefinition
  cases d.acquisition <;> try rfl
  simp only
  split_ifs <;> rfl

/-- Elements of a list without repetitions that are mapped to the same are the same. -/
theorem eq_of_nodup_filterMap {α β : Type} {f : α → Option β} {l : List α} {b : β}
    (h : (l.filterMap f).Nodup) {x y : α} (hx : x ∈ l) (hy : y ∈ l) (hfx : f x = some b)
    (hfy : f y = some b) : x = y := by
  induction l with
  | nil => cases hx
  | cons a l ih =>
    have hmem : ∀ z ∈ l, f z = some b → b ∈ l.filterMap f :=
      fun z hz hfz => mem_filterMap.2 ⟨z, hz, hfz⟩
    rw [filterMap_cons] at h
    cases hfa : f a with
    | none =>
      rw [hfa] at h
      obtain rfl | hx := mem_cons.1 hx
      · rw [hfa] at hfx; cases hfx
      obtain rfl | hy := mem_cons.1 hy
      · rw [hfa] at hfy; cases hfy
      exact ih h hx hy
    | some b' =>
      rw [hfa] at h
      obtain ⟨hnot, h⟩ := nodup_cons.1 h
      obtain rfl | hx' := mem_cons.1 hx
      · obtain rfl | hy' := mem_cons.1 hy
        · rfl
        · obtain rfl : b' = b := Option.some.inj (hfa.symm.trans hfx)
          exact absurd (hmem y hy' hfy) hnot
      · obtain rfl | hy' := mem_cons.1 hy
        · obtain rfl : b' = b := Option.some.inj (hfa.symm.trans hfy)
          exact absurd (hmem x hx' hfx) hnot
        · exact ih h hx' hy'

/-- A worker that has resumed some of its session and served nothing. -/
structure Resumed (canonicalize : Path → Option Path) (session : List SourceDefinition)
    (w : World) : Prop where
  calls : w.calls = []
  tasks : w.tasks = []
  launches : w.launches = []
  shares : w.shares = []
  starting : w.starting = ∅
  gate : w.gate = .new
  shutdown : w.shutdown = .idle
  unchanged : w.session = session
  known : ∀ id d, w.definitions.lookup id = some d → d.id = id ∧ w.metadata.lookup id = some d ∧
    Restored canonicalize session d
  running : ∀ id capture, w.active.lookup id = some capture →
    w.definitions.lookup id = some capture.definition

theorem Resumed.one (h : Resumed canonicalize session w) {definition : SourceDefinition}
    (hmem : definition ∈ session) (disk capture : Result Unit) :
    Resumed canonicalize session (resumeOne canonicalize w definition disk capture) := by
  unfold resumeOne
  split
  · exact h
  simp only
  split <;> try exact h
  split_ifs with hwilling
  swap
  · exact h
  have hmetadata : ∀ id d, w.metadata.lookup id = some d →
      (w.metadata.insert (canonicalizeDefinition canonicalize definition).id
        (canonicalizeDefinition canonicalize definition)).lookup id = some d := by
    intro id d hd
    rw [Dict.lookup_insert_eq]
    split_ifs with hid
    · subst hid
      have hnone := hwilling.2
      unfold World.metadataRefusal at hnone
      rw [hd] at hnone
      simp only at hnone
      split_ifs at hnone with hne
      exact congrArg some (not_not.1 hne).symm
    · exact hd
  split
  · exact h
  · refine { h with known := fun id d hd => ?_ }
    obtain ⟨hid, hm, hs⟩ := h.known id d hd
    exact ⟨hid, hmetadata id d hm, hs⟩
  · refine { h with known := fun id d hd => ?_, running := fun id c hc => ?_ }
    · rw [Dict.lookup_insert_eq] at hd
      split_ifs at hd with hid
      · cases hd
        exact ⟨hid.symm, by rw [hid, AList.lookup_insert], definition, hmem, rfl⟩
      · obtain ⟨hid, hm, hs⟩ := h.known id d hd
        exact ⟨hid, hmetadata id d hm, hs⟩
    · rw [Dict.lookup_insert_eq] at hc ⊢
      split_ifs at hc ⊢
      · cases hc
        rfl
      · exact h.running id c hc

theorem Resumed.all (l : List (SourceDefinition × Result Unit × Result Unit))
    (h : Resumed canonicalize session w) (hmem : ∀ x ∈ l, x.1 ∈ session) :
    Resumed canonicalize session (resumeSession canonicalize w l) := by
  induction l generalizing w with
  | nil => exact h
  | cons x rest ih =>
    obtain ⟨definition, disk, capture⟩ := x
    exact ih (h.one (hmem _ mem_cons_self) disk capture)
      fun y hy => hmem y (mem_cons_of_mem _ hy)

theorem resumed_of_serves (h : Serves canonicalize w) : Resumed canonicalize w.session w := by
  obtain ⟨session, metadata, answers, hlen, rfl⟩ := h
  have hopened : Resumed canonicalize session (.opened session metadata) :=
    ⟨rfl, rfl, rfl, rfl, rfl, rfl, rfl, rfl, fun id d hd => by simp [World.opened] at hd,
      fun id c hc => by simp [World.opened] at hc⟩
  have hresumed := Resumed.all (session.zip answers) hopened fun x hx => (of_mem_zip hx).1
  rwa [hresumed.unchanged]

theorem Resumed.keyed (h : Resumed canonicalize session w) : Keyed canonicalize w := by
  constructor <;> simp [h.calls, h.tasks]

theorem Resumed.single (h : Resumed canonicalize session w) : Single canonicalize session w := by
  have hclaimed : ∀ d, Claimed w d → Restored canonicalize session d := by
    intro d hd
    cases hd with
    | known hd => exact (h.known _ _ hd).2.2
    | active hd => exact (h.known _ _ (h.running _ _ hd)).2.2
    | launch hl => simp [h.launches] at hl
    | task ht => simp [h.tasks] at ht
  constructor
  · exact fun id d hd => (h.known id d hd).1
  · exact fun id c hc => (h.known id _ (h.running id c hc)).1
  · exact fun id d hd => (h.known id d hd).2.1
  · simp [h.tasks]
  · simp [h.tasks]
  · simp [h.shutdown, Shutdown.past]
  · exact fun d d' key hd hd' _ _ => .inr ⟨hclaimed d hd, hclaimed d' hd'⟩
  · simp [h.tasks]
  · simp [h.tasks]
  · simp [h.launches]
  · simp [h.launches]
  · exact fun id d hd => .known (h.running id ⟨d, false⟩ hd)
  · simp [h.launches]
  · simp [h.launches]

/-! ### Runs -/

variable {w₀ : World} {es : List Event}

/-- One key, one id, where the session has distinct keys. -/
theorem Single.one (hinv : Single canonicalize session w) (hkeys : DistinctKeys canonicalize session)
    (hd : Claimed w d) (hd' : Claimed w d') (hkey : keyOf canonicalize d = some key)
    (hkey' : keyOf canonicalize d' = some key) : d.id = d'.id := by
  obtain hid | ⟨⟨s, hs, rfl⟩, s', hs', rfl⟩ := hinv.oneKey d d' key hd hd' hkey hkey'
  · exact hid
  · rw [eq_of_nodup_filterMap hkeys hs hs' hkey hkey']

/-- **One key, one id**, in every run. -/
theorem single_run (h₀ : Serves canonicalize w₀)
    (h : (worker canonicalize storeUnavailable).Run w₀ es w) :
    Keyed canonicalize w ∧ Single canonicalize w₀.session w ∧
      (DistinctKeys canonicalize w₀.session → ∀ d d' key, Claimed w d → Claimed w d' →
        keyOf canonicalize d = some key → keyOf canonicalize d' = some key → d.id = d'.id) := by
  have hresumed := resumed_of_serves h₀
  obtain ⟨hkeyed, hsingle⟩ :=
    h.invariant (I := fun w => Keyed canonicalize w ∧ Single canonicalize w₀.session w)
      ⟨hresumed.keyed, hresumed.single⟩ fun s e s' hinv hstep =>
        ⟨hinv.1.step hstep, hinv.2.step hinv.1 hstep⟩
  exact ⟨hkeyed, hsingle, fun hkeys d d' key => hsingle.one hkeys⟩

/-- A file to follow, under an id. -/
def fileSource (id path : UInt8) : SourceDefinition :=
  ⟨1, ⟨⟨List.replicate 15 0 ++ [id], by simp⟩⟩, "log", .file ⟨[slash, path]⟩ true, [], none⟩

/-- A request comes and leads the start of its key. -/
def leadEvents (c : ℕ) (definition : SourceDefinition) : List Event :=
  .request (.start definition) :: List.replicate 5 (.call c .none)

/-- A settlement is polled until it decides. -/
def pollEvents (t : ℕ) : List Event := List.replicate 3 (.task t .none)

/-- A settlement starts its capture and is through with it. -/
def captureEvents (t l : ℕ) : List Event :=
  [.task t .none, .launch l (.io (.ok ())), .launch l (.io (.ok ())), .launch l .none,
    .launch l (.ended false), .launch l .none, .task t .none, .task t .none, .task t (.io (.ok ()))]
    ++ List.replicate 4 (.task t .none)

/-- Two ids of one file, restored. -/
def restoredTwice : World :=
  let session := [fileSource 1 97, fileSource 2 97]
  resumeSession some (.opened session ∅) (session.zip [(.ok (), .ok ()), (.ok (), .ok ())])

/-- Another file is asked for and captured. -/
def thirdStart : List Event :=
  leadEvents 0 (fileSource 3 98) ++ pollEvents 0 ++
    [.task 0 (.live [fileSource 2 97, fileSource 1 97])] ++ captureEvents 0 0

theorem single_run_restored : ∃ w, (worker some none).Run restoredTwice thirdStart w ∧
    [1, 2, 3].map (fun id => w.isLive (fileSource id 0).id) = [true, true, true] ∧
    Single some [fileSource 1 97, fileSource 2 97] w := by
  obtain ⟨w, hw, hlive⟩ : ∃ w, (worker some none).Run restoredTwice thirdStart w ∧
      [1, 2, 3].map (fun id => w.isLive (fileSource id 0).id) = [true, true, true] :=
    Machine.exists_run (by decide +kernel)
  exact ⟨w, hw, hlive, (single_run ⟨_, ∅, _, rfl, rfl⟩ hw).2.1⟩

/-- Where a capture runs: under an id in the manager's map, or in a start that is not yet there. -/
inductive Slot
  | active (id : SourceId)
  | launch (l : ℕ)

/-- A capture that runs, and of what. -/
def Runs (w : World) (d : SourceDefinition) : Slot → Prop
  | .active id => w.active.lookup id = some ⟨d, false⟩
  | .launch l => ∃ launch, w.launches[l]? = some launch ∧ launch.definition = d ∧
      (launch.stage = .acquired ∨ launch.stage = .checked)

/-- Two captures of one key that run are one. -/
theorem Single.runs (hinv : Single canonicalize session w)
    (hkeys : DistinctKeys canonicalize session) {slot slot' : Slot} (h : Runs w d slot)
    (h' : Runs w d' slot') (hkey : keyOf canonicalize d = some key)
    (hkey' : keyOf canonicalize d' = some key) : slot = slot' := by
  have hpending : ∀ launch : Launch, launch.stage = .acquired ∨ launch.stage = .checked →
      launch.pending = true ∧ launch.stage ≠ .installed := by
    rintro launch (hs | hs) <;> simp [Launch.pending, hs]
  have hclaimed : ∀ d slot, Runs w d slot → Claimed w d := by
    intro d slot h
    cases slot with
    | active id => exact .active h
    | launch l =>
      obtain ⟨launch, hl, rfl, hs⟩ := h
      exact .launch hl (hpending launch hs).1
  have hid := hinv.one hkeys (hclaimed d slot h) (hclaimed d' slot' h') hkey hkey'
  have hmixed : ∀ d d' id l, Runs w d (.active id) → Runs w d' (.launch l) → d.id ≠ d'.id := by
    intro d d' id l h h' hid
    obtain ⟨launch, hl, rfl, hs⟩ := h'
    have hapart := hinv.apart l launch hl (hpending launch hs).1 (hpending launch hs).2
    have hcap : d.id = id := hinv.captured id ⟨d, false⟩ h
    rw [← hid, hcap] at hapart
    have h : w.active.lookup id = some ⟨d, false⟩ := h
    simp [World.isLive, h] at hapart
  cases slot with
  | active id =>
    cases slot' with
    | active id' =>
      have hcap : d.id = id := hinv.captured id ⟨d, false⟩ h
      have hcap' : d'.id = id' := hinv.captured id' ⟨d', false⟩ h'
      rw [← hcap, ← hcap', hid]
    | launch l => exact absurd hid (hmixed d d' id l h h')
  | launch l =>
    cases slot' with
    | active id => exact absurd hid.symm (hmixed d' d id l h' h)
    | launch l' =>
      obtain ⟨launch, hl, rfl, hs⟩ := h
      obtain ⟨launch', hl', rfl, hs'⟩ := h'
      rw [hinv.distinct l l' launch launch' hl hl' (hpending launch hs).1 (hpending launch' hs').1 hid]

/-- A step that begins to capture, and what. -/
def Acquires (w : World) (d : SourceDefinition) (w' : World) : Prop :=
  ∃ (l : ℕ) (launch launch' : Launch), w.launches[l]? = some launch ∧ launch.stage = .acquiring ∧
    launch.definition = d ∧ w'.launches[l]? = some launch' ∧ launch'.stage = .acquired

theorem Single.acquires (hinv : Single canonicalize session w)
    (hkeys : DistinctKeys canonicalize session) (h : Acquires w d w')
    (hknown : w.definitions.lookup id = some d') (hkey : keyOf canonicalize d = some key)
    (hkey' : keyOf canonicalize d' = some key) : id = d.id := by
  obtain ⟨l, launch, -, hl, hs, rfl, -⟩ := h
  rw [← hinv.ids id d' hknown]
  exact hinv.one hkeys (.known hknown) (.launch hl (by simp [Launch.pending, hs])) hkey' hkey

end Lvu.Shared.Lifecycle
