import Lvu.Shared.Lifecycle

/-!
# What a lifecycle step can do

One lemma for each party of the machine says everything its step does: which stage follows which
(`Next`), and what becomes of the rest of the state as a function of the stage it was in.  The
invariants of the machine are proved from these and never unfold a step.
-/

namespace Lvu.Shared.Lifecycle

open List

/-! ### Stages -/

/-- The settlement holds the lifecycle mutex. -/
def Stage.holds : Stage → Bool
  | .spawned | .queued | .leaving | .finished => false
  | _ => true

/-- The settlement has begun and is not through with what it was spawned for. -/
def Stage.acts : Stage → Bool
  | .spawned | .queued | .held | .settled _ | .stopSettled _ | .announced | .releasing | .leaving
  | .finished => false
  | _ => true

/-- The definition a settlement is on its way to start. -/
def Stage.source : Stage → Option SourceDefinition
  | .checking d | .stopping d | .starting d | .launching d _ | .publishing d => some d
  | _ => none

/-- The settlement awaits the manager's start. -/
def Stage.isLaunching : Stage → Bool
  | .launching _ _ => true
  | _ => false

/-- The step from this stage changes nothing but the stage. -/
def Stage.plain : Stage → Bool
  | .queued | .held | .publishing _ | .storing _ _ _ | .unbinding _ | .forgetting _
  | .forgotten _ _ _ | .settled _ | .stopSettled _ | .announced | .releasing | .leaving => false
  | _ => true

/-- The settlement still has its permit. -/
def Stage.permitted : Stage → Bool
  | .finished => false
  | _ => true

theorem Stage.holds_of_acts {s : Stage} (h : s.acts = true) : s.holds = true := by
  cases s <;> simp_all [Stage.acts, Stage.holds]

theorem Stage.acts_of_source {s : Stage} {d : SourceDefinition} (h : s.source = some d) :
    s.acts = true := by
  cases s <;> simp_all [Stage.acts, Stage.source]

section
variable (canonicalize : Path → Option Path) (storeUnavailable : Option String)

/-- The stages that may follow, and why. -/
inductive Next (w : World) (task : Task) : Stage → Prop
  | poll (h : task.stage = .spawned) : Next w task .queued
  | lock (h : task.stage = .queued) (free : w.lifecycle = none) : Next w task .held
  | begins (h : task.stage = .held) (opened : w.gate.closed = false) :
      Next w task (firstStage task.work)
  | refuse {reason : String} (h : task.stage = .held) : Next w task (refusedStage reason task.work)
  | admitted {d : SourceDefinition} {live : List SourceDefinition} (h : task.stage = .deciding d)
      (walked : live.Perm w.known) (verdict : admitKnown canonicalize d live = .admitted) :
      Next w task (.starting d)
  | present {d : SourceDefinition} {live : List SourceDefinition} {liveId : SourceId}
      (h : task.stage = .deciding d) (walked : live.Perm w.known)
      (verdict : admitKnown canonicalize d live = .present liveId) : Next w task (.presenting liveId)
  | live {liveId : SourceId} (h : task.stage = .presenting liveId) (live : w.isLive liveId = true) :
      Next w task (.settled (.ok (.present liveId)))
  | stale {liveId : SourceId} (h : task.stage = .presenting liveId) :
      Next w task (.recalling liveId)
  | recalled {sourceId : SourceId} {d : SourceDefinition}
      (h : task.stage = .recalling sourceId ∨ task.stage = .restarting sourceId)
      (known : w.definitions.lookup sourceId = some d) (piped : d.isStdin = false) :
      Next w task (.checking d)
  | stop {d : SourceDefinition} (h : task.stage = .checking d) : Next w task (.stopping d)
  | start {d : SourceDefinition} (h : task.stage = .checking d ∨ task.stage = .stopping d) :
      Next w task (.starting d)
  | launch {d : SourceDefinition} (h : task.stage = .starting d)
      (willing : w.startRefusal d = none) : Next w task (.launching d w.launches.length)
  | launched {d : SourceDefinition} {l i : ℕ} {d' : SourceDefinition}
      (h : task.stage = .launching d l)
      (answered : w.launches[l]? = some ⟨d', i, .finished (.ok ())⟩) : Next w task (.publishing d)
  | publish {d : SourceDefinition} {session : List SourceDefinition} (h : task.stage = .publishing d)
      (free : w.sessionLock = none) (kept : storeUnavailable = none) :
      Next w task (.storing d session (w.version + 1))
  | publishUnstored {d : SourceDefinition} {reason : String} (h : task.stage = .publishing d)
      (free : w.sessionLock = none) (lost : storeUnavailable = some reason) :
      Next w task (.settled (.ok (startOutcome d (some (unavailableWarning reason)))))
  | stored {d : SourceDefinition} {snapshot : List SourceDefinition} {version : ℕ}
      {warning : Option String} (h : task.stage = .storing d snapshot version) :
      Next w task (.settled (.ok (startOutcome d warning)))
  /-- A start or a restart fails; a start the manager has answered has been refused. -/
  | fail {reason : String} (h : task.stage.acts = true)
      (refused : ∀ d l, task.stage = .launching d l →
        ∃ d' i error, w.launches[l]? = some ⟨d', i, .finished (.error error)⟩)
      (unpublished : ∀ d, task.stage ≠ .publishing d) :
      Next w task (.settled (.error reason))
  | unbind {sourceId : SourceId} (h : task.stage = .unbinding sourceId)
      (kept : storeUnavailable = none) : Next w task (.stopChecking sourceId)
  | awaitStop {sourceId : SourceId} (h : task.stage = .stopChecking sourceId) :
      Next w task (.stopAwaiting sourceId)
  | forget {sourceId : SourceId}
      (h : task.stage = .stopChecking sourceId ∨ task.stage = .stopAwaiting sourceId) :
      Next w task (.forgetting sourceId)
  | forgot {sourceId : SourceId} {session : List SourceDefinition}
      (h : task.stage = .forgetting sourceId) (free : w.sessionLock = none) :
      Next w task (.forgotten sourceId session (w.version + 1))
  | stopEnd {outcome : Result Unit} (h : task.stage.acts = true) (source : task.stage.source = none)
      (done : outcome = .ok () → ∃ id snapshot version, task.stage = .forgotten id snapshot version) :
      Next w task (.stopSettled outcome)
  | announce {outcome : Result StartedOutcome} {key : AdmissionKey} {share : ℕ}
      {d : SourceDefinition} (h : task.stage = .settled outcome)
      (leads : task.work = .leader key share d) : Next w task .announced
  | send (h : (∃ outcome, task.stage = .settled outcome) ∨ ∃ outcome, task.stage = .stopSettled outcome) :
      Next w task .releasing
  | retire (h : task.stage = .announced) : Next w task .releasing
  | release (h : task.stage = .releasing) : Next w task .leaving
  | leave (h : task.stage = .leaving) : Next w task .finished

/-- The launches after a step into `stage`. -/
def launchesAfter (w : World) (t : ℕ) : Stage → List Launch
  | .launching d _ => w.launches ++ [⟨d, t, .preparing⟩]
  | _ => w.launches

/-- What a step of a settlement does to the gate: its permit begins, or is dropped. -/
inductive TaskGate (g g' : LifecycleState) (task task' : Task) : Prop
  | same (gate : g' = g) (begun : task'.begun = task.begun) (stays : task'.stage.permitted = true)
      (idle : task.stage = .held → task'.stage.acts = false)
  | begins (h : task.stage = .held) (gate : g.beginPermit task.permit = .ok g')
      (begun : task'.begun = true)
  | leaves (h : task.stage = .leaving) (gate : g' = g.dropPermit task.permit)
      (begun : task'.begun = task.begun) (left : task'.stage = .finished)

/-- What a step of a settlement does to the rest. -/
structure TaskSpec (w w' : World) (t : ℕ) (task task' : Task) : Prop where
  tasks : w'.tasks = w.tasks.set t task'
  next : Next canonicalize storeUnavailable w task task'.stage
  call : task'.call = task.call
  work : task'.work = task.work
  permit : task'.permit = task.permit
  cancelled : task'.cancelled = task.cancelled
  torn : task'.torn = task.torn
  calls : w'.calls = w.calls
  shutdown : w'.shutdown = w.shutdown
  active : w'.active = w.active
  metadata : w'.metadata = w.metadata
  managerClosed : w'.managerClosed = w.managerClosed
  closed : w'.gate.closed = w.gate.closed
  gate : TaskGate w.gate w'.gate task task'
  definitions : w'.definitions = match task.stage with
    | .publishing d => w.definitions.insert d.id d
    | _ => w.definitions
  launches : w'.launches = launchesAfter w t task'.stage
  lifecycle : w'.lifecycle = match task.stage with
    | .queued => some t
    | .releasing => none
    | _ => w.lifecycle
  /-- The outcome of a leader goes to those who share it. -/
  shares : w'.shares = match task.stage, task.work with
    | .settled outcome, .leader _ share _ => w.shares.set share (some (match outcome with
        | .ok outcome => .settled outcome
        | .error reason => .failed reason))
    | _, _ => w.shares
  /-- Any other outcome is sent. -/
  sent : task'.sent = match task.stage, task.work with
    | .settled _, .leader _ _ _ => task.sent
    | .settled outcome, _ => some (outcome.map .outcome)
    | .stopSettled outcome, _ => some (outcome.map fun _ => .stopped)
    | _, _ => task.sent
  starting : w'.starting = match task.stage, task.work with
    | .announced, .leader key _ _ => w.starting.erase key
    | _, _ => w.starting

end

variable {canonicalize : Path → Option Path} {storeUnavailable : Option String}
  {w w' : World} {t : ℕ} {task : Task} {answer : Answer}

theorem launchesAfter_of_not {stage : Stage} (h : stage.isLaunching = false) :
    launchesAfter w t stage = w.launches := by
  cases stage <;> first | rfl | cases h

theorem taskSpec_goto {stage : Stage} (hplain : task.stage.plain = true)
    (hnext : Next canonicalize storeUnavailable w task stage)
    (hlaunch : stage.isLaunching = false) (hstays : stage.permitted = true) :
    ∃ task', TaskSpec canonicalize storeUnavailable w (w.goto t task stage) t task task' := by
  have hlaunches := (launchesAfter_of_not (w := w) (t := t) hlaunch).symm
  obtain ⟨call, work, permit, before, begun, cancelled, torn, sent⟩ := task
  refine ⟨⟨call, work, permit, stage, begun, cancelled, torn, sent⟩, ?_⟩
  have hgate : TaskGate w.gate w.gate ⟨call, work, permit, before, begun, cancelled, torn, sent⟩
      ⟨call, work, permit, stage, begun, cancelled, torn, sent⟩ :=
    .same rfl rfl hstays fun h => absurd hplain (by rw [show before = .held from h]; simp [Stage.plain])
  refine ⟨rfl, hnext, rfl, rfl, rfl, rfl, rfl, rfl, rfl, rfl, rfl, rfl, rfl, hgate, ?_, hlaunches, ?_,
    ?_, ?_, ?_⟩
  all_goals cases before <;> first | rfl | cases hplain

/-- **What a step of a settlement does.** -/
theorem taskStep_spec (h : taskStep canonicalize storeUnavailable w t task answer = some w') :
    ∃ task', TaskSpec canonicalize storeUnavailable w w' t task task' := by
  obtain ⟨call, work, permit, stage, begun, cancelled, torn, sent⟩ := task
  cases stage with
  | spawned =>
    cases answer <;> simp only [taskStep, reduceCtorEq, Option.some.injEq] at h
    subst h
    exact taskSpec_goto rfl (.poll rfl) rfl rfl
  | queued =>
    cases answer <;> simp only [taskStep, reduceCtorEq] at h
    split_ifs at h with hfree
    cases h
    exact ⟨_, by
      constructor <;> first | exact .lock rfl hfree | rfl | exact .same rfl rfl rfl fun h => by cases h⟩
  | held =>
    cases answer <;> simp only [taskStep, reduceCtorEq] at h
    cases hbegin : w.gate.beginPermit permit with
    | error reason =>
      simp only [hbegin, Option.some.injEq] at h
      subst h
      cases work <;>
        exact ⟨_, by
          constructor <;> first
            | exact @Next.refuse _ _ _ _ reason rfl
            | rfl
            | exact .same rfl rfl rfl fun _ => rfl⟩
    | ok gate =>
      simp only [hbegin, Option.some.injEq] at h
      subst h
      obtain ⟨hopen, operation, _, rfl⟩ := LifecycleState.beginPermit_ok hbegin
      cases work <;>
        exact ⟨_, by
          constructor <;> first | exact .begins rfl hopen | rfl | exact .begins rfl hbegin rfl⟩
  | deciding d =>
    cases answer <;> simp only [taskStep, reduceCtorEq] at h
    split_ifs at h with hwalked
    split at h <;> rename_i hverdict <;> cases h
    · exact taskSpec_goto rfl (.fail rfl (by simp) (by simp)) rfl rfl
    · exact taskSpec_goto rfl (.present rfl hwalked hverdict) rfl rfl
    · exact taskSpec_goto rfl (.admitted rfl hwalked hverdict) rfl rfl
  | presenting liveId =>
    cases answer <;> simp only [taskStep, reduceCtorEq] at h
    split_ifs at h with hlive <;> cases h
    · exact taskSpec_goto rfl (.live rfl hlive) rfl rfl
    · exact taskSpec_goto rfl (.stale rfl) rfl rfl
  | recalling liveId =>
    cases answer <;> simp only [taskStep, reduceCtorEq] at h
    split at h
    · cases h
      exact taskSpec_goto rfl (.fail rfl (by simp) (by simp)) rfl rfl
    · rename_i d hd
      split_ifs at h with hpipe <;> cases h
      · exact taskSpec_goto rfl (.fail rfl (by simp) (by simp)) rfl rfl
      · exact taskSpec_goto rfl (.recalled (.inl rfl) hd (by simpa using hpipe)) rfl rfl
  | restarting sourceId =>
    cases answer <;> simp only [taskStep, reduceCtorEq] at h
    split at h
    · cases h
      exact taskSpec_goto rfl (.fail rfl (by simp) (by simp)) rfl rfl
    · rename_i d hd
      split_ifs at h with hpipe <;> cases h
      · exact taskSpec_goto rfl (.fail rfl (by simp) (by simp)) rfl rfl
      · exact taskSpec_goto rfl (.recalled (.inr rfl) hd (by simpa using hpipe)) rfl rfl
  | checking d =>
    cases answer <;> simp only [taskStep, reduceCtorEq] at h
    split_ifs at h with hlive <;> cases h
    · exact taskSpec_goto rfl (.stop rfl) rfl rfl
    · exact taskSpec_goto rfl (.start (.inl rfl)) rfl rfl
  | stopping d =>
    cases answer <;> simp only [taskStep, reduceCtorEq] at h
    split at h <;> cases h
    · exact taskSpec_goto rfl (.fail rfl (by simp) (by simp)) rfl rfl
    · exact taskSpec_goto rfl (.fail rfl (by simp) (by simp)) rfl rfl
    · exact taskSpec_goto rfl (.start (.inr rfl)) rfl rfl
  | starting d =>
    cases answer <;> simp only [taskStep, reduceCtorEq] at h
    split at h <;> rename_i hwilling <;> cases h
    · exact taskSpec_goto rfl (.fail rfl (by simp) (by simp)) rfl rfl
    · exact ⟨_, by
      constructor <;> first | exact .launch rfl hwilling | rfl | exact .same rfl rfl rfl fun h => by cases h⟩
  | launching d l =>
    cases answer <;> simp only [taskStep, reduceCtorEq] at h
    split at h
    · rename_i d' i error hl
      cases h
      have hrefused : ∀ d₁ l₁, Stage.launching d l = .launching d₁ l₁ →
          ∃ d' i error, w.launches[l₁]? = some ⟨d', i, .finished (.error error)⟩ := by
        intro d₁ l₁ hs
        obtain ⟨rfl, rfl⟩ := Stage.launching.inj hs
        exact ⟨d', i, error, hl⟩
      exact taskSpec_goto rfl (.fail rfl hrefused (by simp)) rfl rfl
    · rename_i d' i hl
      cases h
      exact taskSpec_goto rfl (.launched rfl hl) rfl rfl
    · cases h
  | publishing d =>
    cases answer <;> simp only [taskStep, reduceCtorEq] at h
    split_ifs at h with hfree
    cases h
    unfold publishStarted
    cases hstore : storeUnavailable <;> exact ⟨_, by
      constructor <;> first
        | exact .publish rfl hfree rfl
        | exact .publishUnstored rfl hfree rfl
        | rfl
        | exact .same rfl rfl rfl fun h => by cases h⟩
  | storing d snapshot version =>
    cases answer with
    | io result =>
      simp only [taskStep, Option.some.injEq] at h
      subst h
      cases result <;>
        exact ⟨_, by
      constructor <;> first | exact .stored rfl | rfl | exact .same rfl rfl rfl fun h => by cases h⟩
    | _ => simp [taskStep] at h
  | unbinding sourceId =>
    cases answer <;> simp only [taskStep, reduceCtorEq] at h
    split at h <;> cases h
    · exact ⟨_, by
      constructor <;> first | exact .stopEnd rfl rfl (fun h => by cases h) | rfl | exact .same rfl rfl rfl fun h => by cases h⟩
    · exact ⟨_, by
      constructor <;> first | exact .unbind rfl rfl | rfl | exact .same rfl rfl rfl fun h => by cases h⟩
  | stopChecking sourceId =>
    cases answer <;> simp only [taskStep, reduceCtorEq] at h
    split_ifs at h with hlive <;> cases h
    · exact taskSpec_goto rfl (.awaitStop rfl) rfl rfl
    · exact taskSpec_goto rfl (.forget (.inl rfl)) rfl rfl
  | stopAwaiting sourceId =>
    cases answer <;> simp only [taskStep, reduceCtorEq] at h
    split at h <;> cases h
    · exact taskSpec_goto rfl (.stopEnd rfl rfl fun h => by cases h) rfl rfl
    · exact taskSpec_goto rfl (.stopEnd rfl rfl fun h => by cases h) rfl rfl
    · exact taskSpec_goto rfl (.forget (.inr rfl)) rfl rfl
  | forgetting sourceId =>
    cases answer <;> simp only [taskStep, reduceCtorEq] at h
    split_ifs at h with hfree
    cases h
    exact ⟨_, by
      constructor <;> first | exact .forgot rfl hfree | rfl | exact .same rfl rfl rfl fun h => by cases h⟩
  | forgotten sourceId snapshot version =>
    cases answer with
    | io result =>
      simp only [taskStep, Option.some.injEq] at h
      subst h
      cases result <;>
        exact ⟨_, by
      constructor <;> first | exact .stopEnd rfl rfl (fun _ => ⟨_, _, _, rfl⟩) | rfl | exact .same rfl rfl rfl fun h => by cases h⟩
    | _ => simp [taskStep] at h
  | settled outcome =>
    cases answer <;> simp only [taskStep, reduceCtorEq] at h
    cases work <;> simp only [Option.some.injEq] at h <;> subst h
    · exact ⟨_, by
      constructor <;> first | exact .announce rfl rfl | rfl | exact .same rfl rfl rfl fun h => by cases h⟩
    all_goals exact ⟨_, by
      constructor <;> first | exact .send (.inl ⟨_, rfl⟩) | rfl | exact .same rfl rfl rfl fun h => by cases h⟩
  | stopSettled outcome =>
    cases answer <;> simp only [taskStep, reduceCtorEq, Option.some.injEq] at h
    subst h
    cases work <;> exact ⟨_, by
      constructor <;> first | exact .send (.inr ⟨_, rfl⟩) | rfl | exact .same rfl rfl rfl fun h => by cases h⟩
  | announced =>
    cases answer <;> simp only [taskStep, reduceCtorEq] at h
    cases work <;> simp only [Option.some.injEq] at h <;> subst h <;>
      exact ⟨_, by
      constructor <;> first | exact .retire rfl | rfl | exact .same rfl rfl rfl fun h => by cases h⟩
  | releasing =>
    cases answer <;> simp only [taskStep, reduceCtorEq, Option.some.injEq] at h
    subst h
    exact ⟨_, by
      constructor <;> first | exact .release rfl | rfl | exact .same rfl rfl rfl fun h => by cases h⟩
  | leaving =>
    cases answer <;> simp only [taskStep, reduceCtorEq, Option.some.injEq] at h
    subst h
    exact ⟨_, by constructor <;> first | exact .leave rfl | rfl | exact .leaves rfl rfl rfl rfl⟩
  | finished => cases answer <;> simp [taskStep] at h

/-! ### The other parties -/

/-- What a settlement that is torn down does. -/
theorem tearStep_spec (h : tearStep w t task = some w') :
    task.cancelled = true ∧ task.stage.awaits = true ∧
      w'.tasks = w.tasks.set t { task with torn := true, stage := .leaving } ∧
      w'.lifecycle = (if w.lifecycle = some t then none else w.lifecycle) ∧
      w' = { w with
        tasks := w'.tasks, lifecycle := w'.lifecycle, shares := w'.shares, starting := w'.starting } ∧
      ∀ (s : ℕ) (outcome : StartedOutcome), w'.shares[s]? = some (some (.settled outcome)) →
        w.shares[s]? = some (some (.settled outcome)) := by
  unfold tearStep at h
  split_ifs at h with hcan
  cases h
  have hguard : dropGuard w task = { w with
      shares := (dropGuard w task).shares, starting := (dropGuard w task).starting } := by
    unfold dropGuard
    split <;> rfl
  refine ⟨hcan.1, hcan.2, ?_, ?_, ?_, ?_⟩
  · rw [hguard]; rfl
  · rw [hguard]; rfl
  · rw [hguard]; rfl
  · intro s outcome hs
    change (dropGuard w task).shares[s]? = _ at hs
    unfold dropGuard at hs
    split at hs
    · exact hs
    · simp only at hs
      split at hs
      · rename_i key share d _ _ hshare
        rw [getElem?_set] at hs
        split_ifs at hs <;> first | exact hs | simp at hs
      · exact hs
    · exact hs

theorem tearStep_guard (h : tearStep w t task = some w') : w'.shares.length = w.shares.length ∧
    ∀ key share, w'.starting.lookup key = some share → w.starting.lookup key = some share := by
  unfold tearStep at h
  split_ifs at h with hcan
  cases h
  change (dropGuard w task).shares.length = _ ∧ ∀ key share, (dropGuard w task).starting.lookup key =
    some share → _
  unfold dropGuard
  split
  · exact ⟨rfl, fun _ _ => id⟩
  · refine ⟨?_, fun key share hs => ?_⟩
    · simp only
      split <;> simp
    · simp only at hs
      split_ifs at hs
      · rw [Dict.lookup_erase_eq] at hs
        split_ifs at hs
        exact hs
      · exact hs
  · exact ⟨rfl, fun _ _ => id⟩

/-- The request is to spawn the settlement of a start it leads. -/
def CallStage.isLeading : CallStage → Bool
  | .spawning (some _) _ => true
  | _ => false

@[simp] theorem leaveStage_isLeading (permit : Option ℕ)
    (next : (SourceDefinition × AdmissionKey) ⊕ Result Reply) :
    (leaveStage permit next).isLeading = false := by
  cases permit <;> cases next <;> rfl

/-- The permit a request holds. -/
def CallStage.permit : CallStage → Option ℕ
  | .electing _ _ permit | .spawning _ permit | .dropping permit _ => some permit
  | .waiting _ _ _ permit | .retiring _ _ _ permit => permit
  | _ => none

/-- The source a settlement was spawned for. -/
def Work.sourceId : Work → SourceId
  | .leader _ _ d | .keyless d => d.id
  | .stop sourceId | .restart sourceId => sourceId

section
variable (canonicalize : Path → Option Path)

/-- The source that the permit of a request is for, while a settlement may come of it. -/
def CallStage.asked (request : Request) : CallStage → Option SourceId
  | .electing d _ _ => some d.id
  | .spawning work _ => some (workOf canonicalize request work).sourceId
  | _ => none

/-- What a step of a request does to the gate. -/
inductive CallGate (g g' : LifecycleState) (call : Call) (stage : CallStage) : Prop
  | same (gate : g' = g) (permit : stage.permit = call.stage.permit)
      (h : ∀ work permit, call.stage ≠ .spawning work permit)
      (asked : ∀ sourceId, stage.asked canonicalize call.request = some sourceId →
        call.stage.asked canonicalize call.request = some sourceId)
  | enters {sourceId : SourceId} {permit : ℕ} (before : call.stage.permit = none)
      (gate : g.tryEnter sourceId = .ok (permit, g')) (after : stage.permit = some permit)
      (asked : stage.asked canonicalize call.request = some sourceId)
  | spawns {work : Option (SourceDefinition × AdmissionKey × ℕ)} {permit task : ℕ}
      (h : call.stage = .spawning work permit) (gate : g' = g)
      (after : stage = .attaching work permit task)
  | attaches {work : Option (SourceDefinition × AdmissionKey × ℕ)} {permit task : ℕ}
      (h : call.stage = .attaching work permit task)
      (gate : g' = g.attachSettlement permit task) (after : stage.permit = none)
      (asked : stage.asked canonicalize call.request = none)
  | leaves {permit : ℕ} {next : (SourceDefinition × AdmissionKey) ⊕ Result Reply}
      (h : call.stage = .dropping permit next) (gate : g' = g.dropPermit permit) (after : stage.permit = none)
      (asked : stage.asked canonicalize call.request = none)

/-- The stages of a request that may follow, and why. -/
inductive CallNext (w : World) (call : Call) : CallStage → Prop
  | refuse {reason : String} : CallNext w call (.done (.error reason))
  | enter {definition : SourceDefinition} {key : AdmissionKey} (h : call.stage = .arrived)
      (asked : call.request = .start definition)
      (keyed : admissionKey canonicalize (canonicalizeDefinition canonicalize definition)
        = .ok (some key)) :
      CallNext w call (.entering (canonicalizeDefinition canonicalize definition) key)
  | detach {permit : ℕ} (h : call.stage = .arrived)
      (unkeyed : ∀ definition, call.request = .start definition →
        admissionKey canonicalize (canonicalizeDefinition canonicalize definition) = .ok none)
      (work : ∀ definition, call.request ≠ .noteSessionMember definition) :
      CallNext w call (.spawning none permit)
  | note {definition : SourceDefinition} (h : call.stage = .arrived)
      (asked : call.request = .noteSessionMember definition) : CallNext w call (.noting definition)
  | elect {d : SourceDefinition} {key : AdmissionKey} {permit : ℕ}
      (h : call.stage = .entering d key) : CallNext w call (.electing d key permit)
  | join {d : SourceDefinition} {key : AdmissionKey} {permit share : ℕ}
      (h : call.stage = .electing d key permit) (reserved : w.starting.lookup key = some share) :
      CallNext w call (.waiting d key share (some permit))
  | lead {d : SourceDefinition} {key : AdmissionKey} {permit : ℕ}
      (h : call.stage = .electing d key permit) (free : w.starting.lookup key = none) :
      CallNext w call (.spawning (some (d, key, w.shares.length)) permit)
  | spawn {work : Option (SourceDefinition × AdmissionKey × ℕ)} {permit : ℕ}
      (h : call.stage = .spawning work permit) : CallNext w call (.attaching work permit w.tasks.length)
  | attachLeader {d : SourceDefinition} {key : AdmissionKey} {share permit task : ℕ}
      (h : call.stage = .attaching (some (d, key, share)) permit task) :
      CallNext w call (.waiting d key share none)
  | attach {permit task : ℕ} (h : call.stage = .attaching none permit task) :
      CallNext w call (.receiving task)
  | told {d : SourceDefinition} {key : AdmissionKey} {share : ℕ} {outcome : StartedOutcome}
      (h : call.stage = .waiting d key share none)
      (settled : w.shares[share]? = some (some (.settled outcome))) :
      CallNext w call (.done (.ok (.outcome outcome)))
  | presented {d : SourceDefinition} {key : AdmissionKey} {share permit : ℕ}
      {outcome : StartedOutcome} (h : call.stage = .waiting d key share (some permit))
      (settled : w.shares[share]? = some (some (.settled outcome))) :
      CallNext w call (.dropping permit (.inr (.ok (.outcome (.present outcome.sourceId)))))
  | failed {d : SourceDefinition} {key : AdmissionKey} {share : ℕ} {permit : Option ℕ}
      {reason : String} (h : call.stage = .waiting d key share permit) :
      CallNext w call (leaveStage permit (.inr (.error reason)))
  | retire {d : SourceDefinition} {key : AdmissionKey} {share : ℕ} {permit : Option ℕ}
      (h : call.stage = .waiting d key share permit) : CallNext w call (.retiring d key share permit)
  | received {i : ℕ} {task : Task} {reply : Result Reply} (h : call.stage = .receiving i)
      (settlement : w.tasks[i]? = some task) (sent : task.sent = some reply) :
      CallNext w call (.done reply)
  | again {d : SourceDefinition} {key : AdmissionKey} {share : ℕ} {permit : Option ℕ}
      (h : call.stage = .retiring d key share permit) :
      CallNext w call (leaveStage permit (.inl (d, key)))
  | leave {permit : ℕ} {next : (SourceDefinition × AdmissionKey) ⊕ Result Reply}
      (h : call.stage = .dropping permit next) : CallNext w call (leaveStage none next)
  | noted {d : SourceDefinition} {snapshot : List SourceDefinition} (h : call.stage = .noting d)
      (free : w.sessionLock = none) : CallNext w call (.writing snapshot (w.version + 1))
  | wrote {snapshot : List SourceDefinition} {version : ℕ} (h : call.stage = .writing snapshot version) :
      CallNext w call (.done (.ok .sessionNoted))

/-- What a step of a request does to the rest. -/
structure CallSpec (w w' : World) (c : ℕ) (call call' : Call) : Prop where
  calls : w'.calls = w.calls.set c call'
  request : call'.request = call.request
  next : CallNext canonicalize w call call'.stage
  tasks : w'.tasks = match call.stage with
    | .spawning work permit => w.tasks ++
      [⟨c, workOf canonicalize call.request work, permit, .spawned, false, false, false, none⟩]
    | _ => w.tasks
  shares : (w'.shares = w.shares ∧ call'.stage.isLeading = false) ∨
    (w'.shares = w.shares ++ [none] ∧ ∃ d key permit, call.stage = .electing d key permit ∧
      call'.stage = .spawning (some (d, key, w.shares.length)) permit)
  /-- A reservation is entered by the request that leads it. -/
  starting : ∀ key share, w'.starting.lookup key = some share →
    w.starting.lookup key = some share ∨
      (share = w.shares.length ∧ w'.shares = w.shares ++ [none] ∧
        ∃ d permit, call.stage = .electing d key permit ∧
          call'.stage = .spawning (some (d, key, share)) permit)
  gate : CallGate canonicalize w.gate w'.gate call call'.stage
  lifecycle : w'.lifecycle = w.lifecycle
  definitions : w'.definitions = w.definitions
  active : w'.active = w.active
  launches : w'.launches = w.launches
  metadata : w'.metadata = w.metadata
  managerClosed : w'.managerClosed = w.managerClosed
  shutdown : w'.shutdown = w.shutdown

end

variable {c : ℕ} {call : Call} {sourceId : SourceId}

theorem CallGate.closed {g g' : LifecycleState} {stage : CallStage}
    (h : CallGate canonicalize g g' call stage) : g'.closed = g.closed := by
  cases h with
  | same h => rw [h]
  | spawns _ h => rw [h]
  | enters _ h => obtain ⟨_, _, _, rfl⟩ := LifecycleState.tryEnter_ok h; rfl
  | attaches _ h => rw [h, LifecycleState.attachSettlement_closed]
  | leaves _ h => rw [h, LifecycleState.dropPermit_closed]

theorem CallSpec.closed {call' : Call} (h : CallSpec canonicalize w w' c call call') :
    w'.gate.closed = w.gate.closed := h.gate.closed

@[simp] theorem leaveStage_permit (permit : Option ℕ)
    (next : (SourceDefinition × AdmissionKey) ⊕ Result Reply) :
    (leaveStage permit next).permit = permit := by
  cases permit <;> cases next <;> rfl

@[simp] theorem leaveStage_asked (permit : Option ℕ)
    (next : (SourceDefinition × AdmissionKey) ⊕ Result Reply) (request : Request) :
    (leaveStage permit next).asked canonicalize request = none := by
  cases permit <;> cases next <;> rfl

theorem enter_cases (w : World) (c : ℕ) (call : Call) (sourceId : SourceId) (next : ℕ → CallStage) :
    (∃ reason, enter w c call sourceId next = w.call c call (.done (.error reason))) ∨
      ∃ permit gate, w.gate.tryEnter sourceId = .ok (permit, gate) ∧
        enter w c call sourceId next = { w with gate }.call c call (next permit) := by
  unfold enter
  cases h : w.gate.tryEnter sourceId with
  | error reason => exact .inl ⟨reason, rfl⟩
  | ok entered => exact .inr ⟨entered.1, entered.2, rfl, rfl⟩

theorem callSpec_stage {gate : LifecycleState} {stage : CallStage}
    (hspawn : ∀ work permit, call.stage ≠ .spawning work permit)
    (hgate : CallGate canonicalize w.gate gate call stage) (hnext : CallNext canonicalize w call stage)
    (hlead : stage.isLeading = false) :
    ∃ call', CallSpec canonicalize w ({ w with gate }.call c call stage) c call call' := by
  refine ⟨{ call with stage }, rfl, rfl, hnext, ?_, .inl ⟨rfl, hlead⟩,
    fun _ _ => .inl, hgate, rfl, rfl, rfl, rfl, rfl, rfl, rfl⟩
  split
  · exact absurd ‹_› (hspawn _ _)
  · rfl

/-- A request that asks the gate for a permit. -/
theorem enter_spec {next : ℕ → CallStage} (hspawn : ∀ work permit, call.stage ≠ .spawning work permit)
    (hbefore : call.stage.permit = none) (hafter : ∀ permit, (next permit).permit = some permit)
    (hasked : ∀ permit, (next permit).asked canonicalize call.request = some sourceId)
    (hnext : ∀ permit, CallNext canonicalize w call (next permit))
    (hlead : ∀ permit, (next permit).isLeading = false) :
    ∃ call', CallSpec canonicalize w (enter w c call sourceId next) c call call' := by
  obtain ⟨reason, heq⟩ | ⟨permit, gate, hok, heq⟩ := enter_cases w c call sourceId next
  · rw [heq]
    exact callSpec_stage hspawn (.same rfl hbefore.symm hspawn fun _ h => by cases h) .refuse rfl
  · rw [heq]
    exact callSpec_stage hspawn (.enters hbefore hok (hafter permit) (hasked permit)) (hnext permit)
      (hlead permit)

/-- The first step of a request. -/
theorem arriveStep_spec (hstage : call.stage = .arrived) :
    ∃ call', CallSpec canonicalize w (arriveStep canonicalize storeUnavailable w c call) c call
      call' := by
  have hspawn : ∀ work permit, call.stage ≠ .spawning work permit := by simp [hstage]
  have hbefore : call.stage.permit = none := by rw [hstage]; rfl
  have hsame : ∀ stage : CallStage, stage.permit = none → stage.asked canonicalize call.request = none →
      CallGate canonicalize w.gate w.gate call stage :=
    fun stage hp ha => .same rfl (hp.trans hbefore.symm) hspawn fun _ h => by rw [ha] at h; cases h
  unfold arriveStep
  cases hr : call.request with
  | start definition =>
    simp only
    split
    · exact callSpec_stage hspawn (hsame _ rfl rfl) .refuse rfl
    · split
      · exact callSpec_stage hspawn (hsame _ rfl rfl) .refuse rfl
      · rename_i key hkey
        exact callSpec_stage hspawn (hsame _ rfl rfl) (.enter hstage hr hkey) rfl
      · rename_i hkey
        refine enter_spec hspawn hbefore (fun _ => rfl) (fun _ => ?_)
          (fun permit => .detach hstage ?_ (by simp [hr])) fun _ => rfl
        · simp only [CallStage.asked, workOf, hr, Work.sourceId]
        · intro definition' heq
          obtain rfl := Request.start.inj (hr.symm.trans heq)
          exact hkey
  | stop sourceId | restart sourceId =>
    exact enter_spec hspawn hbefore (fun _ => rfl)
      (fun _ => by simp only [CallStage.asked, workOf, hr, Work.sourceId])
      (fun permit => .detach hstage (by simp [hr]) (by simp [hr])) fun _ => rfl
  | noteSessionMember definition =>
    cases storeUnavailable with
    | some reason => exact callSpec_stage hspawn (hsame _ rfl rfl) .refuse rfl
    | none => exact callSpec_stage hspawn (hsame _ rfl rfl) (.note hstage hr) rfl

/-- **What a step of a request does.** -/
theorem callStep_spec (h : callStep canonicalize storeUnavailable w c call answer = some w') :
    ∃ call', CallSpec canonicalize w w' c call call' := by
  obtain ⟨request, stage⟩ := call
  cases stage with
  | arrived =>
    cases answer <;> simp only [callStep, reduceCtorEq, Option.some.injEq] at h
    subst h
    exact arriveStep_spec rfl
  | entering d key =>
    cases answer <;> simp only [callStep, reduceCtorEq, Option.some.injEq] at h
    subst h
    exact enter_spec (by simp) rfl (fun _ => rfl) (fun _ => rfl) (fun permit => .elect rfl) fun _ => rfl
  | electing d key permit =>
    cases answer <;> simp only [callStep, reduceCtorEq] at h
    split at h <;> rename_i hreserved <;> cases h
    · exact callSpec_stage (by simp) (.same rfl rfl (by simp) fun _ h => by cases h) (.join rfl hreserved) rfl
    · refine ⟨_, rfl, rfl, .lead rfl hreserved, rfl, .inr ⟨rfl, _, _, _, rfl, rfl⟩, fun k share hk => ?_,
        .same rfl rfl (by simp) (fun _ => id), rfl, rfl, rfl, rfl, rfl, rfl, rfl⟩
      rw [show World.starting _ = w.starting.insert key w.shares.length from rfl,
        Dict.lookup_insert_eq] at hk
      split_ifs at hk with hkey
      · cases hk
        exact .inr ⟨rfl, rfl, d, permit, by rw [hkey], by rw [hkey]⟩
      · exact .inl hk
  | spawning work permit =>
    cases answer <;> simp only [callStep, reduceCtorEq, Option.some.injEq] at h
    subst h
    exact ⟨_, rfl, rfl, .spawn rfl, rfl, .inl ⟨rfl, rfl⟩, fun _ _ => .inl, .spawns rfl rfl rfl, rfl, rfl,
      rfl, rfl, rfl, rfl, rfl⟩
  | attaching work permit task =>
    cases answer <;> simp only [callStep, reduceCtorEq, Option.some.injEq] at h
    subst h
    cases work with
    | none =>
      exact callSpec_stage (by simp) (.attaches rfl rfl rfl rfl) (.attach rfl) rfl
    | some work =>
      exact callSpec_stage (by simp) (.attaches rfl rfl rfl rfl) (.attachLeader rfl) rfl
  | waiting d key share permit =>
    cases answer <;> simp only [callStep, reduceCtorEq] at h
    split at h
    · rename_i outcome hsettled
      cases permit with
      | none =>
        cases h
        exact callSpec_stage (by simp) (.same rfl rfl (by simp) fun _ h => by cases h) (.told rfl hsettled) rfl
      | some permit =>
        simp only at h
        split_ifs at h with hlive <;> cases h
        · exact callSpec_stage (by simp) (.same rfl rfl (by simp) fun _ h => by cases h) (.presented rfl hsettled) rfl
        · exact callSpec_stage (by simp) (.same rfl rfl (by simp) fun _ h => by cases h) (.retire rfl) rfl
    · cases h
      exact callSpec_stage (by simp) (.same rfl (leaveStage_permit _ _) (by simp) fun _ h => by simp at h) (.failed rfl)
        (leaveStage_isLeading _ _)
    · cases h
      exact callSpec_stage (by simp) (.same rfl rfl (by simp) fun _ h => by cases h) (.retire rfl) rfl
    · cases h
  | receiving i =>
    cases answer <;> simp only [callStep, reduceCtorEq] at h
    split at h
    · rename_i task htask
      split at h
      · rename_i reply hsent
        cases h
        exact callSpec_stage (by simp) (.same rfl rfl (by simp) fun _ h => by cases h) (.received rfl htask hsent) rfl
      · split_ifs at h
        cases h
        exact callSpec_stage (by simp) (.same rfl rfl (by simp) fun _ h => by cases h) .refuse rfl
    · cases h
  | retiring d key share permit =>
    cases answer <;> simp only [callStep, reduceCtorEq, Option.some.injEq] at h
    subst h
    refine ⟨_, rfl, rfl, .again rfl, rfl, .inl ⟨rfl, leaveStage_isLeading _ _⟩, fun k j hk => ?_,
      .same rfl (leaveStage_permit _ _) (by simp) (fun _ h => by simp at h), rfl, rfl, rfl, rfl, rfl, rfl, rfl⟩
    change (if w.starting.lookup key = some share then w.starting.erase key
      else w.starting).lookup k = some j at hk
    split_ifs at hk
    · rw [Dict.lookup_erase_eq] at hk
      split_ifs at hk
      exact .inl hk
    · exact .inl hk
  | dropping permit next =>
    cases answer <;> simp only [callStep, reduceCtorEq, Option.some.injEq] at h
    subst h
    exact callSpec_stage (by simp) (.leaves rfl rfl (leaveStage_permit _ _) (leaveStage_asked _ _ _))
      (.leave rfl) (leaveStage_isLeading _ _)
  | noting d =>
    cases answer <;> simp only [callStep, reduceCtorEq] at h
    by_cases hfree : w.sessionLock = none
    swap
    · rw [if_neg hfree] at h
      cases h
    rw [if_pos hfree] at h
    cases h
    exact ⟨_, rfl, rfl, .noted rfl hfree, rfl, .inl ⟨rfl, rfl⟩, fun _ _ => .inl,
      .same rfl rfl (by simp) (fun _ h => by cases h), rfl, rfl, rfl, rfl, rfl, rfl, rfl⟩
  | writing snapshot version =>
    cases answer with
    | io result =>
      simp only [callStep, Option.some.injEq] at h
      subst h
      cases result with
      | ok _ =>
        exact ⟨_, rfl, rfl, .wrote rfl, rfl, .inl ⟨rfl, rfl⟩, fun _ _ => .inl,
          .same rfl rfl (by simp) (fun _ h => by cases h), rfl, rfl, rfl, rfl, rfl, rfl, rfl⟩
      | error error =>
        exact ⟨_, rfl, rfl, .refuse, rfl, .inl ⟨rfl, rfl⟩, fun _ _ => .inl,
          .same rfl rfl (by simp) (fun _ h => by cases h), rfl, rfl, rfl, rfl, rfl, rfl, rfl⟩
    | _ => simp [callStep] at h
  | done reply | dropped => cases answer <;> simp [callStep] at h

theorem dropStep_spec (h : dropStep w c call = some w') :
    ∃ gate, w' = { w with gate }.call c call .dropped ∧
      ((gate = w.gate ∧ call.stage.permit = none) ∨
        ∃ permit, call.stage.permit = some permit ∧ gate = w.gate.dropPermit permit) := by
  obtain ⟨request, stage⟩ := call
  unfold dropStep at h
  split at h <;> cases h <;> rename_i hs <;> obtain rfl : stage = _ := hs
  · exact ⟨w.gate, rfl, .inl ⟨rfl, rfl⟩⟩
  · exact ⟨w.gate, rfl, .inl ⟨rfl, rfl⟩⟩
  · exact ⟨w.gate, rfl, .inl ⟨rfl, rfl⟩⟩
  · exact ⟨w.gate.dropPermit _, rfl, .inr ⟨_, rfl, rfl⟩⟩

variable {l : ℕ} {launch : Launch}

/-- What a step of the manager's start can do. -/
inductive LaunchEffect (w : World) (l : ℕ) (launch : Launch) : World → Prop
  | fail {error : String}
      (h : launch.stage = .preparing ∨ launch.stage = .acquiring ∨ launch.stage = .acquired) :
      LaunchEffect w l launch (w.launch l launch (.finished (.error error)))
  | prepare (h : launch.stage = .preparing) (willing : w.metadataRefusal launch.definition = none) :
      LaunchEffect w l launch ({ w with
        metadata := w.metadata.insert launch.definition.id launch.definition }.launch l launch
          .acquiring)
  | acquire (h : launch.stage = .acquiring) (opened : w.managerClosed = false)
      (awaited : awaited w l launch = true) :
      LaunchEffect w l launch (w.launch l launch .acquired)
  | check (h : launch.stage = .acquired) (opened : w.managerClosed = false)
      (awaited : awaited w l launch = true) : LaunchEffect w l launch (w.launch l launch .checked)
  | install {terminal : Bool} (h : launch.stage = .checked) :
      LaunchEffect w l launch ({ w with
        active := w.active.insert launch.definition.id ⟨launch.definition, terminal⟩ }.launch l
          launch .installed)
  | answer (h : launch.stage = .installed) :
      LaunchEffect w l launch (w.launch l launch (.finished (.ok ())))

/-- **What a step of a start of the manager does.** -/
theorem launchStep_effect (h : launchStep w l launch answer = some w') :
    LaunchEffect w l launch w' := by
  obtain ⟨d, task, stage⟩ := launch
  cases stage with
  | preparing =>
    cases answer with
    | io result =>
      cases result with
      | error error =>
        obtain rfl := Option.some.inj (show some _ = some w' from h)
        exact .fail (by simp)
      | ok _ =>
        simp only [launchStep] at h
        split at h <;> rename_i hwilling <;> cases h
        · exact .fail (by simp)
        · exact .prepare rfl hwilling
    | _ => simp [launchStep] at h
  | acquiring =>
    cases answer with
    | io result =>
      simp only [launchStep] at h
      split_ifs at h with hgone
      · cases h
        exact .fail (by simp)
      · cases result with
        | error error =>
          obtain rfl := Option.some.inj (show some _ = some w' from h)
          exact .fail (by simp)
        | ok _ =>
          obtain rfl := Option.some.inj (show some _ = some w' from h)
          exact .acquire rfl (by simpa using (not_or.1 hgone).1) (by simpa using (not_or.1 hgone).2)
    | _ => simp [launchStep] at h
  | acquired =>
    cases answer <;> simp only [launchStep, reduceCtorEq] at h
    split_ifs at h with hgone <;> cases h
    · exact .fail (by simp)
    · exact .check rfl (by simpa using (not_or.1 hgone).1) (by simpa using (not_or.1 hgone).2)
  | checked =>
    cases answer with
    | ended terminal =>
      obtain rfl := Option.some.inj (show some _ = some w' from h)
      exact .install rfl
    | _ => simp [launchStep] at h
  | installed =>
    cases answer <;> simp only [launchStep, reduceCtorEq, Option.some.injEq] at h
    subst h
    exact .answer rfl
  | finished result => cases answer <;> simp [launchStep] at h

/-- Shutdown has closed the gate. -/
def Shutdown.past : Shutdown → Bool
  | .idle | .flagged => false
  | _ => true

/-- What a step of shutdown does to the rest. -/
structure ShutdownSpec (w w' : World) : Prop where
  calls : w'.calls = w.calls
  shares : w'.shares = w.shares
  starting : w'.starting = w.starting
  lifecycle : w'.lifecycle = w.lifecycle
  definitions : w'.definitions = w.definitions
  active : w'.active = w.active
  launches : w'.launches = w.launches
  metadata : w'.metadata = w.metadata
  gate : w'.gate = w.gate ∨ (w.shutdown = .flagged ∧ w'.gate = w.gate.close)
  past : w'.shutdown.past = true → w.shutdown.past = true ∨ w'.gate.closed = true
  /-- A settlement is aborted by its handle, and nothing else happens to one. -/
  tasks : w'.tasks = w.tasks ∨ ∃ failed handles t task, w.shutdown = .cancelling failed (t :: handles) ∧
    w.tasks[t]? = some task ∧ w'.tasks = w.tasks.set t { task with cancelled := true }

theorem shutdownSpec_goto {stage : Shutdown} (h : stage.past = true → w.shutdown.past = true) :
    ShutdownSpec w { w with shutdown := stage } :=
  ⟨rfl, rfl, rfl, rfl, rfl, rfl, rfl, rfl, .inl rfl, fun hp => .inl (h hp), .inl rfl⟩

theorem ShutdownSpec.closed (h : ShutdownSpec w w') (hclosed : w.gate.closed = true) :
    w'.gate.closed = true := by
  obtain h | ⟨-, h⟩ := h.gate
  · rw [h, hclosed]
  · rw [h]; rfl

/-- **What a step of shutdown does.** -/
theorem shutdownStep_spec {expire : Bool} (h : shutdownStep w expire answer = some w') :
    ShutdownSpec w w' := by
  cases hs : w.shutdown with
  | flagged =>
    cases answer <;> simp only [shutdownStep, hs, reduceCtorEq, Option.some.injEq] at h
    subst h
    exact ⟨rfl, rfl, rfl, rfl, rfl, rfl, rfl, rfl, .inr ⟨hs, rfl⟩, fun _ => .inr rfl, .inl rfl⟩
  | cancelling failed handles =>
    cases answer <;> cases handles <;> simp only [shutdownStep, hs, reduceCtorEq] at h
    · cases h
      exact shutdownSpec_goto fun _ => by rw [hs]; rfl
    · rename_i t handles
      split at h <;> cases h
      · rename_i task htask
        exact ⟨rfl, rfl, rfl, rfl, rfl, rfl, rfl, rfl, .inl rfl,
          fun _ => .inl (by rw [hs]; rfl), .inr ⟨failed, handles, t, task, hs, htask, rfl⟩⟩
      · exact shutdownSpec_goto fun _ => by rw [hs]; rfl
  | stopping failed handles reports =>
    cases answer <;> cases handles <;>
      simp only [shutdownStep, hs, reduceCtorEq, Option.some.injEq] at h <;> subst h <;>
      exact shutdownSpec_goto fun _ => by rw [hs]; rfl
  | draining | redraining failed | waiting failed =>
    cases answer <;> simp only [shutdownStep, hs, reduceCtorEq] at h
    split_ifs at h <;> cases h <;> exact shutdownSpec_goto fun _ => by rw [hs]; rfl
  | unbinding failed | closing failed =>
    cases answer <;> simp only [shutdownStep, hs, reduceCtorEq, Option.some.injEq] at h
    subst h
    exact ⟨rfl, rfl, rfl, rfl, rfl, rfl, rfl, rfl, .inl rfl, fun _ => .inl (by rw [hs]; rfl),
      .inl rfl⟩
  | returned reports => cases answer <;> simp [shutdownStep, hs] at h
  | idle =>
    cases answer <;> simp only [shutdownStep, hs, reduceCtorEq, Option.some.injEq] at h
    subst h
    exact shutdownSpec_goto (by simp [Shutdown.past])
  | aborting | expired failed | collecting failed startsFinished | listing failed handles =>
    cases answer <;> simp only [shutdownStep, hs, reduceCtorEq, Option.some.injEq] at h
    subst h
    exact shutdownSpec_goto fun _ => by rw [hs]; rfl

theorem shutdownStep_session {expire : Bool} (h : shutdownStep w expire answer = some w') :
    w'.session = w.session ∧ w'.version = w.version ∧ w'.writes = w.writes ∧
      w'.manifest = w.manifest := by
  unfold shutdownStep at h
  (repeat' split at h) <;> cases h <;> exact ⟨rfl, rfl, rfl, rfl⟩

/-! ### Steps -/

theorem set_cases {α : Type} {l : List α} {i j : ℕ} {a b : α} (h : (l.set i a)[j]? = some b) :
    j = i ∧ b = a ∨ j ≠ i ∧ l[j]? = some b := by
  rw [getElem?_set] at h
  split_ifs at h with hij
  · exact .inl ⟨hij.symm, (Option.some.inj h).symm⟩
  · exact .inr ⟨Ne.symm hij, h⟩

theorem TaskSpec.task_at {canonicalize : Path → Option Path} {storeUnavailable : Option String}
    {w w' : World} {t i : ℕ} {task task' task₁ : Task}
    (h : TaskSpec canonicalize storeUnavailable w w' t task task') (hi : w'.tasks[i]? = some task₁) :
    i = t ∧ task₁ = task' ∨ i ≠ t ∧ w.tasks[i]? = some task₁ := set_cases (h.tasks ▸ hi)

theorem CallSpec.call_at {canonicalize : Path → Option Path} {w w' : World} {c i : ℕ}
    {call call' call₁ : Call} (h : CallSpec canonicalize w w' c call call')
    (hi : w'.calls[i]? = some call₁) :
    i = c ∧ call₁ = call' ∨ i ≠ c ∧ w.calls[i]? = some call₁ := set_cases (h.calls ▸ hi)

theorem append_cases {α : Type} {l : List α} {j : ℕ} {a b : α} (h : (l ++ [a])[j]? = some b) :
    j = l.length ∧ b = a ∨ l[j]? = some b := by
  rw [getElem?_append] at h
  split_ifs at h with hj
  · exact .inr h
  · obtain ⟨hlt, rfl⟩ := List.getElem?_eq_some_iff.1 h
    have : j - l.length = 0 := by simpa using hlt
    exact .inl ⟨by omega, by simp [this]⟩

/-- What the steps of others leave of a settlement: all but its flags, and its stage unless it is
torn down. -/
structure Task.Rests (task task' : Task) : Prop where
  call : task'.call = task.call
  work : task'.work = task.work
  sent : task'.sent = task.sent
  permit : task'.permit = task.permit
  begun : task'.begun = task.begun
  stage : task'.stage = task.stage ∨ task.stage.awaits = true ∧ task'.stage = .leaving

/-- What a step does that is no step of a request or a settlement: both stay where they are, but
for a request that is new or dropped and a settlement that is torn down. -/
structure Aside (w w' : World) : Prop where
  definitions : w'.definitions = w.definitions
  session : w'.session = w.session ∧ w'.version = w.version ∧ w'.writes = w.writes ∧
    w'.manifest = w.manifest
  shares : w'.shares.length = w.shares.length
  settled : ∀ (s : ℕ) (outcome : StartedOutcome), w'.shares[s]? = some (some (.settled outcome)) →
    w.shares[s]? = some (some (.settled outcome))
  starting : ∀ key share, w'.starting.lookup key = some share → w.starting.lookup key = some share
  closed : w.gate.closed = true → w'.gate.closed = true
  launches : w'.launches.map (·.task) = w.launches.map (·.task)
  length : w'.tasks.length = w.tasks.length
  tasks : ∀ (i : ℕ) (task' : Task), w'.tasks[i]? = some task' →
    ∃ task, w.tasks[i]? = some task ∧ task.Rests task'
  calls : ∀ (c : ℕ) (call : Call), w'.calls[c]? = some call →
    w.calls[c]? = some call ∨ call.stage = .arrived ∨ call.stage = .dropped
  kept : ∀ (c : ℕ) (call : Call), w.calls[c]? = some call →
    ∃ call', w'.calls[c]? = some call' ∧
      (call' = call ∨ call'.stage = .dropped ∧ (dropStep w c call).isSome = true)

theorem Task.Rests.refl (task : Task) : task.Rests task := ⟨rfl, rfl, rfl, rfl, rfl, .inl rfl⟩

theorem Aside.back (h : Aside w w') {i : ℕ} (hi : w.tasks[i]? = some task) :
    ∃ task', w'.tasks[i]? = some task' ∧ task.Rests task' := by
  have hlt : i < w'.tasks.length := h.length ▸ (List.getElem?_eq_some_iff.1 hi).1
  obtain ⟨task₁, hi', hrests⟩ := h.tasks i _ (getElem?_eq_getElem hlt)
  cases hi.symm.trans hi'
  exact ⟨_, getElem?_eq_getElem hlt, hrests⟩

theorem Aside.settlement (h : Aside w w') {i : ℕ} {task' : Task} (hi : w'.tasks[i]? = some task') :
    ∃ task, w.tasks[i]? = some task ∧ task'.work = task.work ∧ task'.sent = task.sent ∧
      (task'.stage = task.stage ∨ task'.stage = .leaving) := by
  obtain ⟨task, hi, hrests⟩ := h.tasks i task' hi
  exact ⟨task, hi, hrests.work, hrests.sent, hrests.stage.imp_right And.right⟩

/-- A step that touches neither requests nor reservations, and one settlement at most. -/
theorem aside_of (hdefinitions : w'.definitions = w.definitions)
    (hsession : w'.session = w.session ∧ w'.version = w.version ∧ w'.writes = w.writes ∧
      w'.manifest = w.manifest) (hcalls : w'.calls = w.calls)
    (hshares : w'.shares = w.shares) (hstarting : w'.starting = w.starting)
    (hclosed : w.gate.closed = true → w'.gate.closed = true)
    (hlaunches : w'.launches.map (·.task) = w.launches.map (·.task))
    (htasks : w'.tasks = w.tasks ∨ ∃ t task task', w.tasks[t]? = some task ∧ task.Rests task' ∧
      w'.tasks = w.tasks.set t task') : Aside w w' := by
  refine ⟨hdefinitions, hsession, by rw [hshares], fun _ _ => hshares ▸ id, fun _ _ => hstarting ▸ id, hclosed,
    hlaunches, ?_, ?_, fun _ _ => hcalls ▸ .inl, fun c call hc => ⟨call, hcalls ▸ hc, .inl rfl⟩⟩
  · obtain h | ⟨t, task, task', -, -, h⟩ := htasks <;> rw [h]
    exact length_set
  · intro i task₁ hi
    obtain h | ⟨t, task, task', ht, hrests, h⟩ := htasks <;> rw [h] at hi
    · exact ⟨task₁, hi, .refl _⟩
    · obtain ⟨rfl, rfl⟩ | ⟨-, hi⟩ := set_cases hi
      · exact ⟨task, ht, hrests⟩
      · exact ⟨task₁, hi, .refl _⟩

theorem launches_effect (hl : w.launches[l]? = some launch) (h : LaunchEffect w l launch w') :
    w'.launches.map (·.task) = w.launches.map (·.task) := by
  have hset : ∀ stage, (w.launches.set l { launch with stage }).map (·.task) =
      w.launches.map (·.task) := by
    intro stage
    refine ext_getElem? fun i => ?_
    rw [getElem?_map, getElem?_map]
    by_cases hil : l = i
    · subst hil
      rw [getElem?_set_self (List.getElem?_eq_some_iff.1 hl).1, hl]
      rfl
    · rw [getElem?_set_ne hil]
  cases h <;> exact hset _

/-- The steps that are no request's and no settlement's own are aside. -/
theorem aside_of_step {e : Event} (h : step canonicalize storeUnavailable w e = some w')
    (hcall : ∀ c answer, e ≠ .call c answer) (htask : ∀ t answer, e ≠ .task t answer) :
    Aside w w' := by
  cases e with
  | call c answer => exact absurd rfl (hcall _ _)
  | task t answer => exact absurd rfl (htask _ _)
  | request request =>
    cases h
    refine ⟨rfl, ⟨rfl, rfl, rfl, rfl⟩, rfl, fun _ _ => id, fun _ _ => id, id, rfl, rfl,
      fun i task hi => ⟨task, hi, .refl _⟩, fun c call hc => ?_, fun c call hc => ?_⟩
    · obtain ⟨-, rfl⟩ | hc := append_cases hc
      · exact .inr (.inl rfl)
      · exact .inl hc
    · exact ⟨call, by rw [getElem?_append_left (List.getElem?_eq_some_iff.1 hc).1, hc], .inl rfl⟩
  | drop c =>
    obtain ⟨call, hc, hdrop⟩ := Option.bind_eq_some_iff.1 h
    obtain ⟨gate, rfl, hgate⟩ := dropStep_spec hdrop
    have hclosed : gate.closed = w.gate.closed := by
      obtain ⟨rfl, -⟩ | ⟨_, -, rfl⟩ := hgate <;> rfl
    refine ⟨rfl, ⟨rfl, rfl, rfl, rfl⟩, rfl, fun _ _ => id, fun _ _ => id, hclosed.trans, rfl, rfl,
      fun i task hi => ⟨task, hi, .refl _⟩, fun i call₁ hi => ?_, fun i call₁ hi => ?_⟩
    · obtain ⟨rfl, rfl⟩ | ⟨-, hi⟩ := set_cases hi
      · exact .inr (.inr rfl)
      · exact .inl hi
    · by_cases hci : c = i
      · subst hci
        cases hi.symm.trans hc
        exact ⟨_, getElem?_set_self (List.getElem?_eq_some_iff.1 hi).1,
          .inr ⟨rfl, by rw [hdrop]; rfl⟩⟩
      · exact ⟨call₁, (getElem?_set_ne hci).trans hi, .inl rfl⟩
  | tear t =>
    obtain ⟨task, ht, h⟩ := Option.bind_eq_some_iff.1 h
    obtain ⟨-, hawaits, htasks, -, heq, hsettled⟩ := tearStep_spec h
    obtain ⟨hshares, hstarting⟩ := tearStep_guard h
    have haside : Aside w { w with tasks := w'.tasks } :=
      aside_of rfl ⟨rfl, rfl, rfl, rfl⟩ rfl rfl rfl id rfl
        (.inr ⟨t, task, { task with torn := true, stage := .leaving }, ht,
          ⟨rfl, rfl, rfl, rfl, rfl, .inr ⟨hawaits, rfl⟩⟩, htasks⟩)
    exact ⟨by rw [heq], by rw [heq]; exact ⟨rfl, rfl, rfl, rfl⟩, hshares, hsettled, hstarting,
      by rw [heq]; exact id, by rw [heq], haside.length, haside.tasks,
      by rw [heq]; exact haside.calls, by rw [heq]; exact haside.kept⟩
  | launch l answer =>
    obtain ⟨launch, hl, h⟩ := Option.bind_eq_some_iff.1 h
    have heff := launchStep_effect h
    have hlaunches := launches_effect hl heff
    cases heff <;> exact aside_of rfl ⟨rfl, rfl, rfl, rfl⟩ rfl rfl rfl id hlaunches (.inl rfl)
  | ended sourceId =>
    replace h : endStep w sourceId = some w' := h
    unfold endStep at h
    split at h <;> cases h
    exact aside_of rfl ⟨rfl, rfl, rfl, rfl⟩ rfl rfl rfl id rfl (.inl rfl)
  | requestShutdown =>
    cases h
    exact aside_of rfl ⟨rfl, rfl, rfl, rfl⟩ rfl rfl rfl (fun _ => rfl) rfl (.inl rfl)
  | shutdown expire answer =>
    have hspec := shutdownStep_spec h
    refine aside_of hspec.definitions (shutdownStep_session h) hspec.calls hspec.shares hspec.starting
      hspec.closed (by rw [hspec.launches]) (hspec.tasks.imp_right ?_)
    rintro ⟨_, _, t, task, -, ht, htasks⟩
    exact ⟨t, task, { task with cancelled := true }, ht, ⟨rfl, rfl, rfl, rfl, rfl, .inl rfl⟩, htasks⟩

theorem CallSpec.spawned {call' : Call} (h : CallSpec canonicalize w w' c call call') {i : ℕ}
    (hi : w'.tasks[i]? = some task) : w.tasks[i]? = some task ∨
      ∃ work permit, call.stage = .spawning work permit ∧ i = w.tasks.length ∧
        task = ⟨c, workOf canonicalize call.request work, permit, .spawned, false, false, false,
          none⟩ := by
  rw [h.tasks] at hi
  split at hi
  · rename_i work permit hs
    obtain ⟨rfl, rfl⟩ | hi := append_cases hi
    · exact .inr ⟨work, permit, hs, rfl, rfl⟩
    · exact .inl hi
  · exact .inl hi

theorem CallSpec.back {call' : Call} (h : CallSpec canonicalize w w' c call call') {i : ℕ}
    (hi : w.tasks[i]? = some task) : w'.tasks[i]? = some task := by
  rw [h.tasks]
  split
  · rw [getElem?_append_left (List.getElem?_eq_some_iff.1 hi).1, hi]
  · exact hi

/-- **What a step does**: a request's or a settlement's own, or one aside. -/
theorem step_spec {e : Event} (h : step canonicalize storeUnavailable w e = some w') :
    (∃ c answer call call', e = .call c answer ∧ w.calls[c]? = some call ∧
      callStep canonicalize storeUnavailable w c call answer = some w' ∧
      CallSpec canonicalize w w' c call call') ∨
    (∃ t answer task task', e = .task t answer ∧ w.tasks[t]? = some task ∧
      taskStep canonicalize storeUnavailable w t task answer = some w' ∧
      TaskSpec canonicalize storeUnavailable w w' t task task') ∨
    Aside w w' := by
  cases e with
  | call c answer =>
    obtain ⟨call, hc, h⟩ := Option.bind_eq_some_iff.1 h
    obtain ⟨call', hspec⟩ := callStep_spec h
    exact .inl ⟨c, answer, call, call', rfl, hc, h, hspec⟩
  | task t answer =>
    obtain ⟨task, ht, h⟩ := Option.bind_eq_some_iff.1 h
    obtain ⟨task', hspec⟩ := taskStep_spec h
    exact .inr (.inl ⟨t, answer, task, task', rfl, ht, h, hspec⟩)
  | _ => exact .inr (.inr (aside_of_step h nofun nofun))

end Lvu.Shared.Lifecycle
