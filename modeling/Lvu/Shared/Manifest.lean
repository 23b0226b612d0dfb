import Lvu.Shared.Replies

/-!
# The session and its manifest

A start, a stop and a note each change the session under its lock and take a snapshot of it for
the manifest.  A start keeps the lock while it writes; the other two write after they have released
it, so that a snapshot may reach the file when a later one has.

* `InOrder` : the condition that no snapshot reaches the file after a later one.
* `Snapshots` : what the snapshots that were taken say of the session and of the file.
* `Told` : what was acknowledged was done.
* `manifest_follows_session` : in every run that meets the condition, once the newest snapshot is
  stored the file is the session, and the session is what was acknowledged.
-/

namespace Lvu.Shared.Lifecycle

open List

/-- The snapshot a settlement is about to write, and its number. -/
def Stage.snapshot : Stage → Option (List SourceDefinition × ℕ)
  | .storing _ snapshot version | .forgotten _ snapshot version => some (snapshot, version)
  | _ => none

/-- The snapshot a request is about to write. -/
def CallStage.snapshot : CallStage → Option (List SourceDefinition × ℕ)
  | .writing snapshot version => some (snapshot, version)
  | _ => none

/-- The snapshot that a step writes, if it writes one. -/
def World.writing (w : World) : Event → Option (List SourceDefinition × ℕ)
  | .task t (.io (.ok _)) => (w.tasks[t]?).bind (·.stage.snapshot)
  | .call c (.io (.ok _)) => (w.calls[c]?).bind (·.stage.snapshot)
  | _ => none

/-- No snapshot reaches the file after a later one. -/
def InOrder (w : World) (e : Event) : Prop :=
  ∀ snapshot version, w.writing e = some (snapshot, version) →
    ∀ later, (later, true) ∈ w.writes → later ≤ version

/-- The newest snapshot of the session has reached the file: so it has when no start, stop or note
is in progress and the last write of each has succeeded. -/
def Stored (w : World) : Prop := (w.version, true) ∈ w.writes

/-- The step makes a source a member of the session. -/
def Adds (id : SourceId) (w : World) : Event → Prop
  | .task t _ => ∃ task d, w.tasks[t]? = some task ∧ task.stage = .publishing d ∧ d.id = id
  | .call c _ => ∃ call d, w.calls[c]? = some call ∧ call.stage = .noting d ∧ d.id = id
  | _ => False

/-- The step drops a source from the session. -/
def Removes (id : SourceId) (w : World) : Event → Prop
  | .task t _ => ∃ task, w.tasks[t]? = some task ∧ task.stage = .forgetting id
  | _ => False

/-- What a step does to the session and to its file, by the snapshots its party has to write. -/
inductive SessionStep (storeUnavailable : Option String) (w w' : World) (answer : Answer) :
    Option (List SourceDefinition × ℕ) → Option (List SourceDefinition × ℕ) → Prop
  | same (session : w'.session = w.session) (version : w'.version = w.version)
      (writes : w'.writes = w.writes) (manifest : w'.manifest = w.manifest) :
      SessionStep storeUnavailable w w' answer none none
  | took (version : w'.version = w.version + 1) (writes : w'.writes = w.writes)
      (manifest : w'.manifest = w.manifest) :
      SessionStep storeUnavailable w w' answer none (some (w'.session, w'.version))
  /-- A start that is not to be stored. -/
  | kept (lost : storeUnavailable ≠ none) (version : w'.version = w.version + 1)
      (writes : w'.writes = w.writes) (manifest : w'.manifest = w.manifest) :
      SessionStep storeUnavailable w w' answer none none
  | stored {snapshot : List SourceDefinition} {version : ℕ} (h : answer = .io (.ok ()))
      (session : w'.session = w.session) (same : w'.version = w.version)
      (writes : w'.writes = w.writes ++ [(version, true)]) (manifest : w'.manifest = snapshot) :
      SessionStep storeUnavailable w w' answer (some (snapshot, version)) none
  | failed {snapshot : List SourceDefinition} {version : ℕ}
      (session : w'.session = w.session) (same : w'.version = w.version)
      (writes : w'.writes = w.writes ++ [(version, false)]) (manifest : w'.manifest = w.manifest) :
      SessionStep storeUnavailable w w' answer (some (snapshot, version)) none

/-- The session with a member noted. -/
def noteMember (session : List SourceDefinition) (d : SourceDefinition) : List SourceDefinition :=
  if session.any (·.id == d.id) then session else session ++ [d]

/-- The session after a step of a settlement. -/
def Stage.sessionAfter (session : List SourceDefinition) : Stage → List SourceDefinition
  | .publishing d => noteMember session d
  | .forgetting sourceId => session.filter (·.id ≠ sourceId)
  | _ => session

/-- The session after a step of a request. -/
def CallStage.sessionAfter (session : List SourceDefinition) : CallStage → List SourceDefinition
  | .noting d => noteMember session d
  | _ => session

variable {canonicalize : Path → Option Path} {storeUnavailable : Option String}
  {w w' : World} {t : ℕ} {task : Task} {answer : Answer} {c : ℕ} {call : Call}

/-- What a step of a settlement does to the session. -/
theorem taskStep_session (h : taskStep canonicalize storeUnavailable w t task answer = some w') :
    ∃ task', w'.tasks = w.tasks.set t task' ∧
      SessionStep storeUnavailable w w' answer task.stage.snapshot task'.stage.snapshot ∧
      w'.session = task.stage.sessionAfter w.session := by
  obtain ⟨call, work, permit, stage, begun, cancelled, torn, sent⟩ := task
  cases stage with
  | publishing d =>
    cases answer <;> simp only [taskStep, reduceCtorEq] at h
    split_ifs at h with hfree
    cases h
    unfold publishStarted
    cases storeUnavailable with
    | none => exact ⟨_, rfl, .took rfl rfl rfl, rfl⟩
    | some reason => exact ⟨_, rfl, .kept (by simp) rfl rfl rfl, rfl⟩
  | storing d snapshot version | forgotten sourceId snapshot version =>
    cases answer with
    | io result =>
      simp only [taskStep, Option.some.injEq] at h
      subst h
      cases result with
      | ok _ => exact ⟨_, rfl, .stored rfl rfl rfl rfl rfl, rfl⟩
      | error _ => exact ⟨_, rfl, .failed rfl rfl rfl rfl, rfl⟩
    | _ => simp [taskStep] at h
  | forgetting sourceId =>
    cases answer <;> simp only [taskStep, reduceCtorEq] at h
    split_ifs at h with hfree
    cases h
    exact ⟨_, rfl, .took rfl rfl rfl, rfl⟩
  | finished => cases answer <;> simp [taskStep] at h
  | held =>
    cases answer <;> simp only [taskStep, reduceCtorEq] at h
    split at h <;> cases h
    all_goals cases work <;> exact ⟨_, rfl, .same rfl rfl rfl rfl, rfl⟩
  | _ =>
    -- no other stage looks at the session
    cases answer <;> simp only [taskStep, reduceCtorEq] at h
    all_goals (repeat' split at h)
    all_goals cases h
    all_goals exact ⟨_, rfl, .same rfl rfl rfl rfl, rfl⟩

theorem enter_session {sourceId : SourceId} {next : ℕ → CallStage}
    (hnext : ∀ permit, (next permit).snapshot = none) :
    ∃ call', (enter w c call sourceId next).calls = w.calls.set c call' ∧
      SessionStep storeUnavailable w (enter w c call sourceId next) answer none call'.stage.snapshot ∧
      (enter w c call sourceId next).session = w.session := by
  obtain ⟨reason, heq⟩ | ⟨permit, gate, -, heq⟩ := enter_cases w c call sourceId next <;> rw [heq]
  · exact ⟨_, rfl, .same rfl rfl rfl rfl, rfl⟩
  · refine ⟨_, rfl, ?_, rfl⟩
    rw [hnext permit]
    exact .same rfl rfl rfl rfl

theorem leaveStage_snapshot (permit : Option ℕ)
    (next : (SourceDefinition × AdmissionKey) ⊕ Result Reply) :
    (leaveStage permit next).snapshot = none := by
  cases permit <;> cases next <;> rfl

/-- What a step of a request does to the session. -/
theorem callStep_session (h : callStep canonicalize storeUnavailable w c call answer = some w') :
    ∃ call', w'.calls = w.calls.set c call' ∧
      SessionStep storeUnavailable w w' answer call.stage.snapshot call'.stage.snapshot ∧
      w'.session = call.stage.sessionAfter w.session := by
  obtain ⟨request, stage⟩ := call
  have hleave : ∀ (v : World) permit next, v.session = w.session → v.version = w.version →
      v.writes = w.writes → v.manifest = w.manifest →
      SessionStep storeUnavailable w v answer none (leaveStage permit next).snapshot := by
    intro v permit next hs hv hw hm
    rw [leaveStage_snapshot]
    exact .same hs hv hw hm
  cases stage with
  | arrived =>
    cases answer <;> simp only [callStep, reduceCtorEq, Option.some.injEq] at h
    subst h
    unfold arriveStep
    split
    · split
      · exact ⟨_, rfl, .same rfl rfl rfl rfl, rfl⟩
      · simp only
        split
        · exact ⟨_, rfl, .same rfl rfl rfl rfl, rfl⟩
        · exact ⟨_, rfl, .same rfl rfl rfl rfl, rfl⟩
        · exact enter_session fun _ => rfl
    · exact enter_session fun _ => rfl
    · exact enter_session fun _ => rfl
    · split <;> exact ⟨_, rfl, .same rfl rfl rfl rfl, rfl⟩
  | entering d key =>
    cases answer <;> simp only [callStep, reduceCtorEq, Option.some.injEq] at h
    subst h
    exact enter_session fun _ => rfl
  | noting d =>
    cases answer <;> simp only [callStep, reduceCtorEq] at h
    by_cases hfree : w.sessionLock = none
    · rw [if_pos hfree] at h
      cases h
      exact ⟨_, rfl, .took rfl rfl rfl, rfl⟩
    · rw [if_neg hfree] at h
      cases h
  | writing snapshot version =>
    cases answer with
    | io result =>
      simp only [callStep, Option.some.injEq] at h
      subst h
      cases result with
      | ok _ => exact ⟨_, rfl, .stored rfl rfl rfl rfl rfl, rfl⟩
      | error _ => exact ⟨_, rfl, .failed rfl rfl rfl rfl, rfl⟩
    | _ => simp [callStep] at h
  | attaching work permit task =>
    cases answer <;> simp only [callStep, reduceCtorEq, Option.some.injEq] at h
    subst h
    cases work <;> exact ⟨_, rfl, .same rfl rfl rfl rfl, rfl⟩
  | done reply | dropped => cases answer <;> simp [callStep] at h
  | _ =>
    cases answer <;> simp only [callStep, reduceCtorEq] at h
    all_goals (repeat' split at h)
    all_goals cases h
    all_goals first
      | exact ⟨_, rfl, .same rfl rfl rfl rfl, rfl⟩
      | exact ⟨_, rfl, hleave _ _ _ rfl rfl rfl rfl, rfl⟩

/-! ### Snapshots -/

/-- Somebody has this snapshot to write. -/
def Pending (w : World) (snapshot : List SourceDefinition) (version : ℕ) : Prop :=
  (∃ (c : ℕ) (call : Call), w.calls[c]? = some call ∧ call.stage.snapshot = some (snapshot, version)) ∨
    ∃ (t : ℕ) (task : Task), w.tasks[t]? = some task ∧ task.stage.snapshot = some (snapshot, version)

/-- No start, stop or note has a snapshot to write. -/
def Quiet (w : World) : Prop := ∀ snapshot version, ¬ Pending w snapshot version

/-- What snapshots say: the newest is the session, and once it is stored the file is. -/
structure Snapshots (storeUnavailable : Option String) (w : World) : Prop where
  pending : ∀ snapshot version, Pending w snapshot version → version ≤ w.version ∧
    (version = w.version → snapshot = w.session)
  writes : ∀ version stored, (version, stored) ∈ w.writes → version ≤ w.version
  stored : Stored w → w.manifest = w.session
  written : storeUnavailable = none →
    (∃ stored, (w.version, stored) ∈ w.writes) ∨ ∃ snapshot, Pending w snapshot w.version

namespace Snapshots

/-- Somebody has written, or failed to write, the snapshot it had to write. -/
theorem wrote {snapshot : List SourceDefinition} {version : ℕ} {stored : Bool}
    (hinv : Snapshots storeUnavailable w) (hp : Pending w snapshot version)
    (hsession : w'.session = w.session) (hversion : w'.version = w.version)
    (hwrites : w'.writes = w.writes ++ [(version, stored)])
    (hback : ∀ snapshot version, Pending w' snapshot version → Pending w snapshot version)
    (hfore : ∀ snapshot later, Pending w snapshot later → Pending w' snapshot later ∨ later = version)
    (hstored : Stored w ∨ (w.version, true) = (version, stored) → w'.manifest = w'.session) :
    Snapshots storeUnavailable w' := by
  refine ⟨fun _ _ hp => ?_, fun later kept hmem => ?_, fun hs => hstored ?_, fun hs => ?_⟩
  · rw [hversion, hsession]; exact hinv.pending _ _ (hback _ _ hp)
  · rw [hwrites, mem_append, mem_singleton] at hmem
    rw [hversion]
    obtain hmem | heq := hmem
    · exact hinv.writes _ _ hmem
    · rw [(Prod.mk.inj heq).1]; exact (hinv.pending _ _ hp).1
  · unfold Stored at hs
    rwa [hwrites, hversion, mem_append, mem_singleton] at hs
  · rw [hwrites, hversion]
    obtain ⟨kept, hw⟩ | ⟨snapshot', hp⟩ := hinv.written hs
    · exact .inl ⟨kept, mem_append_left _ hw⟩
    · obtain hp | heq := hfore _ _ hp
      · exact .inr ⟨snapshot', hp⟩
      · exact .inl ⟨stored, by simp [heq]⟩

/-- A step of a party that has a snapshot to write before or after it. -/
theorem step_party {before after : Option (List SourceDefinition × ℕ)}
    (hinv : Snapshots storeUnavailable w) (h : SessionStep storeUnavailable w w' answer before after)
    (hbefore : ∀ snapshot version, before = some (snapshot, version) → Pending w snapshot version)
    (hafter : ∀ snapshot version, after = some (snapshot, version) → Pending w' snapshot version)
    (hback : ∀ snapshot version, Pending w' snapshot version →
      Pending w snapshot version ∨ after = some (snapshot, version))
    (hfore : ∀ snapshot version, Pending w snapshot version →
      Pending w' snapshot version ∨ before = some (snapshot, version))
    (horder : answer = .io (.ok ()) → ∀ snapshot version, before = some (snapshot, version) →
      ∀ later, (later, true) ∈ w.writes → later ≤ version) :
    Snapshots storeUnavailable w' := by
  cases h with
  | same hsession hversion hwrites hmanifest =>
    refine ⟨fun snapshot version hp => ?_, ?_, ?_, fun hs => ?_⟩
    · obtain hp | hp := hback snapshot version hp
      · rw [hversion, hsession]; exact hinv.pending snapshot version hp
      · cases hp
    · rw [hwrites, hversion]; exact hinv.writes
    · unfold Stored; rw [hwrites, hversion, hmanifest, hsession]; exact hinv.stored
    · rw [hwrites, hversion]
      obtain hw | ⟨snapshot, hp⟩ := hinv.written hs
      · exact .inl hw
      · exact .inr ⟨snapshot, (hfore _ _ hp).resolve_right nofun⟩
  | took hversion hwrites hmanifest =>
    have hnew : ∀ stored, (w'.version, stored) ∉ w'.writes := by
      intro stored hmem
      have := hinv.writes _ _ (hwrites ▸ hmem)
      omega
    refine ⟨fun snapshot version hp => ?_, fun version stored hmem => ?_, fun hs => ?_, fun hs => ?_⟩
    · obtain hp | hp := hback snapshot version hp
      · have := (hinv.pending snapshot version hp).1
        exact ⟨by omega, fun heq => by omega⟩
      · cases hp
        exact ⟨le_rfl, fun _ => rfl⟩
    · have := hinv.writes version stored (hwrites ▸ hmem)
      omega
    · exact absurd hs (hnew true)
    · exact .inr ⟨_, hafter _ _ rfl⟩
  | kept hlost hversion hwrites hmanifest =>
    refine ⟨fun snapshot version hp => ?_, fun version stored hmem => ?_, fun hs => ?_, fun hs => ?_⟩
    · obtain hp | hp := hback snapshot version hp
      · have := (hinv.pending snapshot version hp).1
        exact ⟨by omega, fun heq => by omega⟩
      · cases hp
    · have := hinv.writes version stored (hwrites ▸ hmem)
      omega
    · have := hinv.writes _ _ (hwrites ▸ (show (w'.version, true) ∈ w'.writes from hs))
      omega
    · exact absurd hs hlost
  | @stored snapshot version hanswer hsession hversion hwrites hmanifest =>
    have hp := hbefore _ _ rfl
    refine hinv.wrote hp hsession hversion hwrites (fun _ _ hp => (hback _ _ hp).resolve_right nofun)
      (fun _ _ hp => (hfore _ _ hp).imp_right fun heq => by cases heq; rfl) fun hs => ?_
    obtain ⟨hle, hnewest⟩ := hinv.pending _ _ hp
    rw [hmanifest, hsession]
    -- if the newest was stored already, this one is not older
    obtain hs | heq := hs
    · exact hnewest (le_antisymm hle (horder hanswer _ _ rfl _ hs))
    · exact hnewest (Prod.mk.inj heq).1.symm
  | @failed snapshot version hsession hversion hwrites hmanifest =>
    refine hinv.wrote (hbefore _ _ rfl) hsession hversion hwrites
      (fun _ _ hp => (hback _ _ hp).resolve_right nofun)
      (fun _ _ hp => (hfore _ _ hp).imp_right fun heq => by cases heq; rfl) fun hs => ?_
    rw [hmanifest, hsession]
    obtain hs | heq := hs
    · exact hinv.stored hs
    · cases (Prod.mk.inj heq).2

theorem frame (hinv : Snapshots storeUnavailable w) (hsession : w'.session = w.session)
    (hversion : w'.version = w.version) (hwrites : w'.writes = w.writes)
    (hmanifest : w'.manifest = w.manifest)
    (hpending : ∀ snapshot version, Pending w' snapshot version ↔ Pending w snapshot version) :
    Snapshots storeUnavailable w' :=
  hinv.step_party (.same hsession hversion hwrites hmanifest : SessionStep _ w w' .none _ _) nofun nofun
    (fun _ _ hp => .inl ((hpending _ _).1 hp)) (fun _ _ hp => .inl ((hpending _ _).2 hp)) nofun

/-- A step of a request. -/
theorem callStep {call' : Call} (hinv : Snapshots storeUnavailable w) (hc : w.calls[c]? = some call)
    (hcalls : w'.calls = w.calls.set c call')
    (htasks : ∀ (t : ℕ) (task : Task) x, task.stage.snapshot = some x →
      (w'.tasks[t]? = some task ↔ w.tasks[t]? = some task))
    (h : SessionStep storeUnavailable w w' answer call.stage.snapshot call'.stage.snapshot)
    (hC : InOrder w (.call c answer)) : Snapshots storeUnavailable w' := by
  have hset : ∀ i, w'.calls[i]? = if c = i then some call' else w.calls[i]? := by
    intro i
    rw [hcalls, getElem?_set]
    split_ifs with hci hlt
    · rfl
    · exact absurd (List.getElem?_eq_some_iff.1 hc).1 (hci ▸ hlt)
    · rfl
  refine hinv.step_party h (fun s v hs => .inl ⟨c, call, hc, hs⟩)
    (fun s v hs => .inl ⟨c, call', by rw [hset, if_pos rfl], hs⟩) ?_ ?_ ?_
  · rintro s v (⟨i, call₁, hi, hs⟩ | ⟨t, task, ht, hs⟩)
    · rw [hset] at hi
      split_ifs at hi with hci
      · cases hi
        exact .inr hs
      · exact .inl (.inl ⟨i, call₁, hi, hs⟩)
    · exact .inl (.inr ⟨t, task, (htasks t task _ hs).1 ht, hs⟩)
  · rintro s v (⟨i, call₁, hi, hs⟩ | ⟨t, task, ht, hs⟩)
    · by_cases hci : c = i
      · subst hci
        cases hi.symm.trans hc
        exact .inr hs
      · exact .inl (.inl ⟨i, call₁, by rw [hset, if_neg hci, hi], hs⟩)
    · exact .inl (.inr ⟨t, task, (htasks t task _ hs).2 ht, hs⟩)
  · rintro rfl s v hs
    exact hC s v (by simp only [World.writing, hc, Option.bind_some, hs])

/-- A step of a settlement. -/
theorem taskStep {task' : Task} (hinv : Snapshots storeUnavailable w) (ht : w.tasks[t]? = some task)
    (htasks : w'.tasks = w.tasks.set t task') (hcalls : w'.calls = w.calls)
    (h : SessionStep storeUnavailable w w' answer task.stage.snapshot task'.stage.snapshot)
    (hC : InOrder w (.task t answer)) : Snapshots storeUnavailable w' := by
  have hset : ∀ i, w'.tasks[i]? = if t = i then some task' else w.tasks[i]? := by
    intro i
    rw [htasks, getElem?_set]
    split_ifs with hti hlt
    · rfl
    · exact absurd (List.getElem?_eq_some_iff.1 ht).1 (hti ▸ hlt)
    · rfl
  refine hinv.step_party h (fun s v hs => .inr ⟨t, task, ht, hs⟩)
    (fun s v hs => .inr ⟨t, task', by rw [hset, if_pos rfl], hs⟩) ?_ ?_ ?_
  · rintro s v (⟨i, call, hi, hs⟩ | ⟨i, task₁, hi, hs⟩)
    · exact .inl (.inl ⟨i, call, hcalls ▸ hi, hs⟩)
    · rw [hset] at hi
      split_ifs at hi with hti
      · cases hi
        exact .inr hs
      · exact .inl (.inr ⟨i, task₁, hi, hs⟩)
  · rintro s v (⟨i, call, hi, hs⟩ | ⟨i, task₁, hi, hs⟩)
    · exact .inl (.inl ⟨i, call, hcalls ▸ hi, hs⟩)
    · by_cases hti : t = i
      · subst hti
        cases hi.symm.trans ht
        exact .inr hs
      · exact .inl (.inr ⟨i, task₁, by rw [hset, if_neg hti, hi], hs⟩)
  · rintro rfl s v hs
    exact hC s v (by simp only [World.writing, ht, Option.bind_some, hs])

theorem aside (hinv : Snapshots storeUnavailable w) (h : Aside w w') :
    Snapshots storeUnavailable w' := by
  obtain ⟨hsession, hversion, hwrites, hmanifest⟩ := h.session
  refine hinv.frame hsession hversion hwrites hmanifest fun snapshot version =>
    or_congr ⟨?_, ?_⟩ ⟨?_, ?_⟩
  · rintro ⟨i, call, hi, hs⟩
    obtain hi | hstage | hstage := h.calls i call hi
    · exact ⟨i, call, hi, hs⟩
    · rw [hstage] at hs; cases hs
    · rw [hstage] at hs; cases hs
  · -- a request that is dropped has no snapshot
    rintro ⟨i, call, hi, hs⟩
    obtain ⟨call', hi', rfl | ⟨-, hdrop⟩⟩ := h.kept i call hi
    · exact ⟨i, call', hi', hs⟩
    · unfold dropStep at hdrop
      split at hdrop <;> first | (rename_i hstage; rw [hstage] at hs; cases hs) | cases hdrop
  · rintro ⟨i, task', hi, hs⟩
    obtain ⟨task, hi, hrests⟩ := h.tasks i task' hi
    obtain hstage | ⟨-, hstage⟩ := hrests.stage
    · exact ⟨i, task, hi, hstage ▸ hs⟩
    · rw [hstage] at hs; cases hs
  · rintro ⟨i, task, hi, hs⟩
    obtain ⟨task', hi', hrests⟩ := h.back hi
    obtain hstage | ⟨hawaits, -⟩ := hrests.stage
    · exact ⟨i, task', hi', hstage ▸ hs⟩
    · cases hstage : task.stage <;> rw [hstage] at hs hawaits <;> cases hs <;> cases hawaits

theorem step {e : Event} (hinv : Snapshots storeUnavailable w) (hC : InOrder w e)
    (h : step canonicalize storeUnavailable w e = some w') : Snapshots storeUnavailable w' := by
  obtain ⟨c, answer, call, call', rfl, hc, hstep, hspec⟩ |
    ⟨t, answer, task, task', rfl, ht, hstep, hspec⟩ | haside := step_spec h
  · obtain ⟨call', hcalls, hsession, -⟩ := callStep_session hstep
    refine hinv.callStep hc hcalls (fun t task x hx => ?_) hsession hC
    refine ⟨fun ht => ?_, hspec.back⟩
    obtain ht | ⟨_, _, -, -, rfl⟩ := hspec.spawned ht
    · exact ht
    · cases hx
  · obtain ⟨task', hset, hsession, -⟩ := taskStep_session hstep
    exact hinv.taskStep ht hset hspec.calls hsession hC
  · exact hinv.aside haside

end Snapshots

/-! ### Members -/

/-- A source is a member of the session. -/
def Member (session : List SourceDefinition) (id : SourceId) : Prop := ∃ d ∈ session, d.id = id

theorem member_noteMember (session : List SourceDefinition) (d : SourceDefinition) (id : SourceId) :
    Member (noteMember session d) id ↔ Member session id ∨ d.id = id := by
  unfold noteMember Member
  split_ifs with hany
  · refine ⟨.inl, ?_⟩
    rintro (h | rfl)
    · exact h
    · obtain ⟨d', hd', heq⟩ := any_eq_true.1 hany
      exact ⟨d', hd', by simpa using heq⟩
  · simp only [mem_append, mem_singleton]
    constructor
    · rintro ⟨d', hd' | rfl, hid⟩
      · exact .inl ⟨d', hd', hid⟩
      · exact .inr hid
    · rintro (⟨d', hd', hid⟩ | hid)
      · exact ⟨d', .inl hd', hid⟩
      · exact ⟨d, .inr rfl, hid⟩

theorem member_filter (session : List SourceDefinition) (sourceId id : SourceId) :
    Member (session.filter (·.id ≠ sourceId)) id ↔ Member session id ∧ id ≠ sourceId := by
  unfold Member
  simp only [mem_filter, decide_eq_true_eq]
  constructor
  · rintro ⟨d, ⟨hd, hne⟩, rfl⟩
    exact ⟨⟨d, hd, rfl⟩, hne⟩
  · rintro ⟨⟨d, hd, rfl⟩, hne⟩
    exact ⟨d, ⟨hd, hne⟩, rfl⟩

/-- What a step does to the members of the session. -/
theorem step_members {e : Event} (h : step canonicalize storeUnavailable w e = some w')
    (id : SourceId) :
    Member w'.session id ↔ (Member w.session id ∧ ¬ Removes id w e) ∨ Adds id w e := by
  have hsame : ∀ e : Event, w'.session = w.session → ¬ Removes id w e → ¬ Adds id w e →
      (Member w'.session id ↔ (Member w.session id ∧ ¬ Removes id w e) ∨ Adds id w e) := by
    intro e hsession hremoves hadds
    rw [hsession, and_iff_left hremoves, or_iff_left hadds]
  cases e with
  | call c answer =>
    obtain ⟨call, hc, h⟩ := Option.bind_eq_some_iff.1 h
    obtain ⟨_, -, -, hsession⟩ := callStep_session h
    by_cases hnoting : ∃ d, call.stage = .noting d
    · obtain ⟨d, hs⟩ := hnoting
      rw [hsession, hs]
      refine (member_noteMember _ _ _).trans (or_congr (and_iff_left nofun).symm ⟨fun hid => ?_, ?_⟩)
      · exact ⟨call, d, hc, hs, hid⟩
      · rintro ⟨call', d', hc', hs', hid⟩
        cases hc.symm.trans hc'
        obtain rfl := CallStage.noting.inj (hs.symm.trans hs')
        exact hid
    · refine hsame _ ?_ nofun ?_
      · rw [hsession]
        cases hs : call.stage <;> first | rfl | exact absurd ⟨_, hs⟩ hnoting
      · rintro ⟨call', d, hc', hs, -⟩
        cases hc.symm.trans hc'
        exact hnoting ⟨d, hs⟩
  | task t answer =>
    obtain ⟨task, ht, h⟩ := Option.bind_eq_some_iff.1 h
    obtain ⟨_, -, -, hsession⟩ := taskStep_session h
    have hremoves : Removes id w (.task t answer) ↔ task.stage = .forgetting id := by
      constructor
      · rintro ⟨task', ht', hs⟩
        exact Option.some.inj (ht.symm.trans ht') ▸ hs
      · exact fun hs => ⟨task, ht, hs⟩
    have hadds : Adds id w (.task t answer) ↔ ∃ d, task.stage = .publishing d ∧ d.id = id := by
      constructor
      · rintro ⟨task', d, ht', hs, hid⟩
        exact ⟨d, Option.some.inj (ht.symm.trans ht') ▸ hs, hid⟩
      · rintro ⟨d, hs, hid⟩
        exact ⟨task, d, ht, hs, hid⟩
    rw [hsession, hremoves, hadds]
    cases hs : task.stage with
    | publishing d =>
      refine (member_noteMember _ _ _).trans (or_congr (by simp) ?_)
      simp only [Stage.publishing.injEq]
      exact ⟨fun hid => ⟨d, rfl, hid⟩, fun ⟨d', hd, hid⟩ => hd ▸ hid⟩
    | forgetting sourceId =>
      refine (member_filter _ _ _).trans ?_
      simp only [Stage.forgetting.injEq, reduceCtorEq, false_and, exists_false, or_false]
      exact and_congr_right fun _ => not_congr eq_comm
    | _ => simp [Stage.sessionAfter]
  | _ => exact hsame _ (aside_of_step h nofun nofun).session.1 nofun nofun

/-! ### Acknowledgements -/

/-- The source that an outcome says was started. -/
def StartedOutcome.startedId : StartedOutcome → Option SourceId
  | .started id _ | .stdinBound id _ => some id
  | .present _ => none

/-- The source that a settlement has published. -/
def Stage.started : Stage → Option SourceId
  | .storing d _ _ => some d.id
  | .settled (.ok outcome) => outcome.startedId
  | _ => none

/-- The source that a settlement stops. -/
def Stage.stops : Stage → Option SourceId
  | .unbinding id | .stopChecking id | .stopAwaiting id | .forgetting id | .forgotten id _ _ => some id
  | _ => none

/-- What a request is told, or is about to be. -/
def CallStage.replied : CallStage → Option Reply
  | .done (.ok reply) | .dropping _ (.inr (.ok reply)) => some reply
  | _ => none

/-- What a request was told was done. -/
def Acknowledged (added removed : SourceId → Prop) (request : Request) : Reply → Prop
  | .outcome outcome => ∀ id, outcome.startedId = some id → added id
  | .stopped => ∃ id, request = .stop id ∧ removed id
  | .sessionNoted => ∃ d, request = .noteSessionMember d ∧ added d.id

/-- What a settlement sent was done. -/
def SentTruly (added removed : SourceId → Prop) (work : Work) : Reply → Prop
  | .outcome outcome => ∀ id, outcome.startedId = some id → added id
  | .stopped => ∃ id, work = .stop id ∧ removed id
  | .sessionNoted => False

/-- What is said to have been done was done. -/
structure Told (canonicalize : Path → Option Path) (added removed : SourceId → Prop) (w : World) :
    Prop where
  noting : ∀ (c : ℕ) (call : Call) d, w.calls[c]? = some call → call.stage = .noting d →
    call.request = .noteSessionMember d
  writing : ∀ (c : ℕ) (call : Call) snapshot version, w.calls[c]? = some call →
    call.stage = .writing snapshot version → ∃ d, call.request = .noteSessionMember d ∧ added d.id
  receives : ∀ (c : ℕ) (call : Call) i, w.calls[c]? = some call → call.stage.receives = some i →
    ∃ task, w.tasks[i]? = some task ∧ task.work = workOf canonicalize call.request none
  stopping : ∀ (t : ℕ) (task : Task) id, w.tasks[t]? = some task → task.stage.stops = some id →
    task.work = .stop id
  forgotten : ∀ (t : ℕ) (task : Task) id snapshot version, w.tasks[t]? = some task →
    task.stage = .forgotten id snapshot version → removed id
  stopped : ∀ (t : ℕ) (task : Task), w.tasks[t]? = some task → task.stage = .stopSettled (.ok ()) →
    ∃ id, task.work = .stop id ∧ removed id
  started : ∀ (t : ℕ) (task : Task) id, w.tasks[t]? = some task → task.stage.started = some id →
    added id
  sent : ∀ (t : ℕ) (task : Task) reply, w.tasks[t]? = some task → task.sent = some (.ok reply) →
    SentTruly added removed task.work reply
  shares : ∀ (s : ℕ) (outcome : StartedOutcome) id,
    w.shares[s]? = some (some (.settled outcome)) → outcome.startedId = some id → added id
  replied : ∀ (c : ℕ) (call : Call) reply, w.calls[c]? = some call →
    call.stage.replied = some reply → Acknowledged added removed call.request reply

variable {added removed added' removed' : SourceId → Prop}

@[simp] theorem startOutcome_startedId (d : SourceDefinition) (warning : Option String) :
    (startOutcome d warning).startedId = some d.id := by
  unfold startOutcome
  split_ifs <;> rfl

theorem Acknowledged.mono {request : Request} {reply : Reply}
    (h : Acknowledged added removed request reply) (hadded : ∀ id, added id → added' id)
    (hremoved : ∀ id, removed id → removed' id) : Acknowledged added' removed' request reply := by
  cases reply with
  | outcome outcome => exact fun id hid => hadded id (h id hid)
  | stopped => exact h.imp fun id hid => hid.imp_right (hremoved id)
  | sessionNoted => exact h.imp fun d hd => hd.imp_right (hadded d.id)

theorem SentTruly.mono {work : Work} {reply : Reply} (h : SentTruly added removed work reply)
    (hadded : ∀ id, added id → added' id) (hremoved : ∀ id, removed id → removed' id) :
    SentTruly added' removed' work reply := by
  cases reply with
  | outcome outcome => exact fun id hid => hadded id (h id hid)
  | stopped => exact h.imp fun id hid => hid.imp_right (hremoved id)
  | sessionNoted => exact h

theorem Told.mono (h : Told canonicalize added removed w) (hadded : ∀ id, added id → added' id)
    (hremoved : ∀ id, removed id → removed' id) : Told canonicalize added' removed' w where
  noting := h.noting
  writing c call s v hc hs := (h.writing c call s v hc hs).imp fun d hd => hd.imp_right (hadded d.id)
  receives := h.receives
  stopping := h.stopping
  forgotten t task id s v ht hs := hremoved id (h.forgotten t task id s v ht hs)
  stopped t task ht hs := (h.stopped t task ht hs).imp fun id hid => hid.imp_right (hremoved id)
  started t task id ht hs := hadded id (h.started t task id ht hs)
  sent t task reply ht hs := (h.sent t task reply ht hs).mono hadded hremoved
  shares s outcome id hs hid := hadded id (h.shares s outcome id hs hid)
  replied c call reply hc hs := (h.replied c call reply hc hs).mono hadded hremoved

theorem Next.started {stage : Stage} {id : SourceId}
    (h : Next canonicalize storeUnavailable w task stage) (hs : stage.started = some id) :
    task.stage.started = some id ∨ ∃ d, task.stage = .publishing d ∧ d.id = id := by
  cases h with
  | begins | refuse => cases hw : task.work <;> rw [hw] at hs <;> cases hs
  | publish h => exact .inr ⟨_, h, Option.some.inj hs⟩
  | @publishUnstored d _ h =>
    exact .inr ⟨d, h, Option.some.inj ((startOutcome_startedId d _).symm.trans hs)⟩
  | @stored d _ _ _ h =>
    left
    rw [h]
    exact (startOutcome_startedId d _).symm.trans hs
  | _ => cases hs

theorem Next.stops {stage : Stage} {id : SourceId}
    (h : Next canonicalize storeUnavailable w task stage) (hs : stage.stops = some id) :
    task.stage.stops = some id ∨ task.work = .stop id := by
  cases h with
  | begins =>
    cases hw : task.work <;> rw [hw] at hs <;> cases hs
    exact .inr rfl
  | refuse => cases hw : task.work <;> rw [hw] at hs <;> cases hs
  | unbind h | awaitStop h | forgot h => left; rw [h]; exact hs
  | forget h => left; obtain h | h := h <;> rw [h] <;> exact hs
  | _ => cases hs

theorem Next.forgotten {stage : Stage} {id : SourceId} {snapshot : List SourceDefinition}
    {version : ℕ} (h : Next canonicalize storeUnavailable w task stage)
    (hs : stage = .forgotten id snapshot version) : task.stage = .forgetting id := by
  cases h with
  | begins | refuse => cases hw : task.work <;> rw [hw] at hs <;> cases hs
  | forgot h => cases hs; exact h
  | _ => cases hs

theorem Next.stopped {stage : Stage} (h : Next canonicalize storeUnavailable w task stage)
    (hs : stage = .stopSettled (.ok ())) :
    ∃ id snapshot version, task.stage = .forgotten id snapshot version := by
  cases h with
  | begins | refuse => cases hw : task.work <;> rw [hw] at hs <;> cases hs
  | stopEnd _ _ done => cases hs; exact done rfl
  | _ => cases hs

namespace Told

theorem taskStep {task' : Task} (hinv : Told canonicalize added removed w)
    (ht : w.tasks[t]? = some task) (h : TaskSpec canonicalize storeUnavailable w w' t task task')
    (hadded : ∀ d, task.stage = .publishing d → added d.id)
    (hremoved : ∀ id, task.stage = .forgetting id → removed id) :
    Told canonicalize added removed w' := by
  constructor
  · rw [h.calls]; exact hinv.noting
  · rw [h.calls]; exact hinv.writing
  · intro c call i hc hs
    obtain ⟨task₁, hi, hw⟩ := hinv.receives c call i (h.calls ▸ hc) hs
    by_cases hit : i = t
    · subst hit
      cases hi.symm.trans ht
      exact ⟨task', Single.mem_tasks ht h.tasks, h.work.trans hw⟩
    · exact ⟨task₁, Single.other_tasks h.tasks hit hi, hw⟩
  · intro i task₁ id hi hs
    obtain ⟨rfl, rfl⟩ | ⟨-, hi⟩ := h.task_at hi
    · rw [h.work]
      exact (h.next.stops hs).elim (hinv.stopping _ _ _ ht) fun hw => hw
    · exact hinv.stopping i task₁ id hi hs
  · intro i task₁ id s v hi hs
    obtain ⟨rfl, rfl⟩ | ⟨-, hi⟩ := h.task_at hi
    · exact hremoved id (h.next.forgotten hs)
    · exact hinv.forgotten i task₁ id s v hi hs
  · intro i task₁ hi hs
    obtain ⟨rfl, rfl⟩ | ⟨-, hi⟩ := h.task_at hi
    · obtain ⟨id, s, v, hstage⟩ := h.next.stopped hs
      rw [h.work]
      exact ⟨id, hinv.stopping _ _ id ht (by rw [hstage]; rfl), hinv.forgotten _ _ _ _ _ ht hstage⟩
    · exact hinv.stopped i task₁ hi hs
  · intro i task₁ id hi hs
    obtain ⟨rfl, rfl⟩ | ⟨-, hi⟩ := h.task_at hi
    · obtain hbefore | ⟨d, hstage, rfl⟩ := h.next.started hs
      · exact hinv.started _ _ _ ht hbefore
      · exact hadded d hstage
    · exact hinv.started i task₁ id hi hs
  · intro i task₁ reply hi hs
    obtain ⟨rfl, rfl⟩ | ⟨-, hi⟩ := h.task_at hi
    · rw [h.work]
      rw [h.sent] at hs
      split at hs
      · exact hinv.sent _ _ _ ht hs
      · rename_i result hstage _
        cases result with
        | ok outcome =>
          obtain rfl : .outcome outcome = reply := by simpa [Except.map] using hs
          exact fun id hid => hinv.started _ _ id ht (by rw [hstage]; exact hid)
        | error reason => simp [Except.map] at hs
      · rename_i result hstage
        cases result with
        | ok _ =>
          obtain rfl : .stopped = reply := by simpa [Except.map] using hs
          exact hinv.stopped _ _ ht hstage
        | error reason => simp [Except.map] at hs
      · exact hinv.sent _ _ _ ht hs
    · exact hinv.sent i task₁ reply hi hs
  · intro s outcome id hs hid
    obtain hs | ⟨key, d, -, hstage⟩ := Named.shares_cases h hs
    · exact hinv.shares s outcome id hs hid
    · exact hinv.started _ _ id ht (by rw [hstage]; exact hid)
  · rw [h.calls]; exact hinv.replied

theorem callStep {call' : Call} (hinv : Told canonicalize added removed w)
    (hc : w.calls[c]? = some call) (h : CallSpec canonicalize w w' c call call')
    (hadded : ∀ d, call.stage = .noting d → added d.id) : Told canonicalize added removed w' := by
  -- a settlement that has just been spawned has said nothing
  have hspawned : ∀ (i : ℕ) (task : Task), w'.tasks[i]? = some task → w.tasks[i]? = some task ∨
      (task.stage = .spawned ∧ task.sent = none) := by
    intro i task hi
    exact (h.spawned hi).imp_right fun ⟨_, _, _, _, htask⟩ => htask ▸ ⟨rfl, rfl⟩
  constructor
  · intro i call₁ d hi hs
    obtain ⟨rfl, rfl⟩ | ⟨-, hi⟩ := h.call_at hi
    · rw [h.request]
      have hnext := h.next
      generalize call₁.stage = stage at hnext hs
      cases hnext with
      | note _ asked => cases hs; exact asked
      | @failed _ _ _ p | @again _ _ _ p | @leave _ p => cases p <;> cases hs
      | _ => cases hs
    · exact hinv.noting i call₁ d hi hs
  · intro i call₁ s v hi hs
    obtain ⟨rfl, rfl⟩ | ⟨-, hi⟩ := h.call_at hi
    · rw [h.request]
      have hnext := h.next
      generalize call₁.stage = stage at hnext hs
      cases hnext with
      | @noted d _ hnoting => exact ⟨d, hinv.noting _ _ d hc hnoting, hadded d hnoting⟩
      | @failed _ _ _ p | @again _ _ _ p | @leave _ p => cases p <;> cases hs
      | _ => cases hs
    · exact hinv.writing i call₁ s v hi hs
  · intro i call₁ j hi hr
    obtain ⟨rfl, rfl⟩ | ⟨-, hi⟩ := h.call_at hi
    · rw [h.request]
      obtain hbefore | ⟨permit, hs, rfl⟩ := Named.receives_callNext h.next hr
      · obtain ⟨task, hj, hw⟩ := hinv.receives _ _ _ hc hbefore
        exact ⟨task, h.back hj, hw⟩
      · refine ⟨⟨i, workOf canonicalize call.request none, permit, .spawned, false, false, false,
          none⟩, ?_, rfl⟩
        rw [h.tasks, hs]
        simp
    · obtain ⟨task, hj, hw⟩ := hinv.receives _ _ _ hi hr
      exact ⟨task, h.back hj, hw⟩
  · intro i task id hi hs
    obtain hi | ⟨hstage, -⟩ := hspawned i task hi
    · exact hinv.stopping i task id hi hs
    · rw [hstage] at hs; cases hs
  · intro i task id s v hi hs
    obtain hi | ⟨hstage, -⟩ := hspawned i task hi
    · exact hinv.forgotten i task id s v hi hs
    · cases hstage.symm.trans hs
  · intro i task hi hs
    obtain hi | ⟨hstage, -⟩ := hspawned i task hi
    · exact hinv.stopped i task hi hs
    · cases hstage.symm.trans hs
  · intro i task id hi hs
    obtain hi | ⟨hstage, -⟩ := hspawned i task hi
    · exact hinv.started i task id hi hs
    · rw [hstage] at hs; cases hs
  · intro i task reply hi hs
    obtain hi | ⟨-, hsent⟩ := hspawned i task hi
    · exact hinv.sent i task reply hi hs
    · cases hsent.symm.trans hs
  · intro s outcome id hs hid
    refine hinv.shares s outcome id ?_ hid
    obtain ⟨hsame, -⟩ | ⟨hnew, -⟩ := h.shares
    · exact hsame ▸ hs
    · rw [hnew] at hs
      obtain ⟨-, hs⟩ | hs := append_cases hs
      · cases hs
      · exact hs
  · intro i call₁ reply hi hs
    obtain ⟨rfl, rfl⟩ | ⟨-, hi⟩ := h.call_at hi
    · rw [h.request]
      have hnext := h.next
      generalize call₁.stage = stage at hnext hs
      cases hnext with
      | @told d key share outcome _ settled =>
        cases hs
        exact fun id hid => hinv.shares share outcome id settled hid
      | presented =>
        cases hs
        exact nofun
      | @received i task reply' hreceiving settlement sent =>
        obtain ⟨task', hi, hw⟩ := hinv.receives _ _ i hc (by rw [hreceiving]; rfl)
        obtain rfl := Option.some.inj (hi.symm.trans settlement)
        obtain rfl : reply' = .ok reply := by
          cases reply' <;> cases hs
          rfl
        have htrue := hinv.sent i task' reply hi sent
        cases reply with
        | outcome outcome => exact htrue
        | sessionNoted => exact htrue.elim
        | stopped =>
          obtain ⟨id, hstop, hid⟩ := htrue
          refine ⟨id, ?_, hid⟩
          rw [hw] at hstop
          cases hr : call.request <;> simp only [workOf, hr] at hstop <;> cases hstop
          rfl
      | @leave permit next hdropping =>
        refine hinv.replied _ _ reply hc ?_
        rw [hdropping]
        cases next with
        | inl work => cases hs
        | inr result => cases result <;> exact hs
      | wrote hwriting =>
        cases hs
        exact hinv.writing _ _ _ _ hc hwriting
      | @failed _ _ _ p | @again _ _ _ p => cases p <;> cases hs
      | _ => cases hs
    · exact hinv.replied i call₁ reply hi hs

/-- A step at which nobody is told anything. -/
theorem aside (hinv : Told canonicalize added removed w) (h : Aside w w') :
    Told canonicalize added removed w' := by
  constructor
  · intro c call d hc hs
    obtain hc | harrived | hdropped := h.calls c call hc
    · exact hinv.noting c call d hc hs
    · cases harrived.symm.trans hs
    · cases hdropped.symm.trans hs
  · intro c call s v hc hs
    obtain hc | harrived | hdropped := h.calls c call hc
    · exact hinv.writing c call s v hc hs
    · cases harrived.symm.trans hs
    · cases hdropped.symm.trans hs
  · intro c call i hc hs
    obtain hc | harrived | hdropped := h.calls c call hc
    · obtain ⟨task, hi, hw⟩ := hinv.receives c call i hc hs
      obtain ⟨task', hi', hrests⟩ := h.back hi
      exact ⟨task', hi', hrests.work.trans hw⟩
    · rw [harrived] at hs; cases hs
    · rw [hdropped] at hs; cases hs
  · intro i task' id hi hs
    obtain ⟨task, hi, hw, -, hstage | hstage⟩ := h.settlement hi
    · exact hw.trans (hinv.stopping i task id hi (hstage ▸ hs))
    · rw [hstage] at hs; cases hs
  · intro i task' id s v hi hs
    obtain ⟨task, hi, -, -, hstage | hstage⟩ := h.settlement hi
    · exact hinv.forgotten i task id s v hi (hstage ▸ hs)
    · cases hstage.symm.trans hs
  · intro i task' hi hs
    obtain ⟨task, hi, hw, -, hstage | hstage⟩ := h.settlement hi
    · rw [hw]; exact hinv.stopped i task hi (hstage ▸ hs)
    · cases hstage.symm.trans hs
  · intro i task' id hi hs
    obtain ⟨task, hi, -, -, hstage | hstage⟩ := h.settlement hi
    · exact hinv.started i task id hi (hstage ▸ hs)
    · rw [hstage] at hs; cases hs
  · intro i task' reply hi hs
    obtain ⟨task, hi, hw, hsent, -⟩ := h.settlement hi
    rw [hw]; exact hinv.sent i task reply hi (hsent ▸ hs)
  · exact fun s outcome id hs hid => hinv.shares s outcome id (h.settled s outcome hs) hid
  · intro c call reply hc hs
    obtain hc | harrived | hdropped := h.calls c call hc
    · exact hinv.replied c call reply hc hs
    · rw [harrived] at hs; cases hs
    · rw [hdropped] at hs; cases hs

theorem step {e : Event} (hinv : Told canonicalize added removed w)
    (h : step canonicalize storeUnavailable w e = some w') (hadded : ∀ id, Adds id w e → added id)
    (hremoved : ∀ id, Removes id w e → removed id) : Told canonicalize added removed w' := by
  obtain ⟨c, answer, call, call', rfl, hc, -, hspec⟩ | ⟨t, answer, task, task', rfl, ht, -, hspec⟩ |
    haside := step_spec h
  · exact hinv.callStep hc hspec fun d hs => hadded d.id ⟨call, d, hc, hs, rfl⟩
  · exact hinv.taskStep ht hspec (fun d hs => hadded d.id ⟨task, d, ht, hs, rfl⟩)
      fun id hs => hremoved id ⟨task, ht, hs⟩
  · exact hinv.aside haside

end Told

/-! ### Runs -/

variable {w₀ : World} {es : List Event}

/-- A resumed session has not changed: it is that of its manifest. -/
theorem resumeSession_session (l : List (SourceDefinition × Result Unit × Result Unit)) (w : World) :
    (resumeSession canonicalize w l).session = w.session ∧
      (resumeSession canonicalize w l).version = w.version ∧
      (resumeSession canonicalize w l).writes = w.writes ∧
      (resumeSession canonicalize w l).manifest = w.manifest := by
  induction l generalizing w with
  | nil => exact ⟨rfl, rfl, rfl, rfl⟩
  | cons x rest ih =>
    obtain ⟨definition, disk, capture⟩ := x
    have hone : (resumeOne canonicalize w definition disk capture).session = w.session ∧
        (resumeOne canonicalize w definition disk capture).version = w.version ∧
        (resumeOne canonicalize w definition disk capture).writes = w.writes ∧
        (resumeOne canonicalize w definition disk capture).manifest = w.manifest := by
      unfold resumeOne
      simp only
      (repeat' split) <;> exact ⟨rfl, rfl, rfl, rfl⟩
    obtain ⟨h₁, h₂, h₃, h₄⟩ := ih (resumeOne canonicalize w definition disk capture)
    exact ⟨h₁.trans hone.1, h₂.trans hone.2.1, h₃.trans hone.2.2.1, h₄.trans hone.2.2.2⟩

theorem snapshots_of_serves (h : Serves canonicalize w) : Snapshots storeUnavailable w := by
  have hresumed := resumed_of_serves h
  obtain ⟨session, metadata, answers, -, rfl⟩ := h
  obtain ⟨hsession, hversion, hwrites, hmanifest⟩ :=
    @resumeSession_session canonicalize (session.zip answers) (.opened session metadata)
  refine ⟨?_, ?_, ?_, ?_⟩
  · rintro s v (⟨c, call, hc, -⟩ | ⟨t, task, ht, -⟩)
    · simp [hresumed.calls] at hc
    · simp [hresumed.tasks] at ht
  · intro v b hmem
    rw [hwrites] at hmem
    rw [hversion]
    exact (Prod.mk.inj (mem_singleton.1 hmem)).1.le
  · intro _
    rw [hsession, hmanifest]
    rfl
  · intro _
    exact .inl ⟨true, by rw [hwrites, hversion]; exact mem_singleton.2 rfl⟩

theorem snapshots_run (h₀ : Serves canonicalize w₀)
    (h : ((worker canonicalize storeUnavailable).only InOrder).Run w₀ es w) :
    Snapshots storeUnavailable w :=
  h.invariant_only (snapshots_of_serves h₀) fun _ _ _ hinv hC hstep => hinv.step hC hstep

theorem stored_of_quiet (h₀ : Serves canonicalize w₀)
    (h : ((worker canonicalize none).only InOrder).Run w₀ es w) (hquiet : Quiet w)
    (hlast : ∀ stored, (w.version, stored) ∈ w.writes → stored = true) : Stored w := by
  obtain ⟨stored, hw⟩ | ⟨snapshot, hp⟩ := (snapshots_run h₀ h).written rfl
  · obtain rfl := hlast stored hw
    exact hw
  · exact absurd hp (hquiet _ _)

/-- In every state a worker reaches, what was acknowledged has been done on the way. -/
theorem told_run (h₀ : Serves canonicalize w₀)
    (h : (worker canonicalize storeUnavailable).Run w₀ es w) :
    Told canonicalize (fun id => (worker canonicalize storeUnavailable).Took (Adds id) w₀ es w)
      (fun id => (worker canonicalize storeUnavailable).Took (Removes id) w₀ es w) w := by
  induction h with
  | nil =>
    have hresumed := resumed_of_serves h₀
    constructor <;> simp [hresumed.calls, hresumed.tasks, hresumed.shares]
  | snoc h hst ih =>
    have hdet := Machine.ofFun_det (f := step canonicalize storeUnavailable)
    exact (ih.mono (fun id hid => (Machine.took_snoc hdet h hst).2 (.inl hid))
      fun id hid => (Machine.took_snoc hdet h hst).2 (.inl hid)).step hst
        (fun id hid => (Machine.took_snoc hdet h hst).2 (.inr hid))
        fun id hid => (Machine.took_snoc hdet h hst).2 (.inr hid)

/-- **The manifest follows the session.**  In every run that meets the condition: once no start,
stop or note is in progress and the last write has succeeded the newest snapshot is stored; then
the file is the session, whose members are those of the start that were not stopped since, and
those started or noted and not stopped since; and what was acknowledged has been done. -/
theorem manifest_follows_session (h₀ : Serves canonicalize w₀)
    (h : ((worker canonicalize storeUnavailable).only InOrder).Run w₀ es w) :
    (storeUnavailable = none → Quiet w → (∀ stored, (w.version, stored) ∈ w.writes → stored = true) →
      Stored w) ∧
    (Stored w → w.manifest = w.session ∧ ∀ id, Member w.manifest id ↔
      (Member w₀.manifest id ∧ ¬ (worker canonicalize storeUnavailable).Took (Removes id) w₀ es w) ∨
        (worker canonicalize storeUnavailable).TookLast (Adds id) (Removes id) w₀ es w) ∧
    ∀ (c : ℕ) (call : Call) reply, w.calls[c]? = some call → call.stage = .done (.ok reply) →
      Acknowledged (fun id => (worker canonicalize storeUnavailable).Took (Adds id) w₀ es w)
        (fun id => (worker canonicalize storeUnavailable).Took (Removes id) w₀ es w) call.request
        reply := by
  refine ⟨?_, fun hstored => ?_, fun c call reply hc hs => ?_⟩
  · rintro rfl hquiet hlast
    exact stored_of_quiet h₀ h hquiet hlast
  · have hmanifest := (snapshots_run h₀ h).stored hstored
    have hmanifest₀ : w₀.manifest = w₀.session := by
      obtain ⟨session, metadata, answers, -, rfl⟩ := h₀
      obtain ⟨hs, -, -, hm⟩ :=
        @resumeSession_session canonicalize (session.zip answers) (.opened session metadata)
      rw [hs, hm]
      rfl
    refine ⟨hmanifest, fun id => ?_⟩
    rw [hmanifest, hmanifest₀]
    exact Machine.Run.last_change Machine.ofFun_det h.of_only (P := fun w => Member w.session id)
      fun w e w' hst => step_members hst id
  · exact (told_run h₀ h.of_only).replied c call reply hc (by rw [hs]; rfl)

/-! ### Two notes -/

/-- Two windows note a file each, and both snapshots are taken before either is written. -/
def twoNotes : List Event :=
  [.request (.noteSessionMember (fileSource 1 97)), .request (.noteSessionMember (fileSource 2 98)),
    .call 0 .none, .call 1 .none, .call 0 .none, .call 1 .none]

/-- The later snapshot is written first. -/
def laterFirst : List Event := twoNotes ++ [.call 1 (.io (.ok ())), .call 0 (.io (.ok ()))]

/-- The snapshots are written in the order they were taken. -/
def inTurn : List Event := twoNotes ++ [.call 0 (.io (.ok ())), .call 1 (.io (.ok ()))]

theorem quiet_of_all (hcalls : w.calls.all (·.stage.snapshot.isNone) = true)
    (htasks : w.tasks.all (·.stage.snapshot.isNone) = true) : Quiet w := by
  rintro snapshot version (⟨c, call, hc, hs⟩ | ⟨t, task, ht, hs⟩)
  · have := all_eq_true.1 hcalls call (mem_of_getElem? hc)
    rw [hs] at this
    cases this
  · have := all_eq_true.1 htasks task (mem_of_getElem? ht)
    rw [hs] at this
    cases this

/-- The later snapshot is written first: the member it has is acknowledged, and lost. -/
theorem later_note_is_lost : ∃ w, Serves some (.opened [] ∅) ∧
    (worker some none).Run (.opened [] ∅) laterFirst w ∧
    Quiet w ∧ (∀ version stored, (version, stored) ∈ w.writes → stored = true) ∧
    w.calls[1]? = some ⟨.noteSessionMember (fileSource 2 98), .done (.ok .sessionNoted)⟩ ∧
    Member w.session (fileSource 2 98).id ∧ ¬ Member w.manifest (fileSource 2 98).id := by
  obtain ⟨w, hw, hcalls, htasks, hwrites, hnoted, hsession, hmanifest⟩ : ∃ w,
      (worker some none).Run (.opened [] ∅) laterFirst w ∧
      w.calls.all (·.stage.snapshot.isNone) = true ∧ w.tasks.all (·.stage.snapshot.isNone) = true ∧
      w.writes.all (·.2) = true ∧
      w.calls[1]? = some ⟨.noteSessionMember (fileSource 2 98), .done (.ok .sessionNoted)⟩ ∧
      w.session = [fileSource 1 97, fileSource 2 98] ∧ w.manifest = [fileSource 1 97] :=
    Machine.exists_run (by decide +kernel)
  refine ⟨w, serves_opened, hw, quiet_of_all hcalls htasks, fun v b hb => ?_,
    hnoted, ?_, ?_⟩
  · exact all_eq_true.1 hwrites (v, b) hb
  · rw [hsession]
    exact ⟨fileSource 2 98, by simp, rfl⟩
  · rw [hmanifest]
    rintro ⟨d, hd, hid⟩
    obtain rfl := mem_singleton.1 hd
    exact absurd hid (by decide)

/-- No snapshot that is to be written is older than one that was. -/
def inOrder (w : World) (e : Event) : Bool :=
  match w.writing e with
  | some (_, version) => w.writes.all fun x => !x.2 || decide (x.1 ≤ version)
  | none => true

theorem inOrder_of_check {e : Event} (h : inOrder w e = true) : InOrder w e := by
  intro snapshot version hw later hlater
  simp only [inOrder, hw, all_eq_true] at h
  simpa using h _ hlater

/-- Two notes that are written in the order of their snapshots. -/
theorem notes_in_order : ∃ w,
    ((worker some none).only InOrder).Run (.opened [] ∅) inTurn w ∧
    w.manifest = [fileSource 1 97, fileSource 2 98] ∧
    (worker some none).Took (Adds (fileSource 2 98).id) (.opened [] ∅)
      inTurn w := by
  obtain ⟨w, hw, hcalls, htasks, hwrites, hnoted, hsession⟩ : ∃ w,
      ((worker some none).only fun w e => inOrder w e = true).Run (.opened [] ∅) inTurn w ∧
      w.calls.all (·.stage.snapshot.isNone) = true ∧ w.tasks.all (·.stage.snapshot.isNone) = true ∧
      w.writes.all (·.2) = true ∧
      w.calls[1]? = some ⟨.noteSessionMember (fileSource 2 98), .done (.ok .sessionNoted)⟩ ∧
      w.session = [fileSource 1 97, fileSource 2 98] := Machine.exists_run_only (by decide +kernel)
  have hw := hw.only_mono fun w e h => inOrder_of_check h
  obtain ⟨hstored, hmanifest, htold⟩ := manifest_follows_session serves_opened hw
  refine ⟨w, hw, (hmanifest (hstored rfl (quiet_of_all hcalls htasks) fun b hb => ?_)).1.trans hsession, ?_⟩
  · exact all_eq_true.1 hwrites _ hb
  · obtain ⟨d, hd, hadded⟩ := htold 1 _ .sessionNoted hnoted rfl
    obtain rfl := Request.noteSessionMember.inj hd
    exact hadded

end Lvu.Shared.Lifecycle
