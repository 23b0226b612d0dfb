import Lvu.Shared.Manifest

/-!
# Shutdown as a barrier

Shutdown closes the gate, waits for the permits, aborts what still has one, waits again, and
reports the sources of the settlements it gave up on as failed, beside what the manager says of the
captures it stopped.  A permit is for the source a request named, and a start may be answered by
restarting another.

* `Owned` : the condition that no settlement still on its way when shutdown has returned is on its
  way to another source than its request named.
* `Barrier` : what is going to be reported as failed.
* `shutdown_is_barrier` : the count of permits, the closed gate, the drained gate, the reports and
  what happens after them.
-/

namespace Lvu.Shared.Lifecycle

open List

/-- Once shutdown has returned, whatever settlement is on its way to start a source is on its way to
the one its request named. -/
def Owned (w : World) (_ : Event) : Prop :=
  ∀ reports, w.shutdown = .returned reports → ∀ (t : ℕ) (task : Task) d, w.tasks[t]? = some task →
    task.stage.source = some d → d.id = task.work.sourceId

/-- The permits that are held. -/
def World.livePermits (w : World) : List ℕ :=
  w.calls.filterMap (·.stage.permit) ++ w.tasks.filterMap (·.held)

/-- A source that the reports call failed. -/
def Failed (reports : List Report) (id : SourceId) : Prop := ∃ error, (id, .error error) ∈ reports

/-- A source that the reports call stopped. -/
def ReportedStopped (reports : List Report) (id : SourceId) : Prop :=
  (∃ text, (id, .ok text) ∈ reports) ∧ ¬ Failed reports id

/-- The sources that shutdown is going to report as failed for their settlements. -/
def Shutdown.failing : Shutdown → SourceId → Prop
  | .cancelling failed _ | .redraining failed | .expired failed | .unbinding failed
  | .closing failed | .waiting failed | .collecting failed _ | .listing failed _
  | .stopping failed _ _ => fun id => id ∈ failed
  | .returned reports => fun id => (id, settlementFailure) ∈ reports
  | .idle | .flagged | .draining | .aborting => fun _ => False

/-- Shutdown has got the handles of the settlements it aborts, or needs none. -/
def Shutdown.handed : Shutdown → Bool
  | .idle | .flagged | .draining | .aborting => false
  | _ => true

/-- Shutdown waits for settlements no more. -/
def Shutdown.over : Shutdown → Bool
  | .idle | .flagged | .draining | .aborting | .cancelling _ _ | .redraining _ | .expired _ => false
  | _ => true

/-- Shutdown has closed the manager. -/
def Shutdown.shut : Shutdown → Bool
  | .waiting _ | .collecting _ _ | .listing _ _ | .stopping _ _ _ | .returned _ => true
  | _ => false

/-- A start of the manager that shutdown has not seen the end of is called failed. -/
def Shutdown.counts : Shutdown → SourceId → Prop
  | .collecting _ true => fun _ => False
  | .stopping _ _ reports | .returned reports => Failed reports
  | _ => fun _ => True

/-- What shutdown is going to report. -/
structure Barrier (w : World) : Prop where
  torn : ∀ (t : ℕ) (task : Task), w.tasks[t]? = some task → task.torn = true → task.cancelled = true
  handed : ∀ (t : ℕ) (task : Task), w.tasks[t]? = some task → task.cancelled = true →
    w.shutdown.handed = true
  handles : ∀ failed handles (t : ℕ) (task : Task), w.shutdown = .cancelling failed handles →
    t ∈ handles → w.tasks[t]? = some task → task.begun = true → task.stage.permitted = true →
    task.work.sourceId ∈ failed
  aborted : ∀ (t : ℕ) (task : Task), w.tasks[t]? = some task → task.cancelled = true →
    task.begun = true → (task.torn = true ∨ task.stage.permitted = true) →
    w.shutdown.failing task.work.sourceId
  unsettled : w.shutdown.over = true → ∀ p operation, w.gate.permits.lookup p = some operation →
    w.shutdown.failing operation.sourceId
  shut : w.shutdown.shut = true → w.managerClosed = true
  starts : ∀ (l : ℕ) (launch : Launch), w.launches[l]? = some launch → launch.pending = true →
    w.shutdown.counts launch.definition.id

/-! ### Reports -/

theorem mem_reportFailure (id : SourceId) (reports : List Report) :
    (id, settlementFailure) ∈ reportFailure id reports := by
  induction reports with
  | nil => exact mem_cons_self
  | cons x rest ih =>
    obtain ⟨reported, outcome⟩ := x
    unfold reportFailure
    split_ifs with h
    · rw [h]; exact mem_cons_self
    · exact mem_cons_of_mem _ ih

theorem reportFailure_keeps {id failed : SourceId} {reports : List Report} {outcome : Result String}
    (h : (id, outcome) ∈ reports) :
    (id, outcome) ∈ reportFailure failed reports ∨ (id, settlementFailure) ∈ reportFailure failed reports := by
  induction reports with
  | nil => cases h
  | cons x rest ih =>
    obtain ⟨reported, outcome'⟩ := x
    unfold reportFailure
    split_ifs with heq
    · obtain h | h := mem_cons.1 h
      · right
        rw [(Prod.mk.inj h).1]
        exact mem_cons_self
      · exact .inl (mem_cons_of_mem _ h)
    · obtain h | h := mem_cons.1 h
      · exact .inl (h ▸ mem_cons_self)
      · exact (ih h).imp (mem_cons_of_mem _) (mem_cons_of_mem _)

variable {id : SourceId} {reports : List Report} {s : Shutdown} {e : Event}

theorem settlementFailure_finalReports {failed : List SourceId}
    (h : id ∈ failed ∨ (id, settlementFailure) ∈ reports) :
    (id, settlementFailure) ∈ finalReports reports failed := by
  induction failed generalizing reports with
  | nil => simpa [finalReports] using h
  | cons x failed ih =>
    refine ih ?_
    obtain h | h := h
    · obtain rfl | h := mem_cons.1 h
      · exact .inr (mem_reportFailure _ _)
      · exact .inl h
    · exact .inr ((reportFailure_keeps h).elim (fun h => h) fun h => h)

theorem failed_finalReports {failed : List SourceId} (h : Failed reports id) :
    Failed (finalReports reports failed) id := by
  induction failed generalizing reports with
  | nil => exact h
  | cons x failed ih =>
    refine ih ?_
    obtain ⟨error, h⟩ := h
    obtain h | h := @reportFailure_keeps id x reports _ h
    · exact ⟨error, h⟩
    · exact ⟨_, h⟩

/-! ### What is kept -/

variable {canonicalize : Path → Option Path} {storeUnavailable : Option String}
  {w w' : World} {t : ℕ} {task : Task} {answer : Answer} {c : ℕ} {call : Call}

theorem Shutdown.past_of_handed (h : s.handed = true) : s.past = true := by
  cases s <;> first | rfl | cases h

theorem Shutdown.handed_of_over (h : s.over = true) : s.handed = true := by
  cases s <;> first | rfl | cases h

theorem Shutdown.over_of_shut (h : s.shut = true) : s.over = true := by
  cases s <;> first | rfl | cases h

namespace Barrier

/-- A step of anybody but shutdown. -/
theorem frame (hinv : Barrier w) (hs : Single canonicalize session w) (hshutdown : w'.shutdown = w.shutdown)
    (hmanager : w'.managerClosed = w.managerClosed)
    (hpermits : w.gate.closed = true → ∀ p operation, w'.gate.permits.lookup p = some operation →
      w.gate.permits.lookup p = some operation)
    (htasks : ∀ (t : ℕ) (task' : Task), w'.tasks[t]? = some task' →
      (task'.cancelled = false ∧ task'.torn = false ∧ task'.begun = false) ∨
      ∃ task, w.tasks[t]? = some task ∧ task'.work = task.work ∧ task'.cancelled = task.cancelled ∧
        (w.gate.closed = true → task'.begun = task.begun) ∧
        (task'.torn = true → task.torn = true ∨ task.cancelled = true ∧ task.stage.permitted = true) ∧
        (task'.stage.permitted = true → task.stage.permitted = true))
    (hlaunches : ∀ (l : ℕ) (launch : Launch), w'.launches[l]? = some launch → launch.pending = true →
      (∃ launch', w.launches[l]? = some launch' ∧ launch'.pending = true ∧
        launch'.definition = launch.definition) ∨ w.managerClosed = false) : Barrier w' := by
  have hclosed : w.shutdown.handed = true → w.gate.closed = true :=
    fun h => hs.shut (Shutdown.past_of_handed h)
  refine ⟨?_, ?_, ?_, ?_, ?_, ?_, ?_⟩
  · intro t task' ht htorn
    obtain ⟨-, hnot, -⟩ | ⟨task, ht, -, hcancelled, -, htorn', -⟩ := htasks t task' ht
    · rw [htorn] at hnot; cases hnot
    · rw [hcancelled]
      exact (htorn' htorn).elim (hinv.torn t task ht) And.left
  · intro t task' ht hcan
    obtain ⟨hnot, -⟩ | ⟨task, ht, -, hcancelled, -⟩ := htasks t task' ht
    · rw [hcan] at hnot; cases hnot
    · rw [hshutdown]; exact hinv.handed t task ht (hcancelled ▸ hcan)
  · intro failed handles t task' hstage hmem ht hbegun hpermitted
    rw [hshutdown] at hstage
    obtain ⟨-, -, hnot⟩ | ⟨task, ht, hwork, -, hbegun', -, hpermitted'⟩ := htasks t task' ht
    · rw [hbegun] at hnot; cases hnot
    · rw [hwork]
      exact hinv.handles failed handles t task hstage hmem ht
        (hbegun' (hclosed (by rw [hstage]; rfl)) ▸ hbegun) (hpermitted' hpermitted)
  · intro t task' ht hcan hbegun hor
    rw [hshutdown]
    obtain ⟨hnot, -⟩ | ⟨task, ht, hwork, hcancelled, hbegun', htorn', hpermitted'⟩ := htasks t task' ht
    · rw [hcan] at hnot; cases hnot
    · have hcan' := hcancelled ▸ hcan
      rw [hwork]
      refine hinv.aborted t task ht hcan' (hbegun' (hclosed (hinv.handed t task ht hcan')) ▸ hbegun) ?_
      obtain hor | hor := hor
      · exact (htorn' hor).imp_right And.right
      · exact .inr (hpermitted' hor)
  · intro hover p operation hp
    rw [hshutdown] at hover ⊢
    exact hinv.unsettled hover p operation
      (hpermits (hclosed (Shutdown.handed_of_over hover)) p operation hp)
  · rw [hshutdown, hmanager]; exact hinv.shut
  · intro l launch hl hp
    rw [hshutdown]
    obtain ⟨launch', hl', hp', hd⟩ | hopen := hlaunches l launch hl hp
    · rw [← hd]; exact hinv.starts l launch' hl' hp'
    · -- the manager is open, so shutdown has not looked at its starts
      have hnot : w.shutdown.shut ≠ true := fun h => by rw [hinv.shut h] at hopen; cases hopen
      cases hstage : w.shutdown <;> first | trivial | (rw [hstage] at hnot; exact absurd rfl hnot)

/-- A step of a request: a closed gate gives no permit. -/
theorem callStep {call' : Call} (hinv : Barrier w) (hs : Single canonicalize session w)
    (h : CallSpec canonicalize w w' c call call') : Barrier w' := by
  refine hinv.frame hs h.shutdown h.managerClosed (fun hclosed p operation hp => ?_)
    (fun t task ht => ?_) (fun l launch hl hp => .inl ⟨launch, h.launches ▸ hl, hp, rfl⟩)
  · cases h.gate with
    | same hgate | spawns _ hgate => exact hgate ▸ hp
    | enters _ hgate =>
      obtain ⟨hopen, -⟩ := LifecycleState.tryEnter_ok hgate
      rw [hclosed] at hopen
      cases hopen
    | attaches _ hgate =>
      rw [hgate, LifecycleState.attachSettlement_permits] at hp
      exact hp
    | leaves _ hgate =>
      rw [hgate, LifecycleState.dropPermit_permits, Dict.lookup_erase_eq] at hp
      split_ifs at hp
      exact hp
  · rw [h.tasks] at ht
    split at ht
    · obtain ⟨-, rfl⟩ | ht := append_cases ht
      · exact .inl ⟨rfl, rfl, rfl⟩
      · exact .inr ⟨task, ht, rfl, rfl, fun _ => rfl, .inl, id⟩
    · exact .inr ⟨task, ht, rfl, rfl, fun _ => rfl, .inl, id⟩

theorem willing_of_launches {task' : Task} (h : TaskSpec canonicalize storeUnavailable w w' t task task') :
    w'.launches = w.launches ∨ (w.managerClosed = false ∧ ∃ launch : Launch,
      w'.launches = w.launches ++ [launch]) := by
  have hnext := h.next
  have hlaunches := h.launches
  cases hs : task'.stage with
  | launching d l =>
    rw [hs] at hlaunches hnext
    right
    refine ⟨?_, _, hlaunches⟩
    generalize hstage : Stage.launching d l = stage at hnext
    cases hnext with
    | launch _ willing =>
      unfold World.startRefusal at willing
      split_ifs at willing with hclosed
      simpa using hclosed
    | begins | refuse => cases hw : task.work <;> rw [hw] at hstage <;> cases hstage
    | _ => cases hstage
  | _ => rw [hs] at hlaunches; exact .inl hlaunches

/-- A step of a settlement: behind a closed gate none begins, and a closed manager starts nothing. -/
theorem taskStep {task' : Task} (hinv : Barrier w) (hs : Single canonicalize session w)
    (ht : w.tasks[t]? = some task) (h : TaskSpec canonicalize storeUnavailable w w' t task task') :
    Barrier w' := by
  refine hinv.frame hs h.shutdown h.managerClosed (fun hclosed p operation hp => ?_)
    (fun i task₁ hi => ?_) (fun l launch hl hp => ?_)
  · cases h.gate with
    | same hgate => exact hgate ▸ hp
    | begins _ hgate =>
      obtain ⟨hopen, -⟩ := LifecycleState.beginPermit_ok hgate
      rw [hclosed] at hopen
      cases hopen
    | leaves _ hgate =>
      rw [hgate, LifecycleState.dropPermit_permits, Dict.lookup_erase_eq] at hp
      split_ifs at hp
      exact hp
  · obtain ⟨rfl, rfl⟩ | ⟨-, hi⟩ := h.task_at hi
    · refine .inr ⟨task, ht, h.work, h.cancelled, fun hclosed => ?_, fun htorn => .inl (h.torn ▸ htorn),
        fun _ => h.next.permitted⟩
      cases h.gate with
      | same _ hbegun | leaves _ _ hbegun => exact hbegun
      | begins _ hgate =>
        obtain ⟨hopen, -⟩ := LifecycleState.beginPermit_ok hgate
        rw [hclosed] at hopen
        cases hopen
    · exact .inr ⟨task₁, hi, rfl, rfl, fun _ => rfl, .inl, id⟩
  · obtain hsame | ⟨hopen, launch', hnew⟩ := willing_of_launches h
    · exact .inl ⟨launch, hsame ▸ hl, hp, rfl⟩
    · exact .inr hopen

/-- Only what is said of the settlements, the permits and the starts moves on. -/
theorem advance (hinv : Barrier w) (hs : w.shutdown = s) (htasks : w'.tasks = w.tasks)
    (hpermits : w'.gate.permits = w.gate.permits) (hlaunches : w'.launches = w.launches)
    (hhanded : w'.shutdown.handed = true) (hnot : ∀ failed handles, w'.shutdown ≠ .cancelling failed handles)
    (hfailing : ∀ id, s.failing id → w'.shutdown.failing id)
    (hover : w'.shutdown.over = true → s.over = true ∨ ∀ p operation,
      w.gate.permits.lookup p = some operation → w'.shutdown.failing operation.sourceId)
    (hshut : w'.shutdown.shut = true →
      s.shut = true ∧ w'.managerClosed = w.managerClosed ∨ w'.managerClosed = true)
    (hcounts : ∀ (l : ℕ) (launch : Launch), w.launches[l]? = some launch → launch.pending = true →
      w'.shutdown.counts launch.definition.id) : Barrier w' := by
  subst hs
  refine ⟨?_, fun _ _ _ _ => hhanded, fun failed handles _ _ hs => absurd hs (hnot _ _), ?_, ?_,
    fun h => (hshut h).elim (fun ⟨hshut, hmanager⟩ => hmanager.trans (hinv.shut hshut)) id, ?_⟩
  · rw [htasks]; exact hinv.torn
  · rw [htasks]
    exact fun t task ht hcan hbegun hor => hfailing _ (hinv.aborted t task ht hcan hbegun hor)
  · intro ho p operation hl
    rw [hpermits] at hl
    obtain hbefore | hnew := hover ho
    · exact hfailing _ (hinv.unsettled hbefore p operation hl)
    · exact hnew p operation hl
  · rw [hlaunches]; exact hcounts

/-- Before settlements are aborted nothing is said of any. -/
theorem early (hinv : Barrier w) (hbefore : w.shutdown.handed = false) (htasks : w'.tasks = w.tasks)
    (hafter : w'.shutdown.handed = false) : Barrier w' := by
  have hnone : ∀ (t : ℕ) (task : Task), w'.tasks[t]? = some task → task.cancelled ≠ true := by
    intro t task ht hcan
    rw [hinv.handed t task (htasks ▸ ht) hcan] at hbefore
    cases hbefore
  refine ⟨?_, fun t task ht hcan => absurd hcan (hnone t task ht), ?_,
    fun t task ht hcan => absurd hcan (hnone t task ht), ?_, ?_, ?_⟩
  · rw [htasks]; exact hinv.torn
  · intro failed handles _ _ hs
    rw [hs] at hafter
    cases hafter
  · intro ho
    rw [Shutdown.handed_of_over ho] at hafter
    cases hafter
  · intro hs
    rw [Shutdown.handed_of_over (Shutdown.over_of_shut hs)] at hafter
    cases hafter
  · intro l launch _ _
    cases hs : w'.shutdown <;> first | trivial | (rw [hs] at hafter; cases hafter)

theorem no_permit (hp : Permitted canonicalize w) (hnone : w.gate.inFlight = 0) (p : ℕ) :
    p ∉ w.gate.permits := by
  intro hmem
  have hsize := Dict.size_erase_of_mem hmem
  have := hp.held.gate.counted
  omega

/-- The settlements that are aborted are those that have begun among the ones handed over. -/
theorem abortSettlements_failed (hp : Permitted canonicalize w) {t : ℕ} {task : Task}
    (hmem : t ∈ w.gate.abortSettlements.2) (ht : w.tasks[t]? = some task) (hbegun : task.begun = true)
    (hpermitted : task.stage.permitted = true) :
    task.work.sourceId ∈ w.gate.abortSettlements.1 := by
  obtain ⟨⟨p, i⟩, hentry, rfl⟩ := mem_map.1 hmem
  have hlookup : w.gate.settlements.lookup p = some i := AList.mem_lookup_iff.2 hentry
  obtain ⟨task', ht', hpermit⟩ := hp.settlements p i hlookup
  cases ht.symm.trans ht'
  have hoperation := hp.tasks i task ht hpermitted
  refine mem_map.2 ⟨⟨task.work.sourceId, task.begun⟩, mem_filter.2 ⟨?_, hbegun⟩, rfl⟩
  refine mem_filterMap.2 ⟨p, ?_, hpermit ▸ hoperation⟩
  exact mem_map.2 ⟨⟨p, i⟩, hentry, rfl⟩

/-- A step of shutdown. -/
theorem shutdownStep {expire : Bool} (hinv : Barrier w) (hp : Permitted canonicalize w)
    (h : shutdownStep w expire answer = some w') : Barrier w' := by
  have hdrained : ∀ (s : Shutdown), w.gate.inFlight = 0 → ∀ p operation,
      w.gate.permits.lookup p = some operation → s.failing operation.sourceId :=
    fun s hnone p operation hl => absurd (Dict.mem_of_lookup hl) (no_permit hp hnone p)
  cases hs : w.shutdown with
  | idle | flagged =>
    cases answer <;> simp only [Lifecycle.shutdownStep, hs, reduceCtorEq, Option.some.injEq] at h
    subst h
    exact hinv.early (by rw [hs]; rfl) rfl rfl
  | draining =>
    cases answer <;> simp only [Lifecycle.shutdownStep, hs, reduceCtorEq] at h
    split_ifs at h with hexpire hnone <;> cases h
    · exact hinv.early (by rw [hs]; rfl) rfl rfl
    · exact hinv.advance hs rfl rfl rfl rfl (by rintro _ _ ⟨⟩) (fun _ => False.elim)
        (fun _ => .inr (hdrained _ hnone)) (by rintro ⟨⟩) fun _ _ _ _ => trivial
  | aborting =>
    cases answer <;> simp only [Lifecycle.shutdownStep, hs, reduceCtorEq, Option.some.injEq] at h
    subst h
    have hnone : ∀ (t : ℕ) (task : Task), w.tasks[t]? = some task → task.cancelled ≠ true := by
      intro t task ht hcan
      have := hinv.handed t task ht hcan
      rw [hs] at this
      cases this
    refine ⟨hinv.torn, fun _ _ _ _ => rfl, ?_, fun t task ht hcan => absurd hcan (hnone t task ht),
      (by rintro ⟨⟩), (by rintro ⟨⟩), fun _ _ _ _ => trivial⟩
    intro failed handles t task hstage hmem ht hbegun hpermitted
    obtain ⟨rfl, rfl⟩ := Shutdown.cancelling.inj hstage
    exact abortSettlements_failed hp hmem ht hbegun hpermitted
  | cancelling failed handles =>
    cases handles with
    | nil =>
      cases answer <;> simp only [Lifecycle.shutdownStep, hs, reduceCtorEq, Option.some.injEq] at h
      subst h
      exact hinv.advance hs rfl rfl rfl rfl (by rintro _ _ ⟨⟩) (fun _ => id) (by rintro ⟨⟩) (by rintro ⟨⟩)
        fun _ _ _ _ => trivial
    | cons t handles =>
      cases answer <;> simp only [Lifecycle.shutdownStep, hs, reduceCtorEq] at h
      split at h <;> cases h
      · rename_i task ht
        have hfailing : ∀ id, w.shutdown.failing id → id ∈ failed := fun id hid => by
          rw [hs] at hid; exact hid
        refine ⟨?_, fun _ _ _ _ => rfl, ?_, ?_, (by rintro ⟨⟩), (by rintro ⟨⟩),
          fun _ _ _ _ => trivial⟩
        · intro i task' hi htorn
          obtain ⟨rfl, rfl⟩ | ⟨-, hi⟩ := set_cases hi
          · rfl
          · exact hinv.torn i task' hi htorn
        · intro failed' handles' i task' hstage hmem hi hbegun hpermitted
          obtain ⟨rfl, rfl⟩ := Shutdown.cancelling.inj hstage
          obtain ⟨rfl, rfl⟩ | ⟨-, hi⟩ := set_cases hi
          · exact hinv.handles _ _ _ task hs (mem_cons_of_mem _ hmem) ht hbegun hpermitted
          · exact hinv.handles _ _ i task' hs (mem_cons_of_mem _ hmem) hi hbegun hpermitted
        · intro i task' hi hcan hbegun hor
          obtain ⟨rfl, rfl⟩ | ⟨-, hi⟩ := set_cases hi
          · obtain htorn | hpermitted := hor
            · exact hfailing _ (hinv.aborted _ task ht (hinv.torn _ task ht htorn) hbegun (.inl htorn))
            · exact hinv.handles _ _ _ task hs mem_cons_self ht hbegun hpermitted
          · exact hfailing _ (hinv.aborted i task' hi hcan hbegun hor)
      · refine ⟨hinv.torn, fun _ _ _ _ => rfl, ?_, ?_, (by rintro ⟨⟩), (by rintro ⟨⟩),
          fun _ _ _ _ => trivial⟩
        · intro failed' handles' i task' hstage hmem hi hbegun hpermitted
          obtain ⟨rfl, rfl⟩ := Shutdown.cancelling.inj hstage
          exact hinv.handles _ _ i task' hs (mem_cons_of_mem _ hmem) hi hbegun hpermitted
        · intro i task' hi hcan hbegun hor
          have := hinv.aborted i task' hi hcan hbegun hor
          rw [hs] at this
          exact this
  | redraining failed =>
    cases answer <;> simp only [Lifecycle.shutdownStep, hs, reduceCtorEq] at h
    split_ifs at h with hexpire hnone <;> cases h
    · exact hinv.advance hs rfl rfl rfl rfl (by rintro _ _ ⟨⟩) (fun _ => id) (by rintro ⟨⟩) (by rintro ⟨⟩)
        fun _ _ _ _ => trivial
    · exact hinv.advance hs rfl rfl rfl rfl (by rintro _ _ ⟨⟩) (fun _ => id)
        (fun _ => .inr (hdrained _ hnone)) (by rintro ⟨⟩) fun _ _ _ _ => trivial
  | expired failed =>
    cases answer <;> simp only [Lifecycle.shutdownStep, hs, reduceCtorEq, Option.some.injEq] at h
    subst h
    refine hinv.advance hs rfl rfl rfl rfl (by rintro _ _ ⟨⟩) (fun _ => mem_append_left _)
      (fun _ => .inr fun p operation hl => ?_) (by rintro ⟨⟩) fun _ _ _ _ => trivial
    refine mem_append_right _ (mem_map.2 ⟨⟨p, operation⟩, ?_, rfl⟩)
    exact AList.mem_lookup_iff.1 hl
  | unbinding failed =>
    cases answer <;> simp only [Lifecycle.shutdownStep, hs, reduceCtorEq, Option.some.injEq] at h
    subst h
    exact hinv.advance hs rfl rfl rfl rfl (by rintro _ _ ⟨⟩) (fun _ => id)
      (fun _ => .inl rfl) (by rintro ⟨⟩) fun _ _ _ _ => trivial
  | closing failed =>
    cases answer <;> simp only [Lifecycle.shutdownStep, hs, reduceCtorEq, Option.some.injEq] at h
    subst h
    exact hinv.advance hs rfl rfl rfl rfl (by rintro _ _ ⟨⟩) (fun _ => id)
      (fun _ => .inl rfl) (fun _ => .inr rfl) fun _ _ _ _ => trivial
  | waiting failed =>
    cases answer <;> simp only [Lifecycle.shutdownStep, hs, reduceCtorEq] at h
    split_ifs at h with hexpire hnone <;> cases h
    · exact hinv.advance hs rfl rfl rfl rfl (by rintro _ _ ⟨⟩) (fun _ => id)
        (fun _ => .inl rfl) (fun _ => .inl ⟨rfl, rfl⟩) fun _ _ _ _ => trivial
    · refine hinv.advance hs rfl rfl rfl rfl (by rintro _ _ ⟨⟩) (fun _ => id)
        (fun _ => .inl rfl) (fun _ => .inl ⟨rfl, rfl⟩) fun l launch hl hpending => ?_
      have := all_eq_true.1 hnone launch (mem_of_getElem? hl)
      simp [hpending] at this
  | collecting failed startsFinished =>
    cases answer <;> simp only [Lifecycle.shutdownStep, hs, reduceCtorEq, Option.some.injEq] at h
    subst h
    cases startsFinished with
    | true =>
      refine hinv.advance hs rfl rfl rfl rfl (by rintro _ _ ⟨⟩) (fun _ => id)
        (fun _ => .inl rfl) (fun _ => .inl ⟨rfl, rfl⟩) fun l launch hl hpending => ?_
      have := hinv.starts l launch hl hpending
      rw [hs] at this
      exact this.elim
    | false =>
      exact hinv.advance hs rfl rfl rfl rfl (by rintro _ _ ⟨⟩) (fun _ => id)
        (fun _ => .inl rfl) (fun _ => .inl ⟨rfl, rfl⟩) fun _ _ _ _ => trivial
  | listing failed handles =>
    cases answer <;> simp only [Lifecycle.shutdownStep, hs, reduceCtorEq, Option.some.injEq] at h
    subst h
    refine hinv.advance hs rfl rfl rfl rfl (by rintro _ _ ⟨⟩) (fun _ => id)
      (fun _ => .inl rfl) (fun _ => .inl ⟨rfl, rfl⟩) fun l launch hl hpending => ?_
    exact ⟨_, mem_map.2 ⟨launch, mem_filter.2 ⟨mem_of_getElem? hl, hpending⟩, rfl⟩⟩
  | stopping failed handles reports =>
    have hstarts : ∀ (l : ℕ) (launch : Launch), w.launches[l]? = some launch → launch.pending = true →
        Failed reports launch.definition.id := fun l launch hl hpending => by
      have := hinv.starts l launch hl hpending
      rw [hs] at this
      exact this
    cases handles with
    | nil =>
      cases answer <;> simp only [Lifecycle.shutdownStep, hs, reduceCtorEq, Option.some.injEq] at h
      subst h
      exact hinv.advance hs rfl rfl rfl rfl (by rintro _ _ ⟨⟩)
        (fun _ hid => settlementFailure_finalReports (.inl hid))
        (fun _ => .inl rfl)
        (fun _ => .inl ⟨rfl, rfl⟩)
        fun l launch hl hpending => failed_finalReports (hstarts l launch hl hpending)
    | cons id handles =>
      cases answer <;> simp only [Lifecycle.shutdownStep, hs, reduceCtorEq, Option.some.injEq] at h
      subst h
      exact hinv.advance hs rfl rfl rfl rfl (by rintro _ _ ⟨⟩) (fun _ hid => hid)
        (fun _ => .inl rfl) (fun _ => .inl ⟨rfl, rfl⟩)
        fun l launch hl hpending => (hstarts l launch hl hpending).imp fun _ => mem_append_left _
  | returned reports => cases answer <;> simp [Lifecycle.shutdownStep, hs] at h

/-- What is going to be reported: kept by every step. -/
theorem step {e : Event} (hinv : Barrier w) (hs : Single canonicalize session w) (hp : Permitted canonicalize w)
    (h : step canonicalize storeUnavailable w e = some w') : Barrier w' := by
  have hsame : ∀ (t : ℕ) (task' : Task), w.tasks[t]? = some task' →
      (task'.cancelled = false ∧ task'.torn = false ∧ task'.begun = false) ∨
      ∃ task, w.tasks[t]? = some task ∧ task'.work = task.work ∧ task'.cancelled = task.cancelled ∧
        (w.gate.closed = true → task'.begun = task.begun) ∧
        (task'.torn = true → task.torn = true ∨ task.cancelled = true ∧ task.stage.permitted = true) ∧
        (task'.stage.permitted = true → task.stage.permitted = true) :=
    fun t task ht => .inr ⟨task, ht, rfl, rfl, fun _ => rfl, .inl, id⟩
  have hlaunches : ∀ (l : ℕ) (launch : Launch), w.launches[l]? = some launch → launch.pending = true →
      (∃ launch', w.launches[l]? = some launch' ∧ launch'.pending = true ∧
        launch'.definition = launch.definition) ∨ w.managerClosed = false :=
    fun l launch hl hpending => .inl ⟨launch, hl, hpending, rfl⟩
  cases e with
  | request request | requestShutdown =>
    cases h
    exact hinv.frame hs rfl rfl (fun _ _ _ => id) hsame hlaunches
  | call c answer =>
    obtain ⟨call, hc, h⟩ := Option.bind_eq_some_iff.1 h
    obtain ⟨call', hspec⟩ := callStep_spec h
    exact hinv.callStep hs hspec
  | drop c =>
    obtain ⟨call, hc, h⟩ := Option.bind_eq_some_iff.1 h
    obtain ⟨gate, rfl, hgate⟩ := dropStep_spec h
    refine hinv.frame hs rfl rfl (fun _ p operation hl => ?_) hsame hlaunches
    obtain ⟨rfl, -⟩ | ⟨permit, -, rfl⟩ := hgate
    · exact hl
    · change (w.gate.permits.erase permit).lookup p = some operation at hl
      rw [Dict.lookup_erase_eq] at hl
      split_ifs at hl
      exact hl
  | task t answer =>
    obtain ⟨task, ht, h⟩ := Option.bind_eq_some_iff.1 h
    obtain ⟨task', hspec⟩ := taskStep_spec h
    exact hinv.taskStep hs ht hspec
  | tear t =>
    obtain ⟨task, ht, h⟩ := Option.bind_eq_some_iff.1 h
    obtain ⟨hcan, hawaits, htasks, -, heq, -⟩ := tearStep_spec h
    have hpermitted : task.stage.permitted = true := by
      cases hstage : task.stage <;> first | rfl | (rw [hstage] at hawaits; cases hawaits)
    refine hinv.frame hs (by rw [heq]) (by rw [heq]) (fun _ p operation hl => by rw [heq] at hl; exact hl)
      (fun i task' hi => ?_) (by rw [heq]; exact hlaunches)
    rw [htasks] at hi
    obtain ⟨rfl, rfl⟩ | ⟨-, hi⟩ := set_cases hi
    · exact .inr ⟨task, ht, rfl, rfl, fun _ => rfl, fun _ => .inr ⟨hcan, hpermitted⟩, fun _ => hpermitted⟩
    · exact hsame i task' hi
  | launch l answer =>
    obtain ⟨launch, hl, h⟩ := Option.bind_eq_some_iff.1 h
    have hmanager : w'.managerClosed = w.managerClosed := by
      have heff := launchStep_effect h
      cases heff <;> rfl
    obtain ⟨launch', hspec⟩ := Single.launchSpec_of_effect (launchStep_effect h)
    refine hinv.frame hs hspec.shutdown hmanager (fun _ p operation hl => by rw [hspec.gate] at hl; exact hl)
      (hspec.tasks ▸ hsame) fun i launch₁ hi hpending => ?_
    rw [hspec.launches] at hi
    obtain ⟨rfl, rfl⟩ | ⟨-, hi⟩ := set_cases hi
    · exact .inl ⟨launch, hl, hspec.pending hpending, hspec.definition.symm⟩
    · exact hlaunches i launch₁ hi hpending
  | ended sourceId =>
    replace h : endStep w sourceId = some w' := h
    unfold endStep at h
    split at h <;> cases h
    exact hinv.frame hs rfl rfl (fun _ _ _ => id) hsame hlaunches
  | shutdown expire answer => exact hinv.shutdownStep hp h

end Barrier

theorem Resumed.barrier {session : List SourceDefinition} (h : Resumed canonicalize session w) :
    Barrier w := by
  constructor <;> simp [h.tasks, h.launches, h.shutdown, Shutdown.over, Shutdown.shut]

variable {w₀ : World} {es : List Event}

theorem barrier_run (h₀ : Serves canonicalize w₀)
    (h : (worker canonicalize storeUnavailable).Run w₀ es w) :
    Single canonicalize w₀.session w ∧ Permitted canonicalize w ∧ Barrier w := by
  have hresumed := resumed_of_serves h₀
  have hall := h.invariant (I := fun w => (Keyed canonicalize w ∧
    Single canonicalize w₀.session w) ∧ Permitted canonicalize w ∧ Barrier w)
    ⟨⟨hresumed.keyed, hresumed.single⟩, hresumed.permitted, hresumed.barrier⟩
    fun s e s' hinv hstep => ⟨⟨hinv.1.1.step hstep, hinv.1.2.step hinv.1.1 hstep⟩,
      hinv.2.1.step hstep, hinv.2.2.step hinv.1.2 hinv.2.1 hstep⟩
  exact ⟨hall.1.2, hall.2⟩

/-! ### What the count counts -/

theorem nodup_filterMap {α : Type} {f : α → Option ℕ} {l : List α}
    (h : ∀ (i j : ℕ) (a b : α) (p : ℕ), l[i]? = some a → l[j]? = some b → f a = some p →
      f b = some p → i = j) : (l.filterMap f).Nodup := by
  induction l with
  | nil => exact nodup_nil
  | cons a l ih =>
    have ih := ih fun i j a b p hi hj ha hb => Nat.succ.inj (h (i + 1) (j + 1) a b p hi hj ha hb)
    cases ha : f a with
    | none => rwa [filterMap_cons_none ha]
    | some p =>
      rw [filterMap_cons_some ha]
      refine nodup_cons.2 ⟨fun hmem => ?_, ih⟩
      obtain ⟨b, hb, hp⟩ := mem_filterMap.1 hmem
      obtain ⟨j, hj⟩ := mem_iff_getElem?.1 hb
      cases h 0 (j + 1) a b p rfl hj ha hp

theorem mem_livePermits {p : ℕ} : p ∈ w.livePermits ↔ ∃ holder, w.permitOf holder = some p := by
  unfold World.livePermits
  rw [mem_append, mem_filterMap, mem_filterMap]
  constructor
  · rintro (⟨call, hc, hp⟩ | ⟨task, ht, hp⟩)
    · obtain ⟨c, hc⟩ := mem_iff_getElem?.1 hc
      exact ⟨.call c, by simp only [World.permitOf, hc, Option.bind_some, hp]⟩
    · obtain ⟨t, ht⟩ := mem_iff_getElem?.1 ht
      exact ⟨.task t, by simp only [World.permitOf, ht, Option.bind_some, hp]⟩
  · rintro ⟨holder, hp⟩
    cases holder with
    | call c =>
      obtain ⟨call, hc, hp⟩ := Option.bind_eq_some_iff.1 hp
      exact .inl ⟨call, mem_of_getElem? hc, hp⟩
    | task t =>
      obtain ⟨task, ht, hp⟩ := Option.bind_eq_some_iff.1 hp
      exact .inr ⟨task, mem_of_getElem? ht, hp⟩

/-- The count is that of the permits that are held. -/
theorem Permitted.inFlight (hp : Permitted canonicalize w) :
    w.gate.inFlight = w.livePermits.length := by
  have hcalls : (w.calls.filterMap (·.stage.permit)).Nodup :=
    nodup_filterMap fun i j a b p hi hj ha hb => Holder.call.inj (hp.held.one (.call i) (.call j) p
      (by simp only [World.permitOf, hi, Option.bind_some, ha])
      (by simp only [World.permitOf, hj, Option.bind_some, hb]))
  have htasks : (w.tasks.filterMap (·.held)).Nodup :=
    nodup_filterMap fun i j a b p hi hj ha hb => Holder.task.inj (hp.held.one (.task i) (.task j) p
      (by simp only [World.permitOf, hi, Option.bind_some, ha])
      (by simp only [World.permitOf, hj, Option.bind_some, hb]))
  have hlive : w.livePermits.Nodup := by
    refine hcalls.append htasks fun p hp₁ hp₂ => ?_
    obtain ⟨call, hc, hpc⟩ := mem_filterMap.1 hp₁
    obtain ⟨task, ht, hpt⟩ := mem_filterMap.1 hp₂
    obtain ⟨c, hc⟩ := mem_iff_getElem?.1 hc
    obtain ⟨t, ht⟩ := mem_iff_getElem?.1 ht
    have := hp.held.one (.call c) (.task t) p (by simp only [World.permitOf, hc, Option.bind_some, hpc])
      (by simp only [World.permitOf, ht, Option.bind_some, hpt])
    cases this
  have hperm : w.livePermits.Perm w.gate.permits.keys := by
    refine (perm_ext_iff_of_nodup hlive w.gate.permits.nodupKeys).2 fun p => ?_
    rw [mem_livePermits]
    refine ⟨fun h => ?_, hp.held.owned p⟩
    obtain ⟨holder, h⟩ := h
    exact hp.held.live holder p h
  rw [hp.held.gate.counted, hperm.length_eq]
  simp [Dict.size, AList.keys]

/-! ### After shutdown -/

/-- Only settlements, starts of the manager and captures that end change what is known, what is
captured and what is being started. -/
theorem step_cases (h : step canonicalize storeUnavailable w e = some w') :
    (w'.definitions = w.definitions ∧ w'.active = w.active ∧ w'.launches = w.launches) ∨
    (∃ (t : ℕ) (answer : Answer) (task task' : Task), e = .task t answer ∧ w.tasks[t]? = some task ∧
      TaskSpec canonicalize storeUnavailable w w' t task task') ∨
    (∃ (l : ℕ) (launch launch' : Launch), w.launches[l]? = some launch ∧
      LaunchEffect w l launch w' ∧ Single.LaunchSpec w w' l launch launch') ∨
    ∃ sourceId, endStep w sourceId = some w' := by
  cases e with
  | request request | requestShutdown => obtain rfl := Option.some.inj h; exact .inl ⟨rfl, rfl, rfl⟩
  | call c answer =>
    obtain ⟨call, hc, h⟩ := Option.bind_eq_some_iff.1 h
    obtain ⟨call', hspec⟩ := callStep_spec h
    exact .inl ⟨hspec.definitions, hspec.active, hspec.launches⟩
  | drop c =>
    obtain ⟨call, hc, h⟩ := Option.bind_eq_some_iff.1 h
    obtain ⟨gate, rfl, -⟩ := dropStep_spec h
    exact .inl ⟨rfl, rfl, rfl⟩
  | task t answer =>
    obtain ⟨task, ht, h⟩ := Option.bind_eq_some_iff.1 h
    obtain ⟨task', hspec⟩ := taskStep_spec h
    exact .inr (.inl ⟨t, answer, task, task', rfl, ht, hspec⟩)
  | tear t =>
    obtain ⟨task, ht, h⟩ := Option.bind_eq_some_iff.1 h
    obtain ⟨-, -, -, -, heq, -⟩ := tearStep_spec h
    exact .inl ⟨by rw [heq], by rw [heq], by rw [heq]⟩
  | launch l answer =>
    obtain ⟨launch, hl, h⟩ := Option.bind_eq_some_iff.1 h
    have heff := launchStep_effect h
    obtain ⟨launch', hspec⟩ := Single.launchSpec_of_effect heff
    exact .inr (.inr (.inl ⟨l, launch, launch', hl, heff, hspec⟩))
  | ended sourceId => exact .inr (.inr (.inr ⟨sourceId, h⟩))
  | shutdown expire answer =>
    have hspec := shutdownStep_spec h
    exact .inl ⟨hspec.definitions, hspec.active, hspec.launches⟩

theorem definitions_step (h : step canonicalize storeUnavailable w e = some w') :
    w'.definitions = w.definitions ∨ ∃ (t : ℕ) (answer : Answer) (task : Task) (d : SourceDefinition),
      e = .task t answer ∧ w.tasks[t]? = some task ∧ task.stage = .publishing d ∧
      w'.definitions = w.definitions.insert d.id d := by
  obtain ⟨hsame, -⟩ | ⟨t, answer, task, task', rfl, ht, hspec⟩ | ⟨l, launch, launch', -, -, hspec⟩ |
    ⟨sourceId, h⟩ := step_cases h
  · exact .inl hsame
  · have hdefinitions := hspec.definitions
    split at hdefinitions
    · exact .inr ⟨t, answer, task, _, rfl, ht, ‹_›, hdefinitions⟩
    · exact .inl hdefinitions
  · exact .inl hspec.definitions
  · unfold endStep at h
    split at h <;> cases h
    exact .inl rfl

/-- A source comes to be live when a start puts its capture into the manager's map. -/
theorem isLive_step (h : step canonicalize storeUnavailable w e = some w')
    (hlive : w'.isLive id = true) : w.isLive id = true ∨ ∃ (l : ℕ) (launch : Launch),
      w.launches[l]? = some launch ∧ launch.stage = .checked ∧ launch.definition.id = id := by
  have hsame : w'.active = w.active → w.isLive id = true := by
    intro hactive
    unfold World.isLive at hlive ⊢
    rw [hactive] at hlive
    exact hlive
  obtain ⟨-, hactive, -⟩ | ⟨t, answer, task, task', -, ht, hspec⟩ | ⟨l, launch, launch', hl, -, hspec⟩ |
    ⟨sourceId, h⟩ := step_cases h
  · exact .inl (hsame hactive)
  · exact .inl (hsame hspec.active)
  · obtain hactive | ⟨hchecked, -, terminal, hactive⟩ := hspec.active
    · exact .inl (hsame hactive)
    · by_cases hid : launch.definition.id = id
      · exact .inr ⟨l, launch, hl, hchecked, hid⟩
      · left
        unfold World.isLive at hlive ⊢
        rw [hactive, Dict.lookup_insert_eq, if_neg (Ne.symm hid)] at hlive
        exact hlive
  · unfold endStep at h
    split at h <;> cases h
    left
    unfold World.isLive at hlive ⊢
    simp only [Dict.lookup_insert_eq] at hlive
    split_ifs at hlive
    · cases hlive
    · exact hlive

/-- A closed manager begins no capture. -/
theorem not_acquires (h : step canonicalize storeUnavailable w e = some w')
    (hclosed : w.managerClosed = true) (d : SourceDefinition) : ¬ Acquires w d w' := by
  rintro ⟨l, launch, launch', hl, hstage, -, hl', hstage'⟩
  have hsame : w'.launches[l]? = w.launches[l]? → False := by
    intro hlaunches
    rw [hlaunches, hl] at hl'
    cases hl'
    cases hstage.symm.trans hstage'
  obtain ⟨-, -, hlaunches⟩ | ⟨t, answer, task, task', -, ht, hspec⟩ |
    ⟨i, launch₁, launch₂, hi, heff, hspec⟩ | ⟨sourceId, h⟩ := step_cases h
  · exact hsame (by rw [hlaunches])
  · obtain hlaunches | ⟨hopen, -⟩ := Barrier.willing_of_launches hspec
    · exact hsame (by rw [hlaunches])
    · rw [hclosed] at hopen; cases hopen
  · by_cases hil : i = l
    · subst hil
      cases hi.symm.trans hl
      have hlt := (List.getElem?_eq_some_iff.1 hi).1
      cases heff with
      | acquire _ hopen => rw [hclosed] at hopen; cases hopen
      | fail | prepare | check | install | answer =>
        rw [show World.launches _ = w.launches.set i _ from rfl, getElem?_set_self hlt] at hl'
        cases hl'
        cases hstage'
    · exact hsame (by rw [hspec.launches, getElem?_set_ne hil])
  · unfold endStep at h
    split at h <;> cases h
    exact hsame rfl

/-- A step behind a closed gate: it stays closed, and no settlement begins. -/
theorem closed_step (h : step canonicalize storeUnavailable w e = some w')
    (hclosed : w.gate.closed = true) : w'.gate.closed = true ∧ ∀ (t : ℕ) (task' : Task),
      w'.tasks[t]? = some task' → task'.begun = true →
      ∃ task, w.tasks[t]? = some task ∧ task.begun = true := by
  have hsame : ∀ (t : ℕ) (task' : Task), w.tasks[t]? = some task' → task'.begun = true →
      ∃ task, w.tasks[t]? = some task ∧ task.begun = true := fun t task ht hb => ⟨task, ht, hb⟩
  obtain ⟨c, answer, call, call', -, hc, -, hspec⟩ | ⟨t, answer, task, task', -, ht, -, hspec⟩ |
    haside := step_spec h
  · refine ⟨hspec.closed.trans hclosed, fun t task' ht hb => ?_⟩
    obtain ht | ⟨_, _, -, -, rfl⟩ := hspec.spawned ht
    · exact hsame t task' ht hb
    · cases hb
  · refine ⟨hspec.closed.trans hclosed, fun i task₁ hi hb => ?_⟩
    rw [hspec.tasks] at hi
    obtain ⟨rfl, rfl⟩ | ⟨-, hi⟩ := set_cases hi
    · cases hspec.gate with
      | same _ hbegun | leaves _ _ hbegun => exact ⟨task, ht, hbegun ▸ hb⟩
      | begins _ hgate =>
        obtain ⟨hopen, -⟩ := LifecycleState.beginPermit_ok hgate
        rw [hclosed] at hopen
        cases hopen
    · exact hsame i task₁ hi hb
  · refine ⟨haside.closed hclosed, fun i task' hi hb => ?_⟩
    obtain ⟨task, hi, hrests⟩ := haside.tasks i task' hi
    exact ⟨task, hi, hrests.begun ▸ hb⟩

/-- **Shutdown is a barrier.**  The count of what is in flight is that of the permits held, within
the cap; behind the closed gate nothing begins; the gate is drained only when no permit is held;
once shutdown has returned, the source of every settlement that had begun and was torn down or is
not through is reported as failed; and in every run that meets the condition, what is reported as
stopped is not published, nor started, afterwards. -/
theorem shutdown_is_barrier (h₀ : Serves canonicalize w₀)
    (h : ((worker canonicalize storeUnavailable).only Owned).Run w₀ es w) :
    (w.gate.inFlight = w.livePermits.length ∧ w.gate.inFlight ≤ maxLifecycleSettlements) ∧
    (∀ e w', step canonicalize storeUnavailable w e = some w' → w.gate.closed = true →
      w'.gate.closed = true ∧ ∀ (t : ℕ) (task' : Task), w'.tasks[t]? = some task' →
        task'.begun = true → ∃ task, w.tasks[t]? = some task ∧ task.begun = true) ∧
    (∀ failed w', w.shutdown = .draining ∨ w.shutdown = .redraining failed →
      step canonicalize storeUnavailable w (.shutdown false .none) = some w' → w.livePermits = []) ∧
    (∀ reports, w.shutdown = .returned reports → ∀ (t : ℕ) (task : Task), w.tasks[t]? = some task →
      task.begun = true → task.torn = true ∨ task.stage ≠ .finished →
      Failed reports task.work.sourceId) ∧
    ∀ reports id e w', w.shutdown = .returned reports → ReportedStopped reports id →
      ((worker canonicalize storeUnavailable).only Owned).step w e w' →
      (∀ t answer, e = .task t answer → ¬ Adds id w e) ∧
      w'.definitions.lookup id = w.definitions.lookup id ∧
      (w'.isLive id = true → w.isLive id = true) ∧ ∀ d, d.id = id → ¬ Acquires w d w' := by
  obtain ⟨hs, hp, hb⟩ := barrier_run h₀ h.of_only
  have hpermitted : ∀ task : Task, task.stage ≠ .finished → task.stage.permitted = true := by
    intro task hne
    cases hstage : task.stage <;> first | rfl | exact absurd hstage hne
  refine ⟨⟨hp.inFlight, hp.held.gate.capped⟩, fun e w' hstep => closed_step hstep,
    fun failed w' hstage hstep => ?_, fun reports hreturned t task ht hbegun hor => ?_,
    fun reports id e w' hreturned hstopped hstep => ?_⟩
  · have hnone : w.gate.inFlight = 0 := by
      obtain hstage | hstage := hstage <;>
        simp only [step, shutdownStep, hstage, Bool.false_eq_true, if_false] at hstep <;>
        split_ifs at hstep with hnone <;> exact hnone
    rw [hp.inFlight] at hnone
    exact length_eq_zero_iff.1 hnone
  · have hfailing : w.shutdown.failing task.work.sourceId := by
      obtain htorn | hne := hor
      · exact hb.aborted t task ht (hb.torn t task ht htorn) hbegun (.inl htorn)
      · exact hb.unsettled (by rw [hreturned]; rfl) _ _ (hp.tasks t task ht (hpermitted task hne))
    rw [hreturned] at hfailing
    exact ⟨_, hfailing⟩
  · obtain ⟨howned, hstep⟩ := hstep
    -- a settlement that publishes is not through, and its source is reported as failed
    have hpublish : ∀ (t : ℕ) (task : Task) d, w.tasks[t]? = some task → task.stage = .publishing d →
        d.id ≠ id := by
      rintro t task d ht hstage rfl
      have hown := howned reports hreturned t task d ht (by rw [hstage]; rfl)
      have hfailing := hb.unsettled (by rw [hreturned]; rfl) _ _ (hp.tasks t task ht (by rw [hstage]; rfl))
      rw [hreturned] at hfailing
      exact hstopped.2 ⟨_, hown ▸ hfailing⟩
    refine ⟨?_, ?_, fun hlive => ?_, fun d _ => not_acquires hstep (hb.shut (by rw [hreturned]; rfl)) d⟩
    · rintro t answer rfl ⟨task, d, ht, hstage, hid⟩
      exact hpublish t task d ht hstage hid
    · obtain hsame | ⟨t, answer, task, d, -, ht, hstage, hdefinitions⟩ := definitions_step hstep
      · rw [hsame]
      · rw [hdefinitions, Dict.lookup_insert_eq, if_neg (Ne.symm (hpublish t task d ht hstage))]
    · obtain hlive | ⟨l, launch, hl, hstage, rfl⟩ := isLive_step hstep hlive
      · exact hlive
      · have hfailed := hb.starts l launch hl (by simp [Launch.pending, hstage])
        rw [hreturned] at hfailed
        exact absurd hfailed hstopped.2

/-! ### Shutdowns that give up -/

/-- Shutdown until it has aborted the settlement of a task. -/
def abortEvents : List Event :=
  [.shutdown false .none, .shutdown false .none, .shutdown true .none, .shutdown false .none,
    .shutdown false .none, .shutdown false .none]

/-- A file is asked for while its capture is being prepared, and shutdown gives up on it. -/
def stuckStart : List Event :=
  leadEvents 0 (fileSource 1 97) ++ pollEvents 0 ++ [.task 0 (.live []), .task 0 .none] ++
    abortEvents ++ [.tear 0, .task 0 .none] ++ List.replicate 3 (.shutdown false .none) ++
    [.shutdown true .none] ++ List.replicate 3 (.shutdown false .none)

/-- A captured file is stopped, and asked for again under another id; its settlement is about to
publish the restarted source when shutdown gives up on it. -/
def foreignRestart : List Event :=
  firstStart (fileSource 1 97) ++ [.ended (fileSource 1 97).id] ++
    .request (.stop (fileSource 1 97).id) :: List.replicate 3 (.call 1 .none) ++
    List.replicate 6 (.task 1 .none) ++ [.task 1 (.io (.ok ()))] ++ List.replicate 3 (.task 1 .none) ++
    leadEvents 2 (fileSource 2 97) ++ pollEvents 2 ++ [.task 2 (.live [fileSource 1 97])] ++
    List.replicate 4 (.task 2 .none) ++
    [.launch 1 (.io (.ok ())), .launch 1 (.io (.ok ())), .launch 1 .none, .launch 1 (.ended false),
      .launch 1 .none, .task 2 .none] ++
    abortEvents ++ [.shutdown true .none] ++ List.replicate 5 (.shutdown false .none) ++
    [.shutdown false (.stop (.ok true)), .shutdown false .none]

/-- Shutdown has returned these reports. -/
def World.returned (w : World) (reports : List Report) : Bool :=
  match w.shutdown with
  | .returned reports' => decide (reports' = reports)
  | _ => false

theorem World.eq_of_returned {w : World} (h : w.returned reports = true) :
    w.shutdown = .returned reports := by
  unfold World.returned at h
  split at h
  · rename_i hs
    rw [hs, of_decide_eq_true h]
  · cases h

/-- The restarted source is reported as stopped, and then becomes a member of the session. -/
theorem stopped_source_is_published : ∃ w w' reports, Serves some (.opened [] ∅) ∧
    (worker some none).Run (.opened [] ∅) foreignRestart w ∧ w.shutdown = .returned reports ∧
    ReportedStopped reports (fileSource 1 97).id ∧ step some none w (.task 2 .none) = some w' ∧
    Adds (fileSource 1 97).id w (.task 2 .none) ∧ ¬ Member w.session (fileSource 1 97).id ∧
    Member w'.session (fileSource 1 97).id := by
  obtain ⟨w, hw, hreturned, hsession, htask, hnext⟩ : ∃ w,
      (worker some none).Run (.opened [] ∅) foreignRestart w ∧
      w.returned [((fileSource 1 97).id, .ok "stopped"), ((fileSource 2 97).id, settlementFailure)] ∧
      w.session = [] ∧
      (w.tasks[2]?).any (fun task : Task => decide (task.stage = .publishing (fileSource 1 97))) = true ∧
      (step some none w (.task 2 .none)).any (fun w' => decide (w'.session = [fileSource 1 97])) = true :=
    Machine.exists_run (by decide +kernel)
  simp only [Option.any_eq_true, decide_eq_true_eq] at htask hnext
  obtain ⟨task, ht, hstage⟩ := htask
  obtain ⟨w', hstep, hsession'⟩ := hnext
  refine ⟨w, w', _, serves_opened, hw, w.eq_of_returned hreturned,
    ⟨⟨_, mem_cons_self⟩, ?_⟩, hstep, ⟨task, _, ht, hstage, rfl⟩, ?_, ?_⟩
  · rintro ⟨error, hmem⟩
    obtain h | h := mem_cons.1 hmem
    · cases (Prod.mk.inj h).2
    · exact absurd (Prod.mk.inj (mem_singleton.1 h)).1 (by decide)
  · rw [hsession]
    rintro ⟨d, hd, -⟩
    cases hd
  · rw [hsession']
    exact ⟨_, mem_singleton.2 rfl, rfl⟩

/-- Shutdown has not returned. -/
def World.serving (w : World) : Bool :=
  match w.shutdown with
  | .returned _ => false
  | _ => true

theorem owned_of_serving (h : w.serving = true) : Owned w e := by
  intro reports hreturned
  unfold World.serving at h
  rw [hreturned] at h
  cases h

/-- A start that shutdown gives up on is reported as failed. -/
theorem stuck_start_is_reported : ∃ w reports,
    ((worker some none).only Owned).Run (.opened [] ∅) stuckStart w ∧ w.shutdown = .returned reports ∧
    w.livePermits.length ≤ maxLifecycleSettlements ∧ Failed reports (fileSource 1 97).id := by
  obtain ⟨w, hw, hreturned, htask⟩ : ∃ w,
      ((worker some none).only fun w _ => w.serving = true).Run (.opened [] ∅) stuckStart w ∧
      w.returned [((fileSource 1 97).id, settlementFailure)] = true ∧
      ((w.tasks[0]?).any fun task : Task => task.begun && task.torn &&
        decide (task.work.sourceId = (fileSource 1 97).id)) = true :=
    Machine.exists_run_only (by decide +kernel)
  simp only [Option.any_eq_true, Bool.and_eq_true, decide_eq_true_eq] at htask
  obtain ⟨task, ht, ⟨hbegun, htorn⟩, hid⟩ := htask
  have hw := hw.only_mono fun w e h => (owned_of_serving h : Owned w e)
  obtain ⟨⟨hcount, hcap⟩, -, -, hfailed, -⟩ := shutdown_is_barrier serves_opened hw
  exact ⟨w, _, hw, w.eq_of_returned hreturned, hcount ▸ hcap,
    hid ▸ hfailed _ (w.eq_of_returned hreturned) 0 task ht hbegun (.inl htorn)⟩

end Lvu.Shared.Lifecycle
