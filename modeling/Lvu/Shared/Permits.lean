import Lvu.Shared.Starts

/-!
# Who holds a permit

A permit is held by the request that entered, until it hands it to its settlement or leaves, and
then by the settlement, until it is through.

* `Held` : every permit has one holder; kept by what holders and the gate do.
* `Permitted` : the permits of the worker's requests and settlements, and what they are for.
* `permitted_run` : this holds in every state the worker reaches.
-/

namespace Lvu.Shared

open List

/-- Every live permit has one holder, and a holder's permit is live. -/
structure Held {H : Type} (holds : H → Option ℕ) (g : LifecycleState) : Prop where
  gate : GateInv g
  live : ∀ h p, holds h = some p → p ∈ g.permits
  owned : ∀ p ∈ g.permits, ∃ h, holds h = some p
  one : ∀ h h' p, holds h = some p → holds h' = some p → h = h'

namespace Held

open LifecycleState

variable {H : Type} {holds holds' : H → Option ℕ} {g g' : LifecycleState} {a b : H} {p task : ℕ}
  {sourceId : SourceId}

theorem congr (h : Held holds g) (hsame : ∀ c, holds' c = holds c) : Held holds' g := by
  rw [show holds' = holds from funext hsame]
  exact h

theorem enter (h : Held holds g) (hok : g.tryEnter sourceId = .ok (p, g')) (hbefore : holds a = none)
    (hafter : holds' a = some p) (hrest : ∀ c, c ≠ a → holds' c = holds c) : Held holds' g' := by
  have hgate := h.gate.tryEnter hok
  obtain ⟨-, -, rfl, rfl⟩ := tryEnter_ok hok
  have hnew : ∀ c, holds c ≠ some g.nextId := fun c hc =>
    absurd (h.gate.fresh _ (h.live c _ hc)) (lt_irrefl _)
  refine ⟨hgate, fun c q hc => ?_, fun q hq => ?_, fun c c' q hc hc' => ?_⟩
  · by_cases hca : c = a
    · rw [hca, hafter] at hc
      exact (AList.mem_insert _).2 (.inl (Option.some.inj hc).symm)
    · exact (AList.mem_insert _).2 (.inr (h.live c q (hrest c hca ▸ hc)))
  · obtain rfl | hq := (AList.mem_insert _).1 hq
    · exact ⟨a, hafter⟩
    · obtain ⟨c, hc⟩ := h.owned q hq
      have hca : c ≠ a := by
        intro hca
        rw [hca, hbefore] at hc
        cases hc
      exact ⟨c, (hrest c hca).trans hc⟩
  · by_cases hca : c = a <;> by_cases hca' : c' = a
    · rw [hca, hca']
    · rw [hca, hafter] at hc
      exact absurd ((hrest c' hca').symm.trans hc') (Option.some.inj hc ▸ hnew c')
    · rw [hca', hafter] at hc'
      exact absurd ((hrest c hca).symm.trans hc) (Option.some.inj hc' ▸ hnew c)
    · exact h.one c c' q ((hrest c hca).symm.trans hc) ((hrest c' hca').symm.trans hc')

theorem move (h : Held holds g) (hfrom : holds a = some p) (hto : holds b = none)
    (hfrom' : holds' a = none) (hto' : holds' b = some p)
    (hrest : ∀ c, c ≠ a → c ≠ b → holds' c = holds c) : Held holds' g := by
  have hback : ∀ c q, holds' c = some q → c = b ∧ q = p ∨ c ≠ a ∧ c ≠ b ∧ holds c = some q := by
    intro c q hc
    by_cases hcb : c = b
    · rw [hcb, hto'] at hc
      exact .inl ⟨hcb, (Option.some.inj hc).symm⟩
    · have hca : c ≠ a := by
        intro hca
        rw [hca, hfrom'] at hc
        cases hc
      exact .inr ⟨hca, hcb, (hrest c hca hcb).symm.trans hc⟩
  refine ⟨h.gate, fun c q hc => ?_, fun q hq => ?_, fun c c' q hc hc' => ?_⟩
  · obtain ⟨-, rfl⟩ | ⟨-, -, hc⟩ := hback c q hc
    · exact h.live a _ hfrom
    · exact h.live c q hc
  · obtain ⟨c, hc⟩ := h.owned q hq
    by_cases hca : c = a
    · rw [hca, hfrom] at hc
      exact ⟨b, hto'.trans hc⟩
    · have hcb : c ≠ b := by
        intro hcb
        rw [hcb, hto] at hc
        cases hc
      exact ⟨c, (hrest c hca hcb).trans hc⟩
  · obtain ⟨rfl, rfl⟩ | ⟨hca, -, hc⟩ := hback c q hc
    · obtain ⟨rfl, -⟩ | ⟨hca', -, hc'⟩ := hback c' q hc'
      · rfl
      · exact absurd (h.one c' a q hc' hfrom) hca'
    · obtain ⟨rfl, rfl⟩ | ⟨-, -, hc'⟩ := hback c' q hc'
      · exact absurd (h.one c a q hc hfrom) hca
      · exact h.one c c' q hc hc'

theorem leave (h : Held holds g) (hbefore : holds a = some p) (hafter : holds' a = none)
    (hrest : ∀ c, c ≠ a → holds' c = holds c) : Held holds' (g.dropPermit p) := by
  have hback : ∀ c q, holds' c = some q → c ≠ a ∧ holds c = some q := by
    intro c q hc
    have hca : c ≠ a := by
      intro hca
      rw [hca, hafter] at hc
      cases hc
    exact ⟨hca, (hrest c hca).symm.trans hc⟩
  refine ⟨h.gate.dropPermit (h.live a p hbefore), fun c q hc => ?_, fun q hq => ?_,
    fun c c' q hc hc' => h.one c c' q (hback c q hc).2 (hback c' q hc').2⟩
  · obtain ⟨hca, hc⟩ := hback c q hc
    refine AList.mem_erase.2 ⟨fun hqp => hca (h.one c a q hc ?_), h.live c q hc⟩
    rw [hqp, hbefore]
  · obtain ⟨hne, hq⟩ := AList.mem_erase.1 hq
    obtain ⟨c, hc⟩ := h.owned q hq
    have hca : c ≠ a := by
      intro hca
      rw [hca, hbefore] at hc
      exact hne (Option.some.inj hc).symm
    exact ⟨c, (hrest c hca).trans hc⟩

theorem begins (h : Held holds g) (hok : g.beginPermit p = .ok g') : Held holds g' := by
  have hgate := h.gate.beginPermit hok
  obtain ⟨-, operation, hp, rfl⟩ := beginPermit_ok hok
  have hmem : ∀ q, q ∈ g.permits.insert p { operation with begun := true } ↔ q ∈ g.permits := by
    intro q
    rw [AList.mem_insert]
    exact ⟨fun hq => hq.elim (fun hq => hq ▸ Dict.mem_of_lookup hp) id, .inr⟩
  exact ⟨hgate, fun c q hc => (hmem q).2 (h.live c q hc), fun q hq => h.owned q ((hmem q).1 hq), h.one⟩

theorem close (h : Held holds g) : Held holds g.close :=
  ⟨h.gate.close, h.live, h.owned, h.one⟩

theorem attach (h : Held holds g) : Held holds (g.attachSettlement p task) := by
  refine ⟨h.gate.attachSettlement, ?_, ?_, h.one⟩
  · simpa using h.live
  · simpa using h.owned

end Held

namespace Lifecycle

/-- A request or a settlement. -/
inductive Holder
  | call (c : ℕ)
  | task (t : ℕ)
deriving DecidableEq

/-- The permit a settlement holds: its own, until it is through. -/
def Task.held (task : Task) : Option ℕ :=
  if task.stage.permitted then some task.permit else none

/-- The permit of a holder. -/
def World.permitOf (w : World) : Holder → Option ℕ
  | .call c => (w.calls[c]?).bind (·.stage.permit)
  | .task t => (w.tasks[t]?).bind (·.held)

/-- The permits of requests and settlements, and what they are for. -/
structure Permitted (canonicalize : Path → Option Path) (w : World) : Prop where
  held : Held w.permitOf w.gate
  asked : ∀ (c : ℕ) (call : Call) p sourceId, w.calls[c]? = some call → call.stage.permit = some p →
    call.stage.asked canonicalize call.request = some sourceId →
    w.gate.permits.lookup p = some ⟨sourceId, false⟩
  tasks : ∀ (t : ℕ) (task : Task), w.tasks[t]? = some task → task.stage.permitted = true →
    w.gate.permits.lookup task.permit = some ⟨task.work.sourceId, task.begun⟩
  begun : ∀ (t : ℕ) (task : Task), w.tasks[t]? = some task → task.stage.acts = true →
    task.begun = true
  attaching : ∀ (c : ℕ) (call : Call) work p t, w.calls[c]? = some call →
    call.stage = .attaching work p t → ∃ task, w.tasks[t]? = some task ∧ task.permit = p
  settlements : ∀ p t, w.gate.settlements.lookup p = some t →
    ∃ task, w.tasks[t]? = some task ∧ task.permit = p

variable {canonicalize : Path → Option Path} {storeUnavailable : Option String}
  {w w' : World} {t : ℕ} {task : Task} {answer : Answer} {c : ℕ} {call : Call}

theorem Next.permitted {stage : Stage} (h : Next canonicalize storeUnavailable w task stage) :
    task.stage.permitted = true := by
  cases h with
  | fail h | stopEnd h => cases hs : task.stage <;> first | rfl | (rw [hs] at h; cases h)
  | recalled h | start h | forget h => obtain h | h := h <;> rw [h] <;> rfl
  | send h => obtain ⟨_, h⟩ | ⟨_, h⟩ := h <;> rw [h] <;> rfl
  | poll h | lock h | begins h | refuse h | admitted h | present h | live h | stale h | stop h
    | launch h | launched h | publish h | publishUnstored h | stored h | unbind h | awaitStop h
    | forgot h | announce h | retire h | release h | leave h => rw [h]; rfl

theorem permitOf_call {call' : Call} (hc : w.calls[c]? = some call)
    (hcalls : w'.calls = w.calls.set c call') {i : ℕ} :
    w'.permitOf (.call i) = if i = c then call'.stage.permit else w.permitOf (.call i) := by
  simp only [World.permitOf, hcalls, getElem?_set]
  have hlt := (List.getElem?_eq_some_iff.1 hc).1
  by_cases hic : i = c
  · simp [hic, hlt]
  · simp [hic, Ne.symm hic]

theorem permitOf_task {task' : Task} (ht : w.tasks[t]? = some task)
    (htasks : w'.tasks = w.tasks.set t task') {i : ℕ} :
    w'.permitOf (.task i) = if i = t then task'.held else w.permitOf (.task i) := by
  simp only [World.permitOf, htasks, getElem?_set]
  have hlt := (List.getElem?_eq_some_iff.1 ht).1
  by_cases hit : i = t
  · simp [hit, hlt]
  · simp [hit, Ne.symm hit]

theorem permitOf_task_of_lt (h : w'.tasks = w.tasks) {i : ℕ} :
    w'.permitOf (.task i) = w.permitOf (.task i) := by
  simp only [World.permitOf, h]

theorem permitOf_call_of_eq (h : w'.calls = w.calls) {i : ℕ} :
    w'.permitOf (.call i) = w.permitOf (.call i) := by
  simp only [World.permitOf, h]

namespace Permitted

/-- A step of a request. -/
theorem callStep_held {call' : Call} (hinv : Permitted canonicalize w) (hc : w.calls[c]? = some call)
    (h : CallSpec canonicalize w w' c call call') : Held w'.permitOf w'.gate := by
  have hself : w.permitOf (.call c) = call.stage.permit := by simp [World.permitOf, hc]
  have hcall : ∀ i, w'.permitOf (.call i) = if i = c then call'.stage.permit else w.permitOf (.call i) :=
    fun i => permitOf_call hc h.calls
  -- a request that is not about to spawn spawns nothing
  have htask : (∀ work permit, call.stage ≠ .spawning work permit) → ∀ i,
      w'.permitOf (.task i) = w.permitOf (.task i) := by
    intro hspawn i
    refine permitOf_task_of_lt ?_
    rw [h.tasks]
    split
    · exact absurd ‹_› (hspawn _ _)
    · rfl
  have hrest : (∀ work permit, call.stage ≠ .spawning work permit) → ∀ holder, holder ≠ .call c →
      w'.permitOf holder = w.permitOf holder := by
    intro hspawn holder hne
    cases holder with
    | call i => rw [hcall, if_neg fun hic => hne (by rw [hic])]
    | task i => exact htask hspawn i
  have hkeep : (∀ work permit, call.stage ≠ .spawning work permit) →
      call'.stage.permit = call.stage.permit → ∀ holder, w'.permitOf holder = w.permitOf holder := by
    intro hspawn hpermit holder
    by_cases hne : holder = .call c
    · rw [hne, hcall, if_pos rfl, hself, hpermit]
    · exact hrest hspawn holder hne
  cases h.gate with
  | same hgate hpermit hspawn => rw [hgate]; exact hinv.held.congr (hkeep hspawn hpermit)
  | enters hbefore hgate hafter =>
    refine hinv.held.enter (a := Holder.call c) hgate (hself.trans hbefore) ?_
      (hrest fun work permit hs => ?_)
    · rw [hcall, if_pos rfl, hafter]
    · rw [hs] at hbefore; cases hbefore
  | @spawns work permit task hs hgate hafter =>
    rw [hgate]
    have hnew : w'.tasks = w.tasks ++ [⟨c, workOf canonicalize call.request work, permit, .spawned,
        false, false, false, none⟩] := by rw [h.tasks, hs]
    refine hinv.held.move (p := permit) (a := Holder.call c) (b := Holder.task w.tasks.length) ?_ ?_ ?_ ?_ ?_
    · rw [hself, hs]; rfl
    · simp [World.permitOf]
    · rw [hcall, if_pos rfl, hafter]; rfl
    · simp [World.permitOf, hnew, Task.held, Stage.permitted]
    · intro holder hne hne'
      cases holder with
      | call i => rw [hcall, if_neg fun hic => hne (by rw [hic])]
      | task i =>
        have hi : i ≠ w.tasks.length := fun hi => hne' (by rw [hi])
        simp only [World.permitOf, hnew]
        rcases Nat.lt_or_gt_of_ne hi with hlt | hgt
        · rw [getElem?_append_left hlt]
        · rw [getElem?_eq_none (by simp; omega), getElem?_eq_none (by omega)]
  | attaches hs hgate hafter =>
    rw [hgate]
    refine (hinv.held.congr (hkeep ?_ ?_)).attach
    · intro work permit hs'
      cases hs.symm.trans hs'
    · rw [hafter, hs]; rfl
  | leaves hs hgate hafter =>
    rw [hgate]
    refine hinv.held.leave (a := Holder.call c) ?_ ?_ (hrest fun work permit hs' => ?_)
    · rw [hself, hs]; rfl
    · rw [hcall, if_pos rfl, hafter]
    · cases hs.symm.trans hs'

/-- The permits of the others stay as they are. -/
theorem lookup_callStep {call' : Call} (hinv : Permitted canonicalize w) (hc : w.calls[c]? = some call)
    (h : CallSpec canonicalize w w' c call call') {holder : Holder} {q : ℕ}
    (hheld : w.permitOf holder = some q) (hne : holder ≠ .call c) :
    w'.gate.permits.lookup q = w.gate.permits.lookup q := by
  cases h.gate with
  | same hgate | spawns _ hgate => rw [hgate]
  | enters _ hgate =>
    obtain ⟨-, -, -, hgate⟩ := LifecycleState.tryEnter_ok hgate
    rw [hgate]
    refine AList.lookup_insert_ne fun hq => ?_
    exact absurd (hinv.held.gate.fresh q (hinv.held.live holder q hheld)) (hq ▸ lt_irrefl _)
  | attaches _ hgate => rw [hgate, LifecycleState.attachSettlement_permits]
  | leaves hs hgate =>
    rw [hgate, LifecycleState.dropPermit_permits]
    refine AList.lookup_erase_ne fun hq => hne (hinv.held.one _ _ q hheld ?_)
    simp only [World.permitOf, hc, Option.bind_some, hs, CallStage.permit, hq]

/-- A step of a request. -/
theorem callStep {call' : Call} (hinv : Permitted canonicalize w) (hc : w.calls[c]? = some call)
    (h : CallSpec canonicalize w w' c call call') : Permitted canonicalize w' := by
  refine ⟨hinv.callStep_held hc h, ?_, ?_, ?_, ?_, ?_⟩
  · intro i call₁ p sourceId hi hp hasked
    obtain ⟨rfl, rfl⟩ | ⟨hne, hi⟩ := h.call_at hi
    · rw [h.request] at hasked
      cases h.gate with
      | same hgate hpermit _ hsame =>
        rw [hgate]
        exact hinv.asked _ _ _ _ hc (hpermit ▸ hp) (hsame sourceId hasked)
      | enters _ hgate hafter hnew =>
        obtain ⟨-, -, rfl, heq⟩ := LifecycleState.tryEnter_ok hgate
        cases hafter.symm.trans hp
        cases hnew.symm.trans hasked
        rw [heq]
        exact AList.lookup_insert _
      | spawns _ _ hafter | attaches _ _ hafter | leaves _ _ hafter => rw [hafter] at hp; cases hp
    · rw [@lookup_callStep _ _ _ _ _ _ hinv hc h (.call i) p
        (by simp only [World.permitOf, hi, Option.bind_some, hp]) (by simpa using hne)]
      exact hinv.asked _ _ _ _ hi hp hasked
  · intro i task₁ hi hpermitted
    obtain hi | ⟨work, permit, hs, -, rfl⟩ := h.spawned hi
    · rw [@lookup_callStep _ _ _ _ _ _ hinv hc h (.task i) task₁.permit
        (by simp only [World.permitOf, hi, Option.bind_some, Task.held, hpermitted, if_true]) nofun]
      exact hinv.tasks i task₁ hi hpermitted
    · have hgate : w'.gate = w.gate := by
        cases h.gate with
        | same hgate _ hspawn => exact absurd hs (hspawn _ _)
        | enters hbefore => rw [hs] at hbefore; cases hbefore
        | spawns _ hgate => exact hgate
        | attaches hs' | leaves hs' => cases hs.symm.trans hs'
      rw [hgate]
      exact hinv.asked c call permit _ hc (by rw [hs]; rfl) (by rw [hs]; rfl)
  · intro i task₁ hi hacts
    obtain hi | ⟨work, permit, -, -, rfl⟩ := h.spawned hi
    · exact hinv.begun i task₁ hi hacts
    · cases hacts
  · intro i call₁ work p j hi hs
    obtain ⟨rfl, rfl⟩ | ⟨-, hi⟩ := h.call_at hi
    · have hnext := h.next
      generalize hstage : call₁.stage = stage at hnext hs
      cases hnext with
      | @spawn work' permit hs' =>
        obtain ⟨rfl, rfl, rfl⟩ := CallStage.attaching.inj hs
        refine ⟨⟨i, workOf canonicalize call.request work', permit, .spawned, false, false, false,
          none⟩, ?_, rfl⟩
        rw [h.tasks, hs']
        simp
      | @failed _ _ _ p | @again _ _ _ p | @leave _ p => cases p <;> cases hs
      | _ => cases hs
    · obtain ⟨task₁, hj, hp⟩ := hinv.attaching _ _ _ _ _ hi hs
      exact ⟨task₁, h.back hj, hp⟩
  · intro p j hj
    have hbefore : w.gate.settlements.lookup p = some j ∨
        ∃ work, call.stage = .attaching work p j := by
      cases h.gate with
      | same hgate | spawns _ hgate => exact .inl (hgate ▸ hj)
      | enters _ hgate =>
        obtain ⟨-, -, -, hgate⟩ := LifecycleState.tryEnter_ok hgate
        rw [hgate] at hj
        exact .inl hj
      | @attaches work permit i hs hgate =>
        rw [hgate] at hj
        unfold LifecycleState.attachSettlement at hj
        split_ifs at hj
        · rw [Dict.lookup_insert_eq] at hj
          split_ifs at hj with hp
          · cases hj
            exact .inr ⟨work, hp ▸ hs⟩
          · exact .inl hj
        · exact .inl hj
      | leaves hs hgate =>
        rw [hgate] at hj
        change (w.gate.settlements.erase _).lookup p = some j at hj
        rw [Dict.lookup_erase_eq] at hj
        split_ifs at hj
        exact .inl hj
    obtain hbefore | ⟨work, hs⟩ := hbefore
    · obtain ⟨task₁, hj, hp⟩ := hinv.settlements p j hbefore
      exact ⟨task₁, h.back hj, hp⟩
    · obtain ⟨task₁, hj, hp⟩ := hinv.attaching _ _ _ _ _ hc hs
      exact ⟨task₁, h.back hj, hp⟩

/-- A step of a settlement. -/
theorem taskStep {task' : Task} (hinv : Permitted canonicalize w) (ht : w.tasks[t]? = some task)
    (h : TaskSpec canonicalize storeUnavailable w w' t task task') : Permitted canonicalize w' := by
  have hpermitted := h.next.permitted
  have hself : w.permitOf (.task t) = some task.permit := by
    simp only [World.permitOf, ht, Option.bind_some, Task.held, hpermitted, if_true]
  have htask : ∀ i, w'.permitOf (.task i) = if i = t then task'.held else w.permitOf (.task i) :=
    fun i => permitOf_task ht h.tasks
  have hcall : ∀ i, w'.permitOf (.call i) = w.permitOf (.call i) := fun i => permitOf_call_of_eq h.calls
  have hrest : ∀ holder, holder ≠ .task t → w'.permitOf holder = w.permitOf holder := by
    intro holder hne
    cases holder with
    | call i => exact hcall i
    | task i => rw [htask, if_neg fun hit => hne (by rw [hit])]
  have hkeep : task'.stage.permitted = true → ∀ holder, w'.permitOf holder = w.permitOf holder := by
    intro hstays holder
    by_cases hne : holder = .task t
    · rw [hne, htask, if_pos rfl, hself, Task.held, if_pos hstays, h.permit]
    · exact hrest holder hne
  -- the permits of the others
  have hlookup : ∀ holder q, w.permitOf holder = some q → holder ≠ .task t →
      w'.gate.permits.lookup q = w.gate.permits.lookup q := by
    intro holder q hheld hne
    have hq : q ≠ task.permit := fun hq => hne (hinv.held.one _ _ q hheld (hq ▸ hself))
    cases h.gate with
    | same hgate => rw [hgate]
    | begins _ hgate =>
      obtain ⟨-, operation, -, hgate⟩ := LifecycleState.beginPermit_ok hgate
      rw [hgate]
      exact AList.lookup_insert_ne hq
    | leaves _ hgate =>
      rw [hgate]
      exact AList.lookup_erase_ne hq
  have hback : ∀ (i : ℕ) (task₁ : Task), w.tasks[i]? = some task₁ →
      ∃ task₂, w'.tasks[i]? = some task₂ ∧ task₂.permit = task₁.permit := by
    intro i task₁ hi
    by_cases hit : i = t
    · subst hit
      cases hi.symm.trans ht
      exact ⟨task', Single.mem_tasks ht h.tasks, h.permit⟩
    · exact ⟨task₁, Single.other_tasks h.tasks hit hi, rfl⟩
  refine ⟨?_, ?_, ?_, ?_, ?_, ?_⟩
  · cases h.gate with
    | same hgate _ hstays => rw [hgate]; exact hinv.held.congr (hkeep hstays)
    | begins hs hgate =>
      refine (hinv.held.congr (hkeep ?_)).begins hgate
      have hnext := h.next
      cases hf : task'.stage <;> first | rfl | skip
      rw [hf] at hnext
      generalize hstage : Stage.finished = stage at hnext
      cases hnext with
      | begins | refuse => cases hw : task.work <;> rw [hw] at hstage <;> cases hstage
      | leave hs' => cases hs.symm.trans hs'
      | _ => cases hstage
    | leaves _ hgate _ hleft =>
      rw [hgate]
      refine hinv.held.leave (a := Holder.task t) hself ?_ hrest
      rw [htask, if_pos rfl, Task.held, hleft]
      rfl
  · intro i call₁ p sourceId hi hp hasked
    have hi' : w.calls[i]? = some call₁ := h.calls ▸ hi
    rw [hlookup (.call i) p (by simp only [World.permitOf, hi', Option.bind_some, hp]) nofun]
    exact hinv.asked i call₁ p sourceId hi' hp hasked
  · intro i task₁ hi hstays
    obtain ⟨rfl, rfl⟩ | ⟨hne, hi⟩ := h.task_at hi
    · have hbefore := hinv.tasks _ _ ht hpermitted
      rw [h.permit, h.work]
      cases h.gate with
      | same hgate hbegun => rw [hgate, hbegun, hbefore]
      | begins _ hgate hbegun =>
        obtain ⟨-, operation, hop, hgate⟩ := LifecycleState.beginPermit_ok hgate
        cases hop.symm.trans hbefore
        rw [hgate, hbegun]
        exact AList.lookup_insert _
      | leaves _ _ _ hleft => rw [hleft] at hstays; cases hstays
    · rw [hlookup (.task i) _
        (by simp only [World.permitOf, hi, Option.bind_some, Task.held, hstays, if_true])
        (by simpa using hne)]
      exact hinv.tasks i task₁ hi hstays
  · intro i task₁ hi hacts
    obtain ⟨rfl, rfl⟩ | ⟨-, hi⟩ := h.task_at hi
    · cases h.gate with
      | same _ hbegun _ hidle =>
        rw [hbegun]
        obtain hbefore | hs := h.next.acts hacts
        · exact hinv.begun _ _ ht hbefore
        · rw [hidle hs.1] at hacts; cases hacts
      | begins _ _ hbegun => exact hbegun
      | leaves _ _ _ hleft => rw [hleft] at hacts; cases hacts
    · exact hinv.begun i task₁ hi hacts
  · intro i call₁ work p j hi hs
    obtain ⟨task₁, hj, hp⟩ := hinv.attaching i call₁ work p j (h.calls ▸ hi) hs
    obtain ⟨task₂, hj', hp'⟩ := hback j task₁ hj
    exact ⟨task₂, hj', hp'.trans hp⟩
  · intro p j hj
    have hbefore : w.gate.settlements.lookup p = some j := by
      cases h.gate with
      | same hgate => exact hgate ▸ hj
      | begins _ hgate =>
        obtain ⟨-, _, -, hgate⟩ := LifecycleState.beginPermit_ok hgate
        rw [hgate] at hj
        exact hj
      | leaves _ hgate =>
        rw [hgate] at hj
        change (w.gate.settlements.erase _).lookup p = some j at hj
        rw [Dict.lookup_erase_eq] at hj
        split_ifs at hj
        exact hj
    obtain ⟨task₁, hj, hp⟩ := hinv.settlements p j hbefore
    obtain ⟨task₂, hj', hp'⟩ := hback j task₁ hj
    exact ⟨task₂, hj', hp'.trans hp⟩

/-- A request is dropped, and its permit with it. -/
theorem drop {gate : LifecycleState} (hinv : Permitted canonicalize w) (hc : w.calls[c]? = some call)
    (hgate : (gate = w.gate ∧ call.stage.permit = none) ∨
      ∃ permit, call.stage.permit = some permit ∧ gate = w.gate.dropPermit permit) :
    Permitted canonicalize ({ w with gate }.call c call .dropped) := by
  have hself : w.permitOf (.call c) = call.stage.permit := by simp [World.permitOf, hc]
  set w' := { w with gate }.call c call .dropped with hw'
  have hcalls : w'.calls = w.calls.set c { call with stage := .dropped } := rfl
  have hafter : w'.permitOf (.call c) = none := by rw [permitOf_call hc hcalls, if_pos rfl]; rfl
  have hrest : ∀ holder, holder ≠ .call c → w'.permitOf holder = w.permitOf holder := by
    intro holder hne
    cases holder with
    | call i => rw [permitOf_call hc hcalls, if_neg fun hic => hne (by rw [hic])]
    | task i => rfl
  have hlookup : ∀ holder q, w.permitOf holder = some q → holder ≠ .call c →
      gate.permits.lookup q = w.gate.permits.lookup q := by
    intro holder q hheld hne
    obtain ⟨rfl, -⟩ | ⟨permit, hp, rfl⟩ := hgate
    · rfl
    · exact AList.lookup_erase_ne fun hq => hne (hinv.held.one _ _ q hheld (hq ▸ hself.trans hp))
  refine ⟨?_, ?_, ?_, hinv.begun, ?_, ?_⟩
  · obtain ⟨rfl, hp⟩ | ⟨permit, hp, rfl⟩ := hgate
    · refine hinv.held.congr fun holder => ?_
      by_cases hne : holder = .call c
      · rw [hne, hafter, hself, hp]
      · exact hrest holder hne
    · exact hinv.held.leave (hself.trans hp) hafter hrest
  · intro i call₁ p sourceId hi hp hasked
    obtain ⟨rfl, rfl⟩ | ⟨hne, hi⟩ := set_cases hi
    · cases hp
    · rw [show w'.gate = gate from rfl, hlookup (.call i) p
        (by simp only [World.permitOf, hi, Option.bind_some, hp]) (by simpa using hne)]
      exact hinv.asked i call₁ p sourceId hi hp hasked
  · intro i task hi hstays
    rw [show w'.gate = gate from rfl, hlookup (.task i) task.permit ?_ nofun]
    · exact hinv.tasks i task hi hstays
    · have hi' : w.tasks[i]? = some task := hi
      simp only [World.permitOf, hi', Option.bind_some, Task.held, hstays, if_true]
  · intro i call₁ work p j hi hs
    obtain ⟨rfl, rfl⟩ | ⟨-, hi⟩ := set_cases hi
    · cases hs
    · exact hinv.attaching i call₁ work p j hi hs
  · intro p j hj
    refine hinv.settlements p j ?_
    obtain ⟨rfl, -⟩ | ⟨permit, -, rfl⟩ := hgate
    · exact hj
    · change (w.gate.settlements.erase permit).lookup p = some j at hj
      rw [Dict.lookup_erase_eq] at hj
      split_ifs at hj
      exact hj

/-- A step that leaves the permits with their holders. -/
theorem frame (hinv : Permitted canonicalize w) (hgate : w'.gate = w.gate ∨ w'.gate = w.gate.close)
    (hcalls : ∀ (c : ℕ) (call : Call), w'.calls[c]? = some call →
      w.calls[c]? = some call ∨ (call.stage = .arrived ∧ w.calls[c]? = none))
    (hkept : ∀ (c : ℕ) (call : Call), w.calls[c]? = some call → w'.calls[c]? = some call)
    (htasks : ∀ (t : ℕ) (task' : Task), w'.tasks[t]? = some task' → ∃ task, w.tasks[t]? = some task ∧
      task'.work = task.work ∧ task'.permit = task.permit ∧ task'.begun = task.begun ∧
      task'.stage.permitted = task.stage.permitted ∧
      (task'.stage.acts = true → task.stage.acts = true))
    (hlength : w'.tasks.length = w.tasks.length) : Permitted canonicalize w' := by
  have hback : ∀ (t : ℕ) (task : Task), w.tasks[t]? = some task →
      ∃ task', w'.tasks[t]? = some task' ∧ task'.permit = task.permit := by
    intro t task ht
    have hlt : t < w'.tasks.length := hlength ▸ (List.getElem?_eq_some_iff.1 ht).1
    obtain ⟨task₁, ht', -, hpermit, -⟩ := htasks t _ (getElem?_eq_getElem hlt)
    cases ht.symm.trans ht'
    exact ⟨_, getElem?_eq_getElem hlt, hpermit⟩
  have hholds : ∀ holder, w'.permitOf holder = w.permitOf holder := by
    intro holder
    cases holder with
    | call i =>
      simp only [World.permitOf]
      cases hi : w'.calls[i]? with
      | none =>
        cases hi' : w.calls[i]? with
        | none => rfl
        | some call => rw [hkept i call hi'] at hi; cases hi
      | some call =>
        obtain hi' | ⟨harrived, hi'⟩ := hcalls i call hi
        · rw [hi']
        · rw [hi', Option.bind_some, harrived]; rfl
    | task i =>
      simp only [World.permitOf]
      cases hi : w'.tasks[i]? with
      | none =>
        have hle := List.getElem?_eq_none_iff.1 hi
        rw [getElem?_eq_none (hlength ▸ hle)]
      | some task' =>
        obtain ⟨task, hi', -, hpermit, -, hstays, -⟩ := htasks i task' hi
        rw [hi', Option.bind_some, Option.bind_some, Task.held, Task.held, hstays, hpermit]
  have hpermits : w'.gate.permits = w.gate.permits := by obtain h | h := hgate <;> rw [h]; rfl
  have hsettlements : w'.gate.settlements = w.gate.settlements := by
    obtain h | h := hgate <;> rw [h]; rfl
  refine ⟨?_, ?_, ?_, ?_, ?_, ?_⟩
  · obtain h | h := hgate <;> rw [h]
    · exact hinv.held.congr hholds
    · exact (hinv.held.congr hholds).close
  · intro i call p sourceId hi hp hasked
    obtain hi | ⟨harrived, -⟩ := hcalls i call hi
    · rw [hpermits]; exact hinv.asked i call p sourceId hi hp hasked
    · rw [harrived] at hp; cases hp
  · intro i task' hi hstays
    obtain ⟨task, hi, hwork, hpermit, hbegun, hstays', -⟩ := htasks i task' hi
    rw [hpermits, hwork, hpermit, hbegun]
    exact hinv.tasks i task hi (hstays' ▸ hstays)
  · intro i task' hi hacts
    obtain ⟨task, hi, -, -, hbegun, -, hacts'⟩ := htasks i task' hi
    rw [hbegun]
    exact hinv.begun i task hi (hacts' hacts)
  · intro i call work p j hi hs
    obtain hi | ⟨harrived, -⟩ := hcalls i call hi
    · obtain ⟨task, hj, hp⟩ := hinv.attaching i call work p j hi hs
      obtain ⟨task', hj', hp'⟩ := hback j task hj
      exact ⟨task', hj', hp'.trans hp⟩
    · cases harrived.symm.trans hs
  · intro p j hj
    obtain ⟨task, hj, hp⟩ := hinv.settlements p j (hsettlements ▸ hj)
    obtain ⟨task', hj', hp'⟩ := hback j task hj
    exact ⟨task', hj', hp'.trans hp⟩

/-- Who holds a permit: kept by every step. -/
theorem step {e : Event} (hinv : Permitted canonicalize w)
    (h : step canonicalize storeUnavailable w e = some w') : Permitted canonicalize w' := by
  have hsame : ∀ (i : ℕ) (task : Task), w.tasks[i]? = some task → ∃ task', w.tasks[i]? = some task' ∧
      task.work = task'.work ∧ task.permit = task'.permit ∧ task.begun = task'.begun ∧
      task.stage.permitted = task'.stage.permitted ∧
      (task.stage.acts = true → task'.stage.acts = true) :=
    fun i task hi => ⟨task, hi, rfl, rfl, rfl, rfl, id⟩
  cases e with
  | request request =>
    cases h
    refine hinv.frame (.inl rfl) (fun c call hc => ?_) (fun c call hc => ?_) hsame rfl
    · obtain ⟨rfl, rfl⟩ | hc := append_cases hc
      · exact .inr ⟨rfl, by simp⟩
      · exact .inl hc
    · rw [getElem?_append_left (List.getElem?_eq_some_iff.1 hc).1, hc]
  | call c answer =>
    obtain ⟨call, hc, h⟩ := Option.bind_eq_some_iff.1 h
    obtain ⟨call', hspec⟩ := callStep_spec h
    exact hinv.callStep hc hspec
  | drop c =>
    obtain ⟨call, hc, h⟩ := Option.bind_eq_some_iff.1 h
    obtain ⟨gate, rfl, hgate⟩ := dropStep_spec h
    exact hinv.drop hc hgate
  | task t answer =>
    obtain ⟨task, ht, h⟩ := Option.bind_eq_some_iff.1 h
    obtain ⟨task', hspec⟩ := taskStep_spec h
    exact hinv.taskStep ht hspec
  | tear t =>
    obtain ⟨task, ht, h⟩ := Option.bind_eq_some_iff.1 h
    obtain ⟨-, hawaits, htasks, -, heq, -⟩ := tearStep_spec h
    refine hinv.frame (.inl (by rw [heq])) (fun _ _ hc => .inl (by rw [heq] at hc; exact hc))
      (fun _ _ hc => by rw [heq]; exact hc) ?_ (by rw [htasks, length_set])
    intro i task' hi
    rw [htasks] at hi
    obtain ⟨rfl, rfl⟩ | ⟨-, hi⟩ := set_cases hi
    · refine ⟨task, ht, rfl, rfl, rfl, ?_, nofun⟩
      cases hs : task.stage <;> first | rfl | (rw [hs] at hawaits; cases hawaits)
    · exact hsame i task' hi
  | launch l answer =>
    obtain ⟨launch, hl, h⟩ := Option.bind_eq_some_iff.1 h
    have heff := launchStep_effect h
    cases heff <;> exact hinv.frame (.inl rfl) (fun _ _ => .inl) (fun _ _ => id) hsame rfl
  | ended sourceId =>
    replace h : endStep w sourceId = some w' := h
    unfold endStep at h
    split at h <;> cases h
    exact hinv.frame (.inl rfl) (fun _ _ => .inl) (fun _ _ => id) hsame rfl
  | requestShutdown =>
    cases h
    exact hinv.frame (.inr rfl) (fun _ _ => .inl) (fun _ _ => id) hsame rfl
  | shutdown expire answer =>
    have hspec := shutdownStep_spec h
    refine hinv.frame (hspec.gate.imp_right And.right) (fun _ _ => hspec.calls ▸ .inl)
      (fun _ _ => hspec.calls ▸ id) ?_ ?_
    · intro i task' hi
      obtain htasks | ⟨_, _, t, task, -, ht, htasks⟩ := hspec.tasks
      · exact hsame i task' (htasks ▸ hi)
      · rw [htasks] at hi
        obtain ⟨rfl, rfl⟩ | ⟨-, hi⟩ := set_cases hi
        · exact ⟨task, ht, rfl, rfl, rfl, rfl, id⟩
        · exact hsame i task' hi
    · obtain htasks | ⟨_, _, t, task, -, -, htasks⟩ := hspec.tasks <;> rw [htasks]
      exact length_set

end Permitted

theorem Resumed.permitted {session : List SourceDefinition} (h : Resumed canonicalize session w) :
    Permitted canonicalize w := by
  have hnone : ∀ holder, w.permitOf holder = none := by
    intro holder
    cases holder <;> simp [World.permitOf, h.calls, h.tasks]
  refine ⟨⟨h.gate ▸ .new, ?_, ?_, ?_⟩, ?_, ?_, ?_, ?_, ?_⟩
  · simp [hnone]
  · intro p hp
    rw [h.gate] at hp
    exact absurd hp (AList.notMem_empty p)
  · simp [hnone]
  · simp [h.calls]
  · simp [h.tasks]
  · simp [h.tasks]
  · simp [h.calls]
  · simp [h.gate, LifecycleState.new]

variable {w₀ : World} {es : List Event}

theorem permitted_run (h₀ : Serves canonicalize w₀)
    (h : (worker canonicalize storeUnavailable).Run w₀ es w) : Permitted canonicalize w := by
  exact h.invariant (resumed_of_serves h₀).permitted fun s e s' hinv hstep => hinv.step hstep

end Lifecycle

end Lvu.Shared
