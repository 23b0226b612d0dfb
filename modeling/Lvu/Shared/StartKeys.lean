import Lvu.Shared.Starts

/-!
# The registry of starts

Callers of `request_start` that ask for one thing share one start of it: the first is its leader,
and the others join it.  The registry `starting` has the start a caller is to join.  An entry is
removed by its leader once it has settled, by the guard of a leader that never did, and by joiners
that find the settlement of no use (`lvu-shared/src/worker.rs`).

A step is what runs under one lock.  What a settlement comes to, and whether the capture of an
older one still runs, comes from outside.

* `step` : the registry, its callers and its leaders.
* `Undisturbed` : the steps that keep it in order.
* `OneLeader` : at most one unsettled start for each key, the registry has it, and nobody waits for
  a leader that is gone.
* `start_key_leader` : **the registry stays in order as long as its steps are undisturbed.**
* `start_key_two_leaders` : a leader that settles may remove the start of another.
-/

namespace Lvu.Shared.StartKeys

open List

open Lifecycle (StartedOutcome StartSettlement Result)

/-- Where `settle_start_leader` stands. -/
inductive LeaderStage
  /-- Not polled yet; there is no guard. -/
  | spawned
  /-- Under its guard. -/
  | settling
  /-- `publish_settlement` has sent the outcome; the entry is to be removed. -/
  | published
  /-- The guard has marked the start as abandoned; the entry is to be removed. -/
  | abandoned
  | ended
deriving DecidableEq

/-- A `SharedStart` and its leader's task. -/
structure Start (K : Type) where
  key : K
  outcome : Option StartSettlement
  stage : LeaderStage

/-- Where `request_start` stands. -/
inductive CallerStage
  /-- At the head of its loop. -/
  | entering
  /-- `wait_start_settlement`. -/
  | waiting (start : ℕ) (leader : Bool)
  /-- The settlement was of no use; its entry is to be removed. -/
  | retiring (start : ℕ)
  | returned (reply : Result StartedOutcome)
  | cancelled
deriving DecidableEq

/-- A caller of `request_start`. -/
structure Caller (K : Type) where
  key : K
  stage : CallerStage

/-- The registry, all starts and all callers. -/
structure World (K : Type) [DecidableEq K] where
  starting : Dict K ℕ
  starts : List (Start K)
  callers : List (Caller K)

/-- What a caller does. -/
inductive CallerAct
  /-- The gate is closed. -/
  | refuse (reason : String)
  | enter
  | observe (live : Bool)
  | retire
  /-- The request is cancelled while it waits. -/
  | cancel
deriving DecidableEq

/-- What a leader does. -/
inductive LeaderAct
  | poll
  | publish (outcome : Result StartedOutcome)
  | release
  /-- The task is aborted, or panics. -/
  | abort
  | remove
deriving DecidableEq

/-- What happens. -/
inductive Event (K : Type)
  | call (key : K)
  | caller (c : ℕ) (act : CallerAct)
  | leader (t : ℕ) (act : LeaderAct)

variable {K : Type} [DecidableEq K]

namespace World

/-- A caller written back. -/
def goto (w : World K) (c : ℕ) (caller : Caller K) (stage : CallerStage) : World K :=
  { w with callers := w.callers.set c { caller with stage } }

/-- A start written back. -/
def put (w : World K) (t : ℕ) (start : Start K) : World K := { w with starts := w.starts.set t start }

/-- The entry is removed if it is this start's. -/
def dismiss (w : World K) (key : K) (t : ℕ) : World K :=
  if w.starting.lookup key = some t then { w with starting := w.starting.erase key } else w

/-- `enter_start_key`; a leader's settlement is spawned. -/
def enterStartKey (w : World K) (c : ℕ) (caller : Caller K) : World K :=
  match w.starting.lookup caller.key with
  | some start => w.goto c caller (.waiting start false)
  | none =>
    { w with
      starting := w.starting.insert caller.key w.starts.length
      starts := w.starts ++ [(⟨caller.key, none, .spawned⟩ : Start K)] }.goto c caller
        (.waiting w.starts.length true)

end World

/-- `wait_start_settlement`, once there is a settlement. -/
def waitStartSettlement (start : ℕ) (leader live : Bool) : StartSettlement → CallerStage
  | .settled outcome =>
    if leader then .returned (.ok outcome)
    else if live then .returned (.ok (.present outcome.sourceId))
    else .retiring start
  | .failed error => .returned (.error error)
  | .abandoned => .retiring start

/-- What `publish_settlement` sends. -/
def settlementOf : Result StartedOutcome → StartSettlement
  | .ok outcome => .settled outcome
  | .error error => .failed error

/-- What a caller does. -/
def callerStep (w : World K) (c : ℕ) (caller : Caller K) : CallerAct → Option (World K)
  | .refuse reason =>
    if caller.stage = .entering then some (w.goto c caller (.returned (.error reason))) else none
  | .enter => if caller.stage = .entering then some (w.enterStartKey c caller) else none
  | .observe live =>
    match caller.stage with
    | .waiting start leader =>
      (w.starts[start]?.bind (·.outcome)).map fun settlement =>
        w.goto c caller (waitStartSettlement start leader live settlement)
    | _ => none
  | .retire =>
    match caller.stage with
    | .retiring start => some ((w.dismiss caller.key start).goto c caller .entering)
    | _ => none
  | .cancel =>
    match caller.stage with
    | .waiting _ _ => some (w.goto c caller .cancelled)
    | _ => none

/-- What a leader does: `settle_start_leader`, `publish_settlement` and `StartGuard::drop`. -/
def leaderStep (w : World K) (t : ℕ) (start : Start K) : LeaderAct → Option (World K)
  | .poll =>
    if start.stage = .spawned then some (w.put t { start with stage := .settling }) else none
  | .publish outcome =>
    if start.stage = .settling then
      some (w.put t { start with outcome := some (settlementOf outcome), stage := .published })
    else none
  | .release =>
    -- whatever start is there
    if start.stage = .published then
      some (({ w with starting := w.starting.erase start.key } : World K).put t
        { start with stage := .ended })
    else none
  | .abort =>
    match start.stage with
    | .spawned => some (w.put t { start with stage := .ended })
    | .settling =>
      some (w.put t { start with
        outcome := start.outcome.or (some .abandoned)
        stage := .abandoned })
    | _ => none
  | .remove =>
    if start.stage = .abandoned then
      some ((w.dismiss start.key t).put t { start with stage := .ended })
    else none

/-- The step function. -/
def step (w : World K) : Event K → Option (World K)
  | .call key => some { w with callers := w.callers ++ [⟨key, .entering⟩] }
  | .caller c act => w.callers[c]?.bind fun caller => callerStep w c caller act
  | .leader t act => w.starts[t]?.bind fun start => leaderStep w t start act

/-- The worker's registry. -/
def registry : Machine (World K) (Event K) := .ofFun step

/-- No caller has come yet. -/
def opened : World K := ⟨∅, [], []⟩

/-! ### What is in order -/

/-- A start that has not settled. -/
def World.Unsettled (w : World K) (key : K) (t : ℕ) : Prop :=
  ∃ start, w.starts[t]? = some start ∧ start.key = key ∧ start.outcome = none

/-- One leader for each key. -/
structure OneLeader (w : World K) : Prop where
  single : ∀ key t t', w.Unsettled key t → w.Unsettled key t' → t = t'
  present : ∀ key t, w.Unsettled key t → w.starting.lookup key = some t
  /-- An entry is there until its leader has settled and is through with the registry. -/
  absent : ∀ key t, w.starting.lookup key = some t →
    ∃ start, w.starts[t]? = some start ∧ start.key = key ∧ start.stage ≠ .ended
  /-- Who waits sees a settlement, or there is a leader at work. -/
  released : ∀ caller ∈ w.callers, ∀ t leader, caller.stage = .waiting t leader →
    ∃ start, w.starts[t]? = some start ∧ start.key = caller.key ∧
      (start.outcome ≠ none ∨ start.stage = .spawned ∨ start.stage = .settling)

/-- The start of whoever acts. -/
def World.own (w : World K) : Event K → Option ℕ
  | .call _ => none
  | .caller c _ => w.callers[c]?.bind fun caller =>
    match caller.stage with
    | .retiring start => some start
    | _ => none
  | .leader t _ => some t

/-- A step removes no entry but its own. -/
def KeepsOthers (w : World K) (e : Event K) (w' : World K) : Prop :=
  ∀ key t, w.starting.lookup key = some t →
    w'.starting.lookup key = some t ∨ w'.starting.lookup key = none ∧ w.own e = some t

/-- The steps that keep the registry in order: nobody leads anew while a leader of the same key that
has settled is yet to remove its entry, and no task is aborted before it is polled. -/
def Undisturbed (w : World K) : Event K → Prop
  | .caller c .enter => ∀ caller ∈ w.callers[c]?, w.starting.lookup caller.key = none →
    ∀ start ∈ w.starts, start.key = caller.key → start.stage ≠ .published
  | .leader t .abort => ∀ start ∈ w.starts[t]?, start.stage ≠ .spawned
  | _ => True

instance (w : World K) : DecidablePred (Undisturbed w) := fun e =>
  match e with
  | .call _ => isTrue trivial
  | .caller c .enter => inferInstanceAs (Decidable (∀ caller ∈ w.callers[c]?,
      w.starting.lookup caller.key = none → ∀ start ∈ w.starts, start.key = caller.key →
        start.stage ≠ .published))
  | .caller _ (.refuse _) | .caller _ (.observe _) | .caller _ .retire | .caller _ .cancel =>
    isTrue trivial
  | .leader t .abort =>
    inferInstanceAs (Decidable (∀ start ∈ w.starts[t]?, start.stage ≠ .spawned))
  | .leader _ .poll | .leader _ (.publish _) | .leader _ .release | .leader _ .remove =>
    isTrue trivial

/-! ### The invariant -/

/-- The start a caller goes by. -/
def CallerStage.start : CallerStage → Option ℕ
  | .waiting start _ | .retiring start => some start
  | .entering | .returned _ | .cancelled => none

/-- The leader is at work. -/
def LeaderStage.atWork (stage : LeaderStage) : Prop := stage = .spawned ∨ stage = .settling

/-- What every undisturbed step keeps. -/
structure Inv (w : World K) : Prop where
  entry : ∀ key t, w.starting.lookup key = some t →
    ∃ start, w.starts[t]? = some start ∧ start.key = key ∧ start.stage ≠ .ended
  present : ∀ t start, w.starts[t]? = some start → start.outcome = none →
    w.starting.lookup start.key = some t
  outcome : ∀ (t : ℕ) (start : Start K), w.starts[t]? = some start →
    (start.outcome = none ↔ start.stage.atWork)
  published : ∀ t start, w.starts[t]? = some start → start.stage = .published →
    ∀ t', w.starting.lookup start.key = some t' → t' = t
  callers : ∀ caller ∈ w.callers, ∀ t, caller.stage.start = some t →
    ∃ start, w.starts[t]? = some start ∧ start.key = caller.key
  retiring : ∀ caller ∈ w.callers, ∀ t, caller.stage = .retiring t →
    ∀ start, w.starts[t]? = some start → start.outcome ≠ none

variable {w w' : World K} {c t : ℕ} {caller : Caller K} {start : Start K} {e : Event K}

theorem inv_opened : Inv (opened : World K) where
  entry key t h := by cases h
  present t start h := by cases h
  outcome t start h := by cases h
  published t start h := by cases h
  callers caller h := by cases h
  retiring caller h := by cases h

theorem Inv.oneLeader (h : Inv w) : OneLeader w where
  single key t t' := by
    rintro ⟨start, ht, rfl, hnone⟩ ⟨start', ht', hkey, hnone'⟩
    have hlookup := h.present t' start' ht' hnone'
    rw [hkey, h.present t start ht hnone] at hlookup
    exact Option.some.inj hlookup
  present key t := by
    rintro ⟨start, ht, rfl, hnone⟩
    exact h.present t start ht hnone
  absent := h.entry
  released caller hmem t leader hstage := by
    obtain ⟨start, ht, hkey⟩ := h.callers caller hmem t (by rw [hstage]; rfl)
    refine ⟨start, ht, hkey, ?_⟩
    by_cases hnone : start.outcome = none
    · exact .inr ((h.outcome t start ht).1 hnone)
    · exact .inl hnone

theorem Inv.goto (h : Inv w) {stage : CallerStage}
    (hstage : ∀ t, stage.start = some t → ∃ start, w.starts[t]? = some start ∧ start.key = caller.key)
    (hretiring : ∀ t, stage = .retiring t → ∀ start, w.starts[t]? = some start → start.outcome ≠ none) :
    Inv (w.goto c caller stage) where
  entry := h.entry
  present := h.present
  outcome := h.outcome
  published := h.published
  callers other hmem t ht := by
    rcases mem_or_eq_of_mem_set hmem with hmem | rfl
    · exact h.callers other hmem t ht
    · exact hstage t ht
  retiring other hmem t ht := by
    rcases mem_or_eq_of_mem_set hmem with hmem | rfl
    · exact h.retiring other hmem t ht
    · exact hretiring t ht

theorem World.lookup_dismiss (w : World K) (key key' : K) (t : ℕ) :
    (w.dismiss key t).starting.lookup key' =
      if key' = key ∧ w.starting.lookup key = some t then none else w.starting.lookup key' := by
  unfold World.dismiss
  by_cases ht : w.starting.lookup key = some t
  · rw [if_pos ht, Dict.lookup_erase_eq]
    simp [ht]
  · rw [if_neg ht]
    simp [ht]

theorem World.dismiss_starts (w : World K) (key : K) (t : ℕ) : (w.dismiss key t).starts = w.starts := by
  unfold World.dismiss
  split_ifs <;> rfl

theorem World.dismiss_callers (w : World K) (key : K) (t : ℕ) : (w.dismiss key t).callers = w.callers := by
  unfold World.dismiss
  split_ifs <;> rfl

/-- A leader's step changes its own start, and removes no entry but its own. -/
theorem Inv.put (h : Inv w) (start' : Start K) (ht : w.starts[t]? = some start) (hkey : start'.key = start.key)
    (hstarts : w'.starts = w.starts.set t start') (hcallers : w'.callers = w.callers)
    (hentry : ∀ key t', w'.starting.lookup key = some t' →
      w.starting.lookup key = some t' ∧ (t' = t → start'.stage ≠ .ended))
    (hkept : ∀ key t', w.starting.lookup key = some t' → t' ≠ t → w'.starting.lookup key = some t')
    (hpresent : start'.outcome = none → w'.starting.lookup start.key = some t)
    (houtcome : start'.outcome = none ↔ start'.stage.atWork)
    (hpublished : start'.stage = .published → ∀ t', w'.starting.lookup start.key = some t' → t' = t)
    (hsettled : start.outcome ≠ none → start'.outcome ≠ none) : Inv w' := by
  have hlt : t < w.starts.length := (List.getElem?_eq_some_iff.1 ht).1
  have hself : w'.starts[t]? = some start' := by rw [hstarts, getElem?_set_self hlt]
  have hother {t' : ℕ} (hne : t' ≠ t) : w'.starts[t']? = w.starts[t']? := by
    rw [hstarts, getElem?_set_ne (Ne.symm hne)]
  constructor
  · intro key t' hlookup
    obtain ⟨hbefore, hstage⟩ := hentry key t' hlookup
    obtain ⟨start₁, ht₁, hkey₁, hended⟩ := h.entry key t' hbefore
    by_cases hne : t' = t
    · subst hne
      obtain rfl : start = start₁ := Option.some.inj (ht.symm.trans ht₁)
      exact ⟨start', hself, hkey.trans hkey₁, hstage rfl⟩
    · exact ⟨start₁, (hother hne).trans ht₁, hkey₁, hended⟩
  · intro t' start₁ ht₁ hnone
    by_cases hne : t' = t
    · subst hne
      obtain rfl : start' = start₁ := Option.some.inj (hself.symm.trans ht₁)
      rw [hkey]
      exact hpresent hnone
    · rw [hother hne] at ht₁
      exact hkept _ _ (h.present t' start₁ ht₁ hnone) hne
  · intro t' start₁ ht₁
    by_cases hne : t' = t
    · subst hne
      obtain rfl : start' = start₁ := Option.some.inj (hself.symm.trans ht₁)
      exact houtcome
    · rw [hother hne] at ht₁
      exact h.outcome t' start₁ ht₁
  · intro t' start₁ ht₁ hstage t'' hlookup
    by_cases hne : t' = t
    · subst hne
      obtain rfl : start' = start₁ := Option.some.inj (hself.symm.trans ht₁)
      rw [hkey] at hlookup
      exact hpublished hstage t'' hlookup
    · rw [hother hne] at ht₁
      exact h.published t' start₁ ht₁ hstage t'' (hentry _ _ hlookup).1
  · intro caller hmem t' hstart
    rw [hcallers] at hmem
    obtain ⟨start₁, ht₁, hkey₁⟩ := h.callers caller hmem t' hstart
    by_cases hne : t' = t
    · subst hne
      obtain rfl : start = start₁ := Option.some.inj (ht.symm.trans ht₁)
      exact ⟨start', hself, hkey.trans hkey₁⟩
    · exact ⟨start₁, (hother hne).trans ht₁, hkey₁⟩
  · intro caller hmem t' hstart start₁ ht₁
    rw [hcallers] at hmem
    by_cases hne : t' = t
    · subst hne
      obtain rfl : start' = start₁ := Option.some.inj (hself.symm.trans ht₁)
      exact hsettled (h.retiring caller hmem _ hstart _ ht)
    · exact h.retiring caller hmem t' hstart start₁ ((hother hne).symm.trans ht₁)

/-- A leader's step keeps the registry in order, if it was polled before it was aborted. -/
theorem Inv.leaderStep {act : LeaderAct} (h : Inv w) (ht : w.starts[t]? = some start)
    (hcalm : act = .abort → start.stage ≠ .spawned)
    (hstep : StartKeys.leaderStep w t start act = some w') :
    Inv w' ∧ ∀ key t', w.starting.lookup key = some t' →
      w'.starting.lookup key = some t' ∨ w'.starting.lookup key = none ∧ t' = t := by
  have hiff := h.outcome t start ht
  cases act with
  | poll =>
    rw [StartKeys.leaderStep] at hstep
    split_ifs at hstep with hstage
    cases hstep
    have hnone : start.outcome = none := hiff.2 (.inl hstage)
    refine ⟨h.put { start with stage := .settling } ht rfl rfl rfl
      (fun key t' hlookup => ⟨hlookup, by simp⟩) (fun _ _ hlookup _ => hlookup) (fun _ => h.present t start ht hnone) (iff_of_true hnone (.inr rfl)) (by simp) id,
      fun key t' hlookup => .inl hlookup⟩
  | publish outcome =>
    rw [StartKeys.leaderStep] at hstep
    split_ifs at hstep with hstage
    cases hstep
    have hlookup := h.present t start ht (hiff.2 (.inr hstage))
    refine ⟨h.put { start with outcome := some (settlementOf outcome), stage := .published } ht rfl rfl
      rfl (fun key t' hlookup => ⟨hlookup, by simp⟩) (fun _ _ hlookup _ => hlookup)
      (by simp) (iff_of_false (by simp) (by simp [LeaderStage.atWork])) (fun _ t' ht' => ?_)
      (fun _ => by simp), fun key t' hlookup => .inl hlookup⟩
    exact Option.some.inj (ht'.symm.trans hlookup)
  | release =>
    rw [StartKeys.leaderStep] at hstep
    split_ifs at hstep with hstage
    cases hstep
    have hsome : start.outcome ≠ none := fun hnone => by
      simp [LeaderStage.atWork, hstage] at hiff
      exact hiff hnone
    -- what is there is this start's entry
    have hmine := h.published t start ht hstage
    have hlookup (key : K) (t' : ℕ) : (w.starting.erase start.key).lookup key = some t' ↔
        w.starting.lookup key = some t' ∧ key ≠ start.key := by
      rw [Dict.lookup_erase_eq]
      split_ifs with hkey <;> simp [hkey]
    have hown (key : K) (t' : ℕ) (ht' : w.starting.lookup key = some t') (hne : t' ≠ t) :
        key ≠ start.key := by
      rintro rfl
      exact hne (hmine t' ht')
    refine ⟨h.put { start with stage := .ended } ht rfl rfl rfl (fun key t' ht' => ?_)
      (fun key t' ht' hne => ?_) (fun hnone => absurd hnone hsome) (iff_of_false hsome (by simp [LeaderStage.atWork])) (by simp) id,
      fun key t' ht' => ?_⟩
    · obtain ⟨hbefore, hkey⟩ := (hlookup key t').1 ht'
      refine ⟨hbefore, ?_⟩
      rintro rfl
      obtain ⟨start₁, ht₁, hkey₁, -⟩ := h.entry key t' hbefore
      obtain rfl : start = start₁ := Option.some.inj (ht.symm.trans ht₁)
      exact absurd hkey₁.symm hkey
    · exact (hlookup key t').2 ⟨ht', hown key t' ht' hne⟩
    · by_cases hne : t' = t
      · subst hne
        obtain ⟨start₁, ht₁, hkey₁, -⟩ := h.entry key t' ht'
        obtain rfl : start = start₁ := Option.some.inj (ht.symm.trans ht₁)
        exact .inr ⟨by rw [← hkey₁]; exact AList.lookup_erase _ _, rfl⟩
      · exact .inl ((hlookup key t').2 ⟨ht', hown key t' ht' hne⟩)
  | abort =>
    rw [StartKeys.leaderStep] at hstep
    cases hstage : start.stage with
    | spawned => exact absurd hstage (hcalm rfl)
    | settling =>
      rw [hstage] at hstep
      cases hstep
      have hnone : start.outcome = none := hiff.2 (.inr hstage)
      refine ⟨h.put
        { start with outcome := start.outcome.or (some .abandoned), stage := .abandoned } ht rfl rfl rfl
        (fun key t' hlookup => ⟨hlookup, by simp⟩)
        (fun _ _ hlookup _ => hlookup) (by simp [hnone])
        (iff_of_false (by simp [hnone]) (by simp [LeaderStage.atWork])) (by simp)
        (fun _ => by simp [hnone]), fun key t' hlookup => .inl hlookup⟩
    | published | abandoned | ended =>
      rw [hstage] at hstep
      cases hstep
  | remove =>
    rw [StartKeys.leaderStep] at hstep
    split_ifs at hstep with hstage
    cases hstep
    have hsome : start.outcome ≠ none := fun hnone => by
      simp [LeaderStage.atWork, hstage] at hiff
      exact hiff hnone
    have hkept (key : K) (t' : ℕ) (ht' : w.starting.lookup key = some t') (hne : t' ≠ t) :
        (w.dismiss start.key t).starting.lookup key = some t' := by
      rw [World.lookup_dismiss, if_neg, ht']
      rintro ⟨rfl, hmine⟩
      exact hne (Option.some.inj (ht'.symm.trans hmine))
    refine ⟨h.put { start with stage := .ended } ht rfl (by rw [World.put, World.dismiss_starts])
      (World.dismiss_callers _ _ _) (fun key t' ht' => ?_) hkept
      (fun hnone => absurd hnone hsome) (iff_of_false hsome (by simp [LeaderStage.atWork])) (by simp) id,
      fun key t' ht' => ?_⟩
    · have hafter : (w.dismiss start.key t).starting.lookup key = some t' := ht'
      rw [World.lookup_dismiss] at hafter
      split_ifs at hafter with hgone
      refine ⟨hafter, ?_⟩
      rintro rfl
      obtain ⟨start₁, ht₁, hkey₁, -⟩ := h.entry key t' hafter
      obtain rfl : start = start₁ := Option.some.inj (ht.symm.trans ht₁)
      exact absurd ⟨hkey₁.symm, hkey₁ ▸ hafter⟩ hgone
    · by_cases hne : t' = t
      · subst hne
        obtain ⟨start₁, ht₁, hkey₁, -⟩ := h.entry key t' ht'
        obtain rfl : start = start₁ := Option.some.inj (ht.symm.trans ht₁)
        refine .inr ⟨?_, rfl⟩
        change (w.dismiss start.key t').starting.lookup key = none
        rw [World.lookup_dismiss, if_pos ⟨hkey₁.symm, hkey₁ ▸ ht'⟩]
      · exact .inl (hkept key t' ht' hne)

/-- A new start, where no leader of its key is about to remove an entry. -/
theorem Inv.lead (h : Inv w) {key : K} (hfree : w.starting.lookup key = none)
    (hcalm : ∀ start ∈ w.starts, start.key = key → start.stage ≠ .published) :
    Inv ({ w with
      starting := w.starting.insert key w.starts.length
      starts := w.starts ++ [(⟨key, none, .spawned⟩ : Start K)] } : World K) := by
  have hold {t : ℕ} {start : Start K} (ht : w.starts[t]? = some start) :
      (w.starts ++ [(⟨key, none, .spawned⟩ : Start K)])[t]? = some start := by
    rw [getElem?_append_left (List.getElem?_eq_some_iff.1 ht).1, ht]
  constructor
  · intro key' t ht
    rw [Dict.lookup_insert_eq] at ht
    split_ifs at ht with hkey
    · cases ht
      exact ⟨⟨key, none, .spawned⟩, by simp, hkey.symm, by simp⟩
    · obtain ⟨start, ht, hstart⟩ := h.entry key' t ht
      exact ⟨start, hold ht, hstart⟩
  · intro t start ht hnone
    rw [Dict.lookup_insert_eq]
    rcases Lifecycle.append_cases ht with ⟨rfl, rfl⟩ | ht
    · rw [if_pos rfl]
    · have hbefore := h.present t start ht hnone
      rw [if_neg, hbefore]
      intro hkey
      rw [hkey, hfree] at hbefore
      cases hbefore
  · intro t start ht
    rcases Lifecycle.append_cases ht with ⟨rfl, rfl⟩ | ht
    · exact iff_of_true rfl (.inl rfl)
    · exact h.outcome t start ht
  · intro t start ht hstage t' ht'
    rw [Dict.lookup_insert_eq] at ht'
    rcases Lifecycle.append_cases ht with ⟨rfl, rfl⟩ | ht
    · cases hstage
    · rw [if_neg fun hkey => hcalm start (mem_of_getElem? ht) hkey hstage] at ht'
      exact h.published t start ht hstage t' ht'
  · intro other hmem t ht
    obtain ⟨start, ht, hkey⟩ := h.callers other hmem t ht
    exact ⟨start, hold ht, hkey⟩
  · intro other hmem t hstage start ht
    obtain ⟨start₁, ht₁, -⟩ := h.callers other hmem t (by rw [hstage]; rfl)
    obtain rfl : start₁ = start := Option.some.inj ((hold ht₁).symm.trans ht)
    exact h.retiring other hmem t hstage start₁ ht₁

/-- The entry of a start that has settled is removed. -/
theorem Inv.dismiss (h : Inv w) (key : K)
    (hsettled : ∀ start, w.starts[t]? = some start → start.outcome ≠ none) : Inv (w.dismiss key t) := by
  have hbefore {key' : K} {t' : ℕ} (ht' : (w.dismiss key t).starting.lookup key' = some t') :
      w.starting.lookup key' = some t' := by
    rw [World.lookup_dismiss] at ht'
    split_ifs at ht'
    exact ht'
  constructor
  · intro key' t' ht'
    rw [World.dismiss_starts]
    exact h.entry key' t' (hbefore ht')
  · intro t' start ht' hnone
    rw [World.dismiss_starts] at ht'
    have hlookup := h.present t' start ht' hnone
    rw [World.lookup_dismiss, if_neg, hlookup]
    rintro ⟨hkey, hmine⟩
    rw [hkey, hmine] at hlookup
    cases hlookup
    exact hsettled start ht' hnone
  · rw [World.dismiss_starts]
    exact h.outcome
  · intro t' start ht' hpublished t'' ht''
    rw [World.dismiss_starts] at ht'
    exact h.published t' start ht' hpublished t'' (hbefore ht'')
  · rw [World.dismiss_callers, World.dismiss_starts]
    exact h.callers
  · rw [World.dismiss_callers, World.dismiss_starts]
    exact h.retiring

/-- A caller's step keeps the registry in order, if it leads only where no leader of its key is about
to remove an entry. -/
theorem Inv.callerStep {act : CallerAct} (h : Inv w) (hc : caller ∈ w.callers)
    (hcalm : act = .enter → w.starting.lookup caller.key = none →
      ∀ start ∈ w.starts, start.key = caller.key → start.stage ≠ .published)
    (hstep : StartKeys.callerStep w c caller act = some w') :
    Inv w' ∧ ∀ key t', w.starting.lookup key = some t' →
      w'.starting.lookup key = some t' ∨
        w'.starting.lookup key = none ∧ caller.stage = .retiring t' := by
  cases act with
  | refuse reason =>
    rw [StartKeys.callerStep] at hstep
    split_ifs at hstep
    cases hstep
    exact ⟨h.goto (by simp [CallerStage.start]) (by simp), fun key t' ht' => .inl ht'⟩
  | enter =>
    rw [StartKeys.callerStep] at hstep
    split_ifs at hstep
    cases hstep
    unfold World.enterStartKey
    cases hlookup : w.starting.lookup caller.key with
    | some t =>
      obtain ⟨start, ht, hkey, -⟩ := h.entry _ _ hlookup
      refine ⟨h.goto (fun t' ht' => ?_) (by simp), fun key t' ht' => .inl ht'⟩
      obtain rfl : t = t' := Option.some.inj ht'
      exact ⟨start, ht, hkey⟩
    | none =>
      have hled := h.lead hlookup (hcalm rfl hlookup)
      refine ⟨hled.goto (fun t ht => ?_) (by simp), fun key t' ht' => .inl ?_⟩
      · obtain rfl : w.starts.length = t := Option.some.inj ht
        exact ⟨⟨caller.key, none, .spawned⟩, by simp, rfl⟩
      · change (w.starting.insert caller.key w.starts.length).lookup key = some t'
        rw [Dict.lookup_insert_eq, if_neg, ht']
        rintro rfl
        rw [hlookup] at ht'
        cases ht'
  | observe live =>
    rw [StartKeys.callerStep] at hstep
    cases hstage : caller.stage with
    | waiting t leader =>
      rw [hstage] at hstep
      obtain ⟨settlement, hsettlement, rfl⟩ := Option.map_eq_some_iff.1 hstep
      obtain ⟨start, ht, hsettled⟩ := Option.bind_eq_some_iff.1 hsettlement
      obtain ⟨start₁, ht₁, hkey⟩ := h.callers caller hc t (by rw [hstage]; rfl)
      obtain rfl : start = start₁ := Option.some.inj (ht.symm.trans ht₁)
      have hnext : waitStartSettlement t leader live settlement = .retiring t ∨
          ∃ reply, waitStartSettlement t leader live settlement = .returned reply := by
        cases settlement with
        | settled outcome => cases leader <;> cases live <;> simp [waitStartSettlement]
        | failed error => exact .inr ⟨_, rfl⟩
        | abandoned => exact .inl rfl
      refine ⟨h.goto (fun t' ht' => ?_) fun t' ht' start' hstart' => ?_, fun key t' ht' => .inl ht'⟩
      · rcases hnext with hnext | ⟨reply, hnext⟩
        · rw [hnext] at ht'
          obtain rfl : t = t' := Option.some.inj ht'
          exact ⟨start, ht, hkey⟩
        · rw [hnext] at ht'
          cases ht'
      · rcases hnext with hnext | ⟨reply, hnext⟩
        · rw [hnext] at ht'
          obtain rfl : t = t' := CallerStage.retiring.inj ht'
          obtain rfl : start = start' := Option.some.inj (ht.symm.trans hstart')
          rw [hsettled]
          exact Option.some_ne_none _
        · rw [hnext] at ht'
          cases ht'
    | entering | retiring | returned | cancelled =>
      rw [hstage] at hstep
      cases hstep
  | retire =>
    rw [StartKeys.callerStep] at hstep
    cases hstage : caller.stage with
    | retiring t =>
      rw [hstage] at hstep
      cases hstep
      have hsettled := h.retiring caller hc t hstage
      have hdismissed := h.dismiss caller.key hsettled
      refine ⟨hdismissed.goto (by simp [CallerStage.start]) (by simp), fun key t' ht' => ?_⟩
      change (w.dismiss caller.key t).starting.lookup key = _ ∨
        (w.dismiss caller.key t).starting.lookup key = none ∧ _
      rw [World.lookup_dismiss]
      split_ifs with hgone
      · obtain ⟨rfl, hmine⟩ := hgone
        obtain rfl : t = t' := Option.some.inj (hmine.symm.trans ht')
        exact .inr ⟨rfl, rfl⟩
      · exact .inl ht'
    | entering | waiting | returned | cancelled =>
      rw [hstage] at hstep
      cases hstep
  | cancel =>
    rw [StartKeys.callerStep] at hstep
    cases hstage : caller.stage with
    | waiting t leader =>
      rw [hstage] at hstep
      cases hstep
      exact ⟨h.goto (by simp [CallerStage.start]) (by simp), fun key t' ht' => .inl ht'⟩
    | entering | retiring | returned | cancelled =>
      rw [hstage] at hstep
      cases hstep

theorem Inv.step (h : Inv w) (hcalm : Undisturbed w e) (hstep : StartKeys.step w e = some w') :
    Inv w' ∧ KeepsOthers w e w' := by
  cases e with
  | call key =>
    cases hstep
    refine ⟨⟨h.entry, h.present, h.outcome, h.published, fun caller hmem t ht => ?_,
      fun caller hmem t ht => ?_⟩, fun key t ht => .inl ht⟩
    · rcases mem_append.1 hmem with hmem | hmem
      · exact h.callers caller hmem t ht
      · rw [mem_singleton.1 hmem] at ht
        cases ht
    · rcases mem_append.1 hmem with hmem | hmem
      · exact h.retiring caller hmem t ht
      · rw [mem_singleton.1 hmem] at ht
        cases ht
  | caller c act =>
    obtain ⟨caller, hc, hstep⟩ := Option.bind_eq_some_iff.1 hstep
    obtain ⟨hinv, hkept⟩ := h.callerStep (mem_of_getElem? hc)
      (by rintro rfl; exact hcalm caller hc) hstep
    refine ⟨hinv, fun key t ht => (hkept key t ht).imp_right fun hgone => ⟨hgone.1, ?_⟩⟩
    simp only [World.own, hc, Option.bind_some, hgone.2]
  | leader t act =>
    obtain ⟨start, ht, hstep⟩ := Option.bind_eq_some_iff.1 hstep
    obtain ⟨hinv, hkept⟩ := h.leaderStep ht (by rintro rfl; exact hcalm start ht) hstep
    refine ⟨hinv, fun key t' ht' => (hkept key t' ht').imp_right fun hgone => ⟨hgone.1, ?_⟩⟩
    rw [World.own, hgone.2]

/-! ### A leader comes to its end -/

/-- How many steps are left at most. -/
def LeaderStage.left : LeaderStage → ℕ
  | .spawned => 3
  | .settling => 2
  | .published | .abandoned => 1
  | .ended => 0

/-- A step of this leader. -/
def Event.isOf (t : ℕ) : Event K → Bool
  | .leader t' _ => t' = t
  | .call _ | .caller _ _ => false

theorem leaderStep_starts {act : LeaderAct} (hstep : leaderStep w t start act = some w') :
    ∃ start', w'.starts = w.starts.set t start' ∧ start'.stage.left + 1 ≤ start.stage.left := by
  cases act with
  | poll | publish outcome | release =>
    rw [leaderStep] at hstep
    split_ifs at hstep with hstage
    cases hstep
    exact ⟨_, rfl, by simp [hstage, LeaderStage.left]⟩
  | abort =>
    rw [leaderStep] at hstep
    cases hstage : start.stage with
    | spawned | settling =>
      rw [hstage] at hstep
      cases hstep
      exact ⟨_, rfl, by simp [LeaderStage.left]⟩
    | published | abandoned | ended =>
      rw [hstage] at hstep
      cases hstep
  | remove =>
    rw [leaderStep] at hstep
    split_ifs at hstep with hstage
    cases hstep
    refine ⟨{ start with stage := .ended }, by rw [World.put, World.dismiss_starts], ?_⟩
    simp [hstage, LeaderStage.left]

theorem callerStep_starts {act : CallerAct} (hstep : callerStep w c caller act = some w') :
    w.starts <+: w'.starts := by
  cases act with
  | refuse reason =>
    rw [callerStep] at hstep
    split_ifs at hstep
    cases hstep
    exact prefix_rfl
  | enter =>
    rw [callerStep] at hstep
    split_ifs at hstep
    cases hstep
    unfold World.enterStartKey
    split
    · exact prefix_rfl
    · exact prefix_append _ _
  | observe live =>
    rw [callerStep] at hstep
    split at hstep
    · obtain ⟨settlement, -, rfl⟩ := Option.map_eq_some_iff.1 hstep
      exact prefix_rfl
    · cases hstep
  | retire =>
    rw [callerStep] at hstep
    split at hstep
    · cases hstep
      rw [World.goto, World.dismiss_starts]
    · cases hstep
  | cancel =>
    rw [callerStep] at hstep
    split at hstep
    · cases hstep
      exact prefix_rfl
    · cases hstep

/-- Each step of a leader brings it nearer to its end, and no other step takes it back. -/
theorem left_step (hstep : step w e = some w') (ht : w.starts[t]? = some start) :
    ∃ start', w'.starts[t]? = some start' ∧
      start'.stage.left + (if e.isOf t then 1 else 0) ≤ start.stage.left := by
  have hlt : t < w.starts.length := (List.getElem?_eq_some_iff.1 ht).1
  cases e with
  | call key =>
    cases hstep
    exact ⟨start, ht, le_rfl⟩
  | caller c act =>
    obtain ⟨caller, -, hstep⟩ := Option.bind_eq_some_iff.1 hstep
    refine ⟨start, ?_, le_rfl⟩
    obtain ⟨more, hmore⟩ := callerStep_starts hstep
    rw [← hmore, getElem?_append_left hlt, ht]
  | leader t' act =>
    obtain ⟨start₁, ht₁, hstep⟩ := Option.bind_eq_some_iff.1 hstep
    obtain ⟨start', hstarts, hless⟩ := leaderStep_starts hstep
    rw [hstarts]
    by_cases hself : t' = t
    · subst hself
      obtain rfl : start = start₁ := Option.some.inj (ht.symm.trans ht₁)
      exact ⟨start', getElem?_set_self hlt, by simpa [Event.isOf] using hless⟩
    · refine ⟨start, by rw [getElem?_set_ne hself, ht], ?_⟩
      simp [Event.isOf, hself]

theorem left_run {es : List (Event K)} (hrun : registry.Run w es w') (ht : w.starts[t]? = some start) :
    ∃ start', w'.starts[t]? = some start' ∧
      start'.stage.left + es.countP (·.isOf t) ≤ start.stage.left := by
  induction hrun with
  | nil => exact ⟨start, ht, le_rfl⟩
  | snoc _ hstep ih =>
    obtain ⟨start₁, ht₁, hle₁⟩ := ih
    obtain ⟨start₂, ht₂, hle₂⟩ := left_step hstep ht₁
    refine ⟨start₂, ht₂, ?_⟩
    rw [countP_append, countP_singleton]
    omega

theorem inv_run {es : List (Event K)} (hrun : (registry.only Undisturbed).Run w es w') (h : Inv w) :
    Inv w' :=
  hrun.invariant_only h fun _ _ _ hinv hcalm hstep => (hinv.step hcalm hstep).1

/-- **The registry stays in order as long as its steps are undisturbed.**  There is one leader for
each key, no step removes an entry but its own, and who waits for a leader is released once it has
taken two steps. -/
theorem start_key_leader {es : List (Event K)} (hrun : (registry.only Undisturbed).Run opened es w) :
    OneLeader w ∧
      (∀ e w', Undisturbed w e → step w e = some w' → KeepsOthers w e w') ∧
      ∀ caller t leader, caller ∈ w.callers → caller.stage = .waiting t leader →
        ∀ es' w', (registry.only Undisturbed).Run w es' w' → 2 ≤ es'.countP (·.isOf t) →
          ∀ c, w'.callers[c]? = some caller → ∀ live, (step w' (.caller c (.observe live))).isSome := by
  have hinv : Inv w := inv_run hrun inv_opened
  refine ⟨hinv.oneLeader, fun e w' hcalm hstep => (hinv.step hcalm hstep).2, ?_⟩
  intro caller t leader hcaller hstage es' w' hrun' hsteps c hc live
  obtain ⟨start, ht, -⟩ := hinv.callers caller hcaller t (by rw [hstage]; rfl)
  obtain ⟨start', ht', hleft⟩ := left_run hrun'.of_only ht
  have hbound : start.stage.left ≤ 3 := by cases start.stage <;> decide
  have hsettled : start'.outcome ≠ none := fun hnone => by
    have hfar : 2 ≤ start'.stage.left := by
      rcases ((inv_run hrun' hinv).outcome t start' ht').1 hnone with hwork | hwork <;> rw [hwork] <;> decide
    omega
  obtain ⟨settlement, hsettlement⟩ := Option.ne_none_iff_exists'.1 hsettled
  simp [step, hc, callerStep, hstage, ht', hsettlement]

/-- A source. -/
def exampleSource : SourceId := ⟨⟨List.replicate 16 0, rfl⟩⟩

/-- A caller leads, and another joins it. -/
def exampleJoined : List (Event ℕ) := [.call 0, .caller 0 .enter, .call 0, .caller 1 .enter]

/-- The leader settles. -/
def exampleSettled : List (Event ℕ) :=
  [.leader 0 .poll, .leader 0 (.publish (.ok (.started exampleSource none)))]

/-- Both have waited, and the one that joined can go on. -/
theorem start_key_leader_joined : ∃ w w' : World ℕ,
    (registry.only Undisturbed).Run opened exampleJoined w ∧
    (registry.only Undisturbed).Run w exampleSettled w' ∧
    w.callers = [⟨0, .waiting 0 true⟩, ⟨0, .waiting 0 false⟩] ∧ OneLeader w' ∧
    (∀ e w'', Undisturbed w' e → step w' e = some w'' → KeepsOthers w' e w'') ∧
    ∀ live, (step w' (.caller 1 (.observe live))).isSome := by
  obtain ⟨w, w', hrun, hrun', hcallers, hcallers'⟩ : ∃ w w' : World ℕ,
      (registry.only Undisturbed).Run opened exampleJoined w ∧
      (registry.only Undisturbed).Run w exampleSettled w' ∧
      w.callers = [⟨0, .waiting 0 true⟩, ⟨0, .waiting 0 false⟩] ∧
      w'.callers = [⟨0, .waiting 0 true⟩, ⟨0, .waiting 0 false⟩] :=
    ⟨_, _, Machine.run_only_ofFun rfl, Machine.run_only_ofFun rfl, rfl, rfl⟩
  obtain ⟨-, -, hwaits⟩ := start_key_leader hrun
  obtain ⟨hone, hkeeps, -⟩ := start_key_leader (hrun.append hrun')
  exact ⟨w, w', hrun, hrun', hcallers, hone, hkeeps,
    hwaits ⟨0, .waiting 0 false⟩ 0 false (by rw [hcallers]; simp) rfl _ w' hrun' (by decide) 1
      (by rw [hcallers']; rfl)⟩

/-- The joiner finds that the capture has ended, removes the entry before the leader does, and leads
anew; the leader then removes the entry of that start. -/
def exampleDisturbed : List (Event ℕ) := exampleJoined ++ exampleSettled ++
  [.caller 1 (.observe false), .caller 1 .retire, .caller 1 .enter, .leader 0 .release,
    .call 0, .caller 2 .enter]

/-- **A leader that settles may remove the start of another**, so that two lead at once. -/
theorem start_key_two_leaders :
    ¬ ∀ (es : List (Event ℕ)) (w : World ℕ), registry.Run opened es w → OneLeader w := by
  intro hall
  have hrun : ∃ w : World ℕ, registry.Run opened exampleDisturbed w ∧
      w.starts[1]? = some ⟨0, none, .spawned⟩ ∧ w.starts[2]? = some ⟨0, none, .spawned⟩ :=
    ⟨_, Machine.run_ofFun.2 rfl, rfl, rfl⟩
  obtain ⟨w, hrun, hfirst, hsecond⟩ := hrun
  have hsame := (hall _ w hrun).single 0 1 2 ⟨_, hfirst, rfl, rfl⟩ ⟨_, hsecond, rfl, rfl⟩
  exact absurd hsame (by decide)

end Lvu.Shared.StartKeys
