import Lvu.Shared.Permits

/-!
# What a start is told

A request that joins a start of its key is told what that start came to.  A start is decided on by
the id it asks for as well as by its key, and an id may be known under another key: whoever joined
such a start is told of a source with neither its id nor its key.

* `Unshared` : the condition that no request joins such a start.
* `Named` : what a start has come to, and what is told of it, goes by the id that was asked for or
  by the key.
* `Once` : a settlement starts a capture once.
* `start_settles_once` : one acquisition, one capture, in every run that meets the condition.
-/

namespace Lvu.Shared.Lifecycle

open List

section
variable (canonicalize : Path → Option Path)

/-- The id of a definition is known, and under another key. -/
def Aliased (w : World) (d : SourceDefinition) (key : AdmissionKey) : Prop :=
  ∃ d', w.definitions.lookup d.id = some d' ∧ keyOf canonicalize d' ≠ some key

/-- Some request that leads another's start waits for this settlement. -/
def Joined (w : World) (share : ℕ) : Prop :=
  ∃ (c : ℕ) (call : Call) (d : SourceDefinition) (key : AdmissionKey) (permit : ℕ),
    w.calls[c]? = some call ∧ call.stage = .waiting d key share (some permit)

/-- No request has joined a start whose id is known under another key when that start is decided
on, and none joins it later. -/
def Unshared (w : World) : Event → Prop
  | .task t _ => ∀ task key share d, w.tasks[t]? = some task → task.stage = .deciding d →
      task.work = .leader key share d → Aliased canonicalize w d key → ¬ Joined w share
  | .call c _ => ∀ call d key permit share, w.calls[c]? = some call →
      call.stage = .electing d key permit → w.starting.lookup key = some share →
      ∀ (t : ℕ) (task : Task) key' d', w.tasks[t]? = some task → task.work = .leader key' share d' →
        ¬ Aliased canonicalize w d' key'
  | _ => True

/-- A source has the id that was asked for, or the key. -/
def Names (w : World) (definition : SourceDefinition) (id : SourceId) : Prop :=
  id = definition.id ∨ ∃ d key, w.definitions.lookup id = some d ∧ keyOf canonicalize d = some key ∧
    keyOf canonicalize (canonicalizeDefinition canonicalize definition) = some key

/-- A source is known under the key of the start that comes to it, or under the id that was asked
for, and then nobody shares it. -/
def Fits (w : World) (share : ℕ) (d : SourceDefinition) (key : AdmissionKey) (id : SourceId) : Prop :=
  ∃ d', w.definitions.lookup id = some d' ∧
    (keyOf canonicalize d' = some key ∨ id = d.id ∧ ¬ Joined w share)

end

/-- The source a settlement is at. -/
def Stage.target : Stage → Option SourceId
  | .presenting id | .recalling id => some id
  | .checking d | .stopping d | .starting d | .launching d _ | .publishing d | .storing d _ _ =>
    some d.id
  | .settled (.ok outcome) => some outcome.sourceId
  | _ => none

/-- The start a request leads. -/
def CallStage.leads : CallStage → Option (SourceDefinition × AdmissionKey × ℕ)
  | .spawning (some work) _ | .attaching (some work) _ _ => some work
  | .waiting d key share none => some (d, key, share)
  | _ => none

/-- The settlement that was spawned for a request without a key. -/
def CallStage.receives : CallStage → Option ℕ
  | .attaching none _ i | .receiving i => some i
  | _ => none

/-- The outcome a request is told, or is about to be. -/
def CallStage.reply : CallStage → Option StartedOutcome
  | .done (.ok (.outcome outcome)) | .dropping _ (.inr (.ok (.outcome outcome))) => some outcome
  | _ => none

/-- What settlements come to, and what requests are told of them; `owners` are the definition and
the key that each shared settlement was made for. -/
structure Named (canonicalize : Path → Option Path) (owners : List (SourceDefinition × AdmissionKey))
    (w : World) : Prop where
  length : owners.length = w.shares.length
  registry : ∀ key share, w.starting.lookup key = some share → ∃ d, owners[share]? = some (d, key)
  leaders : ∀ (t : ℕ) (task : Task) key share d, w.tasks[t]? = some task →
    task.work = .leader key share d → owners[share]? = some (d, key)
  led : ∀ (c : ℕ) (call : Call) d key share, w.calls[c]? = some call →
    call.stage.leads = some (d, key, share) → owners[share]? = some (d, key)
  joined : ∀ (c : ℕ) (call : Call) d key share permit, w.calls[c]? = some call →
    call.stage = .waiting d key share (some permit) → ∃ d', owners[share]? = some (d', key)
  aims : ∀ (t : ℕ) (task : Task) key share d id, w.tasks[t]? = some task →
    task.work = .leader key share d → task.stage.target = some id →
    (task.stage.source = some d ∧ id = d.id) ∨ Fits canonicalize w share d key id
  settled : ∀ (share : ℕ) (outcome : StartedOutcome) d key,
    w.shares[share]? = some (some (.settled outcome)) → owners[share]? = some (d, key) →
    (∃ (t : ℕ) (task : Task), w.tasks[t]? = some task ∧ task.work = .leader key share d) ∧
      Fits canonicalize w share d key outcome.sourceId
  restarts : ∀ (t : ℕ) (task : Task) id, w.tasks[t]? = some task → task.stage = .restarting id →
    task.work = .restart id
  keyless : ∀ (t : ℕ) (task : Task) d, w.tasks[t]? = some task → task.work = .keyless d →
    (∀ id, task.stage.target = some id → id = d.id) ∧
      ∀ outcome, task.sent = some (.ok (.outcome outcome)) → outcome.sourceId = d.id
  receiving : ∀ (c : ℕ) (call : Call) i definition, w.calls[c]? = some call →
    call.stage.receives = some i → call.request = .start definition →
    ∃ task d, w.tasks[i]? = some task ∧ task.work = .keyless d ∧ d.id = definition.id
  replies : ∀ (c : ℕ) (call : Call) definition outcome, w.calls[c]? = some call →
    call.request = .start definition → call.stage.reply = some outcome →
    Names canonicalize w definition outcome.sourceId

variable {canonicalize : Path → Option Path} {storeUnavailable : Option String}
  {w w' : World} {t : ℕ} {task : Task} {answer : Answer} {c : ℕ} {call : Call}
  {owners : List (SourceDefinition × AdmissionKey)}

@[simp] theorem startOutcome_sourceId (d : SourceDefinition) (warning : Option String) :
    (startOutcome d warning).sourceId = d.id := by
  unfold startOutcome
  split_ifs <;> rfl

/-- Definitions that stay known. -/
def Extends (w w' : World) : Prop :=
  ∀ id d, w.definitions.lookup id = some d → w'.definitions.lookup id = some d

variable {share : ℕ} {d : SourceDefinition} {key : AdmissionKey} {id : SourceId} {stage : Stage}
  {task' : Task} {outcome : StartedOutcome}

theorem Fits.mono (h : Fits canonicalize w share d key id) (hext : Extends w w')
    (hjoined : Joined w' share → Joined w share) : Fits canonicalize w' share d key id := by
  obtain ⟨d', hd', hkey⟩ := h
  exact ⟨d', hext _ _ hd', hkey.imp_right (And.imp_right (mt hjoined))⟩

theorem Names.mono {definition : SourceDefinition} (h : Names canonicalize w definition id)
    (hext : Extends w w') : Names canonicalize w' definition id := by
  obtain h | ⟨d, key, hd, hkey, hkey'⟩ := h
  · exact .inl h
  · exact .inr ⟨d, key, hext _ _ hd, hkey, hkey'⟩

/-- A settlement comes to a source where it decides, and keeps to it. -/
theorem Next.target (h : Next canonicalize storeUnavailable w task stage)
    (hs : stage.target = some id) :
    (task.stage.target = some id ∧ (task.stage.source = stage.source ∨ task.stage.source = none ∨
        ∃ d, task.stage = .publishing d)) ∨
      (∃ d, task.work = .keyless d ∧ id = d.id) ∨
      (∃ d, task.stage = .deciding d ∧ stage = .starting d ∧ id = d.id) ∨
      (∃ (d : SourceDefinition) (live : List SourceDefinition), task.stage = .deciding d ∧
        live.Perm w.known ∧ admitKnown canonicalize d live = .present id) ∨
      (∃ sourceId d, (task.stage = .recalling sourceId ∨ task.stage = .restarting sourceId) ∧
        w.definitions.lookup sourceId = some d ∧ id = d.id) := by
  cases h with
  | begins h =>
    cases hw : task.work with
    | keyless d =>
      rw [hw] at hs
      exact .inr (.inl ⟨d, rfl, (Option.some.inj hs).symm⟩)
    | _ => rw [hw] at hs; cases hs
  | refuse h => cases hw : task.work <;> rw [hw] at hs <;> cases hs
  | admitted h => exact .inr (.inr (.inl ⟨_, h, rfl, (Option.some.inj hs).symm⟩))
  | present h walked verdict =>
    cases hs
    exact .inr (.inr (.inr (.inl ⟨_, _, h, walked, verdict⟩)))
  | recalled h known => exact .inr (.inr (.inr (.inr ⟨_, _, h, known, (Option.some.inj hs).symm⟩)))
  | start h =>
    left
    obtain h | h := h <;> rw [h] <;> exact ⟨hs, .inl rfl⟩
  | live h | stale h => left; rw [h]; exact ⟨hs, .inr (.inl rfl)⟩
  | stored h => left; rw [h]; exact ⟨by simpa [Stage.target] using hs, .inr (.inl rfl)⟩
  | stop h | launch h | launched h => left; rw [h]; exact ⟨hs, .inl rfl⟩
  | publish h => left; rw [h]; exact ⟨hs, .inr (.inr ⟨_, rfl⟩)⟩
  | publishUnstored h =>
    left
    rw [h]
    exact ⟨by simpa [Stage.target] using hs, .inr (.inr ⟨_, rfl⟩)⟩
  | _ => cases hs

theorem Next.restarting (h : Next canonicalize storeUnavailable w task stage)
    (hs : stage = .restarting id) : task.work = .restart id := by
  cases h with
  | begins h =>
    cases hw : task.work <;> rw [hw] at hs <;> cases hs
    rfl
  | refuse h => cases hw : task.work <;> rw [hw] at hs <;> cases hs
  | _ => cases hs

namespace Named

/-- What a leader's settlement is at after a step. -/
theorem aims_taskStep (hinv : Named canonicalize owners w) (hk : Keyed canonicalize w)
    (hs : Single canonicalize session w) (hext : Extends w w')
    (hC : Unshared canonicalize w (.task t answer)) (ht : w.tasks[t]? = some task)
    (h : TaskSpec canonicalize storeUnavailable w w' t task task')
    (hw : task.work = .leader key share d) (htarget : task'.stage.target = some id) :
    (task'.stage.source = some d ∧ id = d.id) ∨ Fits canonicalize w' share d key id := by
  have hjoined : Joined w' share → Joined w share := by
    rintro ⟨c, call, d, key, permit, hc, hstage⟩
    exact ⟨c, call, d, key, permit, h.calls ▸ hc, hstage⟩
  have hkey : keyOf canonicalize d = some key := hk.leaders t task key share d ht hw
  obtain ⟨hbefore, hsource⟩ | ⟨d', hw', -⟩ | ⟨d', hstage, hstart, rfl⟩ |
    ⟨d', live, hstage, hperm, hverdict⟩ | ⟨sourceId, d', hstage, hd', rfl⟩ := h.next.target htarget
  · obtain ⟨hfrom, rfl⟩ | hfits := hinv.aims t task key share d id ht hw hbefore
    · obtain hsame | hnone | ⟨d', hpub⟩ := hsource
      · exact .inl ⟨hsame ▸ hfrom, rfl⟩
      · rw [hfrom] at hnone; cases hnone
      · -- what is published is known by its own key
        rw [hpub] at hfrom
        obtain rfl : d' = d := Option.some.inj hfrom
        refine .inr ⟨d', ?_, .inl hkey⟩
        rw [h.definitions, hpub]
        exact AList.lookup_insert _
    · exact .inr (hfits.mono hext hjoined)
  · rw [hw] at hw'; cases hw'
  · obtain ⟨key', share', hw'⟩ := hk.deciding t task d' ht hstage
    obtain ⟨rfl, rfl, rfl⟩ := Work.leader.inj (hw.symm.trans hw')
    exact .inl ⟨by rw [hstart]; rfl, rfl⟩
  · obtain ⟨key', share', hw'⟩ := hk.deciding t task d' ht hstage
    obtain ⟨rfl, rfl, rfl⟩ := Work.leader.inj (hw.symm.trans hw')
    obtain ⟨known, hmem, rfl, hsame⟩ := admitKnown_present hkey hverdict
    obtain ⟨⟨id', known'⟩, hentry, rfl⟩ := mem_map.1 (hperm.mem_iff.1 hmem)
    have hlookup : w.definitions.lookup id' = some known' := AList.mem_lookup_iff.2 hentry
    have hid : known'.id = id' := hs.ids id' known' hlookup
    rw [← hid] at hlookup
    refine .inr ⟨known', hext _ _ hlookup, ?_⟩
    by_cases hkey' : keyOf canonicalize known' = some key
    · exact .inl hkey'
    · obtain hid' | hkey'' := hsame
      · refine .inr ⟨hid', fun hj => ?_⟩
        exact hC task key share d ht hstage hw ⟨known', hid' ▸ hlookup, hkey'⟩ (hjoined hj)
      · exact absurd hkey'' hkey'
  · obtain hstage | hstage := hstage
    · have hid : d'.id = sourceId := hs.ids sourceId d' hd'
      obtain ⟨hfrom, -⟩ | hfits := hinv.aims t task key share d sourceId ht hw (by rw [hstage]; rfl)
      · rw [hstage] at hfrom; cases hfrom
      · rw [hid]
        exact .inr (hfits.mono hext hjoined)
    · have := hinv.restarts t task sourceId ht hstage
      rw [hw] at this; cases this

theorem fits_of_settled (hinv : Named canonicalize owners w) (ht : w.tasks[t]? = some task)
    (hw : task.work = .leader key share d) (hs : task.stage = .settled (.ok outcome)) :
    Fits canonicalize w share d key outcome.sourceId := by
  obtain ⟨hfrom, -⟩ | hfits := hinv.aims t task key share d outcome.sourceId ht hw (by rw [hs]; rfl)
  · rw [hs] at hfrom; cases hfrom
  · exact hfits

theorem shares_cases (h : TaskSpec canonicalize storeUnavailable w w' t task task')
    (hs : w'.shares[share]? = some (some (.settled outcome))) :
    w.shares[share]? = some (some (.settled outcome)) ∨ ∃ key d, task.work = .leader key share d ∧
      task.stage = .settled (.ok outcome) := by
  rw [h.shares] at hs
  split at hs
  · rename_i result key share₀ d hstage hw
    obtain ⟨rfl, hsame⟩ | ⟨-, hs⟩ := set_cases hs
    · cases result with
      | ok o =>
        obtain rfl : outcome = o := by simpa using hsame
        exact .inr ⟨key, d, hw, hstage⟩
      | error reason => simp at hsame
    · exact .inl hs
  · exact .inl hs

theorem taskStep (hinv : Named canonicalize owners w) (hk : Keyed canonicalize w)
    (hs : Single canonicalize session w) (hC : Unshared canonicalize w (.task t answer))
    (ht : w.tasks[t]? = some task) (h : TaskSpec canonicalize storeUnavailable w w' t task task') :
    Named canonicalize owners w' := by
  have hext : Extends w w' := fun id d hd => hs.known_taskStep ht h hd
  have hjoined : ∀ share, Joined w' share → Joined w share := by
    rintro share ⟨c, call, d, key, permit, hc, hstage⟩
    exact ⟨c, call, d, key, permit, h.calls ▸ hc, hstage⟩
  constructor
  · rw [h.shares]
    split
    · simpa using hinv.length
    · exact hinv.length
  · intro key share hk
    refine hinv.registry key share ?_
    rw [h.starting] at hk
    split at hk
    · rw [Dict.lookup_erase_eq] at hk
      split_ifs at hk
      exact hk
    · exact hk
  · intro i task₁ key share d hi hw
    obtain ⟨rfl, rfl⟩ | ⟨-, hi⟩ := h.task_at hi
    · exact hinv.leaders _ _ _ _ _ ht (h.work ▸ hw)
    · exact hinv.leaders _ _ _ _ _ hi hw
  · rw [h.calls]; exact hinv.led
  · rw [h.calls]; exact hinv.joined
  · intro i task₁ key share d id hi hw htarget
    obtain ⟨rfl, rfl⟩ | ⟨-, hi⟩ := h.task_at hi
    · exact hinv.aims_taskStep hk hs hext hC ht h (h.work ▸ hw) htarget
    · exact (hinv.aims _ _ _ _ _ _ hi hw htarget).imp_right fun hf => hf.mono hext (hjoined _)
  · intro share outcome d key hshare howner
    obtain hshare | ⟨key', d', hw, hstage⟩ := shares_cases h hshare
    · obtain ⟨⟨i, task₁, hi, hw⟩, hfits⟩ := hinv.settled share outcome d key hshare howner
      refine ⟨?_, hfits.mono hext (hjoined share)⟩
      by_cases hit : i = t
      · subst hit
        cases hi.symm.trans ht
        exact ⟨i, task', Single.mem_tasks ht h.tasks, h.work.trans hw⟩
      · exact ⟨i, task₁, Single.other_tasks h.tasks hit hi, hw⟩
    · have howner' := hinv.leaders t task key' share d' ht hw
      obtain ⟨rfl, rfl⟩ := Prod.mk.inj (Option.some.inj (howner'.symm.trans howner))
      exact ⟨⟨t, task', Single.mem_tasks ht h.tasks, h.work.trans hw⟩,
        (hinv.fits_of_settled ht hw hstage).mono hext (hjoined share)⟩
  · intro i task₁ id hi hstage
    obtain ⟨rfl, rfl⟩ | ⟨-, hi⟩ := h.task_at hi
    · rw [h.work]; exact h.next.restarting hstage
    · exact hinv.restarts _ _ _ hi hstage
  · intro i task₁ d hi hw
    obtain ⟨rfl, rfl⟩ | ⟨-, hi⟩ := h.task_at hi
    · rw [h.work] at hw
      obtain ⟨haims, hsent⟩ := hinv.keyless _ _ _ ht hw
      refine ⟨fun id htarget => ?_, fun outcome hs' => ?_⟩
      · obtain ⟨hbefore, -⟩ | ⟨d', hw', rfl⟩ | ⟨d', hstage, -⟩ | ⟨d', live, hstage, -⟩ |
          ⟨sourceId, d', hstage, hd', rfl⟩ := h.next.target htarget
        · exact haims id hbefore
        · rw [Work.keyless.inj (hw.symm.trans hw')]
        · obtain ⟨_, _, hw'⟩ := hk.deciding _ _ _ ht hstage
          cases hw.symm.trans hw'
        · obtain ⟨_, _, hw'⟩ := hk.deciding _ _ _ ht hstage
          cases hw.symm.trans hw'
        · obtain hstage | hstage := hstage
          · rw [hs.ids _ _ hd']
            exact haims sourceId (by rw [hstage]; rfl)
          · cases hw.symm.trans (hinv.restarts _ _ _ ht hstage)
      · rw [h.sent] at hs'
        split at hs'
        · exact hsent outcome hs'
        · rename_i result hstage _
          cases result with
          | ok o =>
            obtain rfl : o = outcome := by simpa [Except.map] using hs'
            exact haims _ (by rw [hstage]; rfl)
          | error reason => simp [Except.map] at hs'
        · rename_i result hstage
          cases result with
          | ok _ | error reason => cases Option.some.inj hs'
        · exact hsent outcome hs'
    · exact hinv.keyless _ _ _ hi hw
  · intro i call₁ j definition hi hr hask
    obtain ⟨task₁, d, hj, hw, hid⟩ := hinv.receiving i call₁ j definition (h.calls ▸ hi) hr hask
    by_cases hjt : j = t
    · subst hjt
      cases hj.symm.trans ht
      exact ⟨task', d, Single.mem_tasks ht h.tasks, h.work.trans hw, hid⟩
    · exact ⟨task₁, d, Single.other_tasks h.tasks hjt hj, hw, hid⟩
  · intro i call₁ definition outcome hi hask hreply
    exact (hinv.replies i call₁ definition outcome (h.calls ▸ hi) hask hreply).mono hext

theorem joined_callStep {call' : Call} (hc : w.calls[c]? = some call)
    (h : CallSpec canonicalize w w' c call call') (hj : Joined w' share) :
    Joined w share ∨ ∃ d key permit, call.stage = .electing d key permit ∧
      w.starting.lookup key = some share := by
  obtain ⟨i, call₁, d, key, permit, hi, hs⟩ := hj
  obtain ⟨rfl, rfl⟩ | ⟨-, hi⟩ := h.call_at hi
  · have hnext := h.next
    generalize hstage : call₁.stage = stage at hnext hs
    cases hnext with
    | join he hr =>
      cases hs
      exact .inr ⟨d, key, _, he, hr⟩
    | @failed _ _ _ p | @again _ _ _ p | @leave _ p => cases p <;> cases hs
    | _ => cases hs
  · exact .inl ⟨i, call₁, d, key, permit, hi, hs⟩

theorem leads_callNext {stage : CallStage} {work : SourceDefinition × AdmissionKey × ℕ}
    (h : CallNext canonicalize w call stage) (hs : stage.leads = some work) :
    call.stage.leads = some work ∨ ∃ permit, call.stage = .electing work.1 work.2.1 permit ∧
      stage = .spawning (some work) permit ∧ work.2.2 = w.shares.length := by
  cases h with
  | @lead d key permit h =>
    cases hs
    exact .inr ⟨permit, h, rfl, rfl⟩
  | @spawn work' permit h =>
    left; rw [h]
    cases work' <;> exact hs
  | attachLeader h => left; rw [h]; exact hs
  | @failed _ _ _ p | @again _ _ _ p | @leave _ p => cases p <;> cases hs
  | _ => cases hs

theorem receives_callNext {stage : CallStage} {i : ℕ} (h : CallNext canonicalize w call stage)
    (hs : stage.receives = some i) : call.stage.receives = some i ∨
      ∃ permit, call.stage = .spawning none permit ∧ i = w.tasks.length := by
  cases h with
  | @spawn work' permit h =>
    cases work' with
    | none => exact .inr ⟨permit, h, (Option.some.inj hs).symm⟩
    | some work' => cases hs
  | attach h => left; rw [h]; exact hs
  | @failed _ _ _ p | @again _ _ _ p | @leave _ p => cases p <;> cases hs
  | _ => cases hs

/-- What a request is told of, its start has come to. -/
theorem reply_callNext {stage : CallStage} {definition : SourceDefinition}
    (hinv : Named canonicalize owners w) (hk : Keyed canonicalize w) (hc : w.calls[c]? = some call)
    (hask : call.request = .start definition) (h : CallNext canonicalize w call stage)
    (hs : stage.reply = some outcome) : Names canonicalize w definition outcome.sourceId := by
  have hkeyed : ∀ d key, call.stage.asks = some (d, key) → keyOf canonicalize d = some key ∧
      d = canonicalizeDefinition canonicalize definition := by
    intro d key hasks
    obtain ⟨hkey, definition', hask', hd⟩ := hk.calls c call d key hc hasks
    rw [hask] at hask'
    obtain rfl := Request.start.inj hask'
    exact ⟨hkey, hd⟩
  cases h with
  | @told d key share o h settled =>
    obtain rfl := Option.some.inj hs
    obtain ⟨hkey, rfl⟩ := hkeyed d key (by rw [h]; rfl)
    obtain ⟨-, d', hd', hfit⟩ := hinv.settled share o _ key settled
      (hinv.led c call _ key share hc (by rw [h]; rfl))
    obtain hkey' | ⟨hid, -⟩ := hfit
    · exact .inr ⟨d', key, hd', hkey', hkey⟩
    · exact .inl (hid.trans (canonicalizeDefinition_id definition))
  | @presented d key share permit o h settled =>
    cases hs
    obtain ⟨hkey, rfl⟩ := hkeyed d key (by rw [h]; rfl)
    obtain ⟨owner, howner⟩ := hinv.joined c call _ key share permit hc h
    obtain ⟨-, d', hd', hfit⟩ := hinv.settled share o owner key settled howner
    obtain hkey' | ⟨-, halone⟩ := hfit
    · exact .inr ⟨d', key, hd', hkey', hkey⟩
    · exact absurd ⟨c, call, _, key, permit, hc, h⟩ halone
  | @received i task reply h settlement sent =>
    obtain ⟨task', d, hi, hw, hid⟩ := hinv.receiving c call i definition hc (by rw [h]; rfl) hask
    obtain rfl := Option.some.inj (hi.symm.trans settlement)
    have hreply : reply = .ok (.outcome outcome) := by
      cases reply with
      | error reason => cases hs
      | ok reply => cases reply <;> cases hs; rfl
    rw [hreply] at sent
    exact .inl (((hinv.keyless i task' d hi hw).2 outcome sent).trans hid)
  | @leave permit next h =>
    refine hinv.replies c call definition outcome hc hask ?_
    rw [h]
    cases next with
    | inl work => cases hs
    | inr reply =>
      cases reply with
      | error reason => cases hs
      | ok reply => cases reply <;> cases hs; rfl
  | @failed _ _ _ p | @again _ _ _ p => cases p <;> cases hs
  | _ => cases hs

/-- A step of a request. -/
theorem callStep {call' : Call} (hinv : Named canonicalize owners w) (hk : Keyed canonicalize w)
    (hC : Unshared canonicalize w (.call c answer)) (hc : w.calls[c]? = some call)
    (h : CallSpec canonicalize w w' c call call') : ∃ owners, Named canonicalize owners w' := by
  have hext : Extends w w' := fun id d hd => h.definitions ▸ hd
  -- the owner of a new shared settlement is the request that leads it
  obtain ⟨owners', hlength, hold, hlead⟩ : ∃ owners' : List (SourceDefinition × AdmissionKey),
      owners'.length = w'.shares.length ∧
      (∀ i x, owners[i]? = some x → owners'[i]? = some x) ∧
      ∀ d key permit, call.stage = .electing d key permit → call'.stage.isLeading = true →
        owners'[w.shares.length]? = some (d, key) ∧ w'.shares = w.shares ++ [none] := by
    obtain ⟨hsame, hnot⟩ | ⟨hnew, d, key, permit, he, -⟩ := h.shares
    · exact ⟨owners, by rw [hsame]; exact hinv.length, fun _ _ h => h,
        fun _ _ _ _ hl => absurd hl (by simp [hnot])⟩
    · refine ⟨owners ++ [(d, key)], by simp [hnew, hinv.length], fun i x hi => ?_,
        fun d' key' permit' he' _ => ⟨?_, hnew⟩⟩
      · rw [getElem?_append_left (List.getElem?_eq_some_iff.1 hi).1, hi]
      · obtain ⟨rfl, rfl, -⟩ := CallStage.electing.inj (he.symm.trans he')
        rw [← hinv.length]
        simp
  have hback : ∀ i x, i < w.shares.length → owners'[i]? = some x → owners[i]? = some x := by
    intro i x hlt hi
    have hlt' : i < owners.length := by rw [hinv.length]; exact hlt
    have hsome : owners[i]? = some (owners.get ⟨i, hlt'⟩) := getElem?_eq_getElem hlt'
    rw [hsome]
    exact (hold i _ hsome).symm.trans hi
  -- whoever joins now joins a start whose id has no other key
  have hfits : ∀ (i : ℕ) (task : Task) key share d id, w.tasks[i]? = some task →
      task.work = .leader key share d → Fits canonicalize w share d key id →
      Fits canonicalize w' share d key id := by
    rintro i task key share d id hi hw ⟨d', hd', hfit⟩
    refine ⟨d', hext _ _ hd', ?_⟩
    obtain hkey | ⟨hid, halone⟩ := hfit
    · exact .inl hkey
    · by_cases hj : Joined w' share
      · obtain hj | ⟨d₀, key₀, permit₀, he, hr⟩ := joined_callStep hc h hj
        · exact absurd hj halone
        · have hnot := hC call d₀ key₀ permit₀ share hc he hr i task key d hi hw
          by_contra hkey
          exact hnot ⟨d', hid ▸ hd', fun hk => hkey (.inl hk)⟩
      · exact .inr ⟨hid, hj⟩
  have hsettled : ∀ (share : ℕ) (outcome : StartedOutcome),
      w'.shares[share]? = some (some (.settled outcome)) →
      w.shares[share]? = some (some (.settled outcome)) := by
    intro share outcome hs
    obtain ⟨hsame, -⟩ | ⟨hnew, -⟩ := h.shares
    · rwa [hsame] at hs
    · rw [hnew] at hs
      obtain ⟨-, hs⟩ | hs := append_cases hs
      · cases hs
      · exact hs
  refine ⟨owners', hlength, ?_, ?_, ?_, ?_, ?_, ?_, ?_, ?_, ?_, ?_⟩
  · intro key share hs
    obtain hs | ⟨rfl, -, d, permit, he, hl⟩ := h.starting key share hs
    · obtain ⟨d, hd⟩ := hinv.registry key share hs
      exact ⟨d, hold _ _ hd⟩
    · exact ⟨d, (hlead d key permit he (by rw [hl]; rfl)).1⟩
  · intro i task key share d hi hw
    obtain hi | ⟨work, permit, hs, -, rfl⟩ := h.spawned hi
    · exact hold _ _ (hinv.leaders _ _ _ _ _ hi hw)
    · cases work with
      | none => cases hr : call.request <;> simp only [workOf, hr] at hw <;> cases hw
      | some work =>
        obtain ⟨d', key', share'⟩ := work
        obtain ⟨rfl, rfl, rfl⟩ := Work.leader.inj hw
        exact hold _ _ (hinv.led c call _ _ _ hc (by rw [hs]; rfl))
  · intro i call₁ d key share hi hs
    obtain ⟨rfl, rfl⟩ | ⟨-, hi⟩ := h.call_at hi
    · obtain hbefore | ⟨permit, he, hl, rfl⟩ := leads_callNext h.next hs
      · exact hold _ _ (hinv.led _ _ _ _ _ hc hbefore)
      · exact (hlead d key permit he (by rw [hl]; rfl)).1
    · exact hold _ _ (hinv.led _ _ _ _ _ hi hs)
  · intro i call₁ d key share permit hi hs
    obtain ⟨rfl, rfl⟩ | ⟨-, hi⟩ := h.call_at hi
    · have hnext := h.next
      generalize hstage : call₁.stage = stage at hnext hs
      cases hnext with
      | join he hr =>
        cases hs
        obtain ⟨d', hd'⟩ := hinv.registry _ _ hr
        exact ⟨d', hold _ _ hd'⟩
      | @failed _ _ _ p | @again _ _ _ p | @leave _ p => cases p <;> cases hs
      | _ => cases hs
    · obtain ⟨d', hd'⟩ := hinv.joined _ _ _ _ _ _ hi hs
      exact ⟨d', hold _ _ hd'⟩
  · intro i task key share d id hi hw htarget
    obtain hi | ⟨work, permit, -, -, rfl⟩ := h.spawned hi
    · exact (hinv.aims _ _ _ _ _ _ hi hw htarget).imp_right (hfits _ _ _ _ _ _ hi hw)
    · cases htarget
  · intro share outcome d key hs howner
    have hs := hsettled share outcome hs
    have howner := hback share _ (List.getElem?_eq_some_iff.1 hs).1 howner
    obtain ⟨⟨i, task, hi, hw⟩, hfit⟩ := hinv.settled share outcome d key hs howner
    exact ⟨⟨i, task, h.back hi, hw⟩, hfits i task key share d _ hi hw hfit⟩
  · intro i task id hi hs
    obtain hi | ⟨work, permit, -, -, rfl⟩ := h.spawned hi
    · exact hinv.restarts _ _ _ hi hs
    · cases hs
  · intro i task d hi hw
    obtain hi | ⟨work, permit, -, -, rfl⟩ := h.spawned hi
    · exact hinv.keyless _ _ _ hi hw
    · exact ⟨(fun _ h => by cases h), fun _ h => by cases h⟩
  · intro i call₁ j definition hi hr hask
    obtain ⟨rfl, rfl⟩ | ⟨-, hi⟩ := h.call_at hi
    · rw [h.request] at hask
      obtain hbefore | ⟨permit, hs, rfl⟩ := receives_callNext h.next hr
      · obtain ⟨task, d, hj, hw, hid⟩ := hinv.receiving _ _ _ _ hc hbefore hask
        exact ⟨task, d, h.back hj, hw, hid⟩
      · refine ⟨⟨i, workOf canonicalize call.request none, permit, .spawned, false, false, false,
          none⟩, canonicalizeDefinition canonicalize definition, ?_, by simp only [workOf, hask],
          canonicalizeDefinition_id definition⟩
        rw [h.tasks, hs]
        simp
    · obtain ⟨task, d, hj, hw, hid⟩ := hinv.receiving _ _ _ _ hi hr hask
      exact ⟨task, d, h.back hj, hw, hid⟩
  · intro i call₁ definition outcome hi hask hs
    obtain ⟨rfl, rfl⟩ | ⟨-, hi⟩ := h.call_at hi
    · exact (reply_callNext hinv hk hc (h.request ▸ hask) h.next hs).mono hext
    · exact (hinv.replies _ _ _ _ hi hask hs).mono hext

/-- A step that leaves what settlements come to as it is: requests come or are dropped, settlements
are aborted or torn down, and what was shared is abandoned. -/
theorem aside (hinv : Named canonicalize owners w) (h : Aside w w') :
    Named canonicalize owners w' := by
  have hext : Extends w w' := fun id d hd => h.definitions ▸ hd
  have hjoined : ∀ share, Joined w' share → Joined w share := by
    rintro share ⟨c, call, d, key, permit, hc, hs⟩
    obtain hc | harrived | hdropped := h.calls c call hc
    · exact ⟨c, call, d, key, permit, hc, hs⟩
    · cases harrived.symm.trans hs
    · cases hdropped.symm.trans hs
  have hfits : ∀ share d key id, Fits canonicalize w share d key id →
      Fits canonicalize w' share d key id := fun share d key id hf => hf.mono hext (hjoined share)
  constructor
  · rw [h.shares]; exact hinv.length
  · exact fun key share hs => hinv.registry key share (h.starting key share hs)
  · intro i task' key share d hi hw
    obtain ⟨task, hi, hw', -⟩ := h.settlement hi
    exact hinv.leaders i task key share d hi (hw' ▸ hw)
  · intro c call d key share hc hs
    obtain hc | harrived | hdropped := h.calls c call hc
    · exact hinv.led c call d key share hc hs
    · rw [harrived] at hs; cases hs
    · rw [hdropped] at hs; cases hs
  · intro c call d key share permit hc hs
    obtain hc | harrived | hdropped := h.calls c call hc
    · exact hinv.joined c call d key share permit hc hs
    · cases harrived.symm.trans hs
    · cases hdropped.symm.trans hs
  · intro i task' key share d id hi hw hs
    obtain ⟨task, hi, hw', -, hstage | hstage⟩ := h.settlement hi
    · rw [hstage] at hs ⊢
      exact (hinv.aims i task key share d id hi (hw' ▸ hw) hs).imp_right (hfits _ _ _ _)
    · rw [hstage] at hs; cases hs
  · intro share outcome d key hs howner
    obtain ⟨⟨i, task, hi, hw⟩, hfit⟩ := hinv.settled share outcome d key (h.settled share outcome hs) howner
    obtain ⟨task', hi', hrests⟩ := h.back hi
    exact ⟨⟨i, task', hi', hrests.work.trans hw⟩, hfits _ _ _ _ hfit⟩
  · intro i task' id hi hs
    obtain ⟨task, hi, hw', -, hstage | hstage⟩ := h.settlement hi
    · rw [hw']
      exact hinv.restarts i task id hi (hstage ▸ hs)
    · cases hstage.symm.trans hs
  · intro i task' d hi hw
    obtain ⟨task, hi, hw', hsent, hstage⟩ := h.settlement hi
    obtain ⟨haims, hsends⟩ := hinv.keyless i task d hi (hw' ▸ hw)
    refine ⟨fun id hs => ?_, fun outcome hs => hsends outcome (hsent ▸ hs)⟩
    obtain hstage | hstage := hstage
    · exact haims id (hstage ▸ hs)
    · rw [hstage] at hs; cases hs
  · intro c call i definition hc hs hask
    obtain hc | harrived | hdropped := h.calls c call hc
    · obtain ⟨task, d, hi, hw, hid⟩ := hinv.receiving c call i definition hc hs hask
      obtain ⟨task', hi', hrests⟩ := h.back hi
      exact ⟨task', d, hi', hrests.work.trans hw, hid⟩
    · rw [harrived] at hs; cases hs
    · rw [hdropped] at hs; cases hs
  · intro c call definition outcome hc hask hs
    obtain hc | harrived | hdropped := h.calls c call hc
    · exact (hinv.replies c call definition outcome hc hask hs).mono hext
    · rw [harrived] at hs; cases hs
    · rw [hdropped] at hs; cases hs

theorem step {e : Event} (hinv : Named canonicalize owners w) (hk : Keyed canonicalize w)
    (hs : Single canonicalize session w) (hC : Unshared canonicalize w e)
    (h : step canonicalize storeUnavailable w e = some w') :
    ∃ owners, Named canonicalize owners w' := by
  obtain ⟨c, answer, call, call', rfl, hc, -, hspec⟩ | ⟨t, answer, task, task', rfl, ht, -, hspec⟩ |
    haside := step_spec h
  · exact hinv.callStep hk hC hc hspec
  · exact ⟨owners, hinv.taskStep hk hs hC ht hspec⟩
  · exact ⟨owners, hinv.aside haside⟩

end Named

theorem Resumed.named {session : List SourceDefinition} (h : Resumed canonicalize session w) :
    Named canonicalize [] w := by
  constructor <;> simp [h.calls, h.tasks, h.shares, h.starting]

variable {w₀ : World} {es : List Event}

/-- **What replies name.**  In every state that steps of the condition lead to, a start that
succeeded is told of a source with the id or the key it asked for. -/
theorem named_run (h₀ : Serves canonicalize w₀)
    (h : ((worker canonicalize storeUnavailable).only (Unshared canonicalize)).Run w₀ es w) :
    Keyed canonicalize w ∧ Single canonicalize w₀.session w ∧
      ∃ owners, Named canonicalize owners w := by
  have hresumed := resumed_of_serves h₀
  refine h.invariant_only (I := fun w => Keyed canonicalize w ∧ Single canonicalize w₀.session w ∧
    ∃ owners, Named canonicalize owners w)
    ⟨hresumed.keyed, hresumed.single, [], hresumed.named⟩ fun s e s' hinv hC hstep => ?_
  obtain ⟨hk, hs, owners, hn⟩ := hinv
  exact ⟨hk.step hstep, hs.step hk hstep, hn.step hk hs hC hstep⟩

/-! ### A request that is dropped -/

/-- Whether a settlement may still start a capture. -/
def Stage.unlaunched : Stage → Bool
  | .spawned | .queued | .held | .deciding _ | .presenting _ | .recalling _ | .restarting _
  | .checking _ | .stopping _ | .starting _ => true
  | _ => false

/-- A settlement starts a capture once. -/
structure Once (w : World) : Prop where
  known : ∀ (l : ℕ) (launch : Launch), w.launches[l]? = some launch → launch.task < w.tasks.length
  fresh : ∀ (t : ℕ) (task : Task) (l : ℕ) (launch : Launch), w.tasks[t]? = some task →
    task.stage.unlaunched = true → w.launches[l]? = some launch → launch.task ≠ t
  one : ∀ (l l' : ℕ) (launch launch' : Launch), w.launches[l]? = some launch →
    w.launches[l']? = some launch' → launch.task = launch'.task → l = l'

theorem Next.unlaunched (h : Next canonicalize storeUnavailable w task stage)
    (hs : stage.unlaunched = true) : task.stage.unlaunched = true := by
  cases h with
  | poll h | lock h | begins h | admitted h | present h | stale h | stop h => rw [h]; rfl
  | recalled h | start h => obtain h | h := h <;> rw [h] <;> rfl
  | refuse h => rw [h]; rfl
  | _ => cases hs

/-- A settlement that awaits a start of the manager has just asked for it, or did before. -/
theorem launches_taskStep (h : TaskSpec canonicalize storeUnavailable w w' t task task') :
    w'.launches = w.launches ∨ ∃ d, task.stage = .starting d ∧
      task'.stage = .launching d w.launches.length ∧ w'.launches = w.launches ++ [⟨d, t, .preparing⟩] := by
  have hnext := h.next
  have hlaunches := h.launches
  cases hs : task'.stage with
  | launching d l =>
    rw [hs] at hlaunches hnext
    generalize hstage : Stage.launching d l = stage at hnext
    cases hnext with
    | launch hbefore =>
      obtain ⟨rfl, rfl⟩ := Stage.launching.inj hstage
      exact .inr ⟨d, hbefore, rfl, hlaunches⟩
    | begins | refuse => cases hw : task.work <;> rw [hw] at hstage <;> cases hstage
    | _ => cases hstage
  | _ => rw [hs] at hlaunches; exact .inl hlaunches

namespace Once

/-- A step that starts no capture. -/
theorem frame (hinv : Once w) (hlaunches : w'.launches.map (·.task) = w.launches.map (·.task))
    (htasks : ∀ (t : ℕ) (task' : Task), w'.tasks[t]? = some task' → task'.stage.unlaunched = true →
      (∃ task, w.tasks[t]? = some task ∧ task.stage.unlaunched = true) ∨ w.tasks.length ≤ t)
    (hlength : w.tasks.length ≤ w'.tasks.length) : Once w' := by
  have hback : ∀ (l : ℕ) (launch : Launch), w'.launches[l]? = some launch →
      ∃ launch', w.launches[l]? = some launch' ∧ launch'.task = launch.task := by
    intro l launch hl
    have hmap : (w.launches.map (·.task))[l]? = some launch.task := by
      rw [← hlaunches, getElem?_map, hl]; rfl
    rw [getElem?_map] at hmap
    exact Option.map_eq_some_iff.1 hmap
  refine ⟨fun l launch hl => ?_, fun t task' l launch ht hs hl => ?_,
    fun l l' launch launch' hl hl' heq => ?_⟩
  · obtain ⟨launch', hl', heq⟩ := hback l launch hl
    exact heq ▸ lt_of_lt_of_le (hinv.known l launch' hl') hlength
  · obtain ⟨launch', hl', heq⟩ := hback l launch hl
    obtain ⟨task, ht, hs⟩ | hle := htasks t task' ht hs
    · exact heq ▸ hinv.fresh t task l launch' ht hs hl'
    · have := hinv.known l launch' hl'
      omega
  · obtain ⟨launch₁, hl₁, heq₁⟩ := hback l launch hl
    obtain ⟨launch₂, hl₂, heq₂⟩ := hback l' launch' hl'
    exact hinv.one l l' launch₁ launch₂ hl₁ hl₂ (heq₁.trans (heq.trans heq₂.symm))

theorem taskStep (hinv : Once w) (ht : w.tasks[t]? = some task)
    (h : TaskSpec canonicalize storeUnavailable w w' t task task') : Once w' := by
  have hlength : w'.tasks.length = w.tasks.length := by rw [h.tasks, length_set]
  have hunlaunched : ∀ (i : ℕ) (task₁ : Task), w'.tasks[i]? = some task₁ →
      task₁.stage.unlaunched = true → ∃ task₂, w.tasks[i]? = some task₂ ∧
        task₂.stage.unlaunched = true := by
    intro i task₁ hi hs
    obtain ⟨rfl, rfl⟩ | ⟨-, hi⟩ := h.task_at hi
    · exact ⟨task, ht, h.next.unlaunched hs⟩
    · exact ⟨task₁, hi, hs⟩
  obtain hsame | ⟨d, hbefore, hafter, hnew⟩ := launches_taskStep h
  · exact hinv.frame (by rw [hsame]) (fun i task₁ hi hs => .inl (hunlaunched i task₁ hi hs)) hlength.ge
  · -- the settlement that starts it has started none before
    have hnone : ∀ (l : ℕ) (launch : Launch), w.launches[l]? = some launch → launch.task ≠ t :=
      fun l launch hl => hinv.fresh t task l launch ht (by rw [hbefore]; rfl) hl
    refine ⟨fun l launch hl => ?_, fun i task₁ l launch hi hs hl => ?_,
      fun l l' launch launch' hl hl' heq => ?_⟩
    · rw [hlength]
      rw [hnew] at hl
      obtain ⟨-, rfl⟩ | hl := append_cases hl
      · exact (List.getElem?_eq_some_iff.1 ht).1
      · exact hinv.known l launch hl
    · obtain ⟨task₂, hi', hs'⟩ := hunlaunched i task₁ hi hs
      rw [hnew] at hl
      obtain ⟨-, rfl⟩ | hl := append_cases hl
      · rintro rfl
        obtain ⟨-, rfl⟩ | ⟨hne, -⟩ := h.task_at hi
        · rw [hafter] at hs; cases hs
        · exact hne rfl
      · exact hinv.fresh i task₂ l launch hi' hs' hl
    · rw [hnew] at hl hl'
      obtain ⟨rfl, rfl⟩ | hl := append_cases hl
      · obtain ⟨rfl, -⟩ | hl' := append_cases hl'
        · rfl
        · exact absurd heq.symm (hnone l' launch' hl')
      · obtain ⟨-, rfl⟩ | hl' := append_cases hl'
        · exact absurd heq (hnone l launch hl)
        · exact hinv.one l l' launch launch' hl hl' heq

theorem step {e : Event} (hinv : Once w) (h : step canonicalize storeUnavailable w e = some w') :
    Once w' := by
  obtain ⟨c, answer, call, call', -, hc, -, hspec⟩ | ⟨t, answer, task, task', -, ht, -, hspec⟩ |
    haside := step_spec h
  · refine hinv.frame (by rw [hspec.launches]) (fun t task ht hs => ?_) ?_
    · obtain ht | ⟨_, _, -, rfl, -⟩ := hspec.spawned ht
      · exact .inl ⟨task, ht, hs⟩
      · exact .inr le_rfl
    · rw [hspec.tasks]
      split <;> simp
  · exact hinv.taskStep ht hspec
  · refine hinv.frame haside.launches (fun i task' hi hs => ?_) haside.length.ge
    obtain ⟨task, hi, -, -, hstage | hstage⟩ := haside.settlement hi
    · exact .inl ⟨task, hi, hstage ▸ hs⟩
    · rw [hstage] at hs; cases hs

end Once

/-- A request that is dropped leaves all but itself to the others: it is their permits that stay. -/
structure LeftAlone (w w' : World) (c : ℕ) : Prop where
  rest : w' = { w with gate := w'.gate, calls := w'.calls }
  calls : ∀ i, i ≠ c → w'.calls[i]? = w.calls[i]?
  closed : w'.gate.closed = w.gate.closed
  permits : ∀ (t : ℕ) (task : Task), w.tasks[t]? = some task → task.stage ≠ .finished →
    w'.gate.permits.lookup task.permit = w.gate.permits.lookup task.permit

theorem leftAlone_of_dropStep (hinv : Permitted canonicalize w) (hc : w.calls[c]? = some call)
    (h : dropStep w c call = some w') : LeftAlone w w' c := by
  obtain ⟨gate, rfl, hgate⟩ := dropStep_spec h
  refine ⟨rfl, fun i hi => ?_, ?_, fun t task ht hs => ?_⟩
  · exact getElem?_set_ne (Ne.symm hi)
  · obtain ⟨rfl, -⟩ | ⟨_, -, rfl⟩ := hgate <;> rfl
  · obtain ⟨rfl, -⟩ | ⟨permit, hp, rfl⟩ := hgate
    · rfl
    · refine AList.lookup_erase_ne fun heq => ?_
      have hheld : task.held = some task.permit := by
        unfold Task.held
        cases hstage : task.stage <;> first | rfl | exact absurd hstage hs
      have hone := hinv.held.one (.task t) (.call c) permit
        (by simp only [World.permitOf, ht, Option.bind_some, hheld, heq])
        (by simp only [World.permitOf, hc, Option.bind_some, hp])
      cases hone

variable {w₁ : World} {es' : List Event}

/-- A request that was dropped spawns nothing more. -/
theorem dropped_run (hc : w.calls[c]? = some call) (hs : call.stage = .dropped)
    (h : (worker canonicalize storeUnavailable).Run w es' w₁) :
    (∃ call, w₁.calls[c]? = some call ∧ call.stage = .dropped) ∧
      ∀ (t : ℕ) (task : Task), w₁.tasks[t]? = some task → task.call = c → t < w.tasks.length := by
  refine h.invariant (I := fun w₁ => (∃ call, w₁.calls[c]? = some call ∧ call.stage = .dropped) ∧
    ∀ (t : ℕ) (task : Task), w₁.tasks[t]? = some task → task.call = c → t < w.tasks.length)
    ⟨⟨call, hc, hs⟩, fun t task ht _ => (List.getElem?_eq_some_iff.1 ht).1⟩ fun w₁ e w₂ hinv hstep => ?_
  obtain ⟨⟨call, hc, hs⟩, htasks⟩ := hinv
  obtain ⟨i, answer, call₁, call', -, hi, hstep, hspec⟩ |
    ⟨i, answer, task₁, task', -, hi, -, hspec⟩ | haside := step_spec hstep
  · have hne : i ≠ c := by
      rintro rfl
      cases hi.symm.trans hc
      unfold callStep at hstep
      rw [hs] at hstep
      cases answer <;> cases hstep
    refine ⟨⟨call, by rw [hspec.calls, getElem?_set_ne hne, hc], hs⟩, fun t task ht hcall => ?_⟩
    obtain ht | ⟨_, _, -, -, rfl⟩ := hspec.spawned ht
    · exact htasks t task ht hcall
    · exact absurd hcall hne
  · refine ⟨⟨call, by rw [hspec.calls, hc], hs⟩, fun t task ht hcall => ?_⟩
    rw [hspec.tasks] at ht
    obtain ⟨rfl, rfl⟩ | ⟨-, ht⟩ := set_cases ht
    · exact htasks _ _ hi (hspec.call ▸ hcall)
    · exact htasks t task ht hcall
  · refine ⟨?_, fun t task' ht hcall => ?_⟩
    · obtain ⟨call', hc', rfl | ⟨hdropped, -⟩⟩ := haside.kept c call hc
      · exact ⟨call', hc', hs⟩
      · exact ⟨call', hc', hdropped⟩
    · obtain ⟨task, ht, hrests⟩ := haside.tasks t task' ht
      exact htasks t task ht (hrests.call ▸ hcall)

theorem Resumed.once {session : List SourceDefinition} (h : Resumed canonicalize session w) : Once w := by
  constructor <;> simp [h.launches]

/-! ### One acquisition, one capture -/

/-- **One acquisition, one capture.**  In every state that steps of the condition lead to, two
captures of one key that run are one; what is captured next is known under no other id; a start
that succeeded names a source with the id or the key it asked for; a request that is dropped leaves
its start to the others, and asks for none again; and a settlement starts one capture. -/
theorem start_settles_once (h₀ : Serves canonicalize w₀)
    (hkeys : DistinctKeys canonicalize w₀.session)
    (h : ((worker canonicalize storeUnavailable).only (Unshared canonicalize)).Run w₀ es w) :
    (∀ d d' key slot slot', Runs w d slot → Runs w d' slot' → keyOf canonicalize d = some key →
      keyOf canonicalize d' = some key → slot = slot') ∧
    (∀ e w' d d' id key, step canonicalize storeUnavailable w e = some w' → Acquires w d w' →
      w.definitions.lookup id = some d' → keyOf canonicalize d = some key →
      keyOf canonicalize d' = some key → id = d.id) ∧
    (∀ (c : ℕ) (call : Call) definition outcome, w.calls[c]? = some call →
      call.request = .start definition → call.stage = .done (.ok (.outcome outcome)) →
      Names canonicalize w definition outcome.sourceId) ∧
    (∀ c w' es' w'', step canonicalize storeUnavailable w (.drop c) = some w' →
      (worker canonicalize storeUnavailable).Run w' es' w'' → LeftAlone w w' c ∧
      ∀ (t : ℕ) (task : Task), w''.tasks[t]? = some task → task.call = c → t < w.tasks.length) ∧
    (∀ (l l' : ℕ) (launch launch' : Launch), w.launches[l]? = some launch →
      w.launches[l']? = some launch' → launch.task = launch'.task → l = l') := by
  obtain ⟨hk, hs, owners, hn⟩ := named_run h₀ h
  have hp := permitted_run h₀ h.of_only
  have ho : Once w := h.of_only.invariant (resumed_of_serves h₀).once fun s e s' hinv hstep => hinv.step hstep
  refine ⟨fun d d' key slot slot' hr hr' hkey hkey' => hs.runs hkeys hr hr' hkey hkey',
    fun e w' d d' id key _ ha hknown hkey hkey' => hs.acquires hkeys ha hknown hkey hkey',
    fun c call definition outcome hc hask hdone => ?_, fun c w' es' w'' hdrop hrun => ?_, ho.one⟩
  · exact hn.replies c call definition outcome hc hask (by rw [hdone]; rfl)
  · obtain ⟨call, hc, hdrop⟩ := Option.bind_eq_some_iff.1 hdrop
    refine ⟨leftAlone_of_dropStep hp hc hdrop, ?_⟩
    obtain ⟨gate, rfl, -⟩ := dropStep_spec hdrop
    exact (dropped_run (getElem?_set_self (List.getElem?_eq_some_iff.1 hc).1) rfl hrun).2

/-! ### A start that somebody else joins -/

/-- A worker with an empty session, in which a file is captured. -/
def firstStart (definition : SourceDefinition) : List Event :=
  leadEvents 0 definition ++ pollEvents 0 ++ [.task 0 (.live [])] ++ captureEvents 0 0 ++
    [.call 0 .none]

/-- The same id is asked for under another path, and that path under another id. -/
def joinedStart : List Event :=
  leadEvents 1 (fileSource 1 98) ++ pollEvents 1 ++
    .request (.start (fileSource 2 98)) :: List.replicate 3 (.call 2 .none) ++
    [.task 1 (.live [fileSource 1 97]), .task 1 .none, .task 1 .none, .call 2 .none, .call 2 .none]

theorem serves_opened : Serves canonicalize (.opened [] ∅) := ⟨[], ∅, [], rfl, rfl⟩

/-- Whoever joined such a start is told of a source that has neither the id nor the key. -/
theorem joined_start_is_told_of_another : ∃ w, Serves some (.opened [] ∅) ∧
    (worker some none).Run (.opened [] ∅) (firstStart (fileSource 1 97) ++ joinedStart) w ∧
    ∃ (c : ℕ) (call : Call) (definition : SourceDefinition) (outcome : StartedOutcome),
      w.calls[c]? = some call ∧ call.request = .start definition ∧
      call.stage = .done (.ok (.outcome outcome)) ∧ ¬ Names some w definition outcome.sourceId := by
  obtain ⟨w, hw, htold, hdefinition⟩ : ∃ w, (worker some none).Run (.opened [] ∅)
      (firstStart (fileSource 1 97) ++ joinedStart) w ∧
      w.calls[2]? = some ⟨.start (fileSource 2 98),
        .done (.ok (.outcome (.present (fileSource 1 97).id)))⟩ ∧
      w.definitions.lookup (fileSource 1 97).id = some (fileSource 1 97) :=
    Machine.exists_run (by decide +kernel)
  refine ⟨w, serves_opened, hw, 2, _, _, _, htold, rfl, rfl, ?_⟩
  rintro (hid | ⟨d, key, hd, hkey, hkey'⟩)
  · exact absurd hid (by decide)
  · obtain rfl := Option.some.inj (hdefinition.symm.trans hd)
    exact absurd (hkey.trans hkey'.symm) (by decide)

/-- A start decides while nothing is known, and is reserved while nothing else is. -/
def alone (w : World) : Event → Bool
  | .task t _ =>
    match w.tasks[t]? with
    | some ⟨_, _, _, .deciding _, _, _, _, _⟩ => w.definitions.entries.isEmpty
    | _ => true
  | .call c _ =>
    match w.calls[c]? with
    | some ⟨_, .electing _ _ _⟩ => w.starting.entries.isEmpty
    | _ => true
  | _ => true

theorem lookup_of_isEmpty {K V : Type} [DecidableEq K] {d : Dict K V} (h : d.entries.isEmpty = true)
    (k : K) : d.lookup k = none := by
  have hentries : d.entries = [] := List.isEmpty_iff.1 h
  rw [show d.lookup k = d.entries.dlookup k from rfl, hentries]
  rfl

theorem unshared_of_alone {e : Event} (h : alone w e = true) : Unshared canonicalize w e := by
  cases e with
  | task t answer =>
    intro task key share d ht hs _ haliased
    obtain ⟨d', hd', -⟩ := haliased
    obtain ⟨_, _, _, stage, _, _, _, _⟩ := task
    obtain rfl : stage = .deciding d := hs
    simp only [alone, ht] at h
    rw [lookup_of_isEmpty h] at hd'
    cases hd'
  | call c answer =>
    intro call d key permit share hc hs hstarting
    obtain ⟨_, stage⟩ := call
    obtain rfl : stage = .electing d key permit := hs
    simp only [alone, hc] at h
    rw [lookup_of_isEmpty h] at hstarting
    cases hstarting
  | _ => trivial

/-- A first start: it is told of itself, and one capture of its file runs. -/
theorem first_start_settles_once : ∃ w,
    ((worker some none).only (Unshared some)).Run (.opened [] ∅) (firstStart (fileSource 1 97)) w ∧
    Names some w (fileSource 1 97) (fileSource 1 97).id ∧
    ∀ slot slot', Runs w (fileSource 1 97) slot → Runs w (fileSource 1 97) slot' → slot = slot' := by
  obtain ⟨w, hw, hfinal⟩ : ∃ w, ((worker some none).only fun w e => alone w e = true).Run
      (.opened [] ∅) (firstStart (fileSource 1 97)) w ∧
      w.calls[0]? = some ⟨.start (fileSource 1 97),
        .done (.ok (.outcome (.started (fileSource 1 97).id none)))⟩ :=
    Machine.exists_run_only (by decide +kernel)
  have hw := hw.only_mono fun _ _ => @unshared_of_alone some _ _
  obtain ⟨hone, -, hnames, -⟩ := start_settles_once serves_opened nodup_nil hw
  exact ⟨w, hw, hnames 0 _ _ _ hfinal rfl rfl,
    fun slot slot' hr hr' => hone _ _ _ slot slot' hr hr' rfl rfl⟩

end Lvu.Shared.Lifecycle
