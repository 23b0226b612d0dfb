import Lvu.App.Flight

/-!
# Autosave

What a window can rely on that saves its views by itself.

* `Ticked` : what `queue_memory_saves` does.
* `Flushing` : the flush of a shutdown comes after every save.
* `clean_exit` : **what holds of the saves of a run, and of a shutdown that ends well.**
* `exit_unsaved` : a shutdown that ends well over a state that was refused.
-/

namespace Lvu.App

open Store List

namespace Composition

variable {S V : Type}

/-! ### Handing over what is queued -/

/-- Saves are handed to the worker, and nothing else is done to it or to what is in flight. -/
structure Handed (c c' : Composition S V) : Prop where
  flight : Flight c'
  queue : ∃ requests : List (SaveRequest S),
    c'.memory.queue = c.memory.queue ++ requests.map Command.save
  events : c'.memory.events = c.memory.events
  log : c'.memory.log = c.memory.log
  failures : c'.memory.failures = c.memory.failures
  running : c'.memory.running = c.memory.running
  memory : c.memory.Inv → c'.memory.Inv
  inflight : ∀ q e, c.inflight.lookup q = some e → c'.inflight.lookup q = some e
  last : c'.last = c.last
  failed : c'.failed = c.failed
  phase : c'.phase = c.phase

/-- What handing over does not touch. -/
structure Sent (c c' : Composition S V) : Prop extends Handed c c' where
  persistence : c'.persistence = c.persistence
  restoring : c'.restoring = c.restoring
  views : c'.views = c.views
  deferred : c'.deferred = c.deferred
  definitions : c'.definitions = c.definitions
  ready : c'.ready = c.ready
  unavailable : c'.unavailable = c.unavailable
  sequence : c'.sequence = c.sequence
  tracked : ∀ id state, c.Tracked id state → c'.Tracked id state

variable {c c' : Composition S V} {reply : Reply V} {act : Act S V}

theorem Sent.refl (h : Flight c) : Sent c c :=
  ⟨⟨h, ⟨[], by simp⟩, rfl, rfl, rfl, rfl, fun h => h, fun _ _ h => h, rfl, rfl, rfl⟩,
    rfl, rfl, rfl, rfl, rfl, rfl, rfl, rfl, fun _ _ h => h⟩

theorem Sent.trans {c'' : Composition S V} (h : Sent c c') (h' : Sent c' c'') : Sent c c'' where
  flight := h'.flight
  queue := by
    obtain ⟨requests, hqueue⟩ := h.queue
    obtain ⟨requests', hqueue'⟩ := h'.queue
    exact ⟨requests ++ requests', by rw [hqueue', hqueue, map_append, append_assoc]⟩
  events := h'.events.trans h.events
  log := h'.log.trans h.log
  failures := h'.failures.trans h.failures
  running := h'.running.trans h.running
  memory := fun hinv => h'.memory (h.memory hinv)
  inflight := fun q e hlook => h'.inflight q e (h.inflight q e hlook)
  last := h'.last.trans h.last
  failed := h'.failed.trans h.failed
  persistence := h'.persistence.trans h.persistence
  restoring := h'.restoring.trans h.restoring
  views := h'.views.trans h.views
  deferred := h'.deferred.trans h.deferred
  definitions := h'.definitions.trans h.definitions
  ready := h'.ready.trans h.ready
  unavailable := h'.unavailable.trans h.unavailable
  sequence := h'.sequence.trans h.sequence
  phase := h'.phase.trans h.phase
  tracked := fun id state htracked => h'.tracked id state (h.tracked id state htracked)

/-- A request that was queued is handed over. -/
theorem sent_submit (h : Flight c) {id : ViewId} {p : PendingMemorySave S}
    (hp : c.pending.lookup id = some p) (hfree : c.inFlight id = false) :
    Sent c (c.submit p.request p.since false) := by
  have hkey := h.numbered.key id p hp
  have hnone := (h.numbered.unsent id _ (.inl ⟨p, hp, rfl⟩)).2.1
  have hinflight : ∀ q e, c.inflight.lookup q = some e →
      (c.submit p.request p.since false).inflight.lookup q = some e := by
    intro q e hlook
    have hne : q ≠ p.request.sequence := by
      rintro rfl
      rw [hnone] at hlook
      cases hlook
    exact (AList.lookup_insert_ne hne).trans hlook
  refine ⟨⟨h.submit hp hfree, ⟨[p.request], rfl⟩, rfl, rfl, rfl, rfl, fun hinv => hinv.push _, hinflight,
    rfl, rfl, rfl⟩, rfl, rfl, rfl, rfl, rfl, rfl, rfl, rfl, ?_⟩
  rintro id' state (hlast | ⟨p', hp', rfl⟩ | ⟨q, hq⟩ | hfailed)
  · exact .inl hlast
  · by_cases heq : id' = id
    · -- this is the request
      subst heq
      rw [hp] at hp'
      cases hp'
      exact .inr (.inr (.inl ⟨p.request.sequence, by
        rw [Composition.submit, hkey]
        exact AList.lookup_insert _⟩))
    · refine .inr (.inl ⟨p', ?_, rfl⟩)
      rw [Composition.submit, hkey]
      exact (AList.lookup_erase_ne heq).trans hp'
  · exact .inr (.inr (.inl ⟨q, hinflight q _ hq⟩))
  · exact .inr (.inr (.inr hfailed))

theorem sent_submitPending (force : Bool) (due : ViewId → Bool) (order : List ViewId)
    {c : Composition S V} (h : Flight c) : Sent c (submitPending force due order c) := by
  induction order generalizing c with
  | nil => exact .refl h
  | cons id rest ih =>
    rw [submitPending]
    cases hp : c.pending.lookup id with
    | none => exact ih h
    | some p =>
      dsimp only
      split_ifs with hwait haccepts
      · exact ih h
      · have hfree : c.inFlight id = false := by
          simp only [Bool.or_eq_true, not_or, Bool.not_eq_true] at hwait
          exact hwait.2
        have hsent := sent_submit h hp hfree
        exact hsent.trans (ih hsent.flight)
      · exact .refl h

theorem submitPending_sequence (force : Bool) (due : ViewId → Bool) (order : List ViewId)
    (c : Composition S V) : (submitPending force due order c).sequence = c.sequence := by
  induction order generalizing c with
  | nil => rfl
  | cons id rest ih =>
    rw [submitPending]
    split
    · exact ih c
    · split_ifs
      · exact ih c
      · exact ih _
      · rfl

/-! ### A tick -/

theorem savable_congr (hpersistence : c'.persistence = c.persistence)
    (hdeferred : c'.deferred = c.deferred) (hdefinitions : c'.definitions = c.definitions)
    (hready : c'.ready = c.ready) (view : OpenView S) : c'.savable view = c.savable view := by
  unfold savable suppresses
  rw [hpersistence, hdeferred, hdefinitions, hready]

section
variable [DecidableEq S]

theorem others_queueViews (views : List (OpenView S)) {id : ViewId} {state : S}
    (hothers : ∀ view ∈ views, view.id ≠ some id) (h : id ∈ c.restoring ∨ c.Tracked id state) :
    id ∈ (views.foldl queueView c).restoring ∨ (views.foldl queueView c).Tracked id state := by
  induction views generalizing c with
  | nil => exact h
  | cons view rest ih =>
    obtain ⟨hkept, -, hother, -⟩ := queueView_spec c view
    obtain ⟨hpending, hrestoring⟩ := hother id (hothers view mem_cons_self)
    refine ih (fun view' hview' => hothers view' (mem_cons_of_mem _ hview')) ?_
    rw [hrestoring, Tracked, hkept.last, hpending, hkept.inflight, hkept.failed]
    exact h

/-- Every view that can be saved is looked after, or is being restored. -/
theorem tracked_queueViews (views : List (OpenView S)) (c : Composition S V)
    (hdistinct : (views.filterMap OpenView.id).Nodup) :
    ∀ view ∈ views, ∀ id source state, c.savable view = some (id, source) →
      view.state = some state →
      id ∈ (views.foldl queueView c).restoring ∨ (views.foldl queueView c).Tracked id state := by
  induction views generalizing c with
  | nil => exact fun view hview => absurd hview not_mem_nil
  | cons view rest ih =>
    intro view' hview' id source state hsavable hstate
    obtain ⟨hkept, -, -, htracked⟩ := queueView_spec c view
    have hrest : (rest.filterMap OpenView.id).Nodup :=
      hdistinct.sublist ((sublist_cons_self _ _).filterMap _)
    obtain rfl | hmem := mem_cons.1 hview'
    · refine others_queueViews rest (fun view'' hview'' heq => ?_)
        (htracked id source state hsavable hstate)
      have hid := (savable_some hsavable).1
      rw [filterMap_cons_some hid, nodup_cons] at hdistinct
      exact hdistinct.1 (mem_filterMap.2 ⟨view'', hview'', heq⟩)
    · refine ih (c.queueView view) hrest view' hmem id source state ?_ hstate
      rw [savable_congr hkept.persistence hkept.deferred hkept.definitions hkept.ready]
      exact hsavable

/-- **What `queue_memory_saves` does.** -/
structure Ticked (c c' : Composition S V) : Prop extends Handed c c' where
  tracked : ∀ view ∈ c'.views.items, ∀ id source state, c'.savable view = some (id, source) →
    view.state = some state → id ∈ c'.restoring ∨ c'.Tracked id state

theorem ticked {c : Composition S V} (h : Flight c) (force : Bool) (due : ViewId → Bool)
    (order : List ViewId)
    (hmax : (c.queueMemorySaves force due order).sequence.toNat < 18446744073709551615) :
    Ticked c (c.queueMemorySaves force due order) := by
  have hkept := (kept_queueViews c.views.items c).1
  rw [queueMemorySaves, submitPending_sequence] at hmax
  have hflight := h.queueViews c.views.items (fun _ hview => hview) hmax
  have htracked := tracked_queueViews c.views.items c c.views.distinct
  have hsent := sent_submitPending force due order hflight
  rw [queueMemorySaves]
  generalize c.views.items.foldl Composition.queueView c = c₁ at hkept hflight htracked hsent
  generalize submitPending force due order c₁ = c₂ at hsent
  refine ⟨⟨hsent.flight, hkept.memory ▸ hsent.queue, hkept.memory ▸ hsent.events,
    hkept.memory ▸ hsent.log, hkept.memory ▸ hsent.failures, hkept.memory ▸ hsent.running,
    fun hinv => hsent.memory (hkept.memory ▸ hinv), hkept.inflight ▸ hsent.inflight,
    hsent.last.trans hkept.last, hsent.failed.trans hkept.failed, hsent.phase.trans hkept.phase⟩, ?_⟩
  intro view hview id source state hsavable hstate
  rw [savable_congr hsent.persistence hsent.deferred hsent.definitions hsent.ready,
    savable_congr hkept.persistence hkept.deferred hkept.definitions hkept.ready] at hsavable
  rw [hsent.views, hkept.views] at hview
  rw [hsent.restoring]
  obtain hrestoring | htrack := htracked view hview id source state hsavable hstate
  · exact .inl hrestoring
  · exact .inr (hsent.tracked id state htrack)

end

/-! ### The flush of a shutdown -/

/-- The flush comes after every save: it is alone in the queue, and no save follows it. -/
structure Flushing (c : Composition S V) : Prop where
  before : c.phase ≠ .flushing → c.phase.isEnded = false → .flush ∉ c.memory.queue
  flushing : c.phase = .flushing → c.memory.running = true →
    ∃ before after, c.memory.queue = before ++ .flush :: after ∧ .flush ∉ before ∧
      .flush ∉ after ∧ saves after = []
  flushed : ∀ answer, c.phase = .flushed answer → saves c.memory.queue = [] ∧
    (answer = .ok () → ∀ id, c.memory.failures.failed.lookup id = none) ∧
    ∃ before, before ++ [⟨.flush, .flushed answer⟩] <+: c.memory.log ∧
      ∀ id, lastSave before id = lastSave c.memory.log id

/-- Every open view that is loaded, not deferred, not being restored and not suppressed is in the
state that was last acknowledged as saved, which its last save has. -/
def AllSaved (c : Composition S V) : Prop :=
  ∀ view ∈ c.views.items, ∀ id source state, c.savable view = some (id, source) →
    id ∉ c.restoring → view.state = some state →
    c.last.lookup id = some state ∧ ∃ e r, lastSave c.memory.log id = some e ∧
      e.command = .save r ∧ e.Saved ∧ r.state = state

/-- The flush reported that the store is not available, over nothing pending or in flight.  Where no
recipe had failed last, the last save of every view was acknowledged, or refused like that. -/
def Degraded (c : Composition S V) (error : String) : Prop :=
  contains error STORE_UNAVAILABLE_MARKER ∧ c.pending.size = 0 ∧ c.inflight.size = 0 ∧
  ∃ before, before ++ [⟨.flush, .flushed (.error error)⟩] <+: c.memory.log ∧
    ((∀ e, lastRecipe before = some e → e.RecipeSaved) →
      ∀ id e, lastSave c.memory.log id = some e → ∃ r, e.command = .save r ∧
        ((e.Saved ∧ c.last.lookup id = some r.state ∧ c.failed.lookup id = none) ∨
          ∃ message, e.SaveFailed message ∧ contains message STORE_UNAVAILABLE_MARKER ∧
            c.failed.lookup id = some r.state))

/-- A shutdown that ended well had no memory, was told of an unavailable store, or saved all. -/
def Settled (c : Composition S V) : Prop :=
  ∀ answer, c.phase = .ended answer (.ok ()) → c.unavailable = true ∨
    (∃ error, answer = some (.error error) ∧ c.Degraded error) ∨
    (c.AllSaved ∧ ∀ id, c.failed.lookup id = none)

/-- What holds of a window in every state. -/
structure Inv (c : Composition S V) : Prop where
  memory : c.memory.Inv
  flight : Flight c
  flushing : Flushing c
  settled : Settled c

theorem settled_of_not_ended (h : c.phase.isEnded = false) : Settled c := by
  intro answer hphase
  rw [hphase] at h
  cases h

theorem failed_serve {f : Failures} {command : Command S} (hecho : Echoes command reply)
    (h : saves [command] = []) (id : ViewId) :
    (f.serve command reply).1.failed.lookup id = f.failed.lookup id := by
  refine Failures.serve_not_saves hecho ?_
  cases command with
  | save r => cases h
  | _ => rfl

theorem flushing_serve (h : Flushing c) (hactive : c.phase.isEnded = false) {delivered : Bool}
    (hserve : c.memory.step (.serve reply delivered) = some c'.memory)
    (hphase : c'.phase = c.phaseAfter delivered) : Flushing c' := by
  obtain ⟨command, rest, hqueue, hecho, hmemory⟩ := serve_cases hserve
  have hrunning : c.memory.running = true := by
    simp only [SharedMemory.step, hqueue] at hserve
    split_ifs at hserve with hcan
    exact hcan.1
  have hqueue' : c'.memory.queue = rest := by rw [hmemory]; rfl
  have hfailures : c'.memory.failures = (c.memory.failures.serve command reply).1 := by
    rw [hmemory]
    rfl
  have hlog : c'.memory.log = c.memory.log ++ [c.memory.failures.entry command reply] := by
    rw [hmemory]
    rfl
  by_cases hflushing : c.phase = .flushing
  · obtain ⟨before, after, hsplit, hbefore, hafter, hsaves⟩ := h.flushing hflushing hrunning
    rw [hqueue] at hsplit
    cases before with
    | nil =>
      -- the flush is served
      obtain ⟨rfl, rfl⟩ := List.cons.inj hsplit
      cases delivered with
      | false =>
        have hsame : c'.phase = .flushing := by simp [hphase, phaseAfter, hflushing, hqueue]
        refine ⟨fun hnot => absurd hsame hnot, fun _ hrun => ?_, fun answer hflushed => ?_⟩
        · rw [hmemory] at hrun
          simp [SharedMemory.answered, Failures.serve] at hrun
        · rw [hsame] at hflushed
          cases hflushed
      | true =>
        have hdone : c'.phase = .flushed c.memory.failures.flush := by
          simp [hphase, phaseAfter, hflushing, hqueue]
        refine ⟨fun _ _ => hqueue' ▸ hafter, fun hnot => ?_, fun answer hflushed => ?_⟩
        · rw [hdone] at hnot
          cases hnot
        · rw [hdone] at hflushed
          cases hflushed
          refine ⟨hqueue' ▸ hsaves, fun hok id => ?_, c.memory.log, hlog ▸ prefix_rfl, fun id => ?_⟩
          swap
          · rw [hlog, lastSave_snoc]
            rfl
          rw [hfailures]
          change c.memory.failures.failed.lookup id = none
          unfold Failures.flush at hok
          split at hok
          · cases hok
          · split at hok
            · rename_i hnone
              exact flushFailure_eq_none.1 hnone id
            · cases hok
    | cons first before =>
      obtain ⟨rfl, rfl⟩ := List.cons.inj hsplit
      have hsame : c'.phase = .flushing := by
        rw [hphase]
        unfold phaseAfter
        rw [hflushing, hqueue]
        cases command with
        | flush => exact absurd mem_cons_self hbefore
        | _ => rfl
      refine ⟨fun hnot => absurd hsame hnot, fun _ _ => ?_, fun answer hflushed => ?_⟩
      · exact ⟨before, after, hqueue', fun hmem => hbefore (mem_cons_of_mem _ hmem), hafter, hsaves⟩
      · rw [hsame] at hflushed
        cases hflushed
  · have hnone := h.before hflushing hactive
    have hsame : c'.phase = c.phase := by
      rw [hphase]
      unfold phaseAfter
      split
      · rename_i heq _
        exact absurd heq hflushing
      · rfl
    refine ⟨fun _ _ hmem => hnone (hqueue ▸ mem_cons_of_mem _ (hqueue' ▸ hmem)), fun hnot => ?_,
      fun answer hflushed => ?_⟩
    · rw [hsame] at hnot
      exact absurd hnot hflushing
    · rw [hsame] at hflushed
      obtain ⟨hsaves, hfailed, before, hbefore, hlast⟩ := h.flushed answer hflushed
      rw [hqueue, ← singleton_append, saves_append, append_eq_nil_iff] at hsaves
      refine ⟨hqueue' ▸ hsaves.2, fun hok id => ?_, before, ?_, fun id => ?_⟩
      · rw [hfailures, failed_serve hecho hsaves.1]
        exact hfailed hok id
      · exact hlog ▸ hbefore.trans (prefix_append _ _)
      · rw [hlog, lastSave_snoc, hlast id, if_neg]
        cases command with
        | save r => cases hsaves.1
        | _ => exact Bool.false_ne_true

/-- The maps of requests stay, and the thread is given nothing to save. -/
theorem Flight.same (h : Flight c) (hpending : c'.pending = c.pending)
    (hinflight : c'.inflight = c.inflight) (hlast : c'.last = c.last)
    (hfailed : c'.failed = c.failed) (hack : c'.ackSequence = c.ackSequence)
    (hcaptures : c'.captures = c.captures) (hsequence : c.sequence.toNat ≤ c'.sequence.toNat)
    (hpersistence : ∀ p, c'.persistence = some p → p.reserved.isSome = true →
      c.persistence = some p) (hseen : c'.seen = c.seen) (hviews : c'.views = c.views)
    (hqueue : saves c'.memory.queue = saves c.memory.queue)
    (hevents : c'.memory.events = c.memory.events) (hlog : c'.memory.log = c.memory.log)
    (haccepted : saves c'.memory.accepted = saves c.memory.accepted) : Flight c' where
  numbered := h.numbered.drop hinflight hack hsequence (fun _ _ hp => hpending ▸ hp) hpersistence
  linked := h.linked.keep hqueue hevents hlog hinflight hlast hfailed
  journey := h.journey.drop (fun _ _ hp => hpending ▸ hp) hcaptures hseen hviews haccepted

/-- A tick keeps the flush after every save. -/
theorem Flushing.ticked (h : Flushing c) (hticked : Ticked c c')
    (hphase : c.phase = .running ∨ c.phase = .submitting) : Flushing c' := by
  have hactive : c.phase ≠ .flushing ∧ c.phase.isEnded = false ∧ ∀ answer, c.phase ≠ .flushed answer := by
    obtain hrunning | hsubmitting := hphase
    · rw [hrunning]
      exact ⟨by simp, rfl, fun _ => by simp⟩
    · rw [hsubmitting]
      exact ⟨by simp, rfl, fun _ => by simp⟩
  refine ⟨fun _ _ hmem => ?_, fun hnot => ?_, fun answer hflushed => ?_⟩
  · obtain ⟨requests, hqueue⟩ := hticked.queue
    rw [hqueue] at hmem
    obtain hold | hnew := mem_append.1 hmem
    · exact h.before hactive.1 hactive.2.1 hold
    · obtain ⟨r, -, heq⟩ := mem_map.1 hnew
      cases heq
  · rw [hticked.phase] at hnot
    exact absurd hnot hactive.1
  · rw [hticked.phase] at hflushed
    exact absurd hflushed (hactive.2.2 answer)

theorem inFlight_of_size (h : c.inflight.size = 0) (id : ViewId) : c.inFlight id = false := by
  rw [inFlight, Dict.eq_empty_of_size h]
  rfl

/-- A save is answered in one way. -/
theorem not_saved {e : Entry S V} {r : SaveRequest S} {message : String}
    (hcommand : e.command = .save r) (hfailed : e.SaveFailed message) : ¬ e.Saved := by
  intro hsaved
  simp only [Entry.Saved, hcommand] at hsaved
  simp only [Entry.SaveFailed, hcommand] at hfailed
  rw [hsaved] at hfailed
  cases hfailed

/-- **A flush that finds an unavailable store.** -/
theorem degraded (hmemory : c.memory.Inv) (hflight : Flight c) (hflushing : Flushing c)
    {error : String} (hphase : c.phase = .flushed (.error error))
    (hclean : degradedFlushIsClean error c.pending.size c.inflight.size = true) :
    c.Degraded error := by
  simp only [degradedFlushIsClean, Bool.and_eq_true, decide_eq_true_eq] at hclean
  obtain ⟨⟨hpending, hinflight⟩, hcontains⟩ := hclean
  obtain ⟨-, -, before, hbefore, hlast⟩ := hflushing.flushed _ hphase
  refine ⟨hcontains, hpending, hinflight, before, hbefore, fun hrecipes id e he => ?_⟩
  obtain ⟨after, hlog⟩ := hbefore
  rw [append_assoc] at hlog
  obtain ⟨f, hf, hresult⟩ := hmemory.flushes before _ after hlog.symm
  have hknown := hflight.linked.known id (inFlight_of_size hinflight id)
  rw [he] at hknown
  obtain ⟨r, hcommand, hknown⟩ := hknown
  refine ⟨r, hcommand, ?_⟩
  rcases (hf.refused hresult.symm hcontains).views hrecipes id e (by rw [hlast, he]) with
    hsaved | ⟨message, hfailed, hrefused⟩
  · refine .inl (hknown.resolve_right ?_)
    rintro ⟨⟨_, hfailed⟩, -⟩
    exact not_saved hcommand hfailed hsaved
  · refine .inr ⟨message, hfailed, hrefused, (hknown.resolve_left ?_).2⟩
    rintro ⟨hsaved, -⟩
    exact not_saved hcommand hfailed hsaved

/-- **A flush that finds nothing failed, with nothing pending or in flight after it, has saved
all.** -/
theorem allSaved (hmemory : c.memory.Inv) (hflight : Flight c)
    (hfailures : ∀ id, c.memory.failures.failed.lookup id = none) (hticked : Ticked c c')
    (hpending : c'.pending.size = 0) (hinflight : c'.inflight.size = 0) :
    c'.AllSaved ∧ ∀ id, c'.failed.lookup id = none := by
  have hnone : c'.inflight = ∅ := Dict.eq_empty_of_size hinflight
  have hfailed : ∀ id, c'.failed.lookup id = none := by
    intro id
    have hfree : c.inFlight id = false := by
      by_contra hfly
      obtain ⟨q, state, hlook⟩ := inFlight_iff.1 (by simpa using hfly)
      have := hticked.inflight q _ hlook
      rw [hnone] at this
      cases this
    have hknown := hflight.linked.known id hfree
    have hremembers := hmemory.consistent.views id
    rw [hfailures id] at hremembers
    rw [hticked.failed]
    cases hlast : lastSave c.memory.log id with
    | none =>
      rw [hlast] at hknown
      exact hknown.2
    | some e =>
      rw [hlast] at hknown hremembers
      obtain ⟨r, hcommand, ⟨-, -, hnone⟩ | ⟨⟨message, hmessage⟩, -⟩⟩ := hknown
      · exact hnone
      · exact absurd hremembers (not_saved hcommand hmessage)
  refine ⟨fun view hview id source state hsavable hrestoring hstate => ?_, hfailed⟩
  have hlast : c'.last.lookup id = some state := by
    obtain hrestores | htracked := hticked.tracked view hview id source state hsavable hstate
    · exact absurd hrestores hrestoring
    · obtain hlast | ⟨p, hp, -⟩ | ⟨q, hq⟩ | hfail := htracked
      · exact hlast
      · rw [Dict.eq_empty_of_size hpending] at hp
        cases hp
      · rw [hnone] at hq
        cases hq
      · rw [hfailed id] at hfail
        cases hfail
  have hknown := hticked.flight.linked.known id (inFlight_of_size hinflight id)
  rw [hlast, hfailed id] at hknown
  refine ⟨hlast, ?_⟩
  cases hentry : lastSave c'.memory.log id with
  | none =>
    rw [hentry] at hknown
    cases hknown.1
  | some e =>
    rw [hentry] at hknown
    obtain ⟨r, hcommand, ⟨hsaved, hsame, -⟩ | ⟨-, hfail⟩⟩ := hknown
    · cases hsame
      exact ⟨e, r, rfl, hcommand, hsaved, rfl⟩
    · cases hfail

section
variable [DecidableEq S]

theorem le_queueMemorySaves (force : Bool) (due : ViewId → Bool) (order : List ViewId)
    (c : Composition S V) :
    c.sequence.toNat ≤ (c.queueMemorySaves force due order).sequence.toNat := by
  rw [queueMemorySaves, submitPending_sequence]
  exact (kept_queueViews c.views.items c).2

omit [DecidableEq S] in
theorem le_dispatch {patch : S → S} (h : c.dispatch patch = some c') :
    c.sequence.toNat ≤ c'.sequence.toNat := by
  obtain ⟨p, view, source, state, -, -, -, -, -, -, hcases⟩ := dispatch_cases h
  have hle : c.sequence.toNat ≤ (c.numberedFor p).sequence.toNat := by
    simp only [numberedFor, publicationNumber]
    cases p.reserved with
    | none => exact le_nextSequence _
    | some q => exact Nat.le_refl _
  obtain rfl | rfl := hcases <;> exact hle

theorem active_of_step (hstep : c.step act = some c') : ¬c.phase.isEnded = true := by
  intro hended
  unfold step at hstep
  rw [if_pos hended] at hstep
  cases hstep

/-- A step uses up numbers. -/
theorem sequence_step (hstep : c.step act = some c') : c.sequence.toNat ≤ c'.sequence.toNat := by
  have hactive := active_of_step hstep
  unfold step at hstep
  rw [if_neg hactive] at hstep
  cases act with
  | change | fatal | unpublish =>
    cases hstep
    exact Nat.le_refl _
  | number =>
    cases hstep
    exact le_nextSequence _
  | other command | publish view | flush | giveUp error =>
    simp only at hstep
    split_ifs at hstep
    cases hstep
    exact Nat.le_refl _
  | serve reply delivered =>
    obtain ⟨memory, -, rfl⟩ := Option.map_eq_some_iff.1 hstep
    exact Nat.le_refl _
  | poll =>
    simp only at hstep
    split at hstep
    · cases hstep
    · rename_i event rest hevents
      cases hstep
      rw [(frame_handle _ event).sequence]
  | tick due order =>
    simp only at hstep
    split at hstep
    · cases hstep
      exact le_queueMemorySaves _ _ _ _
    · cases hstep
      exact le_queueMemorySaves _ _ _ _
    · cases hstep
  | dispatch patch =>
    simp only at hstep
    split_ifs at hstep
    exact le_dispatch hstep
  | shutdown =>
    simp only at hstep
    split_ifs at hstep <;> cases hstep <;> exact Nat.le_refl _
  | conclude order =>
    simp only at hstep
    split at hstep
    · rename_i answer hphase
      cases hstep
      cases answer with
      | error error => exact Nat.le_refl _
      | ok => exact le_queueMemorySaves _ _ _ _
    · cases hstep

/-! ### What holds in every state -/

omit [DecidableEq S] in
theorem active_iff : ¬c.phase.isEnded = true ↔ c.phase.isEnded = false := by
  cases c.phase.isEnded <;> simp

omit [DecidableEq S] in
/-- The thread is not involved. -/
theorem Inv.same (h : Inv c) (hactive : ¬c.phase.isEnded = true) (hflight : Flight c')
    (hqueue : c'.memory.queue = c.memory.queue) (haccepted : c'.memory.accepted = c.memory.accepted)
    (hlog : c'.memory.log = c.memory.log) (hfailures : c'.memory.failures = c.memory.failures)
    (hrunning : c'.memory.running = c.memory.running) (hphase : c'.phase = c.phase) : Inv c' := by
  refine ⟨⟨?_, ?_, ?_⟩, hflight, ⟨?_, ?_, ?_⟩, settled_of_not_ended ?_⟩
  · rw [haccepted, hlog, hqueue]
    exact h.memory.accepted
  · rw [hlog, hfailures]
    exact h.memory.consistent
  · rw [hlog]
    exact h.memory.flushes
  · rw [hphase, hqueue]
    exact h.flushing.before
  · rw [hphase, hqueue, hrunning]
    exact h.flushing.flushing
  · rw [hphase, hqueue, hfailures, hlog]
    exact h.flushing.flushed
  · rw [hphase]
    exact active_iff.1 hactive

omit [DecidableEq S] in
/-- A command that neither saves nor flushes. -/
theorem Inv.other (h : Inv c) (hactive : ¬c.phase.isEnded = true) {command : Command S}
    (hordinary : Ordinary command) : Inv { c with memory := c.memory.push command } := by
  have hsaves : ∀ commands, saves (commands ++ [command]) = saves commands := by
    intro commands
    rw [saves_append, saves_ordinary hordinary, append_nil]
  have hflush : ∀ commands : List (Command S), .flush ∉ commands → .flush ∉ commands ++ [command] := by
    intro commands hnot hmem
    obtain hold | hnew := mem_append.1 hmem
    · exact hnot hold
    · obtain rfl := mem_singleton.1 hnew
      exact hordinary
  have hactive' := active_iff.1 hactive
  refine ⟨h.memory.push command, h.flight.same rfl rfl rfl rfl rfl rfl (Nat.le_refl _)
    (fun _ hp _ => hp) rfl rfl (hsaves _) rfl rfl (hsaves _), ⟨?_, ?_, ?_⟩,
    settled_of_not_ended hactive'⟩
  · exact fun hnot _ => hflush _ (h.flushing.before hnot hactive')
  · intro hflushing hrunning
    obtain ⟨before, after, hqueue, hbefore, hafter, hnone⟩ := h.flushing.flushing hflushing hrunning
    refine ⟨before, after ++ [command], ?_, hbefore, hflush _ hafter, ?_⟩
    · change c.memory.queue ++ [command] = _
      rw [hqueue]
      simp
    · rw [hsaves, hnone]
  · intro answer hflushed
    obtain ⟨hnone, hrest⟩ := h.flushing.flushed answer hflushed
    exact ⟨(hsaves _).trans hnone, hrest⟩

omit [DecidableEq S] in
/-- The thread answers its next command. -/
theorem Inv.serve (h : Inv c) (hactive : ¬c.phase.isEnded = true) {delivered : Bool}
    {memory : SharedMemory S V} (hserve : c.memory.step (.serve reply delivered) = some memory) :
    Inv { c with memory, phase := c.phaseAfter delivered } := by
  have hactive' := active_iff.1 hactive
  obtain ⟨command, rest, hqueue, hecho, hmemory⟩ := serve_cases hserve
  refine ⟨h.memory.step (l := .serve reply delivered) hserve,
    ⟨h.flight.numbered.drop rfl rfl (Nat.le_refl _) (fun _ _ hp => hp) fun _ hp _ => hp,
      h.flight.linked.serve hserve rfl rfl rfl,
      h.flight.journey.drop (fun _ _ hp => hp) rfl rfl rfl ?_⟩,
    flushing_serve h.flushing hactive' hserve rfl, settled_of_not_ended ?_⟩
  · change saves memory.accepted = _
    rw [hmemory]
    rfl
  · change (c.phaseAfter delivered).isEnded = false
    unfold phaseAfter
    split
    · rfl
    · exact hactive'

omit [DecidableEq S] in
theorem Inv.poll (h : Inv c) (hactive : ¬c.phase.isEnded = true) {event : Event V}
    {rest : List (Event V)} (hevents : c.memory.events = event :: rest) :
    Inv ({ c with memory := { c.memory with events := rest } }.handleMemoryEvent event) := by
  obtain ⟨hnumbered, hlinked⟩ := poll_keeps h.flight.numbered h.flight.linked hevents
  have hframe := frame_handle { c with memory := { c.memory with events := rest } } event
  refine h.same hactive ⟨hnumbered, hlinked, h.flight.journey.drop ?_ hframe.captures hframe.seen
    hframe.views (by rw [hframe.memory])⟩ (by rw [hframe.memory]) (by rw [hframe.memory])
    (by rw [hframe.memory]) (by rw [hframe.memory]) (by rw [hframe.memory]) hframe.phase
  intro id p hp
  rw [hframe.pending] at hp
  exact hp

theorem Inv.tick (h : Inv c) (hphase : c.phase = .running ∨ c.phase = .submitting) (force : Bool)
    (due : ViewId → Bool) (order : List ViewId)
    (hmax : (c.queueMemorySaves force due order).sequence.toNat < 18446744073709551615) :
    Inv (c.queueMemorySaves force due order) := by
  have hticked := ticked h.flight force due order hmax
  refine ⟨hticked.memory h.memory, hticked.flight, h.flushing.ticked hticked hphase,
    settled_of_not_ended ?_⟩
  rw [hticked.phase]
  obtain hrunning | hsubmitting := hphase
  · rw [hrunning]
    rfl
  · rw [hsubmitting]
    rfl

omit [DecidableEq S] in
/-- Command results are handed over, or get a number. -/
theorem Inv.dispatch (h : Inv c) (hphase : c.phase = .running) {patch : S → S}
    (hdispatch : c.dispatch patch = some c') (hmax : c'.sequence.toNat < 18446744073709551615) :
    Inv c' := by
  obtain ⟨hflight, hsame, hmemory⟩ := h.flight.dispatch hdispatch hmax
  have hactive : ¬c.phase.isEnded = true := by simp [hphase, Phase.isEnded]
  obtain hmemory | ⟨r, hmemory⟩ := hmemory
  · exact h.same hactive hflight (by rw [hmemory]) (by rw [hmemory]) (by rw [hmemory])
      (by rw [hmemory]) (by rw [hmemory]) hsame
  · have hnone := h.flushing.before (by simp [hphase]) (active_iff.1 hactive)
    have hrunning := hsame.trans hphase
    refine ⟨hmemory ▸ h.memory.push _, hflight, ⟨fun _ _ hmem => ?_, fun hnot => ?_,
      fun answer hnot => ?_⟩, settled_of_not_ended (by rw [hrunning]; rfl)⟩
    · rw [hmemory] at hmem
      obtain hold | hnew := mem_append.1 hmem
      · exact hnone hold
      · cases mem_singleton.1 hnew
    · rw [hrunning] at hnot
      cases hnot
    · rw [hrunning] at hnot
      cases hnot

omit [DecidableEq S] in
theorem Inv.ended (hmemory : c.memory.Inv) (hflight : Flight c)
    {answer : Option (Except String Unit)} {result : Except String Unit}
    (hsettled : Settled { c with phase := .ended answer result }) :
    Inv { c with phase := .ended answer result } := by
  refine ⟨hmemory, hflight.same rfl rfl rfl rfl rfl rfl (Nat.le_refl _) (fun _ hp _ => hp) rfl rfl
    rfl rfl rfl rfl, ⟨fun _ hnot => ?_, fun hnot => ?_, fun answer hnot => ?_⟩, hsettled⟩
  · cases hnot
  · cases hnot
  · cases hnot

omit [DecidableEq S] in
theorem Inv.submitting (hmemory : c.memory.Inv) (hflight : Flight c)
    (hnone : .flush ∉ c.memory.queue) : Inv { c with phase := .submitting } := by
  refine ⟨hmemory, hflight.same rfl rfl rfl rfl rfl rfl (Nat.le_refl _) (fun _ hp _ => hp) rfl rfl
    rfl rfl rfl rfl, ⟨fun _ _ => hnone, fun hnot => ?_, fun answer hnot => ?_⟩,
    settled_of_not_ended rfl⟩
  · cases hnot
  · cases hnot

omit [DecidableEq S] in
theorem Inv.flush (h : Inv c) (hphase : c.phase = .submitting) :
    Inv { c with memory := c.memory.push .flush, phase := .flushing } := by
  have hsaves : ∀ commands : List (Command S), saves (commands ++ [.flush]) = saves commands := by
    intro commands
    rw [saves_append]
    exact append_nil _
  refine ⟨h.memory.push .flush, h.flight.same rfl rfl rfl rfl rfl rfl (Nat.le_refl _)
    (fun _ hp _ => hp) rfl rfl (hsaves _) rfl rfl (hsaves _),
    ⟨fun hnot => absurd rfl hnot, fun _ _ => ?_, fun answer hnot => ?_⟩, settled_of_not_ended rfl⟩
  · have hnone := h.flushing.before (by simp [hphase]) (by rw [hphase]; rfl)
    exact ⟨c.memory.queue, [], rfl, hnone, not_mem_nil, rfl⟩
  · cases hnot

omit [DecidableEq S] in
theorem Inv.reported (h : Inv c) {error : String} (hphase : c.phase = .flushed (.error error)) :
    Inv { c with
      phase := match flushMemory (.error error) c.pending.size c.inflight.size with
        | some result => .ended (some (.error error)) result
        | none => .submitting } := by
  by_cases hdegraded : degradedFlushIsClean error c.pending.size c.inflight.size = true
  · simp only [flushMemory, if_pos hdegraded]
    refine Inv.ended h.memory h.flight fun answer heq => .inr (.inl ⟨error, ?_, ?_⟩)
    · cases heq
      rfl
    · exact degraded h.memory h.flight h.flushing hphase hdegraded
  · simp only [flushMemory, if_neg hdegraded]
    refine Inv.ended h.memory h.flight fun answer heq => ?_
    cases heq

/-- The flush reported none: the window looks once more for what is left. -/
theorem Inv.concluded (h : Inv c) (hphase : c.phase = .flushed (.ok ())) (order : List ViewId)
    (hmax : (c.queueMemorySaves true (fun _ => true) order).sequence.toNat < 18446744073709551615) :
    Inv { c.queueMemorySaves true (fun _ => true) order with
      phase := match flushMemory (.ok ()) (c.queueMemorySaves true (fun _ => true) order).pending.size
          (c.queueMemorySaves true (fun _ => true) order).inflight.size with
        | some result => .ended (some (.ok ())) result
        | none => .submitting } := by
  have hticked := ticked h.flight true (fun _ => true) order hmax
  generalize c.queueMemorySaves true (fun _ => true) order = c' at hticked
  have hmemory := hticked.memory h.memory
  by_cases hempty : c'.pending.size = 0 ∧ c'.inflight.size = 0
  · simp only [flushMemory, if_pos hempty]
    refine Inv.ended hmemory hticked.flight fun answer _ => .inr (.inr ?_)
    obtain ⟨-, hfailures, -⟩ := h.flushing.flushed _ hphase
    obtain ⟨hall, hfailed⟩ :=
      allSaved h.memory h.flight (hfailures rfl) hticked hempty.1 hempty.2
    exact ⟨hall, hfailed⟩
  · simp only [flushMemory, if_neg hempty]
    refine Inv.submitting hmemory hticked.flight fun hmem => ?_
    obtain ⟨requests, hqueue⟩ := hticked.queue
    rw [hqueue] at hmem
    obtain hold | hnew := mem_append.1 hmem
    · exact h.flushing.before (by simp [hphase]) (by rw [hphase]; rfl) hold
    · obtain ⟨r, -, heq⟩ := mem_map.1 hnew
      cases heq

/-- What holds is kept by every step that leaves a number to be given. -/
theorem inv_step (h : Inv c) (hstep : c.step act = some c')
    (hmax : c'.sequence.toNat < 18446744073709551615) : Inv c' := by
  have hactive := active_of_step hstep
  unfold step at hstep
  rw [if_neg hactive] at hstep
  cases act with
  | change views definitions ready restoring deferred loadFences =>
    cases hstep
    refine h.same hactive ⟨?_, ?_, ?_⟩ rfl rfl rfl rfl rfl rfl
    · exact h.flight.numbered.drop rfl rfl (Nat.le_refl _) (fun _ _ hp => hp) fun _ hp _ => hp
    · exact h.flight.linked.keep rfl rfl rfl rfl rfl rfl
    · exact h.flight.journey.change rfl rfl rfl rfl
  | other command =>
    simp only at hstep
    split_ifs at hstep with hcan
    cases hstep
    exact h.other hactive hcan.1
  | number =>
    cases hstep
    exact h.same hactive (h.flight.same rfl rfl rfl rfl rfl rfl (le_nextSequence _)
      (fun _ hp _ => hp) rfl rfl rfl rfl rfl rfl) rfl rfl rfl rfl rfl rfl
  | serve reply delivered =>
    obtain ⟨memory, hserve, rfl⟩ := Option.map_eq_some_iff.1 hstep
    exact h.serve hactive hserve
  | poll =>
    simp only at hstep
    split at hstep
    · cases hstep
    · rename_i event rest hevents
      cases hstep
      exact h.poll hactive hevents
  | fatal | unpublish =>
    cases hstep
    refine h.same hactive (h.flight.same rfl rfl rfl rfl rfl rfl (Nat.le_refl _) (fun p hp _ => ?_)
      rfl rfl rfl rfl rfl rfl) rfl rfl rfl rfl rfl rfl
    cases hp
  | tick due order =>
    simp only at hstep
    split at hstep
    · rename_i hphase
      cases hstep
      exact h.tick (.inl hphase) false due order hmax
    · rename_i hphase
      cases hstep
      exact h.tick (.inr hphase) true due order hmax
    · cases hstep
  | publish view =>
    simp only at hstep
    split_ifs at hstep
    cases hstep
    refine h.same hactive (h.flight.same rfl rfl rfl rfl rfl rfl (Nat.le_refl _)
      (fun p hp hreserved => ?_) rfl rfl rfl rfl rfl rfl) rfl rfl rfl rfl rfl rfl
    cases hp
    cases hreserved
  | dispatch patch =>
    simp only at hstep
    split_ifs at hstep with hphase
    exact h.dispatch hphase hstep hmax
  | shutdown =>
    simp only at hstep
    split_ifs at hstep with hphase hunavailable
    · cases hstep
      exact Inv.ended h.memory h.flight fun _ _ => .inl hunavailable
    · cases hstep
      exact Inv.submitting h.memory h.flight
        (h.flushing.before (by simp [not_not.1 hphase]) (active_iff.1 hactive))
  | flush =>
    simp only at hstep
    split_ifs at hstep with hcan
    cases hstep
    exact h.flush hcan.1
  | conclude order =>
    simp only at hstep
    split at hstep
    · rename_i answer hphase
      cases hstep
      cases answer with
      | error error => exact h.reported hphase
      | ok => exact h.concluded hphase order hmax
    · cases hstep
  | giveUp error =>
    simp only at hstep
    split_ifs at hstep
    cases hstep
    refine Inv.ended h.memory h.flight fun answer heq => ?_
    cases heq

omit [DecidableEq S] in
/-- A window that was just opened has handed over nothing. -/
theorem inv_initial (views : OpenViews S) (definitions ready : Finset SourceId) :
    Inv (initial views definitions ready : Composition S V) := by
  have hunsent : ∀ id q, ¬(initial views definitions ready : Composition S V).Unsent id q := by
    rintro id q (⟨p, hp, -⟩ | ⟨p, hp, -⟩)
    · cases hp
    · cases hp
  refine ⟨⟨rfl, consistent_nil, fun before result after hlog => ?_⟩, ⟨?_, ?_, ?_⟩,
    ⟨fun _ _ => not_mem_nil, fun hnot => ?_, fun answer hnot => ?_⟩, settled_of_not_ended rfl⟩
  · simp [initial, SharedMemory.wrap] at hlog
  · constructor
    · exact fun id p hp => by cases hp
    · exact fun id q hq => absurd hq (hunsent id q)
    · exact fun id id' q hq => absurd hq (hunsent id q)
    · exact fun p hp => by cases hp
    · exact fun q id state hq => by cases hq
    · exact fun id seen hseen => by cases hseen
    · exact fun q q' id state state' hq => by cases hq
  · constructor
    · exact nodup_nil
    · exact fun r hr => absurd hr not_mem_nil
    · exact fun event hevent => absurd hevent not_mem_nil
    · exact fun id _ => ⟨rfl, rfl⟩
  · constructor
    · exact fun id p hp => by cases hp
    · exact fun capture hcapture => absurd hcapture not_mem_nil
    · exact fun capture hcapture => absurd hcapture not_mem_nil
    · exact List.Pairwise.nil
    · rfl
  · cases hnot
  · cases hnot

theorem inv_run {views : OpenViews S} {definitions ready : Finset SourceId} {acts : List (Act S V)}
    (h : (machine S V).Run (initial views definitions ready) acts c)
    (hmax : c.sequence.toNat < 18446744073709551615) : Inv c := by
  -- numbers only grow, so they were left in every state before
  refine h.invariant (I := fun c => c.sequence.toNat < 18446744073709551615 → Inv c)
    (fun _ => inv_initial views definitions ready) (fun c act c' hinv hst hmax' => ?_) hmax
  exact inv_step (hinv (Nat.lt_of_le_of_lt (sequence_step hst) hmax')) hst hmax'

/-- **What the saves of a window are worth, and a shutdown that ends well.**  At most one save of a
view is on its way.  The thread is given the states that each view was in, in the order of time.  A
shutdown that ends well has saved the state of every view that it can save, unless there was no
memory or the flush was told that the store is not available. -/
theorem clean_exit {views : OpenViews S} {definitions ready : Finset SourceId}
    {acts : List (Act S V)} {c : Composition S V}
    (h : (machine S V).Run (initial views definitions ready) acts c)
    (hmax : c.sequence.toNat < 18446744073709551615) :
    (((outstanding c.memory).map Prod.fst).Nodup ∧
      ∀ q q' id state state', c.inflight.lookup q = some (id, state) →
        c.inflight.lookup q' = some (id, state') → q = q') ∧
    (c.memory.accepted = c.memory.log.map Entry.command ++ c.memory.queue ∧
      saves c.memory.accepted = c.captures.map Capture.request ∧
      (c.captures.Pairwise fun a b => a.request.viewId = b.request.viewId → a.since ≤ b.since) ∧
      ∀ capture ∈ c.captures, ∃ state, c.Was capture.request.viewId state capture.since ∧
        (capture.published = false → capture.request.state = state)) ∧
    Settled c := by
  have hinv := inv_run h hmax
  exact ⟨⟨hinv.flight.linked.single, hinv.flight.numbered.alone⟩,
    ⟨hinv.memory.accepted, hinv.flight.journey.handed, hinv.flight.journey.ordered,
      hinv.flight.journey.was⟩, hinv.settled⟩

end

/-! ### Shutdowns of a small window -/

/-- A view of a source. -/
def exampleView (id : UInt8) (state : ℕ) : OpenView ℕ :=
  ⟨some ⟨.filled id⟩, some ⟨.filled 1⟩, some 0, false, some state⟩

/-- Its two views. -/
def exampleViews (state : ℕ) : OpenViews ℕ where
  items := [exampleView 2 state, exampleView 3 7]
  distinct := by
    change [_, _].Nodup
    decide

/-- A window with two views. -/
def exampleWindow : Composition ℕ Unit :=
  initial (exampleViews 5) {⟨.filled 1⟩} {⟨.filled 1⟩}

/-- Both views are saved, and the window is closed; what the thread answers to the first save. -/
def exampleActs (reply : Reply Unit) : List (Act ℕ Unit) :=
  [.tick (fun _ => true) [⟨.filled 2⟩, ⟨.filled 3⟩], .serve reply true,
    .serve (.ok (.saved ⟨.filled 1⟩ ⟨.filled 3⟩ 2 1)) true, .poll, .poll, .shutdown, .flush,
    .serve (.ok .flushed) true, .conclude []]

/-- Both saves are answered `Saved`, and the shutdown ends well. -/
theorem clean_exit_saved : ∃ c : Composition ℕ Unit,
    (machine ℕ Unit).Run exampleWindow
      (exampleActs (.ok (.saved ⟨.filled 1⟩ ⟨.filled 2⟩ 1 1))) c ∧
    c.phase = .ended (some (.ok ())) (.ok ()) ∧ c.captures.length = 2 ∧ c.AllSaved := by
  obtain ⟨c, hrun, hphase, hcaptures, havailable, hmax⟩ : ∃ c, (machine ℕ Unit).Run exampleWindow
      (exampleActs (.ok (.saved ⟨.filled 1⟩ ⟨.filled 2⟩ 1 1))) c ∧
      c.phase = .ended (some (.ok ())) (.ok ()) ∧ c.captures.length = 2 ∧ c.unavailable = false ∧
      c.sequence.toNat < 18446744073709551615 := Machine.exists_run (by decide +kernel)
  refine ⟨c, hrun, hphase, hcaptures, ?_⟩
  obtain hnot | ⟨error, hnot, -⟩ | ⟨hall, -⟩ := (clean_exit hrun hmax).2.2 _ hphase
  · rw [havailable] at hnot
    cases hnot
  · cases hnot
  · exact hall

theorem run_numbers [DecidableEq S] (hactive : c.phase.isEnded = false) (n : ℕ)
    (hn : c.sequence.toNat + n ≤ 18446744073709551615) : ∃ q : UInt64,
      q.toNat = c.sequence.toNat + n ∧
      (machine S V).Run c (List.replicate n .number) { c with sequence := q } := by
  induction n with
  | zero => exact ⟨c.sequence, rfl, .nil⟩
  | succ n ih =>
    obtain ⟨q, hq, hrun⟩ := ih (by omega)
    have hlt : q ≠ 18446744073709551615 := by
      rintro rfl
      change 18446744073709551615 = _ at hq
      omega
    refine ⟨nextSequence q, ?_, ?_⟩
    · rw [toNat_nextSequence hlt, hq, Nat.add_assoc]
    · rw [replicate_succ']
      refine hrun.snoc ?_
      change step _ _ = _
      simp [step, hactive]

/-- **A shutdown ends well over a state that was never saved**: the store refused it, and the exit
takes that for clean.  And two saves of one view are on their way when the numbers are used up. -/
theorem exit_unsaved :
    (∃ acts, ∃ c : Composition ℕ Unit, (machine ℕ Unit).Run exampleWindow acts c ∧
      ∃ answer, c.phase = .ended answer (.ok ()) ∧ c.unavailable = false ∧
        ∃ view ∈ c.views.items, c.savable view = some (⟨.filled 2⟩, ⟨.filled 1⟩) ∧
          ⟨.filled 2⟩ ∉ c.restoring ∧ view.state = some 5 ∧ c.last.lookup ⟨.filled 2⟩ = none) ∧
    ∃ acts, ∃ c : Composition ℕ Unit, (machine ℕ Unit).Run exampleWindow acts c ∧
      ¬((outstanding c.memory).map Prod.fst).Nodup := by
  constructor
  · obtain ⟨c, hrun, hend⟩ : ∃ c, (machine ℕ Unit).Run exampleWindow
        (exampleActs (.ok (.saveFailed ⟨.filled 1⟩ ⟨.filled 2⟩ 1 SharedMemory.exampleRefusal none))) c ∧
        c.phase = .ended (some (.error ("memory autosave: " ++ SharedMemory.exampleRefusal)))
          (.ok ()) ∧ c.unavailable = false ∧
        ∃ view ∈ c.views.items, c.savable view = some (⟨.filled 2⟩, ⟨.filled 1⟩) ∧
          ⟨.filled 2⟩ ∉ c.restoring ∧ view.state = some 5 ∧ c.last.lookup ⟨.filled 2⟩ = none :=
      Machine.exists_run (by decide +kernel)
    exact ⟨_, c, hrun, _, hend⟩
  · obtain ⟨q, hq, hnumbers⟩ := run_numbers (c := exampleWindow) rfl 18446744073709551615 (by decide)
    obtain rfl : q = 18446744073709551615 := UInt64.toNat_inj.1 (hq.trans (by rfl))
    obtain ⟨c, hrun, hend⟩ : ∃ c, (machine ℕ Unit).Run
        { exampleWindow with sequence := 18446744073709551615 }
        [.tick (fun id => decide (id = ⟨.filled 2⟩)) [⟨.filled 2⟩],
          .change (exampleViews 6) {⟨.filled 1⟩} {⟨.filled 1⟩} ∅ ∅ ∅,
          .tick (fun id => decide (id = ⟨.filled 3⟩)) [⟨.filled 3⟩],
          .tick (fun id => decide (id = ⟨.filled 2⟩)) [⟨.filled 2⟩]] c ∧
        ¬((outstanding c.memory).map Prod.fst).Nodup := Machine.exists_run (by decide +kernel)
    exact ⟨_, c, hnumbers.append hrun, hend⟩

end Composition

end Lvu.App
