import Lvu.App.Composition

/-!
# Requests in flight

The invariants of a window's saves.  A request has a number of its own and follows the requests
of its view before it; those on their way are those the window has in flight, one for each view;
and the states that are handed over are states the views were in, in order.

* `Numbered` : how the numbers of the requests compare.
* `Linked` : what the window knows of the requests that the thread has.
* `Journey` : the states that were handed over, and when the view was in them.
* `Flight` : the three of them, kept by queueing, handing over and answers.
-/

namespace Lvu.App

open Store List

namespace Composition

variable {S V : Type}

/-! ### Requests on their way -/

/-- The saves among some commands. -/
def saves (commands : List (Command S)) : List (SaveRequest S) :=
  commands.filterMap fun command => match command with
    | .save request => some request
    | _ => none

/-- The save that an event answers: its view and its number. -/
def settles : Event V → Option (ViewId × UInt64)
  | .saved _ view sequence => some (view, sequence)
  | .saveFailed _ view sequence _ => some (view, sequence)
  | _ => none

/-- The saves that were handed over, and whose answers the window has not taken. -/
def outstanding (m : SharedMemory S V) : List (ViewId × UInt64) :=
  (saves m.queue).map (fun r => (r.viewId, r.sequence)) ++ m.events.filterMap settles

variable {id : ViewId} {q : UInt64} {state : S} {r : SaveRequest S} {event : Event V}
  {reply : Reply V} {view : OpenView S}

theorem inFlight_iff {c : Composition S V} :
    c.inFlight id = true ↔ ∃ q state, c.inflight.lookup q = some (id, state) := by
  simp only [inFlight, any_eq_true, decide_eq_true_eq]
  constructor
  · rintro ⟨⟨q, id', state⟩, hmem, rfl⟩
    exact ⟨q, state, AList.mem_lookup_iff.2 hmem⟩
  · rintro ⟨q, state, h⟩
    exact ⟨⟨q, id, state⟩, AList.mem_lookup_iff.1 h, rfl⟩

theorem toNat_nextSequence (h : q ≠ 18446744073709551615) :
    (nextSequence q).toNat = q.toNat + 1 := by
  have hlt : q.toNat < 18446744073709551616 := q.toNat_lt
  have hne : q.toNat ≠ 18446744073709551615 := fun heq => h (UInt64.toNat_inj.1 heq)
  rw [nextSequence, if_neg h, UInt64.toNat_add]
  change (q.toNat + 1) % 18446744073709551616 = q.toNat + 1
  omega

theorem lt_nextSequence (h : q ≠ 18446744073709551615) : q.toNat < (nextSequence q).toNat := by
  rw [toNat_nextSequence h]
  exact Nat.lt_succ_self _

theorem le_nextSequence (q : UInt64) : q.toNat ≤ (nextSequence q).toNat := by
  by_cases h : q = 18446744073709551615
  · rw [nextSequence, if_pos h]
  · exact Nat.le_of_lt (lt_nextSequence h)

/-- A request of the view that has a number and was not handed over. -/
def Unsent (c : Composition S V) (id : ViewId) (q : UInt64) : Prop :=
  (∃ p, c.pending.lookup id = some p ∧ p.request.sequence = q) ∨
    ∃ p, c.persistence = some p ∧ p.view = id ∧ p.reserved = some q ∧ p.sequence = none

/-- How the numbers of the requests compare. -/
structure Numbered (c : Composition S V) : Prop where
  key : ∀ id p, c.pending.lookup id = some p → p.request.viewId = id
  /-- A number is used once, and is larger than those of its view before it. -/
  unsent : ∀ id q, c.Unsent id q → q.toNat ≤ c.sequence.toNat ∧ c.inflight.lookup q = none ∧
    (∀ seen, c.ackSequence.lookup id = some seen → seen.toNat < q.toNat) ∧
    ∀ q' state, c.inflight.lookup q' = some (id, state) → q'.toNat < q.toNat
  apart : ∀ id id' q, c.Unsent id q → c.Unsent id' q → id = id'
  reserved : ∀ p, c.persistence = some p → p.reserved.isSome = true → p.sequence = none →
    c.pending.lookup p.view = none
  flown : ∀ q id state, c.inflight.lookup q = some (id, state) → q.toNat ≤ c.sequence.toNat ∧
    ∀ seen, c.ackSequence.lookup id = some seen → seen.toNat < q.toNat
  acked : ∀ id seen, c.ackSequence.lookup id = some seen → seen.toNat ≤ c.sequence.toNat
  /-- At most one save of a view is in flight. -/
  alone : ∀ q q' id state state', c.inflight.lookup q = some (id, state) →
    c.inflight.lookup q' = some (id, state') → q = q'

namespace Numbered

variable {c c' : Composition S V}

/-- Requests are only dropped. -/
theorem drop (h : Numbered c) (hinflight : c'.inflight = c.inflight)
    (hack : c'.ackSequence = c.ackSequence) (hsequence : c.sequence.toNat ≤ c'.sequence.toNat)
    (hpending : ∀ id p, c'.pending.lookup id = some p → c.pending.lookup id = some p)
    (hpersistence : ∀ p, c'.persistence = some p → p.reserved.isSome = true →
      c.persistence = some p) : Numbered c' := by
  have hunsent : ∀ id q, c'.Unsent id q → c.Unsent id q := by
    rintro id q (⟨p, hp, hq⟩ | ⟨p, hp, hview, hreserved, hsequence⟩)
    · exact .inl ⟨p, hpending id p hp, hq⟩
    · exact .inr ⟨p, hpersistence p hp (by rw [hreserved]; rfl), hview, hreserved, hsequence⟩
  constructor
  · exact fun id p hp => h.key id p (hpending id p hp)
  · intro id q hq
    obtain ⟨hle, hnone, hseen, hflown⟩ := h.unsent id q (hunsent id q hq)
    rw [hinflight, hack]
    exact ⟨hle.trans hsequence, hnone, hseen, hflown⟩
  · exact fun id id' q hq hq' => h.apart id id' q (hunsent id q hq) (hunsent id' q hq')
  · intro p hp hreserved hunsent'
    cases hlook : c'.pending.lookup p.view with
    | none => rfl
    | some p' =>
      have := h.reserved p (hpersistence p hp hreserved) hreserved hunsent'
      rw [hpending _ _ hlook] at this
      cases this
  · intro q id state hq
    rw [hinflight] at hq
    rw [hack]
    exact ⟨(h.flown q id state hq).1.trans hsequence, (h.flown q id state hq).2⟩
  · intro id seen hseen
    rw [hack] at hseen
    exact (h.acked id seen hseen).trans hsequence
  · rw [hinflight]
    exact h.alone

/-- A new request of a view that has no results to be saved. -/
theorem queue (h : Numbered c) (hid : c.suppresses id = false)
    (hmax : c.sequence ≠ 18446744073709551615) (hsequence : c'.sequence = nextSequence c.sequence)
    (hpending : ∀ id' p, c'.pending.lookup id' = some p →
      (id' = id ∧ p.request.viewId = id ∧ p.request.sequence = nextSequence c.sequence) ∨
        (id' ≠ id ∧ c.pending.lookup id' = some p)) (hinflight : c'.inflight = c.inflight)
    (hack : c'.ackSequence = c.ackSequence) (hpersistence : c'.persistence = c.persistence) :
    Numbered c' := by
  have hlt := lt_nextSequence hmax
  have hunsent : ∀ id' q, c'.Unsent id' q →
      (id' = id ∧ q = nextSequence c.sequence) ∨ c.Unsent id' q := by
    rintro id' q (⟨p, hp, hq⟩ | ⟨p, hp, hrest⟩)
    · obtain ⟨heq, -, hnew⟩ | ⟨-, hold⟩ := hpending id' p hp
      · exact .inl ⟨heq, hq.symm.trans hnew⟩
      · exact .inr (.inl ⟨p, hold, hq⟩)
    · exact .inr (.inr ⟨p, hpersistence ▸ hp, hrest⟩)
  constructor
  · intro id' p hp
    obtain ⟨heq, hview, -⟩ | ⟨-, hold⟩ := hpending id' p hp
    · exact hview.trans heq.symm
    · exact h.key id' p hold
  · intro id' q hq
    rw [hinflight, hack, hsequence]
    obtain ⟨rfl, rfl⟩ | hold := hunsent id' q hq
    · refine ⟨Nat.le_refl _, ?_, fun seen hseen => ?_, fun q' state' hq' => ?_⟩
      · cases hlook : c.inflight.lookup (nextSequence c.sequence) with
        | none => rfl
        | some e =>
          have := (h.flown _ e.1 e.2 hlook).1
          omega
      · have := h.acked id' seen hseen
        omega
      · have := (h.flown q' id' state' hq').1
        omega
    · obtain ⟨hle, hrest⟩ := h.unsent id' q hold
      exact ⟨by omega, hrest⟩
  · intro id₁ id₂ q h₁ h₂
    obtain ⟨rfl, rfl⟩ | hold₁ := hunsent id₁ q h₁
    · obtain ⟨rfl, -⟩ | hold₂ := hunsent id₂ _ h₂
      · rfl
      · have := (h.unsent id₂ _ hold₂).1
        omega
    · obtain ⟨rfl, rfl⟩ | hold₂ := hunsent id₂ q h₂
      · have := (h.unsent id₁ _ hold₁).1
        omega
      · exact h.apart id₁ id₂ q hold₁ hold₂
  · intro p hp hreserved hunsent'
    rw [hpersistence] at hp
    have hne : p.view ≠ id := by
      rintro rfl
      simp [suppresses, hp] at hid
    cases hlook : c'.pending.lookup p.view with
    | none => rfl
    | some p' =>
      obtain ⟨heq, -⟩ | ⟨-, hold⟩ := hpending _ _ hlook
      · exact absurd heq hne
      · rw [h.reserved p hp hreserved hunsent'] at hold
        cases hold
  · intro q id' state' hq
    rw [hinflight] at hq
    obtain ⟨hle, hseen⟩ := h.flown q id' state' hq
    rw [hsequence, hack]
    exact ⟨by omega, hseen⟩
  · intro id' seen hseen
    rw [hack] at hseen
    have := h.acked id' seen hseen
    rw [hsequence]
    omega
  · rw [hinflight]
    exact h.alone

/-- A request is handed over. -/
theorem send (h : Numbered c) (id : ViewId) (q : UInt64) (state : S)
    (hle : q.toNat ≤ c.sequence.toNat) (hfree : c.inFlight id = false)
    (hnone : c.inflight.lookup q = none)
    (hseen : ∀ seen, c.ackSequence.lookup id = some seen → seen.toNat < q.toNat)
    (hinflight : c'.inflight = c.inflight.insert q (id, state))
    (hack : c'.ackSequence = c.ackSequence) (hsequence : c'.sequence = c.sequence)
    (hpending : ∀ id' p, c'.pending.lookup id' = some p → c.pending.lookup id' = some p)
    (hunsent : ∀ id' q', c'.Unsent id' q' → c.Unsent id' q' ∧ id' ≠ id ∧ q' ≠ q)
    (hreserved : ∀ p, c'.persistence = some p → p.reserved.isSome = true → p.sequence = none →
      c'.pending.lookup p.view = none) : Numbered c' := by
  -- what is in flight now was before, or is this request
  have hflown : ∀ q' id' state', c'.inflight.lookup q' = some (id', state') →
      (q' = q ∧ id' = id) ∨ (id' ≠ id ∧ c.inflight.lookup q' = some (id', state')) := by
    intro q' id' state' hlook
    rw [hinflight, Dict.lookup_insert_eq] at hlook
    split_ifs at hlook with heq
    · cases hlook
      exact .inl ⟨heq, rfl⟩
    · refine .inr ⟨?_, hlook⟩
      rintro rfl
      rw [inFlight_iff.2 ⟨q', state', hlook⟩] at hfree
      cases hfree
  constructor
  · exact fun id' p hp => h.key id' p (hpending id' p hp)
  · intro id' q' hq'
    obtain ⟨hold, hid, hq⟩ := hunsent id' q' hq'
    obtain ⟨hle', hnone', hseen', hflown'⟩ := h.unsent id' q' hold
    rw [hsequence, hack]
    refine ⟨hle', ?_, hseen', fun q'' state' hlook => ?_⟩
    · rw [hinflight, AList.lookup_insert_ne hq]
      exact hnone'
    · obtain ⟨-, rfl⟩ | ⟨-, hold'⟩ := hflown q'' id' state' hlook
      · exact absurd rfl hid
      · exact hflown' q'' state' hold'
  · exact fun id₁ id₂ q' h₁ h₂ => h.apart id₁ id₂ q' (hunsent id₁ q' h₁).1 (hunsent id₂ q' h₂).1
  · exact hreserved
  · intro q' id' state' hlook
    rw [hsequence, hack]
    obtain ⟨rfl, rfl⟩ | ⟨-, hold⟩ := hflown q' id' state' hlook
    · exact ⟨hle, hseen⟩
    · exact h.flown q' id' state' hold
  · rw [hsequence, hack]
    exact h.acked
  · intro q₁ q₂ id' state₁ state₂ h₁ h₂
    obtain ⟨rfl, rfl⟩ | ⟨hne₁, hold₁⟩ := hflown q₁ id' state₁ h₁
    · obtain ⟨rfl, -⟩ | ⟨hne₂, -⟩ := hflown q₂ _ state₂ h₂
      · rfl
      · exact absurd rfl hne₂
    · obtain ⟨-, rfl⟩ | ⟨-, hold₂⟩ := hflown q₂ id' state₂ h₂
      · exact absurd rfl hne₁
      · exact h.alone q₁ q₂ id' state₁ state₂ hold₁ hold₂

/-- A number is kept for command results. -/
theorem reserve (h : Numbered c) {p : Publication} (hle : q.toNat ≤ c.sequence.toNat)
    (hfree : c.inFlight p.view = false) (hnone : c.inflight.lookup q = none)
    (hseen : ∀ seen, c.ackSequence.lookup p.view = some seen → seen.toNat < q.toNat)
    (hpending : c.pending.lookup p.view = none)
    (hdistinct : ∀ id' p', c.pending.lookup id' = some p' → p'.request.sequence ≠ q)
    (hpersistence : c'.persistence = some { p with reserved := some q })
    (hinflight : c'.inflight = c.inflight) (hack : c'.ackSequence = c.ackSequence)
    (hsequence : c'.sequence = c.sequence) (hsame : c'.pending = c.pending) : Numbered c' := by
  have hunsent : ∀ id' q', c'.Unsent id' q' →
      (id' = p.view ∧ q' = q) ∨ ∃ p', c.pending.lookup id' = some p' ∧ p'.request.sequence = q' := by
    rintro id' q' (⟨p', hp', hq'⟩ | ⟨p', hp', hview, hreserved, -⟩)
    · exact .inr ⟨p', hsame ▸ hp', hq'⟩
    · rw [hpersistence] at hp'
      cases hp'
      cases hreserved
      exact .inl ⟨hview.symm, rfl⟩
  constructor
  · rw [hsame]
    exact h.key
  · intro id' q' hq'
    rw [hinflight, hack, hsequence]
    obtain ⟨rfl, rfl⟩ | hold := hunsent id' q' hq'
    · refine ⟨hle, hnone, hseen, fun q'' state hlook => ?_⟩
      rw [inFlight_iff.2 ⟨q'', state, hlook⟩] at hfree
      cases hfree
    · exact h.unsent id' q' (.inl hold)
  · intro id₁ id₂ q' h₁ h₂
    obtain ⟨rfl, rfl⟩ | ⟨p₁, hp₁, hq₁⟩ := hunsent id₁ q' h₁
    · obtain ⟨rfl, -⟩ | ⟨p₂, hp₂, hq₂⟩ := hunsent id₂ _ h₂
      · rfl
      · exact absurd hq₂ (hdistinct id₂ p₂ hp₂)
    · obtain ⟨rfl, rfl⟩ | ⟨p₂, hp₂, hq₂⟩ := hunsent id₂ q' h₂
      · exact absurd hq₁ (hdistinct id₁ p₁ hp₁)
      · exact h.apart id₁ id₂ q' (.inl ⟨p₁, hp₁, hq₁⟩) (.inl ⟨p₂, hp₂, hq₂⟩)
  · intro p' hp' _ _
    rw [hpersistence] at hp'
    cases hp'
    rw [hsame]
    exact hpending
  · rw [hinflight, hack, hsequence]
    exact h.flown
  · rw [hack, hsequence]
    exact h.acked
  · rw [hinflight]
    exact h.alone

/-- A request is answered. -/
theorem settle (h : Numbered c) (hq : c.inflight.lookup q = some (id, state))
    (hinflight : c'.inflight = c.inflight.erase q)
    (hack : c'.ackSequence = c.ackSequence ∨ c'.ackSequence = c.ackSequence.insert id q)
    (hsequence : c'.sequence = c.sequence) (hpending : c'.pending = c.pending)
    (hpersistence : c'.persistence = none ∨ c'.persistence = c.persistence) : Numbered c' := by
  have hunsent : ∀ id q, c'.Unsent id q → c.Unsent id q := by
    rintro id q (⟨p, hp, hq⟩ | ⟨p, hp, hrest⟩)
    · exact .inl ⟨p, hpending ▸ hp, hq⟩
    · obtain hnone | hsame := hpersistence
      · rw [hnone] at hp
        cases hp
      · exact .inr ⟨p, hsame ▸ hp, hrest⟩
  have hflown : ∀ q' id' state', c'.inflight.lookup q' = some (id', state') →
      q' ≠ q ∧ c.inflight.lookup q' = some (id', state') := by
    intro q' id' state' hlook
    rw [hinflight, Dict.lookup_erase_eq] at hlook
    split_ifs at hlook with heq
    exact ⟨heq, hlook⟩
  -- what is acknowledged now was before, or is this request
  have hacked : ∀ id' seen, c'.ackSequence.lookup id' = some seen →
      c.ackSequence.lookup id' = some seen ∨ (id' = id ∧ seen = q) := by
    intro id' seen hlook
    obtain hsame | hinsert := hack
    · exact .inl (hsame ▸ hlook)
    · rw [hinsert, Dict.lookup_insert_eq] at hlook
      split_ifs at hlook with heq
      · cases hlook
        exact .inr ⟨heq, rfl⟩
      · exact .inl hlook
  constructor
  · rw [hpending]
    exact h.key
  · intro id' q' hq'
    obtain ⟨hle, hnone, hseen, hless⟩ := h.unsent id' q' (hunsent id' q' hq')
    rw [hsequence]
    refine ⟨hle, ?_, fun seen hlook => ?_, fun q'' state' hlook => ?_⟩
    · rw [hinflight, Dict.lookup_erase_eq, hnone, ite_self]
    · obtain hold | ⟨rfl, rfl⟩ := hacked id' seen hlook
      · exact hseen seen hold
      · exact hless _ state hq
    · exact hless q'' state' (hflown q'' id' state' hlook).2
  · exact fun id₁ id₂ q' h₁ h₂ => h.apart id₁ id₂ q' (hunsent id₁ q' h₁) (hunsent id₂ q' h₂)
  · intro p hp hreserved hunsent'
    rw [hpending]
    obtain hnone | hsame := hpersistence
    · rw [hnone] at hp
      cases hp
    · exact h.reserved p (hsame ▸ hp) hreserved hunsent'
  · intro q' id' state' hlook
    obtain ⟨hne, hold⟩ := hflown q' id' state' hlook
    obtain ⟨hle, hseen⟩ := h.flown q' id' state' hold
    rw [hsequence]
    refine ⟨hle, fun seen hlook' => ?_⟩
    obtain hold' | ⟨rfl, rfl⟩ := hacked id' seen hlook'
    · exact hseen seen hold'
    · exact absurd (h.alone q' _ id' state' state hold hq) hne
  · intro id' seen hlook
    rw [hsequence]
    obtain hold | ⟨rfl, rfl⟩ := hacked id' seen hlook
    · exact h.acked id' seen hold
    · exact (h.flown _ id' state hq).1
  · intro q₁ q₂ id' state₁ state₂ h₁ h₂
    exact h.alone q₁ q₂ id' state₁ state₂ (hflown q₁ id' state₁ h₁).2 (hflown q₂ id' state₂ h₂).2

end Numbered

/-! ### What the window knows -/

/-- The event answers the request. -/
def Answers (r : SaveRequest S) (event : Event V) : Prop :=
  event = .saved r.definition r.viewId r.sequence ∨
    ∃ message, event = .saveFailed r.definition r.viewId r.sequence message

/-- What the window remembers of a view whose last save is `e`. -/
def Knows (last failed : Option S) : Option (Entry S V) → Prop
  | none => last = none ∧ failed = none
  | some e => ∃ r, e.command = .save r ∧
    ((e.Saved ∧ last = some r.state ∧ failed = none) ∨
      ((∃ message, e.SaveFailed message) ∧ failed = some r.state))

/-- The requests on their way are those in flight, and the window knows how the others ended. -/
structure Linked (c : Composition S V) : Prop where
  single : ((outstanding c.memory).map Prod.fst).Nodup
  queued : ∀ r ∈ saves c.memory.queue, c.inflight.lookup r.sequence = some (r.viewId, r.state)
  answered : ∀ event ∈ c.memory.events, ∀ id q, settles event = some (id, q) →
    ∃ r, lastSave c.memory.log id = some ⟨.save r, .event event⟩ ∧ Answers r event ∧
      c.inflight.lookup q = some (id, r.state)
  known : ∀ id, c.inFlight id = false →
    Knows (c.last.lookup id) (c.failed.lookup id) (lastSave c.memory.log id)

theorem settles_answers (h : Answers r event) : settles event = some (r.viewId, r.sequence) := by
  obtain rfl | ⟨message, rfl⟩ := h <;> rfl

theorem saves_append (cs cs' : List (Command S)) : saves (cs ++ cs') = saves cs ++ saves cs' :=
  filterMap_append

theorem saves_ordinary {command : Command S} (h : Ordinary command) : saves [command] = [] := by
  cases command with
  | save r => exact h.elim
  | _ => rfl

theorem settles_serve {f : Failures} {command : Command S} (h : saves [command] = [])
    (hevent : (f.serve command reply).2 = .event event) : settles event = none := by
  cases command with
  | save r => cases h
  | load | createDerivedView | recent | listRecipes | recipeHistory | exportRecipe | saveRecipe
  | importRecipe | recordSuggestion =>
    rcases reply with error | reply
    · cases hevent
      rfl
    · cases reply <;> cases hevent <;> rfl
  | flush | stop => cases hevent

theorem serve_save (f : Failures) (hecho : Echoes (.save r) reply) :
    ∃ event, (f.serve (.save r) reply).2 = .event event ∧ Answers r event := by
  obtain hsave | ⟨message, hsave⟩ := f.save_cases hecho
  · exact ⟨_, by simp [Failures.serve, hsave], .inl rfl⟩
  · exact ⟨_, by simp [Failures.serve, hsave], .inr ⟨message, rfl⟩⟩

theorem serve_cases {m m' : SharedMemory S V} {delivered : Bool}
    (h : m.step (.serve reply delivered) = some m') :
    ∃ command rest, m.queue = command :: rest ∧ Echoes command reply ∧
      m' = m.answered command rest (m.failures.serve command reply) delivered := by
  simp only [SharedMemory.step] at h
  split at h
  · cases h
  · rename_i command rest hqueue
    split_ifs at h with hcan
    cases h
    exact ⟨command, rest, hqueue, hcan.2.1, rfl⟩

/-- What an event does not touch. -/
structure Frame (c c' : Composition S V) : Prop where
  memory : c'.memory = c.memory
  pending : c'.pending = c.pending
  views : c'.views = c.views
  seen : c'.seen = c.seen
  captures : c'.captures = c.captures
  sequence : c'.sequence = c.sequence
  phase : c'.phase = c.phase

theorem frame_handle (c : Composition S V) (event : Event V) :
    Frame c (c.handleMemoryEvent event) := by
  cases event with
  | saved source view sequence =>
    simp only [handleMemoryEvent]
    split
    · exact ⟨rfl, rfl, rfl, rfl, rfl, rfl, rfl⟩
    · split_ifs <;> exact ⟨rfl, rfl, rfl, rfl, rfl, rfl, rfl⟩
  | saveFailed source view sequence error =>
    simp only [handleMemoryEvent]
    split <;> exact ⟨rfl, rfl, rfl, rfl, rfl, rfl, rfl⟩
  | _ => exact ⟨rfl, rfl, rfl, rfl, rfl, rfl, rfl⟩

theorem handleCommandMemoryEvent_persistence (c : Composition S V) (sequence : UInt64) :
    (c.handleCommandMemoryEvent sequence).persistence = none ∨
      (c.handleCommandMemoryEvent sequence).persistence = c.persistence := by
  simp only [handleCommandMemoryEvent]
  cases c.persistence with
  | none => exact .inl rfl
  | some p => by_cases h : p.sequence = some sequence <;> simp [Option.filter, h]

theorem handle_other {c : Composition S V} (h : settles event = none) :
    c.handleMemoryEvent event = c := by
  cases event <;> first | rfl | cases h

/-- What the answer to a request in flight changes. -/
theorem handle_answer {c : Composition S V} (hn : Numbered c) (hanswers : Answers r event)
    (hflying : c.inflight.lookup r.sequence = some (r.viewId, r.state)) :
    let c' := c.handleMemoryEvent event
    c'.inflight = c.inflight.erase r.sequence ∧
    (c'.persistence = none ∨ c'.persistence = c.persistence) ∧
    ((event = .saved r.definition r.viewId r.sequence ∧
        c'.ackSequence = c.ackSequence.insert r.viewId r.sequence ∧
        c'.last = c.last.insert r.viewId r.state ∧ c'.failed = c.failed.erase r.viewId) ∨
      ((∃ message, event = .saveFailed r.definition r.viewId r.sequence message) ∧
        c'.ackSequence = c.ackSequence ∧ c'.last = c.last ∧
        c'.failed = c.failed.insert r.viewId r.state)) := by
  have hpersistence := c.handleCommandMemoryEvent_persistence r.sequence
  have hflying' : (c.handleCommandMemoryEvent r.sequence).inflight.lookup r.sequence =
      some (r.viewId, r.state) := hflying
  obtain rfl | ⟨message, rfl⟩ := hanswers
  · have hfresh : ((c.handleCommandMemoryEvent r.sequence).ackSequence.lookup r.viewId).all
        (fun seen => decide (seen < r.sequence)) = true := by
      change (c.ackSequence.lookup r.viewId).all (fun seen => decide (seen < r.sequence)) = true
      rw [Option.all_eq_true]
      intro seen hseen
      exact decide_eq_true (UInt64.lt_iff_toNat_lt.2 ((hn.flown _ _ _ hflying).2 seen hseen))
    simp only [handleMemoryEvent, hflying', hfresh, if_true]
    exact ⟨rfl, hpersistence, .inl ⟨trivial, rfl, rfl, rfl⟩⟩
  · simp only [handleMemoryEvent, hflying']
    exact ⟨rfl, hpersistence, .inr ⟨⟨message, rfl⟩, rfl, rfl, rfl⟩⟩

namespace Linked

variable {c c' : Composition S V}

theorem flown (h : Linked c) {e : ViewId × UInt64} (he : e ∈ outstanding c.memory) :
    c.inFlight e.1 = true := by
  obtain hqueue | hevents := mem_append.1 he
  · obtain ⟨r, hr, rfl⟩ := mem_map.1 hqueue
    exact inFlight_iff.2 ⟨_, _, h.queued r hr⟩
  · obtain ⟨event, hevent, hsettles⟩ := mem_filterMap.1 hevents
    obtain ⟨r, -, -, hlook⟩ := h.answered event hevent e.1 e.2 hsettles
    exact inFlight_iff.2 ⟨_, _, hlook⟩

theorem keep (h : Linked c) (hqueue : saves c'.memory.queue = saves c.memory.queue)
    (hevents : c'.memory.events = c.memory.events) (hlog : c'.memory.log = c.memory.log)
    (hinflight : c'.inflight = c.inflight) (hlast : c'.last = c.last)
    (hfailed : c'.failed = c.failed) : Linked c' := by
  constructor
  · rw [outstanding, hqueue, hevents]
    exact h.single
  · rw [hqueue, hinflight]
    exact h.queued
  · rw [hevents, hlog, hinflight]
    exact h.answered
  · rw [hlog, hlast, hfailed]
    unfold inFlight
    rw [hinflight]
    exact h.known

/-- A request is handed over. -/
theorem send (h : Linked c) (hfree : c.inFlight r.viewId = false)
    (hnone : c.inflight.lookup r.sequence = none) (hmemory : c'.memory = c.memory.push (.save r))
    (hinflight : c'.inflight = c.inflight.insert r.sequence (r.viewId, r.state))
    (hlast : c'.last = c.last) (hfailed : c'.failed = c.failed) : Linked c' := by
  have hqueue : saves c'.memory.queue = saves c.memory.queue ++ [r] := by
    rw [hmemory]
    simp [SharedMemory.push, saves]
  have hevents : c'.memory.events = c.memory.events := by rw [hmemory]; rfl
  have hlog : c'.memory.log = c.memory.log := by rw [hmemory]; rfl
  have hold : ∀ q e, c.inflight.lookup q = some e → c'.inflight.lookup q = some e := by
    intro q e hlook
    have hne : q ≠ r.sequence := by
      rintro rfl
      rw [hnone] at hlook
      cases hlook
    rw [hinflight, AList.lookup_insert_ne hne]
    exact hlook
  constructor
  · have hperm : (outstanding c'.memory).Perm ((r.viewId, r.sequence) :: outstanding c.memory) := by
      simp only [outstanding, hqueue, hevents, map_append, map_cons, map_nil,
        append_assoc]
      exact perm_middle
    rw [(hperm.map Prod.fst).nodup_iff, map_cons, nodup_cons]
    refine ⟨fun hmem => ?_, h.single⟩
    obtain ⟨e, he, heq⟩ := mem_map.1 hmem
    have := h.flown he
    rw [heq, hfree] at this
    cases this
  · intro r' hr'
    rw [hqueue] at hr'
    obtain hmem | hlast' := mem_append.1 hr'
    · exact hold _ _ (h.queued r' hmem)
    · obtain rfl := mem_singleton.1 hlast'
      rw [hinflight, AList.lookup_insert]
  · intro event hevent id q hsettles
    rw [hevents] at hevent
    obtain ⟨r', hentry, hanswers, hlook⟩ := h.answered event hevent id q hsettles
    exact ⟨r', hlog ▸ hentry, hanswers, hold _ _ hlook⟩
  · intro id hid
    rw [hlog, hlast, hfailed]
    refine h.known id ?_
    by_contra htrue
    obtain ⟨q, state, hlook⟩ := inFlight_iff.1 (by simpa using htrue)
    rw [inFlight_iff.2 ⟨q, state, hold _ _ hlook⟩] at hid
    cases hid

/-- The thread serves a command. -/
theorem serve (h : Linked c) {delivered : Bool}
    (hserve : c.memory.step (.serve reply delivered) = some c'.memory)
    (hinflight : c'.inflight = c.inflight) (hlast : c'.last = c.last)
    (hfailed : c'.failed = c.failed) : Linked c' := by
  obtain ⟨command, rest, hqueue, hecho, hmemory⟩ := serve_cases hserve
  have hqueue' : c'.memory.queue = rest := by rw [hmemory]; rfl
  have hlog : c'.memory.log = c.memory.log ++ [c.memory.failures.entry command reply] := by
    rw [hmemory]
    rfl
  by_cases hsave : saves [command] = []
  · -- nothing is said about a save
    have hsaves : saves c'.memory.queue = saves c.memory.queue := by
      rw [hqueue', hqueue, ← singleton_append, saves_append, hsave, nil_append]
    have hlast' : ∀ id, lastSave c'.memory.log id = lastSave c.memory.log id := by
      intro id
      have hnot : (c.memory.failures.entry command reply).saves id = false := by
        cases command with
        | save r => cases hsave
        | _ => rfl
      rw [hlog, lastSave_snoc, hnot]
      simp
    have hevents : c'.memory.events = c.memory.events ∨ ∃ event,
        c'.memory.events = c.memory.events ++ [event] ∧ settles event = none := by
      rw [hmemory]
      cases hanswer : (c.memory.failures.serve command reply).2 with
      | event event =>
        cases delivered with
        | false => exact .inl (by simp [SharedMemory.answered, hanswer])
        | true => exact .inr ⟨event, by simp [SharedMemory.answered, hanswer],
            settles_serve hsave hanswer⟩
      | _ => exact .inl (by simp [SharedMemory.answered, hanswer])
    have hmem : ∀ event ∈ c'.memory.events, settles event ≠ none → event ∈ c.memory.events := by
      intro event hevent hsettles
      obtain hsame | ⟨event', hnew, hnone⟩ := hevents
      · exact hsame ▸ hevent
      · rw [hnew] at hevent
        obtain hold | hone := mem_append.1 hevent
        · exact hold
        · obtain rfl := mem_singleton.1 hone
          exact absurd hnone hsettles
    have houtstanding : outstanding c'.memory = outstanding c.memory := by
      obtain hsame | ⟨event', hnew, hnone⟩ := hevents
      · rw [outstanding, outstanding, hsaves, hsame]
      · rw [outstanding, outstanding, hsaves, hnew, filterMap_append]
        simp [hnone]
    constructor
    · rw [houtstanding]
      exact h.single
    · rw [hsaves, hinflight]
      exact h.queued
    · intro event hevent id q hsettles
      rw [hlast', hinflight]
      exact h.answered event (hmem event hevent (by rw [hsettles]; simp)) id q hsettles
    · intro id hid
      rw [hlast', hlast, hfailed]
      unfold inFlight at hid
      rw [hinflight] at hid
      exact h.known id hid
  · cases command with
    | save r =>
      obtain ⟨event, hanswer, hanswers⟩ := serve_save c.memory.failures hecho
      have hsaves : saves c.memory.queue = r :: saves c'.memory.queue := by
        rw [hqueue', hqueue]
        rfl
      have hevents : c'.memory.events = c.memory.events ++ if delivered then [event] else [] := by
        rw [hmemory]
        cases delivered <;> simp [SharedMemory.answered, hanswer]
      have hflying : c.inflight.lookup r.sequence = some (r.viewId, r.state) :=
        h.queued r (by rw [hsaves]; exact mem_cons_self)
      have houtstanding : outstanding c.memory = (r.viewId, r.sequence) ::
          ((saves c'.memory.queue).map (fun r => (r.viewId, r.sequence)) ++
            c.memory.events.filterMap settles) := by
        rw [outstanding, hsaves]
        rfl
      have hsingle := h.single
      rw [houtstanding, map_cons, nodup_cons] at hsingle
      -- no event of the view is on its way
      have hother : ∀ event' ∈ c.memory.events, ∀ id q, settles event' = some (id, q) →
          id ≠ r.viewId := by
        rintro event' hevent' id q hsettles rfl
        refine hsingle.1 (mem_map.2 ⟨(_, q), mem_append_right _ ?_, rfl⟩)
        exact mem_filterMap.2 ⟨event', hevent', hsettles⟩
      have hlast' : ∀ id, lastSave c'.memory.log id =
          if id = r.viewId then some ⟨.save r, .event event⟩ else lastSave c.memory.log id := by
        intro id
        rw [hlog, lastSave_snoc]
        have hentry : c.memory.failures.entry (.save r) reply = ⟨.save r, .event event⟩ := by
          rw [Failures.entry, hanswer]
        rw [hentry]
        by_cases hid : id = r.viewId
        · simp [Entry.saves, hid]
        · have hid' : r.viewId ≠ id := fun heq => hid heq.symm
          simp [Entry.saves, hid, hid']
      constructor
      · have hperm : (outstanding c'.memory).Sublist (((saves c'.memory.queue).map
            (fun r => (r.viewId, r.sequence)) ++ c.memory.events.filterMap settles) ++
              [(r.viewId, r.sequence)]) := by
          rw [outstanding, hevents, filterMap_append, ← append_assoc]
          refine List.Sublist.append_left ?_ _
          cases delivered
          · exact nil_sublist _
          · simp [settles_answers hanswers]
        refine (hperm.map Prod.fst).nodup ?_
        rw [map_append, map_singleton, nodup_append_comm, singleton_append,
          nodup_cons]
        exact hsingle
      · intro r' hr'
        rw [hinflight]
        exact h.queued r' (by rw [hsaves]; exact mem_cons_of_mem _ hr')
      · intro event' hevent' id q hsettles
        rw [hevents] at hevent'
        rw [hlast', hinflight]
        obtain hold | hnew := mem_append.1 hevent'
        · rw [if_neg (hother event' hold id q hsettles)]
          exact h.answered event' hold id q hsettles
        · cases delivered with
          | false => cases hnew
          | true =>
            obtain rfl := mem_singleton.1 hnew
            rw [settles_answers hanswers] at hsettles
            cases hsettles
            exact ⟨r, if_pos rfl, hanswers, hflying⟩
      · intro id hid
        unfold inFlight at hid
        rw [hinflight] at hid
        have hne : id ≠ r.viewId := by
          rintro rfl
          have := inFlight_iff.2 ⟨_, _, hflying⟩
          unfold inFlight at this
          rw [hid] at this
          cases this
        rw [hlast', if_neg hne, hlast, hfailed]
        exact h.known id hid
    | _ => exact absurd rfl hsave

/-- The window takes the answer to a request. -/
theorem settle (h : Linked c) {rest : List (Event V)} (hevents : c.memory.events = event :: rest)
    (hanswers : Answers r event)
    (hentry : lastSave c.memory.log r.viewId = some ⟨.save r, .event event⟩)
    (hmemory : c'.memory = { c.memory with events := rest })
    (hinflight : c'.inflight = c.inflight.erase r.sequence)
    (hother : ∀ id, id ≠ r.viewId → c'.last.lookup id = c.last.lookup id ∧
      c'.failed.lookup id = c.failed.lookup id)
    (hknows : Knows (c'.last.lookup r.viewId) (c'.failed.lookup r.viewId)
      (some (⟨.save r, .event event⟩ : Entry S V))) : Linked c' := by
  have hqueue : c'.memory.queue = c.memory.queue := by rw [hmemory]
  have hlog : c'.memory.log = c.memory.log := by rw [hmemory]
  have hrest : c'.memory.events = rest := by rw [hmemory]
  have hsettles := settles_answers hanswers
  have hperm : (outstanding c.memory).Perm
      ((r.viewId, r.sequence) :: outstanding c'.memory) := by
    simp only [outstanding, hevents, hqueue, hrest, filterMap_cons, hsettles]
    exact perm_middle
  have hsingle := h.single
  rw [(hperm.map Prod.fst).nodup_iff, map_cons, nodup_cons] at hsingle
  -- another request has another view, and so another number
  have hnumber : ∀ e ∈ outstanding c'.memory, e.1 ≠ r.viewId := by
    rintro e he heq
    exact hsingle.1 (mem_map.2 ⟨e, he, heq⟩)
  have hflying : ∀ q id state, id ≠ r.viewId → c.inflight.lookup q = some (id, state) →
      c'.inflight.lookup q = some (id, state) := by
    intro q id state hid hlook
    have hne : q ≠ r.sequence := by
      rintro rfl
      obtain ⟨r', hentry', -, hlook'⟩ := h.answered event (by rw [hevents]; exact mem_cons_self)
        _ _ hsettles
      rw [hlook'] at hlook
      cases hlook
      exact hid rfl
    rw [hinflight, AList.lookup_erase_ne hne]
    exact hlook
  constructor
  · exact hsingle.2
  · intro r' hr'
    refine hflying _ _ _ (hnumber (r'.viewId, r'.sequence) ?_) (h.queued r' (hqueue ▸ hr'))
    exact mem_append_left _ (mem_map.2 ⟨r', hr', rfl⟩)
  · intro event' hevent' id q hsettles'
    rw [hrest] at hevent'
    obtain ⟨r', hentry', hanswers', hlook⟩ :=
      h.answered event' (by rw [hevents]; exact mem_cons_of_mem _ hevent') id q hsettles'
    refine ⟨r', hlog ▸ hentry', hanswers', hflying _ _ _ (hnumber (id, q) ?_) hlook⟩
    exact mem_append_right _ (mem_filterMap.2 ⟨event', hrest ▸ hevent', hsettles'⟩)
  · intro id hid
    rw [hlog]
    by_cases heq : id = r.viewId
    · subst heq
      rw [hentry]
      exact hknows
    · rw [(hother id heq).1, (hother id heq).2]
      refine h.known id ?_
      by_contra htrue
      obtain ⟨q, state, hlook⟩ := inFlight_iff.1 (by simpa using htrue)
      rw [inFlight_iff.2 ⟨q, state, hflying q id state heq hlook⟩] at hid
      cases hid

end Linked

/-- The window takes an event. -/
theorem poll_keeps {c : Composition S V} (hn : Numbered c) (hl : Linked c) {rest : List (Event V)}
    (hevents : c.memory.events = event :: rest) :
    Numbered ({ c with memory := { c.memory with events := rest } }.handleMemoryEvent event) ∧
      Linked ({ c with memory := { c.memory with events := rest } }.handleMemoryEvent event) := by
  set c₀ : Composition S V := { c with memory := { c.memory with events := rest } } with hc₀
  have hn₀ : Numbered c₀ := hn.drop rfl rfl (Nat.le_refl _) (fun _ _ hp => hp) fun _ hp _ => hp
  have hframe := frame_handle c₀ event
  cases hsettles : settles event with
  | none =>
    rw [handle_other hsettles]
    refine ⟨hn₀, ?_⟩
    constructor
    · have hsame : outstanding c₀.memory = outstanding c.memory := by
        simp [hc₀, outstanding, hevents, hsettles]
      rw [hsame]
      exact hl.single
    · exact hl.queued
    · exact fun event' hevent' => hl.answered event' (by
        rw [hevents]
        exact mem_cons_of_mem _ hevent')
    · exact hl.known
  | some e =>
    obtain ⟨r, hentry, hanswers, hflying⟩ := hl.answered event
      (by rw [hevents]; exact mem_cons_self) e.1 e.2 hsettles
    rw [settles_answers hanswers] at hsettles
    cases hsettles
    obtain ⟨hinflight, hpersistence, hmaps⟩ := handle_answer hn₀ hanswers hflying
    refine ⟨hn₀.settle hflying hinflight ?_ hframe.sequence hframe.pending hpersistence,
      hl.settle hevents hanswers hentry hframe.memory hinflight ?_ ?_⟩
    · obtain ⟨-, hack, -⟩ | ⟨-, hack, -⟩ := hmaps
      · exact .inr hack
      · exact .inl hack
    · intro id hid
      obtain ⟨-, -, hlast, hfailed⟩ | ⟨-, -, hlast, hfailed⟩ := hmaps
      · rw [hlast, hfailed, AList.lookup_insert_ne hid, AList.lookup_erase_ne hid]
        exact ⟨rfl, rfl⟩
      · rw [hlast, hfailed, AList.lookup_insert_ne hid]
        exact ⟨rfl, rfl⟩
    · obtain ⟨rfl, -, hlast, hfailed⟩ | ⟨⟨message, rfl⟩, -, hlast, hfailed⟩ := hmaps
      · rw [hlast, hfailed, AList.lookup_insert, AList.lookup_erase]
        exact ⟨r, rfl, .inl ⟨rfl, rfl, rfl⟩⟩
      · rw [hfailed, AList.lookup_insert]
        exact ⟨r, rfl, .inr ⟨⟨message, rfl⟩, rfl⟩⟩

/-! ### The states that were handed over -/

/-- The view was in the state when the window had changed that often. -/
def Was (c : Composition S V) (id : ViewId) (state : S) (since : ℕ) : Prop :=
  ∃ views, (c.seen ++ [c.views])[since]? = some views ∧
    ∃ view ∈ views.items, view.id = some id ∧ view.state = some state

/-- Every state that was handed over is one that the view was in, in the order of time. -/
structure Journey (c : Composition S V) : Prop where
  pending : ∀ id p, c.pending.lookup id = some p → c.Was id p.request.state p.since ∧
    ∀ capture ∈ c.captures, capture.request.viewId = id → capture.since ≤ p.since
  since : ∀ capture ∈ c.captures, capture.since ≤ c.seen.length
  was : ∀ capture ∈ c.captures, ∃ state, c.Was capture.request.viewId state capture.since ∧
    (capture.published = false → capture.request.state = state)
  ordered : c.captures.Pairwise fun a b => a.request.viewId = b.request.viewId → a.since ≤ b.since
  handed : saves c.memory.accepted = c.captures.map Capture.request

theorem Was.since_le {c : Composition S V} {since : ℕ} (h : c.Was id state since) :
    since ≤ c.seen.length := by
  obtain ⟨views, hviews, -⟩ := h
  obtain ⟨hlt, -⟩ := List.getElem?_eq_some_iff.1 hviews
  simp only [length_append, length_singleton] at hlt
  omega

namespace Journey

variable {c c' : Composition S V}

/-- Requests are only dropped. -/
theorem drop (h : Journey c)
    (hpending : ∀ id p, c'.pending.lookup id = some p → c.pending.lookup id = some p)
    (hcaptures : c'.captures = c.captures) (hseen : c'.seen = c.seen) (hviews : c'.views = c.views)
    (haccepted : saves c'.memory.accepted = saves c.memory.accepted) : Journey c' := by
  have hwas : ∀ id state since, c'.Was id state since ↔ c.Was id state since := by
    intro id state since
    rw [Was, Was, hseen, hviews]
  constructor
  · intro id p hp
    rw [hwas, hcaptures]
    exact h.pending id p (hpending id p hp)
  · rw [hcaptures, hseen]
    exact h.since
  · rw [hcaptures]
    intro capture hcapture
    obtain ⟨state, hstate, hsame⟩ := h.was capture hcapture
    exact ⟨state, (hwas _ _ _).2 hstate, hsame⟩
  · rw [hcaptures]
    exact h.ordered
  · rw [haccepted, hcaptures]
    exact h.handed

/-- The state that a view is in is queued. -/
theorem queue (h : Journey c) (hview : view ∈ c.views.items) (hid : view.id = some id)
    (hstate : view.state = some state) (hpending : ∀ id' p, c'.pending.lookup id' = some p →
      (id' = id ∧ p.request.state = state ∧ p.since = c.seen.length) ∨
        c.pending.lookup id' = some p) (hcaptures : c'.captures = c.captures)
    (hseen : c'.seen = c.seen) (hviews : c'.views = c.views) (hmemory : c'.memory = c.memory) :
    Journey c' := by
  have hwas : ∀ id state since, c'.Was id state since ↔ c.Was id state since := by
    intro id state since
    rw [Was, Was, hseen, hviews]
  constructor
  · intro id' p hp
    rw [hwas, hcaptures]
    obtain ⟨rfl, rfl, hsince⟩ | hold := hpending id' p hp
    · rw [hsince]
      refine ⟨⟨c.views, by simp, view, hview, hid, hstate⟩, fun capture hcapture _ => ?_⟩
      exact h.since capture hcapture
    · exact h.pending id' p hold
  · rw [hcaptures, hseen]
    exact h.since
  · rw [hcaptures]
    intro capture hcapture
    obtain ⟨state', hstate', hsame⟩ := h.was capture hcapture
    exact ⟨state', (hwas _ _ _).2 hstate', hsame⟩
  · rw [hcaptures]
    exact h.ordered
  · rw [hmemory, hcaptures]
    exact h.handed

/-- A request is handed over. -/
theorem send (h : Journey c) {request : SaveRequest S} {since : ℕ} {published : Bool} (state : S)
    (hwas : c.Was request.viewId state since)
    (hstate : published = false → request.state = state)
    (hlate : ∀ capture ∈ c.captures, capture.request.viewId = request.viewId →
      capture.since ≤ since)
    (hother : ∀ id p, (c.submit request since published).pending.lookup id = some p →
      id ≠ request.viewId) : Journey (c.submit request since published) := by
  constructor
  · intro id p hp
    have hne := hother id p hp
    simp only [submit, AList.lookup_erase_ne hne] at hp
    obtain ⟨hw, hcaptures⟩ := h.pending id p hp
    refine ⟨hw, fun capture hcapture hid => ?_⟩
    obtain hold | hnew := mem_append.1 hcapture
    · exact hcaptures capture hold hid
    · obtain rfl := mem_singleton.1 hnew
      exact absurd hid.symm hne
  · intro capture hcapture
    obtain hold | hnew := mem_append.1 hcapture
    · exact h.since capture hold
    · obtain rfl := mem_singleton.1 hnew
      exact hwas.since_le
  · intro capture hcapture
    obtain hold | hnew := mem_append.1 hcapture
    · exact h.was capture hold
    · obtain rfl := mem_singleton.1 hnew
      exact ⟨state, hwas, hstate⟩
  · simp only [submit]
    rw [pairwise_append]
    refine ⟨h.ordered, pairwise_singleton _ _, fun a ha b hb heq => ?_⟩
    obtain rfl := mem_singleton.1 hb
    exact hlate a ha heq
  · simp only [submit, SharedMemory.push, map_append, map_cons, map_nil,
      saves_append, h.handed]
    rfl

/-- The window changes. -/
theorem change (h : Journey c) (hpending : c'.pending = c.pending)
    (hcaptures : c'.captures = c.captures) (hseen : c'.seen = c.seen ++ [c.views])
    (hmemory : c'.memory = c.memory) : Journey c' := by
  have hwas : ∀ id state since, c.Was id state since → c'.Was id state since := by
    rintro id state since ⟨views, hviews, hrest⟩
    refine ⟨views, ?_, hrest⟩
    rw [hseen, getElem?_append_left]
    · exact hviews
    · exact (List.getElem?_eq_some_iff.1 hviews).1
  constructor
  · intro id p hp
    rw [hpending] at hp
    rw [hcaptures]
    exact ⟨hwas _ _ _ (h.pending id p hp).1, (h.pending id p hp).2⟩
  · intro capture hcapture
    rw [hcaptures] at hcapture
    rw [hseen, length_append]
    exact (h.since capture hcapture).trans (Nat.le_add_right _ _)
  · intro capture hcapture
    rw [hcaptures] at hcapture
    obtain ⟨state, hstate, hsame⟩ := h.was capture hcapture
    exact ⟨state, hwas _ _ _ hstate, hsame⟩
  · rw [hcaptures]
    exact h.ordered
  · rw [hmemory, hcaptures]
    exact h.handed

end Journey

/-! ### Queueing -/

/-- The window looks after this state of the view. -/
def Tracked (c : Composition S V) (id : ViewId) (state : S) : Prop :=
  c.last.lookup id = some state ∨
    (∃ p, c.pending.lookup id = some p ∧ p.request.state = state) ∨
    (∃ q, c.inflight.lookup q = some (id, state)) ∨ c.failed.lookup id = some state

/-- What queueing does not touch. -/
structure Kept (c c' : Composition S V) : Prop where
  memory : c'.memory = c.memory
  inflight : c'.inflight = c.inflight
  last : c'.last = c.last
  failed : c'.failed = c.failed
  ackSequence : c'.ackSequence = c.ackSequence
  persistence : c'.persistence = c.persistence
  captures : c'.captures = c.captures
  seen : c'.seen = c.seen
  views : c'.views = c.views
  deferred : c'.deferred = c.deferred
  definitions : c'.definitions = c.definitions
  ready : c'.ready = c.ready
  phase : c'.phase = c.phase

/-- What queueing does for a view. -/
structure Queued (c c' : Composition S V) (view : OpenView S) : Prop where
  kept : Kept c c'
  pending : (c'.sequence = c.sequence ∧
      ∀ id p, c'.pending.lookup id = some p → c.pending.lookup id = some p) ∨
    ∃ id source state, c.savable view = some (id, source) ∧ view.state = some state ∧
      c'.sequence = nextSequence c.sequence ∧
      c'.pending.lookup id =
        some ⟨⟨nextSequence c.sequence, source, id, state⟩, c.seen.length⟩ ∧
      ∀ id', id' ≠ id → c'.pending.lookup id' = c.pending.lookup id'
  others : ∀ id, view.id ≠ some id → c'.pending.lookup id = c.pending.lookup id ∧
    (id ∈ c'.restoring ↔ id ∈ c.restoring)
  tracked : ∀ id source state, c.savable view = some (id, source) → view.state = some state →
    id ∈ c'.restoring ∨ c'.Tracked id state

theorem kept_refl (c : Composition S V) : Kept c c :=
  ⟨rfl, rfl, rfl, rfl, rfl, rfl, rfl, rfl, rfl, rfl, rfl, rfl, rfl⟩

theorem Kept.trans {c c' c'' : Composition S V} (h : Kept c c') (h' : Kept c' c'') : Kept c c'' :=
  ⟨h'.memory.trans h.memory, h'.inflight.trans h.inflight, h'.last.trans h.last,
    h'.failed.trans h.failed, h'.ackSequence.trans h.ackSequence,
    h'.persistence.trans h.persistence, h'.captures.trans h.captures, h'.seen.trans h.seen,
    h'.views.trans h.views, h'.deferred.trans h.deferred, h'.definitions.trans h.definitions,
    h'.ready.trans h.ready, h'.phase.trans h.phase⟩

theorem savable_some {c : Composition S V} {source : SourceId}
    (h : c.savable view = some (id, source)) :
    view.id = some id ∧ view.sourceId = some source ∧ c.suppresses id = false := by
  unfold savable at h
  split at h
  · split_ifs at h with hcan
    cases h
    exact ⟨‹_›, ‹_›, hcan.1⟩
  · cases h

variable [DecidableEq S]

theorem reconcile_spec (c : Composition S V) (id : ViewId) (current : S) :
    (∀ id' p, (c.reconcilePendingState id current).1.lookup id' = some p →
      c.pending.lookup id' = some p) ∧
    (∀ id', id' ≠ id → (c.reconcilePendingState id current).1.lookup id' = c.pending.lookup id') ∧
    ((c.reconcilePendingState id current).2 = true →
      Tracked { c with pending := (c.reconcilePendingState id current).1 } id current) := by
  have hpending : (∀ id' p, (c.reconcilePendingState id current).1.lookup id' = some p →
      c.pending.lookup id' = some p) ∧
      ∀ id', id' ≠ id →
        (c.reconcilePendingState id current).1.lookup id' = c.pending.lookup id' := by
    simp only [reconcilePendingState]
    split
    · split_ifs
      · refine ⟨fun id' p hp => ?_, fun id' hne => AList.lookup_erase_ne hne⟩
        rw [Dict.lookup_erase_eq] at hp
        split_ifs at hp
        exact hp
      · exact ⟨fun _ _ hp => hp, fun _ _ => rfl⟩
    · exact ⟨fun _ _ hp => hp, fun _ _ => rfl⟩
  refine ⟨hpending.1, hpending.2, fun htracked => ?_⟩
  generalize hpending' : (c.reconcilePendingState id current).1 = pending
  have htracked' : (decide (c.last.lookup id = some current) ||
      ((pending.lookup id).any fun p => decide (p.request.state = current)) ||
      (c.inflight.entries.any fun e => decide (e.2.1 = id) && decide (e.2.2 = current)) ||
      decide (c.failed.lookup id = some current)) = true := by
    rw [← hpending']
    exact htracked
  simp only [Bool.or_eq_true, decide_eq_true_eq, Option.any_eq_true, any_eq_true,
    Bool.and_eq_true] at htracked'
  obtain ((hlast | ⟨p, hp, hstate⟩) | ⟨⟨q, id', state'⟩, hmem, rfl, rfl⟩) | hfailed := htracked'
  · exact .inl hlast
  · exact .inr (.inl ⟨p, hp, hstate⟩)
  · exact .inr (.inr (.inl ⟨q, AList.mem_lookup_iff.2 hmem⟩))
  · exact .inr (.inr (.inr hfailed))

theorem queueView_spec (c : Composition S V) (view : OpenView S) :
    Queued c (c.queueView view) view := by
  unfold queueView
  cases hsavable : c.savable view with
  | none =>
    refine ⟨kept_refl c, .inl ⟨rfl, fun _ _ hp => hp⟩, fun _ _ => ⟨rfl, .rfl⟩, fun _ _ _ h => ?_⟩
    rw [hsavable] at h
    cases h
  | some e =>
    obtain ⟨id, source⟩ := e
    obtain ⟨hid, -, -⟩ := savable_some hsavable
    dsimp only
    split_ifs with hrestores
    · refine ⟨kept_refl c, .inl ⟨rfl, fun _ _ hp => hp⟩, fun _ _ => ⟨rfl, .rfl⟩, fun id' _ _ h _ => ?_⟩
      rw [hsavable] at h
      cases h
      simp only [restores, Bool.and_eq_true, decide_eq_true_eq] at hrestores
      exact .inl hrestores.1.1
    · have hrestoring : ∀ id', view.id ≠ some id' →
          (id' ∈ c.restoring.erase id ↔ id' ∈ c.restoring) := by
        intro id' hne
        have hne' : id' ≠ id := by
          rintro rfl
          exact hne hid
        simp [hne']
      cases hstate : view.state with
      | none =>
        refine ⟨⟨rfl, rfl, rfl, rfl, rfl, rfl, rfl, rfl, rfl, rfl, rfl, rfl, rfl⟩,
          .inl ⟨rfl, fun _ _ hp => hp⟩, fun id' hne => ⟨rfl, hrestoring id' hne⟩,
          fun _ _ _ _ h => ?_⟩
        rw [hstate] at h
        cases h
      | some state =>
        obtain ⟨hsub, hother, htracked⟩ :=
          reconcile_spec { c with restoring := c.restoring.erase id } id state
        have hview : ∀ id', view.id ≠ some id' → id' ≠ id := by
          rintro id' hne rfl
          exact hne hid
        dsimp only
        split_ifs with htrack
        · refine ⟨⟨rfl, rfl, rfl, rfl, rfl, rfl, rfl, rfl, rfl, rfl, rfl, rfl, rfl⟩,
            .inl ⟨rfl, hsub⟩, fun id' hne => ⟨hother id' (hview id' hne), hrestoring id' hne⟩,
            fun id' source' state' h h' => ?_⟩
          rw [hsavable] at h
          rw [hstate] at h'
          cases h
          cases h'
          exact .inr (htracked htrack)
        · refine ⟨⟨rfl, rfl, rfl, rfl, rfl, rfl, rfl, rfl, rfl, rfl, rfl, rfl, rfl⟩,
            .inr ⟨id, source, state, hsavable, hstate, rfl, AList.lookup_insert _, ?_⟩,
            fun id' hne => ⟨?_, hrestoring id' hne⟩, fun id' source' state' h h' => ?_⟩
          · intro id' hne
            exact (AList.lookup_insert_ne hne).trans (hother id' hne)
          · exact (AList.lookup_insert_ne (hview id' hne)).trans (hother id' (hview id' hne))
          · rw [hsavable] at h
            rw [hstate] at h'
            cases h
            cases h'
            exact .inr (.inr (.inl ⟨_, AList.lookup_insert _, rfl⟩))

/-- What holds of the requests of a window in every state. -/
structure Flight (c : Composition S V) : Prop where
  numbered : Numbered c
  linked : Linked c
  journey : Journey c

/-- The window queues a state of one of its views. -/
theorem Flight.queueView {c : Composition S V} (h : Flight c) (hview : view ∈ c.views.items)
    (hmax : (c.queueView view).sequence.toNat < 18446744073709551615) :
    Flight (c.queueView view) := by
  obtain ⟨hkept, hpending, -, -⟩ := queueView_spec c view
  have hlinked : Linked (c.queueView view) := h.linked.keep (by rw [hkept.memory])
    (by rw [hkept.memory]) (by rw [hkept.memory]) hkept.inflight hkept.last hkept.failed
  obtain ⟨hsequence, hsub⟩ | ⟨id, source, state, hsavable, hstate, hsequence, hnew, hsame⟩ := hpending
  · exact ⟨h.numbered.drop hkept.inflight hkept.ackSequence (by rw [hsequence]) hsub
      fun _ hp _ => hkept.persistence ▸ hp, hlinked,
      h.journey.drop hsub hkept.captures hkept.seen hkept.views (by rw [hkept.memory])⟩
  · obtain ⟨hid, -, hsuppresses⟩ := savable_some hsavable
    have hlookup : ∀ id' p, (c.queueView view).pending.lookup id' = some p →
        (id' = id ∧ p = ⟨⟨nextSequence c.sequence, source, id, state⟩, c.seen.length⟩) ∨
          (id' ≠ id ∧ c.pending.lookup id' = some p) := by
      intro id' p hp
      by_cases heq : id' = id
      · rw [heq, hnew] at hp
        cases hp
        exact .inl ⟨heq, rfl⟩
      · rw [hsame id' heq] at hp
        exact .inr ⟨heq, hp⟩
    refine ⟨h.numbered.queue hsuppresses ?_ hsequence ?_ hkept.inflight hkept.ackSequence
      hkept.persistence, hlinked, h.journey.queue hview hid hstate ?_ hkept.captures hkept.seen
        hkept.views hkept.memory⟩
    · rintro heq
      rw [hsequence, nextSequence, if_pos heq, heq] at hmax
      exact absurd hmax (Nat.lt_irrefl _)
    · intro id' p hp
      obtain ⟨heq, rfl⟩ | hold := hlookup id' p hp
      · exact .inl ⟨heq, rfl, rfl⟩
      · exact .inr hold
    · intro id' p hp
      obtain ⟨heq, rfl⟩ | hold := hlookup id' p hp
      · exact .inl ⟨heq, rfl, rfl⟩
      · exact .inr hold.2

theorem kept_queueViews (views : List (OpenView S)) (c : Composition S V) :
    Kept c (views.foldl queueView c) ∧
      c.sequence.toNat ≤ (views.foldl queueView c).sequence.toNat := by
  induction views generalizing c with
  | nil => exact ⟨kept_refl c, Nat.le_refl _⟩
  | cons view rest ih =>
    obtain ⟨hkept, hpending, -, -⟩ := queueView_spec c view
    obtain ⟨hkept', hle⟩ := ih (c.queueView view)
    refine ⟨hkept.trans hkept', Nat.le_trans ?_ hle⟩
    obtain ⟨hsame, -⟩ | ⟨id, source, state, -, -, hnext, -⟩ := hpending
    · rw [hsame]
    · rw [hnext]
      exact le_nextSequence _

theorem Flight.queueViews (views : List (OpenView S)) {c : Composition S V} (h : Flight c)
    (hviews : ∀ view ∈ views, view ∈ c.views.items)
    (hmax : (views.foldl Composition.queueView c).sequence.toNat < 18446744073709551615) :
    Flight (views.foldl Composition.queueView c) := by
  induction views generalizing c with
  | nil => exact h
  | cons view rest ih =>
    have hle := (kept_queueViews rest (c.queueView view)).2
    have hkept := (queueView_spec c view).kept
    refine ih (h.queueView (hviews view mem_cons_self) (Nat.lt_of_le_of_lt hle hmax)) ?_ hmax
    intro view' hview'
    rw [hkept.views]
    exact hviews view' (mem_cons_of_mem _ hview')

omit [DecidableEq S] in
/-- A request that was queued is handed over. -/
theorem Flight.submit {c : Composition S V} (h : Flight c) {p : PendingMemorySave S}
    (hp : c.pending.lookup id = some p) (hfree : c.inFlight id = false) :
    Flight (c.submit p.request p.since false) := by
  have hkey := h.numbered.key id p hp
  have hunsent : c.Unsent id p.request.sequence := .inl ⟨p, hp, rfl⟩
  obtain ⟨hle, hnone, hseen, -⟩ := h.numbered.unsent id _ hunsent
  have hpending : ∀ id' p', (c.submit p.request p.since false).pending.lookup id' = some p' →
      id' ≠ id ∧ c.pending.lookup id' = some p' := by
    intro id' p' hp'
    simp only [Composition.submit, hkey, Dict.lookup_erase_eq] at hp'
    split_ifs at hp' with heq
    exact ⟨heq, hp'⟩
  refine ⟨h.numbered.send p.request.viewId p.request.sequence p.request.state
    hle (hkey ▸ hfree) hnone (hkey ▸ hseen) rfl rfl rfl (fun id' p' hp' => (hpending id' p' hp').2) ?_ ?_,
    h.linked.send (hkey ▸ hfree) hnone rfl rfl rfl rfl,
    h.journey.send p.request.state (hkey ▸ (h.journey.pending id p hp).1) (fun _ => rfl)
      (hkey ▸ (h.journey.pending id p hp).2) fun id' p' hp' => hkey ▸ (hpending id' p' hp').1⟩
  · intro id' q' hunsent'
    have hold : c.Unsent id' q' ∧ id' ≠ id := by
      obtain ⟨p', hp', hq'⟩ | ⟨p', hp', hview, hreserved, hsequence⟩ := hunsent'
      · exact ⟨.inl ⟨p', (hpending id' p' hp').2, hq'⟩, (hpending id' p' hp').1⟩
      · refine ⟨.inr ⟨p', hp', hview, hreserved, hsequence⟩, ?_⟩
        rintro rfl
        have := h.numbered.reserved p' hp' (by rw [hreserved]; rfl) hsequence
        rw [hview, hp] at this
        cases this
    rw [hkey]
    refine ⟨hold.1, hold.2, ?_⟩
    rintro rfl
    exact hold.2 (h.numbered.apart id' id _ hold.1 hunsent)
  · intro p' hp' hreserved hsequence
    cases hlook : (c.submit p.request p.since false).pending.lookup p'.view with
    | none => rfl
    | some p'' =>
      have := (hpending _ _ hlook).2
      rw [h.numbered.reserved p' hp' hreserved hsequence] at this
      cases this

omit [DecidableEq S] in
/-- The number that command results get. -/
theorem Numbered.publication {c : Composition S V} (h : Numbered c) {p : Publication}
    (hp : c.persistence = some p) (hsequence : p.sequence = none)
    (hmax : c.sequence ≠ 18446744073709551615 ∨ p.reserved.isSome = true) :
    let q := p.reserved.getD (nextSequence c.sequence)
    let sequence := if p.reserved.isSome then c.sequence else q
    c.sequence.toNat ≤ sequence.toNat ∧ q.toNat ≤ sequence.toNat ∧ c.inflight.lookup q = none ∧
      (∀ seen, c.ackSequence.lookup p.view = some seen → seen.toNat < q.toNat) ∧
      ∀ id' p', c.pending.lookup id' = some p' → p'.request.sequence ≠ q := by
  cases hreserved : p.reserved with
  | some q =>
    have hunsent : c.Unsent p.view q := .inr ⟨p, hp, rfl, hreserved, hsequence⟩
    obtain ⟨hle, hnone, hseen, -⟩ := h.unsent p.view q hunsent
    refine ⟨Nat.le_refl _, hle, hnone, hseen, ?_⟩
    rintro id' p' hp' rfl
    obtain rfl := h.apart id' p.view _ (.inl ⟨p', hp', rfl⟩) hunsent
    rw [h.reserved p hp (by rw [hreserved]; rfl) hsequence] at hp'
    cases hp'
  | none =>
    have hlt := lt_nextSequence (hmax.resolve_right (by rw [hreserved]; simp))
    refine ⟨Nat.le_of_lt hlt, Nat.le_refl _, ?_, fun seen hseen => ?_, fun id' p' hp' heq => ?_⟩
    · change c.inflight.lookup (nextSequence c.sequence) = none
      cases hlook : c.inflight.lookup (nextSequence c.sequence) with
      | none => rfl
      | some e =>
        have := (h.flown _ e.1 e.2 hlook).1
        omega
    · have := h.acked p.view seen hseen
      exact Nat.lt_of_le_of_lt this hlt
    · have := (h.unsent id' _ (.inl ⟨p', hp', heq⟩)).1
      change (nextSequence c.sequence).toNat ≤ _ at this
      omega

/-- The number that command results get. -/
def publicationNumber (c : Composition S V) (p : Publication) : UInt64 :=
  p.reserved.getD (nextSequence c.sequence)

/-- The window when command results have a number. -/
def numberedFor (c : Composition S V) (p : Publication) : Composition S V :=
  { c with
    sequence := if p.reserved.isSome then c.sequence else c.publicationNumber p
    pending := c.pending.erase p.view }

omit [DecidableEq S] in
theorem dispatch_cases {c c' : Composition S V} {patch : S → S} (h : c.dispatch patch = some c') :
    ∃ p view source state, c.persistence = some p ∧ p.sequence = none ∧
      c.inFlight p.view = false ∧ view ∈ c.views.items ∧ view.id = some p.view ∧
      view.state = some state ∧
      (c' = { (c.numberedFor p).submit ⟨c.publicationNumber p, source, p.view, patch state⟩
          c.seen.length true with
            persistence := some { p with sequence := some (c.publicationNumber p) } } ∨
        c' = { c.numberedFor p with
          persistence := some { p with reserved := some (c.publicationNumber p) } }) := by
  unfold Composition.dispatch at h
  cases hp : c.persistence with
  | none =>
    rw [hp] at h
    cases h
  | some p =>
    rw [hp] at h
    dsimp only at h
    by_cases hbusy : (p.sequence.isSome || c.inFlight p.view) = true
    · rw [if_pos hbusy] at h
      cases h
    · rw [if_neg hbusy] at h
      simp only [Bool.or_eq_true, not_or, Bool.not_eq_true, Option.isSome_eq_false_iff,
        Option.isNone_iff_eq_none] at hbusy
      split at h
      · cases h
      · rename_i view hfind
        have hid : view.id = some p.view := by simpa using find?_some hfind
        split at h
        · rename_i source state hsource hstate
          by_cases hdefined : source ∈ c.definitions
          · rw [if_pos hdefined] at h
            refine ⟨p, view, source, state, rfl, hbusy.1, hbusy.2, mem_of_find?_eq_some hfind,
              hid, hstate, ?_⟩
            revert h
            split <;> intro h <;> cases h
            · exact .inl rfl
            · exact .inr rfl
          · rw [if_neg hdefined] at h
            cases h
        · cases h

omit [DecidableEq S] in
/-- Command results are handed over, or get a number. -/
theorem Flight.dispatch {c c' : Composition S V} (h : Flight c) {patch : S → S}
    (hdispatch : c.dispatch patch = some c') (hmax : c'.sequence.toNat < 18446744073709551615) :
    Flight c' ∧ c'.phase = c.phase ∧
      (c'.memory = c.memory ∨ ∃ r, c'.memory = c.memory.push (.save r)) := by
  obtain ⟨p, view, source, state, hp, hsequence, hfree, hmem, hid, hstate, hcases⟩ :=
    dispatch_cases hdispatch
  have hmax' : c.sequence ≠ 18446744073709551615 ∨ p.reserved.isSome = true := by
    by_contra hnot
    rw [not_or, not_not] at hnot
    have hnone : p.reserved = none := by simpa using hnot.2
    have hsame : c'.sequence = (c.numberedFor p).sequence := by
      obtain rfl | rfl := hcases
      · rfl
      · rfl
    have hfull : c'.sequence = 18446744073709551615 := by
      rw [hsame]
      simp [numberedFor, publicationNumber, hnone, hnot.1, nextSequence]
    rw [hfull] at hmax
    exact absurd hmax (Nat.lt_irrefl _)
  obtain ⟨hmono, hle, hnone, hseen, hdistinct⟩ := h.numbered.publication hp hsequence hmax'
  have hsub : ∀ id p', (c.numberedFor p).pending.lookup id = some p' →
      id ≠ p.view ∧ c.pending.lookup id = some p' := by
    intro id p' hp'
    simp only [numberedFor, Dict.lookup_erase_eq] at hp'
    split_ifs at hp' with heq
    exact ⟨heq, hp'⟩
  have hnumbered : Numbered (c.numberedFor p) := h.numbered.drop rfl rfl hmono
    (fun id p' hp' => (hsub id p' hp').2) fun _ hp' _ => hp'
  have hlinked : Linked (c.numberedFor p) := h.linked.keep rfl rfl rfl rfl rfl rfl
  have hjourney : Journey (c.numberedFor p) :=
    h.journey.drop (fun id p' hp' => (hsub id p' hp').2) rfl rfl rfl rfl
  have herase : ∀ id p', ((c.numberedFor p).pending.erase p.view).lookup id = some p' →
      id ≠ p.view ∧ (c.numberedFor p).pending.lookup id = some p' := by
    intro id p' hp'
    rw [Dict.lookup_erase_eq] at hp'
    split_ifs at hp' with heq
    exact ⟨heq, hp'⟩
  obtain rfl | rfl := hcases
  · refine ⟨⟨hnumbered.send p.view (c.publicationNumber p) (patch state) hle hfree
        hnone hseen rfl rfl rfl ?_ ?_ ?_,
      hlinked.send (r := ⟨c.publicationNumber p, source, p.view, patch state⟩) hfree hnone rfl rfl
        rfl rfl, ?_⟩,
      rfl, .inr ⟨⟨c.publicationNumber p, source, p.view, patch state⟩, rfl⟩⟩
    · exact fun id' p' hp' => (herase id' p' hp').2
    · rintro id' q' (⟨p', hp', hq'⟩ | ⟨p', hp', -, -, hunsent⟩)
      · obtain ⟨hne, hold⟩ := herase id' p' hp'
        refine ⟨.inl ⟨p', hold, hq'⟩, hne, ?_⟩
        rintro rfl
        exact hdistinct id' p' (hsub id' p' hold).2 hq'
      · cases hp'
        cases hunsent
    · intro p' hp' _ hunsent
      cases hp'
      cases hunsent
    · refine Journey.drop (c := (c.numberedFor p).submit
        ⟨c.publicationNumber p, source, p.view, patch state⟩ c.seen.length true)
        (hjourney.send state ⟨c.views, ?_, view, hmem, hid, hstate⟩ ?_ ?_ ?_)
        (fun _ _ hp' => hp') rfl rfl rfl rfl
      · simp [numberedFor]
      · intro h
        cases h
      · exact fun capture hcapture _ => h.journey.since capture hcapture
      · exact fun id' p' hp' => (herase id' p' hp').1
  · refine ⟨⟨hnumbered.reserve (p := p) (q := c.publicationNumber p) hle hfree hnone hseen ?_ ?_ rfl rfl
        rfl rfl rfl,
      hlinked.keep rfl rfl rfl rfl rfl rfl,
      hjourney.drop (fun _ _ hp' => hp') rfl rfl rfl rfl⟩, rfl, .inl rfl⟩
    · exact AList.lookup_erase _ _
    · exact fun id' p' hp' => hdistinct id' p' (hsub id' p' hp').2

end Composition

end Lvu.App
