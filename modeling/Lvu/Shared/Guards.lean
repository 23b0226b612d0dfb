import Lvu.Machine.Run

/-!
# Election guards and the kernel's lock

A guard of a lock file is a descriptor with the kernel's record lock and an entry in its process'
registry of held paths (`lvu-shared/src/election.rs`).  The lock belongs to the process, and the
kernel drops it when the process closes *any* descriptor on the file.  The registry keeps a process
from opening the file a second time; a drop takes the entry away before it closes the file.

* `guards` : the machine of all calls and guards of all processes on one lock file.
* `Entered` : an entry of the registry belongs to one call or guard.
* `Clean` : no file is closed under a guard.
* `guards_locked` : a guard has the lock, exactly while every close is clean.
* `guard_without_lock` : a drop can take the lock from the next guard.
-/

namespace Lvu.Shared.Guards

/-- `OwnerGuard` or `ViewerGuard`. -/
inductive Kind
  | owner
  | viewer
deriving DecidableEq

/-- What a call returns, unless it is a guard. -/
inductive Answer
  /-- The path is held here. -/
  | held
  /-- The lock is held elsewhere. -/
  | contended
  | failed
  /-- Of `owner_is_live`. -/
  | live (owner : Bool)
deriving DecidableEq

/-- Where a call or a guard stands. -/
inductive Phase
  | absent
  /-- `try_take_owner` or `take_viewer_lock`, before the registry. -/
  | taking (kind : Kind)
  /-- The path is in the registry. -/
  | reserved (kind : Kind)
  /-- The file is open. -/
  | opened (kind : Kind)
  /-- The file could not be opened; the path is still in the registry. -/
  | unopened
  /-- The lock was not taken; the path is still in the registry. -/
  | refused (answer : Answer)
  /-- The path is out of the registry, the file is still open. -/
  | unreserved (answer : Answer)
  | guarding (kind : Kind)
  /-- The guard is dropped: the path is out of the registry, the file is still open. -/
  | dropping
  /-- `owner_is_live`, before the registry. -/
  | asking
  /-- The path was not in the registry. -/
  | unheld
  /-- The file is open. -/
  | probing
  /-- The kernel has answered, the file is still open. -/
  | probed (answer : Answer)
  | returned (answer : Answer)
  | dropped
deriving DecidableEq

/-- What a call does next. -/
inductive Act
  /-- `held.insert`. -/
  | insert
  /-- `held.contains`. -/
  | contains
  /-- `open_lock_file`. -/
  | openFile (ok : Bool)
  /-- `try_record_lock`, where the kernel answers at all. -/
  | lock (ok : Bool)
  /-- `held.remove`. -/
  | remove
  /-- The file is closed. -/
  | close
deriving DecidableEq

/-- The lock after the process has closed a descriptor on the file. -/
def closedBy (locked : Option ℕ) (p : ℕ) : Option ℕ := if locked = some p then none else locked

variable (locked : Option ℕ) (held : Bool) (p : ℕ)

/-- The process can take the lock. -/
def Available : Prop := locked = none ∨ locked = some p

instance : Decidable (Available locked p) := inferInstanceAs (Decidable (_ ∨ _))

/-- A step of a call or a guard: where it stands then, who has the lock and whether the process'
registry has the path. -/
def Phase.step : Phase → Act → Option (Phase × Option ℕ × Bool)
  | .taking kind, .insert =>
    if held then some (.returned .held, locked, held) else some (.reserved kind, locked, true)
  | .reserved kind, .openFile ok =>
    if ok then some (.opened kind, locked, held) else some (.unopened, locked, held)
  | .unopened, .remove => some (.returned .failed, locked, false)
  | .opened kind, .lock ok =>
    if ok then
      if Available locked p then some (.guarding kind, some p, held)
      else some (.refused .contended, locked, held)
    else some (.refused .failed, locked, held)
  | .refused answer, .remove => some (.unreserved answer, locked, false)
  | .unreserved answer, .close => some (.returned answer, closedBy locked p, held)
  -- `drop` of the guard, then of its fields
  | .guarding _, .remove => some (.dropping, locked, false)
  | .dropping, .close => some (.dropped, closedBy locked p, held)
  | .asking, .contains =>
    if held then some (.returned (.live true), locked, held) else some (.unheld, locked, held)
  | .unheld, .openFile ok =>
    if ok then some (.probing, locked, held) else some (.returned .failed, locked, held)
  | .probing, .lock ok =>
    if ok then
      if Available locked p then some (.probed (.live false), some p, held)
      else some (.probed (.live true), locked, held)
    else some (.probed .failed, locked, held)
  | .probed answer, .close => some (.returned answer, closedBy locked p, held)
  | _, _ => none

/-- Who has the lock, and of each process its registry and its calls and guards. -/
structure World where
  locked : Option ℕ
  held : ℕ → Bool
  phases : ℕ → ℕ → Phase

/-- Before any call. -/
def World.new : World := ⟨none, fun _ => false, fun _ _ => .absent⟩

/-- What may happen next. -/
inductive Event
  | take (p a : ℕ) (kind : Kind)
  | ask (p a : ℕ)
  | act (p a : ℕ) (act : Act)
  /-- The process ends; the kernel closes its files. -/
  | exit (p : ℕ)

/-- A call or guard that stands somewhere else. -/
def World.put (w : World) (p a : ℕ) (phase : Phase) : World :=
  { w with phases := Function.update w.phases p (Function.update (w.phases p) a phase) }

@[simp] theorem World.put_held (w : World) (p a : ℕ) (phase : Phase) :
    (w.put p a phase).held = w.held := rfl

theorem World.put_phases (w : World) (p a : ℕ) (phase : Phase) (q b : ℕ) :
    (w.put p a phase).phases q b = if q = p ∧ b = a then phase else w.phases q b := by
  by_cases hq : q = p
  · subst hq
    by_cases hb : b = a
    · subst hb
      simp [World.put]
    · simp [World.put, hb]
  · simp [World.put, hq]

/-- The world after a step of a call or a guard. -/
def World.move (w : World) (p a : ℕ) (phase : Phase) (locked : Option ℕ) (held : Bool) : World :=
  World.put ⟨locked, Function.update w.held p held, w.phases⟩ p a phase

@[simp] theorem World.move_held (w : World) (p a : ℕ) (phase : Phase) (locked : Option ℕ)
    (held : Bool) : (w.move p a phase locked held).held = Function.update w.held p held := rfl

theorem World.move_phases (w : World) (p a : ℕ) (phase : Phase) (locked : Option ℕ) (held : Bool)
    (q b : ℕ) : (w.move p a phase locked held).phases q b =
      if q = p ∧ b = a then phase else w.phases q b :=
  World.put_phases ..

/-- The step of an event, where it can happen. -/
def World.next (w : World) : Event → Option World
  | .take p a kind => if w.phases p a = .absent then some (w.put p a (.taking kind)) else none
  | .ask p a => if w.phases p a = .absent then some (w.put p a .asking) else none
  | .act p a act =>
    ((w.phases p a).step w.locked (w.held p) p act).map fun next =>
      w.move p a next.1 next.2.1 next.2.2
  | .exit p => some ⟨closedBy w.locked p, Function.update w.held p false,
      Function.update w.phases p fun _ => .absent⟩

/-- The calls and guards on a lock file. -/
def guards : Machine World Event := .ofFun World.next

/-! ### What a step does -/

/-- The entry of the registry is that of the call or guard. -/
def Phase.enters : Phase → Bool
  | .reserved _ | .opened _ | .unopened | .refused _ | .guarding _ => true
  | _ => false

def Phase.guards : Phase → Bool
  | .guarding _ => true
  | _ => false

/-- A take that has not returned. -/
def Phase.takes : Phase → Bool
  | .taking _ | .reserved _ | .opened _ | .unopened | .refused _ | .unreserved _ => true
  | _ => false

theorem enters_of_guards {phase : Phase} (h : phase.guards = true) : phase.enters = true := by
  cases phase <;> first | rfl | cases h

variable {locked held p} {phase phase' : Phase} {act : Act} {locked' : Option ℕ} {held' : Bool}

/-- What a step does to the registry: nothing, or it makes an entry where there is none, or it
takes its own away. -/
theorem step_held (h : phase.step locked held p act = some (phase', locked', held')) :
    (held' = held ∧ phase'.enters = phase.enters) ∨
      (held = false ∧ held' = true ∧ phase.enters = false ∧ phase'.enters = true) ∨
      (phase.enters = true ∧ held' = false ∧ phase'.enters = false) := by
  unfold Phase.step at h
  split at h <;> try split_ifs at h
  all_goals simp only [Option.some.injEq, Prod.mk.injEq, reduceCtorEq] at h
  all_goals obtain ⟨rfl, rfl, rfl⟩ := h
  all_goals simp_all [Phase.enters]

theorem step_locked (h : phase.step locked held p act = some (phase', locked', held')) :
    (act ≠ .close ∧ locked' = locked ∧ (phase'.guards = true → phase.guards = true)) ∨
      (act ≠ .close ∧ Available locked p ∧ locked' = some p) ∨
      (act = .close ∧ locked' = closedBy locked p ∧ phase.guards = false ∧
        phase'.guards = false) := by
  unfold Phase.step at h
  split at h <;> try split_ifs at h
  all_goals simp only [Option.some.injEq, Prod.mk.injEq, reduceCtorEq] at h
  all_goals obtain ⟨rfl, rfl, rfl⟩ := h
  all_goals simp_all [Phase.guards]

theorem step_takes (h : phase.step locked held p act = some (phase', locked', held'))
    (htakes : phase.takes = true) (hguards : phase'.guards = false) :
    (if phase'.enters then false else held') = (if phase.enters then false else held) ∧
      (act ≠ .close → locked' = locked) ∧
      (act = .close → ∃ answer, phase = .unreserved answer) := by
  unfold Phase.step at h
  split at h <;> try split_ifs at h
  all_goals simp only [Option.some.injEq, Prod.mk.injEq, reduceCtorEq] at h
  all_goals obtain ⟨rfl, rfl, rfl⟩ := h
  all_goals simp_all [Phase.guards, Phase.takes, Phase.enters]

/-! ### The registry -/

variable {w w' : World} {e : Event} {es : List Event}

/-- A process' registry has the path exactly if one of its calls or guards entered it, and only one
did. -/
def Entered (w : World) : Prop :=
  ∀ p, (w.held p = true ↔ ∃ a, (w.phases p a).enters = true) ∧
    ∀ a b, (w.phases p a).enters = true → (w.phases p b).enters = true → a = b

theorem Entered.put (h : Entered w) {p a : ℕ} (hbefore : (w.phases p a).enters = phase.enters) :
    Entered (w.put p a phase) := by
  have hsame (q b : ℕ) : ((w.put p a phase).phases q b).enters = (w.phases q b).enters := by
    rw [World.put_phases]
    split_ifs with hqb
    · rw [hqb.1, hqb.2, hbefore]
    · rfl
  intro q
  simp only [hsame, World.put_held]
  exact h q

theorem closedBy_ne (locked : Option ℕ) (p : ℕ) : closedBy locked p ≠ some p := by
  unfold closedBy
  split_ifs with h
  · exact Option.some_ne_none p ∘ Eq.symm
  · exact h

theorem closedBy_of_ne {locked : Option ℕ} {p : ℕ} (h : locked ≠ some p) :
    closedBy locked p = locked := if_neg h

theorem entered_step (h : Entered w) (hst : guards.step w e w') : Entered w' := by
  simp only [guards, Machine.ofFun] at hst
  cases e with
  | take p a kind | ask p a =>
    simp only [World.next] at hst
    split_ifs at hst with ha
    cases hst
    exact h.put (by rw [ha]; rfl)
  | exit p =>
    cases hst
    intro q
    by_cases hq : q = p
    · subst hq
      simp [Phase.enters]
    · simpa [hq] using h q
  | act p a act =>
    simp only [World.next, Option.map_eq_some_iff] at hst
    obtain ⟨⟨phase, locked, held⟩, hs, rfl⟩ := hst
    intro q
    by_cases hq : q ≠ p
    · simpa [World.move_phases, hq] using h q
    obtain rfl := not_not.1 hq
    simp only [World.move_phases, true_and, World.move_held, Function.update_self]
    obtain ⟨hheld, hone⟩ := h q
    rcases step_held hs with ⟨rfl, hsame⟩ | ⟨hfree, rfl, hbefore, hafter⟩ | ⟨hbefore, rfl, hafter⟩
    · have hall (b : ℕ) :
          (if b = a then phase else w.phases q b).enters = (w.phases q b).enters := by
        split_ifs with hb
        · rw [hb, hsame]
        · rfl
      simp only [hall]
      exact ⟨hheld, hone⟩
    · -- nobody else has an entry
      have hnone (b : ℕ) : (w.phases q b).enters ≠ true := fun hb => by
        rw [hheld.2 ⟨b, hb⟩] at hfree
        cases hfree
      have honly (b : ℕ) (hb : (if b = a then phase else w.phases q b).enters = true) : b = a := by
        by_contra hne
        rw [if_neg hne] at hb
        exact hnone b hb
      exact ⟨iff_of_true rfl ⟨a, by rw [if_pos rfl, hafter]⟩,
        fun b c hb hc => (honly b hb).trans (honly c hc).symm⟩
    · -- the entry was its own
      have hnone (b : ℕ) : (if b = a then phase else w.phases q b).enters ≠ true := fun hb => by
        split_ifs at hb with hba
        · rw [hafter] at hb
          cases hb
        · exact hba (hone b a hb hbefore)
      exact ⟨iff_of_false Bool.false_ne_true (not_exists.2 hnone),
        fun b _ hb => absurd hb (hnone b)⟩

/-! ### The lock -/

/-- A process with a guard has the lock. -/
def Guarded (w : World) : Prop := ∀ p a, (w.phases p a).guards = true → w.locked = some p

/-- The registries without an entry of the call. -/
def World.without (w : World) (p a : ℕ) : ℕ → Bool :=
  if (w.phases p a).enters then Function.update w.held p false else w.held

/-- A step of a take that gives no guard leaves the lock, and the registries but for its own
reservation. -/
def Restored (w : World) (e : Event) (w' : World) : Prop :=
  ∀ p a act, e = .act p a act → (w.phases p a).takes = true → (w'.phases p a).guards = false →
    w'.locked = w.locked ∧ w'.without p a = w.without p a

/-- A close is clean: the process has no guard then, and if it is the close of a take that failed,
it has not the lock either. -/
def Clean (w : World) : Event → Prop
  | .act p a .close => (∀ b, (w.phases p b).guards = false) ∧
      ∀ answer, w.phases p a = .unreserved answer → w.locked ≠ some p
  | _ => True

theorem clean_of_ne {p a : ℕ} (h : act ≠ .close) : Clean w (.act p a act) := by
  cases act <;> first | exact trivial | exact absurd rfl h

theorem Guarded.put (h : Guarded w) {p a : ℕ} (hphase : phase.guards = false) :
    Guarded (w.put p a phase) := by
  intro q b hb
  rw [World.put_phases] at hb
  split_ifs at hb with hqb
  · rw [hphase] at hb
    cases hb
  · exact h q b hb

theorem without_step {p a : ℕ} {locked : Option ℕ}
    (h : (if phase.enters then false else held) =
      if (w.phases p a).enters then false else w.held p) :
    (w.move p a phase locked held).without p a = w.without p a := by
  have hself : (w.move p a phase locked held).phases p a = phase := by
    rw [World.move_phases]
    exact if_pos ⟨rfl, rfl⟩
  funext q
  unfold World.without
  rw [hself, World.move_held]
  by_cases hq : q = p
  · subst hq
    cases hafter : phase.enters <;> cases hbefore : (w.phases q a).enters <;>
      simp_all [Function.update_self]
  · split_ifs <;> simp [hq]

/-- **A guard has the lock after a step, and a take that fails restores what it changed, exactly if
the step is clean.** -/
theorem guarded_step (h : Guarded w) (hst : guards.step w e w') :
    Guarded w' ∧ Restored w e w' ↔ Clean w e := by
  simp only [guards, Machine.ofFun] at hst
  cases e with
  | take p a kind | ask p a =>
    simp only [World.next] at hst
    split_ifs at hst with ha
    cases hst
    exact iff_of_true ⟨h.put rfl, fun _ _ _ he => by cases he⟩ trivial
  | exit p =>
    cases hst
    refine iff_of_true ⟨fun q b hb => ?_, fun _ _ _ he => by cases he⟩ trivial
    by_cases hq : q = p
    · subst hq
      simp [Phase.guards] at hb
    · simp only [Function.update_of_ne hq] at hb
      have hlocked := h q b hb
      rw [closedBy_of_ne (by rw [hlocked]; exact fun heq => hq (Option.some.inj heq)), hlocked]
  | act p a act =>
    simp only [World.next, Option.map_eq_some_iff] at hst
    obtain ⟨⟨phase, locked, held⟩, hs, rfl⟩ := hst
    have hphases := w.move_phases p a phase locked held
    -- what a take leaves, as far as the lock goes
    have hrestored (hlocked : (w.phases p a).takes = true → phase.guards = false →
        locked = w.locked) : Restored w (.act p a act) (w.move p a phase locked held) := by
      rintro q b act' heq htakes hguards
      obtain ⟨rfl, rfl, rfl⟩ : p = q ∧ a = b ∧ act = act' := by
        injection heq with hp ha hact
        exact ⟨hp, ha, hact⟩
      rw [hphases, if_pos ⟨rfl, rfl⟩] at hguards
      exact ⟨hlocked htakes hguards, without_step (step_takes hs htakes hguards).1⟩
    rcases step_locked hs with ⟨hother, rfl, hkeep⟩ | ⟨hother, havailable, rfl⟩ |
      ⟨rfl, rfl, hbefore, hafter⟩
    · refine iff_of_true ⟨fun q b hb => ?_, hrestored fun _ _ => rfl⟩ (clean_of_ne hother)
      rw [hphases] at hb
      split_ifs at hb with hqb
      · obtain ⟨rfl, rfl⟩ := hqb
        exact h _ _ (hkeep hb)
      · exact h q b hb
    · refine iff_of_true ⟨fun q b hb => ?_, hrestored fun htakes hguards =>
        (step_takes hs htakes hguards).2.1 hother⟩ (clean_of_ne hother)
      rw [hphases] at hb
      split_ifs at hb with hqb
      · rw [hqb.1]
        rfl
      · -- whoever has a guard has the lock, so it is this process
        rcases havailable with hfree | hown
        · rw [h q b hb] at hfree
          cases hfree
        · exact hown.symm.trans (h q b hb)
    · constructor
      · rintro ⟨hguarded, hrestores⟩
        refine ⟨fun b => ?_, fun answer hanswer hlocked => ?_⟩
        · by_contra hguards
          rw [Bool.not_eq_false] at hguards
          have hb : b ≠ a := by
            rintro rfl
            rw [hbefore] at hguards
            cases hguards
          refine closedBy_ne w.locked p (hguarded p b ?_)
          rw [hphases, if_neg fun hqb => hb hqb.2]
          exact hguards
        · have hsame := (hrestores p a .close rfl (by rw [hanswer]; rfl)
            (by rw [hphases, if_pos ⟨rfl, rfl⟩]; exact hafter)).1
          exact closedBy_ne w.locked p (hsame.trans hlocked)
      · rintro ⟨hnone, htake⟩
        refine ⟨fun q b hb => ?_, hrestored fun htakes hguards => ?_⟩
        · rw [hphases] at hb
          split_ifs at hb with hqb
          · rw [hafter] at hb
            cases hb
          · have hqp : q ≠ p := by
              rintro rfl
              rw [hnone b] at hb
              cases hb
            have hlocked := h q b hb
            have hother : w.locked ≠ some p := by
              rw [hlocked]
              exact fun heq => hqp (Option.some.inj heq)
            exact (closedBy_of_ne hother).trans hlocked
        · obtain ⟨answer, hanswer⟩ := (step_takes hs htakes hguards).2.2 rfl
          exact closedBy_of_ne (htake answer hanswer)

theorem entered_new : Entered .new := fun p =>
  ⟨iff_of_false Bool.false_ne_true (by simp [World.new, Phase.enters]),
    fun a b ha => absurd ha (by simp [World.new, Phase.enters])⟩

/-- **A guard has the lock**, in every run in which no file is closed under a guard; the first step
that is not so takes the lock from a guard, or leaves a trace of a take that failed.  A process has
one guard at most, and of all processes one has. -/
theorem guards_locked (h : (guards.only Clean).Run .new es w) :
    Guarded w ∧ Entered w ∧
      (∀ p q a b, w.phases p a = .guarding .owner → w.phases q b = .guarding .owner →
        p = q ∧ a = b) ∧
      ∀ e w', guards.step w e w' → (Guarded w' ∧ Restored w e w' ↔ Clean w e) := by
  have hentered : Entered w :=
    h.of_only.invariant entered_new fun _ _ _ hw hst => entered_step hw hst
  have hguarded : Guarded w := h.invariant_only (I := Guarded)
    (fun p a ha => absurd ha (by simp [World.new, Phase.guards]))
    fun _ _ _ hw hclean hst => ((guarded_step hw hst).2 hclean).1
  refine ⟨hguarded, hentered, fun p q a b hp hq => ?_, fun e w' hst => guarded_step hguarded hst⟩
  obtain rfl : p = q := Option.some.inj
    ((hguarded p a (by rw [hp]; rfl)).symm.trans (hguarded q b (by rw [hq]; rfl)))
  exact ⟨rfl, (hentered p).2 a b (by rw [hp]; rfl) (by rw [hq]; rfl)⟩

theorem clean_of_not_held (h : Entered w) {p a : ℕ} (hheld : w.held p = false)
    (hphase : ∀ answer, w.phases p a ≠ .unreserved answer) : Clean w (.act p a .close) := by
  refine ⟨fun b => ?_, fun answer hanswer => absurd hanswer (hphase answer)⟩
  by_contra hguards
  rw [Bool.not_eq_false] at hguards
  rw [(h p).1.2 ⟨b, enters_of_guards hguards⟩] at hheld
  cases hheld

/-! ### A drop under a take -/

/-- What a take does until it has its guard. -/
def taken (p a : ℕ) : List Event :=
  [.take p a .owner, .act p a .insert, .act p a (.openFile true), .act p a (.lock true)]

/-- A guard is dropped, and then another take of the process gets one. -/
def exampleEvents : List Event :=
  taken 0 0 ++ [Event.act 0 0 .remove] ++ [Event.act 0 0 .close] ++ taken 0 1

/-- Another thread takes the path between the two steps of the drop; then another process does. -/
def overlappingEvents : List Event :=
  taken 0 0 ++ [Event.act 0 0 .remove] ++ taken 0 1 ++ [Event.act 0 0 .close] ++ taken 1 0

theorem clean_of_mem {p a q b : ℕ} {e : Event}
    (he : e ∈ taken p a ++ [Event.act q b .remove]) : Clean w e := by
  simp only [taken, List.cons_append, List.nil_append, List.mem_cons, List.not_mem_nil,
    or_false] at he
  rcases he with rfl | rfl | rfl | rfl | rfl <;> exact trivial

theorem guards_locked_example : ∃ w, (guards.only Clean).Run .new exampleEvents w ∧ Guarded w := by
  obtain ⟨m, hm, hheld, hphase, hnext⟩ : ∃ m : World,
      guards.Run .new (taken 0 0 ++ [Event.act 0 0 .remove]) m ∧ m.held 0 = false ∧
      m.phases 0 0 = .dropping ∧ ((m.next (.act 0 0 .close)).bind fun m =>
        (taken 0 1).foldlM World.next m).isSome = true := Machine.exists_run (by decide)
  have hrun : (guards.only Clean).Run .new _ m := hm.to_only fun _ _ he => clean_of_mem he
  have hentered : Entered m :=
    hrun.of_only.invariant entered_new fun _ _ _ hw hst => entered_step hw hst
  have hclean : Clean m (.act 0 0 .close) :=
    clean_of_not_held hentered hheld fun answer hanswer => by rw [hphase] at hanswer; cases hanswer
  obtain ⟨w, hw⟩ := Option.isSome_iff_exists.1 hnext
  obtain ⟨m', hclose, htake⟩ := Option.bind_eq_some_iff.1 hw
  have hall : (guards.only Clean).Run .new exampleEvents w := (hrun.snoc ⟨hclean, hclose⟩).append
    ((Machine.run_ofFun.2 htake).to_only fun _ _ he =>
      @clean_of_mem _ 0 1 0 0 _ (List.mem_append_left _ he))
  exact ⟨w, hall, (guards_locked hall).1⟩

/-- **A drop can take the lock from the next guard**: two processes have one then. -/
theorem guard_without_lock : ¬ ∀ (es : List Event) (w : World), guards.Run .new es w →
    Guarded w ∧ ∀ p q a b, w.phases p a = .guarding .owner → w.phases q b = .guarding .owner →
      p = q := by
  intro hall
  obtain ⟨w, hw, hfirst, hsecond⟩ : ∃ w, guards.Run .new overlappingEvents w ∧
      w.phases 0 1 = .guarding .owner ∧ w.phases 1 0 = .guarding .owner :=
    Machine.exists_run (by decide)
  have hsame := (hall _ w hw).2 0 1 1 0 hfirst hsecond
  exact absurd hsame (by decide)

end Lvu.Shared.Guards
