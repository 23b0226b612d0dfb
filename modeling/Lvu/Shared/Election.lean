import Lvu.Machine.Run
import Mathlib.Tactic.FinCases

/-!
# The election of the worker

Processes compete for the owner lock of a capture root; the winner binds the control socket and
serves (`lvu-shared/src/child.rs`, `election.rs`), and windows see to it that somebody does
(`client.rs`).  The kernel gives the lock to one process at a time and takes it back where the
process ends.  The socket is a path: whoever unlinks it unlinks what it names by then.

* `election` : the machine of all processes.
* `Held` : the lock is held by those who are past the election, one at a time.
* `socket_named` : the path names the one who serves, exactly while no late unlink hits it.
* `late_unlink` : a worker that leaves can remove its successor's socket.
-/

namespace Lvu.Shared.Election

/-- `exit::CLEAN`. -/
def clean : ℕ := 0

/-- `exit::INCUMBENT`. -/
def incumbent : ℕ := 3

/-- `exit::SOCKET_BIND`. -/
def socketBind : ℕ := 4

/-- `exit::STARTUP`. -/
def startup : ℕ := 5

/-- Where a process stands. -/
inductive Proc
  | absent
  /-- `run_child`, before `try_take_owner`. -/
  | electing
  /-- The lock was taken. -/
  | refused
  /-- In `owner_is_live`, which found the lock free and has it until it closes the file. -/
  | probing
  | elected
  /-- The stale socket is unlinked. -/
  | cleared
  /-- The socket is bound, the service not open yet. -/
  | bound
  | serving
  /-- `serve` has returned. -/
  | drained
  /-- The lock is released, the socket not yet unlinked. -/
  | released
  /-- With its code, unless it crashed. -/
  | exited (code : Option ℕ)
  /-- `ensure_worker`, before `try_take_owner`. -/
  | trying (spawned : Bool)
  /-- With the guard, which goes at the end of the arm. -/
  | winning (spawned : Bool)
  /-- Before it looks for the socket. -/
  | looking (spawned : Bool)
  | waiting (spawned : Bool)
  /-- In `owner_is_live` at the deadline, with the lock until it closes the file. -/
  | asking
  | returned (found : Bool)
deriving DecidableEq

/-- The process has the owner lock. -/
def Proc.holds : Proc → Bool
  | .probing | .elected | .cleared | .bound | .serving | .drained | .winning _ | .asking => true
  | _ => false

/-- The worker has bound the socket and not finished serving. -/
def Proc.listens : Proc → Bool
  | .bound | .serving => true
  | _ => false

/-- What a process does next. -/
inductive Act
  /-- `try_take_owner`. -/
  | take
  /-- The I/O of the next call fails. -/
  | fail
  /-- `owner_is_live`. -/
  | probe
  /-- The file of `owner_is_live` is closed. -/
  | close
  /-- `remove_file` of the stale socket. -/
  | unlink
  | bind (ok : Bool)
  /-- `WorkerService::open`, and the session resumed. -/
  | openService (ok : Bool)
  /-- `serve` returns. -/
  | stop
  /-- `drop(_owner)`, or the end of the arm that has the guard. -/
  | release
  /-- `remove_file` at the end. -/
  | remove
  /-- `socket_path.exists()`. -/
  | look
  /-- The next round of `ensure_worker`. -/
  | again
  | crash
deriving DecidableEq

variable (owner socket : Option ℕ) (p : ℕ)

/-- A step of `run_child` or `ensure_worker`: where the process stands then, who has the lock and
whose listener the path names. -/
def Proc.step : Proc → Act → Option (Proc × Option ℕ × Option ℕ)
  | .absent, _ | .exited _, _ | .returned _, _ => none
  | proc, .crash => some (.exited none, if proc.holds then none else owner, socket)
  | .electing, .take =>
    if owner = none then some (.elected, some p, socket) else some (.refused, owner, socket)
  | .electing, .fail => some (.exited startup, owner, socket)
  | .refused, .probe =>
    if owner = none then some (.probing, some p, socket)
    else some (.exited incumbent, owner, socket)
  | .refused, .fail => some (.exited startup, owner, socket)
  | .probing, .close => some (.exited startup, none, socket)
  | .elected, .unlink => some (.cleared, owner, none)
  | .cleared, .bind ok =>
    if ok ∧ socket = none then some (.bound, owner, some p)
    else some (.exited socketBind, none, socket)
  | .bound, .openService ok =>
    if ok then some (.serving, owner, socket) else some (.exited startup, none, socket)
  | .serving, .stop => some (.drained, owner, socket)
  | .drained, .release => some (.released, none, socket)
  | .released, .remove => some (.exited clean, owner, none)
  | .trying spawned, .take =>
    if owner = none then some (.winning spawned, some p, socket)
    else some (.looking spawned, owner, socket)
  | .trying _, .fail => some (.returned false, owner, socket)
  -- the guard of a window that has not spawned yet lasts until it has
  | .winning false, .fail => some (.returned false, none, socket)
  | .winning true, .release => some (.looking true, none, socket)
  | .looking spawned, .look =>
    if socket.isSome then some (.returned true, owner, socket)
    else some (.waiting spawned, owner, socket)
  | .waiting spawned, .again => some (.trying spawned, owner, socket)
  | .waiting _, .probe =>
    if owner = none then some (.asking, some p, socket) else some (.returned false, owner, socket)
  | .waiting _, .fail => some (.returned false, owner, socket)
  | .asking, .close => some (.returned false, none, socket)
  | _, _ => none

/-- The lock, the path, and all processes. -/
structure World where
  owner : Option ℕ
  socket : Option ℕ
  procs : ℕ → Proc

/-- Before any process; the path may name a listener that is gone. -/
def World.new (stale : Option ℕ) : World := ⟨none, stale, fun _ => .absent⟩

/-- What may happen next. -/
inductive Event
  /-- A worker is started, by whomever. -/
  | child (p : ℕ)
  /-- A window calls `ensure_worker`. -/
  | ensure (p : ℕ)
  /-- `spawn_child` of a window that won the lock. -/
  | spawn (p q : ℕ)
  | act (p : ℕ) (act : Act)

/-- A process that stands somewhere else. -/
def World.put (w : World) (p : ℕ) (proc : Proc) : World :=
  { w with procs := Function.update w.procs p proc }

@[simp] theorem World.put_owner (w : World) (p : ℕ) (proc : Proc) : (w.put p proc).owner = w.owner := rfl

@[simp] theorem World.put_self (w : World) (p : ℕ) (proc : Proc) : (w.put p proc).procs p = proc :=
  Function.update_self ..

theorem World.put_of_ne (w : World) {p q : ℕ} (h : q ≠ p) (proc : Proc) :
    (w.put p proc).procs q = w.procs q :=
  Function.update_of_ne h ..

/-- The step of an event, where it can happen. -/
def World.next (w : World) : Event → Option World
  | .child p => if w.procs p = .absent then some (w.put p .electing) else none
  | .ensure p => if w.procs p = .absent then some (w.put p (.trying false)) else none
  | .spawn p q =>
    if w.procs p = .winning false ∧ w.procs q = .absent then
      some ((w.put p (.winning true)).put q .electing)
    else none
  | .act p a => do
    let (proc, owner, socket) ← (w.procs p).step w.owner w.socket p a
    some ({ w with owner, socket }.put p proc)

/-- The processes of a capture root. -/
def election : Machine World Event := .ofFun World.next

/-! ### What a step does -/

variable {owner socket p} {proc proc' : Proc} {a : Act} {owner' socket' : Option ℕ}

theorem step_owner (h : proc.step owner socket p a = some (proc', owner', socket')) :
    (owner' = owner ∧ proc'.holds = proc.holds) ∨
      (owner = none ∧ owner' = some p ∧ proc'.holds = true) ∨
      (proc.holds = true ∧ owner' = none ∧ proc'.holds = false) := by
  unfold Proc.step at h
  split at h <;> try split_ifs at h
  all_goals simp only [Option.some.injEq, Prod.mk.injEq, reduceCtorEq] at h
  all_goals obtain ⟨rfl, rfl, rfl⟩ := h
  all_goals simp_all [Proc.holds]

/-- What a step does to the path: nothing, or it clears it or binds it as the owner, or it is the
unlink of a worker that leaves. -/
theorem step_socket (h : proc.step owner socket p a = some (proc', owner', socket')) :
    (a ≠ .remove ∧ socket' = socket ∧ (proc'.listens = true → proc.listens = true)) ∨
      (a ≠ .remove ∧ proc.holds = true ∧ (proc'.listens = true → socket' = some p)) ∨
      (a = .remove ∧ proc = .released ∧ socket' = none ∧ proc'.listens = false) := by
  unfold Proc.step at h
  split at h <;> try split_ifs at h
  all_goals simp only [Option.some.injEq, Prod.mk.injEq, reduceCtorEq] at h
  all_goals obtain ⟨rfl, rfl, rfl⟩ := h
  all_goals simp_all [Proc.holds, Proc.listens]

/-! ### The lock -/

variable {w w' : World} {e : Event} {es : List Event}

/-- The lock is held by the processes that think so, and by nobody else. -/
def Held (w : World) : Prop := ∀ p, w.owner = some p ↔ (w.procs p).holds = true

theorem Held.unique (h : Held w) {p q : ℕ} (hp : (w.procs p).holds = true)
    (hq : (w.procs q).holds = true) : p = q :=
  Option.some.inj (((h p).2 hp).symm.trans ((h q).2 hq))

theorem Held.put (h : Held w) (hsame : proc.holds = (w.procs p).holds) : Held (w.put p proc) := by
  intro q
  rw [World.put_owner]
  by_cases hq : q = p
  · subst hq
    rw [World.put_self, hsame]
    exact h q
  · rw [World.put_of_ne w hq]
    exact h q

theorem held_step (h : Held w) (hst : election.step w e w') : Held w' := by
  simp only [election, Machine.ofFun] at hst
  cases e with
  | child p | ensure p =>
    simp only [World.next] at hst
    split_ifs at hst with hp
    cases hst
    exact h.put (by rw [hp]; rfl)
  | spawn p q =>
    simp only [World.next] at hst
    split_ifs at hst with hpq
    obtain ⟨hp, hq⟩ := hpq
    cases hst
    have hne : q ≠ p := by
      rintro rfl
      rw [hp] at hq
      exact absurd hq (by decide)
    refine Held.put (Held.put h (by rw [hp]; rfl)) ?_
    rw [World.put_of_ne w hne, hq]
    rfl
  | act p a =>
    simp only [World.next, Option.bind_eq_bind, Option.bind_eq_some_iff] at hst
    obtain ⟨⟨proc, owner, socket⟩, hs, hw⟩ := hst
    cases hw
    rcases step_owner hs with ⟨howner, hsame⟩ | ⟨hfree, rfl, hholds⟩ | ⟨hheld, rfl, hgone⟩
    · have howner' : ({ w with owner, socket } : World).owner = w.owner := howner
      refine Held.put (w := { w with owner, socket }) (fun q => ?_) hsame
      rw [howner']
      exact h q
    · -- the lock was free, so nobody else has it
      intro q
      by_cases hq : q = p
      · subst hq
        rw [World.put_self, hholds]
        exact iff_of_true rfl rfl
      · rw [World.put_of_ne _ hq, ← h q, hfree]
        exact iff_of_false (fun he => hq (Option.some.inj he).symm) (by simp)
    · -- its owner gives it up
      intro q
      by_cases hq : q = p
      · subst hq
        rw [World.put_self, hgone]
        exact iff_of_false (by simp) (by simp)
      · rw [World.put_of_ne _ hq]
        exact iff_of_false (by simp) fun hq' => hq (h.unique hq' hheld)

/-! ### The path -/

/-- The path names the worker that listens. -/
def Named (w : World) : Prop := ∀ p, (w.procs p).listens = true → w.socket = some p

/-- No worker removes the socket at its end while another one listens. -/
def Orderly (w : World) : Event → Prop
  | .act _ .remove => ∀ q, ¬ (w.procs q).listens = true
  | _ => True

theorem orderly_of_ne {p : ℕ} (h : a ≠ .remove) : Orderly w (.act p a) := by
  cases a <;> first | exact trivial | exact absurd rfl h

theorem holds_of_listens (h : proc.listens = true) : proc.holds = true := by
  cases proc <;> first | rfl | exact absurd h (by simp [Proc.listens])

theorem Named.put (h : Named w) (hkeep : proc.listens = true → (w.procs p).listens = true) :
    Named (w.put p proc) := by
  intro q hq
  by_cases hqp : q = p
  · subst hqp
    rw [World.put_self] at hq
    exact h q (hkeep hq)
  · rw [World.put_of_ne w hqp] at hq
    exact h q hq

/-- **The path names the worker that listens after a step, exactly if the step is orderly.** -/
theorem named_step (hheld : Held w) (h : Named w) (hst : election.step w e w') :
    Named w' ↔ Orderly w e := by
  simp only [election, Machine.ofFun] at hst
  cases e with
  | child p | ensure p =>
    simp only [World.next] at hst
    split_ifs at hst with hp
    cases hst
    exact ⟨fun _ => trivial, fun _ => h.put fun hl => absurd hl (by decide)⟩
  | spawn p q =>
    simp only [World.next] at hst
    split_ifs at hst with hpq
    cases hst
    exact ⟨fun _ => trivial, fun _ => (h.put fun hl => absurd hl (by decide)).put
      fun hl => absurd hl (by decide)⟩
  | act p a =>
    simp only [World.next, Option.bind_eq_bind, Option.bind_eq_some_iff] at hst
    obtain ⟨⟨proc, owner, socket⟩, hs, hw⟩ := hst
    cases hw
    rcases step_socket hs with ⟨hother, hsame, hkeep⟩ | ⟨hother, hp, hbinds⟩ |
      ⟨rfl, hreleased, hnone, hgone⟩
    · have hnamed : Named { w with owner, socket } := fun q hq => hsame.trans (h q hq)
      exact iff_of_true (hnamed.put hkeep) (orderly_of_ne hother)
    · -- whoever listens has the lock, so it is this one
      refine iff_of_true (fun q hq => ?_) (orderly_of_ne hother)
      by_cases hqp : q = p
      · subst hqp
        rw [World.put_self] at hq
        exact hbinds hq
      · rw [World.put_of_ne _ hqp] at hq
        exact absurd (hheld.unique (holds_of_listens hq) hp) hqp
    · constructor
      · intro hnamed q hq
        have hqp : q ≠ p := by
          rintro rfl
          rw [hreleased] at hq
          exact absurd hq (by decide)
        have hsocket := hnamed q (by rwa [World.put_of_ne _ hqp])
        exact absurd (hnone.symm.trans hsocket) (by simp)
      · intro hnobody q hq
        by_cases hqp : q = p
        · subst hqp
          rw [World.put_self, hgone] at hq
          exact absurd hq (by simp)
        · rw [World.put_of_ne _ hqp] at hq
          exact absurd hq (hnobody q)

theorem held_new (stale : Option ℕ) : Held (.new stale) :=
  fun _ => iff_of_false (by simp [World.new]) (by simp [World.new, Proc.holds])

/-- **The path names the worker that holds the lock and has bound it, until that one has finished
serving**, in every run in which no worker removes the socket at its end while another one
listens; the first step that is not so takes the path from a worker.  No two processes serve. -/
theorem socket_named {stale : Option ℕ} (h : (election.only Orderly).Run (.new stale) es w) :
    Named w ∧ (∀ p q, w.procs p = .serving → w.procs q = .serving → p = q) ∧
      (∀ p, (w.procs p).listens = true → w.owner = some p) ∧
      ∀ e w', election.step w e w' → (Named w' ↔ Orderly w e) := by
  have hheld : Held w := h.of_only.invariant (held_new stale) fun _ _ _ hw hst => held_step hw hst
  have hboth : Held w ∧ Named w := h.invariant_only (I := fun w => Held w ∧ Named w)
    ⟨held_new stale, fun p hp => absurd hp (by simp [World.new, Proc.listens])⟩
    fun _ _ _ hw horderly hst =>
      ⟨held_step hw.1 hst, (named_step hw.1 hw.2 hst).2 horderly⟩
  refine ⟨hboth.2, fun p q hp hq => ?_, fun p hp => (hheld p).2 (holds_of_listens hp),
    fun e w' hst => named_step hheld hboth.2 hst⟩
  exact hheld.unique (by rw [hp]; rfl) (by rw [hq]; rfl)

/-! ### A worker that leaves late -/

/-- A worker serves and stops, and its successor binds before it has removed its socket. -/
def exampleEvents : List Event :=
  [.child 0, .act 0 .take, .act 0 .unlink, .act 0 (.bind true), .act 0 (.openService true),
    .act 0 .stop, .act 0 .release, .child 1, .act 1 .take, .act 1 .unlink, .act 1 (.bind true),
    .act 1 (.openService true)]

theorem socket_named_successor : ∃ w, (election.only Orderly).Run (.new none) exampleEvents w ∧
    Named w := by
  obtain ⟨w, hw, -⟩ : ∃ w, election.Run (.new none) exampleEvents w ∧ True :=
    Machine.exists_run (by decide)
  have hrun : (election.only Orderly).Run (.new none) exampleEvents w :=
    hw.to_only fun w e he => by fin_cases he <;> exact trivial
  exact ⟨w, hrun, (socket_named hrun).1⟩

/-- **A worker that leaves can remove its successor's socket.** -/
theorem late_unlink : ¬ ∀ (stale : Option ℕ) (es : List Event) (w : World),
    election.Run (.new stale) es w → Named w := by
  intro hall
  obtain ⟨w, hw, hnone, hserving⟩ : ∃ w,
      election.Run (.new none) (exampleEvents ++ [Event.act 0 .remove]) w ∧ w.socket = none ∧
      w.procs 1 = .serving := Machine.exists_run (by decide)
  have hnamed := hall none _ w hw 1 (by rw [hserving]; rfl)
  exact absurd (hnone.symm.trans hnamed) (by simp)

end Lvu.Shared.Election
