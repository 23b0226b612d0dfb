import Mathlib.Tactic.Common

/-!
# Fallible state transformers

`bind_eq_ok` takes a sequence that may fail apart, once it has returned.

`EStateM ε σ α` is the shape of an operation on a mutable state that may fail: what it changed
before it failed stays changed.  The `run` lemmas, tagged `simp`, evaluate such operations step
by step; `run_bind_ok` and `run_bind_error` take a sequence apart once its first operation is
known, and `after` is the state left either way.

`Ensures P x Q E` is the rule of pre- and postconditions for them: from a state in `P`, the
operation `x` returns a value and a state in `Q`, or fails and leaves a state in `E`.
-/

namespace Lvu.Outcome

variable {ε σ α β : Type}

/-- A sequence returns what its second operation does, if both return. -/
theorem bind_eq_ok {x : Except ε α} {f : α → Except ε β} {b : β} :
    x >>= f = .ok b ↔ ∃ a, x = .ok a ∧ f a = .ok b := by
  cases x with
  | error e => exact ⟨nofun, fun ⟨_, h, _⟩ => nomatch h⟩
  | ok a => exact ⟨fun h => ⟨a, rfl, h⟩, fun ⟨_, rfl, h⟩ => h⟩

/-- The state an operation leaves, whether it returned or failed. -/
def after : EStateM.Result ε σ α → σ
  | .ok _ s => s
  | .error _ s => s

@[simp] theorem after_ok (a : α) (s : σ) : after (.ok a s : EStateM.Result ε σ α) = s := rfl

@[simp] theorem after_error (e : ε) (s : σ) : after (.error e s : EStateM.Result ε σ α) = s := rfl

/-- An operation whose failure is looked at instead of passed on. -/
def attempt (x : EStateM ε σ α) : EStateM ε σ (Except ε α) := fun s =>
  match x s with
  | .ok a s' => .ok (.ok a) s'
  | .error e s' => .ok (.error e) s'

/-! ### Evaluation -/

@[simp] theorem run_pure (a : α) (s : σ) : (pure a : EStateM ε σ α) s = .ok a s := rfl

@[simp] theorem run_throw (e : ε) (s : σ) : (throw e : EStateM ε σ α) s = .error e s := rfl

@[simp] theorem run_get (s : σ) : (get : EStateM ε σ σ) s = .ok s s := rfl

@[simp] theorem run_set (s s' : σ) : (set s' : EStateM ε σ Unit) s = .ok () s' := rfl

@[simp] theorem run_modify (f : σ → σ) (s : σ) : (modify f : EStateM ε σ Unit) s = .ok () (f s) := rfl

theorem run_bind (x : EStateM ε σ α) (f : α → EStateM ε σ β) (s : σ) :
    (x >>= f) s = match x s with
      | .ok a s' => f a s'
      | .error e s' => .error e s' := rfl

@[simp] theorem run_ite (c : Prop) [Decidable c] (x y : EStateM ε σ α) (s : σ) :
    (if c then x else y) s = if c then x s else y s := by split_ifs <;> rfl

theorem run_bind_ok {x : EStateM ε σ α} {f : α → EStateM ε σ β} {s s' : σ} {a : α}
    (h : x s = .ok a s') : (x >>= f) s = f a s' := by rw [run_bind, h]

theorem run_bind_error {x : EStateM ε σ α} {f : α → EStateM ε σ β} {s s' : σ} {e : ε}
    (h : x s = .error e s') : (x >>= f) s = .error e s' := by rw [run_bind, h]

@[simp] theorem run_pure_bind (a : α) (f : α → EStateM ε σ β) (s : σ) : (pure a >>= f) s = f a s := rfl

@[simp] theorem run_throw_bind (e : ε) (f : α → EStateM ε σ β) (s : σ) :
    (throw e >>= f) s = .error e s := rfl

@[simp] theorem run_get_bind (f : σ → EStateM ε σ β) (s : σ) : (get >>= f) s = f s s := rfl

@[simp] theorem run_set_bind (s s' : σ) (f : Unit → EStateM ε σ β) : (set s' >>= f) s = f () s' := rfl

@[simp] theorem run_modify_bind (g : σ → σ) (f : Unit → EStateM ε σ β) (s : σ) :
    (modify g >>= f) s = f () (g s) := rfl

@[simp] theorem run_ite_bind (c : Prop) [Decidable c] (x y : EStateM ε σ α) (f : α → EStateM ε σ β)
    (s : σ) : ((if c then x else y) >>= f) s = if c then (x >>= f) s else (y >>= f) s := by
  split_ifs <;> rfl

@[simp] theorem run_attempt (x : EStateM ε σ α) (s : σ) : attempt x s = match x s with
    | .ok a s' => .ok (.ok a) s'
    | .error e s' => .ok (.error e) s' := rfl

/-! ### Pre- and postconditions -/

/-- A result is a value and a state in `Q`, or a failure with a state in `E`. -/
def Holds (Q : α → σ → Prop) (E : σ → Prop) : EStateM.Result ε σ α → Prop
  | .ok a s => Q a s
  | .error _ s => E s

@[simp] theorem holds_ok {Q : α → σ → Prop} {E : σ → Prop} {a : α} {s : σ} :
    Holds Q E (.ok a s : EStateM.Result ε σ α) ↔ Q a s := Iff.rfl

@[simp] theorem holds_error {Q : α → σ → Prop} {E : σ → Prop} {e : ε} {s : σ} :
    Holds Q E (.error e s : EStateM.Result ε σ α) ↔ E s := Iff.rfl

theorem Holds.bind {x : EStateM ε σ α} {f : α → EStateM ε σ β} {s : σ} {Q : α → σ → Prop}
    {U : β → σ → Prop} {E : σ → Prop} (hx : Holds Q E (x s))
    (hf : ∀ a s', Q a s' → Holds U E (f a s')) : Holds U E ((x >>= f) s) := by
  cases hr : x s with
  | ok a s' =>
    rw [hr] at hx
    rw [run_bind_ok hr]
    exact hf a s' hx
  | error e s' =>
    rw [hr] at hx
    rw [run_bind_error hr]
    exact hx

/-- From every state in `P`, `x` returns with `Q` or fails with `E`. -/
def Ensures (P : σ → Prop) (x : EStateM ε σ α) (Q : α → σ → Prop) (E : σ → Prop) : Prop :=
  ∀ s, P s → Holds Q E (x s)

/-- `x` keeps `I`, whether it returns or fails. -/
abbrev Keeps (I : σ → Prop) (x : EStateM ε σ α) : Prop := Ensures I x (fun _ => I) I

namespace Ensures

variable {P R : σ → Prop} {x y : EStateM ε σ α} {f : α → EStateM ε σ β} {Q : α → σ → Prop}
  {U : β → σ → Prop} {E : σ → Prop}

theorem pure {a : α} (h : ∀ s, P s → Q a s) : Ensures P (pure a : EStateM ε σ α) Q E := h

theorem throw {e : ε} (h : ∀ s, P s → E s) : Ensures P (throw e : EStateM ε σ α) Q E := h

theorem modify {g : σ → σ} {Q : Unit → σ → Prop} (h : ∀ s, P s → Q () (g s)) :
    Ensures P (modify g : EStateM ε σ Unit) Q E := h

theorem bind (hx : Ensures P x Q E) (hf : ∀ a, Ensures (Q a) (f a) U E) :
    Ensures P (x >>= f) U E :=
  fun s hs => (hx s hs).bind hf

theorem get_bind {f : σ → EStateM ε σ β} (h : ∀ s, P s → Ensures (· = s) (f s) U E) :
    Ensures P (get >>= f) U E :=
  fun s hs => h s hs s rfl

theorem get_bind_any {f : σ → EStateM ε σ β} (h : ∀ s, Ensures P (f s) U E) :
    Ensures P (get >>= f) U E :=
  fun s hs => h s s hs

theorem get_bind_keeps {I : σ → Prop} {f : σ → EStateM ε σ β} (h : ∀ s, Keeps I (f s)) :
    Keeps I (get >>= f) :=
  get_bind_any h

theorem ite {c : Prop} [Decidable c] (hx : c → Ensures P x Q E) (hy : ¬ c → Ensures P y Q E) :
    Ensures P (if c then x else y) Q E := by
  split_ifs with h
  · exact hx h
  · exact hy h

theorem weaken {Q' : α → σ → Prop} {E' : σ → Prop} (h : Ensures P x Q E) (hP : ∀ s, R s → P s)
    (hQ : ∀ a s, Q a s → Q' a s) (hE : ∀ s, E s → E' s) : Ensures R x Q' E' := by
  intro s hs
  have := h s (hP s hs)
  cases hr : x s with
  | ok a s' =>
    rw [hr] at this
    exact hQ a s' this
  | error e s' =>
    rw [hr] at this
    exact hE s' this

theorem attempt (h : Ensures P x Q E) :
    Ensures P (attempt x) (fun r s => Holds Q E (match r with
      | .ok a => .ok a s
      | .error e => .error e s)) R := by
  intro s hs
  have := h s hs
  cases hr : x s with
  | ok a s' | error e s' => simpa [hr] using this

theorem attempt_keeps {I : σ → Prop} (h : Keeps I x) :
    Keeps I (Outcome.attempt x) := by
  refine h.attempt.weaken (fun _ h => h) (fun r s h => ?_) fun _ h => h
  cases r <;> exact h

theorem of_ok (h : Ensures P x Q E) {s s' : σ} {a : α} (hs : P s) (hr : x s = .ok a s') : Q a s' := by
  have := h s hs
  rwa [hr] at this

theorem of_error (h : Ensures P x Q E) {s s' : σ} {e : ε} (hs : P s) (hr : x s = .error e s') :
    E s' := by
  have := h s hs
  rwa [hr] at this

theorem after {I : σ → Prop} (h : Ensures P x (fun _ => I) I) {s : σ} (hs : P s) :
    I (after (x s)) := by
  have := h s hs
  cases hr : x s with
  | ok a s' | error e s' => simpa [hr] using this

end Ensures

end Lvu.Outcome
