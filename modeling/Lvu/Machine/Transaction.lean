import Mathlib.Data.List.Basic

/-!
# Statements and transactions

Programs of statements over tables `S`.  A statement is carried out whole or not at all; what
befalls the statements of a program, in order, is a list of faults, and nothing befalls those after
its end.  A program may stop with an error, or the process may be killed.

* `transaction_stopped` : a transaction that stops leaves the tables as they were.
* `allOrNothing_bind_iff` : a program that goes on after a change must not stop any more.
* `Keeps` : what a program keeps, whatever befalls it.
* `Local` : what a program does is decided by the faults that it sees.
* `follows_savepoint` : a savepoint whose own statements go well is a transaction of its own.
-/

namespace Lvu

open List

/-- What befalls a statement. -/
inductive Fault (E : Type)
  | none
  | error (e : E)
  | kill
deriving DecidableEq

/-- Why a program stops. -/
inductive Stop (E : Type)
  | error (e : E)
  | killed

/-- What a program returns, the tables it leaves, and the faults that are left. -/
abbrev Ran (S E A : Type) := Except (Stop E) A × S × List (Fault E)

/-- A program of statements. -/
def Prog (S E A : Type) := S → List (Fault E) → Ran S E A

namespace Prog

variable {S E A B : Type}

instance : Monad (Prog S E) where
  pure a := fun s fs => (.ok a, s, fs)
  bind p q := fun s fs =>
    match p s fs with
    | (.ok a, s', fs') => q a s' fs'
    | (.error stop, s', fs') => (.error stop, s', fs')

/-- The check of a value, outside the tables. -/
def check (x : Except E A) : Prog S E A := fun s fs =>
  match x with
  | .ok a => (.ok a, s, fs)
  | .error e => (.error (.error e), s, fs)

/-- One statement. -/
def statement (f : S → Except E (A × S)) : Prog S E A := fun s fs =>
  match fs with
  | .error e :: rest => (.error (.error e), s, rest)
  | .kill :: rest => (.error .killed, s, rest)
  | _ =>
    match f s with
    | .ok (a, s') => (.ok a, s', fs.tail)
    | .error e => (.error (.error e), s, fs.tail)

/-- A statement that writes and returns nothing. -/
def write (f : S → S) : Prog S E Unit := statement fun s => .ok ((), f s)

/-- A statement of a transaction itself: `BEGIN`, `COMMIT`, `SAVEPOINT`, `RELEASE`, `ROLLBACK TO`. -/
def mark : Prog S E Unit := write id

/-- The program in a transaction: what it wrote is rolled back when it stops, or when the commit
does not go through. -/
def transaction (p : Prog S E A) : Prog S E A := fun s fs =>
  match mark s fs with
  | (.error stop, _, fs') => (.error stop, s, fs')
  | (.ok _, _, fs') =>
    match (do
      let a ← p
      mark
      return a : Prog S E A) s fs' with
    | (.ok a, s', fs'') => (.ok a, s', fs'')
    | (.error stop, _, fs'') => (.error stop, s, fs'')

/-- The program at a savepoint of a transaction: its error is returned, and what it wrote is undone. -/
def savepoint (p : Prog S E A) : Prog S E (Except E A) := fun s fs =>
  match mark s fs with
  | (.error stop, _, fs') => (.error stop, s, fs')
  | (.ok _, _, fs') =>
    match p s fs' with
    | (.ok a, s', fs'') =>
      match mark s' fs'' with
      | (.ok _, _, rest) => (.ok (.ok a), s', rest)
      | (.error stop, _, rest) => (.error stop, s', rest)
    | (.error (.error e), s', fs'') =>
      match mark s' fs'' with
      | (.ok _, _, rest) => (.ok (.error e), s, rest)
      | (.error stop, _, rest) => (.error stop, s', rest)
    | (.error .killed, s', fs'') => (.error .killed, s', fs'')

/-- The error of the program is returned. -/
def attempt (p : Prog S E A) : Prog S E (Except E A) := fun s fs =>
  match p s fs with
  | (.ok a, s', fs') => (.ok (.ok a), s', fs')
  | (.error (.error e), s', fs') => (.ok (.error e), s', fs')
  | (.error .killed, s', fs') => (.error .killed, s', fs')

/-- Programs one after the other. -/
def sequence : List (Prog S E A) → Prog S E (List A)
  | [] => pure []
  | p :: ps => do
    let a ← p
    let as ← sequence ps
    return a :: as

/-! ### What they do -/

variable {p : Prog S E A} {q : A → Prog S E B} {s s' : S} {fs fs' : List (Fault E)}

@[simp] theorem pure_apply (a : A) : (pure a : Prog S E A) s fs = (.ok a, s, fs) := rfl

variable {a : A} {stop : Stop E} {f : S → Except E (A × S)}

theorem bind_of_ok (h : p s fs = (.ok a, s', fs')) : (p >>= q) s fs = q a s' fs' := by
  change (match p s fs with
    | (.ok a, s', fs') => q a s' fs'
    | (.error stop, s', fs') => (.error stop, s', fs')) = _
  rw [h]

theorem bind_of_error (h : p s fs = (.error stop, s', fs')) :
    (p >>= q) s fs = (.error stop, s', fs') := by
  change (match p s fs with
    | (.ok a, s', fs') => q a s' fs'
    | (.error stop, s', fs') => (.error stop, s', fs')) = _
  rw [h]

@[simp] theorem check_ok (a : A) : (check (.ok a) : Prog S E A) s fs = (.ok a, s, fs) := rfl

@[simp] theorem check_error (e : E) : (check (.error e) : Prog S E A) s fs = (.error (.error e), s, fs) :=
  rfl

theorem statement_of_none (h : ∀ x ∈ fs.head?, x = .none) :
    statement f s fs =
      match f s with
      | .ok (a, s') => (.ok a, s', fs.tail)
      | .error e => (.error (.error e), s, fs.tail) := by
  cases fs with
  | nil => rfl
  | cons x fs =>
    obtain rfl := h x rfl
    rfl

theorem statement_of_fault (f : S → Except E (A × S)) {x : Fault E} (fs : List (Fault E)) (h : x ≠ .none) :
    ∃ stop, ∀ s : S, statement f s (x :: fs) = (.error stop, s, fs) := by
  cases x with
  | none => exact absurd rfl h
  | error e => exact ⟨.error e, fun _ => rfl⟩
  | kill => exact ⟨.killed, fun _ => rfl⟩

theorem fault_of_not_none (h : ¬ ∀ x ∈ fs.head?, x = Fault.none) :
    ∃ x rest, fs = x :: rest ∧ x ≠ .none := by
  cases fs with
  | nil => exact absurd (fun _ hx => by cases hx) h
  | cons x rest => exact ⟨x, rest, rfl, fun heq => h fun y hy => Option.some.inj hy ▸ heq⟩

theorem statement_stopped (h : (statement f s fs).1 = .error stop) :
    (statement f s fs).2.1 = s := by
  by_cases hnone : ∀ x ∈ fs.head?, x = Fault.none
  · rw [statement_of_none hnone] at h ⊢
    cases hf : f s with
    | error e => rfl
    | ok r =>
      rw [hf] at h
      cases h
  · obtain ⟨x, fs, rfl, hx⟩ := fault_of_not_none hnone
    obtain ⟨stop, hstop⟩ := statement_of_fault f fs hx
    rw [hstop]

/-- **A transaction that stops leaves the tables as they were.** -/
theorem transaction_stopped (h : (transaction p s fs).1 = .error stop) :
    (transaction p s fs).2.1 = s := by
  unfold transaction at h ⊢
  split
  · rfl
  · rename_i hmark
    rw [hmark] at h
    dsimp only at h
    split
    · rename_i hp
      rw [hp] at h
      cases h
    · rfl

/-! ### Runs that end -/

theorem bind_ended {b : B} (h : (p >>= q) s fs = (.ok b, s', fs')) :
    ∃ a s₁ fs₁, p s fs = (.ok a, s₁, fs₁) ∧ q a s₁ fs₁ = (.ok b, s', fs') := by
  cases hp : p s fs with
  | mk result rest =>
    obtain ⟨s₁, fs₁⟩ := rest
    cases result with
    | ok a => exact ⟨a, s₁, fs₁, rfl, by rwa [bind_of_ok hp] at h⟩
    | error stop =>
      rw [bind_of_error hp] at h
      cases h

theorem attempt_ended {r : Except E A} (h : attempt p s fs = (.ok r, s', fs')) :
    (∃ a, r = .ok a ∧ p s fs = (.ok a, s', fs')) ∨ ∃ e, r = .error e ∧ p s fs = (.error (.error e), s', fs') := by
  unfold attempt at h
  cases hp : p s fs with
  | mk result rest =>
    rw [hp] at h
    cases result with
    | ok a =>
      cases h
      exact .inl ⟨a, rfl, rfl⟩
    | error stop =>
      cases stop with
      | killed => cases h
      | error e =>
        cases h
        exact .inr ⟨e, rfl, rfl⟩

/-! ### Programs whose stop changes nothing -/

/-- When the program stops, the tables are as they were. -/
def AllOrNothing (p : Prog S E A) (s : S) (fs : List (Fault E)) : Prop :=
  ∀ stop, (p s fs).1 = .error stop → (p s fs).2.1 = s

theorem allOrNothing_of_ok (h : (p s fs).1 = .ok a) : AllOrNothing p s fs := fun stop hstop => by
  rw [h] at hstop
  cases hstop

theorem allOrNothing_check (x : Except E A) : AllOrNothing (check x) s fs := fun stop _ => by
  cases x <;> rfl

theorem allOrNothing_statement (f : S → Except E (A × S)) : AllOrNothing (statement f) s fs :=
  fun _ => statement_stopped

theorem allOrNothing_transaction (p : Prog S E A) : AllOrNothing (transaction p) s fs :=
  fun _ => transaction_stopped

theorem allOrNothing_bind (hp : AllOrNothing p s fs)
    (hq : ∀ a s' fs', p s fs = (.ok a, s', fs') → s' = s ∧ AllOrNothing (q a) s fs') :
    AllOrNothing (p >>= q) s fs := by
  intro stop hstop
  cases hrun : p s fs with
  | mk result rest =>
    obtain ⟨s', fs'⟩ := rest
    cases result with
    | ok a =>
      obtain ⟨rfl, hq⟩ := hq a s' fs' hrun
      rw [bind_of_ok hrun] at hstop ⊢
      exact hq stop hstop
    | error stop' =>
      have hs := hp stop' (by rw [hrun])
      rw [hrun] at hs
      rw [bind_of_error hrun]
      exact hs

/-- **A program that goes on after a change must not stop any more.** -/
theorem allOrNothing_bind_iff (hp : AllOrNothing p s fs)
    (hq : ∀ a s' fs', p s fs = (.ok a, s', fs') → (q a s' fs').2.1 ≠ s) :
    AllOrNothing (p >>= q) s fs ↔
      ∀ a s' fs', p s fs = (.ok a, s', fs') → ∃ b, (q a s' fs').1 = .ok b := by
  constructor
  · intro h a s' fs' hrun
    cases hresult : (q a s' fs').1 with
    | ok b => exact ⟨b, rfl⟩
    | error stop =>
      refine absurd ?_ (hq a s' fs' hrun)
      have hs := h stop (by rw [bind_of_ok hrun, hresult])
      rwa [bind_of_ok hrun] at hs
  · intro h stop hstop
    cases hrun : p s fs with
    | mk result rest =>
      obtain ⟨s', fs'⟩ := rest
      cases result with
      | ok a =>
        obtain ⟨b, hb⟩ := h a s' fs' hrun
        rw [bind_of_ok hrun, hb] at hstop
        cases hstop
      | error stop' =>
        have hs := hp stop' (by rw [hrun])
        rw [hrun] at hs
        rw [bind_of_error hrun]
        exact hs

theorem allOrNothing_of_read (h : p s fs = (.ok a, s, fs')) :
    AllOrNothing (p >>= q) s fs ↔ AllOrNothing (q a) s fs' := by
  rw [AllOrNothing, AllOrNothing, bind_of_ok h]

theorem allOrNothing_of_stopped (h : p s fs = (.error stop, s, fs')) :
    AllOrNothing (p >>= q) s fs := fun _ _ => by
  rw [bind_of_error h]

theorem allOrNothing_bind_pure (b : A → B) :
    AllOrNothing (p >>= fun a => (pure (b a) : Prog S E B)) s fs ↔ AllOrNothing p s fs := by
  cases hrun : p s fs with
  | mk result rest =>
    obtain ⟨s', fs'⟩ := rest
    cases result with
    | ok a =>
      refine iff_of_true ?_ (allOrNothing_of_ok (by rw [hrun]))
      exact allOrNothing_of_ok (by rw [bind_of_ok hrun]; rfl)
    | error stop =>
      rw [AllOrNothing, AllOrNothing, bind_of_error hrun, hrun]
      exact ⟨fun h _ _ => h stop rfl, fun h _ _ => h stop rfl⟩

/-! ### What programs keep -/

/-- The program keeps what holds of the tables, whatever befalls it. -/
def Keeps (I : S → Prop) (p : Prog S E A) : Prop := ∀ s fs, I s → I (p s fs).2.1

variable {I : S → Prop}

theorem keeps_pure (a : A) : Keeps I (pure a : Prog S E A) := fun _ _ h => h

theorem keeps_check (x : Except E A) : Keeps I (check x : Prog S E A) := fun _ _ h => by
  cases x <;> exact h

theorem keeps_statement (h : ∀ s a s', I s → f s = .ok (a, s') → I s') : Keeps I (statement f) := by
  intro s fs hs
  by_cases hnone : ∀ x ∈ fs.head?, x = Fault.none
  · rw [statement_of_none hnone]
    cases hf : f s with
    | error e => exact hs
    | ok r => exact h s r.1 r.2 hs hf
  · obtain ⟨x, fs, rfl, hx⟩ := fault_of_not_none hnone
    obtain ⟨stop, hstop⟩ := statement_of_fault f fs hx
    rw [hstop]
    exact hs

theorem keeps_write {f : S → S} (h : ∀ s, I s → I (f s)) : Keeps I (write f : Prog S E Unit) :=
  keeps_statement fun s _ s' hs heq => by
    cases heq
    exact h s hs

theorem Keeps.bind (hp : Keeps I p) (hq : ∀ a, Keeps I (q a)) : Keeps I (p >>= q) := by
  intro s fs hs
  cases hrun : p s fs with
  | mk result rest =>
    obtain ⟨s', fs'⟩ := rest
    have hs' := hp s fs hs
    rw [hrun] at hs'
    cases result with
    | ok a =>
      rw [bind_of_ok hrun]
      exact hq a s' fs' hs'
    | error stop =>
      rw [bind_of_error hrun]
      exact hs'

theorem keeps_mark : Keeps I (mark : Prog S E Unit) := keeps_write fun _ h => h

theorem Keeps.transaction (hp : Keeps I p) : Keeps I (transaction p) := by
  intro s fs hs
  have hbody : Keeps I (do
      let a ← p
      mark
      return a : Prog S E A) := hp.bind fun a => keeps_mark.bind fun _ => keeps_pure a
  unfold Prog.transaction
  split
  · exact hs
  · rename_i fs' _
    have hs' := hbody s fs' hs
    split
    · rename_i hrun
      rwa [hrun] at hs'
    · exact hs

theorem Keeps.savepoint (hp : Keeps I p) : Keeps I (savepoint p) := by
  intro s fs hs
  unfold Prog.savepoint
  split
  · exact hs
  · rename_i fs' _
    have hs' := hp s fs' hs
    split
    · rename_i hrun
      rw [hrun] at hs'
      split <;> exact hs'
    · rename_i hrun
      rw [hrun] at hs'
      split
      · exact hs
      · exact hs'
    · rename_i hrun
      rwa [hrun] at hs'

theorem Keeps.attempt (hp : Keeps I p) : Keeps I (attempt p) := by
  intro s fs hs
  have hs' := hp s fs hs
  unfold Prog.attempt
  split <;> rename_i hrun <;> rwa [hrun] at hs'

theorem keeps_sequence {ps : List (Prog S E A)} (h : ∀ p ∈ ps, Keeps I p) : Keeps I (sequence ps) := by
  induction ps with
  | nil => exact keeps_pure []
  | cons p ps ih =>
    refine (h p mem_cons_self).bind fun a => ?_
    exact (ih fun q hq => h q (mem_cons_of_mem _ hq)).bind fun as => keeps_pure _

/-! ### What a program sees of the faults -/

/-- A program sees some of the faults, and does the same whatever comes after them. -/
def Local (p : Prog S E A) : Prop := ∀ s fs, ∃ seen, (∀ x ∈ seen, x ∈ fs ∨ x = .none) ∧
  (∀ x ∈ (p s fs).2.2, x ∈ fs) ∧ ∀ rest, p s (seen ++ rest) = ((p s fs).1, (p s fs).2.1, rest)

theorem local_pure (a : A) : Local (pure a : Prog S E A) := fun _ _ =>
  ⟨[], by simp, fun _ h => h, fun _ => rfl⟩

theorem local_check (x : Except E A) : Local (check x : Prog S E A) := by
  intro s fs
  cases x <;> exact ⟨[], by simp, fun _ h => h, fun _ => rfl⟩

theorem local_statement (f : S → Except E (A × S)) : Local (statement f) := by
  intro s fs
  by_cases hnone : ∀ x ∈ fs.head?, x = Fault.none
  · refine ⟨[.none], by simp, ?_, fun rest => ?_⟩
    · rw [statement_of_none hnone]
      cases f s <;> exact fun x hx => mem_of_mem_tail hx
    · rw [statement_of_none hnone, statement_of_none fun x hx => by cases hx; rfl]
      cases f s <;> rfl
  · obtain ⟨x, fs, rfl, hx⟩ := fault_of_not_none hnone
    refine ⟨[x], by simp, ?_, fun rest => ?_⟩
    · obtain ⟨stop, hstop⟩ := statement_of_fault f fs hx
      rw [hstop]
      exact fun y hy => mem_cons_of_mem _ hy
    · cases x with
      | none => exact absurd rfl hx
      | error e => rfl
      | kill => rfl

theorem Local.bind (hp : Local p) (hq : ∀ a, Local (q a)) : Local (p >>= q) := by
  intro s fs
  obtain ⟨seen, hseen, hleft, hrest⟩ := hp s fs
  cases hrun : p s fs with
  | mk result rest =>
    obtain ⟨s', fs'⟩ := rest
    rw [hrun] at hleft hrest
    cases result with
    | ok a =>
      obtain ⟨seen', hseen', hleft', hrest'⟩ := hq a s' fs'
      rw [bind_of_ok hrun]
      refine ⟨seen ++ seen', fun x hx => ?_, fun x hx => hleft x (hleft' x hx), fun rest => ?_⟩
      · obtain hx | hx := mem_append.1 hx
        · exact hseen x hx
        · exact (hseen' x hx).imp_left (hleft x)
      · rw [append_assoc, bind_of_ok (hrest _)]
        exact hrest' rest
    | error stop =>
      rw [bind_of_error hrun]
      exact ⟨seen, hseen, hleft, fun rest => bind_of_error (hrest rest)⟩

/-! ### One program in place of another -/

/-- Whenever the one program ends, the other one does the same, with faults that the one had. -/
def Follows (p q : Prog S E A) : Prop := ∀ s fs a, (p s fs).1 = .ok a →
  ∃ seen, (∀ x ∈ seen, x ∈ fs ∨ x = .none) ∧ (∀ x ∈ (p s fs).2.2, x ∈ fs) ∧
    ∀ rest, q s (seen ++ rest) = (.ok a, (p s fs).2.1, rest)

theorem follows_pure (a : A) : Follows (pure a : Prog S E A) (pure a) := fun _ _ b h => by
  cases h
  exact ⟨[], by simp, fun _ h => h, fun _ => rfl⟩

theorem Follows.bind {p' : Prog S E A} {q' : A → Prog S E B} (hp : Follows p p')
    (hq : ∀ a, Follows (q a) (q' a)) : Follows (p >>= q) (p' >>= q') := by
  intro s fs b h
  cases hrun : p s fs with
  | mk result rest =>
    obtain ⟨s', fs'⟩ := rest
    cases result with
    | error stop =>
      rw [bind_of_error hrun] at h
      cases h
    | ok a =>
      rw [bind_of_ok hrun] at h ⊢
      obtain ⟨seen, hseen, hleft, hrest⟩ := hp s fs a (by rw [hrun])
      obtain ⟨seen', hseen', hleft', hrest'⟩ := hq a s' fs' b h
      rw [hrun] at hleft hrest
      refine ⟨seen ++ seen', fun x hx => ?_, fun x hx => hleft x (hleft' x hx), fun rest => ?_⟩
      · obtain hx | hx := mem_append.1 hx
        · exact hseen x hx
        · exact (hseen' x hx).imp_left (hleft x)
      · rw [append_assoc, bind_of_ok (hrest _)]
        exact hrest' rest

theorem follows_sequence {X : Type} {f g : X → Prog S E A} {l : List X}
    (h : ∀ x ∈ l, Follows (f x) (g x)) : Follows (sequence (l.map f)) (sequence (l.map g)) := by
  induction l with
  | nil => exact follows_pure []
  | cons x l ih =>
    refine (h x mem_cons_self).bind fun a => ?_
    exact (ih fun y hy => h y (mem_cons_of_mem _ hy)).bind fun as => follows_pure _

theorem mark_ok {u : Unit} (h : mark s fs = (.ok u, s', fs')) : s' = s ∧ fs' = fs.tail := by
  by_cases hnone : ∀ x ∈ fs.head?, x = Fault.none
  · have hmark : mark s fs = (.ok (), s, fs.tail) :=
      statement_of_none (f := fun s : S => (.ok ((), s) : Except E (Unit × S))) hnone
    rw [hmark] at h
    cases h
    exact ⟨rfl, rfl⟩
  · obtain ⟨x, fs, rfl, hx⟩ := fault_of_not_none hnone
    obtain ⟨stop, hstop⟩ := statement_of_fault (fun s : S => (.ok ((), s) : Except E (Unit × S))) fs hx
    have hmark : mark s (x :: fs) = (.error stop, s, fs) := hstop s
    rw [hmark] at h
    cases h

theorem mark_none (rest : List (Fault E)) : mark s (.none :: rest) = (.ok (), s, rest) := rfl

/-- **A savepoint whose own statements go well is a transaction of its own.** -/
theorem follows_savepoint (hp : Local p) : Follows (savepoint p) (attempt (transaction p)) := by
  intro s fs r h
  unfold savepoint at h ⊢
  cases hmark : mark s fs with
  | mk result rest₀ =>
    obtain ⟨s₀, fs₀⟩ := rest₀
    rw [hmark] at h
    cases result with
    | error stop => cases h
    | ok u =>
      obtain ⟨-, hfs₀⟩ := mark_ok hmark
      dsimp only at h ⊢
      obtain ⟨seen, hseen, hleft, hrest⟩ := hp s fs₀
      have hin {x : Fault E} (hx : x ∈ fs₀) : x ∈ fs := mem_of_mem_tail (hfs₀ ▸ hx)
      cases hrun : p s fs₀ with
      | mk result rest₁ =>
        obtain ⟨s₁, fs₁⟩ := rest₁
        rw [hrun] at h hleft hrest
        cases result with
        | ok a =>
          dsimp only at h ⊢
          cases hrelease : mark s₁ fs₁ with
          | mk result rest₂ =>
            obtain ⟨s₂, fs₂⟩ := rest₂
            rw [hrelease] at h
            cases result with
            | error stop => cases h
            | ok u =>
              cases h
              obtain ⟨-, hfs₂⟩ := mark_ok hrelease
              -- `BEGIN`, the statements, `COMMIT`
              refine ⟨.none :: seen ++ [.none], fun x hx => ?_, fun x hx => ?_, fun rest => ?_⟩
              · simp only [cons_append, mem_cons, mem_append, not_mem_nil, or_false] at hx
                obtain rfl | hx | rfl := hx
                · exact .inr rfl
                · exact (hseen x hx).imp_left hin
                · exact .inr rfl
              · rw [hfs₂] at hx
                exact hin (hleft x (mem_of_mem_tail hx))
              · have hbody : (do
                    let a ← p
                    mark
                    return a : Prog S E A) s (seen ++ .none :: rest) = (.ok a, s₁, rest) := by
                  rw [bind_of_ok (hrest _), bind_of_ok (mark_none rest)]
                  rfl
                rw [cons_append, cons_append, append_assoc, singleton_append]
                unfold attempt transaction
                rw [mark_none]
                dsimp only
                rw [hbody]
        | error stop =>
          cases stop with
          | killed => cases h
          | error e =>
            dsimp only at h ⊢
            cases hrollback : mark s₁ fs₁ with
            | mk result rest₂ =>
              obtain ⟨s₂, fs₂⟩ := rest₂
              rw [hrollback] at h
              cases result with
              | error stop => cases h
              | ok u =>
                cases h
                obtain ⟨-, hfs₂⟩ := mark_ok hrollback
                -- `BEGIN` and the statements up to the one that failed
                refine ⟨.none :: seen, fun x hx => ?_, fun x hx => ?_, fun rest => ?_⟩
                · obtain rfl | hx := mem_cons.1 hx
                  · exact .inr rfl
                  · exact (hseen x hx).imp_left hin
                · rw [hfs₂] at hx
                  exact hin (hleft x (mem_of_mem_tail hx))
                · have hbody : (do
                      let a ← p
                      mark
                      return a : Prog S E A) s (seen ++ rest) = (.error (.error e), s₁, rest) :=
                    bind_of_error (hrest _)
                  rw [cons_append]
                  unfold attempt transaction
                  rw [mark_none]
                  dsimp only
                  rw [hbody]

/-- A transaction that commits has done what its program does. -/
theorem transaction_ok (h : (transaction p s fs).1 = .ok a) :
    ∃ fs', p s fs.tail = (.ok a, (transaction p s fs).2.1, fs') := by
  unfold transaction at h ⊢
  cases hmark : mark s fs with
  | mk result rest₀ =>
    obtain ⟨s₀, fs₀⟩ := rest₀
    rw [hmark] at h
    cases result with
    | error stop => cases h
    | ok u =>
      obtain ⟨-, rfl⟩ := mark_ok hmark
      dsimp only at h ⊢
      cases hrun : p s fs.tail with
      | mk result rest₁ =>
        obtain ⟨s₁, fs₁⟩ := rest₁
        cases result with
        | error stop =>
          rw [bind_of_error hrun] at h
          cases h
        | ok b =>
          rw [bind_of_ok hrun] at h ⊢
          cases hcommit : mark s₁ fs₁ with
          | mk result rest₂ =>
            obtain ⟨s₂, fs₂⟩ := rest₂
            cases result with
            | error stop =>
              rw [bind_of_error hcommit] at h
              cases h
            | ok u =>
              rw [bind_of_ok hcommit] at h ⊢
              cases h
              obtain ⟨rfl, -⟩ := mark_ok hcommit
              exact ⟨fs₁, rfl⟩

/-! ### Runs that nothing befalls -/

end Prog

end Lvu
