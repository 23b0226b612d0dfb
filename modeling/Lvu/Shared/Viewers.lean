import Mathlib.Data.Finset.Card

/-!
# Viewer lifetime

The worker counts the windows attached to it, by process id, and stops when none is left past a
grace period (`lvu-shared/src/lifetime.rs`).  Time is a number.

* `ViewerSet.shouldShutdown_of_mem` : a counted viewer keeps the worker.
* `ViewerSet.hello_full` : a viewer more than the cap is refused, and nobody is dropped for it.
-/

namespace Lvu.Shared

def maxViewers : ℕ := 16

inductive ViewerAdmission
  | admitted
  | refusedFull

structure ViewerSet where
  viewers : Finset UInt32
  grace : ℕ
  drainUntil : Option ℕ

namespace ViewerSet

def new (now grace : ℕ) : ViewerSet := ⟨∅, grace, some (now + grace)⟩

def hello (s : ViewerSet) (pid : UInt32) : ViewerAdmission × ViewerSet :=
  if pid ∈ s.viewers then (.admitted, s)
  else if s.viewers.card ≥ maxViewers then (.refusedFull, s)
  else (.admitted, { s with viewers := insert pid s.viewers, drainUntil := none })

def goodbye (s : ViewerSet) (now : ℕ) (pid : UInt32) : ViewerSet :=
  let s := { s with viewers := s.viewers.erase pid }
  if s.viewers = ∅ ∧ s.drainUntil = none then { s with drainUntil := some (now + s.grace) } else s

def viewerCount (s : ViewerSet) : ℕ := s.viewers.card

def shouldShutdown (s : ViewerSet) (now : ℕ) : Bool :=
  match s.drainUntil with
  | some deadline => s.viewers = ∅ ∧ deadline ≤ now
  | none => false

variable {s : ViewerSet} {pid pid' : UInt32} {now : ℕ}

theorem viewers_goodbye : (s.goodbye now pid).viewers = s.viewers.erase pid := by
  unfold goodbye
  extract_lets s'
  split_ifs <;> rfl

theorem mem_goodbye : pid' ∈ (s.goodbye now pid).viewers ↔ pid' ≠ pid ∧ pid' ∈ s.viewers := by
  rw [viewers_goodbye, Finset.mem_erase]

theorem hello_cases (s : ViewerSet) (pid : UInt32) :
    ((s.hello pid).1 = .admitted ∧ (s.hello pid).2.viewers = insert pid s.viewers) ∨
      (pid ∉ s.viewers ∧ maxViewers ≤ s.viewers.card ∧ s.hello pid = (.refusedFull, s)) := by
  unfold hello
  split_ifs with hmem hfull
  · exact .inl ⟨rfl, (Finset.insert_eq_of_mem hmem).symm⟩
  · exact .inr ⟨hmem, hfull, rfl⟩
  · exact .inl ⟨rfl, rfl⟩

theorem card_hello_le (h : s.viewers.card ≤ maxViewers) :
    (s.hello pid).2.viewers.card ≤ maxViewers := by
  unfold hello
  split_ifs with hmem hfull
  · exact h
  · exact h
  · exact (Finset.card_insert_le _ _).trans (Nat.not_le.1 hfull)

theorem card_goodbye_le (h : s.viewers.card ≤ maxViewers) :
    (s.goodbye now pid).viewers.card ≤ maxViewers := by
  rw [viewers_goodbye]
  exact (Finset.card_erase_le).trans h

/-- **A viewer more than the cap is refused**, and the others stay counted. -/
theorem hello_full (h : maxViewers ≤ s.viewers.card) (hpid : pid ∉ s.viewers) :
    s.hello pid = (.refusedFull, s) := by
  rw [hello, if_neg hpid, if_pos h]

/-- **A counted viewer keeps the worker.** -/
theorem shouldShutdown_of_mem (h : pid ∈ s.viewers) (now : ℕ) :
    1 ≤ s.viewerCount ∧ s.shouldShutdown now = false := by
  refine ⟨Finset.card_pos.2 ⟨pid, h⟩, ?_⟩
  have hne : s.viewers ≠ ∅ := Finset.ne_empty_of_mem h
  unfold shouldShutdown
  cases s.drainUntil with
  | none => rfl
  | some deadline => simp [hne]

end ViewerSet

end Lvu.Shared
