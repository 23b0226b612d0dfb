import Mathlib.Data.List.Basic
import Mathlib.Data.List.TakeDrop

/-!
# Files of lines

A line ends with a separator; what follows the last separator of a file is a torn line.
`Lines.split` gives the lines of a file in order, the torn one last.  `Lines.join` is the file
of some whole lines.

* `split_join` : the lines of a file of whole lines and a torn one are these lines.
* `take_join` : the head of such a file is again one, of fewer lines.
-/

namespace Lvu.Lines

open List

variable {α : Type} [DecidableEq α] {sep : α}

/-- The lines of a file, each with its separator, and last a torn one. -/
def split (sep : α) : List α → List (List α)
  | [] => []
  | b :: bs =>
    if b = sep then [b] :: split sep bs
    else match split sep bs with
      | [] => [[b]]
      | line :: rest => (b :: line) :: rest

/-- The file of whole lines. -/
def join (sep : α) (lines : List (List α)) : List α := (lines.map (· ++ [sep])).flatten

/-- What is read after the whole lines of a file. -/
def torn : List α → List (List α)
  | [] => []
  | tail => [tail]

omit [DecidableEq α] in
@[simp] theorem join_nil : join sep [] = [] := rfl

omit [DecidableEq α] in
@[simp] theorem join_cons (line : List α) (rest : List (List α)) :
    join sep (line :: rest) = line ++ sep :: join sep rest := by simp [join]

omit [DecidableEq α] in
@[simp] theorem join_append (ls ls' : List (List α)) :
    join sep (ls ++ ls') = join sep ls ++ join sep ls' := by simp [join]

theorem split_line {line : List α} (h : sep ∉ line) (rest : List α) :
    split sep (line ++ sep :: rest) = (line ++ [sep]) :: split sep rest := by
  induction line with
  | nil => simp [split]
  | cons b bs ih =>
    simp only [mem_cons, not_or] at h
    rw [cons_append, split, if_neg (Ne.symm h.1), ih h.2]
    rfl

theorem split_torn {tail : List α} (h : sep ∉ tail) : split sep tail = torn tail := by
  induction tail with
  | nil => rfl
  | cons b bs ih =>
    simp only [mem_cons, not_or] at h
    rw [split, if_neg (Ne.symm h.1), ih h.2]
    cases bs <;> rfl

theorem split_join {lines : List (List α)} (h : ∀ line ∈ lines, sep ∉ line) {tail : List α}
    (htail : sep ∉ tail) :
    split sep (join sep lines ++ tail) = lines.map (· ++ [sep]) ++ torn tail := by
  induction lines with
  | nil => simpa using split_torn htail
  | cons line rest ih =>
    rw [join_cons, append_assoc, cons_append, split_line (h line (by simp)),
      ih fun l hl => h l (mem_cons_of_mem _ hl)]
    rfl

omit [DecidableEq α] in
/-- The head of a file holds some of its lines, and one that is torn. -/
theorem take_join {lines : List (List α)} {tail : List α} (htail : sep ∉ tail)
    (h : ∀ line ∈ lines, sep ∉ line) (n : ℕ) :
    ∃ k tail', (join sep lines ++ tail).take n = join sep (lines.take k) ++ tail' ∧ sep ∉ tail' := by
  induction lines generalizing n with
  | nil => exact ⟨0, tail.take n, by simp, fun hmem => htail (mem_of_mem_take hmem)⟩
  | cons line rest ih =>
    have hline := h line (by simp)
    obtain hle | hlt := Nat.lt_or_ge line.length n
    · -- the whole first line is in the head
      obtain ⟨k, tail', htake, htail'⟩ :=
        ih (fun l hl => h l (mem_cons_of_mem _ hl)) (n - line.length - 1)
      refine ⟨k + 1, tail', ?_, htail'⟩
      obtain ⟨m, rfl⟩ : ∃ m, n = line.length + (m + 1) := ⟨n - line.length - 1, by omega⟩
      rw [show line.length + (m + 1) - line.length - 1 = m by omega] at htake
      rw [join_cons, append_assoc, cons_append, take_length_add_append,
        take_succ_cons, htake, take_succ_cons, join_cons, append_assoc,
        cons_append]
    · refine ⟨0, line.take n, ?_, fun hmem => hline (mem_of_mem_take hmem)⟩
      rw [join_cons, append_assoc, take_append_of_le_length hlt]
      simp

end Lvu.Lines
