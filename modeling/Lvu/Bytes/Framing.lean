import Mathlib.Data.List.Infix

/-!
# Byte strings made of frames

A log stores a list of values as the concatenation of their frames (`encAll`).  Cutting such a
byte string anywhere leaves the frames of a prefix of the list and then a strict prefix of one
more frame (`take_encAll`); the number of whole frames is `wholeFrames`.

Nothing here depends on how a frame is encoded; `PrefixCode` says that it can be read back, and then
a byte string has one reading (`PrefixCode.prefix_of_encAll`).
-/

namespace Lvu.Framing

open List

variable {α β : Type*} (enc : α → List β)

/-- The concatenated frames of a list of values. -/
def encAll (as : List α) : List β := as.flatMap enc

/-- How many whole frames of `as` lie in the first `n` symbols of `encAll enc as`. -/
def wholeFrames : List α → ℕ → ℕ
  | [], _ => 0
  | a :: as, n => if (enc a).length ≤ n then wholeFrames as (n - (enc a).length) + 1 else 0

variable {enc}

@[simp] theorem encAll_nil : encAll enc [] = [] := rfl

@[simp] theorem encAll_cons (a : α) (as : List α) :
    encAll enc (a :: as) = enc a ++ encAll enc as := by simp [encAll]

@[simp] theorem encAll_append (as bs : List α) :
    encAll enc (as ++ bs) = encAll enc as ++ encAll enc bs := by simp [encAll]

theorem encAll_singleton (a : α) : encAll enc [a] = enc a := by simp

/-- **A cut leaves whole frames and then a strict prefix of the next one.** -/
theorem take_encAll (enc : α → List β) (as : List α) (n : ℕ) :
    ∃ rest, (encAll enc as).take n = encAll enc (as.take (wholeFrames enc as n)) ++ rest ∧
      (rest = [] ∨ ∃ a ∈ as, rest <+: enc a ∧ rest.length < (enc a).length) := by
  induction as generalizing n with
  | nil => exact ⟨[], by simp [wholeFrames], .inl rfl⟩
  | cons a as ih =>
    simp only [wholeFrames]
    split_ifs with h
    · obtain ⟨rest, heq, hrest⟩ := ih (n - (enc a).length)
      refine ⟨rest, ?_, hrest.imp_right ?_⟩
      · rw [encAll_cons, take_append, take_of_length_le h, heq]
        simp
      · rintro ⟨b, hb, hp⟩
        exact ⟨b, mem_cons_of_mem _ hb, hp⟩
    · have hlt : n < (enc a).length := by omega
      refine ⟨(enc a).take n, ?_, .inr ⟨a, mem_cons_self, take_prefix _ _, ?_⟩⟩
      · rw [encAll_cons, take_append_of_le_length hlt.le]
        simp
      · rw [length_take]
        omega

theorem length_le_encAll (hne : ∀ a, enc a ≠ []) (as : List α) :
    as.length ≤ (encAll enc as).length := by
  induction as with
  | nil => simp
  | cons a as ih =>
    have := length_pos_of_ne_nil (hne a)
    simp only [length_cons, encAll_cons, length_append]
    omega

/-! ### Codes that can be read back -/

/-- The frame a byte string starts with is determined, among the values in `P`. -/
def PrefixCode (enc : α → List β) (P : α → Prop) : Prop :=
  ∀ a b, P a → P b → ∀ bs, enc a <+: bs → enc b <+: bs → a = b

/-- **Frames at the start of a log are the log's first values**: whatever is cut off after its
last whole frame hides no other reading. -/
theorem PrefixCode.prefix_of_encAll {P : α → Prop} (hP : PrefixCode enc P) {as bs : List α}
    {tail : List β} (has : ∀ a ∈ as, P a) (hbs : ∀ b ∈ bs, P b)
    (htail : tail = [] ∨ ∃ b, P b ∧ tail <+: enc b ∧ tail.length < (enc b).length)
    (hne : ∀ a, enc a ≠ []) (h : encAll enc as <+: encAll enc bs ++ tail) : as <+: bs := by
  induction as generalizing bs with
  | nil => exact nil_prefix
  | cons a as ih =>
    have ha : enc a <+: encAll enc bs ++ tail := by
      rw [encAll_cons] at h
      exact (prefix_append _ _).trans h
    cases bs with
    | nil =>
      rw [encAll_nil, nil_append] at ha
      rcases htail with rfl | ⟨b, hb, hp, hlt⟩
      · exact absurd (prefix_nil.1 ha) (hne a)
      · -- a whole frame cannot lie in a strict prefix of one
        obtain rfl := hP a b (has a mem_cons_self) hb (enc b) (ha.trans hp) prefix_rfl
        exact absurd ha.length_le (by omega)
    | cons b bs =>
      rw [encAll_cons, append_assoc] at ha
      rw [encAll_cons, encAll_cons, append_assoc] at h
      obtain rfl := hP a b (has a mem_cons_self) (hbs b mem_cons_self) _ ha
        (prefix_append _ _)
      rw [prefix_append_right_inj] at h
      rw [prefix_cons_inj]
      exact ih (fun x hx => has x (mem_cons_of_mem _ hx))
        (fun x hx => hbs x (mem_cons_of_mem _ hx)) h

end Lvu.Framing
