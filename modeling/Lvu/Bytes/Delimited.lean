import Lvu.Bytes.LittleEndian
import Mathlib.Data.List.Perm.Basic

/-!
# Encodings that end by themselves

An encoding is delimited if it shows where it ends: of two byte strings that begin with encodings,
the same bytes are of the same values, and then the rests are the same (`Delimited`).  Values that
follow each other are then told apart one after the other.  What "the same value" is may be less than
equality, as for maps, whose entries have no order.

* `delimited_of_length` : encodings of one length.
* `Delimited.flatMap` : lists of one length.
* `Delimited.option`, `Delimited.list` : a value that may be missing, and a list behind its length.
* `Delimited.sorted` : entries without an order, written in one.
-/

namespace Lvu

open List

/-- A list whose length is a 64-bit number. -/
abbrev Vec (α : Type*) := { l : List α // l.length < 2 ^ 64 }

/-- The eight bytes of a number, most significant first. -/
def be64 (v : UInt64) : List UInt8 := (leBytes 8 v.toNat).reverse

variable {α β : Type*} {enc enc' : α → List UInt8} {R R' : α → α → Prop} {x y : List UInt8}

/-- An encoding that ends by itself, up to `R`. -/
def Delimited (enc : α → List UInt8) (R : α → α → Prop) : Prop :=
  ∀ ⦃a b x y⦄, enc a ++ x = enc b ++ y → R a b ∧ x = y

/-! ### Plain values -/

theorem delimited_of_length {n : ℕ} (hlength : ∀ a, (enc a).length = n)
    (hinj : Function.Injective enc) : Delimited enc Eq := by
  intro a b x y h
  obtain ⟨henc, hrest⟩ := append_inj h ((hlength a).trans (hlength b).symm)
  exact ⟨hinj henc, hrest⟩

theorem length_be64 (v : UInt64) : (be64 v).length = 8 := by simp [be64]

theorem be64_injective : Function.Injective be64 := by
  intro v w h
  have hle := congrArg leNat (reverse_injective h)
  rw [leNat_leBytes_of_lt v.toNat_lt, leNat_leBytes_of_lt w.toNat_lt] at hle
  exact UInt64.toNat_inj.1 hle

theorem delimited_be64 : Delimited be64 Eq := delimited_of_length length_be64 be64_injective

theorem Delimited.comap (h : Delimited enc R) (f : β → α) :
    Delimited (fun b => enc (f b)) fun b b' => R (f b) (f b') :=
  fun _ _ _ _ heq => h heq

theorem Delimited.mono (h : Delimited enc R) (hR : ∀ a b, R a b → R' a b) : Delimited enc R' :=
  fun _ _ _ _ heq => (h heq).imp_left (hR _ _)

theorem Delimited.append (h : Delimited enc R) (h' : Delimited enc' R') :
    Delimited (fun a => enc a ++ enc' a) fun a b => R a b ∧ R' a b := by
  intro a b x y heq
  simp only [append_assoc] at heq
  obtain ⟨hR, heq⟩ := h heq
  obtain ⟨hR', heq⟩ := h' heq
  exact ⟨⟨hR, hR'⟩, heq⟩

/-! ### Lists -/

/-- **Lists of one length**, of values that are told apart. -/
theorem flatMap_delimited {l l' : List α} (hlength : l.length = l'.length)
    (h : ∀ a ∈ l, ∀ b ∈ l', ∀ x y, enc a ++ x = enc b ++ y → R a b ∧ x = y)
    (heq : l.flatMap enc ++ x = l'.flatMap enc ++ y) : List.Forall₂ R l l' ∧ x = y := by
  induction l generalizing l' with
  | nil =>
    obtain rfl := eq_nil_of_length_eq_zero hlength.symm
    exact ⟨.nil, heq⟩
  | cons a l ih =>
    cases l' with
    | nil => cases hlength
    | cons b l' =>
      simp only [flatMap_cons, append_assoc] at heq
      obtain ⟨hR, heq⟩ := h a mem_cons_self b mem_cons_self _ _ heq
      obtain ⟨hall, heq⟩ := ih (Nat.succ.inj hlength)
        (fun a ha b hb => h a (mem_cons_of_mem _ ha) b (mem_cons_of_mem _ hb)) heq
      exact ⟨.cons hR hall, heq⟩

theorem Delimited.flatMap (h : Delimited enc R) {l l' : List α} (hlength : l.length = l'.length)
    (heq : l.flatMap enc ++ x = l'.flatMap enc ++ y) : List.Forall₂ R l l' ∧ x = y :=
  flatMap_delimited hlength (fun _ _ _ _ _ _ heq => h heq) heq

theorem length_inj {n m : ℕ} (hn : n < 2 ^ 64) (hm : m < 2 ^ 64)
    (h : be64 (UInt64.ofNat n) ++ x = be64 (UInt64.ofNat m) ++ y) : n = m ∧ x = y := by
  obtain ⟨hlength, heq⟩ := delimited_be64 h
  have hlength := congrArg UInt64.toNat hlength
  rw [UInt64.toNat_ofNat', UInt64.toNat_ofNat', Nat.mod_eq_of_lt hn, Nat.mod_eq_of_lt hm] at hlength
  exact ⟨hlength, heq⟩

/-- A list behind its length. -/
def encList (enc : α → List UInt8) (l : List α) : List UInt8 :=
  be64 (UInt64.ofNat l.length) ++ l.flatMap enc

/-- **A list behind its length ends by itself**, if its elements do. -/
theorem Delimited.list (h : Delimited enc R) :
    Delimited (fun v : Vec α => encList enc v.1) fun v w => List.Forall₂ R v.1 w.1 := by
  intro v w x y heq
  simp only [encList, append_assoc] at heq
  obtain ⟨hlength, heq⟩ := length_inj v.2 w.2 heq
  exact h.flatMap hlength heq

theorem Delimited.list_eq (h : Delimited enc Eq) : Delimited (fun v : Vec α => encList enc v.1) Eq :=
  h.list.mono fun _ _ hall => Subtype.ext (List.forall₂_eq_eq_eq ▸ hall)

/-! ### Values that may be missing -/

/-- A value that may be missing, behind a byte that says so. -/
def encOption (enc : α → List UInt8) : Option α → List UInt8
  | some a => 1 :: enc a
  | none => [0]

theorem Delimited.option (h : Delimited enc R) : Delimited (encOption enc) (Option.Rel R) := by
  intro a b x y heq
  cases a with
  | none =>
    cases b with
    | none => exact ⟨.none, List.cons.inj heq |>.2⟩
    | some b => exact absurd (List.cons.inj heq).1 (by decide)
  | some a =>
    cases b with
    | none => exact absurd (List.cons.inj heq).1 (by decide)
    | some b =>
      obtain ⟨hR, heq⟩ := h (List.cons.inj heq).2
      exact ⟨.some hR, heq⟩

theorem Delimited.option_eq (h : Delimited enc Eq) : Delimited (encOption enc) Eq :=
  h.option.mono fun a b hrel => by
    cases hrel with
    | none => rfl
    | some heq => rw [heq]

/-! ### Entries without an order -/

/-- The same entries, up to their order and `R`. -/
def SameEntries (R : α → α → Prop) (l l' : List α) : Prop :=
  ∃ s s', s.Perm l ∧ s'.Perm l' ∧ List.Forall₂ R s s'

/-- **Entries that are written in some order of their own are told apart up to order.** -/
theorem Delimited.sorted (h : Delimited enc R) (sort : List α → List α)
    (hsort : ∀ l, (sort l).Perm l) :
    Delimited (fun v : Vec α => encList enc (sort v.1)) fun v w => SameEntries R v.1 w.1 := by
  intro v w x y heq
  simp only [encList, append_assoc] at heq
  have hv := (hsort v.1).length_eq
  have hw := (hsort w.1).length_eq
  obtain ⟨hlength, heq⟩ := length_inj (hv ▸ v.2) (hw ▸ w.2) heq
  obtain ⟨hall, heq⟩ := h.flatMap hlength heq
  exact ⟨⟨_, _, hsort v.1, hsort w.1, hall⟩, heq⟩

theorem sameEntries_eq {l l' : List α} (h : SameEntries Eq l l') : l.Perm l' := by
  obtain ⟨s, s', hs, hs', hall⟩ := h
  rw [List.forall₂_eq_eq_eq] at hall
  exact hs.symm.trans (hall ▸ hs')

end Lvu
