import Mathlib.Data.List.Basic

/-!
# Control sequences that never show

Captured terminal controls are taken out before a record is shown (`lvu/src/ansi.rs`).  Lengths in
bytes are what a scanner leaves of the text.

* `without_ansi_exact` : of plain runs and sequences, whole or cut short, the plain runs are left,
  wherever a CSI that is cut short ends with a sequence behind it.
* `cut_csi_shows` : it need not.
-/

namespace Lvu.App.Ansi

open List

/-- `is_ansi_introducer`. -/
def isAnsiIntroducer (c : Char) : Bool :=
  c ∈ ['\x1b', '\x90', '\x98', '\x9b', '\x9d', '\x9e', '\x9f']

/-- `escape_body_len`: what follows intermediates and a final. -/
def escapeBody : List Char → List Char
  | [] => []
  | c :: rest =>
    if ' ' ≤ c ∧ c ≤ '/' then escapeBody rest
    else if '0' ≤ c ∧ c ≤ '~' then rest
    else c :: rest

/-- The character that ends a CSI. -/
def isFinal (c : Char) : Prop := '@' ≤ c ∧ c ≤ '~'

instance (c : Char) : Decidable (isFinal c) := inferInstanceAs (Decidable (_ ∧ _))

/-- `csi_body_len`: whatever does not end it is passed over. -/
def csiBody : List Char → List Char
  | [] => []
  | c :: rest => if isFinal c then rest else csiBody rest

/-- `osc_body_len`, which the bell ends too, and `string_control_body_len`. -/
def stringBody (bell : Bool) : List Char → List Char
  | [] => []
  | c :: rest =>
    if bell ∧ c = '\x07' then rest
    else if c = '\x1b' ∧ rest.head? = some '\\' then rest.tail
    else if c = '\x9c' then rest
    else stringBody bell rest

/-- `ansi_sequence_len`, of the introducer and what follows it. -/
def ansiSequence (introducer : Char) (body : List Char) : List Char :=
  if introducer = '\x9b' then csiBody body
  else if introducer = '\x9d' then stringBody true body
  else if introducer ≠ '\x1b' then stringBody false body
  else if body.head? = some '[' then csiBody body.tail
  else if body.head? = some ']' then stringBody true body.tail
  else if body.head?.any (· ∈ ['P', 'X', '^', '_']) then stringBody false body.tail
  else escapeBody body

theorem length_escapeBody (body : List Char) : (escapeBody body).length ≤ body.length := by
  induction body with
  | nil => exact Nat.le_refl _
  | cons c rest ih =>
    unfold escapeBody
    split_ifs
    · exact Nat.le_succ_of_le ih
    · exact Nat.le_succ _
    · exact Nat.le_refl _

theorem length_csiBody (body : List Char) : (csiBody body).length ≤ body.length := by
  induction body with
  | nil => exact Nat.le_refl _
  | cons c rest ih =>
    unfold csiBody
    split_ifs
    · exact Nat.le_succ _
    · exact Nat.le_succ_of_le ih

theorem length_stringBody (bell : Bool) (body : List Char) :
    (stringBody bell body).length ≤ body.length := by
  induction body with
  | nil => exact Nat.le_refl _
  | cons c rest ih =>
    unfold stringBody
    split_ifs
    · exact Nat.le_succ _
    · simp only [length_tail, length_cons]
      omega
    · exact Nat.le_succ _
    · exact Nat.le_succ_of_le ih

theorem length_ansiSequence (introducer : Char) (body : List Char) :
    (ansiSequence introducer body).length ≤ body.length := by
  have htail : body.tail.length ≤ body.length := by simp
  unfold ansiSequence
  split_ifs
  · exact length_csiBody body
  · exact length_stringBody true body
  · exact length_stringBody false body
  · exact Nat.le_trans (length_csiBody _) htail
  · exact Nat.le_trans (length_stringBody _ _) htail
  · exact Nat.le_trans (length_stringBody _ _) htail
  · exact length_escapeBody body

/-- `without_ansi`. -/
def withoutAnsi : List Char → List Char
  | [] => []
  | c :: rest =>
    if isAnsiIntroducer c then withoutAnsi (ansiSequence c rest) else c :: withoutAnsi rest
termination_by text => text.length
decreasing_by
  · exact Nat.lt_succ_of_le (length_ansiSequence c rest)
  · exact Nat.lt_succ_self _

/-! ### What is captured -/

/-- A string control other than OSC, by the character behind its ESC and by its C1 form. -/
inductive Control
  | dcs | sos | pm | apc

/-- Its two forms. -/
def Control.forms : Control → Char × Char
  | .dcs => ('P', '\x90')
  | .sos => ('X', '\x98')
  | .pm => ('^', '\x9e')
  | .apc => ('_', '\x9f')

/-- An introducer of seven or of eight bits. -/
def opening (forms : Char × Char) (eight : Bool) : List Char :=
  if eight then [forms.2] else ['\x1b', forms.1]

/-- What a text is put together from. -/
inductive Piece
  | plain (text : List Char)
  | escape (between : List Char) (final : Char)
  | csi (eight : Bool) (body : List Char) (final : Char)
  | osc (eight : Bool) (payload terminator : List Char)
  | control (kind : Control) (eight : Bool) (payload terminator : List Char)
  /-- Cut short, by the next introducer or by the end. -/
  | cutEscape (between : List Char)
  | cutCsi (eight : Bool) (body : List Char)
  /-- Cut short by the end. -/
  | cutOsc (eight : Bool) (payload : List Char)
  | cutControl (kind : Control) (eight : Bool) (payload : List Char)

/-- The characters behind an ESC that begin another form than an escape sequence. -/
def otherForms : List Char := ['[', ']', 'P', 'X', '^', '_']

namespace Piece

/-- The text of a piece. -/
def text : Piece → List Char
  | plain text => text
  | escape between final => '\x1b' :: between ++ [final]
  | csi eight body final => opening ('[', '\x9b') eight ++ body ++ [final]
  | osc eight payload terminator => opening (']', '\x9d') eight ++ payload ++ terminator
  | control kind eight payload terminator => opening kind.forms eight ++ payload ++ terminator
  | cutEscape between => '\x1b' :: between
  | cutCsi eight body => opening ('[', '\x9b') eight ++ body
  | cutOsc eight payload => opening (']', '\x9d') eight ++ payload
  | cutControl kind eight payload => opening kind.forms eight ++ payload

/-- What of it is to be seen. -/
def seen : Piece → List Char
  | plain text => text
  | _ => []

/-- A character between an introducer and a final. -/
def Between (c : Char) : Prop := ' ' ≤ c ∧ c ≤ '/'

/-- A string that nothing in it ends. -/
def Unended (bell : Bool) : List Char → Prop
  | [] => True
  | c :: rest => ¬ (bell = true ∧ c = '\x07') ∧ ¬ (c = '\x1b' ∧ rest.head? = some '\\') ∧
      c ≠ '\x9c' ∧ Unended bell rest

/-- A piece as it is written. -/
def Written : Piece → Prop
  | plain text => ∀ c ∈ text, isAnsiIntroducer c = false
  | escape between final => (∀ c ∈ between, Between c) ∧ ('0' ≤ final ∧ final ≤ '~') ∧
      (between = [] → final ∉ otherForms)
  | csi _ body final => (∀ c ∈ body, ' ' ≤ c ∧ c ≤ '?') ∧ isFinal final
  | osc _ payload terminator => Unended true payload ∧
      terminator ∈ [['\x07'], ['\x1b', '\\'], ['\x9c']]
  | control _ _ payload terminator => Unended false payload ∧
      terminator ∈ [['\x1b', '\\'], ['\x9c']]
  | cutEscape between => ∀ c ∈ between, Between c
  | cutCsi _ body => ∀ c ∈ body, ' ' ≤ c ∧ c ≤ '?'
  | cutOsc _ payload => Unended true payload
  | cutControl _ _ payload => Unended false payload

/-- A sequence, which an introducer begins. -/
def IsSequence : Piece → Prop
  | plain _ => False
  | _ => True

/-- What may come behind a piece. -/
def Before : Piece → List Piece → Prop
  | cutEscape _, next | cutCsi _ _, next => ∀ p ∈ next.head?, p.IsSequence
  | cutOsc _ _, next | cutControl _ _ _, next => next = []
  | _, _ => True

end Piece

/-- The text of pieces. -/
def textOf (pieces : List Piece) : List Char := pieces.flatMap Piece.text

/-- Pieces that may follow one another. -/
def Written : List Piece → Prop
  | [] => True
  | p :: rest => p.Written ∧ p.Before rest ∧ Written rest

/-- The first character that could end a CSI which is cut short is the last one of a sequence behind
it, or there is none and nothing plain. -/
inductive Lands : List Piece → Prop
  | nil : Lands []
  | other {p rest} (other : ∀ eight body, p ≠ .cutCsi eight body) (lands : Lands rest) :
    Lands (p :: rest)
  | toEnd {eight body rest} (sequences : ∀ p ∈ rest, p.IsSequence)
    (none : ∀ c ∈ textOf rest, ¬ isFinal c) : Lands (.cutCsi eight body :: rest)
  | within {eight body passed rest init final} (sequences : ∀ p ∈ passed, p.IsSequence)
    (text : textOf passed = init ++ [final]) (none : ∀ c ∈ init, ¬ isFinal c)
    (isFinal : isFinal final) (lands : Lands rest) : Lands (.cutCsi eight body :: (passed ++ rest))

/-! ### What is left -/

variable {c final : Char} {body rest payload terminator : List Char} {bell eight : Bool}

theorem withoutAnsi_plain {text : List Char} (h : ∀ c ∈ text, isAnsiIntroducer c = false) :
    withoutAnsi (text ++ rest) = text ++ withoutAnsi rest := by
  induction text with
  | nil => rfl
  | cons c text ih =>
    rw [cons_append, withoutAnsi, h c mem_cons_self, if_neg (by decide),
      ih fun d hd => h d (mem_cons_of_mem _ hd)]
    rfl

theorem csiBody_append (h : ∀ c ∈ body, ¬ isFinal c) : csiBody (body ++ rest) = csiBody rest := by
  induction body with
  | nil => rfl
  | cons c body ih =>
    rw [cons_append, csiBody, if_neg (h c mem_cons_self)]
    exact ih fun d hd => h d (mem_cons_of_mem _ hd)

theorem csiBody_final (h : ∀ c ∈ body, ¬ isFinal c) (hfinal : isFinal final) :
    csiBody (body ++ [final] ++ rest) = rest := by
  rw [append_assoc, csiBody_append h]
  exact if_pos hfinal

theorem csiBody_none (h : ∀ c ∈ body, ¬ isFinal c) : csiBody body = [] := by
  rw [← body.append_nil, csiBody_append h, csiBody]

theorem escapeBody_append (h : ∀ c ∈ body, Piece.Between c) :
    escapeBody (body ++ rest) = escapeBody rest := by
  induction body with
  | nil => rfl
  | cons c body ih =>
    have hc : ' ' ≤ c ∧ c ≤ '/' := h c mem_cons_self
    rw [cons_append, escapeBody, if_pos hc]
    exact ih fun d hd => h d (mem_cons_of_mem _ hd)

theorem stringBody_unended (h : Piece.Unended bell payload) :
    (rest = [] ∨ ∃ c, rest.head? = some c ∧ c ≠ '\\') →
      stringBody bell (payload ++ rest) = stringBody bell rest := by
  intro hrest
  induction payload with
  | nil => rfl
  | cons c payload ih =>
    obtain ⟨hbell, hst, hst8, hpayload⟩ := h
    have hnext : ¬ (c = '\x1b' ∧ (payload ++ rest).head? = some '\\') := by
      rintro ⟨rfl, hhead⟩
      cases payload with
      | nil =>
        rcases hrest with rfl | ⟨d, hd, hne⟩
        · cases hhead
        · exact hne (Option.some.inj (hd.symm.trans hhead))
      | cons d payload => exact hst ⟨rfl, hhead⟩
    rw [cons_append, stringBody, if_neg hbell, if_neg hnext, if_neg hst8]
    exact ih hpayload

theorem stringBody_terminated (h : Piece.Unended bell payload)
    (hterminator : terminator ∈ [['\x1b', '\\'], ['\x9c']] ∨ bell = true ∧ terminator = ['\x07']) :
    stringBody bell (payload ++ terminator ++ rest) = rest := by
  rw [append_assoc, stringBody_unended h]
  · rcases hterminator with hterminator | ⟨rfl, rfl⟩
    · simp only [mem_cons, not_mem_nil, or_false] at hterminator
      rcases hterminator with rfl | rfl <;> simp [stringBody]
    · simp [stringBody]
  · refine .inr ?_
    rcases hterminator with hterminator | ⟨rfl, rfl⟩
    · simp only [mem_cons, not_mem_nil, or_false] at hterminator
      rcases hterminator with rfl | rfl <;> exact ⟨_, rfl, by decide⟩
    · exact ⟨_, rfl, by decide⟩

theorem withoutAnsi_introducer (h : isAnsiIntroducer c = true) :
    withoutAnsi (c :: rest) = withoutAnsi (ansiSequence c rest) := by
  rw [withoutAnsi, if_pos h]

theorem withoutAnsi_csi (eight : Bool) (body : List Char) :
    withoutAnsi (opening ('[', '\x9b') eight ++ body) = withoutAnsi (csiBody body) := by
  cases eight
  · exact (withoutAnsi_introducer (by decide)).trans (by simp [ansiSequence])
  · exact (withoutAnsi_introducer (by decide)).trans (by simp [ansiSequence])

theorem withoutAnsi_osc (eight : Bool) (body : List Char) :
    withoutAnsi (opening (']', '\x9d') eight ++ body) = withoutAnsi (stringBody true body) := by
  cases eight
  · exact (withoutAnsi_introducer (by decide)).trans (by simp [ansiSequence])
  · exact (withoutAnsi_introducer (by decide)).trans (by simp [ansiSequence])

theorem withoutAnsi_control (kind : Control) (eight : Bool) (body : List Char) :
    withoutAnsi (opening kind.forms eight ++ body) = withoutAnsi (stringBody false body) := by
  cases kind <;> cases eight <;>
    exact (withoutAnsi_introducer (by decide)).trans (by simp [ansiSequence, Control.forms])

theorem between_not_mem (h : Piece.Between c) : c ∉ otherForms := by
  intro hc
  simp only [otherForms, mem_cons, not_mem_nil, or_false] at hc
  rcases hc with rfl | rfl | rfl | rfl | rfl | rfl <;> exact absurd h.2 (by decide)

/-- An escape sequence is one that no other form begins. -/
theorem withoutAnsi_escape (h : ∀ c ∈ body, Piece.Between c)
    (hrest : body = [] → ∀ c ∈ rest.head?, c ∉ otherForms) :
    withoutAnsi ('\x1b' :: (body ++ rest)) = withoutAnsi (escapeBody rest) := by
  have hhead : ∀ c ∈ otherForms, (body ++ rest).head? ≠ some c := by
    intro c hc hbody
    cases body with
    | nil => exact hrest rfl c hbody hc
    | cons b body =>
      obtain rfl : b = c := Option.some.inj hbody
      exact between_not_mem (h b mem_cons_self) hc
  have hnone : ¬ (body ++ rest).head?.any (· ∈ ['P', 'X', '^', '_']) = true := by
    intro hany
    obtain ⟨c, hbody, hc⟩ := (Option.any_eq_true _ _).1 hany
    exact hhead c (mem_cons_of_mem _ (mem_cons_of_mem _ (of_decide_eq_true hc))) hbody
  rw [withoutAnsi_introducer (by decide), ansiSequence, if_neg (by decide), if_neg (by decide),
    if_neg (by decide), if_neg (hhead _ (by decide)), if_neg (hhead _ (by decide)), if_neg hnone,
    escapeBody_append h]

theorem Piece.head_text {p : Piece} (h : p.IsSequence) :
    ∃ c t, p.text = c :: t ∧ isAnsiIntroducer c = true := by
  cases p with
  | plain => exact h.elim
  | escape | cutEscape => exact ⟨_, _, rfl, by decide⟩
  | csi eight | osc eight | cutCsi eight | cutOsc eight =>
    cases eight <;> exact ⟨_, _, rfl, by decide⟩
  | control kind eight | cutControl kind eight =>
    cases kind <;> cases eight <;> exact ⟨_, _, rfl, by decide⟩

theorem textOf_cons (p : Piece) (pieces : List Piece) :
    textOf (p :: pieces) = p.text ++ textOf pieces := rfl

theorem escapeBody_next {next : List Piece} (h : ∀ p ∈ next.head?, p.IsSequence) :
    escapeBody (textOf next) = textOf next ∧
      ∀ c ∈ (textOf next).head?, c ∉ otherForms := by
  cases next with
  | nil => exact ⟨rfl, by simp [textOf]⟩
  | cons p next =>
    obtain ⟨c, t, htext, hc⟩ := Piece.head_text (h p rfl)
    rw [textOf_cons, htext]
    simp only [isAnsiIntroducer, decide_eq_true_eq, mem_cons, not_mem_nil,
      or_false] at hc
    rcases hc with rfl | rfl | rfl | rfl | rfl | rfl | rfl <;> simp [escapeBody, otherForms]

theorem not_final (h : ' ' ≤ c ∧ c ≤ '?') : ¬ isFinal c := fun hfinal =>
  absurd (Char.le_trans hfinal.1 h.2) (by decide)

theorem written_append {passed rest : List Piece} (h : Written (passed ++ rest)) :
    Written rest := by
  induction passed with
  | nil => exact h
  | cons p passed ih => exact ih h.2.2

theorem seen_sequences {pieces : List Piece} (h : ∀ p ∈ pieces, p.IsSequence) :
    pieces.flatMap Piece.seen = [] := by
  refine flatMap_eq_nil_iff.2 fun p hp => ?_
  cases p with
  | plain => exact (h _ hp).elim
  | _ => rfl

/-- **The plain runs are left, and nothing else**, wherever a CSI that is cut short ends with a
sequence behind it. -/
theorem without_ansi_exact (pieces : List Piece) (hwritten : Written pieces) (h : Lands pieces) :
    withoutAnsi (textOf pieces) = pieces.flatMap Piece.seen := by
  induction h with
  | nil => simp [textOf, withoutAnsi]
  | @other p rest hother _ ih =>
    obtain ⟨hp, hbefore, hrest⟩ := hwritten
    rw [textOf_cons, flatMap_cons, ← ih hrest]
    cases p with
    | plain text => exact withoutAnsi_plain hp
    | escape between final =>
      obtain ⟨hbetween, hfinal, hnone⟩ := hp
      have hnot : ¬ (' ' ≤ final ∧ final ≤ '/') := fun h =>
        absurd (Char.le_trans hfinal.1 h.2) (by decide)
      rw [Piece.text, cons_append, cons_append, append_assoc,
        withoutAnsi_escape hbetween]
      · rw [singleton_append, escapeBody, if_neg hnot, if_pos hfinal]
        rfl
      · intro hempty c hc
        exact Option.some.inj hc ▸ hnone hempty
    | csi eight body final =>
      rw [Piece.text, append_assoc, append_assoc, withoutAnsi_csi, ← append_assoc,
        csiBody_final (fun c hc => not_final (hp.1 c hc)) hp.2]
      rfl
    | osc eight payload terminator =>
      rw [Piece.text, append_assoc, append_assoc, withoutAnsi_osc, ← append_assoc,
        stringBody_terminated hp.1]
      · rfl
      · exact (mem_cons.1 hp.2).elim (fun h => .inr ⟨rfl, h⟩) .inl
    | control kind eight payload terminator =>
      rw [Piece.text, append_assoc, append_assoc, withoutAnsi_control,
        ← append_assoc, stringBody_terminated hp.1 (.inl hp.2)]
      rfl
    | cutEscape between =>
      obtain ⟨hnext, hhead⟩ := escapeBody_next hbefore
      exact (withoutAnsi_escape hp fun _ => hhead).trans (congrArg _ hnext)
    | cutCsi eight body => exact absurd rfl (hother eight body)
    | cutOsc eight payload =>
      obtain rfl : rest = [] := hbefore
      rw [Piece.text, append_assoc, withoutAnsi_osc, stringBody_unended hp (.inl (by rfl))]
      rfl
    | cutControl kind eight payload =>
      obtain rfl : rest = [] := hbefore
      rw [Piece.text, append_assoc, withoutAnsi_control, stringBody_unended hp (.inl (by rfl))]
      rfl
  | @toEnd eight body rest hsequences hnone =>
    rw [textOf_cons, Piece.text, append_assoc, withoutAnsi_csi, csiBody_none,
      flatMap_cons, seen_sequences hsequences]
    · simp [withoutAnsi, Piece.seen]
    · intro c hc
      rcases mem_append.1 hc with hc | hc
      · exact not_final (hwritten.1 c hc)
      · exact hnone c hc
  | @within eight body passed rest init final hsequences htext hnone hfinal _ ih =>
    have hbody : ∀ c ∈ body ++ init, ¬ isFinal c := by
      intro c hc
      rcases mem_append.1 hc with hc | hc
      · exact not_final (hwritten.1 c hc)
      · exact hnone c hc
    have htexts : textOf (passed ++ rest) = init ++ [final] ++ textOf rest := by
      rw [textOf, flatMap_append]
      exact congrArg (· ++ _) htext
    rw [textOf_cons, Piece.text, append_assoc, withoutAnsi_csi, htexts, ← append_assoc,
      ← append_assoc, csiBody_final hbody hfinal, ih (written_append hwritten.2.2),
      flatMap_cons, flatMap_append, seen_sequences hsequences]
    rfl

/-- A CSI that is cut short by another of eight bits goes on to the end of that one. -/
theorem without_ansi_exact_landing :
    withoutAnsi (textOf [.plain ['a'], .cutCsi false ['3'], .csi true ['0'] 'm']) = ['a'] := by
  refine without_ansi_exact [.plain ['a'], .cutCsi false ['3'], .csi true ['0'] 'm'] ?_ ?_
  · simp [Written, Piece.Written, Piece.Before, Piece.IsSequence, isFinal, isAnsiIntroducer]
  · have hother : ∀ eight body, Piece.plain ['a'] ≠ .cutCsi eight body := by
      rintro eight body ⟨⟩
    refine .other hother (@Lands.within false ['3'] [.csi true ['0'] 'm'] [] ['\x9b', '0'] 'm'
      ?_ ?_ ?_ ?_ .nil)
    · simp [Piece.IsSequence]
    · simp [textOf, Piece.text, opening]
    · simp [isFinal]
    · simp [isFinal]

/-- Where that one has seven bits, it goes on to its bracket, and the parameters show. -/
theorem cut_csi_shows : ¬ ∀ pieces, Written pieces →
    withoutAnsi (textOf pieces) = pieces.flatMap Piece.seen := by
  intro h
  have hshown := h [.cutCsi false ['3', '1'], .csi false ['0'] 'm'] (by
    simp [Written, Piece.Written, Piece.Before, Piece.IsSequence, isFinal])
  simp [textOf, Piece.text, opening, withoutAnsi, isAnsiIntroducer, ansiSequence, csiBody, isFinal,
    Piece.seen] at hshown

end Lvu.App.Ansi
