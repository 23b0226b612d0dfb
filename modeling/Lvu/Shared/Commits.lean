import Lvu.Machine.Run
import Lvu.Shared.CommitTable

/-!
# Runs of the commit table

Windows, handlers and sessions call the tables in any order, with any arguments.  An exchange is a
call and what it returned.

* `EpochFixed.run` : what is known of the slot of an epoch stays known; no epoch comes back.
* `commits_governed` : every table of every session grants, settles and replays as it should.
* `status_superseded` : an outcome is replayed only while the slot holds the attempt.
-/

namespace Lvu.Commit

/-- A call and what it returned. -/
abbrev Exchange := Call × Answer

/-- The machine of one table. -/
def table : Machine TableState Exchange := ⟨fun t x t' => serve t x.1 = (x.2, t')⟩

/-- An exchange with the table of a session. -/
structure Entry where
  session : String
  exchange : Exchange

/-- The machine of the tables of all sessions: a handler calls the table it was admitted by. -/
def sessions : Machine (String → TableState) Entry :=
  ⟨fun ts e ts' => table.step (ts e.session) e.exchange (ts' e.session) ∧
    ∀ session ≠ e.session, ts' session = ts session⟩

/-- The exchanges of a session. -/
def exchangesOf (session : String) (es : List Entry) : List Exchange :=
  (es.filter (·.session = session)).map (·.exchange)

theorem run_exchangesOf {ts ts' : String → TableState} {es : List Entry}
    (h : sessions.Run ts es ts') (session : String) :
    table.Run (ts session) (exchangesOf session es) (ts' session) := by
  induction h with
  | nil => exact .nil
  | @snoc es ts₁ e ts₂ _ hst ih =>
    obtain ⟨hcall, hothers⟩ := hst
    by_cases he : e.session = session
    · subst he
      have hmine : exchangesOf e.session (es ++ [e]) = exchangesOf e.session es ++ [e.exchange] := by
        simp [exchangesOf]
      rw [hmine]
      exact ih.snoc hcall
    · have hother : exchangesOf session (es ++ [e]) = exchangesOf session es := by
        simp [exchangesOf, he]
      rw [hother, hothers session (Ne.symm he)]
      exact ih

/-! ### What exchanges say -/

/-- An attempt was admitted, under this epoch. -/
def grant (r : CommitRequest) (epoch : UInt64) : Exchange := (.commit r, .admission (.verify epoch))

/-- The epochs granted. -/
def granted (xs : List Exchange) : List UInt64 :=
  xs.filterMap fun x => match x.2 with
    | .admission (.verify epoch) => some epoch
    | _ => none

/-- An attempt was decided, or was not its slot's. -/
def CommitOutcome.IsVerdict : CommitOutcome → Prop
  | .committed _ | .stale _ => True
  | _ => False

/-- A handler settles the attempt it was granted. -/
def settlement (r : CommitRequest) (epoch : UInt64) (current : List UnionSourceFence)
    (outcome : CommitOutcome) : Exchange :=
  (.settle r.windowId r.unionViewId epoch r current, .outcome outcome)

/-- The slot of a union of a window goes to another attempt, or goes away. -/
def Displaces (windowId unionViewId : String) : Exchange → Prop
  | (.commit r, .admission (.verify _)) => r.windowId = windowId ∧ r.unionViewId = unionViewId
  | (.detachWindow w, _) => w = windowId
  | _ => False

/-- A window detaches. -/
def Detaches (windowId : String) : Exchange → Prop
  | (.detachWindow w, _) => w = windowId
  | _ => False

/-- The table goes out of service. -/
def Ends : Exchange → Prop
  | (.retire, _) => True
  | (.commit _, .admission (.answer outcome)) => outcome = .refused epochExhaustedReason
  | _ => False

variable {t t' : TableState} {x : Exchange} {xs : List Exchange}

/-! ### One exchange -/

/-- The bounds of a table. -/
structure Bounded (t : TableState) : Prop where
  windows_le : t.windows.size ≤ maxCommitWindows
  unions_le : ∀ w, (t.unions w).size ≤ maxReceiptsPerWindow

theorem mem_entry (w : String) : w ∈ (t.entry w).windows := by
  unfold TableState.entry
  split_ifs with h
  · exact h
  · exact (AList.mem_insert _).2 (.inl rfl)

variable {w u : String} {r : CommitRequest} {current : List UnionSourceFence}
  {outcome : CommitOutcome} {slot : UnionSlot}

theorem bounded_entry (h : Bounded t) (hroom : w ∈ t.windows ∨ t.windows.size < maxCommitWindows) :
    Bounded (t.entry w) := by
  refine ⟨?_, fun w' => by rw [TableState.unions_entry]; exact h.unions_le w'⟩
  unfold TableState.entry
  split_ifs with hw
  · exact h.windows_le
  · rw [Dict.size_insert_of_notMem hw]
    exact hroom.resolve_left hw

/-- **What an exchange does to the slots.**  It admits an attempt, settles one, detaches a window,
or leaves every slot as it is. -/
theorem step_cases (h : table.step t x t') :
    (∃ r epoch, x = grant r epoch ∧ Admits t r ∧ t.allocEpoch = some epoch ∧
      t' = t.admitted r epoch) ∨
    (∃ w u epoch r current slot, x = (.settle w u epoch r current,
        .outcome (verdict slot.frozen current)) ∧ t.slot w u = some slot ∧
      slot.outcome = .pending ∧ slot.attemptEpoch = epoch ∧ sameAttempt slot r = true ∧
      t' = t.put w u { slot with outcome := .settled (verdict slot.frozen current) }) ∨
    (∃ w held, x = (.detachWindow w, .held held) ∧ t' = (detachWindow t w).2) ∨
    (t'.nextEpoch = t.nextEpoch ∧ (∀ w u, t'.slot w u = t.slot w u) ∧
      (t' = t ∨ Ends x) ∧ (∀ w u, ¬ Displaces w u x) ∧ (Bounded t → Bounded t')) := by
  obtain ⟨call, answer⟩ := x
  cases call with
  | commit r =>
    rcases commit_cases t r with ⟨outcome, hr⟩ | ⟨epoch, ha, halloc, hr⟩ | ⟨ha, halloc, hr⟩
    · simp only [table, serve, hr, Prod.map, id, Prod.mk.injEq] at h
      obtain ⟨rfl, rfl⟩ := h
      exact .inr (.inr (.inr ⟨rfl, fun _ _ => rfl, .inl rfl, fun _ _ => id, id⟩))
    · simp only [table, serve, hr, Prod.map, id, Prod.mk.injEq] at h
      obtain ⟨rfl, rfl⟩ := h
      exact .inl ⟨r, epoch, rfl, ha, halloc, rfl⟩
    · simp only [table, serve, hr, Prod.map, id, Prod.mk.injEq] at h
      obtain ⟨rfl, rfl⟩ := h
      refine .inr (.inr (.inr ⟨?_, fun w u => t.slot_entry r.windowId w u, .inr rfl,
        fun _ _ => id, fun hb => ?_⟩))
      · unfold TableState.entry
        split_ifs <;> rfl
      · have := bounded_entry hb ha.room
        exact ⟨this.1, this.2⟩
  | settle w u epoch r current =>
    rcases settle_cases t w u epoch r current with ⟨outcome, hr⟩ | ⟨slot, hs, hp, he, hsame, -, hr⟩
    · simp only [table, serve, hr, Prod.map, id, Prod.mk.injEq] at h
      obtain ⟨-, rfl⟩ := h
      exact .inr (.inr (.inr ⟨rfl, fun _ _ => rfl, .inl rfl, fun _ _ => id, id⟩))
    · simp only [table, serve, hr, Prod.map, id, Prod.mk.injEq] at h
      obtain ⟨rfl, rfl⟩ := h
      exact .inr (.inl ⟨w, u, epoch, r, current, slot, rfl, hs, hp, he, hsame, rfl⟩)
  | status w u g nonce digest =>
    simp only [table, serve, Prod.mk.injEq] at h
    obtain ⟨-, rfl⟩ := h
    exact .inr (.inr (.inr ⟨rfl, fun _ _ => rfl, .inl rfl, fun _ _ => id, id⟩))
  | detachWindow w =>
    simp only [table, serve, detachWindow, Prod.map, id, Prod.mk.injEq] at h
    obtain ⟨rfl, rfl⟩ := h
    exact .inr (.inr (.inl ⟨w, _, rfl, rfl⟩))
  | retire =>
    simp only [table, serve, retire, Prod.mk.injEq] at h
    obtain ⟨-, rfl⟩ := h
    exact .inr (.inr (.inr ⟨rfl, fun _ _ => rfl, .inr trivial, fun _ _ => id,
      fun hb => ⟨hb.1, hb.2⟩⟩))

theorem TableState.slot_admitted (r : CommitRequest) (epoch : UInt64) (w u : String) :
    (t.admitted r epoch).slot w u =
      if w = r.windowId ∧ u = r.unionViewId then some (r.slot epoch) else t.slot w u := by
  have hsame : ∀ w u, ({ t.entry r.windowId with nextEpoch := epoch } : TableState).slot w u =
      t.slot w u := fun w u => t.slot_entry r.windowId w u
  rw [TableState.admitted, TableState.slot_put, hsame]

theorem lt_of_allocEpoch {epoch : UInt64} (h : t.allocEpoch = some epoch) :
    t.nextEpoch < epoch := by
  have := checkedAdd_eq_some.1 h
  rw [UInt64.lt_iff_toNat_lt, this]
  exact Nat.lt_succ_self _

/-! ### What is known of an epoch -/

/-- Every slot of this epoch is as `P` says, and the epoch is not to be granted any more. -/
def EpochFixed (epoch : UInt64) (P : String → String → UnionSlot → Prop) (t : TableState) : Prop :=
  epoch ≤ t.nextEpoch ∧ ∀ w u slot, t.slot w u = some slot → slot.attemptEpoch = epoch → P w u slot

/-- What a settlement does not change. -/
def Lasts (P : String → String → UnionSlot → Prop) : Prop :=
  ∀ w u slot outcome, P w u slot → slot.outcome = .pending →
    P w u { slot with outcome := .settled outcome }

variable {epoch : UInt64} {P : String → String → UnionSlot → Prop}

theorem EpochFixed.step (hP : Lasts P) (h : EpochFixed epoch P t) (hst : table.step t x t') :
    EpochFixed epoch P t' := by
  obtain ⟨hle, hall⟩ := h
  rcases step_cases hst with ⟨r, e, -, -, halloc, rfl⟩ |
    ⟨w, u, e, r, current, slot, -, hslot, hpending, -, -, rfl⟩ | ⟨w, held, -, rfl⟩ | ⟨hnext, hsame, -⟩
  · have hlt := lt_of_allocEpoch halloc
    refine ⟨UInt64.le_trans hle (UInt64.le_of_lt hlt), fun w u slot hs he => ?_⟩
    rw [TableState.slot_admitted] at hs
    split_ifs at hs with hkey
    · -- the new slot has a new epoch
      obtain rfl : r.slot e = slot := Option.some.inj hs
      have heq : e = epoch := he
      rw [heq] at hlt
      exact absurd hle (UInt64.not_le.2 hlt)
    · exact hall w u slot hs he
  · refine ⟨hle, fun w' u' slot' hs he => ?_⟩
    rw [TableState.slot_put] at hs
    split_ifs at hs with hkey
    · obtain ⟨rfl, rfl⟩ := hkey
      rw [← Option.some.inj hs] at he ⊢
      exact hP _ _ slot _ (hall _ _ slot hslot he) hpending
    · exact hall w' u' slot' hs he
  · refine ⟨hle, fun w' u' slot' hs he => ?_⟩
    rw [TableState.slot_detach] at hs
    split_ifs at hs
    exact hall w' u' slot' hs he
  · exact ⟨hnext ▸ hle, fun w u slot hs he => hall w u slot (hsame w u ▸ hs) he⟩

/-- **What is known of an epoch stays known.** -/
theorem EpochFixed.run (hP : Lasts P) (h : EpochFixed epoch P t) (hrun : table.Run t xs t') :
    EpochFixed epoch P t' :=
  hrun.invariant h fun _ _ _ hs hst => EpochFixed.step hP hs hst

/-! ### Granted attempts -/

/-- The slot holds the attempt. -/
structure Holds (r : CommitRequest) (windowId unionViewId : String) (slot : UnionSlot) : Prop where
  window_eq : windowId = r.windowId
  union_eq : unionViewId = r.unionViewId
  generation_eq : slot.highestGeneration = r.candidateGeneration
  nonce_eq : slot.nonce = r.nonce
  digest_eq : slot.digest = r.digest
  frozen_eq : slot.frozen = r.frozen

theorem lasts_holds (r : CommitRequest) : Lasts (Holds r) :=
  fun _ _ _ _ h _ => { h with }

/-- The epochs of the slots are distinct, and none of them is to be granted any more. -/
structure Distinct (t : TableState) : Prop where
  le_next : ∀ w u slot, t.slot w u = some slot → slot.attemptEpoch ≤ t.nextEpoch
  same : ∀ w u slot w' u' slot', t.slot w u = some slot → t.slot w' u' = some slot' →
    slot.attemptEpoch = slot'.attemptEpoch → w = w' ∧ u = u'

theorem Distinct.of_slots (h : Distinct t) (hle : t.nextEpoch ≤ t'.nextEpoch)
    (hslots : ∀ w u slot, t'.slot w u = some slot →
      ∃ slot', t.slot w u = some slot' ∧ slot'.attemptEpoch = slot.attemptEpoch) : Distinct t' where
  le_next w u slot hs := by
    obtain ⟨slot', hs', he⟩ := hslots w u slot hs
    exact UInt64.le_trans (he ▸ h.le_next w u slot' hs') hle
  same w u slot w' u' slot' hs hs' he := by
    obtain ⟨s₁, h₁, he₁⟩ := hslots w u slot hs
    obtain ⟨s₂, h₂, he₂⟩ := hslots w' u' slot' hs'
    exact h.same w u s₁ w' u' s₂ h₁ h₂ (he₁.trans (he.trans he₂.symm))

theorem Distinct.step (h : Distinct t) (hst : table.step t x t') : Distinct t' := by
  rcases step_cases hst with ⟨r, e, -, -, halloc, rfl⟩ |
    ⟨w, u, e, r, current, slot, -, hslot, -, -, -, rfl⟩ | ⟨w, held, -, rfl⟩ | ⟨hnext, hsame, -⟩
  · have hlt := lt_of_allocEpoch halloc
    have hold : ∀ {w u slot}, t.slot w u = some slot → slot.attemptEpoch ≠ e := fun hs he =>
      absurd (he ▸ h.le_next _ _ _ hs) (UInt64.not_le.2 hlt)
    constructor
    · intro w u slot hs
      rw [TableState.slot_admitted] at hs
      split_ifs at hs with hkey
      · rw [← Option.some.inj hs]
        exact UInt64.le_refl e
      · exact UInt64.le_trans (h.le_next w u slot hs) (UInt64.le_of_lt hlt)
    · intro w u slot w' u' slot' hs hs' he
      rw [TableState.slot_admitted] at hs hs'
      split_ifs at hs with hkey <;> split_ifs at hs' with hkey'
      · exact ⟨hkey.1.trans hkey'.1.symm, hkey.2.trans hkey'.2.symm⟩
      · rw [← Option.some.inj hs] at he
        exact absurd he.symm (hold hs')
      · rw [← Option.some.inj hs'] at he
        exact absurd he (hold hs)
      · exact h.same w u slot w' u' slot' hs hs' he
  · refine h.of_slots (UInt64.le_refl _) fun w' u' slot' hs => ?_
    rw [TableState.slot_put] at hs
    split_ifs at hs with hkey
    · obtain ⟨rfl, rfl⟩ := hkey
      rw [← Option.some.inj hs]
      exact ⟨slot, hslot, rfl⟩
    · exact ⟨slot', hs, rfl⟩
  · refine h.of_slots (UInt64.le_refl _) fun w' u' slot' hs => ?_
    rw [TableState.slot_detach] at hs
    split_ifs at hs
    exact ⟨slot', hs, rfl⟩
  · exact h.of_slots (hnext ▸ UInt64.le_refl _) fun w u slot hs => ⟨slot, hsame w u ▸ hs, rfl⟩

theorem slot_new (w u : String) : TableState.new.slot w u = none := by
  simp [TableState.slot, TableState.unions, TableState.new]

theorem distinct_new : Distinct .new :=
  ⟨fun w u _ hs => absurd hs (by simp [slot_new]), fun w u _ _ _ _ hs => absurd hs (by simp [slot_new])⟩

theorem distinct_run (h : table.Run .new xs t) : Distinct t :=
  h.invariant distinct_new fun _ _ _ hs hst => hs.step hst

/-- **A granted epoch is that of its attempt**, as long as the slot is there. -/
theorem epochFixed_grant (hdistinct : Distinct t) (hst : table.step t (grant r epoch) t') :
    checkRequestBounds r = .ok () ∧ EpochFixed epoch (Holds r) t' := by
  rcases step_cases hst with ⟨r', e, hx, ha, halloc, rfl⟩ | ⟨w, u, e, r', current, slot, hx, -⟩ |
    ⟨w, held, hx, -⟩ | ⟨-, -, -, hkeeps, -⟩
  · simp only [grant, Prod.mk.injEq, Call.commit.injEq, Answer.admission.injEq,
      CommitAdmission.verify.injEq] at hx
    obtain ⟨rfl, rfl⟩ := hx
    refine ⟨ha.bounds, UInt64.le_refl _, fun w u slot hs he => ?_⟩
    rw [TableState.slot_admitted] at hs
    split_ifs at hs with hkey
    · rw [← Option.some.inj hs]
      exact ⟨hkey.1, hkey.2, rfl, rfl, rfl, rfl⟩
    · have hle := hdistinct.le_next w u slot hs
      rw [he] at hle
      exact absurd hle (UInt64.not_le.2 (lt_of_allocEpoch halloc))
  · simp [grant] at hx
  · simp [grant] at hx
  · exact absurd ⟨rfl, rfl⟩ (hkeeps r.windowId r.unionViewId)

/-- **Once its slot is lost, an epoch is nobody's.** -/
theorem epochFixed_displaced (h : EpochFixed epoch (Holds r) t) (hst : table.step t x t')
    (hx : Displaces r.windowId r.unionViewId x) : EpochFixed epoch (fun _ _ _ => False) t' := by
  have h' := h.step (lasts_holds r) hst
  refine ⟨h'.1, fun w u slot hs he => ?_⟩
  obtain ⟨rfl, rfl, -⟩ := h'.2 w u slot hs he
  rcases step_cases hst with ⟨r', e, rfl, -, halloc, rfl⟩ | ⟨w, u, e, r', current, slot, rfl, -⟩ |
    ⟨w, held, rfl, rfl⟩ | ⟨-, -, -, hkeeps, -⟩
  · obtain ⟨hw, hu⟩ := hx
    rw [TableState.slot_admitted, if_pos ⟨hw.symm, hu.symm⟩] at hs
    obtain rfl : r'.slot e = slot := Option.some.inj hs
    obtain rfl : e = epoch := he
    exact absurd h.1 (UInt64.not_le.2 (lt_of_allocEpoch halloc))
  · exact hx
  · obtain rfl : w = r.windowId := hx
    rw [TableState.slot_detach, if_pos rfl] at hs
    exact absurd hs (by simp)
  · exact hkeeps _ _ hx

theorem settle_nobody (h : EpochFixed epoch (fun _ _ _ => False) t) (w u : String)
    (r : CommitRequest) (current : List UnionSourceFence) :
    ∃ outcome, settle t w u epoch r current = (outcome, t) ∧ ¬ outcome.IsVerdict := by
  unfold settle
  split_ifs with hretired
  · exact ⟨_, rfl, id⟩
  · cases hslot : t.slot w u with
    | none => exact ⟨_, rfl, id⟩
    | some slot =>
      have hother : slot.attemptEpoch ≠ epoch := fun he => h.2 w u slot hslot he
      exact ⟨_, if_pos (.inl hother), id⟩

/-! ### Settled attempts -/

/-- A verdict stands in the slot it was given for. -/
theorem settled_of_verdict (h : table.step t (.settle w u epoch r current, .outcome outcome) t')
    (hverdict : outcome.IsVerdict) :
    ∃ slot, t'.slot w u = some slot ∧ slot.attemptEpoch = epoch ∧
      slot.outcome = .settled outcome ∧ t'.retired = false := by
  simp only [table, serve, Prod.map, id, Prod.mk.injEq, Answer.outcome.injEq] at h
  obtain ⟨hout, rfl⟩ := h
  unfold settle at hout ⊢
  split_ifs at hout ⊢ with hretired
  · rw [← hout] at hverdict
    exact hverdict.elim
  · cases hslot : t.slot w u with
    | none =>
      simp only [hslot] at hout
      rw [← hout] at hverdict
      exact hverdict.elim
    | some slot =>
      simp only [hslot] at hout ⊢
      split_ifs at hout ⊢ with hmine
      · rw [← hout] at hverdict
        exact hverdict.elim
      · rw [not_or, not_not] at hmine
        have hserving : t.retired = false := by simpa using hretired
        cases hstate : slot.outcome with
        | settled o =>
          simp only [hstate] at hout ⊢
          exact ⟨slot, hslot, hmine.1, hout ▸ hstate, hserving⟩
        | pending =>
          simp only [hstate] at hout ⊢
          exact ⟨{ slot with outcome := .settled (verdict slot.frozen current) },
            by rw [TableState.slot_put, if_pos ⟨rfl, rfl⟩], hmine.1, by rw [hout], hserving⟩

/-- **A verdict is that of its epoch.** -/
theorem epochFixed_settled (hdistinct : Distinct t)
    (h : table.step t (.settle w u epoch r current, .outcome outcome) t')
    (hverdict : outcome.IsVerdict) :
    EpochFixed epoch (fun _ _ slot => slot.outcome = .settled outcome) t' := by
  obtain ⟨slot, hs, rfl, hsettled, -⟩ := settled_of_verdict h hverdict
  have hdistinct' := hdistinct.step h
  refine ⟨hdistinct'.le_next w u slot hs, fun w' u' slot' hs' he => ?_⟩
  obtain ⟨rfl, rfl⟩ := hdistinct'.same w' u' slot' w u slot hs' hs he
  obtain rfl : slot = slot' := Option.some.inj (hs.symm.trans hs')
  exact hsettled

theorem slot_kept (hs : t.slot w u = some slot) (hsettled : slot.outcome = .settled outcome)
    (hst : table.step t x t') (hx : ¬ Displaces w u x) : t'.slot w u = some slot := by
  rcases step_cases hst with ⟨r', e, rfl, -, -, rfl⟩ |
    ⟨w', u', e, r', current, slot', -, hslot', hpending, -, -, rfl⟩ | ⟨w', held, rfl, rfl⟩ |
    ⟨-, hsame, -⟩
  · rw [TableState.slot_admitted, if_neg fun hkey => hx ⟨hkey.1.symm, hkey.2.symm⟩]
    exact hs
  · rw [TableState.slot_put, if_neg, hs]
    rintro ⟨rfl, rfl⟩
    obtain rfl : slot = slot' := Option.some.inj (hs.symm.trans hslot')
    rw [hsettled] at hpending
    exact absurd hpending (by simp)
  · rw [TableState.slot_detach, if_neg fun hw => hx hw.symm]
    exact hs
  · rw [hsame]
    exact hs

theorem serving_kept (h : t.retired = false) (hst : table.step t x t') (hx : ¬ Ends x) :
    t'.retired = false := by
  rcases step_cases hst with ⟨r', e, rfl, -, -, rfl⟩ | ⟨w', u', e, r', current, slot', -, -, -, -, -, rfl⟩ |
    ⟨w', held, rfl, rfl⟩ | ⟨-, -, rfl | hends, -, -⟩
  · unfold TableState.admitted TableState.put TableState.entry
    split_ifs <;> exact h
  · exact h
  · exact h
  · exact h
  · exact absurd hends hx

/-! ### Invariants of a table -/

/-- What holds of every slot: its fences name each source once, and are those the worker saw where
it was committed. -/
def Verified (slot : UnionSlot) : Prop :=
  (slot.frozen.map (·.sourceId)).Nodup ∧ slot.frozen.length ≤ maxCommitSources ∧
    ∀ current, slot.outcome = .settled (.committed current) → current.Perm slot.frozen

theorem perm_of_verdict {frozen current' : List UnionSourceFence}
    (hn : (frozen.map (·.sourceId)).Nodup) (h : verdict frozen current = .committed current') :
    current'.Perm frozen := by
  unfold verdict at h
  cases hv : verifyRawFence frozen current with
  | ok u =>
    simp only [hv, CommitOutcome.committed.injEq] at h
    exact h ▸ (verifyRawFence_ok hn).1 hv
  | error detail => simp [hv] at h

theorem verified_step (h : ∀ w u slot, t.slot w u = some slot → Verified slot)
    (hst : table.step t x t') : ∀ w u slot, t'.slot w u = some slot → Verified slot := by
  rcases step_cases hst with ⟨r, e, -, ha, -, rfl⟩ |
    ⟨w, u, e, r, current, slot, -, hslot, -, -, -, rfl⟩ | ⟨w, held, -, rfl⟩ | ⟨-, hsame, -⟩
  · intro w u slot hs
    rw [TableState.slot_admitted] at hs
    split_ifs at hs with hkey
    · obtain ⟨hn, hle⟩ := nodup_of_checkRequestBounds ha.bounds
      rw [← Option.some.inj hs]
      exact ⟨hn, hle, fun current hc => absurd hc (by simp [CommitRequest.slot])⟩
    · exact h w u slot hs
  · intro w' u' slot' hs
    rw [TableState.slot_put] at hs
    split_ifs at hs with hkey
    · obtain ⟨hn, hle, -⟩ := h w u slot hslot
      rw [← Option.some.inj hs]
      refine ⟨hn, hle, fun current' hc => ?_⟩
      simp only [SlotOutcome.settled.injEq] at hc
      exact perm_of_verdict hn hc
    · exact h w' u' slot' hs
  · intro w' u' slot' hs
    rw [TableState.slot_detach] at hs
    split_ifs at hs
    exact h w' u' slot' hs
  · exact fun w u slot hs => h w u slot (hsame w u ▸ hs)

theorem mem_windows_of_slot (h : t.slot w u = some slot) : w ∈ t.windows := by
  by_contra hw
  simp [TableState.slot, TableState.unions, AList.lookup_eq_none.2 hw] at h

/-- A slot written into a window that has its entry takes the room of one slot at most. -/
theorem bounded_put (h : Bounded t) (hw : w ∈ t.windows) (slot : UnionSlot)
    (hu : t.slot w u = none → (t.unions w).size < maxReceiptsPerWindow) :
    Bounded (t.put w u slot) := by
  refine ⟨(Dict.size_insert_of_mem hw _).le.trans h.windows_le, fun w' => ?_⟩
  by_cases hw' : w' = w
  · obtain rfl := hw'
    have hunions : (t.put w' u slot).unions w' = (t.unions w').insert u slot := by
      simp only [TableState.put, TableState.unions, AList.lookup_insert, Option.getD_some]
    rw [hunions]
    by_cases hmem : u ∈ t.unions w'
    · exact (Dict.size_insert_of_mem hmem slot).le.trans (h.unions_le w')
    · have := hu (AList.lookup_eq_none.2 hmem)
      rw [Dict.size_insert_of_notMem hmem]
      exact this
  · have hunions : (t.put w u slot).unions w' = t.unions w' := by
      simp only [TableState.put, TableState.unions, AList.lookup_insert_ne hw']
    rw [hunions]
    exact h.unions_le w'

theorem bounded_step (h : Bounded t) (hst : table.step t x t') : Bounded t' := by
  rcases step_cases hst with ⟨r, e, -, ha, -, rfl⟩ |
    ⟨w, u, e, r, current, slot, -, hslot, -, -, -, rfl⟩ | ⟨w, held, -, rfl⟩ | ⟨-, -, -, -, hkeeps⟩
  · have hroom := bounded_entry h ha.room
    have hentry : Bounded { t.entry r.windowId with nextEpoch := e } := ⟨hroom.1, hroom.2⟩
    refine bounded_put hentry (mem_entry r.windowId) _ fun hnone => ?_
    have hslot : t.slot r.windowId r.unionViewId = none :=
      (t.slot_entry r.windowId r.windowId r.unionViewId).symm.trans hnone
    exact (congrArg Dict.size (t.unions_entry r.windowId r.windowId)).trans_lt (ha.place hslot)
  · exact bounded_put h (mem_windows_of_slot hslot) _ fun hnone => by simp [hslot] at hnone
  · refine ⟨(Dict.size_erase_le _ _).trans h.windows_le, fun w' => ?_⟩
    by_cases hw : w' = w
    · obtain rfl := hw
      simp only [detachWindow, TableState.unions, AList.lookup_erase, Option.getD_none]
      exact Nat.zero_le _
    · have hunions : (detachWindow t w).2.unions w' = t.unions w' := by
        simp only [detachWindow, TableState.unions, AList.lookup_erase_ne hw]
      rw [hunions]
      exact h.unions_le w'
  · exact hkeeps h

/-! ### The runs -/

/-- **What holds of the exchanges `xs` with a table, and of the table after them.** -/
structure Governed (xs : List Exchange) (t : TableState) : Prop where
  /-- Each epoch is granted once. -/
  granted_once : (granted xs).Nodup
  /-- An attempt is decided once. -/
  decided_once : ∀ epoch w u r current outcome w' u' r' current' outcome',
    (.settle w u epoch r current, .outcome outcome) ∈ xs → outcome.IsVerdict →
    (.settle w' u' epoch r' current', .outcome outcome') ∈ xs → outcome'.IsVerdict →
      outcome' = outcome
  /-- While the slot holds the attempt and the table serves, its outcome is what is answered. -/
  replayed : ∀ r epoch current outcome before after, grant r epoch ∈ before →
    xs = before ++ settlement r epoch current outcome :: after → outcome.IsVerdict →
    (∀ x ∈ after, ¬ Ends x ∧ ¬ Displaces r.windowId r.unionViewId x) →
      commit t r = (.answer outcome, t) ∧
        status t r.windowId r.unionViewId r.candidateGeneration r.nonce r.digest = .settled outcome
  /-- The highest generation of a slot does not go down while its window is attached. -/
  climbs : ∀ before after m, xs = before ++ after → table.Run .new before m → table.Run m after t →
    ∀ w u slot, m.slot w u = some slot → (∀ x ∈ after, ¬ Detaches w x) →
      ∃ slot', t.slot w u = some slot' ∧ slot.highestGeneration ≤ slot'.highestGeneration
  /-- An older generation is superseded. -/
  superseded : ∀ w u slot, t.retired = false → t.slot w u = some slot →
    (∀ r, r.windowId = w → r.unionViewId = u → checkRequestBounds r = .ok () →
      r.candidateGeneration < slot.highestGeneration → commit t r = (.answer .superseded, t)) ∧
    ∀ g < slot.highestGeneration, ∀ nonce digest,
      status t w u g nonce digest = .settled .superseded
  /-- A commitment was made over the very fences that were frozen, each source once. -/
  fenced : ∀ w u slot current, t.slot w u = some slot → slot.outcome = .settled (.committed current) →
    (slot.frozen.map (·.sourceId)).Nodup ∧ current.Perm slot.frozen
  /-- A handler whose slot was displaced changes nothing any more. -/
  displaced : ∀ r epoch before after, xs = before ++ grant r epoch :: after →
    (∃ x ∈ after, Displaces r.windowId r.unionViewId x) → ∀ w u r' current,
      ∃ outcome, settle t w u epoch r' current = (outcome, t) ∧ ¬ outcome.IsVerdict
  /-- Nor does a handler of a table that is out of service. -/
  retired : t.retired = true → ∀ w u epoch r current,
    settle t w u epoch r current = (.refused sessionResetReason, t)
  /-- The bounds of the table. -/
  bounded : Bounded t ∧ ∀ w u slot, t.slot w u = some slot → slot.frozen.length ≤ maxCommitSources
  /-- A request that is answered at once changes nothing, unless the epochs are used up. -/
  refused : ∀ r outcome t', commit t r = (.answer outcome, t') →
    t' = t ∨ outcome = .refused epochExhaustedReason ∧ t.allocEpoch = none

theorem climbs_step {g : UInt64} (h : ∃ slot, t.slot w u = some slot ∧ g ≤ slot.highestGeneration)
    (hst : table.step t x t') (hx : ¬ Detaches w x) :
    ∃ slot, t'.slot w u = some slot ∧ g ≤ slot.highestGeneration := by
  obtain ⟨slot, hs, hle⟩ := h
  rcases step_cases hst with ⟨r, e, -, ha, -, rfl⟩ |
    ⟨w', u', e, r, current, slot', -, hslot', -, -, -, rfl⟩ | ⟨w', held, rfl, rfl⟩ | ⟨-, hsame, -⟩
  · rw [TableState.slot_admitted]
    split_ifs with hkey
    · obtain ⟨rfl, rfl⟩ := hkey
      exact ⟨_, rfl, UInt64.le_trans hle (UInt64.le_of_lt (ha.newer slot hs).1)⟩
    · exact ⟨slot, hs, hle⟩
  · rw [TableState.slot_put]
    split_ifs with hkey
    · obtain ⟨rfl, rfl⟩ := hkey
      obtain rfl : slot = slot' := Option.some.inj (hs.symm.trans hslot')
      exact ⟨_, rfl, hle⟩
    · exact ⟨slot, hs, hle⟩
  · rw [TableState.slot_detach, if_neg fun hw => hx hw.symm]
    exact ⟨slot, hs, hle⟩
  · exact ⟨slot, (hsame w u).trans hs, hle⟩

/-- An exchange grants no epoch, or the next one. -/
theorem granted_step (hst : table.step t x t') :
    granted [x] = [] ∧ t'.nextEpoch = t.nextEpoch ∨
      ∃ e, granted [x] = [e] ∧ t.nextEpoch < e ∧ t'.nextEpoch = e := by
  rcases step_cases hst with ⟨r, e, rfl, -, halloc, rfl⟩ |
    ⟨w, u, e, r, current, slot, rfl, -, -, -, -, rfl⟩ | ⟨w, held, rfl, rfl⟩ | ⟨hnext, -, -, hkeeps, -⟩
  · exact .inr ⟨e, rfl, lt_of_allocEpoch halloc, rfl⟩
  · exact .inl ⟨rfl, rfl⟩
  · exact .inl ⟨rfl, rfl⟩
  · refine .inl ⟨?_, hnext⟩
    obtain ⟨call, answer⟩ := x
    simp only [table] at hst
    cases call with
    | commit r =>
      obtain rfl : answer = .admission (commit t r).1 := (congrArg Prod.fst hst).symm
      cases hadm : (commit t r).1 with
      | verify e =>
        rw [hadm] at hkeeps
        exact absurd (show Displaces r.windowId r.unionViewId (grant r e) from ⟨rfl, rfl⟩)
          (hkeeps _ _)
      | answer outcome => rfl
    | _ =>
      obtain rfl := (congrArg Prod.fst hst).symm
      rfl

/-- The epochs granted go up. -/
theorem granted_run (h : table.Run .new xs t) :
    (granted xs).Pairwise (· < ·) ∧ ∀ e ∈ granted xs, e ≤ t.nextEpoch := by
  induction h with
  | nil => exact ⟨List.Pairwise.nil, fun e he => absurd he List.not_mem_nil⟩
  | @snoc xs m x t _ hst ih =>
    obtain ⟨hpair, hle⟩ := ih
    have hsplit : granted (xs ++ [x]) = granted xs ++ granted [x] := List.filterMap_append
    rcases granted_step hst with ⟨hnone, hnext⟩ | ⟨e, hone, hlt, hnext⟩
    · rw [hsplit, hnone, List.append_nil, hnext]
      exact ⟨hpair, hle⟩
    · rw [hsplit, hone, hnext]
      refine ⟨List.pairwise_append.2 ⟨hpair, List.pairwise_singleton _ _, fun a ha b hb => ?_⟩,
        fun a ha => ?_⟩
      · rw [List.mem_singleton.1 hb]
        exact UInt64.lt_of_le_of_lt (hle a ha) hlt
      · rcases List.mem_append.1 ha with ha | ha
        · exact UInt64.le_trans (hle a ha) (UInt64.le_of_lt hlt)
        · rw [List.mem_singleton.1 ha]
          exact UInt64.le_refl e

theorem epochFixed_of_grant {before after : List Exchange}
    (h : table.Run .new (before ++ grant r epoch :: after) t) :
    checkRequestBounds r = .ok () ∧ ∃ m, table.Run m after t ∧ EpochFixed epoch (Holds r) m := by
  obtain ⟨m₀, h₀, h₁⟩ := h.split
  obtain ⟨m, hst, h₂⟩ := h₁.cons_split
  obtain ⟨hbounds, hholds⟩ := epochFixed_grant (distinct_run h₀) hst
  exact ⟨hbounds, m, h₂, hholds⟩

theorem bounded_new : Bounded .new := ⟨Nat.zero_le _, fun _ => Nat.zero_le _⟩

/-- A later verdict on the same epoch is the same. -/
theorem decided_later {before after : List Exchange} {w' u' : String} {r' : CommitRequest}
    {current' : List UnionSourceFence} {outcome' : CommitOutcome}
    (h : table.Run .new (before ++ (.settle w u epoch r current, .outcome outcome) :: after) t)
    (hv : outcome.IsVerdict) (hmem : (.settle w' u' epoch r' current', .outcome outcome') ∈ after)
    (hv' : outcome'.IsVerdict) : outcome' = outcome := by
  have hlasts : Lasts fun _ _ slot => slot.outcome = .settled outcome := fun _ _ _ _ hs hp =>
    absurd (hp.symm.trans hs) (by simp)
  obtain ⟨m₀, h₀, h₁⟩ := h.split
  obtain ⟨m₁, hst, h₂⟩ := h₁.cons_split
  have hfixed := epochFixed_settled (distinct_run h₀) hst hv
  obtain ⟨as, bs, rfl⟩ := List.append_of_mem hmem
  obtain ⟨m₂, h₃, h₄⟩ := h₂.split
  obtain ⟨m₃, hst', -⟩ := h₄.cons_split
  obtain ⟨slot, hs, he, hsettled, -⟩ := settled_of_verdict hst' hv'
  have hsame := ((hfixed.run hlasts h₃).step hlasts hst').2 _ _ slot hs he
  simpa [hsettled] using hsame

/-- A settled slot answers every request for its attempt with its outcome. -/
theorem replay_of_settled (hs : t.slot r.windowId r.unionViewId = some slot)
    (hserving : t.retired = false) (hsettled : slot.outcome = .settled outcome)
    (hholds : Holds r r.windowId r.unionViewId slot) (hbounds : checkRequestBounds r = .ok ()) :
    commit t r = (.answer outcome, t) ∧
      status t r.windowId r.unionViewId r.candidateGeneration r.nonce r.digest = .settled outcome := by
  constructor
  · have hmem : r.windowId ∈ t.windows := mem_windows_of_slot hs
    have hentry : t.entry r.windowId = t := if_pos hmem
    have hattempt : sameAttempt slot r = true := by
      simp [sameAttempt, hholds.nonce_eq, hholds.digest_eq, hholds.frozen_eq]
    simp only [commit, hbounds, hserving, Bool.false_eq_true, if_false, hmem, not_true_eq_false,
      false_and, hentry, hs, hholds.generation_eq, UInt64.lt_irrefl, if_true, hattempt, hsettled,
      SlotOutcome.answer]
  · simp only [status, hserving, Bool.false_eq_true, if_false, hs, hholds.generation_eq,
      UInt64.lt_irrefl, gt_iff_lt, hholds.nonce_eq, hholds.digest_eq, ne_eq, not_true_eq_false,
      or_self, hsettled]

/-- **Every table of every session is governed so**, whoever calls it and in whatever order. -/
theorem commits_governed {es : List Entry} {ts : String → TableState}
    (h : sessions.Run (fun _ => .new) es ts) (session : String) :
    Governed (exchangesOf session es) (ts session) := by
  have hrun := run_exchangesOf h session
  generalize exchangesOf session es = xs at hrun
  generalize ts session = t at hrun
  have hverified : ∀ w u slot, t.slot w u = some slot → Verified slot :=
    hrun.invariant (I := fun t => ∀ w u slot, t.slot w u = some slot → Verified slot)
      (fun w u slot hs => by simp [TableState.slot, TableState.unions, TableState.new] at hs)
      fun _ _ _ hs hst => verified_step hs hst
  exact {
    granted_once := (granted_run hrun).1.imp UInt64.ne_of_lt
    decided_once := by
      intro epoch w u r current outcome w' u' r' current' outcome' hx hv hx' hv'
      obtain ⟨as, bs, rfl⟩ := List.append_of_mem hx
      -- whichever of the two comes first stands when the other is answered
      rcases List.mem_append.1 hx' with hbefore | hafter
      · obtain ⟨cs, ds, rfl⟩ := List.append_of_mem hbefore
        rw [List.append_assoc, List.cons_append] at hrun
        exact (decided_later hrun hv' (List.mem_append_right _ List.mem_cons_self) hv).symm
      · rcases List.mem_cons.1 hafter with heq | hafter
        · simp only [Prod.mk.injEq, Answer.outcome.injEq] at heq
          exact heq.2
        · exact decided_later hrun hv hafter hv'
    replayed := by
      rintro r epoch current outcome before after hgrant rfl hv hafter
      obtain ⟨m₀, h₀, h₁⟩ := hrun.split
      obtain ⟨m₁, hst, h₂⟩ := h₁.cons_split
      obtain ⟨as, bs, rfl⟩ := List.append_of_mem hgrant
      obtain ⟨hbounds, m, hm, hholds⟩ := epochFixed_of_grant h₀
      obtain ⟨slot, hs, he, hsettled, hserving⟩ := settled_of_verdict hst hv
      have hslot := ((hholds.run (lasts_holds r) hm).step (lasts_holds r) hst).2 _ _ slot hs he
      -- nothing happens to the slot from there on
      obtain ⟨hs', hserving'⟩ := h₂.invariant_of
        (I := fun t => t.slot r.windowId r.unionViewId = some slot ∧ t.retired = false)
        ⟨hs, hserving⟩ hafter fun _ _ _ h hx hst =>
          ⟨slot_kept h.1 hsettled hst hx.2, serving_kept h.2 hst hx.1⟩
      exact replay_of_settled hs' hserving' hsettled hslot hbounds
    climbs := by
      rintro before after m - - hafter w u slot hs hdetach
      exact hafter.invariant_of
        (I := fun t => ∃ slot', t.slot w u = some slot' ∧ slot.highestGeneration ≤ slot'.highestGeneration)
        ⟨slot, hs, UInt64.le_refl _⟩ hdetach fun _ _ _ h hx hst => climbs_step h hst hx
    superseded := by
      intro w u slot hserving hs
      refine ⟨?_, fun g hg nonce digest => ?_⟩
      · rintro r rfl rfl hbounds hold
        have hfull : ¬ (r.windowId ∉ t.windows ∧ t.windows.size ≥ maxCommitWindows) :=
          fun hf => hf.1 (mem_windows_of_slot hs)
        have hentry : t.entry r.windowId = t := if_pos (mem_windows_of_slot hs)
        simp only [commit, hbounds, hserving, Bool.false_eq_true, hfull, if_false, hentry, hs, hold,
          if_true]
      · simp only [status, hserving, Bool.false_eq_true, if_false, hs, hg, if_true]
    fenced := fun w u slot current hs hc =>
      ⟨(hverified w u slot hs).1, (hverified w u slot hs).2.2 current hc⟩
    displaced := by
      rintro r epoch before after rfl ⟨x, hx, hdisplaces⟩ w u r' current
      obtain ⟨-, m, hafter, hholds⟩ := epochFixed_of_grant hrun
      obtain ⟨as, bs, rfl⟩ := List.append_of_mem hx
      obtain ⟨m₁, h₁, h₂⟩ := hafter.split
      obtain ⟨m₂, hst, h₃⟩ := h₂.cons_split
      have hlost := epochFixed_displaced (hholds.run (lasts_holds r) h₁) hst hdisplaces
      exact settle_nobody (hlost.run (fun _ _ _ _ h _ => h) h₃) w u r' current
    retired := fun hr w u epoch r current => by rw [settle, if_pos hr]
    bounded := ⟨hrun.invariant bounded_new fun _ _ _ hs hst => bounded_step hs hst,
      fun w u slot hs => (hverified w u slot hs).2.1⟩
    refused := by
      intro r outcome t' hc
      rcases commit_cases t r with ⟨o, hr⟩ | ⟨e, -, -, hr⟩ | ⟨-, halloc, hr⟩
      · rw [hr] at hc
        exact .inl (congrArg Prod.snd hc).symm
      · rw [hr] at hc
        exact absurd (congrArg Prod.fst hc) (by simp)
      · rw [hr] at hc
        refine .inr ⟨?_, halloc⟩
        simpa using (congrArg Prod.fst hc).symm }

/-! ### Calls one after another -/

/-- The exchanges of calls made one after another, and the table after them. -/
def exchanges (t : TableState) : List Call → List Exchange × TableState
  | [] => ([], t)
  | call :: calls =>
    let (answer, t) := serve t call
    (exchanges t calls).map ((call, answer) :: ·) id

theorem run_exchanges (t : TableState) (calls : List Call) :
    table.Run t (exchanges t calls).1 (exchanges t calls).2 := by
  induction calls generalizing t with
  | nil => exact .nil
  | cons call calls ih =>
    exact (Machine.Run.single (show table.step t (call, (serve t call).1) (serve t call).2 from rfl)).append
      (ih (serve t call).2)

theorem run_session (session : String) (h : table.Run t xs t') {ts : String → TableState}
    (hts : ts session = t) :
    sessions.Run ts (xs.map (Entry.mk session)) (Function.update ts session t') := by
  induction h with
  | nil =>
    rw [← hts, Function.update_eq_self]
    exact .nil
  | @snoc xs m x t' _ hst ih =>
    rw [List.map_append]
    refine ih.snoc ⟨?_, fun other hne => ?_⟩
    · rw [Function.update_self, Function.update_self]
      exact hst
    · rw [Function.update_of_ne hne, Function.update_of_ne hne]

theorem exchangesOf_session (session : String) (xs : List Exchange) :
    exchangesOf session (xs.map (Entry.mk session)) = xs := by
  induction xs with
  | nil => rfl
  | cons x xs ih => simpa [exchangesOf] using ih

/-! ### Two generations of a union -/

/-- A fence. -/
def exampleFence : UnionSourceFence := ⟨"s", 1, some 4⟩

/-- The request of a window for a generation of its union. -/
def exampleRequest (generation : UInt64) (nonce : String) : CommitRequest :=
  ⟨"w", "u", generation, nonce, Vector.replicate 32 0, [exampleFence]⟩

/-- The first generation is committed and the next one admitted. -/
def exampleCalls : List Call :=
  [.commit (exampleRequest 1 "a"), .settle "w" "u" 1 (exampleRequest 1 "a") [exampleFence],
    .commit (exampleRequest 2 "b")]

/-- The exchanges of `exampleCalls`. -/
def exampleExchanges : List Exchange :=
  [grant (exampleRequest 1 "a") 1,
    settlement (exampleRequest 1 "a") 1 [exampleFence] (.committed [exampleFence]),
    grant (exampleRequest 2 "b") 2]

theorem exchanges_exampleCalls : (exchanges .new exampleCalls).1 = exampleExchanges := by
  decide +kernel

theorem run_exampleCalls : sessions.Run (fun _ => .new) (exampleExchanges.map (Entry.mk "x"))
    (Function.update (fun _ => .new) "x" (exchanges .new exampleCalls).2) := by
  have h := run_exchanges .new exampleCalls
  rw [exchanges_exampleCalls] at h
  exact run_session "x" h rfl

theorem commits_governed_two : Governed exampleExchanges (exchanges .new exampleCalls).2 := by
  have h := commits_governed run_exampleCalls "x"
  rwa [exchangesOf_session, Function.update_self] at h

/-- **Not every later status returns the outcome**: after the next generation is admitted, the
committed one is superseded. -/
theorem status_superseded : ¬ ∀ (es : List Entry) (ts : String → TableState) (session : String)
    (r : CommitRequest) (epoch : UInt64) (current : List UnionSourceFence) (outcome : CommitOutcome)
    (before after : List Exchange), sessions.Run (fun _ => .new) es ts → grant r epoch ∈ before →
    exchangesOf session es = before ++ settlement r epoch current outcome :: after →
    outcome.IsVerdict →
      status (ts session) r.windowId r.unionViewId r.candidateGeneration r.nonce r.digest =
        .settled outcome := by
  intro hall
  have hlater := hall _ _ "x" (exampleRequest 1 "a") 1 [exampleFence] (.committed [exampleFence])
    [grant (exampleRequest 1 "a") 1] [grant (exampleRequest 2 "b") 2] run_exampleCalls
    (by simp) (exchangesOf_session "x" exampleExchanges) trivial
  rw [Function.update_self] at hlater
  exact absurd hlater (by decide +kernel)

end Lvu.Commit
