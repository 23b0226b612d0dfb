import Lvu.Shared.Connections
import Lvu.Shared.Commits

/-!
# Receipts of attached windows

The commit table has room for as many windows as the worker attaches.  A window that goes should
take its receipts along.

* `Owned` : what the table holds is held for windows that are attached.
* `receipts_owned` : it is so while no window goes that holds receipts.
* `goodbye_keeps_receipts` : a window that goes leaves its receipts behind.
-/

namespace Lvu.Shared

open Commit

/-! ### The windows of a table -/

/-- A commit that gets, or has, a place for its window. -/
def TakesPlace (t : TableState) (r : CommitRequest) : Prop :=
  (checkRequestBounds r).isOk ∧ t.retired = false ∧
    (r.windowId ∈ t.windows ∨ t.windows.size < maxCommitWindows)

instance (t : TableState) (r : CommitRequest) : Decidable (TakesPlace t r) :=
  inferInstanceAs (Decidable (_ ∧ _ ∧ _))

variable {t t' : TableState} {r : CommitRequest} {id : String}

theorem mem_windows_entry (h : id ∈ (t.entry r.windowId).windows) :
    id ∈ t.windows ∨ id = r.windowId := by
  unfold TableState.entry at h
  split_ifs at h
  · exact .inl h
  · exact ((AList.mem_insert _).1 h).symm

theorem takesPlace_of_admits (h : Admits t r) : TakesPlace t r := by
  refine ⟨?_, h.serving, h.room⟩
  rw [h.bounds]
  rfl

theorem mem_windows_commit (h : id ∈ (commit t r).2.windows) :
    id ∈ t.windows ∨ id = r.windowId ∧ TakesPlace t r := by
  rcases commit_cases t r with ⟨outcome, hr⟩ | ⟨epoch, ha, -, hr⟩ | ⟨ha, -, hr⟩
  · rw [hr] at h
    exact .inl h
  · rw [hr] at h
    rcases (AList.mem_insert _).1 h with heq | hmem
    · exact .inr ⟨heq, takesPlace_of_admits ha⟩
    · exact (mem_windows_entry hmem).imp_right fun heq => ⟨heq, takesPlace_of_admits ha⟩
  · rw [hr] at h
    exact (mem_windows_entry h).imp_right fun heq => ⟨heq, takesPlace_of_admits ha⟩

theorem mem_windows_settle {w u : String} {epoch : UInt64} {current : List UnionSourceFence}
    (h : id ∈ (settle t w u epoch r current).2.windows) : id ∈ t.windows := by
  rcases settle_cases t w u epoch r current with ⟨outcome, hr⟩ | ⟨slot, hs, -, -, -, -, hr⟩
  · rw [hr] at h
    exact h
  · rw [hr] at h
    rcases (AList.mem_insert _).1 h with heq | hmem
    · exact heq ▸ mem_windows_of_slot hs
    · exact hmem

/-- What was settled was decided. -/
def Decided (t : TableState) : Prop :=
  ∀ w u slot outcome, t.slot w u = some slot → slot.outcome = .settled outcome → outcome.IsVerdict

theorem isVerdict_verdict (frozen current : List UnionSourceFence) :
    (verdict frozen current).IsVerdict := by
  unfold verdict
  cases verifyRawFence frozen current <;> trivial

theorem decided_step {x : Exchange} (h : Decided t) (hst : table.step t x t') : Decided t' := by
  rcases step_cases hst with ⟨r, e, -, -, -, rfl⟩ |
    ⟨w, u, e, r, current, slot, -, hslot, -, -, -, rfl⟩ | ⟨w, held, -, rfl⟩ | ⟨-, hsame, -⟩
  · intro w u slot outcome hs ho
    rw [TableState.slot_admitted] at hs
    split_ifs at hs
    · rw [← Option.some.inj hs] at ho
      exact absurd ho (by simp [CommitRequest.slot])
    · exact h w u slot outcome hs ho
  · intro w' u' slot' outcome hs ho
    rw [TableState.slot_put] at hs
    split_ifs at hs
    · rw [← Option.some.inj hs] at ho
      rw [← SlotOutcome.settled.inj ho]
      exact isVerdict_verdict _ _
    · exact h w' u' slot' outcome hs ho
  · intro w' u' slot' outcome hs ho
    rw [TableState.slot_detach] at hs
    split_ifs at hs
    exact h w' u' slot' outcome hs ho
  · exact fun w u slot outcome hs ho => h w u slot outcome (hsame w u ▸ hs) ho

theorem checkRequestBounds_ne (h : checkRequestBounds r = .error "window table full") : False := by
  unfold checkRequestBounds at h
  split_ifs at h <;> exact absurd (Except.error.inj h) (by decide)

/-- **The table is full of other windows** when it has no place for one. -/
theorem full_of_refused (hdecided : Decided t)
    (h : (commit t r).1 = .answer (.refused "window table full")) :
    r.windowId ∉ t.windows ∧ maxCommitWindows ≤ t.windows.size := by
  -- no other answer reads so
  have hreset : CommitAdmission.answer (.refused sessionResetReason) ≠
      .answer (.refused "window table full") := by decide
  have hepochs : CommitAdmission.answer (.refused epochExhaustedReason) ≠
      .answer (.refused "window table full") := by decide
  have hunions : CommitAdmission.answer (.refused "union table full") ≠
      .answer (.refused "window table full") := by decide
  have hsuperseded : CommitAdmission.answer .superseded ≠
      .answer (.refused "window table full") := by decide
  have hnonce : CommitAdmission.answer .nonceConflict ≠
      .answer (.refused "window table full") := by decide
  have hadmits : ∀ t : TableState, (admitAttempt t r).1 ≠ .answer (.refused "window table full") := by
    intro t
    unfold admitAttempt
    cases t.allocEpoch with
    | none => exact hepochs
    | some epoch => simp
  unfold commit at h
  cases hb : checkRequestBounds r with
  | error reason =>
    simp only [hb, CommitAdmission.answer.injEq, CommitOutcome.refused.injEq] at h
    exact (checkRequestBounds_ne (h ▸ hb)).elim
  | ok u =>
    simp only [hb] at h
    by_cases hretired : t.retired = true
    · rw [if_pos hretired] at h
      exact absurd h hreset
    rw [if_neg hretired] at h
    by_cases hfull : r.windowId ∉ t.windows ∧ t.windows.size ≥ maxCommitWindows
    · exact hfull
    rw [if_neg hfull] at h
    simp only [TableState.slot_entry] at h
    cases hslot : t.slot r.windowId r.unionViewId with
    | none =>
      simp only [hslot] at h
      split_ifs at h
      · exact absurd h hunions
      · exact absurd h (hadmits _)
    | some slot =>
      simp only [hslot] at h
      split_ifs at h
      · exact absurd h hsuperseded
      · cases hout : slot.outcome with
        | pending => simp [hout, SlotOutcome.answer] at h
        | settled outcome =>
          have hverdict := hdecided _ _ slot outcome hslot hout
          simp only [hout, SlotOutcome.answer, CommitAdmission.answer.injEq] at h
          rw [h] at hverdict
          exact hverdict.elim
      · exact absurd h hnonce
      · exact absurd h hnonce
      · exact absurd h (hadmits _)

/-! ### Whose the receipts are -/

/-- The ids of the windows that are attached by another connection. -/
def World.othersIds (w : World) (i : ℕ) : Finset String :=
  ((w.connections.eraseIdx i).filterMap (·.windowId)).toFinset

/-- No window goes that holds receipts, and none commits for one that is not attached. -/
def Tidy (size : StoreMethod → ℕ) (w : World) : Event → Prop
  | .exit i _ => ∀ id ∈ w.connections[i]?.bind Connection.windowId,
      id ∈ w.commits.windows → id ∈ w.othersIds i
  | .request i (.store (.unionCommit requestId windowId r)) =>
    ∀ attached ∈ w.connections[i]?.bind Connection.windowId,
      storeRefusal size attached (.unionCommit requestId windowId r) = none →
        TakesPlace w.commits r → r.windowId ∈ w.attachedIds
  | _ => True

instance (size : StoreMethod → ℕ) (w : World) : (e : Event) → Decidable (Tidy size w e)
  | .exit i _ => inferInstanceAs (Decidable (∀ id ∈ w.connections[i]?.bind Connection.windowId,
      id ∈ w.commits.windows → id ∈ w.othersIds i))
  | .request i (.store (.unionCommit requestId windowId r)) =>
    inferInstanceAs (Decidable (∀ attached ∈ w.connections[i]?.bind Connection.windowId,
      storeRefusal size attached (.unionCommit requestId windowId r) = none →
        TakesPlace w.commits r → r.windowId ∈ w.attachedIds))
  | .request _ (.store (.unionStatus _ _ _ _ _ _)) | .request _ (.store (.other _ _)) =>
    isTrue trivial
  | .request _ (.control _) | .request _ .unparseable => isTrue trivial
  | .accept _ | .settle _ _ | .lost _ | .requestShutdown => isTrue trivial

variable {size : StoreMethod → ℕ} {w w' : World} {e : Event} {es : List Event} {i : ℕ}
  {c c' : Connection}

theorem mem_othersIds : id ∈ w.othersIds i ↔
    ∃ j ≠ i, ∃ c, w.connections[j]? = some c ∧ c.windowId = some id := by
  simp only [World.othersIds, List.mem_toFinset, List.mem_filterMap,
    List.mem_eraseIdx_iff_getElem?]
  constructor
  · rintro ⟨c, ⟨j, hne, hc⟩, hid⟩
    exact ⟨j, hne, c, hc, hid⟩
  · rintro ⟨j, hne, c, hc, hid⟩
    exact ⟨c, ⟨j, hne, hc⟩, hid⟩

theorem attachedIds_split (h : id ∈ w.attachedIds) :
    (∃ c, w.connections[i]? = some c ∧ c.windowId = some id) ∨ id ∈ w.othersIds i := by
  obtain ⟨c, hmem, hid⟩ := mem_attachedIds.1 h
  obtain ⟨j, hc⟩ := mem_connections.1 hmem
  by_cases hj : j = i
  · exact .inl ⟨c, hj ▸ hc, hid⟩
  · exact .inr (mem_othersIds.2 ⟨j, hj, c, hc, hid⟩)

theorem othersIds_put (h : id ∈ w.othersIds i) : id ∈ (w.put i c').attachedIds := by
  obtain ⟨j, hj, c, hc, hid⟩ := mem_othersIds.1 h
  refine mem_attachedIds.2 ⟨c, mem_connections.2 ⟨j, ?_⟩, hid⟩
  rw [World.put, List.getElem?_set_ne hj.symm]
  exact hc

theorem attachedIds_put (hc : w.connections[i]? = some c)
    (hkeep : c.windowId ≠ none → c'.window = c.window) (h : id ∈ w.attachedIds) :
    id ∈ (w.put i c').attachedIds := by
  rcases attachedIds_split h with ⟨d, hd, hid⟩ | hother
  · obtain rfl : c = d := Option.some.inj (hc.symm.trans hd)
    refine mem_attachedIds.2 ⟨c', mem_connections.2 ⟨i, ?_⟩, ?_⟩
    · have hlt : i < w.connections.length := (List.getElem?_eq_some_iff.1 hc).1
      rw [World.put, List.getElem?_set_self hlt]
    · rw [Connection.windowId, hkeep (by simp [hid])]
      exact hid
  · exact othersIds_put hother

/-- **What the table holds is held for windows that are attached.** -/
structure Owned (w : World) : Prop where
  attached : ∀ id ∈ w.commits.windows, id ∈ w.attachedIds
  decided : Decided w.commits

theorem owned_new (session : String) (now grace : ℕ) : Owned (.new session now grace) :=
  ⟨fun _ h => absurd h (AList.notMem_empty _), fun w u slot _ hs => absurd hs (by simp [World.new, slot_new])⟩

theorem Owned.step (h : Owned w) (htidy : Tidy size w e) (hst : (worker size).step w e w') :
    Owned w' := by
  have heffect : Effect size w e w' := next_effect hst
  cases heffect with
  | accepts =>
    refine ⟨fun id hid => ?_, h.decided⟩
    obtain ⟨c, hc, hwindow⟩ := mem_attachedIds.1 (h.attached id hid)
    exact mem_attachedIds.2 ⟨c, List.mem_append_left _ hc, hwindow⟩
  | shuts => exact ⟨h.attached, h.decided⟩
  | goes hc hwindow _ =>
    exact ⟨fun id hid => attachedIds_put hc (fun _ => hwindow) (h.attached id hid), h.decided⟩
  | attaches hc hnone _ _ =>
    refine ⟨fun id hid => ?_, h.decided⟩
    exact attachedIds_put hc (fun hsome => absurd (by simp [Connection.windowId, hnone]) hsome)
      (h.attached id hid)
  | @commits i c c' requestId windowId attached pid r hc hwindow hfits hsame _ =>
    constructor
    · intro id hid
      rcases mem_windows_commit hid with hold | ⟨rfl, hplace⟩
      · exact attachedIds_put hc (fun _ => hsame) (h.attached id hold)
      · exact attachedIds_put hc (fun _ => hsame)
          (htidy attached (by simp [hc, Connection.windowId, hwindow]) hfits hplace)
    · exact decided_step (x := (.commit r, .admission (commit w.commits r).1)) h.decided rfl
  | @settles i c c' r epoch current hc hsame _ =>
    constructor
    · intro id hid
      exact attachedIds_put hc (fun _ => hsame) (h.attached id (mem_windows_settle hid))
    · exact decided_step (x := (.settle r.windowId r.unionViewId epoch r current, .outcome
        (settle w.commits r.windowId r.unionViewId epoch r current).1)) h.decided rfl
  | @leaves i now c hc hleaving =>
    refine ⟨fun id hid => ?_, h.decided⟩
    rcases attachedIds_split (i := i) (h.attached id hid) with ⟨d, hd, hwindow⟩ | hother
    · exact othersIds_put (htidy id (by simp [hd, hwindow]) hid)
    · exact othersIds_put hother

/-- **Receipts belong to windows that are attached**, in every run in which no window goes that
holds receipts; the table is only ever full of windows that are attached. -/
theorem receipts_owned {session : String} {now grace : ℕ}
    (h : ((worker size).only (Tidy size)).Run (.new session now grace) es w) :
    (∀ id ∈ w.commits.windows, id ∈ w.attachedIds) ∧ maxCommitWindows = maxViewers ∧
      ∀ r, (commit w.commits r).1 = .answer (.refused "window table full") →
        ∃ ids : Finset String, maxViewers ≤ ids.card ∧ r.windowId ∉ ids ∧
          ∀ id ∈ ids, id ∈ w.commits.windows ∧ id ∈ w.attachedIds := by
  have howned : Owned w := h.invariant_only (owned_new session now grace)
    fun _ _ _ hw htidy hst => hw.step htidy hst
  refine ⟨howned.attached, rfl, fun r hr => ?_⟩
  obtain ⟨hnot, hfull⟩ := full_of_refused howned.decided hr
  refine ⟨w.commits.windows.keys.toFinset, ?_, ?_, fun id hid => ?_⟩
  · rw [List.toFinset_card_of_nodup w.commits.windows.keys_nodup]
    exact hfull
  · exact fun hmem => hnot (AList.mem_keys.2 (List.mem_toFinset.1 hmem))
  · have hmem : id ∈ w.commits.windows := AList.mem_keys.2 (List.mem_toFinset.1 hid)
    exact ⟨hmem, howned.attached id hmem⟩

/-! ### A window that goes -/

/-- A window attaches and commits a union. -/
def exampleCommit : List Event :=
  [.accept 0, .request 0 (.control (.hello "r" 401 "w" 1)),
    .request 0 (.store (.unionCommit "r" "w" (exampleRequest 1 "a"))), .settle 0 [exampleFence]]

theorem receipts_owned_commit : ∃ w, ((worker fun _ => 0).only (Tidy fun _ => 0)).Run
    (.new "x" 0 10) exampleCommit w ∧ ∀ id ∈ w.commits.windows, id ∈ w.attachedIds := by
  obtain ⟨w, hrun, -⟩ : ∃ w, ((worker fun _ => 0).only (Tidy fun _ => 0)).Run (.new "x" 0 10)
      exampleCommit w ∧ True := Machine.exists_run_only (by decide +kernel)
  exact ⟨w, hrun, (receipts_owned hrun).1⟩

/-- **A window that goes leaves its receipts behind.** -/
theorem goodbye_keeps_receipts : ¬ ∀ (size : StoreMethod → ℕ) (session : String) (now grace : ℕ)
    (es : List Event) (w : World), (worker size).Run (.new session now grace) es w →
      ∀ id ∈ w.commits.windows, id ∈ w.attachedIds := by
  intro hall
  obtain ⟨w, hw, hnobody, hheld⟩ : ∃ w, (worker fun _ => 0).Run (.new "x" 0 10)
      (exampleCommit ++ [.request 0 (.control (.goodbye "r")), Event.exit 0 0]) w ∧
      w.attachedIds = ∅ ∧ "w" ∈ w.commits.windows := Machine.exists_run (by decide +kernel)
  have hattached := hall _ _ _ _ _ w hw "w" hheld
  exact absurd hattached (by simp [hnobody])

end Lvu.Shared
