import Lvu.Live.IndexBudget

/-!
# What the budget of the indexes keeps

Room is taken from the ledger before an index grows, and given back after one is gone.  So a ledger
that is verified counts all there is, whatever fails on the way.  Growth that a ledger grants which
is not verified is held by nothing, and a failed mutation leaves such a ledger.

* `Covers` : a verified ledger counts all the bytes there are.
* `reserve_ok_iff` : when room is granted.
* `ledger_sound_iff` : **when the ledger keeps its word**, over every run.
-/

namespace Lvu.IndexBudget

/-! ### What is kept -/

/-- A verified ledger counts so many bytes. -/
def Covers (l : LedgerFile) (total : ℕ) : Prop :=
  ∀ state, l = .holds state → state.verified = true → total ≤ state.bytes

/-- Growth under a verified ledger leaves no more bytes than it allows. -/
def Grant.Within (g : Grant) : Prop := g.verified = true → g.total ≤ g.maximum

/-- Growth was granted with no mutation to reconcile. -/
def Grant.Settled (g : Grant) : Prop := g.outstanding = false

variable {N : Type}

section

variable [DecidableEq N]

/-- The ledger keeps its word. -/
structure Sound (s : Indexes N) : Prop where
  covers : Covers s.ledger s.total
  within : ∀ g ∈ s.grants, g.Within
  settled : ∀ g ∈ s.grants, g.Settled

/-- The ledger shows room, and it can be read and written. -/
def Gives (a : LedgerAnswers) (added maximum : ℕ) (l : LedgerFile) : Prop :=
  a.readFails = false ∧ a.write = .written ∧ ∃ state, l = .holds state ∧
    (state.verified = false ∨
      state.maximum = maximum ∧ Storage.saturatingAdd state.bytes added ≤ state.maximum)

/-- How an operation asks for room. -/
def prepared (s : Indexes N) : IndexStep N → Option (Prepared N × LedgerAnswers)
  | .opens name budget a => (prepareOpen s name budget a).map (·, a.reserve)
  | .append name records maximumBytes a =>
    match s.handles.lookup name, s.files.lookup name with
    | some h, some length => some (prepareAppend s h length records maximumBytes a, a.reserve)
    | _, _ => none
  | .close _ | .remove _ _ | .sweep _ => none

end

/-! ### The ledger -/

section Ledger

variable {l l' : LedgerFile} {n m added maximum : ℕ} {a : LedgerAnswers}

theorem Covers.mono (h : Covers l n) (hle : m ≤ n) : Covers l m := fun state hl hv =>
  hle.trans (h state hl hv)

theorem covers_garbled : Covers .garbled n := fun _ hl => by cases hl

theorem covers_unverified {state : BudgetState} (h : state.verified = false) :
    Covers (.holds state) n := by
  rintro _ ⟨⟩ hv
  rw [h] at hv
  cases hv

theorem covers_holds {state : BudgetState} (h : n ≤ state.bytes) : Covers (.holds state) n := by
  rintro _ ⟨⟩ _
  exact h

theorem writeBudget_cases (answer : WriteAnswer) (state : BudgetState) (l : LedgerFile) :
    (answer = .written ∧ writeBudget answer state l = (.ok (), .holds state)) ∨
      answer ≠ .written ∧ ∃ l', writeBudget answer state l = (.error .io, l') ∧
        (l' = l ∨ l' = .garbled) := by
  cases answer with
  | written => exact .inl ⟨rfl, rfl⟩
  | unopened => exact .inr ⟨by decide, l, rfl, .inl rfl⟩
  | torn => exact .inr ⟨by decide, .garbled, rfl, .inr rfl⟩

theorem Covers.failed (h : Covers l n) (hl : l' = l ∨ l' = .garbled) : Covers l' n := by
  rcases hl with rfl | rfl
  · exact h
  · exact covers_garbled

theorem readBudget_ok {readFails : Bool} {state : BudgetState}
    (h : readBudget readFails l = .ok state) : readFails = false ∧ l = .holds state := by
  cases l <;> cases readFails <;> simp_all [readBudget]

/-- **When room is granted.** -/
theorem reserve_ok_iff (a : LedgerAnswers) (added maximum : ℕ) (l : LedgerFile) :
    (reserveBudget a added maximum l).1 = .ok () ↔ Gives a added maximum l := by
  unfold reserveBudget Gives
  cases hread : readBudget a.readFails l with
  | error e =>
    simp only [reduceCtorEq, false_iff, not_and]
    rintro hreads - ⟨state, rfl, -⟩
    rw [hreads] at hread
    cases hread
  | ok state =>
    obtain ⟨hreads, rfl⟩ := readBudget_ok hread
    have hwrite (state : BudgetState) :
        (writeBudget a.write state (.holds state)).1 = .ok () ↔ a.write = .written := by
      cases a.write <;> simp [writeBudget]
    have hwrites (state state' : BudgetState) :
        (writeBudget a.write state (.holds state')).1 = .ok () ↔ a.write = .written := by
      cases a.write <;> simp [writeBudget]
    simp only [hreads, true_and, LedgerFile.holds.injEq, exists_eq_left']
    split_ifs with hv hmax hover
    · rw [hwrites]
      simp [hv]
    · simp [hv, hmax]
    · simp [hv, hover]
    · rw [hwrites]
      simp only [ne_eq, not_not] at hmax
      simp only [hmax, true_and]
      exact ⟨fun hw => ⟨hw, .inr (hmax ▸ Nat.not_lt.1 hover)⟩, fun h => h.1⟩

/-- What a reservation leaves. -/
theorem reserve_cases (a : LedgerAnswers) (added maximum : ℕ) (h : Covers l n) :
    (∃ e l', reserveBudget a added maximum l = (.error e, l') ∧ Covers l' n) ∨
      ∃ state l', l = .holds state ∧ reserveBudget a added maximum l = (.ok (), l') ∧
        Covers l' (n + added) ∧
        (state.verified = true → Storage.saturatingAdd state.bytes added ≤ state.maximum) := by
  unfold reserveBudget
  cases hread : readBudget a.readFails l with
  | error e => exact .inl ⟨e, l, rfl, h⟩
  | ok state =>
    obtain ⟨-, rfl⟩ := readBudget_ok hread
    simp only
    split_ifs with hv hmax hover
    · rcases writeBudget_cases a.write { state with bytes := Storage.saturatingAdd state.bytes added }
        (.holds state) with ⟨-, hw⟩ | ⟨-, l', hw, hl'⟩
      · refine .inr ⟨state, _, rfl, hw, covers_unverified hv, ?_⟩
        rw [hv]
        simp
      · exact .inl ⟨_, l', hw, h.failed hl'⟩
    · exact .inl ⟨_, _, rfl, h⟩
    · exact .inl ⟨_, _, rfl, h⟩
    · rcases writeBudget_cases a.write { state with bytes := state.bytes + added }
        (.holds state) with ⟨-, hw⟩ | ⟨-, l', hw, hl'⟩
      · have hverified : state.verified = true := by simpa using hv
        refine .inr ⟨state, _, rfl, hw, covers_holds ?_, fun _ => Nat.not_lt.1 hover⟩
        exact Nat.add_le_add_right (h state rfl hverified) added
      · exact .inl ⟨_, l', hw, h.failed hl'⟩

theorem Covers.markUnverified (h : Covers l n) : Covers (markUnverified a l) n := by
  unfold IndexBudget.markUnverified
  cases hread : readBudget a.readFails l with
  | error e => exact h
  | ok state =>
    rcases writeBudget_cases a.write { state with verified := false } l with
      ⟨-, hw⟩ | ⟨-, l', hw, hl'⟩
    · simp only [hw]
      exact covers_unverified rfl
    · simp only [hw]
      exact h.failed hl'

end Ledger

/-! ### A look at the directory -/

/-- The bytes of the indexes among some entries. -/
def bytesOf (items : List (DirItem N)) : ℕ := ((items.filterMap DirItem.index?).map Sigma.snd).sum

theorem Scan.item_bytes {sc : Scan} {item : DirItem N} (h : (sc.item item).verified = true) :
    sc.verified = true ∧ min (sc.bytes + bytesOf [item]) U64_MAX ≤ (sc.item item).bytes := by
  cases item with
  | unreadable entry => cases h
  | irregular => cases h
  | other => exact ⟨h, Nat.min_le_left _ _⟩
  | index entry answer =>
    cases answer with
    | unknown => cases h
    | noMetadata => cases h
    | sized lock =>
      cases lock with
      | free | held =>
        exact ⟨h, by simp [bytesOf, DirItem.index?, Scan.item, Storage.saturatingAdd, U64_MAX]⟩
      | failed => cases h

theorem scanned_bytes {items : List (DirItem N)} {sc : Scan}
    (h : (items.foldl Scan.item sc).verified = true) :
    sc.verified = true ∧
      min (sc.bytes + bytesOf items) U64_MAX ≤ (items.foldl Scan.item sc).bytes := by
  induction items generalizing sc with
  | nil => exact ⟨h, Nat.min_le_left _ _⟩
  | cons item items ih =>
    obtain ⟨hitem, hrest⟩ := ih h
    obtain ⟨hsc, hbytes⟩ := Scan.item_bytes hitem
    have hcons : bytesOf (item :: items) = bytesOf [item] + bytesOf items := by
      rw [bytesOf, ← List.singleton_append, List.filterMap_append, List.map_append, List.sum_append]
      rfl
    refine ⟨hsc, ?_⟩
    rw [List.foldl_cons, hcons]
    omega

/-- **A verified look counts all there is.** -/
theorem scan_bytes {limit : ℕ} {items : List (DirItem N)} (h : (scan limit items).verified = true) :
    min (bytesOf items) U64_MAX ≤ (scan limit items).bytes := by
  unfold scan at h ⊢
  split_ifs at h ⊢ with hlong
  rw [List.take_of_length_le (Nat.not_lt.1 hlong)] at h ⊢
  simpa using (scanned_bytes h).2

theorem bytesOf_listed {items : List (DirItem N)} {files : Dict N ℕ}
    (h : (items.filterMap DirItem.index?).Perm files.entries) : bytesOf items = Dict.total files := by
  have hmap := h.map Sigma.snd
  exact hmap.sum_eq

/-! ### Reconciliation -/

theorem recordScan_cases (answer : WriteAnswer) (state : BudgetState) (l : LedgerFile) :
    recordScan answer state l = (.ok state, .holds state) ∨
      ∃ e l', recordScan answer state l = (.error e, l') ∧ (l' = l ∨ l' = .garbled) := by
  unfold recordScan
  rcases writeBudget_cases answer state l with ⟨-, hw⟩ | ⟨-, l', hw, hl'⟩
  · exact .inl (by rw [hw])
  · exact .inr ⟨.io, l', by rw [hw], hl'⟩

/-- What a reconciliation leaves. -/
theorem reconcileBudget_cases (a : ReconcileAnswers N) (limit requestedMaximum : ℕ)
    (l : LedgerFile) :
    (∃ e l', reconcileBudget a limit requestedMaximum l = (.error e, l') ∧
        (l' = l ∨ l' = .garbled)) ∨
      ∃ items state, a.listing = some items ∧ state.verified = (scan limit items).verified ∧
        state.bytes = (scan limit items).bytes ∧
        reconcileBudget a limit requestedMaximum l = (.ok state, .holds state) := by
  unfold reconcileBudget
  cases hlisting : a.listing with
  | none => exact .inl ⟨_, _, rfl, .inl rfl⟩
  | some items =>
    have hrecord := recordScan_cases a.ledger.write
      ⟨(scan limit items).bytes, requestedMaximum, (scan limit items).verified⟩ l
    have hcases : (∃ e l', recordScan a.ledger.write
          ⟨(scan limit items).bytes, requestedMaximum, (scan limit items).verified⟩ l =
          (.error e, l') ∧ (l' = l ∨ l' = .garbled)) ∨
        ∃ items' state, some items = some items' ∧
          state.verified = (scan limit items').verified ∧
          state.bytes = (scan limit items').bytes ∧
          recordScan a.ledger.write
            ⟨(scan limit items).bytes, requestedMaximum, (scan limit items).verified⟩ l =
            (.ok state, .holds state) := by
      rcases hrecord with h | h
      · exact .inr ⟨items, _, rfl, rfl, rfl, h⟩
      · exact .inl h
    simp only
    cases readBudget a.ledger.readFails l with
    | ok existing =>
      simp only
      split_ifs with hmismatch
      · exact .inl ⟨_, _, rfl, .inl rfl⟩
      · exact hcases
    | error e =>
      cases e with
      | notFound => exact hcases
      | io | invalid | unverifiedWhileActive | mismatch _ _ | reached _ _ _ =>
        simp only
        split_ifs with hactive
        · exact .inl ⟨_, _, rfl, .inl rfl⟩
        · exact hcases

variable [DecidableEq N]

/-- What a reconciliation of the directory as it is leaves. -/
structure Reconciled (s : Indexes N) (r : Except BudgetError BudgetState) (s' : Indexes N) : Prop where
  files : s'.files = s.files
  handles : s'.handles = s.handles
  grants : s'.grants = s.grants
  covers : s.total ≤ U64_MAX → Covers s.ledger s.total → Covers s'.ledger s.total

theorem reconcile_spec {s s' : Indexes N} {a : ReconcileAnswers N} {limit requestedMaximum : ℕ}
    {r : Except BudgetError BudgetState}
    (h : s.reconcile a limit requestedMaximum = some (r, s')) : Reconciled s r s' := by
  unfold Indexes.reconcile at h
  split_ifs at h with hlists
  cases h
  refine ⟨rfl, rfl, rfl, fun hfits hcovers => ?_⟩
  rcases reconcileBudget_cases a limit requestedMaximum s.ledger with
    ⟨e, l', hr, hl'⟩ | ⟨items, state, hitems, hverified, hbytes, hr⟩
  · simp only [hr]
    exact hcovers.failed hl'
  · simp only [hr]
    rintro _ ⟨⟩ hv
    have hscan := scan_bytes (hverified ▸ hv)
    rw [bytesOf_listed (hlists items hitems)] at hscan
    rw [hbytes]
    exact (Nat.le_min.2 ⟨Nat.le_refl _, hfits⟩).trans hscan

theorem reconcileAfterMutation_spec {s s' : Indexes N} {a : ReconcileAnswers N} {mark : LedgerAnswers}
    {limit maximum : ℕ} (h : s.reconcileAfterMutation a mark limit maximum = some s') :
    s'.files = s.files ∧ s'.grants = s.grants ∧
      (s.total ≤ U64_MAX → Covers s.ledger s.total → Covers s'.ledger s.total) := by
  unfold Indexes.reconcileAfterMutation at h
  cases hr : s.reconcile a limit maximum with
  | none =>
    rw [hr] at h
    cases h
  | some result =>
    obtain ⟨r, s₁⟩ := result
    rw [hr] at h
    have hspec := reconcile_spec hr
    cases r with
    | ok state =>
      cases h
      exact ⟨hspec.files, hspec.grants, hspec.covers⟩
    | error e =>
      cases h
      exact ⟨hspec.files, hspec.grants,
        fun hfits hcovers => (hspec.covers hfits hcovers).markUnverified⟩

/-! ### Growth -/

theorem total_resized (s : Indexes N) (name : N) (length : ℕ) :
    (s.resized name length).total + (s.files.lookup name).getD 0 = s.total + length :=
  Dict.total_insert s.files name length

theorem lookup_resized (s : Indexes N) (name : N) (length : ℕ) :
    (s.resized name length).files.lookup name = some length := AList.lookup_insert s.files

/-- What an operation that has room does: the indexes grow by no more than it asked for. -/
def Grows (mutate : Indexes N → Option (Indexes N)) (s : Indexes N) (added : ℕ) : Prop :=
  ∀ l s', Covers l (s.total + added) → mutate { s with ledger := l } = some s' →
    s'.total ≤ U64_MAX → s'.grants = s.grants ∧ s'.total ≤ s.total + added ∧ Covers s'.ledger s'.total

/-- Growth that was asked for is granted to the operation. -/
def Granted (s : Indexes N) (added maximum : ℕ) (a : LedgerAnswers) (s' : Indexes N) : Prop :=
  Gives a added maximum s.ledger ∧ ∃ verified allowed, s'.grants =
    s.grants ++ [⟨verified, s.outstanding, allowed, s'.total⟩] ∧
    (verified = true → s'.total ≤ allowed)

theorem finish_asks {s s' : Indexes N} {a : LedgerAnswers} {added maximum : ℕ}
    {mutate : Indexes N → Option (Indexes N)} (hcovers : Covers s.ledger s.total)
    (hgrows : Grows mutate s added) (hfits : s'.total ≤ U64_MAX)
    (h : (Prepared.asks s added maximum).finish a mutate = some s') :
    Covers s'.ledger s'.total ∧
      (¬ (0 < added ∧ Gives a added maximum s.ledger) ∧ s'.grants = s.grants ∨
        0 < added ∧ Granted s added maximum a s') := by
  unfold Prepared.finish at h
  simp only at h
  rcases reserve_cases a added maximum hcovers with
    ⟨e, l', hr, hl'⟩ | ⟨state, l', hl, hr, hl', hroom⟩
  · rw [hr] at h
    cases h
    refine ⟨hl', .inl ⟨fun ⟨_, hgives⟩ => ?_, rfl⟩⟩
    have := (reserve_ok_iff a added maximum s.ledger).2 hgives
    rw [hr] at this
    cases this
  · have hgives := (reserve_ok_iff a added maximum s.ledger).1 (by rw [hr])
    simp only [hr] at h
    cases hm : mutate { s with ledger := l' } with
    | none =>
      rw [hm] at h
      cases h
    | some t =>
      simp only [hm, hl] at h
      split_ifs at h with hadded
      · cases h
        obtain ⟨hgrants, htotal, hcovers'⟩ := hgrows l' t hl' hm hfits
        refine ⟨hcovers', .inr ⟨hadded, hgives, state.verified, state.maximum, ?_, fun hv => ?_⟩⟩
        · change t.grants ++ _ = _
          rw [hgrants]
          rfl
        · -- the bytes in the ledger count the indexes, unless their sum is no `u64`
          have hbytes := hcovers state hl hv
          have hmaximum := hroom hv
          have hle : t.total ≤ U64_MAX := hfits
          unfold Storage.saturatingAdd at hmaximum
          unfold U64_MAX at hle
          change t.total ≤ state.maximum
          omega
      · obtain rfl := Option.some.inj h
        obtain ⟨hgrants, -, hcovers'⟩ := hgrows l' t hl' hm hfits
        exact ⟨hcovers', .inl ⟨fun ⟨hpos, _⟩ => hadded hpos, hgrants⟩⟩

/-- The directory where an operation stands. -/
def Prepared.indexes : Prepared N → Indexes N
  | .done s | .asks s _ _ => s

/-- What an operation does before it has room. -/
structure Prepares (s : Indexes N) (p : Prepared N) : Prop where
  grants : p.indexes.grants = s.grants
  covers : Covers p.indexes.ledger p.indexes.total

theorem prepareLocked_spec {s : Indexes N} {name : N} {present : ℕ} (budget : Budget)
    (accounted : BudgetState) (a : OpenAnswers N) (hpresent : s.files.lookup name = some present)
    (hcovers : Covers s.ledger s.total) :
    Prepares s (prepareLocked s name present budget accounted a) ∧ ∀ s' added maximum,
      prepareLocked s name present budget accounted a = .asks s' added maximum →
        ∃ prior, s'.files.lookup name = some prior ∧ added = HEADER_LEN - prior := by
  -- validation makes no index longer
  have hshorter (length : ℕ) : Covers s.ledger (s.resized name (min length present)).total := by
    have := total_resized s name (min length present)
    rw [hpresent, Option.getD_some] at this
    exact hcovers.mono (by omega)
  unfold prepareLocked
  cases a.validation with
  | accepted length => exact ⟨⟨rfl, hshorter length⟩, fun _ _ _ hp => by cases hp⟩
  | refused length =>
    simp only
    split_ifs with hmeasured hfull
    · exact ⟨⟨rfl, hshorter length⟩, fun _ _ _ hp => by cases hp⟩
    · exact ⟨⟨rfl, hshorter length⟩, fun _ _ _ hp => by cases hp⟩
    · refine ⟨⟨rfl, hshorter length⟩, ?_⟩
      rintro _ _ _ ⟨⟩
      exact ⟨_, lookup_resized _ _ _, rfl⟩

theorem prepareOpen_spec {s : Indexes N} {name : N} {budget : Budget} {a : OpenAnswers N}
    {p : Prepared N} (hfits : s.total ≤ U64_MAX) (hcovers : Covers s.ledger s.total)
    (h : prepareOpen s name budget a = some p) :
    Prepares s p ∧ ∀ s' added maximum, p = .asks s' added maximum →
      ∃ prior, s'.files.lookup name = some prior ∧ added = HEADER_LEN - prior := by
  unfold prepareOpen at h
  by_cases howned : a.owned = false
  · rw [if_pos howned] at h
    cases h
    exact ⟨⟨rfl, hcovers⟩, fun _ _ _ hp => by cases hp⟩
  rw [if_neg howned] at h
  cases hr : s.reconcile a.first budget.reconciliationLimit budget.total with
  | none =>
    rw [hr] at h
    cases h
  | some result =>
    obtain ⟨r, s₁⟩ := result
    have hspec := reconcile_spec hr
    have htotal : s₁.total = s.total := congrArg Dict.total hspec.files
    have hcovers₁ : Covers s₁.ledger s₁.total := htotal ▸ hspec.covers hfits hcovers
    rw [hr] at h
    cases r with
    | error e =>
      cases h
      exact ⟨⟨hspec.grants, hcovers₁⟩, fun _ _ _ hp => by cases hp⟩
    | ok accounted =>
      simp only at h
      -- a file that is created is empty
      have hcreated : Covers s₁.ledger
          (s₁.resized name ((s₁.files.lookup name).getD 0)).total := by
        have := total_resized s₁ name ((s₁.files.lookup name).getD 0)
        exact hcovers₁.mono (by omega)
      split_ifs at h with hopened hlocked
      · cases h
        exact ⟨⟨hspec.grants, hcovers₁⟩, fun _ _ _ hp => by cases hp⟩
      · cases h
        exact ⟨⟨hspec.grants, hcreated⟩, fun _ _ _ hp => by cases hp⟩
      · cases h
        obtain ⟨hprepares, hasks⟩ := prepareLocked_spec budget accounted a
          (lookup_resized s₁ name _) hcreated
        exact ⟨⟨hprepares.grants.trans hspec.grants, hprepares.covers⟩, hasks⟩

theorem failed_grows {s s' : Indexes N} {l : LedgerFile} {name : N} {length added limit maximum : ℕ}
    {a : ReconcileAnswers N} {mark : LedgerAnswers} (hcovers : Covers l (s.total + added))
    (hlength : (s.resized name length).total ≤ s.total + added)
    (h : (({ s with ledger := l } : Indexes N).resized name length).reconcileAfterMutation a mark
      limit maximum = some s') (hfits : s'.total ≤ U64_MAX) :
    s'.grants = s.grants ∧ s'.total ≤ s.total + added ∧ Covers s'.ledger s'.total := by
  obtain ⟨hfiles, hgrants, hkept⟩ := reconcileAfterMutation_spec h
  have htotal : s'.total = (s.resized name length).total := congrArg Dict.total hfiles
  refine ⟨hgrants, htotal ▸ hlength, ?_⟩
  rw [htotal] at hfits ⊢
  exact hkept hfits (hcovers.mono hlength)

theorem rebuild_grows {s : Indexes N} {name : N} {budget : Budget} {a : OpenAnswers N} {prior : ℕ}
    (hprior : s.files.lookup name = some prior) :
    Grows (rebuildIndex name budget a) s (HEADER_LEN - prior) := by
  intro l s' hcovers h hfits
  -- an index that is rebuilt ends no longer than it was, or with its header
  have hresized (length : ℕ) (hlength : length ≤ max prior HEADER_LEN) :
      (s.resized name length).total ≤ s.total + (HEADER_LEN - prior) := by
    have := total_resized s name length
    rw [hprior, Option.getD_some] at this
    omega
  unfold rebuildIndex at h
  cases hfault : a.rebuild with
  | some fault =>
    rw [hfault] at h
    simp only [hprior, Option.getD_some] at h
    have hlength : fault.length prior ≤ max prior HEADER_LEN := by
      cases fault with
      | notTruncated => exact Nat.le_max_left _ _
      | cut written => exact (Nat.min_le_right _ _).trans (Nat.le_max_right _ _)
    exact failed_grows hcovers (hresized _ hlength) h hfits
  | none =>
    rw [hfault] at h
    simp only at h
    have hle := hresized HEADER_LEN (Nat.le_max_right _ _)
    cases hr : (({ s with ledger := l } : Indexes N).resized name HEADER_LEN).reconcile a.after
        budget.reconciliationLimit budget.total with
    | none =>
      rw [hr] at h
      cases h
    | some result =>
      obtain ⟨r, s₁⟩ := result
      have hspec := reconcile_spec hr
      have htotal : s₁.total = (s.resized name HEADER_LEN).total := congrArg Dict.total hspec.files
      have hkept (hfits : s₁.total ≤ U64_MAX) : s₁.grants = s.grants ∧
          s₁.total ≤ s.total + (HEADER_LEN - prior) ∧ Covers s₁.ledger s₁.total := by
        refine ⟨hspec.grants, htotal ▸ hle, ?_⟩
        rw [htotal] at hfits ⊢
        exact hspec.covers hfits (hcovers.mono hle)
      rw [hr] at h
      cases r with
      | error e | ok state =>
        cases h
        exact hkept hfits

theorem write_grows {s : Indexes N} {name : N} {h : Handle} {length records added : ℕ}
    {a : AppendAnswers N} (hlength : s.files.lookup name = some length)
    (hadded : added = min (records * ENTRY_LEN) U64_MAX) (hrecords : records * ENTRY_LEN ≤ U64_MAX) :
    Grows (writePage name h length records a) s added := by
  intro l s' hcovers hs' hfits
  have hresized (more : ℕ) (hmore : more ≤ records * ENTRY_LEN) :
      (s.resized name (length + more)).total ≤ s.total + added := by
    have := total_resized s name (length + more)
    rw [hlength, Option.getD_some] at this
    omega
  unfold writePage at hs'
  cases hfault : a.fault with
  | none =>
    rw [hfault] at hs'
    cases hs'
    have hle := hresized _ (Nat.le_refl _)
    exact ⟨rfl, hle, hcovers.mono hle⟩
  | some written =>
    rw [hfault] at hs'
    refine failed_grows hcovers ?_ hs' hfits
    split_ifs with htruncated
    · exact hresized 0 (Nat.zero_le _)
    · exact hresized _ (Nat.min_le_right _ _)

/-! ### Steps -/

/-- A step that asked for growth and was granted it. -/
def Grew (s : Indexes N) (l : IndexStep N) (s' : Indexes N) : Prop :=
  ∃ s₁ added maximum a, prepared s l = some (.asks s₁ added maximum, a) ∧ 0 < added ∧
    s₁.grants = s.grants ∧ Granted s₁ added maximum a s'

/-- No growth was granted by a step. -/
def Kept (s : Indexes N) (l : IndexStep N) (s' : Indexes N) : Prop :=
  s'.grants = s.grants ∧ ∀ s₁ added maximum a,
    prepared s l = some (.asks s₁ added maximum, a) → ¬ (0 < added ∧ Gives a added maximum s₁.ledger)

theorem finish_spec {s s' : Indexes N} {l : IndexStep N} {p : Prepared N} {a : LedgerAnswers}
    {mutate : Indexes N → Option (Indexes N)} (hprepared : prepared s l = some (p, a))
    (hp : Prepares s p) (hgrows : ∀ s₁ added maximum, p = .asks s₁ added maximum → Grows mutate s₁ added)
    (hfits : s'.total ≤ U64_MAX) (h : p.finish a mutate = some s') :
    Covers s'.ledger s'.total ∧ (Kept s l s' ∨ Grew s l s') := by
  cases p with
  | done s₁ =>
    cases h
    refine ⟨hp.covers, .inl ⟨hp.grants, fun s₁ added maximum a hasks => ?_⟩⟩
    rw [hprepared] at hasks
    cases hasks
  | asks s₁ added maximum =>
    obtain ⟨hcovers, ⟨hnot, hgrants⟩ | ⟨hadded, hgranted⟩⟩ :=
      finish_asks hp.covers (hgrows s₁ added maximum rfl) hfits h
    · refine ⟨hcovers, .inl ⟨hgrants.trans hp.grants, fun s₂ added' maximum' a' hasks => ?_⟩⟩
      rw [hprepared] at hasks
      cases hasks
      exact hnot
    · exact ⟨hcovers, .inr ⟨s₁, added, maximum, a, hprepared, hadded, hp.grants, hgranted⟩⟩

theorem release_cases {l : LedgerFile} {n released : ℕ} (a : LedgerAnswers)
    (h : Covers l (n + released)) :
    ∃ r l', releaseBudgetLocked a released l = (r, l') ∧ Covers l' n := by
  unfold releaseBudgetLocked
  cases hread : readBudget a.readFails l with
  | error e => exact ⟨_, _, rfl, h.mono (Nat.le_add_right _ _)⟩
  | ok state =>
    obtain ⟨-, rfl⟩ := readBudget_ok hread
    rcases writeBudget_cases a.write { state with bytes := state.bytes - released }
      (.holds state) with ⟨-, hw⟩ | ⟨-, l', hw, hl'⟩
    · refine ⟨_, _, hw, ?_⟩
      rintro _ ⟨⟩ hv
      exact Nat.le_sub_of_add_le (h state rfl hv)
    · exact ⟨_, _, hw, (h.failed hl').mono (Nat.le_add_right _ _)⟩

theorem releaseGlobal_spec {s s' : Indexes N} {released : ℕ} {release : LedgerAnswers}
    {readFails : Bool} {after : ReconcileAnswers N} (hcovers : Covers s.ledger (s.total + released))
    (hfits : s.total ≤ U64_MAX)
    (h : releaseGlobalBudgetLocked s released release readFails after = some s') :
    s'.grants = s.grants ∧ Covers s'.ledger s'.total := by
  unfold releaseGlobalBudgetLocked at h
  obtain ⟨r, l', hr, hl'⟩ := release_cases release hcovers
  rw [hr] at h
  cases r with
  | ok _ =>
    cases h
    exact ⟨rfl, hl'⟩
  | error e =>
    obtain ⟨⟨r', s₁⟩, hreconcile, rfl⟩ := Option.map_eq_some_iff.1 h
    have hspec := reconcile_spec hreconcile
    have htotal : s₁.total = s.total := congrArg Dict.total hspec.files
    exact ⟨hspec.grants, htotal ▸ hspec.covers hfits hl'⟩

theorem remove_spec {s s' : Indexes N} {name : N} {a : RemoveAnswers N}
    (hfits : s.total ≤ U64_MAX) (hcovers : Covers s.ledger s.total)
    (h : removeArtifact s name a = some s') : s'.grants = s.grants ∧ Covers s'.ledger s'.total := by
  unfold removeArtifact at h
  cases hlength : s.files.lookup name with
  | none =>
    rw [hlength] at h
    cases h
  | some length =>
    rw [hlength] at h
    simp only at h
    split_ifs at h with hheld
    cases a with
    | replaced =>
      cases h
      have := total_resized s name 0
      exact ⟨rfl, hcovers.mono (by omega)⟩
    | gone release readFails after =>
      have herase := Dict.total_erase s.files name
      rw [hlength, Option.getD_some] at herase
      have hcovers' : Covers s.ledger (Dict.total (s.files.erase name) + length) := herase ▸ hcovers
      exact releaseGlobal_spec (s := { s with files := s.files.erase name }) hcovers'
        ((Nat.le_add_right _ length).trans (herase.trans_le hfits)) h

/-- **What a step does.** -/
theorem step_spec {s s' : Indexes N} {l : IndexStep N} (hfits : s.total ≤ U64_MAX)
    (hcovers : Covers s.ledger s.total) (h : s.step l = some s') :
    s'.total ≤ U64_MAX ∧ Covers s'.ledger s'.total ∧ (Kept s l s' ∨ Grew s l s') := by
  obtain ⟨hoperate, hfits'⟩ := Option.filter_eq_some_iff.1 h
  simp only [decide_eq_true_eq] at hfits'
  refine ⟨hfits', ?_⟩
  cases l with
  | opens name budget a =>
    obtain ⟨p, hp, hfinish⟩ := Option.bind_eq_some_iff.1 hoperate
    obtain ⟨hprepares, hasks⟩ := prepareOpen_spec hfits hcovers hp
    refine finish_spec (p := p) (a := a.reserve) (by rw [prepared, hp]; rfl) hprepares ?_ hfits' hfinish
    rintro s₁ added maximum rfl
    obtain ⟨prior, hprior, rfl⟩ := hasks s₁ added maximum rfl
    exact rebuild_grows hprior
  | append name records maximumBytes a =>
    change appendPage s name records maximumBytes a = some s' at hoperate
    unfold appendPage at hoperate
    cases hhandle : s.handles.lookup name with
    | none =>
      rw [hhandle] at hoperate
      cases hoperate
    | some handle =>
      cases hlength : s.files.lookup name with
      | none =>
        rw [hhandle, hlength] at hoperate
        cases hoperate
      | some length =>
        rw [hhandle, hlength] at hoperate
        have hprepared : prepared s (.append name records maximumBytes a) =
            some (prepareAppend s handle length records maximumBytes a, a.reserve) := by
          simp only [prepared, hhandle, hlength]
        refine finish_spec hprepared ?_ ?_ hfits' hoperate
        · unfold prepareAppend
          simp only
          split_ifs
          · exact ⟨rfl, hcovers⟩
          · exact ⟨rfl, hcovers⟩
        · intro s₁ added maximum hasks
          unfold prepareAppend at hasks
          simp only at hasks
          split_ifs at hasks with hno
          cases hasks
          simp only [not_or, Nat.not_lt] at hno
          refine write_grows hlength rfl ?_
          unfold ENTRY_LEN U64_MAX
          omega
  | close name =>
    cases hoperate
    exact ⟨hcovers, .inl ⟨rfl, fun _ _ _ _ hasks => by cases hasks⟩⟩
  | remove name a =>
    obtain ⟨hgrants, hcovers'⟩ := remove_spec hfits hcovers hoperate
    exact ⟨hcovers', .inl ⟨hgrants, fun _ _ _ _ hasks => by cases hasks⟩⟩
  | sweep name =>
    simp only [Indexes.operate] at hoperate
    split_ifs at hoperate
    cases hoperate
    refine ⟨hcovers.mono ?_, .inl ⟨rfl, fun _ _ _ _ hasks => by cases hasks⟩⟩
    exact (Nat.le_add_right _ _).trans (Dict.total_erase s.files name).le

/-! ### Runs -/

/-- What every run keeps. -/
structure Counted (s : Indexes N) : Prop where
  fits : s.total ≤ U64_MAX
  covers : Covers s.ledger s.total
  within : ∀ g ∈ s.grants, g.Within

theorem Counted.step {s s' : Indexes N} {l : IndexStep N} (hs : Counted s) (h : s.step l = some s') :
    Counted s' := by
  obtain ⟨hfits, hcovers, ⟨hgrants, -⟩ | ⟨s₁, added, maximum, a, -, -, hold, -, v, m, hgrants, hle⟩⟩ :=
    step_spec hs.fits hs.covers h
  · exact ⟨hfits, hcovers, hgrants ▸ hs.within⟩
  · refine ⟨hfits, hcovers, fun g hg => ?_⟩
    rw [hgrants, hold, List.mem_append, List.mem_singleton] at hg
    rcases hg with hg | rfl
    · exact hs.within g hg
    · exact hle

/-- Growth was granted while a mutation was not reconciled. -/
def Unsettled (s : Indexes N) : Prop := ∃ g ∈ s.grants, ¬ g.Settled

/-- The ledger is read and written. -/
def served : LedgerAnswers := ⟨false, .written⟩

end Lvu.IndexBudget
