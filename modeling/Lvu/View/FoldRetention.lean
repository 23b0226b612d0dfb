import Lvu.View.FoldAlongside

/-!
# What the fold engine retains

The engine counts what it reads and evicts, caps its open runs, and expands its entries to their
rows (`lvu-view/src/folding.rs`).

* `Capped`, `Counted`, `Tallied` : the caps and counts, which each step keeps.
* `expandEntries_eq` : the entries are expanded to the rows at their positions, in order.
* `Lawful` : the laws of retention.
* `retention_lawful` : they hold in every run whose evictions are fair.
* `eviction_closes_newer` : an entry that goes closes the newer run that has its key.
-/

namespace Lvu.View.Fold

open List

variable {e u : FoldEngine} {event : FoldEvent} {pattern : String}

/-! ### The caps of open runs -/

theorem mem_of_oldest (holdest : e.oldest = some pattern) : pattern ∈ e.openRuns := by
  cases hentries : e.openRuns.entries with
  | nil =>
    rw [FoldEngine.oldest, hentries] at holdest
    cases holdest
  | cons run runs =>
    rw [oldest_cons hentries] at holdest
    cases holdest
    exact Dict.mem_of_lookup (AList.mem_lookup_iff.2 (hentries ▸ foldl_older_mem runs run))

theorem size_of_oldest (holdest : e.oldest = none) : e.openRuns.size = 0 := by
  cases hentries : e.openRuns.entries with
  | nil => rw [Dict.size, AList.keys, hentries]; rfl
  | cons run runs =>
    rw [oldest_cons hentries] at holdest
    cases holdest

theorem size_enforcePatternCap {fuel : ℕ} (h : e.openRuns.size ≤ fuel) :
    (FoldEngine.enforcePatternCap fuel e).openRuns.size ≤ max e.config.maximumPatterns 1 := by
  induction fuel generalizing e with
  | zero => exact h.trans (Nat.zero_le _)
  | succ fuel ih =>
    unfold FoldEngine.enforcePatternCap
    split_ifs with hcap
    · cases holdest : e.oldest with
      | none =>
        have hzero := size_of_oldest holdest
        exact (hzero.le).trans (Nat.zero_le _)
      | some pattern =>
        have hsize := Dict.size_erase_of_mem (mem_of_oldest holdest)
        refine ih (e := e.closePattern pattern) ?_
        change Dict.size (e.openRuns.erase pattern) ≤ fuel
        omega
    · exact Nat.le_of_not_lt hcap

/-- At most as many runs are open as the configuration says. -/
def Capped (e : FoldEngine) : Prop := e.openRuns.size ≤ e.config.maximumPatterns

theorem capped_startEntry_open (hcap : 1 ≤ e.config.maximumPatterns) (pattern : String)
    (member : FoldMember) : Capped (e.startEntry pattern member true) := by
  have hsize : Dict.size ((e.openRuns.erase pattern).insert pattern
      (⟨e.baseSerial + e.entries.length, member.position⟩ : OpenRun)) ≤ e.openRuns.size.succ := by
    have hnotMem : pattern ∉ e.openRuns.erase pattern := by simp
    have hinsert := Dict.size_insert_of_notMem hnotMem
      (⟨e.baseSerial + e.entries.length, member.position⟩ : OpenRun)
    have herase := Dict.size_erase_le e.openRuns pattern
    omega
  unfold Capped
  rw [(startEntry_fields e pattern member true).1]
  exact (size_enforcePatternCap hsize).trans (by simpa using hcap)

theorem Capped.appendMember (h : Capped e) {run : OpenRun}
    (hrun : e.openRuns.lookup pattern = some run) (index : ℕ) (member : FoldMember) :
    Capped (e.appendMember index pattern run member) := by
  have hsize := Dict.size_insert_of_mem (Dict.mem_of_lookup hrun)
    ({ run with lastPosition := member.position } : OpenRun)
  unfold Capped FoldEngine.appendMember
  simp only
  rw [hsize]
  exact h

/-- **Placing a row keeps the cap**, if it is not zero where a run may be opened. -/
theorem Capped.place (h : Capped e)
    (hcap : e.config.enabled = true → event.key.isSome → 1 ≤ e.config.maximumPatterns) :
    Capped (e.place event) := by
  unfold FoldEngine.place
  simp only
  cases henabled : e.config.enabled with
  | false => exact h
  | true =>
    cases hkey : event.key with
    | none => exact h
    | some pattern =>
      have hpositive : 1 ≤ e.config.maximumPatterns := hcap henabled (by rw [hkey]; rfl)
      have hstale : Capped (FoldEngine.closeStale
          { e with nextPosition := e.nextPosition + 1 } e.nextPosition) :=
        (Dict.size_filter_le _ _).trans h
      have hconfig : (FoldEngine.closeStale
          { e with nextPosition := e.nextPosition + 1 } e.nextPosition).config = e.config := rfl
      simp only
      generalize FoldEngine.closeStale { e with nextPosition := e.nextPosition + 1 }
        e.nextPosition = closed at hstale hconfig ⊢
      rw [← hconfig] at hpositive
      cases hrun : closed.openRuns.lookup pattern with
      | none => exact capped_startEntry_open hpositive _ _
      | some run =>
        have hopened : 1 ≤ (closed.closePattern pattern).config.maximumPatterns := hpositive
        simp only
        cases closed.indexOf run.serial with
        | none => exact capped_startEntry_open hopened _ _
        | some index =>
          simp only
          split_ifs
          · exact hstale.appendMember hrun index _
          · exact capped_startEntry_open hopened _ _

theorem Capped.enforceRetention (h : Capped e) : Capped e.enforceRetention := by
  have hsize := Dict.size_filter_le e.openRuns fun pattern _ => decide (pattern ∉ e.gone)
  rw [Capped, enforceRetention_openRuns]
  exact hsize.trans h

/-! ### The counts -/

/-- The members that are retained are counted. -/
def Counted (e : FoldEngine) : Prop := e.retainedMembers = e.positions.length

theorem retained_enforcePatternCap (fuel : ℕ) (e : FoldEngine) :
    (FoldEngine.enforcePatternCap fuel e).retainedMembers = e.retainedMembers := by
  induction fuel generalizing e with
  | zero => rfl
  | succ fuel ih =>
    unfold FoldEngine.enforcePatternCap
    split_ifs
    · cases e.oldest with
      | none => rfl
      | some pattern => exact ih (e.closePattern pattern)
    · rfl

theorem retained_startEntry (e : FoldEngine) (pattern : String) (member : FoldMember)
    (isOpen : Bool) :
    (e.startEntry pattern member isOpen).retainedMembers = e.retainedMembers + 1 := by
  unfold FoldEngine.startEntry
  cases isOpen with
  | false => rfl
  | true => exact retained_enforcePatternCap _ _

theorem retained_place (e : FoldEngine) (event : FoldEvent) :
    (e.place event).retainedMembers = e.retainedMembers + 1 := by
  unfold FoldEngine.place
  simp only
  split
  · exact retained_startEntry _ _ _ _
  · exact retained_startEntry _ _ _ _
  · split
    · exact retained_startEntry _ _ _ _
    · split
      · exact retained_startEntry _ _ _ _
      · split_ifs
        · rfl
        · exact retained_startEntry _ _ _ _

theorem Counted.place (h : Counted e) (event : FoldEvent) : Counted (e.place event) := by
  rw [Counted, retained_place, (placed_place e event).positions_perm.length_eq, length_append,
    h]
  rfl

/-- The members of the entries that are evicted. -/
def FoldEngine.goneMembers (e : FoldEngine) : ℕ :=
  ((e.entries.take e.evicted).map FoldEntry.count).sum

theorem Counted.split (h : Counted e) :
    e.retainedMembers = e.goneMembers + e.enforceRetention.positions.length := by
  have hlength (entries : List FoldEntry) :
      (entries.flatMap FoldEntry.positions).length = (entries.map FoldEntry.count).sum := by
    rw [length_flatMap]
    congr 1
    exact map_congr_left fun entry _ => length_map _
  rw [h, FoldEngine.goneMembers, FoldEngine.positions, FoldEngine.positions, ← hlength,
    ← length_append, ← flatMap_append]
  exact congrArg (fun l => (List.flatMap FoldEntry.positions l).length)
    (take_append_drop _ _).symm

theorem Counted.enforceRetention (h : Counted e) : Counted e.enforceRetention := by
  have hsplit := h.split
  change e.retainedMembers - e.goneMembers = _
  omega

/-! ### Expanding the entries -/

def expandEntries (entries : List FoldEntry) : List RowId :=
  ((entries.flatMap FoldEntry.members).mergeSort fun a b => a.position ≤ b.position).map (·.id)

theorem positions_eq (e : FoldEngine) :
    e.positions = (e.entries.flatMap FoldEntry.members).map (·.position) := by
  rw [map_flatMap]
  rfl

variable {rows : List (FoldEvent × ℕ)} {events : List FoldEvent}

/-- **The entries are expanded to the rows at their positions, in the order of these.** -/
theorem expandEntries_eq (h : Held e) (hrows : rows.Pairwise fun a b => a.2 < b.2)
    (hread : ∀ member ∈ e.entries.flatMap FoldEntry.members, ∃ event,
      (event, member.position) ∈ rows ∧ event.id = member.id) :
    expandEntries e.entries = (rows.filter fun row => row.2 ∈ e.positions).map (·.1.id) := by
  have hdistinct := h.distinct
  rw [positions_eq] at hdistinct ⊢
  rw [expandEntries]
  generalize e.entries.flatMap FoldEntry.members = members at *
  have hsorted : (members.mergeSort fun a b => a.position ≤ b.position).Pairwise
      fun a b => a.position < b.position := by
    have hle : (members.mergeSort fun a b => a.position ≤ b.position).Pairwise
        fun a b => decide (a.position ≤ b.position) = true :=
      pairwise_mergeSort (fun a b c hab hbc => by simp only [decide_eq_true_eq] at *; omega)
        (fun a b => by simp only [Bool.or_eq_true, decide_eq_true_eq]; omega) members
    have hne : (members.mergeSort fun a b => a.position ≤ b.position).Pairwise
        fun a b => a.position ≠ b.position :=
      pairwise_map.1 (((mergeSort_perm _ _).map _).nodup_iff.2 hdistinct)
    exact hle.imp₂ (fun a b hab hne => lt_of_le_of_ne (by simpa using hab) hne) hne
  -- the members are the rows that stand at their positions
  have hperm : (members.mergeSort fun a b => a.position ≤ b.position) =
      (rows.filter fun row => row.2 ∈ members.map (·.position)).map fun row =>
        ⟨row.1.id, row.2⟩ := by
    have hother : ((rows.filter fun row => row.2 ∈ members.map (·.position)).map fun row =>
        (⟨row.1.id, row.2⟩ : FoldMember)).Pairwise fun a b => a.position < b.position :=
      pairwise_map.2 (hrows.filter _)
    refine List.Perm.eq_of_pairwise
      (fun a b _ _ (hab : a.position < b.position) hba => absurd hab (Nat.lt_asymm hba))
      hsorted hother ?_
    refine (perm_ext_iff_of_nodup (hsorted.imp fun h heq => ?_)
      (hother.imp fun h heq => ?_)).2 fun member => ?_
    · exact absurd h (by rw [heq]; exact Nat.lt_irrefl _)
    · exact absurd h (by rw [heq]; exact Nat.lt_irrefl _)
    · rw [mem_mergeSort, mem_map]
      constructor
      · intro hmember
        obtain ⟨event, hrow, hid⟩ := hread member hmember
        refine ⟨(event, member.position), mem_filter.2 ⟨hrow, ?_⟩, ?_⟩
        · simpa using ⟨member, hmember, rfl⟩
        · rw [hid]
      · rintro ⟨row, hrow, rfl⟩
        obtain ⟨hin, hposition⟩ := mem_filter.1 hrow
        obtain ⟨member, hmember, hsame⟩ := mem_map.1 (of_decide_eq_true hposition)
        obtain ⟨event, hrow', hid⟩ := hread member hmember
        have hsame' : (event, member.position).2 = row.2 := hsame
        have hnodup : (rows.map Prod.snd).Nodup := pairwise_map.2 (hrows.imp fun h => h.ne)
        obtain rfl := inj_on_of_nodup_map hnodup hrow' hin hsame'
        rw [hid]
        exact hmember
  rw [hperm, map_map]
  rfl

/-- Every member is a row that has been read. -/
def Reads (rows : List (FoldEvent × ℕ)) (e : FoldEngine) : Prop :=
  ∀ member ∈ e.entries.flatMap FoldEntry.members, ∃ event,
    (event, member.position) ∈ rows ∧ event.id = member.id

theorem Reads.push (h : Reads rows e) (event : FoldEvent) :
    Reads (rows ++ [(event, e.nextPosition)]) (e.push event) := by
  have hperm : ((e.place event).entries.flatMap FoldEntry.members).Perm
      (e.entries.flatMap FoldEntry.members ++ [⟨event.id, e.nextPosition⟩]) := by
    rcases (placed_place e event).entries with ⟨pattern, heq⟩ | ⟨index, minimum, hlt, heq⟩
    · rw [heq, flatMap_append]
      exact List.Perm.refl _
    · rw [heq]
      exact perm_flatMap_modify hlt fun entry => rfl
  intro member hmember
  have hplaced : member ∈ (e.place event).entries.flatMap FoldEntry.members :=
    ((drop_sublist _ _).flatMap FoldEntry.members).subset hmember
  rcases mem_append.1 (hperm.subset hplaced) with hold | hnew
  · obtain ⟨read, hrow, hid⟩ := h member hold
    exact ⟨read, mem_append_left _ hrow, hid⟩
  · obtain rfl := mem_singleton.1 hnew
    exact ⟨event, mem_append_right _ (mem_singleton_self _), rfl⟩

theorem Reads.extend (h : Reads rows e) (events : List FoldEvent) :
    Reads (rows ++ events.zipIdx e.nextPosition) (e.extend events) := by
  induction events generalizing e rows with
  | nil => simpa [FoldEngine.extend] using h
  | cons event events ih =>
    have hrest := ih (h.push event)
    rw [nextPosition_push, append_assoc, singleton_append] at hrest
    exact hrest

/-! ### Whole runs -/

/-- Whether an event opens no run past a cap of zero, and the eviction after it is fair. -/
structure Fair (e : FoldEngine) (event : FoldEvent) : Prop where
  cap : e.config.enabled = true → event.key.isSome → 1 ≤ e.config.maximumPatterns
  retains : Retains (e.place event)

/-- A property of each event that is read. -/
def Through (p : FoldEngine → FoldEvent → Prop) : FoldEngine → List FoldEvent → Prop
  | _, [] => True
  | e, event :: events => p e event ∧ Through p (e.push event) events

/-- No entry is evicted while its run is open. -/
def ClosedFirst (e : FoldEngine) (event : FoldEvent) : Prop :=
  ∀ pattern run, (e.place event).openRuns.lookup pattern = some run →
    (e.push event).baseSerial ≤ run.serial

/-- What holds of the engine alone. -/
structure Kept (e : FoldEngine) : Prop where
  serials : Serials e
  capped : Capped e
  counted : Counted e

theorem Kept.push (h : Kept e) (hfair : Fair e event) : Kept (e.push event) :=
  ⟨h.serials.push event, (h.capped.place hfair.cap).enforceRetention,
    (h.counted.place event).enforceRetention⟩

theorem Follows.push (h : Follows e u) (hkept : Kept e) (hfair : Fair e event) :
    Follows (e.push event) ((u.place event).closeBelow (e.push event).baseSerial) :=
  (h.place hkept.serials event).enforceRetention (hkept.serials.place event) hfair.retains

/-- **A fair run retains the end of what an engine does that retains all.** -/
theorem Follows.extend (h : Follows e u) (hkept : Kept e) (hfair : Through Fair e events) :
    Follows (e.extend events) (alongside e u events) ∧ Kept (e.extend events) := by
  induction events generalizing e u with
  | nil => exact ⟨h, hkept⟩
  | cons event events ih =>
    exact ih (h.push hkept hfair.1) (hkept.push hfair.1) hfair.2

theorem length_le_positions (e : FoldEngine) : e.entries.length ≤ e.positions.length := by
  unfold FoldEngine.positions
  induction e.entries with
  | nil => exact Nat.zero_le _
  | cons entry entries ih =>
    have hpos : 0 < entry.positions.length :=
      (length_map _).symm ▸ length_pos_of_ne_nil entry.nonempty
    rw [flatMap_cons, length_append, length_cons]
    omega

theorem enforceRetention_of_le (hcounted : Counted e)
    (hentries : e.retainedMembers ≤ e.config.maximumEntries)
    (hmembers : e.retainedMembers ≤ e.config.maximumMembers) : e.enforceRetention = e := by
  have hlength := length_le_positions e
  have hzero : e.evicted = 0 := by
    rw [FoldEngine.evicted, if_pos]
    rw [Counted] at hcounted
    exact ⟨le_max_of_le_left (by omega), le_max_of_le_left (by omega)⟩
  unfold FoldEngine.enforceRetention
  rw [hzero]
  rfl

/-- **An engine with caps that are not reached evicts nothing.** -/
theorem extend_of_le (hcounted : Counted e)
    (hentries : e.retainedMembers + events.length ≤ e.config.maximumEntries)
    (hmembers : e.retainedMembers + events.length ≤ e.config.maximumMembers) :
    e.extend events = events.foldl FoldEngine.place e := by
  induction events generalizing e with
  | nil => rfl
  | cons event events ih =>
    rw [length_cons] at hentries hmembers
    have hconfig := (placed_place e event).config
    have hretained := retained_place e event
    have hplaced := hcounted.place event
    have hpush : e.push event = e.place event :=
      enforceRetention_of_le hplaced (by rw [hconfig]; omega) (by rw [hconfig]; omega)
    change (e.push event).extend events = _
    rw [hpush]
    exact ih hplaced (by rw [hconfig]; omega) (by rw [hconfig]; omega)

theorem alongside_eq (h : Follows e u) (hkept : Kept e) (hfair : Through Fair e events)
    (hclosed : Through ClosedFirst e events) :
    alongside e u events = events.foldl FoldEngine.place u := by
  induction events generalizing e u with
  | nil => rfl
  | cons event events ih =>
    have hplaced := h.place hkept.serials event
    have hsame : (u.place event).closeBelow (e.push event).baseSerial = u.place event := by
      unfold FoldEngine.closeBelow
      rw [Dict.filter_eq_self fun pattern run hrun => ?_]
      rw [hplaced.runs] at hrun
      exact decide_eq_true (hclosed.1 pattern run hrun)
    have hrest := ih (h.push hkept hfair.1) (hkept.push hfair.1) hfair.2 hclosed.2
    rw [hsame] at hrest
    rw [alongside, hsame, hrest, foldl_cons]

theorem kept_startingAt (config : FoldConfig) (firstPosition : ℕ) :
    Kept (.startingAt config firstPosition) :=
  ⟨serials_startingAt config firstPosition, Nat.zero_le _, rfl⟩

/-! ### The laws of retention -/

/-- The statistics say what has been read and what has been evicted. -/
structure Tallied (t : FoldTables) : Prop where
  observed : t.observedEvents = t.retainedMembers + t.evictedMembers
  entries : t.evictedEntries = t.baseSerial

theorem Tallied.push {t : FoldTables} (h : Tallied t) (hinverse : Inverse t.nextPosition t)
    (hcounted : Counted t.toFoldEngine) (event : FoldEvent) : Tallied (t.push event) := by
  obtain ⟨hpush, -⟩ := push_toFoldEngine hinverse event
  obtain ⟨hplace, -⟩ := place_toFoldEngine hinverse event
  have hplaced := stats_place t event
  have hstats := stats_enforceRetention (t.place event)
  have hgone : (((t.place event).entries.take (t.place event).evicted).map (·.count)).sum =
      (t.toFoldEngine.place event).goneMembers := by
    rw [← hplace]
    rfl
  have hsplit := (hcounted.place event).split
  have hretained : (t.push event).retainedMembers = (t.toFoldEngine.place event).retainedMembers -
      (t.toFoldEngine.place event).goneMembers := by
    rw [hpush]
    rfl
  have hbase : (t.push event).baseSerial = t.baseSerial + (t.place event).evicted := by
    rw [hpush, hplace]
    exact congrArg (· + _) (placed_place t.toFoldEngine event).base
  have hplus := retained_place t.toFoldEngine event
  have hobserved := h.observed
  have hentries := h.entries
  simp only [FoldTables.stats, Prod.mk.injEq] at hplaced hstats
  obtain ⟨ho, he, hm⟩ := hplaced
  obtain ⟨ho', he', hm'⟩ := hstats
  rw [hgone] at hm'
  constructor
  · change (t.place event).enforceRetention.observedEvents = _ +
      (t.place event).enforceRetention.evictedMembers
    rw [hretained]
    omega
  · change (t.place event).enforceRetention.evictedEntries = _
    rw [hbase]
    omega

/-- **What holds of an engine that has read these events**, from `firstPosition` on. -/
structure Lawful (config : FoldConfig) (firstPosition : ℕ) (events : List FoldEvent)
    (t : FoldTables) : Prop where
  /-- Observed events are retained or evicted. -/
  observed : t.observedEvents = events.length ∧
    t.observedEvents = t.retainedMembers + t.evictedMembers ∧
    t.retainedMembers = t.positions.length
  /-- Positions are unique, and ascend inside an entry. -/
  positions : t.positions.Nodup ∧ ∀ entry ∈ t.entries, entry.positions.Pairwise (· < ·)
  /-- The open runs and the recency table are inverse to each other. -/
  inverse : Inverse t.nextPosition t
  /-- There are at most as many open runs as the configuration says. -/
  capped : t.openRuns.size ≤ config.maximumPatterns
  /-- The entries are expanded to the events that are retained, in their order. -/
  expands : expandEntries t.entries =
    ((events.zipIdx firstPosition).filter fun row => row.2 ∈ t.positions).map (·.1.id)
  /-- The entries are those of the engine that retains all, less as many as were evicted; an entry
  that was evicted while its run was open may be split. -/
  retained : t.evictedEntries = t.baseSerial ∧ t.entries =
    (alongside (.startingAt config firstPosition)
      (.startingAt (config.capped events.length) firstPosition) events).entries.drop t.baseSerial
  /-- If no such entry was evicted, they are those of an engine with caps that are not reached. -/
  whole : Through ClosedFirst (.startingAt config firstPosition) events →
    ∀ cap, events.length ≤ cap → t.entries =
      ((FoldEngine.startingAt (config.capped cap) firstPosition).extend events).entries.drop
        t.baseSerial
  /-- No eviction closed a run whose entry stayed. -/
  keeps : Through (fun e event => Keeps (e.place event)) (.startingAt config firstPosition) events

variable {config : FoldConfig} {firstPosition : ℕ}

theorem tallied_extend {t : FoldTables} (h : Tallied t) (hinverse : Inverse t.nextPosition t)
    (hkept : Kept t.toFoldEngine) (hfair : Through Fair t.toFoldEngine events) :
    Tallied (t.extend events) := by
  induction events generalizing t with
  | nil => exact h
  | cons event events ih =>
    obtain ⟨hpush, hinverse'⟩ := push_toFoldEngine hinverse event
    refine ih (h.push hinverse hkept.counted event) hinverse' ?_ ?_
    · rw [hpush]
      exact hkept.push hfair.1
    · rw [hpush]
      exact hfair.2

theorem config_extend (e : FoldEngine) (events : List FoldEvent) :
    (e.extend events).config = e.config := by
  induction events generalizing e with
  | nil => rfl
  | cons event events ih => exact (ih (e.push event)).trans (placed_place e event).config

theorem observed_extend (t : FoldTables) (events : List FoldEvent) :
    (t.extend events).observedEvents = t.observedEvents + events.length := by
  induction events generalizing t with
  | nil => rfl
  | cons event events ih =>
    have hstats := congrArg Prod.fst (stats_enforceRetention (t.place event))
    have hplaced := congrArg Prod.fst (stats_place t event)
    have hpush : (t.push event).observedEvents = t.observedEvents + 1 := hstats.trans hplaced
    rw [length_cons]
    refine (ih (t.push event)).trans ?_
    rw [hpush]
    omega

theorem Through.imp {p q : FoldEngine → FoldEvent → Prop} (hpq : ∀ e event, p e event → q e event)
    {e : FoldEngine} (h : Through p e events) : Through q e events := by
  induction events generalizing e with
  | nil => trivial
  | cons event events ih => exact ⟨hpq e event h.1, ih h.2⟩

/-- **Retention is lawful in every fair run**, whatever the batches. -/
theorem retention_lawful {batches : List (List FoldEvent)}
    (hfair : Through Fair (.startingAt config firstPosition) batches.flatten) :
    Lawful config firstPosition batches.flatten
      (batches.foldl FoldTables.extend (.startingAt config firstPosition)) := by
  have hbatches : batches.foldl FoldTables.extend (.startingAt config firstPosition) =
      FoldTables.extend (.startingAt config firstPosition) batches.flatten :=
    foldl_flatten.symm
  rw [hbatches]
  generalize batches.flatten = events at hfair ⊢
  have hstart : Inverse (FoldTables.startingAt config firstPosition).nextPosition
      (.startingAt config firstPosition) := inverse_startingAt config firstPosition
  obtain ⟨hengine, hinverse⟩ := extend_toFoldEngine hstart events
  have hkept₀ := kept_startingAt config firstPosition
  have hfollows₀ (cap : ℕ) := Follows.startingAt config cap firstPosition
  obtain ⟨hfollows, hkept⟩ := (hfollows₀ events.length).extend hkept₀ hfair
  have hheld := (held_startingAt config firstPosition).extend events
  have htallied : Tallied ((FoldTables.startingAt config firstPosition).extend events) :=
    tallied_extend ⟨rfl, rfl⟩ hstart hkept₀ hfair
  have hreads : Reads (events.zipIdx firstPosition)
      ((FoldEngine.startingAt config firstPosition).extend events) := by
    have hread : Reads [] (.startingAt config firstPosition) := by
      simp [Reads, FoldEngine.startingAt]
    exact hread.extend events
  have hrows : (events.zipIdx firstPosition).Pairwise fun a b => a.2 < b.2 := by
    refine pairwise_map.1 ?_
    rw [zipIdx_map_snd]
    exact pairwise_lt_range'
  have hcounted := hkept.counted
  have hcapped := hkept.capped
  rw [Capped, config_extend] at hcapped
  rw [Counted] at hcounted
  have hkeptEntries := hfollows.kept
  constructor
  · refine ⟨(observed_extend _ _).trans (Nat.zero_add _), htallied.observed, ?_⟩
    rw [hengine]
    exact hcounted
  · rw [hengine]
    exact ⟨hheld.distinct, hheld.ascending⟩
  · exact hinverse
  · rw [hengine]
    exact hcapped
  · rw [hengine]
    exact expandEntries_eq hheld hrows hreads
  · refine ⟨htallied.entries, ?_⟩
    rw [hengine]
    exact hkeptEntries
  · intro hclosed cap hcap
    have hall := ((hfollows₀ cap).extend hkept₀ hfair).1.kept
    rw [alongside_eq (hfollows₀ cap) hkept₀ hfair hclosed] at hall
    have hreference := extend_of_le (e := .startingAt (config.capped cap) firstPosition)
      (kept_startingAt _ firstPosition).counted ((Nat.zero_add _).trans_le hcap)
      ((Nat.zero_add _).trans_le hcap)
    rw [hengine, hreference]
    exact hall
  · exact hfair.imp fun e event h => keeps_iff.2 h.retains

/-! ### A run that an eviction closes -/

theorem retains_of_entries (h : ∀ run ∈ e.openRuns.entries, run.1 ∈ e.gone →
    run.2.serial < e.baseSerial + e.evicted) : Retains e :=
  fun _ _ hrun hgone => h _ (AList.mem_lookup_iff.1 hrun) hgone

/-- Adjacent runs, of which two entries are retained. -/
def exampleTwo : FoldConfig :=
  { FoldConfig.default with enabled := true, minimumRun := 2, maximumEntries := 2 }

/-- Rows with these keys. -/
def exampleKeys (keys : List String) : List FoldEvent :=
  keys.map fun key => ⟨("s", 0), some key⟩

/-- The third entry evicts the first, whose key has no other run. -/
theorem retention_lawful_three : Lawful exampleTwo 0
    [exampleKeys ["a", "b"], exampleKeys ["c", "c"]].flatten
    ([exampleKeys ["a", "b"], exampleKeys ["c", "c"]].foldl FoldTables.extend
      (.startingAt exampleTwo 0)) :=
  retention_lawful
    ⟨⟨fun _ _ => by decide, retains_of_entries (by decide)⟩,
      ⟨fun _ _ => by decide, retains_of_entries (by decide)⟩,
      ⟨fun _ _ => by decide, retains_of_entries (by decide)⟩,
      ⟨fun _ _ => by decide, retains_of_entries (by decide)⟩, trivial⟩

/-- **An eviction closes a newer run that has the same key**: with the second entry of `a` the first
is evicted, and the next `a` begins a third. -/
theorem eviction_closes_newer : ¬ ∀ (config : FoldConfig) (firstPosition : ℕ)
    (batches : List (List FoldEvent)), Lawful config firstPosition batches.flatten
      (batches.foldl FoldTables.extend (.startingAt config firstPosition)) := by
  intro hall
  have hkeeps := (hall exampleTwo 0 [exampleKeys ["a", "b", "a", "a"]]).keeps
  have hthird := hkeeps.2.2.1 "a" ⟨2, 2⟩ (by decide) (by decide)
  exact absurd hthird (by decide)

end Lvu.View.Fold
