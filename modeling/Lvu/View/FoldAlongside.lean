import Lvu.View.Fold
import Lvu.View.FoldTables

/-!
# The fold engine beside one that retains all

What the engine evicts is gone from its entries.  An engine that evicts nothing reads the same rows
beside it (`lvu-view/src/folding.rs`).

* `alongside` : the engine that retains all; a run is closed where its entry is evicted.
* `Serials` : each open run is that of a retained entry with its pattern.
* `Follows` : what is retained is the end of what the other engine has.
* `Retains` : no entry is evicted that has the pattern of an open run whose entry stays.
* `Follows.enforceRetention` : the engines stay side by side, if it is so.
-/

namespace Lvu.View.Fold

open List

/-! ### Engines that retain all -/

/-- The configuration with other caps of entries and members. -/
def FoldConfig.capped (config : FoldConfig) (cap : ℕ) : FoldConfig :=
  { config with maximumEntries := cap, maximumMembers := cap }

/-- The runs of the entries before a serial are closed. -/
def FoldEngine.closeBelow (e : FoldEngine) (serial : ℕ) : FoldEngine :=
  { e with openRuns := Dict.filter (fun _ run => serial ≤ run.serial) e.openRuns }

theorem closeBelow_openRuns (e : FoldEngine) (serial : ℕ) : (e.closeBelow serial).openRuns =
    Dict.filter (fun _ run => serial ≤ run.serial) e.openRuns := rfl

/-- The engine `u` retains all rows that `e` reads.  Where `e` evicts an entry whose run is open,
the run is closed: the entry may be split there. -/
def alongside : FoldEngine → FoldEngine → List FoldEvent → FoldEngine
  | _, u, [] => u
  | e, u, event :: events =>
    alongside (e.push event) ((u.place event).closeBelow (e.push event).baseSerial) events

/-- **What `e` retains is the end of what `u` does**, and the same runs are open. -/
structure Follows (e u : FoldEngine) : Prop where
  config : ∃ cap, u.config = e.config.capped cap
  base : u.baseSerial = 0
  next : u.nextPosition = e.nextPosition
  kept : e.entries = u.entries.drop e.baseSerial
  within : e.baseSerial ≤ u.entries.length
  runs : u.openRuns = e.openRuns

/-- Each open run is that of an entry with its pattern, which is retained. -/
def Serials (e : FoldEngine) : Prop :=
  ∀ pattern run, e.openRuns.lookup pattern = some run → e.baseSerial ≤ run.serial ∧
    (e.entries.map FoldEntry.pattern)[run.serial - e.baseSerial]? = some pattern

variable {e u : FoldEngine} {event : FoldEvent} {pattern : String}

/-! ### Serials -/

theorem serials_startingAt (config : FoldConfig) (firstPosition : ℕ) :
    Serials (.startingAt config firstPosition) :=
  fun _ _ h => absurd h (by simp [FoldEngine.startingAt])

theorem Serials.of_le {e' : FoldEngine} (h : Serials e) (hbase : e'.baseSerial = e.baseSerial)
    (hentries : e.entries.map FoldEntry.pattern <+: e'.entries.map FoldEntry.pattern)
    (hruns : ∀ pattern run, e'.openRuns.lookup pattern = some run →
      e.openRuns.lookup pattern = some run) : Serials e' := by
  intro pattern run hrun
  obtain ⟨hle, hpattern⟩ := h pattern run (hruns pattern run hrun)
  rw [hbase]
  exact ⟨hle, getElem?_prefix hentries hpattern⟩

theorem Serials.indexOf (h : Serials e) {run : OpenRun}
    (hrun : e.openRuns.lookup pattern = some run) :
    e.indexOf run.serial = some (run.serial - e.baseSerial) := by
  obtain ⟨hle, hpattern⟩ := h pattern run hrun
  obtain ⟨hlt, -⟩ := List.getElem?_eq_some_iff.1 hpattern
  rw [length_map] at hlt
  rw [FoldEngine.indexOf, if_pos ⟨hle, hlt⟩]

theorem Serials.closePattern (h : Serials e) (pattern : String) :
    Serials (e.closePattern pattern) :=
  h.of_le rfl (prefix_refl _) fun _ _ hrun => lookup_closePattern hrun

theorem Serials.closeStale (h : Serials e) (position : ℕ) : Serials (e.closeStale position) :=
  h.of_le rfl (prefix_refl _) fun _ _ hrun => (Dict.lookup_filter hrun).1

/-- The run of a new entry is its own. -/
theorem Serials.startEntry (h : Serials e) (pattern : String) (member : FoldMember)
    (isOpen : Bool) : Serials (e.startEntry pattern member isOpen) := by
  have happend : (e.entries ++ [FoldEntry.single pattern member]).map FoldEntry.pattern =
      e.entries.map FoldEntry.pattern ++ [pattern] := map_append
  cases isOpen with
  | false => exact h.of_le rfl (happend ▸ prefix_append _ _) fun _ _ hrun => hrun
  | true =>
    intro other run hrun
    obtain ⟨-, hentries, hbase, -⟩ := startEntry_fields e pattern member true
    rw [hentries, hbase, happend]
    have hrun' := lookup_enforcePatternCap hrun
    rw [Dict.lookup_insert_eq] at hrun'
    split_ifs at hrun' with hother
    · cases hrun'
      subst hother
      refine ⟨Nat.le_add_right _ _, ?_⟩
      rw [Nat.add_sub_cancel_left, ← length_map (f := FoldEntry.pattern),
        getElem?_concat_length]
    · obtain ⟨hle, hpattern⟩ := h other run (lookup_closePattern hrun')
      exact ⟨hle, getElem?_prefix (prefix_append _ _) hpattern⟩

/-- A member more does not change the pattern of an entry. -/
theorem Serials.appendMember (h : Serials e) {run : OpenRun}
    (hrun : e.openRuns.lookup pattern = some run) (index : ℕ) (member : FoldMember) :
    Serials (e.appendMember index pattern run member) := by
  have hentries : (e.appendMember index pattern run member).entries.map FoldEntry.pattern =
      e.entries.map FoldEntry.pattern := by
    refine ext_getElem? fun i => ?_
    rw [FoldEngine.appendMember, getElem?_map, getElem?_modify, getElem?_map]
    cases e.entries[i]? with
    | none => rfl
    | some entry =>
      simp only [Option.map_eq_map, Option.map_some]
      split_ifs <;> rfl
  intro other run' hrun'
  rw [hentries]
  have hlookup : (e.openRuns.insert pattern { run with lastPosition := member.position }).lookup
      other = some run' := hrun'
  rw [Dict.lookup_insert_eq] at hlookup
  split_ifs at hlookup with hother
  · cases hlookup
    subst hother
    exact h other run hrun
  · exact h other run' hlookup

/-- **Placing a row keeps the serials.** -/
theorem Serials.place (h : Serials e) (event : FoldEvent) : Serials (e.place event) := by
  have hnext : Serials { e with nextPosition := e.nextPosition + 1 } := h
  unfold FoldEngine.place
  simp only
  cases e.config.enabled with
  | false => exact hnext.startEntry _ _ _
  | true =>
    cases event.key with
    | none => exact hnext.startEntry _ _ _
    | some pattern =>
      have hstale := hnext.closeStale e.nextPosition
      simp only
      generalize FoldEngine.closeStale _ e.nextPosition = closed at hstale ⊢
      cases hrun : closed.openRuns.lookup pattern with
      | none => exact hstale.startEntry _ _ _
      | some run =>
        simp only
        cases closed.indexOf run.serial with
        | none => exact (hstale.closePattern pattern).startEntry _ _ _
        | some index =>
          simp only
          split_ifs
          · exact hstale.appendMember hrun index _
          · exact (hstale.closePattern pattern).startEntry _ _ _

/-! ### What an eviction closes -/

/-- The patterns of the entries that are evicted. -/
def FoldEngine.gone (e : FoldEngine) : List String :=
  (e.entries.take e.evicted).map FoldEntry.pattern

theorem foldl_erase_eq_filter (patterns : List String) (runs : Dict String OpenRun) :
    patterns.foldl (fun runs pattern => runs.erase pattern) runs =
      runs.filter fun pattern _ => pattern ∉ patterns := by
  induction patterns generalizing runs with
  | nil => exact (Dict.filter_eq_self fun _ _ _ => by simp).symm
  | cons pattern patterns ih =>
    rw [foldl_cons, ih, Dict.erase_eq_filter, Dict.filter_filter]
    refine Dict.filter_congr fun other run _ => ?_
    simp [not_or]

theorem enforceRetention_openRuns (e : FoldEngine) :
    e.enforceRetention.openRuns = Dict.filter (fun pattern _ => pattern ∉ e.gone) e.openRuns :=
  foldl_erase_eq_filter _ _

theorem Serials.mem_gone (h : Serials e) {run : OpenRun}
    (hrun : e.openRuns.lookup pattern = some run)
    (hlt : run.serial < e.baseSerial + e.evicted) : pattern ∈ e.gone := by
  obtain ⟨hle, hpattern⟩ := h pattern run hrun
  rw [FoldEngine.gone, map_take]
  refine mem_of_getElem? (i := run.serial - e.baseSerial) ?_
  rw [getElem?_take_of_lt (by omega), hpattern]

theorem Serials.enforceRetention (h : Serials e) : Serials e.enforceRetention := by
  intro pattern run hrun
  rw [enforceRetention_openRuns, Dict.lookup_filter_iff] at hrun
  obtain ⟨hrun, hstays⟩ := hrun
  obtain ⟨hle, hpattern⟩ := h pattern run hrun
  have hserial : e.baseSerial + e.evicted ≤ run.serial :=
    Nat.le_of_not_lt fun hlt => absurd (h.mem_gone hrun hlt) (by simpa using hstays)
  refine ⟨hserial, ?_⟩
  change ((e.entries.drop e.evicted).map FoldEntry.pattern)[run.serial -
    (e.baseSerial + e.evicted)]? = some pattern
  rw [map_drop, getElem?_drop, ← hpattern]
  congr 1
  omega

theorem Serials.push (h : Serials e) (event : FoldEvent) : Serials (e.push event) :=
  (h.place event).enforceRetention

/-! ### The two engines side by side -/

theorem enforcePatternCap_openRuns {fuel : ℕ} (hruns : u.openRuns = e.openRuns)
    (hcap : u.config.maximumPatterns = e.config.maximumPatterns) :
    (FoldEngine.enforcePatternCap fuel u).openRuns =
      (FoldEngine.enforcePatternCap fuel e).openRuns := by
  induction fuel generalizing e u with
  | zero => exact hruns
  | succ fuel ih =>
    have holdest : u.oldest = e.oldest := by rw [FoldEngine.oldest, FoldEngine.oldest, hruns]
    unfold FoldEngine.enforcePatternCap
    rw [hruns, hcap, holdest]
    split_ifs
    · cases e.oldest with
      | none => exact hruns
      | some pattern => exact ih (congrArg (AList.erase pattern) hruns) hcap
    · exact hruns

namespace Follows

theorem startingAt (config : FoldConfig) (cap firstPosition : ℕ) :
    Follows (.startingAt config firstPosition) (.startingAt (config.capped cap) firstPosition) :=
  ⟨⟨cap, rfl⟩, rfl, rfl, rfl, Nat.zero_le _, rfl⟩

theorem length_eq (h : Follows e u) : u.entries.length = e.baseSerial + e.entries.length := by
  have hwithin := h.within
  rw [h.kept, length_drop]
  omega

theorem config_eq (h : Follows e u) : u.config.enabled = e.config.enabled ∧
    u.config.minimumRun = e.config.minimumRun ∧ u.config.scope = e.config.scope ∧
    u.config.maximumPatterns = e.config.maximumPatterns ∧
    u.config.maximumRun = e.config.maximumRun := by
  obtain ⟨cap, hcap⟩ := h.config
  rw [hcap]
  exact ⟨rfl, rfl, rfl, rfl, rfl⟩

theorem closePattern (h : Follows e u) (pattern : String) :
    Follows (e.closePattern pattern) (u.closePattern pattern) :=
  { h with runs := congrArg (AList.erase pattern) h.runs }

theorem closeStale (h : Follows e u) (position : ℕ) :
    Follows (e.closeStale position) (u.closeStale position) := by
  refine { h with runs := ?_ }
  rw [FoldEngine.closeStale, FoldEngine.closeStale, h.config_eq.2.2.1, h.runs]

/-- A new entry has one serial in both. -/
theorem startEntry (h : Follows e u) (pattern : String) (member : FoldMember) (isOpen : Bool) :
    Follows (e.startEntry pattern member isOpen) (u.startEntry pattern member isOpen) := by
  have happend : e.entries ++ [FoldEntry.single pattern member] =
      (u.entries ++ [FoldEntry.single pattern member]).drop e.baseSerial := by
    rw [drop_append_of_le_length h.within, h.kept]
  have hwithin : e.baseSerial ≤ (u.entries ++ [FoldEntry.single pattern member]).length :=
    h.within.trans (by simp)
  obtain ⟨hc, he, hb, hn⟩ := startEntry_fields e pattern member isOpen
  obtain ⟨hc', he', hb', hn'⟩ := startEntry_fields u pattern member isOpen
  constructor
  · rw [hc, hc']
    exact h.config
  · rw [hb']
    exact h.base
  · rw [hn, hn']
    exact h.next
  · rw [he, he', hb]
    exact happend
  · rw [he', hb]
    exact hwithin
  · unfold FoldEngine.startEntry
    cases isOpen with
    | false => exact h.runs
    | true =>
      have hserial : u.baseSerial + u.entries.length = e.baseSerial + e.entries.length := by
        rw [h.base, h.length_eq, Nat.zero_add]
      simp only [if_true]
      rw [hserial, h.runs]
      exact enforcePatternCap_openRuns rfl h.config_eq.2.2.2.1

theorem appendMember (h : Follows e u) {run : OpenRun} (hle : e.baseSerial ≤ run.serial)
    (pattern : String) (member : FoldMember) :
    Follows (e.appendMember (run.serial - e.baseSerial) pattern run member)
      (u.appendMember run.serial pattern run member) := by
  refine ⟨h.config, h.base, h.next, ?_, ?_, ?_⟩
  · simp only [FoldEngine.appendMember]
    rw [drop_modify_of_ge _ _ _ _ hle, ← h.kept, h.config_eq.2.1]
  · simp only [FoldEngine.appendMember, length_modify]
    exact h.within
  · simp only [FoldEngine.appendMember]
    rw [h.runs]

/-- **A row is placed in the same entry.** -/
theorem place (h : Follows e u) (hserials : Serials e) (event : FoldEvent) :
    Follows (e.place event) (u.place event) := by
  have hnext : Follows { e with nextPosition := e.nextPosition + 1 }
      { u with nextPosition := e.nextPosition + 1 } :=
    ⟨h.config, h.base, rfl, h.kept, h.within, h.runs⟩
  unfold FoldEngine.place
  simp only
  rw [h.config_eq.1, h.next]
  cases e.config.enabled with
  | false => exact hnext.startEntry _ _ _
  | true =>
    cases event.key with
    | none => exact hnext.startEntry _ _ _
    | some pattern =>
      have hstale := hnext.closeStale e.nextPosition
      have hclosed : Serials (FoldEngine.closeStale
          { e with nextPosition := e.nextPosition + 1 } e.nextPosition) :=
        Serials.closeStale hserials e.nextPosition
      simp only
      generalize FoldEngine.closeStale { e with nextPosition := e.nextPosition + 1 }
        e.nextPosition = closed at hstale hclosed ⊢
      generalize FoldEngine.closeStale { u with nextPosition := e.nextPosition + 1 }
        e.nextPosition = closed' at hstale ⊢
      rw [hstale.runs]
      cases hrun : closed.openRuns.lookup pattern with
      | none => exact hstale.startEntry _ _ _
      | some run =>
        obtain ⟨hle, hpattern⟩ := hclosed pattern run hrun
        have hindex := hclosed.indexOf hrun
        have hindex' : closed'.indexOf run.serial = some run.serial := by
          obtain ⟨hlt, -⟩ := List.getElem?_eq_some_iff.1 hpattern
          rw [length_map] at hlt
          rw [FoldEngine.indexOf, hstale.base, hstale.length_eq, if_pos (by omega), Nat.sub_zero]
        have hentry : closed.entries[run.serial - closed.baseSerial]? =
            closed'.entries[run.serial]? := by
          rw [hstale.kept, getElem?_drop, Nat.add_sub_cancel' hle]
        simp only [hindex, hindex']
        rw [hentry, hstale.config_eq.2.2.2.2]
        split_ifs
        · exact hstale.appendMember hle pattern _
        · exact (hstale.closePattern pattern).startEntry _ _ _

end Follows

/-! ### Fair evictions -/

/-- **An eviction is fair**: no entry goes that has the pattern of an open run whose entry stays. -/
def Retains (e : FoldEngine) : Prop :=
  ∀ pattern run, e.openRuns.lookup pattern = some run → pattern ∈ e.gone →
    run.serial < e.baseSerial + e.evicted

/-- The runs that a fair eviction closes are those of the entries that go. -/
theorem Follows.enforceRetention (h : Follows e u) (hserials : Serials e) (hretains : Retains e) :
    Follows e.enforceRetention (u.closeBelow e.enforceRetention.baseSerial) := by
  refine ⟨h.config, h.base, h.next, ?_, ?_, ?_⟩
  · change e.entries.drop e.evicted = u.entries.drop (e.baseSerial + e.evicted)
    rw [h.kept, drop_drop]
  · change e.baseSerial + e.evicted ≤ u.entries.length
    have hle := evicted_le e
    rw [h.length_eq]
    omega
  · rw [enforceRetention_openRuns, closeBelow_openRuns, h.runs]
    refine Dict.filter_congr fun pattern run hrun => ?_
    refine decide_eq_decide.2 ?_
    change e.baseSerial + e.evicted ≤ run.serial ↔ pattern ∉ e.gone
    constructor
    · intro hle hgone
      exact absurd (hretains pattern run hrun hgone) (Nat.not_lt.2 hle)
    · intro hgone
      exact Nat.le_of_not_lt fun hlt => hgone (hserials.mem_gone hrun hlt)

/-- A run whose entry stays is not closed. -/
def Keeps (e : FoldEngine) : Prop :=
  ∀ pattern run, e.openRuns.lookup pattern = some run → e.baseSerial + e.evicted ≤ run.serial →
    e.enforceRetention.openRuns.lookup pattern = some run

theorem keeps_iff : Keeps e ↔ Retains e := by
  constructor
  · intro hkeeps pattern run hrun hgone
    refine Nat.lt_of_not_le fun hle => ?_
    have hstays := hkeeps pattern run hrun hle
    rw [enforceRetention_openRuns, Dict.lookup_filter_iff] at hstays
    exact absurd hgone (by simpa using hstays.2)
  · intro hretains pattern run hrun hle
    rw [enforceRetention_openRuns, Dict.lookup_filter_iff]
    refine ⟨hrun, decide_eq_true fun hgone => ?_⟩
    exact absurd (hretains pattern run hrun hgone) (Nat.not_lt.2 hle)

end Lvu.View.Fold
