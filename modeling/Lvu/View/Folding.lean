import Lvu.Data.Dict
import Mathlib.Data.List.Flatten
import Mathlib.Data.Option.Basic

/-!
# Repeated-pattern folding

The engine reads the rows of a stream one after another and collects those with the same key into
entries, as long as the run of the key is open (`lvu-view/src/folding.rs`).  What it retains is
capped: the oldest entries are evicted, and their rows are shown one by one again.

* `push` : one row is read.
* `Held` : no position stands twice in the entries, whatever is evicted.
* `Spans` : the entries hold each position, from the first that is retained to the next, once.
* `Intact` : an eviction drops no row behind one that is retained.
* `spans_push` : reading keeps the span, unless an eviction is not intact.
* `intact_adjacent` : it always is, where runs are adjacent.
-/

namespace Lvu.View.Fold

open List

/-- `RowId`: a source and a sequence. -/
abbrev RowId := String × UInt64

/-! ### The engine -/

inductive FoldScope
  | adjacent
  | lookback (window : ℕ)
deriving DecidableEq

def FoldScope.gapLimit : FoldScope → ℕ
  | .adjacent => 1
  | .lookback window => window + 1

/-- `FoldConfig`, apart from what only the derivation of keys and samples reads. -/
structure FoldConfig where
  enabled : Bool
  minimumRun : ℕ
  scope : FoldScope
  maximumPatterns : ℕ
  maximumRun : ℕ
  maximumEntries : ℕ
  maximumMembers : ℕ

def FoldConfig.default : FoldConfig where
  enabled := false
  minimumRun := 3
  scope := .adjacent
  maximumPatterns := 256
  maximumRun := 100000
  maximumEntries := 8192
  maximumMembers := 65536

structure FoldMember where
  id : RowId
  position : ℕ
deriving DecidableEq

structure FoldEntry where
  pattern : String
  members : List FoldMember
  /-- "Never empty." -/
  nonempty : members ≠ []
  folded : Bool

namespace FoldEntry

variable (entry : FoldEntry)

def first : FoldMember := entry.members.head entry.nonempty

def last : FoldMember := entry.members.getLast entry.nonempty

def count : ℕ := entry.members.length

/-- The positions of the members. -/
def positions : List ℕ := entry.members.map (·.position)

/-- `append_member`. -/
def append (minimum : ℕ) (member : FoldMember) : FoldEntry where
  pattern := entry.pattern
  members := entry.members ++ [member]
  nonempty := by simp
  folded := minimum ≤ entry.members.length + 1

/-- An entry of one member. -/
def single (pattern : String) (member : FoldMember) : FoldEntry where
  pattern := pattern
  members := [member]
  nonempty := by simp
  folded := false

end FoldEntry

structure OpenRun where
  serial : ℕ
  lastPosition : ℕ
deriving DecidableEq

/-- `FoldEngine`.  Its `recency` is the open runs again, by their last positions. -/
structure FoldEngine where
  config : FoldConfig
  entries : List FoldEntry
  baseSerial : ℕ
  openRuns : Dict String OpenRun
  firstPosition : ℕ
  nextPosition : ℕ
  retainedMembers : ℕ

/-- A row that is offered to the engine, with the answer of `fold_key`. -/
structure FoldEvent where
  id : RowId
  key : Option String

def FoldEngine.startingAt (config : FoldConfig) (firstPosition : ℕ) : FoldEngine where
  config := config
  entries := []
  baseSerial := 0
  openRuns := ∅
  firstPosition := firstPosition
  nextPosition := firstPosition
  retainedMembers := 0

namespace FoldEngine

variable (e : FoldEngine)

def indexOf (serial : ℕ) : Option ℕ :=
  if e.baseSerial ≤ serial ∧ serial - e.baseSerial < e.entries.length then
    some (serial - e.baseSerial)
  else none

def closePattern (pattern : String) : FoldEngine :=
  { e with openRuns := e.openRuns.erase pattern }

def closeStale (position : ℕ) : FoldEngine :=
  let threshold := position - e.config.scope.gapLimit
  { e with openRuns := e.openRuns.filter fun _ run => threshold ≤ run.lastPosition }

/-- The pattern of the run that was extended least recently. -/
def oldest : Option String :=
  (e.openRuns.entries.foldl (fun best run => match best with
    | none => some run
    | some b => if run.2.lastPosition < b.2.lastPosition then some run else some b)
    none).map (·.1)

/-- `enforce_pattern_cap`; each turn closes a run. -/
def enforcePatternCap : ℕ → FoldEngine → FoldEngine
  | 0, e => e
  | fuel + 1, e =>
    if e.openRuns.size > max e.config.maximumPatterns 1 then
      match e.oldest with
      | none => e
      | some pattern => enforcePatternCap fuel (e.closePattern pattern)
    else e

/-- `append_member`, with the bookkeeping of `touch`. -/
def appendMember (index : ℕ) (pattern : String) (run : OpenRun) (member : FoldMember) :
    FoldEngine :=
  { e with
    entries := e.entries.modify index (·.append (max e.config.minimumRun 2) member)
    retainedMembers := e.retainedMembers + 1
    openRuns := e.openRuns.insert pattern { run with lastPosition := member.position } }

def startEntry (pattern : String) (member : FoldMember) (isOpen : Bool) : FoldEngine :=
  let started := { e with
    entries := e.entries ++ [.single pattern member]
    retainedMembers := e.retainedMembers + 1 }
  if isOpen then
    let serial := e.baseSerial + e.entries.length
    enforcePatternCap started.openRuns.size.succ { started with
      openRuns := (e.openRuns.erase pattern).insert pattern ⟨serial, member.position⟩ }
  else started

/-- How many entries `enforce_retention` evicts, from the front. -/
def evicting (entryTarget memberTarget : ℕ) : List FoldEntry → ℕ → ℕ
  | [], _ => 0
  | entry :: entries, retained =>
    if (entry :: entries).length > entryTarget ∨ retained > memberTarget then
      evicting entryTarget memberTarget entries (retained - entry.count) + 1
    else 0

/-- How many entries are evicted. -/
def evicted : ℕ :=
  let entryCap := max e.config.maximumEntries 1
  let memberCap := max e.config.maximumMembers 1
  if e.entries.length ≤ entryCap ∧ e.retainedMembers ≤ memberCap then 0
  else evicting (entryCap - entryCap / 4) (memberCap - memberCap / 4) e.entries e.retainedMembers

def enforceRetention : FoldEngine :=
  let gone := e.entries.take e.evicted
  { e with
    entries := e.entries.drop e.evicted
    retainedMembers := e.retainedMembers - (gone.map (·.count)).sum
    baseSerial := e.baseSerial + e.evicted
    openRuns := (gone.map (·.pattern)).foldl (fun runs pattern => runs.erase pattern) e.openRuns }

/-- `push`, before retention is enforced. -/
def place (event : FoldEvent) : FoldEngine :=
  let position := e.nextPosition
  let e := { e with nextPosition := position + 1 }
  match e.config.enabled, event.key with
  | false, _ | true, none => e.startEntry "" ⟨event.id, position⟩ false
  | true, some pattern =>
    let e := e.closeStale position
    match e.openRuns.lookup pattern with
    | none => e.startEntry pattern ⟨event.id, position⟩ true
    | some run => match e.indexOf run.serial with
      | none => (e.closePattern pattern).startEntry pattern ⟨event.id, position⟩ true
      | some index =>
        if ((e.entries[index]?).map (·.count)).getD 0 < e.config.maximumRun then
          e.appendMember index pattern run ⟨event.id, position⟩
        else (e.closePattern pattern).startEntry pattern ⟨event.id, position⟩ true

def push (event : FoldEvent) : FoldEngine := (e.place event).enforceRetention

def extend (events : List FoldEvent) : FoldEngine := events.foldl push e

/-- The positions of all members, entry by entry. -/
def positions : List ℕ := e.entries.flatMap FoldEntry.positions

/-- The first position that is retained. -/
def head : ℕ := (e.entries.head?.map (·.first.position)).getD e.nextPosition

end FoldEngine

/-! ### What reading a row does -/

variable {e : FoldEngine} {event : FoldEvent} {entry : FoldEntry}

theorem positions_append (minimum : ℕ) (member : FoldMember) :
    (entry.append minimum member).positions = entry.positions ++ [member.position] := by
  simp [FoldEntry.positions, FoldEntry.append]

theorem first_append (minimum : ℕ) (member : FoldMember) :
    (entry.append minimum member).first = entry.first :=
  head_append_of_ne_nil entry.nonempty

theorem enforcePatternCap_fields (fuel : ℕ) (e : FoldEngine) :
    (FoldEngine.enforcePatternCap fuel e).config = e.config ∧
    (FoldEngine.enforcePatternCap fuel e).entries = e.entries ∧
    (FoldEngine.enforcePatternCap fuel e).baseSerial = e.baseSerial ∧
    (FoldEngine.enforcePatternCap fuel e).firstPosition = e.firstPosition ∧
    (FoldEngine.enforcePatternCap fuel e).nextPosition = e.nextPosition := by
  induction fuel generalizing e with
  | zero => exact ⟨rfl, rfl, rfl, rfl, rfl⟩
  | succ fuel ih =>
    unfold FoldEngine.enforcePatternCap
    split_ifs
    · cases e.oldest with
      | none => exact ⟨rfl, rfl, rfl, rfl, rfl⟩
      | some pattern => exact ih (e.closePattern pattern)
    · exact ⟨rfl, rfl, rfl, rfl, rfl⟩

/-- A new entry is appended; what its run closes is the openness of others. -/
theorem startEntry_fields (e : FoldEngine) (pattern : String) (member : FoldMember) (isOpen : Bool) :
    (e.startEntry pattern member isOpen).config = e.config ∧
    (e.startEntry pattern member isOpen).entries = e.entries ++ [.single pattern member] ∧
    (e.startEntry pattern member isOpen).baseSerial = e.baseSerial ∧
    (e.startEntry pattern member isOpen).nextPosition = e.nextPosition := by
  cases isOpen with
  | false => exact ⟨rfl, rfl, rfl, rfl⟩
  | true =>
    obtain ⟨hconfig, hentries, hbase, -, hnext⟩ := enforcePatternCap_fields e.openRuns.size.succ _
    exact ⟨hconfig, hentries, hbase, hnext⟩

/-- What a placed row is added to. -/
structure Placed (e e' : FoldEngine) (member : FoldMember) : Prop where
  config : e'.config = e.config
  next : e'.nextPosition = e.nextPosition + 1
  base : e'.baseSerial = e.baseSerial
  entries : (∃ pattern, e'.entries = e.entries ++ [.single pattern member]) ∨
    ∃ index minimum, index < e.entries.length ∧
      e'.entries = e.entries.modify index (·.append minimum member)

variable {e₀ e' : FoldEngine} {member : FoldMember} {position index : ℕ} {pattern : String}
  {run : OpenRun} {stream : List RowId}

theorem placed_startEntry (pattern : String) (isOpen : Bool) (hconfig : e₀.config = e.config)
    (hnext : e₀.nextPosition = e.nextPosition + 1) (hbase : e₀.baseSerial = e.baseSerial)
    (hentries : e₀.entries = e.entries) :
    Placed e (e₀.startEntry pattern member isOpen) member := by
  obtain ⟨hc, he, hb, hn⟩ := startEntry_fields e₀ pattern member isOpen
  exact ⟨hc.trans hconfig, hn.trans hnext, hb.trans hbase,
    .inl ⟨pattern, he.trans (by rw [hentries])⟩⟩

/-- **A row is placed once**, at the next position. -/
theorem placed_place (e : FoldEngine) (event : FoldEvent) :
    Placed e (e.place event) ⟨event.id, e.nextPosition⟩ := by
  unfold FoldEngine.place
  simp only
  split
  · exact placed_startEntry _ _ rfl rfl rfl rfl
  · exact placed_startEntry _ _ rfl rfl rfl rfl
  · next pattern =>
    split
    · exact placed_startEntry _ _ rfl rfl rfl rfl
    · next run hrun =>
      split
      · exact placed_startEntry _ _ rfl rfl rfl rfl
      · next index hindex =>
        split_ifs
        · have hlt : index < e.entries.length := by
            unfold FoldEngine.indexOf at hindex
            split_ifs at hindex with h
            exact Option.some.inj hindex ▸ h.2
          exact ⟨rfl, rfl, rfl, .inr ⟨index, _, hlt, rfl⟩⟩
        · exact placed_startEntry _ _ rfl rfl rfl rfl

/-! ### What the entries hold -/

/-- The entries are in the order of their first members, each in the order of its positions, and no
position stands in two of them. -/
structure Held (e : FoldEngine) : Prop where
  ascending : ∀ entry ∈ e.entries, entry.positions.Pairwise (· < ·)
  sorted : e.entries.Pairwise fun a b => a.first.position < b.first.position
  distinct : e.positions.Nodup
  fed : ∀ position ∈ e.positions, position < e.nextPosition

theorem held_startingAt (config : FoldConfig) (firstPosition : ℕ) :
    Held (.startingAt config firstPosition) :=
  ⟨by simp [FoldEngine.startingAt], by simp [FoldEngine.startingAt],
    by simp [FoldEngine.positions, FoldEngine.startingAt],
    by simp [FoldEngine.positions, FoldEngine.startingAt]⟩

/-- **The entries hold each position, from the first that is retained to the next, once**, in the
order of their first members. -/
structure Spans (e : FoldEngine) : Prop where
  ascending : ∀ entry ∈ e.entries, entry.positions.Pairwise (· < ·)
  sorted : e.entries.Pairwise fun a b => a.first.position < b.first.position
  covers : e.positions.Perm (List.range' e.head (e.nextPosition - e.head))

theorem spans_startingAt (config : FoldConfig) (firstPosition : ℕ) :
    Spans (.startingAt config firstPosition) :=
  ⟨by simp [FoldEngine.startingAt], by simp [FoldEngine.startingAt],
    by simp [FoldEngine.positions, FoldEngine.startingAt, FoldEngine.head]⟩

theorem first_mem (entry : FoldEntry) : entry.first.position ∈ entry.positions :=
  mem_map_of_mem (head_mem entry.nonempty)

theorem mem_positions : position ∈ e.positions ↔
    ∃ entry ∈ e.entries, position ∈ entry.positions := by
  simp [FoldEngine.positions, mem_flatMap]

namespace Spans

theorem lt_next (h : Spans e) (hmem : position ∈ e.positions) : position < e.nextPosition := by
  have := mem_range'_1.1 (h.covers.subset hmem)
  omega

theorem head_le (h : Spans e) : e.head ≤ e.nextPosition := by
  unfold FoldEngine.head
  cases hentries : e.entries with
  | nil => exact le_rfl
  | cons entry entries =>
    refine (h.lt_next (mem_positions.2 ⟨entry, ?_, first_mem entry⟩)).le
    rw [hentries]
    exact mem_cons_self

end Spans

theorem perm_flatMap_modify {α : Type} {entries : List FoldEntry} {f : FoldEntry → FoldEntry}
    {g : FoldEntry → List α} {x : α} (hlt : index < entries.length)
    (hf : ∀ entry, g (f entry) = g entry ++ [x]) :
    ((entries.modify index f).flatMap g).Perm (entries.flatMap g ++ [x]) := by
  induction entries generalizing index with
  | nil => simp at hlt
  | cons entry entries ih =>
    cases index with
    | zero =>
      simp only [modify_zero_cons, flatMap_cons, hf, append_assoc]
      exact List.Perm.append_left _ perm_append_comm
    | succ index =>
      simp only [modify_succ_cons, flatMap_cons, append_assoc]
      exact List.Perm.append_left _ (ih (by simpa using hlt))

theorem Placed.positions_perm (h : Placed e e' member) :
    e'.positions.Perm (e.positions ++ [member.position]) := by
  unfold FoldEngine.positions
  rcases h.entries with ⟨pattern, heq⟩ | ⟨index, minimum, hlt, heq⟩
  · rw [heq, flatMap_append]
    exact List.Perm.refl _
  · rw [heq]
    exact perm_flatMap_modify hlt fun entry => positions_append minimum member

theorem Placed.head_eq (h : Placed e e' member) (hmember : member.position = e.nextPosition) :
    e'.head = e.head := by
  unfold FoldEngine.head
  rcases h.entries with ⟨pattern, heq⟩ | ⟨index, minimum, hlt, heq⟩
  · rw [heq]
    cases e.entries with
    | nil => exact hmember
    | cons entry entries => rfl
  · rw [heq]
    cases hentries : e.entries with
    | nil => simp [hentries] at hlt
    | cons entry entries =>
      cases index with
      | zero => simp [first_append]
      | succ index => simp

theorem Placed.held (h : Placed e e' member) (hmember : member.position = e.nextPosition)
    (hheld : Held e) : Held e' := by
  have hbelow : ∀ entry ∈ e.entries, ∀ position ∈ entry.positions, position < e.nextPosition :=
    fun entry hentry position hposition => hheld.fed position (mem_positions.2 ⟨entry, hentry, hposition⟩)
  have hperm := h.positions_perm
  refine ⟨?_, ?_, ?_, fun position hposition => ?_⟩
  · intro entry hentry
    rcases h.entries with ⟨pattern, heq⟩ | ⟨index, minimum, hlt, heq⟩
    · rw [heq] at hentry
      rcases mem_append.1 hentry with hold | hnew
      · exact hheld.ascending entry hold
      · rw [mem_singleton.1 hnew]
        exact pairwise_singleton _ _
    · rw [heq] at hentry
      obtain ⟨i, hi, rfl⟩ := getElem_of_mem hentry
      have hi' : i < e.entries.length := by simpa using hi
      rw [getElem_modify]
      split_ifs
      · -- the new member comes after all others
        rw [positions_append]
        refine pairwise_append.2 ⟨hheld.ascending _ (getElem_mem hi'),
          pairwise_singleton _ _, fun a ha b hb => ?_⟩
        rw [mem_singleton.1 hb, hmember]
        exact hbelow _ (getElem_mem hi') a ha
      · exact hheld.ascending _ (getElem_mem hi')
  · rcases h.entries with ⟨pattern, heq⟩ | ⟨index, minimum, hlt, heq⟩
    · rw [heq]
      refine pairwise_append.2 ⟨hheld.sorted, pairwise_singleton _ _, fun a ha b hb => ?_⟩
      rw [mem_singleton.1 hb]
      exact hmember ▸ hbelow a ha _ (first_mem a)
    · rw [heq, pairwise_iff_getElem]
      intro i j hi hj hij
      have := pairwise_iff_getElem.1 hheld.sorted i j (by simpa using hi) (by simpa using hj) hij
      rw [getElem_modify, getElem_modify]
      split_ifs <;> simpa only [first_append] using this
  · rw [hperm.nodup_iff, nodup_append]
    refine ⟨hheld.distinct, nodup_singleton _, fun a ha b hb => ?_⟩
    rw [mem_singleton.1 hb, hmember]
    exact (hheld.fed a ha).ne
  · rw [h.next]
    rcases mem_append.1 (hperm.subset hposition) with hold | hnew
    · exact (hheld.fed position hold).trans (Nat.lt_succ_self _)
    · rw [mem_singleton.1 hnew, hmember]
      exact Nat.lt_succ_self _

theorem Spans.held (h : Spans e) : Held e :=
  ⟨h.ascending, h.sorted, h.covers.nodup_iff.2 nodup_range', fun _ hmem => h.lt_next hmem⟩

theorem Placed.spans (h : Placed e e' member) (hmember : member.position = e.nextPosition)
    (hspans : Spans e) : Spans e' := by
  have hheld := h.held hmember hspans.held
  refine ⟨hheld.ascending, hheld.sorted, ?_⟩
  have hle := hspans.head_le
  rw [h.head_eq hmember, h.next]
  have hrange : e.nextPosition + 1 - e.head = (e.nextPosition - e.head) + 1 := by omega
  rw [hrange, range'_concat]
  refine h.positions_perm.trans ?_
  have hlast : e.head + 1 * (e.nextPosition - e.head) = member.position := by omega
  rw [hlast]
  exact hspans.covers.append_right _

/-! ### Retention -/

/-- **An eviction drops no row behind one that is retained.** -/
def Intact (e : FoldEngine) : Prop :=
  ∀ entry ∈ e.entries.take e.evicted, ∀ position ∈ entry.positions,
    ∀ kept ∈ (e.entries.drop e.evicted).head?, position < kept.first.position

instance (e : FoldEngine) : Decidable (Intact e) :=
  inferInstanceAs (Decidable (∀ entry ∈ e.entries.take e.evicted, ∀ position ∈ entry.positions,
    ∀ kept ∈ (e.entries.drop e.evicted).head?, position < kept.first.position))

theorem first_le (h : entry.positions.Pairwise (· < ·)) (hmem : position ∈ entry.positions) :
    entry.first.position ≤ position := by
  unfold FoldEntry.first
  obtain ⟨first, rest, heq⟩ := exists_cons_of_ne_nil entry.nonempty
  simp only [FoldEntry.positions, heq, map_cons, pairwise_cons, mem_cons] at h hmem
  simp only [heq, head_cons]
  rcases hmem with rfl | hmem
  · exact le_rfl
  · exact (h.1 position hmem).le

theorem Held.head_le (h : Held e) (hmem : position ∈ e.positions) : e.head ≤ position := by
  obtain ⟨entry, hentry, hposition⟩ := mem_positions.1 hmem
  have hfirst := first_le (h.ascending entry hentry) hposition
  unfold FoldEngine.head
  cases hentries : e.entries with
  | nil => simp [hentries] at hentry
  | cons front rest =>
    rw [hentries] at hentry
    rcases mem_cons.1 hentry with rfl | hrest
    · exact hfirst
    · have hsorted := h.sorted
      rw [hentries] at hsorted
      exact ((pairwise_cons.1 hsorted).1 entry hrest).le.trans hfirst

theorem Held.head_le_next (h : Held e) : e.head ≤ e.nextPosition := by
  cases hentries : e.entries with
  | nil =>
    unfold FoldEngine.head
    rw [hentries]
    exact le_rfl
  | cons front rest =>
    have hmem : front.first.position ∈ e.positions :=
      mem_positions.2 ⟨front, hentries ▸ mem_cons_self, first_mem front⟩
    exact (h.head_le hmem).trans (h.fed _ hmem).le

theorem retained_ge (h : Spans e) {k : ℕ} {kept : FoldEntry}
    (hkept : kept ∈ (e.entries.drop k).head?) (hentry : entry ∈ e.entries.drop k)
    (hmem : position ∈ entry.positions) : kept.first.position ≤ position := by
  have hle := first_le (h.ascending entry (mem_of_mem_drop hentry)) hmem
  have hsorted := h.sorted.sublist (drop_sublist k e.entries)
  cases hdrop : e.entries.drop k with
  | nil => simp [hdrop] at hentry
  | cons first rest =>
    rw [hdrop] at hkept hentry hsorted
    obtain rfl : first = kept := Option.some.inj hkept
    rcases mem_cons.1 hentry with rfl | hrest
    · exact hle
    · exact ((pairwise_cons.1 hsorted).1 entry hrest).le.trans hle

theorem range'_filter_ge {a b n : ℕ} (hab : a ≤ b) (hbn : b ≤ a + n) :
    (List.range' a n).filter (fun x => b ≤ x) = List.range' b (a + n - b) := by
  obtain ⟨m, rfl⟩ : ∃ m, b = a + m := ⟨b - a, by omega⟩
  obtain ⟨k, rfl⟩ : ∃ k, n = m + k := ⟨n - m, by omega⟩
  have hsplit : List.range' a (m + k) = List.range' a m ++ List.range' (a + m) k := by
    rw [range'_append_1]
  rw [hsplit, filter_append, filter_eq_nil_iff.2, List.filter_eq_self.2, nil_append]
  · congr 1
    omega
  · intro x hx
    have := mem_range'_1.1 hx
    simpa using this.1
  · intro x hx
    have := mem_range'_1.1 hx
    simp only [decide_eq_true_eq]
    omega

theorem Held.enforceRetention (h : Held e) : Held e.enforceRetention := by
  have hsub : e.enforceRetention.positions.Sublist e.positions :=
    (drop_sublist e.evicted e.entries).flatMap FoldEntry.positions
  exact ⟨fun entry hentry => h.ascending entry (mem_of_mem_drop hentry),
    h.sorted.sublist (drop_sublist _ _), h.distinct.sublist hsub,
    fun position hposition => h.fed position (hsub.subset hposition)⟩

/-- **An intact eviction keeps the span.** -/
theorem Spans.enforceRetention (h : Spans e) (hintact : Intact e) : Spans e.enforceRetention := by
  refine ⟨fun entry hentry => h.ascending entry (mem_of_mem_drop hentry),
    h.sorted.sublist (drop_sublist _ _), ?_⟩
  have hsplit : e.positions = (e.entries.take e.evicted).flatMap FoldEntry.positions ++
      e.enforceRetention.positions := by
    simp only [FoldEngine.positions, FoldEngine.enforceRetention]
    rw [← flatMap_append, take_append_drop]
  have hle := h.head_le
  cases hdrop : (e.entries.drop e.evicted).head? with
  | none =>
    -- all entries are evicted
    have hnil : e.enforceRetention.entries = [] := head?_eq_none_iff.1 hdrop
    have hhead : e.enforceRetention.head = e.nextPosition := by
      rw [FoldEngine.head, hnil]
      rfl
    rw [hhead, FoldEngine.positions, hnil]
    simp [FoldEngine.enforceRetention]
  | some kept =>
    have hhead : e.enforceRetention.head = kept.first.position := by
      simp [FoldEngine.head, FoldEngine.enforceRetention, hdrop]
    have hmem : kept ∈ e.entries.drop e.evicted := mem_of_mem_head? hdrop
    have hkept : kept.first.position ∈ e.positions :=
      mem_positions.2 ⟨kept, mem_of_mem_drop hmem, first_mem kept⟩
    have hrange := mem_range'_1.1 (h.covers.subset hkept)
    -- the positions that stay are those from the first kept one on
    have hfilter : e.positions.filter (fun x => kept.first.position ≤ x) =
        e.enforceRetention.positions := by
      rw [hsplit, filter_append, filter_eq_nil_iff.2, List.filter_eq_self.2, nil_append]
      · intro position hposition
        obtain ⟨entry, hentry, hin⟩ := mem_positions.1 hposition
        simpa using retained_ge h hdrop hentry hin
      · intro position hposition
        obtain ⟨entry, hentry, hin⟩ := mem_flatMap.1 hposition
        simpa using hintact entry hentry position hin kept hdrop
    have hperm := h.covers.filter (fun x => kept.first.position ≤ x)
    rw [hfilter, range'_filter_ge hrange.1 (by omega)] at hperm
    rw [hhead]
    have hlength : e.head + (e.nextPosition - e.head) - kept.first.position =
        e.enforceRetention.nextPosition - kept.first.position := by
      simp only [FoldEngine.enforceRetention]
      omega
    rwa [hlength] at hperm

/-- **Reading a row keeps the span**, unless an eviction is not intact. -/
theorem spans_push (h : Spans e) (hintact : Intact (e.place event)) : Spans (e.push event) :=
  ((placed_place e event).spans rfl h).enforceRetention hintact

theorem Held.push (h : Held e) (event : FoldEvent) : Held (e.push event) :=
  ((placed_place e event).held rfl h).enforceRetention

/-! ### Adjacent runs -/

/-- Where runs are adjacent, the members stand in order, and the run that the next row can extend
is that of the last entry. -/
structure Contiguous (e : FoldEngine) : Prop where
  scope : e.config.scope = .adjacent
  sorted : e.positions.Pairwise (· < ·)
  below : ∀ position ∈ e.positions, position < e.nextPosition
  past : ∀ pattern run, e.openRuns.lookup pattern = some run → run.lastPosition < e.nextPosition
  latest : ∀ pattern run, e.openRuns.lookup pattern = some run →
    run.lastPosition + 1 = e.nextPosition → run.serial + 1 = e.baseSerial + e.entries.length

theorem contiguous_startingAt {config : FoldConfig} (hscope : config.scope = .adjacent)
    (firstPosition : ℕ) : Contiguous (.startingAt config firstPosition) :=
  ⟨hscope, by simp [FoldEngine.positions, FoldEngine.startingAt],
    by simp [FoldEngine.positions, FoldEngine.startingAt],
    fun _ _ h => by simp [FoldEngine.startingAt] at h,
    fun _ _ h => by simp [FoldEngine.startingAt] at h⟩

/-- **Adjacent runs are evicted whole**, with all that is before them. -/
theorem Contiguous.intact (h : Contiguous e) : Intact e := by
  intro entry hentry position hposition kept hkept
  have hsorted := h.sorted
  rw [FoldEngine.positions, ← take_append_drop e.evicted e.entries, flatMap_append] at hsorted
  exact (pairwise_append.1 hsorted).2.2 position (mem_flatMap.2 ⟨entry, hentry, hposition⟩)
    _ (mem_flatMap.2 ⟨kept, mem_of_mem_head? hkept, first_mem kept⟩)

theorem lookup_closePattern {other : String}
    (h : (e.closePattern pattern).openRuns.lookup other = some run) :
    e.openRuns.lookup other = some run := by
  rw [FoldEngine.closePattern, Dict.lookup_erase_eq] at h
  split_ifs at h
  exact h

theorem lookup_enforcePatternCap {fuel : ℕ}
    (h : (FoldEngine.enforcePatternCap fuel e).openRuns.lookup pattern = some run) :
    e.openRuns.lookup pattern = some run := by
  induction fuel generalizing e with
  | zero => exact h
  | succ fuel ih =>
    unfold FoldEngine.enforcePatternCap at h
    split_ifs at h
    · cases hold : e.oldest with
      | none => simpa [hold] using h
      | some oldest =>
        rw [hold] at h
        exact lookup_closePattern (ih h)
    · exact h

theorem lookup_foldl_erase {patterns : List String} {runs : Dict String OpenRun}
    (h : (patterns.foldl (fun runs p => runs.erase p) runs).lookup pattern = some run) :
    runs.lookup pattern = some run := by
  induction patterns generalizing runs with
  | nil => exact h
  | cons p patterns ih =>
    have := ih h
    rw [Dict.lookup_erase_eq] at this
    split_ifs at this
    exact this

theorem evicting_le (entryTarget memberTarget : ℕ) (entries : List FoldEntry) (retained : ℕ) :
    FoldEngine.evicting entryTarget memberTarget entries retained ≤ entries.length := by
  induction entries generalizing retained with
  | nil => exact le_rfl
  | cons entry entries ih =>
    unfold FoldEngine.evicting
    split_ifs
    · exact Nat.succ_le_succ (ih _)
    · exact Nat.zero_le _

theorem evicted_le (e : FoldEngine) : e.evicted ≤ e.entries.length := by
  unfold FoldEngine.evicted
  simp only
  split_ifs
  · exact Nat.zero_le _
  · exact evicting_le _ _ _ _

theorem Contiguous.enforceRetention (h : Contiguous e) : Contiguous e.enforceRetention := by
  have hsub : e.enforceRetention.positions.Sublist e.positions :=
    (drop_sublist e.evicted e.entries).flatMap FoldEntry.positions
  refine ⟨h.scope, h.sorted.sublist hsub, fun p hp => h.below p (hsub.subset hp),
    fun pattern run hrun => h.past pattern run (lookup_foldl_erase hrun), fun pattern run hrun hlast => ?_⟩
  have hlatest := h.latest pattern run (lookup_foldl_erase hrun) hlast
  have hle := evicted_le e
  simp only [FoldEngine.enforceRetention, length_drop]
  omega

/-- A row after all others keeps the members in order, if its run is that of the last entry. -/
theorem Contiguous.add (h : Contiguous e) (hconfig : e'.config = e.config)
    (hnext : e'.nextPosition = e.nextPosition + 1)
    (hpositions : e'.positions = e.positions ++ [e.nextPosition])
    (hopen : ∀ pattern run, e'.openRuns.lookup pattern = some run →
      e.openRuns.lookup pattern = some run ∨
        run.lastPosition = e.nextPosition ∧ run.serial + 1 = e'.baseSerial + e'.entries.length) :
    Contiguous e' := by
  refine ⟨hconfig ▸ h.scope, ?_, ?_, ?_, ?_⟩
  · rw [hpositions]
    refine pairwise_append.2 ⟨h.sorted, pairwise_singleton _ _, fun a ha b hb => ?_⟩
    rw [mem_singleton.1 hb]
    exact h.below a ha
  · intro position hposition
    rw [hpositions] at hposition
    rcases mem_append.1 hposition with hold | hnew
    · have := h.below position hold
      omega
    · rw [mem_singleton.1 hnew]
      omega
  · intro pattern run hrun
    rcases hopen pattern run hrun with hold | hnew
    · have := h.past pattern run hold
      omega
    · omega
  · intro pattern run hrun hlast
    rcases hopen pattern run hrun with hold | hnew
    · -- a run that was open before ends before the row
      have := h.past pattern run hold
      omega
    · exact hnew.2

/-- A row that starts an entry. -/
theorem Contiguous.startEntry (h : Contiguous e) (hmember : member.position = e.nextPosition)
    (pattern : String) (isOpen : Bool) (hconfig : e₀.config = e.config)
    (hnext : e₀.nextPosition = e.nextPosition + 1) (hbase : e₀.baseSerial = e.baseSerial)
    (hentries : e₀.entries = e.entries)
    (hruns : ∀ pattern run, e₀.openRuns.lookup pattern = some run →
      e.openRuns.lookup pattern = some run) : Contiguous (e₀.startEntry pattern member isOpen) := by
  have hplaced : Placed e (e₀.startEntry pattern member isOpen) member :=
    placed_startEntry pattern isOpen hconfig hnext hbase hentries
  have hstarted : (e₀.startEntry pattern member isOpen).entries = e.entries ++ [.single pattern member] := by
    unfold FoldEngine.startEntry
    cases isOpen with
    | false => simp [hentries]
    | true => exact (enforcePatternCap_fields _ _).2.1.trans (by simp [hentries])
  refine h.add hplaced.config hplaced.next ?_ fun other run hrun => ?_
  · rw [FoldEngine.positions, hstarted, flatMap_append, ← hmember]
    rfl
  · rw [hplaced.base, hstarted, length_append, length_singleton]
    unfold FoldEngine.startEntry at hrun
    cases isOpen with
    | false => exact .inl (hruns other run hrun)
    | true =>
      have hinserted := lookup_enforcePatternCap hrun
      rw [Dict.lookup_insert_eq, Dict.lookup_erase_eq] at hinserted
      split_ifs at hinserted
      · rw [← Option.some.inj hinserted, hbase, hentries]
        exact .inr ⟨hmember, rfl⟩
      · exact .inl (hruns other run hinserted)

theorem flatMap_modify_last {α : Type} {entries : List FoldEntry} {f : FoldEntry → FoldEntry}
    {g : FoldEntry → List α} {x : α} (hlast : index + 1 = entries.length)
    (hf : ∀ entry, g (f entry) = g entry ++ [x]) :
    (entries.modify index f).flatMap g = entries.flatMap g ++ [x] := by
  induction entries generalizing index with
  | nil => simp at hlast
  | cons entry entries ih =>
    cases index with
    | zero =>
      obtain rfl : entries = [] := length_eq_zero_iff.1 (by simpa using hlast.symm)
      simp [hf]
    | succ index =>
      simp only [modify_succ_cons, flatMap_cons, append_assoc]
      rw [ih (by simpa using hlast)]

/-- A row that extends the last entry. -/
theorem Contiguous.appendMember (h : Contiguous e) (hmember : member.position = e.nextPosition)
    (pattern : String) (hindex : e₀.indexOf run.serial = some index)
    (hlast : run.serial + 1 = e.baseSerial + e.entries.length) (hconfig : e₀.config = e.config)
    (hnext : e₀.nextPosition = e.nextPosition + 1) (hbase : e₀.baseSerial = e.baseSerial)
    (hentries : e₀.entries = e.entries)
    (hruns : ∀ pattern run, e₀.openRuns.lookup pattern = some run →
      e.openRuns.lookup pattern = some run) :
    Contiguous (e₀.appendMember index pattern run member) := by
  have hfinal : index + 1 = e₀.entries.length := by
    unfold FoldEngine.indexOf at hindex
    split_ifs at hindex with hin
    rw [← Option.some.inj hindex, hentries]
    omega
  refine h.add hconfig hnext ?_ fun other r hr => ?_
  · rw [FoldEngine.positions, FoldEngine.positions, ← hentries, ← hmember]
    exact flatMap_modify_last hfinal fun entry => positions_append _ member
  · have hcount : (e₀.appendMember index pattern run member).entries.length = e.entries.length := by
      simp [FoldEngine.appendMember, hentries]
    simp only [FoldEngine.appendMember, Dict.lookup_insert_eq] at hr
    split_ifs at hr
    · rw [← Option.some.inj hr, hcount]
      exact .inr ⟨hmember, hbase ▸ hlast⟩
    · exact .inl (hruns other r hr)

/-- **Rows that are placed stay in order.** -/
theorem Contiguous.place (h : Contiguous e) (event : FoldEvent) : Contiguous (e.place event) := by
  unfold FoldEngine.place
  simp only
  split
  · exact h.startEntry rfl _ _ rfl rfl rfl rfl fun _ _ hrun => hrun
  · exact h.startEntry rfl _ _ rfl rfl rfl rfl fun _ _ hrun => hrun
  · next pattern _ =>
    split
    · exact h.startEntry rfl _ _ rfl rfl rfl rfl fun _ _ hrun => (Dict.lookup_filter hrun).1
    · next run hrun =>
      split
      · exact h.startEntry rfl _ _ rfl rfl rfl rfl fun _ _ hopen =>
          (Dict.lookup_filter (lookup_closePattern hopen)).1
      · next index hindex =>
        split_ifs
        · -- a run that was not closed as stale ends just before the row
          obtain ⟨hold, hrecent⟩ := Dict.lookup_filter hrun
          have hpast := h.past _ run hold
          have hgap : e.nextPosition - 1 ≤ run.lastPosition := by
            simpa [h.scope, FoldScope.gapLimit] using hrecent
          have hlast := h.latest _ run hold (by omega)
          exact h.appendMember rfl _ hindex hlast rfl rfl rfl rfl fun _ _ hopen =>
            (Dict.lookup_filter hopen).1
        · exact h.startEntry rfl _ _ rfl rfl rfl rfl fun _ _ hopen =>
            (Dict.lookup_filter (lookup_closePattern hopen)).1

/-- **In the adjacent scope every eviction is intact.** -/
theorem intact_adjacent (h : Contiguous e) (event : FoldEvent) :
    Intact (e.place event) ∧ Contiguous (e.push event) :=
  ⟨(h.place event).intact, (h.place event).enforceRetention⟩

/-! ### The rows behind the positions -/

/-- Every member is the row that stands at its position. -/
def Stands (stream : List RowId) (e : FoldEngine) : Prop :=
  ∀ entry ∈ e.entries, ∀ member ∈ entry.members, stream[member.position]? = some member.id

theorem Stands.push (h : Stands stream e) (hevent : stream[e.nextPosition]? = some event.id) :
    Stands stream (e.push event) := by
  intro entry hentry member hmember
  have hentry' : entry ∈ (e.place event).entries := mem_of_mem_drop hentry
  rcases (placed_place e event).entries with ⟨pattern, heq⟩ | ⟨index, minimum, hlt, heq⟩
  · rw [heq] at hentry'
    rcases mem_append.1 hentry' with hold | hnew
    · exact h entry hold member hmember
    · rw [mem_singleton.1 hnew] at hmember
      rw [mem_singleton.1 hmember]
      exact hevent
  · rw [heq] at hentry'
    obtain ⟨i, hi, rfl⟩ := getElem_of_mem hentry'
    have hi' : i < e.entries.length := by simpa using hi
    rw [getElem_modify] at hmember
    split_ifs at hmember
    · rcases mem_append.1 hmember with hold | hnew
      · exact h _ (getElem_mem hi') member hold
      · rw [mem_singleton.1 hnew]
        exact hevent
    · exact h _ (getElem_mem hi') member hmember

/-- The members of all entries. -/
def FoldEngine.memberIds (e : FoldEngine) : List RowId :=
  e.entries.flatMap fun entry => entry.members.map (·.id)

/-- **The members are the rows of the span.** -/
theorem memberIds_perm (hspans : Spans e) (hstands : Stands stream e) :
    e.memberIds.Perm ((stream.take e.nextPosition).drop e.head) := by
  -- each side is the rows at its positions
  have hids : e.memberIds.map some = e.positions.map (stream[·]?) := by
    simp only [FoldEngine.memberIds, FoldEngine.positions, map_flatMap]
    refine flatMap_congr fun entry hentry => ?_
    simp only [FoldEntry.positions, map_map]
    exact map_congr_left fun member hmember => (hstands entry hentry member hmember).symm
  have hrows : (List.range' e.head (e.nextPosition - e.head)).map (stream[·]?) =
      ((stream.take e.nextPosition).drop e.head).map some := by
    refine ext_getElem? fun i => ?_
    simp only [getElem?_map, getElem?_drop, getElem?_take]
    have hle := hspans.head_le
    by_cases hi : i < e.nextPosition - e.head
    · rw [getElem?_range' hi, if_pos (by omega), Option.map_some]
      have hmem : e.head + 1 * i ∈ e.positions :=
        hspans.covers.symm.subset (mem_range'_1.2 ⟨by omega, by omega⟩)
      obtain ⟨entry, hentry, hposition⟩ := mem_positions.1 hmem
      obtain ⟨member, hmember, heq⟩ := mem_map.1 hposition
      have hstand := hstands entry hentry member hmember
      rw [heq] at hstand
      have hindex : e.head + i = e.head + 1 * i := by omega
      rw [hindex, hstand]
      rfl
    · have hnone : (List.range' e.head (e.nextPosition - e.head))[i]? = none :=
        getElem?_eq_none (by simpa using hi)
      rw [hnone, if_neg (by omega)]
      rfl
  have hperm := hspans.covers.map (stream[·]?)
  rw [← hids, hrows] at hperm
  exact (map_perm_map_iff (Option.some_injective _)).1 hperm

/-! ### Reading rows one after another -/

/-- Every eviction is intact, while these rows are read. -/
def IntactThrough : FoldEngine → List FoldEvent → Prop
  | _, [] => True
  | e, event :: events => Intact (e.place event) ∧ IntactThrough (e.push event) events

instance decidableIntactThrough : ∀ e events, Decidable (IntactThrough e events)
  | _, [] => inferInstanceAs (Decidable True)
  | e, event :: events =>
    have := decidableIntactThrough (e.push event) events
    inferInstanceAs (Decidable (_ ∧ _))

theorem nextPosition_push (e : FoldEngine) (event : FoldEvent) :
    (e.push event).nextPosition = e.nextPosition + 1 := (placed_place e event).next

theorem nextPosition_extend (e : FoldEngine) (events : List FoldEvent) :
    (e.extend events).nextPosition = e.nextPosition + events.length := by
  induction events generalizing e with
  | nil => rfl
  | cons event events ih =>
    show ((e.push event).extend events).nextPosition = _
    rw [ih, nextPosition_push, length_cons]
    omega

theorem Held.extend (h : Held e) (events : List FoldEvent) : Held (e.extend events) := by
  induction events generalizing e with
  | nil => exact h
  | cons event events ih => exact ih (h.push event)

/-- **Rows that are read keep the span.** -/
theorem Spans.extend {events : List FoldEvent} (h : Spans e) (hintact : IntactThrough e events) :
    Spans (e.extend events) := by
  induction events generalizing e with
  | nil => exact h
  | cons event events ih => exact ih (spans_push h hintact.1) hintact.2

/-- **Rows that are next in the stream stand there.** -/
theorem Stands.extend {events : List FoldEvent} (h : Stands stream e)
    (hevents : events.map (·.id) <+: stream.drop e.nextPosition) :
    Stands stream (e.extend events) := by
  induction events generalizing e with
  | nil => exact h
  | cons event events ih =>
    obtain ⟨rest, hrest⟩ := hevents
    have hnext : stream[e.nextPosition]? = some event.id := by
      have hzero : (stream.drop e.nextPosition)[0]? = some event.id := by rw [← hrest]; rfl
      simpa using hzero
    refine ih (h.push hnext) ⟨rest, ?_⟩
    rw [nextPosition_push, ← drop_drop, ← hrest]
    rfl

theorem Contiguous.extend (h : Contiguous e) (events : List FoldEvent) :
    IntactThrough e events ∧ Contiguous (e.extend events) := by
  induction events generalizing e with
  | nil => exact ⟨trivial, h⟩
  | cons event events ih =>
    obtain ⟨hintact, hpush⟩ := intact_adjacent h event
    exact ⟨⟨hintact, (ih hpush).1⟩, (ih hpush).2⟩

theorem Stands.moved {stream' : List RowId} (h : Stands stream e) (hspans : Spans e)
    (hsame : ∀ i, e.head ≤ i → i < e.nextPosition → stream'[i]? = stream[i]?) :
    Stands stream' e := by
  intro entry hentry member hmember
  have hposition : member.position ∈ e.positions :=
    mem_positions.2 ⟨entry, hentry, mem_map_of_mem hmember⟩
  have hrange := mem_range'_1.1 (hspans.covers.subset hposition)
  have hle := hspans.head_le
  rw [hsame _ hrange.1 (by omega)]
  exact h entry hentry member hmember

end Lvu.View.Fold
