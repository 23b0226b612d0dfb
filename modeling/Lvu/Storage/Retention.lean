import Mathlib.Algebra.Order.BigOperators.Group.List
import Mathlib.Algebra.Order.Ring.Nat
import Mathlib.Data.List.Induction
import Mathlib.Data.List.Sort
import Lvu.Data.Dict
import Lvu.Storage.Plan

/-!
# Retention

The limits a user may set on what is captured, and the captures that are to be deleted for them
(`lvu-app/src/storage/retention.rs`): those past their age or their own limit, and then the oldest
until the rest fits the global limit.

* `Selected` : which captures the limits select.
* `select_eq` : `assess` selects these.
* `retention_exact` : **when what is removed and reported is what the limits ask for**.
-/

namespace Lvu.Storage

open List

/-- `RetentionRule`; a duration is its nanoseconds. -/
structure RetentionRule where
  maximumBytes : Option ℕ
  maximumAge : Option ℕ

def RetentionRule.default : RetentionRule := ⟨none, none⟩

def RetentionRule.isSet (r : RetentionRule) : Bool := r.maximumBytes.isSome || r.maximumAge.isSome

structure RetentionRules where
  enabled : Bool
  /-- It applies to the size of all captures together. -/
  global : RetentionRule
  /-- By the name of a source or its identity. -/
  perSource : Dict String RetentionRule

namespace RetentionRules

def isActive (rules : RetentionRules) : Bool :=
  rules.enabled && (rules.global.isSet || rules.perSource.entries.any fun e => e.2.isSet)

def ruleFor (rules : RetentionRules) (ids : Ids) (c : CaptureUnit) : RetentionRule :=
  ((rules.perSource.lookup c.name).or (rules.perSource.lookup (ids.format c.sourceId.uuid))).getD
    .default

end RetentionRules

def DeletionBlocker.explanation : DeletionBlocker → String
  | .pinnedByInvestigation investigation highWatermark exportedProjection =>
    "investigation \"" ++ investigation ++ "\" depends on this capture" ++
      ((highWatermark.map fun value => " through record " ++ toString value).getD "") ++
      ". Delete that investigation first, or keep the capture." ++
      if exportedProjection then
        " Its exported dataset holds a projection of those rows, not the original bytes."
      else ""
  | .unknownPins investigation =>
    "investigation \"" ++ investigation ++ "\" has a manifest that cannot be read, so the captures " ++
      "it depends on are unknown. Nothing is assumed unreferenced."
  | .sourceCapturing => "this source is capturing now. Stop the source, then delete it."
  | .investigationOpen => "this investigation is open in the application. Close it, then delete it."
  | .notFound => "this item is no longer present under the capture root."
  | .pathRefused reason => "refused for safety: " ++ reason ++ ". Nothing was removed."
  | .boundaryNotRecordable reason =>
    "the deletion boundary could not be recorded (" ++ reason ++ "), so nothing was removed. A gap " ++
      "that is not recorded would make the capture look uninterrupted."
  | .planStale => "storage changed since this preview was produced. Review it again."

structure RefusedRetention where
  label : String
  bytes : ℕ
  reason : String
deriving DecidableEq

structure RetentionAssessment where
  active : Bool
  captureBytes : ℕ
  globalLimitBytes : Option ℕ
  /-- The bytes above the global limit before anything is removed. -/
  overByBytes : ℕ
  plans : List DeletionPlan
  /-- The captures that a rule selected and that are protected. -/
  refused : List RefusedRetention
  unreclaimableBytes : ℕ
  /-- The bytes above the global limit after every plan. -/
  shortfallBytes : ℕ
  summary : String

/-- The sum as it is added up: it stops at the largest number. -/
def saturatingSum (l : List ℕ) : ℕ := l.foldl saturatingAdd 0

def RetentionAssessment.wouldFreeBytes (a : RetentionAssessment) : ℕ :=
  saturatingSum (a.plans.map DeletionPlan.freedBytes)

def OwnershipIndex.durableCaptureBytes (index : OwnershipIndex) : ℕ :=
  saturatingSum (index.captures.map CaptureUnit.durableBytes)

def ageNanos (c : CaptureUnit) (now : Int64) : Option ℤ :=
  (c.lastModifiedUnixNanos.or c.firstCapturedAtUnixNanos).map fun last => now.toInt - last.toInt

def humanize (value : ℕ) : String :=
  let seconds := value / 1000000000
  if seconds % 86400 = 0 then toString (seconds / 86400) ++ " day(s)"
  else if seconds % 3600 = 0 then toString (seconds / 3600) ++ " hour(s)"
  else toString seconds ++ " second(s)"

/-- The order of retention: by the last change, then by name. -/
def ageLe (a b : CaptureUnit) : Bool :=
  let x := (a.lastModifiedUnixNanos.getD 0).toInt
  let y := (b.lastModifiedUnixNanos.getD 0).toInt
  decide (x < y) || (decide (x = y) && decide (a.name ≤ b.name))

/-- The captures from the oldest to the newest; the sort keeps the order of equals. -/
def OwnershipIndex.ordered (index : OwnershipIndex) : List CaptureUnit :=
  index.captures.insertionSort fun a b => ageLe a b = true

theorem OwnershipIndex.ordered_perm (index : OwnershipIndex) : index.ordered.Perm index.captures :=
  perm_insertionSort _ _

section

variable (ids : Ids) (stat : Path → Metadata) (digest : DeletionPlan → UInt64)
  (formatBytes : ℕ → String)

def summarize (a : RetentionAssessment) : String :=
  if a.plans.isEmpty && a.refused.isEmpty then
    "Retention is on. " ++ formatBytes a.captureBytes ++
      " of captures is within the configured limits; nothing to remove."
  else
    "Retention would delete " ++ toString a.plans.length ++ " capture(s), freeing " ++
      formatBytes a.wouldFreeBytes ++ ". Each removal is recorded as a visible gap." ++
      (if a.refused.isEmpty then ""
      else " " ++ toString a.refused.length ++ " capture(s) holding " ++
        formatBytes a.unreclaimableBytes ++ " are protected and will not be removed.") ++
      if 0 < a.shortfallBytes then " Even so, " ++ formatBytes a.shortfallBytes ++
        " remains above the configured limit; retention will not delete protected data to reach it."
      else ""

/-- Why a capture's own rule selects it. -/
def ownReason (rules : RetentionRules) (now : Int64) (c : CaptureUnit) : Option String :=
  let rule := rules.ruleFor ids c
  match rule.maximumAge.or rules.global.maximumAge with
  | some maximum =>
    if (ageNanos c now).any fun age => decide ((maximum : ℤ) < age) then
      some ("older than " ++ humanize maximum)
    else ownSize rule
  | none => ownSize rule
where
  ownSize (rule : RetentionRule) : Option String :=
    match rule.maximumBytes with
    | some maximum =>
      if maximum < c.durableBytes then
        some ("larger than the " ++ formatBytes maximum ++ " per-source limit")
      else none
    | none => none

/-- The loop over the captures for the global limit: the oldest first, until the rest would fit. -/
def selectOldest (limit : ℕ) : ℕ → List (CaptureUnit × String) → List CaptureUnit →
    List (CaptureUnit × String)
  | _, selected, [] => selected
  | projected, selected, c :: rest =>
    if projected ≤ limit then selected
    else if selected.any fun s => decide (s.1.sourceId = c.sourceId) then
      selectOldest limit projected selected rest
    else selectOldest limit (projected - c.durableBytes)
      (selected ++ [(c, "total captures above the " ++ formatBytes limit ++ " limit")]) rest

/-- What the rules select, and why. -/
def select (index : OwnershipIndex) (rules : RetentionRules) (now : Int64) :
    List (CaptureUnit × String) :=
  let selected := index.ordered.filterMap fun c => (ownReason ids formatBytes rules now c).map (c, ·)
  match rules.global.maximumBytes with
  | none => selected
  | some limit =>
    let projected := selected.foldl (fun total s => total - s.1.durableBytes) index.durableCaptureBytes
    selectOldest formatBytes limit projected selected index.ordered

/-- The last loop of `assess`: a selected capture is planned or refused. -/
def settle (index : OwnershipIndex) (out : RetentionAssessment) : List (CaptureUnit × String) →
    RetentionAssessment
  | [] => out
  | (c, reason) :: rest =>
    let plan := index.planDeleteCapture ids stat digest c.sourceId .retention (some reason)
    if plan.allowed then settle index { out with plans := out.plans ++ [plan] } rest
    else settle index
      { out with
        unreclaimableBytes := saturatingAdd out.unreclaimableBytes c.durableBytes
        refused := out.refused ++ [⟨c.label ids, c.durableBytes,
          (plan.blockers.head?.map DeletionBlocker.explanation).getD "refused"⟩] } rest

/-- `retention::assess`. -/
def assessRetention (index : OwnershipIndex) (rules : RetentionRules) (now : Int64) :
    RetentionAssessment :=
  let captureBytes := index.durableCaptureBytes
  let out : RetentionAssessment :=
    { active := rules.isActive, captureBytes, globalLimitBytes := rules.global.maximumBytes
      overByBytes := 0, plans := [], refused := [], unreclaimableBytes := 0, shortfallBytes := 0
      summary := "" }
  if !rules.isActive then
    { out with
      summary := "Retention is off. Captured data is kept until you delete it explicitly." }
  else
    let out := { out with
      overByBytes := match rules.global.maximumBytes with
        | some limit => captureBytes - limit
        | none => 0 }
    let out := settle ids stat digest index out (select ids formatBytes index rules now)
    let out := { out with
      shortfallBytes := match rules.global.maximumBytes with
        | some limit => captureBytes - out.wouldFreeBytes - limit
        | none => 0 }
    { out with summary := summarize formatBytes out }

/-! ### What the limits ask for -/

/-- The bytes of some captures. -/
def bytesOf (l : List CaptureUnit) : ℕ := (l.map CaptureUnit.durableBytes).sum

/-- Nothing blocks the deletion of the capture. -/
def deletable (index : OwnershipIndex) (c : CaptureUnit) : Bool :=
  (index.planDeleteCapture ids stat digest c.sourceId .retention none).allowed

/-- The capture is past its age, or its own limit. -/
def pastOwn (rules : RetentionRules) (now : Int64) (c : CaptureUnit) : Bool :=
  let rule := rules.ruleFor ids c
  ((rule.maximumAge.or rules.global.maximumAge).any fun maximum =>
    (ageNanos c now).any fun age => decide ((maximum : ℤ) < age)) ||
  rule.maximumBytes.any fun maximum => decide (maximum < c.durableBytes)

/-- The captures that are not past their own limits, from this one on to the newest, are above the
global limit. -/
def pastGlobal (index : OwnershipIndex) (rules : RetentionRules) (now : Int64) (c : CaptureUnit) : Bool :=
  rules.global.maximumBytes.any fun limit =>
    !pastOwn ids rules now c && decide (limit < bytesOf
      ((index.ordered.dropWhile fun d => decide (d ≠ c)).filter fun d =>
        !pastOwn ids rules now d))

/-- The limits select the capture. -/
def Selected (index : OwnershipIndex) (rules : RetentionRules) (now : Int64) (c : CaptureUnit) : Prop :=
  rules.isActive = true ∧ (pastOwn ids rules now c = true ∨ pastGlobal ids index rules now c = true)

instance (index : OwnershipIndex) (rules : RetentionRules) (now : Int64) (c : CaptureUnit) :
    Decidable (Selected ids index rules now c) := inferInstanceAs (Decidable (_ ∧ _))

/-- A deletion of the capture is planned. -/
def RetentionAssessment.planned (a : RetentionAssessment) (c : CaptureUnit) : Bool :=
  a.plans.any fun plan => decide (plan.target = .capture c.sourceId)

/-- No two captures have one source, and the size of all is a number. -/
structure Captured (index : OwnershipIndex) : Prop where
  distinct : (index.captures.map CaptureUnit.sourceId).Nodup
  size : bytesOf index.captures < 18446744073709551616

/-- **What is removed is what the limits ask for, and what is reported as missing is there.** -/
structure Exact (index : OwnershipIndex) (rules : RetentionRules) (now : Int64)
    (a : RetentionAssessment) : Prop where
  /-- Every plan is that of a capture that is selected and that nothing blocks. -/
  plans : ∀ plan ∈ a.plans, plan.blockers = [] ∧ ∃ c ∈ index.captures,
    Selected ids index rules now c ∧
      plan = index.planDeleteCapture ids stat digest c.sourceId .retention plan.policy
  once : (a.plans.map DeletionPlan.target).Nodup
  /-- Every such capture is planned. -/
  planned : ∀ c ∈ index.captures, a.planned c = true ↔
    Selected ids index rules now c ∧ deletable ids stat digest index c = true
  /-- No capture is planned by the global limit while an older one is left. -/
  oldest : ∀ older c, List.Sublist [older, c] index.ordered → a.planned c = true →
    pastOwn ids rules now c = false → deletable ids stat digest index older = true →
      a.planned older = true
  /-- Bytes are missing only when all that is left is protected. -/
  missing : 0 < a.shortfallBytes → ∀ c ∈ index.captures, a.planned c = false →
    deletable ids stat digest index c = false
  shortfall : a.shortfallBytes = if rules.isActive = true then
      (rules.global.maximumBytes.map fun limit =>
        bytesOf (index.captures.filter fun c => !a.planned c) - limit).getD 0
    else 0

/-- The captures that stay fit the global limit; or what is planned has no caches, and the limits
select every capture that nothing blocks. -/
def Attainable (index : OwnershipIndex) (rules : RetentionRules) (now : Int64) : Prop :=
  rules.isActive = true → ∀ limit, rules.global.maximumBytes = some limit →
    bytesOf (index.captures.filter fun c =>
        !(decide (Selected ids index rules now c) && deletable ids stat digest index c)) ≤ limit ∨
      ((∀ c ∈ index.captures, Selected ids index rules now c →
          deletable ids stat digest index c = true → ∀ entry ∈ index.derived,
            entry.sourceId = some c.sourceId → entry.bytes = 0) ∧
        ∀ c ∈ index.captures, deletable ids stat digest index c = true →
          Selected ids index rules now c)

variable {ids stat digest formatBytes}

/-! ### What is selected -/

theorem bytesOf_cons (c : CaptureUnit) (l : List CaptureUnit) :
    bytesOf (c :: l) = c.durableBytes + bytesOf l := by simp [bytesOf]

theorem bytesOf_sublist {l l' : List CaptureUnit} (h : l.Sublist l') : bytesOf l ≤ bytesOf l' :=
  (h.map _).sum_le_sum fun _ _ => Nat.zero_le _

theorem bytesOf_perm {l l' : List CaptureUnit} (h : l.Perm l') : bytesOf l = bytesOf l' :=
  (h.map _).sum_eq

theorem bytesOf_filter (p : CaptureUnit → Bool) (l : List CaptureUnit) :
    bytesOf (l.filter p) + bytesOf (l.filter fun c => !p c) = bytesOf l := by
  induction l with
  | nil => rfl
  | cons c l ih =>
    cases h : p c <;> simp only [filter_cons, h, bytesOf_cons, Bool.not_true, Bool.not_false,
      Bool.false_eq_true, if_true, if_false] <;> omega

theorem ownReason_isSome (rules : RetentionRules) (now : Int64) (c : CaptureUnit) :
    (ownReason ids formatBytes rules now c).isSome = pastOwn ids rules now c := by
  have hsize : (ownReason.ownSize formatBytes c (rules.ruleFor ids c)).isSome =
      (rules.ruleFor ids c).maximumBytes.any fun maximum => decide (maximum < c.durableBytes) := by
    unfold ownReason.ownSize
    cases (rules.ruleFor ids c).maximumBytes with
    | none => rfl
    | some maximum => by_cases h : maximum < c.durableBytes <;> simp [h]
  unfold ownReason pastOwn
  dsimp only
  cases (rules.ruleFor ids c).maximumAge.or rules.global.maximumAge with
  | none =>
    rw [hsize]
    rfl
  | some maximum =>
    cases h : (ageNanos c now).any fun age => decide ((maximum : ℤ) < age)
    · simp [h, hsize]
    · simp [h]

/-- The loop picks what is above the limit with all that is newer. -/
theorem selectOldest_eq {limit : ℕ} {own : CaptureUnit → Bool} (l : List CaptureUnit)
    (selected : List (CaptureUnit × String)) (hdistinct : (l.map CaptureUnit.sourceId).Nodup)
    (hselected : ∀ c ∈ l, (selected.any fun s => decide (s.1.sourceId = c.sourceId)) = own c) :
    selectOldest formatBytes limit (bytesOf (l.filter fun c => !own c)) selected l =
      selected ++ (l.filter fun c => !own c && decide (limit < bytesOf
        ((l.dropWhile fun d => decide (d ≠ c)).filter fun d => !own d))).map
          fun c => (c, "total captures above the " ++ formatBytes limit ++ " limit") := by
  induction l generalizing selected with
  | nil => simp [selectOldest]
  | cons c rest ih =>
    have hrest : (rest.map CaptureUnit.sourceId).Nodup := (nodup_cons.1 hdistinct).2
    have hne : ∀ d ∈ rest, c.sourceId ≠ d.sourceId := fun d hd heq =>
      (nodup_cons.1 hdistinct).1 (heq ▸ mem_map_of_mem hd)
    -- what is newer than a later capture does not depend on this one
    have hlater : (rest.filter fun d => !own d && decide (limit < bytesOf
          (((c :: rest).dropWhile fun e => decide (e ≠ d)).filter fun e => !own e))) =
        rest.filter fun d => !own d && decide (limit < bytesOf
          ((rest.dropWhile fun e => decide (e ≠ d)).filter fun e => !own e)) := by
      refine List.filter_congr fun d hd => ?_
      have hcd : c ≠ d := fun heq => hne d hd (congrArg _ heq)
      rw [dropWhile_cons_of_pos (by simpa using hcd)]
    have hfirst : (c :: rest).dropWhile (fun d => decide (d ≠ c)) = c :: rest := by simp
    rw [selectOldest]
    by_cases hle : bytesOf ((c :: rest).filter fun c => !own c) ≤ limit
    · rw [if_pos hle]
      have hnone : ((c :: rest).filter fun d => !own d && decide (limit < bytesOf
          (((c :: rest).dropWhile fun e => decide (e ≠ d)).filter fun e => !own e))) = [] := by
        refine filter_eq_nil_iff.2 fun d _ hd => ?_
        simp only [Bool.and_eq_true, decide_eq_true_eq] at hd
        have hsub : ((c :: rest).dropWhile fun e => decide (e ≠ d)).Sublist (c :: rest) :=
          dropWhile_sublist _
        have := bytesOf_sublist (hsub.filter fun e => !own e)
        omega
      rw [hnone, map_nil, append_nil]
    · rw [if_neg hle, hselected c mem_cons_self]
      cases hown : own c with
      | true =>
        have hskip : ((c :: rest).filter fun c => !own c) = rest.filter fun c => !own c := by
          simp [hown]
        rw [if_pos rfl, hskip, ih selected hrest fun d hd => hselected d (mem_cons_of_mem _ hd),
          filter_cons, hown, ← hlater]
        rfl
      | false =>
        have hpick : bytesOf ((c :: rest).filter fun c => !own c) - c.durableBytes =
            bytesOf (rest.filter fun c => !own c) := by
          simp [hown, bytesOf_cons]
        have hover : limit < bytesOf ((c :: rest).filter fun e => !own e) := Nat.lt_of_not_le hle
        have hhead : (!own c && decide (limit < bytesOf
            (((c :: rest).dropWhile fun d => decide (d ≠ c)).filter fun e => !own e))) = true := by
          rw [hfirst, hown, decide_eq_true hover]
          rfl
        rw [if_neg (by simp), hpick, ih _ hrest, filter_cons, if_pos hhead, hlater]
        · simp
        · intro d hd
          rw [any_append, hselected d (mem_cons_of_mem _ hd)]
          simp [hne d hd]

theorem saturatingSum_eq (l : List ℕ) : saturatingSum l = min l.sum 18446744073709551615 := by
  induction l using List.reverseRecOn with
  | nil => rfl
  | append_singleton l n ih =>
    rw [saturatingSum, foldl_append, sum_append]
    change saturatingAdd (saturatingSum l) n = _
    rw [ih, saturatingAdd, sum_singleton]
    omega

theorem Captured.durableCaptureBytes {index : OwnershipIndex} (h : Captured index) :
    index.durableCaptureBytes = bytesOf index.captures := by
  have := h.size
  rw [OwnershipIndex.durableCaptureBytes, saturatingSum_eq, ← bytesOf]
  omega

theorem foldl_sub (l : List (CaptureUnit × String)) (total : ℕ) :
    l.foldl (fun total s => total - s.1.durableBytes) total = total - bytesOf (l.map Prod.fst) := by
  induction l generalizing total with
  | nil => rfl
  | cons s l ih =>
    rw [foldl_cons, ih, map_cons, bytesOf_cons, Nat.sub_sub]

theorem map_fst_filterMap (f : CaptureUnit → Option String) (l : List CaptureUnit) :
    (l.filterMap fun c => (f c).map (c, ·)).map Prod.fst = l.filter fun c => (f c).isSome := by
  induction l with
  | nil => rfl
  | cons c l ih => cases h : f c <;> simp [h, ih]

theorem Captured.eq_of_sourceId {index : OwnershipIndex} (h : Captured index) {c d : CaptureUnit}
    (hc : c ∈ index.captures) (hd : d ∈ index.captures) (heq : c.sourceId = d.sourceId) : c = d :=
  inj_on_of_nodup_map h.distinct hc hd heq

/-- What `select` selects: what is past its own limits, and then the oldest of the rest. -/
theorem select_eq {index : OwnershipIndex} (h : Captured index) (rules : RetentionRules) (now : Int64) :
    (select ids formatBytes index rules now).map Prod.fst =
      (index.ordered.filter fun c => pastOwn ids rules now c) ++
        index.ordered.filter fun c => pastGlobal ids index rules now c := by
  have hperm := index.ordered_perm
  have hown := map_fst_filterMap (ownReason ids formatBytes rules now) index.ordered
  simp only [ownReason_isSome] at hown
  unfold select
  dsimp only
  cases hlimit : rules.global.maximumBytes with
  | none =>
    have hnone : (index.ordered.filter fun c => pastGlobal ids index rules now c) =
        [] := filter_eq_nil_iff.2 fun c _ => by simp [pastGlobal, hlimit]
    rw [hnone, append_nil]
    exact hown
  | some limit =>
    dsimp only
    have hprojected : index.durableCaptureBytes - bytesOf
          (index.ordered.filter fun c => pastOwn ids rules now c) =
        bytesOf (index.ordered.filter fun c => !pastOwn ids rules now c) := by
      rw [h.durableCaptureBytes, ← bytesOf_perm hperm,
        ← bytesOf_filter (fun c => pastOwn ids rules now c) index.ordered]
      exact Nat.add_sub_cancel_left ..
    rw [foldl_sub, hown, hprojected, selectOldest_eq, map_append, hown, map_map]
    · congr 1
      simp [pastGlobal, hlimit, Function.comp_def]
    · exact (hperm.map _).nodup_iff.2 h.distinct
    · intro c hc
      have hmem : (index.ordered.filterMap fun c =>
            (ownReason ids formatBytes rules now c).map (c, ·)).any
              (fun s => decide (s.1.sourceId = c.sourceId)) =
          (index.ordered.filter fun c => pastOwn ids rules now c).any
            fun d => decide (d.sourceId = c.sourceId) := by
        rw [← hown, any_map]
        rfl
      rw [hmem]
      cases hpast : pastOwn ids rules now c with
      | true => exact any_eq_true.2 ⟨c, mem_filter.2 ⟨hc, hpast⟩, by simp⟩
      | false =>
        refine any_eq_false.2 fun d hd heq => ?_
        obtain ⟨hd, hpast'⟩ := mem_filter.1 hd
        have := h.eq_of_sourceId (hperm.mem_iff.1 hd) (hperm.mem_iff.1 hc) (by simpa using heq)
        rw [this, hpast] at hpast'
        cases hpast'

theorem allowed_eq (index : OwnershipIndex) (c : CaptureUnit) (policy : Option String) :
    (index.planDeleteCapture ids stat digest c.sourceId .retention policy).allowed =
      deletable ids stat digest index c := by
  rw [Bool.eq_iff_iff, deletable, OwnershipIndex.planDeleteCapture_allowed,
    OwnershipIndex.planDeleteCapture_allowed]

theorem settle_plans (index : OwnershipIndex) (out : RetentionAssessment)
    (l : List (CaptureUnit × String)) :
    (settle ids stat digest index out l).plans = out.plans ++
      (l.filter fun s => deletable ids stat digest index s.1).map fun s =>
        index.planDeleteCapture ids stat digest s.1.sourceId .retention (some s.2) := by
  induction l generalizing out with
  | nil => simp [settle]
  | cons s l ih =>
    rw [settle, allowed_eq]
    cases hdel : deletable ids stat digest index s.1 with
    | true | false => simp [ih, hdel]

/-! ### What the plans free -/

/-- The bytes of the caches of a capture. -/
def cacheBytes (index : OwnershipIndex) (c : CaptureUnit) : ℕ :=
  saturatingSum ((index.derived.filter (·.sourceId = some c.sourceId)).map DerivedIndexEntry.bytes)

theorem Captured.capture {index : OwnershipIndex} (h : Captured index) {c : CaptureUnit}
    (hc : c ∈ index.captures) : index.capture c.sourceId = some c := by
  cases hfind : index.capture c.sourceId with
  | none =>
    have := find?_eq_none.1 hfind c hc
    simp at this
  | some d =>
    have hd := mem_of_find?_eq_some hfind
    rw [h.eq_of_sourceId hd hc (by simpa using find?_some hfind)]

theorem Captured.durableBytes_le {index : OwnershipIndex} (h : Captured index) {c : CaptureUnit}
    (hc : c ∈ index.captures) : c.durableBytes ≤ 18446744073709551615 := by
  have := h.size
  have := single_le_sum (l := index.captures.map CaptureUnit.durableBytes)
    (fun _ _ => Nat.zero_le _) _ (mem_map_of_mem hc)
  rw [← bytesOf] at this
  omega

/-- A plan frees the capture and its caches. -/
theorem Captured.freedBytes {index : OwnershipIndex} (h : Captured index) {c : CaptureUnit}
    (hc : c ∈ index.captures) (policy : Option String) :
    (index.planDeleteCapture ids stat digest c.sourceId .retention policy).freedBytes =
      min (c.durableBytes + cacheBytes index c) 18446744073709551615 := by
  have hle := h.durableBytes_le hc
  have hdurable (l : List DerivedIndexEntry) :
      (l.map fun e => (⟨e.path, e.bytes, .disposable⟩ : PlanItem)).filter
        (·.itemClass = .durable) = [] := by
    induction l with
    | nil => rfl
    | cons e l ih => simp
  have hcaches (l : List DerivedIndexEntry) (total : ℕ) :
      ((l.map fun e => (⟨e.path, e.bytes, .disposable⟩ : PlanItem)).filter
          (·.itemClass = .disposable)).foldl (fun total item => saturatingAdd total item.bytes) total =
        (l.map DerivedIndexEntry.bytes).foldl saturatingAdd total := by
    induction l generalizing total with
    | nil => rfl
    | cons e l ih => exact ih _
  rw [OwnershipIndex.planDeleteCapture, h.capture hc]
  have hfirst : saturatingAdd 0 c.durableBytes = c.durableBytes := by
    unfold saturatingAdd
    omega
  simp only [finishPlan, DeletionPlan.freedBytes, filter_cons, hdurable, hcaches, decide_true,
    reduceCtorEq, decide_false, if_true, Bool.false_eq_true, if_false, foldl_cons,
    foldl_nil, hfirst]
  rfl

theorem min_sum (l : List ℕ) (m : ℕ) : min (l.map fun n => min n m).sum m = min l.sum m := by
  induction l with
  | nil => rfl
  | cons n l ih =>
    simp only [map_cons, sum_cons]
    omega

theorem planDeleteCapture_target (index : OwnershipIndex) (source : SourceId) (cause : DeletionCause)
    (policy : Option String) :
    (index.planDeleteCapture ids stat digest source cause policy).target = .capture source := by
  unfold OwnershipIndex.planDeleteCapture
  cases index.capture source <;> rfl

theorem planDeleteCapture_policy (index : OwnershipIndex) (source : SourceId) (cause : DeletionCause)
    (policy : Option String) :
    (index.planDeleteCapture ids stat digest source cause policy).policy = policy := by
  unfold OwnershipIndex.planDeleteCapture
  cases index.capture source <;> rfl

/-! ### What is planned -/

section

variable {index : OwnershipIndex} {rules : RetentionRules} {now : Int64}

theorem assessRetention_plans (hactive : rules.isActive = true) :
    (assessRetention ids stat digest formatBytes index rules now).plans =
      ((select ids formatBytes index rules now).filter fun s => deletable ids stat digest index s.1).map
        fun s => index.planDeleteCapture ids stat digest s.1.sourceId .retention (some s.2) := by
  unfold assessRetention
  rw [hactive]
  simp only [Bool.not_true, Bool.false_eq_true, if_false, settle_plans, nil_append]

theorem assessRetention_shortfall (hactive : rules.isActive = true) :
    (assessRetention ids stat digest formatBytes index rules now).shortfallBytes =
      match rules.global.maximumBytes with
      | some limit => index.durableCaptureBytes -
          (assessRetention ids stat digest formatBytes index rules now).wouldFreeBytes - limit
      | none => 0 := by
  unfold assessRetention
  rw [hactive]
  rfl

theorem assessRetention_off (hactive : rules.isActive = false) :
    (assessRetention ids stat digest formatBytes index rules now).plans = [] ∧
      (assessRetention ids stat digest formatBytes index rules now).shortfallBytes = 0 := by
  unfold assessRetention
  rw [hactive]
  exact ⟨rfl, rfl⟩

/-- What is selected, and that nothing blocks. -/
def allowedSelected (ids : Ids) (stat : Path → Metadata) (digest : DeletionPlan → UInt64)
    (index : OwnershipIndex) (rules : RetentionRules) (now : Int64) (c : CaptureUnit) : Bool :=
  decide (Selected ids index rules now c) && deletable ids stat digest index c

theorem mem_select (h : Captured index) (hactive : rules.isActive = true) (c : CaptureUnit) :
    c ∈ (select ids formatBytes index rules now).map Prod.fst ↔
      c ∈ index.captures ∧ Selected ids index rules now c := by
  rw [select_eq h, mem_append, mem_filter, mem_filter, index.ordered_perm.mem_iff, Selected]
  tauto

theorem nodup_select (h : Captured index) :
    ((select ids formatBytes index rules now).map Prod.fst).Nodup := by
  have hnodup : index.ordered.Nodup :=
    index.ordered_perm.nodup_iff.2 (List.Nodup.of_map _ h.distinct)
  rw [select_eq h]
  refine (hnodup.filter _).append (hnodup.filter _) fun c hown hglobal => ?_
  have hown := (mem_filter.1 hown).2
  have hglobal := (mem_filter.1 hglobal).2
  cases hlimit : rules.global.maximumBytes <;> simp [pastGlobal, hlimit, hown] at hglobal

variable (ids stat digest formatBytes rules now) in
/-- The captures that are planned, in any order. -/
theorem select_perm (h : Captured index) (hactive : rules.isActive = true) :
    (((select ids formatBytes index rules now).filter
        fun s => deletable ids stat digest index s.1).map Prod.fst).Perm
      (index.captures.filter (allowedSelected ids stat digest index rules now)) := by
  have hfilter : (((select ids formatBytes index rules now).filter
      fun s => deletable ids stat digest index s.1).map Prod.fst) =
      ((select ids formatBytes index rules now).map Prod.fst).filter
        (deletable ids stat digest index) := by
    rw [filter_map]
    rfl
  rw [hfilter]
  refine (perm_ext_iff_of_nodup ((nodup_select h).filter _)
    ((List.Nodup.of_map _ h.distinct).filter _)).2 fun c => ?_
  rw [mem_filter, mem_select h hactive, mem_filter, allowedSelected, Bool.and_eq_true,
    decide_eq_true_eq, and_assoc]

theorem planned_iff (h : Captured index) (hactive : rules.isActive = true) {c : CaptureUnit}
    (hc : c ∈ index.captures) :
    (assessRetention ids stat digest formatBytes index rules now).planned c =
      allowedSelected ids stat digest index rules now c := by
  have hmem := (select_perm ids stat digest formatBytes rules now h hactive).mem_iff (a := c)
  rw [mem_filter] at hmem
  rw [Bool.eq_iff_iff, RetentionAssessment.planned, assessRetention_plans hactive]
  constructor
  · intro hplanned
    obtain ⟨plan, hplan, htarget⟩ := any_eq_true.1 hplanned
    obtain ⟨s, hs, rfl⟩ := mem_map.1 hplan
    rw [planDeleteCapture_target, decide_eq_true_eq, DeletionTarget.capture.injEq] at htarget
    have hsel := (mem_select h hactive s.1).1 (mem_map_of_mem (mem_filter.1 hs).1)
    have hsame : s.1 = c := h.eq_of_sourceId hsel.1 hc htarget
    exact (hmem.1 (hsame ▸ mem_map_of_mem hs)).2
  · intro hallowed
    obtain ⟨s, hs, rfl⟩ := mem_map.1 (hmem.2 ⟨hc, hallowed⟩)
    refine any_eq_true.2 ⟨_, mem_map_of_mem hs, ?_⟩
    rw [planDeleteCapture_target]
    exact decide_eq_true rfl

/-- What the plans free: the captures and their caches. -/
theorem wouldFreeBytes_eq (h : Captured index) (hactive : rules.isActive = true) :
    (assessRetention ids stat digest formatBytes index rules now).wouldFreeBytes =
      min (bytesOf (index.captures.filter (allowedSelected ids stat digest index rules now)) +
        ((index.captures.filter (allowedSelected ids stat digest index rules now)).map
          (cacheBytes index)).sum) 18446744073709551615 := by
  have hperm := select_perm ids stat digest formatBytes rules now h hactive
  have hfreed : ((select ids formatBytes index rules now).filter
      fun s => deletable ids stat digest index s.1).map (DeletionPlan.freedBytes ∘ fun s =>
        index.planDeleteCapture ids stat digest s.1.sourceId .retention (some s.2)) =
      ((((select ids formatBytes index rules now).filter
        fun s => deletable ids stat digest index s.1).map Prod.fst).map
          fun c => c.durableBytes + cacheBytes index c).map fun n => min n 18446744073709551615 := by
    rw [map_map, map_map]
    refine map_congr_left fun s hs => ?_
    have hsel := (mem_select h hactive s.1).1 (mem_map_of_mem (mem_filter.1 hs).1)
    exact h.freedBytes hsel.1 _
  rw [RetentionAssessment.wouldFreeBytes, saturatingSum_eq, assessRetention_plans hactive,
    map_map, hfreed, min_sum, (hperm.map _).sum_eq, bytesOf, sum_map_add]

/-- What is newer than a capture is newer than an older one. -/
theorem dropWhile_sublist_of_older {older c : CaptureUnit} {l : List CaptureUnit} (hnodup : l.Nodup)
    (h : List.Sublist [older, c] l) :
    (l.dropWhile fun d => decide (d ≠ c)).Sublist (l.dropWhile fun d => decide (d ≠ older)) := by
  induction l with
  | nil => exact absurd h.length_le (by simp)
  | cons a l ih =>
    by_cases hfirst : a = older
    · rw [dropWhile_cons_of_neg (a := a) (p := fun d => decide (d ≠ older)) (by simpa using hfirst)]
      exact dropWhile_sublist _
    · have hrest : List.Sublist [older, c] l := by
        cases h with
        | cons _ h => exact h
        | cons_cons _ h => exact absurd rfl hfirst
      have hlater : a ≠ c := fun heq => (nodup_cons.1 hnodup).1 (heq ▸ hrest.subset (by simp))
      rw [dropWhile_cons_of_pos (by simpa using hlater),
        dropWhile_cons_of_pos (by simpa using hfirst)]
      exact ih (nodup_cons.1 hnodup).2 hrest

/-- With a capture, the global limit selects every older one. -/
theorem Selected.older (h : Captured index) {older c : CaptureUnit}
    (horder : List.Sublist [older, c] index.ordered)
    (hc : Selected ids index rules now c) (hown : pastOwn ids rules now c = false) :
    Selected ids index rules now older := by
  have hnodup : index.ordered.Nodup :=
    index.ordered_perm.nodup_iff.2 (List.Nodup.of_map _ h.distinct)
  obtain ⟨hactive, hpast | hglobal⟩ := hc
  · rw [hown] at hpast
    cases hpast
  · refine ⟨hactive, ?_⟩
    cases holder : pastOwn ids rules now older with
    | true => exact .inl rfl
    | false =>
      obtain ⟨limit, hlimit, hover⟩ := (Option.any_eq_true _ _).1 hglobal
      rw [hown, Bool.not_false, Bool.true_and, decide_eq_true_eq] at hover
      have hmore := bytesOf_sublist
        ((dropWhile_sublist_of_older hnodup horder).filter fun d => !pastOwn ids rules now d)
      refine .inr ((Option.any_eq_true _ _).2 ⟨limit, hlimit, ?_⟩)
      rw [holder, Bool.not_false, Bool.true_and, decide_eq_true_eq]
      omega

theorem cacheBytes_eq_zero (c : CaptureUnit) :
    cacheBytes index c = 0 ↔ ∀ entry ∈ index.derived, entry.sourceId = some c.sourceId →
      entry.bytes = 0 := by
  have hmin : cacheBytes index c = 0 ↔
      ((index.derived.filter (·.sourceId = some c.sourceId)).map DerivedIndexEntry.bytes).sum = 0 := by
    rw [cacheBytes, saturatingSum_eq]
    omega
  rw [hmin, sum_eq_zero_iff, forall_mem_map]
  simp [mem_filter]

theorem shortfall_eq (h : Captured index) (hactive : rules.isActive = true) {limit : ℕ}
    (hlimit : rules.global.maximumBytes = some limit) :
    (assessRetention ids stat digest formatBytes index rules now).shortfallBytes =
      bytesOf (index.captures.filter fun c => !allowedSelected ids stat digest index rules now c) -
        ((index.captures.filter (allowedSelected ids stat digest index rules now)).map
          (cacheBytes index)).sum - limit := by
  have hsize := h.size
  have hsplit := bytesOf_filter (allowedSelected ids stat digest index rules now) index.captures
  rw [assessRetention_shortfall hactive, hlimit, h.durableCaptureBytes, wouldFreeBytes_eq h hactive]
  dsimp only
  omega

theorem assessRetention_planned (h : Captured index) {c : CaptureUnit} (hc : c ∈ index.captures) :
    (assessRetention ids stat digest formatBytes index rules now).planned c = true ↔
      Selected ids index rules now c ∧ deletable ids stat digest index c = true := by
  cases hactive : rules.isActive with
  | true => rw [planned_iff h hactive hc, allowedSelected, Bool.and_eq_true, decide_eq_true_eq]
  | false =>
    rw [RetentionAssessment.planned, (assessRetention_off hactive).1, Selected, hactive]
    simp

/-- Every plan is that of a capture that is selected and that nothing blocks. -/
theorem plan_allowed (h : Captured index) :
    ∀ plan ∈ (assessRetention ids stat digest formatBytes index rules now).plans,
      plan.blockers = [] ∧ ∃ c ∈ index.captures, Selected ids index rules now c ∧
        plan = index.planDeleteCapture ids stat digest c.sourceId .retention plan.policy := by
  intro plan hplan
  cases hactive : rules.isActive with
  | false =>
    rw [(assessRetention_off hactive).1] at hplan
    cases hplan
  | true =>
    rw [assessRetention_plans hactive] at hplan
    obtain ⟨s, hs, rfl⟩ := mem_map.1 hplan
    obtain ⟨hs, hdel⟩ := mem_filter.1 hs
    have hsel := (mem_select h hactive s.1).1 (mem_map_of_mem hs)
    rw [← allowed_eq index s.1 (some s.2)] at hdel
    refine ⟨List.isEmpty_iff.1 hdel, s.1, hsel.1, hsel.2, ?_⟩
    rw [planDeleteCapture_policy]

theorem plans_once (h : Captured index) :
    ((assessRetention ids stat digest formatBytes index rules now).plans.map
      DeletionPlan.target).Nodup := by
  cases hactive : rules.isActive with
  | false =>
    rw [(assessRetention_off hactive).1]
    exact nodup_nil
  | true =>
    have hperm := select_perm ids stat digest formatBytes rules now h hactive
    have htargets : (assessRetention ids stat digest formatBytes index rules now).plans.map
        DeletionPlan.target = ((((select ids formatBytes index rules now).filter
          fun s => deletable ids stat digest index s.1).map Prod.fst).map CaptureUnit.sourceId).map
            .capture := by
      rw [assessRetention_plans hactive, map_map, map_map, map_map]
      exact map_congr_left fun s _ => planDeleteCapture_target ..
    rw [htargets]
    refine List.Nodup.map (fun a b heq => DeletionTarget.capture.inj heq) ?_
    exact (hperm.map _).nodup_iff.2 (h.distinct.sublist (filter_sublist.map _))

theorem planned_older (h : Captured index) (older c : CaptureUnit)
    (horder : List.Sublist [older, c] index.ordered)
    (hc : (assessRetention ids stat digest formatBytes index rules now).planned c = true)
    (hown : pastOwn ids rules now c = false) (hdel : deletable ids stat digest index older = true) :
    (assessRetention ids stat digest formatBytes index rules now).planned older = true := by
  have hmem : ∀ d ∈ [older, c], d ∈ index.captures := fun d hd =>
    index.ordered_perm.subset (horder.subset hd)
  have hselected := ((assessRetention_planned h (hmem c (by simp))).1 hc).1
  exact (assessRetention_planned h (hmem older (by simp))).2 ⟨hselected.older h horder hown, hdel⟩

theorem kept_eq (h : Captured index) (hactive : rules.isActive = true) :
    (index.captures.filter fun c =>
        !(assessRetention ids stat digest formatBytes index rules now).planned c) =
      index.captures.filter fun c => !allowedSelected ids stat digest index rules now c :=
  List.filter_congr fun c hc => by rw [planned_iff h hactive hc]

theorem caches_eq_zero :
    ((index.captures.filter (allowedSelected ids stat digest index rules now)).map
        (cacheBytes index)).sum = 0 ↔
      ∀ c ∈ index.captures, Selected ids index rules now c →
        deletable ids stat digest index c = true → ∀ entry ∈ index.derived,
          entry.sourceId = some c.sourceId → entry.bytes = 0 := by
  rw [sum_eq_zero_iff, forall_mem_map]
  simp only [mem_filter, allowedSelected, Bool.and_eq_true, decide_eq_true_eq, and_imp,
    cacheBytes_eq_zero]

/-- When what is removed and reported is what the limits ask for. -/
theorem retention_exact (h : Captured index) :
    Exact ids stat digest index rules now
        (assessRetention ids stat digest formatBytes index rules now) ↔
      Attainable ids stat digest index rules now := by
  have hfits {limit : ℕ} : bytesOf (index.captures.filter fun c =>
      !(decide (Selected ids index rules now c) && deletable ids stat digest index c)) ≤ limit ↔
      bytesOf (index.captures.filter fun c =>
        !allowedSelected ids stat digest index rules now c) ≤ limit := Iff.rfl
  constructor
  · intro hexact hactive limit hlimit
    rw [hfits]
    by_cases hkept : bytesOf (index.captures.filter fun c =>
        !allowedSelected ids stat digest index rules now c) ≤ limit
    · exact .inl hkept
    · have hshort := hexact.shortfall
      rw [if_pos hactive, hlimit, kept_eq h hactive, shortfall_eq h hactive hlimit] at hshort
      simp only [Option.map_some, Option.getD_some] at hshort
      refine .inr ⟨caches_eq_zero.1 (by omega), fun c hc hdel => ?_⟩
      have hpositive :
          0 < (assessRetention ids stat digest formatBytes index rules now).shortfallBytes := by
        rw [shortfall_eq h hactive hlimit]
        omega
      cases hplanned : (assessRetention ids stat digest formatBytes index rules now).planned c with
      | true => exact ((assessRetention_planned h hc).1 hplanned).1
      | false =>
        rw [hexact.missing hpositive c hc hplanned] at hdel
        cases hdel
  · intro hattainable
    -- which captures are planned is right in any case
    refine ⟨plan_allowed h, plans_once h, fun c hc => assessRetention_planned h hc,
      planned_older h, ?_, ?_⟩
    · intro hpositive c hc hplanned
      cases hactive : rules.isActive with
      | false =>
        rw [(assessRetention_off hactive).2] at hpositive
        exact absurd hpositive (lt_irrefl 0)
      | true =>
        cases hlimit : rules.global.maximumBytes with
        | none =>
          rw [assessRetention_shortfall hactive, hlimit] at hpositive
          exact absurd hpositive (lt_irrefl 0)
        | some limit =>
          rw [shortfall_eq h hactive hlimit] at hpositive
          obtain hkept | ⟨-, hall⟩ := hattainable hactive limit hlimit
          · rw [hfits] at hkept
            omega
          · cases hdel : deletable ids stat digest index c with
            | false => rfl
            | true =>
              rw [(assessRetention_planned h hc).2 ⟨hall c hc hdel, hdel⟩] at hplanned
              cases hplanned
    · cases hactive : rules.isActive with
      | false =>
        rw [(assessRetention_off hactive).2]
        rfl
      | true =>
        rw [if_pos rfl, kept_eq h hactive]
        cases hlimit : rules.global.maximumBytes with
        | none => rw [assessRetention_shortfall hactive, hlimit]; rfl
        | some limit =>
          rw [shortfall_eq h hactive hlimit]
          simp only [Option.map_some, Option.getD_some]
          obtain hkept | ⟨hzero, -⟩ := hattainable hactive limit hlimit
          · rw [hfits] at hkept
            omega
          · rw [caches_eq_zero.2 hzero, Nat.sub_zero]

end

end

/-! ### Two captures above the limit -/

/-- Two identities. -/
def retainedIds : Ids where
  parseUuid name :=
    if name = "11111111-1111-1111-1111-111111111111" then some (.filled 0x11)
    else if name = "22222222-2222-2222-2222-222222222222" then some (.filled 0x22) else none
  format uuid :=
    if uuid = .filled 0x11 then "11111111-1111-1111-1111-111111111111"
    else "22222222-2222-2222-2222-222222222222"

/-- The older capture has 100 bytes and a cache, the newer one 50 bytes; either may have a writer. -/
def retainedIndex (older newer : Bool) (cache : ℕ) : OwnershipIndex where
  root := ["captures"]
  captures :=
    [⟨⟨.filled 0x11⟩, "a", ["captures", "11111111-1111-1111-1111-111111111111"], 1, 100, 100, 0,
        some 1, none, some 0, none, older, false, []⟩,
      ⟨⟨.filled 0x22⟩, "b", ["captures", "22222222-2222-2222-2222-222222222222"], 1, 50, 50, 0,
        some 2, none, some 0, none, newer, false, []⟩]
  investigations := []
  derived := [⟨["captures", "index"], cache, some ⟨.filled 0x11⟩⟩]
  workspaceBytes := 0
  truncated := false
  cancelled := false
  errors := []

/-- The captures together are limited. -/
def retainedRules (limit : ℕ) : RetentionRules := ⟨true, ⟨some limit, none⟩, ∅⟩

/-- What is removed and reported for them. -/
abbrev RetainedExact (older newer : Bool) (cache limit : ℕ) : Prop :=
  Exact retainedIds (fun _ => .directory) (fun _ => 0) (retainedIndex older newer cache)
    (retainedRules limit) 3 (assessRetention retainedIds (fun _ => .directory) (fun _ => 0) toString
      (retainedIndex older newer cache) (retainedRules limit) 3)

/-- Nothing protects the older one: it is removed, and the newer one fits. -/
theorem retention_exact_older : RetainedExact false false 0 60 := by
  have hcaptured : Captured (retainedIndex false false 0) := ⟨by decide +kernel, by decide +kernel⟩
  refine (retention_exact hcaptured).2 fun _ limit hlimit => .inl ?_
  cases hlimit
  decide +kernel

/-- **The older one has a writer: it counts as removed, so the newer one is left though nothing
protects it; and bytes of a cache count as bytes of captures.** -/
theorem retention_protected_counts : ¬ RetainedExact true false 0 60 ∧ ¬ RetainedExact false true 30 40 := by
  constructor
  · intro hexact
    have hmissing := hexact.missing (by decide +kernel)
      ⟨⟨.filled 0x22⟩, "b", ["captures", "22222222-2222-2222-2222-222222222222"], 1, 50, 50, 0,
        some 2, none, some 0, none, false, false, []⟩ (by decide +kernel) (by decide +kernel)
    exact absurd hmissing (by decide +kernel)
  · intro hexact
    exact absurd hexact.shortfall (by decide +kernel)

end Lvu.Storage
