import Lvu.Live.TimeField
import Lvu.Query.Strftime

/-!
# A declared time basis

The user points at a column and declares how its values are read; the declaration is compiled to
one expression that gives UTC nanoseconds (`lvu-query/src/time_field.rs`).

* `timeBasisExpression` : what is accepted, and as which expression.
* `zone_read` : **when a format is read with the zone it carries**.
-/

namespace Lvu.Query

open Time (EpochUnit ZoneAssumption)

inductive ColumnTimeInterpretation
  | native
  | epoch (unit : EpochUnit)
  | text (format : List Char)
  | rfc3339
deriving DecidableEq

structure TimeColumnSelection where
  column : List Char
  interpretation : ColumnTimeInterpretation
  zone : ZoneAssumption

/-- `TimeFieldError`, of a declaration. -/
inductive TimeFieldError
  | rejected (reason : String)
  | protectedColumn (column : List Char)
  | zoneRequired
  | zoneAlreadyRead
  | zoneNotApplicable
  | formatRequired
  | formatTooLong
deriving DecidableEq

def maxTimeFormatBytes : ℕ := 64

/-- `protected`. -/
def isProtected (column : List Char) : Bool := ['_', 'l', 'v', 'u', '_'].isPrefixOf column

/-- The expression that a declaration is compiled to. -/
inductive Basis
  | rfc3339
  | epoch (scale : ℤ)
  | native (offset : Int32)
  | text (format : List Char) (aware : Bool) (offset : Int32)
deriving DecidableEq

/-- `shift`, as far as it refuses. -/
def shift (basis : Int32 → Basis) : Option Int32 → Except TimeFieldError Basis
  | none => .error .zoneRequired
  | some offset => .ok (basis offset)

/-- `time_basis_expression`, for text in a format. -/
def textExpression (zone : ZoneAssumption) (format : List Char) : Except TimeFieldError Basis :=
  if Time.trim format = [] then .error .formatRequired
  else if maxTimeFormatBytes < byteSize format then .error .formatTooLong
  else
    let readsZone := formatReadsZone format
    if readsZone && zone ≠ .reject then .error .zoneAlreadyRead
    else shift (.text format readsZone) (if readsZone then some 0 else zone.offsetSeconds)

def timeBasisExpression (selection : TimeColumnSelection) : Except TimeFieldError Basis :=
  if selection.column = [] then .error (.rejected "no column was designated")
  else if isProtected selection.column then .error (.protectedColumn selection.column)
  else
    match selection.interpretation with
    | .rfc3339 =>
      if selection.zone ≠ .reject then .error .zoneAlreadyRead else .ok .rfc3339
    | .epoch unit =>
      if selection.zone ≠ .reject then .error .zoneNotApplicable
      else .ok (.epoch unit.nanosPerUnit)
    | .native => shift .native selection.zone.offsetSeconds
    | .text format => textExpression selection.zone format

/-! ### The zone of a format -/

/-- **A format is read with the zone it carries**: the search is right about it, and so a zone is
declared only for values that have none, and a zone that they have is read. -/
def ReadWithItsZone (format : List Char) (items : List Item) : Prop :=
  (formatReadsZone format = true ↔ ReadsZone items) ∧
  ∀ selection basis, selection.interpretation = .text format →
    timeBasisExpression selection = .ok basis →
      (selection.zone ≠ .reject → ¬ ReadsZone items) ∧
      (ReadsZone items → basis = .text format true 0)

/-- What a text basis was compiled from. -/
theorem text_of_expression {selection : TimeColumnSelection} {format : List Char} {basis : Basis}
    (hformat : selection.interpretation = .text format)
    (h : timeBasisExpression selection = .ok basis) :
    (formatReadsZone format = true ∧ selection.zone = .reject ∧ basis = .text format true 0) ∨
      formatReadsZone format = false ∧ ∃ offset ∈ selection.zone.offsetSeconds,
        basis = .text format false offset := by
  have htext : textExpression selection.zone format = .ok basis := by
    unfold timeBasisExpression at h
    rw [hformat] at h
    by_cases hcolumn : selection.column = []
    · rw [if_pos hcolumn] at h
      cases h
    · by_cases hprotected : isProtected selection.column = true
      · rw [if_neg hcolumn, if_pos hprotected] at h
        cases h
      · rwa [if_neg hcolumn, if_neg hprotected] at h
  unfold textExpression at htext
  split_ifs at htext with hempty hlong
  dsimp only at htext
  split_ifs at htext with hread hreads
  · left
    refine ⟨hreads, ?_, ?_⟩
    · by_contra hzone
      exact hread (by simp [hreads, hzone])
    · rw [hreads] at htext
      exact (Except.ok.inj htext).symm
  · right
    rw [Bool.not_eq_true] at hreads
    rw [hreads] at htext
    refine ⟨hreads, ?_⟩
    cases hoffset : selection.zone.offsetSeconds with
    | none =>
      rw [hoffset] at htext
      cases htext
    | some offset =>
      rw [hoffset] at htext
      exact ⟨offset, rfl, (Except.ok.inj htext).symm⟩

/-- **When a format is read with the zone it carries**: it has a directive that is searched for or
none at all, unless the text of one stands behind an escaped percent sign. -/
theorem zone_read {format : List Char} {items : List Item} (h : parse format = some items) :
    ReadWithItsZone format items ↔
      (ReadsZone items → HasSearched items ∨ Escaped items) ∧
        (Escaped items → ReadsZone items) := by
  obtain ⟨rfl, hspelled⟩ := text_of_parse h
  have hfinds := formatReadsZone_text hspelled
  have hsearched : HasSearched items → ReadsZone items := by
    rintro ⟨directive, hmem, -⟩
    exact ⟨directive, hmem⟩
  constructor
  · rintro ⟨hright, -⟩
    rw [hfinds] at hright
    exact ⟨hright.2, fun hescaped => hright.1 (.inr hescaped)⟩
  · rintro ⟨hzone, hescaped⟩
    have hright : formatReadsZone (text items) = true ↔ ReadsZone items :=
      hfinds.trans ⟨fun h => h.elim hsearched hescaped, hzone⟩
    refine ⟨hright, fun selection basis hformat hbasis => ?_⟩
    rcases text_of_expression hformat hbasis with ⟨-, hreject, rfl⟩ | ⟨hfalse, -⟩
    · exact ⟨fun hdeclared => absurd hreject hdeclared, fun _ => rfl⟩
    · have hnone : ¬ ReadsZone items := fun hreads => by
        rw [hright.2 hreads] at hfalse
        cases hfalse
      exact ⟨fun _ => hnone, fun hreads => absurd hreads hnone⟩

/-- "%Y-%m-%dT%H:%M:%S%:z" is read with the offset it carries. -/
theorem zone_read_offset : ReadWithItsZone
    ['%', 'Y', '-', '%', 'm', '-', '%', 'd', 'T', '%', 'T', '%', ':', 'z']
    [.field ['Y'], .literal '-', .field ['m'], .literal '-', .field ['d'], .literal 'T',
      .field ['T'], .zone .colon] := by
  have hsearched : ZoneDirective.colon.Searched := by simp [ZoneDirective.Searched]
  exact (zone_read (by decide)).2
    ⟨fun _ => Or.inl ⟨.colon, by decide, hsearched⟩, fun _ => ⟨.colon, by decide⟩⟩

/-- "%T%::z" carries an offset that is not found, and "%T%%z" none where one is found. -/
theorem zone_missed :
    (¬ ReadWithItsZone ['%', 'T', '%', ':', ':', 'z'] [.field ['T'], .zone .doubleColon] ∧
      timeBasisExpression ⟨['t'], .text ['%', 'T', '%', ':', ':', 'z'],
        .fixedOffsetSeconds 3600⟩ = .ok (.text ['%', 'T', '%', ':', ':', 'z'] false 3600)) ∧
    ¬ ReadWithItsZone ['%', 'T', '%', '%', 'z'] [.field ['T'], .percent, .literal 'z'] := by
  refine ⟨⟨fun h => ?_, by decide⟩, fun h => ?_⟩
  · have hread := h.1.2 ⟨.doubleColon, by decide⟩
    revert hread
    decide
  · obtain ⟨directive, hmem⟩ := h.1.1 (by decide)
    simp at hmem

end Lvu.Query
