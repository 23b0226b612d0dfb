import Mathlib.Data.List.Infix

/-!
# Time formats and the zones they read

A text column is read with a declared chrono format, and whether the format reads a zone of its own
is decided by searching it for five directives (`lvu-query/src/time_field.rs`).

* `parse` : the strftime grammar of the format language.
* `formatReadsZone` : the search.
* `formatReadsZone_text` : **what the search finds**.
-/

namespace Lvu

open List

namespace Query

/-! ### The format language -/

/-- A directive that reads an offset or a zone. -/
inductive ZoneDirective
  | offset
  | colon
  | doubleColon
  | tripleColon
  | permissive
  | name
  | rfc3339
deriving DecidableEq

/-- What follows its percent sign. -/
def ZoneDirective.spelling : ZoneDirective → List Char
  | offset => ['z']
  | colon => [':', 'z']
  | doubleColon => [':', ':', 'z']
  | tripleColon => [':', ':', ':', 'z']
  | permissive => ['#', 'z']
  | name => ['Z']
  | rfc3339 => ['+']

/-- An item of a format. -/
inductive Item
  | literal (c : Char)
  /-- `%%`. -/
  | percent
  /-- Any other directive, by what follows its percent sign. -/
  | field (spelling : List Char)
  | zone (directive : ZoneDirective)
deriving DecidableEq

/-- The numbers, which may have a padding modifier. -/
def numericSpecs : List Char :=
  ['Y', 'C', 'y', 'q', 'm', 'd', 'e', 'w', 'u', 'U', 'W', 'G', 'g', 'V', 'j', 'H', 'k', 'I', 'l',
    'M', 'S', 'f', 's']

/-- The other directives of one letter. -/
def textSpecs : List Char :=
  ['b', 'B', 'h', 'a', 'A', 'D', 'x', 'F', 'v', 'P', 'p', 'R', 'T', 'X', 'r', 'c', 't', 'n']

/-- The fractions of a second. -/
def fractionSpecs : List (List Char) :=
  [['.', 'f'], ['.', '3', 'f'], ['.', '6', 'f'], ['.', '9', 'f'], ['3', 'f'], ['6', 'f'],
    ['9', 'f']]

/-- The directives that read no zone. -/
def fieldSpellings : List (List Char) :=
  (numericSpecs ++ textSpecs).map ([·]) ++
    ['-', '_', '0'].flatMap (fun modifier => numericSpecs.map fun spec => [modifier, spec]) ++
    fractionSpecs

/-- All of them, by what follows the percent sign. -/
def directives : List (List Char × Item) :=
  (['%'], .percent) ::
    ([.offset, .colon, .doubleColon, .tripleColon, .permissive, .name, .rfc3339].map
      fun directive : ZoneDirective => (directive.spelling, .zone directive)) ++
    fieldSpellings.map fun spelling => (spelling, .field spelling)

/-- The items of a format, after a percent sign and what followed it, if one is open. -/
def parseFrom : List Char → Option (List Char) → Option (List Item)
  | [], none => some []
  | [], some _ => none
  | c :: cs, none =>
    if c = '%' then parseFrom cs (some [])
    else (parseFrom cs none).map (.literal c :: ·)
  | c :: cs, some seen =>
    match directives.lookup (seen ++ [c]) with
    | some item => (parseFrom cs none).map (item :: ·)
    | none =>
      if directives.any fun entry => (seen ++ [c]).isPrefixOf entry.1 then
        parseFrom cs (some (seen ++ [c]))
      else none

/-- The items of a format. -/
def parse (format : List Char) : Option (List Item) := parseFrom format none

/-- The text of an item. -/
def Item.text : Item → List Char
  | .literal c => [c]
  | .percent => ['%', '%']
  | .field spelling => '%' :: spelling
  | .zone directive => '%' :: directive.spelling

/-- The text of some items. -/
def text (items : List Item) : List Char := items.flatMap Item.text

/-- An item that the language has. -/
def Item.Spelled : Item → Prop
  | .literal c => c ≠ '%'
  | .field spelling => spelling ∈ fieldSpellings
  | .percent | .zone _ => True


theorem mem_directives {spelling : List Char} {item : Item}
    (h : directives.lookup spelling = some item) : (spelling, item) ∈ directives := by
  obtain ⟨before, after, heq, -⟩ := lookup_eq_some_iff.1 h
  rw [heq]
  exact mem_append_right before mem_cons_self

theorem directives_text {entry : List Char × Item} (h : entry ∈ directives) :
    entry.2.text = '%' :: entry.1 := by
  simp only [directives, cons_append, mem_cons, mem_append, mem_map] at h
  rcases h with rfl | ⟨directive, -, rfl⟩ | ⟨spelling, -, rfl⟩ <;> rfl

theorem directives_spelled {entry : List Char × Item} (h : entry ∈ directives) :
    entry.2.Spelled := by
  simp only [directives, cons_append, mem_cons, mem_append, mem_map] at h
  rcases h with rfl | ⟨directive, -, rfl⟩ | ⟨spelling, hspelling, rfl⟩
  · trivial
  · trivial
  · exact hspelling

/-- What stands before the rest of a format: an open percent sign and what followed it. -/
def opened : Option (List Char) → List Char
  | none => []
  | some seen => '%' :: seen

/-- **A format is the text of its items.** -/
theorem parseFrom_spec {cs : List Char} {seen : Option (List Char)} {items : List Item}
    (h : parseFrom cs seen = some items) :
    opened seen ++ cs = text items ∧ ∀ item ∈ items, item.Spelled := by
  induction cs generalizing seen items with
  | nil =>
    cases seen with
    | none =>
      cases h
      exact ⟨rfl, by simp⟩
    | some seen => cases h
  | cons c cs ih =>
    cases seen with
    | none =>
      rw [parseFrom] at h
      split_ifs at h with hc
      · -- a percent sign is opened
        subst hc
        exact ih h
      · obtain ⟨rest, hrest, rfl⟩ := Option.map_eq_some_iff.1 h
        obtain ⟨htext, hspelled⟩ := ih hrest
        exact ⟨congrArg (c :: ·) htext, forall_mem_cons.2 ⟨hc, hspelled⟩⟩
    | some seen =>
      rw [parseFrom] at h
      split at h
      · next item hitem =>
        obtain ⟨rest, hrest, rfl⟩ := Option.map_eq_some_iff.1 h
        obtain ⟨htext, hspelled⟩ := ih hrest
        have hmem := mem_directives hitem
        refine ⟨?_, forall_mem_cons.2 ⟨directives_spelled hmem, hspelled⟩⟩
        have hitems : text (item :: rest) = item.text ++ text rest := rfl
        rw [hitems, directives_text hmem, ← htext]
        simp [opened]
      · split_ifs at h
        obtain ⟨htext, hspelled⟩ := ih h
        refine ⟨?_, hspelled⟩
        rw [← htext]
        simp [opened]

theorem text_of_parse {format : List Char} {items : List Item} (h : parse format = some items) :
    format = text items ∧ ∀ item ∈ items, item.Spelled :=
  parseFrom_spec h

/-! ### The search -/

/-- The directives that are searched for, without their percent sign. -/
def searched : List (List Char) := [['z'], [':', 'z'], ['#', 'z'], ['Z'], ['+']]

def formatReadsZone (format : List Char) : Bool :=
  searched.any fun directive => decide (('%' :: directive) <:+: format)

/-- A text begins with a searched directive. -/
def Begins (cs : List Char) : Prop := ∃ directive ∈ searched, directive <+: cs

theorem formatReadsZone_cons (c : Char) (cs : List Char) :
    formatReadsZone (c :: cs) = true ↔ c = '%' ∧ Begins cs ∨ formatReadsZone cs = true := by
  simp only [formatReadsZone, any_eq_true, decide_eq_true_eq, infix_cons_iff, Begins,
    cons_prefix_cons]
  constructor
  · rintro ⟨directive, hmem, ⟨rfl, hprefix⟩ | hinfix⟩
    · exact .inl ⟨rfl, directive, hmem, hprefix⟩
    · exact .inr ⟨directive, hmem, hinfix⟩
  · rintro (⟨rfl, directive, hmem, hprefix⟩ | ⟨directive, hmem, hinfix⟩)
    · exact ⟨directive, hmem, .inl ⟨rfl, hprefix⟩⟩
    · exact ⟨directive, hmem, .inr hinfix⟩

theorem formatReadsZone_append {xs : List Char} (h : '%' ∉ xs) (cs : List Char) :
    formatReadsZone (xs ++ cs) = true ↔ formatReadsZone cs = true := by
  induction xs with
  | nil => rfl
  | cons x xs ih =>
    simp only [mem_cons, not_or] at h
    rw [cons_append, formatReadsZone_cons, ih h.2]
    simp [Ne.symm h.1]

theorem head_fieldSpellings : ∀ spelling ∈ fieldSpellings, '%' ∉ spelling ∧
    ∃ c ∈ spelling.head?, c ≠ 'z' ∧ c ≠ ':' ∧ c ≠ '#' ∧ c ≠ 'Z' ∧ c ≠ '+' := by
  have hall : fieldSpellings.all (fun spelling => !spelling.elem '%' &&
      spelling.head?.any fun c => (['z', ':', '#', 'Z', '+'].elem c).not) = true := by decide +kernel
  intro spelling h
  have hspelling := all_eq_true.1 hall spelling h
  cases spelling with
  | nil => simp at hspelling
  | cons c rest => simpa using hspelling

theorem begins_cons (c : Char) (cs : List Char) : Begins (c :: cs) ↔
    c = 'z' ∨ c = 'Z' ∨ c = '+' ∨ (c = ':' ∨ c = '#') ∧ cs.head? = some 'z' := by
  simp only [Begins, searched, mem_cons, not_mem_nil, or_false, exists_eq_or_imp,
    exists_eq_left, cons_prefix_cons, nil_prefix, and_true]
  cases cs with
  | nil => simp [eq_comm]
  | cons d cs =>
    simp [eq_comm]
    tauto

/-- The directive is one of those that are searched for. -/
def ZoneDirective.Searched (directive : ZoneDirective) : Prop :=
  directive ≠ .doubleColon ∧ directive ≠ .tripleColon

theorem begins_zone (directive : ZoneDirective) (cs : List Char) :
    Begins (directive.spelling ++ cs) ↔ directive.Searched := by
  cases directive <;> simp [ZoneDirective.spelling, ZoneDirective.Searched, begins_cons]

/-- The format reads a zone. -/
def ReadsZone (items : List Item) : Prop := ∃ directive, .zone directive ∈ items

/-- It has a directive that is searched for. -/
def HasSearched (items : List Item) : Prop :=
  ∃ directive : ZoneDirective, .zone directive ∈ items ∧ directive.Searched

/-- A percent sign that stands for itself is followed by the text of a searched directive. -/
def Escaped (items : List Item) : Prop :=
  ∃ before after, items = before ++ .percent :: after ∧ Begins (text after)

theorem escaped_cons (item : Item) (items : List Item) :
    Escaped (item :: items) ↔ item = .percent ∧ Begins (text items) ∨ Escaped items := by
  constructor
  · rintro ⟨before, after, heq, hbegins⟩
    cases before with
    | nil =>
      obtain ⟨rfl, rfl⟩ := List.cons.inj heq
      exact .inl ⟨rfl, hbegins⟩
    | cons first before =>
      obtain ⟨-, rfl⟩ := List.cons.inj heq
      exact .inr ⟨before, after, rfl, hbegins⟩
  · rintro (⟨rfl, hbegins⟩ | ⟨before, after, rfl, hbegins⟩)
    · exact ⟨[], items, rfl, hbegins⟩
    · exact ⟨item :: before, after, rfl, hbegins⟩

theorem hasSearched_cons (item : Item) (items : List Item) : HasSearched (item :: items) ↔
    (∃ directive : ZoneDirective, item = .zone directive ∧ directive.Searched) ∨
      HasSearched items := by
  simp only [HasSearched, mem_cons, eq_comm (a := Item.zone _), or_and_right, exists_or]

/-- **What the search finds**: a searched directive, or its text behind an escaped percent sign. -/
theorem formatReadsZone_text {items : List Item} (h : ∀ item ∈ items, item.Spelled) :
    formatReadsZone (text items) = true ↔ HasSearched items ∨ Escaped items := by
  induction items with
  | nil => simp [text, formatReadsZone, HasSearched, Escaped, searched]
  | cons item items ih =>
    obtain ⟨hitem, hitems⟩ := forall_mem_cons.1 h
    have htext : text (item :: items) = item.text ++ text items := rfl
    rw [htext, hasSearched_cons, escaped_cons]
    cases item with
    | literal c =>
      have hnot : '%' ∉ [c] := by simpa using Ne.symm hitem
      rw [Item.text, formatReadsZone_append hnot, ih hitems]
      simp
    | percent =>
      -- the first percent sign is followed by the second
      have hnot : ¬ Begins ('%' :: text items) := by
        rw [begins_cons]
        simp
      change formatReadsZone ('%' :: '%' :: text items) = true ↔ _
      rw [formatReadsZone_cons, formatReadsZone_cons, ih hitems]
      simp [hnot]
      tauto
    | field spelling =>
      obtain ⟨hpercent, c, hhead, hc⟩ := head_fieldSpellings spelling hitem
      have hnot : ¬ Begins (spelling ++ text items) := by
        cases spelling with
        | nil => cases hhead
        | cons d spelling =>
          obtain rfl : d = c := Option.some.inj hhead
          rw [cons_append, begins_cons]
          tauto
      change formatReadsZone ('%' :: (spelling ++ text items)) = true ↔ _
      rw [formatReadsZone_cons, formatReadsZone_append hpercent, ih hitems]
      simp [hnot]
    | zone directive =>
      have hpercent : '%' ∉ directive.spelling := by cases directive <;> decide
      change formatReadsZone ('%' :: (directive.spelling ++ text items)) = true ↔ _
      rw [formatReadsZone_cons, formatReadsZone_append hpercent, ih hitems, begins_zone]
      simp
      tauto

end Query
end Lvu
