import Lvu.Core.SseFraming

/-!
# Where an event stream resumes

The framer reads the `id` of an event from what is still pending when its blank line comes.  What
went out in fragments before is not looked at.

* `cutOf` : how much of an event went out before its blank line.
* `kept_iff` : when the rest of an event has the `id` of the whole.
* `resume_point_own` : **when the resume points are those of the stream**.
-/

namespace Lvu

open EventStream List

/-! ### The `id` of the rest of an event -/

/-- The last `id` of some lines. -/
def lastIdIn (lines : List (List UInt8)) : Option String := (lines.filterMap eventIdOf).getLast?

theorem lastIdIn_append (lines lines' : List (List UInt8)) :
    lastIdIn (lines ++ lines') = (lastIdIn lines').or (lastIdIn lines) := by
  simp [lastIdIn, filterMap_append, getLast?_append]

theorem lastIdIn_isSome {lines : List (List UInt8)} :
    (lastIdIn lines).isSome = true ↔ ∃ line ∈ lines, (eventIdOf line).isSome = true := by
  rw [lastIdIn, Option.isSome_iff_ne_none, ne_eq, getLast?_eq_none_iff, filterMap_eq_nil_iff]
  simp [Option.isSome_iff_ne_none]

theorem splitFrom_return_newline (line s : List UInt8) :
    splitSseLinesFrom line (13 :: 10 :: s) = line :: splitSseLinesFrom [] s := by
  simp [splitSseLinesFrom]

theorem splitFrom_return (line : List UInt8) {c : UInt8} (h : c ≠ 10) (s : List UInt8) :
    splitSseLinesFrom line (13 :: c :: s) = line :: splitSseLinesFrom [] (c :: s) := by
  rw [splitSseLinesFrom]
  simp [h]

theorem splitFrom_other (line : List UInt8) {b : UInt8} (hr : b ≠ 13) (hn : b ≠ 10) (s : List UInt8) :
    splitSseLinesFrom line (b :: s) = splitSseLinesFrom (line ++ [b]) s := by
  cases s <;> simp [splitSseLinesFrom, hr, hn]

theorem tail_splitFrom (line line' : List UInt8) (s : List UInt8) :
    (splitSseLinesFrom line s).tail = (splitSseLinesFrom line' s).tail := by
  induction s generalizing line line' with
  | nil =>
    simp only [splitSseLinesFrom]
    split_ifs <;> rfl
  | cons b rest ih =>
    by_cases hr : b = 13
    · subst hr
      cases rest with
      | nil => rfl
      | cons c rest =>
        by_cases hc : c = 10
        · subst hc
          simp [splitFrom_return_newline]
        · simp [splitFrom_return _ hc]
    · by_cases hn : b = 10
      · subst hn
        simp [splitFrom_newline]
      · rw [splitFrom_other line hr hn, splitFrom_other line' hr hn]
        exact ih _ _

theorem tail_split_cons (line : List UInt8) (b : UInt8) (s : List UInt8) :
    (splitSseLinesFrom [] s).tail <:+ (splitSseLinesFrom line (b :: s)).tail := by
  by_cases hr : b = 13
  · subst hr
    cases s with
    | nil => exact suffix_refl _
    | cons c s =>
      by_cases hc : c = 10
      · subst hc
        refine ⟨[], ?_⟩
        rw [nil_append, splitFrom_return_newline, splitFrom_newline, tail_cons, tail_cons]
      · rw [splitFrom_return _ hc]
        exact tail_suffix _
  · by_cases hn : b = 10
    · subst hn
      rw [splitFrom_newline]
      exact tail_suffix _
    · exact ⟨[], by rw [nil_append, splitFrom_other line hr hn, tail_splitFrom [] (line ++ [b])]⟩

theorem tail_split_drop (n : ℕ) (text : List UInt8) :
    (splitSseLines (text.drop n)).tail <:+ splitSseLines text := by
  have hdrop : (splitSseLines (text.drop n)).tail <:+ (splitSseLines text).tail := by
    induction n generalizing text with
    | zero => exact suffix_refl _
    | succ n ih =>
      cases text with
      | nil => exact suffix_refl _
      | cons b text => exact (ih text).trans (tail_split_cons [] b text)
  exact hdrop.trans (tail_suffix _)

/-- The `id` is kept when `n` bytes of an event are gone: a line that begins after them has one
that is acceptable, or the lines before have no other `id` than what is left of the line they were
cut in. -/
def Kept (text : List UInt8) (n : ℕ) : Prop :=
  let rest := splitSseLines (text.drop n)
  let begun := (splitSseLines text).take ((splitSseLines text).length - rest.tail.length)
  (∃ line ∈ rest.tail, (eventIdOf line).isSome = true) ∨
    lastIdIn begun = rest.head?.bind eventIdOf

instance (text : List UInt8) (n : ℕ) : Decidable (Kept text n) := inferInstanceAs (Decidable (_ ∨ _))

/-- **When the rest of an event has the `id` of the whole.** -/
theorem kept_iff (text : List UInt8) (n : ℕ) :
    Kept text n ↔ lastEventId (text.drop n) = lastEventId text := by
  obtain ⟨begun, hbegun⟩ := tail_split_drop n text
  have htake : (splitSseLines text).take ((splitSseLines text).length -
      (splitSseLines (text.drop n)).tail.length) = begun := by
    rw [← hbegun]
    simp
  have hrest : lastEventId (text.drop n) = (lastIdIn (splitSseLines (text.drop n)).tail).or
      ((splitSseLines (text.drop n)).head?.bind eventIdOf) := by
    change lastIdIn (splitSseLines (text.drop n)) = _
    cases splitSseLines (text.drop n) with
    | nil => rfl
    | cons line lines =>
      rw [← singleton_append, lastIdIn_append]
      cases h : eventIdOf line <;> simp [lastIdIn, h]
  have hwhole : lastEventId text =
      (lastIdIn (splitSseLines (text.drop n)).tail).or (lastIdIn begun) := by
    change lastIdIn (splitSseLines text) = _
    rw [← hbegun, lastIdIn_append]
  unfold Kept
  dsimp only
  rw [htake, ← lastIdIn_isSome, hrest, hwhole]
  cases lastIdIn (splitSseLines (text.drop n)).tail with
  | none => simp [eq_comm]
  | some id => simp

/-! ### Where an event is cut -/

/-- How many bytes are in no record that ended, once a line was read after `n` such bytes. -/
def reachLine (maximum n : ℕ) (line : Line) : ℕ :=
  if line.terminator.head? = some 13 ∧ maximum ∣ n + line.content.length then 0
  else n + line.bytes.length

/-- The same, once some lines were read. -/
def reach (maximum : ℕ) (lines : List Line) : ℕ := lines.foldl (reachLine maximum) 0

/-- How much of an event is pending when its blank line comes. -/
def heldOf (maximum : ℕ) (e : Event) : ℕ :=
  let n := reach maximum e.lines
  if e.terminator.head? = some 13 ∨ n = 0 then n % maximum else (n - 1) % maximum + 1

/-- How much of an event went out before its blank line. -/
def cutOf (maximum : ℕ) (e : Event) : ℕ := e.text.length - heldOf maximum e

theorem reach_snoc (maximum : ℕ) (lines : List Line) (line : Line) :
    reach maximum (lines ++ [line]) = reachLine maximum (reach maximum lines) line := by
  simp [reach]

/-- How many bytes of what was read are in no record that ended. -/
def total (maximum : ℕ) (s : Scan) : ℕ := reach maximum s.lines + s.line.length

section

variable {maximum : ℕ} {s : Scan} {b : UInt8}

theorem total_plain (s : Scan) (hs : s.ret = false) (hb : b ≠ 10) :
    total maximum (s.plain b) = total maximum s + 1 := by
  rw [Scan.plain, if_neg hb]
  split_ifs <;> simp [total, Scan.line, hs, Nat.add_assoc]

theorem total_close (h : s.content ≠ []) (t : List UInt8) :
    total maximum (s.close t) = reachLine maximum (reach maximum s.lines) ⟨s.content, t⟩ := by
  rw [Scan.close_line h, total, reach_snoc]
  simp [Scan.line]

/-- A byte that neither completes an event nor ends a line that was cut before its `\r`. -/
theorem total_byte (h : (s.byte b).events = s.events)
    (hcut : s.ret = true → s.content ≠ [] → ¬maximum ∣ reach maximum s.lines + s.content.length) :
    total maximum (s.byte b) = total maximum s + 1 := by
  have hopen : ∀ t, (s.close t).events = s.events → s.content ≠ [] := by
    intro t ht hnil
    simp [Scan.close_blank hnil] at ht
  cases hs : s.ret with
  | false =>
    simp only [Scan.byte, hs, Bool.false_eq_true, if_false] at h ⊢
    by_cases hb : b = 10
    · rw [Scan.plain, if_pos hb] at h ⊢
      rw [total_close (hopen _ h)]
      simp [reachLine, total, Scan.line, hs, Line.bytes, Nat.add_assoc]
    · exact total_plain s hs hb
  | true =>
    simp only [Scan.byte, hs, if_true] at h ⊢
    by_cases hb : b = 10
    · rw [if_pos hb] at h ⊢
      have hnot := hcut hs (hopen _ h)
      rw [total_close (hopen _ h)]
      simp [reachLine, hnot, total, Scan.line, hs, Line.bytes, Nat.add_assoc]
    · rw [if_neg hb] at h ⊢
      rw [Scan.events_plain _ hb] at h
      have hnot := hcut hs (hopen _ h)
      rw [total_plain _ (Scan.close_ret _ _) hb, total_close (hopen _ h)]
      simp [reachLine, hnot, total, Scan.line, hs, Line.bytes, Nat.add_assoc]

/-- A line that was cut before its `\r` leaves nothing. -/
theorem total_early (hs : s.ret = true) (h : s.content ≠ [])
    (hcut : maximum ∣ reach maximum s.lines + s.content.length) :
    total maximum (s.byte b) = if b = 10 then 0 else 1 := by
  rw [Scan.byte, if_pos hs]
  split_ifs with hb
  · rw [total_close h]
    simp [reachLine, hcut]
  · rw [total_plain _ (Scan.close_ret _ _) hb, total_close h]
    simp [reachLine, hcut]

theorem total_event (hnil : s.content = []) (h : (s.byte b).events ≠ s.events) :
    total maximum (s.byte b) = if s.ret = true ∧ b ≠ 10 then 1 else 0 := by
  have hzero : ∀ t, total maximum (s.close t) = 0 := by
    intro t
    simp [Scan.close_blank hnil, total, reach, Scan.line]
  cases hs : s.ret with
  | false =>
    simp only [Scan.byte, hs, Bool.false_eq_true, if_false] at h ⊢
    by_cases hb : b = 10
    · rw [Scan.plain, if_pos hb, hzero]
      simp
    · exact absurd (Scan.events_plain s hb) h
  | true =>
    simp only [Scan.byte, hs, if_true] at h ⊢
    by_cases hb : b = 10
    · rw [if_pos hb, hzero]
      simp [hb]
    · rw [if_neg hb, total_plain _ (Scan.close_ret _ _) hb, hzero]
      simp [hb]

end

namespace SseFramer

variable {io : FrameAnswers} {acquisitionId : Uuid} {fs : Frames} {maximum : ℕ} {f f' : SseFramer}
  {o : FrameOutcome} {s : Scan} {fr fr' : Frames} {id id' : Option String} {p : List UInt8} {b : UInt8}

/-- How many bytes are in no record that ended. -/
def Reaches (maximum : ℕ) (f : SseFramer) (fr : Frames) (p : List UInt8) : Prop :=
  fr.carry.length + f.pending.length = total maximum (scan p)

theorem Reaches.step (h : Reaches maximum f fr p) (hf : Follows maximum f fr (scan p))
    (hmoves : Moves f fr id (scan p) b f' fr' id') : Reaches maximum f' fr' (p ++ [b]) := by
  have hlength : (scan p).ret = true → fr.carry.length + f.pending.length =
      reach maximum (scan p).lines + (scan p).content.length + 1 := by
    intro hret
    rw [h, total, Scan.line, if_pos hret]
    simp [Nat.add_assoc]
  unfold Reaches
  rw [scan_snoc]
  cases hmoves with
  | quiet hheld hevents _ hbytes =>
    rw [total_byte hevents, ← h, ← length_append, hbytes]
    · simp [Nat.add_assoc]
    · exact fun hret hcontent hdvd =>
        hheld hret hcontent ((pending_return_iff hf hret (hlength hret)).2 hdvd)
  | event e body rest hcontent _ hevents _ hheld _ hterminated hgoes hbytes hframes hpending =>
    rw [total_event hcontent (by rw [hevents]; simp), hframes, hpending]
    have hpos := length_pos_of_ne_nil hterminated
    have hsum : e.terminator.length + rest.length = (scan p).line.length + 1 := by
      have := congrArg List.length hbytes
      rw [hheld] at this
      simp only [length_append, length_singleton] at this
      omega
    cases hret : (scan p).ret with
    | false =>
      simp only [Scan.line, hret, hcontent, append_nil, length_nil, Bool.false_eq_true,
        if_false] at hsum
      have hzero : rest.length = 0 := by omega
      simp [hzero]
    | true =>
      simp only [Scan.line, hret, hcontent, nil_append, length_singleton, if_true] at hsum
      by_cases hb : b = 10
      · simp [(hgoes hret).2 hb, hb]
      · have hrest := length_pos_of_ne_nil fun hnil => hb ((hgoes hret).1 hnil)
        simp [hb]
        omega
  | early hret hcontent hheld _ terminator rest hbytes hterminated hgoes hframes hpending =>
    rw [total_early hret hcontent ((pending_return_iff hf hret (hlength hret)).1 hheld), hframes,
      hpending]
    have hpos := length_pos_of_ne_nil hterminated
    have hsum : terminator.length + rest.length = 2 := by
      rw [← length_append, hbytes]
      rfl
    by_cases hb : b = 10
    · simp [hgoes.2 hb, hb]
    · have hpos' := length_pos_of_ne_nil fun hnil => hb (hgoes.1 hnil)
      have hone : rest.length = 1 := by omega
      simp [hb, hone]

/-- How much of an event is pending at its blank line. -/
theorem held_length (h : Reaches maximum f fr p) (hf : Follows maximum f fr (scan p)) {e : Event}
    {body : List UInt8} (hcontent : (scan p).content = []) (hlines : e.lines = (scan p).lines)
    (hheld : f.pending = body ++ (scan p).line)
    (hret : e.terminator.head? = some 13 ↔ (scan p).ret = true) :
    body.length = heldOf maximum e := by
  have hlength : f.pending.length = body.length + (scan p).line.length := by simp [hheld]
  have hfits := hf.fits
  have hreach : fr.carry.length + body.length = reach maximum e.lines := by
    rw [Reaches, total, hlength, ← hlines] at h
    omega
  obtain ⟨n, hn⟩ := hf.whole
  rw [heldOf, ← hreach, hn]
  cases hs : (scan p).ret with
  | true =>
    have hlt : body.length < maximum := by
      simp only [Scan.line, hs, hcontent, nil_append, length_singleton, if_true] at hlength
      omega
    rw [if_pos (.inl (hret.2 hs)), Nat.mul_add_mod, Nat.mod_eq_of_lt hlt]
  | false =>
    have hline : (scan p).line = [] := by simp [Scan.line, hs, hcontent]
    have hnot : ¬e.terminator.head? = some 13 := fun hhead => by simp [hret.1 hhead] at hs
    rw [hline, append_nil] at hheld
    cases body with
    | nil =>
      have hzero : maximum * n = 0 := by
        rw [← hn, hf.left hheld]
        rfl
      simp [hzero]
    | cons c body =>
      rw [if_neg (by simp [hnot]), length_cons]
      have hlt : body.length < maximum := by
        rw [hheld, length_cons] at hfits
        omega
      have hsub : maximum * n + (body.length + 1) - 1 = maximum * n + body.length := by omega
      rw [hsub, Nat.mul_add_mod, Nat.mod_eq_of_lt hlt]

/-- The `id` that is found at the blank line of an event. -/
def heldId (maximum : ℕ) (e : Event) : Option String := lastEventId (e.text.drop (cutOf maximum e))

/-- A byte reports the `id` that is found where it completes an event. -/
theorem id_step (h : Reaches maximum f fr p) (hf : Follows maximum f fr (scan p))
    (hmoves : Moves f fr id (scan p) b f' fr' id') : ∃ more,
      (scan (p ++ [b])).events = (scan p).events ++ more ∧
      id' = ((more.filterMap (heldId maximum)).getLast?).or id := by
  rw [scan_snoc]
  cases hmoves with
  | quiet _ hevents _ _ hids | early _ _ _ hevents _ _ _ _ _ _ _ hids =>
    exact ⟨[], by rw [hevents, append_nil], hids⟩
  | event e body rest hcontent hlines hevents hsuffix hheld hret _ _ _ _ _ hids =>
    refine ⟨[e], hevents, ?_⟩
    have hlength := held_length h hf hcontent hlines hheld hret
    have hbody : e.text.drop (cutOf maximum e) = body := by
      obtain ⟨front, hfront⟩ := hsuffix
      rw [cutOf, ← hlength, ← hfront]
      simp
    rw [hids, ← hbody]
    change (heldId maximum e).or id = _
    cases hid : heldId maximum e <;> simp [hid]

/-! ### Reads -/

/-- A read reports the last `id` that is found in it. -/
theorem id_push (io : FrameAnswers) (acquisitionId : Uuid) (fs : Frames) (input : List UInt8) :
    ∀ (f : SseFramer) (o : FrameOutcome) (p : List UInt8),
      Follows maximum f (fs.addAll o.records) (scan p) → Reaches maximum f (fs.addAll o.records) p →
      ∃ more, (scan (p ++ input)).events = (scan p).events ++ more ∧
        (input.foldl (pushByte io acquisitionId) (f, o)).2.lastEventId =
          ((more.filterMap (heldId maximum)).getLast?).or o.lastEventId := by
  induction input with
  | nil => exact fun f o p _ _ => ⟨[], by simp, rfl⟩
  | cons b input ih =>
    intro f o p hf hreaches
    obtain ⟨hf', hmoves⟩ := moves io acquisitionId hf b
    obtain ⟨more, hmore, hid⟩ := id_step hreaches hf hmoves
    rw [← scan_snoc] at hf'
    obtain ⟨more', hmore', hid'⟩ := ih _ _ _ hf' (hreaches.step hf hmoves)
    refine ⟨more ++ more', ?_, ?_⟩
    · rw [← append_assoc, ← hmore, ← hmore']
      simp
    · change (input.foldl (pushByte io acquisitionId) (pushByte io acquisitionId (f, o) b)).2.lastEventId
        = _
      rw [hid', hid, filterMap_append, getLast?_append, Option.or_assoc]

/-- The `id` that a read is to report: the last one of the events it completes. -/
def ownId (p input : List UInt8) : Option String :=
  ((completed p input).filterMap fun e => lastEventId e.text).getLast?

/-- What the reads that follow `p` are to report. -/
def ownIds (p : List UInt8) : List (List UInt8) → List (Option String)
  | [] => []
  | input :: rest => ownId p input :: ownIds (p ++ input) rest

/-- What the reads that follow `p` report. -/
def heldIds (maximum : ℕ) (p : List UInt8) : List (List UInt8) → List (Option String)
  | [] => []
  | input :: rest =>
    ((completed p input).filterMap (heldId maximum)).getLast? :: heldIds maximum (p ++ input) rest

theorem ids_pushAll (acquisitionId : Uuid) (reads : List (FrameAnswers × List UInt8)) :
    ∀ (f : SseFramer) (fs : Frames) (p : List UInt8), Follows maximum f fs (scan p) →
      Reaches maximum f fs p →
      (f.pushAll acquisitionId reads).1.map FrameOutcome.lastEventId =
        heldIds maximum p (reads.map Prod.snd) := by
  induction reads with
  | nil => exact fun _ _ _ _ _ => rfl
  | cons read reads ih =>
    intro f fs p hf hreaches
    obtain ⟨more, hmore, hid⟩ := id_push read.1 acquisitionId fs read.2 f
      ⟨[], none, false, false, f.maximum⟩ p hf hreaches
    obtain ⟨hf', hreaches'⟩ := push_keeps (fun _ _ _ _ _ _ _ _ hf h hmoves => h.step hf hmoves)
      read.1 acquisitionId fs read.2 f ⟨[], none, false, false, f.maximum⟩ p hf hreaches
    have hcompleted : completed p read.2 = more := by simp [completed, hmore]
    refine cons_eq_cons.2 ⟨?_, ih _ _ _ hf' hreaches'⟩
    rw [hcompleted]
    exact hid.trans Option.or_none

/-- Reads report their own where every event has its own `id`. -/
theorem heldIds_eq {inputs : List (List UInt8)} (p : List UInt8)
    (h : ∀ e ∈ completed p inputs.flatten, heldId maximum e = lastEventId e.text) :
    heldIds maximum p inputs = ownIds p inputs := by
  induction inputs generalizing p with
  | nil => rfl
  | cons input inputs ih =>
    rw [flatten_cons, completed_append] at h
    refine cons_eq_cons.2 ⟨congrArg List.getLast? (filterMap_congr fun e he => ?_), ih _ ?_⟩
    · exact h e (mem_append_left _ he)
    · exact fun e he => h e (mem_append_right _ he)

/-- Where every byte is a read of its own, no event hides another. -/
theorem heldId_eq {input : List UInt8} (p : List UInt8)
    (h : heldIds maximum p (input.map fun b => [b]) = ownIds p (input.map fun b => [b])) :
    ∀ e ∈ completed p input, heldId maximum e = lastEventId e.text := by
  induction input generalizing p with
  | nil =>
    intro e he
    simp [completed] at he
  | cons b input ih =>
    obtain ⟨hfirst, hrest⟩ := cons_eq_cons.1 h
    intro e he
    rw [← singleton_append, completed_append] at he
    obtain he | he := mem_append.1 he
    · obtain hnil | ⟨e', hone⟩ := completed_singleton p b
      · rw [hnil] at he
        exact absurd he not_mem_nil
      · rw [hone] at he
        obtain rfl := mem_singleton.1 he
        rw [ownId, hone] at hfirst
        cases hheld : heldId maximum e <;> cases hown : lastEventId e.text <;>
          simp [hheld, hown] at hfirst ⊢
        exact hfirst
    · exact ih _ hrest e he

/-- **When the resume points are those of the stream.**  Whatever the reads are, each reports the
last `id` of the events that it completes, just when every event keeps its `id` where the limit
cuts it. -/
theorem resume_point_own (h : 0 < maximum) (acquisitionId : Uuid) (stream : List UInt8) :
    (∀ reads : List (FrameAnswers × List UInt8), reads.flatMap Prod.snd = stream →
      ((SseFramer.new maximum h).pushAll acquisitionId reads).1.map FrameOutcome.lastEventId =
        ownIds [] (reads.map Prod.snd)) ↔
      ∀ e ∈ (scan stream).events, Kept e.text (cutOf maximum e) := by
  have hids : ∀ reads : List (FrameAnswers × List UInt8),
      ((SseFramer.new maximum h).pushAll acquisitionId reads).1.map FrameOutcome.lastEventId =
        heldIds maximum [] (reads.map Prod.snd) :=
    fun reads => ids_pushAll acquisitionId reads (.new maximum h) ⟨[], []⟩ [] (follows_new h) rfl
  have hall : completed [] stream = (scan stream).events := rfl
  simp only [hids, kept_iff, ← hall]
  constructor
  · intro hown
    refine heldId_eq [] ?_
    have := hown (stream.map fun b => ({}, [b])) (by simp [flatMap_map])
    rw [map_map] at this
    exact this
  · intro hkept reads hreads
    refine heldIds_eq [] ?_
    rw [← flatMap_def, hreads]
    exact hkept

/-- What the reads of an event stream report, with a limit of eight bytes. -/
def exampleIds (inputs : List (List UInt8)) : List (Option String) :=
  ((SseFramer.new 8 (Nat.succ_pos 7)).pushAll (.filled 0) (inputs.map fun input => ({}, input))).1.map
    FrameOutcome.lastEventId

/-- An event that is cut, with its `id` in its last line. -/
theorem resume_point_own_example :
    exampleIds [[100, 97, 116, 97, 58, 120, 120, 10], [105, 100, 58, 55, 10, 10]] =
      ownIds [] [[100, 97, 116, 97, 58, 120, 120, 10], [105, 100, 58, 55, 10, 10]] ∧
    ownIds [] [[100, 97, 116, 97, 58, 120, 120, 10], [105, 100, 58, 55, 10, 10]] = [none, some "7"] := by
  refine ⟨(resume_point_own (by decide) (.filled 0)
    [100, 97, 116, 97, 58, 120, 120, 10, 105, 100, 58, 55, 10, 10]).2 ?_
    [({}, [100, 97, 116, 97, 58, 120, 120, 10]), ({}, [105, 100, 58, 55, 10, 10])] rfl, ?_⟩
  · decide +kernel
  · decide +kernel

/-- **An `id` that went out in a fragment is dropped, and one is read from the middle of a line.** -/
theorem resume_point_lost :
    exampleIds [[105, 100, 58, 55, 10, 100, 97, 116, 97, 58, 120, 10, 10]] = [none] ∧
    ownIds [] [[105, 100, 58, 55, 10, 100, 97, 116, 97, 58, 120, 10, 10]] = [some "7"] ∧
    exampleIds [[100, 97, 116, 97, 58, 120, 120, 120, 105, 100, 58, 52, 10, 10]] = [some "4"] ∧
    ownIds [] [[100, 97, 116, 97, 58, 120, 120, 120, 105, 100, 58, 52, 10, 10]] = [none] := by
  refine ⟨?_, ?_, ?_, ?_⟩
  · decide +kernel
  · decide +kernel
  · decide +kernel
  · decide +kernel

end SseFramer

end Lvu
