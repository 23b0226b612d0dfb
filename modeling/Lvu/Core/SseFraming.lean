import Lvu.Core.SseFramer

/-!
# What the framer of event streams makes of a stream

* `Follows` : how the framer stands to the lines of what it has read.
* `moves` : what one byte does.
* `blank_lines_framed` : **when the records end at the blank lines of the stream**.
-/

namespace Lvu

open EventStream List

namespace SseFramer

/-! ### What the records say -/

/-- The record ends an event at a blank line. -/
def IsEnd (r : CapturedRecord) : Prop :=
  (r.chunk = .complete ∨ r.chunk = .end) ∧ r.delimiter ≠ []

instance (r : CapturedRecord) : Decidable (IsEnd r) := inferInstanceAs (Decidable (_ ∧ _))

/-- The events that records make up, each with its delimiter, and what follows the last. -/
structure Frames where
  done : List (List UInt8 × List UInt8)
  carry : List UInt8

/-- One more record. -/
def Frames.add (fs : Frames) (r : CapturedRecord) : Frames :=
  if IsEnd r then ⟨fs.done ++ [(fs.carry ++ r.bytes, r.delimiter)], []⟩
  else ⟨fs.done, fs.carry ++ r.payload⟩

/-- More records. -/
def Frames.addAll (fs : Frames) (rs : List CapturedRecord) : Frames := rs.foldl Frames.add fs

theorem Frames.addAll_snoc (fs : Frames) (rs : List CapturedRecord) (r : CapturedRecord) :
    fs.addAll (rs ++ [r]) = (fs.addAll rs).add r := by simp [Frames.addAll]

theorem Frames.addAll_append (fs : Frames) (rs rs' : List CapturedRecord) :
    fs.addAll (rs ++ rs') = (fs.addAll rs).addAll rs' := by simp [Frames.addAll]

/-- What records say from the start. -/
def frames (rs : List CapturedRecord) : Frames := Frames.addAll ⟨[], []⟩ rs

variable {io : FrameAnswers} {acquisitionId : Uuid} {fs : Frames}

theorem add_end (f : SseFramer) (fs : Frames) (place : ℕ) (bytes : List UInt8) {delimiter : List UInt8}
    (h : delimiter ≠ []) : fs.add (f.record io acquisitionId place bytes delimiter true) =
      ⟨fs.done ++ [(fs.carry ++ bytes, delimiter)], []⟩ := by
  refine if_pos ⟨?_, h⟩
  unfold record
  cases f.fragmented
  · exact .inl rfl
  · exact .inr rfl

theorem add_fragment (f : SseFramer) (fs : Frames) (place : ℕ) (bytes : List UInt8) («end» : Bool) :
    fs.add (f.record io acquisitionId place bytes [] «end») = ⟨fs.done, fs.carry ++ bytes⟩ := by
  rw [Frames.add, if_neg (fun h => h.2 rfl)]
  simp [CapturedRecord.payload, record]

/-! ### The two things that make records -/

/-- Fragments are whole multiples of the limit, and something stays pending. -/
structure Cuts (fs : Frames) (f : SseFramer) (o : FrameOutcome) (cut : List UInt8)
    (r : SseFramer × FrameOutcome) : Prop where
  bytes : cut ++ r.1.pending = f.pending
  whole : f.maximum ∣ cut.length
  fits : r.1.pending.length ≤ f.maximum
  left : f.pending ≠ [] → r.1.pending ≠ []
  lineStart : r.1.lineStart = f.lineStart - cut.length
  carriageReturn : r.1.carriageReturn = f.carriageReturn
  maximum : r.1.maximum = f.maximum
  frames : fs.addAll r.2.records = ⟨(fs.addAll o.records).done, (fs.addAll o.records).carry ++ cut⟩
  lastEventId : r.2.lastEventId = o.lastEventId

theorem enforceLimit_spec (io : FrameAnswers) (acquisitionId : Uuid) (fs : Frames) (f : SseFramer)
    (o : FrameOutcome) :
    ∃ cut, Cuts fs f o cut (f.enforceLimit io acquisitionId o) := by
  induction f, o using enforceLimit.induct io acquisitionId with
  | case1 f o hlt bytes ih =>
    rw [enforceLimit, dif_pos hlt]
    obtain ⟨cut, h⟩ := ih
    have hlen : bytes.length = f.maximum := by simp [bytes]; omega
    refine ⟨bytes ++ cut, ?_, ?_, h.fits, fun _ => h.left ?_, ?_, h.carriageReturn, h.maximum, ?_,
      h.lastEventId⟩
    · rw [append_assoc, h.bytes]
      exact take_append_drop _ _
    · rw [length_append, hlen]
      exact (Nat.dvd_add_right (Nat.dvd_refl _)).2 h.whole
    · intro hnil
      have := congrArg List.length hnil
      simp only [length_drop, length_nil] at this
      omega
    · rw [h.lineStart, length_append, hlen, Nat.sub_sub]
    · rw [h.frames, Frames.addAll_snoc, add_fragment, append_assoc]
  | case2 f o hle =>
    rw [enforceLimit, dif_neg hle]
    exact ⟨[], rfl, Nat.dvd_zero _, Nat.le_of_not_lt hle, fun h => h, rfl, rfl, rfl, by simp, rfl⟩

/-- What the end of a line does: it is blank, its event went out before it, or neither. -/
inductive Closes (fs : Frames) (f : SseFramer) (o : FrameOutcome) (body terminator : List UInt8) :
    SseFramer × FrameOutcome → Prop
  | event {o' : FrameOutcome}
      (start : f.lineStart = body.length)
      (frames : fs.addAll o'.records = ⟨(fs.addAll o.records).done ++
        [((fs.addAll o.records).carry ++ body, terminator)], []⟩)
      (lastEventId : o'.lastEventId = (lastEventId body).or o.lastEventId) :
      Closes fs f o body terminator ({ f with pending := [], lineStart := 0, fragmented := false }, o')
  | line (start : f.lineStart ≠ body.length) :
      Closes fs f o body terminator ({ f with lineStart := f.pending.length }, o)

variable {body terminator : List UInt8} {b : UInt8}

theorem closeLine_spec {f : SseFramer} (o : FrameOutcome)
    (hpending : f.pending = body ++ terminator) (hterminator : terminator ≠ []) :
    Closes fs f o body terminator (f.closeLine io acquisitionId terminator.length o) := by
  have hend : f.pending.length - terminator.length = body.length := by simp [hpending]
  unfold closeLine
  simp only [hend]
  by_cases h : body.length = f.lineStart
  · rw [if_pos h]
    refine .event h.symm ?_ ?_
    · rw [Frames.addAll_snoc, hpending, take_left, drop_left, take_length]
      exact add_end _ _ _ _ hterminator
    · rw [hpending, take_left]
  · rw [if_neg h]
    exact .line (Ne.symm h)

/-! ### What one byte does -/

/-- What is pending is the end of the open event; the records before it are whole multiples of the
limit. -/
structure Tracks (maximum : ℕ) (f : SseFramer) (fr : Frames) (s : Scan) : Prop where
  maximum_eq : f.maximum = maximum
  held : f.pending <:+ s.text ++ s.line
  lineStart : f.lineStart = f.pending.length - s.line.length
  ret : f.carriageReturn = s.ret
  whole : maximum ∣ fr.carry.length
  left : f.pending = [] → fr.carry = []
  line : s.line ≠ [] → f.pending ≠ []

/-- The limit is kept too. -/
structure Follows (maximum : ℕ) (f : SseFramer) (fr : Frames) (s : Scan) : Prop
    extends Tracks maximum f fr s where
  fits : f.pending.length ≤ maximum

variable {maximum : ℕ} {f : SseFramer} {o : FrameOutcome} {s : Scan}

/-- Fragments go out. -/
theorem Tracks.enforce (h : Tracks maximum f (fs.addAll o.records) s) (io : FrameAnswers)
    (acquisitionId : Uuid) :
    let r := f.enforceLimit io acquisitionId o
    Follows maximum r.1 (fs.addAll r.2.records) s ∧
      (fs.addAll r.2.records).done = (fs.addAll o.records).done ∧
      (fs.addAll r.2.records).carry ++ r.1.pending = (fs.addAll o.records).carry ++ f.pending ∧
      r.2.lastEventId = o.lastEventId := by
  intro r
  obtain ⟨cut, hcut⟩ := enforceLimit_spec io acquisitionId fs f o
  have hlength : cut.length + r.1.pending.length = f.pending.length := by
    rw [← length_append]
    exact congrArg List.length hcut.bytes
  have hmax := h.maximum_eq
  refine ⟨⟨⟨hcut.maximum.trans hmax, ?_, ?_, hcut.carriageReturn.trans h.ret, ?_, fun hnil => ?_,
    fun hline => hcut.left (h.line hline)⟩, hmax ▸ hcut.fits⟩, ?_, ?_, hcut.lastEventId⟩
  · exact (suffix_append_of_suffix (suffix_refl _)).trans (hcut.bytes ▸ h.held)
  · rw [hcut.lineStart, h.lineStart]
    omega
  · rw [hcut.frames, length_append]
    exact (Nat.dvd_add_right h.whole).2 (hmax ▸ hcut.whole)
  · have hempty : f.pending = [] := by
      by_contra hne
      exact hcut.left hne hnil
    have hcutnil : cut = [] := by
      have := hcut.bytes
      rw [hempty] at this
      exact (append_eq_nil_iff.1 this).1
    rw [hcut.frames, h.left hempty, hcutnil]
    rfl
  · rw [hcut.frames]
  · rw [hcut.frames, append_assoc, hcut.bytes]

/-- A line ends: a blank one completes the event, one that went out is taken for blank, and any
other is kept. -/
inductive Ended (fr : Frames) (id : Option String) (s : Scan) (f : SseFramer)
    (body terminator : List UInt8) (f' : SseFramer) (fr' : Frames) (id' : Option String) : Prop
  | blank (content : s.content = []) (pending : f'.pending = [])
      (frames : fr' = ⟨fr.done ++ [(fr.carry ++ body, terminator)], []⟩)
      (ids : id' = (lastEventId body).or id)
  | early (content : s.content ≠ []) (body : body = []) (pending : f'.pending = [])
      (frames : fr' = ⟨fr.done ++ [(fr.carry, terminator)], []⟩) (ids : id' = id)
  | line (content : s.content ≠ []) (body : body ≠ []) (pending : f'.pending = f.pending)
      (frames : fr' = fr) (ids : id' = id)

theorem close_tracks (io : FrameAnswers) (acquisitionId : Uuid) (fs : Frames) (f : SseFramer)
    (o : FrameOutcome) (hmax : f.maximum = maximum) (hpending : f.pending = body ++ terminator)
    (hterminator : terminator ≠ []) (hbody : body <:+ s.text ++ s.content)
    (hstart : f.lineStart = body.length - s.content.length) (hret : f.carriageReturn = false)
    (hwhole : maximum ∣ (fs.addAll o.records).carry.length) :
    let r := f.closeLine io acquisitionId terminator.length o
    Tracks maximum r.1 (fs.addAll r.2.records) (s.close terminator) ∧
      Ended (fs.addAll o.records) o.lastEventId s f body terminator r.1 (fs.addAll r.2.records)
        r.2.lastEventId := by
  intro r
  have hspec : Closes fs f o body terminator r := closeLine_spec o hpending hterminator
  have hline : (s.close terminator).line = [] := by simp [Scan.line]
  generalize r = r' at hspec ⊢
  cases hspec with
  | @event o' hzero hframes hid =>
    refine ⟨⟨hmax, nil_suffix, by simp [hline], hret.trans (by simp), ?_, fun _ => ?_,
      fun hne => absurd hline hne⟩, ?_⟩
    · rw [hframes]
      exact Nat.dvd_zero _
    · rw [hframes]
    · by_cases hcontent : s.content = []
      · exact .blank hcontent rfl hframes hid
      · have hpos := length_pos_of_ne_nil hcontent
        have hnil : body = [] := eq_nil_of_length_eq_zero (by omega)
        subst hnil
        refine .early hcontent rfl rfl ?_ hid
        rw [hframes, append_nil]
  | line hne =>
    have hcontent : s.content ≠ [] := by
      intro hnil
      rw [hstart, hnil] at hne
      exact hne (Nat.sub_zero _)
    have hbodyne : body ≠ [] := by
      rintro rfl
      rw [hstart] at hne
      exact hne (Nat.zero_sub _)
    refine ⟨⟨hmax, ?_, ?_, hret.trans (by simp), hwhole, fun hnil => ?_, fun hne => absurd hline hne⟩,
      .line hcontent hbodyne rfl rfl rfl⟩
    · rw [hline, append_nil, Scan.close_line hcontent]
      simp only [Scan.text, flatMap_append, flatMap_singleton, Line.bytes]
      rw [hpending, ← append_assoc]
      obtain ⟨front, hfront⟩ := hbody
      exact ⟨front, by rw [← append_assoc, hfront]; rfl⟩
    · simp [hline]
    · rw [hpending] at hnil
      exact absurd (append_eq_nil_iff.1 hnil).2 hterminator

/-- **What one byte does**: nothing shows, an event is completed, or the terminator of a line whose
bytes all went out is taken for a blank line. -/
inductive Moves (f : SseFramer) (fr : Frames) (id : Option String) (s : Scan) (b : UInt8)
    (f' : SseFramer) (fr' : Frames) (id' : Option String) : Prop
  | quiet (held : s.ret = true → s.content ≠ [] → f.pending ≠ [13])
      (events : (s.byte b).events = s.events) (done : fr'.done = fr.done)
      (bytes : fr'.carry ++ f'.pending = fr.carry ++ f.pending ++ [b]) (ids : id' = id)
  | event (e : Event) (body rest : List UInt8) (content : s.content = []) (lines : e.lines = s.lines)
      (events : (s.byte b).events = s.events ++ [e]) (suffix : body <:+ e.text)
      (held : f.pending = body ++ s.line) (ret : e.terminator.head? = some 13 ↔ s.ret = true)
      (terminated : e.terminator ≠ []) (goesOn : s.ret = true → (rest = [] ↔ b = 10))
      (bytes : body ++ e.terminator ++ rest = f.pending ++ [b])
      (frames : fr' = ⟨fr.done ++ [(fr.carry ++ body, e.terminator)], []⟩)
      (pending : f'.pending = rest) (ids : id' = (lastEventId body).or id)
  | early (ret : s.ret = true) (content : s.content ≠ []) (held : f.pending = [13])
      (events : (s.byte b).events = s.events) (terminator rest : List UInt8)
      (bytes : terminator ++ rest = [13, b]) (terminated : terminator ≠ [])
      (goesOn : rest = [] ↔ b = 10)
      (frames : fr' = ⟨fr.done ++ [(fr.carry, terminator)], []⟩) (pending : f'.pending = rest)
      (ids : id' = id)

theorem Tracks.hold (h : Tracks maximum f fs s) {s' : Scan} {ret : Bool} (htext : s'.text = s.text)
    (hline : s'.line = s.line ++ [b]) (hret : s'.ret = ret) :
    Tracks maximum { f.hold b with carriageReturn := ret } fs s' := by
  obtain ⟨front, hfront⟩ := h.held
  refine ⟨h.maximum_eq, ⟨front, ?_⟩, ?_, hret.symm, h.whole, fun hnil => ?_, fun _ hnil => ?_⟩
  · change front ++ (f.pending ++ [b]) = _
    rw [htext, hline, ← append_assoc, hfront, append_assoc]
  · change f.lineStart = (f.pending ++ [b]).length - _
    rw [h.lineStart, hline, length_append, length_append]
    simp only [length_singleton]
    omega
  · exact absurd hnil (by simp [SseFramer.hold])
  · exact absurd hnil (by simp [SseFramer.hold])

/-- A byte that ends no line. -/
theorem Follows.plain (h : Follows maximum f (fs.addAll o.records) s) (io : FrameAnswers)
    (acquisitionId : Uuid) (hs : s.ret = false) (hb : b ≠ 10) :
    let r := f.pushPlain io acquisitionId o b
    Follows maximum r.1 (fs.addAll r.2.records) (s.plain b) ∧ (s.plain b).events = s.events ∧
      (fs.addAll r.2.records).done = (fs.addAll o.records).done ∧
      (fs.addAll r.2.records).carry ++ r.1.pending =
        (fs.addAll o.records).carry ++ f.pending ++ [b] ∧
      r.2.lastEventId = o.lastEventId := by
  intro r
  have hnot : f.carriageReturn = false := h.ret.trans hs
  by_cases hr : b = 13
  · have hplain : s.plain b = { s with ret := true } := by rw [Scan.plain, if_neg hb, if_pos hr]
    have hheld : Tracks maximum { f.hold b with carriageReturn := true } (fs.addAll o.records)
        (s.plain b) := by
      refine h.toTracks.hold ?_ ?_ ?_
      · rw [hplain]
        rfl
      · rw [hplain]
        simp [Scan.line, hs, hr]
      · rw [hplain]
    have hr' : r = enforceLimit io acquisitionId { f.hold b with carriageReturn := true } o := if_pos hr
    obtain ⟨hfollows, hdone, hbytes, hid⟩ := hheld.enforce io acquisitionId
    rw [hr']
    exact ⟨hfollows, by rw [hplain], hdone, hbytes.trans (append_assoc _ _ _).symm, hid⟩
  · have hplain : s.plain b = { s with content := s.content ++ [b] } := by
      rw [Scan.plain, if_neg hb, if_neg hr]
    have hheld : Tracks maximum (f.hold b) (fs.addAll o.records) (s.plain b) := by
      have hsame : f.hold b = { f.hold b with carriageReturn := false } := by
        rw [← hnot]
        rfl
      rw [hsame]
      refine h.toTracks.hold ?_ ?_ ?_
      · rw [hplain]
        rfl
      · simp [hplain, Scan.line, hs]
      · rw [hplain]
        exact hs
    have hr' : r = (f.hold b).enforceLimit io acquisitionId o := by
      simp only [r, pushPlain, if_neg hr, if_neg hb]
    obtain ⟨hfollows, hdone, hbytes, hid⟩ := hheld.enforce io acquisitionId
    rw [hr']
    exact ⟨hfollows, by rw [hplain], hdone, hbytes.trans (append_assoc _ _ _).symm, hid⟩

theorem carry_nil {carry pending rest : List UInt8} (h : carry ++ pending = rest)
    (hrest : rest.length ≤ 1) (hleft : pending = [] → carry = []) : carry = [] ∧ pending = rest := by
  cases pending with
  | nil =>
    rw [hleft rfl] at h
    exact ⟨hleft rfl, h⟩
  | cons c pending =>
    have hlength := congrArg List.length h
    simp only [length_append, length_cons] at hlength
    have hnil : carry = [] := eq_nil_of_length_eq_zero (by omega)
    rw [hnil] at h
    exact ⟨hnil, h⟩

/-- A line ended by a byte, or before it. -/
theorem Ended.moves {fr fr₁ fr₂ : Frames} {id id₁ id₂ : Option String} {f₀ f₁ f₂ : SseFramer}
    (rest : List UInt8) (h : Ended fr id s f₀ body terminator f₁ fr₁ id₁)
    (hpending : f₀.pending = body ++ terminator) (hterminator : terminator ≠ [])
    (hevents : (s.byte b).events = (s.close terminator).events)
    (hbytes : body ++ terminator ++ rest = f.pending ++ [b]) (hrest : rest.length ≤ 1)
    (hsuffix : body <:+ s.text ++ s.content) (hheld : s.content = [] → f.pending = body ++ s.line)
    (hret : terminator.head? = some 13 ↔ s.ret = true) (hgoes : s.ret = true → (rest = [] ↔ b = 10))
    (hearly : s.content ≠ [] → body = [] → s.ret = true ∧ f.pending = [13])
    (hquiet : s.ret = true → body ≠ [] → f.pending ≠ [13]) (hdone : fr₂.done = fr₁.done)
    (hcarry : fr₂.carry ++ f₂.pending = fr₁.carry ++ f₁.pending ++ rest)
    (hleft : f₂.pending = [] → fr₂.carry = []) (hid : id₂ = id₁) :
    Moves f fr id s b f₂ fr₂ id₂ := by
  obtain ⟨done, carry⟩ := fr₂
  cases h with
  | blank hcontent hnil hframes hids =>
    rw [hframes, hnil] at hcarry
    obtain ⟨rfl, hrest'⟩ := carry_nil hcarry hrest hleft
    refine .event ⟨s.lines, terminator⟩ body rest hcontent rfl ?_ ?_ (hheld hcontent) hret
      hterminator hgoes hbytes ?_ hrest'
      (hid.trans hids)
    · rw [hevents, Scan.close_blank hcontent]
    · rw [hcontent, append_nil] at hsuffix
      exact hsuffix
    · obtain rfl : done = fr₁.done := hdone
      rw [hframes]
  | early hcontent hbody hnil hframes hids =>
    rw [hframes, hnil] at hcarry
    obtain ⟨rfl, hrest'⟩ := carry_nil hcarry hrest hleft
    obtain ⟨hret', hheld⟩ := hearly hcontent hbody
    refine .early hret' hcontent hheld ?_ terminator rest ?_ hterminator (hgoes hret') ?_ hrest'
      (hid.trans hids)
    · rw [hevents, Scan.close_line hcontent]
    · rw [hbody, hheld] at hbytes
      exact hbytes
    · obtain rfl : done = fr₁.done := hdone
      rw [hframes]
  | line hcontent hbody hsame hframes hids =>
    refine .quiet (fun hret _ => hquiet hret hbody) ?_ (hdone.trans (by rw [hframes])) ?_ (hid.trans hids)
    · rw [hevents, Scan.close_line hcontent]
    · refine hcarry.trans ?_
      rw [hframes, hsame, hpending, append_assoc, hbytes, append_assoc]

/-- What is pending after a `\r` ends with it. -/
theorem Tracks.pending_return (h : Tracks maximum f fs s) (hs : s.ret = true) :
    ∃ body, f.pending = body ++ [13] ∧ body <:+ s.text ++ s.content ∧
      f.lineStart = body.length - s.content.length := by
  have hline : s.line = s.content ++ [13] := by simp [Scan.line, hs]
  have hne := h.line (by simp [hline])
  obtain ⟨front, hfront⟩ := h.held
  obtain hnil | ⟨body, last, hlast⟩ := eq_nil_or_concat f.pending
  · exact absurd hnil hne
  rw [hlast, hline, concat_eq_append, ← append_assoc, ← append_assoc] at hfront
  obtain ⟨hbody, hthirteen⟩ := append_inj' hfront rfl
  obtain rfl : last = 13 := by simpa using hthirteen
  rw [concat_eq_append] at hlast
  refine ⟨body, hlast, ⟨front, hbody⟩, ?_⟩
  rw [h.lineStart, hlast, hline]
  simp

variable (io acquisitionId) in
/-- **What one byte does.** -/
theorem moves (h : Follows maximum f (fs.addAll o.records) s) (b : UInt8) :
    let r := pushByte io acquisitionId (f, o) b
    Follows maximum r.1 (fs.addAll r.2.records) (s.byte b) ∧
      Moves f (fs.addAll o.records) o.lastEventId s b r.1 (fs.addAll r.2.records) r.2.lastEventId := by
  intro r
  cases hs : s.ret with
  | false =>
    have hnot : f.carriageReturn = false := h.ret.trans hs
    have hbyte : s.byte b = s.plain b := by simp [Scan.byte, hs]
    have hr : r = f.pushPlain io acquisitionId o b := by simp [r, pushByte, hnot]
    by_cases hb : b = 10
    · -- the byte ends the line
      subst hb
      have hclose : s.plain 10 = s.close [10] := if_pos rfl
      have hline : s.line = s.content := by simp [Scan.line, hs]
      obtain ⟨htracks, hended⟩ := close_tracks io acquisitionId fs
        (f.hold 10) o h.maximum_eq rfl (by simp) (hline ▸ h.held)
        (hline ▸ h.lineStart) hnot h.whole
      obtain ⟨hfollows, hdone, hcarry, hid⟩ :=
        htracks.enforce io acquisitionId
      rw [hr, hbyte, hclose]
      refine ⟨hfollows, hended.moves [] rfl (by simp) (by rw [hbyte, hclose]) (append_nil _) (by simp)
        (hline ▸ h.held) (fun hcontent => ?_) (by simp [hs]) (fun _ => by simp) (fun hcontent hnil => ?_) (fun hret => ?_) hdone ?_
        hfollows.left hid⟩
      · rw [hline, hcontent, append_nil]
      · exact absurd hnil (h.line (hline ▸ hcontent))
      · rw [hs] at hret
        cases hret
      · rw [append_nil]
        exact hcarry
    · obtain ⟨hfollows, hevents, hdone, hbytes, hid⟩ := h.plain io acquisitionId hs hb
      rw [hr, hbyte]
      refine ⟨hfollows, .quiet (fun hret => ?_) (hbyte ▸ hevents) hdone hbytes hid⟩
      rw [hs] at hret
      cases hret
  | true =>
    have hyes : f.carriageReturn = true := h.ret.trans hs
    obtain ⟨body, hpending, hbody, hstart⟩ := h.pending_return hs
    have hheld' : s.content = [] → f.pending = body ++ s.line := by
      intro hcontent
      simp [hpending, Scan.line, hs, hcontent]
    have hearly : s.content ≠ [] → body = [] → s.ret = true ∧ f.pending = [13] := by
      rintro - rfl
      exact ⟨hs, hpending⟩
    have hquiet : s.ret = true → body ≠ [] → f.pending ≠ [13] := by
      intro _ hne heq
      rw [heq] at hpending
      exact hne (by simpa using hpending)
    by_cases hb : b = 10
    · -- the byte belongs to the terminator
      subst hb
      have hbyte : s.byte 10 = s.close [13, 10] := by simp [Scan.byte, hs]
      have hheld : (f.pending ++ [10] : List UInt8) = body ++ [13, 10] := by simp [hpending]
      obtain ⟨htracks, hended⟩ := close_tracks io acquisitionId fs
        ({ f.hold 10 with carriageReturn := false }) o h.maximum_eq hheld
        (by simp) hbody hstart rfl h.whole
      obtain ⟨hfollows, hdone, hcarry, hid⟩ :=
        htracks.enforce io acquisitionId
      have hr : r = (({ f.hold 10 with carriageReturn := false } : SseFramer).closeLine io acquisitionId
          2 o).1.enforceLimit io acquisitionId (({ f.hold 10 with carriageReturn := false } :
          SseFramer).closeLine io acquisitionId 2 o).2 := by
        simp [r, pushByte, hyes, SseFramer.hold]
      rw [hr, hbyte]
      refine ⟨hfollows, hended.moves [] hheld (by simp) (by rw [hbyte]) ?_ (by simp) hbody hheld'
        (by simp [hs]) (fun _ => by simp) hearly hquiet hdone ?_ hfollows.left hid⟩
      · rw [append_nil, hheld]
      · rw [append_nil]
        exact hcarry
    · -- the `\r` alone ended the line
      have hbyte : s.byte b = (s.close [13]).plain b := by simp [Scan.byte, hs, hb]
      obtain ⟨htracks, hended⟩ := close_tracks io acquisitionId fs
        ({ f with carriageReturn := false }) o h.maximum_eq hpending (by simp)
        hbody hstart rfl h.whole
      have hfits : (({ f with carriageReturn := false } : SseFramer).closeLine io acquisitionId 1
          o).1.pending.length ≤ maximum := by
        obtain ⟨-, hnil⟩ | ⟨-, -, hnil⟩ | ⟨-, -, hsame⟩ := hended
        · exact Nat.le_trans (Nat.le_of_eq (congrArg List.length hnil)) (Nat.zero_le _)
        · exact Nat.le_trans (Nat.le_of_eq (congrArg List.length hnil)) (Nat.zero_le _)
        · exact Nat.le_trans (Nat.le_of_eq (congrArg List.length hsame)) h.fits
      obtain ⟨hfollows, hevents, hdone, hcarry, hid⟩ :=
        Follows.plain ⟨htracks, hfits⟩ io acquisitionId (Scan.close_ret s _) hb
      have hr : r = (({ f with carriageReturn := false } : SseFramer).closeLine io acquisitionId
          1 o).1.pushPlain io acquisitionId (({ f with carriageReturn := false } :
          SseFramer).closeLine io acquisitionId 1 o).2 b := by
        simp [r, pushByte, hyes, hb]
      rw [hr, hbyte]
      refine ⟨hfollows, hended.moves [b] hpending (by simp) (by rw [hbyte, hevents]) ?_ (by simp) hbody
        hheld' (by simp [hs]) (fun _ => by simp [hb]) hearly hquiet hdone hcarry hfollows.left hid⟩
      rw [hpending]

/-! ### Runs -/

/-- What is kept by every byte is kept by every read. -/
theorem push_keeps {I : SseFramer → Frames → List UInt8 → Prop}
    (hstep : ∀ f fr id p b f' fr' id', Follows maximum f fr (scan p) → I f fr p →
      Moves f fr id (scan p) b f' fr' id' → I f' fr' (p ++ [b]))
    (io : FrameAnswers) (acquisitionId : Uuid) (fs : Frames) (input : List UInt8) :
    ∀ (f : SseFramer) (o : FrameOutcome) (p : List UInt8),
      Follows maximum f (fs.addAll o.records) (scan p) → I f (fs.addAll o.records) p →
      let r := input.foldl (pushByte io acquisitionId) (f, o)
      Follows maximum r.1 (fs.addAll r.2.records) (scan (p ++ input)) ∧
        I r.1 (fs.addAll r.2.records) (p ++ input) := by
  induction input with
  | nil =>
    intro f o p hf hI
    rw [append_nil]
    exact ⟨hf, hI⟩
  | cons b input ih =>
    intro f o p hf hI
    obtain ⟨hf', hmoves⟩ := moves io acquisitionId hf b
    rw [← scan_snoc] at hf'
    have := ih _ _ _ hf' (hstep _ _ _ _ _ _ _ _ hf hI hmoves)
    rw [append_assoc] at this
    exact this

/-- What is kept by every byte is kept by every sequence of reads. -/
theorem pushAll_keeps {I : SseFramer → Frames → List UInt8 → Prop}
    (hstep : ∀ f fr id p b f' fr' id', Follows maximum f fr (scan p) → I f fr p →
      Moves f fr id (scan p) b f' fr' id' → I f' fr' (p ++ [b]))
    (acquisitionId : Uuid) (reads : List (FrameAnswers × List UInt8)) :
    ∀ (f : SseFramer) (fs : Frames) (p : List UInt8), Follows maximum f fs (scan p) → I f fs p →
      let r := f.pushAll acquisitionId reads
      Follows maximum r.2 (fs.addAll (r.1.flatMap FrameOutcome.records))
          (scan (p ++ reads.flatMap Prod.snd)) ∧
        I r.2 (fs.addAll (r.1.flatMap FrameOutcome.records)) (p ++ reads.flatMap Prod.snd) := by
  induction reads with
  | nil =>
    intro f fs p hf hI
    simp only [flatMap_nil, append_nil]
    exact ⟨hf, hI⟩
  | cons read reads ih =>
    intro f fs p hf hI
    obtain ⟨hf', hI'⟩ := push_keeps hstep read.1 acquisitionId fs read.2 f
      ⟨[], none, false, false, f.maximum⟩ p hf hI
    have := ih _ _ _ hf' hI'
    dsimp only at this
    rw [← Frames.addAll_append, append_assoc] at this
    exact this

theorem follows_new (h : 0 < maximum) : Follows maximum (.new maximum h) ⟨[], []⟩ (scan []) :=
  ⟨⟨rfl, nil_suffix, rfl, rfl, Nat.dvd_zero _, fun _ => rfl, fun hne => absurd rfl hne⟩,
    Nat.zero_le _⟩

/-! ### Blank lines -/

/-- What an event says, and the terminator of its blank line. -/
def said (e : Event) : List UInt8 × List UInt8 := (e.text, e.terminator)

/-- The limit cuts a line right before the `\r` that ends it: the `\r` stands a whole number of
limits after the start of its event, and a byte follows it. -/
def CutAtReturn (maximum : ℕ) (stream : List UInt8) : Prop :=
  ∃ p b rest, stream = p ++ b :: rest ∧ (scan p).ret = true ∧ (scan p).content ≠ [] ∧
    maximum ∣ ((scan p).text ++ (scan p).content).length

/-- The stream ends with a `\r` that is a blank line. -/
def EndsInReturn (stream : List UInt8) : Prop :=
  (scan stream).ret = true ∧ (scan stream).content = []

theorem cutAtReturn_snoc {p : List UInt8} : CutAtReturn maximum (p ++ [b]) ↔
    CutAtReturn maximum p ∨ ((scan p).ret = true ∧ (scan p).content ≠ [] ∧
      maximum ∣ ((scan p).text ++ (scan p).content).length) := by
  constructor
  · rintro ⟨p', b', rest, heq, hcut⟩
    obtain rfl | ⟨rest', last, rfl⟩ := eq_nil_or_concat rest
    · obtain ⟨rfl, -⟩ := append_inj' heq rfl
      exact .inr hcut
    · rw [concat_eq_append, ← cons_append, ← append_assoc] at heq
      obtain ⟨rfl, -⟩ := append_inj' heq rfl
      exact .inl ⟨p', b', rest', rfl, hcut⟩
  · rintro (⟨p', b', rest, rfl, hcut⟩ | hcut)
    · exact ⟨p', b', rest ++ [b], by simp, hcut⟩
    · exact ⟨p, b, [], rfl, hcut⟩

theorem cutAtReturn_iff {stream : List UInt8} : CutAtReturn maximum stream ↔
    ∃ n < stream.length, (scan (stream.take n)).ret = true ∧ (scan (stream.take n)).content ≠ [] ∧
      maximum ∣ ((scan (stream.take n)).text ++ (scan (stream.take n)).content).length := by
  constructor
  · rintro ⟨p, b, rest, rfl, hcut⟩
    exact ⟨p.length, by simp, by simpa using hcut⟩
  · rintro ⟨n, hn, hcut⟩
    exact ⟨stream.take n, stream[n], stream.drop (n + 1), by simp, hcut⟩

instance (stream : List UInt8) : Decidable (CutAtReturn maximum stream) :=
  decidable_of_iff _ cutAtReturn_iff.symm

instance (stream : List UInt8) : Decidable (EndsInReturn stream) :=
  inferInstanceAs (Decidable (_ ∧ _))

/-- The records say what the events say. -/
structure InStep (maximum : ℕ) (f : SseFramer) (fr : Frames) (p : List UInt8) : Prop where
  whole : ¬CutAtReturn maximum p
  done : fr.done = (scan p).events.map said
  bytes : fr.carry ++ f.pending = (scan p).text ++ (scan p).line

/-- Some record ended before its event. -/
structure Diverged (maximum : ℕ) (fr : Frames) (p : List UInt8) : Prop where
  cut : CutAtReturn maximum p
  early : ∃ before x later tail, fr.done = before ++ x :: later ∧
    (scan p).events.map said = before ++ tail ∧
    (tail = [] → x.1.length < (scan p).text.length) ∧
    ∀ e rest, tail = e :: rest → x.1.length < e.1.length

theorem bytes_same {s : Scan} (h : (s.byte b).events = s.events) :
    (s.byte b).text ++ (s.byte b).line = s.text ++ s.line ++ [b] := by
  have hbytes := Scan.byte_bytes s b
  simp only [Scan.bytes, h, append_assoc] at hbytes
  rw [append_assoc]
  exact append_cancel_left hbytes

theorem bytes_event {s : Scan} {e : Event} (h : (s.byte b).events = s.events ++ [e]) :
    e.text ++ e.terminator ++ ((s.byte b).text ++ (s.byte b).line) = s.text ++ s.line ++ [b] := by
  have hbytes := Scan.byte_bytes s b
  simp only [Scan.bytes, h, append_assoc, flatMap_append, flatMap_singleton] at hbytes
  simp only [append_assoc]
  exact append_cancel_left hbytes

/-- A `\r` is all that is pending just when the limit cut its line before it. -/
theorem pending_return_iff {fr : Frames} (h : Follows maximum f fr s) (hs : s.ret = true) {n : ℕ}
    (hn : fr.carry.length + f.pending.length = n + 1) : f.pending = [13] ↔ maximum ∣ n := by
  obtain ⟨body, hpending, -, -⟩ := h.pending_return hs
  have hlength : f.pending.length = body.length + 1 := by simp [hpending]
  have hfits := h.fits
  obtain rfl : n = fr.carry.length + body.length := by omega
  rw [Nat.dvd_add_right h.whole, hpending]
  constructor
  · intro heq
    have hnil : body = [] := by simpa using heq
    simp [hnil]
  · intro hdvd
    have hzero : body.length = 0 := Nat.eq_zero_of_dvd_of_lt hdvd (by omega)
    rw [eq_nil_of_length_eq_zero hzero]
    rfl

/-- One byte more keeps the records in step, or cuts one off. -/
theorem InStep.step {fr fr' : Frames} {id id' : Option String} {p : List UInt8} {b : UInt8}
    {f' : SseFramer} (h : InStep maximum f fr p) (hf : Follows maximum f fr (scan p))
    (hmoves : Moves f fr id (scan p) b f' fr' id') :
    InStep maximum f' fr' (p ++ [b]) ∨ Diverged maximum fr' (p ++ [b]) := by
  have hlength : (scan p).ret = true →
      fr.carry.length + f.pending.length = ((scan p).text ++ (scan p).content).length + 1 := by
    intro hret
    rw [← length_append, h.bytes, Scan.line, if_pos hret, ← append_assoc]
    exact length_append
  cases hmoves with
  | quiet hheld hevents hdone hbytes =>
    refine .inl ⟨fun hcut => ?_, ?_, ?_⟩
    · obtain hcut | ⟨hret, hcontent, hdvd⟩ := cutAtReturn_snoc.1 hcut
      · exact h.whole hcut
      · exact hheld hret hcontent ((pending_return_iff hf hret (hlength hret)).2 hdvd)
    · rw [scan_snoc, hevents, hdone, h.done]
    · rw [scan_snoc, bytes_same hevents, hbytes, h.bytes]
  | event e body rest hcontent hlines hevents hsuffix hheld _ _ _ hbytes hframes hpending =>
    have htext : e.text = (scan p).text := congrArg (List.flatMap Line.bytes) hlines
    have hcarry : fr.carry ++ body = (scan p).text := by
      have := h.bytes
      rw [hheld, ← append_assoc] at this
      exact append_cancel_right this
    refine .inl ⟨fun hcut => ?_, ?_, ?_⟩
    · obtain hcut | ⟨-, hne, -⟩ := cutAtReturn_snoc.1 hcut
      · exact h.whole hcut
      · exact hne hcontent
    · rw [scan_snoc, hevents, hframes, map_append, h.done, hcarry, ← htext]
      rfl
    · have hafter := bytes_event hevents
      have hrest : (scan p).text ++ e.terminator ++
            (((scan p).byte b).text ++ ((scan p).byte b).line) =
          (scan p).text ++ e.terminator ++ rest := by
        calc _ = (scan p).text ++ (scan p).line ++ [b] := htext ▸ hafter
          _ = fr.carry ++ (body ++ e.terminator ++ rest) := by
            rw [← h.bytes, hbytes, append_assoc]
          _ = _ := by
            rw [← hcarry]
            simp
      rw [scan_snoc, append_cancel_left hrest, hframes, hpending]
      rfl
  | early hret hcontent hheld hevents terminator rest hbytes hterminated _ hframes hpending =>
    have hcarry : fr.carry = (scan p).text ++ (scan p).content := by
      have := h.bytes
      rw [hheld, Scan.line, if_pos hret, ← append_assoc] at this
      exact append_cancel_right this
    refine .inr ⟨cutAtReturn_snoc.2 (.inr ⟨hret, hcontent,
      (pending_return_iff hf hret (hlength hret)).1 hheld⟩), (scan p).events.map said,
      (fr.carry, terminator), [], [], ?_, ?_, fun _ => ?_, fun e rest hnil => ?_⟩
    · rw [hframes, h.done]
    · rw [scan_snoc, hevents, append_nil]
    · obtain ⟨t, ht, htext⟩ := Scan.text_byte_ret hret hcontent b
      have hpos := length_pos_of_ne_nil ht
      rw [scan_snoc, htext, hcarry]
      simp only [length_append]
      omega
    · cases hnil

/-- What ended too early stays so. -/
theorem Diverged.step {fr fr' : Frames} {id id' : Option String} {p : List UInt8} {b : UInt8}
    {f' : SseFramer} (h : Diverged maximum fr p) (hmoves : Moves f fr id (scan p) b f' fr' id') :
    Diverged maximum fr' (p ++ [b]) := by
  obtain ⟨before, x, later, tail, hdone, hevents, hopen, hclosed⟩ := h.early
  have hmore : ∃ later', fr'.done = before ++ x :: later' := by
    cases hmoves with
    | quiet _ _ hsame => exact ⟨later, hsame.trans hdone⟩
    | event e body rest _ _ _ _ _ _ _ _ _ hframes =>
      exact ⟨later ++ [(fr.carry ++ body, e.terminator)], by rw [hframes, hdone]; simp⟩
    | early _ _ _ _ terminator _ _ _ _ hframes =>
      exact ⟨later ++ [(fr.carry, terminator)], by rw [hframes, hdone]; simp⟩
  have hnext : (scan (p ++ [b])).events = (scan p).events ∨
      ∃ e, (scan (p ++ [b])).events = (scan p).events ++ [e] ∧ e.lines = (scan p).lines := by
    rw [scan_snoc]
    cases hmoves with
    | quiet _ hsame | early _ _ _ hsame => exact .inl hsame
    | event e _ _ _ hlines hsnoc => exact .inr ⟨e, hsnoc, hlines⟩
  obtain ⟨later', hdone'⟩ := hmore
  refine ⟨cutAtReturn_snoc.2 (.inl h.cut), before, x, later', ?_⟩
  obtain hsame | ⟨e, hsnoc, hlines⟩ := hnext
  · refine ⟨tail, hdone', by rw [hsame, hevents], fun hnil => ?_, hclosed⟩
    rw [scan_snoc] at hsame ⊢
    exact Nat.lt_of_lt_of_le (hopen hnil) (Scan.text_byte hsame).length_le
  · refine ⟨tail ++ [said e], hdone', ?_, fun hnil => ?_, fun e' rest heq => ?_⟩
    · rw [hsnoc, map_append, hevents, append_assoc]
      rfl
    · simp at hnil
    · cases tail with
      | nil =>
        -- the event that was cut is completed
        obtain ⟨rfl, -⟩ := List.cons.inj heq
        have htext : e.text = (scan p).text := congrArg (List.flatMap Line.bytes) hlines
        change x.1.length < e.text.length
        rw [htext]
        exact hopen rfl
      | cons e'' tail =>
        obtain ⟨rfl, -⟩ := List.cons.inj heq
        exact hclosed e'' tail rfl

theorem finish_done (f : SseFramer) (fr : Frames) :
    (fr.addAll (f.finish io acquisitionId).1).done = fr.done := by
  unfold finish
  dsimp only
  split_ifs
  · rw [← nil_append [_], Frames.addAll_snoc, add_fragment]
    rfl
  · rfl
  · rw [← nil_append [_], Frames.addAll_snoc, add_fragment]
    rfl

/-- **When the records end at the blank lines.**  Whatever the reads are, the records with a
delimiter make up the events of the stream just when the limit cuts no line right before a `\r`
that ends it, and the stream does not end with a `\r` that is a blank line. -/
theorem blank_lines_framed (h : 0 < maximum) (acquisitionId : Uuid) (io : FrameAnswers)
    (reads : List (FrameAnswers × List UInt8)) :
    let r := (SseFramer.new maximum h).pushAll acquisitionId reads
    let stream := reads.flatMap Prod.snd
    (frames (r.1.flatMap FrameOutcome.records ++ (r.2.finish io acquisitionId).1)).done =
        (events stream).map said ↔
      ¬CutAtReturn maximum stream ∧ ¬EndsInReturn stream := by
  intro r stream
  rw [frames, Frames.addAll_append, finish_done]
  change (frames (r.1.flatMap FrameOutcome.records)).done = _ ↔ _
  obtain ⟨-, hI⟩ := pushAll_keeps (I := fun f fr p => InStep maximum f fr p ∨ Diverged maximum fr p)
    (fun f fr id p b f' fr' id' hf hI hmoves => hI.elim (fun h => h.step hf hmoves) fun h =>
      .inr (h.step hmoves)) acquisitionId reads (.new maximum h) ⟨[], []⟩ [] (follows_new h)
    (.inl ⟨fun ⟨p, b, rest, heq, _⟩ => by simp at heq, rfl, rfl⟩)
  rw [nil_append] at hI
  change InStep maximum r.2 (frames (r.1.flatMap FrameOutcome.records)) stream ∨
    Diverged maximum (frames (r.1.flatMap FrameOutcome.records)) stream at hI
  have hnone : ¬EndsInReturn stream → events stream = (scan stream).events := by
    intro hnot
    unfold events Scan.finish
    split_ifs with hret
    · have hcontent : (scan stream).content ≠ [] := fun hnil => hnot ⟨hret, hnil⟩
      rw [Scan.close_line hcontent]
    · rfl
  have hmore : EndsInReturn stream →
      events stream = (scan stream).events ++ [⟨(scan stream).lines, [13]⟩] := by
    rintro ⟨hret, hnil⟩
    rw [events, Scan.finish, if_pos hret, Scan.close_blank hnil]
  obtain hI | hI := hI
  · rw [hI.done]
    constructor
    · refine fun heq => ⟨hI.whole, fun hends => ?_⟩
      have hlength := congrArg List.length heq
      rw [hmore hends] at hlength
      simp at hlength
    · rintro ⟨-, hends⟩
      rw [hnone hends]
  · refine ⟨fun heq => ?_, fun ⟨hcut, _⟩ => absurd hI.cut hcut⟩
    obtain ⟨before, x, later, tail, hdone, hevents, hopen, hclosed⟩ := hI.early
    exfalso
    by_cases hends : EndsInReturn stream
    · rw [hmore hends, map_append, hevents, hdone, append_assoc] at heq
      have htail := append_cancel_left heq
      cases tail with
      | nil =>
        obtain ⟨rfl, -⟩ := List.cons.inj htail
        exact Nat.lt_irrefl _ (hopen rfl)
      | cons e tail =>
        obtain ⟨rfl, -⟩ := List.cons.inj htail
        exact Nat.lt_irrefl _ (hclosed _ _ rfl)
    · rw [hnone hends, hevents, hdone] at heq
      have htail := append_cancel_left heq
      exact Nat.lt_irrefl _ (hclosed _ _ htail.symm)

/-- What the records of a stream that is read at once make up, with a limit of eight bytes. -/
def exampleDone (stream : List UInt8) : List (List UInt8 × List UInt8) :=
  let r := (SseFramer.new 8 (by decide)).pushAll (.filled 0) [({}, stream)]
  (frames (r.1.flatMap FrameOutcome.records ++ (r.2.finish {} (.filled 0)).1)).done

/-- An event of two lines, the first of eight bytes and ended with `\n`. -/
theorem blank_lines_framed_example :
    exampleDone [100, 97, 116, 97, 58, 32, 97, 97, 10, 120, 10, 10] =
      (events [100, 97, 116, 97, 58, 32, 97, 97, 10, 120, 10, 10]).map said ∧
    events [100, 97, 116, 97, 58, 32, 97, 97, 10, 120, 10, 10] ≠ [] := by
  refine ⟨(blank_lines_framed (by decide) (.filled 0) {}
    [({}, [100, 97, 116, 97, 58, 32, 97, 97, 10, 120, 10, 10])]).2 ⟨?_, ?_⟩, ?_⟩
  · decide +kernel
  · decide +kernel
  · decide +kernel

/-- **A line is taken for a blank one**: its eight bytes went out in a fragment, and its `\r\n` ends
the event. -/
theorem line_taken_for_blank :
    exampleDone [100, 97, 116, 97, 58, 32, 97, 97, 13, 10, 120, 10, 10] =
        [([100, 97, 116, 97, 58, 32, 97, 97], [13, 10]), ([120, 10], [10])] ∧
      exampleDone [100, 97, 116, 97, 58, 32, 97, 97, 13, 10, 120, 10, 10] ≠
        (events [100, 97, 116, 97, 58, 32, 97, 97, 13, 10, 120, 10, 10]).map said := by
  constructor
  · decide +kernel
  · decide +kernel

end SseFramer

end Lvu
