import Lvu.Machine.Outcome
import Lvu.Shared.Exchange

/-!
# What an exchange can do

* `Streamed` : the frames on their way are whole, but for what the decoder retains.
* `Steps` : what a step can be.
* `Kept` : a connection whose exchange was left unfinished is not used again.
-/

namespace Lvu.Shared.Exchange

open Frames List

variable {Id Payload Value : Type} [DecidableEq Id] {wire : Wire Id Payload Value}
  {w w' : World Id Payload} {call : Call Id Payload}

/-! ### Frames -/

/-- Values are written on one line and read back, and events are. -/
structure Wire.Lawful (wire : Wire Id Payload Value) : Prop where
  line : ∀ value bytes, wire.toVec value = .ok bytes → newline ∉ bytes
  back : ∀ value bytes, wire.toVec value = .ok bytes → wire.fromSlice bytes = .ok value
  event : ∀ event, wire.fromValue (wire.toValue event) = .ok event

/-- The frames on their way are those that are pending. -/
structure Streamed (wire : Wire Id Payload Value) (w : World Id Payload) : Prop where
  retained : Retained w.buffered
  decoded : Decoded wire.fromSlice (w.buffered ++ w.stream)
    (w.pending.map fun frame => wire.toValue frame.2) []

theorem pushBytes_spec {fromSlice : List UInt8 → Except String Value} {buffered : List UInt8}
    (hretained : Retained buffered) {bytes rest : List UInt8} {values : List Value}
    (h : Decoded fromSlice (buffered ++ (bytes ++ rest)) values []) :
    ∃ first left more, values = first ++ more ∧
      pushBytes fromSlice buffered bytes = (.ok first, left) ∧ Retained left ∧
      Decoded fromSlice (left ++ rest) more [] := by
  rw [← append_assoc, decoded_append] at h
  obtain ⟨first, left, more, rfl, hfirst, hmore⟩ := h
  have hleft : Retained left := retained_of_decoded hfirst.tail hmore retained_nil.short
  exact ⟨first, left, more, rfl, (pushBytes_iff hretained).2 ⟨hfirst, hleft.short⟩, hleft, hmore⟩

/-- A frame as the client gets it. -/
def received (frame : ℕ × WorkerEvent Id Payload) : Option ℕ × WorkerEvent Id Payload :=
  (some frame.1, frame.2)

omit [DecidableEq Id] in
theorem tag_map (first more : List (ℕ × WorkerEvent Id Payload))
    (toValue : WorkerEvent Id Payload → Value) :
    tag (first ++ more) (first.map fun frame => toValue frame.2) =
      first.map fun frame => (some frame.1, toValue frame.2) := by
  induction first with
  | nil => cases more <;> rfl
  | cons frame first ih => rw [cons_append, map_cons, map_cons, tag, ih]

omit [DecidableEq Id] in
theorem parseAll_map (hwire : wire.Lawful) (first : List (ℕ × WorkerEvent Id Payload)) :
    parseAll wire.fromValue (first.map fun frame => (some frame.1, wire.toValue frame.2)) =
      .ok (first.map received) := by
  induction first with
  | nil => rfl
  | cons frame first ih =>
    rw [map_cons, parseAll, hwire.event]
    dsimp only
    rw [ih]
    rfl

/-- **A read takes the next frames**, and goes by their events. -/
theorem readBytes_spec (h : Streamed wire w) (call : Call Id Payload)
    (size : ℕ) : ∃ first more left, w.pending = first ++ more ∧
      w.readBytes wire call size =
        { w with buffered := left, stream := w.stream.drop size, pending := more }.settle call
          (onRead wire call w.staleRequestIds
            (first.map fun frame : ℕ × WorkerEvent Id Payload =>
              (some frame.1, wire.toValue frame.2))) ∧
      Retained left ∧ Decoded wire.fromSlice (left ++ w.stream.drop size)
        (more.map fun frame => wire.toValue frame.2) [] := by
  have hdecoded := h.decoded
  rw [← take_append_drop size w.stream] at hdecoded
  obtain ⟨values, left, later, hvalues, hpush, hleft, hmore⟩ := pushBytes_spec h.retained hdecoded
  obtain ⟨first, more, hpending, rfl, rfl⟩ := map_eq_append_iff.1 hvalues
  refine ⟨first, more, left, hpending, ?_, hleft, hmore⟩
  rw [World.readBytes, hpush]
  dsimp only
  rw [hpending, tag_map, length_map, drop_left]

/-! ### What is taken for the reply -/

theorem single_ok {Tag : Type} {expected : Id} {event : Tag × WorkerEvent Id Payload}
    {events : List (Tag × WorkerEvent Id Payload)} (h : single expected event = .ok events) :
    events = [event] ∧ eventRequestId event.2 = some expected := by
  obtain ⟨mark, event⟩ := event
  rcases event with ⟨id, payload⟩ | ⟨⟨id, payload⟩ | ⟨reason⟩⟩ | _ | _ | _
  · cases h
  · rw [single] at h
    dsimp only at h
    split_ifs at h with hid
    obtain rfl := Verdict.ok.inj h
    exact ⟨rfl, congrArg some hid⟩
  all_goals cases h

theorem single_ne_waiting {Tag : Type} {expected : Id} (event : Tag × WorkerEvent Id Payload)
    (events : List (Tag × WorkerEvent Id Payload)) : single expected event ≠ .waiting events := by
  intro h
  obtain ⟨mark, event⟩ := event
  rcases event with ⟨id, payload⟩ | ⟨⟨id, payload⟩ | ⟨reason⟩⟩ | _ | _ | _
  · cases h
  · rw [single] at h
    dsimp only at h
    split_ifs at h
  all_goals cases h

theorem strictRead_singleton (hwire : wire.Lawful) (expected : Id)
    (frame : ℕ × WorkerEvent Id Payload) :
    strictRead wire.fromValue expected [(some frame.1, wire.toValue frame.2)] =
      single expected (received frame) := by
  rw [strictRead, hwire.event]
  rfl

/-- A batch that is accepted has an answer to the request, and notices. -/
theorem checkBatch_ok {expected : Id} {found : Bool} {events : List (WorkerEvent Id Payload)}
    (h : checkBatch expected found events = .ok ()) :
    (∀ event ∈ events, event.isNotice = true ∨ eventRequestId event = some expected) ∧
      (found = true ∨ ∃ event ∈ events, eventRequestId event = some expected) := by
  induction events generalizing found with
  | nil =>
    rw [checkBatch] at h
    split_ifs at h with hfound
    exact ⟨nofun, .inl hfound⟩
  | cons event events ih =>
    rcases event with ⟨id, payload⟩ | _ | _ | _ | _
    · rw [checkBatch] at h
      split_ifs at h with hid hfound
      obtain ⟨hall, -⟩ := ih h
      subst hid
      exact ⟨forall_mem_cons.2 ⟨.inr rfl, hall⟩, .inr ⟨_, mem_cons_self, rfl⟩⟩
    · cases h
    · rw [checkBatch] at h
      obtain ⟨hall, hsome⟩ := ih h
      refine ⟨forall_mem_cons.2 ⟨.inl rfl, hall⟩, hsome.imp id ?_⟩
      rintro ⟨event, hevent, hid⟩
      exact ⟨event, mem_cons_of_mem _ hevent, hid⟩
    · cases h
    · cases h

/-- The frames that a read takes. -/
abbrev marked (wire : Wire Id Payload Value) (first : List (ℕ × WorkerEvent Id Payload)) :
    List (Option ℕ × Value) :=
  first.map fun frame => (some frame.1, wire.toValue frame.2)

/-- **A reply that a read gives** is one of its frames, with the id of the request. -/
theorem onRead_ok (hwire : wire.Lawful) {stale : List Id}
    {first : List (ℕ × WorkerEvent Id Payload)}
    {events : List (Option ℕ × WorkerEvent Id Payload)}
    (h : onRead wire call stale (marked wire first) = .ok events) :
    call.kind ≠ .control ∧ ∃ frame ∈ first, events = [received frame] ∧
      eventRequestId frame.2 = some call.id := by
  unfold onRead at h
  cases hkind : call.kind with
  | control =>
    rw [hkind] at h
    dsimp only [controlRead] at h
    rw [parseAll_map hwire] at h
    cases h
  | strict =>
    rw [hkind] at h
    refine ⟨nofun, ?_⟩
    rcases first with _ | ⟨frame, _ | ⟨second, rest⟩⟩
    · cases h
    · obtain ⟨rfl, hid⟩ := single_ok ((strictRead_singleton hwire call.id frame).symm.trans h)
      exact ⟨frame, mem_cons_self, rfl, hid⟩
    · cases h
  | recoverable =>
    rw [hkind] at h
    refine ⟨nofun, ?_⟩
    dsimp only [recoverableRead] at h
    rw [parseAll_map hwire] at h
    dsimp only at h
    rcases hrest : (first.map received).filter fun event => !isStale call.id stale event.2 with
      _ | ⟨event, _ | ⟨second, rest⟩⟩
    · rw [hrest] at h
      cases h
    · rw [hrest] at h
      obtain ⟨rfl, hid⟩ := single_ok h
      have hmem : event ∈ first.map received := by
        refine mem_of_mem_filter (p := fun event => !isStale call.id stale event.2) ?_
        rw [hrest]
        exact mem_cons_self
      obtain ⟨frame, hframe, rfl⟩ := mem_map.1 hmem
      exact ⟨frame, hframe, rfl, hid⟩
    · rw [hrest] at h
      cases h

/-- What a control request has collected after a read. -/
theorem onRead_waiting (hwire : wire.Lawful) {stale : List Id}
    {first : List (ℕ × WorkerEvent Id Payload)}
    {events : List (Option ℕ × WorkerEvent Id Payload)}
    (h : onRead wire call stale (marked wire first) = .waiting events) :
    ∀ event ∈ events, event ∈ call.events ∨ ∃ frame ∈ first, event = received frame := by
  unfold onRead at h
  cases hkind : call.kind with
  | control =>
    rw [hkind] at h
    dsimp only [controlRead] at h
    rw [parseAll_map hwire] at h
    obtain rfl := Verdict.waiting.inj h
    intro event hevent
    rcases mem_append.1 hevent with hevent | hevent
    · exact .inl hevent
    · obtain ⟨frame, hframe, rfl⟩ := mem_map.1 hevent
      exact .inr ⟨frame, hframe, rfl⟩
  | strict =>
    rw [hkind] at h
    rcases first with _ | ⟨frame, _ | ⟨second, rest⟩⟩
    · obtain rfl := Verdict.waiting.inj h
      exact nofun
    · exact absurd ((strictRead_singleton hwire call.id frame).symm.trans h)
        (single_ne_waiting _ _)
    · cases h
  | recoverable =>
    rw [hkind] at h
    dsimp only [recoverableRead] at h
    rw [parseAll_map hwire] at h
    dsimp only at h
    rcases hrest : (first.map received).filter fun event => !isStale call.id stale event.2 with
      _ | ⟨event, _ | ⟨second, rest⟩⟩
    · rw [hrest] at h
      obtain rfl := Verdict.waiting.inj h
      exact nofun
    · rw [hrest] at h
      exact absurd h (single_ne_waiting _ _)
    · rw [hrest] at h
      cases h

/-! ### What a step can be -/

/-- The client has read the first frames. -/
structure Advances (wire : Wire Id Payload Value) (w : World Id Payload)
    (first : List (ℕ × WorkerEvent Id Payload)) (w' : World Id Payload) : Prop where
  pending : w.pending = first ++ w'.pending
  streamed : Streamed wire w → Streamed wire w'
  same : w' = { w with buffered := w'.buffered, stream := w'.stream, pending := w'.pending }

omit [DecidableEq Id] in
theorem advances_nil (w : World Id Payload) : Advances wire w [] w := ⟨rfl, id, rfl⟩

/-- What is taken for the reply: the batch of a control request, or one of the frames just read. -/
def Reply (call : Call Id Payload) (first : List (ℕ × WorkerEvent Id Payload))
    (events : List (Option ℕ × WorkerEvent Id Payload)) : Prop :=
  (call.kind = .control ∧ events = call.events ∧ events ≠ [] ∧
    checkBatch call.id false (events.map Prod.snd) = .ok ()) ∨
  (call.kind ≠ .control ∧ ∃ frame ∈ first, events = [received frame] ∧
    eventRequestId frame.2 = some call.id)

/-- What a step can be. -/
inductive Steps (wire : Wire Id Payload Value) (w : World Id Payload) :
    Event Id Payload → World Id Payload → Prop
  | refused {kind id fault retired inFlight} : w.call = none →
    w.retired = true ∨ w.inFlight = true → retired = true → Steps wire w (.start kind id) { w with
      retired := retired
      inFlight := inFlight
      count := w.count + 1
      ended := w.ended ++ [(w.count, kind, .failed fault)] }
  | opened {kind id} : w.call = none → w.retired = false → w.inFlight = false →
    Steps wire w (.start kind id) { w with
      inFlight := true
      count := w.count + 1
      call := some ⟨w.count, kind, id, false, []⟩ }
  | sent {call : Call Id Payload} : w.call = some call → call.sent = false →
    Steps wire w (.write true) { w with
      call := some { call with sent := true }
      unanswered := w.unanswered ++ [(call.number, call.kind, call.id)] }
  | waits {e first w' events} {call : Call Id Payload} : w.call = some call → call.sent = true →
    Advances wire w first w' →
    (∀ event ∈ events, event ∈ call.events ∨ ∃ frame ∈ first, event = received frame) →
    Steps wire w e { w' with call := some { call with events := events } }
  | fails {e first w' fault} {call : Call Id Payload} : w.call = some call →
    Advances wire w first w' → Steps wire w e (w'.fail call fault)
  | unknown {call : Call Id Payload} : w.call = some call → call.kind = .recoverable →
    Steps wire w .timeout { w with
      inFlight := false
      call := none
      staleRequestIds := rememberStale w.staleRequestIds call.id
      ended := w.ended ++ [(call.number, call.kind, .failed .timedOut)] }
  | replies {e first w' events} {call : Call Id Payload} : w.call = some call →
    Advances wire w first w' → Reply call first events →
    Steps wire w e (w'.settle call (.ok events))
  | cancelled {call : Call Id Payload} : w.call = some call →
    Steps wire w .cancel { w with
      call := none
      ended := w.ended ++ [(call.number, call.kind, .cancelled)] }
  | answered {number kind id rest events bytes} : w.unanswered = (number, kind, id) :: rest →
    Echoes kind id events → encodeAll wire events = .ok bytes →
    Steps wire w (.answer events) { w with
      stream := w.stream ++ bytes
      pending := w.pending ++ events.map fun event => (number, event)
      unanswered := rest
      answers := w.answers ++ events.map fun event => (number, event) }
  | distrusted : w.call = none →
    Steps wire w .distrust { w with retired := true, inFlight := false }

/-- The end of the wait for frames. -/
theorem steps_finish {e : Event Id Payload} {closed : Bool}
    (he : e = if closed then .eof else .timeout) (hcall : w.call = some call) :
    Steps wire w e (w.finish call closed) := by
  unfold World.finish
  cases hkind : call.kind with
  | control =>
    dsimp only
    by_cases hnil : call.events = []
    · rw [if_pos hnil]
      exact .fails hcall (advances_nil w)
    · rw [if_neg hnil]
      cases hcheck : checkBatch call.id false (call.events.map Prod.snd) with
      | error fault => exact .fails hcall (advances_nil w)
      | ok _ => exact .replies hcall (advances_nil w) (.inl ⟨hkind, rfl, hnil, hcheck⟩)
  | strict => exact .fails hcall (advances_nil w)
  | recoverable =>
    dsimp only
    split_ifs with hclosed
    · exact .fails hcall (advances_nil w)
    · rw [if_neg hclosed] at he
      subst he
      rw [← hkind]
      exact .unknown hcall hkind

/-- **Every step is one of these.** -/
theorem steps_of_next (hwire : wire.Lawful) (hw : Streamed wire w) {e : Event Id Payload}
    (h : (connection wire).step w e w') : Steps wire w e w' := by
  simp only [connection, Machine.ofFun] at h
  cases e with
  | start kind id =>
    simp only [World.next] at h
    split_ifs at h with hcall hretired hflight
    · rw [Option.not_isSome_iff_eq_none] at hcall
      cases h
      exact .refused hcall (.inl hretired) hretired
    · rw [Option.not_isSome_iff_eq_none] at hcall
      cases h
      exact .refused hcall (.inr hflight) rfl
    · rw [Option.not_isSome_iff_eq_none] at hcall
      cases h
      exact .opened hcall (Bool.eq_false_of_not_eq_true hretired)
        (Bool.eq_false_of_not_eq_true hflight)
  | write ok =>
    obtain ⟨call, hcall, h⟩ := Option.bind_eq_some_iff.1 h
    split_ifs at h with hsent hok
    · cases h
      subst hok
      exact .sent hcall (Bool.eq_false_of_not_eq_true hsent)
    · cases h
      exact .fails hcall (advances_nil w)
  | read size =>
    obtain ⟨call, hcall, h⟩ := Option.bind_eq_some_iff.1 h
    split_ifs at h with hsize
    cases h
    obtain ⟨first, more, left, hpending, hread, hleft, hmore⟩ := readBytes_spec hw call size
    have hadvances : Advances wire w first
        { w with buffered := left, stream := w.stream.drop size, pending := more } :=
      ⟨hpending, fun _ => ⟨hleft, hmore⟩, rfl⟩
    rw [hread]
    cases hverdict : onRead wire call w.staleRequestIds (marked wire first) with
    | waiting events =>
      exact .waits hcall hsize.1 hadvances (onRead_waiting hwire hverdict)
    | failed fault => exact .fails hcall hadvances
    | ok events => exact .replies hcall hadvances (.inr (onRead_ok hwire hverdict))
  | readFailed =>
    obtain ⟨call, hcall, h⟩ := Option.bind_eq_some_iff.1 h
    split_ifs at h
    cases h
    exact .fails hcall (advances_nil w)
  | eof | timeout =>
    obtain ⟨call, hcall, h⟩ := Option.bind_eq_some_iff.1 h
    split_ifs at h
    cases h
    exact steps_finish rfl hcall
  | cancel =>
    obtain ⟨call, hcall, rfl⟩ := Option.map_eq_some_iff.1 h
    exact .cancelled hcall
  | answer events =>
    simp only [World.next] at h
    rcases hunanswered : w.unanswered with _ | ⟨⟨number, kind, id⟩, rest⟩
    · rw [hunanswered] at h
      cases h
    · rw [hunanswered] at h
      dsimp only at h
      split_ifs at h with hechoes
      cases hbytes : encodeAll wire events with
      | error error =>
        rw [hbytes] at h
        cases h
      | ok bytes =>
        rw [hbytes] at h
        cases h
        exact .answered hunanswered hechoes hbytes
  | distrust =>
    simp only [World.next] at h
    split_ifs at h with hcall
    cases h
    exact .distrusted (Option.not_isSome_iff_eq_none.1 hcall)

/-! ### The stream -/

omit [DecidableEq Id] in
/-- The bytes of some events are these events. -/
theorem decoded_encodeAll (hwire : wire.Lawful) {events : List (WorkerEvent Id Payload)}
    {bytes : List UInt8} (h : encodeAll wire events = .ok bytes) :
    Decoded wire.fromSlice bytes (events.map wire.toValue) [] := by
  induction events generalizing bytes with
  | nil =>
    cases h
    exact ⟨[], rfl, nofun, .nil⟩
  | cons event events ih =>
    rw [encodeAll] at h
    cases hframe : encodeFrame wire.toVec (wire.toValue event) with
    | error error =>
      rw [hframe] at h
      cases h
    | ok frame =>
      rw [hframe] at h
      dsimp only at h
      obtain ⟨more, hrest, h⟩ := Outcome.bind_eq_ok.1 h
      cases h
      obtain ⟨line, rfl, haccepted⟩ :=
        accepted_of_encodeFrame (fun bytes h => ⟨hwire.line _ bytes h, hwire.back _ bytes h⟩) hframe
      dsimp only
      rw [append_assoc, singleton_append, map_cons, decoded_line haccepted.1]
      exact ⟨_, _, rfl, haccepted.2, ih hrest⟩

omit [DecidableEq Id] in
theorem streamed_new : Streamed wire (.new : World Id Payload) :=
  ⟨retained_nil, [], rfl, nofun, .nil⟩

/-- **The frames on their way stay whole.** -/
theorem streamed_step (hwire : wire.Lawful) (h : Streamed wire w) {e : Event Id Payload}
    (hst : (connection wire).step w e w') : Streamed wire w' := by
  cases steps_of_next hwire h hst with
  | refused _ _ _ | opened _ _ _ | sent _ _ | unknown _ _ | cancelled _ | distrusted _ =>
    exact ⟨h.retained, h.decoded⟩
  | waits _ _ hadvances _ | fails _ hadvances | replies _ hadvances _ =>
    exact ⟨(hadvances.streamed h).retained, (hadvances.streamed h).decoded⟩
  | answered _ _ hbytes =>
    refine ⟨h.retained, ?_⟩
    dsimp only
    rw [← append_assoc, map_append, map_map, decoded_append]
    exact ⟨_, [], _, rfl, h.decoded, decoded_encodeAll hwire hbytes⟩

/-! ### Exchanges that were left unfinished -/

/-- The connection is not used again. -/
def Stuck (w : World Id Payload) : Prop := w.retired = true ∨ (w.inFlight = true ∧ w.call = none)

/-- A strict exchange that ended without a reply. -/
def Unfinished (call : ℕ × Kind × Ending Id Payload) : Prop :=
  call.2.1 ≠ .recoverable ∧ ∀ events, call.2.2 ≠ .ok events

/-- No call returns a reply after a strict exchange that was left unfinished. -/
def Sealed (ended : List (ℕ × Kind × Ending Id Payload)) : Prop :=
  ended.Pairwise fun before after => Unfinished before → ∀ events, after.2.2 ≠ .ok events

/-- An exchange that is open holds its claim, and a connection with an unfinished exchange is not
used again. -/
structure Kept (w : World Id Payload) : Prop where
  claimed : ∀ call ∈ w.call, w.inFlight = true ∧ w.retired = false
  stuck : (∃ call ∈ w.ended, Unfinished call) → Stuck w
  noneLater : Sealed w.ended

omit [DecidableEq Id] in
theorem kept_new : Kept (.new : World Id Payload) :=
  ⟨nofun, fun ⟨_, hin, _⟩ => absurd hin not_mem_nil, List.Pairwise.nil⟩

omit [DecidableEq Id] in
theorem Kept.not_stuck (h : Kept w) (hcall : w.call = some call) : ¬ Stuck w := by
  rintro (hretired | ⟨-, hnone⟩)
  · rw [(h.claimed call hcall).2] at hretired
    cases hretired
  · rw [hcall] at hnone
    cases hnone

omit [DecidableEq Id] in
theorem Kept.sealed_append (h : Kept w) {ending : ℕ × Kind × Ending Id Payload}
    (hending : Stuck w → ∀ events, ending.2.2 ≠ .ok events) : Sealed (w.ended ++ [ending]) := by
  refine pairwise_append.2 ⟨h.noneLater, pairwise_singleton _ _, ?_⟩
  intro before hbefore after hafter hunfinished
  rw [mem_singleton.1 hafter]
  exact hending (h.stuck ⟨before, hbefore, hunfinished⟩)

omit [DecidableEq Id] in
theorem exists_unfinished_append {ended : List (ℕ × Kind × Ending Id Payload)}
    {ending : ℕ × Kind × Ending Id Payload} :
    (∃ call ∈ ended ++ [ending], Unfinished call) ↔
      (∃ call ∈ ended, Unfinished call) ∨ Unfinished ending := by
  simp only [mem_append, mem_singleton, or_and_right, exists_or, exists_eq_left]

/-- **A connection with an unfinished exchange is not used again**, whatever happens. -/
theorem kept_step (h : Kept w) {e : Event Id Payload} (hst : Steps wire w e w') : Kept w' := by
  cases hst with
  | refused hcall hstuck hretired =>
    refine ⟨fun call hin => ?_, fun _ => .inl hretired, h.sealed_append fun _ => nofun⟩
    rw [hcall] at hin
    cases hin
  | opened hcall hretired hflight =>
    refine ⟨fun call hin => ⟨rfl, hretired⟩, fun hex => ?_, h.noneLater⟩
    rcases h.stuck hex with hstuck | ⟨hstuck, -⟩
    · rw [hretired] at hstuck
      cases hstuck
    · rw [hflight] at hstuck
      cases hstuck
  | sent hcall hsent =>
    exact ⟨fun _ _ => h.claimed _ hcall, fun hex => absurd (h.stuck hex) (h.not_stuck hcall),
      h.noneLater⟩
  | waits hcall hsent hadvances hevents =>
    obtain ⟨-, -, hsame⟩ := hadvances
    rw [hsame]
    exact ⟨fun _ _ => h.claimed _ hcall, fun hex => absurd (h.stuck hex) (h.not_stuck hcall),
      h.noneLater⟩
  | fails hcall hadvances =>
    obtain ⟨-, -, hsame⟩ := hadvances
    rw [hsame]
    exact ⟨nofun, fun _ => .inl rfl, h.sealed_append fun _ => nofun⟩
  | unknown hcall hkind =>
    refine ⟨nofun, fun hex => ?_, h.sealed_append fun _ => nofun⟩
    rcases exists_unfinished_append.1 hex with hex | hunfinished
    · exact absurd (h.stuck hex) (h.not_stuck hcall)
    · exact absurd hkind hunfinished.1
  | replies hcall hadvances hreply =>
    obtain ⟨-, -, hsame⟩ := hadvances
    rw [hsame]
    refine ⟨nofun, fun hex => ?_,
      h.sealed_append fun hstuck => absurd hstuck (h.not_stuck hcall)⟩
    rcases exists_unfinished_append.1 hex with hex | hunfinished
    · exact absurd (h.stuck hex) (h.not_stuck hcall)
    · exact absurd rfl (hunfinished.2 _)
  | cancelled hcall =>
    exact ⟨nofun, fun _ => .inr ⟨(h.claimed _ hcall).1, rfl⟩, h.sealed_append fun _ => nofun⟩
  | answered hunanswered hechoes hbytes =>
    exact ⟨h.claimed, h.stuck, h.noneLater⟩
  | distrusted hcall =>
    refine ⟨fun call hin => ?_, fun _ => .inl rfl, h.noneLater⟩
    rw [hcall] at hin
    cases hin

end Lvu.Shared.Exchange
