import Lvu.Shared.Unfinished

/-!
# No shifted replies

A connection is used again only after an exchange that was finished or whose late reply is known, so
that what a call returns is what the worker produced for it.

* `Sound` : where the frames on their way come from.
* `no_shifted_reply` : **a reply is that of the call**, where every exchange opens fresh.
* `shifted_notice` : a late notice is taken for that of the next call.
-/

namespace Lvu.Shared.Exchange

open Frames List

variable {Id Payload Value : Type} {wire : Wire Id Payload Value} {w w' : World Id Payload}
  {call : Call Id Payload} {first : List (ℕ × WorkerEvent Id Payload)} {e : Event Id Payload}
  {stale : List Id}

/-! ### Where the frames come from -/

/-- What may be on its way while a call is open: frames of its own reply, and others that it does
not take for it. -/
def Harmless (call : Call Id Payload) (origin : Option ℕ) (event : WorkerEvent Id Payload) : Prop :=
  origin = some call.number ∨
    eventRequestId event ≠ some call.id ∧ (call.kind = .control → event.isNotice = false)

/-- Where the requests, the frames and the replies of a connection come from. -/
structure Sound (w : World Id Payload) : Prop where
  /-- Calls are counted. -/
  below : (∀ call ∈ w.call, call.number < w.count) ∧
    (∀ request ∈ w.unanswered, request.1 < w.count) ∧ (∀ frame ∈ w.pending, frame.1 < w.count) ∧
    ∀ call ∈ w.ended, call.1 < w.count
  /-- A request is answered once. -/
  once : (w.unanswered.map Prod.fst).Nodup
  /-- A call ends once. -/
  endsOnce : (w.ended.map Prod.fst).Nodup ∧
    ∀ call ∈ w.call, ∀ other ∈ w.ended, other.1 ≠ call.number
  unsent : ∀ call ∈ w.call, call.sent = false → call.events = [] ∧
    (∀ request ∈ w.unanswered, request.1 ≠ call.number) ∧
    ∀ frame ∈ w.pending, frame.1 ≠ call.number
  /-- A request with a frame on its way has been answered. -/
  answered : ∀ request ∈ w.unanswered, (∀ frame ∈ w.pending, frame.1 ≠ request.1) ∧
    ∀ call ∈ w.call, ∀ event ∈ call.events, event.1 ≠ some request.1
  /-- Of the calls that ended only recoverable ones can be unanswered. -/
  ambiguous : ¬ Stuck w → ∀ request ∈ w.unanswered, request.2.1 ≠ .recoverable →
    ∃ call ∈ w.call, call.number = request.1
  /-- The request of the open call is as the call is. -/
  request : ∀ call ∈ w.call, ∀ request ∈ w.unanswered, request.1 = call.number →
    request.2 = (call.kind, call.id)
  /-- What is on its way is harmless to the open call. -/
  harmless : ∀ call ∈ w.call, (∀ frame ∈ w.pending, Harmless call (some frame.1) frame.2) ∧
    (∀ event ∈ call.events, Harmless call event.1 event.2) ∧
    ∀ request ∈ w.unanswered, request.1 ≠ call.number → request.2.2 ≠ call.id
  /-- A reply is that of its call. -/
  own : ∀ call ∈ w.ended, ∀ events, call.2.2 = .ok events →
    events ≠ [] ∧ ∀ event ∈ events, event.1 = some call.1

theorem sound_new : Sound (.new : World Id Payload) :=
  ⟨⟨nofun, nofun, nofun, nofun⟩, nodup_nil, ⟨nodup_nil, nofun⟩, nofun, nofun,
    fun _ => nofun, nofun, nofun, nofun⟩

theorem nodup_snoc {α : Type} {list : List (ℕ × α)} (h : (list.map Prod.fst).Nodup) {entry : ℕ × α}
    (hnew : ∀ other ∈ list, other.1 ≠ entry.1) : ((list ++ [entry]).map Prod.fst).Nodup := by
  rw [map_append, nodup_append]
  refine ⟨h, nodup_singleton _, fun number hnumber number' hnumber' => ?_⟩
  obtain ⟨other, hother, rfl⟩ := mem_map.1 hnumber
  rw [map_singleton, mem_singleton] at hnumber'
  rw [hnumber']
  exact hnew other hother

/-- A call ends, with frames read before. -/
theorem Sound.ends (h : Sound w) (hcall : w.call = some call)
    (hpending : w.pending = first ++ w'.pending)
    (hunanswered : w'.unanswered = w.unanswered) (hcount : w'.count = w.count)
    (hnone : w'.call = none) {ending : Ending Id Payload}
    (hended : w'.ended = w.ended ++ [(call.number, call.kind, ending)])
    (hambiguous : ¬ Stuck w' → ∀ request ∈ w.unanswered, request.2.1 = .recoverable)
    (hown : ∀ events, ending = .ok events →
      events ≠ [] ∧ ∀ event ∈ events, event.1 = some call.number) : Sound w' := by
  have hmore {frame : ℕ × WorkerEvent Id Payload} (hframe : frame ∈ w'.pending) :
      frame ∈ w.pending := hpending ▸ mem_append_right _ hframe
  have hno {call : Call Id Payload} : call ∉ w'.call := by
    rw [hnone]
    exact nofun
  obtain ⟨hbelow, hrequests, hframes, hcalls⟩ := h.below
  refine ⟨⟨fun _ hin => absurd hin hno, ?_, fun frame hframe => ?_, fun other hother => ?_⟩, ?_,
    ⟨?_, fun _ hin => absurd hin hno⟩, fun _ hin => absurd hin hno, fun request hrequest => ?_,
    fun hstuck request hrequest hkind => ?_, fun _ hin => absurd hin hno,
    fun _ hin => absurd hin hno, fun other hother events hevents => ?_⟩
  · rw [hunanswered, hcount]
    exact hrequests
  · rw [hcount]
    exact hframes frame (hmore hframe)
  · rw [hcount]
    rw [hended] at hother
    rcases mem_append.1 hother with hother | hother
    · exact hcalls other hother
    · rw [mem_singleton.1 hother]
      exact hbelow call hcall
  · rw [hunanswered]
    exact h.once
  · rw [hended]
    exact nodup_snoc h.endsOnce.1 (h.endsOnce.2 call hcall)
  · rw [hunanswered] at hrequest
    exact ⟨fun frame hframe => (h.answered request hrequest).1 frame (hmore hframe),
      fun _ hin => absurd hin hno⟩
  · rw [hunanswered] at hrequest
    exact absurd (hambiguous hstuck request hrequest) hkind
  · rw [hended] at hother
    rcases mem_append.1 hother with hother | hother
    · exact h.own other hother events hevents
    · obtain rfl := mem_singleton.1 hother
      exact hown events hevents

theorem Harmless.own {origin : Option ℕ} {event : WorkerEvent Id Payload}
    (h : Harmless call origin event) (hid : eventRequestId event = some call.id) :
    origin = some call.number := h.resolve_right fun hother => hother.1 hid

/-- While a call is open, a request that is not recoverable is its own. -/
theorem Sound.is_open (h : Sound w) (hkept : Kept w) (hcall : w.call = some call)
    {request : ℕ × Kind × Id} (hrequest : request ∈ w.unanswered)
    (hkind : request.2.1 ≠ .recoverable) : call.number = request.1 := by
  obtain ⟨other, hother, hnumber⟩ := h.ambiguous (hkept.not_stuck hcall) request hrequest hkind
  cases hcall.symm.trans hother
  exact hnumber

/-- An exchange opens, with a number that no request, frame or ended call has. -/
theorem Sound.opened {kind : Kind} {id : Id} (h : Sound w) (hcall : w.call = none)
    (hretired : w.retired = false) (hflight : w.inFlight = false) (hfresh : Fresh w (.start kind id)) :
    Sound { w with
      inFlight := true
      count := w.count + 1
      call := some ⟨w.count, kind, id, false, []⟩ } := by
  obtain ⟨hbelow, hrequests, hframes, hcalls⟩ := h.below
  obtain ⟨hids, hpending⟩ := hfresh hretired hflight
  refine ⟨⟨?_, fun request hin => (hrequests request hin).trans (Nat.lt_succ_self _),
    fun frame hin => (hframes frame hin).trans (Nat.lt_succ_self _),
    fun call hin => (hcalls call hin).trans (Nat.lt_succ_self _)⟩, h.once, ⟨h.endsOnce.1, ?_⟩,
    ?_, fun request hrequest => ⟨(h.answered request hrequest).1, ?_⟩,
    fun hnot request hrequest hkind => ?_, ?_, ?_, h.own⟩
  · rintro _ ⟨⟩
    exact Nat.lt_succ_self _
  · rintro _ ⟨⟩ other hother
    exact (hcalls other hother).ne
  · rintro _ ⟨⟩ -
    exact ⟨rfl, fun request hin => (hrequests request hin).ne,
      fun frame hin => (hframes frame hin).ne⟩
  · rintro _ ⟨⟩
    exact nofun
  · have hfree : ¬ Stuck w := by
      rintro (hstuck | ⟨hstuck, -⟩)
      · rw [hretired] at hstuck
        cases hstuck
      · rw [hflight] at hstuck
        cases hstuck
    obtain ⟨call, hin, -⟩ := h.ambiguous hfree request hrequest hkind
    rw [hcall] at hin
    cases hin
  · rintro _ ⟨⟩ request hrequest hsame
    exact absurd hsame (hrequests request hrequest).ne
  · rintro _ ⟨⟩
    exact ⟨fun frame hin => .inr (hpending frame hin), nofun,
      fun request hrequest _ => hids request hrequest⟩

/-- The request of the open call is written. -/
theorem Sound.sent (h : Sound w) (hkept : Kept w) (hcall : w.call = some call)
    (hsent : call.sent = false) :
    Sound { w with
      call := some { call with sent := true }
      unanswered := w.unanswered ++ [(call.number, call.kind, call.id)] } := by
  obtain ⟨hbelow, hrequests, hframes, hcalls⟩ := h.below
  obtain ⟨hnil, hnew, hnone⟩ := h.unsent call hcall hsent
  obtain ⟨hharmless, hevents, hothers⟩ := h.harmless call hcall
  refine ⟨⟨?_, ?_, hframes, hcalls⟩, nodup_snoc h.once hnew, ⟨h.endsOnce.1, ?_⟩, ?_, ?_, ?_, ?_,
    ?_, h.own⟩
  · rintro _ ⟨⟩
    exact hbelow call hcall
  · exact forall_mem_append.2
      ⟨hrequests, forall_mem_singleton.2 (hbelow call hcall)⟩
  · rintro _ ⟨⟩
    exact h.endsOnce.2 call hcall
  · rintro _ ⟨⟩ hunsent
    cases hunsent
  · refine forall_mem_append.2 ⟨fun request hrequest => ?_, forall_mem_singleton.2 ?_⟩
    · refine ⟨(h.answered request hrequest).1, ?_⟩
      rintro _ ⟨⟩
      exact (h.answered request hrequest).2 call hcall
    · refine ⟨hnone, ?_⟩
      rintro _ ⟨⟩ event hevent
      dsimp only at hevent
      rw [hnil] at hevent
      cases hevent
  · intro hnot request hrequest hkind
    rcases mem_append.1 hrequest with hrequest | hrequest
    · exact ⟨_, rfl, h.is_open hkept hcall hrequest hkind⟩
    · rw [mem_singleton.1 hrequest]
      exact ⟨_, rfl, rfl⟩
  · rintro _ ⟨⟩ request hrequest hnumber
    rcases mem_append.1 hrequest with hrequest | hrequest
    · exact h.request call hcall request hrequest hnumber
    · rw [mem_singleton.1 hrequest]
  · rintro _ ⟨⟩
    refine ⟨hharmless, hevents, fun request hrequest hnumber => ?_⟩
    rcases mem_append.1 hrequest with hrequest | hrequest
    · exact hothers request hrequest hnumber
    · rw [mem_singleton.1 hrequest] at hnumber
      exact absurd rfl hnumber

/-- The exchange goes on, with frames read and some of them collected. -/
theorem Sound.waits (h : Sound w) (hkept : Kept w) (hcall : w.call = some call)
    (hsent : call.sent = true) (hadvances : Advances wire w first w')
    {events : List (Option ℕ × WorkerEvent Id Payload)} (hfrom : ∀ event ∈ events,
      event ∈ call.events ∨ ∃ frame ∈ first, event = received frame) :
    Sound { w' with call := some { call with events := events } } := by
  obtain ⟨hpending, -, hsame⟩ := hadvances
  obtain ⟨hbelow, hrequests, hframes, hcalls⟩ := h.below
  obtain ⟨hharmless, hevents, hothers⟩ := h.harmless call hcall
  have hmore {frame : ℕ × WorkerEvent Id Payload} (hframe : frame ∈ w'.pending) :
      frame ∈ w.pending := hpending ▸ mem_append_right _ hframe
  have htaken {frame : ℕ × WorkerEvent Id Payload} (hframe : frame ∈ first) :
      frame ∈ w.pending := hpending ▸ mem_append_left _ hframe
  generalize w'.buffered = buffered, w'.stream = stream, hleft : w'.pending = pending
    at hsame hmore
  subst hsame
  refine ⟨⟨?_, hrequests, fun frame hin => hframes frame (hmore hin), hcalls⟩, h.once,
    ⟨h.endsOnce.1, ?_⟩, ?_, fun request hrequest =>
    ⟨fun frame hin => (h.answered request hrequest).1 frame (hmore hin), ?_⟩, ?_, ?_, ?_, h.own⟩
  · rintro _ ⟨⟩
    exact hbelow call hcall
  · rintro _ ⟨⟩
    exact h.endsOnce.2 call hcall
  · rintro _ ⟨⟩ hunsent
    rw [hsent] at hunsent
    cases hunsent
  · rintro _ ⟨⟩ event hevent
    rcases hfrom event hevent with hevent | ⟨frame, hframe, rfl⟩
    · exact (h.answered request hrequest).2 call hcall event hevent
    · exact fun heq => (h.answered request hrequest).1 frame (htaken hframe) (Option.some.inj heq)
  · exact fun _ request hrequest hkind => ⟨_, rfl, h.is_open hkept hcall hrequest hkind⟩
  · rintro _ ⟨⟩
    exact h.request call hcall
  · rintro _ ⟨⟩
    refine ⟨fun frame hin => hharmless frame (hmore hin), fun event hevent => ?_, hothers⟩
    rcases hfrom event hevent with hevent | ⟨frame, hframe, rfl⟩
    · exact hevents event hevent
    · exact hharmless frame (htaken hframe)

/-- The worker answers the request that came first. -/
theorem Sound.answered_first {number : ℕ} {kind : Kind} {id : Id} {rest : List (ℕ × Kind × Id)}
    {events : List (WorkerEvent Id Payload)} (h : Sound w) (hkept : Kept w)
    (hunanswered : w.unanswered = (number, kind, id) :: rest) (hechoes : Echoes kind id events)
    (stream : List UInt8) (answers : List (ℕ × WorkerEvent Id Payload)) :
    Sound { w with
      stream, answers
      pending := w.pending ++ events.map fun event => (number, event)
      unanswered := rest } := by
  obtain ⟨hbelow, hrequests, hframes, hcalls⟩ := h.below
  have hhead : (number, kind, id) ∈ w.unanswered := hunanswered ▸ mem_cons_self
  have htail {request : ℕ × Kind × Id} (hrequest : request ∈ rest) : request ∈ w.unanswered :=
    hunanswered ▸ mem_cons_of_mem _ hrequest
  have honce := h.once
  rw [hunanswered, map_cons, nodup_cons] at honce
  refine ⟨⟨hbelow, fun request hrequest => hrequests request (htail hrequest), ?_, hcalls⟩,
    honce.2, h.endsOnce, fun call hin hunsent => ?_, fun request hrequest =>
    ⟨?_, (h.answered request (htail hrequest)).2⟩,
    fun hnot request hrequest => h.ambiguous hnot request (htail hrequest),
    fun call hin request hrequest => h.request call hin request (htail hrequest),
    fun call hin => ?_, h.own⟩
  · refine forall_mem_append.2 ⟨hframes, forall_mem_map.2 fun event _ => ?_⟩
    exact hrequests _ hhead
  · obtain ⟨hnil, hnew, hnone⟩ := h.unsent call hin hunsent
    refine ⟨hnil, fun request hrequest => hnew request (htail hrequest), ?_⟩
    exact forall_mem_append.2 ⟨hnone, forall_mem_map.2 fun event _ => hnew _ hhead⟩
  · refine forall_mem_append.2
      ⟨(h.answered request (htail hrequest)).1, forall_mem_map.2 fun event _ hsame => ?_⟩
    dsimp only at hsame
    exact honce.1 (mem_map.2 ⟨request, hrequest, hsame.symm⟩)
  · obtain ⟨hharmless, hevents, hothers⟩ := h.harmless call hin
    refine ⟨forall_mem_append.2 ⟨hharmless, forall_mem_map.2 fun event hevent => ?_⟩,
      hevents, fun request hrequest => hothers request (htail hrequest)⟩
    obtain ⟨hecho, hstore⟩ := hechoes event hevent
    by_cases hnumber : number = call.number
    · exact .inl (congrArg some hnumber)
    refine .inr ⟨fun hid => hothers _ hhead hnumber (hecho _ hid).symm, fun _ => ?_⟩
    -- an exchange that ended and is unanswered is recoverable, and its reply no notice
    have hkind : kind = .recoverable := by
      by_contra hother
      exact hnumber (h.is_open hkept hin hhead hother).symm
    subst hkind
    have hisStore := hstore nofun
    rcases event with _ | _ | _ | _ | _
    · rfl
    · rfl
    · cases hisStore
    · rfl
    · rfl

variable [DecidableEq Id]

/-- **What is taken for the reply is that of the call**, and then its request has been answered. -/
theorem Sound.reply (h : Sound w) (hcall : w.call = some call)
    {rest : List (ℕ × WorkerEvent Id Payload)} (hpending : w.pending = first ++ rest)
    {events : List (Option ℕ × WorkerEvent Id Payload)} (hreply : Reply call first events) :
    (events ≠ [] ∧ ∀ event ∈ events, event.1 = some call.number) ∧
      ∀ request ∈ w.unanswered, request.1 ≠ call.number := by
  obtain ⟨hframes, hevents, -⟩ := h.harmless call hcall
  rcases hreply with ⟨hkind, rfl, hnil, hcheck⟩ | ⟨hkind, frame, hframe, rfl, hid⟩
  · obtain ⟨hall, hsome⟩ := checkBatch_ok hcheck
    obtain ⟨event, hevent, hid⟩ := hsome.resolve_left Bool.false_ne_true
    obtain ⟨entry, hentry, rfl⟩ := mem_map.1 hevent
    refine ⟨⟨hnil, fun event hevent => ?_⟩, fun request hrequest hsame => ?_⟩
    · rcases hall event.2 (mem_map_of_mem hevent) with hnotice | hid
      · refine (hevents event hevent).resolve_right fun hother => ?_
        rw [hother.2 hkind] at hnotice
        cases hnotice
      · exact (hevents event hevent).own hid
    · refine (h.answered request hrequest).2 call hcall entry hentry ?_
      rw [(hevents entry hentry).own hid, hsame]
  · have hin : frame ∈ w.pending := hpending ▸ mem_append_left _ hframe
    have hown := (hframes frame hin).own hid
    refine ⟨⟨nofun, fun event hevent => ?_⟩, fun request hrequest hsame => ?_⟩
    · rw [mem_singleton.1 hevent]
      exact hown
    · refine (h.answered request hrequest).1 frame hin ?_
      rw [hsame]
      exact Option.some.inj hown

/-- **Where the frames come from stays known**, where an exchange opens fresh. -/
theorem sound_step (h : Sound w) (hkept : Kept w) (hfresh : Fresh w e) (hst : Steps wire w e w') :
    Sound w' := by
  cases hst with
  | @refused kind id fault retired inFlight hcall hstuck hretired =>
    obtain ⟨hbelow, hrequests, hframes, hcalls⟩ := h.below
    have hno {call : Call Id Payload} : call ∉ w.call := by
      rw [hcall]
      exact nofun
    refine ⟨⟨fun _ hin => absurd hin hno, fun request hin => (hrequests request hin).trans
      (Nat.lt_succ_self _), fun frame hin => (hframes frame hin).trans (Nat.lt_succ_self _), ?_⟩,
      h.once, ⟨nodup_snoc h.endsOnce.1 fun other hin => (hcalls other hin).ne, fun _ hin =>
      absurd hin hno⟩, fun _ hin => absurd hin hno, h.answered, fun hnot => absurd (.inl hretired)
      hnot, h.request, h.harmless, ?_⟩
    · exact forall_mem_append.2 ⟨fun call hin => (hcalls call hin).trans (Nat.lt_succ_self _),
        forall_mem_singleton.2 (Nat.lt_succ_self _)⟩
    · refine forall_mem_append.2 ⟨h.own, forall_mem_singleton.2 fun events heq => ?_⟩
      cases heq
  | opened hcall hretired hflight => exact h.opened hcall hretired hflight hfresh
  | sent hcall hsent => exact h.sent hkept hcall hsent
  | waits hcall hsent hadvances hfrom => exact h.waits hkept hcall hsent hadvances hfrom
  | fails hcall hadvances =>
    obtain ⟨hpending, -, hsame⟩ := hadvances
    exact h.ends hcall hpending (by rw [hsame]; rfl) (by rw [hsame]; rfl) rfl
      (by rw [hsame]; rfl) (fun hnot => absurd (.inl rfl) hnot) fun _ heq => by cases heq
  | @unknown call hcall hkind =>
    refine h.ends hcall (nil_append _).symm rfl rfl rfl rfl (fun _ request hrequest => ?_)
      fun _ heq => by cases heq
    -- a request that is not recoverable would be that of the call, which is
    by_contra hother
    rw [h.request call hcall request hrequest (h.is_open hkept hcall hrequest hother).symm] at hother
    exact hother hkind
  | @replies e first w' events call hcall hadvances hreply =>
    obtain ⟨hpending, -, hsame⟩ := hadvances
    obtain ⟨hown, hdone⟩ := h.reply hcall hpending hreply
    refine h.ends hcall hpending (by rw [hsame]; rfl) (by rw [hsame]; rfl) rfl
      (by rw [hsame]; rfl) (fun _ request hrequest => ?_) ?_
    · by_contra hother
      exact hdone request hrequest (h.is_open hkept hcall hrequest hother).symm
    · rintro _ ⟨⟩
      exact hown
  | cancelled hcall =>
    exact h.ends hcall (nil_append _).symm rfl rfl rfl rfl
      (fun hnot => absurd (.inr ⟨(hkept.claimed _ hcall).1, rfl⟩) hnot) fun _ heq => by cases heq
  | answered hunanswered hechoes _ => exact h.answered_first hkept hunanswered hechoes _ _
  | distrusted hcall =>
    have hno {call : Call Id Payload} : call ∉ w.call := by
      rw [hcall]
      exact nofun
    exact ⟨h.below, h.once, h.endsOnce, h.unsent, h.answered, fun hnot => absurd (.inl rfl) hnot,
      h.request, h.harmless, h.own⟩

/-- What is on its way, collected or returned was sent by the worker. -/
structure Genuine (w : World Id Payload) : Prop where
  pending : ∀ frame ∈ w.pending, frame ∈ w.answers
  events : ∀ call ∈ w.call, ∀ event ∈ call.events, ∃ frame ∈ w.answers, event = received frame
  ended : ∀ call ∈ w.ended, ∀ events, call.2.2 = .ok events →
    ∀ event ∈ events, ∃ frame ∈ w.answers, event = received frame

omit [DecidableEq Id] in
theorem genuine_new : Genuine (.new : World Id Payload) := ⟨nofun, nofun, nofun⟩

omit [DecidableEq Id] in
theorem Genuine.ended_append (h : Genuine w) {ending : ℕ × Kind × Ending Id Payload}
    (hending : ∀ events, ending.2.2 = .ok events →
      ∀ event ∈ events, ∃ frame ∈ w.answers, event = received frame) :
    ∀ call ∈ w.ended ++ [ending], ∀ events, call.2.2 = .ok events →
      ∀ event ∈ events, ∃ frame ∈ w.answers, event = received frame :=
  forall_mem_append.2 ⟨h.ended, forall_mem_singleton.2 hending⟩

theorem genuine_step (h : Genuine w) (hst : Steps wire w e w') : Genuine w' := by
  cases hst with
  | refused _ _ _ =>
    exact ⟨h.pending, h.events, h.ended_append fun _ heq => by cases heq⟩
  | opened _ _ _ =>
    refine ⟨h.pending, ?_, h.ended⟩
    rintro _ ⟨⟩
    exact nofun
  | sent hcall _ =>
    refine ⟨h.pending, ?_, h.ended⟩
    rintro _ ⟨⟩ event hevent
    exact h.events _ hcall event hevent
  | waits hcall _ hadvances hfrom =>
    obtain ⟨hpending, -, hsame⟩ := hadvances
    rw [hsame]
    refine ⟨fun frame hframe => h.pending frame ?_, ?_, h.ended⟩
    · exact hpending ▸ mem_append_right _ hframe
    · rintro _ ⟨⟩ event hevent
      rcases hfrom event hevent with hevent | ⟨frame, hframe, rfl⟩
      · exact h.events _ hcall event hevent
      · exact ⟨frame, h.pending frame (hpending ▸ mem_append_left _ hframe), rfl⟩
  | fails _ hadvances =>
    obtain ⟨hpending, -, hsame⟩ := hadvances
    rw [hsame]
    refine ⟨fun frame hframe => h.pending frame ?_, nofun, h.ended_append fun _ heq => by cases heq⟩
    exact hpending ▸ mem_append_right _ hframe
  | unknown _ _ | cancelled _ => exact ⟨h.pending, nofun, h.ended_append fun _ heq => by cases heq⟩
  | replies hcall hadvances hreply =>
    obtain ⟨hpending, -, hsame⟩ := hadvances
    rw [hsame]
    refine ⟨fun frame hframe => h.pending frame (hpending ▸ mem_append_right _ hframe), nofun,
      h.ended_append ?_⟩
    rintro _ ⟨⟩
    rcases hreply with ⟨-, rfl, -, -⟩ | ⟨-, frame, hframe, rfl, -⟩
    · exact h.events _ hcall
    · refine forall_mem_singleton.2 ⟨frame, h.pending frame ?_, rfl⟩
      exact hpending ▸ mem_append_left _ hframe
  | answered _ _ _ =>
    have hmore {event : Option ℕ × WorkerEvent Id Payload}
        (hfrom : ∃ frame ∈ w.answers, event = received frame)
        (more : List (ℕ × WorkerEvent Id Payload)) :
        ∃ frame ∈ w.answers ++ more, event = received frame := by
      obtain ⟨frame, hframe, rfl⟩ := hfrom
      exact ⟨frame, mem_append_left _ hframe, rfl⟩
    refine ⟨forall_mem_append.2 ⟨fun frame hframe => ?_, fun frame hframe => ?_⟩,
      fun call hcall event hevent => hmore (h.events call hcall event hevent) _,
      fun call hcall events heq event hevent =>
        hmore (h.ended call hcall events heq event hevent) _⟩
    · exact mem_append_left _ (h.pending frame hframe)
    · exact mem_append_right _ hframe
  | distrusted _ => exact ⟨h.pending, h.events, h.ended⟩

/-! ### Late replies -/

/-- A recoverable exchange consumes the late replies that are remembered: it goes on after a read of
them only, and takes the one reply to it that comes among them. -/
def Drains (w w' : World Id Payload) : Prop :=
  ∀ call ∈ w.call, call.kind = .recoverable → ∃ first, w.pending = first ++ w'.pending ∧
    ((∀ frame ∈ first, isStale call.id w.staleRequestIds frame.2 = true) →
      w'.call = some { call with events := [] } ∧ w'.retired = w.retired ∧ w'.ended = w.ended) ∧
    ∀ frame, (first.filter fun frame => !isStale call.id w.staleRequestIds frame.2) = [frame] →
      (∃ payload, frame.2 = .store (.reply call.id payload)) →
      w'.call = none ∧ w'.retired = w.retired ∧
        w'.ended = w.ended ++ [(call.number, call.kind, .ok [received frame])]

theorem recoverableRead_stale (hwire : wire.Lawful) {expected : Id}
    (h : ∀ frame ∈ first, isStale expected stale frame.2 = true) :
    recoverableRead wire.fromValue expected stale (marked wire first) = .waiting [] := by
  have hnone : (first.map received).filter (fun event => !isStale expected stale event.2) = [] := by
    refine filter_eq_nil_iff.2 (forall_mem_map.2 fun frame hframe => ?_)
    rw [received, h frame hframe]
    exact Bool.false_ne_true
  rw [recoverableRead, parseAll_map hwire]
  dsimp only
  rw [hnone]

theorem recoverableRead_one (hwire : wire.Lawful) {expected : Id}
    {frame : ℕ × WorkerEvent Id Payload}
    (h : first.filter (fun frame => !isStale expected stale frame.2) = [frame]) :
    recoverableRead wire.fromValue expected stale (marked wire first) =
      single expected (received frame) := by
  have hone : (first.map received).filter (fun event => !isStale expected stale event.2) =
      [received frame] := by
    rw [filter_map]
    exact congrArg (List.map received) h
  rw [recoverableRead, parseAll_map hwire]
  dsimp only
  rw [hone]

omit [DecidableEq Id] in
@[simp]
theorem settle_pending (w : World Id Payload) (call : Call Id Payload)
    (verdict : Verdict Id Payload (Option ℕ)) : (w.settle call verdict).pending = w.pending := by
  cases verdict <;> rfl

theorem drains_read (hwire : wire.Lawful) (hw : Streamed wire w) {size : ℕ}
    (hst : (connection wire).step w (.read size) w') : Drains w w' := by
  intro call hcall hkind
  simp only [connection, Machine.ofFun, World.next] at hst
  obtain ⟨call', hcall', hst⟩ := Option.bind_eq_some_iff.1 hst
  obtain rfl := Option.some.inj (hcall'.symm.trans hcall)
  split_ifs at hst
  cases hst
  obtain ⟨first, more, left, hpending, hread, -, -⟩ := readBytes_spec hw call' size
  have hverdict : onRead wire call' w.staleRequestIds (marked wire first) =
      recoverableRead wire.fromValue call'.id w.staleRequestIds (marked wire first) := by
    rw [onRead, hkind]
  rw [hread, hverdict]
  refine ⟨first, by rw [settle_pending, hpending], fun hstale => ?_, fun frame hframe => ?_⟩
  · rw [recoverableRead_stale hwire hstale]
    exact ⟨rfl, rfl, rfl⟩
  · rintro ⟨payload, hreply⟩
    have hsingle : single call'.id (received frame) = .ok [received frame] := by
      rw [single, received, hreply]
      exact if_pos rfl
    rw [recoverableRead_one hwire hframe, hsingle]
    exact ⟨rfl, rfl, rfl⟩

/-- What a step does to the attempts that are remembered: a timeout of a recoverable exchange adds
its own, and until there are too many none is forgotten. -/
def Remembers (w : World Id Payload) (e : Event Id Payload) (w' : World Id Payload) : Prop :=
  (w.staleRequestIds.length < maxStaleRequestIds → w.staleRequestIds ⊆ w'.staleRequestIds) ∧
    ∀ call ∈ w.call, call.kind = .recoverable → e = .timeout → call.id ∈ w'.staleRequestIds

omit [DecidableEq Id] in
theorem mem_rememberStale (stale : List Id) (id : Id) : id ∈ rememberStale stale id :=
  mem_append_right _ (mem_singleton_self id)

omit [DecidableEq Id] in
theorem subset_rememberStale (h : stale.length < maxStaleRequestIds) (id : Id) :
    stale ⊆ rememberStale stale id := by
  rw [rememberStale, if_neg (Nat.not_le.2 h)]
  exact subset_append_left stale [id]

theorem remembers_step (hwire : wire.Lawful) (hw : Streamed wire w)
    (hst : (connection wire).step w e w') : Remembers w e w' := by
  constructor
  · intro hlength
    cases steps_of_next hwire hw hst with
    | unknown _ _ => exact subset_rememberStale hlength _
    | waits _ _ hadvances _ | fails _ hadvances | replies _ hadvances _ =>
      rw [hadvances.same]; exact List.Subset.refl _
    | refused _ _ _ | opened _ _ _ | sent _ _ | cancelled _ | answered _ _ _ | distrusted _ =>
      exact List.Subset.refl _
  · rintro call hcall hkind rfl
    simp only [connection, Machine.ofFun, World.next] at hst
    obtain ⟨call', hcall', hst⟩ := Option.bind_eq_some_iff.1 hst
    cases hcall'.symm.trans hcall
    split_ifs at hst
    cases hst
    rw [World.finish, hkind]
    exact mem_rememberStale _ _

/-! ### The connection -/

/-- What holds of a connection where every exchange opens fresh. -/
structure Traced (wire : Wire Id Payload Value) (w : World Id Payload) : Prop where
  streamed : Streamed wire w
  kept : Kept w
  sound : Sound w
  genuine : Genuine w

theorem traced_step (hwire : wire.Lawful) (h : Traced wire w) (hfresh : Fresh w e)
    (hst : (connection wire).step w e w') : Traced wire w' := by
  have hsteps := steps_of_next hwire h.streamed hst
  exact ⟨streamed_step hwire h.streamed hst, kept_step h.kept hsteps,
    sound_step h.sound h.kept hfresh hsteps, genuine_step h.genuine hsteps⟩

/-- A reply is that of the call: frames that the worker sent for its request. -/
def Replied (w : World Id Payload) : Prop :=
  ∀ call ∈ w.ended, ∀ events, call.2.2 = .ok events → events ≠ [] ∧
    (∀ event ∈ events, ∃ answer, (call.1, answer) ∈ w.answers ∧ event = received (call.1, answer)) ∧
    ∀ other ∈ w.ended, (∀ events, other.2.2 ≠ .ok events) →
      ∀ event ∈ events, event.1 ≠ some other.1

omit [DecidableEq Id] in
theorem eq_of_fst_eq {α : Type} {list : List (ℕ × α)} (h : (list.map Prod.fst).Nodup)
    {entry other : ℕ × α} (hentry : entry ∈ list) (hother : other ∈ list)
    (hsame : entry.1 = other.1) : entry = other :=
  inj_on_of_nodup_map h hentry hother hsame

omit [DecidableEq Id] in
theorem Traced.replied (h : Traced wire w) : Replied w := by
  intro call hcall events hok
  obtain ⟨hnil, hown⟩ := h.sound.own call hcall events hok
  refine ⟨hnil, fun event hevent => ?_, fun other hother hnot event hevent hsame => ?_⟩
  · obtain ⟨frame, hframe, rfl⟩ := h.genuine.ended call hcall events hok event hevent
    obtain ⟨number, answer⟩ := frame
    obtain rfl : number = call.1 := Option.some.inj (hown _ hevent)
    exact ⟨answer, hframe, rfl⟩
  · rw [hown event hevent, Option.some.injEq] at hsame
    obtain rfl := eq_of_fst_eq h.sound.endsOnce.1 hcall hother hsame
    exact hnot events hok

/-- **A reply is that of the call** in every run whose exchanges open fresh.  In every run late
replies of attempts that timed out are drained, and no call returns a reply after a strict exchange
that was left unfinished. -/
theorem no_shifted_reply (hwire : wire.Lawful) :
    (∀ es w, ((connection wire).only Fresh).Run .new es w → Replied w) ∧
    ∀ es w, (connection wire).Run .new es w → Sealed w.ended ∧
      (∀ size w', (connection wire).step w (.read size) w' → Drains w w') ∧
      ∀ e w', (connection wire).step w e w' → Remembers w e w' := by
  refine ⟨fun es w hrun => ?_, fun es w hrun => ?_⟩
  · have h : Traced wire w := hrun.invariant_only (I := Traced wire)
      ⟨streamed_new, kept_new, sound_new, genuine_new⟩ fun _ _ _ hw hfresh hst =>
        traced_step hwire hw hfresh hst
    exact h.replied
  · have h : Streamed wire w ∧ Kept w := hrun.invariant (I := fun w => Streamed wire w ∧ Kept w)
      ⟨streamed_new, kept_new⟩ fun _ _ _ hw hst =>
        ⟨streamed_step hwire hw.1 hst, kept_step hw.2 (steps_of_next hwire hw.1 hst)⟩
    exact ⟨h.2.noneLater, fun size w' hst => drains_read hwire h.1 hst,
      fun e w' hst => remembers_step hwire h.1 hst⟩

/-! ### Runs -/

theorem step_read (size : ℕ) {values : List Value} {left : List UInt8} (hcall : w.call = some call)
    (hsize : call.sent = true ∧ 0 < size ∧ size ≤ w.stream.length)
    (hpush : pushBytes wire.fromSlice w.buffered (w.stream.take size) = (.ok values, left)) :
    ((connection wire).only Fresh).step w (.read size)
      ({ w with
          buffered := left
          stream := w.stream.drop size
          pending := w.pending.drop values.length }.settle call
        (onRead wire call w.staleRequestIds (tag w.pending values))) := by
  refine ⟨trivial, Option.bind_eq_some_iff.2 ⟨call, hcall, ?_⟩⟩
  rw [if_pos hsize, World.readBytes, hpush]

/-- Events on lines: a byte for the kind, and as many for the id. -/
def exampleWire : Wire ℕ Unit (List UInt8) where
  toVec value := if newline ∈ value then .error "newline" else .ok value
  fromSlice := .ok
  toValue
    | .answer id _ => 0 :: List.replicate id 1
    | .store (.reply id _) => 2 :: List.replicate id 1
    | .store (.fatal _) => [3]
    | .shutdownNotice _ => [4]
    | .sourceStatus _ => [5]
    | .stdinCredit _ => [6]
  fromValue
    | 0 :: ids => .ok (.answer ids.length ())
    | 2 :: ids => .ok (.store (.reply ids.length ()))
    | 3 :: _ => .ok (.store (.fatal ()))
    | 4 :: _ => .ok (.shutdownNotice ())
    | 5 :: _ => .ok (.sourceStatus ())
    | 6 :: _ => .ok (.stdinCredit ())
    | _ => .error "unknown"

theorem exampleWire_lawful : exampleWire.Lawful := by
  refine ⟨fun value bytes h => ?_, fun value bytes h => ?_, fun event => ?_⟩
  · simp only [exampleWire] at h
    split_ifs at h with hnewline
    cases h
    exact hnewline
  · simp only [exampleWire] at h
    split_ifs at h
    cases h
    rfl
  · rcases event with ⟨id, _⟩ | ⟨⟨id, _⟩ | _⟩ | _ | _ | _
    · exact congrArg (fun n => Except.ok (WorkerEvent.answer n ())) length_replicate
    · exact congrArg (fun n => Except.ok (WorkerEvent.store (.reply n ()))) length_replicate
    all_goals rfl

theorem pushBytes_exampleWire (lines : List (List UInt8))
    (hlines : ∀ line ∈ lines, newline ∉ line ∧ line.length + 1 ≤ maxControlMessageBytes) :
    pushBytes exampleWire.fromSlice [] (Lines.join newline lines) = (.ok lines, []) := by
  refine (pushBytes_iff retained_nil).2 ⟨⟨lines, (append_nil _).symm, nofun, ?_⟩, by decide⟩
  refine List.forall₂_same.2 fun line hline => ⟨(hlines line hline).1, ?_⟩
  rw [decodeFrame, if_neg (Nat.not_lt.2 (hlines line hline).2)]
  rfl

/-- A call, up to its request. -/
def ask (kind : Kind) (id : ℕ) : List (Event ℕ Unit) := [.start kind id, .write true]

/-- A start with a notice, an attempt that times out, and another that drains its late reply. -/
def drainedEvents : List (Event ℕ Unit) :=
  ask .control 0 ++ [.answer [.answer 0 (), .shutdownNotice ()]] ++ [.read 4] ++
    ([.timeout] ++ ask .recoverable 1 ++ [.timeout]) ++
    (ask .recoverable 2 ++ [.answer [.store (.reply 1 ())], .answer [.store (.reply 2 ())]]) ++
    [.read 7]

/-- The world after that. -/
def drainedWorld : World ℕ Unit where
  buffered := []
  retired := false
  inFlight := false
  staleRequestIds := [1]
  call := none
  stream := []
  pending := []
  unanswered := []
  answers := [(0, .answer 0 ()), (0, .shutdownNotice ()), (1, .store (.reply 1 ())),
    (2, .store (.reply 2 ()))]
  count := 3
  ended := [(0, .control, .ok [(some 0, .answer 0 ()), (some 0, .shutdownNotice ())]),
    (1, .recoverable, .failed .timedOut), (2, .recoverable, .ok [(some 2, .store (.reply 2 ()))])]

theorem drained_run :
    ((connection exampleWire).only Fresh).Run .new drainedEvents drainedWorld := by
  have hasked : ((connection exampleWire).only Fresh).Run .new
      (ask .control 0 ++ [.answer [.answer 0 (), .shutdownNotice ()]]) _ :=
    Machine.run_only_ofFun rfl
  have hread := hasked.snoc (step_read 4 rfl (by decide)
    (pushBytes_exampleWire [[0], [4]] (by decide)))
  have htried : ((connection exampleWire).only Fresh).Run .new
      (_ ++ ([.timeout] ++ ask .recoverable 1 ++ [.timeout])) _ :=
    hread.append (Machine.run_only_ofFun rfl)
  have hagain : ((connection exampleWire).only Fresh).Run .new
      (_ ++ (ask .recoverable 2 ++
        [.answer [.store (.reply 1 ())], .answer [.store (.reply 2 ())]])) _ :=
    htried.append (Machine.run_only_ofFun rfl)
  have hlast := hagain.snoc (step_read 7 rfl (by decide)
    (pushBytes_exampleWire [[2, 1], [2, 1, 1]] (by decide)))
  exact hlast

theorem no_shifted_reply_example :
    ((connection exampleWire).only Fresh).Run .new drainedEvents drainedWorld ∧
      Replied drainedWorld ∧ Sealed drainedWorld.ended :=
  have h := no_shifted_reply exampleWire_lawful
  ⟨drained_run, h.1 _ _ drained_run, (h.2 _ _ drained_run.of_only).1⟩

/-- The answer of a start comes without its notice, which the next start finds. -/
def shiftedEvents : List (Event ℕ Unit) :=
  ask .control 0 ++ [.answer [.answer 0 (), .shutdownNotice ()]] ++ [.read 2] ++
    ([.timeout] ++ ask .control 1 ++ [.answer [.answer 1 ()]]) ++ [.read 5] ++ [.timeout]

/-- The world after the shifted notice. -/
def shiftedWorld : World ℕ Unit where
  buffered := []
  retired := false
  inFlight := false
  staleRequestIds := []
  call := none
  stream := []
  pending := []
  unanswered := []
  answers := [(0, .answer 0 ()), (0, .shutdownNotice ()), (1, .answer 1 ())]
  count := 2
  ended := [(0, .control, .ok [(some 0, .answer 0 ())]),
    (1, .control, .ok [(some 0, .shutdownNotice ()), (some 1, .answer 1 ())])]

theorem shifted_run : (connection exampleWire).Run .new shiftedEvents shiftedWorld := by
  have hasked : (connection exampleWire).Run .new
      (ask .control 0 ++ [.answer [.answer 0 (), .shutdownNotice ()]]) _ :=
    Machine.run_ofFun.2 rfl
  -- the notice stays behind
  have hread := hasked.snoc (step_read 2 rfl (by decide)
    (pushBytes_exampleWire [[0]] (by decide))).2
  have hagain : (connection exampleWire).Run .new
      (_ ++ ([.timeout] ++ ask .control 1 ++ [.answer [.answer 1 ()]])) _ :=
    hread.append (Machine.run_ofFun.2 rfl)
  have hnext := hagain.snoc (step_read 5 rfl (by decide)
    (pushBytes_exampleWire [[4], [0, 1]] (by decide))).2
  exact hnext.snoc rfl

/-- **A late notice is taken for that of the next call.** -/
theorem shifted_notice : ¬ ∀ (wire : Wire ℕ Unit (List UInt8)), wire.Lawful →
    ∀ es w, (connection wire).Run .new es w → Replied w := by
  intro hall
  have hreplied := hall exampleWire exampleWire_lawful _ _ shifted_run
  obtain ⟨-, hown, -⟩ := hreplied _ (mem_cons_of_mem _ mem_cons_self) _ rfl
  obtain ⟨answer, -, hreceived⟩ := hown _ mem_cons_self
  exact absurd (show some 0 = some 1 from congrArg Prod.fst hreceived) (by decide)

end Lvu.Shared.Exchange
