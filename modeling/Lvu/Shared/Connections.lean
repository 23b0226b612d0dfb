import Lvu.Machine.Run
import Lvu.Shared.CommitTable
import Lvu.Shared.Viewers

/-!
# The worker's connections

Every window has a connection, served by a handler of its own (`lvu-shared/src/worker.rs`).  The
handlers run side by side: between any two requests of one, others may attach, commit and leave.
A union commit is two steps, its admission and its settlement.

* `worker` : the machine of all handlers.
* `Counted` : what the viewer set owes the windows that are attached.
* `attached_counted` : it is so unless a window's other connection ends.
* `retired_drains` : a window that attached again is not counted once its old connection ends.
-/

namespace Lvu.Shared

open Commit

def protocolVersion : UInt32 := 1

def maxControlMessageBytes : ℕ := 256 * 1024

/-- `StoreMethod`, as far as it concerns union commits. -/
inductive StoreMethod
  | unionCommit (requestId windowId : String) (request : CommitRequest)
  | unionStatus (requestId windowId unionViewId : String) (candidateGeneration : UInt64)
      (nonce : String) (digest : CommitDigest)
  /-- Any other method: it touches neither the viewers nor the commits. -/
  | other (requestId windowId : String)
deriving DecidableEq

def StoreMethod.windowId : StoreMethod → String
  | .unionCommit _ windowId _ => windowId
  | .unionStatus _ windowId _ _ _ _ => windowId
  | .other _ windowId => windowId

inductive WorkerRequest
  | hello (requestId : String) (windowPid : UInt32) (windowId : String) (protocol : UInt32)
  | goodbye (requestId : String)
  /-- Any other request; `closes` if it is answered by closing the connection. -/
  | other (requestId : String) (closes : Bool)
deriving DecidableEq

/-- A decoded value, as `dispatch_request` parses it. -/
inductive Request
  | store (method : StoreMethod)
  | control (request : WorkerRequest)
  | unparseable

inductive WorkerEvent
  | welcome (requestId workerSession : String)
  | refused (requestId reason : String)
  | unionCommitted (requestId : String) (outcome : CommitOutcome)
  | unionStatus (requestId : String) (status : StatusAnswer)
  /-- The answer to a request that touches neither the viewers nor the commits. -/
  | other (requestId : String)
deriving DecidableEq

inductive DispatchOutcome
  | reply (events : List WorkerEvent)
  | close (events : List WorkerEvent)

/-- Where the handler of a connection stands. -/
inductive Phase
  | serving
  /-- In `mediated_union_commit`, between the admission of the attempt and its settlement. -/
  | settling (requestId : String) (request : CommitRequest) (attemptEpoch : UInt64)
  /-- Out of the loop; the goodbye is still to come. -/
  | leaving
  | gone
deriving DecidableEq

/-- A connection: who is attached by it, its handler, and what it was told. -/
structure Connection where
  window : Option (UInt32 × String)
  phase : Phase
  replies : List WorkerEvent

/-- The process id of the window that is attached. -/
def Connection.pid (c : Connection) : Option UInt32 := c.window.map Prod.fst

/-- The id of the window that is attached. -/
def Connection.windowId (c : Connection) : Option String := c.window.map Prod.snd

/-- The handler is in its loop. -/
def Connection.served (c : Connection) : Bool :=
  match c.phase with
  | .serving | .settling _ _ _ => true
  | .leaving | .gone => false

/-- The end of a dispatch. -/
def Connection.answer (c : Connection) : DispatchOutcome → Connection
  | .reply events => { c with phase := .serving, replies := c.replies ++ events }
  | .close events => { c with phase := .leaving, replies := c.replies ++ events }

/-- `WorkerService`, with all its connections. -/
structure World where
  workerSession : String
  viewers : ViewerSet
  shutdownFlag : Bool
  commits : TableState
  connections : List Connection

namespace World

/-- A worker at its start. -/
def new (workerSession : String) (now grace : ℕ) : World :=
  ⟨workerSession, .new now grace, false, .new, []⟩

/-- `WorkerService::should_stop`. -/
def shouldStop (w : World) (now : ℕ) : Bool := w.shutdownFlag || w.viewers.shouldShutdown now

/-- A connection written back. -/
def put (w : World) (i : ℕ) (c : Connection) : World :=
  { w with connections := w.connections.set i c }

/-- The windows that are attached by a connection being served. -/
def servedPids (w : World) : Finset UInt32 :=
  ((w.connections.filter (·.served)).filterMap (·.pid)).toFinset

/-- The ids of the windows that are attached. -/
def attachedIds (w : World) : Finset String := (w.connections.filterMap (·.windowId)).toFinset

end World

/-! ### Dispatch -/

def dispatchHello (workerSession : String) (viewers : ViewerSet) (requestId : String)
    (windowPid : UInt32) (windowId : String) (protocol : UInt32) :
    DispatchOutcome × ViewerSet × Option (UInt32 × String) :=
  if protocol ≠ protocolVersion then
    (.close [.refused requestId s!"protocol version {protocol} is not supported here (worker speaks {protocolVersion})"],
      viewers, none)
  else match viewers.hello windowPid with
    | (.admitted, viewers) =>
      (.reply [.welcome requestId workerSession], viewers, some (windowPid, windowId))
    | (.refusedFull, viewers) =>
      (.close [.refused requestId s!"worker is full ({maxViewers} windows)"], viewers, none)

def storeFailure (method : StoreMethod) (reason : String) : WorkerEvent :=
  match method with
  | .unionCommit requestId _ _ => .unionCommitted requestId (.refused reason)
  | .unionStatus requestId _ _ _ _ _ => .unionStatus requestId .unknown
  | .other requestId _ => .other requestId

section
-- the length of a method's serialization
variable (size : StoreMethod → ℕ)

/-- `dispatch_store` up to the method itself: what makes it fail. -/
def storeRefusal (attached : String) (method : StoreMethod) : Option String :=
  if method.windowId ≠ attached then some s!"window identity mismatch: attached as '{attached}'"
  else if size method + 1 > maxControlMessageBytes then
    some s!"store command is {size method + 1} bytes; limit is {maxControlMessageBytes}"
  else none

def dispatchStore (w : World) (i : ℕ) (c : Connection) (attached : String)
    (method : StoreMethod) : World :=
  match storeRefusal size attached method with
  | some reason => w.put i (c.answer (.reply [storeFailure method reason]))
  | none =>
    match method with
    | .unionCommit requestId _ request =>
      match commit w.commits request with
      | (.answer outcome, commits) =>
        { w with commits }.put i (c.answer (.reply [.unionCommitted requestId outcome]))
      | (.verify epoch, commits) =>
        { w with commits }.put i { c with phase := .settling requestId request epoch }
    | .unionStatus requestId windowId unionViewId candidateGeneration nonce digest =>
      w.put i (c.answer (.reply
        [.unionStatus requestId (status w.commits windowId unionViewId candidateGeneration nonce digest)]))
    | .other requestId _ => w.put i (c.answer (.reply [.other requestId]))

def dispatchRequest (w : World) (i : ℕ) (c : Connection) : Request → World
  | .unparseable => w.put i (c.answer (.close []))
  | .store method =>
    match c.window with
    | some (_, attached) => dispatchStore size w i c attached method
    | none => w.put i (c.answer (.close []))
  | .control (.hello requestId windowPid windowId protocol) =>
    match c.window with
    | none =>
      let (outcome, viewers, window) :=
        dispatchHello w.workerSession w.viewers requestId windowPid windowId protocol
      { w with viewers }.put i ({ c with window }.answer outcome)
    | some _ => w.put i (c.answer (.close
        [.refused requestId "already attached; open a new connection instead"]))
  | .control (.goodbye _) => w.put i (c.answer (.close []))
  | .control (.other requestId closes) =>
    if c.window = none ∨ closes then w.put i (c.answer (.close [.other requestId]))
    else w.put i (c.answer (.reply [.other requestId]))

/-! ### The machine -/

/-- What may happen next. -/
inductive Event
  /-- The accept loop takes a connection. -/
  | accept (now : ℕ)
  /-- The handler of a connection dispatches a request. -/
  | request (i : ℕ) (request : Request)
  /-- The handler of a connection settles its attempt against the fences it observes. -/
  | settle (i : ℕ) (current : List UnionSourceFence)
  /-- The handler leaves its loop: end of stream, a broken frame, a failed read or write. -/
  | lost (i : ℕ)
  /-- The handler says goodbye for its window and returns. -/
  | exit (i : ℕ) (now : ℕ)
  /-- `request_shutdown`. -/
  | requestShutdown

/-- The step of an event, where it can happen. -/
def World.next (w : World) : Event → Option World
  | .accept now =>
    if w.shouldStop now then none
    else some { w with connections := w.connections ++ [⟨none, .serving, []⟩] }
  | .request i request => do
    let c ← w.connections[i]?
    if c.phase = .serving then some (dispatchRequest size w i c request) else none
  | .settle i current => do
    let c ← w.connections[i]?
    match c.phase with
    | .settling requestId request epoch =>
      let (outcome, commits) :=
        settle w.commits request.windowId request.unionViewId epoch request current
      some ({ w with commits }.put i (c.answer (.reply [.unionCommitted requestId outcome])))
    | _ => none
  | .lost i => do
    let c ← w.connections[i]?
    if c.phase = .serving then some (w.put i { c with phase := .leaving }) else none
  | .exit i now => do
    let c ← w.connections[i]?
    if c.phase = .leaving then
      let viewers := match c.window with
        | some (pid, _) => w.viewers.goodbye now pid
        | none => w.viewers
      some ({ w with viewers }.put i { c with window := none, phase := .gone })
    else none
  | .requestShutdown => some { w with shutdownFlag := true }

/-- The worker. -/
def worker : Machine World Event := .ofFun (World.next size)

/-! ### What a step does -/

variable {size} {w w' : World} {e : Event} {es : List Event} {i j : ℕ} {c c' : Connection}

/-- What an event can do. -/
inductive Effect (size : StoreMethod → ℕ) (w : World) : Event → World → Prop
  | accepts {now : ℕ} :
      Effect size w (.accept now) { w with connections := w.connections ++ [⟨none, .serving, []⟩] }
  | shuts : Effect size w .requestShutdown { w with shutdownFlag := true }
  /-- A connection goes on, or leaves its loop. -/
  | goes {e : Event} {i : ℕ} {c c' : Connection} (mem : w.connections[i]? = some c)
      (window : c'.window = c.window) (served : c'.served = true → c.served = true) :
      Effect size w e (w.put i c')
  | attaches {i : ℕ} {c c' : Connection} {requestId windowId : String} {pid : UInt32}
      (mem : w.connections[i]? = some c) (unattached : c.window = none)
      (window : c'.window = some (pid, windowId)) (admitted : (w.viewers.hello pid).1 = .admitted) :
      Effect size w (.request i (.control (.hello requestId pid windowId protocolVersion)))
        ({ w with viewers := (w.viewers.hello pid).2 }.put i c')
  | commits {i : ℕ} {c c' : Connection} {requestId windowId attached : String} {pid : UInt32}
      {request : CommitRequest} (mem : w.connections[i]? = some c)
      (window : c.window = some (pid, attached))
      (fits : storeRefusal size attached (.unionCommit requestId windowId request) = none)
      (same : c'.window = c.window) (served : c.served = true) :
      Effect size w (.request i (.store (.unionCommit requestId windowId request)))
        ({ w with commits := (commit w.commits request).2 }.put i c')
  | settles {i : ℕ} {c c' : Connection} {r : CommitRequest} {epoch : UInt64}
      {current : List UnionSourceFence} (mem : w.connections[i]? = some c)
      (same : c'.window = c.window) (served : c.served = true) :
      Effect size w (.settle i current) ({ w with
        commits := (settle w.commits r.windowId r.unionViewId epoch r current).2 }.put i c')
  | leaves {i now : ℕ} {c : Connection} (mem : w.connections[i]? = some c)
      (leaving : c.phase = .leaving) :
      Effect size w (.exit i now) ({ w with
        viewers := match c.window with
          | some (pid, _) => w.viewers.goodbye now pid
          | none => w.viewers }.put i { c with window := none, phase := .gone })

theorem Connection.answer_window (c : Connection) (outcome : DispatchOutcome) :
    (c.answer outcome).window = c.window := by
  cases outcome <;> rfl

theorem Connection.served_of_serving (h : c.phase = .serving) : c.served = true := by
  simp [Connection.served, h]

/-- A store method. -/
theorem dispatchStore_effect (hc : w.connections[i]? = some c) (hs : c.phase = .serving)
    {pid : UInt32} {attached : String} (hwindow : c.window = some (pid, attached))
    (method : StoreMethod) :
    Effect size w (.request i (.store method)) (dispatchStore size w i c attached method) := by
  have hserved := c.served_of_serving hs
  have hanswer : ∀ (e : Event) (outcome : DispatchOutcome),
      Effect size w e (w.put i (c.answer outcome)) :=
    fun e outcome => .goes hc (c.answer_window outcome) fun _ => hserved
  unfold dispatchStore
  cases hfits : storeRefusal size attached method with
  | some reason => exact hanswer _ _
  | none =>
    cases method with
    | unionCommit requestId windowId request =>
      have hcommits : ∀ c' : Connection, c'.window = c.window →
          Effect size w (.request i (.store (.unionCommit requestId windowId request)))
            ({ w with commits := (commit w.commits request).2 }.put i c') :=
        fun c' hsame => .commits hc hwindow hfits hsame hserved
      cases hcommit : commit w.commits request with
      | mk admission commits =>
        rw [hcommit] at hcommits
        simp only [hcommit]
        cases admission with
        | answer outcome => exact hcommits _ (c.answer_window _)
        | verify epoch => exact hcommits _ rfl
    | unionStatus requestId windowId unionViewId g nonce digest | other requestId windowId =>
      exact hanswer _ _

/-- A hello on a connection that is not attached. -/
theorem dispatchHello_effect (hc : w.connections[i]? = some c) (hs : c.phase = .serving)
    (hwindow : c.window = none) (requestId : String) (pid : UInt32) (windowId : String)
    (protocol : UInt32) :
    Effect size w (.request i (.control (.hello requestId pid windowId protocol)))
      (dispatchRequest size w i c (.control (.hello requestId pid windowId protocol))) := by
  have hserved := c.served_of_serving hs
  have hsame : { c with window := none } = c := by rw [← hwindow]
  simp only [dispatchRequest, hwindow, dispatchHello]
  split_ifs with hversion
  · simp only [hsame]
    exact .goes hc (c.answer_window _) fun _ => hserved
  · obtain rfl : protocol = protocolVersion := not_not.1 hversion
    rcases w.viewers.hello_cases pid with ⟨hadmitted, -⟩ | ⟨-, -, hfull⟩
    · have hattaches : ∀ c' : Connection, c'.window = some (pid, windowId) →
          Effect size w (.request i (.control (.hello requestId pid windowId protocolVersion)))
            ({ w with viewers := (w.viewers.hello pid).2 }.put i c') :=
        fun c' hwindow' => .attaches hc hwindow hwindow' hadmitted
      cases hhello : w.viewers.hello pid with
      | mk admission viewers =>
        rw [hhello] at hadmitted hattaches
        obtain rfl : admission = .admitted := hadmitted
        exact hattaches _ (Connection.answer_window _ _)
    · simp only [hfull, hsame]
      exact .goes hc (c.answer_window _) fun _ => hserved

/-- **Every step has one of the effects.** -/
theorem next_effect (h : w.next size e = some w') : Effect size w e w' := by
  cases e with
  | accept now =>
    simp only [World.next] at h
    split_ifs at h
    cases h
    exact .accepts
  | requestShutdown =>
    cases h
    exact .shuts
  | request i request =>
    simp only [World.next, Option.bind_eq_bind, Option.bind_eq_some_iff] at h
    obtain ⟨c, hc, h⟩ := h
    split_ifs at h with hs
    cases h
    have hserved := c.served_of_serving hs
    cases request with
    | unparseable => exact .goes hc (c.answer_window _) fun _ => hserved
    | store method =>
      simp only [dispatchRequest]
      cases hwindow : c.window with
      | none => exact .goes hc (c.answer_window _) fun _ => hserved
      | some window => exact dispatchStore_effect hc hs hwindow method
    | control request =>
      cases request with
      | goodbye requestId => exact .goes hc (c.answer_window _) fun _ => hserved
      | other requestId closes =>
        simp only [dispatchRequest]
        split_ifs
        · exact .goes hc (c.answer_window _) fun _ => hserved
        · exact .goes hc (c.answer_window _) fun _ => hserved
      | hello requestId pid windowId protocol =>
        cases hwindow : c.window with
        | none => exact dispatchHello_effect hc hs hwindow requestId pid windowId protocol
        | some window =>
          simp only [dispatchRequest, hwindow]
          exact .goes hc (c.answer_window _) fun _ => hserved
  | settle i current =>
    simp only [World.next, Option.bind_eq_bind, Option.bind_eq_some_iff] at h
    obtain ⟨c, hc, h⟩ := h
    cases hphase : c.phase with
    | settling requestId r epoch =>
      simp only [hphase] at h
      cases h
      exact .settles hc (c.answer_window _) (by simp [Connection.served, hphase])
    | _ => simp [hphase] at h
  | lost i =>
    simp only [World.next, Option.bind_eq_bind, Option.bind_eq_some_iff] at h
    obtain ⟨c, hc, h⟩ := h
    split_ifs at h with hs
    cases h
    exact .goes hc rfl fun _ => c.served_of_serving hs
  | exit i now =>
    simp only [World.next, Option.bind_eq_bind, Option.bind_eq_some_iff] at h
    obtain ⟨c, hc, h⟩ := h
    split_ifs at h with hleaving
    cases h
    exact .leaves hc hleaving

/-! ### Who is attached -/

theorem mem_connections : c ∈ w.connections ↔ ∃ i : ℕ, w.connections[i]? = some c :=
  List.mem_iff_getElem?

theorem mem_servedPids {pid : UInt32} :
    pid ∈ w.servedPids ↔ ∃ c ∈ w.connections, c.served = true ∧ c.pid = some pid := by
  simp only [World.servedPids, List.mem_toFinset, List.mem_filterMap, List.mem_filter, and_assoc]

theorem mem_attachedIds {id : String} :
    id ∈ w.attachedIds ↔ ∃ c ∈ w.connections, c.windowId = some id := by
  simp only [World.attachedIds, List.mem_toFinset, List.mem_filterMap]

theorem mem_put : c' ∈ (w.put i c).connections → c' = c ∨ c' ∈ w.connections := by
  intro h
  exact (List.mem_or_eq_of_mem_set h).symm

theorem servedPids_put {pid : UInt32} (h : pid ∈ (w.put i c).servedPids) :
    (c.served = true ∧ c.pid = some pid) ∨ pid ∈ w.servedPids := by
  obtain ⟨c', hc', hserved, hpid⟩ := mem_servedPids.1 h
  rcases mem_put hc' with rfl | hmem
  · exact .inl ⟨hserved, hpid⟩
  · exact .inr (mem_servedPids.2 ⟨c', hmem, hserved, hpid⟩)

/-! ### Viewers -/

/-- The windows being served are counted. -/
structure Viewing (w : World) : Prop where
  counted : w.servedPids ⊆ w.viewers.viewers
  card_le : w.viewers.viewers.card ≤ maxViewers

/-- A handler says goodbye for a window that no connection being served is attached for. -/
def Alone (w : World) : Event → Prop
  | .exit i _ => ∀ pid ∈ w.connections[i]?.bind Connection.pid, pid ∉ w.servedPids
  | _ => True

instance (w : World) : (e : Event) → Decidable (Alone w e)
  | .exit i _ => inferInstanceAs
      (Decidable (∀ pid ∈ w.connections[i]?.bind Connection.pid, pid ∉ w.servedPids))
  | .accept _ | .request _ _ | .settle _ _ | .lost _ | .requestShutdown => isTrue trivial

theorem viewing_new (session : String) (now grace : ℕ) : Viewing (.new session now grace) :=
  ⟨fun _ h => absurd (mem_servedPids.1 h) (by simp [World.new]), Nat.zero_le _⟩

theorem Viewing.mono (h : Viewing w) (hv : w'.viewers = w.viewers)
    (hs : w'.servedPids ⊆ w.servedPids) : Viewing w' :=
  ⟨fun _ hp => hv ▸ h.counted (hs hp), hv ▸ h.card_le⟩

theorem servedPids_goes (hc : w.connections[i]? = some c) (hwindow : c'.window = c.window)
    (hserved : c'.served = true → c.served = true) : (w.put i c').servedPids ⊆ w.servedPids := by
  intro pid hp
  rcases servedPids_put hp with ⟨hs, hpid⟩ | hold
  · refine mem_servedPids.2 ⟨c, mem_connections.2 ⟨i, hc⟩, hserved hs, ?_⟩
    rw [← hpid, Connection.pid, Connection.pid, hwindow]
  · exact hold

theorem Viewing.step (h : Viewing w) (halone : Alone w e) (hst : (worker size).step w e w') :
    Viewing w' := by
  have heffect : Effect size w e w' := next_effect hst
  cases heffect with
  | accepts =>
    refine h.mono rfl fun pid hp => ?_
    obtain ⟨c, hc, hserved, hpid⟩ := mem_servedPids.1 hp
    rcases List.mem_append.1 hc with hold | hnew
    · exact mem_servedPids.2 ⟨c, hold, hserved, hpid⟩
    · rw [List.mem_singleton.1 hnew] at hpid
      exact absurd hpid (by simp [Connection.pid])
  | shuts => exact h.mono rfl fun _ => id
  | goes hc hwindow hserved => exact h.mono rfl (servedPids_goes hc hwindow hserved)
  | commits hc _ _ hsame hserved =>
    exact h.mono rfl (servedPids_goes hc hsame fun _ => hserved)
  | settles hc hsame hserved => exact h.mono rfl (servedPids_goes hc hsame fun _ => hserved)
  | @attaches i c c' _ _ pid hc _ hwindow hadmitted =>
    have hviewers : (w.viewers.hello pid).2.viewers = insert pid w.viewers.viewers := by
      rcases w.viewers.hello_cases pid with hadm | ⟨-, -, hfull⟩
      · exact hadm.2
      · rw [hfull] at hadmitted
        exact absurd hadmitted (by simp)
    refine ⟨fun pid' hp => ?_, ViewerSet.card_hello_le h.card_le⟩
    show pid' ∈ (w.viewers.hello pid).2.viewers
    rw [hviewers, Finset.mem_insert]
    rcases servedPids_put hp with ⟨-, hpid⟩ | hold
    · rw [Connection.pid, hwindow] at hpid
      exact .inl (Option.some.inj hpid).symm
    · exact .inr (h.counted hold)
  | @leaves i now c hc hleaving =>
    -- whoever is served now was served before, and is not the one who leaves
    have hserved : ∀ pid, pid ∈ World.servedPids ({ w with
        viewers := match c.window with
          | some (pid, _) => w.viewers.goodbye now pid
          | none => w.viewers }.put i { c with window := none, phase := .gone }) →
        pid ∈ w.servedPids := by
      intro pid hp
      rcases servedPids_put hp with ⟨hs, -⟩ | hold
      · exact absurd hs (by simp [Connection.served])
      · exact hold
    cases hwindow : c.window with
    | none =>
      rw [hwindow] at hserved
      exact h.mono rfl hserved
    | some window =>
      obtain ⟨pid, id⟩ := window
      rw [hwindow] at hserved
      have hnone : pid ∉ w.servedPids := halone pid (by simp [hc, Connection.pid, hwindow])
      refine ⟨fun pid' hp => ?_, ViewerSet.card_goodbye_le h.card_le⟩
      have hold := hserved pid' hp
      exact ViewerSet.mem_goodbye.2 ⟨fun heq => hnone (heq ▸ hold), h.counted hold⟩

/-- **What the viewer set owes the windows being served.** -/
structure Counted (size : StoreMethod → ℕ) (w : World) : Prop where
  /-- They are counted. -/
  counted : w.servedPids ⊆ w.viewers.viewers
  /-- They keep the worker. -/
  alive : w.servedPids.Nonempty →
    1 ≤ w.viewers.viewerCount ∧ ∀ now, w.viewers.shouldShutdown now = false
  /-- A window more than the cap is refused, and nobody loses its place for it. -/
  refused : maxViewers ≤ w.servedPids.card → ∀ pid ∉ w.servedPids, ∀ i c,
    w.connections[i]? = some c → c.phase = .serving → c.window = none → ∀ requestId windowId,
      w.next size (.request i (.control (.hello requestId pid windowId protocolVersion))) =
        some (w.put i (c.answer
          (.close [.refused requestId s!"worker is full ({maxViewers} windows)"])))

/-- **Windows being served are counted**, in every run in which no handler says goodbye for a
window that another connection serves. -/
theorem attached_counted {session : String} {now grace : ℕ}
    (h : ((worker size).only Alone).Run (.new session now grace) es w) : Counted size w := by
  have hv : Viewing w := h.invariant_only (viewing_new session now grace)
    fun _ _ _ hw halone hst => hw.step halone hst
  refine ⟨hv.counted, fun ⟨pid, hp⟩ => ?_, fun hfull pid hpid i c hc hs hwindow requestId windowId => ?_⟩
  · have hmem := hv.counted hp
    exact ⟨(ViewerSet.shouldShutdown_of_mem hmem 0).1,
      fun now => (ViewerSet.shouldShutdown_of_mem hmem now).2⟩
  · -- the cap is reached by the windows being served alone
    have hcard : w.viewers.viewers.card ≤ w.servedPids.card := hv.card_le.trans hfull
    have heq : w.servedPids = w.viewers.viewers := Finset.eq_of_subset_of_card_le hv.counted hcard
    have hhello : w.viewers.hello pid = (.refusedFull, w.viewers) :=
      ViewerSet.hello_full (heq ▸ hfull) (heq ▸ hpid)
    have hsame : (⟨none, .serving, c.replies⟩ : Connection) = c := by rw [← hwindow, ← hs]
    simp only [World.next, hc, Option.bind_eq_bind, Option.bind_some, hs, if_true, dispatchRequest,
      hwindow, dispatchHello, ne_eq, not_true_eq_false, if_false, hhello, hsame]

/-! ### A window that attaches again -/

/-- A window attaches, and attaches again by another connection before the first one has ended. -/
def exampleEvents : List Event :=
  [.accept 0, .request 0 (.control (.hello "r" 401 "w" 1)), .accept 0,
    .request 1 (.control (.hello "r" 401 "w" 1)), .lost 0]

theorem attached_counted_twice : ∃ w, ((worker fun _ => 0).only Alone).Run (.new "x" 0 10)
    exampleEvents w ∧ Counted (fun _ => 0) w := by
  obtain ⟨w, hrun, -⟩ : ∃ w, ((worker fun _ => 0).only Alone).Run (.new "x" 0 10)
      exampleEvents w ∧ True := Machine.exists_run_only (by decide +kernel)
  exact ⟨w, hrun, attached_counted hrun⟩

/-- **A window that attached again is not counted once its old connection ends**: the worker drains
and stops under it. -/
theorem retired_drains : ¬ ∀ (size : StoreMethod → ℕ) (session : String) (now grace : ℕ)
    (es : List Event) (w : World), (worker size).Run (.new session now grace) es w →
      w.servedPids.Nonempty →
        1 ≤ w.viewers.viewerCount ∧ ∀ now, w.viewers.shouldShutdown now = false := by
  intro hall
  obtain ⟨w, hw, hserved, hcount⟩ : ∃ w, (worker fun _ => 0).Run (.new "x" 0 10)
      (exampleEvents ++ [Event.exit 0 0]) w ∧ w.servedPids = {401} ∧ w.viewers.viewerCount = 0 :=
    Machine.exists_run (by decide +kernel)
  have halive := hall _ _ _ _ _ w hw (by simp [hserved])
  exact absurd halive.1 (by simp [hcount])

end

end Lvu.Shared
