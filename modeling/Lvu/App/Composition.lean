import Mathlib.Data.Finset.Basic
import Lvu.App.SharedMemory

/-!
# What a window keeps of its saves

A window saves the state of every open view when it changed (`queue_memory_saves` of
`lvu-app/src/main.rs`): a changed state waits in `pending`, is handed to the store's thread and
kept in `inflight` until the answer, and is then remembered as the last saved state of its view or
as one that failed.  Command results are saved by the same way
(`dispatch_command_persistence` of `command_controller.rs`), and the shutdown queues what is left
until nothing is (`flush_memory`).
-/

namespace Lvu.App

open Store

/-! ### What the window keeps -/

/-- What the window knows of an open view. -/
structure OpenView (S : Type) where
  /-- Its identity, where it is one. -/
  id : Option ViewId
  sourceId : Option SourceId
  /-- `view_interaction_revision`. -/
  interaction : Option ℕ
  /-- `view_has_pending_query`. -/
  pendingQuery : Bool
  /-- `persistent_view_state`. -/
  state : Option S

/-- The open views of a window. -/
structure OpenViews (S : Type) where
  items : List (OpenView S)
  distinct : (items.filterMap OpenView.id).Nodup

structure PendingMemorySave (S : Type) where
  request : SaveRequest S
  /-- How often the window had changed when the view was in this state. -/
  since : ℕ

/-- A save of command results that is wanted. -/
structure Publication where
  view : ViewId
  /-- The number of a request that the queue did not take. -/
  reserved : Option UInt64
  /-- The number of the request that is on its way. -/
  sequence : Option UInt64

/-- A state that was handed to the thread. -/
structure Capture (S : Type) where
  request : SaveRequest S
  /-- How often the window had changed when the view was in this state. -/
  since : ℕ
  /-- The state has command results added to it. -/
  published : Bool

/-- How far the shutdown is. -/
inductive Phase
  | running
  /-- `flush_memory` queues what is left. -/
  | submitting
  /-- Its flush is on its way. -/
  | flushing
  | flushed (answer : Except String Unit)
  /-- It ended; the answer to its last flush, if there was one. -/
  | ended (answer : Option (Except String Unit)) (result : Except String Unit)
deriving DecidableEq

def Phase.isEnded : Phase → Bool
  | .ended _ _ => true
  | _ => false

/-- What a window keeps of its saves. -/
structure Composition (S V : Type) where
  views : OpenViews S
  definitions : Finset SourceId
  ready : Finset SourceId
  restoring : Finset ViewId
  deferred : Finset ViewId
  loadFences : Dict ViewId ℕ
  persistence : Option Publication
  unavailable : Bool
  last : Dict ViewId S
  pending : Dict ViewId (PendingMemorySave S)
  inflight : Dict UInt64 (ViewId × S)
  failed : Dict ViewId S
  ackSequence : Dict ViewId UInt64
  sequence : UInt64
  phase : Phase
  memory : SharedMemory S V
  /-- The views before every change. -/
  seen : List (OpenViews S)
  captures : List (Capture S)

/-- `u64::saturating_add(1)`. -/
def nextSequence (q : UInt64) : UInt64 := if q = 18446744073709551615 then q else q + 1

namespace SharedMemory

variable {S V : Type}

/-- The queue takes a command. -/
def accepts (m : SharedMemory S V) : Bool :=
  !m.stopped && m.running && decide (m.queue.length < QUEUE_CAPACITY)

end SharedMemory

namespace Composition

variable {S V : Type}

/-- `suppresses_autosave`. -/
def suppresses (c : Composition S V) (id : ViewId) : Bool :=
  c.persistence.any fun p => decide (p.view = id)

/-- A save of the view is in flight. -/
def inFlight (c : Composition S V) (id : ViewId) : Bool :=
  c.inflight.entries.any fun e => decide (e.2.1 = id)

section
variable [DecidableEq S]

/-- `reconcile_pending_state`: what stays pending, and whether the state is looked after. -/
def reconcilePendingState (c : Composition S V) (id : ViewId) (current : S) :
    Dict ViewId (PendingMemorySave S) × Bool :=
  let pending := match c.pending.lookup id with
    | some p => if p.request.state ≠ current then c.pending.erase id else c.pending
    | none => c.pending
  (pending,
    decide (c.last.lookup id = some current) ||
    ((pending.lookup id).any fun p => decide (p.request.state = current)) ||
    (c.inflight.entries.any fun e => decide (e.2.1 = id) && decide (e.2.2 = current)) ||
    decide (c.failed.lookup id = some current))

end

/-- The view can be saved, as far as it is not being restored. -/
def savable (c : Composition S V) (view : OpenView S) : Option (ViewId × SourceId) :=
  match view.id, view.sourceId with
  | some id, some source =>
    if c.suppresses id = false ∧ id ∉ c.deferred ∧ source ∈ c.definitions ∧ source ∈ c.ready then
      some (id, source)
    else none
  | _, _ => none

/-- The view is being restored, and the user has not interfered. -/
def restores (c : Composition S V) (id : ViewId) (view : OpenView S) : Bool :=
  decide (id ∈ c.restoring) && decide (c.loadFences.lookup id = view.interaction) &&
    view.pendingQuery

/-- The first loop of `queue_memory_saves`, for one view. -/
def queueView [DecidableEq S] (c : Composition S V) (view : OpenView S) : Composition S V :=
  match c.savable view with
  | none => c
  | some (id, source) =>
    if c.restores id view then c
    else
      let c := { c with restoring := c.restoring.erase id }
      match view.state with
      | none => c
      | some state =>
        let (pending, tracked) := c.reconcilePendingState id state
        let c := { c with pending }
        if tracked then c
        else
          let sequence := nextSequence c.sequence
          { c with
            sequence
            pending := c.pending.insert id ⟨⟨sequence, source, id, state⟩, c.seen.length⟩ }

/-- A request goes on its way. -/
def submit (c : Composition S V) (request : SaveRequest S) (since : ℕ) (published : Bool) :
    Composition S V :=
  { c with
    pending := c.pending.erase request.viewId
    inflight := c.inflight.insert request.sequence (request.viewId, request.state)
    memory := c.memory.push (.save request)
    captures := c.captures ++ [⟨request, since, published⟩] }

/-- The second loop of `queue_memory_saves`; `due` says for which views the debounce elapsed. -/
def submitPending (force : Bool) (due : ViewId → Bool) :
    List ViewId → Composition S V → Composition S V
  | [], c => c
  | id :: rest, c => match c.pending.lookup id with
    | none => submitPending force due rest c
    | some p =>
      if (!force && !due id) || c.inFlight id then submitPending force due rest c
      else if c.memory.accepts then submitPending force due rest (c.submit p.request p.since false)
      else c

/-- `queue_memory_saves`; the pending requests are visited in some order. -/
def queueMemorySaves [DecidableEq S] (c : Composition S V) (force : Bool) (due : ViewId → Bool)
    (order : List ViewId) : Composition S V :=
  submitPending force due order (c.views.items.foldl queueView c)

/-- `handle_command_memory_event`: the save of command results was answered. -/
def handleCommandMemoryEvent (c : Composition S V) (sequence : UInt64) : Composition S V :=
  { c with persistence := c.persistence.filter fun p => decide (p.sequence ≠ some sequence) }

/-- `handle_memory_event`, as far as it is about saves. -/
def handleMemoryEvent (c : Composition S V) : Event V → Composition S V
  | .saved _ view sequence =>
    let c := c.handleCommandMemoryEvent sequence
    match c.inflight.lookup sequence with
    | none => c
    | some (_, state) =>
      let c := { c with inflight := c.inflight.erase sequence }
      if (c.ackSequence.lookup view).all fun seen => decide (seen < sequence) then
        { c with
          ackSequence := c.ackSequence.insert view sequence
          last := c.last.insert view state
          failed := c.failed.erase view }
      else c
  | .saveFailed _ view sequence _ =>
    let c := c.handleCommandMemoryEvent sequence
    match c.inflight.lookup sequence with
    | none => c
    | some (_, state) =>
      { c with
        inflight := c.inflight.erase sequence
        failed := c.failed.insert view state }
  | _ => c

/-- `dispatch_command_persistence`: the results are added to the state as it is. -/
def dispatch (c : Composition S V) (patch : S → S) : Option (Composition S V) :=
  match c.persistence with
  | none => none
  | some p =>
    if p.sequence.isSome || c.inFlight p.view then none
    else match c.views.items.find? fun view => decide (view.id = some p.view) with
      | none => none
      | some view => match view.sourceId, view.state with
        | some source, some state =>
          if source ∈ c.definitions then
            let sequence := p.reserved.getD (nextSequence c.sequence)
            let c := { c with
              sequence := if p.reserved.isSome then c.sequence else sequence
              pending := c.pending.erase p.view }
            if c.memory.accepts then
              some { c.submit ⟨sequence, source, p.view, patch state⟩ c.seen.length true with
                persistence := some { p with sequence := some sequence } }
            else some { c with persistence := some { p with reserved := some sequence } }
          else none
        | _, _ => none

/-- What happens. -/
inductive Act (S V : Type)
  /-- The user edits, a view is loaded or restored, a source comes or goes. -/
  | change (views : OpenViews S) (definitions ready : Finset SourceId)
      (restoring deferred : Finset ViewId) (loadFences : Dict ViewId ℕ)
  /-- The window hands over another command. -/
  | other (command : Command S)
  /-- A number is used up for something else. -/
  | number
  | serve (reply : Reply V) (delivered : Bool)
  | poll
  /-- Memory is gone for this session. -/
  | fatal
  | tick (due : ViewId → Bool) (order : List ViewId)
  /-- Command results of a view are to be saved; the save is handed over; or it is given up. -/
  | publish (view : ViewId)
  | dispatch (patch : S → S)
  | unpublish
  /-- The shutdown: `flush_memory` is entered, hands over its flush, looks at the answer, or gives
  up. -/
  | shutdown
  | flush
  | conclude (order : List ViewId)
  | giveUp (error : String)

/-- Neither a save nor a flush. -/
def Ordinary : Command S → Prop
  | .save _ => False
  | .flush => False
  | _ => True

instance (command : Command S) : Decidable (Ordinary command) :=
  match command with
  | .save _ => isFalse fun h => h
  | .flush => isFalse fun h => h
  | .load _ _ => isTrue trivial
  | .createDerivedView _ => isTrue trivial
  | .recent => isTrue trivial
  | .listRecipes _ => isTrue trivial
  | .recipeHistory _ _ => isTrue trivial
  | .saveRecipe _ _ => isTrue trivial
  | .importRecipe _ _ _ => isTrue trivial
  | .exportRecipe _ _ _ _ => isTrue trivial
  | .recordSuggestion _ => isTrue trivial
  | .stop => isTrue trivial

/-- The phase when the thread has answered its next command. -/
def phaseAfter (c : Composition S V) (delivered : Bool) : Phase :=
  match c.phase, c.memory.queue, delivered with
  | .flushing, .flush :: _, true => .flushed c.memory.failures.flush
  | phase, _, _ => phase

/-- One step. -/
def step [DecidableEq S] (c : Composition S V) (act : Act S V) : Option (Composition S V) :=
  if c.phase.isEnded then none
  else match act with
    | .change views definitions ready restoring deferred loadFences =>
      some { c with
        views, definitions, ready, restoring, deferred, loadFences, seen := c.seen ++ [c.views] }
    | .other command =>
      if Ordinary command ∧ c.memory.accepts then
        some { c with memory := c.memory.push command }
      else none
    | .number => some { c with sequence := nextSequence c.sequence }
    | .serve reply delivered => (c.memory.step (.serve reply delivered)).map fun memory =>
        { c with memory, phase := c.phaseAfter delivered }
    | .poll => match c.memory.events with
      | [] => none
      | event :: rest =>
        some ({ c with memory := { c.memory with events := rest } }.handleMemoryEvent event)
    | .fatal => some { c with unavailable := true, persistence := none }
    | .tick due order => match c.phase with
      | .running => some (c.queueMemorySaves false due order)
      | .submitting => some (c.queueMemorySaves true due order)
      | _ => none
    | .publish view =>
      if c.phase = .running ∧ c.persistence = none then
        some { c with persistence := some ⟨view, none, none⟩ }
      else none
    | .dispatch patch => if c.phase = .running then c.dispatch patch else none
    | .unpublish => some { c with persistence := none }
    | .shutdown =>
      if c.phase ≠ .running then none
      else if c.unavailable then some { c with phase := .ended none (.ok ()) }
      else some { c with phase := .submitting }
    | .flush =>
      if c.phase = .submitting ∧ c.pending.size = 0 ∧ c.memory.accepts then
        some { c with memory := c.memory.push .flush, phase := .flushing }
      else none
    | .conclude order => match c.phase with
      | .flushed answer =>
        let c := match answer with
          | .error _ => c
          | .ok () => c.queueMemorySaves true (fun _ => true) order
        some { c with
          phase := match flushMemory answer c.pending.size c.inflight.size with
            | some result => .ended (some answer) result
            | none => .submitting }
      | _ => none
    | .giveUp error =>
      if c.phase = .running then none else some { c with phase := .ended none (.error error) }

/-- A window that was just opened. -/
def initial (views : OpenViews S) (definitions ready : Finset SourceId) : Composition S V where
  views
  definitions
  ready
  restoring := ∅
  deferred := ∅
  loadFences := ∅
  persistence := none
  unavailable := false
  last := ∅
  pending := ∅
  inflight := ∅
  failed := ∅
  ackSequence := ∅
  sequence := 0
  phase := .running
  memory := .wrap
  seen := []
  captures := []

/-- A window and the thread of its store. -/
def machine (S V : Type) [DecidableEq S] : Machine (Composition S V) (Act S V) := .ofFun step

end Composition

end Lvu.App
