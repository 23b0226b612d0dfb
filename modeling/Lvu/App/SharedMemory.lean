import Lvu.Data.Dict
import Lvu.Machine.Run
import Lvu.Store.Views

/-!
# The shared store of a window

A window hands its store commands to a queue; one thread serves them in order, one mediated call
for each (`shared_worker` of `lvu-app/src/memory.rs`, over `SharedStore` of
`shared_capture.rs`).  The thread remembers which saves failed, by view, and whether a recipe
request failed, in one slot; `Flush` is answered from what it remembers, and the shutdown
(`flush_memory` of `main.rs`) from the answer to its `Flush`.

* `Consistent` : a view is remembered exactly while its last save was not answered as saved, and the
  slot is filled exactly while the last recipe request, of whatever recipe, was not.
* `clean_flush` : **what a clean flush and a clean exit say.**
* `exit_hides_refused` : the exit is clean over a save that an unavailable store refused.
-/

namespace Lvu.App

open Store List

/-- The longest queue of commands, and of events. -/
def QUEUE_CAPACITY : ℕ := 32

/-- What every refusal of a store that could not be opened says. -/
def STORE_UNAVAILABLE_MARKER : String := "workspace store unavailable"

/-- A request to save a view in some state. -/
structure SaveRequest (S : Type) where
  sequence : UInt64
  /-- The identity in the source's definition. -/
  definition : SourceId
  viewId : ViewId
  state : S
deriving DecidableEq

/-- What a window asks of the store. -/
inductive Command (S : Type)
  | load (definition : SourceId) (viewId : ViewId)
  | save (request : SaveRequest S)
  | createDerivedView (request : SaveRequest S)
  | recent
  | listRecipes (request : RecipeRequestMeta)
  | recipeHistory (request : RecipeRequestMeta) (id : RecipeId)
  | saveRecipe (request : RecipeRequestMeta) (recipe : RecipeId)
  /-- `recipe` is the one the file holds. -/
  | importRecipe (request : RecipeRequestMeta) (path : String) (recipe : RecipeId)
  | exportRecipe (request : RecipeRequestMeta) (recipe : RecipeId) (revision : Uuid) (path : String)
  | recordSuggestion (accepted : Bool)
  | flush
  | stop
deriving DecidableEq

/-- What a window is told. -/
inductive Event (V : Type)
  | loaded (sourceId : SourceId) (viewId : ViewId) (views : List (WorkingView V))
  | loadFailed (sourceId : SourceId) (viewId : ViewId) (error : String)
  | saved (sourceId : SourceId) (viewId : ViewId) (sequence : UInt64)
  | saveFailed (sourceId : SourceId) (viewId : ViewId) (sequence : UInt64) (error : String)
  | derivedViewCreated (viewId : ViewId) (result : Except String Unit)
  | recent
  | recentFailed (error : String)
  | recipes (request : RecipeRequestMeta)
  | recipeHistory (request : RecipeRequestMeta)
  | recipeSaved (request : RecipeRequestMeta) (saved : RecipeId)
  | recipeExported (request : RecipeRequestMeta) (saved : RecipeId)
  | recipeFailed (request : RecipeRequestMeta) (error : String)
  | suggestionFailed (error : String)
deriving DecidableEq

variable {S V : Type}

/-! ### The mediated calls -/

/-- The answer of the worker to a call, or a transport fault. -/
abbrev Reply (V : Type) := Except String (StoreEvent V)

/-- A reply that is not the answer to the request. -/
def unexpectedReply (method : String) : String :=
  "shared store answered " ++ method ++ " with an unexpected reply shape"

namespace SharedStore

def loadViews : Reply V → Except String (Event V)
  | .error error => .error error
  | .ok (.loaded source view views) => .ok (.loaded source view views)
  | .ok (.loadFailed source view reason) => .ok (.loadFailed source view reason)
  | .ok _ => .error (unexpectedReply "load")

def saveView : Reply V → Except String (Event V)
  | .error error => .error error
  | .ok (.saved source view sequence _) => .ok (.saved source view sequence)
  | .ok (.saveFailed source view sequence reason _) => .ok (.saveFailed source view sequence reason)
  | .ok _ => .error (unexpectedReply "save")

def createDerivedView : Reply V → Except String (Event V)
  | .error error => .error error
  | .ok (.saved _ view _ _) => .ok (.derivedViewCreated view (.ok ()))
  | .ok (.saveFailed _ view _ reason _) => .ok (.derivedViewCreated view (.error reason))
  | .ok _ => .error (unexpectedReply "create-derived-view")

def recentSources : Reply V → Except String (Event V)
  | .error error => .error error
  | .ok .recent => .ok .recent
  | .ok (.recentFailed reason) => .ok (.recentFailed reason)
  | .ok _ => .error (unexpectedReply "recent")

def listRecipes : Reply V → Except String (Event V)
  | .error error => .error error
  | .ok (.recipes request) => .ok (.recipes request)
  | .ok (.recipeFailed request reason) => .ok (.recipeFailed request reason)
  | .ok _ => .error (unexpectedReply "list-recipes")

def recipeHistory : Reply V → Except String (Event V)
  | .error error => .error error
  | .ok (.recipeHistory request) => .ok (.recipeHistory request)
  | .ok (.recipeFailed request reason) => .ok (.recipeFailed request reason)
  | .ok _ => .error (unexpectedReply "recipe-history")

/-- `SharedStore::save_recipe` and `import_recipe`, which differ by the method they name. -/
def saveRecipe (method : String) : Reply V → Except String (Event V)
  | .error error => .error error
  | .ok (.recipeSaved request saved) => .ok (.recipeSaved request saved)
  | .ok (.recipeFailed request reason) => .ok (.recipeFailed request reason)
  | .ok _ => .error (unexpectedReply method)

def exportRecipe : Reply V → Except String (Event V)
  | .error error => .error error
  | .ok (.recipeExported request saved) => .ok (.recipeExported request saved)
  | .ok (.recipeFailed request reason) => .ok (.recipeFailed request reason)
  | .ok _ => .error (unexpectedReply "export-recipe")

def recordSuggestion : Reply V → Except String (Option (Event V))
  | .error error => .error error
  | .ok .suggestionRecorded => .ok none
  | .ok (.suggestionFailed reason) => .ok (some (.suggestionFailed reason))
  | .ok _ => .error (unexpectedReply "record-suggestion")

end SharedStore

/-- The worker builds both answers to a save from the request (`mediated_save`). -/
def Echoes : Command S → Reply V → Prop
  | .save request, .ok (.saved source view sequence _) =>
    source = request.definition ∧ view = request.viewId ∧ sequence = request.sequence
  | .save request, .ok (.saveFailed source view sequence _ _) =>
    source = request.definition ∧ view = request.viewId ∧ sequence = request.sequence
  | _, _ => True

instance (command : Command S) (reply : Reply V) : Decidable (Echoes command reply) := by
  unfold Echoes
  split <;> infer_instance

/-! ### The worker thread -/

/-- What the thread remembers: unrecovered failures. -/
structure Failures where
  failed : Dict ViewId String
  recipeFailure : Option String

/-- Nothing failed. -/
def Failures.empty : Failures := ⟨∅, none⟩

/-- `str::contains`. -/
def contains (text part : String) : Prop := part.toList <:+: text.toList

instance (text part : String) : Decidable (contains text part) :=
  inferInstanceAs (Decidable (_ <:+: _))

/-- The failure a flush reports: one that is no refusal of an unavailable store, if there is one.
`none` stands for the empty map. -/
def flushFailure (failed : Dict ViewId String) : Option String :=
  let values := failed.entries.map Sigma.snd
  (values.find? fun error => !decide (contains error STORE_UNAVAILABLE_MARKER)).or values.head?

/-- How a command was answered. -/
inductive Answer (V : Type)
  | event (event : Event V)
  /-- A suggestion was recorded: nothing is said. -/
  | silent
  | flushed (result : Except String Unit)
  | stopped (result : Except String Unit)
deriving DecidableEq

namespace Failures

/-- The `Save` arm. -/
def save (f : Failures) (request : SaveRequest S) (outcome : Except String (Event V)) :
    Failures × Event V :=
  let lost (message : String) : Failures × Event V :=
    ({ f with failed := f.failed.insert request.viewId message },
      .saveFailed request.definition request.viewId request.sequence message)
  match outcome with
  | .ok (.saved source view sequence) =>
    ({ f with failed := f.failed.erase view }, .saved source view sequence)
  | .ok (.saveFailed source view sequence reason) =>
    ({ f with failed := f.failed.insert view ("memory autosave: " ++ reason) },
      .saveFailed source view sequence ("memory autosave: " ++ reason))
  | .ok _ => lost "memory autosave: unexpected save reply; outcome unknown"
  | .error error => lost ("memory autosave: " ++ error)

/-- The `SaveRecipe` and `ImportRecipe` arms, which differ by the verb of their messages. -/
def saveRecipe (f : Failures) (verb : String) (request : RecipeRequestMeta)
    (outcome : Except String (Event V)) : Failures × Event V :=
  let lost (message : String) : Failures × Event V :=
    ({ f with recipeFailure := some message }, .recipeFailed request message)
  match outcome with
  -- whichever recipe was saved, the slot is emptied
  | .ok (.recipeSaved _ saved) => ({ f with recipeFailure := none }, .recipeSaved request saved)
  | .ok (.recipeFailed _ reason) => lost (verb ++ ": " ++ reason)
  | .ok _ => lost (verb ++ ": unexpected reply; outcome unknown")
  | .error error => lost (verb ++ ": " ++ error)

/-- The `Flush` arm. -/
def flush (f : Failures) : Except String Unit :=
  match f.recipeFailure with
  | some error => .error error
  | none => match flushFailure f.failed with
    | none => .ok ()
    | some error => .error error

/-- What an arm tells the window that has no failure to remember. -/
def event (outcome : Except String (Event V)) (fault : String → Event V) : Event V :=
  match outcome with
  | .ok event => event
  | .error error => fault error

/-- One round of `shared_worker`: a command and the reply of its mediated call. -/
def serve (f : Failures) (command : Command S) (reply : Reply V) : Failures × Answer V :=
  match command with
  | .load definition viewId =>
    (f, .event (event (SharedStore.loadViews reply) (.loadFailed definition viewId)))
  | .save request =>
    let (f', event) := f.save request (SharedStore.saveView reply)
    (f', .event event)
  | .createDerivedView request =>
    (f, .event (event (SharedStore.createDerivedView reply) fun error =>
      .derivedViewCreated request.viewId (.error error)))
  | .recent => (f, .event (event (SharedStore.recentSources reply) .recentFailed))
  | .listRecipes request =>
    (f, .event (event (SharedStore.listRecipes reply) (.recipeFailed request)))
  | .recipeHistory request _ =>
    (f, .event (event (SharedStore.recipeHistory reply) (.recipeFailed request)))
  | .saveRecipe request _ =>
    let (f', event) := f.saveRecipe "save recipe" request (SharedStore.saveRecipe "save-recipe" reply)
    (f', .event event)
  | .importRecipe request _ _ =>
    let (f', event) :=
      f.saveRecipe "import recipe" request (SharedStore.saveRecipe "import-recipe" reply)
    (f', .event event)
  | .exportRecipe request _ _ _ =>
    (f, .event (event (SharedStore.exportRecipe reply) (.recipeFailed request)))
  | .recordSuggestion _ => match SharedStore.recordSuggestion reply with
    | .ok none => (f, .silent)
    | .ok (some event) => (f, .event event)
    | .error error => (f, .event (.suggestionFailed error))
  | .flush => (f, .flushed f.flush)
  | .stop => (f, .stopped (reply.map fun _ => ()))

end Failures

/-! ### The window and the thread -/

/-- A command that was served. -/
structure Entry (S V : Type) where
  command : Command S
  answer : Answer V
deriving DecidableEq

/-- The window's end and the thread's end of the two channels. -/
structure SharedMemory (S V : Type) where
  queue : List (Command S)
  events : List (Event V)
  failures : Failures
  /-- The thread has not left its loop. -/
  running : Bool
  /-- The window has asked the thread to stop. -/
  stopped : Bool
  /-- Every command the queue has accepted, in order. -/
  accepted : List (Command S)
  /-- Every command that was served, in order. -/
  log : List (Entry S V)

def SharedMemory.wrap : SharedMemory S V := ⟨[], [], .empty, true, false, [], []⟩

/-- What happens between a window and its thread. -/
inductive Label (S V : Type)
  /-- The window hands over a command. -/
  | submit (command : Command S)
  /-- The window asks the thread to stop. -/
  | stop
  /-- The thread serves the first command of the queue; the window may be gone by then. -/
  | serve (reply : Reply V) (delivered : Bool)
  /-- The window takes an event. -/
  | poll

namespace SharedMemory

/-- The queue takes a command. -/
def push (m : SharedMemory S V) (command : Command S) : SharedMemory S V :=
  { m with queue := m.queue ++ [command], accepted := m.accepted ++ [command] }

/-- An event fits in its channel; other answers do not pass through it. -/
def room (m : SharedMemory S V) : Answer V → Bool
  | .event _ => decide (m.events.length < QUEUE_CAPACITY)
  | _ => true

/-- The thread is done with a command: it has told the window, or leaves its loop. -/
def answered (m : SharedMemory S V) (command : Command S) (rest : List (Command S))
    (served : Failures × Answer V) (delivered : Bool) : SharedMemory S V :=
  { m with
    queue := rest
    failures := served.1
    running := match served.2 with
      | .silent => true
      | .stopped _ => false
      | _ => delivered
    events := match served.2, delivered with
      | .event event, true => m.events ++ [event]
      | _, _ => m.events
    log := m.log ++ [⟨command, served.2⟩] }

/-- One step. -/
def step (m : SharedMemory S V) : Label S V → Option (SharedMemory S V)
  | .submit command =>
    -- `try_send` on a queue that is full, or whose other end is gone, refuses the command
    if m.stopped || !m.running || decide (QUEUE_CAPACITY ≤ m.queue.length) then some m
    else some (m.push command)
  | .stop =>
    let m := { m with stopped := true }
    if !m.running || decide (QUEUE_CAPACITY ≤ m.queue.length) then some m else some (m.push .stop)
  | .serve reply delivered => match m.queue with
    | [] => none
    | command :: rest =>
      let served := m.failures.serve command reply
      if m.running ∧ Echoes command reply ∧ (m.room served.2 ∨ ¬ delivered) then
        some (m.answered command rest served delivered)
      else none
  | .poll => match m.events with
    | [] => none
    | _ :: rest => some { m with events := rest }

/-- A window and its thread. -/
def machine (S V : Type) : Machine (SharedMemory S V) (Label S V) := .ofFun step

end SharedMemory

/-! ### What the log says -/

namespace Entry

/-- A save of the view. -/
def saves (view : ViewId) (e : Entry S V) : Bool :=
  match e.command with
  | .save request => decide (request.viewId = view)
  | _ => false

/-- A save that was answered `Saved`. -/
def Saved (e : Entry S V) : Prop :=
  match e.command with
  | .save request => e.answer = .event (.saved request.definition request.viewId request.sequence)
  | _ => False

/-- A save that was answered `SaveFailed`. -/
def SaveFailed (e : Entry S V) (message : String) : Prop :=
  match e.command with
  | .save request =>
    e.answer = .event (.saveFailed request.definition request.viewId request.sequence message)
  | _ => False

/-- The recipe that the command saves or imports. -/
def recipe (e : Entry S V) : Option RecipeId :=
  match e.command with
  | .saveRecipe _ recipe => some recipe
  | .importRecipe _ _ recipe => some recipe
  | _ => none

/-- A recipe request that was answered as saved. -/
def RecipeSaved (e : Entry S V) : Prop :=
  e.recipe.isSome = true ∧ ∃ request saved, e.answer = .event (.recipeSaved request saved)

/-- A recipe request that was answered as failed. -/
def RecipeFailed (e : Entry S V) (message : String) : Prop :=
  ∃ request, e.answer = .event (.recipeFailed request message)

end Entry

/-- The last save of a view. -/
def lastSave (log : List (Entry S V)) (view : ViewId) : Option (Entry S V) :=
  (log.filter (·.saves view)).getLast?

/-- The last save or import of a recipe, whichever recipe it is. -/
def lastRecipe (log : List (Entry S V)) : Option (Entry S V) :=
  (log.filter fun e => e.recipe.isSome).getLast?

theorem lastSave_snoc (log : List (Entry S V)) (e : Entry S V) (view : ViewId) :
    lastSave (log ++ [e]) view = if e.saves view then some e else lastSave log view := by
  cases h : e.saves view <;> simp [lastSave, filter_append, h]

theorem lastRecipe_snoc (log : List (Entry S V)) (e : Entry S V) :
    lastRecipe (log ++ [e]) = if e.recipe.isSome then some e else lastRecipe log := by
  cases h : e.recipe.isSome <;> simp [lastRecipe, filter_append, h]

/-- What is remembered of a view whose last save is `e`. -/
def Remembers (e : Option (Entry S V)) (failure : Option String) : Prop :=
  match e, failure with
  | none, failure => failure = none
  | some e, none => e.Saved
  | some e, some message => e.SaveFailed message

/-- What is remembered of recipes when the last request is `e`. -/
def RemembersRecipe (e : Option (Entry S V)) (failure : Option String) : Prop :=
  match e, failure with
  | none, failure => failure = none
  | some e, none => e.RecipeSaved
  | some e, some message => e.RecipeFailed message

/-! ### What one round remembers -/

namespace Failures

/-- The entry a round writes. -/
abbrev entry (f : Failures) (command : Command S) (reply : Reply V) : Entry S V :=
  ⟨command, (f.serve command reply).2⟩

variable {f : Failures} {command : Command S} {reply : Reply V} {view : ViewId}

/-- A save clears its view's failure or records one, and says which. -/
theorem save_cases (f : Failures) {request : SaveRequest S}
    (hecho : Echoes (.save request) reply) :
    f.save request (SharedStore.saveView reply) =
        ({ f with failed := f.failed.erase request.viewId },
          .saved request.definition request.viewId request.sequence) ∨
      ∃ message, f.save request (SharedStore.saveView reply) =
        ({ f with failed := f.failed.insert request.viewId message },
          .saveFailed request.definition request.viewId request.sequence message) := by
  rcases reply with error | event
  · exact .inr ⟨_, rfl⟩
  · cases event with
    | saved source view sequence version =>
      obtain ⟨rfl, rfl, rfl⟩ := hecho
      exact .inl rfl
    | saveFailed source view sequence reason current =>
      obtain ⟨rfl, rfl, rfl⟩ := hecho
      exact .inr ⟨_, rfl⟩
    | _ => exact .inr ⟨_, rfl⟩

theorem saveRecipe_cases (f : Failures) (verb : String) (request : RecipeRequestMeta)
    (outcome : Except String (Event V)) :
    (∃ saved, f.saveRecipe verb request outcome =
        ({ f with recipeFailure := none }, .recipeSaved request saved)) ∨
      ∃ message, f.saveRecipe verb request outcome =
        ({ f with recipeFailure := some message }, .recipeFailed request message) := by
  unfold saveRecipe
  split
  · exact .inl ⟨_, rfl⟩
  all_goals exact .inr ⟨_, rfl⟩

theorem serve_saves (hecho : Echoes command reply) (h : (f.entry command reply).saves view = true) :
    Remembers (some (f.entry command reply)) ((f.serve command reply).1.failed.lookup view) := by
  cases command with
  | save request =>
    obtain rfl : request.viewId = view := by simpa [Entry.saves] using h
    obtain hsave | ⟨message, hsave⟩ := f.save_cases hecho
    · simp [serve, hsave, Remembers, Entry.Saved]
    · simp [serve, hsave, Remembers, Entry.SaveFailed]
  | _ => cases h

/-- Nothing else touches it. -/
theorem serve_not_saves (hecho : Echoes command reply)
    (h : (f.entry command reply).saves view = false) :
    (f.serve command reply).1.failed.lookup view = f.failed.lookup view := by
  cases command with
  | save request =>
    have hne : view ≠ request.viewId := by
      intro heq
      simp [Entry.saves, heq] at h
    obtain hsave | ⟨message, hsave⟩ := f.save_cases hecho
    · simp [serve, hsave, AList.lookup_erase_ne hne]
    · simp [serve, hsave, AList.lookup_insert_ne hne]
  | saveRecipe request recipe =>
    obtain ⟨saved, hsave⟩ | ⟨message, hsave⟩ := f.saveRecipe_cases (V := V) "save recipe" request
      (SharedStore.saveRecipe "save-recipe" reply) <;> simp [serve, hsave]
  | importRecipe request path recipe =>
    obtain ⟨saved, hsave⟩ | ⟨message, hsave⟩ := f.saveRecipe_cases (V := V) "import recipe" request
      (SharedStore.saveRecipe "import-recipe" reply) <;> simp [serve, hsave]
  | recordSuggestion accepted =>
    simp only [serve]
    split <;> rfl
  | _ => rfl

/-- A recipe request settles what is remembered of recipes. -/
theorem serve_recipe (h : (f.entry command reply).recipe.isSome = true) :
    RemembersRecipe (some (f.entry command reply)) (f.serve command reply).1.recipeFailure := by
  cases command with
  | saveRecipe request recipe =>
    obtain ⟨saved, hsave⟩ | ⟨message, hsave⟩ := f.saveRecipe_cases (V := V) "save recipe" request
      (SharedStore.saveRecipe "save-recipe" reply)
    · simp [serve, hsave, RemembersRecipe, Entry.RecipeSaved, Entry.recipe]
    · simp [serve, hsave, RemembersRecipe, Entry.RecipeFailed]
  | importRecipe request path recipe =>
    obtain ⟨saved, hsave⟩ | ⟨message, hsave⟩ := f.saveRecipe_cases (V := V) "import recipe" request
      (SharedStore.saveRecipe "import-recipe" reply)
    · simp [serve, hsave, RemembersRecipe, Entry.RecipeSaved, Entry.recipe]
    · simp [serve, hsave, RemembersRecipe, Entry.RecipeFailed]
  | _ => cases h

theorem serve_not_recipe (h : (f.entry command reply).recipe.isSome = false) :
    (f.serve command reply).1.recipeFailure = f.recipeFailure := by
  cases command with
  | saveRecipe => cases h
  | importRecipe => cases h
  | save request =>
    simp only [serve, save]
    split <;> rfl
  | recordSuggestion accepted =>
    simp only [serve]
    split <;> rfl
  | _ => rfl

end Failures

/-! ### What a flush reports -/

theorem flushFailure_eq_none {failed : Dict ViewId String} :
    flushFailure failed = none ↔ ∀ view, failed.lookup view = none := by
  rw [flushFailure, Option.or_eq_none_iff, head?_eq_none_iff, map_eq_nil_iff]
  constructor
  · rintro ⟨-, hnil⟩ view
    have hmem : view ∉ failed := by
      rw [AList.mem_keys, AList.keys, hnil]
      simp
    exact AList.lookup_eq_none.2 hmem
  · intro h
    have hnil : failed.entries = [] := by
      rw [eq_nil_iff_forall_not_mem]
      rintro ⟨view, error⟩ hmem
      have := AList.mem_lookup_iff.2 hmem
      simp [h view] at this
    simp [hnil]

/-- A refusal is reported only when every failure is one. -/
theorem contains_of_flushFailure {failed : Dict ViewId String} {error : String}
    (h : flushFailure failed = some error) (hrefused : contains error STORE_UNAVAILABLE_MARKER)
    {view : ViewId} {error' : String} (hview : failed.lookup view = some error') :
    contains error' STORE_UNAVAILABLE_MARKER := by
  by_contra hnot
  have hmem : error' ∈ failed.entries.map Sigma.snd :=
    mem_map_of_mem (AList.mem_lookup_iff.1 hview)
  cases hfind : (failed.entries.map Sigma.snd).find? fun error =>
      !decide (contains error STORE_UNAVAILABLE_MARKER) with
  | none =>
    have := find?_eq_none.1 hfind error' hmem
    simp [hnot] at this
  | some found =>
    have hfound := find?_some hfind
    rw [flushFailure, hfind, Option.some_or] at h
    obtain rfl : found = error := by simpa using h
    simp [hrefused] at hfound

/-! ### Clean flushes and clean exits -/

/-- The thread remembers what the log says. -/
structure Consistent (log : List (Entry S V)) (f : Failures) : Prop where
  views : ∀ view, Remembers (lastSave log view) (f.failed.lookup view)
  recipes : RemembersRecipe (lastRecipe log) f.recipeFailure

theorem consistent_nil : Consistent ([] : List (Entry S V)) .empty :=
  ⟨fun _ => rfl, rfl⟩

theorem Consistent.serve {log : List (Entry S V)} {f : Failures} (h : Consistent log f)
    {command : Command S} {reply : Reply V} (hecho : Echoes command reply) :
    Consistent (log ++ [f.entry command reply]) (f.serve command reply).1 := by
  constructor
  · intro view
    rw [lastSave_snoc]
    split_ifs with hsaves
    · exact Failures.serve_saves hecho hsaves
    · rw [Failures.serve_not_saves hecho (by simpa using hsaves)]
      exact h.views view
  · rw [lastRecipe_snoc]
    split_ifs with hrecipe
    · exact Failures.serve_recipe hrecipe
    · rw [Failures.serve_not_recipe (by simpa using hrecipe)]
      exact h.recipes

theorem lastRecipe_of_mem {earlier later : List (Entry S V)} {e : Entry S V}
    (he : e.recipe.isSome = true) :
    ∃ last, lastRecipe (earlier ++ e :: later) = some last ∧ (last = e ∨ last ∈ later) := by
  simp only [lastRecipe, filter_append, filter_cons, he, if_true, getLast?_append]
  cases hlast : (e :: later.filter fun e => e.recipe.isSome).getLast? with
  | none => simp at hlast
  | some last =>
    refine ⟨last, by simp, ?_⟩
    obtain rfl | hmem := mem_cons.1 (mem_of_getLast? hlast)
    · exact .inl rfl
    · exact .inr (mem_filter.1 hmem).1

/-- `degraded_flush_is_clean`: nothing was pending, and the failure is a refusal that the window
has already been told of. -/
def degradedFlushIsClean (error : String) (pending inflight : ℕ) : Bool :=
  decide (pending = 0) && decide (inflight = 0) && decide (contains error STORE_UNAVAILABLE_MARKER)

/-- How `flush_memory` ends a round: from the answer to its `Flush`, and what is then pending and
in flight.  `none` is one more round. -/
def flushMemory (result : Except String Unit) (pending inflight : ℕ) : Option (Except String Unit) :=
  match result with
  | .error error =>
    if degradedFlushIsClean error pending inflight then some (.ok ())
    else some (.error (error ++ "; pending=" ++ toString pending ++ ", inflight=" ++ toString inflight))
  | .ok () => if pending = 0 ∧ inflight = 0 then some (.ok ()) else none

/-- Nothing that was served is lost. -/
structure Clean (log : List (Entry S V)) : Prop where
  /-- The last save of every view was answered `Saved`. -/
  views : ∀ view e, lastSave log view = some e → e.Saved
  /-- A recipe request after which no other recipe was saved was answered as saved, or its recipe
  was saved later. -/
  recipes : ∀ earlier e later recipe, log = earlier ++ e :: later → e.recipe = some recipe →
    (∀ e' ∈ later, e'.RecipeSaved → e'.recipe = some recipe) →
    e.RecipeSaved ∨ ∃ e' ∈ later, e'.RecipeSaved ∧ e'.recipe = some recipe

/-- Saves were refused by a store that is not available. -/
structure Refused (log : List (Entry S V)) (result : Except String Unit) : Prop where
  reported : ∃ error, result = .error error ∧ contains error STORE_UNAVAILABLE_MARKER
  /-- Where no recipe failed last, the last save of every view was answered `Saved` or refused. -/
  views : (∀ e, lastRecipe log = some e → e.RecipeSaved) → ∀ view e, lastSave log view = some e →
    e.Saved ∨ ∃ message, e.SaveFailed message ∧ contains message STORE_UNAVAILABLE_MARKER

namespace Consistent

variable {log : List (Entry S V)} {f : Failures}

theorem clean (h : Consistent log f) (hok : f.flush = .ok ()) : Clean log := by
  have hnone : f.recipeFailure = none ∧ flushFailure f.failed = none := by
    unfold Failures.flush at hok
    split at hok
    · cases hok
    · split at hok
      · exact ⟨‹_›, ‹_›⟩
      · cases hok
  constructor
  · intro view e he
    have := h.views view
    rwa [he, flushFailure_eq_none.1 hnone.2 view] at this
  · intro earlier e later recipe hlog he hothers
    have hlast := h.recipes
    rw [hnone.1, hlog] at hlast
    obtain ⟨last, hlast', hor⟩ : ∃ last, lastRecipe (earlier ++ e :: later) = some last ∧
        (last = e ∨ last ∈ later) := lastRecipe_of_mem (by rw [he]; rfl)
    rw [hlast'] at hlast
    obtain rfl | hmem := hor
    · exact .inl hlast
    · exact .inr ⟨last, hmem, hlast, hothers last hmem hlast⟩

theorem refused (h : Consistent log f) {error : String} (herr : f.flush = .error error)
    (hcontains : contains error STORE_UNAVAILABLE_MARKER) : Refused log (.error error) := by
  refine ⟨⟨error, rfl, hcontains⟩, fun hrecipe view e he => ?_⟩
  have hslot : f.recipeFailure = none := by
    cases hf : f.recipeFailure with
    | none => rfl
    | some message =>
      have := h.recipes
      rw [hf] at this
      cases hlast : lastRecipe log with
      | none => rw [hlast] at this; cases this
      | some last =>
        rw [hlast] at this
        obtain ⟨-, request, saved, hanswer⟩ := hrecipe last hlast
        obtain ⟨request', hanswer'⟩ := this
        rw [hanswer] at hanswer'
        cases hanswer'
  have hfailure : flushFailure f.failed = some error := by
    simp only [Failures.flush, hslot] at herr
    split at herr
    · cases herr
    · rename_i error' heq
      cases herr
      exact heq
  have hview := h.views view
  rw [he] at hview
  cases hlook : f.failed.lookup view with
  | none =>
    rw [hlook] at hview
    exact .inl hview
  | some message =>
    rw [hlook] at hview
    exact .inr ⟨message, hview, contains_of_flushFailure hfailure hcontains hlook⟩

end Consistent

namespace SharedMemory

/-- What holds in every state. -/
structure Inv (m : SharedMemory S V) : Prop where
  accepted : m.accepted = m.log.map Entry.command ++ m.queue
  consistent : Consistent m.log m.failures
  /-- Every flush was answered from what was remembered of the commands before it. -/
  flushes : ∀ before result after, m.log = before ++ ⟨.flush, .flushed result⟩ :: after →
    ∃ f, Consistent before f ∧ result = f.flush

theorem Inv.push {m : SharedMemory S V} (h : m.Inv) (command : Command S) : (m.push command).Inv := by
  refine ⟨?_, h.consistent, h.flushes⟩
  rw [SharedMemory.push, h.accepted, append_assoc]

theorem Inv.answered {m : SharedMemory S V} (h : m.Inv) {command : Command S}
    {rest : List (Command S)} {reply : Reply V} {delivered : Bool}
    (hqueue : m.queue = command :: rest) (hecho : Echoes command reply) :
    (m.answered command rest (m.failures.serve command reply) delivered).Inv := by
  refine ⟨?_, h.consistent.serve hecho, ?_⟩
  · change m.accepted = (m.log ++ [_]).map Entry.command ++ rest
    rw [h.accepted, hqueue]
    simp
  · intro before result after hlog
    obtain ⟨-, rfl, hentry⟩ | ⟨after', rfl, hlog'⟩ := Machine.append_cons_cases hlog
    · cases command with
      | flush =>
        refine ⟨m.failures, h.consistent, ?_⟩
        simpa [Failures.serve] using hentry
      | _ => simp at hentry
    · exact h.flushes before result after' hlog'

theorem Inv.step {m m' : SharedMemory S V} {l : Label S V} (h : m.Inv)
    (hst : (machine S V).step m l m') : m'.Inv := by
  change m.step l = some m' at hst
  cases l with
  | submit command =>
    simp only [SharedMemory.step] at hst
    split_ifs at hst <;> cases hst
    · exact h
    · exact h.push command
  | stop =>
    simp only [SharedMemory.step] at hst
    have h' : Inv { m with stopped := true } := ⟨h.accepted, h.consistent, h.flushes⟩
    split_ifs at hst <;> cases hst
    · exact h'
    · exact h'.push .stop
  | serve reply delivered =>
    simp only [SharedMemory.step] at hst
    split at hst
    · cases hst
    · rename_i command rest hqueue
      split_ifs at hst with hcan
      cases hst
      exact h.answered hqueue hcan.2.1
  | poll =>
    simp only [SharedMemory.step] at hst
    split at hst <;> cases hst
    exact ⟨h.accepted, h.consistent, h.flushes⟩

theorem inv_run {m : SharedMemory S V} {ls : List (Label S V)}
    (h : (machine S V).Run .wrap ls m) : m.Inv := by
  refine h.invariant ⟨rfl, consistent_nil, fun before result after hlog => ?_⟩
    fun m l m' hI hst => hI.step hst
  simp [wrap] at hlog

/-- **What a clean flush and a clean exit say.**  The commands before a flush in the log are the
commands accepted before it.  A flush that is answered `Ok` says that nothing among them is lost.
So does an exit, but for its one exemption: nothing is pending or in flight, and what the flush
reported is the refusal of a store that is not available. -/
theorem clean_flush {m : SharedMemory S V} {ls : List (Label S V)}
    (h : (machine S V).Run .wrap ls m) :
    m.accepted = m.log.map Entry.command ++ m.queue ∧
    ∀ before result after, m.log = before ++ ⟨.flush, .flushed result⟩ :: after →
      (result = .ok () → Clean before) ∧
      ∀ pending inflight, flushMemory result pending inflight = some (.ok ()) →
        pending = 0 ∧ inflight = 0 ∧ (Clean before ∨ Refused before result) := by
  have hinv := inv_run h
  refine ⟨hinv.accepted, fun before result after hlog => ?_⟩
  obtain ⟨f, hf, rfl⟩ := hinv.flushes before result after hlog
  refine ⟨fun hok => hf.clean hok, fun pending inflight hexit => ?_⟩
  cases hresult : f.flush with
  | ok =>
    simp only [hresult, flushMemory] at hexit
    split_ifs at hexit with hcounts
    exact ⟨hcounts.1, hcounts.2, .inl (hf.clean hresult)⟩
  | error error =>
    simp only [hresult, flushMemory] at hexit
    split_ifs at hexit with hcounts
    · simp only [degradedFlushIsClean, Bool.and_eq_true, decide_eq_true_eq] at hcounts
      exact ⟨hcounts.1.1, hcounts.1.2, .inr (hf.refused hresult hcounts.2)⟩
    · cases hexit

/-- A view of a source. -/
def exampleRequest : SaveRequest Unit := ⟨1, ⟨.filled 1⟩, ⟨.filled 2⟩, ()⟩

/-- Saves of the view with their answers, and a flush after them. -/
def exampleLabels (replies : List (Reply Unit)) : List (Label Unit Unit) :=
  replies.flatMap (fun reply => [.submit (.save exampleRequest), .serve reply true]) ++
    [.submit .flush, .serve (.ok .flushed) true]

/-- A save that fails, one that is answered `Saved`, and a clean flush. -/
theorem clean_flush_saved : ∃ m : SharedMemory Unit Unit, (machine Unit Unit).Run .wrap
    (exampleLabels [.error "lost", .ok (.saved ⟨.filled 1⟩ ⟨.filled 2⟩ 1 1)]) m ∧
    ∃ before, m.log = before ++ [⟨.flush, .flushed (.ok ())⟩] ∧ before.length = 2 ∧ Clean before := by
  obtain ⟨m, hrun, hlog, hlength⟩ : ∃ m, (machine Unit Unit).Run .wrap
      (exampleLabels [.error "lost", .ok (.saved ⟨.filled 1⟩ ⟨.filled 2⟩ 1 1)]) m ∧
      m.log = m.log.take 2 ++ [⟨.flush, .flushed (.ok ())⟩] ∧ (m.log.take 2).length = 2 :=
    Machine.exists_run (by decide +kernel)
  exact ⟨m, hrun, m.log.take 2, hlog, hlength, ((clean_flush hrun).2 _ _ [] hlog).1 rfl⟩

/-- What is answered to a save where the store could not be opened. -/
def exampleRefusal : String :=
  STORE_UNAVAILABLE_MARKER ++ " (locked); capture continues, persistence refused"

/-- **The exit is clean over a refused save**: the flush reports that an unavailable store refused
the last save of a view, and the exit takes that for clean. -/
theorem exit_hides_refused : ∃ m : SharedMemory Unit Unit, (machine Unit Unit).Run .wrap
    (exampleLabels [.ok (.saveFailed ⟨.filled 1⟩ ⟨.filled 2⟩ 1 exampleRefusal none)]) m ∧
    ∃ before result, m.log = before ++ [⟨.flush, .flushed result⟩] ∧
      flushMemory result 0 0 = some (.ok ()) ∧
      ¬ ∀ view e, lastSave before view = some e → e.Saved := by
  obtain ⟨m, hrun, hlog⟩ : ∃ m, (machine Unit Unit).Run .wrap
      (exampleLabels [.ok (.saveFailed ⟨.filled 1⟩ ⟨.filled 2⟩ 1 exampleRefusal none)]) m ∧
      m.log = [⟨.save exampleRequest, .event (.saveFailed ⟨.filled 1⟩ ⟨.filled 2⟩ 1
          ("memory autosave: " ++ exampleRefusal))⟩,
        ⟨.flush, .flushed (.error ("memory autosave: " ++ exampleRefusal))⟩] :=
    Machine.exists_run (by decide +kernel)
  refine ⟨m, hrun, [_], .error ("memory autosave: " ++ exampleRefusal), hlog, by decide +kernel,
    fun hall => ?_⟩
  have := hall ⟨.filled 2⟩ _ rfl
  simp [Entry.Saved, exampleRequest] at this

end SharedMemory

end Lvu.App
