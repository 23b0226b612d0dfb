import Lvu.Data.Dict
import Lvu.Machine.Run
import Mathlib.Data.Finset.Card

/-!
# The view adapter

Queries of views are run by one worker (`lvu-view/src/lib.rs`).  The adapter admits them, hands
them over in a bounded queue and applies the updates that come back; the worker looks at a view
when it starts a query and answers some time later, when the view may have moved on.  Sources are
restarted, and views registered and closed, at any time.

* `submitQuery`, `applyUpdate`, `registerSource`, `registerView` : the adapter's operations.
* `start` : the work that the worker takes up.
* `adapter` : the machine of both; `drain_updates` is several of its steps, since the worker runs
  between them.
* `Effect` : what a step can do to the views and to the work in flight.
-/

namespace Lvu.View.Adapter

abbrev SourceId := String

/-! ### Requests and their answers -/

inductive QueryPurpose
  | search
  | advanced
  | enrichment
  | grouping
deriving DecidableEq

/-- `QueryConstraints`: its colour rules, and all the rest. -/
structure QueryConstraints (D R : Type) where
  definition : D
  colorRules : List R
deriving DecidableEq

structure QueryRequest (D R : Type) where
  viewId : String
  generation : ℕ
  revision : ℕ
  baseRevision : ℕ
  baseConstraints : QueryConstraints D R
  purpose : QueryPurpose
  constraints : QueryConstraints D R
deriving DecidableEq

structure QueryFailure where
  purpose : QueryPurpose
  message : String

structure QueryCompletion where
  viewId : String
  generation : ℕ
  revision : ℕ
  purpose : QueryPurpose
  result : Except QueryFailure Unit

inductive ViewError
  | live (error : String)
  | sourceLimit
  | closed
  | unknownSource
  | viewLimit

/-- `ViewConfig`, as far as it bounds the adapter. -/
structure ViewConfig where
  requestCapacity : ℕ
  updateCapacity : ℕ
  completionCapacity : ℕ
  maximumViews : ℕ
  maximumSourcesPerView : ℕ

/-! ### Views -/

inductive Published (M : Type)
  | raw
  | filtered (membership : M)

inductive ScanState
  | raw
  | pending
  | ready
  | limited
  | error
  | shutdown
deriving DecidableEq

structure ViewQueryStatus where
  revision : ℕ
  state : ScanState
  scannedRecords : ℕ
  highWatermarks : List (SourceId × Option ℕ)
  diagnostic : Option String

/-- A cancel flag, named by the view it was made for and its number. -/
abbrev Token := String × ℕ

structure ViewState (D R M : Type) where
  /-- `registration.sources`. -/
  sources : List SourceId
  pendingSources : Option (List SourceId)
  pendingRequest : Option (QueryRequest D R)
  resubmitPending : Bool
  desiredRevision : ℕ
  cancel : Token
  published : Published M
  providerRevision : ℕ
  status : ViewQueryStatus
  lastRequest : Option (QueryRequest D R)
  appliedRevision : ℕ
  appliedGeneration : ℕ
  appliedConstraints : QueryConstraints D R
  refreshing : Bool

/-! ### Work and updates -/

inductive Work (D R : Type)
  | query (request : QueryRequest D R)
  | incremental (viewId : String)
  /-- `CompileUnionFilter` and `Shutdown`, which look at no view. -/
  | other

/-- What `run_query` is called with: `sources` are those it reads. -/
structure Job (D R : Type) where
  request : QueryRequest D R
  sources : List SourceId
  token : Token

/-- Where the worker stands in its loop. -/
inductive Worker (D R : Type)
  | idle
  /-- It received work and has not looked at the view yet. -/
  | received (work : Work D R)
  | running (job : Job D R)

/-- `Update`.  A publication's `scope` are the sources that its job read. -/
inductive Update (D R M : Type)
  | progress (viewId : String) (revision scanned : ℕ) (token : Token)
  | publish (request : QueryRequest D R) (published : Published M) (scanned : ℕ)
      (watermarks : List (SourceId × Option ℕ)) (diagnostic : Option String) (token : Token)
      (scope : List SourceId)
  | failed (request : QueryRequest D R) (purpose : QueryPurpose) (message : String)
      (limited : Bool) (token : Token)
  /-- `Correlation` and `FieldStats`, which are routed before any view is looked at. -/
  | other

/-- `NativeViewAdapter` with its `Shared` state, its worker, and the cancel flags that are set. -/
structure World (D R M : Type) where
  accepting : Bool
  sources : Finset SourceId
  views : Dict String (ViewState D R M)
  unionViews : Finset String
  queue : List (Work D R)
  worker : Worker D R
  updates : List (Update D R M)
  completions : List QueryCompletion
  admitted : Dict String ℕ
  cancelled : Finset Token
  tokens : ℕ
  /-- History: the requests that were submitted, those that were accepted, and the completions
  that were polled. -/
  asked : List (QueryRequest D R)
  accepted : List (QueryRequest D R)
  polled : List QueryCompletion

variable {D R M : Type}

/-- `NativeViewAdapter::with_raw_rows`. -/
def World.new : World D R M where
  accepting := true
  sources := ∅
  views := ∅
  unionViews := ∅
  queue := []
  worker := .idle
  updates := []
  completions := []
  admitted := ∅
  cancelled := ∅
  tokens := 0
  asked := []
  accepted := []
  polled := []

namespace World

/-- A view's state is replaced. -/
def put (w : World D R M) (viewId : String) (view : ViewState D R M) : World D R M :=
  { w with views := w.views.insert viewId view, tokens := w.tokens + 1 }

/-- A flag for a view, not used before. -/
def token (w : World D R M) (viewId : String) : Token := (viewId, w.tokens)

end World

/-! ### Sources and views come and go -/

/-- A view reads a source, or would with its candidate. -/
def ViewState.concerns (view : ViewState D R M) (id : SourceId) : Bool :=
  id ∈ view.sources || view.pendingSources.any (id ∈ ·)

/-- The high watermark of a source is forgotten. -/
def clearWatermark (id : SourceId) : List (SourceId × Option ℕ) → List (SourceId × Option ℕ)
  | [] => []
  | (source, high) :: rest =>
    if source = id then (source, none) :: rest else (source, high) :: clearWatermark id rest

/-- What `register_source` does to a view that it concerns. -/
def ViewState.restarted (view : ViewState D R M) (id : SourceId) (token : Token) :
    ViewState D R M :=
  { view with
    cancel := token
    refreshing := false
    resubmitPending := view.pendingRequest.isSome
    status := { view.status with highWatermarks := clearWatermark id view.status.highWatermarks }
    providerRevision := view.providerRevision + 1 }

/-- The flags of the views that a source concerns. -/
def World.flagsOf (w : World D R M) (id : SourceId) : Finset Token :=
  (w.views.entries.filterMap fun e =>
    if e.2.concerns id then some e.2.cancel else none).toFinset

/-- `register_source`; `raw` is the row provider's answer. -/
def registerSource (w : World D R M) (id : SourceId) (raw : Except String Unit) :
    Except ViewError Unit × World D R M :=
  if w.accepting = false then (.error .closed, w)
  else match raw with
    | .error e => (.error (.live e), w)
    | .ok () => (.ok (), { w with
        sources := insert id w.sources
        views := w.views.map fun viewId view =>
          if view.concerns id then view.restarted id (w.token viewId) else view
        cancelled := w.cancelled ∪ w.flagsOf id
        tokens := w.tokens + 1 })

def rollbackSourceRegistration (w : World D R M) (id : SourceId) (viewId : String) : World D R M :=
  let views := w.views.erase viewId
  { w with
    views := views
    sources := if views.entries.all fun e => !e.2.concerns id then w.sources.erase id else w.sources }

def unregisterView (w : World D R M) (viewId : String) : World D R M :=
  match w.views.lookup viewId with
  | none => w
  | some view => { w with
      views := w.views.erase viewId
      cancelled := insert view.cancel w.cancelled }

/-- Each source once, where it stands first. -/
def deduped (sources : List SourceId) : List SourceId :=
  sources.foldl (fun seen id => if id ∈ seen then seen else seen ++ [id]) []

def unregisterUnionView (w : World D R M) (viewId : String) : World D R M :=
  { unregisterView w viewId with unionViews := w.unionViews.erase viewId }

section
variable [Inhabited D]

/-- The state that a view is registered with. -/
def ViewState.fresh (sources : List SourceId) (token : Token) (providerRevision : ℕ) :
    ViewState D R M where
  sources := sources
  pendingSources := none
  pendingRequest := none
  resubmitPending := false
  desiredRevision := 0
  cancel := token
  published := .raw
  providerRevision := providerRevision
  status := ⟨0, .raw, 0, [], none⟩
  lastRequest := none
  appliedRevision := 0
  appliedGeneration := 0
  appliedConstraints := ⟨default, []⟩
  refreshing := false

/-- A view is registered, in place of one of its name. -/
def World.enter (w : World D R M) (viewId : String) (sources : List SourceId) : World D R M :=
  match w.views.lookup viewId with
  | none => w.put viewId (.fresh sources (w.token viewId) 1)
  | some previous => { w.put viewId (.fresh sources (w.token viewId) (previous.providerRevision + 1))
      with cancelled := insert previous.cancel w.cancelled }

/-- `register_view`; `raw` is the row provider's answer. -/
def registerView (config : ViewConfig) (w : World D R M) (viewId : String)
    (sources : List SourceId) (raw : Except String Unit) : Except ViewError Unit × World D R M :=
  if sources.length > config.maximumSourcesPerView then (.error .sourceLimit, w)
  else if w.accepting = false then (.error .closed, w)
  else if ∃ id ∈ deduped sources, id ∉ w.sources then (.error .unknownSource, w)
  else if viewId ∉ w.views ∧ w.views.size ≥ config.maximumViews then (.error .viewLimit, w)
  else (raw.mapError .live, w.enter viewId (deduped sources))

def registerUnionView (config : ViewConfig) (w : World D R M) (viewId : String)
    (sources : List SourceId) (raw : Except String Unit) : Except ViewError Unit × World D R M :=
  if (deduped sources).length > config.maximumSourcesPerView then (.error .sourceLimit, w)
  else if w.accepting = false then (.error .closed, w)
  else if ∃ id ∈ deduped sources, id ∉ w.sources then (.error .unknownSource, w)
  else if viewId ∉ w.views ∧ viewId ∉ w.unionViews ∧
      w.views.size + w.unionViews.card ≥ config.maximumViews then (.error .viewLimit, w)
  else (raw.mapError .live,
    { w.enter viewId (deduped sources) with unionViews := insert viewId w.unionViews })

/-- The view of a union that publishes. -/
def ViewState.installed (view : ViewState D R M) (revision generation : ℕ) (membership : M)
    (scanned : ℕ) (watermarks : List (SourceId × Option ℕ)) : ViewState D R M :=
  { view with
    pendingRequest := none
    resubmitPending := false
    published := .filtered membership
    appliedRevision := revision
    appliedGeneration := generation
    appliedConstraints := ⟨default, []⟩
    lastRequest := none
    refreshing := false
    providerRevision := view.providerRevision + 1
    status := ⟨revision, .ready, scanned, watermarks, none⟩ }

/-- `install_union_locked`, as far as it concerns the view of the union. -/
def installUnion (w : World D R M) (viewId : String) (revision generation : ℕ) (membership : M)
    (scanned : ℕ) (watermarks : List (SourceId × Option ℕ)) : World D R M :=
  match w.views.lookup viewId with
  | none => w
  | some view =>
    w.put viewId (view.installed revision generation membership scanned watermarks)

end

/-! ### Candidates -/

section
variable [DecidableEq D] [DecidableEq R]

/-- `definitions_match`: colour rules are no part of a definition. -/
def definitionsMatch (left right : QueryConstraints D R) : Bool :=
  if left.colorRules = right.colorRules then decide (left = right)
  else decide (({ left with colorRules := [] } : QueryConstraints D R) =
    { right with colorRules := [] })

/-- The checks of `submit_query` on the sources of a candidate. -/
def sourcesRefusal (config : ViewConfig) (w : World D R M) (sources : List SourceId) :
    Option String :=
  if sources = [] ∨ sources.length > config.maximumSourcesPerView then
    some "source membership must contain between one and the configured source limit"
  else if ¬ sources.Nodup then some "source membership contains duplicate identities"
  else if ∃ id ∈ sources, id ∉ w.sources then
    some "source membership references an unavailable source"
  else none

/-- What `submit_query` sets in a view before the request is sent. -/
def ViewState.asking (view : ViewState D R M) (request : QueryRequest D R)
    (sources : Option (List SourceId)) (token : Token) : ViewState D R M :=
  { view with
    pendingSources := sources
    cancel := token
    desiredRevision := request.revision
    status := { view.status with
      state := .pending
      revision := request.revision
      diagnostic := none } }

/-- What it puts back where the queue is full. -/
def ViewState.restored (view old : ViewState D R M) : ViewState D R M :=
  { view with
    cancel := old.cancel
    desiredRevision := old.desiredRevision
    status := old.status
    pendingSources := old.pendingSources }

/-- A view whose candidate is pending. -/
def ViewState.submitted (view : ViewState D R M) (request : QueryRequest D R)
    (sources : Option (List SourceId)) (token : Token) : ViewState D R M :=
  { view.asking request sources token with
    pendingRequest := some request
    resubmitPending := false }

/-- `submit_query`, with `sources` for `submit_source_change`. -/
def submitQuery (config : ViewConfig) (w : World D R M) (request : QueryRequest D R)
    (sources : Option (List SourceId)) : Except String Unit × World D R M :=
  if request.viewId ∉ w.admitted ∧
      w.completions.length + w.admitted.size ≥ config.completionCapacity then
    (.error "query completion capacity is full", w)
  else if w.accepting = false then (.error "view adapter is shut down", w)
  else match sources.bind (sourcesRefusal config w) with
    | some refusal => (.error refusal, w)
    | none =>
      if request.viewId ∈ w.unionViews then
        (.error "union views take union candidates, not ordinary queries", w)
      else match w.views.lookup request.viewId with
        | none => (.error "unknown view", w)
        | some view =>
          if request.revision ≤ view.desiredRevision then (.ok (), w)
          else if request.baseRevision ≠ view.appliedRevision ∨
              ¬ definitionsMatch request.baseConstraints view.appliedConstraints then
            (.error "query base snapshot does not match the applied view", w)
          else if w.queue.length ≥ config.requestCapacity then
            (.error "query queue is full", { w with
              views := w.views.replace request.viewId
                ((view.asking request sources (w.token request.viewId)).restored view) })
          else (.ok (), { w.put request.viewId
              (view.submitted request sources (w.token request.viewId)) with
            queue := w.queue ++ [.query request]
            cancelled := insert view.cancel w.cancelled
            admitted := w.admitted.insert request.viewId request.revision
            accepted := w.accepted ++ [request] })

end

/-! ### Updates -/

/-- `push_completion`, and what is done to `admitted` before. -/
def World.complete (w : World D R M) (completion : QueryCompletion) : World D R M :=
  { w with
    admitted := if w.admitted.lookup completion.viewId = some completion.revision then
      w.admitted.erase completion.viewId else w.admitted
    completions := w.completions ++ [completion] }

/-- The answer to a request. -/
def QueryRequest.answer (request : QueryRequest D R) (result : Except QueryFailure Unit) :
    QueryCompletion :=
  ⟨request.viewId, request.generation, request.revision, request.purpose, result⟩

/-- A view whose candidate failed. -/
def ViewState.failed (view : ViewState D R M) (message : String) (limited : Bool) (token : Token) :
    ViewState D R M :=
  { view with
    refreshing := false
    pendingSources := none
    pendingRequest := none
    resubmitPending := false
    desiredRevision := view.appliedRevision
    cancel := token
    status := { view.status with
      state := if limited then .limited else match view.published with
        | .raw => .raw
        | .filtered _ => .ready
      diagnostic := some message } }

/-- `apply_update` of a failure. -/
def applyFailed (w : World D R M) (request : QueryRequest D R) (purpose : QueryPurpose)
    (message : String) (limited : Bool) (token : Token) : World D R M :=
  if token ∈ w.cancelled then w
  else match w.views.lookup request.viewId with
    | none => w
    | some view =>
      if view.desiredRevision ≠ request.revision then w
      else (w.put request.viewId (view.failed message limited (w.token request.viewId))).complete
        (request.answer (.error ⟨purpose, message⟩))

/-- A view that publishes. -/
def ViewState.publish (view : ViewState D R M) (request : QueryRequest D R)
    (published : Published M) (scanned : ℕ) (watermarks : List (SourceId × Option ℕ))
    (diagnostic : Option String) : ViewState D R M :=
  { view with
    sources := view.pendingSources.getD view.sources
    pendingSources := none
    pendingRequest := none
    resubmitPending := false
    published := published
    appliedRevision := request.revision
    appliedGeneration := request.generation
    appliedConstraints := request.constraints
    lastRequest := some request
    refreshing := false
    providerRevision := view.providerRevision + 1
    status :=
      { revision := request.revision
        state := match published with
          | .raw => .raw
          | .filtered _ => .ready
        scannedRecords := scanned
        highWatermarks := watermarks
        diagnostic := diagnostic } }

/-- `apply_update` of a publication: the sources of the candidate are registered with the row
provider, whose answer is `raw`, first. -/
def applyPublish (w : World D R M) (raw : Except String Unit) (request : QueryRequest D R)
    (published : Published M) (scanned : ℕ) (watermarks : List (SourceId × Option ℕ))
    (diagnostic : Option String) (token : Token) : World D R M :=
  if token ∈ w.cancelled then w
  else match w.views.lookup request.viewId with
    | none => w
    | some view =>
      if view.desiredRevision ≠ request.revision ∨ view.cancel ∈ w.cancelled then w
      else match view.pendingSources, raw with
        | some _, .error e => applyFailed w request request.purpose
            s!"source membership publication: {e}" false token
        | _, _ =>
          let w' := w.put request.viewId
            (view.publish request published scanned watermarks diagnostic)
          if view.status.state = .pending then w'.complete (request.answer (.ok ())) else w'

/-- `apply_update` of progress. -/
def applyProgress (w : World D R M) (viewId : String) (revision scanned : ℕ) (token : Token) :
    World D R M :=
  if token ∈ w.cancelled then w
  else match w.views.lookup viewId with
    | none => w
    | some view =>
      if view.desiredRevision ≠ revision then w
      else w.put viewId { view with status := { view.status with scannedRecords := scanned } }

def applyUpdate (w : World D R M) (raw : Except String Unit) : Update D R M → World D R M
  | .progress viewId revision scanned token => applyProgress w viewId revision scanned token
  | .publish request published scanned watermarks diagnostic token _ =>
    applyPublish w raw request published scanned watermarks diagnostic token
  | .failed request purpose message limited token =>
    applyFailed w request purpose message limited token
  | .other => w

/-! ### What else `drain_updates` does -/

/-- A view whose candidate is to be submitted again; a full queue is tried again later. -/
def resubmit (config : ViewConfig) (w : World D R M) (viewId : String) : World D R M :=
  match w.views.lookup viewId with
  | none => w
  | some view =>
    if view.resubmitPending = false then w
    else match view.pendingRequest with
      | none => w.put viewId { view with resubmitPending := false }
      | some request =>
        if w.queue.length ≥ config.requestCapacity then w
        else { w.put viewId { view with resubmitPending := false } with
          queue := w.queue ++ [.query request] }

/-- `current > scanned`, where nothing is less than anything. -/
def newer : Option ℕ → Option ℕ → Bool
  | some current, some scanned => scanned < current
  | some _, none => true
  | none, _ => false

/-- A view that has records to catch up with; `current` are the high watermarks of the row
provider. -/
def ViewState.behind (view : ViewState D R M) (current : SourceId → Option ℕ) : Bool :=
  view.sources.any fun id =>
    newer (current id) ((view.status.highWatermarks.find? (·.1 = id)).bind Prod.snd)

/-- A view is refreshed with the records that are new. -/
def refresh (config : ViewConfig) (w : World D R M) (viewId : String)
    (current : SourceId → Option ℕ) : World D R M :=
  match w.views.lookup viewId with
  | none => w
  | some view =>
    if view.status.state = .ready ∧ view.refreshing = false ∧ view.behind current = true ∧
        w.queue.length < config.requestCapacity then
      { w.put viewId { view with refreshing := true } with
        queue := w.queue ++ [.incremental viewId] }
    else w

/-- `shutdown`, up to where it waits for the worker. -/
def shutdown (w : World D R M) : World D R M :=
  { w with
    accepting := false
    views := w.views.map fun _ view => { view with status := { view.status with state := .shutdown } }
    cancelled := w.cancelled ∪ (w.views.entries.map fun e => e.2.cancel).toFinset }

/-! ### The worker -/

/-- The worker looks at the view that the work is for. -/
def start (w : World D R M) : Work D R → Worker D R
  | .other => .idle
  | .incremental viewId =>
    match w.views.lookup viewId with
    | none => .idle
    | some view => match view.lastRequest with
      | none => .idle
      | some request =>
        if view.desiredRevision ≠ request.revision then .idle
        else .running ⟨request, view.sources.filter (· ∈ w.sources), view.cancel⟩
  | .query request =>
    match w.views.lookup request.viewId with
    | none => .idle
    | some view =>
      if view.desiredRevision ≠ request.revision then .idle
      else .running ⟨request,
        (view.pendingSources.getD view.sources).filter (· ∈ w.sources), view.cancel⟩

/-! ### All together -/

/-- What the adapter is called for and what the worker does. -/
inductive Event (D R M : Type)
  | registerSource (id : SourceId) (raw : Except String Unit)
  | rollbackSourceRegistration (id : SourceId) (viewId : String)
  | registerView (viewId : String) (sources : List SourceId) (raw : Except String Unit)
  | unregisterView (viewId : String)
  | registerUnionView (viewId : String) (sources : List SourceId) (raw : Except String Unit)
  | unregisterUnionView (viewId : String)
  | installUnion (viewId : String) (revision generation : ℕ) (membership : M) (scanned : ℕ)
      (watermarks : List (SourceId × Option ℕ))
  | submit (request : QueryRequest D R) (sources : Option (List SourceId))
  | poll
  | shutdown
  /-- Work for something that is no view. -/
  | enqueue
  /-- A step of `drain_updates`: the first update is applied. -/
  | apply (raw : Except String Unit)
  | resubmit (viewId : String)
  | refresh (viewId : String) (current : SourceId → Option ℕ)
  /-- The worker receives work. -/
  | receive
  | start
  | progress (scanned : ℕ)
  | publish (published : Published M) (scanned : ℕ) (watermarks : List (SourceId × Option ℕ))
      (diagnostic : Option String)
  | fail (purpose : QueryPurpose) (message : String) (limited : Bool)
  /-- A job that finds its flag set ends without an answer. -/
  | giveUp
  /-- An update about something that is no view. -/
  | inform

section
variable [Inhabited D] [DecidableEq D] [DecidableEq R]

/-- One step, if it can be made. -/
def World.next (config : ViewConfig) (w : World D R M) : Event D R M → Option (World D R M)
  | .registerSource id raw => some (View.Adapter.registerSource w id raw).2
  | .rollbackSourceRegistration id viewId =>
    some (View.Adapter.rollbackSourceRegistration w id viewId)
  | .registerView viewId sources raw => some (View.Adapter.registerView config w viewId sources raw).2
  | .unregisterView viewId => some (View.Adapter.unregisterView w viewId)
  | .registerUnionView viewId sources raw =>
    some (View.Adapter.registerUnionView config w viewId sources raw).2
  | .unregisterUnionView viewId => some (View.Adapter.unregisterUnionView w viewId)
  | .installUnion viewId revision generation membership scanned watermarks =>
    if viewId ∈ w.unionViews then
      some (View.Adapter.installUnion w viewId revision generation membership scanned watermarks)
    else none
  | .submit request sources =>
    some { (submitQuery config w request sources).2 with asked := w.asked ++ [request] }
  | .poll => match w.completions with
    | [] => some w
    | completion :: rest =>
      some { w with completions := rest, polled := w.polled ++ [completion] }
  | .shutdown => some (View.Adapter.shutdown w)
  | .enqueue =>
    if w.queue.length < config.requestCapacity then some { w with queue := w.queue ++ [.other] }
    else none
  | .apply raw => match w.updates with
    | [] => some w
    | update :: rest => some (applyUpdate { w with updates := rest } raw update)
  | .resubmit viewId => if w.accepting then some (View.Adapter.resubmit config w viewId) else none
  | .refresh viewId current =>
    if w.accepting then some (View.Adapter.refresh config w viewId current) else none
  | .receive => match w.worker, w.queue with
    | .idle, work :: rest => some { w with worker := .received work, queue := rest }
    | _, _ => none
  | .start => match w.worker with
    | .received work => some { w with worker := View.Adapter.start w work }
    | _ => none
  | .progress scanned => match w.worker with
    | .running job =>
      if w.updates.length < config.updateCapacity then
        some { w with updates := w.updates ++
          [.progress job.request.viewId job.request.revision scanned job.token] }
      else none
    | _ => none
  | .publish published scanned watermarks diagnostic => match w.worker with
    | .running job =>
      if w.updates.length < config.updateCapacity then
        some { w with
          worker := .idle
          updates := w.updates ++ [.publish job.request published scanned watermarks diagnostic
            job.token job.sources] }
      else none
    | _ => none
  | .fail purpose message limited => match w.worker with
    | .running job =>
      if w.updates.length < config.updateCapacity then
        some { w with
          worker := .idle
          updates := w.updates ++ [.failed job.request purpose message limited job.token] }
      else none
    | _ => none
  | .giveUp => match w.worker with
    | .running job => if job.token ∈ w.cancelled then some { w with worker := .idle } else none
    | _ => none
  | .inform =>
    if w.updates.length < config.updateCapacity then some { w with updates := w.updates ++ [.other] }
    else none

/-- The adapter and its worker. -/
def adapter (config : ViewConfig) : Machine (World D R M) (Event D R M) :=
  .ofFun (World.next config)

end

/-! ### What a step can do -/

/-- The view that an event registers. -/
def Event.registers : Event D R M → Option String
  | .registerView viewId _ _ | .registerUnionView viewId _ _ => some viewId
  | _ => none

/-- The view that an event takes away or starts over. -/
def Event.replaces : Event D R M → Option String
  | .rollbackSourceRegistration _ viewId | .registerView viewId _ _ | .unregisterView viewId
  | .registerUnionView viewId _ _ | .unregisterUnionView viewId => some viewId
  | _ => none

/-- The request that an update answers, and the flag of its job. -/
def Update.answers : Update D R M → Option (QueryRequest D R × Token)
  | .publish request _ _ _ _ token _ => some (request, token)
  | .failed request _ _ _ token => some (request, token)
  | .progress _ _ _ _ | .other => none

/-- The request that an update publishes, and the sources of its job. -/
def Update.scope : Update D R M → Option (QueryRequest D R × List SourceId)
  | .publish request _ _ _ _ _ scope => some (request, scope)
  | .failed _ _ _ _ _ | .progress _ _ _ _ | .other => none

/-- A view takes an update for an answer. -/
structure Live (w : World D R M) (view : ViewState D R M) (request : QueryRequest D R)
    (token : Token) : Prop where
  mem : w.views.lookup request.viewId = some view
  desired : view.desiredRevision = request.revision
  unset : token ∉ w.cancelled

variable [Inhabited D]

/-- What an event can do. -/
inductive Effect (config : ViewConfig) (w : World D R M) : Event D R M → World D R M → Prop
  | nothing {e : Event D R M} : Effect config w e w
  | asks {request : QueryRequest D R} {sources : Option (List SourceId)} :
      Effect config w (.submit request sources) { w with asked := w.asked ++ [request] }
  | submits {request : QueryRequest D R} {sources : Option (List SourceId)} {view : ViewState D R M}
      (accepting : w.accepting = true) (room : request.viewId ∈ w.admitted ∨
        w.completions.length + w.admitted.size < config.completionCapacity)
      (known : ∀ list ∈ sources, ∀ id ∈ list, id ∈ w.sources)
      (ordinary : request.viewId ∉ w.unionViews)
      (mem : w.views.lookup request.viewId = some view)
      (newer : view.desiredRevision < request.revision) :
      Effect config w (.submit request sources) { w.put request.viewId
          (view.submitted request sources (w.token request.viewId)) with
        queue := w.queue ++ [.query request]
        cancelled := insert view.cancel w.cancelled
        admitted := w.admitted.insert request.viewId request.revision
        accepted := w.accepted ++ [request]
        asked := w.asked ++ [request] }
  | restarts {id : SourceId} {raw : Except String Unit} (accepting : w.accepting = true) :
      Effect config w (.registerSource id raw) { w with
        sources := insert id w.sources
        views := w.views.map fun viewId view =>
          if view.concerns id then view.restarted id (w.token viewId) else view
        cancelled := w.cancelled ∪ w.flagsOf id
        tokens := w.tokens + 1 }
  | drops {e : Event D R M} {viewId : String} {sources : Finset SourceId}
      {cancelled : Finset Token} {unionViews : Finset String} (replaces : e.replaces = some viewId)
      (kept : ∀ v ≠ viewId, ∀ view, w.views.lookup v = some view →
        ∀ id ∈ w.sources, view.concerns id = true → id ∈ sources)
      (flags : cancelled = w.cancelled ∨
        ∃ view ∈ w.views.lookup viewId, cancelled = insert view.cancel w.cancelled)
      (unions : unionViews = w.unionViews ∨ unionViews = w.unionViews.erase viewId) :
      Effect config w e { w with
        views := w.views.erase viewId
        sources := sources
        cancelled := cancelled
        unionViews := unionViews }
  | enters {e : Event D R M} {viewId : String} {sources : List SourceId} {revision : ℕ}
      {cancelled : Finset Token} {unionViews : Finset String}
      (accepting : w.accepting = true) (registers : e.registers = some viewId)
      (known : ∀ id ∈ sources, id ∈ w.sources)
      (flags : cancelled = w.cancelled ∨
        ∃ view ∈ w.views.lookup viewId, cancelled = insert view.cancel w.cancelled)
      (unions : unionViews = w.unionViews ∨ unionViews = insert viewId w.unionViews) :
      Effect config w e { w.put viewId (.fresh sources (w.token viewId) revision) with
        cancelled := cancelled
        unionViews := unionViews }
  | installs {viewId : String} {view : ViewState D R M} {revision generation : ℕ} {membership : M}
      {scanned : ℕ} {watermarks : List (SourceId × Option ℕ)} (union : viewId ∈ w.unionViews)
      (mem : w.views.lookup viewId = some view) :
      Effect config w (.installUnion viewId revision generation membership scanned watermarks)
        (w.put viewId (view.installed revision generation membership scanned watermarks))
  | polls {completion : QueryCompletion} {rest : List QueryCompletion}
      (first : w.completions = completion :: rest) :
      Effect config w .poll { w with completions := rest, polled := w.polled ++ [completion] }
  | shuts : Effect config w .shutdown (shutdown w)
  | enqueues : Effect config w .enqueue { w with queue := w.queue ++ [.other] }
  /-- An update is dropped. -/
  | ignores {raw : Except String Unit} {update : Update D R M} {rest : List (Update D R M)}
      (first : w.updates = update :: rest)
      (stale : ∀ request token view, update.answers = some (request, token) →
        Live w view request token → view.cancel ∈ w.cancelled) :
      Effect config w (.apply raw) { w with updates := rest }
  | progresses {raw : Except String Unit} {viewId : String} {revision scanned : ℕ} {token : Token}
      {rest : List (Update D R M)} {view : ViewState D R M}
      (first : w.updates = .progress viewId revision scanned token :: rest)
      (mem : w.views.lookup viewId = some view) :
      Effect config w (.apply raw) ({ w with updates := rest }.put viewId
        { view with status := { view.status with scannedRecords := scanned } })
  | fails {raw : Except String Unit} {update : Update D R M} {rest : List (Update D R M)}
      {request : QueryRequest D R} {token : Token} {view : ViewState D R M} {purpose : QueryPurpose}
      {message : String} {limited : Bool} (first : w.updates = update :: rest)
      (answers : update.answers = some (request, token)) (live : Live w view request token)
      (published : update.scope ≠ none → view.pendingSources ≠ none ∧ view.cancel ∉ w.cancelled) :
      Effect config w (.apply raw) (({ w with updates := rest }.put request.viewId
        (view.failed message limited (w.token request.viewId))).complete
          (request.answer (.error ⟨purpose, message⟩)))
  | publishes {raw : Except String Unit} {rest : List (Update D R M)} {request : QueryRequest D R}
      {published : Published M} {scanned : ℕ} {watermarks : List (SourceId × Option ℕ)}
      {diagnostic : Option String} {token : Token} {scope : List SourceId} {view : ViewState D R M}
      {w' : World D R M}
      (first : w.updates =
        .publish request published scanned watermarks diagnostic token scope :: rest)
      (live : Live w view request token) (unset : view.cancel ∉ w.cancelled)
      (eq : w' = { w with updates := rest }.put request.viewId
        (view.publish request published scanned watermarks diagnostic)) :
      Effect config w (.apply raw)
        (if view.status.state = .pending then w'.complete (request.answer (.ok ())) else w')
  | resubmits {viewId : String} {view : ViewState D R M} {work : List (Work D R)}
      (mem : w.views.lookup viewId = some view)
      (again : work = (view.pendingRequest.map Work.query).toList) :
      Effect config w (.resubmit viewId) { w.put viewId { view with resubmitPending := false } with
        queue := w.queue ++ work }
  | refreshes {viewId : String} {current : SourceId → Option ℕ} {view : ViewState D R M}
      (mem : w.views.lookup viewId = some view) :
      Effect config w (.refresh viewId current) { w.put viewId { view with refreshing := true } with
        queue := w.queue ++ [.incremental viewId] }
  | receives {work : Work D R} {rest : List (Work D R)} (idle : w.worker = .idle)
      (first : w.queue = work :: rest) :
      Effect config w .receive { w with worker := .received work, queue := rest }
  | starts {work : Work D R} (received : w.worker = .received work) :
      Effect config w .start { w with worker := start w work }
  | reports {e : Event D R M} {job : Job D R} {scanned : ℕ} (running : w.worker = .running job) :
      Effect config w e { w with updates := w.updates ++
        [.progress job.request.viewId job.request.revision scanned job.token] }
  | ends {e : Event D R M} {job : Job D R} {update : Update D R M}
      (running : w.worker = .running job) (answers : update.answers = some (job.request, job.token))
      (scope : ∀ pair ∈ update.scope, pair = (job.request, job.sources)) :
      Effect config w e { w with worker := .idle, updates := w.updates ++ [update] }
  | givesUp {job : Job D R} (running : w.worker = .running job) (set : job.token ∈ w.cancelled) :
      Effect config w .giveUp { w with worker := .idle }
  | informs : Effect config w .inform { w with updates := w.updates ++ [.other] }

variable {config : ViewConfig} {w w' : World D R M} {e : Event D R M}

omit [Inhabited D] in
theorem sourcesRefusal_eq_none {sources : List SourceId}
    (h : sourcesRefusal config w sources = none) : ∀ id ∈ sources, id ∈ w.sources := by
  unfold sourcesRefusal at h
  split_ifs at h with hlen hnodup hknown
  intro id hid
  by_contra hmem
  exact hknown ⟨id, hid, hmem⟩

section
variable [DecidableEq D] [DecidableEq R]

omit [Inhabited D] in
/-- A submission changes nothing, a full queue included, or makes a candidate. -/
theorem submitQuery_cases (request : QueryRequest D R) (sources : Option (List SourceId)) :
    (submitQuery config w request sources).2 = w ∨ ∃ view : ViewState D R M,
      w.accepting = true ∧ (request.viewId ∈ w.admitted ∨
        w.completions.length + w.admitted.size < config.completionCapacity) ∧
      (∀ list ∈ sources, ∀ id ∈ list, id ∈ w.sources) ∧ request.viewId ∉ w.unionViews ∧
      w.views.lookup request.viewId = some view ∧ view.desiredRevision < request.revision ∧
      submitQuery config w request sources = (.ok (), { w.put request.viewId
          (view.submitted request sources (w.token request.viewId)) with
        queue := w.queue ++ [.query request]
        cancelled := insert view.cancel w.cancelled
        admitted := w.admitted.insert request.viewId request.revision
        accepted := w.accepted ++ [request] }) := by
  unfold submitQuery
  by_cases hroom : request.viewId ∉ w.admitted ∧
      w.completions.length + w.admitted.size ≥ config.completionCapacity
  · exact .inl (by rw [if_pos hroom])
  rw [if_neg hroom]
  by_cases haccepting : w.accepting = false
  · exact .inl (by rw [if_pos haccepting])
  rw [if_neg haccepting]
  cases hrefusal : sources.bind (sourcesRefusal config w) with
  | some refusal => exact .inl rfl
  | none =>
    simp only
    by_cases hunion : request.viewId ∈ w.unionViews
    · exact .inl (by rw [if_pos hunion])
    rw [if_neg hunion]
    cases hview : w.views.lookup request.viewId with
    | none => exact .inl rfl
    | some view =>
      simp only
      split_ifs with hrevision hbase hfull
      · exact .inl rfl
      · exact .inl rfl
      · -- what was set in the view is put back
        have hrestored :
            (view.asking request sources (w.token request.viewId)).restored view = view := rfl
        refine .inl ?_
        rw [hrestored, Dict.replace_of_lookup hview]
      · refine .inr ⟨view, by simpa using haccepting, ?_, fun list hlist => ?_, hunion, rfl,
          Nat.lt_of_not_le hrevision, rfl⟩
        · rcases not_and_or.1 hroom with hin | hspace
          · exact .inl (not_not.1 hin)
          · exact .inr (Nat.lt_of_not_le hspace)
        · obtain rfl : sources = some list := hlist
          exact sourcesRefusal_eq_none hrefusal

theorem submitQuery_effect (request : QueryRequest D R) (sources : Option (List SourceId)) :
    Effect config w (.submit request sources)
      { (submitQuery config w request sources).2 with asked := w.asked ++ [request] } := by
  rcases submitQuery_cases request sources with
    hsame | ⟨view, haccepting, hroom, hknown, hordinary, hview, hnewer, heq⟩
  · rw [hsame]
    exact .asks
  · rw [heq]
    exact .submits haccepting hroom hknown hordinary hview hnewer

end

variable {viewId : String} {raw : Except String Unit} {rest : List (Update D R M)} {token : Token}

omit [Inhabited D] in
theorem erase_of_lookup_none (h : w.views.lookup viewId = none) :
    w.views.erase viewId = w.views := by
  refine AList.ext ?_
  exact List.kerase_of_notMem_keys fun hmem =>
    absurd (AList.lookup_isSome.2 (AList.mem_keys.2 hmem)) (by simp [h])

theorem enter_effect {sources : List SourceId} {unionViews : Finset String}
    (haccepting : w.accepting = true) (hregisters : e.registers = some viewId)
    (hknown : ∀ id ∈ sources, id ∈ w.sources)
    (hunions : unionViews = w.unionViews ∨ unionViews = insert viewId w.unionViews) :
    Effect config w e { w.enter viewId sources with unionViews := unionViews } := by
  unfold World.enter
  cases hview : w.views.lookup viewId with
  | none => exact .enters haccepting hregisters hknown (.inl rfl) hunions
  | some previous => exact .enters haccepting hregisters hknown (.inr ⟨previous, hview, rfl⟩) hunions

theorem registerView_effect (viewId : String) (sources : List SourceId) (raw : Except String Unit) :
    Effect config w (.registerView viewId sources raw)
      (registerView config w viewId sources raw).2 := by
  unfold registerView
  split_ifs with hlimit haccepting hknown hviews
  · exact .nothing
  · exact .nothing
  · exact .nothing
  · exact .nothing
  · have hknown' : ∀ id ∈ deduped sources, id ∈ w.sources := by simpa using hknown
    have hunions : (w.enter viewId (deduped sources)).unionViews = w.unionViews := by
      unfold World.enter
      cases w.views.lookup viewId <;> rfl
    have heffect : Effect config w (.registerView viewId sources raw)
        { w.enter viewId (deduped sources) with unionViews := w.unionViews } :=
      enter_effect (by simpa using haccepting) rfl hknown' (.inl rfl)
    rwa [← hunions] at heffect

theorem registerUnionView_effect (viewId : String) (sources : List SourceId)
    (raw : Except String Unit) : Effect config w (.registerUnionView viewId sources raw)
      (registerUnionView config w viewId sources raw).2 := by
  unfold registerUnionView
  split_ifs with hlimit haccepting hknown hviews
  · exact .nothing
  · exact .nothing
  · exact .nothing
  · exact .nothing
  · exact enter_effect (by simpa using haccepting) rfl (by simpa using hknown) (.inr rfl)

theorem unregisterView_effect (viewId : String) :
    Effect config w (.unregisterView viewId) (unregisterView w viewId) := by
  unfold unregisterView
  cases hview : w.views.lookup viewId with
  | none => exact .nothing
  | some view =>
    exact .drops rfl (fun v hv view' hv' id hid _ => hid) (.inr ⟨view, hview, rfl⟩) (.inl rfl)

theorem unregisterUnionView_effect (viewId : String) :
    Effect config w (.unregisterUnionView viewId) (unregisterUnionView w viewId) := by
  unfold unregisterUnionView unregisterView
  cases hview : w.views.lookup viewId with
  | none =>
    have heffect : Effect config w (.unregisterUnionView viewId) { w with
        views := w.views.erase viewId, unionViews := w.unionViews.erase viewId } :=
      .drops rfl (fun v hv view' hv' id hid _ => hid) (.inl rfl) (.inr rfl)
    rwa [erase_of_lookup_none hview] at heffect
  | some view =>
    exact .drops rfl (fun v hv view' hv' id hid _ => hid) (.inr ⟨view, hview, rfl⟩) (.inr rfl)

theorem rollback_effect (id : SourceId) (viewId : String) :
    Effect config w (.rollbackSourceRegistration id viewId)
      (rollbackSourceRegistration w id viewId) := by
  unfold rollbackSourceRegistration
  refine .drops rfl (fun v hv view hview source hsource hconcerns => ?_) (.inl rfl) (.inl rfl)
  split_ifs with hall
  · refine Finset.mem_erase.2 ⟨fun heq => ?_, hsource⟩
    -- the view is one of those that are asked
    have hmem : ⟨v, view⟩ ∈ (w.views.erase viewId).entries := by
      refine AList.mem_lookup_iff.1 ?_
      rw [AList.lookup_erase_ne hv]
      exact hview
    have := List.all_eq_true.1 hall _ hmem
    simp only [← heq, hconcerns, Bool.not_true, Bool.false_eq_true] at this
  · exact hsource

/-! ### What an update can do -/

theorem applyFailed_effect {update : Update D R M} {request : QueryRequest D R}
    (purpose : QueryPurpose) (message : String) (limited : Bool)
    (hfirst : w.updates = update :: rest) (hanswers : update.answers = some (request, token))
    (hpublished : ∀ view, w.views.lookup request.viewId = some view → update.scope ≠ none →
      view.pendingSources ≠ none ∧ view.cancel ∉ w.cancelled) :
    Effect config w (.apply raw)
      (applyFailed { w with updates := rest } request purpose message limited token) := by
  unfold applyFailed
  split_ifs with hset
  · refine .ignores hfirst fun r t view hrt hlive => ?_
    obtain ⟨rfl, rfl⟩ := Prod.mk.inj (Option.some.inj (hanswers.symm.trans hrt))
    exact absurd hset hlive.unset
  · simp only
    cases hview : w.views.lookup request.viewId with
    | none =>
      refine .ignores hfirst fun r t view hrt hlive => ?_
      obtain ⟨rfl, rfl⟩ := Prod.mk.inj (Option.some.inj (hanswers.symm.trans hrt))
      exact absurd (hview.symm.trans hlive.mem) (by simp)
    | some view =>
      simp only
      split_ifs with hdesired
      · refine .ignores hfirst fun r t view' hrt hlive => ?_
        obtain ⟨rfl, rfl⟩ := Prod.mk.inj (Option.some.inj (hanswers.symm.trans hrt))
        obtain rfl := Option.some.inj (hview.symm.trans hlive.mem)
        exact absurd hlive.desired hdesired
      · exact .fails hfirst hanswers ⟨hview, not_not.1 hdesired, hset⟩ (hpublished view hview)

theorem applyPublish_effect {request : QueryRequest D R} {published : Published M} {scanned : ℕ}
    {watermarks : List (SourceId × Option ℕ)} {diagnostic : Option String} {scope : List SourceId}
    (hfirst : w.updates =
      .publish request published scanned watermarks diagnostic token scope :: rest) :
    Effect config w (.apply raw) (applyPublish { w with updates := rest } raw request published
      scanned watermarks diagnostic token) := by
  unfold applyPublish
  split_ifs with hset
  · refine .ignores hfirst fun r t view hrt hlive => ?_
    cases hrt
    exact absurd hset hlive.unset
  · simp only
    cases hview : w.views.lookup request.viewId with
    | none =>
      refine .ignores hfirst fun r t view hrt hlive => ?_
      cases hrt
      exact absurd (hview.symm.trans hlive.mem) (by simp)
    | some view =>
      simp only
      by_cases hstale : view.desiredRevision ≠ request.revision ∨ view.cancel ∈ w.cancelled
      · rw [if_pos hstale]
        refine .ignores hfirst fun r t view' hrt hlive => ?_
        cases hrt
        obtain rfl := Option.some.inj (hview.symm.trans hlive.mem)
        exact hstale.resolve_left (not_not.2 hlive.desired)
      · rw [if_neg hstale]
        obtain ⟨hdesired, hunset⟩ := not_or.1 hstale
        have hpublishes : Effect config w (.apply raw) _ :=
          .publishes hfirst ⟨hview, not_not.1 hdesired, hset⟩ hunset rfl
        cases hpending : view.pendingSources with
        | none => exact hpublishes
        | some sources =>
          cases raw with
          | ok => exact hpublishes
          | error message =>
            refine applyFailed_effect _ _ _ hfirst rfl fun view' hview' _ => ?_
            cases hview.symm.trans hview'
            exact ⟨by simp [hpending], hunset⟩

theorem applyProgress_effect {revision scanned : ℕ}
    (hfirst : w.updates = .progress viewId revision scanned token :: rest) :
    Effect config w (.apply raw)
      (applyProgress { w with updates := rest } viewId revision scanned token) := by
  have hignored : Effect config w (.apply raw) { w with updates := rest } :=
    .ignores hfirst fun r t view hrt => by simp [Update.answers] at hrt
  unfold applyProgress
  split_ifs with hset
  · exact hignored
  · simp only
    cases hview : w.views.lookup viewId with
    | none => exact hignored
    | some view =>
      simp only
      split_ifs with hdesired
      · exact hignored
      · exact .progresses hfirst hview

theorem applyUpdate_effect {update : Update D R M} (hfirst : w.updates = update :: rest) :
    Effect config w (.apply raw) (applyUpdate { w with updates := rest } raw update) := by
  cases update with
  | progress viewId revision scanned token => exact applyProgress_effect hfirst
  | publish request published scanned watermarks diagnostic token scope =>
    exact applyPublish_effect hfirst
  | failed request purpose message limited token =>
    exact applyFailed_effect purpose message limited hfirst rfl
      fun view _ hscope => absurd rfl hscope
  | other => exact .ignores hfirst fun r t view hrt => by simp [Update.answers] at hrt

/-! ### What the rest can do -/

theorem resubmit_effect (viewId : String) :
    Effect config w (.resubmit viewId) (resubmit config w viewId) := by
  unfold resubmit
  cases hview : w.views.lookup viewId with
  | none => exact .nothing
  | some view =>
    simp only
    by_cases hresubmit : view.resubmitPending = false
    · rw [if_pos hresubmit]
      exact .nothing
    rw [if_neg hresubmit]
    split
    · next hpending =>
      have hresubmits : Effect config w (.resubmit viewId)
          { w.put viewId { view with resubmitPending := false } with queue := w.queue ++ [] } :=
        .resubmits hview (by rw [hpending]; rfl)
      rw [List.append_nil] at hresubmits
      exact hresubmits
    · next request hpending =>
      split_ifs with hfull
      · exact .nothing
      · exact .resubmits hview (by rw [hpending]; rfl)

theorem refresh_effect (viewId : String) (current : SourceId → Option ℕ) :
    Effect config w (.refresh viewId current) (refresh config w viewId current) := by
  unfold refresh
  cases hview : w.views.lookup viewId with
  | none => exact .nothing
  | some view =>
    simp only
    split_ifs with hrefreshes
    · exact .refreshes hview
    · exact .nothing

/-- **The steps by what they do.** -/
theorem next_effect [DecidableEq D] [DecidableEq R] (h : (adapter config).step w e w') :
    Effect config w e w' := by
  have hnext : w.next config e = some w' := h
  cases e <;> simp only [World.next] at hnext
  case registerSource id raw =>
    cases hnext
    unfold registerSource
    split_ifs with haccepting
    · exact .nothing
    · cases raw with
      | error message => exact .nothing
      | ok => exact .restarts (by simpa using haccepting)
  case rollbackSourceRegistration id viewId =>
    exact Option.some.inj hnext ▸ rollback_effect id viewId
  case registerView viewId sources raw =>
    exact Option.some.inj hnext ▸ registerView_effect viewId sources raw
  case unregisterView viewId => exact Option.some.inj hnext ▸ unregisterView_effect viewId
  case registerUnionView viewId sources raw =>
    exact Option.some.inj hnext ▸ registerUnionView_effect viewId sources raw
  case unregisterUnionView viewId =>
    exact Option.some.inj hnext ▸ unregisterUnionView_effect viewId
  case installUnion viewId revision generation membership scanned watermarks =>
    split_ifs at hnext with hunion
    cases hnext
    unfold installUnion
    cases hview : w.views.lookup viewId with
    | none => exact .nothing
    | some view => exact .installs hunion hview
  case submit request sources => exact Option.some.inj hnext ▸ submitQuery_effect request sources
  case poll =>
    cases hcompletions : w.completions with
    | nil =>
      simp only [hcompletions] at hnext
      exact Option.some.inj hnext ▸ .nothing
    | cons completion rest =>
      simp only [hcompletions] at hnext
      exact Option.some.inj hnext ▸ .polls hcompletions
  case shutdown => exact Option.some.inj hnext ▸ .shuts
  case enqueue =>
    split_ifs at hnext
    exact Option.some.inj hnext ▸ .enqueues
  case apply raw =>
    cases hupdates : w.updates with
    | nil =>
      simp only [hupdates] at hnext
      exact Option.some.inj hnext ▸ .nothing
    | cons update rest =>
      simp only [hupdates] at hnext
      exact Option.some.inj hnext ▸ applyUpdate_effect hupdates
  case resubmit viewId =>
    split_ifs at hnext
    exact Option.some.inj hnext ▸ resubmit_effect viewId
  case refresh viewId current =>
    split_ifs at hnext
    exact Option.some.inj hnext ▸ refresh_effect viewId current
  case receive =>
    cases hworker : w.worker with
    | idle =>
      cases hqueue : w.queue with
      | nil => simp [hworker, hqueue] at hnext
      | cons work rest =>
        simp only [hworker, hqueue] at hnext
        exact Option.some.inj hnext ▸ .receives hworker hqueue
    | received _ | running _ => simp [hworker] at hnext
  case start =>
    cases hworker : w.worker with
    | received work =>
      simp only [hworker] at hnext
      exact Option.some.inj hnext ▸ .starts hworker
    | idle | running _ => simp [hworker] at hnext
  case progress scanned =>
    cases hworker : w.worker with
    | running job =>
      simp only [hworker] at hnext
      split_ifs at hnext
      cases hnext
      rw [← hworker]
      exact .reports hworker
    | idle | received _ => simp [hworker] at hnext
  case publish published scanned watermarks diagnostic =>
    cases hworker : w.worker with
    | running job =>
      simp only [hworker] at hnext
      split_ifs at hnext
      refine Option.some.inj hnext ▸ .ends hworker rfl fun pair hpair => ?_
      exact (Option.some.inj hpair).symm
    | idle | received _ => simp [hworker] at hnext
  case fail purpose message limited =>
    cases hworker : w.worker with
    | running job =>
      simp only [hworker] at hnext
      split_ifs at hnext
      refine Option.some.inj hnext ▸ .ends hworker rfl fun pair hpair => ?_
      exact absurd hpair (by simp [Update.scope])
    | idle | received _ => simp [hworker] at hnext
  case giveUp =>
    cases hworker : w.worker with
    | running job =>
      simp only [hworker] at hnext
      split_ifs at hnext with hset
      exact Option.some.inj hnext ▸ .givesUp hworker hset
    | idle | received _ => simp [hworker] at hnext
  case inform =>
    split_ifs at hnext
    exact Option.some.inj hnext ▸ .informs

end Lvu.View.Adapter
