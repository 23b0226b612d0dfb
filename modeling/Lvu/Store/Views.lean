import Lvu.Core.Model

/-!
# Views and what is asked about them

The rows of the workspace store that windows share (`lvu-memory/src/store.rs`), the requests a
window makes about them (`lvu-app/src/memory.rs`) and the events the worker answers with
(`lvu-shared/src/protocol.rs`).  A view's definition and presentation are of an arbitrary type
`V`: what is done with a row depends on its identities, its name and its version.
-/

namespace Lvu

/-- The identity of a view. -/
structure ViewId where
  uuid : Uuid
deriving DecidableEq

/-- The identity of a recipe. -/
structure RecipeId where
  uuid : Uuid
deriving DecidableEq

namespace Store

/-- What a view is to its source. -/
inductive ViewRole
  /-- The permanent unfiltered view of its source. -/
  | canonical
  /-- An ordinary editable view. -/
  | derived
deriving DecidableEq

/-- A stored view. -/
structure WorkingView (V : Type) where
  id : ViewId
  sourceId : SourceId
  name : String
  role : ViewRole
  /-- Its definition and presentation. -/
  body : V
  version : UInt64
deriving DecidableEq

/-- What a request about recipes is correlated by. -/
structure RecipeRequestMeta where
  requestId : UInt64
  dialogId : UInt64
  dialogRevision : UInt64
deriving DecidableEq

/-- What the worker answers to a store request. -/
inductive StoreEvent (V : Type)
  | loaded (sourceId : SourceId) (viewId : ViewId) (views : List (WorkingView V))
  | loadFailed (sourceId : SourceId) (viewId : ViewId) (reason : String)
  | saved (sourceId : SourceId) (viewId : ViewId) (sequence version : UInt64)
  | saveFailed (sourceId : SourceId) (viewId : ViewId) (sequence : UInt64) (reason : String)
      (currentVersion : Option UInt64)
  | derivedViewCreated (viewId : ViewId) (error : Option String)
  | recent
  | recentFailed (reason : String)
  | recipes (request : RecipeRequestMeta)
  | recipeHistory (request : RecipeRequestMeta)
  | recipeSaved (request : RecipeRequestMeta) (saved : RecipeId)
  | recipeExported (request : RecipeRequestMeta) (saved : RecipeId)
  | recipeFailed (request : RecipeRequestMeta) (reason : String)
  | suggestionRecorded
  | suggestionFailed (reason : String)
  | flushed
  | flushFailed (reason : String)
  | unionCommitted
  | unionStatus
  | fatal (reason : String)
deriving DecidableEq

end Store

end Lvu
