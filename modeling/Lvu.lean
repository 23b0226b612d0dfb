import Lvu.Core.SseResume
import Lvu.Ingest.Cursor
import Lvu.Ingest.History
import Lvu.Shared.Election
import Lvu.Shared.Receipts
import Lvu.Shared.Barrier
import Lvu.Shared.Stdin
import Lvu.App.Autosave
import Lvu.App.TreePaths
import Lvu.Storage.Deletions
import Lvu.Storage.Retention
import Lvu.Store.Migration
import Lvu.Store.ReadBack
import Lvu.Store.RecipeUpdates
import Lvu.Core.ByteLoop
import Lvu.Core.Fragments
import Lvu.Core.Restart
import Lvu.Live.TimeToken
import Lvu.Live.Instants
import Lvu.Ingest.Checkpoints
import Lvu.Live.IndexCover
import Lvu.View.UnionCycle
import Lvu.Shared.StartKeys
import Lvu.Shared.Polling
import Lvu.View.Gaps
import Lvu.View.Settled
import Lvu.Bytes.Base64Codec
import Lvu.Query.BasisInstants
import Lvu.Query.ColumnFigures
import Lvu.View.FoldPlan
import Lvu.View.FoldRetention
import Lvu.View.UnionField
import Lvu.Query.TextPaths
import Lvu.Shared.Guards
import Lvu.Shared.Replied
import Lvu.Query.Projections
import Lvu.View.Appended
import Lvu.App.Ansi
