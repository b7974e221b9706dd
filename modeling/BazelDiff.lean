import BazelDiff.Lib.Digest
import BazelDiff.Lib.LossyText
import BazelDiff.Lib.Wildcard
import BazelDiff.Lib.Outcome
import BazelDiff.Lib.SlotTable
import BazelDiff.Hash.QueryOrder
import BazelDiff.Hash.Start
import BazelDiff.Partial.Derivation
import BazelDiff.Server.Workers
import BazelDiff.Server.Cancelled
import BazelDiff.Server.Memory
import BazelDiff.Lib.Transition
import BazelDiff.Hash.Walk
import BazelDiff.Hash.DirectHash
import BazelDiff.Hash.OwnLabel
import BazelDiff.Hash.Streaming
import BazelDiff.Cache
import BazelDiff.Partial.LoadingGuard
import BazelDiff.Impact.Endpoints
import BazelDiff.Query.Cquery
import BazelDiff.Hash.ConfiguredEdge
import BazelDiff.Query.RepositoryGraph
import BazelDiff.Hash.FineGrained
import BazelDiff.HashFileJson
import BazelDiff.DigestText
import BazelDiff.Partial.Complete
import BazelDiff.Partial.Termination
import BazelDiff.Hash.Recorded
import BazelDiff.Hash.OwnRecipes
import BazelDiff.Hash.BackEdge
import BazelDiff.Impact.ShortestPath
import BazelDiff.Impact.VisitOrder
import BazelDiff.Lib.BreadthFirst
import BazelDiff.Impact.Explain
import BazelDiff.Impact.ExplainWalk
import BazelDiff.Impact.RootCauses
import BazelDiff.Impact.DepthBound
import BazelDiff.Impact.Agreement
import BazelDiff.Lib.Delimited
import BazelDiff.Partial.TreeView
import BazelDiff.Partial.Listing
import BazelDiff.Partial.RawDiff
import BazelDiff.Hash.SeededHash
import BazelDiff.Partial.Invocation
import BazelDiff.Partial.Rebase
import BazelDiff.Partial.Directory
import BazelDiff.Partial.Pattern
import BazelDiff.Partial.ChangedSources
import BazelDiff.Partial.ModuleFile
import BazelDiff.Partial.Subincludes
import BazelDiff.Hash.LabelInstances
import BazelDiff.Hash.PreparedInputs
import BazelDiff.Hash.Materialized
import BazelDiff.Hash.Promotion
import BazelDiff.Server.Scope
import BazelDiff.Fingerprint
import BazelDiff.Server.Retrieval
import BazelDiff.Server.Pruning
import BazelDiff.Server.Degradation
import BazelDiff.Lib.Varint
import BazelDiff.Query.MessageStream
import BazelDiff.Query.ModuleCycles
import BazelDiff.Query.ShowRepositories
import BazelDiff.Impact.ModuleQuery
import BazelDiff.Lib.Wire
import BazelDiff.Query.PinnedUrls
import BazelDiff.Server.Recency
import BazelDiff.Server.Duration
import BazelDiff.Query.ArgumentChunks
import BazelDiff.Query.ScopedCoverage
import BazelDiff.Query.LocalRepository
import BazelDiff.Hash.KeyIndex
import BazelDiff.Hash.Merkle
import BazelDiff.Impact.Reachability
import BazelDiff.Impact.IsolatedImpact
import BazelDiff.Cancel.Safety
import BazelDiff.Cancel.Progress
import BazelDiff.Server.Coherence
import BazelDiff.Query.FailedReferences
import BazelDiff.Query.IsolatedRoot
import BazelDiff.Query.HiddenModules
import BazelDiff.Query.ExtensionSurvey
