import SemStreams.Graph.ObjectKey
import SemStreams.GraphIndex.Query
import SemStreams.GraphIngest.QueryCache
import SemStreams.GraphIngest.KeyedIngest
import SemStreams.GraphIngest.AppendOnce
import SemStreams.GraphIngest.IndexingProfile
import SemStreams.GraphIngest.PrefixQuery
import SemStreams.GraphIngest.SuffixQuery
import SemStreams.GraphIngest.BatchFetch
import SemStreams.Dispatch.KeyedPool
import SemStreams.GatedDag.AtMostOnce
import SemStreams.Rule.ConcurrentEvaluation
import SemStreams.Rule.FeedbackSuppression
import SemStreams.Rule.CompareValues
import SemStreams.Rule.StateKeys
import SemStreams.Rule.CronCooldown
import SemStreams.GraphView.View
import SemStreams.AgenticLoop.DeferredTurn
import SemStreams.AgenticLoop.Terminal
import SemStreams.AgenticLoop.RequestIdentity
import SemStreams.AgenticLoop.RequestName
import SemStreams.Lifecycle.TwoWorkflows
import SemStreams.Revlag.Soundness
import SemStreams.GraphIngest.ResidentPoison
import SemStreams.Export.Turtle
import SemStreams.GraphQuery.CommunityCache
import SemStreams.GraphIndexSpatial.Bounds
import SemStreams.GraphIndexTemporal.Range
import SemStreams.GraphEmbedding.Convergence
import SemStreams.GraphEmbedding.Outcomes
import SemStreams.AgenticGovernance.PiiFilter
import SemStreams.Config.Convergence
import SemStreams.Config.Arbitration
import SemStreams.Config.Identity
import SemStreams.Inference.Storage
import SemStreams.Inference.Verdict
import SemStreams.Structural.Pivot
import SemStreams.Worker.Pool
import SemStreams.Worker.PauseResume
import SemStreams.AgenticTools.LessonPromotion
