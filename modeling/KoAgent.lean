import KoAgent.ByteWords
import KoAgent.NumeralText
import KoAgent.KeyedTables
import KoAgent.TableWalks
import KoAgent.StepRuns
import KoAgent.FloatCounters
import KoAgent.FixedLayouts
import KoAgent.BoundedChannels
import KoAgent.NetAddress
import KoAgent.NetAddressRoundtrip
import KoAgent.FilterModel
import KoAgent.CelExpression
import KoAgent.FilterCompiler
import KoAgent.NotInRewrite
import KoAgent.CelTokens
import KoAgent.NotInTokens
import KoAgent.RewriteExactness
import KoAgent.PredicateMachine
import KoAgent.FilterSets
import KoAgent.AtomInterning
import KoAgent.CidrSets
import KoAgent.CompilerShape
import KoAgent.CompiledSets
import KoAgent.ReferenceCel
import KoAgent.PushdownMeaning
import KoAgent.PushdownRefinement
import KoAgent.MappedPrefixes
import KoAgent.MirroredComparison
import KoAgent.ComparisonTests
import KoAgent.FilterExtension
import KoAgent.ProgramSize
import KoAgent.AttributeTests
import KoAgent.AtomTable
import KoAgent.RefusedFilters
import KoAgent.SharedAtoms
import KoAgent.ReorderedFilters
import KoAgent.KernelCidr
import KoAgent.KernelFilter
import KoAgent.VerdictWalk
import KoAgent.AttributeFilters
import KoAgent.TornVerdicts
import KoAgent.SocketHandlers
import KoAgent.EventDiscipline
import KoAgent.ConnectAttempts
import KoAgent.SynRetries
import KoAgent.ContainerPaths
import KoAgent.CgroupNames
import KoAgent.ContainerCache
import KoAgent.CgroupTree
import KoAgent.CacheClient
import KoAgent.SyncOrder
import KoAgent.CacheProgress
import KoAgent.FilterResolution
import KoAgent.VerdictResolution
import KoAgent.VerdictPipeline
import KoAgent.VerdictReconciliation
import KoAgent.ReconciliationRounds
import KoAgent.VerdictTable
import KoAgent.ProgStats
import KoAgent.DropCounters
import KoAgent.WireFormats
import KoAgent.EventReader
import KoAgent.AgentRuns
import KoAgent.AgentDecisions
import KoAgent.FilteredAgent
import KoAgent.EventDelivery
import KoAgent.NodePipeline
import KoAgent.LogLines
