import L7mp.GuardedRun
import L7mp.PipeChain
import L7mp.RingEdges
import L7mp.PipeRing
import L7mp.SessionState
import L7mp.SessionStep
import L7mp.SessionLifecycle
import L7mp.SessionTerminal
import L7mp.SessionTasks
import L7mp.SessionLedger
import L7mp.SessionLedgerStep
import L7mp.SessionOwned
import L7mp.SessionIdentity
import L7mp.SessionIdle
import L7mp.SessionServed
import L7mp.Names
import L7mp.SessionStreams
import L7mp.SessionWiring
import L7mp.SessionConnected
import L7mp.SessionRepipe
import L7mp.SessionRegistry
import L7mp.SessionListed
import L7mp.SessionRetry
import L7mp.Coroutine
import L7mp.KeyedList
import L7mp.KeyedGroups
import L7mp.StoreConfig
import L7mp.StoreState
import L7mp.Aborting
import L7mp.StoreDelete
import L7mp.SessionSevered
import L7mp.StoreAdd
import L7mp.StoreRun
import L7mp.StoreStable
import L7mp.StoreTied
import L7mp.StoreOrderly
import L7mp.StoreNames
import L7mp.StoreEndPoints
import L7mp.StoreSevered
import L7mp.ClusterRegistry
import L7mp.ClusterMirrored
import L7mp.Clearing
import L7mp.StoreHierarchy
import L7mp.StoreCleared
import L7mp.StoreRecursive
import L7mp.Bytes
import L7mp.UdpOffload
import L7mp.OffloadBooks
import L7mp.Sidecar
import L7mp.SidecarFlows
import L7mp.SidecarSound
import L7mp.OffloadAgrees
import L7mp.OffloadCounters
import L7mp.OffloadCounted
import L7mp.UdpServer
import L7mp.UdpDemux
import L7mp.UdpTable
import L7mp.Json
import L7mp.JsonSocketServer
import L7mp.JsonSocketClient
import L7mp.JsonSocketSession
import L7mp.JsonText
import L7mp.HttpSession
import L7mp.ObjectTree
import L7mp.RulePath
import L7mp.JsonSocketHeader
import L7mp.BroadcastStream
import L7mp.SyncCluster
import L7mp.PythonValue
import L7mp.OperatorSelector
import L7mp.OperatorActions
import L7mp.OperatorUpdate
import L7mp.OperatorTurns
import L7mp.OperatorConverges
import L7mp.OperatorEvents
import L7mp.OperatorViews
import L7mp.OperatorPrevious
import L7mp.Chasing
import L7mp.RuleLookup
import L7mp.RuleSelection
import L7mp.Catalog
import L7mp.CatalogPlan
import L7mp.CatalogFlatten
import L7mp.CatalogDump
import L7mp.CatalogReach
import L7mp.CatalogAccept
import L7mp.CatalogRoundTrip
import L7mp.OnesComplement
import L7mp.HeaderChecksum
import L7mp.JsonEncap
import L7mp.TreePaths
import L7mp.PathLaws
import L7mp.RulelistApi
import L7mp.LoadBalancing
import L7mp.OperatorMatches
import L7mp.ConvertSub
import L7mp.SchemaPruning
import L7mp.ConvertLossless
import L7mp.VirtualClusters
import L7mp.SessionFlow
import L7mp.MetricCluster
import L7mp.JsonSocketProtocol
import L7mp.OffloadStats
import L7mp.OperatorRuns
import L7mp.OperatorOwn
import L7mp.OperatorSteady
import L7mp.OperatorResume
import L7mp.SchemaInlining
import L7mp.SchemaReferences
import L7mp.SchemaDocuments
import L7mp.StoreExplicit
import L7mp.SessionLog
import L7mp.RelyGuarantee
import L7mp.StoreGrowth
import L7mp.StoreAnswered
