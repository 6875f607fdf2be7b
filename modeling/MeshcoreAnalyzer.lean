import MeshcoreAnalyzer.GoBytes
import MeshcoreAnalyzer.Runes
import MeshcoreAnalyzer.Frame
import MeshcoreAnalyzer.IngestorDecoder
import MeshcoreAnalyzer.ServerDecoder
import MeshcoreAnalyzer.FrameGrammar
import MeshcoreAnalyzer.DecoderAgreement
import MeshcoreAnalyzer.Maps
import MeshcoreAnalyzer.Json
import MeshcoreAnalyzer.Timestamps
import MeshcoreAnalyzer.Transmissions
import MeshcoreAnalyzer.Resolver
import MeshcoreAnalyzer.Runs
import MeshcoreAnalyzer.Orders
import MeshcoreAnalyzer.Indexes
import MeshcoreAnalyzer.Store
import MeshcoreAnalyzer.Loading
import MeshcoreAnalyzer.Eviction
import MeshcoreAnalyzer.System
import MeshcoreAnalyzer.Catalog
import MeshcoreAnalyzer.WellFormed
import MeshcoreAnalyzer.Paths
import MeshcoreAnalyzer.Rows
import MeshcoreAnalyzer.Ledger
import MeshcoreAnalyzer.Relays
import MeshcoreAnalyzer.Subpaths
import MeshcoreAnalyzer.Readers
import MeshcoreAnalyzer.TrackedBytes
import MeshcoreAnalyzer.SubpathExactness
import MeshcoreAnalyzer.Dangling
import MeshcoreAnalyzer.PacketOrder
import MeshcoreAnalyzer.IndexOrder
import MeshcoreAnalyzer.Overlap
import MeshcoreAnalyzer.Uniqueness
import MeshcoreAnalyzer.LiveRows
import MeshcoreAnalyzer.Firsts
import MeshcoreAnalyzer.RelayInfo
import MeshcoreAnalyzer.PathHops
import MeshcoreAnalyzer.RelayAgreement
import MeshcoreAnalyzer.ReadThrough
import MeshcoreAnalyzer.Usefulness
import MeshcoreAnalyzer.RelayStats
import MeshcoreAnalyzer.Tables
import MeshcoreAnalyzer.NeighborGraph
import MeshcoreAnalyzer.GraphConsistency
import MeshcoreAnalyzer.GraphCounts
import MeshcoreAnalyzer.GraphBuilder
import MeshcoreAnalyzer.GeoPlausibility
import MeshcoreAnalyzer.JsonText
import MeshcoreAnalyzer.PayloadJSON
import MeshcoreAnalyzer.Originators
import MeshcoreAnalyzer.FilterLanguage
import MeshcoreAnalyzer.FilterGrammar
import MeshcoreAnalyzer.FilterTokens
import MeshcoreAnalyzer.FilterRoundTrip
import MeshcoreAnalyzer.IngestBuffer
import MeshcoreAnalyzer.Spaces
import MeshcoreAnalyzer.RegionKeys
import MeshcoreAnalyzer.RegionTiers
import MeshcoreAnalyzer.RawHex
import MeshcoreAnalyzer.ScopeVerify
import MeshcoreAnalyzer.ChannelTool
import MeshcoreAnalyzer.ChannelAgreement
import MeshcoreAnalyzer.Addresses
import MeshcoreAnalyzer.WSLimits
import MeshcoreAnalyzer.LimiterRuns
import MeshcoreAnalyzer.Calendar
import MeshcoreAnalyzer.DeltaBuilder
import MeshcoreAnalyzer.PacketQueries
import MeshcoreAnalyzer.QueryAgreement
import MeshcoreAnalyzer.NodePaths
import MeshcoreAnalyzer.PathBacking
import MeshcoreAnalyzer.NodePathsAgreement
import MeshcoreAnalyzer.ReportOrder
import MeshcoreAnalyzer.IngestOrder
import MeshcoreAnalyzer.NodeTouches
import MeshcoreAnalyzer.NodeTables
import MeshcoreAnalyzer.Interrupts
import MeshcoreAnalyzer.Migrations
import MeshcoreAnalyzer.ColumnAlignment
import MeshcoreAnalyzer.WarmupGate
import MeshcoreAnalyzer.ContentHash
import MeshcoreAnalyzer.TimeWindows
import MeshcoreAnalyzer.OwnedRecords
import MeshcoreAnalyzer.Faces
import MeshcoreAnalyzer.Distances
import MeshcoreAnalyzer.DistanceIndex
import MeshcoreAnalyzer.Slices
import MeshcoreAnalyzer.DistanceReads
import MeshcoreAnalyzer.Windows
import MeshcoreAnalyzer.Joins
import MeshcoreAnalyzer.SubpathAnalytics
import MeshcoreAnalyzer.ObserverIndex
import MeshcoreAnalyzer.QueryPaths
import MeshcoreAnalyzer.Extremes
import MeshcoreAnalyzer.RFAnalytics
import MeshcoreAnalyzer.NodeHealth
import MeshcoreAnalyzer.MembershipIndex
import MeshcoreAnalyzer.Picks
import MeshcoreAnalyzer.HopTiers
import MeshcoreAnalyzer.HopOrder
import MeshcoreAnalyzer.Cursors
import MeshcoreAnalyzer.CappedLoad
import MeshcoreAnalyzer.GroupedQueries
import MeshcoreAnalyzer.Pages
import MeshcoreAnalyzer.PagedQueries
import MeshcoreAnalyzer.HashSizes
import MeshcoreAnalyzer.Rebuilds
import MeshcoreAnalyzer.Merges
import MeshcoreAnalyzer.TopologyDedup
import MeshcoreAnalyzer.NodeReach
import MeshcoreAnalyzer.NeighborDedup
import MeshcoreAnalyzer.InspectCache
import MeshcoreAnalyzer.ClockVerdict
import MeshcoreAnalyzer.ScopeAudit
import MeshcoreAnalyzer.Coverage
import MeshcoreAnalyzer.Redundancy
import MeshcoreAnalyzer.BridgeScore
import MeshcoreAnalyzer.Alarms
import MeshcoreAnalyzer.Watchdog
import MeshcoreAnalyzer.PathResolver
import MeshcoreAnalyzer.Groups
import MeshcoreAnalyzer.Leaderboard
import MeshcoreAnalyzer.Layers
import MeshcoreAnalyzer.ChannelKeys
import MeshcoreAnalyzer.StoredPath
import MeshcoreAnalyzer.ChannelAttribution
import MeshcoreAnalyzer.TransportBackfill
import MeshcoreAnalyzer.PubkeyBackfill
import MeshcoreAnalyzer.DeclaredRegions
import MeshcoreAnalyzer.CoverageOrder
import MeshcoreAnalyzer.ResolvedCache
import MeshcoreAnalyzer.GeoFilter
import MeshcoreAnalyzer.AdvertNames
import MeshcoreAnalyzer.ServerHops
import MeshcoreAnalyzer.BrowserChannel
import MeshcoreAnalyzer.LiveDecrypt
import MeshcoreAnalyzer.DisplayedHops
import MeshcoreAnalyzer.RadioDeltas
import MeshcoreAnalyzer.RelayTouches
import MeshcoreAnalyzer.Capability
import MeshcoreAnalyzer.HexGrid
import MeshcoreAnalyzer.SnrDistribution
import MeshcoreAnalyzer.Directories
import MeshcoreAnalyzer.JsonPrint
import MeshcoreAnalyzer.PruneQueue
import MeshcoreAnalyzer.IngestTables
import MeshcoreAnalyzer.References
import MeshcoreAnalyzer.Attribution
import MeshcoreAnalyzer.ObserverLife
import MeshcoreAnalyzer.Hub
import MeshcoreAnalyzer.MessageRouter
import MeshcoreAnalyzer.MessageOrigins
import MeshcoreAnalyzer.NodeOrigins
import MeshcoreAnalyzer.ClientReception
import MeshcoreAnalyzer.HeardDirectly
import MeshcoreAnalyzer.HashCollisions
import MeshcoreAnalyzer.CacheInvalidation
import MeshcoreAnalyzer.NodePages
import MeshcoreAnalyzer.ApiClient
