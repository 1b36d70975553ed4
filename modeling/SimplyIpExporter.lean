import SimplyIpExporter.AddressEntries
import SimplyIpExporter.AddressLists
import SimplyIpExporter.AddressSpellings
import SimplyIpExporter.AdmissionRuns
import SimplyIpExporter.AdmittedRequests
import SimplyIpExporter.AuditCounts
import SimplyIpExporter.AuditTrail
import SimplyIpExporter.BasePaths
import SimplyIpExporter.BootCanary
import SimplyIpExporter.CacheFreshness
import SimplyIpExporter.CacheLeftovers
import SimplyIpExporter.ColumnWrites
import SimplyIpExporter.CredentialSecrecy
import SimplyIpExporter.DashboardCalls
import SimplyIpExporter.DashboardSessions
import SimplyIpExporter.DaughterConfinement
import SimplyIpExporter.DaughterPolicy
import SimplyIpExporter.DaughterViews
import SimplyIpExporter.DifferentialCursor
import SimplyIpExporter.DnsCache
import SimplyIpExporter.DnsFreshness
import SimplyIpExporter.EndpointHandlers
import SimplyIpExporter.EndpointRows
import SimplyIpExporter.FeedProvenance
import SimplyIpExporter.FetchCost
import SimplyIpExporter.FetchLimits
import SimplyIpExporter.Gates
import SimplyIpExporter.GrantCleanup
import SimplyIpExporter.GrantIdempotence
import SimplyIpExporter.GroupEdits
import SimplyIpExporter.GroupEscalation
import SimplyIpExporter.GuardPruning
import SimplyIpExporter.HandlerRules
import SimplyIpExporter.HttpRouter
import SimplyIpExporter.InterruptedSyncs
import SimplyIpExporter.IpsQueries
import SimplyIpExporter.IssuedCredentials
import SimplyIpExporter.Journals
import SimplyIpExporter.JsNumbers
import SimplyIpExporter.KeyHandlers
import SimplyIpExporter.KeyRemoval
import SimplyIpExporter.KeySteps
import SimplyIpExporter.KeyedTables
import SimplyIpExporter.LimiterRecords
import SimplyIpExporter.MasterImmutability
import SimplyIpExporter.MasterPin
import SimplyIpExporter.MovingPages
import SimplyIpExporter.Mutations
import SimplyIpExporter.NetworkBindings
import SimplyIpExporter.OffsetPages
import SimplyIpExporter.OutboundStamps
import SimplyIpExporter.Pagination
import SimplyIpExporter.PayloadParts
import SimplyIpExporter.PublishedBody
import SimplyIpExporter.PureCrypto
import SimplyIpExporter.RecordOrder
import SimplyIpExporter.RetentionWindows
import SimplyIpExporter.RetryAfter
import SimplyIpExporter.Revalidation
import SimplyIpExporter.Routes
import SimplyIpExporter.Services
import SimplyIpExporter.SignatureSingleUse
import SimplyIpExporter.SignatureSpellings
import SimplyIpExporter.Storage
import SimplyIpExporter.StoredBindings
import SimplyIpExporter.StoredSecrets
import SimplyIpExporter.Throttling
import SimplyIpExporter.TimestampWindow
import SimplyIpExporter.TrailHistory
import SimplyIpExporter.TrailPages
import SimplyIpExporter.UnverifiedCallers
import SimplyIpExporter.VaultMemberships
import SimplyIpExporter.WithdrawnKeys
