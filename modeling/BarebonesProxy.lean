import BarebonesProxy.Security
import BarebonesProxy.SecurityHistory
import BarebonesProxy.SecurityRuns
import BarebonesProxy.SecurityWindows
import BarebonesProxy.Cache
import BarebonesProxy.CacheAccounting
import BarebonesProxy.ConfigParser
import BarebonesProxy.ErrorPages
import BarebonesProxy.Routing
import BarebonesProxy.RouteHosts
import BarebonesProxy.RoutePaths
import BarebonesProxy.RouteSegments
import BarebonesProxy.RouteTables
import BarebonesProxy.RuntimeConfig
import BarebonesProxy.Server
import BarebonesProxy.ServerReloads
import BarebonesProxy.ServerSecurity
import BarebonesProxy.Auth
import BarebonesProxy.Proxy
import BarebonesProxy.ProxyRules
import BarebonesProxy.ForwardedHeaders
import BarebonesProxy.UpstreamUri
import BarebonesProxy.Responses
import BarebonesProxy.ProxyProtocol
import BarebonesProxy.ProxyFraming
import BarebonesProxy.Worker
import BarebonesProxy.ClientAddress
import BarebonesProxy.CacheContents
import BarebonesProxy.CacheBudget
import BarebonesProxy.CacheAdmission
import BarebonesProxy.CacheHistory
import BarebonesProxy.CacheEviction
import BarebonesProxy.StaticAssets
import BarebonesProxy.Running
import BarebonesProxy.RunningTasks
import BarebonesProxy.RunningHits
import BarebonesProxy.AuthGate
import BarebonesProxy.ClearText
import BarebonesProxy.CacheHits
import BarebonesProxy.CacheCookies
import BarebonesProxy.ConfigComments
import BarebonesProxy.ConfigWellFormed
import BarebonesProxy.ConfigOrder
import BarebonesProxy.ConfigLanguage
import BarebonesProxy.AddressTexts
import BarebonesProxy.ProxyHeaderText
import BarebonesProxy.HeaderLines
import BarebonesProxy.Relaying
import BarebonesProxy.CacheControl
import BarebonesProxy.CacheLifetimes
import BarebonesProxy.CommentsTwice
import BarebonesProxy.CommentLoops
import BarebonesProxy.LogLines
import BarebonesProxy.ErrorBodies
import BarebonesProxy.AddressRoundTrip
import BarebonesProxy.RequestStages
import BarebonesProxy.ConnectionStages
import BarebonesProxy.RunningSecurity
import BarebonesProxy.RunningClients
import BarebonesProxy.ConfigTokens
import BarebonesProxy.ConfigText
import BarebonesProxy.TwoPhaseLocking
import BarebonesProxy.LockHistories
import BarebonesProxy.LockedCache
import BarebonesProxy.LockedSecurity
import BarebonesProxy.TlsResolver
import BarebonesProxy.RunningConfigs
import BarebonesProxy.TaskLog
import BarebonesProxy.SecurityMemory
import BarebonesProxy.RunningSources
