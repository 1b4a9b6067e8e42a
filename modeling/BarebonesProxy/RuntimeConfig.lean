import BarebonesProxy.Cache
import BarebonesProxy.ConfigParser
import BarebonesProxy.Routing
import BarebonesProxy.Security

set_option autoImplicit false

/-!
# TLS acceptors and live configurations: `tls.rs` and `runtime_config.rs`

Security managers and cache engines are shared through `Arc`s, so a configuration holds
their addresses in a `Heap`. What the operating system and the TLS library answer during
one load is an `Environment`.
-/
namespace BarebonesProxy.RuntimeConfig
open RustStrings RustState ProxyConfig Routing Security Cache Http LruMap ConfigParser

class TlsCrate where
  CertifiedKey : Type

export TlsCrate (CertifiedKey)

section Tls
variable [TlsCrate]

structure ExactCertResolver where
  exactMatch : HashMap Str CertifiedKey

structure TlsAcceptor where
  resolver : ExactCertResolver
  alpnProtocols : List Str

def extractHostnameFromEndpoint (endpoint : Str) : Option Str :=
  match stripPrefix endpoint "https://".toList with
  | some stripped =>
    let host := splitFirst (splitFirst stripped '/') ':'
    if host.isEmpty then none else some host
  | none => none

def addCertificate (loadCertifiedKey : Str → Str → Except ProxyError CertifiedKey)
    (resolver : ExactCertResolver) (route : Route) : Except ProxyError ExactCertResolver := do
  let hostname ← match extractHostnameFromEndpoint route.requestEndpoint with
    | some hostname => .ok hostname
    | none => .error (.tlsError ("Invalid HTTPS endpoint: ".toList ++ route.requestEndpoint))
  let certPath ← match route.certPath with
    | some certPath => .ok certPath
    | none => .error (.tlsError
        ("Missing cert directive for route: ".toList ++ route.requestEndpoint))
  let keyPath ← match route.keyPath with
    | some keyPath => .ok keyPath
    | none => .error (.tlsError
        ("Missing key directive for route: ".toList ++ route.requestEndpoint))
  let key ← loadCertifiedKey certPath keyPath
  return ⟨resolver.exactMatch.insert hostname key⟩

def isHttps (route : Route) : Bool := startsWith route.requestEndpoint "https://".toList

def buildTlsAcceptor (loadCertifiedKey : Str → Str → Except ProxyError CertifiedKey)
    (routes : List Route) : Except ProxyError (Option TlsAcceptor) :=
  let httpsRoutes := routes.filter isHttps
  if httpsRoutes.isEmpty then .ok none
  else do
    let resolver ← httpsRoutes.foldlM (addCertificate loadCertifiedKey) ⟨.empty⟩
    return some ⟨resolver, ["h2".toList, "http/1.1".toList]⟩

theorem buildTlsAcceptor_none
    {loadCertifiedKey : Str → Str → Except ProxyError CertifiedKey} {routes : List Route}
    (h : buildTlsAcceptor loadCertifiedKey routes = .ok none) :
    ∀ route ∈ routes, isHttps route = false := by
  unfold buildTlsAcceptor at h
  by_cases hempty : (routes.filter isHttps).isEmpty = true
  · intro route hroute
    have hnil := List.isEmpty_iff.mp hempty
    rw [List.filter_eq_nil_iff] at hnil
    simpa using hnil route hroute
  · simp only [hempty, Bool.false_eq_true, if_false] at h
    cases hfold : (routes.filter isHttps).foldlM (addCertificate loadCertifiedKey) ⟨.empty⟩ with
    | error e =>
      rw [hfold] at h
      cases h
    | ok resolver =>
      rw [hfold] at h
      cases h

/-- `ForwardAuthProvider`, without its HTTP client. -/
structure ForwardAuthProvider where
  authUrl : Str
deriving DecidableEq

structure ActiveConfig where
  generation : UInt64
  router : Router
  tlsAcceptor : Option TlsAcceptor
  logfile : Option Str
  security : Option SecurityConfig
  securityManager : ℕ
  authProvider : Option ForwardAuthProvider
  cacheConfig : Option CacheConfig
  cacheEngine : Option ℕ
  globalInterceptErrors : Bool

end Tls

section Heap
variable [HttpCrate] [LruCrate]

/-- The shared objects that configurations point to. -/
structure Heap where
  managers : ℕ → SecurityManager
  managerCount : ℕ
  engines : ℕ → LruCacheEngine
  engineCount : ℕ

def Heap.empty : Heap := ⟨fun _ => .default, 0, fun _ => .new 0 0 0, 0⟩

def Heap.allocManager (heap : Heap) (m : SecurityManager) : ℕ × Heap :=
  (heap.managerCount,
    { heap with
      managers := Function.update heap.managers heap.managerCount m
      managerCount := heap.managerCount + 1 })

def Heap.allocEngine (heap : Heap) (e : LruCacheEngine) : ℕ × Heap :=
  (heap.engineCount,
    { heap with
      engines := Function.update heap.engines heap.engineCount e
      engineCount := heap.engineCount + 1 })

def Heap.setManager (heap : Heap) (i : ℕ) (m : SecurityManager) : Heap :=
  { heap with managers := Function.update heap.managers i m }

def Heap.setEngine (heap : Heap) (i : ℕ) (e : LruCacheEngine) : Heap :=
  { heap with engines := Function.update heap.engines i e }

variable [TlsCrate] [CaseMapping]

/-- The answers of everything outside the proxy during one load. -/
structure Environment where
  readToString : Option Str
  availableParallelism : Option ℕ
  loadCertifiedKey : Str → Str → Except ProxyError CertifiedKey
  nativeRoots : Bool
  openLog : Str → Bool

inductive LoadError where
  | read
  | parse (error : ParseError)
  | listenPortChanged (expected found : ℕ)
  | workersChanged (expected found : ℕ)
  | tls (error : ProxyError)
deriving DecidableEq

def cacheEngineFor (cache : Option CacheConfig) : Option LruCacheEngine :=
  match cache with
  | some c =>
    if c.enabled then some (.new c.maxCapacityBytes c.maxFileSizeBytes c.defaultTtlSec) else none
  | none => none

def Heap.placeEngine (heap : Heap) (engine : Option LruCacheEngine) : Option ℕ × Heap :=
  match engine with
  | some engine =>
    let (address, heap) := heap.allocEngine engine
    (some address, heap)
  | none => (none, heap)

def snapshot (config : Config) (generation : UInt64) (tlsAcceptor : Option TlsAcceptor)
    (securityManager : ℕ) (cacheEngine : Option ℕ) : ActiveConfig where
  generation := generation
  router := ⟨config.routes⟩
  tlsAcceptor := tlsAcceptor
  logfile := config.logfile
  security := config.security
  securityManager := securityManager
  authProvider := (config.security.bind (·.forwardAuth)).map fun authUrl => ⟨authUrl⟩
  cacheConfig := config.cache
  cacheEngine := cacheEngine
  globalInterceptErrors := config.interceptErrors.getD false

def buildActiveConfig (env : Environment) (config : Config) (generation : UInt64)
    (securityManager : Option ℕ) (heap : Heap) :
    Outcome (Except LoadError (ActiveConfig × Heap)) :=
  match buildTlsAcceptor env.loadCertifiedKey config.routes with
  | .error e => .returned (.error (.tls e))
  | .ok tlsAcceptor =>
    let (manager, heap) := match securityManager with
      | some manager => (manager, heap)
      | none => heap.allocManager (.fromSecurityConfig config.security)
    -- the HTTP client of the auth provider is built with `with_native_roots().expect(..)`
    if (config.security.bind (·.forwardAuth)).isSome && !env.nativeRoots then .panicked
    else
      let (cacheEngine, heap) := heap.placeEngine (cacheEngineFor config.cache)
      .returned (.ok (snapshot config generation tlsAcceptor manager cacheEngine, heap))

def loadConfigFromPath (env : Environment) : Except LoadError Config :=
  match env.readToString with
  | none => .error .read
  | some contents =>
    match parseProxyConfig env.availableParallelism contents with
    | .error e => .error (.parse e)
    | .ok config => .ok config

def loadActiveConfigFromPath (env : Environment) (expectedListenPort expectedWorkers : ℕ)
    (generation : UInt64) (securityManager : Option ℕ) (heap : Heap) :
    Outcome (Except LoadError (ActiveConfig × Heap)) :=
  match loadConfigFromPath env with
  | .error e => .returned (.error e)
  | .ok config =>
    if config.listenPort ≠ expectedListenPort then
      .returned (.error (.listenPortChanged expectedListenPort config.listenPort))
    else if config.workers ≠ expectedWorkers then
      .returned (.error (.workersChanged expectedWorkers config.workers))
    else buildActiveConfig env config generation securityManager heap

end Heap

end BarebonesProxy.RuntimeConfig

namespace BarebonesProxy.ListCrates

scoped instance tls : RuntimeConfig.TlsCrate := ⟨RustStrings.Str × RustStrings.Str⟩

end BarebonesProxy.ListCrates
