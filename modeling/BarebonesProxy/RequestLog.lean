import BarebonesProxy.LogLines
import BarebonesProxy.NotedPrograms
import BarebonesProxy.RequestStages

set_option autoImplicit false

/-!
# Request handling with its log

`handle_request` and `authenticate` with the lines they log, and the two tasks they spawn
with theirs. What they read for the log alone, the clock and the statistics of the cache, are
notes beside the operations of `Proxy.handleRequest`, and so is the text of an error. The
parts of the handler that log nothing are taken from there as they are.
-/
namespace BarebonesProxy.RequestLog
open RustNet RustStrings ProxyConfig Routing Http Cache RuntimeConfig ErrorPages EffectPrograms
open Handler Proxy Log

structure Line where
  level : LogLevel
  event : Str
  fields : List (Str × Str)
deriving DecidableEq

inductive Note where
  | line (line : Line)
  | elapsed
  | currentMemoryBytes (engine : ℕ)
  | entryCount (engine : ℕ)
  | maxCapacityBytes (engine : ℕ)
  | errorText (error : BoxError)

def Note.Reply : Note → Type
  | .line _ => Unit
  | .elapsed => ℕ
  | .currentMemoryBytes _ => ℕ
  | .entryCount _ => ℕ
  | .maxCapacityBytes _ => ℕ
  | .errorText _ => Str

structure CacheStats where
  currentMem : ℕ
  totalEntries : ℕ
  maxCap : ℕ

def CacheStats.fields (stats : CacheStats) : List (Str × Str) := [
  ("total_cache_bytes".toList, natToString stats.currentMem),
  ("total_cache_entries".toList, natToString stats.totalEntries),
  ("max_capacity_bytes".toList, natToString stats.maxCap)]

section Lines
variable [HttpCrate] [TlsCrate] (x : Exchange)

def whoFields : List (Str × Str) :=
  [("client_ip".toList, x.clientIp), ("host".toList, x.host)]

def whereFields : List (Str × Str) := whoFields x ++ [("path".toList, x.pathAndQuery)]

def statusField (status : StatusCode) : Str × Str := ("status".toList, natToString status.code)

def blacklistedLine : Line :=
  ⟨.info, "connection_dropped_blacklisted".toList, whereFields x⟩

def rateLimitLine (count : ℕ) : Line :=
  ⟨.error, "rate_limit_exceeded".toList, [
    ("client_ip".toList, x.clientIp),
    ("path".toList, x.path),
    ("host".toList, x.host),
    ("count".toList, natToString count),
    ("limit".toList, natToString ((x.config.security.map (·.rateLimitRpm)).getD 60))]⟩

def requestLine (version : Version) (micros : ℕ) (logged : ℕ × Str) : Line :=
  ⟨.info, "request".toList, requestFields x version micros logged⟩

def payloadLine (length : ℕ) : Line :=
  ⟨.warn, "payload_too_large".toList, whoFields x ++ [
    ("content_length".toList, natToString length),
    ("max_body_size".toList, natToString x.maxBodySize)]⟩

def cacheHitLine (cached : CachedAsset) (stats : CacheStats) : Line :=
  ⟨.info, "cache_hit".toList,
    whereFields x ++ ("size_bytes".toList, natToString cached.sizeBytes) :: stats.fields⟩

def headersInjectedLine (headers : HeaderMap) : Line :=
  ⟨.debug, "auth_headers_injected".toList,
    whoFields x ++ [("count".toList, natToString (HttpCrate.iter headers).length)]⟩

def authDeniedLine (response : Response) : Line :=
  ⟨.info, "auth_denied".toList, whereFields x ++ [statusField response.status]⟩

def authErrorLine (error : Str) : Line :=
  ⟨.error, "auth_error".toList, [("client_ip".toList, x.clientIp), ("error".toList, error)]⟩

def authMisconfigurationLine : Line :=
  ⟨.error, "auth_misconfiguration".toList, whoFields x ++ [("error".toList,
    ("route requires authentication ('auth on;') but no 'forward_auth' URL is " ++
      "configured in security block").toList)]⟩

def interceptedLine (status : StatusCode) : Line :=
  ⟨.info, "upstream_error_intercepted".toList, whereFields x ++ [statusField status]⟩

def bypassedLine (status : StatusCode) (reason : Str) (stats : CacheStats) : Line :=
  ⟨.info, "cache_miss".toList, whereFields x ++ statusField status ::
    ("cache_action".toList, "bypassed".toList) :: ("reason".toList, reason) :: stats.fields⟩

def insertedLine (status : StatusCode) (result : InsertResult) (stats : CacheStats) : Line :=
  ⟨.info, "cache_miss".toList, whereFields x ++ statusField status ::
    ("cache_action".toList, "inserted".toList) ::
    ("bytes_inserted".toList, natToString result.bytesInserted) ::
    ("bytes_evicted".toList, natToString result.bytesEvicted) ::
    ("items_evicted".toList, natToString result.itemsEvicted) :: stats.fields⟩

def notInsertedLine (status : StatusCode) (result : InsertResult) (stats : CacheStats) : Line :=
  ⟨.info, "cache_miss".toList, whereFields x ++ statusField status ::
    ("cache_action".toList, "bypassed".toList) ::
    ("reason".toList, result.reason.getD "not_inserted".toList) ::
    ("bytes_inserted".toList, "0".toList) ::
    ("bytes_evicted".toList, natToString result.bytesEvicted) ::
    ("items_evicted".toList, natToString result.itemsEvicted) :: stats.fields⟩

def tunnelErrorLine (event : String) (upstreamAddr error : Str) : Line :=
  ⟨.error, event.toList, [
    ("peer".toList, x.peerAddr.display),
    ("upstream".toList, upstreamAddr),
    ("error".toList, error)]⟩

def upgradeHandshakeFailedLine : Str → Str → Line := tunnelErrorLine x "upgrade_handshake_failed"

def upstreamUpgradeFailedLine : Str → Str → Line := tunnelErrorLine x "upstream_upgrade_failed"

def upgradeTunnelErrorLine : Str → Str → Line := tunnelErrorLine x "upgrade_tunnel_error"

def upgradeTunnelClosedLine (upstreamAddr : Str) (toUpstream toClient : ℕ) : Line :=
  ⟨.info, "upgrade_tunnel_closed".toList, [
    ("peer".toList, x.peerAddr.display),
    ("upstream".toList, upstreamAddr),
    ("bytes_to_upstream".toList, natToString toUpstream),
    ("bytes_to_client".toList, natToString toClient)]⟩

def connectFailedLine (m : MatchedRoute) (error : Str) : Line :=
  ⟨.error, "upstream_connect_failed".toList,
    [("upstream".toList, m.upstreamAddr), ("error".toList, error)]⟩

def noMatchingRouteLine : Line :=
  ⟨.info, "no_matching_route".toList, [
    ("config_generation".toList, natToString x.config.generation.toNat),
    ("peer".toList, x.peerAddr.display),
    ("host".toList, x.host),
    ("path".toList, x.pathAndQuery)]⟩

end Lines

section AuthLines
variable [HttpCrate]

def xForwardedUser : HeaderName := ⟨"x-forwarded-user".toList, by decide⟩

def location : HeaderName := ⟨"location".toList, by decide⟩

/-- The arguments of `authenticate` that its lines show. -/
structure Subject where
  clientIp : Str
  host : Str

def Subject.fields (s : Subject) : List (Str × Str) :=
  [("client_ip".toList, s.clientIp), ("host".toList, s.host)]

def verifyingLine (s : Subject) (pathAndQuery : Str) (provider : ForwardAuthProvider) : Line :=
  ⟨.debug, "auth_verifying".toList, s.fields ++
    [("path".toList, pathAndQuery), ("auth_url".toList, provider.authUrl)]⟩

def userOf (headers : HeaderMap) : Str :=
  (((HeaderMap.get headers remoteUser).or (HeaderMap.get headers xForwardedUser)).bind
    HttpCrate.toStr).getD "unknown".toList

def authSuccessLine (s : Subject) (headers : HeaderMap) : Line :=
  ⟨.info, "auth_success".toList, s.fields ++ [("user".toList, userOf headers)]⟩

def isRedirect (status : StatusCode) : Bool :=
  status.code = 302 || status.code = 303 || status.code = 307

/-- How `authenticate` itself logs a refusal; `handle_request` then logs it once more. -/
def refusalLine (s : Subject) (response : Response) : Line :=
  if isRedirect response.status then
    ⟨.info, "auth_redirect".toList, s.fields ++ [statusField response.status,
      ("location".toList, (HeaderMap.getStr response.headers location).getD "unknown".toList)]⟩
  else ⟨.warn, "auth_denied".toList, s.fields ++ [statusField response.status]⟩

def networkErrorLine (s : Subject) (provider : ForwardAuthProvider) (error : Str) : Line :=
  ⟨.error, "auth_provider_network_error".toList, s.fields ++
    [("auth_url".toList, provider.authUrl), ("error".toList, error)]⟩

end AuthLines

section Notes
variable {E : Type} {R : E → Type} {ρ : Type}

def write (line : Line) : NotedHandler R Note.Reply ρ Unit := note (Note.line line)

def elapsed : NotedHandler R Note.Reply ρ ℕ := note Note.elapsed

def errorText (error : BoxError) : NotedHandler R Note.Reply ρ Str := note (Note.errorText error)

def currentMemoryBytes (engine : ℕ) : NotedHandler R Note.Reply ρ ℕ :=
  note (Note.currentMemoryBytes engine)

def entryCount (engine : ℕ) : NotedHandler R Note.Reply ρ ℕ := note (Note.entryCount engine)

def maxCapacityBytes (engine : ℕ) : NotedHandler R Note.Reply ρ ℕ :=
  note (Note.maxCapacityBytes engine)

def cacheStats (engine : ℕ) : NotedHandler R Note.Reply ρ CacheStats := do
  let currentMem ← currentMemoryBytes engine
  let totalEntries ← entryCount engine
  let maxCap ← maxCapacityBytes engine
  return ⟨currentMem, totalEntries, maxCap⟩

end Notes

section Handling
variable [HttpCrate]

/-- A part of a handler that takes notes. -/
abbrev Noting (ρ α : Type) := NotedHandler Effect.Reply Note.Reply ρ α

abbrev Logging (α : Type) := Noting (Except BoxError Response) α

def respond {α : Type} (response : Response) : Logging α := exit (.ok response)

def authenticate (provider : ForwardAuthProvider) (clientIp : Str) (method : Method) (uri : Uri)
    (headers : HeaderMap) : Noting BoxError AuthResult :=
  let subject : Subject := ⟨clientIp, hostOf uri headers⟩
  match HttpCrate.parseUri provider.authUrl with
  | none => exit .invalidUri
  | some authUri => do
    write (verifyingLine subject (pathAndQueryOf uri) provider)
    let request ← silent (ofExcept (authSubRequest authUri clientIp method uri headers))
    match ← silent (askProvider request) with
    | none =>
      write (networkErrorLine subject provider (← errorText .client))
      exit .client
    | some response =>
      if response.status.isSuccess then
        write (authSuccessLine subject (successHeaders response))
        return .success (successHeaders response)
      else
        write (refusalLine subject response)
        return .denied response

variable [TlsCrate] [CaseMapping] (x : Exchange) (version : Version)

def checkBlacklist (ip : IpAddr) : Logging Unit := do
  if ← silent (askBlacklist x.config.securityManager ip) then
    write (blacklistedLine x)
    respond noResponse444
  else pure ()

def checkRateLimit (ip : IpAddr) : Logging Unit := do
  match ← silent (recordRequest x.config.securityManager ip) with
  | .ok _ => pure ()
  | .error count =>
    write (rateLimitLine x count)
    write (requestLine x version (← elapsed) (429, "-".toList))
    respond x.rateLimitPage

def checkClient : Logging Unit :=
  match IpAddr.parse x.clientIp with
  | none => pure ()
  | some ip => do
    checkBlacklist x ip
    checkRateLimit x version ip

def checkBodySize : Logging Unit :=
  match contentLengthOf x.request.headers with
  | none => pure ()
  | some length =>
    if x.maxBodySize < length then do
      write (payloadLine x length)
      respond (x.errorResponse .payloadTooLarge .payloadTooLarge)
    else pure ()

def admission : Logging Unit := do
  checkClient x version
  checkBodySize x

def lookup : Logging Unit :=
  match x.cacheEngine with
  | none => pure ()
  | some engine => do
    match ← silent (askCache engine x.cacheKey) with
    | none => pure ()
    | some cached =>
      let duration ← elapsed
      write (cacheHitLine x cached (← cacheStats engine))
      write (requestLine x version duration (cached.status.code, upstreamOf x))
      respond (hitResponse cached)

def authorise (m : MatchedRoute) : Logging HeaderMap :=
  if m.authRequired then
    match x.config.authProvider with
    | some provider => do
      match ← attempt (authenticate provider x.clientIp x.request.method x.request.uri
          x.request.headers) with
      | .ok (.success headers) =>
        if (HttpCrate.iter headers).isEmpty then return headers
        else
          write (headersInjectedLine x headers)
          return headers
      | .ok (.denied response) =>
        write (authDeniedLine x response)
        respond response
      | .error e =>
        write (authErrorLine x (← errorText e))
        respond (x.errorResponse .internalServerError .authentication)
    | none => do
      write (authMisconfigurationLine x)
      respond (x.errorResponse .internalServerError .noForwardAuth)
  else pure HttpCrate.empty

def bypassReason (response : Response) (exceeds : Bool) : Str :=
  if !isStatic x response then "non_static_asset".toList
  else if isNoStore response then "cache_control_no_store".toList
  else if exceeds then "exceeds_max_file_size".toList
  else if response.status ≠ .ok then "non_200_status".toList
  else "cache_disabled".toList

def store (response : Response) : Logging Response := do
  let exceeds ← silent (exceedsMaxFileSize x response)
  match x.cacheEngine with
  | some engine =>
    if isStorable x response && !exceeds then silent (collectAndStore x engine response)
    else
      let stats ← cacheStats engine
      write (bypassedLine x response.status (bypassReason x response exceeds) stats)
      return withHeader response .xProxyCache "BYPASS"
  | none => return withHeader response .xProxyCache "BYPASS"

def relay (m : MatchedRoute) (answer : Option Response) : Logging Response :=
  match answer with
  | none => do
    write (connectFailedLine m (← errorText .client))
    return x.errorResponse .badGateway .unreachable
  | some response =>
    if response.status = .switchingProtocols ∧ isUpgradeRequest x.request.headers then do
      silent (spawnTunnel m.upstreamAddr)
      return response
    else if m.shouldInterceptErrors x.config.globalInterceptErrors &&
        (response.status.isClientError || response.status.isServerError) then do
      write (interceptedLine x response.status)
      respond (interceptedResponse x response.status)
    else store x response

def forward (m : MatchedRoute) : Logging Response := do
  let authHeaders ← authorise x m
  match x.forwardedRequest m authHeaders with
  | .error e => exit (.error e)
  | .ok request => relay x m (← silent (askUpstream request))

def dispatch : Logging Response :=
  match x.matched with
  | some m => forward x m
  | none => do
    write (noMatchingRouteLine x)
    return noResponse444

def handleRequest : Noted Effect.Reply Note.Reply (Except BoxError Response) := run do
  admission x version
  lookup x version
  let response ← dispatch x
  write (requestLine x version (← elapsed) (loggedOf x (.ok response)))
  return .ok { response with headers := injectSecurityHeaders response.headers }

end Handling

section Tasks
variable [HttpCrate]

/-- What `insert` logs of an entry that its loop has evicted. -/
structure EvictionRecord where
  evictedKey : Str
  evictedBytes : ℕ
  currentMemoryBytes : ℕ

def evictionLine (record : EvictionRecord) : Line :=
  ⟨.debug, "cache_eviction".toList, [
    ("evicted_key".toList, record.evictedKey),
    ("evicted_bytes".toList, natToString record.evictedBytes),
    ("current_memory_bytes".toList, natToString record.currentMemoryBytes)]⟩

/-- The operations of the spawned tasks. An insertion also tells what its loop logs, in order.
An upgrade or the copying of a tunnel may fail, with the text of its error. -/
inductive TaskOp where
  | insert (insertion : CacheInsertion)
  | clientUpgrade
  | upstreamUpgrade
  | copyBidirectional

def TaskOp.Reply : TaskOp → Type
  | .insert _ => InsertResult × List EvictionRecord
  | .clientUpgrade => Except Str Unit
  | .upstreamUpgrade => Except Str Unit
  | .copyBidirectional => Except Str (ℕ × ℕ)

abbrev Background (α : Type) := Handler TaskOp TaskOp.Reply Unit α

def runInsert (insertion : CacheInsertion) : Background (InsertResult × List EvictionRecord) :=
  perform (TaskOp.insert insertion)

def clientUpgrade : Background (Except Str Unit) := perform TaskOp.clientUpgrade

def upstreamUpgrade : Background (Except Str Unit) := perform TaskOp.upstreamUpgrade

def copyBidirectional : Background (Except Str (ℕ × ℕ)) := perform TaskOp.copyBidirectional

def writeEvictions : List EvictionRecord → NotedHandler TaskOp.Reply Note.Reply Unit Unit
  | [] => pure ()
  | record :: records => do
    write (evictionLine record)
    writeEvictions records

variable [TlsCrate] (x : Exchange)

def insertionTask (insertion : CacheInsertion) : Noted TaskOp.Reply Note.Reply Unit := run do
  let (result, records) ← silent (runInsert insertion)
  writeEvictions records
  let stats ← cacheStats insertion.engine
  if result.inserted then write (insertedLine x insertion.status result stats)
  else write (notInsertedLine x insertion.status result stats)

def tunnelTask (upstreamAddr : Str) : Noted TaskOp.Reply Note.Reply Unit := run do
  match ← silent clientUpgrade with
  | .error e => write (upgradeHandshakeFailedLine x upstreamAddr e)
  | .ok () =>
    match ← silent upstreamUpgrade with
    | .error e => write (upstreamUpgradeFailedLine x upstreamAddr e)
    | .ok () =>
      match ← silent copyBidirectional with
      | .error e => write (upgradeTunnelErrorLine x upstreamAddr e)
      | .ok (toUpstream, toClient) =>
        write (upgradeTunnelClosedLine x upstreamAddr toUpstream toClient)

/-- The task that an operation of the handler spawns. -/
def taskOf : Effect → Option (Noted TaskOp.Reply Note.Reply Unit)
  | .spawnInsert insertion => some (insertionTask x insertion)
  | .spawnTunnel upstreamAddr => some (tunnelTask x upstreamAddr)
  | _ => none

end Tasks

section Lengths
variable [HttpCrate] [TlsCrate] {x : Exchange}

theorem payloadTooLarge_of_none (h : contentLengthOf x.request.headers = none) :
    x.payloadTooLarge = false := by
  unfold Exchange.payloadTooLarge
  rw [h]

theorem payloadTooLarge_of_some {length : ℕ} (h : contentLengthOf x.request.headers = some length) :
    x.payloadTooLarge = decide (x.maxBodySize < length) := by
  unfold Exchange.payloadTooLarge
  rw [h]

end Lengths

section Erasure
variable [HttpCrate]

theorem erases_write {ρ β : Type} {line : Line} {f : Unit → Noting ρ β}
    {h : Handler Effect Effect.Reply ρ β} (hf : Erases (f ()) h) : Erases (write line >>= f) h :=
  erases_note fun _ => hf

theorem erases_cacheStats {ρ β : Type} {engine : ℕ} {f : CacheStats → Noting ρ β}
    {h : Handler Effect Effect.Reply ρ β} (hf : ∀ stats, Erases (f stats) h) :
    Erases (cacheStats engine >>= f) h :=
  erases_note fun currentMem => erases_note fun totalEntries => erases_note fun maxCap =>
    hf ⟨currentMem, totalEntries, maxCap⟩

theorem erases_authenticate (provider : ForwardAuthProvider) (clientIp : Str) (method : Method)
    (uri : Uri) (headers : HeaderMap) :
    Erases (authenticate provider clientIp method uri headers)
      (Proxy.authenticate provider clientIp method uri headers) := by
  unfold authenticate Proxy.authenticate
  cases HttpCrate.parseUri provider.authUrl with
  | none => exact erases_exit _
  | some authUri =>
    refine erases_write (Erases.bind (erases_silent _) fun request =>
      Erases.bind (erases_silent _) fun answer => ?_)
    cases answer with
    | none => exact erases_note fun text => erases_write (erases_exit _)
    | some response =>
      unfold verdictOf
      dsimp only
      split
      · exact erases_write (erases_pure _)
      · exact erases_write (erases_pure _)

variable [TlsCrate] (x : Exchange) (version : Version)

theorem erases_checkClient : Erases (checkClient x version) (Proxy.checkClient x) := by
  unfold checkClient Proxy.checkClient
  cases IpAddr.parse x.clientIp with
  | none => exact erases_pure _
  | some ip =>
    refine Erases.bind ?_ fun _ => ?_
    · refine Erases.bind (erases_silent _) fun banned => ?_
      cases banned with
      | true => exact erases_write (erases_exit _)
      | false => exact erases_pure _
    · refine Erases.bind (erases_silent _) fun counted => ?_
      cases counted with
      | ok count => exact erases_pure _
      | error count =>
        exact erases_write (erases_note fun micros => erases_write (erases_exit _))

theorem erases_checkBodySize : Erases (checkBodySize x) (Proxy.checkBodySize x) := by
  unfold checkBodySize Proxy.checkBodySize
  cases hlength : contentLengthOf x.request.headers with
  | none =>
    rw [payloadTooLarge_of_none hlength]
    exact erases_pure _
  | some length =>
    rw [payloadTooLarge_of_some hlength]
    by_cases hlarge : x.maxBodySize < length
    · simp only [hlarge, decide_true, if_true]
      exact erases_write (erases_exit _)
    · simp only [hlarge, decide_false, Bool.false_eq_true, if_false]
      exact erases_pure _

theorem erases_lookup : Erases (lookup x version) (Proxy.lookup x) := by
  unfold lookup Proxy.lookup
  cases x.cacheEngine with
  | none => exact erases_pure _
  | some engine =>
    refine Erases.bind (erases_silent _) fun found => ?_
    cases found with
    | none => exact erases_pure _
    | some cached =>
      refine erases_note fun duration => erases_cacheStats fun stats => ?_
      exact erases_write (erases_write (erases_exit _))

theorem erases_authorise (m : MatchedRoute) : Erases (authorise x m) (Proxy.authorise x m) := by
  unfold authorise Proxy.authorise
  split
  · cases x.config.authProvider with
    | none => exact erases_write (erases_exit _)
    | some provider =>
      refine Erases.bind (erases_authenticate ..).attempt fun result => ?_
      cases result with
      | error e => exact erases_note fun text => erases_write (erases_exit _)
      | ok verdict =>
        cases verdict with
        | denied response => exact erases_write (erases_exit _)
        | success headers =>
          dsimp only
          split
          · exact erases_pure _
          · exact erases_write (erases_pure _)
  · exact erases_pure _

variable [CaseMapping]

theorem erases_store (response : Response) :
    Erases (store x response) (Proxy.store x response) := by
  refine Erases.bind (erases_silent _) fun exceeds => ?_
  cases x.cacheEngine with
  | none => exact erases_pure _
  | some engine =>
    dsimp only
    split
    · exact erases_silent _
    · exact erases_cacheStats fun stats => erases_write (erases_pure _)

theorem erases_relay (m : MatchedRoute) (answer : Option Response) :
    Erases (relay x m answer) (Proxy.relay x m answer) := by
  cases answer with
  | none => exact erases_note fun text => erases_write (erases_pure _)
  | some response =>
    unfold relay Proxy.relay
    dsimp only
    split
    · exact Erases.bind (erases_silent _) fun _ => erases_pure _
    · split
      · exact erases_write (erases_exit _)
      · exact erases_store x response

theorem erases_dispatch : Erases (dispatch x) (Proxy.dispatch x) := by
  unfold dispatch Proxy.dispatch
  cases x.matched with
  | none => exact erases_write (erases_pure _)
  | some m =>
    refine Erases.bind (erases_authorise x m) fun authHeaders => ?_
    cases x.forwardedRequest m authHeaders with
    | error e => exact erases_exit _
    | ok request => exact Erases.bind (erases_silent _) fun answer => erases_relay x m answer

/-- Without its log, the handler is the one that was modelled without it. -/
theorem erases_handleRequest : Prog.Erases (handleRequest x version) (Proxy.handleRequest x) := by
  refine Erases.run (Erases.bind ?_ fun _ => Erases.bind (erases_lookup x version) fun _ =>
    Erases.bind (erases_dispatch x) fun response => ?_)
  · exact Erases.bind (erases_checkClient x version) fun _ => erases_checkBodySize x
  · exact erases_note fun micros => erases_write (erases_pure _)

end Erasure

end BarebonesProxy.RequestLog
