import BarebonesProxy.Auth
import BarebonesProxy.ErrorPages

set_option autoImplicit false

/-!
# Request handling of `proxy.rs`

`handleRequest` follows the source from the client address to the response. A `return`
before the end is an early exit of the handler, and skips the security headers that the
last lines add. Log lines are left out.
-/
namespace BarebonesProxy.Proxy
open RustNet RustStrings ProxyConfig Routing Http Cache RuntimeConfig ErrorPages EffectPrograms

section Request
variable [HttpCrate]

def isUpgradeRequest (headers : HeaderMap) : Bool :=
  let hasUpgradeHeader := HeaderMap.containsKey headers .upgrade
  let connectionWantsUpgrade := match HeaderMap.getStr headers .connection with
    | some v => (split v ',').any fun token => eqIgnoreAsciiCase (trim token) "upgrade".toList
    | none => false
  hasUpgradeHeader && connectionWantsUpgrade

def injectSecurityHeaders (headers : HeaderMap) : HeaderMap :=
  HeaderMap.insertAll headers [
    (.strictTransportSecurity,
      HttpCrate.fromStatic "max-age=63072000; includeSubDomains; preload".toList),
    (.xContentTypeOptions, HttpCrate.fromStatic "nosniff".toList),
    (.xFrameOptions, HttpCrate.fromStatic "DENY".toList),
    (.xXssProtection, HttpCrate.fromStatic "0".toList)]

def noResponse444 : Response :=
  ⟨.noResponse,
    HttpCrate.append HttpCrate.empty .connection (HttpCrate.fromStatic "close".toList), .full []⟩

def withHeader (response : Response) (name : HeaderName) (value : String) : Response :=
  { response with
    headers := HttpCrate.insert response.headers name (HttpCrate.fromStatic value.toList) }

def contentLengthOf (headers : HeaderMap) : Option ℕ :=
  (HeaderMap.getStr headers .contentLength).bind (parseUnsigned usizeMax)

def headerIp (headers : HeaderMap) (name : HeaderName) : Option Str :=
  match HeaderMap.getStr headers name with
  | none => none
  | some headerStr =>
    let ipPart := if name = .xForwardedFor then trim (splitFirst headerStr ',') else trim headerStr
    if (IpAddr.parse ipPart).isSome then some ipPart else none

def addressHeaders : List HeaderName := [.cfConnectingIp, .trueClientIp, .xForwardedFor]

def clientIpOf (isProxyProtocol : Bool) (peerAddr : SocketAddr) (headers : HeaderMap) : Str :=
  if isProxyProtocol then
    (addressHeaders.findSome? (headerIp headers)).getD peerAddr.ip.display
  else peerAddr.ip.display

def withOriginalHost (headers : HeaderMap) : Option HeaderValue → HeaderMap
  | some host => HttpCrate.insert (HttpCrate.insert headers .host host) .xForwardedHost host
  | none => headers

end Request

/-- One call of `handle_request`: its arguments and the configuration it loads first. -/
structure Exchange [HttpCrate] [TlsCrate] where
  config : ActiveConfig
  peerAddr : SocketAddr
  isProxyProtocol : Bool
  request : Request

namespace Exchange
variable [HttpCrate] [TlsCrate] (x : Exchange)

def clientIp : Str := clientIpOf x.isProxyProtocol x.peerAddr x.request.headers

def host : Str := hostOf x.request.uri x.request.headers

def pathAndQuery : Str := pathAndQueryOf x.request.uri

def path : Str := x.request.uri.path

def maxBodySize : ℕ := (x.config.security.map (·.maxBodySize)).getD (10 * 1024 * 1024)

def matched : Option MatchedRoute := x.config.router.matchRoute x.host x.path

def routeCacheEnabled : Bool := (x.matched.bind (·.cache)).getD true

def isCacheableMethod : Bool := x.request.method = .get || x.request.method = .head

def cacheKey : Str := x.host ++ ":".toList ++ x.pathAndQuery

def cacheEngine : Option ℕ :=
  if x.routeCacheEnabled && x.isCacheableMethod then x.config.cacheEngine else none

def errorResponse (status : StatusCode) (message : ErrorMessage) : Response :=
  buildErrorResponse status message.text x.clientIp x.host (some x.request.headers)

def rateLimitPage : Response :=
  withHeader (x.errorResponse .tooManyRequests .rateLimit) .retryAfter "60"

def payloadTooLarge : Bool :=
  match contentLengthOf x.request.headers with
  | some length => decide (x.maxBodySize < length)
  | none => false

def originalHost : Except BoxError (Option HeaderValue) :=
  match HeaderMap.get x.request.headers .host with
  | some host => .ok (some host)
  | none =>
    match x.request.uri.authority with
    | some authority =>
      match HttpCrate.fromStr authority with
      | some value => .ok (some value)
      | none => .error .invalidHeaderValue
    | none => .ok none

def upstreamUri (m : MatchedRoute) : Except BoxError Uri :=
  let rewrittenPathAndQuery := match x.request.uri.query with
    | some query => m.rewrittenPath ++ "?".toList ++ query
    | none => m.rewrittenPath
  match HttpCrate.parseUri ("http://".toList ++ m.upstreamAddr ++ rewrittenPathAndQuery) with
  | some uri => .ok uri
  | none => .error .invalidUri

/-- The value of `X-Forwarded-For`: the first existing one and the client address. -/
def forwardedFor : Except BoxError HeaderValue := do
  let text ← match HeaderMap.get x.request.headers .xForwardedFor with
    | some existing =>
      match HttpCrate.toStr existing with
      | some existingStr => .ok (existingStr ++ ", ".toList ++ x.clientIp)
      | none => .error .toStr
    | none => .ok x.clientIp
  match HttpCrate.fromStr text with
  | some value => .ok value
  | none => .error .invalidHeaderValue

def realIp : Except BoxError HeaderValue :=
  match HttpCrate.fromStr x.clientIp with
  | some value => .ok value
  | none => .error .invalidHeaderValue

def copiedHeaders : HeaderMap :=
  HeaderMap.appendAll HttpCrate.empty
    ((HttpCrate.iter x.request.headers).filter fun e =>
      e.1 ≠ .host && !startsWith e.1.text ":".toList)

def forwardedHeaders (authHeaders : HeaderMap) (originalHost : Option HeaderValue)
    (forwardedFor realIp : HeaderValue) : HeaderMap :=
  let authorised := HeaderMap.insertAll x.copiedHeaders (HttpCrate.iter authHeaders)
  HeaderMap.insertAll (withOriginalHost authorised originalHost) [
    (.xForwardedProto, HttpCrate.fromStatic "https".toList),
    (.xForwardedFor, forwardedFor),
    (.xRealIp, realIp)]

def forwardedRequest (m : MatchedRoute) (authHeaders : HeaderMap) :
    Except BoxError ForwardedRequest := do
  let uri ← x.upstreamUri m
  let originalHost ← x.originalHost
  let forwardedFor ← x.forwardedFor
  let realIp ← x.realIp
  return {
    method := x.request.method
    uri
    headers := x.forwardedHeaders authHeaders originalHost forwardedFor realIp
    bodyLimit := x.maxBodySize
    body := x.request.body }

end Exchange

/-- A part of `handle_request`, which may return from the whole. -/
abbrev Serving [HttpCrate] (α : Type) := Handler Effect Effect.Reply (Except BoxError Response) α

section Handling
variable [HttpCrate]

def askBlacklist (manager : ℕ) (ip : IpAddr) : Serving Bool :=
  Handler.perform (Effect.isBlacklisted manager ip)

def recordRequest (manager : ℕ) (ip : IpAddr) : Serving (Except ℕ ℕ) :=
  Handler.perform (Effect.checkAndRecordRequest manager ip)

def askCache (engine : ℕ) (key : Str) : Serving (Option CachedAsset) :=
  Handler.perform (Effect.cacheGet engine key)

def askMaxFileSize (engine : ℕ) : Serving ℕ := Handler.perform (Effect.maxFileSizeBytes engine)

def askUpstream (request : ForwardedRequest) : Serving (Option Response) :=
  Handler.perform (Effect.upstreamRequest request)

def spawnInsert (insertion : CacheInsertion) : Serving Unit :=
  Handler.perform (Effect.spawnInsert insertion)

def spawnTunnel (upstreamAddr : Str) : Serving Unit :=
  Handler.perform (Effect.spawnTunnel upstreamAddr)

def respond {α : Type} (response : Response) : Serving α := Handler.exit (.ok response)

variable [TlsCrate] [CaseMapping] (x : Exchange)

def checkBlacklist (ip : IpAddr) : Serving Unit := do
  if ← askBlacklist x.config.securityManager ip then respond noResponse444 else pure ()

def checkRateLimit (ip : IpAddr) : Serving Unit := do
  match ← recordRequest x.config.securityManager ip with
  | .ok _ => pure ()
  | .error _ => respond x.rateLimitPage

def checkClient : Serving Unit :=
  match IpAddr.parse x.clientIp with
  | none => pure ()
  | some ip => do
    checkBlacklist x ip
    checkRateLimit x ip

def checkBodySize : Serving Unit :=
  if x.payloadTooLarge then respond (x.errorResponse .payloadTooLarge .payloadTooLarge)
  else pure ()

def admission : Serving Unit := do
  checkClient x
  checkBodySize x

def hitResponse (cached : CachedAsset) : Response :=
  withHeader ⟨cached.status, cached.headers, .full cached.body⟩ .xProxyCache "HIT"

def lookup : Serving Unit :=
  match x.cacheEngine with
  | none => pure ()
  | some engine => do
    match ← askCache engine x.cacheKey with
    | none => pure ()
    | some cached => respond (hitResponse cached)

/-- The headers to inject, once the route's authentication has succeeded. -/
def authorise (m : MatchedRoute) : Serving HeaderMap :=
  if m.authRequired then
    match x.config.authProvider with
    | some provider => do
      match ← Handler.attempt (authenticate provider x.clientIp x.request.method x.request.uri
          x.request.headers) with
      | .ok (.success headers) => pure headers
      | .ok (.denied response) => respond response
      | .error _ => respond (x.errorResponse .internalServerError .authentication)
    | none => respond (x.errorResponse .internalServerError .noForwardAuth)
  else pure HttpCrate.empty

def interceptedResponse (status : StatusCode) : Response :=
  let page := x.errorResponse status (.upstream status)
  { page with headers := injectSecurityHeaders page.headers }

def exceedsMaxFileSize (response : Response) : Serving Bool :=
  match contentLengthOf response.headers, x.cacheEngine with
  | some length, some engine => do
    let largest ← askMaxFileSize engine
    return decide (largest < length)
  | _, _ => pure false

def isStatic (response : Response) : Bool :=
  isStaticAsset x.pathAndQuery (HeaderMap.getStr response.headers .contentType)

def isNoStore (response : Response) : Bool :=
  let cacheControl := (HeaderMap.getStr response.headers .cacheControl).getD []
  contains cacheControl "no-store".toList || contains cacheControl "private".toList

def isStorable (response : Response) : Bool :=
  isStatic x response && !isNoStore response && response.status = .ok

def insertionOf (engine : ℕ) (response : Response) (body : List UInt8) : CacheInsertion :=
  ⟨engine, x.cacheKey, response.status, response.headers, body⟩

def collectAndStore (engine : ℕ) (response : Response) : Serving Response :=
  match response.body.collect with
  | some body => do
    spawnInsert (insertionOf x engine response body)
    return withHeader { response with body := .full body } .xProxyCache "MISS"
  | none => return { response with body := .full [] }

/-- Store the response in the background if it may be cached, else pass it on. -/
def store (response : Response) : Serving Response := do
  let exceeds ← exceedsMaxFileSize x response
  match x.cacheEngine with
  | some engine =>
    if isStorable x response && !exceeds then collectAndStore x engine response
    else return withHeader response .xProxyCache "BYPASS"
  | none => return withHeader response .xProxyCache "BYPASS"

def relay (m : MatchedRoute) (answer : Option Response) : Serving Response :=
  match answer with
  | none => pure (x.errorResponse .badGateway .unreachable)
  | some response =>
    if response.status = .switchingProtocols ∧ isUpgradeRequest x.request.headers then do
      spawnTunnel m.upstreamAddr
      return response
    else if m.shouldInterceptErrors x.config.globalInterceptErrors &&
        (response.status.isClientError || response.status.isServerError) then
      respond (interceptedResponse x response.status)
    else store x response

def forward (m : MatchedRoute) : Serving Response := do
  let authHeaders ← authorise x m
  match x.forwardedRequest m authHeaders with
  | .error e => Handler.exit (.error e)
  | .ok request => relay x m (← askUpstream request)

def dispatch : Serving Response :=
  match x.matched with
  | some m => forward x m
  | none => pure noResponse444

def handleRequest : Program (Except BoxError Response) := Handler.run do
  admission x
  lookup x
  let response ← dispatch x
  return .ok { response with headers := injectSecurityHeaders response.headers }

end Handling

end BarebonesProxy.Proxy
