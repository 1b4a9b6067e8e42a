import BarebonesProxy.EffectPrograms
import BarebonesProxy.RuntimeConfig

set_option autoImplicit false

/-!
# What the proxy asks of its surroundings, and forward authentication: `auth.rs`

Locks and the cache are reached through the addresses of a configuration. The replies of
the auth provider and of the upstream come from outside.
-/
namespace BarebonesProxy.Proxy
open RustNet RustStrings Http Cache RuntimeConfig EffectPrograms

variable [HttpCrate]

structure AuthRequest where
  method : Method
  uri : Uri
  headers : HeaderMap

/-- The request to the upstream, with the limit put on its body. -/
structure ForwardedRequest where
  method : Method
  uri : Uri
  headers : HeaderMap
  bodyLimit : ℕ
  body : Body

structure CacheInsertion where
  engine : ℕ
  key : Str
  status : StatusCode
  headers : HeaderMap
  body : List UInt8

inductive Effect where
  | isBlacklisted (manager : ℕ) (ip : IpAddr)
  | checkAndRecordRequest (manager : ℕ) (ip : IpAddr)
  | recordTlsFailure (manager : ℕ) (ip : IpAddr)
  | tlsHandshake
  | cacheGet (engine : ℕ) (key : Str)
  | maxFileSizeBytes (engine : ℕ)
  | authRequest (request : AuthRequest)
  | upstreamRequest (request : ForwardedRequest)
  | spawnInsert (insertion : CacheInsertion)
  | spawnTunnel (upstreamAddr : Str)

/-- The type of the reply. A network error of the HTTP client is `none`; a handshake
succeeds or not. -/
def Effect.Reply : Effect → Type
  | .isBlacklisted _ _ => Bool
  | .checkAndRecordRequest _ _ => Except ℕ ℕ
  | .recordTlsFailure _ _ => Bool
  | .tlsHandshake => Bool
  | .cacheGet _ _ => Option CachedAsset
  | .maxFileSizeBytes _ => ℕ
  | .authRequest _ => Option Response
  | .upstreamRequest _ => Option Response
  | .spawnInsert _ => Unit
  | .spawnTunnel _ => Unit

inductive BoxError where
  | invalidUri
  | invalidHeaderValue
  | toStr
  | client
deriving DecidableEq

abbrev Program (α : Type) := Prog Effect Effect.Reply α

abbrev ProxyTrace := Trace Effect Effect.Reply

abbrev Fallible (α : Type) := Handler Effect Effect.Reply BoxError α

inductive AuthResult where
  | success (headers : HeaderMap)
  | denied (response : Response)

/-- The URI authority, else the `Host` header, else nothing. -/
def hostOf (uri : Uri) (headers : HeaderMap) : Str :=
  (uri.authority.or (HeaderMap.getStr headers .host)).getD []

def pathAndQueryOf (uri : Uri) : Str := uri.pathAndQuery.getD "/".toList

def textHeaders : List (HeaderName × Str) → Except BoxError (List (HeaderName × HeaderValue))
  | [] => .ok []
  | (name, text) :: rest =>
    match HttpCrate.fromStr text with
    | some value => (textHeaders rest).map ((name, value) :: ·)
    | none => .error .invalidHeaderValue

def credentialHeaders (headers : HeaderMap) : List (HeaderName × HeaderValue) :=
  [HeaderName.cookie, .authorization, .xApiKey, .accept].filterMap fun name =>
    (HeaderMap.get headers name).map fun value => (name, value)

def authSubRequest (authUri : Uri) (clientIp : Str) (method : Method) (uri : Uri)
    (headers : HeaderMap) : Except BoxError AuthRequest := do
  let host := hostOf uri headers
  let pathAndQuery := pathAndQueryOf uri
  let forwarded ← textHeaders [
    (.xForwardedMethod, method.asStr),
    (.xForwardedProto, "https".toList),
    (.xForwardedHost, host),
    (.xForwardedUri, pathAndQuery),
    (.xForwardedFor, clientIp),
    (.xOriginalUrl, "https://".toList ++ host ++ pathAndQuery)]
  return ⟨method, authUri,
    HeaderMap.appendAll HttpCrate.empty (forwarded ++ credentialHeaders headers)⟩

def isIdentityName (name : HeaderName) : Bool :=
  startsWith name.text "remote-".toList || startsWith name.text "x-forwarded-user".toList ||
    startsWith name.text "x-auth-".toList

def successHeaders (response : Response) : HeaderMap :=
  HeaderMap.insertAll HttpCrate.empty
    ((HttpCrate.iter response.headers).filter fun e => isIdentityName e.1)

def verdictOf (response : Response) : AuthResult :=
  if response.status.isSuccess then .success (successHeaders response) else .denied response

def ofExcept {α : Type} (x : Except BoxError α) : Fallible α :=
  match x with
  | .ok a => pure a
  | .error e => Handler.exit e

def askProvider (request : AuthRequest) : Fallible (Option Response) :=
  Handler.perform (Effect.authRequest request)

def authenticate (provider : ForwardAuthProvider) (clientIp : Str) (method : Method) (uri : Uri)
    (headers : HeaderMap) : Fallible AuthResult :=
  match HttpCrate.parseUri provider.authUrl with
  | none => Handler.exit .invalidUri
  | some authUri => do
    let request ← ofExcept (authSubRequest authUri clientIp method uri headers)
    match ← askProvider request with
    | none => Handler.exit .client
    | some response => return verdictOf response

end BarebonesProxy.Proxy
