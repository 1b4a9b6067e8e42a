import BarebonesProxy.Proxy
import BarebonesProxy.ProxyProtocol

set_option autoImplicit false

/-!
# Connections of `worker.rs`

`connectionTask` is the task that the accept loop spawns, up to the point where requests
are served. It uses the configuration loaded at the accept, whatever is published later.
`serveConnection` then configures hyper with the limit of the one published by that time.
-/
namespace BarebonesProxy.Worker
open RustNet RustStrings RustState ProxyConfig ConfigParser Http Cache RuntimeConfig EffectPrograms
open Proxy ProxyProtocol

structure Served where
  stream : ProxyStream
  encrypted : Bool
  resolvedAddr : SocketAddr
  isProxyProtocol : Bool
deriving DecidableEq

/-- The stream, the address of the client and the flag that goes to `handle_request`. -/
def resolvePeer (security : Option SecurityConfig) (stream : TcpStream) (peerAddr : SocketAddr) :
    Except Str (ProxyStream × SocketAddr × Bool) :=
  match security with
  | some sec =>
    match handleProxyProtocol stream peerAddr sec with
    | .ok (stream, addr) => .ok (stream, addr, peerAddr.ip = sec.trustedUpstream)
    | .error e => .error e
  | none => .ok (⟨stream, none⟩, peerAddr, false)

section Tasks
variable [HttpCrate]

abbrev Connecting (α : Type) := Handler Effect Effect.Reply (Option Served) α

def askBanned (manager : ℕ) (ip : IpAddr) : Connecting Bool :=
  Handler.perform (Effect.isBlacklisted manager ip)

def askHandshake : Connecting Bool := Handler.perform Effect.tlsHandshake

def reportTlsFailure (manager : ℕ) (ip : IpAddr) : Connecting Bool :=
  Handler.perform (Effect.recordTlsFailure manager ip)

variable [TlsCrate]

def dropBlacklisted (config : ActiveConfig) (ip : IpAddr) : Connecting Unit := do
  if ← askBanned config.securityManager ip then Handler.exit none else pure ()

def acceptTls (config : ActiveConfig) (resolvedAddr : SocketAddr) : Connecting Bool :=
  match config.tlsAcceptor with
  | none => pure false
  | some _ => do
    if ← askHandshake then pure true
    else do
      let _ ← reportTlsFailure config.securityManager resolvedAddr.ip
      Handler.exit none

def connectionTask (config : ActiveConfig) (stream : TcpStream) (peerAddr : SocketAddr) :
    Program (Option Served) := Handler.run do
  dropBlacklisted config peerAddr.ip
  match resolvePeer config.security stream peerAddr with
  | .error _ => Handler.exit none
  | .ok (stream, resolvedAddr, isProxyProtocol) => do
    dropBlacklisted config resolvedAddr.ip
    let encrypted ← acceptTls config resolvedAddr
    return some ⟨stream, encrypted, resolvedAddr, isProxyProtocol⟩

def Served.exchange (served : Served) (config : ActiveConfig) (request : Request) : Exchange :=
  ⟨config, served.resolvedAddr, served.isProxyProtocol, request⟩

end Tasks

section Rules
variable [TlsCrate] {config : ActiveConfig} {stream : TcpStream}
variable {peerAddr : SocketAddr}

/-- A connection is served as its accept-time configuration says, or not at all. -/
def ServedAs (config : ActiveConfig) (stream : TcpStream) (peerAddr : SocketAddr)
    (result : Option Served) : Prop :=
  ∀ served, result = some served →
    resolvePeer config.security stream peerAddr =
      .ok (served.stream, served.resolvedAddr, served.isProxyProtocol) ∧
    served.encrypted = config.tlsAcceptor.isSome

theorem servedAs_none : ServedAs config stream peerAddr none := fun _ h => nomatch h

variable [HttpCrate]

theorem dropBlacklisted_wp {post : ProxyTrace → Prop} {ip : IpAddr} {t : ProxyTrace}
    (h : ∀ t, post t) :
    Handler.wpH (fun _ _ => True) (fun _ => ServedAs config stream peerAddr) (fun t _ => post t)
      (dropBlacklisted config ip) t := by
  unfold dropBlacklisted
  rw [Handler.wpH_bind]
  refine ⟨trivial, fun banned => ?_⟩
  cases banned with
  | true => exact servedAs_none
  | false => exact h _

theorem acceptTls_wp {resolvedAddr : SocketAddr} {t : ProxyTrace} :
    Handler.wpH (fun _ _ => True) (fun _ => ServedAs config stream peerAddr)
      (fun _ encrypted => encrypted = config.tlsAcceptor.isSome)
      (acceptTls config resolvedAddr) t := by
  unfold acceptTls
  split
  · next hnone =>
    rw [Handler.wpH_pure, hnone]
    rfl
  · next acceptor hsome =>
    rw [Handler.wpH_bind]
    refine ⟨trivial, fun done => ?_⟩
    cases done with
    | true => exact hsome ▸ rfl
    | false => exact ⟨trivial, fun _ => servedAs_none⟩

theorem connectionTask_wp (config : ActiveConfig) (stream : TcpStream) (peerAddr : SocketAddr) :
    wp (fun _ _ => True) (fun _ => ServedAs config stream peerAddr)
      (connectionTask config stream peerAddr) [] := by
  unfold connectionTask
  rw [Handler.wp_run, Handler.wpH_bind]
  apply dropBlacklisted_wp
  intro t
  split
  · exact servedAs_none
  · next stream' resolvedAddr isProxyProtocol hresolve =>
    rw [Handler.wpH_bind]
    apply dropBlacklisted_wp
    intro t
    rw [Handler.wpH_bind]
    refine Handler.wpH_mono ?_ acceptTls_wp
    intro t encrypted hencrypted served hserved
    cases hserved
    exact ⟨hresolve, hencrypted⟩

theorem servedAs_of_reaches {t : ProxyTrace} {served : Served}
    (h : Reaches (connectionTask config stream peerAddr) t (.pure (some served))) :
    resolvePeer config.security stream peerAddr =
      .ok (served.stream, served.resolvedAddr, served.isProxyProtocol) ∧
    served.encrypted = config.tlsAcceptor.isSome :=
  post_of_reaches (connectionTask_wp config stream peerAddr) h served rfl

end Rules

section Limits
variable [TlsCrate]

def maxHeaderSize (config : ActiveConfig) : ℕ :=
  (config.security.map (·.maxHeaderSize)).getD (64 * 1024)

variable [HttpCrate]

/-- The builder that `serve_connection` configures for its connection. -/
def serveConnection (config : ActiveConfig) : Outcome HttpCrate.ServerBuilder :=
  match HttpCrate.maxBufSize HttpCrate.newBuilder (maxHeaderSize config) with
  | .panicked => .panicked
  | .returned builder =>
    .returned (HttpCrate.maxHeaderListSize builder (.ofNat (maxHeaderSize config)))

theorem serveConnection_small {config : ActiveConfig} (h : maxHeaderSize config < 8192) :
    serveConnection config = .panicked := by
  unfold serveConnection
  rw [HttpCrate.maxBufSize_small _ h]

theorem serveConnection_large {config : ActiveConfig} (h : 8192 ≤ maxHeaderSize config) :
    ∃ builder, serveConnection config = .returned builder ∧
      HttpCrate.bufSizeOf builder = maxHeaderSize config ∧
      HttpCrate.headerListSizeOf builder = .ofNat (maxHeaderSize config) := by
  obtain ⟨builder, hset, hsize⟩ := HttpCrate.maxBufSize_large HttpCrate.newBuilder h
  unfold serveConnection
  rw [hset]
  refine ⟨_, rfl, ?_, HttpCrate.headerListSizeOf_maxHeaderListSize _ _⟩
  rw [HttpCrate.bufSizeOf_maxHeaderListSize, hsize]

/-- A connection is configured with the limit of its configuration; HTTP/2 may cap it. -/
def LimitsKept (config : ActiveConfig) : Prop :=
  ∃ builder, serveConnection config = .returned builder ∧ 8192 ≤ HttpCrate.bufSizeOf builder ∧
    HttpCrate.bufSizeOf builder = maxHeaderSize config ∧
    ((HttpCrate.headerListSizeOf builder).toNat = maxHeaderSize config ∨
      (HttpCrate.headerListSizeOf builder).toNat = 2 ^ 32 - 1)

theorem limitsKept_iff_size (config : ActiveConfig) :
    LimitsKept config ↔ 8192 ≤ maxHeaderSize config ∧
      (maxHeaderSize config < 2 ^ 32 ∨ maxHeaderSize config % 2 ^ 32 = 2 ^ 32 - 1) := by
  have hcast : (UInt32.ofNat (maxHeaderSize config)).toNat = maxHeaderSize config % 2 ^ 32 :=
    UInt32.toNat_ofNat'
  unfold LimitsKept
  rcases lt_or_ge (maxHeaderSize config) 8192 with hsmall | hlarge
  · rw [serveConnection_small hsmall]
    constructor
    · rintro ⟨builder, h, -⟩
      cases h
    · rintro ⟨hlarge, -⟩
      omega
  · obtain ⟨builder, hserve, hbuf, hlist⟩ := serveConnection_large hlarge
    rw [hserve]
    constructor
    · rintro ⟨builder', h, -, -, hkept⟩
      cases h
      rw [hlist, hcast] at hkept
      omega
    · rintro ⟨-, hkept⟩
      refine ⟨builder, rfl, hbuf ▸ hlarge, hbuf, ?_⟩
      rw [hlist, hcast]
      omega

/-- The limits of a configuration are set exactly if its `max_header_size` is in the range
of both builders, or wraps to the largest value. -/
theorem limitsKept_iff (config : Config) (generation : UInt64) (tlsAcceptor : Option TlsAcceptor)
    (securityManager : ℕ) (cacheEngine : Option ℕ) :
    LimitsKept (snapshot config generation tlsAcceptor securityManager cacheEngine) ↔
      ∀ sec, config.security = some sec → 8192 ≤ sec.maxHeaderSize ∧
        (sec.maxHeaderSize < 2 ^ 32 ∨ sec.maxHeaderSize % 2 ^ 32 = 2 ^ 32 - 1) := by
  rw [limitsKept_iff_size]
  have hsize : maxHeaderSize (snapshot config generation tlsAcceptor securityManager cacheEngine) =
      (config.security.map (·.maxHeaderSize)).getD (64 * 1024) := rfl
  rw [hsize]
  cases config.security with
  | none => simp
  | some sec => simp

end Limits

section Example
open ListCrates

def bufferText (size : String) : Str :=
  ("listen 8080;\nsecurity \x7b\nmax_header_size " ++ size ++
    ";\n\x7d\nroute http://a/ \x7b\nupstream http://b;\n\x7d\n").toList

def bufferConfig (maxHeaderSize : ℕ) : Config where
  listenPort := 8080
  routes := [⟨"http://a/".toList, "http://b".toList, false, none, none, none, none⟩]
  workers := 2
  logfile := none
  security := some { defaultSecurityConfig with maxHeaderSize }
  cache := none
  interceptErrors := none

/-- With `max_header_size 4k` no connection is served; with `4g` HTTP/2 allows no header. -/
theorem accepted_limits_not_kept :
    parseProxyConfig (some 2) (bufferText "4k") = .ok (bufferConfig 4096) ∧
      serveConnection (snapshot (bufferConfig 4096) 0 none 0 none) = .panicked ∧
      ¬ LimitsKept (snapshot (bufferConfig 4096) 0 none 0 none) ∧
    parseProxyConfig (some 2) (bufferText "4g") = .ok (bufferConfig (2 ^ 32)) ∧
      serveConnection (snapshot (bufferConfig (2 ^ 32)) 0 none 0 none) =
        .returned ((2 ^ 32, 0) : ℕ × UInt32) ∧
      ¬ LimitsKept (snapshot (bufferConfig (2 ^ 32)) 0 none 0 none) := by
  refine ⟨by decide +kernel, rfl, ?_, by decide +kernel, rfl, ?_⟩
  · rw [limitsKept_iff_size]
    decide
  · rw [limitsKept_iff_size]
    decide

end Example

end BarebonesProxy.Worker
