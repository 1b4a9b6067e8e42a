import BarebonesProxy.Worker

set_option autoImplicit false

/-!
# The client address of a request

Where the worker's flag is off, the address is the peer's, and the three address headers
have no say in the admission of a request.
-/
namespace BarebonesProxy.Worker
open RustNet RustStrings ProxyConfig Http Cache RuntimeConfig ErrorPages EffectPrograms
open Proxy ProxyProtocol

section Admission
variable [HttpCrate]

def SameButAddress (headers headers' : HeaderMap) : Prop :=
  ∀ n, n ∉ addressHeaders → HeaderMap.values headers n = HeaderMap.values headers' n

theorem SameButAddress.getStr {headers headers' : HeaderMap} (h : SameButAddress headers headers')
    {n : HeaderName} (hn : n ∉ addressHeaders) :
    HeaderMap.getStr headers n = HeaderMap.getStr headers' n := by
  unfold HeaderMap.getStr HeaderMap.get
  rw [h n hn]

variable [TlsCrate] {x x' : Exchange}

structure SameRequest (x x' : Exchange) : Prop where
  config : x.config = x'.config
  uri : x.request.uri = x'.request.uri
  headers : SameButAddress x.request.headers x'.request.headers

theorem SameRequest.host (h : SameRequest x x') : x.host = x'.host := by
  unfold Exchange.host hostOf
  rw [h.uri, h.headers.getStr (by decide)]

theorem SameRequest.errorResponse (h : SameRequest x x') (hip : x.clientIp = x'.clientIp)
    (status : StatusCode) (message : ErrorMessage) :
    x.errorResponse status message = x'.errorResponse status message := by
  have hjson : wantsJson (some x.request.headers) = wantsJson (some x'.request.headers) := by
    unfold wantsJson
    rw [Option.bind_some, Option.bind_some, h.headers.getStr (by decide)]
  unfold Exchange.errorResponse buildErrorResponse
  rw [hip, h.host, hjson]

theorem SameRequest.payloadTooLarge (h : SameRequest x x') :
    x.payloadTooLarge = x'.payloadTooLarge := by
  unfold Exchange.payloadTooLarge Exchange.maxBodySize contentLengthOf
  rw [h.config, h.headers.getStr (by decide)]

/-- With the same client address, the admission of the two requests is one program. -/
theorem SameRequest.admission (h : SameRequest x x') (hip : x.clientIp = x'.clientIp) :
    Proxy.admission x = Proxy.admission x' := by
  have hrate : checkRateLimit x = checkRateLimit x' := by
    funext ip
    unfold checkRateLimit Exchange.rateLimitPage
    rw [h.config, h.errorResponse hip]
  have hblack : checkBlacklist x = checkBlacklist x' := by
    funext ip
    unfold checkBlacklist
    rw [h.config]
  unfold Proxy.admission checkClient checkBodySize
  rw [hip, hrate, hblack, h.payloadTooLarge, h.errorResponse hip]

end Admission

section Boundary

def HeadersTrusted (security : Option SecurityConfig) (peerAddr : SocketAddr) : Prop :=
  ∃ sec, security = some sec ∧ sec.proxyProtocol = true ∧ peerAddr.ip = sec.trustedUpstream

/-- The protocol is off and the peer is the trusted upstream all the same. -/
def TrustedWithoutProtocol (security : Option SecurityConfig) (peerAddr : SocketAddr) : Prop :=
  ∃ sec, security = some sec ∧ sec.proxyProtocol = false ∧ peerAddr.ip = sec.trustedUpstream

theorem resolvePeer_untrusted {security : Option SecurityConfig} {stream : TcpStream}
    {peerAddr addr : SocketAddr} {result : ProxyStream} {isProxyProtocol : Bool}
    (h : resolvePeer security stream peerAddr = .ok (result, addr, isProxyProtocol))
    (hheaders : ¬ HeadersTrusted security peerAddr)
    (hoff : ¬ TrustedWithoutProtocol security peerAddr) :
    addr = peerAddr ∧ isProxyProtocol = false := by
  unfold resolvePeer at h
  cases security with
  | none =>
    cases h
    exact ⟨rfl, rfl⟩
  | some sec =>
    have hpeer : peerAddr.ip ≠ sec.trustedUpstream := by
      intro hpeer
      cases hprotocol : sec.proxyProtocol with
      | true => exact hheaders ⟨sec, rfl, hprotocol, hpeer⟩
      | false => exact hoff ⟨sec, rfl, hprotocol, hpeer⟩
    dsimp only at h
    split at h
    · next heq =>
      cases h
      exact ⟨handleProxyProtocol_addr heq fun htrust => hpeer htrust.2, decide_eq_false hpeer⟩
    · cases h

variable [HttpCrate]

def naming (text : String) : HeaderMap :=
  HttpCrate.insert HttpCrate.empty .cfConnectingIp (HttpCrate.fromStatic text.toList)

theorem clientIp_naming {text : String} (hvisible : text.toList.all isVisible = true)
    (htrim : trim text.toList = text.toList) (hparse : (IpAddr.parse text.toList).isSome = true)
    (peerAddr : SocketAddr) : clientIpOf true peerAddr (naming text) = text.toList := by
  have hget : HeaderMap.getStr (naming text) .cfConnectingIp = some text.toList := by
    unfold HeaderMap.getStr HeaderMap.get naming
    rw [HeaderMap.values_insert_self]
    exact HttpCrate.toStr_fromStatic hvisible
  have hheader : headerIp (naming text) .cfConnectingIp = some text.toList := by
    unfold headerIp
    rw [hget]
    dsimp only
    have hname : HeaderName.cfConnectingIp ≠ .xForwardedFor := by decide
    rw [if_neg hname, htrim, if_pos hparse]
  unfold clientIpOf addressHeaders
  rw [if_pos rfl, List.findSome?_cons, hheader]
  rfl

variable [TlsCrate]

/-- On a connection from an address that may not be believed, each request counts for the
socket peer, and its address headers change nothing about its admission. -/
def TrustBoundary (accepted : ActiveConfig) (peerAddr : SocketAddr) : Prop :=
  ¬ HeadersTrusted accepted.security peerAddr →
  ∀ stream t served, Reaches (connectionTask accepted stream peerAddr) t (.pure (some served)) →
  ∀ config request,
    (served.exchange config request).clientIp = peerAddr.ip.display ∧
    ∀ headers, SameButAddress request.headers headers →
      (served.exchange config { request with headers }).clientIp =
        (served.exchange config request).clientIp ∧
      admission (served.exchange config { request with headers }) =
        admission (served.exchange config request)

theorem reaches_served {accepted : ActiveConfig} {sec : SecurityConfig}
    (hsec : accepted.security = some sec) (hoff : sec.proxyProtocol = false) (stream : TcpStream)
    (peerAddr : SocketAddr) :
    ∃ t served, Reaches (connectionTask accepted stream peerAddr) t (.pure (some served)) ∧
      served.resolvedAddr = peerAddr ∧
      served.isProxyProtocol = decide (peerAddr.ip = sec.trustedUpstream) := by
  have hresolve : resolvePeer accepted.security stream peerAddr =
      .ok (⟨stream, none⟩, peerAddr, decide (peerAddr.ip = sec.trustedUpstream)) := by
    simp [resolvePeer, hsec, handleProxyProtocol, hoff]
  have hstart := Reaches.start (p := connectionTask accepted stream peerAddr)
  cases htls : accepted.tlsAcceptor with
  | none =>
    simp only [connectionTask, hresolve, acceptTls, htls] at hstart ⊢
    exact ⟨_, _, .reply (.reply hstart false) false, rfl, rfl⟩
  | some acceptor =>
    simp only [connectionTask, hresolve, acceptTls, htls] at hstart ⊢
    exact ⟨_, _, .reply (.reply (.reply hstart false) false) true, rfl, rfl⟩

/-- The boundary holds for a peer exactly when it is not a trusted upstream with the
protocol turned off. -/
theorem trustBoundary_iff (accepted : ActiveConfig) (peerAddr : SocketAddr) :
    TrustBoundary accepted peerAddr ↔ ¬ TrustedWithoutProtocol accepted.security peerAddr := by
  constructor
  · intro hboundary ⟨sec, hsec, hoff, hpeer⟩
    have hheaders : ¬ HeadersTrusted accepted.security peerAddr := by
      intro ⟨sec', hsec', hon, _⟩
      have hsame : sec' = sec := Option.some.inj (hsec'.symm.trans hsec)
      rw [hsame, hoff] at hon
      cases hon
    obtain ⟨t, served, hreach, haddr, hflag⟩ := reaches_served hsec hoff ⟨[], .eof⟩ peerAddr
    have hnamed : ∀ text : String, text.toList.all isVisible = true →
        trim text.toList = text.toList → (IpAddr.parse text.toList).isSome = true →
        text.toList = peerAddr.ip.display := by
      intro text hvisible htrim hparse
      have hclient := (hboundary hheaders _ t served hreach accepted
        ⟨.get, ⟨none, none⟩, naming text, .full []⟩).1
      unfold Exchange.clientIp Served.exchange at hclient
      rw [hflag, haddr, decide_eq_true hpeer] at hclient
      exact (clientIp_naming hvisible htrim hparse peerAddr).symm.trans hclient
    have hone := hnamed "1.1.1.1" (by decide) (by decide) (by decide)
    have htwo := hnamed "2.2.2.2" (by decide) (by decide) (by decide)
    exact absurd (hone.trans htwo.symm) (by decide)
  · intro hoff hheaders stream t served hreach config request
    obtain ⟨haddr, hflag⟩ :=
      resolvePeer_untrusted (servedAs_of_reaches hreach).1 hheaders hoff
    have hclient : ∀ request, (served.exchange config request).clientIp = peerAddr.ip.display := by
      intro request
      unfold Exchange.clientIp Served.exchange clientIpOf
      rw [hflag, haddr, if_neg Bool.false_ne_true]
    refine ⟨hclient request, fun headers hsame => ⟨?_, ?_⟩⟩
    · rw [hclient, hclient]
    · refine SameRequest.admission ⟨rfl, rfl, ?_⟩ ?_
      · intro n hn
        exact (hsame n hn).symm
      · rw [hclient, hclient]

end Boundary

section Example
open ListCrates

def offText : String :=
  "listen 8080;\nsecurity \x7b\ntrusted_upstream 10.0.0.1;\n\x7d\nroute http://a/ \x7b\nupstream http://b;\n\x7d\n"

def offSecurity : SecurityConfig :=
  { ConfigParser.defaultSecurityConfig with trustedUpstream := .v4 ⟨10, 0, 0, 1⟩ }

def offConfig : Config where
  listenPort := 8080
  routes := [⟨"http://a/".toList, "http://b".toList, false, none, none, none, none⟩]
  workers := 2
  logfile := none
  security := some offSecurity
  cache := none
  interceptErrors := none

def upstreamAddr : SocketAddr := ⟨.v4 ⟨10, 0, 0, 1⟩, 4000⟩

def offServed : Served := ⟨⟨⟨[], .eof⟩, none⟩, false, upstreamAddr, true⟩

set_option maxRecDepth 4000 in
theorem off_accepted : ConfigParser.parseProxyConfig (some 2) offText.toList = .ok offConfig := by
  unfold offText
  exact of_chars (fun s => ConfigParser.parseProxyConfig (some 2) s = .ok offConfig)
    (by decide +kernel)

/-- With the protocol off, the named upstream still chooses the address it counts for. -/
theorem headers_believed_with_protocol_off :
    ConfigParser.parseProxyConfig (some 2) offText.toList = .ok offConfig ∧
      (∃ t, Reaches (connectionTask (snapshot offConfig 0 none 0 none) ⟨[], .eof⟩ upstreamAddr) t
        (.pure (some offServed))) ∧
      (offServed.exchange (snapshot offConfig 0 none 0 none)
        ⟨.get, ⟨none, none⟩, [(.cfConnectingIp, "9.9.9.9".toList)], .full []⟩).clientIp =
          "9.9.9.9".toList ∧
      ¬ TrustBoundary (snapshot offConfig 0 none 0 none) upstreamAddr := by
  have hreach : ∃ t, Reaches (connectionTask (snapshot offConfig 0 none 0 none) ⟨[], .eof⟩
      upstreamAddr) t (.pure (some offServed)) := by
    have hstart := Reaches.start
      (p := connectionTask (snapshot offConfig 0 none 0 none) ⟨[], .eof⟩ upstreamAddr)
    have hpeer := Reaches.reply hstart false
    exact ⟨_, Reaches.reply hpeer false⟩
  have hclient : (offServed.exchange (snapshot offConfig 0 none 0 none)
      ⟨.get, ⟨none, none⟩, [(.cfConnectingIp, "9.9.9.9".toList)], .full []⟩).clientIp =
        "9.9.9.9".toList := rfl
  refine ⟨off_accepted, hreach, hclient, fun hboundary => ?_⟩
  obtain ⟨t, hreach⟩ := hreach
  have hheaders : ¬ HeadersTrusted (some offSecurity) upstreamAddr := by
    intro ⟨sec, hsec, hon, _⟩
    cases hsec
    cases hon
  have hpeer := hclient.symm.trans (hboundary hheaders _ t offServed hreach _ _).1
  revert hpeer
  decide

end Example

end BarebonesProxy.Worker
