import BarebonesProxy.ProxyRules

set_option autoImplicit false

/-!
# The headers of forwarded requests

A name that the proxy does not set itself keeps the values of the client, unless the auth
provider gave a value for it. The host names that the upstream gets come first from the
`Host` header, those that routing and authentication use come first from the URI.
-/
namespace BarebonesProxy.Proxy
open RustNet RustStrings ProxyConfig Routing Http Cache RuntimeConfig EffectPrograms

def isOwnName (n : HeaderName) : Bool :=
  [HeaderName.host, .xForwardedHost, .xForwardedProto, .xForwardedFor, .xRealIp].contains n

theorem startsWith_colon (n : HeaderName) : startsWith n.text ":".toList = false := by
  obtain ⟨text, hvalid⟩ := n
  cases text with
  | nil => rfl
  | cons c cs =>
    have hchar : isNameChar c = true := by
      simp only [List.isEmpty_cons, Bool.not_false, Bool.true_and, List.all_cons,
        Bool.and_eq_true] at hvalid
      exact hvalid.1
    have hne : c ≠ ':' := by
      intro hc
      rw [hc] at hchar
      exact absurd hchar (by decide)
    simp [startsWith, List.isPrefixOf, hne.symm]

theorem isOwnName_of_identity {n : HeaderName} (h : isIdentityName n = true) :
    isOwnName n = false := by
  by_contra hown
  rw [Bool.not_eq_false, isOwnName, List.contains_iff_mem] at hown
  have hnone : ∀ n ∈ [HeaderName.host, .xForwardedHost, .xForwardedProto, .xForwardedFor, .xRealIp],
      isIdentityName n = false := by decide
  rw [hnone n hown] at h
  cases h

section Values
variable [HttpCrate]

theorem values_successHeaders (response : Response) (n : HeaderName) :
    HeaderMap.values (successHeaders response) n =
      if isIdentityName n then (HeaderMap.values response.headers n).getLast?.toList else [] := by
  have hfilter := valuesOf_filter n isIdentityName (HttpCrate.iter response.headers)
  unfold successHeaders
  rw [HeaderMap.values_insertAll, hfilter, HeaderMap.values_empty]
  by_cases h : isIdentityName n = true
  · simp only [h, if_true]
    change _ = (valuesOf n (HttpCrate.iter response.headers)).getLast?.toList
    cases (valuesOf n (HttpCrate.iter response.headers)).getLast? <;> rfl
  · simp [h]

theorem values_withOriginalHost (headers : HeaderMap) (originalHost : Option HeaderValue)
    {n : HeaderName} (hhost : n ≠ .host) (hforwarded : n ≠ .xForwardedHost) :
    HeaderMap.values (withOriginalHost headers originalHost) n =
      HeaderMap.values headers n := by
  cases originalHost with
  | none => rfl
  | some host =>
    unfold withOriginalHost
    rw [HeaderMap.values_insert_ne _ _ hforwarded, HeaderMap.values_insert_ne _ _ hhost]

variable [TlsCrate] (x : Exchange)

theorem values_copiedHeaders (n : HeaderName) :
    HeaderMap.values x.copiedHeaders n =
      if n = .host then [] else HeaderMap.values x.request.headers n := by
  have hfilter := valuesOf_filter n
    (fun name : HeaderName => decide (name ≠ .host) && !startsWith name.text ":".toList)
    (HttpCrate.iter x.request.headers)
  unfold Exchange.copiedHeaders
  rw [HeaderMap.values_appendAll, HeaderMap.values_empty, List.nil_append, hfilter,
    startsWith_colon]
  by_cases h : n = .host
  · simp [h]
  · simp [h, HeaderMap.values]

variable (authHeaders : HeaderMap) (originalHost : Option HeaderValue)
  (forwardedFor realIp : HeaderValue)

theorem values_forwardedHeaders_eq {n : HeaderName} (hproto : n ≠ .xForwardedProto)
    (hfor : n ≠ .xForwardedFor) (hreal : n ≠ .xRealIp) :
    HeaderMap.values (x.forwardedHeaders authHeaders originalHost forwardedFor realIp) n =
      HeaderMap.values (withOriginalHost
        (HeaderMap.insertAll x.copiedHeaders (HttpCrate.iter authHeaders)) originalHost) n := by
  unfold Exchange.forwardedHeaders
  apply HeaderMap.values_insertAll_of_notMem
  intro e he
  simp only [List.mem_cons, List.not_mem_nil, or_false] at he
  rcases he with rfl | rfl | rfl
  · exact hproto.symm
  · exact hfor.symm
  · exact hreal.symm

/-- A name the proxy does not set: the value of the provider, else those of the client. -/
theorem values_forwardedHeaders {n : HeaderName} (hown : isOwnName n = false) :
    HeaderMap.values (x.forwardedHeaders authHeaders originalHost forwardedFor realIp) n =
      match (HeaderMap.values authHeaders n).getLast? with
      | some v => [v]
      | none => HeaderMap.values x.request.headers n := by
  simp only [isOwnName, List.contains_eq_mem, List.mem_cons, List.not_mem_nil, or_false,
    decide_eq_false_iff_not, not_or] at hown
  obtain ⟨hhost, hforwarded, hproto, hfor, hreal⟩ := hown
  rw [values_forwardedHeaders_eq x authHeaders originalHost forwardedFor realIp hproto hfor hreal,
    values_withOriginalHost _ _ hhost hforwarded, HeaderMap.values_insertAll,
    values_copiedHeaders, if_neg hhost]
  rfl

theorem values_forwarded_host (host : HeaderValue) :
    HeaderMap.values (x.forwardedHeaders authHeaders (some host) forwardedFor realIp) .host =
        [host] ∧
      HeaderMap.values (x.forwardedHeaders authHeaders (some host) forwardedFor realIp)
        .xForwardedHost = [host] := by
  constructor
  · rw [values_forwardedHeaders_eq _ _ _ _ _ (by decide) (by decide) (by decide)]
    unfold withOriginalHost
    rw [HeaderMap.values_insert_ne _ _ (by decide), HeaderMap.values_insert_self]
  · rw [values_forwardedHeaders_eq _ _ _ _ _ (by decide) (by decide) (by decide)]
    exact HeaderMap.values_insert_self _ _ _

theorem values_forwarded_no_host (hauth : HeaderMap.values authHeaders .host = []) :
    HeaderMap.values (x.forwardedHeaders authHeaders none forwardedFor realIp) .host = [] := by
  have hlast : (valuesOf HeaderName.host (HttpCrate.iter authHeaders)).getLast? = none := by
    rw [List.getLast?_eq_none_iff]
    exact hauth
  rw [values_forwardedHeaders_eq _ _ _ _ _ (by decide) (by decide) (by decide)]
  unfold withOriginalHost
  rw [HeaderMap.values_insertAll, hlast, values_copiedHeaders, if_pos rfl]

theorem forwardedRequest_headers {m : MatchedRoute} {authHeaders : HeaderMap}
    {request : ForwardedRequest} (h : x.forwardedRequest m authHeaders = .ok request) :
    ∃ originalHost forwardedFor realIp, x.originalHost = .ok originalHost ∧
      x.forwardedFor = .ok forwardedFor ∧ x.realIp = .ok realIp ∧
      request.headers = x.forwardedHeaders authHeaders originalHost forwardedFor realIp := by
  obtain ⟨uri, originalHost, forwardedFor, realIp, -, hhost, hfor, hreal, rfl⟩ :=
    forwardedRequest_ok h
  exact ⟨originalHost, forwardedFor, realIp, hhost, hfor, hreal, rfl⟩

end Values

section SubRequest
variable [HttpCrate]

theorem valuesOf_textHeaders {texts : List (HeaderName × Str)}
    {headers : List (HeaderName × HeaderValue)} (h : textHeaders texts = .ok headers)
    (n : HeaderName) : valuesOf n headers = (valuesOf n texts).filterMap HttpCrate.fromStr := by
  induction texts generalizing headers with
  | nil =>
    cases h
    rfl
  | cons text texts ih =>
    obtain ⟨name, text⟩ := text
    unfold textHeaders at h
    split at h
    · next value hvalue =>
      cases hrest : textHeaders texts with
      | error e =>
        rw [hrest] at h
        cases h
      | ok rest =>
        rw [hrest] at h
        cases h
        rw [valuesOf_cons, valuesOf_cons, ih hrest, List.filterMap_append]
        congr 1
        split
        · simp [hvalue]
        · rfl
    · cases h

theorem valuesOf_firsts (headers : HeaderMap) {names : List HeaderName} (hnodup : names.Nodup)
    (n : HeaderName) :
    valuesOf n (names.filterMap fun name =>
        (HeaderMap.get headers name).map fun value => (name, value)) =
      if n ∈ names then (HeaderMap.get headers n).toList else [] := by
  induction names with
  | nil => rfl
  | cons name names ih =>
    obtain ⟨hnew, hnodup⟩ := List.nodup_cons.mp hnodup
    have htail := ih hnodup
    by_cases hn : n = name
    · subst hn
      rw [if_neg hnew] at htail
      cases hget : HeaderMap.get headers n with
      | none => simp [hget, htail]
      | some value => simp [hget, valuesOf_cons, htail]
    · cases hget : HeaderMap.get headers name with
      | none => simp [hget, htail, hn]
      | some value => simp [hget, valuesOf_cons, htail, hn, Ne.symm hn]

theorem values_subRequest {texts : List (HeaderName × Str)}
    {forwarded : List (HeaderName × HeaderValue)} (htexts : textHeaders texts = .ok forwarded)
    (headers : HeaderMap) (n : HeaderName) :
    HeaderMap.values (HeaderMap.appendAll HttpCrate.empty (forwarded ++ credentialHeaders headers)) n =
      (valuesOf n texts).filterMap HttpCrate.fromStr ++
        if n ∈ [HeaderName.cookie, .authorization, .xApiKey, .accept]
          then (HeaderMap.get headers n).toList else [] := by
  rw [HeaderMap.values_appendAll, HeaderMap.values_empty, List.nil_append, valuesOf_append,
    valuesOf_textHeaders htexts]
  congr 1
  exact valuesOf_firsts headers (by decide) n

theorem authSubRequest_ok {authUri : Uri} {clientIp : Str} {method : Method} {uri : Uri}
    {headers : HeaderMap} {request : AuthRequest}
    (h : authSubRequest authUri clientIp method uri headers = .ok request) :
    ∃ texts : List (HeaderName × Str),
      (∀ n, HeaderMap.values request.headers n =
        (valuesOf n texts).filterMap HttpCrate.fromStr ++
          if n ∈ [HeaderName.cookie, .authorization, .xApiKey, .accept]
            then (HeaderMap.get headers n).toList else []) ∧
      texts.map Prod.fst = [.xForwardedMethod, .xForwardedProto, .xForwardedHost, .xForwardedUri,
        .xForwardedFor, .xOriginalUrl] ∧
      valuesOf HeaderName.xForwardedHost texts = [hostOf uri headers] := by
  unfold authSubRequest at h
  dsimp only at h
  generalize htexts : textHeaders _ = result at h
  cases result with
  | error e => cases h
  | ok forwarded =>
    cases h
    exact ⟨_, values_subRequest htexts headers, rfl, rfl⟩

theorem values_authSubRequest_host {authUri : Uri} {clientIp : Str} {method : Method} {uri : Uri}
    {headers : HeaderMap} {request : AuthRequest}
    (h : authSubRequest authUri clientIp method uri headers = .ok request) :
    HeaderMap.values request.headers .xForwardedHost =
      [hostOf uri headers].filterMap HttpCrate.fromStr := by
  obtain ⟨texts, hvalues, -, hhost⟩ := authSubRequest_ok h
  rw [hvalues, hhost, if_neg (by decide), List.append_nil]

def credentialNames : List HeaderName := [.cookie, .authorization, .xApiKey]

/-- Of each credential the provider gets the first value only. -/
theorem values_authSubRequest_credential {authUri : Uri} {clientIp : Str} {method : Method}
    {uri : Uri} {headers : HeaderMap} {request : AuthRequest}
    (h : authSubRequest authUri clientIp method uri headers = .ok request) {n : HeaderName}
    (hn : n ∈ credentialNames) :
    HeaderMap.values request.headers n = (HeaderMap.get headers n).toList := by
  obtain ⟨texts, hvalues, hnames, -⟩ := authSubRequest_ok h
  have hforwarded : valuesOf n texts = [] := by
    apply valuesOf_eq_nil
    intro e he hen
    have hname : n ∈ texts.map Prod.fst := hen ▸ List.mem_map_of_mem he
    have hother : ∀ n ∈ credentialNames, n ∉ [HeaderName.xForwardedMethod, .xForwardedProto,
        .xForwardedHost, .xForwardedUri, .xForwardedFor, .xOriginalUrl] := by decide
    rw [hnames] at hname
    exact hother n hn hname
  have hfirst : ∀ n ∈ credentialNames,
      n ∈ [HeaderName.cookie, .authorization, .xApiKey, .accept] := by decide
  rw [hvalues, hforwarded, if_pos (hfirst n hn)]
  rfl

end SubRequest

section Hosts
variable [HttpCrate] [TlsCrate]

/-- `host` is what the request was routed, looked up and authorised as, and what the
upstream gets as `Host` and `X-Forwarded-Host`. -/
structure OneHost (x : Exchange) (t : ProxyTrace) (request : ForwardedRequest) (host : Str) :
    Prop where
  routed : x.matched = x.config.router.matchRoute host x.path
  looked : ∀ engine key found,
    (⟨.cacheGet engine key, found⟩ : (e : Effect) × e.Reply) ∈ t →
      key = host ++ ":".toList ++ x.pathAndQuery
  asked : ∀ sub answer, (⟨.authRequest sub, answer⟩ : (e : Effect) × e.Reply) ∈ t →
    ∃ value, HeaderMap.values sub.headers .xForwardedHost = [value] ∧
      HttpCrate.toStr value = some host
  delivered : ∃ value, HeaderMap.values request.headers .host = [value] ∧
    HeaderMap.values request.headers .xForwardedHost = [value] ∧
    HttpCrate.toStr value = some host

/-- The URI and the `Host` header, as far as they are there, name one host of visible
ASCII characters. -/
def HostsAgree (request : Request) : Prop :=
  match request.uri.authority, HeaderMap.get request.headers .host with
  | some authority, some value => HttpCrate.toStr value = some authority
  | some authority, none => authority.all isVisible = true
  | none, some value => (HttpCrate.toStr value).isSome = true
  | none, none => False

variable {x : Exchange}

theorem originalHost_iff {originalHost : Option HeaderValue} (h : x.originalHost = .ok originalHost) :
    (∃ value, originalHost = some value ∧ HttpCrate.toStr value = some x.host) ↔
      HostsAgree x.request := by
  cases hget : HeaderMap.get x.request.headers .host with
  | some value =>
    have horiginal : originalHost = some value := by
      simp only [Exchange.originalHost, hget] at h
      cases h
      rfl
    cases hauthority : x.request.uri.authority with
    | some authority =>
      simp [horiginal, HostsAgree, hget, hauthority, Exchange.host, hostOf]
    | none =>
      cases htext : HttpCrate.toStr value <;>
        simp [horiginal, HostsAgree, hget, hauthority, htext, Exchange.host, hostOf,
          HeaderMap.getStr]
  | none =>
    cases hauthority : x.request.uri.authority with
    | none =>
      have horiginal : originalHost = none := by
        simp only [Exchange.originalHost, hget, hauthority] at h
        cases h
        rfl
      simp [horiginal, HostsAgree, hget, hauthority]
    | some authority =>
      have hhost : x.host = authority := by simp [Exchange.host, hostOf, hauthority]
      simp only [Exchange.originalHost, hget, hauthority] at h
      simp only [HostsAgree, hget, hauthority, hhost]
      constructor
      · intro ⟨value, _, htext⟩
        exact HttpCrate.toStr_visible htext
      · intro hvisible
        rw [HttpCrate.fromStr_visible hvisible] at h
        cases h
        exact ⟨_, rfl, HttpCrate.toStr_fromStatic hvisible⟩

theorem host_visible (h : HostsAgree x.request) : x.host.all isVisible = true := by
  unfold HostsAgree at h
  unfold Exchange.host hostOf HeaderMap.getStr
  cases hget : HeaderMap.get x.request.headers .host with
  | some value =>
    cases hauthority : x.request.uri.authority with
    | some authority =>
      rw [hget, hauthority] at h
      exact HttpCrate.toStr_visible h
    | none =>
      rw [hget, hauthority] at h
      obtain ⟨text, htext⟩ := Option.isSome_iff_exists.mp h
      simp only [Option.or, Option.bind_some, htext, Option.getD_some]
      exact HttpCrate.toStr_visible htext
  | none =>
    cases hauthority : x.request.uri.authority with
    | some authority =>
      rw [hget, hauthority] at h
      exact h
    | none =>
      rw [hget, hauthority] at h
      exact h.elim

theorem Authorised.values_eq_nil {m : MatchedRoute} {t : ProxyTrace} {headers : HeaderMap}
    (h : Authorised x m t headers) {n : HeaderName} (hn : isIdentityName n = false) :
    HeaderMap.values headers n = [] := by
  unfold Authorised at h
  split at h
  · obtain ⟨response, -, rfl⟩ := h
    rw [values_successHeaders, hn]
    rfl
  · rw [h, HeaderMap.values_empty]

theorem AuthAsked.host {request : AuthRequest} (h : AuthAsked x request)
    (hvisible : x.host.all isVisible = true) :
    ∃ value, HeaderMap.values request.headers .xForwardedHost = [value] ∧
      HttpCrate.toStr value = some x.host := by
  obtain ⟨provider, authUri, -, -, hsub⟩ := h
  refine ⟨HttpCrate.fromStatic x.host, ?_, HttpCrate.toStr_fromStatic hvisible⟩
  have hfrom := HttpCrate.fromStr_visible hvisible
  rw [values_authSubRequest_host hsub]
  change [x.host].filterMap HttpCrate.fromStr = _
  simp [hfrom]

variable [CaseMapping]

/-- A forwarded request goes out under the host it was admitted under exactly when its URI
and its `Host` header agree. -/
theorem oneHost_iff {t : ProxyTrace} {request : ForwardedRequest}
    {k : Option Response → Program (Except BoxError Response)}
    (h : Reaches (handleRequest x) t (.op (.upstreamRequest request) k)) :
    OneHost x t request x.host ↔ HostsAgree x.request := by
  obtain ⟨m, authHeaders, hm, hauth, hrequest⟩ := permitted_of_reaches h
  obtain ⟨originalHost, forwardedFor, realIp, horiginal, -, -, hheaders⟩ :=
    forwardedRequest_headers x hrequest
  have hiff := originalHost_iff horiginal
  constructor
  · intro hone
    obtain ⟨value, hvalue, -, htext⟩ := hone.delivered
    rw [← hiff]
    cases originalHost with
    | some host =>
      rw [hheaders, (values_forwarded_host x authHeaders forwardedFor realIp host).1] at hvalue
      cases hvalue
      exact ⟨_, rfl, htext⟩
    | none =>
      have hnone := hauth.values_eq_nil (n := .host) (by decide)
      rw [hheaders, values_forwarded_no_host x authHeaders forwardedFor realIp hnone] at hvalue
      cases hvalue
  · intro hagree
    refine ⟨rfl, ?_, ?_, ?_⟩
    · intro engine key found hmem
      obtain ⟨t₁, t₂, -, -, hkey, -⟩ := permitted_of_mem h hmem
      exact hkey
    · intro sub answer hmem
      obtain ⟨t₁, t₂, -, hasked, -⟩ := permitted_of_mem h hmem
      exact hasked.host (host_visible hagree)
    · obtain ⟨value, rfl, htext⟩ := hiff.mpr hagree
      have hvalues := values_forwarded_host x authHeaders forwardedFor realIp value
      rw [hheaders]
      exact ⟨value, hvalues.1, hvalues.2, htext⟩

end Hosts

section Shop
open ListCrates

def shopRoute : Route where
  requestEndpoint := "http://shop.test/".toList
  forwardEndpoint := "http://10.0.0.9:8080/".toList
  authRequired := true
  certPath := none
  keyPath := none
  cache := none
  interceptErrors := none

def shopConfig : ActiveConfig where
  generation := 0
  router := ⟨[shopRoute]⟩
  tlsAcceptor := none
  logfile := none
  security := none
  securityManager := 0
  authProvider := some ⟨"http://10.0.0.8/verify".toList⟩
  cacheConfig := none
  cacheEngine := none
  globalInterceptErrors := false

def shopExchange (headers : List (HeaderName × Str)) : Exchange where
  config := shopConfig
  peerAddr := ⟨.v4 ⟨10, 0, 0, 1⟩, 4000⟩
  isProxyProtocol := false
  request := ⟨.get, ⟨some "shop.test".toList, some "/cart".toList⟩, headers, .full []⟩

def shopAnswer (identity : List (HeaderName × Str)) : (e : Effect) → e.Reply
  | .isBlacklisted _ _ => false
  | .checkAndRecordRequest _ _ => .ok 1
  | .recordTlsFailure _ _ => false
  | .tlsHandshake => true
  | .cacheGet _ _ => none
  | .maxFileSizeBytes _ => (0 : ℕ)
  | .authRequest _ => some ⟨.ok, identity, .full []⟩
  | .upstreamRequest _ => none
  | .spawnInsert _ => ()
  | .spawnTunnel _ => ()

def shopRun (headers identity : List (HeaderName × Str)) :
    ProxyTrace × Program (Except BoxError Response) :=
  follow (shopAnswer identity) 3 (handleRequest (shopExchange headers))

theorem shopRun_reaches (headers identity : List (HeaderName × Str)) :
    Reaches (handleRequest (shopExchange headers)) (shopRun headers identity).1
      (shopRun headers identity).2 :=
  reaches_follow _ _ _

theorem shopExchange_matched (headers : List (HeaderName × Str)) :
    (shopExchange headers).matched = some (.of shopRoute "/cart".toList) := rfl

theorem one_host_without_host_header :
    ∃ request k, (shopRun [] []).2 = .op (.upstreamRequest request) k ∧
      OneHost (shopExchange []) (shopRun [] []).1 request "shop.test".toList := by
  refine ⟨_, _, rfl, ?_⟩
  exact (oneHost_iff (shopRun_reaches [] [])).mpr rfl

/-- `GET http://shop.test/cart` with `Host: admin.test` is routed and authorised as
`shop.test` and delivered as `admin.test`. -/
theorem second_host_delivered :
    ∃ request k, (shopRun [(.host, "admin.test".toList)] []).2 = .op (.upstreamRequest request) k ∧
      HeaderMap.values request.headers .host = ["admin.test".toList] ∧
      (shopExchange [(.host, "admin.test".toList)]).host = "shop.test".toList ∧
      ¬ OneHost (shopExchange [(.host, "admin.test".toList)])
        (shopRun [(.host, "admin.test".toList)] []).1 request "shop.test".toList := by
  refine ⟨_, _, rfl, rfl, rfl, fun hone => ?_⟩
  obtain ⟨value, hvalue, -, htext⟩ := hone.delivered
  cases hvalue
  revert htext
  decide

end Shop

section Identity
variable [HttpCrate] [TlsCrate] [CaseMapping] {x : Exchange} {t : ProxyTrace}

/-- Every identity value that the upstream gets is one of the provider's response. -/
def IdentityGenuine (response : Response) (request : ForwardedRequest) : Prop :=
  ∀ name, isIdentityName name = true →
    ∀ value ∈ HeaderMap.values request.headers name,
      value ∈ HeaderMap.values response.headers name

/-- The provider's response has a value for each identity name that the client sent. -/
def CoversIdentity (response : Response) (request : Request) : Prop :=
  ∀ name, isIdentityName name = true → HeaderMap.values request.headers name ≠ [] →
    HeaderMap.values response.headers name ≠ []

theorem values_identity {request : ForwardedRequest}
    {k : Option Response → Program (Except BoxError Response)} {m : MatchedRoute}
    {response : Response} (h : Reaches (handleRequest x) t (.op (.upstreamRequest request) k))
    (hm : x.matched = some m) (hauth : m.authRequired = true)
    (haccept : AuthAccepted x t response) {name : HeaderName} (hname : isIdentityName name = true) :
    HeaderMap.values request.headers name =
      match (HeaderMap.values response.headers name).getLast? with
      | some value => [value]
      | none => HeaderMap.values x.request.headers name := by
  obtain ⟨m', authHeaders, hm', hauthorised, hrequest⟩ := permitted_of_reaches h
  obtain ⟨originalHost, forwardedFor, realIp, -, -, -, hheaders⟩ :=
    forwardedRequest_headers x hrequest
  have hsame : m' = m := Option.some.inj (hm'.symm.trans hm)
  rw [hsame, Authorised, if_pos hauth] at hauthorised
  obtain ⟨response', haccept', rfl⟩ := hauthorised
  rw [haccept.unique h haccept'] at hheaders
  rw [hheaders, values_forwardedHeaders x _ _ _ _ (isOwnName_of_identity hname),
    values_successHeaders, if_pos hname]
  cases (HeaderMap.values response.headers name).getLast? <;> rfl

/-- Client values are kept out exactly when the provider answers every identity name that
the client sent. -/
theorem identityGenuine_iff {request : ForwardedRequest}
    {k : Option Response → Program (Except BoxError Response)} {m : MatchedRoute}
    {response : Response} (h : Reaches (handleRequest x) t (.op (.upstreamRequest request) k))
    (hm : x.matched = some m) (hauth : m.authRequired = true)
    (haccept : AuthAccepted x t response) :
    IdentityGenuine response request ↔ CoversIdentity response x.request := by
  have hvalues := fun (name : HeaderName) (hname : isIdentityName name = true) =>
    values_identity h hm hauth haccept hname
  constructor
  · intro hgenuine name hname hclient hnone
    obtain ⟨value, hvalue⟩ := List.exists_mem_of_ne_nil _ hclient
    have hmem := hgenuine name hname value
    rw [hvalues name hname, hnone] at hmem
    exact List.not_mem_nil (hmem hvalue)
  · intro hcovers name hname value hvalue
    rw [hvalues name hname] at hvalue
    cases hlast : (HeaderMap.values response.headers name).getLast? with
    | some last =>
      rw [hlast] at hvalue
      rw [List.mem_singleton.mp hvalue]
      exact List.mem_of_getLast? hlast
    | none =>
      rw [hlast] at hvalue
      have hnil := List.getLast?_eq_none_iff.mp hlast
      exact absurd hnil (hcovers name hname (List.ne_nil_of_mem hvalue))

end Identity

section Shop
open ListCrates

def remoteUser : HeaderName := ⟨"remote-user".toList, by decide⟩

theorem forged_user_replaced :
    ∃ request k, (shopRun [(remoteUser, "root".toList)] [(remoteUser, "ann".toList)]).2 =
        .op (.upstreamRequest request) k ∧
      IdentityGenuine ⟨.ok, [(remoteUser, "ann".toList)], .full []⟩ request := by
  have haccept : AuthAccepted (shopExchange [(remoteUser, "root".toList)])
      (shopRun [(remoteUser, "root".toList)] [(remoteUser, "ann".toList)]).1
      ⟨.ok, [(remoteUser, "ann".toList)], .full []⟩ :=
    ⟨rfl, _, ⟨_, _, rfl, rfl, rfl⟩, List.mem_of_getElem? (i := 2) rfl⟩
  refine ⟨_, _, rfl, ?_⟩
  refine (identityGenuine_iff (shopRun_reaches _ _) (shopExchange_matched _) rfl haccept).mpr ?_
  intro name _ hsent
  by_cases hname : remoteUser = name
  · rw [← hname]
    exact List.cons_ne_nil _ _
  · refine absurd ?_ hsent
    exact valuesOf_eq_nil (List.forall_mem_singleton.mpr hname)

/-- A provider that accepts without naming a user lets the client's name through. -/
theorem forged_user_delivered :
    ∃ request k, (shopRun [(remoteUser, "root".toList)] []).2 = .op (.upstreamRequest request) k ∧
      HeaderMap.values request.headers remoteUser = ["root".toList] ∧
      ¬ IdentityGenuine ⟨.ok, ([] : List (HeaderName × Str)), .full []⟩ request := by
  refine ⟨_, _, rfl, rfl, fun hgenuine => ?_⟩
  have hmem := hgenuine remoteUser (by decide) "root".toList (.head _)
  cases hmem

end Shop

section Credentials
variable [HttpCrate] [TlsCrate] [CaseMapping] {x : Exchange} {t : ProxyTrace}
variable {p : Program (Except BoxError Response)}

/-- The provider is asked with the client's values of `name`, and they are forwarded. -/
structure JudgedAsSent (x : Exchange) (t : ProxyTrace) (sub : AuthRequest) (name : HeaderName) :
    Prop where
  asked : HeaderMap.values sub.headers name = HeaderMap.values x.request.headers name
  forwarded : ∀ request answer,
    (⟨.upstreamRequest request, answer⟩ : (e : Effect) × e.Reply) ∈ t →
      HeaderMap.values request.headers name = HeaderMap.values x.request.headers name

theorem forwarded_as_sent {request : ForwardedRequest} {answer : Option Response}
    (h : Reaches (handleRequest x) t p)
    (hmem : (⟨.upstreamRequest request, answer⟩ : (e : Effect) × e.Reply) ∈ t) {name : HeaderName}
    (hown : isOwnName name = false) (hidentity : isIdentityName name = false) :
    HeaderMap.values request.headers name = HeaderMap.values x.request.headers name := by
  obtain ⟨t₁, t₂, -, m, authHeaders, -, hauth, hrequest⟩ := permitted_of_mem h hmem
  obtain ⟨originalHost, forwardedFor, realIp, -, -, -, hheaders⟩ :=
    forwardedRequest_headers x hrequest
  rw [hheaders, values_forwardedHeaders x _ _ _ _ hown, hauth.values_eq_nil hidentity]
  rfl

/-- A credential is judged as the upstream will see it exactly when the client sent at most
one value of it. -/
theorem judgedAsSent_iff {sub : AuthRequest} {answer : Option Response}
    (h : Reaches (handleRequest x) t p)
    (hmem : (⟨.authRequest sub, answer⟩ : (e : Effect) × e.Reply) ∈ t) {name : HeaderName}
    (hname : name ∈ credentialNames) :
    JudgedAsSent x t sub name ↔ (HeaderMap.values x.request.headers name).length ≤ 1 := by
  have hother : ∀ n ∈ credentialNames, isOwnName n = false ∧ isIdentityName n = false := by decide
  obtain ⟨hown, hidentity⟩ := hother name hname
  obtain ⟨t₁, t₂, -, ⟨provider, authUri, -, -, hsub⟩, -⟩ := permitted_of_mem h hmem
  have hasked := values_authSubRequest_credential hsub hname
  rw [← List.take_eq_self_iff, List.take_one]
  constructor
  · intro hjudged
    exact hasked.symm.trans hjudged.asked
  · intro hfirst
    refine ⟨hasked.trans hfirst, fun request answer hmem => ?_⟩
    exact forwarded_as_sent h hmem hown hidentity

end Credentials

section Shop
open ListCrates

def oneCookie : List (HeaderName × Str) := [(.cookie, "session=a".toList)]

def twoCookies : List (HeaderName × Str) :=
  [(.cookie, "session=a".toList), (.cookie, "session=b".toList)]

theorem one_cookie_judged :
    ∃ sub answer, (⟨.authRequest sub, answer⟩ : (e : Effect) × e.Reply) ∈ (shopRun oneCookie []).1 ∧
      JudgedAsSent (shopExchange oneCookie) (shopRun oneCookie []).1 sub .cookie := by
  refine ⟨_, _, List.mem_of_getElem? (i := 2) rfl, ?_⟩
  refine (judgedAsSent_iff (shopRun_reaches oneCookie []) (List.mem_of_getElem? (i := 2) rfl)
    (.head _)).mpr ?_
  decide

/-- Of two `Cookie` fields the provider sees the first, and the upstream is about to get
both. -/
theorem second_cookie_unjudged :
    ∃ sub answer request k,
      (shopRun twoCookies []).1[2]? = some ⟨.authRequest sub, answer⟩ ∧
      (shopRun twoCookies []).2 = .op (.upstreamRequest request) k ∧
      HeaderMap.values sub.headers .cookie = ["session=a".toList] ∧
      HeaderMap.values request.headers .cookie = ["session=a".toList, "session=b".toList] ∧
      ¬ JudgedAsSent (shopExchange twoCookies) (shopRun twoCookies []).1 sub .cookie := by
  refine ⟨_, _, _, _, rfl, rfl, rfl, rfl, fun hjudged => ?_⟩
  have hasked := hjudged.asked
  change ["session=a".toList] = ["session=a".toList, "session=b".toList] at hasked
  cases hasked

end Shop

end BarebonesProxy.Proxy
