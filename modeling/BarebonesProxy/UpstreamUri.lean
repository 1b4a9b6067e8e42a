import BarebonesProxy.ForwardedHeaders
import BarebonesProxy.RoutePaths
import BarebonesProxy.UriText

set_option autoImplicit false

/-!
# The URI of the upstream

`handle_request` writes the URI of the forwarded request as a text and parses it. The path
follows the address with nothing in between, so the address ends there only if the path
brings a delimiter. The scheme of the text is `http` for every route.
-/
namespace BarebonesProxy.Routing
open RustStrings ProxyConfig

section Texts
variable {host path : Str} {route : Route}

/-- The text that `handle_request` parses to the URI of the forwarded request. -/
def upstreamText (m : MatchedRoute) (query : Option Str) : Str :=
  "http://".toList ++ m.upstreamAddr ++
    match query with
    | some query => m.rewrittenPath ++ "?".toList ++ query
    | none => m.rewrittenPath

/-- A path as `Uri::path` gives it. -/
def IsUriPath (path : Str) : Prop := path = [] ∨ path = "*".toList ∨ "/".toList <+: path

theorem extractHostPort_cases (endpoint : Str) :
    (':' ∈ authority endpoint ∧ extractHostPort endpoint = authority endpoint) ∨
      ':' ∉ authority endpoint ∧ extractHostPort endpoint = authority endpoint ++
        if startsWith endpoint "https://".toList then ":443".toList else ":80".toList := by
  have hcontains : contains (splitFirst (withoutScheme endpoint) '/') ":".toList = true ↔
      ':' ∈ authority endpoint := contains_singleton
  unfold extractHostPort
  dsimp only
  by_cases hcolon : ':' ∈ authority endpoint
  · exact .inl ⟨hcolon, if_pos (hcontains.mpr hcolon)⟩
  · refine .inr ⟨hcolon, (if_neg (mt hcontains.mp hcolon)).trans ?_⟩
    split <;> rfl

theorem delimiter_free_address {endpoint : Str}
    (h : ∀ c ∈ authority endpoint, UriText.isDelimiter c = false) :
    ∀ c ∈ extractHostPort endpoint, UriText.isDelimiter c = false := by
  intro c hc
  rcases extractHostPort_cases endpoint with ⟨-, heq⟩ | ⟨-, heq⟩
  · exact h c (heq ▸ hc)
  · have hports : ∀ c ∈ ":443".toList ++ ":80".toList, UriText.isDelimiter c = false :=
      List.forall_iff_forall_mem.mp (by decide)
    rw [heq] at hc
    rcases List.mem_append.mp hc with hc | hc
    · exact h c hc
    · refine hports c (List.mem_append.mpr ?_)
      split at hc
      · exact .inl hc
      · exact .inr hc

/-- Only the asterisk is forwarded as something else than a path or nothing. -/
theorem rewritten_cases (hpath : IsUriPath path) (route : Route) :
    (path = "*".toList ∧ rewritten route path = "*".toList) ∨
      path ≠ "*".toList ∧ (rewritten route path = [] ∨ "/".toList <+: rewritten route path) := by
  by_cases hstarts : extractPath route.requestEndpoint <+: path
  · refine .inr ⟨?_, .inr ?_⟩
    · rintro rfl
      exact absurd ((slash_prefix_extractPath _).trans hstarts) (by decide)
    · rw [rewritten_eq hstarts]
      exact (slash_prefix_extractPath _).trans (List.prefix_append ..)
  · have hfallback : rewritten route path = path :=
      if_neg (mt List.isPrefixOf_iff_prefix.mp hstarts)
    rw [hfallback]
    rcases hpath with rfl | rfl | hslash
    · exact .inr ⟨by decide, .inl rfl⟩
    · exact .inl ⟨rfl, rfl⟩
    · refine .inr ⟨?_, .inr hslash⟩
      rintro rfl
      exact absurd hslash (by decide)

/-- The authority of the text is the address and what the path brings before a delimiter. -/
theorem authority_upstreamText (haddr : ∀ c ∈ authority route.forwardEndpoint,
      UriText.isDelimiter c = false) (hpath : IsUriPath path) (query : Option Str) :
    UriText.authority (upstreamText (.of route path) query) =
      extractHostPort route.forwardEndpoint ++ if path = "*".toList then "*".toList else [] := by
  refine (UriText.authority_append (delimiter_free_address haddr) _).trans ?_
  congr 1
  change List.takeWhile _ (match query with
    | some query => rewritten route path ++ "?".toList ++ query
    | none => rewritten route path) = _
  rcases rewritten_cases hpath route with ⟨hstar, heq⟩ | ⟨hne, heq | ⟨rest, heq⟩⟩
  · rw [if_pos hstar, heq]
    cases query <;> rfl
  · rw [if_neg hne, heq]
    cases query <;> rfl
  · rw [if_neg hne, ← heq]
    cases query <;> rfl

/-- A request that reaches the route adds nothing to the upstream's authority unless its
path is the asterisk. -/
theorem authority_kept_iff (r : Router) (hselected : r.selected host path = some route)
    (haddr : ∀ c ∈ authority route.forwardEndpoint, UriText.isDelimiter c = false)
    (hpath : IsUriPath path) (query : Option Str) :
    r.matchRoute host path = some (.of route path) ∧
      (UriText.authority (upstreamText (.of route path) query) =
        (MatchedRoute.of route path).upstreamAddr ↔ path ≠ "*".toList) := by
  refine ⟨by simp [Router.matchRoute, hselected], ?_⟩
  rw [authority_upstreamText haddr hpath]
  change extractHostPort route.forwardEndpoint ++ _ = extractHostPort route.forwardEndpoint ↔ _
  rw [List.append_right_eq_self]
  split
  · next hstar => exact iff_of_false (by decide) fun hne => hne hstar
  · next hne => exact iff_of_true rfl hne

section Example

theorem site_authority_kept :
    (siteRouter "http://a").selected "a".toList "/x".toList = some (siteRoute "http://a") ∧
      upstreamText (.of (siteRoute "http://a") "/x".toList) (some "@evil".toList) =
        "http://b:80/x?@evil".toList ∧
      UriText.authority (upstreamText (.of (siteRoute "http://a") "/x".toList)
        (some "@evil".toList)) = "b:80".toList := by
  have hselected : (siteRouter "http://a").selected "a".toList "/x".toList =
      some (siteRoute "http://a") := by decide
  have hkept := authority_kept_iff (siteRouter "http://a") hselected
    (List.forall_iff_forall_mem.mp (by decide)) (.inr (.inr (by decide))) (some "@evil".toList)
  exact ⟨hselected, by decide, hkept.2.mpr (by decide)⟩

/-- The target of `OPTIONS *` is written right after the port. -/
theorem asterisk_joins_authority :
    (siteRouter "http://a").selected "a".toList "*".toList = some (siteRoute "http://a") ∧
      upstreamText (.of (siteRoute "http://a") "*".toList) none = "http://b:80*".toList ∧
      UriText.authority (upstreamText (.of (siteRoute "http://a") "*".toList) none) =
        "b:80*".toList ∧
      (MatchedRoute.of (siteRoute "http://a") "*".toList).upstreamAddr = "b:80".toList := by
  decide

end Example

end Texts

section Schemes
variable {path : Str} {route : Route}

/-- The URI has the scheme of the endpoint, and the port of that scheme if the endpoint
names none. -/
structure KeepsScheme (endpoint text : Str) : Prop where
  scheme : UriText.scheme text = UriText.scheme endpoint
  port : UriText.port (UriText.authority endpoint) = none →
    UriText.effectivePort text = UriText.defaultPort (UriText.scheme endpoint)

theorem uriAuthority_http (hplain : "http://".toList <+: route.forwardEndpoint) :
    UriText.authority route.forwardEndpoint =
      (authority route.forwardEndpoint ++ pathPart route.forwardEndpoint).takeWhile
        (!UriText.isDelimiter ·) := by
  obtain ⟨rest, hendpoint⟩ := hplain
  rw [authority_append_pathPart, ← hendpoint, withoutScheme_http, UriText.authority_http]

theorem uriAuthority_of_delimiter_free (hplain : "http://".toList <+: route.forwardEndpoint)
    (haddr : ∀ c ∈ authority route.forwardEndpoint, UriText.isDelimiter c = false) :
    UriText.authority route.forwardEndpoint = authority route.forwardEndpoint := by
  have hhead : ∀ c ∈ (pathPart route.forwardEndpoint).head?, UriText.isDelimiter c = true := by
    rcases pathPart_cases route.forwardEndpoint with hnil | ⟨tail, hslash⟩
    · simp [hnil]
    · simp [hslash, UriText.isDelimiter]
  have hkept := (UriText.authority_append_iff haddr).mpr hhead
  rw [List.append_assoc, UriText.authority_http, ← uriAuthority_http hplain] at hkept
  exact hkept

/-- An address with a delimiter in it gives the text the authority of the endpoint. -/
theorem uriAuthority_of_delimiter (hplain : "http://".toList <+: route.forwardEndpoint)
    (haddr : ¬ ∀ c ∈ authority route.forwardEndpoint, UriText.isDelimiter c = false)
    (query : Option Str) :
    UriText.authority (upstreamText (.of route path) query) =
      UriText.authority route.forwardEndpoint := by
  have hdelimiter : ∃ c ∈ authority route.forwardEndpoint,
      (!UriText.isDelimiter c) = false := by simpa using haddr
  rw [uriAuthority_http hplain, UriText.takeWhile_append_of_exists _ hdelimiter]
  unfold upstreamText
  rw [List.append_assoc, UriText.authority_http]
  change List.takeWhile _ (extractHostPort route.forwardEndpoint ++ _) = _
  rcases extractHostPort_cases route.forwardEndpoint with ⟨-, heq⟩ | ⟨-, heq⟩
  · rw [heq, UriText.takeWhile_append_of_exists _ hdelimiter]
  · rw [heq, List.append_assoc, UriText.takeWhile_append_of_exists _ hdelimiter]

theorem port_upstreamText (hplain : "http://".toList <+: route.forwardEndpoint)
    (hnone : UriText.port (UriText.authority route.forwardEndpoint) = none) (hpath : IsUriPath path)
    (query : Option Str) :
    UriText.port (UriText.authority (upstreamText (.of route path) query)) = none ∨
      UriText.port (UriText.authority (upstreamText (.of route path) query)) = some 80 := by
  by_cases haddr : ∀ c ∈ authority route.forwardEndpoint, UriText.isDelimiter c = false
  · rw [uriAuthority_of_delimiter_free hplain haddr] at hnone
    rw [authority_upstreamText haddr hpath]
    split
    · exact .inl (UriText.port_concat (by decide) _)
    · rw [List.append_nil]
      rcases extractHostPort_cases route.forwardEndpoint with ⟨-, heq⟩ | ⟨-, heq⟩
      · exact .inl (heq ▸ hnone)
      · have hhttp : startsWith route.forwardEndpoint "https://".toList = false := by
          obtain ⟨rest, hendpoint⟩ := hplain
          rw [← hendpoint]
          rfl
        rw [heq, hhttp]
        exact .inr (UriText.port_append_eighty _)
  · rw [uriAuthority_of_delimiter hplain haddr]
    exact .inl hnone

/-- An `http` endpoint that names no port is contacted at port 80. -/
theorem effectivePort_http (hplain : "http://".toList <+: route.forwardEndpoint)
    (hnone : UriText.port (UriText.authority route.forwardEndpoint) = none) (hpath : IsUriPath path)
    (query : Option Str) :
    UriText.effectivePort (upstreamText (.of route path) query) = 80 := by
  unfold UriText.effectivePort
  rcases port_upstreamText hplain hnone hpath query with hport | hport
  · rw [hport]
    rfl
  · rw [hport]
    rfl

theorem keepsScheme_iff (hscheme : HasScheme route.forwardEndpoint) (hpath : IsUriPath path)
    (query : Option Str) :
    KeepsScheme route.forwardEndpoint (upstreamText (.of route path) query) ↔
      "http://".toList <+: route.forwardEndpoint := by
  have htext : UriText.scheme (upstreamText (.of route path) query) = "http".toList := by
    unfold upstreamText
    rw [List.append_assoc]
    exact UriText.scheme_http _
  constructor
  · intro hkeeps
    refine hscheme.resolve_right fun hsecure => ?_
    obtain ⟨rest, hendpoint⟩ := hsecure
    have hsame := hkeeps.scheme
    rw [htext, ← hendpoint, UriText.scheme_https] at hsame
    exact absurd hsame (by decide)
  · intro hplain
    have hendpoint : UriText.scheme route.forwardEndpoint = "http".toList := by
      obtain ⟨rest, hendpoint⟩ := hplain
      rw [← hendpoint]
      exact UriText.scheme_http rest
    refine ⟨htext.trans hendpoint.symm, fun hnone => ?_⟩
    rw [effectivePort_http hplain hnone hpath, hendpoint]
    rfl

end Schemes

end BarebonesProxy.Routing

namespace BarebonesProxy.Proxy
open RustNet RustStrings ProxyConfig Routing Http RuntimeConfig EffectPrograms

section Sent
variable [HttpCrate] [TlsCrate] {x : Exchange} {t : ProxyTrace}

theorem upstreamUri_parsed {m : MatchedRoute} {uri : Uri} (h : x.upstreamUri m = .ok uri) :
    HttpCrate.parseUri (upstreamText m x.request.uri.query) = some uri := by
  unfold Exchange.upstreamUri at h
  dsimp only at h
  split at h
  · next hparse =>
    cases h
    exact hparse
  · cases h

/-- A request that is sent to the upstream keeps the scheme of its route exactly if that is
`http`. -/
theorem sent_scheme_iff [CaseMapping] {request : ForwardedRequest}
    {k : Option Response → Program (Except BoxError Response)}
    (h : Reaches (handleRequest x) t (.op (.upstreamRequest request) k)) {route : Route}
    (hselected : x.config.router.selected x.host x.path = some route)
    (hscheme : HasScheme route.forwardEndpoint) (hpath : IsUriPath x.path) :
    HttpCrate.parseUri (upstreamText (.of route x.path) x.request.uri.query) = some request.uri ∧
      (KeepsScheme route.forwardEndpoint (upstreamText (.of route x.path) x.request.uri.query) ↔
        "http://".toList <+: route.forwardEndpoint) := by
  obtain ⟨m, headers, hm, -, hforwarded⟩ := permitted_of_reaches h
  obtain ⟨uri, _, _, _, huri, -, -, -, rfl⟩ := forwardedRequest_ok hforwarded
  have hmatched : x.matched = some (.of route x.path) := by
    unfold Exchange.matched Router.matchRoute
    rw [hselected]
    rfl
  have hroute : m = .of route x.path := Option.some.inj (hm.symm.trans hmatched)
  rw [hroute] at huri
  exact ⟨upstreamUri_parsed huri, keepsScheme_iff hscheme hpath _⟩

end Sent

section Example
open ListCrates

def gatewayText (upstream : String) : String :=
  "listen 8080;\nroute http://a/ \x7b\nupstream " ++ upstream ++ ";\n\x7d\n"

def gatewayRoute (upstream : String) : Route :=
  ⟨"http://a/".toList, upstream.toList, false, none, none, none, none⟩

def gatewayExchange (upstream : String) : Exchange where
  config := { shopConfig with router := ⟨[gatewayRoute upstream]⟩, authProvider := none }
  peerAddr := ⟨.v4 ⟨10, 0, 0, 1⟩, 4000⟩
  isProxyProtocol := false
  request := ⟨.get, ⟨some "a".toList, some "/x?y".toList⟩, [], .full []⟩

def gatewayRun (upstream : String) : ProxyTrace × Program (Except BoxError Response) :=
  follow (shopAnswer []) 2 (handleRequest (gatewayExchange upstream))

theorem gatewayRun_reaches (upstream : String) :
    Reaches (handleRequest (gatewayExchange upstream)) (gatewayRun upstream).1
      (gatewayRun upstream).2 := reaches_follow _ _ _

theorem plain_upstream_scheme :
    ∃ request k, (gatewayRun "http://b").2 = .op (.upstreamRequest request) k ∧
      request.uri = ⟨some "b:80".toList, some "/x?y".toList⟩ ∧
      KeepsScheme "http://b".toList "http://b:80/x?y".toList := by
  have hselected : (gatewayExchange "http://b").config.router.selected
      (gatewayExchange "http://b").host (gatewayExchange "http://b").path =
        some (gatewayRoute "http://b") := by decide
  refine ⟨_, _, rfl, rfl, ?_⟩
  exact (sent_scheme_iff (gatewayRun_reaches "http://b") hselected (.inl (by decide))
    (.inr (.inr (by decide)))).2.mpr (by decide)

/-- A route to an HTTPS upstream is accepted, and its requests go in clear to port 443. -/
theorem secure_upstream_in_clear :
    (ConfigParser.parseProxyConfig (some 2) (gatewayText "https://b").toList).map Config.routes =
        .ok [gatewayRoute "https://b"] ∧
      (∃ request k, (gatewayRun "https://b").2 = .op (.upstreamRequest request) k ∧
        HttpCrate.parseUri "http://b:443/x?y".toList = some request.uri) ∧
      upstreamText (.of (gatewayRoute "https://b") "/x".toList) (some "y".toList) =
        "http://b:443/x?y".toList ∧
      UriText.scheme "http://b:443/x?y".toList = "http".toList ∧
      ¬ KeepsScheme "https://b".toList "http://b:443/x?y".toList := by
  refine ⟨by decide +kernel, ⟨_, _, rfl, rfl⟩, by decide, by decide, fun hkeeps => ?_⟩
  exact absurd hkeeps.scheme (by decide)

end Example

end BarebonesProxy.Proxy
