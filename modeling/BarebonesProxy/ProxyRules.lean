import BarebonesProxy.Proxy

set_option autoImplicit false

/-!
# What a request may do, and after what

`Allowed` says for every operation of `handle_request` what it is performed with and what
has happened before it, and `Concludes` with what it may end after that. `handleRequest_wp`
proves both for every answer of the surroundings, and the facts about traces follow from it.
-/
namespace BarebonesProxy.Proxy
open RustNet RustStrings ProxyConfig Routing Http Cache RuntimeConfig ErrorPages EffectPrograms
open Handler

section Traces
variable [HttpCrate]

def isHit : ((e : Effect) × e.Reply) → Bool
  | ⟨.cacheGet _ _, some _⟩ => true
  | _ => false

def isSent : ((e : Effect) × e.Reply) → Bool
  | ⟨.authRequest _, _⟩ => true
  | ⟨.upstreamRequest _, _⟩ => true
  | _ => false

/-- The security manager turns the request away. -/
def isRefusal : ((e : Effect) × e.Reply) → Bool
  | ⟨.isBlacklisted _ _, true⟩ => true
  | ⟨.checkAndRecordRequest _ _, .error _⟩ => true
  | _ => false

def NoRefusal (t : ProxyTrace) : Prop := ∀ s ∈ t, isRefusal s = false

def NoHit (t : ProxyTrace) : Prop := ∀ s ∈ t, isHit s = false

def NothingSent (t : ProxyTrace) : Prop := ∀ s ∈ t, isSent s = false

def Fetched (t : ProxyTrace) (response : Response) : Prop :=
  ∃ request, (⟨.upstreamRequest request, some response⟩ : (e : Effect) × e.Reply) ∈ t

/-- The state of a request up to its lookup in the cache. -/
structure Early (t : ProxyTrace) : Prop where
  unrefused : NoRefusal t
  missed : NoHit t
  unsent : NothingSent t

theorem never_push {kind : ((e : Effect) × e.Reply) → Bool} {t : ProxyTrace}
    {s : (e : Effect) × e.Reply} (h : ∀ x ∈ t, kind x = false) (hs : kind s = false) :
    ∀ x ∈ t ++ [s], kind x = false :=
  List.forall_mem_append.mpr ⟨h, List.forall_mem_singleton.mpr hs⟩

theorem Early.push {t : ProxyTrace} {s : (e : Effect) × e.Reply} (h : Early t)
    (hrefusal : isRefusal s = false) (hhit : isHit s = false) (hsent : isSent s = false) :
    Early (t ++ [s]) :=
  ⟨never_push h.unrefused hrefusal, never_push h.missed hhit, never_push h.unsent hsent⟩

theorem NothingSent.unasked {t : ProxyTrace} (h : NothingSent t) (request : AuthRequest)
    (answer : Option Response) :
    (⟨.authRequest request, answer⟩ : (e : Effect) × e.Reply) ∉ t := by
  intro hmem
  exact absurd (h _ hmem) (by simp [isSent])

theorem exists_hit {t : ProxyTrace} (h : ¬ NoHit t) :
    ∃ engine key asset, (⟨.cacheGet engine key, some asset⟩ : (e : Effect) × e.Reply) ∈ t := by
  by_contra hnone
  apply h
  intro x hx
  obtain ⟨e, reply⟩ := x
  cases e with
  | cacheGet engine key =>
    cases reply with
    | none => rfl
    | some asset => exact absurd ⟨engine, key, asset, hx⟩ hnone
  | _ => rfl

theorem not_noHit_of_hit {t t' : ProxyTrace} {engine : ℕ} {key : Str} {asset : CachedAsset}
    (ht : t = t' ++ [⟨.cacheGet engine key, some asset⟩]) : ¬ NoHit t := by
  intro hmissed
  rw [ht] at hmissed
  exact absurd (hmissed _ (List.mem_append_right _ (.head _))) (by simp [isHit])

end Traces

section Forwarding
variable [HttpCrate] [TlsCrate] {x : Exchange}

theorem forwardedRequest_ok {m : MatchedRoute} {authHeaders : HeaderMap}
    {request : ForwardedRequest} (h : x.forwardedRequest m authHeaders = .ok request) :
    ∃ uri originalHost forwardedFor realIp, x.upstreamUri m = .ok uri ∧
      x.originalHost = .ok originalHost ∧ x.forwardedFor = .ok forwardedFor ∧
      x.realIp = .ok realIp ∧
      request = {
        method := x.request.method
        uri
        headers := x.forwardedHeaders authHeaders originalHost forwardedFor realIp
        bodyLimit := x.maxBodySize
        body := x.request.body } := by
  unfold Exchange.forwardedRequest at h
  cases huri : x.upstreamUri m with
  | error e =>
    rw [huri] at h
    cases h
  | ok uri =>
  cases hhost : x.originalHost with
  | error e =>
    rw [huri, hhost] at h
    cases h
  | ok originalHost =>
  cases hfor : x.forwardedFor with
  | error e =>
    rw [huri, hhost, hfor] at h
    cases h
  | ok forwardedFor =>
  cases hreal : x.realIp with
  | error e =>
    rw [huri, hhost, hfor, hreal] at h
    cases h
  | ok realIp =>
    rw [huri, hhost, hfor, hreal] at h
    cases h
    exact ⟨uri, originalHost, forwardedFor, realIp, rfl, rfl, rfl, rfl, rfl⟩

end Forwarding

section Headers
variable [HttpCrate]

def securityHeaders : List (HeaderName × HeaderValue) := [
  (.strictTransportSecurity,
    HttpCrate.fromStatic "max-age=63072000; includeSubDomains; preload".toList),
  (.xContentTypeOptions, HttpCrate.fromStatic "nosniff".toList),
  (.xFrameOptions, HttpCrate.fromStatic "DENY".toList),
  (.xXssProtection, HttpCrate.fromStatic "0".toList)]

/-- The security headers are set, each to the value of the proxy alone. -/
def Secured (headers : HeaderMap) : Prop :=
  ∀ e ∈ securityHeaders, HeaderMap.values headers e.1 = [e.2]

theorem secured_inject (headers : HeaderMap) : Secured (injectSecurityHeaders headers) := by
  intro e he
  have hlast : (valuesOf e.1 securityHeaders).getLast? = some e.2 := by
    simp only [securityHeaders, List.mem_cons, List.not_mem_nil, or_false] at he
    rcases he with rfl | rfl | rfl | rfl
    all_goals rfl
  change HeaderMap.values (HeaderMap.insertAll headers securityHeaders) e.1 = [e.2]
  rw [HeaderMap.values_insertAll, hlast]

end Headers

section Rules
variable [HttpCrate] [TlsCrate] (x : Exchange)

def AuthAsked (request : AuthRequest) : Prop :=
  ∃ provider authUri, x.config.authProvider = some provider ∧
    HttpCrate.parseUri provider.authUrl = some authUri ∧
    authSubRequest authUri x.clientIp x.request.method x.request.uri x.request.headers =
      .ok request

def AuthAccepted (t : ProxyTrace) (response : Response) : Prop :=
  response.status.isSuccess = true ∧ ∃ request, AuthAsked x request ∧
    (⟨.authRequest request, some response⟩ : (e : Effect) × e.Reply) ∈ t

/-- The route needs no authentication, or the provider has accepted the request and the
headers are the ones it gave. -/
def Authorised (m : MatchedRoute) (t : ProxyTrace) (headers : HeaderMap) : Prop :=
  if m.authRequired then ∃ response, AuthAccepted x t response ∧ headers = successHeaders response
  else headers = HttpCrate.empty

variable [CaseMapping]

def Permitted (t : ProxyTrace) : Effect → Prop
  | .isBlacklisted manager ip | .checkAndRecordRequest manager ip =>
    manager = x.config.securityManager ∧ IpAddr.parse x.clientIp = some ip
  | .recordTlsFailure _ _ | .tlsHandshake => False
  | .cacheGet engine key => x.cacheEngine = some engine ∧ key = x.cacheKey ∧ NothingSent t
  | .maxFileSizeBytes engine => x.cacheEngine = some engine
  | .authRequest request => AuthAsked x request ∧ NothingSent t ∧
      ∃ m, x.matched = some m ∧ m.authRequired = true
  | .upstreamRequest request => ∃ m headers, x.matched = some m ∧ Authorised x m t headers ∧
      x.forwardedRequest m headers = .ok request
  | .spawnInsert insertion => ∃ engine response body, x.cacheEngine = some engine ∧
      Fetched t response ∧ isStorable x response = true ∧ response.body.collect = some body ∧
      insertion = insertionOf x engine response body
  | .spawnTunnel upstreamAddr => ∃ m, x.matched = some m ∧ upstreamAddr = m.upstreamAddr

/-- Nothing at all follows a cache hit. -/
def Allowed (t : ProxyTrace) (e : Effect) : Prop := NoHit t ∧ Permitted x t e

/-- No check before the routing turns the request away. -/
def Admitted (t : ProxyTrace) : Prop := x.payloadTooLarge = false ∧ NoRefusal t

/-- The request was admitted, not found in the cache, and accepted if its route asks for it. -/
structure Passed (t : ProxyTrace) : Prop where
  admitted : Admitted x t
  missed : NoHit t
  accepted : ∀ m, x.matched = some m → m.authRequired = true → ∃ response, AuthAccepted x t response

def refusals : List Response :=
  [noResponse444,
    x.rateLimitPage,
    x.errorResponse .payloadTooLarge .payloadTooLarge]

/-- The ways in which a request ends. -/
inductive Concludes (t : ProxyTrace) : Except BoxError Response → Prop
  | refused {response : Response} (hrefused : ¬ Admitted x t) (hmissed : NoHit t)
      (hunsent : NothingSent t) (hresponse : response ∈ refusals x) : Concludes t (.ok response)
  | hit {t' : ProxyTrace} {engine : ℕ} {asset : CachedAsset}
      (ht : t = t' ++ [⟨.cacheGet engine x.cacheKey, some asset⟩]) (hunsent : NothingSent t') :
      Concludes t (.ok (hitResponse asset))
  | unanswered {m : MatchedRoute} {message : ErrorMessage} (hm : x.matched = some m)
      (hauth : m.authRequired = true) (hmissed : NoHit t)
      (hnone : ∀ request response,
        (⟨.authRequest request, some response⟩ : (e : Effect) × e.Reply) ∉ t) :
      Concludes t (.ok (x.errorResponse .internalServerError message))
  | denied {m : MatchedRoute} {request : AuthRequest} {response : Response}
      (hm : x.matched = some m) (hauth : m.authRequired = true) (hmissed : NoHit t)
      (hmem : (⟨.authRequest request, some response⟩ : (e : Effect) × e.Reply) ∈ t)
      (hdenied : response.status.isSuccess = false) : Concludes t (.ok response)
  | failed {e : BoxError} (hpassed : Passed x t) : Concludes t (.error e)
  | served {response : Response} (hpassed : Passed x t) (hsecured : Secured response.headers) :
      Concludes t (.ok response)

/-- A request ends with a hit before anything is sent, or without a hit. -/
def EndsAtHit (t : ProxyTrace) (result : Except BoxError Response) : Prop :=
  NoHit t ∨ ∃ t' engine asset, t = t' ++ [⟨.cacheGet engine x.cacheKey, some asset⟩] ∧
    NothingSent t' ∧ result = .ok (hitResponse asset)

end Rules

section Conclusions
variable [HttpCrate] [TlsCrate] {x : Exchange} {t : ProxyTrace}

theorem Concludes.endsAtHit {result : Except BoxError Response} (h : Concludes x t result) :
    EndsAtHit x t result := by
  cases h with
  | refused _ hmissed => exact .inl hmissed
  | hit ht hunsent => exact .inr ⟨_, _, _, ht, hunsent, rfl⟩
  | unanswered _ _ hmissed => exact .inl hmissed
  | denied _ _ hmissed => exact .inl hmissed
  | failed hpassed => exact .inl hpassed.missed
  | served hpassed => exact .inl hpassed.missed

theorem AuthAccepted.append {response : Response} (h : AuthAccepted x t response)
    (t' : ProxyTrace) : AuthAccepted x (t ++ t') response := by
  obtain ⟨hsuccess, request, hasked, hmem⟩ := h
  exact ⟨hsuccess, request, hasked, List.mem_append_left _ hmem⟩

/-- A step that neither refuses nor hits changes nothing for a request that has passed. -/
theorem Passed.push {s : (e : Effect) × e.Reply} (h : Passed x t) (hrefusal : isRefusal s = false)
    (hhit : isHit s = false) : Passed x (t ++ [s]) := by
  refine ⟨⟨h.admitted.1, never_push h.admitted.2 hrefusal⟩, never_push h.missed hhit,
    fun m hm hauth => ?_⟩
  obtain ⟨response, haccepted⟩ := h.accepted m hm hauth
  exact ⟨response, haccepted.append [s]⟩

theorem refused_last {s : (e : Effect) × e.Reply} (hs : isRefusal s = true) :
    ¬ Admitted x (t ++ [s]) := by
  intro hadmitted
  rw [hadmitted.2 s (List.mem_append_right _ (.head _))] at hs
  cases hs

end Conclusions

section Stages
variable [HttpCrate] [TlsCrate] [CaseMapping] {x : Exchange} {t : ProxyTrace}

theorem checkBlacklist_wp {ip : IpAddr} (hip : IpAddr.parse x.clientIp = some ip) (h : Early t) :
    wpH (Allowed x) (Concludes x) (fun t _ => Early t) (checkBlacklist x ip) t := by
  unfold checkBlacklist
  rw [wpH_bind]
  refine ⟨⟨h.missed, rfl, hip⟩, fun banned => ?_⟩
  cases banned with
  | true =>
    exact .refused (refused_last rfl) (never_push h.missed rfl) (never_push h.unsent rfl) (.head _)
  | false => exact h.push rfl rfl rfl

theorem checkRateLimit_wp {ip : IpAddr} (hip : IpAddr.parse x.clientIp = some ip) (h : Early t) :
    wpH (Allowed x) (Concludes x) (fun t _ => Early t) (checkRateLimit x ip) t := by
  unfold checkRateLimit
  rw [wpH_bind]
  refine ⟨⟨h.missed, rfl, hip⟩, fun counted => ?_⟩
  cases counted with
  | error count =>
    exact .refused (refused_last rfl) (never_push h.missed rfl) (never_push h.unsent rfl)
      (.tail _ (.head _))
  | ok count => exact h.push rfl rfl rfl

theorem admission_wp (h : Early t) :
    wpH (Allowed x) (Concludes x) (fun t _ => Early t ∧ x.payloadTooLarge = false)
      (admission x) t := by
  have hclient : wpH (Allowed x) (Concludes x) (fun t _ => Early t) (checkClient x) t := by
    unfold checkClient
    split
    · exact h
    · next ip hip =>
      rw [wpH_bind]
      refine wpH_mono ?_ (checkBlacklist_wp hip h)
      intro t _ ht
      exact checkRateLimit_wp hip ht
  unfold admission
  rw [wpH_bind]
  refine wpH_mono ?_ hclient
  intro t _ ht
  unfold checkBodySize
  split
  · next hlarge =>
    refine .refused ?_ ht.missed ht.unsent (.tail _ (.tail _ (.head _)))
    intro hadmitted
    rw [hadmitted.1] at hlarge
    cases hlarge
  · next hsmall => exact ⟨ht, by simpa using hsmall⟩

theorem lookup_wp (h : Early t) :
    wpH (Allowed x) (Concludes x) (fun t _ => Early t) (lookup x) t := by
  unfold lookup
  split
  · exact h
  · next engine hengine =>
    rw [wpH_bind]
    refine ⟨⟨h.missed, hengine, rfl, h.unsent⟩, fun found => ?_⟩
    cases found with
    | none => exact h.push rfl rfl rfl
    | some asset => exact .hit rfl h.unsent

/-- What is known of the trace when the provider has given its verdict. -/
def Judged (x : Exchange) (t : ProxyTrace) : AuthResult → Prop
  | .success headers => ∃ response, AuthAccepted x t response ∧ headers = successHeaders response
  | .denied response => response.status.isSuccess = false ∧ ∃ request,
      (⟨.authRequest request, some response⟩ : (e : Effect) × e.Reply) ∈ t

theorem authenticate_wp {provider : ForwardAuthProvider} {m : MatchedRoute}
    (hprovider : x.config.authProvider = some provider) (hm : x.matched = some m)
    (hauth : m.authRequired = true) (h : Early t) :
    wpH (Allowed x)
      (fun t _ => NoHit t ∧ ∀ request response,
        (⟨.authRequest request, some response⟩ : (e : Effect) × e.Reply) ∉ t)
      (fun t result => NoRefusal t ∧ NoHit t ∧ Judged x t result)
      (authenticate provider x.clientIp x.request.method x.request.uri x.request.headers) t := by
  have hunasked : NoHit t ∧ ∀ request response,
      (⟨.authRequest request, some response⟩ : (e : Effect) × e.Reply) ∉ t :=
    ⟨h.missed, fun request response => h.unsent.unasked request (some response)⟩
  unfold authenticate
  split
  · exact hunasked
  · next authUri huri =>
    cases hsub : authSubRequest authUri x.clientIp x.request.method x.request.uri
        x.request.headers with
    | error e => exact hunasked
    | ok request =>
      have hasked : AuthAsked x request := ⟨provider, authUri, hprovider, huri, hsub⟩
      refine ⟨⟨h.missed, hasked, h.unsent, m, hm, hauth⟩, fun answer => ?_⟩
      cases answer with
      | none =>
        refine ⟨never_push h.missed rfl, fun request' response hmem => ?_⟩
        rcases List.mem_append.mp hmem with hmem | hmem
        · exact h.unsent.unasked request' _ hmem
        · cases List.mem_singleton.mp hmem
      | some response =>
        have hmem : (⟨.authRequest request, some response⟩ : (e : Effect) × e.Reply) ∈
            t ++ [⟨.authRequest request, some response⟩] := List.mem_append_right _ (.head _)
        refine ⟨never_push h.unrefused rfl, never_push h.missed rfl, ?_⟩
        unfold verdictOf
        split
        · next hsuccess => exact ⟨response, ⟨hsuccess, request, hasked, hmem⟩, rfl⟩
        · next hdenied => exact ⟨by simpa using hdenied, request, hmem⟩

theorem authorise_wp {m : MatchedRoute} (hm : x.matched = some m)
    (hsmall : x.payloadTooLarge = false) (h : Early t) :
    wpH (Allowed x) (Concludes x) (fun t headers => Passed x t ∧ Authorised x m t headers)
      (authorise x m) t := by
  unfold authorise Authorised
  by_cases hauth : m.authRequired = true
  · simp only [hauth, if_true]
    split
    · next provider hprovider =>
      rw [wpH_bind, wpH_attempt]
      refine wp_mono ?_ (authenticate_wp hprovider hm hauth h)
      intro t result hresult
      match result with
      | .ok (.success headers) =>
        obtain ⟨hrefusal, hmissed, response, haccepted, hheaders⟩ := hresult
        exact ⟨⟨⟨hsmall, hrefusal⟩, hmissed, fun _ _ _ => ⟨response, haccepted⟩⟩,
          response, haccepted, hheaders⟩
      | .ok (.denied response) =>
        obtain ⟨-, hmissed, hdenied, request, hmem⟩ := hresult
        exact .denied hm hauth hmissed hmem hdenied
      | .error e => exact .unanswered hm hauth hresult.1 hresult.2
    · exact .unanswered hm hauth h.missed fun request response =>
        h.unsent.unasked request (some response)
  · simp only [hauth, Bool.false_eq_true, if_false]
    refine ⟨⟨⟨hsmall, h.unrefused⟩, h.missed, fun m' hm' hauth' => ?_⟩, rfl⟩
    rw [Option.some.inj (hm'.symm.trans hm)] at hauth'
    exact absurd hauth' hauth

theorem exceedsMaxFileSize_wp {response : Response} (h : Passed x t) (hfetch : Fetched t response) :
    wpH (Allowed x) (Concludes x) (fun t _ => Passed x t ∧ Fetched t response)
      (exceedsMaxFileSize x response) t := by
  unfold exceedsMaxFileSize
  split
  · next length engine _ hengine =>
    rw [wpH_bind]
    refine ⟨⟨h.missed, hengine⟩, fun largest => ⟨h.push rfl rfl, ?_⟩⟩
    obtain ⟨request, hmem⟩ := hfetch
    exact ⟨request, List.mem_append_left _ hmem⟩
  · exact ⟨h, hfetch⟩

theorem store_wp {response : Response} (h : Passed x t) (hfetch : Fetched t response) :
    wpH (Allowed x) (Concludes x) (fun t _ => Passed x t) (store x response) t := by
  unfold store collectAndStore
  rw [wpH_bind]
  refine wpH_mono ?_ (exceedsMaxFileSize_wp h hfetch)
  intro t exceeds ⟨h, hfetch⟩
  split
  · next engine hengine =>
    split
    · next hstore =>
      have hstorable : isStorable x response = true := (Bool.and_eq_true_iff.mp hstore).1
      split
      · next body hbody =>
        rw [wpH_bind]
        refine ⟨⟨h.missed, engine, response, body, hengine, hfetch, hstorable, hbody, rfl⟩, ?_⟩
        intro _
        exact h.push rfl rfl
      · exact h
    · exact h
  · exact h

theorem relay_wp {m : MatchedRoute} {answer : Option Response} (hm : x.matched = some m)
    (h : Passed x t) (hfetch : ∀ response, answer = some response → Fetched t response) :
    wpH (Allowed x) (Concludes x) (fun t _ => Passed x t) (relay x m answer) t := by
  unfold relay
  split
  · exact h
  · next response =>
    split
    · rw [wpH_bind]
      refine ⟨⟨h.missed, m, hm, rfl⟩, fun _ => ?_⟩
      exact h.push rfl rfl
    · split
      · exact .served h (secured_inject _)
      · exact store_wp h (hfetch response rfl)

theorem dispatch_wp (hsmall : x.payloadTooLarge = false) (h : Early t) :
    wpH (Allowed x) (Concludes x) (fun t _ => Passed x t) (dispatch x) t := by
  unfold dispatch
  split
  · next m hm =>
    unfold forward
    rw [wpH_bind]
    refine wpH_mono ?_ (authorise_wp hm hsmall h)
    intro t headers ⟨h, hauth⟩
    split
    · exact .failed h
    · next request hrequest =>
      rw [wpH_bind]
      refine ⟨⟨h.missed, m, headers, hm, hauth, hrequest⟩, fun answer => ?_⟩
      refine relay_wp hm (h.push rfl rfl) ?_
      intro response hanswer
      refine ⟨request, List.mem_append_right _ ?_⟩
      rw [hanswer]
      exact List.mem_singleton.mpr rfl
  · next hnone =>
    refine ⟨⟨hsmall, h.unrefused⟩, h.missed, fun m hm => ?_⟩
    rw [hnone] at hm
    cases hm

/-- Every operation of `handle_request` keeps to the rules, whatever the answers. -/
theorem handleRequest_wp (x : Exchange) :
    wp (Allowed x) (Concludes x) (handleRequest x) [] := by
  have hstart : Early ([] : ProxyTrace) := by
    constructor <;> intro s hs <;> cases hs
  unfold handleRequest
  rw [wp_run, wpH_bind]
  refine wpH_mono ?_ (admission_wp hstart)
  intro t _ ⟨h, hsmall⟩
  rw [wpH_bind]
  refine wpH_mono ?_ (lookup_wp h)
  intro t _ h
  rw [wpH_bind]
  refine wpH_mono ?_ (dispatch_wp hsmall h)
  intro t response hpassed
  exact .served hpassed (secured_inject _)

end Stages

section Facts
variable [HttpCrate] [TlsCrate] [CaseMapping] {x : Exchange} {t : ProxyTrace}
variable {p : Program (Except BoxError Response)}

theorem concludes_of_reaches {result : Except BoxError Response}
    (h : Reaches (handleRequest x) t (.pure result)) : Concludes x t result :=
  wp_reaches (handleRequest_wp x) h

theorem permitted_of_reaches {e : Effect} {k : e.Reply → Program (Except BoxError Response)}
    (h : Reaches (handleRequest x) t (.op e k)) : Permitted x t e :=
  (allowed_of_reaches (handleRequest_wp x) h).2

theorem permitted_of_mem {e : Effect} {r : e.Reply} (h : Reaches (handleRequest x) t p)
    (hmem : (⟨e, r⟩ : (e : Effect) × e.Reply) ∈ t) :
    ∃ t₁ t₂, t = t₁ ++ ⟨e, r⟩ :: t₂ ∧ Permitted x t₁ e := by
  obtain ⟨t₁, t₂, rfl⟩ := List.append_of_mem hmem
  exact ⟨t₁, t₂, rfl, (allowed_of_performed (handleRequest_wp x) h rfl).2⟩

/-- A hit ends the request, with the response made of its asset. -/
theorem hit_last {engine : ℕ} {key : Str} {asset : CachedAsset}
    (h : Reaches (handleRequest x) t p)
    (hmem : (⟨.cacheGet engine key, some asset⟩ : (e : Effect) × e.Reply) ∈ t) :
    p = .pure (.ok (hitResponse asset)) ∧
      ∃ t', t = t' ++ [⟨.cacheGet engine key, some asset⟩] ∧ NothingSent t' := by
  have hhit : ¬ NoHit t := fun hmiss => absurd (hmiss _ hmem) (by simp [isHit])
  have hwp := wp_reaches (handleRequest_wp x) h
  cases p with
  | op e k => exact absurd hwp.1.1 hhit
  | pure result =>
    rcases hwp.endsAtHit with hmiss | ⟨t', engine', asset', ht, hsent, rfl⟩
    · exact absurd hmiss hhit
    · have hbefore : NoHit t' := (allowed_of_performed (handleRequest_wp x) h ht).1
      rw [ht] at hmem
      rcases List.mem_append.mp hmem with hmem | hmem
      · exact absurd (hbefore _ hmem) (by simp [isHit])
      · cases List.mem_singleton.mp hmem
        exact ⟨rfl, t', ht, hsent⟩

theorem authRequest_first {request : AuthRequest} {answer : Option Response}
    (h : Reaches (handleRequest x) t p)
    (hmem : (⟨.authRequest request, answer⟩ : (e : Effect) × e.Reply) ∈ t) :
    t.find? isSent = some ⟨.authRequest request, answer⟩ := by
  obtain ⟨t₁, t₂, ht, -, hfirst, -⟩ := permitted_of_mem h hmem
  rw [List.find?_eq_some_iff_append]
  refine ⟨rfl, t₁, t₂, ht, fun s hs => ?_⟩
  rw [hfirst s hs]
  rfl

theorem authRequest_unique {request request' : AuthRequest} {answer answer' : Option Response}
    (h : Reaches (handleRequest x) t p)
    (hmem : (⟨.authRequest request, answer⟩ : (e : Effect) × e.Reply) ∈ t)
    (hmem' : (⟨.authRequest request', answer'⟩ : (e : Effect) × e.Reply) ∈ t) :
    answer' = answer := by
  have hsame := (authRequest_first h hmem).symm.trans (authRequest_first h hmem')
  cases hsame
  rfl

/-- At most one response of the provider decides about a request. -/
theorem AuthAccepted.unique {response response' : Response} (h : Reaches (handleRequest x) t p)
    (haccept : AuthAccepted x t response) (haccept' : AuthAccepted x t response') :
    response' = response := by
  obtain ⟨-, request, -, hmem⟩ := haccept
  obtain ⟨-, request', -, hmem'⟩ := haccept'
  exact Option.some.inj (authRequest_unique h hmem hmem')

end Facts

end BarebonesProxy.Proxy
