import BarebonesProxy.ForwardedHeaders

set_option autoImplicit false

/-!
# The responses of `handle_request`

The last lines of the source add the security headers, so a response of an earlier `return`
has them only if it was made with them. A protected route that is not accepted ends with the
provider's response or with an error page, before the upstream is asked.
-/
namespace BarebonesProxy.Proxy
open RustNet RustStrings ProxyConfig Routing Http Cache RuntimeConfig ErrorPages EffectPrograms

def securityNames : List HeaderName :=
  [.strictTransportSecurity, .xContentTypeOptions, .xFrameOptions, .xXssProtection]

section Secured
variable [HttpCrate]

theorem secured_withHeader {response : Response} {n : HeaderName} (value : String)
    (hn : n ∉ securityNames) :
    Secured (withHeader response n value).headers ↔ Secured response.headers := by
  have hvalues : ∀ e ∈ securityHeaders,
      HeaderMap.values (withHeader response n value).headers e.1 =
        HeaderMap.values response.headers e.1 := by
    intro e he
    apply HeaderMap.values_insert_ne
    intro hname
    apply hn
    rw [← hname]
    exact List.mem_map_of_mem (f := Prod.fst) he
  unfold Secured
  constructor
  · intro h e he
    rw [← hvalues e he]
    exact h e he
  · intro h e he
    rw [hvalues e he]
    exact h e he

theorem not_secured {headers : HeaderMap}
    (h : HeaderMap.values headers .strictTransportSecurity = []) : ¬ Secured headers := by
  intro hsecured
  have hvalue := hsecured _ (.head _)
  rw [h] at hvalue
  cases hvalue

theorem not_secured_append {n : HeaderName} (v : HeaderValue)
    (hn : n ≠ HeaderName.strictTransportSecurity) :
    ¬ Secured (HttpCrate.append HttpCrate.empty n v) := by
  apply not_secured
  have hvalues := HttpCrate.values_append HttpCrate.empty n .strictTransportSecurity v
  rw [if_neg hn.symm, HttpCrate.iter_empty] at hvalues
  exact hvalues

theorem secured_hitResponse (asset : CachedAsset) :
    Secured (hitResponse asset).headers ↔ Secured asset.headers :=
  secured_withHeader "HIT" (by decide)

variable [TlsCrate] (x : Exchange)

theorem not_secured_errorResponse (status : StatusCode) (message : ErrorMessage) :
    ¬ Secured (x.errorResponse status message).headers := by
  unfold Exchange.errorResponse buildErrorResponse
  dsimp only
  split
  · exact not_secured_append _ (by decide)
  · exact not_secured_append _ (by decide)

theorem not_secured_refusal {response : Response} (h : response ∈ refusals x) :
    ¬ Secured response.headers := by
  simp only [refusals, List.mem_cons, List.not_mem_nil, or_false] at h
  rcases h with rfl | rfl | rfl
  · exact not_secured_append _ (by decide)
  · rw [Exchange.rateLimitPage, secured_withHeader "60" (by decide)]
    exact not_secured_errorResponse x _ _
  · exact not_secured_errorResponse x _ _

end Secured

section Responses
variable [HttpCrate] [TlsCrate] [CaseMapping] {x : Exchange} {t : ProxyTrace}

theorem Passed.secured {response : Response} (hpassed : Passed x t)
    (h : Reaches (handleRequest x) t (.pure (.ok response))) : Secured response.headers := by
  cases concludes_of_reaches h with
  | refused hrefused => exact absurd hpassed.admitted hrefused
  | hit ht => exact absurd hpassed.missed (not_noHit_of_hit ht)
  | unanswered hm hauth _ hnone =>
    obtain ⟨response, -, request, -, hmem⟩ := hpassed.accepted _ hm hauth
    exact absurd hmem (hnone request response)
  | denied hm hauth _ hmem hdenied =>
    obtain ⟨response, hsuccess, request, -, hmem'⟩ := hpassed.accepted _ hm hauth
    cases authRequest_unique h hmem hmem'
    rw [hsuccess] at hdenied
    cases hdenied
  | served _ hsecured => exact hsecured

/-- The request gets to the end of the source, or its response has the headers from a
stored asset or from the provider. -/
def SecuredSource (x : Exchange) (t : ProxyTrace) : Prop :=
  Passed x t ∨
    (∃ engine key asset, (⟨.cacheGet engine key, some asset⟩ : (e : Effect) × e.Reply) ∈ t ∧
      Secured asset.headers) ∨
    ∃ request response,
      (⟨.authRequest request, some response⟩ : (e : Effect) × e.Reply) ∈ t ∧
        response.status.isSuccess = false ∧ Secured response.headers

/-- A response has the security headers exactly when no early `return` made it, or when it
was made with them. -/
theorem response_secured_iff {response : Response}
    (h : Reaches (handleRequest x) t (.pure (.ok response))) :
    Secured response.headers ↔ SecuredSource x t := by
  have hends := concludes_of_reaches h
  constructor
  · intro hsecured
    cases hends with
    | refused _ _ _ hresponse => exact absurd hsecured (not_secured_refusal x hresponse)
    | @hit t' engine asset ht =>
      refine .inr (.inl ⟨engine, x.cacheKey, asset, ?_, (secured_hitResponse asset).mp hsecured⟩)
      rw [ht]
      exact List.mem_append_right _ (.head _)
    | unanswered => exact absurd hsecured (not_secured_errorResponse x _ _)
    | denied _ _ _ hmem hdenied => exact .inr (.inr ⟨_, _, hmem, hdenied, hsecured⟩)
    | served hpassed => exact .inl hpassed
  · rintro (hpassed | ⟨engine, key, asset, hmem, hsecured⟩ |
      ⟨request, answer, hmem, hdenied, hsecured⟩)
    · exact hpassed.secured h
    · obtain ⟨hresult, -⟩ := hit_last h hmem
      cases hresult
      exact (secured_hitResponse asset).mpr hsecured
    · cases hends with
      | refused _ _ hunsent => exact absurd hmem (hunsent.unasked _ _)
      | hit ht hunsent =>
        rw [ht] at hmem
        rcases List.mem_append.mp hmem with hmem | hmem
        · exact absurd hmem (hunsent.unasked _ _)
        · cases List.mem_singleton.mp hmem
      | unanswered _ _ _ hnone => exact absurd hmem (hnone _ _)
      | denied _ _ _ hmem' =>
        cases authRequest_unique h hmem hmem'
        exact hsecured
      | served _ hserved => exact hserved

end Responses

section Shop
open ListCrates

def verdictAnswer (verdict : Option Response) : (e : Effect) → e.Reply
  | .authRequest _ => verdict
  | e => shopAnswer [] e

def shopEnd (headers : List (HeaderName × Str)) (verdict : Option Response) :
    ProxyTrace × Program (Except BoxError Response) :=
  follow (verdictAnswer verdict) 4 (handleRequest (shopExchange headers))

theorem shopEnd_reaches (headers : List (HeaderName × Str)) (verdict : Option Response) :
    Reaches (handleRequest (shopExchange headers)) (shopEnd headers verdict).1
      (shopEnd headers verdict).2 :=
  reaches_follow _ _ _

def accepting : Option Response := some ⟨.ok, ([] : List (HeaderName × Str)), .full []⟩

theorem bad_gateway_secured :
    ∃ response, (shopEnd [] accepting).2 = .pure (.ok response) ∧ response.status = .badGateway ∧
      Secured response.headers := by
  refine ⟨_, rfl, rfl, (response_secured_iff (shopEnd_reaches [] accepting)).mpr (.inl ?_)⟩
  have haccept : AuthAccepted (shopExchange []) (shopEnd [] accepting).1
      ⟨.ok, ([] : List (HeaderName × Str)), .full []⟩ :=
    ⟨rfl, _, ⟨_, _, rfl, rfl, rfl⟩, List.mem_of_getElem? (i := 2) rfl⟩
  refine ⟨⟨rfl, ?_⟩, ?_, fun _ _ _ => ⟨_, haccept⟩⟩
  · unfold NoRefusal
    decide
  · unfold NoHit
    decide

/-- A request whose body is announced with one byte too many gets a page without them. -/
theorem large_request_unsecured :
    ∃ response, (shopEnd [(.contentLength, "10485761".toList)] accepting).2 =
        .pure (.ok response) ∧
      response.status = .payloadTooLarge ∧
      HeaderMap.values response.headers .strictTransportSecurity = [] ∧
      ¬ Secured response.headers := by
  refine ⟨_, rfl, rfl, ?_, ?_⟩
  · rfl
  · exact not_secured_errorResponse _ _ _

end Shop

section FailClosed
variable [HttpCrate] [TlsCrate] {x : Exchange} {t : ProxyTrace}

/-- The upstream is asked after an acceptance, and without one the client gets the
provider's own response or an error page. -/
structure FailsClosed (x : Exchange) (t : ProxyTrace) (result : Except BoxError Response) :
    Prop where
  accepted : ∀ t₁ request answer t₂,
    t = t₁ ++ (⟨.upstreamRequest request, answer⟩ : (e : Effect) × e.Reply) :: t₂ →
      ∃ response, AuthAccepted x t₁ response
  closed : (∀ response, ¬ AuthAccepted x t response) →
    (∀ request answer, (⟨.upstreamRequest request, answer⟩ : (e : Effect) × e.Reply) ∉ t) ∧
      ((∃ request response, AuthAsked x request ∧
          (⟨.authRequest request, some response⟩ : (e : Effect) × e.Reply) ∈ t ∧
          response.status.isSuccess = false ∧ result = .ok response) ∨
        ∃ message, result = .ok (x.errorResponse .internalServerError message))

variable [CaseMapping]

theorem accepted_before {p : Program (Except BoxError Response)} {m : MatchedRoute}
    (hm : x.matched = some m) (hauth : m.authRequired = true) (h : Reaches (handleRequest x) t p)
    {t₁ t₂ : ProxyTrace} {request : ForwardedRequest} {answer : Option Response}
    (ht : t = t₁ ++ (⟨.upstreamRequest request, answer⟩ : (e : Effect) × e.Reply) :: t₂) :
    ∃ response, AuthAccepted x t₁ response := by
  obtain ⟨m', headers, hm', hauthorised, -⟩ :=
    (allowed_of_performed (handleRequest_wp x) h ht).2
  have hsame : m' = m := Option.some.inj (hm'.symm.trans hm)
  rw [hsame, Authorised, if_pos hauth] at hauthorised
  obtain ⟨response, haccepted, -⟩ := hauthorised
  exact ⟨response, haccepted⟩

/-- A request that gets to a protected route and misses the cache fails closed, whatever
the provider answers. -/
theorem auth_fails_closed {result : Except BoxError Response} {m : MatchedRoute}
    (h : Reaches (handleRequest x) t (.pure result)) (hadmitted : Admitted x t) (hmissed : NoHit t)
    (hm : x.matched = some m) (hauth : m.authRequired = true) : FailsClosed x t result := by
  refine ⟨fun _ _ _ _ ht => accepted_before hm hauth h ht, fun hnone => ⟨?_, ?_⟩⟩
  · intro request answer hmem
    obtain ⟨t₁, t₂, ht⟩ := List.append_of_mem hmem
    obtain ⟨response, haccepted⟩ := accepted_before hm hauth h ht
    rw [ht] at hnone
    exact hnone response (haccepted.append _)
  · cases concludes_of_reaches h with
    | refused hrefused => exact absurd hadmitted hrefused
    | hit ht => exact absurd hmissed (not_noHit_of_hit ht)
    | @unanswered _ message => exact .inr ⟨message, rfl⟩
    | @denied _ request response _ _ _ hmem hdenied =>
      obtain ⟨_, _, _, hasked, -⟩ := permitted_of_mem h hmem
      exact .inl ⟨request, response, hasked, hmem, hdenied, rfl⟩
    | failed hpassed =>
      obtain ⟨response, haccepted⟩ := hpassed.accepted m hm hauth
      exact absurd haccepted (hnone response)
    | served hpassed =>
      obtain ⟨response, haccepted⟩ := hpassed.accepted m hm hauth
      exact absurd haccepted (hnone response)

end FailClosed

section Shop
open ListCrates

def rejecting : Response := ⟨⟨403, by decide⟩, ([] : List (HeaderName × Str)), .full []⟩

theorem rejected_fails_closed :
    (shopEnd [] (some rejecting)).2 = .pure (.ok rejecting) ∧
      FailsClosed (shopExchange []) (shopEnd [] (some rejecting)).1 (.ok rejecting) := by
  refine ⟨rfl, ?_⟩
  refine auth_fails_closed (shopEnd_reaches [] (some rejecting)) ⟨rfl, ?_⟩ ?_
    (shopExchange_matched []) rfl
  · unfold NoRefusal
    decide
  · unfold NoHit
    decide

end Shop

end BarebonesProxy.Proxy
