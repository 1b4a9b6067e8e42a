import BarebonesProxy.RequestLog

set_option autoImplicit false

/-!
# What the log says of a request

A line is written only after what it tells has happened, and from the readings that it shows.
The request log lists a request once or not at all, as the last line of its handler.
-/
namespace BarebonesProxy.RequestLog
open RustNet RustStrings ProxyConfig Routing Http Cache RuntimeConfig ErrorPages EffectPrograms
open Handler Proxy Log

abbrev Notes := Trace Note Note.Reply

def line? : ((n : Note) × n.Reply) → Option Line
  | ⟨.line line, _⟩ => some line
  | _ => none

def linesOf (s : Notes) : List Line := s.filterMap line?

@[simp] theorem linesOf_append (s s' : Notes) : linesOf (s ++ s') = linesOf s ++ linesOf s' :=
  List.filterMap_append

@[simp] theorem linesOf_line (line : Line) (r : (Note.line line).Reply) :
    linesOf [⟨.line line, r⟩] = [line] := rfl

@[simp] theorem linesOf_elapsed (micros : Note.elapsed.Reply) :
    linesOf [⟨.elapsed, micros⟩] = [] := rfl

@[simp] theorem linesOf_errorText (error : BoxError) (text : (Note.errorText error).Reply) :
    linesOf [⟨.errorText error, text⟩] = [] := rfl

def CacheStats.notes (stats : CacheStats) (engine : ℕ) : Notes :=
  [⟨.currentMemoryBytes engine, stats.currentMem⟩, ⟨.entryCount engine, stats.totalEntries⟩,
    ⟨.maxCapacityBytes engine, stats.maxCap⟩]

@[simp] theorem linesOf_stats (stats : CacheStats) (engine : ℕ) :
    linesOf (stats.notes engine) = [] := rfl

def authEvents : List Str :=
  ["auth_verifying".toList, "auth_success".toList, "auth_headers_injected".toList]

def isRequest (line : Line) : Bool := line.event == "request".toList

def Unlisted (s : Notes) : Prop := ∀ line ∈ linesOf s, isRequest line = false

section Unlisted
variable {s s' : Notes}

theorem Unlisted.read (h : Unlisted s) (hlines : linesOf s' = []) : Unlisted (s ++ s') := by
  unfold Unlisted
  rw [linesOf_append, hlines, List.append_nil]
  exact h

theorem Unlisted.write (h : Unlisted s) {line : Line} (hline : isRequest line = false) :
    Unlisted (s ++ [⟨.line line, ()⟩]) := by
  unfold Unlisted
  rw [linesOf_append]
  exact List.forall_mem_append.mpr ⟨h, List.forall_mem_singleton.mpr hline⟩

theorem unlisted_of_nil (h : linesOf s = []) : Unlisted s := by
  unfold Unlisted
  rw [h]
  exact fun line hline => absurd hline List.not_mem_nil

theorem unlisted_of_authEvents (h : ∀ line ∈ linesOf s, line.event ∈ authEvents) : Unlisted s := by
  intro line hline
  have hevents : ∀ event ∈ authEvents, (event == "request".toList) = false := by decide
  exact hevents _ (h line hline)

theorem written (line : Line) : linesOf (s ++ [⟨.line line, ()⟩]) ≠ [] := by
  rw [linesOf_append]
  exact List.append_ne_nil_of_right_ne_nil _ (List.cons_ne_nil _ _)

end Unlisted

section Meaning
variable [HttpCrate] [TlsCrate] [CaseMapping] (x : Exchange)

def subject : Subject := ⟨x.clientIp, x.host⟩

/-- The engine was asked for its limit, and the announced length is above it. -/
def ExceedsLimit (t : ProxyTrace) (engine : ℕ) (response : Response) : Prop :=
  ∃ largest length : ℕ, largest < length ∧ contentLengthOf response.headers = some length ∧
    (⟨.maxFileSizeBytes engine, largest⟩ : (e : Effect) × e.Reply) ∈ t

/-- The first condition of the cache that a response fails. -/
inductive BypassedFor (t : ProxyTrace) (engine : ℕ) (response : Response) : Str → Prop
  | nonStatic (h : isStatic x response = false) :
      BypassedFor t engine response "non_static_asset".toList
  | noStore (hstatic : isStatic x response = true) (h : isNoStore response = true) :
      BypassedFor t engine response "cache_control_no_store".toList
  | tooLarge (hstatic : isStatic x response = true) (hstore : isNoStore response = false)
      (h : ExceedsLimit t engine response) :
      BypassedFor t engine response "exceeds_max_file_size".toList
  | status (hstatic : isStatic x response = true) (hstore : isNoStore response = false)
      (h : response.status ≠ .ok) : BypassedFor t engine response "non_200_status".toList

/-- The route intercepts errors and this is one. -/
def Intercepted (m : MatchedRoute) (response : Response) : Prop :=
  m.shouldInterceptErrors x.config.globalInterceptErrors = true ∧
    (response.status.isClientError || response.status.isServerError) = true

/-- The upstream's answer is what the client gets. -/
def PassedOn (m : MatchedRoute) (response : Response) : Prop :=
  (response.status = .switchingProtocols ∧ isUpgradeRequest x.request.headers = true) ∨
    ¬ Intercepted x m response

/-- The status and the upstream with which the request log lists a request: one over the rate
limit, a cache hit, an admitted one without a route, and one whose upstream was asked and has
not answered or has the last word. -/
inductive Concluded (t : ProxyTrace) : ℕ × Str → Prop
  | limited {count : ℕ} (h : requestRecorded x (.error count) ∈ t) :
      Concluded t (429, "-".toList)
  | hit {engine : ℕ} {cached : CachedAsset} (hengine : x.cacheEngine = some engine)
      (hmem : (⟨.cacheGet engine x.cacheKey, some cached⟩ : (e : Effect) × e.Reply) ∈ t) :
      Concluded t (cached.status.code, upstreamOf x)
  | unrouted (hadmitted : Admitted x t) (hmissed : NoHit t) (hnone : x.matched = none) :
      Concluded t (444, "-".toList)
  | unanswered {m : MatchedRoute} {request : ForwardedRequest} (hm : x.matched = some m)
      (hmem : (⟨.upstreamRequest request, none⟩ : (e : Effect) × e.Reply) ∈ t) :
      Concluded t (502, m.upstreamAddr)
  | answered {m : MatchedRoute} {request : ForwardedRequest} {response : Response}
      (hm : x.matched = some m) (hpassed : PassedOn x m response)
      (hmem : (⟨.upstreamRequest request, some response⟩ : (e : Effect) × e.Reply) ∈ t) :
      Concluded t (response.status.code, m.upstreamAddr)

def Reported (t : ProxyTrace) : Prop := ∃ logged, Concluded x t logged

def AuthRoute : Prop := ∃ m, x.matched = some m ∧ m.authRequired = true

/-- Why the provider's answer is missing: its URL or the request to it cannot be built, or it
was asked and did not answer. -/
inductive AuthFailed (t : ProxyTrace) : BoxError → Prop
  | badUrl {provider : ForwardAuthProvider} (hprovider : x.config.authProvider = some provider)
      (huri : HttpCrate.parseUri provider.authUrl = none) : AuthFailed t .invalidUri
  | badRequest {provider : ForwardAuthProvider} {authUri : Uri} {e : BoxError}
      (hprovider : x.config.authProvider = some provider)
      (huri : HttpCrate.parseUri provider.authUrl = some authUri)
      (hrequest : authSubRequest authUri x.clientIp x.request.method x.request.uri
        x.request.headers = .error e) : AuthFailed t e
  | unanswered {request : AuthRequest} (hasked : AuthAsked x request)
      (hmem : (⟨.authRequest request, none⟩ : (e : Effect) × e.Reply) ∈ t) :
      AuthFailed t .client

/-- The provider was asked about this request and has refused it. -/
def AuthRefused (t : ProxyTrace) (response : Response) : Prop :=
  response.status.isSuccess = false ∧ ∃ request, AuthAsked x request ∧
    (⟨.authRequest request, some response⟩ : (e : Effect) × e.Reply) ∈ t

def TimeRead (s : Notes) (micros : ℕ) : Prop :=
  (⟨.elapsed, micros⟩ : (n : Note) × n.Reply) ∈ s

def ErrorRead (s : Notes) (error : BoxError) (text : Str) : Prop :=
  (⟨.errorText error, text⟩ : (n : Note) × n.Reply) ∈ s

def StatsRead (s : Notes) (engine : ℕ) (stats : CacheStats) : Prop := stats.notes engine ⊆ s

/-- What has happened when a line is written, and what was read for it. -/
inductive Genuine (version : Version) (t : ProxyTrace) (s : Notes) : Line → Prop
  | blacklisted (h : blacklistAsked x true ∈ t) : Genuine version t s (blacklistedLine x)
  | rateLimit {count : ℕ} (h : requestRecorded x (.error count) ∈ t) :
      Genuine version t s (rateLimitLine x count)
  | request {micros : ℕ} {logged : ℕ × Str} (h : Concluded x t logged)
      (htime : TimeRead s micros) : Genuine version t s (requestLine x version micros logged)
  | payload {length : ℕ} (hlength : contentLengthOf x.request.headers = some length)
      (hlarge : x.maxBodySize < length) : Genuine version t s (payloadLine x length)
  | hit {engine : ℕ} {cached : CachedAsset} {stats : CacheStats}
      (hengine : x.cacheEngine = some engine)
      (hmem : (⟨.cacheGet engine x.cacheKey, some cached⟩ : (e : Effect) × e.Reply) ∈ t)
      (hstats : StatsRead s engine stats) : Genuine version t s (cacheHitLine x cached stats)
  | verifying {provider : ForwardAuthProvider} (hroute : AuthRoute x)
      (h : x.config.authProvider = some provider) :
      Genuine version t s (verifyingLine (subject x) x.pathAndQuery provider)
  | success {response : Response} (hroute : AuthRoute x) (h : AuthAccepted x t response) :
      Genuine version t s (authSuccessLine (subject x) (successHeaders response))
  | injected {response : Response} (hroute : AuthRoute x) (h : AuthAccepted x t response) :
      Genuine version t s (headersInjectedLine x (successHeaders response))
  | refusal {response : Response} (hroute : AuthRoute x) (h : AuthRefused x t response) :
      Genuine version t s (refusalLine (subject x) response)
  | denied {response : Response} (hroute : AuthRoute x) (h : AuthRefused x t response) :
      Genuine version t s (authDeniedLine x response)
  | networkError {provider : ForwardAuthProvider} {request : AuthRequest} {error : Str}
      (hroute : AuthRoute x) (hprovider : x.config.authProvider = some provider)
      (hasked : AuthAsked x request)
      (hmem : (⟨.authRequest request, none⟩ : (e : Effect) × e.Reply) ∈ t)
      (herror : ErrorRead s .client error) :
      Genuine version t s (networkErrorLine (subject x) provider error)
  | authError {e : BoxError} {error : Str} (hroute : AuthRoute x) (h : AuthFailed x t e)
      (herror : ErrorRead s e error) : Genuine version t s (authErrorLine x error)
  | misconfiguration (hroute : AuthRoute x) (hnone : x.config.authProvider = none) :
      Genuine version t s (authMisconfigurationLine x)
  | intercepted {m : MatchedRoute} {response : Response} (hm : x.matched = some m)
      (hfetched : Fetched t response) (h : Intercepted x m response) :
      Genuine version t s (interceptedLine x response.status)
  | bypassed {engine : ℕ} {response : Response} {reason : Str} {stats : CacheStats}
      (hengine : x.cacheEngine = some engine) (hfetched : Fetched t response)
      (hreason : BypassedFor x t engine response reason) (hstats : StatsRead s engine stats) :
      Genuine version t s (bypassedLine x response.status reason stats)
  | connectFailed {m : MatchedRoute} {request : ForwardedRequest} {error : Str}
      (hm : x.matched = some m)
      (hmem : (⟨.upstreamRequest request, none⟩ : (e : Effect) × e.Reply) ∈ t)
      (herror : ErrorRead s .client error) : Genuine version t s (connectFailedLine m error)
  | noMatchingRoute (hadmitted : Admitted x t) (hnone : x.matched = none) :
      Genuine version t s (noMatchingRouteLine x)

/-- What the log says of a request that has ended. -/
inductive LoggedAs (version : Version) (t : ProxyTrace) (s : Notes) :
    Except BoxError Response → Prop
  | refused {response : Response} (hunlisted : Unlisted s) (hwritten : linesOf s ≠ [])
      (hunreported : ¬ Reported x t) :
      LoggedAs version t s (.ok response)
  | failed {e : BoxError} (hlines : ∀ line ∈ linesOf s, line.event ∈ authEvents)
      (hunreported : ¬ Reported x t) : LoggedAs version t s (.error e)
  | listed {response : Response} {before : List Line} {micros : ℕ} {logged : ℕ × Str}
      (hlines : linesOf s = before ++ [requestLine x version micros logged])
      (honce : ∀ line ∈ before, isRequest line = false) (hconcluded : Concluded x t logged)
      (hstatus : logged.1 = response.status.code) : LoggedAs version t s (.ok response)

end Meaning

section Steps
variable {E : Type} {R : E → Type} {ρ β : Type} (genuine : Trace E R → Notes → Line → Prop)

/-- The lines are genuine; anything may be read. -/
def LinesSound (t : Trace E R) (s : Notes) : Note → Prop
  | .line line => genuine t s line
  | _ => True

variable {genuine} {left : Trace E R → Notes → ρ → Prop} {post : Trace E R → Notes → β → Prop}
variable {t : Trace E R} {s : Notes}

theorem wp_write {line : Line} {f : Unit → NotedHandler R Note.Reply ρ β}
    (hline : genuine t s line)
    (h : wpNH (LinesSound genuine) left post (f ()) t (s ++ [⟨.line line, ()⟩])) :
    wpNH (LinesSound genuine) left post (write line >>= f) t s :=
  ⟨hline, fun _ => h⟩

theorem wp_elapsed {f : ℕ → NotedHandler R Note.Reply ρ β}
    (h : ∀ micros, wpNH (LinesSound genuine) left post (f micros) t (s ++ [⟨.elapsed, micros⟩])) :
    wpNH (LinesSound genuine) left post (elapsed >>= f) t s :=
  ⟨trivial, h⟩

theorem wp_errorText {error : BoxError} {f : Str → NotedHandler R Note.Reply ρ β}
    (h : ∀ text, wpNH (LinesSound genuine) left post (f text) t (s ++ [⟨.errorText error, text⟩])) :
    wpNH (LinesSound genuine) left post (errorText error >>= f) t s :=
  ⟨trivial, h⟩

theorem wp_cacheStats {engine : ℕ} {f : CacheStats → NotedHandler R Note.Reply ρ β}
    (h : ∀ stats, wpNH (LinesSound genuine) left post (f stats) t (s ++ stats.notes engine)) :
    wpNH (LinesSound genuine) left post (cacheStats engine >>= f) t s := by
  refine ⟨trivial, fun currentMem => ⟨trivial, fun totalEntries => ⟨trivial, fun maxCap => ?_⟩⟩⟩
  rw [List.append_assoc, List.append_assoc]
  exact h ⟨currentMem, totalEntries, maxCap⟩

theorem read_last (s : Notes) (n : (n : Note) × n.Reply) : n ∈ s ++ [n] :=
  List.mem_append_right _ (.head _)

theorem statsRead_last (s : Notes) (engine : ℕ) (stats : CacheStats) :
    StatsRead (s ++ stats.notes engine) engine stats := List.subset_append_right _ _

end Steps

section Stages
variable [HttpCrate] {t : ProxyTrace}

/-- Nothing has settled the request so far. -/
structure Unsettled (t : ProxyTrace) : Prop where
  unrefused : NoRefusal t
  missed : NoHit t
  unasked : ∀ request answer,
    (⟨.upstreamRequest request, answer⟩ : (e : Effect) × e.Reply) ∉ t

theorem Unsettled.of_early (h : Early t) : Unsettled t where
  unrefused := h.unrefused
  missed := h.missed
  unasked request answer hmem := absurd (h.unsent _ hmem) (by simp [isSent])

theorem not_hit_of_noHit (h : NoHit t) (engine : ℕ) (key : Str) (cached : CachedAsset) :
    (⟨.cacheGet engine key, some cached⟩ : (e : Effect) × e.Reply) ∉ t :=
  fun hmem => absurd (h _ hmem) (by simp [isHit])

variable [TlsCrate] {x : Exchange}

theorem Unsettled.unlimited (h : Unsettled t) (count : ℕ) : requestRecorded x (.error count) ∉ t :=
  fun hmem => absurd (h.unrefused _ hmem) (by simp [requestRecorded, isRefusal])

/-- A request that is turned away before its upstream was asked is not listed. -/
theorem Unsettled.unreported (h : Unsettled t)
    (hroute : x.payloadTooLarge = true ∨ x.matched ≠ none) : ¬ Reported x t := by
  rintro ⟨logged, hlogged⟩
  cases hlogged with
  | limited hcount => exact h.unlimited _ hcount
  | hit _ hmem => exact not_hit_of_noHit h.missed _ _ _ hmem
  | unrouted hadmitted _ hnone =>
    rcases hroute with hlarge | hsome
    · rw [hadmitted.1] at hlarge
      cases hlarge
    · exact hsome hnone
  | unanswered _ hmem => exact h.unasked _ _ hmem
  | answered _ _ hmem => exact h.unasked _ _ hmem

/-- Nothing but the answer could conclude the request, and an intercepted one is not passed
on. -/
theorem Unsettled.unreported_intercepted (h : Unsettled t) {m : MatchedRoute}
    {request : ForwardedRequest} {response : Response} (hm : x.matched = some m)
    (hupgrade : ¬ (response.status = .switchingProtocols ∧
      isUpgradeRequest x.request.headers = true)) (hintercepted : Intercepted x m response) :
    ¬ Reported x (t ++ [⟨.upstreamRequest request, some response⟩]) := by
  rintro ⟨logged, hlogged⟩
  cases hlogged with
  | limited hcount =>
    rcases List.mem_append.mp hcount with hcount | hcount
    · exact h.unlimited _ hcount
    · cases List.mem_singleton.mp hcount
  | hit _ hhit => exact not_hit_of_noHit (never_push h.missed rfl) _ _ _ hhit
  | unrouted _ _ hnone =>
    rw [hm] at hnone
    cases hnone
  | unanswered _ hlast =>
    rcases List.mem_append.mp hlast with hlast | hlast
    · exact h.unasked _ _ hlast
    · cases List.mem_singleton.mp hlast
  | answered hm' hpassed hlast =>
    rw [hm] at hm'
    cases hm'
    rcases List.mem_append.mp hlast with hlast | hlast
    · exact h.unasked _ _ hlast
    · cases List.mem_singleton.mp hlast
      exact hpassed.elim hupgrade fun hnot => hnot hintercepted

theorem upstreamOf_matched {m : MatchedRoute} (hm : x.matched = some m) :
    upstreamOf x = m.upstreamAddr := by
  unfold upstreamOf
  rw [hm]
  rfl

theorem upstreamOf_unmatched (hnone : x.matched = none) : upstreamOf x = "-".toList := by
  unfold upstreamOf
  rw [hnone]
  rfl

end Stages

section Accounts
variable [HttpCrate] [TlsCrate] [CaseMapping] {x : Exchange} {version : Version}
variable {t : ProxyTrace} {s : Notes}

omit [CaseMapping] in
theorem status_errorResponse (status : StatusCode) (message : ErrorMessage) :
    (x.errorResponse status message).status = status := by
  unfold Exchange.errorResponse buildErrorResponse
  dsimp only
  split <;> rfl

omit [CaseMapping] in
theorem listed_last {response : Response} {micros : ℕ} {logged : ℕ × Str} (hunlisted : Unlisted s)
    (hconcluded : Concluded x t logged) (hstatus : logged.1 = response.status.code) :
    LoggedAs x version t (s ++ [⟨.line (requestLine x version micros logged), ()⟩])
      (.ok response) :=
  .listed (linesOf_append _ _) hunlisted hconcluded hstatus

theorem checkBlacklist_accounted :
    wpNH (LinesSound (Genuine x version)) (LoggedAs x version)
      (fun t s _ => t = [blacklistAsked x false] ∧ linesOf s = [])
      (checkBlacklist x x.clientAddr) [] [] := by
  unfold checkBlacklist
  refine wpNH_ask fun banned => ?_
  cases banned with
  | false => exact ⟨rfl, rfl⟩
  | true =>
    refine wp_write (.blacklisted (.head _)) ?_
    refine .refused ((unlisted_of_nil rfl).write rfl) (written _) ?_
    rintro ⟨logged, hlogged⟩
    cases hlogged with
    | limited hcount => cases List.mem_singleton.mp hcount
    | hit _ hmem => cases List.mem_singleton.mp hmem
    | unrouted hadmitted => cases hadmitted.2 _ (.head _)
    | unanswered _ hmem => cases List.mem_singleton.mp hmem
    | answered _ _ hmem => cases List.mem_singleton.mp hmem

theorem checkRateLimit_accounted (hs : linesOf s = []) :
    wpNH (LinesSound (Genuine x version)) (LoggedAs x version)
      (fun t s _ => Early t ∧ linesOf s = [])
      (checkRateLimit x version x.clientAddr) [blacklistAsked x false] s := by
  unfold checkRateLimit
  refine wpNH_ask fun counted => ?_
  cases counted with
  | ok count =>
    refine ⟨⟨?_, ?_, ?_⟩, hs⟩
    all_goals
      intro y hy
      simp only [List.singleton_append, List.mem_cons, List.not_mem_nil, or_false] at hy
      rcases hy with rfl | rfl
      all_goals rfl
  | error count =>
    have hmem : requestRecorded x (.error count) ∈
        [blacklistAsked x false, requestRecorded x (.error count)] := .tail _ (.head _)
    have hconcluded : Concluded x [blacklistAsked x false, requestRecorded x (.error count)]
        (429, "-".toList) := .limited hmem
    refine wp_write (.rateLimit hmem) (wp_elapsed fun micros => ?_)
    refine wp_write (.request hconcluded (read_last _ _)) ?_
    refine listed_last (((unlisted_of_nil hs).write rfl).read rfl) hconcluded ?_
    change 429 = (x.errorResponse _ _).status.code
    rw [status_errorResponse]
    rfl

theorem admission_accounted :
    wpNH (LinesSound (Genuine x version)) (LoggedAs x version)
      (fun t s _ => (Early t ∧ x.payloadTooLarge = false) ∧ linesOf s = [])
      (admission x version) [] [] := by
  unfold admission checkClient
  rw [parse_clientIp, wpNH_bind]
  dsimp only
  rw [wpNH_bind]
  refine wpNH_mono ?_ checkBlacklist_accounted
  rintro t s _ ⟨rfl, hs⟩
  refine wpNH_mono ?_ (checkRateLimit_accounted hs)
  intro t s _ ⟨hearly, hs⟩
  unfold checkBodySize
  cases hlength : contentLengthOf x.request.headers with
  | none => exact ⟨⟨hearly, payloadTooLarge_of_none hlength⟩, hs⟩
  | some length =>
    have hpayload := payloadTooLarge_of_some hlength
    dsimp only
    split
    · next hlarge =>
      rw [decide_eq_true hlarge] at hpayload
      refine wp_write (.payload hlength hlarge) ?_
      exact .refused ((unlisted_of_nil hs).write rfl) (written _)
        ((Unsettled.of_early hearly).unreported (.inl hpayload))
    · next hlarge =>
      rw [decide_eq_false hlarge] at hpayload
      exact ⟨⟨hearly, hpayload⟩, hs⟩

theorem lookup_accounted (hearly : Early t) (hs : linesOf s = []) :
    wpNH (LinesSound (Genuine x version)) (LoggedAs x version)
      (fun t s _ => Early t ∧ linesOf s = []) (lookup x version) t s := by
  unfold lookup
  split
  · exact ⟨hearly, hs⟩
  · next engine hengine =>
    refine wpNH_ask fun found => ?_
    cases found with
    | none => exact ⟨hearly.push rfl rfl rfl, hs⟩
    | some cached =>
      have hmem : (⟨.cacheGet engine x.cacheKey, some cached⟩ : (e : Effect) × e.Reply) ∈
          t ++ [⟨.cacheGet engine x.cacheKey, some cached⟩] := List.mem_append_right _ (.head _)
      have hconcluded : Concluded x (t ++ [⟨.cacheGet engine x.cacheKey, some cached⟩])
          (cached.status.code, upstreamOf x) := .hit hengine hmem
      refine wp_elapsed fun duration => wp_cacheStats fun stats => ?_
      have htime : TimeRead (s ++ [⟨.elapsed, duration⟩] ++ stats.notes engine) duration :=
        List.mem_append_left _ (read_last _ _)
      refine wp_write (.hit hengine hmem (statsRead_last _ _ _)) ?_
      refine wp_write (.request hconcluded (List.mem_append_left _ htime)) ?_
      exact listed_last ((((unlisted_of_nil hs).read rfl).read rfl).write rfl) hconcluded rfl

/-- What `authenticate` has noted, and what it returns on behalf of the provider. -/
theorem authenticate_accounted {provider : ForwardAuthProvider} (hroute : AuthRoute x)
    (hprovider : x.config.authProvider = some provider) (hearly : Early t) (hs : linesOf s = []) :
    wpNH (LinesSound (Genuine x version))
      (fun t s e => Unsettled t ∧ Unlisted s ∧ AuthFailed x t e)
      (fun t s result => Unsettled t ∧ Unlisted s ∧
        (∀ headers, result = .success headers →
          (∀ line ∈ linesOf s, line.event ∈ authEvents) ∧
          ∃ response, AuthAccepted x t response ∧ headers = successHeaders response) ∧
        ∀ response, result = .denied response → AuthRefused x t response)
      (authenticate provider x.clientIp x.request.method x.request.uri x.request.headers) t s := by
  unfold authenticate
  split
  · next huri => exact ⟨.of_early hearly, unlisted_of_nil hs, .badUrl hprovider huri⟩
  · next authUri huri =>
    refine wp_write (.verifying hroute hprovider) ?_
    have hverified :
        Unlisted (s ++ [⟨.line (verifyingLine (subject x) x.pathAndQuery provider), ()⟩]) :=
      (unlisted_of_nil hs).write rfl
    rw [wpNH_bind]
    cases hrequest : authSubRequest authUri x.clientIp x.request.method x.request.uri
        x.request.headers with
    | error e => exact ⟨.of_early hearly, hverified, .badRequest hprovider huri hrequest⟩
    | ok request =>
      have hasked : AuthAsked x request := ⟨provider, authUri, hprovider, huri, hrequest⟩
      refine wpNH_ask fun answer => ?_
      have hunsettled : Unsettled (t ++ [⟨.authRequest request, answer⟩]) := by
        refine ⟨never_push hearly.unrefused rfl, never_push hearly.missed rfl, ?_⟩
        intro request' answer' hmem
        rcases List.mem_append.mp hmem with hmem | hmem
        · exact (Unsettled.of_early hearly).unasked request' answer' hmem
        · cases List.mem_singleton.mp hmem
      have hlast : (⟨.authRequest request, answer⟩ : (e : Effect) × e.Reply) ∈
          t ++ [⟨.authRequest request, answer⟩] := List.mem_append_right _ (.head _)
      cases answer with
      | none =>
        refine wp_errorText fun text =>
          wp_write (.networkError hroute hprovider hasked hlast (read_last _ _)) ?_
        exact ⟨hunsettled, (hverified.read rfl).write rfl, .unanswered hasked hlast⟩
      | some response =>
        dsimp only
        split
        · next hsuccess =>
          have haccepted : AuthAccepted x (t ++ [⟨.authRequest request, some response⟩]) response :=
            ⟨hsuccess, request, hasked, hlast⟩
          refine wp_write (.success hroute haccepted) ⟨hunsettled, hverified.write rfl, ?_, ?_⟩
          · intro headers hheaders
            cases hheaders
            refine ⟨?_, response, haccepted, rfl⟩
            rw [linesOf_append, linesOf_append, hs]
            exact List.forall_mem_append.mpr ⟨List.forall_mem_singleton.mpr (.head _),
              List.forall_mem_singleton.mpr (.tail _ (.head _))⟩
          · intro response' hdenied
            cases hdenied
        · next hdenied =>
          have hrefused : AuthRefused x (t ++ [⟨.authRequest request, some response⟩]) response :=
            ⟨eq_false_of_ne_true hdenied, request, hasked, hlast⟩
          have hline : isRequest (refusalLine (subject x) response) = false := by
            unfold refusalLine
            split <;> rfl
          refine wp_write (.refusal hroute hrefused) ⟨hunsettled, hverified.write hline, ?_, ?_⟩
          · intro headers hsuccess
            cases hsuccess
          · intro response' hresponse
            cases hresponse
            exact hrefused

theorem authorise_accounted {m : MatchedRoute} (hm : x.matched = some m) (hearly : Early t)
    (hs : linesOf s = []) :
    wpNH (LinesSound (Genuine x version)) (LoggedAs x version)
      (fun t s _ => Unsettled t ∧ ∀ line ∈ linesOf s, line.event ∈ authEvents)
      (authorise x m) t s := by
  have hmatched : x.payloadTooLarge = true ∨ x.matched ≠ none := by
    rw [hm]
    exact .inr (Option.some_ne_none m)
  unfold authorise
  split
  · next hauth =>
    have hroute : AuthRoute x := ⟨m, hm, hauth⟩
    split
    · next provider hprovider =>
      rw [wpNH_bind, wpNH_attempt]
      refine wpN_mono ?_ (authenticate_accounted hroute hprovider hearly hs)
      intro t s result hresult
      cases result with
      | error e =>
        obtain ⟨hunsettled, hunlisted, hfailed⟩ := hresult
        refine wp_errorText fun text => wp_write (.authError hroute hfailed (read_last _ _)) ?_
        exact .refused ((hunlisted.read rfl).write rfl) (written _) (hunsettled.unreported hmatched)
      | ok verdict =>
        obtain ⟨hunsettled, hunlisted, hsuccess, hdenied⟩ := hresult
        cases verdict with
        | denied response =>
          refine wp_write (.denied hroute (hdenied response rfl)) ?_
          exact .refused (hunlisted.write rfl) (written _) (hunsettled.unreported hmatched)
        | success headers =>
          obtain ⟨hlines, response, haccepted, rfl⟩ := hsuccess headers rfl
          dsimp only
          split
          · exact ⟨hunsettled, hlines⟩
          · refine wp_write (.injected hroute haccepted) ⟨hunsettled, ?_⟩
            rw [linesOf_append]
            refine List.forall_mem_append.mpr ⟨hlines, List.forall_mem_singleton.mpr ?_⟩
            exact .tail _ (.tail _ (.head _))
    · next hprovider =>
      refine wp_write (.misconfiguration hroute hprovider) ?_
      exact .refused ((unlisted_of_nil hs).write rfl) (written _)
        ((Unsettled.of_early hearly).unreported hmatched)
  · refine ⟨.of_early hearly, ?_⟩
    rw [hs]
    exact fun line hline => absurd hline List.not_mem_nil

theorem bypassedFor_reason {engine : ℕ} {response : Response} {exceeds : Bool}
    (hexceeds : exceeds = true → ExceedsLimit t engine response)
    (hkept : ¬ (isStorable x response && !exceeds) = true) :
    BypassedFor x t engine response (bypassReason x response exceeds) := by
  have hstorable : isStorable x response =
      (isStatic x response && !isNoStore response && decide (response.status = .ok)) := rfl
  unfold bypassReason
  split
  · next hstatic => exact .nonStatic (by simpa using hstatic)
  · next hstatic =>
    have hstatic : isStatic x response = true := by simpa using hstatic
    split
    · next hstore => exact .noStore hstatic hstore
    · next hstore =>
      have hstore := eq_false_of_ne_true hstore
      split
      · next hlarge => exact .tooLarge hstatic hstore (hexceeds hlarge)
      · next hlarge =>
        split
        · next hstatus => exact .status hstatic hstore hstatus
        · next hstatus =>
          rw [hstorable, hstatic, hstore, eq_false_of_ne_true hlarge] at hkept
          exact absurd (not_not.mp hstatus) (by simpa using hkept)

omit [CaseMapping] in
/-- Either the size was compared with the limit of the engine, or it counts as small enough. -/
theorem exceedsMaxFileSize_asked {left : ProxyTrace → Except BoxError Response → Prop}
    (response : Response) :
    wpH (fun _ _ => True) left (fun t' exceeds => (∃ later, t' = t ++ later) ∧ ∀ engine,
        x.cacheEngine = some engine → exceeds = true → ExceedsLimit t' engine response)
      (exceedsMaxFileSize x response) t := by
  unfold exceedsMaxFileSize
  split
  · next length engine hlength hengine =>
    refine ⟨trivial, fun (largest : ℕ) => ⟨⟨_, rfl⟩, fun engine' hengine' hlarge => ?_⟩⟩
    rw [hengine] at hengine'
    cases hengine'
    exact ⟨largest, length, of_decide_eq_true hlarge, hlength, List.mem_append_right _ (.head _)⟩
  · exact ⟨⟨[], (List.append_nil t).symm⟩, fun _ _ hlarge => by cases hlarge⟩

theorem store_accounted {response : Response} {request : ForwardedRequest} {m : MatchedRoute}
    (hm : x.matched = some m) (hpassed : PassedOn x m response) (hunlisted : Unlisted s)
    (hmem : (⟨.upstreamRequest request, some response⟩ : (e : Effect) × e.Reply) ∈ t) :
    wpNH (LinesSound (Genuine x version)) (LoggedAs x version)
      (fun t s final => Unlisted s ∧ Concluded x t (final.status.code, upstreamOf x))
      (store x response) t s := by
  have hconcluded : ∀ later, Concluded x (t ++ later) (response.status.code, upstreamOf x) := by
    intro later
    rw [upstreamOf_matched hm]
    exact .answered hm hpassed (List.mem_append_left _ hmem)
  unfold store
  rw [wpNH_bind, wpNH_silent]
  refine wpH_mono ?_ (exceedsMaxFileSize_asked response)
  rintro t' exceeds ⟨⟨later, rfl⟩, hexceeds⟩
  split
  · next engine hengine =>
    split
    · rw [wpNH_silent]
      unfold collectAndStore
      split
      · refine ⟨trivial, fun _ => ⟨hunlisted, ?_⟩⟩
        rw [List.append_assoc]
        exact hconcluded _
      · exact ⟨hunlisted, hconcluded later⟩
    · next hkept =>
      have hfetched : Fetched (t ++ later) response := ⟨request, List.mem_append_left _ hmem⟩
      have hreason := bypassedFor_reason (hexceeds engine hengine) hkept
      refine wp_cacheStats fun stats =>
        wp_write (.bypassed hengine hfetched hreason (statsRead_last _ _ _)) ?_
      exact ⟨(hunlisted.read rfl).write rfl, hconcluded later⟩
  · exact ⟨hunlisted, hconcluded later⟩

theorem relay_accounted {m : MatchedRoute} {request : ForwardedRequest} {answer : Option Response}
    (hm : x.matched = some m) (hunsettled : Unsettled t) (hunlisted : Unlisted s) :
    wpNH (LinesSound (Genuine x version)) (LoggedAs x version)
      (fun t s final => Unlisted s ∧ Concluded x t (final.status.code, upstreamOf x))
      (relay x m answer) (t ++ [⟨.upstreamRequest request, answer⟩]) s := by
  have hmem : (⟨.upstreamRequest request, answer⟩ : (e : Effect) × e.Reply) ∈
      t ++ [⟨.upstreamRequest request, answer⟩] := List.mem_append_right _ (.head _)
  cases answer with
  | none =>
    refine wp_errorText fun text => wp_write (.connectFailed hm hmem (read_last _ _)) ?_
    refine ⟨(hunlisted.read rfl).write rfl, ?_⟩
    rw [upstreamOf_matched hm, status_errorResponse]
    exact .unanswered hm hmem
  | some response =>
    unfold relay
    dsimp only
    split
    · next hupgrade =>
      refine wpNH_ask fun _ => ⟨hunlisted, ?_⟩
      rw [upstreamOf_matched hm]
      exact .answered hm (.inl hupgrade) (List.mem_append_left _ hmem)
    · next hupgrade =>
      split
      · next hintercept =>
        have hintercepted : Intercepted x m response := by
          rw [Bool.and_eq_true] at hintercept
          exact hintercept
        refine wp_write (.intercepted hm ⟨request, hmem⟩ hintercepted) ?_
        exact .refused (hunlisted.write rfl) (written _)
          (hunsettled.unreported_intercepted hm hupgrade hintercepted)
      · next hintercept =>
        refine store_accounted hm (.inr fun h => hintercept ?_) hunlisted hmem
        rw [Bool.and_eq_true]
        exact h

theorem dispatch_accounted (hadmitted : x.payloadTooLarge = false) (hearly : Early t)
    (hs : linesOf s = []) :
    wpNH (LinesSound (Genuine x version)) (LoggedAs x version)
      (fun t s final => Unlisted s ∧ Concluded x t (final.status.code, upstreamOf x))
      (dispatch x) t s := by
  unfold dispatch
  split
  · next m hm =>
    unfold forward
    rw [wpNH_bind]
    refine wpNH_mono ?_ (authorise_accounted hm hearly hs)
    intro t s authHeaders ⟨hunsettled, hlines⟩
    split
    · refine .failed hlines (hunsettled.unreported (.inr ?_))
      rw [hm]
      exact Option.some_ne_none m
    · exact wpNH_ask fun answer => relay_accounted hm hunsettled (unlisted_of_authEvents hlines)
  · next hnone =>
    refine wp_write (.noMatchingRoute ⟨hadmitted, hearly.unrefused⟩ hnone) ?_
    refine ⟨(unlisted_of_nil hs).write rfl, ?_⟩
    rw [upstreamOf_unmatched hnone]
    exact .unrouted ⟨hadmitted, hearly.unrefused⟩ hearly.missed hnone

/-- Every line of a request comes after what it tells, and at the end the log accounts for
the request. -/
theorem handleRequest_accounted (x : Exchange) (version : Version) :
    wpN (LinesSound (Genuine x version)) (LoggedAs x version) (handleRequest x version) [] [] := by
  unfold handleRequest
  rw [wpN_run, wpNH_bind]
  refine wpNH_mono ?_ admission_accounted
  intro t s _ ⟨⟨hearly, hadmitted⟩, hs⟩
  rw [wpNH_bind]
  refine wpNH_mono ?_ (lookup_accounted hearly hs)
  intro t s _ ⟨hearly, hs⟩
  rw [wpNH_bind]
  refine wpNH_mono ?_ (dispatch_accounted hadmitted hearly hs)
  intro t s response ⟨hunlisted, hconcluded⟩
  refine wp_elapsed fun micros => wp_write (.request hconcluded (read_last _ _)) ?_
  exact listed_last (hunlisted.read rfl) hconcluded rfl

end Accounts

end BarebonesProxy.RequestLog
