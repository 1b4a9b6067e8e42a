import BarebonesProxy.HeaderLines
import BarebonesProxy.Relaying

set_option autoImplicit false

/-!
# The order of the operations of a request

Every operation of `handle_request` has a stage, and a request only goes up through the
stages. The first two are the checks of the security manager, on an address that every
request has; the last one hands the connection to a tunnel or spawns an insertion.
-/
namespace BarebonesProxy.Proxy
open RustNet RustStrings ProxyConfig Routing Http Cache RuntimeConfig ErrorPages EffectPrograms
open Handler

section Client
variable [HttpCrate] [TlsCrate] (x : Exchange)

theorem clientAddr_of_direct (h : x.isProxyProtocol = false) : x.clientAddr = x.peerAddr.ip := by
  have hparse := parse_clientIp x
  unfold Exchange.clientIp clientIpOf at hparse
  rw [h, if_neg Bool.false_ne_true, IpAddr.parse_display] at hparse
  exact (Option.some.inj hparse).symm

end Client

section Stages
variable [HttpCrate]

def stage : Effect → ℕ
  | .isBlacklisted _ _ => 0
  | .checkAndRecordRequest _ _ => 1
  | .cacheGet _ _ => 2
  | .authRequest _ => 3
  | .upstreamRequest _ => 4
  | .maxFileSizeBytes _ => 5
  | .spawnInsert _ | .spawnTunnel _ => 6
  | .recordTlsFailure _ _ | .tlsHandshake => 7

/-- Everything so far belongs to stages below `n`. -/
def Before (n : ℕ) (t : ProxyTrace) : Prop := ∀ s ∈ t, stage s.1 < n

theorem Before.push {n : ℕ} {t : ProxyTrace} {s : (e : Effect) × e.Reply} (h : Before n t)
    (hs : stage s.1 = n) : Before (n + 1) (t ++ [s]) := by
  refine List.forall_mem_append.mpr ⟨fun y hy => Nat.lt_succ_of_lt (h y hy), ?_⟩
  exact List.forall_mem_singleton.mpr (hs ▸ Nat.lt_succ_self _)

theorem Before.mono {n k : ℕ} {t : ProxyTrace} (h : Before n t) (hn : n ≤ k) : Before k t :=
  fun s hs => lt_of_lt_of_le (h s hs) hn

variable [TlsCrate] (x : Exchange)

def blacklistAsked (banned : Bool) : (e : Effect) × e.Reply :=
  ⟨.isBlacklisted x.config.securityManager x.clientAddr, banned⟩

def requestRecorded (counted : Except ℕ ℕ) : (e : Effect) × e.Reply :=
  ⟨.checkAndRecordRequest x.config.securityManager x.clientAddr, counted⟩

/-- The two checks come first, and both have let the client pass. -/
def Screened (t : ProxyTrace) : Prop :=
  ∃ count rest, t = blacklistAsked x false :: requestRecorded x (.ok count) :: rest

theorem Screened.push {x : Exchange} {t : ProxyTrace} (h : Screened x t)
    (s : (e : Effect) × e.Reply) : Screened x (t ++ [s]) := by
  obtain ⟨count, rest, rfl⟩ := h
  exact ⟨count, rest ++ [s], rfl⟩

/-- The request passes the checks with the second reply. -/
theorem Screened.of_push {x : Exchange} {t : ProxyTrace} {s : (e : Effect) × e.Reply}
    (h : Screened x (t ++ [s])) :
    Screened x t ∨ ∃ count, t = [blacklistAsked x false] ∧ s = requestRecorded x (.ok count) := by
  obtain ⟨count, rest, hrest⟩ := h
  rcases List.eq_nil_or_concat rest with rfl | ⟨rest, last, rfl⟩
  · have hpair : t ++ [s] = [blacklistAsked x false] ++ [requestRecorded x (.ok count)] := hrest
    obtain ⟨ht, hs⟩ := List.append_inj' hpair rfl
    exact .inr ⟨count, ht, (List.cons.inj hs).1⟩
  · rw [List.concat_eq_append, ← List.cons_append, ← List.cons_append] at hrest
    exact .inl ⟨count, rest, (List.append_inj' hrest rfl).1⟩

/-- The client asked for an upgrade and the upstream of its route has just agreed to it. -/
def Upgraded (t : ProxyTrace) (upstreamAddr : Str) : Prop :=
  isUpgradeRequest x.request.headers = true ∧ ∃ t' m request response,
    x.matched = some m ∧ upstreamAddr = m.upstreamAddr ∧ response.status = .switchingProtocols ∧
    t = t' ++ [⟨.upstreamRequest request, some response⟩]

/-- What has happened before an operation. -/
def Preceded (t : ProxyTrace) : Effect → Prop
  | .isBlacklisted manager ip =>
    t = [] ∧ manager = x.config.securityManager ∧ ip = x.clientAddr
  | .checkAndRecordRequest manager ip =>
    t = [blacklistAsked x false] ∧ manager = x.config.securityManager ∧ ip = x.clientAddr
  | .recordTlsFailure _ _ | .tlsHandshake => False
  | .spawnTunnel upstreamAddr => (Before 6 t ∧ Screened x t) ∧ Upgraded x t upstreamAddr
  | e => Before (stage e) t ∧ Screened x t

/-- Where the status and the body of a response come from. -/
inductive Source (t : ProxyTrace) (response : Response) : Prop
  | page {page : Response} (hpage : page = noResponse444 ∨ ∃ status message,
        page = x.errorResponse status message)
      (hstatus : response.status = page.status) (hbody : response.body = page.body) :
      Source t response
  | cache {engine : ℕ} {asset : CachedAsset}
      (hmem : (⟨.cacheGet engine x.cacheKey, some asset⟩ : (e : Effect) × e.Reply) ∈ t)
      (hstatus : response.status = asset.status) (hbody : response.body = .full asset.body) :
      Source t response
  | provider {request : AuthRequest} {reply : Response}
      (hmem : (⟨.authRequest request, some reply⟩ : (e : Effect) × e.Reply) ∈ t)
      (hdenied : reply.status.isSuccess = false) (hstatus : response.status = reply.status)
      (hbody : response.body = reply.body) : Source t response
  | upstream {request : ForwardedRequest} {reply : Response}
      (hmem : (⟨.upstreamRequest request, some reply⟩ : (e : Effect) × e.Reply) ∈ t)
      (hstatus : response.status = reply.status)
      (hbody : response.body = reply.body ∨
        reply.body.failed = true ∧ response.body = .full []) : Source t response

/-- How a request ends: turned away by a check, or behind both of them. -/
inductive Settled (t : ProxyTrace) : Except BoxError Response → Prop
  | banned (ht : t = [blacklistAsked x true]) : Settled t (.ok noResponse444)
  | limited {count : ℕ} (ht : t = [blacklistAsked x false, requestRecorded x (.error count)]) :
      Settled t (.ok x.rateLimitPage)
  | behind {result : Except BoxError Response} (hscreened : Screened x t)
      (hsource : ∀ response, result = .ok response → Source x t response) : Settled t result

end Stages

section Sources
variable [HttpCrate] [TlsCrate] {x : Exchange} {t : ProxyTrace} {response : Response}

theorem Source.headers (h : Source x t response) (headers : HeaderMap) :
    Source x t { response with headers } := by
  cases h with
  | page hpage hstatus hbody => exact .page hpage hstatus hbody
  | cache hmem hstatus hbody => exact .cache hmem hstatus hbody
  | provider hmem hdenied hstatus hbody => exact .provider hmem hdenied hstatus hbody
  | upstream hmem hstatus hbody => exact .upstream hmem hstatus hbody

theorem Source.push (h : Source x t response) (s : (e : Effect) × e.Reply) :
    Source x (t ++ [s]) response := by
  cases h with
  | page hpage hstatus hbody => exact .page hpage hstatus hbody
  | cache hmem hstatus hbody => exact .cache (List.mem_append_left _ hmem) hstatus hbody
  | provider hmem hdenied hstatus hbody =>
    exact .provider (List.mem_append_left _ hmem) hdenied hstatus hbody
  | upstream hmem hstatus hbody => exact .upstream (List.mem_append_left _ hmem) hstatus hbody

theorem source_page (status : StatusCode) (message : ErrorMessage) :
    Source x t (x.errorResponse status message) := .page (.inr ⟨status, message, rfl⟩) rfl rfl

theorem settled_ok (hscreened : Screened x t) (hsource : Source x t response) :
    Settled x t (.ok response) := by
  refine .behind hscreened fun response' hresponse => ?_
  cases hresponse
  exact hsource

end Sources

section Order
variable [HttpCrate] [TlsCrate] {x : Exchange} {t : ProxyTrace}

theorem checkBlacklist_order :
    wpH (Preceded x) (Settled x) (fun t _ => t = [blacklistAsked x false])
      (checkBlacklist x x.clientAddr) [] := by
  unfold checkBlacklist
  rw [wpH_bind]
  refine ⟨⟨rfl, rfl, rfl⟩, fun banned => ?_⟩
  cases banned with
  | true => exact .banned rfl
  | false => exact rfl

theorem checkRateLimit_order :
    wpH (Preceded x) (Settled x) (fun t _ => Before 2 t ∧ Screened x t)
      (checkRateLimit x x.clientAddr) [blacklistAsked x false] := by
  unfold checkRateLimit
  rw [wpH_bind]
  refine ⟨⟨rfl, rfl, rfl⟩, fun counted => ?_⟩
  cases counted with
  | error count => exact .limited rfl
  | ok count =>
    refine ⟨Before.push (n := 1) ?_ rfl, count, [], rfl⟩
    exact List.forall_mem_singleton.mpr Nat.zero_lt_one

theorem checkClient_order :
    wpH (Preceded x) (Settled x) (fun t _ => Before 2 t ∧ Screened x t) (checkClient x) [] := by
  unfold checkClient
  rw [parse_clientIp]
  dsimp only
  rw [wpH_bind]
  refine wpH_mono ?_ checkBlacklist_order
  rintro t _ rfl
  exact checkRateLimit_order

theorem admission_order :
    wpH (Preceded x) (Settled x) (fun t _ => Before 2 t ∧ Screened x t) (admission x) [] := by
  unfold admission
  rw [wpH_bind]
  refine wpH_mono ?_ checkClient_order
  intro t _ ⟨hbefore, hscreened⟩
  unfold checkBodySize
  split
  · exact settled_ok hscreened (source_page _ _)
  · exact ⟨hbefore, hscreened⟩

theorem lookup_order (hbefore : Before 2 t) (hscreened : Screened x t) :
    wpH (Preceded x) (Settled x) (fun t _ => Before 3 t ∧ Screened x t) (lookup x) t := by
  unfold lookup
  split
  · exact ⟨hbefore.mono (by decide), hscreened⟩
  · next engine _ =>
    rw [wpH_bind]
    refine ⟨⟨hbefore, hscreened⟩, fun found => ?_⟩
    cases found with
    | none => exact ⟨hbefore.push rfl, hscreened.push _⟩
    | some asset =>
      exact settled_ok (hscreened.push _)
        (.cache (List.mem_append_right _ (.head _)) rfl rfl)

theorem authenticate_order {provider : ForwardAuthProvider} (hbefore : Before 3 t)
    (hscreened : Screened x t) :
    wpH (Preceded x) (fun t _ => Screened x t)
      (fun t result => Before 4 t ∧ Screened x t ∧ ∀ response, result = .denied response →
        Source x t response)
      (authenticate provider x.clientIp x.request.method x.request.uri x.request.headers) t := by
  unfold authenticate
  split
  · exact hscreened
  · next authUri _ =>
    cases authSubRequest authUri x.clientIp x.request.method x.request.uri x.request.headers with
    | error e => exact hscreened
    | ok request =>
      refine ⟨⟨hbefore, hscreened⟩, fun answer => ?_⟩
      cases answer with
      | none => exact hscreened.push _
      | some reply =>
        refine ⟨hbefore.push rfl, hscreened.push _, fun response hdenied => ?_⟩
        unfold verdictOf at hdenied
        split at hdenied
        · cases hdenied
        · next hstatus =>
          cases hdenied
          refine .provider (List.mem_append_right _ (.head _)) ?_ rfl rfl
          exact eq_false_of_ne_true hstatus

theorem authorise_order (m : MatchedRoute) (hbefore : Before 3 t) (hscreened : Screened x t) :
    wpH (Preceded x) (Settled x) (fun t _ => Before 4 t ∧ Screened x t) (authorise x m) t := by
  unfold authorise
  split
  · split
    · rw [wpH_bind, wpH_attempt]
      refine wp_mono ?_ (authenticate_order hbefore hscreened)
      intro t result hresult
      match result with
      | .ok (.success headers) => exact ⟨hresult.1, hresult.2.1⟩
      | .ok (.denied response) => exact settled_ok hresult.2.1 (hresult.2.2 response rfl)
      | .error e => exact settled_ok hresult (source_page _ _)
    · exact settled_ok hscreened (source_page _ _)
  · exact ⟨hbefore.mono (by decide), hscreened⟩

theorem exceedsMaxFileSize_order {reply : Response} (hbefore : Before 5 t)
    (hscreened : Screened x t) (hsource : Source x t reply)
    {request : ForwardedRequest}
    (hmem : (⟨.upstreamRequest request, some reply⟩ : (e : Effect) × e.Reply) ∈ t) :
    wpH (Preceded x) (Settled x)
      (fun t _ => Before 6 t ∧ Screened x t ∧ Source x t reply ∧
        (⟨.upstreamRequest request, some reply⟩ : (e : Effect) × e.Reply) ∈ t)
      (exceedsMaxFileSize x reply) t := by
  unfold exceedsMaxFileSize
  split
  · rw [wpH_bind]
    refine ⟨⟨hbefore, hscreened⟩, fun largest => ?_⟩
    exact ⟨hbefore.push rfl, hscreened.push _, hsource.push _,
      List.mem_append_left _ hmem⟩
  · exact ⟨hbefore.mono (by decide), hscreened, hsource, hmem⟩

variable [CaseMapping]

theorem store_order {reply : Response} {request : ForwardedRequest} (hbefore : Before 5 t)
    (hscreened : Screened x t)
    (hmem : (⟨.upstreamRequest request, some reply⟩ : (e : Effect) × e.Reply) ∈ t) :
    wpH (Preceded x) (Settled x) (fun t response => Screened x t ∧ Source x t response)
      (store x reply) t := by
  unfold store collectAndStore
  rw [wpH_bind]
  have hreply : Source x t reply := .upstream hmem rfl (.inl rfl)
  refine wpH_mono ?_ (exceedsMaxFileSize_order hbefore hscreened hreply hmem)
  intro t exceeds ⟨hbefore, hscreened, hsource, hmem⟩
  split
  · split
    · split
      · next body hbody =>
        rw [wpH_bind]
        refine ⟨⟨hbefore, hscreened⟩, fun _ => ⟨hscreened.push _, ?_⟩⟩
        have hsame : Body.full body = reply.body := by
          unfold Body.collect at hbody
          split at hbody
          · cases hbody
          · next hfailed =>
            cases hbody
            unfold Body.full
            rw [← eq_false_of_ne_true hfailed]
        exact .upstream (List.mem_append_left _ hmem) rfl (.inl hsame)
      · next hnone =>
        refine ⟨hscreened, .upstream hmem rfl (.inr ⟨?_, rfl⟩)⟩
        unfold Body.collect at hnone
        split at hnone
        · next hfailed => exact hfailed
        · cases hnone
    · exact ⟨hscreened, hsource.headers _⟩
  · exact ⟨hscreened, hsource.headers _⟩

theorem relay_order {m : MatchedRoute} {request : ForwardedRequest} {answer : Option Response}
    {t' : ProxyTrace} (hm : x.matched = some m) (hbefore : Before 5 t) (hscreened : Screened x t)
    (ht : t = t' ++ [⟨.upstreamRequest request, answer⟩]) :
    wpH (Preceded x) (Settled x) (fun t response => Screened x t ∧ Source x t response)
      (relay x m answer) t := by
  unfold relay
  split
  · exact ⟨hscreened, source_page _ _⟩
  · next reply =>
    have hmem : (⟨.upstreamRequest request, some reply⟩ : (e : Effect) × e.Reply) ∈ t :=
      ht ▸ List.mem_append_right _ (.head _)
    split
    · next hupgrade =>
      rw [wpH_bind]
      refine ⟨⟨⟨hbefore.mono (by decide), hscreened⟩, hupgrade.2, t', m, request, reply, hm, rfl,
        hupgrade.1, ht⟩, fun _ => ⟨hscreened.push _, ?_⟩⟩
      exact .upstream (List.mem_append_left _ hmem) rfl (.inl rfl)
    · split
      · exact settled_ok hscreened (Source.headers (source_page _ _) _)
      · exact store_order hbefore hscreened hmem

theorem dispatch_order (hbefore : Before 3 t) (hscreened : Screened x t) :
    wpH (Preceded x) (Settled x) (fun t response => Screened x t ∧ Source x t response)
      (dispatch x) t := by
  unfold dispatch
  split
  · next m hm =>
    unfold forward
    rw [wpH_bind]
    refine wpH_mono ?_ (authorise_order m hbefore hscreened)
    intro t headers ⟨hbefore, hscreened⟩
    split
    · exact .behind hscreened fun _ h => nomatch h
    · rw [wpH_bind]
      refine ⟨⟨hbefore, hscreened⟩, fun answer => ?_⟩
      exact relay_order hm (hbefore.push rfl) (hscreened.push _) rfl
  · exact ⟨hscreened, .page (.inl rfl) rfl rfl⟩

/-- Every operation of a request comes in its place, and every result has its source. -/
theorem handleRequest_order (x : Exchange) :
    wp (Preceded x) (Settled x) (handleRequest x) [] := by
  unfold handleRequest
  rw [wp_run, wpH_bind]
  refine wpH_mono ?_ admission_order
  intro t _ ⟨hbefore, hscreened⟩
  rw [wpH_bind]
  refine wpH_mono ?_ (lookup_order hbefore hscreened)
  intro t _ ⟨hbefore, hscreened⟩
  rw [wpH_bind]
  refine wpH_mono ?_ (dispatch_order hbefore hscreened)
  intro t response ⟨hscreened, hsource⟩
  exact settled_ok hscreened (hsource.headers _)

end Order

section Facts
variable [HttpCrate] [TlsCrate] {x : Exchange} {t : ProxyTrace}

theorem Preceded.before {e : Effect} (h : Preceded x t e) : Before (stage e) t ∧ stage e < 7 := by
  cases e with
  | isBlacklisted manager ip =>
    rw [h.1]
    exact ⟨nofun, by simp [stage]⟩
  | checkAndRecordRequest manager ip =>
    rw [h.1]
    exact ⟨List.forall_mem_singleton.mpr Nat.zero_lt_one, by simp [stage]⟩
  | recordTlsFailure manager ip => exact h.elim
  | tlsHandshake => exact h.elim
  | spawnTunnel upstreamAddr => exact ⟨h.1.1, by simp [stage]⟩
  | _ => exact ⟨h.1, by simp [stage]⟩

theorem Preceded.screened {e : Effect} (h : Preceded x t e) (he : 2 ≤ stage e) : Screened x t := by
  cases e with
  | isBlacklisted manager ip => simp [stage] at he
  | checkAndRecordRequest manager ip => simp [stage] at he
  | recordTlsFailure manager ip => exact h.elim
  | tlsHandshake => exact h.elim
  | spawnTunnel upstreamAddr => exact h.1.2
  | _ => exact h.2

variable {p : Program (Except BoxError Response)}

/-- Where a request stands with the security manager. -/
inductive Screening (x : Exchange) : ProxyTrace → Program (Except BoxError Response) → Prop
  | unasked {k : Bool → Program (Except BoxError Response)} :
      Screening x [] (.op (.isBlacklisted x.config.securityManager x.clientAddr) k)
  | banned : Screening x [blacklistAsked x true] (.pure (.ok noResponse444))
  | unbanned {k : Except ℕ ℕ → Program (Except BoxError Response)} :
      Screening x [blacklistAsked x false]
        (.op (.checkAndRecordRequest x.config.securityManager x.clientAddr) k)
  | limited {count : ℕ} :
      Screening x [blacklistAsked x false, requestRecorded x (.error count)]
        (.pure (.ok x.rateLimitPage))
  | passed {t : ProxyTrace} {p : Program (Except BoxError Response)} (h : Screened x t) :
      Screening x t p

/-- Short of the checks nothing else is done, and the only results are the two refusals. -/
theorem Screening.refused (h : Screening x t p) (hout : ¬ Screened x t) :
    Before 2 t ∧ ∀ result, p = .pure result → result = .ok noResponse444 ∨
      result = .ok x.rateLimitPage := by
  have hfirst : ∀ banned, stage (blacklistAsked x banned).1 < 2 := fun _ => Nat.zero_lt_two
  have hsecond : ∀ counted, stage (requestRecorded x counted).1 < 2 := fun _ => Nat.one_lt_two
  cases h with
  | unasked => exact ⟨nofun, nofun⟩
  | banned =>
    refine ⟨List.forall_mem_singleton.mpr (hfirst true), fun result hresult => ?_⟩
    cases hresult
    exact .inl rfl
  | unbanned => exact ⟨List.forall_mem_singleton.mpr (hfirst false), nofun⟩
  | limited =>
    refine ⟨List.forall_mem_cons.mpr ⟨hfirst false, List.forall_mem_singleton.mpr (hsecond _)⟩,
      fun result hresult => ?_⟩
    cases hresult
    exact .inr rfl
  | passed hscreened => exact absurd hscreened hout

variable [CaseMapping]

/-- The stages of a trace go up, so that no operation is performed twice. -/
theorem stages_increase (h : Reaches (handleRequest x) t p) :
    (t.map fun s => stage s.1).Pairwise (· < ·) ∧ Before 7 t := by
  induction h with
  | start => exact ⟨.nil, nofun⟩
  | @reply t e k hreach r ih =>
    obtain ⟨hbefore, hlast⟩ := (allowed_of_reaches (handleRequest_order x) hreach).before
    refine ⟨?_, List.forall_mem_append.mpr ⟨ih.2, List.forall_mem_singleton.mpr hlast⟩⟩
    rw [List.map_append, List.pairwise_append]
    refine ⟨ih.1, List.pairwise_singleton _ _, ?_⟩
    intro n hn k hk
    obtain ⟨s, hs, rfl⟩ := List.mem_map.mp hn
    rw [List.mem_singleton.mp hk]
    exact hbefore s hs

/-- Nothing is done for a request after an operation of the last stage. -/
theorem last_of_stage {e : Effect} {r : e.Reply} (h : Reaches (handleRequest x) t p)
    (hmem : (⟨e, r⟩ : (e : Effect) × e.Reply) ∈ t) (hstage : stage e = 6) :
    ∃ t', t = t' ++ [⟨e, r⟩] := by
  obtain ⟨t₁, t₂, rfl⟩ := List.append_of_mem hmem
  obtain ⟨hsorted, hbefore⟩ := stages_increase h
  obtain rfl : t₂ = [] := by
    refine List.eq_nil_iff_forall_not_mem.mpr fun s hs => ?_
    rw [List.map_append, List.map_cons, List.pairwise_append, List.pairwise_cons] at hsorted
    have hlow : stage e < stage s.1 := hsorted.2.1.1 _ (List.mem_map_of_mem hs)
    have hhigh := hbefore s (List.mem_append_right _ (.tail _ hs))
    omega
  exact ⟨t₁, rfl⟩

theorem screening_of_reaches (h : Reaches (handleRequest x) t p) : Screening x t p := by
  have hwp := wp_reaches (handleRequest_order x) h
  cases p with
  | pure result =>
    cases hwp with
    | banned ht => exact ht ▸ .banned
    | limited ht => exact ht ▸ .limited
    | behind hscreened _ => exact .passed hscreened
  | op e k =>
    have hpreceded : Preceded x t e := hwp.1
    by_cases he : 2 ≤ stage e
    · exact .passed (hpreceded.screened he)
    · cases e with
      | isBlacklisted manager ip =>
        obtain ⟨rfl, rfl, rfl⟩ := hpreceded
        exact .unasked
      | checkAndRecordRequest manager ip =>
        obtain ⟨rfl, rfl, rfl⟩ := hpreceded
        exact .unbanned
      | _ => simp [stage] at he

/-- No request goes round the security manager. Its client has an address, that of the peer
unless a header of a trusted one gives another, and before anything else is done for the
request, the blacklist and the rate limit are asked about this address, in this order. -/
theorem request_screened_first (h : Reaches (handleRequest x) t p) :
    IpAddr.parse x.clientIp = some x.clientAddr ∧
      (x.isProxyProtocol = false → x.clientAddr = x.peerAddr.ip) ∧ Screening x t p :=
  ⟨parse_clientIp x, clientAddr_of_direct x, screening_of_reaches h⟩

/-- The response that goes out with a tunnel behind it. -/
def upgradeResponse (response : Response) : Response :=
  { response with headers := injectSecurityHeaders response.headers }

theorem relaying_upgrade {m : MatchedRoute} {response : Response}
    (hstatus : response.status = .switchingProtocols)
    (hupgrade : isUpgradeRequest x.request.headers = true) :
    relaying x m (some response) =
      .op (.spawnTunnel m.upstreamAddr) fun _ => .pure (.ok (upgradeResponse response)) := by
  unfold relaying relay
  dsimp only
  rw [if_pos ⟨hstatus, hupgrade⟩]
  rfl

/-- Right before a tunnel is opened, the upstream of the route has agreed to the upgrade that
the client asked for. -/
theorem tunnel_agreed {upstreamAddr : Str} (h : Reaches (handleRequest x) t p)
    (hmem : (⟨.spawnTunnel upstreamAddr, ()⟩ : (e : Effect) × e.Reply) ∈ t) :
    ∃ t' m request response k, x.matched = some m ∧ upstreamAddr = m.upstreamAddr ∧
      t = t' ++ [⟨.upstreamRequest request, some response⟩] ++ [⟨.spawnTunnel upstreamAddr, ()⟩] ∧
      isUpgradeRequest x.request.headers = true ∧ response.status = .switchingProtocols ∧
      Before 6 (t' ++ [⟨.upstreamRequest request, some response⟩]) ∧ p = k () ∧
      Reaches (handleRequest x) (t' ++ [⟨.upstreamRequest request, some response⟩])
        (.op (.spawnTunnel upstreamAddr) k) := by
  obtain ⟨t₁, rfl⟩ := last_of_stage h hmem rfl
  obtain ⟨k, hreach, rfl⟩ := h.last
  obtain ⟨⟨hbelow, -⟩, hupgrade, t', m, request, response, hm, haddr, hstatus, rfl⟩ :=
    allowed_of_reaches (handleRequest_order x) hreach
  exact ⟨t', m, request, response, k, hm, haddr, rfl, hupgrade, hstatus, hbelow, rfl, hreach⟩

/-- A tunnel to an upstream is opened only for a client that was let in and asked for an
upgrade, after the upstream of its route agreed to it in answer to the authorised request.
Nothing is done for the request after that, and nothing of it is cached. -/
theorem tunnel_only_upgraded {upstreamAddr : Str} (h : Reaches (handleRequest x) t p)
    (hmem : (⟨.spawnTunnel upstreamAddr, ()⟩ : (e : Effect) × e.Reply) ∈ t) :
    ∃ t' m headers request response, x.matched = some m ∧ upstreamAddr = m.upstreamAddr ∧
      t = t' ++ [⟨.upstreamRequest request, some response⟩, ⟨.spawnTunnel upstreamAddr, ()⟩] ∧
      Screened x t' ∧ isUpgradeRequest x.request.headers = true ∧
      response.status = .switchingProtocols ∧ Authorised x m t' headers ∧
      x.forwardedRequest m headers = .ok request ∧
      p = .pure (.ok (upgradeResponse response)) ∧
      ∀ insertion, (⟨.spawnInsert insertion, ()⟩ : (e : Effect) × e.Reply) ∉ t := by
  obtain ⟨t', m, request, response, k, hm, rfl, rfl, hupgrade, hstatus, hbelow, rfl, hreach⟩ :=
    tunnel_agreed h hmem
  obtain ⟨k', hreach', hk'⟩ := hreach.last
  obtain ⟨m', headers, hm', hauth, hrequest⟩ := permitted_of_reaches hreach'
  obtain ⟨m'', hm'', hrelay⟩ := handleRequest_relays.of_reaches hreach'
  obtain rfl : m' = m := Option.some.inj (hm'.symm.trans hm)
  obtain rfl : m'' = m' := Option.some.inj (hm''.symm.trans hm)
  have hscreened : Screened x t' :=
    (allowed_of_reaches (handleRequest_order x) hreach').2
  cases hk'.trans ((hrelay (some response)).trans (relaying_upgrade hstatus hupgrade))
  refine ⟨t', m'', headers, request, response, hm, rfl, ?_, hscreened, hupgrade, hstatus, hauth,
    hrequest, rfl, ?_⟩
  · rw [List.append_assoc]
    rfl
  · intro insertion hinsert
    rcases List.mem_append.mp hinsert with hinsert | hinsert
    · exact absurd (hbelow _ hinsert) (by simp [stage])
    · cases List.mem_singleton.mp hinsert

end Facts

section Shop
open ListCrates

theorem sheet_screened_first :
    Reaches (handleRequest sheetExchange) sheetRun.1 sheetRun.2 ∧
      Screening sheetExchange sheetRun.1 sheetRun.2 :=
  ⟨sheetRun_reaches, (request_screened_first sheetRun_reaches).2.2⟩

def upgradeHeaders : List (HeaderName × Str) :=
  [(.upgrade, "websocket".toList), (.connection, "keep-alive, Upgrade".toList)]

def upgradeAnswer (e : Effect) : e.Reply :=
  match e with
  | .upstreamRequest _ => some ⟨.switchingProtocols, ([] : List (HeaderName × Str)), .full []⟩
  | e => shopAnswer [] e

/-- A request to a route with authentication, followed to its end. -/
def upgradeRun : ProxyTrace × Program (Except BoxError Response) :=
  follow upgradeAnswer 5 (handleRequest (shopExchange upgradeHeaders))

theorem upgrade_tunnelled :
    ∃ t' m request response, (shopExchange upgradeHeaders).matched = some m ∧
      upgradeRun.1 = t' ++ [⟨.upstreamRequest request, some response⟩,
        ⟨.spawnTunnel m.upstreamAddr, ()⟩] ∧
      Screened (shopExchange upgradeHeaders) t' := by
  have hreach : Reaches (handleRequest (shopExchange upgradeHeaders)) upgradeRun.1 upgradeRun.2 :=
    reaches_follow _ _ _
  have hmem : (⟨.spawnTunnel "10.0.0.9:8080".toList, ()⟩ : (e : Effect) × e.Reply) ∈
      upgradeRun.1 := List.mem_of_getElem? (i := 4) rfl
  obtain ⟨t', m, headers, request, response, hm, haddr, ht, hscreened, -⟩ :=
    tunnel_only_upgraded hreach hmem
  exact ⟨t', m, request, response, hm, haddr ▸ ht, hscreened⟩

end Shop

end BarebonesProxy.Proxy
