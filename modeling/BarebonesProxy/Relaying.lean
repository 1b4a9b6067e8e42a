import BarebonesProxy.ForwardedHeaders

set_option autoImplicit false

/-!
# What follows the upstream's answer

After the request to the upstream, `handle_request` only relays the answer. A response that
may be cached is collected before it is passed on, and the client gets what was collected.
-/
namespace BarebonesProxy.Proxy
open RustNet RustStrings ProxyConfig Routing Http Cache RuntimeConfig EffectPrograms Handler

theorem collect_eq_some {body : Body} (h : body.failed = false) : body.collect = some body.data := by
  rw [Body.collect, h]
  rfl

theorem failed_of_collect {body : Body} {data : List UInt8} (h : body.collect = some data) :
    body.failed = false := by
  unfold Body.collect at h
  split at h
  · cases h
  · next hfailed => exact Bool.of_not_eq_true hfailed

section Limits
variable [HttpCrate]

/-- Every engine that was asked for its largest file size has answered with it. -/
def ReportsLimits (limits : ℕ → ℕ) (t : ProxyTrace) : Prop :=
  ∀ (engine : ℕ) (largest : ℕ),
    (⟨.maxFileSizeBytes engine, largest⟩ : (e : Effect) × e.Reply) ∈ t → largest = limits engine

/-- The response announces a length above the limit. -/
def announcesMore (largest : ℕ) (response : Response) : Bool :=
  match contentLengthOf response.headers with
  | some length => decide (largest < length)
  | none => false

variable [TlsCrate] [CaseMapping]

/-- The response is collected to be stored: there is an engine for it, it may be cached, and
it announces no more than the engine takes. -/
def Collected (limits : ℕ → ℕ) (x : Exchange) (response : Response) : Prop :=
  ∃ engine, x.cacheEngine = some engine ∧ isStorable x response = true ∧
    announcesMore (limits engine) response = false

end Limits

section Store
variable [HttpCrate] [TlsCrate] {x : Exchange} {response : Response} {t : ProxyTrace}
variable {limits : ℕ → ℕ}

/-- An engine that takes the announced length finds the response not too large. -/
theorem exceedsMaxFileSize_reaches {engine : ℕ} (hengine : x.cacheEngine = some engine)
    (hfits : announcesMore (limits engine) response = false)
    (g : Bool → Serving (Except BoxError Response)) :
    ∃ t, ReportsLimits limits t ∧
      Reaches (Handler.run (exceedsMaxFileSize x response >>= g)) t (Handler.run (g false)) := by
  unfold exceedsMaxFileSize
  unfold announcesMore at hfits
  rw [hengine]
  cases hlength : contentLengthOf response.headers with
  | none => exact ⟨[], nofun, .start⟩
  | some length =>
    rw [hlength] at hfits
    refine ⟨[⟨.maxFileSizeBytes engine, limits engine⟩], ?_, ?_⟩
    · intro engine' largest hmem
      cases List.mem_singleton.mp hmem
      rfl
    · rw [← hfits]
      exact Reaches.cons (R := Effect.Reply) (e := .maxFileSizeBytes engine) (r := limits engine)
        .start

variable (limits) in
/-- The size of a response is compared with the limit of the engine. -/
theorem wpH_exceedsMaxFileSize {allowed : ProxyTrace → Effect → Prop}
    {left : ProxyTrace → Except BoxError Response → Prop}
    (hsize : ∀ engine, x.cacheEngine = some engine → allowed t (.maxFileSizeBytes engine)) :
    wpH allowed left (fun t exceeds => ∀ engine, x.cacheEngine = some engine →
      ReportsLimits limits t → exceeds = announcesMore (limits engine) response)
      (exceedsMaxFileSize x response) t := by
  unfold exceedsMaxFileSize announcesMore
  cases contentLengthOf response.headers with
  | none => exact fun _ _ _ => rfl
  | some length =>
    cases hengine : x.cacheEngine with
    | none =>
      intro engine hsome
      cases hsome
    | some engine =>
      refine ⟨hsize engine hengine, fun (largest : ℕ) engine' hsome hreports => ?_⟩
      cases hsome
      rw [hreports engine largest (List.mem_append_right _ (.head _))]

variable [CaseMapping]

/-- What the storing part does: it may ask for the size limit, then it either passes the
response on, or spawns an insertion and passes on what it collected, or loses the body. -/
theorem wpH_store {allowed : ProxyTrace → Effect → Prop}
    {left : ProxyTrace → Except BoxError Response → Prop} {post : ProxyTrace → Response → Prop}
    (limits : ℕ → ℕ)
    (hsize : ∀ engine, x.cacheEngine = some engine → allowed t (.maxFileSizeBytes engine))
    (hbypass : ∀ t, post t (withHeader response .xProxyCache "BYPASS"))
    (hmiss : ∀ t engine body, (ReportsLimits limits t → Collected limits x response) →
      response.body.collect = some body →
        allowed t (.spawnInsert (insertionOf x engine response body)) ∧
        post (t ++ [⟨.spawnInsert (insertionOf x engine response body), ()⟩])
          (withHeader { response with body := .full body } .xProxyCache "MISS"))
    (hlost : ∀ t, (ReportsLimits limits t → Collected limits x response) →
      response.body.collect = none → post t { response with body := .full [] }) :
    wpH allowed left post (store x response) t := by
  unfold store collectAndStore
  rw [wpH_bind]
  refine wpH_mono ?_ (wpH_exceedsMaxFileSize limits hsize)
  intro t exceeds hexceeds
  split
  · next engine hengine =>
    split
    · next hstore =>
      rw [Bool.and_eq_true, Bool.not_eq_true'] at hstore
      have hcollected : ReportsLimits limits t → Collected limits x response := by
        intro hreports
        refine ⟨engine, hengine, hstore.1, ?_⟩
        rw [← hexceeds engine hengine hreports]
        exact hstore.2
      split
      · next body hbody =>
        rw [wpH_bind]
        obtain ⟨hallowed, hpost⟩ := hmiss t engine body hcollected hbody
        exact ⟨hallowed, fun _ => hpost⟩
      · next hbody => exact hlost t hcollected hbody
    · exact hbypass t
  · exact hbypass t

end Store

section Continuation
variable [HttpCrate] [TlsCrate] [CaseMapping] (x : Exchange)

/-- The end of `handle_request`, from the upstream's answer on. -/
def relaying (m : MatchedRoute) (answer : Option Response) : Program (Except BoxError Response) :=
  Handler.run do
    let response ← relay x m answer
    return .ok { response with headers := injectSecurityHeaders response.headers }

/-- A request to the upstream is followed by the relaying of its answer. -/
def Relays : (e : Effect) → (e.Reply → Program (Except BoxError Response)) → Prop
  | .upstreamRequest _, k => ∃ m, x.matched = some m ∧ ∀ answer, k answer = relaying x m answer
  | _, _ => True

variable {x} {t : ProxyTrace}

/-- None of the operations of a part is a request to the upstream. -/
def Quiet {α : Type} (part : Serving α) (post : α → Prop) : Prop :=
  ∀ t, wpH (fun _ e => ∀ k, Relays x e k) (fun _ _ => True) (fun _ a => post a) part t

theorem checkClient_quiet {P : Prop} (hP : P) : Quiet (x := x) (checkClient x) fun _ => P := by
  intro t
  unfold checkClient
  split
  · exact hP
  · unfold checkBlacklist checkRateLimit
    simp only [wpH_bind]
    refine ⟨fun _ => trivial, fun banned => ?_⟩
    cases banned with
    | true => trivial
    | false =>
      refine ⟨fun _ => trivial, fun counted => ?_⟩
      cases counted with
      | error count => trivial
      | ok count => exact hP

theorem admission_quiet {P : Prop} (hP : P) : Quiet (x := x) (admission x) fun _ => P := by
  intro t
  unfold admission
  rw [wpH_bind]
  refine wpH_mono ?_ (checkClient_quiet hP t)
  intro t _ _
  unfold checkBodySize
  split
  · trivial
  · exact hP

theorem lookup_quiet {P : Prop} (hP : P) : Quiet (x := x) (lookup x) fun _ => P := by
  intro t
  unfold lookup
  split
  · exact hP
  · rw [wpH_bind]
    refine ⟨fun _ => trivial, fun found => ?_⟩
    cases found with
    | none => exact hP
    | some asset => trivial

theorem authorise_quiet (m : MatchedRoute) {post : HeaderMap → Prop} (hpost : ∀ headers, post headers) :
    Quiet (x := x) (authorise x m) post := by
  intro t
  unfold authorise
  split
  · split
    · next provider _ =>
      rw [wpH_bind, wpH_attempt]
      have hasked : wpH (fun _ e => ∀ k, Relays x e k) (fun _ _ => True) (fun _ _ => True)
          (authenticate provider x.clientIp x.request.method x.request.uri x.request.headers) t := by
        unfold authenticate
        split
        · trivial
        · next authUri _ =>
          cases authSubRequest authUri x.clientIp x.request.method x.request.uri
              x.request.headers with
          | error e => trivial
          | ok request =>
            refine ⟨fun _ => trivial, fun answer => ?_⟩
            cases answer <;> trivial
      refine wp_mono ?_ hasked
      intro t result _
      match result with
      | .ok (.success headers) => exact hpost headers
      | .ok (.denied response) => trivial
      | .error e => trivial
    · trivial
  · exact hpost _

theorem store_quiet (response : Response) : Quiet (x := x) (store x response) fun _ => True := by
  intro t
  exact wpH_store (fun _ => 0) (fun _ _ _ => trivial) (fun _ => trivial)
    (fun _ _ _ _ _ => ⟨fun _ => trivial, trivial⟩) (fun _ _ _ => trivial)

theorem relay_quiet (m : MatchedRoute) (answer : Option Response) :
    Quiet (x := x) (relay x m answer) fun _ => True := by
  intro t
  unfold relay
  split
  · trivial
  · split
    · rw [wpH_bind]
      exact ⟨fun _ => trivial, fun _ => trivial⟩
    · split
      · trivial
      · exact store_quiet _ t

theorem handleRequest_relays : (handleRequest x).Every (Relays x) := by
  unfold handleRequest
  refine every_run_bind (t := []) (admission_quiet ?_ [])
  refine every_run_bind (t := []) (lookup_quiet ?_ [])
  unfold dispatch
  split
  · next m hm =>
    unfold forward
    rw [bind_assoc]
    refine every_run_bind (t := []) (authorise_quiet m (fun headers => ?_) [])
    split
    · trivial
    · next request _ =>
      refine ⟨⟨m, hm, fun answer => rfl⟩, fun answer => ?_⟩
      exact every_run_bind (t := []) (wpH_mono (fun _ _ _ => trivial) (relay_quiet m answer []))
  · trivial

/-- Whatever the upstream answers, the rest of the run relays it. -/
theorem relays_answer {request : ForwardedRequest}
    {k : Option Response → Program (Except BoxError Response)}
    (h : Reaches (handleRequest x) t (.op (.upstreamRequest request) k)) :
    ∃ m, x.matched = some m ∧ ∀ answer, k answer = relaying x m answer :=
  handleRequest_relays.of_reaches h

end Continuation

section Stored
variable [HttpCrate] [TlsCrate] [CaseMapping] {x : Exchange} {m : MatchedRoute} {response : Response}
variable {limits : ℕ → ℕ}

/-- An insertion into the cache can be spawned in the rest of the run, with these limits of
the engines. -/
def MayInsert (limits : ℕ → ℕ) (p : Program (Except BoxError Response)) : Prop :=
  ∃ t insertion k, ReportsLimits limits t ∧ Reaches p t (.op (.spawnInsert insertion) k)

theorem isStorable_status (h : isStorable x response = true) : response.status = .ok := by
  unfold isStorable at h
  simp only [Bool.and_eq_true, decide_eq_true_eq] at h
  exact h.2

/-- A response with status 200 is neither a tunnel nor an error to replace. -/
theorem relay_ok (hstatus : response.status = .ok) : relay x m (some response) = store x response := by
  unfold relay
  have htunnel : ¬ (response.status = .switchingProtocols ∧ isUpgradeRequest x.request.headers) := by
    rintro ⟨hswitch, -⟩
    rw [hstatus] at hswitch
    exact absurd hswitch (by decide)
  have herror : (response.status.isClientError || response.status.isServerError) = false := by
    rw [hstatus]
    rfl
  dsimp only
  rw [if_neg htunnel, herror, Bool.and_false, if_neg (by decide)]

variable {f : Response → Serving (Except BoxError Response)}

theorem store_reaches_insert (h : Collected limits x response) {body : List UInt8}
    (hbody : response.body.collect = some body) :
    ∃ t insertion k, ReportsLimits limits t ∧
      Reaches (Handler.run (store x response >>= f)) t (.op (.spawnInsert insertion) k) := by
  obtain ⟨engine, hengine, hstore, hfits⟩ := h
  unfold store collectAndStore
  rw [hengine, hstore, hbody, bind_assoc]
  obtain ⟨t, hreports, ht⟩ : ∃ t, ReportsLimits limits t ∧
      Reaches (Handler.run (exceedsMaxFileSize x response >>= _)) t _ :=
    exceedsMaxFileSize_reaches hengine hfits _
  exact ⟨t, _, _, hreports, ht⟩

theorem store_reaches_lost (h : Collected limits x response)
    (hbody : response.body.collect = none) :
    ∃ t, ReportsLimits limits t ∧ Reaches (Handler.run (store x response >>= f)) t
      (Handler.run (f { response with body := .full [] })) := by
  obtain ⟨engine, hengine, hstore, hfits⟩ := h
  unfold store collectAndStore
  rw [hengine, hstore, hbody, bind_assoc]
  exact exceedsMaxFileSize_reaches hengine hfits _

def Storing (limits : ℕ → ℕ) (x : Exchange) (response : Response) (t : ProxyTrace) :
    Effect → Prop
  | .spawnInsert _ => ReportsLimits limits t →
      Collected limits x response ∧ response.body.failed = false
  | _ => True

variable (limits) in
theorem relaying_storing : wp (Storing limits x response) (fun _ _ => True)
    (relaying x m (some response)) [] := by
  unfold relaying
  rw [wp_run, wpH_bind]
  unfold relay
  dsimp only
  split
  · rw [wpH_bind]
    exact ⟨trivial, fun _ => trivial⟩
  · split
    · trivial
    · refine wpH_store limits (fun _ _ => trivial) (fun _ => trivial) ?_ (fun _ _ _ => trivial)
      intro t engine body hcollected hbody
      exact ⟨fun hreports => ⟨hcollected hreports, failed_of_collect hbody⟩, trivial⟩

/-- What an insertion takes: a response that is collected, and a body that came to its end. -/
theorem mayInsert_iff : MayInsert limits (relaying x m (some response)) ↔
    Collected limits x response ∧ response.body.failed = false := by
  constructor
  · rintro ⟨t, insertion, k, hreports, hreach⟩
    exact allowed_of_reaches (relaying_storing limits) hreach hreports
  · rintro ⟨hcollected, hfailed⟩
    obtain ⟨engine, -, hstore, -⟩ := id hcollected
    unfold relaying
    rw [relay_ok (isStorable_status hstore)]
    exact store_reaches_insert hcollected (collect_eq_some hfailed)

end Stored

section Bodies
variable [HttpCrate] [TlsCrate] [CaseMapping] {x : Exchange} {m : MatchedRoute} {response : Response}
variable {limits : ℕ → ℕ}

/-- In every run with these limits of the engines, the client gets the status of the
upstream's response, and all of its body or the failure of it. -/
def Delivers (limits : ℕ → ℕ) (p : Program (Except BoxError Response)) (response : Response) :
    Prop :=
  ∀ t result, ReportsLimits limits t → Reaches p t (.pure result) → ∃ final, result = .ok final ∧
    final.status = response.status ∧ final.body.collect = response.body.collect

theorem delivers_relaying (hstatus : response.status = .ok)
    (hbody : Collected limits x response → response.body.failed = false) :
    Delivers limits (relaying x m (some response)) response := by
  have hsame : wp (fun _ _ => True) (fun t result => ReportsLimits limits t → ∃ final,
      result = .ok final ∧ final.status = response.status ∧
        final.body.collect = response.body.collect) (relaying x m (some response)) [] := by
    unfold relaying
    rw [wp_run, wpH_bind, relay_ok hstatus]
    refine wpH_store limits (fun _ _ => trivial) ?_ ?_ ?_
    · exact fun t _ => ⟨_, rfl, rfl, rfl⟩
    · intro t engine body _ hcollect
      exact ⟨trivial, fun _ => ⟨_, rfl, rfl, hcollect.symm⟩⟩
    · intro t hcollected hcollect hreports
      rw [collect_eq_some (hbody (hcollected hreports))] at hcollect
      cases hcollect
  intro t result hreports hreach
  exact post_of_reaches hsame hreach hreports

/-- The client gets what the upstream sent, unless a response that is collected to be stored
fails half-way. -/
theorem delivers_iff {t : ProxyTrace} {request : ForwardedRequest}
    {k : Option Response → Program (Except BoxError Response)}
    (h : Reaches (handleRequest x) t (.op (.upstreamRequest request) k))
    (hstatus : response.status = .ok) (limits : ℕ → ℕ) :
    Delivers limits (k (some response)) response ↔
      ¬ (Collected limits x response ∧ response.body.failed = true) := by
  obtain ⟨m, -, hk⟩ := relays_answer h
  rw [hk]
  constructor
  · rintro hdelivers ⟨hcollected, hfailed⟩
    have hnone : response.body.collect = none := by
      rw [Body.collect, hfailed]
      rfl
    unfold relaying at hdelivers
    rw [relay_ok hstatus] at hdelivers
    obtain ⟨t', hreports, hreach⟩ := store_reaches_lost hcollected hnone
    obtain ⟨final, hfinal, -, hcollect⟩ := hdelivers t' _ hreports hreach
    cases hfinal
    rw [hnone] at hcollect
    cases hcollect
  · intro hbody
    refine delivers_relaying hstatus fun hcollected => ?_
    by_contra hfailed
    exact hbody ⟨hcollected, Bool.of_not_eq_false hfailed⟩

end Bodies

section Shop
open ListCrates

/-- A style sheet is asked for on a route with a cache and without authentication. -/
def sheetExchange : Exchange where
  config := { shopConfig with
    router := ⟨[{ shopRoute with authRequired := false }]⟩
    cacheEngine := some 0 }
  peerAddr := ⟨.v4 ⟨10, 0, 0, 1⟩, 4000⟩
  isProxyProtocol := false
  request := ⟨.get, ⟨some "shop.test".toList, some "/site.css".toList⟩,
    ([] : List (HeaderName × Str)), .full []⟩

def sheetRun : ProxyTrace × Program (Except BoxError Response) :=
  follow (shopAnswer []) 3 (handleRequest sheetExchange)

theorem sheetRun_reaches : Reaches (handleRequest sheetExchange) sheetRun.1 sheetRun.2 :=
  reaches_follow _ _ _

def sheetResponse (lines : List (HeaderName × Str)) (failed : Bool) : Response :=
  ⟨.ok, lines, ⟨[123, 125], failed⟩⟩

def sheetLimits (_ : ℕ) : ℕ := 1024

/-- A complete body is delivered, and so is the failure of one that announces too much. -/
theorem complete_sheet_delivered :
    ∃ request k, sheetRun.2 = .op (.upstreamRequest request) k ∧
      Delivers sheetLimits (k (some (sheetResponse [] false))) (sheetResponse [] false) ∧
      Delivers sheetLimits (k (some (sheetResponse [(.contentLength, "1025".toList)] true)))
        (sheetResponse [(.contentLength, "1025".toList)] true) := by
  refine ⟨_, _, rfl, (delivers_iff sheetRun_reaches rfl sheetLimits).mpr ?_,
    (delivers_iff sheetRun_reaches rfl sheetLimits).mpr ?_⟩
  · rintro ⟨-, hfailed⟩
    cases hfailed
  · rintro ⟨⟨engine, -, -, hfits⟩, -⟩
    have hmore : announcesMore 1024 (sheetResponse [(.contentLength, "1025".toList)] true) =
        true := by decide
    cases hmore.symm.trans hfits

/-- A body that fails half-way reaches the client as an empty one that is complete. -/
theorem failed_sheet_emptied :
    ∃ request k final, sheetRun.2 = .op (.upstreamRequest request) k ∧
      k (some (sheetResponse [] true)) = .pure (.ok final) ∧ final.status = .ok ∧
      final.body.collect = some [] ∧
      ¬ Delivers sheetLimits (k (some (sheetResponse [] true))) (sheetResponse [] true) := by
  refine ⟨_, _, _, rfl, rfl, rfl, rfl, fun hdelivers => ?_⟩
  obtain ⟨final, hfinal, -, hcollect⟩ := hdelivers [] _ nofun .start
  cases hfinal
  cases hcollect

end Shop

end BarebonesProxy.Proxy
