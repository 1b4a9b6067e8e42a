import BarebonesProxy.RunningHits

set_option autoImplicit false

/-!
# Authentication and the cache

A request that goes to the upstream of a protected route has been accepted before. The
cache is looked up earlier than that, so what it holds is given to anyone.
-/
namespace BarebonesProxy.Running
open RustNet RustStrings RustState ProxyConfig Http Cache LruMap RuntimeConfig Server
open EffectPrograms Proxy ProxyProtocol Worker Runs

section Gate
variable [HttpCrate] [TlsCrate]

def Protected (task : RequestTask) : Prop :=
  ∃ m, task.exchange.matched = some m ∧ m.authRequired = true

def Accepted (task : RequestTask) : Prop :=
  ∃ response, AuthAccepted task.exchange task.trace response

/-- The response to request `i` has content that the upstream gave to request `j`: its own
answer, or the asset of a cache hit. -/
def Carries (i : ℕ) (task : RequestTask) (j : ℕ) : Prop :=
  (i = j ∧ ∃ response, Fetched task.trace response) ∨ task.source = some j

variable [LruCrate]

/-- Content of protected routes is only returned to requests that the provider accepted. -/
def Gated (s : System) : Prop :=
  ∀ (i j : ℕ) (task other : RequestTask) (response : Response),
    s.requests[i]? = some task → s.requests[j]? = some other →
    task.program = some (.pure (.ok response)) → Carries i task j → Protected other →
    Accepted task

/-- A request about to look up its key finds no fresh asset from a protected route. -/
def LookupHarmless (s : System) : Action → Prop
  | .serve i _ => ∀ (task other : RequestTask) (engine : ℕ) (key : Str)
      (k : Option CachedAsset → Program (Except BoxError Response)) (asset : CachedAsset) (j : ℕ),
      s.requests[i]? = some task → task.program = some (.op (.cacheGet engine key) k) →
      (key, asset) ∈ (s.server.heap.engines engine).held → asset.isExpired s.now = false →
      s.origin engine key = some j → s.requests[j]? = some other → ¬ Protected other
  | _ => True

def HitsOpen (s : System) : Prop :=
  ∀ (j : ℕ) (task other : RequestTask), task ∈ s.requests → task.source = some j →
    s.requests[j]? = some other → ¬ Protected other

theorem hitsOpen_iff (s : System) : HitsOpen s ↔
    HitsRelated (fun _ y => ¬ ∃ m, y.matched = some m ∧ m.authRequired = true) s := Iff.rfl

theorem lookupHarmless_iff (s : System) (a : Action) : LookupHarmless s a ↔
    LookupRelated (fun _ y => ¬ ∃ m, y.matched = some m ∧ m.authRequired = true) s a := by
  cases a <;> exact Iff.rfl

theorem start_gated (server : ServerState) : Gated (System.start server) := by
  intro i j task other response htask
  cases htask

variable [CaseMapping] {s : System}

theorem accepted_of_fetched {task : RequestTask} (h : Tracked s task) {response : Response}
    (hfetch : Fetched task.trace response) (hprotected : Protected task) : Accepted task := by
  obtain ⟨p, hreach, -⟩ := h.reached
  obtain ⟨request, hmem⟩ := hfetch
  obtain ⟨t₁, t₂, ht, m, headers, hm, hauth, -⟩ := permitted_of_mem hreach hmem
  obtain ⟨m', hm', hrequired⟩ := hprotected
  have hsame : m' = m := Option.some.inj (hm'.symm.trans hm)
  rw [Authorised, if_pos (hsame ▸ hrequired)] at hauth
  obtain ⟨accepted, ⟨hsuccess, sub, hasked, hsub⟩, -⟩ := hauth
  refine ⟨accepted, hsuccess, sub, hasked, ?_⟩
  rw [ht]
  exact List.mem_append_left _ hsub

/-- A request answered by the cache is finished, and the provider was never asked. -/
theorem hit_unasked {task : RequestTask} (h : Tracked s task) {j : ℕ}
    (hsource : task.source = some j) :
    (∃ response, task.program = some (.pure (.ok response))) ∧ ¬ Accepted task := by
  obtain ⟨p, hreach, hsame⟩ := h.reached
  obtain ⟨asset, engine, key, hmem⟩ := hit_of_source h hsource
  obtain ⟨hend, t', ht, hsent⟩ := hit_last hreach hmem
  obtain ⟨hsome, -⟩ := h.hit engine key asset hmem
  obtain ⟨q, hq⟩ := Option.isSome_iff_exists.mp hsome
  refine ⟨⟨hitResponse asset, by rw [hq, hsame q hq, hend]⟩, ?_⟩
  intro ⟨response, _, request, _, hasked⟩
  rw [ht] at hasked
  rcases List.mem_append.mp hasked with hasked | hasked
  · exact absurd (hsent _ hasked) (by simp [isSent])
  · cases List.mem_singleton.mp hasked

theorem gated_iff (h : Consistent s) : Gated s ↔ HitsOpen s := by
  constructor
  · intro hgated j task other htask hsource hother hprotected
    obtain ⟨i, hi⟩ := List.mem_iff_getElem?.mp htask
    obtain ⟨⟨response, hfinished⟩, hunasked⟩ := hit_unasked (h.tasks task htask) hsource
    exact hunasked (hgated i j task other response hi hother hfinished (.inr hsource) hprotected)
  · intro hopen i j task other response htask hother _ hcarries hprotected
    rcases hcarries with ⟨rfl, answer, hfetch⟩ | hsource
    · have hsame : other = task := Option.some.inj (hother.symm.trans htask)
      rw [hsame] at hprotected
      exact accepted_of_fetched (h.tasks task (List.mem_of_getElem? htask)) hfetch hprotected
    · exact absurd hprotected (hopen j task other (List.mem_of_getElem? htask) hsource hother)

/-- Of all steps, only a lookup can break the gate. -/
theorem step_gated_iff (hc : Consistent s) (hgated : Gated s) (a : Action) :
    Gated (s.step a) ↔ LookupHarmless s a := by
  rw [gated_iff (step_consistent s a hc), hitsOpen_iff, lookupHarmless_iff]
  rw [gated_iff hc, hitsOpen_iff] at hgated
  exact step_related_iff hc hgated a

end Gate

section Uncached
variable [HttpCrate] [TlsCrate] [LruCrate]

def Uncached (s : System) : Prop :=
  ∀ task ∈ s.requests, Protected task → task.exchange.cacheEngine = none

/-- A request that is matched to a protected route finds its caching switched off. -/
def ArrivesUncached (s : System) : Action → Prop
  | .request _ request => ∀ m, s.server.config.router.matchRoute
      (hostOf request.uri request.headers) request.uri.path = some m →
      m.authRequired = true → m.cache = some false
  | _ => True

variable [CaseMapping] {s : System}

theorem Uncached.lookupHarmless (hc : Consistent s) (h : Uncached s) (a : Action) :
    LookupHarmless s a := by
  cases a with
  | serve i answer =>
    intro task other engine key k asset j _ _ hheld _ horigin hother hprotected
    obtain ⟨i, hi, insertion, ⟨supplier, hsupplier, hmem⟩, -⟩ := hc.held engine key asset hheld
    have hij : i = j := Option.some.inj (hi.symm.trans horigin)
    rw [hij] at hsupplier
    have hsame : supplier = other := Option.some.inj (hsupplier.symm.trans hother)
    rw [hsame] at hmem
    have htask := List.mem_of_getElem? hother
    obtain ⟨p, hreach, -⟩ := (hc.tasks other htask).reached
    obtain ⟨-, -, -, used, -, -, hused, -⟩ := permitted_of_mem hreach hmem
    rw [h other htask hprotected] at hused
    cases hused
  | _ => trivial

theorem step_uncached (h : Uncached s) {a : Action} (harrives : ArrivesUncached s a) :
    Uncached (s.step a) := by
  intro task' htask' ⟨m, hm, hauth⟩
  rcases step_tasks s a htask' with
    ⟨task, htask, hexchange, -⟩ | ⟨i, request, connection, rfl, -, -, hconfig, hrequest⟩
  · rw [hexchange] at hm ⊢
    exact h task htask ⟨m, hm, hauth⟩
  · have hoff : m.cache = some false := by
      refine harrives m ?_ hauth
      rw [← hconfig, ← hrequest]
      exact hm
    unfold Exchange.cacheEngine Exchange.routeCacheEnabled
    rw [hm, Option.bind_some, hoff]
    rfl

/-- With `cache off` on every protected route, authentication gates content in every run. -/
theorem gated_of_uncached {env : Environment} {config : Config} {server : ServerState}
    (hstart : ServerState.new env config = .returned (.ok server)) {actions : List Action}
    (harrives : ∀ before a, before ++ [a] <+: actions →
      ArrivesUncached ((System.start server).after before) a) :
    ∀ before, before <+: actions → Gated ((System.start server).after before) := by
  have hsteps : ∀ (s : System) (a : Action), (Consistent s ∧ Gated s ∧ Uncached s) →
      ArrivesUncached s a → Consistent (s.step a) ∧ Gated (s.step a) ∧ Uncached (s.step a) := by
    intro s a ⟨hc, hgated, huncached⟩ ha
    have hharmless := huncached.lookupHarmless hc a
    exact ⟨step_consistent s a hc, (step_gated_iff hc hgated a).mpr hharmless,
      step_uncached huncached ha⟩
  have hfirst : Consistent (System.start server) ∧ Gated (System.start server) ∧
      Uncached (System.start server) :=
    ⟨start_consistent hstart, start_gated server, fun task htask => nomatch htask⟩
  intro before hrun
  exact (always_of_steps hsteps hfirst harrives before hrun).2.1

/-- Authentication gates content all along a run exactly when no lookup of the run finds a
fresh asset from a protected route. With `cache off` on every protected route none does. -/
theorem gated_along_run_iff {env : Environment} {config : Config} {server : ServerState}
    (hstart : ServerState.new env config = .returned (.ok server)) (actions : List Action) :
    ((∀ before, before <+: actions → Gated ((System.start server).after before)) ↔
      ∀ before a, before ++ [a] <+: actions →
        LookupHarmless ((System.start server).after before) a) ∧
    ((∀ before a, before ++ [a] <+: actions →
        ArrivesUncached ((System.start server).after before) a) →
      ∀ before, before <+: actions → Gated ((System.start server).after before)) := by
  refine ⟨?_, gated_of_uncached hstart⟩
  exact always_iff_steps (fun s a _ => step_consistent s a)
    (fun s a _ hc hgated => step_gated_iff hc hgated a) (start_consistent hstart)
    (start_gated server)

end Uncached

section Example
open ListCrates

def vaultText : String :=
  "listen 8080;\nsecurity \x7b\nforward_auth http://auth/verify;\n\x7d\ncache \x7b\nenabled on;\n\x7d\nroute http://a/ \x7b\nupstream http://b;\nauth on;\n\x7d\n"

def vaultConfig : Config where
  listenPort := 8080
  routes := [⟨"http://a/".toList, "http://b".toList, true, none, none, none, none⟩]
  workers := 2
  logfile := none
  security := some { ConfigParser.defaultSecurityConfig with
    forwardAuth := some "http://auth/verify".toList }
  cache := some ConfigParser.defaultCacheConfig
  interceptErrors := none

def vaultServer : ServerState := .started vaultConfig none

set_option maxRecDepth 4000 in
theorem vault_accepted :
    ConfigParser.parseProxyConfig (some 2) vaultText.toList = .ok vaultConfig := by
  unfold vaultText
  exact of_chars (fun s => ConfigParser.parseProxyConfig (some 2) s = .ok vaultConfig)
    (by decide +kernel)

theorem new_vault : ServerState.new (sampleEnv vaultText true) vaultConfig =
    .returned (.ok vaultServer) := rfl

def answering (headers : List (HeaderName × Str)) (body : List UInt8) : Answer :=
  ⟨some ⟨.ok, headers, .full body⟩, true⟩

def visitorAddr : SocketAddr := ⟨.v4 ⟨10, 0, 0, 1⟩, 4000⟩

def styleRequest (headers : List (HeaderName × Str)) : Request :=
  ⟨.get, ⟨none, some "/app.css".toList⟩, (.host, "a".toList) :: headers, .full []⟩

def vaultVisit : List Action :=
  [.accept ⟨[], .eof⟩ visitorAddr, .connect 0 (answering [] []), .connect 0 (answering [] []),
    .request 0 (styleRequest [(.cookie, "session=1".toList)])]

def acceptedVisit : List Action :=
  vaultVisit ++ List.replicate 4 (.serve 0 (answering [] [])) ++
    [.serve 0 (answering [(.contentType, "text/css".toList)] [42]), .serve 0 (answering [] [])]

def RequestTask.summary (task : RequestTask) : Option ℕ × Bool × Option (List UInt8) :=
  (task.source, task.trace.any isSent,
    match task.program with
    | some (.pure (.ok response)) => some response.body.data
    | _ => none)

theorem visit_gated :
    (((System.start vaultServer).after acceptedVisit).requests[0]?.map RequestTask.summary) =
        some (none, true, some [42]) ∧
      Gated ((System.start vaultServer).after acceptedVisit) := by
  refine ⟨by decide +kernel,
    (gated_along_run_iff new_vault acceptedVisit).1.mpr ?_ acceptedVisit List.prefix_rfl⟩
  intro before a hrun
  have hinsert : ∀ b ∈ acceptedVisit, ∀ i, b ≠ .insert i := by
    simp [acceptedVisit, vaultVisit]
  have horigin := after_origin (System.start vaultServer) fun b hb =>
    hinsert b (hrun.subset (List.mem_append_left _ hb))
  cases a with
  | serve i answer =>
    intro task other engine key k asset j _ _ _ _ hj
    rw [horigin] at hj
    cases hj
  | _ => trivial

/-- The body is stored; then the same URL is asked for without the cookie. -/
def vaultRun : List Action :=
  acceptedVisit ++ [.insert 0, .request 0 (styleRequest [])] ++
    List.replicate 3 (.serve 1 (answering [] []))

/-- The second request gets the stored body, and the provider is not asked about it. -/
theorem cached_asset_given_unasked :
    ConfigParser.parseProxyConfig (some 2) vaultText.toList = .ok vaultConfig ∧
      (((System.start vaultServer).after vaultRun).requests[1]?.map RequestTask.summary) =
        some (some 0, false, some [42]) ∧
      ¬ Gated ((System.start vaultServer).after vaultRun) := by
  have hsummary : (((System.start vaultServer).after vaultRun).requests[1]?.map
      RequestTask.summary) = some (some 0, false, some [42]) := by
    decide +kernel
  have hfirst : (((System.start vaultServer).after vaultRun).requests[0]?.bind
      fun task => task.exchange.matched.map (·.authRequired)) = some true := by
    decide +kernel
  refine ⟨vault_accepted, hsummary, fun hgated => ?_⟩
  obtain ⟨task, htask, hview⟩ := Option.map_eq_some_iff.mp hsummary
  obtain ⟨other, hother, hmatched⟩ := Option.bind_eq_some_iff.mp hfirst
  unfold RequestTask.summary at hview
  simp only [Prod.mk.injEq] at hview
  obtain ⟨hsource, hunsent, hbody⟩ := hview
  split at hbody
  · next response hprogram =>
    obtain ⟨answer, -, request, -, hmem⟩ := hgated 1 0 task other response htask hother hprogram
      (.inr hsource) (Option.map_eq_some_iff.mp hmatched)
    rw [List.any_eq_false] at hunsent
    exact hunsent _ hmem rfl
  · cases hbody

end Example

end BarebonesProxy.Running
