import BarebonesProxy.RunningTasks

set_option autoImplicit false

/-!
# HTTPS routes and plaintext connections

A connection is encrypted or not by the configuration of its accept. A request is routed
by the configuration of its arrival, and routing does not look at the transport.
-/
namespace BarebonesProxy.Running
open RustNet RustStrings RustState ProxyConfig Routing Http Cache LruMap RuntimeConfig Server
open EffectPrograms Proxy ProxyProtocol Worker Runs

theorem covers_https {route : Route} {host path : Str} (hhttps : isHttps route = true)
    (hcovers : covers route host path = true) :
    startsWith ("https://".toList ++ host ++ path) route.requestEndpoint = true := by
  unfold covers at hcovers
  rw [Bool.or_eq_true] at hcovers
  rcases hcovers with hplain | hsecure
  · unfold isHttps startsWith at hhttps
    unfold startsWith at hplain
    rw [List.isPrefixOf_iff_prefix] at hhttps hplain
    have hscheme := hhttps.trans hplain
    rw [List.append_assoc] at hscheme
    simp [List.cons_prefix_cons] at hscheme
  · exact hsecure

section Clear
variable [TlsCrate]

def AcceptorCovers (config : ActiveConfig) : Prop :=
  config.tlsAcceptor = none → ∀ route ∈ config.router.routes, isHttps route = false

theorem snapshot_covers {env : Environment} {config : Config} {acceptor : Option TlsAcceptor}
    (h : buildTlsAcceptor env.loadCertifiedKey config.routes = .ok acceptor)
    (generation : UInt64) (manager : ℕ) (engine : Option ℕ) :
    AcceptorCovers (snapshot config generation acceptor manager engine) := by
  intro hnone
  have hacceptor : acceptor = none := hnone
  rw [hacceptor] at h
  exact buildTlsAcceptor_none h

variable [HttpCrate]

/-- The request has gone to the upstream or is about to. -/
def Forwarded (task : RequestTask) : Prop :=
  (∃ request answer,
    (⟨.upstreamRequest request, answer⟩ : (e : Effect) × e.Reply) ∈ task.trace) ∨
  ∃ request k, task.program = some (.op (.upstreamRequest request) k)

def selectedRoute (x : Exchange) : Option Route := x.config.router.selected x.host x.path

variable [LruCrate]

/-- No request of a plaintext connection is forwarded through an HTTPS route. -/
def NeverInClear (s : System) : Prop :=
  ∀ (task : RequestTask) (connection : Connection) (route : Route), task ∈ s.requests →
    s.connections[task.connection]? = some connection →
    connection.accepted.tlsAcceptor = none → Forwarded task →
    selectedRoute task.exchange = some route → isHttps route = false

/-- A request that arrives in clear finds a configuration without TLS, or one where each
HTTPS endpoint that begins its URL stands behind another route that covers it. -/
def ArrivesSafely (s : System) : Action → Prop
  | .request i request => ∀ connection : Connection, s.connections[i]? = some connection →
      connection.accepted.tlsAcceptor = none →
      s.server.config.tlsAcceptor = none ∨
      ∀ earlier route later, s.server.config.router.routes = earlier ++ route :: later →
        isHttps route = true →
        startsWith ("https://".toList ++ hostOf request.uri request.headers ++ request.uri.path)
          route.requestEndpoint = true →
        ∃ other ∈ earlier, covers other (hostOf request.uri request.headers) request.uri.path = true
  | _ => True

/-- Each request is on a connection, and one in clear is not matched to an HTTPS route. -/
structure InClear (s : System) : Prop where
  covers : AcceptorCovers s.server.config
  tasks : ∀ task ∈ s.requests, ∃ connection, s.connections[task.connection]? = some connection ∧
    (connection.accepted.tlsAcceptor = none →
      ∀ route, selectedRoute task.exchange = some route → isHttps route = false)

theorem start_inClear {env : Environment} {config : Config} {server : ServerState}
    (h : ServerState.new env config = .returned (.ok server)) : InClear (System.start server) := by
  obtain ⟨acceptor, htls, rfl⟩ := new_cases h
  exact ⟨snapshot_covers htls _ _ _, fun task htask => nomatch htask⟩

/-- The configuration that a request arrives under does not match it to an HTTPS route. -/
theorem arrived_inClear {s : System} (hcovers : AcceptorCovers s.server.config) {i : ℕ}
    {request : Request} (hsafe : ArrivesSafely s (.request i request)) {connection : Connection}
    (hfound : s.connections[i]? = some connection) (hclear : connection.accepted.tlsAcceptor = none)
    {x : Exchange} (hconfig : x.config = s.server.config) (hrequest : x.request = request)
    {route : Route} (hroute : selectedRoute x = some route) : isHttps route = false := by
  by_contra hhttps
  rw [Bool.not_eq_false] at hhttps
  unfold selectedRoute at hroute
  rw [hconfig] at hroute
  obtain ⟨hfirst, earlier, later, hroutes, hskipped⟩ := List.find?_eq_some_iff_append.mp hroute
  rcases hsafe connection hfound hclear with hplain | hbehind
  · have hmem : route ∈ s.server.config.router.routes := by
      rw [hroutes]
      exact List.mem_append_right _ (.head _)
    rw [hcovers hplain route hmem] at hhttps
    cases hhttps
  · have hbegins := covers_https hhttps hfirst
    unfold Exchange.host Exchange.path at hbegins hskipped
    rw [hrequest] at hbegins hskipped
    obtain ⟨other, hmem, hother⟩ := hbehind earlier route later hroutes hhttps hbegins
    have hmissed := hskipped other hmem
    rw [hother] at hmissed
    cases hmissed

variable [CaseMapping]

theorem reload_covers {server : ServerState} (h : AcceptorCovers server.config)
    (env : Environment) : AcceptorCovers (server.reload env).config := by
  rcases reload_cases server env with ⟨-, config, acceptor, -, -, htls, heq⟩ | ⟨-, -, heq⟩ | ⟨heq, -⟩
  · rw [heq]
    exact snapshot_covers htls _ _ _
  · rw [heq]
    exact h
  · rw [heq]
    exact h

theorem step_covers {s : System} (h : AcceptorCovers s.server.config) (a : Action) :
    AcceptorCovers (s.step a).server.config := by
  cases a with
  | reload env => exact reload_covers h env
  | _ =>
    rw [step_config s]
    · exact h
    · intro env heq
      cases heq

theorem step_inClear (s : System) (a : Action) (h : InClear s) (hsafe : ArrivesSafely s a) :
    InClear (s.step a) := by
  refine ⟨step_covers h.covers a, ?_⟩
  intro task' htask'
  rcases step_tasks s a htask' with
    ⟨task, htask, hexchange, hconnection⟩ |
    ⟨i, request, connection, rfl, hfound, hi, hconfig, hrequest⟩
  · obtain ⟨connection, hfound, hclear⟩ := h.tasks task htask
    obtain ⟨connection', hfound', haccepted⟩ := step_accepted s a hfound
    refine ⟨connection', hconnection ▸ hfound', ?_⟩
    rw [haccepted, hexchange]
    exact hclear
  · have hconnections : (s.step (.request i request)).connections = s.connections :=
      (request_frame s i request).2
    refine ⟨connection, ?_, ?_⟩
    · rw [hconnections, hi]
      exact hfound
    · intro hclear route hroute
      exact arrived_inClear h.covers hsafe hfound hclear hconfig hrequest hroute

/-- In a run whose requests all arrive safely, no request of a plaintext connection goes
through an HTTPS route. -/
theorem never_in_clear_along_run {env : Environment} {config : Config} {server : ServerState}
    (hstart : ServerState.new env config = .returned (.ok server)) (actions : List Action)
    (hsafe : ∀ before a, before ++ [a] <+: actions →
      ArrivesSafely ((System.start server).after before) a) :
    ∀ before, before <+: actions → NeverInClear ((System.start server).after before) := by
  intro before hrun
  have hclear := always_of_steps step_inClear (start_inClear hstart) hsafe before hrun
  intro task connection route htask hconnection hplain _ hroute
  obtain ⟨connection', hfound, hselected⟩ := hclear.tasks task htask
  have hsame : connection' = connection := Option.some.inj (hfound.symm.trans hconnection)
  exact hselected (hsame ▸ hplain) route hroute

end Clear

section Example
open ListCrates

def secureText : String :=
  "listen 8080;\nroute https://a/ \x7b\nupstream http://b;\ncert /c;\nkey /k;\n\x7d\n"

def plainAnswer : Answer := ⟨none, true⟩

def plainVisit : List Action :=
  [.accept ⟨[], .eof⟩ ⟨.v4 ⟨10, 0, 0, 1⟩, 4000⟩, .connect 0 plainAnswer, .connect 0 plainAnswer]

def cartRequest : Request :=
  ⟨.get, ⟨none, some "/cart".toList⟩, [(HeaderName.host, "a".toList)], .full []⟩

def isUpstream : ((e : Effect) × e.Reply) → Bool
  | ⟨.upstreamRequest _, _⟩ => true
  | _ => false

def RequestTask.routing (task : RequestTask) : ℕ × Bool × Option Bool :=
  (task.connection, task.trace.any isUpstream, (selectedRoute task.exchange).map isHttps)

/-- Beside the route of host `a`, now one over TLS for another host. -/
def sharedText : String :=
  "listen 8080;\nroute http://a/ \x7b\nupstream http://b;\n\x7d\n" ++
    "route https://shop/ \x7b\nupstream http://b;\ncert /c;\nkey /k;\n\x7d\n"

def sharedRun : List Action :=
  plainVisit ++ [.reload (sampleEnv sharedText true), .request 0 cartRequest] ++
    List.replicate 3 (.serve 0 plainAnswer)

/-- Whatever is published during the run, no HTTPS endpoint begins the URL of the cart. -/
theorem sharedRun_apart : ∀ before, before <+: sharedRun →
    (((System.start plainServer).after before).server.config.router.routes.all
      fun route => !(isHttps route &&
        startsWith ("https://".toList ++ "a".toList ++ "/cart".toList) route.requestEndpoint)) =
      true := by
  refine forall_prefix_of_take ?_
  decide +kernel

theorem plain_visit_clear :
    ((System.start plainServer).after sharedRun).server.config.tlsAcceptor.isSome = true ∧
      ((System.start plainServer).after sharedRun).requests[0]?.map RequestTask.routing =
        some (0, true, some false) ∧
      NeverInClear ((System.start plainServer).after sharedRun) := by
  refine ⟨by decide +kernel, by decide +kernel,
    never_in_clear_along_run new_plain sharedRun ?_ sharedRun List.prefix_rfl⟩
  intro before a hrun
  cases a with
  | request i request =>
    have hmem : Action.request i request ∈ sharedRun :=
      hrun.subset (List.mem_append_right _ (.head _))
    obtain ⟨rfl, rfl⟩ : i = 0 ∧ request = cartRequest := by
      simpa [sharedRun, plainVisit] using hmem
    have hbefore : before <+: sharedRun := (List.prefix_append before _).trans hrun
    intro connection _ _
    refine .inr fun earlier route later hroutes hhttps hbegins => ?_
    have hall := sharedRun_apart before hbefore
    rw [hroutes, List.all_append, List.all_cons, hhttps] at hall
    have hbegins : startsWith ("https://".toList ++ "a".toList ++ "/cart".toList)
        route.requestEndpoint = true := hbegins
    rw [hbegins] at hall
    simp at hall
  | _ => trivial

def reloadedRun : List Action :=
  plainVisit ++ [.reload (sampleEnv secureText true), .request 0 cartRequest] ++
    List.replicate 3 (.serve 0 plainAnswer)

/-- A connection accepted in clear goes on in clear to the new HTTPS route. -/
theorem https_route_served_in_clear :
    ((System.start plainServer).after reloadedRun).connections[0]?.map
        (fun connection => connection.accepted.tlsAcceptor.isNone) = some true ∧
      ((System.start plainServer).after reloadedRun).requests[0]?.map RequestTask.routing =
        some (0, true, some true) ∧
      ¬ NeverInClear ((System.start plainServer).after reloadedRun) := by
  have hconnection : ((System.start plainServer).after reloadedRun).connections[0]?.map
      (fun connection => connection.accepted.tlsAcceptor.isNone) = some true := by
    decide +kernel
  have hrouting : ((System.start plainServer).after reloadedRun).requests[0]?.map
      RequestTask.routing = some (0, true, some true) := by
    decide +kernel
  refine ⟨hconnection, hrouting, fun hclear => ?_⟩
  obtain ⟨connection, hfound, hplain⟩ := Option.map_eq_some_iff.mp hconnection
  obtain ⟨task, htask, hview⟩ := Option.map_eq_some_iff.mp hrouting
  unfold RequestTask.routing at hview
  simp only [Prod.mk.injEq] at hview
  obtain ⟨hzero, hsent, hroute⟩ := hview
  obtain ⟨route, hselected, hhttps⟩ := Option.map_eq_some_iff.mp hroute
  obtain ⟨⟨e, reply⟩, hmem, hupstream⟩ := List.any_eq_true.mp hsent
  cases e with
  | upstreamRequest request =>
    have hfalse := hclear task connection route (List.mem_of_getElem? htask) (hzero ▸ hfound)
      (Option.isNone_iff_eq_none.mp hplain) (.inl ⟨request, reply, hmem⟩) hselected
    rw [hfalse] at hhttps
    cases hhttps
  | _ => cases hupstream

end Example

end BarebonesProxy.Running
