import BarebonesProxy.ClearText
import BarebonesProxy.ConfigText
import BarebonesProxy.RunningTasks
import BarebonesProxy.TlsResolver

set_option autoImplicit false

/-!
# The configurations of a run

Connections and requests go on with the configuration they loaded while reloads publish new
ones. All of them were written in some accepted text, and their generations say which came
first.
-/
namespace BarebonesProxy.Running
open RustNet RustStrings RustState ProxyConfig Routing Http Cache LruMap RuntimeConfig Server
open ConfigParser EffectPrograms Proxy ProxyProtocol Worker Runs

section Engines
variable [HttpCrate] [LruCrate]

theorem cacheEngineFor_isSome (cache : Option CacheConfig) :
    (cacheEngineFor cache).isSome = true ↔ ∃ c, cache = some c ∧ c.enabled = true := by
  cases cache with
  | none => simp [cacheEngineFor]
  | some c => cases h : c.enabled <;> simp [cacheEngineFor, h]

theorem placeEngine_isSome (heap : Heap) (engine : Option LruCacheEngine) :
    (heap.placeEngine engine).1.isSome = engine.isSome := by
  cases engine <;> rfl

end Engines

section Complete
variable [TlsCrate]

/-- What the requests under a configuration rely on is there. -/
structure Complete (config : ActiveConfig) : Prop where
  routes : config.router.routes ≠ []
  auth : ∀ route ∈ config.router.routes, route.authRequired = true →
    ∃ authUrl, config.security.bind (·.forwardAuth) = some authUrl ∧
      config.authProvider = some ⟨authUrl⟩
  plain : config.tlsAcceptor = none ↔ ∀ route ∈ config.router.routes, isHttps route = false
  certificates : ∀ acceptor, config.tlsAcceptor = some acceptor →
    ∀ route ∈ config.router.routes, isHttps route = true →
    ∃ hostname key, extractHostnameFromEndpoint route.requestEndpoint = some hostname ∧
      acceptor.resolver.resolve (some hostname) = some key
  cache : config.cacheEngine.isSome = true ↔ ∃ c, config.cacheConfig = some c ∧ c.enabled = true

/-- A configuration that a text says, whose certificates load, is complete. -/
theorem complete_of_writable {availableParallelism : Option ℕ} {config : Config}
    (h : Writable availableParallelism config)
    {loadCertifiedKey : Str → Str → Except ProxyError CertifiedKey}
    {acceptor : Option TlsAcceptor}
    (htls : buildTlsAcceptor loadCertifiedKey config.routes = .ok acceptor) (generation : UInt64)
    (manager : ℕ) {engine : Option ℕ}
    (hengine : engine.isSome = true ↔ ∃ c, config.cache = some c ∧ c.enabled = true) :
    Complete (snapshot config generation acceptor manager engine) where
  routes := h.routes_ne_nil
  auth route hroute hauth := by
    obtain ⟨authUrl, hurl⟩ :=
      Option.isSome_iff_exists.mp (h.auth (List.any_eq_true.mpr ⟨route, hroute, hauth⟩))
    refine ⟨authUrl, hurl, ?_⟩
    change (config.security.bind (·.forwardAuth)).map _ = _
    rw [hurl]
    rfl
  plain := by
    change acceptor = none ↔ ∀ route ∈ config.routes, isHttps route = false
    rw [← buildTlsAcceptor_none_iff loadCertifiedKey, htls]
    simp
  certificates found hfound route hroute hhttps := by
    have hacceptor : acceptor = some found := hfound
    rw [hacceptor] at htls
    obtain ⟨-, hall, hresolve⟩ := buildTlsAcceptor_some htls
    have hmem : route ∈ config.routes.filter isHttps := List.mem_filter.mpr ⟨hroute, hhttps⟩
    obtain ⟨hostname, -, hname, -⟩ := hall route hmem
    obtain ⟨key, hkey⟩ := exists_lastFor hall hmem hname
    exact ⟨hostname, key, hname, (hresolve hostname key).mpr hkey⟩
  cache := hengine

theorem writable_of_load [CaseMapping] {env : Environment} {config : Config}
    (h : loadConfigFromPath env = .ok config) : Writable env.availableParallelism config := by
  unfold loadConfigFromPath at h
  split at h
  · cases h
  · split at h
    · cases h
    · next hparse =>
      cases h
      exact writable_of_parse hparse

end Complete

section Versions
variable [TlsCrate]

/-- Where configurations stand in the system: the published one, those of the connections
and those of the requests, each with its connection. -/
structure ConfigView where
  config : ActiveConfig
  reloadGeneration : UInt64
  accepted : List ActiveConfig
  loaded : List (ℕ × ActiveConfig)

/-- The first configuration was published with the second or before it. -/
def PublishedBy (published : List ActiveConfig) (config config' : ActiveConfig) : Prop :=
  ∃ i j : ℕ, i ≤ j ∧ published[i]? = some config ∧ published[j]? = some config'

/-- `published` has the configurations that went live so far, the last of them the present
one. -/
structure Versions (published : List ActiveConfig) (v : ConfigView) : Prop where
  current : ∃ earlier, published = earlier ++ [v.config]
  numbered : ∀ (i : ℕ) (config : ActiveConfig), published[i]? = some config →
    config.generation = UInt64.ofNat i
  inStep : v.reloadGeneration = v.config.generation
  complete : ∀ config ∈ published, Complete config
  accepted : ∀ config ∈ v.accepted, config ∈ published
  ordered : (v.loaded.map Prod.snd).Pairwise (PublishedBy published)
  loaded : ∀ p ∈ v.loaded, ∃ config, v.accepted[p.1]? = some config ∧
    PublishedBy published config p.2

variable {published : List ActiveConfig} {v : ConfigView}

theorem PublishedBy.append {config config' : ActiveConfig}
    (h : PublishedBy published config config') (later : List ActiveConfig) :
    PublishedBy (published ++ later) config config' := by
  obtain ⟨i, j, hij, hi, hj⟩ := h
  have hlt : i < published.length := (List.getElem?_eq_some_iff.mp hi).1
  have hlt' : j < published.length := (List.getElem?_eq_some_iff.mp hj).1
  exact ⟨i, j, hij, (List.getElem?_append_left hlt).trans hi,
    (List.getElem?_append_left hlt').trans hj⟩

theorem PublishedBy.mem {config config' : ActiveConfig} (h : PublishedBy published config config') :
    config' ∈ published := by
  obtain ⟨-, j, -, -, hj⟩ := h
  exact List.mem_of_getElem? hj

theorem Versions.current_mem (h : Versions published v) : v.config ∈ published := by
  obtain ⟨earlier, rfl⟩ := h.current
  simp

theorem Versions.by_current (h : Versions published v) {config : ActiveConfig}
    (hmem : config ∈ published) : PublishedBy published config v.config := by
  obtain ⟨earlier, rfl⟩ := h.current
  obtain ⟨i, hi⟩ := List.mem_iff_getElem?.mp hmem
  have hlt : i < (earlier ++ [v.config]).length := (List.getElem?_eq_some_iff.mp hi).1
  rw [List.length_append, List.length_singleton] at hlt
  exact ⟨i, earlier.length, by omega, hi, List.getElem?_concat_length⟩

theorem Versions.accept (h : Versions published v) :
    Versions published { v with accepted := v.accepted ++ [v.config] } where
  current := h.current
  numbered := h.numbered
  inStep := h.inStep
  complete := h.complete
  accepted config hconfig := by
    rcases List.mem_append.mp hconfig with hconfig | hconfig
    · exact h.accepted config hconfig
    · rw [List.mem_singleton.mp hconfig]
      exact h.current_mem
  ordered := h.ordered
  loaded p hp := by
    obtain ⟨config, hconfig, hby⟩ := h.loaded p hp
    have hlt : p.1 < v.accepted.length := (List.getElem?_eq_some_iff.mp hconfig).1
    exact ⟨config, (List.getElem?_append_left hlt).trans hconfig, hby⟩

theorem Versions.request (h : Versions published v) {i : ℕ} (hi : i < v.accepted.length) :
    Versions published { v with loaded := v.loaded ++ [(i, v.config)] } where
  current := h.current
  numbered := h.numbered
  inStep := h.inStep
  complete := h.complete
  accepted := h.accepted
  ordered := by
    rw [List.map_append, List.pairwise_append]
    refine ⟨h.ordered, List.pairwise_singleton .., fun config hconfig config' hconfig' => ?_⟩
    obtain ⟨p, hp, rfl⟩ := List.mem_map.mp hconfig
    obtain ⟨_, -, hby⟩ := h.loaded p hp
    rw [List.map_singleton, List.mem_singleton] at hconfig'
    rw [hconfig']
    exact h.by_current hby.mem
  loaded p hp := by
    rcases List.mem_append.mp hp with hp | hp
    · exact h.loaded p hp
    · rw [List.mem_singleton.mp hp]
      have hfound : v.accepted[i]? = some v.accepted[i] := List.getElem?_eq_getElem hi
      exact ⟨_, hfound, h.by_current (h.accepted _ (List.getElem_mem hi))⟩

/-- A new version comes behind all others and has the next number. -/
theorem Versions.publish (h : Versions published v) {config : ActiveConfig}
    (hgeneration : config.generation = v.reloadGeneration + 1) (hcomplete : Complete config) :
    Versions (published ++ [config])
      { v with config := config, reloadGeneration := v.reloadGeneration + 1 } where
  current := ⟨published, rfl⟩
  numbered i found hfound := by
    rw [List.getElem?_append] at hfound
    split at hfound
    · exact h.numbered i found hfound
    · next hge =>
      obtain ⟨earlier, hearlier⟩ := h.current
      have hlength : published.length = earlier.length + 1 := by
        rw [hearlier, List.length_append, List.length_singleton]
      obtain ⟨hlt, rfl⟩ := List.getElem?_eq_some_iff.mp hfound
      rw [List.length_singleton] at hlt
      have hi : i = earlier.length + 1 := by omega
      have hlast : v.config.generation = UInt64.ofNat earlier.length :=
        h.numbered earlier.length v.config (by rw [hearlier]; exact List.getElem?_concat_length)
      rw [List.getElem_singleton, hgeneration, h.inStep, hlast, hi, UInt64.ofNat_add]
      rfl
  inStep := hgeneration.symm
  complete found hfound := by
    rcases List.mem_append.mp hfound with hfound | hfound
    · exact h.complete found hfound
    · rw [List.mem_singleton.mp hfound]
      exact hcomplete
  accepted found hfound := List.mem_append_left _ (h.accepted found hfound)
  ordered := h.ordered.imp fun hby => hby.append _
  loaded p hp := by
    obtain ⟨found, hfound, hby⟩ := h.loaded p hp
    exact ⟨found, hfound, hby.append _⟩

/-- The number of a version below `2 ^ 64` is its place. -/
theorem Versions.place (h : Versions published v) (hlength : published.length ≤ 2 ^ 64) {i : ℕ}
    {config : ActiveConfig} (hi : published[i]? = some config) : config.generation.toNat = i := by
  have hlt : i < published.length := (List.getElem?_eq_some_iff.mp hi).1
  rw [h.numbered i config hi]
  exact UInt64.toNat_ofNat_of_lt (hlt.trans_le hlength)

theorem Versions.generation_le (h : Versions published v) (hlength : published.length ≤ 2 ^ 64)
    {config config' : ActiveConfig} (hby : PublishedBy published config config') :
    config.generation ≤ config'.generation := by
  obtain ⟨i, j, hij, hi, hj⟩ := hby
  rw [UInt64.le_iff_toNat_le, h.place hlength hi, h.place hlength hj]
  exact hij

end Versions

theorem map_set_of_getElem? {α β : Type} (f : α → β) {l : List α} {i : ℕ} {a a' : α}
    (ha : l[i]? = some a) (h : f a' = f a) : (l.set i a').map f = l.map f := by
  refine List.ext_getElem? fun j => ?_
  rw [List.getElem?_map, List.getElem?_map]
  by_cases hj : i = j
  · subst hj
    have hlt : i < l.length := (List.getElem?_eq_some_iff.mp ha).1
    rw [List.getElem?_set_self hlt, ha, Option.map_some, Option.map_some, h]
  · rw [List.getElem?_set_ne hj]

section Views
variable [HttpCrate] [TlsCrate] [LruCrate]

def System.configView (s : System) : ConfigView where
  config := s.server.config
  reloadGeneration := s.server.reloadGeneration
  accepted := s.connections.map Connection.accepted
  loaded := s.requests.map fun task => (task.connection, task.exchange.config)

theorem serve_configView (s : System) (i : ℕ) (answer : Answer) :
    (s.serve i answer).configView = s.configView := by
  rcases serve_cases s i answer with ⟨heq, -⟩ | ⟨task, e, k, htask, -, ⟨reply, -, heq⟩ | ⟨-, heq⟩⟩
  · rw [heq]
  · rw [heq]
    exact congrArg (ConfigView.mk _ _ _) (map_set_of_getElem? _ htask rfl)
  · rw [heq]
    exact congrArg (ConfigView.mk _ _ _) (map_set_of_getElem? _ htask rfl)

theorem connect_configView (s : System) (i : ℕ) (answer : Answer) :
    (s.connect i answer).configView = s.configView := by
  rcases connect_cases s i answer with heq | ⟨connection, task, e, hconnection, heq⟩
  · rw [heq]
  · rw [heq]
    exact congrArg (ConfigView.mk _ _ · _) (map_set_of_getElem? _ hconnection rfl)

theorem insert_configView (s : System) (i : ℕ) : (s.insert i).configView = s.configView := by
  unfold System.insert
  cases s.pending[i]? <;> rfl

variable [CaseMapping]

/-- All that a step can do to the configurations; only a reload publishes one. -/
inductive ViewStep (v : ConfigView) : Bool → ConfigView → Prop
  | stay {reload : Bool} : ViewStep v reload v
  | accept : ViewStep v false { v with accepted := v.accepted ++ [v.config] }
  | request {i : ℕ} (hi : i < v.accepted.length) :
      ViewStep v false { v with loaded := v.loaded ++ [(i, v.config)] }
  | publish {env : Environment} {parsed : Config} {acceptor : Option TlsAcceptor}
      {engine : Option ℕ} (hload : loadConfigFromPath env = .ok parsed)
      (htls : buildTlsAcceptor env.loadCertifiedKey parsed.routes = .ok acceptor)
      (hengine : engine.isSome = true ↔ ∃ c, parsed.cache = some c ∧ c.enabled = true) :
      ViewStep v true
        { v with
          config := snapshot parsed (v.reloadGeneration + 1) acceptor v.config.securityManager
            engine
          reloadGeneration := v.reloadGeneration + 1 }

def isReload : Action → Bool
  | .reload _ => true
  | _ => false

theorem request_configView (s : System) (i : ℕ) (request : Request) :
    ViewStep s.configView false (s.request i request).configView := by
  rcases request_cases s i request with heq | ⟨connection, served, hconnection, -, heq⟩
  · rw [heq]
    exact .stay
  · have hlt : i < s.configView.accepted.length := by
      change i < (s.connections.map Connection.accepted).length
      rw [List.length_map]
      exact (List.getElem?_eq_some_iff.mp hconnection).1
    have hview : (s.request i request).configView =
        { s.configView with loaded := s.configView.loaded ++ [(i, s.configView.config)] } := by
      rw [heq]
      exact congrArg (ConfigView.mk _ _ _) List.map_append
    rw [hview]
    exact .request hlt

theorem reload_configView (s : System) (env : Environment) :
    ViewStep s.configView true (s.step (.reload env)).configView := by
  have hview : ∀ server, s.server.reload env = server → (s.step (.reload env)).configView =
      ⟨server.config, server.reloadGeneration, s.configView.accepted, s.configView.loaded⟩ := by
    rintro _ rfl
    rfl
  rcases reload_cases s.server env with
    ⟨-, parsed, acceptor, hload, -, htls, heq⟩ | ⟨-, -, heq⟩ | ⟨heq, -⟩
  · have hengine : (s.server.heap.placeEngine (cacheEngineFor parsed.cache)).1.isSome = true ↔
        ∃ c, parsed.cache = some c ∧ c.enabled = true := by
      rw [placeEngine_isSome]
      exact cacheEngineFor_isSome parsed.cache
    rw [hview _ heq]
    exact .publish hload.1 htls hengine
  · rw [hview _ heq]
    exact .stay
  · rw [hview _ heq]
    exact .stay

theorem step_configView (s : System) (a : Action) :
    ViewStep s.configView (isReload a) (s.step a).configView := by
  cases a with
  | accept stream peerAddr =>
    have hview : (s.step (.accept stream peerAddr)).configView =
        { s.configView with accepted := s.configView.accepted ++ [s.configView.config] } :=
      congrArg (ConfigView.mk _ _ · _) List.map_append
    rw [hview]
    exact .accept
  | connect i answer =>
    change ViewStep _ _ (s.connect i answer).configView
    rw [connect_configView]
    exact .stay
  | request i request => exact request_configView s i request
  | serve i answer =>
    change ViewStep _ _ (s.serve i answer).configView
    rw [serve_configView]
    exact .stay
  | insert i =>
    change ViewStep _ _ (s.insert i).configView
    rw [insert_configView]
    exact .stay
  | tick duration => exact .stay
  | reload env => exact reload_configView s env

end Views

section Runs
variable [TlsCrate] [CaseMapping]

theorem Versions.step {published : List ActiveConfig} {v v' : ConfigView} {reload : Bool}
    (h : Versions published v) (hstep : ViewStep v reload v') :
    ∃ later, Versions (published ++ later) v' ∧ later.length ≤ reload.toNat := by
  have hsame : ∀ {v' : ConfigView}, Versions published v' →
      ∃ later, Versions (published ++ later) v' ∧ later.length ≤ reload.toNat :=
    fun hv => ⟨[], by rw [List.append_nil]; exact hv, Nat.zero_le _⟩
  cases hstep with
  | stay => exact hsame h
  | accept => exact hsame h.accept
  | request hi => exact hsame (h.request hi)
  | publish hload htls hengine =>
    exact ⟨[_], h.publish rfl (complete_of_writable (writable_of_load hload) htls _ _ hengine),
      le_rfl⟩

variable [HttpCrate] [LruCrate] {env : Environment} {config : Config} {server : ServerState}

theorem start_versions (hload : loadConfigFromPath env = .ok config)
    (hnew : ServerState.new env config = .returned (.ok server)) :
    Versions [server.config] (System.start server).configView := by
  obtain ⟨acceptor, htls, rfl⟩ := new_cases hnew
  have hcomplete : Complete (ServerState.started config acceptor).config := by
    refine complete_of_writable (writable_of_load hload) htls _ _ ?_
    rw [placeEngine_isSome]
    exact cacheEngineFor_isSome config.cache
  refine ⟨⟨[], rfl⟩, fun i found hfound => ?_, rfl, fun found hfound => ?_,
    fun found hfound => absurd hfound List.not_mem_nil, List.Pairwise.nil,
    fun p hp => absurd hp List.not_mem_nil⟩
  · obtain ⟨hlt, rfl⟩ := List.getElem?_eq_some_iff.mp hfound
    rw [List.length_singleton] at hlt
    have hi : i = 0 := by omega
    subst hi
    rfl
  · rw [List.mem_singleton.mp hfound]
    exact hcomplete

theorem after_versions (hload : loadConfigFromPath env = .ok config)
    (hnew : ServerState.new env config = .returned (.ok server)) (actions : List Action) :
    ∃ published, Versions published ((System.start server).after actions).configView ∧
      published.length ≤ actions.countP isReload + 1 := by
  induction actions using List.reverseRecOn with
  | nil => exact ⟨[server.config], start_versions hload hnew, le_rfl⟩
  | append_singleton before a ih =>
    obtain ⟨published, hversions, hlength⟩ := ih
    obtain ⟨later, hlater, hone⟩ := hversions.step (step_configView _ a)
    refine ⟨published ++ later, ?_, ?_⟩
    · unfold System.after
      rw [List.foldl_concat]
      exact hlater
    · have hcount : (before ++ [a]).countP isReload =
          before.countP isReload + (isReload a).toNat := by
        rw [List.countP_append, List.countP_singleton]
        cases isReload a <;> rfl
      rw [List.length_append, hcount]
      omega

/-- A configuration that the system still uses: the published one, or one that a connection
or a request has loaded. -/
def InForce (s : System) (config : ActiveConfig) : Prop :=
  config = s.server.config ∨ (∃ connection ∈ s.connections, connection.accepted = config) ∨
    ∃ task ∈ s.requests, task.exchange.config = config

omit [CaseMapping] in
theorem Versions.inForce {published : List ActiveConfig} {s : System}
    (h : Versions published s.configView) {config : ActiveConfig} (hforce : InForce s config) :
    config ∈ published := by
  rcases hforce with rfl | ⟨connection, hconnection, rfl⟩ | ⟨task, htask, rfl⟩
  · exact h.current_mem
  · exact h.accepted _ (List.mem_map_of_mem hconnection)
  · obtain ⟨_, -, hby⟩ := h.loaded _ (List.mem_map_of_mem htask)
    exact hby.mem

/-- Every configuration that is in force in a run has all that it needs, so a request on a
route with authentication has a provider to ask. -/
theorem configs_in_force_complete (hload : loadConfigFromPath env = .ok config)
    (hnew : ServerState.new env config = .returned (.ok server)) (actions : List Action) :
    (∀ active, InForce ((System.start server).after actions) active → Complete active) ∧
    ∀ task ∈ ((System.start server).after actions).requests, ∀ m,
      task.exchange.matched = some m → m.authRequired = true →
        task.exchange.config.authProvider.isSome = true := by
  obtain ⟨published, hversions, -⟩ := after_versions hload hnew actions
  have hcomplete : ∀ active, InForce ((System.start server).after actions) active →
      Complete active := fun active h => hversions.complete active (hversions.inForce h)
  refine ⟨hcomplete, fun task htask m hm hauth => ?_⟩
  unfold Exchange.matched Router.matchRoute at hm
  obtain ⟨route, hroute, rfl⟩ := Option.map_eq_some_iff.mp hm
  obtain ⟨authUrl, -, hprovider⟩ :=
    (hcomplete _ (.inr (.inr ⟨task, htask, rfl⟩))).auth route (List.mem_of_find?_eq_some hroute)
      hauth
  rw [hprovider]
  rfl

/-- As long as the generations do not wrap around, they tell the configurations of a run
apart, requests have them in the order of their arrival, and a request has one that is no
older than that of its connection and no newer than the published one. -/
theorem generations_in_order (hload : loadConfigFromPath env = .ok config)
    (hnew : ServerState.new env config = .returned (.ok server)) (actions : List Action)
    (hcount : actions.countP isReload < 2 ^ 64) :
    (∀ active active', InForce ((System.start server).after actions) active →
      InForce ((System.start server).after actions) active' →
      active.generation = active'.generation → active = active') ∧
    (((System.start server).after actions).requests.map (·.exchange.config.generation)).Pairwise
      (· ≤ ·) ∧
    ∀ task ∈ ((System.start server).after actions).requests,
      task.exchange.config.generation ≤
        ((System.start server).after actions).server.config.generation ∧
      ∃ connection, ((System.start server).after actions).connections[task.connection]? =
          some connection ∧
        connection.accepted.generation ≤ task.exchange.config.generation := by
  obtain ⟨published, hversions, hlength⟩ := after_versions hload hnew actions
  generalize (System.start server).after actions = s at hversions
  have hlength' : published.length ≤ 2 ^ 64 := by omega
  refine ⟨fun active active' hactive hactive' hsame => ?_, ?_, fun task htask => ?_⟩
  · obtain ⟨i, hi⟩ := List.mem_iff_getElem?.mp (hversions.inForce hactive)
    obtain ⟨j, hj⟩ := List.mem_iff_getElem?.mp (hversions.inForce hactive')
    have hij : i = j := by
      rw [← hversions.place hlength' hi, ← hversions.place hlength' hj, hsame]
    subst hij
    exact Option.some.inj (hi.symm.trans hj)
  · have hordered := hversions.ordered
    change ((s.requests.map _).map Prod.snd).Pairwise _ at hordered
    rw [List.map_map, List.pairwise_map] at hordered
    exact List.pairwise_map.mpr (hordered.imp fun hby => hversions.generation_le hlength' hby)
  · obtain ⟨active, haccepted, hby⟩ := hversions.loaded _ (List.mem_map_of_mem htask)
    refine ⟨hversions.generation_le hlength' (hversions.by_current hby.mem), ?_⟩
    change (s.connections.map Connection.accepted)[task.connection]? = some active at haccepted
    rw [List.getElem?_map] at haccepted
    obtain ⟨connection, hconnection, rfl⟩ := Option.map_eq_some_iff.mp haccepted
    exact ⟨connection, hconnection, hversions.generation_le hlength' hby⟩

end Runs

section Example
open ListCrates

theorem reloaded_configs_complete :
    ((System.start plainServer).after reloadedRun).server.config.tlsAcceptor.isSome = true ∧
      Complete ((System.start plainServer).after reloadedRun).server.config :=
  ⟨by decide +kernel,
    (configs_in_force_complete (loads_plain true).1 new_plain reloadedRun).1 _ (.inl rfl)⟩

theorem reloaded_generations :
    ((System.start plainServer).after reloadedRun).requests.map
        (·.exchange.config.generation) = [1] ∧
      ∃ connection ∈ ((System.start plainServer).after reloadedRun).connections,
        connection.accepted.generation ≤ 1 := by
  have hrequests : ((System.start plainServer).after reloadedRun).requests.map
      (·.exchange.config.generation) = [1] := by decide +kernel
  refine ⟨hrequests, ?_⟩
  have hone : (1 : UInt64) ∈ ((System.start plainServer).after reloadedRun).requests.map
      (·.exchange.config.generation) := by rw [hrequests]; exact List.mem_singleton_self _
  obtain ⟨task, htask, hgeneration⟩ := List.mem_map.mp hone
  obtain ⟨-, connection, hconnection, hle⟩ :=
    (generations_in_order (loads_plain true).1 new_plain reloadedRun (by decide)).2.2 task htask
  exact ⟨connection, List.mem_of_getElem? hconnection, hle.trans_eq hgeneration⟩

end Example

end BarebonesProxy.Running
