import BarebonesProxy.RunningHits
import Mathlib.Tactic.IntervalCases

set_option autoImplicit false

/-!
# Where cache hits come from

Each load makes its own engine, so an entry is only seen by requests of the configuration
that its request had loaded. Within one configuration the key decides, which leaves out
the method and joins host and path without a mark.
-/
namespace BarebonesProxy.Running
open RustNet RustStrings RustState ProxyConfig Routing Http Cache LruMap RuntimeConfig Server
open EffectPrograms Proxy ProxyProtocol Worker Runs

section Engines
variable [HttpCrate] [LruCrate]

theorem perform_engineCount (heap : Heap) (now : ℕ) (answer : Answer) (e : Effect) :
    (perform heap now answer e).2.engineCount = heap.engineCount := by
  cases e <;> rfl

/-- A new engine gets the next address. -/
theorem placeEngine_fresh (heap : Heap) (engine : Option LruCacheEngine) {address : ℕ}
    (h : (heap.placeEngine engine).1 = some address) :
    address = heap.engineCount ∧ (heap.placeEngine engine).2.engineCount = heap.engineCount + 1 := by
  cases engine with
  | none => cases h
  | some engine =>
    cases h
    exact ⟨rfl, rfl⟩

theorem placeEngine_count_le (heap : Heap) (engine : Option LruCacheEngine) :
    heap.engineCount ≤ (heap.placeEngine engine).2.engineCount := by
  cases engine with
  | none => exact le_rfl
  | some engine => exact Nat.le_succ _

end Engines

section Generations
variable [HttpCrate] [TlsCrate] [LruCrate]

/-- The configuration is the published one or that of a request. -/
def Loaded (s : System) (config : ActiveConfig) : Prop :=
  config = s.server.config ∨ ∃ task ∈ s.requests, task.exchange.config = config

/-- No two loaded configurations share an engine. -/
structure EnginesApart (s : System) : Prop where
  allocated : ∀ config engine, Loaded s config → config.cacheEngine = some engine →
    engine < s.server.heap.engineCount
  apart : ∀ config config' engine, Loaded s config → Loaded s config' →
    config.cacheEngine = some engine → config'.cacheEngine = some engine → config' = config

theorem EnginesApart.of_loaded {s s' : System} (h : EnginesApart s)
    (hcount : s.server.heap.engineCount ≤ s'.server.heap.engineCount)
    (hloaded : ∀ config, Loaded s' config → Loaded s config) : EnginesApart s' where
  allocated config engine hconfig hengine :=
    lt_of_lt_of_le (h.allocated config engine (hloaded config hconfig) hengine) hcount
  apart config config' engine hconfig hconfig' :=
    h.apart config config' engine (hloaded config hconfig) (hloaded config' hconfig')

theorem EnginesApart.of_server {s s' : System} (h : EnginesApart s)
    (hconfig : s'.server.config = s.server.config) (hheap : s'.server.heap = s.server.heap)
    (hrequests : s'.requests = s.requests) : EnginesApart s' := by
  refine h.of_loaded (by rw [hheap]) fun config hloaded => ?_
  unfold Loaded at hloaded ⊢
  rw [hconfig, hrequests] at hloaded
  exact hloaded

theorem applied_apart {s s' : System} (h : EnginesApart s) {config : Config}
    {acceptor : Option TlsAcceptor} (hserver : s'.server = s.server.applied config acceptor)
    (hrequests : s'.requests = s.requests) : EnginesApart s' := by
  have hcount : s.server.heap.engineCount ≤ s'.server.heap.engineCount := by
    rw [hserver]
    exact placeEngine_count_le ..
  -- the engine of the new snapshot is new, and the other snapshots were loaded before
  have hfresh : ∀ engine, s'.server.config.cacheEngine = some engine →
      engine = s.server.heap.engineCount ∧ engine < s'.server.heap.engineCount := by
    intro engine hengine
    rw [hserver] at hengine ⊢
    obtain ⟨haddress, hnext⟩ := placeEngine_fresh _ _ hengine
    refine ⟨haddress, ?_⟩
    change engine < (s.server.heap.placeEngine (cacheEngineFor config.cache)).2.engineCount
    omega
  have hcases : ∀ snapshot, Loaded s' snapshot →
      snapshot = s'.server.config ∨ Loaded s snapshot := by
    rintro snapshot (rfl | ⟨task, htask, rfl⟩)
    · exact .inl rfl
    · exact .inr (.inr ⟨task, hrequests ▸ htask, rfl⟩)
  constructor
  · intro snapshot engine hloaded hengine
    rcases hcases snapshot hloaded with rfl | hold
    · exact (hfresh engine hengine).2
    · exact lt_of_lt_of_le (h.allocated snapshot engine hold hengine) hcount
  · intro snapshot snapshot' engine hloaded hloaded' hengine hengine'
    rcases hcases snapshot hloaded with rfl | hold <;>
      rcases hcases snapshot' hloaded' with rfl | hold'
    · rfl
    · have := h.allocated snapshot' engine hold' hengine'
      have := (hfresh engine hengine).1
      omega
    · have := h.allocated snapshot engine hold hengine
      have := (hfresh engine hengine').1
      omega
    · exact h.apart snapshot snapshot' engine hold hold' hengine hengine'

theorem start_apart {env : Environment} {config : Config} {server : ServerState}
    (h : ServerState.new env config = .returned (.ok server)) :
    EnginesApart (System.start server) := by
  have hpublished : ∀ config, Loaded (System.start server) config → config = server.config := by
    rintro config (rfl | ⟨task, htask, -⟩)
    · rfl
    · cases htask
  constructor
  · intro snapshot engine hsnapshot hengine
    rw [hpublished snapshot hsnapshot] at hengine
    obtain ⟨acceptor, -, rfl⟩ := new_cases h
    obtain ⟨haddress, hnext⟩ := placeEngine_fresh _ _ hengine
    change engine < ((Heap.empty.allocManager _).2.placeEngine _).2.engineCount
    omega
  · intro snapshot snapshot' engine hsnapshot hsnapshot' _ _
    rw [hpublished snapshot hsnapshot, hpublished snapshot' hsnapshot']

omit [LruCrate] in
theorem config_cacheEngine {x : Exchange} {engine : ℕ} (h : x.cacheEngine = some engine) :
    x.config.cacheEngine = some engine := by
  unfold Exchange.cacheEngine at h
  split at h
  · exact h
  · cases h

/-- With engines apart, a request and the one that stored its entry have loaded the same
configuration. -/
theorem same_config {s : System} (h : EnginesApart s) {task other : RequestTask}
    (htask : task ∈ s.requests) (hother : other ∈ s.requests) {engine : ℕ}
    (hengine : task.exchange.cacheEngine = some engine)
    (hengine' : other.exchange.cacheEngine = some engine) :
    other.exchange.config = task.exchange.config :=
  h.apart _ _ engine (.inr ⟨task, htask, rfl⟩) (.inr ⟨other, hother, rfl⟩)
    (config_cacheEngine hengine) (config_cacheEngine hengine')

variable [CaseMapping]

theorem step_engineCount (s : System) (a : Action) (h : ∀ env, a ≠ .reload env) :
    (s.step a).server.heap.engineCount = s.server.heap.engineCount := by
  cases a with
  | accept stream peerAddr => rfl
  | connect i answer =>
    change (s.connect i answer).server.heap.engineCount = _
    rcases connect_cases s i answer with heq | ⟨connection, task, e, -, heq⟩
    · rw [heq]
    · rw [heq]
      exact perform_engineCount ..
  | request i request =>
    change (s.request i request).server.heap.engineCount = _
    rw [(request_frame s i request).1]
  | serve i answer =>
    change (s.serve i answer).server.heap.engineCount = _
    rcases serve_cases s i answer with ⟨heq, -⟩ | ⟨task, e, k, -, -, ⟨reply, -, heq⟩ | ⟨-, heq⟩⟩
    · rw [heq]
    · rw [heq]
      exact perform_engineCount ..
    · rw [heq]
      exact perform_engineCount ..
  | insert i =>
    change (s.insert i).server.heap.engineCount = _
    unfold System.insert
    cases s.pending[i]? <;> rfl
  | tick duration => rfl
  | reload env => exact absurd rfl (h env)

theorem step_loaded (s : System) (a : Action) (h : ∀ env, a ≠ .reload env) {config : ActiveConfig}
    (hloaded : Loaded (s.step a) config) : Loaded s config := by
  rcases hloaded with rfl | ⟨task', htask', rfl⟩
  · exact .inl (step_config s a h)
  · rcases step_tasks s a htask' with
      ⟨task, htask, hexchange, -⟩ | ⟨i, request, connection, -, -, -, hconfig, -⟩
    · exact .inr ⟨task, htask, by rw [hexchange]⟩
    · exact .inl hconfig

theorem step_apart (s : System) (a : Action) (h : EnginesApart s) : EnginesApart (s.step a) := by
  cases a with
  | reload env =>
    rcases reload_cases s.server env with
      ⟨-, config, acceptor, -, -, -, heq⟩ | ⟨-, -, heq⟩ | ⟨heq, -⟩
    · exact applied_apart h heq rfl
    · have hserver : (s.step (.reload env)).server = _ := heq
      exact h.of_server (by rw [hserver]) (by rw [hserver]) rfl
    · have hserver : (s.step (.reload env)).server = _ := heq
      exact h.of_server (by rw [hserver]) (by rw [hserver]) rfl
  | _ =>
    refine h.of_loaded (step_engineCount s _ ?_).ge fun _ => step_loaded s _ ?_
    all_goals
      intro env heq
      cases heq

def SameGeneration (x y : Exchange) : Prop :=
  y.config = x.config ∧ y.config.generation = x.config.generation

/-- In every run, what a hit gives comes from an upstream response to a request of the same
configuration. -/
theorem hits_keep_generation {env : Environment} {config : Config} {server : ServerState}
    (hstart : ServerState.new env config = .returned (.ok server)) (actions : List Action) :
    HitsFrom SameGeneration ((System.start server).after actions) := by
  have hc := after_consistent hstart actions
  have hapart : EnginesApart ((System.start server).after actions) :=
    foldl_invariant _ step_apart (start_apart hstart) actions
  intro task asset htask hhit
  obtain ⟨hprogram, j, other, response, engine, hsource, hsupplies, hengine, hengine'⟩ :=
    hit_supplied hc htask hhit
  have hsame := same_config hapart htask (List.mem_of_getElem? hsupplies.request) hengine hengine'
  exact ⟨hprogram, j, other, response, hsource, hsupplies, hsame, congrArg _ hsame⟩

end Generations

section Example
open ListCrates

def shopText : String :=
  "listen 8080;\ncache \x7b\nenabled on;\n\x7d\nroute http://a/ \x7b\nupstream http://b;\n\x7d\n"

def shopConfig : Config :=
  { Server.plainConfig with cache := some ConfigParser.defaultCacheConfig }

def shopServer : ServerState := .started shopConfig none

set_option maxRecDepth 4000 in
theorem shop_accepted :
    ConfigParser.parseProxyConfig (some 2) shopText.toList = .ok shopConfig := by
  unfold shopText
  exact of_chars (fun s => ConfigParser.parseProxyConfig (some 2) s = .ok shopConfig)
    (by decide +kernel)

theorem new_shop : ServerState.new (sampleEnv shopText true) shopConfig =
    .returned (.ok shopServer) := rfl

def target (method : Method) (host path : String) : Request :=
  ⟨method, ⟨none, some path.toList⟩, [(.host, host.toList)], .full []⟩

def silence : Answer := ⟨none, true⟩

def sheet (method : Method) (_ : Uri) : Response :=
  ⟨.ok, [(.contentType, "text/css".toList)], .full (if method = .head then [] else [42])⟩

/-- A connection, and a request that is answered by the upstream. -/
def fetching (request : Request) : List Action :=
  [.accept ⟨[], .eof⟩ ⟨.v4 ⟨10, 0, 0, 1⟩, 4000⟩, .connect 0 silence, .connect 0 silence,
    .request 0 request, .serve 0 silence, .serve 0 silence, .serve 0 silence,
    .serve 0 ⟨some (sheet request.method request.uri), true⟩, .serve 0 silence]

structure RequestView where
  source : Option ℕ
  key : Str
  matched : Bool
  generation : UInt64
  body : Option (List UInt8)
deriving DecidableEq

def RequestTask.view (task : RequestTask) : RequestView where
  source := task.source
  key := task.exchange.cacheKey
  matched := task.exchange.matched.isSome
  generation := task.exchange.config.generation
  body := match task.program with
    | some (.pure (.ok response)) => some response.body.data
    | _ => none

def System.views (s : System) : List RequestView := s.requests.map RequestTask.view

def styleSheet : Request := target .get "a" "/x.css"

/-- The second request has loaded its configuration before a reload, and finds the entry
that is inserted after it. The third comes after the reload and does not. -/
def sheetAcrossReload : List Action :=
  fetching styleSheet ++ [.request 0 styleSheet, .serve 1 silence, .serve 1 silence,
    .reload (sampleEnv shopText true), .insert 0, .serve 1 silence, .request 0 styleSheet,
    .serve 2 silence, .serve 2 silence, .serve 2 silence]

theorem sheet_keeps_generation :
    ((System.start shopServer).after sheetAcrossReload).views =
      [⟨none, "a:/x.css".toList, true, 0, some [42]⟩,
        ⟨some 0, "a:/x.css".toList, true, 0, some [42]⟩,
        ⟨none, "a:/x.css".toList, true, 1, none⟩] ∧
      HitsFrom SameGeneration ((System.start shopServer).after sheetAcrossReload) :=
  ⟨by decide +kernel, hits_keep_generation new_shop sheetAcrossReload⟩

end Example

section Keys

/-- One host goes on, after the other, as a key goes on after its host. -/
def HostsOverlap (h h' : Str) : Prop := h ++ ":/".toList <+: h' ∨ h' ++ ":/".toList <+: h

theorem key_extends {c q q' : Str} (h : c ++ ":/".toList ++ q = ":/".toList ++ q') :
    c = [] ∧ q = q' ∨ ":/".toList <+: c := by
  match c with
  | [] => exact .inl ⟨rfl, List.append_cancel_left h⟩
  | [x] => simp at h
  | x :: y :: c =>
    simp only [String.reduceToList, List.cons_append, List.cons.injEq] at h
    obtain ⟨rfl, rfl, -⟩ := h
    exact .inr ⟨c, rfl⟩

theorem not_hostsOverlap_self (h : Str) : ¬ HostsOverlap h h := by
  rintro (hover | hover)
  all_goals
    have hlength := hover.length_le
    rw [List.length_append] at hlength
    exact absurd hlength (by simp)

/-- Two URLs with one key are equal exactly when their hosts do not overlap. -/
theorem same_iff_not_overlap {h h' q q' : Str}
    (hkey : h ++ ":/".toList ++ q = h' ++ ":/".toList ++ q') :
    h = h' ∧ q = q' ↔ ¬ HostsOverlap h h' := by
  constructor
  · rintro ⟨rfl, rfl⟩
    exact not_hostsOverlap_self h
  · intro hover
    rw [List.append_assoc, List.append_assoc] at hkey
    rcases List.append_eq_append_iff.mp hkey with ⟨c, rfl, hrest⟩ | ⟨c, rfl, hrest⟩
    · rw [← List.append_assoc] at hrest
      rcases key_extends hrest.symm with ⟨rfl, rfl⟩ | hc
      · exact ⟨(List.append_nil h).symm, rfl⟩
      · exact absurd (.inl ((List.prefix_append_right_inj h).mpr hc)) hover
    · rw [← List.append_assoc] at hrest
      rcases key_extends hrest.symm with ⟨rfl, rfl⟩ | hc
      · exact ⟨List.append_nil h', rfl⟩
      · exact absurd (.inr ((List.prefix_append_right_inj h').mpr hc)) hover

end Keys

section Urls
variable [HttpCrate]

def Rooted (request : Request) : Prop := ∃ rest, request.uri.pathAndQuery = some ('/' :: rest)

variable [TlsCrate]

def ArrivesRooted : Action → Prop
  | .request _ request => Rooted request
  | _ => True

/-- The request is for the URL of the other one, and a route covers it. -/
def SameUrl (x y : Exchange) : Prop :=
  y.host = x.host ∧ y.pathAndQuery = x.pathAndQuery ∧ x.matched.isSome = true

def HostsApart (x y : Exchange) : Prop := ¬ HostsOverlap x.host y.host

theorem sameUrl_iff {x y : Exchange} (hx : Rooted x.request) (hy : Rooted y.request)
    (hconfig : y.config = x.config) (hkey : y.cacheKey = x.cacheKey)
    (hmatched : y.matched.isSome = true) : SameUrl x y ↔ HostsApart x y := by
  obtain ⟨p, hp⟩ := hx
  obtain ⟨q, hq⟩ := hy
  have hpath : x.pathAndQuery = '/' :: p := by
    unfold Exchange.pathAndQuery pathAndQueryOf
    rw [hp]
    rfl
  have hpath' : y.pathAndQuery = '/' :: q := by
    unfold Exchange.pathAndQuery pathAndQueryOf
    rw [hq]
    rfl
  have hkeys : x.host ++ ":/".toList ++ p = y.host ++ ":/".toList ++ q := by
    unfold Exchange.cacheKey at hkey
    rw [hpath, hpath'] at hkey
    simpa using hkey.symm
  unfold HostsApart
  rw [← same_iff_not_overlap hkeys]
  unfold SameUrl
  rw [hpath, hpath']
  constructor
  · rintro ⟨hhost, hq, -⟩
    exact ⟨hhost.symm, (List.cons.inj hq).2.symm⟩
  · rintro ⟨hhost, rfl⟩
    refine ⟨hhost.symm, rfl, ?_⟩
    -- the router sees the same host and path as for the other request
    have hsame : x.matched = y.matched := by
      unfold Exchange.matched Exchange.path Uri.path
      rw [hhost, hconfig, hp, hq]
    rw [hsame]
    exact hmatched

variable [LruCrate] [CaseMapping]

def AllRooted (s : System) : Prop := ∀ task ∈ s.requests, Rooted task.exchange.request

theorem step_rooted {s : System} {a : Action} (ha : ArrivesRooted a) (h : AllRooted s) :
    AllRooted (s.step a) := by
  intro task' htask'
  rcases step_tasks s a htask' with
    ⟨task, htask, hexchange, -⟩ | ⟨i, request, connection, rfl, -, -, -, hrequest⟩
  · rw [hexchange]
    exact h task htask
  · rw [hrequest]
    exact ha

theorem lookup_sameUrl_iff {s : System} (hc : Consistent s) (hapart : EnginesApart s)
    (hrooted : AllRooted s) (a : Action) :
    LookupRelated SameUrl s a ↔ LookupRelated HostsApart s a := by
  cases a with
  | serve i answer =>
    refine forall_congr' fun task => forall_congr' fun other => forall_congr' fun engine =>
      forall_congr' fun key => forall_congr' fun k => forall_congr' fun asset =>
      forall_congr' fun j => forall_congr' fun htask => forall_congr' fun hprogram =>
      forall_congr' fun hheld => forall_congr' fun hfresh => forall_congr' fun horigin =>
      forall_congr' fun hother => ?_
    obtain ⟨hengine, hengine', hkey, hmatched⟩ :=
      lookup_supplied hc htask hprogram hheld horigin hother
    have hmem := List.mem_of_getElem? htask
    have hmem' := List.mem_of_getElem? hother
    exact sameUrl_iff (hrooted task hmem) (hrooted other hmem')
      (same_config hapart hmem hmem' hengine hengine') hkey hmatched
  | _ => exact Iff.rfl

/-- Hits are for the URL that was stored all along a run exactly when no lookup of the run
finds a fresh entry of a request whose host overlaps with its own. -/
theorem hits_same_url_iff {env : Environment} {config : Config} {server : ServerState}
    (hstart : ServerState.new env config = .returned (.ok server)) {actions : List Action}
    (hrooted : ∀ a ∈ actions, ArrivesRooted a) :
    (∀ before, before <+: actions → HitsFrom SameUrl ((System.start server).after before)) ↔
      ∀ before a, before ++ [a] <+: actions →
        LookupRelated HostsApart ((System.start server).after before) a := by
  have hinvariant : ∀ (s : System), ∀ a ∈ actions,
      (Consistent s ∧ EnginesApart s ∧ AllRooted s) →
      Consistent (s.step a) ∧ EnginesApart (s.step a) ∧ AllRooted (s.step a) := by
    intro s a ha ⟨hc, hapart, hall⟩
    exact ⟨step_consistent s a hc, step_apart s a hapart, step_rooted (hrooted a ha) hall⟩
  have hstep : ∀ (s : System), ∀ a ∈ actions, (Consistent s ∧ EnginesApart s ∧ AllRooted s) →
      HitsFrom SameUrl s → (HitsFrom SameUrl (s.step a) ↔ LookupRelated HostsApart s a) := by
    intro s a _ ⟨hc, hapart, hall⟩ hhits
    rw [hitsFrom_iff hc] at hhits
    rw [hitsFrom_iff (step_consistent s a hc), step_related_iff hc hhits a]
    exact lookup_sameUrl_iff hc hapart hall a
  have hnone : ∀ task, task ∉ (System.start server).requests := fun task => List.not_mem_nil
  exact always_iff_steps hinvariant hstep
    ⟨start_consistent hstart, start_apart hstart, fun task htask => absurd htask (hnone task)⟩
    (fun task asset htask => absurd htask (hnone task))

end Urls

section Example
open ListCrates

/-- The response is stored, and another request looks up its key. -/
def refetching (request request' : Request) : List Action :=
  fetching request ++ [.insert 0, .request 0 request', .serve 1 silence, .serve 1 silence,
    .serve 1 silence]

theorem only_styleSheet {before : List Action} {a : Action}
    (hrun : before ++ [a] <+: refetching styleSheet styleSheet) {task : RequestTask}
    (htask : task ∈ ((System.start shopServer).after before).requests) :
    task.exchange.request = styleSheet := by
  obtain ⟨i, hi⟩ := after_arrived shopServer before htask
  have hmem := hrun.subset (List.mem_append_left _ hi)
  simp [refetching, fetching] at hmem
  exact hmem.2

theorem same_sheet_hit :
    ((System.start shopServer).after (refetching styleSheet styleSheet)).views =
      [⟨none, "a:/x.css".toList, true, 0, some [42]⟩,
        ⟨some 0, "a:/x.css".toList, true, 0, some [42]⟩] ∧
      HitsFrom SameUrl ((System.start shopServer).after (refetching styleSheet styleSheet)) := by
  have hrooted : ∀ a ∈ refetching styleSheet styleSheet, ArrivesRooted a := by
    have hsheet : Rooted styleSheet := ⟨"x.css".toList, rfl⟩
    simp [refetching, fetching, ArrivesRooted, hsheet]
  refine ⟨by decide +kernel, (hits_same_url_iff new_shop hrooted).mpr ?_ _ List.prefix_rfl⟩
  intro before a hrun
  refine lookupRelated_of_all (fun task htask other hother => ?_) a
  unfold HostsApart Exchange.host
  rw [only_styleSheet hrun htask, only_styleSheet hrun hother]
  exact not_hostsOverlap_self _

theorem task_of_views {s : System} {views : List RequestView} (h : s.views = views) {i : ℕ}
    {view : RequestView} (hi : views[i]? = some view) :
    ∃ task, s.requests[i]? = some task ∧ task.view = view := by
  rw [← h] at hi
  unfold System.views at hi
  rw [List.getElem?_map] at hi
  exact Option.map_eq_some_iff.mp hi

/-- The second request is for another URL with the key of the first, and has no route. -/
theorem other_url_hit :
    ConfigParser.parseProxyConfig (some 2) shopText.toList = .ok shopConfig ∧
      ((System.start shopServer).after
        (refetching (target .get "a" "/x:/y.css") (target .get "a:/x" "/y.css"))).views =
        [⟨none, "a:/x:/y.css".toList, true, 0, some [42]⟩,
          ⟨some 0, "a:/x:/y.css".toList, false, 0, some [42]⟩] ∧
      ¬ HitsFrom SameUrl ((System.start shopServer).after
        (refetching (target .get "a" "/x:/y.css") (target .get "a:/x" "/y.css"))) := by
  have hviews : ((System.start shopServer).after
      (refetching (target .get "a" "/x:/y.css") (target .get "a:/x" "/y.css"))).views =
      [⟨none, "a:/x:/y.css".toList, true, 0, some [42]⟩,
        ⟨some 0, "a:/x:/y.css".toList, false, 0, some [42]⟩] := by
    decide +kernel
  refine ⟨shop_accepted, hviews, fun hhits => ?_⟩
  rw [hitsFrom_iff (after_consistent new_shop _)] at hhits
  obtain ⟨first, hfirst, -⟩ := task_of_views (i := 0) hviews rfl
  obtain ⟨second, hsecond, hview⟩ := task_of_views (i := 1) hviews rfl
  have hsource : second.source = some 0 := congrArg RequestView.source hview
  have hunmatched : second.exchange.matched.isSome = false := congrArg RequestView.matched hview
  obtain ⟨-, -, hmatched⟩ := hhits 0 second first (List.mem_of_getElem? hsecond) hsource hfirst
  rw [hunmatched] at hmatched
  cases hmatched

end Example

section Methods
variable [HttpCrate] [TlsCrate]

/-- What is stored for a GET comes from a GET of the same URL. -/
def StoredByGet (x y : Exchange) : Prop :=
  x.request.method = .get → y.request.method = .get ∧ y.host = x.host ∧
    y.request.uri.pathAndQuery = x.request.uri.pathAndQuery

theorem upstreamUri_eq {x y : Exchange} (hconfig : y.config = x.config) (hhost : y.host = x.host)
    (hpath : y.request.uri.pathAndQuery = x.request.uri.pathAndQuery) :
    y.matched = x.matched ∧ ∀ m, y.upstreamUri m = x.upstreamUri m := by
  constructor
  · unfold Exchange.matched Exchange.path Uri.path
    rw [hconfig, hhost, hpath]
  · intro m
    unfold Exchange.upstreamUri Uri.query
    rw [hpath]

variable [LruCrate] (upstream : Method → Uri → Response)

/-- The upstream fails, or answers as its function says. -/
def AnswersBy (s : System) : Action → Prop
  | .serve i answer => ∀ (task : RequestTask) (request : ForwardedRequest)
      (k : Option Response → Program (Except BoxError Response)) (response : Response),
      s.requests[i]? = some task → task.program = some (.op (.upstreamRequest request) k) →
      answer.response = some response → response = upstream request.method request.uri
  | _ => True

def FollowsUpstream (s : System) : Prop :=
  ∀ task ∈ s.requests, ∀ request response,
    (⟨.upstreamRequest request, some response⟩ : (e : Effect) × e.Reply) ∈ task.trace →
    response = upstream request.method request.uri

/-- A GET answered from the cache gets the status and the body that the upstream gives to
a GET of its URI. -/
def GetHitsAnswered (s : System) : Prop :=
  ∀ (task : RequestTask) (asset : CachedAsset), task ∈ s.requests → Hit task asset →
    task.exchange.request.method = .get →
    task.program = some (.pure (.ok (hitResponse asset))) ∧
    ∃ m uri, task.exchange.matched = some m ∧ task.exchange.upstreamUri m = .ok uri ∧
      (hitResponse asset).status = (upstream .get uri).status ∧
      (hitResponse asset).body.collect = (upstream .get uri).body.collect

variable {upstream} [CaseMapping]

theorem asked_method {s : System} (hc : Consistent s) {task : RequestTask} (htask : task ∈ s.requests)
    {request : ForwardedRequest} {k : Option Response → Program (Except BoxError Response)}
    (hprogram : task.program = some (.op (.upstreamRequest request) k)) :
    request.method = task.exchange.request.method := by
  obtain ⟨p, hreach, hsame⟩ := (hc.tasks task htask).reached
  rw [← hsame _ hprogram] at hreach
  obtain ⟨m, headers, -, -, hrequest⟩ := permitted_of_reaches hreach
  obtain ⟨uri, _, _, _, -, -, -, -, heq⟩ := forwardedRequest_ok hrequest
  rw [heq]

theorem step_followsUpstream {s : System} {a : Action} (ha : AnswersBy upstream s a)
    (h : FollowsUpstream upstream s) : FollowsUpstream upstream (s.step a) := by
  refine step_fetched h ?_
  rintro i answer task request k response rfl htask hprogram hresponse
  exact ha task request k response htask hprogram hresponse

/-- What an asset's request was answered, by the function of the upstream. -/
theorem Supplies.answered {s : System} (hc : Consistent s) (hfollows : FollowsUpstream upstream s)
    {j : ℕ} {other : RequestTask} {asset : CachedAsset} {response : Response}
    (h : Supplies s j other asset response) :
    ∃ m uri, other.exchange.matched = some m ∧ other.exchange.upstreamUri m = .ok uri ∧
      response = upstream other.exchange.request.method uri := by
  have hother := List.mem_of_getElem? h.request
  obtain ⟨p, hreach, -⟩ := (hc.tasks other hother).reached
  obtain ⟨request, hmem⟩ := h.fetched
  obtain ⟨-, -, -, m, headers, hm, -, hrequest⟩ := permitted_of_mem hreach hmem
  obtain ⟨uri, _, _, _, huri, -, -, -, heq⟩ := forwardedRequest_ok hrequest
  rw [heq] at hmem
  exact ⟨m, uri, hm, huri, hfollows other hother _ response hmem⟩

theorem getHits_of_related {s : System} (hc : Consistent s) (hapart : EnginesApart s)
    (hfollows : FollowsUpstream upstream s) (hrelated : HitsRelated StoredByGet s) :
    GetHitsAnswered upstream s := by
  intro task asset htask hhit hget
  obtain ⟨hprogram, j, other, response, engine, hsource, hsupplies, hengine, hengine'⟩ :=
    hit_supplied hc htask hhit
  have hother := List.mem_of_getElem? hsupplies.request
  obtain ⟨hmethod, hhost, hpath⟩ := hrelated j task other htask hsource hsupplies.request hget
  have hconfig := same_config hapart htask hother hengine hengine'
  obtain ⟨hmatched, huris⟩ := upstreamUri_eq hconfig hhost hpath
  obtain ⟨m, uri, hm, huri, hresponse⟩ := hsupplies.answered hc hfollows
  rw [hmethod] at hresponse
  refine ⟨hprogram, m, uri, hmatched ▸ hm, huris m ▸ huri, ?_⟩
  rw [← hresponse, hsupplies.body]
  exact ⟨hsupplies.status, rfl⟩

/-- Along a run in which the upstream answers by its function and every GET that finds a
fresh entry finds one of a GET of its URL, the hits of GETs are right. -/
theorem get_hits_answered {env : Environment} {config : Config} {server : ServerState}
    (hstart : ServerState.new env config = .returned (.ok server)) {actions : List Action}
    (hanswers : ∀ before a, before ++ [a] <+: actions →
      AnswersBy upstream ((System.start server).after before) a)
    (hstored : ∀ before a, before ++ [a] <+: actions →
      LookupRelated StoredByGet ((System.start server).after before) a) :
    ∀ before, before <+: actions →
      GetHitsAnswered upstream ((System.start server).after before) := by
  have hsteps : ∀ (s : System) (a : Action),
      (Consistent s ∧ EnginesApart s ∧ FollowsUpstream upstream s ∧ HitsRelated StoredByGet s) →
      (AnswersBy upstream s a ∧ LookupRelated StoredByGet s a) →
      Consistent (s.step a) ∧ EnginesApart (s.step a) ∧ FollowsUpstream upstream (s.step a) ∧
        HitsRelated StoredByGet (s.step a) := by
    intro s a ⟨hc, hapart, hfollows, hrelated⟩ ⟨hanswer, hlookup⟩
    exact ⟨step_consistent s a hc, step_apart s a hapart, step_followsUpstream hanswer hfollows,
      (step_related_iff hc hrelated a).mpr hlookup⟩
  have hnone : ∀ task, task ∉ (System.start server).requests := fun task => List.not_mem_nil
  intro before hrun
  obtain ⟨hc, hapart, hfollows, hrelated⟩ := always_of_steps hsteps
    ⟨start_consistent hstart, start_apart hstart, fun task htask => absurd htask (hnone task),
      fun j task other htask => absurd htask (hnone task)⟩
    (fun before a ha => ⟨hanswers before a ha, hstored before a ha⟩) before hrun
  exact getHits_of_related hc hapart hfollows hrelated

end Methods

section Example
open ListCrates

/-- Of all steps of such a run, one brings an answer of the upstream. -/
theorem refetching_answered {request request' : Request}
    (hfirst : ((System.start shopServer).after ((fetching request).take 7)).requests[0]?.map
      (fun task => task.exchange.request.method) = some request.method) :
    ∀ before a, before ++ [a] <+: refetching request request' →
      AnswersBy sheet ((System.start shopServer).after before) a := by
  refine steps_iff_getElem.mpr fun n a hn => ?_
  by_cases hseven : n = 7
  · subst hseven
    cases hn
    intro task asked k response htask hprogram hresponse
    cases hresponse
    have hmem := List.mem_of_getElem? htask
    have hmethod := asked_method (after_consistent new_shop _) hmem hprogram
    have hrequest : task.exchange.request.method = request.method := by
      have htask' : ((System.start shopServer).after ((fetching request).take 7)).requests[0]? =
          some task := htask
      rw [htask'] at hfirst
      exact Option.some.inj hfirst
    unfold sheet
    rw [hmethod, hrequest]
  · have hlength : n < 14 := (List.getElem?_eq_some_iff.mp hn).1
    interval_cases n
    all_goals cases hn
    all_goals first
      | exact absurd rfl hseven
      | intro task asked k response _ _ hresponse
        cases hresponse
      | exact True.intro

theorem same_sheet_answered :
    ((System.start shopServer).after (refetching styleSheet styleSheet)).views =
      [⟨none, "a:/x.css".toList, true, 0, some [42]⟩,
        ⟨some 0, "a:/x.css".toList, true, 0, some [42]⟩] ∧
      GetHitsAnswered sheet ((System.start shopServer).after (refetching styleSheet styleSheet)) := by
  refine ⟨by decide +kernel, get_hits_answered new_shop
    (refetching_answered (by decide +kernel)) ?_ _ List.prefix_rfl⟩
  intro before a hrun
  refine lookupRelated_of_all (fun task htask other hother _ => ?_) a
  unfold Exchange.host
  rw [only_styleSheet hrun htask, only_styleSheet hrun hother]
  exact ⟨rfl, rfl, rfl⟩

/-- A HEAD stores its empty body, and the GET that follows gets it. -/
theorem head_answers_get :
    ConfigParser.parseProxyConfig (some 2) shopText.toList = .ok shopConfig ∧
      (∀ uri, (sheet .head uri).body.collect = some []) ∧
      (∀ before a, before ++ [a] <+: refetching (target .head "a" "/x.css") styleSheet →
        AnswersBy sheet ((System.start shopServer).after before) a) ∧
      ¬ GetHitsAnswered sheet ((System.start shopServer).after
        (refetching (target .head "a" "/x.css") styleSheet)) := by
  have hviews : ((System.start shopServer).after
      (refetching (target .head "a" "/x.css") styleSheet)).views =
      [⟨none, "a:/x.css".toList, true, 0, some []⟩, ⟨some 0, "a:/x.css".toList, true, 0, some []⟩] := by
    decide +kernel
  have hmethods : ((System.start shopServer).after
      (refetching (target .head "a" "/x.css") styleSheet)).requests[1]?.map
      (fun task => task.exchange.request.method) = some .get := by
    decide +kernel
  refine ⟨shop_accepted, fun _ => rfl, refetching_answered (by decide +kernel), fun hhits => ?_⟩
  obtain ⟨task, htask, hview⟩ := task_of_views (i := 1) hviews rfl
  have hmem := List.mem_of_getElem? htask
  have hsource : task.source = some 0 := congrArg RequestView.source hview
  have hget : task.exchange.request.method = .get := by
    rw [htask] at hmethods
    exact Option.some.inj hmethods
  obtain ⟨asset, hhit⟩ := hit_of_source ((after_consistent new_shop _).tasks task hmem) hsource
  obtain ⟨hprogram, m, uri, -, -, -, hbody⟩ := hhits task asset hmem hhit hget
  have hempty : (hitResponse asset).body.data = [] := by
    have hdata := congrArg RequestView.body hview
    unfold RequestTask.view at hdata
    rw [hprogram] at hdata
    exact Option.some.inj hdata
  have hfull : asset.body = [42] := Option.some.inj hbody
  have hdata : asset.body = [] := hempty
  rw [hfull] at hdata
  cases hdata

end Example

end BarebonesProxy.Running
