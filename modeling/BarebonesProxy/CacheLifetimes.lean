import BarebonesProxy.CacheControl
import BarebonesProxy.CacheHistory
import BarebonesProxy.CacheHits

set_option autoImplicit false

/-!
# The lifetimes of stored responses

An entry lives for the time that its engine was configured with. What the response itself
says about its lifetime plays no part.
-/
namespace BarebonesProxy.Running
open RustNet RustStrings RustState ProxyConfig Http Cache LruMap RuntimeConfig Server
open EffectPrograms Proxy ProxyProtocol Worker Runs

section Engines
variable [HttpCrate] [LruCrate]

/-- Everything that the running proxy does to cache engine `j`. -/
inductive EngineStep (heap : Heap) (now j : ℕ) : LruCacheEngine → Prop
  | same : EngineStep heap now j (heap.engines j)
  | get (key : Str) : EngineStep heap now j ((heap.engines j).get now key).2
  | insert (key : Str) (status : StatusCode) (headers : HeaderMap) (body : List UInt8) :
      EngineStep heap now j ((heap.engines j).insert now key status headers body none).2
  | fresh (hnew : heap.engineCount ≤ j) (capacity fileSize ttl : ℕ) :
      EngineStep heap now j (.new capacity fileSize ttl)

theorem setEngine_step {heap : Heap} {now i : ℕ} {e : LruCacheEngine}
    (h : EngineStep heap now i e) (j : ℕ) :
    EngineStep heap now j ((heap.setEngine i e).engines j) := by
  change EngineStep heap now j (Function.update heap.engines i e j)
  by_cases hj : j = i
  · rw [hj, Function.update_self]
    exact h
  · rw [Function.update_of_ne hj]
    exact .same

theorem perform_engine (heap : Heap) (now : ℕ) (answer : Answer) (e : Effect) (j : ℕ) :
    EngineStep heap now j ((perform heap now answer e).2.engines j) := by
  cases e with
  | cacheGet engine key => exact setEngine_step (.get key) j
  | _ => exact .same

variable [TlsCrate] [CaseMapping]

theorem reload_engine (server : ServerState) (env : Environment) (now j : ℕ) :
    EngineStep server.heap now j ((server.reload env).heap.engines j) := by
  rcases reload_engines server env j with heq | ⟨hnew, capacity, fileSize, ttl, heq⟩
  · rw [heq]
    exact .same
  · rw [heq]
    exact .fresh hnew capacity fileSize ttl

theorem step_engine (s : System) (a : Action) (j : ℕ) :
    EngineStep s.server.heap s.now j ((s.step a).server.heap.engines j) := by
  cases a with
  | accept stream peerAddr => exact .same
  | connect i answer =>
    change EngineStep _ _ _ ((s.connect i answer).server.heap.engines j)
    rcases connect_cases s i answer with heq | ⟨connection, task, e, -, heq⟩
    · rw [heq]
      exact .same
    · rw [heq]
      exact perform_engine s.server.heap s.now answer e j
  | request i request =>
    change EngineStep _ _ _ ((s.request i request).server.heap.engines j)
    rw [(request_frame s i request).1]
    exact .same
  | serve i answer =>
    change EngineStep _ _ _ ((s.serve i answer).server.heap.engines j)
    rcases serve_cases s i answer with ⟨heq, -⟩ | ⟨task, e, k, -, -, ⟨reply, -, heq⟩ | ⟨-, heq⟩⟩
    · rw [heq]
      exact .same
    · rw [heq]
      exact perform_engine s.server.heap s.now answer e j
    · rw [heq]
      exact perform_engine s.server.heap s.now answer e j
  | insert i =>
    change EngineStep _ _ _ ((s.insert i).server.heap.engines j)
    unfold System.insert
    cases s.pending[i]? with
    | none => exact .same
    | some p =>
      exact setEngine_step (.insert p.insertion.key p.insertion.status p.insertion.headers
        p.insertion.body) j
  | tick duration => exact .same
  | reload env => exact reload_engine s.server env s.now j

end Engines

section Ttls
variable [HttpCrate] [LruCrate]

/-- Each entry of the engine has the lifetime that the engine was configured with. -/
def DefaultTtl (engine : LruCacheEngine) : Prop :=
  ∀ e ∈ engine.held, e.2.ttl = engine.defaultTtl

theorem EngineStep.defaultTtl {heap : Heap} {now j : ℕ} {engine : LruCacheEngine}
    (hstep : EngineStep heap now j engine) (hopen : (heap.engines j).inner.poisoned = false)
    (h : DefaultTtl (heap.engines j)) : DefaultTtl engine := by
  cases hstep with
  | same => exact h
  | get key =>
    intro e he
    have hdefault : ((heap.engines j).get now key).2.defaultTtl = (heap.engines j).defaultTtl :=
      (run_settings (heap.engines j) (.get now key)).1
    rw [hdefault]
    exact h e (get_held hopen he)
  | insert key status headers body =>
    intro e he
    have hdefault : ((heap.engines j).insert now key status headers body none).2.defaultTtl =
        (heap.engines j).defaultTtl :=
      (run_settings (heap.engines j) (.insert now key status headers body none)).1
    rw [hdefault]
    obtain ⟨kept, hkept, ⟨-, hheld⟩ | ⟨-, hheld⟩⟩ :=
      insert_cases (heap.engines j) now key status headers body none
    · rw [hheld] at he
      rcases List.mem_cons.mp he with rfl | he
      · rfl
      · exact h e (hkept.subset (mem_without.mp he).1)
    · rw [hheld] at he
      exact h e (hkept.subset he)
  | fresh hnew capacity fileSize ttl =>
    intro e he
    rw [new_held] at he
    cases he

variable [TlsCrate] [CaseMapping]

theorem after_defaultTtls {env : Environment} {config : Config} {server : ServerState}
    (hstart : ServerState.new env config = .returned (.ok server)) (actions : List Action) (j : ℕ) :
    DefaultTtl (((System.start server).after actions).server.heap.engines j) := by
  have hinvariant : ∀ (s : System) (a : Action),
      (Consistent s ∧ DefaultTtl (s.server.heap.engines j)) →
      Consistent (s.step a) ∧ DefaultTtl ((s.step a).server.heap.engines j) := by
    intro s a ⟨hc, h⟩
    exact ⟨step_consistent s a hc, (step_engine s a j).defaultTtl (hc.unpoisoned j) h⟩
  have hnone : DefaultTtl ((System.start server).server.heap.engines j) := by
    obtain ⟨capacity, fileSize, ttl, heq⟩ := new_engines hstart j
    intro e he
    change e ∈ (server.heap.engines j).held at he
    rw [heq, new_held] at he
    cases he
  exact (foldl_invariant _ hinvariant ⟨start_consistent hstart, hnone⟩ actions).2

end Ttls

section FileSizes
variable [HttpCrate] [LruCrate]

theorem EngineStep.maxFileSizeBytes {heap : Heap} {now j : ℕ} {engine : LruCacheEngine}
    (hstep : EngineStep heap now j engine) (hj : j < heap.engineCount) :
    engine.maxFileSizeBytes = (heap.engines j).maxFileSizeBytes := by
  cases hstep with
  | same => rfl
  | get key => exact (run_settings (heap.engines j) (.get now key)).2
  | insert key status headers body =>
    exact (run_settings (heap.engines j) (.insert now key status headers body none)).2
  | fresh hnew => exact absurd hj (not_lt.mpr hnew)

variable [TlsCrate]

def System.fileLimits (s : System) (engine : ℕ) : ℕ :=
  (s.server.heap.engines engine).maxFileSizeBytes

/-- What the requests were told about the largest file size is still so. -/
def ReportsOwnLimits (s : System) : Prop :=
  ∀ task ∈ s.requests, ReportsLimits s.fileLimits task.trace

variable [CaseMapping]

/-- A request asks only the engine of its configuration, which no reload touches. -/
theorem step_fileLimits {s : System} (hapart : EnginesApart s) (a : Action) {task : RequestTask}
    (htask : task ∈ s.requests) {engine : ℕ} (hengine : task.exchange.cacheEngine = some engine) :
    (s.step a).fileLimits engine = s.fileLimits engine := by
  refine (step_engine s a engine).maxFileSizeBytes ?_
  exact hapart.allocated _ _ (.inr ⟨task, htask, rfl⟩) (config_cacheEngine hengine)

theorem step_reportsOwnLimits {s : System} (hc : Consistent s) (hapart : EnginesApart s)
    (h : ReportsOwnLimits s) (a : Action) : ReportsOwnLimits (s.step a) := by
  have hkept : ∀ task ∈ s.requests, ReportsLimits (s.step a).fileLimits task.trace := by
    intro task htask engine largest hmem
    obtain ⟨p, hreach, -⟩ := (hc.tasks task htask).reached
    obtain ⟨t₁, t₂, -, hpermitted⟩ := permitted_of_mem hreach hmem
    rw [step_fileLimits hapart a htask hpermitted]
    exact h task htask engine largest hmem
  intro task' htask'
  rcases step_traces s a htask' with hnil | ⟨task, htask, htrace⟩ |
    ⟨i, answer, task, e, k, reply, -, hfound, hprogram, hreply, htrace⟩
  · rw [hnil]
    exact nofun
  · rw [htrace]
    exact hkept task htask
  · have htask := List.mem_of_getElem? hfound
    rw [htrace]
    intro engine largest hmem
    rcases List.mem_append.mp hmem with hmem | hmem
    · exact hkept task htask engine largest hmem
    · cases List.mem_singleton.mp hmem
      obtain ⟨p, hreach, hsame⟩ := (hc.tasks task htask).reached
      rw [← hsame _ hprogram] at hreach
      have hengine : task.exchange.cacheEngine = some engine := permitted_of_reaches hreach
      rw [step_fileLimits hapart a htask hengine]
      cases hreply
      rfl

/-- In every run an engine that a request asked for its largest file size has told it the one
that it keeps. -/
theorem requests_told_own_limits {env : Environment} {config : Config} {server : ServerState}
    (hstart : ServerState.new env config = .returned (.ok server)) (actions : List Action) :
    ReportsOwnLimits ((System.start server).after actions) := by
  have hsteps : ∀ (s : System) (a : Action),
      (Consistent s ∧ EnginesApart s ∧ ReportsOwnLimits s) →
      Consistent (s.step a) ∧ EnginesApart (s.step a) ∧ ReportsOwnLimits (s.step a) :=
    fun s a ⟨hc, hapart, h⟩ =>
      ⟨step_consistent s a hc, step_apart s a hapart, step_reportsOwnLimits hc hapart h a⟩
  have hfirst : ReportsOwnLimits (System.start server) := fun task htask => nomatch htask
  exact (foldl_invariant _ hsteps
    ⟨start_consistent hstart, start_apart hstart, hfirst⟩ actions).2.2

end FileSizes

section MaxAge
variable [HttpCrate]

def secondsOf (s : Str) : Option ℕ :=
  if s ≠ [] ∧ s.all isAsciiDigit = true then some (digitsValue s) else none

/-- The lifetime in seconds that a response asks for. -/
def maxAge (headers : HeaderMap) : Option ℕ :=
  ((cacheControlLines headers).flatMap directives).findSome? fun directive =>
    if eqIgnoreAsciiCase directive.1 "max-age".toList then directive.2.bind secondsOf else none

variable [LruCrate] [TlsCrate]

/-- The lifetimes of the responses are kept: no lookup that is about to be answered gives a
response that is older than it allows, and no entry that has one lives for another time. -/
structure LifetimesKept (s : System) : Prop where
  hits : ∀ task ∈ s.requests, ∀ engine key k asset seconds,
    task.program = some (.op (.cacheGet engine key) k) →
    ((s.server.heap.engines engine).get s.now key).1 = some asset →
    maxAge asset.headers = some seconds →
      durationSince s.now asset.createdAt < fromSecs seconds
  ttls : ∀ engine key asset seconds, (key, asset) ∈ (s.server.heap.engines engine).held →
    maxAge asset.headers = some seconds → asset.ttl = fromSecs seconds

/-- Every lifetime that an entry has of its response is the one that its engine was
configured with. -/
def MaxAgesDefault (s : System) : Prop :=
  ∀ engine key asset seconds, (key, asset) ∈ (s.server.heap.engines engine).held →
    maxAge asset.headers = some seconds →
      (s.server.heap.engines engine).defaultTtl = fromSecs seconds

theorem lifetimesKept_of_ttls {s : System} (hopen : Unpoisoned s.server.heap)
    (h : ∀ engine key asset seconds, (key, asset) ∈ (s.server.heap.engines engine).held →
      maxAge asset.headers = some seconds → asset.ttl = fromSecs seconds) : LifetimesKept s := by
  refine ⟨?_, h⟩
  intro task htask engine key k asset seconds _ hget hage
  obtain ⟨hheld, hfresh⟩ := (get_eq_some_iff (hopen engine)).mp hget
  rw [← h engine key asset seconds hheld hage]
  unfold CachedAsset.isExpired at hfresh
  rw [decide_eq_false_iff_not, not_le] at hfresh
  exact hfresh

variable [CaseMapping]

/-- All along a run the lifetimes of the responses are kept exactly when they are those of
the configuration. -/
theorem lifetimesKept_iff {env : Environment} {config : Config} {server : ServerState}
    (hstart : ServerState.new env config = .returned (.ok server)) (actions : List Action) :
    (∀ before, before <+: actions → LifetimesKept ((System.start server).after before)) ↔
      ∀ before, before <+: actions → MaxAgesDefault ((System.start server).after before) := by
  refine forall_congr' fun before => imp_congr_right fun _ => ?_
  have hdefault := fun engine key asset hheld =>
    after_defaultTtls hstart before engine (key, asset) hheld
  constructor
  · intro hkept engine key asset seconds hheld hage
    rw [← hdefault engine key asset hheld]
    exact hkept.ttls engine key asset seconds hheld hage
  · intro hsame
    refine lifetimesKept_of_ttls (after_consistent hstart before).unpoisoned ?_
    intro engine key asset seconds hheld hage
    rw [hdefault engine key asset hheld]
    exact hsame engine key asset seconds hheld hage

end MaxAge

section Example
open ListCrates

def agedSheet (age : String) : Response :=
  ⟨.ok, [(.contentType, "text/css".toList), (.cacheControl, age.toList)], .full [42]⟩

/-- A style sheet is stored, and asked for again after half a minute. The next step looks it
up. -/
def agedRun (age : String) : List Action :=
  [.accept ⟨[], .eof⟩ ⟨.v4 ⟨10, 0, 0, 1⟩, 4000⟩, .connect 0 silence, .connect 0 silence,
    .request 0 styleSheet, .serve 0 silence, .serve 0 silence, .serve 0 silence,
    .serve 0 ⟨some (agedSheet age), true⟩, .serve 0 silence, .insert 0,
    .tick (fromSecs 30), .request 0 styleSheet, .serve 1 silence, .serve 1 silence]

/-- The style sheet may be kept for a second. -/
def staleRun : List Action := agedRun "public, max-age=1"

/-- The style sheet may be kept for as long as the configuration says. -/
def freshRun : List Action := agedRun "public, max-age=300"

/-- When the entries of the engine were stored, how long they live and how long they may. -/
def lifetimes (engine : LruCacheEngine) : List (ℕ × ℕ × Option ℕ) :=
  engine.held.map fun e => (e.2.createdAt, e.2.ttl, maxAge e.2.headers)

theorem stale_lifetimes :
    lifetimes (((System.start shopServer).after staleRun).server.heap.engines 0) =
      [(0, fromSecs 300, some 1)] := by decide +kernel

theorem stale_entry : ∃ key asset,
    (key, asset) ∈ (((System.start shopServer).after staleRun).server.heap.engines 0).held ∧
      asset.ttl = fromSecs 300 ∧ maxAge asset.headers = some 1 := by
  have hmem : (0, fromSecs 300, some 1) ∈
      lifetimes (((System.start shopServer).after staleRun).server.heap.engines 0) := by
    rw [stale_lifetimes]
    exact .head _
  obtain ⟨⟨key, asset⟩, hheld, heq⟩ := List.mem_map.mp hmem
  simp only [Prod.mk.injEq] at heq
  exact ⟨key, asset, hheld, heq.2⟩

theorem fresh_lifetimes : ∀ before, before <+: freshRun →
    (((System.start shopServer).after before).requests.all
      fun task => task.exchange.cacheEngine == some 0) = true ∧
    (((System.start shopServer).after before).server.heap.engines 0).defaultTtl =
      fromSecs 300 ∧
    ((lifetimes (((System.start shopServer).after before).server.heap.engines 0)).all
      fun lifetime => lifetime.2.2 == some 300) = true := by
  refine forall_prefix_of_take ?_
  decide +kernel

theorem fresh_maxAges {before : List Action} (h : before <+: freshRun) :
    MaxAgesDefault ((System.start shopServer).after before) := by
  obtain ⟨hrequests, hdefault, hages⟩ := fresh_lifetimes before h
  intro engine key asset seconds hheld hage
  -- the entry was stored by a request, and all of them use the first engine
  have hc := after_consistent new_shop before
  obtain ⟨i, -, hsupplied⟩ := hc.held engine key asset hheld
  obtain ⟨other, response, hsupplies, hengine, -⟩ := hsupplied.supplies hc
  have hother := List.all_eq_true.mp hrequests other (List.mem_of_getElem? hsupplies.request)
  rw [hengine, beq_iff_eq, Option.some.injEq] at hother
  subst hother
  have hknown := List.all_eq_true.mp hages _ (List.mem_map_of_mem hheld)
  rw [hage, beq_iff_eq, Option.some.injEq] at hknown
  rw [hdefault, hknown]

theorem fresh_run_kept_stale_not :
    (∀ before, before <+: freshRun → LifetimesKept ((System.start shopServer).after before)) ∧
      lifetimes (((System.start shopServer).after freshRun).server.heap.engines 0) =
        [(0, fromSecs 300, some 300)] ∧
      ¬ ∀ before, before <+: staleRun →
        LifetimesKept ((System.start shopServer).after before) := by
  refine ⟨(lifetimesKept_iff new_shop freshRun).mpr fun before h => fresh_maxAges h,
    by decide +kernel, fun hkept => ?_⟩
  have hdefault := (lifetimesKept_iff new_shop staleRun).mp hkept staleRun List.prefix_rfl
  obtain ⟨key, asset, hheld, -, hage⟩ := stale_entry
  have hsame := hdefault 0 key asset 1 hheld hage
  revert hsame
  decide +kernel

/-- The second request is answered from the cache half a minute after a response that may be
kept for a second was stored. -/
theorem stale_sheet_hit :
    ((System.start shopServer).after staleRun).now = fromSecs 30 ∧
      lifetimes (((System.start shopServer).after staleRun).server.heap.engines 0) =
        [(0, fromSecs 300, some 1)] ∧
      ((System.start shopServer).after (staleRun ++ [.serve 1 silence])).views =
        [⟨none, "a:/x.css".toList, true, 0, some [42]⟩,
          ⟨some 0, "a:/x.css".toList, true, 0, some [42]⟩] ∧
      ¬ LifetimesKept ((System.start shopServer).after staleRun) := by
  refine ⟨by decide +kernel, stale_lifetimes, by decide +kernel, fun hkept => ?_⟩
  obtain ⟨key, asset, hheld, httl, hage⟩ := stale_entry
  have hsame := hkept.ttls 0 key asset 1 hheld hage
  rw [httl] at hsame
  revert hsame
  decide

end Example

end BarebonesProxy.Running
