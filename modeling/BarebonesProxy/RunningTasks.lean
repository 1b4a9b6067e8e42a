import BarebonesProxy.Running

set_option autoImplicit false

/-!
# What holds in every state of the running proxy

Each request is somewhere in its own program, and every asset that an engine holds or a
request was given comes from an insertion that a request spawned.
-/
namespace BarebonesProxy.Running
open RustNet RustStrings RustState ProxyConfig Http Cache LruMap RuntimeConfig Server
open EffectPrograms Proxy ProxyProtocol Worker Runs

section Perform
variable [HttpCrate] [LruCrate] {heap : Heap} {now : ℕ} {answer : Answer}

def Unpoisoned (heap : Heap) : Prop := ∀ engine, (heap.engines engine).inner.poisoned = false

theorem Unpoisoned.setEngine (h : Unpoisoned heap) {i : ℕ} {e : LruCacheEngine}
    (he : e.inner.poisoned = false) : Unpoisoned (heap.setEngine i e) := by
  intro j
  change (Function.update heap.engines i e j).inner.poisoned = false
  by_cases hj : j = i
  · rw [hj, Function.update_self]
    exact he
  · rw [Function.update_of_ne hj]
    exact h j

theorem mem_held_setEngine {i j : ℕ} {e : LruCacheEngine} {x : Str × CachedAsset}
    (hx : x ∈ ((heap.setEngine i e).engines j).held) :
    (j = i ∧ x ∈ e.held) ∨ (j ≠ i ∧ x ∈ (heap.engines j).held) := by
  change x ∈ (Function.update heap.engines i e j).held at hx
  by_cases hj : j = i
  · rw [hj, Function.update_self] at hx
    exact .inl ⟨hj, hx⟩
  · rw [Function.update_of_ne hj] at hx
    exact .inr ⟨hj, hx⟩

theorem perform_unpoisoned (h : Unpoisoned heap) (e : Effect) :
    Unpoisoned (perform heap now answer e).2 := by
  cases e with
  | cacheGet engine key => exact h.setEngine (get_cases (h engine) now key).1
  | _ => exact h

theorem perform_held (h : Unpoisoned heap) (e : Effect) {i : ℕ} {x : Str × CachedAsset}
    (hx : x ∈ ((perform heap now answer e).2.engines i).held) : x ∈ (heap.engines i).held := by
  cases e with
  | cacheGet engine key =>
    rcases mem_held_setEngine hx with ⟨rfl, hget⟩ | ⟨-, hold⟩
    · exact get_held (h i) hget
    · exact hold
  | _ => exact hx

theorem placeEngine_engines (heap : Heap) (cache : Option CacheConfig) (engine : ℕ) :
    (heap.placeEngine (cacheEngineFor cache)).2.engines engine = heap.engines engine ∨
      heap.engineCount ≤ engine ∧ ∃ capacity fileSize ttl,
        (heap.placeEngine (cacheEngineFor cache)).2.engines engine = .new capacity fileSize ttl := by
  cases cache with
  | none => exact .inl rfl
  | some cache =>
    unfold cacheEngineFor
    dsimp only
    split
    · change Function.update heap.engines heap.engineCount _ engine = _ ∨
        _ ∧ ∃ _ _ _, Function.update heap.engines heap.engineCount _ engine = _
      by_cases hengine : engine = heap.engineCount
      · rw [hengine, Function.update_self]
        exact .inr ⟨le_rfl, _, _, _, rfl⟩
      · rw [Function.update_of_ne hengine]
        exact .inl rfl
    · exact .inl rfl

end Perform

section Steps
variable [HttpCrate] [TlsCrate] [LruCrate]

/-- Everything a step of a request can do. -/
theorem serve_cases (s : System) (i : ℕ) (answer : Answer) :
    (s.serve i answer = s ∧
      ∀ task e k, s.requests[i]? = some task → task.program ≠ some (.op e k)) ∨
    ∃ task e k, s.requests[i]? = some task ∧ task.program = some (.op e k) ∧
      ((∃ reply, (perform s.server.heap s.now answer e).1 = .returned reply ∧
        s.serve i answer = { s.withHeap (perform s.server.heap s.now answer e).2 with
          requests := s.requests.set i (task.answered s.origin e k reply)
          pending := s.pending ++ spawnedBy i e }) ∨
      (perform s.server.heap s.now answer e).1 = .panicked ∧
        s.serve i answer = { s.withHeap (perform s.server.heap s.now answer e).2 with
          requests := s.requests.set i { task with program := none } }) := by
  unfold System.serve
  cases htask : s.requests[i]? with
  | none => exact .inl ⟨rfl, fun task e k h => nomatch h⟩
  | some task =>
    dsimp only
    split
    · next e k hprogram =>
      refine .inr ⟨task, e, k, rfl, hprogram, ?_⟩
      generalize perform s.server.heap s.now answer e = result
      obtain ⟨outcome, heap⟩ := result
      cases outcome with
      | returned reply => exact .inl ⟨reply, rfl, rfl⟩
      | panicked => exact .inr ⟨rfl, rfl⟩
    · next hprogram =>
      refine .inl ⟨rfl, fun task' e k htask' => ?_⟩
      rw [← Option.some.inj htask']
      exact hprogram e k

theorem connect_cases (s : System) (i : ℕ) (answer : Answer) :
    s.connect i answer = s ∨
    ∃ connection task e, s.connections[i]? = some connection ∧
      s.connect i answer = { s.withHeap (perform s.server.heap s.now answer e).2 with
        connections := s.connections.set i { connection with task } } := by
  unfold System.connect
  cases hconnection : s.connections[i]? with
  | none => exact .inl rfl
  | some connection =>
    dsimp only
    split
    · next e k _ => exact .inr ⟨connection, _, e, rfl, rfl⟩
    · exact .inl rfl

/-- A request touches the heap and its own task only. -/
theorem serve_frame (s : System) (i : ℕ) (answer : Answer) :
    (s.serve i answer).server.config = s.server.config ∧
      (s.serve i answer).connections = s.connections := by
  rcases serve_cases s i answer with ⟨heq, -⟩ | ⟨task, e, k, -, -, ⟨reply, -, heq⟩ | ⟨-, heq⟩⟩
  all_goals
    rw [heq]
    exact ⟨rfl, rfl⟩

theorem connect_frame (s : System) (i : ℕ) (answer : Answer) :
    (s.connect i answer).server.config = s.server.config ∧
      (s.connect i answer).requests = s.requests := by
  rcases connect_cases s i answer with heq | ⟨connection, task, e, -, heq⟩
  all_goals
    rw [heq]
    exact ⟨rfl, rfl⟩

theorem insert_frame (s : System) (i : ℕ) :
    (s.insert i).server.config = s.server.config ∧ (s.insert i).connections = s.connections ∧
      (s.insert i).requests = s.requests := by
  unfold System.insert
  cases s.pending[i]? <;> exact ⟨rfl, rfl, rfl⟩

theorem serve_tasks (s : System) (i : ℕ) (answer : Answer) {task' : RequestTask}
    (h : task' ∈ (s.serve i answer).requests) :
    ∃ task ∈ s.requests, task'.exchange = task.exchange ∧ task'.connection = task.connection := by
  rcases serve_cases s i answer with ⟨heq, -⟩ | ⟨task, e, k, htask, -, ⟨reply, -, heq⟩ | ⟨-, heq⟩⟩
  · rw [heq] at h
    exact ⟨task', h, rfl, rfl⟩
  · rw [heq] at h
    rcases List.mem_or_eq_of_mem_set h with hmem | rfl
    · exact ⟨task', hmem, rfl, rfl⟩
    · exact ⟨task, List.mem_of_getElem? htask, rfl, rfl⟩
  · rw [heq] at h
    rcases List.mem_or_eq_of_mem_set h with hmem | rfl
    · exact ⟨task', hmem, rfl, rfl⟩
    · exact ⟨task, List.mem_of_getElem? htask, rfl, rfl⟩

theorem connect_accepted (s : System) (i : ℕ) (answer : Answer) {j : ℕ} {connection : Connection}
    (h : s.connections[j]? = some connection) :
    ∃ connection', (s.connect i answer).connections[j]? = some connection' ∧
      connection'.accepted = connection.accepted := by
  rcases connect_cases s i answer with heq | ⟨found, task, e, hfound, heq⟩
  · rw [heq]
    exact ⟨connection, h, rfl⟩
  · rw [heq]
    change ∃ connection', (s.connections.set i _)[j]? = some connection' ∧ _
    rw [List.getElem?_set]
    by_cases hj : i = j
    · subst hj
      have hsame : connection = found := Option.some.inj (h.symm.trans hfound)
      have hlt : i < s.connections.length := (List.getElem?_eq_some_iff.mp h).1
      rw [if_pos rfl, if_pos hlt, hsame]
      exact ⟨_, rfl, rfl⟩
    · rw [if_neg hj]
      exact ⟨connection, h, rfl⟩

variable [CaseMapping]

theorem request_cases (s : System) (i : ℕ) (request : Request) :
    s.request i request = s ∨
    ∃ connection served, s.connections[i]? = some connection ∧
      connection.served = some served ∧
      s.request i request =
        { s with
          requests := s.requests ++ [⟨i, served.exchange s.server.config request, [],
            some (handleRequest (served.exchange s.server.config request)), none⟩] } := by
  unfold System.request
  cases hserved : s.connections[i]?.bind Connection.served with
  | none => exact .inl rfl
  | some served =>
    obtain ⟨connection, hconnection, hserved⟩ := Option.bind_eq_some_iff.mp hserved
    exact .inr ⟨connection, served, hconnection, hserved, rfl⟩

theorem request_frame (s : System) (i : ℕ) (request : Request) :
    (s.request i request).server = s.server ∧
      (s.request i request).connections = s.connections := by
  rcases request_cases s i request with heq | ⟨connection, served, -, -, heq⟩
  all_goals
    rw [heq]
    exact ⟨rfl, rfl⟩

theorem request_tasks (s : System) (i : ℕ) (request : Request) {task' : RequestTask}
    (h : task' ∈ (s.request i request).requests) :
    task' ∈ s.requests ∨ ∃ connection, s.connections[i]? = some connection ∧
      task'.connection = i ∧ task'.exchange.config = s.server.config ∧
      task'.exchange.request = request := by
  rcases request_cases s i request with heq | ⟨connection, served, hconnection, -, heq⟩
  · rw [heq] at h
    exact .inl h
  · rw [heq] at h
    rcases List.mem_append.mp h with hmem | hmem
    · exact .inl hmem
    · rw [List.mem_singleton.mp hmem]
      exact .inr ⟨connection, hconnection, rfl, rfl, rfl⟩

/-- A request that is there after a step was there before, or arrives with it. -/
theorem step_tasks (s : System) (a : Action) {task' : RequestTask}
    (h : task' ∈ (s.step a).requests) :
    (∃ task ∈ s.requests, task'.exchange = task.exchange ∧ task'.connection = task.connection) ∨
    ∃ i request connection, a = .request i request ∧ s.connections[i]? = some connection ∧
      task'.connection = i ∧ task'.exchange.config = s.server.config ∧
      task'.exchange.request = request := by
  have hkept : task' ∈ s.requests → ∃ task ∈ s.requests, task'.exchange = task.exchange ∧
      task'.connection = task.connection := fun hmem => ⟨task', hmem, rfl, rfl⟩
  cases a with
  | request i request =>
    rcases request_tasks s i request h with hmem | ⟨connection, hfound, hi, hconfig, hrequest⟩
    · exact .inl (hkept hmem)
    · exact .inr ⟨i, request, connection, rfl, hfound, hi, hconfig, hrequest⟩
  | serve i answer => exact .inl (serve_tasks s i answer h)
  | connect i answer =>
    change task' ∈ (s.connect i answer).requests at h
    rw [(connect_frame s i answer).2] at h
    exact .inl (hkept h)
  | insert i =>
    change task' ∈ (s.insert i).requests at h
    rw [(insert_frame s i).2.2] at h
    exact .inl (hkept h)
  | accept stream peerAddr => exact .inl (hkept h)
  | tick duration => exact .inl (hkept h)
  | reload env => exact .inl (hkept h)

/-- The trace of a request after a step: empty, as before, or with one more reply. -/
theorem step_traces (s : System) (a : Action) {task' : RequestTask}
    (h : task' ∈ (s.step a).requests) :
    task'.trace = [] ∨ (∃ task ∈ s.requests, task'.trace = task.trace) ∨
    ∃ i answer task e k reply, a = .serve i answer ∧ s.requests[i]? = some task ∧
      task.program = some (.op e k) ∧
      (perform s.server.heap s.now answer e).1 = .returned reply ∧
      task'.trace = task.trace ++ [⟨e, reply⟩] := by
  have hkept : task' ∈ s.requests → ∃ task ∈ s.requests, task'.trace = task.trace :=
    fun hmem => ⟨task', hmem, rfl⟩
  cases a with
  | serve i answer =>
    change task' ∈ (s.serve i answer).requests at h
    rcases serve_cases s i answer with ⟨heq, -⟩ | ⟨task, e, k, htask, hprogram, hcase⟩
    · rw [heq] at h
      exact .inr (.inl (hkept h))
    · rcases hcase with ⟨reply, hreply, heq⟩ | ⟨-, heq⟩
      all_goals
        rw [heq] at h
        rcases List.mem_or_eq_of_mem_set h with hmem | rfl
      · exact .inr (.inl (hkept hmem))
      · exact .inr (.inr ⟨i, answer, task, e, k, reply, rfl, htask, hprogram, hreply, rfl⟩)
      · exact .inr (.inl (hkept hmem))
      · exact .inr (.inl ⟨task, List.mem_of_getElem? htask, rfl⟩)
  | request i request =>
    change task' ∈ (s.request i request).requests at h
    rcases request_cases s i request with heq | ⟨connection, served, -, -, heq⟩
    · rw [heq] at h
      exact .inr (.inl (hkept h))
    · rw [heq] at h
      rcases List.mem_append.mp h with hmem | hmem
      · exact .inr (.inl (hkept hmem))
      · rw [List.mem_singleton.mp hmem]
        exact .inl rfl
  | connect i answer =>
    change task' ∈ (s.connect i answer).requests at h
    rw [(connect_frame s i answer).2] at h
    exact .inr (.inl (hkept h))
  | insert i =>
    change task' ∈ (s.insert i).requests at h
    rw [(insert_frame s i).2.2] at h
    exact .inr (.inl (hkept h))
  | accept stream peerAddr => exact .inr (.inl (hkept h))
  | tick duration => exact .inr (.inl (hkept h))
  | reload env => exact .inr (.inl (hkept h))

/-- What all answers of the upstream have in common stays so if the new one has it. -/
theorem step_fetched {s : System} {a : Action} {Q : ForwardedRequest → Response → Prop}
    (h : ∀ task ∈ s.requests, ∀ request response,
      (⟨.upstreamRequest request, some response⟩ : (e : Effect) × e.Reply) ∈ task.trace →
        Q request response)
    (ha : ∀ i answer task request k response, a = .serve i answer → s.requests[i]? = some task →
      task.program = some (.op (.upstreamRequest request) k) →
      answer.response = some response → Q request response) :
    ∀ task ∈ (s.step a).requests, ∀ request response,
      (⟨.upstreamRequest request, some response⟩ : (e : Effect) × e.Reply) ∈ task.trace →
        Q request response := by
  intro task' htask' request response hmem
  rcases step_traces s a htask' with hnil | ⟨task, htask, htrace⟩ |
    ⟨i, answer, task, e, k, reply, hserve, htask, hprogram, hreply, htrace⟩
  · rw [hnil] at hmem
    cases hmem
  · exact h task htask request response (htrace ▸ hmem)
  · rw [htrace] at hmem
    rcases List.mem_append.mp hmem with hmem | hmem
    · exact h task (List.mem_of_getElem? htask) request response hmem
    · cases List.mem_singleton.mp hmem
      exact ha i answer task request k response hserve htask hprogram (Outcome.returned.inj hreply)

/-- A connection keeps the configuration of its accept. -/
theorem step_accepted (s : System) (a : Action) {j : ℕ} {connection : Connection}
    (h : s.connections[j]? = some connection) :
    ∃ connection' : Connection, (s.step a).connections[j]? = some connection' ∧
      connection'.accepted = connection.accepted := by
  cases a with
  | connect i answer => exact connect_accepted s i answer h
  | accept stream peerAddr =>
    have hlt : j < s.connections.length := (List.getElem?_eq_some_iff.mp h).1
    exact ⟨connection, (List.getElem?_append_left hlt).trans h, rfl⟩
  | request i request => exact ⟨connection, (request_frame s i request).2 ▸ h, rfl⟩
  | serve i answer => exact ⟨connection, (serve_frame s i answer).2 ▸ h, rfl⟩
  | insert i => exact ⟨connection, (insert_frame s i).2.1 ▸ h, rfl⟩
  | tick duration => exact ⟨connection, h, rfl⟩
  | reload env => exact ⟨connection, h, rfl⟩

/-- Only a reload changes the published configuration. -/
theorem step_config (s : System) (a : Action) (h : ∀ env, a ≠ .reload env) :
    (s.step a).server.config = s.server.config := by
  cases a with
  | accept stream peerAddr => rfl
  | connect i answer => exact (connect_frame s i answer).1
  | request i request => exact congrArg ServerState.config (request_frame s i request).1
  | serve i answer => exact (serve_frame s i answer).1
  | insert i => exact (insert_frame s i).1
  | tick duration => rfl
  | reload env => exact absurd rfl (h env)

theorem step_origin (s : System) (a : Action) (h : ∀ i, a ≠ .insert i) :
    (s.step a).origin = s.origin := by
  cases a with
  | accept stream peerAddr => rfl
  | connect i answer =>
    change (s.connect i answer).origin = s.origin
    rcases connect_cases s i answer with heq | ⟨connection, task, e, -, heq⟩
    · rw [heq]
    · rw [heq]
      rfl
  | request i request =>
    change (s.request i request).origin = s.origin
    rcases request_cases s i request with heq | ⟨connection, served, -, -, heq⟩
    all_goals rw [heq]
  | serve i answer =>
    change (s.serve i answer).origin = s.origin
    rcases serve_cases s i answer with ⟨heq, -⟩ | ⟨task, e, k, -, -, ⟨reply, -, heq⟩ | ⟨-, heq⟩⟩
    · rw [heq]
    · rw [heq]
      rfl
    · rw [heq]
      rfl
  | insert i => exact absurd rfl (h i)
  | tick duration => rfl
  | reload env => rfl

theorem after_origin (s : System) {actions : List Action} (h : ∀ a ∈ actions, ∀ i, a ≠ .insert i) :
    (s.after actions).origin = s.origin :=
  foldl_unchanged System.origin step_origin h s

end Steps

section Invariant
variable [HttpCrate] [TlsCrate] [LruCrate] {s s' : System}

def Spawned (s : System) (i : ℕ) (insertion : CacheInsertion) : Prop :=
  ∃ task, s.requests[i]? = some task ∧
    (⟨.spawnInsert insertion, ()⟩ : (e : Effect) × e.Reply) ∈ task.trace

def SuppliedBy (s : System) (i engine : ℕ) (key : Str) (asset : CachedAsset) : Prop :=
  ∃ insertion, Spawned s i insertion ∧ insertion.engine = engine ∧ insertion.key = key ∧
    insertion.status = asset.status ∧ insertion.headers = asset.headers ∧
    insertion.body = asset.body

/-- The requests of `s` are in `s'`, as far as before or further. -/
def Extends (s s' : System) : Prop :=
  ∀ (i : ℕ) (task : RequestTask), s.requests[i]? = some task →
    ∃ task' : RequestTask, s'.requests[i]? = some task' ∧
    task'.exchange = task.exchange ∧ task'.connection = task.connection ∧
    ∀ x ∈ task.trace, x ∈ task'.trace

theorem Extends.of_eq (h : s'.requests = s.requests) : Extends s s' :=
  fun _ task htask => ⟨task, h ▸ htask, rfl, rfl, fun _ hx => hx⟩

theorem Extends.of_set {i : ℕ} {task task' : RequestTask} (htask : s.requests[i]? = some task)
    (hset : s'.requests = s.requests.set i task') (hexchange : task'.exchange = task.exchange)
    (hconnection : task'.connection = task.connection)
    (htrace : ∀ x ∈ task.trace, x ∈ task'.trace) : Extends s s' := by
  intro j old hold
  rw [hset, List.getElem?_set]
  by_cases hj : i = j
  · subst hj
    have hsame : old = task := Option.some.inj (hold.symm.trans htask)
    have hlt : i < s.requests.length := (List.getElem?_eq_some_iff.mp htask).1
    rw [if_pos rfl, if_pos hlt, hsame]
    exact ⟨task', rfl, hexchange, hconnection, htrace⟩
  · rw [if_neg hj]
    exact ⟨old, hold, rfl, rfl, fun _ hx => hx⟩

theorem Spawned.mono (h : Extends s s') {i : ℕ} {insertion : CacheInsertion}
    (hs : Spawned s i insertion) : Spawned s' i insertion := by
  obtain ⟨task, htask, hmem⟩ := hs
  obtain ⟨task', htask', -, -, htrace⟩ := h i task htask
  exact ⟨task', htask', htrace _ hmem⟩

theorem SuppliedBy.mono (h : Extends s s') {i engine : ℕ} {key : Str} {asset : CachedAsset}
    (hs : SuppliedBy s i engine key asset) : SuppliedBy s' i engine key asset := by
  obtain ⟨insertion, hspawned, hrest⟩ := hs
  exact ⟨insertion, hspawned.mono h, hrest⟩

variable [CaseMapping]

/-- A request is where its trace has led its program, and a hit has a known source. -/
structure Tracked (s : System) (task : RequestTask) : Prop where
  reached : ∃ p, Reaches (handleRequest task.exchange) task.trace p ∧
    ∀ q, task.program = some q → q = p
  hit : ∀ engine key asset,
    (⟨.cacheGet engine key, some asset⟩ : (e : Effect) × e.Reply) ∈ task.trace →
    task.program.isSome = true ∧ ∃ i, task.source = some i ∧ SuppliedBy s i engine key asset
  missed : NoHit task.trace → task.source = none

structure Consistent (s : System) : Prop where
  tasks : ∀ task ∈ s.requests, Tracked s task
  pending : ∀ p ∈ s.pending, Spawned s p.request p.insertion
  unpoisoned : Unpoisoned s.server.heap
  held : ∀ engine key asset, (key, asset) ∈ (s.server.heap.engines engine).held →
    ∃ i, s.origin engine key = some i ∧ SuppliedBy s i engine key asset

theorem Tracked.mono (h : Extends s s') {task : RequestTask} (ht : Tracked s task) :
    Tracked s' task := by
  refine ⟨ht.reached, ?_, ht.missed⟩
  intro engine key asset hmem
  obtain ⟨hprogram, i, hsource, hsupplied⟩ := ht.hit engine key asset hmem
  exact ⟨hprogram, i, hsource, hsupplied.mono h⟩

/-- A step that leaves the requests, the queue and the origins alone and brings nothing
into an engine. -/
theorem Consistent.of_frame (h : Consistent s) (hrequests : s'.requests = s.requests)
    (hpending : s'.pending = s.pending) (horigin : s'.origin = s.origin)
    (hlock : Unpoisoned s'.server.heap)
    (hheld : ∀ engine x, x ∈ (s'.server.heap.engines engine).held →
      x ∈ (s.server.heap.engines engine).held) : Consistent s' := by
  have hext := Extends.of_eq hrequests
  refine ⟨?_, ?_, hlock, ?_⟩
  · intro task htask
    exact (h.tasks task (hrequests ▸ htask)).mono hext
  · intro p hp
    exact (h.pending p (hpending ▸ hp)).mono hext
  · intro engine key asset hmem
    obtain ⟨i, hi, hsupplied⟩ := h.held engine key asset (hheld engine _ hmem)
    exact ⟨i, horigin ▸ hi, hsupplied.mono hext⟩

end Invariant

section Preservation

theorem new_engines [HttpCrate] [LruCrate] [TlsCrate] {env : Environment} {config : Config}
    {server : ServerState}
    (h : ServerState.new env config = .returned (.ok server)) (engine : ℕ) :
    ∃ capacity fileSize ttl, server.heap.engines engine = .new capacity fileSize ttl := by
  obtain ⟨acceptor, -, rfl⟩ := new_cases h
  rcases placeEngine_engines (Heap.empty.allocManager (.fromSecurityConfig config.security)).2
    config.cache engine with heq | ⟨-, hnew⟩
  · exact ⟨0, 0, 0, heq⟩
  · exact hnew

theorem hitSource_none [HttpCrate] {origin : ℕ → Str → Option ℕ} {x : (e : Effect) × e.Reply}
    (h : isHit x = false) : hitSource origin x = none := by
  obtain ⟨e, reply⟩ := x
  cases e with
  | cacheGet engine key =>
    cases reply with
    | none => rfl
    | some asset => cases h
  | _ => rfl

variable [HttpCrate] [TlsCrate] [LruCrate] [CaseMapping] {s : System}

theorem Tracked.noHit {task : RequestTask} (h : Tracked s task) {e : Effect}
    {k : e.Reply → Program (Except BoxError Response)} (hprogram : task.program = some (.op e k)) :
    Reaches (handleRequest task.exchange) task.trace (.op e k) ∧ NoHit task.trace := by
  obtain ⟨p, hreach, hsame⟩ := h.reached
  rw [← hsame _ hprogram] at hreach
  exact ⟨hreach, (allowed_of_reaches (handleRequest_wp task.exchange) hreach).1⟩

theorem answered_tracked {task : RequestTask} {e : Effect}
    {k : e.Reply → Program (Except BoxError Response)} {reply : e.Reply} {i : ℕ} {answer : Answer}
    (h : Consistent s) (htask : s.requests[i]? = some task)
    (hprogram : task.program = some (.op e k))
    (hreply : (perform s.server.heap s.now answer e).1 = .returned reply) :
    Tracked s (task.answered s.origin e k reply) := by
  have htracked := h.tasks task (List.mem_of_getElem? htask)
  obtain ⟨hreach, hnohit⟩ := htracked.noHit hprogram
  have hnone := htracked.missed hnohit
  refine ⟨⟨k reply, hreach.reply reply, ?_⟩, ?_, ?_⟩
  · intro q hq
    exact (Option.some.inj hq).symm
  · intro engine key asset hmem
    rcases List.mem_append.mp hmem with hmem | hmem
    · exact absurd (hnohit _ hmem) (by simp [isHit])
    · cases List.mem_singleton.mp hmem
      have hget : ((s.server.heap.engines engine).get s.now key).1 = some asset := by
        exact Outcome.returned.inj hreply
      obtain ⟨i, horigin, hsupplied⟩ := h.held engine key asset
        ((get_eq_some_iff (h.unpoisoned engine)).mp hget).1
      refine ⟨rfl, i, ?_, hsupplied⟩
      simp [RequestTask.answered, hitSource, horigin]
  · intro hmiss
    have hlast : isHit ⟨e, reply⟩ = false := hmiss _ (List.mem_append_right _ (.head _))
    change (hitSource s.origin ⟨e, reply⟩).or task.source = none
    rw [hitSource_none hlast, hnone]
    rfl

theorem Consistent.of_set {s' : System} {i : ℕ} (h : Consistent s) (task task' : RequestTask)
    (htask : s.requests[i]? = some task) (hset : s'.requests = s.requests.set i task')
    (hexchange : task'.exchange = task.exchange) (hconnection : task'.connection = task.connection)
    (htrace : ∀ x ∈ task.trace, x ∈ task'.trace) (htracked : Tracked s task')
    (hpending : ∀ p ∈ s'.pending, p ∈ s.pending ∨ Spawned s' p.request p.insertion)
    (horigin : s'.origin = s.origin) (hlock : Unpoisoned s'.server.heap)
    (hheld : ∀ engine x, x ∈ (s'.server.heap.engines engine).held →
      x ∈ (s.server.heap.engines engine).held) : Consistent s' := by
  have hext := Extends.of_set htask hset hexchange hconnection htrace
  refine ⟨?_, ?_, hlock, ?_⟩
  · intro other hother
    rw [hset] at hother
    rcases List.mem_or_eq_of_mem_set hother with hmem | rfl
    · exact (h.tasks other hmem).mono hext
    · exact htracked.mono hext
  · intro p hp
    rcases hpending p hp with hmem | hspawned
    · exact (h.pending p hmem).mono hext
    · exact hspawned
  · intro engine key asset hmem
    obtain ⟨j, hj, hsupplied⟩ := h.held engine key asset (hheld engine _ hmem)
    exact ⟨j, horigin ▸ hj, hsupplied.mono hext⟩

theorem serve_consistent (h : Consistent s) (i : ℕ) (answer : Answer) :
    Consistent (s.serve i answer) := by
  have hlock : ∀ e, Unpoisoned (perform s.server.heap s.now answer e).2 := fun e =>
    perform_unpoisoned h.unpoisoned e
  have hheld : ∀ e engine x, x ∈ ((perform s.server.heap s.now answer e).2.engines engine).held →
      x ∈ (s.server.heap.engines engine).held := fun e engine x hx =>
    perform_held h.unpoisoned e hx
  rcases serve_cases s i answer with ⟨heq, -⟩ | ⟨task, e, k, htask, hprogram, hcase⟩
  · rw [heq]
    exact h
  · have hlt : i < s.requests.length := (List.getElem?_eq_some_iff.mp htask).1
    rcases hcase with ⟨reply, hreply, heq⟩ | ⟨-, heq⟩
    · rw [heq]
      refine h.of_set task (task.answered s.origin e k reply) htask rfl rfl rfl ?_ ?_ ?_ rfl
        (hlock e) (hheld e)
      · exact fun x hx => List.mem_append_left _ hx
      · exact answered_tracked h htask hprogram hreply
      · intro p hp
        refine (List.mem_append.mp hp).imp_right fun hp => ?_
        cases e with
        | spawnInsert insertion =>
          rw [List.mem_singleton.mp hp]
          exact ⟨_, List.getElem?_set_self hlt, List.mem_append_right _ (.head _)⟩
        | _ => cases hp
    · rw [heq]
      refine h.of_set task { task with program := none } htask rfl rfl rfl ?_ ?_ ?_ rfl (hlock e)
        (hheld e)
      · exact fun x hx => hx
      · have htracked := h.tasks task (List.mem_of_getElem? htask)
        obtain ⟨hreach, hnohit⟩ := htracked.noHit hprogram
        refine ⟨⟨_, hreach, fun q hq => nomatch hq⟩, ?_, htracked.missed⟩
        intro engine key asset hmem
        exact absurd (hnohit _ hmem) (by simp [isHit])
      · exact fun p hp => .inl hp

theorem request_extends (s : System) (i : ℕ) (request : Request) :
    Extends s (s.request i request) := by
  rcases request_cases s i request with heq | ⟨connection, served, -, -, heq⟩
  · exact .of_eq (by rw [heq])
  · rw [heq]
    intro j task htask
    have hlt : j < s.requests.length := (List.getElem?_eq_some_iff.mp htask).1
    exact ⟨task, by rw [List.getElem?_append_left hlt, htask], rfl, rfl, fun _ hx => hx⟩

theorem request_consistent (h : Consistent s) (i : ℕ) (request : Request) :
    Consistent (s.request i request) := by
  have hext := request_extends s i request
  rcases request_cases s i request with heq | ⟨connection, served, -, -, heq⟩
  · rw [heq]
    exact h
  · rw [heq] at hext ⊢
    refine ⟨?_, fun p hp => (h.pending p hp).mono hext, h.unpoisoned, ?_⟩
    · intro task htask
      rcases List.mem_append.mp htask with hmem | hmem
      · exact (h.tasks task hmem).mono hext
      · rw [List.mem_singleton.mp hmem]
        refine ⟨⟨_, .start, fun q hq => (Option.some.inj hq).symm⟩, ?_, fun _ => rfl⟩
        intro engine key asset hmem
        cases hmem
    · intro engine key asset hmem
      obtain ⟨j, hj, hsupplied⟩ := h.held engine key asset hmem
      exact ⟨j, hj, hsupplied.mono hext⟩

/-- After an insertion, each entry still comes from the request on record for its key. -/
theorem insert_supplied (h : Consistent s) {request : ℕ} {insertion : CacheInsertion}
    (hspawned : Spawned s request insertion) {result : InsertResult × LruCacheEngine}
    (hresult : (s.server.heap.engines insertion.engine).insert s.now insertion.key
      insertion.status insertion.headers insertion.body none = result) {engine : ℕ} {key : Str}
    {asset : CachedAsset}
    (hmem : (key, asset) ∈
      ((s.server.heap.setEngine insertion.engine result.2).engines engine).held) :
    ∃ i, (if result.1.inserted then recordOrigin s.origin insertion request else s.origin)
      engine key = some i ∧ SuppliedBy s i engine key asset := by
  -- an entry that the insertion does not touch keeps its record
  have hkept : (key, asset) ∈ (s.server.heap.engines engine).held →
      (result.1.inserted = true → ¬(engine = insertion.engine ∧ key = insertion.key)) →
      ∃ i, (if result.1.inserted then recordOrigin s.origin insertion request else s.origin)
        engine key = some i ∧ SuppliedBy s i engine key asset := by
    intro hold hother
    obtain ⟨j, horigin, hsupplied⟩ := h.held engine key asset hold
    refine ⟨j, ?_, hsupplied⟩
    split
    · next hinserted => rw [recordOrigin, if_neg (hother hinserted), horigin]
    · exact horigin
  rcases mem_held_setEngine hmem with ⟨rfl, hnew⟩ | ⟨hengine, hold⟩
  · rw [← hresult] at hnew
    rcases insert_held hnew with ⟨hold, hkey⟩ | ⟨hinserted, hkey, hstatus, hheaders, hbody⟩
    · rw [hresult] at hkey
      exact hkept hold fun hinserted hsame => hkey hinserted hsame.2
    · rw [hresult] at hinserted
      refine ⟨request, ?_, insertion, hspawned, rfl, hkey.symm, hstatus.symm, hheaders.symm,
        hbody.symm⟩
      rw [if_pos hinserted, recordOrigin, if_pos ⟨rfl, hkey⟩]
  · exact hkept hold fun _ hsame => hengine hsame.1

theorem insert_consistent (h : Consistent s) (i : ℕ) : Consistent (s.insert i) := by
  unfold System.insert
  cases hpending : s.pending[i]? with
  | none => exact h
  | some p =>
    obtain ⟨request, insertion⟩ := p
    have hspawned : Spawned s request insertion := h.pending _ (List.mem_of_getElem? hpending)
    dsimp only
    refine ⟨?_, ?_, ?_, ?_⟩
    · intro task htask
      refine Tracked.mono (s := s) ?_ (h.tasks task htask)
      exact .of_eq rfl
    · intro p hp
      refine Spawned.mono (s := s) ?_ (h.pending p (List.mem_of_mem_eraseIdx hp))
      exact .of_eq rfl
    · exact h.unpoisoned.setEngine (insert_unpoisoned (h.unpoisoned insertion.engine))
    · intro engine key asset hmem
      obtain ⟨j, horigin, hsupplied⟩ := insert_supplied h hspawned rfl hmem
      exact ⟨j, horigin, SuppliedBy.mono (s := s) (.of_eq rfl) hsupplied⟩

theorem reload_engines (server : ServerState) (env : Environment) (engine : ℕ) :
    (server.reload env).heap.engines engine = server.heap.engines engine ∨
      server.heap.engineCount ≤ engine ∧ ∃ capacity fileSize ttl,
        (server.reload env).heap.engines engine = .new capacity fileSize ttl := by
  rcases reload_cases server env with ⟨-, config, acceptor, -, -, -, heq⟩ | ⟨-, -, heq⟩ | ⟨heq, -⟩
  · rw [heq]
    exact placeEngine_engines server.heap config.cache engine
  · rw [heq]
    exact .inl rfl
  · rw [heq]
    exact .inl rfl

theorem reload_consistent (h : Consistent s) (env : Environment) :
    Consistent { s with server := s.server.reload env } := by
  refine h.of_frame rfl rfl rfl ?_ ?_
  · intro engine
    rcases reload_engines s.server env engine with heq | ⟨-, _, _, _, heq⟩
    · rw [heq]
      exact h.unpoisoned engine
    · rw [heq]
      rfl
  · intro engine x hx
    rcases reload_engines s.server env engine with heq | ⟨-, _, _, _, heq⟩
    · rwa [heq] at hx
    · rw [heq, new_held] at hx
      cases hx

theorem step_consistent (s : System) (a : Action) (h : Consistent s) : Consistent (s.step a) := by
  cases a with
  | accept stream peerAddr => exact h.of_frame rfl rfl rfl h.unpoisoned fun _ _ hx => hx
  | connect i answer =>
    change Consistent (s.connect i answer)
    rcases connect_cases s i answer with heq | ⟨connection, task, e, -, heq⟩
    · rw [heq]
      exact h
    · rw [heq]
      refine h.of_frame rfl rfl rfl ?_ ?_
      · exact perform_unpoisoned h.unpoisoned e
      · exact fun _ _ hx => perform_held h.unpoisoned e hx
  | request i request => exact request_consistent h i request
  | serve i answer => exact serve_consistent h i answer
  | insert i => exact insert_consistent h i
  | tick duration => exact h.of_frame rfl rfl rfl h.unpoisoned fun _ _ hx => hx
  | reload env => exact reload_consistent h env

theorem start_consistent {env : Environment} {config : Config} {server : ServerState}
    (h : ServerState.new env config = .returned (.ok server)) :
    Consistent (System.start server) := by
  refine ⟨(fun task htask => nomatch htask), (fun p hp => nomatch hp), ?_, ?_⟩
  · intro engine
    obtain ⟨_, _, _, heq⟩ := new_engines h engine
    change (server.heap.engines engine).inner.poisoned = false
    rw [heq]
    rfl
  · intro engine key asset hmem
    obtain ⟨_, _, _, heq⟩ := new_engines h engine
    change (key, asset) ∈ (server.heap.engines engine).held at hmem
    rw [heq, new_held] at hmem
    cases hmem

theorem after_consistent {env : Environment} {config : Config} {server : ServerState}
    (h : ServerState.new env config = .returned (.ok server)) (actions : List Action) :
    Consistent ((System.start server).after actions) :=
  foldl_invariant _ step_consistent (start_consistent h) actions

/-- A request of a run has arrived in it. -/
theorem after_arrived (server : ServerState) (actions : List Action) {task : RequestTask}
    (htask : task ∈ ((System.start server).after actions).requests) :
    ∃ i, Action.request i task.exchange.request ∈ actions := by
  induction actions using List.reverseRecOn generalizing task with
  | nil => cases htask
  | append_singleton before a ih =>
    unfold System.after at htask
    rw [List.foldl_concat] at htask
    rcases step_tasks _ a htask with
      ⟨earlier, hearlier, hexchange, -⟩ | ⟨i, request, connection, rfl, -, -, -, hrequest⟩
    · obtain ⟨i, hi⟩ := ih hearlier
      exact ⟨i, List.mem_append_left _ (hexchange ▸ hi)⟩
    · exact ⟨i, List.mem_append_right _ (hrequest ▸ .head _)⟩

end Preservation

end BarebonesProxy.Running
