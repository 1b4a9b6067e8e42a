import BarebonesProxy.ConnectionStages
import BarebonesProxy.RequestStages
import BarebonesProxy.RunningTasks
import BarebonesProxy.ServerSecurity

set_option autoImplicit false

/-!
# The security manager in the running proxy

All connections and requests of a run, whatever configuration they hold, go through one
manager. Its state is the one that the calls made so far lead to, so the exact answers of
the manager become facts about what clients are served.
-/
namespace BarebonesProxy.Running
open RustNet RustStrings RustState ProxyConfig Http Cache LruMap RuntimeConfig Server
open Security SecurityHistory EffectPrograms Proxy ProxyProtocol Worker Runs

section Calls
variable [HttpCrate]

/-- The call on a security manager that an operation stands for. -/
def securityCall (now : ℕ) : Effect → Option (ℕ × Call)
  | .isBlacklisted manager ip => some (manager, ⟨now, .isBlacklisted ip⟩)
  | .checkAndRecordRequest manager ip => some (manager, ⟨now, .checkAndRecordRequest ip⟩)
  | .recordTlsFailure manager ip => some (manager, ⟨now, .recordTlsFailure ip⟩)
  | _ => none

theorem securityCall_time {now : ℕ} {e : Effect} {m : ℕ} {c : Call}
    (h : securityCall now e = some (m, c)) : c.time = now := by
  cases e with
  | isBlacklisted manager ip => cases h; rfl
  | checkAndRecordRequest manager ip => cases h; rfl
  | recordTlsFailure manager ip => cases h; rfl
  | _ => cases h

def nextOperation {α : Type} : Option (Program α) → Option Effect
  | some (.op e _) => some e
  | _ => none

variable [LruCrate] {heap : Heap} {now : ℕ} {answer : Answer} {e : Effect}

theorem perform_managers_none (h : securityCall now e = none) :
    (perform heap now answer e).2.managers = heap.managers ∧
      (perform heap now answer e).1 ≠ .panicked := by
  cases e with
  | isBlacklisted manager ip => cases h
  | checkAndRecordRequest manager ip => cases h
  | recordTlsFailure manager ip => cases h
  | _ => exact ⟨rfl, nofun⟩

/-- An operation on the manager is the call it stands for. -/
theorem perform_managers_some {manager : ℕ} {c : Call}
    (h : securityCall now e = some (manager, c)) :
    (perform heap now answer e).2.managers manager = (call (heap.managers manager) c).2 ∧
      ((perform heap now answer e).1 = .panicked ↔
        (call (heap.managers manager) c).1 = .panicked) := by
  have htagged : ∀ {α : Type} (f : α → Reply) (r : Outcome α × SecurityManager),
      (tagged f r).2 = r.2 ∧ (r.1 = .panicked ↔ (tagged f r).1 = .panicked) := by
    intro α f r
    obtain ⟨outcome, m⟩ := r
    cases outcome with
    | returned a => exact ⟨rfl, nofun, nofun⟩
    | panicked => exact ⟨rfl, fun _ => rfl, fun _ => rfl⟩
  cases e with
  | isBlacklisted manager ip | checkAndRecordRequest manager ip | recordTlsFailure manager ip =>
    cases h
    exact ⟨(Function.update_self ..).trans (htagged _ _).1.symm, (htagged _ _).2⟩
  | _ => cases h

variable [TlsCrate]

/-- The operation that a step performs. -/
def System.asked (s : System) : Action → Option Effect
  | .connect i _ => nextOperation (s.connections[i]?.bind Connection.task)
  | .serve i _ => nextOperation (s.requests[i]?.bind RequestTask.program)
  | _ => none

def System.callOf (s : System) (a : Action) : Option Call :=
  ((s.asked a).bind (securityCall s.now)).map Prod.snd

theorem callOf_time {s : System} {a : Action} {c : Call} (hc : s.callOf a = some c) :
    c.time = s.now := by
  unfold System.callOf at hc
  obtain ⟨⟨m, c'⟩, hbind, rfl⟩ := Option.map_eq_some_iff.mp hc
  obtain ⟨e, -, hcall⟩ := Option.bind_eq_some_iff.mp hbind
  exact securityCall_time hcall

variable [CaseMapping]

/-- The calls on the security manager in a run. -/
def System.calls (s : System) (actions : List Action) : List Call :=
  (visited System.step s actions).filterMap fun v => v.1.callOf v.2

theorem calls_concat (s : System) (actions : List Action) (a : Action) :
    s.calls (actions ++ [a]) = s.calls actions ++ ((s.after actions).callOf a).toList := by
  unfold System.calls
  rw [visited_concat, List.filterMap_append]
  congr 1

end Calls

section Steps
variable [HttpCrate] [LruCrate] [TlsCrate]

/-- A connection goes on with the reply, or is lost in a panic. -/
def resume {α : Type} (config : ActiveConfig) (k : α → Program (Option Served)) :
    Outcome α → Option (Program (Option Served))
  | .returned a => startServing config (k a)
  | .panicked => none

omit [LruCrate] in
theorem startServing_cases (config : ActiveConfig) (p : Program (Option Served)) :
    startServing config p = some p ∨
      startServing config p = none ∧ maxHeaderSize config < 8192 := by
  unfold startServing
  split
  · rcases lt_or_ge (maxHeaderSize config) 8192 with hsmall | hlarge
    · rw [serveConnection_small hsmall]
      exact .inr ⟨rfl, hsmall⟩
    · obtain ⟨builder, hserve, -⟩ := serveConnection_large hlarge
      rw [hserve]
      exact .inl rfl
  · exact .inl rfl

omit [LruCrate] in
/-- A connection is lost if its operation panics, or if it is to be served and the published
size is too small for the builder. -/
theorem resume_cases {α : Type} (config : ActiveConfig) (k : α → Program (Option Served))
    (outcome : Outcome α) :
    (∃ reply, outcome = .returned reply ∧ resume config k outcome = some (k reply)) ∨
      resume config k outcome = none ∧ (outcome = .panicked ∨ maxHeaderSize config < 8192) := by
  cases outcome with
  | panicked => exact .inr ⟨rfl, .inl rfl⟩
  | returned reply =>
    rcases startServing_cases config (k reply) with hkept | ⟨hlost, hsmall⟩
    · exact .inl ⟨reply, rfl, hkept⟩
    · exact .inr ⟨hlost, .inr hsmall⟩

/-- Everything a step of a connection can do. -/
theorem connect_steps (s : System) (i : ℕ) (answer : Answer) :
    (s.connect i answer = s ∧ s.asked (.connect i answer) = none) ∨
    ∃ connection e k, s.connections[i]? = some connection ∧ connection.task = some (.op e k) ∧
      s.asked (.connect i answer) = some e ∧
      s.connect i answer = { s.withHeap (perform s.server.heap s.now answer e).2 with
        connections := s.connections.set i { connection with
          task := resume s.server.config k (perform s.server.heap s.now answer e).1 } } := by
  unfold System.connect
  change (_ ∧ nextOperation (s.connections[i]?.bind Connection.task) = none) ∨ ∃ _ _ _, _ ∧ _ ∧
    nextOperation (s.connections[i]?.bind Connection.task) = _ ∧ _
  cases hconnection : s.connections[i]? with
  | none => exact .inl ⟨rfl, rfl⟩
  | some connection =>
    dsimp only
    rw [Option.bind_some]
    cases htask : connection.task with
    | none => exact .inl ⟨rfl, rfl⟩
    | some p =>
      cases p with
      | pure served => exact .inl ⟨rfl, rfl⟩
      | op e k =>
        refine .inr ⟨connection, e, k, rfl, htask, rfl, ?_⟩
        dsimp only
        generalize perform s.server.heap s.now answer e = result
        obtain ⟨outcome, heap⟩ := result
        cases outcome <;> rfl

theorem serve_steps (s : System) (i : ℕ) (answer : Answer) :
    (s.serve i answer = s ∧ s.asked (.serve i answer) = none) ∨
    ∃ task e k, s.requests[i]? = some task ∧ task.program = some (.op e k) ∧
      s.asked (.serve i answer) = some e ∧
      ((∃ reply, (perform s.server.heap s.now answer e).1 = .returned reply ∧
        s.serve i answer = { s.withHeap (perform s.server.heap s.now answer e).2 with
          requests := s.requests.set i (task.answered s.origin e k reply)
          pending := s.pending ++ spawnedBy i e }) ∨
      (perform s.server.heap s.now answer e).1 = .panicked ∧
        s.serve i answer = { s.withHeap (perform s.server.heap s.now answer e).2 with
          requests := s.requests.set i { task with program := none } }) := by
  rcases serve_cases s i answer with ⟨heq, hidle⟩ | ⟨task, e, k, htask, hprogram, hcase⟩
  · refine .inl ⟨heq, ?_⟩
    change nextOperation (s.requests[i]?.bind RequestTask.program) = none
    cases htask : s.requests[i]? with
    | none => rfl
    | some task =>
      rw [Option.bind_some]
      unfold nextOperation
      split
      · next e k hprogram => exact absurd hprogram (hidle task e k htask)
      · rfl
  · refine .inr ⟨task, e, k, htask, hprogram, ?_, hcase⟩
    change nextOperation (s.requests[i]?.bind RequestTask.program) = some e
    rw [htask, Option.bind_some, hprogram]
    rfl

variable [CaseMapping]

/-- What a step does to the security managers. -/
theorem step_managers (s : System) (a : Action) :
    (s.asked a = none ∧ (s.step a).server.heap.managers = s.server.heap.managers) ∨
    ∃ e answer, s.asked a = some e ∧
      (s.step a).server.heap = (perform s.server.heap s.now answer e).2 := by
  cases a with
  | accept stream peerAddr => exact .inl ⟨rfl, rfl⟩
  | connect i answer =>
    rcases connect_steps s i answer with ⟨heq, hnone⟩ | ⟨connection, e, k, -, -, hasked, heq⟩
    · exact .inl ⟨hnone, congrArg (fun s : System => s.server.heap.managers) heq⟩
    · exact .inr ⟨e, answer, hasked, congrArg (fun s : System => s.server.heap) heq⟩
  | request i request =>
    exact .inl ⟨rfl, congrArg (fun server => server.heap.managers) (request_frame s i request).1⟩
  | serve i answer =>
    rcases serve_steps s i answer with ⟨heq, hnone⟩ | ⟨task, e, k, -, -, hasked, hcase⟩
    · exact .inl ⟨hnone, congrArg (fun s : System => s.server.heap.managers) heq⟩
    · refine .inr ⟨e, answer, hasked, ?_⟩
      rcases hcase with ⟨reply, -, heq⟩ | ⟨-, heq⟩
      · exact congrArg (fun s : System => s.server.heap) heq
      · exact congrArg (fun s : System => s.server.heap) heq
  | insert i =>
    refine .inl ⟨rfl, ?_⟩
    change (s.insert i).server.heap.managers = s.server.heap.managers
    unfold System.insert
    cases s.pending[i]? <;> rfl
  | tick duration => exact .inl ⟨rfl, rfl⟩
  | reload env => exact .inl ⟨rfl, (reload_manager s.server env).2⟩

theorem step_now_le (s : System) (a : Action) : s.now ≤ (s.step a).now := by
  cases a with
  | connect i answer =>
    change s.now ≤ (s.connect i answer).now
    rcases connect_steps s i answer with ⟨heq, -⟩ | ⟨connection, e, k, -, -, -, heq⟩
    · rw [heq]
    · exact le_of_eq (congrArg System.now heq).symm
  | request i request =>
    change s.now ≤ (s.request i request).now
    rcases request_cases s i request with heq | ⟨connection, served, -, -, heq⟩
    all_goals
      rw [heq]
  | serve i answer =>
    change s.now ≤ (s.serve i answer).now
    rcases serve_steps s i answer with ⟨heq, -⟩ | ⟨task, e, k, -, -, -, ⟨reply, -, heq⟩ | ⟨-, heq⟩⟩
    · rw [heq]
    · exact le_of_eq (congrArg System.now heq).symm
    · exact le_of_eq (congrArg System.now heq).symm
  | insert i =>
    change s.now ≤ (s.insert i).now
    unfold System.insert
    cases s.pending[i]? <;> exact le_rfl
  | tick duration => exact Nat.le_add_right s.now duration
  | accept stream peerAddr => exact le_rfl
  | reload env => exact le_rfl

end Steps

section Invariant
variable [HttpCrate] [LruCrate] [TlsCrate] [CaseMapping]

def ConnectionReached (connection : Connection) : Prop :=
  ∀ p, connection.task = some p →
    ∃ stream t, Reaches (connectionTask connection.accepted stream connection.peerAddr) t p

def RequestReached (task : RequestTask) : Prop :=
  ∀ p, task.program = some p → Reaches (handleRequest task.exchange) task.trace p

/-- Every task goes through the manager at `manager`, which is where the calls lead from a
fresh one with `settings`. -/
structure Guarded (settings : Settings) (manager : ℕ) (calls : List Call) (s : System) :
    Prop where
  published : s.server.config.securityManager = manager
  connections : ∀ connection ∈ s.connections,
    connection.accepted.securityManager = manager ∧ ConnectionReached connection
  requests : ∀ task ∈ s.requests,
    task.exchange.config.securityManager = manager ∧ RequestReached task
  state : s.server.heap.managers manager = Security.after settings.manager calls
  sorted : Sorted calls
  past : ∀ c ∈ calls, c.time ≤ s.now

variable {settings : Settings} {manager : ℕ} {calls : List Call} {s : System}

/-- The manager that an operation of a task asks is the one of the run. -/
theorem Guarded.asks (h : Guarded settings manager calls s) {a : Action} {e : Effect}
    (ha : s.asked a = some e) {m : ℕ} {c : Call} (hc : securityCall s.now e = some (m, c)) :
    m = manager := by
  cases a with
  | connect i answer =>
    rcases connect_steps s i answer with ⟨-, hnone⟩ | ⟨connection, e', k, hfound, htask, hasked, -⟩
    · rw [hnone] at ha
      cases ha
    · cases hasked.symm.trans ha
      obtain ⟨haccepted, hreached⟩ := h.connections connection (List.mem_of_getElem? hfound)
      obtain ⟨stream, t, hreach⟩ := hreached _ htask
      rcases (allowed_of_reaches (connectionTask_order _ _ _) hreach).manager with
        ⟨ip, rfl⟩ | rfl | ⟨ip, rfl⟩
      · cases hc
        exact haccepted
      · cases hc
      · cases hc
        exact haccepted
  | serve i answer =>
    rcases serve_steps s i answer with ⟨-, hnone⟩ | ⟨task, e', k, hfound, hprogram, hasked, -⟩
    · rw [hnone] at ha
      cases ha
    · cases hasked.symm.trans ha
      obtain ⟨hmanager, hreached⟩ := h.requests task (List.mem_of_getElem? hfound)
      have hpermitted := permitted_of_reaches (hreached _ hprogram)
      cases e with
      | isBlacklisted manager' ip =>
        cases hc
        exact hpermitted.1.trans hmanager
      | checkAndRecordRequest manager' ip =>
        cases hc
        exact hpermitted.1.trans hmanager
      | recordTlsFailure manager' ip => exact hpermitted.elim
      | _ => cases hc
  | accept stream peerAddr => cases ha
  | request i request => cases ha
  | insert i => cases ha
  | tick duration => cases ha
  | reload env => cases ha

theorem Guarded.state_step (h : Guarded settings manager calls s) (a : Action) :
    (s.step a).server.heap.managers manager =
      Security.after settings.manager (calls ++ (s.callOf a).toList) := by
  rcases step_managers s a with ⟨hnone, hkept⟩ | ⟨e, answer, hasked, hheap⟩
  · unfold System.callOf
    rw [hnone, hkept, h.state]
    exact congrArg _ (List.append_nil calls).symm
  · unfold System.callOf
    rw [hasked, hheap, Option.bind_some]
    cases hc : securityCall s.now e with
    | none =>
      rw [(perform_managers_none hc).1, h.state]
      exact congrArg _ (List.append_nil calls).symm
    | some mc =>
      obtain ⟨m, c⟩ := mc
      obtain rfl := h.asks hasked hc
      rw [(perform_managers_some hc).1, h.state]
      exact (after_push settings.manager calls c).symm

theorem Guarded.calls_step (h : Guarded settings manager calls s) (a : Action) :
    Sorted (calls ++ (s.callOf a).toList) ∧
      ∀ c ∈ calls ++ (s.callOf a).toList, c.time ≤ s.now := by
  cases hc : s.callOf a with
  | none =>
    rw [Option.toList_none, List.append_nil]
    exact ⟨h.sorted, h.past⟩
  | some c =>
    have htime := callOf_time hc
    refine ⟨List.pairwise_append.mpr ⟨h.sorted, List.pairwise_singleton _ _, ?_⟩,
      List.forall_mem_append.mpr ⟨h.past, List.forall_mem_singleton.mpr htime.le⟩⟩
    intro c₁ h₁ c₂ h₂
    rw [List.mem_singleton.mp h₂, htime]
    exact h.past c₁ h₁

theorem Guarded.connections_step (h : Guarded settings manager calls s) (a : Action) :
    ∀ connection ∈ (s.step a).connections,
      connection.accepted.securityManager = manager ∧ ConnectionReached connection := by
  cases a with
  | accept stream peerAddr =>
    refine List.forall_mem_append.mpr ⟨h.connections, List.forall_mem_singleton.mpr ?_⟩
    refine ⟨h.published, fun p hp => ⟨stream, [], ?_⟩⟩
    cases hp
    exact .start
  | connect i answer =>
    change ∀ connection ∈ (s.connect i answer).connections, _
    rcases connect_steps s i answer with ⟨heq, -⟩ | ⟨found, e, k, hfound, htask, -, heq⟩
    · rw [heq]
      exact h.connections
    · rw [heq]
      intro connection hmem
      rcases List.mem_or_eq_of_mem_set hmem with hmem | rfl
      · exact h.connections connection hmem
      · obtain ⟨haccepted, hreached⟩ := h.connections found (List.mem_of_getElem? hfound)
        obtain ⟨stream, t, hreach⟩ := hreached _ htask
        refine ⟨haccepted, fun p hp => ?_⟩
        dsimp only at hp
        rcases resume_cases s.server.config k (perform s.server.heap s.now answer e).1 with
          ⟨reply, -, hkept⟩ | ⟨hlost, -⟩
        · cases hkept.symm.trans hp
          exact ⟨stream, _, hreach.reply reply⟩
        · cases hlost.symm.trans hp
  | request i request =>
    change ∀ connection ∈ (s.request i request).connections, _
    rw [(request_frame s i request).2]
    exact h.connections
  | serve i answer =>
    change ∀ connection ∈ (s.serve i answer).connections, _
    rw [(serve_frame s i answer).2]
    exact h.connections
  | insert i =>
    change ∀ connection ∈ (s.insert i).connections, _
    rw [(insert_frame s i).2.1]
    exact h.connections
  | tick duration => exact h.connections
  | reload env => exact h.connections

theorem Guarded.requests_step (h : Guarded settings manager calls s) (a : Action) :
    ∀ task ∈ (s.step a).requests,
      task.exchange.config.securityManager = manager ∧ RequestReached task := by
  cases a with
  | request i request =>
    change ∀ task ∈ (s.request i request).requests, _
    rcases request_cases s i request with heq | ⟨connection, served, -, -, heq⟩
    · rw [heq]
      exact h.requests
    · rw [heq]
      refine List.forall_mem_append.mpr ⟨h.requests, List.forall_mem_singleton.mpr ?_⟩
      refine ⟨h.published, fun p hp => ?_⟩
      cases hp
      exact .start
  | serve i answer =>
    change ∀ task ∈ (s.serve i answer).requests, _
    rcases serve_steps s i answer with ⟨heq, -⟩ | ⟨found, e, k, hfound, hprogram, -, hcase⟩
    · rw [heq]
      exact h.requests
    · obtain ⟨hmanager, hreached⟩ := h.requests found (List.mem_of_getElem? hfound)
      have hreach := hreached _ hprogram
      rcases hcase with ⟨reply, -, heq⟩ | ⟨-, heq⟩
      all_goals
        rw [heq]
        intro task hmem
        rcases List.mem_or_eq_of_mem_set hmem with hmem | rfl
      · exact h.requests task hmem
      · refine ⟨hmanager, fun p hp => ?_⟩
        cases hp
        exact hreach.reply reply
      · exact h.requests task hmem
      · exact ⟨hmanager, fun p hp => nomatch hp⟩
  | connect i answer =>
    change ∀ task ∈ (s.connect i answer).requests, _
    rw [(connect_frame s i answer).2]
    exact h.requests
  | insert i =>
    change ∀ task ∈ (s.insert i).requests, _
    rw [(insert_frame s i).2.2]
    exact h.requests
  | accept stream peerAddr => exact h.requests
  | tick duration => exact h.requests
  | reload env => exact h.requests

theorem Guarded.step (h : Guarded settings manager calls s) (a : Action) :
    Guarded settings manager (calls ++ (s.callOf a).toList) (s.step a) where
  published := by
    by_cases hreload : ∃ env, a = .reload env
    · obtain ⟨env, rfl⟩ := hreload
      exact (reload_manager s.server env).1.trans h.published
    · rw [step_config s a fun env ha => hreload ⟨env, ha⟩]
      exact h.published
  connections := h.connections_step a
  requests := h.requests_step a
  state := h.state_step a
  sorted := (h.calls_step a).1
  past c hc := ((h.calls_step a).2 c hc).trans (step_now_le s a)

theorem start_guarded {env : Environment} {config : Config} {server : ServerState}
    (h : ServerState.new env config = .returned (.ok server)) :
    Guarded (settingsOf config.security) server.config.securityManager [] (.start server) where
  published := rfl
  connections _ h := nomatch h
  requests _ h := nomatch h
  state := new_manager h
  sorted := .nil
  past _ h := nomatch h

theorem after_guarded {env : Environment} {config : Config} {server : ServerState}
    (h : ServerState.new env config = .returned (.ok server)) (actions : List Action) :
    Guarded (settingsOf config.security) server.config.securityManager
      ((System.start server).calls actions) ((System.start server).after actions) := by
  induction actions using List.reverseRecOn with
  | nil => exact start_guarded h
  | append_singleton before a ih =>
    rw [calls_concat]
    unfold System.after
    rw [List.foldl_concat]
    exact ih.step a

end Invariant

end BarebonesProxy.Running
