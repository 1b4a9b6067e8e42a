import BarebonesProxy.RuntimeConfig

set_option autoImplicit false

/-!
# The server and its reload thread: `server.rs` and `update_log_file`

A panic inside the reload thread ends the thread. The process goes on, and no later
signal is handled.
-/
namespace BarebonesProxy.Server
open RustStrings RustState ProxyConfig Routing Security Cache Http LruMap ConfigParser
open RuntimeConfig

section Attempts
variable [TlsCrate]

def updateLogFile (env : Environment) (path : Option Str) : Outcome (Option Str) :=
  match path with
  | some p => if env.openLog p then .returned (some p) else .panicked
  | none => .returned none

theorem updateLogFile_returns {env : Environment} {path : Option Str}
    (h : ∀ p, path = some p → env.openLog p = true) : updateLogFile env path = .returned path := by
  cases path with
  | none => rfl
  | some p => simp [updateLogFile, h p rfl]

theorem updateLogFile_panics {env : Environment} {path : Option Str}
    (h : ¬ ∀ p, path = some p → env.openLog p = true) : updateLogFile env path = .panicked := by
  cases path with
  | none => exact absurd (fun p hp => nomatch hp) h
  | some p =>
    have hopen : env.openLog p = false := by
      by_contra hopen
      exact h fun q hq => by
        cases hq
        simpa using hopen
    simp [updateLogFile, hopen]

theorem updateLogFile_eq {env : Environment} {path logFile : Option Str}
    (h : updateLogFile env path = .returned logFile) : logFile = path := by
  unfold updateLogFile at h
  split at h
  · split at h
    · cases h
      rfl
    · cases h
  · cases h
    rfl

variable [CaseMapping]

/-- The configuration file loads, keeps the startup shape and its certificates load. -/
def Loads (port workers : ℕ) (env : Environment) (config : Config) : Prop :=
  loadConfigFromPath env = .ok config ∧ config.listenPort = port ∧ config.workers = workers ∧
    ∃ acceptor, buildTlsAcceptor env.loadCertifiedKey config.routes = .ok acceptor

def Opens (env : Environment) (config : Config) : Prop :=
  ((config.security.bind (·.forwardAuth)).isSome = true → env.nativeRoots = true) ∧
    ∀ path, config.logfile = some path → env.openLog path = true

def Applicable (port workers : ℕ) (env : Environment) : Prop :=
  ∃ config, Loads port workers env config ∧ Opens env config

def Panics (port workers : ℕ) (env : Environment) : Prop :=
  ∃ config, Loads port workers env config ∧ ¬ Opens env config

theorem Loads.unique {port workers : ℕ} {env : Environment} {config config' : Config}
    (h : Loads port workers env config) (h' : Loads port workers env config') :
    config' = config := by
  have heq := h.1.symm.trans h'.1
  injection heq with heq
  exact heq.symm

end Attempts

section Reloads
variable [HttpCrate] [LruCrate] [TlsCrate]

structure ServerState where
  listenPort : ℕ
  workers : ℕ
  heap : Heap
  config : ActiveConfig
  logFile : Option Str
  reloadGeneration : UInt64
  reloadAlive : Bool

/-- `Server::new`, with the reload thread that `start` spawns. -/
def ServerState.new (env : Environment) (config : Config) :
    Outcome (Except LoadError ServerState) :=
  match buildActiveConfig env config 0 none .empty with
  | .panicked => .panicked
  | .returned (.error e) => .returned (.error e)
  | .returned (.ok (activeConfig, heap)) =>
    match updateLogFile env activeConfig.logfile with
    | .panicked => .panicked
    | .returned logFile => .returned (.ok
        { listenPort := config.listenPort
          workers := config.workers
          heap
          config := activeConfig
          logFile
          reloadGeneration := 0
          reloadAlive := true })

def ServerState.started (config : Config) (acceptor : Option TlsAcceptor) : ServerState :=
  let allocated := Heap.empty.allocManager (.fromSecurityConfig config.security)
  let placed := allocated.2.placeEngine (cacheEngineFor config.cache)
  { listenPort := config.listenPort
    workers := config.workers
    heap := placed.2
    config := snapshot config 0 acceptor allocated.1 placed.1
    logFile := config.logfile
    reloadGeneration := 0
    reloadAlive := true }

theorem new_cases {env : Environment} {config : Config} {s : ServerState}
    (h : ServerState.new env config = .returned (.ok s)) :
    ∃ acceptor, buildTlsAcceptor env.loadCertifiedKey config.routes = .ok acceptor ∧
      s = .started config acceptor := by
  unfold ServerState.new buildActiveConfig at h
  cases htls : buildTlsAcceptor env.loadCertifiedKey config.routes with
  | error e =>
    rw [htls] at h
    cases h
  | ok acceptor =>
    refine ⟨acceptor, rfl, ?_⟩
    simp only [htls] at h
    split at h
    · cases h
    · cases h
    · next hbuild =>
      split at hbuild
      · cases hbuild
      · cases hbuild
        split at h
        · cases h
        · next logFile hlog =>
          cases h
          rw [updateLogFile_eq hlog]
          rfl

variable [CaseMapping]

/-- One round of the loop of `run_reload_thread`. -/
def ServerState.reload (s : ServerState) (env : Environment) : ServerState :=
  if s.reloadAlive then
    match loadActiveConfigFromPath env s.listenPort s.workers (s.reloadGeneration + 1)
        (some s.config.securityManager) s.heap with
    | .panicked => { s with reloadAlive := false }
    | .returned (.error _) => s
    | .returned (.ok (activeConfig, heap)) =>
      match updateLogFile env activeConfig.logfile with
      | .panicked => { s with reloadAlive := false }
      | .returned logFile =>
        { s with
          heap
          config := activeConfig
          logFile
          reloadGeneration := activeConfig.generation }
  else s

def ServerState.applied (s : ServerState) (config : Config) (acceptor : Option TlsAcceptor) :
    ServerState :=
  let placed := s.heap.placeEngine (cacheEngineFor config.cache)
  { s with
    heap := placed.2
    config := snapshot config (s.reloadGeneration + 1) acceptor s.config.securityManager placed.1
    logFile := config.logfile
    reloadGeneration := s.reloadGeneration + 1 }

theorem loadActiveConfig_of_loads {port workers : ℕ} {env : Environment} {config : Config}
    (h : Loads port workers env config) (generation : UInt64) (manager : Option ℕ) (heap : Heap) :
    loadActiveConfigFromPath env port workers generation manager heap =
      buildActiveConfig env config generation manager heap := by
  obtain ⟨hload, hport, hworkers, -⟩ := h
  simp [loadActiveConfigFromPath, hload, hport, hworkers]

theorem loadActiveConfig_of_not_loads {port workers : ℕ} {env : Environment}
    (h : ¬ ∃ config, Loads port workers env config) (generation : UInt64) (manager : Option ℕ)
    (heap : Heap) :
    ∃ e, loadActiveConfigFromPath env port workers generation manager heap =
      .returned (.error e) := by
  unfold loadActiveConfigFromPath
  cases hload : loadConfigFromPath env with
  | error e => exact ⟨e, rfl⟩
  | ok config =>
    dsimp only
    by_cases hport : config.listenPort = port
    · by_cases hworkers : config.workers = workers
      · cases htls : buildTlsAcceptor env.loadCertifiedKey config.routes with
        | error e =>
          refine ⟨.tls e, ?_⟩
          simp [hport, hworkers, buildActiveConfig, htls]
        | ok acceptor =>
          exact absurd ⟨config, hload, hport, hworkers, acceptor, htls⟩ h
      · exact ⟨_, by rw [if_neg (not_not.mpr hport), if_pos hworkers]⟩
    · exact ⟨_, by rw [if_pos hport]⟩

section Step
variable {s : ServerState} {env : Environment} {config : Config}

theorem reload_dead (h : s.reloadAlive = false) : s.reload env = s := by
  simp [ServerState.reload, h]

theorem reload_applies {acceptor : Option TlsAcceptor} (halive : s.reloadAlive = true)
    (hload : Loads s.listenPort s.workers env config) (hopen : Opens env config)
    (htls : buildTlsAcceptor env.loadCertifiedKey config.routes = .ok acceptor) :
    s.reload env = s.applied config acceptor := by
  have hroots : ((config.security.bind (·.forwardAuth)).isSome && !env.nativeRoots) = false := by
    cases hsome : (config.security.bind (·.forwardAuth)).isSome with
    | false => rfl
    | true => simp [hopen.1 hsome]
  have hlog := updateLogFile_returns hopen.2
  unfold ServerState.reload
  rw [if_pos halive, loadActiveConfig_of_loads hload]
  simp only [buildActiveConfig, htls, hroots, Bool.false_eq_true, if_false, snapshot, hlog,
    ServerState.applied]

theorem reload_panics (halive : s.reloadAlive = true)
    (hload : Loads s.listenPort s.workers env config) (hopen : ¬ Opens env config) :
    s.reload env = { s with reloadAlive := false } := by
  obtain ⟨acceptor, htls⟩ := hload.2.2.2
  unfold ServerState.reload
  rw [if_pos halive, loadActiveConfig_of_loads hload]
  by_cases hroots : ((config.security.bind (·.forwardAuth)).isSome && !env.nativeRoots) = true
  · simp only [buildActiveConfig, htls, hroots, if_true]
  · have hlog : updateLogFile env config.logfile = .panicked := by
      apply updateLogFile_panics
      intro hall
      apply hopen
      refine ⟨fun hsome => ?_, hall⟩
      simpa [hsome] using hroots
    simp only [buildActiveConfig, htls, hroots, Bool.false_eq_true, if_false, snapshot, hlog]

theorem reload_rejects (h : ¬ ∃ config, Loads s.listenPort s.workers env config) :
    s.reload env = s := by
  unfold ServerState.reload
  by_cases halive : s.reloadAlive = true
  · obtain ⟨e, he⟩ := loadActiveConfig_of_not_loads h (s.reloadGeneration + 1)
      (some s.config.securityManager) s.heap
    rw [if_pos halive, he]
  · rw [if_neg halive]

/-- Everything one attempt can do. -/
theorem reload_cases (s : ServerState) (env : Environment) :
    (s.reloadAlive = true ∧ ∃ config acceptor, Loads s.listenPort s.workers env config ∧
      Opens env config ∧
      buildTlsAcceptor env.loadCertifiedKey config.routes = .ok acceptor ∧
      s.reload env = s.applied config acceptor) ∨
    (s.reloadAlive = true ∧ Panics s.listenPort s.workers env ∧
      s.reload env = { s with reloadAlive := false }) ∨
    s.reload env = s ∧ (s.reloadAlive = true →
      ¬ ∃ config, Loads s.listenPort s.workers env config) := by
  by_cases halive : s.reloadAlive = true
  · by_cases hloads : ∃ config, Loads s.listenPort s.workers env config
    · obtain ⟨config, hload⟩ := hloads
      by_cases hopen : Opens env config
      · obtain ⟨acceptor, htls⟩ := hload.2.2.2
        exact .inl ⟨halive, config, acceptor, hload, hopen, htls,
          reload_applies halive hload hopen htls⟩
      · exact .inr (.inl ⟨halive, ⟨config, hload, hopen⟩, reload_panics halive hload hopen⟩)
    · exact .inr (.inr ⟨reload_rejects hloads, fun _ => hloads⟩)
  · exact .inr (.inr ⟨reload_dead (by simpa using halive), fun h => absurd h halive⟩)

end Step

end Reloads

end BarebonesProxy.Server
