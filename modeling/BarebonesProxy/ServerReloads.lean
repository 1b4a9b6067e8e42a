import BarebonesProxy.Server
import BarebonesProxy.Runs

set_option autoImplicit false

/-!
# Sequences of reload attempts

A rejected attempt changes nothing and an applicable one goes live. An attempt that panics
changes nothing either, but ends the thread, and with it every later reload.
-/
namespace BarebonesProxy.Server
open RustStrings RustState ProxyConfig Http LruMap RuntimeConfig Runs

section Sequences
variable [HttpCrate] [LruCrate] [TlsCrate]

def InStep (s : ServerState) : Prop := s.reloadGeneration = s.config.generation

theorem new_initial {env : Environment} {config : Config} {s : ServerState}
    (h : ServerState.new env config = .returned (.ok s)) :
    s.reloadAlive = true ∧ InStep s := by
  obtain ⟨acceptor, -, rfl⟩ := new_cases h
  exact ⟨rfl, rfl⟩

variable [CaseMapping]

/-- `config` has gone live in `s'`, under the next generation number. -/
def Publishes (env : Environment) (config : Config) (s s' : ServerState) : Prop :=
  ∃ acceptor, buildTlsAcceptor env.loadCertifiedKey config.routes = .ok acceptor ∧
    s'.config = snapshot config (s.config.generation + 1) acceptor s.config.securityManager
      (s.heap.placeEngine (cacheEngineFor config.cache)).1 ∧
    s'.heap = (s.heap.placeEngine (cacheEngineFor config.cache)).2 ∧
    s'.logFile = config.logfile

/-- What one attempt is meant to do. -/
def Handled (s : ServerState) (env : Environment) : Prop :=
  (∀ config, Loads s.listenPort s.workers env config → Opens env config →
    Publishes env config s (s.reload env)) ∧
  (¬ Applicable s.listenPort s.workers env →
    (s.reload env).config = s.config ∧ (s.reload env).logFile = s.logFile)

def ServerState.afterReloads (s : ServerState) (attempts : List Environment) : ServerState :=
  attempts.foldl ServerState.reload s

theorem reload_inStep (s : ServerState) (env : Environment) (h : InStep s) :
    InStep (s.reload env) := by
  rcases reload_cases s env with ⟨-, config, acceptor, -, -, -, heq⟩ | ⟨-, -, heq⟩ | ⟨heq, -⟩
  · rw [heq]
    rfl
  · rw [heq]
    exact h
  · rw [heq]
    exact h

theorem reload_shape (s : ServerState) (env : Environment) :
    (s.reload env).listenPort = s.listenPort ∧ (s.reload env).workers = s.workers := by
  rcases reload_cases s env with ⟨-, config, acceptor, -, -, -, heq⟩ | ⟨-, -, heq⟩ | ⟨heq, -⟩ <;>
    rw [heq] <;> exact ⟨rfl, rfl⟩

theorem afterReloads_shape (s : ServerState) (attempts : List Environment) :
    (s.afterReloads attempts).listenPort = s.listenPort ∧
      (s.afterReloads attempts).workers = s.workers :=
  foldl_invariant (fun t : ServerState => t.listenPort = s.listenPort ∧ t.workers = s.workers)
    (fun t env ht => by
      obtain ⟨hport, hworkers⟩ := reload_shape t env
      rw [hport, hworkers]
      exact ht)
    ⟨rfl, rfl⟩ attempts

theorem reload_alive_iff (s : ServerState) (env : Environment) :
    (s.reload env).reloadAlive = true ↔
      s.reloadAlive = true ∧ ¬ Panics s.listenPort s.workers env := by
  rcases reload_cases s env with ⟨halive, config, acceptor, hload, hopen, -, heq⟩ |
    ⟨halive, hpanics, heq⟩ | ⟨heq, hno⟩
  · rw [heq]
    have hnot : ¬ Panics s.listenPort s.workers env := by
      intro ⟨config', hload', hopen'⟩
      rw [hload.unique hload'] at hopen'
      exact hopen' hopen
    simp [ServerState.applied, halive, hnot]
  · rw [heq]
    simp [hpanics]
  · rw [heq]
    constructor
    · intro halive
      refine ⟨halive, ?_⟩
      intro ⟨config, hload, _⟩
      exact hno halive ⟨config, hload⟩
    · intro h
      exact h.1

theorem afterReloads_alive_iff {s : ServerState} (halive : s.reloadAlive = true)
    (attempts : List Environment) :
    (s.afterReloads attempts).reloadAlive = true ↔
      ∀ env ∈ attempts, ¬ Panics s.listenPort s.workers env := by
  induction attempts using List.reverseRecOn with
  | nil => simpa [ServerState.afterReloads] using halive
  | append_singleton before env ih =>
    obtain ⟨hport, hworkers⟩ := afterReloads_shape s before
    have hpush : s.afterReloads (before ++ [env]) = (s.afterReloads before).reload env := by
      simp [ServerState.afterReloads]
    rw [hpush, reload_alive_iff, ih, hport, hworkers]
    simp only [List.mem_append, List.mem_singleton]
    constructor
    · intro h env' henv
      rcases henv with henv | rfl
      · exact h.1 env' henv
      · exact h.2
    · intro h
      exact ⟨fun env' henv => h env' (.inl henv), h env (.inr rfl)⟩

theorem handled_iff {s : ServerState} (hstep : InStep s) (env : Environment) :
    Handled s env ↔ (Applicable s.listenPort s.workers env → s.reloadAlive = true) := by
  constructor
  · intro h happ
    obtain ⟨config, hload, hopen⟩ := happ
    obtain ⟨acceptor, -, hconfig, -⟩ := h.1 config hload hopen
    by_contra halive
    rw [reload_dead (by simpa using halive)] at hconfig
    have hgen := congrArg ActiveConfig.generation hconfig
    change s.config.generation = s.config.generation + 1 at hgen
    have hnat := congrArg UInt64.toNat hgen
    have hlt := s.config.generation.toNat_lt
    rw [UInt64.toNat_add, UInt64.toNat_one] at hnat
    omega
  · intro h
    constructor
    · intro config hload hopen
      obtain ⟨acceptor, htls⟩ := hload.2.2.2
      have halive := h ⟨config, hload, hopen⟩
      rw [reload_applies halive hload hopen htls]
      unfold InStep at hstep
      refine ⟨acceptor, htls, ?_, rfl, rfl⟩
      simp only [ServerState.applied, hstep]
    · intro hnot
      rcases reload_cases s env with ⟨-, config, acceptor, hload, hopen, -, -⟩ | ⟨-, -, heq⟩ |
        ⟨heq, -⟩
      · exact absurd ⟨config, hload, hopen⟩ hnot
      · rw [heq]
        exact ⟨rfl, rfl⟩
      · rw [heq]
        exact ⟨rfl, rfl⟩

theorem reloads_handled_iff {env₀ : Environment} {config₀ : Config} {s : ServerState}
    (hstart : ServerState.new env₀ config₀ = .returned (.ok s)) (attempts : List Environment) :
    (∀ before env, before ++ [env] <+: attempts → Handled (s.afterReloads before) env) ↔
      ∀ before env, before ++ [env] <+: attempts → Applicable s.listenPort s.workers env →
        ∀ earlier ∈ before, ¬ Panics s.listenPort s.workers earlier := by
  obtain ⟨halive, hstep⟩ := new_initial hstart
  have hone : ∀ before env, Handled (s.afterReloads before) env ↔
      (Applicable s.listenPort s.workers env →
        ∀ earlier ∈ before, ¬ Panics s.listenPort s.workers earlier) := by
    intro before env
    obtain ⟨hport, hworkers⟩ := afterReloads_shape s before
    have hinv : InStep (s.afterReloads before) := foldl_invariant InStep reload_inStep hstep before
    rw [handled_iff hinv, hport, hworkers, afterReloads_alive_iff halive]
  constructor
  · intro h before env hp
    exact (hone before env).mp (h before env hp)
  · intro h before env hp
    exact (hone before env).mpr (h before env hp)

end Sequences

section Example
open ListCrates

def plainText : String :=
  "listen 8080;\nroute http://a/ \x7b\nupstream http://b;\n\x7d\n"

def loggedText : String :=
  "listen 8080;\nlogfile /x/y;\nroute http://a/ \x7b\nupstream http://b;\n\x7d\n"

def plainConfig : Config where
  listenPort := 8080
  routes := [⟨"http://a/".toList, "http://b".toList, false, none, none, none, none⟩]
  workers := 2
  logfile := none
  security := none
  cache := none
  interceptErrors := none

def loggedConfig : Config := { plainConfig with logfile := some "/x/y".toList }

def sampleEnv (text : String) (logOpens : Bool) : Environment where
  readToString := some text.toList
  availableParallelism := some 2
  loadCertifiedKey certPath keyPath := .ok (certPath, keyPath)
  nativeRoots := true
  openLog _ := logOpens

theorem loads_plain (logOpens : Bool) : Loads 8080 2 (sampleEnv plainText logOpens) plainConfig := by
  have hparse : ConfigParser.parseProxyConfig (some 2) plainText.toList = .ok plainConfig := by
    decide +kernel
  refine ⟨?_, rfl, rfl, none, rfl⟩
  simp only [loadConfigFromPath, sampleEnv, hparse]

theorem loads_logged (logOpens : Bool) :
    Loads 8080 2 (sampleEnv loggedText logOpens) loggedConfig := by
  have hparse : ConfigParser.parseProxyConfig (some 2) loggedText.toList = .ok loggedConfig := by
    decide +kernel
  refine ⟨?_, rfl, rfl, none, rfl⟩
  simp only [loadConfigFromPath, sampleEnv, hparse]

theorem opens_plain (text : String) (logOpens : Bool) :
    Opens (sampleEnv text logOpens) plainConfig :=
  ⟨fun _ => rfl, fun _ h => nomatch h⟩

def plainServer : ServerState where
  listenPort := 8080
  workers := 2
  heap := (Heap.empty.allocManager (.fromSecurityConfig none)).2
  config := snapshot plainConfig 0 none 0 none
  logFile := none
  reloadGeneration := 0
  reloadAlive := true

theorem new_plain :
    ServerState.new (sampleEnv plainText true) plainConfig = .returned (.ok plainServer) := rfl

theorem plain_reload_handled :
    ServerState.new (sampleEnv plainText true) plainConfig = .returned (.ok plainServer) ∧
      Handled (plainServer.afterReloads []) (sampleEnv plainText true) := by
  refine ⟨new_plain, ?_⟩
  refine (reloads_handled_iff new_plain [sampleEnv plainText true]).mpr ?_ [] _ (List.prefix_refl _)
  intro before env hp _ earlier hmem
  have hlen : (before ++ [env]).length ≤ 1 := hp.length_le
  rw [List.length_append, List.length_singleton] at hlen
  obtain rfl : before = [] := List.length_eq_zero_iff.mp (by omega)
  cases hmem

/-- A log file that cannot be opened ends the reload thread; the next attempt is applicable
and is not applied. -/
theorem unopened_log_ends_reloads :
    ServerState.new (sampleEnv plainText true) plainConfig = .returned (.ok plainServer) ∧
      ¬ ∀ before env,
        before ++ [env] <+: [sampleEnv loggedText false, sampleEnv plainText true] →
          Handled (plainServer.afterReloads before) env := by
  refine ⟨new_plain, ?_⟩
  intro h
  have hhandled := h [sampleEnv loggedText false] (sampleEnv plainText true) (List.prefix_refl _)
  have hclosed : ¬ Opens (sampleEnv loggedText false) loggedConfig := by
    intro hopen
    exact absurd (hopen.2 _ rfl) (by decide)
  have hdead : (plainServer.afterReloads [sampleEnv loggedText false]).reloadAlive = false :=
    congrArg ServerState.reloadAlive (reload_panics (s := plainServer) rfl (loads_logged false) hclosed)
  have hstep : InStep (plainServer.afterReloads [sampleEnv loggedText false]) :=
    foldl_invariant InStep reload_inStep (new_initial new_plain).2 [sampleEnv loggedText false]
  obtain ⟨hport, hworkers⟩ := afterReloads_shape plainServer [sampleEnv loggedText false]
  rw [handled_iff hstep, hport, hworkers, hdead] at hhandled
  exact absurd (hhandled ⟨plainConfig, loads_plain true, opens_plain _ _⟩) (by decide)

end Example

end BarebonesProxy.Server
