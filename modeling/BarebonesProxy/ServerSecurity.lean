import BarebonesProxy.SecurityWindows
import BarebonesProxy.ServerReloads

set_option autoImplicit false

/-!
# The security manager across reloads

Every configuration that a server ever publishes holds the same manager. So the bans of
one run are the bans of its calls, whichever snapshot they go through, and the thresholds
are those of the startup configuration for good.
-/
namespace BarebonesProxy.Server
open RustNet RustStrings RustState ProxyConfig Security SecurityHistory Http LruMap RuntimeConfig
open Runs

/-- The thresholds that `from_security_config` takes from a configuration. -/
def settingsOf : Option SecurityConfig → Settings
  | some sec => ⟨fromSecs sec.banDurationSec, sec.maxTlsFailures, sec.rateLimitRpm⟩
  | none => ⟨defaultBanDuration, defaultMaxTlsFailures, defaultRateLimitRpm⟩

theorem fromSecurityConfig_eq (security : Option SecurityConfig) :
    SecurityManager.fromSecurityConfig security = (settingsOf security).manager := by
  cases security <;> rfl

section Horizon

/-- No call of the run panics, and none finds or leaves the lock poisoned. -/
def NeverPanics (m : SecurityManager) (calls : List Call) : Prop :=
  ∀ before c, before ++ [c] <+: calls →
    (∃ reply, resultAfter m before c = .returned reply) ∧
      (after m (before ++ [c])).poisoned = false

theorem representable_mono {t t' : ℕ} (hle : t ≤ t') (h : Representable t') : Representable t :=
  lt_of_le_of_lt (Nat.div_le_div_right hle) h

theorem noOverflow_of_horizon {s : Settings} {horizon : ℕ}
    (hrep : Representable (horizon + s.banDuration)) {calls : List Call}
    (htimes : ∀ c ∈ calls, c.time ≤ horizon) : NoOverflow s calls := by
  rintro before c hrun ⟨-, hover⟩
  have htime := htimes c (hrun.subset (List.mem_append_right _ (.head _)))
  exact hover (representable_mono (by omega) hrep)

/-- Up to a given time no operation panics exactly when a ban imposed then has an end that
an `Instant` can hold. -/
theorem config_never_panics_iff (config : Config) (horizon : ℕ) :
    (∀ calls, Sorted calls → (∀ c ∈ calls, c.time ≤ horizon) →
      NeverPanics (.fromSecurityConfig config.security) calls) ↔
    Representable (horizon + (settingsOf config.security).banDuration) := by
  rw [fromSecurityConfig_eq]
  generalize settingsOf config.security = s
  constructor
  · intro h
    -- a single ban at the horizon
    let ban : Call := ⟨horizon, .addToBlacklist (.v4 ⟨0, 0, 0, 0⟩)⟩
    have hsorted : Sorted ([] ++ [ban]) := List.pairwise_singleton _ _
    obtain ⟨⟨reply, hreply⟩, -⟩ := h ([] ++ [ban]) hsorted (by simp [ban]) [] ban List.prefix_rfl
    by_contra hrep
    have hover : ¬ NoOverflow s ([] ++ [ban]) := fun hno =>
      hno [] ban List.prefix_rfl ⟨⟨.v4 ⟨0, 0, 0, 0⟩, .inl rfl⟩, hrep⟩
    rw [result_panicked s [] ban hsorted hover] at hreply
    cases hreply
  · intro hrep calls hsorted htimes before c hrun
    have hsorted' : Sorted (before ++ [c]) := hsorted.sublist hrun.sublist
    have hno : NoOverflow s (before ++ [c]) :=
      noOverflow_of_horizon hrep fun c' hc' => htimes c' (hrun.subset hc')
    obtain ⟨reply, hreply, -⟩ := result_answers s before c hsorted' hno
    refine ⟨⟨reply, hreply⟩, ?_⟩
    rcases run_state s (before ++ [c]) hsorted' with ⟨-, inner, hm, -⟩ | ⟨hover, -⟩
    · rw [hm]
    · exact absurd hno hover

end Horizon

section Example
open ListCrates

def foreverText : String :=
  "listen 8080;\nsecurity \x7b\nban_duration 18446744073709551615;\n\x7d\nroute http://a/ \x7b\nupstream http://b;\n\x7d\n"

def foreverBlock : SecurityConfig :=
  { ConfigParser.defaultSecurityConfig with banDurationSec := 18446744073709551615 }

set_option maxRecDepth 4000 in
theorem forever_accepted : ConfigParser.parseProxyConfig (some 2) foreverText.toList =
    .ok { plainConfig with security := some foreverBlock } := by
  unfold foreverText
  exact of_chars (fun s => ConfigParser.parseProxyConfig (some 2) s =
    .ok { plainConfig with security := some foreverBlock }) (by decide +kernel)

/-- The sixth failed handshake of a client panics, and every call after it on any client. -/
theorem forever_ban_panics :
    ConfigParser.parseProxyConfig (some 2) foreverText.toList =
        .ok { plainConfig with security := some foreverBlock } ∧
      resultAfter (.fromSecurityConfig (some foreverBlock))
        (List.replicate 5 ⟨0, .recordTlsFailure (.v4 ⟨10, 0, 0, 1⟩)⟩)
        ⟨0, .recordTlsFailure (.v4 ⟨10, 0, 0, 1⟩)⟩ = .panicked ∧
      ∀ c, resultAfter (.fromSecurityConfig (some foreverBlock))
        (List.replicate 6 ⟨0, .recordTlsFailure (.v4 ⟨10, 0, 0, 1⟩)⟩) c = .panicked := by
  have hpoisoned : (after (.fromSecurityConfig (some foreverBlock))
      (List.replicate 6 ⟨0, .recordTlsFailure (.v4 ⟨10, 0, 0, 1⟩)⟩)).poisoned = true := by
    decide +kernel
  refine ⟨forever_accepted, rfl, fun c => ?_⟩
  rw [resultAfter, call_poisoned hpoisoned]

end Example

section Thresholds

def settingsIn (inner : SecurityManagerInner) : Settings :=
  ⟨inner.banDuration, inner.maxTlsFailures, inner.rateLimitRpm⟩

theorem withExpect_settings {α : Type} (m : SecurityManager)
    (body : SecurityManagerInner → Outcome α × SecurityManagerInner)
    (h : ∀ inner, settingsIn (body inner).2 = settingsIn inner) :
    settingsIn (m.withExpect body).2.value = settingsIn m.value := by
  have hbody := h m.value
  unfold Lock.withExpect
  by_cases hp : m.poisoned = true
  · rw [if_pos hp]
  · rw [if_neg hp]
    generalize body m.value = result at hbody
    obtain ⟨outcome, inner⟩ := result
    cases outcome <;> exact hbody

theorem tagged_settings {α : Type} (f : α → Reply) (r : Outcome α × SecurityManager) :
    (tagged f r).2 = r.2 := by
  obtain ⟨outcome, m⟩ := r
  cases outcome <;> rfl

theorem call_settings (m : SecurityManager) (c : Call) :
    settingsIn (call m c).2.value = settingsIn m.value := by
  unfold call
  cases c.op with
  | recordTlsFailure ip =>
    rw [tagged_settings]
    apply withExpect_settings
    intro inner
    dsimp only
    split
    · split <;> rfl
    · rfl
  | checkAndRecordRequest ip =>
    rw [tagged_settings]
    apply withExpect_settings
    intro inner
    dsimp only
    split <;> rfl
  | isBlacklisted ip =>
    rw [tagged_settings]
    apply withExpect_settings
    intro inner
    split
    · rfl
    · split <;> rfl
  | getTlsFailureCount ip =>
    rw [tagged_settings]
    apply withExpect_settings
    intro inner
    dsimp only
    split <;> rfl
  | addToBlacklist ip =>
    rw [tagged_settings]
    apply withExpect_settings
    intro inner
    split <;> rfl

theorem after_settings (settings : Settings) (calls : List Call) :
    settingsIn (after settings.manager calls).value = settings :=
  foldl_invariant (fun m : SecurityManager => settingsIn m.value = settings)
    (fun m c h => (call_settings m c).trans h) rfl calls

end Thresholds

section Sessions
variable [HttpCrate] [LruCrate] [TlsCrate]

/-- A server in use: all snapshots published so far, any of which may be held by a
connection or a request, and the calls made on the managers with their results. -/
structure Session where
  server : ServerState
  snapshots : List ActiveConfig
  log : List (Call × Outcome Reply)

def Session.start (server : ServerState) : Session := ⟨server, [server.config], []⟩

inductive SessionEvent where
  | call (snapshot : ℕ) (c : Call)
  | reload (env : Environment)

theorem new_manager {env : Environment} {config : Config} {s : ServerState}
    (h : ServerState.new env config = .returned (.ok s)) :
    s.heap.managers s.config.securityManager = (settingsOf config.security).manager := by
  obtain ⟨acceptor, -, rfl⟩ := new_cases h
  rw [← fromSecurityConfig_eq]
  unfold ServerState.started Heap.placeEngine
  cases cacheEngineFor config.cache <;> simp [snapshot, Heap.allocManager, Heap.allocEngine]

def Session.calls (s : Session) : List Call := s.log.map Prod.fst

/-- All snapshots share the manager at `manager`, and it is where the logged calls lead
from a fresh manager with `settings`. -/
structure Shares (settings : Settings) (manager : ℕ) (s : Session) : Prop where
  published : s.server.config.securityManager = manager
  snapshots : ∀ config ∈ s.snapshots, config.securityManager = manager
  state : s.server.heap.managers manager = after settings.manager s.calls
  log : s.log = trace settings.manager s.calls

theorem start_shares {env : Environment} {config : Config} {s : ServerState}
    (h : ServerState.new env config = .returned (.ok s)) :
    Shares (settingsOf config.security) s.config.securityManager (.start s) := by
  refine ⟨rfl, ?_, new_manager h, rfl⟩
  intro config' hconfig
  rw [List.mem_singleton.mp hconfig]

variable [CaseMapping]

def Session.step (s : Session) : SessionEvent → Session
  | .call i c =>
    match s.snapshots[i]? with
    | none => s
    | some config =>
      let result := call (s.server.heap.managers config.securityManager) c
      { s with
        server := { s.server with
          heap := s.server.heap.setManager config.securityManager result.2 }
        log := s.log ++ [(c, result.1)] }
  | .reload env =>
    let server := s.server.reload env
    { s with server, snapshots := s.snapshots ++ [server.config] }

def Session.after (s : Session) (events : List SessionEvent) : Session :=
  events.foldl Session.step s

theorem reload_manager (s : ServerState) (env : Environment) :
    (s.reload env).config.securityManager = s.config.securityManager ∧
      (s.reload env).heap.managers = s.heap.managers := by
  rcases reload_cases s env with ⟨-, config, acceptor, -, -, -, heq⟩ | ⟨-, -, heq⟩ | ⟨heq, -⟩
  · rw [heq]
    refine ⟨rfl, ?_⟩
    unfold ServerState.applied Heap.placeEngine
    cases cacheEngineFor config.cache <;> rfl
  · rw [heq]
    exact ⟨rfl, rfl⟩
  · rw [heq]
    exact ⟨rfl, rfl⟩

theorem step_shares (settings : Settings) (manager : ℕ) (s : Session) (e : SessionEvent)
    (h : Shares settings manager s) : Shares settings manager (s.step e) := by
  cases e with
  | reload env =>
    obtain ⟨hmanager, hheap⟩ := reload_manager s.server env
    refine ⟨hmanager.trans h.published, ?_, ?_, h.log⟩
    · intro config hconfig
      rcases List.mem_append.mp hconfig with hconfig | hconfig
      · exact h.snapshots config hconfig
      · rw [List.mem_singleton.mp hconfig]
        exact hmanager.trans h.published
    · change (s.server.reload env).heap.managers manager = _
      rw [hheap]
      exact h.state
  | call i c =>
    cases hsnap : s.snapshots[i]? with
    | none =>
      simp only [Session.step, hsnap]
      exact h
    | some config =>
      have hmanager := h.snapshots config (List.mem_of_getElem? hsnap)
      have hcalls : (s.log ++ [(c, (call (s.server.heap.managers manager) c).1)]).map Prod.fst =
          s.calls ++ [c] := by
        simp [Session.calls]
      simp only [Session.step, hsnap, hmanager]
      refine ⟨h.published, h.snapshots, ?_, ?_⟩
      · change Function.update s.server.heap.managers manager _ manager = after _ (List.map _ _)
        rw [Function.update_self, hcalls, after_push, h.state]
      · change s.log ++ _ = trace _ (List.map _ _)
        rw [hcalls, trace_push, ← h.log, resultAfter, h.state]

theorem after_shares {env : Environment} {config : Config} {s : ServerState}
    (h : ServerState.new env config = .returned (.ok s)) (events : List SessionEvent) :
    Shares (settingsOf config.security) s.config.securityManager ((Session.start s).after events) :=
  foldl_invariant _ (step_shares _ _) (start_shares h) events

/-- Bans are exact over every interleaving of calls and reloads. -/
theorem blacklist_exact_across_reloads {env₀ : Environment} {config₀ : Config}
    {server : ServerState} (hstart : ServerState.new env₀ config₀ = .returned (.ok server))
    (events : List SessionEvent) (config : ActiveConfig)
    (hconfig : config ∈ ((Session.start server).after events).snapshots) (now : ℕ) (ip : IpAddr)
    (hsort : Sorted (((Session.start server).after events).calls ++ [⟨now, .isBlacklisted ip⟩]))
    (hrep : NoOverflow (settingsOf config₀.security) ((Session.start server).after events).calls) :
    ∃ banned,
      (isBlacklisted (((Session.start server).after events).server.heap.managers
        config.securityManager) now ip).1 = .returned banned ∧
      (banned = true ↔ ∃ e ∈ ((Session.start server).after events).log, ImposedBan ip e ∧
        e.1.time ≤ now ∧ now < e.1.time + (settingsOf config₀.security).banDuration) := by
  have hshares := after_shares hstart events
  obtain ⟨banned, hresult, hiff⟩ := blacklisted_iff hsort hrep
  refine ⟨banned, ?_, ?_⟩
  · rw [hshares.snapshots config hconfig, hshares.state]
    unfold resultAfter call tagged at hresult
    dsimp only at hresult
    split at hresult
    · next value m heq =>
      rw [heq]
      simpa using hresult
    · cases hresult
  · rw [hshares.log]
    exact hiff

/-- What the published manager enforces and what it remembers after a reload. -/
def FollowsBlock (sec : SecurityConfig) (s s' : ServerState) : Prop :=
  let before := (s.heap.managers s.config.securityManager).value
  let now := (s'.heap.managers s'.config.securityManager).value
  (now.banDuration = fromSecs sec.banDurationSec ∧ now.maxTlsFailures = sec.maxTlsFailures ∧
    now.rateLimitRpm = sec.rateLimitRpm) ∧
  now.blacklist = before.blacklist ∧ now.tlsFailures = before.tlsFailures ∧
    now.requestTracker = before.requestTracker

theorem followsBlock_iff {settings : Settings} {manager : ℕ} {s : Session}
    (h : Shares settings manager s) (env : Environment) (sec : SecurityConfig) :
    FollowsBlock sec s.server (s.server.reload env) ↔ settingsOf (some sec) = settings := by
  obtain ⟨hmanager, hheap⟩ := reload_manager s.server env
  have hsettings := after_settings settings s.calls
  unfold FollowsBlock
  rw [hmanager, hheap, h.published, h.state]
  generalize after settings.manager s.calls = m at hsettings
  rw [← hsettings]
  simp only [settingsIn, settingsOf, Settings.mk.injEq, and_true]
  constructor
  · intro h
    exact ⟨h.1.symm, h.2.1.symm, h.2.2.symm⟩
  · intro h
    exact ⟨h.1.symm, h.2.1.symm, h.2.2.symm⟩

/-- Each published security block is the one enforced exactly when every published block
repeats the thresholds of the startup configuration. -/
theorem blocks_followed_iff {env₀ : Environment} {config₀ : Config} {server : ServerState}
    (hstart : ServerState.new env₀ config₀ = .returned (.ok server))
    (events : List SessionEvent) :
    (∀ before env config sec, before ++ [.reload env] <+: events →
      Publishes env config ((Session.start server).after before).server
        (((Session.start server).after before).server.reload env) →
      config.security = some sec →
      FollowsBlock sec ((Session.start server).after before).server
        (((Session.start server).after before).server.reload env)) ↔
    ∀ before env config sec, before ++ [.reload env] <+: events →
      Publishes env config ((Session.start server).after before).server
        (((Session.start server).after before).server.reload env) →
      config.security = some sec → settingsOf (some sec) = settingsOf config₀.security := by
  have hone : ∀ before env sec, FollowsBlock sec ((Session.start server).after before).server
      (((Session.start server).after before).server.reload env) ↔
        settingsOf (some sec) = settingsOf config₀.security :=
    fun before env sec => followsBlock_iff (after_shares hstart before) env sec
  constructor
  · intro h before env config sec hp hpub hsec
    exact (hone before env sec).mp (h before env config sec hp hpub hsec)
  · intro h before env config sec hp hpub hsec
    exact (hone before env sec).mpr (h before env config sec hp hpub hsec)

end Sessions

section Example
open ListCrates

def visitor : IpAddr := .v4 ⟨10, 0, 0, 1⟩

theorem ban_survives_reload :
    let s := (Session.start plainServer).after
      [.call 0 ⟨0, .addToBlacklist visitor⟩, .reload (sampleEnv plainText true)]
    ∃ config ∈ s.snapshots,
      (isBlacklisted (s.server.heap.managers config.securityManager) 5 visitor).1 =
        .returned true := by
  intro s
  have hlog : s.log = [(⟨0, .addToBlacklist visitor⟩, .returned .unit)] := by
    rfl
  have hcalls : s.calls = [⟨0, .addToBlacklist visitor⟩] := by
    rw [Session.calls, hlog]
    rfl
  have hsnap : s.server.config ∈ s.snapshots := List.mem_append_right _ (List.mem_singleton.mpr rfl)
  have hsort : Sorted (s.calls ++ [⟨5, .isBlacklisted visitor⟩]) := by
    rw [hcalls]
    simp [Sorted]
  have hrep : NoOverflow (settingsOf plainConfig.security) s.calls := by
    rw [hcalls]
    exact noOverflow_of_times (by decide)
  obtain ⟨banned, hresult, hiff⟩ := blacklist_exact_across_reloads new_plain _ s.server.config hsnap
    5 visitor hsort hrep
  refine ⟨s.server.config, hsnap, ?_⟩
  rw [hresult, hiff.mpr]
  rw [hlog]
  exact ⟨_, List.mem_singleton.mpr rfl, .inl rfl, by decide, by decide⟩

def limitText (rate : String) : String :=
  "listen 8080;\nroute http://a/ \x7b\nupstream http://b;\n\x7d\nsecurity \x7b\nrate_limit "
    ++ rate ++ ";\n\x7d\n"

def limitBlock (rate : ℕ) : SecurityConfig :=
  { ConfigParser.defaultSecurityConfig with rateLimitRpm := rate }

def limitConfig (rate : ℕ) : Config :=
  { plainConfig with security := some (limitBlock rate) }

theorem limit_published {text : String} {rate : ℕ}
    (hparse : ConfigParser.parseProxyConfig (some 2) text.toList = .ok (limitConfig rate)) :
    Publishes (sampleEnv text true) (limitConfig rate) plainServer
      (plainServer.reload (sampleEnv text true)) := by
  have hload : Loads 8080 2 (sampleEnv text true) (limitConfig rate) := by
    refine ⟨?_, rfl, rfl, none, rfl⟩
    simp only [loadConfigFromPath, sampleEnv, hparse]
  have hopen : Opens (sampleEnv text true) (limitConfig rate) := by
    refine ⟨fun _ => rfl, ?_⟩
    intro _ hauth
    cases hauth
  have htls : buildTlsAcceptor (sampleEnv text true).loadCertifiedKey (limitConfig rate).routes =
      .ok none := rfl
  rw [reload_applies (s := plainServer) rfl hload hopen htls]
  exact ⟨none, htls, rfl, rfl, rfl⟩

theorem published_security {env : Environment} {config config' : Config}
    {s s' : ServerState} (h : Publishes env config s s') (h' : Publishes env config' s s') :
    config'.security = config.security := by
  obtain ⟨acceptor, -, hconfig, -⟩ := h
  obtain ⟨acceptor', -, hconfig', -⟩ := h'
  exact congrArg ActiveConfig.security (hconfig'.symm.trans hconfig)

theorem default_block_followed :
    ServerState.new (sampleEnv plainText true) plainConfig = .returned (.ok plainServer) ∧
      FollowsBlock (limitBlock 60) plainServer
        (plainServer.reload (sampleEnv (limitText "60") true)) := by
  have hpub : Publishes (sampleEnv (limitText "60") true) (limitConfig 60) plainServer
      (plainServer.reload (sampleEnv (limitText "60") true)) := limit_published (by decide +kernel)
  refine ⟨new_plain, ?_⟩
  refine (blocks_followed_iff new_plain [.reload (sampleEnv (limitText "60") true)]).mpr ?_ [] _
    (limitConfig 60) (limitBlock 60) (List.prefix_refl _) hpub rfl
  intro before env config sec hp hpub' hsec
  have hlen : (before ++ [SessionEvent.reload env]).length ≤ 1 := hp.length_le
  rw [List.length_append, List.length_singleton] at hlen
  obtain rfl : before = [] := List.length_eq_zero_iff.mp (by omega)
  obtain rfl : env = sampleEnv (limitText "60") true := by simpa using hp
  have hsame := published_security hpub hpub'
  obtain rfl : limitBlock 60 = sec := Option.some.inj (hsame.symm.trans hsec)
  rfl

/-- The published block asks for 10 requests a minute; the manager still enforces 60. -/
theorem new_block_ignored :
    ServerState.new (sampleEnv plainText true) plainConfig = .returned (.ok plainServer) ∧
      Publishes (sampleEnv (limitText "10") true) (limitConfig 10) plainServer
        (plainServer.reload (sampleEnv (limitText "10") true)) ∧
      ¬ FollowsBlock (limitBlock 10) plainServer
        (plainServer.reload (sampleEnv (limitText "10") true)) := by
  refine ⟨new_plain, limit_published (by decide +kernel), ?_⟩
  intro h
  have hrate := h.1.2.2
  obtain ⟨hmanager, hheap⟩ := reload_manager plainServer (sampleEnv (limitText "10") true)
  rw [hmanager, hheap] at hrate
  exact absurd hrate (by decide)

end Example

end BarebonesProxy.Server
