import BarebonesProxy.Worker

set_option autoImplicit false

/-!
# The order of the operations of a connection

A connection asks the blacklist about the peer, then about the address that the PROXY
header gives, then it shakes hands. A failed handshake is charged to the second address.
-/
namespace BarebonesProxy.Worker
open RustNet RustStrings RustState ProxyConfig Http Cache RuntimeConfig EffectPrograms
open Proxy ProxyProtocol Handler

section Order
variable [HttpCrate] [TlsCrate] (config : ActiveConfig) (stream : TcpStream)
variable (peerAddr : SocketAddr)

def bannedAsked (ip : IpAddr) (banned : Bool) : (e : Effect) × e.Reply :=
  ⟨.isBlacklisted config.securityManager ip, banned⟩

/-- The address that the client is known by from here on. -/
def ResolvesTo (addr : SocketAddr) : Prop :=
  ∃ stream' isProxyProtocol,
    resolvePeer config.security stream peerAddr = .ok (stream', addr, isProxyProtocol)

/-- Neither address is banned. -/
def unbanned (addr : SocketAddr) : ProxyTrace :=
  [bannedAsked config peerAddr.ip false, bannedAsked config addr.ip false]

/-- What has happened before an operation of a connection. -/
def Asked (t : ProxyTrace) : Effect → Prop
  | .isBlacklisted manager ip => manager = config.securityManager ∧
      (t = [] ∧ ip = peerAddr.ip ∨ ∃ addr, ResolvesTo config stream peerAddr addr ∧
        t = [bannedAsked config peerAddr.ip false] ∧ ip = addr.ip)
  | .tlsHandshake => ∃ addr, ResolvesTo config stream peerAddr addr ∧
      t = unbanned config peerAddr addr ∧ config.tlsAcceptor.isSome = true
  | .recordTlsFailure manager ip => manager = config.securityManager ∧
      ∃ addr, ResolvesTo config stream peerAddr addr ∧
        t = unbanned config peerAddr addr ++ [⟨.tlsHandshake, false⟩] ∧ ip = addr.ip
  | _ => False

/-- The operations of a connection that is served. -/
def servedTrace (addr : SocketAddr) : ProxyTrace :=
  unbanned config peerAddr addr ++
    if config.tlsAcceptor.isSome then [⟨.tlsHandshake, true⟩] else []

def Accepted (t : ProxyTrace) (result : Option Served) : Prop :=
  ∀ served, result = some served → ResolvesTo config stream peerAddr served.resolvedAddr ∧
    t = servedTrace config peerAddr served.resolvedAddr

variable {config stream peerAddr} {t : ProxyTrace}

theorem accepted_none : Accepted config stream peerAddr t none := fun _ h => nomatch h

theorem dropBlacklisted_order {ip : IpAddr}
    (h : Asked config stream peerAddr t (.isBlacklisted config.securityManager ip)) :
    wpH (Asked config stream peerAddr) (Accepted config stream peerAddr)
      (fun t' _ => t' = t ++ [bannedAsked config ip false]) (dropBlacklisted config ip) t := by
  unfold dropBlacklisted
  rw [wpH_bind]
  refine ⟨h, fun banned => ?_⟩
  cases banned with
  | true => exact accepted_none
  | false => exact rfl

theorem acceptTls_order {addr : SocketAddr} (h : ResolvesTo config stream peerAddr addr) :
    wpH (Asked config stream peerAddr) (Accepted config stream peerAddr)
      (fun t _ => t = servedTrace config peerAddr addr) (acceptTls config addr)
      (unbanned config peerAddr addr) := by
  unfold acceptTls servedTrace
  cases hacceptor : config.tlsAcceptor with
  | none => exact (List.append_nil _).symm
  | some acceptor =>
    dsimp only
    rw [wpH_bind]
    refine ⟨⟨addr, h, rfl, by rw [hacceptor]; rfl⟩, fun done => ?_⟩
    cases done with
    | true => exact rfl
    | false => exact ⟨⟨rfl, addr, h, rfl, rfl⟩, fun _ => accepted_none⟩

theorem connectionTask_order (config : ActiveConfig) (stream : TcpStream)
    (peerAddr : SocketAddr) :
    wp (Asked config stream peerAddr) (Accepted config stream peerAddr)
      (connectionTask config stream peerAddr) [] := by
  unfold connectionTask
  rw [wp_run, wpH_bind]
  refine wpH_mono ?_ (dropBlacklisted_order ⟨rfl, .inl ⟨rfl, rfl⟩⟩)
  rintro t _ rfl
  split
  · exact accepted_none
  · next stream' addr isProxyProtocol hresolve =>
    have hresolved : ResolvesTo config stream peerAddr addr := ⟨stream', isProxyProtocol, hresolve⟩
    rw [wpH_bind]
    refine wpH_mono ?_ (dropBlacklisted_order ⟨rfl, .inr ⟨addr, hresolved, rfl, rfl⟩⟩)
    rintro t _ rfl
    rw [wpH_bind]
    refine wpH_mono ?_ (acceptTls_order hresolved)
    rintro t encrypted rfl served hserved
    cases hserved
    exact ⟨hresolved, rfl⟩

variable {p : Program (Option Served)}

theorem Asked.manager {e : Effect} (h : Asked config stream peerAddr t e) :
    (∃ ip, e = .isBlacklisted config.securityManager ip) ∨ e = .tlsHandshake ∨
      ∃ ip, e = .recordTlsFailure config.securityManager ip := by
  cases e with
  | isBlacklisted manager ip => exact .inl ⟨ip, by rw [h.1]⟩
  | tlsHandshake => exact .inr (.inl rfl)
  | recordTlsFailure manager ip => exact .inr (.inr ⟨ip, by rw [h.1]⟩)
  | _ => exact h.elim

/-- No operation of a connection has more than three before it. -/
theorem Asked.length_lt {e : Effect} (h : Asked config stream peerAddr t e) : t.length < 4 := by
  cases e with
  | isBlacklisted manager ip =>
    obtain ⟨-, ⟨rfl, -⟩ | ⟨addr, -, rfl, -⟩⟩ := h
    · exact Nat.zero_lt_succ 3
    · exact Nat.one_lt_succ_succ 2
  | tlsHandshake =>
    obtain ⟨addr, -, rfl, -⟩ := h
    exact (by decide : 2 < 4)
  | recordTlsFailure manager ip =>
    obtain ⟨-, addr, -, rfl, -⟩ := h
    exact (by decide : 3 < 4)
  | _ => exact h.elim

theorem connection_length_le (h : Reaches (connectionTask config stream peerAddr) t p) :
    t.length ≤ 4 := by
  cases h with
  | start => exact Nat.zero_le 4
  | reply hreach r =>
    have hlt := (allowed_of_reaches (connectionTask_order config stream peerAddr) hreach).length_lt
    rw [List.length_append, List.length_singleton]
    omega

theorem bannedAsked_ne (ip ip' : IpAddr) :
    bannedAsked config ip true ≠ bannedAsked config ip' false := by
  intro h
  cases h

theorem banned_notMem_unbanned (ip : IpAddr) (addr : SocketAddr) :
    bannedAsked config ip true ∉ unbanned config peerAddr addr := by
  intro h
  rcases List.mem_cons.mp h with h | h
  · exact bannedAsked_ne _ _ h
  · exact bannedAsked_ne _ _ (List.mem_singleton.mp h)

/-- What precedes an operation or a service has no ban in it. -/
theorem Asked.unbanned {e : Effect} (h : Asked config stream peerAddr t e) (ip : IpAddr) :
    bannedAsked config ip true ∉ t := by
  intro hmem
  cases e with
  | isBlacklisted manager ip' =>
    obtain ⟨-, ⟨rfl, -⟩ | ⟨addr, -, rfl, -⟩⟩ := h
    · cases hmem
    · exact bannedAsked_ne _ _ (List.mem_singleton.mp hmem)
  | tlsHandshake =>
    obtain ⟨addr, -, rfl, -⟩ := h
    exact banned_notMem_unbanned ip addr hmem
  | recordTlsFailure manager ip' =>
    obtain ⟨-, addr, -, rfl, -⟩ := h
    rcases List.mem_append.mp hmem with hmem | hmem
    · exact banned_notMem_unbanned ip addr hmem
    · cases List.mem_singleton.mp hmem
  | _ => exact h.elim

theorem mem_servedTrace {addr : SocketAddr} {s : (e : Effect) × e.Reply}
    (h : s ∈ servedTrace config peerAddr addr) :
    s ∈ Worker.unbanned config peerAddr addr ∨ s = ⟨.tlsHandshake, true⟩ := by
  unfold servedTrace at h
  refine (List.mem_append.mp h).imp_right fun h => ?_
  split at h
  · exact List.mem_singleton.mp h
  · cases h

/-- A banned address ends the connection at once. -/
theorem connection_banned (h : Reaches (connectionTask config stream peerAddr) t p) {ip : IpAddr}
    (hmem : bannedAsked config ip true ∈ t) : p = .pure none := by
  have hwp := wp_reaches (connectionTask_order config stream peerAddr) h
  cases p with
  | pure result =>
    cases result with
    | none => rfl
    | some served =>
      rw [(hwp served rfl).2] at hmem
      rcases mem_servedTrace hmem with hmem | hmem
      · exact absurd hmem (banned_notMem_unbanned _ _)
      · cases hmem
  | op e k => exact absurd hmem (Asked.unbanned hwp.1 ip)

/-- A failed handshake is charged to the resolved address and ends the connection. -/
theorem connection_charged (h : Reaches (connectionTask config stream peerAddr) t p)
    {manager : ℕ} {ip : IpAddr} {banned : Bool}
    (hmem : (⟨.recordTlsFailure manager ip, banned⟩ : (e : Effect) × e.Reply) ∈ t) :
    manager = config.securityManager ∧ p = .pure none ∧
      ∃ addr, ResolvesTo config stream peerAddr addr ∧ ip = addr.ip ∧
        t = unbanned config peerAddr addr ++
          [⟨.tlsHandshake, false⟩, ⟨.recordTlsFailure manager ip, banned⟩] := by
  have hlength := connection_length_le h
  have hwp := wp_reaches (connectionTask_order config stream peerAddr) h
  obtain ⟨t₁, t₂, rfl⟩ := List.append_of_mem hmem
  obtain ⟨hmanager, addr, hresolved, rfl, hip⟩ :=
    allowed_of_performed (connectionTask_order config stream peerAddr) h rfl
  -- three operations come before it, so nothing comes behind
  obtain rfl : t₂ = [] := by
    refine List.eq_nil_of_length_eq_zero ?_
    simp only [unbanned, List.length_append, List.length_cons, List.length_nil] at hlength
    omega
  refine ⟨hmanager, ?_, addr, hresolved, hip, List.append_assoc _ _ _⟩
  cases p with
  | pure result =>
    cases result with
    | none => rfl
    | some served =>
      rw [(hwp served rfl).2] at hmem
      rcases mem_servedTrace hmem with hmem | hmem
      · rcases List.mem_cons.mp hmem with hmem | hmem
        · cases hmem
        · cases List.mem_singleton.mp hmem
      · cases hmem
  | op e k =>
    have hlt := Asked.length_lt hwp.1
    simp only [unbanned, List.length_append, List.length_cons, List.length_nil] at hlt
    omega

/-- How far a connection has come, and after what. -/
structure ConnectionRules (config : ActiveConfig) (stream : TcpStream) (peerAddr : SocketAddr)
    (t : ProxyTrace) (p : Program (Option Served)) : Prop where
  served : ∀ served, p = .pure (some served) →
    ResolvesTo config stream peerAddr served.resolvedAddr ∧
      t = servedTrace config peerAddr served.resolvedAddr
  banned : ∀ ip, bannedAsked config ip true ∈ t → p = .pure none
  charged : ∀ manager ip banned,
    (⟨.recordTlsFailure manager ip, banned⟩ : (e : Effect) × e.Reply) ∈ t →
      manager = config.securityManager ∧ p = .pure none ∧
      ∃ addr, ResolvesTo config stream peerAddr addr ∧ ip = addr.ip ∧
        t = unbanned config peerAddr addr ++
          [⟨.tlsHandshake, false⟩, ⟨.recordTlsFailure manager ip, banned⟩]
  bounded : t.length ≤ 4

/-- A connection is served only after the peer and the resolved address were both found
unbanned and, with TLS, the handshake was completed. A failed handshake is recorded once,
against the resolved address, and ends the connection, as a ban does. -/
theorem connection_rules (h : Reaches (connectionTask config stream peerAddr) t p) :
    ConnectionRules config stream peerAddr t p where
  served served hp := by
    subst hp
    exact post_of_reaches (connectionTask_order config stream peerAddr) h served rfl
  banned _ := connection_banned h
  charged _ _ _ := connection_charged h
  bounded := connection_length_le h

end Order

section Example
open ListCrates

def tlsConfig : ActiveConfig :=
  snapshot (bufferConfig 65536) 0 (some ⟨⟨.empty⟩, ["h2".toList, "http/1.1".toList]⟩) 0 none

def scannerAnswer : (e : Effect) → e.Reply
  | .isBlacklisted _ _ => false
  | .checkAndRecordRequest _ _ => .ok 1
  | .recordTlsFailure _ _ => false
  | .tlsHandshake => false
  | .cacheGet _ _ => none
  | .maxFileSizeBytes _ => (0 : ℕ)
  | .authRequest _ => none
  | .upstreamRequest _ => none
  | .spawnInsert _ => ()
  | .spawnTunnel _ => ()

/-- A client that connects and does not complete the handshake. -/
def scannerRun : ProxyTrace × Program (Option Served) :=
  follow scannerAnswer 4 (connectionTask tlsConfig ⟨[], .eof⟩ ⟨.v4 ⟨10, 0, 0, 1⟩, 4000⟩)

theorem scanner_charged :
    Reaches (connectionTask tlsConfig ⟨[], .eof⟩ ⟨.v4 ⟨10, 0, 0, 1⟩, 4000⟩) scannerRun.1
        scannerRun.2 ∧
      (⟨.recordTlsFailure 0 (.v4 ⟨10, 0, 0, 1⟩), false⟩ : (e : Effect) × e.Reply) ∈
        scannerRun.1 ∧
      scannerRun.2 = .pure none := by
  have hreach : Reaches (connectionTask tlsConfig ⟨[], .eof⟩ ⟨.v4 ⟨10, 0, 0, 1⟩, 4000⟩)
      scannerRun.1 scannerRun.2 := reaches_follow _ _ _
  have hmem : (⟨.recordTlsFailure 0 (.v4 ⟨10, 0, 0, 1⟩), false⟩ : (e : Effect) × e.Reply) ∈
      scannerRun.1 := List.mem_of_getElem? (i := 3) rfl
  exact ⟨hreach, hmem, ((connection_rules hreach).charged _ _ _ hmem).2.1⟩

end Example

end BarebonesProxy.Worker
