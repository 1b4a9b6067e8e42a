import BarebonesProxy.RunningClients

set_option autoImplicit false

/-!
# What the security manager remembers

Every recorded failure and every checked request first sweeps the maps. So the maps never
hold more than the last minute before the latest sweep, and all of it: an address that was
quiet for that minute takes no room.
-/
namespace BarebonesProxy.SecurityHistory
open RustNet RustState SlidingWindow Security

def isSweep : Op → Bool
  | .recordTlsFailure _ | .checkAndRecordRequest _ => true
  | _ => false

/-- The time of the latest sweep. -/
def lastSweep (calls : List Call) : ℕ :=
  ((calls.filter fun c => isSweep c.op).getLast?.map Call.time).getD 0

theorem lastSweep_push (calls : List Call) (c : Call) :
    lastSweep (calls ++ [c]) = if isSweep c.op then c.time else lastSweep calls := by
  unfold lastSweep
  rw [List.filter_append]
  by_cases h : isSweep c.op = true
  · simp [h]
  · simp [h]

theorem lastSweep_le {calls : List Call} {now : ℕ} (h : ∀ c ∈ calls, c.time ≤ now) :
    lastSweep calls ≤ now := by
  unfold lastSweep
  cases hlast : (calls.filter fun c => isSweep c.op).getLast? with
  | none => exact Nat.zero_le now
  | some c => exact h c (List.mem_filter.mp (List.mem_of_getLast? hlast)).1

/-- A map keeps no entry for an empty list of times. -/
def entry (ts : List ℕ) : Option (List ℕ) := if ts.isEmpty then none else some ts

theorem entry_getD (ts : List ℕ) : (entry ts).getD [] = ts := by
  cases ts <;> rfl

theorem entry_push (ts : List ℕ) (t : ℕ) : entry (ts ++ [t]) = some (ts ++ [t]) := by
  cases ts <;> rfl

theorem entry_sweep (now : ℕ) (ts : List ℕ) :
    (entry ts).bind (sweep now) = entry (recent rollingWindow now ts) := by
  cases ts <;> rfl

/-- The maps hold the calls of the window that ends at `swept`, and bans that were imposed
and were not over then. -/
structure Keeps (s : Settings) (calls : List Call) (swept : ℕ) (inner : SecurityManagerInner) :
    Prop where
  banDuration : inner.banDuration = s.banDuration
  maxTlsFailures : inner.maxTlsFailures = s.maxTlsFailures
  rateLimitRpm : inner.rateLimitRpm = s.rateLimitRpm
  failures : ∀ ip, inner.tlsFailures ip =
    entry (recent rollingWindow swept (timesOf (.recordTlsFailure ip) calls))
  requests : ∀ ip, inner.requestTracker ip = if s.rateLimitRpm = 0 then none else
    entry (recent rollingWindow swept (timesOf (.checkAndRecordRequest ip) calls))
  bans : ∀ ip bannedUntil, inner.blacklist ip = some bannedUntil → swept ≤ bannedUntil ∧
    ∃ start, Bans s calls ip start ∧ bannedUntil = start + s.banDuration

theorem keeps_new (s : Settings) : Keeps s [] 0 s.manager.value where
  banDuration := rfl
  maxTlsFailures := rfl
  rateLimitRpm := rfl
  failures _ := rfl
  requests ip := by
    split <;> rfl
  bans ip bannedUntil hnone := by
    cases hnone

section Steps
variable {s : Settings} {calls : List Call} {swept now : ℕ} {inner : SecurityManagerInner}
variable {c : Call} {ip : IpAddr}

/-- A sweep moves the window. -/
theorem Keeps.cleanup (h : Keeps s calls swept inner) (hnow : swept ≤ now) :
    Keeps s calls now (inner.cleanup now) where
  banDuration := h.banDuration
  maxTlsFailures := h.maxTlsFailures
  rateLimitRpm := h.rateLimitRpm
  failures ip := by
    change (inner.tlsFailures ip).bind (sweep now) = _
    rw [h.failures, entry_sweep, recent_recent hnow]
  requests ip := by
    change (inner.requestTracker ip).bind (sweep now) = _
    rw [h.requests]
    split
    · rfl
    · rw [entry_sweep, recent_recent hnow]
  bans ip bannedUntil hbanned := by
    obtain ⟨found, hfound, hif⟩ := Option.bind_eq_some_iff.mp hbanned
    split at hif
    · next hlt =>
      cases hif
      exact ⟨hlt.le, (h.bans ip bannedUntil hfound).2⟩
    · cases hif

theorem Keeps.bans_push (h : Keeps s calls swept inner) (c : Call) (ip : IpAddr)
    (bannedUntil : ℕ) (hbanned : inner.blacklist ip = some bannedUntil) :
    swept ≤ bannedUntil ∧
      ∃ start, Bans s (calls ++ [c]) ip start ∧ bannedUntil = start + s.banDuration := by
  obtain ⟨hswept, start, hbans, hend⟩ := h.bans ip bannedUntil hbanned
  exact ⟨hswept, start, (SecurityHistory.bans_push s calls c ip start).mpr (.inl hbans), hend⟩

/-- A call that records nothing leaves the maps as they are. -/
theorem Keeps.observe (h : Keeps s calls swept inner) (hfailure : ∀ j, c.op ≠ .recordTlsFailure j)
    (hrequest : s.rateLimitRpm ≠ 0 → ∀ j, c.op ≠ .checkAndRecordRequest j) :
    Keeps s (calls ++ [c]) swept inner where
  banDuration := h.banDuration
  maxTlsFailures := h.maxTlsFailures
  rateLimitRpm := h.rateLimitRpm
  failures j := by
    rw [timesOf_push_ne _ (hfailure j)]
    exact h.failures j
  requests j := by
    rw [h.requests j]
    split
    · rfl
    · next hlimited => rw [timesOf_push_ne _ (hrequest hlimited j)]
  bans := h.bans_push c

theorem Keeps.failure (h : Keeps s calls c.time inner) (hop : c.op = .recordTlsFailure ip) :
    Keeps s (calls ++ [c]) c.time (pushFailure inner c.time ip) where
  banDuration := h.banDuration
  maxTlsFailures := h.maxTlsFailures
  rateLimitRpm := h.rateLimitRpm
  failures j := by
    change inner.tlsFailures.insert ip _ j = _
    by_cases hj : j = ip
    · rw [hj, HashMap.insert_self, h.failures, entry_getD, retainRecent_eq, recent_recent le_rfl,
        ← hop, timesOf_push_self, recent_push, entry_push]
    · have hne : c.op ≠ .recordTlsFailure j := fun he =>
        hj (Op.recordTlsFailure.inj (he.symm.trans hop))
      rw [HashMap.insert_ne _ _ hj, timesOf_push_ne _ hne]
      exact h.failures j
  requests j := by
    have hne : c.op ≠ .checkAndRecordRequest j := by
      rw [hop]
      exact Op.noConfusion
    rw [timesOf_push_ne _ hne]
    exact h.requests j
  bans := h.bans_push c

theorem Keeps.request (h : Keeps s calls c.time inner) (hop : c.op = .checkAndRecordRequest ip)
    (hlimited : s.rateLimitRpm ≠ 0) :
    Keeps s (calls ++ [c]) c.time (pushRequest inner c.time ip) where
  banDuration := h.banDuration
  maxTlsFailures := h.maxTlsFailures
  rateLimitRpm := h.rateLimitRpm
  failures j := by
    have hne : c.op ≠ .recordTlsFailure j := by
      rw [hop]
      exact Op.noConfusion
    rw [timesOf_push_ne _ hne]
    exact h.failures j
  requests j := by
    rw [if_neg hlimited]
    change inner.requestTracker.insert ip _ j = _
    by_cases hj : j = ip
    · rw [hj, HashMap.insert_self, h.requests, if_neg hlimited, entry_getD, retainRecent_eq,
        recent_recent le_rfl, ← hop, timesOf_push_self, recent_push, entry_push]
    · have hne : c.op ≠ .checkAndRecordRequest j := fun he =>
        hj (Op.checkAndRecordRequest.inj (he.symm.trans hop))
      rw [HashMap.insert_ne _ _ hj, timesOf_push_ne _ hne, h.requests j, if_neg hlimited]
  bans := h.bans_push c

theorem Keeps.setBan (h : Keeps s calls swept inner) (hswept : swept ≤ now)
    (hban : Bans s calls ip now) :
    Keeps s calls swept (SecurityHistory.setBan inner ip (now + s.banDuration)) where
  banDuration := h.banDuration
  maxTlsFailures := h.maxTlsFailures
  rateLimitRpm := h.rateLimitRpm
  failures := h.failures
  requests := h.requests
  bans j bannedUntil hbanned := by
    change inner.blacklist.insert ip _ j = _ at hbanned
    by_cases hj : j = ip
    · rw [hj, HashMap.insert_self] at hbanned
      cases hbanned
      exact ⟨by omega, now, hj ▸ hban, rfl⟩
    · rw [HashMap.insert_ne _ _ hj] at hbanned
      exact h.bans j bannedUntil hbanned

theorem Keeps.unban (h : Keeps s calls swept inner) (ip : IpAddr) :
    Keeps s calls swept { inner with blacklist := inner.blacklist.remove ip } where
  banDuration := h.banDuration
  maxTlsFailures := h.maxTlsFailures
  rateLimitRpm := h.rateLimitRpm
  failures := h.failures
  requests := h.requests
  bans j bannedUntil hbanned := by
    change inner.blacklist.remove ip j = _ at hbanned
    by_cases hj : j = ip
    · rw [hj, HashMap.remove_self] at hbanned
      cases hbanned
    · rw [HashMap.remove_ne _ hj] at hbanned
      exact h.bans j bannedUntil hbanned

/-- The failures that are counted are those of the window. -/
theorem Keeps.count (h : Keeps s calls c.time inner) (hop : c.op = .recordTlsFailure ip) :
    (retainRecent c.time ((inner.tlsFailures ip).getD []) ++ [c.time]).length =
      windowCount c.op (calls ++ [c]) c.time := by
  rw [h.failures, entry_getD, retainRecent_eq, recent_recent le_rfl, windowCount,
    timesOf_push_self, recent_push, hop]

theorem recordTlsFailure_keeps (h : Keeps s calls swept inner) (hswept : swept ≤ c.time)
    (hop : c.op = .recordTlsFailure ip) (ho : ¬ Overflows s calls c) :
    ∃ reply inner', recordTlsFailure ⟨inner, false⟩ c.time ip = (.returned reply, ⟨inner', false⟩) ∧
      Keeps s (calls ++ [c]) c.time inner' := by
  have hclean := h.cleanup hswept
  have hcount := hclean.count hop
  by_cases hmax : s.maxTlsFailures < windowCount c.op (calls ++ [c]) c.time
  · have hban : BansAt s calls c ip := .inr ⟨hop, hmax⟩
    have hrep : Representable (c.time + s.banDuration) := by
      by_contra hrep
      exact ho ⟨⟨ip, hban⟩, hrep⟩
    refine ⟨true, _, Lock.withExpect_returned ?_, (hclean.failure hop).setBan le_rfl
      ((SecurityHistory.bans_push s calls c ip c.time).mpr (.inr ⟨hban, rfl⟩))⟩
    simp only [hcount, hclean.maxTlsFailures, hmax, if_true, hclean.banDuration, addInstant, hrep,
      SecurityHistory.setBan, pushFailure]
  · refine ⟨false, _, Lock.withExpect_returned ?_, hclean.failure hop⟩
    simp only [hcount, hclean.maxTlsFailures, hmax, if_false, pushFailure]

theorem checkAndRecordRequest_keeps (h : Keeps s calls swept inner) (hswept : swept ≤ c.time)
    (hop : c.op = .checkAndRecordRequest ip) :
    ∃ reply inner', checkAndRecordRequest ⟨inner, false⟩ c.time ip =
        (.returned reply, ⟨inner', false⟩) ∧ Keeps s (calls ++ [c]) c.time inner' := by
  have hclean := h.cleanup hswept
  by_cases hz : s.rateLimitRpm = 0
  · have hfailure : ∀ j, c.op ≠ .recordTlsFailure j := by
      rw [hop]
      exact fun _ => Op.noConfusion
    refine ⟨.ok 0, _, Lock.withExpect_returned ?_, hclean.observe hfailure (absurd hz)⟩
    simp only [hclean.rateLimitRpm, hz, if_true]
  · refine ⟨verdict s.rateLimitRpm (retainRecent c.time
      (((inner.cleanup c.time).requestTracker ip).getD []) ++ [c.time]).length, _,
      Lock.withExpect_returned ?_, hclean.request hop hz⟩
    simp only [hclean.rateLimitRpm, hz, if_false, pushRequest, verdict]

theorem isBlacklisted_keeps (h : Keeps s calls swept inner) (hop : c.op = .isBlacklisted ip) :
    ∃ reply inner', isBlacklisted ⟨inner, false⟩ c.time ip = (.returned reply, ⟨inner', false⟩) ∧
      Keeps s (calls ++ [c]) swept inner' := by
  have hkeeps : ∀ inner', Keeps s calls swept inner' → Keeps s (calls ++ [c]) swept inner' := by
    intro inner' h'
    refine h'.observe ?_ fun _ => ?_
    all_goals
      rw [hop]
      exact fun _ => Op.noConfusion
  cases hbanned : inner.blacklist ip with
  | none =>
    refine ⟨false, inner, Lock.withExpect_returned ?_, hkeeps inner h⟩
    simp only [hbanned]
  | some bannedUntil =>
    by_cases hlt : c.time < bannedUntil
    · refine ⟨true, inner, Lock.withExpect_returned ?_, hkeeps inner h⟩
      simp only [hbanned, hlt, if_true]
    · refine ⟨false, _, Lock.withExpect_returned ?_, hkeeps _ (h.unban ip)⟩
      simp only [hbanned, hlt, if_false]

theorem addToBlacklist_keeps (h : Keeps s calls swept inner) (hswept : swept ≤ c.time)
    (hop : c.op = .addToBlacklist ip) (ho : ¬ Overflows s calls c) :
    ∃ reply inner', addToBlacklist ⟨inner, false⟩ c.time ip = (.returned reply, ⟨inner', false⟩) ∧
      Keeps s (calls ++ [c]) swept inner' := by
  have hban : BansAt s calls c ip := .inl hop
  have hrep : Representable (c.time + s.banDuration) := by
    by_contra hrep
    exact ho ⟨⟨ip, hban⟩, hrep⟩
  have hobserve : Keeps s (calls ++ [c]) swept inner := by
    refine h.observe ?_ fun _ => ?_
    all_goals
      rw [hop]
      exact fun _ => Op.noConfusion
  refine ⟨(), _, Lock.withExpect_returned ?_, hobserve.setBan hswept
    ((SecurityHistory.bans_push s calls c ip c.time).mpr (.inr ⟨hban, rfl⟩))⟩
  simp only [h.banDuration, addInstant, hrep, if_true, SecurityHistory.setBan]

/-- One call, short of `get_tls_failure_count`, which prunes the failures of one address. -/
theorem call_keeps (h : Keeps s calls swept inner) (hswept : swept ≤ c.time)
    (ho : ¬ Overflows s calls c) (hcount : ∀ j, c.op ≠ .getTlsFailureCount j) :
    ∃ reply inner', call ⟨inner, false⟩ c = (.returned reply, ⟨inner', false⟩) ∧
      Keeps s (calls ++ [c]) (if isSweep c.op then c.time else swept) inner' := by
  unfold call
  cases hop : c.op with
  | recordTlsFailure ip =>
    obtain ⟨reply, inner', heq, hkeeps⟩ := recordTlsFailure_keeps h hswept hop ho
    exact ⟨.bool reply, inner', congrArg (tagged .bool) heq, hkeeps⟩
  | checkAndRecordRequest ip =>
    obtain ⟨reply, inner', heq, hkeeps⟩ := checkAndRecordRequest_keeps h hswept hop
    exact ⟨.admission reply, inner', congrArg (tagged .admission) heq, hkeeps⟩
  | isBlacklisted ip =>
    obtain ⟨reply, inner', heq, hkeeps⟩ := isBlacklisted_keeps h hop
    exact ⟨.bool reply, inner', congrArg (tagged .bool) heq, hkeeps⟩
  | getTlsFailureCount ip => exact absurd hop (hcount ip)
  | addToBlacklist ip =>
    obtain ⟨reply, inner', heq, hkeeps⟩ := addToBlacklist_keeps h hswept hop ho
    exact ⟨.unit, inner', congrArg (tagged fun _ => .unit) heq, hkeeps⟩

end Steps

theorem run_keeps {s : Settings} {calls : List Call} (hsort : Sorted calls)
    (ho : NoOverflow s calls) (hcount : ∀ c ∈ calls, ∀ j, c.op ≠ .getTlsFailureCount j) :
    ∃ inner, after s.manager calls = ⟨inner, false⟩ ∧ Keeps s calls (lastSweep calls) inner := by
  induction calls using List.reverseRecOn with
  | nil => exact ⟨_, rfl, keeps_new s⟩
  | append_singleton before c ih =>
    obtain ⟨hbefore, hpast⟩ := sorted_push hsort
    obtain ⟨hno, hc⟩ := (noOverflow_push ..).mp ho
    obtain ⟨hcounts, hlast⟩ := List.forall_mem_append.mp hcount
    obtain ⟨inner, heq, hkeeps⟩ := ih hbefore hno hcounts
    obtain ⟨reply, inner', hcall, hkeeps'⟩ :=
      call_keeps hkeeps (lastSweep_le hpast) hc (List.forall_mem_singleton.mp hlast)
    refine ⟨inner', ?_, ?_⟩
    · rw [after_push, heq, hcall]
    · rw [lastSweep_push]
      exact hkeeps'

end BarebonesProxy.SecurityHistory

namespace BarebonesProxy.Running
open RustNet RustStrings RustState ProxyConfig Http Cache LruMap RuntimeConfig Server
open Security SecurityHistory SlidingWindow EffectPrograms Proxy ProxyProtocol Worker Runs

section Memory
variable [HttpCrate] [TlsCrate] [LruCrate]

theorem callOf_uncounted {s : System} {a : Action} {c : Call} (hc : s.callOf a = some c)
    (ip : IpAddr) : c.op ≠ .getTlsFailureCount ip := by
  unfold System.callOf at hc
  obtain ⟨⟨m, c'⟩, hbind, rfl⟩ := Option.map_eq_some_iff.mp hc
  obtain ⟨e, -, hcall⟩ := Option.bind_eq_some_iff.mp hbind
  cases e with
  | isBlacklisted manager j => cases hcall; exact Op.noConfusion
  | checkAndRecordRequest manager j => cases hcall; exact Op.noConfusion
  | recordTlsFailure manager j => cases hcall; exact Op.noConfusion
  | _ => cases hcall

variable [CaseMapping]

/-- At every moment of a run the security manager remembers exactly the last minute before
its latest sweep. -/
theorem security_memory_exact {env : Environment} {config : Config} {server : ServerState}
    (hstart : ServerState.new env config = .returned (.ok server)) (actions : List Action)
    (hrep : Representable (((System.start server).after actions).now +
      (settingsOf config.security).banDuration)) :
    ∃ inner, ((System.start server).after actions).server.heap.managers
        server.config.securityManager = ⟨inner, false⟩ ∧
      Keeps (settingsOf config.security) ((System.start server).calls actions)
        (lastSweep ((System.start server).calls actions)) inner := by
  have hguarded := after_guarded hstart actions
  rw [hguarded.state]
  refine run_keeps hguarded.sorted (noOverflow_of_horizon hrep hguarded.past) ?_
  intro c hc
  obtain ⟨v, -, hcall⟩ := List.mem_filterMap.mp hc
  exact callOf_uncounted hcall

end Memory

section Example
open ListCrates

theorem scans_remembered :
    ∃ inner, ((System.start secureServer).after scans).server.heap.managers
        secureServer.config.securityManager = ⟨inner, false⟩ ∧
      inner.tlsFailures scannerAddr.ip = some [0, 0, 0, 0, 0, 0] ∧
      inner.requestTracker scannerAddr.ip = none := by
  have hrep : Representable (((System.start secureServer).after scans).now +
      (settingsOf secureConfig.security).banDuration) := by decide +kernel
  obtain ⟨inner, heq, hkeeps⟩ := security_memory_exact new_secure scans hrep
  refine ⟨inner, heq, ?_, ?_⟩
  · rw [hkeeps.failures]
    decide +kernel
  · rw [hkeeps.requests]
    decide +kernel

end Example

end BarebonesProxy.Running
