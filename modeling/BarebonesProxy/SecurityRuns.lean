import BarebonesProxy.SecurityHistory

set_option autoImplicit false

/-!
# Runs of the security manager

`call_simulates` and `call_overflow` say what one call does, `run_state` what a
whole run leaves behind. The exact answers of the trackers and of the blacklist
follow from them.
-/
namespace BarebonesProxy.SecurityHistory
open RustNet RustState SlidingWindow Security

def verdict (limit n : ℕ) : Except ℕ ℕ := if limit < n then .error n else .ok n

def Answers (s : Settings) (before : List Call) (c : Call) (reply : Reply) : Prop :=
  match c.op with
  | .recordTlsFailure _ =>
    reply = .bool (decide (s.maxTlsFailures < windowCount c.op (before ++ [c]) c.time))
  | .checkAndRecordRequest _ =>
    s.rateLimitRpm ≠ 0 →
      reply = .admission (verdict s.rateLimitRpm (windowCount c.op (before ++ [c]) c.time))
  | .isBlacklisted ip =>
    ∃ v, reply = .bool v ∧ (v = true ↔ ∃ b, Bans s before ip b ∧ c.time < b + s.banDuration)
  | .getTlsFailureCount ip =>
    reply = .count (windowCount (.recordTlsFailure ip) before c.time)
  | .addToBlacklist _ => reply = .unit

section Step
variable {s : Settings} {calls : List Call} {c : Call} {ip : IpAddr}
  {inner : SecurityManagerInner}

theorem bansAt_record (hop : c.op = .recordTlsFailure ip)
    (hmax : s.maxTlsFailures < windowCount c.op (calls ++ [c]) c.time) (j : IpAddr) :
    BansAt s calls c j ↔ j = ip := by
  rw [hop] at hmax
  constructor
  · rintro (h | ⟨h, -⟩)
    · simp [hop] at h
    · simpa [hop, eq_comm] using h
  · rintro rfl
    exact .inr ⟨hop, by rwa [hop]⟩

theorem bansAt_add (hop : c.op = .addToBlacklist ip) (j : IpAddr) :
    BansAt s calls c j ↔ j = ip := by
  constructor
  · rintro (h | ⟨h, -⟩)
    · simpa [hop, eq_comm] using h
    · simp [hop] at h
  · rintro rfl
    exact .inl hop

theorem not_bansAt (hr : ∀ j, c.op ≠ .recordTlsFailure j) (ha : ∀ j, c.op ≠ .addToBlacklist j)
    (j : IpAddr) : ¬ BansAt s calls c j := by
  rintro (h | ⟨h, -⟩)
  · exact ha j h
  · exact hr j h

def pushFailure (guard : SecurityManagerInner) (now : ℕ) (ip : IpAddr) : SecurityManagerInner :=
  { guard with
    tlsFailures := guard.tlsFailures.insert ip
      (retainRecent now ((guard.tlsFailures ip).getD []) ++ [now]) }

def pushRequest (guard : SecurityManagerInner) (now : ℕ) (ip : IpAddr) : SecurityManagerInner :=
  { guard with
    requestTracker := guard.requestTracker.insert ip
      (retainRecent now ((guard.requestTracker ip).getD []) ++ [now]) }

def setBan (guard : SecurityManagerInner) (ip : IpAddr) (bannedUntil : ℕ) :
    SecurityManagerInner :=
  { guard with blacklist := guard.blacklist.insert ip bannedUntil }

theorem Simulates.failure {guard : SecurityManagerInner} (h : Simulates s calls c.time guard)
    (hop : c.op = .recordTlsFailure ip)
    (hmax : ¬ s.maxTlsFailures < windowCount c.op (calls ++ [c]) c.time) :
    Simulates s (calls ++ [c]) c.time (pushFailure guard c.time ip) :=
  { h with
    past := past_push h.past
    failures := h.failures.push_self hop fun i j he => Op.recordTlsFailure.inj he
    requests := fun hz => (h.requests hz).push_other fun j => by simp [hop]
    bans := h.bans.push_other (by
      rintro j (hb | ⟨-, hb⟩)
      · simp [hop] at hb
      · exact hmax hb) }

theorem Simulates.failureBan {guard : SecurityManagerInner}
    (h : Simulates s calls c.time guard) (hop : c.op = .recordTlsFailure ip)
    (hmax : s.maxTlsFailures < windowCount c.op (calls ++ [c]) c.time) :
    Simulates s (calls ++ [c]) c.time
      (setBan (pushFailure guard c.time ip) ip (c.time + s.banDuration)) :=
  { h with
    past := past_push h.past
    failures := h.failures.push_self hop fun i j he => Op.recordTlsFailure.inj he
    requests := fun hz => (h.requests hz).push_other fun j => by simp [hop]
    bans := h.bans.push_self h.past (bansAt_record hop hmax) }

theorem Simulates.ban {guard : SecurityManagerInner} (h : Simulates s calls c.time guard)
    (hop : c.op = .addToBlacklist ip) :
    Simulates s (calls ++ [c]) c.time (setBan guard ip (c.time + s.banDuration)) :=
  { h with
    past := past_push h.past
    failures := h.failures.push_other fun j => by simp [hop]
    requests := fun hz => (h.requests hz).push_other fun j => by simp [hop]
    bans := h.bans.push_self h.past (bansAt_add hop) }

theorem Simulates.request {guard : SecurityManagerInner} (h : Simulates s calls c.time guard)
    (hop : c.op = .checkAndRecordRequest ip) :
    Simulates s (calls ++ [c]) c.time (pushRequest guard c.time ip) :=
  { h with
    past := past_push h.past
    failures := h.failures.push_other fun j => by simp [hop]
    requests := fun hz =>
      (h.requests hz).push_self hop fun i j he => Op.checkAndRecordRequest.inj he
    bans := h.bans.push_other
      (not_bansAt (fun j => by simp [hop]) fun j => by simp [hop]) }

theorem Simulates.quiet {guard : SecurityManagerInner} (h : Simulates s calls c.time guard)
    (hr : ∀ j, c.op ≠ .recordTlsFailure j) (ha : ∀ j, c.op ≠ .addToBlacklist j)
    (hq : s.rateLimitRpm ≠ 0 → ∀ j, c.op ≠ .checkAndRecordRequest j) :
    Simulates s (calls ++ [c]) c.time guard :=
  { h with
    past := past_push h.past
    failures := h.failures.push_other hr
    requests := fun hz => (h.requests hz).push_other (hq hz)
    bans := h.bans.push_other (not_bansAt hr ha) }

theorem Simulates.observe {guard : SecurityManagerInner} (h : Simulates s calls c.time guard)
    (hop : (∃ ip, c.op = .isBlacklisted ip) ∨ ∃ ip, c.op = .getTlsFailureCount ip) :
    Simulates s (calls ++ [c]) c.time guard := by
  refine h.quiet ?_ ?_ fun _ => ?_
  all_goals
    intro j
    rcases hop with ⟨ip, hop⟩ | ⟨ip, hop⟩ <;> simp [hop]

theorem recordTlsFailure_simulates (h : Simulates s calls c.time inner)
    (hop : c.op = .recordTlsFailure ip) (ho : ¬ Overflows s calls c) :
    ∃ inner', recordTlsFailure ⟨inner, false⟩ c.time ip =
        (.returned (decide (s.maxTlsFailures < windowCount c.op (calls ++ [c]) c.time)),
          ⟨inner', false⟩) ∧
      Simulates s (calls ++ [c]) c.time inner' := by
  have hclean := h.cleanup
  have hcount := hclean.failures.count hop
  by_cases hmax : s.maxTlsFailures < windowCount c.op (calls ++ [c]) c.time
  · have hrep : Representable (c.time + s.banDuration) := by
      by_contra hrep
      exact ho ⟨⟨ip, (bansAt_record hop hmax ip).mpr rfl⟩, hrep⟩
    refine ⟨_, Lock.withExpect_returned ?_, hclean.failureBan hop hmax⟩
    simp only [hcount, hclean.maxTlsFailures, hmax, if_true, hclean.banDuration, addInstant,
      hrep, decide_true, setBan, pushFailure]
  · refine ⟨_, Lock.withExpect_returned ?_, hclean.failure hop hmax⟩
    simp only [hcount, hclean.maxTlsFailures, hmax, if_false, decide_false,
      pushFailure]

theorem recordTlsFailure_overflow (h : Simulates s calls c.time inner)
    (hop : c.op = .recordTlsFailure ip) (ho : Overflows s calls c) :
    ∃ inner', recordTlsFailure ⟨inner, false⟩ c.time ip = (.panicked, ⟨inner', true⟩) := by
  have hclean := h.cleanup
  have hcount := hclean.failures.count hop
  obtain ⟨⟨j, hj⟩, hrep⟩ := ho
  have hmax : s.maxTlsFailures < windowCount c.op (calls ++ [c]) c.time := by
    rcases hj with hj | ⟨-, hj⟩
    · simp [hop] at hj
    · exact hj
  refine ⟨pushFailure (inner.cleanup c.time) c.time ip,
    Lock.withExpect_panicked ?_⟩
  simp only [hcount, hclean.maxTlsFailures, hmax, if_true, hclean.banDuration, addInstant,
    hrep, if_false, pushFailure]

theorem checkAndRecordRequest_simulates (h : Simulates s calls c.time inner)
    (hop : c.op = .checkAndRecordRequest ip) :
    ∃ value inner', checkAndRecordRequest ⟨inner, false⟩ c.time ip =
        (.returned value, ⟨inner', false⟩) ∧
      Answers s calls c (.admission value) ∧ Simulates s (calls ++ [c]) c.time inner' := by
  have hclean := h.cleanup
  by_cases hz : s.rateLimitRpm = 0
  · refine ⟨.ok 0, _, Lock.withExpect_returned ?_, ?_,
      hclean.quiet (fun j => by simp [hop]) (fun j => by simp [hop]) (absurd hz)⟩
    · simp only [hclean.rateLimitRpm, hz, if_true]
    · simp only [Answers, hop]
      exact fun hne => absurd hz hne
  · have hcount := (hclean.requests hz).count hop
    refine ⟨verdict s.rateLimitRpm (windowCount c.op (calls ++ [c]) c.time), _,
      Lock.withExpect_returned ?_, ?_, hclean.request hop⟩
    · simp only [hclean.rateLimitRpm, hz, if_false, hcount, pushRequest, verdict]
    · simp only [Answers, hop]
      exact fun _ => trivial

theorem isBlacklisted_simulates (h : Simulates s calls c.time inner)
    (hop : c.op = .isBlacklisted ip) :
    ∃ value inner', isBlacklisted ⟨inner, false⟩ c.time ip = (.returned value, ⟨inner', false⟩) ∧
      Answers s calls c (.bool value) ∧ Simulates s (calls ++ [c]) c.time inner' := by
  have hpush : ∀ guard, Simulates s calls c.time guard →
      Simulates s (calls ++ [c]) c.time guard := fun guard hg => hg.observe (.inl ⟨ip, hop⟩)
  have hbans := h.bans ip c.time le_rfl
  cases hb : inner.blacklist ip with
  | none =>
    refine ⟨false, inner, Lock.withExpect_returned (by simp only [hb]), ?_, hpush _ h⟩
    simp only [hb, reduceCtorEq, false_and, exists_false, false_iff] at hbans
    simp only [Answers, hop]
    exact ⟨false, rfl, by simpa using hbans⟩
  | some u =>
    simp only [hb, Option.some.injEq, exists_eq_left'] at hbans
    by_cases hu : c.time < u
    · refine ⟨true, inner, Lock.withExpect_returned (by simp only [hb, hu, if_true]), ?_,
        hpush _ h⟩
      simp only [Answers, hop]
      exact ⟨true, rfl, by simpa using hbans.mp hu⟩
    · refine ⟨false, { inner with blacklist := inner.blacklist.remove ip },
        Lock.withExpect_returned (by simp only [hb, hu, if_false]), ?_,
        hpush _ { h with bans := h.bans.remove hb hu }⟩
      simp only [Answers, hop]
      exact ⟨false, rfl, by simpa using (not_congr hbans).mp hu⟩

theorem getTlsFailureCount_simulates (h : Simulates s calls c.time inner)
    (hop : c.op = .getTlsFailureCount ip) :
    ∃ inner', getTlsFailureCount ⟨inner, false⟩ c.time ip =
        (.returned (windowCount (.recordTlsFailure ip) calls c.time), ⟨inner', false⟩) ∧
      Simulates s (calls ++ [c]) c.time inner' := by
  have hnow := h.failures ip c.time le_rfl
  cases hf : inner.tlsFailures ip with
  | none =>
    rw [hf] at hnow
    refine ⟨inner, Lock.withExpect_returned ?_, h.observe (.inr ⟨ip, hop⟩)⟩
    simp only [hf, windowCount, ← hnow]
    rfl
  | some ts =>
    rw [hf] at hnow
    have hlen : (retainRecent c.time ts).length =
        windowCount (.recordTlsFailure ip) calls c.time := congrArg List.length hnow
    have hpruned : Simulates s calls c.time { inner with
        tlsFailures := if (retainRecent c.time ts).length = 0 then inner.tlsFailures.remove ip
          else inner.tlsFailures.insert ip (retainRecent c.time ts) } :=
      { h with failures := h.failures.pruneOne hf }
    refine ⟨_, Lock.withExpect_returned ?_, hpruned.observe (.inr ⟨ip, hop⟩)⟩
    simp only [hf, hlen]

theorem addToBlacklist_simulates (h : Simulates s calls c.time inner)
    (hop : c.op = .addToBlacklist ip) (ho : ¬ Overflows s calls c) :
    ∃ inner', addToBlacklist ⟨inner, false⟩ c.time ip = (.returned (), ⟨inner', false⟩) ∧
      Simulates s (calls ++ [c]) c.time inner' := by
  have hrep : Representable (c.time + s.banDuration) := by
    by_contra hrep
    exact ho ⟨⟨ip, .inl hop⟩, hrep⟩
  refine ⟨_, Lock.withExpect_returned ?_, h.ban hop⟩
  simp only [h.banDuration, addInstant, hrep, if_true, setBan]

theorem addToBlacklist_overflow (h : Simulates s calls c.time inner) (ho : Overflows s calls c) :
    addToBlacklist ⟨inner, false⟩ c.time ip = (.panicked, ⟨inner, true⟩) := by
  apply Lock.withExpect_panicked
  simp only [h.banDuration, addInstant, ho.2, if_false]

/-- One call whose ban, if any, has a representable end: it returns the answer of the
log, and the maps stand for the longer log. -/
theorem call_simulates (h : Simulates s calls c.time inner) (ho : ¬ Overflows s calls c) :
    ∃ reply inner', call ⟨inner, false⟩ c = (.returned reply, ⟨inner', false⟩) ∧
      Answers s calls c reply ∧ Simulates s (calls ++ [c]) c.time inner' := by
  cases hop : c.op with
  | recordTlsFailure ip =>
    obtain ⟨inner', hr, hs⟩ := recordTlsFailure_simulates h hop ho
    refine ⟨.bool (decide (s.maxTlsFailures < windowCount c.op (calls ++ [c]) c.time)), inner',
      ?_, ?_, hs⟩
    · simp only [call, hop] at hr ⊢
      rw [hr]
      rfl
    · simp only [Answers, hop]
  | checkAndRecordRequest ip =>
    obtain ⟨value, inner', hr, ha, hs⟩ := checkAndRecordRequest_simulates h hop
    exact ⟨.admission value, inner', by simp only [call, hop, hr, tagged], ha, hs⟩
  | isBlacklisted ip =>
    obtain ⟨value, inner', hr, ha, hs⟩ := isBlacklisted_simulates h hop
    exact ⟨.bool value, inner', by simp only [call, hop, hr, tagged], ha, hs⟩
  | getTlsFailureCount ip =>
    obtain ⟨inner', hr, hs⟩ := getTlsFailureCount_simulates h hop
    exact ⟨.count (windowCount (.recordTlsFailure ip) calls c.time), inner',
      by simp only [call, hop, hr, tagged], by simp only [Answers, hop], hs⟩
  | addToBlacklist ip =>
    obtain ⟨inner', hr, hs⟩ := addToBlacklist_simulates h hop ho
    exact ⟨.unit, inner', by simp only [call, hop, hr, tagged], by simp only [Answers, hop], hs⟩

theorem call_overflow (h : Simulates s calls c.time inner) (ho : Overflows s calls c) :
    ∃ inner', call ⟨inner, false⟩ c = (.panicked, ⟨inner', true⟩) := by
  obtain ⟨⟨ip, hb | ⟨hb, -⟩⟩, -⟩ := id ho
  · exact ⟨inner, by simp only [call, hb, addToBlacklist_overflow h ho, tagged]⟩
  · obtain ⟨inner', hr⟩ := recordTlsFailure_overflow h hb ho
    exact ⟨inner', by simp only [call, hb, hr, tagged]⟩

theorem call_poisoned {m : SecurityManager} (h : m.poisoned = true) (c : Call) :
    call m c = (.panicked, m) := by
  cases hop : c.op <;>
    simp only [call, hop, recordTlsFailure, checkAndRecordRequest, isBlacklisted,
      getTlsFailureCount, addToBlacklist, Lock.withExpect_poisoned _ h, tagged]

end Step

/-- What a run leaves: the maps of the log, or a poisoned lock after an overflow. -/
def RunState (s : Settings) (calls : List Call) (m : SecurityManager) : Prop :=
  (NoOverflow s calls ∧ ∃ inner, m = ⟨inner, false⟩ ∧
      ∀ now, (∀ c ∈ calls, c.time ≤ now) → Simulates s calls now inner) ∨
    ¬ NoOverflow s calls ∧ m.poisoned = true

theorem run_state (s : Settings) (calls : List Call) (hsort : Sorted calls) :
    RunState s calls (after s.manager calls) := by
  induction calls using List.reverseRecOn with
  | nil => exact .inl ⟨noOverflow_nil s, _, rfl, fun now _ => simulates_initial s now⟩
  | append_singleton before c ih =>
    obtain ⟨hbefore, hpast⟩ := sorted_push hsort
    rw [after_push]
    rcases ih hbefore with ⟨hno, inner, hm, hsim⟩ | ⟨hover, hp⟩
    · have hnow := hsim c.time hpast
      rw [hm]
      by_cases ho : Overflows s before c
      · obtain ⟨inner', hc⟩ := call_overflow hnow ho
        exact .inr ⟨fun h => ((noOverflow_push ..).mp h).2 ho, by rw [hc]⟩
      · obtain ⟨reply, inner', hc, -, hs⟩ := call_simulates hnow ho
        refine .inl ⟨(noOverflow_push ..).mpr ⟨hno, ho⟩, inner', by rw [hc], ?_⟩
        intro now hle
        exact hs.later (hle c (by simp))
    · rw [call_poisoned hp]
      exact .inr ⟨fun h => hover ((noOverflow_push ..).mp h).1, hp⟩

/-- As long as no ban overflowed, every call of a run returns what the log says. -/
theorem result_answers (s : Settings) (before : List Call) (c : Call)
    (hsort : Sorted (before ++ [c])) (ho : NoOverflow s (before ++ [c])) :
    ∃ reply, resultAfter s.manager before c = .returned reply ∧ Answers s before c reply := by
  obtain ⟨hbefore, hpast⟩ := sorted_push hsort
  obtain ⟨hno, hc⟩ := (noOverflow_push ..).mp ho
  rcases run_state s before hbefore with ⟨-, inner, hm, hsim⟩ | ⟨hover, -⟩
  · obtain ⟨reply, inner', hcall, ha, -⟩ := call_simulates (hsim c.time hpast) hc
    exact ⟨reply, by rw [resultAfter, hm, hcall], ha⟩
  · exact absurd hno hover

/-- From the first overflow on, every call panics. -/
theorem result_panicked (s : Settings) (before : List Call) (c : Call)
    (hsort : Sorted (before ++ [c])) (ho : ¬ NoOverflow s (before ++ [c])) :
    resultAfter s.manager before c = .panicked := by
  obtain ⟨hbefore, hpast⟩ := sorted_push hsort
  rcases run_state s before hbefore with ⟨hno, inner, hm, hsim⟩ | ⟨-, hp⟩
  · have hc : Overflows s before c := by
      by_contra hc
      exact ho ((noOverflow_push ..).mpr ⟨hno, hc⟩)
    obtain ⟨inner', hcall⟩ := call_overflow (hsim c.time hpast) hc
    rw [resultAfter, hm, hcall]
  · rw [resultAfter, call_poisoned hp]

end BarebonesProxy.SecurityHistory
