import BarebonesProxy.SecurityRuns

set_option autoImplicit false

/-!
# The trackers answer from the whole history

Exactness of the rolling counts over a run, with its two consequences: a bound on
what a closed window admits, and independence of other addresses.
-/
namespace BarebonesProxy.SecurityHistory
open RustNet RustState SlidingWindow Security

def callsIn (op : Op) (run : List Call) (first last : ℕ) : ℕ :=
  (run.filter fun c => decide (c.op = op ∧ first ≤ c.time ∧ c.time ≤ last)).length

theorem callsIn_eq_windowCount {run : List Call} {now : ℕ} (op : Op)
    (hpast : ∀ c ∈ run, c.time ≤ now) :
    callsIn op run (now - rollingWindow) now = windowCount op run now := by
  unfold callsIn windowCount recent timesOf
  rw [List.filter_map, List.length_map, List.filter_filter]
  congr 1
  apply List.filter_congr
  intro c hc
  have hle := hpast c hc
  have hiff : now - rollingWindow ≤ c.time ↔ now - c.time ≤ rollingWindow := by omega
  by_cases hop : c.op = op <;> simp [hop, hle, hiff, fresh]

def isTracked : Op → Bool
  | .recordTlsFailure _ | .checkAndRecordRequest _ | .getTlsFailureCount _ => true
  | .isBlacklisted _ | .addToBlacklist _ => false

/-- The call `c` after `before` returns the count of the last 60 seconds of the run, or
the decision taken on it. -/
def CountsExactly (s : Settings) (before : List Call) (c : Call) : Prop :=
  let count := fun op => callsIn op (before ++ [c]) (c.time - rollingWindow) c.time
  match c.op with
  | .checkAndRecordRequest _ => resultAfter s.manager before c =
      .returned (.admission (if count c.op ≤ s.rateLimitRpm then .ok (count c.op)
        else .error (count c.op)))
  | .recordTlsFailure _ => resultAfter s.manager before c =
      .returned (.bool (decide (s.maxTlsFailures < count c.op)))
  | .getTlsFailureCount ip => resultAfter s.manager before c =
      .returned (.count (count (.recordTlsFailure ip)))
  | .isBlacklisted _ | .addToBlacklist _ => True

theorem countsExactly_of_noOverflow {s : Settings} {before : List Call} {c : Call}
    (hL : 1 ≤ s.rateLimitRpm) (hsort : Sorted (before ++ [c]))
    (ho : NoOverflow s (before ++ [c])) : CountsExactly s before c := by
  obtain ⟨reply, hr, ha⟩ := result_answers s before c hsort ho
  have hpast := past_push (sorted_push hsort).2
  unfold CountsExactly
  simp only [callsIn_eq_windowCount _ hpast]
  cases hop : c.op with
  | recordTlsFailure ip =>
    simp only [Answers, hop] at ha
    simp only [hr, ha]
  | checkAndRecordRequest ip =>
    simp only [Answers, hop] at ha
    simp only [hr, ha (by omega), verdict]
    split_ifs <;> first | rfl | omega
  | isBlacklisted ip => trivial
  | getTlsFailureCount ip =>
    simp only [Answers, hop] at ha
    simp only [hr, ha, windowCount]
    rw [timesOf_push_ne _ (by simp [hop])]
  | addToBlacklist ip => trivial

theorem noOverflow_of_countsExactly {s : Settings} {before : List Call} {c : Call}
    (hsort : Sorted (before ++ [c])) (htracked : isTracked c.op = true)
    (h : CountsExactly s before c) : NoOverflow s (before ++ [c]) := by
  by_contra ho
  have hp := result_panicked s before c hsort ho
  unfold CountsExactly at h
  cases hop : c.op with
  | recordTlsFailure ip | checkAndRecordRequest ip | getTlsFailureCount ip =>
    simp [hop, hp] at h
  | isBlacklisted ip | addToBlacklist ip => simp [hop, isTracked] at htracked

def trace (m : SecurityManager) : List Call → List (Call × Outcome Reply)
  | [] => []
  | c :: rest => (c, (call m c).1) :: trace (call m c).2 rest

theorem trace_push (m : SecurityManager) (before : List Call) (c : Call) :
    trace m (before ++ [c]) = trace m before ++ [(c, resultAfter m before c)] := by
  induction before generalizing m with
  | nil => rfl
  | cons d rest ih =>
    rw [List.cons_append, trace, ih, trace]
    rfl

/-- A logged call that imposed a ban on `ip`, told by its own reply. -/
def ImposedBan (ip : IpAddr) (e : Call × Outcome Reply) : Prop :=
  e.1.op = .addToBlacklist ip ∨ e.1.op = .recordTlsFailure ip ∧ e.2 = .returned (.bool true)

theorem bansAt_iff_imposedBan {s : Settings} {before : List Call} {c : Call}
    (hsort : Sorted (before ++ [c])) (ho : NoOverflow s (before ++ [c])) (ip : IpAddr) :
    BansAt s before c ip ↔ ImposedBan ip (c, resultAfter s.manager before c) := by
  obtain ⟨reply, hr, ha⟩ := result_answers s before c hsort ho
  unfold BansAt ImposedBan
  apply or_congr_right
  apply and_congr_right
  intro hop
  simp only [Answers, hop] at ha
  simp only [hr, ha, hop, Outcome.returned.injEq, Reply.bool.injEq, decide_eq_true_eq]

theorem bans_iff_trace {s : Settings} {calls : List Call} (hsort : Sorted calls)
    (ho : NoOverflow s calls) (ip : IpAddr) (b : ℕ) :
    Bans s calls ip b ↔ ∃ e ∈ trace s.manager calls, ImposedBan ip e ∧ e.1.time = b := by
  induction calls using List.reverseRecOn with
  | nil => simp [Bans, trace]
  | append_singleton before c ih =>
    have hbefore := ih (sorted_push hsort).1 ((noOverflow_push ..).mp ho).1
    rw [bans_push, hbefore, trace_push, bansAt_iff_imposedBan hsort ho]
    simp only [List.mem_append, List.mem_singleton, or_and_right, exists_or, exists_eq_left]

theorem blacklisted_iff {s : Settings} {before : List Call} {now : ℕ} {ip : IpAddr}
    (hsort : Sorted (before ++ [⟨now, .isBlacklisted ip⟩])) (ho : NoOverflow s before) :
    ∃ banned, resultAfter s.manager before ⟨now, .isBlacklisted ip⟩ = .returned (.bool banned) ∧
      (banned = true ↔ ∃ e ∈ trace s.manager before, ImposedBan ip e ∧
        e.1.time ≤ now ∧ now < e.1.time + s.banDuration) := by
  obtain ⟨hbefore, hpast⟩ := sorted_push hsort
  have hno : NoOverflow s (before ++ [⟨now, .isBlacklisted ip⟩]) := by
    rw [noOverflow_push]
    refine ⟨ho, fun hover => ?_⟩
    obtain ⟨⟨j, hj⟩, -⟩ := hover
    exact not_bansAt (by simp) (by simp) j hj
  obtain ⟨reply, hr, banned, hreply, hban⟩ := result_answers s before _ hsort hno
  refine ⟨banned, by rw [hr, hreply], ?_⟩
  rw [hban]
  constructor
  · rintro ⟨b, hb, hlt⟩
    have hle := hb.time_le hpast
    obtain ⟨e, he, himp, rfl⟩ := (bans_iff_trace hbefore ho ip b).mp hb
    exact ⟨e, he, himp, hle, hlt⟩
  · rintro ⟨e, he, himp, -, hlt⟩
    exact ⟨e.1.time, (bans_iff_trace hbefore ho ip _).mpr ⟨e, he, himp, rfl⟩, hlt⟩

def isAdmitted : Outcome Reply → Bool
  | .returned (.admission (.ok _)) => true
  | _ => false

def admittedRequests (s : Settings) (calls : List Call) (ip : IpAddr) (start : ℕ) : ℕ :=
  ((trace s.manager calls).filter fun e => decide (e.1.op = .checkAndRecordRequest ip) &&
    (isAdmitted e.2 && decide (start ≤ e.1.time ∧ e.1.time ≤ start + rollingWindow))).length

def requestEvents (s : Settings) (calls : List Call) (ip : IpAddr) : List (ℕ × Bool) :=
  ((trace s.manager calls).filter fun e => e.1.op = .checkAndRecordRequest ip).map
    fun e => (e.1.time, isAdmitted e.2)

theorem requestEvents_push (s : Settings) (before : List Call) (c : Call) (ip : IpAddr) :
    requestEvents s (before ++ [c]) ip = requestEvents s before ip ++
      if c.op = .checkAndRecordRequest ip then
        [(c.time, isAdmitted (resultAfter s.manager before c))] else [] := by
  by_cases h : c.op = .checkAndRecordRequest ip <;> simp [requestEvents, trace_push, h]

theorem requestEvents_times (s : Settings) (calls : List Call) (ip : IpAddr) :
    (requestEvents s calls ip).map Prod.fst = timesOf (.checkAndRecordRequest ip) calls := by
  induction calls using List.reverseRecOn with
  | nil => rfl
  | append_singleton before c ih =>
    rw [requestEvents_push, timesOf_push, List.map_append, ih]
    by_cases h : c.op = .checkAndRecordRequest ip <;> simp [h]

theorem timesOf_sorted {calls : List Call} (op : Op) (h : Sorted calls) :
    (timesOf op calls).Pairwise (· ≤ ·) := by
  unfold timesOf
  rw [List.pairwise_map]
  exact h.filter _

theorem admitted_count {s : Settings} {before : List Call} {c : Call} {ip : IpAddr}
    (hL : 1 ≤ s.rateLimitRpm) (hsort : Sorted (before ++ [c]))
    (hop : c.op = .checkAndRecordRequest ip)
    (hadm : isAdmitted (resultAfter s.manager before c) = true) :
    windowCount c.op (before ++ [c]) c.time ≤ s.rateLimitRpm := by
  by_cases ho : NoOverflow s (before ++ [c])
  · obtain ⟨reply, hr, ha⟩ := result_answers s before c hsort ho
    simp only [Answers, hop] at ha
    rw [hr, ha (by omega)] at hadm
    rw [hop]
    by_contra hlt
    simp [verdict, not_le.mp hlt, isAdmitted] at hadm
  · rw [result_panicked s before c hsort ho] at hadm
    cases hadm

theorem requestEvents_checked {s : Settings} {calls : List Call} (hL : 1 ≤ s.rateLimitRpm)
    (hsort : Sorted calls) (ip : IpAddr) (before : List (ℕ × Bool)) (t : ℕ)
    (hp : before ++ [(t, true)] <+: requestEvents s calls ip) :
    (recent rollingWindow t (before.map Prod.fst ++ [t])).length ≤ s.rateLimitRpm := by
  induction calls using List.reverseRecOn with
  | nil => simp [requestEvents, trace] at hp
  | append_singleton pre c ih =>
    have hpre := ih (sorted_push hsort).1
    rw [requestEvents_push] at hp
    by_cases hop : c.op = .checkAndRecordRequest ip
    · rw [if_pos hop] at hp
      rcases List.prefix_concat_iff.mp hp with heq | hp
      · obtain ⟨hb, he⟩ := List.append_singleton_inj.mp heq
        obtain ⟨rfl, hadm⟩ := Prod.mk.inj he
        have hcount := admitted_count hL hsort hop hadm.symm
        rw [windowCount, timesOf_push_self, hop] at hcount
        rw [hb, requestEvents_times]
        exact hcount
      · exact hpre hp
    · rw [if_neg hop, List.append_nil] at hp
      exact hpre hp

theorem admittedRequests_le {s : Settings} {calls : List Call} (hL : 1 ≤ s.rateLimitRpm)
    (hsort : Sorted calls) (ip : IpAddr) (start : ℕ) :
    admittedRequests s calls ip start ≤ s.rateLimitRpm := by
  have hevents : (requestEvents s calls ip).Pairwise fun x y => x.1 ≤ y.1 := by
    have htimes := timesOf_sorted (.checkAndRecordRequest ip) hsort
    rw [← requestEvents_times s, List.pairwise_map] at htimes
    exact htimes
  have hbound := admitted_le (requestEvents s calls ip) hevents
    (requestEvents_checked hL hsort ip) start
  have hsame : admittedRequests s calls ip start =
      ((requestEvents s calls ip).filter (admittedIn rollingWindow start)).length := by
    rw [requestEvents, List.filter_map, List.length_map, List.filter_filter, admittedRequests]
    congr 1
    apply List.filter_congr
    intro e _
    simp only [Function.comp, admittedIn]
    rw [Bool.and_comm]
  rw [hsame]
  exact hbound

def onlyOf (ip : IpAddr) (calls : List Call) : List Call :=
  calls.filter fun c => c.op.ip = ip

theorem onlyOf_push (ip : IpAddr) (calls : List Call) (c : Call) :
    onlyOf ip (calls ++ [c]) = onlyOf ip calls ++ if c.op.ip = ip then [c] else [] := by
  by_cases h : c.op.ip = ip <;> simp [onlyOf, h]

theorem onlyOf_push_self (calls : List Call) (c : Call) :
    onlyOf c.op.ip (calls ++ [c]) = onlyOf c.op.ip calls ++ [c] := by
  simp [onlyOf_push]

theorem timesOf_onlyOf {op : Op} {ip : IpAddr} (h : op.ip = ip) (calls : List Call) :
    timesOf op (onlyOf ip calls) = timesOf op calls := by
  unfold timesOf onlyOf
  rw [List.filter_filter]
  congr 1
  apply List.filter_congr
  intro c _
  by_cases hop : c.op = op <;> simp [hop, h]

theorem callsIn_onlyOf {op : Op} {ip : IpAddr} (h : op.ip = ip) (calls : List Call)
    (first last : ℕ) : callsIn op (onlyOf ip calls) first last = callsIn op calls first last := by
  unfold callsIn onlyOf
  rw [List.filter_filter]
  congr 1
  apply List.filter_congr
  intro c _
  by_cases hop : c.op = op <;> simp [hop, h]

theorem bansAt_onlyOf {s : Settings} {calls : List Call} {c : Call} {ip j : IpAddr}
    (hc : c.op.ip = ip) (h : BansAt s (onlyOf ip calls) c j) : BansAt s calls c j := by
  have htimes := timesOf_onlyOf hc (calls ++ [c])
  rw [onlyOf_push, if_pos hc] at htimes
  unfold BansAt windowCount at h ⊢
  rw [htimes] at h
  exact h

theorem noOverflow_onlyOf {s : Settings} {calls : List Call} (ip : IpAddr)
    (h : NoOverflow s calls) : NoOverflow s (onlyOf ip calls) := by
  induction calls using List.reverseRecOn with
  | nil => exact h
  | append_singleton before c ih =>
    obtain ⟨hbefore, hc⟩ := (noOverflow_push ..).mp h
    rw [onlyOf_push]
    by_cases hip : c.op.ip = ip
    · rw [if_pos hip, noOverflow_push]
      refine ⟨ih hbefore, ?_⟩
      intro ho
      obtain ⟨⟨j, hb⟩, hrep⟩ := ho
      exact hc ⟨⟨j, bansAt_onlyOf hip hb⟩, hrep⟩
    · rw [if_neg hip, List.append_nil]
      exact ih hbefore

/-- Calls about other addresses do not show in a tracked reply. -/
theorem result_onlyOf {s : Settings} {before : List Call} {c : Call}
    (hL : 1 ≤ s.rateLimitRpm) (hsort : Sorted (before ++ [c])) (hc : isTracked c.op = true)
    (ho : NoOverflow s (before ++ [c])) :
    resultAfter s.manager (onlyOf c.op.ip before) c = resultAfter s.manager before c := by
  have hall := countsExactly_of_noOverflow hL hsort ho
  have honly : CountsExactly s (onlyOf c.op.ip before) c := by
    apply countsExactly_of_noOverflow hL
    · rw [← onlyOf_push_self]
      exact hsort.filter _
    · rw [← onlyOf_push_self]
      exact noOverflow_onlyOf _ ho
  have hcount : ∀ op : Op, op.ip = c.op.ip → ∀ first last,
      callsIn op (onlyOf c.op.ip before ++ [c]) first last = callsIn op (before ++ [c]) first last := by
    intro op hip first last
    rw [← onlyOf_push_self, callsIn_onlyOf hip]
  unfold CountsExactly at hall honly
  cases hop : c.op with
  | recordTlsFailure ip =>
    simp only [hop] at hall honly hcount
    rw [hall, honly, hcount (.recordTlsFailure ip) rfl]
  | checkAndRecordRequest ip =>
    simp only [hop] at hall honly hcount
    rw [hall, honly, hcount (.checkAndRecordRequest ip) rfl]
  | getTlsFailureCount ip =>
    simp only [hop] at hall honly hcount
    rw [hall, honly, hcount (.recordTlsFailure ip) rfl]
  | isBlacklisted ip | addToBlacklist ip =>
    rw [hop] at hc
    cases hc

/-- The window trackers refine the full history of the run: counts are exact, a closed
window admits at most the limit, and other addresses are invisible. -/
def RefinesHistory (s : Settings) (calls : List Call) : Prop :=
  (∀ before c, before ++ [c] <+: calls → CountsExactly s before c) ∧
  (∀ ip start, admittedRequests s calls ip start ≤ s.rateLimitRpm) ∧
  ∀ before c, before ++ [c] <+: calls → isTracked c.op = true →
    resultAfter s.manager (onlyOf c.op.ip before) c = resultAfter s.manager before c

/-- Up to each tracked call, every ban of the run ends at an instant the clock can represent. -/
def BansRepresentable (s : Settings) (calls : List Call) : Prop :=
  ∀ before c, before ++ [c] <+: calls → isTracked c.op = true → NoOverflow s (before ++ [c])

theorem refinesHistory_iff (s : Settings) (calls : List Call) (hL : 1 ≤ s.rateLimitRpm)
    (hsort : Sorted calls) : RefinesHistory s calls ↔ BansRepresentable s calls := by
  have hpre : ∀ {before c}, before ++ [c] <+: calls → Sorted (before ++ [c]) :=
    fun hp => hsort.sublist hp.sublist
  constructor
  · intro h before c hp hc
    exact noOverflow_of_countsExactly (hpre hp) hc (h.1 before c hp)
  · intro h
    refine ⟨?_, admittedRequests_le hL hsort, ?_⟩
    · intro before c hp
      by_cases hc : isTracked c.op = true
      · exact countsExactly_of_noOverflow hL (hpre hp) (h before c hp hc)
      · unfold CountsExactly
        cases hop : c.op with
        | isBlacklisted ip | addToBlacklist ip => trivial
        | recordTlsFailure ip | checkAndRecordRequest ip | getTlsFailureCount ip =>
          simp [hop, isTracked] at hc
    · intro before c hp hc
      exact result_onlyOf hL (hpre hp) hc (h before c hp hc)

theorem noOverflow_of_times {s : Settings} {calls : List Call}
    (h : ∀ c ∈ calls, Representable (c.time + s.banDuration)) : NoOverflow s calls := by
  intro before c hp ho
  have hmem : c ∈ calls := hp.subset (by simp)
  exact ho.2 (h c hmem)

def someIp (d : UInt8) : IpAddr := .v4 ⟨10, 0, 0, d⟩

theorem refinesHistory_two_clients :
    let s : Settings := ⟨fromSecs 3600, 0, 1⟩
    let calls : List Call := [⟨0, .checkAndRecordRequest (someIp 1)⟩,
      ⟨5, .recordTlsFailure (someIp 2)⟩, ⟨fromSecs 60, .checkAndRecordRequest (someIp 1)⟩,
      ⟨fromSecs 61, .getTlsFailureCount (someIp 2)⟩]
    1 ≤ s.rateLimitRpm ∧ Sorted calls ∧ RefinesHistory s calls := by
  intro s calls
  have hsort : Sorted calls := by
    simp [calls, Sorted, fromSecs]
  have hreps : ∀ c ∈ calls, Representable (c.time + s.banDuration) := by decide
  refine ⟨le_rfl, hsort, ?_⟩
  rw [refinesHistory_iff s calls le_rfl hsort]
  intro before c hp _
  exact noOverflow_of_times fun d hd => hreps d (hp.subset hd)

/-- `ban_duration` may be any `u64`: the first ban overflows the clock and the call that
should report it panics. -/
theorem ban_end_overflow_panics :
    let s : Settings := ⟨fromSecs (2 ^ 64 - 1), 0, 3⟩
    let c : Call := ⟨0, .recordTlsFailure (someIp 1)⟩
    1 ≤ s.rateLimitRpm ∧ Sorted [c] ∧ resultAfter s.manager [] c = .panicked ∧
      ¬ RefinesHistory s [c] := by
  intro s c
  have hsort : Sorted [c] := List.pairwise_singleton ..
  have hover : Overflows s [] c := ⟨⟨someIp 1, .inr ⟨rfl, by decide⟩⟩, by decide⟩
  have hpanic : resultAfter s.manager [] c = .panicked :=
    result_panicked s [] c hsort fun h => h [] c (List.prefix_refl _) hover
  refine ⟨by decide, hsort, hpanic, ?_⟩
  intro h
  have hexact : resultAfter s.manager [] c = .returned _ := h.1 [] c (List.prefix_refl _)
  rw [hpanic] at hexact
  cases hexact

end BarebonesProxy.SecurityHistory
