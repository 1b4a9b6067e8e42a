import BarebonesProxy.Security

set_option autoImplicit false

/-!
# The security manager against the unbounded log of its calls

The abstract manager keeps every call and answers from the whole log. `Simulates`
relates the three maps to it: trackers by `Tracks`, bans by the instants at which
they still hold. A ban whose end is no `Instant` poisons the lock, and from then
on every call panics.
-/
namespace BarebonesProxy.SecurityHistory
open RustNet RustState SlidingWindow Security

structure Settings where
  banDuration : ℕ
  maxTlsFailures : ℕ
  rateLimitRpm : ℕ
deriving DecidableEq

def Settings.manager (s : Settings) : SecurityManager :=
  .new s.banDuration s.maxTlsFailures s.rateLimitRpm

def Sorted (calls : List Call) : Prop := calls.Pairwise fun x y => x.time ≤ y.time

def timesOf (op : Op) (calls : List Call) : List ℕ :=
  (calls.filter fun c => c.op = op).map Call.time

def windowCount (op : Op) (calls : List Call) (now : ℕ) : ℕ :=
  (recent rollingWindow now (timesOf op calls)).length

def BansAt (s : Settings) (before : List Call) (c : Call) (ip : IpAddr) : Prop :=
  c.op = .addToBlacklist ip ∨
    c.op = .recordTlsFailure ip ∧ s.maxTlsFailures < windowCount c.op (before ++ [c]) c.time

def Bans (s : Settings) (calls : List Call) (ip : IpAddr) (b : ℕ) : Prop :=
  ∃ before c, before ++ [c] <+: calls ∧ BansAt s before c ip ∧ c.time = b

/-- The ban that `c` imposes has no representable end. -/
def Overflows (s : Settings) (before : List Call) (c : Call) : Prop :=
  (∃ ip, BansAt s before c ip) ∧ ¬ Representable (c.time + s.banDuration)

def NoOverflow (s : Settings) (calls : List Call) : Prop :=
  ∀ before c, before ++ [c] <+: calls → ¬ Overflows s before c

theorem timesOf_push (op : Op) (calls : List Call) (c : Call) :
    timesOf op (calls ++ [c]) = timesOf op calls ++ if c.op = op then [c.time] else [] := by
  by_cases h : c.op = op <;> simp [timesOf, h]

theorem timesOf_push_ne {op : Op} {c : Call} (calls : List Call) (h : c.op ≠ op) :
    timesOf op (calls ++ [c]) = timesOf op calls := by
  simp [timesOf_push, h]

theorem timesOf_push_self (calls : List Call) (c : Call) :
    timesOf c.op (calls ++ [c]) = timesOf c.op calls ++ [c.time] := by
  simp [timesOf_push]

theorem bans_push (s : Settings) (calls : List Call) (c : Call) (ip : IpAddr) (b : ℕ) :
    Bans s (calls ++ [c]) ip b ↔ Bans s calls ip b ∨ BansAt s calls c ip ∧ c.time = b := by
  constructor
  · rintro ⟨before, c', hp, hb, ht⟩
    rcases List.prefix_concat_iff.mp hp with heq | hp
    · obtain ⟨rfl, rfl⟩ := List.append_singleton_inj.mp heq
      exact .inr ⟨hb, ht⟩
    · exact .inl ⟨before, c', hp, hb, ht⟩
  · rintro (⟨before, c', hp, hb, ht⟩ | ⟨hb, ht⟩)
    · exact ⟨before, c', hp.trans (List.prefix_append ..), hb, ht⟩
    · exact ⟨calls, c, List.prefix_refl _, hb, ht⟩

theorem noOverflow_push (s : Settings) (calls : List Call) (c : Call) :
    NoOverflow s (calls ++ [c]) ↔ NoOverflow s calls ∧ ¬ Overflows s calls c := by
  constructor
  · intro h
    exact ⟨fun before c' hp => h before c' (hp.trans (List.prefix_append ..)),
      h calls c (List.prefix_refl _)⟩
  · rintro ⟨h, hc⟩ before c' hp
    rcases List.prefix_concat_iff.mp hp with heq | hp
    · obtain ⟨rfl, rfl⟩ := List.append_singleton_inj.mp heq
      exact hc
    · exact h before c' hp

theorem noOverflow_nil (s : Settings) : NoOverflow s [] := by
  intro before c hp
  simp at hp

theorem Bans.time_le {s : Settings} {calls : List Call} {ip : IpAddr} {b now : ℕ}
    (h : Bans s calls ip b) (hnow : ∀ c ∈ calls, c.time ≤ now) : b ≤ now := by
  obtain ⟨before, c, hp, -, rfl⟩ := h
  exact hnow c (hp.subset (by simp))

theorem sorted_push {calls : List Call} {c : Call} (h : Sorted (calls ++ [c])) :
    Sorted calls ∧ ∀ c' ∈ calls, c'.time ≤ c.time := by
  obtain ⟨hs, -, hl⟩ := List.pairwise_append.mp h
  exact ⟨hs, fun c' hc => hl c' hc c (by simp)⟩

/-- The tracker shows, from `now` on, the logged calls `op ip` of every `ip`. -/
def HoldsTimes (op : IpAddr → Op) (calls : List Call) (now : ℕ)
    (tracker : HashMap IpAddr (List ℕ)) : Prop :=
  ∀ ip, Tracks rollingWindow now ((tracker ip).getD []) (timesOf (op ip) calls)

/-- The blacklist bans, from `now` on, exactly whom some logged ban still covers. -/
def HoldsBans (s : Settings) (calls : List Call) (now : ℕ)
    (blacklist : HashMap IpAddr ℕ) : Prop :=
  ∀ ip t, now ≤ t → ((∃ u, blacklist ip = some u ∧ t < u) ↔
    ∃ b, Bans s calls ip b ∧ t < b + s.banDuration)

section Trackers
variable {op : IpAddr → Op} {calls : List Call} {now : ℕ}
  {tracker : HashMap IpAddr (List ℕ)}

theorem sweep_getD (now : ℕ) (ts : Option (List ℕ)) :
    (ts.bind (sweep now)).getD [] = recent rollingWindow now (ts.getD []) := by
  cases ts with
  | none => rfl
  | some ts =>
    simp only [Option.bind_some, Option.getD_some, sweep, retainRecent_eq]
    by_cases h : (recent rollingWindow now ts).isEmpty = true
    · simp [List.isEmpty_iff.mp h]
    · simp [h]

theorem HoldsTimes.sweep (h : HoldsTimes op calls now tracker) :
    HoldsTimes op calls now (tracker.retain (Security.sweep now)) := by
  intro ip
  change Tracks _ _ (((tracker ip).bind (Security.sweep now)).getD []) _
  rw [sweep_getD]
  exact (h ip).prune

/-- A lookup prunes the times of one address, and drops an entry without any. -/
theorem HoldsTimes.pruneOne {ip : IpAddr} {ts : List ℕ} (h : HoldsTimes op calls now tracker)
    (hts : tracker ip = some ts) :
    HoldsTimes op calls now
      (if (retainRecent now ts).length = 0 then tracker.remove ip
        else tracker.insert ip (retainRecent now ts)) := by
  intro j
  by_cases hj : j = ip
  · have hpruned := (h ip).prune
    rw [hts, Option.getD_some] at hpruned
    rw [hj]
    split
    · next hnone =>
      rw [HashMap.remove_self]
      rw [retainRecent_eq, List.length_eq_zero_iff] at hnone
      rw [hnone] at hpruned
      exact hpruned
    · rw [HashMap.insert_self]
      exact hpruned
  · split
    · rw [HashMap.remove_ne _ hj]
      exact h j
    · rw [HashMap.insert_ne _ _ hj]
      exact h j

theorem HoldsTimes.push_other {c : Call} (h : HoldsTimes op calls now tracker)
    (hc : ∀ ip, c.op ≠ op ip) : HoldsTimes op (calls ++ [c]) now tracker := by
  intro ip
  rw [timesOf_push_ne _ (hc ip)]
  exact h ip

/-- Recording `c` under its address: the stored times are those the window shows. -/
theorem HoldsTimes.push_self {c : Call} {ip : IpAddr} (h : HoldsTimes op calls c.time tracker)
    (hc : c.op = op ip) (inj : ∀ i j, op i = op j → i = j) :
    HoldsTimes op (calls ++ [c]) c.time
      (tracker.insert ip (retainRecent c.time ((tracker ip).getD []) ++ [c.time])) := by
  intro j
  by_cases hj : j = ip
  · subst hj
    rw [HashMap.insert_self, Option.getD_some, ← hc, timesOf_push_self, hc]
    exact (h j).prune.push c.time
  · rw [HashMap.insert_ne _ _ hj, timesOf_push_ne _ fun he => hj (inj j ip (he.symm.trans hc))]
    exact h j

theorem HoldsTimes.count {c : Call} {ip : IpAddr} (h : HoldsTimes op calls c.time tracker)
    (hc : c.op = op ip) :
    (retainRecent c.time ((tracker ip).getD []) ++ [c.time]).length =
      windowCount c.op (calls ++ [c]) c.time := by
  rw [windowCount, timesOf_push_self, recent_push, hc, ← h ip c.time le_rfl]
  rfl

end Trackers

section Bans
variable {s : Settings} {calls : List Call} {now : ℕ}
  {blacklist : HashMap IpAddr ℕ}

theorem HoldsBans.cleanup (h : HoldsBans s calls now blacklist) :
    HoldsBans s calls now (blacklist.retain fun u => if now < u then some u else none) := by
  intro ip t ht
  rw [← h ip t ht]
  change (∃ u, (blacklist ip).bind _ = some u ∧ t < u) ↔ _
  constructor
  · rintro ⟨u, hu, htu⟩
    obtain ⟨v, hv, hif⟩ := Option.bind_eq_some_iff.mp hu
    split at hif
    · exact ⟨u, by rw [hv, hif], htu⟩
    · cases hif
  · rintro ⟨u, hu, htu⟩
    exact ⟨u, by simp [hu, lt_of_le_of_lt ht htu], htu⟩

theorem HoldsBans.push_other {c : Call} (h : HoldsBans s calls now blacklist)
    (hc : ∀ ip, ¬ BansAt s calls c ip) : HoldsBans s (calls ++ [c]) now blacklist := by
  intro ip t ht
  rw [h ip t ht]
  simp [bans_push, hc ip]

/-- The newest ban of an address ends last, so overwriting the entry loses nothing. -/
theorem HoldsBans.push_self {c : Call} {ip : IpAddr} (h : HoldsBans s calls c.time blacklist)
    (past : ∀ c' ∈ calls, c'.time ≤ c.time) (hc : ∀ j, BansAt s calls c j ↔ j = ip) :
    HoldsBans s (calls ++ [c]) c.time (blacklist.insert ip (c.time + s.banDuration)) := by
  intro j t ht
  by_cases hj : j = ip
  · subst hj
    simp only [HashMap.insert_self, Option.some.injEq, exists_eq_left', bans_push, hc j,
      true_and]
    constructor
    · intro hlt
      exact ⟨c.time, .inr rfl, hlt⟩
    · rintro ⟨b, hb | rfl, hlt⟩
      · have := hb.time_le past
        omega
      · exact hlt
  · simp only [HashMap.insert_ne _ _ hj, bans_push, hc j, hj, false_and, or_false]
    exact h j t ht

theorem HoldsBans.remove {ip : IpAddr} {u : ℕ} (h : HoldsBans s calls now blacklist)
    (hu : blacklist ip = some u) (hend : ¬ now < u) :
    HoldsBans s calls now (blacklist.remove ip) := by
  intro j t ht
  rw [← h j t ht]
  by_cases hj : j = ip
  · subst hj
    simp only [HashMap.remove_self, hu, Option.some.injEq, exists_eq_left', reduceCtorEq,
      false_and, exists_false, false_iff]
    omega
  · rw [HashMap.remove_ne _ hj]

end Bans

/-- At `now` the maps stand for the log `calls`. -/
structure Simulates (s : Settings) (calls : List Call) (now : ℕ)
    (inner : SecurityManagerInner) : Prop where
  banDuration : inner.banDuration = s.banDuration
  maxTlsFailures : inner.maxTlsFailures = s.maxTlsFailures
  rateLimitRpm : inner.rateLimitRpm = s.rateLimitRpm
  past : ∀ c ∈ calls, c.time ≤ now
  failures : HoldsTimes .recordTlsFailure calls now inner.tlsFailures
  requests : s.rateLimitRpm ≠ 0 →
    HoldsTimes .checkAndRecordRequest calls now inner.requestTracker
  bans : HoldsBans s calls now inner.blacklist

theorem simulates_initial (s : Settings) (now : ℕ) :
    Simulates s [] now s.manager.value where
  banDuration := rfl
  maxTlsFailures := rfl
  rateLimitRpm := rfl
  past := by simp
  failures _ _ _ := rfl
  requests _ _ _ _ := rfl
  bans ip t _ := by
    constructor
    · rintro ⟨u, hu, -⟩
      exact absurd hu nofun
    · rintro ⟨b, ⟨before, c, hp, -⟩, -⟩
      simp at hp

theorem Simulates.later {s : Settings} {calls : List Call} {now later : ℕ}
    {inner : SecurityManagerInner} (h : Simulates s calls now inner) (hl : now ≤ later) :
    Simulates s calls later inner :=
  { h with
    past := fun c hc => (h.past c hc).trans hl
    failures := fun ip => (h.failures ip).later hl
    requests := fun hr ip => (h.requests hr ip).later hl
    bans := fun ip t ht => h.bans ip t (hl.trans ht) }

theorem Simulates.cleanup {s : Settings} {calls : List Call} {now : ℕ}
    {inner : SecurityManagerInner} (h : Simulates s calls now inner) :
    Simulates s calls now (inner.cleanup now) :=
  { h with
    failures := h.failures.sweep
    requests := fun hr => (h.requests hr).sweep
    bans := h.bans.cleanup }

theorem past_push {calls : List Call} {c : Call} (h : ∀ c' ∈ calls, c'.time ≤ c.time) :
    ∀ c' ∈ calls ++ [c], c'.time ≤ c.time := by
  intro c' hc
  rcases List.mem_append.mp hc with hc | hc
  · exact h c' hc
  · exact (List.mem_singleton.mp hc) ▸ le_rfl

end BarebonesProxy.SecurityHistory
