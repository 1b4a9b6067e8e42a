import BarebonesProxy.TwoPhaseLocking
import Mathlib.Algebra.BigOperators.Group.Finset.Piecewise
import Mathlib.Data.Finset.Max
import Mathlib.Data.List.Pairwise

set_option autoImplicit false

/-!
# Runs of two-phase routines

Calls that overlap look like calls made one after the other, in the order of their first
releases. If locks are taken in increasing order, some call under way can always go on. If
the clock is read under one lock, the calls take effect in the order of their times.
-/
namespace BarebonesProxy.TwoPhaseLocking
open EffectPrograms Runs

section Linearization
variable {L : Type} [LinearOrder L] {σ : L → Type} {α Op A : Type}
variable {program : Op → Routine L σ α}

theorem Shrinking.solo_eq {holds : L → Hold} {r : Routine L σ α} (h : Shrinking holds r)
    (times times' : List ℕ) (store : ∀ l, σ l) : solo r times store = solo r times' store := by
  obtain ⟨hresult, hheld, hother⟩ := h.settled times times' store store
  have hother' := (h.settled times' times store store).2.2
  refine Prod.ext hresult (funext fun l => ?_)
  by_cases hl : holds l = .exclusive
  · exact hheld l hl
  · exact (hother l hl).trans (hother' l hl).symm

/-- What a step adds to the commits is done alone on the settled store, and a call that
takes effect has read the clock for the last time. -/
theorem step_effect {s : System L σ α Op} (h : Sound program s) (a : Action Op) :
    ((s.step program a).settled = s.settled ∧ (s.step program a).commits = s.commits) ∨
      ∃ c, (s.step program a).commits = s.commits ++ [c] ∧ ∀ more,
        solo (program c.op) (c.times ++ more) s.settled =
          (c.result, (s.step program a).settled) := by
  cases a with
  | wait duration => exact .inl ⟨rfl, rfl⟩
  | invoke op =>
    change ((s.invoke program op).settled = _ ∧ (s.invoke program op).commits = _) ∨
      ∃ c, (s.invoke program op).commits = _ ∧ ∀ more, _ = (_, (s.invoke program op).settled)
    unfold System.invoke
    cases hprogram : program op with
    | pure a =>
      refine .inr ⟨_, rfl, fun more => ?_⟩
      dsimp only
      rw [hprogram]
      rfl
    | op e k => exact .inl ⟨rfl, rfl⟩
  | step i =>
    rcases System.step_cases program s i with hsame | ⟨task, e, k, htask, hleft, -, hstep⟩
    · rw [hsame]
      exact .inl ⟨rfl, rfl⟩
    · rw [hstep]
      unfold System.perform
      by_cases heffect : System.takesEffect task e = true
      · rw [if_pos heffect, if_pos heffect]
        refine .inr ⟨_, rfl, fun more => ?_⟩
        obtain ⟨hreleases, hreleased⟩ := Bool.and_eq_true_iff.mp heffect
        obtain ⟨hgrowing, -, hsolo⟩ :=
          (h.tasks i task htask).growing (Bool.not_eq_eq_eq_not.mp hreleased)
        have hshrinking : Shrinking task.holds task.left := by
          rw [hleft] at hgrowing ⊢
          cases e with
          | release l v => exact hgrowing
          | unshare l => exact hgrowing
          | _ => cases hreleases
        have hnone := hsolo [] s.settled fun _ _ => rfl
        rw [List.append_nil] at hnone
        rw [hsolo more s.settled fun _ _ => rfl, hnone]
        exact hshrinking.solo_eq more [] s.settled
      · rw [if_neg heffect, if_neg heffect]
        exact .inl ⟨rfl, rfl⟩

/-- The commits are the calls done one after the other from `a` to the last state. -/
def Legal (spec : Op → List ℕ → A → α × A) : A → List (Commit α Op) → A → Prop
  | a, [], last => a = last
  | a, c :: commits, last => ∃ next, (∀ more, spec c.op (c.times ++ more) a = (c.result, next)) ∧
    Legal spec next commits last

theorem Legal.concat {spec : Op → List ℕ → A → α × A} {a last next : A}
    {commits : List (Commit α Op)} (h : Legal spec a commits last) {c : Commit α Op}
    (hc : ∀ more, spec c.op (c.times ++ more) last = (c.result, next)) :
    Legal spec a (commits ++ [c]) next := by
  induction commits generalizing a with
  | nil =>
    cases h
    exact ⟨next, hc, rfl⟩
  | cons d commits ih =>
    obtain ⟨mid, hd, hrest⟩ := h
    exact ⟨mid, hd, ih hrest⟩

theorem Legal.reached {spec : Op → List ℕ → A → α × A} {a last : A} {c : Commit α Op}
    {first later : List (Commit α Op)} (h : Legal spec a (first ++ c :: later) last) :
    ∃ mid next, Legal spec a first mid ∧
      ∀ more, spec c.op (c.times ++ more) mid = (c.result, next) := by
  induction first generalizing a with
  | nil =>
    obtain ⟨next, hc, -⟩ := h
    exact ⟨a, next, rfl, hc⟩
  | cons d first ih =>
    obtain ⟨a', hd, hrest⟩ := h
    obtain ⟨mid, next, hfirst, hc⟩ := ih hrest
    exact ⟨mid, next, ⟨a', hd, hfirst⟩, hc⟩

theorem commits_prefix (hprogram : ∀ op, TwoPhase (program op)) {s : System L σ α Op}
    (hsound : Sound program s) (actions : List (Action Op)) :
    s.commits <+: (s.after program actions).commits := by
  refine (foldl_invariant (fun s' : System L σ α Op => Sound program s' ∧ s.commits <+: s'.commits)
    (fun s' a h => ⟨h.1.step hprogram a, ?_⟩) ⟨hsound, List.prefix_rfl⟩ actions).2
  rcases step_effect h.1 a with ⟨-, hsame⟩ | ⟨c, hc, -⟩
  · rw [hsame]
    exact h.2
  · rw [hc]
    exact h.2.trans (List.prefix_append _ _)

/-- A run of calls that overlap looks like a run of calls one after the other: each call
takes effect once and returns what it returns there, a call that ended before another was
made comes before it, and if no call is under way the store is the one of that run. -/
structure Linearizable (program : Op → Routine L σ α) (spec : Op → List ℕ → A → α × A)
    (rep : A → ∀ l, σ l) (a : A) (actions : List (Action Op)) (last : A) : Prop where
  legal : Legal spec a ((System.start (rep a)).after program actions).commits last
  once : (((System.start (rep a)).after program actions).commits.map Commit.task).Nodup
  invoked : ∀ c ∈ ((System.start (rep a)).after program actions).commits,
    ∃ task, ((System.start (rep a)).after program actions).tasks[c.task]? = some task ∧
      task.op = c.op ∧ task.times = c.times
  returned : ∀ (i : ℕ) (task : Task L σ α Op) (result : α),
    ((System.start (rep a)).after program actions).tasks[i]? = some task →
      task.left = .pure result →
      ∃ c ∈ ((System.start (rep a)).after program actions).commits, c.task = i ∧ c.result = result
  ordered : ∀ (before more : List (Action Op)), actions = before ++ more →
    ∀ (i : ℕ) (task : Task L σ α Op) (result : α),
      ((System.start (rep a)).after program before).tasks[i]? = some task →
      task.left = .pure result →
      ∃ first later, ((System.start (rep a)).after program actions).commits = first ++ later ∧
        (∃ c ∈ first, c.task = i) ∧
        ∀ c ∈ first, c.task < ((System.start (rep a)).after program before).tasks.length
  settled : (∀ task ∈ ((System.start (rep a)).after program actions).tasks,
      ∃ result, task.left = .pure result) →
    ((System.start (rep a)).after program actions).store = rep last

theorem Sound.returned {s : System L σ α Op} (h : Sound program s) {i : ℕ} {task : Task L σ α Op}
    {result : α} (htask : s.tasks[i]? = some task) (hleft : task.left = .pure result) :
    (∀ l, task.holds l = .free) ∧ ∃ c ∈ s.commits, c.task = i ∧ c.result = result := by
  obtain ⟨hgrowing, hshrinking⟩ := h.tasks i task htask
  cases hreleased : task.released with
  | false =>
    have hgrowing := (hgrowing hreleased).1
    rw [hleft] at hgrowing
    exact hgrowing.elim
  | true =>
    obtain ⟨hheld, c, hc, hi, -, -, hresult⟩ := hshrinking hreleased
    rw [hleft] at hheld hresult
    exact ⟨hheld, c, hc, hi, (hresult [] s.store).1.symm⟩

/-- Two-phase routines are linearizable for what they do alone. -/
theorem linearizable (hprogram : ∀ op, TwoPhase (program op)) {spec : Op → List ℕ → A → α × A}
    {rep : A → ∀ l, σ l} (hrep : Function.Injective rep)
    (hspec : ∀ op times a, solo (program op) times (rep a) =
      ((spec op times a).1, rep (spec op times a).2)) (a : A) (actions : List (Action Op)) :
    ∃ last, Linearizable program spec rep a actions last := by
  obtain ⟨-, last, hsettled, hcommits⟩ :
      Sound program ((System.start (rep a)).after program actions) ∧
      ∃ last, ((System.start (rep a)).after program actions).settled = rep last ∧
        Legal spec a ((System.start (rep a)).after program actions).commits last := by
    refine foldl_invariant (fun s : System L σ α Op => Sound program s ∧
      ∃ last, s.settled = rep last ∧ Legal spec a s.commits last)
      (fun s action hs => ⟨hs.1.step hprogram action, ?_⟩)
      ⟨Sound.start _, a, rfl, by exact rfl⟩ actions
    obtain ⟨hsound, last, hsettled, hcommits⟩ := hs
    rcases step_effect hsound action with ⟨hstore, hsame⟩ | ⟨c, hc, hsolo⟩
    · exact ⟨last, hstore.trans hsettled, by rw [hsame]; exact hcommits⟩
    · have hnext : ∀ more, (spec c.op (c.times ++ more) last).1 = c.result ∧
          rep (spec c.op (c.times ++ more) last).2 = (s.step program action).settled := by
        intro more
        have hmore := hsolo more
        rw [hsettled, hspec, Prod.mk.injEq] at hmore
        exact hmore
      refine ⟨(spec c.op (c.times ++ []) last).2, (hnext []).2.symm, ?_⟩
      rw [hc]
      exact hcommits.concat fun more =>
        Prod.ext (hnext more).1 (hrep ((hnext more).2.trans (hnext []).2.symm))
  have hsound := after_sound hprogram (rep a) actions
  refine ⟨last, hcommits, hsound.once, fun c hc => ?_, fun i task result htask hleft => ?_,
    fun before more hactions i task result htask hleft => ?_, fun hall => ?_⟩
  · obtain ⟨task, htask, hop, -, htimes⟩ := hsound.invoked c hc
    exact ⟨task, htask, hop, htimes⟩
  · exact (hsound.returned htask hleft).2
  · -- the commits so far stay in front
    have hbefore := after_sound hprogram (rep a) before
    have hafter : (System.start (rep a)).after program actions =
        ((System.start (rep a)).after program before).after program more := by
      rw [hactions]
      exact List.foldl_append
    obtain ⟨later, hlater⟩ := commits_prefix hprogram hbefore more
    obtain ⟨-, c, hc, hi, -⟩ := hbefore.returned htask hleft
    refine ⟨_, later, ?_, ⟨c, hc, hi⟩, fun d hd => ?_⟩
    · rw [hafter]
      exact hlater.symm
    · obtain ⟨found, hfound, -⟩ := hbefore.invoked d hd
      exact (List.getElem?_eq_some_iff.mp hfound).1
  · funext l
    rw [← hsettled]
    refine hsound.store l fun task hmem hreleased => ?_
    obtain ⟨i, hi⟩ := List.mem_iff_getElem?.mp hmem
    obtain ⟨result, hleft⟩ := hall task hmem
    rw [(hsound.returned hi hleft).1 l]
    exact nofun

end Linearization

section Progress
variable {L : Type} [LinearOrder L] {σ : L → Type} {α Op : Type}
variable {program : Op → Routine L σ α} {s : System L σ α Op}

/-- The lock that a routine asks for next. -/
def wants : Routine L σ α → Option L
  | .op (.acquire l) _ => some l
  | .op (.share l) _ => some l
  | _ => none

omit [LinearOrder L] in
theorem wants_of_blocked {e : LockOp L σ} (h : s.admits e = false) (k : e.Reply → Routine L σ α) :
    ∃ l, wants (.op e k) = some l ∧ ∃ other ∈ s.tasks, other.holds l ≠ .free := by
  cases e with
  | acquire l =>
    obtain ⟨other, hmem, hholds⟩ : ∃ other ∈ s.tasks, ¬ other.holds l = .free := by
      simpa [System.admits] using h
    exact ⟨l, rfl, other, hmem, hholds⟩
  | share l =>
    obtain ⟨other, hmem, hholds⟩ : ∃ other ∈ s.tasks, other.holds l = .exclusive := by
      simpa [System.admits] using h
    refine ⟨l, rfl, other, hmem, fun hfree => ?_⟩
    cases hholds.symm.trans hfree
  | clock => cases h
  | release l v => cases h
  | unshare l => cases h

/-- A call that asks for a lock holds only smaller ones. -/
theorem Sound.below (h : Sound program s) {i : ℕ} {task : Task L σ α Op}
    (htask : s.tasks[i]? = some task) {l : L} (hwants : wants task.left = some l) :
    ∀ l', task.holds l' ≠ .free → l' < l := by
  obtain ⟨hgrowing, hshrinking⟩ := h.tasks i task htask
  cases hleft : task.left with
  | pure a =>
    rw [hleft] at hwants
    cases hwants
  | op e k =>
    rw [hleft] at hwants
    cases hreleased : task.released with
    | false =>
      have hgrowing := (hgrowing hreleased).1
      rw [hleft] at hgrowing
      cases e with
      | acquire l' =>
        cases hwants
        exact hgrowing.1
      | share l' =>
        cases hwants
        exact hgrowing.1
      | clock => cases hwants
      | release l' v => cases hwants
      | unshare l' => cases hwants
    | true =>
      have hshrinking := (hshrinking hreleased).1
      rw [hleft] at hshrinking
      cases e with
      | acquire l' => exact hshrinking.elim
      | share l' => exact hshrinking.elim
      | clock => cases hwants
      | release l' v => cases hwants
      | unshare l' => cases hwants

/-- While some call is under way, some call can go on. -/
theorem Sound.progress (h : Sound program s)
    (hbusy : ∃ task ∈ s.tasks, ∀ result, task.left ≠ .pure result) :
    ∃ (i : ℕ) (task : Task L σ α Op) (e : LockOp L σ) (k : e.Reply → Routine L σ α),
      s.tasks[i]? = some task ∧ task.left = .op e k ∧ s.admits e = true := by
  by_contra hstuck
  -- otherwise every call under way waits for a lock that a call under way holds
  have hblocked : ∀ task ∈ s.tasks, (∀ result, task.left ≠ .pure result) →
      ∃ l, wants task.left = some l ∧ ∃ other ∈ s.tasks, other.holds l ≠ .free := by
    intro task hmem hunfinished
    obtain ⟨i, hi⟩ := List.mem_iff_getElem?.mp hmem
    cases hleft : task.left with
    | pure result => exact absurd hleft (hunfinished result)
    | op e k =>
      have hadmits : s.admits e = false := by
        rw [Bool.eq_false_iff]
        exact fun hadmits => hstuck ⟨i, task, e, k, hi, hleft, hadmits⟩
      exact wants_of_blocked hadmits k
  have hlarger : ∀ l ∈ (s.tasks.filterMap fun task => wants task.left).toFinset,
      ∃ l' ∈ (s.tasks.filterMap fun task => wants task.left).toFinset, l < l' := by
    intro l hl
    simp only [List.mem_toFinset, List.mem_filterMap] at hl ⊢
    obtain ⟨task, hmem, hwants⟩ := hl
    obtain ⟨l₀, hl₀, other, hother, hholds⟩ := hblocked task hmem fun result hleft => by
      rw [hleft] at hwants
      cases hwants
    cases hwants.symm.trans hl₀
    obtain ⟨j, hj⟩ := List.mem_iff_getElem?.mp hother
    obtain ⟨l', hl', -⟩ := hblocked other hother fun result hleft =>
      hholds ((h.returned hj hleft).1 l)
    exact ⟨l', ⟨other, hother, hl'⟩, h.below hj hl' l hholds⟩
  obtain ⟨task, hmem, hunfinished⟩ := hbusy
  obtain ⟨l, hl, -⟩ := hblocked task hmem hunfinished
  have hne : (s.tasks.filterMap fun task => wants task.left).toFinset.Nonempty :=
    ⟨l, List.mem_toFinset.mpr (List.mem_filterMap.mpr ⟨task, hmem, hl⟩)⟩
  -- the largest lock that is waited for has a larger one
  obtain ⟨l', hl', hlt⟩ := hlarger _ (Finset.max'_mem _ hne)
  exact absurd (Finset.le_max' _ l' hl') (not_le.mpr hlt)

/-- The routine ends after at most `n` operations. -/
def Within : ℕ → Routine L σ α → Prop
  | _, .pure _ => True
  | 0, .op _ _ => False
  | n + 1, .op _ k => ∀ r, Within n (k r)

omit [LinearOrder L] in
theorem within_pure (n : ℕ) (a : α) : Within n (.pure a : Routine L σ α) := by
  cases n <;> trivial

theorem System.step_of_admits (program : Op → Routine L σ α) {i : ℕ} {task : Task L σ α Op}
    {e : LockOp L σ} {k : e.Reply → Routine L σ α} (htask : s.tasks[i]? = some task)
    (hleft : task.left = .op e k)
    (hadmits : s.admits e = true) : s.step program (.step i) = s.perform program i task e k := by
  unfold System.step
  simp only [htask, hleft]
  exact if_pos hadmits

omit [LinearOrder L] in
theorem Within.succ {n : ℕ} {r : Routine L σ α} (h : Within n r) : Within (n + 1) r := by
  induction r generalizing n with
  | pure a => trivial
  | op e k ih =>
    cases n with
    | zero => exact h.elim
    | succ n => exact fun r => ih r (h r)

/-- The calls that are under way can all be brought to their end, each with the steps that it
has left. -/
theorem Sound.can_finish (h : Sound program s) {bound : ℕ → ℕ}
    (hbound : ∀ (i : ℕ) (task : Task L σ α Op), s.tasks[i]? = some task →
      Within (bound i) task.left) :
    ∃ steps : List ℕ, (∀ i, steps.count i ≤ bound i) ∧
      ∀ task ∈ (s.after program (steps.map .step)).tasks, ∃ result, task.left = .pure result := by
  -- by the number of operations that are left
  induction hn : ∑ i ∈ Finset.range s.tasks.length, bound i using Nat.strong_induction_on
    generalizing s bound with
  | _ n ih =>
    by_cases hbusy : ∃ task ∈ s.tasks, ∀ result, task.left ≠ .pure result
    · obtain ⟨i, task, e, k, htask, hleft, hadmits⟩ := h.progress hbusy
      have hlt : i < s.tasks.length := (List.getElem?_eq_some_iff.mp htask).1
      have hstep := System.step_of_admits program htask hleft hadmits
      have htasks : (s.perform program i task e k).tasks.length = s.tasks.length := List.length_set
      have hfirst := hbound i task htask
      rw [hleft] at hfirst
      obtain ⟨m, hm⟩ : ∃ m, bound i = m + 1 := by
        cases hi : bound i with
        | zero =>
          rw [hi] at hfirst
          exact hfirst.elim
        | succ m => exact ⟨m, rfl⟩
      rw [hm] at hfirst
      have hsum : ∑ j ∈ Finset.range (s.perform program i task e k).tasks.length,
          Function.update bound i m j + 1 = n := by
        rw [htasks]
        rw [Finset.sum_update_of_mem (Finset.mem_range.mpr hlt), ← hn,
          Finset.sum_eq_add_sum_sdiff_singleton_of_mem (Finset.mem_range.mpr hlt) bound, hm]
        omega
      have hsound := h.perform htask hleft hadmits
      have hbound' : ∀ (j : ℕ) (found : Task L σ α Op),
          (s.perform program i task e k).tasks[j]? = some found →
          Within (Function.update bound i m j) found.left := by
        intro j found hfound
        rcases getElem?_set_cases hfound with ⟨rfl, rfl⟩ | ⟨hj, hfound⟩
        · rw [Function.update_self]
          exact hfirst _
        · rw [Function.update_of_ne hj]
          exact hbound j found hfound
      obtain ⟨steps, hcount, hdone⟩ := ih _ (Nat.lt_of_succ_le hsum.le) hsound hbound' rfl
      refine ⟨i :: steps, fun j => ?_, ?_⟩
      · have hj := hcount j
        by_cases heq : j = i
        · subst heq
          rw [Function.update_self] at hj
          rw [List.count_cons_self]
          omega
        · rw [Function.update_of_ne heq] at hj
          rw [List.count_cons_of_ne (Ne.symm heq)]
          exact hj
      · rw [List.map_cons]
        change ∀ task ∈ ((s.step program (.step i)).after program (steps.map .step)).tasks, _
        rw [hstep]
        exact hdone
    · refine ⟨[], fun _ => Nat.zero_le _, fun task hmem => ?_⟩
      by_contra hnone
      exact hbusy ⟨task, hmem, fun result hleft => hnone ⟨result, hleft⟩⟩

theorem step_within {n : ℕ} (hprogram : ∀ op, Within n (program op))
    (h : ∀ task ∈ s.tasks, Within n task.left) (a : Action Op) :
    ∀ task ∈ (s.step program a).tasks, Within n task.left := by
  cases a with
  | wait duration => exact h
  | invoke op =>
    have hop := hprogram op
    change ∀ task ∈ (s.invoke program op).tasks, Within n task.left
    unfold System.invoke
    cases hr : program op with
    | pure a =>
      refine List.forall_mem_append.mpr ⟨h, fun task hmem => ?_⟩
      rw [List.mem_singleton.mp hmem]
      cases n <;> trivial
    | op e k =>
      refine List.forall_mem_append.mpr ⟨h, fun task hmem => ?_⟩
      rw [List.mem_singleton.mp hmem, ← hr]
      exact hop
  | step i =>
    rcases System.step_cases program s i with hsame | ⟨task, e, k, htask, hleft, -, hstep⟩
    · rw [hsame]
      exact h
    · rw [hstep]
      intro found hmem
      rcases List.mem_or_eq_of_mem_set hmem with hmem | rfl
      · exact h found hmem
      · have hfirst := h task (List.mem_of_getElem? htask)
        rw [hleft] at hfirst
        cases n with
        | zero => exact hfirst.elim
        | succ n => exact (hfirst _).succ

/-- Call `i` has not returned yet. -/
def System.UnderWay (s : System L σ α Op) (i : ℕ) : Prop :=
  ∃ task, s.tasks[i]? = some task ∧ ∀ result, task.left ≠ .pure result

open Classical in
/-- Calls of at most `n` operations never lock each other out: after every run, at most `n`
steps of each call that is under way bring all of them to their end. -/
theorem can_finish_after (hprogram : ∀ op, TwoPhase (program op)) {n : ℕ}
    (hwithin : ∀ op, Within n (program op)) (store : ∀ l, σ l) (actions : List (Action Op)) :
    ∃ steps : List ℕ, (∀ i, steps.count i ≤ n) ∧
      (∀ i ∈ steps, ((System.start store).after program actions).UnderWay i) ∧
      ∀ task ∈ ((System.start store).after program (actions ++ steps.map .step)).tasks,
        ∃ result, task.left = .pure result := by
  have hleft : ∀ task ∈ ((System.start store).after program actions).tasks, Within n task.left :=
    foldl_invariant (fun s : System L σ α Op => ∀ task ∈ s.tasks, Within n task.left)
      (fun s a h => step_within hwithin h a) (fun _ h => absurd h List.not_mem_nil) actions
  -- a call that has returned needs no step
  have hbound : ∀ (i : ℕ) (task : Task L σ α Op),
      ((System.start store).after program actions).tasks[i]? = some task →
      Within (if ((System.start store).after program actions).UnderWay i then n else 0)
        task.left := by
    intro i task htask
    split
    · exact hleft task (List.mem_of_getElem? htask)
    · next hreturned =>
      cases hresult : task.left with
      | pure result => exact within_pure 0 result
      | op e k =>
        refine absurd ⟨task, htask, fun result heq => ?_⟩ hreturned
        rw [hresult] at heq
        cases heq
  obtain ⟨steps, hcount, hdone⟩ := (after_sound hprogram store actions).can_finish hbound
  refine ⟨steps, fun i => (hcount i).trans ?_, fun i hi => ?_, ?_⟩
  · split
    · exact le_rfl
    · exact Nat.zero_le n
  · by_contra hreturned
    have hnone := hcount i
    rw [if_neg hreturned] at hnone
    exact absurd (List.count_pos_iff.mpr hi) (Nat.not_lt.mpr hnone)
  · rw [System.after, List.foldl_append]
    exact hdone

end Progress

section Stamps
variable {L : Type} [LinearOrder L] {σ : L → Type} {α Op : Type}
variable {program : Op → Routine L σ α} {s : System L σ α Op} {guard : L}

/-- The clock is read, and the first lock released, under the lock `guard`. -/
def Timed (guard : L) : (L → Hold) → Routine L σ α → Prop
  | _, .pure _ => True
  | holds, .op e k =>
    (e.releases = true ∨ e = .clock → holds guard = .exclusive) ∧
      (e.releases = false → ∀ r, Timed guard (e.holdsAfter holds) (k r))

/-- The time of a call: its first clock reading, or else the time when it took effect. -/
def Commit.stamp (c : Commit α Op) : ℕ := c.times.headD c.now

structure Stamped (guard : L) (s : System L σ α Op) : Prop where
  timed : ∀ task ∈ s.tasks, task.released = false → Timed guard task.holds task.left
  read : ∀ task ∈ s.tasks, ∀ t ∈ task.times, t ≤ s.now
  past : ∀ c ∈ s.commits, c.stamp ≤ s.now
  clocked : ∀ task ∈ s.tasks, task.released = false → task.times ≠ [] →
    task.holds guard = .exclusive
  later : ∀ task ∈ s.tasks, task.released = false → ∀ c ∈ s.commits, ∀ t ∈ task.times, c.stamp ≤ t
  sorted : (s.commits.map Commit.stamp).Pairwise (· ≤ ·)

theorem Stamped.start (store : ∀ l, σ l) :
    Stamped guard (System.start store : System L σ α Op) where
  timed _ h := absurd h List.not_mem_nil
  read _ h := absurd h List.not_mem_nil
  past _ h := absurd h List.not_mem_nil
  clocked _ h := absurd h List.not_mem_nil
  later _ h := absurd h List.not_mem_nil
  sorted := List.Pairwise.nil

/-- A call goes on without a release. -/
theorem Stamped.grow (h : Stamped guard s) (i : ℕ) (task' : Task L σ α Op)
    (htimed : task'.released = false → Timed guard task'.holds task'.left)
    (hread : ∀ t ∈ task'.times, t ≤ s.now)
    (hclocked : task'.released = false → task'.times ≠ [] → task'.holds guard = .exclusive)
    (hlater : task'.released = false → ∀ c ∈ s.commits, ∀ t ∈ task'.times, c.stamp ≤ t)
    (store : ∀ l, σ l) :
    Stamped guard { s with store := store, tasks := s.tasks.set i task' } := by
  have hall : ∀ {P : Task L σ α Op → Prop}, (∀ task ∈ s.tasks, P task) → P task' →
      ∀ task ∈ s.tasks.set i task', P task := by
    intro P hold hnew task hmem
    rcases List.mem_or_eq_of_mem_set hmem with hmem | rfl
    · exact hold task hmem
    · exact hnew
  exact ⟨hall h.timed htimed, hall h.read hread, h.past, hall h.clocked hclocked,
    hall h.later hlater, h.sorted⟩

theorem Stamped.perform (h : Stamped guard s) (hsound : Sound program s) {i : ℕ}
    {task : Task L σ α Op} (htask : s.tasks[i]? = some task) {e : LockOp L σ}
    {k : e.Reply → Routine L σ α} (hleft : task.left = .op e k) :
    Stamped guard (s.perform program i task e k) := by
  have hmem := List.mem_of_getElem? htask
  have hreads := h.read task hmem
  cases hreleased : task.released with
  | true =>
    have heffect : System.takesEffect task e = false := by
      simp [System.takesEffect, hreleased]
    have htimes : ∀ t ∈ e.timesAfter s.now task.times, t ≤ s.now := by
      cases e with
      | clock => exact List.forall_mem_append.mpr ⟨hreads, by simp⟩
      | _ => exact hreads
    have hgrow := h.grow i
      { task with
        left := k (s.reply e)
        holds := e.holdsAfter task.holds
        times := e.timesAfter s.now task.times
        released := task.released || e.releases }
      (by simp [hreleased]) htimes (by simp [hreleased]) (by simp [hreleased])
      (e.storeAfter s.store)
    unfold System.perform
    rw [heffect]
    exact hgrow
  | false =>
    have htimed := h.timed task hmem hreleased
    have hbelow := fun l hl => hsound.below htask (l := l) hl
    rw [hleft] at htimed hbelow
    cases hreleases : e.releases with
    | false =>
      rw [System.perform_of_growing s i task k hreleases]
      refine h.grow i _ (fun _ => htimed.2 hreleases _) ?_ (fun _ => ?_) (fun _ c hc => ?_) _
      · cases e with
        | clock => exact List.forall_mem_append.mpr ⟨hreads, by simp⟩
        | _ => exact hreads
      · -- a lock that is taken later is not the guard
        have hclocked := h.clocked task hmem hreleased
        cases e with
        | clock => exact fun _ => htimed.1 (.inr rfl)
        | acquire l =>
          intro hne
          have hheld := hclocked hne
          have hlt := hbelow l rfl guard (by rw [hheld]; exact nofun)
          exact (Function.update_of_ne hlt.ne ..).trans hheld
        | share l =>
          intro hne
          have hheld := hclocked hne
          have hlt := hbelow l rfl guard (by rw [hheld]; exact nofun)
          exact (Function.update_of_ne hlt.ne ..).trans hheld
        | release l v => cases hreleases
        | unshare l => cases hreleases
      · have hlater := h.later task hmem hreleased c hc
        cases e with
        | clock => exact List.forall_mem_append.mpr ⟨hlater, by simpa using h.past c hc⟩
        | _ => exact hlater
    | true =>
      -- the call takes effect under the guard, so no other call has read the clock
      have hheld := htimed.1 (.inl hreleases)
      have hothers : ∀ j other, s.tasks[j]? = some other → j ≠ i → other.released = false →
          other.times = [] := by
        intro j other hother hj hr
        by_contra hne
        have hexclusive := h.clocked other (List.mem_of_getElem? hother) hr hne
        have hfree := hsound.exclusion i j task other htask hother hj.symm guard hheld
        cases hexclusive.symm.trans hfree
      have heffect : System.takesEffect task e = true := by
        simp [System.takesEffect, hreleased, hreleases]
      have htimes : e.timesAfter s.now task.times = task.times := by
        cases e with
        | clock => cases hreleases
        | _ => rfl
      have hstamp : ∀ result,
          (⟨i, task.op, task.times, s.now, result⟩ : Commit α Op).stamp ≤ s.now := by
        intro result
        cases htimes : task.times with
        | nil => exact Nat.le_refl _
        | cons t times => exact hreads t (by rw [htimes]; exact .head _)
      have hlast : ∀ result, ∀ c ∈ s.commits,
          c.stamp ≤ (⟨i, task.op, task.times, s.now, result⟩ : Commit α Op).stamp := by
        intro result c hc
        cases htimes : task.times with
        | nil => exact h.past c hc
        | cons t times => exact h.later task hmem hreleased c hc t (by rw [htimes]; exact .head _)
      unfold System.perform
      rw [heffect, htimes, hreleases, Bool.or_true, if_pos rfl, if_pos rfl]
      have hcases : ∀ {found : Task L σ α Op}, found ∈ s.tasks.set i
          { task with left := k (s.reply e), holds := e.holdsAfter task.holds, released := true } →
          found.released = false → found ∈ s.tasks ∧ found.times = [] := by
        intro found hfound hr
        obtain ⟨j, hj⟩ := List.mem_iff_getElem?.mp hfound
        rcases getElem?_set_cases hj with ⟨-, rfl⟩ | ⟨hne, hj⟩
        · cases hr
        · exact ⟨List.mem_of_getElem? hj, hothers j found hj hne hr⟩
      refine ⟨fun found hfound hr => h.timed found (hcases hfound hr).1 hr, fun found hfound => ?_,
        List.forall_mem_append.mpr ⟨h.past, fun c hc => ?_⟩, fun found hfound hr hne => ?_,
        fun found hfound hr c hc t ht => ?_, ?_⟩
      · rcases List.mem_or_eq_of_mem_set hfound with hfound | rfl
        · exact h.read found hfound
        · exact hreads
      · rw [List.mem_singleton.mp hc]
        exact hstamp _
      · exact absurd (hcases hfound hr).2 hne
      · rw [(hcases hfound hr).2] at ht
        cases ht
      · rw [List.map_append, List.pairwise_append]
        refine ⟨h.sorted, List.pairwise_singleton _ _, fun t ht t' ht' => ?_⟩
        obtain ⟨c, hc, rfl⟩ := List.mem_map.mp ht
        rw [List.mem_singleton.mp ht']
        exact hlast _ c hc

/-- If every call reads the clock and takes effect under one lock, the calls take effect in
the order of their times. -/
theorem stamps_sorted (hprogram : ∀ op, TwoPhase (program op))
    (htimed : ∀ op, (∃ e k, program op = .op e k) ∧ Timed guard (fun _ => .free) (program op))
    (store : ∀ l, σ l) (actions : List (Action Op)) :
    (((System.start store).after program actions).commits.map Commit.stamp).Pairwise (· ≤ ·) := by
  have hboth : Sound program ((System.start store).after program actions) ∧
      Stamped guard ((System.start store).after program actions) := by
    refine foldl_invariant (fun s => Sound program s ∧ Stamped guard s) (fun s a h => ?_)
      ⟨.start store, .start store⟩ actions
    refine ⟨h.1.step hprogram a, ?_⟩
    obtain ⟨hsound, hstamped⟩ := h
    cases a with
    | wait duration =>
      exact ⟨hstamped.timed,
        fun task hmem t ht => (hstamped.read task hmem t ht).trans (Nat.le_add_right ..),
        fun c hc => (hstamped.past c hc).trans (Nat.le_add_right ..), hstamped.clocked,
        hstamped.later, hstamped.sorted⟩
    | invoke op =>
      obtain ⟨⟨e, k, hop⟩, hnew⟩ := htimed op
      rw [hop] at hnew
      have hinvoke : s.step program (.invoke op) =
          { s with tasks := s.tasks ++ [⟨op, .op e k, fun _ => .free, [], false⟩] } := by
        change s.invoke program op = _
        unfold System.invoke
        rw [hop]
      rw [hinvoke]
      refine ⟨List.forall_mem_append.mpr ⟨hstamped.timed, ?_⟩,
        List.forall_mem_append.mpr ⟨hstamped.read, ?_⟩, hstamped.past,
        List.forall_mem_append.mpr ⟨hstamped.clocked, ?_⟩,
        List.forall_mem_append.mpr ⟨hstamped.later, ?_⟩, hstamped.sorted⟩
      all_goals
        intro task hmem
        rw [List.mem_singleton.mp hmem]
      · exact fun _ => hnew
      · exact fun _ h => absurd h List.not_mem_nil
      · exact fun _ hne => absurd rfl hne
      · exact fun _ _ _ _ h => absurd h List.not_mem_nil
    | step i =>
      rcases System.step_cases program s i with hsame | ⟨task, e, k, htask, hleft, -, hstep⟩
      · rw [hsame]
        exact hstamped
      · rw [hstep]
        exact hstamped.perform hsound htask hleft
  exact hboth.2.sorted

end Stamps

end BarebonesProxy.TwoPhaseLocking
