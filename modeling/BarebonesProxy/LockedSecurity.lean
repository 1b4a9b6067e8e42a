import BarebonesProxy.LockHistories
import BarebonesProxy.SecurityWindows

set_option autoImplicit false

/-!
# The security manager under its lock

Each operation takes the mutex, reads the clock and works on the maps. Operations of many
tasks are one history of calls in the order of their times, as `SecurityRuns` has it.
-/
namespace BarebonesProxy.SecurityHistory
open RustNet RustState Security EffectPrograms Runs TwoPhaseLocking

abbrev ManagerRoutine := Routine Unit (fun _ => SecurityManager) (Outcome Reply)

def managerRoutine (op : Op) : ManagerRoutine :=
  .op (.acquire ()) fun (m : SecurityManager) =>
  -- `expect` panics on a poisoned lock, and unwinding gives it back
  if m.poisoned then .op (.release () m) fun _ => .pure .panicked
  else
    .op .clock fun (now : ℕ) =>
    .op (.release () (call m ⟨now, op⟩).2) fun _ => .pure (call m ⟨now, op⟩).1

abbrev ManagerTask := Task Unit (fun _ => SecurityManager) (Outcome Reply) Op

abbrev ManagerSystem := System Unit (fun _ => SecurityManager) (Outcome Reply) Op

/-- The tasks on one manager, after some of their steps. -/
def shared (m : SecurityManager) (actions : List (Action Op)) : ManagerSystem :=
  (System.start fun _ => m).after managerRoutine actions

def callAt (op : Op) (times : List ℕ) (m : SecurityManager) : Outcome Reply × SecurityManager :=
  call m ⟨times.headD 0, op⟩

section Discipline

theorem twoPhase_managerRoutine (op : Op) : TwoPhase (managerRoutine op) := by
  refine ⟨fun _ hl => absurd rfl hl, fun m => ?_⟩
  by_cases hpoisoned : m.poisoned = true
  · simp only [hpoisoned, if_true]
    exact ⟨rfl, fun _ => rfl⟩
  · simp only [hpoisoned]
    exact fun now => ⟨rfl, fun _ => rfl⟩

theorem within_managerRoutine (op : Op) : Within 3 (managerRoutine op) := by
  intro m
  by_cases hpoisoned : Lock.poisoned m = true
  · simp only [hpoisoned, if_true]
    exact fun _ => trivial
  · simp only [hpoisoned]
    exact fun _ _ => trivial

theorem timed_managerRoutine (op : Op) :
    (∃ e k, managerRoutine op = .op e k) ∧
      Timed () (fun _ => Hold.free) (managerRoutine op) := by
  refine ⟨⟨_, _, rfl⟩, ⟨fun h => ?_, fun _ m => ?_⟩⟩
  · rcases h with h | h <;> cases h
  by_cases hpoisoned : Lock.poisoned m = true
  · simp only [hpoisoned, if_true]
    exact ⟨fun _ => rfl, nofun⟩
  · simp only [hpoisoned]
    exact ⟨fun _ => rfl, fun _ now => ⟨fun _ => rfl, nofun⟩⟩

theorem solo_managerRoutine (op : Op) (times : List ℕ) (m : SecurityManager) :
    solo (managerRoutine op) times (fun _ => m) =
      ((callAt op times m).1, fun _ => (callAt op times m).2) := by
  by_cases hpoisoned : m.poisoned = true
  · unfold callAt
    rw [call_poisoned hpoisoned]
    simp only [managerRoutine, solo, hpoisoned, if_true]
    exact Prod.ext rfl (funext fun _ => rfl)
  · simp only [managerRoutine, solo, hpoisoned]
    exact Prod.ext rfl (funext fun _ => rfl)

end Discipline

section Histories

/-- A call that took effect, with the time that its reply is about. -/
def callOf (c : Commit (Outcome Reply) Op) : Call := ⟨c.stamp, c.op⟩

/-- The calls of a run in an order in which they could have been made one after the other,
each with its task. -/
structure Sequential (m : SecurityManager) (actions : List (Action Op))
    (calls : List (ℕ × Call)) : Prop where
  sorted : Sorted (calls.map Prod.snd)
  once : (calls.map Prod.fst).Nodup
  invoked : ∀ i c, (i, c) ∈ calls → ∃ task : ManagerTask,
    (shared m actions).tasks[i]? = some task ∧ c.op = task.op ∧
      ∀ t ∈ task.times.head?, c.time = t
  returned : ∀ (i : ℕ) (task : ManagerTask) (outcome : Outcome Reply),
    (shared m actions).tasks[i]? = some task → task.left = .pure outcome →
    ∃ before c later, calls = before ++ (i, c) :: later ∧ c.op = task.op ∧
      (∀ t ∈ task.times.head?, c.time = t) ∧ resultAfter m (before.map Prod.snd) c = outcome
  ordered : ∀ (before more : List (Action Op)), actions = before ++ more →
    ∀ (i : ℕ) (task : ManagerTask) (outcome : Outcome Reply),
      (shared m before).tasks[i]? = some task → task.left = .pure outcome →
      ∃ first later, calls = first ++ later ∧ i ∈ first.map Prod.fst ∧
        ∀ j ∈ first.map Prod.fst, j < (shared m before).tasks.length
  settled : (∀ task ∈ (shared m actions).tasks, ∃ outcome, task.left = .pure outcome) →
    (shared m actions).store () = after m (calls.map Prod.snd)

theorem callAt_stamp {c : Commit (Outcome Reply) Op} {m next : SecurityManager}
    (h : ∀ more, callAt c.op (c.times ++ more) m = (c.result, next)) :
    call m (callOf c) = (c.result, next) := by
  rw [← h [c.stamp]]
  unfold callAt callOf Commit.stamp
  cases c.times <;> rfl

theorem legal_after {m last : SecurityManager} {commits : List (Commit (Outcome Reply) Op)}
    (h : Legal callAt m commits last) : last = after m (commits.map callOf) := by
  induction commits generalizing m with
  | nil => exact Eq.symm h
  | cons c commits ih =>
    obtain ⟨next, hc, hrest⟩ := h
    rw [ih hrest]
    change _ = after (call m (callOf c)).2 _
    rw [callAt_stamp hc]

theorem shared_linearizable (m : SecurityManager) (actions : List (Action Op)) :
    ∃ last, Linearizable managerRoutine callAt (fun m _ => m) m actions last :=
  linearizable twoPhase_managerRoutine (fun _ _ h => congrFun h ()) solo_managerRoutine m actions

theorem sequential_commits (m : SecurityManager) (actions : List (Action Op)) :
    Sequential m actions ((shared m actions).commits.map fun c => (c.task, callOf c)) := by
  obtain ⟨last, h⟩ := shared_linearizable m actions
  have hfst : ∀ commits : List (Commit (Outcome Reply) Op),
      (commits.map fun c => (c.task, callOf c)).map Prod.fst = commits.map Commit.task :=
    fun commits => List.map_map
  have hsnd : ∀ commits : List (Commit (Outcome Reply) Op),
      (commits.map fun c => (c.task, callOf c)).map Prod.snd = commits.map callOf :=
    fun commits => List.map_map
  have hinvoked : ∀ c ∈ (shared m actions).commits, ∃ task : ManagerTask,
      (shared m actions).tasks[c.task]? = some task ∧ (callOf c).op = task.op ∧
        ∀ t ∈ task.times.head?, (callOf c).time = t := by
    intro c hc
    obtain ⟨task, htask, hop, htimes⟩ := h.invoked c hc
    refine ⟨task, htask, hop.symm, fun t ht => ?_⟩
    rw [htimes] at ht
    change c.times.headD c.now = t
    rw [List.headD_eq_head?_getD, Option.mem_def.mp ht]
    rfl
  constructor
  case sorted =>
    have hstamps := stamps_sorted twoPhase_managerRoutine timed_managerRoutine (fun _ => m) actions
    rw [List.pairwise_map] at hstamps
    rw [hsnd]
    exact List.pairwise_map.mpr hstamps
  case once =>
    rw [hfst]
    exact h.once
  case invoked =>
    intro i call hcall
    obtain ⟨c, hc, heq⟩ := List.mem_map.mp hcall
    cases heq
    exact hinvoked c hc
  case returned =>
    intro i task outcome htask hleft
    obtain ⟨c, hc, hi, hresult⟩ := h.returned i task outcome htask hleft
    obtain ⟨found, hfound, hop, htime⟩ := hinvoked c hc
    cases (hi ▸ hfound).symm.trans htask
    obtain ⟨first, later, hsplit⟩ := List.append_of_mem hc
    have hlegal := h.legal
    rw [hsplit] at hlegal
    obtain ⟨mid, next, hfirst, hmid⟩ := hlegal.reached
    refine ⟨first.map fun c => (c.task, callOf c), callOf c, later.map fun c => (c.task, callOf c),
      ?_, hop, htime, ?_⟩
    · change List.map _ ((System.start fun _ => m).after managerRoutine actions).commits = _
      rw [hsplit, List.map_append, List.map_cons, hi]
    · rw [hsnd, resultAfter, ← legal_after hfirst, callAt_stamp hmid, ← hresult]
  case ordered =>
    intro before more hactions i task outcome htask hleft
    obtain ⟨first, later, hsplit, ⟨c, hc, hi⟩, hbelow⟩ :=
      h.ordered before more hactions i task outcome htask hleft
    refine ⟨first.map fun c => (c.task, callOf c), later.map fun c => (c.task, callOf c), ?_, ?_,
      fun j hj => ?_⟩
    · change List.map _ ((System.start fun _ => m).after managerRoutine actions).commits = _
      rw [hsplit, List.map_append]
    · rw [hfst, ← hi]
      exact List.mem_map_of_mem hc
    · rw [hfst] at hj
      obtain ⟨d, hd, rfl⟩ := List.mem_map.mp hj
      exact hbelow d hd
  case settled =>
    intro hall
    rw [hsnd]
    exact (congrFun (h.settled hall) ()).trans (legal_after h.legal)

/-- Operations of the tasks that overlap are calls made one after the other in the order of
their times, and however the tasks came to where they are, at most three steps of each
operation under way bring all of them to their end. -/
theorem overlapping_calls_sequential (m : SecurityManager) (actions : List (Action Op)) :
    (∃ calls, Sequential m actions calls) ∧
    ∃ steps : List ℕ, (∀ i, steps.count i ≤ 3) ∧
      (∀ i ∈ steps, (shared m actions).UnderWay i) ∧
      ∀ task ∈ (shared m (actions ++ steps.map .step)).tasks,
        ∃ outcome, task.left = .pure outcome :=
  ⟨⟨_, sequential_commits m actions⟩,
    can_finish_after twoPhase_managerRoutine within_managerRoutine (fun _ => m) actions⟩

theorem length_trace (m : SecurityManager) (calls : List Call) :
    (trace m calls).length = calls.length := by
  induction calls generalizing m with
  | nil => rfl
  | cons c calls ih => exact congrArg (· + 1) (ih _)

theorem trace_append (m : SecurityManager) (before later : List Call) :
    trace m (before ++ later) = trace m before ++ trace (after m before) later := by
  induction before generalizing m with
  | nil => rfl
  | cons c before ih => exact congrArg (_ :: ·) (ih _)

/-- Each call of the history with its task and its outcome. -/
def outcomes (m : SecurityManager) (calls : List (ℕ × Call)) : List (ℕ × Call × Outcome Reply) :=
  (calls.map Prod.fst).zip (trace m (calls.map Prod.snd))

theorem map_snd_outcomes (m : SecurityManager) (calls : List (ℕ × Call)) :
    (outcomes m calls).map Prod.snd = trace m (calls.map Prod.snd) := by
  refine List.map_snd_zip ?_
  rw [length_trace, List.length_map, List.length_map]

theorem mem_outcomes (m : SecurityManager) (before later : List (ℕ × Call)) (i : ℕ) (c : Call) :
    (i, c, resultAfter m (before.map Prod.snd) c) ∈ outcomes m (before ++ (i, c) :: later) := by
  unfold outcomes
  rw [List.map_append, List.map_append, trace_append, List.zip_append]
  · exact List.mem_append_right _ (.head _)
  · rw [length_trace, List.length_map, List.length_map]

/-- The task is a request of the address that was admitted, at a time in the window. -/
def AdmittedIn (ip : IpAddr) (start : ℕ) (task : ManagerTask) : Prop :=
  task.op = .checkAndRecordRequest ip ∧
    (∃ count, task.left = .pure (.returned (.admission (.ok count)))) ∧
    ∃ t ∈ task.times.head?, start ≤ t ∧ t ≤ start + rollingWindow

/-- However the tasks interleave, no window of a minute has more admitted requests of an
address than the limit. -/
theorem overlapping_requests_limited (s : Settings) (hlimit : 1 ≤ s.rateLimitRpm)
    (actions : List (Action Op)) (ip : IpAddr) (start : ℕ) (admitted : List ℕ)
    (hdistinct : admitted.Nodup)
    (hadmitted : ∀ i ∈ admitted, ∃ task, (shared s.manager actions).tasks[i]? = some task ∧
      AdmittedIn ip start task) :
    admitted.length ≤ s.rateLimitRpm := by
  have hseq := sequential_commits s.manager actions
  generalize ((shared s.manager actions).commits.map fun c => (c.task, callOf c)) = calls at hseq
  have hbound := admittedRequests_le hlimit hseq.sorted ip start
  unfold admittedRequests at hbound
  rw [← map_snd_outcomes, List.filter_map, List.length_map] at hbound
  refine le_trans ?_ hbound
  rw [← List.length_map (f := Prod.fst)]
  refine (hdistinct.subperm fun i hi => ?_).length_le
  obtain ⟨task, htask, hop, ⟨count, hleft⟩, t, ht, hfirst, hlast⟩ := hadmitted i hi
  obtain ⟨before, c, later, hsplit, hc, htime, hresult⟩ := hseq.returned i task _ htask hleft
  have hmem := mem_outcomes s.manager before later i c
  rw [← hsplit, hresult] at hmem
  refine List.mem_map.mpr ⟨_, List.mem_filter.mpr ⟨hmem, ?_⟩, rfl⟩
  simp [hc, hop, isAdmitted, htime t ht, hfirst, hlast]

end Histories

section Example

def oneAMinute : Settings := ⟨fromSecs 600, 5, 1⟩

/-- Two requests of one address, the second while the first holds the lock. -/
def rivals : List (Action Op) :=
  [.invoke (.checkAndRecordRequest (someIp 1)), .invoke (.checkAndRecordRequest (someIp 1)),
    .step 0, .step 1, .step 0, .step 0, .wait 1, .step 1, .step 1, .step 1]

example : (shared oneAMinute.manager rivals).tasks.map Task.left =
    [.pure (.returned (.admission (.ok 1))), .pure (.returned (.admission (.error 2)))] := rfl

theorem rivals_limited :
    (∃ task, (shared oneAMinute.manager rivals).tasks[0]? = some task ∧
      AdmittedIn (someIp 1) 0 task) ∧ [0].length ≤ oneAMinute.rateLimitRpm := by
  have hfirst : ∃ task, (shared oneAMinute.manager rivals).tasks[0]? = some task ∧
      AdmittedIn (someIp 1) 0 task :=
    ⟨_, rfl, rfl, ⟨1, rfl⟩, 0, rfl, by decide⟩
  refine ⟨hfirst, overlapping_requests_limited oneAMinute (by decide) rivals (someIp 1) 0 [0]
    (by decide) fun i hi => ?_⟩
  rw [List.mem_singleton.mp hi]
  exact hfirst

end Example

end BarebonesProxy.SecurityHistory
