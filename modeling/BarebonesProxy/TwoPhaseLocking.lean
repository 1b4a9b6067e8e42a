import BarebonesProxy.EffectPrograms
import BarebonesProxy.Runs
import Mathlib.Order.Lattice
import Mathlib.Data.List.Nodup

set_option autoImplicit false

/-!
# Two-phase locking

Routines of many threads take and release locks on the parts of a store, in shared or
exclusive mode. A routine that takes no lock after its first release acts as if it ran alone
at that release, whatever the threads do in between.
-/
namespace BarebonesProxy.TwoPhaseLocking
open EffectPrograms Runs

inductive LockOp (L : Type) (σ : L → Type) where
  | clock
  | acquire (l : L)
  | release (l : L) (v : σ l)
  | share (l : L)
  | unshare (l : L)

def LockOp.Reply {L : Type} {σ : L → Type} : LockOp L σ → Type
  | .clock => ℕ
  | .acquire l => σ l
  | .release _ _ => Unit
  | .share l => σ l
  | .unshare _ => Unit

abbrev Routine (L : Type) (σ : L → Type) (α : Type) := Prog (LockOp L σ) LockOp.Reply α

inductive Hold where
  | free
  | shared
  | exclusive
deriving DecidableEq

section Alone
variable {L : Type} [LinearOrder L] {σ : L → Type} {α : Type}

/-- The routine runs alone on a store; `times` are its clock readings. -/
def solo : Routine L σ α → List ℕ → (∀ l, σ l) → α × (∀ l, σ l)
  | .pure a, _, store => (a, store)
  | .op .clock k, times, store => solo (k (times.headD 0)) times.tail store
  | .op (.acquire l) k, times, store => solo (k (store l)) times store
  | .op (.release l v) k, times, store => solo (k ()) times (Function.update store l v)
  | .op (.share l) k, times, store => solo (k (store l)) times store
  | .op (.unshare _) k, times, store => solo (k ()) times store

/-- From here on the routine only releases what it holds. -/
def Shrinking : (L → Hold) → Routine L σ α → Prop
  | holds, .pure _ => ∀ l, holds l = .free
  | holds, .op (.release l _) k =>
    holds l = .exclusive ∧ Shrinking (Function.update holds l .free) (k ())
  | holds, .op (.unshare l) k =>
    holds l = .shared ∧ Shrinking (Function.update holds l .free) (k ())
  | _, .op _ _ => False

/-- What a shrinking routine returns and leaves in the locks it holds is settled, and it
leaves the other parts of the store alone. -/
theorem Shrinking.settled {holds : L → Hold} {r : Routine L σ α} (h : Shrinking holds r)
    (times times' : List ℕ) (store store' : ∀ l, σ l) :
    (solo r times store).1 = (solo r times' store').1 ∧
      (∀ l, holds l = .exclusive → (solo r times store).2 l = (solo r times' store').2 l) ∧
      ∀ l, holds l ≠ .exclusive → (solo r times store).2 l = store l := by
  induction r generalizing holds times times' store store' with
  | pure a =>
    refine ⟨rfl, fun l hl => ?_, fun l _ => rfl⟩
    rw [h l] at hl
    cases hl
  | op e k ih =>
    cases e with
    | release l v =>
      obtain ⟨hl, hrest⟩ := h
      obtain ⟨hresult, hheld, hother⟩ := ih () hrest times times'
        (Function.update store l v) (Function.update store' l v)
      refine ⟨hresult, fun l' hl' => ?_, fun l' hl' => ?_⟩
      · by_cases heq : l' = l
        · -- what was just released stays
          subst heq
          have hnot : Function.update holds l' Hold.free l' ≠ .exclusive := by
            simp
          have hfirst := hother l' hnot
          have hsecond := (ih () hrest times' times (Function.update store' l' v)
            (Function.update store l' v)).2.2 l' hnot
          rw [Function.update_self] at hfirst hsecond
          exact hfirst.trans hsecond.symm
        · exact hheld l' (by rw [Function.update_of_ne heq]; exact hl')
      · have hne : l' ≠ l := fun heq => hl' (heq ▸ hl)
        have hkept := hother l' (by rw [Function.update_of_ne hne]; exact hl')
        rw [Function.update_of_ne hne] at hkept
        exact hkept
    | unshare l =>
      obtain ⟨hl, hrest⟩ := h
      obtain ⟨hresult, hheld, hother⟩ := ih () hrest times times' store store'
      refine ⟨hresult, fun l' hl' => hheld l' ?_, fun l' hl' => hother l' ?_⟩
      · have hne : l' ≠ l := by
          rintro rfl
          rw [hl] at hl'
          cases hl'
        rw [Function.update_of_ne hne]
        exact hl'
      · by_cases heq : l' = l
        · subst heq
          simp
        · rw [Function.update_of_ne heq]
          exact hl'
    | _ => exact h.elim

/-- The routine has released nothing yet. It takes its locks in increasing order. -/
def Growing : (L → Hold) → Routine L σ α → Prop
  | _, .pure _ => False
  | holds, .op .clock k => ∀ t : ℕ, Growing holds (k t)
  | holds, .op (.acquire l) k => (∀ l', holds l' ≠ .free → l' < l) ∧
    ∀ v : σ l, Growing (Function.update holds l .exclusive) (k v)
  | holds, .op (.share l) k => (∀ l', holds l' ≠ .free → l' < l) ∧
    ∀ v : σ l, Growing (Function.update holds l .shared) (k v)
  | holds, .op (.release l v) k => Shrinking holds (.op (.release l v) k)
  | holds, .op (.unshare l) k => Shrinking holds (.op (.unshare l) k)

/-- A routine that uses no lock at all has its result from the start. -/
def TwoPhase : Routine L σ α → Prop
  | .pure _ => True
  | r => Growing (fun _ => .free) r

end Alone

section Systems
variable {L : Type} [LinearOrder L] {σ : L → Type} {α Op : Type}

/-- A call under way. -/
structure Task (L : Type) (σ : L → Type) (α Op : Type) where
  op : Op
  left : Routine L σ α
  holds : L → Hold
  times : List ℕ
  released : Bool

/-- A call that has taken effect. -/
structure Commit (α Op : Type) where
  task : ℕ
  op : Op
  times : List ℕ
  now : ℕ
  result : α

/-- `settled` is the store after the commits, one after the other. Neither it nor the
commits are part of the system. -/
structure System (L : Type) (σ : L → Type) (α Op : Type) where
  now : ℕ
  store : ∀ l, σ l
  tasks : List (Task L σ α Op)
  settled : ∀ l, σ l
  commits : List (Commit α Op)

inductive Action (Op : Type) where
  | invoke (op : Op)
  | step (task : ℕ)
  | wait (duration : ℕ)

namespace LockOp

def releases : LockOp L σ → Bool
  | .release _ _ => true
  | .unshare _ => true
  | _ => false

def holdsAfter (holds : L → Hold) : LockOp L σ → L → Hold
  | .clock => holds
  | .acquire l => Function.update holds l .exclusive
  | .share l => Function.update holds l .shared
  | .release l _ => Function.update holds l .free
  | .unshare l => Function.update holds l .free

def storeAfter (store : ∀ l, σ l) : LockOp L σ → ∀ l, σ l
  | .release l v => Function.update store l v
  | _ => store

def timesAfter (now : ℕ) (times : List ℕ) : LockOp L σ → List ℕ
  | .clock => times ++ [now]
  | _ => times

end LockOp

/-- A shrinking routine releases one lock and holds on to the others. -/
theorem Shrinking.step {holds : L → Hold} {e : LockOp L σ} {k : e.Reply → Routine L σ α}
    (h : Shrinking holds (.op e k)) (r : e.Reply) :
    Shrinking (e.holdsAfter holds) (k r) ∧
      (∀ l, e.holdsAfter holds l = holds l ∨ e.holdsAfter holds l = .free) ∧
      (∀ times store, solo (.op e k) times store = solo (k r) times (e.storeAfter store)) ∧
      ∀ store l, holds l ≠ .exclusive → e.storeAfter store l = store l := by
  have hfree : ∀ l l', Function.update holds l Hold.free l' = holds l' ∨
      Function.update holds l Hold.free l' = .free := by
    intro l l'
    by_cases heq : l' = l
    · subst heq
      exact .inr (Function.update_self ..)
    · exact .inl (Function.update_of_ne heq ..)
  cases e with
  | release l v =>
    refine ⟨h.2, hfree l, fun _ _ => rfl, fun store l' hl' => ?_⟩
    exact Function.update_of_ne (fun heq : l' = l => hl' (heq ▸ h.1)) ..
  | unshare l => exact ⟨h.2, hfree l, fun _ _ => rfl, fun _ _ _ => rfl⟩
  | clock => exact h.elim
  | acquire l => exact h.elim
  | share l => exact h.elim

namespace System

def start (store : ∀ l, σ l) : System L σ α Op := ⟨0, store, [], store, []⟩

def reply (s : System L σ α Op) : (e : LockOp L σ) → e.Reply
  | .clock => s.now
  | .acquire l => s.store l
  | .release _ _ => ()
  | .share l => s.store l
  | .unshare _ => ()

/-- A lock is given exclusively if nobody holds it, and shared if nobody holds it
exclusively. -/
def admits (s : System L σ α Op) : LockOp L σ → Bool
  | .acquire l => s.tasks.all fun task => task.holds l = .free
  | .share l => s.tasks.all fun task => task.holds l ≠ .exclusive
  | _ => true

variable (program : Op → Routine L σ α)

/-- A call takes effect at its first release. -/
def takesEffect (task : Task L σ α Op) (e : LockOp L σ) : Bool := e.releases && !task.released

def perform (s : System L σ α Op) (i : ℕ) (task : Task L σ α Op) (e : LockOp L σ)
    (k : e.Reply → Routine L σ α) : System L σ α Op where
  now := s.now
  store := e.storeAfter s.store
  tasks := s.tasks.set i
    { task with
      left := k (s.reply e)
      holds := e.holdsAfter task.holds
      times := e.timesAfter s.now task.times
      released := task.released || e.releases }
  settled :=
    if takesEffect task e then (solo (program task.op) task.times s.settled).2 else s.settled
  commits :=
    if takesEffect task e then
      s.commits ++
        [⟨i, task.op, task.times, s.now, (solo (program task.op) task.times s.settled).1⟩]
    else s.commits

variable {program} in
theorem perform_of_growing (s : System L σ α Op) (i : ℕ) (task : Task L σ α Op) {e : LockOp L σ}
    (k : e.Reply → Routine L σ α) (hreleases : e.releases = false) :
    s.perform program i task e k =
      { s with
        store := e.storeAfter s.store
        tasks := s.tasks.set i
          { task with
            left := k (s.reply e)
            holds := e.holdsAfter task.holds
            times := e.timesAfter s.now task.times } } := by
  unfold perform takesEffect
  rw [hreleases, Bool.or_false, Bool.false_and]
  rfl

def invoke (s : System L σ α Op) (op : Op) : System L σ α Op :=
  match program op with
  | .pure a =>
    { s with
      tasks := s.tasks ++ [⟨op, .pure a, fun _ => .free, [], true⟩]
      commits := s.commits ++ [⟨s.tasks.length, op, [], s.now, a⟩] }
  | r => { s with tasks := s.tasks ++ [⟨op, r, fun _ => .free, [], false⟩] }

def step (s : System L σ α Op) : Action Op → System L σ α Op
  | .invoke op => s.invoke program op
  | .wait duration => { s with now := s.now + duration }
  | .step i =>
    match s.tasks[i]? with
    | none => s
    | some task =>
      match task.left with
      | .pure _ => s
      | .op e k => if s.admits e then s.perform program i task e k else s

def after (s : System L σ α Op) (actions : List (Action Op)) : System L σ α Op :=
  actions.foldl (System.step program) s

theorem step_cases (s : System L σ α Op) (i : ℕ) :
    s.step program (.step i) = s ∨ ∃ task e k, s.tasks[i]? = some task ∧ task.left = .op e k ∧
      s.admits e = true ∧ s.step program (.step i) = s.perform program i task e k := by
  unfold step
  dsimp only
  cases htask : s.tasks[i]? with
  | none => exact .inl rfl
  | some task =>
    dsimp only
    cases hleft : task.left with
    | pure a => exact .inl rfl
    | op e k =>
      dsimp only
      by_cases hadmits : s.admits e = true
      · exact .inr ⟨task, e, k, rfl, hleft, hadmits, if_pos hadmits⟩
      · exact .inl (if_neg hadmits)

end System

end Systems

section Invariant
variable {L : Type} [LinearOrder L] {σ : L → Type} {α Op : Type}
variable {program : Op → Routine L σ α} {s : System L σ α Op}

/-- What is known of a call: before its first release, that it has done what it would have
done alone on the settled store; from then on, what it has still to write back. -/
structure TaskOk (program : Op → Routine L σ α) (settled : ∀ l, σ l) (commits : List (Commit α Op))
    (i : ℕ) (task : Task L σ α Op) : Prop where
  growing : task.released = false → Growing task.holds task.left ∧ (∀ c ∈ commits, c.task ≠ i) ∧
    ∀ times store, (∀ l, task.holds l ≠ .free → store l = settled l) →
      solo (program task.op) (task.times ++ times) store = solo task.left times store
  shrinking : task.released = true → Shrinking task.holds task.left ∧
    ∃ c ∈ commits, c.task = i ∧ c.op = task.op ∧ c.times = task.times ∧
      ∀ times store, (solo task.left times store).1 = c.result ∧
        ∀ l, task.holds l = .exclusive → (solo task.left times store).2 l = settled l

structure Sound (program : Op → Routine L σ α) (s : System L σ α Op) : Prop where
  tasks : ∀ (i : ℕ) (task : Task L σ α Op), s.tasks[i]? = some task →
    TaskOk program s.settled s.commits i task
  exclusion : ∀ (i j : ℕ) (task other : Task L σ α Op), s.tasks[i]? = some task →
    s.tasks[j]? = some other → i ≠ j → ∀ l, task.holds l = .exclusive → other.holds l = .free
  store : ∀ l, (∀ task ∈ s.tasks, task.released = true → task.holds l ≠ .exclusive) →
    s.store l = s.settled l
  invoked : ∀ c ∈ s.commits, ∃ task, s.tasks[c.task]? = some task ∧ task.op = c.op ∧
    task.released = true ∧ task.times = c.times
  once : (s.commits.map Commit.task).Nodup

theorem Sound.start (store : ∀ l, σ l) : Sound program (System.start store) where
  tasks _ _ h := by cases h
  exclusion _ _ _ _ h := by cases h
  store _ _ := rfl
  invoked _ h := absurd h List.not_mem_nil
  once := List.nodup_nil

theorem Sound.wait (h : Sound program s) (duration : ℕ) :
    Sound program { s with now := s.now + duration } :=
  ⟨h.tasks, h.exclusion, h.store, h.invoked, h.once⟩

theorem getElem?_concat_cases {β : Type} {l : List β} {a b : β} {i : ℕ}
    (h : (l ++ [a])[i]? = some b) : l[i]? = some b ∨ i = l.length ∧ b = a := by
  rw [List.getElem?_append] at h
  split at h
  · exact .inl h
  · next hge =>
    obtain ⟨hlt, hb⟩ := List.getElem?_eq_some_iff.mp h
    rw [List.length_singleton] at hlt
    exact .inr ⟨by omega, by simpa using hb.symm⟩

theorem getElem?_set_cases {β : Type} {l : List β} {a b : β} {i j : ℕ}
    (h : (l.set i a)[j]? = some b) : j = i ∧ b = a ∨ j ≠ i ∧ l[j]? = some b := by
  by_cases hj : j = i
  · subst hj
    rw [List.getElem?_set_self'] at h
    obtain ⟨_, -, hb⟩ := Option.map_eq_some_iff.mp h
    exact .inl ⟨rfl, hb.symm⟩
  · rw [List.getElem?_set_ne (Ne.symm hj)] at h
    exact .inr ⟨hj, h⟩

/-- A new call holds no lock. -/
theorem Sound.invoked_task (h : Sound program s) (task : Task L σ α Op)
    (commits : List (Commit α Op)) (hfree : ∀ l, task.holds l = .free)
    (htask : TaskOk program s.settled (s.commits ++ commits) s.tasks.length task)
    (hcommits : ∀ c ∈ commits, c.task = s.tasks.length ∧ task.op = c.op ∧
      task.released = true ∧ task.times = c.times)
    (honce : (commits.map Commit.task).Nodup) :
    Sound program { s with tasks := s.tasks ++ [task], commits := s.commits ++ commits } where
  tasks i found hfound := by
    rcases getElem?_concat_cases hfound with hold | ⟨rfl, rfl⟩
    · have hlt : i < s.tasks.length := (List.getElem?_eq_some_iff.mp hold).1
      obtain ⟨hgrowing, hshrinking⟩ := h.tasks i found hold
      refine ⟨fun hr => ?_, fun hr => ?_⟩
      · obtain ⟨hg, hnot, hsolo⟩ := hgrowing hr
        refine ⟨hg, fun c hc => ?_, hsolo⟩
        rcases List.mem_append.mp hc with hc | hc
        · exact hnot c hc
        · rw [(hcommits c hc).1]
          exact hlt.ne'
      · obtain ⟨hg, c, hc, hrest⟩ := hshrinking hr
        exact ⟨hg, c, List.mem_append_left _ hc, hrest⟩
    · exact htask
  exclusion i j first second hfirst hsecond hne l hl := by
    rcases getElem?_concat_cases hfirst with hi | ⟨-, rfl⟩
    · rcases getElem?_concat_cases hsecond with hj | ⟨-, rfl⟩
      · exact h.exclusion i j first second hi hj hne l hl
      · exact hfree l
    · rw [hfree l] at hl
      cases hl
  store l hl := h.store l fun task htask => hl task (List.mem_append_left _ htask)
  invoked c hc := by
    rcases List.mem_append.mp hc with hc | hc
    · obtain ⟨found, hfound, hrest⟩ := h.invoked c hc
      have hlt : c.task < s.tasks.length := (List.getElem?_eq_some_iff.mp hfound).1
      exact ⟨found, (List.getElem?_append_left hlt).trans hfound, hrest⟩
    · obtain ⟨htask, hrest⟩ := hcommits c hc
      rw [htask]
      exact ⟨task, List.getElem?_concat_length, hrest⟩
  once := by
    rw [List.map_append, List.nodup_append]
    refine ⟨h.once, honce, fun i hi j hj => ?_⟩
    obtain ⟨c, hc, rfl⟩ := List.mem_map.mp hi
    obtain ⟨d, hd, rfl⟩ := List.mem_map.mp hj
    obtain ⟨found, hfound, -⟩ := h.invoked c hc
    have hlt : c.task < s.tasks.length := (List.getElem?_eq_some_iff.mp hfound).1
    rw [(hcommits d hd).1]
    exact hlt.ne

theorem Sound.invoke (h : Sound program s) {op : Op} (hop : TwoPhase (program op)) :
    Sound program (s.invoke program op) := by
  unfold System.invoke
  cases hprogram : program op with
  | pure a =>
    refine h.invoked_task _ _ (fun _ => rfl) ⟨nofun, fun _ => ?_⟩ (fun c hc => ?_)
      (List.nodup_singleton _)
    · refine ⟨fun _ => rfl, ⟨s.tasks.length, op, [], s.now, a⟩,
        List.mem_append_right _ (.head _), rfl, rfl, rfl, fun times store => ⟨rfl, nofun⟩⟩
    · rw [List.mem_singleton.mp hc]
      exact ⟨rfl, rfl, rfl, rfl⟩
  | op e k =>
    have hinv := h.invoked_task ⟨op, .op e k, fun _ => .free, [], false⟩ [] (fun _ => rfl)
      ⟨fun _ => ?_, nofun⟩ (fun c hc => absurd hc List.not_mem_nil) List.nodup_nil
    · rw [List.append_nil] at hinv
      exact hinv
    · rw [hprogram] at hop
      refine ⟨hop, fun c hc => ?_, fun times store _ => ?_⟩
      · rw [List.append_nil] at hc
        obtain ⟨found, hfound, -⟩ := h.invoked c hc
        exact (List.getElem?_eq_some_iff.mp hfound).1.ne
      · change solo (program op) ([] ++ times) store = _
        rw [hprogram]
        rfl

variable {i : ℕ} {task : Task L σ α Op}

/-- A step of a call that has released nothing. -/
theorem Sound.grow (h : Sound program s) (htask : s.tasks[i]? = some task)
    (hreleased : task.released = false) (task' : Task L σ α Op)
    (hreleased' : task'.released = false)
    (hok : TaskOk program s.settled s.commits i task')
    (hholds : ∀ j other, s.tasks[j]? = some other → j ≠ i → ∀ l,
      (task'.holds l = .exclusive → other.holds l = .free) ∧
        (other.holds l = .exclusive → task'.holds l = .free)) :
    Sound program { s with tasks := s.tasks.set i task' } where
  tasks j found hfound := by
    rcases getElem?_set_cases hfound with ⟨rfl, rfl⟩ | ⟨-, hfound⟩
    · exact hok
    · exact h.tasks j found hfound
  exclusion j j' first second hfirst hsecond hne l hl := by
    rcases getElem?_set_cases hfirst with ⟨rfl, rfl⟩ | ⟨hj, hold⟩
    · rcases getElem?_set_cases hsecond with ⟨rfl, -⟩ | ⟨hj', hold'⟩
      · exact absurd rfl hne
      · exact (hholds j' second hold' hj' l).1 hl
    · rcases getElem?_set_cases hsecond with ⟨rfl, rfl⟩ | ⟨-, hold'⟩
      · exact (hholds j first hold hj l).2 hl
      · exact h.exclusion j j' first second hold hold' hne l hl
  store l hl := by
    refine h.store l fun found hfound hr => ?_
    obtain ⟨j, hj⟩ := List.mem_iff_getElem?.mp hfound
    have hne : j ≠ i := by
      rintro rfl
      cases Option.some.inj (hj.symm.trans htask)
      rw [hreleased] at hr
      cases hr
    refine hl found (List.mem_iff_getElem?.mpr ⟨j, ?_⟩) hr
    exact (List.getElem?_set_ne hne.symm).trans hj
  invoked c hc := by
    obtain ⟨found, hfound, hop, hr, htimes⟩ := h.invoked c hc
    have hne : c.task ≠ i := by
      intro heq
      rw [heq, htask] at hfound
      cases hfound
      rw [hreleased] at hr
      cases hr
    exact ⟨found, (List.getElem?_set_ne hne.symm).trans hfound, hop, hr, htimes⟩
  once := h.once

/-- A call that is about to release takes effect: what it will write back is settled. -/
theorem Sound.settle (h : Sound program s) (htask : s.tasks[i]? = some task)
    (hreleased : task.released = false) (hshrinking : Shrinking task.holds task.left) :
    Sound program
      { s with
        tasks := s.tasks.set i { task with released := true }
        settled := (solo (program task.op) task.times s.settled).2
        commits := s.commits ++ [⟨i, task.op, task.times, s.now,
          (solo (program task.op) task.times s.settled).1⟩] } := by
  obtain ⟨-, hnone, hsolo⟩ := (h.tasks i task htask).growing hreleased
  have halone : solo (program task.op) task.times s.settled = solo task.left [] s.settled := by
    have hwhole := hsolo [] s.settled fun _ _ => rfl
    rwa [List.append_nil] at hwhole
  -- only locks that the call holds exclusively change, and nobody else holds these
  have hkept : ∀ l, task.holds l ≠ .exclusive → (solo task.left [] s.settled).2 l = s.settled l :=
    (hshrinking.settled [] [] s.settled s.settled).2.2
  have hothers : ∀ j other, s.tasks[j]? = some other → j ≠ i → ∀ l, other.holds l ≠ .free →
      (solo task.left [] s.settled).2 l = s.settled l := by
    intro j other hother hne l hl
    exact hkept l fun hheld => hl (h.exclusion i j task other htask hother hne.symm l hheld)
  rw [halone]
  refine ⟨fun j found hfound => ?_, fun j j' first second hfirst hsecond hne l hl => ?_,
    fun l hl => ?_, fun c hc => ?_, ?_⟩
  · rcases getElem?_set_cases hfound with ⟨rfl, rfl⟩ | ⟨hj, hfound⟩
    · refine ⟨nofun, fun _ => ⟨hshrinking, _, List.mem_append_right _ (.head _), rfl, rfl, rfl,
        fun times store => ?_⟩⟩
      obtain ⟨hresult, hheld, -⟩ := hshrinking.settled times [] store s.settled
      exact ⟨hresult, hheld⟩
    · obtain ⟨hgrowing, hshrunk⟩ := h.tasks j found hfound
      refine ⟨fun hr => ?_, fun hr => ?_⟩
      · obtain ⟨hg, hnot, hsame⟩ := hgrowing hr
        refine ⟨hg, fun c hc => ?_, fun times store hstore => hsame times store fun l hl => ?_⟩
        · rcases List.mem_append.mp hc with hc | hc
          · exact hnot c hc
          · rw [List.mem_singleton.mp hc]
            exact hj.symm
        · exact (hstore l hl).trans (hothers j found hfound hj l hl)
      · obtain ⟨hg, c, hc, hi, hop, htimes, hleft⟩ := hshrunk hr
        refine ⟨hg, c, List.mem_append_left _ hc, hi, hop, htimes, fun times store => ?_⟩
        refine ⟨(hleft times store).1, fun l hl => ((hleft times store).2 l hl).trans ?_⟩
        exact (hothers j found hfound hj l (by rw [hl]; exact nofun)).symm
  · have hholds : ∀ {j : ℕ} {found : Task L σ α Op},
        (s.tasks.set i { task with released := true })[j]? = some found →
        ∃ before, s.tasks[j]? = some before ∧ before.holds = found.holds := by
      intro j found hfound
      rcases getElem?_set_cases hfound with ⟨rfl, rfl⟩ | ⟨-, hfound⟩
      · exact ⟨task, htask, rfl⟩
      · exact ⟨found, hfound, rfl⟩
    obtain ⟨before, hbefore, hsame⟩ := hholds hfirst
    obtain ⟨before', hbefore', hsame'⟩ := hholds hsecond
    rw [← hsame'] 
    exact h.exclusion j j' before before' hbefore hbefore' hne l (by rw [hsame]; exact hl)
  · have hlt : i < s.tasks.length := (List.getElem?_eq_some_iff.mp htask).1
    have hself : task.holds l ≠ .exclusive :=
      hl { task with released := true }
        (List.mem_iff_getElem?.mpr ⟨i, List.getElem?_set_self hlt⟩) rfl
    refine (h.store l fun found hfound hr => ?_).trans (hkept l hself).symm
    obtain ⟨j, hj⟩ := List.mem_iff_getElem?.mp hfound
    by_cases hji : j = i
    · subst hji
      cases Option.some.inj (hj.symm.trans htask)
      exact hself
    · refine hl found (List.mem_iff_getElem?.mpr ⟨j, ?_⟩) hr
      exact (List.getElem?_set_ne (Ne.symm hji)).trans hj
  · have hlt : i < s.tasks.length := (List.getElem?_eq_some_iff.mp htask).1
    rcases List.mem_append.mp hc with hc | hc
    · obtain ⟨found, hfound, hrest⟩ := h.invoked c hc
      exact ⟨found, (List.getElem?_set_ne (hnone c hc).symm).trans hfound, hrest⟩
    · rw [List.mem_singleton.mp hc]
      exact ⟨{ task with released := true }, List.getElem?_set_self hlt, rfl, rfl, rfl⟩
  · rw [List.map_append, List.nodup_append]
    refine ⟨h.once, List.nodup_singleton _, fun a ha b hb => ?_⟩
    obtain ⟨c, hc, rfl⟩ := List.mem_map.mp ha
    rw [List.mem_singleton.mp hb]
    exact hnone c hc

/-- A call that has taken effect writes back what was settled for it. -/
theorem Sound.give (h : Sound program s) (htask : s.tasks[i]? = some task)
    (hreleased : task.released = true) {e : LockOp L σ} {k : e.Reply → Routine L σ α}
    (hleft : task.left = .op e k) :
    Sound program
      { s with
        store := e.storeAfter s.store
        tasks := s.tasks.set i
          { task with left := k (s.reply e), holds := e.holdsAfter task.holds } } := by
  obtain ⟨hshrinking, c, hc, hi, hop, htimes, hrest⟩ := (h.tasks i task htask).shrinking hreleased
  rw [hleft] at hshrinking hrest
  have hlt : i < s.tasks.length := (List.getElem?_eq_some_iff.mp htask).1
  obtain ⟨hnext, hholds, hsolo, hkept⟩ := hshrinking.step (s.reply e)
  refine ⟨fun j found hfound => ?_, fun j j' first second hfirst hsecond hne l hl => ?_,
    fun l hl => ?_, fun d hd => ?_, h.once⟩
  · rcases getElem?_set_cases hfound with ⟨rfl, rfl⟩ | ⟨-, hfound⟩
    · refine ⟨fun hr => absurd (hreleased.symm.trans hr) Bool.noConfusion,
        fun _ => ⟨hnext, c, hc, hi, hop, htimes, fun times store => ?_⟩⟩
      obtain ⟨hresult, hheld, -⟩ := hnext.settled times times store (e.storeAfter store)
      rw [← hsolo] at hresult hheld
      refine ⟨hresult.trans (hrest times store).1, fun l hl => ?_⟩
      have hbefore : task.holds l = .exclusive := by
        rcases hholds l with heq | hfree
        · rw [← heq]
          exact hl
        · cases hfree.symm.trans hl
      exact (hheld l hl).trans ((hrest times store).2 l hbefore)
    · exact h.tasks j found hfound
  · rcases getElem?_set_cases hfirst with ⟨rfl, rfl⟩ | ⟨hj, hold⟩
    · rcases getElem?_set_cases hsecond with ⟨rfl, -⟩ | ⟨hj', hold'⟩
      · exact absurd rfl hne
      · rcases hholds l with heq | hfree
        · exact h.exclusion j j' task second htask hold' hne l (heq.symm.trans hl)
        · cases hfree.symm.trans hl
    · rcases getElem?_set_cases hsecond with ⟨rfl, rfl⟩ | ⟨-, hold'⟩
      · have hfree := h.exclusion j j' first task hold htask hne l hl
        exact (hholds l).elim (fun heq => heq.trans hfree) id
      · exact h.exclusion j j' first second hold hold' hne l hl
  · have hself : e.holdsAfter task.holds l ≠ .exclusive :=
      hl _ (List.mem_iff_getElem?.mpr ⟨i, List.getElem?_set_self hlt⟩) hreleased
    change e.storeAfter s.store l = s.settled l
    by_cases hexclusive : task.holds l = .exclusive
    · -- the lock is given back with the value that was settled
      have hgiven := (hnext.settled [] [] (e.storeAfter s.store) s.store).2.2 l hself
      rw [← hsolo] at hgiven
      exact hgiven.symm.trans ((hrest [] s.store).2 l hexclusive)
    · rw [hkept s.store l hexclusive]
      refine h.store l fun found hfound hr => ?_
      obtain ⟨j, hj⟩ := List.mem_iff_getElem?.mp hfound
      by_cases hji : j = i
      · subst hji
        cases Option.some.inj (hj.symm.trans htask)
        exact hexclusive
      · refine hl found (List.mem_iff_getElem?.mpr ⟨j, ?_⟩) hr
        exact (List.getElem?_set_ne (Ne.symm hji)).trans hj
  · obtain ⟨found, hfound, hop', hr, htimes'⟩ := h.invoked d hd
    by_cases hdi : d.task = i
    · rw [hdi, htask] at hfound
      cases hfound
      refine ⟨{ task with left := k (s.reply e), holds := e.holdsAfter task.holds }, ?_, hop', hr,
        htimes'⟩
      rw [hdi]
      exact List.getElem?_set_self hlt
    · exact ⟨found, (List.getElem?_set_ne (Ne.symm hdi)).trans hfound, hop', hr, htimes'⟩

/-- A call takes a lock: the value it gets is the settled one. -/
theorem Sound.take (h : Sound program s) (htask : s.tasks[i]? = some task)
    (hreleased : task.released = false) {e : LockOp L σ} {k : e.Reply → Routine L σ α}
    (hleft : task.left = .op e k) {l : L} (mode : Hold) (hmode : mode ≠ .free)
    (k' : σ l → Routine L σ α)
    (hsolo : ∀ times store, solo (.op e k) times store = solo (k' (store l)) times store)
    (hbelow : ∀ l', task.holds l' ≠ .free → l' < l)
    (hgrowing : Growing (Function.update task.holds l mode) (k' (s.store l)))
    (hwriter : ∀ other ∈ s.tasks, other.holds l ≠ .exclusive)
    (hreader : mode = .exclusive → ∀ other ∈ s.tasks, other.holds l = .free) :
    Sound program
      { s with
        tasks := s.tasks.set i
          { task with left := k' (s.store l), holds := Function.update task.holds l mode } } := by
  have hvalue : s.store l = s.settled l := h.store l fun other hother _ => hwriter other hother
  have hself : Function.update task.holds l mode l = mode := Function.update_self ..
  have hsame : ∀ l', l' ≠ l → Function.update task.holds l mode l' = task.holds l' :=
    fun l' hl' => Function.update_of_ne hl' ..
  obtain ⟨-, hnone, hwhole⟩ := (h.tasks i task htask).growing hreleased
  refine h.grow htask hreleased _ hreleased
    ⟨fun _ => ⟨hgrowing, hnone, fun times store hstore => ?_⟩,
    fun hr => absurd (hreleased.symm.trans hr) Bool.noConfusion⟩ fun j other hother hj l' => ?_
  · have hl : store l = s.store l := by
      rw [hvalue]
      exact hstore l (hself.trans_ne hmode)
    have hbefore := hwhole times store fun l' hl' => hstore l' ?_
    · rw [hleft, hsolo, hl] at hbefore
      exact hbefore
    · have hne : l' ≠ l := (hbelow l' hl').ne
      exact (hsame l' hne).trans_ne hl'
  · by_cases hl' : l' = l
    · subst hl'
      have hmem := List.mem_of_getElem? hother
      exact ⟨fun hx => hreader (hself.symm.trans hx) other hmem,
        fun hx => absurd hx (hwriter other hmem)⟩
    · dsimp only
      rw [hsame l' hl']
      exact ⟨h.exclusion i j task other htask hother hj.symm l',
        h.exclusion j i other task hother htask hj l'⟩

/-- A release is the commit of the call, if it is the first, and then the giving back. -/
theorem Sound.release (h : Sound program s) (htask : s.tasks[i]? = some task) {e : LockOp L σ}
    {k : e.Reply → Routine L σ α} (hleft : task.left = .op e k) (hreleases : e.releases = true)
    (hshrinking : Shrinking task.holds (.op e k)) :
    Sound program (s.perform program i task e k) := by
  have htimes : e.timesAfter s.now task.times = task.times := by
    cases e with
    | clock => cases hreleases
    | _ => rfl
  unfold System.perform System.takesEffect
  rw [hreleases, htimes, Bool.or_true, Bool.true_and]
  cases hreleased : task.released with
  | true =>
    have hgive := h.give htask hreleased hleft
    rw [hreleased] at hgive
    exact hgive
  | false =>
    have hlt : i < s.tasks.length := (List.getElem?_eq_some_iff.mp htask).1
    have hsettle := h.settle htask hreleased (by rw [hleft]; exact hshrinking)
    have hgive := hsettle.give (List.getElem?_set_self hlt) rfl hleft
    rw [List.set_set] at hgive
    cases e with
    | release l v => exact hgive
    | unshare l => exact hgive
    | clock => cases hreleases
    | acquire l => cases hreleases
    | share l => cases hreleases

theorem Sound.perform (h : Sound program s) (htask : s.tasks[i]? = some task) {e : LockOp L σ}
    {k : e.Reply → Routine L σ α} (hleft : task.left = .op e k) (hadmits : s.admits e = true) :
    Sound program (s.perform program i task e k) := by
  cases hreleased : task.released with
  | true =>
    have hshrinking := ((h.tasks i task htask).shrinking hreleased).1
    rw [hleft] at hshrinking
    -- a call that has released something goes on releasing
    have hreleases : e.releases = true := by
      cases e with
      | release l v => rfl
      | unshare l => rfl
      | clock => exact hshrinking.elim
      | acquire l => exact hshrinking.elim
      | share l => exact hshrinking.elim
    exact h.release htask hleft hreleases hshrinking
  | false =>
    obtain ⟨hgrowing, hnone, hsolo⟩ := (h.tasks i task htask).growing hreleased
    rw [hleft] at hgrowing hsolo
    cases e with
    | release l v => exact h.release htask hleft rfl hgrowing
    | unshare l => exact h.release htask hleft rfl hgrowing
    | clock =>
      have hgrow := h.grow htask hreleased
        { task with left := k s.now, times := task.times ++ [s.now] } hreleased
        ⟨fun _ => ⟨hgrowing s.now, hnone, fun times store hstore => ?_⟩,
          fun hr => absurd (hreleased.symm.trans hr) Bool.noConfusion⟩
        fun j other hother hj l => ⟨h.exclusion i j task other htask hother hj.symm l,
          h.exclusion j i other task hother htask hj l⟩
      · rw [System.perform_of_growing s i task k rfl]
        exact hgrow
      · have hwhole := hsolo (s.now :: times) store hstore
        rw [List.append_assoc]
        exact hwhole
    | acquire l =>
      have hall : ∀ other ∈ s.tasks, other.holds l = .free := by
        simpa [System.admits] using hadmits
      have htake := h.take htask hreleased hleft .exclusive nofun k (fun _ _ => rfl)
        hgrowing.1 (hgrowing.2 _) (fun other hother => (hall other hother).trans_ne nofun)
        (fun _ => hall)
      rw [System.perform_of_growing s i task k rfl]
      exact htake
    | share l =>
      have hall : ∀ other ∈ s.tasks, other.holds l ≠ .exclusive := by
        simpa [System.admits] using hadmits
      have htake := h.take htask hreleased hleft .shared nofun k (fun _ _ => rfl)
        hgrowing.1 (hgrowing.2 _) hall nofun
      rw [System.perform_of_growing s i task k rfl]
      exact htake

theorem Sound.step (h : Sound program s) (hprogram : ∀ op, TwoPhase (program op)) (a : Action Op) :
    Sound program (s.step program a) := by
  cases a with
  | invoke op => exact h.invoke (hprogram op)
  | wait duration => exact h.wait duration
  | step i =>
    rcases System.step_cases program s i with hsame | ⟨task, e, k, htask, hleft, hadmits, hstep⟩
    · rw [hsame]
      exact h
    · rw [hstep]
      exact h.perform htask hleft hadmits

theorem after_sound (hprogram : ∀ op, TwoPhase (program op)) (store : ∀ l, σ l)
    (actions : List (Action Op)) : Sound program ((System.start store).after program actions) :=
  foldl_invariant (Sound program) (fun _ a h => h.step hprogram a) (.start store) actions

end Invariant

end BarebonesProxy.TwoPhaseLocking
