import BarebonesProxy.CacheBudget
import BarebonesProxy.CacheHistory
import BarebonesProxy.LockHistories

set_option autoImplicit false

/-!
# The cache under its locks

The workers share one engine, and its two `RwLock`s are taken one by one: `get` and `insert`
take the map first and then, if they need it, the counter. Here the operations are routines
of single lock operations, and `atomic` is what the rest of the development takes them for.
-/
namespace BarebonesProxy.Cache
open RustStrings RustState Http LruMap EffectPrograms Runs TwoPhaseLocking

inductive CacheLock where
  | inner
  | memory

namespace CacheLock

def rank : CacheLock → ℕ
  | .inner => 0
  | .memory => 1

theorem rank_injective : Function.Injective rank := by
  intro l l' h
  cases l <;> cases l' <;> first
    | rfl
    | cases h

instance : LinearOrder CacheLock := LinearOrder.lift' rank rank_injective

theorem inner_lt_memory : CacheLock.inner < CacheLock.memory := Nat.zero_lt_one

end CacheLock

section Operations
variable [HttpCrate]

inductive CacheOp where
  | get (key : Str)
  | insert (key : Str) (status : StatusCode) (headers : HeaderMap) (body : List UInt8)
      (ttlOverride : Option ℕ)
  | currentMemoryBytes
  | entryCount

inductive CacheReply where
  | asset (found : Option CachedAsset)
  | insertion (result : InsertResult)
  | number (n : ℕ)

variable [LruCrate]

def Locked : CacheLock → Type
  | .inner => Lock (LruCache Str CachedAsset)
  | .memory => Lock ℕ

abbrev CacheRoutine := Routine CacheLock Locked CacheReply

def getRoutine (key : Str) : CacheRoutine :=
  .op (.acquire .inner) fun (inner : Lock (LruCache Str CachedAsset)) =>
  match inner.write with
  | none => .op (.release .inner inner) fun _ => .pure (.asset none)
  | some guard =>
    match LruCrate.getMut guard key with
    | (none, guard) => .op (.release .inner ⟨guard, false⟩) fun _ => .pure (.asset none)
    | (some item, guard) =>
      .op .clock fun (now : ℕ) =>
      if item.isExpired now then
        let guard := (LruCrate.pop guard key).2
        .op (.acquire .memory) fun (memory : Lock ℕ) =>
        let memory := match memory.write with
          | some mem => ⟨mem - item.sizeBytes, false⟩
          | none => memory
        .op (.release .memory memory) fun _ =>
        .op (.release .inner ⟨guard, false⟩) fun _ => .pure (.asset none)
      else .op (.release .inner ⟨guard, false⟩) fun _ => .pure (.asset (some item))

def refusal (reason : Str) : CacheReply := .insertion ⟨false, 0, 0, 0, some reason⟩

/-- `limits` has the limits of the engine and its default lifetime. -/
def insertRoutine (limits : LruCacheEngine) (key : Str) (status : StatusCode) (headers : HeaderMap)
    (body : List UInt8) (ttlOverride : Option ℕ) : CacheRoutine :=
  let sizeBytes := body.length
  if limits.maxFileSizeBytes < sizeBytes then .pure (refusal "exceeds_max_file_size".toList)
  else if limits.maxCapacityBytes < sizeBytes then .pure (refusal "exceeds_max_capacity".toList)
  else
    .op .clock fun (now : ℕ) =>
    let asset : CachedAsset :=
      ⟨status, headers, body, now, ttlOverride.getD limits.defaultTtl, sizeBytes⟩
    .op (.acquire .inner) fun (inner : Lock (LruCache Str CachedAsset)) =>
    match inner.write with
    | none => .op (.release .inner inner) fun _ => .pure (refusal "lock_error".toList)
    | some guard =>
      .op (.acquire .memory) fun (memory : Lock ℕ) =>
      match memory.write with
      | none =>
        .op (.release .memory memory) fun _ =>
        .op (.release .inner inner) fun _ => .pure (refusal "lock_error".toList)
      | some mem =>
        let e := evict limits.maxCapacityBytes sizeBytes (LruCrate.entries guard).length
          ⟨guard, mem, 0, 0⟩
        if wrappingAdd e.mem sizeBytes ≤ limits.maxCapacityBytes then
          let put := LruCrate.put e.guard key asset
          let mem := match put.1 with
            | some old => e.mem - old.sizeBytes
            | none => e.mem
          .op (.release .memory ⟨wrappingAdd mem sizeBytes, false⟩) fun _ =>
          .op (.release .inner ⟨put.2, false⟩) fun _ =>
          .pure (.insertion ⟨true, sizeBytes, e.bytesEvicted, e.itemsEvicted, none⟩)
        else
          .op (.release .memory ⟨e.mem, false⟩) fun _ =>
          .op (.release .inner ⟨e.guard, false⟩) fun _ =>
          .pure (.insertion ⟨false, 0, e.bytesEvicted, e.itemsEvicted,
            some "capacity_full_after_eviction".toList⟩)

def currentMemoryBytesRoutine : CacheRoutine :=
  .op (.share .memory) fun (memory : Lock ℕ) =>
  .op (.unshare .memory) fun _ => .pure (.number (memory.write.getD 0))

def entryCountRoutine : CacheRoutine :=
  .op (.share .inner) fun (inner : Lock (LruCache Str CachedAsset)) =>
  .op (.unshare .inner) fun _ =>
  .pure (.number ((inner.write.map fun guard => (LruCrate.entries guard).length).getD 0))

def cacheRoutine (limits : LruCacheEngine) : CacheOp → CacheRoutine
  | .get key => getRoutine key
  | .insert key status headers body ttlOverride =>
    insertRoutine limits key status headers body ttlOverride
  | .currentMemoryBytes => currentMemoryBytesRoutine
  | .entryCount => entryCountRoutine

def LruCacheEngine.store (engine : LruCacheEngine) : ∀ l, Locked l
  | .inner => engine.inner
  | .memory => engine.currentMemoryBytes

/-- The engine with what its locks hold. -/
def LruCacheEngine.withStore (limits : LruCacheEngine) (store : ∀ l, Locked l) : LruCacheEngine :=
  { limits with inner := store .inner, currentMemoryBytes := store .memory }

def LruCacheEngine.perform (engine : LruCacheEngine) (now : ℕ) :
    CacheOp → CacheReply × LruCacheEngine
  | .get key => (.asset (engine.get now key).1, (engine.get now key).2)
  | .insert key status headers body ttlOverride =>
    (.insertion (engine.insert now key status headers body ttlOverride).1,
      (engine.insert now key status headers body ttlOverride).2)
  | .currentMemoryBytes => (.number (engine.currentMemoryBytes.write.getD 0), engine)
  | .entryCount =>
    (.number ((engine.inner.write.map fun guard => (LruCrate.entries guard).length).getD 0), engine)

/-- An operation in one step, with its only clock reading. -/
def atomic (limits : LruCacheEngine) (op : CacheOp) (times : List ℕ) (store : ∀ l, Locked l) :
    CacheReply × ∀ l, Locked l :=
  (((limits.withStore store).perform (times.headD 0) op).1,
    ((limits.withStore store).perform (times.headD 0) op).2.store)

end Operations

section Discipline
variable [HttpCrate] [LruCrate]

theorem solo_getRoutine (limits : LruCacheEngine) (key : Str) (times : List ℕ)
    (store : ∀ l, Locked l) :
    solo (getRoutine key) times store = atomic limits (.get key) times store := by
  unfold getRoutine atomic LruCacheEngine.perform LruCacheEngine.get
  simp only [solo, LruCacheEngine.withStore]
  cases Lock.write (store .inner) with
  | none =>
    refine Prod.ext rfl (funext fun l => ?_)
    cases l <;> rfl
  | some guard =>
    rcases hfound : LruCrate.getMut guard key with ⟨_ | item, guard'⟩
    · simp only [hfound]
      refine Prod.ext rfl (funext fun l => ?_)
      cases l <;> rfl
    · simp only [hfound, solo]
      by_cases hexpired : item.isExpired (times.headD 0) = true <;>
      · simp only [hexpired, if_true, Bool.false_eq_true, if_false, solo]
        refine Prod.ext rfl (funext fun l => ?_)
        cases l <;> rfl

theorem solo_insertRoutine (limits : LruCacheEngine) (key : Str) (status : StatusCode)
    (headers : HeaderMap) (body : List UInt8) (ttlOverride : Option ℕ) (times : List ℕ)
    (store : ∀ l, Locked l) :
    solo (insertRoutine limits key status headers body ttlOverride) times store =
      atomic limits (.insert key status headers body ttlOverride) times store := by
  unfold insertRoutine atomic LruCacheEngine.perform LruCacheEngine.insert
  simp only [LruCacheEngine.withStore]
  by_cases hfile : limits.maxFileSizeBytes < body.length
  · simp only [hfile, if_true, solo]
    refine Prod.ext rfl (funext fun l => ?_)
    cases l <;> rfl
  by_cases hcap : limits.maxCapacityBytes < body.length
  · simp only [hfile, hcap, if_false, if_true, solo]
    refine Prod.ext rfl (funext fun l => ?_)
    cases l <;> rfl
  simp only [hfile, hcap, if_false, solo]
  cases Lock.write (store .inner) with
  | none =>
    refine Prod.ext rfl (funext fun l => ?_)
    cases l <;> rfl
  | some guard =>
    simp only [solo]
    cases Lock.write (store .memory) with
    | none =>
      refine Prod.ext rfl (funext fun l => ?_)
      cases l <;> rfl
    | some mem =>
      by_cases hfits : wrappingAdd (evict limits.maxCapacityBytes body.length
          (LruCrate.entries guard).length ⟨guard, mem, 0, 0⟩).mem body.length ≤
            limits.maxCapacityBytes <;>
      · simp only [hfits, if_true, if_false, solo]
        refine Prod.ext rfl (funext fun l => ?_)
        cases l <;> rfl

/-- Alone, a routine does what its operation does in one step. -/
theorem solo_cacheRoutine (limits : LruCacheEngine) (op : CacheOp) (times : List ℕ)
    (store : ∀ l, Locked l) :
    solo (cacheRoutine limits op) times store = atomic limits op times store := by
  cases op with
  | get key => exact solo_getRoutine limits key times store
  | insert key status headers body ttlOverride => exact solo_insertRoutine ..
  | currentMemoryBytes =>
    refine Prod.ext rfl (funext fun l => ?_)
    cases l <;> rfl
  | entryCount =>
    refine Prod.ext rfl (funext fun l => ?_)
    cases l <;> rfl

/-- The map alone, as both operations first hold it. -/
def holdsInner : CacheLock → Hold := Function.update (fun _ => .free) .inner .exclusive

def holdsBoth : CacheLock → Hold := Function.update holdsInner .memory .exclusive

/-- The routine keeps to two-phase locking and ends after at most `n` operations. -/
def Disciplined (n : ℕ) (holds : CacheLock → Hold) (r : CacheRoutine) : Prop :=
  Growing holds r ∧ Within n r

theorem release_inner (n : ℕ) (inner : Lock (LruCache Str CachedAsset)) (reply : CacheReply) :
    Disciplined (n + 1) holdsInner (.op (.release .inner inner) fun _ => .pure reply) := by
  refine ⟨⟨rfl, fun l => ?_⟩, fun _ => within_pure n _⟩
  cases l <;> rfl

theorem release_both (n : ℕ) (memory : Lock ℕ) (inner : Lock (LruCache Str CachedAsset))
    (reply : CacheReply) :
    Disciplined (n + 2) holdsBoth (.op (.release .memory memory) fun _ =>
      .op (.release .inner inner) fun _ => .pure reply) := by
  refine ⟨⟨rfl, rfl, fun l => ?_⟩, fun _ _ => within_pure n _⟩
  cases l <;> rfl

theorem read_clock {n : ℕ} {holds : CacheLock → Hold} {k : ℕ → CacheRoutine}
    (h : ∀ now, Disciplined n holds (k now)) : Disciplined (n + 1) holds (.op .clock k) :=
  ⟨fun now => (h now).1, fun now => (h now).2⟩

theorem acquire_inner {n : ℕ} {k : Lock (LruCache Str CachedAsset) → CacheRoutine}
    (h : ∀ inner, Disciplined n holdsInner (k inner)) :
    Disciplined (n + 1) (fun _ => .free) (.op (.acquire .inner) k) :=
  ⟨⟨fun _ hl => absurd rfl hl, fun inner => (h inner).1⟩, fun inner => (h inner).2⟩

theorem acquire_memory {n : ℕ} {k : Lock ℕ → CacheRoutine}
    (h : ∀ memory, Disciplined n holdsBoth (k memory)) :
    Disciplined (n + 1) holdsInner (.op (.acquire .memory) k) := by
  refine ⟨⟨fun l hl => ?_, fun memory => (h memory).1⟩, fun memory => (h memory).2⟩
  cases l with
  | inner => exact CacheLock.inner_lt_memory
  | memory => exact absurd rfl hl

theorem disciplined_getRoutine (key : Str) : Disciplined 5 (fun _ => .free) (getRoutine key) := by
  refine acquire_inner fun inner => ?_
  cases inner.write with
  | none => exact release_inner ..
  | some guard =>
    rcases hfound : LruCrate.getMut guard key with ⟨_ | item, guard'⟩
    · simp only [hfound]
      exact release_inner ..
    · simp only [hfound]
      refine read_clock fun now => ?_
      by_cases hexpired : item.isExpired now = true
      · simp only [hexpired, if_true]
        exact acquire_memory fun memory => release_both ..
      · simp only [hexpired]
        exact release_inner ..

theorem disciplined_insertRoutine {limits : LruCacheEngine} {body : List UInt8}
    (hfile : ¬ limits.maxFileSizeBytes < body.length)
    (hcap : ¬ limits.maxCapacityBytes < body.length) (key : Str) (status : StatusCode)
    (headers : HeaderMap) (ttlOverride : Option ℕ) :
    Disciplined 5 (fun _ => .free) (insertRoutine limits key status headers body ttlOverride) := by
  unfold insertRoutine
  simp only [hfile, hcap, if_false]
  refine read_clock fun now => acquire_inner fun inner => ?_
  cases inner.write with
  | none => exact release_inner ..
  | some guard =>
    refine acquire_memory fun memory => ?_
    cases memory.write with
    | none => exact release_both ..
    | some mem =>
      by_cases hfits : wrappingAdd (evict limits.maxCapacityBytes body.length
          (LruCrate.entries guard).length ⟨guard, mem, 0, 0⟩).mem body.length ≤
            limits.maxCapacityBytes <;>
      · simp only [hfits, if_true, if_false]
        exact release_both ..

theorem disciplined_read (l : CacheLock) (reply : Locked l → CacheReply) :
    Disciplined 5 (fun _ => .free)
      (.op (.share l) fun v => .op (.unshare l) fun _ => .pure (reply v)) := by
  refine ⟨⟨fun _ hl => absurd rfl hl, fun v => ⟨Function.update_self .., fun l' => ?_⟩⟩,
    fun _ _ => trivial⟩
  rw [Function.update_idem, Function.update_apply, ite_self]

theorem Disciplined.twoPhase {n : ℕ} {r : CacheRoutine} (h : Disciplined n (fun _ => .free) r) :
    TwoPhase r := by
  cases r with
  | pure reply => trivial
  | op e k => exact h.1

theorem cacheRoutine_disciplined (limits : LruCacheEngine) (op : CacheOp) :
    TwoPhase (cacheRoutine limits op) ∧ Within 5 (cacheRoutine limits op) := by
  have hpair : ∀ {r : CacheRoutine}, Disciplined 5 (fun _ => .free) r → TwoPhase r ∧ Within 5 r :=
    fun h => ⟨h.twoPhase, h.2⟩
  cases op with
  | get key => exact hpair (disciplined_getRoutine key)
  | insert key status headers body ttlOverride =>
    by_cases hfile : limits.maxFileSizeBytes < body.length
    · simp only [cacheRoutine, insertRoutine, hfile, if_true]
      exact ⟨trivial, trivial⟩
    by_cases hcap : limits.maxCapacityBytes < body.length
    · simp only [cacheRoutine, insertRoutine, hfile, hcap, if_false, if_true]
      exact ⟨trivial, trivial⟩
    exact hpair (disciplined_insertRoutine hfile hcap key status headers ttlOverride)
  | currentMemoryBytes => exact hpair (disciplined_read .memory _)
  | entryCount => exact hpair (disciplined_read .inner _)

end Discipline

section Histories
variable [HttpCrate] [LruCrate]

abbrev CacheSystem := System CacheLock Locked CacheReply CacheOp

/-- The workers on one engine, after some of their steps. -/
def LruCacheEngine.shared (engine : LruCacheEngine) (actions : List (Action CacheOp)) :
    CacheSystem :=
  (System.start engine.store).after (cacheRoutine engine) actions

theorem shared_linearizable (engine : LruCacheEngine) (actions : List (Action CacheOp)) :
    ∃ last, Linearizable (cacheRoutine engine) (atomic engine) id engine.store actions last := by
  have hspec : ∀ op times store, solo (cacheRoutine engine op) times (id store) =
      ((atomic engine op times store).1, id (atomic engine op times store).2) :=
    fun op times store => solo_cacheRoutine engine op times store
  exact linearizable (fun op => (cacheRoutine_disciplined engine op).1) Function.injective_id
    hspec engine.store actions

/-- Calls of the workers that overlap act as if each happened in one step, and however the
workers came to where they are, at most five steps of each call under way bring all calls to
their return. -/
theorem cache_calls_atomic_and_finish (engine : LruCacheEngine)
    (actions : List (Action CacheOp)) :
    (∃ last, Linearizable (cacheRoutine engine) (atomic engine) id engine.store actions last) ∧
    ∃ steps : List ℕ, (∀ i, steps.count i ≤ 5) ∧
      (∀ i ∈ steps, (engine.shared actions).UnderWay i) ∧
      ∀ task ∈ (engine.shared (actions ++ steps.map .step)).tasks,
        ∃ reply, task.left = .pure reply :=
  ⟨shared_linearizable engine actions,
    can_finish_after (fun op => (cacheRoutine_disciplined engine op).1)
      (fun op => (cacheRoutine_disciplined engine op).2) engine.store actions⟩

/-- The call as the sequential histories have it; a report changes nothing. -/
def CacheOp.call (now : ℕ) : CacheOp → Option CacheCall
  | .get key => some (.get now key)
  | .insert key status headers body ttlOverride =>
    some (.insert now key status headers body ttlOverride)
  | .currentMemoryBytes => none
  | .entryCount => none

def callsOf (commits : List (Commit CacheReply CacheOp)) : List CacheCall :=
  commits.filterMap fun c => c.op.call (c.times.headD 0)

theorem withStore_perform (limits : LruCacheEngine) (store : ∀ l, Locked l) (now : ℕ)
    (op : CacheOp) :
    limits.withStore ((limits.withStore store).perform now op).2.store =
      ((limits.withStore store).perform now op).2 := by
  cases op with
  | get key =>
    simp only [LruCacheEngine.perform, LruCacheEngine.get]
    repeat (first | rfl | split)
  | insert key status headers body ttlOverride =>
    simp only [LruCacheEngine.perform, LruCacheEngine.insert]
    repeat (first | rfl | split)
  | currentMemoryBytes => rfl
  | entryCount => rfl

theorem legal_after {limits : LruCacheEngine} {store last : ∀ l, Locked l}
    {commits : List (Commit CacheReply CacheOp)} (h : Legal (atomic limits) store commits last) :
    limits.withStore last = (limits.withStore store).after (callsOf commits) := by
  induction commits generalizing store with
  | nil =>
    cases h
    rfl
  | cons c commits ih =>
    obtain ⟨next, hc, hrest⟩ := h
    have hnext : (atomic limits c.op c.times store).2 = next := by
      rw [← List.append_nil c.times, hc []]
    rw [ih hrest, ← hnext]
    unfold atomic callsOf
    rw [withStore_perform]
    cases hop : c.op <;> simp only [List.filterMap_cons, hop, CacheOp.call] <;> rfl

variable {engine : LruCacheEngine} {actions : List (Action CacheOp)}
variable {i : ℕ} {task : Task CacheLock Locked CacheReply CacheOp} {reply : CacheReply}

/-- A call that has returned got the reply of the sequential engine after the calls that
took effect before it. -/
theorem reply_of_finished (htask : (engine.shared actions).tasks[i]? = some task)
    (hleft : task.left = .pure reply) :
    ∃ first c later, (engine.shared actions).commits = first ++ c :: later ∧ c.task = i ∧
      ((engine.after (callsOf first)).perform (task.times.headD 0) task.op).1 = reply := by
  obtain ⟨last, h⟩ := shared_linearizable engine actions
  obtain ⟨c, hc, hi, hresult⟩ := h.returned i task reply htask hleft
  obtain ⟨first, later, hsplit⟩ := List.append_of_mem hc
  have hlegal := h.legal
  rw [hsplit] at hlegal
  obtain ⟨mid, next, hfirst, hmid⟩ := hlegal.reached
  obtain ⟨found, hfound, hop, htimes⟩ := h.invoked c hc
  cases (hi ▸ hfound).symm.trans htask
  refine ⟨first, c, later, hsplit, hi, ?_⟩
  have hperform := congrArg Prod.fst (hmid [])
  rw [List.append_nil] at hperform
  change ((engine.withStore mid).perform (c.times.headD 0) c.op).1 = c.result at hperform
  rw [legal_after hfirst] at hperform
  rw [hop, htimes, ← hresult]
  exact hperform

theorem task_of_call {first later : List (Commit CacheReply CacheOp)}
    (hsplit : (engine.shared actions).commits = first ++ later) {call : CacheCall}
    (hcall : call ∈ callsOf first) :
    ∃ (j : ℕ) (other : Task CacheLock Locked CacheReply CacheOp),
      (engine.shared actions).tasks[j]? = some other ∧
      other.op.call (other.times.headD 0) = some call := by
  obtain ⟨c, hc, hop⟩ := List.mem_filterMap.mp hcall
  obtain ⟨last, h⟩ := shared_linearizable engine actions
  have hmem : c ∈ (engine.shared actions).commits := by
    rw [hsplit]
    exact List.mem_append_left _ hc
  obtain ⟨other, hother, hsame, htimes⟩ := h.invoked c hmem
  refine ⟨c.task, other, hother, ?_⟩
  rw [hsame, htimes]
  exact hop

theorem mem_of_lastInsert {calls : List CacheCall} {key : Str} {call : CacheCall}
    (h : engine.lastInsert calls key = some call) : call ∈ calls := by
  obtain ⟨v, hv, rfl⟩ := Option.map_eq_some_iff.mp h
  have hvisited := List.mem_of_mem_filter (List.mem_of_getLast? hv)
  rw [← map_snd_visited engine calls]
  exact List.mem_map_of_mem hvisited

omit [LruCrate] in
theorem insert_of_call {op : CacheOp} {now time : ℕ} {key : Str} {status : StatusCode}
    {headers : HeaderMap} {body : List UInt8} {ttlOverride : Option ℕ}
    (h : op.call now = some (.insert time key status headers body ttlOverride)) :
    op = .insert key status headers body ttlOverride ∧ now = time := by
  cases op with
  | insert => cases h; exact ⟨rfl, rfl⟩
  | get => cases h
  | currentMemoryBytes => cases h
  | entryCount => cases h

/-- A hit, however the workers interleave, is what a call of `insert` on the key was given,
the last that succeeded before the lookup took effect, and its time to live is not over. -/
theorem concurrent_hit_faithful (hnew : IsNew engine) (key : Str) (asset : CachedAsset)
    (htask : (engine.shared actions).tasks[i]? = some task) (hop : task.op = .get key)
    (hleft : task.left = .pure (.asset (some asset))) :
    ∃ first c later, (engine.shared actions).commits = first ++ c :: later ∧ c.task = i ∧
    ∃ (j : ℕ) (other : Task CacheLock Locked CacheReply CacheOp) (status : StatusCode)
      (headers : HeaderMap) (body : List UInt8) (ttlOverride : Option ℕ),
      (engine.shared actions).tasks[j]? = some other ∧
      other.op = .insert key status headers body ttlOverride ∧
      engine.lastInsert (callsOf first) key =
        some (.insert (other.times.headD 0) key status headers body ttlOverride) ∧
      asset = engine.assetFor (other.times.headD 0) status headers body ttlOverride ∧
      task.times.headD 0 < other.times.headD 0 + ttlOverride.getD engine.defaultTtl := by
  obtain ⟨first, c, later, hsplit, hi, hreply⟩ := reply_of_finished htask hleft
  refine ⟨first, c, later, hsplit, hi, ?_⟩
  rw [hop] at hreply
  have hget : ((engine.after (callsOf first)).get (task.times.headD 0) key).1 = some asset :=
    CacheReply.asset.inj hreply
  obtain ⟨hmem, hfresh⟩ := (get_eq_some_iff (after_unpoisoned hnew (callsOf first))).mp hget
  obtain ⟨time, status, headers, body, ttlOverride, hlast, hasset⟩ :=
    after_recorded hnew (callsOf first) _ hmem
  obtain ⟨j, other, hother, hcall⟩ := task_of_call hsplit (mem_of_lastInsert hlast)
  obtain ⟨hinsert, rfl⟩ := insert_of_call hcall
  refine ⟨j, other, status, headers, body, ttlOverride, hother, hinsert, hlast, hasset, ?_⟩
  have hasset' : asset = engine.assetFor (other.times.headD 0) status headers body ttlOverride :=
    hasset
  have hfresh' : asset.isExpired (task.times.headD 0) = false := hfresh
  rw [hasset'] at hfresh'
  have hlive : ¬ ttlOverride.getD engine.defaultTtl ≤
      durationSince (task.times.headD 0) (other.times.headD 0) := of_decide_eq_false hfresh'
  unfold durationSince at hlive
  omega

/-- What the workers may be told: no poisoned lock, and reports within the limits. -/
def ReplyWithin (maxCapacityBytes : ℕ) : CacheOp → CacheReply → Prop
  | .get _, .asset _ => True
  | .insert .., .insertion result => result.reason ≠ some "lock_error".toList
  | .currentMemoryBytes, .number n => n ≤ maxCapacityBytes
  | .entryCount, .number n => n ≤ itemCapacity
  | _, _ => False

theorem insert_reason (h : Live engine) (now : ℕ) (key : Str) (status : StatusCode)
    (headers : HeaderMap) (body : List UInt8) (ttlOverride : Option ℕ) :
    (engine.insert now key status headers body ttlOverride).1.reason ≠
      some "lock_error".toList := by
  unfold LruCacheEngine.insert
  simp only [h.inner_write, h.memory_write]
  split_ifs
  · exact fun h => absurd (Option.some.inj h) (by decide)
  · exact fun h => absurd (Option.some.inj h) (by decide)
  · exact nofun
  · exact fun h => absurd (Option.some.inj h) (by decide)

theorem perform_replyWithin (hlive : Live engine) (hbudget : WithinBudget engine) (now : ℕ)
    (op : CacheOp) : ReplyWithin engine.maxCapacityBytes op (engine.perform now op).1 := by
  cases op with
  | get key => trivial
  | insert key status headers body ttlOverride =>
    exact insert_reason hlive now key status headers body ttlOverride
  | currentMemoryBytes =>
    change engine.currentMemoryBytes.write.getD 0 ≤ engine.maxCapacityBytes
    rw [hlive.memory_write]
    exact hbudget.counter_le
  | entryCount =>
    change (engine.inner.write.map fun guard => (LruCrate.entries guard).length).getD 0 ≤ _
    rw [hlive.inner_write]
    exact hbudget.items

/-- A capacity that, with each body, stays within `usize`. -/
def FitsTogether (maxCapacityBytes : ℕ) : CacheOp → Prop
  | .insert _ _ _ body _ => maxCapacityBytes + body.length < 2 ^ 64
  | _ => True

theorem after_budget {maxCapacityBytes : ℕ} (hcap : maxCapacityBytes < 2 ^ 64)
    (maxFileSizeBytes defaultTtlSec : ℕ) {calls : List CacheCall}
    (hfits : ∀ c ∈ calls, FitsUsize maxCapacityBytes c) :
    ((LruCacheEngine.new maxCapacityBytes maxFileSizeBytes defaultTtlSec).after
        calls).maxCapacityBytes = maxCapacityBytes ∧
      Live ((LruCacheEngine.new maxCapacityBytes maxFileSizeBytes defaultTtlSec).after calls) ∧
      WithinBudget
        ((LruCacheEngine.new maxCapacityBytes maxFileSizeBytes defaultTtlSec).after calls) := by
  induction calls using List.reverseRecOn with
  | nil => exact ⟨rfl, new_live hcap .., new_withinBudget ..⟩
  | append_singleton calls c ih =>
    obtain ⟨hmax, hlive, hbudget⟩ := ih fun d hd => hfits d (List.mem_append_left _ hd)
    have hc := hfits c (List.mem_append_right _ (.head _))
    rw [after_concat]
    refine ⟨(run_maxCapacityBytes hlive c).trans hmax, run_live _ c hlive, ?_⟩
    rw [← hmax] at hc
    exact (run_budget hlive hbudget hc).1

/-- The workers never see a poisoned lock, and what is reported to them while others are at
work is within the limits. -/
theorem shared_replies_within_limits {maxCapacityBytes : ℕ} (hcap : maxCapacityBytes < 2 ^ 64)
    (maxFileSizeBytes defaultTtlSec : ℕ) (actions : List (Action CacheOp))
    (hfits : ∀ task ∈ ((LruCacheEngine.new maxCapacityBytes maxFileSizeBytes defaultTtlSec).shared
      actions).tasks, FitsTogether maxCapacityBytes task.op) (i : ℕ)
    (task : Task CacheLock Locked CacheReply CacheOp) (reply : CacheReply)
    (htask : ((LruCacheEngine.new maxCapacityBytes maxFileSizeBytes defaultTtlSec).shared
      actions).tasks[i]? = some task) (hleft : task.left = .pure reply) :
    ReplyWithin maxCapacityBytes task.op reply := by
  obtain ⟨first, c, later, hsplit, -, hreply⟩ := reply_of_finished htask hleft
  have hcalls : ∀ call ∈ callsOf first, FitsUsize maxCapacityBytes call := by
    intro call hcall
    obtain ⟨j, other, hother, hop⟩ := task_of_call hsplit hcall
    have hother := hfits other (List.mem_of_getElem? hother)
    cases call with
    | get time key => trivial
    | insert time key status headers body ttlOverride =>
      rw [(insert_of_call hop).1] at hother
      exact hother
  obtain ⟨hmax, hlive, hbudget⟩ := after_budget hcap maxFileSizeBytes defaultTtlSec hcalls
  have hreply' := perform_replyWithin hlive hbudget (task.times.headD 0) task.op
  rw [hreply, hmax] at hreply'
  exact hreply'

end Histories

section Example
open ListCrates

/-- A lookup and a report that wait for an `insert`. -/
def overlapping : List (Action CacheOp) :=
  [.invoke (.insert "a".toList .ok [] [1, 2] none), .invoke (.get "a".toList),
    .invoke .currentMemoryBytes, .step 0, .step 0, .step 1, .step 0, .step 2, .wait 5, .step 0,
    .step 2, .step 1, .step 0, .step 1, .step 1, .step 1, .step 2]

def overlappingOps : List CacheOp :=
  [.insert "a".toList .ok [] [1, 2] none, .get "a".toList, .currentMemoryBytes]

def overlappingReplies : List CacheReply :=
  [.insertion ⟨true, 2, 0, 0, none⟩, .asset (some ⟨.ok, [], [1, 2], 0, fromSecs 60, 2⟩), .number 2]

theorem overlapping_ops :
    ((LruCacheEngine.new 100 100 60).shared overlapping).tasks.map Task.op = overlappingOps := rfl

theorem overlapping_replies :
    ((LruCacheEngine.new 100 100 60).shared overlapping).tasks.map Task.left =
      overlappingReplies.map .pure := rfl

theorem overlapping_task (i : ℕ) {op : CacheOp} {reply : CacheReply}
    (hop : overlappingOps[i]? = some op) (hreply : overlappingReplies[i]? = some reply) :
    ∃ task, ((LruCacheEngine.new 100 100 60).shared overlapping).tasks[i]? = some task ∧
      task.op = op ∧ task.left = .pure reply := by
  rw [← overlapping_ops, List.getElem?_map, Option.map_eq_some_iff] at hop
  obtain ⟨task, htask, hop⟩ := hop
  have hleft : (overlappingReplies.map Prog.pure)[i]? = some task.left := by
    rw [← overlapping_replies, List.getElem?_map, htask]
    rfl
  rw [List.getElem?_map, hreply] at hleft
  exact ⟨task, htask, hop, (Option.some.inj hleft).symm⟩

theorem overlapping_hit_faithful :
    ∃ other status headers body ttlOverride,
      other ∈ ((LruCacheEngine.new 100 100 60).shared overlapping).tasks ∧
      other.op = .insert "a".toList status headers body ttlOverride ∧ [1, 2] = body := by
  obtain ⟨task, htask, hop, hleft⟩ := overlapping_task 1 rfl rfl
  obtain ⟨-, -, -, -, -, j, other, status, headers, body, ttlOverride, hother, hinsert, -, hasset,
    -⟩ := concurrent_hit_faithful ⟨100, 100, 60, rfl⟩ "a".toList _ htask hop hleft
  exact ⟨other, status, headers, body, ttlOverride, List.mem_of_getElem? hother, hinsert,
    congrArg CachedAsset.body hasset⟩

theorem overlapping_report_within_limits : ReplyWithin 100 .currentMemoryBytes (.number 2) := by
  obtain ⟨task, htask, hop, hleft⟩ := overlapping_task 2 rfl rfl
  rw [← hop]
  refine shared_replies_within_limits (by decide) 100 60 overlapping (fun other hother => ?_) 2
    task _ htask hleft
  have hmem := List.mem_map_of_mem (f := Task.op) hother
  rw [overlapping_ops] at hmem
  simp only [overlappingOps, List.mem_cons, List.not_mem_nil, or_false] at hmem
  rcases hmem with hop | hop | hop <;> rw [hop] <;> simp [FitsTogether]

end Example

end BarebonesProxy.Cache
