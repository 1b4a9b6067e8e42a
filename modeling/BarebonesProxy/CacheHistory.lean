import BarebonesProxy.CacheContents
import BarebonesProxy.Recency

set_option autoImplicit false

/-!
# The history of a cache

What is held under a key is what the last successful `insert` of the key was given. The
entries stand in the order of their last use, so an `insert` evicts none that was used
after one it leaves.
-/
namespace BarebonesProxy.Cache
open RustStrings RustState Http LruMap Runs Recency

section Calls
variable [HttpCrate] [LruCrate]

/-- The key of a call that inserts its entry. -/
def CacheCall.inserts (engine : LruCacheEngine) : CacheCall → Option Str
  | .get _ _ => none
  | .insert time key status headers body ttlOverride =>
    if (engine.insert time key status headers body ttlOverride).1.inserted then some key else none

/-- The key of a call that inserts its entry, or that gives one back. -/
def CacheCall.uses (engine : LruCacheEngine) (c : CacheCall) : Option Str :=
  match c with
  | .get time key => if (engine.get time key).1.isSome then some key else none
  | .insert .. => c.inserts engine

/-- The last call of a run that inserted an entry under the key. -/
def LruCacheEngine.lastInsert (engine : LruCacheEngine) (calls : List CacheCall) (key : Str) :
    Option CacheCall :=
  ((visited CacheCall.run engine calls).filter
    fun v => v.2.inserts v.1 = some key).getLast?.map Prod.snd

def LruCacheEngine.marks (engine : LruCacheEngine) (calls : List CacheCall) : List (Option Str) :=
  (visited CacheCall.run engine calls).map fun v => v.2.uses v.1

/-- The engine is as `new` makes it. -/
def IsNew (engine : LruCacheEngine) : Prop :=
  ∃ maxCapacityBytes maxFileSizeBytes defaultTtlSec,
    engine = .new maxCapacityBytes maxFileSizeBytes defaultTtlSec

variable {engine : LruCacheEngine}

theorem IsNew.unpoisoned (h : IsNew engine) : engine.inner.poisoned = false := by
  obtain ⟨_, _, _, rfl⟩ := h
  rfl

theorem IsNew.held (h : IsNew engine) : engine.held = [] := by
  obtain ⟨_, _, _, rfl⟩ := h
  exact new_held ..

theorem after_concat (engine : LruCacheEngine) (calls : List CacheCall) (c : CacheCall) :
    engine.after (calls ++ [c]) = c.run (engine.after calls) := List.foldl_concat ..

theorem lastInsert_concat (engine : LruCacheEngine) (calls : List CacheCall) (c : CacheCall)
    (key : Str) :
    engine.lastInsert (calls ++ [c]) key =
      if c.inserts (engine.after calls) = some key then some c
      else engine.lastInsert calls key := by
  unfold LruCacheEngine.lastInsert
  rw [visited_concat, List.filter_append]
  change _ = if c.inserts (calls.foldl CacheCall.run engine) = some key then _ else _
  by_cases hkey : c.inserts (calls.foldl CacheCall.run engine) = some key
  · simp [hkey]
  · simp [hkey]

theorem marks_concat (engine : LruCacheEngine) (calls : List CacheCall) (c : CacheCall) :
    engine.marks (calls ++ [c]) = engine.marks calls ++ [c.uses (engine.after calls)] := by
  unfold LruCacheEngine.marks
  rw [visited_concat, List.map_append]
  rfl

theorem run_unpoisoned (h : engine.inner.poisoned = false) (c : CacheCall) :
    (c.run engine).inner.poisoned = false := by
  cases c with
  | get time key => exact (get_cases h time key).1
  | insert time key status headers body ttlOverride => exact insert_unpoisoned h

/-- No call changes what the engine was configured with. -/
theorem run_settings (engine : LruCacheEngine) (c : CacheCall) :
    (c.run engine).defaultTtl = engine.defaultTtl ∧
      (c.run engine).maxFileSizeBytes = engine.maxFileSizeBytes := by
  cases c with
  | get time key =>
    unfold CacheCall.run LruCacheEngine.get
    dsimp only
    repeat (first | exact ⟨rfl, rfl⟩ | split)
  | insert time key status headers body ttlOverride =>
    unfold CacheCall.run LruCacheEngine.insert
    dsimp only
    repeat (first | exact ⟨rfl, rfl⟩ | split)

theorem after_unpoisoned (h : IsNew engine) (calls : List CacheCall) :
    (engine.after calls).inner.poisoned = false :=
  foldl_invariant (fun engine : LruCacheEngine => engine.inner.poisoned = false)
    (fun _ c hlock => run_unpoisoned hlock c) h.unpoisoned calls

theorem after_defaultTtl (engine : LruCacheEngine) (calls : List CacheCall) :
    (engine.after calls).defaultTtl = engine.defaultTtl :=
  foldl_unchanged LruCacheEngine.defaultTtl (fun engine c _ => (run_settings engine c).1)
    (fun _ _ => True.intro) engine

end Calls

section Reads
variable [HttpCrate] [LruCrate] {engine : LruCacheEngine}

/-- The entry is what the last successful `insert` of its key was given. -/
def Recorded (engine : LruCacheEngine) (calls : List CacheCall) (e : Str × CachedAsset) : Prop :=
  ∃ time status headers body ttlOverride,
    engine.lastInsert calls e.1 = some (.insert time e.1 status headers body ttlOverride) ∧
    e.2 = engine.assetFor time status headers body ttlOverride

theorem Recorded.concat {calls : List CacheCall} {e : Str × CachedAsset}
    (h : Recorded engine calls e) {c : CacheCall}
    (hother : c.inserts (engine.after calls) ≠ some e.1) :
    Recorded engine (calls ++ [c]) e := by
  obtain ⟨time, status, headers, body, ttlOverride, hlast, hasset⟩ := h
  refine ⟨time, status, headers, body, ttlOverride, ?_, hasset⟩
  rw [lastInsert_concat, if_neg hother, hlast]

theorem insert_recorded {calls : List CacheCall}
    (h : ∀ e ∈ (engine.after calls).held, Recorded engine calls e) (time : ℕ) (key : Str)
    (status : StatusCode) (headers : HeaderMap) (body : List UInt8) (ttlOverride : Option ℕ) :
    ∀ e ∈ ((engine.after calls).insert time key status headers body ttlOverride).2.held,
      Recorded engine (calls ++ [.insert time key status headers body ttlOverride]) e := by
  intro e he
  obtain ⟨kept, hkept, ⟨hinserted, hheld⟩ | ⟨hinserted, hheld⟩⟩ :=
    insert_cases (engine.after calls) time key status headers body ttlOverride
  · have hinserts : (CacheCall.insert time key status headers body ttlOverride).inserts
        (engine.after calls) = some key := if_pos hinserted
    rw [hheld] at he
    rcases List.mem_cons.mp he with rfl | he
    · refine ⟨time, status, headers, body, ttlOverride, ?_, ?_⟩
      · rw [lastInsert_concat, if_pos hinserts]
      · unfold LruCacheEngine.assetFor
        rw [after_defaultTtl]
    · obtain ⟨hmem, hkey⟩ := mem_without.mp he
      refine (h e (hkept.subset hmem)).concat ?_
      rw [hinserts]
      exact fun heq => hkey (Option.some.inj heq).symm
  · rw [hheld] at he
    refine (h e (hkept.subset he)).concat ?_
    rw [CacheCall.inserts, hinserted]
    exact (Option.some_ne_none _).symm

theorem after_recorded (hnew : IsNew engine) (calls : List CacheCall) :
    ∀ e ∈ (engine.after calls).held, Recorded engine calls e := by
  induction calls using List.reverseRecOn with
  | nil =>
    intro e he
    change e ∈ engine.held at he
    rw [hnew.held] at he
    exact absurd he List.not_mem_nil
  | append_singleton calls c ih =>
    intro e he
    rw [after_concat] at he
    cases c with
    | get time key =>
      exact (ih e (get_held (after_unpoisoned hnew calls) he)).concat (Option.some_ne_none _).symm
    | insert time key status headers body ttlOverride =>
      exact insert_recorded ih time key status headers body ttlOverride e he

/-- A lookup gives back what the last successful `insert` of the key stored, before its time
to live is over, and leaves the entries of other keys as they are. -/
theorem reads_fresh_and_faithful (hnew : IsNew engine) (calls : List CacheCall) (now : ℕ)
    (key : Str) :
    (∀ asset, ((engine.after calls).get now key).1 = some asset →
      ∃ time status headers body ttlOverride,
        engine.lastInsert calls key = some (.insert time key status headers body ttlOverride) ∧
        asset.status = status ∧ asset.headers = headers ∧ asset.body = body ∧
        now < time + ttlOverride.getD engine.defaultTtl) ∧
      ∀ other, other ≠ key →
        find other ((engine.after calls).get now key).2.held =
          find other (engine.after calls).held := by
  have hlock := after_unpoisoned hnew calls
  refine ⟨fun asset hget => ?_, fun other hne => get_find_other hlock hne⟩
  obtain ⟨hmem, hfresh⟩ := (get_eq_some_iff hlock).mp hget
  obtain ⟨time, status, headers, body, ttlOverride, hlast, rfl⟩ := after_recorded hnew calls _ hmem
  refine ⟨time, status, headers, body, ttlOverride, hlast, rfl, rfl, rfl, ?_⟩
  have hlive : ¬ ttlOverride.getD engine.defaultTtl ≤ now - time := of_decide_eq_false hfresh
  omega

end Reads

section Example
open ListCrates

/-- Two entries, and the first is read after the second came in. -/
def touched : List CacheCall :=
  [.insert 0 "a".toList .ok [] [1] none, .insert 1 "b".toList .ok [] [2, 3] none,
    .get 2 "a".toList]

theorem touched_read :
    ∃ asset time status headers body ttlOverride,
      (((LruCacheEngine.new 3 3 60).after touched).get 4 "b".toList).1 = some asset ∧
      (LruCacheEngine.new 3 3 60).lastInsert touched "b".toList =
        some (.insert time "b".toList status headers body ttlOverride) ∧
      asset.body = body ∧ 4 < time + ttlOverride.getD (LruCacheEngine.new 3 3 60).defaultTtl := by
  obtain ⟨asset, hget⟩ : ∃ asset,
      (((LruCacheEngine.new 3 3 60).after touched).get 4 "b".toList).1 = some asset :=
    Option.isSome_iff_exists.mp (by decide +kernel)
  obtain ⟨hread, -⟩ := reads_fresh_and_faithful ⟨3, 3, 60, rfl⟩ touched 4 "b".toList
  obtain ⟨time, status, headers, body, ttlOverride, hlast, -, -, hbody, htime⟩ := hread asset hget
  exact ⟨asset, time, status, headers, body, ttlOverride, hget, hlast, hbody, htime⟩

end Example

section Order
variable [HttpCrate] [LruCrate] {engine : LruCacheEngine}

theorem run_recentFirst (hlock : engine.inner.poisoned = false) {marks : List (Option Str)}
    (h : RecentFirst marks (engine.held.map Prod.fst)) (c : CacheCall) :
    RecentFirst (marks ++ [c.uses engine]) ((c.run engine).held.map Prod.fst) := by
  cases c with
  | get time key =>
    have hrest := h.sublist ((without_sublist key engine.held).map Prod.fst)
    rw [CacheCall.run, CacheCall.uses]
    obtain ⟨-, ⟨item, -, -, hget, hheld⟩ | ⟨-, hget, hheld⟩⟩ := get_cases hlock time key
    · rw [hget, hheld]
      exact hrest.use (not_mem_keys_without key engine.held)
    · rw [hget, hheld]
      exact hrest.idle
  | insert time key status headers body ttlOverride =>
    rw [CacheCall.run, CacheCall.uses, CacheCall.inserts]
    obtain ⟨kept, hkept, ⟨hinserted, hheld⟩ | ⟨hinserted, hheld⟩⟩ :=
      insert_cases engine time key status headers body ttlOverride
    · have hrest := h.sublist (((without_sublist key kept).trans hkept.sublist).map Prod.fst)
      rw [hinserted, hheld]
      exact hrest.use (not_mem_keys_without key kept)
    · rw [hinserted, hheld]
      exact (h.sublist (hkept.sublist.map Prod.fst)).idle

theorem after_recentFirst (hnew : IsNew engine) (calls : List CacheCall) :
    RecentFirst (engine.marks calls) ((engine.after calls).held.map Prod.fst) := by
  induction calls using List.reverseRecOn with
  | nil =>
    change RecentFirst [] (engine.held.map Prod.fst)
    rw [hnew.held]
    exact ⟨List.Pairwise.nil, fun k hk => absurd hk List.not_mem_nil⟩
  | append_singleton calls c ih =>
    rw [after_concat, marks_concat]
    exact run_recentFirst (after_unpoisoned hnew calls) ih c

/-- Of two entries under other keys, the one that an `insert` removes was last used before
the one that it leaves. -/
theorem evicts_least_recent (hnew : IsNew engine) (calls : List CacheCall) (now : ℕ) (key : Str)
    (status : StatusCode) (headers : HeaderMap) (body : List UInt8) (ttlOverride : Option ℕ)
    {a b : Str} (ha : a ≠ key) (hb : b ≠ key)
    (hleft : a ∈ ((engine.after calls).insert now key status headers body ttlOverride).2.held.map
      Prod.fst)
    (hheld : b ∈ (engine.after calls).held.map Prod.fst)
    (hgone : b ∉ ((engine.after calls).insert now key status headers body ttlOverride).2.held.map
      Prod.fst) :
    Later (engine.marks calls) a b := by
  obtain ⟨kept, ⟨lost, hsplit⟩, hcases⟩ :=
    insert_cases (engine.after calls) now key status headers body ttlOverride
  -- apart from the key itself, the keys after the call are those of the entries kept
  have hkeys : ∀ k, k ≠ key →
      (k ∈ ((engine.after calls).insert now key status headers body ttlOverride).2.held.map
        Prod.fst ↔ k ∈ kept.map Prod.fst) := by
    intro k hk
    rcases hcases with ⟨-, hheld⟩ | ⟨-, hheld⟩
    · rw [hheld, List.map_cons, List.mem_cons, or_iff_right hk, mem_keys_without hk]
    · rw [hheld]
  have hpairs := (after_recentFirst hnew calls).order
  rw [← hsplit, List.map_append, List.pairwise_append] at hpairs
  rw [← hsplit, List.map_append, List.mem_append] at hheld
  exact hpairs.2.2 a ((hkeys a ha).mp hleft) b (hheld.resolve_left (mt (hkeys b hb).mpr hgone))

end Order

section Example
open ListCrates

/-- The insert evicts the entry that came in last and not the one that was read since. -/
theorem touched_survives :
    Later ((LruCacheEngine.new 3 3 60).marks touched) "a".toList "b".toList ∧
      (LruCacheEngine.new 3 3 60).marks touched =
        [some "a".toList, some "b".toList, some "a".toList] ∧
      (((LruCacheEngine.new 3 3 60).after touched).insert 3 "c".toList .ok [] [7, 8]
        none).2.held.map Prod.fst = ["c".toList, "a".toList] := by
  refine ⟨?_, by decide +kernel, by decide +kernel⟩
  exact evicts_least_recent ⟨3, 3, 60, rfl⟩ touched 3 "c".toList .ok [] [7, 8] none (by decide)
    (by decide) (by decide +kernel) (by decide +kernel) (by decide +kernel)

end Example

end BarebonesProxy.Cache
