import BarebonesProxy.CacheAccounting

set_option autoImplicit false

/-!
# What an engine holds

No call brings in an entry but a successful `insert`, which brings in its own. A lookup
gives exactly the unexpired entry of its key.
-/
namespace BarebonesProxy.Cache
open RustStrings RustState Http LruMap

section Contents
variable [HttpCrate] [LruCrate] {engine : LruCacheEngine} {now : ℕ} {key : Str}

theorem new_held (maxCapacityBytes maxFileSizeBytes defaultTtlSec : ℕ) :
    (LruCacheEngine.new maxCapacityBytes maxFileSizeBytes defaultTtlSec).held = [] :=
  LruCrate.entries_new ..

/-- Everything a lookup does to the map, once it has the lock: a fresh entry is given back
and moves to the front, an expired one is removed. -/
theorem get_cases (h : engine.inner.poisoned = false) (now : ℕ) (key : Str) :
    (engine.get now key).2.inner.poisoned = false ∧
    ((∃ item, find key engine.held = some item ∧ item.isExpired now = false ∧
      (engine.get now key).1 = some item ∧
      (engine.get now key).2.held = (key, item) :: without key engine.held) ∨
    ((∀ item, find key engine.held = some item → item.isExpired now = true) ∧
      (engine.get now key).1 = none ∧
      (engine.get now key).2.held = without key engine.held)) := by
  have hwrite : engine.inner.write = some engine.inner.value := by simp [Lock.write, h]
  have hvalue := LruCrate.getMut_value engine.inner.value key
  have hentries := LruCrate.entries_getMut engine.inner.value key
  unfold LruCacheEngine.get LruCacheEngine.held
  rw [hwrite]
  dsimp only
  generalize LruCrate.getMut engine.inner.value key = found at hvalue hentries
  obtain ⟨value, guard⟩ := found
  dsimp only at hvalue hentries ⊢
  subst hvalue
  cases hfind : find key (LruCrate.entries engine.inner.value) with
  | none =>
    refine ⟨rfl, .inr ⟨?_, rfl, ?_⟩⟩
    · intro item hitem
      cases hitem
    · rw [promoted, hfind] at hentries
      rw [without_eq_self (find_eq_none.mp hfind)]
      exact hentries
  | some item =>
    dsimp only
    by_cases hexpired : item.isExpired now = true
    · rw [if_pos hexpired]
      refine ⟨rfl, .inr ⟨?_, rfl, ?_⟩⟩
      · intro item' hitem'
        rw [← Option.some.inj hitem']
        exact hexpired
      · simp only [LruCrate.entries_pop, hentries, without_promoted]
    · rw [if_neg hexpired]
      rw [promoted_of_find hfind] at hentries
      exact ⟨rfl, .inl ⟨item, rfl, by simpa using hexpired, rfl, hentries⟩⟩

theorem get_held (h : engine.inner.poisoned = false) {e : Str × CachedAsset}
    (he : e ∈ (engine.get now key).2.held) : e ∈ engine.held := by
  obtain ⟨-, ⟨item, hfind, -, -, hheld⟩ | ⟨-, -, hheld⟩⟩ := get_cases h now key
  · rw [hheld] at he
    rcases List.mem_cons.mp he with rfl | he
    · exact mem_of_find hfind
    · exact (mem_without.mp he).1
  · rw [hheld] at he
    exact (mem_without.mp he).1

theorem get_find_other (h : engine.inner.poisoned = false) {other : Str} (hne : other ≠ key) :
    find other (engine.get now key).2.held = find other engine.held := by
  obtain ⟨-, ⟨item, -, -, -, hheld⟩ | ⟨-, -, hheld⟩⟩ := get_cases h now key
  · rw [hheld, find_cons, if_neg (Ne.symm hne), find_without_of_ne hne]
  · rw [hheld, find_without_of_ne hne]

theorem get_eq_some_iff (h : engine.inner.poisoned = false) {asset : CachedAsset} :
    (engine.get now key).1 = some asset ↔
      (key, asset) ∈ engine.held ∧ asset.isExpired now = false := by
  have hnodup := LruCrate.keys_nodup engine.inner.value
  have hiff : find key engine.held = some asset ↔ (key, asset) ∈ engine.held :=
    ⟨mem_of_find, find_of_mem hnodup⟩
  rw [← hiff]
  obtain ⟨-, ⟨item, hfind, hfresh, hget, -⟩ | ⟨hnone, hget, -⟩⟩ := get_cases h now key
  · rw [hget, hfind, Option.some.injEq]
    constructor
    · intro heq
      exact ⟨heq, heq ▸ hfresh⟩
    · exact And.left
  · rw [hget]
    constructor
    · intro heq
      cases heq
    · intro ⟨hfind, hfresh⟩
      rw [hnone asset hfind] at hfresh
      cases hfresh

/-- The eviction loop drops entries at the end. -/
theorem evict_keeps_front (maxCapacityBytes sizeBytes fuel : ℕ) (e : Eviction) :
    LruCrate.entries (evict maxCapacityBytes sizeBytes fuel e).guard <+:
      LruCrate.entries e.guard := by
  induction fuel generalizing e with
  | zero => exact List.prefix_rfl
  | succ fuel ih =>
    have hpop := LruCrate.entries_popLru e.guard
    rw [evict]
    split
    · split
      · next item guard heq =>
        rw [heq] at hpop
        refine (ih _).trans ?_
        rw [hpop]
        exact List.dropLast_prefix _
      · next guard heq =>
        rw [heq] at hpop
        rw [hpop]
        exact List.dropLast_prefix _
    · exact List.prefix_rfl

/-- Everything an `insert` does to the map: entries at its end go, and on success the new
one is put in front of the others. -/
theorem insert_cases (engine : LruCacheEngine) (now : ℕ) (key : Str) (status : StatusCode)
    (headers : HeaderMap) (body : List UInt8) (ttlOverride : Option ℕ) :
    ∃ kept, kept <+: engine.held ∧
      (((engine.insert now key status headers body ttlOverride).1.inserted = true ∧
        (engine.insert now key status headers body ttlOverride).2.held =
          (key, engine.assetFor now status headers body ttlOverride) :: without key kept) ∨
      ((engine.insert now key status headers body ttlOverride).1.inserted = false ∧
        (engine.insert now key status headers body ttlOverride).2.held = kept)) := by
  generalize hresult : engine.insert now key status headers body ttlOverride = result
  unfold LruCacheEngine.insert at hresult
  dsimp only at hresult
  split at hresult
  · subst hresult
    exact ⟨engine.held, List.prefix_rfl, .inr ⟨rfl, rfl⟩⟩
  · split at hresult
    · subst hresult
      exact ⟨engine.held, List.prefix_rfl, .inr ⟨rfl, rfl⟩⟩
    · split at hresult
      · subst hresult
        exact ⟨engine.held, List.prefix_rfl, .inr ⟨rfl, rfl⟩⟩
      · subst hresult
        exact ⟨engine.held, List.prefix_rfl, .inr ⟨rfl, rfl⟩⟩
      · next guard mem hguard hmem =>
        have hvalue : engine.inner.value = guard := by
          unfold Lock.write at hguard
          split at hguard
          · cases hguard
          · exact Option.some.inj hguard
        unfold LruCacheEngine.held
        rw [hvalue]
        have hfront := evict_keeps_front engine.maxCapacityBytes body.length
          (LruCrate.entries guard).length ⟨guard, mem, 0, 0⟩
        split at hresult
        · subst hresult
          obtain ⟨kept, hkept, hplaced⟩ := placed_cases _ key
            (engine.assetFor now status headers body ttlOverride) _
          refine ⟨kept, hkept.trans hfront, .inl ⟨rfl, ?_⟩⟩
          exact (LruCrate.entries_put _ _ _).trans hplaced
        · subst hresult
          exact ⟨_, hfront, .inr ⟨rfl, rfl⟩⟩

/-- An entry after an `insert` was there before under another key, or is the inserted one. -/
theorem insert_held {status : StatusCode} {headers : HeaderMap} {body : List UInt8}
    {ttlOverride : Option ℕ} {e : Str × CachedAsset}
    (he : e ∈ (engine.insert now key status headers body ttlOverride).2.held) :
    (e ∈ engine.held ∧
      ((engine.insert now key status headers body ttlOverride).1.inserted = true → e.1 ≠ key)) ∨
    (engine.insert now key status headers body ttlOverride).1.inserted = true ∧ e.1 = key ∧
      e.2.status = status ∧ e.2.headers = headers ∧ e.2.body = body := by
  obtain ⟨kept, hkept, ⟨hinserted, hheld⟩ | ⟨hinserted, hheld⟩⟩ :=
    insert_cases engine now key status headers body ttlOverride
  · rw [hheld] at he
    rcases List.mem_cons.mp he with rfl | he
    · exact .inr ⟨hinserted, rfl, rfl, rfl, rfl⟩
    · obtain ⟨hmem, hkey⟩ := mem_without.mp he
      exact .inl ⟨hkept.subset hmem, fun _ => hkey⟩
  · rw [hheld] at he
    refine .inl ⟨hkept.subset he, fun h => ?_⟩
    rw [hinserted] at h
    cases h

theorem insert_unpoisoned (h : engine.inner.poisoned = false) {status : StatusCode}
    {headers : HeaderMap} {body : List UInt8} {ttlOverride : Option ℕ} :
    (engine.insert now key status headers body ttlOverride).2.inner.poisoned = false := by
  unfold LruCacheEngine.insert
  dsimp only
  split
  · exact h
  · split
    · exact h
    · split
      · exact h
      · exact h
      · split <;> rfl

end Contents

end BarebonesProxy.Cache
