import BarebonesProxy.CacheBudget

set_option autoImplicit false

/-!
# Which bodies an engine takes

An `insert` evicts from the least recent end until its body fits the counter. It is in
vain if the counter says more than the entries weigh and the difference leaves no room.
-/
namespace BarebonesProxy.Cache
open RustStrings RustState Http LruMap Runs

section Eviction
variable [HttpCrate]

theorem heldBytes_append (es es' : List (Str × CachedAsset)) :
    heldBytes (es ++ es') = heldBytes es + heldBytes es' := by
  unfold heldBytes total
  rw [List.map_append, List.sum_append]

variable [LruCrate]

/-- What is left of the counter is the same, whichever way the last entry is counted. -/
theorem popped_left {e : Eviction} {last : Str × CachedAsset} {kept : ℕ}
    (hlast : (LruCrate.entries e.guard).getLast? = some last)
    (hkept : kept ≤ (LruCrate.entries e.guard).dropLast.length) :
    (e.popped last.2).mem - heldBytes ((LruCrate.entries e.guard).dropLast.drop kept) =
      e.mem - heldBytes ((LruCrate.entries e.guard).drop kept) := by
  have hsplit := List.dropLast_append_getLast? last hlast
  nth_rewrite 2 [← hsplit]
  rw [List.drop_append_of_le_length hkept, heldBytes_append]
  change e.mem - last.2.sizeBytes - _ = _
  simp only [heldBytes, total, List.map_cons, List.map_nil, List.sum_cons, List.sum_nil]
  omega

/-- The loop makes room exactly if removing some least recent entries does. -/
theorem evict_fits_iff {maxCapacityBytes sizeBytes fuel : ℕ} {e : Eviction}
    (hfuel : (LruCrate.entries e.guard).length = fuel) :
    wrappingAdd (evict maxCapacityBytes sizeBytes fuel e).mem sizeBytes ≤ maxCapacityBytes ↔
      ∃ kept, wrappingAdd (e.mem - heldBytes ((LruCrate.entries e.guard).drop kept)) sizeBytes ≤
        maxCapacityBytes := by
  induction fuel generalizing e with
  | zero =>
    rw [List.length_eq_zero_iff.mp hfuel]
    simp [evict, heldBytes, total]
  | succ fuel ih =>
    by_cases hfits : wrappingAdd e.mem sizeBytes ≤ maxCapacityBytes
    · rw [evict_fits _ hfits]
      refine iff_of_true hfits ⟨fuel + 1, ?_⟩
      rw [List.drop_eq_nil_of_le hfuel.le]
      exact hfits
    · have hne : LruCrate.entries e.guard ≠ [] := List.ne_nil_of_length_pos (by omega)
      obtain ⟨last, hlast⟩ := Option.isSome_iff_exists.mp (List.getLast?_isSome.mpr hne)
      have hlength : (LruCrate.entries e.guard).dropLast.length = fuel := by
        rw [List.length_dropLast]
        omega
      rw [evict_round fuel (not_le.mp hfits) hlast, ih (by rw [popped_entries, hlength]),
        popped_entries]
      constructor
      · rintro ⟨kept, hroom⟩
        by_cases hkept : kept ≤ fuel
        · exact ⟨kept, by rw [← popped_left hlast (hkept.trans hlength.ge)]; exact hroom⟩
        · refine ⟨fuel, ?_⟩
          rw [← popped_left hlast hlength.ge, List.drop_eq_nil_of_le hlength.le]
          rw [List.drop_eq_nil_of_le (by omega)] at hroom
          exact hroom
      · rintro ⟨kept, hroom⟩
        by_cases hkept : kept ≤ fuel
        · exact ⟨kept, by rw [popped_left hlast (hkept.trans hlength.ge)]; exact hroom⟩
        · rw [List.drop_eq_nil_of_le (by omega)] at hroom
          exact absurd hroom hfits

end Eviction

section Admission
variable [HttpCrate] [LruCrate] {engine : LruCacheEngine} {now : ℕ} {key : Str}
  {status : StatusCode} {headers : HeaderMap} {body : List UInt8} {ttlOverride : Option ℕ}

/-- Without its least recent entries, beyond those kept, the counter has room for the size. -/
def RoomAfterEviction (engine : LruCacheEngine) (sizeBytes : ℕ) : Prop :=
  ∃ kept, wrappingAdd (engine.currentMemoryBytes.value - heldBytes (engine.held.drop kept))
    sizeBytes ≤ engine.maxCapacityBytes

/-- The body is inserted, and a lookup within its time to live gives it back. -/
def Admits (engine : LruCacheEngine) (now : ℕ) (key : Str) (status : StatusCode)
    (headers : HeaderMap) (body : List UInt8) (ttlOverride : Option ℕ) : Prop :=
  (engine.insert now key status headers body ttlOverride).1.inserted = true ∧
    ∀ later, durationSince later now < ttlOverride.getD engine.defaultTtl →
      ∃ asset, ((engine.insert now key status headers body ttlOverride).2.get later key).1 =
        some asset ∧ asset.body = body

theorem insert_result (hlive : Live engine) (hfile : body.length ≤ engine.maxFileSizeBytes)
    (hcap : body.length ≤ engine.maxCapacityBytes) :
    (engine.insert now key status headers body ttlOverride).1 =
      if wrappingAdd (engine.evictFor body.length).mem body.length ≤ engine.maxCapacityBytes then
        ⟨true, body.length, (engine.evictFor body.length).bytesEvicted,
          (engine.evictFor body.length).itemsEvicted, none⟩
      else ⟨false, 0, (engine.evictFor body.length).bytesEvicted,
          (engine.evictFor body.length).itemsEvicted,
          some "capacity_full_after_eviction".toList⟩ := by
  unfold LruCacheEngine.evictFor LruCacheEngine.held
  simp only [LruCacheEngine.insert, not_lt.mpr hfile, not_lt.mpr hcap, if_false,
    hlive.inner_write, hlive.memory_write]
  split <;> rfl

theorem evictFor_fits_iff (size : ℕ) :
    wrappingAdd (engine.evictFor size).mem size ≤ engine.maxCapacityBytes ↔
      RoomAfterEviction engine size :=
  evict_fits_iff rfl

theorem stored_found {e : Eviction} {asset : CachedAsset} {later : ℕ}
    (hfresh : asset.isExpired later = false) :
    ((engine.stored e key asset).get later key).1 = some asset := by
  refine (get_eq_some_iff rfl).mpr ⟨?_, hfresh⟩
  simp only [LruCacheEngine.held, LruCacheEngine.stored, LruCrate.entries_put]
  exact mem_placed_self _ _ _ _

theorem admits_iff (hlive : Live engine) (hfile : body.length ≤ engine.maxFileSizeBytes)
    (hcap : body.length ≤ engine.maxCapacityBytes) :
    Admits engine now key status headers body ttlOverride ↔
      RoomAfterEviction engine body.length := by
  rw [← evictFor_fits_iff]
  unfold Admits
  rw [insert_result hlive hfile hcap]
  by_cases hfits : wrappingAdd (engine.evictFor body.length).mem body.length ≤
      engine.maxCapacityBytes
  · rw [if_pos hfits, insert_stored hlive hfile hcap hfits]
    refine iff_of_true ⟨rfl, fun later hlater => ?_⟩ hfits
    refine ⟨engine.assetFor now status headers body ttlOverride, stored_found ?_, rfl⟩
    exact decide_eq_false (not_le.mpr hlater)
  · rw [if_neg hfits]
    refine iff_of_false ?_ hfits
    rintro ⟨h, -⟩
    cases h

/-- The engine is in a state that calls of `get` and `insert` lead to. -/
def Reached (engine : LruCacheEngine) : Prop :=
  ∃ maxCapacityBytes maxFileSizeBytes defaultTtlSec calls, maxCapacityBytes < 2 ^ 64 ∧
    engine = (LruCacheEngine.new maxCapacityBytes maxFileSizeBytes defaultTtlSec).after calls

theorem Reached.live (h : Reached engine) : Live engine := by
  obtain ⟨maxCapacityBytes, maxFileSizeBytes, defaultTtlSec, calls, hcap, rfl⟩ := h
  exact foldl_invariant Live run_live (new_live hcap maxFileSizeBytes defaultTtlSec) calls

/-- While no sum wraps, room is left exactly if what the counter says too much and the size
are within the capacity. -/
theorem roomAfterEviction_iff {sizeBytes : ℕ}
    (hheld : heldBytes engine.held ≤ engine.currentMemoryBytes.value)
    (hword : engine.currentMemoryBytes.value + sizeBytes < 2 ^ 64) :
    RoomAfterEviction engine sizeBytes ↔
      engine.currentMemoryBytes.value - heldBytes engine.held + sizeBytes ≤
        engine.maxCapacityBytes := by
  have hsum : ∀ kept, wrappingAdd
      (engine.currentMemoryBytes.value - heldBytes (engine.held.drop kept)) sizeBytes =
        engine.currentMemoryBytes.value - heldBytes (engine.held.drop kept) + sizeBytes :=
    fun kept => wrappingAdd_of_lt (by omega)
  constructor
  · rintro ⟨kept, hroom⟩
    rw [hsum] at hroom
    have hpart : heldBytes (engine.held.drop kept) ≤ heldBytes engine.held := by
      have hall := heldBytes_append (engine.held.take kept) (engine.held.drop kept)
      rw [List.take_append_drop] at hall
      omega
    omega
  · intro hroom
    refine ⟨0, ?_⟩
    rw [hsum]
    exact hroom

/-- In every reachable state, a body within both limits is admitted exactly if the counter
has room for it once enough entries are evicted. While no sum wraps, that is when what the
counter says too much and the body are within the capacity. -/
theorem reached_admits_iff (hreached : Reached engine)
    (hfile : body.length ≤ engine.maxFileSizeBytes) (hcap : body.length ≤ engine.maxCapacityBytes) :
    (Admits engine now key status headers body ttlOverride ↔
      RoomAfterEviction engine body.length) ∧
    (heldBytes engine.held ≤ engine.currentMemoryBytes.value →
      engine.currentMemoryBytes.value + body.length < 2 ^ 64 →
      (RoomAfterEviction engine body.length ↔
        engine.currentMemoryBytes.value - heldBytes engine.held + body.length ≤
          engine.maxCapacityBytes)) :=
  ⟨admits_iff hreached.live hfile hcap, roomAfterEviction_iff⟩

theorem Filled.overrun (h : Filled itemCapacity engine) :
    heldBytes ((filler itemCapacity).run engine).held + 1 =
      ((filler itemCapacity).run engine).currentMemoryBytes.value := by
  have hentries : heldBytes (LruCrate.entries engine.inner.value) = itemCapacity :=
    h.exactCount.symm.trans h.counter
  have habsent : find ("a:/".toList ++ List.replicate itemCapacity 'x')
      (LruCrate.entries engine.inner.value) = none := h.absent
  have hlength : (LruCrate.entries engine.inner.value).length = itemCapacity := h.length
  have htotal := total_placed CachedAsset.sizeBytes itemCapacity
    ("a:/".toList ++ List.replicate itemCapacity 'x')
    (engine.assetFor 0 .ok HttpCrate.empty [0] none) (LruCrate.keys_nodup engine.inner.value)
  have hne : LruCrate.entries engine.inner.value ≠ [] :=
    List.ne_nil_of_length_pos (by rw [hlength]; decide)
  obtain ⟨last, hlast⟩ := Option.isSome_iff_exists.mp (List.getLast?_isSome.mpr hne)
  have hdisplaced : weightOf CachedAsset.sizeBytes (displaced itemCapacity
      ("a:/".toList ++ List.replicate itemCapacity 'x')
      (LruCrate.entries engine.inner.value)) = 1 := by
    unfold displaced
    rw [habsent, hlength, if_neg (lt_irrefl _), hlast]
    exact h.bytes last (List.mem_of_getLast? hlast)
  have hone : (engine.assetFor 0 .ok HttpCrate.empty [0] none).sizeBytes = 1 := rfl
  rw [h.counter_next le_rfl, h.run_eq le_rfl]
  simp only [LruCacheEngine.held, LruCacheEngine.stored, LruCrate.entries_put, h.live.cap]
  unfold heldBytes at hentries ⊢
  omega

theorem refused_of_excess (hlive : Live engine)
    (hexcess : heldBytes engine.held < engine.currentMemoryBytes.value)
    (hword : engine.currentMemoryBytes.value + body.length < 2 ^ 64)
    (hfile : body.length ≤ engine.maxFileSizeBytes) (hwhole : body.length = engine.maxCapacityBytes) :
    (engine.insert now key status headers body ttlOverride).1.reason =
        some "capacity_full_after_eviction".toList ∧
      ¬ Admits engine now key status headers body ttlOverride := by
  have hnone : ¬ RoomAfterEviction engine body.length := by
    rw [roomAfterEviction_iff hexcess.le hword]
    omega
  constructor
  · rw [insert_result hlive hfile hwhole.le, if_neg ((evictFor_fits_iff _).not.mpr hnone)]
  · rw [admits_iff hlive hfile hwhole.le]
    exact hnone

theorem Filled.refuses (h : Filled itemCapacity engine) (hwhole : body.length = 2 ^ 20) :
    (((filler itemCapacity).run engine).insert now key status headers body ttlOverride).1.reason =
        some "capacity_full_after_eviction".toList ∧
      ¬ Admits ((filler itemCapacity).run engine) now key status headers body ttlOverride := by
  have hexcess := h.overrun
  have hcounter := h.counter_next le_rfl
  obtain ⟨hfile, hcap⟩ := h.limits_next le_rfl
  have hcapacity : itemCapacity = 10000 := rfl
  refine refused_of_excess (run_live _ _ h.live) ?_ ?_ ?_ ?_
  all_goals omega

end Admission

section Example
open ListCrates

def squeezedTwice : LruCacheEngine := (LruCacheEngine.new 3 3 60).after (squeezed.take 2)

theorem squeezed_admits :
    Reached squeezedTwice ∧ squeezedTwice.currentMemoryBytes.value = 3 ∧
      Admits squeezedTwice 2 "c".toList .ok [] [7, 8] none := by
  have hreached : Reached squeezedTwice := ⟨3, 3, 60, squeezed.take 2, by decide, rfl⟩
  refine ⟨hreached, by decide +kernel, ?_⟩
  refine (reached_admits_iff hreached (by decide +kernel) (by decide +kernel)).1.mpr ⟨0, ?_⟩
  decide +kernel

def overrunEngine : LruCacheEngine :=
  (LruCacheEngine.new (2 ^ 20) (2 ^ 20) 3600).after ((List.range (itemCapacity + 1)).map filler)

/-- After 10,001 one-byte entries a body of the whole capacity is refused, with all entries
evicted for it. -/
theorem overrun_refuses :
    Reached overrunEngine ∧
      (overrunEngine.insert 0 "b:/".toList .ok [] (List.replicate (2 ^ 20) 0) none).1.reason =
        some "capacity_full_after_eviction".toList ∧
      ¬ Admits overrunEngine 0 "b:/".toList .ok [] (List.replicate (2 ^ 20) 0) none := by
  have hfull := filled_after itemCapacity le_rfl
  refine ⟨⟨2 ^ 20, 2 ^ 20, 3600, (List.range (itemCapacity + 1)).map filler, by decide, rfl⟩, ?_⟩
  rw [overrunEngine, after_filler_succ]
  exact hfull.refuses List.length_replicate

end Example

end BarebonesProxy.Cache
