import BarebonesProxy.CacheAdmission

set_option autoImplicit false

/-!
# What an `insert` evicts for

The loop of `insert` holds the counter against the capacity while the old entry of the key
is still counted. Other entries stay if the counter has room all the same, or if the old
entry is the first to go.
-/
namespace BarebonesProxy.Cache
open RustStrings RustState Http LruMap

section Sparing
variable [HttpCrate] [LruCrate] {engine : LruCacheEngine} {now : ℕ} {key : Str}
  {status : StatusCode} {headers : HeaderMap} {body : List UInt8} {ttlOverride : Option ℕ}

/-- No entry under another key is removed. -/
def SparesOthers (engine : LruCacheEngine) (now : ℕ) (key : Str) (status : StatusCode)
    (headers : HeaderMap) (body : List UInt8) (ttlOverride : Option ℕ) : Prop :=
  ∀ e ∈ engine.held, e.1 ≠ key →
    e ∈ (engine.insert now key status headers body ttlOverride).2.held

/-- There is no other entry, or the counter has room for the size: as it is, or without the
entry of the key where that is the least recent. -/
def RoomBesideOthers (engine : LruCacheEngine) (key : Str) (sizeBytes : ℕ) : Prop :=
  without key engine.held = [] ∨
    wrappingAdd engine.currentMemoryBytes.value sizeBytes ≤ engine.maxCapacityBytes ∨
    ∃ old, engine.held.getLast? = some (key, old) ∧
      wrappingAdd (engine.currentMemoryBytes.value - old.sizeBytes) sizeBytes ≤
        engine.maxCapacityBytes

theorem evict_drops_last {maxCapacityBytes sizeBytes fuel : ℕ} {e : Eviction}
    (hover : maxCapacityBytes < wrappingAdd e.mem sizeBytes) {last : Str × CachedAsset}
    (hlast : (LruCrate.entries e.guard).getLast? = some last) (hfuel : 0 < fuel) :
    last ∉ LruCrate.entries (evict maxCapacityBytes sizeBytes fuel e).guard := by
  obtain ⟨n, rfl⟩ := Nat.exists_eq_succ_of_ne_zero (Nat.ne_of_gt hfuel)
  rw [Nat.succ_eq_add_one, evict_round n hover hlast]
  intro hmem
  have hleft := (evict_keeps_front maxCapacityBytes sizeBytes n (e.popped last.2)).subset hmem
  rw [popped_entries] at hleft
  exact last_notMem_dropLast (LruCrate.keys_nodup e.guard) hlast (List.mem_map_of_mem hleft)

theorem evictFor_round {sizeBytes : ℕ}
    (hover : engine.maxCapacityBytes < wrappingAdd engine.currentMemoryBytes.value sizeBytes)
    {last : Str × CachedAsset} (hlast : engine.held.getLast? = some last) :
    engine.evictFor sizeBytes =
      evict engine.maxCapacityBytes sizeBytes (engine.held.length - 1)
        (Eviction.popped ⟨engine.inner.value, engine.currentMemoryBytes.value, 0, 0⟩ last.2) := by
  have hpos : 0 < engine.held.length := List.length_pos_of_mem (List.mem_of_getLast? hlast)
  obtain ⟨n, hn⟩ := Nat.exists_eq_succ_of_ne_zero (Nat.ne_of_gt hpos)
  unfold LruCacheEngine.evictFor
  rw [hn]
  exact evict_round (e := ⟨engine.inner.value, engine.currentMemoryBytes.value, 0, 0⟩) n hover hlast

theorem evictFor_drops_last {sizeBytes : ℕ}
    (hover : engine.maxCapacityBytes < wrappingAdd engine.currentMemoryBytes.value sizeBytes)
    {last : Str × CachedAsset} (hlast : engine.held.getLast? = some last) :
    last ∉ LruCrate.entries (engine.evictFor sizeBytes).guard :=
  evict_drops_last hover hlast (List.length_pos_of_mem (List.mem_of_getLast? hlast))

/-- If there is still no room without the least recent entry, the one before it goes too. -/
theorem evictFor_drops_next {sizeBytes : ℕ}
    (hover : engine.maxCapacityBytes < wrappingAdd engine.currentMemoryBytes.value sizeBytes)
    {last next : Str × CachedAsset} (hlast : engine.held.getLast? = some last)
    (hstill : engine.maxCapacityBytes <
      wrappingAdd (engine.currentMemoryBytes.value - last.2.sizeBytes) sizeBytes)
    (hnext : engine.held.dropLast.getLast? = some next) :
    next ∉ LruCrate.entries (engine.evictFor sizeBytes).guard := by
  have hlength := List.length_pos_of_mem (List.mem_of_getLast? hnext)
  rw [List.length_dropLast] at hlength
  rw [evictFor_round hover hlast]
  refine evict_drops_last hstill ?_ hlength
  rw [popped_entries]
  exact hnext

theorem mem_evictFor_of_spared (hlive : Live engine) (hfile : body.length ≤ engine.maxFileSizeBytes)
    (hcap : body.length ≤ engine.maxCapacityBytes) {e : Str × CachedAsset} (hkey : e.1 ≠ key)
    (he : e ∈ (engine.insert now key status headers body ttlOverride).2.held) :
    e ∈ LruCrate.entries (engine.evictFor body.length).guard := by
  by_cases hfits : wrappingAdd (engine.evictFor body.length).mem body.length ≤
      engine.maxCapacityBytes
  · rw [insert_stored hlive hfile hcap hfits] at he
    simp only [LruCacheEngine.held, LruCacheEngine.stored, LruCrate.entries_put] at he
    rcases mem_of_mem_placed he with rfl | ⟨-, hmem⟩
    · exact absurd rfl hkey
    · exact hmem
  · rw [insert_overfull hlive hfile hcap hfits] at he
    exact he

/-- What the loop leaves is left by the whole call, if the other entries do not fill the map. -/
theorem spared_of_mem_evictFor (hlive : Live engine) (hfile : body.length ≤ engine.maxFileSizeBytes)
    (hcap : body.length ≤ engine.maxCapacityBytes)
    (hitems : (without key engine.held).length < itemCapacity) {e : Str × CachedAsset}
    (hkey : e.1 ≠ key) (he : e ∈ LruCrate.entries (engine.evictFor body.length).guard) :
    e ∈ (engine.insert now key status headers body ttlOverride).2.held := by
  by_cases hfits : wrappingAdd (engine.evictFor body.length).mem body.length ≤
      engine.maxCapacityBytes
  · rw [insert_stored hlive hfile hcap hfits]
    simp only [LruCacheEngine.held, LruCacheEngine.stored, LruCrate.entries_put]
    have hguard : LruCrate.cap (engine.evictFor body.length).guard = itemCapacity := by
      rw [LruCacheEngine.evictFor, evict_cap]
      exact hlive.cap
    have hfront : LruCrate.entries (engine.evictFor body.length).guard <+: engine.held :=
      evict_keeps_front ..
    refine mem_placed_of_room he hkey (lt_of_le_of_lt ?_ (hguard ▸ hitems))
    exact (hfront.sublist.filter _).length_le
  · rw [insert_overfull hlive hfile hcap hfits]
    exact he

theorem roomBesideOthers_of_spares (hlive : Live engine)
    (hfile : body.length ≤ engine.maxFileSizeBytes) (hcap : body.length ≤ engine.maxCapacityBytes)
    (hspares : SparesOthers engine now key status headers body ttlOverride) :
    RoomBesideOthers engine key body.length := by
  by_contra hnone
  simp only [RoomBesideOthers, not_or, not_le, not_exists, not_and] at hnone
  obtain ⟨hothers, hover, hlastover⟩ := hnone
  have hleft : ∀ e ∈ engine.held, e.1 ≠ key →
      e ∈ LruCrate.entries (engine.evictFor body.length).guard := fun e he hkey =>
    mem_evictFor_of_spared hlive hfile hcap hkey (hspares e he hkey)
  have hne : engine.held ≠ [] := by
    rintro hnil
    rw [hnil] at hothers
    exact hothers rfl
  obtain ⟨last, hlast⟩ := Option.isSome_iff_exists.mp (List.getLast?_isSome.mpr hne)
  by_cases hkey : last.1 = key
  · -- the old entry goes first, and then the least recent of the others
    obtain ⟨k, old⟩ := last
    obtain rfl : k = key := hkey
    have hrest : without k engine.held = engine.held.dropLast :=
      without_last (LruCrate.keys_nodup engine.inner.value) hlast
    rw [hrest] at hothers
    obtain ⟨next, hnext⟩ := Option.isSome_iff_exists.mp (List.getLast?_isSome.mpr hothers)
    obtain ⟨hmem, hnextkey⟩ := mem_without.mp (hrest ▸ List.mem_of_getLast? hnext)
    exact evictFor_drops_next hover hlast (hlastover old hlast) hnext (hleft next hmem hnextkey)
  · exact evictFor_drops_last hover hlast (hleft last (List.mem_of_getLast? hlast) hkey)

theorem spares_of_roomBesideOthers (hlive : Live engine)
    (hfile : body.length ≤ engine.maxFileSizeBytes) (hcap : body.length ≤ engine.maxCapacityBytes)
    (hitems : (without key engine.held).length < itemCapacity)
    (hroom : RoomBesideOthers engine key body.length) :
    SparesOthers engine now key status headers body ttlOverride := by
  intro e he hkey
  refine spared_of_mem_evictFor hlive hfile hcap hitems hkey ?_
  have hmem : e ∈ without key engine.held := mem_without.mpr ⟨he, hkey⟩
  by_cases hfits : wrappingAdd engine.currentMemoryBytes.value body.length ≤
      engine.maxCapacityBytes
  · rw [LruCacheEngine.evictFor, evict_fits _ hfits]
    exact he
  · rcases hroom with hnil | hroom | ⟨old, hlast, hroom⟩
    · rw [hnil] at hmem
      exact absurd hmem List.not_mem_nil
    · exact absurd hroom hfits
    · have hrest := without_last (LruCrate.keys_nodup engine.inner.value) hlast
      rw [evictFor_round (not_le.mp hfits) hlast, evict_fits _ hroom, popped_entries]
      exact hrest ▸ hmem

/-- If the other entries leave room for the body and for one more entry, none is removed. -/
def EvictsOnlyIfNeeded (engine : LruCacheEngine) (now : ℕ) (key : Str) (status : StatusCode)
    (headers : HeaderMap) (body : List UInt8) (ttlOverride : Option ℕ) : Prop :=
  heldBytes (without key engine.held) + body.length ≤ engine.maxCapacityBytes →
    (without key engine.held).length < itemCapacity →
    SparesOthers engine now key status headers body ttlOverride

/-- While the counter is exact, a key that is not held finds the room that there is. -/
theorem exact_room_of_absent (hlive : Live engine) (hexact : ExactCount engine)
    (habsent : find key engine.held = none) {sizeBytes : ℕ}
    (hroom : heldBytes (without key engine.held) + sizeBytes ≤ engine.maxCapacityBytes) :
    RoomBesideOthers engine key sizeBytes := by
  have hlimit := hlive.limit
  rw [without_eq_self (find_eq_none.mp habsent), ← hexact] at hroom
  refine .inr (.inl ?_)
  rw [wrappingAdd_of_lt (by omega)]
  exact hroom

/-- In every reachable state, an `insert` within both limits removes other entries only if it
needs to, exactly if the counter agrees that there is room. While it is exact, it does for
every key that is not held. -/
theorem reached_evicts_iff (hreached : Reached engine)
    (hfile : body.length ≤ engine.maxFileSizeBytes) (hcap : body.length ≤ engine.maxCapacityBytes) :
    (EvictsOnlyIfNeeded engine now key status headers body ttlOverride ↔
      (heldBytes (without key engine.held) + body.length ≤ engine.maxCapacityBytes →
        (without key engine.held).length < itemCapacity →
        RoomBesideOthers engine key body.length)) ∧
    (ExactCount engine → find key engine.held = none →
      heldBytes (without key engine.held) + body.length ≤ engine.maxCapacityBytes →
        RoomBesideOthers engine key body.length) := by
  refine ⟨forall_congr' fun _ => forall_congr' fun hitems => ?_,
    fun hexact habsent => exact_room_of_absent hreached.live hexact habsent⟩
  exact ⟨roomBesideOthers_of_spares hreached.live hfile hcap,
    spares_of_roomBesideOthers hreached.live hfile hcap hitems⟩

end Sparing

section Example
open ListCrates

theorem oldest_replaced_alone :
    Reached squeezedTwice ∧
      EvictsOnlyIfNeeded squeezedTwice 2 "a".toList .ok [] [7, 8] none ∧
      (squeezedTwice.insert 2 "a".toList .ok [] [7, 8] none).2.held.map Prod.fst =
        ["a".toList, "b".toList] := by
  have hreached : Reached squeezedTwice := ⟨3, 3, 60, squeezed.take 2, by decide, rfl⟩
  refine ⟨hreached, ?_, by decide +kernel⟩
  refine (reached_evicts_iff hreached (by decide +kernel) (by decide +kernel)).1.mpr fun _ _ => ?_
  exact .inr (.inr ⟨⟨.ok, [], [1, 2], 0, fromSecs 60, 2⟩, rfl, by decide +kernel⟩)

/-- Two entries of two bytes and one fill the cache. To replace the one byte by another, the
two bytes are evicted. -/
theorem replacing_evicts_other :
    Reached squeezedTwice ∧
      squeezedTwice.held.map Prod.fst = ["b".toList, "a".toList] ∧
      heldBytes (without "b".toList squeezedTwice.held) + 1 = squeezedTwice.maxCapacityBytes ∧
      (squeezedTwice.insert 2 "b".toList .ok [] [9] none).2.held.map Prod.fst = ["b".toList] ∧
      ¬ EvictsOnlyIfNeeded squeezedTwice 2 "b".toList .ok [] [9] none := by
  have hreached : Reached squeezedTwice := ⟨3, 3, 60, squeezed.take 2, by decide, rfl⟩
  have hheld : squeezedTwice.held.map Prod.fst = ["b".toList, "a".toList] := by decide +kernel
  have hleft : (squeezedTwice.insert 2 "b".toList .ok [] [9] none).2.held.map Prod.fst =
      ["b".toList] := by decide +kernel
  have hroom : heldBytes (without "b".toList squeezedTwice.held) + 1 =
      squeezedTwice.maxCapacityBytes := by decide +kernel
  refine ⟨hreached, hheld, hroom, hleft, fun hneeded => ?_⟩
  have hmem : "a".toList ∈ squeezedTwice.held.map Prod.fst := by
    rw [hheld]
    decide
  obtain ⟨e, he, hkey⟩ := List.mem_map.mp hmem
  have hspared := hneeded hroom.le (by decide +kernel) e he (by rw [hkey]; decide)
  have hgone := List.mem_map_of_mem (f := Prod.fst) hspared
  rw [hleft, hkey] at hgone
  exact absurd hgone (by decide)

end Example

end BarebonesProxy.Cache
