import BarebonesProxy.Cache
import BarebonesProxy.Runs

set_option autoImplicit false

/-!
# The byte counter against the bytes held

`insert` corrects the counter when its loop evicts and when `put` hands back the entry it
replaced. A `put` that drops the least recent entry of a full map hands back nothing.
-/
namespace BarebonesProxy.Cache
open RustStrings RustState Http LruMap Runs

section Accounting
variable [HttpCrate] [LruCrate]

def LruCacheEngine.held (engine : LruCacheEngine) : List (Str × CachedAsset) :=
  LruCrate.entries engine.inner.value

def heldBytes (es : List (Str × CachedAsset)) : ℕ := total CachedAsset.sizeBytes es

def ExactCount (engine : LruCacheEngine) : Prop :=
  engine.currentMemoryBytes.value = heldBytes engine.held

/-- Facts that no call changes, whatever the counter says. -/
structure Live (engine : LruCacheEngine) : Prop where
  inner : engine.inner.poisoned = false
  memory : engine.currentMemoryBytes.poisoned = false
  cap : LruCrate.cap engine.inner.value = itemCapacity
  limit : engine.maxCapacityBytes < 2 ^ 64
  counter : engine.currentMemoryBytes.value < 2 ^ 64

theorem Live.inner_write {engine : LruCacheEngine} (h : Live engine) :
    engine.inner.write = some engine.inner.value := by
  simp [Lock.write, h.inner]

theorem Live.memory_write {engine : LruCacheEngine} (h : Live engine) :
    engine.currentMemoryBytes.write = some engine.currentMemoryBytes.value := by
  simp [Lock.write, h.memory]

theorem new_live {maxCapacityBytes : ℕ} (hcap : maxCapacityBytes < 2 ^ 64)
    (maxFileSizeBytes defaultTtlSec : ℕ) :
    Live (.new maxCapacityBytes maxFileSizeBytes defaultTtlSec) :=
  ⟨rfl, rfl, LruCrate.cap_new .., hcap, by simp [LruCacheEngine.new, Lock.new]⟩

theorem new_exactCount (maxCapacityBytes maxFileSizeBytes defaultTtlSec : ℕ) :
    ExactCount (.new maxCapacityBytes maxFileSizeBytes defaultTtlSec) := by
  unfold ExactCount LruCacheEngine.held LruCacheEngine.new Lock.new
  rw [LruCrate.entries_new]
  rfl

theorem get_found {engine : LruCacheEngine} (hlive : Live engine) (now : ℕ) {key : Str}
    {item : CachedAsset} (hfind : find key engine.held = some item) :
    engine.get now key =
      if item.isExpired now then
        (none,
          { engine with
            inner := ⟨(LruCrate.pop (LruCrate.getMut engine.inner.value key).2 key).2, false⟩
            currentMemoryBytes := ⟨engine.currentMemoryBytes.value - item.sizeBytes, false⟩ })
      else (some item,
        { engine with inner := ⟨(LruCrate.getMut engine.inner.value key).2, false⟩ }) := by
  have hvalue : (LruCrate.getMut engine.inner.value key).1 = some item := by
    rw [LruCrate.getMut_value]
    exact hfind
  simp only [LruCacheEngine.get, hlive.inner_write, hlive.memory_write]
  generalize LruCrate.getMut engine.inner.value key = found at hvalue
  obtain ⟨value, guard⟩ := found
  subst hvalue
  rfl

theorem get_missing {engine : LruCacheEngine} (hlive : Live engine) (now : ℕ) {key : Str}
    (hfind : find key engine.held = none) :
    engine.get now key =
      (none, { engine with inner := ⟨(LruCrate.getMut engine.inner.value key).2, false⟩ }) := by
  have hvalue : (LruCrate.getMut engine.inner.value key).1 = none := by
    rw [LruCrate.getMut_value]
    exact hfind
  simp only [LruCacheEngine.get, hlive.inner_write]
  generalize LruCrate.getMut engine.inner.value key = found at hvalue
  obtain ⟨value, guard⟩ := found
  subst hvalue
  rfl

theorem get_live {engine : LruCacheEngine} (h : Live engine) (now : ℕ) (key : Str) :
    Live (engine.get now key).2 := by
  cases hfind : find key engine.held with
  | none =>
    rw [get_missing h now hfind]
    exact ⟨rfl, h.memory, by simp [h.cap], h.limit, h.counter⟩
  | some item =>
    rw [get_found h now hfind]
    split
    · have := h.counter
      exact ⟨rfl, rfl, by simp [h.cap], h.limit, by dsimp only; omega⟩
    · exact ⟨rfl, h.memory, by simp [h.cap], h.limit, h.counter⟩

theorem get_exactCount {engine : LruCacheEngine} (hlive : Live engine) (h : ExactCount engine)
    (now : ℕ) (key : Str) : ExactCount (engine.get now key).2 := by
  have hnodup := LruCrate.keys_nodup engine.inner.value
  unfold ExactCount LruCacheEngine.held heldBytes at h ⊢
  cases hfind : find key engine.held with
  | none =>
    rw [get_missing hlive now hfind]
    simp only [LruCrate.entries_getMut, total_promoted _ hnodup]
    exact h
  | some item =>
    rw [get_found hlive now hfind]
    have hweight := total_without CachedAsset.sizeBytes hnodup hfind
    split
    · simp only [LruCrate.entries_pop, LruCrate.entries_getMut, without_promoted]
      omega
    · simp only [LruCrate.entries_getMut, total_promoted _ hnodup]
      exact h

theorem evict_stop {maxCapacityBytes sizeBytes : ℕ} {e : Eviction} (fuel : ℕ)
    (h : ¬ (maxCapacityBytes < wrappingAdd e.mem sizeBytes ∧ LruCrate.entries e.guard ≠ [])) :
    evict maxCapacityBytes sizeBytes fuel e = e := by
  cases fuel with
  | zero => rfl
  | succ fuel => rw [evict, if_neg h]

theorem evict_fits {maxCapacityBytes sizeBytes : ℕ} {e : Eviction} (fuel : ℕ)
    (h : wrappingAdd e.mem sizeBytes ≤ maxCapacityBytes) :
    evict maxCapacityBytes sizeBytes fuel e = e :=
  evict_stop fuel fun hgo => absurd hgo.1 (not_lt.mpr h)

theorem popLru_eq {guard : LruCache Str CachedAsset} {e : Str × CachedAsset}
    (h : (LruCrate.entries guard).getLast? = some e) :
    LruCrate.popLru guard = (some e, (LruCrate.popLru guard).2) := by
  rw [← h, ← LruCrate.popLru_value]

def Eviction.popped (e : Eviction) (item : CachedAsset) : Eviction where
  guard := (LruCrate.popLru e.guard).2
  mem := e.mem - item.sizeBytes
  bytesEvicted := wrappingAdd e.bytesEvicted item.sizeBytes
  itemsEvicted := wrappingAdd e.itemsEvicted 1

/-- A round of the loop pops the least recent entry. -/
theorem evict_round {maxCapacityBytes sizeBytes : ℕ} {e : Eviction} (fuel : ℕ)
    (hover : maxCapacityBytes < wrappingAdd e.mem sizeBytes) {last : Str × CachedAsset}
    (hlast : (LruCrate.entries e.guard).getLast? = some last) :
    evict maxCapacityBytes sizeBytes (fuel + 1) e =
      evict maxCapacityBytes sizeBytes fuel (e.popped last.2) := by
  have hne : LruCrate.entries e.guard ≠ [] := by
    intro hnil
    rw [hnil] at hlast
    cases hlast
  rw [evict, if_pos ⟨hover, hne⟩, popLru_eq hlast]
  rfl

theorem popped_entries (e : Eviction) (item : CachedAsset) :
    LruCrate.entries (e.popped item).guard = (LruCrate.entries e.guard).dropLast :=
  LruCrate.entries_popLru e.guard

structure Evicted (maxCapacityBytes sizeBytes : ℕ) (e e' : Eviction) : Prop where
  exact : e'.mem = heldBytes (LruCrate.entries e'.guard)
  cap : LruCrate.cap e'.guard = LruCrate.cap e.guard
  fits : e'.mem + sizeBytes ≤ maxCapacityBytes
  mem_le : e'.mem ≤ e.mem
  length_le : (LruCrate.entries e'.guard).length ≤ (LruCrate.entries e.guard).length
  progress : maxCapacityBytes < e.mem + sizeBytes →
    (LruCrate.entries e'.guard).length < (LruCrate.entries e.guard).length

theorem evict_spec {maxCapacityBytes sizeBytes : ℕ} (fuel : ℕ) (e : Eviction)
    (hsize : sizeBytes ≤ maxCapacityBytes) (hword : e.mem + sizeBytes < 2 ^ 64)
    (hexact : e.mem = heldBytes (LruCrate.entries e.guard))
    (hfuel : (LruCrate.entries e.guard).length ≤ fuel) :
    Evicted maxCapacityBytes sizeBytes e (evict maxCapacityBytes sizeBytes fuel e) := by
  induction fuel generalizing e with
  | zero =>
    have hnil : LruCrate.entries e.guard = [] := List.length_eq_zero_iff.mp (Nat.le_zero.mp hfuel)
    have hzero : e.mem = 0 := by
      rw [hexact, hnil]
      rfl
    change Evicted maxCapacityBytes sizeBytes e e
    exact ⟨hexact, rfl, by omega, le_rfl, le_rfl, fun h => by omega⟩
  | succ fuel ih =>
    have hwrap := wrappingAdd_of_lt hword
    by_cases hfits : e.mem + sizeBytes ≤ maxCapacityBytes
    · rw [evict_fits (fuel + 1) (by omega)]
      exact ⟨hexact, rfl, hfits, le_rfl, le_rfl, fun h => by omega⟩
    · have hne : LruCrate.entries e.guard ≠ [] := by
        intro hnil
        rw [hnil] at hexact
        have hzero : e.mem = 0 := hexact
        omega
      obtain ⟨last, hlast⟩ := Option.isSome_iff_exists.mp (List.getLast?_isSome.mpr hne)
      have hweight : heldBytes (LruCrate.entries e.guard).dropLast + last.2.sizeBytes =
          heldBytes (LruCrate.entries e.guard) := total_dropLast CachedAsset.sizeBytes hlast
      have hpos := List.length_pos_of_ne_nil hne
      have hmem : (e.popped last.2).mem = e.mem - last.2.sizeBytes := rfl
      have hcap : LruCrate.cap (e.popped last.2).guard = LruCrate.cap e.guard :=
        LruCrate.cap_popLru e.guard
      have hentries := popped_entries e last.2
      have hlength : (LruCrate.entries (e.popped last.2).guard).length =
          (LruCrate.entries e.guard).length - 1 := by
        rw [hentries, List.length_dropLast]
      have hspec := ih (e.popped last.2) (by omega) (by rw [hentries]; omega) (by omega)
      have hle := hspec.mem_le
      have hll := hspec.length_le
      rw [evict_round fuel (by omega) hlast]
      exact ⟨hspec.exact, hspec.cap.trans hcap, hspec.fits, by omega, by omega, fun _ => by omega⟩

theorem evict_mem_le (maxCapacityBytes sizeBytes fuel : ℕ) (e : Eviction) :
    (evict maxCapacityBytes sizeBytes fuel e).mem ≤ e.mem := by
  induction fuel generalizing e with
  | zero => exact le_rfl
  | succ fuel ih =>
    rw [evict]
    split
    · split
      · refine (ih _).trans ?_
        exact Nat.sub_le ..
      · exact le_rfl
    · exact le_rfl

theorem evict_cap (maxCapacityBytes sizeBytes fuel : ℕ) (e : Eviction) :
    LruCrate.cap (evict maxCapacityBytes sizeBytes fuel e).guard = LruCrate.cap e.guard := by
  induction fuel generalizing e with
  | zero => rfl
  | succ fuel ih =>
    have hpop := LruCrate.cap_popLru e.guard
    rw [evict]
    split
    · split
      · next heq =>
        rw [heq] at hpop
        rw [ih]
        exact hpop
      · next heq =>
        rw [heq] at hpop
        exact hpop
    · rfl

def LruCacheEngine.stored (engine : LruCacheEngine) (e : Eviction) (key : Str)
    (asset : CachedAsset) : LruCacheEngine :=
  { engine with
    inner := ⟨(LruCrate.put e.guard key asset).2, false⟩
    currentMemoryBytes := ⟨wrappingAdd
      (e.mem - weightOf CachedAsset.sizeBytes (find key (LruCrate.entries e.guard)))
      asset.sizeBytes, false⟩ }

section Insert
variable {engine : LruCacheEngine} {now : ℕ} {key : Str} {status : StatusCode}
  {headers : HeaderMap} {body : List UInt8} {ttlOverride : Option ℕ}

def LruCacheEngine.evictFor (engine : LruCacheEngine) (sizeBytes : ℕ) : Eviction :=
  evict engine.maxCapacityBytes sizeBytes engine.held.length
    ⟨engine.inner.value, engine.currentMemoryBytes.value, 0, 0⟩

def LruCacheEngine.assetFor (engine : LruCacheEngine) (now : ℕ) (status : StatusCode)
    (headers : HeaderMap) (body : List UInt8) (ttlOverride : Option ℕ) : CachedAsset :=
  ⟨status, headers, body, now, ttlOverride.getD engine.defaultTtl, body.length⟩

theorem insert_refused
    (h : engine.maxFileSizeBytes < body.length ∨ engine.maxCapacityBytes < body.length) :
    (engine.insert now key status headers body ttlOverride).2 = engine := by
  unfold LruCacheEngine.insert
  by_cases hfile : engine.maxFileSizeBytes < body.length
  · simp [hfile]
  · have hcap := h.resolve_left hfile
    simp [hfile, hcap]

theorem insert_stored (hlive : Live engine) (hfile : body.length ≤ engine.maxFileSizeBytes)
    (hcap : body.length ≤ engine.maxCapacityBytes)
    (hfits : wrappingAdd (engine.evictFor body.length).mem body.length ≤ engine.maxCapacityBytes) :
    (engine.insert now key status headers body ttlOverride).2 =
      engine.stored (engine.evictFor body.length) key
        (engine.assetFor now status headers body ttlOverride) := by
  unfold LruCacheEngine.evictFor LruCacheEngine.held at hfits ⊢
  simp only [LruCacheEngine.insert, not_lt.mpr hfile, not_lt.mpr hcap, if_false,
    hlive.inner_write, hlive.memory_write, hfits, if_true, LruCrate.put_value,
    LruCacheEngine.stored, LruCacheEngine.assetFor]
  cases find key (LruCrate.entries (evict engine.maxCapacityBytes body.length
    (LruCrate.entries engine.inner.value).length
    ⟨engine.inner.value, engine.currentMemoryBytes.value, 0, 0⟩).guard) <;> rfl

theorem insert_overfull (hlive : Live engine) (hfile : body.length ≤ engine.maxFileSizeBytes)
    (hcap : body.length ≤ engine.maxCapacityBytes)
    (hfits : ¬ wrappingAdd (engine.evictFor body.length).mem body.length ≤
      engine.maxCapacityBytes) :
    (engine.insert now key status headers body ttlOverride).2 =
      { engine with
        inner := ⟨(engine.evictFor body.length).guard, false⟩
        currentMemoryBytes := ⟨(engine.evictFor body.length).mem, false⟩ } := by
  unfold LruCacheEngine.evictFor LruCacheEngine.held at hfits ⊢
  simp only [LruCacheEngine.insert, not_lt.mpr hfile, not_lt.mpr hcap, if_false,
    hlive.inner_write, hlive.memory_write, hfits]

theorem insert_live (h : Live engine) :
    Live (engine.insert now key status headers body ttlOverride).2 := by
  by_cases hsmall : body.length ≤ engine.maxFileSizeBytes ∧ body.length ≤ engine.maxCapacityBytes
  · obtain ⟨hfile, hcap⟩ := hsmall
    have hguard : LruCrate.cap (engine.evictFor body.length).guard = itemCapacity := by
      rw [LruCacheEngine.evictFor, evict_cap]
      exact h.cap
    by_cases hfits : wrappingAdd (engine.evictFor body.length).mem body.length ≤
        engine.maxCapacityBytes
    · rw [insert_stored h hfile hcap hfits]
      refine ⟨rfl, rfl, ?_, h.limit, Nat.mod_lt _ (by decide)⟩
      simp only [LruCacheEngine.stored, LruCrate.cap_put, hguard]
    · rw [insert_overfull h hfile hcap hfits]
      have hle : (engine.evictFor body.length).mem ≤ engine.currentMemoryBytes.value :=
        evict_mem_le ..
      exact ⟨rfl, rfl, hguard, h.limit, lt_of_le_of_lt hle h.counter⟩
  · rw [insert_refused (by omega)]
    exact h

theorem stored_exactCount_iff {e : Eviction} {asset : CachedAsset}
    (hexact : e.mem = heldBytes (LruCrate.entries e.guard)) :
    ExactCount (engine.stored e key asset) ↔
      wrappingAdd (e.mem - weightOf CachedAsset.sizeBytes (find key (LruCrate.entries e.guard)))
          asset.sizeBytes +
        weightOf CachedAsset.sizeBytes
          (displaced (LruCrate.cap e.guard) key (LruCrate.entries e.guard)) =
      e.mem + asset.sizeBytes := by
  have htotal := total_placed CachedAsset.sizeBytes (LruCrate.cap e.guard) key asset
    (LruCrate.keys_nodup e.guard)
  unfold heldBytes at hexact
  simp only [ExactCount, LruCacheEngine.stored, LruCacheEngine.held, heldBytes,
    LruCrate.entries_put]
  omega

/-- The step condition, on the engine before the call. An insert that needs no eviction
must not push a non-empty entry out of a full map, and its sum must fit a `usize`. -/
def KeepsCount (engine : LruCacheEngine) : CacheCall → Prop
  | .get _ _ => True
  | .insert _ key _ _ body _ =>
    body.length ≤ engine.maxFileSizeBytes → body.length ≤ engine.maxCapacityBytes →
    wrappingAdd engine.currentMemoryBytes.value body.length ≤ engine.maxCapacityBytes →
      engine.currentMemoryBytes.value - weightOf CachedAsset.sizeBytes (find key engine.held) +
          body.length < 2 ^ 64 ∧
      (find key engine.held = none → engine.held.length = itemCapacity →
        ∀ e, engine.held.getLast? = some e → e.2.sizeBytes = 0)

theorem weightOf_find_le (key : Str) (guard : LruCache Str CachedAsset) :
    weightOf CachedAsset.sizeBytes (find key (LruCrate.entries guard)) ≤
      heldBytes (LruCrate.entries guard) := by
  cases hfind : find key (LruCrate.entries guard) with
  | none => exact Nat.zero_le _
  | some old =>
    have := total_without CachedAsset.sizeBytes (LruCrate.keys_nodup guard) hfind
    simp only [weightOf, Option.map_some, Option.getD_some, heldBytes]
    omega

/-- An insert that first evicts keeps an exact counter exact: the map is not full any more. -/
theorem insert_evicting (hlive : Live engine) (hexact : ExactCount engine)
    (hfile : body.length ≤ engine.maxFileSizeBytes)
    (hcap : body.length ≤ engine.maxCapacityBytes)
    (hover : engine.maxCapacityBytes <
      wrappingAdd engine.currentMemoryBytes.value body.length) :
    ExactCount (engine.insert now key status headers body ttlOverride).2 := by
  have hlimit := hlive.limit
  have hcounter := hlive.counter
  have hword : engine.currentMemoryBytes.value + body.length < 2 ^ 64 := by
    unfold wrappingAdd at hover
    omega
  rw [wrappingAdd_of_lt hword] at hover
  have hspec : Evicted engine.maxCapacityBytes body.length
      ⟨engine.inner.value, engine.currentMemoryBytes.value, 0, 0⟩
      (engine.evictFor body.length) :=
    evict_spec _ _ hcap hword hexact le_rfl
  have hfits := hspec.fits
  have hroom := hspec.progress hover
  have hbound := LruCrate.length_le engine.inner.value
  have hcaps : LruCrate.cap (engine.evictFor body.length).guard =
      LruCrate.cap engine.inner.value := hspec.cap
  rw [insert_stored hlive hfile hcap (by rw [wrappingAdd_of_lt (by omega)]; exact hfits),
    stored_exactCount_iff hspec.exact]
  have hold := weightOf_find_le key (engine.evictFor body.length).guard
  have hmem := hspec.exact
  have hfree : (LruCrate.entries (engine.evictFor body.length).guard).length <
      LruCrate.cap (engine.evictFor body.length).guard := by
    simp only at hroom
    omega
  rw [displaced_of_lt key hfree]
  change wrappingAdd _ body.length + _ = _ + body.length
  rw [wrappingAdd_of_lt (by omega)]
  omega

theorem insert_fitting_iff (hlive : Live engine) (hexact : ExactCount engine)
    (hfile : body.length ≤ engine.maxFileSizeBytes)
    (hcap : body.length ≤ engine.maxCapacityBytes)
    (hfits : wrappingAdd engine.currentMemoryBytes.value body.length ≤
      engine.maxCapacityBytes) :
    ExactCount (engine.insert now key status headers body ttlOverride).2 ↔
      engine.currentMemoryBytes.value - weightOf CachedAsset.sizeBytes (find key engine.held) +
          body.length < 2 ^ 64 ∧
      (find key engine.held = none → engine.held.length = itemCapacity →
        ∀ e, engine.held.getLast? = some e → e.2.sizeBytes = 0) := by
  have hlimit := hlive.limit
  have hcounter := hlive.counter
  have hsame : engine.evictFor body.length =
      ⟨engine.inner.value, engine.currentMemoryBytes.value, 0, 0⟩ := evict_fits _ hfits
  rw [insert_stored hlive hfile hcap (by rw [hsame]; exact hfits), hsame,
    stored_exactCount_iff (e := ⟨engine.inner.value, engine.currentMemoryBytes.value, 0, 0⟩) hexact,
    hlive.cap]
  change wrappingAdd (engine.currentMemoryBytes.value -
    weightOf CachedAsset.sizeBytes (find key engine.held)) body.length +
      weightOf CachedAsset.sizeBytes (displaced itemCapacity key engine.held) =
        engine.currentMemoryBytes.value + body.length ↔ _
  have hold : weightOf CachedAsset.sizeBytes (find key engine.held) ≤
      engine.currentMemoryBytes.value := hexact ▸ weightOf_find_le key engine.inner.value
  have hbound : engine.held.length ≤ itemCapacity := hlive.cap ▸ LruCrate.length_le _
  unfold displaced wrappingAdd
  cases hfind : find key engine.held with
  | some old =>
    rw [hfind] at hold
    simp only [reduceCtorEq, false_imp_iff, and_true]
    omega
  | none =>
    simp only [weightOf, Option.map_none, Option.getD_none, Nat.sub_zero, true_imp_iff]
    by_cases hlen : engine.held.length < itemCapacity
    · simp only [hlen, if_true, Option.map_none, Option.getD_none, ne_of_lt hlen,
        false_imp_iff, and_true]
      omega
    · have hfull : engine.held.length = itemCapacity := by omega
      cases hlast : engine.held.getLast? with
      | none =>
        have hnil := List.getLast?_eq_none_iff.mp hlast
        rw [hnil] at hfull
        cases hfull
      | some e =>
        have hle : e.2.sizeBytes ≤ engine.currentMemoryBytes.value := by
          have := total_dropLast CachedAsset.sizeBytes hlast
          unfold ExactCount heldBytes at hexact
          omega
        simp only [hfull, lt_self_iff_false, if_false, Option.map_some, Option.getD_some,
          true_imp_iff, Option.some.injEq, forall_eq']
        omega

end Insert

theorem run_live (engine : LruCacheEngine) (c : CacheCall) (h : Live engine) :
    Live (c.run engine) := by
  cases c with
  | get time key => exact get_live h time key
  | insert time key status headers body ttlOverride => exact insert_live h

theorem run_exactCount_iff (engine : LruCacheEngine) (c : CacheCall) (hlive : Live engine)
    (hexact : ExactCount engine) : ExactCount (c.run engine) ↔ KeepsCount engine c := by
  cases c with
  | get time key =>
    simp only [KeepsCount, iff_true]
    exact get_exactCount hlive hexact time key
  | insert time key status headers body ttlOverride =>
    simp only [KeepsCount, CacheCall.run]
    by_cases hsmall : body.length ≤ engine.maxFileSizeBytes ∧
        body.length ≤ engine.maxCapacityBytes
    · obtain ⟨hfile, hcap⟩ := hsmall
      simp only [hfile, hcap, true_imp_iff]
      by_cases hfits : wrappingAdd engine.currentMemoryBytes.value body.length ≤
          engine.maxCapacityBytes
      · simp only [hfits, true_imp_iff]
        exact insert_fitting_iff hlive hexact hfile hcap hfits
      · simp only [hfits, false_imp_iff, iff_true]
        exact insert_evicting hlive hexact hfile hcap (by omega)
    · rw [insert_refused (by omega)]
      constructor
      · intro _ hfile hcap
        exact absurd ⟨hfile, hcap⟩ hsmall
      · intro _
        exact hexact

theorem exactCount_along_run_iff (maxCapacityBytes maxFileSizeBytes defaultTtlSec : ℕ)
    (hcap : maxCapacityBytes < 2 ^ 64) (calls : List CacheCall) :
    (∀ before, before <+: calls →
      ExactCount ((LruCacheEngine.new maxCapacityBytes maxFileSizeBytes defaultTtlSec).after before)) ↔
    ∀ before c, before ++ [c] <+: calls →
      KeepsCount ((LruCacheEngine.new maxCapacityBytes maxFileSizeBytes defaultTtlSec).after before) c :=
  always_iff_steps (fun e c _ => run_live e c) (fun e c _ => run_exactCount_iff e c)
    (new_live hcap maxFileSizeBytes defaultTtlSec)
    (new_exactCount maxCapacityBytes maxFileSizeBytes defaultTtlSec)

def filler (i : ℕ) : CacheCall :=
  .insert 0 ("a:/".toList ++ List.replicate i 'x') .ok HttpCrate.empty [0] none

structure Filled (n : ℕ) (engine : LruCacheEngine) : Prop where
  live : Live engine
  limits : engine.maxFileSizeBytes = 2 ^ 20 ∧ engine.maxCapacityBytes = 2 ^ 20
  counter : engine.currentMemoryBytes.value = n
  length : engine.held.length = n
  bytes : ∀ e ∈ engine.held, e.2.sizeBytes = 1
  keys : ∀ e ∈ engine.held, ∃ i < n, e.1 = "a:/".toList ++ List.replicate i 'x'

theorem Filled.absent {n : ℕ} {engine : LruCacheEngine} (h : Filled n engine) :
    find ("a:/".toList ++ List.replicate n 'x') engine.held = none := by
  rw [find_eq_none]
  intro hmem
  obtain ⟨e, he, hkey⟩ := List.mem_map.mp hmem
  obtain ⟨i, hi, heq⟩ := h.keys e he
  rw [heq] at hkey
  have hlength := congrArg List.length hkey
  simp only [List.length_append, List.length_replicate] at hlength
  omega

theorem Filled.exactCount {n : ℕ} {engine : LruCacheEngine} (h : Filled n engine) :
    ExactCount engine := by
  have hsum : ∀ es : List (Str × CachedAsset), (∀ e ∈ es, e.2.sizeBytes = 1) →
      heldBytes es = es.length := by
    intro es hes
    induction es with
    | nil => rfl
    | cons e es ih =>
      have hrest := ih fun e' he' => hes e' (List.mem_cons_of_mem _ he')
      have hone := hes e List.mem_cons_self
      unfold heldBytes at hrest ⊢
      rw [total_cons, List.length_cons, hrest, hone]
      omega
  rw [ExactCount, hsum _ h.bytes, h.counter, h.length]

/-- The next filler is stored without an eviction, also into a full map. -/
theorem Filled.run_eq {n : ℕ} {engine : LruCacheEngine} (h : Filled n engine)
    (hn : n ≤ itemCapacity) :
    (filler n).run engine =
      engine.stored ⟨engine.inner.value, engine.currentMemoryBytes.value, 0, 0⟩
        ("a:/".toList ++ List.replicate n 'x') (engine.assetFor 0 .ok HttpCrate.empty [0] none) := by
  have hcapacity : itemCapacity = 10000 := rfl
  obtain ⟨hfile, hcap⟩ := h.limits
  have hcounter := h.counter
  have hfits : wrappingAdd engine.currentMemoryBytes.value 1 ≤ engine.maxCapacityBytes := by
    rw [wrappingAdd_of_lt (by omega), hcap]
    omega
  have hsame : engine.evictFor 1 = ⟨engine.inner.value, engine.currentMemoryBytes.value, 0, 0⟩ :=
    evict_fits _ hfits
  rw [← hsame]
  exact insert_stored h.live (by simp [hfile]) (by simp [hcap]) (by
    change wrappingAdd (engine.evictFor 1).mem 1 ≤ _
    rw [hsame]
    exact hfits)

theorem Filled.counter_next {n : ℕ} {engine : LruCacheEngine} (h : Filled n engine)
    (hn : n ≤ itemCapacity) : ((filler n).run engine).currentMemoryBytes.value = n + 1 := by
  have hcapacity : itemCapacity = 10000 := rfl
  have habsent : find ("a:/".toList ++ List.replicate n 'x')
      (LruCrate.entries engine.inner.value) = none := h.absent
  rw [h.run_eq hn]
  simp only [LruCacheEngine.stored, habsent, weightOf, Option.map_none, Option.getD_none,
    Nat.sub_zero, h.counter]
  change wrappingAdd n 1 = n + 1
  exact wrappingAdd_of_lt (by omega)

theorem Filled.limits_next {n : ℕ} {engine : LruCacheEngine} (h : Filled n engine)
    (hn : n ≤ itemCapacity) : ((filler n).run engine).maxFileSizeBytes = 2 ^ 20 ∧
      ((filler n).run engine).maxCapacityBytes = 2 ^ 20 := by
  rw [h.run_eq hn]
  exact h.limits

theorem Filled.step {n : ℕ} {engine : LruCacheEngine} (h : Filled n engine)
    (hn : n < itemCapacity) : Filled (n + 1) ((filler n).run engine) := by
  have hrun := h.run_eq hn.le
  have habsent : find ("a:/".toList ++ List.replicate n 'x')
      (LruCrate.entries engine.inner.value) = none := h.absent
  have hroom : (LruCrate.entries engine.inner.value).length < itemCapacity := by
    have := h.length
    unfold LruCacheEngine.held at this
    omega
  have hheld : ((filler n).run engine).held = ("a:/".toList ++ List.replicate n 'x',
      engine.assetFor 0 .ok HttpCrate.empty [0] none) :: engine.held := by
    rw [hrun]
    simp only [LruCacheEngine.held, LruCacheEngine.stored, LruCrate.entries_put, h.live.cap,
      placed, habsent, Option.isSome_none, Bool.false_eq_true, if_false, if_pos hroom]
  refine ⟨run_live _ _ h.live, h.limits_next hn.le, h.counter_next hn.le, ?_, ?_, ?_⟩
  · rw [hheld, List.length_cons, h.length]
  · rw [hheld]
    intro e he
    rcases List.mem_cons.mp he with rfl | he
    · rfl
    · exact h.bytes e he
  · rw [hheld]
    intro e he
    rcases List.mem_cons.mp he with rfl | he
    · exact ⟨n, by omega, rfl⟩
    · obtain ⟨i, hi, hkey⟩ := h.keys e he
      exact ⟨i, by omega, hkey⟩

theorem after_filler_succ (engine : LruCacheEngine) (n : ℕ) :
    engine.after ((List.range (n + 1)).map filler) =
      (filler n).run (engine.after ((List.range n).map filler)) := by
  unfold LruCacheEngine.after
  rw [List.range_succ, List.map_append, List.foldl_append]
  rfl

theorem filled_after (n : ℕ) (hn : n ≤ itemCapacity) :
    Filled n ((LruCacheEngine.new (2 ^ 20) (2 ^ 20) 3600).after ((List.range n).map filler)) := by
  induction n with
  | zero =>
    have hnil : ((LruCacheEngine.new (2 ^ 20) (2 ^ 20) 3600).after []).held = [] :=
      LruCrate.entries_new ..
    rw [List.range_zero, List.map_nil]
    refine ⟨new_live (by decide) _ _, ⟨rfl, rfl⟩, rfl, ?_, ?_, ?_⟩
    · rw [hnil]
      rfl
    · rw [hnil]
      simp
    · rw [hnil]
      simp
  | succ n ih =>
    rw [after_filler_succ]
    exact (ih (by omega)).step (by omega)

end Accounting

section Example
open ListCrates

def storing (key : String) (body : List UInt8) : CacheCall :=
  .insert 0 key.toList .ok HttpCrate.empty body none

/-- The second insert replaces the first, the last one evicts the other two entries. -/
def replacingRun : List CacheCall :=
  [storing "a:/x" [1, 2], storing "a:/x" [3], storing "a:/y" [4, 5, 6], storing "a:/z" [7, 8]]

theorem replacingRun_small : ∀ before, before <+: replacingRun →
    ((LruCacheEngine.new 4 4 60).after before).held.length ≤ 2 ∧
      ((LruCacheEngine.new 4 4 60).after before).currentMemoryBytes.value ≤ 4 ∧
      ((LruCacheEngine.new 4 4 60).after before).maxCapacityBytes = 4 := by
  refine forall_prefix_of_take ?_
  decide +kernel

theorem exactCount_after_replacing :
    4 < 2 ^ 64 ∧
      (List.range 5).map (fun n => ((LruCacheEngine.new 4 4 60).after
        (replacingRun.take n)).held.map fun e => (e.1, e.2.sizeBytes)) =
        [[], [("a:/x".toList, 2)], [("a:/x".toList, 1)],
          [("a:/y".toList, 3), ("a:/x".toList, 1)], [("a:/z".toList, 2)]] ∧
      ∀ before, before <+: replacingRun →
        ExactCount ((LruCacheEngine.new 4 4 60).after before) := by
  have hcap : 4 < 2 ^ 64 := by decide
  refine ⟨hcap, by decide +kernel, (exactCount_along_run_iff 4 4 60 hcap replacingRun).mpr ?_⟩
  intro before c hp
  have hbefore : before <+: replacingRun := (List.prefix_append before _).trans hp
  obtain ⟨hheld, hcounter, hlimit⟩ := replacingRun_small before hbefore
  cases c with
  | get time key => trivial
  | insert time key status headers body ttlOverride =>
    intro _ hbody _
    refine ⟨?_, fun _ hfull => ?_⟩
    · rw [hlimit] at hbody
      omega
    · rw [hfull] at hheld
      exact absurd hheld (by decide)

/-- The insert of a new key into a map of 10,000 entries: one byte leaves the map, none
leaves the counter. -/
theorem full_map_insert_loses_count :
    ¬ ∀ before, before <+: (List.range 10001).map filler →
      ExactCount ((LruCacheEngine.new (2 ^ 20) (2 ^ 20) 3600).after before) := by
  intro h
  have hfull := filled_after itemCapacity le_rfl
  have hlast := h _ (List.prefix_refl _)
  rw [show (10001 : ℕ) = itemCapacity + 1 from rfl, after_filler_succ] at hlast
  have hkeeps := (run_exactCount_iff _ _ hfull.live hfull.exactCount).mp hlast
  have hcounter := hfull.counter
  obtain ⟨hfile, hcap⟩ := hfull.limits
  have hne := List.ne_nil_of_length_pos (by rw [hfull.length]; decide)
  obtain ⟨e, he⟩ := Option.isSome_iff_exists.mp (List.getLast?_isSome.mpr hne)
  have hzero := (hkeeps (by rw [hfile]; decide) (by rw [hcap]; decide)
    (by rw [hcap, hcounter]; decide)).2 hfull.absent hfull.length e he
  rw [hfull.bytes e (List.mem_of_getLast? he)] at hzero
  cases hzero

end Example

end BarebonesProxy.Cache
