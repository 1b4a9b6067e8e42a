import BarebonesProxy.CacheContents

set_option autoImplicit false

/-!
# The byte budget of the cache

The counter may run above the bytes held, since a full map drops an entry unseen, and
never below them. So no subtraction from it saturates, and the budget it is tested
against bounds the bytes held.
-/
namespace BarebonesProxy.Cache
open RustStrings RustState Http LruMap Runs

section Subtractions

/-- Subtracting the amounts one after the other, none is more than what is left. -/
def NeverSaturates : ℕ → List ℕ → Prop
  | _, [] => True
  | counter, amount :: amounts => amount ≤ counter ∧ NeverSaturates (counter - amount) amounts

theorem neverSaturates_append {counter : ℕ} {xs ys : List ℕ} :
    NeverSaturates counter (xs ++ ys) ↔
      NeverSaturates counter xs ∧ NeverSaturates (xs.foldl (· - ·) counter) ys := by
  induction xs generalizing counter with
  | nil => simp [NeverSaturates]
  | cons x xs ih => simp only [List.cons_append, NeverSaturates, ih, List.foldl_cons, and_assoc]

theorem foldl_sub_toList (amount : Option ℕ) (counter : ℕ) :
    amount.toList.foldl (· - ·) counter = counter - amount.getD 0 := by
  cases amount <;> rfl

theorem neverSaturates_toList {amount : Option ℕ} {counter : ℕ} (h : amount.getD 0 ≤ counter) :
    NeverSaturates counter amount.toList := by
  cases amount with
  | none => trivial
  | some amount => exact ⟨h, trivial⟩

end Subtractions

section Budget
variable [HttpCrate] [LruCrate]

/-- The sizes that the eviction loop subtracts, in order. -/
def evictedSizes (maxCapacityBytes sizeBytes : ℕ) : ℕ → Eviction → List ℕ
  | 0, _ => []
  | fuel + 1, e =>
    if maxCapacityBytes < wrappingAdd e.mem sizeBytes ∧ LruCrate.entries e.guard ≠ [] then
      match LruCrate.popLru e.guard with
      | (some (_, item), _) =>
        item.sizeBytes :: evictedSizes maxCapacityBytes sizeBytes fuel (e.popped item)
      | (none, _) => []
    else []

/-- The amounts that a call subtracts from the counter, in order. -/
def CacheCall.subtrahends (engine : LruCacheEngine) : CacheCall → List ℕ
  | .get time key =>
    match find key engine.held with
    | some item => if item.isExpired time then [item.sizeBytes] else []
    | none => []
  | .insert _ key _ _ body _ =>
    if engine.maxFileSizeBytes < body.length ∨ engine.maxCapacityBytes < body.length then []
    else
      evictedSizes engine.maxCapacityBytes body.length engine.held.length
          ⟨engine.inner.value, engine.currentMemoryBytes.value, 0, 0⟩ ++
        if wrappingAdd (engine.evictFor body.length).mem body.length ≤ engine.maxCapacityBytes then
          ((find key (LruCrate.entries (engine.evictFor body.length).guard)).map
            CachedAsset.sizeBytes).toList
        else []

def CacheCall.bytesInserted (engine : LruCacheEngine) : CacheCall → ℕ
  | .get _ _ => 0
  | .insert time key status headers body ttlOverride =>
    (engine.insert time key status headers body ttlOverride).1.bytesInserted

/-- The counter moves by these amounts, and none of the subtractions saturates. -/
structure Accounted (engine : LruCacheEngine) (c : CacheCall) : Prop where
  counter : (c.run engine).currentMemoryBytes.value =
    (c.subtrahends engine).foldl (· - ·) engine.currentMemoryBytes.value + c.bytesInserted engine
  unsaturated : NeverSaturates engine.currentMemoryBytes.value (c.subtrahends engine)

structure WithinBudget (engine : LruCacheEngine) : Prop where
  held_le : heldBytes engine.held ≤ engine.currentMemoryBytes.value
  counter_le : engine.currentMemoryBytes.value ≤ engine.maxCapacityBytes
  sizes : ∀ e ∈ engine.held,
    e.2.sizeBytes = e.2.body.length ∧ e.2.sizeBytes ≤ engine.maxFileSizeBytes
  items : engine.held.length ≤ 10000

theorem evictedSizes_stop {maxCapacityBytes sizeBytes : ℕ} {e : Eviction} (fuel : ℕ)
    (h : ¬ (maxCapacityBytes < wrappingAdd e.mem sizeBytes ∧ LruCrate.entries e.guard ≠ [])) :
    evictedSizes maxCapacityBytes sizeBytes fuel e = [] := by
  cases fuel with
  | zero => rfl
  | succ fuel => rw [evictedSizes, if_neg h]

theorem evictedSizes_round {maxCapacityBytes sizeBytes : ℕ} {e : Eviction} (fuel : ℕ)
    (hover : maxCapacityBytes < wrappingAdd e.mem sizeBytes) {last : Str × CachedAsset}
    (hlast : (LruCrate.entries e.guard).getLast? = some last) :
    evictedSizes maxCapacityBytes sizeBytes (fuel + 1) e =
      last.2.sizeBytes :: evictedSizes maxCapacityBytes sizeBytes fuel (e.popped last.2) := by
  have hne : LruCrate.entries e.guard ≠ [] := by
    intro hnil
    rw [hnil] at hlast
    cases hlast
  rw [evictedSizes, if_pos ⟨hover, hne⟩, popLru_eq hlast]

/-- The loop keeps the counter above the bytes held, so it never saturates. -/
theorem evict_budget (maxCapacityBytes sizeBytes fuel : ℕ) (e : Eviction)
    (hheld : heldBytes (LruCrate.entries e.guard) ≤ e.mem) :
    heldBytes (LruCrate.entries (evict maxCapacityBytes sizeBytes fuel e).guard) ≤
        (evict maxCapacityBytes sizeBytes fuel e).mem ∧
      (evict maxCapacityBytes sizeBytes fuel e).mem =
        (evictedSizes maxCapacityBytes sizeBytes fuel e).foldl (· - ·) e.mem ∧
      NeverSaturates e.mem (evictedSizes maxCapacityBytes sizeBytes fuel e) := by
  induction fuel generalizing e with
  | zero => exact ⟨hheld, rfl, trivial⟩
  | succ fuel ih =>
    by_cases hgo : maxCapacityBytes < wrappingAdd e.mem sizeBytes ∧ LruCrate.entries e.guard ≠ []
    · obtain ⟨last, hlast⟩ := Option.isSome_iff_exists.mp (List.getLast?_isSome.mpr hgo.2)
      have hweight : heldBytes (LruCrate.entries e.guard).dropLast + last.2.sizeBytes =
          heldBytes (LruCrate.entries e.guard) := total_dropLast CachedAsset.sizeBytes hlast
      have hmem : (e.popped last.2).mem = e.mem - last.2.sizeBytes := rfl
      have hnext := ih (e.popped last.2) (by rw [popped_entries]; omega)
      rw [evict_round fuel hgo.1 hlast, evictedSizes_round fuel hgo.1 hlast]
      refine ⟨hnext.1, ?_, by omega, ?_⟩
      · rw [List.foldl_cons, ← hmem]
        exact hnext.2.1
      · rw [← hmem]
        exact hnext.2.2
    · rw [evict_stop _ hgo, evictedSizes_stop _ hgo]
      exact ⟨hheld, rfl, trivial⟩

theorem new_withinBudget (maxCapacityBytes maxFileSizeBytes defaultTtlSec : ℕ) :
    WithinBudget (.new maxCapacityBytes maxFileSizeBytes defaultTtlSec) := by
  have hheld := new_held maxCapacityBytes maxFileSizeBytes defaultTtlSec
  refine ⟨?_, Nat.zero_le _, ?_, ?_⟩
  · rw [hheld]
    exact Nat.zero_le _
  · rw [hheld]
    intro e he
    cases he
  · rw [hheld]
    exact Nat.zero_le _

theorem Live.items {engine : LruCacheEngine} (h : Live engine) : engine.held.length ≤ 10000 := by
  have hbound := LruCrate.length_le engine.inner.value
  rw [h.cap] at hbound
  exact hbound

theorem get_withinBudget {engine : LruCacheEngine} (hlive : Live engine) (h : WithinBudget engine)
    (now : ℕ) (key : Str) : WithinBudget (engine.get now key).2 := by
  have hitems := (get_live hlive now key).items
  have hsizes : ∀ e ∈ (engine.get now key).2.held,
      e.2.sizeBytes = e.2.body.length ∧ e.2.sizeBytes ≤ engine.maxFileSizeBytes :=
    fun e he => h.sizes e (get_held hlive.inner he)
  have hnodup := LruCrate.keys_nodup engine.inner.value
  have hheld : total CachedAsset.sizeBytes (LruCrate.entries engine.inner.value) ≤
      engine.currentMemoryBytes.value := h.held_le
  have hcounter := h.counter_le
  cases hfind : find key engine.held with
  | none =>
    rw [get_missing hlive now hfind] at hsizes hitems ⊢
    refine ⟨?_, hcounter, hsizes, hitems⟩
    simp only [heldBytes, LruCacheEngine.held, LruCrate.entries_getMut, total_promoted _ hnodup]
    exact hheld
  | some item =>
    have hweight := total_without CachedAsset.sizeBytes hnodup hfind
    rw [get_found hlive now hfind] at hsizes hitems ⊢
    split at hsizes
    · next hexpired =>
      rw [if_pos hexpired] at hitems ⊢
      refine ⟨?_, (Nat.sub_le ..).trans hcounter, hsizes, hitems⟩
      simp only [heldBytes, LruCacheEngine.held, LruCrate.entries_pop, LruCrate.entries_getMut,
        without_promoted]
      omega
    · next hfresh =>
      rw [if_neg hfresh] at hitems ⊢
      refine ⟨?_, hcounter, hsizes, hitems⟩
      simp only [heldBytes, LruCacheEngine.held, LruCrate.entries_getMut, total_promoted _ hnodup]
      exact hheld

theorem get_accounted {engine : LruCacheEngine} (hlive : Live engine) (h : WithinBudget engine)
    (now : ℕ) (key : Str) : Accounted engine (.get now key) := by
  have hheld := h.held_le
  cases hfind : find key engine.held with
  | none =>
    have hsubs : CacheCall.subtrahends engine (.get now key) = [] := by
      simp only [CacheCall.subtrahends, hfind]
    constructor
    · rw [hsubs]
      simp only [CacheCall.run, get_missing hlive now hfind]
      rfl
    · rw [hsubs]
      trivial
  | some item =>
    have hweight : item.sizeBytes ≤ heldBytes engine.held := by
      have hfound := weightOf_find_le key engine.inner.value
      unfold LruCacheEngine.held at hfind
      rw [hfind] at hfound
      exact hfound
    by_cases hexpired : item.isExpired now = true
    · have hsubs : CacheCall.subtrahends engine (.get now key) = [item.sizeBytes] := by
        simp only [CacheCall.subtrahends, hfind, hexpired, if_true]
      constructor
      · rw [hsubs]
        simp only [CacheCall.run, get_found hlive now hfind, hexpired, if_true]
        rfl
      · rw [hsubs]
        exact ⟨hweight.trans hheld, trivial⟩
    · have hsubs : CacheCall.subtrahends engine (.get now key) = [] := by
        simp only [CacheCall.subtrahends, hfind, if_neg hexpired]
      constructor
      · rw [hsubs]
        simp only [CacheCall.run, get_found hlive now hfind, if_neg hexpired]
        rfl
      · rw [hsubs]
        trivial

section Insert
variable {engine : LruCacheEngine} {now : ℕ} {key : Str} {status : StatusCode}
  {headers : HeaderMap} {body : List UInt8} {ttlOverride : Option ℕ}

theorem insert_bytesInserted (hlive : Live engine) :
    (engine.insert now key status headers body ttlOverride).1.bytesInserted =
      if body.length ≤ engine.maxFileSizeBytes ∧ body.length ≤ engine.maxCapacityBytes ∧
          wrappingAdd (engine.evictFor body.length).mem body.length ≤ engine.maxCapacityBytes then
        body.length
      else 0 := by
  unfold LruCacheEngine.evictFor LruCacheEngine.held
  simp only [LruCacheEngine.insert, hlive.inner_write, hlive.memory_write]
  split_ifs
  all_goals first
    | rfl
    | omega

/-- What the eviction loop of an `insert` leaves. -/
theorem evictFor_budget (h : WithinBudget engine) (size : ℕ) :
    heldBytes (LruCrate.entries (engine.evictFor size).guard) ≤ (engine.evictFor size).mem ∧
      (engine.evictFor size).mem ≤ engine.currentMemoryBytes.value ∧
      ∀ e ∈ LruCrate.entries (engine.evictFor size).guard, e ∈ engine.held := by
  refine ⟨(evict_budget engine.maxCapacityBytes size engine.held.length
    ⟨engine.inner.value, engine.currentMemoryBytes.value, 0, 0⟩ h.held_le).1, evict_mem_le .., ?_⟩
  intro e he
  exact (evict_keeps_front ..).subset he

theorem stored_withinBudget (h : WithinBudget engine)
    (hword : engine.maxCapacityBytes + body.length < 2 ^ 64)
    (hfile : body.length ≤ engine.maxFileSizeBytes)
    (hfits : wrappingAdd (engine.evictFor body.length).mem body.length ≤ engine.maxCapacityBytes)
    (hitems : (engine.stored (engine.evictFor body.length) key
      (engine.assetFor now status headers body ttlOverride)).held.length ≤ 10000) :
    WithinBudget (engine.stored (engine.evictFor body.length) key
      (engine.assetFor now status headers body ttlOverride)) := by
  obtain ⟨hheld, hmem, hentries⟩ := evictFor_budget h body.length
  have hcounter := h.counter_le
  generalize engine.evictFor body.length = e at hheld hmem hentries hfits hitems ⊢
  have hsum : e.mem + body.length < 2 ^ 64 := by omega
  rw [wrappingAdd_of_lt hsum] at hfits
  have htotal := total_placed CachedAsset.sizeBytes (LruCrate.cap e.guard) key
    (engine.assetFor now status headers body ttlOverride) (LruCrate.keys_nodup e.guard)
  have hdisplaced := weightOf_find_le_displaced CachedAsset.sizeBytes (LruCrate.cap e.guard) key
    (LruCrate.entries e.guard)
  have hold := weightOf_find_le key e.guard
  have hsize : (engine.assetFor now status headers body ttlOverride).sizeBytes = body.length := rfl
  unfold heldBytes at hheld hold
  have hadd : wrappingAdd (e.mem - weightOf CachedAsset.sizeBytes
      (find key (LruCrate.entries e.guard))) body.length = e.mem - weightOf CachedAsset.sizeBytes
      (find key (LruCrate.entries e.guard)) + body.length := wrappingAdd_of_lt (by omega)
  refine ⟨?_, ?_, ?_, hitems⟩
  · simp only [heldBytes, LruCacheEngine.held, LruCacheEngine.stored, LruCrate.entries_put, hsize,
      hadd]
    omega
  · simp only [LruCacheEngine.stored, hsize, hadd]
    omega
  · intro x hx
    simp only [LruCacheEngine.held, LruCacheEngine.stored, LruCrate.entries_put] at hx
    rcases mem_of_mem_placed hx with rfl | ⟨-, hmem⟩
    · exact ⟨rfl, hfile⟩
    · exact h.sizes x (hentries x hmem)

theorem insert_withinBudget (hlive : Live engine) (h : WithinBudget engine)
    (hword : engine.maxCapacityBytes + body.length < 2 ^ 64) :
    WithinBudget (engine.insert now key status headers body ttlOverride).2 := by
  have hitems : (engine.insert now key status headers body ttlOverride).2.held.length ≤ 10000 :=
    (insert_live hlive).items
  by_cases hsmall : body.length ≤ engine.maxFileSizeBytes ∧ body.length ≤ engine.maxCapacityBytes
  · obtain ⟨hfile, hcap⟩ := hsmall
    by_cases hfits : wrappingAdd (engine.evictFor body.length).mem body.length ≤
        engine.maxCapacityBytes
    · rw [insert_stored hlive hfile hcap hfits] at hitems ⊢
      exact stored_withinBudget h hword hfile hfits hitems
    · obtain ⟨hheld, hmem, hentries⟩ := evictFor_budget h body.length
      rw [insert_overfull hlive hfile hcap hfits] at hitems ⊢
      exact ⟨hheld, hmem.trans h.counter_le, fun x hx => h.sizes x (hentries x hx), hitems⟩
  · rw [insert_refused (by omega)]
    exact h

theorem insert_subtrahends (hfile : body.length ≤ engine.maxFileSizeBytes)
    (hcap : body.length ≤ engine.maxCapacityBytes) :
    CacheCall.subtrahends engine (.insert now key status headers body ttlOverride) =
      evictedSizes engine.maxCapacityBytes body.length engine.held.length
          ⟨engine.inner.value, engine.currentMemoryBytes.value, 0, 0⟩ ++
        if wrappingAdd (engine.evictFor body.length).mem body.length ≤ engine.maxCapacityBytes then
          ((find key (LruCrate.entries (engine.evictFor body.length).guard)).map
            CachedAsset.sizeBytes).toList
        else [] :=
  if_neg (by omega)

theorem refused_accounted
    (hlarge : engine.maxFileSizeBytes < body.length ∨ engine.maxCapacityBytes < body.length)
    (hlive : Live engine) : Accounted engine (.insert now key status headers body ttlOverride) := by
  have hinserted : CacheCall.bytesInserted engine (.insert now key status headers body ttlOverride) =
      _ := insert_bytesInserted hlive
  have hsubs : CacheCall.subtrahends engine (.insert now key status headers body ttlOverride) =
      [] := if_pos hlarge
  rw [if_neg (by omega)] at hinserted
  constructor
  · rw [hsubs, hinserted]
    simp only [CacheCall.run, insert_refused hlarge, List.foldl_nil, Nat.add_zero]
  · rw [hsubs]
    trivial

theorem insert_accounted (hlive : Live engine) (h : WithinBudget engine)
    (hword : engine.maxCapacityBytes + body.length < 2 ^ 64) :
    Accounted engine (.insert now key status headers body ttlOverride) := by
  by_cases hsmall : body.length ≤ engine.maxFileSizeBytes ∧ body.length ≤ engine.maxCapacityBytes
  · obtain ⟨hfile, hcap⟩ := hsmall
    have hinserted : CacheCall.bytesInserted engine
        (.insert now key status headers body ttlOverride) = _ := insert_bytesInserted hlive
    have hcounter := h.counter_le
    obtain ⟨hheld, hmem, -⟩ := evictFor_budget h body.length
    obtain ⟨-, hloop, hnever⟩ := evict_budget engine.maxCapacityBytes body.length engine.held.length
      ⟨engine.inner.value, engine.currentMemoryBytes.value, 0, 0⟩ h.held_le
    change (engine.evictFor body.length).mem = _ at hloop
    have hold := weightOf_find_le key (engine.evictFor body.length).guard
    have hsubs : CacheCall.subtrahends engine (.insert now key status headers body ttlOverride) =
        _ := insert_subtrahends hfile hcap
    simp only [hfile, hcap, true_and] at hinserted
    by_cases hfits : wrappingAdd (engine.evictFor body.length).mem body.length ≤
        engine.maxCapacityBytes
    · rw [if_pos hfits] at hsubs hinserted
      have hreplaced := hold.trans hheld
      have hsum : (engine.evictFor body.length).mem - weightOf CachedAsset.sizeBytes
          (find key (LruCrate.entries (engine.evictFor body.length).guard)) + body.length <
          2 ^ 64 := by
        omega
      constructor
      · rw [hsubs, hinserted, List.foldl_append, ← hloop, foldl_sub_toList]
        simp only [CacheCall.run, insert_stored hlive hfile hcap hfits, LruCacheEngine.stored]
        exact wrappingAdd_of_lt hsum
      · rw [hsubs, neverSaturates_append, ← hloop]
        exact ⟨hnever, neverSaturates_toList hreplaced⟩
    · rw [if_neg hfits, List.append_nil] at hsubs
      rw [if_neg hfits] at hinserted
      constructor
      · rw [hsubs, ← hloop, hinserted]
        simp only [CacheCall.run, insert_overfull hlive hfile hcap hfits, Nat.add_zero]
      · rw [hsubs]
        exact hnever
  · exact refused_accounted (by omega) hlive

end Insert

/-- The sum that `insert` tests fits a `usize`. -/
def FitsUsize (maxCapacityBytes : ℕ) : CacheCall → Prop
  | .get _ _ => True
  | .insert _ _ _ _ body _ => maxCapacityBytes + body.length < 2 ^ 64

theorem run_maxCapacityBytes {engine : LruCacheEngine} (hlive : Live engine) (c : CacheCall) :
    (c.run engine).maxCapacityBytes = engine.maxCapacityBytes := by
  cases c with
  | get time key =>
    change (engine.get time key).2.maxCapacityBytes = engine.maxCapacityBytes
    unfold LruCacheEngine.get
    repeat' split
    all_goals rfl
  | insert time key status headers body ttlOverride =>
    unfold CacheCall.run LruCacheEngine.insert
    simp only [hlive.inner_write, hlive.memory_write]
    split_ifs <;> rfl

theorem run_budget {engine : LruCacheEngine} (hlive : Live engine) (h : WithinBudget engine)
    {c : CacheCall} (hfits : FitsUsize engine.maxCapacityBytes c) :
    WithinBudget (c.run engine) ∧ Accounted engine c := by
  cases c with
  | get time key => exact ⟨get_withinBudget hlive h time key, get_accounted hlive h time key⟩
  | insert time key status headers body ttlOverride =>
    exact ⟨insert_withinBudget hlive h hfits, insert_accounted hlive h hfits⟩

/-- Along every run the bytes held are within the counter and the counter within the
budget, and no call's subtraction saturates. -/
theorem cache_budget (maxCapacityBytes maxFileSizeBytes defaultTtlSec : ℕ)
    (hcap : maxCapacityBytes < 2 ^ 64) (calls : List CacheCall)
    (hfits : ∀ c ∈ calls, FitsUsize maxCapacityBytes c) :
    (∀ before, before <+: calls →
      WithinBudget ((LruCacheEngine.new maxCapacityBytes maxFileSizeBytes defaultTtlSec).after
        before)) ∧
    ∀ before c, before ++ [c] <+: calls →
      Accounted ((LruCacheEngine.new maxCapacityBytes maxFileSizeBytes defaultTtlSec).after
        before) c := by
  have hstep : ∀ (engine : LruCacheEngine) (c : CacheCall),
      (engine.maxCapacityBytes = maxCapacityBytes ∧ Live engine ∧ WithinBudget engine) →
      FitsUsize maxCapacityBytes c →
      (c.run engine).maxCapacityBytes = maxCapacityBytes ∧ Live (c.run engine) ∧
        WithinBudget (c.run engine) := by
    rintro engine c ⟨rfl, hlive, hbudget⟩ hc
    exact ⟨run_maxCapacityBytes hlive c, run_live engine c hlive, (run_budget hlive hbudget hc).1⟩
  have hall : ∀ before c, before ++ [c] <+: calls → FitsUsize maxCapacityBytes c := by
    intro before c hrun
    exact hfits c (hrun.subset (List.mem_append_right _ (.head _)))
  have hruns := always_of_steps hstep ⟨rfl, new_live hcap maxFileSizeBytes defaultTtlSec,
    new_withinBudget maxCapacityBytes maxFileSizeBytes defaultTtlSec⟩ hall
  constructor
  · intro before hrun
    exact (hruns before hrun).2.2
  · intro before c hrun
    obtain ⟨hmax, hlive, hbudget⟩ := hruns before ((List.prefix_append before [c]).trans hrun)
    have hc := hall before c hrun
    rw [← hmax] at hc
    exact (run_budget hlive hbudget hc).2

end Budget

section Example
open ListCrates

def squeezed : List CacheCall :=
  [.insert 0 "a".toList .ok [] [1, 2] none, .insert 1 "b".toList .ok [] [3] none,
    .insert 2 "a".toList .ok [] [4, 5, 6] none, .get (10 ^ 12) "a".toList]

/-- Three bytes of room: the third call evicts both entries, and the last finds its entry
expired. -/
theorem squeezed_budget :
    (List.range 5).map (fun n =>
        ((LruCacheEngine.new 3 3 60).after (squeezed.take n)).currentMemoryBytes.value) =
      [0, 2, 3, 3, 0] ∧
    CacheCall.subtrahends ((LruCacheEngine.new 3 3 60).after (squeezed.take 2))
      (.insert 2 "a".toList .ok [] [4, 5, 6] none) = [2, 1] ∧
    WithinBudget ((LruCacheEngine.new 3 3 60).after squeezed) ∧
    Accounted ((LruCacheEngine.new 3 3 60).after (squeezed.take 2))
      (.insert 2 "a".toList .ok [] [4, 5, 6] none) := by
  have hfits : ∀ c ∈ squeezed, FitsUsize 3 c := by
    simp [squeezed, FitsUsize]
  obtain ⟨hbudget, haccounted⟩ := cache_budget 3 3 60 (by decide) squeezed hfits
  exact ⟨by decide +kernel, by decide +kernel, hbudget squeezed List.prefix_rfl,
    haccounted _ _ ⟨squeezed.drop 3, rfl⟩⟩

end Example

end BarebonesProxy.Cache
