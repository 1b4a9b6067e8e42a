import Mathlib.Data.List.Basic
import Mathlib.Data.List.Nodup
import Mathlib.Algebra.BigOperators.Group.List.Basic
import Mathlib.Algebra.Ring.Nat

set_option autoImplicit false

/-!
# A map with a bounded number of entries and least-recently-used replacement

`LruCrate` states the documented behaviour of the `lru` crate over the list of entries,
most recently used first. `listLru` is an instance.
-/
namespace BarebonesProxy.LruMap

section Entries
variable {K V : Type} [DecidableEq K]

def find (k : K) (es : List (K × V)) : Option V := (es.find? fun e => e.1 = k).map Prod.snd

def without (k : K) (es : List (K × V)) : List (K × V) := es.filter fun e => e.1 ≠ k

def promoted (k : K) (es : List (K × V)) : List (K × V) :=
  match find k es with
  | some v => (k, v) :: without k es
  | none => es

/-- The entries after a `put`; a new key in a full map costs the least recent entry. -/
def placed (cap : ℕ) (k : K) (v : V) (es : List (K × V)) : List (K × V) :=
  if (find k es).isSome then (k, v) :: without k es
  else if es.length < cap then (k, v) :: es
  else (k, v) :: es.dropLast

end Entries

class LruCrate where
  LruCache : Type → Type → Type
  new {K V : Type} (cap : ℕ) (pos : 0 < cap) : LruCache K V
  cap {K V : Type} : LruCache K V → ℕ
  entries {K V : Type} : LruCache K V → List (K × V)
  getMut {K V : Type} [DecidableEq K] : LruCache K V → K → Option V × LruCache K V
  pop {K V : Type} [DecidableEq K] : LruCache K V → K → Option V × LruCache K V
  popLru {K V : Type} : LruCache K V → Option (K × V) × LruCache K V
  put {K V : Type} [DecidableEq K] : LruCache K V → K → V → Option V × LruCache K V
  keys_nodup {K V : Type} (c : LruCache K V) : ((entries c).map Prod.fst).Nodup
  length_le {K V : Type} (c : LruCache K V) : (entries c).length ≤ cap c
  entries_new {K V : Type} (n : ℕ) (h : 0 < n) : entries (new n h : LruCache K V) = []
  cap_new {K V : Type} (n : ℕ) (h : 0 < n) : cap (new n h : LruCache K V) = n
  getMut_value {K V : Type} [DecidableEq K] (c : LruCache K V) (k : K) :
    (getMut c k).1 = find k (entries c)
  entries_getMut {K V : Type} [DecidableEq K] (c : LruCache K V) (k : K) :
    entries (getMut c k).2 = promoted k (entries c)
  cap_getMut {K V : Type} [DecidableEq K] (c : LruCache K V) (k : K) : cap (getMut c k).2 = cap c
  entries_pop {K V : Type} [DecidableEq K] (c : LruCache K V) (k : K) :
    entries (pop c k).2 = without k (entries c)
  cap_pop {K V : Type} [DecidableEq K] (c : LruCache K V) (k : K) : cap (pop c k).2 = cap c
  popLru_value {K V : Type} (c : LruCache K V) : (popLru c).1 = (entries c).getLast?
  entries_popLru {K V : Type} (c : LruCache K V) : entries (popLru c).2 = (entries c).dropLast
  cap_popLru {K V : Type} (c : LruCache K V) : cap (popLru c).2 = cap c
  put_value {K V : Type} [DecidableEq K] (c : LruCache K V) (k : K) (v : V) :
    (put c k v).1 = find k (entries c)
  entries_put {K V : Type} [DecidableEq K] (c : LruCache K V) (k : K) (v : V) :
    entries (put c k v).2 = placed (cap c) k v (entries c)
  cap_put {K V : Type} [DecidableEq K] (c : LruCache K V) (k : K) (v : V) :
    cap (put c k v).2 = cap c

export LruCrate (LruCache)

attribute [simp] LruCrate.entries_new LruCrate.cap_new LruCrate.getMut_value
  LruCrate.entries_getMut LruCrate.cap_getMut LruCrate.entries_pop LruCrate.cap_pop
  LruCrate.popLru_value LruCrate.entries_popLru LruCrate.cap_popLru LruCrate.put_value
  LruCrate.entries_put LruCrate.cap_put

section Weights
variable {K V : Type} (size : V → ℕ)

def total (es : List (K × V)) : ℕ := (es.map fun e => size e.2).sum

@[simp] theorem total_cons (e : K × V) (es : List (K × V)) :
    total size (e :: es) = size e.2 + total size es := by
  simp [total]

theorem total_dropLast {e : K × V} {es : List (K × V)} (h : es.getLast? = some e) :
    total size es.dropLast + size e.2 = total size es := by
  have heq := List.dropLast_append_getLast? e h
  unfold total
  rw [← heq, List.map_append, List.sum_append]
  simp

variable [DecidableEq K]

def weightOf (v : Option V) : ℕ := (v.map size).getD 0

theorem find_cons (k : K) (e : K × V) (es : List (K × V)) :
    find k (e :: es) = if e.1 = k then some e.2 else find k es := by
  by_cases h : e.1 = k <;> simp [find, h]

theorem find_eq_none {k : K} {es : List (K × V)} :
    find k es = none ↔ k ∉ es.map Prod.fst := by
  simp only [find, Option.map_eq_none_iff, List.find?_eq_none, List.mem_map, not_exists, not_and,
    decide_eq_true_eq]

theorem without_eq_self {k : K} {es : List (K × V)} (h : k ∉ es.map Prod.fst) :
    without k es = es := by
  unfold without
  rw [List.filter_eq_self]
  intro e he
  have hne : e.1 ≠ k := fun heq => h (heq ▸ List.mem_map_of_mem he)
  simp [hne]

/-- With distinct keys, an entry accounts for exactly the difference of the totals. -/
theorem total_without {k : K} {v : V} {es : List (K × V)} (hnodup : (es.map Prod.fst).Nodup)
    (hfind : find k es = some v) : total size (without k es) + size v = total size es := by
  induction es with
  | nil => simp [find] at hfind
  | cons e es ih =>
    rw [List.map_cons, List.nodup_cons] at hnodup
    rw [find_cons] at hfind
    by_cases hk : e.1 = k
    · rw [if_pos hk] at hfind
      have hv : e.2 = v := Option.some.inj hfind
      have hrest : without k (e :: es) = without k es := by simp [without, hk]
      rw [hrest, without_eq_self (hk ▸ hnodup.1), total_cons, hv]
      omega
    · rw [if_neg hk] at hfind
      have hrest : without k (e :: es) = e :: without k es := by simp [without, hk]
      rw [hrest, total_cons, total_cons]
      have := ih hnodup.2 hfind
      omega

theorem total_promoted {k : K} {es : List (K × V)} (hnodup : (es.map Prod.fst).Nodup) :
    total size (promoted k es) = total size es := by
  unfold promoted
  cases hfind : find k es with
  | none => rfl
  | some v =>
    have := total_without size hnodup hfind
    simp only [total_cons]
    omega

/-- What a `put` removes: the entry it replaces, or the one a full map loses. -/
def displaced (cap : ℕ) (k : K) (es : List (K × V)) : Option V :=
  match find k es with
  | some old => some old
  | none => if es.length < cap then none else es.getLast?.map Prod.snd

theorem displaced_of_lt {cap : ℕ} (k : K) {es : List (K × V)} (h : es.length < cap) :
    displaced cap k es = find k es := by
  unfold displaced
  cases find k es with
  | some old => rfl
  | none => rw [if_pos h]

theorem weightOf_find_le_displaced (cap : ℕ) (k : K) (es : List (K × V)) :
    weightOf size (find k es) ≤ weightOf size (displaced cap k es) := by
  unfold displaced
  cases find k es with
  | some old => exact Nat.le_refl _
  | none => exact Nat.zero_le _

theorem total_placed (cap : ℕ) (k : K) (v : V) {es : List (K × V)}
    (hnodup : (es.map Prod.fst).Nodup) :
    total size (placed cap k v es) + weightOf size (displaced cap k es) =
      size v + total size es := by
  unfold placed displaced weightOf
  cases hfind : find k es with
  | some old =>
    have := total_without size hnodup hfind
    simp only [Option.isSome_some, if_true, total_cons, Option.map_some, Option.getD_some]
    omega
  | none =>
    simp only [Option.isSome_none, Bool.false_eq_true, if_false]
    by_cases hlen : es.length < cap
    · simp [hlen]
    · cases hlast : es.getLast? with
      | none =>
        rw [List.getLast?_eq_none_iff] at hlast
        simp [hlast]
      | some e =>
        have := total_dropLast size hlast
        simp only [hlen, if_false, total_cons, Option.map_some, Option.getD_some]
        omega

end Weights

section Bounds
variable {K V : Type} {k : K} {v : V} {es : List (K × V)} {cap : ℕ}

theorem nodup_keys_cons (hnew : k ∉ es.map Prod.fst) (hnodup : (es.map Prod.fst).Nodup) :
    (((k, v) :: es).map Prod.fst).Nodup :=
  List.nodup_cons.mpr ⟨hnew, hnodup⟩

theorem nodup_keys_sublist {es' : List (K × V)} (h : es'.Sublist es)
    (hnodup : (es.map Prod.fst).Nodup) : (es'.map Prod.fst).Nodup :=
  hnodup.sublist (h.map _)

theorem last_notMem_dropLast {e : K × V} (hnodup : (es.map Prod.fst).Nodup)
    (hlast : es.getLast? = some e) : e.1 ∉ es.dropLast.map Prod.fst := by
  have hsplit := List.dropLast_append_getLast? e hlast
  rw [← hsplit, List.map_append, List.nodup_append] at hnodup
  exact fun hmem => hnodup.2.2 _ hmem _ (.head _) rfl

variable [DecidableEq K]

theorem without_sublist (k : K) (es : List (K × V)) : (without k es).Sublist es :=
  List.filter_sublist

theorem not_mem_keys_without (k : K) (es : List (K × V)) : k ∉ (without k es).map Prod.fst := by
  simp [without]

theorem length_without_lt (h : find k es = some v) : (without k es).length < es.length := by
  have hk : k ∈ es.map Prod.fst := by
    by_contra hk
    rw [find_eq_none.mpr hk] at h
    cases h
  obtain ⟨e, he, rfl⟩ := List.mem_map.mp hk
  exact List.length_filter_lt_length_iff_exists.mpr ⟨e, he, by simp⟩

theorem nodup_keys_front (hnodup : (es.map Prod.fst).Nodup) :
    (((k, v) :: without k es).map Prod.fst).Nodup :=
  nodup_keys_cons (not_mem_keys_without k es) (nodup_keys_sublist (without_sublist k es) hnodup)

theorem without_promoted (k : K) (es : List (K × V)) :
    without k (promoted k es) = without k es := by
  unfold promoted
  cases find k es with
  | none => rfl
  | some v => simp [without]

theorem nodup_keys_promoted (hnodup : (es.map Prod.fst).Nodup) :
    ((promoted k es).map Prod.fst).Nodup := by
  unfold promoted
  cases find k es with
  | none => exact hnodup
  | some v => exact nodup_keys_front hnodup

theorem length_promoted_le (k : K) (es : List (K × V)) :
    (promoted k es).length ≤ es.length := by
  unfold promoted
  cases h : find k es with
  | none => exact Nat.le_refl _
  | some v => exact length_without_lt h

theorem nodup_keys_placed (hnodup : (es.map Prod.fst).Nodup) :
    ((placed cap k v es).map Prod.fst).Nodup := by
  unfold placed
  cases h : find k es with
  | some w => exact nodup_keys_front hnodup
  | none =>
    have hnew := find_eq_none.mp h
    have hdrop : k ∉ es.dropLast.map Prod.fst := fun hk =>
      hnew ((es.dropLast_sublist.map _).subset hk)
    simp only [Option.isSome_none, Bool.false_eq_true, if_false]
    split
    · exact nodup_keys_cons hnew hnodup
    · exact nodup_keys_cons hdrop (nodup_keys_sublist es.dropLast_sublist hnodup)

theorem length_placed_le (hcap : 0 < cap) (hle : es.length ≤ cap) :
    (placed cap k v es).length ≤ cap := by
  unfold placed
  cases h : find k es with
  | some w =>
    have := length_without_lt h
    simp only [Option.isSome_some, if_true, List.length_cons]
    omega
  | none =>
    simp only [Option.isSome_none, Bool.false_eq_true, if_false]
    split
    · simpa only [List.length_cons]
    · rw [List.length_cons, List.length_dropLast]
      omega

theorem mem_of_find (h : find k es = some v) : (k, v) ∈ es := by
  obtain ⟨e, hfind, rfl⟩ := Option.map_eq_some_iff.mp h
  have hkey : e.1 = k := by simpa using List.find?_some hfind
  rw [← hkey]
  exact List.mem_of_find?_eq_some hfind

theorem find_of_mem (hnodup : (es.map Prod.fst).Nodup) (h : (k, v) ∈ es) : find k es = some v := by
  induction es with
  | nil => cases h
  | cons e es ih =>
    rw [List.map_cons, List.nodup_cons] at hnodup
    rw [find_cons]
    rcases List.mem_cons.mp h with heq | hmem
    · rw [← heq, if_pos rfl]
    · have hne : e.1 ≠ k := by
        intro heq
        rw [heq] at hnodup
        exact hnodup.1 (List.mem_map_of_mem hmem)
      rw [if_neg hne, ih hnodup.2 hmem]

theorem promoted_of_find (h : find k es = some v) : promoted k es = (k, v) :: without k es := by
  rw [promoted, h]

theorem find_without_of_ne {j : K} (h : j ≠ k) (es : List (K × V)) :
    find j (without k es) = find j es := by
  induction es with
  | nil => rfl
  | cons e es ih =>
    by_cases hk : e.1 = k
    · have hrest : without k (e :: es) = without k es := by simp [without, hk]
      rw [hrest, ih, find_cons, if_neg (fun heq => h (heq.symm.trans hk))]
    · have hrest : without k (e :: es) = e :: without k es := by simp [without, hk]
      rw [hrest, find_cons, find_cons, ih]

theorem mem_without {e : K × V} : e ∈ without k es ↔ e ∈ es ∧ e.1 ≠ k := by
  simp [without]

theorem mem_keys_without {j : K} (h : j ≠ k) :
    j ∈ (without k es).map Prod.fst ↔ j ∈ es.map Prod.fst := by
  simp only [List.mem_map, mem_without]
  constructor
  · rintro ⟨e, ⟨he, -⟩, rfl⟩
    exact ⟨e, he, rfl⟩
  · rintro ⟨e, he, rfl⟩
    exact ⟨e, ⟨he, h⟩, rfl⟩

/-- A `put` drops entries at the end, if any, and puts its own in front of the others. -/
theorem placed_cases (cap : ℕ) (k : K) (v : V) (es : List (K × V)) :
    ∃ kept, kept <+: es ∧ placed cap k v es = (k, v) :: without k kept := by
  unfold placed
  cases hfind : find k es with
  | some w => exact ⟨es, List.prefix_rfl, rfl⟩
  | none =>
    have hnew := find_eq_none.mp hfind
    rw [Option.isSome_none, if_neg Bool.false_ne_true]
    split
    · exact ⟨es, List.prefix_rfl, by rw [without_eq_self hnew]⟩
    · have hdrop : k ∉ es.dropLast.map Prod.fst := fun hk =>
        hnew ((es.dropLast_sublist.map _).subset hk)
      exact ⟨es.dropLast, es.dropLast_prefix, by rw [without_eq_self hdrop]⟩

theorem mem_placed_of_room {e : K × V} (he : e ∈ es) (hk : e.1 ≠ k)
    (hroom : (without k es).length < cap) : e ∈ placed cap k v es := by
  unfold placed
  cases hfind : find k es with
  | some w => exact .tail _ (mem_without.mpr ⟨he, hk⟩)
  | none =>
    rw [without_eq_self (find_eq_none.mp hfind)] at hroom
    rw [Option.isSome_none, if_neg Bool.false_ne_true, if_pos hroom]
    exact .tail _ he

/-- Without the key of the last entry, the others are left. -/
theorem without_last (hnodup : (es.map Prod.fst).Nodup) (hlast : es.getLast? = some (k, v)) :
    without k es = es.dropLast := by
  have hsplit := List.dropLast_append_getLast? (k, v) hlast
  have hrest := without_eq_self (last_notMem_dropLast hnodup hlast)
  nth_rewrite 1 [← hsplit]
  unfold without at hrest ⊢
  rw [List.filter_append, hrest]
  simp

theorem mem_of_mem_placed {e : K × V} (h : e ∈ placed cap k v es) :
    e = (k, v) ∨ e.1 ≠ k ∧ e ∈ es := by
  obtain ⟨kept, hkept, hplaced⟩ := placed_cases cap k v es
  rw [hplaced] at h
  refine (List.mem_cons.mp h).imp_right fun hmem => ?_
  obtain ⟨hmem, hkey⟩ := mem_without.mp hmem
  exact ⟨hkey, hkept.subset hmem⟩

theorem mem_placed_self (cap : ℕ) (k : K) (v : V) (es : List (K × V)) :
    (k, v) ∈ placed cap k v es := by
  obtain ⟨kept, -, hplaced⟩ := placed_cases cap k v es
  rw [hplaced]
  exact .head _

end Bounds

structure ListLru (K V : Type) where
  cap : ℕ
  pos : 0 < cap
  entries : List (K × V)
  nodup : (entries.map Prod.fst).Nodup
  bounded : entries.length ≤ cap

@[reducible] def listLru : LruCrate where
  LruCache := ListLru
  new cap pos := ⟨cap, pos, [], List.nodup_nil, Nat.zero_le _⟩
  cap := ListLru.cap
  entries := ListLru.entries
  getMut c k := (find k c.entries,
    { c with
      entries := promoted k c.entries
      nodup := nodup_keys_promoted c.nodup
      bounded := Nat.le_trans (length_promoted_le k c.entries) c.bounded })
  pop c k := (find k c.entries,
    { c with
      entries := without k c.entries
      nodup := nodup_keys_sublist (without_sublist k c.entries) c.nodup
      bounded := Nat.le_trans (without_sublist k c.entries).length_le c.bounded })
  popLru c := (c.entries.getLast?,
    { c with
      entries := c.entries.dropLast
      nodup := nodup_keys_sublist c.entries.dropLast_sublist c.nodup
      bounded := Nat.le_trans c.entries.dropLast_sublist.length_le c.bounded })
  put c k v := (find k c.entries,
    { c with
      entries := placed c.cap k v c.entries
      nodup := nodup_keys_placed c.nodup
      bounded := length_placed_le c.pos c.bounded })
  keys_nodup c := c.nodup
  length_le c := c.bounded
  entries_new _ _ := rfl
  cap_new _ _ := rfl
  getMut_value _ _ := rfl
  entries_getMut _ _ := rfl
  cap_getMut _ _ := rfl
  entries_pop _ _ := rfl
  cap_pop _ _ := rfl
  popLru_value _ := rfl
  entries_popLru _ := rfl
  cap_popLru _ := rfl
  put_value _ _ _ := rfl
  entries_put _ _ _ := rfl
  cap_put _ _ _ := rfl

end BarebonesProxy.LruMap

namespace BarebonesProxy.ListCrates

scoped instance lru : LruMap.LruCrate := LruMap.listLru

end BarebonesProxy.ListCrates
