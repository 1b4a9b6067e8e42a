import Mathlib.Algebra.Ring.Nat
import Mathlib.Data.List.Basic
import Mathlib.Tactic.Common

set_option autoImplicit false

/-!
# Keys in the order of their last use

A history marks each step with the key that it used, if any. A list of keys is in order if
each was last used after those that follow it. Moving a key to the front when it is used
keeps the order, and so does dropping keys.
-/
namespace BarebonesProxy.Recency

section Marks
variable {K : Type} {marks : List (Option K)} {k : K} {n : ℕ}

/-- Step `n` is the last one that used `k`. -/
def LastAt (marks : List (Option K)) (k : K) (n : ℕ) : Prop :=
  marks[n]? = some (some k) ∧ ∀ m, n < m → marks[m]? ≠ some (some k)

theorem LastAt.lt (h : LastAt marks k n) : n < marks.length :=
  (List.getElem?_eq_some_iff.mp h.1).1

theorem lastAt_self (marks : List (Option K)) (k : K) :
    LastAt (marks ++ [some k]) k marks.length := by
  refine ⟨List.getElem?_concat_length, fun m hm hmark => ?_⟩
  have hlt := (List.getElem?_eq_some_iff.mp hmark).1
  rw [List.length_append, List.length_singleton] at hlt
  omega

theorem LastAt.concat (h : LastAt marks k n) {mark : Option K} (hne : mark ≠ some k) :
    LastAt (marks ++ [mark]) k n := by
  refine ⟨by rw [List.getElem?_append_left h.lt]; exact h.1, fun m hm hmark => ?_⟩
  by_cases hlt : m < marks.length
  · rw [List.getElem?_append_left hlt] at hmark
    exact h.2 m hm hmark
  · have hlength := (List.getElem?_eq_some_iff.mp hmark).1
    rw [List.length_append, List.length_singleton] at hlength
    obtain rfl : m = marks.length := by omega
    rw [List.getElem?_concat_length, Option.some.injEq] at hmark
    exact hne hmark

/-- The last use of `a` is later than that of `b`. -/
def Later (marks : List (Option K)) (a b : K) : Prop :=
  ∃ m n, LastAt marks b m ∧ LastAt marks a n ∧ m < n

structure RecentFirst (marks : List (Option K)) (keys : List K) : Prop where
  order : keys.Pairwise (Later marks)
  used : ∀ k ∈ keys, ∃ n, LastAt marks k n

theorem RecentFirst.sublist {keys keys' : List K} (h : RecentFirst marks keys)
    (hsub : keys'.Sublist keys) : RecentFirst marks keys' :=
  ⟨h.order.sublist hsub, fun k hk => h.used k (hsub.subset hk)⟩

/-- A step that used none of the keys keeps their order. -/
theorem RecentFirst.skip {keys : List K} (h : RecentFirst marks keys) {mark : Option K}
    (hmark : ∀ k ∈ keys, mark ≠ some k) : RecentFirst (marks ++ [mark]) keys := by
  constructor
  · refine h.order.imp_of_mem fun ha hb hlater => ?_
    obtain ⟨m, n, hm, hn, hlt⟩ := hlater
    exact ⟨m, n, hm.concat (hmark _ hb), hn.concat (hmark _ ha), hlt⟩
  · intro k hk
    obtain ⟨n, hn⟩ := h.used k hk
    exact ⟨n, hn.concat (hmark k hk)⟩

theorem RecentFirst.idle {keys : List K} (h : RecentFirst marks keys) :
    RecentFirst (marks ++ [none]) keys :=
  h.skip fun _ _ => (Option.some_ne_none _).symm

theorem RecentFirst.use {keys : List K} (h : RecentFirst marks keys) (hk : k ∉ keys) :
    RecentFirst (marks ++ [some k]) (k :: keys) := by
  have hskip : RecentFirst (marks ++ [some k]) keys :=
    h.skip fun j hj heq => hk (Option.some.inj heq ▸ hj)
  have hself := lastAt_self marks k
  constructor
  · refine List.pairwise_cons.mpr ⟨fun j hj => ?_, hskip.order⟩
    obtain ⟨m, hm⟩ := h.used j hj
    have hne : some k ≠ some j := fun heq => hk (Option.some.inj heq ▸ hj)
    exact ⟨m, marks.length, hm.concat hne, hself, hm.lt⟩
  · intro j hj
    rcases List.mem_cons.mp hj with rfl | hj
    · exact ⟨_, hself⟩
    · exact hskip.used j hj

end Marks

end BarebonesProxy.Recency
