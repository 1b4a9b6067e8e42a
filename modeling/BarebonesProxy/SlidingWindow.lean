import Mathlib.Data.List.Basic
import Mathlib.Data.List.Induction
import Mathlib.Data.Nat.Basic
import Mathlib.Tactic.Common

set_option autoImplicit false

/-!
# Sliding windows over a log of times

A pruned log stands for the full one: `Tracks` says that from `now` on no window
can tell them apart. Pruning, pushing and the passage of time keep it.
-/
namespace BarebonesProxy.SlidingWindow

/-- The time `t` lies in the closed window of width `w` that ends at `now`. -/
def fresh (w now t : ℕ) : Bool := decide (now - t ≤ w)

def recent (w now : ℕ) (ts : List ℕ) : List ℕ := ts.filter (fresh w now)

theorem fresh_of_later {w now later t : ℕ} (h : now ≤ later) (ht : fresh w later t = true) :
    fresh w now t = true := by
  simp only [fresh, decide_eq_true_eq] at ht ⊢
  omega

@[simp] theorem fresh_self (w now : ℕ) : fresh w now now = true := by simp [fresh]

theorem recent_append (w now : ℕ) (xs ys : List ℕ) :
    recent w now (xs ++ ys) = recent w now xs ++ recent w now ys :=
  List.filter_append ..

@[simp] theorem recent_push (w now : ℕ) (ts : List ℕ) :
    recent w now (ts ++ [now]) = recent w now ts ++ [now] := by
  simp [recent]

theorem recent_recent {w now later : ℕ} (h : now ≤ later) (ts : List ℕ) :
    recent w later (recent w now ts) = recent w later ts := by
  unfold recent
  rw [List.filter_filter]
  apply List.filter_congr
  intro t _
  cases ht : fresh w later t with
  | false => rfl
  | true => simp [fresh_of_later h ht]

/-- From `now` on, every window shows the same times in `kept` and in `full`. -/
def Tracks (w now : ℕ) (kept full : List ℕ) : Prop :=
  ∀ later, now ≤ later → recent w later kept = recent w later full

theorem Tracks.later {w now later : ℕ} {kept full : List ℕ} (h : Tracks w now kept full)
    (hl : now ≤ later) : Tracks w later kept full :=
  fun t ht => h t (le_trans hl ht)

theorem Tracks.prune {w now : ℕ} {kept full : List ℕ} (h : Tracks w now kept full) :
    Tracks w now (recent w now kept) full := by
  intro later hl
  rw [recent_recent hl, h later hl]

theorem Tracks.push {w now : ℕ} {kept full : List ℕ} (h : Tracks w now kept full) (t : ℕ) :
    Tracks w now (kept ++ [t]) (full ++ [t]) := by
  intro later hl
  rw [recent_append, recent_append, h later hl]

def admittedIn (w start : ℕ) (e : ℕ × Bool) : Bool :=
  e.2 && decide (start ≤ e.1 ∧ e.1 ≤ start + w)

theorem admittedIn_iff (w start t : ℕ) (b : Bool) :
    admittedIn w start (t, b) = true ↔ b = true ∧ start ≤ t ∧ t ≤ start + w := by
  simp [admittedIn]

/-- A limiter that admits an event only when at most `limit` events, this one included,
lie in the window that ends at it, admits at most `limit` in every closed interval as
wide as the window. -/
theorem admitted_le {w limit : ℕ} (events : List (ℕ × Bool))
    (sorted : events.Pairwise fun x y => x.1 ≤ y.1)
    (checked : ∀ before t, before ++ [(t, true)] <+: events →
      (recent w t (before.map Prod.fst ++ [t])).length ≤ limit) (start : ℕ) :
    (events.filter (admittedIn w start)).length ≤ limit := by
  induction events using List.reverseRecOn with
  | nil => simp
  | append_singleton before e ih =>
    obtain ⟨t, b⟩ := e
    obtain ⟨hs, -, -⟩ := List.pairwise_append.mp sorted
    have hrest := ih hs fun pre t hp => checked pre t (hp.trans (List.prefix_append ..))
    rw [List.filter_append, List.length_append]
    by_cases he : admittedIn w start (t, b) = true
    · obtain ⟨rfl, hstart, hend⟩ := (admittedIn_iff ..).mp he
      have hcount := checked before t (List.prefix_refl _)
      rw [recent_push, List.length_append, List.length_singleton] at hcount
      -- what was admitted earlier in the interval still lies in the window at `t`
      have hsub : (before.filter (admittedIn w start)).length ≤
          (recent w t (before.map Prod.fst)).length := by
        rw [recent, List.filter_map, List.length_map]
        apply List.Sublist.length_le
        apply List.monotone_filter_right
        rintro ⟨s, b⟩ hin
        obtain ⟨-, hs, -⟩ := (admittedIn_iff ..).mp hin
        simp only [Function.comp, fresh, decide_eq_true_eq]
        omega
      simp only [List.filter_cons, he, if_true, List.filter_nil, List.length_singleton]
      omega
    · simpa [List.filter_cons, he] using hrest

end BarebonesProxy.SlidingWindow
