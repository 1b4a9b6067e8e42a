import Mathlib.Data.List.Infix

set_option autoImplicit false

/-! # Properties of every state of a run, from one step -/
namespace BarebonesProxy.Runs

section Deterministic
variable {σ α : Type} {step : σ → α → σ}

theorem foldl_invariant (Inv : σ → Prop) (hstep : ∀ s a, Inv s → Inv (step s a)) {s : σ} (hs : Inv s)
    (actions : List α) : Inv (actions.foldl step s) := by
  induction actions generalizing s with
  | nil => exact hs
  | cons a rest ih => exact ih (hstep s a hs)

theorem foldl_unchanged {β : Type} (f : σ → β) {Keeps : α → Prop}
    (hstep : ∀ s a, Keeps a → f (step s a) = f s) {actions : List α} (h : ∀ a ∈ actions, Keeps a)
    (s : σ) : f (actions.foldl step s) = f s := by
  induction actions generalizing s with
  | nil => rfl
  | cons a rest ih =>
    have hrest := ih (fun b hb => h b (List.mem_cons_of_mem _ hb)) (step s a)
    exact hrest.trans (hstep s a (h a (.head _)))

/-- If one step keeps `P` exactly when it is `Good`, then `P` holds all along a run exactly
when every step of it is `Good`. -/
theorem always_iff_steps {Inv P : σ → Prop} {Good : σ → α → Prop}
    {actions : List α} (hstep : ∀ s, ∀ a ∈ actions, Inv s → Inv (step s a))
    (hgood : ∀ s, ∀ a ∈ actions, Inv s → P s → (P (step s a) ↔ Good s a)) {s : σ} (hs : Inv s)
    (hP : P s) :
    (∀ before, before <+: actions → P (before.foldl step s)) ↔
      ∀ before a, before ++ [a] <+: actions → Good (before.foldl step s) a := by
  induction actions generalizing s with
  | nil =>
    constructor
    · intro _ before a hp
      simp at hp
    · intro _ before hp
      rw [List.prefix_nil.mp hp]
      exact hP
  | cons a rest ih =>
    have hs' := hstep s a (.head _) hs
    have ih := @ih (fun s b hb => hstep s b (.tail _ hb)) (fun s b hb => hgood s b (.tail _ hb))
      (step s a) hs'
    have hfirst := hgood s a (.head _) hs hP
    constructor
    · intro h before b hp
      have hnext : P (step s a) := h [a] (by simp)
      cases before with
      | nil =>
        have hb : b = a := by simpa using hp
        rw [hb]
        exact hfirst.mp hnext
      | cons x before =>
        obtain ⟨rfl, hrest⟩ := List.cons_prefix_cons.mp hp
        refine (ih hnext).mp ?_ before b hrest
        intro pre hpre
        exact h (x :: pre) (List.cons_prefix_cons.mpr ⟨rfl, hpre⟩)
    · intro h before hp
      have hnext : P (step s a) := hfirst.mpr (h [] a (by simp))
      cases before with
      | nil => exact hP
      | cons x before =>
        obtain ⟨rfl, hrest⟩ := List.cons_prefix_cons.mp hp
        refine (ih hnext).mpr ?_ before hrest
        intro pre b hpre
        exact h (x :: pre) b (List.cons_prefix_cons.mpr ⟨rfl, hpre⟩)

/-- The steps of a run by their position. -/
theorem steps_iff_getElem {Good : σ → α → Prop} {s : σ} {actions : List α} :
    (∀ before a, before ++ [a] <+: actions → Good (before.foldl step s) a) ↔
      ∀ n a, actions[n]? = some a → Good ((actions.take n).foldl step s) a := by
  constructor
  · intro h n a ha
    refine h _ a ⟨actions.drop (n + 1), ?_⟩
    obtain ⟨hn, rfl⟩ := List.getElem?_eq_some_iff.mp ha
    rw [List.append_assoc, List.singleton_append, List.cons_getElem_drop_succ, List.take_append_drop]
  · rintro h before a ⟨rest, rfl⟩
    have hstep := h before.length a (by simp)
    rwa [List.append_assoc, List.take_left] at hstep

/-- If `Good` steps keep `Inv`, then `Inv` holds all along a run of `Good` steps. -/
theorem always_of_steps {Inv : σ → Prop} {Good : σ → α → Prop}
    (hstep : ∀ s a, Inv s → Good s a → Inv (step s a)) {s : σ} (hs : Inv s) {actions : List α}
    (hgood : ∀ before a, before ++ [a] <+: actions → Good (before.foldl step s) a) :
    ∀ before, before <+: actions → Inv (before.foldl step s) := by
  intro before
  induction before using List.reverseRecOn with
  | nil => exact fun _ => hs
  | append_singleton before a ih =>
    intro hrun
    rw [List.foldl_concat]
    exact hstep _ a (ih ((List.prefix_append before [a]).trans hrun)) (hgood before a hrun)

/-- Each action of a run with the state before it. -/
def visited (step : σ → α → σ) : σ → List α → List (σ × α)
  | _, [] => []
  | s, a :: rest => (s, a) :: visited step (step s a) rest

theorem visited_concat (s : σ) (actions : List α) (a : α) :
    visited step s (actions ++ [a]) = visited step s actions ++ [(actions.foldl step s, a)] := by
  induction actions generalizing s with
  | nil => rfl
  | cons b rest ih => exact congrArg ((s, b) :: ·) (ih (step s b))

theorem map_snd_visited (s : σ) (actions : List α) :
    (visited step s actions).map Prod.snd = actions := by
  induction actions generalizing s with
  | nil => rfl
  | cons a rest ih => exact congrArg (a :: ·) (ih (step s a))

end Deterministic

/-- What holds of a run cut off after any number of actions holds of every part it begins
with. -/
theorem forall_prefix_of_take {α : Type} {actions : List α} {P : List α → Prop}
    (h : ∀ n < actions.length + 1, P (actions.take n)) :
    ∀ before, before <+: actions → P before := by
  intro before hbefore
  have htake := h before.length (Nat.lt_succ_of_le hbefore.length_le)
  rwa [← List.prefix_iff_eq_take.mp hbefore] at htake

end BarebonesProxy.Runs
