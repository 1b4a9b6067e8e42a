import Mathlib.Algebra.Ring.Nat
import Mathlib.Data.List.Basic

set_option autoImplicit false

/-!
# Loops with total correctness

Code with loops and checked indexing, as computations that may panic or run out of fuel.
`Ends` says that a computation does neither. A loop ends when every turn of it ends and makes
a measure smaller.
-/
namespace BarebonesProxy.Loops

/-- Why a computation has no result. -/
inductive Fault where
  | timeout
  | panic
deriving DecidableEq

abbrev Exec := Except Fault

def index {α : Type} (xs : List α) (i : ℕ) : Exec α :=
  match xs[i]? with
  | some x => .ok x
  | none => .error .panic

/-- A turn gives the state to go on with, or the result that the loop is left with. -/
def loop {σ ρ : Type} (turn : σ → Exec (σ ⊕ ρ)) : ℕ → σ → Exec ρ
  | 0, _ => .error .timeout
  | fuel + 1, s => do
    match ← turn s with
    | .inl s' => loop turn fuel s'
    | .inr result => return result

def Ends {α : Type} (m : Exec α) (post : α → Prop) : Prop := ∃ a, m = .ok a ∧ post a

section Rules
variable {α β : Type}

theorem ends_pure {post : α → Prop} {a : α} (h : post a) : Ends (pure a) post := ⟨a, rfl, h⟩

theorem ends_bind {m : Exec α} {f : α → Exec β} {mid : α → Prop} {post : β → Prop}
    (hm : Ends m mid) (hf : ∀ a, mid a → Ends (f a) post) : Ends (m >>= f) post := by
  obtain ⟨a, rfl, ha⟩ := hm
  exact hf a ha

theorem ends_index {xs : List α} {i : ℕ} {x : α} (h : xs[i]? = some x) :
    Ends (index xs i) (· = x) := by
  unfold index
  rw [h]
  exact ⟨x, rfl, rfl⟩

variable {σ ρ : Type} {turn : σ → Exec (σ ⊕ ρ)} {post : ρ → Prop}

/-- The rule of the loop: `Inv` is kept by every turn that goes on, and `size` decreases. -/
theorem ends_loop (Inv : σ → Prop) (size : σ → ℕ)
    (hturn : ∀ s, Inv s → Ends (turn s) (Sum.elim (fun s' => Inv s' ∧ size s' < size s) post))
    {fuel : ℕ} {s : σ} (hs : Inv s) (hfuel : size s < fuel) : Ends (loop turn fuel s) post := by
  induction fuel generalizing s with
  | zero => omega
  | succ fuel ih =>
    refine ends_bind (hturn s hs) ?_
    intro next hnext
    cases next with
    | inl s' =>
      obtain ⟨hs', hsize⟩ := hnext
      exact ih hs' (by omega)
    | inr result => exact ends_pure hnext

end Rules

end BarebonesProxy.Loops
