import BarebonesProxy.RustStrings
import Mathlib.Logic.Function.Basic

set_option autoImplicit false

/-!
# Clocks, locks and hash maps of the Rust standard library

A `Duration` is its number of nanoseconds, and an `Instant` the number of
nanoseconds since a fixed origin.
-/
namespace BarebonesProxy.RustState

def fromSecs (s : ℕ) : ℕ := s * 1000000000

def durationSince (now t : ℕ) : ℕ := now - t

/-- The seconds of an `Instant` are an `i64`. -/
def Representable (t : ℕ) : Prop := t / 1000000000 < 2 ^ 63

instance : DecidablePred Representable := fun t =>
  inferInstanceAs (Decidable (t / 1000000000 < 2 ^ 63))

/-- Addition of `usize`, as a release build computes it. -/
def wrappingAdd (a b : ℕ) : ℕ := (a + b) % 2 ^ 64

theorem wrappingAdd_of_lt {a b : ℕ} (h : a + b < 2 ^ 64) : wrappingAdd a b = a + b :=
  Nat.mod_eq_of_lt h

inductive Outcome (α : Type) where
  | returned (value : α)
  | panicked
deriving DecidableEq

def addInstant (t d : ℕ) : Outcome ℕ :=
  if Representable (t + d) then .returned (t + d) else .panicked

structure Lock (σ : Type) where
  value : σ
  poisoned : Bool

def Lock.new {σ : Type} (value : σ) : Lock σ := ⟨value, false⟩

/-- `lock().expect(..)` around a critical section: a poisoned lock panics at once,
and a panic inside the section poisons it. -/
def Lock.withExpect {σ α : Type} (l : Lock σ) (body : σ → Outcome α × σ) : Outcome α × Lock σ :=
  if l.poisoned then (.panicked, l)
  else match body l.value with
    | (.returned a, value) => (.returned a, ⟨value, false⟩)
    | (.panicked, value) => (.panicked, ⟨value, true⟩)

theorem Lock.withExpect_returned {σ α : Type} {value value' : σ} {a : α}
    {body : σ → Outcome α × σ} (h : body value = (.returned a, value')) :
    Lock.withExpect ⟨value, false⟩ body = (.returned a, ⟨value', false⟩) := by
  simp [Lock.withExpect, h]

theorem Lock.withExpect_panicked {σ α : Type} {value value' : σ} {body : σ → Outcome α × σ}
    (h : body value = (.panicked, value')) :
    Lock.withExpect ⟨value, false⟩ body = (.panicked, ⟨value', true⟩) := by
  simp [Lock.withExpect, h]

theorem Lock.withExpect_poisoned {σ α : Type} {l : Lock σ} (body : σ → Outcome α × σ)
    (h : l.poisoned = true) : l.withExpect body = (.panicked, l) := by
  simp [Lock.withExpect, h]

def Lock.write {σ : Type} (l : Lock σ) : Option σ := if l.poisoned then none else some l.value

/-- A `HashMap` as the finite map it stands for; its iteration order is never used. -/
abbrev HashMap (K V : Type) := K → Option V

namespace HashMap
variable {K V : Type} [DecidableEq K]

def empty {K V : Type} : HashMap K V := fun _ => none

def insert (m : HashMap K V) (k : K) (v : V) : HashMap K V := Function.update m k (some v)

def remove (m : HashMap K V) (k : K) : HashMap K V := Function.update m k none

/-- `retain` with a closure that updates the value and says whether it stays. -/
def retain {K V : Type} (m : HashMap K V) (f : V → Option V) : HashMap K V := fun k => (m k).bind f

@[simp] theorem insert_self (m : HashMap K V) (k : K) (v : V) : m.insert k v k = some v :=
  Function.update_self ..

@[simp] theorem insert_ne (m : HashMap K V) {k j : K} (v : V) (h : j ≠ k) :
    m.insert k v j = m j :=
  Function.update_of_ne h ..

@[simp] theorem remove_self (m : HashMap K V) (k : K) : m.remove k k = none :=
  Function.update_self ..

@[simp] theorem remove_ne (m : HashMap K V) {k j : K} (h : j ≠ k) : m.remove k j = m j :=
  Function.update_of_ne h ..

end HashMap

end BarebonesProxy.RustState
