import Mathlib.Data.List.Basic

set_option autoImplicit false

/-!
# Programs that ask their surroundings

A `Prog` either returns or performs an operation and goes on with the reply to it. A
`Handler` may also leave early. `wp` is the weakest precondition of a safety property:
every operation is allowed after the trace before it, and every outcome meets its
postcondition.
-/
namespace BarebonesProxy.EffectPrograms

inductive Prog (E : Type) (R : E → Type) (α : Type) where
  | pure (a : α)
  | op (e : E) (k : R e → Prog E R α)

section Programs
variable {E : Type} {R : E → Type} {α β : Type}

def Prog.bind : Prog E R α → (α → Prog E R β) → Prog E R β
  | .pure a, f => f a
  | .op e k, f => .op e fun r => (k r).bind f

abbrev Trace (E : Type) (R : E → Type) := List ((e : E) × R e)

/-- After the replies of the trace, `p` has become the second program. -/
inductive Reaches (p : Prog E R α) : Trace E R → Prog E R α → Prop
  | start : Reaches p [] p
  | reply {t : Trace E R} {e : E} {k : R e → Prog E R α} (h : Reaches p t (.op e k)) (r : R e) :
      Reaches p (t ++ [⟨e, r⟩]) (k r)

/-- The last reply of a trace came to an operation of the program. -/
theorem Reaches.last {p q : Prog E R α} {t : Trace E R} {e : E} {r : R e}
    (h : Reaches p (t ++ [⟨e, r⟩]) q) : ∃ k, Reaches p t (.op e k) ∧ q = k r := by
  generalize ht : t ++ [⟨e, r⟩] = whole at h
  cases h with
  | start => simp at ht
  | @reply t' e' k h' r' =>
    obtain ⟨rfl, hlast⟩ := List.append_inj' ht rfl
    cases hlast
    exact ⟨k, h', rfl⟩

def wp (allowed : Trace E R → E → Prop) (post : Trace E R → α → Prop) :
    Prog E R α → Trace E R → Prop
  | .pure a, t => post t a
  | .op e k, t => allowed t e ∧ ∀ r, wp allowed post (k r) (t ++ [⟨e, r⟩])

variable {allowed : Trace E R → E → Prop} {post post' : Trace E R → α → Prop}

theorem wp_bind {post : Trace E R → β → Prop} (p : Prog E R α) (f : α → Prog E R β)
    (t : Trace E R) :
    wp allowed post (p.bind f) t ↔ wp allowed (fun t a => wp allowed post (f a) t) p t := by
  induction p generalizing t with
  | pure a => exact Iff.rfl
  | op e k ih =>
    simp only [Prog.bind, wp]
    refine and_congr_right fun _ => ?_
    exact forall_congr' fun r => ih r _

theorem wp_mono (hpost : ∀ t a, post t a → post' t a) {p : Prog E R α} {t : Trace E R}
    (h : wp allowed post p t) : wp allowed post' p t := by
  induction p generalizing t with
  | pure a => exact hpost t a h
  | op e k ih => exact ⟨h.1, fun r => ih r (h.2 r)⟩

theorem wp_reaches {p q : Prog E R α} {t : Trace E R} (h : wp allowed post p [])
    (hr : Reaches p t q) : wp allowed post q t := by
  induction hr with
  | start => exact h
  | reply _ r ih => exact ih.2 r

theorem allowed_of_reaches {p : Prog E R α} {t : Trace E R} {e : E} {k : R e → Prog E R α}
    (h : wp allowed post p []) (hr : Reaches p t (.op e k)) : allowed t e :=
  (wp_reaches h hr).1

theorem allowed_of_performed {p q : Prog E R α} {t t₁ t₂ : Trace E R} {e : E} {r : R e}
    (h : wp allowed post p []) (hr : Reaches p t q) (ht : t = t₁ ++ ⟨e, r⟩ :: t₂) :
    allowed t₁ e := by
  induction hr generalizing t₂ with
  | start => simp at ht
  | @reply t e' k hreach r' ih =>
    rcases List.eq_nil_or_concat t₂ with rfl | ⟨t₂', s, rfl⟩
    · obtain ⟨rfl, hlast⟩ := List.append_inj' ht rfl
      cases hlast
      exact allowed_of_reaches h hreach
    · rw [List.concat_eq_append, ← List.cons_append, ← List.append_assoc] at ht
      exact ih (List.append_inj' ht rfl).1

theorem post_of_reaches {p : Prog E R α} {t : Trace E R} {a : α}
    (h : wp allowed post p []) (hr : Reaches p t (.pure a)) : post t a :=
  wp_reaches h hr

/-- The program after `n` answers, with the trace of them. -/
def follow (answer : (e : E) → R e) : ℕ → Prog E R α → Trace E R × Prog E R α
  | n + 1, .op e k =>
    let (t, q) := follow answer n (k (answer e))
    (⟨e, answer e⟩ :: t, q)
  | _, p => ([], p)

theorem Reaches.cons {e : E} {k : R e → Prog E R α} {r : R e} {t : Trace E R} {q : Prog E R α}
    (h : Reaches (k r) t q) : Reaches (.op e k) (⟨e, r⟩ :: t) q := by
  induction h with
  | start => exact .reply .start r
  | reply _ r ih => exact ih.reply r

theorem reaches_follow (answer : (e : E) → R e) (n : ℕ) (p : Prog E R α) :
    Reaches p (follow answer n p).1 (follow answer n p).2 := by
  induction n generalizing p with
  | zero => cases p <;> exact .start
  | succ n ih =>
    cases p with
    | pure a => exact .start
    | op e k => exact (ih (k (answer e))).cons

theorem Prog.bind_assoc {γ : Type} (p : Prog E R α) (f : α → Prog E R β) (g : β → Prog E R γ) :
    (p.bind f).bind g = p.bind fun a => (f a).bind g := by
  induction p with
  | pure a => rfl
  | op e k ih => exact congrArg (Prog.op e) (funext ih)

/-- Every operation that the program can come to, together with what follows it, is in `Q`. -/
def Prog.Every (Q : (e : E) → (R e → Prog E R α) → Prop) : Prog E R α → Prop
  | .pure _ => True
  | .op e k => Q e k ∧ ∀ r, (k r).Every Q

variable {Q : (e : E) → (R e → Prog E R α) → Prop}

theorem Prog.Every.after {p q : Prog E R α} {t : Trace E R} (h : p.Every Q) (hr : Reaches p t q) :
    q.Every Q := by
  induction hr with
  | start => exact h
  | reply _ r ih => exact ih.2 r

theorem Prog.Every.of_reaches {p : Prog E R α} {t : Trace E R} {e : E} {k : R e → Prog E R α}
    (h : p.Every Q) (hr : Reaches p t (.op e k)) : Q e k :=
  (h.after hr).1

/-- The operations of a first part are in `Q` whatever follows them. -/
theorem every_bind {p : Prog E R β} {f : β → Prog E R α} {t : Trace E R}
    (h : wp (fun _ e => ∀ k, Q e k) (fun _ b => (f b).Every Q) p t) : (p.bind f).Every Q := by
  induction p generalizing t with
  | pure b => exact h
  | op e k ih => exact ⟨h.1 _, fun r => ih r (h.2 r)⟩

end Programs

/-- A program that returns a value or leaves early with a result. -/
def Handler (E : Type) (R : E → Type) (ρ α : Type) := Prog E R (Except ρ α)

namespace Handler
variable {E : Type} {R : E → Type} {ρ α β : Type}

def exit (r : ρ) : Handler E R ρ α := Prog.pure (.error r)

def perform (e : E) : Handler E R ρ (R e) := Prog.op e fun r => .pure (.ok r)

def bind (h : Handler E R ρ α) (f : α → Handler E R ρ β) : Handler E R ρ β :=
  Prog.bind h fun
    | .ok a => f a
    | .error r => exit r

instance : Monad (Handler E R ρ) where
  pure a := Prog.pure (.ok a)
  bind := Handler.bind

def attempt {ε : Type} (h : Handler E R ε α) : Handler E R ρ (Except ε α) :=
  Prog.bind h fun a => .pure (.ok a)

def run (h : Handler E R ρ ρ) : Prog E R ρ :=
  Prog.bind h fun
    | .ok r => .pure r
    | .error r => .pure r

/-- The precondition of a handler, with one postcondition for each way of ending. -/
def wpH (allowed : Trace E R → E → Prop) (left : Trace E R → ρ → Prop)
    (post : Trace E R → α → Prop) (h : Handler E R ρ α) (t : Trace E R) : Prop :=
  wp allowed (fun t x => match x with
    | .ok a => post t a
    | .error r => left t r) h t

variable {allowed : Trace E R → E → Prop} {left : Trace E R → ρ → Prop}

@[simp] theorem wpH_pure {post : Trace E R → α → Prop} (a : α) (t : Trace E R) :
    wpH allowed left post (pure a : Handler E R ρ α) t ↔ post t a :=
  Iff.rfl

@[simp] theorem wpH_bind {post : Trace E R → β → Prop} (h : Handler E R ρ α)
    (f : α → Handler E R ρ β) (t : Trace E R) :
    wpH allowed left post (h >>= f) t ↔
      wpH allowed left (fun t a => wpH allowed left post (f a) t) h t := by
  refine (wp_bind _ _ t).trans ?_
  constructor <;> intro hw <;> refine wp_mono ?_ hw <;> intro t x <;> cases x <;> exact id

@[simp] theorem wpH_attempt {ε : Type} {post : Trace E R → Except ε α → Prop} (h : Handler E R ε α)
    (t : Trace E R) :
    wpH allowed left post (attempt h : Handler E R ρ (Except ε α)) t ↔
      wpH allowed (fun t e => post t (.error e)) (fun t a => post t (.ok a)) h t := by
  refine (wp_bind _ _ t).trans ?_
  constructor <;> intro hw <;> refine wp_mono ?_ hw <;> intro t x <;> cases x <;> exact id

theorem wpH_mono {post post' : Trace E R → α → Prop} (hpost : ∀ t a, post t a → post' t a)
    {h : Handler E R ρ α} {t : Trace E R} (hw : wpH allowed left post h t) :
    wpH allowed left post' h t := by
  refine wp_mono ?_ hw
  intro t x hx
  cases x with
  | ok a => exact hpost t a hx
  | error r => exact hx

theorem wp_run {post : Trace E R → ρ → Prop} {h : Handler E R ρ ρ} {t : Trace E R} :
    wp allowed post (run h) t ↔ wpH allowed post post h t := by
  refine (wp_bind _ _ t).trans ?_
  constructor <;> intro hw <;> refine wp_mono ?_ hw <;> intro t x <;> cases x <;> exact id

theorem bind_assoc {γ : Type} (h : Handler E R ρ α) (f : α → Handler E R ρ β)
    (g : β → Handler E R ρ γ) : (h >>= f) >>= g = h >>= fun a => f a >>= g := by
  refine (Prog.bind_assoc _ _ _).trans ?_
  refine congrArg (Prog.bind h) (funext fun x => ?_)
  cases x <;> rfl

theorem every_run_bind {Q : (e : E) → (R e → Prog E R ρ) → Prop} {h : Handler E R ρ α}
    {f : α → Handler E R ρ ρ} {t : Trace E R}
    (hw : wpH (fun _ e => ∀ k, Q e k) (fun _ _ => True) (fun _ a => (run (f a)).Every Q) h t) :
    (run (h >>= f)).Every Q := by
  have hrun : run (h >>= f) = Prog.bind h fun x => run (match x with
      | .ok a => f a
      | .error r => exit r) := Prog.bind_assoc _ _ _
  rw [hrun]
  refine every_bind (t := t) (wp_mono ?_ hw)
  intro t x hx
  cases x with
  | ok a => exact hx
  | error r => trivial

end Handler

end BarebonesProxy.EffectPrograms
