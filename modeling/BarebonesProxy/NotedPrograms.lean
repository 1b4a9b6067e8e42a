import BarebonesProxy.EffectPrograms

set_option autoImplicit false

/-!
# Programs with notes

Beside its operations a program may take notes: it writes a log, reads a clock or a
statistic. If it goes on in the same way whatever is replied to a note, then it erases to
the program without them, and the two have the same runs of operations.
-/
namespace BarebonesProxy.EffectPrograms

section Erasure
variable {E N : Type} {R : E → Type} {S : N → Type} {α β : Type}

abbrev Noted (R : E → Type) (S : N → Type) (α : Type) := Prog (E ⊕ N) (Sum.elim R S) α

theorem Reaches.trans {F : Type} {U : F → Type} {p p' p'' : Prog F U α} {t t' : Trace F U}
    (h : Reaches p t p') (h' : Reaches p' t' p'') : Reaches p (t ++ t') p'' := by
  induction h' with
  | start =>
    rw [List.append_nil]
    exact h
  | reply _ r ih =>
    rw [← List.append_assoc]
    exact ih.reply r

/-- Without its notes, whatever is replied to them, the first program is the second. -/
def Prog.Erases : Noted R S α → Prog E R α → Prop
  | .pure a, q => q = .pure a
  | .op (.inl e) k, q => ∃ k' : R e → Prog E R α, q = .op e k' ∧ ∀ r : R e, (k r).Erases (k' r)
  | .op (.inr _) k, q => ∀ r, (k r).Erases q

/-- A program without notes, among those with notes. -/
def Prog.silent : Prog E R α → Noted R S α
  | .pure a => .pure a
  | .op e k => .op (.inl e) fun r => (k r).silent

theorem Prog.erases_silent (q : Prog E R α) : (q.silent : Noted R S α).Erases q := by
  induction q with
  | pure a => rfl
  | op e k ih => exact ⟨k, rfl, ih⟩

theorem Prog.Erases.bind {p : Noted R S α} {q : Prog E R α} {f : α → Noted R S β}
    {g : α → Prog E R β} (h : p.Erases q) (hf : ∀ a, (f a).Erases (g a)) :
    (p.bind f).Erases (q.bind g) := by
  induction p generalizing q with
  | pure a =>
    cases h
    exact hf a
  | op e k ih =>
    cases e with
    | inl e =>
      obtain ⟨k', rfl, hk⟩ := h
      exact ⟨fun r => (k' r).bind g, rfl, fun r => ih r (hk r)⟩
    | inr n => exact fun r => ih r (h r)

/-- The operation of a step, if it is one. -/
def operation? : ((e : E ⊕ N) × Sum.elim R S e) → Option ((e : E) × R e)
  | ⟨.inl e, r⟩ => some ⟨e, r⟩
  | ⟨.inr _, _⟩ => none

/-- The note of a step, if it is one. -/
def note? : ((e : E ⊕ N) × Sum.elim R S e) → Option ((n : N) × S n)
  | ⟨.inl _, _⟩ => none
  | ⟨.inr n, r⟩ => some ⟨n, r⟩

def performed (t : Trace (E ⊕ N) (Sum.elim R S)) : Trace E R := t.filterMap operation?

def noted (t : Trace (E ⊕ N) (Sum.elim R S)) : Trace N S := t.filterMap note?

section Traces
variable (t : Trace (E ⊕ N) (Sum.elim R S))

@[simp] theorem performed_operation (e : E) (r : Sum.elim R S (.inl e)) :
    performed (t ++ [⟨.inl e, r⟩]) = performed t ++ [⟨e, r⟩] := List.filterMap_append

@[simp] theorem performed_note (n : N) (r : Sum.elim R S (.inr n)) :
    performed (t ++ [⟨.inr n, r⟩]) = performed t :=
  List.filterMap_append.trans (List.append_nil _)

@[simp] theorem noted_operation (e : E) (r : Sum.elim R S (.inl e)) :
    noted (t ++ [⟨.inl e, r⟩]) = noted t :=
  List.filterMap_append.trans (List.append_nil _)

@[simp] theorem noted_note (n : N) (r : Sum.elim R S (.inr n)) :
    noted (t ++ [⟨.inr n, r⟩]) = noted t ++ [⟨n, r⟩] := List.filterMap_append

theorem performed_append (t' : Trace (E ⊕ N) (Sum.elim R S)) :
    performed (t ++ t') = performed t ++ performed t' := List.filterMap_append

end Traces

variable {p p' : Noted R S α} {q q' : Prog E R α}

/-- What the program with notes does, the program without them does. -/
theorem Reaches.erased {t : Trace (E ⊕ N) (Sum.elim R S)} (h : Reaches p t p')
    (he : p.Erases q) : ∃ q', Reaches q (performed t) q' ∧ p'.Erases q' := by
  induction h with
  | start => exact ⟨q, .start, he⟩
  | @reply t e k _ r ih =>
    obtain ⟨q', hreach, herases⟩ := ih
    cases e with
    | inl e =>
      obtain ⟨k', rfl, hk⟩ := herases
      rw [performed_operation]
      exact ⟨k' r, hreach.reply r, hk r⟩
    | inr n =>
      rw [performed_note]
      exact ⟨q', hreach, herases r⟩

/-- The result of a run without its notes. -/
theorem Reaches.erased_result {t : Trace (E ⊕ N) (Sum.elim R S)} {a : α}
    (h : Reaches p t (.pure a)) (he : p.Erases q) : Reaches q (performed t) (.pure a) := by
  obtain ⟨q', hreach, herases⟩ := h.erased he
  cases herases
  exact hreach

section Readings
variable (read : Trace (E ⊕ N) (Sum.elim R S) → (n : N) → S n)

/-- Every note of the run was answered by `read`, after what the run had done so far. -/
def ReadBy (u : Trace (E ⊕ N) (Sum.elim R S)) : Prop :=
  ∀ before n (r : S n) after, u = before ++ ⟨.inr n, r⟩ :: after → r = read before n

variable {read} {u : Trace (E ⊕ N) (Sum.elim R S)}

theorem readBy_nil : ReadBy read [] := by
  intro before n r after h
  simp at h

theorem ReadBy.push (h : ReadBy read u) {x : (e : E ⊕ N) × Sum.elim R S e}
    (hx : ∀ n (r : S n), x = ⟨.inr n, r⟩ → r = read u n) : ReadBy read (u ++ [x]) := by
  intro before n r after heq
  rcases List.eq_nil_or_concat after with rfl | ⟨after, last, rfl⟩
  · obtain ⟨rfl, hlast⟩ := List.append_inj' heq rfl
    exact hx n r (List.cons.inj hlast).1
  · rw [List.concat_eq_append, ← List.cons_append, ← List.append_assoc] at heq
    exact h before n r after (List.append_inj' heq rfl).1

theorem ReadBy.operation (h : ReadBy read u) (e : E) (r : Sum.elim R S (.inl e)) :
    ReadBy read (u ++ [⟨.inl e, r⟩]) := by
  refine h.push fun n r' heq => ?_
  cases heq

theorem ReadBy.note (h : ReadBy read u) (n : N) : ReadBy read (u ++ [⟨.inr n, read u n⟩]) := by
  refine h.push fun n' r' heq => ?_
  cases heq
  rfl

/-- The notes before the next operation can be taken, whatever is read for them. -/
theorem Prog.Erases.settle (h : p.Erases q) (hu : ReadBy read u) :
    ∃ notes p', Reaches p notes p' ∧ performed notes = [] ∧ ReadBy read (u ++ notes) ∧
      p'.Erases q ∧ ∀ n k, p' ≠ .op (.inr n) k := by
  induction p generalizing u with
  | pure a =>
    refine ⟨[], .pure a, .start, rfl, ?_, h, fun _ _ hp => nomatch hp⟩
    rwa [List.append_nil]
  | op e k ih =>
    cases e with
    | inl e =>
      refine ⟨[], .op (.inl e) k, .start, rfl, ?_, h, fun _ _ hp => nomatch hp⟩
      rwa [List.append_nil]
    | inr n =>
      obtain ⟨notes, p', hreach, hnone, hread, herases, hhead⟩ :=
        ih (read u n) (h (read u n)) (hu.note n)
      refine ⟨⟨.inr n, read u n⟩ :: notes, p', hreach.cons, hnone, ?_, herases, hhead⟩
      rwa [List.append_assoc] at hread

/-- What the program without notes does, the program with them does. -/
theorem Reaches.annotated {t : Trace E R} (he : p.Erases q) (h : Reaches q t q') :
    ∃ u p', Reaches p u p' ∧ performed u = t ∧ ReadBy read u ∧ p'.Erases q' := by
  induction h with
  | start => exact ⟨[], p, .start, rfl, readBy_nil, he⟩
  | @reply t e k _ r ih =>
    obtain ⟨u, p', hreach, rfl, hread, herases⟩ := ih
    obtain ⟨notes, p'', hsettle, hnone, hread, herases, hhead⟩ := herases.settle hread
    cases p'' with
    | pure a => cases herases
    | op e' k'' =>
      cases e' with
      | inr n => exact absurd rfl (hhead n k'')
      | inl e' =>
        obtain ⟨k', heq, hk⟩ := herases
        cases heq
        refine ⟨(u ++ notes) ++ [⟨.inl e, r⟩], k'' r, (hreach.trans hsettle).reply r, ?_,
          hread.operation e r, hk r⟩
        refine (performed_operation _ e r).trans ?_
        rw [performed_append, hnone, List.append_nil]

theorem Reaches.annotated_result {t : Trace E R} {a : α} (he : p.Erases q)
    (h : Reaches q t (.pure a)) :
    ∃ u, Reaches p u (.pure a) ∧ performed u = t ∧ ReadBy read u := by
  obtain ⟨u, p', hreach, rfl, hread, herases⟩ := h.annotated he
  obtain ⟨notes, p'', hsettle, hnone, hread, herases, hhead⟩ := herases.settle hread
  cases p'' with
  | pure a' =>
    cases herases
    refine ⟨u ++ notes, hreach.trans hsettle, ?_, hread⟩
    rw [performed_append, hnone, List.append_nil]
  | op e k =>
    cases e with
    | inl e =>
      obtain ⟨k', heq, -⟩ := herases
      cases heq
    | inr n => exact absurd rfl (hhead n k)

end Readings

end Erasure

section Preconditions
variable {E N : Type} {R : E → Type} {S : N → Type} {α β : Type}
variable (allowed : Trace E R → Trace N S → N → Prop)

/-- The weakest precondition for what stands in the notes: each is allowed after the
operations and the notes before it, and the result fits all of them. -/
def wpN (post : Trace E R → Trace N S → α → Prop) :
    Noted R S α → Trace E R → Trace N S → Prop
  | .pure a, t, s => post t s a
  | .op (.inl e) k, t, s => ∀ r : R e, wpN post (k r) (t ++ [⟨e, r⟩]) s
  | .op (.inr n) k, t, s => allowed t s n ∧ ∀ r : S n, wpN post (k r) t (s ++ [⟨n, r⟩])

variable {allowed} {post post' : Trace E R → Trace N S → α → Prop}

theorem wpN_bind {post : Trace E R → Trace N S → β → Prop} (p : Noted R S α)
    (f : α → Noted R S β) (t : Trace E R) (s : Trace N S) :
    wpN allowed post (p.bind f) t s ↔
      wpN allowed (fun t s a => wpN allowed post (f a) t s) p t s := by
  induction p generalizing t s with
  | pure a => exact Iff.rfl
  | op e k ih =>
    cases e with
    | inl e => exact forall_congr' fun r => ih r _ _
    | inr n => exact and_congr_right fun _ => forall_congr' fun r => ih r _ _

/-- A program without notes is judged by its operations. -/
theorem wpN_silent (p : Prog E R α) (t : Trace E R) (s : Trace N S) :
    wpN allowed post p.silent t s ↔ wp (fun _ _ => True) (fun t a => post t s a) p t := by
  induction p generalizing t with
  | pure a => exact Iff.rfl
  | op e k ih =>
    refine (forall_congr' fun r => ih r _).trans ?_
    exact (iff_of_eq (true_and _)).symm

theorem wpN_mono (hpost : ∀ t s a, post t s a → post' t s a) {p : Noted R S α} {t : Trace E R}
    {s : Trace N S} (h : wpN allowed post p t s) : wpN allowed post' p t s := by
  induction p generalizing t s with
  | pure a => exact hpost t s a h
  | op e k ih =>
    cases e with
    | inl e => exact fun r => ih r (h r)
    | inr n => exact ⟨h.1, fun r => ih r (h.2 r)⟩

variable {p q : Noted R S α} {u : Trace (E ⊕ N) (Sum.elim R S)}

theorem wpN_reaches (h : wpN allowed post p [] []) (hr : Reaches p u q) :
    wpN allowed post q (performed u) (noted u) := by
  induction hr with
  | start => exact h
  | @reply u e k _ r ih =>
    cases e with
    | inl e =>
      rw [performed_operation, noted_operation]
      exact ih r
    | inr n =>
      rw [performed_note, noted_note]
      exact ih.2 r

theorem noted_of_reaches {a : α} (h : wpN allowed post p [] []) (hr : Reaches p u (.pure a)) :
    post (performed u) (noted u) a := wpN_reaches h hr

end Preconditions

namespace Handler
variable {E N : Type} {R : E → Type} {S : N → Type} {ρ α β : Type}

abbrev NotedHandler (R : E → Type) (S : N → Type) (ρ α : Type) :=
  Handler (E ⊕ N) (Sum.elim R S) ρ α

def silent (h : Handler E R ρ α) : NotedHandler R S ρ α := Prog.silent h

def note (n : N) : NotedHandler R S ρ (S n) := perform (E := E ⊕ N) (.inr n)

def Erases (h : NotedHandler R S ρ α) (h' : Handler E R ρ α) : Prop := Prog.Erases h h'

theorem erases_pure (a : α) : Erases (pure a : NotedHandler R S ρ α) (pure a) := rfl

theorem erases_exit (r : ρ) : Erases (exit r : NotedHandler R S ρ α) (exit r) := rfl

theorem erases_silent (h : Handler E R ρ α) : Erases (silent h : NotedHandler R S ρ α) h :=
  Prog.erases_silent h

theorem Erases.bind {h : NotedHandler R S ρ α} {h' : Handler E R ρ α}
    {f : α → NotedHandler R S ρ β} {f' : α → Handler E R ρ β} (he : Erases h h')
    (hf : ∀ a, Erases (f a) (f' a)) : Erases (h >>= f) (h' >>= f') := by
  refine Prog.Erases.bind he fun x => ?_
  cases x with
  | ok a => exact hf a
  | error r => rfl

/-- A note before a part does not matter. -/
theorem erases_note {n : N} {f : S n → NotedHandler R S ρ β} {h' : Handler E R ρ β}
    (hf : ∀ r, Erases (f r) h') : Erases (note n >>= f) h' := hf

theorem Erases.attempt {ε : Type} {h : NotedHandler R S ε α} {h' : Handler E R ε α}
    (he : Erases h h') : Erases (attempt h : NotedHandler R S ρ (Except ε α)) (attempt h') :=
  Prog.Erases.bind he fun _ => rfl

/-- The precondition of a handler, with one postcondition for each way of ending. -/
def wpNH (allowed : Trace E R → Trace N S → N → Prop) (left : Trace E R → Trace N S → ρ → Prop)
    (post : Trace E R → Trace N S → α → Prop) (h : NotedHandler R S ρ α) (t : Trace E R)
    (s : Trace N S) : Prop :=
  wpN allowed (fun t s x => match x with
    | .ok a => post t s a
    | .error r => left t s r) h t s

section Preconditions
variable {allowed : Trace E R → Trace N S → N → Prop} {left : Trace E R → Trace N S → ρ → Prop}
variable {t : Trace E R} {s : Trace N S}

theorem wpNH_bind {post : Trace E R → Trace N S → β → Prop} (h : NotedHandler R S ρ α)
    (f : α → NotedHandler R S ρ β) :
    wpNH allowed left post (h >>= f) t s ↔
      wpNH allowed left (fun t s a => wpNH allowed left post (f a) t s) h t s := by
  refine (wpN_bind _ _ t s).trans ?_
  constructor <;> intro hw <;> refine wpN_mono ?_ hw <;> intro t s x <;> cases x <;> exact id

theorem wpNH_ask {post : Trace E R → Trace N S → β → Prop} {e : E}
    {f : R e → NotedHandler R S ρ β}
    (h : ∀ r, wpNH allowed left post (f r) (t ++ [⟨e, r⟩]) s) :
    wpNH allowed left post (silent (perform e) >>= f) t s := h

theorem wpNH_silent {post : Trace E R → Trace N S → α → Prop} (h : Handler E R ρ α) :
    wpNH allowed left post (silent h) t s ↔
      wpH (fun _ _ => True) (fun t r => left t s r) (fun t a => post t s a) h t := by
  refine (wpN_silent _ t s).trans ?_
  constructor <;> intro hw <;> refine wp_mono ?_ hw <;> intro t x <;> cases x <;> exact id

theorem wpNH_attempt {ε : Type} {post : Trace E R → Trace N S → Except ε α → Prop}
    (h : NotedHandler R S ε α) :
    wpNH allowed left post (attempt h : NotedHandler R S ρ (Except ε α)) t s ↔
      wpNH allowed (fun t s e => post t s (.error e)) (fun t s a => post t s (.ok a)) h t s := by
  refine (wpN_bind _ _ t s).trans ?_
  constructor <;> intro hw <;> refine wpN_mono ?_ hw <;> intro t s x <;> cases x <;> exact id

theorem wpNH_mono {post post' : Trace E R → Trace N S → α → Prop}
    (hpost : ∀ t s a, post t s a → post' t s a) {h : NotedHandler R S ρ α}
    (hw : wpNH allowed left post h t s) : wpNH allowed left post' h t s := by
  refine wpN_mono ?_ hw
  intro t s x hx
  cases x with
  | ok a => exact hpost t s a hx
  | error r => exact hx

theorem wpN_run {post : Trace E R → Trace N S → ρ → Prop} {h : NotedHandler R S ρ ρ} :
    wpN allowed post (run h) t s ↔ wpNH allowed post post h t s := by
  refine (wpN_bind _ _ t s).trans ?_
  constructor <;> intro hw <;> refine wpN_mono ?_ hw <;> intro t s x <;> cases x <;> exact id

end Preconditions

theorem Erases.run {h : NotedHandler R S ρ ρ} {h' : Handler E R ρ ρ} (he : Erases h h') :
    Prog.Erases (run h) (run h') := by
  refine Prog.Erases.bind he fun x => ?_
  cases x <;> rfl

end Handler

end BarebonesProxy.EffectPrograms
