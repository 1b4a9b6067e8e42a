import Mathlib.Data.List.Perm.Basic
import Mathlib.Data.Option.Basic

set_option autoImplicit false

/-!
# Sequences of guarded writes

A write fails if its place is taken. Steps that commute may be reordered in a fold, and
steps of one kind keep their order when they commute with all others.
-/
namespace BarebonesProxy.GuardedWrites

section Folds
variable {σ ι : Type} {f : σ → ι → Option σ}

theorem foldlM_eq_foldl (f : σ → ι → Option σ) (l : List ι) (z : Option σ) :
    z.bind (l.foldlM f) = l.foldl (fun z a => z.bind (f · a)) z := by
  induction l generalizing z with
  | nil => cases z <;> rfl
  | cons a l ih =>
    rw [List.foldl_cons, ← ih]
    cases z <;> rfl

/-- Doing `x` and `y` one after the other comes to the same in both orders. -/
def Exchange (f : σ → ι → Option σ) (x y : ι) : Prop :=
  ∀ s, (f s x).bind (f · y) = (f s y).bind (f · x)

theorem Exchange.bind {x y : ι} (h : Exchange f x y) (z : Option σ) :
    (z.bind (f · x)).bind (f · y) = (z.bind (f · y)).bind (f · x) := by
  cases z with
  | none => rfl
  | some s => exact h s

theorem Exchange.refl (x : ι) : Exchange f x x := fun _ => rfl

theorem Exchange.of_read {β : Type} {read : β → Option ι} {x y : β}
    (h : ∀ v w, read x = some v → read y = some w → Exchange f v w) :
    Exchange (fun s a => (read a).bind (f s)) x y := by
  intro s
  dsimp only
  cases hx : read x with
  | none => cases read y <;> simp
  | some v =>
    cases hy : read y with
    | none => simp
    | some w => exact h v w hx hy s

theorem foldlM_perm {l l' : List ι} (hperm : l.Perm l')
    (hcomm : ∀ x ∈ l, ∀ y ∈ l, Exchange f x y) (s : σ) : l.foldlM f s = l'.foldlM f s := by
  have hfold : ∀ l : List ι, l.foldlM f s = l.foldl (fun z a => z.bind (f · a)) (some s) :=
    fun l => foldlM_eq_foldl f l (some s)
  rw [hfold, hfold]
  exact hperm.foldl_eq' (fun x hx y hy z => (hcomm x hx y hy).bind z) (some s)

theorem foldlM_append_last {l : List ι} {a : ι} (hcomm : ∀ x ∈ l, Exchange f x a) (s : σ) :
    (a :: l).foldlM f s = (l ++ [a]).foldlM f s := by
  induction l generalizing s with
  | nil => rfl
  | cons x l ih =>
    have hrest := ih fun y hy => hcomm y (.tail _ hy)
    have hswap : (a :: x :: l).foldlM f s = (x :: a :: l).foldlM f s := by
      simp only [List.foldlM_cons, Option.bind_eq_bind]
      rw [← Option.bind_assoc, ← Option.bind_assoc, hcomm x (.head _) s]
    rw [hswap, List.foldlM_cons, List.cons_append, List.foldlM_cons]
    congr 1
    funext s'
    exact hrest s'

/-- Steps that satisfy `p` may be done first, in their order. -/
theorem foldlM_partition (p : ι → Bool) {l : List ι}
    (hcomm : ∀ x ∈ l, ∀ y ∈ l, p x = true → p y = false → Exchange f x y) (s : σ) :
    l.foldlM f s = (l.filter p ++ l.filter (fun a => !p a)).foldlM f s := by
  induction l generalizing s with
  | nil => rfl
  | cons a l ih =>
    have hrest := ih fun x hx y hy => hcomm x (.tail _ hx) y (.tail _ hy)
    cases hp : p a with
    | true =>
      rw [List.filter_cons_of_pos hp, List.filter_cons_of_neg (by simp [hp]), List.cons_append,
        List.foldlM_cons, List.foldlM_cons]
      congr 1
      funext s'
      exact hrest s'
    | false =>
      have hmove : ∀ x ∈ l.filter p, Exchange f x a := fun x hx =>
        hcomm x (.tail _ (List.mem_filter.mp hx).1) a (.head _) (List.mem_filter.mp hx).2 hp
      have hsplit : l.filter p ++ a :: l.filter (fun a => !p a) =
          (l.filter p ++ [a]) ++ l.filter (fun a => !p a) := by
        simp
      rw [List.filter_cons_of_neg (by simp [hp]), List.filter_cons_of_pos (by simp [hp]), hsplit,
        List.foldlM_append, ← foldlM_append_last hmove, List.foldlM_cons, List.foldlM_cons,
        bind_assoc]
      congr 1
      funext s'
      rw [hrest s', List.foldlM_append]

/-- A reordering that keeps the steps with `p` in their order. -/
theorem foldlM_reordered (p : ι → Bool) {l l' : List ι} (hperm : l.Perm l')
    (horder : l'.filter p = l.filter p)
    (hcomm : ∀ x ∈ l, ∀ y ∈ l, p x = false ∨ p y = false → Exchange f x y) (s : σ) :
    l.foldlM f s = l'.foldlM f s := by
  have hcomm' : ∀ x ∈ l', ∀ y ∈ l', p x = false ∨ p y = false → Exchange f x y :=
    fun x hx y hy => hcomm x (hperm.mem_iff.mpr hx) y (hperm.mem_iff.mpr hy)
  rw [foldlM_partition p fun x hx y hy _ h => hcomm x hx y hy (.inr h),
    foldlM_partition p (l := l') fun x hx y hy _ h => hcomm' x hx y hy (.inr h), horder,
    List.foldlM_append, List.foldlM_append]
  congr 1
  funext s'
  refine foldlM_perm (hperm.filter _) (fun x hx y hy => ?_) s'
  obtain ⟨hx, hpx⟩ := List.mem_filter.mp hx
  exact hcomm x hx y (List.mem_filter.mp hy).1 (.inl (by simpa using hpx))

end Folds

section Writes
variable {σ ι : Type} (taken : ι → σ → Bool) (set : ι → σ → σ)

def write (s : σ) (v : ι) : Option σ := if taken v s then none else some (set v s)

variable {taken set}

theorem write_exchange {v w : ι} (hv : ∀ s, taken v (set w s) = taken v s)
    (hw : ∀ s, taken w (set v s) = taken w s) (hset : ∀ s, set w (set v s) = set v (set w s)) :
    Exchange (write taken set) v w := by
  intro s
  unfold write
  cases htv : taken v s <;> cases htw : taken w s <;> simp [hv, hw, htv, htw, hset]

/-- Two writes to one place fail in both orders. -/
theorem write_exchange_of_taken {v w : ι} (hv : ∀ s, taken v (set w s) = true)
    (hw : ∀ s, taken w (set v s) = true) : Exchange (write taken set) v w := by
  intro s
  unfold write
  cases htv : taken v s <;> cases htw : taken w s <;> simp [hv, hw]

theorem foldlM_write_cons {v : ι} {l : List ι} {s s' : σ}
    (h : (v :: l).foldlM (write taken set) s = some s') :
    taken v s = false ∧ l.foldlM (write taken set) (set v s) = some s' := by
  rw [List.foldlM_cons] at h
  cases htaken : taken v s with
  | true =>
    have hwrite : write taken set s v = none := if_pos htaken
    rw [hwrite] at h
    cases h
  | false =>
    have hwrite : write taken set s v = some (set v s) := if_neg (by simp [htaken])
    rw [hwrite] at h
    exact ⟨rfl, h⟩

theorem foldlM_keeps {P : σ → Prop} {l : List ι} (hkeep : ∀ v ∈ l, ∀ s, P s → P (set v s))
    {s s' : σ} (hs : P s) (h : l.foldlM (write taken set) s = some s') : P s' := by
  induction l generalizing s with
  | nil =>
    cases h
    exact hs
  | cons v l ih =>
    obtain ⟨-, hrest⟩ := foldlM_write_cons h
    exact ih (fun w hw => hkeep w (.tail _ hw)) (hkeep v (.head _) s hs) hrest

/-- Writing what is read: everything is read, and then written. -/
theorem foldlM_read_eq_some_iff {β : Type} {read : β → Option ι} {l : List β} {s s' : σ} :
    l.foldlM (fun s a => (read a).bind (write taken set s)) s = some s' ↔
      ∃ values : List ι, l.map read = values.map some ∧ values.foldlM (write taken set) s = some s' := by
  induction l generalizing s with
  | nil =>
    constructor
    · exact fun h => ⟨[], rfl, h⟩
    · rintro ⟨values, hvalues, h⟩
      cases values with
      | nil => exact h
      | cons v values => cases hvalues
  | cons a l ih =>
    rw [List.foldlM_cons, Option.bind_eq_bind, Option.bind_eq_some_iff]
    constructor
    · rintro ⟨s₁, hfirst, hrest⟩
      obtain ⟨v, hv, hwrite⟩ := Option.bind_eq_some_iff.mp hfirst
      obtain ⟨values, hvalues, hfold⟩ := ih.mp hrest
      refine ⟨v :: values, by rw [List.map_cons, List.map_cons, hv, hvalues], ?_⟩
      rw [List.foldlM_cons, hwrite]
      exact hfold
    · rintro ⟨values, hvalues, hfold⟩
      cases values with
      | nil => cases hvalues
      | cons v values =>
        rw [List.map_cons, List.map_cons, List.cons.injEq] at hvalues
        obtain ⟨hfree, hrest⟩ := foldlM_write_cons hfold
        refine ⟨set v s, ?_, ih.mpr ⟨values, hvalues.2, hrest⟩⟩
        rw [hvalues.1]
        exact if_neg (by simp [hfree])

theorem foldlM_collects {κ : Type} {proj : σ → List κ} {part : ι → List κ}
    (hset : ∀ v s, proj (set v s) = proj s ++ part v) {l : List ι} {s s' : σ}
    (h : l.foldlM (write taken set) s = some s') : proj s' = proj s ++ l.flatMap part := by
  induction l generalizing s with
  | nil =>
    cases h
    exact (List.append_nil _).symm
  | cons v l ih =>
    obtain ⟨-, hrest⟩ := foldlM_write_cons h
    rw [ih hrest, hset, List.flatMap_cons, List.append_assoc]

variable {κ : Type} {name : ι → κ}

/-- What a write leaves is there at the end if no later write goes to the same place. -/
theorem shows_of_foldlM {shows : ι → σ → Prop} (hset : ∀ v s, shows v (set v s))
    (hkeep : ∀ v w s, name v ≠ name w → shows v s → shows v (set w s)) {l : List ι}
    (hnodup : (l.map name).Nodup) {s s' : σ} (h : l.foldlM (write taken set) s = some s') :
    ∀ v ∈ l, shows v s' := by
  induction l generalizing s with
  | nil => exact fun v hv => absurd hv List.not_mem_nil
  | cons w l ih =>
    rw [List.map_cons, List.nodup_cons] at hnodup
    obtain ⟨-, hrest⟩ := foldlM_write_cons h
    refine List.forall_mem_cons.mpr ⟨?_, ih hnodup.2 hrest⟩
    refine foldlM_keeps (fun x hx s' => ?_) (hset w s) hrest
    exact hkeep w x s' fun heq => hnodup.1 (heq ▸ List.mem_map_of_mem hx)

/-- A guarded place is not written twice. -/
theorem pairwise_of_foldlM {guarded : ι → Prop}
    (hsame : ∀ v w s, name v = name w → guarded w → taken w (set v s) = true)
    (hkeep : ∀ v w s, taken w s = true → taken w (set v s) = true) {l : List ι} {s s' : σ}
    (h : l.foldlM (write taken set) s = some s') :
    l.Pairwise fun v w => guarded w → name v ≠ name w := by
  induction l generalizing s with
  | nil => exact List.Pairwise.nil
  | cons v l ih =>
    obtain ⟨-, hrest⟩ := foldlM_write_cons h
    refine List.pairwise_cons.mpr ⟨fun w hw hguarded heq => ?_, ih hrest⟩
    obtain ⟨before, after, rfl⟩ := List.append_of_mem hw
    rw [List.foldlM_append] at hrest
    obtain ⟨middle, hmiddle, hlast⟩ := Option.bind_eq_some_iff.mp hrest
    -- the place of `w` is taken from the write of `v` on
    have htaken : taken w middle = true :=
      foldlM_keeps (fun x _ s' => hkeep x w s') (hsame v w s heq hguarded) hmiddle
    have hfree := (foldlM_write_cons hlast).1
    rw [htaken] at hfree
    cases hfree

end Writes

end BarebonesProxy.GuardedWrites
