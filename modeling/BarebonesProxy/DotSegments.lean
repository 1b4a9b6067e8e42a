import Mathlib.Algebra.Ring.Nat
import Mathlib.Data.List.Infix
import Mathlib.Tactic.Common

set_option autoImplicit false

/-!
# Dot segments of paths

`removeDotSegments` is the loop of RFC 3986, section 5.2.4, over an input and an output
buffer. On an absolute path it is a walk over the segments with a stack (`resolve`), and
a walk that never pops below a floor keeps that floor as a prefix.
-/
namespace BarebonesProxy.DotSegments

section Loop

/-- Drop the last segment of the output buffer and the slash before it, if any. -/
def withoutLastSegment (output : List Char) : List Char :=
  ((output.reverse.dropWhile (· != '/')).drop 1).reverse

/-- The first segment of the input buffer, with the slash before it, if any. -/
def firstSegment : List Char → List Char
  | '/' :: input => '/' :: input.takeWhile (· != '/')
  | input => input.takeWhile (· != '/')

/-- One round, with the steps A to E in the order of the RFC. -/
def step (input output : List Char) : List Char × List Char :=
  if "../".toList <+: input then (input.drop 3, output)
  else if "./".toList <+: input then (input.drop 2, output)
  else if "/./".toList <+: input then (input.drop 2, output)
  else if input = "/.".toList then ("/".toList, output)
  else if "/../".toList <+: input then (input.drop 3, withoutLastSegment output)
  else if input = "/..".toList then ("/".toList, withoutLastSegment output)
  else if input = ".".toList ∨ input = "..".toList then ([], output)
  else (input.drop (firstSegment input).length, output ++ firstSegment input)

def loop : ℕ → List Char → List Char → List Char
  | _, [], output => output
  | 0, _ :: _, output => output
  | fuel + 1, input, output => loop fuel (step input output).1 (step input output).2

/-- Each round shortens the input, so its length is enough fuel. -/
def removeDotSegments (path : List Char) : List Char := loop path.length path []

end Loop

section Segments

def render (segments : List (List Char)) : List Char := segments.flatMap ('/' :: ·)

@[simp] theorem render_nil : render [] = [] := rfl

@[simp] theorem render_cons (s : List Char) (segments : List (List Char)) :
    render (s :: segments) = '/' :: s ++ render segments := rfl

@[simp] theorem render_append (xs ys : List (List Char)) :
    render (xs ++ ys) = render xs ++ render ys := List.flatMap_append

/-- The text before the first slash, and the segments after it. -/
def pieces : List Char → List Char × List (List Char)
  | [] => ([], [])
  | c :: s =>
    if c = '/' then ([], (pieces s).1 :: (pieces s).2) else (c :: (pieces s).1, (pieces s).2)

theorem pieces_text (s : List Char) : (pieces s).1 ++ render (pieces s).2 = s := by
  induction s with
  | nil => rfl
  | cons c s ih =>
    by_cases hc : c = '/'
    · simp [pieces, hc, ih]
    · simp [pieces, hc, ih]

def NoSlash (segments : List (List Char)) : Prop := ∀ s ∈ segments, '/' ∉ s

theorem pieces_noSlash (s : List Char) : NoSlash ((pieces s).1 :: (pieces s).2) := by
  induction s with
  | nil => simp [pieces, NoSlash]
  | cons c s ih =>
    unfold NoSlash at ih ⊢
    by_cases hc : c = '/'
    · simpa [pieces, hc] using ih
    · simp only [pieces, hc, if_false, List.forall_mem_cons] at ih ⊢
      exact ⟨by simp [ih.1, Ne.symm hc], ih.2⟩

/-- The stack machine that the loop is on an absolute path. A path that ends in a dot
segment is left with a slash at its end. -/
def resolve : List (List Char) → List (List Char) → List (List Char)
  | out, [] => out
  | out, s :: segments =>
    if s = ".".toList then
      if segments = [] then out ++ [[]] else resolve out segments
    else if s = "..".toList then
      if segments = [] then out.dropLast ++ [[]] else resolve out.dropLast segments
    else resolve (out ++ [s]) segments

theorem render_cases (segments : List (List Char)) :
    (segments = [] ∧ render segments = []) ∨ ∃ text, segments ≠ [] ∧ render segments = '/' :: text := by
  cases segments with
  | nil => exact .inl ⟨rfl, rfl⟩
  | cons s segments => exact .inr ⟨s ++ render segments, by simp, rfl⟩

theorem withoutLastSegment_render {out : List (List Char)} (h : NoSlash out) :
    withoutLastSegment (render out) = render out.dropLast := by
  cases out using List.reverseRecOn with
  | nil => rfl
  | append_singleton out s =>
    have hs : '/' ∉ s := h s (by simp)
    have hdrop : (s.reverse ++ '/' :: (render out).reverse).dropWhile (· != '/') =
        '/' :: (render out).reverse := by
      rw [List.dropWhile_append_of_pos]
      · simp
      · intro c hc
        have hne : c ≠ '/' := fun heq => hs (heq ▸ List.mem_reverse.mp hc)
        simpa using hne
    unfold withoutLastSegment
    simp [hdrop]

theorem takeWhile_segment {s : List Char} (hs : '/' ∉ s) (segments : List (List Char)) :
    (s ++ render segments).takeWhile (· != '/') = s := by
  have hall : ∀ c ∈ s, (c != '/') = true := by
    intro c hc
    have hne : c ≠ '/' := fun heq => hs (heq ▸ hc)
    simpa using hne
  rw [List.takeWhile_append_of_pos hall]
  rcases render_cases segments with ⟨-, hr⟩ | ⟨text, -, hr⟩
  all_goals simp [hr]

/-- What a round does to a path that starts with the segment `s`. -/
theorem step_segment {s : List Char} (hs : '/' ∉ s) (segments : List (List Char))
    (output : List Char) :
    step ('/' :: s ++ render segments) output =
      if s = ".".toList then
        (if segments = [] then "/".toList else render segments, output)
      else if s = "..".toList then
        (if segments = [] then "/".toList else render segments, withoutLastSegment output)
      else (render segments, output ++ '/' :: s) := by
  have hfirst : firstSegment ('/' :: s ++ render segments) = '/' :: s := by
    change '/' :: (s ++ render segments).takeWhile (· != '/') = '/' :: s
    rw [takeWhile_segment hs segments]
  unfold step
  rw [hfirst]
  rcases render_cases segments with ⟨rfl, hr⟩ | ⟨text, hne, hr⟩
  all_goals
    match s with
    | [] => simp [hr]
    | [c] =>
      by_cases hc : c = '.'
      · simp [*]
      · simp [hr, hc, Ne.symm hc]
    | [c, d] =>
      have hslash : d ≠ '/' := fun heq => hs (by simp [heq])
      by_cases hc : c = '.'
      · by_cases hd : d = '.'
        · simp [*]
        · simp [hr, hc, hd, Ne.symm hd, Ne.symm hslash]
      · simp [hr, hc, Ne.symm hc]
    | c :: d :: e :: s =>
      have hd : d ≠ '/' := fun heq => hs (by simp [heq])
      have he : e ≠ '/' := fun heq => hs (by simp [heq])
      simp [hr, Ne.symm hd, Ne.symm he]

theorem noSlash_push {out : List (List Char)} {s : List Char} (h : NoSlash out) (hs : '/' ∉ s) :
    NoSlash (out ++ [s]) := by
  intro x hx
  rcases List.mem_append.mp hx with hx | hx
  · exact h x hx
  · rw [List.mem_singleton.mp hx]
    exact hs

theorem noSlash_dropLast {out : List (List Char)} (h : NoSlash out) : NoSlash out.dropLast :=
  fun s hs => h s (List.dropLast_subset out hs)

theorem loop_slash {fuel : ℕ} (hfuel : 0 < fuel) (out : List (List Char)) :
    loop fuel "/".toList (render out) = render (out ++ [[]]) := by
  obtain ⟨fuel, rfl⟩ := Nat.exists_eq_succ_of_ne_zero (Nat.ne_of_gt hfuel)
  have hstep : step "/".toList (render out) = ([], render out ++ "/".toList) := by
    exact step_segment List.not_mem_nil [] (render out)
  change loop fuel (step "/".toList (render out)).1 (step "/".toList (render out)).2 = _
  rw [hstep]
  simp [loop]

/-- On an absolute path the loop is the walk over its segments. -/
theorem loop_render {fuel : ℕ} {segments out : List (List Char)} (hsegments : NoSlash segments)
    (hout : NoSlash out) (hfuel : (render segments).length ≤ fuel) :
    loop fuel (render segments) (render out) = render (resolve out segments) := by
  induction segments generalizing fuel out with
  | nil => simp [loop, resolve]
  | cons s segments ih =>
    have hs : '/' ∉ s := hsegments s (by simp)
    have hrest : NoSlash segments := fun x hx => hsegments x (by simp [hx])
    simp only [render_cons, List.length_append, List.length_cons] at hfuel
    obtain ⟨fuel, rfl⟩ : ∃ n, fuel = n + 1 := Nat.exists_eq_succ_of_ne_zero (by omega)
    have hround : loop (fuel + 1) (render (s :: segments)) (render out) =
        loop fuel (step ('/' :: s ++ render segments) (render out)).1
          (step ('/' :: s ++ render segments) (render out)).2 := rfl
    rw [hround, step_segment hs, resolve]
    by_cases hdot : s = ".".toList
    · have hlength : s.length = 1 := by rw [hdot]; rfl
      simp only [hdot, if_true]
      by_cases hnil : segments = []
      · rw [if_pos hnil, if_pos hnil]
        exact loop_slash (by omega) out
      · rw [if_neg hnil, if_neg hnil]
        exact ih hrest hout (by omega)
    · by_cases hdots : s = "..".toList
      · have hlength : s.length = 2 := by rw [hdots]; rfl
        have hpop := noSlash_dropLast hout
        rw [if_neg hdot, if_neg hdot, if_pos hdots, if_pos hdots]
        simp only [withoutLastSegment_render hout]
        by_cases hnil : segments = []
        · rw [if_pos hnil, if_pos hnil]
          exact loop_slash (by omega) out.dropLast
        · rw [if_neg hnil, if_neg hnil]
          exact ih hrest hpop (by omega)
      · rw [if_neg hdot, if_neg hdot, if_neg hdots, if_neg hdots]
        have hpush : render out ++ '/' :: s = render (out ++ [s]) := by simp
        dsimp only
        rw [hpush]
        exact ih hrest (noSlash_push hout hs) (by omega)

theorem removeDotSegments_render {segments : List (List Char)} (h : NoSlash segments) :
    removeDotSegments (render segments) = render (resolve [] segments) :=
  loop_render h (fun _ hs => absurd hs List.not_mem_nil) le_rfl

end Segments

section Confinement

def IsDot (s : List Char) : Prop := s = ".".toList ∨ s = "..".toList

instance : DecidablePred IsDot := fun s =>
  inferInstanceAs (Decidable (s = ".".toList ∨ s = "..".toList))

/-- Counting the segments above a floor, the walk never goes below it. -/
def Stays : ℕ → List (List Char) → Prop
  | _, [] => True
  | depth, s :: segments =>
    if s = ".".toList then Stays depth segments
    else if s = "..".toList then 0 < depth ∧ Stays (depth - 1) segments
    else Stays (depth + 1) segments

instance decidableStays : (depth : ℕ) → (segments : List (List Char)) →
    Decidable (Stays depth segments)
  | _, [] => inferInstanceAs (Decidable True)
  | depth, s :: segments =>
    haveI := decidableStays depth segments
    haveI := decidableStays (depth - 1) segments
    haveI := decidableStays (depth + 1) segments
    inferInstanceAs (Decidable (if s = ".".toList then Stays depth segments
      else if s = "..".toList then 0 < depth ∧ Stays (depth - 1) segments
      else Stays (depth + 1) segments))

/-- A walk that stays above a floor keeps it, and ends with at least one segment more. -/
theorem resolve_floor (floor extra segments : List (List Char)) (h : Stays extra.length segments) :
    ∃ rest, resolve (floor ++ extra) segments = floor ++ rest ∧ (segments ≠ [] → rest ≠ []) := by
  induction segments generalizing extra with
  | nil => exact ⟨extra, rfl, fun hne => absurd rfl hne⟩
  | cons s segments ih =>
    -- the segments left, if any, are walked from a stack above the same floor
    have hnext : ∀ extra', Stays extra'.length segments →
        ∃ rest, (if segments = [] then floor ++ extra' ++ [[]] else resolve (floor ++ extra') segments) =
          floor ++ rest ∧ rest ≠ [] := by
      intro extra' hstays
      by_cases hnil : segments = []
      · exact ⟨extra' ++ [[]], by simp [hnil], by simp⟩
      · obtain ⟨rest, hrest, hne⟩ := ih extra' hstays
        exact ⟨rest, by rw [if_neg hnil, hrest], hne hnil⟩
    rw [Stays] at h
    rw [resolve]
    by_cases hdot : s = ".".toList
    · rw [if_pos hdot] at h ⊢
      obtain ⟨rest, hrest, hne⟩ := hnext extra h
      exact ⟨rest, hrest, fun _ => hne⟩
    · by_cases hdots : s = "..".toList
      · rw [if_neg hdot, if_pos hdots] at h ⊢
        have hpop : (floor ++ extra).dropLast = floor ++ extra.dropLast :=
          List.dropLast_append_of_ne_nil (List.ne_nil_of_length_pos h.1)
        obtain ⟨rest, hrest, hne⟩ := hnext extra.dropLast (by rw [List.length_dropLast]; exact h.2)
        exact ⟨rest, by rw [hpop, hrest], fun _ => hne⟩
      · rw [if_neg hdot, if_neg hdots] at h ⊢
        obtain ⟨rest, hrest, hne⟩ := ih (extra ++ [s]) (by simpa using h)
        rw [List.append_assoc, hrest]
        refine ⟨rest, rfl, fun _ => ?_⟩
        by_cases hnil : segments = []
        · rw [hnil, resolve] at hrest
          rw [← List.append_cancel_left hrest]
          simp
        · exact hne hnil

theorem resolve_dotless {dir : List (List Char)} (hdir : ∀ s ∈ dir, ¬ IsDot s)
    (out segments : List (List Char)) :
    resolve out (dir ++ segments) = resolve (out ++ dir) segments := by
  induction dir generalizing out with
  | nil => simp
  | cons s dir ih =>
    have hs : ¬ (s = ".".toList ∨ s = "..".toList) := hdir s (by simp)
    rw [List.cons_append, resolve, if_neg (fun h => hs (.inl h)), if_neg (fun h => hs (.inr h)),
      ih (fun x hx => hdir x (by simp [hx]))]
    simp

def Dotless (path : List Char) : Prop := ∀ s ∈ (pieces path).2, ¬ IsDot s

/-- What is put after `base` never climbs out of it. Where `base` ends inside a segment,
that segment is part of the floor. -/
def StaysWithin (base rest : List Char) : Prop :=
  if base.getLast? = some '/' then Stays 0 ((pieces rest).1 :: (pieces rest).2)
  else Stays 0 (pieces rest).2

instance (path : List Char) : Decidable (Dotless path) :=
  inferInstanceAs (Decidable (∀ s ∈ (pieces path).2, ¬ IsDot s))

instance (base rest : List Char) : Decidable (StaysWithin base rest) :=
  inferInstanceAs (Decidable (if base.getLast? = some '/' then
    Stays 0 ((pieces rest).1 :: (pieces rest).2) else Stays 0 (pieces rest).2))

theorem absolute_split {base : List Char} (h : "/".toList <+: base) :
    ∃ dir stem, (pieces base).2 = dir ++ [stem] ∧ base = render dir ++ '/' :: stem := by
  obtain ⟨text, rfl⟩ := h
  have htext := pieces_text ('/' :: text)
  have hpieces : pieces ('/' :: text) = ([], (pieces text).1 :: (pieces text).2) := by
    simp [pieces]
  obtain ⟨dir, stem, hsplit⟩ : ∃ dir stem, (pieces text).1 :: (pieces text).2 = dir ++ [stem] :=
    ⟨_, _, (List.dropLast_append_getLast (List.cons_ne_nil _ _)).symm⟩
  rw [hpieces, hsplit] at htext
  refine ⟨dir, stem, ?_, ?_⟩
  · change (pieces ('/' :: text)).2 = _
    rw [hpieces, hsplit]
  · change '/' :: text = _
    rw [← htext]
    simp

theorem getLast_slash_iff (dir : List (List Char)) {stem : List Char} (hstem : '/' ∉ stem) :
    (render dir ++ '/' :: stem).getLast? = some '/' ↔ stem = [] := by
  cases stem using List.reverseRecOn with
  | nil => simp
  | append_singleton stem c =>
    have hc : c ≠ '/' := fun heq => hstem (by simp [heq])
    have hlast : (render dir ++ '/' :: (stem ++ [c])).getLast? = some c := by
      rw [← List.cons_append, ← List.append_assoc, List.getLast?_concat]
    rw [hlast]
    simp [hc]

theorem not_isDot_append {stem : List Char} (h : ¬ IsDot stem) (hne : stem ≠ [])
    (first : List Char) : ¬ IsDot (stem ++ first) := by
  unfold IsDot at h ⊢
  match stem with
  | [] => exact absurd rfl hne
  | [c] =>
    have hc : c ≠ '.' := by simpa using h
    simp [hc]
  | c :: d :: stem =>
    rintro (hdot | hdots)
    · simp at hdot
    · refine h (.inr ?_)
      simp only [String.reduceToList, List.cons_append, List.cons.injEq, List.append_eq_nil_iff]
        at hdots ⊢
      exact ⟨hdots.1, hdots.2.1, hdots.2.2.1⟩

/-- A path that never climbs out of its dotless base keeps the base as a prefix. -/
theorem prefix_removeDotSegments {base rest : List Char} (hbase : "/".toList <+: base)
    (hdotless : Dotless base) (hstays : StaysWithin base rest) :
    base <+: removeDotSegments (base ++ rest) := by
  obtain ⟨dir, stem, hpieces, hsplit⟩ := absolute_split hbase
  have hslash : NoSlash (dir ++ [stem]) := by
    rw [← hpieces]
    exact fun s hs => pieces_noSlash base s (.tail _ hs)
  have hstem : '/' ∉ stem := hslash stem (by simp)
  have hdir : ∀ s ∈ dir, ¬ IsDot s := fun s hs => hdotless s (by simp [hpieces, hs])
  obtain ⟨first, more, hrest⟩ : ∃ first more, pieces rest = (first, more) := ⟨_, _, rfl⟩
  have hslash' := pieces_noSlash rest
  have htext := pieces_text rest
  unfold StaysWithin at hstays
  rw [hrest] at hslash' htext hstays
  have hfull : NoSlash (dir ++ (stem ++ first) :: more) := by
    intro s hs
    rcases List.mem_append.mp hs with hs | hs
    · exact hslash s (by simp [hs])
    · rcases List.mem_cons.mp hs with rfl | hs
      · simp [hstem, hslash' first (by simp)]
      · exact hslash' s (by simp [hs])
  have hwhole : base ++ rest = render (dir ++ (stem ++ first) :: more) := by
    rw [hsplit, ← htext]
    simp
  rw [hwhole, removeDotSegments_render hfull, resolve_dotless hdir, List.nil_append, hsplit]
  rw [hsplit] at hstays
  have hlast := getLast_slash_iff dir hstem
  by_cases hnil : stem = []
  · rw [if_pos (hlast.mpr hnil)] at hstays
    obtain ⟨above, habove, hne⟩ := resolve_floor dir [] (first :: more) hstays
    obtain ⟨x, above, rfl⟩ := List.exists_cons_of_ne_nil (hne (List.cons_ne_nil _ _))
    rw [List.append_nil] at habove
    rw [hnil, List.nil_append, habove]
    exact ⟨x ++ render above, by simp⟩
  · rw [if_neg (fun h => hnil (hlast.mp h))] at hstays
    have hdot : ¬ IsDot (stem ++ first) :=
      not_isDot_append (hdotless stem (by simp [hpieces])) hnil first
    obtain ⟨above, habove, -⟩ := resolve_floor (dir ++ [stem ++ first]) [] more hstays
    rw [List.append_nil] at habove
    have hpush : resolve dir ([stem ++ first] ++ more) = resolve (dir ++ [stem ++ first]) more :=
      resolve_dotless (by simpa using hdot) dir more
    rw [List.singleton_append] at hpush
    rw [hpush, habove]
    exact ⟨first ++ render above, by simp⟩

end Confinement

end BarebonesProxy.DotSegments
