import Mathlib.Algebra.Ring.Nat
import Mathlib.Data.List.Infix
import Mathlib.Tactic.Common

set_option autoImplicit false

/-!
# Segments between separators

Two texts put one after the other keep their non-empty segments exactly where they meet at
a separator, and get an empty one of their own exactly where both bring a separator.
-/
namespace BarebonesProxy.PathSegments

section Segments
variable {α : Type} [DecidableEq α] {sep : α} {x y : List α}

/-- The non-empty segments of a text. -/
def segments (sep : α) (s : List α) : List (List α) := (s.splitOn sep).filter (· ≠ [])

@[simp] theorem segments_nil (sep : α) : segments sep [] = [] := by
  simp [segments]

theorem segments_append_sep (sep : α) (x y : List α) :
    segments sep (x ++ sep :: y) = segments sep x ++ segments sep y := by
  unfold segments
  rw [List.splitOn_append_cons_self, List.filter_append]

theorem segments_of_notMem (hx : sep ∉ x) (hne : x ≠ []) : segments sep x = [x] := by
  have hsingle : x.splitOn sep = [x] := by
    refine List.splitOnP_eq_singleton fun c hc => ?_
    have hcne : c ≠ sep := fun heq => hx (heq ▸ hc)
    simpa using hcne
  simp [segments, hsingle, hne]

/-- A text without a separator grows the first segment of what follows it. -/
theorem length_segments_grown (hx : sep ∉ x) (hne : x ≠ []) (hy : y ≠ [])
    (hstart : ¬ [sep] <+: y) : (segments sep (x ++ y)).length = (segments sep y).length := by
  by_cases hmem : sep ∈ y
  · obtain ⟨first, rest, rfl, hfirst⟩ := List.eq_append_cons_of_mem hmem
    have hfirstne : first ≠ [] := by
      rintro rfl
      exact hstart ⟨rest, rfl⟩
    have hgrown : sep ∉ x ++ first := by simp [hx, hfirst]
    rw [← List.append_assoc, segments_append_sep, segments_append_sep,
      segments_of_notMem hgrown (by simp [hne]), segments_of_notMem hfirst hfirstne]
    simp
  · have hgrown : sep ∉ x ++ y := by simp [hx, hmem]
    rw [segments_of_notMem hgrown (by simp [hne]), segments_of_notMem hmem hy]
    rfl

/-- Where no separator stands between them, the last segment of one text and the first of
the other become one. -/
theorem length_segments_glued (hx : x ≠ []) (hend : ¬ [sep] <:+ x) (hy : y ≠ [])
    (hstart : ¬ [sep] <+: y) :
    (segments sep (x ++ y)).length + 1 = (segments sep x).length + (segments sep y).length := by
  induction hn : x.length using Nat.strong_induction_on generalizing x with
  | _ n ih =>
    by_cases hmem : sep ∈ x
    · obtain ⟨first, rest, rfl, -⟩ := List.eq_append_cons_of_mem hmem
      have hrest : rest ≠ [] := by
        rintro rfl
        exact hend (List.suffix_append _ _)
      have hlength : rest.length < n := by
        rw [← hn, List.length_append, List.length_cons]
        omega
      have hglued := ih rest.length hlength hrest
        (fun h => hend (h.trans ((List.suffix_cons _ _).trans (List.suffix_append _ _)))) rfl
      rw [List.append_assoc, List.cons_append, segments_append_sep, segments_append_sep,
        List.length_append, List.length_append]
      omega
    · rw [length_segments_grown hmem hx hy hstart, segments_of_notMem hmem hx,
        List.length_singleton]
      omega

theorem segments_append_iff (hx : x ≠ []) :
    segments sep (x ++ y) = segments sep x ++ segments sep y ↔
      y = [] ∨ [sep] <:+ x ∨ [sep] <+: y := by
  constructor
  · intro hsplit
    by_contra! hglued
    obtain ⟨hy, hend, hstart⟩ := hglued
    have hlength := length_segments_glued hx hend hy hstart
    rw [hsplit, List.length_append] at hlength
    omega
  · rintro (rfl | ⟨x, rfl⟩ | ⟨y, rfl⟩)
    · simp
    · rw [List.append_assoc, List.singleton_append, segments_append_sep, segments_append_sep,
        segments_nil, List.append_nil]
    · have hcons := segments_append_sep sep [] y
      rw [List.nil_append, segments_nil, List.nil_append] at hcons
      rw [List.singleton_append, segments_append_sep, hcons]

end Segments

section Empty
variable {α : Type} {sep : α} {x y before after : List α}

/-- Two separators in a row are in one of the texts, or one at the end of each side. -/
theorem adjacent_cases (h : x ++ y = before ++ [sep, sep] ++ after) :
    before ++ [sep, sep] <+: x ∨ [sep, sep] ++ after <:+ y ∨
      x = before ++ [sep] ∧ y = sep :: after := by
  rw [List.append_assoc] at h
  rcases List.append_eq_append_iff.mp h with ⟨more, rfl, rfl⟩ | ⟨more, rfl, hrest⟩
  · exact .inr (.inl (List.suffix_append ..))
  · match more with
    | [] => exact .inr (.inl ⟨[], hrest⟩)
    | [c] =>
      obtain ⟨rfl, hy⟩ := List.cons.inj hrest
      exact .inr (.inr ⟨rfl, hy.symm⟩)
    | c :: d :: more =>
      simp only [List.cons_append, List.cons.injEq] at hrest
      obtain ⟨rfl, rfl, -⟩ := hrest
      exact .inl ⟨more, by simp⟩

/-- With `prior ++ y` written over as `x ++ y`, an empty segment is one of `x` or was there
before, unless `x` and `y` meet in one that `prior` and `y` did not have. -/
theorem no_new_empty_iff {prior : List α} :
    (∀ before after, x ++ y = before ++ [sep, sep] ++ after →
        before ++ [sep, sep] <+: x ∨ [sep, sep] ++ after <:+ prior ++ y) ↔
      ([sep] <:+ x → [sep] <+: y → [sep] <:+ prior) := by
  constructor
  · rintro hkeeps ⟨before, rfl⟩ ⟨after, rfl⟩
    rcases hkeeps before after (by simp) with hin | hin
    · have hlength := hin.length_le
      simp at hlength
    · obtain ⟨start, hstart⟩ := hin
      refine ⟨start, (List.append_left_inj ([sep] ++ after)).mp ?_⟩
      rw [← hstart]
      simp
  · intro hmeet before after hsplit
    rcases adjacent_cases hsplit with hin | hin | ⟨rfl, rfl⟩
    · exact .inl hin
    · exact .inr (hin.trans (List.suffix_append ..))
    · obtain ⟨start, rfl⟩ := hmeet (List.suffix_append ..) (List.prefix_append [sep] after)
      exact .inr ⟨start, by simp⟩

end Empty

end BarebonesProxy.PathSegments
