import BarebonesProxy.RustStrings
import Mathlib.Data.List.Forall2

set_option autoImplicit false

/-!
# Tokens of a line

A text is a word, or a word and a blank before a text. Facts about `split_whitespace` go by
induction along these breaks.
-/
namespace BarebonesProxy.RustStrings

section Words

def IsWord (w : Str) : Prop := ∀ c ∈ w, isWhitespace c = false

/-- The token that a word is, unless it is empty. -/
def asToken (w : Str) : List Str := if w = [] then [] else [w]

theorem splitWhitespace_word {w : Str} (hw : IsWord w) : splitWhitespace w = asToken w := by
  have hsingle : w.splitOnP isWhitespace = [w] := List.splitOnP_eq_singleton hw
  unfold splitWhitespace asToken
  rw [hsingle]
  by_cases hnil : w = [] <;> simp [hnil]

theorem splitWhitespace_break {w : Str} (hw : IsWord w) {c : Char} (hc : isWhitespace c = true)
    (s : Str) : splitWhitespace (w ++ c :: s) = asToken w ++ splitWhitespace s := by
  have hfirst : (w ++ c :: s).splitOnP isWhitespace = w :: s.splitOnP isWhitespace :=
    List.splitOnP_append_cons_of_forall_mem hw c hc s
  unfold splitWhitespace asToken
  rw [hfirst]
  by_cases hnil : w = [] <;> simp [hnil]

theorem word_or_break (s : Str) :
    IsWord s ∨ ∃ w c rest, IsWord w ∧ isWhitespace c = true ∧ s = w ++ c :: rest := by
  induction s with
  | nil => exact .inl fun c hc => absurd hc List.not_mem_nil
  | cons x s ih =>
    by_cases hx : isWhitespace x = true
    · exact .inr ⟨[], x, s, fun c hc => absurd hc List.not_mem_nil, hx, rfl⟩
    · have hpush : ∀ w, IsWord w → IsWord (x :: w) := fun w hw =>
        List.forall_mem_cons.mpr ⟨by simpa using hx, hw⟩
      rcases ih with hword | ⟨w, c, rest, hw, hc, rfl⟩
      · exact .inl (hpush s hword)
      · exact .inr ⟨x :: w, c, rest, hpush w hw, hc, rfl⟩

theorem word_induction {P : Str → Prop} (word : ∀ w, IsWord w → P w)
    (blank : ∀ w c s, IsWord w → isWhitespace c = true → P s → P (w ++ c :: s)) (s : Str) : P s := by
  induction hn : s.length using Nat.strong_induction_on generalizing s with
  | _ n ih =>
    rcases word_or_break s with hword | ⟨w, c, rest, hw, hc, rfl⟩
    · exact word s hword
    · have hlength : rest.length < n := by
        rw [← hn, List.length_append, List.length_cons]
        omega
      exact blank w c rest hw hc (ih rest.length hlength rest rfl)

theorem splitWhitespace_blank_cons {c : Char} (hc : isWhitespace c = true) (s : Str) :
    splitWhitespace (c :: s) = splitWhitespace s :=
  splitWhitespace_break (fun _ hx => absurd hx List.not_mem_nil) hc s

theorem splitWhitespace_concat_blank {c : Char} (hc : isWhitespace c = true) (s : Str) :
    splitWhitespace (s ++ [c]) = splitWhitespace s := by
  induction s using word_induction with
  | word w hw =>
    rw [splitWhitespace_break hw hc, splitWhitespace_word hw]
    exact List.append_nil _
  | blank w d s hw hd ih =>
    rw [List.append_assoc, List.cons_append, splitWhitespace_break hw hd, ih,
      splitWhitespace_break hw hd]

theorem splitWhitespace_trim (s : Str) : splitWhitespace (trim s) = splitWhitespace s := by
  have hstart : ∀ s : Str, splitWhitespace (s.dropWhile isWhitespace) = splitWhitespace s := by
    intro s
    induction s with
    | nil => rfl
    | cons c s ih =>
      by_cases hc : isWhitespace c = true
      · rw [List.dropWhile_cons_of_pos hc, ih, splitWhitespace_blank_cons hc]
      · rw [List.dropWhile_cons_of_neg hc]
  have hend : ∀ s : Str, splitWhitespace (s.rdropWhile isWhitespace) = splitWhitespace s := by
    intro s
    induction s using List.reverseRecOn with
    | nil => rfl
    | append_singleton s c ih =>
      by_cases hc : isWhitespace c = true
      · rw [List.rdropWhile_concat_pos _ _ _ hc, ih, splitWhitespace_concat_blank hc]
      · rw [List.rdropWhile_concat_neg _ _ _ hc]
  unfold trim
  rw [hend, hstart]

/-- What follows a text with two tokens leaves its first token alone. -/
theorem splitWhitespace_append_head {t a b : Str} {rest : List Str}
    (h : splitWhitespace t = a :: b :: rest) (u : Str) :
    ∃ rest', splitWhitespace (t ++ u) = a :: rest' := by
  induction t using word_induction generalizing a b rest with
  | word w hw =>
    rw [splitWhitespace_word hw] at h
    unfold asToken at h
    split at h <;> simp at h
  | blank w c s hw hc ih =>
    rw [splitWhitespace_break hw hc] at h
    rw [List.append_assoc, List.cons_append, splitWhitespace_break hw hc]
    unfold asToken at h ⊢
    by_cases hnil : w = []
    · rw [if_pos hnil] at h ⊢
      exact ih h
    · rw [if_neg hnil] at h ⊢
      have ha : w = a := (List.cons.inj h).1
      rw [ha]
      exact ⟨_, rfl⟩

end Words

section Endings

theorem trimEndMatches_append (s : Str) (c : Char) : ∃ u, s = trimEndMatches s c ++ u :=
  ⟨_, List.rdropWhile_append_rtakeWhile.symm⟩

/-- Trimming keeps the last character of a text unless it is a blank. -/
theorem trim_concat {c : Char} (hc : isWhitespace c = false) (s : Str) :
    ∃ s', trim (s ++ [c]) = s' ++ [c] := by
  have hneg : ¬ isWhitespace c = true := by simp [hc]
  have hdrop : ∃ s', (s ++ [c]).dropWhile isWhitespace = s' ++ [c] := by
    induction s with
    | nil => exact ⟨[], List.dropWhile_cons_of_neg hneg⟩
    | cons d s ih =>
      by_cases hd : isWhitespace d = true
      · rw [List.cons_append, List.dropWhile_cons_of_pos hd]
        exact ih
      · rw [List.cons_append, List.dropWhile_cons_of_neg hd]
        exact ⟨d :: s, rfl⟩
  obtain ⟨s', hs'⟩ := hdrop
  refine ⟨s', ?_⟩
  unfold trim
  rw [hs', List.rdropWhile_concat_neg _ _ _ hneg]

theorem endsWith_singleton {s : Str} {c : Char} : endsWith s [c] = true ↔ ∃ s', s = s' ++ [c] := by
  unfold endsWith
  rw [List.isSuffixOf_iff_suffix]
  constructor
  · rintro ⟨s', rfl⟩
    exact ⟨s', rfl⟩
  · rintro ⟨s', rfl⟩
    exact ⟨s', rfl⟩

/-- A line has one last character, blanks apart. -/
theorem endsWith_trim_ne {s : Str} {c d : Char} (hc : isWhitespace c = false) (hne : c ≠ d)
    (hs : endsWith s [c] = true) : endsWith (trim s) [d] = false := by
  obtain ⟨s', rfl⟩ := endsWith_singleton.mp hs
  obtain ⟨t, ht⟩ := trim_concat hc s'
  rw [Bool.eq_false_iff]
  intro hd
  obtain ⟨u, hu⟩ := endsWith_singleton.mp hd
  rw [ht] at hu
  exact hne (List.append_singleton_inj.mp hu).2

end Endings

section Lines

theorem trim_blank {s : Str} (h : ∀ c ∈ s, isWhitespace c = true) : trim s = [] := by
  have hdrop : s.dropWhile isWhitespace = [] := List.dropWhile_eq_nil_iff.mpr h
  unfold trim
  rw [hdrop]
  rfl

theorem trim_blank_cons {c : Char} (hc : isWhitespace c = true) (s : Str) :
    trim (c :: s) = trim s := by
  unfold trim
  rw [List.dropWhile_cons_of_pos hc]

theorem trim_word {w : Str} (hw : IsWord w) : trim w = w := by
  have hdrop : w.dropWhile isWhitespace = w := by
    rw [List.dropWhile_eq_self_iff]
    intro hlength hfirst
    rw [hw _ (List.getElem_mem hlength)] at hfirst
    cases hfirst
  unfold trim
  rw [hdrop, List.rdropWhile_eq_self_iff]
  intro hne hlast
  rw [hw _ (List.getLast_mem hne)] at hlast
  cases hlast

theorem trim_concat_blank {c : Char} (hc : isWhitespace c = true) (s : Str) :
    trim (s ++ [c]) = trim s := by
  unfold trim
  rw [List.dropWhile_append]
  split
  · next hempty =>
    rw [List.isEmpty_iff.mp hempty, List.dropWhile_cons_of_pos hc]
    rfl
  · rw [List.rdropWhile_concat_pos _ _ _ hc]

theorem trim_cons {c : Char} (hc : isWhitespace c = false) (s : Str) :
    ∃ s', trim (c :: s) = c :: s' := by
  have hneg : ¬ isWhitespace c = true := by simp [hc]
  unfold trim
  rw [List.dropWhile_cons_of_neg hneg]
  induction s using List.reverseRecOn with
  | nil => exact ⟨[], List.rdropWhile_concat_neg _ [] _ hneg⟩
  | append_singleton s d ih =>
    rw [← List.cons_append]
    by_cases hd : isWhitespace d = true
    · rw [List.rdropWhile_concat_pos _ _ _ hd]
      exact ih
    · rw [List.rdropWhile_concat_neg _ _ _ hd]
      exact ⟨s ++ [d], rfl⟩

theorem splitOn_concat (s : Str) (x : Char) : ∃ init last, s.splitOn x = init ++ [last] :=
  ⟨_, _, (List.dropLast_append_getLast (List.splitOn_ne_nil _ _)).symm⟩

/-- A line that ends at `\n` or `\r\n`, without its end. -/
def closedLine (l : Str) : Str := if endsWith l ['\r'] then l.dropLast else l

theorem closedLine_concat (l : Str) (c : Char) :
    closedLine (l ++ [c]) = if c = '\r' then l else l ++ [c] := by
  unfold closedLine
  by_cases hc : c = '\r'
  · rw [if_pos hc, if_pos (endsWith_singleton.mpr ⟨l, by rw [hc]⟩), List.dropLast_concat]
  · rw [if_neg hc, if_neg]
    intro hend
    obtain ⟨l', hl'⟩ := endsWith_singleton.mp hend
    have hlast : [c] = ['\r'] := List.append_inj_right' hl' rfl
    exact hc (List.singleton_inj.mp hlast)

theorem lines_of_splitOn {s : Str} {init : List Str} {last : Str}
    (h : s.splitOn '\n' = init ++ [last]) :
    lines s = init.map closedLine ++ if last = [] then [] else [last] := by
  unfold lines
  dsimp only
  rw [h, List.dropLast_concat, List.getLast?_concat]
  cases last with
  | nil => exact (List.append_nil _).symm
  | cons c l => rfl

/-- Once lines are trimmed and the empty ones dropped, every line end is a plain `\n`. -/
theorem filter_lines {p : Str → Bool} (hp : p [] = false) (s : Str) :
    ((lines s).map trim).filter p = ((s.splitOn '\n').map trim).filter p := by
  obtain ⟨init, last, hsplit⟩ := splitOn_concat s '\n'
  have hclosed : (init.map closedLine).map trim = init.map trim := by
    rw [List.map_map]
    apply List.map_congr_left
    intro l _
    change trim (closedLine l) = trim l
    unfold closedLine
    split
    · next hend =>
      obtain ⟨l', rfl⟩ := endsWith_singleton.mp hend
      rw [List.dropLast_concat, trim_concat_blank (by decide)]
    · rfl
  rw [lines_of_splitOn hsplit, hsplit, List.map_append, List.map_append, hclosed,
    List.filter_append, List.filter_append]
  split
  · next hlast => simp [hlast, trim_blank, hp]
  · rfl

theorem forall₂_modifyHead {R : Char → Char → Prop} {c d : Char} (hcd : R c d)
    {pieces pieces' : List Str} (h : List.Forall₂ (List.Forall₂ R) pieces pieces') :
    List.Forall₂ (List.Forall₂ R) (pieces.modifyHead (List.cons c))
      (pieces'.modifyHead (List.cons d)) := by
  cases h with
  | nil => exact .nil
  | cons hfirst hrest => exact .cons (.cons hcd hfirst) hrest

/-- Texts that agree on where the separators are have corresponding pieces. -/
theorem forall₂_splitOn {R : Char → Char → Prop} {x : Char} (hR : ∀ c d, R c d → (c = x ↔ d = x))
    {s t : Str} (h : List.Forall₂ R s t) :
    List.Forall₂ (List.Forall₂ R) (s.splitOn x) (t.splitOn x) := by
  unfold List.splitOn
  induction h with
  | nil => exact .cons .nil .nil
  | @cons c d s t hcd _ ih =>
    rw [List.splitOnP_cons_eq_if_modifyHead, List.splitOnP_cons_eq_if_modifyHead]
    by_cases hc : c = x
    · have hd := (hR c d hcd).mp hc
      rw [if_pos (by simp [hc]), if_pos (by simp [hd])]
      exact .cons .nil ih
    · have hd : d ≠ x := fun hd => hc ((hR c d hcd).mpr hd)
      rw [if_neg (by simp [hc]), if_neg (by simp [hd])]
      exact forall₂_modifyHead hcd ih

theorem forall₂_concat {α β : Type} {R : α → β → Prop} {l : List α} {l' : List β} {a : α} {b : β} :
    List.Forall₂ R (l ++ [a]) (l' ++ [b]) ↔ List.Forall₂ R l l' ∧ R a b := by
  rw [← List.forall₂_reverse_iff, List.reverse_concat, List.reverse_concat, List.forall₂_cons,
    List.forall₂_reverse_iff, and_comm]

/-- The lines of two texts correspond if their pieces do, the last ones being empty together. -/
theorem forall₂_lines {R Q : Str → Str → Prop} (hempty : ∀ l l', R l l' → (l = [] ↔ l' = []))
    (hclosed : ∀ l l', R l l' → Q (closedLine l) (closedLine l')) (hlast : ∀ l l', R l l' → Q l l')
    {s t : Str} (h : List.Forall₂ R (s.splitOn '\n') (t.splitOn '\n')) :
    List.Forall₂ Q (lines s) (lines t) := by
  obtain ⟨init, last, hs⟩ := splitOn_concat s '\n'
  obtain ⟨init', last', ht⟩ := splitOn_concat t '\n'
  rw [hs, ht, forall₂_concat] at h
  obtain ⟨hinit, hboth⟩ := h
  rw [lines_of_splitOn hs, lines_of_splitOn ht]
  apply List.rel_append
  · rw [List.forall₂_map_left_iff, List.forall₂_map_right_iff]
    exact hinit.imp hclosed
  · by_cases hnil : last = []
    · rw [if_pos hnil, if_pos ((hempty last last' hboth).mp hnil)]
      exact .nil
    · rw [if_neg hnil, if_neg fun h => hnil ((hempty last last' hboth).mpr h)]
      exact .cons (hlast last last' hboth) .nil

theorem infix_intercalate {pieces : List Str} {piece : Str} (sep : Str) (h : piece ∈ pieces) :
    piece <:+: List.intercalate sep pieces := by
  induction pieces with
  | nil => cases h
  | cons first pieces ih =>
    cases pieces with
    | nil =>
      rw [List.mem_singleton.mp h, List.intercalate_singleton]
    | cons second pieces =>
      rw [List.intercalate_cons_cons, List.append_assoc]
      rcases List.mem_cons.mp h with rfl | h
      · exact (List.prefix_append _ _).isInfix
      · rw [← List.append_assoc]
        exact (ih h).trans (List.suffix_append _ _).isInfix

theorem infix_of_mem_splitOn {s piece : Str} {x : Char} (h : piece ∈ s.splitOn x) :
    piece <:+: s := by
  have hinfix := infix_intercalate [x] h
  rwa [List.intercalate_splitOn] at hinfix

theorem mem_of_mem_splitOn {s piece : Str} {x c : Char} (hpiece : piece ∈ s.splitOn x)
    (hc : c ∈ piece) : c ∈ s :=
  (infix_of_mem_splitOn hpiece).subset hc

theorem trim_isInfix (s : Str) : trim s <:+: s := by
  have hdrop : s.dropWhile isWhitespace <:+ s := List.dropWhile_suffix _
  have htrim : trim s <+: s.dropWhile isWhitespace := List.rdropWhile_prefix _ _
  exact htrim.isInfix.trans hdrop.isInfix

end Lines

end BarebonesProxy.RustStrings
