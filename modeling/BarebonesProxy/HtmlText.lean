import Mathlib.Data.List.Basic
import Mathlib.Algebra.Ring.Nat

set_option autoImplicit false

/-!
# Tags of an HTML text

A scanner for the markup of a page: a tag, an end tag or a declaration goes from `<` to the
next `>` outside quotes, everything else is text. Text that is escaped has no markup.
-/
namespace BarebonesProxy.HtmlText

inductive State where
  | data
  | opened
  | tag (text : List Char)
  | quoted (mark : Char) (text : List Char)
deriving DecidableEq

/-- After `<`; before anything else it is text. -/
def opensTag (c : Char) : Bool := c.isAlpha || "/!?".toList.contains c

def next : State → Char → State
  | .data, c => if c = '<' then .opened else .data
  | .opened, c => if opensTag c then .tag ['<', c] else if c = '<' then .opened else .data
  | .tag text, c =>
    if c = '>' then .data
    else if c = '"' ∨ c = '\x27' then .quoted c (text ++ [c])
    else .tag (text ++ [c])
  | .quoted mark text, c =>
    if c = mark then .tag (text ++ [c]) else .quoted mark (text ++ [c])

def emit : State → Char → List (List Char)
  | .tag text, c => if c = '>' then [text ++ [c]] else []
  | _, _ => []

def run (st : State) (s : List Char) : State := s.foldl next st

def tagsFrom : State → List Char → List (List Char)
  | _, [] => []
  | st, c :: s => emit st c ++ tagsFrom (next st c) s

def tags (s : List Char) : List (List Char) := tagsFrom .data s

def escapeChar (c : Char) : List Char :=
  if c = '&' then "&amp;".toList
  else if c = '<' then "&lt;".toList
  else if c = '>' then "&gt;".toList
  else [c]

/-- Escaping a text as the HTML serialisation does it. -/
def escapeText (s : List Char) : List Char := s.flatMap escapeChar

def isMarkup (c : Char) : Bool := c == '&' || c == '<' || c == '>'

theorem run_append (st : State) (s t : List Char) : run st (s ++ t) = run (run st s) t :=
  List.foldl_append

theorem run_append_data {s t : List Char} (hs : run .data s = .data) (ht : run .data t = .data) :
    run .data (s ++ t) = .data := by
  rw [run_append, hs, ht]

theorem tagsFrom_append (st : State) (s t : List Char) :
    tagsFrom st (s ++ t) = tagsFrom st s ++ tagsFrom (run st s) t := by
  induction s generalizing st with
  | nil => rfl
  | cons c s ih =>
    rw [List.cons_append, tagsFrom, ih, tagsFrom, List.append_assoc]
    rfl

theorem run_text {s : List Char} (h : ∀ c ∈ s, c ≠ '<') : run .data s = .data := by
  induction s with
  | nil => rfl
  | cons c s ih =>
    obtain ⟨hc, hs⟩ := List.forall_mem_cons.mp h
    have hnext : next .data c = .data := if_neg hc
    change run (next .data c) s = .data
    rw [hnext, ih hs]

theorem tags_text {s : List Char} (h : ∀ c ∈ s, c ≠ '<') : tags s = [] := by
  induction s with
  | nil => rfl
  | cons c s ih =>
    obtain ⟨hc, hs⟩ := List.forall_mem_cons.mp h
    have hnext : next .data c = .data := if_neg hc
    unfold tags
    rw [tagsFrom, hnext]
    exact ih hs

/-- What stands between two parts of a page adds its own tags, if each part ends outside one. -/
theorem tags_append {front middle : List Char} (hfront : run .data front = .data)
    (hmiddle : run .data middle = .data) (back : List Char) :
    tags (front ++ middle ++ back) = tags front ++ tags middle ++ tags back := by
  unfold tags
  rw [tagsFrom_append, tagsFrom_append, run_append, hfront, hmiddle]

theorem tags_text_between {front text : List Char} (hfront : run .data front = .data)
    (htext : ∀ c ∈ text, c ≠ '<') (back : List Char) :
    tags (front ++ text ++ back) = tags front ++ tags back := by
  rw [tags_append hfront (run_text htext), tags_text htext, List.append_nil]

example : tags "<a href=\"x>y\">1 < 2</a>".toList =
    ["<a href=\"x>y\">".toList, "</a>".toList] := by decide

theorem length_escapeChar (c : Char) :
    0 < (escapeChar c).length ∧ (isMarkup c = true → 1 < (escapeChar c).length) := by
  unfold escapeChar
  split
  · exact ⟨by decide, fun _ => by decide⟩
  · split
    · exact ⟨by decide, fun _ => by decide⟩
    · split
      · exact ⟨by decide, fun _ => by decide⟩
      · next hamp hless hgreater =>
        refine ⟨Nat.one_pos, fun hmarkup => ?_⟩
        unfold isMarkup at hmarkup
        simp only [Bool.or_eq_true, beq_iff_eq] at hmarkup
        obtain (h | h) | h := hmarkup
        · exact absurd h hamp
        · exact absurd h hless
        · exact absurd h hgreater

theorem length_escapeText (s : List Char) : s.length ≤ (escapeText s).length := by
  induction s with
  | nil => exact le_rfl
  | cons c s ih =>
    have hc := (length_escapeChar c).1
    unfold escapeText at ih ⊢
    rw [List.flatMap_cons, List.length_append, List.length_cons]
    omega

/-- A text is its own escape exactly when it has nothing to escape. -/
theorem escapeText_eq_iff (s : List Char) : escapeText s = s ↔ ∀ c ∈ s, isMarkup c = false := by
  induction s with
  | nil => exact ⟨fun _ => nofun, fun _ => rfl⟩
  | cons c s ih =>
    have hcons : escapeText (c :: s) = escapeChar c ++ escapeText s := List.flatMap_cons
    rw [hcons, List.forall_mem_cons, ← ih]
    by_cases hc : isMarkup c = true
    · -- the escape of the first character alone makes the text longer
      have hlong := (length_escapeChar c).2 hc
      have hrest := length_escapeText s
      constructor
      · intro h
        have hlength := congrArg List.length h
        rw [List.length_append, List.length_cons] at hlength
        omega
      · rintro ⟨hplain, -⟩
        rw [hc] at hplain
        cases hplain
    · have hsame : escapeChar c = [c] := by
        unfold isMarkup at hc
        simp only [Bool.or_eq_true, beq_iff_eq, not_or] at hc
        unfold escapeChar
        rw [if_neg hc.1.1, if_neg hc.1.2, if_neg hc.2]
      rw [hsame, List.singleton_append, List.cons_inj_right, Bool.eq_false_iff]
      exact ⟨fun h => ⟨hc, h⟩, fun h => h.2⟩

end BarebonesProxy.HtmlText
