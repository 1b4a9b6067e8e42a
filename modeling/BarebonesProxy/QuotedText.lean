import Mathlib.Data.List.Basic
import Mathlib.Algebra.Ring.Nat

set_option autoImplicit false

/-!
# Quoted texts

A text between quotes, with the escapes of JSON strings. What is read is never longer than
what stands between the quotes, and of the same length only if nothing was escaped.
-/
namespace BarebonesProxy.QuotedText

/-- A character of the text itself, or one code unit of UTF-16 from an escape. -/
inductive Piece where
  | char (c : Char)
  | unit (n : ℕ)

def hexValue (c : Char) : Option ℕ :=
  let n := c.toNat
  if 48 ≤ n ∧ n ≤ 57 then some (n - 48)
  else if 97 ≤ n ∧ n ≤ 102 then some (n - 87)
  else if 65 ≤ n ∧ n ≤ 70 then some (n - 55)
  else none

def hexUnit (a b c d : Char) : Option ℕ := do
  let a ← hexValue a
  let b ← hexValue b
  let c ← hexValue c
  let d ← hexValue d
  return ((a * 16 + b) * 16 + c) * 16 + d

def escapeOf (c : Char) : Option Char :=
  if c = '"' then some '"'
  else if c = '\\' then some '\\'
  else if c = '/' then some '/'
  else if c = 'b' then some '\x08'
  else if c = 'f' then some '\x0c'
  else if c = 'n' then some '\n'
  else if c = 'r' then some '\r'
  else if c = 't' then some '\t'
  else none

/-- A character that stands for itself between quotes. -/
def isPlain (c : Char) : Bool := 32 ≤ c.toNat && c != '"' && c != '\\'

/-- The pieces up to the closing quote, and the text after it. -/
def pieces : List Char → Option (List Piece × List Char)
  | [] => none
  | '"' :: rest => some ([], rest)
  | '\\' :: 'u' :: a :: b :: c :: d :: rest => do
    let n ← hexUnit a b c d
    let (ps, left) ← pieces rest
    return (.unit n :: ps, left)
  | '\\' :: c :: rest => do
    let e ← escapeOf c
    let (ps, left) ← pieces rest
    return (.char e :: ps, left)
  | c :: rest =>
    if isPlain c then do
      let (ps, left) ← pieces rest
      return (.char c :: ps, left)
    else none

/-- A code unit above the basic plane needs its other half. -/
def join : List Piece → Option (List Char)
  | [] => some []
  | .char c :: ps => (join ps).map (c :: ·)
  | .unit high :: .unit low :: ps =>
    if 0xD800 ≤ high ∧ high < 0xDC00 ∧ 0xDC00 ≤ low ∧ low < 0xE000 then
      (join ps).map (Char.ofNat (0x10000 + (high - 0xD800) * 0x400 + (low - 0xDC00)) :: ·)
    else if 0xD800 ≤ high ∧ high < 0xE000 then none
    else (join (.unit low :: ps)).map (Char.ofNat high :: ·)
  | .unit n :: ps =>
    if 0xD800 ≤ n ∧ n < 0xE000 then none else (join ps).map (Char.ofNat n :: ·)

/-- A quoted text without its opening quote: what it stands for, and the text after it. -/
def readQuoted (s : List Char) : Option (List Char × List Char) := do
  let (ps, left) ← pieces s
  let text ← join ps
  return (text, left)

section Plain

theorem pieces_plain_cons {c : Char} (hc : isPlain c = true) (rest : List Char) :
    pieces (c :: rest) = (pieces rest).bind fun x => some (.char c :: x.1, x.2) := by
  rw [pieces.eq_def]
  split
  · next h => cases h
  · next h =>
    cases h
    cases hc
  · next h =>
    cases h
    cases hc
  · next h =>
    cases h
    cases hc
  · next h =>
    cases h
    rw [if_pos hc]
    rfl

theorem pieces_plain {text : List Char} (h : ∀ c ∈ text, isPlain c = true) (left : List Char) :
    pieces (text ++ '"' :: left) = some (text.map .char, left) := by
  induction text with
  | nil => rfl
  | cons c text ih =>
    obtain ⟨hc, htext⟩ := List.forall_mem_cons.mp h
    rw [List.cons_append, pieces_plain_cons hc, ih htext]
    rfl

theorem join_chars (text : List Char) : join (text.map .char) = some text := by
  induction text with
  | nil => rfl
  | cons c text ih =>
    rw [List.map_cons, join, ih]
    rfl

/-- A text without quotes, backslashes and control characters stands for itself. -/
theorem readQuoted_plain {text : List Char} (h : ∀ c ∈ text, isPlain c = true)
    (left : List Char) : readQuoted (text ++ '"' :: left) = some (text, left) := by
  unfold readQuoted
  rw [pieces_plain h]
  simp only [Option.bind_eq_bind, Option.bind_some, join_chars]
  rfl

end Plain

section Lengths

/-- What was read, with the text it was read from: no longer, and equal to it if as long. -/
def Reads (read : List Piece) (raw : List Char) : Prop :=
  read.length ≤ raw.length ∧
    (read.length = raw.length → read = raw.map .char ∧ ∀ c ∈ raw, isPlain c = true)

theorem Reads.escape {read : List Piece} {raw : List Char} (h : Reads read raw) (p : Piece)
    {mark : List Char} (hmark : 1 < mark.length) : Reads (p :: read) (mark ++ raw) := by
  have := h.1
  unfold Reads
  rw [List.length_cons, List.length_append]
  exact ⟨by omega, fun heq => absurd heq (by omega)⟩

theorem Reads.char {read : List Piece} {raw : List Char} (h : Reads read raw) {c : Char}
    (hc : isPlain c = true) : Reads (.char c :: read) (c :: raw) := by
  refine ⟨Nat.succ_le_succ h.1, fun heq => ?_⟩
  obtain ⟨hread, hplain⟩ := h.2 (Nat.succ.inj heq)
  exact ⟨congrArg (Piece.char c :: ·) hread, List.forall_mem_cons.mpr ⟨hc, hplain⟩⟩

theorem pieces_reads {s left : List Char} {read : List Piece} (h : pieces s = some (read, left)) :
    ∃ raw, s = raw ++ '"' :: left ∧ Reads read raw := by
  fun_induction pieces s generalizing read left with
  | case1 => cases h
  | case2 rest =>
    cases h
    exact ⟨[], rfl, le_rfl, fun _ => ⟨rfl, nofun⟩⟩
  | case3 a b c d rest ih =>
    simp only [Option.bind_eq_bind, Option.bind_eq_some_iff] at h
    obtain ⟨n, -, ⟨ps, left'⟩, hps, h⟩ := h
    cases h
    obtain ⟨raw, rfl, hreads⟩ := ih hps
    exact ⟨['\\', 'u', a, b, c, d] ++ raw, rfl, hreads.escape _ (Nat.le_add_left 2 _)⟩
  | case4 c rest _ ih =>
    simp only [Option.bind_eq_bind, Option.bind_eq_some_iff] at h
    obtain ⟨e, -, ⟨ps, left'⟩, hps, h⟩ := h
    cases h
    obtain ⟨raw, rfl, hreads⟩ := ih hps
    exact ⟨['\\', c] ++ raw, rfl, hreads.escape _ (Nat.le_add_left 2 _)⟩
  | case5 c rest _ _ _ hc ih =>
    simp only [Option.bind_eq_bind, Option.bind_eq_some_iff] at h
    obtain ⟨⟨ps, left'⟩, hps, h⟩ := h
    cases h
    obtain ⟨raw, rfl, hreads⟩ := ih hps
    exact ⟨c :: raw, rfl, hreads.char hc⟩
  | case6 => cases h

theorem join_length {ps : List Piece} {text : List Char} (h : join ps = some text) :
    text.length ≤ ps.length := by
  fun_induction join ps generalizing text with
  | case1 =>
    cases h
    exact le_rfl
  | case2 c ps ih =>
    obtain ⟨text', htext, rfl⟩ := Option.map_eq_some_iff.mp h
    exact Nat.succ_le_succ (ih htext)
  | case3 high low ps _ ih =>
    obtain ⟨text', htext, rfl⟩ := Option.map_eq_some_iff.mp h
    exact Nat.le_succ_of_le (Nat.succ_le_succ (ih htext))
  | case4 => cases h
  | case5 high low ps _ _ ih =>
    obtain ⟨text', htext, rfl⟩ := Option.map_eq_some_iff.mp h
    exact Nat.succ_le_succ (ih htext)
  | case6 => cases h
  | case7 n ps _ _ ih =>
    obtain ⟨text', htext, rfl⟩ := Option.map_eq_some_iff.mp h
    exact Nat.succ_le_succ (ih htext)

/-- A quoted text is no shorter than what it stands for, and if as long it is plain. -/
theorem readQuoted_reads {s text left : List Char} (h : readQuoted s = some (text, left)) :
    ∃ raw, s = raw ++ '"' :: left ∧ text.length ≤ raw.length ∧
      (text.length = raw.length → raw = text ∧ ∀ c ∈ text, isPlain c = true) := by
  unfold readQuoted at h
  simp only [Option.bind_eq_bind, Option.bind_eq_some_iff] at h
  obtain ⟨⟨ps, left'⟩, hps, text', htext, h⟩ := h
  cases h
  obtain ⟨raw, hs, hle, hsame⟩ := pieces_reads hps
  have hjoin : text.length ≤ ps.length := join_length htext
  refine ⟨raw, hs, le_trans hjoin hle, fun heq => ?_⟩
  obtain ⟨rfl, hplain⟩ := hsame (by omega)
  dsimp only at htext
  rw [join_chars] at htext
  cases htext
  exact ⟨rfl, hplain⟩

/-- A text that is read back from between its quotes needs no escapes, if no other quote
comes after it. -/
theorem plain_of_readQuoted {text left left' : List Char} (hleft : '"' ∉ left)
    (h : readQuoted (text ++ '"' :: left) = some (text, left')) :
    ∀ c ∈ text, isPlain c = true := by
  obtain ⟨raw, hs, hle, hsame⟩ := readQuoted_reads h
  rcases List.append_eq_append_iff.mp hs with ⟨more, rfl, hmore⟩ | ⟨more, rfl, -⟩
  · cases more with
    | nil => exact (hsame (by simp)).2
    | cons c more =>
      obtain ⟨-, hmore⟩ := List.cons.inj hmore
      exact absurd (hmore ▸ List.mem_append_right more List.mem_cons_self) hleft
  · rw [List.length_append] at hle hsame
    exact (hsame (by omega)).2

end Lengths

end BarebonesProxy.QuotedText
