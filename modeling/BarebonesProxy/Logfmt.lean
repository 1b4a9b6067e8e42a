import BarebonesProxy.QuotedText
import Mathlib.Data.List.TakeWhile

set_option autoImplicit false

/-!
# Lines of key and value pairs

The logfmt grammar: pairs `key=value` with spaces between them, where a value with spaces or
quotes in it is quoted. Writing pairs without quoting is undone by reading exactly when no
value needs quotes.
-/
namespace BarebonesProxy.Logfmt
open QuotedText

abbrev Pair := List Char × List Char

def isKeyChar (c : Char) : Bool := 32 < c.toNat && c != '=' && c != '"'

def isValueChar (c : Char) : Bool := 32 < c.toNat && c != '"'

def readValue : List Char → Option (List Char × List Char)
  | '"' :: quoted => readQuoted quoted
  | s => some (s.takeWhile isValueChar, s.dropWhile isValueChar)

def readPair (s : List Char) : Option (Pair × List Char) :=
  match s.takeWhile isKeyChar, s.dropWhile isKeyChar with
  | c :: key, '=' :: rest => (readValue rest).map fun x => ((c :: key, x.1), x.2)
  | _, _ => none

/-- The pairs of a line; each round reads one, so the length of the line is enough fuel. -/
def decodeFrom : ℕ → List Char → Option (List Pair)
  | 0, _ => none
  | fuel + 1, s =>
    match s.dropWhile (· == ' ') with
    | [] => some []
    | c :: rest =>
      (readPair (c :: rest)).bind fun x =>
        if x.2 = [] ∨ x.2.head? = some ' ' then (decodeFrom fuel x.2).map (x.1 :: ·) else none

def decode (line : List Char) : Option (List Pair) := decodeFrom (line.length + 1) line

/-- A pair as it is written without quotes. -/
def pairText (p : Pair) : List Char := p.1 ++ '=' :: p.2

/-- The pairs with a space in front of each. -/
def pairsText (pairs : List Pair) : List Char := pairs.flatMap fun p => ' ' :: pairText p

/-- A value that needs no quotes. -/
def BareValue (value : List Char) : Prop := ∀ c ∈ value, isValueChar c = true

structure IsBare (p : Pair) : Prop where
  key_ne : p.1 ≠ []
  key : ∀ c ∈ p.1, isKeyChar c = true
  value : BareValue p.2

theorem bareValue_append {s t : List Char} (hs : BareValue s) (ht : BareValue t) :
    BareValue (s ++ t) :=
  List.forall_mem_append.mpr ⟨hs, ht⟩

def isKey (key : List Char) : Bool := !key.isEmpty && key.all isKeyChar

theorem isBare_iff {p : Pair} (hkey : isKey p.1 = true) : IsBare p ↔ BareValue p.2 := by
  unfold isKey at hkey
  rw [Bool.and_eq_true, List.all_eq_true] at hkey
  constructor
  · exact IsBare.value
  · intro hvalue
    refine ⟨?_, hkey.2, hvalue⟩
    intro hnil
    rw [hnil] at hkey
    cases hkey.1

section Reading

/-- A pair ends at a space or with the line. -/
def ValueOver (left : List Char) : Prop := left = [] ∨ left.head? = some ' '

theorem pairsText_valueOver (pairs : List Pair) : ValueOver (pairsText pairs) := by
  cases pairs with
  | nil => exact .inl rfl
  | cons p pairs => exact .inr rfl

theorem span_value {value left : List Char} (h : BareValue value)
    (hleft : ValueOver left) :
    (value ++ left).takeWhile isValueChar = value ∧
      (value ++ left).dropWhile isValueChar = left := by
  rw [List.takeWhile_append_of_pos h, List.dropWhile_append_of_pos h]
  cases left with
  | nil => exact ⟨List.append_nil value, rfl⟩
  | cons c left =>
    have hc : c = ' ' := by
      rcases hleft with hnil | hspace
      · cases hnil
      · exact Option.some.inj hspace
    subst hc
    exact ⟨List.append_nil value, rfl⟩

theorem readValue_bare {value left : List Char} (h : BareValue value)
    (hleft : ValueOver left) : readValue (value ++ left) = some (value, left) := by
  obtain ⟨htake, hdrop⟩ := span_value h hleft
  unfold readValue
  split
  · next quoted hquoted =>
    -- the first character would be a quote
    cases value with
    | nil =>
      rcases hleft with rfl | hspace
      · cases hquoted
      · rw [List.nil_append] at hquoted
        rw [hquoted] at hspace
        cases hspace
    | cons c value =>
      cases hquoted
      cases h '"' (.head _)
  · rw [htake, hdrop]

theorem readPair_bare {p : Pair} (h : IsBare p) {left : List Char} (hleft : ValueOver left) :
    readPair (pairText p ++ left) = some (p, left) := by
  obtain ⟨key, value⟩ := p
  obtain ⟨hne, hkey, hvalue⟩ := h
  have hstop : ¬ isKeyChar '=' = true := by decide
  have htext : pairText (key, value) ++ left = key ++ '=' :: (value ++ left) := by
    simp [pairText]
  unfold readPair
  rw [htext, List.takeWhile_append_of_pos hkey, List.dropWhile_append_of_pos hkey,
    List.takeWhile_cons_of_neg hstop, List.dropWhile_cons_of_neg hstop, List.append_nil]
  cases key with
  | nil => exact absurd rfl hne
  | cons c key =>
    change (readValue (value ++ left)).map _ = _
    rw [readValue_bare hvalue hleft]
    rfl

theorem decodeFrom_space (fuel : ℕ) (s : List Char) :
    decodeFrom fuel (' ' :: s) = decodeFrom fuel s := by
  cases fuel with
  | zero => rfl
  | succ fuel => rfl

theorem decodeFrom_cons {c : Char} (hc : c ≠ ' ') (fuel : ℕ) (rest : List Char) :
    decodeFrom (fuel + 1) (c :: rest) = (readPair (c :: rest)).bind fun x =>
      if x.2 = [] ∨ x.2.head? = some ' ' then (decodeFrom fuel x.2).map (x.1 :: ·) else none := by
  have hskip : (c :: rest).dropWhile (· == ' ') = c :: rest :=
    List.dropWhile_cons_of_neg (by simpa using hc)
  rw [decodeFrom, hskip]

theorem decodeFrom_bare {pairs : List Pair} (h : ∀ p ∈ pairs, IsBare p) {fuel : ℕ}
    (hfuel : pairs.length < fuel) : decodeFrom fuel (pairsText pairs) = some pairs := by
  induction pairs generalizing fuel with
  | nil =>
    cases fuel with
    | zero => cases hfuel
    | succ fuel => rfl
  | cons p pairs ih =>
    cases fuel with
    | zero => cases hfuel
    | succ fuel =>
      obtain ⟨hp, hpairs⟩ := List.forall_mem_cons.mp h
      have hends := pairsText_valueOver pairs
      have hread := readPair_bare hp hends
      obtain ⟨c, key, hkey⟩ := List.exists_cons_of_ne_nil hp.key_ne
      have hc : c ≠ ' ' := by
        rintro rfl
        cases hp.key ' ' (hkey ▸ .head _)
      have htext : pairText p ++ pairsText pairs = c :: (key ++ '=' :: p.2 ++ pairsText pairs) := by
        rw [pairText, hkey]
        rfl
      change decodeFrom (fuel + 1) (' ' :: (pairText p ++ pairsText pairs)) = _
      rw [decodeFrom_space, htext, decodeFrom_cons hc, ← htext, hread, Option.bind_some]
      refine (if_pos hends).trans ?_
      rw [ih hpairs (Nat.lt_of_succ_lt_succ hfuel)]
      rfl

end Reading

section Lengths

theorem readValue_length {s value left : List Char} (h : readValue s = some (value, left)) :
    value.length + left.length ≤ s.length ∧
      (value.length + left.length = s.length → BareValue value) := by
  unfold readValue at h
  split at h
  · next quoted =>
    obtain ⟨raw, rfl, hle, -⟩ := readQuoted_reads h
    simp only [List.length_cons, List.length_append]
    exact ⟨by omega, fun heq => absurd heq (by omega)⟩
  · cases h
    have hlength := congrArg List.length (List.takeWhile_append_dropWhile (p := isValueChar) (l := s))
    rw [List.length_append] at hlength
    exact ⟨le_of_eq hlength, fun _ c hc => List.mem_takeWhile_imp hc⟩

/-- A pair takes the length of its text at least, and no more only if it needs no quotes. -/
theorem readPair_length {s left : List Char} {p : Pair} (h : readPair s = some (p, left)) :
    (pairText p).length + left.length ≤ s.length ∧
      ((pairText p).length + left.length = s.length → IsBare p) := by
  unfold readPair at h
  split at h
  · next c key rest hkey hrest =>
    obtain ⟨⟨value, left'⟩, hvalue, heq⟩ := Option.map_eq_some_iff.mp h
    cases heq
    obtain ⟨hle, hsame⟩ := readValue_length hvalue
    dsimp only
    have hlength := congrArg List.length (List.takeWhile_append_dropWhile (p := isKeyChar) (l := s))
    rw [hkey, hrest, List.length_append, List.length_cons (a := '=')] at hlength
    have htext : (pairText (c :: key, value)).length = (c :: key).length + (value.length + 1) := by
      unfold pairText
      rw [List.length_append, List.length_cons (a := '=')]
    rw [htext]
    refine ⟨by omega, fun heq => ⟨List.cons_ne_nil c key, ?_, hsame (by omega)⟩⟩
    intro d hd
    exact List.mem_takeWhile_imp (hkey ▸ hd)
  · cases h

/-- A line is no shorter than its pairs written without quotes, and as long only if none of
them needs quotes. -/
theorem decodeFrom_length {fuel : ℕ} {s : List Char} {pairs : List Pair} (hs : ValueOver s)
    (h : decodeFrom fuel s = some pairs) :
    (pairsText pairs).length ≤ s.length ∧
      ((pairsText pairs).length = s.length → ∀ p ∈ pairs, IsBare p) := by
  induction fuel generalizing s pairs with
  | zero => cases h
  | succ fuel ih =>
    have hskip := congrArg List.length (List.takeWhile_append_dropWhile (p := (· == ' ')) (l := s))
    rw [List.length_append] at hskip
    rw [decodeFrom] at h
    split at h
    · cases h
      exact ⟨Nat.zero_le _, fun _ => nofun⟩
    · next c rest hrest =>
      obtain ⟨⟨p, left⟩, hread, h⟩ := Option.bind_eq_some_iff.mp h
      dsimp only at h
      split at h
      · next hends =>
        obtain ⟨others, hothers, rfl⟩ := Option.map_eq_some_iff.mp h
        obtain ⟨hle, hbare⟩ := readPair_length hread
        obtain ⟨hle', hbare'⟩ := ih hends hothers
        -- the space in front of the pair is skipped
        have hspace : 0 < (s.takeWhile (· == ' ')).length := by
          rcases hs with rfl | hhead
          · cases hrest
          · obtain ⟨s', rfl⟩ := List.head?_eq_some_iff.mp hhead
            exact Nat.succ_pos _
        have htext : (pairsText (p :: others)).length =
            1 + (pairText p).length + (pairsText others).length := by
          simp only [pairsText, List.flatMap_cons, List.length_append, List.length_cons]
          omega
        rw [hrest] at hskip
        rw [htext]
        refine ⟨by omega, fun heq => List.forall_mem_cons.mpr ⟨hbare (by omega), hbare' (by omega)⟩⟩
      · cases h

theorem length_pairsText (pairs : List Pair) : 2 * pairs.length ≤ (pairsText pairs).length := by
  induction pairs with
  | nil => exact le_rfl
  | cons p pairs ih =>
    simp only [pairsText, List.flatMap_cons, List.length_append, List.length_cons, pairText] at ih ⊢
    omega

end Lengths

/-- Pairs are read back from their text exactly when none of them needs quotes. -/
theorem decode_pairs_iff (p : Pair) (pairs : List Pair) :
    decode (pairText p ++ pairsText pairs) = some (p :: pairs) ↔ ∀ q ∈ p :: pairs, IsBare q := by
  have htext : pairsText (p :: pairs) = ' ' :: (pairText p ++ pairsText pairs) := rfl
  unfold decode
  rw [← decodeFrom_space, ← htext]
  constructor
  · intro h
    exact (decodeFrom_length (pairsText_valueOver _) h).2 rfl
  · intro h
    refine decodeFrom_bare h ?_
    have hlength := length_pairsText (p :: pairs)
    rw [htext, List.length_cons (a := ' ')] at hlength
    rw [List.length_cons] at hlength ⊢
    omega

end BarebonesProxy.Logfmt
