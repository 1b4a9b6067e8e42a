import BarebonesProxy.QuotedText
import Mathlib.Data.List.TakeWhile

set_option autoImplicit false

/-!
# JSON texts

The grammar of RFC 8259 as a reader. A reader takes the unread text and gives what it read
with the text that is left. An object keeps its members in their order, and a number keeps
its text.
-/
namespace BarebonesProxy.JsonText
open QuotedText

inductive Json where
  | null
  | bool (value : Bool)
  | number (text : List Char)
  | string (text : List Char)
  | array (items : List Json)
  | object (members : List (List Char × Json))

abbrev Reader (α : Type) := List Char → Option (α × List Char)

section Numbers

def isDigit (c : Char) : Bool := 48 ≤ c.toNat && c.toNat ≤ 57

def readDigits : Reader (List Char) := fun s =>
  if (s.takeWhile isDigit).isEmpty then none else some (s.takeWhile isDigit, s.dropWhile isDigit)

def readInteger : Reader (List Char)
  | '0' :: rest => some (['0'], rest)
  | s => readDigits s

def readFraction : Reader (List Char)
  | '.' :: rest => (readDigits rest).map fun x => ('.' :: x.1, x.2)
  | s => some ([], s)

def isExponentMark (c : Char) : Bool := c == 'e' || c == 'E'

def readExponent : Reader (List Char)
  | [] => some ([], [])
  | mark :: rest =>
    if isExponentMark mark then
      match rest with
      | '+' :: digits => (readDigits digits).map fun x => (mark :: '+' :: x.1, x.2)
      | '-' :: digits => (readDigits digits).map fun x => (mark :: '-' :: x.1, x.2)
      | digits => (readDigits digits).map fun x => (mark :: x.1, x.2)
    else some ([], mark :: rest)

def readUnsigned : Reader (List Char) := fun s => do
  let (integer, s) ← readInteger s
  let (fraction, s) ← readFraction s
  let (exponent, s) ← readExponent s
  return (integer ++ fraction ++ exponent, s)

def readNumber : Reader (List Char)
  | '-' :: rest => (readUnsigned rest).map fun x => ('-' :: x.1, x.2)
  | s => readUnsigned s

end Numbers

section Values

def isBlank (c : Char) : Bool := c == ' ' || c == '\t' || c == '\n' || c == '\r'

def skipBlanks (s : List Char) : List Char := s.dropWhile isBlank

/-- Items with commas between them, up to the closing character. -/
def readList {α : Type} (item : Reader α) (close : Char) : ℕ → Reader (List α)
  | 0, _ => none
  | n + 1, s =>
    (item s).bind fun x =>
      match skipBlanks x.2 with
      | [] => none
      | c :: rest =>
        if c = ',' then (readList item close n rest).map fun y => (x.1 :: y.1, y.2)
        else if c = close then some ([x.1], rest)
        else none

/-- What stands between an opening character and the closing one. -/
def readEnclosed {α : Type} (item : Reader α) (close : Char) (fuel : ℕ) : Reader (List α) := fun s =>
  if (skipBlanks s).head? = some close then some ([], (skipBlanks s).tail)
  else readList item close fuel s

def readMember (value : Reader Json) : Reader (List Char × Json) := fun s =>
  match skipBlanks s with
  | '"' :: quoted =>
    (readQuoted quoted).bind fun x =>
      match skipBlanks x.2 with
      | ':' :: rest => (value rest).map fun y => ((x.1, y.1), y.2)
      | _ => none
  | _ => none

def readWord : Reader Json
  | 'n' :: 'u' :: 'l' :: 'l' :: rest => some (.null, rest)
  | 't' :: 'r' :: 'u' :: 'e' :: rest => some (.bool true, rest)
  | 'f' :: 'a' :: 'l' :: 's' :: 'e' :: rest => some (.bool false, rest)
  | _ => none

/-- The fuel bounds the depth and the number of items; the length of the text is enough. -/
def readValue : ℕ → Reader Json
  | 0, _ => none
  | fuel + 1, s =>
    match skipBlanks s with
    | [] => none
    | c :: rest =>
      if isDigit c || c == '-' then (readNumber (c :: rest)).map fun x => (.number x.1, x.2)
      else if c = '"' then (readQuoted rest).map fun x => (.string x.1, x.2)
      else if c = '[' then
        (readEnclosed (readValue fuel) ']' fuel rest).map fun x => (.array x.1, x.2)
      else if c = '\x7b' then
        (readEnclosed (readMember (readValue fuel)) '\x7d' fuel rest).map fun x => (.object x.1, x.2)
      else readWord (c :: rest)

def parse (s : List Char) : Option Json :=
  (readValue (s.length + 1) s).bind fun x => if (skipBlanks x.2).isEmpty then some x.1 else none

end Values

section Reading

/-- A run of digits that does not begin with zero is read as far as it goes. -/
theorem readUnsigned_digits {d : Char} {digits : List Char} (hd : d ≠ '0')
    (hdigits : ∀ c ∈ d :: digits, isDigit c = true) (left : List Char) :
    readUnsigned (d :: digits ++ ',' :: left) = some (d :: digits, ',' :: left) := by
  have hstop : ¬ isDigit ',' = true := by decide
  have htake : (d :: digits ++ ',' :: left).takeWhile isDigit = d :: digits := by
    rw [List.takeWhile_append_of_pos hdigits, List.takeWhile_cons_of_neg hstop, List.append_nil]
  have hdrop : (d :: digits ++ ',' :: left).dropWhile isDigit = ',' :: left := by
    rw [List.dropWhile_append_of_pos hdigits, List.dropWhile_cons_of_neg hstop]
  have hread : readDigits (d :: digits ++ ',' :: left) = some (d :: digits, ',' :: left) := by
    unfold readDigits
    rw [htake, hdrop]
    rfl
  have hinteger : readInteger (d :: digits ++ ',' :: left) = some (d :: digits, ',' :: left) := by
    unfold readInteger
    split
    · next heq =>
      cases heq
      exact absurd rfl hd
    · exact hread
  unfold readUnsigned
  rw [hinteger]
  change some (d :: digits ++ [] ++ [], ',' :: left) = _
  rw [List.append_nil, List.append_nil]

theorem readValue_digits {d : Char} {digits : List Char} (hd : d ≠ '0')
    (hdigits : ∀ c ∈ d :: digits, isDigit c = true) (fuel : ℕ) (left : List Char) :
    readValue (fuel + 1) (d :: digits ++ ',' :: left) = some (.number (d :: digits), ',' :: left) := by
  have hdigit := hdigits d (.head _)
  have hblank : ¬ isBlank d = true := by
    intro hblank
    unfold isBlank at hblank
    simp only [Bool.or_eq_true, beq_iff_eq] at hblank
    obtain ((rfl | rfl) | rfl) | rfl := hblank
    all_goals cases hdigit
  have hnumber : readNumber (d :: digits ++ ',' :: left) = some (d :: digits, ',' :: left) := by
    unfold readNumber
    split
    · next heq =>
      cases heq
      cases hdigit
    · exact readUnsigned_digits hd hdigits left
  have hskip : skipBlanks (d :: digits ++ ',' :: left) = d :: (digits ++ ',' :: left) :=
    List.dropWhile_cons_of_neg hblank
  rw [readValue, hskip]
  dsimp only
  rw [hdigit, Bool.true_or, if_pos rfl, ← List.cons_append, hnumber]
  rfl

theorem readValue_quote (fuel : ℕ) (s : List Char) :
    readValue (fuel + 1) ('"' :: s) = (readQuoted s).map fun x => (.string x.1, x.2) := rfl

theorem readMember_plain (value : Reader Json) {key : List Char}
    (hkey : ∀ c ∈ key, isPlain c = true) (s : List Char) :
    readMember value ('"' :: (key ++ '"' :: ':' :: s)) =
      (value s).map fun y => ((key, y.1), y.2) := by
  change (readQuoted (key ++ '"' :: ':' :: s)).bind _ = _
  rw [readQuoted_plain hkey]
  rfl

theorem readMember_string {key text : List Char} (hkey : ∀ c ∈ key, isPlain c = true)
    (htext : ∀ c ∈ text, isPlain c = true) (fuel : ℕ) (left : List Char) :
    readMember (readValue (fuel + 1)) ('"' :: (key ++ '"' :: ':' :: '"' :: (text ++ '"' :: left))) =
      some ((key, .string text), left) := by
  rw [readMember_plain _ hkey, readValue_quote, readQuoted_plain htext]
  rfl

theorem readMember_digits {key : List Char} (hkey : ∀ c ∈ key, isPlain c = true) {d : Char}
    {digits : List Char} (hd : d ≠ '0') (hdigits : ∀ c ∈ d :: digits, isDigit c = true) (fuel : ℕ)
    (left : List Char) :
    readMember (readValue (fuel + 1)) ('"' :: (key ++ '"' :: ':' :: (d :: digits ++ ',' :: left))) =
      some ((key, .number (d :: digits)), ',' :: left) := by
  rw [readMember_plain _ hkey, readValue_digits hd hdigits]
  rfl

/-- A member whose string is read back needs no escapes, if no quote comes after it. -/
theorem plain_of_readMember {key text left rest : List Char} (hkey : ∀ c ∈ key, isPlain c = true)
    (hleft : '"' ∉ left) {fuel : ℕ}
    (h : readMember (readValue (fuel + 1)) ('"' :: (key ++ '"' :: ':' :: '"' :: (text ++ '"' :: left))) =
      some ((key, .string text), rest)) : ∀ c ∈ text, isPlain c = true := by
  rw [readMember_plain _ hkey, readValue_quote] at h
  obtain ⟨y, hy, heq⟩ := Option.map_eq_some_iff.mp h
  obtain ⟨⟨read, left'⟩, hread, rfl⟩ := Option.map_eq_some_iff.mp hy
  cases heq
  exact plain_of_readQuoted hleft hread

theorem parse_object (rest : List Char) :
    parse ('\x7b' :: '"' :: rest) =
      (readList (readMember (readValue (rest.length + 2))) '\x7d' (rest.length + 2) ('"' :: rest)).bind
        fun x => if (skipBlanks x.2).isEmpty then some (.object x.1) else none := by
  change ((readList (readMember (readValue (rest.length + 2))) '\x7d' (rest.length + 2)
    ('"' :: rest)).map fun x => (Json.object x.1, x.2)).bind _ = _
  rw [Option.bind_map]
  rfl

theorem readList_comma {α : Type} {item : Reader α} {close : Char} {s rest : List Char} {x : α}
    (h : item s = some (x, ',' :: rest)) (n : ℕ) :
    readList item close (n + 1) s =
      (readList item close n rest).map fun y => (x :: y.1, y.2) := by
  rw [readList, h]
  rfl

theorem readList_close {α : Type} {item : Reader α} {close : Char} {s rest : List Char} {x : α}
    (hclose : close ≠ ',') (hblank : isBlank close = false) (h : item s = some (x, close :: rest))
    (n : ℕ) : readList item close (n + 1) s = some ([x], rest) := by
  have hskip : skipBlanks (close :: rest) = close :: rest :=
    List.dropWhile_cons_of_neg (by rw [hblank]; decide)
  rw [readList, h, Option.bind_some, hskip]
  dsimp only
  rw [if_neg hclose, if_pos rfl]

/-- The first item of a list that was read is the item that was read first. -/
theorem readList_head {α : Type} {item : Reader α} {close : Char} {n : ℕ} {s left : List Char}
    {x : α} {xs : List α} (h : readList item close n s = some (x :: xs, left)) :
    ∃ rest, item s = some (x, rest) := by
  cases n with
  | zero => cases h
  | succ n =>
    rw [readList] at h
    obtain ⟨⟨first, rest⟩, hitem, h⟩ := Option.bind_eq_some_iff.mp h
    refine ⟨rest, ?_⟩
    split at h
    · cases h
    · split at h
      · obtain ⟨y, -, heq⟩ := Option.map_eq_some_iff.mp h
        cases heq
        exact hitem
      · split at h
        · cases h
          exact hitem
        · cases h

end Reading

end BarebonesProxy.JsonText
