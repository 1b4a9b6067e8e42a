import Mathlib.Algebra.Ring.Nat
import Mathlib.Data.List.DropRight
import Mathlib.Data.List.Infix
import Mathlib.Tactic.Common

set_option autoImplicit false

/-!
# Strings of the Rust standard library

A `str` is the list of its `char`s. Each function follows the documented
behaviour of the method of the same name. Case mapping needs the Unicode
tables, so it is a parameter known on ASCII text only.
-/
namespace BarebonesProxy.RustStrings

abbrev Str := List Char

def startsWith (s p : Str) : Bool := p.isPrefixOf s

def endsWith (s p : Str) : Bool := p.isSuffixOf s

def contains (s p : Str) : Bool := s.tails.any p.isPrefixOf

def stripPrefix (s p : Str) : Option Str :=
  if startsWith s p then some (s.drop p.length) else none

def split (s : Str) (c : Char) : List Str := s.splitOn c

def splitFirst (s : Str) (c : Char) : Str := s.takeWhile (· != c)

/-- `char::is_whitespace`: the code points with the Unicode property White_Space. -/
def isWhitespace (c : Char) : Bool :=
  let n := c.toNat
  (9 ≤ n && n ≤ 13) || n == 0x20 || n == 0x85 || n == 0xA0 || n == 0x1680 ||
    (0x2000 ≤ n && n ≤ 0x200A) || n == 0x2028 || n == 0x2029 || n == 0x202F ||
    n == 0x205F || n == 0x3000

def trim (s : Str) : Str := (s.dropWhile isWhitespace).rdropWhile isWhitespace

def trimEndMatches (s : Str) (c : Char) : Str := s.rdropWhile (· == c)

def splitWhitespace (s : Str) : List Str := (s.splitOnP isWhitespace).filter (· ≠ [])

/-- `lines`: a line ends at `\n` or `\r\n`; an empty last piece is no line. -/
def lines (s : Str) : List Str :=
  let pieces := s.splitOn '\n'
  let closed := pieces.dropLast.map fun l => if endsWith l ['\r'] then l.dropLast else l
  match pieces.getLast? with
  | some (c :: l) => closed ++ [c :: l]
  | _ => closed

def isAscii (c : Char) : Bool := c.toNat < 128

def isAsciiDigit (c : Char) : Bool := '0' ≤ c && c ≤ '9'

def toAsciiLowercase (c : Char) : Char :=
  if 'A' ≤ c && c ≤ 'Z' then Char.ofNat (c.toNat + 32) else c

def eqIgnoreAsciiCase (s t : Str) : Bool := s.map toAsciiLowercase == t.map toAsciiLowercase

def digitsValue (s : Str) : ℕ := s.foldl (fun n c => 10 * n + (c.toNat - 48)) 0

/-- `parse::<uN>` for an unsigned type with the given largest value: decimal
digits after at most one plus sign. -/
def parseUnsigned (largest : ℕ) (s : Str) : Option ℕ :=
  let digits := match s with
    | '+' :: rest => rest
    | _ => s
  if digits = [] then none
  else if digits.all isAsciiDigit && digitsValue digits ≤ largest then some (digitsValue digits)
  else none

def u16Max : ℕ := 2 ^ 16 - 1
def u64Max : ℕ := 2 ^ 64 - 1
def usizeMax : ℕ := 2 ^ 64 - 1

def natToString (n : ℕ) : Str := Nat.toDigits 10 n

/-- `str::to_lowercase`. Its tables are not reproduced; what the code relies on is
its behaviour on ASCII text. A question mark is neither cased nor ignored by the casing
rules, so the texts on its sides are mapped independently. -/
class CaseMapping where
  toLowercase : Str → Str
  toLowercase_ascii : ∀ s : Str, s.all isAscii = true → toLowercase s = s.map toAsciiLowercase
  toLowercase_question : ∀ s t : Str,
    toLowercase (s ++ '?' :: t) = toLowercase s ++ '?' :: toLowercase t

export CaseMapping (toLowercase toLowercase_ascii toLowercase_question)

@[reducible] def asciiCaseMapping : CaseMapping where
  toLowercase s := s.map toAsciiLowercase
  toLowercase_ascii _ _ := rfl
  toLowercase_question _ _ := List.map_append

/-- A literal is taken as the list of its characters, without decoding its bytes. -/
theorem of_chars (P : Str → Prop) {chars : Str} (h : P chars) : P (String.ofList chars).toList := by
  rw [String.toList_ofList]
  exact h

section Searching
variable {s p : Str}

theorem contains_iff : contains s p = true ↔ p <:+: s := by
  unfold contains
  rw [List.any_eq_true, List.infix_iff_prefix_suffix]
  constructor
  · rintro ⟨t, ht, hp⟩
    exact ⟨t, List.isPrefixOf_iff_prefix.mp hp, (List.mem_tails t s).mp ht⟩
  · rintro ⟨t, hp, ht⟩
    exact ⟨t, (List.mem_tails t s).mpr ht, List.isPrefixOf_iff_prefix.mpr hp⟩

theorem contains_singleton {c : Char} : contains s [c] = true ↔ c ∈ s := by
  rw [contains_iff, List.singleton_infix_iff]

end Searching

end BarebonesProxy.RustStrings

namespace BarebonesProxy.ListCrates

scoped instance caseMapping : RustStrings.CaseMapping := RustStrings.asciiCaseMapping

end BarebonesProxy.ListCrates
