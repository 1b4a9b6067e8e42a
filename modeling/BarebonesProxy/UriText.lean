import BarebonesProxy.RustStrings

set_option autoImplicit false

/-!
# The parts of a URI text

The scheme ends at the first colon. The authority stands between the first two slashes in a
row and the next delimiter. What follows its last colon is its port, if it is a number.
-/
namespace BarebonesProxy.UriText
open RustStrings

section Parts

def isDelimiter (c : Char) : Bool := c == '/' || c == '?' || c == '#'

def scheme (text : Str) : Str := text.takeWhile (· != ':')

def afterSlashes : Str → Str
  | '/' :: '/' :: rest => rest
  | _ :: rest => afterSlashes rest
  | [] => []

def authority (text : Str) : Str := (afterSlashes text).takeWhile (!isDelimiter ·)

def port (authority : Str) : Option ℕ :=
  if authority.contains ':' then parseUnsigned u16Max (authority.rtakeWhile (· != ':')) else none

def defaultPort (scheme : Str) : ℕ := if scheme = "https".toList then 443 else 80

/-- The port that a client of the URI connects to. -/
def effectivePort (text : Str) : ℕ := (port (authority text)).getD (defaultPort (scheme text))

end Parts

section Texts
variable {addr rest : Str}

theorem scheme_http (rest : Str) : scheme ("http://".toList ++ rest) = "http".toList := rfl

theorem scheme_https (rest : Str) : scheme ("https://".toList ++ rest) = "https".toList := rfl

theorem authority_http (rest : Str) :
    authority ("http://".toList ++ rest) = rest.takeWhile (!isDelimiter ·) := rfl

theorem takeWhile_append_of_exists {α : Type} {p : α → Bool} {xs : List α} (ys : List α)
    (h : ∃ c ∈ xs, p c = false) : (xs ++ ys).takeWhile p = xs.takeWhile p := by
  rw [List.takeWhile_append, if_neg]
  intro hlength
  obtain ⟨c, hc, hp⟩ := h
  have hwhole : xs.takeWhile p = xs := (List.takeWhile_prefix p).eq_of_length hlength
  rw [← hwhole] at hc
  rw [List.mem_takeWhile_imp hc] at hp
  cases hp

/-- What stands after an address belongs to the authority up to the next delimiter. -/
theorem authority_append (h : ∀ c ∈ addr, isDelimiter c = false) (rest : Str) :
    authority ("http://".toList ++ addr ++ rest) = addr ++ rest.takeWhile (!isDelimiter ·) := by
  rw [List.append_assoc, authority_http, List.takeWhile_append_of_pos]
  intro c hc
  rw [h c hc]
  rfl

theorem authority_append_iff (h : ∀ c ∈ addr, isDelimiter c = false) :
    authority ("http://".toList ++ addr ++ rest) = addr ↔
      ∀ c ∈ rest.head?, isDelimiter c = true := by
  rw [authority_append h, List.append_right_eq_self]
  cases rest with
  | nil => simp
  | cons c rest => cases hc : isDelimiter c <;> simp [hc]

end Texts

section Ports

theorem parseUnsigned_concat {c : Char} (hc : isAsciiDigit c = false) (largest : ℕ) (s : Str) :
    parseUnsigned largest (s ++ [c]) = none := by
  have hdigits : ∀ s : Str, (s ++ [c]).all isAsciiDigit = false := by simp [hc]
  unfold parseUnsigned
  dsimp only
  match s with
  | [] =>
    split
    · next heq =>
      obtain ⟨rfl, rfl⟩ := List.cons.inj heq
      rfl
    · simp [hc]
  | d :: s =>
    split
    · next rest heq =>
      have hrest : rest = s ++ [c] := (List.cons.inj heq).2.symm
      rw [hrest, hdigits s]
      simp
    · rw [hdigits (d :: s)]
      simp

/-- An authority that does not end with a digit names no port. -/
theorem port_concat {c : Char} (hc : isAsciiDigit c = false) (a : Str) :
    port (a ++ [c]) = none := by
  unfold port
  split
  · by_cases hcolon : c = ':'
    · rw [List.rtakeWhile_concat_neg _ _ _ (by simp [hcolon])]
      rfl
    · rw [List.rtakeWhile_concat_pos _ _ _ (by simpa using hcolon)]
      exact parseUnsigned_concat hc _ _
  · rfl

theorem port_append_eighty (a : Str) : port (a ++ ":80".toList) = some 80 := by
  have hlast : (a ++ ":80".toList).rtakeWhile (· != ':') = "80".toList := by
    simp [List.rtakeWhile]
  have hcolon : (a ++ ":80".toList).contains ':' = true := by simp
  rw [port, if_pos hcolon, hlast]
  decide

end Ports

end BarebonesProxy.UriText
