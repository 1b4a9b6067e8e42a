import BarebonesProxy.RustNet
import Mathlib.Data.Nat.Digits.Defs

set_option autoImplicit false

/-!
# The texts of numbers and addresses

`Display` writes a number without a sign and without a leading zero, and this text is the
only one of that kind. The reader of an IPv4 address takes such numbers only, so it reads
exactly what `Display` writes. `parse` of an integer type also takes a sign and zeros.
-/
namespace BarebonesProxy.RustNet
open RustStrings

section Digits

theorem digitsValue_concat (s : Str) (c : Char) :
    digitsValue (s ++ [c]) = 10 * digitsValue s + (c.toNat - 48) := List.foldl_concat ..

theorem isAsciiDigit_iff {c : Char} : isAsciiDigit c = true ↔ 48 ≤ c.toNat ∧ c.toNat ≤ 57 := by
  unfold isAsciiDigit
  rw [Bool.and_eq_true, decide_eq_true_iff, decide_eq_true_iff]
  exact Iff.rfl

/-- The digit that a character of a number stands for. -/
theorem digitChar_of_isAsciiDigit {c : Char} (hc : isAsciiDigit c = true) :
    c.toNat - 48 < 10 ∧ Nat.digitChar (c.toNat - 48) = c := by
  obtain ⟨hlow, hhigh⟩ := isAsciiDigit_iff.mp hc
  have hlt : c.toNat - 48 < 10 := by omega
  refine ⟨hlt, Char.toNat_inj.mp ?_⟩
  rw [Nat.toNat_digitChar_of_lt_ten hlt]
  omega

theorem isAsciiDigit_digitChar {d : ℕ} (hd : d < 10) : isAsciiDigit (Nat.digitChar d) = true := by
  rw [isAsciiDigit_iff, Nat.toNat_digitChar_of_lt_ten hd]
  omega

theorem natToString_eq (n : ℕ) :
    natToString n =
      if n < 10 then [Nat.digitChar n] else natToString (n / 10) ++ [Nat.digitChar (n % 10)] :=
  Nat.toDigits_eq_if (by decide)

theorem natToString_ne_nil (n : ℕ) : natToString n ≠ [] := Nat.toDigits_ne_nil

theorem isAsciiDigit_of_mem_natToString {n : ℕ} {c : Char} (hc : c ∈ natToString n) :
    isAsciiDigit c = true := by
  induction n using Nat.strong_induction_on with
  | _ n ih =>
    rw [natToString_eq] at hc
    split at hc
    · next hn =>
      rw [List.mem_singleton.mp hc]
      exact isAsciiDigit_digitChar hn
    · next hn =>
      rcases List.mem_append.mp hc with hc | hc
      · exact ih (n / 10) (by omega) hc
      · rw [List.mem_singleton.mp hc]
        exact isAsciiDigit_digitChar (by omega)

@[simp] theorem digitsValue_natToString (n : ℕ) : digitsValue (natToString n) = n := by
  induction n using Nat.strong_induction_on with
  | _ n ih =>
    rw [natToString_eq]
    split
    · next hn =>
      change 10 * 0 + ((Nat.digitChar n).toNat - 48) = n
      rw [Nat.toNat_digitChar_of_lt_ten hn]
      omega
    · next hn =>
      have hlast := Nat.toNat_digitChar_of_lt_ten (Nat.mod_lt n (by decide : 0 < 10))
      rw [digitsValue_concat, ih (n / 10) (by omega), hlast]
      omega

/-- Digits only, with no zero in front of another digit. -/
def isDecimal (s : Str) : Bool :=
  !s.isEmpty && s.all isAsciiDigit && !(s.head? == some '0' && 1 < s.length)

theorem isDecimal_iff {s : Str} :
    isDecimal s = true ↔
      s ≠ [] ∧ (∀ c ∈ s, isAsciiDigit c = true) ∧ (s.head? = some '0' → s.length ≤ 1) := by
  unfold isDecimal
  simp only [Bool.and_eq_true, Bool.not_eq_true', List.isEmpty_eq_false_iff, List.all_eq_true,
    Bool.and_eq_false_imp, beq_iff_eq, decide_eq_false_iff_not, not_lt, and_assoc]

theorem digitsValue_pos {s : Str} (hs : isDecimal s = true) (hlong : 1 < s.length) :
    0 < digitsValue s := by
  obtain ⟨hne, hdigits, hlead⟩ := isDecimal_iff.mp hs
  -- the first digit is not zero, and no later one takes anything away
  have hgrows : ∀ (rest : Str) (n : ℕ), n ≤ rest.foldl (fun n c => 10 * n + (c.toNat - 48)) n := by
    intro rest
    induction rest with
    | nil => exact fun n => le_rfl
    | cons c rest ih =>
      intro n
      exact le_trans (by omega) (ih (10 * n + (c.toNat - 48)))
  obtain ⟨c, rest, rfl⟩ := List.exists_cons_of_ne_nil hne
  have hc : c ≠ '0' := by
    rintro rfl
    have := hlead rfl
    omega
  have hlow := (isAsciiDigit_iff.mp (hdigits c (.head _))).1
  have hvalue : c.toNat ≠ 48 := fun h => hc (Char.toNat_inj.mp h)
  exact lt_of_lt_of_le (by omega) (hgrows rest (10 * 0 + (c.toNat - 48)))

/-- A number has one text without superfluous zeros. -/
theorem natToString_digitsValue {s : Str} (hs : isDecimal s = true) :
    natToString (digitsValue s) = s := by
  induction s using List.reverseRecOn with
  | nil => cases hs
  | append_singleton s c ih =>
    obtain ⟨-, hdigits, hlead⟩ := isDecimal_iff.mp hs
    obtain ⟨hlt, hchar⟩ := digitChar_of_isAsciiDigit (hdigits c (by simp))
    rw [digitsValue_concat, natToString_eq]
    by_cases hnil : s = []
    · subst hnil
      have hzero : digitsValue ([] : Str) = 0 := rfl
      rw [hzero, if_pos (by omega), Nat.mul_zero, Nat.zero_add, hchar, List.nil_append]
    · have hfront : isDecimal s = true := by
        refine isDecimal_iff.mpr ⟨hnil, fun d hd => hdigits d (List.mem_append_left _ hd), ?_⟩
        intro hhead
        have hwhole := hlead (by rw [List.head?_append_of_ne_nil _ hnil]; exact hhead)
        rw [List.length_append, List.length_singleton] at hwhole
        omega
      have hlong : 1 < (s ++ [c]).length := by
        have := List.length_pos_of_ne_nil hnil
        rw [List.length_append, List.length_singleton]
        omega
      have hpos := digitsValue_pos hs hlong
      rw [digitsValue_concat] at hpos
      have hbig : ¬ 10 * digitsValue s + (c.toNat - 48) < 10 := by
        intro hsmall
        have hvalue : digitsValue s = 0 := by omega
        have hzero := ih hfront
        rw [hvalue] at hzero
        have hhead : (s ++ [c]).head? = some '0' := by rw [← hzero]; rfl
        have := hlead hhead
        omega
      have hdiv : (10 * digitsValue s + (c.toNat - 48)) / 10 = digitsValue s := by omega
      have hmod : (10 * digitsValue s + (c.toNat - 48)) % 10 = c.toNat - 48 := by omega
      rw [if_neg hbig, hdiv, hmod, hchar, ih hfront]

theorem eq_zero_of_head_natToString {n : ℕ} (hn : (natToString n).head? = some '0') : n = 0 := by
  induction n using Nat.strong_induction_on with
  | _ n ih =>
    rw [natToString_eq] at hn
    split at hn
    · exact Nat.digitChar_eq_zero.mp (Option.some.inj hn)
    · next hbig =>
      rw [List.head?_append_of_ne_nil _ (natToString_ne_nil _)] at hn
      have := ih (n / 10) (by omega) hn
      omega

theorem isDecimal_natToString (n : ℕ) : isDecimal (natToString n) = true := by
  refine isDecimal_iff.mpr ⟨natToString_ne_nil n, fun c => isAsciiDigit_of_mem_natToString, ?_⟩
  intro hhead
  rw [eq_zero_of_head_natToString hhead]
  exact le_rfl

theorem length_natToString_le {n : ℕ} (hn : n ≤ 255) : (natToString n).length ≤ 3 :=
  (Nat.length_toDigits_le_iff (by decide) (by decide)).mpr (by omega)

end Digits

section Unsigned

/-- `parse` of an unsigned type drops one plus sign and any zeros in front. -/
theorem parseUnsigned_eq_some {largest n : ℕ} {s : Str} (hs : parseUnsigned largest s = some n) :
    n ≤ largest ∧ ∃ digits : Str, (s = digits ∨ s = '+' :: digits) ∧ digits ≠ [] ∧
      (∀ c ∈ digits, isAsciiDigit c = true) ∧ digitsValue digits = n := by
  unfold parseUnsigned at hs
  extract_lets digits at hs
  have hdigits : s = digits ∨ s = '+' :: digits := by
    unfold digits
    split
    · exact .inr rfl
    · exact .inl rfl
  split at hs
  · cases hs
  · next hne =>
    split at hs
    · next hall =>
      rw [Bool.and_eq_true, decide_eq_true_iff, List.all_eq_true] at hall
      cases hs
      exact ⟨hall.2, digits, hdigits, hne, hall.1, rfl⟩
    · cases hs

theorem parseUnsigned_natToString {largest n : ℕ} (hn : n ≤ largest) :
    parseUnsigned largest (natToString n) = some n := by
  have hall : (natToString n).all isAsciiDigit = true :=
    List.all_eq_true.mpr fun c => isAsciiDigit_of_mem_natToString
  have hsign : ∀ rest, natToString n ≠ '+' :: rest := by
    intro rest h
    have := isAsciiDigit_of_mem_natToString (h ▸ List.mem_cons_self : '+' ∈ natToString n)
    cases this
  unfold parseUnsigned
  extract_lets digits
  have hdigits : digits = natToString n := by
    unfold digits
    split
    · next rest h => exact absurd h (hsign rest)
    · rfl
  have hne : digits ≠ [] := hdigits ▸ natToString_ne_nil n
  rw [if_neg hne, hdigits, hall, digitsValue_natToString, decide_eq_true hn]
  rfl

/-- Among the texts that are read as `n`, the one that `Display` writes is the decimal one. -/
theorem eq_natToString_of_parseUnsigned {largest n : ℕ} {s : Str}
    (hs : parseUnsigned largest s = some n) : s = natToString n ↔ isDecimal s = true := by
  constructor
  · rintro rfl
    exact isDecimal_natToString n
  · intro hdecimal
    obtain ⟨-, digits, rfl | rfl, -, -, rfl⟩ := parseUnsigned_eq_some hs
    · exact (natToString_digitsValue hdecimal).symm
    · have hplus := (isDecimal_iff.mp hdecimal).2.1 '+' List.mem_cons_self
      cases hplus

end Unsigned

section Octets

theorem digitOf_ten (c : Char) :
    digitOf 10 c = if isAsciiDigit c then some (c.toNat - 48) else none := by
  unfold digitOf
  dsimp only
  by_cases hc : 48 ≤ c.toNat ∧ c.toNat ≤ 57
  · have hlt : c.toNat - 48 < 10 := by omega
    rw [if_pos hc, if_pos (isAsciiDigit_iff.mpr hc), Option.filter_some, decide_eq_true hlt,
      if_pos rfl]
  · rw [if_neg hc, if_neg fun h => hc (isAsciiDigit_iff.mp h)]
    -- a letter stands for ten at least
    split
    · exact Option.filter_some_neg (by simp; omega)
    · split
      · exact Option.filter_some_neg (by simp; omega)
      · rfl

theorem takeDigits_ten (s : Str) :
    takeDigits 10 s =
      ((s.takeWhile isAsciiDigit).map fun c => c.toNat - 48, s.dropWhile isAsciiDigit) := by
  induction s with
  | nil => rfl
  | cons c rest ih =>
    unfold takeDigits
    rw [digitOf_ten, ih]
    by_cases hc : isAsciiDigit c = true
    · rw [if_pos hc, List.takeWhile_cons_of_pos hc, List.dropWhile_cons_of_pos hc]
      rfl
    · rw [if_neg hc, List.takeWhile_cons_of_neg hc, List.dropWhile_cons_of_neg hc]
      rfl

/-- The text goes on with something other than a digit, or ends. -/
def EndsNumber (rest : Str) : Prop := ∀ c ∈ rest.head?, isAsciiDigit c = false

theorem endsNumber_nil : EndsNumber [] := nofun

theorem endsNumber_cons {c : Char} {rest : Str} (hc : isAsciiDigit c = false) :
    EndsNumber (c :: rest) := by
  rintro d ⟨⟩
  exact hc

theorem span_natToString (n : ℕ) {rest : Str} (hrest : EndsNumber rest) :
    (natToString n ++ rest).takeWhile isAsciiDigit = natToString n ∧
      (natToString n ++ rest).dropWhile isAsciiDigit = rest := by
  have hall : ∀ c ∈ natToString n, isAsciiDigit c = true := fun c => isAsciiDigit_of_mem_natToString
  rw [List.takeWhile_append_of_pos hall, List.dropWhile_append_of_pos hall]
  cases rest with
  | nil => exact ⟨List.append_nil _, rfl⟩
  | cons c rest =>
    have hc : ¬ isAsciiDigit c = true := by rw [hrest c rfl]; decide
    rw [List.takeWhile_cons_of_neg hc, List.dropWhile_cons_of_neg hc]
    exact ⟨List.append_nil _, rfl⟩

theorem endsNumber_dropWhile (s : Str) : EndsNumber (s.dropWhile isAsciiDigit) := by
  intro c hc
  have := List.head?_dropWhile_not isAsciiDigit s
  rw [Option.mem_def.mp hc] at this
  exact this

theorem isDecimal_takeWhile_iff {s : Str} :
    isDecimal (s.takeWhile isAsciiDigit) = true ↔
      s.takeWhile isAsciiDigit ≠ [] ∧
        ¬ (((s.takeWhile isAsciiDigit).map fun c => c.toNat - 48).head? = some 0 ∧
          1 < (s.takeWhile isAsciiDigit).length) := by
  have hdigits : ∀ c ∈ s.takeWhile isAsciiDigit, isAsciiDigit c = true :=
    fun c hc => List.mem_takeWhile_imp hc
  generalize s.takeWhile isAsciiDigit = digits at hdigits ⊢
  have hhead : (digits.map fun c => c.toNat - 48).head? = some 0 ↔ digits.head? = some '0' := by
    cases digits with
    | nil => exact ⟨nofun, nofun⟩
    | cons c rest =>
      have hlow := (isAsciiDigit_iff.mp (hdigits c (.head _))).1
      constructor
      · intro h
        have hvalue : c.toNat - 48 = 0 := Option.some.inj h
        exact congrArg some (Char.toNat_inj.mp (show c.toNat = 48 by omega))
      · intro h
        cases h
        rfl
  rw [isDecimal_iff, hhead, not_and, not_lt]
  exact ⟨fun h => ⟨h.1, h.2.2⟩, fun h => ⟨h.1, hdigits, h.2⟩⟩

/-- The reader of an octet takes the texts of the numbers up to 255 and no others. -/
theorem readNumber_octet_iff {s rest : Str} {n : ℕ} :
    readNumber 10 3 false 255 s = some (n, rest) ↔
      n ≤ 255 ∧ s = natToString n ++ rest ∧ EndsNumber rest := by
  unfold readNumber
  rw [takeDigits_ten]
  dsimp only
  have hvalue : ((s.takeWhile isAsciiDigit).map fun c => c.toNat - 48).foldl
      (fun n d => 10 * n + d) 0 = digitsValue (s.takeWhile isAsciiDigit) := List.foldl_map
  simp only [hvalue, List.map_eq_nil_iff, List.length_map]
  constructor
  · intro h
    split at h
    · cases h
    · next hrange =>
      split at h
      · cases h
      · next hlead =>
        cases h
        push Not at hrange
        have hdecimal := isDecimal_takeWhile_iff.mpr
          ⟨hrange.1, fun hzero => hlead ⟨trivial, hzero⟩⟩
        rw [natToString_digitsValue hdecimal, List.takeWhile_append_dropWhile]
        exact ⟨hrange.2.2, rfl, endsNumber_dropWhile s⟩
  · rintro ⟨hn, rfl, hrest⟩
    have hdecimal := isDecimal_natToString n
    rw [← (span_natToString n hrest).1] at hdecimal
    have hlead := (isDecimal_takeWhile_iff.mp hdecimal).2
    have hlength := length_natToString_le hn
    rw [(span_natToString n hrest).1] at hlead ⊢
    rw [(span_natToString n hrest).2, digitsValue_natToString, if_neg, if_neg]
    · exact fun h => hlead h.2
    · rintro (h | h | h)
      · exact natToString_ne_nil n h
      · omega
      · omega

theorem readSeparator_succ_iff {α : Type} {sep : Char} {i : ℕ} {inner : Reader α} {s rest : Str}
    {x : α} : readSeparator sep (i + 1) inner s = some (x, rest) ↔
      ∃ left, s = sep :: left ∧ inner left = some (x, rest) := by
  unfold readSeparator
  rw [if_neg i.succ_ne_zero]
  cases s with
  | nil => exact ⟨nofun, nofun⟩
  | cons c left =>
    by_cases hc : c = sep
    · simp [readGivenChar, hc]
    · simp [readGivenChar, hc]

theorem readOctet_zero_iff {s rest : Str} {n : ℕ} :
    readOctet 0 s = some (n, rest) ↔ n ≤ 255 ∧ s = natToString n ++ rest ∧ EndsNumber rest :=
  readNumber_octet_iff

theorem readOctet_succ_iff {i n : ℕ} {s rest : Str} :
    readOctet (i + 1) s = some (n, rest) ↔
      n ≤ 255 ∧ s = '.' :: natToString n ++ rest ∧ EndsNumber rest := by
  unfold readOctet
  rw [readSeparator_succ_iff]
  constructor
  · rintro ⟨left, rfl, h⟩
    obtain ⟨hn, rfl, hrest⟩ := readNumber_octet_iff.mp h
    exact ⟨hn, rfl, hrest⟩
  · rintro ⟨hn, rfl, hrest⟩
    exact ⟨_, rfl, readNumber_octet_iff.mpr ⟨hn, rfl, hrest⟩⟩

/-- The reader takes the text of an address, as far as it goes, and nothing else. -/
theorem readIpv4Addr_iff {s rest : Str} {x : Ipv4Addr} :
    readIpv4Addr s = some (x, rest) ↔ s = x.display ++ rest ∧ EndsNumber rest := by
  unfold readIpv4Addr
  constructor
  · intro h
    obtain ⟨⟨a, s₁⟩, ha, h⟩ := Option.bind_eq_some_iff.mp h
    obtain ⟨⟨b, s₂⟩, hb, h⟩ := Option.bind_eq_some_iff.mp h
    obtain ⟨⟨c, s₃⟩, hc, h⟩ := Option.bind_eq_some_iff.mp h
    obtain ⟨⟨d, s₄⟩, hd, h⟩ := Option.bind_eq_some_iff.mp h
    cases h
    obtain ⟨hla, rfl, -⟩ := readOctet_zero_iff.mp ha
    obtain ⟨hlb, rfl, -⟩ := readOctet_succ_iff.mp hb
    obtain ⟨hlc, rfl, -⟩ := readOctet_succ_iff.mp hc
    obtain ⟨hld, rfl, hrest⟩ := readOctet_succ_iff.mp hd
    have hbyte : ∀ n, n ≤ 255 → (UInt8.ofNat n).toNat = n :=
      fun n hn => UInt8.toNat_ofNat_of_lt' (Nat.lt_succ_of_le hn)
    refine ⟨?_, hrest⟩
    simp [Ipv4Addr.display, hbyte _ hla, hbyte _ hlb, hbyte _ hlc, hbyte _ hld, -UInt8.toNat_ofNat']
  · rintro ⟨rfl, hrest⟩
    have hbyte : ∀ o : UInt8, o.toNat ≤ 255 := fun o => Nat.le_of_lt_succ o.toNat_lt
    have hdot : ∀ left : Str, EndsNumber ('.' :: left) := fun left => endsNumber_cons rfl
    have hlist : x.display ++ rest =
        natToString x.a.toNat ++ ('.' :: natToString x.b.toNat ++
          ('.' :: natToString x.c.toNat ++ ('.' :: natToString x.d.toNat ++ rest))) := by
      simp [Ipv4Addr.display]
    rw [hlist]
    refine Option.bind_eq_some_iff.mpr
      ⟨_, readOctet_zero_iff.mpr ⟨hbyte x.a, rfl, hdot _⟩, Option.bind_eq_some_iff.mpr
      ⟨_, readOctet_succ_iff.mpr ⟨hbyte x.b, rfl, hdot _⟩, Option.bind_eq_some_iff.mpr
      ⟨_, readOctet_succ_iff.mpr ⟨hbyte x.c, rfl, hdot _⟩, Option.bind_eq_some_iff.mpr
      ⟨_, readOctet_succ_iff.mpr ⟨hbyte x.d, rfl, hrest⟩, ?_⟩⟩⟩⟩
    simp

theorem length_display_le (x : Ipv4Addr) : x.display.length ≤ 15 := by
  have hbyte : ∀ o : UInt8, (natToString o.toNat).length ≤ 3 :=
    fun o => length_natToString_le (Nat.le_of_lt_succ o.toNat_lt)
  have ha := hbyte x.a
  have hb := hbyte x.b
  have hc := hbyte x.c
  have hd := hbyte x.d
  simp only [Ipv4Addr.display, List.length_append, List.length_cons]
  omega

theorem parseWith_eq_some_iff {α : Type} {reader : Reader α} {s : Str} {x : α} :
    parseWith reader s = some x ↔ reader s = some (x, []) := by
  unfold parseWith
  split
  · next y h => rw [h]; simp
  · next h =>
    refine ⟨nofun, fun hread => ?_⟩
    exact absurd hread (h x)

/-- An IPv4 address has one text. -/
theorem Ipv4Addr.parse_iff {s : Str} {x : Ipv4Addr} :
    Ipv4Addr.parse s = some x ↔ s = x.display := by
  unfold Ipv4Addr.parse
  constructor
  · intro h
    split at h
    · cases h
    · rw [parseWith_eq_some_iff, readIpv4Addr_iff, List.append_nil] at h
      exact h.1
  · rintro rfl
    rw [if_neg (by have := length_display_le x; omega), parseWith_eq_some_iff, readIpv4Addr_iff]
    exact ⟨(List.append_nil _).symm, endsNumber_nil⟩

end Octets

section Characters

/-- A hexadecimal digit, a dot or a colon. -/
def isAddressChar (c : Char) : Bool := (digitOf 16 c).isSome || c == '.' || c == ':'

theorem isAddressChar_bounds {c : Char} (hc : isAddressChar c = true) :
    46 ≤ c.toNat ∧ c.toNat ≤ 102 := by
  unfold isAddressChar at hc
  rw [Bool.or_eq_true, Bool.or_eq_true, beq_iff_eq, beq_iff_eq] at hc
  obtain (hdigit | rfl) | rfl := hc
  · unfold digitOf at hdigit
    dsimp only at hdigit
    split at hdigit
    · omega
    · split at hdigit
      · rw [Option.filter_some] at hdigit
        split at hdigit
        · next hlt =>
          rw [decide_eq_true_iff] at hlt
          omega
        · cases hdigit
      · split at hdigit
        · omega
        · cases hdigit
  · decide
  · decide

theorem isAddressChar_digitChar {d : ℕ} (hd : d < 16) : isAddressChar (Nat.digitChar d) = true := by
  have hall : ∀ d : Fin 16, isAddressChar (Nat.digitChar d) = true := by decide
  exact hall ⟨d, hd⟩

theorem isAddressChar_of_mem_toDigits {b n : ℕ} {c : Char} (hb : 1 < b) (hb16 : b ≤ 16)
    (hc : c ∈ Nat.toDigits b n) : isAddressChar c = true := by
  induction n using Nat.strong_induction_on with
  | _ n ih =>
    rw [Nat.toDigits_eq_if hb] at hc
    split at hc
    · next hn =>
      rw [List.mem_singleton.mp hc]
      exact isAddressChar_digitChar (by omega)
    · next hn =>
      rcases List.mem_append.mp hc with hc | hc
      · exact ih (n / b) (Nat.div_lt_self (by omega) hb) hc
      · rw [List.mem_singleton.mp hc]
        have := Nat.mod_lt n (show 0 < b by omega)
        exact isAddressChar_digitChar (by omega)

/-- What a reader took off the text is made of the characters of addresses. -/
def Takes {α : Type} (reader : Reader α) : Prop :=
  ∀ ⦃s rest : Str⦄ ⦃x : α⦄, reader s = some (x, rest) →
    ∃ used : Str, s = used ++ rest ∧ ∀ c ∈ used, isAddressChar c = true

theorem takes_readGivenChar {c : Char} (hc : isAddressChar c = true) : Takes (readGivenChar c) := by
  intro s rest x h
  cases s with
  | nil => cases h
  | cons d left =>
    by_cases hd : d = c
    · rw [readGivenChar, if_pos hd] at h
      cases h
      exact ⟨[d], rfl, List.forall_mem_singleton.mpr (hd ▸ hc)⟩
    · rw [readGivenChar, if_neg hd] at h
      cases h

theorem Takes.readSeparator {α : Type} {inner : Reader α} (hinner : Takes inner) {sep : Char}
    (hsep : isAddressChar sep = true) (i : ℕ) : Takes (readSeparator sep i inner) := by
  intro s rest x h
  cases i with
  | zero => exact hinner h
  | succ i =>
    obtain ⟨left, rfl, hleft⟩ := readSeparator_succ_iff.mp h
    obtain ⟨used, rfl, hused⟩ := hinner hleft
    exact ⟨sep :: used, rfl, List.forall_mem_cons.mpr ⟨hsep, hused⟩⟩

theorem takeDigits_left {radix : ℕ} (hradix : radix ≤ 16) (s : Str) :
    ∃ used : Str, s = used ++ (takeDigits radix s).2 ∧ ∀ c ∈ used, isAddressChar c = true := by
  induction s with
  | nil => exact ⟨[], rfl, nofun⟩
  | cons c s ih =>
    unfold takeDigits
    cases hc : digitOf radix c with
    | none => exact ⟨[], rfl, nofun⟩
    | some v =>
      obtain ⟨used, hs, hused⟩ := ih
      -- a digit of a smaller radix is a hexadecimal digit
      have hdigit : digitOf 16 c = some v := by
        unfold digitOf at hc ⊢
        obtain ⟨hvalue, hv⟩ := Option.filter_eq_some_iff.mp hc
        rw [decide_eq_true_iff] at hv
        exact Option.filter_eq_some_iff.mpr ⟨hvalue, decide_eq_true (by omega)⟩
      refine ⟨c :: used, congrArg (c :: ·) hs, List.forall_mem_cons.mpr ⟨?_, hused⟩⟩
      rw [isAddressChar, hdigit]
      rfl

theorem takes_readNumber {radix : ℕ} (hradix : radix ≤ 16) (maxDigits : ℕ) (zeros : Bool)
    (largest : ℕ) : Takes (readNumber radix maxDigits zeros largest) := by
  intro s rest n h
  unfold readNumber at h
  dsimp only at h
  split at h
  · cases h
  · split at h
    · cases h
    · cases h
      exact takeDigits_left hradix s

theorem isAddressChar_of_mem_display_v4 {x : Ipv4Addr} {c : Char} (hc : c ∈ x.display) :
    isAddressChar c = true := by
  have hnumber : ∀ n, c ∈ natToString n → isAddressChar c = true :=
    fun n => isAddressChar_of_mem_toDigits (by decide) (by decide)
  simp only [Ipv4Addr.display, List.mem_append, List.mem_cons] at hc
  obtain ((ha | rfl | hb) | rfl | hc) | rfl | hd := hc
  · exact hnumber _ ha
  · rfl
  · exact hnumber _ hb
  · rfl
  · exact hnumber _ hc
  · rfl
  · exact hnumber _ hd

theorem takes_readIpv4Addr : Takes readIpv4Addr := by
  intro s rest x h
  exact ⟨x.display, (readIpv4Addr_iff.mp h).1, fun c => isAddressChar_of_mem_display_v4⟩

theorem readGroups_left (limit fuel i : ℕ) (s : Str) :
    ∃ used : Str, s = used ++ (readGroups limit fuel i s).2.2 ∧
      ∀ c ∈ used, isAddressChar c = true := by
  induction fuel generalizing i s with
  | zero => exact ⟨[], rfl, nofun⟩
  | succ fuel ih =>
    unfold readGroups
    dsimp only
    split
    · next v4 left hv4 =>
      split at hv4
      · exact takes_readIpv4Addr.readSeparator rfl i hv4
      · cases hv4
    · split
      · exact ⟨[], rfl, nofun⟩
      · next g left hg =>
        obtain ⟨group, rfl, hgroup⟩ :=
          (takes_readNumber (by decide) 4 true 0xffff).readSeparator rfl i hg
        obtain ⟨used, hs, hused⟩ := ih (i + 1) left
        refine ⟨group ++ used, ?_, List.forall_mem_append.mpr ⟨hgroup, hused⟩⟩
        rw [List.append_assoc]
        exact congrArg (group ++ ·) hs

theorem takes_readIpv6Addr : Takes readIpv6Addr := by
  intro s rest x h
  obtain ⟨head, hs, hhead⟩ := readGroups_left 8 8 0 s
  unfold readIpv6Addr at h
  dsimp only at h
  split at h
  · obtain ⟨y, -, heq⟩ := Option.map_eq_some_iff.mp h
    cases heq
    exact ⟨head, hs, hhead⟩
  · split at h
    · cases h
    · obtain ⟨⟨_, s₁⟩, h₁, h⟩ := Option.bind_eq_some_iff.mp h
      obtain ⟨⟨_, s₂⟩, h₂, h⟩ := Option.bind_eq_some_iff.mp h
      obtain ⟨y, -, heq⟩ := Option.map_eq_some_iff.mp h
      cases heq
      obtain ⟨colon₁, hs₁, hcolon₁⟩ := takes_readGivenChar rfl h₁
      obtain ⟨colon₂, rfl, hcolon₂⟩ := takes_readGivenChar rfl h₂
      obtain ⟨tail, htail, hmem⟩ := readGroups_left _ _ 0 s₂
      refine ⟨head ++ (colon₁ ++ (colon₂ ++ tail)), ?_, ?_⟩
      · rw [hs, hs₁]
        simp only [List.append_assoc]
        exact congrArg (fun left => head ++ (colon₁ ++ (colon₂ ++ left))) htail
      · simp only [List.forall_mem_append]
        exact ⟨hhead, hcolon₁, hcolon₂, hmem⟩

theorem takes_readIpAddr : Takes readIpAddr := by
  intro s rest x h
  unfold readIpAddr at h
  split at h
  · next y left hv4 =>
    cases h
    exact takes_readIpv4Addr hv4
  · obtain ⟨y, hv6, heq⟩ := Option.map_eq_some_iff.mp h
    cases heq
    exact takes_readIpv6Addr hv6

/-- The text of an address: not empty, and with no character besides those of addresses. -/
def IsAddressText (s : Str) : Prop := s ≠ [] ∧ ∀ c ∈ s, isAddressChar c = true

theorem isAddressText_of_parse {s : Str} {x : IpAddr} (h : IpAddr.parse s = some x) :
    IsAddressText s := by
  obtain ⟨used, hs, hused⟩ := takes_readIpAddr (parseWith_eq_some_iff.mp h)
  rw [List.append_nil] at hs
  subst hs
  refine ⟨?_, hused⟩
  rintro rfl
  have hnone : IpAddr.parse [] = none := by decide
  rw [hnone] at h
  cases h

theorem isAddressChar_of_mem_displaySegments {segments : List UInt16} {c : Char}
    (hc : c ∈ displaySegments segments) : isAddressChar c = true := by
  have hgroup : ∀ n, c ∈ Nat.toDigits 16 n → isAddressChar c = true :=
    fun n => isAddressChar_of_mem_toDigits (by decide) le_rfl
  induction segments with
  | nil => cases hc
  | cons s rest ih =>
    cases rest with
    | nil => exact hgroup _ hc
    | cons t rest =>
      rcases List.mem_append.mp hc with hc | hc
      · exact hgroup _ hc
      · rcases List.mem_cons.mp hc with rfl | hc
        · rfl
        · exact ih hc

theorem displaySegments_ne_nil {segments : List UInt16} (h : segments ≠ []) :
    displaySegments segments ≠ [] := by
  match segments with
  | [] => exact absurd rfl h
  | [s] => exact Nat.toDigits_ne_nil
  | s :: t :: rest => exact List.append_ne_nil_of_right_ne_nil _ (List.cons_ne_nil _ _)

theorem isAddressText_display_v4 (x : Ipv4Addr) : IsAddressText x.display := by
  refine ⟨?_, fun c => isAddressChar_of_mem_display_v4⟩
  exact List.append_ne_nil_of_right_ne_nil _ (List.cons_ne_nil _ _)

theorem isAddressText_display_v6 (x : Ipv6Addr) : IsAddressText x.display := by
  unfold Ipv6Addr.display
  split
  · next v4 _ =>
    refine ⟨List.append_ne_nil_of_left_ne_nil (by decide) _, ?_⟩
    exact List.forall_mem_append.mpr
      ⟨List.forall_iff_forall_mem.mp (by decide), fun c => isAddressChar_of_mem_display_v4⟩
  · dsimp only
    split
    · refine ⟨List.append_ne_nil_of_left_ne_nil
        (List.append_ne_nil_of_right_ne_nil _ (by decide)) _, ?_⟩
      simp only [List.forall_mem_append]
      exact ⟨⟨fun c => isAddressChar_of_mem_displaySegments,
        List.forall_iff_forall_mem.mp (by decide)⟩, fun c => isAddressChar_of_mem_displaySegments⟩
    · refine ⟨displaySegments_ne_nil ?_, fun c => isAddressChar_of_mem_displaySegments⟩
      intro hnil
      have := x.length_eq
      rw [hnil] at this
      cases this

theorem isAddressText_display : ∀ x : IpAddr, IsAddressText x.display
  | .v4 x => isAddressText_display_v4 x
  | .v6 x => isAddressText_display_v6 x

end Characters

end BarebonesProxy.RustNet
