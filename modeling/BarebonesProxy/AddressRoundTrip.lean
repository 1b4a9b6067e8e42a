import BarebonesProxy.AddressTexts

set_option autoImplicit false

/-!
# An address is read back from its text

`Display` of an IPv6 address writes its longest run of zero groups as `::` and the last two
groups of an IPv4-mapped one as an IPv4 address. The reader behind `FromStr` undoes both.
-/
namespace BarebonesProxy.RustNet
open RustStrings

section Groups

theorem digitOf_sixteen_digitChar {d : ℕ} (hd : d < 16) :
    digitOf 16 (Nat.digitChar d) = some d := by
  have hall : ∀ d : Fin 16, digitOf 16 (Nat.digitChar d) = some d.val := by decide
  exact hall ⟨d, hd⟩

/-- The text goes on with something other than a hexadecimal digit, or ends. -/
def EndsGroup (rest : Str) : Prop := ∀ c ∈ rest.head?, digitOf 16 c = none

theorem endsGroup_nil : EndsGroup [] := nofun

theorem endsGroup_colon (rest : Str) : EndsGroup (':' :: rest) := by
  rintro c ⟨⟩
  rfl

theorem takeDigits_of_endsGroup {rest : Str} (hrest : EndsGroup rest) :
    takeDigits 16 rest = ([], rest) := by
  cases rest with
  | nil => rfl
  | cons c rest =>
    unfold takeDigits
    rw [hrest c rfl]

/-- The value of a hexadecimal digit. -/
def hexValue (c : Char) : ℕ := (digitOf 16 c).getD 0

theorem takeDigits_append {digits rest : Str} (hrest : EndsGroup rest)
    (hdigits : ∀ c ∈ digits, (digitOf 16 c).isSome) :
    takeDigits 16 (digits ++ rest) = (digits.map hexValue, rest) := by
  induction digits with
  | nil => exact takeDigits_of_endsGroup hrest
  | cons c digits ih =>
    obtain ⟨v, hv⟩ := Option.isSome_iff_exists.mp (hdigits c List.mem_cons_self)
    rw [List.cons_append]
    unfold takeDigits
    rw [hv, ih fun d hd => hdigits d (List.mem_cons_of_mem _ hd), List.map_cons, hexValue, hv]
    rfl

theorem isSome_digitOf_of_mem_toDigits {n : ℕ} {c : Char} (hc : c ∈ Nat.toDigits 16 n) :
    (digitOf 16 c).isSome := by
  induction n using Nat.strong_induction_on with
  | _ n ih =>
    rw [Nat.toDigits_eq_if (by decide)] at hc
    split at hc
    · next hn =>
      rw [List.mem_singleton.mp hc, digitOf_sixteen_digitChar hn]
      rfl
    · next hn =>
      rcases List.mem_append.mp hc with hc | hc
      · exact ih (n / 16) (by omega) hc
      · rw [List.mem_singleton.mp hc, digitOf_sixteen_digitChar (Nat.mod_lt n (by decide))]
        rfl

theorem foldl_toDigits (n : ℕ) :
    ((Nat.toDigits 16 n).map hexValue).foldl (fun n d => 16 * n + d) 0 = n := by
  have hvalue : ∀ d, d < 16 → hexValue (Nat.digitChar d) = d := by
    intro d hd
    rw [hexValue, digitOf_sixteen_digitChar hd]
    rfl
  induction n using Nat.strong_induction_on with
  | _ n ih =>
    rw [Nat.toDigits_eq_if (by decide)]
    split
    · next hn =>
      rw [List.map_singleton, hvalue n hn]
      change 16 * 0 + n = n
      omega
    · next hn =>
      rw [List.map_append, List.map_singleton, List.foldl_concat, ih (n / 16) (by omega),
        hvalue (n % 16) (Nat.mod_lt n (by decide))]
      omega

theorem readNumber_toDigits {n : ℕ} (hn : n ≤ 0xffff) {rest : Str} (hrest : EndsGroup rest) :
    readNumber 16 4 true 0xffff (Nat.toDigits 16 n ++ rest) = some (n, rest) := by
  have hshort : (Nat.toDigits 16 n).length ≤ 4 :=
    (Nat.length_toDigits_le_iff (by decide) (by decide)).mpr (by omega)
  unfold readNumber
  rw [takeDigits_append hrest fun c => isSome_digitOf_of_mem_toDigits]
  dsimp only
  simp only [foldl_toDigits, List.map_eq_nil_iff, List.length_map]
  rw [if_neg, if_neg]
  · exact fun h => Bool.false_ne_true h.1.symm
  · rintro (h | h | h)
    · exact Nat.toDigits_ne_nil h
    · omega
    · omega

theorem readNumber_of_endsGroup {s : Str} (hs : EndsGroup s) :
    readNumber 16 4 true 0xffff s = none := by
  unfold readNumber
  rw [takeDigits_of_endsGroup hs]
  exact if_pos (.inl rfl)

/-- An IPv4 address has a dot in it and starts with a digit. -/
theorem readIpv4Addr_eq_none_of_no_dot {s : Str} (hs : '.' ∉ s) : readIpv4Addr s = none := by
  cases h : readIpv4Addr s with
  | none => rfl
  | some r =>
    obtain ⟨rfl, -⟩ := readIpv4Addr_iff.mp (h : readIpv4Addr s = some (r.1, r.2))
    exact absurd (by simp [Ipv4Addr.display]) hs

theorem readIpv4Addr_eq_none_of_head {s : Str} (hs : EndsNumber s) : readIpv4Addr s = none := by
  cases h : readIpv4Addr s with
  | none => rfl
  | some r =>
    obtain ⟨rfl, -⟩ := readIpv4Addr_iff.mp (h : readIpv4Addr s = some (r.1, r.2))
    obtain ⟨c, rest, hdigits⟩ := List.exists_cons_of_ne_nil (natToString_ne_nil r.1.a.toNat)
    have hdigit := isAsciiDigit_of_mem_natToString (hdigits ▸ List.mem_cons_self)
    have hnone := hs c (by simp [Ipv4Addr.display, hdigits])
    rw [hdigit] at hnone
    cases hnone

/-- The groups from index `i` on: every one but the very first is preceded by a colon. -/
def groupText : ℕ → List UInt16 → Str
  | _, [] => []
  | 0, g :: gs => Nat.toDigits 16 g.toNat ++ groupText 1 gs
  | i + 1, g :: gs => ':' :: Nat.toDigits 16 g.toNat ++ groupText (i + 2) gs

theorem displaySegments_eq_groupText (gs : List UInt16) : displaySegments gs = groupText 0 gs := by
  have hlater : ∀ (g : UInt16) (gs : List UInt16) (i : ℕ),
      ':' :: displaySegments (g :: gs) = groupText (i + 1) (g :: gs) := by
    intro g gs
    induction gs generalizing g with
    | nil => intro i; simp [displaySegments, groupText]
    | cons h gs ih =>
      intro i
      rw [displaySegments, ih h (i + 1)]
      · rfl
      · exact List.cons_ne_nil h gs
  match gs with
  | [] => rfl
  | [g] => simp [displaySegments, groupText]
  | g :: h :: gs =>
    rw [displaySegments, hlater h gs 0]
    · rfl
    · exact List.cons_ne_nil h gs

theorem dot_notMem_toDigits (n : ℕ) : '.' ∉ Nat.toDigits 16 n := by
  intro h
  cases isSome_digitOf_of_mem_toDigits h

theorem dot_notMem_groupText (i : ℕ) (gs : List UInt16) : '.' ∉ groupText i gs := by
  induction gs generalizing i with
  | nil => exact List.not_mem_nil
  | cons g gs ih =>
    cases i with
    | zero => simp [groupText, dot_notMem_toDigits, ih]
    | succ i => simp [groupText, dot_notMem_toDigits, ih]

/-- Behind the groups the text ends, or the run of zeros follows. -/
def EndsGroups (rest : Str) : Prop := rest = [] ∨ ∃ left, rest = ':' :: ':' :: left

theorem EndsGroups.endsGroup {rest : Str} (h : EndsGroups rest) : EndsGroup rest := by
  obtain rfl | ⟨left, rfl⟩ := h
  · exact endsGroup_nil
  · exact endsGroup_colon _

theorem endsGroup_groupText (i : ℕ) (gs : List UInt16) {rest : Str} (hrest : EndsGroups rest) :
    EndsGroup (groupText (i + 1) gs ++ rest) := by
  cases gs with
  | nil => exact hrest.endsGroup
  | cons g gs => exact endsGroup_colon _

theorem readSeparator_of_endsGroups {i : ℕ} {rest : Str} (hrest : EndsGroups rest) :
    readSeparator ':' i (readNumber 16 4 true 0xffff) rest = none := by
  cases i with
  | zero => exact readNumber_of_endsGroup hrest.endsGroup
  | succ i =>
    obtain rfl | ⟨left, rfl⟩ := hrest
    · rfl
    · exact readNumber_of_endsGroup (endsGroup_colon left)

/-- No embedded IPv4 address is read where the text has no dot. -/
theorem readSeparator_ipv4_of_no_dot {i : ℕ} {s : Str} (hs : '.' ∉ s) :
    readSeparator ':' i readIpv4Addr s = none := by
  cases i with
  | zero => exact readIpv4Addr_eq_none_of_no_dot hs
  | succ i =>
    cases h : readSeparator ':' (i + 1) readIpv4Addr s with
    | none => rfl
    | some r =>
      obtain ⟨left, rfl, hleft⟩ := readSeparator_succ_iff.mp
        (h : readSeparator ':' (i + 1) readIpv4Addr s = some (r.1, r.2))
      rw [readIpv4Addr_eq_none_of_no_dot fun h => hs (List.mem_cons_of_mem _ h)] at hleft
      cases hleft

theorem readSeparator_group {i : ℕ} (g : UInt16) (gs : List UInt16) {rest : Str}
    (hrest : EndsGroups rest) :
    readSeparator ':' i (readNumber 16 4 true 0xffff) (groupText i (g :: gs) ++ rest) =
      some (g.toNat, groupText (i + 1) gs ++ rest) := by
  have hg : g.toNat ≤ 0xffff := Nat.le_of_lt_succ g.toNat_lt
  have hread := readNumber_toDigits hg (endsGroup_groupText i gs hrest)
  cases i with
  | zero =>
    rw [groupText, List.append_assoc]
    exact hread
  | succ i =>
    refine readSeparator_succ_iff.mpr ⟨_, ?_, readNumber_toDigits hg
      (endsGroup_groupText (i + 1) gs hrest)⟩
    rw [groupText, List.cons_append, List.cons_append, List.append_assoc]

theorem readGroups_groupText {limit fuel i : ℕ} {gs : List UInt16} {rest : Str}
    (hfuel : gs.length ≤ fuel) (hrest : EndsGroups rest) (hdot : '.' ∉ rest) :
    readGroups limit fuel i (groupText i gs ++ rest) = (gs, false, rest) := by
  induction fuel generalizing i gs with
  | zero =>
    obtain rfl := List.eq_nil_of_length_eq_zero (Nat.le_zero.mp hfuel)
    rfl
  | succ fuel ih =>
    have hall : '.' ∉ groupText i gs ++ rest := by
      rw [List.mem_append, not_or]
      exact ⟨dot_notMem_groupText i gs, hdot⟩
    unfold readGroups
    rw [readSeparator_ipv4_of_no_dot hall, ite_self]
    dsimp only
    cases gs with
    | nil =>
      rw [groupText, List.nil_append, readSeparator_of_endsGroups hrest]
    | cons g gs =>
      rw [readSeparator_group g gs hrest]
      dsimp only
      rw [ih (Nat.le_of_succ_le_succ hfuel), UInt16.ofNat_toNat]

end Groups

section Zeros

/-- The groups that the span covers are zero. -/
def Covers (segments : List UInt16) (span : Span) : Prop :=
  ∀ i, span.start ≤ i → i < span.start + span.len → segments[i]? = some 0

theorem covers_zeroSpan {segments : List UInt16} (rest : List UInt16) {i : ℕ}
    {current longest : Span} (hrest : segments.drop i = rest)
    (hcurrent : current.len ≠ 0 → current.start + current.len = i) (hc : Covers segments current)
    (hl : Covers segments longest) : Covers segments (zeroSpan rest i current longest) := by
  induction rest generalizing i current longest with
  | nil => exact hl
  | cons s rest ih =>
    have hnext : segments.drop (i + 1) = rest := by rw [← List.drop_drop, hrest]; rfl
    have hs : segments[i]? = some s := by rw [← List.head?_drop, hrest]; rfl
    unfold zeroSpan
    split
    · next hzero =>
      -- the current run grows by the group at `i`, or starts there
      extract_lets grown
      have hend : grown.start + grown.len = i + 1 := by
        dsimp only [grown]
        split
        · next hlen => omega
        · next hlen => have := hcurrent hlen; omega
      have hgrown : Covers segments grown := by
        intro j hlow hhigh
        by_cases hj : j = i
        · rw [hj, hs, hzero]
        · have hlen : current.len ≠ 0 := by
            intro hlen
            dsimp only [grown] at hlow hhigh
            rw [if_pos hlen] at hlow hhigh
            omega
          refine hc j ?_ ?_
          · dsimp only [grown] at hlow
            rwa [if_neg hlen] at hlow
          · have := hcurrent hlen
            omega
      refine ih hnext (fun _ => hend) hgrown ?_
      split
      · exact hgrown
      · exact hl
    · exact ih hnext (fun h => absurd rfl h) (fun j hlow hhigh => by dsimp only at hhigh; omega) hl

theorem covers_zeroes (segments : List UInt16) :
    Covers segments (zeroSpan segments 0 ⟨0, 0⟩ ⟨0, 0⟩) := by
  have hempty : Covers segments ⟨0, 0⟩ := by
    intro i hlow hhigh
    dsimp only at hhigh
    omega
  exact covers_zeroSpan segments rfl (fun h => absurd rfl h) hempty hempty

theorem Covers.end_le {segments : List UInt16} {span : Span} (h : Covers segments span)
    (hlen : 0 < span.len) : span.start + span.len ≤ segments.length := by
  have hlast := h (span.start + span.len - 1) (by omega) (by omega)
  have := (List.getElem?_eq_some_iff.mp hlast).1
  omega

/-- The groups around the run, with as many zeros between them as are missing. -/
theorem Covers.split {segments : List UInt16} {span : Span} (h : Covers segments span) :
    segments.take span.start ++ List.replicate span.len 0 ++
      segments.drop (span.start + span.len) = segments := by
  have hmiddle : (segments.drop span.start).take span.len = List.replicate span.len 0 ∨
      span.len = 0 := by
    rcases Nat.eq_zero_or_pos span.len with hlen | hlen
    · exact .inr hlen
    · have hend := h.end_le hlen
      refine .inl (List.eq_replicate_iff.mpr ⟨?_, ?_⟩)
      · rw [List.length_take, List.length_drop]
        omega
      · intro g hg
        obtain ⟨j, hj, rfl⟩ := List.mem_iff_getElem.mp hg
        rw [List.length_take] at hj
        have hzero := h (span.start + j) (by omega) (by omega)
        obtain ⟨hlt, hvalue⟩ := List.getElem?_eq_some_iff.mp hzero
        rw [List.getElem_take, List.getElem_drop]
        exact hvalue
  rcases hmiddle with hmiddle | hlen
  · rw [← hmiddle, List.append_assoc, ← List.drop_drop, List.take_append_drop,
      List.take_append_drop]
  · rw [hlen, List.replicate_zero, List.append_nil, Nat.add_zero, List.take_append_drop]

end Zeros

section Addresses

theorem ipv6OfSegments_segments (x : Ipv6Addr) : ipv6OfSegments x.segments = some x :=
  dif_pos x.length_eq

theorem readIpv6Addr_displaySegments (x : Ipv6Addr) :
    readIpv6Addr (displaySegments x.segments) = some (x, []) := by
  have hread : readGroups 8 8 0 (groupText 0 x.segments ++ []) = (x.segments, false, []) :=
    readGroups_groupText x.length_eq.le (.inl rfl) List.not_mem_nil
  rw [List.append_nil, ← displaySegments_eq_groupText] at hread
  unfold readIpv6Addr
  rw [hread]
  dsimp only
  rw [if_pos x.length_eq, ipv6OfSegments_segments]
  rfl

/-- Two colons stand for the groups that are missing between the ones before and behind. -/
theorem readIpv6Addr_of_groups {s left rest : Str} {head tail : List UInt16} {flag : Bool}
    {x : Ipv6Addr} (hhead : readGroups 8 8 0 s = (head, false, ':' :: ':' :: left))
    (hshort : head.length ≠ 8)
    (htail : readGroups (8 - (head.length + 1)) (8 - (head.length + 1)) 0 left =
      (tail, flag, rest))
    (hx : head ++ List.replicate (8 - head.length - tail.length) 0 ++ tail = x.segments) :
    readIpv6Addr s = some (x, rest) := by
  unfold readIpv6Addr
  rw [hhead]
  dsimp only
  rw [if_neg hshort, if_neg Bool.false_ne_true]
  change Option.map _ _ = _
  dsimp only
  rw [htail]
  dsimp only
  rw [hx, ipv6OfSegments_segments]
  rfl

theorem readIpv6Addr_zeroes {x : Ipv6Addr} {span : Span} (h : Covers x.segments span)
    (hlen : 0 < span.len) :
    readIpv6Addr (displaySegments (x.segments.take span.start) ++ "::".toList ++
      displaySegments (x.segments.drop (span.start + span.len))) = some (x, []) := by
  have hend := h.end_le hlen
  have hlength := x.length_eq
  have hheadLength : (x.segments.take span.start).length = span.start := by
    rw [List.length_take]
    omega
  have htailLength : (x.segments.drop (span.start + span.len)).length =
      8 - span.start - span.len := by
    rw [List.length_drop]
    omega
  have hsplit := h.split
  simp only [displaySegments_eq_groupText, List.append_assoc]
  generalize x.segments.take span.start = head at *
  generalize x.segments.drop (span.start + span.len) = tail at *
  have hhead : readGroups 8 8 0 (groupText 0 head ++ ("::".toList ++ groupText 0 tail)) =
      (head, false, ':' :: ':' :: groupText 0 tail) :=
    readGroups_groupText (by omega) (.inr ⟨_, rfl⟩) (by simp [dot_notMem_groupText])
  have htail : readGroups (8 - (head.length + 1)) (8 - (head.length + 1)) 0
      (groupText 0 tail ++ []) = (tail, false, []) :=
    readGroups_groupText (by omega) (.inl rfl) List.not_mem_nil
  rw [List.append_nil] at htail
  refine readIpv6Addr_of_groups hhead (by omega) htail ?_
  rw [show 8 - head.length - tail.length = span.len by omega]
  exact hsplit

theorem word_of_bytes (g : UInt16) :
    UInt16.ofNat (256 * ((g >>> 8).toUInt8).toNat + (g.toUInt8).toNat) = g := by
  refine UInt16.toNat_inj.mp ?_
  have hlt := g.toNat_lt
  have hhigh : (g >>> 8).toUInt8.toNat = g.toNat / 256 := by
    rw [UInt16.toNat_toUInt8, UInt16.toNat_shiftRight]
    change g.toNat >>> 8 % 256 = g.toNat / 256
    rw [Nat.shiftRight_eq_div_pow]
    omega
  rw [UInt16.toNat_ofNat', hhigh, UInt16.toNat_toUInt8]
  omega

theorem toIpv4Mapped_eq_some {x : Ipv6Addr} {v4 : Ipv4Addr} (h : x.toIpv4Mapped = some v4) :
    x.segments = [0, 0, 0, 0, 0, 0xffff, UInt16.ofNat (256 * v4.a.toNat + v4.b.toNat),
      UInt16.ofNat (256 * v4.c.toNat + v4.d.toNat)] := by
  unfold Ipv6Addr.toIpv4Mapped at h
  split at h
  · next g₁ g₂ hsegments =>
    cases h
    rw [hsegments, word_of_bytes, word_of_bytes]
  · cases h

theorem readIpv6Addr_mapped {x : Ipv6Addr} {v4 : Ipv4Addr} (h : x.toIpv4Mapped = some v4) :
    readIpv6Addr ("::ffff:".toList ++ v4.display) = some (x, []) := by
  have hembedded : readIpv4Addr v4.display = some (v4, []) :=
    readIpv4Addr_iff.mpr ⟨(List.append_nil _).symm, endsNumber_nil⟩
  have hfront : ∀ s : Str, readIpv4Addr (':' :: s) = none :=
    fun s => readIpv4Addr_eq_none_of_head (endsNumber_cons rfl)
  have hgroup : readIpv4Addr ("ffff:".toList ++ v4.display) = none :=
    readIpv4Addr_eq_none_of_head (endsNumber_cons rfl)
  have hffff : readNumber 16 4 true 0xffff ("ffff".toList ++ ':' :: v4.display) =
      some (0xffff, ':' :: v4.display) := readNumber_toDigits le_rfl (endsGroup_colon _)
  have hsecond : readGroups 7 6 1 (':' :: v4.display) =
      ([UInt16.ofNat (256 * v4.a.toNat + v4.b.toNat),
        UInt16.ofNat (256 * v4.c.toNat + v4.d.toNat)], true, []) := by
    have hsep : readSeparator ':' 1 readIpv4Addr (':' :: v4.display) = some (v4, []) :=
      readSeparator_succ_iff.mpr ⟨_, rfl, hembedded⟩
    unfold readGroups
    rw [if_pos (by decide), hsep]
  have htail : readGroups 7 7 0 ("ffff:".toList ++ v4.display) =
      (0xffff :: [UInt16.ofNat (256 * v4.a.toNat + v4.b.toNat),
        UInt16.ofNat (256 * v4.c.toNat + v4.d.toNat)], true, []) := by
    unfold readGroups
    rw [show readSeparator ':' 0 readIpv4Addr ("ffff:".toList ++ v4.display) = none from hgroup,
      ite_self]
    dsimp only
    rw [show readSeparator ':' 0 (readNumber 16 4 true 0xffff) ("ffff:".toList ++ v4.display) =
      some (0xffff, ':' :: v4.display) from hffff]
    dsimp only
    rw [hsecond]
    rfl
  have hhead : readGroups 8 8 0 ("::ffff:".toList ++ v4.display) =
      ([], false, ':' :: ':' :: ("ffff:".toList ++ v4.display)) := by
    unfold readGroups
    rw [show readSeparator ':' 0 readIpv4Addr ("::ffff:".toList ++ v4.display) = none
      from hfront (":ffff:".toList ++ v4.display), ite_self]
    dsimp only
    rw [show readSeparator ':' 0 (readNumber 16 4 true 0xffff) ("::ffff:".toList ++ v4.display) =
      none from readNumber_of_endsGroup (endsGroup_colon (":ffff:".toList ++ v4.display))]
    rfl
  exact readIpv6Addr_of_groups hhead (by decide) htail (toIpv4Mapped_eq_some h).symm

theorem readIpv6Addr_display (x : Ipv6Addr) : readIpv6Addr x.display = some (x, []) := by
  unfold Ipv6Addr.display
  split
  · next v4 hmapped => exact readIpv6Addr_mapped hmapped
  · dsimp only
    split
    · next hlen => exact readIpv6Addr_zeroes (covers_zeroes x.segments) (by omega)
    · exact readIpv6Addr_displaySegments x

theorem readIpv4Addr_display_v6 (x : Ipv6Addr) : readIpv4Addr x.display = none := by
  have hsegments : ∀ gs : List UInt16, '.' ∉ displaySegments gs := by
    intro gs
    rw [displaySegments_eq_groupText]
    exact dot_notMem_groupText 0 gs
  unfold Ipv6Addr.display
  split
  · exact readIpv4Addr_eq_none_of_head (endsNumber_cons rfl)
  · dsimp only
    split
    · refine readIpv4Addr_eq_none_of_no_dot ?_
      simp [hsegments]
    · exact readIpv4Addr_eq_none_of_no_dot (hsegments _)

/-- `to_string` and `parse` of an address are inverse to each other in this order. -/
theorem IpAddr.parse_display (x : IpAddr) : IpAddr.parse x.display = some x := by
  refine parseWith_eq_some_iff.mpr ?_
  unfold readIpAddr
  cases x with
  | v4 x =>
    have hread : readIpv4Addr x.display = some (x, []) :=
      readIpv4Addr_iff.mpr ⟨(List.append_nil _).symm, endsNumber_nil⟩
    rw [IpAddr.display, hread]
  | v6 x =>
    rw [IpAddr.display, readIpv4Addr_display_v6, readIpv6Addr_display]
    rfl

end Addresses

end BarebonesProxy.RustNet
