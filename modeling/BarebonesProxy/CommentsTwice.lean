import BarebonesProxy.ConfigComments

set_option autoImplicit false

/-!
# Stripping comments twice

A comment becomes blanks, and a blank is a lexical boundary. The end of a block comment is
none in the text itself, so an opener right behind it is passed over by the first scan and
seen by the second.
-/
namespace BarebonesProxy.ConfigParser
open RustStrings

section Boundaries

/-- The characters behind which a comment can open. -/
def endsToken (c : Char) : Bool := c == ' ' || c == '\t' || c == ';' || c == '\n'

/-- The search for a line start adds nothing to the look at the character before. -/
theorem isBoundary_cons (c : Char) (before : Str) : isBoundary (c :: before) = endsToken c := by
  unfold isBoundary
  dsimp only
  by_cases hc : endsToken c = true
  · rw [hc]
    exact if_pos hc
  · have hfalse : endsToken c = false := by simpa using hc
    refine (if_neg hc).trans ?_
    rw [hfalse]
    simp only [endsToken, Bool.or_eq_false_iff] at hfalse
    obtain ⟨⟨⟨hspace, htab⟩, -⟩, hnewline⟩ := hfalse
    simp [bne, hspace, htab, hnewline]

/-- A mark that would open a comment: `c` is its first character. -/
def Opens (c : Char) (rest : Str) : Prop := c = '/' ∧ (rest.head? = some '/' ∨ rest.head? = some '*')

theorem nextMode_code_iff {before rest : Str} {c : Char} :
    nextMode .code before c rest = .code ↔ ¬ (Opens c rest ∧ isBoundary before = true) := by
  simp only [nextMode, Opens]
  split
  · next h => simp [h]
  · next hline =>
    split
    · next h => simp [h]
    · next hblock =>
      refine iff_of_true rfl ?_
      rintro ⟨⟨hc, hslash | hstar⟩, hbefore⟩
      · exact hline ⟨hc, hslash, hbefore⟩
      · exact hblock ⟨hc, hstar, hbefore⟩

theorem nextMode_eq_code {m : Mode} {before rest : Str} {c : Char}
    (h : nextMode m before c rest = .code) :
    m = .code ∨ (m = .line ∧ c = '\n') ∨ m = .closer := by
  cases m with
  | code => exact .inl rfl
  | closer => exact .inr (.inr rfl)
  | line =>
    simp only [nextMode] at h
    split at h
    · next hc => exact .inr (.inl ⟨rfl, hc⟩)
    · cases h
  | block =>
    simp only [nextMode] at h
    split at h <;> cases h
  | _ => cases h

theorem nextMode_eq_closer {m : Mode} {before rest : Str} {c : Char}
    (h : nextMode m before c rest = .closer) : m = .block ∧ rest.head? = some '/' := by
  cases m with
  | code =>
    simp only [nextMode] at h
    split at h
    · cases h
    · split at h <;> cases h
  | line =>
    simp only [nextMode] at h
    split at h <;> cases h
  | block =>
    simp only [nextMode] at h
    split at h
    · next hclose => exact ⟨rfl, hclose.2⟩
    · cases h
  | _ => cases h

/-- Behind a slash nothing opens, so the next character is copied. -/
theorem head_strip_slash (before rest : Str) :
    (stripFrom .code ('/' :: before) rest).head? = rest.head? := by
  cases rest with
  | nil => rfl
  | cons c rest =>
    have hmode : nextMode .code ('/' :: before) c rest = .code := by
      rw [nextMode_code_iff, isBoundary_cons]
      exact fun h => absurd h.2 (by decide)
    rw [stripFrom_cons, hmode]
    rfl

end Boundaries

section Openers

/-- Some opener in the text stands at a boundary; `before` is what is in front of the text,
last character first. -/
inductive OpenerLeft : Str → Str → Prop
  | here {before rest : Str} {c : Char} (hopen : Opens c rest) (hbefore : isBoundary before = true) :
      OpenerLeft before (c :: rest)
  | later {before rest : Str} {c : Char} (h : OpenerLeft (c :: before) rest) :
      OpenerLeft before (c :: rest)

/-- In the scan of a text, some opener stands right behind a block comment. -/
inductive Reopens : Mode → Str → Str → Prop
  | here {before rest : Str} {c d : Char} (hopen : Opens d rest) :
      Reopens .closer before (c :: d :: rest)
  | later {m : Mode} {before rest : Str} {c : Char}
      (h : Reopens (nextMode m before c rest) (c :: before) rest) : Reopens m before (c :: rest)

def OpensAt (text : Str) : Prop := ∃ c rest, text = c :: rest ∧ Opens c rest

theorem openerLeft_cons {before rest : Str} {c : Char} :
    OpenerLeft before (c :: rest) ↔
      (Opens c rest ∧ isBoundary before = true) ∨ OpenerLeft (c :: before) rest := by
  constructor
  · rintro (⟨hopen, hbefore⟩ | h)
    · exact .inl ⟨hopen, hbefore⟩
    · exact .inr h
  · rintro (⟨hopen, hbefore⟩ | h)
    · exact .here hopen hbefore
    · exact .later h

theorem reopens_cons {m : Mode} {before rest : Str} {c : Char} :
    Reopens m before (c :: rest) ↔
      (m = .closer ∧ OpensAt rest) ∨ Reopens (nextMode m before c rest) (c :: before) rest := by
  constructor
  · intro h
    cases h with
    | here hopen => exact .inl ⟨rfl, _, _, rfl, hopen⟩
    | later h => exact .inr h
  · rintro (⟨rfl, d, rest, rfl, hopen⟩ | h)
    · exact .here hopen
    · exact .later h

/-- A text is left as it is exactly when no opener stands at a boundary. -/
theorem stripFrom_eq_self_iff (before text : Str) :
    stripFrom .code before text = text ↔ ¬ OpenerLeft before text := by
  induction text generalizing before with
  | nil => exact iff_of_true rfl nofun
  | cons c rest ih =>
    rw [stripFrom_cons, openerLeft_cons]
    by_cases hmode : nextMode .code before c rest = .code
    · rw [hmode]
      have hcopied : stripped .code .code c = c := rfl
      rw [hcopied, List.cons.injEq, ih (c :: before)]
      simp [nextMode_code_iff.mp hmode]
    · have hopen := not_not.mp (mt nextMode_code_iff.mpr hmode)
      refine iff_of_false ?_ (not_not.mpr (.inl hopen))
      rw [stripped_opener hmode, hopen.1.1]
      intro h
      exact absurd (List.cons.inj h).1 (by decide)

theorem stripped_ne_slash {m m' : Mode} (hm : m ≠ .code ∨ m' ≠ .code) (c : Char) :
    stripped m m' c ≠ '/' := by
  cases m <;> cases m' <;> simp_all [stripped] <;> split <;> decide

end Openers

section Twice

/-- What the scan knows: between the two halves of a closing mark comes a slash, and what
was written ends at a boundary if the text does, or if a block comment was just closed. -/
structure Aligned (m : Mode) (before written rest : Str) (closed : Prop) : Prop where
  mark : m = .closer → rest.head? = some '/'
  code : m = .code → (isBoundary written = true ↔ isBoundary before = true ∨ closed)
  closed : closed → m = .code ∧ isBoundary before = false

theorem Aligned.next {m : Mode} {before written rest : Str} {c : Char} {closed : Prop}
    (h : Aligned m before written (c :: rest) closed) :
    Aligned (nextMode m before c rest) (c :: before)
      (stripped m (nextMode m before c rest) c :: written) rest (m = .closer) := by
  refine ⟨fun hnext => (nextMode_eq_closer hnext).2, ?_, ?_⟩
  · intro hnext
    rw [hnext, isBoundary_cons, isBoundary_cons]
    obtain rfl | ⟨rfl, rfl⟩ | rfl := nextMode_eq_code hnext
    · simp [stripped]
    · decide
    · simp [stripped, endsToken]
  · rintro rfl
    have hc : c = '/' := Option.some.inj (h.mark rfl)
    rw [hc, isBoundary_cons]
    exact ⟨rfl, rfl⟩

/-- An opener of the text is left at a boundary of the output exactly behind a closed block
comment. -/
theorem opener_written_iff {m : Mode} {before written rest : Str} {c : Char} {closed : Prop}
    (h : Aligned m before written (c :: rest) closed) :
    Opens (stripped m (nextMode m before c rest) c)
        (stripFrom (nextMode m before c rest) (c :: before) rest) ∧ isBoundary written = true ↔
      closed ∧ Opens c rest := by
  by_cases hboth : m = .code ∧ nextMode m before c rest = .code
  · obtain ⟨rfl, hmode⟩ := hboth
    have hnot := nextMode_code_iff.mp hmode
    have hcopied : stripped .code .code c = c := rfl
    have hsame : Opens c (stripFrom .code (c :: before) rest) ↔ Opens c rest := by
      refine and_congr_right fun hc => ?_
      rw [hc, head_strip_slash]
    rw [hmode, hcopied, hsame, h.code rfl]
    tauto
  · have hblank := stripped_ne_slash (not_and_or.mp hboth) c
    refine iff_of_false (fun hopen => hblank hopen.1.1) ?_
    rintro ⟨hclosed, hopen⟩
    obtain ⟨rfl, hbefore⟩ := h.closed hclosed
    refine hboth ⟨rfl, nextMode_code_iff.mpr fun hstarts => ?_⟩
    rw [hbefore] at hstarts
    cases hstarts.2

theorem openerLeft_strip_iff {m : Mode} {before written rest : Str} {closed : Prop}
    (h : Aligned m before written rest closed) :
    OpenerLeft written (stripFrom m before rest) ↔
      (closed ∧ OpensAt rest) ∨ Reopens m before rest := by
  induction rest generalizing m before written closed with
  | nil =>
    refine iff_of_false (by cases m <;> exact nofun) ?_
    rintro (⟨-, c, rest, hnil, -⟩ | hreopens)
    · cases hnil
    · cases hreopens
  | cons c rest ih =>
    have hat : OpensAt (c :: rest) ↔ Opens c rest := by
      constructor
      · rintro ⟨d, rest', heq, hopen⟩
        cases heq
        exact hopen
      · exact fun hopen => ⟨c, rest, rfl, hopen⟩
    rw [stripFrom_cons, openerLeft_cons, ih h.next, opener_written_iff h, reopens_cons, hat]

/-- Stripping twice is stripping once exactly when no opener is left at a boundary of the
output, and that is when no opener stands right behind a block comment. -/
theorem stripComments_idempotent_iff (input : Str) :
    (stripComments (stripComments input) = stripComments input ↔
      ¬ OpenerLeft [] (stripComments input)) ∧
    (OpenerLeft [] (stripComments input) ↔ Reopens .code [] input) := by
  refine ⟨stripFrom_eq_self_iff [] _, ?_⟩
  have haligned : Aligned .code [] [] input False := ⟨nofun, fun _ => by simp, nofun⟩
  have hiff := openerLeft_strip_iff haligned
  rwa [false_and, false_or] at hiff

/-- A line comment right behind a block comment is left by the first pass. -/
theorem stripped_again :
    stripComments "/**/// x".toList = "    // x".toList ∧
      stripComments (stripComments "/**/// x".toList) = "        ".toList := by decide

end Twice

end BarebonesProxy.ConfigParser
