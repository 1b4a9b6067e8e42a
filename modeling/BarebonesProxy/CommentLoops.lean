import BarebonesProxy.CommentsTwice
import BarebonesProxy.Loops

set_option autoImplicit false

/-!
# The loops of `strip_comments`

The source scans a vector with one index that four loops share. Here they stand as they are
written, with every access checked. They end on every input without a panic and compute
`stripComments`; what they write keeps the layout of the input.
-/
namespace BarebonesProxy.ConfigParser
open RustStrings Loops

section Source

/-- The output so far and the index. -/
structure Cursor where
  result : Str
  i : ℕ

def Cursor.push (s : Cursor) (c : Char) : Cursor := ⟨s.result ++ [c], s.i + 1⟩

/-- The search backwards for a line start; true if it meets only blanks. -/
def lineStartTurn (chars : Str) (temp : ℕ) : Exec (ℕ ⊕ Bool) :=
  if 0 < temp then do
    let c ← index chars (temp - 1)
    if c = '\n' then return .inr true
    else if c ≠ ' ' ∧ c ≠ '\t' then return .inr false
    else return .inl (temp - 1)
  else return .inr true

def boundaryLoop (chars : Str) (fuel i : ℕ) : Exec Bool :=
  if i = 0 then return true
  else do
    let prev ← index chars (i - 1)
    if prev = ' ' ∨ prev = '\t' ∨ prev = ';' ∨ prev = '\n' then return true
    else loop (lineStartTurn chars) fuel i

def lineTurn (chars : Str) (s : Cursor) : Exec (Cursor ⊕ Cursor) :=
  if s.i < chars.length then do
    let c ← index chars s.i
    if c ≠ '\n' then return .inl (s.push ' ') else return .inr s
  else return .inr s

/-- `chars[i] == first && i + 1 < chars.len()`, then the second character. -/
def markAt (chars : Str) (first : Char) (i : ℕ) : Exec (Option Char) := do
  let c ← index chars i
  if c = first ∧ i + 1 < chars.length then return some (← index chars (i + 1)) else return none

def blockTurn (chars : Str) (s : Cursor) : Exec (Cursor ⊕ Cursor) :=
  if s.i < chars.length then do
    let second ← markAt chars '*' s.i
    if second = some '/' then return .inr ((s.push ' ').push ' ')
    else
      let c ← index chars s.i
      if c = '\n' then return .inl (s.push '\n') else return .inl (s.push ' ')
  else return .inr s

def codeTurn (chars : Str) (fuel : ℕ) (s : Cursor) : Exec (Cursor ⊕ Str) :=
  if s.i < chars.length then do
    let second ← markAt chars '/' s.i
    if second = some '/' ∨ second = some '*' then
      if ← boundaryLoop chars fuel s.i then
        if second = some '/' then return .inl (← loop (lineTurn chars) fuel ((s.push ' ').push ' '))
        else return .inl (← loop (blockTurn chars) fuel ((s.push ' ').push ' '))
      else return .inl (s.push (← index chars s.i))
    else return .inl (s.push (← index chars s.i))
  else return .inr s.result

/-- `strip_comments` as written; the fuel bounds the turns of each loop. -/
def stripCommentsLoop (fuel : ℕ) (input : Str) : Exec Str :=
  loop (codeTurn input fuel) fuel ⟨[], 0⟩

end Source

section Positions
variable {chars : Str} {i : ℕ} {c : Char}

theorem reverse_take_succ (h : chars[i]? = some c) :
    (chars.take (i + 1)).reverse = c :: (chars.take i).reverse := by
  rw [List.take_add_one, h, List.reverse_append]
  rfl

theorem drop_of_getElem? (h : chars[i]? = some c) : chars.drop i = c :: chars.drop (i + 1) := by
  obtain ⟨hi, rfl⟩ := List.getElem?_eq_some_iff.mp h
  exact List.drop_eq_getElem_cons hi

end Positions

section Refinement
variable {chars : Str} {m : Mode} {s : Cursor} {c : Char} {fuel : ℕ}

/-- The mode that follows the character at the index. -/
def modeAt (chars : Str) (m : Mode) (i : ℕ) (c : Char) : Mode :=
  nextMode m (chars.take i).reverse c (chars.drop (i + 1))

/-- Scanned in mode `m` from the index on, the rest completes the output. -/
structure Due (chars : Str) (m : Mode) (s : Cursor) : Prop where
  within : s.i ≤ chars.length
  output : s.result ++ stripFrom m (chars.take s.i).reverse (chars.drop s.i) = stripComments chars

theorem Due.push (h : Due chars m s) (hc : chars[s.i]? = some c) :
    Due chars (modeAt chars m s.i c) (s.push (stripped m (modeAt chars m s.i c) c)) := by
  obtain ⟨hi, -⟩ := List.getElem?_eq_some_iff.mp hc
  refine ⟨hi, ?_⟩
  have houtput := h.output
  rw [drop_of_getElem? hc, stripFrom_cons] at houtput
  rw [← houtput]
  unfold Cursor.push modeAt
  dsimp only
  rw [reverse_take_succ hc, List.append_assoc]
  rfl

theorem Due.push_as {m' : Mode} {d : Char} (h : Due chars m s) (hc : chars[s.i]? = some c)
    (hmode : modeAt chars m s.i c = m') (hd : stripped m m' c = d) : Due chars m' (s.push d) := by
  have hnext := h.push hc
  rw [hmode, hd] at hnext
  exact hnext

theorem Due.of_end (h : Due chars m s) (hend : ¬ s.i < chars.length) :
    s.result = stripComments chars := by
  have houtput := h.output
  rw [List.drop_eq_nil_of_le (by omega)] at houtput
  rw [← houtput]
  cases m <;> exact (List.append_nil _).symm

theorem Due.at_end (h : Due chars m s) (hend : ¬ s.i < chars.length) (m' : Mode) :
    Due chars m' s := by
  refine ⟨h.within, ?_⟩
  rw [List.drop_eq_nil_of_le (by omega), ← h.of_end hend]
  cases m' <;> exact List.append_nil _

/-- Behind position `s`, with the rest to be scanned in mode `m`. -/
def Advances (chars : Str) (m : Mode) (s s' : Cursor) : Prop := Due chars m s' ∧ s.i < s'.i

/-- A loop of the scan ends: every turn in mode `m` leaves the loop or moves the index. -/
theorem scan_ends {ρ : Type} {turn : Cursor → Exec (Cursor ⊕ ρ)} {post : Cursor → ρ → Prop}
    (hturn : ∀ s, Due chars m s → Ends (turn s) (Sum.elim (Advances chars m s) (post s)))
    (hback : ∀ s s' r, s.i ≤ s'.i → post s' r → post s r)
    (h : Due chars m s) (hfuel : chars.length < fuel) : Ends (loop turn fuel s) (post s) := by
  refine ends_loop (fun s' => Due chars m s' ∧ s.i ≤ s'.i) (fun s' => chars.length - s'.i) ?_
    ⟨h, le_rfl⟩ (by omega)
  rintro s' ⟨hdue, hle⟩
  obtain ⟨next, hnext, hpost⟩ := hturn s' hdue
  refine ⟨next, hnext, ?_⟩
  cases next with
  | inl s'' =>
    obtain ⟨hdue', hahead⟩ := hpost
    have hwithin := hdue'.within
    exact ⟨⟨hdue', by omega⟩, by omega⟩
  | inr r => exact hback s s' r hle hpost

end Refinement

section Boundaries
variable {chars : Str} {i fuel : ℕ} {c : Char}

/-- Only blanks stand between the line start and position `i`. -/
def blanksBefore (chars : Str) (i : ℕ) : Bool :=
  ((chars.take i).reverse.takeWhile (· != '\n')).all fun c => c == ' ' || c == '\t'

theorem blanksBefore_succ (h : chars[i]? = some c) :
    blanksBefore chars (i + 1) =
      if c = '\n' then true else if c ≠ ' ' ∧ c ≠ '\t' then false else blanksBefore chars i := by
  unfold blanksBefore
  rw [reverse_take_succ h]
  by_cases hline : c = '\n'
  · rw [if_pos hline, List.takeWhile_cons_of_neg (by simp [hline])]
    rfl
  · rw [if_neg hline, List.takeWhile_cons_of_pos (by simp [hline]), List.all_cons]
    by_cases hblank : c = ' ' ∨ c = '\t'
    · rcases hblank with rfl | rfl <;> rfl
    · rw [not_or] at hblank
      rw [if_pos hblank]
      simp [hblank]

theorem lineStartLoop_ends (hi : i ≤ chars.length) (hfuel : i < fuel) :
    Ends (loop (lineStartTurn chars) fuel i) (· = blanksBefore chars i) := by
  refine ends_loop
    (fun temp => temp ≤ chars.length ∧ blanksBefore chars temp = blanksBefore chars i)
    id ?_ ⟨hi, rfl⟩ hfuel
  rintro temp ⟨htemp, hsame⟩
  unfold lineStartTurn
  cases temp with
  | zero => exact ends_pure hsame
  | succ temp =>
    rw [if_pos temp.succ_pos, Nat.add_sub_cancel]
    have hget : chars[temp]? = some chars[temp] := List.getElem?_eq_getElem htemp
    refine ends_bind (ends_index hget) ?_
    rintro c rfl
    rw [blanksBefore_succ hget] at hsame
    split at hsame
    · next hline =>
      rw [if_pos hline]
      exact ends_pure hsame
    · next hline =>
      rw [if_neg hline]
      split at hsame
      · next hword =>
        rw [if_pos hword]
        exact ends_pure hsame
      · next hword =>
        rw [if_neg hword]
        exact ends_pure ⟨⟨Nat.le_of_succ_le htemp, hsame⟩, Nat.lt_succ_self temp⟩

theorem boundaryLoop_ends (hi : i ≤ chars.length) (hfuel : i < fuel) :
    Ends (boundaryLoop chars fuel i) (· = isBoundary (chars.take i).reverse) := by
  unfold boundaryLoop
  cases i with
  | zero => exact ends_pure rfl
  | succ i =>
    have hget : chars[i]? = some chars[i] := List.getElem?_eq_getElem hi
    rw [if_neg i.succ_ne_zero, Nat.add_sub_cancel]
    refine ends_bind (ends_index hget) ?_
    rintro c rfl
    have hbefore := reverse_take_succ hget
    split
    · next hprev =>
      have htoken : endsToken chars[i] = true := by simpa [endsToken, or_assoc] using hprev
      refine ends_pure ?_
      rw [hbefore, isBoundary_cons, htoken]
    · next hprev =>
      obtain ⟨b, hb, rfl⟩ := lineStartLoop_ends hi hfuel
      refine ⟨_, hb, ?_⟩
      unfold blanksBefore isBoundary
      rw [hbefore]
      dsimp only
      rw [if_neg]
      simpa [or_assoc] using hprev

end Boundaries

section Comments
variable {chars : Str} {s : Cursor} {c : Char} {fuel : ℕ}

theorem markAt_ends {i : ℕ} (first : Char) (hc : chars[i]? = some c) :
    Ends (markAt chars first i) fun second =>
      ∀ d, second = some d ↔ c = first ∧ chars[i + 1]? = some d := by
  unfold markAt
  refine ends_bind (ends_index hc) ?_
  rintro c rfl
  split
  · next hmark =>
    refine ends_bind (ends_index (List.getElem?_eq_getElem hmark.2)) ?_
    rintro d rfl
    refine ends_pure fun e => ?_
    rw [List.getElem?_eq_getElem hmark.2]
    exact ⟨fun h => ⟨hmark.1, h⟩, fun h => h.2⟩
  · next hmark =>
    refine ends_pure fun d => ⟨nofun, ?_⟩
    rintro ⟨hfirst, hd⟩
    exact absurd ⟨hfirst, (List.getElem?_eq_some_iff.mp hd).1⟩ hmark

/-- A line comment ends in front of its line end, which the outer loop then copies. -/
theorem Due.line_end (h : Due chars .line s) (hc : chars[s.i]? = some '\n') :
    Due chars .code s := by
  refine ⟨h.within, ?_⟩
  rw [← h.output, drop_of_getElem? hc]
  rfl

/-- The comment is passed over and the outer loop goes on. -/
def Leaves (chars : Str) (s s' : Cursor) : Prop := Due chars .code s' ∧ s.i ≤ s'.i

theorem Leaves.back {s s' t : Cursor} (hle : s.i ≤ s'.i) (h : Leaves chars s' t) :
    Leaves chars s t :=
  ⟨h.1, hle.trans h.2⟩

theorem lineTurn_ends (h : Due chars .line s) :
    Ends (lineTurn chars s) (Sum.elim (Advances chars .line s) (Leaves chars s)) := by
  unfold lineTurn
  split
  · next hi =>
    have hget : chars[s.i]? = some chars[s.i] := List.getElem?_eq_getElem hi
    refine ends_bind (ends_index hget) ?_
    rintro c rfl
    split
    · next hc =>
      have hnext : Due chars .line (s.push ' ') := h.push_as hget (if_neg hc) (if_neg hc)
      exact ends_pure ⟨hnext, Nat.lt_succ_self s.i⟩
    · next hc =>
      rw [not_not] at hc
      exact ends_pure ⟨h.line_end (hc ▸ hget), le_rfl⟩
  · next hi => exact ends_pure ⟨h.at_end hi .code, le_rfl⟩

theorem lineLoop_ends (h : Due chars .line s) (hfuel : chars.length < fuel) :
    Ends (loop (lineTurn chars) fuel s) (Leaves chars s) :=
  scan_ends (fun _ => lineTurn_ends) (fun _ _ _ => Leaves.back) h hfuel

theorem modeAt_block (chars : Str) (i : ℕ) (c : Char) :
    modeAt chars .block i c = if c = '*' ∧ chars[i + 1]? = some '/' then .closer else .block := by
  simp only [modeAt, nextMode, List.head?_drop]

/-- A block comment ends behind its closing mark, or with the text. -/
theorem blockTurn_ends (h : Due chars .block s) :
    Ends (blockTurn chars s) (Sum.elim (Advances chars .block s) (Leaves chars s)) := by
  unfold blockTurn
  split
  · next hi =>
    have hget : chars[s.i]? = some chars[s.i] := List.getElem?_eq_getElem hi
    refine ends_bind (markAt_ends '*' hget) ?_
    intro second hsecond
    split
    · next hclose =>
      obtain ⟨hstar, hslash⟩ := (hsecond '/').mp hclose
      have hmode : modeAt chars .block s.i chars[s.i] = .closer := by
        rw [modeAt_block, if_pos ⟨hstar, hslash⟩]
      have hcloser : Due chars .closer (s.push ' ') := h.push_as hget hmode (by rw [hstar]; rfl)
      exact ends_pure ⟨hcloser.push_as hslash rfl rfl, Nat.le_add_right s.i 2⟩
    · next hopen =>
      have hmode : modeAt chars .block s.i chars[s.i] = .block := by
        rw [modeAt_block, if_neg fun hmark => hopen ((hsecond '/').mpr hmark)]
      refine ends_bind (ends_index hget) ?_
      rintro c rfl
      split
      · next hc => exact ends_pure ⟨h.push_as hget hmode (if_pos hc), Nat.lt_succ_self s.i⟩
      · next hc => exact ends_pure ⟨h.push_as hget hmode (if_neg hc), Nat.lt_succ_self s.i⟩
  · next hi => exact ends_pure ⟨h.at_end hi .code, le_rfl⟩

theorem blockLoop_ends (h : Due chars .block s) (hfuel : chars.length < fuel) :
    Ends (loop (blockTurn chars) fuel s) (Leaves chars s) :=
  scan_ends (fun _ => blockTurn_ends) (fun _ _ _ => Leaves.back) h hfuel

end Comments

section Code
variable {chars : Str} {s : Cursor} {c : Char} {fuel : ℕ}

theorem modeAt_code (chars : Str) (i : ℕ) (c : Char) :
    modeAt chars .code i c =
      if c = '/' ∧ chars[i + 1]? = some '/' ∧ isBoundary (chars.take i).reverse then .lineOpener
      else if c = '/' ∧ chars[i + 1]? = some '*' ∧ isBoundary (chars.take i).reverse then .blockOpener
      else .code := by
  simp only [modeAt, nextMode, List.head?_drop]

theorem Due.line_comment (h : Due chars .code s) (hfirst : chars[s.i]? = some '/')
    (hnext : chars[s.i + 1]? = some '/') (hboundary : isBoundary (chars.take s.i).reverse = true) :
    Due chars .line ((s.push ' ').push ' ') := by
  have hmode : modeAt chars .code s.i '/' = .lineOpener := by
    rw [modeAt_code, if_pos ⟨rfl, hnext, hboundary⟩]
  have hopener : Due chars .lineOpener (s.push ' ') := h.push_as hfirst hmode rfl
  exact hopener.push_as hnext rfl rfl

theorem Due.block_comment (h : Due chars .code s) (hfirst : chars[s.i]? = some '/')
    (hnext : chars[s.i + 1]? = some '*') (hboundary : isBoundary (chars.take s.i).reverse = true) :
    Due chars .block ((s.push ' ').push ' ') := by
  have hmode : modeAt chars .code s.i '/' = .blockOpener := by
    rw [modeAt_code, hnext, if_neg fun h => absurd h.2.1 (by decide), if_pos ⟨rfl, rfl, hboundary⟩]
  have hopener : Due chars .blockOpener (s.push ' ') := h.push_as hfirst hmode rfl
  exact hopener.push_as hnext rfl rfl

/-- One turn of the outer loop: it passes over a comment or copies a character. -/
theorem codeTurn_ends (h : Due chars .code s) (hfuel : chars.length < fuel) :
    Ends (codeTurn chars fuel s) (Sum.elim (Advances chars .code s) (· = stripComments chars)) := by
  unfold codeTurn
  split
  · next hi =>
    have hget : chars[s.i]? = some chars[s.i] := List.getElem?_eq_getElem hi
    have hcopy : modeAt chars .code s.i chars[s.i] = .code →
        Ends (do return Sum.inl (s.push (← index chars s.i)))
          (Sum.elim (Advances chars .code s) (· = stripComments chars)) := by
      intro hmode
      refine ends_bind (ends_index hget) ?_
      rintro c rfl
      exact ends_pure ⟨h.push_as hget hmode rfl, Nat.lt_succ_self s.i⟩
    have hcomment : ∀ s', Leaves chars ((s.push ' ').push ' ') s' → Ends (pure (Sum.inl s'))
        (Sum.elim (Advances chars .code s) (· = stripComments chars)) := by
      rintro s' ⟨hdue, hle⟩
      exact ends_pure ⟨hdue, Nat.lt_of_succ_le (Nat.le_of_succ_le hle)⟩
    refine ends_bind (markAt_ends '/' hget) ?_
    intro second hsecond
    split
    · next hmark =>
      refine ends_bind (boundaryLoop_ends h.within (by omega)) ?_
      rintro boundary rfl
      split
      · next hboundary =>
        split
        · next hslash =>
          obtain ⟨hfirst, hnext⟩ := (hsecond '/').mp hslash
          have hline := h.line_comment (hfirst ▸ hget) hnext hboundary
          exact ends_bind (lineLoop_ends hline hfuel) hcomment
        · next hslash =>
          obtain ⟨hfirst, hnext⟩ := (hsecond '*').mp (hmark.resolve_left hslash)
          have hblock := h.block_comment (hfirst ▸ hget) hnext hboundary
          exact ends_bind (blockLoop_ends hblock hfuel) hcomment
      · next hboundary =>
        refine hcopy ?_
        rw [modeAt_code, if_neg fun h => hboundary h.2.2, if_neg fun h => hboundary h.2.2]
    · next hmark =>
      refine hcopy ?_
      rw [modeAt_code, if_neg fun h => hmark (.inl ((hsecond '/').mpr ⟨h.1, h.2.1⟩)),
        if_neg fun h => hmark (.inr ((hsecond '*').mpr ⟨h.1, h.2.1⟩))]
  · next hi => exact ends_pure (h.of_end hi)

/-- The loops end on every input, without a panic, and write what `stripComments` gives. -/
theorem stripCommentsLoop_eq {input : Str} (hfuel : input.length < fuel) :
    stripCommentsLoop fuel input = .ok (stripComments input) := by
  have hstart : Due input .code ⟨[], 0⟩ := ⟨Nat.zero_le _, rfl⟩
  obtain ⟨output, houtput, rfl⟩ := scan_ends (fun _ hdue => codeTurn_ends hdue hfuel)
    (fun _ _ _ _ hsame => hsame) hstart hfuel
  exact houtput

end Code

section Layout

/-- The character itself, or a space in the place of anything but a line end. -/
def Blanked (c d : Char) : Prop := d = c ∨ (d = ' ' ∧ c ≠ '\n')

theorem Blanked.newline_iff {c d : Char} (h : Blanked c d) : c = '\n' ↔ d = '\n' := by
  rcases h with rfl | ⟨rfl, hc⟩
  · exact Iff.rfl
  · exact iff_of_false hc (by decide)

theorem blanked_stripped {m : Mode} {before rest : Str} {c : Char}
    (hmark : m.inMark = true → c ≠ '\n') :
    Blanked c (stripped m (nextMode m before c rest) c) := by
  have hcomment : Blanked c (if c = '\n' then '\n' else ' ') := by
    split
    · next hc => exact .inl hc.symm
    · next hc => exact .inr ⟨rfl, hc⟩
  cases m with
  | code =>
    by_cases hmode : nextMode .code before c rest = .code
    · rw [hmode]
      exact .inl rfl
    · have hopen := not_not.mp (mt nextMode_code_iff.mpr hmode)
      rw [stripped_opener hmode, hopen.1.1]
      exact .inr ⟨rfl, by decide⟩
  | line => exact hcomment
  | block => exact hcomment
  | _ => exact .inr ⟨rfl, hmark rfl⟩

/-- Only a slash or a star is the second half of a mark, so no line end is written over. -/
theorem stripFrom_blanked {m : Mode} {text : Str} (hmark : m.inMark = true → text.head? ≠ some '\n')
    (before : Str) : List.Forall₂ Blanked text (stripFrom m before text) := by
  induction text generalizing m before with
  | nil => cases m <;> exact .nil
  | cons c rest ih =>
    rw [stripFrom_cons]
    refine .cons (blanked_stripped fun hm hc => hmark hm (congrArg some hc)) (ih ?_ (c :: before))
    intro hnext hline
    rcases head_of_inMark hnext with hhead | hhead
    · cases hline.symm.trans hhead
    · cases hline.symm.trans hhead

theorem stripComments_blanked (input : Str) : List.Forall₂ Blanked input (stripComments input) :=
  stripFrom_blanked (fun h => by cases h) []

/-- A line and the line written for it. The carriage return of a line end is no part of the line;
in a comment it is blanked like the rest and then is. -/
def LineBlanked (line written : Str) : Prop :=
  ∃ kept, List.Forall₂ Blanked line kept ∧ (written = kept ∨ written = kept ++ [' '])

theorem lineBlanked_closedLine {line written : Str} (h : List.Forall₂ Blanked line written) :
    LineBlanked (closedLine line) (closedLine written) := by
  induction line using List.reverseRecOn with
  | nil =>
    cases h
    exact ⟨[], .nil, .inl rfl⟩
  | append_singleton line c _ =>
    rcases List.eq_nil_or_concat written with rfl | ⟨written, d, rfl⟩
    · exact absurd h.length_eq (by simp)
    rw [List.concat_eq_append, forall₂_concat] at h
    obtain ⟨hline, hlast⟩ := h
    rw [List.concat_eq_append, closedLine_concat, closedLine_concat]
    by_cases hc : c = '\r'
    · rw [if_pos hc]
      refine ⟨written, hline, ?_⟩
      rcases hlast with rfl | ⟨rfl, -⟩
      · exact .inl (if_pos hc)
      · exact .inr (if_neg (by decide))
    · rw [if_neg hc, if_neg]
      · exact ⟨written ++ [d], forall₂_concat.mpr ⟨hline, hlast⟩, .inl rfl⟩
      · rcases hlast with rfl | ⟨rfl, -⟩
        · exact hc
        · decide

/-- What a text and the text written for it have in common: the positions, and the lines. -/
structure KeepsLayout (input output : Str) : Prop where
  length : output.length = input.length
  position : ∀ (i : ℕ) (c : Char), input[i]? = some c →
    output[i]? = some c ∨ (c ≠ '\n' ∧ output[i]? = some ' ')
  pieces : List.Forall₂ (List.Forall₂ Blanked) (input.splitOn '\n') (output.splitOn '\n')
  lines : List.Forall₂ LineBlanked (lines input) (lines output)

theorem keepsLayout_of_blanked {input output : Str} (h : List.Forall₂ Blanked input output) :
    KeepsLayout input output := by
  have hpieces := forall₂_splitOn (fun c d => Blanked.newline_iff) h
  have hempty : ∀ l l', List.Forall₂ Blanked l l' → (l = [] ↔ l' = []) := by
    intro l l' hl
    rw [← List.length_eq_zero_iff, hl.length_eq, List.length_eq_zero_iff]
  refine ⟨h.length_eq.symm, ?_, hpieces,
    forall₂_lines hempty (fun _ _ => lineBlanked_closedLine) ?_ hpieces⟩
  · intro i c hc
    obtain ⟨hi, rfl⟩ := List.getElem?_eq_some_iff.mp hc
    have hi' : i < output.length := h.length_eq ▸ hi
    rw [List.getElem?_eq_getElem hi']
    rcases h.get hi hi' with hsame | ⟨hblank, hline⟩
    · exact .inl (congrArg some hsame)
    · exact .inr ⟨hline, congrArg some hblank⟩
  · exact fun l l' hl => ⟨l', hl, .inl rfl⟩

/-- With any fuel above the length of the input the loops end, and the output has the layout of
the input. -/
theorem stripComments_keepsLayout (input : Str) :
    (∀ extra, stripCommentsLoop (input.length + 1 + extra) input = .ok (stripComments input)) ∧
      KeepsLayout input (stripComments input) := by
  refine ⟨fun extra => ?_, keepsLayout_of_blanked (stripComments_blanked input)⟩
  exact stripCommentsLoop_eq (by omega)

-- a comment that is not closed, with a line end in it, and a slash at the end of the text
example : stripComments "a /* b\nc".toList = "a     \n ".toList := by decide

example : stripComments "a; //\r\n/".toList = "a;    \n/".toList := by decide

end Layout

end BarebonesProxy.ConfigParser
