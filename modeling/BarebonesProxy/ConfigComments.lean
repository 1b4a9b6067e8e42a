import BarebonesProxy.ConfigParser
import BarebonesProxy.RustTokens

set_option autoImplicit false

/-!
# Comment lines

`strip_comments` carries nothing over a line end but whether a block comment is open, so a
text is stripped line by line. A `#` line is dropped only after that, and what stands behind
its `#` can open a block comment.
-/
namespace BarebonesProxy.ConfigParser
open RustStrings RustNet ProxyConfig

section Scan

def nextMode : Mode → Str → Char → Str → Mode
  | .code, before, c, rest =>
    if c = '/' ∧ rest.head? = some '/' ∧ isBoundary before then .lineOpener
    else if c = '/' ∧ rest.head? = some '*' ∧ isBoundary before then .blockOpener
    else .code
  | .lineOpener, _, _, _ => .line
  | .blockOpener, _, _, _ => .block
  | .line, _, c, _ => if c = '\n' then .code else .line
  | .block, _, c, rest => if c = '*' ∧ rest.head? = some '/' then .closer else .block
  | .closer, _, _, _ => .code

/-- The character written for one character, by the modes before and after it. -/
def stripped : Mode → Mode → Char → Char
  | .code, .code, c => c
  | .line, _, c => if c = '\n' then '\n' else ' '
  | .block, _, c => if c = '\n' then '\n' else ' '
  | _, _, _ => ' '

theorem stripped_opener {m : Mode} (hm : m ≠ .code) (c : Char) : stripped .code m c = ' ' := by
  cases m with
  | code => exact absurd rfl hm
  | _ => rfl

def modeAfter : Mode → Str → Str → Mode
  | m, _, [] => m
  | m, before, c :: rest => modeAfter (nextMode m before c rest) (c :: before) rest

def blockOpen (text : Str) : Bool := modeAfter .code [] text = .block

theorem stripFrom_cons (m : Mode) (before : Str) (c : Char) (rest : Str) :
    stripFrom m before (c :: rest) =
      stripped m (nextMode m before c rest) c ::
        stripFrom (nextMode m before c rest) (c :: before) rest := by
  cases m with
  | code =>
    by_cases hline : c = '/' ∧ rest.head? = some '/' ∧ isBoundary before = true
    · simp [stripFrom, stripped, nextMode, hline]
    · by_cases hblock : c = '/' ∧ rest.head? = some '*' ∧ isBoundary before = true
      · simp [stripFrom, stripped, nextMode, hblock]
      · simp [stripFrom, stripped, nextMode, hline, hblock]
  | line => by_cases h : c = '\n' <;> simp [stripFrom, stripped, nextMode, h]
  | block =>
    by_cases hclose : c = '*' ∧ rest.head? = some '/'
    · simp [stripFrom, stripped, nextMode, hclose]
    · by_cases h : c = '\n' <;> simp [stripFrom, stripped, nextMode, hclose, h]
  | _ => rfl

/-- The scan looks back for a boundary and forward for the second half of a mark. -/
theorem nextMode_congr (m : Mode) {before before' : Str} (c : Char) {rest rest' : Str}
    (hbefore : isBoundary before' = isBoundary before)
    (hslash : rest'.head? = some '/' ↔ rest.head? = some '/')
    (hstar : rest'.head? = some '*' ↔ rest.head? = some '*') :
    nextMode m before' c rest' = nextMode m before c rest := by
  cases m with
  | code => simp only [nextMode, hbefore, hslash, hstar]
  | block => simp only [nextMode, hslash]
  | _ => rfl

theorem isBoundary_append (l b : Str) : isBoundary (l ++ '\n' :: b) = isBoundary l := by
  cases l with
  | nil => rfl
  | cons prev l =>
    have hline : ((prev :: l) ++ '\n' :: b).takeWhile (· != '\n') =
        (prev :: l).takeWhile (· != '\n') := by
      rw [List.takeWhile_append]
      split
      · next hall =>
        have hfull : (prev :: l).takeWhile (· != '\n') = prev :: l :=
          (List.takeWhile_prefix _).eq_of_length hall
        rw [hfull]
        simp
      · rfl
    unfold isBoundary
    rw [List.cons_append] at hline ⊢
    dsimp only
    rw [hline]

theorem stripFrom_before (m : Mode) (l b text : Str) :
    stripFrom m (l ++ '\n' :: b) text = stripFrom m l text := by
  induction text generalizing m l with
  | nil => simp [stripFrom]
  | cons c rest ih =>
    rw [stripFrom_cons, stripFrom_cons,
      nextMode_congr m c (isBoundary_append l b) Iff.rfl Iff.rfl]
    congr 1
    exact ih _ (c :: l)

/-- A mode that lasts for the second character of a mark only. -/
def Mode.inMark : Mode → Bool
  | .lineOpener => true
  | .blockOpener => true
  | .closer => true
  | _ => false

/-- The second character of a mark has been seen when the scan enters it. -/
theorem head_of_inMark {m : Mode} {before rest : Str} {c : Char}
    (h : (nextMode m before c rest).inMark = true) :
    rest.head? = some '/' ∨ rest.head? = some '*' := by
  cases m with
  | code =>
    simp only [nextMode] at h
    split at h
    · next hline => exact .inl hline.2.1
    · split at h
      · next hblock => exact .inr hblock.2.1
      · cases h
  | line =>
    simp only [nextMode] at h
    split at h <;> cases h
  | block =>
    simp only [nextMode] at h
    split at h
    · next hclose => exact .inl hclose.2
    · cases h
  | _ => cases h

theorem inMark_nextMode {m : Mode} {before rest : Str} {c : Char}
    (h : (nextMode m before c rest).inMark = true) : rest ≠ [] := by
  rintro rfl
  rcases head_of_inMark h with hhead | hhead <;> cases hhead

/-- At a line end the scan leaves a line comment and stays in a block comment. -/
theorem stripFrom_newline {m : Mode} {text : Str} (h : m.inMark = true → text ≠ [])
    (before rest : Str) :
    stripFrom m before (text ++ '\n' :: rest) = stripFrom m before text ++ '\n' ::
      stripFrom (if modeAfter m before text = .block then .block else .code) [] rest := by
  -- by the characters of the line; a mark cannot be cut in two by the line end
  induction text generalizing m before with
  | nil =>
    have hbefore := fun m => stripFrom_before m [] before rest
    rw [List.nil_append] at hbefore ⊢
    cases m with
    | code => simp [stripFrom, modeAfter, hbefore]
    | line => simp [stripFrom, modeAfter, hbefore]
    | block => simp [stripFrom, modeAfter, hbefore]
    | _ => exact absurd rfl (h rfl)
  | cons c text ih =>
    have hhead : ∀ d, d ≠ '\n' →
        ((text ++ '\n' :: rest).head? = some d ↔ text.head? = some d) := by
      intro d hd
      cases text with
      | nil => simp [hd.symm]
      | cons _ _ => simp
    have hmode := nextMode_congr m c (rfl : isBoundary before = isBoundary before)
      (hhead '/' (by decide)) (hhead '*' (by decide))
    rw [List.cons_append, stripFrom_cons, stripFrom_cons, hmode, ih inMark_nextMode (c :: before)]
    rfl

theorem stripComments_newline (text rest : Str) :
    stripComments (text ++ '\n' :: rest) = stripComments text ++ '\n' ::
      stripFrom (if blockOpen text then .block else .code) [] rest := by
  unfold stripComments blockOpen
  rw [stripFrom_newline (fun h => by cases h)]
  simp

end Scan

section Lines

def isKept (line : Str) : Bool := !line.isEmpty && !startsWith line "#".toList

def keptLines (text : Str) : List Str := ((text.splitOn '\n').map trim).filter isKept

theorem configLines_eq (input : Str) : configLines input = keptLines (stripComments input) :=
  filter_lines rfl _

theorem keptLines_newline (text rest : Str) :
    keptLines (text ++ '\n' :: rest) = keptLines text ++ keptLines rest := by
  unfold keptLines
  rw [List.splitOn_append_cons_self, List.map_append, List.filter_append]

theorem keptLines_blank {text : Str} (h : ∀ c ∈ text, isWhitespace c = true) :
    keptLines text = [] := by
  unfold keptLines
  rw [List.filter_eq_nil_iff]
  intro line hline
  obtain ⟨piece, hpiece, rfl⟩ := List.mem_map.mp hline
  rw [trim_blank fun c hc => h c (mem_of_mem_splitOn hpiece hc)]
  decide

theorem configLines_newline (text rest : Str) :
    configLines (text ++ '\n' :: rest) = configLines text ++
      keptLines (stripFrom (if blockOpen text then .block else .code) [] rest) := by
  rw [configLines_eq, configLines_eq, stripComments_newline, keptLines_newline]

/-- The text of some lines. Every text is the text of its lines. -/
def unlines (ls : List Str) : Str := ['\n'].intercalate ls

theorem unlines_cons (line : Str) {ls : List Str} (h : ls ≠ []) :
    unlines (line :: ls) = line ++ '\n' :: unlines ls := by
  unfold unlines
  rw [List.intercalate_cons_of_ne_nil h]
  simp

theorem unlines_append {before after : List Str} (hbefore : before ≠ []) (hafter : after ≠ []) :
    unlines (before ++ after) = unlines before ++ '\n' :: unlines after := by
  induction before with
  | nil => exact absurd rfl hbefore
  | cons line before ih =>
    by_cases hnil : before = []
    · subst hnil
      rw [List.singleton_append, unlines_cons line hafter]
      simp [unlines]
    · rw [List.cons_append, unlines_cons line (by simp [hnil]), ih hnil, unlines_cons line hnil]
      simp

theorem configLines_append {before : List Str} (h : blockOpen (unlines before) = false)
    (after : List Str) :
    configLines (unlines (before ++ after)) =
      configLines (unlines before) ++ configLines (unlines after) := by
  have hempty : configLines (unlines []) = [] := rfl
  by_cases hbefore : before = []
  · subst hbefore
    rw [hempty]
    rfl
  by_cases hafter : after = []
  · subst hafter
    rw [hempty, List.append_nil, List.append_nil]
  rw [unlines_append hbefore hafter, configLines_newline, h, configLines_eq (unlines after)]
  rfl

end Lines

section Comments

/-- A comment that takes a whole line. -/
inductive Comment where
  | slashes (c : Str) (h : '\n' ∉ c)
  | block (c : Str) (h : '\n' ∉ c) (hend : contains c "*/".toList = false)
  | hash (c : Str) (h : '\n' ∉ c)

def Comment.text : Comment → Str
  | .slashes c _ => '/' :: '/' :: c
  | .block c _ _ => '/' :: '*' :: (c ++ "*/".toList)
  | .hash c _ => '#' :: c

theorem stripped_blank {m m' : Mode} (hm : m ≠ .code) (c : Char) :
    isWhitespace (stripped m m' c) = true := by
  cases m with
  | code => exact absurd rfl hm
  | line => by_cases h : c = '\n' <;> simp [stripped, h, isWhitespace]
  | block => by_cases h : c = '\n' <;> simp [stripped, h, isWhitespace]
  | _ => simp [stripped, isWhitespace]

theorem strip_slashes {c : Str} (h : '\n' ∉ c) (before : Str) :
    (∀ x ∈ stripFrom .line before c, isWhitespace x = true) ∧
      modeAfter .line before c = .line := by
  induction c generalizing before with
  | nil => simp [stripFrom, modeAfter]
  | cons d c ih =>
    have hd : d ≠ '\n' := fun hd => h (hd ▸ .head _)
    have hmode : nextMode .line before d c = .line := if_neg hd
    obtain ⟨hblank, hafter⟩ := ih (fun hc => h (.tail _ hc)) (d :: before)
    rw [stripFrom_cons, modeAfter, hmode]
    exact ⟨List.forall_mem_cons.mpr ⟨stripped_blank (by decide) d, hblank⟩, hafter⟩

theorem strip_block {c : Str} (h : contains c "*/".toList = false) (before : Str) :
    (∀ x ∈ stripFrom .block before (c ++ "*/".toList), isWhitespace x = true) ∧
      modeAfter .block before (c ++ "*/".toList) = .code := by
  induction c generalizing before with
  | nil => simp [stripFrom, modeAfter, nextMode, isWhitespace]
  | cons d c ih =>
    have hsplit : ("*/".toList.isPrefixOf (d :: c) || contains c "*/".toList) = false := h
    obtain ⟨hfirst, hrest⟩ := Bool.or_eq_false_iff.mp hsplit
    have hinside : ¬ (d = '*' ∧ (c ++ "*/".toList).head? = some '/') := by
      rintro ⟨rfl, hhead⟩
      cases c with
      | nil => simp at hhead
      | cons e c =>
        obtain rfl : e = '/' := by simpa using hhead
        simp at hfirst
    have hmode : nextMode .block before d (c ++ "*/".toList) = .block := if_neg hinside
    obtain ⟨hblank, hafter⟩ := ih hrest (d :: before)
    rw [List.cons_append, stripFrom_cons, modeAfter, hmode]
    exact ⟨List.forall_mem_cons.mpr ⟨stripped_blank (by decide) d, hblank⟩, hafter⟩

theorem newline_of_stripFrom {m : Mode} {before text : Str} (h : '\n' ∈ stripFrom m before text) :
    '\n' ∈ text := by
  induction text generalizing m before with
  | nil => simp [stripFrom] at h
  | cons c rest ih =>
    rw [stripFrom_cons] at h
    rcases List.mem_cons.mp h with hfirst | hrest
    · have hc : c = '\n' := by
        by_contra hc
        revert hfirst
        unfold stripped
        split <;> simp [hc, Ne.symm hc]
      exact hc ▸ .head _
    · exact .tail _ (ih hrest)

theorem strip_mark (c : Str) :
    stripComments ('/' :: '/' :: c) = ' ' :: ' ' :: stripFrom .line ['/', '/'] c ∧
      modeAfter .code [] ('/' :: '/' :: c) = modeAfter .line ['/', '/'] c ∧
      stripComments ('/' :: '*' :: c) = ' ' :: ' ' :: stripFrom .block ['*', '/'] c ∧
      modeAfter .code [] ('/' :: '*' :: c) = modeAfter .block ['*', '/'] c := by
  simp [stripComments, stripFrom, modeAfter, nextMode, isBoundary]

theorem Comment.configLines_text (comment : Comment) : configLines comment.text = [] := by
  have hblank : ∀ text : Str, (∀ x ∈ text, isWhitespace x = true) →
      keptLines (' ' :: ' ' :: text) = [] := by
    intro text h
    apply keptLines_blank
    exact List.forall_mem_cons.mpr ⟨by decide, List.forall_mem_cons.mpr ⟨by decide, h⟩⟩
  rw [configLines_eq]
  cases comment with
  | slashes c h =>
    rw [Comment.text, (strip_mark c).1]
    exact hblank _ (strip_slashes h _).1
  | block c h hend =>
    rw [Comment.text, (strip_mark _).2.2.1]
    exact hblank _ (strip_block hend _).1
  | hash c h =>
    have hstrip : stripComments ('#' :: c) = '#' :: stripFrom .code ['#'] c := by
      simp [stripComments, stripFrom]
    have hline : '\n' ∉ '#' :: stripFrom .code ['#'] c := by
      intro hmem
      rcases List.mem_cons.mp hmem with hfirst | hrest
      · cases hfirst
      · exact h (newline_of_stripFrom hrest)
    obtain ⟨s, hs⟩ := trim_cons (c := '#') (by decide) (stripFrom .code ['#'] c)
    unfold keptLines
    rw [Comment.text, hstrip, List.splitOn_eq_singleton hline, List.map_singleton, hs]
    rfl

/-- What stands in a comment opens no block comment. -/
def Comment.Closed : Comment → Prop
  | .hash c _ => blockOpen ('#' :: c) = false
  | _ => True

theorem Comment.closed_iff (comment : Comment) :
    comment.Closed ↔ blockOpen comment.text = false := by
  cases comment with
  | slashes c h =>
    refine iff_of_true trivial ?_
    rw [blockOpen, Comment.text, (strip_mark c).2.1, (strip_slashes h _).2]
    rfl
  | block c h hend =>
    refine iff_of_true trivial ?_
    rw [blockOpen, Comment.text, (strip_mark _).2.2.2, (strip_block hend _).2]
    rfl
  | hash c h => exact Iff.rfl

def insertLine (text : Str) (n : ℕ) (line : Str) : Str :=
  unlines ((text.splitOn '\n').take n ++ line :: (text.splitOn '\n').drop n)

theorem configLines_insertLine {text : Str} {n : ℕ}
    (hn : blockOpen (unlines ((text.splitOn '\n').take n)) = false) {comment : Comment}
    (hclosed : comment.Closed) :
    configLines (insertLine text n comment.text) = configLines text := by
  have hline : configLines (unlines (comment.text :: (text.splitOn '\n').drop n)) =
      configLines (unlines ((text.splitOn '\n').drop n)) := by
    have hopen : blockOpen (unlines [comment.text]) = false := by
      simpa [unlines] using comment.closed_iff.mp hclosed
    have happend := configLines_append hopen ((text.splitOn '\n').drop n)
    rw [List.singleton_append] at happend
    rw [happend]
    simp [unlines, comment.configLines_text]
  have htext : unlines ((text.splitOn '\n').take n ++ (text.splitOn '\n').drop n) = text := by
    rw [List.take_append_drop]
    exact List.intercalate_splitOn '\n'
  unfold insertLine
  rw [configLines_append hn, hline, ← configLines_append hn, htext]

end Comments

section Neutral
variable [CaseMapping]

/-- The line can be put in at every line boundary of every text, outside of block comments,
without a change of the result. -/
def Neutral (availableParallelism : Option ℕ) (line : Str) : Prop :=
  ∀ (text : Str) (n : ℕ), blockOpen (unlines ((text.splitOn '\n').take n)) = false →
    parseProxyConfig availableParallelism (insertLine text n line) =
      parseProxyConfig availableParallelism text

/-- A line that leaves a block comment open takes the rest of the text with it. -/
theorem not_neutral_of_open (availableParallelism : Option ℕ) {line : Str}
    (hline : configLines line = []) (hopen : blockOpen line = true) :
    ¬ Neutral availableParallelism line := by
  intro hneutral
  -- a lone terminator is an error of its own, and the open block comment hides it
  have hresult := hneutral "\x7d".toList 0 rfl
  have hinsert : insertLine "\x7d".toList 0 line = line ++ '\n' :: "\x7d".toList :=
    unlines_cons line (by decide)
  have hlines : configLines (line ++ '\n' :: "\x7d".toList) = [] := by
    rw [configLines_newline, hline, hopen]
    rfl
  have hnone : parseProxyConfig availableParallelism (line ++ '\n' :: "\x7d".toList) =
      .error .noListenDirective := by
    unfold parseProxyConfig
    rw [hlines]
    rfl
  have hclose : parseProxyConfig availableParallelism "\x7d".toList =
      .error .unexpectedBlockTerminator := rfl
  rw [hinsert, hnone, hclose] at hresult
  cases hresult

/-- A comment line changes nothing, wherever it is put, exactly if what stands in it opens
no block comment. -/
theorem comment_neutral_iff (availableParallelism : Option ℕ) (comment : Comment) :
    Neutral availableParallelism comment.text ↔ comment.Closed := by
  constructor
  · intro hneutral
    rw [comment.closed_iff]
    by_contra hopen
    rw [Bool.not_eq_false] at hopen
    exact not_neutral_of_open availableParallelism comment.configLines_text hopen hneutral
  · intro hclosed text n hn
    unfold parseProxyConfig
    rw [configLines_insertLine hn hclosed]

end Neutral

section Example
open ListCrates

def loneRouteText : Str :=
  "listen 80;\nroute / \x7b\nupstream http://b;\n\x7d".toList

/-- Behind `# /*` in the first line no directive is found. -/
theorem hash_comment_opens_block :
    (parseProxyConfig (some 2) loneRouteText).isOk = true ∧
      parseProxyConfig (some 2) (insertLine loneRouteText 0 "# /*".toList) =
        .error .noListenDirective ∧
      ¬ Neutral (some 2) (Comment.hash " /*".toList (by decide)).text := by
  refine ⟨by decide +kernel, by decide +kernel, ?_⟩
  exact not_neutral_of_open (some 2) (Comment.configLines_text _) (by decide +kernel)

end Example

end BarebonesProxy.ConfigParser
