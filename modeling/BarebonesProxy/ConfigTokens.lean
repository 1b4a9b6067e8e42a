import BarebonesProxy.CommentsTwice
import BarebonesProxy.ConfigItems

set_option autoImplicit false

/-!
# Lines of tokens

A comment can open at the start of a word and behind a semicolon. What is left of a text
after `strip_comments` has no opener behind a semicolon, and a word without one can be
written in a text: behind an empty block comment it is copied whatever it starts with.
-/
namespace BarebonesProxy.ConfigParser
open RustStrings

section Tokens

/-- No comment opens behind a semicolon of the text. -/
def Unbroken (s : Str) : Prop := ∀ c rest, ';' :: c :: rest <:+ s → ¬ Opens c rest

theorem Unbroken.of_suffix {s t : Str} (h : Unbroken s) (ht : t <:+ s) : Unbroken t :=
  fun c rest hsuffix => h c rest (hsuffix.trans ht)

theorem opens_append {c : Char} {rest : Str} (h : Opens c rest) (s : Str) :
    Opens c (rest ++ s) := by
  obtain ⟨hc, hhead⟩ := h
  cases rest with
  | nil => rcases hhead with hhead | hhead <;> cases hhead
  | cons d rest => exact ⟨hc, hhead⟩

theorem Unbroken.part {s t : Str} (h : Unbroken s) (ht : t <:+: s) : Unbroken t := by
  intro c rest hsuffix hopen
  obtain ⟨front, back, rfl⟩ := ht
  obtain ⟨start, rfl⟩ := hsuffix
  refine h c (rest ++ back) ⟨front ++ start, ?_⟩ (opens_append hopen back)
  simp

/-- A word that a text can hold. -/
def isToken (w : Str) : Bool :=
  !w.isEmpty && w.all (fun c => !isWhitespace c) && !contains w ";//".toList &&
    !contains w ";/*".toList

theorem opens_iff {c : Char} {rest : Str} :
    Opens c rest ↔ ['/', '/'] <+: c :: rest ∨ ['/', '*'] <+: c :: rest := by
  unfold Opens
  cases rest with
  | nil => simp
  | cons d rest =>
    simp only [List.cons_prefix_cons, List.nil_prefix, and_true, List.head?_cons,
      Option.some.injEq]
    constructor
    · rintro ⟨rfl, rfl | rfl⟩
      · exact .inl ⟨rfl, rfl⟩
      · exact .inr ⟨rfl, rfl⟩
    · rintro (⟨rfl, rfl⟩ | ⟨rfl, rfl⟩)
      · exact ⟨rfl, .inl rfl⟩
      · exact ⟨rfl, .inr rfl⟩

theorem unbroken_iff {w : Str} :
    Unbroken w ↔ contains w ";//".toList = false ∧ contains w ";/*".toList = false := by
  have hmark : ∀ d, contains w [';', '/', d] = false ↔
      ∀ c rest, ';' :: c :: rest <:+ w → ¬ ['/', d] <+: c :: rest := by
    intro d
    rw [Bool.eq_false_iff, ne_eq, contains_iff, List.infix_iff_prefix_suffix]
    constructor
    · intro h c rest hsuffix hfirst
      exact h ⟨_, List.cons_prefix_cons.mpr ⟨rfl, hfirst⟩, hsuffix⟩
    · rintro h ⟨t, ⟨rest, rfl⟩, hsuffix⟩
      exact h '/' (d :: rest) hsuffix ⟨rest, rfl⟩
  have hslash := hmark '/'
  have hstar := hmark '*'
  change _ ↔ contains w [';', '/', '/'] = false ∧ contains w [';', '/', '*'] = false
  rw [hslash, hstar]
  unfold Unbroken
  simp only [opens_iff, not_or]
  exact ⟨fun h => ⟨fun c rest hs => (h c rest hs).1, fun c rest hs => (h c rest hs).2⟩,
    fun h c rest hs => ⟨h.1 c rest hs, h.2 c rest hs⟩⟩

theorem isToken_iff {w : Str} : isToken w = true ↔ w ≠ [] ∧ IsWord w ∧ Unbroken w := by
  rw [unbroken_iff]
  simp [isToken, IsWord, and_assoc]

theorem isToken_of_noSlash {w : Str} (hne : w ≠ []) (hw : IsWord w) (hslash : '/' ∉ w) :
    isToken w = true := by
  refine isToken_iff.mpr ⟨hne, hw, fun c rest hsuffix hopen => hslash ?_⟩
  rw [← hopen.1]
  exact hsuffix.subset (.tail _ (.head _))

end Tokens

section Stripped

theorem stripped_eq {m m' : Mode} {c d : Char} (hd : isWhitespace d = false)
    (h : stripped m m' c = d) : m = .code ∧ m' = .code ∧ c = d := by
  by_cases hcode : m = .code ∧ m' = .code
  · obtain ⟨rfl, rfl⟩ := hcode
    exact ⟨rfl, rfl, h⟩
  · have hblank : isWhitespace (stripped m m' c) = true := by
      by_cases hm : m = .code
      · subst hm
        rw [stripped_opener fun hm' => hcode ⟨rfl, hm'⟩]
        decide
      · exact stripped_blank hm c
    rw [h, hd] at hblank
    cases hblank

/-- Behind a semicolon every opener was seen by the scan. -/
theorem unbroken_strip (m : Mode) (before text : Str) : Unbroken (stripFrom m before text) := by
  induction text generalizing m before with
  | nil =>
    intro c rest hsuffix
    simp [stripFrom] at hsuffix
  | cons x text ih =>
    intro c rest hsuffix hopen
    rw [stripFrom_cons] at hsuffix
    rcases List.suffix_cons_iff.mp hsuffix with heq | hlater
    · obtain ⟨hsemicolon, hrest⟩ := List.cons.inj heq
      obtain ⟨-, hmode, rfl⟩ := stripped_eq (by decide) hsemicolon.symm
      rw [hmode] at hrest
      cases text with
      | nil => cases hrest
      | cons d text =>
        rw [stripFrom_cons] at hrest
        obtain ⟨hslash, rfl⟩ := List.cons.inj hrest
        rw [hopen.1] at hslash
        obtain ⟨-, hmode', rfl⟩ := stripped_eq (by decide) hslash.symm
        -- the scan passed over this slash, so no opener stood there
        have hnone := nextMode_code_iff.mp hmode'
        rw [isBoundary_cons] at hnone
        have hhead := hopen.2
        rw [hmode', head_strip_slash] at hhead
        exact hnone ⟨⟨rfl, hhead⟩, by decide⟩
    · exact ih _ _ c rest hlater hopen

theorem unbroken_of_mem_configLines {input line : Str} (h : line ∈ configLines input) :
    Unbroken line := by
  rw [configLines_eq] at h
  obtain ⟨piece, hpiece, rfl⟩ := List.mem_map.mp (List.mem_filter.mp h).1
  exact (unbroken_strip .code [] input).part
    ((trim_isInfix piece).trans (infix_of_mem_splitOn hpiece))

/-- The tokens of a text are pieces of it. -/
theorem mem_splitWhitespace {s w : Str} (h : w ∈ splitWhitespace s) :
    w ≠ [] ∧ IsWord w ∧ w <:+: s := by
  have hsplit : ∀ s : Str, ∀ w ∈ s.splitOnP isWhitespace, IsWord w ∧ w <:+: s := by
    intro s
    induction s using word_induction with
    | word w hw =>
      rw [List.splitOnP_eq_singleton hw]
      intro v hv
      rw [List.mem_singleton.mp hv]
      exact ⟨hw, List.infix_rfl⟩
    | blank w c s hw hc ih =>
      rw [List.splitOnP_append_cons_of_forall_mem hw c hc s]
      refine List.forall_mem_cons.mpr ⟨⟨hw, (List.prefix_append _ _).isInfix⟩, fun v hv => ?_⟩
      obtain ⟨hword, hinfix⟩ := ih v hv
      exact ⟨hword, hinfix.trans (List.suffix_append_of_suffix (List.suffix_cons c s)).isInfix⟩
  obtain ⟨hmem, hne⟩ := List.mem_filter.mp h
  exact ⟨by simpa using hne, hsplit s w hmem⟩

theorem isToken_of_mem {line w : Str} (hline : Unbroken line) (h : w ∈ splitWhitespace line) :
    isToken w = true := by
  obtain ⟨hne, hword, hinfix⟩ := mem_splitWhitespace h
  exact isToken_iff.mpr ⟨hne, hword, hline.part hinfix⟩

/-- The value of a directive line that was left of a text is a token. -/
theorem isToken_of_directiveOf {line name value : Str} (hline : Unbroken line)
    (h : directiveOf line = some (name, value)) : isToken value = true := by
  unfold directiveOf at h
  split_ifs at h
  split at h
  · next tokens first second htokens =>
    cases h
    rw [withoutSemicolon_eq] at htokens
    obtain ⟨u, hu⟩ := trimEndMatches_append line ';'
    have hinfix : trimEndMatches line ';' <:+: line := ⟨[], u, hu.symm⟩
    refine isToken_of_mem (hline.part hinfix) ?_
    rw [htokens]
    exact .tail _ (.head _)
  · cases h

end Stripped

section Writing

def blanks : Str := "     ".toList

/-- A token behind an empty block comment. -/
def guarded (w : Str) : Str := " /**/".toList ++ w

def padded (w : Str) : Str := blanks ++ w

def rawLine (tokens : List Str) : Str := tokens.flatMap guarded

/-- The line that is left of `rawLine`. -/
def shownLine : List Str → Str
  | [] => []
  | w :: tokens => w ++ tokens.flatMap padded

def EndsMark (rest : Str) : Prop := rest.head? ≠ some '/' ∧ rest.head? ≠ some '*'

theorem endsMark_rawLine (tokens : List Str) : EndsMark (rawLine tokens) := by
  cases tokens with
  | nil => exact ⟨nofun, nofun⟩
  | cons w tokens => exact ⟨by simp [rawLine, guarded], by simp [rawLine, guarded]⟩

theorem opens_append_iff {c : Char} {w rest : Str} (hrest : EndsMark rest) :
    Opens c (w ++ rest) ↔ Opens c w := by
  cases w with
  | nil =>
    refine iff_of_false ?_ (fun h => by rcases h.2 with h | h <;> cases h)
    rintro ⟨-, hslash | hstar⟩
    · exact hrest.1 hslash
    · exact hrest.2 hstar
  | cons d w => exact Iff.rfl

/-- A token is copied unless it starts with an opener at a boundary. -/
theorem scan_token {w rest : Str} (hw : IsWord w) (hunbroken : Unbroken w) (hrest : EndsMark rest)
    (before : Str) (hbefore : isBoundary before = true → ¬ OpensAt w) :
    stripFrom .code before (w ++ rest) = w ++ stripFrom .code (w.reverse ++ before) rest ∧
      modeAfter .code before (w ++ rest) = modeAfter .code (w.reverse ++ before) rest := by
  induction w generalizing before with
  | nil => exact ⟨rfl, rfl⟩
  | cons c w ih =>
    have hmode : nextMode .code before c (w ++ rest) = .code := by
      rw [nextMode_code_iff, opens_append_iff hrest]
      exact fun h => hbefore h.2 ⟨c, w, rfl, h.1⟩
    -- a boundary inside a word is a semicolon
    have hnext : isBoundary (c :: before) = true → ¬ OpensAt w := by
      rintro hc ⟨d, w, rfl, hopen⟩
      have hblank := hw c (.head _)
      rw [isBoundary_cons] at hc
      have hsemicolon : c = ';' := by
        simp only [endsToken, Bool.or_eq_true, beq_iff_eq] at hc
        rcases hc with ((rfl | rfl) | rfl) | rfl <;> first
          | rfl
          | cases hblank
      subst hsemicolon
      exact hunbroken d w List.suffix_rfl hopen
    obtain ⟨hstrip, hafter⟩ := ih (fun d hd => hw d (.tail _ hd))
      (hunbroken.of_suffix (List.suffix_cons c w)) (c :: before) hnext
    rw [List.cons_append, stripFrom_cons, List.reverse_cons, List.append_assoc, hmode, hstrip]
    refine ⟨rfl, ?_⟩
    change modeAfter (nextMode .code before c (w ++ rest)) (c :: before) (w ++ rest) = _
    rw [hmode, hafter]
    rfl

theorem scan_guard (before rest : Str) :
    stripFrom .code before (" /**/".toList ++ rest) =
        blanks ++ stripFrom .code ("/**/ ".toList ++ before) rest ∧
      modeAfter .code before (" /**/".toList ++ rest) =
        modeAfter .code ("/**/ ".toList ++ before) rest := by
  have hopen : isBoundary (' ' :: before) = true := isBoundary_cons ' ' before
  constructor
  · change stripFrom .code before (' ' :: '/' :: '*' :: '*' :: '/' :: rest) = _
    simp [stripFrom_cons, nextMode, stripped, hopen, blanks]
  · change modeAfter .code before (' ' :: '/' :: '*' :: '*' :: '/' :: rest) = _
    simp [modeAfter, nextMode, hopen]

/-- Of a line of guarded tokens the tokens are left. -/
theorem scan_line {tokens : List Str} (htokens : ∀ w ∈ tokens, isToken w = true) (before : Str) :
    stripFrom .code before (rawLine tokens) = tokens.flatMap padded ∧
      modeAfter .code before (rawLine tokens) = .code := by
  induction tokens generalizing before with
  | nil => simp [rawLine, stripFrom, modeAfter]
  | cons w tokens ih =>
    obtain ⟨-, hword, hunbroken⟩ := isToken_iff.mp (htokens w (.head _))
    have hsplit : rawLine (w :: tokens) = " /**/".toList ++ (w ++ rawLine tokens) := by
      simp [rawLine, guarded]
    -- the last character of the guard is no boundary
    obtain ⟨hguard, hguardMode⟩ := scan_guard before (w ++ rawLine tokens)
    obtain ⟨hstrip, hmode⟩ := scan_token hword hunbroken (endsMark_rawLine tokens)
      ("/**/ ".toList ++ before) (fun h => by
        have hslash : isBoundary ("/**/ ".toList ++ before) = endsToken '/' := isBoundary_cons _ _
        rw [hslash] at h
        cases h)
    obtain ⟨hrest, hrestMode⟩ := ih (fun v hv => htokens v (.tail _ hv))
      (w.reverse ++ ("/**/ ".toList ++ before))
    rw [hsplit, hguard, hstrip, hrest, hguardMode, hmode, hrestMode, List.flatMap_cons]
    exact ⟨by simp [padded], rfl⟩

end Writing

section Reading

theorem isWhitespace_of_mem_blanks : ∀ c ∈ blanks, isWhitespace c = true :=
  List.forall_iff_forall_mem.mp (by decide)

theorem splitWhitespace_blanks_append {s t : Str} (hs : ∀ c ∈ s, isWhitespace c = true) :
    splitWhitespace (s ++ t) = splitWhitespace t := by
  induction s with
  | nil => rfl
  | cons c s ih =>
    rw [List.cons_append, splitWhitespace_blank_cons (hs c (.head _)),
      ih fun d hd => hs d (.tail _ hd)]

theorem trim_blanks_append {s t : Str} (hs : ∀ c ∈ s, isWhitespace c = true) :
    trim (s ++ t) = trim t := by
  induction s with
  | nil => rfl
  | cons c s ih =>
    rw [List.cons_append, trim_blank_cons (hs c (.head _)), ih fun d hd => hs d (.tail _ hd)]

theorem asToken_of_isToken {w : Str} (h : isToken w = true) : asToken w = [w] :=
  if_neg (isToken_iff.mp h).1

/-- The tokens of a line, with some blanks behind them or not. -/
theorem splitWhitespace_shownLine {tokens : List Str} (h : ∀ w ∈ tokens, isToken w = true) :
    splitWhitespace (shownLine tokens) = tokens ∧
      splitWhitespace (shownLine tokens ++ blanks) = tokens := by
  have hbreak : ∀ w t, isToken w = true →
      splitWhitespace (w ++ (blanks ++ t)) = w :: splitWhitespace t := by
    intro w t hw
    have hblanks : blanks ++ t = ' ' :: ("    ".toList ++ t) := rfl
    rw [hblanks, splitWhitespace_break (isToken_iff.mp hw).2.1 (by decide), asToken_of_isToken hw,
      splitWhitespace_blanks_append (List.forall_iff_forall_mem.mp (by decide))]
    rfl
  have hpadded : ∀ tokens : List Str, ∀ w, isToken w = true → (∀ v ∈ tokens, isToken v = true) →
      splitWhitespace (w ++ tokens.flatMap padded) = w :: tokens ∧
        splitWhitespace (w ++ tokens.flatMap padded ++ blanks) = w :: tokens := by
    intro tokens
    induction tokens with
    | nil =>
      intro w hw _
      have hplain := splitWhitespace_word (isToken_iff.mp hw).2.1
      have hclosed := hbreak w [] hw
      rw [List.append_nil] at hclosed
      rw [List.flatMap_nil, List.append_nil, hplain, asToken_of_isToken hw, hclosed]
      exact ⟨rfl, rfl⟩
    | cons v tokens ih =>
      intro w hw hv
      obtain ⟨hopen, hclosed⟩ := ih v (hv v (.head _)) fun u hu => hv u (.tail _ hu)
      have hsplit : (v :: tokens).flatMap padded = blanks ++ (v ++ tokens.flatMap padded) := by
        simp [padded]
      rw [hsplit, hbreak w _ hw, hopen, List.append_assoc, List.append_assoc, hbreak w _ hw,
        hclosed]
      exact ⟨rfl, rfl⟩
  cases tokens with
  | nil => exact ⟨rfl, by decide⟩
  | cons w tokens => exact hpadded tokens w (h w (.head _)) fun v hv => h v (.tail _ hv)

theorem trim_eq_self {s : Str} (hfirst : ∀ c ∈ s.head?, isWhitespace c = false)
    (hlast : ∀ c ∈ s.getLast?, isWhitespace c = false) : trim s = s := by
  have hdrop : s.dropWhile isWhitespace = s := by
    cases s with
    | nil => rfl
    | cons c s =>
      have hc := hfirst c rfl
      exact List.dropWhile_cons_of_neg (by simp [hc])
  unfold trim
  rw [hdrop]
  cases s using List.reverseRecOn with
  | nil => rfl
  | append_singleton s c =>
    have hc := hlast c List.getLast?_concat
    exact List.rdropWhile_concat_neg _ _ _ (by simp [hc])

theorem getLast_flatMap_padded {w : Str} (hw : isToken w = true) {tokens : List Str}
    (h : ∀ v ∈ tokens, isToken v = true) :
    ∀ c ∈ (w ++ tokens.flatMap padded).getLast?, isWhitespace c = false := by
  induction tokens generalizing w with
  | nil =>
    intro c hc
    rw [List.flatMap_nil, List.append_nil] at hc
    exact (isToken_iff.mp hw).2.1 c (List.mem_of_getLast? hc)
  | cons v tokens ih =>
    have hv := h v (.head _)
    have hne : v ++ tokens.flatMap padded ≠ [] := by
      simp [(isToken_iff.mp hv).1]
    have hsplit : w ++ (v :: tokens).flatMap padded =
        (w ++ blanks) ++ (v ++ tokens.flatMap padded) := by
      simp [padded]
    rw [hsplit, List.getLast?_append_of_ne_nil _ hne]
    exact ih hv fun u hu => h u (.tail _ hu)

theorem trim_shownLine {tokens : List Str} (h : ∀ w ∈ tokens, isToken w = true) :
    trim (shownLine tokens) = shownLine tokens := by
  cases tokens with
  | nil => rfl
  | cons w tokens =>
    have hw := h w (.head _)
    refine trim_eq_self (fun c hc => ?_) (getLast_flatMap_padded hw fun v hv => h v (.tail _ hv))
    obtain ⟨hne, hword, -⟩ := isToken_iff.mp hw
    have hhead : (w ++ tokens.flatMap padded).head? = w.head? := List.head?_append_of_ne_nil _ hne
    change c ∈ (w ++ tokens.flatMap padded).head? at hc
    rw [hhead] at hc
    exact hword c (List.mem_of_head? hc)

theorem newline_notMem {tokens : List Str} (h : ∀ w ∈ tokens, isToken w = true) :
    '\n' ∉ tokens.flatMap padded := by
  intro hmem
  obtain ⟨w, hw, hc⟩ := List.mem_flatMap.mp hmem
  rcases List.mem_append.mp hc with hblank | hword
  · revert hblank
    decide
  · have hspace := (isToken_iff.mp (h w hw)).2.1 _ hword
    cases hspace

/-- A line can be written if it has tokens only and is no `#` line. -/
def isWritable : List Str → Bool
  | [] => false
  | w :: tokens => isToken w && !startsWith w "#".toList && tokens.all isToken

theorem isToken_of_isWritable {tokens : List Str} (h : isWritable tokens = true) :
    ∀ w ∈ tokens, isToken w = true := by
  cases tokens with
  | nil => cases h
  | cons w tokens =>
    simp only [isWritable, Bool.and_eq_true, List.all_eq_true] at h
    exact List.forall_mem_cons.mpr ⟨h.1.1, h.2⟩

theorem isKept_shownLine {tokens : List Str} (h : isWritable tokens = true) :
    isKept (shownLine tokens) = true := by
  cases tokens with
  | nil => cases h
  | cons w tokens =>
    simp only [isWritable, Bool.and_eq_true] at h
    obtain ⟨hne, -, -⟩ := isToken_iff.mp h.1.1
    cases w with
    | nil => exact absurd rfl hne
    | cons c w => simpa [isKept, shownLine, startsWith, List.isPrefixOf_cons_cons] using h.1.2

theorem configLines_rawLine {tokens : List Str} (h : isWritable tokens = true) :
    configLines (rawLine tokens) = [shownLine tokens] := by
  have htokens := isToken_of_isWritable h
  have hstrip : stripComments (rawLine tokens) = tokens.flatMap padded := (scan_line htokens []).1
  have hshown : trim (tokens.flatMap padded) = shownLine tokens := by
    cases tokens with
    | nil => rfl
    | cons w tokens =>
      have hsplit : (w :: tokens).flatMap padded = blanks ++ shownLine (w :: tokens) := by
        simp [padded, shownLine]
      rw [hsplit, trim_blanks_append isWhitespace_of_mem_blanks, trim_shownLine htokens]
  rw [configLines_eq, hstrip]
  unfold keptLines
  rw [List.splitOn_eq_singleton (newline_notMem htokens), List.map_singleton, hshown,
    List.filter_cons_of_pos (isKept_shownLine h)]
  rfl

/-- What is written line by line is read line by line. -/
theorem configLines_unlines {lines : List (List Str)}
    (h : ∀ tokens ∈ lines, isWritable tokens = true) :
    configLines (unlines (lines.map rawLine)) = lines.map shownLine := by
  induction lines with
  | nil => rfl
  | cons tokens lines ih =>
    have hfirst : unlines [rawLine tokens] = rawLine tokens := by simp [unlines]
    have hclosed : blockOpen (unlines [rawLine tokens]) = false := by
      unfold blockOpen
      rw [hfirst, (scan_line (isToken_of_isWritable (h tokens (.head _))) []).2]
      rfl
    rw [List.map_cons, List.map_cons, ← List.singleton_append, configLines_append hclosed, hfirst,
      configLines_rawLine (h tokens (.head _)), ih fun ts hts => h ts (.tail _ hts)]
    rfl

end Reading

section Lines

theorem shownLine_concat {tokens : List Str} (h : tokens ≠ []) (w : Str) :
    shownLine (tokens ++ [w]) = shownLine tokens ++ blanks ++ w := by
  cases tokens with
  | nil => exact absurd rfl h
  | cons v tokens => simp [shownLine, padded]

/-- A directive line is its name, its value and a semicolon. -/
def directiveLine (name value : Str) : List Str := [name, value, ";".toList]

variable {name value : Str}

theorem isWritable_directiveLine (hname : isWritable [name] = true)
    (hvalue : isToken value = true) :
    isWritable (directiveLine name value) = true := by
  simp only [isWritable, List.all_nil, Bool.and_true] at hname
  simp only [directiveLine, isWritable, hname, List.all_cons, hvalue, List.all_nil, Bool.and_true,
    Bool.true_and]
  decide

theorem directiveOf_shownLine (hname : isToken name = true) (hvalue : isToken value = true) :
    directiveOf (shownLine (directiveLine name value)) = some (name, value) := by
  have hpair : ∀ w ∈ [name, value], isToken w = true := by
    simp [hname, hvalue]
  have htokens : ∀ w ∈ directiveLine name value, isToken w = true := by
    have hsemicolon : isToken ";".toList = true := by decide
    simpa [directiveLine, hname, hvalue] using hsemicolon
  have hline : shownLine (directiveLine name value) = shownLine [name, value] ++ blanks ++ [';'] :=
    shownLine_concat (List.cons_ne_nil name [value]) [';']
  have hend : endsWith (trim (shownLine (directiveLine name value))) ";".toList = true := by
    rw [trim_shownLine htokens]
    exact endsWith_singleton.mpr ⟨_, hline⟩
  -- one semicolon is cut off, and the blanks before it stop the cut
  have hcut : trimEndMatches (shownLine (directiveLine name value)) ';' =
      shownLine [name, value] ++ blanks := by
    have hblanks : shownLine [name, value] ++ blanks =
        shownLine [name, value] ++ "    ".toList ++ [' '] := by
      simp [blanks]
    unfold trimEndMatches
    rw [hline, List.rdropWhile_concat_pos _ _ _ (by decide), hblanks,
      List.rdropWhile_concat_neg _ _ _ (by decide)]
  unfold directiveOf
  rw [if_pos hend, withoutSemicolon_eq, hcut, (splitWhitespace_shownLine hpair).2]

theorem readLine_directiveLine {ι : Type} (setting : Str → Str → Option ι)
    (hname : isToken name = true) (hvalue : isToken value = true) :
    readLine setting (shownLine (directiveLine name value)) = setting name value := by
  unfold readLine
  rw [directiveOf_shownLine hname hvalue]
  rfl

theorem isHeader_directiveLine (name value : Str) :
    isHeader (shownLine (directiveLine name value)) = false := by
  have hline : shownLine (directiveLine name value) = shownLine [name, value] ++ blanks ++ [';'] :=
    shownLine_concat (List.cons_ne_nil name [value]) [';']
  rw [Bool.eq_false_iff]
  intro hend
  obtain ⟨s, hs⟩ := endsWith_singleton.mp hend
  rw [hline] at hs
  exact absurd (List.append_singleton_inj.mp hs).2 (by decide)

/-- The line that opens a block. -/
def headerLine (tokens : List Str) : List Str := tokens ++ ["\x7b".toList]

theorem isHeader_headerLine {tokens : List Str} (h : tokens ≠ []) :
    isHeader (shownLine (headerLine tokens)) = true :=
  endsWith_singleton.mpr ⟨_, shownLine_concat h "\x7b".toList⟩

theorem isInner_shownLine {w v : Str} {tokens : List Str}
    (h : ∀ u ∈ w :: v :: tokens, isToken u = true) :
    isInner (shownLine (w :: v :: tokens)) = true := by
  have hsplit := (splitWhitespace_shownLine h).1
  -- a terminator is one token
  refine decide_eq_true ?_
  rintro (hcloser | hcloser)
  · rw [hcloser] at hsplit
    cases hsplit
  · rw [hcloser] at hsplit
    cases hsplit

end Lines

end BarebonesProxy.ConfigParser
