import BarebonesProxy.Relaying

set_option autoImplicit false

/-!
# The `Cache-Control` of stored responses

A `Cache-Control` line is a list of directives, and a response may have several lines. The
proxy looks for two of them as texts within the first line, in lower case.
-/
namespace BarebonesProxy.Proxy
open RustNet RustStrings ProxyConfig Routing Http Cache RuntimeConfig EffectPrograms Handler

section Directives

def isOws (c : Char) : Bool := c == ' ' || c == '\t'

/-- A piece of a header line without the white space around it. -/
def trimOws (s : Str) : Str := (s.dropWhile isOws).rdropWhile isOws

theorem trimOws_isInfix (s : Str) : trimOws s <:+: s :=
  (List.rdropWhile_prefix isOws _).isInfix.trans (List.dropWhile_suffix isOws).isInfix

/-- The pieces between the commas outside quoted strings. The first piece so far is held in
reverse; within quotes a backslash takes the next character with it. -/
def pieces : Bool → Str → Str → List Str
  | _, piece, [] => [piece.reverse]
  | true, piece, '\\' :: c :: s => pieces true (c :: '\\' :: piece) s
  | quoted, piece, c :: s =>
    if c = ',' ∧ quoted = false then piece.reverse :: pieces false [] s
    else pieces (quoted != (c == '"')) (c :: piece) s

theorem mem_pieces_isInfix (quoted : Bool) (piece s : Str) :
    ∀ p ∈ pieces quoted piece s, p <:+: piece.reverse ++ s := by
  fun_induction pieces quoted piece s with
  | case1 quoted piece =>
    intro p hp
    rw [List.mem_singleton.mp hp, List.append_nil]
  | case2 piece c s ih =>
    intro p hp
    simpa using ih p hp
  | case3 quoted piece c s _ _ ih =>
    intro p hp
    rcases List.mem_cons.mp hp with rfl | hp
    · exact (List.prefix_append _ _).isInfix
    · exact ((ih p hp).trans (List.suffix_cons _ _).isInfix).trans (List.suffix_append _ _).isInfix
  | case4 quoted piece c s _ _ ih =>
    intro p hp
    simpa using ih p hp

/-- A directive: its name, and what follows the equals sign if there is one. -/
def directiveOf (piece : Str) : Str × Option Str :=
  (trimOws (splitFirst piece '='),
    match piece.dropWhile (· != '=') with
    | _ :: argument => some (trimOws argument)
    | [] => none)

def directives (line : Str) : List (Str × Option Str) := (pieces false [] line).map directiveOf

theorem directive_isInfix {line name : Str} {argument : Option Str}
    (h : (name, argument) ∈ directives line) : name <:+: line := by
  obtain ⟨piece, hpiece, heq⟩ := List.mem_map.mp h
  cases heq
  have hname : splitFirst piece '=' <:+: piece := (List.takeWhile_prefix _).isInfix
  exact ((trimOws_isInfix _).trans hname).trans (mem_pieces_isInfix false [] line piece hpiece)

end Directives

section NoStore
variable [HttpCrate]

/-- The lines by their bytes, whether `to_str` takes them or not. -/
def cacheControlLines (headers : HeaderMap) : List Str :=
  (HeaderMap.values headers .cacheControl).map fun value => textOf (HttpCrate.asBytes value)

/-- Some line has the directive `no-store` or `private`, in whatever case. -/
def ForbidsStore (headers : HeaderMap) : Prop :=
  ∃ line ∈ cacheControlLines headers, ∃ directive ∈ directives line,
    eqIgnoreAsciiCase directive.1 "no-store".toList = true ∨
      eqIgnoreAsciiCase directive.1 "private".toList = true

/-- What the proxy looks for: one of the two texts, as written, in the first line, and every
byte of that line is visible ASCII. -/
def NoticesNoStore (headers : HeaderMap) : Prop :=
  ∃ value, HeaderMap.get headers .cacheControl = some value ∧
    (HttpCrate.asBytes value).all isVisibleByte = true ∧
    ("no-store".toList <:+: textOf (HttpCrate.asBytes value) ∨
      "private".toList <:+: textOf (HttpCrate.asBytes value))

/-- A directive in lower case on a first line of visible ASCII is noticed. -/
theorem noticesNoStore_of_directive {headers : HeaderMap} {value : HeaderValue}
    {argument : Option Str} (hvalue : HeaderMap.get headers .cacheControl = some value)
    (hvisible : (HttpCrate.asBytes value).all isVisibleByte = true)
    (h : ("no-store".toList, argument) ∈ directives (textOf (HttpCrate.asBytes value)) ∨
      ("private".toList, argument) ∈ directives (textOf (HttpCrate.asBytes value))) :
    NoticesNoStore headers :=
  ⟨value, hvalue, hvisible, h.imp directive_isInfix directive_isInfix⟩

theorem isNoStore_iff {response : Response} :
    isNoStore response = true ↔ NoticesNoStore response.headers := by
  unfold isNoStore NoticesNoStore HeaderMap.getStr
  cases HeaderMap.get response.headers .cacheControl with
  | none => simp [contains_iff]
  | some value =>
    rw [Option.bind_some, HttpCrate.toStr_asBytes]
    by_cases hvisible : (HttpCrate.asBytes value).all isVisibleByte = true
    · rw [if_pos hvisible, Option.getD_some, Bool.or_eq_true, contains_iff, contains_iff]
      constructor
      · exact fun h => ⟨value, rfl, hvisible, h⟩
      · rintro ⟨value', hvalue, -, h⟩
        cases hvalue
        exact h
    · rw [if_neg hvisible]
      constructor
      · simp [contains_iff]
      · rintro ⟨value', hvalue, hvisible', -⟩
        cases hvalue
        exact absurd hvisible' hvisible

variable [TlsCrate] [CaseMapping] {x : Exchange} {response : Response} {limits : ℕ → ℕ}

/-- The response would be stored if no line forbade it: a complete 200 for a static asset,
with an engine that takes the length it announces. -/
structure Eligible (limits : ℕ → ℕ) (x : Exchange) (response : Response) : Prop where
  engine : ∃ engine, x.cacheEngine = some engine ∧ announcesMore (limits engine) response = false
  isStatic : isStatic x response = true
  status : response.status = .ok
  complete : response.body.failed = false

theorem mayInsert_relaying_iff {m : MatchedRoute} :
    MayInsert limits (relaying x m (some response)) ↔
      Eligible limits x response ∧ ¬ NoticesNoStore response.headers := by
  have hstorable : isStorable x response = true ↔ isStatic x response = true ∧
      ¬ NoticesNoStore response.headers ∧ response.status = .ok := by
    unfold isStorable
    rw [← isNoStore_iff, Bool.and_eq_true, Bool.and_eq_true, Bool.not_eq_true', decide_eq_true_iff,
      Bool.not_eq_true, and_assoc]
  rw [mayInsert_iff]
  constructor
  · rintro ⟨⟨engine, hengine, hstore, hfits⟩, hcomplete⟩
    obtain ⟨hstatic, hnoticed, hstatus⟩ := hstorable.mp hstore
    exact ⟨⟨⟨engine, hengine, hfits⟩, hstatic, hstatus, hcomplete⟩, hnoticed⟩
  · rintro ⟨⟨⟨engine, hengine, hfits⟩, hstatic, hstatus, hcomplete⟩, hnoticed⟩
    exact ⟨⟨engine, hengine, hstorable.mpr ⟨hstatic, hnoticed, hstatus⟩, hfits⟩, hcomplete⟩

/-- A line that forbids to store keeps the response out of the cache exactly when the proxy
notices it, or the response would not be stored anyway. -/
theorem forbidden_not_inserted_iff {t : ProxyTrace} {request : ForwardedRequest}
    {k : Option Response → Program (Except BoxError Response)}
    (h : Reaches (handleRequest x) t (.op (.upstreamRequest request) k)) (limits : ℕ → ℕ) :
    (ForbidsStore response.headers → ¬ MayInsert limits (k (some response))) ↔
      (ForbidsStore response.headers → Eligible limits x response →
        NoticesNoStore response.headers) := by
  obtain ⟨m, -, hk⟩ := relays_answer h
  rw [hk, mayInsert_relaying_iff, not_and, not_not]

end NoStore

section Shop
open ListCrates

def sheetWith (lines : List String) : Response :=
  sheetResponse (lines.map fun line => (.cacheControl, line.toList)) false

/-- A directive in lower case on the first line keeps the sheet out, and so does, with any
other line, a length above the limit. -/
theorem lower_case_not_inserted :
    ∃ request k, sheetRun.2 = .op (.upstreamRequest request) k ∧
      ¬ MayInsert sheetLimits (k (some (sheetWith ["max-age=1, no-store"]))) ∧
      ¬ MayInsert sheetLimits (k (some (sheetResponse [(.cacheControl, "No-Store".toList),
        (.contentLength, "1025".toList)] false))) := by
  refine ⟨_, _, rfl, (forbidden_not_inserted_iff sheetRun_reaches sheetLimits).mpr ?_ ?_,
    (forbidden_not_inserted_iff sheetRun_reaches sheetLimits).mpr ?_ ?_⟩
  · intro _ _
    have hdirective : ("no-store".toList, (none : Option Str)) ∈
        directives "max-age=1, no-store".toList := .tail _ (.head _)
    exact noticesNoStore_of_directive rfl (by decide) (.inl hdirective)
  · exact ⟨_, .head _, _, .tail _ (.head _), .inl (by decide)⟩
  · rintro _ ⟨⟨engine, -, hfits⟩, -⟩
    have hmore : announcesMore 1024 (sheetResponse [(.cacheControl, "No-Store".toList),
        (.contentLength, "1025".toList)] false) = true := by decide
    cases hmore.symm.trans hfits
  · exact ⟨_, .head _, _, .head _, .inl (by decide)⟩

/-- `Cache-Control: No-Store` is stored, and so is a `no-store` on a second line or on a line
with a byte outside visible ASCII. -/
theorem capital_no_store_inserted :
    ForbidsStore (sheetWith ["No-Store"]).headers ∧
      ForbidsStore (sheetWith ["public", "no-store"]).headers ∧
      ForbidsStore (sheetWith ["no-store, x=é"]).headers ∧
      ∃ request k, sheetRun.2 = .op (.upstreamRequest request) k ∧
        MayInsert sheetLimits (k (some (sheetWith ["No-Store"]))) ∧
        MayInsert sheetLimits (k (some (sheetWith ["public", "no-store"]))) ∧
        MayInsert sheetLimits (k (some (sheetWith ["no-store, x=é"]))) := by
  refine ⟨⟨_, .head _, _, .head _, .inl (by decide)⟩,
    ⟨_, .tail _ (.head _), _, .head _, .inl (by decide)⟩,
    ⟨_, .head _, _, .head _, .inl (by decide)⟩, _, _, rfl, ?_, ?_, ?_⟩
  all_goals exact ⟨[], _, _, nofun, .start⟩

end Shop

end BarebonesProxy.Proxy
