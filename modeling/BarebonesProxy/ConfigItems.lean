import BarebonesProxy.ConfigSettings

set_option autoImplicit false

/-!
# The items of a configuration and what they say

The lines of a text group into items: directive lines, and blocks of them under a header.
An item is read by itself, and the parser writes what the items say one after the other.
-/
namespace BarebonesProxy.ConfigParser
open RustStrings RustNet ProxyConfig GuardedWrites

section BlockLines
variable {σ ι α : Type}

/-- Not a block terminator. -/
def isInner (line : Str) : Bool := ¬ (line = "\x7d".toList ∨ line = "\x7d;".toList)

def isHeader (line : Str) : Bool := endsWith line "\x7b".toList

/-- What a line says, where `setting` is the grammar of its block. -/
def readLine (setting : Str → Str → Option ι) (line : Str) : Option ι :=
  (directiveOf line).bind fun directive => setting directive.1 directive.2

def applyLine (setting : Str → Str → Option ι) (taken : ι → σ → Bool) (set : ι → σ → σ)
    (fields : σ) (line : Str) : Option σ :=
  (readLine setting line).bind (write taken set fields)

theorem readLine_eq_some {setting : Str → Str → Option ι} {line : Str} {v : ι}
    (h : readLine setting line = some v) :
    ∃ value, directiveOf line = some (nameOf line, value) ∧ setting (nameOf line) value = some v := by
  obtain ⟨⟨name, value⟩, hline, hv⟩ := Option.bind_eq_some_iff.mp h
  rw [nameOf_of_directiveOf hline]
  exact ⟨value, hline, hv⟩

theorem directiveOf_header {line : Str} (h : isHeader line = true) : directiveOf line = none := by
  have hend : endsWith (trim line) ";".toList = false :=
    endsWith_trim_ne (by decide) (by decide) h
  exact directiveOf_of_no_semicolon (Bool.eq_false_iff.mp hend)

variable [CaseMapping]

theorem validateDirectiveCase_of_lower {name : Str} (h : isLower name = true) :
    validateDirectiveCase name = .ok () := by
  obtain ⟨hascii, hlower⟩ : name.all isAscii = true ∧ name.map toAsciiLowercase = name := by
    simpa [isLower] using h
  unfold validateDirectiveCase
  rw [toLowercase_ascii name hascii, hlower]
  exact if_neg (not_not_intro rfl)

/-- A line that is read under its first token is read under the name of its directive. -/
theorem named_toOption {β : Type} {line : Str} (body : Str → Except ParseError β)
    (meaning : Str → Str → Option β)
    (hlower : ∀ name value b, meaning name value = some b → isLower name = true)
    (hbody : ∀ directive, (body directive).toOption = (lineValue line).bind (meaning directive)) :
    (do
      let directive ← getDirective line
      validateDirectiveCase directive
      body directive).toOption =
      (directiveOf line).bind fun directive => meaning directive.1 directive.2 := by
  rw [directiveOf_eq]
  simp only [toOption_bind, hbody]
  cases hvalue : lineValue line with
  | none => cases (getDirective line).toOption <;> simp
  | some value =>
    rw [getDirective_of_lineValue hvalue]
    cases hb : meaning (nameOf line) value with
    | none => simp [hb]
    | some b => simp [hb, validateDirectiveCase_of_lower (hlower _ _ b hb)]

variable {setting : Str → Str → Option ι} {taken : ι → σ → Bool} {set : ι → σ → σ}
variable {step : Str → Str → σ → Except ParseError σ}

/-- The checks of a block line leave what the line says. -/
theorem blockLine_toOption {β : Type}
    (hlower : ∀ name value v, setting name value = some v → isLower name = true)
    (hstep : ∀ directive line fields, (step directive line fields).toOption =
      (valueOf line).bind fun value => (setting directive value).bind (write taken set fields))
    (line : Str) (fields : σ) (next : σ → Except ParseError β) :
    (do
      validateSemicolon line
      let directive ← getDirective line
      validateDirectiveCase directive
      checkTrailingGarbage line
      let fields ← step directive line fields
      next fields).toOption =
      (applyLine setting taken set fields line).bind fun fields => (next fields).toOption := by
  have happly : ((applyLine setting taken set fields line).bind fun fields => (next fields).toOption) =
      (directiveOf line).bind fun directive =>
        ((setting directive.1 directive.2).bind (write taken set fields)).bind
          fun fields => (next fields).toOption := by
    unfold applyLine readLine
    rw [Option.bind_assoc, Option.bind_assoc]
    congr 1
    funext directive
    exact (Option.bind_assoc ..).symm
  rw [happly, checkTrailingGarbage_ok]
  unfold validateSemicolon
  by_cases hend : endsWith (trim line) ";".toList = true
  · rw [if_pos hend]
    change (do
      let directive ← getDirective line
      validateDirectiveCase directive
      step directive line fields >>= next).toOption = _
    refine named_toOption (fun directive => step directive line fields >>= next)
      (fun name value => ((setting name value).bind (write taken set fields)).bind
        fun fields => (next fields).toOption) (fun name value b h => ?_) fun directive => ?_
    · obtain ⟨_, hb, -⟩ := Option.bind_eq_some_iff.mp h
      obtain ⟨v, hv, -⟩ := Option.bind_eq_some_iff.mp hb
      exact hlower name value v hv
    · rw [lineValue_of_semicolon hend, toOption_bind, hstep, Option.bind_assoc]
  · rw [if_neg hend, directiveOf_of_no_semicolon hend]
    rfl

/-- A block is its lines up to the terminator, and the rest follows the terminator. -/
theorem parseBlock_toOption
    (hlower : ∀ name value v, setting name value = some v → isLower name = true)
    (hstep : ∀ directive line fields, (step directive line fields).toOption =
      (valueOf line).bind fun value => (setting directive value).bind (write taken set fields))
    (nested : Str → ParseError) (unterminated : ParseError) (finish : σ → Except ParseError α)
    (lines : List Str) (fields : σ) :
    (parseBlock nested unterminated step finish lines fields).toOption =
      (lines.dropWhile isInner).tail?.bind fun rest =>
        ((lines.takeWhile isInner).foldlM (applyLine setting taken set) fields).bind
          fun fields => (finish fields).toOption.map (·, rest) := by
  induction lines generalizing fields with
  | nil => rfl
  | cons line lines ih =>
    unfold parseBlock
    by_cases hcloser : line = "\x7d".toList ∨ line = "\x7d;".toList
    · have hinner : ¬ isInner line = true := fun h => of_decide_eq_true h hcloser
      rw [if_pos hcloser, List.dropWhile_cons_of_neg hinner, List.takeWhile_cons_of_neg hinner,
        toOption_bind]
      change _ = (finish fields).toOption.map (·, lines)
      cases finish fields <;> rfl
    · have hinner : isInner line = true := decide_eq_true hcloser
      rw [if_neg hcloser, List.dropWhile_cons_of_pos hinner, List.takeWhile_cons_of_pos hinner,
        List.foldlM_cons]
      by_cases hheader : endsWith line "\x7b".toList = true
      · have hnone : applyLine setting taken set fields line = none := by
          unfold applyLine readLine
          rw [directiveOf_header hheader]
          rfl
        rw [if_pos hheader, hnone]
        cases (lines.dropWhile isInner).tail? <;> rfl
      · rw [if_neg hheader, blockLine_toOption hlower hstep]
        cases applyLine setting taken set fields line with
        | none => cases (lines.dropWhile isInner).tail? <;> rfl
        | some fields => exact ih fields

end BlockLines

section Blocks

def routeBlock (requestEndpoint : Str) (body : List Str) : Option Route :=
  (body.foldlM (applyLine routeSetting RouteSetting.taken RouteSetting.set) .initial).bind
    fun fields => (finishRoute requestEndpoint fields).toOption

def securityBlock (body : List Str) : Option SecurityConfig :=
  (body.foldlM (applyLine securitySetting SecuritySetting.taken SecuritySetting.set) .initial).bind
    fun fields => (finishSecurity fields).toOption

def cacheBlock (body : List Str) : Option CacheConfig :=
  body.foldlM (applyLine cacheSetting CacheSetting.taken CacheSetting.set) defaultCacheConfig

/-- A block of the rest of a text: its body and what follows its terminator. -/
def readBlock {α : Type} (read : List Str → Option α) (lines : List Str) : Option (α × List Str) :=
  (lines.dropWhile isInner).tail?.bind fun rest => (read (lines.takeWhile isInner)).map (·, rest)

theorem finishRoute_ok {requestEndpoint : Str} {fields : RouteFields} {route : Route}
    (h : finishRoute requestEndpoint fields = .ok route) :
    fields.forwardEndpoint = some route.forwardEndpoint ∧
      route = ⟨requestEndpoint, route.forwardEndpoint, fields.authRequired, fields.certPath,
        fields.keyPath, fields.cache, fields.interceptErrors⟩ ∧
      if startsWith requestEndpoint "https://".toList then
        fields.certPath.isSome = true ∧ fields.keyPath.isSome = true
      else fields.certPath = none ∧ fields.keyPath = none := by
  unfold finishRoute at h
  split at h
  · cases h
  · next forward hforward =>
    split_ifs at h with hscheme hmissing hgiven
    · cases h
      refine ⟨hforward, rfl, ?_⟩
      rw [if_pos hscheme]
      simpa [Option.isSome_iff_ne_none] using hmissing
    · cases h
      refine ⟨hforward, rfl, ?_⟩
      rw [if_neg hscheme]
      simpa using hgiven

theorem routeBlock_requestEndpoint {requestEndpoint : Str} {body : List Str} {route : Route}
    (h : routeBlock requestEndpoint body = some route) :
    route.requestEndpoint = requestEndpoint := by
  obtain ⟨fields, -, hroute⟩ := Option.bind_eq_some_iff.mp h
  rw [(finishRoute_ok (toOption_eq_some_iff.mp hroute)).2.1]

variable [CaseMapping]

theorem parseRouteBlock_toOption (lines : List Str) (requestEndpoint : Str) :
    (parseRouteBlock lines requestEndpoint).toOption =
      readBlock (routeBlock requestEndpoint) lines := by
  unfold parseRouteBlock readBlock routeBlock
  rw [parseBlock_toOption (fun name value v h => (routeSetting_name h).2) routeDirective_toOption]
  congr 1
  funext rest
  exact (Option.map_bind ..).symm

theorem parseSecurityBlock_toOption (lines : List Str) :
    (parseSecurityBlock lines).toOption = readBlock securityBlock lines := by
  unfold parseSecurityBlock readBlock securityBlock
  rw [parseBlock_toOption (fun name value v h => (securitySetting_name h).2)
    securityDirective_toOption]
  congr 1
  funext rest
  exact (Option.map_bind ..).symm

theorem parseCacheBlock_toOption (lines : List Str) :
    (parseCacheBlock lines).toOption = readBlock cacheBlock lines := by
  unfold parseCacheBlock readBlock cacheBlock
  rw [parseBlock_toOption (fun name value v h => (cacheSetting_name h).2) cacheDirective_toOption]
  congr 1
  funext rest
  generalize (lines.takeWhile isInner).foldlM
    (applyLine cacheSetting CacheSetting.taken CacheSetting.set) defaultCacheConfig = result
  cases result <;> rfl

end Blocks

section Entries

/-- What a top-level item says. -/
inductive Entry where
  | listen (port : ℕ)
  | logfile (path : Str)
  | interceptErrors (on : Bool)
  | workers (n : ℕ)
  | route (route : Route)
  | security (config : SecurityConfig)
  | cache (config : CacheConfig)

namespace Entry

def taken : Entry → Items → Bool
  | .listen _, items => items.listenFound
  | .logfile _, items => items.logfile.isSome
  | .interceptErrors _, items => items.interceptErrors.isSome
  | .workers _, items => items.workers.isSome
  | .route r, items => items.requestEndpoints.contains r.requestEndpoint
  | .security _, items => items.security.isSome
  | .cache _, items => items.cache.isSome

def set : Entry → Items → Items
  | .listen port, items => { items with listenPort := port, listenFound := true }
  | .logfile path, items => { items with logfile := some path }
  | .interceptErrors on, items => { items with interceptErrors := some on }
  | .workers n, items => { items with workers := some n }
  | .route r, items => { items with
      requestEndpoints := r.requestEndpoint :: items.requestEndpoints
      routes := items.routes ++ [r]
      routesFound := true }
  | .security config, items => { items with security := some config }
  | .cache config, items => { items with cache := some config }

end Entry

def lineEntry (name value : Str) : Option Entry :=
  if name = "listen".toList then (parseUnsigned u16Max value).map .listen
  else if name = "logfile".toList then some (.logfile value)
  else if name = "intercept_errors".toList then (onOff value).map .interceptErrors
  else if name = "workers".toList then
    ((parseUnsigned usizeMax value).filter (· ≠ 0)).map .workers
  else none

def blockEntry (header : Str) (body : List Str) : Option Entry :=
  if nameOf header = "route".toList then
    (parseRouteBlockHeader header).toOption.bind fun endpoint => (routeBlock endpoint body).map .route
  else if nameOf header = "security".toList then (securityBlock body).map .security
  else if nameOf header = "cache".toList then (cacheBlock body).map .cache
  else none

/-- An item of a text. A block that the text breaks off has no `closer`. -/
inductive Item where
  | line (text : Str)
  | block (header : Str) (body : List Str) (closer : Option Str)
deriving DecidableEq

namespace Item

def lines : Item → List Str
  | .line text => [text]
  | .block header body closer => header :: body ++ closer.toList

def read : Item → Option Entry
  | .line text => readLine lineEntry text
  | .block header body closer => closer.bind fun _ => blockEntry header body

def apply (items : Items) (item : Item) : Option Items :=
  item.read.bind (write Entry.taken Entry.set items)

end Item

/-- The items of a text, where `opened` is the block that its first line is in. -/
def itemsFrom : Option (Str × List Str) → List Str → List Item
  | none, [] => []
  | some (header, body), [] => [.block header body none]
  | none, line :: rest =>
    if isHeader line then itemsFrom (some (line, [])) rest else .line line :: itemsFrom none rest
  | some (header, body), line :: rest =>
    if isInner line then itemsFrom (some (header, body ++ [line])) rest
    else .block header body (some line) :: itemsFrom none rest

def itemsOf (lines : List Str) : List Item := itemsFrom none lines

theorem itemsFrom_some (header : Str) (body lines : List Str) :
    itemsFrom (some (header, body)) lines =
      .block header (body ++ lines.takeWhile isInner) (lines.dropWhile isInner).head? ::
        itemsOf (lines.dropWhile isInner).tail := by
  induction lines generalizing body with
  | nil => simp [itemsFrom, itemsOf]
  | cons line lines ih =>
    unfold itemsFrom
    by_cases hinner : isInner line = true
    · rw [if_pos hinner, ih, List.takeWhile_cons_of_pos hinner, List.dropWhile_cons_of_pos hinner,
        List.append_assoc]
      rfl
    · rw [if_neg hinner, List.takeWhile_cons_of_neg hinner, List.dropWhile_cons_of_neg hinner,
        List.append_nil]
      rfl

/-- The item that a line begins, and the lines after it. -/
def nextItem (line : Str) (rest : List Str) : Item × List Str :=
  if isHeader line then
    (.block line (rest.takeWhile isInner) (rest.dropWhile isInner).head?,
      (rest.dropWhile isInner).tail)
  else (.line line, rest)

theorem itemsOf_cons (line : Str) (rest : List Str) :
    itemsOf (line :: rest) = (nextItem line rest).1 :: itemsOf (nextItem line rest).2 := by
  unfold nextItem
  by_cases hheader : isHeader line = true
  · have hopen : itemsOf (line :: rest) = itemsFrom (some (line, [])) rest := if_pos hheader
    rw [if_pos hheader, hopen, itemsFrom_some]
    rfl
  · rw [if_neg hheader]
    exact if_neg hheader

theorem nextItem_lines (line : Str) (rest : List Str) :
    line :: rest = (nextItem line rest).1.lines ++ (nextItem line rest).2 := by
  unfold nextItem
  by_cases hheader : isHeader line = true
  · have hrest : (rest.dropWhile isInner).head?.toList ++ (rest.dropWhile isInner).tail =
        rest.dropWhile isInner := by
      cases rest.dropWhile isInner <;> rfl
    rw [if_pos hheader]
    change line :: rest = line :: _ ++ (rest.dropWhile isInner).head?.toList ++ _
    rw [List.append_assoc, hrest, List.cons_append, List.takeWhile_append_dropWhile]
  · rw [if_neg hheader]
    rfl

theorem nextItem_length (line : Str) (rest : List Str) :
    (nextItem line rest).2.length ≤ rest.length := by
  unfold nextItem
  by_cases hheader : isHeader line = true
  · rw [if_pos hheader, List.length_tail]
    have hdrop := (rest.dropWhile_suffix isInner).length_le
    omega
  · rw [if_neg hheader]

theorem itemsOf_lines (lines : List Str) : (itemsOf lines).flatMap Item.lines = lines := by
  induction hn : lines.length using Nat.strong_induction_on generalizing lines with
  | _ n ih =>
    cases lines with
    | nil => rfl
    | cons line rest =>
      have hlength := nextItem_length line rest
      rw [List.length_cons] at hn
      rw [itemsOf_cons, List.flatMap_cons, ih _ (by omega) _ rfl, ← nextItem_lines]

end Entries

section Document
variable {line : Str} {rest : List Str} {items : Items}

theorem parseListenLine_toOption (line : Str) :
    (parseListenLine line).toOption = (valueOf line).bind (parseUnsigned u16Max) := by
  unfold parseListenLine valueOf
  generalize withoutSemicolon line = tokens
  match tokens with
  | [] | [_] | _ :: _ :: _ :: _ => rfl
  | [_, port] =>
    change _ = parseUnsigned u16Max port
    dsimp only
    cases parseUnsigned u16Max port <;> rfl

/-- A top-level directive line is read for a place and kept there. -/
theorem topLine_toOption {α : Type} {current : Bool} {e : ParseError} (read : Str → Option α)
    (entry : α → Entry) {x : Except ParseError (Items × List Str)}
    (htaken : ∀ a, (entry a).taken items = current)
    (hread : x.toOption = (valueOf line).bind fun value =>
      (read value).map fun a => ((entry a).set items, rest)) :
    (do
      validateSemicolon line
      checkTrailingGarbage line
      if current then .error e else x).toOption =
      (lineValue line).bind fun value =>
        (((read value).map entry).bind (write Entry.taken Entry.set items)).map (·, rest) := by
  rw [checkTrailingGarbage_ok]
  unfold validateSemicolon lineValue
  by_cases hend : endsWith (trim line) ";".toList = true
  · rw [if_pos hend, if_pos hend]
    change (if current then .error e else x : Except ParseError (Items × List Str)).toOption = _
    rw [toOption_ite, hread]
    cases valueOf line with
    | none => cases current <;> rfl
    | some value =>
      cases hvalue : read value <;> cases current <;> simp [write, htaken, hvalue]
  · rw [if_neg hend, if_neg hend]
    rfl

theorem listen_kept : (do
      let listenPort ← parseListenLine line
      return ({ items with listenPort, listenFound := true }, rest) :
        Except ParseError (Items × List Str)).toOption =
      (valueOf line).bind fun value => (parseUnsigned u16Max value).map fun port =>
        ((Entry.listen port).set items, rest) := by
  rw [toOption_bind, parseListenLine_toOption, Option.bind_assoc]
  congr 1
  funext value
  cases parseUnsigned u16Max value <;> rfl

theorem interceptErrors_kept (directive : Str) : (do
      let value ← parseSingleValueDirective line directive
      match switchValue ["on", "yes", "true"] ["off", "no", "false"] value with
      | some enabled => return ({ items with interceptErrors := some enabled }, rest)
      | none => .error (.unknownDirective line) : Except ParseError (Items × List Str)).toOption =
      (valueOf line).bind fun value => (onOff value).map fun enabled =>
        ((Entry.interceptErrors enabled).set items, rest) := by
  refine singleValue_toOption fun value => ?_
  unfold onOff
  cases switchValue ["on", "yes", "true"] ["off", "no", "false"] value <;> rfl

theorem workers_kept (directive : Str) : (do
      let value ← parseSingleValueDirective line directive
      match parseUnsigned usizeMax value with
      | none => .error (.invalidWorkersValue value)
      | some n =>
        if n = 0 then .error (.invalidWorkersValue value)
        else return ({ items with workers := some n }, rest) :
        Except ParseError (Items × List Str)).toOption =
      (valueOf line).bind fun value => ((parseUnsigned usizeMax value).filter (· ≠ 0)).map fun n =>
        ((Entry.workers n).set items, rest) := by
  refine singleValue_toOption fun value => ?_
  cases parseUnsigned usizeMax value with
  | none => rfl
  | some n =>
    dsimp only
    rw [toOption_ite]
    by_cases hn : n = 0 <;> simp [hn, toOption_pure, Entry.set]

theorem topBlock_toOption {α : Type} {current : Prop} [Decidable current] {e : ParseError}
    (read : List Str → Option α) (entry : α → Entry) {x : Except ParseError (α × List Str)}
    (htaken : ∀ a, read (rest.takeWhile isInner) = some a →
      ((entry a).taken items = true ↔ current))
    (hread : x.toOption = readBlock read rest) :
    (if current then .error e else do
      let (a, rest) ← x
      return ((entry a).set items, rest) : Except ParseError (Items × List Str)).toOption =
      (((rest.dropWhile isInner).head?.bind fun _ =>
        (read (rest.takeWhile isInner)).map entry).bind (write Entry.taken Entry.set items)).map
          (·, (rest.dropWhile isInner).tail) := by
  rw [toOption_ite, toOption_bind, hread]
  unfold readBlock
  cases rest.dropWhile isInner with
  | nil => split_ifs <;> rfl
  | cons closer after =>
    cases hvalue : read (rest.takeWhile isInner) with
    | none => split_ifs <;> rfl
    | some a =>
      by_cases hcurrent : current <;> simp [write, htaken a hvalue, hcurrent, toOption_pure]

theorem lineEntry_lower {name value : Str} {entry : Entry} (h : lineEntry name value = some entry) :
    isLower name = true := by
  unfold lineEntry at h
  split_ifs at h with hlisten hlogfile herrors hworkers
  · rw [hlisten]
    decide
  · rw [hlogfile]
    decide
  · rw [herrors]
    decide
  · rw [hworkers]
    decide

theorem validateKnown_ok {directive : Str} (h : directive ∈ topLevelDirectives) :
    validateKnownTopLevelDirective directive = .ok () := if_pos h

theorem isLower_of_known : ∀ directive ∈ topLevelDirectives, isLower directive = true := by decide

theorem getDirective_cases (line : Str) :
    getDirective line = .error (.unknownDirective []) ∧ nameOf line = [] ∨
      getDirective line = .ok (nameOf line) := by
  unfold getDirective nameOf
  cases splitWhitespace line with
  | nil => exact .inl ⟨rfl, rfl⟩
  | cons directive tokens => exact .inr rfl

variable [CaseMapping]

theorem keyword_checks {α : Type} {directive : Str} (h : directive ∈ topLevelDirectives)
    (x : Except ParseError α) :
    (do
      validateDirectiveCase directive
      validateKnownTopLevelDirective directive
      x) = x := by
  rw [validateDirectiveCase_of_lower (isLower_of_known directive h), validateKnown_ok h]
  rfl

theorem parseItem_line (hheader : ¬ isHeader line = true) :
    (parseItem line rest items).toOption = ((Item.line line).apply items).map (·, rest) := by
  have happly : ((Item.line line).apply items).map (·, rest) = (directiveOf line).bind
      fun directive => ((lineEntry directive.1 directive.2).bind
        (write Entry.taken Entry.set items)).map (·, rest) := by
    unfold Item.apply Item.read readLine
    rw [Option.bind_assoc, Option.map_bind]
    rfl
  have hopen : ¬ endsWith line "\x7b".toList = true := hheader
  unfold parseItem
  by_cases hcloser : line = "\x7d".toList ∨ line = "\x7d;".toList
  · rw [if_pos hcloser]
    rcases hcloser with rfl | rfl <;> rfl
  · rw [if_neg hcloser, happly]
    refine named_toOption _ (fun name value => ((lineEntry name value).bind
      (write Entry.taken Entry.set items)).map (·, rest)) (fun name value b h => ?_)
      fun directive => ?_
    · obtain ⟨_, hb, -⟩ := Option.map_eq_some_iff.mp h
      obtain ⟨entry, hentry, -⟩ := Option.bind_eq_some_iff.mp hb
      exact lineEntry_lower hentry
    unfold lineEntry
    by_cases hlisten : directive = "listen".toList
    · simp only [if_pos hlisten]
      rw [validateKnown_ok (by rw [hlisten]; decide)]
      exact topLine_toOption (parseUnsigned u16Max) .listen (fun _ => rfl) listen_kept
    simp only [if_neg hlisten]
    by_cases hlogfile : directive = "logfile".toList
    · simp only [if_pos hlogfile]
      rw [validateKnown_ok (by rw [hlogfile]; decide)]
      exact topLine_toOption some .logfile (fun _ => rfl) (singleValue_toOption fun _ => rfl)
    simp only [if_neg hlogfile]
    by_cases herrors : directive = "intercept_errors".toList
    · simp only [if_pos herrors]
      rw [validateKnown_ok (by rw [herrors]; decide)]
      exact topLine_toOption onOff .interceptErrors (fun _ => rfl) (interceptErrors_kept directive)
    simp only [if_neg herrors]
    by_cases hworkers : directive = "workers".toList
    · have hroute : directive ≠ "route".toList := by
        rw [hworkers]
        decide
      have hsecurity : directive ≠ "security".toList := by
        rw [hworkers]
        decide
      simp only [if_neg hroute, if_neg hsecurity, if_pos hworkers]
      rw [validateKnown_ok (by rw [hworkers]; decide)]
      exact topLine_toOption (fun value => (parseUnsigned usizeMax value).filter (· ≠ 0)) .workers
        (fun _ => rfl) (workers_kept directive)
    -- any other name is refused on a line that opens no block
    simp only [if_neg hworkers, if_neg hopen]
    cases (lineValue line) <;> split_ifs <;>
      cases validateKnownTopLevelDirective directive <;> rfl

theorem parseItem_block (hheader : isHeader line = true) :
    (parseItem line rest items).toOption =
      ((Item.block line (rest.takeWhile isInner) (rest.dropWhile isInner).head?).apply items).map
        (·, (rest.dropWhile isInner).tail) := by
  have hopen : endsWith line "\x7b".toList = true := hheader
  have hcloser : ¬ (line = "\x7d".toList ∨ line = "\x7d;".toList) := by
    rintro (rfl | rfl) <;> cases hheader
  have hend : ¬ endsWith (trim line) ";".toList = true :=
    Bool.eq_false_iff.mp (endsWith_trim_ne (by decide) (by decide) hheader)
  have hsemicolon : validateSemicolon line = .error (.missingSemicolon line) := if_neg hend
  unfold parseItem Item.apply Item.read blockEntry
  rw [if_neg hcloser]
  simp only [if_pos hopen, hsemicolon]
  rcases getDirective_cases line with ⟨hget, hname⟩ | hget
  · rw [hget, hname]
    cases (rest.dropWhile isInner).head? <;> rfl
  have hstart : ∀ {β : Type} (f : Str → Except ParseError β),
      (getDirective line >>= f) = f (nameOf line) := fun f => by rw [hget]; rfl
  rw [hstart]
  generalize nameOf line = directive
  by_cases hroute : directive = "route".toList
  · subst hroute
    rw [keyword_checks (by decide), if_neg (by decide), if_neg (by decide), if_neg (by decide),
      if_pos rfl, if_pos rfl]
    cases parseRouteBlockHeader line with
    | error e => cases (rest.dropWhile isInner).head? <;> rfl
    | ok endpoint =>
      refine topBlock_toOption (routeBlock endpoint) .route (fun route hroute => ?_)
        (parseRouteBlock_toOption rest endpoint)
      rw [← routeBlock_requestEndpoint hroute]
      exact List.contains_iff_mem
  by_cases hsecurity : directive = "security".toList
  · subst hsecurity
    rw [keyword_checks (by decide), if_neg (by decide), if_neg (by decide), if_neg (by decide),
      if_neg hroute, if_pos rfl, if_neg hroute, if_pos rfl]
    exact topBlock_toOption securityBlock .security (fun _ _ => Iff.rfl)
      (parseSecurityBlock_toOption rest)
  by_cases hcache : directive = "cache".toList
  · subst hcache
    rw [keyword_checks (by decide), if_neg (by decide), if_neg (by decide), if_neg (by decide),
      if_neg hroute, if_neg hsecurity, if_neg (by decide), if_neg hroute, if_neg hsecurity,
      if_pos rfl]
    exact topBlock_toOption cacheBlock .cache (fun _ _ => Iff.rfl) (parseCacheBlock_toOption rest)
  -- any other directive is unknown or needs a semicolon
  have hentry : ∀ closer : Option Str, (closer.bind fun _ => (none : Option Entry)) = none := by
    rintro (_ | _) <;> rfl
  simp only [if_neg hroute, if_neg hsecurity, if_neg hcache, hentry]
  by_cases hknown : directive ∈ topLevelDirectives
  · rw [keyword_checks hknown]
    simp only [topLevelDirectives, List.map_cons, List.map_nil, List.mem_cons,
      List.not_mem_nil, or_false] at hknown
    rcases hknown with rfl | rfl | rfl | rfl | rfl | rfl | rfl
    · rfl
    · exact absurd rfl hroute
    · rfl
    · rfl
    · exact absurd rfl hsecurity
    · exact absurd rfl hcache
    · rfl
  · have hunknown : validateKnownTopLevelDirective directive =
        .error (.unknownDirective directive) := if_neg hknown
    rw [toOption_bind, hunknown]
    cases (validateDirectiveCase directive).toOption <;> rfl

theorem parseItem_toOption (line : Str) (rest : List Str) (items : Items) :
    (parseItem line rest items).toOption =
      ((nextItem line rest).1.apply items).map (·, (nextItem line rest).2) := by
  unfold nextItem
  by_cases hheader : isHeader line = true
  · rw [if_pos hheader]
    exact parseItem_block hheader
  · rw [if_neg hheader]
    exact parseItem_line hheader

/-- The parser writes what the items of the text say, one after the other. -/
theorem parseItems_toOption {fuel : ℕ} {lines : List Str} (hfuel : lines.length ≤ fuel)
    (items : Items) :
    (parseItems fuel lines items).toOption = (itemsOf lines).foldlM Item.apply items := by
  induction fuel generalizing lines items with
  | zero =>
    have hnil : lines = [] := List.length_eq_zero_iff.mp (Nat.le_zero.mp hfuel)
    rw [hnil]
    rfl
  | succ fuel ih =>
    cases lines with
    | nil => rfl
    | cons line rest =>
      have hlength := nextItem_length line rest
      rw [List.length_cons] at hfuel
      rw [itemsOf_cons, List.foldlM_cons]
      unfold parseItems
      rw [toOption_bind, parseItem_toOption]
      cases (nextItem line rest).1.apply items with
      | none => rfl
      | some items => exact ih (by omega) items

/-- A text is accepted if its items can all be written and the whole is complete. -/
theorem parseProxyConfig_ok_iff {availableParallelism : Option ℕ} {input : Str} {config : Config} :
    parseProxyConfig availableParallelism input = .ok config ↔
      ∃ items, (itemsOf (configLines input)).foldlM Item.apply .initial = some items ∧
        finishConfig availableParallelism items = .ok config := by
  unfold parseProxyConfig
  rw [← toOption_eq_some_iff, toOption_bind, parseItems_toOption (Nat.le_refl _),
    Option.bind_eq_some_iff]
  simp only [toOption_eq_some_iff]

end Document

end BarebonesProxy.ConfigParser
