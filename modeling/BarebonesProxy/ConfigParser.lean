import BarebonesProxy.ProxyConfig

set_option autoImplicit false

/-!
# The configuration parser of `parser.rs`

A block function consumes the lines up to its terminator and hands back the rest, where
the source moves an index. The three blocks share one loop.
-/
namespace BarebonesProxy.ConfigParser
open RustStrings RustNet ProxyConfig

/-- Where the scan of `strip_comments` stands; one character is read at a time. -/
inductive Mode where
  | code
  | lineOpener
  | blockOpener
  | line
  | block
  | closer
deriving DecidableEq

/-- The lexical boundary test; `before` holds the characters read, last one first. -/
def isBoundary (before : Str) : Bool :=
  match before with
  | [] => true
  | prev :: _ =>
    if prev == ' ' || prev == '\t' || prev == ';' || prev == '\n' then true
    else (before.takeWhile (· != '\n')).all fun c => c == ' ' || c == '\t'

def stripFrom : Mode → Str → Str → Str
  | _, _, [] => []
  | .code, before, c :: rest =>
    if c = '/' ∧ rest.head? = some '/' ∧ isBoundary before then
      ' ' :: stripFrom .lineOpener (c :: before) rest
    else if c = '/' ∧ rest.head? = some '*' ∧ isBoundary before then
      ' ' :: stripFrom .blockOpener (c :: before) rest
    else c :: stripFrom .code (c :: before) rest
  | .lineOpener, before, c :: rest => ' ' :: stripFrom .line (c :: before) rest
  | .blockOpener, before, c :: rest => ' ' :: stripFrom .block (c :: before) rest
  | .line, before, c :: rest =>
    if c = '\n' then '\n' :: stripFrom .code (c :: before) rest
    else ' ' :: stripFrom .line (c :: before) rest
  | .block, before, c :: rest =>
    if c = '*' ∧ rest.head? = some '/' then ' ' :: stripFrom .closer (c :: before) rest
    else if c = '\n' then '\n' :: stripFrom .block (c :: before) rest
    else ' ' :: stripFrom .block (c :: before) rest
  | .closer, before, c :: rest => ' ' :: stripFrom .code (c :: before) rest

def stripComments (input : Str) : Str := stripFrom .code [] input

def isValidUrl (url : Str) : Bool :=
  contains url "://".toList || startsWith url "/".toList || contains url ":".toList

def withoutSemicolon (line : Str) : List Str := splitWhitespace (trim (trimEndMatches line ';'))

def parseListenLine (line : Str) : Except ParseError ℕ :=
  match withoutSemicolon line with
  | [_, port] =>
    match parseUnsigned u16Max port with
    | some n => .ok n
    | none => .error (.invalidPort port)
  | _ => .error .invalidListenDirective

def validateSemicolon (line : Str) : Except ParseError Unit :=
  if endsWith (trim line) ";".toList then .ok () else .error (.missingSemicolon line)

def getDirective (line : Str) : Except ParseError Str :=
  match splitWhitespace line with
  | [] => .error (.unknownDirective [])
  | directive :: _ => .ok directive

def topLevelDirectives : List Str :=
  ["listen", "route", "workers", "logfile", "security", "cache", "intercept_errors"].map
    String.toList

def validateKnownTopLevelDirective (directive : Str) : Except ParseError Unit :=
  if directive ∈ topLevelDirectives then .ok () else .error (.unknownDirective directive)

def parseSingleValueDirective (line directive : Str) : Except ParseError Str :=
  match withoutSemicolon line with
  | [_, value] => .ok value
  | _ => .error (.unknownDirective directive)

def checkTrailingGarbage (line : Str) : Except ParseError Unit :=
  let trimmed := trim line
  if endsWith trimmed ";".toList then
    let afterSemicolon := trim (trimmed.reverse.takeWhile (· != ';')).reverse
    if afterSemicolon ≠ [] then .error .invalidListenDirective else .ok ()
  else .ok ()

def switchValue (on off : List String) (value : Str) : Option Bool :=
  if value ∈ on.map String.toList then some true
  else if value ∈ off.map String.toList then some false
  else none

def parseSizeString (s directiveName : Str) : Except ParseError ℕ :=
  let s := trim s
  let invalid : Except ParseError ℕ := .error (.invalidSecurityValue directiveName s)
  if s = [] then invalid
  else
    let (numStr, multiplier) :=
      match s.getLast? with
      | some 'k' | some 'K' => (s.dropLast, 1024)
      | some 'm' | some 'M' => (s.dropLast, 1024 * 1024)
      | some 'g' | some 'G' => (s.dropLast, 1024 * 1024 * 1024)
      | _ => (s, 1)
    match parseUnsigned usizeMax numStr with
    | none => invalid
    | some num => if num * multiplier ≤ usizeMax then .ok (num * multiplier) else invalid

section Blocks
variable [CaseMapping]

def validateDirectiveCase (directive : Str) : Except ParseError Unit :=
  if directive ≠ toLowercase directive then .error (.invalidDirectiveCase directive) else .ok ()

/-- The loop over the lines of a block: `step` handles one directive line, `finish` the
terminator. -/
def parseBlock {σ α : Type} (nested : Str → ParseError) (unterminated : ParseError)
    (step : Str → Str → σ → Except ParseError σ) (finish : σ → Except ParseError α) :
    List Str → σ → Except ParseError (α × List Str)
  | [], _ => .error unterminated
  | line :: rest, fields =>
    if line = "\x7d".toList ∨ line = "\x7d;".toList then do
      let result ← finish fields
      return (result, rest)
    else if endsWith line "\x7b".toList then .error (nested line)
    else do
      validateSemicolon line
      let directive ← getDirective line
      validateDirectiveCase directive
      checkTrailingGarbage line
      let fields ← step directive line fields
      parseBlock nested unterminated step finish rest fields

structure RouteFields where
  forwardEndpoint : Option Str
  authRequired : Bool
  certPath : Option Str
  keyPath : Option Str
  cache : Option Bool
  interceptErrors : Option Bool

def RouteFields.initial : RouteFields := ⟨none, false, none, none, none, none⟩

def routeSwitch (line : Str) (directive : String) : Except ParseError Bool := do
  let value ← parseSingleValueDirective line directive.toList
  match switchValue ["on", "yes", "true"] ["off", "no", "false"] value with
  | some b => .ok b
  | none => .error (.invalidRouteDirective line)

def routePath (line : Str) (directive : String) (current : Option Str) : Except ParseError Str := do
  let value ← parseSingleValueDirective line directive.toList
  if current.isSome then .error (.invalidRouteDirective line) else .ok value

def routeDirective (directive line : Str) (fields : RouteFields) : Except ParseError RouteFields :=
  if directive = "upstream".toList ∨ directive = "forward".toList then do
    let value ← parseSingleValueDirective line directive
    if isValidUrl value then return { fields with forwardEndpoint := some value }
    else .error (.invalidUrlFormat value)
  else if directive = "auth".toList then do
    return { fields with authRequired := ← routeSwitch line "auth" }
  else if directive = "cert".toList then do
    return { fields with certPath := some (← routePath line "cert" fields.certPath) }
  else if directive = "key".toList then do
    return { fields with keyPath := some (← routePath line "key" fields.keyPath) }
  else if directive = "cache".toList then do
    return { fields with cache := some (← routeSwitch line "cache") }
  else if directive = "intercept_errors".toList then do
    return { fields with interceptErrors := some (← routeSwitch line "intercept_errors") }
  else .error (.invalidRouteDirective line)

def finishRoute (requestEndpoint : Str) (fields : RouteFields) : Except ParseError Route :=
  match fields.forwardEndpoint with
  | none => .error (.invalidRouteDirective requestEndpoint)
  | some forwardEndpoint =>
    if startsWith requestEndpoint "https://".toList then
      if fields.certPath.isNone || fields.keyPath.isNone then
        .error (.incompleteRouteCertBlock requestEndpoint)
      else .ok ⟨requestEndpoint, forwardEndpoint, fields.authRequired, fields.certPath,
        fields.keyPath, fields.cache, fields.interceptErrors⟩
    else if fields.certPath.isSome || fields.keyPath.isSome then
      .error (.certNotAllowedForHttpRoute requestEndpoint)
    else .ok ⟨requestEndpoint, forwardEndpoint, fields.authRequired, fields.certPath,
      fields.keyPath, fields.cache, fields.interceptErrors⟩

def parseRouteBlockHeader (line : Str) : Except ParseError Str :=
  match splitWhitespace line with
  | [keyword, endpoint, brace] =>
    if keyword ≠ "route".toList ∨ brace ≠ "\x7b".toList then .error (.invalidRouteDirective line)
    else if isValidUrl endpoint then .ok endpoint
    else .error (.invalidUrlFormat endpoint)
  | _ => .error (.invalidRouteDirective line)

def parseRouteBlock (lines : List Str) (requestEndpoint : Str) :
    Except ParseError (Route × List Str) :=
  parseBlock .invalidRouteDirective (.invalidRouteDirective requestEndpoint) routeDirective
    (finishRoute requestEndpoint) lines .initial

structure SecurityFields where
  proxyProtocol : Option Bool
  trustedUpstream : Option IpAddr
  timeoutMs : Option ℕ
  maxTlsFailures : Option ℕ
  banDurationSec : Option ℕ
  rateLimitRpm : Option ℕ
  forwardAuth : Option Str
  maxBodySize : Option ℕ
  maxHeaderSize : Option ℕ

def SecurityFields.initial : SecurityFields :=
  ⟨none, none, none, none, none, none, none, none, none⟩

def securityValue {α : Type} (line directive : Str) (current : Option α)
    (read : Str → Except ParseError α) : Except ParseError (Option α) := do
  let value ← parseSingleValueDirective line directive
  if current.isSome then .error (.duplicateSecurityDirective directive)
  else return some (← read value)

def readOr {α : Type} (directive : Str) (parse : Str → Option α) (value : Str) :
    Except ParseError α :=
  match parse value with
  | some a => .ok a
  | none => .error (.invalidSecurityValue directive value)

def securityDirective (directive line : Str) (fields : SecurityFields) :
    Except ParseError SecurityFields :=
  let once {α : Type} (current : Option α) (read : Str → Except ParseError α) :=
    securityValue line directive current read
  if directive = "proxy_protocol".toList then do
    let proxyProtocol ← once fields.proxyProtocol
      (readOr directive (switchValue ["on", "true"] ["off", "false"]))
    return { fields with proxyProtocol }
  else if directive = "trusted_upstream".toList then do
    let trustedUpstream ← once fields.trustedUpstream (readOr directive IpAddr.parse)
    return { fields with trustedUpstream }
  else if directive = "timeout".toList then do
    let timeoutMs ← once fields.timeoutMs (readOr directive (parseUnsigned u64Max))
    return { fields with timeoutMs }
  else if directive = "max_tls_failures".toList then do
    let maxTlsFailures ← once fields.maxTlsFailures (readOr directive (parseUnsigned usizeMax))
    return { fields with maxTlsFailures }
  else if directive = "ban_duration".toList then do
    let banDurationSec ← once fields.banDurationSec (readOr directive (parseUnsigned u64Max))
    return { fields with banDurationSec }
  else if directive = "rate_limit_rpm".toList ∨ directive = "rate_limit".toList then do
    let rateLimitRpm ← once fields.rateLimitRpm (readOr directive (parseUnsigned usizeMax))
    return { fields with rateLimitRpm }
  else if directive = "forward_auth".toList then do
    let forwardAuth ← once fields.forwardAuth .ok
    return { fields with forwardAuth }
  else if directive = "max_body_size".toList then do
    let maxBodySize ← once fields.maxBodySize (parseSizeString · directive)
    return { fields with maxBodySize }
  else if directive = "max_header_size".toList then do
    let maxHeaderSize ← once fields.maxHeaderSize (parseSizeString · directive)
    return { fields with maxHeaderSize }
  else .error (.invalidSecurityBlock line)

def finishSecurity (fields : SecurityFields) : Except ParseError SecurityConfig := do
  let proxyProtocol := fields.proxyProtocol.getD false
  let trustedUpstream ←
    if proxyProtocol then
      match fields.trustedUpstream with
      | some ip => .ok ip
      | none => .error (.missingSecurityDirective "trusted_upstream".toList)
    else .ok (fields.trustedUpstream.getD (.v4 ⟨0, 0, 0, 0⟩))
  return {
    proxyProtocol
    trustedUpstream
    timeoutMs := fields.timeoutMs.getD 200
    maxTlsFailures := fields.maxTlsFailures.getD 5
    banDurationSec := fields.banDurationSec.getD 3600
    rateLimitRpm := fields.rateLimitRpm.getD 300
    forwardAuth := fields.forwardAuth
    maxBodySize := fields.maxBodySize.getD (10 * 1024 * 1024)
    maxHeaderSize := fields.maxHeaderSize.getD (64 * 1024) }

def defaultSecurityConfig : SecurityConfig where
  proxyProtocol := false
  trustedUpstream := .v4 ⟨0, 0, 0, 0⟩
  timeoutMs := 200
  maxTlsFailures := 5
  banDurationSec := 3600
  rateLimitRpm := 300
  forwardAuth := none
  maxBodySize := 10 * 1024 * 1024
  maxHeaderSize := 64 * 1024

omit [CaseMapping] in
/-- The defaults are what a block without a line stands for. -/
theorem finishSecurity_initial : finishSecurity .initial = .ok defaultSecurityConfig := rfl

def parseSecurityBlock (lines : List Str) : Except ParseError (SecurityConfig × List Str) :=
  parseBlock .invalidSecurityBlock .unterminatedSecurityBlock securityDirective finishSecurity
    lines .initial

/-- `max_capacity_mb` and `max_file_size_mb` read bare digits as megabytes. -/
def megabytes (directive value : Str) : Str :=
  if endsWith directive "_mb".toList && value.all isAsciiDigit then value ++ "M".toList else value

def cacheDirective (directive line : Str) (fields : CacheConfig) :
    Except ParseError CacheConfig :=
  if directive = "enabled".toList ∨ directive = "cache".toList then do
    let value ← parseSingleValueDirective line directive
    let enabled ← readOr directive (switchValue ["on", "true", "yes"] ["off", "false", "no"]) value
    return { fields with enabled }
  else if directive = "max_capacity".toList ∨ directive = "max_capacity_mb".toList then do
    let value ← parseSingleValueDirective line directive
    let maxCapacityBytes ← parseSizeString (megabytes directive value) directive
    return { fields with maxCapacityBytes }
  else if directive = "max_file_size".toList ∨ directive = "max_file_size_mb".toList then do
    let value ← parseSingleValueDirective line directive
    let maxFileSizeBytes ← parseSizeString (megabytes directive value) directive
    return { fields with maxFileSizeBytes }
  else if directive = "default_ttl".toList ∨ directive = "default_ttl_sec".toList ∨
      directive = "ttl".toList then do
    let value ← parseSingleValueDirective line directive
    let defaultTtlSec ← readOr directive (parseUnsigned u64Max) value
    return { fields with defaultTtlSec }
  else .error (.invalidSecurityBlock line)

def defaultCacheConfig : CacheConfig := ⟨true, 64 * 1024 * 1024, 2 * 1024 * 1024, 300⟩

def parseCacheBlock (lines : List Str) : Except ParseError (CacheConfig × List Str) :=
  parseBlock .invalidSecurityBlock .unterminatedSecurityBlock cacheDirective .ok lines
    defaultCacheConfig

structure Items where
  listenPort : ℕ
  listenFound : Bool
  routes : List Route
  routesFound : Bool
  requestEndpoints : List Str
  workers : Option ℕ
  logfile : Option Str
  security : Option SecurityConfig
  cache : Option CacheConfig
  interceptErrors : Option Bool

def Items.initial : Items := ⟨0, false, [], false, [], none, none, none, none, none⟩

def parseItem (line : Str) (rest : List Str) (items : Items) :
    Except ParseError (Items × List Str) := do
  if line = "\x7d".toList ∨ line = "\x7d;".toList then .error .unexpectedBlockTerminator
  else
    let directive ← getDirective line
    validateDirectiveCase directive
    validateKnownTopLevelDirective directive
    if directive = "listen".toList then
      validateSemicolon line
      checkTrailingGarbage line
      if items.listenFound then .error .tooManyListenDirectives
      else
        let listenPort ← parseListenLine line
        return ({ items with listenPort, listenFound := true }, rest)
    else if directive = "logfile".toList then
      validateSemicolon line
      checkTrailingGarbage line
      if items.logfile.isSome then .error .tooManyLogfileDirectives
      else
        let value ← parseSingleValueDirective line directive
        return ({ items with logfile := some value }, rest)
    else if directive = "intercept_errors".toList then
      validateSemicolon line
      checkTrailingGarbage line
      if items.interceptErrors.isSome then .error .tooManySecurityDirectives
      else
        let value ← parseSingleValueDirective line directive
        match switchValue ["on", "yes", "true"] ["off", "no", "false"] value with
        | some enabled => return ({ items with interceptErrors := some enabled }, rest)
        | none => .error (.unknownDirective line)
    else if directive = "route".toList then
      if endsWith line "\x7b".toList then
        let endpoint ← parseRouteBlockHeader line
        if endpoint ∈ items.requestEndpoints then .error (.duplicateRequestEndpoint endpoint)
        else
          let (route, rest) ← parseRouteBlock rest endpoint
          return ({ items with
            requestEndpoints := route.requestEndpoint :: items.requestEndpoints
            routes := items.routes ++ [route]
            routesFound := true }, rest)
      else .error (.invalidRouteDirective line)
    else if directive = "security".toList then
      if endsWith line "\x7b".toList then
        if items.security.isSome then .error .tooManySecurityDirectives
        else
          let (security, rest) ← parseSecurityBlock rest
          return ({ items with security := some security }, rest)
      else .error (.invalidSecurityBlock line)
    else if directive = "workers".toList then
      validateSemicolon line
      checkTrailingGarbage line
      if items.workers.isSome then .error .tooManyWorkersDirectives
      else
        let value ← parseSingleValueDirective line directive
        match parseUnsigned usizeMax value with
        | none => .error (.invalidWorkersValue value)
        | some n =>
          if n = 0 then .error (.invalidWorkersValue value)
          else return ({ items with workers := some n }, rest)
    else if endsWith line "\x7b".toList then
      if items.cache.isSome then .error .tooManySecurityDirectives
      else
        let (cache, rest) ← parseCacheBlock rest
        return ({ items with cache := some cache }, rest)
    else .error (.invalidSecurityBlock line)

/-- The top-level loop. Every round consumes a line, so the number of lines is enough fuel. -/
def parseItems : ℕ → List Str → Items → Except ParseError Items
  | _, [], items => .ok items
  | 0, _ :: _, items => .ok items
  | fuel + 1, line :: rest, items => do
    let (items, rest) ← parseItem line rest items
    parseItems fuel rest items

def configLines (input : Str) : List Str :=
  ((lines (stripComments input)).map trim).filter fun line =>
    !line.isEmpty && !startsWith line "#".toList

def finishConfig (availableParallelism : Option ℕ) (items : Items) : Except ParseError Config :=
  if !items.listenFound then .error .noListenDirective
  else if !items.routesFound then .error .noRouteDirective
  else if items.routes.any Route.authRequired && (items.security.bind (·.forwardAuth)).isNone then
    .error (.missingSecurityDirective "forward_auth".toList)
  else .ok {
    listenPort := items.listenPort
    routes := items.routes
    workers := items.workers.getD (availableParallelism.getD 1)
    logfile := items.logfile
    security := items.security
    cache := items.cache
    interceptErrors := items.interceptErrors }

/-- `available_parallelism` is the answer of the standard library call of that name. -/
def parseProxyConfig (availableParallelism : Option ℕ) (input : Str) :
    Except ParseError Config := do
  let lines := configLines input
  let items ← parseItems lines.length lines .initial
  finishConfig availableParallelism items

end Blocks

end BarebonesProxy.ConfigParser
