import BarebonesProxy.RustNet

set_option autoImplicit false

/-! # The configuration data of `config.rs` and the errors of `error.rs` -/
namespace BarebonesProxy.ProxyConfig
open RustStrings RustNet

structure SecurityConfig where
  proxyProtocol : Bool
  trustedUpstream : IpAddr
  timeoutMs : ℕ
  maxTlsFailures : ℕ
  banDurationSec : ℕ
  rateLimitRpm : ℕ
  forwardAuth : Option Str
  maxBodySize : ℕ
  maxHeaderSize : ℕ
deriving DecidableEq

structure CacheConfig where
  enabled : Bool
  maxCapacityBytes : ℕ
  maxFileSizeBytes : ℕ
  defaultTtlSec : ℕ
deriving DecidableEq

structure Route where
  requestEndpoint : Str
  forwardEndpoint : Str
  authRequired : Bool
  certPath : Option Str
  keyPath : Option Str
  cache : Option Bool
  interceptErrors : Option Bool
deriving DecidableEq

structure Config where
  listenPort : ℕ
  routes : List Route
  workers : ℕ
  logfile : Option Str
  security : Option SecurityConfig
  cache : Option CacheConfig
  interceptErrors : Option Bool
deriving DecidableEq

inductive ParseError where
  | noListenDirective
  | invalidListenDirective
  | tooManyListenDirectives
  | invalidPort (value : Str)
  | noRouteDirective
  | invalidRouteDirective (value : Str)
  | duplicateRequestEndpoint (value : Str)
  | missingSemicolon (line : Str)
  | invalidUrlFormat (value : Str)
  | invalidDirectiveCase (directive : Str)
  | unknownDirective (directive : Str)
  | invalidWorkersValue (value : Str)
  | tooManyWorkersDirectives
  | tooManyLogfileDirectives
  | incompleteRouteCertBlock (endpoint : Str)
  | certNotAllowedForHttpRoute (endpoint : Str)
  | unexpectedBlockTerminator
  | invalidSecurityBlock (value : Str)
  | tooManySecurityDirectives
  | duplicateSecurityDirective (directive : Str)
  | invalidSecurityValue (directive value : Str)
  | missingSecurityDirective (directive : Str)
  | unterminatedSecurityBlock
deriving DecidableEq

/-- `ProxyError::TlsError` with its text; the other variants are never built. -/
inductive ProxyError where
  | tlsError (message : Str)
deriving DecidableEq

end BarebonesProxy.ProxyConfig
