import BarebonesProxy.ConfigParser
import BarebonesProxy.GuardedWrites
import BarebonesProxy.RustTokens

set_option autoImplicit false

/-!
# Directive lines and the settings they write

A directive line says one setting, whatever stands around it, and its block function writes
it. A write to a place that is taken fails. Errors are forgotten here: a configuration is
accepted or not.
-/
namespace BarebonesProxy.ConfigParser
open RustStrings RustNet ProxyConfig GuardedWrites

section Options

@[simp] theorem toOption_ok {ε α : Type} (a : α) : (Except.ok a : Except ε α).toOption = some a := rfl

@[simp] theorem toOption_error {ε α : Type} (e : ε) :
    (Except.error e : Except ε α).toOption = none := rfl

theorem toOption_pure {ε α : Type} (a : α) : (pure a : Except ε α).toOption = some a := rfl

theorem toOption_bind {ε α β : Type} (x : Except ε α) (f : α → Except ε β) :
    (x >>= f).toOption = x.toOption.bind fun a => (f a).toOption := by
  cases x <;> rfl

theorem toOption_ite {ε α : Type} (p : Prop) [Decidable p] (x y : Except ε α) :
    (if p then x else y).toOption = if p then x.toOption else y.toOption := by
  split <;> rfl

theorem toOption_eq_some_iff {ε α : Type} {x : Except ε α} {a : α} :
    x.toOption = some a ↔ x = .ok a := by
  cases x <;> simp

end Options

section Lines

/-- The value of a directive line, whatever its name. -/
def valueOf (line : Str) : Option Str :=
  match withoutSemicolon line with
  | [_, value] => some value
  | _ => none

def lineValue (line : Str) : Option Str :=
  if endsWith (trim line) ";".toList then valueOf line else none

/-- The name and the value of a directive line. -/
def directiveOf (line : Str) : Option (Str × Str) :=
  if endsWith (trim line) ";".toList then
    match withoutSemicolon line with
    | [name, value] => some (name, value)
    | _ => none
  else none

def nameOf (line : Str) : Str := (splitWhitespace line).headD []

theorem withoutSemicolon_eq (line : Str) :
    withoutSemicolon line = splitWhitespace (trimEndMatches line ';') := splitWhitespace_trim _

/-- With two tokens before its semicolons, a line starts with the first of them. -/
theorem splitWhitespace_of_two {line name value : Str} (h : withoutSemicolon line = [name, value]) :
    ∃ rest, splitWhitespace line = name :: rest := by
  obtain ⟨u, hu⟩ := trimEndMatches_append line ';'
  rw [withoutSemicolon_eq] at h
  rw [hu]
  exact splitWhitespace_append_head h u

theorem lineValue_of_semicolon {line : Str} (hend : endsWith (trim line) ";".toList = true) :
    lineValue line = valueOf line := if_pos hend

theorem getDirective_of_lineValue {line value : Str} (h : lineValue line = some value) :
    getDirective line = .ok (nameOf line) := by
  unfold lineValue valueOf at h
  split_ifs at h
  split at h
  · next name _ htokens =>
    obtain ⟨rest, hrest⟩ := splitWhitespace_of_two htokens
    unfold getDirective nameOf
    rw [hrest]
    rfl
  · cases h

theorem directiveOf_eq (line : Str) : directiveOf line = (lineValue line).map (nameOf line, ·) := by
  unfold directiveOf lineValue valueOf
  split_ifs
  · split
    · next name value htokens =>
      obtain ⟨rest, hrest⟩ := splitWhitespace_of_two htokens
      unfold nameOf
      rw [hrest]
      rfl
    · rfl
  · rfl

theorem directiveOf_of_no_semicolon {line : Str}
    (hend : ¬ endsWith (trim line) ";".toList = true) : directiveOf line = none := if_neg hend

theorem nameOf_of_directiveOf {line name value : Str} (h : directiveOf line = some (name, value)) :
    nameOf line = name := by
  rw [directiveOf_eq] at h
  obtain ⟨_, -, heq⟩ := Option.map_eq_some_iff.mp h
  exact (Prod.mk.inj heq).1

theorem parseSingleValueDirective_toOption (line directive : Str) :
    (parseSingleValueDirective line directive).toOption = valueOf line := by
  unfold parseSingleValueDirective valueOf
  generalize withoutSemicolon line = tokens
  match tokens with
  | [] | [_] | [_, _] | _ :: _ :: _ :: _ => rfl

theorem singleValue_toOption {α : Type} {line directive : Str} {f : Str → Except ParseError α}
    {g : Str → Option α} (h : ∀ value, (f value).toOption = g value) :
    (parseSingleValueDirective line directive >>= f).toOption = (valueOf line).bind g := by
  rw [toOption_bind, parseSingleValueDirective_toOption]
  congr 1
  funext value
  exact h value

theorem checkTrailingGarbage_ok (line : Str) : checkTrailingGarbage line = .ok () := by
  unfold checkTrailingGarbage
  dsimp only
  by_cases hend : endsWith (trim line) ";".toList = true
  · rw [if_pos hend]
    obtain ⟨s, hs⟩ : ∃ s, trim line = s ++ [';'] := endsWith_singleton.mp hend
    rw [hs]
    simp [trim]
  · rw [if_neg hend]

end Lines

section Settings
variable {σ ι α : Type} {taken : ι → σ → Bool} {set : ι → σ → σ} {fields : σ}

/-- A value that is read for a place and kept there is a guarded write. -/
theorem toOption_write {x : Except ParseError α} {line : Str} {current : Bool}
    {read : Str → Option α} {keep : α → σ} {setting : α → ι}
    (hread : x.toOption = (valueOf line).bind fun value => if current then none else read value)
    (htaken : ∀ a, taken (setting a) fields = current)
    (hset : ∀ a, set (setting a) fields = keep a) :
    (do return keep (← x)).toOption = (valueOf line).bind fun value =>
      ((read value).map setting).bind (write taken set fields) := by
  rw [toOption_bind, hread, Option.bind_assoc]
  congr 1
  funext value
  cases current with
  | true => cases hvalue : read value <;> simp [write, htaken]
  | false => cases hvalue : read value <;> simp [write, htaken, hset, toOption_pure]

theorem readOr_toOption (directive : Str) (parse : Str → Option α) (value : Str) :
    (readOr directive parse value).toOption = parse value := by
  unfold readOr
  cases parse value <;> rfl

/-- The directive's name is tested on both sides, and the branches agree one by one. -/
theorem toOption_dispatch {p : Prop} [Decidable p] {x y : Except ParseError σ} {line : Str}
    {setting other : Str → Option ι} {keep : ι → Option σ}
    (hyes : x.toOption = (valueOf line).bind fun value => (setting value).bind keep)
    (hno : y.toOption = (valueOf line).bind fun value => (other value).bind keep) :
    (if p then x else y).toOption =
      (valueOf line).bind fun value => (if p then setting value else other value).bind keep := by
  by_cases hp : p
  · simp only [if_pos hp]
    exact hyes
  · simp only [if_neg hp]
    exact hno

def onOff (value : Str) : Option Bool := switchValue ["on", "yes", "true"] ["off", "no", "false"] value

end Settings

section RouteSettings

inductive RouteSetting where
  | upstream (endpoint : Str)
  | auth (on : Bool)
  | cert (path : Str)
  | key (path : Str)
  | cache (on : Bool)
  | interceptErrors (on : Bool)
deriving DecidableEq

namespace RouteSetting

def taken : RouteSetting → RouteFields → Bool
  | .cert _, fields => fields.certPath.isSome
  | .key _, fields => fields.keyPath.isSome
  | _, _ => false

def set : RouteSetting → RouteFields → RouteFields
  | .upstream endpoint, fields => { fields with forwardEndpoint := some endpoint }
  | .auth on, fields => { fields with authRequired := on }
  | .cert path, fields => { fields with certPath := some path }
  | .key path, fields => { fields with keyPath := some path }
  | .cache on, fields => { fields with cache := some on }
  | .interceptErrors on, fields => { fields with interceptErrors := some on }

end RouteSetting

def routeSetting (name value : Str) : Option RouteSetting :=
  if name = "upstream".toList ∨ name = "forward".toList then
    if isValidUrl value then some (.upstream value) else none
  else if name = "auth".toList then (onOff value).map .auth
  else if name = "cert".toList then some (.cert value)
  else if name = "key".toList then some (.key value)
  else if name = "cache".toList then (onOff value).map .cache
  else if name = "intercept_errors".toList then (onOff value).map .interceptErrors
  else none

theorem routeSwitch_toOption (line : Str) (directive : String) :
    (routeSwitch line directive).toOption =
      (valueOf line).bind fun value => if false then none else onOff value := by
  unfold routeSwitch onOff
  refine singleValue_toOption fun value => ?_
  split <;> simp_all

theorem routePath_toOption (line : Str) (directive : String) (current : Option Str) :
    (routePath line directive current).toOption =
      (valueOf line).bind fun value => if current.isSome then none else some value := by
  unfold routePath
  refine singleValue_toOption fun value => ?_
  rw [toOption_ite]
  rfl

theorem routeDirective_toOption (directive line : Str) (fields : RouteFields) :
    (routeDirective directive line fields).toOption = (valueOf line).bind fun value =>
      (routeSetting directive value).bind (write RouteSetting.taken RouteSetting.set fields) := by
  unfold routeDirective routeSetting
  apply toOption_dispatch
  · refine singleValue_toOption fun value => ?_
    rw [toOption_ite]
    split <;> rfl
  apply toOption_dispatch
  · exact toOption_write (routeSwitch_toOption line "auth") (fun _ => rfl) (fun _ => rfl)
  apply toOption_dispatch
  · exact toOption_write (routePath_toOption line "cert" fields.certPath) (fun _ => rfl)
      (fun _ => rfl)
  apply toOption_dispatch
  · exact toOption_write (routePath_toOption line "key" fields.keyPath) (fun _ => rfl)
      (fun _ => rfl)
  apply toOption_dispatch
  · exact toOption_write (routeSwitch_toOption line "cache") (fun _ => rfl) (fun _ => rfl)
  apply toOption_dispatch
  · exact toOption_write (routeSwitch_toOption line "intercept_errors") (fun _ => rfl)
      (fun _ => rfl)
  -- no other name sets a field of a route
  cases valueOf line <;> rfl

end RouteSettings

section SecuritySettings

inductive SecuritySetting where
  | proxyProtocol (on : Bool)
  | trustedUpstream (ip : IpAddr)
  | timeout (ms : ℕ)
  | maxTlsFailures (n : ℕ)
  | banDuration (sec : ℕ)
  | rateLimit (rpm : ℕ)
  | forwardAuth (url : Str)
  | maxBodySize (bytes : ℕ)
  | maxHeaderSize (bytes : ℕ)
deriving DecidableEq

namespace SecuritySetting

def taken : SecuritySetting → SecurityFields → Bool
  | .proxyProtocol _, fields => fields.proxyProtocol.isSome
  | .trustedUpstream _, fields => fields.trustedUpstream.isSome
  | .timeout _, fields => fields.timeoutMs.isSome
  | .maxTlsFailures _, fields => fields.maxTlsFailures.isSome
  | .banDuration _, fields => fields.banDurationSec.isSome
  | .rateLimit _, fields => fields.rateLimitRpm.isSome
  | .forwardAuth _, fields => fields.forwardAuth.isSome
  | .maxBodySize _, fields => fields.maxBodySize.isSome
  | .maxHeaderSize _, fields => fields.maxHeaderSize.isSome

def set : SecuritySetting → SecurityFields → SecurityFields
  | .proxyProtocol on, fields => { fields with proxyProtocol := some on }
  | .trustedUpstream ip, fields => { fields with trustedUpstream := some ip }
  | .timeout ms, fields => { fields with timeoutMs := some ms }
  | .maxTlsFailures n, fields => { fields with maxTlsFailures := some n }
  | .banDuration sec, fields => { fields with banDurationSec := some sec }
  | .rateLimit rpm, fields => { fields with rateLimitRpm := some rpm }
  | .forwardAuth url, fields => { fields with forwardAuth := some url }
  | .maxBodySize bytes, fields => { fields with maxBodySize := some bytes }
  | .maxHeaderSize bytes, fields => { fields with maxHeaderSize := some bytes }

end SecuritySetting

def securitySetting (name value : Str) : Option SecuritySetting :=
  if name = "proxy_protocol".toList then
    (switchValue ["on", "true"] ["off", "false"] value).map .proxyProtocol
  else if name = "trusted_upstream".toList then (IpAddr.parse value).map .trustedUpstream
  else if name = "timeout".toList then (parseUnsigned u64Max value).map .timeout
  else if name = "max_tls_failures".toList then (parseUnsigned usizeMax value).map .maxTlsFailures
  else if name = "ban_duration".toList then (parseUnsigned u64Max value).map .banDuration
  else if name = "rate_limit_rpm".toList ∨ name = "rate_limit".toList then
    (parseUnsigned usizeMax value).map .rateLimit
  else if name = "forward_auth".toList then some (.forwardAuth value)
  else if name = "max_body_size".toList then (parseSizeString value name).toOption.map .maxBodySize
  else if name = "max_header_size".toList then
    (parseSizeString value name).toOption.map .maxHeaderSize
  else none

theorem securityValue_toOption {α : Type} {directive : Str} {read : Str → Except ParseError α}
    {parse : Str → Option α} (hparse : ∀ value, (read value).toOption = parse value) (line : Str)
    (current : Option α) :
    (securityValue line directive current read).toOption = (valueOf line).bind fun value =>
      if current.isSome then none else (parse value).map some := by
  unfold securityValue
  refine singleValue_toOption fun value => ?_
  rw [toOption_ite, toOption_bind, hparse]
  cases parse value <;> rfl

theorem securityField_toOption {α : Type} {directive : Str} {read : Str → Except ParseError α}
    {parse : Str → Option α} (hparse : ∀ value, (read value).toOption = parse value) (line : Str)
    {current : Option α} {fields : SecurityFields} {keep : Option α → SecurityFields}
    {setting : α → SecuritySetting}
    (htaken : ∀ a, (setting a).taken fields = current.isSome)
    (hset : ∀ a, (setting a).set fields = keep (some a)) :
    (do return keep (← securityValue line directive current read)).toOption =
      (valueOf line).bind fun value => ((parse value).map setting).bind
        (write SecuritySetting.taken SecuritySetting.set fields) := by
  rw [toOption_bind, securityValue_toOption hparse, Option.bind_assoc]
  congr 1
  funext value
  cases current with
  | some _ => cases parse value <;> simp [write, htaken]
  | none => cases parse value <;> simp [write, htaken, hset, toOption_pure]

theorem securityDirective_toOption (directive line : Str) (fields : SecurityFields) :
    (securityDirective directive line fields).toOption = (valueOf line).bind fun value =>
      (securitySetting directive value).bind
        (write SecuritySetting.taken SecuritySetting.set fields) := by
  unfold securityDirective securitySetting
  dsimp only
  apply toOption_dispatch
  · exact securityField_toOption (readOr_toOption directive _) line (fun _ => rfl) (fun _ => rfl)
  apply toOption_dispatch
  · exact securityField_toOption (readOr_toOption directive _) line (fun _ => rfl) (fun _ => rfl)
  apply toOption_dispatch
  · exact securityField_toOption (readOr_toOption directive _) line (fun _ => rfl) (fun _ => rfl)
  apply toOption_dispatch
  · exact securityField_toOption (readOr_toOption directive _) line (fun _ => rfl) (fun _ => rfl)
  apply toOption_dispatch
  · exact securityField_toOption (readOr_toOption directive _) line (fun _ => rfl) (fun _ => rfl)
  apply toOption_dispatch
  · exact securityField_toOption (readOr_toOption directive _) line (fun _ => rfl) (fun _ => rfl)
  apply toOption_dispatch
  · exact securityField_toOption (fun _ => rfl) line (fun _ => rfl) (fun _ => rfl)
  apply toOption_dispatch
  · exact securityField_toOption (fun _ => rfl) line (fun _ => rfl) (fun _ => rfl)
  apply toOption_dispatch
  · exact securityField_toOption (fun _ => rfl) line (fun _ => rfl) (fun _ => rfl)
  cases valueOf line <;> rfl

end SecuritySettings

section CacheSettings

inductive CacheSetting where
  | enabled (on : Bool)
  | maxCapacity (bytes : ℕ)
  | maxFileSize (bytes : ℕ)
  | defaultTtl (sec : ℕ)
deriving DecidableEq

namespace CacheSetting

-- a cache block keeps the last value written
def taken : CacheSetting → CacheConfig → Bool := fun _ _ => false

def set : CacheSetting → CacheConfig → CacheConfig
  | .enabled on, fields => { fields with enabled := on }
  | .maxCapacity bytes, fields => { fields with maxCapacityBytes := bytes }
  | .maxFileSize bytes, fields => { fields with maxFileSizeBytes := bytes }
  | .defaultTtl sec, fields => { fields with defaultTtlSec := sec }

end CacheSetting

def cacheSetting (name value : Str) : Option CacheSetting :=
  if name = "enabled".toList ∨ name = "cache".toList then
    (switchValue ["on", "true", "yes"] ["off", "false", "no"] value).map .enabled
  else if name = "max_capacity".toList ∨ name = "max_capacity_mb".toList then
    (parseSizeString (megabytes name value) name).toOption.map .maxCapacity
  else if name = "max_file_size".toList ∨ name = "max_file_size_mb".toList then
    (parseSizeString (megabytes name value) name).toOption.map .maxFileSize
  else if name = "default_ttl".toList ∨ name = "default_ttl_sec".toList ∨
      name = "ttl".toList then
    (parseUnsigned u64Max value).map .defaultTtl
  else none

theorem cacheField_toOption {α : Type} {directive : Str} {read : Str → Except ParseError α}
    {parse : Str → Option α} (hparse : ∀ value, (read value).toOption = parse value) (line : Str)
    {fields : CacheConfig} {keep : α → CacheConfig} {setting : α → CacheSetting}
    (hset : ∀ a, (setting a).set fields = keep a) :
    (do
      let value ← parseSingleValueDirective line directive
      return keep (← read value)).toOption =
      (valueOf line).bind fun value => ((parse value).map setting).bind
        (write CacheSetting.taken CacheSetting.set fields) := by
  refine singleValue_toOption fun value => ?_
  rw [toOption_bind, hparse]
  cases parse value <;> simp [write, CacheSetting.taken, hset, toOption_pure]

theorem cacheDirective_toOption (directive line : Str) (fields : CacheConfig) :
    (cacheDirective directive line fields).toOption = (valueOf line).bind fun value =>
      (cacheSetting directive value).bind (write CacheSetting.taken CacheSetting.set fields) := by
  unfold cacheDirective cacheSetting
  apply toOption_dispatch
  · exact cacheField_toOption (readOr_toOption directive _) line (fun _ => rfl)
  apply toOption_dispatch
  · exact cacheField_toOption (fun _ => rfl) line (fun _ => rfl)
  apply toOption_dispatch
  · exact cacheField_toOption (fun _ => rfl) line (fun _ => rfl)
  apply toOption_dispatch
  · exact cacheField_toOption (readOr_toOption directive _) line (fun _ => rfl)
  cases valueOf line <;> rfl

end CacheSettings

section Names

/-- The second names of a block's directives, under the keyword of its header. -/
def aliasesOf (keyword : Str) : List (String × String) :=
  if keyword = "route".toList then [("forward", "upstream")]
  else if keyword = "security".toList then [("rate_limit_rpm", "rate_limit")]
  else if keyword = "cache".toList then
    [("cache", "enabled"), ("max_capacity_mb", "max_capacity"),
      ("max_file_size_mb", "max_file_size"), ("default_ttl_sec", "default_ttl"),
      ("ttl", "default_ttl")]
  else []

def canonical (keyword name : Str) : Str :=
  match (aliasesOf keyword).find? fun pair => pair.1.toList = name with
  | some (_, first) => first.toList
  | none => name

def RouteSetting.name : RouteSetting → Str
  | .upstream _ => "upstream".toList
  | .auth _ => "auth".toList
  | .cert _ => "cert".toList
  | .key _ => "key".toList
  | .cache _ => "cache".toList
  | .interceptErrors _ => "intercept_errors".toList

def SecuritySetting.name : SecuritySetting → Str
  | .proxyProtocol _ => "proxy_protocol".toList
  | .trustedUpstream _ => "trusted_upstream".toList
  | .timeout _ => "timeout".toList
  | .maxTlsFailures _ => "max_tls_failures".toList
  | .banDuration _ => "ban_duration".toList
  | .rateLimit _ => "rate_limit".toList
  | .forwardAuth _ => "forward_auth".toList
  | .maxBodySize _ => "max_body_size".toList
  | .maxHeaderSize _ => "max_header_size".toList

def CacheSetting.name : CacheSetting → Str
  | .enabled _ => "enabled".toList
  | .maxCapacity _ => "max_capacity".toList
  | .maxFileSize _ => "max_file_size".toList
  | .defaultTtl _ => "default_ttl".toList

def isLower (name : Str) : Bool := name.all isAscii && decide (name.map toAsciiLowercase = name)

variable {α ι : Type} {nameOfSetting : ι → Str}

theorem named_of_map {keyword name c : Str} {x : Option α} {setting : α → ι} {v : ι}
    (hname : name = c) (h : x.map setting = some v)
    (hsetting : ∀ a, nameOfSetting (setting a) = canonical keyword c) (hlower : isLower c = true) :
    nameOfSetting v = canonical keyword name ∧ isLower name = true := by
  obtain ⟨a, -, rfl⟩ := Option.map_eq_some_iff.mp h
  subst hname
  exact ⟨hsetting a, hlower⟩

/-- A setting has the canonical name of the directive that says it. -/
theorem routeSetting_name {name value : Str} {v : RouteSetting}
    (h : routeSetting name value = some v) :
    v.name = canonical "route".toList name ∧ isLower name = true := by
  unfold routeSetting at h
  rcases ite_eq_iff.mp h with ⟨hname, h⟩ | ⟨-, h⟩
  · obtain ⟨-, h⟩ := (Option.ite_none_right_eq_some).mp h
    cases h
    rcases hname with rfl | rfl <;> exact ⟨rfl, by decide⟩
  rcases ite_eq_iff.mp h with ⟨hname, h⟩ | ⟨-, h⟩
  · exact named_of_map hname h (fun _ => rfl) (by decide)
  rcases ite_eq_iff.mp h with ⟨hname, h⟩ | ⟨-, h⟩
  · cases h
    subst hname
    exact ⟨rfl, by decide⟩
  rcases ite_eq_iff.mp h with ⟨hname, h⟩ | ⟨-, h⟩
  · cases h
    subst hname
    exact ⟨rfl, by decide⟩
  rcases ite_eq_iff.mp h with ⟨hname, h⟩ | ⟨-, h⟩
  · exact named_of_map hname h (fun _ => rfl) (by decide)
  rcases ite_eq_iff.mp h with ⟨hname, h⟩ | ⟨-, h⟩
  · exact named_of_map hname h (fun _ => rfl) (by decide)
  cases h

theorem securitySetting_name {name value : Str} {v : SecuritySetting}
    (h : securitySetting name value = some v) :
    v.name = canonical "security".toList name ∧ isLower name = true := by
  unfold securitySetting at h
  rcases ite_eq_iff.mp h with ⟨hname, h⟩ | ⟨-, h⟩
  · exact named_of_map hname h (fun _ => rfl) (by decide)
  rcases ite_eq_iff.mp h with ⟨hname, h⟩ | ⟨-, h⟩
  · exact named_of_map hname h (fun _ => rfl) (by decide)
  rcases ite_eq_iff.mp h with ⟨hname, h⟩ | ⟨-, h⟩
  · exact named_of_map hname h (fun _ => rfl) (by decide)
  rcases ite_eq_iff.mp h with ⟨hname, h⟩ | ⟨-, h⟩
  · exact named_of_map hname h (fun _ => rfl) (by decide)
  rcases ite_eq_iff.mp h with ⟨hname, h⟩ | ⟨-, h⟩
  · exact named_of_map hname h (fun _ => rfl) (by decide)
  rcases ite_eq_iff.mp h with ⟨hname, h⟩ | ⟨-, h⟩
  · rcases hname with hname | hname <;> exact named_of_map hname h (fun _ => rfl) (by decide)
  rcases ite_eq_iff.mp h with ⟨hname, h⟩ | ⟨-, h⟩
  · cases h
    subst hname
    exact ⟨rfl, by decide⟩
  rcases ite_eq_iff.mp h with ⟨hname, h⟩ | ⟨-, h⟩
  · exact named_of_map hname h (fun _ => rfl) (by decide)
  rcases ite_eq_iff.mp h with ⟨hname, h⟩ | ⟨-, h⟩
  · exact named_of_map hname h (fun _ => rfl) (by decide)
  cases h

theorem cacheSetting_name {name value : Str} {v : CacheSetting}
    (h : cacheSetting name value = some v) :
    v.name = canonical "cache".toList name ∧ isLower name = true := by
  unfold cacheSetting at h
  rcases ite_eq_iff.mp h with ⟨hname, h⟩ | ⟨-, h⟩
  · rcases hname with hname | hname <;> exact named_of_map hname h (fun _ => rfl) (by decide)
  rcases ite_eq_iff.mp h with ⟨hname, h⟩ | ⟨-, h⟩
  · rcases hname with hname | hname <;> exact named_of_map hname h (fun _ => rfl) (by decide)
  rcases ite_eq_iff.mp h with ⟨hname, h⟩ | ⟨-, h⟩
  · rcases hname with hname | hname <;> exact named_of_map hname h (fun _ => rfl) (by decide)
  rcases ite_eq_iff.mp h with ⟨hname, h⟩ | ⟨-, h⟩
  · rcases hname with hname | hname | hname <;>
      exact named_of_map hname h (fun _ => rfl) (by decide)
  cases h

end Names

end BarebonesProxy.ConfigParser
