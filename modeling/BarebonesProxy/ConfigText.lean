import BarebonesProxy.AddressRoundTrip
import BarebonesProxy.ConfigTokens
import BarebonesProxy.ConfigWellFormed

set_option autoImplicit false

/-!
# Writing a configuration down

`render` writes a configuration as a text, one directive a line. The configurations that the
parser accepts from some text are those that `Writable` describes, and each of them is read
back from what `render` writes.
-/
namespace BarebonesProxy.ConfigParser
open RustStrings RustNet ProxyConfig GuardedWrites

section Values

theorem isWord_of_bounds {w : Str} (h : ∀ c ∈ w, 33 ≤ c.toNat ∧ c.toNat ≤ 126) : IsWord w := by
  intro c hc
  obtain ⟨hlow, hhigh⟩ := h c hc
  simp only [isWhitespace, Bool.or_eq_false_iff, Bool.and_eq_false_iff, decide_eq_false_iff_not,
    beq_eq_false_iff_ne]
  omega

theorem isToken_natToString (n : ℕ) : isToken (natToString n) = true := by
  have hdigit : ∀ c ∈ natToString n, 48 ≤ c.toNat ∧ c.toNat ≤ 57 := fun c hc =>
    isAsciiDigit_iff.mp (isAsciiDigit_of_mem_natToString hc)
  refine isToken_of_noSlash (natToString_ne_nil n) (isWord_of_bounds fun c hc => ?_)
    fun hslash => ?_
  · have hbounds := hdigit c hc
    omega
  · exact absurd (hdigit _ hslash) (by decide)

theorem isToken_display (x : IpAddr) : isToken x.display = true := by
  obtain ⟨hne, hchars⟩ := isAddressText_display x
  refine isToken_of_noSlash hne (isWord_of_bounds fun c hc => ?_) fun hslash => ?_
  · have hbounds := isAddressChar_bounds (hchars c hc)
    omega
  · exact absurd (hchars _ hslash) (by decide)

def switchText (on : Bool) : Str := if on then "on".toList else "off".toList

theorem isToken_switchText (on : Bool) : isToken (switchText on) = true := by
  cases on <;> decide

theorem onOff_switchText (on : Bool) : onOff (switchText on) = some on := by
  cases on <;> decide

/-- The number of a size and the unit it is in. -/
def sizeUnit (s : Str) : Str × ℕ :=
  match s.getLast? with
  | some 'k' | some 'K' => (s.dropLast, 1024)
  | some 'm' | some 'M' => (s.dropLast, 1024 * 1024)
  | some 'g' | some 'G' => (s.dropLast, 1024 * 1024 * 1024)
  | _ => (s, 1)

theorem parseSizeString_ok_iff {value directive : Str} {n : ℕ} :
    parseSizeString value directive = .ok n ↔
      trim value ≠ [] ∧ ∃ num, parseUnsigned usizeMax (sizeUnit (trim value)).1 = some num ∧
        num * (sizeUnit (trim value)).2 = n ∧ n ≤ usizeMax := by
  unfold parseSizeString
  dsimp only
  by_cases hempty : trim value = []
  · simp [hempty]
  rw [if_neg hempty]
  split
  · next hnum =>
    have hnone : parseUnsigned usizeMax (sizeUnit (trim value)).1 = none := hnum
    simp [hnone]
  · next num hnum =>
    have hsome : parseUnsigned usizeMax (sizeUnit (trim value)).1 = some num := hnum
    change (if num * (sizeUnit (trim value)).2 ≤ usizeMax
      then Except.ok (num * (sizeUnit (trim value)).2) else _) = _ ↔ _
    by_cases hle : num * (sizeUnit (trim value)).2 ≤ usizeMax
    · rw [if_pos hle]
      constructor
      · intro h
        cases h
        exact ⟨hempty, num, hsome, rfl, hle⟩
      · rintro ⟨-, _, hnum', rfl, -⟩
        cases hsome.symm.trans hnum'
        rfl
    · rw [if_neg hle]
      constructor
      · intro h
        cases h
      · rintro ⟨-, _, hnum', rfl, hn⟩
        cases hsome.symm.trans hnum'
        exact absurd hn hle

theorem sizeUnit_natToString (n : ℕ) : sizeUnit (natToString n) = (natToString n, 1) := by
  have hlast : ∀ c, (natToString n).getLast? = some c → isAsciiDigit c = true := fun c hc =>
    isAsciiDigit_of_mem_natToString (List.mem_of_getLast? hc)
  -- a digit is no unit
  unfold sizeUnit
  split
  all_goals first
    | rfl
    | next hc => exact absurd (hlast _ hc) (by decide)

theorem parseSizeString_natToString {n : ℕ} (hn : n ≤ usizeMax) (directive : Str) :
    parseSizeString (natToString n) directive = .ok n := by
  obtain ⟨hne, hword, -⟩ := isToken_iff.mp (isToken_natToString n)
  rw [parseSizeString_ok_iff, trim_word hword, sizeUnit_natToString]
  exact ⟨hne, n, parseUnsigned_natToString hn, Nat.mul_one n, hn⟩

theorem parseSizeString_le {value directive : Str} {n : ℕ}
    (h : parseSizeString value directive = .ok n) : n ≤ usizeMax := by
  obtain ⟨-, _, -, -, hn⟩ := parseSizeString_ok_iff.mp h
  exact hn

end Values

section Settings

namespace RouteSetting

def value : RouteSetting → Str
  | .upstream endpoint => endpoint
  | .auth on => switchText on
  | .cert path => path
  | .key path => path
  | .cache on => switchText on
  | .interceptErrors on => switchText on

def Valid : RouteSetting → Prop
  | .upstream endpoint => isToken endpoint = true ∧ isValidUrl endpoint = true
  | .cert path => isToken path = true
  | .key path => isToken path = true
  | _ => True

def line (v : RouteSetting) : List Str := directiveLine v.name v.value

theorem isWritable_name (v : RouteSetting) : isWritable [v.name] = true := by
  cases v <;> rfl

theorem isToken_value {v : RouteSetting} (h : v.Valid) : isToken v.value = true := by
  cases v with
  | upstream endpoint => exact h.1
  | cert path => exact h
  | key path => exact h
  | auth on => exact isToken_switchText on
  | cache on => exact isToken_switchText on
  | interceptErrors on => exact isToken_switchText on

theorem read_value {v : RouteSetting} (h : v.Valid) : routeSetting v.name v.value = some v := by
  cases v with
  | upstream endpoint => exact if_pos h.2
  | cert path => rfl
  | key path => rfl
  | auth on => exact congrArg (Option.map RouteSetting.auth) (onOff_switchText on)
  | cache on => exact congrArg (Option.map RouteSetting.cache) (onOff_switchText on)
  | interceptErrors on =>
    exact congrArg (Option.map RouteSetting.interceptErrors) (onOff_switchText on)

theorem valid_of_read {name value : Str} {v : RouteSetting} (hvalue : isToken value = true)
    (h : routeSetting name value = some v) : v.Valid := by
  unfold routeSetting at h
  split_ifs at h with hupstream hurl hauth hcert hkey hcache herrors
  · cases h
    exact ⟨hvalue, hurl⟩
  · obtain ⟨on, -, rfl⟩ := Option.map_eq_some_iff.mp h
    trivial
  · cases h
    exact hvalue
  · cases h
    exact hvalue
  · obtain ⟨on, -, rfl⟩ := Option.map_eq_some_iff.mp h
    trivial
  · obtain ⟨on, -, rfl⟩ := Option.map_eq_some_iff.mp h
    trivial

end RouteSetting

namespace SecuritySetting

def value : SecuritySetting → Str
  | .proxyProtocol on => switchText on
  | .trustedUpstream ip => ip.display
  | .timeout ms => natToString ms
  | .maxTlsFailures n => natToString n
  | .banDuration sec => natToString sec
  | .rateLimit rpm => natToString rpm
  | .forwardAuth url => url
  | .maxBodySize bytes => natToString bytes
  | .maxHeaderSize bytes => natToString bytes

def Valid : SecuritySetting → Prop
  | .proxyProtocol _ => True
  | .trustedUpstream _ => True
  | .timeout ms => ms ≤ u64Max
  | .maxTlsFailures n => n ≤ usizeMax
  | .banDuration sec => sec ≤ u64Max
  | .rateLimit rpm => rpm ≤ usizeMax
  | .forwardAuth url => isToken url = true
  | .maxBodySize bytes => bytes ≤ usizeMax
  | .maxHeaderSize bytes => bytes ≤ usizeMax

def line (v : SecuritySetting) : List Str := directiveLine v.name v.value

theorem isWritable_name (v : SecuritySetting) : isWritable [v.name] = true := by
  cases v <;> rfl

theorem isToken_value {v : SecuritySetting} (h : v.Valid) : isToken v.value = true := by
  cases v with
  | proxyProtocol on => exact isToken_switchText on
  | trustedUpstream ip => exact isToken_display ip
  | forwardAuth url => exact h
  | _ => exact isToken_natToString _

theorem read_value {v : SecuritySetting} (h : v.Valid) :
    securitySetting v.name v.value = some v := by
  cases v with
  | proxyProtocol on => cases on <;> rfl
  | trustedUpstream ip =>
    exact congrArg (Option.map SecuritySetting.trustedUpstream) (IpAddr.parse_display ip)
  | timeout ms => exact congrArg (Option.map SecuritySetting.timeout) (parseUnsigned_natToString h)
  | maxTlsFailures n =>
    exact congrArg (Option.map SecuritySetting.maxTlsFailures) (parseUnsigned_natToString h)
  | banDuration sec =>
    exact congrArg (Option.map SecuritySetting.banDuration) (parseUnsigned_natToString h)
  | rateLimit rpm =>
    exact congrArg (Option.map SecuritySetting.rateLimit) (parseUnsigned_natToString h)
  | forwardAuth url => rfl
  | maxBodySize bytes =>
    exact congrArg (fun x : Except ParseError ℕ => x.toOption.map SecuritySetting.maxBodySize)
      (parseSizeString_natToString h _)
  | maxHeaderSize bytes =>
    exact congrArg (fun x : Except ParseError ℕ => x.toOption.map SecuritySetting.maxHeaderSize)
      (parseSizeString_natToString h _)

theorem valid_of_read {name value : Str} {v : SecuritySetting} (hvalue : isToken value = true)
    (h : securitySetting name value = some v) : v.Valid := by
  have hnumber : ∀ (setting : ℕ → SecuritySetting) {largest : ℕ},
      (∀ n, n ≤ largest → (setting n).Valid) →
      (parseUnsigned largest value).map setting = some v → v.Valid := by
    intro setting largest hvalid hread
    obtain ⟨n, hn, rfl⟩ := Option.map_eq_some_iff.mp hread
    exact hvalid n (parseUnsigned_eq_some hn).1
  have hsize : ∀ setting : ℕ → SecuritySetting, (∀ n, n ≤ usizeMax → (setting n).Valid) →
      (parseSizeString value name).toOption.map setting = some v → v.Valid := by
    intro setting hvalid hread
    obtain ⟨n, hn, rfl⟩ := Option.map_eq_some_iff.mp hread
    exact hvalid n (parseSizeString_le (toOption_eq_some_iff.mp hn))
  unfold securitySetting at h
  split_ifs at h
  · obtain ⟨on, -, rfl⟩ := Option.map_eq_some_iff.mp h
    trivial
  · obtain ⟨ip, -, rfl⟩ := Option.map_eq_some_iff.mp h
    trivial
  · exact hnumber .timeout (fun _ hn => hn) h
  · exact hnumber .maxTlsFailures (fun _ hn => hn) h
  · exact hnumber .banDuration (fun _ hn => hn) h
  · exact hnumber .rateLimit (fun _ hn => hn) h
  · cases h
    exact hvalue
  · exact hsize .maxBodySize (fun _ hn => hn) h
  · exact hsize .maxHeaderSize (fun _ hn => hn) h

end SecuritySetting

namespace CacheSetting

def value : CacheSetting → Str
  | .enabled on => switchText on
  | .maxCapacity bytes => natToString bytes
  | .maxFileSize bytes => natToString bytes
  | .defaultTtl sec => natToString sec

def Valid : CacheSetting → Prop
  | .enabled _ => True
  | .maxCapacity bytes => bytes ≤ usizeMax
  | .maxFileSize bytes => bytes ≤ usizeMax
  | .defaultTtl sec => sec ≤ u64Max

def line (v : CacheSetting) : List Str := directiveLine v.name v.value

theorem isWritable_name (v : CacheSetting) : isWritable [v.name] = true := by
  cases v <;> rfl

theorem isToken_value (v : CacheSetting) : isToken v.value = true := by
  cases v with
  | enabled on => exact isToken_switchText on
  | _ => exact isToken_natToString _

theorem read_value {v : CacheSetting} (h : v.Valid) : cacheSetting v.name v.value = some v := by
  cases v with
  | enabled on => cases on <;> rfl
  | maxCapacity bytes =>
    exact congrArg (fun x : Except ParseError ℕ => x.toOption.map CacheSetting.maxCapacity)
      (parseSizeString_natToString h _)
  | maxFileSize bytes =>
    exact congrArg (fun x : Except ParseError ℕ => x.toOption.map CacheSetting.maxFileSize)
      (parseSizeString_natToString h _)
  | defaultTtl sec =>
    exact congrArg (Option.map CacheSetting.defaultTtl) (parseUnsigned_natToString h)

theorem valid_of_read {name value : Str} {v : CacheSetting}
    (h : cacheSetting name value = some v) : v.Valid := by
  unfold cacheSetting at h
  split_ifs at h
  · obtain ⟨on, -, rfl⟩ := Option.map_eq_some_iff.mp h
    trivial
  · obtain ⟨n, hn, rfl⟩ := Option.map_eq_some_iff.mp h
    exact parseSizeString_le (toOption_eq_some_iff.mp hn)
  · obtain ⟨n, hn, rfl⟩ := Option.map_eq_some_iff.mp h
    exact parseSizeString_le (toOption_eq_some_iff.mp hn)
  · obtain ⟨n, hn, rfl⟩ := Option.map_eq_some_iff.mp h
    exact (parseUnsigned_eq_some hn).1

end CacheSetting

end Settings

section Blocks

structure WritableRoute (route : Route) : Prop where
  request : isToken route.requestEndpoint = true ∧ isValidUrl route.requestEndpoint = true
  forward : isToken route.forwardEndpoint = true ∧ isValidUrl route.forwardEndpoint = true
  cert : ∀ path ∈ route.certPath, isToken path = true
  key : ∀ path ∈ route.keyPath, isToken path = true
  scheme : if startsWith route.requestEndpoint "https://".toList then
      route.certPath.isSome = true ∧ route.keyPath.isSome = true
    else route.certPath = none ∧ route.keyPath = none

structure WritableSecurity (security : SecurityConfig) : Prop where
  timeout : security.timeoutMs ≤ u64Max
  tlsFailures : security.maxTlsFailures ≤ usizeMax
  banDuration : security.banDurationSec ≤ u64Max
  rateLimit : security.rateLimitRpm ≤ usizeMax
  forwardAuth : ∀ url ∈ security.forwardAuth, isToken url = true
  bodySize : security.maxBodySize ≤ usizeMax
  headerSize : security.maxHeaderSize ≤ usizeMax

structure WritableCache (cache : CacheConfig) : Prop where
  capacity : cache.maxCapacityBytes ≤ usizeMax
  fileSize : cache.maxFileSizeBytes ≤ usizeMax
  ttl : cache.defaultTtlSec ≤ u64Max

def routeSettings (route : Route) : List RouteSetting :=
  [.upstream route.forwardEndpoint, .auth route.authRequired] ++ route.certPath.toList.map .cert ++
    route.keyPath.toList.map .key ++ route.cache.toList.map .cache ++
    route.interceptErrors.toList.map .interceptErrors

def securitySettings (security : SecurityConfig) : List SecuritySetting :=
  [.proxyProtocol security.proxyProtocol, .trustedUpstream security.trustedUpstream,
    .timeout security.timeoutMs, .maxTlsFailures security.maxTlsFailures,
    .banDuration security.banDurationSec, .rateLimit security.rateLimitRpm,
    .maxBodySize security.maxBodySize, .maxHeaderSize security.maxHeaderSize] ++
    security.forwardAuth.toList.map .forwardAuth

def cacheSettings (cache : CacheConfig) : List CacheSetting :=
  [.enabled cache.enabled, .maxCapacity cache.maxCapacityBytes,
    .maxFileSize cache.maxFileSizeBytes, .defaultTtl cache.defaultTtlSec]

theorem routeSettings_valid {route : Route} (h : WritableRoute route) :
    ∀ v ∈ routeSettings route, v.Valid := by
  obtain ⟨request, forward, auth, cert, key, cache, errors⟩ := route
  have hforward : RouteSetting.Valid (.upstream forward) := h.forward
  have hcert : ∀ path ∈ cert, RouteSetting.Valid (.cert path) := h.cert
  have hkey : ∀ path ∈ key, RouteSetting.Valid (.key path) := h.key
  intro v hv
  simp only [routeSettings, List.mem_append, List.mem_cons, List.not_mem_nil, or_false,
    List.mem_map, Option.mem_toList] at hv
  rcases hv with ((((rfl | rfl) | ⟨path, hpath, rfl⟩) | ⟨path, hpath, rfl⟩) | ⟨on, -, rfl⟩) |
    ⟨on, -, rfl⟩
  · exact hforward
  · trivial
  · exact hcert path hpath
  · exact hkey path hpath
  · trivial
  · trivial

theorem routeSettings_written (route : Route) :
    (routeSettings route).foldlM (write RouteSetting.taken RouteSetting.set) .initial =
      some ⟨some route.forwardEndpoint, route.authRequired, route.certPath, route.keyPath,
        route.cache, route.interceptErrors⟩ := by
  obtain ⟨request, forward, auth, cert, key, cache, errors⟩ := route
  cases cert <;> cases key <;> cases cache <;> cases errors <;> rfl

theorem finishRoute_of_writable {route : Route} (h : WritableRoute route) :
    finishRoute route.requestEndpoint ⟨some route.forwardEndpoint, route.authRequired,
      route.certPath, route.keyPath, route.cache, route.interceptErrors⟩ = .ok route := by
  have hscheme := h.scheme
  unfold finishRoute
  dsimp only
  split_ifs at hscheme with hhttps
  · rw [if_pos hhttps, if_neg (by simp [Option.isNone_iff_eq_none, Option.ne_none_iff_isSome,
      hscheme.1, hscheme.2])]
  · rw [if_neg hhttps, if_neg (by simp [hscheme.1, hscheme.2])]

theorem securitySettings_valid {security : SecurityConfig} (h : WritableSecurity security) :
    ∀ v ∈ securitySettings security, v.Valid := by
  intro v hv
  simp only [securitySettings, List.mem_append, List.mem_cons, List.not_mem_nil, or_false,
    List.mem_map, Option.mem_toList] at hv
  rcases hv with (rfl | rfl | rfl | rfl | rfl | rfl | rfl | rfl) | ⟨url, hurl, rfl⟩
  · trivial
  · trivial
  · exact h.timeout
  · exact h.tlsFailures
  · exact h.banDuration
  · exact h.rateLimit
  · exact h.bodySize
  · exact h.headerSize
  · exact h.forwardAuth url hurl

theorem securitySettings_written (security : SecurityConfig) :
    (securitySettings security).foldlM (write SecuritySetting.taken SecuritySetting.set) .initial =
      some ⟨some security.proxyProtocol, some security.trustedUpstream, some security.timeoutMs,
        some security.maxTlsFailures, some security.banDurationSec, some security.rateLimitRpm,
        security.forwardAuth, some security.maxBodySize, some security.maxHeaderSize⟩ := by
  obtain ⟨protocol, ip, timeout, failures, ban, rate, auth, body, header⟩ := security
  cases auth <;> rfl

theorem finishSecurity_written (security : SecurityConfig) :
    finishSecurity ⟨some security.proxyProtocol, some security.trustedUpstream,
      some security.timeoutMs, some security.maxTlsFailures, some security.banDurationSec,
      some security.rateLimitRpm, security.forwardAuth, some security.maxBodySize,
      some security.maxHeaderSize⟩ = .ok security := by
  obtain ⟨protocol, ip, timeout, failures, ban, rate, auth, body, header⟩ := security
  cases protocol <;> rfl

theorem cacheSettings_valid {cache : CacheConfig} (h : WritableCache cache) :
    ∀ v ∈ cacheSettings cache, v.Valid := by
  intro v hv
  simp only [cacheSettings, List.mem_cons, List.not_mem_nil, or_false] at hv
  rcases hv with rfl | rfl | rfl | rfl
  · trivial
  · exact h.capacity
  · exact h.fileSize
  · exact h.ttl

/-- The lines of some settings say these settings. -/
theorem readLine_settings {ι : Type} {setting : Str → Str → Option ι} {name value : ι → Str}
    {settings : List ι} (hname : ∀ v, isWritable [name v] = true)
    (hvalue : ∀ v ∈ settings, isToken (value v) = true)
    (hread : ∀ v ∈ settings, setting (name v) (value v) = some v) :
    ((settings.map fun v => directiveLine (name v) (value v)).map shownLine).map
      (readLine setting) = settings.map some := by
  rw [List.map_map, List.map_map]
  refine List.map_congr_left fun v hv => ?_
  have htoken := isToken_of_isWritable (hname v) (name v) (.head _)
  exact (readLine_directiveLine setting htoken (hvalue v hv)).trans (hread v hv)

theorem routeBlock_written {route : Route} (h : WritableRoute route) :
    routeBlock route.requestEndpoint (((routeSettings route).map RouteSetting.line).map shownLine) =
      some route := by
  have hvalid := routeSettings_valid h
  have hread :
      (((routeSettings route).map RouteSetting.line).map shownLine).map (readLine routeSetting) =
      (routeSettings route).map some := readLine_settings RouteSetting.isWritable_name
    (fun v hv => RouteSetting.isToken_value (hvalid v hv))
    (fun v hv => RouteSetting.read_value (hvalid v hv))
  unfold routeBlock
  rw [applyLine_eq_some_iff.mpr ⟨_, hread, routeSettings_written route⟩]
  exact congrArg Except.toOption (finishRoute_of_writable h)

theorem securityBlock_written {security : SecurityConfig} (h : WritableSecurity security) :
    securityBlock (((securitySettings security).map SecuritySetting.line).map shownLine) =
      some security := by
  have hvalid := securitySettings_valid h
  have hread : (((securitySettings security).map SecuritySetting.line).map shownLine).map
      (readLine securitySetting) =
      (securitySettings security).map some := readLine_settings SecuritySetting.isWritable_name
    (fun v hv => SecuritySetting.isToken_value (hvalid v hv))
    (fun v hv => SecuritySetting.read_value (hvalid v hv))
  unfold securityBlock
  rw [applyLine_eq_some_iff.mpr ⟨_, hread, securitySettings_written security⟩]
  exact congrArg Except.toOption (finishSecurity_written security)

theorem cacheBlock_written {cache : CacheConfig} (h : WritableCache cache) :
    cacheBlock (((cacheSettings cache).map CacheSetting.line).map shownLine) = some cache := by
  have hvalid := cacheSettings_valid h
  have hread :
      (((cacheSettings cache).map CacheSetting.line).map shownLine).map (readLine cacheSetting) =
      (cacheSettings cache).map some := readLine_settings CacheSetting.isWritable_name
    (fun v _ => CacheSetting.isToken_value v)
    (fun v hv => CacheSetting.read_value (hvalid v hv))
  exact applyLine_eq_some_iff.mpr ⟨_, hread, rfl⟩

end Blocks

section Accepted

/-- The settings that a block of a text says can be written. -/
theorem settings_valid {ι : Type} {setting : Str → Str → Option ι} {valid : ι → Prop}
    (hvalid : ∀ {name value v}, isToken value = true → setting name value = some v → valid v)
    {body : List Str} (hbody : ∀ line ∈ body, Unbroken line) {settings : List ι}
    (h : body.map (readLine setting) = settings.map some) : ∀ v ∈ settings, valid v := by
  intro v hv
  obtain ⟨line, hline, hread⟩ := exists_line h hv
  obtain ⟨value, hdirective, hsetting⟩ := readLine_eq_some hread
  exact hvalid (isToken_of_directiveOf (hbody line hline) hdirective) hsetting

theorem writable_of_routeBlock {header endpoint : Str} {body : List Str} {route : Route}
    (hunbroken : Unbroken header) (hbody : ∀ line ∈ body, Unbroken line)
    (hheader : parseRouteBlockHeader header = .ok endpoint)
    (h : routeBlock endpoint body = some route) : WritableRoute route := by
  obtain ⟨settings, fields, hsettings, hwrite, hfinish⟩ := routeBlock_eq_some h
  obtain ⟨hforward, hroute, hscheme⟩ := finishRoute_ok hfinish
  obtain ⟨htokens, hurl⟩ := parseRouteBlockHeader_ok hheader
  have hvalid := settings_valid RouteSetting.valid_of_read hbody hsettings
  have hfields : (∀ e ∈ fields.forwardEndpoint, isToken e = true ∧ isValidUrl e = true) ∧
      (∀ path ∈ fields.certPath, isToken path = true) ∧
      ∀ path ∈ fields.keyPath, isToken path = true := by
    refine foldlM_keeps (P := fun fields : RouteFields =>
      (∀ e ∈ fields.forwardEndpoint, isToken e = true ∧ isValidUrl e = true) ∧
      (∀ path ∈ fields.certPath, isToken path = true) ∧
      ∀ path ∈ fields.keyPath, isToken path = true) (fun v hv s hs => ?_)
        (by simp [RouteFields.initial]) hwrite
    have hv := hvalid v hv
    cases v with
    | upstream endpoint => exact ⟨fun e he => Option.some.inj he ▸ hv, hs.2⟩
    | cert path => exact ⟨hs.1, fun e he => Option.some.inj he ▸ hv, hs.2.2⟩
    | key path => exact ⟨hs.1, hs.2.1, fun e he => Option.some.inj he ▸ hv⟩
    | auth on => exact hs
    | cache on => exact hs
    | interceptErrors on => exact hs
  have htoken : isToken endpoint = true :=
    isToken_of_mem hunbroken (by rw [htokens]; exact .tail _ (.head _))
  rw [hroute]
  exact ⟨⟨htoken, hurl⟩, hfields.1 _ hforward, hfields.2.1, hfields.2.2, hscheme⟩

theorem getD_le {x : Option ℕ} {n largest : ℕ} (h : ∀ m ∈ x, m ≤ largest) (hn : n ≤ largest) :
    x.getD n ≤ largest := by
  cases x with
  | none => exact hn
  | some m => exact h m rfl

theorem writable_of_securityBlock {body : List Str} {security : SecurityConfig}
    (hbody : ∀ line ∈ body, Unbroken line) (h : securityBlock body = some security) :
    WritableSecurity security := by
  obtain ⟨settings, fields, hsettings, hwrite, hfinish⟩ := securityBlock_eq_some h
  have hvalid := settings_valid SecuritySetting.valid_of_read hbody hsettings
  -- a field that is set holds the value of a valid setting
  have hfields : (∀ n ∈ fields.timeoutMs, n ≤ u64Max) ∧
      (∀ n ∈ fields.maxTlsFailures, n ≤ usizeMax) ∧
      (∀ n ∈ fields.banDurationSec, n ≤ u64Max) ∧ (∀ n ∈ fields.rateLimitRpm, n ≤ usizeMax) ∧
      (∀ url ∈ fields.forwardAuth, isToken url = true) ∧
      (∀ n ∈ fields.maxBodySize, n ≤ usizeMax) ∧ ∀ n ∈ fields.maxHeaderSize, n ≤ usizeMax := by
    refine foldlM_keeps (P := fun fields : SecurityFields =>
      (∀ n ∈ fields.timeoutMs, n ≤ u64Max) ∧ (∀ n ∈ fields.maxTlsFailures, n ≤ usizeMax) ∧
      (∀ n ∈ fields.banDurationSec, n ≤ u64Max) ∧ (∀ n ∈ fields.rateLimitRpm, n ≤ usizeMax) ∧
      (∀ url ∈ fields.forwardAuth, isToken url = true) ∧
      (∀ n ∈ fields.maxBodySize, n ≤ usizeMax) ∧ ∀ n ∈ fields.maxHeaderSize, n ≤ usizeMax)
      (fun v hv s hs => ?_) (by simp [SecurityFields.initial]) hwrite
    have hv := hvalid v hv
    obtain ⟨htimeout, hfailures, hban, hrate, hauth, hsize, hheader⟩ := hs
    cases v with
    | proxyProtocol on => exact ⟨htimeout, hfailures, hban, hrate, hauth, hsize, hheader⟩
    | trustedUpstream ip => exact ⟨htimeout, hfailures, hban, hrate, hauth, hsize, hheader⟩
    | timeout ms =>
      exact ⟨fun n hn => Option.some.inj hn ▸ hv, hfailures, hban, hrate, hauth, hsize, hheader⟩
    | maxTlsFailures m =>
      exact ⟨htimeout, fun n hn => Option.some.inj hn ▸ hv, hban, hrate, hauth, hsize, hheader⟩
    | banDuration sec =>
      exact ⟨htimeout, hfailures, fun n hn => Option.some.inj hn ▸ hv, hrate, hauth, hsize, hheader⟩
    | rateLimit rpm =>
      exact ⟨htimeout, hfailures, hban, fun n hn => Option.some.inj hn ▸ hv, hauth, hsize, hheader⟩
    | forwardAuth url =>
      exact ⟨htimeout, hfailures, hban, hrate, fun u hu => Option.some.inj hu ▸ hv, hsize, hheader⟩
    | maxBodySize bytes =>
      exact ⟨htimeout, hfailures, hban, hrate, hauth, fun n hn => Option.some.inj hn ▸ hv, hheader⟩
    | maxHeaderSize bytes =>
      exact ⟨htimeout, hfailures, hban, hrate, hauth, hsize, fun n hn => Option.some.inj hn ▸ hv⟩
  obtain ⟨htimeout, hfailures, hban, hrate, hauth, hsize, hheader⟩ := hfields
  rw [(finishSecurity_ok hfinish).2]
  exact ⟨getD_le htimeout (by decide), getD_le hfailures (by decide), getD_le hban (by decide),
    getD_le hrate (by decide), hauth, getD_le hsize (by decide), getD_le hheader (by decide)⟩

theorem writable_of_cacheBlock {body : List Str} {cache : CacheConfig}
    (hbody : ∀ line ∈ body, Unbroken line) (h : cacheBlock body = some cache) :
    WritableCache cache := by
  obtain ⟨settings, hsettings, hwrite⟩ := applyLine_eq_some_iff.mp h
  have hvalid := settings_valid (fun _ => CacheSetting.valid_of_read) hbody hsettings
  refine foldlM_keeps (P := WritableCache) (fun v hv s hs => ?_)
    ⟨by decide, by decide, by decide⟩ hwrite
  have hv := hvalid v hv
  cases v with
  | enabled on => exact ⟨hs.capacity, hs.fileSize, hs.ttl⟩
  | maxCapacity bytes => exact ⟨hv, hs.fileSize, hs.ttl⟩
  | maxFileSize bytes => exact ⟨hs.capacity, hv, hs.ttl⟩
  | defaultTtl sec => exact ⟨hs.capacity, hs.fileSize, hv⟩

end Accepted

section Entries

namespace Entry

def Valid : Entry → Prop
  | .listen port => port ≤ u16Max
  | .logfile path => isToken path = true
  | .interceptErrors _ => True
  | .workers n => 1 ≤ n ∧ n ≤ usizeMax
  | .route r => WritableRoute r
  | .security config => WritableSecurity config
  | .cache config => WritableCache config

def closer : List Str := ["\x7d".toList]

def lines : Entry → List (List Str)
  | .listen port => [directiveLine "listen".toList (natToString port)]
  | .logfile path => [directiveLine "logfile".toList path]
  | .interceptErrors on => [directiveLine "intercept_errors".toList (switchText on)]
  | .workers n => [directiveLine "workers".toList (natToString n)]
  | .route r => headerLine ["route".toList, r.requestEndpoint] ::
      (routeSettings r).map RouteSetting.line ++ [closer]
  | .security config => headerLine ["security".toList] ::
      (securitySettings config).map SecuritySetting.line ++ [closer]
  | .cache config => headerLine ["cache".toList] ::
      (cacheSettings config).map CacheSetting.line ++ [closer]

end Entry

/-- Lines that make up one item, whatever comes behind them, and say `entry`. -/
def Says (lines : List (List Str)) (entry : Entry) : Prop :=
  (∀ tokens ∈ lines, isWritable tokens = true) ∧ ∀ rest, ∃ item : Item,
    itemsOf (lines.map shownLine ++ rest) = item :: itemsOf rest ∧ item.read = some entry

theorem says_directive {name value : Str} {entry : Entry} (hname : isWritable [name] = true)
    (hvalue : isToken value = true) (hentry : lineEntry name value = some entry) :
    Says [directiveLine name value] entry := by
  have hwritable := isWritable_directiveLine hname hvalue
  refine ⟨fun tokens htokens => List.mem_singleton.mp htokens ▸ hwritable, fun rest => ?_⟩
  have hheader : ¬ isHeader (shownLine (directiveLine name value)) = true := by
    rw [isHeader_directiveLine]
    exact Bool.false_ne_true
  refine ⟨.line (shownLine (directiveLine name value)), ?_, ?_⟩
  · rw [List.map_singleton, List.singleton_append, itemsOf_cons]
    unfold nextItem
    rw [if_neg hheader]
  · have hread := readLine_directiveLine lineEntry
      (isToken_of_isWritable hname name (.head _)) hvalue
    exact hread.trans hentry

theorem says_block {ι : Type} {header : List Str} {name value : ι → Str} {settings : List ι}
    {entry : Entry} (hwritable : isWritable (headerLine header) = true) (hheader : header ≠ [])
    (hname : ∀ v, isWritable [name v] = true) (hvalue : ∀ v ∈ settings, isToken (value v) = true)
    (hentry : blockEntry (shownLine (headerLine header))
      ((settings.map fun v => directiveLine (name v) (value v)).map shownLine) = some entry) :
    Says (headerLine header :: (settings.map fun v => directiveLine (name v) (value v)) ++
      [Entry.closer]) entry := by
  have hbody : ∀ tokens ∈ settings.map fun v => directiveLine (name v) (value v),
      isWritable tokens = true ∧ isInner (shownLine tokens) = true := by
    intro tokens htokens
    obtain ⟨v, hv, rfl⟩ := List.mem_map.mp htokens
    have hline := isWritable_directiveLine (hname v) (hvalue v hv)
    exact ⟨hline, isInner_shownLine (isToken_of_isWritable hline)⟩
  have hinner : ∀ line ∈ (settings.map fun v => directiveLine (name v) (value v)).map shownLine,
      isInner line = true := by
    intro line hline
    obtain ⟨tokens, htokens, rfl⟩ := List.mem_map.mp hline
    exact (hbody tokens htokens).2
  have hcloser : isInner (shownLine Entry.closer) = false := by decide
  constructor
  · intro tokens htokens
    rcases List.mem_append.mp htokens with hmem | hmem
    · rcases List.mem_cons.mp hmem with rfl | hmem
      · exact hwritable
      · exact (hbody tokens hmem).1
    · rw [List.mem_singleton.mp hmem]
      decide
  · intro rest
    generalize (settings.map fun v => directiveLine (name v) (value v)) = body at *
    have hlines : (headerLine header :: body ++ [Entry.closer]).map shownLine ++ rest =
        shownLine (headerLine header) ::
          (body.map shownLine ++ shownLine Entry.closer :: rest) := by
      simp
    refine ⟨.block (shownLine (headerLine header)) (body.map shownLine)
      (some (shownLine Entry.closer)), ?_, hentry⟩
    -- the block ends at its terminator
    rw [hlines, itemsOf_cons]
    unfold nextItem
    rw [if_pos (isHeader_headerLine hheader), List.takeWhile_append_of_pos hinner,
      List.dropWhile_append_of_pos hinner, List.takeWhile_cons_of_neg (by simp [hcloser]),
      List.dropWhile_cons_of_neg (by simp [hcloser]), List.append_nil]
    rfl

theorem nameOf_headerLine {keyword : Str} {tokens : List Str}
    (h : isWritable (headerLine (keyword :: tokens)) = true) :
    nameOf (shownLine (headerLine (keyword :: tokens))) = keyword := by
  unfold nameOf
  rw [(splitWhitespace_shownLine (isToken_of_isWritable h)).1]
  rfl

theorem says_route {route : Route} (h : WritableRoute route) :
    Says (Entry.route route).lines (.route route) := by
  have hwritable : isWritable (headerLine ["route".toList, route.requestEndpoint]) = true := by
    have hfirst : isWritable ["route".toList, "\x7b".toList] = true := by decide
    simpa [headerLine, isWritable, h.request.1] using hfirst
  have hvalid := routeSettings_valid h
  refine says_block hwritable (List.cons_ne_nil _ _) RouteSetting.isWritable_name
    (fun v hv => RouteSetting.isToken_value (hvalid v hv)) ?_
  have hheader : parseRouteBlockHeader
      (shownLine (headerLine ["route".toList, route.requestEndpoint])) =
      .ok route.requestEndpoint := by
    unfold parseRouteBlockHeader
    rw [(splitWhitespace_shownLine (isToken_of_isWritable hwritable)).1]
    change (if _ then _ else if isValidUrl route.requestEndpoint then _ else _) = _
    rw [if_neg (by decide), if_pos h.request.2]
  unfold blockEntry
  rw [if_pos (nameOf_headerLine hwritable), hheader]
  exact congrArg (Option.map Entry.route) (routeBlock_written h)

theorem says_security {config : SecurityConfig} (h : WritableSecurity config) :
    Says (Entry.security config).lines (.security config) := by
  have hvalid := securitySettings_valid h
  have hwritable : isWritable (headerLine ["security".toList]) = true := by decide
  refine says_block hwritable (List.cons_ne_nil _ _) SecuritySetting.isWritable_name
    (fun v hv => SecuritySetting.isToken_value (hvalid v hv)) ?_
  unfold blockEntry
  rw [nameOf_headerLine hwritable, if_neg (by decide), if_pos rfl]
  exact congrArg (Option.map Entry.security) (securityBlock_written h)

theorem says_cache {config : CacheConfig} (h : WritableCache config) :
    Says (Entry.cache config).lines (.cache config) := by
  have hwritable : isWritable (headerLine ["cache".toList]) = true := by decide
  refine says_block hwritable (List.cons_ne_nil _ _) CacheSetting.isWritable_name
    (fun v _ => CacheSetting.isToken_value v) ?_
  unfold blockEntry
  rw [nameOf_headerLine hwritable, if_neg (by decide), if_neg (by decide), if_pos rfl]
  exact congrArg (Option.map Entry.cache) (cacheBlock_written h)

theorem Entry.says_lines {entry : Entry} (h : entry.Valid) : Says entry.lines entry := by
  cases entry with
  | listen port =>
    exact says_directive (by decide) (isToken_natToString port)
      (congrArg (Option.map Entry.listen) (parseUnsigned_natToString h))
  | logfile path => exact says_directive (by decide) h rfl
  | interceptErrors on =>
    exact says_directive (by decide) (isToken_switchText on)
      (congrArg (Option.map Entry.interceptErrors) (onOff_switchText on))
  | workers n =>
    refine says_directive (by decide) (isToken_natToString n) ?_
    change ((parseUnsigned usizeMax (natToString n)).filter (· ≠ 0)).map Entry.workers = _
    have hpos : n ≠ 0 := Nat.one_le_iff_ne_zero.mp h.1
    rw [parseUnsigned_natToString h.2, Option.filter_some, if_pos (decide_eq_true hpos)]
    rfl
  | route route => exact says_route h
  | security config => exact says_security h
  | cache config => exact says_cache h

/-- Entries that are written one after the other are read one after the other. -/
theorem read_lines {entries : List Entry} (h : ∀ entry ∈ entries, entry.Valid) :
    (itemsOf ((entries.flatMap Entry.lines).map shownLine)).map Item.read = entries.map some := by
  induction entries with
  | nil => rfl
  | cons entry entries ih =>
    obtain ⟨item, hitems, hread⟩ := (Entry.says_lines (h entry (.head _))).2
      ((entries.flatMap Entry.lines).map shownLine)
    rw [List.flatMap_cons, List.map_append, hitems, List.map_cons, hread,
      ih fun e he => h e (.tail _ he)]
    rfl

/-- What an item of a text says can be written. -/
theorem valid_of_read {input : Str} {item : Item} {entry : Entry}
    (hitem : item ∈ itemsOf (configLines input)) (h : item.read = some entry) : entry.Valid := by
  have hunbroken : ∀ line ∈ item.lines, Unbroken line := fun line hline =>
    unbroken_of_mem_configLines (mem_lines hitem hline)
  rcases read_cases h with ⟨text, value, rfl, hdirective, hentry⟩ |
    ⟨header, body, closer, rfl, hentry⟩
  · have htoken := isToken_of_directiveOf (hunbroken text (.head _)) hdirective
    rcases lineEntry_cases hentry with ⟨port, -, hport, rfl⟩ | ⟨-, rfl⟩ | ⟨on, -, -, rfl⟩ |
      ⟨n, -, hn, hpos, rfl⟩
    · exact (parseUnsigned_eq_some hport).1
    · exact htoken
    · trivial
    · exact ⟨Nat.one_le_iff_ne_zero.mpr hpos, (parseUnsigned_eq_some hn).1⟩
  · have hbody : ∀ line ∈ body, Unbroken line := fun line hline =>
      hunbroken line (List.mem_append_left _ (.tail _ hline))
    rcases blockEntry_cases hentry with ⟨endpoint, route, -, hheader, hblock, rfl⟩ |
      ⟨config, -, hblock, rfl⟩ | ⟨config, -, hblock, rfl⟩
    · exact writable_of_routeBlock (hunbroken header (.head _)) hbody hheader hblock
    · exact writable_of_securityBlock hbody hblock
    · exact writable_of_cacheBlock hbody hblock

end Entries

section Documents

/-- The configurations that some text says. -/
structure Writable (availableParallelism : Option ℕ) (config : Config) : Prop where
  listen : config.listenPort ≤ u16Max
  routes_ne_nil : config.routes ≠ []
  routes : ∀ route ∈ config.routes, WritableRoute route
  distinct : (config.routes.map Route.requestEndpoint).Nodup
  workers : (1 ≤ config.workers ∧ config.workers ≤ usizeMax) ∨
    config.workers = availableParallelism.getD 1
  logfile : ∀ path ∈ config.logfile, isToken path = true
  security : ∀ security ∈ config.security, WritableSecurity security
  cache : ∀ cache ∈ config.cache, WritableCache cache
  auth : config.routes.any Route.authRequired = true →
    (config.security.bind (·.forwardAuth)).isSome = true

-- a number of workers that no directive can say is left to the default
def workersEntry (n : ℕ) : List Entry := if 1 ≤ n ∧ n ≤ usizeMax then [.workers n] else []

def configEntries (config : Config) : List Entry :=
  [.listen config.listenPort] ++ workersEntry config.workers ++
    config.logfile.toList.map .logfile ++ config.interceptErrors.toList.map .interceptErrors ++
    config.security.toList.map .security ++ config.cache.toList.map .cache ++
    config.routes.map .route

/-- A configuration as a text. -/
def render (config : Config) : Str :=
  unlines (((configEntries config).flatMap Entry.lines).map rawLine)

variable {availableParallelism : Option ℕ} {config : Config}

theorem configEntries_valid (h : Writable availableParallelism config) :
    ∀ entry ∈ configEntries config, entry.Valid := by
  intro entry hentry
  simp only [configEntries, List.mem_append, List.mem_singleton, List.mem_map,
    Option.mem_toList] at hentry
  rcases hentry with (((((rfl | hworkers) | ⟨path, hpath, rfl⟩) | ⟨on, -, rfl⟩) |
    ⟨security, hsecurity, rfl⟩) | ⟨cache, hcache, rfl⟩) | ⟨route, hroute, rfl⟩
  · exact h.listen
  · unfold workersEntry at hworkers
    split_ifs at hworkers with hn
    · rw [List.mem_singleton.mp hworkers]
      exact hn
    · exact absurd hworkers List.not_mem_nil
  · exact h.logfile path hpath
  · trivial
  · exact h.security security hsecurity
  · exact h.cache cache hcache
  · exact h.routes route hroute

/-- The items before the routes. -/
def settledItems (config : Config) : Items :=
  { Items.initial with
    listenPort := config.listenPort
    listenFound := true
    workers := if 1 ≤ config.workers ∧ config.workers ≤ usizeMax then some config.workers else none
    logfile := config.logfile
    interceptErrors := config.interceptErrors
    security := config.security
    cache := config.cache }

theorem settled_written (config : Config) :
    ([.listen config.listenPort] ++ workersEntry config.workers ++
      config.logfile.toList.map .logfile ++ config.interceptErrors.toList.map .interceptErrors ++
      config.security.toList.map .security ++ config.cache.toList.map .cache : List Entry).foldlM
      (write Entry.taken Entry.set) .initial = some (settledItems config) := by
  obtain ⟨port, routes, workers, logfile, security, cache, errors⟩ := config
  unfold workersEntry settledItems
  by_cases hworkers : 1 ≤ workers ∧ workers ≤ usizeMax
  · simp only [if_pos hworkers]
    cases logfile <;> cases errors <;> cases security <;> cases cache <;> rfl
  · simp only [if_neg hworkers]
    cases logfile <;> cases errors <;> cases security <;> cases cache <;> rfl

theorem routes_written {routes : List Route} (hnodup : (routes.map Route.requestEndpoint).Nodup)
    (items : Items)
    (hfree : ∀ route ∈ routes, route.requestEndpoint ∉ items.requestEndpoints) :
    (routes.map Entry.route).foldlM (write Entry.taken Entry.set) items =
      some { items with
        routes := items.routes ++ routes
        routesFound := items.routesFound || !routes.isEmpty
        requestEndpoints :=
          (routes.map Route.requestEndpoint).reverse ++ items.requestEndpoints } := by
  -- the endpoints written so far are those of the routes before
  induction routes generalizing items with
  | nil => simp
  | cons route routes ih =>
    rw [List.map_cons, List.nodup_cons] at hnodup
    have hfirst : write Entry.taken Entry.set items (.route route) =
        some ((Entry.route route).set items) := by
      have hfirst := hfree route (.head _)
      exact if_neg fun htaken => hfirst (List.contains_iff_mem.mp htaken)
    rw [List.map_cons, List.foldlM_cons, hfirst]
    refine (ih hnodup.2 ((Entry.route route).set items) fun r hr hmem => ?_).trans ?_
    · rcases List.mem_cons.mp hmem with heq | hmem
      · exact hnodup.1 (heq ▸ List.mem_map_of_mem hr)
      · exact hfree r (.tail _ hr) hmem
    · simp [Entry.set]

theorem finishConfig_written (h : Writable availableParallelism config) :
    ∃ items, (configEntries config).foldlM (write Entry.taken Entry.set) .initial = some items ∧
      finishConfig availableParallelism items = .ok config := by
  have hroutes := routes_written h.distinct (settledItems config) fun _ _ => List.not_mem_nil
  have hwrite : (configEntries config).foldlM (write Entry.taken Entry.set) .initial =
      (config.routes.map Entry.route).foldlM (write Entry.taken Entry.set)
        (settledItems config) := by
    unfold configEntries
    rw [List.foldlM_append, settled_written]
    rfl
  refine ⟨_, hwrite.trans hroutes, ?_⟩
  have hfound : (!config.routes.isEmpty) = true := by
    simpa using h.routes_ne_nil
  have hauth : (config.routes.any Route.authRequired &&
      (config.security.bind (·.forwardAuth)).isNone) = false := by
    rw [Bool.and_eq_false_imp]
    intro hany
    rw [Option.isNone_eq_false_iff]
    exact h.auth hany
  have hworkers : (if 1 ≤ config.workers ∧ config.workers ≤ usizeMax then some config.workers
      else none).getD (availableParallelism.getD 1) = config.workers := by
    by_cases hn : 1 ≤ config.workers ∧ config.workers ≤ usizeMax
    · rw [if_pos hn]
      rfl
    · rw [if_neg hn]
      exact (h.workers.resolve_left hn).symm
  unfold finishConfig settledItems Items.initial
  simp only [List.nil_append, Bool.false_or, hfound, hauth, hworkers]
  rfl

variable [CaseMapping]

theorem parse_render (h : Writable availableParallelism config) :
    parseProxyConfig availableParallelism (render config) = .ok config := by
  have hvalid := configEntries_valid h
  have hlines : configLines (render config) =
      ((configEntries config).flatMap Entry.lines).map shownLine := by
    refine configLines_unlines fun tokens htokens => ?_
    obtain ⟨entry, hentry, hmem⟩ := List.mem_flatMap.mp htokens
    exact (Entry.says_lines (hvalid entry hentry)).1 tokens hmem
  obtain ⟨items, hwrite, hfinish⟩ := finishConfig_written h
  rw [parseProxyConfig_ok_iff, hlines]
  exact ⟨items, foldlM_read_eq_some_iff.mpr ⟨_, read_lines hvalid, hwrite⟩, hfinish⟩

theorem writable_of_parse {input : Str}
    (h : parseProxyConfig availableParallelism input = .ok config) :
    Writable availableParallelism config := by
  obtain ⟨items, entries, hread, hwrite, hfinish⟩ := parse_entries h
  obtain ⟨hlisten, hroutes, hauth, rfl⟩ := finishConfig_ok hfinish
  have hvalid : ∀ entry ∈ entries, entry.Valid := by
    intro entry hentry
    obtain ⟨item, hitem, hsays⟩ := exists_line hread hentry
    exact valid_of_read hitem hsays
  -- what stands at a place was said by an entry
  have hitems : items.listenPort ≤ u16Max ∧
      (∀ n ∈ items.workers, 1 ≤ n ∧ n ≤ usizeMax) ∧
      (∀ path ∈ items.logfile, isToken path = true) ∧
      (∀ security ∈ items.security, WritableSecurity security) ∧
      ∀ cache ∈ items.cache, WritableCache cache := by
    refine foldlM_keeps (P := fun items : Items => items.listenPort ≤ u16Max ∧
      (∀ n ∈ items.workers, 1 ≤ n ∧ n ≤ usizeMax) ∧
      (∀ path ∈ items.logfile, isToken path = true) ∧
      (∀ security ∈ items.security, WritableSecurity security) ∧
      ∀ cache ∈ items.cache, WritableCache cache)
      (fun entry hentry s hs => ?_) (by simp [Items.initial]) hwrite
    have hentry := hvalid entry hentry
    obtain ⟨hport, hworkers, hlogfile, hsecurity, hcache⟩ := hs
    cases entry with
    | listen port => exact ⟨hentry, hworkers, hlogfile, hsecurity, hcache⟩
    | logfile path =>
      exact ⟨hport, hworkers, fun p hp => Option.some.inj hp ▸ hentry, hsecurity, hcache⟩
    | interceptErrors on => exact ⟨hport, hworkers, hlogfile, hsecurity, hcache⟩
    | workers n =>
      exact ⟨hport, fun m hm => Option.some.inj hm ▸ hentry, hlogfile, hsecurity, hcache⟩
    | route route => exact ⟨hport, hworkers, hlogfile, hsecurity, hcache⟩
    | security config =>
      exact ⟨hport, hworkers, hlogfile, fun c hc => Option.some.inj hc ▸ hentry, hcache⟩
    | cache config =>
      exact ⟨hport, hworkers, hlogfile, hsecurity, fun c hc => Option.some.inj hc ▸ hentry⟩
  obtain ⟨hport, hworkers, hlogfile, hsecurity, hcache⟩ := hitems
  refine ⟨hport, routes_ne_nil hwrite hroutes, fun route hroute => ?_, endpoints_nodup hwrite, ?_,
    hlogfile, hsecurity, hcache, hauth⟩
  · exact hvalid _ ((mem_routes hwrite).mp hroute)
  · cases hn : items.workers with
    | none => exact .inr rfl
    | some n => exact .inl (hworkers n hn)

/-- The configurations that are accepted from some text are the writable ones, and they are
those that are read back from the text that `render` writes for them. -/
theorem accepted_iff_writable (availableParallelism : Option ℕ) (config : Config) :
    ((∃ input, parseProxyConfig availableParallelism input = .ok config) ↔
      Writable availableParallelism config) ∧
    (parseProxyConfig availableParallelism (render config) = .ok config ↔
      Writable availableParallelism config) :=
  ⟨⟨fun ⟨_, h⟩ => writable_of_parse h, fun h => ⟨render config, parse_render h⟩⟩,
    writable_of_parse, parse_render⟩

end Documents

end BarebonesProxy.ConfigParser
