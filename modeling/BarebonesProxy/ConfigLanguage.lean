import BarebonesProxy.ConfigEntries
import Mathlib.Data.List.Nodup

set_option autoImplicit false

/-!
# What an accepted text says is in its configuration

Nothing that is written is ignored exactly if the text keeps away from what the parser does
not check: more tokens in the header of a security or cache block, and repetition of the
directives that are not refused when they are repeated.
-/
namespace BarebonesProxy.ConfigParser
open RustStrings RustNet ProxyConfig GuardedWrites

section Lines

/-- A header with nothing but its keyword, its endpoint for a route, and its brace. -/
def isExactHeader (line : Str) : Bool :=
  isHeader line && match splitWhitespace line with
    | [keyword, _, brace] => keyword = "route".toList ∧ brace = "\x7b".toList
    | [keyword, brace] =>
      (keyword = "security".toList ∨ keyword = "cache".toList) ∧ brace = "\x7b".toList
    | _ => false

/-- The three forms of a line: directive, header, terminator. -/
def forms (line : Str) : List Bool :=
  [(directiveOf line).isSome, isExactHeader line, !isInner line]

theorem forms_directive {line : Str} {directive : Str × Str} (h : directiveOf line = some directive) :
    forms line = [true, false, false] := by
  have hheader : isHeader line = false := by
    rw [Bool.eq_false_iff]
    intro hheader
    rw [directiveOf_header hheader] at h
    cases h
  have hinner : isInner line = true := by
    by_contra hcloser
    rcases closer_cases hcloser with rfl | rfl <;> cases h
  unfold forms isExactHeader
  rw [h, hheader, hinner]
  rfl

theorem forms_header {line : Str} (h : isExactHeader line = true) :
    forms line = [false, true, false] := by
  have hheader : isHeader line = true := (Bool.and_eq_true_iff.mp h).1
  have hinner : isInner line = true := by
    by_contra hcloser
    rcases closer_cases hcloser with rfl | rfl <;> cases hheader
  unfold forms
  rw [directiveOf_header hheader, h, hinner]
  rfl

theorem forms_closer {line : Str} (h : ¬ isInner line = true) : forms line = [false, false, true] := by
  rcases closer_cases h with rfl | rfl <;> rfl

/-- Of a header that is a line of one form, the form is that of a header. -/
theorem isExactHeader_of_forms {line : Str} (hheader : isHeader line = true)
    (h : (forms line).count true = 1) : isExactHeader line = true := by
  have hinner : isInner line = true := by
    by_contra hcloser
    rcases closer_cases hcloser with rfl | rfl <;> cases hheader
  unfold forms at h
  rw [directiveOf_header hheader, hinner] at h
  cases hexact : isExactHeader line with
  | true => rfl
  | false =>
    rw [hexact] at h
    cases h

theorem isExactHeader_iff {line : Str} (hheader : isHeader line = true)
    (hname : nameOf line = "security".toList ∨ nameOf line = "cache".toList) :
    isExactHeader line = true ↔ splitWhitespace line = [nameOf line, "\x7b".toList] := by
  unfold nameOf at hname ⊢
  unfold isExactHeader
  rw [hheader, Bool.true_and]
  generalize splitWhitespace line = tokens at hname ⊢
  match tokens with
  | [] => rcases hname with hname | hname <;> exact absurd hname (by decide)
  | [keyword] => exact ⟨fun h => (by cases h), fun h => (by cases h)⟩
  | [keyword, brace] =>
    rw [decide_eq_true_iff, List.headD_cons]
    exact ⟨fun h => by rw [h.2], fun h => ⟨hname, (List.cons.inj (List.cons.inj h).2).1⟩⟩
  | [keyword, endpoint, brace] =>
    refine ⟨fun h => ?_, fun h => by cases h⟩
    have hroute : keyword = "route".toList := (of_decide_eq_true h).1
    rw [List.headD_cons, hroute] at hname
    rcases hname with hname | hname <;> exact absurd hname (by decide)
  | _ :: _ :: _ :: _ :: _ => exact ⟨fun h => (by cases h), fun h => (by cases h)⟩

theorem isExactHeader_route {line endpoint : Str} (hheader : isHeader line = true)
    (h : splitWhitespace line = ["route".toList, endpoint, "\x7b".toList]) :
    isExactHeader line = true := by
  unfold isExactHeader
  rw [hheader, h]
  rfl

end Lines

section Shown

def RouteSetting.Shown (v : RouteSetting) (route : Route) : Prop :=
  match v with
  | .upstream endpoint => route.forwardEndpoint = endpoint
  | .auth on => route.authRequired = on
  | .cert path => route.certPath = some path
  | .key path => route.keyPath = some path
  | .cache on => route.cache = some on
  | .interceptErrors on => route.interceptErrors = some on

def SecuritySetting.Shown (v : SecuritySetting) (config : SecurityConfig) : Prop :=
  match v with
  | .proxyProtocol on => config.proxyProtocol = on
  | .trustedUpstream ip => config.trustedUpstream = ip
  | .timeout ms => config.timeoutMs = ms
  | .maxTlsFailures n => config.maxTlsFailures = n
  | .banDuration sec => config.banDurationSec = sec
  | .rateLimit rpm => config.rateLimitRpm = rpm
  | .forwardAuth url => config.forwardAuth = some url
  | .maxBodySize bytes => config.maxBodySize = bytes
  | .maxHeaderSize bytes => config.maxHeaderSize = bytes

def CacheSetting.Shown (v : CacheSetting) (config : CacheConfig) : Prop :=
  match v with
  | .enabled on => config.enabled = on
  | .maxCapacity bytes => config.maxCapacityBytes = bytes
  | .maxFileSize bytes => config.maxFileSizeBytes = bytes
  | .defaultTtl sec => config.defaultTtlSec = sec

def Entry.Shown (v : Entry) (config : Config) : Prop :=
  match v with
  | .listen port => config.listenPort = port
  | .logfile path => config.logfile = some path
  | .interceptErrors on => config.interceptErrors = some on
  | .workers n => config.workers = n
  | .route r => r ∈ config.routes
  | .security block => config.security = some block
  | .cache block => config.cache = some block

/-- Every value that an item writes is the value of a field. -/
def Item.Shown (config : Config) : Item → Prop
  | .line text => ∃ entry, readLine lineEntry text = some entry ∧ entry.Shown config
  | .block header body _ =>
    (∃ route ∈ config.routes,
        splitWhitespace header = ["route".toList, route.requestEndpoint, "\x7b".toList] ∧
        ∀ line ∈ body, ∃ setting, readLine routeSetting line = some setting ∧ setting.Shown route) ∨
      (nameOf header = "security".toList ∧ ∃ security, config.security = some security ∧
        ∀ line ∈ body, ∃ setting, readLine securitySetting line = some setting ∧
          setting.Shown security) ∨
      (nameOf header = "cache".toList ∧ ∃ cache, config.cache = some cache ∧
        ∀ line ∈ body, ∃ setting, readLine cacheSetting line = some setting ∧ setting.Shown cache)

/-- Every line has one of the three forms, no directive is written twice, and what is
written is in the configuration. -/
structure NothingIgnored (lines : List Str) (config : Config) : Prop where
  one_form : ∀ line ∈ lines, (forms line).count true = 1
  once_at_top : (((itemsOf lines).map fun item => nameOf item.head).filter
    (· ≠ "route".toList)).Nodup
  once_in_blocks : ∀ item ∈ itemsOf lines, item.Once
  shown : ∀ item ∈ itemsOf lines, item.Shown config

end Shown

section Strict

/-- The directives that a block refuses to take twice. -/
def refusesTwice (keyword name : Str) : Bool :=
  keyword = "security".toList ∨
    keyword = "route".toList ∧ (name = "cert".toList ∨ name = "key".toList)

/-- Nothing but the brace after `security` and `cache`, and once each directive that is
taken twice. -/
def Item.Strict : Item → Prop
  | .line _ => True
  | .block header body _ =>
    (nameOf header ≠ "route".toList → splitWhitespace header = [nameOf header, "\x7b".toList]) ∧
      ((body.map fun line => canonical (nameOf header) (nameOf line)).filter
        (!refusesTwice (nameOf header) ·)).Nodup

instance Item.decidableStrict : DecidablePred Item.Strict
  | .line _ => inferInstanceAs (Decidable True)
  | .block _ _ _ => inferInstanceAs (Decidable ((_ → _) ∧ List.Nodup _))

end Strict

section Held

/-- What a setting writes, in the fields of its block. -/
def RouteSetting.Held (v : RouteSetting) (fields : RouteFields) : Prop :=
  match v with
  | .upstream endpoint => fields.forwardEndpoint = some endpoint
  | .auth on => fields.authRequired = on
  | .cert path => fields.certPath = some path
  | .key path => fields.keyPath = some path
  | .cache on => fields.cache = some on
  | .interceptErrors on => fields.interceptErrors = some on

def SecuritySetting.Held (v : SecuritySetting) (fields : SecurityFields) : Prop :=
  match v with
  | .proxyProtocol on => fields.proxyProtocol = some on
  | .trustedUpstream ip => fields.trustedUpstream = some ip
  | .timeout ms => fields.timeoutMs = some ms
  | .maxTlsFailures n => fields.maxTlsFailures = some n
  | .banDuration sec => fields.banDurationSec = some sec
  | .rateLimit rpm => fields.rateLimitRpm = some rpm
  | .forwardAuth url => fields.forwardAuth = some url
  | .maxBodySize bytes => fields.maxBodySize = some bytes
  | .maxHeaderSize bytes => fields.maxHeaderSize = some bytes

def Entry.Held (v : Entry) (items : Items) : Prop :=
  match v with
  | .listen port => items.listenPort = port
  | .logfile path => items.logfile = some path
  | .interceptErrors on => items.interceptErrors = some on
  | .workers n => items.workers = some n
  | .route r => r ∈ items.routes
  | .security block => items.security = some block
  | .cache block => items.cache = some block

theorem RouteSetting.held_set (v : RouteSetting) (fields : RouteFields) :
    v.Held (v.set fields) := by
  cases v <;> rfl

theorem RouteSetting.held_keep {v w : RouteSetting} {fields : RouteFields} (hne : v.name ≠ w.name)
    (h : v.Held fields) : v.Held (w.set fields) := by
  cases v <;> cases w <;> first
    | exact h
    | exact absurd rfl hne

theorem SecuritySetting.held_set (v : SecuritySetting) (fields : SecurityFields) :
    v.Held (v.set fields) := by
  cases v <;> rfl

theorem SecuritySetting.held_keep {v w : SecuritySetting} {fields : SecurityFields}
    (hne : v.name ≠ w.name) (h : v.Held fields) : v.Held (w.set fields) := by
  cases v <;> cases w <;> first
    | exact h
    | exact absurd rfl hne

theorem CacheSetting.shown_set (v : CacheSetting) (config : CacheConfig) :
    v.Shown (v.set config) := by
  cases v <;> rfl

theorem CacheSetting.shown_keep {v w : CacheSetting} {config : CacheConfig} (hne : v.name ≠ w.name)
    (h : v.Shown config) : v.Shown (w.set config) := by
  cases v <;> cases w <;> first
    | exact h
    | exact absurd rfl hne

theorem Entry.held_set (v : Entry) (items : Items) : v.Held (v.set items) := by
  cases v <;> first
    | rfl
    | exact List.mem_append_right _ (List.mem_singleton_self _)

theorem Entry.held_keep {v w : Entry} {items : Items} (hne : v.place ≠ w.place)
    (h : v.Held items) : v.Held (w.set items) := by
  cases v <;> cases w <;> first
    | exact h
    | exact absurd rfl hne
    | exact List.mem_append_left _ h

end Held

section Once

/-- Names of which the guarded ones come once anyway. -/
theorem nodup_of_guarded {ι : Type} {name : ι → Str} {guarded : Str → Bool} {settings : List ι}
    (hguarded : settings.Pairwise fun v w => guarded (name w) = true → name v ≠ name w)
    (hrest : ((settings.map name).filter (!guarded ·)).Nodup) : (settings.map name).Nodup := by
  have hpairs := List.pairwise_map.mp (List.pairwise_filter.mp hrest)
  refine List.pairwise_map.mpr ((hguarded.and hpairs).imp ?_)
  rintro v w ⟨hguard, hfree⟩ heq
  cases hw : guarded (name w) with
  | true => exact hguard hw heq
  | false => exact hfree (by rw [heq, hw]; rfl) (by rw [hw]; rfl) heq

theorem RouteSetting.taken_of_name {v w : RouteSetting} (h : v.name = w.name)
    (hguarded : refusesTwice "route".toList w.name = true) (fields : RouteFields) :
    w.taken (v.set fields) = true := by
  cases w <;> first
    | exact absurd hguarded Bool.false_ne_true
    | cases v <;> first
      | rfl
      | exact absurd h (of_decide_eq_false rfl)

theorem RouteSetting.taken_set {w : RouteSetting} {fields : RouteFields}
    (h : w.taken fields = true) (v : RouteSetting) : w.taken (v.set fields) = true := by
  cases v <;> cases w <;> first
    | rfl
    | exact h

theorem SecuritySetting.taken_of_name {v w : SecuritySetting} (h : v.name = w.name)
    (fields : SecurityFields) : w.taken (v.set fields) = true := by
  cases v <;> cases w <;> first
    | rfl
    | exact absurd h (of_decide_eq_false rfl)

theorem SecuritySetting.taken_set {w : SecuritySetting} {fields : SecurityFields}
    (h : w.taken fields = true) (v : SecuritySetting) : w.taken (v.set fields) = true := by
  cases v <;> cases w <;> first
    | rfl
    | exact h

theorem Item.Strict.once {item : Item} {entry : Entry} (hread : item.read = some entry)
    (hstrict : item.Strict) : item.Once := by
  rcases read_cases hread with ⟨text, _, rfl, -, -⟩ | ⟨header, body, closer, rfl, hentry⟩
  · exact True.intro
  have hrest := hstrict.2
  change (body.map fun line => canonical (nameOf header) (nameOf line)).Nodup
  rcases blockEntry_cases hentry with ⟨_, _, hname, -, hblock, -⟩ | ⟨_, hname, hblock, -⟩ |
    ⟨_, hname, hblock, -⟩
  · obtain ⟨settings, _, hsettings, hwrite, -⟩ := routeBlock_eq_some hblock
    rw [hname, settings_names (fun h => (routeSetting_name h).1) hsettings] at hrest ⊢
    refine nodup_of_guarded (pairwise_of_foldlM (fun v w s h hguarded => ?_)
      (fun v w s h => RouteSetting.taken_set h v) hwrite) hrest
    exact RouteSetting.taken_of_name h hguarded s
  · obtain ⟨settings, _, hsettings, hwrite, -⟩ := securityBlock_eq_some hblock
    rw [hname, settings_names (fun h => (securitySetting_name h).1) hsettings] at hrest ⊢
    refine nodup_of_guarded (pairwise_of_foldlM (fun v w s h _ => ?_)
      (fun v w s h => SecuritySetting.taken_set h v) hwrite) hrest
    exact SecuritySetting.taken_of_name h s
  · obtain ⟨settings, hsettings, -⟩ := applyLine_eq_some_iff.mp hblock
    rw [hname, settings_names (fun h => (cacheSetting_name h).1) hsettings] at hrest ⊢
    exact nodup_of_guarded (List.pairwise_of_forall fun v w h => absurd h Bool.false_ne_true) hrest

end Once

section Written

theorem RouteSetting.Held.shown {requestEndpoint : Str} {fields : RouteFields} {route : Route}
    (hfinish : finishRoute requestEndpoint fields = .ok route) {v : RouteSetting}
    (h : v.Held fields) : v.Shown route := by
  obtain ⟨hforward, heq, -⟩ := finishRoute_ok hfinish
  rw [heq]
  cases v with
  | upstream endpoint => exact Option.some.inj (hforward.symm.trans h)
  | auth _ | cert _ | key _ | cache _ | interceptErrors _ => exact h

theorem SecuritySetting.Held.shown {fields : SecurityFields} {config : SecurityConfig}
    (hfinish : finishSecurity fields = .ok config) {v : SecuritySetting} (h : v.Held fields) :
    v.Shown config := by
  obtain ⟨-, rfl⟩ := finishSecurity_ok hfinish
  have hgetD : ∀ {α : Type} {x : Option α} {a d : α}, x = some a → x.getD d = a := by
    rintro _ _ _ _ rfl
    rfl
  cases v with
  | forwardAuth url => exact h
  | proxyProtocol _ | trustedUpstream _ | timeout _ | maxTlsFailures _ | banDuration _
  | rateLimit _ | maxBodySize _ | maxHeaderSize _ => exact hgetD h

theorem Entry.Held.shown {availableParallelism : Option ℕ} {items : Items} {config : Config}
    (hfinish : finishConfig availableParallelism items = .ok config) {v : Entry}
    (h : v.Held items) : v.Shown config := by
  obtain ⟨-, -, -, rfl⟩ := finishConfig_ok hfinish
  cases v with
  | workers n =>
    change items.workers.getD _ = n
    rw [show items.workers = some n from h]
    rfl
  | listen _ | logfile _ | interceptErrors _ | route _ | security _ | cache _ => exact h

theorem lines_shown {ι : Type} {setting : Str → Str → Option ι} {P : ι → Prop} {body : List Str}
    {settings : List ι} (hsettings : body.map (readLine setting) = settings.map some)
    (h : ∀ v ∈ settings, P v) : ∀ line ∈ body, ∃ v, readLine setting line = some v ∧ P v := by
  intro line hline
  obtain ⟨v, hv, hread⟩ := exists_setting hsettings hline
  exact ⟨v, hread, h v hv⟩

/-- In a block without repetition every line shows in what the block says. -/
theorem Item.Once.shown {config : Config} {item : Item} {entry : Entry}
    (hread : item.read = some entry) (hentry : entry.Shown config) (honce : item.Once) :
    item.Shown config := by
  rcases read_cases hread with ⟨text, _, rfl, -, -⟩ | ⟨header, body, closer, rfl, hblock⟩
  · exact ⟨entry, hread, hentry⟩
  have hnames : (body.map fun line => canonical (nameOf header) (nameOf line)).Nodup := honce
  rcases blockEntry_cases hblock with ⟨endpoint, route, hname, hheader, hroute, rfl⟩ |
    ⟨security, hname, hsecurity, rfl⟩ | ⟨cache, hname, hcache, rfl⟩
  · obtain ⟨settings, fields, hsettings, hwrite, hfinish⟩ := routeBlock_eq_some hroute
    rw [hname, settings_names (fun h => (routeSetting_name h).1) hsettings] at hnames
    have hheld := shows_of_foldlM RouteSetting.held_set
      (fun v w s hne h => RouteSetting.held_keep hne h) hnames hwrite
    refine .inl ⟨route, hentry, ?_, lines_shown hsettings fun v hv => (hheld v hv).shown hfinish⟩
    rw [routeBlock_requestEndpoint hroute]
    exact (parseRouteBlockHeader_ok hheader).1
  · obtain ⟨settings, fields, hsettings, hwrite, hfinish⟩ := securityBlock_eq_some hsecurity
    rw [hname, settings_names (fun h => (securitySetting_name h).1) hsettings] at hnames
    have hheld := shows_of_foldlM SecuritySetting.held_set
      (fun v w s hne h => SecuritySetting.held_keep hne h) hnames hwrite
    exact .inr (.inl ⟨hname, security, hentry,
      lines_shown hsettings fun v hv => (hheld v hv).shown hfinish⟩)
  · obtain ⟨settings, hsettings, hwrite⟩ := applyLine_eq_some_iff.mp hcache
    rw [hname, settings_names (fun h => (cacheSetting_name h).1) hsettings] at hnames
    have hshown := shows_of_foldlM CacheSetting.shown_set
      (fun v w s hne h => CacheSetting.shown_keep hne h) hnames hwrite
    exact .inr (.inr ⟨hname, cache, hentry, lines_shown hsettings hshown⟩)

theorem one_form_of_strict {item : Item} {entry : Entry} (hread : item.read = some entry)
    (hshaped : item.Shaped) (hstrict : item.Strict) :
    ∀ line ∈ item.lines, (forms line).count true = 1 := by
  rcases read_cases hread with ⟨text, value, rfl, hdirective, -⟩ |
    ⟨header, body, closer, rfl, hentry⟩
  · intro line hline
    rw [List.mem_singleton.mp hline, forms_directive hdirective]
    rfl
  have hheader : isExactHeader header = true := by
    rcases blockEntry_cases hentry with ⟨_, _, -, hroute, -, -⟩ | ⟨_, hname, -, -⟩ | ⟨_, hname, -, -⟩
    · exact isExactHeader_route hshaped.1 (parseRouteBlockHeader_ok hroute).1
    · exact (isExactHeader_iff hshaped.1 (.inl hname)).mpr
        (hstrict.1 (by rw [hname]; decide))
    · exact (isExactHeader_iff hshaped.1 (.inr hname)).mpr
        (hstrict.1 (by rw [hname]; decide))
  intro line hline
  rcases List.mem_append.mp hline with hline | hline
  · rcases List.mem_cons.mp hline with rfl | hline
    · rw [forms_header hheader]
      rfl
    · obtain ⟨value, hdirective, -⟩ := inner_directive hentry hline
      rw [forms_directive hdirective]
      rfl
  · rw [forms_closer (hshaped.2.2 line (Option.mem_toList.mp hline))]
    rfl

theorem keyword_inj {p q : Place} (hp : p.keyword ≠ "route".toList)
    (h : p.keyword = q.keyword) : p = q := by
  cases p <;> cases q <;> first
    | rfl
    | exact absurd h (of_decide_eq_false rfl)
    | exact absurd rfl hp

theorem keywords_nodup {lines : List Str} {entries : List Entry} {items : Items}
    (hread : (itemsOf lines).map Item.read = entries.map some)
    (hwrite : entries.foldlM (write Entry.taken Entry.set) .initial = some items) :
    (((itemsOf lines).map fun item => nameOf item.head).filter (· ≠ "route".toList)).Nodup := by
  have hkeywords : ((itemsOf lines).map fun item => nameOf item.head) =
      (entries.map Entry.place).map Place.keyword := by
    rw [List.map_map]
    exact map_of_read hread fun item _ entry hentry => read_keyword hentry
  rw [hkeywords, List.filter_map]
  refine ((places_nodup hwrite).filter _).map_on fun p hp q _ heq => ?_
  exact keyword_inj (of_decide_eq_true (List.mem_filter.mp hp).2) heq

variable [CaseMapping]

theorem nothingIgnored_iff {availableParallelism : Option ℕ} {input : Str} {config : Config}
    (h : parseProxyConfig availableParallelism input = .ok config) :
    NothingIgnored (configLines input) config ↔
      ∀ item ∈ itemsOf (configLines input), item.Strict := by
  obtain ⟨items, entries, hread, hwrite, hfinish⟩ := parse_entries h
  constructor
  · intro hnothing item hitem
    obtain ⟨entry, -, hentry⟩ := exists_setting hread hitem
    cases item with
    | line text => exact True.intro
    | block header body closer =>
      refine ⟨fun hroute => ?_, (hnothing.once_in_blocks _ hitem).filter _⟩
      have hheader : isHeader header = true := (itemsOf_shaped _ hitem).1
      have hexact := isExactHeader_of_forms hheader
        (hnothing.one_form header (mem_lines hitem (.head _)))
      refine (isExactHeader_iff hheader ?_).mp hexact
      obtain ⟨_, -, hblock⟩ := Option.bind_eq_some_iff.mp hentry
      rcases blockEntry_cases hblock with ⟨_, _, hname, -⟩ | ⟨_, hname, -⟩ | ⟨_, hname, -⟩
      · exact absurd hname hroute
      · exact .inl hname
      · exact .inr hname
  · intro hstrict
    have hheld := shows_of_foldlM Entry.held_set (fun v w s hne h => Entry.held_keep hne h)
      (places_nodup hwrite) hwrite
    refine ⟨fun line hline => ?_, keywords_nodup hread hwrite, fun item hitem => ?_,
      fun item hitem => ?_⟩
    · rw [← itemsOf_lines (configLines input)] at hline
      obtain ⟨item, hitem, hline⟩ := List.mem_flatMap.mp hline
      obtain ⟨entry, -, hentry⟩ := exists_setting hread hitem
      exact one_form_of_strict hentry (itemsOf_shaped item hitem) (hstrict item hitem) line hline
    · obtain ⟨entry, -, hentry⟩ := exists_setting hread hitem
      exact (hstrict item hitem).once hentry
    · obtain ⟨entry, hmem, hentry⟩ := exists_setting hread hitem
      exact ((hstrict item hitem).once hentry).shown hentry ((hheld entry hmem).shown hfinish)

end Written

section Example
open ListCrates

def tidyText : Str :=
  "listen 80;\nroute / \x7b\nforward b:1;\ncache off;\n\x7d\ncache \x7b\nttl 60;\nmax_file_size_mb 1;\n\x7d\nworkers 2;".toList

def tidySite : Config :=
  { listenPort := 80
    routes := [⟨"/".toList, "b:1".toList, false, none, none, some false, none⟩]
    workers := 2
    logfile := none
    security := none
    cache := some ⟨true, 64 * 1024 * 1024, 1024 * 1024, 60⟩
    interceptErrors := none }

theorem tidySite_nothingIgnored :
    parseProxyConfig none tidyText = .ok tidySite ∧ NothingIgnored (configLines tidyText) tidySite := by
  have hparse : parseProxyConfig none tidyText = .ok tidySite :=
    toOption_eq_some_iff.mp (by decide +kernel)
  exact ⟨hparse, (nothingIgnored_iff hparse).mpr (by decide +kernel)⟩

def looseHeader : Str :=
  "listen 80;\nroute / \x7b\nupstream b:1;\n\x7d\ncache off \x7b\n\x7d".toList

def authTwice : Str :=
  "listen 80;\nroute / \x7b\nupstream b:1;\nauth on;\nauth off;\n\x7d".toList

def openSite : Config :=
  { listenPort := 80
    routes := [⟨"/".toList, "b:1".toList, false, none, none, none, none⟩]
    workers := 1
    logfile := none
    security := none
    cache := none
    interceptErrors := none }

/-- The `off` of a header is dropped, and so is the `on` of a repeated directive. -/
theorem written_value_ignored :
    (parseProxyConfig none looseHeader = .ok { openSite with cache := some defaultCacheConfig } ∧
      ¬ NothingIgnored (configLines looseHeader)
        { openSite with cache := some defaultCacheConfig }) ∧
      parseProxyConfig none authTwice = .ok openSite ∧
        ¬ NothingIgnored (configLines authTwice) openSite := by
  refine ⟨⟨toOption_eq_some_iff.mp (by decide +kernel), fun h => ?_⟩,
    toOption_eq_some_iff.mp (by decide +kernel), fun h => ?_⟩
  · exact absurd (h.one_form "cache off \x7b".toList (by decide +kernel)) (by decide +kernel)
  · exact absurd h.once_in_blocks (by decide +kernel)

end Example

end BarebonesProxy.ConfigParser
