import BarebonesProxy.ConfigItems

set_option autoImplicit false

/-!
# What an accepted text is made of

Every item of an accepted text says an entry, and every line of its blocks a setting. An
entry goes to a place of its own, and no place is written twice.
-/
namespace BarebonesProxy.ConfigParser
open RustStrings RustNet ProxyConfig GuardedWrites

section Shape

namespace Item

def head : Item → Str
  | .line text => text
  | .block header _ _ => header

def Shaped : Item → Prop
  | .line text => ¬ isHeader text = true
  | .block header body closer =>
    isHeader header = true ∧ (∀ line ∈ body, isInner line = true) ∧
      ∀ line ∈ closer, ¬ isInner line = true

/-- No directive occurs twice, under whichever of its names. -/
def Once : Item → Prop
  | .line _ => True
  | .block header body _ => (body.map fun line => canonical (nameOf header) (nameOf line)).Nodup

instance decidableOnce : DecidablePred Once
  | .line _ => inferInstanceAs (Decidable True)
  | .block _ _ _ => inferInstanceAs (Decidable (List.Nodup _))

end Item

theorem closer_cases {line : Str} (h : ¬ isInner line = true) :
    line = "\x7d".toList ∨ line = "\x7d;".toList := by
  by_contra hne
  exact h (decide_eq_true hne)

theorem nextItem_shaped (line : Str) (rest : List Str) : (nextItem line rest).1.Shaped := by
  unfold nextItem
  by_cases hheader : isHeader line = true
  · rw [if_pos hheader]
    refine ⟨hheader, fun inner hinner => List.mem_takeWhile_imp hinner, fun closer hcloser => ?_⟩
    have hfirst := List.head?_dropWhile_not isInner rest
    rw [Option.mem_def.mp hcloser] at hfirst
    simpa using hfirst
  · rw [if_neg hheader]
    exact hheader

theorem itemsOf_shaped {lines : List Str} : ∀ item ∈ itemsOf lines, item.Shaped := by
  induction hn : lines.length using Nat.strong_induction_on generalizing lines with
  | _ n ih =>
    cases lines with
    | nil => exact fun item hitem => absurd hitem List.not_mem_nil
    | cons line rest =>
      have hlength := nextItem_length line rest
      rw [List.length_cons] at hn
      rw [itemsOf_cons]
      exact List.forall_mem_cons.mpr ⟨nextItem_shaped line rest, ih _ (by omega) rfl⟩

theorem mem_lines {lines : List Str} {item : Item} {line : Str} (hitem : item ∈ itemsOf lines)
    (hline : line ∈ item.lines) : line ∈ lines := by
  rw [← itemsOf_lines lines]
  exact List.mem_flatMap.mpr ⟨item, hitem, hline⟩

end Shape

section Settings

/-- A block that is read: its lines say settings, which are written to its fields. -/
theorem applyLine_eq_some_iff {σ ι : Type} {setting : Str → Str → Option ι} {taken : ι → σ → Bool}
    {set : ι → σ → σ} {body : List Str} {s s' : σ} :
    body.foldlM (applyLine setting taken set) s = some s' ↔
      ∃ settings : List ι, body.map (readLine setting) = settings.map some ∧
        settings.foldlM (write taken set) s = some s' := foldlM_read_eq_some_iff

theorem exists_setting {β ι : Type} {read : β → Option ι} {l : List β} {values : List ι}
    (h : l.map read = values.map some) {a : β} (ha : a ∈ l) : ∃ v ∈ values, read a = some v := by
  have hmem : read a ∈ values.map some := h ▸ List.mem_map_of_mem ha
  obtain ⟨v, hv, heq⟩ := List.mem_map.mp hmem
  exact ⟨v, hv, heq.symm⟩

theorem exists_line {β ι : Type} {read : β → Option ι} {l : List β} {values : List ι}
    (h : l.map read = values.map some) {v : ι} (hv : v ∈ values) : ∃ a ∈ l, read a = some v := by
  have hmem : some v ∈ l.map read := h ▸ List.mem_map_of_mem hv
  obtain ⟨a, ha, heq⟩ := List.mem_map.mp hmem
  exact ⟨a, ha, heq⟩

theorem routeBlock_eq_some {requestEndpoint : Str} {body : List Str} {route : Route}
    (h : routeBlock requestEndpoint body = some route) :
    ∃ settings : List RouteSetting, ∃ fields,
      body.map (readLine routeSetting) = settings.map some ∧
      settings.foldlM (write RouteSetting.taken RouteSetting.set) .initial = some fields ∧
      finishRoute requestEndpoint fields = .ok route := by
  obtain ⟨fields, hfold, hfinish⟩ := Option.bind_eq_some_iff.mp h
  obtain ⟨settings, hsettings, hwrite⟩ := applyLine_eq_some_iff.mp hfold
  exact ⟨settings, fields, hsettings, hwrite, toOption_eq_some_iff.mp hfinish⟩

theorem securityBlock_eq_some {body : List Str} {config : SecurityConfig}
    (h : securityBlock body = some config) :
    ∃ settings : List SecuritySetting, ∃ fields,
      body.map (readLine securitySetting) = settings.map some ∧
      settings.foldlM (write SecuritySetting.taken SecuritySetting.set) .initial = some fields ∧
      finishSecurity fields = .ok config := by
  obtain ⟨fields, hfold, hfinish⟩ := Option.bind_eq_some_iff.mp h
  obtain ⟨settings, hsettings, hwrite⟩ := applyLine_eq_some_iff.mp hfold
  exact ⟨settings, fields, hsettings, hwrite, toOption_eq_some_iff.mp hfinish⟩

theorem map_of_read {β ι γ : Type} {read : β → Option ι} {l : List β} {values : List ι}
    (h : l.map read = values.map some) {f : β → γ} {g : ι → γ}
    (hfg : ∀ a ∈ l, ∀ v, read a = some v → f a = g v) : l.map f = values.map g := by
  induction l generalizing values with
  | nil =>
    cases values with
    | nil => rfl
    | cons v values => cases h
  | cons a l ih =>
    cases values with
    | nil => cases h
    | cons v values =>
      rw [List.map_cons, List.map_cons, List.cons.injEq] at h
      rw [List.map_cons, List.map_cons, hfg a (.head _) v h.1,
        ih h.2 fun b hb => hfg b (.tail _ hb)]

/-- The canonical names of a block's lines are the names of its settings. -/
theorem settings_names {ι : Type} {setting : Str → Str → Option ι} {name : ι → Str} {keyword : Str}
    (hname : ∀ {n value v}, setting n value = some v → name v = canonical keyword n)
    {body : List Str} {settings : List ι} (h : body.map (readLine setting) = settings.map some) :
    (body.map fun line => canonical keyword (nameOf line)) = settings.map name := by
  refine map_of_read h fun line _ v hv => ?_
  obtain ⟨value, -, hsetting⟩ := readLine_eq_some hv
  exact (hname hsetting).symm

end Settings

section Names

/-- Where an entry is written. Every request endpoint is a place of its own. -/
inductive Place where
  | listen
  | logfile
  | interceptErrors
  | workers
  | route (endpoint : Str)
  | security
  | cache
deriving DecidableEq

def Place.keyword : Place → Str
  | .listen => "listen".toList
  | .logfile => "logfile".toList
  | .interceptErrors => "intercept_errors".toList
  | .workers => "workers".toList
  | .route _ => "route".toList
  | .security => "security".toList
  | .cache => "cache".toList

def Entry.place : Entry → Place
  | .listen _ => .listen
  | .logfile _ => .logfile
  | .interceptErrors _ => .interceptErrors
  | .workers _ => .workers
  | .route r => .route r.requestEndpoint
  | .security _ => .security
  | .cache _ => .cache

/-- A line that is read has one of four names. -/
theorem lineEntry_cases {name value : Str} {entry : Entry} (h : lineEntry name value = some entry) :
    (∃ port, name = "listen".toList ∧ parseUnsigned u16Max value = some port ∧
        entry = .listen port) ∨
      (name = "logfile".toList ∧ entry = .logfile value) ∨
      (∃ on, name = "intercept_errors".toList ∧ onOff value = some on ∧
        entry = .interceptErrors on) ∨
      ∃ n, name = "workers".toList ∧ parseUnsigned usizeMax value = some n ∧ n ≠ 0 ∧
        entry = .workers n := by
  unfold lineEntry at h
  split_ifs at h with hlisten hlogfile herrors hworkers
  · obtain ⟨port, hport, rfl⟩ := Option.map_eq_some_iff.mp h
    exact .inl ⟨port, hlisten, hport, rfl⟩
  · cases h
    exact .inr (.inl ⟨hlogfile, rfl⟩)
  · obtain ⟨on, hon, rfl⟩ := Option.map_eq_some_iff.mp h
    exact .inr (.inr (.inl ⟨on, herrors, hon, rfl⟩))
  · obtain ⟨n, hn, rfl⟩ := Option.map_eq_some_iff.mp h
    obtain ⟨hparse, hpos⟩ := Option.filter_eq_some_iff.mp hn
    exact .inr (.inr (.inr ⟨n, hworkers, hparse, of_decide_eq_true hpos, rfl⟩))

/-- A block that is read has one of three headers. -/
theorem blockEntry_cases {header : Str} {body : List Str} {entry : Entry}
    (h : blockEntry header body = some entry) :
    (∃ endpoint route, nameOf header = "route".toList ∧ parseRouteBlockHeader header = .ok endpoint ∧
        routeBlock endpoint body = some route ∧ entry = .route route) ∨
      (∃ config, nameOf header = "security".toList ∧ securityBlock body = some config ∧
        entry = .security config) ∨
      ∃ config, nameOf header = "cache".toList ∧ cacheBlock body = some config ∧
        entry = .cache config := by
  unfold blockEntry at h
  split_ifs at h with hroute hsecurity hcache
  · obtain ⟨endpoint, hendpoint, hblock⟩ := Option.bind_eq_some_iff.mp h
    obtain ⟨route, hread, rfl⟩ := Option.map_eq_some_iff.mp hblock
    exact .inl ⟨endpoint, route, hroute, toOption_eq_some_iff.mp hendpoint, hread, rfl⟩
  · obtain ⟨config, hread, rfl⟩ := Option.map_eq_some_iff.mp h
    exact .inr (.inl ⟨config, hsecurity, hread, rfl⟩)
  · obtain ⟨config, hread, rfl⟩ := Option.map_eq_some_iff.mp h
    exact .inr (.inr ⟨config, hcache, hread, rfl⟩)

theorem read_cases {item : Item} {entry : Entry} (h : item.read = some entry) :
    (∃ text value, item = .line text ∧ directiveOf text = some (nameOf text, value) ∧
        lineEntry (nameOf text) value = some entry) ∨
      ∃ header body closer, item = .block header body (some closer) ∧
        blockEntry header body = some entry := by
  cases item with
  | line text =>
    obtain ⟨value, hdirective, hentry⟩ := readLine_eq_some h
    exact .inl ⟨text, value, rfl, hdirective, hentry⟩
  | block header body closer =>
    obtain ⟨last, hcloser, hentry⟩ := Option.bind_eq_some_iff.mp h
    cases hcloser
    exact .inr ⟨header, body, last, rfl, hentry⟩

theorem read_keyword {item : Item} {entry : Entry} (h : item.read = some entry) :
    nameOf item.head = entry.place.keyword := by
  rcases read_cases h with ⟨text, value, rfl, -, hentry⟩ | ⟨header, body, closer, rfl, hentry⟩
  · rcases lineEntry_cases hentry with ⟨_, hname, -, rfl⟩ | ⟨hname, rfl⟩ | ⟨_, hname, -, rfl⟩ |
      ⟨_, hname, -, -, rfl⟩ <;> exact hname
  · rcases blockEntry_cases hentry with ⟨_, _, hname, -, -, rfl⟩ | ⟨_, hname, -, rfl⟩ |
      ⟨_, hname, -, rfl⟩ <;> exact hname

theorem read_workers {item : Item} {n : ℕ} (h : item.read = some (.workers n)) : n ≠ 0 := by
  rcases read_cases h with ⟨text, value, rfl, -, hentry⟩ | ⟨header, body, closer, rfl, hentry⟩
  · rcases lineEntry_cases hentry with ⟨_, -, -, heq⟩ | ⟨-, heq⟩ | ⟨_, -, -, heq⟩ |
      ⟨_, -, -, hn, heq⟩
    all_goals cases heq
    exact hn
  · rcases blockEntry_cases hentry with ⟨_, _, -, -, -, heq⟩ | ⟨_, -, -, heq⟩ | ⟨_, -, -, heq⟩ <;>
      cases heq

theorem read_route {item : Item} {route : Route} (h : item.read = some (.route route)) :
    ∃ header body closer, item = .block header body closer ∧
      ∃ endpoint, parseRouteBlockHeader header = .ok endpoint ∧
        routeBlock endpoint body = some route := by
  rcases read_cases h with ⟨text, value, rfl, -, hentry⟩ | ⟨header, body, closer, rfl, hentry⟩
  · rcases lineEntry_cases hentry with ⟨_, -, -, heq⟩ | ⟨-, heq⟩ | ⟨_, -, -, heq⟩ |
      ⟨_, -, -, -, heq⟩ <;> cases heq
  · rcases blockEntry_cases hentry with ⟨endpoint, _, -, hheader, hblock, heq⟩ | ⟨_, -, -, heq⟩ |
      ⟨_, -, -, heq⟩
    all_goals cases heq
    exact ⟨header, body, _, rfl, endpoint, hheader, hblock⟩

theorem read_security {item : Item} {security : SecurityConfig}
    (h : item.read = some (.security security)) :
    ∃ header body closer, item = .block header body closer ∧ securityBlock body = some security := by
  rcases read_cases h with ⟨text, value, rfl, -, hentry⟩ | ⟨header, body, closer, rfl, hentry⟩
  · rcases lineEntry_cases hentry with ⟨_, -, -, heq⟩ | ⟨-, heq⟩ | ⟨_, -, -, heq⟩ |
      ⟨_, -, -, -, heq⟩ <;> cases heq
  · rcases blockEntry_cases hentry with ⟨_, _, -, -, -, heq⟩ | ⟨_, -, hblock, heq⟩ | ⟨_, -, -, heq⟩
    all_goals cases heq
    exact ⟨header, body, _, rfl, hblock⟩

/-- The keywords that only stand at top level. -/
def topOnly : List Str := ["listen".toList, "route".toList]

theorem canonical_topOnly {keyword name : Str} (hname : name ∈ topOnly) :
    canonical keyword name = name := by
  unfold canonical aliasesOf
  rcases List.mem_pair.mp hname with rfl | rfl <;> split_ifs <;> rfl

theorem RouteSetting.name_notMem (v : RouteSetting) : v.name ∉ topOnly := by
  cases v <;> exact of_decide_eq_true rfl

theorem SecuritySetting.name_notMem (v : SecuritySetting) : v.name ∉ topOnly := by
  cases v <;> exact of_decide_eq_true rfl

theorem CacheSetting.name_notMem (v : CacheSetting) : v.name ∉ topOnly := by
  cases v <;> exact of_decide_eq_true rfl

/-- The lines of a block are directive lines of the block's own. -/
theorem inner_directive {header line : Str} {body : List Str} {entry : Entry}
    (h : blockEntry header body = some entry) (hline : line ∈ body) :
    ∃ value, directiveOf line = some (nameOf line, value) ∧ nameOf line ∉ topOnly := by
  have hown : ∀ {ι : Type} {settings : List ι} {setting : Str → Str → Option ι} {name : ι → Str}
      {keyword : Str}, body.map (readLine setting) = settings.map some →
      (∀ {n value v}, setting n value = some v → name v = canonical keyword n) →
      (∀ v, name v ∉ topOnly) →
      ∃ value, directiveOf line = some (nameOf line, value) ∧ nameOf line ∉ topOnly := by
    intro ι settings setting name keyword hsettings hcanonical hname
    obtain ⟨v, -, hv⟩ := exists_setting hsettings hline
    obtain ⟨value, hdirective, hsetting⟩ := readLine_eq_some hv
    refine ⟨value, hdirective, fun hmem => hname v ?_⟩
    rw [hcanonical hsetting, canonical_topOnly hmem]
    exact hmem
  rcases blockEntry_cases h with ⟨_, _, -, -, hblock, -⟩ | ⟨_, -, hblock, -⟩ | ⟨_, -, hblock, -⟩
  · obtain ⟨settings, _, hsettings, -⟩ := routeBlock_eq_some hblock
    exact hown hsettings (fun hv => (routeSetting_name hv).1) RouteSetting.name_notMem
  · obtain ⟨settings, _, hsettings, -⟩ := securityBlock_eq_some hblock
    exact hown hsettings (fun hv => (securitySetting_name hv).1) SecuritySetting.name_notMem
  · obtain ⟨settings, hsettings, -⟩ := applyLine_eq_some_iff.mp hblock
    exact hown hsettings (fun hv => (cacheSetting_name hv).1) CacheSetting.name_notMem

theorem closer_name {line : Str} (h : ¬ isInner line = true) : nameOf line ∉ topOnly := by
  rcases closer_cases h with rfl | rfl <;> decide

/-- Under a top-level keyword an item has its first line only. -/
theorem lines_filter_head {item : Item} {entry : Entry} {keyword : Str} (hread : item.read = some entry)
    (hshaped : item.Shaped) (hkeyword : keyword ∈ topOnly) :
    item.lines.filter (nameOf · = keyword) = [item.head].filter (nameOf · = keyword) := by
  cases item with
  | line text => rfl
  | block header body closer =>
    obtain ⟨_, -, hentry⟩ := Option.bind_eq_some_iff.mp hread
    have hother : ∀ line : Str, nameOf line ∉ topOnly → ¬ decide (nameOf line = keyword) = true :=
      fun line hline hname => hline (of_decide_eq_true hname ▸ hkeyword)
    have hbody : body.filter (nameOf · = keyword) = [] := by
      rw [List.filter_eq_nil_iff]
      intro line hline
      obtain ⟨_, -, hname⟩ := inner_directive hentry hline
      exact hother line hname
    have hcloser : closer.toList.filter (nameOf · = keyword) = [] := by
      rw [List.filter_eq_nil_iff]
      exact fun line hline => hother line (closer_name (hshaped.2.2 line (Option.mem_toList.mp hline)))
    have hlines : (Item.block header body closer).lines = [header] ++ body ++ closer.toList := rfl
    rw [hlines, List.filter_append, List.filter_append, hbody, hcloser, List.append_nil,
      List.append_nil]
    rfl

theorem head_filter {item : Item} {entry : Entry} (h : item.read = some entry) (keyword : Str) :
    [item.head].filter (nameOf · = keyword) =
      if entry.place.keyword = keyword then [item.head] else [] := by
  rw [← read_keyword h]
  by_cases hname : nameOf item.head = keyword <;> simp [hname]

/-- What stands under a top-level keyword is what the entries say there. -/
theorem lines_filter_map {β : Type} {lines : List Str} {entries : List Entry} {keyword : Str}
    {f : Str → β} {g : Entry → List β}
    (hread : (itemsOf lines).map Item.read = entries.map some) (hkeyword : keyword ∈ topOnly)
    (hfg : ∀ (item : Item) (entry : Entry), item.read = some entry →
      ([item.head].filter (nameOf · = keyword)).map f = g entry) :
    (lines.filter (nameOf · = keyword)).map f = entries.flatMap g := by
  have hlines : lines.filter (nameOf · = keyword) =
      (itemsOf lines).flatMap fun item => item.lines.filter (nameOf · = keyword) := by
    rw [← List.filter_flatMap, itemsOf_lines]
  have hitems : (itemsOf lines).map
      (fun item => (item.lines.filter (nameOf · = keyword)).map f) = entries.map g := by
    refine map_of_read hread fun item hitem entry hentry => ?_
    rw [lines_filter_head hentry (itemsOf_shaped item hitem) hkeyword]
    exact hfg item entry hentry
  rw [hlines, List.map_flatMap, List.flatMap_def, hitems, ← List.flatMap_def]

theorem parseRouteBlockHeader_ok {line endpoint : Str}
    (h : parseRouteBlockHeader line = .ok endpoint) :
    splitWhitespace line = ["route".toList, endpoint, "\x7b".toList] ∧
      isValidUrl endpoint = true := by
  unfold parseRouteBlockHeader at h
  split at h
  · next keyword _ brace htokens =>
    split_ifs at h with hwords hurl
    cases h
    have hkeyword : keyword = "route".toList := by
      by_contra hne
      exact hwords (.inl hne)
    have hbrace : brace = "\x7b".toList := by
      by_contra hne
      exact hwords (.inr hne)
    rw [htokens, hkeyword, hbrace]
    exact ⟨rfl, hurl⟩
  · cases h

end Names

section Accepted

namespace Entry

def routes : Entry → List Route
  | .route r => [r]
  | _ => []

theorem taken_of_place {v w : Entry} (h : v.place = w.place) (items : Items) :
    w.taken (v.set items) = true := by
  cases v <;> cases w <;> first
    | rfl
    | cases h
    | exact List.contains_iff_mem.mpr (List.mem_cons.mpr (.inl (Place.route.inj h).symm))

theorem taken_set {w : Entry} {items : Items} (h : w.taken items = true) (v : Entry) :
    w.taken (v.set items) = true := by
  cases v <;> cases w <;> first
    | rfl
    | exact h
    | exact List.contains_iff_mem.mpr (List.mem_cons_of_mem _ (List.contains_iff_mem.mp h))

theorem routes_set (v : Entry) (items : Items) :
    (v.set items).routes = items.routes ++ v.routes := by
  cases v <;> first
    | rfl
    | exact (List.append_nil _).symm

end Entry

variable {entries : List Entry} {items : Items}

/-- No place is written twice. -/
theorem places_nodup (h : entries.foldlM (write Entry.taken Entry.set) .initial = some items) :
    (entries.map Entry.place).Nodup := by
  have hpairs : entries.Pairwise fun v w => True → v.place ≠ w.place :=
    pairwise_of_foldlM (fun v w s heq _ => Entry.taken_of_place heq s)
      (fun v w s htaken => Entry.taken_set htaken v) h
  exact List.pairwise_map.mpr (hpairs.imp fun hne => hne True.intro)

theorem routes_eq (h : entries.foldlM (write Entry.taken Entry.set) .initial = some items) :
    items.routes = entries.flatMap Entry.routes := foldlM_collects Entry.routes_set h

theorem mem_routes (h : entries.foldlM (write Entry.taken Entry.set) .initial = some items)
    {route : Route} : route ∈ items.routes ↔ .route route ∈ entries := by
  rw [routes_eq h, List.mem_flatMap]
  constructor
  · rintro ⟨entry, hentry, hroute⟩
    cases entry <;> first
      | exact absurd hroute List.not_mem_nil
      | exact List.mem_singleton.mp hroute ▸ hentry
  · exact fun hmem => ⟨.route route, hmem, List.mem_singleton_self route⟩

/-- Each route was read from a block of its own. -/
theorem route_of_read {lines : List Str}
    (hread : (itemsOf lines).map Item.read = entries.map some)
    (hwrite : entries.foldlM (write Entry.taken Entry.set) .initial = some items) {route : Route}
    (hmem : route ∈ items.routes) :
    ∃ header body endpoint, parseRouteBlockHeader header = .ok endpoint ∧
      routeBlock endpoint body = some route := by
  obtain ⟨item, -, hitem⟩ := exists_line hread ((mem_routes hwrite).mp hmem)
  obtain ⟨header, body, _, -, endpoint, hheader, hblock⟩ := read_route hitem
  exact ⟨header, body, endpoint, hheader, hblock⟩

theorem finishSecurity_ok {fields : SecurityFields} {security : SecurityConfig}
    (h : finishSecurity fields = .ok security) :
    (fields.proxyProtocol.getD false = true → fields.trustedUpstream.isSome = true) ∧
      security = ⟨fields.proxyProtocol.getD false,
        fields.trustedUpstream.getD (.v4 ⟨0, 0, 0, 0⟩), fields.timeoutMs.getD 200,
        fields.maxTlsFailures.getD 5, fields.banDurationSec.getD 3600,
        fields.rateLimitRpm.getD 300, fields.forwardAuth,
        fields.maxBodySize.getD (10 * 1024 * 1024), fields.maxHeaderSize.getD (64 * 1024)⟩ := by
  unfold finishSecurity at h
  dsimp only at h
  cases hprotocol : fields.proxyProtocol.getD false with
  | false =>
    rw [hprotocol, if_neg Bool.false_ne_true] at h
    cases h
    exact ⟨fun hon => absurd hon Bool.false_ne_true, rfl⟩
  | true =>
    rw [hprotocol, if_pos rfl] at h
    cases htrusted : fields.trustedUpstream with
    | none =>
      rw [htrusted] at h
      cases h
    | some ip =>
      rw [htrusted] at h
      cases h
      exact ⟨fun _ => rfl, rfl⟩

theorem finishConfig_ok {availableParallelism : Option ℕ} {config : Config}
    (h : finishConfig availableParallelism items = .ok config) :
    items.listenFound = true ∧ items.routesFound = true ∧
      (items.routes.any Route.authRequired = true →
        (items.security.bind (·.forwardAuth)).isSome = true) ∧
      config = ⟨items.listenPort, items.routes, items.workers.getD (availableParallelism.getD 1),
        items.logfile, items.security, items.cache, items.interceptErrors⟩ := by
  unfold finishConfig at h
  split_ifs at h with hlisten hroutes hauth
  cases h
  refine ⟨by simpa using hlisten, by simpa using hroutes, fun hany => ?_, rfl⟩
  simpa [hany, Option.isSome_iff_ne_none] using hauth

variable [CaseMapping]

theorem parse_entries {availableParallelism : Option ℕ} {input : Str} {config : Config}
    (h : parseProxyConfig availableParallelism input = .ok config) :
    ∃ items, ∃ entries : List Entry,
      (itemsOf (configLines input)).map Item.read = entries.map some ∧
      entries.foldlM (write Entry.taken Entry.set) .initial = some items ∧
      finishConfig availableParallelism items = .ok config := by
  obtain ⟨items, hfold, hfinish⟩ := parseProxyConfig_ok_iff.mp h
  obtain ⟨entries, hread, hwrite⟩ := foldlM_read_eq_some_iff.mp hfold
  exact ⟨items, entries, hread, hwrite, hfinish⟩

end Accepted

end BarebonesProxy.ConfigParser
