import BarebonesProxy.ConfigEntries
import Mathlib.Data.List.Nodup
import Mathlib.Data.PNat.Defs

set_option autoImplicit false

/-!
# Accepted configurations are well formed
-/
namespace BarebonesProxy.ConfigParser
open RustStrings RustNet ProxyConfig GuardedWrites

/-- The endpoint that the header of a route block names. -/
def endpointOf (header : Str) : Str := (splitWhitespace header).getD 1 []

/-- A configuration that was read from `lines`. -/
structure WellFormed (lines : List Str) (config : Config) : Prop where
  one_listen : lines.countP (nameOf · = "listen".toList) = 1
  routes_ne_nil : config.routes ≠ []
  source_order : config.routes.map Route.requestEndpoint =
    (lines.filter (nameOf · = "route".toList)).map endpointOf
  distinct_endpoints : (config.routes.map Route.requestEndpoint).Nodup
  valid_urls : ∀ route ∈ config.routes,
    isValidUrl route.requestEndpoint = true ∧ isValidUrl route.forwardEndpoint = true
  certificates : ∀ route ∈ config.routes,
    if startsWith route.requestEndpoint "https://".toList then
      route.certPath.isSome = true ∧ route.keyPath.isSome = true
    else route.certPath = none ∧ route.keyPath = none
  workers_pos : 1 ≤ config.workers
  trusted_upstream : ∀ security, config.security = some security → security.proxyProtocol = true →
    ∃ line ∈ lines, ∃ value, directiveOf line = some ("trusted_upstream".toList, value) ∧
      IpAddr.parse value = some security.trustedUpstream
  forward_auth : (∃ route ∈ config.routes, route.authRequired = true) →
    ∃ security, config.security = some security ∧ security.forwardAuth.isSome = true

section Routes

theorem routeSetting_upstream {name value endpoint : Str}
    (h : routeSetting name value = some (.upstream endpoint)) : isValidUrl endpoint = true := by
  unfold routeSetting at h
  split_ifs at h with hname hurl
  · cases h
    exact hurl
  all_goals simp at h

theorem routeBlock_forward {requestEndpoint : Str} {body : List Str} {route : Route}
    (h : routeBlock requestEndpoint body = some route) :
    isValidUrl route.forwardEndpoint = true := by
  obtain ⟨settings, fields, hsettings, hwrite, hfinish⟩ := routeBlock_eq_some h
  have hforward := (finishRoute_ok hfinish).1
  -- every endpoint that is written was checked when its line was read
  have hvalid : ∀ endpoint, fields.forwardEndpoint = some endpoint → isValidUrl endpoint = true := by
    refine foldlM_keeps (P := fun fields : RouteFields =>
      ∀ endpoint, fields.forwardEndpoint = some endpoint → isValidUrl endpoint = true)
      (fun v hv s hs => ?_) (fun endpoint hnone => by cases hnone) hwrite
    cases v with
    | upstream written =>
      intro endpoint heq
      cases heq
      obtain ⟨line, -, hline⟩ := exists_line hsettings hv
      obtain ⟨value, -, hsetting⟩ := readLine_eq_some hline
      exact routeSetting_upstream hsetting
    | auth on => exact hs
    | cert path => exact hs
    | key path => exact hs
    | cache on => exact hs
    | interceptErrors on => exact hs
  exact hvalid _ hforward

end Routes

section Security

theorem canonical_security (name : Str) :
    canonical "security".toList name =
      if name = "rate_limit_rpm".toList then "rate_limit".toList else name := by
  have haliases : aliasesOf "security".toList = [("rate_limit_rpm", "rate_limit")] := rfl
  unfold canonical
  rw [haliases]
  by_cases hname : name = "rate_limit_rpm".toList
  · rw [if_pos hname, hname]
    rfl
  · rw [if_neg hname, List.find?_cons_of_neg fun h => hname (of_decide_eq_true h).symm]
    rfl

theorem securitySetting_trusted {name value : Str} {ip : IpAddr}
    (h : securitySetting name value = some (.trustedUpstream ip)) :
    name = "trusted_upstream".toList ∧ IpAddr.parse value = some ip := by
  have hcanonical : "trusted_upstream".toList = canonical "security".toList name :=
    (securitySetting_name h).1
  have hname : name = "trusted_upstream".toList := by
    rw [canonical_security] at hcanonical
    split_ifs at hcanonical with halias
    · exact absurd hcanonical (by decide)
    · exact hcanonical.symm
  refine ⟨hname, ?_⟩
  unfold securitySetting at h
  rw [if_neg (by rw [hname]; decide), if_pos hname] at h
  simpa using h

theorem finishSecurity_trusted {fields : SecurityFields} {security : SecurityConfig}
    (h : finishSecurity fields = .ok security) (hprotocol : security.proxyProtocol = true) :
    fields.trustedUpstream = some security.trustedUpstream := by
  obtain ⟨hrequired, rfl⟩ := finishSecurity_ok h
  obtain ⟨ip, hip⟩ := Option.isSome_iff_exists.mp (hrequired hprotocol)
  rw [hip]
  rfl

/-- With PROXY protocol on, the trusted upstream is the one that a line gives. -/
theorem securityBlock_trusted {body : List Str} {security : SecurityConfig}
    (h : securityBlock body = some security) (hprotocol : security.proxyProtocol = true) :
    ∃ line ∈ body, ∃ value, directiveOf line = some ("trusted_upstream".toList, value) ∧
      IpAddr.parse value = some security.trustedUpstream := by
  obtain ⟨settings, fields, hsettings, hwrite, hfinish⟩ := securityBlock_eq_some h
  have hstored := finishSecurity_trusted hfinish hprotocol
  have hwritten : ∀ ip, fields.trustedUpstream = some ip → .trustedUpstream ip ∈ settings := by
    refine foldlM_keeps (P := fun fields : SecurityFields =>
      ∀ ip, fields.trustedUpstream = some ip → .trustedUpstream ip ∈ settings)
      (fun v hv s hs => ?_) (fun ip hnone => by cases hnone) hwrite
    cases v with
    | trustedUpstream written =>
      intro ip heq
      cases heq
      exact hv
    | proxyProtocol _ | timeout _ | maxTlsFailures _ | banDuration _ | rateLimit _
    | forwardAuth _ | maxBodySize _ | maxHeaderSize _ => exact hs
  obtain ⟨line, hmem, hline⟩ := exists_line hsettings (hwritten _ hstored)
  obtain ⟨value, hdirective, hsetting⟩ := readLine_eq_some hline
  obtain ⟨hname, hparse⟩ := securitySetting_trusted hsetting
  exact ⟨line, hmem, value, hname ▸ hdirective, hparse⟩

end Security

section Document
variable {lines : List Str} {entries : List Entry} {items : Items}

theorem map_place (entries : List Entry) :
    (entries.flatMap fun entry => [entry.place]) = entries.map Entry.place :=
  List.flatMap_pure_eq_map Entry.place entries

theorem countP_listen (hread : (itemsOf lines).map Item.read = entries.map some) :
    lines.countP (nameOf · = "listen".toList) = (entries.map Entry.place).count .listen := by
  have hplaces : (lines.filter (nameOf · = "listen".toList)).map (fun _ => Place.listen) =
      entries.flatMap fun entry => [entry.place].filter (· == .listen) := by
    refine lines_filter_map hread (by decide) fun item entry hentry => ?_
    rw [head_filter hentry]
    cases entry <;> rfl
  have hlength := congrArg List.length hplaces
  rw [List.length_map, ← List.countP_eq_length_filter, ← List.filter_flatMap,
    map_place] at hlength
  rw [hlength, ← List.countP_eq_length_filter]
  rfl

theorem routes_source_order (hread : (itemsOf lines).map Item.read = entries.map some)
    (hwrite : entries.foldlM (write Entry.taken Entry.set) .initial = some items) :
    items.routes.map Route.requestEndpoint =
      (lines.filter (nameOf · = "route".toList)).map endpointOf := by
  have hendpoints : (lines.filter (nameOf · = "route".toList)).map endpointOf =
      entries.flatMap fun entry => entry.routes.map Route.requestEndpoint := by
    refine lines_filter_map hread (by decide) fun item entry hentry => ?_
    rw [head_filter hentry]
    cases entry with
    | route route =>
      obtain ⟨header, body, closer, rfl, endpoint, hheader, hblock⟩ := read_route hentry
      have hendpoint : endpointOf header = route.requestEndpoint := by
        unfold endpointOf
        rw [(parseRouteBlockHeader_ok hheader).1, routeBlock_requestEndpoint hblock]
        rfl
      change [endpointOf header] = [route.requestEndpoint]
      rw [hendpoint]
    | listen _ | logfile _ | interceptErrors _ | workers _ | security _ | cache _ => rfl
  rw [hendpoints, routes_eq hwrite, List.map_flatMap]

/-- The places of the routes are their request endpoints. -/
theorem endpoints_nodup
    (hwrite : entries.foldlM (write Entry.taken Entry.set) .initial = some items) :
    (items.routes.map Route.requestEndpoint).Nodup := by
  have hroutes : (items.routes.map Route.requestEndpoint).map Place.route =
      (entries.map Entry.place).filter (·.keyword = "route".toList) := by
    have hentry : ∀ entry : Entry, (entry.routes.map Route.requestEndpoint).map Place.route =
        [entry.place].filter (·.keyword = "route".toList) := by
      intro entry
      cases entry <;> rfl
    rw [routes_eq hwrite, List.map_flatMap, List.map_flatMap, ← map_place, List.filter_flatMap]
    simp only [hentry]
  have hplaces := (places_nodup hwrite).filter (·.keyword = "route".toList)
  rw [← hroutes] at hplaces
  exact hplaces.of_map _

theorem listen_mem (hwrite : entries.foldlM (write Entry.taken Entry.set) .initial = some items)
    (hlisten : items.listenFound = true) : .listen ∈ entries.map Entry.place := by
  by_contra hnone
  have hunset : items.listenFound = false := by
    refine foldlM_keeps (P := fun items : Items => items.listenFound = false)
      (fun entry hentry s hs => ?_) rfl hwrite
    cases entry with
    | listen port => exact absurd (List.mem_map_of_mem hentry) hnone
    | logfile _ | interceptErrors _ | workers _ | route _ | security _ | cache _ => exact hs
  rw [hunset] at hlisten
  cases hlisten

theorem routes_ne_nil (hwrite : entries.foldlM (write Entry.taken Entry.set) .initial = some items)
    (hroutes : items.routesFound = true) : items.routes ≠ [] := by
  refine foldlM_keeps (P := fun items : Items => items.routesFound = true → items.routes ≠ [])
    (fun entry _ s hs => ?_) (fun hfound => by cases hfound) hwrite hroutes
  cases entry with
  | route route =>
    intro _ hnil
    exact List.cons_ne_nil _ _ (List.append_eq_nil_iff.mp hnil).2
  | listen _ | logfile _ | interceptErrors _ | workers _ | security _ | cache _ => exact hs

theorem workers_pos_of_read (hread : (itemsOf lines).map Item.read = entries.map some)
    (hwrite : entries.foldlM (write Entry.taken Entry.set) .initial = some items) :
    ∀ n, items.workers = some n → 1 ≤ n := by
  refine foldlM_keeps (P := fun items : Items => ∀ n, items.workers = some n → 1 ≤ n)
    (fun entry hentry s hs => ?_) (fun n hnone => by cases hnone) hwrite
  cases entry with
  | workers written =>
    intro n heq
    cases heq
    obtain ⟨item, -, hitem⟩ := exists_line hread hentry
    exact Nat.one_le_iff_ne_zero.mpr (read_workers hitem)
  | listen _ | logfile _ | interceptErrors _ | route _ | security _ | cache _ => exact hs

theorem security_of_read (hread : (itemsOf lines).map Item.read = entries.map some)
    (hwrite : entries.foldlM (write Entry.taken Entry.set) .initial = some items) :
    ∀ security, items.security = some security →
      ∃ header body closer, .block header body closer ∈ itemsOf lines ∧
        securityBlock body = some security := by
  refine foldlM_keeps (P := fun items : Items => ∀ security, items.security = some security →
      ∃ header body closer, .block header body closer ∈ itemsOf lines ∧
        securityBlock body = some security)
    (fun entry hentry s hs => ?_) (fun security hnone => by cases hnone) hwrite
  cases entry with
  | security written =>
    intro security heq
    cases heq
    obtain ⟨item, hmem, hitem⟩ := exists_line hread hentry
    obtain ⟨header, body, closer, rfl, hblock⟩ := read_security hitem
    exact ⟨header, body, closer, hmem, hblock⟩
  | listen _ | logfile _ | interceptErrors _ | workers _ | route _ | cache _ => exact hs

variable [CaseMapping]

/-- An available parallelism is positive, as `NonZeroUsize` has it. -/
theorem parse_wellFormed {availableParallelism : Option ℕ+} {input : Str} {config : Config}
    (h : parseProxyConfig (availableParallelism.map PNat.val) input = .ok config) :
    WellFormed (configLines input) config := by
  obtain ⟨items, entries, hread, hwrite, hfinish⟩ := parse_entries h
  obtain ⟨hlisten, hroutes, hauth, rfl⟩ := finishConfig_ok hfinish
  refine ⟨?_, ?_, routes_source_order hread hwrite, endpoints_nodup hwrite, ?_, ?_, ?_, ?_, ?_⟩
  · rw [countP_listen hread]
    exact List.count_eq_one_of_mem (places_nodup hwrite) (listen_mem hwrite hlisten)
  · exact routes_ne_nil hwrite hroutes
  · intro route hmem
    obtain ⟨header, body, endpoint, hheader, hblock⟩ := route_of_read hread hwrite hmem
    rw [routeBlock_requestEndpoint hblock]
    exact ⟨(parseRouteBlockHeader_ok hheader).2, routeBlock_forward hblock⟩
  · intro route hmem
    obtain ⟨header, body, endpoint, -, hblock⟩ := route_of_read hread hwrite hmem
    obtain ⟨_, _, -, -, hfinish⟩ := routeBlock_eq_some hblock
    obtain ⟨-, heq, hcertificates⟩ := finishRoute_ok hfinish
    rw [heq]
    exact hcertificates
  · change 1 ≤ items.workers.getD _
    cases hworkers : items.workers with
    | some n => exact workers_pos_of_read hread hwrite n hworkers
    | none =>
      cases availableParallelism with
      | none => exact Nat.le_refl 1
      | some n => exact n.pos
  · intro security hsecurity hprotocol
    obtain ⟨header, body, closer, hitem, hblock⟩ := security_of_read hread hwrite security hsecurity
    obtain ⟨line, hline, hvalue⟩ := securityBlock_trusted hblock hprotocol
    refine ⟨line, mem_lines hitem ?_, hvalue⟩
    exact List.mem_append_left _ (List.mem_cons_of_mem _ hline)
  · rintro ⟨route, hmem, hrequired⟩
    have hforward := hauth (List.any_eq_true.mpr ⟨route, hmem, hrequired⟩)
    obtain ⟨url, hurl⟩ := Option.isSome_iff_exists.mp hforward
    obtain ⟨security, hsecurity, hfield⟩ := Option.bind_eq_some_iff.mp hurl
    exact ⟨security, hsecurity, Option.isSome_iff_exists.mpr ⟨url, hfield⟩⟩

end Document

section Example
open ListCrates

def gatehouseText : Str :=
  "listen 443;\nroute https://a/ \x7b\nupstream b:1;\nauth on;\ncert c;\nkey k;\n\x7d\nsecurity \x7b\nproxy_protocol on;\ntrusted_upstream 10.0.0.1;\nforward_auth x:2;\n\x7d".toList

def gatehouse : Config :=
  { listenPort := 443
    routes := [⟨"https://a/".toList, "b:1".toList, true, some "c".toList, some "k".toList, none, none⟩]
    workers := 1
    logfile := none
    security := some { defaultSecurityConfig with
      proxyProtocol := true
      trustedUpstream := .v4 ⟨10, 0, 0, 1⟩
      forwardAuth := some "x:2".toList }
    cache := none
    interceptErrors := none }

set_option maxRecDepth 4000 in
theorem gatehouse_accepted : parseProxyConfig none gatehouseText = .ok gatehouse := by
  unfold gatehouseText
  refine toOption_eq_some_iff.mp ?_
  exact of_chars (fun s => (parseProxyConfig none s).toOption = some gatehouse) (by decide +kernel)

theorem gatehouse_wellFormed :
    parseProxyConfig none gatehouseText = .ok gatehouse ∧
      WellFormed (configLines gatehouseText) gatehouse := by
  have hparse : parseProxyConfig ((none : Option ℕ+).map PNat.val) gatehouseText = .ok gatehouse :=
    gatehouse_accepted
  exact ⟨hparse, parse_wellFormed hparse⟩

end Example

end BarebonesProxy.ConfigParser
