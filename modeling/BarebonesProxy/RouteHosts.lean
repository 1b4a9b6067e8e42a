import BarebonesProxy.ConfigParser
import BarebonesProxy.Routing
import Mathlib.Algebra.Order.BigOperators.Group.List
import Mathlib.Algebra.Order.Ring.Nat

set_option autoImplicit false

/-!
# Hosts and the routes they reach

A route is chosen by a prefix test on host and path written together. The end of the host
leaves no mark in that text, so a host may go on past the authority of an endpoint, or
stop short of it.
-/
namespace BarebonesProxy.Routing
open RustStrings ProxyConfig

section Endpoints

/-- The text between the scheme and the next slash or the end. -/
def authority (endpoint : Str) : Str := splitFirst (withoutScheme endpoint) '/'

/-- What follows the authority: nothing, or a path. -/
def pathPart (endpoint : Str) : Str := (withoutScheme endpoint).dropWhile (· != '/')

def HasScheme (endpoint : Str) : Prop :=
  "http://".toList <+: endpoint ∨ "https://".toList <+: endpoint

theorem authority_append_pathPart (endpoint : Str) :
    authority endpoint ++ pathPart endpoint = withoutScheme endpoint :=
  List.takeWhile_append_dropWhile

theorem slash_not_mem_authority (endpoint : Str) : '/' ∉ authority endpoint := by
  intro hmem
  have hslash := List.mem_takeWhile_imp hmem
  simp at hslash

theorem pathPart_cases (endpoint : Str) :
    pathPart endpoint = [] ∨ ∃ rest, pathPart endpoint = '/' :: rest := by
  unfold pathPart
  induction withoutScheme endpoint with
  | nil => exact .inl rfl
  | cons c s ih =>
    by_cases hc : c = '/'
    · exact .inr ⟨s, by simp [hc]⟩
    · rw [List.dropWhile_cons_of_pos (by simpa using hc)]
      exact ih

theorem extractPath_eq (endpoint : Str) :
    extractPath endpoint = if pathPart endpoint = [] then "/".toList else pathPart endpoint := by
  unfold extractPath pathPart
  simp only [List.isEmpty_iff]

end Endpoints

section Covering
variable {route : Route} {host path : Str}

theorem withoutScheme_http (rest : Str) : withoutScheme ("http://".toList ++ rest) = rest := by
  simp [withoutScheme, stripPrefix, startsWith]

theorem withoutScheme_https (rest : Str) : withoutScheme ("https://".toList ++ rest) = rest := by
  simp [withoutScheme, stripPrefix, startsWith]

/-- With a scheme, an endpoint covers a request if what follows the scheme is a prefix of
host and path. -/
theorem covers_iff (h : HasScheme route.requestEndpoint) :
    covers route host path = true ↔
      authority route.requestEndpoint ++ pathPart route.requestEndpoint <+: host ++ path := by
  rw [authority_append_pathPart]
  unfold covers startsWith
  rw [Bool.or_eq_true, List.isPrefixOf_iff_prefix, List.isPrefixOf_iff_prefix]
  rcases h with ⟨rest, hrest⟩ | ⟨rest, hrest⟩
  · rw [← hrest, withoutScheme_http]
    simp [List.cons_prefix_cons]
  · rw [← hrest, withoutScheme_https]
    simp [List.cons_prefix_cons]

/-- The endpoint is a prefix of host and path, but the host ends elsewhere than the
authority: after it, or inside it with the path supplying the rest. -/
def Overhangs (endpoint host path : Str) : Prop :=
  (∃ more, more ≠ [] ∧ host = authority endpoint ++ more ∧ pathPart endpoint <+: more ++ path) ∨
    ∃ missing, missing ≠ [] ∧ authority endpoint = host ++ missing ∧
      missing ++ pathPart endpoint <+: path

theorem covers_cases (h : HasScheme route.requestEndpoint) :
    covers route host path = true ↔
      (host = authority route.requestEndpoint ∧ pathPart route.requestEndpoint <+: path) ∨
        Overhangs route.requestEndpoint host path := by
  rw [covers_iff h]
  constructor
  · rintro ⟨rest, hrest⟩
    rw [List.append_assoc] at hrest
    rcases List.append_eq_append_iff.mp hrest with ⟨more, hhost, hpath⟩ | ⟨missing, hhost, hpath⟩
    · cases more with
      | nil =>
        rw [List.append_nil] at hhost
        exact .inl ⟨hhost, ⟨rest, by simpa using hpath⟩⟩
      | cons c more => exact .inr (.inl ⟨c :: more, by simp, hhost, ⟨rest, hpath⟩⟩)
    · cases missing with
      | nil =>
        rw [List.append_nil] at hhost
        exact .inl ⟨hhost.symm, ⟨rest, by simpa using hpath.symm⟩⟩
      | cons c missing =>
        refine .inr (.inr ⟨c :: missing, by simp, hhost, ⟨rest, ?_⟩⟩)
        rw [List.append_assoc]
        exact hpath.symm
  · rintro (⟨rfl, hpath⟩ | ⟨more, -, rfl, hpath⟩ | ⟨missing, -, hhost, hpath⟩)
    · exact (List.prefix_append_right_inj _).mpr hpath
    · rw [List.append_assoc]
      exact (List.prefix_append_right_inj _).mpr hpath
    · rw [hhost, List.append_assoc]
      exact (List.prefix_append_right_inj _).mpr hpath

theorem Overhangs.ne {endpoint : Str} (h : Overhangs endpoint host path) :
    host ≠ authority endpoint := by
  rcases h with ⟨more, hmore, rfl, -⟩ | ⟨missing, hmissing, hhost, -⟩
  · simpa using hmore
  · rw [hhost]
    simpa using hmissing

/-- The part of the authority that a host lacks does not start an absolute path. -/
theorem not_starts_with_missing {endpoint missing rest : Str}
    (heq : authority endpoint = host ++ missing) (hmissing : missing ≠ [])
    (hpath : "/".toList <+: path) : ¬ missing ++ rest <+: path := by
  intro hrest
  obtain ⟨c, missing, rfl⟩ := List.exists_cons_of_ne_nil hmissing
  obtain ⟨tail, rfl⟩ := hpath
  have hc : c = '/' := (List.cons_prefix_cons.mp hrest).1
  have hmem : '/' ∈ authority endpoint := by
    rw [heq, hc]
    exact List.mem_append_right _ (.head _)
  exact slash_not_mem_authority endpoint hmem

/-- Of hosts without a slash and paths that start with one, only an endpoint without a path
lets a host overhang, and it lets every longer one. -/
theorem overhangs_iff {endpoint : Str} (hhost : '/' ∉ host) (hpath : "/".toList <+: path) :
    Overhangs endpoint host path ↔
      pathPart endpoint = [] ∧ authority endpoint <+: host ∧ host ≠ authority endpoint := by
  constructor
  · intro h
    have hne := h.ne
    rcases h with ⟨more, hmore, rfl, hrest⟩ | ⟨missing, hmissing, heq, hrest⟩
    · refine ⟨?_, List.prefix_append .., hne⟩
      rcases pathPart_cases endpoint with hnil | ⟨rest, hslash⟩
      · exact hnil
      · cases more with
        | nil => exact absurd rfl hmore
        | cons c more =>
          rw [hslash] at hrest
          have hc := (List.cons_prefix_cons.mp hrest).1
          exact absurd (List.mem_append_right _ (hc ▸ .head _)) hhost
    · exact absurd hrest (not_starts_with_missing heq hmissing hpath)
  · rintro ⟨hnil, ⟨more, rfl⟩, hne⟩
    exact .inl ⟨more, by simpa using hne, rfl, by rw [hnil]; exact List.nil_prefix⟩

end Covering

section Tables
variable {r : Router} {host path : Str}

def Router.Schemed (r : Router) : Prop := ∀ route ∈ r.routes, HasScheme route.requestEndpoint

/-- The request goes to no route, or to one with its host as authority. -/
def Router.Isolates (r : Router) (host path : Str) : Prop :=
  ∀ route, r.selected host path = some route → host = authority route.requestEndpoint

theorem selected_eq_some_iff {route : Route} :
    r.selected host path = some route ↔
      ∃ before after, r.routes = before ++ route :: after ∧ covers route host path = true ∧
        ∀ earlier ∈ before, covers earlier host path = false := by
  unfold Router.selected
  rw [List.find?_eq_some_iff_append]
  constructor
  · rintro ⟨hcovers, before, after, hsplit, hearlier⟩
    exact ⟨before, after, hsplit, hcovers, fun earlier he => by simpa using hearlier earlier he⟩
  · rintro ⟨before, after, hsplit, hcovers, hearlier⟩
    exact ⟨hcovers, before, after, hsplit, fun earlier he => by simpa using hearlier earlier he⟩

/-- A request is isolated exactly when no route that comes before all others that cover it
lets its host overhang. -/
theorem isolates_request_iff (hschemed : r.Schemed) (host path : Str) :
    r.Isolates host path ↔
      ∀ before route after, r.routes = before ++ route :: after →
        (∀ earlier ∈ before, covers earlier host path = false) →
        ¬ Overhangs route.requestEndpoint host path := by
  constructor
  · intro hisolates before route after hsplit hearlier hover
    have hscheme := hschemed route (hsplit ▸ List.mem_append_right _ (.head _))
    have hcovers := (covers_cases hscheme).mpr (.inr hover)
    have hselected := selected_eq_some_iff.mpr ⟨before, after, hsplit, hcovers, hearlier⟩
    exact hover.ne (hisolates route hselected)
  · intro h route hselected
    obtain ⟨before, after, hsplit, hcovers, hearlier⟩ := selected_eq_some_iff.mp hselected
    have hscheme := hschemed route (hsplit ▸ List.mem_append_right _ (.head _))
    rcases (covers_cases hscheme).mp hcovers with ⟨hhost, -⟩ | hover
    · exact hhost
    · exact absurd hover (h before route after hsplit hearlier)

theorem not_covers_of_longer {route : Route} (hscheme : HasScheme route.requestEndpoint)
    (hpart : pathPart route.requestEndpoint ≠ []) (hhost : '/' ∉ host)
    (hlength : (authority route.requestEndpoint).length < host.length) :
    covers route host "/".toList = false := by
  rw [Bool.eq_false_iff]
  intro hcovers
  rcases (covers_cases hscheme).mp hcovers with ⟨rfl, -⟩ | hover
  · exact absurd hlength (lt_irrefl _)
  · exact hpart ((overhangs_iff hhost List.prefix_rfl).mp hover).1

/-- A table isolates all requests with a proper host and path exactly when every endpoint of
it has a path. -/
theorem table_isolates_iff (hschemed : r.Schemed) :
    (∀ host path, '/' ∉ host → "/".toList <+: path → r.Isolates host path) ↔
      ∀ route ∈ r.routes, pathPart route.requestEndpoint ≠ [] := by
  constructor
  · intro hisolates
    by_contra hnone
    obtain ⟨route, hfirst⟩ : ∃ route, r.routes.find?
        (fun route => decide (pathPart route.requestEndpoint = [])) = some route := by
      rw [← Option.isSome_iff_exists, List.find?_isSome]
      simpa using hnone
    obtain ⟨hpart, before, after, hsplit, hbefore⟩ := List.find?_eq_some_iff_append.mp hfirst
    -- a host with the authority of that route, too long to be the one of an earlier route
    let size := (before.map fun q => (authority q.requestEndpoint).length).sum
    let host := authority route.requestEndpoint ++ List.replicate (size + 1) 'x'
    have hslash : '/' ∉ host := by
      intro hmem
      rcases List.mem_append.mp hmem with hmem | hmem
      · exact slash_not_mem_authority _ hmem
      · exact absurd (List.eq_of_mem_replicate hmem) (by decide)
    have hearlier : ∀ earlier ∈ before, covers earlier host "/".toList = false := by
      intro earlier he
      refine not_covers_of_longer (hschemed earlier (hsplit ▸ List.mem_append_left _ he))
        (by simpa using hbefore earlier he) hslash ?_
      have hle : (authority earlier.requestEndpoint).length ≤ size :=
        List.single_le_sum (by simp) _ (List.mem_map_of_mem he)
      simp only [host, List.length_append, List.length_replicate]
      omega
    have hover := (isolates_request_iff hschemed host "/".toList).mp
      (hisolates host "/".toList hslash List.prefix_rfl) before route after hsplit hearlier
    rw [overhangs_iff hslash List.prefix_rfl] at hover
    exact hover ⟨by simpa using hpart, List.prefix_append .., by simp [host]⟩
  · intro hparts host path hhost hpath
    refine (isolates_request_iff hschemed host path).mpr ?_
    intro before route after hsplit _ hover
    exact hparts route (hsplit ▸ List.mem_append_right _ (.head _))
      ((overhangs_iff hhost hpath).mp hover).1

/-- A request is isolated exactly when no route that comes before all others that cover it
lets its host overhang, and all proper requests are exactly when every endpoint has a path. -/
theorem isolates_iff (hschemed : r.Schemed) (host path : Str) :
    (r.Isolates host path ↔
      ∀ before route after, r.routes = before ++ route :: after →
        (∀ earlier ∈ before, covers earlier host path = false) →
        ¬ Overhangs route.requestEndpoint host path) ∧
    ((∀ host path, '/' ∉ host → "/".toList <+: path → r.Isolates host path) ↔
      ∀ route ∈ r.routes, pathPart route.requestEndpoint ≠ []) :=
  ⟨isolates_request_iff hschemed host path, table_isolates_iff hschemed⟩

section Example
open ListCrates

def siteText (endpoint : String) : String :=
  "listen 8080;\nroute " ++ endpoint ++ " \x7b\nupstream http://b;\n\x7d\n"

def siteRoute (endpoint : String) : Route :=
  ⟨endpoint.toList, "http://b".toList, false, none, none, none, none⟩

def siteRouter (endpoint : String) : Router := ⟨[siteRoute endpoint]⟩

theorem slashed_site_isolates :
    (siteRouter "http://example.com/").selected "example.com".toList "/".toList =
        some (siteRoute "http://example.com/") ∧
      (siteRouter "http://example.com/").Isolates "example.com".toList "/".toList := by
  have hschemed : (siteRouter "http://example.com/").Schemed := by
    intro route hroute
    rw [List.mem_singleton.mp hroute]
    exact .inl (by decide)
  refine ⟨by decide, (isolates_iff hschemed _ _).1.mpr ?_⟩
  intro before route after hsplit _
  have hroute : route ∈ (siteRouter "http://example.com/").routes := by
    rw [hsplit]
    exact List.mem_append_right _ (.head _)
  rw [List.mem_singleton.mp hroute, overhangs_iff (by decide) (by decide)]
  rintro ⟨hnil, -⟩
  exact absurd hnil (by decide)

/-- An endpoint without a path takes every host that its authority is a prefix of. -/
theorem extended_host_selected :
    (ConfigParser.parseProxyConfig (some 2) (siteText "http://example.com").toList).map
        Config.routes = .ok [siteRoute "http://example.com"] ∧
      authority (siteRoute "http://example.com").requestEndpoint = "example.com".toList ∧
      (siteRouter "http://example.com").selected "example.com.evil.org".toList "/".toList =
        some (siteRoute "http://example.com") ∧
      ¬ (siteRouter "http://example.com").Isolates "example.com.evil.org".toList "/".toList := by
  have hselected : (siteRouter "http://example.com").selected "example.com.evil.org".toList
      "/".toList = some (siteRoute "http://example.com") := by
    decide
  refine ⟨by decide +kernel, by decide, hselected, fun hisolates => ?_⟩
  exact absurd (hisolates _ hselected) (by decide)

end Example

end Tables

end BarebonesProxy.Routing
