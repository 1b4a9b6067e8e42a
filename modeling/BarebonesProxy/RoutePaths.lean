import BarebonesProxy.DotSegments
import BarebonesProxy.RouteHosts

set_option autoImplicit false

/-!
# Rewritten paths and the forward prefix

Rewriting puts the forward path in place of the request prefix and copies the rest of the
path as it came, dot segments included. An upstream that removes them stays below the
forward path as long as the rest does not climb.
-/
namespace BarebonesProxy.Routing
open RustStrings ProxyConfig DotSegments

section Rewriting
variable {host path : Str}

/-- The part of the path that is copied. -/
def copied (route : Route) (path : Str) : Str :=
  path.drop (extractPath route.requestEndpoint).length

/-- An endpoint that is cut off inside its scheme has no path of its own. -/
theorem extractPath_of_cut {endpoint : Str} (hscheme : ¬ HasScheme endpoint)
    (hcut : endpoint <+: "http://".toList ∨ endpoint <+: "https://".toList) :
    extractPath endpoint = "/".toList := by
  have hplain : ∀ e ∈ "http://".toList.inits, "http://".toList <+: e ∨ extractPath e = "/".toList := by
    decide
  have hsecure : ∀ e ∈ "https://".toList.inits,
      "https://".toList <+: e ∨ extractPath e = "/".toList := by
    decide
  rcases hcut with hcut | hcut
  · exact (hplain endpoint ((List.mem_inits _ _).mpr hcut)).resolve_left fun h => hscheme (.inl h)
  · exact (hsecure endpoint ((List.mem_inits _ _).mpr hcut)).resolve_left fun h => hscheme (.inr h)

theorem cut_of_covers {route : Route} (hscheme : ¬ HasScheme route.requestEndpoint)
    (hcovers : covers route host path = true) :
    route.requestEndpoint <+: "http://".toList ∨ route.requestEndpoint <+: "https://".toList := by
  unfold covers startsWith at hcovers
  rw [Bool.or_eq_true, List.isPrefixOf_iff_prefix, List.isPrefixOf_iff_prefix, List.append_assoc,
    List.append_assoc] at hcovers
  rcases hcovers with hcovers | hcovers
  · rcases List.prefix_or_prefix_of_prefix hcovers (List.prefix_append _ (host ++ path)) with h | h
    · exact .inl h
    · exact absurd (.inl h) hscheme
  · rcases List.prefix_or_prefix_of_prefix hcovers (List.prefix_append _ (host ++ path)) with h | h
    · exact .inr h
    · exact absurd (.inr h) hscheme

theorem pathPart_prefix_extractPath (endpoint : Str) : pathPart endpoint <+: extractPath endpoint := by
  rw [extractPath_eq]
  split
  · next hnil =>
    rw [hnil]
    exact List.nil_prefix
  · exact List.prefix_rfl

theorem slash_prefix_extractPath (endpoint : Str) : "/".toList <+: extractPath endpoint := by
  rw [extractPath_eq]
  split
  · exact List.prefix_rfl
  · rcases pathPart_cases endpoint with hnil | ⟨rest, hslash⟩
    · contradiction
    · exact ⟨rest, hslash.symm⟩

/-- The request prefix of a covering route starts the path, if a slash does and the host
does not hold the prefix in place of the path. -/
theorem requestPath_starts_iff {route : Route} (hcovers : covers route host path = true) :
    extractPath route.requestEndpoint <+: path ↔
      "/".toList <+: path ∧
        (authority route.requestEndpoint ++ "/".toList <+: host →
          pathPart route.requestEndpoint <+: path) := by
  constructor
  · intro hstarts
    refine ⟨(slash_prefix_extractPath _).trans hstarts, fun _ => ?_⟩
    rw [extractPath_eq] at hstarts
    split at hstarts
    · next hnil =>
      rw [hnil]
      exact List.nil_prefix
    · exact hstarts
  · rintro ⟨hpath, hheld⟩
    by_cases hscheme : HasScheme route.requestEndpoint
    · rw [extractPath_eq]
      split
      · exact hpath
      · next hpart =>
        obtain ⟨rest, hslash⟩ := (pathPart_cases route.requestEndpoint).resolve_left hpart
        rcases (covers_cases hscheme).mp hcovers with
          ⟨-, hstarts⟩ | ⟨more, hmore, rfl, hstarts⟩ | ⟨missing, hmissing, heq, hstarts⟩
        · exact hstarts
        · -- the host goes on after the authority, and it can only do so with the slash
          obtain ⟨c, more, rfl⟩ := List.exists_cons_of_ne_nil hmore
          rw [hslash] at hstarts
          obtain rfl : '/' = c := (List.cons_prefix_cons.mp hstarts).1
          exact hheld ⟨more, by simp⟩
        · exact absurd hstarts (not_starts_with_missing heq hmissing hpath)
    · rw [extractPath_of_cut hscheme (cut_of_covers hscheme hcovers)]
      exact hpath

/-- With a proper host and path, the request prefix of a covering route starts the path. -/
theorem requestPath_starts {route : Route} (hhost : '/' ∉ host) (hpath : "/".toList <+: path)
    (hcovers : covers route host path = true) :
    extractPath route.requestEndpoint <+: path := by
  refine (requestPath_starts_iff hcovers).mpr ⟨hpath, fun hheld => ?_⟩
  exact absurd (hheld.subset (by simp)) hhost

theorem rewritten_eq {route : Route} (h : extractPath route.requestEndpoint <+: path) :
    rewritten route path = extractPath route.forwardEndpoint ++ copied route path := by
  unfold rewritten startsWith copied
  exact if_pos (List.isPrefixOf_iff_prefix.mpr h)

/-- A request with a proper host and path is forwarded below the forward path of its route,
also once dot segments are removed, unless the part that is copied climbs. -/
theorem path_confined (r : Router) (hhost : '/' ∉ host) (hpath : "/".toList <+: path)
    {route : Route} (hselected : r.selected host path = some route) :
    r.matchRoute host path = some (.of route path) ∧
      (MatchedRoute.of route path).rewrittenPath =
        extractPath route.forwardEndpoint ++ copied route path ∧
      (Dotless (extractPath route.forwardEndpoint) →
        StaysWithin (extractPath route.forwardEndpoint) (copied route path) →
        extractPath route.forwardEndpoint <+:
          removeDotSegments (MatchedRoute.of route path).rewrittenPath) := by
  obtain ⟨-, -, -, hcovers, -⟩ := selected_eq_some_iff.mp hselected
  have hrewritten : (MatchedRoute.of route path).rewrittenPath =
      extractPath route.forwardEndpoint ++ copied route path :=
    rewritten_eq (requestPath_starts hhost hpath hcovers)
  refine ⟨by simp [Router.matchRoute, hselected], hrewritten, fun hdotless hstays => ?_⟩
  rw [hrewritten]
  exact prefix_removeDotSegments (slash_prefix_extractPath _) hdotless hstays

end Rewriting

section Example
open ListCrates

def appText : String :=
  "listen 8080;\nroute http://a/app \x7b\nupstream http://b/app;\n\x7d\n"

def appRoute : Route :=
  ⟨"http://a/app".toList, "http://b/app".toList, false, none, none, none, none⟩

def appRouter : Router := ⟨[appRoute]⟩

theorem app_path_confined :
    (MatchedRoute.of appRoute "/app/x/../y".toList).rewrittenPath = "/app/x/../y".toList ∧
      removeDotSegments "/app/x/../y".toList = "/app/y".toList ∧
      extractPath appRoute.forwardEndpoint <+:
        removeDotSegments (MatchedRoute.of appRoute "/app/x/../y".toList).rewrittenPath := by
  have hselected : appRouter.selected "a".toList "/app/x/../y".toList = some appRoute := by decide
  obtain ⟨-, -, hconfined⟩ := path_confined appRouter (by decide) (by decide) hselected
  exact ⟨by decide, by decide, hconfined (by decide) (by decide)⟩

/-- Dot segments lead out of the forward path, and a slash in the host out of the rewriting. -/
theorem app_path_escapes :
    (ConfigParser.parseProxyConfig (some 2) appText.toList).map Config.routes = .ok [appRoute] ∧
      ((appRouter.matchRoute "a".toList "/app/../admin".toList).map
        fun m => removeDotSegments m.rewrittenPath) = some "/admin".toList ∧
      ((appRouter.matchRoute "a/app".toList "/admin".toList).map
        fun m => removeDotSegments m.rewrittenPath) = some "/admin".toList ∧
      ¬ extractPath appRoute.forwardEndpoint <+: "/admin".toList := by
  decide +kernel

end Example

section Mapping
variable {host path : Str} {route : Route}

/-- The forward path takes the place of the request prefix, and the rest of the path stays. -/
def MapsExactly (route : Route) (path : Str) : Prop :=
  ∃ rest, path = extractPath route.requestEndpoint ++ rest ∧
    (MatchedRoute.of route path).rewrittenPath = extractPath route.forwardEndpoint ++ rest

/-- The branch of `match_route` that forwards the path as it came. -/
def fallsBack (route : Route) (path : Str) : Bool :=
  !startsWith path (extractPath route.requestEndpoint)

theorem mapsExactly_iff :
    MapsExactly route path ↔ extractPath route.requestEndpoint <+: path := by
  constructor
  · rintro ⟨rest, hpath, -⟩
    exact ⟨rest, hpath.symm⟩
  · rintro ⟨rest, rfl⟩
    refine ⟨rest, rfl, (rewritten_eq (List.prefix_append _ _)).trans ?_⟩
    rw [copied, List.drop_left]

theorem fallsBack_iff :
    fallsBack route path = false ↔ extractPath route.requestEndpoint <+: path := by
  rw [fallsBack, Bool.not_eq_false', startsWith, List.isPrefixOf_iff_prefix]

theorem selected_alone {route : Route} (h : covers route host path = true) :
    (Router.mk [route]).selected host path = some route :=
  List.find?_cons_of_pos h

/-- The requests that every table maps exactly. -/
theorem every_table_maps_iff (host path : Str) :
    (∀ (r : Router) (route : Route), r.selected host path = some route →
      MapsExactly route path) ↔ '/' ∉ host ∧ "/".toList <+: path := by
  constructor
  · intro hmaps
    have hstarts : ∀ rest, rest <+: host ++ path →
        extractPath ("http://".toList ++ rest) <+: path := by
      intro rest hrest
      let route : Route := ⟨"http://".toList ++ rest, [], false, none, none, none, none⟩
      have hcovers : covers route host path = true := by
        refine (covers_iff (.inl (List.prefix_append ..))).mpr ?_
        rw [authority_append_pathPart, withoutScheme_http]
        exact hrest
      exact mapsExactly_iff.mp (hmaps _ route (selected_alone hcovers))
    refine ⟨fun hslash => ?_, hstarts [] List.nil_prefix⟩
    -- an endpoint with the whole request has a path that is longer than that of the request
    have hwhole := hstarts (host ++ path) List.prefix_rfl
    have hne : host.dropWhile (· != '/') ≠ [] := by
      rw [Ne, List.dropWhile_eq_nil_iff]
      intro hall
      simpa using hall _ hslash
    have hpart : pathPart ("http://".toList ++ (host ++ path)) =
        host.dropWhile (· != '/') ++ path := by
      rw [pathPart, withoutScheme_http, List.dropWhile_append, if_neg (by simpa using hne)]
    rw [extractPath_eq, hpart, if_neg (by simp [hne])] at hwhole
    have hlength := hwhole.length_le
    rw [List.length_append] at hlength
    exact hne (List.length_eq_zero_iff.mp (by omega))
  · rintro ⟨hhost, hpath⟩ r route hselected
    obtain ⟨-, -, -, hcovers, -⟩ := selected_eq_some_iff.mp hselected
    exact mapsExactly_iff.mpr (requestPath_starts hhost hpath hcovers)

/-- The mapping is exact unless the path has no slash at its start, or the host holds the
request prefix and the path does not. It is so in every table exactly for a host without a
slash and a path that starts with one. -/
theorem mapping_exact_iff (r : Router) (hselected : r.selected host path = some route) :
    r.matchRoute host path = some (.of route path) ∧
      (MapsExactly route path ∧ fallsBack route path = false ↔
        "/".toList <+: path ∧
          (authority route.requestEndpoint ++ "/".toList <+: host →
            pathPart route.requestEndpoint <+: path)) ∧
      ((∀ (r : Router) (route : Route), r.selected host path = some route →
        MapsExactly route path) ↔ '/' ∉ host ∧ "/".toList <+: path) := by
  obtain ⟨-, -, -, hcovers, -⟩ := selected_eq_some_iff.mp hselected
  refine ⟨by simp [Router.matchRoute, hselected], ?_, every_table_maps_iff host path⟩
  rw [mapsExactly_iff, fallsBack_iff, and_self, requestPath_starts_iff hcovers]

section Example

theorem app_maps_exactly :
    appRouter.selected "a".toList "/app/x".toList = some appRoute ∧
      appRouter.matchRoute "a".toList "/app/x".toList = some (.of appRoute "/app/x".toList) ∧
      MapsExactly appRoute "/app/x".toList := by
  have hselected : appRouter.selected "a".toList "/app/x".toList = some appRoute := by decide
  obtain ⟨hmatched, hexact, -⟩ := mapping_exact_iff appRouter hselected
  exact ⟨hselected, hmatched, (hexact.mpr ⟨by decide, by decide⟩).1⟩

/-- A visible host that holds the request prefix leaves nothing of it for the path. -/
theorem slash_host_falls_back :
    (∀ c ∈ "a/app".toList, 32 < c.toNat ∧ c.toNat < 127) ∧
      appRouter.selected "a/app".toList "/admin".toList = some appRoute ∧
      (appRouter.matchRoute "a/app".toList "/admin".toList).map MatchedRoute.rewrittenPath =
        some "/admin".toList ∧
      fallsBack appRoute "/admin".toList = true ∧
      ¬ MapsExactly appRoute "/admin".toList := by
  refine ⟨List.forall_iff_forall_mem.mp (by decide), by decide, by decide, by decide, ?_⟩
  rw [mapsExactly_iff]
  decide

end Example

end Mapping

end BarebonesProxy.Routing
