import BarebonesProxy.ConfigEntries
import BarebonesProxy.RoutePaths
import Mathlib.Data.List.Pairwise

set_option autoImplicit false

/-!
# Routing tables

The order of a table matters only where two endpoints cover the same request. The parser
asks for less than the router: an endpoint without a scheme is a valid URL to it, and no
request is ever routed there.
-/
namespace BarebonesProxy.Routing
open RustStrings ProxyConfig

section Order

theorem find?_eq_some_iff_of_unique {α : Type} {p : α → Bool} {l : List α}
    (hunique : ∀ a ∈ l, ∀ b ∈ l, p a = true → p b = true → a = b) {a : α} :
    l.find? p = some a ↔ a ∈ l ∧ p a = true := by
  constructor
  · exact fun hfind => ⟨List.mem_of_find?_eq_some hfind, List.find?_some hfind⟩
  · rintro ⟨hmem, ha⟩
    obtain ⟨b, hfind⟩ := Option.isSome_iff_exists.mp (List.find?_isSome.mpr ⟨a, hmem, ha⟩)
    have hb := hunique b (List.mem_of_find?_eq_some hfind) a hmem (List.find?_some hfind) ha
    rw [hfind, hb]

/-- After the scheme, neither endpoint begins with the other. -/
def Apart (a b : Route) : Prop :=
  ¬ withoutScheme a.requestEndpoint <+: withoutScheme b.requestEndpoint ∧
    ¬ withoutScheme b.requestEndpoint <+: withoutScheme a.requestEndpoint

instance apart_symm : Std.Symm Apart := ⟨fun _ _ h => h.symm⟩

theorem covers_apart {a b : Route} {host path : Str} (ha : HasScheme a.requestEndpoint)
    (hb : HasScheme b.requestEndpoint) (hapart : Apart a b) (hcovers : covers a host path = true) :
    covers b host path = false := by
  rw [Bool.eq_false_iff]
  intro hother
  rw [covers_iff ha, authority_append_pathPart] at hcovers
  rw [covers_iff hb, authority_append_pathPart] at hother
  rcases List.prefix_or_prefix_of_prefix hcovers hother with h | h
  · exact hapart.1 h
  · exact hapart.2 h

/-- A table of disjoint endpoints may be written in any order. -/
theorem matchRoute_perm {routes routes' : List Route}
    (hschemed : ∀ route ∈ routes, HasScheme route.requestEndpoint) (hapart : routes.Pairwise Apart)
    (hperm : routes.Perm routes') (host path : Str) :
    (Router.mk routes').matchRoute host path = (Router.mk routes).matchRoute host path := by
  have hunique : ∀ a ∈ routes, ∀ b ∈ routes, covers a host path = true →
      covers b host path = true → a = b := by
    intro a ha b hb hcovers hother
    by_contra hne
    have hnone := covers_apart (hschemed a ha) (hschemed b hb)
      (hapart.forall ha hb hne) hcovers
    rw [hother] at hnone
    cases hnone
  have hunique' : ∀ a ∈ routes', ∀ b ∈ routes', covers a host path = true →
      covers b host path = true → a = b := fun a ha b hb =>
    hunique a (hperm.mem_iff.mpr ha) b (hperm.mem_iff.mpr hb)
  have hselected : (Router.mk routes').selected host path =
      (Router.mk routes).selected host path := by
    refine Option.ext fun route => ?_
    unfold Router.selected
    rw [find?_eq_some_iff_of_unique hunique, find?_eq_some_iff_of_unique hunique',
      hperm.mem_iff]
  rw [Router.matchRoute, Router.matchRoute, hselected]

section Example

theorem swapped_sites_match :
    (Router.mk [siteRoute "https://b/", siteRoute "http://a/"]).matchRoute "b".toList "/x".toList =
        (Router.mk [siteRoute "http://a/", siteRoute "https://b/"]).matchRoute "b".toList
          "/x".toList ∧
      ((Router.mk [siteRoute "http://a/", siteRoute "https://b/"]).matchRoute "b".toList
        "/x".toList).isSome = true := by
  refine ⟨matchRoute_perm ?_ ?_ (List.Perm.swap _ _ _) _ _, by decide⟩
  · intro route hroute
    simp only [List.mem_cons, List.not_mem_nil, or_false] at hroute
    rcases hroute with rfl | rfl
    · exact .inl (by decide)
    · exact .inr (by decide)
  · refine List.pairwise_pair.mpr ?_
    exact ⟨by decide, by decide⟩

end Example

end Order

section Reaching
variable {route : Route} {host path : Str}

/-- Some request with a host and an absolute path goes to the route when it is alone. -/
def Reachable (route : Route) : Prop :=
  ∃ host path, host ≠ [] ∧ '/' ∉ host ∧ "/".toList <+: path ∧
    ((Router.mk [route]).matchRoute host path).isSome = true

theorem matchRoute_alone :
    ((Router.mk [route]).matchRoute host path).isSome = covers route host path := by
  unfold Router.matchRoute Router.selected
  cases hcovers : covers route host path <;> simp [hcovers]

theorem covers_of_cut
    (h : route.requestEndpoint <+: "http://".toList ∨ route.requestEndpoint <+: "https://".toList)
    (host path : Str) : covers route host path = true := by
  unfold covers startsWith
  rw [Bool.or_eq_true, List.isPrefixOf_iff_prefix, List.isPrefixOf_iff_prefix, List.append_assoc,
    List.append_assoc]
  exact h.imp (fun h => h.trans (List.prefix_append ..)) fun h => h.trans (List.prefix_append ..)

/-- A route is reachable if its endpoint is cut off inside the scheme, or has a scheme with
no slash right after it. -/
theorem reachable_iff :
    Reachable route ↔
      (route.requestEndpoint <+: "http://".toList ∨
        route.requestEndpoint <+: "https://".toList) ∨
      HasScheme route.requestEndpoint ∧ ¬ "/".toList <+: withoutScheme route.requestEndpoint := by
  constructor
  · rintro ⟨host, path, hne, hhost, -, hmatched⟩
    rw [matchRoute_alone] at hmatched
    by_cases hscheme : HasScheme route.requestEndpoint
    · refine .inr ⟨hscheme, fun hslash => ?_⟩
      rw [covers_iff hscheme, authority_append_pathPart] at hmatched
      obtain ⟨c, host, rfl⟩ := List.exists_cons_of_ne_nil hne
      have hc := (List.cons_prefix_cons.mp (hslash.trans hmatched)).1
      exact hhost (hc ▸ .head _)
    · exact .inl (cut_of_covers hscheme hmatched)
  · rintro (hcut | ⟨hscheme, hslash⟩)
    · refine ⟨"a".toList, "/".toList, by decide, by decide, by decide, ?_⟩
      rw [matchRoute_alone]
      exact covers_of_cut hcut _ _
    · by_cases hauthority : authority route.requestEndpoint = []
      · have hrest := authority_append_pathPart route.requestEndpoint
        rw [hauthority, List.nil_append] at hrest
        rcases pathPart_cases route.requestEndpoint with hnil | ⟨rest, hcons⟩
        · refine ⟨"a".toList, "/".toList, by decide, by decide, by decide, ?_⟩
          rw [matchRoute_alone, covers_iff hscheme, hauthority, hnil]
          exact List.nil_prefix
        · rw [← hrest, hcons] at hslash
          exact absurd ⟨rest, rfl⟩ hslash
      · refine ⟨authority route.requestEndpoint, extractPath route.requestEndpoint, hauthority,
          slash_not_mem_authority _, slash_prefix_extractPath _, ?_⟩
        rw [matchRoute_alone, covers_iff hscheme, List.prefix_append_right_inj]
        exact pathPart_prefix_extractPath _

/-- The valid URLs that are cut off inside a scheme. -/
def cutSchemes : List Str := ["http:", "http:/", "https:", "https:/"].map String.toList

theorem cut_valid_iff {endpoint : Str} (hvalid : ConfigParser.isValidUrl endpoint = true) :
    (endpoint <+: "http://".toList ∨ endpoint <+: "https://".toList) ∨
        HasScheme endpoint ∧ ¬ "/".toList <+: withoutScheme endpoint ↔
      endpoint ∈ cutSchemes ∨
        HasScheme endpoint ∧ ¬ "/".toList <+: withoutScheme endpoint := by
  have hplain : ∀ e ∈ "http://".toList.inits, ConfigParser.isValidUrl e = true →
      e ∈ cutSchemes ∨ "http://".toList <+: e ∧ ¬ "/".toList <+: withoutScheme e := by
    decide
  have hsecure : ∀ e ∈ "https://".toList.inits, ConfigParser.isValidUrl e = true →
      e ∈ cutSchemes ∨ "https://".toList <+: e ∧ ¬ "/".toList <+: withoutScheme e := by
    decide
  have hcut : ∀ e ∈ cutSchemes, e <+: "http://".toList ∨ e <+: "https://".toList := by
    decide
  constructor
  · rintro ((h | h) | h)
    · exact (hplain _ ((List.mem_inits _ _).mpr h) hvalid).imp_right (And.imp_left .inl)
    · exact (hsecure _ ((List.mem_inits _ _).mpr h) hvalid).imp_right (And.imp_left .inr)
    · exact .inr h
  · exact Or.imp_left (hcut endpoint)

/-- Of the routes of an accepted configuration, those are reachable whose endpoint has a
scheme and a host, or no more than the start of a scheme. -/
theorem accepted_reachable_iff [CaseMapping] {availableParallelism : Option ℕ} {input : Str}
    {config : Config}
    (h : ConfigParser.parseProxyConfig availableParallelism input = .ok config)
    (hmem : route ∈ config.routes) :
    Reachable route ↔ route.requestEndpoint ∈ cutSchemes ∨
      HasScheme route.requestEndpoint ∧ ¬ "/".toList <+: withoutScheme route.requestEndpoint := by
  obtain ⟨items, entries, hread, hwrite, hfinish⟩ := ConfigParser.parse_entries h
  obtain ⟨-, -, -, rfl⟩ := ConfigParser.finishConfig_ok hfinish
  obtain ⟨header, body, endpoint, hheader, hblock⟩ :=
    ConfigParser.route_of_read hread hwrite hmem
  have hvalid : ConfigParser.isValidUrl route.requestEndpoint = true := by
    rw [ConfigParser.routeBlock_requestEndpoint hblock]
    exact (ConfigParser.parseRouteBlockHeader_ok hheader).2
  rw [reachable_iff, cut_valid_iff hvalid]

section Example
open ListCrates

def siteConfig (endpoint : String) : Config :=
  ⟨8080, [siteRoute endpoint], 2, none, none, none, none⟩

theorem schemed_site_reachable :
    ConfigParser.parseProxyConfig (some 2) (siteText "http://a").toList =
        .ok (siteConfig "http://a") ∧
      Reachable (siteRoute "http://a") := by
  have hparse : ConfigParser.parseProxyConfig (some 2) (siteText "http://a").toList =
      .ok (siteConfig "http://a") := ConfigParser.toOption_eq_some_iff.mp (by decide +kernel)
  refine ⟨hparse, (accepted_reachable_iff hparse (.head _)).mpr (.inr ⟨.inl ?_, ?_⟩)⟩
  · decide
  · decide

/-- The parser accepts an endpoint that is a path alone, and no request is routed there. -/
theorem bare_path_unreachable :
    ConfigParser.parseProxyConfig (some 2) (siteText "/api").toList = .ok (siteConfig "/api") ∧
      siteRoute "/api" ∈ (siteConfig "/api").routes ∧ ¬ Reachable (siteRoute "/api") := by
  refine ⟨ConfigParser.toOption_eq_some_iff.mp (by decide +kernel), .head _, ?_⟩
  rw [reachable_iff, HasScheme]
  decide

end Example

end Reaching

end BarebonesProxy.Routing
