import BarebonesProxy.PathSegments
import BarebonesProxy.RoutePaths

set_option autoImplicit false

/-!
# Rewritten paths by their segments

Rewriting is on texts. It is a rewriting of segments where the two endpoints agree on the
slash at their end: otherwise a slash is missing between the forward path and the rest, or
stands there twice.
-/
namespace BarebonesProxy.Routing
open RustStrings ProxyConfig PathSegments

section Boundaries
variable {route : Route} {path : Str}

/-- The path is the request prefix, or goes on after it with a new segment. -/
def AtBoundary (route : Route) (path : Str) : Prop :=
  extractPath route.requestEndpoint <+: path ∧
    (copied route path = [] ∨ "/".toList <:+ extractPath route.requestEndpoint ∨
      "/".toList <+: copied route path)

/-- The segments of the forward path, then those of the path that the request prefix leaves;
and no empty segment that neither the forward path nor the path has. -/
structure RespectsSegments (route : Route) (path : Str) : Prop where
  nonempty : segments '/' (MatchedRoute.of route path).rewrittenPath =
    segments '/' (extractPath route.forwardEndpoint) ++
      (segments '/' path).drop (segments '/' (extractPath route.requestEndpoint)).length
  empty : ∀ before after,
    (MatchedRoute.of route path).rewrittenPath = before ++ "//".toList ++ after →
      before ++ "//".toList <+: extractPath route.forwardEndpoint ∨ "//".toList ++ after <:+ path

theorem extractPath_ne_nil (endpoint : Str) : extractPath endpoint ≠ [] := by
  intro hnil
  have hslash := slash_prefix_extractPath endpoint
  rw [hnil, List.prefix_nil] at hslash
  cases hslash

theorem append_copied (h : extractPath route.requestEndpoint <+: path) :
    extractPath route.requestEndpoint ++ copied route path = path := by
  obtain ⟨rest, rfl⟩ := h
  rw [copied, List.drop_left]

theorem respectsSegments_iff (h : AtBoundary route path) :
    RespectsSegments route path ↔
      (copied route path = [] ∨ "/".toList <:+ extractPath route.forwardEndpoint ∨
        "/".toList <+: copied route path) ∧
      ("/".toList <:+ extractPath route.forwardEndpoint → "/".toList <+: copied route path →
        "/".toList <:+ extractPath route.requestEndpoint) := by
  obtain ⟨hstarts, hboundary⟩ := h
  have hpath := append_copied hstarts
  have hrewritten : (MatchedRoute.of route path).rewrittenPath =
      extractPath route.forwardEndpoint ++ copied route path := rewritten_eq hstarts
  have hrequest : segments '/' (extractPath route.requestEndpoint ++ copied route path) =
      segments '/' (extractPath route.requestEndpoint) ++ segments '/' (copied route path) :=
    (segments_append_iff (extractPath_ne_nil _)).mpr hboundary
  have hforward : segments '/' (extractPath route.forwardEndpoint ++ copied route path) =
      segments '/' (extractPath route.forwardEndpoint) ++ segments '/' (copied route path) ↔
      copied route path = [] ∨ "/".toList <:+ extractPath route.forwardEndpoint ∨
        "/".toList <+: copied route path := segments_append_iff (extractPath_ne_nil _)
  have hempty : (∀ before after, extractPath route.forwardEndpoint ++ copied route path =
        before ++ "//".toList ++ after →
      before ++ "//".toList <+: extractPath route.forwardEndpoint ∨
        "//".toList ++ after <:+ extractPath route.requestEndpoint ++ copied route path) ↔
      ("/".toList <:+ extractPath route.forwardEndpoint → "/".toList <+: copied route path →
        "/".toList <:+ extractPath route.requestEndpoint) := no_new_empty_iff
  have hleft : (segments '/' path).drop (segments '/' (extractPath route.requestEndpoint)).length =
      segments '/' (copied route path) := by
    rw [← hpath, hrequest, hpath, List.drop_left]
  rw [hpath] at hempty
  rw [← hforward, ← hempty, ← hrewritten, ← hleft]
  exact ⟨fun h => ⟨h.nonempty, h.empty⟩, fun h => ⟨h.1, h.2⟩⟩

theorem matchRoute_own_authority (hscheme : HasScheme route.requestEndpoint)
    (h : extractPath route.requestEndpoint <+: path) :
    (Router.mk [route]).matchRoute (authority route.requestEndpoint) path =
      some (.of route path) := by
  have hpart : pathPart route.requestEndpoint <+: path :=
    (pathPart_prefix_extractPath _).trans h
  have hcovers := (covers_cases hscheme).mpr (.inl ⟨rfl, hpart⟩)
  rw [Router.matchRoute, selected_alone hcovers]
  rfl

/-- All requests at a boundary are rewritten by segments exactly if both endpoints or neither
end with a slash. -/
theorem route_respects_iff (route : Route) :
    (∀ path, AtBoundary route path → RespectsSegments route path) ↔
      ("/".toList <:+ extractPath route.requestEndpoint ↔
        "/".toList <:+ extractPath route.forwardEndpoint) := by
  have hcopied : ∀ rest, copied route (extractPath route.requestEndpoint ++ rest) = rest :=
    fun rest => List.drop_left
  constructor
  · intro hall
    by_cases hslash : "/".toList <:+ extractPath route.requestEndpoint
    · have hboundary : AtBoundary route (extractPath route.requestEndpoint ++ "x".toList) :=
        ⟨List.prefix_append .., .inr (.inl hslash)⟩
      have hmeet := ((respectsSegments_iff hboundary).mp (hall _ hboundary)).1
      rw [hcopied] at hmeet
      exact iff_of_true hslash ((hmeet.resolve_left (by decide)).resolve_right (by decide))
    · have hboundary : AtBoundary route (extractPath route.requestEndpoint ++ "/x".toList) := by
        refine ⟨List.prefix_append .., .inr (.inr ?_)⟩
        rw [hcopied]
        decide
      have hkeeps := ((respectsSegments_iff hboundary).mp (hall _ hboundary)).2
      rw [hcopied] at hkeeps
      exact iff_of_false hslash fun hforward => hslash (hkeeps hforward (by decide))
  · intro hslashes path hboundary
    refine (respectsSegments_iff hboundary).mpr ⟨?_, fun hforward _ => hslashes.mpr hforward⟩
    exact hboundary.2.imp_right (Or.imp_left hslashes.mp)

/-- At a boundary, rewriting respects segments if nothing is left to copy, if both endpoints
or neither end with a slash, or if the slash that the forward path lacks is copied. The second
of these serves all requests of the route, and nothing else does. -/
theorem segments_respected_iff (h : AtBoundary route path) :
    (HasScheme route.requestEndpoint →
      (Router.mk [route]).matchRoute (authority route.requestEndpoint) path =
        some (.of route path)) ∧
      (RespectsSegments route path ↔
        copied route path = [] ∨
        ("/".toList <:+ extractPath route.requestEndpoint ↔
          "/".toList <:+ extractPath route.forwardEndpoint) ∨
        "/".toList <:+ extractPath route.requestEndpoint ∧ "/".toList <+: copied route path) ∧
      ((∀ path, AtBoundary route path → RespectsSegments route path) ↔
        ("/".toList <:+ extractPath route.requestEndpoint ↔
          "/".toList <:+ extractPath route.forwardEndpoint)) := by
  refine ⟨fun hscheme => matchRoute_own_authority hscheme h.1, ?_, route_respects_iff route⟩
  rw [respectsSegments_iff h]
  have hnil : copied route path = [] → ¬ "/".toList <+: copied route path := by
    intro hnil hslash
    rw [hnil, List.prefix_nil] at hslash
    cases hslash
  have hboundary := h.2
  tauto

section Example

def forwarding (requestEndpoint forwardEndpoint : String) : Route :=
  ⟨requestEndpoint.toList, forwardEndpoint.toList, false, none, none, none, none⟩

theorem matching_slashes_respected :
    AtBoundary (forwarding "http://a/api/" "http://b/v1/") "/api/users".toList ∧
      (MatchedRoute.of (forwarding "http://a/api/" "http://b/v1/")
        "/api/users".toList).rewrittenPath = "/v1/users".toList ∧
      RespectsSegments (forwarding "http://a/api/" "http://b/v1/") "/api/users".toList := by
  have hboundary : AtBoundary (forwarding "http://a/api/" "http://b/v1/") "/api/users".toList := by
    unfold AtBoundary
    decide
  refine ⟨hboundary, by decide, (segments_respected_iff hboundary).2.1.mpr (.inr (.inl ?_))⟩
  decide

/-- A forward endpoint without a path gives the rest a second slash, and one with a path and
no slash grows a segment. -/
theorem slashes_mismatched :
    AtBoundary (forwarding "http://a/api" "http://localhost:3000") "/api/users".toList ∧
      ((Router.mk [forwarding "http://a/api" "http://localhost:3000"]).matchRoute "a".toList
        "/api/users".toList).map MatchedRoute.rewrittenPath = some "//users".toList ∧
      ¬ RespectsSegments (forwarding "http://a/api" "http://localhost:3000") "/api/users".toList ∧
      AtBoundary (forwarding "http://a/" "http://b/app") "/users".toList ∧
      ((Router.mk [forwarding "http://a/" "http://b/app"]).matchRoute "a".toList
        "/users".toList).map MatchedRoute.rewrittenPath = some "/appusers".toList ∧
      ¬ RespectsSegments (forwarding "http://a/" "http://b/app") "/users".toList := by
  have hplain : AtBoundary (forwarding "http://a/api" "http://localhost:3000")
      "/api/users".toList := by
    unfold AtBoundary
    decide
  have hslashed : AtBoundary (forwarding "http://a/" "http://b/app") "/users".toList := by
    unfold AtBoundary
    decide
  refine ⟨hplain, by decide, ?_, hslashed, by decide, ?_⟩
  · rw [respectsSegments_iff hplain]
    decide
  · rw [respectsSegments_iff hslashed]
    decide

end Example

end Boundaries

end BarebonesProxy.Routing
