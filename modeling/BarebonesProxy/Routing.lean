import BarebonesProxy.ProxyConfig

set_option autoImplicit false

/-! # Route matching and path rewriting of `router.rs` -/
namespace BarebonesProxy.Routing
open RustStrings ProxyConfig

structure Router where
  routes : List Route

structure MatchedRoute where
  upstreamAddr : Str
  rewrittenPath : Str
  authRequired : Bool
  cache : Option Bool
  interceptErrors : Option Bool
deriving DecidableEq

def MatchedRoute.shouldInterceptErrors (m : MatchedRoute) (globalIntercept : Bool) : Bool :=
  m.interceptErrors.getD globalIntercept

def withoutScheme (endpoint : Str) : Str :=
  ((stripPrefix endpoint "http://".toList).or (stripPrefix endpoint "https://".toList)).getD endpoint

def extractHostPort (endpoint : Str) : Str :=
  let hostPort := splitFirst (withoutScheme endpoint) '/'
  if contains hostPort ":".toList then hostPort
  else if startsWith endpoint "https://".toList then hostPort ++ ":443".toList
  else hostPort ++ ":80".toList

def extractPath (endpoint : Str) : Str :=
  let rest := (withoutScheme endpoint).dropWhile (· != '/')
  if rest.isEmpty then "/".toList else rest

def covers (route : Route) (host path : Str) : Bool :=
  startsWith ("http://".toList ++ host ++ path) route.requestEndpoint ||
    startsWith ("https://".toList ++ host ++ path) route.requestEndpoint

def Router.selected (r : Router) (host path : Str) : Option Route :=
  r.routes.find? fun route => covers route host path

def rewritten (route : Route) (path : Str) : Str :=
  let reqPathPrefix := extractPath route.requestEndpoint
  if startsWith path reqPathPrefix then
    extractPath route.forwardEndpoint ++ path.drop reqPathPrefix.length
  else path

def MatchedRoute.of (route : Route) (path : Str) : MatchedRoute where
  upstreamAddr := extractHostPort route.forwardEndpoint
  rewrittenPath := rewritten route path
  authRequired := route.authRequired
  cache := route.cache
  interceptErrors := route.interceptErrors

def Router.matchRoute (r : Router) (host path : Str) : Option MatchedRoute :=
  (r.selected host path).map fun route => .of route path

end BarebonesProxy.Routing
