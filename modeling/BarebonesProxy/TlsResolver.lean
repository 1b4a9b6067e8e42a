import BarebonesProxy.RuntimeConfig

set_option autoImplicit false

/-!
# Which certificate a client is shown

The resolver is filled route by route, and the routes of one host name write to one entry.
`Certifies` and `Refuses` say what a route gives or why it ends the loading.
-/
namespace BarebonesProxy.RuntimeConfig
open RustStrings RustState ProxyConfig

section Resolver
variable [TlsCrate]

/-- `resolve`, for the server name of a client hello. -/
def ExactCertResolver.resolve (resolver : ExactCertResolver) (serverName : Option Str) :
    Option CertifiedKey := do
  let sni ← serverName
  resolver.exactMatch sni

variable (loadCertifiedKey : Str → Str → Except ProxyError CertifiedKey)

/-- The route has a host name and a key for it. -/
def Certifies (route : Route) (hostname : Str) (key : CertifiedKey) : Prop :=
  extractHostnameFromEndpoint route.requestEndpoint = some hostname ∧
    ∃ certPath keyPath, route.certPath = some certPath ∧ route.keyPath = some keyPath ∧
      loadCertifiedKey certPath keyPath = .ok key

/-- The first thing that the route lacks. -/
inductive Refuses (route : Route) : ProxyError → Prop
  | endpoint (h : extractHostnameFromEndpoint route.requestEndpoint = none) :
      Refuses route (.tlsError ("Invalid HTTPS endpoint: ".toList ++ route.requestEndpoint))
  | cert (hname : (extractHostnameFromEndpoint route.requestEndpoint).isSome = true)
      (h : route.certPath = none) :
      Refuses route
        (.tlsError ("Missing cert directive for route: ".toList ++ route.requestEndpoint))
  | key (hname : (extractHostnameFromEndpoint route.requestEndpoint).isSome = true)
      (hcert : route.certPath.isSome = true) (h : route.keyPath = none) :
      Refuses route
        (.tlsError ("Missing key directive for route: ".toList ++ route.requestEndpoint))
  | load {certPath keyPath : Str} {e : ProxyError}
      (hname : (extractHostnameFromEndpoint route.requestEndpoint).isSome = true)
      (hcert : route.certPath = some certPath) (hkey : route.keyPath = some keyPath)
      (h : loadCertifiedKey certPath keyPath = .error e) : Refuses route e

variable {loadCertifiedKey} {resolver resolver' : ExactCertResolver} {route : Route}

/-- All that one route can do to the resolver. -/
theorem addCertificate_cases (resolver : ExactCertResolver) (route : Route) :
    (∃ hostname key, Certifies loadCertifiedKey route hostname key ∧
      addCertificate loadCertifiedKey resolver route =
        .ok ⟨resolver.exactMatch.insert hostname key⟩) ∨
    ∃ e, Refuses loadCertifiedKey route e ∧
      addCertificate loadCertifiedKey resolver route = .error e := by
  unfold addCertificate
  cases hname : extractHostnameFromEndpoint route.requestEndpoint with
  | none => exact .inr ⟨_, .endpoint hname, rfl⟩
  | some hostname =>
    have hsome : (extractHostnameFromEndpoint route.requestEndpoint).isSome = true := by
      rw [hname]
      rfl
    cases hcert : route.certPath with
    | none => exact .inr ⟨_, .cert hsome hcert, rfl⟩
    | some certPath =>
      cases hkey : route.keyPath with
      | none => exact .inr ⟨_, .key hsome (by rw [hcert]; rfl) hkey, rfl⟩
      | some keyPath =>
        cases hload : loadCertifiedKey certPath keyPath with
        | error e =>
          refine .inr ⟨e, .load hsome hcert hkey hload, ?_⟩
          simp only [bind, Except.bind, hload]
        | ok key =>
          refine .inl ⟨hostname, key, ⟨hname, certPath, keyPath, hcert, hkey, hload⟩, ?_⟩
          simp only [bind, Except.bind, hload]
          rfl

theorem Certifies.unique {hostname hostname' : Str} {key key' : CertifiedKey}
    (h : Certifies loadCertifiedKey route hostname key)
    (h' : Certifies loadCertifiedKey route hostname' key') : hostname' = hostname ∧ key' = key := by
  obtain ⟨hname, certPath, keyPath, hcert, hkey, hload⟩ := h
  obtain ⟨hname', certPath', keyPath', hcert', hkey', hload'⟩ := h'
  cases hcert.symm.trans hcert'
  cases hkey.symm.trans hkey'
  cases hload.symm.trans hload'
  exact ⟨Option.some.inj (hname'.symm.trans hname), rfl⟩

theorem Refuses.not_certifies {e : ProxyError} (h : Refuses loadCertifiedKey route e)
    (hostname : Str) (key : CertifiedKey) : ¬ Certifies loadCertifiedKey route hostname key := by
  rintro ⟨hname, certPath, keyPath, hcert, hkey, hload⟩
  cases h with
  | endpoint h => cases h.symm.trans hname
  | cert _ h => cases h.symm.trans hcert
  | key _ _ h => cases h.symm.trans hkey
  | load _ hcert' hkey' h =>
    cases hcert.symm.trans hcert'
    cases hkey.symm.trans hkey'
    cases h.symm.trans hload

theorem Refuses.unique {e e' : ProxyError} (h : Refuses loadCertifiedKey route e)
    (h' : Refuses loadCertifiedKey route e') : e' = e := by
  cases h <;> cases h' <;> simp_all

variable (loadCertifiedKey) in
/-- The key is that of the last route with this host name. -/
def LastFor (routes : List Route) (hostname : Str) (key : CertifiedKey) : Prop :=
  ∃ before route later, routes = before ++ route :: later ∧
    Certifies loadCertifiedKey route hostname key ∧
    ∀ r ∈ later, extractHostnameFromEndpoint r.requestEndpoint ≠ some hostname

theorem lastFor_concat_self {routes : List Route} {hostname : Str} {key key' : CertifiedKey}
    (h : Certifies loadCertifiedKey route hostname key) :
    LastFor loadCertifiedKey (routes ++ [route]) hostname key' ↔ key = key' := by
  constructor
  · rintro ⟨before, last, later, hsplit, hlast, hlater⟩
    rcases List.eq_nil_or_concat later with rfl | ⟨init, other, rfl⟩
    · obtain ⟨-, hroute⟩ := List.append_inj' hsplit rfl
      rw [← (List.cons.inj hroute).1] at hlast
      exact (hlast.unique h).2
    · rw [List.concat_eq_append, ← List.cons_append, ← List.append_assoc] at hsplit
      obtain ⟨-, hroute⟩ := List.append_inj' hsplit rfl
      have hname := hlater other (by simp)
      rw [← (List.cons.inj hroute).1] at hname
      exact absurd h.1 hname
  · rintro rfl
    exact ⟨routes, route, [], rfl, h, fun _ hr => absurd hr List.not_mem_nil⟩

theorem lastFor_concat_other {routes : List Route} {hostname : Str} {key : CertifiedKey}
    (h : extractHostnameFromEndpoint route.requestEndpoint ≠ some hostname) :
    LastFor loadCertifiedKey (routes ++ [route]) hostname key ↔
      LastFor loadCertifiedKey routes hostname key := by
  constructor
  · rintro ⟨before, last, later, hsplit, hlast, hlater⟩
    rcases List.eq_nil_or_concat later with rfl | ⟨init, other, rfl⟩
    · obtain ⟨-, hroute⟩ := List.append_inj' hsplit rfl
      rw [← (List.cons.inj hroute).1] at hlast
      exact absurd hlast.1 h
    · rw [List.concat_eq_append, ← List.cons_append, ← List.append_assoc] at hsplit
      exact ⟨before, last, init, (List.append_inj' hsplit rfl).1, hlast,
        fun r hr => hlater r (by simp [hr])⟩
  · rintro ⟨before, last, later, rfl, hlast, hlater⟩
    refine ⟨before, last, later ++ [route], by simp, hlast, fun r hr => ?_⟩
    rcases List.mem_append.mp hr with hr | hr
    · exact hlater r hr
    · rw [List.mem_singleton.mp hr]
      exact h

theorem exists_lastFor {routes : List Route} {hostname : Str}
    (hall : ∀ r ∈ routes, ∃ name key, Certifies loadCertifiedKey r name key)
    (hroute : route ∈ routes)
    (hname : extractHostnameFromEndpoint route.requestEndpoint = some hostname) :
    ∃ key, LastFor loadCertifiedKey routes hostname key := by
  induction routes using List.reverseRecOn with
  | nil => exact absurd hroute List.not_mem_nil
  | append_singleton routes last ih =>
    obtain ⟨name, key, hlast⟩ := hall last (by simp)
    by_cases heq : name = hostname
    · subst heq
      exact ⟨key, (lastFor_concat_self hlast).mpr rfl⟩
    · have hother : extractHostnameFromEndpoint last.requestEndpoint ≠ some hostname := by
        rw [hlast.1]
        exact fun h => heq (Option.some.inj h)
      rcases List.mem_append.mp hroute with hroute | hroute
      · obtain ⟨key', hkey'⟩ := ih (fun r hr => hall r (List.mem_append_left _ hr)) hroute
        exact ⟨key', (lastFor_concat_other hother).mpr hkey'⟩
      · rw [List.mem_singleton.mp hroute] at hname
        exact absurd hname hother

variable (loadCertifiedKey) in
/-- The loop over the routes: it ends at the first that refuses, or has gone through all. -/
theorem fill_cases (routes : List Route) :
    (∃ resolver, routes.foldlM (addCertificate loadCertifiedKey) ⟨.empty⟩ = .ok resolver ∧
      (∀ route ∈ routes, ∃ hostname key, Certifies loadCertifiedKey route hostname key) ∧
      ∀ hostname key, resolver.exactMatch hostname = some key ↔
        LastFor loadCertifiedKey routes hostname key) ∨
    ∃ e before route later, routes = before ++ route :: later ∧
      (∀ r ∈ before, ∃ hostname key, Certifies loadCertifiedKey r hostname key) ∧
      Refuses loadCertifiedKey route e ∧
      routes.foldlM (addCertificate loadCertifiedKey) ⟨.empty⟩ = .error e := by
  induction routes using List.reverseRecOn with
  | nil =>
    refine .inl ⟨⟨.empty⟩, rfl, fun _ h => absurd h List.not_mem_nil, fun hostname key => ?_⟩
    constructor
    · intro h
      cases h
    · rintro ⟨before, route, later, hsplit, -⟩
      exact absurd hsplit.symm (by simp)
  | append_singleton routes route ih =>
    have hfold : (routes ++ [route]).foldlM (addCertificate loadCertifiedKey) ⟨.empty⟩ =
        routes.foldlM (addCertificate loadCertifiedKey) ⟨.empty⟩ >>=
          fun resolver => addCertificate loadCertifiedKey resolver route := by
      rw [List.foldlM_append]
      simp
    rw [hfold]
    rcases ih with ⟨resolver, hrun, hall, hholds⟩ | ⟨e, before, refusing, later, hsplit, hbefore,
      hrefuses, hrun⟩
    · rw [hrun]
      rcases addCertificate_cases resolver route with ⟨hostname, key, hcertifies, hadd⟩ |
        ⟨e, hrefuses, hadd⟩
      · refine .inl ⟨_, hadd, fun r hr => ?_, fun hostname' key' => ?_⟩
        · rcases List.mem_append.mp hr with hr | hr
          · exact hall r hr
          · rw [List.mem_singleton.mp hr]
            exact ⟨hostname, key, hcertifies⟩
        · change Function.update resolver.exactMatch hostname (some key) hostname' = _ ↔ _
          by_cases heq : hostname' = hostname
          · subst heq
            rw [lastFor_concat_self hcertifies, Function.update_self, Option.some.injEq]
          · have hother : extractHostnameFromEndpoint route.requestEndpoint ≠ some hostname' := by
              rw [hcertifies.1]
              exact fun h => heq (Option.some.inj h).symm
            rw [lastFor_concat_other hother, Function.update_of_ne heq]
            exact hholds hostname' key'
      · exact .inr ⟨e, routes, route, [], rfl, hall, hrefuses, hadd⟩
    · refine .inr ⟨e, before, refusing, later ++ [route], ?_, hbefore, hrefuses, ?_⟩
      · rw [hsplit, List.append_assoc, List.cons_append]
      · rw [hrun]
        rfl

theorem fill_refused {before later : List Route} {e : ProxyError}
    (hbefore : ∀ r ∈ before, ∃ hostname key, Certifies loadCertifiedKey r hostname key)
    (hrefuses : Refuses loadCertifiedKey route e) :
    (before ++ route :: later).foldlM (addCertificate loadCertifiedKey) ⟨.empty⟩ = .error e := by
  rcases fill_cases loadCertifiedKey before with ⟨resolver, hrun, -⟩ |
    ⟨_, before', refusing, later', rfl, -, hrefusing, -⟩
  · rw [List.foldlM_append, hrun]
    change (route :: later).foldlM (addCertificate loadCertifiedKey) resolver = .error e
    rw [List.foldlM_cons]
    rcases addCertificate_cases resolver route with ⟨hostname, key, hcertifies, -⟩ |
      ⟨e', hrefuses', hadd⟩
    · exact absurd hcertifies (hrefuses.not_certifies hostname key)
    · rw [hadd, hrefuses.unique hrefuses']
      rfl
  · obtain ⟨hostname, key, hcertifies⟩ := hbefore refusing (by simp)
    exact absurd hcertifies (hrefusing.not_certifies hostname key)

variable (loadCertifiedKey) in
theorem buildTlsAcceptor_https {routes : List Route} (h : routes.filter isHttps ≠ []) :
    buildTlsAcceptor loadCertifiedKey routes =
      (routes.filter isHttps).foldlM (addCertificate loadCertifiedKey) ⟨.empty⟩ >>=
        fun resolver => .ok (some ⟨resolver, ["h2".toList, "http/1.1".toList]⟩) := by
  unfold buildTlsAcceptor
  rw [if_neg (by simpa using h)]
  rfl

variable (loadCertifiedKey) in
theorem buildTlsAcceptor_none_iff (routes : List Route) :
    buildTlsAcceptor loadCertifiedKey routes = .ok none ↔
      ∀ route ∈ routes, isHttps route = false := by
  refine ⟨buildTlsAcceptor_none, fun hall => ?_⟩
  have hnil : routes.filter isHttps = [] := by
    refine List.filter_eq_nil_iff.mpr fun route hroute => ?_
    simp [hall route hroute]
  unfold buildTlsAcceptor
  rw [hnil]
  rfl

theorem https_of_error {routes : List Route} {e : ProxyError}
    (h : buildTlsAcceptor loadCertifiedKey routes = .error e) : routes.filter isHttps ≠ [] := by
  intro hnil
  unfold buildTlsAcceptor at h
  rw [hnil] at h
  cases h

theorem buildTlsAcceptor_error_iff {routes : List Route} {e : ProxyError} :
    buildTlsAcceptor loadCertifiedKey routes = .error e ↔
      ∃ before route later, routes.filter isHttps = before ++ route :: later ∧
        (∀ r ∈ before, ∃ hostname key, Certifies loadCertifiedKey r hostname key) ∧
        Refuses loadCertifiedKey route e := by
  constructor
  · intro h
    rw [buildTlsAcceptor_https loadCertifiedKey (https_of_error h)] at h
    rcases fill_cases loadCertifiedKey (routes.filter isHttps) with ⟨resolver, hrun, -⟩ |
      ⟨e', before, route, later, hsplit, hbefore, hrefuses, hrun⟩
    · rw [hrun] at h
      cases h
    · rw [hrun] at h
      cases h
      exact ⟨before, route, later, hsplit, hbefore, hrefuses⟩
  · rintro ⟨before, route, later, hsplit, hbefore, hrefuses⟩
    rw [buildTlsAcceptor_https loadCertifiedKey (by rw [hsplit]; simp), hsplit,
      fill_refused hbefore hrefuses]
    rfl

theorem buildTlsAcceptor_some {routes : List Route} {acceptor : TlsAcceptor}
    (h : buildTlsAcceptor loadCertifiedKey routes = .ok (some acceptor)) :
    acceptor.alpnProtocols = ["h2".toList, "http/1.1".toList] ∧
      (∀ route ∈ routes.filter isHttps, ∃ hostname key,
        Certifies loadCertifiedKey route hostname key) ∧
      ∀ serverName key, acceptor.resolver.resolve (some serverName) = some key ↔
        LastFor loadCertifiedKey (routes.filter isHttps) serverName key := by
  have hhttps : routes.filter isHttps ≠ [] := by
    intro hnil
    unfold buildTlsAcceptor at h
    rw [hnil] at h
    cases h
  rw [buildTlsAcceptor_https loadCertifiedKey hhttps] at h
  rcases fill_cases loadCertifiedKey (routes.filter isHttps) with ⟨resolver, hrun, hall, hholds⟩ |
    ⟨e, before, route, later, -, -, -, hrun⟩
  · rw [hrun] at h
    cases h
    exact ⟨rfl, hall, hholds⟩
  · rw [hrun] at h
    cases h

/-- With an HTTPS route there is an acceptor exactly if every such route has its
certificate, else the error is that of the first which has not, and a client is shown the
certificate of the last route for the name it asks for, or none. -/
theorem tls_acceptor_exact (loadCertifiedKey : Str → Str → Except ProxyError CertifiedKey)
    (routes : List Route) :
    (buildTlsAcceptor loadCertifiedKey routes = .ok none ↔
      ∀ route ∈ routes, isHttps route = false) ∧
    (∀ e, buildTlsAcceptor loadCertifiedKey routes = .error e ↔
      ∃ before route later, routes.filter isHttps = before ++ route :: later ∧
        (∀ r ∈ before, ∃ hostname key, Certifies loadCertifiedKey r hostname key) ∧
        Refuses loadCertifiedKey route e) ∧
    ∀ acceptor, buildTlsAcceptor loadCertifiedKey routes = .ok (some acceptor) →
      acceptor.alpnProtocols = ["h2".toList, "http/1.1".toList] ∧
      (∀ route ∈ routes, isHttps route = true → ∃ hostname key,
        Certifies loadCertifiedKey route hostname key) ∧
      acceptor.resolver.resolve none = none ∧
      ∀ serverName key, acceptor.resolver.resolve (some serverName) = some key ↔
        LastFor loadCertifiedKey (routes.filter isHttps) serverName key := by
  refine ⟨buildTlsAcceptor_none_iff loadCertifiedKey routes, fun e => buildTlsAcceptor_error_iff,
    fun acceptor h => ?_⟩
  obtain ⟨halpn, hall, hresolve⟩ := buildTlsAcceptor_some h
  refine ⟨halpn, fun route hroute hhttps => ?_, rfl, hresolve⟩
  exact hall route (List.mem_filter.mpr ⟨hroute, hhttps⟩)

end Resolver

end BarebonesProxy.RuntimeConfig
