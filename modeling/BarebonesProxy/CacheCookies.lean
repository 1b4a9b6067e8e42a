import BarebonesProxy.CacheHits

set_option autoImplicit false

/-!
# Cookies in the cache

An entry keeps the headers of the upstream's response, and a hit gives them to whoever asks.
So a cookie set for one request is given to another exactly when a lookup finds it stored.
-/
namespace BarebonesProxy.Running
open RustNet RustStrings RustState ProxyConfig Http Cache LruMap RuntimeConfig Server
open EffectPrograms Proxy ProxyProtocol Worker Runs

section Cookies
variable [HttpCrate]

theorem values_hitResponse_cookies (asset : CachedAsset) :
    HeaderMap.values (hitResponse asset).headers .setCookie =
      HeaderMap.values asset.headers .setCookie :=
  HeaderMap.values_insert_ne _ _ (by decide)

variable [TlsCrate] [LruCrate]

/-- No cookie that the upstream set in answer to one request is in the response to another
that was answered from the cache. -/
def CookiesApart (s : System) : Prop :=
  ∀ (i j : ℕ) (task other : RequestTask) (asset : CachedAsset) (response answer : Response),
    s.requests[i]? = some task → s.requests[j]? = some other → i ≠ j → Hit task asset →
    task.program = some (.pure (.ok response)) → Fetched other.trace answer →
    ∀ cookie ∈ HeaderMap.values answer.headers .setCookie,
      cookie ∉ HeaderMap.values response.headers .setCookie

def HitsUncookied (s : System) : Prop :=
  ∀ (task : RequestTask) (asset : CachedAsset), task ∈ s.requests → Hit task asset →
    HeaderMap.values asset.headers .setCookie = []

/-- The fresh entry that a request is about to find sets no cookie. -/
def LookupUncookied (s : System) : Action → Prop
  | .serve i _ => ∀ (task : RequestTask) (engine : ℕ) (key : Str)
      (k : Option CachedAsset → Program (Except BoxError Response)) (asset : CachedAsset),
      s.requests[i]? = some task → task.program = some (.op (.cacheGet engine key) k) →
      (key, asset) ∈ (s.server.heap.engines engine).held → asset.isExpired s.now = false →
      HeaderMap.values asset.headers .setCookie = []
  | _ => True

def FetchedUncookied (s : System) : Prop :=
  ∀ (task : RequestTask) (answer : Response), task ∈ s.requests → Fetched task.trace answer →
    HeaderMap.values answer.headers .setCookie = []

def AnswersUncookied : Action → Prop
  | .serve _ answer => ∀ response, answer.response = some response →
      HeaderMap.values response.headers .setCookie = []
  | _ => True

variable [CaseMapping] {s : System}

theorem hit_unfetched (hc : Consistent s) {task : RequestTask} (htask : task ∈ s.requests)
    {asset : CachedAsset} (hhit : Hit task asset) (answer : Response) :
    ¬ Fetched task.trace answer := by
  obtain ⟨engine, key, hmem⟩ := hhit
  obtain ⟨p, hreach, -⟩ := (hc.tasks task htask).reached
  obtain ⟨-, t, htrace, hunsent⟩ := hit_last hreach hmem
  rintro ⟨request, hfetch⟩
  rw [htrace] at hfetch
  rcases List.mem_append.mp hfetch with hfetch | hfetch
  · exact absurd (hunsent _ hfetch) (by simp [isSent])
  · cases List.mem_singleton.mp hfetch

theorem cookiesApart_iff (hc : Consistent s) : CookiesApart s ↔ HitsUncookied s := by
  constructor
  · intro hapart task asset htask hhit
    obtain ⟨i, hi⟩ := List.mem_iff_getElem?.mp htask
    obtain ⟨hprogram, j, other, answer, engine, -, hsupplies, -⟩ := hit_supplied hc htask hhit
    -- a request that was answered from the cache has fetched nothing itself
    have hij : i ≠ j := by
      intro hij
      have hsame : other = task :=
        Option.some.inj (hsupplies.request.symm.trans (hij ▸ hi))
      exact hit_unfetched hc htask hhit answer (hsame ▸ hsupplies.fetched)
    rw [List.eq_nil_iff_forall_not_mem]
    intro cookie hcookie
    refine hapart i j task other asset _ answer hi hsupplies.request hij hhit hprogram
      hsupplies.fetched cookie ?_ ?_
    · rw [← hsupplies.headers]
      exact hcookie
    · rw [values_hitResponse_cookies]
      exact hcookie
  · intro hhits i j task other asset response answer hi hj _ hhit hprogram _ cookie _ hcookie
    have htask := List.mem_of_getElem? hi
    obtain ⟨hended, -⟩ := hit_supplied hc htask hhit
    rw [hended] at hprogram
    cases hprogram
    rw [values_hitResponse_cookies, hhits task asset htask hhit] at hcookie
    cases hcookie

/-- Of all steps, only a lookup can bring in a stored cookie. -/
theorem step_uncookied_iff (hc : Consistent s) (h : HitsUncookied s) (a : Action) :
    HitsUncookied (s.step a) ↔ LookupUncookied s a := by
  constructor
  · intro hnext
    cases a with
    | serve i answer =>
      intro task engine key k asset htask hprogram hheld hfresh
      have hget : ((s.server.heap.engines engine).get s.now key).1 = some asset :=
        (get_eq_some_iff (hc.unpoisoned engine)).mpr ⟨hheld, hfresh⟩
      rcases serve_cases s i answer with ⟨-, hidle⟩ | ⟨task', e, k', htask', hprogram', hcase⟩
      · exact absurd hprogram (hidle task (.cacheGet engine key) k htask)
      · have hsame : task' = task := Option.some.inj (htask'.symm.trans htask)
        rw [hsame, hprogram] at hprogram'
        cases hprogram'
        rcases hcase with ⟨reply, hreply, heq⟩ | ⟨hpanic, -⟩
        · have hasset : reply = some asset := (Outcome.returned.inj hreply).symm.trans hget
          refine hnext (task'.answered s.origin (.cacheGet engine key) k reply) asset ?_ ?_
          · change _ ∈ (s.serve i answer).requests
            rw [heq]
            have hlt : i < s.requests.length := (List.getElem?_eq_some_iff.mp htask).1
            exact List.mem_of_getElem? (List.getElem?_set_self hlt)
          · refine ⟨engine, key, List.mem_append_right _ ?_⟩
            rw [hasset]
            exact .head _
        · cases hpanic
    | _ => trivial
  · intro hlookup task' asset htask' hhit
    obtain ⟨engine, key, hmem⟩ := hhit
    rcases step_traces s a htask' with hnil | ⟨task, htask, htrace⟩ |
      ⟨i, answer, task, e, k, reply, rfl, htask, hprogram, hreply, htrace⟩
    · rw [hnil] at hmem
      cases hmem
    · exact h task asset htask ⟨engine, key, htrace ▸ hmem⟩
    · rw [htrace] at hmem
      rcases List.mem_append.mp hmem with hmem | hmem
      · exact h task asset (List.mem_of_getElem? htask) ⟨engine, key, hmem⟩
      · cases List.mem_singleton.mp hmem
        obtain ⟨hheld, hfresh⟩ :=
          (get_eq_some_iff (hc.unpoisoned engine)).mp (Outcome.returned.inj hreply)
        exact hlookup task engine key k asset htask hprogram hheld hfresh

/-- Cookies stay with their requests all along a run exactly when no lookup of the run finds
a fresh entry that sets one. -/
theorem cookies_apart_iff {env : Environment} {config : Config} {server : ServerState}
    (hstart : ServerState.new env config = .returned (.ok server)) (actions : List Action) :
    (∀ before, before <+: actions → CookiesApart ((System.start server).after before)) ↔
      ∀ before a, before ++ [a] <+: actions →
        LookupUncookied ((System.start server).after before) a := by
  have hstep : ∀ (s : System), ∀ a ∈ actions, Consistent s → CookiesApart s →
      (CookiesApart (s.step a) ↔ LookupUncookied s a) := by
    intro s a _ hc hapart
    rw [cookiesApart_iff hc] at hapart
    rw [cookiesApart_iff (step_consistent s a hc)]
    exact step_uncookied_iff hc hapart a
  refine always_iff_steps (fun s a _ hc => step_consistent s a hc) hstep (start_consistent hstart) ?_
  intro i j task other asset response answer hi
  cases hi

theorem FetchedUncookied.lookup (hc : Consistent s) (h : FetchedUncookied s) (a : Action) :
    LookupUncookied s a := by
  cases a with
  | serve i answer =>
    intro task engine key k asset _ _ hheld _
    obtain ⟨j, -, hsupplied⟩ := hc.held engine key asset hheld
    obtain ⟨other, response, hsupplies, -⟩ := hsupplied.supplies hc
    rw [hsupplies.headers]
    exact h other response (List.mem_of_getElem? hsupplies.request) hsupplies.fetched
  | _ => trivial

theorem step_fetchedUncookied {a : Action} (h : FetchedUncookied s) (ha : AnswersUncookied a) :
    FetchedUncookied (s.step a) := by
  have hfetched := step_fetched (fun task htask request response hmem =>
    h task response htask ⟨request, hmem⟩) (a := a) ?_
  · intro task response htask ⟨request, hmem⟩
    exact hfetched task htask request response hmem
  · rintro i answer task request k response rfl _ _ hresponse
    exact ha response hresponse

theorem after_fetchedUncookied (server : ServerState) {actions : List Action}
    (h : ∀ a ∈ actions, AnswersUncookied a) :
    FetchedUncookied ((System.start server).after actions) := by
  have hstep : ∀ (s : System) (a : Action), FetchedUncookied s → AnswersUncookied a →
      FetchedUncookied (s.step a) := fun _ _ => step_fetchedUncookied
  refine always_of_steps hstep ?_ ?_ actions List.prefix_rfl
  · intro task answer htask
    cases htask
  · intro before a hrun
    exact h a (hrun.subset (List.mem_append_right _ (.head _)))

end Cookies

section Example
open ListCrates

/-- Two clients connect; the first gets the sheet from the upstream, and then the second
asks for it. -/
def twoVisits (answer : Response) : List Action :=
  [.accept ⟨[], .eof⟩ ⟨.v4 ⟨10, 0, 0, 1⟩, 4000⟩, .connect 0 silence, .connect 0 silence,
    .accept ⟨[], .eof⟩ ⟨.v4 ⟨10, 0, 0, 2⟩, 4000⟩, .connect 1 silence, .connect 1 silence,
    .request 0 styleSheet, .serve 0 silence, .serve 0 silence, .serve 0 silence,
    .serve 0 ⟨some answer, true⟩, .serve 0 silence, .insert 0,
    .request 1 styleSheet, .serve 1 silence, .serve 1 silence, .serve 1 silence]

def sheetWith (cookies : List Str) : Response :=
  ⟨.ok, (HeaderName.contentType, "text/css".toList) :: cookies.map fun c => (.setCookie, c),
    .full [42]⟩

structure CookieView where
  connection : ℕ
  source : Option ℕ
  cookies : List Str
deriving DecidableEq

def RequestTask.cookieView (task : RequestTask) : CookieView where
  connection := task.connection
  source := task.source
  cookies := match task.program with
    | some (.pure (.ok response)) => HeaderMap.values response.headers .setCookie
    | _ => []

theorem plain_sheet_apart :
    ((System.start shopServer).after (twoVisits (sheetWith []))).requests.map
        RequestTask.cookieView = [⟨0, none, []⟩, ⟨1, some 0, []⟩] ∧
      CookiesApart ((System.start shopServer).after (twoVisits (sheetWith []))) := by
  have huncookied : ∀ a ∈ twoVisits (sheetWith []), AnswersUncookied a := by
    have hnone : HeaderMap.values (sheetWith []).headers .setCookie = [] := rfl
    simp [twoVisits, AnswersUncookied, silence, hnone]
  refine ⟨by decide +kernel, (cookies_apart_iff new_shop _).mpr ?_ _ List.prefix_rfl⟩
  intro before a hrun
  have hc := after_consistent new_shop before
  refine (after_fetchedUncookied shopServer fun b hb => ?_).lookup hc a
  exact huncookied b (hrun.subset (List.mem_append_left _ hb))

/-- The second client gets the cookie that the upstream set for the first. -/
theorem cookie_given_to_other :
    ((System.start shopServer).after (twoVisits (sheetWith ["sid=1".toList]))).requests.map
        RequestTask.cookieView = [⟨0, none, ["sid=1".toList]⟩, ⟨1, some 0, ["sid=1".toList]⟩] ∧
      ¬ CookiesApart ((System.start shopServer).after (twoVisits (sheetWith ["sid=1".toList]))) := by
  have hviews : ((System.start shopServer).after
      (twoVisits (sheetWith ["sid=1".toList]))).requests.map RequestTask.cookieView =
      [⟨0, none, ["sid=1".toList]⟩, ⟨1, some 0, ["sid=1".toList]⟩] := by
    decide +kernel
  refine ⟨hviews, fun hapart => ?_⟩
  have hc := after_consistent new_shop (twoVisits (sheetWith ["sid=1".toList]))
  rw [cookiesApart_iff hc] at hapart
  obtain ⟨task, htask, hview⟩ : ∃ task ∈ ((System.start shopServer).after
      (twoVisits (sheetWith ["sid=1".toList]))).requests,
      task.cookieView = ⟨1, some 0, ["sid=1".toList]⟩ := by
    rw [← List.mem_map, hviews]
    exact .tail _ (.head _)
  obtain ⟨asset, hhit⟩ := hit_of_source (hc.tasks task htask) (congrArg CookieView.source hview)
  obtain ⟨hprogram, -⟩ := hit_supplied hc htask hhit
  have hcookies := congrArg CookieView.cookies hview
  unfold RequestTask.cookieView at hcookies
  rw [hprogram] at hcookies
  dsimp only at hcookies
  rw [values_hitResponse_cookies, hapart task asset htask hhit] at hcookies
  cases hcookies

end Example

end BarebonesProxy.Running
