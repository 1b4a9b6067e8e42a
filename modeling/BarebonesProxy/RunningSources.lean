import BarebonesProxy.CacheCookies
import BarebonesProxy.RequestStages

set_option autoImplicit false

/-!
# Where the responses of a run come from

Requests of many clients run side by side and share the cache. What one of them is given is
a page of the proxy about itself, an answer to a request that was sent on its behalf, or
what the upstream answered to another request with its cache key and its configuration.
-/
namespace BarebonesProxy.Running
open RustNet RustStrings RustState ProxyConfig Routing Http Cache LruMap RuntimeConfig Server
open EffectPrograms Proxy ProxyProtocol Worker Runs

theorem body_of_collect {body : Body} {data : List UInt8} (h : body.collect = some data) :
    body = .full data := by
  obtain ⟨bytes, failed⟩ := body
  cases failed with
  | true => cases h
  | false =>
    cases h
    rfl

section Sources
variable [HttpCrate] [TlsCrate]

/-- The upstream was asked with the request that the proxy makes of this one. -/
def SentFor (x : Exchange) (request : ForwardedRequest) : Prop :=
  ∃ m headers, x.matched = some m ∧ x.forwardedRequest m headers = .ok request

theorem sentFor_of_mem [CaseMapping] {t : ProxyTrace} {x : Exchange}
    {p : Program (Except BoxError Response)} (h : Reaches (handleRequest x) t p)
    {request : ForwardedRequest} {answer : Option Response}
    (hmem : (⟨.upstreamRequest request, answer⟩ : (e : Effect) × e.Reply) ∈ t) :
    SentFor x request := by
  obtain ⟨-, -, -, m, headers, hm, -, hrequest⟩ := permitted_of_mem h hmem
  exact ⟨m, headers, hm, hrequest⟩

variable [LruCrate]

/-- Another request was routed under the same configuration, has the same cache key, and
its upstream has given this reply. -/
structure SharedBy (s : System) (task other : RequestTask) (reply : Response) : Prop where
  served : other ∈ s.requests
  apart : other ≠ task
  config : other.exchange.config = task.exchange.config
  key : other.exchange.cacheKey = task.exchange.cacheKey
  fetched : ∃ request, SentFor other.exchange request ∧
    (⟨.upstreamRequest request, some reply⟩ : (e : Effect) × e.Reply) ∈ other.trace
  complete : reply.body.failed = false

/-- Where the status and the body that a client gets come from. -/
inductive Origin (s : System) (task : RequestTask) (response : Response) : Prop
  | page {page : Response} (hpage : page = noResponse444 ∨ ∃ status message,
        page = task.exchange.errorResponse status message)
      (hstatus : response.status = page.status) (hbody : response.body = page.body) :
      Origin s task response
  | provider {request : AuthRequest} {reply : Response} (hasked : AuthAsked task.exchange request)
      (hmem : (⟨.authRequest request, some reply⟩ : (e : Effect) × e.Reply) ∈ task.trace)
      (hdenied : reply.status.isSuccess = false) (hstatus : response.status = reply.status)
      (hbody : response.body = reply.body) : Origin s task response
  | upstream {request : ForwardedRequest} {reply : Response}
      (hsent : SentFor task.exchange request)
      (hmem : (⟨.upstreamRequest request, some reply⟩ : (e : Effect) × e.Reply) ∈ task.trace)
      (hstatus : response.status = reply.status)
      (hbody : response.body = reply.body ∨
        reply.body.failed = true ∧ response.body = .full []) : Origin s task response
  | shared {other : RequestTask} {reply : Response} (hshared : SharedBy s task other reply)
      (hstatus : response.status = reply.status) (hbody : response.body = reply.body) :
      Origin s task response

variable [CaseMapping] {s : System} {task : RequestTask}

/-- The request whose entry a hit has found. -/
theorem shared_of_hit (hc : Consistent s) (hapart : EnginesApart s) (htask : task ∈ s.requests)
    {engine : ℕ} {key : Str} {asset : CachedAsset}
    (hmem : (⟨.cacheGet engine key, some asset⟩ : (e : Effect) × e.Reply) ∈ task.trace) :
    ∃ other reply, SharedBy s task other reply ∧ asset.status = reply.status ∧
      reply.body = .full asset.body := by
  have htracked := hc.tasks task htask
  obtain ⟨p, hreach, -⟩ := htracked.reached
  obtain ⟨-, -, -, hengine, hkey, -⟩ := permitted_of_mem hreach hmem
  obtain ⟨-, j, -, hsupplied⟩ := htracked.hit engine key asset hmem
  obtain ⟨other, reply, hsupplies, hengine', hkey', -⟩ := hsupplied.supplies hc
  have hother : other ∈ s.requests := List.mem_of_getElem? hsupplies.request
  have hbody := body_of_collect hsupplies.body
  obtain ⟨q, hreach', -⟩ := (hc.tasks other hother).reached
  obtain ⟨request, hfetched⟩ := hsupplies.fetched
  refine ⟨other, reply, ⟨hother, ?_, same_config hapart htask hother hengine hengine',
    hkey'.trans hkey, ⟨request, sentFor_of_mem hreach' hfetched, hfetched⟩, ?_⟩,
    hsupplies.status, hbody⟩
  · rintro rfl
    exact hit_unfetched hc htask ⟨engine, key, hmem⟩ reply ⟨request, hfetched⟩
  · rw [hbody]
    rfl

theorem origin_of_source (hc : Consistent s) (hapart : EnginesApart s)
    (htask : task ∈ s.requests) {response : Response}
    (h : Source task.exchange task.trace response) : Origin s task response := by
  obtain ⟨p, hreach, -⟩ := (hc.tasks task htask).reached
  cases h with
  | page hpage hstatus hbody => exact .page hpage hstatus hbody
  | provider hmem hdenied hstatus hbody =>
    obtain ⟨-, -, -, hasked, -⟩ := permitted_of_mem hreach hmem
    exact .provider hasked hmem hdenied hstatus hbody
  | upstream hmem hstatus hbody =>
    exact .upstream (sentFor_of_mem hreach hmem) hmem hstatus hbody
  | cache hmem hstatus hbody =>
    obtain ⟨other, reply, hshared, hstatus', hbody'⟩ := shared_of_hit hc hapart htask hmem
    exact .shared hshared (hstatus.trans hstatus') (hbody.trans hbody'.symm)

/-- No client is given anything that was meant for another one, short of what the cache
shares under one key and one configuration. -/
theorem responses_have_origin {env : Environment} {config : Config} {server : ServerState}
    (hstart : ServerState.new env config = .returned (.ok server)) (actions : List Action) :
    ∀ task ∈ ((System.start server).after actions).requests, ∀ response,
      task.program = some (.pure (.ok response)) →
        Origin ((System.start server).after actions) task response := by
  intro task htask response hprogram
  have hc := after_consistent hstart actions
  have hapart : EnginesApart ((System.start server).after actions) :=
    foldl_invariant _ step_apart (start_apart hstart) actions
  obtain ⟨p, hreach, hsame⟩ := (hc.tasks task htask).reached
  rw [← hsame _ hprogram] at hreach
  have hsettled := post_of_reaches (handleRequest_order task.exchange) hreach
  generalize hresult : Except.ok response = result at hsettled
  cases hsettled with
  | banned ht =>
    cases hresult
    exact .page (.inl rfl) rfl rfl
  | limited ht =>
    cases hresult
    exact .page (.inr ⟨_, _, rfl⟩) rfl rfl
  | behind hscreened hsource =>
    exact origin_of_source hc hapart htask (hsource response hresult.symm)

end Sources

section Example
open ListCrates

theorem answered_of_view {task : RequestTask} {data : List UInt8}
    (h : task.view.body = some data) :
    ∃ response, task.program = some (.pure (.ok response)) ∧ response.body.data = data := by
  unfold RequestTask.view at h
  split at h
  next response hprogram => exact ⟨response, hprogram, Option.some.inj h⟩
  next => cases h

/-- The second client of the run across a reload is given what the first one's upstream
has sent. -/
theorem sheet_has_origin :
    ∃ task ∈ ((System.start shopServer).after sheetAcrossReload).requests, ∃ response,
      task.source = some 0 ∧ response.body.data = [42] ∧
        Origin ((System.start shopServer).after sheetAcrossReload) task response := by
  have hviews : ((System.start shopServer).after sheetAcrossReload).views =
      [⟨none, "a:/x.css".toList, true, 0, some [42]⟩,
        ⟨some 0, "a:/x.css".toList, true, 0, some [42]⟩,
        ⟨none, "a:/x.css".toList, true, 1, none⟩] := by
    decide +kernel
  obtain ⟨task, hi, hview⟩ := task_of_views (i := 1) hviews rfl
  have htask := List.mem_of_getElem? hi
  obtain ⟨response, hprogram, hdata⟩ := answered_of_view (congrArg RequestView.body hview)
  exact ⟨task, htask, response, congrArg RequestView.source hview, hdata,
    responses_have_origin new_shop sheetAcrossReload task htask response hprogram⟩

end Example

end BarebonesProxy.Running
