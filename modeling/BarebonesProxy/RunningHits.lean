import BarebonesProxy.RunningTasks

set_option autoImplicit false

/-!
# Cache hits and the requests that stored them

A hit is the whole answer to its request. Of all steps only a lookup adds one, so a
relation between the requests of every hit and of its entry holds all along a run exactly
when each lookup of the run finds related ones.
-/
namespace BarebonesProxy.Running
open RustNet RustStrings RustState ProxyConfig Http Cache LruMap RuntimeConfig Server
open EffectPrograms Proxy ProxyProtocol Worker Runs

section Provenance
variable [HttpCrate] [TlsCrate] [LruCrate]

/-- The request was answered from the cache with this asset. -/
def Hit (task : RequestTask) (asset : CachedAsset) : Prop :=
  ∃ engine key, (⟨.cacheGet engine key, some asset⟩ : (e : Effect) × e.Reply) ∈ task.trace

/-- The asset is the response that the upstream gave to request `j`. -/
structure Supplies (s : System) (j : ℕ) (other : RequestTask) (asset : CachedAsset)
    (response : Response) : Prop where
  request : s.requests[j]? = some other
  fetched : Fetched other.trace response
  status : asset.status = response.status
  headers : asset.headers = response.headers
  body : response.body.collect = some asset.body

variable [CaseMapping] {s : System}

/-- An entry was stored by a request that was routed, used its engine and has its key. -/
theorem SuppliedBy.supplies (hc : Consistent s) {j engine : ℕ} {key : Str} {asset : CachedAsset}
    (h : SuppliedBy s j engine key asset) :
    ∃ other response, Supplies s j other asset response ∧
      other.exchange.cacheEngine = some engine ∧ other.exchange.cacheKey = key ∧
      other.exchange.matched.isSome = true := by
  obtain ⟨insertion, ⟨other, hother, hspawn⟩, hengine, hkey, hstatus, hheaders, hbody⟩ := h
  obtain ⟨p, hreach, -⟩ := (hc.tasks other (List.mem_of_getElem? hother)).reached
  obtain ⟨t₁, t₂, htrace, used, response, body, hused, ⟨request, hfetch⟩, -, hcollect, rfl⟩ :=
    permitted_of_mem hreach hspawn
  have hfetched : (⟨.upstreamRequest request, some response⟩ : (e : Effect) × e.Reply) ∈
      other.trace := by
    rw [htrace]
    exact List.mem_append_left _ hfetch
  obtain ⟨-, -, -, m, -, hm, -⟩ := permitted_of_mem hreach hfetched
  have hsameEngine : used = engine := hengine
  refine ⟨other, response, ⟨hother, ⟨request, hfetched⟩, hstatus.symm, hheaders.symm, ?_⟩,
    hsameEngine ▸ hused, hkey, ?_⟩
  · rw [hcollect, ← hbody]
    rfl
  · rw [hm]
    rfl

/-- A hit is the whole answer to its request, and its asset was stored by a request with
the same engine and the same key. -/
theorem hit_supplied (hc : Consistent s) {task : RequestTask} (htask : task ∈ s.requests)
    {asset : CachedAsset} (hhit : Hit task asset) :
    task.program = some (.pure (.ok (hitResponse asset))) ∧
    ∃ j other response engine, task.source = some j ∧ Supplies s j other asset response ∧
      task.exchange.cacheEngine = some engine ∧ other.exchange.cacheEngine = some engine := by
  have htracked := hc.tasks task htask
  obtain ⟨engine, key, hmem⟩ := hhit
  obtain ⟨p, hreach, hsame⟩ := htracked.reached
  obtain ⟨hsome, j, hsource, hsupplied⟩ := htracked.hit engine key asset hmem
  obtain ⟨-, -, -, htaskEngine, -⟩ := permitted_of_mem hreach hmem
  obtain ⟨other, response, hsupplies, hengine, -⟩ := hsupplied.supplies hc
  refine ⟨?_, j, other, response, engine, hsource, hsupplies, htaskEngine, hengine⟩
  obtain ⟨q, hq⟩ := Option.isSome_iff_exists.mp hsome
  rw [hq, hsame q hq, (hit_last hreach hmem).1]

/-- A request with a source was answered from the cache. -/
theorem hit_of_source {task : RequestTask} (h : Tracked s task) {j : ℕ}
    (hsource : task.source = some j) : ∃ asset, Hit task asset := by
  have hhit : ¬ NoHit task.trace := by
    intro hmiss
    rw [h.missed hmiss] at hsource
    cases hsource
  obtain ⟨engine, key, asset, hmem⟩ := exists_hit hhit
  exact ⟨asset, engine, key, hmem⟩

/-- What a lookup is about to find. -/
theorem lookup_supplied (hc : Consistent s) {i j engine : ℕ} {task other : RequestTask} {key : Str}
    {k : Option CachedAsset → Program (Except BoxError Response)} {asset : CachedAsset}
    (htask : s.requests[i]? = some task) (hprogram : task.program = some (.op (.cacheGet engine key) k))
    (hheld : (key, asset) ∈ (s.server.heap.engines engine).held)
    (horigin : s.origin engine key = some j) (hother : s.requests[j]? = some other) :
    task.exchange.cacheEngine = some engine ∧ other.exchange.cacheEngine = some engine ∧
      other.exchange.cacheKey = task.exchange.cacheKey ∧ other.exchange.matched.isSome = true := by
  obtain ⟨p, hreach, hsame⟩ := (hc.tasks task (List.mem_of_getElem? htask)).reached
  rw [← hsame _ hprogram] at hreach
  obtain ⟨hengine, hkey, -⟩ := permitted_of_reaches hreach
  obtain ⟨i, hi, hsupplied⟩ := hc.held engine key asset hheld
  obtain ⟨found, response, hsupplies, hengine', hkey', hmatched⟩ := hsupplied.supplies hc
  have hij : i = j := Option.some.inj (hi.symm.trans horigin)
  have hfound : s.requests[j]? = some found := hij ▸ hsupplies.request
  have hsameTask : found = other := Option.some.inj (hfound.symm.trans hother)
  rw [hsameTask] at hengine' hkey' hmatched
  exact ⟨hengine, hengine', hkey'.trans hkey, hmatched⟩

end Provenance

section Relations
variable [HttpCrate] [TlsCrate] [LruCrate] (R : Exchange → Exchange → Prop)

/-- Each request that was answered from the cache is related to the one that stored its
entry. -/
def HitsRelated (s : System) : Prop :=
  ∀ (j : ℕ) (task other : RequestTask), task ∈ s.requests → task.source = some j →
    s.requests[j]? = some other → R task.exchange other.exchange

/-- Each hit is the whole answer to its request and gives what the upstream answered to a
related one. -/
def HitsFrom (s : System) : Prop :=
  ∀ (task : RequestTask) (asset : CachedAsset), task ∈ s.requests → Hit task asset →
    task.program = some (.pure (.ok (hitResponse asset))) ∧
    ∃ j other response, task.source = some j ∧ Supplies s j other asset response ∧
      R task.exchange other.exchange

/-- A request about to look up its key is related to the one that stored the fresh entry
it finds there. -/
def LookupRelated (s : System) : Action → Prop
  | .serve i _ => ∀ (task other : RequestTask) (engine : ℕ) (key : Str)
      (k : Option CachedAsset → Program (Except BoxError Response)) (asset : CachedAsset) (j : ℕ),
      s.requests[i]? = some task → task.program = some (.op (.cacheGet engine key) k) →
      (key, asset) ∈ (s.server.heap.engines engine).held → asset.isExpired s.now = false →
      s.origin engine key = some j → s.requests[j]? = some other → R task.exchange other.exchange
  | _ => True

theorem lookupRelated_of_all {R : Exchange → Exchange → Prop} {s : System}
    (h : ∀ task ∈ s.requests, ∀ other ∈ s.requests, R task.exchange other.exchange) (a : Action) :
    LookupRelated R s a := by
  cases a with
  | serve i answer =>
    intro task other engine key k asset j htask _ _ _ _ hother
    exact h task (List.mem_of_getElem? htask) other (List.mem_of_getElem? hother)
  | _ => trivial

theorem Extends.exchange_eq {s s' : System} (h : Extends s s') {j : ℕ} {other other' : RequestTask}
    (hother : s.requests[j]? = some other) (hother' : s'.requests[j]? = some other') :
    other'.exchange = other.exchange := by
  obtain ⟨found, hfound, hexchange, -⟩ := h j other hother
  have hsame : other' = found := Option.some.inj (hother'.symm.trans hfound)
  rw [hsame, hexchange]

variable {R} [CaseMapping] {s : System}

theorem source_exists {task : RequestTask} (h : Tracked s task) {j : ℕ}
    (hsource : task.source = some j) : ∃ other, s.requests[j]? = some other := by
  obtain ⟨asset, engine, key, hmem⟩ := hit_of_source h hsource
  obtain ⟨-, i, hi, insertion, ⟨other, hother, -⟩, -⟩ := h.hit engine key asset hmem
  have hsame : i = j := Option.some.inj (hi.symm.trans hsource)
  exact ⟨other, hsame ▸ hother⟩

theorem hitsFrom_iff (hc : Consistent s) : HitsFrom R s ↔ HitsRelated R s := by
  constructor
  · intro h j task other htask hsource hother
    obtain ⟨asset, hhit⟩ := hit_of_source (hc.tasks task htask) hsource
    obtain ⟨-, i, found, response, hi, hsupplies, hrelated⟩ := h task asset htask hhit
    have hij : i = j := Option.some.inj (hi.symm.trans hsource)
    have hfound : s.requests[j]? = some found := hij ▸ hsupplies.request
    have hsame : found = other := Option.some.inj (hfound.symm.trans hother)
    exact hsame ▸ hrelated
  · intro h task asset htask hhit
    obtain ⟨hprogram, j, other, response, engine, hsource, hsupplies, -⟩ := hit_supplied hc htask hhit
    exact ⟨hprogram, j, other, response, hsource, hsupplies,
      h j task other htask hsource hsupplies.request⟩

/-- A step that adds no source. -/
theorem HitsRelated.mono {s' : System} (hc : Consistent s) (h : HitsRelated R s)
    (hext : Extends s s') (hsource : ∀ task' ∈ s'.requests, task'.source = none ∨
      ∃ task ∈ s.requests, task.source = task'.source ∧ task.exchange = task'.exchange) :
    HitsRelated R s' := by
  intro j task' other' htask' hj hother'
  rcases hsource task' htask' with hnone | ⟨task, htask, hsame, hexchange⟩
  · rw [hnone] at hj
    cases hj
  · have hold := hsame.trans hj
    obtain ⟨other, hother⟩ := source_exists (hc.tasks task htask) hold
    rw [hext.exchange_eq hother hother', ← hexchange]
    exact h j task other htask hold hother

/-- An answer to a lookup brings a source exactly as the condition says. -/
theorem lookupRelated_iff (hc : Consistent s) {i : ℕ} {answer : Answer} {task : RequestTask}
    {e : Effect} {k : e.Reply → Program (Except BoxError Response)} {reply : e.Reply}
    (htask : s.requests[i]? = some task) (hprogram : task.program = some (.op e k))
    (hreply : (perform s.server.heap s.now answer e).1 = .returned reply) :
    LookupRelated R s (.serve i answer) ↔
      ∀ j other, hitSource s.origin ⟨e, reply⟩ = some j → s.requests[j]? = some other →
        R task.exchange other.exchange := by
  constructor
  · intro hrelated j other hj hother
    cases e with
    | cacheGet engine key =>
      cases reply with
      | none => cases hj
      | some asset =>
        have hget : ((s.server.heap.engines engine).get s.now key).1 = some asset :=
          Outcome.returned.inj hreply
        obtain ⟨hheld, hfresh⟩ := (get_eq_some_iff (hc.unpoisoned engine)).mp hget
        exact hrelated task other engine key k asset j htask hprogram hheld hfresh hj hother
    | _ => cases hj
  · intro hsource task' other engine key k' asset j htask' hprogram' hheld hfresh horigin hother
    have hsame : task' = task := Option.some.inj (htask'.symm.trans htask)
    rw [hsame] at hprogram' ⊢
    rw [hprogram] at hprogram'
    cases hprogram'
    have hget : ((s.server.heap.engines engine).get s.now key).1 = some asset :=
      (get_eq_some_iff (hc.unpoisoned engine)).mpr ⟨hheld, hfresh⟩
    have hasset : reply = some asset := (Outcome.returned.inj hreply).symm.trans hget
    rw [hasset] at hsource
    exact hsource j other horigin hother

/-- The step that gives a request its reply, against the source that the reply brings. -/
theorem answered_related_iff (hc : Consistent s) (h : HitsRelated R s) {i : ℕ} {answer : Answer}
    {task : RequestTask} {e : Effect} {k : e.Reply → Program (Except BoxError Response)}
    {reply : e.Reply} (htask : s.requests[i]? = some task) (hprogram : task.program = some (.op e k))
    (hreply : (perform s.server.heap s.now answer e).1 = .returned reply) {s' : System}
    (hset : s'.requests = s.requests.set i (task.answered s.origin e k reply))
    (hext : Extends s s') :
    HitsRelated R s' ↔ ∀ j other, hitSource s.origin ⟨e, reply⟩ = some j →
      s.requests[j]? = some other → R task.exchange other.exchange := by
  have hlt : i < s.requests.length := (List.getElem?_eq_some_iff.mp htask).1
  have htracked := hc.tasks task (List.mem_of_getElem? htask)
  have hnone : task.source = none := htracked.missed (htracked.noHit hprogram).2
  have hsource : (task.answered s.origin e k reply).source = hitSource s.origin ⟨e, reply⟩ := by
    change (hitSource s.origin ⟨e, reply⟩).or task.source = _
    rw [hnone, Option.or_none]
  constructor
  · intro h' j other hj hother
    obtain ⟨other', hother', hexchange, -⟩ := hext j other hother
    rw [← hexchange]
    refine h' j (task.answered s.origin e k reply) other' ?_ (hsource.trans hj) hother'
    rw [hset]
    exact List.mem_of_getElem? (List.getElem?_set_self hlt)
  · intro hrelated j task' other' htask' hj hother'
    rw [hset] at htask'
    rcases List.mem_or_eq_of_mem_set htask' with hmem | rfl
    · obtain ⟨other, hother⟩ := source_exists (hc.tasks task' hmem) hj
      rw [hext.exchange_eq hother hother']
      exact h j task' other hmem hj hother
    · obtain ⟨other, hother⟩ := source_exists (answered_tracked hc htask hprogram hreply) hj
      rw [hext.exchange_eq hother hother']
      exact hrelated j other (hsource.symm.trans hj) hother

theorem serve_related_iff (hc : Consistent s) (h : HitsRelated R s) (i : ℕ) (answer : Answer) :
    HitsRelated R (s.serve i answer) ↔ LookupRelated R s (.serve i answer) := by
  rcases serve_cases s i answer with ⟨heq, hidle⟩ | ⟨task, e, k, htask, hprogram, hcase⟩
  · rw [heq]
    refine iff_of_true h ?_
    intro task other engine key k asset j htask hprogram
    exact absurd hprogram (hidle task (.cacheGet engine key) k htask)
  · rcases hcase with ⟨reply, hreply, heq⟩ | ⟨hpanic, heq⟩
    · rw [lookupRelated_iff hc htask hprogram hreply, heq]
      exact answered_related_iff hc h htask hprogram hreply rfl
        (.of_set htask rfl rfl rfl fun x hx => List.mem_append_left _ hx)
    · rw [heq]
      refine iff_of_true ?_ ?_
      · refine h.mono hc (.of_set htask rfl rfl rfl fun x hx => hx) ?_
        intro task' htask'
        rcases List.mem_or_eq_of_mem_set htask' with hmem | rfl
        · exact .inr ⟨task', hmem, rfl, rfl⟩
        · exact .inr ⟨task, List.mem_of_getElem? htask, rfl, rfl⟩
      · intro task' other engine key k' asset j htask' hprogram'
        have hsame : task' = task := Option.some.inj (htask'.symm.trans htask)
        rw [hsame, hprogram] at hprogram'
        cases hprogram'
        cases hpanic

theorem request_related (hc : Consistent s) (h : HitsRelated R s) (i : ℕ) (request : Request) :
    HitsRelated R (s.request i request) := by
  refine h.mono hc (request_extends s i request) ?_
  intro task' htask'
  rcases request_cases s i request with heq | ⟨connection, served, -, -, heq⟩
  · rw [heq] at htask'
    exact .inr ⟨task', htask', rfl, rfl⟩
  · rw [heq] at htask'
    rcases List.mem_append.mp htask' with hmem | hmem
    · exact .inr ⟨task', hmem, rfl, rfl⟩
    · rw [List.mem_singleton.mp hmem]
      exact .inl rfl

/-- Of all steps, only a lookup can bring in an unrelated hit. -/
theorem step_related_iff (hc : Consistent s) (h : HitsRelated R s) (a : Action) :
    HitsRelated R (s.step a) ↔ LookupRelated R s a := by
  have hsame : ∀ s' : System, s'.requests = s.requests → HitsRelated R s' := by
    intro s' hrequests
    unfold HitsRelated
    rw [hrequests]
    exact h
  cases a with
  | serve i answer => exact serve_related_iff hc h i answer
  | request i request => exact iff_of_true (request_related hc h i request) trivial
  | accept stream peerAddr => exact iff_of_true (hsame _ rfl) trivial
  | connect i answer => exact iff_of_true (hsame _ (connect_frame s i answer).2) trivial
  | insert i => exact iff_of_true (hsame _ (insert_frame s i).2.2) trivial
  | tick duration => exact iff_of_true (hsame _ rfl) trivial
  | reload env => exact iff_of_true (hsame _ rfl) trivial

end Relations

end BarebonesProxy.Running
