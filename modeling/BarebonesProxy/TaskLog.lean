import BarebonesProxy.AccessLog

set_option autoImplicit false

/-!
# The log of a request and of the task it leaves behind

A request may leave a task behind that stores its response or copies its tunnel. It runs on
when the request is answered and has the last word in the log.
-/
namespace BarebonesProxy.RequestLog
open RustNet RustStrings ProxyConfig Routing Http Cache RuntimeConfig ErrorPages EffectPrograms
open Handler Proxy Log LruMap RustState

abbrev TaskTrace [HttpCrate] := Trace TaskOp TaskOp.Reply

section Meaning
variable [HttpCrate] [TlsCrate] [CaseMapping] (x : Exchange) (t : ProxyTrace)

/-- The upstream of the route has agreed to the upgrade that the client asked for. -/
structure Switched (m : MatchedRoute) : Prop where
  route : x.matched = some m
  asked : isUpgradeRequest x.request.headers = true
  agreed : ∃ response, Fetched t response ∧ response.status = .switchingProtocols

/-- The engine of the route has replied to the insertion of what the upstream sent. -/
def Replied (v : TaskTrace) (engine : ℕ) (status : StatusCode)
    (reply : InsertResult × List EvictionRecord) : Prop :=
  ∃ response body, x.cacheEngine = some engine ∧ Fetched t response ∧
    response.status = status ∧ response.body.collect = some body ∧
    (⟨.insert (insertionOf x engine response body), reply⟩ : (e : TaskOp) × e.Reply) ∈ v

def clientUpgraded (reply : Except Str Unit) : (e : TaskOp) × e.Reply := ⟨.clientUpgrade, reply⟩

def upstreamUpgraded (reply : Except Str Unit) : (e : TaskOp) × e.Reply :=
  ⟨.upstreamUpgrade, reply⟩

def bytesCopied (reply : Except Str (ℕ × ℕ)) : (e : TaskOp) × e.Reply := ⟨.copyBidirectional, reply⟩

/-- What the request and its task have done when the task writes a line. -/
inductive TaskGenuine (v : TaskTrace) (s : Notes) : Line → Prop
  | evicted {engine : ℕ} {status : StatusCode} {result : InsertResult}
      {records : List EvictionRecord} {record : EvictionRecord}
      (h : Replied x t v engine status (result, records)) (hrecord : record ∈ records) :
      TaskGenuine v s (evictionLine record)
  | inserted {engine : ℕ} {status : StatusCode} {result : InsertResult}
      {records : List EvictionRecord} {stats : CacheStats}
      (h : Replied x t v engine status (result, records)) (hstats : StatsRead s engine stats)
      (hinserted : result.inserted = true) : TaskGenuine v s (insertedLine x status result stats)
  | notInserted {engine : ℕ} {status : StatusCode} {result : InsertResult}
      {records : List EvictionRecord} {stats : CacheStats}
      (h : Replied x t v engine status (result, records)) (hstats : StatsRead s engine stats)
      (hinserted : result.inserted = false) :
      TaskGenuine v s (notInsertedLine x status result stats)
  | handshakeFailed {m : MatchedRoute} {error : Str} (h : Switched x t m)
      (hclient : clientUpgraded (.error error) ∈ v) :
      TaskGenuine v s (upgradeHandshakeFailedLine x m.upstreamAddr error)
  | upgradeFailed {m : MatchedRoute} {error : Str} (h : Switched x t m)
      (hclient : clientUpgraded (.ok ()) ∈ v) (hupstream : upstreamUpgraded (.error error) ∈ v) :
      TaskGenuine v s (upstreamUpgradeFailedLine x m.upstreamAddr error)
  | tunnelFailed {m : MatchedRoute} {error : Str} (h : Switched x t m)
      (hclient : clientUpgraded (.ok ()) ∈ v) (hupstream : upstreamUpgraded (.ok ()) ∈ v)
      (hcopied : bytesCopied (.error error) ∈ v) :
      TaskGenuine v s (upgradeTunnelErrorLine x m.upstreamAddr error)
  | tunnelClosed {m : MatchedRoute} {toUpstream toClient : ℕ} (h : Switched x t m)
      (hclient : clientUpgraded (.ok ()) ∈ v) (hupstream : upstreamUpgraded (.ok ()) ∈ v)
      (hcopied : bytesCopied (.ok (toUpstream, toClient)) ∈ v) :
      TaskGenuine v s (upgradeTunnelClosedLine x m.upstreamAddr toUpstream toClient)

end Meaning

section Tasks

def isEviction (line : Line) : Bool := line.event == "cache_eviction".toList

/-- A task has written one line of its own, behind those of its evictions, and none that
lists a request. -/
structure Closed (s : Notes) : Prop where
  unlisted : Unlisted s
  last : ∃ (records : List EvictionRecord) (line : Line),
    linesOf s = records.map evictionLine ++ [line] ∧ isEviction line = false

def evictionNotes (records : List EvictionRecord) : Notes :=
  records.map fun record => ⟨.line (evictionLine record), ()⟩

theorem linesOf_evictionNotes (records : List EvictionRecord) :
    linesOf (evictionNotes records) = records.map evictionLine := by
  unfold linesOf evictionNotes
  rw [List.filterMap_map]
  exact congrFun List.filterMap_eq_map records

theorem closed_last {s : Notes} {records : List EvictionRecord} {line : Line}
    (hs : linesOf s = records.map evictionLine) (hline : isRequest line = false)
    (hown : isEviction line = false) : Closed (s ++ [⟨.line line, ()⟩]) := by
  have hunlisted : Unlisted s := by
    intro line hmem
    rw [hs] at hmem
    obtain ⟨record, -, rfl⟩ := List.mem_map.mp hmem
    rfl
  refine ⟨hunlisted.write hline, records, line, ?_, hown⟩
  rw [linesOf_append, hs]
  rfl

theorem closed_alone {line : Line} (hline : isRequest line = false)
    (hown : isEviction line = false) : Closed [⟨.line line, ()⟩] :=
  @closed_last [] [] line rfl hline hown

theorem wp_writeEvictions [HttpCrate] {genuine : TaskTrace → Notes → Line → Prop} {β : Type}
    {left : TaskTrace → Notes → Unit → Prop} {post : TaskTrace → Notes → β → Prop}
    {v : TaskTrace} {s : Notes} {records : List EvictionRecord}
    {f : Unit → NotedHandler TaskOp.Reply Note.Reply Unit β}
    (hlines : ∀ record ∈ records, ∀ s, genuine v s (evictionLine record))
    (h : wpNH (LinesSound genuine) left post (f ()) v (s ++ evictionNotes records)) :
    wpNH (LinesSound genuine) left post (writeEvictions records >>= f) v s := by
  induction records generalizing s with
  | nil =>
    change wpNH (LinesSound genuine) left post (f ()) v s
    rwa [evictionNotes, List.map_nil, List.append_nil] at h
  | cons record records ih =>
    rw [writeEvictions, Handler.bind_assoc]
    refine wp_write (hlines record (.head _) s) (ih (fun r hr => hlines r (.tail _ hr)) ?_)
    rwa [List.append_assoc]

variable [HttpCrate] [TlsCrate] {x : Exchange} {t : ProxyTrace}

theorem insertionTask_genuine {engine : ℕ} {response : Response} {body : List UInt8}
    (hengine : x.cacheEngine = some engine) (hfetched : Fetched t response)
    (hcollect : response.body.collect = some body) :
    wpN (LinesSound (TaskGenuine x t)) (fun _ s _ => Closed s)
      (insertionTask x (insertionOf x engine response body)) [] [] := by
  unfold insertionTask runInsert
  rw [wpN_run]
  refine wpNH_ask fun (result, records) => ?_
  have hreplied : Replied x t [⟨.insert (insertionOf x engine response body), (result, records)⟩]
      engine response.status (result, records) :=
    ⟨response, body, hengine, hfetched, rfl, hcollect, .head _⟩
  refine wp_writeEvictions (fun record hrecord _ => .evicted hreplied hrecord) ?_
  refine wp_cacheStats fun stats => ?_
  have hstats := statsRead_last (evictionNotes records) engine stats
  have hlines : linesOf (evictionNotes records ++ stats.notes engine) =
      records.map evictionLine := by
    rw [linesOf_append, linesOf_stats, List.append_nil, linesOf_evictionNotes]
  split
  · next hinserted =>
    exact wp_write (.inserted hreplied hstats hinserted) (closed_last hlines rfl rfl)
  · next hinserted =>
    exact wp_write (.notInserted hreplied hstats (eq_false_of_ne_true hinserted))
      (closed_last hlines rfl rfl)

theorem tunnelTask_genuine {m : MatchedRoute} (h : Switched x t m) :
    wpN (LinesSound (TaskGenuine x t)) (fun _ s _ => Closed s) (tunnelTask x m.upstreamAddr)
      [] [] := by
  unfold tunnelTask clientUpgrade upstreamUpgrade copyBidirectional
  rw [wpN_run]
  refine wpNH_ask fun client => ?_
  cases client with
  | error e => exact wp_write (.handshakeFailed h (.head _)) (closed_alone rfl rfl)
  | ok _ =>
    refine wpNH_ask fun upstream => ?_
    cases upstream with
    | error e =>
      exact wp_write (.upgradeFailed h (.head _) (.tail _ (.head _))) (closed_alone rfl rfl)
    | ok _ =>
      refine wpNH_ask fun copy => ?_
      cases copy with
      | error e =>
        exact wp_write (.tunnelFailed h (.head _) (.tail _ (.head _)) (.tail _ (.tail _ (.head _))))
          (closed_alone rfl rfl)
      | ok bytes =>
        exact wp_write (.tunnelClosed h (.head _) (.tail _ (.head _)) (.tail _ (.tail _ (.head _))))
          (closed_alone rfl rfl)

variable [CaseMapping]

/-- The task of an operation that a request has performed. -/
theorem task_genuine {p : Program (Except BoxError Response)} {e : Effect} {r : e.Reply}
    {task : Noted TaskOp.Reply Note.Reply Unit} (h : Reaches (Proxy.handleRequest x) t p)
    (hmem : (⟨e, r⟩ : (e : Effect) × e.Reply) ∈ t) (htask : taskOf x e = some task) :
    wpN (LinesSound (TaskGenuine x t)) (fun _ s _ => Closed s) task [] [] := by
  cases e with
  | spawnInsert insertion =>
    cases htask
    obtain ⟨t₁, t₂, rfl, engine, response, body, hengine, ⟨request, hfetch⟩, -, hcollect, rfl⟩ :=
      permitted_of_mem h hmem
    exact insertionTask_genuine hengine ⟨request, List.mem_append_left _ hfetch⟩ hcollect
  | spawnTunnel upstreamAddr =>
    cases htask
    obtain ⟨t', m, request, response, k, hm, rfl, rfl, hasked, hagreed, -⟩ := tunnel_agreed h hmem
    refine tunnelTask_genuine ⟨hm, hasked, response, ⟨request, ?_⟩, hagreed⟩
    exact List.mem_append_left _ (List.mem_append_right _ (.head _))
  | _ => cases htask

theorem task_last {p : Program (Except BoxError Response)} {e : Effect} {r : e.Reply}
    {task : Noted TaskOp.Reply Note.Reply Unit} (h : Reaches (Proxy.handleRequest x) t p)
    (hmem : (⟨e, r⟩ : (e : Effect) × e.Reply) ∈ t) (htask : taskOf x e = some task) :
    ∃ t', t = t' ++ [⟨e, r⟩] := by
  refine last_of_stage h hmem ?_
  cases e with
  | spawnInsert insertion => rfl
  | spawnTunnel upstreamAddr => rfl
  | _ => cases htask

end Tasks

section Evictions
variable [HttpCrate] [LruCrate]

end Evictions

section Results
variable [HttpCrate] [TlsCrate] [CaseMapping] {x : Exchange} {version : Version}

/-- The log calls of a request change nothing of what it does, whatever is read for them. -/
theorem logging_transparent (x : Exchange) (version : Version) (result : Except BoxError Response) :
    (∀ u, Reaches (handleRequest x version) u (.pure result) →
      Reaches (Proxy.handleRequest x) (performed u) (.pure result)) ∧
    ∀ (read : Trace (Effect ⊕ Note) (Sum.elim Effect.Reply Note.Reply) → (n : Note) → n.Reply) t,
      Reaches (Proxy.handleRequest x) t (.pure result) →
      ∃ u, performed u = t ∧ ReadBy read u ∧
        Reaches (handleRequest x version) u (.pure result) := by
  have herases := erases_handleRequest x version
  refine ⟨fun u hu => hu.erased_result herases, fun read t ht => ?_⟩
  obtain ⟨u, hreach, hperformed, hread⟩ := ht.annotated_result herases
  exact ⟨u, hperformed, hread, hreach⟩

variable {u : Trace (Effect ⊕ Note) (Sum.elim Effect.Reply Note.Reply)}

/-- A reported request is listed once, in the last line of its handler and with the status
that its client gets; any other answered request leaves another line, and one that fails
leaves none about that. What the handler leaves behind is at most one task, in its last
operation, which adds a single line of another kind behind those of its evictions. -/
theorem request_listed_once {result : Except BoxError Response}
    (h : Reaches (handleRequest x version) u (.pure result)) :
    (Reported x (performed u) ↔ ∃ line ∈ linesOf (noted u), isRequest line = true) ∧
    (Reported x (performed u) → ∃ response before micros logged, result = .ok response ∧
      linesOf (noted u) = before ++ [requestLine x version micros logged] ∧
      (∀ line ∈ before, isRequest line = false) ∧ Concluded x (performed u) logged ∧
      logged.1 = response.status.code) ∧
    (∀ response, result = .ok response → linesOf (noted u) ≠ []) ∧
    (∀ e, result = .error e → ∀ line ∈ linesOf (noted u), line.event ∈ authEvents) ∧
    ∀ e r task, (⟨e, r⟩ : (e : Effect) × e.Reply) ∈ performed u → taskOf x e = some task →
      (∃ t, performed u = t ++ [⟨e, r⟩]) ∧
        ∀ v, Reaches task v (.pure ()) → Closed (noted v) := by
  have hreach := h.erased_result (erases_handleRequest x version)
  have htasks : ∀ e r task, (⟨e, r⟩ : (e : Effect) × e.Reply) ∈ performed u →
      taskOf x e = some task → (∃ t, performed u = t ++ [⟨e, r⟩]) ∧
        ∀ v, Reaches task v (.pure ()) → Closed (noted v) := fun e r task hmem htask =>
    ⟨task_last hreach hmem htask,
      fun v hv => noted_of_reaches (task_genuine hreach hmem htask) hv⟩
  have hunlisted : Unlisted (noted u) → ¬ ∃ line ∈ linesOf (noted u), isRequest line = true := by
    rintro hunlisted ⟨line, hline, hrequest⟩
    rw [hunlisted line hline] at hrequest
    cases hrequest
  cases noted_of_reaches (handleRequest_accounted x version) h with
  | refused hnone hwritten hunreported =>
    refine ⟨iff_of_false hunreported (hunlisted hnone),
      fun hreported => absurd hreported hunreported,
      fun _ _ => hwritten, ?_, htasks⟩
    intro e herror
    cases herror
  | failed hlines hunreported =>
    refine ⟨iff_of_false hunreported (hunlisted (unlisted_of_authEvents hlines)),
      fun hreported => absurd hreported hunreported, ?_, fun _ _ => hlines, htasks⟩
    intro response hresponse
    cases hresponse
  | @listed response before micros logged hlines honce hconcluded hstatus =>
    have hlast : requestLine x version micros logged ∈ linesOf (noted u) := by
      rw [hlines]
      exact List.mem_append_right _ (.head _)
    refine ⟨iff_of_true ⟨logged, hconcluded⟩ ⟨_, hlast, rfl⟩, fun _ => ⟨response, before, micros,
      logged, rfl, hlines, honce, hconcluded, hstatus⟩, fun _ _ => List.ne_nil_of_mem hlast, ?_,
      htasks⟩
    intro e herror
    cases herror

end Results

section Sheet
open ListCrates

def noteAnswer : (n : Note) → n.Reply
  | .line _ => ()
  | .elapsed => (4120 : ℕ)
  | .currentMemoryBytes _ => (0 : ℕ)
  | .entryCount _ => (0 : ℕ)
  | .maxCapacityBytes _ => (0 : ℕ)
  | .errorText _ => "connection refused".toList

def sheetAnswer : (e : Effect) → e.Reply
  | .upstreamRequest _ => some (sheetResponse [] false)
  | e => shopAnswer [] e

def loggedAnswer : (e : Effect ⊕ Note) → Sum.elim Effect.Reply Note.Reply e
  | .inl e => sheetAnswer e
  | .inr n => noteAnswer n

/-- A request for a style sheet that is not in the cache. -/
def sheetLogged : Trace (Effect ⊕ Note) (Sum.elim Effect.Reply Note.Reply) ×
    Noted Effect.Reply Note.Reply (Except BoxError Response) :=
  follow loggedAnswer 12 (handleRequest sheetExchange .http11)

theorem sheetLogged_reaches :
    Reaches (handleRequest sheetExchange .http11) sheetLogged.1 sheetLogged.2 :=
  reaches_follow _ _ _

def taskAnswer : (e : TaskOp ⊕ Note) → Sum.elim TaskOp.Reply Note.Reply e
  | .inl (.insert _) =>
    ((⟨true, 2, 3, 1, none⟩, [⟨"a:/".toList, 3, 0⟩]) : InsertResult × List EvictionRecord)
  | .inl .clientUpgrade => (.ok () : Except Str Unit)
  | .inl .upstreamUpgrade => (.ok () : Except Str Unit)
  | .inl .copyBidirectional => (.ok (0, 0) : Except Str (ℕ × ℕ))
  | .inr n => noteAnswer n

/-- The task that the request leaves behind, whose insertion evicts an entry. -/
def sheetTask : Trace (TaskOp ⊕ Note) (Sum.elim TaskOp.Reply Note.Reply) ×
    Noted TaskOp.Reply Note.Reply Unit :=
  follow taskAnswer 6 (insertionTask sheetExchange
    (insertionOf sheetExchange 0 (sheetResponse [] false) [123, 125]))

theorem sheetTask_reaches :
    Reaches (insertionTask sheetExchange
      (insertionOf sheetExchange 0 (sheetResponse [] false) [123, 125])) sheetTask.1 sheetTask.2 :=
  reaches_follow _ _ _

theorem sheet_spawned :
    (⟨.spawnInsert (insertionOf sheetExchange 0 (sheetResponse [] false) [123, 125]), ()⟩ :
      (e : Effect) × e.Reply) ∈ performed sheetLogged.1 :=
  List.mem_of_getElem? (i := 4) rfl

theorem sheet_listed_once :
    (∃ result, sheetLogged.2 = .pure result) ∧ sheetTask.2 = .pure () ∧
      Reported sheetExchange (performed sheetLogged.1) ∧
      (∃ t e r, performed sheetLogged.1 = t ++ [⟨e, r⟩] ∧ (taskOf sheetExchange e).isSome = true) ∧
      Closed (noted sheetTask.1) := by
  obtain ⟨hlisted, -, -, -, htasks⟩ :=
    request_listed_once (u := sheetLogged.1) sheetLogged_reaches
  obtain ⟨⟨t, ht⟩, hline⟩ := htasks _ _ _ sheet_spawned rfl
  refine ⟨⟨_, rfl⟩, rfl, hlisted.mpr ?_, ⟨t, _, _, ht, rfl⟩, hline _ sheetTask_reaches⟩
  refine List.any_eq_true.mp ?_
  decide +kernel

end Sheet

end BarebonesProxy.RequestLog
