import BarebonesProxy.AddressRoundTrip
import BarebonesProxy.ForwardedHeaders
import BarebonesProxy.RustTokens

set_option autoImplicit false

/-!
# Repeated header lines

What the upstream gets of a name that stands on several lines. The copying loop appends and
keeps them all; where a value is inserted, one line is left.
-/
namespace BarebonesProxy.Proxy
open RustNet RustStrings ProxyConfig Routing Http Cache RuntimeConfig EffectPrograms

section Identity
variable [HttpCrate] [TlsCrate] [CaseMapping] {x : Exchange} {t : ProxyTrace}

/-- The upstream gets every identity value of the provider's response, in order. -/
def IdentityComplete (response : Response) (request : ForwardedRequest) : Prop :=
  ∀ name, isIdentityName name = true →
    (HeaderMap.values response.headers name).Sublist (HeaderMap.values request.headers name)

/-- No identity is lost exactly when no identity name stands on two lines of the provider's
response. -/
theorem identityComplete_iff {request : ForwardedRequest}
    {k : Option Response → Program (Except BoxError Response)} {m : MatchedRoute}
    {response : Response} (h : Reaches (handleRequest x) t (.op (.upstreamRequest request) k))
    (hm : x.matched = some m) (hauth : m.authRequired = true)
    (haccept : AuthAccepted x t response) :
    IdentityComplete response request ↔
      ∀ name, isIdentityName name = true → (HeaderMap.values response.headers name).length ≤ 1 := by
  refine forall_congr' fun name => imp_congr_right fun hname => ?_
  rw [values_identity h hm hauth haccept hname]
  match hvalues : HeaderMap.values response.headers name with
  | [] => simp
  | [value] => simp
  | first :: second :: rest =>
    have hlast : (first :: second :: rest).getLast? =
        some ((first :: second :: rest).getLast (List.cons_ne_nil _ _)) :=
      List.getLast?_eq_some_getLast _
    rw [hlast]
    constructor
    · intro hsub
      exact hsub.length_le
    · intro hlength
      exact absurd hlength (by simp)

end Identity

section Shop
open ListCrates

def remoteGroups : HeaderName := ⟨"remote-groups".toList, by decide⟩

theorem single_group_delivered :
    ∃ request k, (shopRun [] [(remoteGroups, "staff".toList)]).2 = .op (.upstreamRequest request) k ∧
      IdentityComplete ⟨.ok, [(remoteGroups, "staff".toList)], .full []⟩ request := by
  have haccept : AuthAccepted (shopExchange []) (shopRun [] [(remoteGroups, "staff".toList)]).1
      ⟨.ok, [(remoteGroups, "staff".toList)], .full []⟩ :=
    ⟨rfl, _, ⟨_, _, rfl, rfl, rfl⟩, List.mem_of_getElem? (i := 2) rfl⟩
  refine ⟨_, _, rfl, ?_⟩
  refine (identityComplete_iff (shopRun_reaches _ _) (shopExchange_matched []) rfl haccept).mpr ?_
  intro name _
  exact List.length_filterMap_le _ _

/-- Of two `Remote-Groups` lines the upstream gets the second. -/
theorem first_group_lost :
    ∃ request k, (shopRun [] [(remoteGroups, "staff".toList), (remoteGroups, "admin".toList)]).2 =
        .op (.upstreamRequest request) k ∧
      HeaderMap.values request.headers remoteGroups = ["admin".toList] ∧
      ¬ IdentityComplete
        ⟨.ok, [(remoteGroups, "staff".toList), (remoteGroups, "admin".toList)], .full []⟩ request := by
  refine ⟨_, _, rfl, rfl, fun hcomplete => ?_⟩
  have hlength := (hcomplete remoteGroups (by decide)).length_le
  exact absurd hlength (by decide)

end Shop

section Frame
variable [HttpCrate] [TlsCrate] {x : Exchange} {t : ProxyTrace}

/-- The headers of a forwarded request, name by name. Only the provider's identity names
are taken from its response; of the names the proxy sets, none has a value of the client's
line of that name but the first `Host`. -/
structure FramedHeaders (x : Exchange) (t : ProxyTrace) (request : ForwardedRequest) : Prop where
  others : ∀ name, isOwnName name = false →
    (∀ response, AuthAccepted x t response → isIdentityName name = true →
      HeaderMap.values response.headers name = []) →
    HeaderMap.values request.headers name = HeaderMap.values x.request.headers name
  host : ∃ value, HeaderMap.values request.headers .host = [value] ∧
    HeaderMap.values request.headers .xForwardedHost = [value] ∧
    match HeaderMap.get x.request.headers .host with
    | some host => value = host
    | none => ∃ authority, x.request.uri.authority = some authority ∧
        HttpCrate.fromStr authority = some value
  proto : HeaderMap.values request.headers .xForwardedProto = [HttpCrate.fromStatic "https".toList]
  realIp : ∃ value, HeaderMap.values request.headers .xRealIp = [value] ∧
    HttpCrate.fromStr x.clientIp = some value

theorem values_forwarded_set (x : Exchange) (authHeaders : HeaderMap)
    (originalHost : Option HeaderValue) (forwardedFor realIp : HeaderValue) :
    HeaderMap.values (x.forwardedHeaders authHeaders originalHost forwardedFor realIp)
        .xForwardedProto = [HttpCrate.fromStatic "https".toList] ∧
      HeaderMap.values (x.forwardedHeaders authHeaders originalHost forwardedFor realIp)
        .xForwardedFor = [forwardedFor] ∧
      HeaderMap.values (x.forwardedHeaders authHeaders originalHost forwardedFor realIp)
        .xRealIp = [realIp] := by
  unfold Exchange.forwardedHeaders
  simp only [HeaderMap.values_insertAll]
  exact ⟨rfl, rfl, rfl⟩

theorem Authorised.values_eq_nil_of_accepted {m : MatchedRoute} {headers : HeaderMap}
    (h : Authorised x m t headers) {name : HeaderName}
    (hnone : ∀ response, AuthAccepted x t response → isIdentityName name = true →
      HeaderMap.values response.headers name = []) : HeaderMap.values headers name = [] := by
  by_cases hname : isIdentityName name = true
  · unfold Authorised at h
    split at h
    · obtain ⟨response, haccept, rfl⟩ := h
      rw [values_successHeaders, if_pos hname, hnone response haccept hname]
      rfl
    · rw [h, HeaderMap.values_empty]
  · exact h.values_eq_nil (Bool.eq_false_of_not_eq_true hname)

theorem originalHost_of_host {originalHost : Option HeaderValue}
    (h : x.originalHost = .ok originalHost)
    (hhost : (HeaderMap.get x.request.headers .host).isSome ∨ x.request.uri.authority.isSome) :
    ∃ value, originalHost = some value ∧
      match HeaderMap.get x.request.headers .host with
      | some host => value = host
      | none => ∃ authority, x.request.uri.authority = some authority ∧
          HttpCrate.fromStr authority = some value := by
  unfold Exchange.originalHost at h
  cases hget : HeaderMap.get x.request.headers .host with
  | some host =>
    rw [hget] at h
    cases h
    exact ⟨host, rfl, rfl⟩
  | none =>
    rw [hget] at h hhost
    cases hauthority : x.request.uri.authority with
    | none =>
      rw [hauthority] at hhost
      simp at hhost
    | some authority =>
      rw [hauthority] at h
      cases hvalue : HttpCrate.fromStr authority with
      | none =>
        simp only [hvalue] at h
        cases h
      | some value =>
        simp only [hvalue] at h
        cases h
        exact ⟨value, rfl, authority, rfl, hvalue⟩

theorem realIp_ok {value : HeaderValue} (h : x.realIp = .ok value) :
    HttpCrate.fromStr x.clientIp = some value := by
  unfold Exchange.realIp at h
  split at h
  · next hvalue =>
    cases h
    exact hvalue
  · cases h

/-- Whatever is forwarded has the client's lines of every other name and one line of each
name that the proxy sets. -/
theorem framedHeaders [CaseMapping] {request : ForwardedRequest}
    {k : Option Response → Program (Except BoxError Response)}
    (h : Reaches (handleRequest x) t (.op (.upstreamRequest request) k))
    (hhost : (HeaderMap.get x.request.headers .host).isSome ∨ x.request.uri.authority.isSome) :
    FramedHeaders x t request := by
  obtain ⟨m, authHeaders, -, hauth, hrequest⟩ := permitted_of_reaches h
  obtain ⟨originalHost, forwardedFor, realIp, horiginal, -, hreal, hheaders⟩ :=
    forwardedRequest_headers x hrequest
  obtain ⟨value, rfl, hvalue⟩ := originalHost_of_host horiginal hhost
  obtain ⟨hforwarded, hforwardedHost⟩ :=
    values_forwarded_host x authHeaders forwardedFor realIp value
  obtain ⟨hproto, -, hip⟩ := values_forwarded_set x authHeaders (some value) forwardedFor realIp
  rw [← hheaders] at hforwarded hforwardedHost hproto hip
  refine ⟨?_, ⟨value, hforwarded, hforwardedHost, hvalue⟩, hproto, ⟨realIp, hip, realIp_ok hreal⟩⟩
  intro name hown hnone
  rw [hheaders, values_forwardedHeaders x _ _ _ _ hown, hauth.values_eq_nil_of_accepted hnone]
  rfl

end Frame

section Shop
open ListCrates

theorem forged_lines_framed :
    ∃ request k, (shopRun [(.xRealIp, "6.6.6.6".toList), (.cookie, "a=1".toList)] []).2 =
        .op (.upstreamRequest request) k ∧
      FramedHeaders (shopExchange [(.xRealIp, "6.6.6.6".toList), (.cookie, "a=1".toList)])
        (shopRun [(.xRealIp, "6.6.6.6".toList), (.cookie, "a=1".toList)] []).1 request := by
  refine ⟨_, _, rfl, ?_⟩
  exact framedHeaders (shopRun_reaches _ _) (.inr rfl)

end Shop

section Hops

/-- The list that a line of `X-Forwarded-For` stands for. -/
def hops (line : Str) : List Str := (split line ',').map trim

theorem hops_ne_nil (line : Str) : hops line ≠ [] := by
  intro h
  exact List.splitOn_ne_nil _ _ (List.map_eq_nil_iff.mp h)

theorem isVisible_of_isAddressText {s : Str} (h : IsAddressText s) : s.all isVisible = true := by
  refine List.all_eq_true.mpr fun c hc => ?_
  obtain ⟨hlow, hhigh⟩ := isAddressChar_bounds (h.2 c hc)
  unfold isVisible
  rw [Bool.or_eq_true, Bool.and_eq_true, decide_eq_true_iff, decide_eq_true_iff]
  exact .inl ⟨by omega, by omega⟩

theorem isWord_of_isAddressText {s : Str} (h : IsAddressText s) : IsWord s := by
  intro c hc
  obtain ⟨hlow, hhigh⟩ := isAddressChar_bounds (h.2 c hc)
  simp only [isWhitespace, Bool.or_eq_false_iff, Bool.and_eq_false_imp, decide_eq_true_eq,
    decide_eq_false_iff_not, beq_eq_false_iff_ne]
  omega

theorem split_address {s : Str} (h : ∀ c ∈ s, c ≠ ',') : split s ',' = [s] :=
  List.splitOn_eq_singleton fun hmem => h _ hmem rfl

theorem comma_ne_of_isAddressText {s : Str} (h : IsAddressText s) : ∀ c ∈ s, c ≠ ',' := by
  rintro c hc rfl
  cases h.2 _ hc

theorem hops_address {ip : Str} (h : IsAddressText ip) : hops ip = [ip] := by
  unfold hops
  rw [split_address (comma_ne_of_isAddressText h), List.map_singleton,
    trim_word (isWord_of_isAddressText h)]

/-- What `format!("{}, {}", existing, client_ip)` does to the list. -/
theorem hops_append {ip : Str} (h : IsAddressText ip) (line : Str) :
    hops (line ++ ", ".toList ++ ip) = hops line ++ [ip] := by
  have hlist : line ++ ", ".toList ++ ip = line ++ ',' :: ' ' :: ip := by simp
  have hlast : split (' ' :: ip) ',' = [' ' :: ip] :=
    split_address (List.forall_mem_cons.mpr ⟨by decide, comma_ne_of_isAddressText h⟩)
  have htrim : trim (' ' :: ip) = ip :=
    (trim_blank_cons rfl ip).trans (trim_word (isWord_of_isAddressText h))
  rw [hlist]
  unfold hops
  rw [split, List.splitOn_append_cons_self, List.map_append]
  rw [show (' ' :: ip).splitOn ',' = _ from hlast, List.map_singleton, htrim]
  rfl

variable [HttpCrate]

theorem toStr_of_fromStr {text : Str} {value : HeaderValue} (htext : text.all isVisible = true)
    (h : HttpCrate.fromStr text = some value) : HttpCrate.toStr value = some text := by
  rw [HttpCrate.fromStr_visible htext] at h
  cases h
  exact HttpCrate.toStr_fromStatic htext

theorem headerIp_parses {headers : HeaderMap} {name : HeaderName} {text : Str}
    (h : headerIp headers name = some text) : (IpAddr.parse text).isSome = true := by
  unfold headerIp at h
  split at h
  · cases h
  · obtain ⟨hparse, heq⟩ | ⟨-, hnone⟩ := ite_eq_iff.mp h
    · exact Option.some.inj heq ▸ hparse
    · cases hnone

variable [TlsCrate] (x : Exchange)

/-- The address that the security manager is asked about. -/
def Exchange.clientAddr : IpAddr := (IpAddr.parse x.clientIp).getD x.peerAddr.ip

/-- The text of a header is taken only if it is an address, and that of the peer is one. -/
theorem parse_clientIp : IpAddr.parse x.clientIp = some x.clientAddr := by
  have hpeer := IpAddr.parse_display x.peerAddr.ip
  have hparses : (IpAddr.parse x.clientIp).isSome = true := by
    unfold Exchange.clientIp clientIpOf
    split
    · cases hfound : addressHeaders.findSome? (headerIp x.request.headers) with
      | none => exact Option.isSome_of_eq_some hpeer
      | some text =>
        obtain ⟨name, -, hname⟩ := List.exists_of_findSome?_eq_some hfound
        exact headerIp_parses hname
    · exact Option.isSome_of_eq_some hpeer
  obtain ⟨ip, hip⟩ := Option.isSome_iff_exists.mp hparses
  unfold Exchange.clientAddr
  rw [hip]
  rfl

theorem isAddressText_clientIp : IsAddressText x.clientIp :=
  isAddressText_of_parse (parse_clientIp x)

variable {x}

/-- The lists of all lines of the client, and last the client itself, on one line. -/
def KeepsHops (x : Exchange) (lines : List Str) (request : ForwardedRequest) : Prop :=
  ∃ value text, HeaderMap.values request.headers .xForwardedFor = [value] ∧
    HttpCrate.toStr value = some text ∧ hops text = lines.flatMap hops ++ [x.clientIp]

theorem forwardedFor_ok {value : HeaderValue} (h : x.forwardedFor = .ok value) :
    (HeaderMap.get x.request.headers .xForwardedFor = none ∧
        HttpCrate.fromStr x.clientIp = some value) ∨
      ∃ existing text, HeaderMap.get x.request.headers .xForwardedFor = some existing ∧
        HttpCrate.toStr existing = some text ∧
        HttpCrate.fromStr (text ++ ", ".toList ++ x.clientIp) = some value := by
  have hmade : ∀ {text : Str}, (match HttpCrate.fromStr text with
      | some value => Except.ok value
      | none => Except.error BoxError.invalidHeaderValue) = .ok value →
      HttpCrate.fromStr text = some value := by
    intro text hvalue
    cases hfrom : HttpCrate.fromStr text with
    | none =>
      rw [hfrom] at hvalue
      cases hvalue
    | some made =>
      rw [hfrom] at hvalue
      cases hvalue
      rfl
  unfold Exchange.forwardedFor at h
  cases hget : HeaderMap.get x.request.headers .xForwardedFor with
  | none =>
    rw [hget] at h
    exact .inl ⟨rfl, hmade h⟩
  | some existing =>
    rw [hget] at h
    cases htext : HttpCrate.toStr existing with
    | none =>
      simp only [htext] at h
      cases h
    | some text =>
      simp only [htext] at h
      exact .inr ⟨existing, text, rfl, htext, hmade h⟩

/-- The forwarded line lists the hops of the first line of the client, and the client. -/
theorem forwardedFor_hops {value : HeaderValue} (h : x.forwardedFor = .ok value) {lines : List Str}
    (hlines : (HeaderMap.values x.request.headers .xForwardedFor).map HttpCrate.toStr =
      lines.map some) :
    ∃ text, HttpCrate.toStr value = some text ∧
      hops text = (lines.take 1).flatMap hops ++ [x.clientIp] := by
  have haddress := isAddressText_clientIp x
  have hvisible := isVisible_of_isAddressText haddress
  have hfirst : (HeaderMap.get x.request.headers .xForwardedFor).map HttpCrate.toStr =
      lines.head?.map some := by
    rw [← List.head?_map, ← hlines, List.head?_map]
    rfl
  obtain ⟨hnone, hvalue⟩ | ⟨existing, line, hsome, hline, hvalue⟩ := forwardedFor_ok h
  · rw [hnone] at hfirst
    have hempty : lines = [] := List.head?_eq_none_iff.mp (Option.map_eq_none_iff.mp hfirst.symm)
    refine ⟨x.clientIp, toStr_of_fromStr hvisible hvalue, ?_⟩
    rw [hempty, hops_address haddress]
    rfl
  · rw [hsome, Option.map_some, hline] at hfirst
    obtain ⟨first, hhead, heq⟩ := Option.map_eq_some_iff.mp hfirst.symm
    cases heq
    have htext : (line ++ ", ".toList ++ x.clientIp).all isVisible = true := by
      rw [List.all_append, List.all_append, HttpCrate.toStr_visible hline, hvisible]
      rfl
    refine ⟨_, toStr_of_fromStr htext hvalue, ?_⟩
    rw [hops_append haddress, List.take_one, hhead]
    simp

/-- Every hop is kept exactly when the client sent at most one line. -/
theorem keepsHops_iff [CaseMapping] {t : ProxyTrace} {request : ForwardedRequest}
    {k : Option Response → Program (Except BoxError Response)}
    (h : Reaches (handleRequest x) t (.op (.upstreamRequest request) k)) {lines : List Str}
    (hlines : (HeaderMap.values x.request.headers .xForwardedFor).map HttpCrate.toStr =
      lines.map some) : KeepsHops x lines request ↔ lines.length ≤ 1 := by
  obtain ⟨m, authHeaders, -, -, hrequest⟩ := permitted_of_reaches h
  obtain ⟨originalHost, forwardedFor, realIp, -, hfor, -, hheaders⟩ :=
    forwardedRequest_headers x hrequest
  obtain ⟨text, htext, hhops⟩ := forwardedFor_hops hfor hlines
  have hvalues := (values_forwarded_set x authHeaders originalHost forwardedFor realIp).2.1
  rw [← hheaders] at hvalues
  have hkeeps : KeepsHops x lines request ↔ (lines.take 1).flatMap hops = lines.flatMap hops := by
    constructor
    · rintro ⟨value, text', hvalue, htext', hall⟩
      rw [hvalues] at hvalue
      cases hvalue
      cases htext.symm.trans htext'
      exact List.append_cancel_right (hhops.symm.trans hall)
    · intro hall
      exact ⟨forwardedFor, text, hvalues, htext, hall ▸ hhops⟩
  rw [hkeeps]
  match lines with
  | [] => simp
  | [line] => simp
  | first :: second :: rest =>
    -- the second line lists one hop at least
    have hsecond := List.length_pos_of_ne_nil (hops_ne_nil second)
    constructor
    · intro hall
      have hlength := congrArg List.length hall
      simp only [List.take_succ_cons, List.take_zero, List.flatMap_cons, List.flatMap_nil,
        List.length_append, List.length_nil] at hlength
      omega
    · intro hlength
      exact absurd hlength (by simp)

end Hops

section Shop
open ListCrates

def forwardedLines (lines : List String) : List (HeaderName × Str) :=
  lines.map fun line => (.xForwardedFor, line.toList)

theorem one_line_kept :
    ∃ request k, (shopRun (forwardedLines ["1.1.1.1, 2.2.2.2"]) []).2 =
        .op (.upstreamRequest request) k ∧
      KeepsHops (shopExchange (forwardedLines ["1.1.1.1, 2.2.2.2"]))
        ["1.1.1.1, 2.2.2.2".toList] request := by
  refine ⟨_, _, rfl, ?_⟩
  exact (keepsHops_iff (shopRun_reaches _ _) rfl).mpr le_rfl

/-- Of two lines the second is lost. -/
theorem second_line_lost :
    ∃ request k, (shopRun (forwardedLines ["1.1.1.1", "2.2.2.2"]) []).2 =
        .op (.upstreamRequest request) k ∧
      HeaderMap.values request.headers .xForwardedFor = ["1.1.1.1, 10.0.0.1".toList] ∧
      ¬ KeepsHops (shopExchange (forwardedLines ["1.1.1.1", "2.2.2.2"]))
        ["1.1.1.1".toList, "2.2.2.2".toList] request := by
  refine ⟨_, _, rfl, rfl, ?_⟩
  rintro ⟨value, text, hvalue, htext, hall⟩
  cases hvalue
  cases htext
  revert hall
  decide

end Shop

end BarebonesProxy.Proxy
