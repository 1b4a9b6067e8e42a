import BarebonesProxy.HeaderLines
import BarebonesProxy.Logfmt

set_option autoImplicit false

/-!
# Log lines of `log.rs`

`log_event` writes a head with the time, the level and the thread, and then the event and
the fields as pairs. It writes the values as they are, so a reader of logfmt finds the same
fields again only if no value needs quotes. The request log takes five values from the client.
-/
namespace BarebonesProxy.Log
open RustStrings RustState RustNet Http RuntimeConfig Proxy Logfmt

inductive LogLevel where
  | info | error | warn | debug
deriving DecidableEq

def LogLevel.display : LogLevel → Str
  | .info => "INFO".toList
  | .error => "ERROR".toList
  | .warn => "WARN".toList
  | .debug => "DEBUG".toList

/-- Standard output, and the file behind `LOG_FILE` when one is open. -/
structure Sinks where
  stdout : Str
  logFile : Lock (Option Str)

def kvStr (kv : List (Str × Str)) : Str :=
  kv.foldl (fun text p => text ++ (" ".toList ++ p.1 ++ "=".toList ++ p.2)) []

def logHead (timestamp : Str) (level : LogLevel) (threadName : Option Str) : Str :=
  "[".toList ++ timestamp ++ "] [".toList ++ level.display ++ "] [".toList ++
    threadName.getD "unknown-thread".toList ++ "] ".toList

def logFields (event : Str) (kv : List (Str × Str)) : Str := "event=".toList ++ event ++ kvStr kv

def logLine (timestamp : Str) (level : LogLevel) (threadName : Option Str) (event : Str)
    (kv : List (Str × Str)) : Str :=
  logHead timestamp level threadName ++ logFields event kv ++ "\n".toList

def logEvent (timestamp : Str) (threadName : Option Str) (level : LogLevel) (event : Str)
    (kv : List (Str × Str)) (s : Sinks) : Sinks where
  stdout := s.stdout ++ logLine timestamp level threadName event kv
  logFile :=
    match s.logFile.write with
    | some (some file) => ⟨some (file ++ logLine timestamp level threadName event kv), false⟩
    | _ => s.logFile

/-- Read from `event=` on, the line gives the event and the fields that were logged. -/
def ReadsBack (event : Str) (kv : List (Str × Str)) : Prop :=
  decode (logFields event kv) = some (("event".toList, event) :: kv)

theorem kvStr_eq (kv : List (Str × Str)) : kvStr kv = pairsText kv := by
  have hfold : ∀ text, kv.foldl (fun text p => text ++ (" ".toList ++ p.1 ++ "=".toList ++ p.2)) text =
      text ++ pairsText kv := by
    induction kv with
    | nil => exact fun text => (List.append_nil text).symm
    | cons p kv ih =>
      intro text
      rw [List.foldl_cons, ih]
      simp [pairsText, pairText]
  exact hfold []

theorem readsBack_iff (event : Str) (kv : List (Str × Str)) :
    ReadsBack event kv ↔ BareValue event ∧ ∀ p ∈ kv, IsBare p := by
  have hfields : logFields event kv = pairText ("event".toList, event) ++ pairsText kv := by
    unfold logFields
    rw [kvStr_eq]
    rfl
  have hevent : IsBare ("event".toList, event) ↔ BareValue event := isBare_iff rfl
  unfold ReadsBack
  rw [hfields, decode_pairs_iff, List.forall_mem_cons, hevent]

theorem readsBack_keys_iff {event : Str} {kv : List (Str × Str)}
    (hkeys : (kv.all fun p => isKey p.1) = true) :
    ReadsBack event kv ↔ BareValue event ∧ ∀ p ∈ kv, BareValue p.2 := by
  rw [List.all_eq_true] at hkeys
  rw [readsBack_iff]
  exact and_congr_right fun _ => forall₂_congr fun p hp => isBare_iff (hkeys p hp)

section RequestLog

/-- `Debug` of the HTTP version. -/
inductive Version where
  | http09 | http10 | http11 | http2 | http3
deriving DecidableEq

def Version.debug : Version → Str
  | .http09 => "HTTP/0.9".toList
  | .http10 => "HTTP/1.0".toList
  | .http11 => "HTTP/1.1".toList
  | .http2 => "HTTP/2.0".toList
  | .http3 => "HTTP/3.0".toList

/-- Milliseconds with three places, from the microseconds. -/
def durationText (micros : ℕ) : Str :=
  natToString (micros / 1000) ++ '.' :: [Nat.digitChar (micros / 100 % 10),
    Nat.digitChar (micros / 10 % 10), Nat.digitChar (micros % 10)]

theorem bareValue_address {s : Str} (h : IsAddressText s) : BareValue s := by
  intro c hc
  obtain ⟨hlow, -⟩ := isAddressChar_bounds (h.2 c hc)
  unfold isValueChar
  rw [Bool.and_eq_true, decide_eq_true_iff, bne_iff_ne]
  refine ⟨by omega, ?_⟩
  rintro rfl
  exact absurd hlow (by decide)

theorem bareValue_number (n : ℕ) : BareValue (natToString n) :=
  bareValue_address ⟨natToString_ne_nil n, fun _ => isAddressChar_of_mem_toDigits (by decide) (by decide)⟩

theorem bareValue_socket (a : SocketAddr) : BareValue a.display := by
  have hport := bareValue_number a.port.toNat
  have hsigns : BareValue ":".toList ∧ BareValue "[".toList ∧ BareValue "]:".toList :=
    ⟨List.forall_iff_forall_mem.mp (by decide), List.forall_iff_forall_mem.mp (by decide),
      List.forall_iff_forall_mem.mp (by decide)⟩
  unfold SocketAddr.display
  split
  · next v4 _ =>
    have haddress := bareValue_address (isAddressText_display_v4 v4)
    exact bareValue_append (bareValue_append haddress hsigns.1) hport
  · next v6 _ =>
    have haddress := bareValue_address (isAddressText_display_v6 v6)
    exact bareValue_append (bareValue_append (bareValue_append hsigns.2.1 haddress) hsigns.2.2) hport

theorem bareValue_version (version : Version) : BareValue version.debug := by
  cases version <;> exact List.forall_iff_forall_mem.mp (by decide)

theorem bareValue_duration (micros : ℕ) : BareValue (durationText micros) := by
  have hdigit : ∀ n, isAddressChar (Nat.digitChar (n % 10)) = true := by
    intro n
    exact isAddressChar_digitChar (by omega)
  refine bareValue_append (bareValue_number _) (bareValue_address ⟨List.cons_ne_nil _ _, ?_⟩)
  simp only [List.forall_mem_cons, hdigit, true_and]
  exact ⟨rfl, nofun⟩

variable [HttpCrate] [TlsCrate]

def userAgent (x : Exchange) : Str := (HeaderMap.getStr x.request.headers .userAgent).getD "-".toList

def referer (x : Exchange) : Str := (HeaderMap.getStr x.request.headers .referer).getD "-".toList

def upstreamOf (x : Exchange) : Str := (x.matched.map (·.upstreamAddr)).getD "-".toList

/-- The fields of the event `request`; `logged` is the status with the upstream. -/
def requestFields (x : Exchange) (version : Version) (micros : ℕ) (logged : ℕ × Str) :
    List (Str × Str) := [
  ("peer".toList, x.peerAddr.display),
  ("client_ip".toList, x.clientIp),
  ("method".toList, x.request.method.asStr),
  ("host".toList, x.host),
  ("path".toList, x.pathAndQuery),
  ("version".toList, version.debug),
  ("status".toList, natToString logged.1),
  ("duration_ms".toList, durationText micros),
  ("upstream".toList, logged.2),
  ("user_agent".toList, userAgent x),
  ("referer".toList, referer x)]

/-- The status and the upstream that the last lines of `handle_request` log of its result. -/
def loggedOf (x : Exchange) : Except BoxError Response → ℕ × Str
  | .ok response => (response.status.code, upstreamOf x)
  | .error _ => (500, "-".toList)

/-- The values of the request log that neither the proxy nor an address gives. -/
structure ClientValuesBare (x : Exchange) : Prop where
  method : BareValue x.request.method.asStr
  host : BareValue x.host
  path : BareValue x.pathAndQuery
  userAgent : BareValue (userAgent x)
  referer : BareValue (referer x)

/-- Of the request log only the client's values and the configured upstream can need quotes. -/
theorem requestFields_readsBack_iff (x : Exchange) (version : Version) (micros : ℕ)
    (logged : ℕ × Str) :
    ReadsBack "request".toList (requestFields x version micros logged) ↔
      ClientValuesBare x ∧ BareValue logged.2 := by
  have hevent : BareValue "request".toList := List.forall_iff_forall_mem.mp (by decide)
  have hclient := bareValue_address (isAddressText_clientIp x)
  have hkeys : ((requestFields x version micros logged).all fun p => isKey p.1) = true := rfl
  rw [readsBack_keys_iff hkeys]
  unfold requestFields
  simp only [List.forall_mem_cons]
  constructor
  · rintro ⟨-, -, -, hmethod, hhost, hpath, -, -, -, hupstream, hagent, hreferer, -⟩
    exact ⟨⟨hmethod, hhost, hpath, hagent, hreferer⟩, hupstream⟩
  · rintro ⟨⟨hmethod, hhost, hpath, hagent, hreferer⟩, hupstream⟩
    exact ⟨hevent, bareValue_socket x.peerAddr, hclient, hmethod, hhost, hpath,
      bareValue_version version, bareValue_number logged.1, bareValue_duration micros, hupstream, hagent,
      hreferer, nofun⟩

/-- `log_event` writes a line that reads back exactly when no value needs quotes. For the
request log this is left to the client. -/
theorem logEvent_readsBack_iff (timestamp : Str) (threadName : Option Str) (level : LogLevel)
    (s : Sinks) :
    (∀ event kv,
      (logEvent timestamp threadName level event kv s).stdout =
        s.stdout ++ (logHead timestamp level threadName ++ logFields event kv ++ "\n".toList) ∧
      (ReadsBack event kv ↔ BareValue event ∧ ∀ p ∈ kv, IsBare p)) ∧
    ∀ (x : Exchange) (version : Version) (micros : ℕ) (result : Except BoxError Response),
      ReadsBack "request".toList (requestFields x version micros (loggedOf x result)) ↔
        ClientValuesBare x ∧ BareValue (loggedOf x result).2 := by
  constructor
  · intro event kv
    exact ⟨rfl, readsBack_iff event kv⟩
  · intro x version micros result
    exact requestFields_readsBack_iff x version micros (loggedOf x result)

end RequestLog

section Shop
open ListCrates

def forgedAgent : Exchange :=
  shopExchange [(.userAgent, "x status=200 client_ip=9.9.9.9".toList)]

/-- A user agent with spaces adds a second status and a second client address to the line of a
request that failed. -/
theorem forged_status :
    (decode (logFields "request".toList
        (requestFields forgedAgent .http11 4120 (loggedOf forgedAgent (.error .client))))).map
      (·.drop 10) =
        some [("user_agent".toList, "x".toList), ("status".toList, "200".toList),
          ("client_ip".toList, "9.9.9.9".toList), ("referer".toList, "-".toList)] ∧
    ¬ ReadsBack "request".toList
        (requestFields forgedAgent .http11 4120 (loggedOf forgedAgent (.error .client))) := by
  refine ⟨by decide +kernel, ?_⟩
  rw [requestFields_readsBack_iff]
  intro h
  exact absurd (h.1.userAgent ' ' (by decide)) (by decide)

end Shop

end BarebonesProxy.Log
