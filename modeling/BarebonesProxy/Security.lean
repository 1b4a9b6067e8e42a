import BarebonesProxy.ProxyConfig
import BarebonesProxy.RustState
import BarebonesProxy.SlidingWindow

set_option autoImplicit false

/-!
# The security manager of `security.rs`

Every operation takes the lock, reads the clock inside the critical section and
works on the three maps. The clock reading is the argument `now`.
-/
namespace BarebonesProxy.Security
open RustNet RustState ProxyConfig SlidingWindow

def rollingWindow : ℕ := fromSecs 60

def defaultMaxTlsFailures : ℕ := 5

def defaultBanDuration : ℕ := fromSecs 3600

def defaultRateLimitRpm : ℕ := 60

structure SecurityManagerInner where
  tlsFailures : HashMap IpAddr (List ℕ)
  requestTracker : HashMap IpAddr (List ℕ)
  blacklist : HashMap IpAddr ℕ
  banDuration : ℕ
  maxTlsFailures : ℕ
  rateLimitRpm : ℕ

abbrev SecurityManager := Lock SecurityManagerInner

def SecurityManager.new (banDuration maxTlsFailures rateLimitRpm : ℕ) :
    SecurityManager :=
  Lock.new ⟨.empty, .empty, .empty, banDuration, maxTlsFailures, rateLimitRpm⟩

def SecurityManager.default : SecurityManager :=
  .new defaultBanDuration defaultMaxTlsFailures defaultRateLimitRpm

def SecurityManager.fromSecurityConfig : Option SecurityConfig → SecurityManager
  | some sec => .new (fromSecs sec.banDurationSec) sec.maxTlsFailures sec.rateLimitRpm
  | none => .default

def retainRecent (now : ℕ) (ts : List ℕ) : List ℕ :=
  ts.filter fun t => decide (durationSince now t ≤ rollingWindow)

/-- The closure of the tracker sweeps: prune the times, drop an empty entry. -/
def sweep (now : ℕ) (ts : List ℕ) : Option (List ℕ) :=
  let ts := retainRecent now ts
  if ts.isEmpty then none else some ts

def SecurityManagerInner.cleanup (inner : SecurityManagerInner) (now : ℕ) :
    SecurityManagerInner :=
  { inner with
    blacklist := inner.blacklist.retain fun bannedUntil =>
      if now < bannedUntil then some bannedUntil else none
    tlsFailures := inner.tlsFailures.retain (sweep now)
    requestTracker := inner.requestTracker.retain (sweep now) }

def recordTlsFailure (m : SecurityManager) (now : ℕ) (ip : IpAddr) :
    Outcome Bool × SecurityManager :=
  m.withExpect fun guard =>
    let guard := guard.cleanup now
    let failures := retainRecent now ((guard.tlsFailures ip).getD []) ++ [now]
    let guard := { guard with tlsFailures := guard.tlsFailures.insert ip failures }
    if guard.maxTlsFailures < failures.length then
      match addInstant now guard.banDuration with
      | .panicked => (.panicked, guard)
      | .returned bannedUntil =>
        (.returned true, { guard with blacklist := guard.blacklist.insert ip bannedUntil })
    else (.returned false, guard)

def checkAndRecordRequest (m : SecurityManager) (now : ℕ) (ip : IpAddr) :
    Outcome (Except ℕ ℕ) × SecurityManager :=
  m.withExpect fun guard =>
    let guard := guard.cleanup now
    let limit := guard.rateLimitRpm
    if limit = 0 then (.returned (.ok 0), guard)
    else
      let requests := retainRecent now ((guard.requestTracker ip).getD []) ++ [now]
      let guard := { guard with requestTracker := guard.requestTracker.insert ip requests }
      let count := requests.length
      (.returned (if limit < count then .error count else .ok count), guard)

def isBlacklisted (m : SecurityManager) (now : ℕ) (ip : IpAddr) :
    Outcome Bool × SecurityManager :=
  m.withExpect fun guard =>
    match guard.blacklist ip with
    | none => (.returned false, guard)
    | some bannedUntil =>
      if now < bannedUntil then (.returned true, guard)
      else (.returned false, { guard with blacklist := guard.blacklist.remove ip })

def getTlsFailureCount (m : SecurityManager) (now : ℕ) (ip : IpAddr) :
    Outcome ℕ × SecurityManager :=
  m.withExpect fun guard =>
    match guard.tlsFailures ip with
    | none => (.returned 0, guard)
    | some failures =>
      let failures := retainRecent now failures
      let count := failures.length
      let tlsFailures := if count = 0 then guard.tlsFailures.remove ip
        else guard.tlsFailures.insert ip failures
      (.returned count, { guard with tlsFailures })

def addToBlacklist (m : SecurityManager) (now : ℕ) (ip : IpAddr) :
    Outcome Unit × SecurityManager :=
  m.withExpect fun guard =>
    match addInstant now guard.banDuration with
    | .panicked => (.panicked, guard)
    | .returned bannedUntil =>
      (.returned (), { guard with blacklist := guard.blacklist.insert ip bannedUntil })

/-- The public operations, as the messages a run is made of. -/
inductive Op where
  | recordTlsFailure (ip : IpAddr)
  | checkAndRecordRequest (ip : IpAddr)
  | isBlacklisted (ip : IpAddr)
  | getTlsFailureCount (ip : IpAddr)
  | addToBlacklist (ip : IpAddr)
deriving DecidableEq

def Op.ip : Op → IpAddr
  | .recordTlsFailure ip | .checkAndRecordRequest ip | .isBlacklisted ip
  | .getTlsFailureCount ip | .addToBlacklist ip => ip

inductive Reply where
  | bool (value : Bool)
  | admission (value : Except ℕ ℕ)
  | count (value : ℕ)
  | unit

structure Call where
  time : ℕ
  op : Op
deriving DecidableEq

def tagged {α : Type} (f : α → Reply) (r : Outcome α × SecurityManager) :
    Outcome Reply × SecurityManager :=
  match r with
  | (.returned a, m) => (.returned (f a), m)
  | (.panicked, m) => (.panicked, m)

def call (m : SecurityManager) (c : Call) : Outcome Reply × SecurityManager :=
  match c.op with
  | .recordTlsFailure ip => tagged .bool (recordTlsFailure m c.time ip)
  | .checkAndRecordRequest ip => tagged .admission (checkAndRecordRequest m c.time ip)
  | .isBlacklisted ip => tagged .bool (isBlacklisted m c.time ip)
  | .getTlsFailureCount ip => tagged .count (getTlsFailureCount m c.time ip)
  | .addToBlacklist ip => tagged (fun _ => .unit) (addToBlacklist m c.time ip)

def after (m : SecurityManager) (calls : List Call) : SecurityManager :=
  calls.foldl (fun m c => (call m c).2) m

/-- What the call `c` returns when it is made after the run `before`. -/
def resultAfter (m : SecurityManager) (before : List Call) (c : Call) : Outcome Reply :=
  (call (after m before) c).1

@[simp] theorem after_push (m : SecurityManager) (before : List Call) (c : Call) :
    after m (before ++ [c]) = (call (after m before) c).2 := by
  simp [after]

theorem retainRecent_eq (now : ℕ) (ts : List ℕ) :
    retainRecent now ts = recent rollingWindow now ts := rfl

end BarebonesProxy.Security
