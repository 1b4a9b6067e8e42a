import BarebonesProxy.ProxyConfig

set_option autoImplicit false

/-!
# The PROXY protocol of `proxy_protocol.rs`

A socket is known by the bytes that arrive on it before the deadline and by what stands at
their end.
-/
namespace BarebonesProxy.ProxyProtocol
open RustNet RustStrings ProxyConfig

inductive Ending where
  | eof
  | stalled
  | failed (error : Str)
deriving DecidableEq

structure TcpStream where
  incoming : List UInt8
  ending : Ending
deriving DecidableEq

structure ProxyStream where
  inner : TcpStream
  buffer : Option (List UInt8)
deriving DecidableEq

/-- Why a read under a deadline gives nothing. -/
inductive Interruption where
  | timeout
  | error (message : Str)
deriving DecidableEq

def TcpStream.read (s : TcpStream) : Except Interruption (Option (UInt8 × TcpStream)) :=
  match s.incoming, s.ending with
  | byte :: rest, _ => .ok (some (byte, { s with incoming := rest }))
  | [], .eof => .ok none
  | [], .stalled => .error .timeout
  | [], .failed e => .error (.error e)

inductive Poll where
  | pending
  | ready
  | failed (error : Str)
deriving DecidableEq

/-- The outcome of a `poll_read`: what went into the destination, and the stream after it. -/
structure Polled (σ : Type) where
  poll : Poll
  delivered : List UInt8
  stream : σ
deriving DecidableEq

/-- A poll of the socket for at most `capacity` bytes, when `available` of them have come. -/
def TcpStream.pollRead (s : TcpStream) (capacity available : ℕ) : Polled TcpStream :=
  match s.incoming, s.ending with
  | [], .eof => ⟨.ready, [], s⟩
  | [], .stalled => ⟨.pending, [], s⟩
  | [], .failed e => ⟨.failed e, [], s⟩
  | incoming, _ =>
    if available = 0 then ⟨.pending, [], s⟩
    else
      let n := min capacity available
      ⟨.ready, incoming.take n, { s with incoming := incoming.drop n }⟩

/-- `poll_read` of a `ProxyStream`. Of the cursor over its buffer the bytes not yet read
count. -/
def ProxyStream.pollRead (s : ProxyStream) (capacity available : ℕ) : Polled ProxyStream :=
  let pollInner : Polled ProxyStream :=
    let polled := s.inner.pollRead capacity available
    ⟨polled.poll, polled.delivered, ⟨polled.stream, none⟩⟩
  match s.buffer with
  | some cursor =>
    if 0 < capacity then
      let read := cursor.take capacity
      if read ≠ [] then
        let rest := cursor.drop capacity
        ⟨.ready, read, { s with buffer := if rest = [] then none else some rest }⟩
      else pollInner
    else pollInner
  | none => pollInner

def crlf : List UInt8 := [13, 10]

def headerLimit : ℕ := 107

/-- The loop that reads a header, with the number of bytes that may still come. -/
def readHeader : ℕ → List UInt8 → TcpStream → Except Interruption (List UInt8 × TcpStream)
  | 0, headerBuf, stream => .ok (headerBuf, stream)
  | room + 1, headerBuf, stream =>
    match stream.read with
    | .error e => .error e
    | .ok none => .error (.error "EOF before proxy header finished".toList)
    | .ok (some (byte, stream)) =>
      let headerBuf := headerBuf ++ [byte]
      if crlf.isSuffixOf headerBuf then .ok (headerBuf, stream)
      else readHeader room headerBuf stream

def fromUtf8 (bytes : List UInt8) : Option Str :=
  (ByteArray.mk bytes.toArray).utf8Decode?.map Array.toList

def parseProxyProtocolV1 (header : Str) : Option (IpAddr × UInt16) :=
  if !startsWith header "PROXY TCP4 ".toList then none
  else if !endsWith header "\r\n".toList then none
  else
    let payload := (header.drop 11).take (header.length - 2 - 11)
    match split payload ' ' with
    | [client, proxy, clientPort, proxyPort] => do
      let clientIp ← Ipv4Addr.parse client
      let _ ← Ipv4Addr.parse proxy
      let clientPort ← parseUnsigned u16Max clientPort
      let _ ← parseUnsigned u16Max proxyPort
      return (.v4 clientIp, .ofNat clientPort)
    | _ => none

def parseHeader (stream : TcpStream) : Except Interruption (ProxyStream × SocketAddr) := do
  let (headerBuf, stream) ← readHeader headerLimit [] stream
  if !crlf.isSuffixOf headerBuf then
    throw (.error "Proxy header exceeded max length or missing CRLF".toList)
  match fromUtf8 headerBuf with
  | none => throw (.error "Proxy header is not valid UTF-8".toList)
  | some header =>
    match parseProxyProtocolV1 header with
    | none => throw (.error "Failed to parse Proxy Protocol header".toList)
    | some (clientIp, clientPort) => return (⟨stream, none⟩, ⟨clientIp, clientPort⟩)

def proxyPrefix : List UInt8 := [80, 82, 79, 88, 89]

/-- The loop that reads while the stream looks like a header, given the rest of the
prefix. -/
def readPrefix : List UInt8 → List UInt8 → TcpStream →
    Except Interruption (List UInt8 × TcpStream)
  | [], headerBuf, stream => .ok (headerBuf, stream)
  | expected :: rest, headerBuf, stream =>
    match stream.read with
    | .error e => .error e
    | .ok none => .ok (headerBuf, stream)
    | .ok (some (byte, stream)) =>
      let headerBuf := headerBuf ++ [byte]
      if byte ≠ expected then .ok (headerBuf, stream)
      else readPrefix rest headerBuf stream

def checkSpoof (stream : TcpStream) : Except Interruption ProxyStream := do
  let (headerBuf, stream) ← readPrefix proxyPrefix [] stream
  if proxyPrefix.isPrefixOf headerBuf then
    throw (.error
      "Spoofing attempt: Proxy Protocol header injected from untrusted source".toList)
  return ⟨stream, some headerBuf⟩

def handleProxyProtocol (stream : TcpStream) (peerAddr : SocketAddr)
    (securityConfig : SecurityConfig) : Except Str (ProxyStream × SocketAddr) :=
  if !securityConfig.proxyProtocol then .ok (⟨stream, none⟩, peerAddr)
  else if peerAddr.ip = securityConfig.trustedUpstream then
    match parseHeader stream with
    | .ok result => .ok result
    | .error (.error message) => .error message
    | .error .timeout => .error "Timeout reading Proxy Protocol header".toList
  else
    match checkSpoof stream with
    | .ok stream => .ok (stream, peerAddr)
    | .error (.error message) => .error message
    | .error .timeout => .error "Timeout checking for fake Proxy Protocol header".toList

/-- Only a header that a trusted peer sends changes the address. -/
theorem handleProxyProtocol_addr {stream : TcpStream} {peerAddr addr : SocketAddr}
    {sec : SecurityConfig} {result : ProxyStream}
    (h : handleProxyProtocol stream peerAddr sec = .ok (result, addr))
    (htrust : ¬ (sec.proxyProtocol = true ∧ peerAddr.ip = sec.trustedUpstream)) :
    addr = peerAddr := by
  unfold handleProxyProtocol at h
  split at h
  · cases h
    rfl
  · next hon =>
    have huntrusted : peerAddr.ip ≠ sec.trustedUpstream := by
      intro hpeer
      exact htrust ⟨by simpa using hon, hpeer⟩
    rw [if_neg huntrusted] at h
    split at h
    · cases h
      rfl
    · cases h
    · cases h

end BarebonesProxy.ProxyProtocol
