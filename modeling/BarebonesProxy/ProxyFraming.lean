import BarebonesProxy.ConfigParser
import BarebonesProxy.ProxyProtocol

set_option autoImplicit false

/-!
# Which bytes the PROXY protocol takes from a stream

The header of a trusted peer is its first line and nothing more. What the check of any
other peer has read goes into the buffer of the `ProxyStream`, which gives it back before
it reads the socket, unless it is polled with no room.
-/
namespace BarebonesProxy.ProxyProtocol
open RustNet RustStrings ProxyConfig

section Header

/-- The first CR LF pair is the end of these bytes. -/
def FirstLine (bytes : List UInt8) : Prop := crlf <:+ bytes ∧ ¬ crlf <:+: bytes.dropLast

theorem not_infix_concat {buf : List UInt8} {byte : UInt8} (h : ¬ crlf <:+: buf)
    (hlast : ¬ crlf <:+ buf ++ [byte]) : ¬ crlf <:+: buf ++ [byte] := by
  rw [List.infix_concat_iff]
  exact not_or.mpr ⟨hlast, h⟩

theorem firstLine_concat {buf : List UInt8} {byte : UInt8} (h : ¬ crlf <:+: buf)
    (hlast : crlf <:+ buf ++ [byte]) : FirstLine (buf ++ [byte]) := by
  refine ⟨hlast, ?_⟩
  rw [List.dropLast_concat]
  exact h

theorem FirstLine.nothing_after {buf rest : List UInt8} (h : FirstLine (buf ++ rest))
    (hlast : crlf <:+ buf) : rest = [] := by
  rcases List.eq_nil_or_concat rest with rfl | ⟨front, byte, rfl⟩
  · rfl
  · refine absurd ?_ h.2
    rw [List.concat_eq_append, ← List.append_assoc, List.dropLast_concat]
    exact hlast.isInfix.trans (List.prefix_append buf front).isInfix

theorem FirstLine.taken_ne_nil {buf taken : List UInt8} (h : FirstLine (buf ++ taken))
    (hbuf : ¬ crlf <:+: buf) : taken ≠ [] := by
  rintro rfl
  rw [List.append_nil] at h
  exact hbuf h.1.isInfix

theorem FirstLine.taken_cons {buf taken incoming left : List UInt8} {byte : UInt8}
    (h : FirstLine (buf ++ taken)) (hbuf : ¬ crlf <:+: buf)
    (htaken : byte :: incoming = taken ++ left) :
    ∃ taken', taken = byte :: taken' ∧ incoming = taken' ++ left := by
  cases taken with
  | nil => exact absurd rfl (h.taken_ne_nil hbuf)
  | cons byte' taken =>
    obtain ⟨rfl, hincoming⟩ := List.cons.inj htaken
    exact ⟨taken, rfl, hincoming⟩

theorem readHeader_cons (room : ℕ) (buf : List UInt8) (byte : UInt8) (incoming : List UInt8)
    (ending : Ending) :
    readHeader (room + 1) buf ⟨byte :: incoming, ending⟩ =
      if crlf.isSuffixOf (buf ++ [byte]) then .ok (buf ++ [byte], ⟨incoming, ending⟩)
      else readHeader room (buf ++ [byte]) ⟨incoming, ending⟩ := rfl

/-- The loop ends at a CR LF exactly if the rest of a first line comes within its room. -/
theorem readHeader_iff {room : ℕ} {buf : List UInt8} {stream rest : TcpStream}
    {header : List UInt8} (h : ¬ crlf <:+: buf) :
    readHeader room buf stream = .ok (header, rest) ∧ crlf <:+ header ↔
      ∃ taken, header = buf ++ taken ∧ stream.incoming = taken ++ rest.incoming ∧
        rest.ending = stream.ending ∧ FirstLine header ∧ taken.length ≤ room := by
  -- by the bytes that the buffer may still take; it has no CR LF until the loop ends
  induction room generalizing buf stream with
  | zero =>
    constructor
    · rintro ⟨hread, hlast⟩
      cases hread
      exact absurd hlast.isInfix h
    · rintro ⟨taken, rfl, -, -, hline, hroom⟩
      exact absurd (List.length_eq_zero_iff.mp (Nat.le_zero.mp hroom)) (hline.taken_ne_nil h)
  | succ room ih =>
    obtain ⟨incoming, ending⟩ := stream
    cases incoming with
    | nil =>
      constructor
      · rintro ⟨hread, -⟩
        cases ending <;> cases hread
      · rintro ⟨taken, rfl, hempty, -, hline, -⟩
        exact absurd (List.append_eq_nil_iff.mp hempty.symm).1 (hline.taken_ne_nil h)
    | cons byte incoming =>
      rw [readHeader_cons]
      by_cases hlast : crlf <:+ buf ++ [byte]
      · rw [if_pos (List.isSuffixOf_iff_suffix.mpr hlast)]
        constructor
        · rintro ⟨hread, -⟩
          cases hread
          exact ⟨[byte], rfl, rfl, rfl, firstLine_concat h hlast, Nat.le_add_left 1 room⟩
        · rintro ⟨taken, rfl, htaken, hending, hline, -⟩
          obtain ⟨taken, rfl, hincoming⟩ := hline.taken_cons h htaken
          rw [List.append_cons] at hline ⊢
          obtain rfl := hline.nothing_after hlast
          obtain ⟨rest, restEnding⟩ := rest
          cases hincoming
          cases hending
          rw [List.append_nil]
          exact ⟨rfl, hlast⟩
      · rw [if_neg (fun hsuffix => hlast (List.isSuffixOf_iff_suffix.mp hsuffix)),
          ih (not_infix_concat h hlast)]
        constructor
        · rintro ⟨taken, rfl, hincoming, hending, hline, hroom⟩
          refine ⟨byte :: taken, List.append_cons .. |>.symm, ?_, hending, hline, ?_⟩
          · exact congrArg (byte :: ·) hincoming
          · exact Nat.succ_le_succ hroom
        · rintro ⟨taken, rfl, htaken, hending, hline, hroom⟩
          obtain ⟨taken, rfl, hincoming⟩ := hline.taken_cons h htaken
          refine ⟨taken, List.append_cons .., hincoming, hending, hline, ?_⟩
          exact Nat.le_of_succ_le_succ hroom

theorem parseHeader_read {stream rest : TcpStream} {line : List UInt8}
    (hread : readHeader headerLimit [] stream = .ok (line, rest)) (hlast : crlf <:+ line) :
    parseHeader stream =
      match fromUtf8 line with
      | none => .error (.error "Proxy header is not valid UTF-8".toList)
      | some header =>
        match parseProxyProtocolV1 header with
        | none => .error (.error "Failed to parse Proxy Protocol header".toList)
        | some (clientIp, clientPort) => .ok (⟨rest, none⟩, ⟨clientIp, clientPort⟩) := by
  have hsuffix : (!crlf.isSuffixOf line) = false := by
    rw [List.isSuffixOf_iff_suffix.mpr hlast]
    rfl
  unfold parseHeader
  rw [hread]
  change (if (!crlf.isSuffixOf line) = true then _ else _) = _
  rw [if_neg (by rw [hsuffix]; exact Bool.false_ne_true)]
  rfl

theorem parseHeader_unread {stream : TcpStream} {result : ProxyStream × SocketAddr}
    (h : parseHeader stream = .ok result) :
    ∃ line rest, readHeader headerLimit [] stream = .ok (line, rest) ∧ crlf <:+ line := by
  unfold parseHeader at h
  cases hread : readHeader headerLimit [] stream with
  | error e =>
    rw [hread] at h
    cases h
  | ok read =>
    refine ⟨read.1, read.2, rfl, ?_⟩
    rw [hread] at h
    rw [← List.isSuffixOf_iff_suffix]
    by_contra hlast
    change (if (!crlf.isSuffixOf read.1) = true then _ else _) = _ at h
    rw [if_pos (by simp [hlast])] at h
    cases h

/-- A header is taken exactly if it is the first line of the stream, within the limit, and
names the address. -/
theorem parseHeader_ok_iff {stream : TcpStream} {result : ProxyStream} {addr : SocketAddr} :
    parseHeader stream = .ok (result, addr) ↔
      ∃ line rest text, stream.incoming = line ++ rest ∧ FirstLine line ∧
        line.length ≤ headerLimit ∧ fromUtf8 line = some text ∧
        parseProxyProtocolV1 text = some (addr.ip, addr.port) ∧
        result = ⟨⟨rest, stream.ending⟩, none⟩ := by
  have hnil : ¬ crlf <:+: [] := by decide
  constructor
  · intro h
    obtain ⟨line, rest, hread⟩ := parseHeader_unread h
    obtain ⟨taken, rfl, hincoming, hending, hfirst, hlength⟩ := (readHeader_iff hnil).mp hread
    rw [parseHeader_read hread.1 hread.2] at h
    split at h
    · cases h
    · next text htext =>
      split at h
      · cases h
      · next clientIp clientPort hparse =>
        cases h
        rw [← hending]
        exact ⟨_, rest.incoming, text, hincoming, hfirst, hlength, htext, hparse, rfl⟩
  · rintro ⟨line, rest, text, hincoming, hfirst, hlength, htext, hparse, rfl⟩
    have hread : readHeader headerLimit [] stream = .ok (line, ⟨rest, stream.ending⟩) ∧
        crlf <:+ line :=
      (readHeader_iff hnil).mpr ⟨line, rfl, hincoming, rfl, hfirst, hlength⟩
    rw [parseHeader_read hread.1 hread.2, htext]
    dsimp only
    rw [hparse]

end Header

section Check

/-- Unless the stream has ended, the bytes that decide about the prefix have arrived. -/
def TcpStream.PrefixArrived (stream : TcpStream) : Prop :=
  stream.incoming <+: proxyPrefix → stream.incoming ≠ proxyPrefix → stream.ending = .eof

theorem readPrefix_spec {expected : List UInt8} (buf : List UInt8) {stream : TcpStream}
    (harrived : stream.incoming <+: expected → stream.incoming ≠ expected → stream.ending = .eof) :
    ∃ taken rest, readPrefix expected buf stream = .ok (buf ++ taken, ⟨rest, stream.ending⟩) ∧
      stream.incoming = taken ++ rest ∧ (expected <+: taken ↔ expected <+: stream.incoming) := by
  induction expected generalizing buf stream with
  | nil =>
    refine ⟨[], stream.incoming, ?_, rfl, ?_⟩
    · rw [List.append_nil]
      rfl
    · simp
  | cons byte expected ih =>
    obtain ⟨incoming, ending⟩ := stream
    cases incoming with
    | nil =>
      obtain rfl : ending = .eof := harrived List.nil_prefix (List.cons_ne_nil _ _).symm
      refine ⟨[], [], ?_, rfl, Iff.rfl⟩
      rw [List.append_nil]
      rfl
    | cons found incoming =>
      have hstep : readPrefix (byte :: expected) buf ⟨found :: incoming, ending⟩ =
          if found ≠ byte then .ok (buf ++ [found], ⟨incoming, ending⟩)
          else readPrefix expected (buf ++ [found]) ⟨incoming, ending⟩ := rfl
      rw [hstep]
      by_cases hbyte : found = byte
      · subst hbyte
        have hrest : incoming <+: expected → incoming ≠ expected → ending = .eof := by
          intro hprefix hne
          refine harrived (List.cons_prefix_cons.mpr ⟨rfl, hprefix⟩) ?_
          intro heq
          exact hne (List.cons.inj heq).2
        obtain ⟨taken, rest, hread, hincoming, hiff⟩ :=
          @ih (buf ++ [found]) ⟨incoming, ending⟩ hrest
        refine ⟨found :: taken, rest, ?_, congrArg (found :: ·) hincoming, ?_⟩
        · rw [if_neg (fun hne => hne rfl), hread, ← List.append_cons]
        · rw [List.cons_prefix_cons, List.cons_prefix_cons, hiff]
      · refine ⟨[found], incoming, if_pos hbyte, rfl, ?_⟩
        have hne : byte ≠ found := Ne.symm hbyte
        simp [List.cons_prefix_cons, hne]

theorem handleProxyProtocol_untrusted {sec : SecurityConfig} (hon : sec.proxyProtocol = true)
    {peerAddr : SocketAddr} (hpeer : peerAddr.ip ≠ sec.trustedUpstream) {stream : TcpStream} :
    handleProxyProtocol stream peerAddr sec =
      match checkSpoof stream with
      | .ok stream => .ok (stream, peerAddr)
      | .error (.error message) => .error message
      | .error .timeout => .error "Timeout checking for fake Proxy Protocol header".toList := by
  unfold handleProxyProtocol
  rw [hon]
  exact (if_neg (by decide)).trans (if_neg hpeer)

/-- An untrusted peer is refused exactly if its stream starts with `PROXY`, and else keeps
its address and loses no byte. -/
theorem untrusted_check_exact {sec : SecurityConfig} (hon : sec.proxyProtocol = true)
    {peerAddr : SocketAddr} (hpeer : peerAddr.ip ≠ sec.trustedUpstream) {stream : TcpStream}
    (harrived : stream.PrefixArrived) :
    ((∃ message, handleProxyProtocol stream peerAddr sec = .error message) ↔
        stream.incoming.take 5 = proxyPrefix) ∧
      (stream.incoming.take 5 ≠ proxyPrefix → ∃ buffered rest,
        handleProxyProtocol stream peerAddr sec =
          .ok (⟨⟨rest, stream.ending⟩, some buffered⟩, peerAddr) ∧
        buffered ++ rest = stream.incoming) := by
  obtain ⟨taken, rest, hread, hincoming, hiff⟩ := readPrefix_spec [] harrived
  rw [List.nil_append] at hread
  have hfive : stream.incoming.take 5 = proxyPrefix ↔ proxyPrefix.isPrefixOf taken = true := by
    rw [List.isPrefixOf_iff_prefix, hiff, List.prefix_iff_eq_take]
    exact eq_comm
  have hcheck : checkSpoof stream = if proxyPrefix.isPrefixOf taken then
      .error (.error
        "Spoofing attempt: Proxy Protocol header injected from untrusted source".toList)
      else .ok ⟨⟨rest, stream.ending⟩, some taken⟩ := by
    unfold checkSpoof
    rw [hread]
    rfl
  rw [handleProxyProtocol_untrusted hon hpeer, hcheck, Ne, hfive]
  by_cases hspoof : proxyPrefix.isPrefixOf taken = true
  · rw [if_pos hspoof]
    exact ⟨iff_of_true ⟨_, rfl⟩ hspoof, fun hne => absurd hspoof hne⟩
  · rw [if_neg hspoof]
    refine ⟨iff_of_false ?_ hspoof, fun _ => ⟨taken, rest, rfl, hincoming.symm⟩⟩
    rintro ⟨message, h⟩
    cases h

end Check

section Example

def gatewayConfig : SecurityConfig :=
  { ConfigParser.defaultSecurityConfig with
    proxyProtocol := true
    trustedUpstream := .v4 ⟨10, 0, 0, 9⟩ }

def guestAddr : SocketAddr := ⟨.v4 ⟨10, 0, 0, 1⟩, 4000⟩

theorem short_stream_kept :
    TcpStream.PrefixArrived ⟨[80, 82], .eof⟩ ∧ ∃ buffered rest,
      handleProxyProtocol ⟨[80, 82], .eof⟩ guestAddr gatewayConfig =
        .ok (⟨⟨rest, .eof⟩, some buffered⟩, guestAddr) ∧ buffered ++ rest = [80, 82] := by
  have harrived : TcpStream.PrefixArrived ⟨[80, 82], .eof⟩ := fun _ _ => rfl
  exact ⟨harrived, (untrusted_check_exact rfl (by decide) harrived).2 (by decide)⟩

end Example

section Replay

/-- One `poll_read`: the room in the destination, and how many bytes the socket has. -/
structure ReadCall where
  capacity : ℕ
  available : ℕ

def ProxyStream.buffered (s : ProxyStream) : List UInt8 := s.buffer.getD []

/-- Everything that a sequence of calls delivers, and the stream after them. -/
def ProxyStream.pollAll (s : ProxyStream) : List ReadCall → List UInt8 × ProxyStream
  | [] => ([], s)
  | call :: calls =>
    let polled := s.pollRead call.capacity call.available
    let (delivered, last) := polled.stream.pollAll calls
    (polled.delivered ++ delivered, last)

theorem ProxyStream.pollAll_cons (s : ProxyStream) (call : ReadCall) (calls : List ReadCall) :
    s.pollAll (call :: calls) =
      ((s.pollRead call.capacity call.available).delivered ++
        ((s.pollRead call.capacity call.available).stream.pollAll calls).1,
        ((s.pollRead call.capacity call.available).stream.pollAll calls).2) := rfl

def ProxyStream.unread (s : ProxyStream) : List UInt8 := s.buffered ++ s.inner.incoming

/-- What was delivered are the next bytes of the buffer and, after its last one, of the
socket, and all others are in their places. -/
def Advances (s : ProxyStream) (delivered : List UInt8) (s' : ProxyStream) : Prop :=
  ∃ n m, delivered = s.buffered.take n ++ s.inner.incoming.take m ∧
    s'.buffered = s.buffered.drop n ∧ s'.inner.incoming = s.inner.incoming.drop m ∧
    (0 < m → s.buffered.length ≤ n)

def Replays (s : ProxyStream) (calls : List ReadCall) : Prop :=
  (s.pollAll calls).1 <+: s.unread ∧ Advances s (s.pollAll calls).1 (s.pollAll calls).2

/-- A call without room comes only after calls with room for the whole buffer. -/
def RoomWhileBuffered (s : ProxyStream) (calls : List ReadCall) : Prop :=
  ∀ before call after, calls = before ++ call :: after → call.capacity = 0 →
    s.buffered.length ≤ (before.map ReadCall.capacity).sum

theorem TcpStream.pollRead_spec (s : TcpStream) (capacity available : ℕ) :
    ∃ m ≤ capacity, (s.pollRead capacity available).delivered = s.incoming.take m ∧
      (s.pollRead capacity available).stream.incoming = s.incoming.drop m := by
  obtain ⟨incoming, ending⟩ := s
  cases incoming with
  | nil =>
    refine ⟨0, Nat.zero_le _, ?_⟩
    cases ending <;> exact ⟨rfl, rfl⟩
  | cons byte incoming =>
    have hpoll : TcpStream.pollRead ⟨byte :: incoming, ending⟩ capacity available =
        if available = 0 then ⟨.pending, [], ⟨byte :: incoming, ending⟩⟩
        else ⟨.ready, (byte :: incoming).take (min capacity available),
          ⟨(byte :: incoming).drop (min capacity available), ending⟩⟩ := by
      cases ending <;> rfl
    rw [hpoll]
    split
    · exact ⟨0, Nat.zero_le _, rfl, rfl⟩
    · exact ⟨min capacity available, Nat.min_le_left .., rfl, rfl⟩

/-- A call without room empties the buffer; a call with room takes from it first. -/
theorem ProxyStream.pollRead_cases (s : ProxyStream) (capacity available : ℕ) :
    (capacity = 0 ∧ (s.pollRead capacity available).delivered = [] ∧
      (s.pollRead capacity available).stream.buffered = [] ∧
      (s.pollRead capacity available).stream.inner.incoming = s.inner.incoming) ∨
    (0 < capacity ∧ (s.pollRead capacity available).delivered = s.buffered.take capacity ∧
      (s.pollRead capacity available).stream.buffered = s.buffered.drop capacity ∧
      (s.pollRead capacity available).stream.inner.incoming = s.inner.incoming) ∨
    (s.buffered = [] ∧ ∃ m, (s.pollRead capacity available).delivered = s.inner.incoming.take m ∧
      (s.pollRead capacity available).stream.buffered = [] ∧
      (s.pollRead capacity available).stream.inner.incoming = s.inner.incoming.drop m) := by
  obtain ⟨m, hm, hdelivered, hincoming⟩ := s.inner.pollRead_spec capacity available
  obtain ⟨inner, buffer⟩ := s
  cases buffer with
  | none => exact .inr (.inr ⟨rfl, m, hdelivered, rfl, hincoming⟩)
  | some cursor =>
    rcases Nat.eq_zero_or_pos capacity with rfl | hroom
    · obtain rfl := Nat.le_zero.mp hm
      exact .inl ⟨rfl, hdelivered, rfl, hincoming⟩
    · by_cases hread : cursor.take capacity = []
      · have hempty : cursor = [] := by
          cases cursor with
          | nil => rfl
          | cons byte cursor =>
            obtain ⟨k, rfl⟩ := Nat.exists_eq_succ_of_ne_zero hroom.ne'
            cases hread
        subst hempty
        refine .inr (.inr ⟨rfl, m, ?_⟩)
        simp only [pollRead, if_pos hroom, List.take_nil, ne_eq, not_true_eq_false, if_false]
        exact ⟨hdelivered, rfl, hincoming⟩
      · refine .inr (.inl ⟨hroom, ?_⟩)
        have hpoll : pollRead ⟨inner, some cursor⟩ capacity available =
            ⟨.ready, cursor.take capacity, ⟨inner,
              if cursor.drop capacity = [] then none else some (cursor.drop capacity)⟩⟩ := by
          simp only [pollRead]
          rw [if_pos hroom, if_pos hread]
        rw [hpoll]
        refine ⟨rfl, ?_, rfl⟩
        unfold buffered
        split
        · next hrest => exact hrest.symm
        · rfl

theorem RoomWhileBuffered.first {s : ProxyStream} {call : ReadCall} {calls : List ReadCall}
    (h : RoomWhileBuffered s (call :: calls)) (hroom : call.capacity = 0) : s.buffered = [] :=
  List.length_eq_zero_iff.mp (Nat.le_zero.mp (h [] call calls rfl hroom))

theorem roomWhileBuffered_cons {s s' : ProxyStream} {call : ReadCall} {calls : List ReadCall}
    (hfirst : call.capacity = 0 → s.buffered = [])
    (hlength : s'.buffered.length = s.buffered.length - call.capacity) :
    RoomWhileBuffered s (call :: calls) ↔ RoomWhileBuffered s' calls := by
  constructor
  · rintro h before later after rfl hzero
    have hall := h (call :: before) later after rfl hzero
    rw [List.map_cons, List.sum_cons] at hall
    omega
  · intro h before later after heq hzero
    cases before with
    | nil =>
      obtain ⟨rfl, -⟩ := List.cons.inj heq
      rw [hfirst hzero]
      exact Nat.le_refl 0
    | cons first before =>
      obtain ⟨rfl, hrest⟩ := List.cons.inj heq
      have hall := h before later after hrest hzero
      rw [List.map_cons, List.sum_cons]
      omega

theorem Advances.unread {s s' : ProxyStream} {delivered : List UInt8} (h : Advances s delivered s') :
    delivered ++ s'.unread = s.unread := by
  obtain ⟨n, m, rfl, hbuffered, hincoming, hdrained⟩ := h
  unfold ProxyStream.unread
  rw [hbuffered, hincoming]
  rcases Nat.eq_zero_or_pos m with rfl | hm
  · rw [List.take_zero, List.append_nil, List.drop_zero, ← List.append_assoc,
      List.take_append_drop]
  · have hn := hdrained hm
    rw [List.take_of_length_le hn, List.drop_eq_nil_of_le hn, List.nil_append, List.append_assoc,
      List.take_append_drop]

theorem Advances.trans {s s' s'' : ProxyStream} {delivered delivered' : List UInt8}
    (h : Advances s delivered s') (h' : Advances s' delivered' s'') :
    Advances s (delivered ++ delivered') s'' := by
  obtain ⟨n, m, rfl, hbuffered, hincoming, hdrained⟩ := h
  obtain ⟨n', m', rfl, hbuffered', hincoming', hdrained'⟩ := h'
  rw [hbuffered] at hbuffered' hdrained' ⊢
  rw [hincoming] at hincoming' ⊢
  rw [List.drop_drop] at hbuffered' hincoming'
  rw [List.length_drop] at hdrained'
  refine ⟨n + n', m + m', ?_, hbuffered', hincoming', fun hm => ?_⟩
  · rw [List.take_add, List.take_add]
    rcases Nat.eq_zero_or_pos m with rfl | hm
    · simp
    · simp [List.drop_eq_nil_of_le (hdrained hm)]
  · rcases Nat.eq_zero_or_pos m with rfl | hpos
    · have := hdrained' (by omega)
      omega
    · have := hdrained hpos
      omega

theorem pollRead_advances {s : ProxyStream} {capacity : ℕ} (available : ℕ)
    (hroom : capacity = 0 → s.buffered = []) :
    Advances s (s.pollRead capacity available).delivered (s.pollRead capacity available).stream := by
  rcases s.pollRead_cases capacity available with
    ⟨hzero, hdelivered, hbuffered, hincoming⟩ | ⟨-, hdelivered, hbuffered, hincoming⟩ |
      ⟨hempty, m, hdelivered, hbuffered, hincoming⟩
  · refine ⟨0, 0, hdelivered, ?_, hincoming, fun h => absurd h (Nat.lt_irrefl 0)⟩
    rw [hbuffered, hroom hzero]
    rfl
  · refine ⟨capacity, 0, ?_, hbuffered, hincoming, fun h => absurd h (Nat.lt_irrefl 0)⟩
    rw [hdelivered, List.take_zero, List.append_nil]
  · refine ⟨0, m, hdelivered, ?_, hincoming, ?_⟩
    · rw [hbuffered, hempty]
      rfl
    · rw [hempty]
      exact fun _ => Nat.le_refl 0

theorem pollRead_buffered_length {s : ProxyStream} {capacity : ℕ} (available : ℕ)
    (hroom : capacity = 0 → s.buffered = []) :
    (s.pollRead capacity available).stream.buffered.length = s.buffered.length - capacity := by
  rcases s.pollRead_cases capacity available with
    ⟨hzero, -, hbuffered, -⟩ | ⟨-, -, hbuffered, -⟩ | ⟨hempty, m, -, hbuffered, -⟩
  · rw [hbuffered, hroom hzero]
    simp
  · rw [hbuffered, List.length_drop]
  · rw [hbuffered, hempty]
    simp

theorem pollAll_advances {s : ProxyStream} {calls : List ReadCall} (h : RoomWhileBuffered s calls) :
    Advances s (s.pollAll calls).1 (s.pollAll calls).2 := by
  induction calls generalizing s with
  | nil => exact ⟨0, 0, rfl, rfl, rfl, fun hm => absurd hm (Nat.lt_irrefl 0)⟩
  | cons call calls ih =>
    have hstep := pollRead_advances call.available h.first
    have hlength := pollRead_buffered_length call.available h.first
    rw [ProxyStream.pollAll_cons]
    exact hstep.trans (ih ((roomWhileBuffered_cons h.first hlength).mp h))

theorem pollAll_socket (socket : TcpStream) (calls : List ReadCall) :
    (ProxyStream.pollAll ⟨socket, none⟩ calls).1 <+: socket.incoming := by
  have hroom : RoomWhileBuffered ⟨socket, none⟩ calls := fun _ _ _ _ _ => Nat.zero_le _
  exact ⟨_, (pollAll_advances hroom).unread⟩

theorem Advances.length {s s' : ProxyStream} {delivered : List UInt8} (h : Advances s delivered s') :
    delivered.length + s'.unread.length = s.unread.length := by
  rw [← List.length_append, h.unread]

theorem pollRead_loses {s : ProxyStream} (available : ℕ) (h : s.buffered ≠ []) :
    (s.pollRead 0 available).delivered.length + (s.pollRead 0 available).stream.unread.length <
      s.unread.length := by
  have hpos := List.length_pos_of_ne_nil h
  rcases s.pollRead_cases 0 available with
    ⟨-, hdelivered, hbuffered, hincoming⟩ | ⟨hroom, -⟩ | ⟨hempty, -⟩
  · unfold ProxyStream.unread
    rw [hdelivered, hbuffered, hincoming, List.length_append, List.length_append]
    simp only [List.length_nil]
    omega
  · exact absurd hroom (Nat.lt_irrefl 0)
  · exact absurd hempty h

theorem pollAll_length_le (s : ProxyStream) (calls : List ReadCall) :
    (s.pollAll calls).1.length + (s.pollAll calls).2.unread.length ≤ s.unread.length := by
  induction calls generalizing s with
  | nil => exact Nat.le_of_eq (Nat.zero_add _)
  | cons call calls ih =>
    have hrest := ih (s.pollRead call.capacity call.available).stream
    have hfirst : (s.pollRead call.capacity call.available).delivered.length +
        (s.pollRead call.capacity call.available).stream.unread.length ≤ s.unread.length := by
      by_cases hroom : call.capacity = 0 → s.buffered = []
      · exact (pollRead_advances call.available hroom).length.le
      · obtain ⟨hzero, hbuffered⟩ := Classical.not_imp.mp hroom
        rw [hzero]
        exact (pollRead_loses call.available hbuffered).le
    simp only [ProxyStream.pollAll_cons, List.length_append]
    omega

theorem room_of_length {s : ProxyStream} {calls : List ReadCall}
    (h : s.unread.length ≤ (s.pollAll calls).1.length + (s.pollAll calls).2.unread.length) :
    RoomWhileBuffered s calls := by
  -- no call adds a byte, so a byte that one of them loses is missing at the end
  induction calls generalizing s with
  | nil =>
    intro before call after heq
    cases before <;> cases heq
  | cons call calls ih =>
    simp only [ProxyStream.pollAll_cons, List.length_append] at h
    have hrest := pollAll_length_le (s.pollRead call.capacity call.available).stream calls
    have hroom : call.capacity = 0 → s.buffered = [] := by
      intro hzero
      by_contra hbuffered
      have hlost := pollRead_loses call.available hbuffered
      rw [hzero] at h hrest
      omega
    have hfirst := (pollRead_advances call.available hroom).length
    rw [roomWhileBuffered_cons hroom (pollRead_buffered_length call.available hroom)]
    exact ih (by omega)

/-- Nothing that was buffered is lost exactly if no call without room finds it there. -/
theorem replays_iff (s : ProxyStream) (calls : List ReadCall) :
    Replays s calls ↔ RoomWhileBuffered s calls := by
  constructor
  · rintro ⟨-, hadvances⟩
    exact room_of_length hadvances.length.ge
  · intro hroom
    have hadvances := pollAll_advances hroom
    exact ⟨⟨_, hadvances.unread⟩, hadvances⟩

/-- `GET` was read by the check; one poll without room, and it is gone. -/
theorem poll_without_room_drops :
    ProxyStream.pollAll ⟨⟨[32, 47], .eof⟩, some [71, 69, 84]⟩ [⟨0, 2⟩, ⟨16, 2⟩] =
        ([32, 47], ⟨⟨[], .eof⟩, none⟩) ∧
      ¬ Replays ⟨⟨[32, 47], .eof⟩, some [71, 69, 84]⟩ [⟨0, 2⟩, ⟨16, 2⟩] := by
  have hrun : ProxyStream.pollAll ⟨⟨[32, 47], .eof⟩, some [71, 69, 84]⟩ [⟨0, 2⟩, ⟨16, 2⟩] =
      ([32, 47], ⟨⟨[], .eof⟩, none⟩) := by
    decide
  refine ⟨hrun, fun h => ?_⟩
  have hlength := h.2.length
  rw [hrun] at hlength
  exact absurd hlength (by decide)

end Replay

section Trusted

theorem handleProxyProtocol_trusted {sec : SecurityConfig} (hon : sec.proxyProtocol = true)
    {peerAddr : SocketAddr} (hpeer : peerAddr.ip = sec.trustedUpstream) {stream : TcpStream}
    {result : ProxyStream × SocketAddr} :
    handleProxyProtocol stream peerAddr sec = .ok result ↔ parseHeader stream = .ok result := by
  unfold handleProxyProtocol
  rw [hon, if_neg (by decide), if_pos hpeer]
  cases hparse : parseHeader stream with
  | ok found => simp
  | error e => cases e <;> simp

/-- A trusted peer is taken for the address that its first line names, and exactly that line
is gone from what is read afterwards. -/
theorem trusted_header_framed {sec : SecurityConfig} (hon : sec.proxyProtocol = true)
    {peerAddr : SocketAddr} (hpeer : peerAddr.ip = sec.trustedUpstream) {stream : TcpStream}
    {result : ProxyStream} {addr : SocketAddr} :
    handleProxyProtocol stream peerAddr sec = .ok (result, addr) ↔
      ∃ line rest text, stream.incoming = line ++ rest ∧ FirstLine line ∧ line.length ≤ 107 ∧
        fromUtf8 line = some text ∧ parseProxyProtocolV1 text = some (addr.ip, addr.port) ∧
        result = ⟨⟨rest, stream.ending⟩, none⟩ ∧ ∀ calls, (result.pollAll calls).1 <+: rest := by
  rw [handleProxyProtocol_trusted hon hpeer, parseHeader_ok_iff]
  refine exists_congr fun line => exists_congr fun rest => exists_congr fun text => ?_
  refine and_congr_right fun _ => and_congr_right fun _ => and_congr_right fun _ =>
    and_congr_right fun _ => and_congr_right fun _ => ?_
  constructor
  · rintro rfl
    exact ⟨rfl, pollAll_socket ⟨rest, stream.ending⟩⟩
  · exact And.left

def headerText : String := "PROXY TCP4 1.2.3.4 10.0.0.9 443 80\r\n"

theorem header_line_taken :
    handleProxyProtocol ⟨headerText.toUTF8.toList ++ [71, 69, 84], .eof⟩ ⟨.v4 ⟨10, 0, 0, 9⟩, 5000⟩
        gatewayConfig =
      .ok (⟨⟨[71, 69, 84], .eof⟩, none⟩, ⟨.v4 ⟨1, 2, 3, 4⟩, 443⟩) := by
  refine (trusted_header_framed rfl rfl).mpr ⟨headerText.toUTF8.toList, [71, 69, 84],
    headerText.toList, rfl, ?_, ?_, ?_, ?_, rfl, pollAll_socket _⟩
  · exact ⟨by decide +kernel, by decide +kernel⟩
  · decide +kernel
  · decide +kernel
  · decide +kernel

end Trusted

end BarebonesProxy.ProxyProtocol
