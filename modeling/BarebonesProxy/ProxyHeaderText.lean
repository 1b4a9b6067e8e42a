import BarebonesProxy.AddressTexts
import BarebonesProxy.ProxyProtocol

set_option autoImplicit false

/-!
# The text of a PROXY header

The documented header names two addresses and two ports, each in its one decimal form. The
parser takes the addresses in that form only, and the ports in any form that `parse::<u16>`
takes.
-/
namespace BarebonesProxy.ProxyProtocol
open RustNet RustStrings

def headerOf (client proxy clientPort proxyPort : Str) : Str :=
  "PROXY TCP4 ".toList ++ List.intercalate [' '] [client, proxy, clientPort, proxyPort] ++
    "\r\n".toList

def documentedText (client proxy : Ipv4Addr) (clientPort proxyPort : UInt16) : Str :=
  headerOf client.display proxy.display (natToString clientPort.toNat) (natToString proxyPort.toNat)

/-- The documented header of a client and some proxy. -/
def Documented (header : Str) (ip : IpAddr) (port : UInt16) : Prop :=
  ∃ client proxy proxyPort, ip = .v4 client ∧ header = documentedText client proxy port proxyPort

/-- Ports that can be read are written with digits only and without a leading zero. -/
def DecimalPorts (header : Str) : Prop :=
  ∀ (client proxy : Ipv4Addr) (clientPort proxyPort : Str),
    header = headerOf client.display proxy.display clientPort proxyPort →
    (parseUnsigned u16Max clientPort).isSome → (parseUnsigned u16Max proxyPort).isSome →
      isDecimal clientPort = true ∧ isDecimal proxyPort = true

section Payload

theorem drop_take_between (front payload last : Str) :
    ((front ++ payload ++ last).drop front.length).take
      ((front ++ payload ++ last).length - last.length - front.length) = payload := by
  have hlength : (front ++ payload ++ last).length - last.length - front.length =
      payload.length := by
    simp only [List.length_append]
    omega
  rw [hlength, List.append_assoc, List.drop_left, List.take_left]

/-- The two tests of the ends leave a payload between them: the ends cannot overlap. -/
theorem exists_payload {header : Str} (hstart : startsWith header "PROXY TCP4 ".toList = true)
    (hend : endsWith header "\r\n".toList = true) :
    ∃ payload, header = "PROXY TCP4 ".toList ++ payload ++ "\r\n".toList := by
  obtain ⟨rest, rfl⟩ := List.isPrefixOf_iff_prefix.mp hstart
  have hlast := List.isSuffixOf_iff_suffix.mp hend
  match rest with
  | [] => exact absurd hend (by decide)
  | [c] =>
    rw [← List.reverse_prefix] at hlast
    have hsecond := (List.cons_prefix_cons.mp hlast).2
    exact absurd hsecond (by decide)
  | c :: d :: rest =>
    obtain ⟨payload, hpayload⟩ := List.suffix_of_suffix_length_le hlast
      (List.suffix_append "PROXY TCP4 ".toList (c :: d :: rest)) (Nat.le_add_left 2 rest.length)
    exact ⟨payload, by rw [← hpayload, List.append_assoc]⟩

theorem space_notMem_display (x : Ipv4Addr) : ' ' ∉ x.display := by
  intro h
  cases isAddressChar_of_mem_display_v4 h

theorem space_notMem_of_parseUnsigned {largest n : ℕ} {s : Str}
    (hs : parseUnsigned largest s = some n) : ' ' ∉ s := by
  obtain ⟨-, digits, hdigits, -, hall, -⟩ := parseUnsigned_eq_some hs
  have hspace : ' ' ∉ digits := by
    intro h
    cases hall _ h
  rcases hdigits with rfl | rfl
  · exact hspace
  · exact List.not_mem_cons_of_ne_of_not_mem (by decide) hspace

theorem split_fields (client proxy : Ipv4Addr) {clientPort proxyPort : Str} {n m : ℕ}
    (hn : parseUnsigned u16Max clientPort = some n) (hm : parseUnsigned u16Max proxyPort = some m) :
    split (List.intercalate [' '] [client.display, proxy.display, clientPort, proxyPort]) ' ' =
      [client.display, proxy.display, clientPort, proxyPort] := by
  refine List.splitOn_intercalate ' ' ?_ (List.cons_ne_nil _ _)
  simp only [List.forall_mem_cons]
  exact ⟨space_notMem_display client, space_notMem_display proxy,
    space_notMem_of_parseUnsigned hn, space_notMem_of_parseUnsigned hm, nofun⟩

theorem parse_port (port : UInt16) :
    parseUnsigned u16Max (natToString port.toNat) = some port.toNat :=
  parseUnsigned_natToString (Nat.le_of_lt_succ port.toNat_lt)

end Payload

theorem exists_payload_of_parse {header : Str} {x : IpAddr × UInt16}
    (h : parseProxyProtocolV1 header = some x) :
    ∃ payload, header = "PROXY TCP4 ".toList ++ payload ++ "\r\n".toList := by
  unfold parseProxyProtocolV1 at h
  cases hstart : startsWith header "PROXY TCP4 ".toList with
  | false =>
    rw [hstart] at h
    cases h
  | true =>
    cases hend : endsWith header "\r\n".toList with
    | false =>
      rw [hstart, hend] at h
      cases h
    | true => exact exists_payload hstart hend

/-- Between the two ends, the parser reads four fields with one space between them. -/
theorem parse_framed_iff {payload : Str} {ip : IpAddr} {port : UInt16} :
    parseProxyProtocolV1 ("PROXY TCP4 ".toList ++ payload ++ "\r\n".toList) = some (ip, port) ↔
      ∃ (client proxy : Ipv4Addr) (clientPort proxyPort : Str) (n m : ℕ),
        split payload ' ' = [client.display, proxy.display, clientPort, proxyPort] ∧
        parseUnsigned u16Max clientPort = some n ∧ parseUnsigned u16Max proxyPort = some m ∧
        ip = .v4 client ∧ port = .ofNat n := by
  have hstart : startsWith ("PROXY TCP4 ".toList ++ payload ++ "\r\n".toList)
      "PROXY TCP4 ".toList = true := by
    rw [List.append_assoc]
    exact List.isPrefixOf_iff_prefix.mpr (List.prefix_append _ _)
  have hend : endsWith ("PROXY TCP4 ".toList ++ payload ++ "\r\n".toList) "\r\n".toList = true :=
    List.isSuffixOf_iff_suffix.mpr (List.suffix_append _ _)
  have hpayload : List.take (("PROXY TCP4 ".toList ++ payload ++ "\r\n".toList).length - 2 - 11)
      (List.drop 11 ("PROXY TCP4 ".toList ++ payload ++ "\r\n".toList)) = payload :=
    drop_take_between "PROXY TCP4 ".toList payload "\r\n".toList
  unfold parseProxyProtocolV1
  rw [hstart, hend, if_neg (by decide), if_neg (by decide)]
  dsimp only
  rw [hpayload]
  generalize split payload ' ' = fields
  constructor
  · intro h
    split at h
    · next client proxy clientPort proxyPort =>
      simp only [Option.bind_eq_bind, Option.bind_eq_some_iff, Ipv4Addr.parse_iff] at h
      obtain ⟨clientIp, rfl, proxyIp, rfl, n, hn, m, hm, h⟩ := h
      cases h
      exact ⟨clientIp, proxyIp, clientPort, proxyPort, n, m, rfl, hn, hm, rfl, rfl⟩
    · cases h
  · rintro ⟨client, proxy, clientPort, proxyPort, n, m, rfl, hn, hm, rfl, rfl⟩
    dsimp only
    rw [Ipv4Addr.parse_iff.mpr rfl, Ipv4Addr.parse_iff.mpr rfl, hn, hm]
    rfl

/-- What the parser accepts: two addresses as `Display` writes them, and two texts that
`parse::<u16>` takes. -/
theorem parseProxyProtocolV1_iff {header : Str} {ip : IpAddr} {port : UInt16} :
    parseProxyProtocolV1 header = some (ip, port) ↔
      ∃ (client proxy : Ipv4Addr) (clientPort proxyPort : Str) (n m : ℕ),
        header = headerOf client.display proxy.display clientPort proxyPort ∧
        parseUnsigned u16Max clientPort = some n ∧ parseUnsigned u16Max proxyPort = some m ∧
        ip = .v4 client ∧ port = .ofNat n := by
  constructor
  · intro h
    obtain ⟨payload, hpayload⟩ := exists_payload_of_parse h
    rw [hpayload] at h ⊢
    obtain ⟨client, proxy, clientPort, proxyPort, n, m, hsplit, hrest⟩ := parse_framed_iff.mp h
    have hjoin : List.intercalate [' '] (split payload ' ') = payload :=
      List.intercalate_splitOn ' '
    refine ⟨client, proxy, clientPort, proxyPort, n, m, ?_, hrest⟩
    unfold headerOf
    rw [← hsplit, hjoin]
  · rintro ⟨client, proxy, clientPort, proxyPort, n, m, rfl, hn, hm, hrest⟩
    exact parse_framed_iff.mpr
      ⟨client, proxy, clientPort, proxyPort, n, m, split_fields client proxy hn hm, hn, hm, hrest⟩

/-- Decoding undoes encoding. -/
theorem parse_documentedText (client proxy : Ipv4Addr) (clientPort proxyPort : UInt16) :
    parseProxyProtocolV1 (documentedText client proxy clientPort proxyPort) =
      some (.v4 client, clientPort) := by
  refine parseProxyProtocolV1_iff.mpr ⟨client, proxy, _, _, clientPort.toNat, proxyPort.toNat, rfl,
    parse_port clientPort, parse_port proxyPort, rfl, ?_⟩
  exact UInt16.ofNat_toNat.symm

/-- A documented header has the port texts of `Display`, in whatever way it was taken apart. -/
theorem Documented.isDecimal_ports {client proxy : Ipv4Addr} {clientPort proxyPort : Str} {n m : ℕ}
    (hn : parseUnsigned u16Max clientPort = some n) (hm : parseUnsigned u16Max proxyPort = some m)
    {ip : IpAddr} {port : UInt16}
    (h : Documented (headerOf client.display proxy.display clientPort proxyPort) ip port) :
    isDecimal clientPort = true ∧ isDecimal proxyPort = true := by
  obtain ⟨client', proxy', proxyPort', -, htext⟩ := h
  have hpayload := List.append_cancel_left (List.append_cancel_right htext)
  have hfields := congrArg (split · ' ') hpayload
  rw [split_fields client proxy hn hm, split_fields _ _ (parse_port _) (parse_port _)] at hfields
  simp only [List.cons.injEq] at hfields
  obtain ⟨-, -, hclient, hproxy, -⟩ := hfields
  rw [hclient, hproxy]
  exact ⟨isDecimal_natToString _, isDecimal_natToString _⟩

theorem documented_of_parse {header : Str} {ip : IpAddr} {port : UInt16}
    (hports : DecimalPorts header) (h : parseProxyProtocolV1 header = some (ip, port)) :
    Documented header ip port := by
  obtain ⟨client, proxy, clientPort, proxyPort, n, m, htext, hn, hm, rfl, rfl⟩ :=
    parseProxyProtocolV1_iff.mp h
  obtain ⟨hclient, hproxy⟩ := hports client proxy clientPort proxyPort htext
    (Option.isSome_of_eq_some hn) (Option.isSome_of_eq_some hm)
  have hport : ∀ {s : Str} {k : ℕ}, parseUnsigned u16Max s = some k →
      (UInt16.ofNat k).toNat = k :=
    fun hk => UInt16.toNat_ofNat_of_lt' (Nat.lt_succ_of_le (parseUnsigned_eq_some hk).1)
  refine ⟨client, proxy, .ofNat m, rfl, htext.trans ?_⟩
  unfold documentedText
  rw [hport hn, hport hm, ← (eq_natToString_of_parseUnsigned hn).mpr hclient,
    ← (eq_natToString_of_parseUnsigned hm).mpr hproxy]

/-- The parser accepts exactly the documented headers where the ports are decimal, and it
always decodes what was encoded. -/
theorem header_documented_iff (header : Str) :
    ((∀ ip port, parseProxyProtocolV1 header = some (ip, port) ↔ Documented header ip port) ↔
      DecimalPorts header) ∧
    ∀ client proxy clientPort proxyPort,
      parseProxyProtocolV1 (documentedText client proxy clientPort proxyPort) =
        some (.v4 client, clientPort) := by
  refine ⟨⟨?_, ?_⟩, parse_documentedText⟩
  · intro hexact client proxy clientPort proxyPort htext hclient hproxy
    obtain ⟨n, hn⟩ := Option.isSome_iff_exists.mp hclient
    obtain ⟨m, hm⟩ := Option.isSome_iff_exists.mp hproxy
    have hparse : parseProxyProtocolV1 header = some (.v4 client, .ofNat n) :=
      parseProxyProtocolV1_iff.mpr
        ⟨client, proxy, clientPort, proxyPort, n, m, htext, hn, hm, rfl, rfl⟩
    have hdocumented := (hexact _ _).mp hparse
    rw [htext] at hdocumented
    exact hdocumented.isDecimal_ports hn hm
  · intro hports ip port
    refine ⟨documented_of_parse hports, ?_⟩
    rintro ⟨client, proxy, proxyPort, rfl, rfl⟩
    exact parse_documentedText client proxy port proxyPort

/-- A sign in front of a port is accepted, and so are zeros. -/
theorem header_signed_port :
    parseProxyProtocolV1 "PROXY TCP4 1.2.3.4 5.6.7.8 +080 80\r\n".toList =
        some (.v4 ⟨1, 2, 3, 4⟩, 80) ∧
      ¬ Documented "PROXY TCP4 1.2.3.4 5.6.7.8 +080 80\r\n".toList (.v4 ⟨1, 2, 3, 4⟩) 80 := by
  refine ⟨by decide +kernel, fun h => ?_⟩
  have htext : "PROXY TCP4 1.2.3.4 5.6.7.8 +080 80\r\n".toList =
      headerOf (Ipv4Addr.mk 1 2 3 4).display (Ipv4Addr.mk 5 6 7 8).display "+080".toList
        "80".toList := by decide +kernel
  rw [htext] at h
  have hports := h.isDecimal_ports (n := 80) (m := 80) (by decide) (by decide)
  exact absurd hports.1 (by decide)

end BarebonesProxy.ProxyProtocol
