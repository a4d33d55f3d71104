import FaultOracle.P4Ingress

/-!
# Through the tunnel and back

Encapsulation puts a frame into a VXLAN packet, decapsulation takes it out.  `tunnel` is
the whole way of a frame: parse, `vxlan_encap`, checksums, deparse, and at the other end
parse, `vxlan_decap`, checksums, deparse.

`vxlan_encap` moves Ethernet and IPv4 to the inner headers and makes both valid, whether
there was an IPv4 header or not, and builds the outer UDP header in place of the one the
frame had.  The inner Ethernet header it fills in before it is valid, so that what was
written there need not last.  Whatever the frame, what comes back is an Ethernet header, an
IPv4 header and the payload (`tunnel_eq`), which is the frame in one case only
(`tunnel_iff`).
-/

namespace FaultOracle.P4

open BitCodecs

/-- `MyComputeChecksum` and `MyDeparser`, with the rest of the packet after the headers. -/
def send (hdr : Headers) (payload : List Bool) : List Bool :=
  deparse (computeChecksum hdr) ++ payload

/-- One end of the tunnel: parse, act on the headers, send. -/
def passThrough (action : Headers → Headers) (ingressPort : BitVec 9) (unspecified : Headers)
    (packet : List Bool) : List Bool :=
  let parsed := parse ingressPort unspecified packet
  send (action parsed.hdr) parsed.packet

/-- A frame through `vxlan_encap` at one end and `vxlan_decap` at the other. -/
def tunnel (vtepIp : BitVec 32) (vni : BitVec 24) (fresh : Headers) (portIn portOut : BitVec 9)
    (unspecified unspecified' : Headers) (frame : List Bool) : List Bool :=
  passThrough decapHeaders portOut unspecified'
    (passThrough (encapHeaders vtepIp vni fresh) portIn unspecified frame)

/-! ## The way through the tunnel -/

/-- What `vxlan_encap` sends: the outer headers, and the inner Ethernet and IPv4 headers in
front of the payload. -/
theorem send_encap (vtepIp : BitVec 32) (vni : BitVec 24) (fresh : Headers) {hdr : Headers}
    (payload : List Bool) (hvalid : hdr.ethernet.valid = true) :
    ∃ (eth : Ethernet) (ip : Ipv4) (udp : Udp) (vxlan : Vxlan),
      eth.etherType = ETHERTYPE_IPV4 ∧ ip.protocol = IP_PROTO_UDP ∧
      udp.dstPort = VXLAN_UDP_PORT ∧
      send (encapHeaders vtepIp vni fresh hdr) payload =
        Ethernet.codec.put eth ++ (Ipv4.codec.put ip ++ (Udp.codec.put udp ++
          (Vxlan.codec.put vxlan ++
            (Ethernet.codec.put (encapHeaders vtepIp vni fresh hdr).innerEthernet.fields ++
              (Ipv4.codec.put (encapHeaders vtepIp vni fresh hdr).innerIpv4.fields.withChecksum ++
                payload))))) := by
  have hinner : (encapHeaders vtepIp vni fresh hdr).innerEthernet.valid = true := by
    simp only [encapHeaders, Header.setValid]
    split <;> simp_all
  have hinner' : (encapHeaders vtepIp vni fresh hdr).innerIpv4.valid = true := by
    simp only [encapHeaders, Header.setValid]
    split <;> simp_all
  have hethernet : (encapHeaders vtepIp vni fresh hdr).ethernet.valid = true := hvalid
  refine ⟨(encapHeaders vtepIp vni fresh hdr).ethernet.fields,
    (encapHeaders vtepIp vni fresh hdr).ipv4.fields.withChecksum,
    (encapHeaders vtepIp vni fresh hdr).udp.fields,
    (encapHeaders vtepIp vni fresh hdr).vxlan.fields, rfl, rfl, rfl, ?_⟩
  have houter : (encapHeaders vtepIp vni fresh hdr).ipv4.valid = true ∧
      (encapHeaders vtepIp vni fresh hdr).udp.valid = true ∧
      (encapHeaders vtepIp vni fresh hdr).vxlan.valid = true := ⟨rfl, rfl, rfl⟩
  generalize encapHeaders vtepIp vni fresh hdr = sent at *
  simp [send, deparse, computeChecksum, updateChecksum, emit, hinner, hinner', hethernet, houter,
    List.append_assoc]

/-- The other end takes the inner frame out and sends it on. -/
theorem passThrough_decap (portOut : BitVec 9) (unspecified : Headers) {eth : Ethernet}
    {ip : Ipv4} {udp : Udp} (vxlan : Vxlan) (inner : Ethernet) (innerIp : Ipv4)
    (payload : List Bool) (htype : eth.etherType = ETHERTYPE_IPV4)
    (hproto : ip.protocol = IP_PROTO_UDP) (hport : udp.dstPort = VXLAN_UDP_PORT) :
    passThrough decapHeaders portOut unspecified
        (Ethernet.codec.put eth ++ (Ipv4.codec.put ip ++ (Udp.codec.put udp ++
          (Vxlan.codec.put vxlan ++ (Ethernet.codec.put inner ++
            (Ipv4.codec.put innerIp.withChecksum ++ payload)))))) =
      Ethernet.codec.put inner ++ (Ipv4.codec.put innerIp.withChecksum ++ payload) := by
  unfold passThrough
  by_cases hinner : inner.etherType = ETHERTYPE_IPV4
  · simp [parse, parseEthernet, parseIpv4, parseUdp, parseVxlan, parseInnerEthernet,
      parseInnerIpv4, htype, hproto, hport, hinner, send, deparse, computeChecksum,
      updateChecksum, emit, decapHeaders, Header.setInvalid, List.append_assoc]
  · -- the inner frame is not IPv4, so its IPv4 header counts as payload
    simp [parse, parseEthernet, parseIpv4, parseUdp, parseVxlan, parseInnerEthernet,
      htype, hproto, hport, hinner, send, deparse, computeChecksum, updateChecksum, emit,
      decapHeaders, Header.setInvalid, Headers.invalid]

/-- What comes back of a packet: the inner Ethernet header, an IPv4 header with the checksum
computed, and what the parser left of the packet. -/
def returned (vtepIp : BitVec 32) (vni : BitVec 24) (fresh : Headers) (s : ParserState) :
    List Bool :=
  Ethernet.codec.put (encapHeaders vtepIp vni fresh s.hdr).innerEthernet.fields ++
    (Ipv4.codec.put (encapHeaders vtepIp vni fresh s.hdr).innerIpv4.fields.withChecksum ++
      s.packet)

theorem length_returned (vtepIp : BitVec 32) (vni : BitVec 24) (fresh : Headers)
    (s : ParserState) : (returned vtepIp vni fresh s).length = 272 + s.packet.length := by
  simp only [returned, List.length_append, Codec.length_put, Ethernet.width_codec,
    Ipv4.width_codec]
  omega

/-- **What comes back** of any packet with an Ethernet header. -/
theorem tunnel_eq (vtepIp : BitVec 32) (vni : BitVec 24) (fresh : Headers) {portIn : BitVec 9}
    (portOut : BitVec 9) {unspecified : Headers} (unspecified' : Headers) {frame : List Bool}
    (hvalid : (parse portIn unspecified frame).hdr.ethernet.valid = true) :
    tunnel vtepIp vni fresh portIn portOut unspecified unspecified' frame =
      returned vtepIp vni fresh (parse portIn unspecified frame) := by
  rw [tunnel, passThrough.eq_def (encapHeaders vtepIp vni fresh)]
  generalize parse portIn unspecified frame = s at hvalid
  obtain ⟨eth, ip, udp, vxlan, htype, hproto, hport, hsent⟩ :=
    send_encap vtepIp vni fresh s.packet hvalid
  rw [hsent]
  exact passThrough_decap portOut unspecified' vxlan _ _ _ htype hproto hport

/-- The frame is IPv4 with no UDP header, its checksum is that of the header's fixed fields,
and its Ethernet header is what `inner_ethernet` holds when it has become valid. -/
def KeptIpv4 (fresh : Headers) (frame : List Bool) : Prop :=
  ∃ (eth : Ethernet) (ip : Ipv4) (payload : List Bool),
    frame = Ethernet.codec.put eth ++ (Ipv4.codec.put ip ++ payload) ∧
      eth.etherType = ETHERTYPE_IPV4 ∧ (ip.protocol ≠ IP_PROTO_UDP ∨ payload.length < 64) ∧
      ip.ChecksumOk ∧ fresh.innerEthernet.fields = eth

section Shapes

variable {vtepIp : BitVec 32} {vni : BitVec 24} {fresh : Headers} {frame : List Bool}
  {s : ParserState}

/-- What is not IPv4, or too short for it, comes back longer. -/
theorem returned_of_other (hsplit : frame = Ethernet.codec.put s.hdr.ethernet.fields ++ s.packet) :
    returned vtepIp vni fresh s ≠ frame := by
  intro h
  have hlength := congrArg List.length (h.trans hsplit)
  rw [length_returned, List.length_append, Codec.length_put, Ethernet.width_codec] at hlength
  omega

/-- A frame with a UDP header comes back shorter. -/
theorem returned_of_udp (hparsed : UdpParsed s.hdr) (hlossless : s.bits = frame) :
    returned vtepIp vni fresh s ≠ frame := by
  intro h
  obtain ⟨behind, hsplit⟩ := exists_between hparsed
  have hlength := congrArg List.length (h.trans (hlossless.symm.trans hsplit))
  simp only [length_returned, List.length_append, Codec.length_put, Ethernet.width_codec,
    Ipv4.width_codec, Udp.width_codec] at hlength
  omega

theorem returned_of_ipv4 (hvalid : s.hdr.ipv4.valid = true)
    (hinner : s.hdr.innerEthernet.valid = false) :
    returned vtepIp vni fresh s = Ethernet.codec.put fresh.innerEthernet.fields ++
      (Ipv4.codec.put s.hdr.ipv4.fields.withChecksum ++ s.packet) := by
  have heth : (encapHeaders vtepIp vni fresh s.hdr).innerEthernet.fields =
      fresh.innerEthernet.fields := by
    simp [encapHeaders, Header.setValid, hinner]
  have hip : (encapHeaders vtepIp vni fresh s.hdr).innerIpv4.fields = s.hdr.ipv4.fields := by
    simp [encapHeaders, Header.setValid, hvalid]
  rw [returned, heth, hip]

/-- What comes back is the frame exactly when nothing of it was lost and nothing added. -/
theorem returned_iff (hshape : Shape frame s) (hlossless : s.bits = frame)
    (hframe : 112 ≤ frame.length) : returned vtepIp vni fresh s = frame ↔ KeptIpv4 fresh frame := by
  cases hshape with
  | short hshort => omega
  | other hsplit htype =>
      refine iff_of_false (returned_of_other hsplit) ?_
      rintro ⟨eth, ip, payload, hplain, htype', -, -, -⟩
      obtain ⟨heth, hrest⟩ := (Codec.put_append_inj _).mp (hplain.symm.trans hsplit)
      rcases htype with htype | hshort
      · exact htype (heth ▸ htype')
      · have hlength := congrArg List.length hrest
        rw [List.length_append, Codec.length_put, Ipv4.width_codec] at hlength
        omega
  | ipv4 hsplit htype hproto hethernet hvalid hudp hinner =>
      rw [returned_of_ipv4 hvalid hinner]
      constructor
      · intro h
        obtain ⟨heth, hrest⟩ := (Codec.put_append_inj _).mp (h.trans hsplit)
        obtain ⟨hip, -⟩ := (Codec.put_append_inj _).mp hrest
        exact ⟨_, _, _, hsplit, htype, hproto, (Ipv4.checksumOk_iff _).mpr hip, heth⟩
      · rintro ⟨eth, ip, payload, hplain, -, -, hok, hkept⟩
        obtain ⟨heth, hrest⟩ := (Codec.put_append_inj _).mp (hplain.symm.trans hsplit)
        obtain ⟨hip, hpayload⟩ := (Codec.put_append_inj _).mp hrest
        rw [← hip, (Ipv4.checksumOk_iff ip).mp hok, hkept, ← hpayload, ← hplain]
  | udp hparsed =>
      refine iff_of_false (returned_of_udp hparsed hlossless) ?_
      obtain ⟨behind, hsplit⟩ := exists_between hparsed
      rintro ⟨eth, ip, payload, hplain, -, hproto, -, -⟩
      obtain ⟨-, hrest⟩ := (Codec.put_append_inj _).mp
        (hplain.symm.trans (hlossless.symm.trans hsplit))
      obtain ⟨hip, hpayload⟩ := (Codec.put_append_inj _).mp hrest
      rcases hproto with hproto | hshort
      · exact hproto (hip ▸ hparsed.protocol)
      · have hlength := congrArg List.length hpayload
        rw [List.length_append, Codec.length_put, Udp.width_codec] at hlength
        omega

end Shapes

/-- A packet long enough for an Ethernet header has one behind the parser. -/
theorem ethernet_valid_of_shape {packet : List Bool} {s : ParserState} (hshape : Shape packet s)
    (hpacket : 112 ≤ packet.length) : s.hdr.ethernet.valid = true := by
  cases hshape with
  | short hshort => omega
  | other _ _ hethernet | ipv4 _ _ _ hethernet => exact hethernet
  | udp hparsed => exact hparsed.ethernet

/-- **The round trip.**  Of the packets with an Ethernet header, exactly the IPv4 frames with no
UDP header whose header checksum is right come back as they were, and they only where
`inner_ethernet` keeps what was written to it; any other frame is changed. -/
theorem tunnel_iff (vtepIp : BitVec 32) (vni : BitVec 24) (fresh : Headers) (portIn : BitVec 9)
    (portOut : BitVec 9) (unspecified : Headers) (unspecified' : Headers) {frame : List Bool}
    (hframe : 112 ≤ frame.length) :
    tunnel vtepIp vni fresh portIn portOut unspecified unspecified' frame = frame ↔
      KeptIpv4 fresh frame := by
  have hshape := shape_of_parse portIn unspecified frame
  rw [tunnel_eq vtepIp vni fresh portOut unspecified' (ethernet_valid_of_shape hshape hframe)]
  exact returned_iff hshape (parse_lossless portIn unspecified frame) hframe

/-- The TCP packet with its checksum computed, and a payload of one byte. -/
def tcpFrame : List Bool :=
  Ethernet.codec.put tcpEthernet ++
    (Ipv4.codec.put tcpIpv4.withChecksum ++ List.replicate 8 true)

/-- `inner_ethernet` with what has been written to it. -/
def keptHeaders : Headers := { blankHeaders with innerEthernet := ⟨true, tcpEthernet⟩ }

theorem tunnel_tcpFrame :
    tunnel 0x0a0000fe 42 keptHeaders 2 3 blankHeaders blankHeaders tcpFrame = tcpFrame :=
  (tunnel_iff 0x0a0000fe 42 keptHeaders 2 3 blankHeaders blankHeaders (by simp [tcpFrame])).mpr
    ⟨tcpEthernet, tcpIpv4.withChecksum, List.replicate 8 true, rfl, rfl, .inl (by decide),
      Ipv4.checksumOk_withChecksum tcpIpv4, rfl⟩

/-- The Ethernet header of an ARP request. -/
def arpEthernet : Ethernet where
  dstAddr := 0xffffffffffff
  srcAddr := 0x020000000002
  etherType := 0x0806

/-- An ARP request, with no payload. -/
def arpFrame : List Bool := Ethernet.codec.put arpEthernet

/-- A frame which is not IPv4 comes back longer than it was, by an IPv4 header, also where
`inner_ethernet` keeps what was written to it. -/
theorem tunnel_arpFrame_longer :
    tunnel 0x0a0000fe 42 { blankHeaders with innerEthernet := ⟨true, arpEthernet⟩ } 2 3
      blankHeaders blankHeaders arpFrame ≠ arpFrame := by
  have hvalid := ethernet_valid_of_shape (shape_of_parse 2 blankHeaders arpFrame)
    (Ethernet.codec.length_put arpEthernet).ge
  intro h
  rw [tunnel_eq _ _ _ _ _ hvalid] at h
  have hlength := congrArg List.length h
  rw [length_returned, arpFrame, Codec.length_put, Ethernet.width_codec] at hlength
  omega

end FaultOracle.P4
