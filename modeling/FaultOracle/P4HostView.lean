import FaultOracle.P4Ingress

/-!
# The UDP header, for the parser and for a host

`MyParser` extracts the UDP header directly behind the fields of `ipv4_t`.  A host looks for it
behind the options, which `ihl` counts, and only in a fragment with offset zero; the port that
`acl_table` matches on is then one of option bytes or of the payload of a fragment.

`read_as_host_iff`: the two agree exactly on the packets without options that are no later
fragments and are long enough for a UDP header.
-/

namespace FaultOracle.P4

open BitCodecs

/-! ## What a host reads -/

/-- The UDP header that an IP host finds in a frame, and the bit at which it begins.  The IP
header takes `ihl` words, and what is behind the total length is padding; of a datagram cut
short behind its UDP header, that header is still what it reads. -/
def hostUdp (packet : List Bool) : Option (Nat × Udp) :=
  match Ethernet.codec.extract packet with
  | none => none
  | some (eth, datagram) =>
      match Ipv4.codec.extract datagram with
      | none => none
      | some (ip, _) =>
          if eth.etherType = ETHERTYPE_IPV4 ∧ ip.version = 4 ∧ 5 ≤ ip.ihl.toNat ∧
              ip.protocol = IP_PROTO_UDP ∧ ip.fragOffset = 0 then
            (Udp.codec.extract
              ((datagram.take (8 * ip.totalLen.toNat)).drop (32 * ip.ihl.toNat))).map
                fun found => (112 + 32 * ip.ihl.toNat, found.1)
          else none

/-- The bit at which the parser extracts the UDP header: it stands behind the headers that
have been extracted before it. -/
def udpOffset (hdr : Headers) : Nat :=
  (emit Ethernet.codec hdr.ethernet ++ emit Ipv4.codec hdr.ipv4).length

/-- The port that `acl_table` matches on is the one of the host, and is extracted where the
host reads it; only what a host takes for VXLAN is parsed as such. -/
def ReadAsHost (packet : List Bool) (s : ParserState) : Prop :=
  ∃ udp, hostUdp packet = some (udpOffset s.hdr, udp) ∧ (aclKey s.hdr).dstPort = udp.dstPort ∧
    (s.hdr.vxlan.valid = true → udp.dstPort = VXLAN_UDP_PORT)

/-- A header without options, of a packet which is no later fragment and has room for a UDP
header. -/
structure PlainHeader (ip : Ipv4) : Prop where
  version : ip.version = 4
  ihl : ip.ihl = 5
  fragOffset : ip.fragOffset = 0
  totalLen : 28 ≤ ip.totalLen.toNat

/-- A frame with an Ethernet and an IPv4 header. -/
def packetOf (eth : Ethernet) (ip : Ipv4) (rest : List Bool) : List Bool :=
  Ethernet.codec.put eth ++ (Ipv4.codec.put ip ++ rest)

/-! ## The two readings -/

section Views

variable {packet : List Bool} {s : ParserState} {eth : Ethernet} {ip : Ipv4}

/-- What a host finds in a frame whose headers are known. -/
theorem hostUdp_packetOf (rest : List Bool) (htype : eth.etherType = ETHERTYPE_IPV4)
    (hproto : ip.protocol = IP_PROTO_UDP) : hostUdp (packetOf eth ip rest) =
      if ip.version = 4 ∧ 5 ≤ ip.ihl.toNat ∧ ip.fragOffset = 0 then
        (Udp.codec.extract (((Ipv4.codec.put ip ++ rest).take (8 * ip.totalLen.toNat)).drop
          (32 * ip.ihl.toNat))).map fun found => (112 + 32 * ip.ihl.toNat, found.1)
      else none := by
  simp only [hostUdp, packetOf, Codec.extract_put_append, htype, hproto, true_and]

theorem udpOffset_of_parsed (h : UdpParsed s.hdr) : udpOffset s.hdr = 272 := by
  rw [udpOffset, emit, emit, if_pos h.ethernet, if_pos h.ipv4, List.length_append,
    Codec.length_put, Codec.length_put]
  rfl

/-- A UDP header in front of a text is still in front when the text is cut behind it. -/
theorem extract_take {n : Nat} {udp : Udp} {behind : List Bool} (hn : 64 ≤ n) :
    Udp.codec.extract ((Udp.codec.put udp ++ behind).take n) =
      some (udp, behind.take (n - 64)) := by
  have hlength : (Udp.codec.put udp).length = 64 := Udp.codec.length_put udp
  rw [List.take_append, hlength, List.take_of_length_le (by omega), Codec.extract_put_append]

/-- The two readings of a packet with a UDP header, put together again from its parts. -/
theorem readAsHost_bits_iff (hparsed : UdpParsed s.hdr) :
    ReadAsHost s.bits s ↔ ∃ eth ip rest, s.bits = packetOf eth ip rest ∧ PlainHeader ip := by
  obtain ⟨behind, hpacket⟩ := exists_between hparsed
  have hlength : (Ipv4.codec.put s.hdr.ipv4.fields).length = 160 := Ipv4.codec.length_put _
  rw [← packetOf] at hpacket
  have hhost := hostUdp_packetOf (Udp.codec.put s.hdr.udp.fields ++ (behind ++ s.packet))
    hparsed.etherType hparsed.protocol
  rw [← hpacket] at hhost
  constructor
  · intro hread
    obtain ⟨udp, hfound, _, _⟩ := hread
    refine ⟨_, _, _, hpacket, ?_⟩
    rw [hhost] at hfound
    split at hfound
    · rename_i hplain
      obtain ⟨hversion, _, hfrag⟩ := hplain
      obtain ⟨found, hextract, hsame⟩ := Option.map_eq_some_iff.mp hfound
      obtain ⟨hoffset, _⟩ := Prod.mk.inj hsame
      rw [udpOffset_of_parsed hparsed] at hoffset
      have hihl : s.hdr.ipv4.fields.ihl.toNat = 5 := by omega
      have hroom := congrArg List.length (Codec.extract_eq_some_iff.mp hextract)
      simp only [List.length_drop, List.length_take, List.length_append, Codec.length_put,
        Udp.width_codec, hihl] at hroom
      exact ⟨hversion, BitVec.eq_of_toNat_eq hihl, hfrag, by omega⟩
    · cases hfound
  · intro hplain
    obtain ⟨eth, ip, rest, hsplit, hplain⟩ := hplain
    have hip : ip = s.hdr.ipv4.fields := by
      rw [hpacket] at hsplit
      obtain ⟨_, hsplit⟩ := (Codec.put_append_inj _).mp hsplit
      exact ((Codec.put_append_inj _).mp hsplit).1.symm
    rw [hip] at hplain
    have hihl : s.hdr.ipv4.fields.ihl.toNat = 5 := by rw [hplain.ihl]; rfl
    have hlen := hplain.totalLen
    refine ⟨s.hdr.udp.fields, ?_, rfl, hparsed.vxlan⟩
    rw [hhost, if_pos ⟨hplain.version, hihl.ge, hplain.fragOffset⟩, udpOffset_of_parsed hparsed,
      hihl, List.take_append, hlength, List.take_of_length_le (by omega),
      List.drop_left' hlength, extract_take (by omega)]
    rfl

/-- **The parser reads a UDP header as a host does** exactly in the packets whose IP header has
no options, which are no later fragments, and which have room for a UDP header.  A packet which
ends behind the UDP header, in the middle of a VXLAN header say, is one of those meant. -/
theorem read_as_host_iff {ingressPort : BitVec 9} {unspecified : Headers}
    (hvalid : (parse ingressPort unspecified packet).hdr.udp.valid = true) :
    ReadAsHost packet (parse ingressPort unspecified packet) ↔
      ∃ eth ip rest, packet = packetOf eth ip rest ∧ PlainHeader ip := by
  have hiff := readAsHost_bits_iff (udpParsed_of_valid hvalid)
  rwa [parse_lossless] at hiff

end Views

/-! ## A port in the options -/

def udpIpv4 : Ipv4 := { tcpIpv4 with protocol := IP_PROTO_UDP, totalLen := 28 }

def sshUdp : Udp where
  srcPort := 40000
  dstPort := 22
  len := 8
  checksum := 0

def sshPacket : List Bool := packetOf tcpEthernet udpIpv4 (Udp.codec.put sshUdp)

theorem ssh_read_as_host : ReadAsHost sshPacket (parse 2 blankHeaders sshPacket) := by
  have hvalid : (parse 2 blankHeaders sshPacket).hdr.udp.valid = true := by decide +kernel
  exact (read_as_host_iff hvalid).mpr ⟨_, _, _, rfl, ⟨rfl, rfl, rfl, by decide⟩⟩

/-- The same with one word of options, which end in the number of another port. -/
def optionPacket : List Bool :=
  packetOf tcpEthernet { udpIpv4 with ihl := 6, totalLen := 32 }
    ((Codec.bits 32).put 0x01010050 ++ Udp.codec.put sshUdp)

/-- The port 80 of the options is matched in place of the port 22. -/
theorem option_port_matched : (parse 2 blankHeaders optionPacket).hdr.udp.valid = true ∧
    (aclKey (parse 2 blankHeaders optionPacket).hdr).dstPort = 80 ∧
      (hostUdp optionPacket).map (fun found => found.2.dstPort) = some 22 ∧
      ¬ ReadAsHost optionPacket (parse 2 blankHeaders optionPacket) := by
  have hhost : (hostUdp optionPacket).map (fun found => found.2.dstPort) = some 22 := by
    decide +kernel
  have hkey : (aclKey (parse 2 blankHeaders optionPacket).hdr).dstPort = 80 := by decide +kernel
  refine ⟨by decide +kernel, hkey, hhost, fun hread => ?_⟩
  obtain ⟨udp, hfound, hport, _⟩ := hread
  rw [hfound] at hhost
  have hssh : udp.dstPort = 22 := Option.some.inj hhost
  rw [hkey, hssh] at hport
  exact absurd hport (by decide)

end FaultOracle.P4
