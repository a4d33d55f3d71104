import FaultOracle.BitCodecs

/-!
# Headers, parser and deparser of the packet pipeline

`p4-simple-forward.p4` is a v1model program: a parser takes headers from the front of a
packet, controls change headers and metadata, checksums are updated, and a deparser
writes the valid headers in front of what the parser left of the packet.

A packet is the sequence of its bits, the most significant bit of each byte first.  A
header has fields also while it is not valid, but what they hold is not specified: neither
when the parser starts, nor when `setValid` makes the header valid, whatever was written to
it before.  Both contents are parameters.

A packet too short for a header is a parser error.  The pipeline goes on with what has been
extracted, and the rest of the packet, the incomplete header too, is payload.
-/

namespace FaultOracle.P4

open BitCodecs

def ETHERTYPE_IPV4 : BitVec 16 := 0x0800

def IP_PROTO_UDP : BitVec 8 := 17

def VXLAN_UDP_PORT : BitVec 16 := 4789

def VXLAN_FLAGS : BitVec 8 := 0x08

/-- `ethernet_t`. -/
structure Ethernet where
  dstAddr : BitVec 48
  srcAddr : BitVec 48
  etherType : BitVec 16
deriving DecidableEq, Repr

/-- `ipv4_t`. -/
structure Ipv4 where
  version : BitVec 4
  ihl : BitVec 4
  diffserv : BitVec 8
  totalLen : BitVec 16
  identification : BitVec 16
  flags : BitVec 3
  fragOffset : BitVec 13
  ttl : BitVec 8
  protocol : BitVec 8
  hdrChecksum : BitVec 16
  srcAddr : BitVec 32
  dstAddr : BitVec 32
deriving DecidableEq, Repr

/-- `udp_t`. -/
structure Udp where
  srcPort : BitVec 16
  dstPort : BitVec 16
  len : BitVec 16
  checksum : BitVec 16
deriving DecidableEq, Repr

/-- `vxlan_t`. -/
structure Vxlan where
  flags : BitVec 8
  reserved : BitVec 24
  vni : BitVec 24
  reserved2 : BitVec 8
deriving DecidableEq, Repr

def Ethernet.codec : Codec Ethernet :=
  ((Codec.bits 48).pair ((Codec.bits 48).pair (Codec.bits 16))).map
    { toFun := fun ⟨dstAddr, srcAddr, etherType⟩ => ⟨dstAddr, srcAddr, etherType⟩
      invFun := fun h => (h.dstAddr, h.srcAddr, h.etherType)
      left_inv := fun _ => rfl
      right_inv := fun _ => rfl }

def Ipv4.codec : Codec Ipv4 :=
  ((Codec.bits 4).pair ((Codec.bits 4).pair ((Codec.bits 8).pair ((Codec.bits 16).pair
    ((Codec.bits 16).pair ((Codec.bits 3).pair ((Codec.bits 13).pair ((Codec.bits 8).pair
      ((Codec.bits 8).pair ((Codec.bits 16).pair ((Codec.bits 32).pair
        (Codec.bits 32)))))))))))).map
    { toFun := fun ⟨version, ihl, diffserv, totalLen, identification, flags, fragOffset, ttl,
          protocol, hdrChecksum, srcAddr, dstAddr⟩ =>
        ⟨version, ihl, diffserv, totalLen, identification, flags, fragOffset, ttl, protocol,
          hdrChecksum, srcAddr, dstAddr⟩
      invFun := fun h => (h.version, h.ihl, h.diffserv, h.totalLen, h.identification, h.flags,
        h.fragOffset, h.ttl, h.protocol, h.hdrChecksum, h.srcAddr, h.dstAddr)
      left_inv := fun _ => rfl
      right_inv := fun _ => rfl }

def Udp.codec : Codec Udp :=
  ((Codec.bits 16).pair ((Codec.bits 16).pair ((Codec.bits 16).pair (Codec.bits 16)))).map
    { toFun := fun ⟨srcPort, dstPort, len, checksum⟩ => ⟨srcPort, dstPort, len, checksum⟩
      invFun := fun h => (h.srcPort, h.dstPort, h.len, h.checksum)
      left_inv := fun _ => rfl
      right_inv := fun _ => rfl }

def Vxlan.codec : Codec Vxlan :=
  ((Codec.bits 8).pair ((Codec.bits 24).pair ((Codec.bits 24).pair (Codec.bits 8)))).map
    { toFun := fun ⟨flags, reserved, vni, reserved2⟩ => ⟨flags, reserved, vni, reserved2⟩
      invFun := fun h => (h.flags, h.reserved, h.vni, h.reserved2)
      left_inv := fun _ => rfl
      right_inv := fun _ => rfl }

/-- An Ethernet header has 112 bits. -/
@[simp] theorem Ethernet.width_codec : Ethernet.codec.width = 112 := rfl

/-- An IPv4 header has 160 bits. -/
@[simp] theorem Ipv4.width_codec : Ipv4.codec.width = 160 := rfl

/-- A UDP header has 64 bits. -/
@[simp] theorem Udp.width_codec : Udp.codec.width = 64 := rfl

/-- A VXLAN header has 64 bits. -/
@[simp] theorem Vxlan.width_codec : Vxlan.codec.width = 64 := rfl

/-- A header instance. -/
structure Header (α : Type) where
  valid : Bool
  fields : α
deriving DecidableEq, Repr

/-- `setValid`: a header which was not valid has unspecified fields then. -/
def Header.setValid {α : Type} (fresh : α) (h : Header α) : Header α :=
  if h.valid then h else ⟨true, fresh⟩

def Header.setInvalid {α : Type} (h : Header α) : Header α := { h with valid := false }

/-- The struct `headers`. -/
structure Headers where
  ethernet : Header Ethernet
  ipv4 : Header Ipv4
  udp : Header Udp
  vxlan : Header Vxlan
  innerEthernet : Header Ethernet
  innerIpv4 : Header Ipv4
deriving DecidableEq, Repr

/-- The headers a parser starts from: the same contents, and none valid. -/
def Headers.invalid (hdr : Headers) : Headers where
  ethernet := hdr.ethernet.setInvalid
  ipv4 := hdr.ipv4.setInvalid
  udp := hdr.udp.setInvalid
  vxlan := hdr.vxlan.setInvalid
  innerEthernet := hdr.innerEthernet.setInvalid
  innerIpv4 := hdr.innerIpv4.setInvalid

/-- `custom_metadata_t`. -/
structure CustomMetadata where
  ingressPort : BitVec 9
  egressPort : BitVec 9
  isVxlanDecapped : BitVec 1
  tenantId : BitVec 24
deriving DecidableEq, Repr

/-- The fields of `standard_metadata_t` that the program reads or sets. -/
structure StandardMetadata where
  ingressPort : BitVec 9
  egressSpec : BitVec 9
  checksumError : BitVec 1
deriving DecidableEq, Repr

/-! ## The parser -/

/-- What the parser has of a packet: the bits still to come, what it has filled in, and
whether it has found the packet too short (`parser_error`). -/
structure ParserState where
  packet : List Bool
  hdr : Headers
  custom : CustomMetadata
  parserError : Bool
deriving DecidableEq, Repr

/-- The parser stops where the packet is too short for the header it extracts. -/
def reject (s : ParserState) : ParserState := { s with parserError := true }

def parseInnerIpv4 (s : ParserState) : ParserState :=
  match Ipv4.codec.extract s.packet with
  | none => reject s
  | some (fields, packet) =>
      { s with packet := packet, hdr := { s.hdr with innerIpv4 := ⟨true, fields⟩ } }

def parseInnerEthernet (s : ParserState) : ParserState :=
  match Ethernet.codec.extract s.packet with
  | none => reject s
  | some (fields, packet) =>
      let s :=
        { s with packet := packet, hdr := { s.hdr with innerEthernet := ⟨true, fields⟩ } }
      if fields.etherType = ETHERTYPE_IPV4 then parseInnerIpv4 s else s

def parseVxlan (s : ParserState) : ParserState :=
  match Vxlan.codec.extract s.packet with
  | none => reject s
  | some (fields, packet) =>
      parseInnerEthernet
        { s with
          packet := packet
          hdr := { s.hdr with vxlan := ⟨true, fields⟩ }
          custom := { s.custom with tenantId := fields.vni } }

def parseUdp (s : ParserState) : ParserState :=
  match Udp.codec.extract s.packet with
  | none => reject s
  | some (fields, packet) =>
      let s := { s with packet := packet, hdr := { s.hdr with udp := ⟨true, fields⟩ } }
      if fields.dstPort = VXLAN_UDP_PORT then parseVxlan s else s

def parseIpv4 (s : ParserState) : ParserState :=
  match Ipv4.codec.extract s.packet with
  | none => reject s
  | some (fields, packet) =>
      let s := { s with packet := packet, hdr := { s.hdr with ipv4 := ⟨true, fields⟩ } }
      if fields.protocol = IP_PROTO_UDP then parseUdp s else s

def parseEthernet (s : ParserState) : ParserState :=
  match Ethernet.codec.extract s.packet with
  | none => reject s
  | some (fields, packet) =>
      let s := { s with packet := packet, hdr := { s.hdr with ethernet := ⟨true, fields⟩ } }
      if fields.etherType = ETHERTYPE_IPV4 then parseIpv4 s else s

/-- `MyParser` on a packet that came in on a port. -/
def parse (ingressPort : BitVec 9) (unspecified : Headers) (packet : List Bool) : ParserState :=
  parseEthernet
    { packet := packet
      hdr := unspecified.invalid
      custom :=
        { ingressPort := ingressPort, egressPort := 0, isVxlanDecapped := 0, tenantId := 0 }
      parserError := false }

/-! ## Checksums and the deparser -/

/-- Addition of 16-bit words with the carry added in again. -/
def addWords (a b : Nat) : Nat := if a + b < 65536 then a + b else a + b - 65535

/-- `HashAlgorithm.csum16` of a whole number of 16-bit words. -/
def csum16 (data : List Bool) : BitVec 16 :=
  ~~~BitVec.ofNat 16 (((List.range (data.length / 16)).map
    (fun i => natOfBits ((data.drop (16 * i)).take 16))).foldl addWords 0)

/-- The fields of an IPv4 header that its checksum covers, in the program's order. -/
def Ipv4.checksumData (h : Ipv4) : List Bool :=
  (Codec.bits 4).put h.version ++ (Codec.bits 4).put h.ihl ++ (Codec.bits 8).put h.diffserv ++
    (Codec.bits 16).put h.totalLen ++ (Codec.bits 16).put h.identification ++
    (Codec.bits 3).put h.flags ++ (Codec.bits 13).put h.fragOffset ++ (Codec.bits 8).put h.ttl ++
    (Codec.bits 8).put h.protocol ++ (Codec.bits 32).put h.srcAddr ++
    (Codec.bits 32).put h.dstAddr

/-- The header with its checksum computed. -/
def Ipv4.withChecksum (h : Ipv4) : Ipv4 := { h with hdrChecksum := csum16 h.checksumData }

/-- `verify_checksum` finds the checksum of the header right. -/
def Ipv4.ChecksumOk (h : Ipv4) : Prop := h.hdrChecksum = csum16 h.checksumData

instance (h : Ipv4) : Decidable h.ChecksumOk := inferInstanceAs (Decidable (_ = _))

/-- The checksum is right exactly when computing it changes nothing. -/
theorem Ipv4.checksumOk_iff (h : Ipv4) : h.ChecksumOk ↔ h.withChecksum = h := by
  constructor
  · intro hok
    rw [withChecksum, ← show h.hdrChecksum = _ from hok]
  · intro hsame
    exact (congrArg Ipv4.hdrChecksum hsame).symm

/-- A checksum does not cover itself, so computing it again changes nothing. -/
@[simp] theorem Ipv4.withChecksum_withChecksum (h : Ipv4) :
    h.withChecksum.withChecksum = h.withChecksum := rfl

/-- A computed checksum is right. -/
theorem Ipv4.checksumOk_withChecksum (h : Ipv4) : h.withChecksum.ChecksumOk := rfl

/-- `MyVerifyChecksum`. -/
def verifyChecksum (hdr : Headers) (std : StandardMetadata) : StandardMetadata :=
  if hdr.ipv4.valid = true ∧ ¬ hdr.ipv4.fields.ChecksumOk then { std with checksumError := 1 }
  else std

/-- `update_checksum` on an IPv4 header. -/
def updateChecksum (h : Header Ipv4) : Header Ipv4 :=
  if h.valid then { h with fields := h.fields.withChecksum } else h

/-- `MyComputeChecksum`. -/
def computeChecksum (hdr : Headers) : Headers :=
  { hdr with
    ipv4 := updateChecksum hdr.ipv4
    innerIpv4 := updateChecksum hdr.innerIpv4 }

/-- `packet.emit`. -/
def emit {α : Type} (c : Codec α) (h : Header α) : List Bool :=
  if h.valid then c.put h.fields else []

/-- `MyDeparser`. -/
def deparse (hdr : Headers) : List Bool :=
  emit Ethernet.codec hdr.ethernet ++ emit Ipv4.codec hdr.ipv4 ++ emit Udp.codec hdr.udp ++
    emit Vxlan.codec hdr.vxlan ++ emit Ethernet.codec hdr.innerEthernet ++
    emit Ipv4.codec hdr.innerIpv4

/-! ## The parser loses no bit -/

/-- The packet put together again: the headers as the deparser writes them, and the rest. -/
def ParserState.bits (s : ParserState) : List Bool := deparse s.hdr ++ s.packet

section Parser

variable {s : ParserState}

/-- Reading the inner IPv4 header loses no bit. -/
theorem parseInnerIpv4_lossless (hfresh : s.hdr.innerIpv4.valid = false) :
    (parseInnerIpv4 s).bits = s.bits := by
  unfold parseInnerIpv4
  split
  · rfl
  · rename_i fields packet hextract
    simp [ParserState.bits, deparse, emit, hfresh, Codec.extract_eq_some_iff.mp hextract]

/-- Reading on from the inner Ethernet header loses no bit. -/
theorem parseInnerEthernet_lossless (hfresh : s.hdr.innerEthernet.valid = false)
    (hfresh' : s.hdr.innerIpv4.valid = false) : (parseInnerEthernet s).bits = s.bits := by
  unfold parseInnerEthernet
  split
  · rfl
  · rename_i fields packet hextract
    have hstep : ∀ s' : ParserState, s'.packet = packet →
        s'.hdr = { s.hdr with innerEthernet := ⟨true, fields⟩ } → s'.bits = s.bits := by
      intro s' hpacket hhdr
      simp [ParserState.bits, hpacket, hhdr, deparse, emit, hfresh, hfresh',
        Codec.extract_eq_some_iff.mp hextract]
    simp only
    split
    · rw [parseInnerIpv4_lossless]
      · exact hstep _ rfl rfl
      · exact hfresh'
    · exact hstep _ rfl rfl

/-- The headers behind UDP are not valid. -/
structure FreshTunnel (hdr : Headers) : Prop where
  vxlan : hdr.vxlan.valid = false
  innerEthernet : hdr.innerEthernet.valid = false
  innerIpv4 : hdr.innerIpv4.valid = false

/-- Reading on from the VXLAN header loses no bit. -/
theorem parseVxlan_lossless (htunnel : FreshTunnel s.hdr) : (parseVxlan s).bits = s.bits := by
  unfold parseVxlan
  split
  · rfl
  · rename_i fields packet hextract
    rw [parseInnerEthernet_lossless]
    · simp [ParserState.bits, deparse, emit, htunnel.vxlan, htunnel.innerEthernet,
        htunnel.innerIpv4, Codec.extract_eq_some_iff.mp hextract]
    · exact htunnel.innerEthernet
    · exact htunnel.innerIpv4

/-- Reading on from the UDP header loses no bit. -/
theorem parseUdp_lossless (hfresh : s.hdr.udp.valid = false) (htunnel : FreshTunnel s.hdr) :
    (parseUdp s).bits = s.bits := by
  unfold parseUdp
  split
  · rfl
  · rename_i fields packet hextract
    have hstep : ∀ s' : ParserState, s'.packet = packet →
        s'.hdr = { s.hdr with udp := ⟨true, fields⟩ } → s'.bits = s.bits := by
      intro s' hpacket hhdr
      simp [ParserState.bits, hpacket, hhdr, deparse, emit, hfresh, htunnel.vxlan,
        htunnel.innerEthernet, htunnel.innerIpv4, Codec.extract_eq_some_iff.mp hextract]
    simp only
    split
    · rw [parseVxlan_lossless]
      · exact hstep _ rfl rfl
      · exact ⟨htunnel.vxlan, htunnel.innerEthernet, htunnel.innerIpv4⟩
    · exact hstep _ rfl rfl

/-- Reading on from the IPv4 header loses no bit. -/
theorem parseIpv4_lossless (hfresh : s.hdr.ipv4.valid = false) (hudp : s.hdr.udp.valid = false)
    (htunnel : FreshTunnel s.hdr) : (parseIpv4 s).bits = s.bits := by
  unfold parseIpv4
  split
  · rfl
  · rename_i fields packet hextract
    have hstep : ∀ s' : ParserState, s'.packet = packet →
        s'.hdr = { s.hdr with ipv4 := ⟨true, fields⟩ } → s'.bits = s.bits := by
      intro s' hpacket hhdr
      simp [ParserState.bits, hpacket, hhdr, deparse, emit, hfresh, hudp, htunnel.vxlan,
        htunnel.innerEthernet, htunnel.innerIpv4, Codec.extract_eq_some_iff.mp hextract]
    simp only
    split
    · rw [parseUdp_lossless]
      · exact hstep _ rfl rfl
      · exact hudp
      · exact ⟨htunnel.vxlan, htunnel.innerEthernet, htunnel.innerIpv4⟩
    · exact hstep _ rfl rfl

/-- **A packet is its headers as the deparser writes them**, and what the parser has left,
also where it has stopped at a header for which the packet is too short. -/
theorem parse_lossless (ingressPort : BitVec 9) (unspecified : Headers) (packet : List Bool) :
    (parse ingressPort unspecified packet).bits = packet := by
  unfold parse parseEthernet
  split
  · rfl
  · rename_i fields rest hextract
    have hstep : ∀ s' : ParserState, s'.packet = rest →
        s'.hdr = { unspecified.invalid with ethernet := ⟨true, fields⟩ } → s'.bits = packet := by
      intro s' hrest hhdr
      have hpacket : packet = Ethernet.codec.put fields ++ rest :=
        Codec.extract_eq_some_iff.mp hextract
      simp [ParserState.bits, hrest, hhdr, hpacket, deparse, emit, Headers.invalid,
        Header.setInvalid]
    simp only
    split
    · rw [parseIpv4_lossless]
      · exact hstep _ rfl rfl
      · rfl
      · rfl
      · exact ⟨rfl, rfl, rfl⟩
    · exact hstep _ rfl rfl

/-! ## What is valid behind the parser -/

/-- Reading the inner headers leaves the outer ones. -/
theorem parseInnerEthernet_outer (s : ParserState) :
    (parseInnerEthernet s).hdr.ethernet = s.hdr.ethernet ∧
      (parseInnerEthernet s).hdr.ipv4 = s.hdr.ipv4 ∧
      (parseInnerEthernet s).hdr.udp = s.hdr.udp ∧
      (parseInnerEthernet s).hdr.vxlan = s.hdr.vxlan := by
  unfold parseInnerEthernet
  split
  · exact ⟨rfl, rfl, rfl, rfl⟩
  · simp only
    split
    · unfold parseInnerIpv4
      split
      · exact ⟨rfl, rfl, rfl, rfl⟩
      · exact ⟨rfl, rfl, rfl, rfl⟩
    · exact ⟨rfl, rfl, rfl, rfl⟩

/-- Reading the VXLAN header leaves the headers before it. -/
theorem parseVxlan_outer (s : ParserState) :
    (parseVxlan s).hdr.ethernet = s.hdr.ethernet ∧ (parseVxlan s).hdr.ipv4 = s.hdr.ipv4 ∧
      (parseVxlan s).hdr.udp = s.hdr.udp := by
  unfold parseVxlan
  split
  · exact ⟨rfl, rfl, rfl⟩
  · obtain ⟨heth, hip, hudp, _⟩ := parseInnerEthernet_outer _
    exact ⟨heth, hip, hudp⟩

/-- The parser enters `parse_vxlan` for the port of VXLAN only; in front of a packet too short
for UDP it stops. -/
theorem parseUdp_outer (s : ParserState) :
    (parseUdp s = reject s ∧ s.packet.length < 64) ∨
      (parseUdp s).hdr.ethernet = s.hdr.ethernet ∧ (parseUdp s).hdr.ipv4 = s.hdr.ipv4 ∧
        (parseUdp s).hdr.udp.valid = true ∧
        ((parseUdp s).hdr.vxlan = s.hdr.vxlan ∨
          (parseUdp s).hdr.udp.fields.dstPort = VXLAN_UDP_PORT) := by
  unfold parseUdp
  split
  · rename_i hshort
    exact .inl ⟨rfl, Codec.extract_eq_none_iff.mp hshort⟩
  · rename_i fields packet _
    simp only
    split
    · rename_i hport
      obtain ⟨heth, hip, hudp⟩ := parseVxlan_outer
        { s with packet := packet, hdr := { s.hdr with udp := ⟨true, fields⟩ } }
      exact .inr ⟨heth, hip, by rw [hudp], .inr (by rw [hudp]; exact hport)⟩
    · exact .inr ⟨rfl, rfl, rfl, .inl rfl⟩

/-- A packet with a valid UDP header is one of IPv4 and UDP. -/
structure UdpParsed (hdr : Headers) : Prop where
  ethernet : hdr.ethernet.valid = true
  etherType : hdr.ethernet.fields.etherType = ETHERTYPE_IPV4
  ipv4 : hdr.ipv4.valid = true
  protocol : hdr.ipv4.fields.protocol = IP_PROTO_UDP
  udp : hdr.udp.valid = true
  vxlan : hdr.vxlan.valid = true → hdr.udp.fields.dstPort = VXLAN_UDP_PORT

/-- How far the parser comes in a packet. -/
inductive Shape (packet : List Bool) (s : ParserState) : Prop
  | short (hshort : packet.length < 112) (hipv4 : s.hdr.ipv4.valid = false)
      (hudp : s.hdr.udp.valid = false)
  | other (hpacket : packet = Ethernet.codec.put s.hdr.ethernet.fields ++ s.packet)
      (htype : s.hdr.ethernet.fields.etherType ≠ ETHERTYPE_IPV4 ∨ s.packet.length < 160)
      (hethernet : s.hdr.ethernet.valid = true) (hipv4 : s.hdr.ipv4.valid = false)
      (hudp : s.hdr.udp.valid = false)
  | ipv4 (hpacket : packet = Ethernet.codec.put s.hdr.ethernet.fields ++
        (Ipv4.codec.put s.hdr.ipv4.fields ++ s.packet))
      (htype : s.hdr.ethernet.fields.etherType = ETHERTYPE_IPV4)
      (hproto : s.hdr.ipv4.fields.protocol ≠ IP_PROTO_UDP ∨ s.packet.length < 64)
      (hethernet : s.hdr.ethernet.valid = true) (hipv4 : s.hdr.ipv4.valid = true)
      (hudp : s.hdr.udp.valid = false) (hinner : s.hdr.innerEthernet.valid = false)
  | udp (hparsed : UdpParsed s.hdr)

/-- **The parser**, on any packet. -/
theorem shape_of_parse (ingressPort : BitVec 9) (unspecified : Headers) (packet : List Bool) :
    Shape packet (parse ingressPort unspecified packet) := by
  unfold parse parseEthernet
  split
  · rename_i hshort
    exact .short (Codec.extract_eq_none_iff.mp hshort) rfl rfl
  · rename_i eth rest hextract
    have hpacket := Codec.extract_eq_some_iff.mp hextract
    simp only at hpacket ⊢
    split
    · rename_i htype
      unfold parseIpv4
      split
      · rename_i hshort
        exact .other hpacket (.inr (Codec.extract_eq_none_iff.mp hshort)) rfl rfl rfl
      · rename_i ip rest' hextract'
        have hrest := Codec.extract_eq_some_iff.mp hextract'
        simp only at hrest ⊢
        have hpacket' : packet = Ethernet.codec.put eth ++ (Ipv4.codec.put ip ++ rest') := by
          rw [hpacket, hrest]
        split
        · rename_i hproto
          rcases parseUdp_outer _ with ⟨hstop, hshort⟩ | ⟨heth, hip, hvalid, hport⟩
          · rw [hstop]
            exact .ipv4 hpacket' htype (.inr hshort) rfl rfl rfl rfl
          · refine .udp ⟨by rw [heth], by rw [heth]; exact htype, by rw [hip],
              by rw [hip]; exact hproto, hvalid, fun hvxlan => hport.resolve_left fun hsame => ?_⟩
            rw [hsame] at hvxlan
            cases hvxlan
        · rename_i hproto
          exact .ipv4 hpacket' htype (.inl hproto) rfl rfl rfl rfl
    · rename_i htype
      exact .other hpacket (.inl htype) rfl rfl rfl

/-- A valid UDP header was read from the packet. -/
theorem udpParsed_of_valid {ingressPort : BitVec 9} {unspecified : Headers} {packet : List Bool}
    (hvalid : (parse ingressPort unspecified packet).hdr.udp.valid = true) :
    UdpParsed (parse ingressPort unspecified packet).hdr := by
  cases shape_of_parse ingressPort unspecified packet with
  | short _ _ hudp | other _ _ _ _ hudp | ipv4 _ _ _ _ _ hudp =>
      rw [hudp] at hvalid
      cases hvalid
  | udp hparsed => exact hparsed

/-- Where the headers stand in a packet with a valid UDP header. -/
theorem exists_between (h : UdpParsed s.hdr) :
    ∃ behind, s.bits = Ethernet.codec.put s.hdr.ethernet.fields ++
      (Ipv4.codec.put s.hdr.ipv4.fields ++
        (Udp.codec.put s.hdr.udp.fields ++ (behind ++ s.packet))) := by
  have heth : emit Ethernet.codec s.hdr.ethernet = Ethernet.codec.put s.hdr.ethernet.fields :=
    if_pos h.ethernet
  have hip : emit Ipv4.codec s.hdr.ipv4 = Ipv4.codec.put s.hdr.ipv4.fields := if_pos h.ipv4
  have hudp : emit Udp.codec s.hdr.udp = Udp.codec.put s.hdr.udp.fields := if_pos h.udp
  refine ⟨emit Vxlan.codec s.hdr.vxlan ++ (emit Ethernet.codec s.hdr.innerEthernet ++
    emit Ipv4.codec s.hdr.innerIpv4), ?_⟩
  rw [ParserState.bits, deparse, heth, hip, hudp]
  simp only [List.append_assoc]

/-- A valid IPv4 header stands behind the Ethernet header, which announces it. -/
theorem exists_of_ipv4_valid {ingressPort : BitVec 9} {unspecified : Headers}
    {packet : List Bool} (hvalid : (parse ingressPort unspecified packet).hdr.ipv4.valid = true) :
    ∃ eth rest, eth.etherType = ETHERTYPE_IPV4 ∧ packet = Ethernet.codec.put eth ++
      (Ipv4.codec.put (parse ingressPort unspecified packet).hdr.ipv4.fields ++ rest) := by
  have hshape := shape_of_parse ingressPort unspecified packet
  have hlossless := parse_lossless ingressPort unspecified packet
  generalize parse ingressPort unspecified packet = s at *
  cases hshape with
  | short _ hipv4 | other _ _ _ hipv4 =>
      rw [hipv4] at hvalid
      cases hvalid
  | ipv4 hpacket htype => exact ⟨_, _, htype, hpacket⟩
  | udp hparsed =>
      obtain ⟨behind, hbits⟩ := exists_between hparsed
      exact ⟨_, _, hparsed.etherType, hlossless.symm.trans hbits⟩

end Parser

end FaultOracle.P4
