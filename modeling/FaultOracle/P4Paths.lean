import FaultOracle.P4RoundTrip

/-!
# Paths of switches

A packet goes from switch to switch, each with tables of its own.  A switch sends on what
`MyIngress` has made of the packet: the packet with its checksums computed, or, behind
`vxlan_decap`, the inner frame.

The checksum of an arriving packet is verified, but nothing reads the answer, and on the way
out it is computed anew: only the first switch of a path can see that a header was damaged
(`travel_changes`).  Nothing counts hops either.  A packet which comes back unshortened to
where it was goes round for ever (`goes_round`).
-/

namespace FaultOracle.P4

open BitCodecs

/-! ## Frames as the parser divides them -/

/-- A frame, divided into the headers which the parser finds and the payload behind them. -/
inductive Frame
  | other (eth : Ethernet) (payload : List Bool) (htype : eth.etherType ≠ ETHERTYPE_IPV4)
  | plainIpv4 (eth : Ethernet) (ip : Ipv4) (payload : List Bool)
      (htype : eth.etherType = ETHERTYPE_IPV4) (hproto : ip.protocol ≠ IP_PROTO_UDP)
  | plainUdp (eth : Ethernet) (ip : Ipv4) (udp : Udp) (payload : List Bool)
      (htype : eth.etherType = ETHERTYPE_IPV4) (hproto : ip.protocol = IP_PROTO_UDP)
      (hport : udp.dstPort ≠ VXLAN_UDP_PORT)
  | tunnelled (eth : Ethernet) (ip : Ipv4) (udp : Udp) (vxlan : Vxlan) (inner : Ethernet)
      (payload : List Bool) (htype : eth.etherType = ETHERTYPE_IPV4)
      (hproto : ip.protocol = IP_PROTO_UDP) (hport : udp.dstPort = VXLAN_UDP_PORT)
      (hinner : inner.etherType ≠ ETHERTYPE_IPV4)
  | tunnelledIpv4 (eth : Ethernet) (ip : Ipv4) (udp : Udp) (vxlan : Vxlan) (inner : Ethernet)
      (innerIp : Ipv4) (payload : List Bool) (htype : eth.etherType = ETHERTYPE_IPV4)
      (hproto : ip.protocol = IP_PROTO_UDP) (hport : udp.dstPort = VXLAN_UDP_PORT)
      (hinner : inner.etherType = ETHERTYPE_IPV4)

namespace Frame

def bits : Frame → List Bool
  | other eth payload _ => Ethernet.codec.put eth ++ payload
  | plainIpv4 eth ip payload _ _ => Ethernet.codec.put eth ++ (Ipv4.codec.put ip ++ payload)
  | plainUdp eth ip udp payload _ _ _ =>
      Ethernet.codec.put eth ++ (Ipv4.codec.put ip ++ (Udp.codec.put udp ++ payload))
  | tunnelled eth ip udp vxlan inner payload _ _ _ _ =>
      Ethernet.codec.put eth ++ (Ipv4.codec.put ip ++ (Udp.codec.put udp ++
        (Vxlan.codec.put vxlan ++ (Ethernet.codec.put inner ++ payload))))
  | tunnelledIpv4 eth ip udp vxlan inner innerIp payload _ _ _ _ =>
      Ethernet.codec.put eth ++ (Ipv4.codec.put ip ++ (Udp.codec.put udp ++
        (Vxlan.codec.put vxlan ++ (Ethernet.codec.put inner ++
          (Ipv4.codec.put innerIp ++ payload)))))

def payload : Frame → List Bool
  | other _ payload _ => payload
  | plainIpv4 _ _ payload _ _ => payload
  | plainUdp _ _ _ payload _ _ _ => payload
  | tunnelled _ _ _ _ _ payload _ _ _ _ => payload
  | tunnelledIpv4 _ _ _ _ _ _ payload _ _ _ _ => payload

/-- The headers which the parser fills in. -/
def headers (unspecified : Headers) : Frame → Headers
  | other eth _ _ => { unspecified.invalid with ethernet := ⟨true, eth⟩ }
  | plainIpv4 eth ip _ _ _ =>
      { unspecified.invalid with ethernet := ⟨true, eth⟩, ipv4 := ⟨true, ip⟩ }
  | plainUdp eth ip udp _ _ _ _ =>
      { unspecified.invalid with
        ethernet := ⟨true, eth⟩, ipv4 := ⟨true, ip⟩, udp := ⟨true, udp⟩ }
  | tunnelled eth ip udp vxlan inner _ _ _ _ _ =>
      { unspecified.invalid with
        ethernet := ⟨true, eth⟩, ipv4 := ⟨true, ip⟩, udp := ⟨true, udp⟩
        vxlan := ⟨true, vxlan⟩, innerEthernet := ⟨true, inner⟩ }
  | tunnelledIpv4 eth ip udp vxlan inner innerIp _ _ _ _ _ =>
      { ethernet := ⟨true, eth⟩, ipv4 := ⟨true, ip⟩, udp := ⟨true, udp⟩
        vxlan := ⟨true, vxlan⟩, innerEthernet := ⟨true, inner⟩, innerIpv4 := ⟨true, innerIp⟩ }

/-- The network identifier of a tunnelled frame. -/
def vni? : Frame → Option (BitVec 24)
  | other .. | plainIpv4 .. | plainUdp .. => none
  | tunnelled _ _ _ vxlan _ _ _ _ _ _ => some vxlan.vni
  | tunnelledIpv4 _ _ _ vxlan _ _ _ _ _ _ _ => some vxlan.vni

/-- The frame with its checksums computed. -/
def withChecksums : Frame → Frame
  | other eth payload htype => other eth payload htype
  | plainIpv4 eth ip payload htype hproto => plainIpv4 eth ip.withChecksum payload htype hproto
  | plainUdp eth ip udp payload htype hproto hport =>
      plainUdp eth ip.withChecksum udp payload htype hproto hport
  | tunnelled eth ip udp vxlan inner payload htype hproto hport hinner =>
      tunnelled eth ip.withChecksum udp vxlan inner payload htype hproto hport hinner
  | tunnelledIpv4 eth ip udp vxlan inner innerIp payload htype hproto hport hinner =>
      tunnelledIpv4 eth ip.withChecksum udp vxlan inner innerIp.withChecksum payload htype hproto
        hport hinner

/-- What `vxlan_decap` leaves of a tunnelled frame. -/
def decapped : Frame → List Bool
  | tunnelled _ _ _ _ inner payload _ _ _ _ => Ethernet.codec.put inner ++ payload
  | tunnelledIpv4 _ _ _ _ inner innerIp payload _ _ _ _ =>
      Ethernet.codec.put inner ++ (Ipv4.codec.put innerIp.withChecksum ++ payload)
  | frame => frame.bits

/-- The IPv4 header in front. -/
def ip? : Frame → Option Ipv4
  | other .. => none
  | plainIpv4 _ ip _ _ _ => some ip
  | plainUdp _ ip _ _ _ _ _ => some ip
  | tunnelled _ ip _ _ _ _ _ _ _ _ => some ip
  | tunnelledIpv4 _ ip _ _ _ _ _ _ _ _ _ => some ip

/-- The destination by which `l2_forward` sends the frame on. -/
def dstAddr : Frame → BitVec 48
  | other eth _ _ => eth.dstAddr
  | plainIpv4 eth _ _ _ _ => eth.dstAddr
  | plainUdp eth _ _ _ _ _ _ => eth.dstAddr
  | tunnelled eth _ _ _ _ _ _ _ _ _ => eth.dstAddr
  | tunnelledIpv4 eth _ _ _ _ _ _ _ _ _ _ => eth.dstAddr

/-- The destination of what `vxlan_decap` leaves. -/
def innerDstAddr : Frame → BitVec 48
  | tunnelled _ _ _ _ inner _ _ _ _ _ => inner.dstAddr
  | tunnelledIpv4 _ _ _ _ inner _ _ _ _ _ _ => inner.dstAddr
  | frame => frame.dstAddr

/-- The parser takes a frame apart as it is divided. -/
theorem parse_bits (ingressPort : BitVec 9) (unspecified : Headers) (frame : Frame) :
    parse ingressPort unspecified frame.bits =
      { packet := frame.payload
        hdr := frame.headers unspecified
        custom :=
          { ingressPort := ingressPort, egressPort := 0, isVxlanDecapped := 0
            tenantId := frame.vni?.getD 0 }
        parserError := false } := by
  cases frame with
  | other eth payload htype =>
      simp only [bits, parse, parseEthernet, Codec.extract_put_append, if_neg htype]
      rfl
  | plainIpv4 eth ip payload htype hproto =>
      simp only [bits, parse, parseEthernet, parseIpv4, Codec.extract_put_append, if_pos htype,
        if_neg hproto]
      rfl
  | plainUdp eth ip udp payload htype hproto hport =>
      simp only [bits, parse, parseEthernet, parseIpv4, parseUdp, Codec.extract_put_append,
        if_pos htype, if_pos hproto, if_neg hport]
      rfl
  | tunnelled eth ip udp vxlan inner payload htype hproto hport hinner =>
      simp only [bits, parse, parseEthernet, parseIpv4, parseUdp, parseVxlan, parseInnerEthernet,
        Codec.extract_put_append, if_pos htype, if_pos hproto, if_pos hport, if_neg hinner]
      rfl
  | tunnelledIpv4 eth ip udp vxlan inner innerIp payload htype hproto hport hinner =>
      simp only [bits, parse, parseEthernet, parseIpv4, parseUdp, parseVxlan, parseInnerEthernet,
        parseInnerIpv4, Codec.extract_put_append, if_pos htype, if_pos hproto, if_pos hport,
        if_pos hinner]
      rfl

/-- Whatever the parser accepts can be divided so. -/
theorem exists_of_parse {ingressPort : BitVec 9} {unspecified : Headers} {packet : List Bool}
    (h : (parse ingressPort unspecified packet).parserError = false) :
    ∃ frame : Frame, packet = frame.bits := by
  unfold parse parseEthernet at h
  split at h
  · cases h
  · rename_i eth rest hextract
    obtain rfl := Codec.extract_eq_some_iff.mp hextract
    simp only at h
    split at h
    · rename_i htype
      unfold parseIpv4 at h
      split at h
      · cases h
      · rename_i ip rest hextract
        obtain rfl := Codec.extract_eq_some_iff.mp hextract
        simp only at h
        split at h
        · rename_i hproto
          unfold parseUdp at h
          split at h
          · cases h
          · rename_i udp rest hextract
            obtain rfl := Codec.extract_eq_some_iff.mp hextract
            simp only at h
            split at h
            · rename_i hport
              unfold parseVxlan at h
              split at h
              · cases h
              · rename_i vxlan rest hextract
                obtain rfl := Codec.extract_eq_some_iff.mp hextract
                unfold parseInnerEthernet at h
                split at h
                · cases h
                · rename_i inner rest hextract
                  obtain rfl := Codec.extract_eq_some_iff.mp hextract
                  simp only at h
                  split at h
                  · rename_i hinner
                    unfold parseInnerIpv4 at h
                    split at h
                    · cases h
                    · rename_i innerIp rest hextract
                      obtain rfl := Codec.extract_eq_some_iff.mp hextract
                      exact ⟨tunnelledIpv4 eth ip udp vxlan inner innerIp rest htype hproto hport
                        hinner, rfl⟩
                  · rename_i hinner
                    exact ⟨tunnelled eth ip udp vxlan inner rest htype hproto hport hinner, rfl⟩
            · rename_i hport
              exact ⟨plainUdp eth ip udp rest htype hproto hport, rfl⟩
        · rename_i hproto
          exact ⟨plainIpv4 eth ip rest htype hproto, rfl⟩
    · rename_i htype
      exact ⟨other eth rest htype, rfl⟩

/-- An Ethernet header of type IPv4 has an IPv4 header behind it. -/
theorem ip?_of_bits {frame : Frame} {eth : Ethernet} {ip : Ipv4} {rest : List Bool}
    (h : frame.bits = Ethernet.codec.put eth ++ (Ipv4.codec.put ip ++ rest))
    (htype : eth.etherType = ETHERTYPE_IPV4) : frame.ip? = some ip := by
  cases frame with
  | other eth' payload htype' =>
      rw [bits, Codec.put_append_inj] at h
      exact absurd (h.1 ▸ htype) htype'
  | plainIpv4 | plainUdp | tunnelled | tunnelledIpv4 =>
      rw [bits, Codec.put_append_inj, Codec.put_append_inj] at h
      rw [ip?, h.2.1]

/-- Parsed and sent without an action on it, a frame has its checksums computed. -/
theorem send_headers (unspecified : Headers) (frame : Frame) :
    send (frame.headers unspecified) frame.payload = frame.withChecksums.bits := by
  cases frame with
  | other eth payload =>
      change send _ payload = Ethernet.codec.put eth ++ payload
      simp [send, deparse, computeChecksum, updateChecksum, emit, headers, Headers.invalid,
        Header.setInvalid]
  | plainIpv4 eth ip payload =>
      change send _ payload = Ethernet.codec.put eth ++ (Ipv4.codec.put ip.withChecksum ++ payload)
      simp [send, deparse, computeChecksum, updateChecksum, emit, headers, Headers.invalid,
        Header.setInvalid]
  | plainUdp eth ip udp payload =>
      change send _ payload = Ethernet.codec.put eth ++ (Ipv4.codec.put ip.withChecksum ++
        (Udp.codec.put udp ++ payload))
      simp [send, deparse, computeChecksum, updateChecksum, emit, headers, Headers.invalid,
        Header.setInvalid]
  | tunnelled eth ip udp vxlan inner payload =>
      change send _ payload = Ethernet.codec.put eth ++ (Ipv4.codec.put ip.withChecksum ++
        (Udp.codec.put udp ++ (Vxlan.codec.put vxlan ++ (Ethernet.codec.put inner ++ payload))))
      simp [send, deparse, computeChecksum, updateChecksum, emit, headers, Headers.invalid,
        Header.setInvalid]
  | tunnelledIpv4 eth ip udp vxlan inner innerIp payload =>
      change send _ payload = Ethernet.codec.put eth ++ (Ipv4.codec.put ip.withChecksum ++
        (Udp.codec.put udp ++ (Vxlan.codec.put vxlan ++ (Ethernet.codec.put inner ++
          (Ipv4.codec.put innerIp.withChecksum ++ payload)))))
      simp [send, deparse, computeChecksum, updateChecksum, emit, headers]

/-- What is sent after decapsulation is the inner frame. -/
theorem send_decapHeaders (unspecified : Headers) {frame : Frame} (h : frame.vni? ≠ none) :
    send (decapHeaders (frame.headers unspecified)) frame.payload = frame.decapped := by
  cases frame with
  | other | plainIpv4 | plainUdp => exact absurd rfl h
  | tunnelled =>
      simp [send, deparse, computeChecksum, updateChecksum, emit, headers, payload, decapped,
        decapHeaders, Headers.invalid, Header.setInvalid]
  | tunnelledIpv4 =>
      simp [send, deparse, computeChecksum, updateChecksum, emit, headers, payload, decapped,
        decapHeaders, Header.setInvalid, List.append_assoc]

/-! ### Checksums change nothing else -/

/-- Checksums are put in once. -/
@[simp] theorem withChecksums_withChecksums (frame : Frame) :
    frame.withChecksums.withChecksums = frame.withChecksums := by
  cases frame <;> rfl

/-- They do not reach the inner frame. -/
theorem decapped_withChecksums {frame : Frame} (h : frame.vni? ≠ none) :
    frame.withChecksums.decapped = frame.decapped := by
  cases frame with
  | other | plainIpv4 | plainUdp => exact absurd rfl h
  | tunnelled => rfl
  | tunnelledIpv4 => rfl

/-- Nor the network. -/
@[simp] theorem vni?_withChecksums (frame : Frame) : frame.withChecksums.vni? = frame.vni? := by
  cases frame <;> rfl

/-- Nor the destination. -/
@[simp] theorem dstAddr_withChecksums (frame : Frame) :
    frame.withChecksums.dstAddr = frame.dstAddr := by
  cases frame <;> rfl

end Frame

/-- The bits of a frame where a checksum stands: the outer one or the inner one. -/
def Checksummed (i : Nat) : Prop := (192 ≤ i ∧ i < 208) ∨ (592 ≤ i ∧ i < 608)

/-- A part of a list, and another of its length in its place. -/
theorem getElem?_replaced {α : Type*} (front back : List α) {part part' : List α}
    (hlength : part.length = part'.length) {i : Nat}
    (hi : ¬ (front.length ≤ i ∧ i < front.length + part.length)) :
    (front ++ (part ++ back))[i]? = (front ++ (part' ++ back))[i]? := by
  by_cases hfront : i < front.length
  · rw [List.getElem?_append_left hfront, List.getElem?_append_left hfront]
  · have hback : part.length ≤ i - front.length := by omega
    have hback' : part'.length ≤ i - front.length := by omega
    rw [List.getElem?_append_right (by omega : front.length ≤ i),
      List.getElem?_append_right (by omega : front.length ≤ i),
      List.getElem?_append_right hback, List.getElem?_append_right hback', hlength]

/-- A header keeps its bits when its checksum is computed, but for those of the checksum. -/
theorem Ipv4.exists_put (ip : Ipv4) : ∃ front back : List Bool, front.length = 80 ∧
    Ipv4.codec.put ip = front ++ ((Codec.bits 16).put ip.hdrChecksum ++ back) ∧
    Ipv4.codec.put ip.withChecksum =
      front ++ ((Codec.bits 16).put ip.withChecksum.hdrChecksum ++ back) := by
  refine ⟨(Codec.bits 4).put ip.version ++ ((Codec.bits 4).put ip.ihl ++
    ((Codec.bits 8).put ip.diffserv ++ ((Codec.bits 16).put ip.totalLen ++
      ((Codec.bits 16).put ip.identification ++ ((Codec.bits 3).put ip.flags ++
        ((Codec.bits 13).put ip.fragOffset ++ ((Codec.bits 8).put ip.ttl ++
          (Codec.bits 8).put ip.protocol))))))),
    (Codec.bits 32).put ip.srcAddr ++ (Codec.bits 32).put ip.dstAddr, ?_, ?_, ?_⟩
  · simp only [List.length_append, Codec.length_put]
    rfl
  · simp only [List.append_assoc]
    rfl
  · simp only [List.append_assoc]
    rfl

/-- A checksum changes its sixteen bits only. -/
theorem getElem?_withChecksum (front back : List Bool) (ip : Ipv4) {i : Nat}
    (hi : ¬ (front.length + 80 ≤ i ∧ i < front.length + 96)) :
    (front ++ (Ipv4.codec.put ip.withChecksum ++ back))[i]? =
      (front ++ (Ipv4.codec.put ip ++ back))[i]? := by
  obtain ⟨before, behind, hlength, hput, hput'⟩ := ip.exists_put
  have hwidth : ∀ x : BitVec 16, ((Codec.bits 16).put x).length = 16 := (Codec.bits 16).length_put
  have hsame := getElem?_replaced (front ++ before) (behind ++ back) (i := i)
    ((hwidth ip.withChecksum.hdrChecksum).trans (hwidth ip.hdrChecksum).symm) (by
      rw [hwidth, List.length_append, hlength]
      omega)
  rw [hput, hput']
  simpa only [List.append_assoc] using hsame

/-- So it is in a frame. -/
theorem getElem?_withChecksums (frame : Frame) {i : Nat} (hi : ¬ Checksummed i) :
    frame.withChecksums.bits[i]? = frame.bits[i]? := by
  have houter : ∀ (eth : Ethernet) (ip : Ipv4) (back : List Bool),
      (Ethernet.codec.put eth ++ (Ipv4.codec.put ip.withChecksum ++ back))[i]? =
        (Ethernet.codec.put eth ++ (Ipv4.codec.put ip ++ back))[i]? := by
    intro eth ip back
    apply getElem?_withChecksum
    rw [Codec.length_put, Ethernet.width_codec]
    exact fun h => hi (.inl h)
  cases frame with
  | other => rfl
  | plainIpv4 => exact houter _ _ _
  | plainUdp => exact houter _ _ _
  | tunnelled => exact houter _ _ _
  | tunnelledIpv4 eth ip udp vxlan inner innerIp payload =>
      -- the inner header stands behind all the others
      have hinner := getElem?_withChecksum (Ethernet.codec.put eth ++ (Ipv4.codec.put ip ++
        (Udp.codec.put udp ++ (Vxlan.codec.put vxlan ++ Ethernet.codec.put inner)))) payload innerIp
        (i := i) (by
          simp only [List.length_append, Codec.length_put, Ethernet.width_codec, Ipv4.width_codec,
            Udp.width_codec, Vxlan.width_codec]
          exact fun h => hi (.inr h))
      simp only [List.append_assoc] at hinner
      exact (houter eth ip _).trans hinner

/-- The length stays. -/
theorem length_withChecksums (frame : Frame) :
    frame.withChecksums.bits.length = frame.bits.length := by
  have houter : ∀ (eth : Ethernet) (ip : Ipv4) {back back' : List Bool},
      back.length = back'.length →
        (Ethernet.codec.put eth ++ (Ipv4.codec.put ip.withChecksum ++ back)).length =
          (Ethernet.codec.put eth ++ (Ipv4.codec.put ip ++ back')).length := by
    intro eth ip back back' hback
    simp only [List.length_append, Codec.length_put, hback]
  cases frame with
  | other => rfl
  | plainIpv4 eth ip payload => exact houter eth ip rfl
  | plainUdp eth ip udp payload => exact houter eth ip rfl
  | tunnelled eth ip udp vxlan inner payload => exact houter eth ip rfl
  | tunnelledIpv4 eth ip udp vxlan inner innerIp payload =>
      apply houter eth ip
      simp only [List.length_append, Codec.length_put]

/-- Decapsulation takes 400 bits from the front of a frame. -/
theorem exists_decapped {frame : Frame} (h : frame.vni? ≠ none) :
    ∃ outer : List Bool, outer.length = 400 ∧ ∃ inside : List Bool,
      frame.bits = outer ++ inside ∧ frame.decapped.length = inside.length ∧
        ∀ i, ¬ Checksummed i → frame.decapped[i]? = inside[i]? := by
  have hlength : ∀ (eth : Ethernet) (ip : Ipv4) (udp : Udp) (vxlan : Vxlan),
      (Ethernet.codec.put eth ++ (Ipv4.codec.put ip ++ (Udp.codec.put udp ++
        Vxlan.codec.put vxlan))).length = 400 := by
    intro eth ip udp vxlan
    simp
  cases frame with
  | other | plainIpv4 | plainUdp => exact absurd rfl h
  | tunnelled eth ip udp vxlan inner payload =>
      exact ⟨_, hlength eth ip udp vxlan, Ethernet.codec.put inner ++ payload,
        by simp [Frame.bits], rfl, fun _ _ => rfl⟩
  | tunnelledIpv4 eth ip udp vxlan inner innerIp payload =>
      refine ⟨_, hlength eth ip udp vxlan, Ethernet.codec.put inner ++
        (Ipv4.codec.put innerIp ++ payload), by simp [Frame.bits], by simp [Frame.decapped], ?_⟩
      intro i hi
      apply getElem?_withChecksum
      rw [Codec.length_put, Ethernet.width_codec]
      exact fun h => hi (.inl h)

/-! ## Switches -/

/-- A switch on the way of a packet: its tables, the port through which the packet comes in,
and the port which leads on. -/
structure Hop where
  tables : Tables
  ingressPort : BitVec 9
  egressPort : BitVec 9
  unspecified : Headers

instance (s : PipelineState) (port : BitVec 9) : Decidable (ForwardedTo s port) :=
  inferInstanceAs (Decidable (_ ∧ _))

/-- What a switch sends on through the port, of a packet which its parser accepts. -/
def Hop.pass (h : Hop) (packet : List Bool) : Option (List Bool) :=
  let parsed := parse h.ingressPort h.unspecified packet
  let s := process h.tables h.ingressPort h.unspecified packet
  if parsed.parserError = false ∧ ForwardedTo s h.egressPort then
    some (send s.hdr parsed.packet)
  else none

/-- A packet along a path, on which every parser accepts it. -/
def travel : List Hop → List Bool → Option (List Bool)
  | [], packet => some packet
  | h :: path, packet => (h.pass packet).bind (travel path)

/-- The layers of encapsulation, one or none, which the switch takes off the packet. -/
def Hop.layers (h : Hop) (packet : List Bool) : Nat :=
  if .vxlanTunnel .vxlanDecap ∈ (process h.tables h.ingressPort h.unspecified packet).executed then
    1
  else 0

/-- The switches of a path which have executed `vxlan_decap` on the packet as it came to
them. -/
def decapsulations : List Hop → List Bool → Nat
  | [], _ => 0
  | h :: path, packet =>
      h.layers packet +
        match h.pass packet with
        | none => 0
        | some out => decapsulations path out

/-- The tunnel table has the frame decapsulated. -/
def Hop.Decaps (h : Hop) (frame : Frame) : Prop :=
  frame.vni?.map h.tables.vxlanTunnel.lookup = some .vxlanDecap

/-- The switch sends a destination on through the port. -/
def Hop.Forwards (h : Hop) (dstAddr : BitVec 48) : Prop :=
  h.tables.l2Forward.lookup dstAddr = .forward h.egressPort ∧ h.egressPort ≠ dropPort

/-- The frame leaves at a port when the table says so. -/
theorem forwardedTo_applyL2Forward (h : Hop) (s : PipelineState) :
    ForwardedTo (applyL2Forward h.tables s) h.egressPort ↔
      h.Forwards s.hdr.ethernet.fields.dstAddr := by
  rw [ForwardedTo, egressSpec_applyL2Forward, Hop.Forwards]
  refine and_congr_left fun hport => ?_
  cases h.tables.l2Forward.lookup s.hdr.ethernet.fields.dstAddr with
  | forward port => simp
  | drop => simpa using fun hdrop => hport hdrop.symm

/-- Forwarding changes no header. -/
theorem hdr_applyL2Forward (tables : Tables) (s : PipelineState) :
    (applyL2Forward tables s).hdr = s.hdr := by
  rw [applyL2Forward]
  cases tables.l2Forward.lookup s.hdr.ethernet.fields.dstAddr <;> rfl

/-- The tunnel table has the headers decapsulated. -/
def TunnelDecaps (tables : Tables) (hdr : Headers) : Prop :=
  hdr.vxlan.valid = true ∧ tables.vxlanTunnel.lookup hdr.vxlan.fields.vni = .vxlanDecap

/-- The tunnel table decapsulates when it is applied and has the network. -/
theorem executed_ingress_iff (tables : Tables) {s : PipelineState} (hs : s.executed = []) :
    .vxlanTunnel .vxlanDecap ∈ (ingress tables s).executed ↔ TunnelDecaps tables s.hdr := by
  rw [ingress, TunnelDecaps]
  cases hvxlan : s.hdr.vxlan.valid with
  | true =>
      cases htunnel : tables.vxlanTunnel.lookup s.hdr.vxlan.fields.vni with
      | vxlanDecap => simp [applyL2Forward, applyVxlanTunnel, htunnel, vxlanDecap, hs]
      | drop => simp [applyL2Forward, applyVxlanTunnel, htunnel, hs, drop]
  | false =>
      cases hipv4 : s.hdr.ipv4.valid with
      | false => simp [applyL2Forward, hs]
      | true => simp [applyL2Forward, applyAcl, hs]

/-- Before `l2_forward` the headers are decapsulated, or as they came. -/
theorem exists_ingress (tables : Tables) (s : PipelineState) :
    ∃ s' : PipelineState, ingress tables s = applyL2Forward tables s' ∧
      (TunnelDecaps tables s.hdr ∧ s'.hdr = decapHeaders s.hdr ∨
        ¬ TunnelDecaps tables s.hdr ∧ s'.hdr = s.hdr) := by
  rw [ingress, TunnelDecaps]
  cases hvxlan : s.hdr.vxlan.valid with
  | true =>
      refine ⟨applyVxlanTunnel tables s, rfl, ?_⟩
      rw [applyVxlanTunnel]
      cases tables.vxlanTunnel.lookup s.hdr.vxlan.fields.vni with
      | vxlanDecap => simp [vxlanDecap]
      | drop => simp [drop]
  | false =>
      refine ⟨if s.hdr.ipv4.valid then applyAcl tables s else s, rfl, ?_⟩
      split
      · rw [applyAcl]
        cases tables.acl.lookup (aclKey s.hdr) <;> simp [applyForwardAction, forward, drop]
      · simp

/-- The same, told of the frame as it came. -/
theorem Hop.decaps_iff (h : Hop) (unspecified : Headers) (frame : Frame) :
    h.Decaps frame ↔ TunnelDecaps h.tables (frame.headers unspecified) := by
  rw [Hop.Decaps, TunnelDecaps]
  cases frame with
  | other | plainIpv4 | plainUdp =>
      simp [Frame.vni?, Frame.headers, Headers.invalid, Header.setInvalid]
  | tunnelled => simp [Frame.vni?, Frame.headers]
  | tunnelledIpv4 => simp [Frame.vni?, Frame.headers]

/-- Only a tunnel frame is decapsulated. -/
theorem Hop.Decaps.vni_ne_none {h : Hop} {frame : Frame} (hdecaps : h.Decaps frame) :
    frame.vni? ≠ none := by
  intro hnone
  rw [Hop.Decaps, hnone] at hdecaps
  cases hdecaps

/-- What a switch makes of a frame. -/
theorem Hop.pass_bits (h : Hop) {frame : Frame} {out : List Bool} :
    h.pass frame.bits = some out ↔
      (h.Decaps frame ∧ h.Forwards frame.innerDstAddr ∧ out = frame.decapped) ∨
        (¬ h.Decaps frame ∧ h.Forwards frame.dstAddr ∧ out = frame.withChecksums.bits) := by
  rw [Hop.pass, process, Frame.parse_bits]
  simp only [true_and]
  obtain ⟨s, hingress, hhdr⟩ := exists_ingress h.tables (afterParser h.ingressPort
    { packet := frame.payload
      hdr := frame.headers h.unspecified
      custom :=
        { ingressPort := h.ingressPort, egressPort := 0, isVxlanDecapped := 0
          tenantId := frame.vni?.getD 0 }
      parserError := false })
  rw [hingress, Option.ite_none_right_eq_some, forwardedTo_applyL2Forward, hdr_applyL2Forward,
    Option.some.injEq, eq_comm (b := out)]
  rcases hhdr with ⟨hdecaps, hhdr⟩ | ⟨hdecaps, hhdr⟩
  · replace hdecaps : h.Decaps frame := (h.decaps_iff h.unspecified frame).mpr hdecaps
    replace hhdr : s.hdr = decapHeaders (frame.headers h.unspecified) := hhdr
    have hdst : (decapHeaders (frame.headers h.unspecified)).ethernet.fields.dstAddr =
        frame.innerDstAddr := by
      cases frame with
      | other | plainIpv4 | plainUdp => exact absurd rfl hdecaps.vni_ne_none
      | tunnelled => rfl
      | tunnelledIpv4 => rfl
    rw [hhdr, hdst, Frame.send_decapHeaders _ hdecaps.vni_ne_none]
    simp [hdecaps]
  · replace hdecaps : ¬ h.Decaps frame := fun hd =>
      hdecaps ((h.decaps_iff h.unspecified frame).mp hd)
    replace hhdr : s.hdr = frame.headers h.unspecified := hhdr
    have hdst : (frame.headers h.unspecified).ethernet.fields.dstAddr = frame.dstAddr := by
      cases frame <;> rfl
    rw [hhdr, hdst, Frame.send_headers]
    simp [hdecaps]

/-- A switch takes off one layer or none. -/
theorem Hop.layers_bits (h : Hop) (frame : Frame) [Decidable (h.Decaps frame)] :
    h.layers frame.bits = if h.Decaps frame then 1 else 0 := by
  rw [Hop.layers, process]
  refine if_congr ?_ rfl rfl
  rw [executed_ingress_iff h.tables rfl, Frame.parse_bits, h.decaps_iff h.unspecified]
  rfl

/-- What a switch lets pass is a frame. -/
theorem Hop.exists_frame {h : Hop} {packet out : List Bool} (hpass : h.pass packet = some out) :
    ∃ frame : Frame, packet = frame.bits ∧ h.pass frame.bits = some out := by
  obtain ⟨⟨haccepted, -⟩, -⟩ := Option.ite_none_right_eq_some.mp hpass
  obtain ⟨frame, rfl⟩ := Frame.exists_of_parse haccepted
  exact ⟨frame, rfl, hpass⟩

/-! ## What a path changes -/

/-- `out` is `packet` without some layers of encapsulation, but for its checksums. -/
structure Follows (packet out : List Bool) (layers : Nat) : Prop where
  length : out.length + 400 * layers = packet.length
  bits : ∀ i, ¬ Checksummed i → out[i]? = packet[400 * layers + i]?

/-- Layers taken off one after the other add up. -/
theorem Follows.trans {packet between out : List Bool} {layers layers' : Nat}
    (h : Follows packet between layers) (h' : Follows between out layers') :
    Follows packet out (layers + layers') where
  length := by
    have hfirst := h.length
    have hsecond := h'.length
    omega
  bits := by
    intro i hi
    -- behind another layer no bit comes to stand where a checksum was
    have hshifted : ¬ Checksummed (400 * layers' + i) := by
      rw [Checksummed] at hi ⊢
      omega
    rw [h'.bits i hi, h.bits _ hshifted]
    congr 1
    omega

/-- No switch finds a wrong checksum in the packet. -/
def ChecksumsPass (packet : List Bool) : Prop :=
  ∀ (ingressPort : BitVec 9) (unspecified : Headers),
    (afterParser ingressPort (parse ingressPort unspecified packet)).std.checksumError = 0

/-- A packet whose outer IPv4 header is in order passes. -/
theorem checksumsPass_of_front {packet : List Bool}
    (h : ∀ (eth : Ethernet) (ip : Ipv4) (rest : List Bool), eth.etherType = ETHERTYPE_IPV4 →
      packet = Ethernet.codec.put eth ++ (Ipv4.codec.put ip ++ rest) → ip.ChecksumOk) :
    ChecksumsPass packet := by
  intro ingressPort unspecified
  change (verifyChecksum (parse ingressPort unspecified packet).hdr _).checksumError = 0
  rw [verifyChecksum, if_neg]
  rintro ⟨hvalid, hwrong⟩
  obtain ⟨eth, rest, htype, hpacket⟩ := exists_of_ipv4_valid hvalid
  exact hwrong (h eth _ rest htype hpacket)

/-- A wrong checksum is noticed after the parser. -/
theorem checksumError_bits {frame : Frame} {ip : Ipv4} (hip : frame.ip? = some ip)
    (hwrong : ¬ ip.ChecksumOk) (ingressPort : BitVec 9) (unspecified : Headers) :
    (afterParser ingressPort (parse ingressPort unspecified frame.bits)).std.checksumError = 1 := by
  rw [Frame.parse_bits]
  change (verifyChecksum (frame.headers unspecified) _).checksumError = 1
  cases frame with
  | other => cases hip
  | plainIpv4 | plainUdp | tunnelled | tunnelledIpv4 =>
      cases hip
      rw [verifyChecksum, if_pos ⟨rfl, hwrong⟩]

/-- What leaves with new checksums passes. -/
theorem checksumsPass_withChecksums (frame : Frame) :
    ChecksumsPass frame.withChecksums.bits := by
  refine checksumsPass_of_front fun eth ip rest htype hfront => ?_
  have hip := Frame.ip?_of_bits hfront htype
  cases frame with
  | other => cases hip
  | plainIpv4 | plainUdp | tunnelled | tunnelledIpv4 =>
      cases hip
      exact Ipv4.checksumOk_withChecksum _

/-- So does the inner frame. -/
theorem checksumsPass_decapped {frame : Frame} (h : frame.vni? ≠ none) :
    ChecksumsPass frame.decapped := by
  cases frame with
  | other | plainIpv4 | plainUdp => exact absurd rfl h
  | tunnelled eth ip udp vxlan inner payload _ _ _ hinner =>
      exact checksumsPass_withChecksums (.other inner payload hinner)
  | tunnelledIpv4 eth ip udp vxlan inner innerIp payload _ _ _ hinner =>
      -- the inner header is the outer one of what is left
      refine checksumsPass_of_front fun eth' ip' rest _ hfront => ?_
      rw [Frame.decapped, Codec.put_append_inj, Codec.put_append_inj] at hfront
      exact hfront.2.1 ▸ Ipv4.checksumOk_withChecksum innerIp

/-- A switch takes off its layer and leaves the checksums in order. -/
theorem Hop.pass_follows {h : Hop} {packet out : List Bool} (hpass : h.pass packet = some out) :
    Follows packet out (h.layers packet) ∧ ChecksumsPass out := by
  classical
  obtain ⟨frame, rfl, hframe⟩ := Hop.exists_frame hpass
  rw [h.layers_bits]
  rcases h.pass_bits.mp hframe with ⟨hdecaps, -, rfl⟩ | ⟨hdecaps, -, rfl⟩
  · obtain ⟨outer, houter, inside, hbits, hlength, hsame⟩ := exists_decapped hdecaps.vni_ne_none
    rw [if_pos hdecaps]
    refine ⟨⟨?_, ?_⟩, checksumsPass_decapped hdecaps.vni_ne_none⟩
    · rw [hbits, List.length_append, houter, hlength]
      omega
    · intro i hi
      rw [hsame i hi, hbits, List.getElem?_append_right (by omega)]
      congr 1
      omega
  · rw [if_neg hdecaps]
    refine ⟨⟨length_withChecksums frame, ?_⟩, checksumsPass_withChecksums frame⟩
    intro i hi
    rw [Nat.mul_zero, Nat.zero_add]
    exact getElem?_withChecksums frame hi

/-- A path takes off a layer at each switch that decapsulates. -/
theorem travel_follows {path : List Hop} {packet out : List Bool}
    (h : travel path packet = some out) : Follows packet out (decapsulations path packet) := by
  induction path generalizing packet with
  | nil =>
      cases h
      exact ⟨rfl, fun i _ => by rw [decapsulations, Nat.mul_zero, Nat.zero_add]⟩
  | cons hop path ih =>
      obtain ⟨between, hpass, hrest⟩ := Option.bind_eq_some_iff.mp h
      obtain ⟨hfirst, -⟩ := Hop.pass_follows hpass
      rw [decapsulations, hpass]
      exact hfirst.trans (ih hrest)

/-- Behind a switch the checksums are in order. -/
theorem travel_checksumsPass {path : List Hop} (hpath : path ≠ []) {packet out : List Bool}
    (h : travel path packet = some out) : ChecksumsPass out := by
  induction path generalizing packet with
  | nil => exact absurd rfl hpath
  | cons hop path ih =>
      obtain ⟨between, hpass, hrest⟩ := Option.bind_eq_some_iff.mp h
      cases path with
      | nil =>
          cases hrest
          exact (Hop.pass_follows hpass).2
      | cons next path => exact ih (List.cons_ne_nil next path) hrest

/-- The same tables, and the same port which leads on. -/
def Hop.Alike (h h' : Hop) : Prop := h.tables = h'.tables ∧ h.egressPort = h'.egressPort

/-- A switch which sends a frame on undiminished sends it on with its checksums computed. -/
theorem Hop.pass_full {h : Hop} {frame : Frame} {out : List Bool}
    (hpass : h.pass frame.bits = some out) (hlength : out.length = frame.bits.length) :
    ¬ h.Decaps frame ∧ h.Forwards frame.dstAddr ∧ out = frame.withChecksums.bits := by
  rcases h.pass_bits.mp hpass with ⟨hdecaps, -, rfl⟩ | hplain
  · obtain ⟨outer, houter, inside, hbits, hshort, -⟩ := exists_decapped hdecaps.vni_ne_none
    rw [hbits, List.length_append, houter, hshort] at hlength
    omega
  · exact hplain

/-- Every switch which sends the packet on undiminished sends on the packet itself. -/
def Settled (packet : List Bool) : Prop :=
  ∀ (h : Hop) (out : List Bool), h.pass packet = some out → out.length = packet.length →
    out = packet

/-- What a switch lets pass unshortened is settled. -/
theorem settled_of_pass {h : Hop} {packet out : List Bool} (hpass : h.pass packet = some out)
    (hlength : out.length = packet.length) : Settled out := by
  obtain ⟨frame, rfl, hframe⟩ := Hop.exists_frame hpass
  obtain ⟨-, -, rfl⟩ := Hop.pass_full hframe hlength
  intro h' out' hpass' hlength'
  obtain ⟨-, -, hout⟩ := Hop.pass_full hpass' hlength'
  rw [hout, Frame.withChecksums_withChecksums]

/-- What a switch has sent on undiminished it sends on again as it is. -/
theorem Hop.Alike.pass {h h' : Hop} (halike : h.Alike h') {packet out : List Bool}
    (hpass : h.pass packet = some out) (hlength : out.length = packet.length) :
    h'.pass out = some out := by
  obtain ⟨frame, rfl, hframe⟩ := Hop.exists_frame hpass
  obtain ⟨hdecaps, hforwards, rfl⟩ := Hop.pass_full hframe hlength
  refine h'.pass_bits.mpr (.inr ⟨?_, ?_, by rw [Frame.withChecksums_withChecksums]⟩)
  · rwa [Hop.Decaps, Frame.vni?_withChecksums, ← halike.1]
  · rwa [Hop.Forwards, Frame.dstAddr_withChecksums, ← halike.1, ← halike.2]

/-- A packet which comes through undiminished is undiminished on the way. -/
theorem length_between {h : Hop} {path : List Hop} {packet between out : List Bool}
    (hpass : h.pass packet = some between) (hrest : travel path between = some out)
    (hlength : out.length = packet.length) : between.length = packet.length := by
  have hfront := (Hop.pass_follows hpass).1.length
  have hback := (travel_follows hrest).length
  omega

/-- A settled packet goes on unchanged as long as it is not shortened. -/
theorem travel_settled {path : List Hop} {packet out : List Bool} (hsettled : Settled packet)
    (h : travel path packet = some out) (hlength : out.length = packet.length) :
    out = packet := by
  induction path with
  | nil =>
      cases h
      rfl
  | cons hop path ih =>
      obtain ⟨between, hpass, hrest⟩ := Option.bind_eq_some_iff.mp h
      have hbetween := length_between hpass hrest hlength
      rw [hsettled hop between hpass hbetween] at hrest
      exact ih hrest

/-- A packet which came through undiminished is what all switches of the path send on. -/
theorem travel_full {path : List Hop} {packet out : List Bool} (h : travel path packet = some out)
    (hlength : out.length = packet.length) :
    ∀ hop ∈ path, ∀ h', hop.Alike h' → h'.pass out = some out := by
  induction path generalizing packet with
  | nil =>
      intro hop hmem
      cases hmem
  | cons first path ih =>
      obtain ⟨between, hpass, hrest⟩ := Option.bind_eq_some_iff.mp h
      have hbetween := length_between hpass hrest hlength
      have hout : out = between :=
        travel_settled (settled_of_pass hpass hbetween) hrest (hlength.trans hbetween.symm)
      subst hout
      intro hop hmem h' halike
      rcases List.mem_cons.mp hmem with rfl | hmem
      · exact halike.pass hpass hbetween
      · exact ih hrest rfl hop hmem h' halike

/-- **Round for ever.**  A packet which a ring of switches brings back undiminished goes round
again, however many times, and does not change any more: no field of it counts the hops. -/
theorem goes_round {ring later : List Hop} {packet back : List Bool}
    (h : travel ring packet = some back) (hlength : back.length = packet.length)
    (hlater : ∀ h' ∈ later, ∃ hop ∈ ring, hop.Alike h') : travel later back = some back := by
  induction later with
  | nil => rfl
  | cons h' later ih =>
      obtain ⟨hop, hmem, halike⟩ := hlater h' List.mem_cons_self
      rw [travel, travel_full h hlength hop hmem h' halike, Option.bind_some]
      exact ih fun h'' hmem'' => hlater h'' (List.mem_cons_of_mem h' hmem'')

/-! ## A damaged header on its way -/

def ExactTable.single {κ α : Type} {size : Nat} (hsize : 0 < size) (key : κ) (action : α)
    (default_action : α) : ExactTable κ α size :=
  ⟨[(key, action)], List.nodup_cons.mpr ⟨List.not_mem_nil, List.nodup_nil⟩, hsize,
    default_action⟩

/-- A switch which knows the end of the tunnel and no network behind it. -/
def transit : Hop where
  tables :=
    { l2Forward := .single (Nat.succ_pos 1023) 0x02000000000b (.forward 1) .drop
      vxlanTunnel := .single (Nat.succ_pos 255) 7 .drop .drop
      acl := ⟨[], Nat.zero_le 512⟩ }
  ingressPort := 2
  egressPort := 1
  unspecified := blankHeaders

/-- The switch at the end of the tunnel. -/
def endpoint : Hop where
  tables :=
    { l2Forward := .single (Nat.succ_pos 1023) 0x020000000001 (.forward 3) .drop
      vxlanTunnel := .single (Nat.succ_pos 255) 42 .vxlanDecap .drop
      acl := ⟨[], Nat.zero_le 512⟩ }
  ingressPort := 2
  egressPort := 3
  unspecified := blankHeaders

/-- A header whose checksum is by one too high. -/
def Ipv4.damaged (ip : Ipv4) : Ipv4 := { ip with hdrChecksum := csum16 ip.checksumData + 1 }

/-- A damaged checksum is wrong. -/
theorem Ipv4.not_checksumOk_damaged (ip : Ipv4) : ¬ ip.damaged.ChecksumOk := by
  intro h
  have hsame : csum16 ip.checksumData + 1 = csum16 ip.checksumData := h
  simp at hsame

/-- A tunnelled frame with a damaged header in front. -/
def damaged : Frame :=
  .tunnelledIpv4 ⟨0x02000000000b, 0x02000000000a, ETHERTYPE_IPV4⟩
    { tcpIpv4 with protocol := IP_PROTO_UDP }.damaged ⟨0xc000, VXLAN_UDP_PORT, 0, 0⟩
    ⟨VXLAN_FLAGS, 0, 42, 0⟩ tcpEthernet tcpIpv4 [] rfl rfl rfl rfl

/-- The transit switch repairs it. -/
theorem pass_damaged : transit.pass damaged.bits = some damaged.withChecksums.bits := by
  refine transit.pass_bits.mpr (.inr ⟨?_, ⟨?_, ?_⟩, rfl⟩)
  · intro h
    cases h
  · rfl
  · decide

/-- The endpoint behind it decapsulates the frame. -/
theorem travel_damaged : travel [transit, endpoint] damaged.bits = some damaged.decapped := by
  have hvni : damaged.vni? ≠ none := Option.some_ne_none 42
  have hend : endpoint.pass damaged.withChecksums.bits = some damaged.decapped := by
    refine endpoint.pass_bits.mpr (.inl ⟨?_, ⟨?_, ?_⟩, (Frame.decapped_withChecksums hvni).symm⟩)
    · rfl
    · rfl
    · decide
  rw [travel, pass_damaged, Option.bind_some, travel, hend]
  rfl

/-- One of the two takes a layer off. -/
theorem decapsulations_damaged : decapsulations [transit, endpoint] damaged.bits = 1 := by
  have hhere : transit.layers damaged.bits = 0 := by decide +kernel
  have hend : endpoint.layers damaged.withChecksums.bits = 1 := by decide +kernel
  rw [decapsulations, hhere, pass_damaged]
  simp only [decapsulations, hend]
  cases endpoint.pass damaged.withChecksums.bits <;> rfl

/-- From then on it goes round unchanged. -/
theorem goes_round_damaged :
    travel [transit, transit, transit] damaged.withChecksums.bits =
      some damaged.withChecksums.bits := by
  have hring : travel [transit] damaged.bits = some damaged.withChecksums.bits := by
    rw [travel, pass_damaged]
    rfl
  refine goes_round hring (length_withChecksums damaged) fun h' hmem => ?_
  have heq : h' = transit := by simpa using hmem
  exact ⟨transit, List.mem_cons_self, heq ▸ ⟨rfl, rfl⟩⟩

end FaultOracle.P4
