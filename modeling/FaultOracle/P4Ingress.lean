import FaultOracle.P4Headers

/-!
# The ingress pipeline: tables, actions and who has the last word

`MyIngress` applies `vxlan_tunnel_table` or `acl_table` to a packet, and then, in either
case, `l2_forward`.  All of them decide through `egress_spec`: `drop` sets it to the drop
port, `forward` to the port of its entry.

What is decided last stands.  A packet which the ACL or the tunnel table has dropped stays
dropped only if `l2_forward` drops it too (`denied_not_forwarded_iff`); if the
destination's entry forwards, it leaves through that port.
-/

namespace FaultOracle.P4

open BitCodecs

/-- The port to which `mark_to_drop` sends a packet, and where it is dropped. -/
def dropPort : BitVec 9 := 511

/-- The actions of `l2_forward` and `acl_table`. -/
inductive ForwardAction
  | forward (port : BitVec 9)
  | drop
deriving DecidableEq, Repr

/-- The actions of `vxlan_tunnel_table`. -/
inductive TunnelAction
  | vxlanDecap
  | drop
deriving DecidableEq, Repr

/-! ## Tables -/

/-- The content of a table with one exact key: its entries and its default action. -/
structure ExactTable (κ α : Type) (size : Nat) where
  entries : List (κ × α)
  nodup : (entries.map Prod.fst).Nodup
  length_le : entries.length ≤ size
  default_action : α

def ExactTable.lookup {κ α : Type} {size : Nat} [DecidableEq κ] (t : ExactTable κ α size)
    (key : κ) : α :=
  (t.entries.lookup key).getD t.default_action

/-- The key of `acl_table`. -/
structure AclKey where
  srcAddr : BitVec 32
  dstAddr : BitVec 32
  protocol : BitVec 8
  dstPort : BitVec 16
deriving DecidableEq, Repr

/-- An entry of `acl_table`; the ternary fields have a mask each. -/
structure AclEntry where
  srcAddr : BitVec 32
  srcAddrMask : BitVec 32
  dstAddr : BitVec 32
  dstAddrMask : BitVec 32
  protocol : BitVec 8
  dstPort : BitVec 16
  dstPortMask : BitVec 16
  priority : Nat
  action : ForwardAction
deriving DecidableEq, Repr

def AclEntry.Matches (e : AclEntry) (key : AclKey) : Prop :=
  key.srcAddr &&& e.srcAddrMask = e.srcAddr &&& e.srcAddrMask ∧
    key.dstAddr &&& e.dstAddrMask = e.dstAddr &&& e.dstAddrMask ∧
    key.protocol = e.protocol ∧
    key.dstPort &&& e.dstPortMask = e.dstPort &&& e.dstPortMask

instance (e : AclEntry) (key : AclKey) : Decidable (e.Matches key) :=
  inferInstanceAs (Decidable (_ ∧ _ ∧ _ ∧ _))

/-- The content of `acl_table`. -/
structure AclTable where
  entries : List AclEntry
  length_le : entries.length ≤ 512

/-- The entry of the largest priority, the earliest of those. -/
def bestEntry : List AclEntry → Option AclEntry
  | [] => none
  | e :: entries =>
      match bestEntry entries with
      | none => some e
      | some best => if best.priority ≤ e.priority then some e else some best

/-- The action of `acl_table` for a key; its default action is constant. -/
def AclTable.lookup (t : AclTable) (key : AclKey) : ForwardAction :=
  ((bestEntry (t.entries.filter (fun e => e.Matches key))).map AclEntry.action).getD (.forward 0)

/-- What the control plane has put into the tables. -/
structure Tables where
  l2Forward : ExactTable (BitVec 48) ForwardAction 1024
  vxlanTunnel : ExactTable (BitVec 24) TunnelAction 256
  acl : AclTable

/-! ## Actions -/

/-- An action which a table of the pipeline has executed. -/
inductive Executed
  | acl (action : ForwardAction)
  | vxlanTunnel (action : TunnelAction)
  | l2Forward (action : ForwardAction)
deriving DecidableEq, Repr

/-- What the controls work on, with the actions executed so far. -/
structure PipelineState where
  hdr : Headers
  custom : CustomMetadata
  std : StandardMetadata
  executed : List Executed
deriving DecidableEq, Repr

/-- `drop`. -/
def drop (s : PipelineState) : PipelineState :=
  { s with std := { s.std with egressSpec := dropPort } }

/-- `forward`. -/
def forward (port : BitVec 9) (s : PipelineState) : PipelineState :=
  { s with
    std := { s.std with egressSpec := port }
    custom := { s.custom with egressPort := port } }

/-- `vxlan_decap`, on headers. -/
def decapHeaders (hdr : Headers) : Headers :=
  { hdr with
    ethernet :=
      { hdr.ethernet with
        fields :=
          { dstAddr := hdr.innerEthernet.fields.dstAddr
            srcAddr := hdr.innerEthernet.fields.srcAddr
            etherType := hdr.innerEthernet.fields.etherType } }
    ipv4 := hdr.ipv4.setInvalid
    udp := hdr.udp.setInvalid
    vxlan := hdr.vxlan.setInvalid
    innerEthernet := hdr.innerEthernet.setInvalid }

/-- `vxlan_decap`. -/
def vxlanDecap (s : PipelineState) : PipelineState :=
  { s with hdr := decapHeaders s.hdr, custom := { s.custom with isVxlanDecapped := 1 } }

/-- `vxlan_encap`, on headers.  Every field of the outer headers is written behind the
`setValid` of its header, those of `inner_ethernet` are written in front of it. -/
def encapHeaders (vtepIp : BitVec 32) (vni : BitVec 24) (fresh hdr : Headers) : Headers :=
  let innerEthernet : Header Ethernet :=
    { hdr.innerEthernet with
      fields :=
        { dstAddr := hdr.ethernet.fields.dstAddr
          srcAddr := hdr.ethernet.fields.srcAddr
          etherType := hdr.ethernet.fields.etherType } }
  let innerIpv4 := hdr.ipv4.setValid fresh.innerIpv4.fields
  { ethernet :=
      { hdr.ethernet with fields := { hdr.ethernet.fields with etherType := ETHERTYPE_IPV4 } }
    innerEthernet := innerEthernet.setValid fresh.innerEthernet.fields
    innerIpv4 := innerIpv4
    vxlan :=
      { valid := true
        fields := { flags := VXLAN_FLAGS, reserved := 0, vni := vni, reserved2 := 0 } }
    udp :=
      { valid := true
        fields := { srcPort := 0xC000, dstPort := VXLAN_UDP_PORT, len := 0, checksum := 0 } }
    ipv4 :=
      { valid := true
        fields :=
          { version := 4, ihl := 5, diffserv := 0, totalLen := 0, identification := 0
            flags := 0, fragOffset := 0, ttl := 64, protocol := IP_PROTO_UDP, hdrChecksum := 0
            srcAddr := vtepIp, dstAddr := innerIpv4.fields.dstAddr } } }

/-- `vxlan_encap`. -/
def vxlanEncap (vtepIp : BitVec 32) (vni : BitVec 24) (fresh : Headers) (s : PipelineState) :
    PipelineState :=
  { s with
    hdr := encapHeaders vtepIp vni fresh s.hdr
    custom := { s.custom with tenantId := vni } }

/-! ## `MyIngress` -/

def applyForwardAction (action : ForwardAction) (s : PipelineState) : PipelineState :=
  match action with
  | .forward port => forward port s
  | .drop => drop s

/-- `l2_forward.apply()`. -/
def applyL2Forward (tables : Tables) (s : PipelineState) : PipelineState :=
  let action := tables.l2Forward.lookup s.hdr.ethernet.fields.dstAddr
  { applyForwardAction action s with executed := s.executed ++ [.l2Forward action] }

/-- `vxlan_tunnel_table.apply()`. -/
def applyVxlanTunnel (tables : Tables) (s : PipelineState) : PipelineState :=
  let action := tables.vxlanTunnel.lookup s.hdr.vxlan.fields.vni
  let s := { s with executed := s.executed ++ [.vxlanTunnel action] }
  match action with
  | .vxlanDecap => vxlanDecap s
  | .drop => drop s

def aclKey (hdr : Headers) : AclKey where
  srcAddr := hdr.ipv4.fields.srcAddr
  dstAddr := hdr.ipv4.fields.dstAddr
  protocol := hdr.ipv4.fields.protocol
  dstPort := hdr.udp.fields.dstPort

/-- `acl_table.apply()`. -/
def applyAcl (tables : Tables) (s : PipelineState) : PipelineState :=
  let action := tables.acl.lookup (aclKey s.hdr)
  { applyForwardAction action s with executed := s.executed ++ [.acl action] }

/-- The apply block of `MyIngress`. -/
def ingress (tables : Tables) (s : PipelineState) : PipelineState :=
  if s.hdr.vxlan.valid then applyL2Forward tables (applyVxlanTunnel tables s)
  else applyL2Forward tables (if s.hdr.ipv4.valid then applyAcl tables s else s)

/-- What the parser hands on, after `MyVerifyChecksum`. -/
def afterParser (ingressPort : BitVec 9) (parsed : ParserState) : PipelineState where
  hdr := parsed.hdr
  custom := parsed.custom
  std := verifyChecksum parsed.hdr
    { ingressPort := ingressPort, egressSpec := 0, checksumError := 0 }
  executed := []

/-- A packet from the parser to the end of `MyIngress`; a parser error stops no packet. -/
def process (tables : Tables) (ingressPort : BitVec 9) (unspecified : Headers)
    (packet : List Bool) : PipelineState :=
  ingress tables (afterParser ingressPort (parse ingressPort unspecified packet))

/-! ## A drop and what becomes of it -/

/-- The ACL or the tunnel table has executed `drop`. -/
def Dropped (s : PipelineState) : Prop :=
  .acl .drop ∈ s.executed ∨ .vxlanTunnel .drop ∈ s.executed

/-- The packet leaves through a port. -/
def ForwardedTo (s : PipelineState) (port : BitVec 9) : Prop :=
  s.std.egressSpec = port ∧ port ≠ dropPort

/-- The entries that the headers select in the ACL or in the tunnel table say `drop`. -/
def Denied (tables : Tables) (hdr : Headers) : Prop :=
  (hdr.vxlan.valid = true ∧ tables.vxlanTunnel.lookup hdr.vxlan.fields.vni = .drop) ∨
    (hdr.vxlan.valid = false ∧ hdr.ipv4.valid = true ∧ tables.acl.lookup (aclKey hdr) = .drop)

/-- `l2_forward` sends the destination to a port of its own. -/
def L2Forwards (tables : Tables) (hdr : Headers) : Prop :=
  ∃ port, tables.l2Forward.lookup hdr.ethernet.fields.dstAddr = .forward port ∧ port ≠ dropPort

/-- The action of `l2_forward` alone decides where the packet goes. -/
theorem egressSpec_applyL2Forward (tables : Tables) (s : PipelineState) :
    (applyL2Forward tables s).std.egressSpec =
      match tables.l2Forward.lookup s.hdr.ethernet.fields.dstAddr with
      | .forward port => port
      | .drop => dropPort := by
  unfold applyL2Forward
  cases tables.l2Forward.lookup s.hdr.ethernet.fields.dstAddr with
  | forward port => rfl
  | drop => rfl

/-- Dropping is all the tunnel table or the ACL can have done where the packet is denied. -/
theorem dropped_ingress_iff (tables : Tables) {s : PipelineState} (hs : s.executed = []) :
    Dropped (ingress tables s) ↔ Denied tables s.hdr := by
  unfold ingress Denied Dropped
  cases hvxlan : s.hdr.vxlan.valid with
  | true =>
      cases htunnel : tables.vxlanTunnel.lookup s.hdr.vxlan.fields.vni with
      | vxlanDecap => simp [applyL2Forward, applyVxlanTunnel, htunnel, vxlanDecap, hs]
      | drop => simp [applyL2Forward, applyVxlanTunnel, htunnel, hs, drop]
  | false =>
      cases hipv4 : s.hdr.ipv4.valid with
      | false => simp [applyL2Forward, hs]
      | true => simp [applyL2Forward, applyAcl, hs, eq_comm]

/-- A packet that is denied comes to `l2_forward` with the headers it had. -/
theorem egressSpec_of_denied {tables : Tables} {s : PipelineState} (hs : Denied tables s.hdr) :
    (ingress tables s).std.egressSpec =
      match tables.l2Forward.lookup s.hdr.ethernet.fields.dstAddr with
      | .forward port => port
      | .drop => dropPort := by
  unfold ingress
  rcases hs with ⟨hvxlan, htunnel⟩ | ⟨hvxlan, hipv4, hacl⟩
  · have hdr : (applyVxlanTunnel tables s).hdr = s.hdr := by
      simp [applyVxlanTunnel, htunnel, drop]
    rw [if_pos hvxlan, egressSpec_applyL2Forward, hdr]
  · have hdr : (applyAcl tables s).hdr = s.hdr := by
      simp [applyAcl, hacl, applyForwardAction, drop]
    rw [if_neg (by simp [hvxlan]), if_pos hipv4, egressSpec_applyL2Forward, hdr]

/-- **A dropped packet stays dropped** exactly when `l2_forward` does not send its
destination to a port: for every content of the tables and every packet, that the ACL or the
tunnel table has executed `drop` keeps the packet from all ports if and only if it is not
both denied by them and forwarded by `l2_forward`. -/
theorem denied_not_forwarded_iff (tables : Tables) (ingressPort : BitVec 9)
    (unspecified : Headers) (packet : List Bool) :
    (Dropped (process tables ingressPort unspecified packet) →
        ∀ port, ¬ ForwardedTo (process tables ingressPort unspecified packet) port) ↔
      ¬ (Denied tables (parse ingressPort unspecified packet).hdr ∧
        L2Forwards tables (parse ingressPort unspecified packet).hdr) := by
  unfold process
  generalize parse ingressPort unspecified packet = parsed
  have hdropped := dropped_ingress_iff tables (s := afterParser ingressPort parsed) rfl
  constructor
  · rintro hkept ⟨hdenied, port, hl2, hport⟩
    refine hkept (hdropped.mpr hdenied) port ⟨?_, hport⟩
    rw [egressSpec_of_denied (s := afterParser ingressPort parsed) hdenied]
    simp only [afterParser, hl2]
  · rintro hnot hout port ⟨hspec, hport⟩
    have hdenied : Denied tables parsed.hdr := hdropped.mp hout
    refine hnot ⟨hdenied, ?_⟩
    rw [egressSpec_of_denied (s := afterParser ingressPort parsed) hdenied] at hspec
    simp only [afterParser] at hspec
    cases hl2 : tables.l2Forward.lookup parsed.hdr.ethernet.fields.dstAddr with
    | forward p =>
        rw [hl2] at hspec
        exact ⟨port, by rw [hl2, ← show p = port from hspec], hport⟩
    | drop =>
        rw [hl2] at hspec
        exact absurd hspec.symm hport

/-- Tables with one entry to deny all TCP, and one to forward a destination to port 1. -/
def denyTcp : Tables where
  l2Forward :=
    { entries := [(0x020000000001, .forward 1)]
      nodup := by simp
      length_le := by simp
      default_action := .drop }
  vxlanTunnel := { entries := [], nodup := by simp, length_le := by simp, default_action := .drop }
  acl :=
    { entries :=
        [{ srcAddr := 0, srcAddrMask := 0, dstAddr := 0, dstAddrMask := 0, protocol := 6
           dstPort := 0, dstPortMask := 0, priority := 1, action := .drop }]
      length_le := by simp }

def tcpEthernet : Ethernet where
  dstAddr := 0x020000000001
  srcAddr := 0x020000000002
  etherType := ETHERTYPE_IPV4

def tcpIpv4 : Ipv4 where
  version := 4
  ihl := 5
  diffserv := 0
  totalLen := 20
  identification := 0
  flags := 0
  fragOffset := 0
  ttl := 64
  protocol := 6
  hdrChecksum := 0
  srcAddr := 0x0a000001
  dstAddr := 0x0a000002

/-- Headers of zeros. -/
def blankHeaders : Headers where
  ethernet := ⟨false, ⟨0, 0, 0⟩⟩
  ipv4 := ⟨false, ⟨0, 0, 0, 0, 0, 0, 0, 0, 0, 0, 0, 0⟩⟩
  udp := ⟨false, ⟨0, 0, 0, 0⟩⟩
  vxlan := ⟨false, ⟨0, 0, 0, 0⟩⟩
  innerEthernet := ⟨false, ⟨0, 0, 0⟩⟩
  innerIpv4 := ⟨false, ⟨0, 0, 0, 0, 0, 0, 0, 0, 0, 0, 0, 0⟩⟩

def tcpPacket : List Bool := Ethernet.codec.put tcpEthernet ++ Ipv4.codec.put tcpIpv4

theorem parse_tcpPacket : parse 2 blankHeaders tcpPacket =
    { packet := []
      hdr := { blankHeaders with ethernet := ⟨true, tcpEthernet⟩, ipv4 := ⟨true, tcpIpv4⟩ }
      custom := { ingressPort := 2, egressPort := 0, isVxlanDecapped := 0, tenantId := 0 }
      parserError := false } := by
  have hipv4 : Ipv4.codec.extract (Ipv4.codec.put tcpIpv4) = some (tcpIpv4, []) := by
    simpa using Codec.extract_put_append Ipv4.codec tcpIpv4 []
  have htype : tcpEthernet.etherType = ETHERTYPE_IPV4 := rfl
  have hproto : tcpIpv4.protocol ≠ IP_PROTO_UDP := by decide
  simp only [parse, parseEthernet, tcpPacket, Codec.extract_put_append, htype, if_true, parseIpv4,
    hipv4, if_neg hproto]
  rfl

/-- A TCP packet is dropped by the ACL and leaves through port 1. -/
theorem denied_tcp_forwarded :
    (parse 2 blankHeaders tcpPacket).parserError = false ∧
      Dropped (process denyTcp 2 blankHeaders tcpPacket) ∧
      ForwardedTo (process denyTcp 2 blankHeaders tcpPacket) 1 := by
  rw [process, parse_tcpPacket]
  refine ⟨rfl, .inl ?_, ?_, ?_⟩
  · decide
  · decide
  · decide

end FaultOracle.P4
