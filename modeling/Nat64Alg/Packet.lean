import Nat64Alg.State

namespace Nat64Alg

open Lib

def BUF_LEN : Int := 65536

def ETHERTYPE_IP : UInt16 := 0x0800
def ETHERTYPE_IPV6 : UInt16 := 0x86DD
def IPPROTO_TCP : UInt8 := 6
def IPPROTO_UDP : UInt8 := 17

/-- The 16-bit words of a buffer added up, the odd last byte as a word of its own. -/
def sumWords (m : Mem) (a : Int) : ℕ → UInt32 → UInt32
  | n + 2, sum =>
    let sum := sum + (m.ld16 a).toUInt32
    sumWords m (a + 2) n
      (if (sum &&& (0x80000000 : UInt32)) != 0 then (sum &&& (0xFFFF : UInt32)) + (sum >>> 16) else sum)
  | 1, sum => sum + (m a).toUInt32
  | 0, sum => sum

def sumAddrs (src : Mem) (s : Int) (dst : Mem) (d : Int) : ℕ → UInt32 → UInt32
  | n + 1, sum => sumAddrs src (s + 2) dst (d + 2) n
      (sum + (src.ld16 s).toUInt32 + (dst.ld16 d).toUInt32)
  | 0, sum => sum

theorem toNat_carry (sum : UInt32) :
    ((sum &&& (0xFFFF : UInt32)) + (sum >>> 16)).toNat = sum.toNat % 65536 + sum.toNat / 65536 := by
  have hs := sum.toNat_lt
  have hmod : sum.toNat &&& 65535 = sum.toNat % 2 ^ 16 := Nat.and_two_pow_sub_one_eq_mod _ 16
  have hdiv : sum.toNat >>> 16 = sum.toNat / 2 ^ 16 := Nat.shiftRight_eq_div_pow _ _
  simp only [UInt32.toNat_shiftRight, UInt32.toNat_add, UInt32.toNat_and, UInt32.reduceToNat,
    Nat.reduceMod, hmod, hdiv]
  omega

theorem carry_eq_zero_iff (sum : UInt32) : sum >>> 16 = 0 ↔ sum.toNat < 65536 := by
  have hdiv : sum.toNat >>> 16 = sum.toNat / 2 ^ 16 := Nat.shiftRight_eq_div_pow _ _
  rw [← UInt32.toNat_inj]
  simp only [UInt32.toNat_shiftRight, UInt32.reduceToNat, Nat.reduceMod, hdiv]
  omega

theorem carry_lt {sum : UInt32} (h : ¬(sum >>> 16) = 0) :
    ((sum &&& (0xFFFF : UInt32)) + (sum >>> 16)).toNat < sum.toNat := by
  rw [carry_eq_zero_iff] at h
  rw [toNat_carry]
  omega

def foldCarries (sum : UInt32) : UInt32 :=
  if sum >>> 16 = 0 then sum else foldCarries ((sum &&& (0xFFFF : UInt32)) + (sum >>> 16))
termination_by sum.toNat
decreasing_by exact carry_lt ‹_›

/-- The checksum of a transport segment and its pseudo-header. `addrlen` is in words. -/
def tcp_checksum (m : Mem) (a : Int) (tcplen : ℕ) (src : Mem) (s : Int) (dst : Mem) (d : Int)
    (addrlen : ℕ) (protocol : UInt8) : UInt16 :=
  let sum := sumAddrs src s dst d addrlen (sumWords m a tcplen 0)
  let sum := sum + (ntohs protocol.toUInt16).toUInt32
  let sum := sum + (ntohs (UInt16.ofNat tcplen)).toUInt32
  ~~~(foldCarries sum).toUInt16

def ip_checksum (m : Mem) (a : Int) (iplen : ℕ) : UInt16 :=
  ~~~(foldCarries (sumWords m a iplen 0)).toUInt16

inductive Side
  | ibuf
  | obuf
deriving DecidableEq, Repr

/-- Header pointers into `obuf_` and `ibuf_` are offsets, absent while null or never set. -/
structure Packet where
  hw_protocol : UInt16
  ibuf_ : Mem
  ibuf_len_ : Int
  obuf_ : Mem
  port_t : UInt32
  obuf_len_ : Int
  transport_len_ : Int
  ip_len_ : Int
  ipVersionBefore_ : Int
  ip_ : Option Side
  ip6_ : Option Side
  tcp_ : Option Int
  tcp_old_ : Option Int
  udp_ : Option Int
  udp_old_ : Option Int
  nxt_seq_ : UInt32
  cur_seq_ : UInt32

namespace Packet

variable {σ : Type}

/-- The constructor nulls the transport pointers and leaves the rest as memory had it. -/
def new (junk : Packet) (hw_protocol : UInt16) : Packet :=
  { junk with
    hw_protocol := hw_protocol
    ip_ := none
    ip6_ := none
    tcp_ := none
    udp_ := none }

def setIbuf (p : Packet) (ibuf : Mem) (len : Int) : Except Fault Packet :=
  if len < 0 ∨ BUF_LEN < len then .error .badCopy
  else .ok { p with ibuf_ := p.ibuf_.store 0 (ibuf.slice 0 len.toNat), ibuf_len_ := len }

def mem (p : Packet) : Side → Mem
  | .ibuf => p.ibuf_
  | .obuf => p.obuf_

def withObuf (p : Packet) (m : Mem) : Packet := { p with obuf_ := m }

/-- The memory behind `ip_`, and behind `ip6_`. -/
def ipMem (p : Packet) : Mem := p.mem (p.ip_.getD .obuf)
def ip6Mem (p : Packet) : Mem := p.mem (p.ip6_.getD .obuf)

def in6At (m : Mem) (a : Int) : In6Addr := ⟨m.ld32 a, m.ld32 (a + 4), m.ld32 (a + 8), m.ld32 (a + 12)⟩

def saddr4 (p : Packet) : IPv4Addr := ⟨p.ipMem.ld32 12⟩
def daddr4 (p : Packet) : IPv4Addr := ⟨p.ipMem.ld32 16⟩
def saddr6 (p : Packet) : IPv6Addr := ⟨in6At p.ip6Mem 8⟩
def daddr6 (p : Packet) : IPv6Addr := ⟨in6At p.ip6Mem 24⟩

def isTCP (p : Packet) : Bool := p.tcp_.isSome
def isUDP (p : Packet) : Bool := p.udp_.isSome

def getDest4 (p : Packet) : Except Fault IPv4Addr :=
  if p.ip_.isNone then .error .wildPointer else .ok p.daddr4

def getDest6 (p : Packet) : Except Fault IPv6Addr :=
  if p.ip6_.isNone then .error .wildPointer else .ok p.daddr6

def getIPVersion (p : Packet) : Int := if p.ipVersionBefore_ == 4 then 6 else 4

def getDEST (p : Packet) : DEST := if p.ipVersionBefore_ == 4 then .CLIENT else .SERVER

/-- Offset of the transport header in `obuf_`, TCP first. -/
def transport (p : Packet) : Option Int := p.tcp_.or p.udp_

def getSourcePort (p : Packet) : UInt16 := (p.transport.map (fun a ↦ p.obuf_.ld16 a)).getD 0
def getDestPort (p : Packet) : UInt16 := (p.transport.map (fun a ↦ p.obuf_.ld16 (a + 2))).getD 0

def th_off (m : Mem) (a : Int) : ℕ := (m (a + 12)).toNat / 16

def getTransportHeaderLen (p : Packet) : Int :=
  match p.tcp_, p.udp_ with
  | some a, _ => th_off p.obuf_ a * 4
  | none, some _ => 8
  | none, none => 0

def handleTransportLayer (p : Packet) (offset offset_old : Int) (protocol : UInt8) : Packet :=
  let p := { p with transport_len_ := p.obuf_len_ - offset }
  let port_t := (ntohs (p.obuf_.ld16 offset)).toUInt32 + (ntohs (p.obuf_.ld16 (offset + 2))).toUInt32
  if protocol = IPPROTO_TCP then
    let p := { p with tcp_ := some offset, tcp_old_ := some offset_old }
    let cur_seq := ntohl (p.obuf_.ld32 (offset + 4))
    { p with
      cur_seq_ := cur_seq
      nxt_seq_ := cur_seq + UInt32.ofInt p.transport_len_ - UInt32.ofInt p.getTransportHeaderLen
      port_t := port_t }
  else if protocol = IPPROTO_UDP then
    { p with udp_ := some offset, udp_old_ := some offset_old, port_t := port_t }
  else p

/-- The bytes after the old IP header are copied to where they stand after the new one. -/
def unpackAs (p : Packet) (protocol : UInt8) (ip_len_old ip_len : Int) : Except Fault Packet :=
  let n := p.ibuf_len_ - ip_len_old
  if n < 0 ∨ BUF_LEN < ip_len + n then .error .badCopy
  else
    let p := { p with
      ip_len_ := ip_len
      obuf_ := p.obuf_.store ip_len (p.ibuf_.slice ip_len_old n.toNat)
      obuf_len_ := n + ip_len }
    .ok (p.handleTransportLayer ip_len ip_len_old protocol)

def unpack (p : Packet) : Except Fault Packet :=
  if p.hw_protocol = ETHERTYPE_IPV6 then
    { p with ipVersionBefore_ := 6, ip6_ := some .ibuf, ip_ := some .obuf }.unpackAs (p.ibuf_ 6) 40 20
  else if p.hw_protocol = ETHERTYPE_IP then
    { p with ipVersionBefore_ := 4, ip_ := some .ibuf, ip6_ := some .obuf }.unpackAs (p.ibuf_ 9) 20 40
  else .ok p

def setTransportLen (p : Packet) (len : Int) : Packet :=
  let p := { p with transport_len_ := len, obuf_len_ := p.ip_len_ + len }
  match p.udp_ with
  | some a => { p with obuf_ := p.obuf_.st16 (a + 4) (ntohs (UInt16.ofInt len)) }
  | none => p

/-- The checksum of the segment at `a` over the addresses of the new IP header. -/
def checksumAt (p : Packet) (a : Int) (protocol : UInt8) : UInt16 :=
  let len := p.transport_len_.toNat
  if p.ipVersionBefore_ = 6 then
    tcp_checksum p.obuf_ a len p.ipMem 12 p.ipMem 16 2 protocol
  else tcp_checksum p.obuf_ a len p.ip6Mem 8 p.ip6Mem 24 8 protocol

def setCheck (p : Packet) (at_ : Option Int) (field : Int) (protocol : UInt8) : Packet :=
  match at_ with
  | some a => { p with obuf_ := p.obuf_.st16 (a + field) (p.checksumAt a protocol) }
  | none => p

def clearCheck (p : Packet) (at_ : Option Int) (field : Int) : Packet :=
  match at_ with
  | some a => { p with obuf_ := p.obuf_.st16 (a + field) 0 }
  | none => p

def updateChecksum (p : Packet) : Packet :=
  let p := (p.clearCheck p.tcp_ 16).clearCheck p.udp_ 6
  let p := p.setCheck p.tcp_ 16 IPPROTO_TCP
  let p := p.setCheck p.udp_ 6 IPPROTO_UDP
  if p.ipVersionBefore_ = 6 then
    -- `ip_` is the header at the front of `obuf_` here
    { p with obuf_ := p.obuf_.st16 10 (ip_checksum p.ipMem 0 (p.transport_len_ + 20).toNat) }
  else p

def getFlowAt (p : Packet) (sm : StateManager σ) (a : Int) : FlowPtr × StateManager σ :=
  let source := p.obuf_.ld16 a
  let dest := p.obuf_.ld16 (a + 2)
  if p.ipVersionBefore_ = 6 then (sm.getMapping6 ⟨p.saddr6, source⟩ p.daddr6, sm)
  else if sm.analysisMode then sm.doMapping44 ⟨p.daddr4, dest⟩ ⟨p.saddr4, source⟩
  else (sm.getMapping4 ⟨p.daddr4, dest⟩ p.saddr4, sm)

def getFlow (p : Packet) (sm : StateManager σ) : FlowPtr × StateManager σ :=
  match p.transport with
  | some a => p.getFlowAt sm a
  | none => (none, sm)

/-- The payload of the transport segment: what `content` is cut from. -/
def payload (p : Packet) : Text :=
  match p.transport with
  | some a => p.obuf_.slice (a + p.getTransportHeaderLen) (p.transport_len_ - p.getTransportHeaderLen).toNat
  | none => []

end Packet

end Nat64Alg
