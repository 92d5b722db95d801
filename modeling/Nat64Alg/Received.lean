import Nat64Alg.Packet

namespace Nat64Alg

open Lib

def READ_LEN : Int := 4096

namespace Packet

def receive (junk : Packet) (hw_protocol : UInt16) (buf : Mem) (len : Int) : Except Fault Packet :=
  match (new junk hw_protocol).setIbuf buf len with
  | .error e => .error e
  | .ok p => p.unpack

/-- The shape `unpack` gives a packet whose IP header was `old` bytes long and is to be `ip_len`. -/
structure Unpacked (p : Packet) (old ip_len : Int) (protocol : UInt8) : Prop where
  ip_len_ : p.ip_len_ = ip_len
  transport_len_ : p.transport_len_ = p.ibuf_len_ - old
  obuf_len_ : p.obuf_len_ = p.ibuf_len_ - old + ip_len
  fits : 0 ≤ p.ibuf_len_ - old
  copied : ∀ i, 0 ≤ i → i < p.ibuf_len_ - old → p.obuf_ (ip_len + i) = p.ibuf_ (old + i)
  tcp_ : p.tcp_ = if protocol = IPPROTO_TCP then some ip_len else none
  udp_ : p.udp_ = if protocol = IPPROTO_UDP then some ip_len else none
  tcp_old_ : p.tcp_.isSome → p.tcp_old_ = some old
  udp_old_ : p.udp_.isSome → p.udp_old_ = some old
  port_t : p.transport.isSome → p.port_t =
    (ntohs (p.obuf_.ld16 ip_len)).toUInt32 + (ntohs (p.obuf_.ld16 (ip_len + 2))).toUInt32

theorem unpackAs_unpacked {p q : Packet} {protocol : UInt8} {old ip_len : Int}
    (htcp : p.tcp_ = none) (hudp : p.udp_ = none) (h : p.unpackAs protocol old ip_len = .ok q) :
    q.Unpacked old ip_len protocol ∧ q.hw_protocol = p.hw_protocol ∧ q.ipVersionBefore_ = p.ipVersionBefore_ ∧
      q.ip_ = p.ip_ ∧ q.ip6_ = p.ip6_ ∧ q.ibuf_ = p.ibuf_ ∧ q.ibuf_len_ = p.ibuf_len_ := by
  unfold unpackAs at h
  dsimp only at h
  split at h
  · cases h
  case isFalse hn =>
    have hcopy : ∀ i, 0 ≤ i → i < p.ibuf_len_ - old →
        p.obuf_.store ip_len (p.ibuf_.slice old (p.ibuf_len_ - old).toNat) (ip_len + i) = p.ibuf_ (old + i) := by
      intro i h₀ h₁
      obtain ⟨k, rfl⟩ := Int.eq_ofNat_of_zero_le h₀
      rw [Mem.store_inside _ (by simp; omega)]
      simp [Mem.slice]
    cases h
    unfold handleTransportLayer
    dsimp only
    have hne : ¬(IPPROTO_UDP = IPPROTO_TCP) := by decide
    split
    case isTrue ht =>
      subst ht
      refine ⟨⟨rfl, by simp, rfl, by simp only; omega, hcopy, rfl, ?_, fun _ ↦ rfl, ?_, fun _ ↦ rfl⟩,
        rfl, rfl, rfl, rfl, rfl, rfl⟩
      · rw [hudp, if_neg (by decide)]
      · simp [hudp]
    case isFalse ht =>
      split
      case isTrue hu =>
        subst hu
        refine ⟨⟨rfl, by simp, rfl, by simp only; omega, hcopy, ?_, rfl, ?_, fun _ ↦ rfl, fun _ ↦ rfl⟩,
          rfl, rfl, rfl, rfl, rfl, rfl⟩
        · rw [htcp, if_neg (by decide)]
        · simp [htcp]
      case isFalse hu =>
        refine ⟨⟨rfl, by simp, rfl, by simp only; omega, hcopy, ?_, ?_, ?_, ?_, ?_⟩, rfl, rfl, rfl, rfl, rfl, rfl⟩
        · rw [htcp, if_neg ht]
        · rw [hudp, if_neg hu]
        · simp [htcp]
        · simp [hudp]
        · simp [transport, htcp, hudp]

/-- A packet as a reader hands it over: unpacked, with the bytes it was read from. -/
structure Received (p : Packet) (hw_protocol : UInt16) : Prop where
  source : ∃ junk buf, receive junk hw_protocol buf p.ibuf_len_ = .ok p
  short : p.ibuf_len_ ≤ READ_LEN

theorem setIbuf_ok {p q : Packet} {buf : Mem} {len : Int} (h : p.setIbuf buf len = .ok q) :
    q.ibuf_len_ = len ∧ q.hw_protocol = p.hw_protocol ∧ q.tcp_ = p.tcp_ ∧ q.udp_ = p.udp_ := by
  unfold setIbuf at h
  split at h
  · cases h
  · cases h
    exact ⟨rfl, rfl, rfl, rfl⟩

theorem unpack_v6 {p : Packet} (hw : p.hw_protocol = ETHERTYPE_IPV6) : p.unpack =
    { p with ipVersionBefore_ := 6, ip6_ := some .ibuf, ip_ := some .obuf }.unpackAs (p.ibuf_ 6) 40 20 :=
  if_pos hw

theorem unpack_v4 {p : Packet} (hw : p.hw_protocol = ETHERTYPE_IP) : p.unpack =
    { p with ipVersionBefore_ := 4, ip_ := some .ibuf, ip6_ := some .obuf }.unpackAs (p.ibuf_ 9) 20 40 := by
  unfold unpack
  rw [if_neg (by rw [hw]; decide), if_pos hw]

theorem receive_v6 {junk p : Packet} {buf : Mem} {len : Int}
    (h : receive junk ETHERTYPE_IPV6 buf len = .ok p) :
    p.Unpacked 40 20 (p.ibuf_ 6) ∧ p.hw_protocol = ETHERTYPE_IPV6 ∧ p.ipVersionBefore_ = 6 ∧
      p.ip_ = some .obuf ∧ p.ip6_ = some .ibuf := by
  unfold receive at h
  split at h
  · cases h
  case h_2 q hq =>
    obtain ⟨-, hw, htcp, hudp⟩ := setIbuf_ok hq
    have hw : q.hw_protocol = ETHERTYPE_IPV6 := hw
    rw [unpack_v6 hw] at h
    obtain ⟨hu, h₁, h₂, h₃, h₄, h₅, -⟩ := unpackAs_unpacked (by exact htcp) (by exact hudp) h
    exact ⟨by rwa [h₅], h₁.trans hw, h₂, h₃, h₄⟩

theorem receive_v4 {junk p : Packet} {buf : Mem} {len : Int}
    (h : receive junk ETHERTYPE_IP buf len = .ok p) :
    p.Unpacked 20 40 (p.ibuf_ 9) ∧ p.hw_protocol = ETHERTYPE_IP ∧ p.ipVersionBefore_ = 4 ∧
      p.ip_ = some .ibuf ∧ p.ip6_ = some .obuf := by
  unfold receive at h
  split at h
  · cases h
  case h_2 q hq =>
    obtain ⟨-, hw, htcp, hudp⟩ := setIbuf_ok hq
    have hw : q.hw_protocol = ETHERTYPE_IP := hw
    rw [unpack_v4 hw] at h
    obtain ⟨hu, h₁, h₂, h₃, h₄, h₅, -⟩ := unpackAs_unpacked (by exact htcp) (by exact hudp) h
    exact ⟨by rwa [h₅], h₁.trans hw, h₂, h₃, h₄⟩

def checkField (p : Packet) : Int := if p.isTCP then 16 else 6

theorem Unpacked.check_tcp {p : Packet} {old ip_len : Int} {protocol : UInt8}
    (hu : p.Unpacked old ip_len protocol) (ht : p.transport.isSome) :
    (∀ a, p.tcp_ = some a → a + 16 = ip_len + p.checkField) ∧
    (∀ a, p.udp_ = some a → a + 6 = ip_len + p.checkField) ∧ p.transport = some ip_len := by
  have h₁ := hu.tcp_
  have h₂ := hu.udp_
  unfold transport at ht ⊢
  unfold checkField isTCP
  by_cases htcp : protocol = IPPROTO_TCP
  · subst htcp
    rw [if_pos rfl] at h₁
    rw [if_neg (by decide)] at h₂
    simp [h₁, h₂]
  · rw [if_neg htcp] at h₁
    rw [h₁] at ht ⊢
    split at h₂
    · simp [h₂]
    · simp [h₂] at ht

theorem checkField_ge (p : Packet) : 6 ≤ p.checkField := by
  unfold checkField
  split <;> omega

/-- A transport header that is all there, in the `len` bytes of a packet. -/
def CompleteHeader (m : Mem) (a len : Int) (protocol : UInt8) : Prop :=
  (protocol = IPPROTO_TCP ∧ 5 ≤ th_off m a ∧ a + th_off m a * 4 ≤ len) ∨
    (protocol = IPPROTO_UDP ∧ a + 8 ≤ len)

/-- A TCP or UDP packet over IPv6 with no extension header. -/
structure In6 (p : Packet) : Prop extends p.Received ETHERTYPE_IPV6 where
  header : CompleteHeader p.ibuf_ 40 p.ibuf_len_ (p.ibuf_ 6)

structure In4 (p : Packet) : Prop extends p.Received ETHERTYPE_IP where
  ihl : p.ibuf_ 0 = 0x45
  unfragmented : p.ibuf_.ld16 6 &&& ntohs 0x3fff = 0
  header : CompleteHeader p.ibuf_ 20 p.ibuf_len_ (p.ibuf_ 9)

/-- What unpacking has to say about a packet with a complete transport header. -/
structure Ready (p : Packet) (old ip_len : Int) (protocol : UInt8) : Prop
    extends p.Unpacked old ip_len protocol where
  header : old + 8 ≤ p.ibuf_len_
  transport : p.transport = some ip_len
  isTCP_isUDP : (p.isTCP || p.isUDP) = true
  source : p.getSourcePort = p.ibuf_.ld16 old
  dest : p.getDestPort = p.ibuf_.ld16 (old + 2)

theorem Unpacked.ready {p : Packet} {old ip_len : Int} {protocol : UInt8} (hu : p.Unpacked old ip_len protocol)
    (hc : CompleteHeader p.ibuf_ old p.ibuf_len_ protocol) : p.Ready old ip_len protocol := by
  have hlen : old + 8 ≤ p.ibuf_len_ := by
    rcases hc with ⟨-, h, h'⟩ | ⟨-, h⟩ <;> omega
  have hsome : p.transport.isSome := by
    rcases hc with ⟨rfl, -⟩ | ⟨rfl, -⟩
    · simp [Packet.transport, hu.tcp_]
    · simp [Packet.transport, hu.udp_]
  have ht := (hu.check_tcp hsome).2.2
  have hcopy : ∀ k, 0 ≤ k → k + 2 ≤ 8 → p.obuf_.ld16 (ip_len + k) = p.ibuf_.ld16 (old + k) := by
    intro k h₀ h₁
    refine Mem.ld16_moved fun i hi hi' ↦ ?_
    rw [Int.add_assoc, Int.add_assoc, hu.copied (k + i) (by omega) (by omega)]
  refine ⟨hu, hlen, ht, ?_, ?_, ?_⟩
  · revert hsome
    unfold Packet.transport isTCP isUDP
    cases p.tcp_ <;> cases p.udp_ <;> simp
  · simpa [getSourcePort, ht] using hcopy 0 (by omega) (by omega)
  · simpa [getDestPort, ht] using hcopy 2 (by omega) (by omega)

theorem In6.ready {p : Packet} (h : p.In6) : p.Ready 40 20 (p.ibuf_ 6) ∧ p.hw_protocol = ETHERTYPE_IPV6 ∧
    p.ipVersionBefore_ = 6 ∧ p.ip_ = some .obuf ∧ p.ip6_ = some .ibuf := by
  obtain ⟨_, _, hr⟩ := h.source
  obtain ⟨hu, hw, hv, hip, hip6⟩ := receive_v6 hr
  exact ⟨hu.ready h.header, hw, hv, hip, hip6⟩

theorem In4.ready {p : Packet} (h : p.In4) : p.Ready 20 40 (p.ibuf_ 9) ∧ p.hw_protocol = ETHERTYPE_IP ∧
    p.ipVersionBefore_ = 4 ∧ p.ip_ = some .ibuf ∧ p.ip6_ = some .obuf := by
  obtain ⟨_, _, hr⟩ := h.source
  obtain ⟨hu, hw, hv, hip, hip6⟩ := receive_v4 hr
  exact ⟨hu.ready h.header, hw, hv, hip, hip6⟩

theorem handleTransportLayer_ibuf (p : Packet) (offset offset_old : Int) (protocol : UInt8) :
    (p.handleTransportLayer offset offset_old protocol).ibuf_len_ = p.ibuf_len_ ∧
      (p.handleTransportLayer offset offset_old protocol).ibuf_ = p.ibuf_ := by
  unfold handleTransportLayer
  dsimp only
  split
  · exact ⟨rfl, rfl⟩
  · split <;> exact ⟨rfl, rfl⟩

theorem unpackAs_iff {p : Packet} {protocol : UInt8} {old ip_len : Int} :
    (∃ q, p.unpackAs protocol old ip_len = .ok q) ↔
      old ≤ p.ibuf_len_ ∧ ip_len + (p.ibuf_len_ - old) ≤ BUF_LEN := by
  unfold unpackAs
  dsimp only
  split
  case isTrue h => exact ⟨fun ⟨_, hq⟩ ↦ (nomatch hq), fun _ ↦ by omega⟩
  case isFalse h => exact ⟨fun _ ↦ by omega, fun _ ↦ ⟨_, rfl⟩⟩

theorem unpackAs_ibuf {p q : Packet} {protocol : UInt8} {old ip_len : Int}
    (h : p.unpackAs protocol old ip_len = .ok q) : q.ibuf_len_ = p.ibuf_len_ ∧ q.ibuf_ = p.ibuf_ := by
  unfold unpackAs at h
  dsimp only at h
  split at h
  · cases h
  · cases h
    exact handleTransportLayer_ibuf _ _ _ _

theorem setIbuf_iff {p : Packet} {buf : Mem} {len : Int} :
    (∃ q, p.setIbuf buf len = .ok q) ↔ 0 ≤ len ∧ len ≤ BUF_LEN := by
  unfold setIbuf
  split
  case isTrue h => exact ⟨fun ⟨_, hq⟩ ↦ (nomatch hq), fun _ ↦ by omega⟩
  case isFalse h => exact ⟨fun _ ↦ by omega, fun _ ↦ ⟨_, rfl⟩⟩

theorem setIbuf_copied {p q : Packet} {buf : Mem} {len : Int} (h : p.setIbuf buf len = .ok q) :
    ∀ i, 0 ≤ i → i < len → q.ibuf_ i = buf i := by
  intro i h₀ h₁
  unfold setIbuf at h
  split at h
  · cases h
  · cases h
    obtain ⟨k, rfl⟩ := Int.eq_ofNat_of_zero_le h₀
    have h := @Lib.Mem.store_inside p.ibuf_ 0 (buf.slice 0 len.toNat) k (by simp; omega)
    simpa [Mem.slice] using h

theorem unpack_iff {p : Packet} {old ip_len : Int}
    (hhw : p.hw_protocol = ETHERTYPE_IPV6 ∧ old = 40 ∧ ip_len = 20 ∨
      p.hw_protocol = ETHERTYPE_IP ∧ old = 20 ∧ ip_len = 40) :
    (∃ q, p.unpack = .ok q) ↔ old ≤ p.ibuf_len_ ∧ ip_len + (p.ibuf_len_ - old) ≤ BUF_LEN := by
  rcases hhw with ⟨hw, rfl, rfl⟩ | ⟨hw, rfl, rfl⟩
  · rw [unpack_v6 hw, unpackAs_iff]
  · rw [unpack_v4 hw, unpackAs_iff]

theorem unpack_ibuf {p q : Packet} (h : p.unpack = .ok q) :
    q.ibuf_len_ = p.ibuf_len_ ∧ q.ibuf_ = p.ibuf_ := by
  unfold unpack at h
  split at h
  · have := unpackAs_ibuf h
    exact this
  · split at h
    · have := unpackAs_ibuf h
      exact this
    · cases h
      exact ⟨rfl, rfl⟩

theorem receive_ibuf {junk p : Packet} {hw_protocol : UInt16} {buf : Mem} {len : Int}
    (h : receive junk hw_protocol buf len = .ok p) :
    p.ibuf_len_ = len ∧ (0 ≤ len ∧ len ≤ BUF_LEN) ∧ ∀ i, 0 ≤ i → i < len → p.ibuf_ i = buf i := by
  unfold receive at h
  split at h
  · cases h
  case h_2 q hq =>
    obtain ⟨h₁, h₂⟩ := unpack_ibuf h
    rw [h₁, h₂]
    exact ⟨(setIbuf_ok hq).1, setIbuf_iff.mp ⟨q, hq⟩, setIbuf_copied hq⟩

theorem receive_iff (junk : Packet) (buf : Mem) {hw_protocol : UInt16} {old ip_len len : Int}
    (hhw : hw_protocol = ETHERTYPE_IPV6 ∧ old = 40 ∧ ip_len = 20 ∨
      hw_protocol = ETHERTYPE_IP ∧ old = 20 ∧ ip_len = 40) :
    (∃ p, receive junk hw_protocol buf len = .ok p) ↔
      old ≤ len ∧ len ≤ BUF_LEN ∧ ip_len + (len - old) ≤ BUF_LEN := by
  have hset := @setIbuf_iff (new junk hw_protocol) buf len
  unfold receive
  constructor
  · rintro ⟨p, h⟩
    split at h
    · cases h
    case h_2 q hq =>
      obtain ⟨hlen, hw, -⟩ := setIbuf_ok hq
      have := (unpack_iff (p := q) (by rw [hw]; exact hhw)).mp ⟨p, h⟩
      rw [hlen] at this
      exact ⟨this.1, (hset.mp ⟨q, hq⟩).2, this.2⟩
  · rintro ⟨hold, hlen, hroom⟩
    obtain ⟨q, hq⟩ := hset.mpr ⟨by omega, hlen⟩
    rw [hq]
    obtain ⟨hlq, hw, -⟩ := setIbuf_ok hq
    exact (unpack_iff (p := q) (by rw [hw]; exact hhw)).mpr (by rw [hlq]; exact ⟨hold, hroom⟩)

theorem receive_ok (junk : Packet) (buf : Mem) {hw_protocol : UInt16} {old len : Int}
    (hhw : hw_protocol = ETHERTYPE_IPV6 ∧ old = 40 ∨ hw_protocol = ETHERTYPE_IP ∧ old = 20)
    (hold : old ≤ len) (hlen : len ≤ READ_LEN) :
    ∃ p, receive junk hw_protocol buf len = .ok p ∧ p.ibuf_len_ = len ∧
      ∀ i, 0 ≤ i → i < len → p.ibuf_ i = buf i := by
  unfold READ_LEN at hlen
  have hiff := @receive_iff junk buf hw_protocol old (60 - old) len (by
    rcases hhw with ⟨h, rfl⟩ | ⟨h, rfl⟩ <;> simp [h])
  obtain ⟨p, hp⟩ := hiff.mpr (by unfold BUF_LEN; omega)
  obtain ⟨h₁, -, h₂⟩ := receive_ibuf hp
  exact ⟨p, hp, h₁, h₂⟩

def blank : Packet :=
  ⟨0, fun _ ↦ 0, 0, fun _ ↦ 0, 0, 0, 0, 0, 0, none, none, none, none, none, none, 0, 0⟩

end Packet

end Nat64Alg
