import Nat64Alg.Tun

namespace Nat64Alg

open Lib

/-- What each reader gets: the result of a `read` from the tun device, the protocol and
payload of a queued packet, or the length and bytes of a record of a capture. -/
inductive Reading
  | tun (buf : Mem) (rv : Int)
  | nfqueue (hw_protocol : UInt16) (ibuf : Mem) (len : Int)
  | analyze (buf : Mem) (incl_len : UInt32)

/-- What the reader hands over to `setIbuf`, if it does: the protocol, the bytes and their number. -/
def Reading.handed : Reading → Option (UInt16 × Mem × Int)
  | .tun buf rv => if rv < 0 then none else some (tunProtocol buf, buf, rv)
  | .nfqueue hw_protocol ibuf len => some (hw_protocol, ibuf, len)
  | .analyze buf incl_len =>
    if buf 12 != 0x08 || buf 13 != 0 then none
    else some (ETHERTYPE_IP, fun i ↦ buf (14 + i), (incl_len - 14).toInt32.toInt)

namespace Packet

/-- A transport header, once found, is there whole, options included. -/
def HeaderInside (p : Packet) : Prop :=
  (p.isTCP = true → 20 ≤ p.transport_len_ ∧ p.getTransportHeaderLen ≤ p.transport_len_) ∧
    (p.isUDP = true → 8 ≤ p.transport_len_ ∧ p.getTransportHeaderLen ≤ p.transport_len_)

end Packet

/-- Nothing is copied out of bounds for the packet, and its transport header is inside. -/
def Reading.Safe (junk : Packet) (r : Reading) : Prop :=
  ∀ hw buf len, r.handed = some (hw, buf, len) → ∃ p, Packet.receive junk hw buf len = .ok p ∧ p.HeaderInside

/-- The transport header at `a` is inside the `len` bytes. -/
def TransportFits (m : Mem) (a len : Int) (protocol : UInt8) : Prop :=
  (protocol = IPPROTO_TCP → a + 20 ≤ len ∧ a + Packet.th_off m a * 4 ≤ len) ∧ (protocol = IPPROTO_UDP → a + 8 ≤ len)

/-- The packet is long enough for its headers, and short enough for its buffers. -/
def PacketFits (hw : UInt16) (m : Mem) (len : Int) : Prop :=
  if hw = ETHERTYPE_IPV6 then 40 ≤ len ∧ len ≤ BUF_LEN ∧ TransportFits m 40 len (m 6)
  else if hw = ETHERTYPE_IP then 20 ≤ len ∧ len + 20 ≤ BUF_LEN ∧ TransportFits m 20 len (m 9)
  else 0 ≤ len ∧ len ≤ BUF_LEN

instance (m : Mem) (a len : Int) (protocol : UInt8) : Decidable (TransportFits m a len protocol) :=
  inferInstanceAs (Decidable (_ ∧ _))

instance (hw : UInt16) (m : Mem) (len : Int) : Decidable (PacketFits hw m len) :=
  inferInstanceAs (Decidable (ite _ _ _))

def Reading.Fits (r : Reading) : Prop := ∀ hw buf len, r.handed = some (hw, buf, len) → PacketFits hw buf len

namespace Packet

theorem Unpacked.headerInside_iff {p : Packet} {old ip_len : Int} {protocol : UInt8}
    (hu : p.Unpacked old ip_len protocol) : p.HeaderInside ↔ TransportFits p.ibuf_ old p.ibuf_len_ protocol := by
  have hfits := hu.fits
  have hlen := hu.transport_len_
  have h₁ := hu.tcp_
  have h₂ := hu.udp_
  unfold HeaderInside TransportFits getTransportHeaderLen isTCP isUDP
  by_cases htcp : protocol = IPPROTO_TCP
  · have hudp : ¬protocol = IPPROTO_UDP := by rw [htcp]; decide
    have hoff : old + 20 ≤ p.ibuf_len_ → th_off p.obuf_ ip_len = th_off p.ibuf_ old := by
      intro h
      rw [th_off, th_off, hu.copied 12 (by omega) (by omega)]
    rw [if_pos htcp] at h₁
    rw [if_neg hudp] at h₂
    simp only [h₁, h₂, htcp, show ¬IPPROTO_TCP = IPPROTO_UDP by decide, Option.isSome_some, Option.isSome_none,
      forall_const, false_imp_iff, Bool.false_eq_true, and_true, hlen]
    constructor
    · rintro ⟨h₃, h₄⟩
      rw [hoff (by omega)] at h₄
      omega
    · rintro ⟨h₃, h₄⟩
      rw [hoff h₃]
      omega
  rw [if_neg htcp] at h₁
  by_cases hudp : protocol = IPPROTO_UDP
  · rw [if_pos hudp] at h₂
    simp only [h₁, h₂, hudp, Option.isSome_some, Option.isSome_none, forall_const, false_imp_iff,
      Bool.false_eq_true, true_and, hlen]
    simp only [show ¬IPPROTO_UDP = IPPROTO_TCP by decide, false_imp_iff, true_and]
    omega
  · rw [if_neg hudp] at h₂
    simp [h₁, h₂, htcp, hudp]

theorem transportFits_congr {m m' : Mem} {a len : Int} {protocol : UInt8}
    (h : a + 20 ≤ len → m (a + 12) = m' (a + 12)) :
    TransportFits m a len protocol ↔ TransportFits m' a len protocol := by
  unfold TransportFits th_off
  by_cases hlen : a + 20 ≤ len
  · rw [h hlen]
  · simp only [hlen, false_and]

theorem receive_safe_iff (junk : Packet) (hw : UInt16) (buf : Mem) (len : Int) :
    (∃ p, receive junk hw buf len = .ok p ∧ p.HeaderInside) ↔ PacketFits hw buf len := by
  unfold PacketFits
  by_cases h₆ : hw = ETHERTYPE_IPV6
  · subst h₆
    have hok := @receive_iff junk buf ETHERTYPE_IPV6 _ _ len (.inl ⟨rfl, rfl, rfl⟩)
    rw [if_pos rfl]
    have hinside : ∀ p, receive junk ETHERTYPE_IPV6 buf len = .ok p →
        (p.HeaderInside ↔ TransportFits buf 40 len (buf 6)) := by
      intro p hp
      obtain ⟨hlen, -, hcopy⟩ := receive_ibuf hp
      have hold := (hok.mp ⟨p, hp⟩).1
      rw [(receive_v6 hp).1.headerInside_iff, hlen, hcopy 6 (by omega) (by omega)]
      exact transportFits_congr fun h ↦ hcopy _ (by omega) (by omega)
    constructor
    · rintro ⟨p, hp, hin⟩
      obtain ⟨h₁, h₂, -⟩ := hok.mp ⟨p, hp⟩
      exact ⟨h₁, h₂, (hinside p hp).mp hin⟩
    · rintro ⟨h₁, h₂, h₃⟩
      obtain ⟨p, hp⟩ := hok.mpr ⟨h₁, h₂, by omega⟩
      exact ⟨p, hp, (hinside p hp).mpr h₃⟩
  rw [if_neg h₆]
  by_cases h₄ : hw = ETHERTYPE_IP
  · subst h₄
    have hok := @receive_iff junk buf ETHERTYPE_IP _ _ len (.inr ⟨rfl, rfl, rfl⟩)
    rw [if_pos rfl]
    have hinside : ∀ p, receive junk ETHERTYPE_IP buf len = .ok p →
        (p.HeaderInside ↔ TransportFits buf 20 len (buf 9)) := by
      intro p hp
      obtain ⟨hlen, -, hcopy⟩ := receive_ibuf hp
      have hold := (hok.mp ⟨p, hp⟩).1
      rw [(receive_v4 hp).1.headerInside_iff, hlen, hcopy 9 (by omega) (by omega)]
      exact transportFits_congr fun h ↦ hcopy _ (by omega) (by omega)
    constructor
    · rintro ⟨p, hp, hin⟩
      obtain ⟨h₁, -, h₂⟩ := hok.mp ⟨p, hp⟩
      exact ⟨h₁, by omega, (hinside p hp).mp hin⟩
    · rintro ⟨h₁, h₂, h₃⟩
      obtain ⟨p, hp⟩ := hok.mpr ⟨h₁, by omega, by omega⟩
      exact ⟨p, hp, (hinside p hp).mpr h₃⟩
  rw [if_neg h₄]
  have hrec : ∀ q, (new junk hw).setIbuf buf len = .ok q → receive junk hw buf len = .ok q := by
    intro q hq
    unfold receive unpack
    rw [hq]
    dsimp only
    rw [(setIbuf_ok hq).2.1, if_neg (by exact h₆), if_neg (by exact h₄)]
  constructor
  · rintro ⟨p, hp, -⟩
    exact (receive_ibuf hp).2.1
  · intro h
    obtain ⟨q, hq⟩ := setIbuf_iff (p := new junk hw).mpr h
    have htcp : q.tcp_ = none := (setIbuf_ok hq).2.2.1
    have hudp : q.udp_ = none := (setIbuf_ok hq).2.2.2
    exact ⟨q, hrec q hq, by simp [HeaderInside, isTCP, isUDP, htcp, hudp]⟩

end Packet

/-- Whatever a reader gets, its packet is read and its header used inside the buffers exactly
when the packet is long enough for its headers and short enough for the new header. -/
theorem reading_safe_iff (junk : Packet) (r : Reading) : r.Safe junk ↔ r.Fits := by
  unfold Reading.Safe Reading.Fits
  simp only [Packet.receive_safe_iff]

theorem not_safe {junk : Packet} {r : Reading} {hw : UInt16} {buf : Mem} {len : Int}
    (hr : r.handed = some (hw, buf, len)) (h : ¬PacketFits hw buf len) : ¬r.Safe junk :=
  fun hs ↦ h ((Packet.receive_safe_iff junk hw buf len).mp (hs hw buf len hr))

/-- One byte from the tun device, no payload from the queue, a record shorter than its link
header, a TCP header cut off, one that claims more than there is, and an IPv4 packet too long
for the longer header. -/
theorem reading_unsafe : ¬Reading.Safe .blank (.tun (fun _ ↦ 0x60) 1) ∧
    ¬Reading.Safe .blank (.nfqueue ETHERTYPE_IPV6 (fun _ ↦ 0) (-1)) ∧
    ¬Reading.Safe .blank (.analyze (fun i ↦ if i = 12 then 8 else 0) 13) ∧
    ¬Reading.Safe .blank (.tun (fun i ↦ if i = 0 then 0x60 else 6) 59) ∧
    ¬Reading.Safe .blank (.tun (fun i ↦ if i = 0 then 0x60 else if i = 6 then 6 else 0xff) 60) ∧
    ¬Reading.Safe .blank (.nfqueue ETHERTYPE_IP (fun _ ↦ 0) 65535) :=
  ⟨not_safe rfl (by decide), not_safe rfl (by decide), not_safe rfl (by decide), not_safe rfl (by decide),
    not_safe rfl (by decide), not_safe rfl (by decide)⟩

end Nat64Alg
