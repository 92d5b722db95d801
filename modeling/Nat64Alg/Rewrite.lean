import Nat64Alg.Received
import Nat64Alg.Translate

namespace Nat64Alg

open Lib

variable {σ : Type}

namespace Packet

section WithObuf

variable (p : Packet) (m : Mem)

@[simp] theorem withObuf_obuf_ : (p.withObuf m).obuf_ = m := rfl
@[simp] theorem withObuf_withObuf (n : Mem) : (p.withObuf m).withObuf n = p.withObuf n := rfl
@[simp] theorem withObuf_self : p.withObuf p.obuf_ = p := rfl
@[simp] theorem withObuf_tcp_ : (p.withObuf m).tcp_ = p.tcp_ := rfl
@[simp] theorem withObuf_udp_ : (p.withObuf m).udp_ = p.udp_ := rfl
@[simp] theorem withObuf_transport : (p.withObuf m).transport = p.transport := rfl
@[simp] theorem withObuf_transport_len_ : (p.withObuf m).transport_len_ = p.transport_len_ := rfl
@[simp] theorem withObuf_ipVersionBefore_ : (p.withObuf m).ipVersionBefore_ = p.ipVersionBefore_ := rfl
@[simp] theorem withObuf_getIPVersion : (p.withObuf m).getIPVersion = p.getIPVersion := rfl

theorem withObuf_daddr6 (h : p.ip6_ = some .ibuf) : (p.withObuf m).daddr6 = p.daddr6 := by
  simp [daddr6, ip6Mem, withObuf, h, mem]

theorem withObuf_saddr4 (h : p.ip_ = some .ibuf) : (p.withObuf m).saddr4 = p.saddr4 := by
  simp [saddr4, ipMem, withObuf, h, mem]

end WithObuf

/-- `q` is `p` with some bytes of `obuf_` rewritten, none of them at a place where `keep` holds. -/
def Touched (keep : Int → Prop) (p q : Packet) : Prop :=
  ∃ m, q = p.withObuf m ∧ ∀ i, keep i → m i = p.obuf_ i

theorem Touched.refl (keep : Int → Prop) (p : Packet) : Touched keep p p := ⟨p.obuf_, rfl, fun _ _ ↦ rfl⟩

theorem Touched.trans {keep : Int → Prop} {p q r : Packet} (h : Touched keep p q) (h' : Touched keep q r) :
    Touched keep p r := by
  obtain ⟨m, rfl, hm⟩ := h
  obtain ⟨n, rfl, hn⟩ := h'
  exact ⟨n, rfl, fun i hi ↦ (hn i hi).trans (hm i hi)⟩

theorem Touched.tcp_ {keep : Int → Prop} {p q : Packet} (h : Touched keep p q) : q.tcp_ = p.tcp_ := by
  obtain ⟨m, rfl, -⟩ := h
  rfl

theorem Touched.udp_ {keep : Int → Prop} {p q : Packet} (h : Touched keep p q) : q.udp_ = p.udp_ := by
  obtain ⟨m, rfl, -⟩ := h
  rfl

theorem Touched.ipVersionBefore_ {keep : Int → Prop} {p q : Packet} (h : Touched keep p q) :
    q.ipVersionBefore_ = p.ipVersionBefore_ := by
  obtain ⟨m, rfl, -⟩ := h
  rfl

theorem touched_store {keep : Int → Prop} (p : Packet) {a : Int} {bs : List UInt8}
    (h : ∀ i, keep i → i < a ∨ a + bs.length ≤ i) : Touched keep p (p.withObuf (p.obuf_.store a bs)) :=
  ⟨_, rfl, fun i hi ↦ p.obuf_.store_outside (h i hi)⟩

theorem touched_clearCheck {keep : Int → Prop} (p : Packet) (at_ : Option Int) (field : Int)
    (h : ∀ a, at_ = some a → ∀ i, keep i → i < a + field ∨ a + field + 2 ≤ i) :
    Touched keep p (p.clearCheck at_ field) := by
  cases at_ with
  | none => exact Touched.refl keep p
  | some a => exact touched_store p (h a rfl)

theorem touched_setCheck {keep : Int → Prop} (p : Packet) (at_ : Option Int) (field : Int) (protocol : UInt8)
    (h : ∀ a, at_ = some a → ∀ i, keep i → i < a + field ∨ a + field + 2 ≤ i) :
    Touched keep p (p.setCheck at_ field protocol) := by
  cases at_ with
  | none => exact Touched.refl keep p
  | some a => exact touched_store p (h a rfl)

theorem touched_updateChecksum {keep : Int → Prop} (p : Packet)
    (htcp : ∀ a, p.tcp_ = some a → ∀ i, keep i → i < a + 16 ∨ a + 16 + 2 ≤ i)
    (hudp : ∀ a, p.udp_ = some a → ∀ i, keep i → i < a + 6 ∨ a + 6 + 2 ≤ i)
    (hip : p.ipVersionBefore_ = 6 → ∀ i, keep i → i < 10 ∨ 10 + 2 ≤ i) :
    Touched keep p p.updateChecksum := by
  unfold updateChecksum
  dsimp only
  have h₁ := touched_clearCheck p p.tcp_ 16 htcp
  have h₂ : Touched keep p ((p.clearCheck p.tcp_ 16).clearCheck p.udp_ 6) :=
    h₁.trans (touched_clearCheck _ _ 6 hudp)
  generalize (p.clearCheck p.tcp_ 16).clearCheck p.udp_ 6 = q at h₂ ⊢
  have h₃ : Touched keep p (q.setCheck q.tcp_ 16 IPPROTO_TCP) :=
    h₂.trans (touched_setCheck _ _ 16 _ (by rw [h₂.tcp_]; exact htcp))
  generalize q.setCheck q.tcp_ 16 IPPROTO_TCP = r at h₃ ⊢
  have h₄ : Touched keep p (r.setCheck r.udp_ 6 IPPROTO_UDP) :=
    h₃.trans (touched_setCheck _ _ 6 _ (by rw [h₃.udp_]; exact hudp))
  generalize r.setCheck r.udp_ 6 IPPROTO_UDP = t at h₄ ⊢
  split
  case isTrue hv => exact h₄.trans (touched_store _ (hip (h₄.ipVersionBefore_ ▸ hv)))
  case isFalse => exact h₄

end Packet

theorem length_addrBytes (a : In6Addr) : (addrBytes a).length = 16 := rfl

theorem in6At_addrBytes (m : Mem) {a k : Int} {pre post : List UInt8} {v : In6Addr}
    (h : (pre.length : Int) = k) : Packet.in6At (m.store a (pre ++ (addrBytes v ++ post))) (a + k) = v := by
  rcases v with ⟨w₀, w₁, w₂, w₃⟩
  simp only [addrBytes, Packet.in6At, In6Addr.mk.injEq, List.append_assoc]
  refine ⟨Mem.ld32_store m h, ?_, ?_, ?_⟩
  · rw [← List.append_assoc, Int.add_assoc]
    exact Mem.ld32_store m (by simp; omega)
  · rw [← List.append_assoc, ← List.append_assoc, Int.add_assoc]
    exact Mem.ld32_store m (by simp; omega)
  · rw [← List.append_assoc, ← List.append_assoc, ← List.append_assoc, Int.add_assoc]
    exact Mem.ld32_store m (by simp; omega)

namespace NAT

variable {nat : NAT} {sm : StateManager σ} {p : Packet}

theorem length_make_ip4pkt (len : UInt16) (a b : IPv4Addr) (protocol : UInt8) :
    (make_ip4pkt len a b protocol).length = 20 := by simp [make_ip4pkt]

theorem length_make_ip6pkt (len : UInt16) (a b : IPv6Addr) (protocol : UInt8) :
    (make_ip6pkt len a b protocol).length = 40 := by simp [make_ip6pkt, length_addrBytes]

theorem make_ip4pkt_addrs (m : Mem) (len : UInt16) (a b : IPv4Addr) (protocol : UInt8) :
    (m.store 0 (make_ip4pkt len a b protocol)).ld32 12 = a.getInt ∧
      (m.store 0 (make_ip4pkt len a b protocol)).ld32 16 = b.getInt := by
  obtain ⟨front, hfront⟩ : ∃ front, front =
      [0x45, 0] ++ Mem.bytes16 (ntohs len) ++ [0, 0, 0, 0, 64, protocol, 0, 0] := ⟨_, rfl⟩
  have hs := @Mem.ld32_store m 0 12 front (Mem.bytes32 b.getInt) a.getInt (by simp [hfront])
  have hd := @Mem.ld32_store m 0 16 (front ++ Mem.bytes32 a.getInt) [] b.getInt (by simp [hfront])
  rw [hfront] at hs hd
  exact ⟨by simpa [make_ip4pkt] using hs, by simpa [make_ip4pkt] using hd⟩

theorem make_ip6pkt_addrs (m : Mem) (len : UInt16) (a b : IPv6Addr) (protocol : UInt8) :
    Packet.in6At (m.store 0 (make_ip6pkt len a b protocol)) 8 = a.getIn6Addr ∧
      Packet.in6At (m.store 0 (make_ip6pkt len a b protocol)) 24 = b.getIn6Addr := by
  obtain ⟨front, hfront⟩ : ∃ front, front = [0x60, 0, 0, 0] ++ Mem.bytes16 (ntohs len) ++ [protocol, 64] :=
    ⟨_, rfl⟩
  have hs := @in6At_addrBytes m 0 8 front (addrBytes b.getIn6Addr) a.getIn6Addr (by simp [hfront])
  have hd := @in6At_addrBytes m 0 24 (front ++ addrBytes a.getIn6Addr) [] b.getIn6Addr
    (by simp [hfront, length_addrBytes])
  rw [hfront] at hs hd
  exact ⟨by simpa [make_ip6pkt] using hs, by simpa [make_ip6pkt] using hd⟩

theorem doIP_v6 (hv : p.ipVersionBefore_ = 6) (hip : p.ip6_ = some .ibuf) (ht : p.transport = some 20) :
    nat.doIP sm (nat.doDPort (nat.doSPort p)) =
      p.withObuf ((p.obuf_.st16 20 nat.ip4p_.getPort).store 0 (make_ip4pkt (UInt16.ofInt p.transport_len_)
        nat.ip4p_.getIP (StateManager.getServerAddr4 p.daddr6) (p.ibuf_ 6))) := by
  have hver : p.getIPVersion = 4 := by simp [Packet.getIPVersion, hv]
  have hs : nat.doSPort p = p.withObuf (p.obuf_.st16 20 nat.ip4p_.getPort) := by
    simp [doSPort, ht, hver, Packet.withObuf]
  have hd : nat.doDPort (nat.doSPort p) = nat.doSPort p := by simp [doDPort, hs, ht, hver]
  have hproto : (nat.doSPort p).ip6Mem 6 = p.ibuf_ 6 := by
    simp [hs, Packet.ip6Mem, Packet.withObuf, hip, Packet.mem]
  rw [hd, doIP, hproto, hs, Packet.withObuf_getIPVersion, if_pos hver, p.withObuf_daddr6 _ hip]
  rfl

theorem doIP_v4 (hv : p.ipVersionBefore_ = 4) (hip : p.ip_ = some .ibuf) (ht : p.transport = some 40) :
    nat.doIP sm (nat.doDPort (nat.doSPort p)) =
      p.withObuf ((p.obuf_.st16 42 nat.ip6p_.getPort).store 0 (make_ip6pkt (UInt16.ofInt p.transport_len_)
        (sm.getServerAddr6 p.saddr4) nat.ip6p_.getIP (p.ibuf_ 9))) := by
  have hver : p.getIPVersion = 6 := by simp [Packet.getIPVersion, hv]
  have hs : nat.doSPort p = p := by simp [doSPort, ht, hver]
  have hd : nat.doDPort (nat.doSPort p) = p.withObuf (p.obuf_.st16 42 nat.ip6p_.getPort) := by
    simp [doDPort, hs, ht, hver, Packet.withObuf]
  have hproto : (nat.doDPort (nat.doSPort p)).ipMem 9 = p.ibuf_ 9 := by
    simp [hd, Packet.ipMem, Packet.withObuf, hip, Packet.mem]
  rw [doIP, hproto, hd, Packet.withObuf_getIPVersion, if_neg (by omega), p.withObuf_saddr4 _ hip]
  rfl

/-- The packet sent for an IPv6 packet: the new endpoint is its source, the low
word of the old destination its destination, and the rest of the segment stays. -/
theorem rewrite_v6 {protocol : UInt8} (hu : p.Unpacked 40 20 protocol) (hv : p.ipVersionBefore_ = 6)
    (hip : p.ip6_ = some .ibuf) (ht : p.transport.isSome) :
    ∃ m, nat.rewrite sm p = p.withObuf m ∧ m.ld32 12 = nat.ip4p_.getIP.getInt ∧
      m.ld32 16 = p.daddr6.ip_.w₃ ∧ m.ld16 20 = nat.ip4p_.getPort ∧
      ∀ i, 22 ≤ i → (i < 20 + p.checkField ∨ 20 + p.checkField + 2 ≤ i) → m i = p.obuf_ i := by
  obtain ⟨htcp, hudp, ht⟩ := hu.check_tcp ht
  have hcf := p.checkField_ge
  have hi := @doIP_v6 _ nat sm _ hv hip ht
  generalize UInt16.ofInt p.transport_len_ = len, p.ibuf_ 6 = proto at hi
  obtain ⟨m, hm, hkeep⟩ := @Packet.touched_updateChecksum (fun i ↦ (i < 10 ∨ 10 + 2 ≤ i) ∧
    (i < 20 + p.checkField ∨ 20 + p.checkField + 2 ≤ i)) (nat.doIP sm (nat.doDPort (nat.doSPort p)))
    (fun a ha i hk ↦ by rw [hi] at ha; have := htcp a ha; omega)
    (fun a ha i hk ↦ by rw [hi] at ha; have := hudp a ha; omega) (fun _ i hk ↦ hk.1)
  rw [hi] at hm hkeep
  have haddrs := make_ip4pkt_addrs (p.obuf_.st16 20 nat.ip4p_.getPort) len nat.ip4p_.getIP
    (StateManager.getServerAddr4 p.daddr6) proto
  refine ⟨m, ?_, ?_, ?_, ?_, fun i h₁ h₂ ↦ ?_⟩
  · unfold rewrite finish
    rw [hi, hm, Packet.withObuf_withObuf]
  · exact (Mem.ld32_congr (fun i h₁ h₂ ↦ hkeep i ⟨by omega, by omega⟩)).trans haddrs.1
  · exact (Mem.ld32_congr (fun i h₁ h₂ ↦ hkeep i ⟨by omega, by omega⟩)).trans haddrs.2
  · rw [Mem.ld16_congr (fun i h₁ h₂ ↦ hkeep i ⟨by omega, by omega⟩), Packet.withObuf_obuf_,
      Mem.ld16_store_disjoint _ (by simp [length_make_ip4pkt]), Mem.ld16_st16]
  · rw [hkeep i ⟨by omega, h₂⟩, Packet.withObuf_obuf_,
      Mem.store_outside _ (by rw [length_make_ip4pkt]; omega), Mem.st16,
      Mem.store_outside _ (by rw [Mem.length_bytes16]; omega)]

theorem rewrite_v4 {protocol : UInt8} (hu : p.Unpacked 20 40 protocol) (hv : p.ipVersionBefore_ = 4)
    (hip : p.ip_ = some .ibuf) (ht : p.transport.isSome) :
    ∃ m, nat.rewrite sm p = p.withObuf m ∧
      Packet.in6At m 8 = (sm.getServerAddr6 p.saddr4).ip_ ∧ Packet.in6At m 24 = nat.ip6p_.ip_.ip_ ∧
      m.ld16 42 = nat.ip6p_.getPort ∧
      ∀ i, 40 ≤ i → (i < 42 ∨ 44 ≤ i) → (i < 40 + p.checkField ∨ 40 + p.checkField + 2 ≤ i) →
        m i = p.obuf_ i := by
  obtain ⟨htcp, hudp, ht⟩ := hu.check_tcp ht
  have hcf := p.checkField_ge
  have hi := @doIP_v4 _ nat sm _ hv hip ht
  generalize UInt16.ofInt p.transport_len_ = len, p.ibuf_ 9 = proto at hi
  obtain ⟨m, hm, hkeep⟩ := @Packet.touched_updateChecksum (fun i ↦ i < 40 + p.checkField ∨ 40 + p.checkField + 2 ≤ i)
    (nat.doIP sm (nat.doDPort (nat.doSPort p)))
    (fun a ha i hk ↦ by rw [hi] at ha; have := htcp a ha; omega)
    (fun a ha i hk ↦ by rw [hi] at ha; have := hudp a ha; omega)
    (fun h ↦ by rw [hi, Packet.withObuf_ipVersionBefore_, hv] at h; cases h)
  rw [hi] at hm hkeep
  have haddrs := make_ip6pkt_addrs (p.obuf_.st16 42 nat.ip6p_.getPort) len (sm.getServerAddr6 p.saddr4)
    nat.ip6p_.getIP proto
  have hin6 : ∀ a, a + 16 ≤ 46 → Packet.in6At m a = Packet.in6At ((p.obuf_.st16 42 nat.ip6p_.getPort).store 0
      (make_ip6pkt len (sm.getServerAddr6 p.saddr4) nat.ip6p_.getIP proto)) a := by
    intro a ha
    have hw : ∀ b, b + 4 ≤ 46 → m.ld32 b = Mem.ld32 ((p.obuf_.st16 42 nat.ip6p_.getPort).store 0
        (make_ip6pkt len (sm.getServerAddr6 p.saddr4) nat.ip6p_.getIP proto)) b :=
      fun b hb ↦ Mem.ld32_congr (fun i h₁ h₂ ↦ hkeep i (by omega))
    simp only [Packet.in6At, hw a (by omega), hw (a + 4) (by omega), hw (a + 8) (by omega),
      hw (a + 12) (by omega)]
  refine ⟨m, ?_, ?_, ?_, ?_, fun i h₁ h₂ h₃ ↦ ?_⟩
  · unfold rewrite finish
    rw [hi, hm, Packet.withObuf_withObuf]
  · exact (hin6 8 (by omega)).trans haddrs.1
  · exact (hin6 24 (by omega)).trans haddrs.2
  · rw [Mem.ld16_congr (fun i h₁ h₂ ↦ hkeep i (by omega)), Packet.withObuf_obuf_,
      Mem.ld16_store_disjoint _ (by simp [length_make_ip6pkt]), Mem.ld16_st16]
  · rw [hkeep i h₃, Packet.withObuf_obuf_, Mem.store_outside _ (by rw [length_make_ip6pkt]; omega),
      Mem.st16, Mem.store_outside _ (by rw [Mem.length_bytes16]; omega)]

end NAT

end Nat64Alg
