import Nat64Alg.Outcomes
import Nat64Alg.Sessions

namespace Nat64Alg

open Lib StateManager

variable {σ : Type}

def T : ℕ := 4

/-- The protocol read off the first byte of a packet from the tun device. -/
def tunProtocol (buf : Mem) : UInt16 := if buf 0 = 0x60 then ETHERTYPE_IPV6 else ETHERTYPE_IP

structure Queued (σ : Type) where
  tid : Int
  pkt : Packet
  sm : StateManager σ

/-- The worker of the packet's flow, or of its ports while the flow has none. -/
def tunQueue (sm : StateManager σ) (p : Packet) : Queued σ :=
  let r := p.getFlow sm
  let tid := match r.1 with
    | some f => if 0 ≤ (r.2.flowAt f).tid then (r.2.flowAt f).tid else p.port_t.toNat % T
    | none => p.port_t.toNat % T
  ⟨tid, p, r.2⟩

def tun_handle (sm : StateManager σ) (junk : Packet) (buf : Mem) (len : Int) : Except Fault (Queued σ) :=
  match Packet.receive junk (tunProtocol buf) buf len with
  | .error e => .error e
  | .ok p => .ok (tunQueue sm p)

namespace Packet

def withIbuf (p : Packet) (m : Mem) : Packet := { p with ibuf_ := m }

/-- Bytes that differ, if at all, in the version, the traffic class and the flow label. -/
def SameBut (m m' : Mem) : Prop := ∀ i, i < 0 ∨ 4 ≤ i → m i = m' i

theorem handleTransportLayer_withIbuf (p : Packet) (m : Mem) (offset offset_old : Int) (protocol : UInt8) :
    (p.withIbuf m).handleTransportLayer offset offset_old protocol =
      (p.handleTransportLayer offset offset_old protocol).withIbuf m := by
  unfold handleTransportLayer
  dsimp only [withIbuf]
  split
  · rfl
  · split <;> rfl

theorem unpack_withIbuf {p q : Packet} {m : Mem} (hw : p.hw_protocol = ETHERTYPE_IPV6) (hm : SameBut p.ibuf_ m)
    (h : p.unpack = .ok q) : (p.withIbuf m).unpack = .ok (q.withIbuf m) := by
  rw [unpack_v6 hw] at h
  rw [unpack_v6 (p := p.withIbuf m) hw]
  unfold unpackAs at h ⊢
  dsimp only at h ⊢
  split at h
  · cases h
  case isFalse hn =>
    cases h
    rw [if_neg (by exact hn), ← handleTransportLayer_withIbuf]
    have hslice : m.slice 40 (p.ibuf_len_ - 40).toNat = p.ibuf_.slice 40 (p.ibuf_len_ - 40).toNat :=
      Mem.slice_congr (fun i h _ ↦ (hm i (.inr (by omega))).symm)
    have hproto : (p.withIbuf m).ibuf_ 6 = p.ibuf_ 6 := (hm 6 (.inr (by omega))).symm
    rw [hproto]
    simp only [withIbuf, hslice]

theorem unpack_badCopy {p : Packet} (hw : p.hw_protocol = ETHERTYPE_IPV6) (h : ¬∃ q, p.unpack = .ok q) :
    p.unpack = .error .badCopy := by
  rw [unpack_v6 hw] at h ⊢
  unfold unpackAs at h ⊢
  dsimp only at h ⊢
  split
  · rfl
  case isFalse hn => exact absurd ⟨_, if_neg hn⟩ h

theorem receive_sameBut (junk : Packet) {buf buf' : Mem} {len : Int}
    (h : ∀ i, 4 ≤ i → i < len → buf i = buf' i) :
    (∃ p m, receive junk ETHERTYPE_IPV6 buf len = .ok p ∧
      receive junk ETHERTYPE_IPV6 buf' len = .ok (p.withIbuf m) ∧ SameBut p.ibuf_ m) ∨
    receive junk ETHERTYPE_IPV6 buf len = .error .badCopy ∧
      receive junk ETHERTYPE_IPV6 buf' len = .error .badCopy := by
  by_cases hlen : len < 0 ∨ BUF_LEN < len
  · exact .inr ⟨by simp [receive, setIbuf, hlen], by simp [receive, setIbuf, hlen]⟩
  obtain ⟨q, m, hq, hq', hw, hm⟩ : ∃ q m, (new junk ETHERTYPE_IPV6).setIbuf buf len = .ok q ∧
      (new junk ETHERTYPE_IPV6).setIbuf buf' len = .ok (q.withIbuf m) ∧ q.hw_protocol = ETHERTYPE_IPV6 ∧
      SameBut q.ibuf_ m := by
    refine ⟨_, _, if_neg hlen, if_neg hlen, rfl, fun i hi ↦ ?_⟩
    by_cases hin : 0 ≤ i ∧ i < len
    · obtain ⟨k, rfl⟩ := Int.eq_ofNat_of_zero_le hin.1
      have hcopy : ∀ b : Mem, (new junk ETHERTYPE_IPV6).ibuf_.store 0 (b.slice 0 len.toNat) k = b k := by
        intro b
        have hk := @Lib.Mem.store_inside (new junk ETHERTYPE_IPV6).ibuf_ 0 (b.slice 0 len.toNat) k (by simp; omega)
        simpa [Mem.slice] using hk
      exact (hcopy buf).trans ((h k (by omega) hin.2).trans (hcopy buf').symm)
    · exact (Mem.store_outside _ (by simp; omega)).trans (Mem.store_outside _ (by simp; omega)).symm
  unfold receive
  rw [hq, hq']
  by_cases hok : ∃ p, q.unpack = .ok p
  · obtain ⟨p, hp⟩ := hok
    refine .inl ⟨p, m, hp, unpack_withIbuf hw hm hp, ?_⟩
    rw [(unpack_ibuf hp).2]
    exact hm
  · refine .inr ⟨unpack_badCopy hw hok, unpack_badCopy hw ?_⟩
    rintro ⟨p, hp⟩
    refine hok ?_
    have := unpack_withIbuf (p := q.withIbuf m) (m := q.ibuf_) hw (fun i hi ↦ (hm i hi).symm) hp
    exact ⟨_, this⟩

variable {p : Packet} {m : Mem}

theorem withIbuf_saddr6 (hip : p.ip6_ = some .ibuf) (hm : SameBut p.ibuf_ m) : (p.withIbuf m).saddr6 = p.saddr6 := by
  have hw : ∀ a, 4 ≤ a → m.ld32 a = p.ibuf_.ld32 a :=
    fun a ha ↦ Mem.ld32_congr (fun i h _ ↦ (hm i (.inr (by omega))).symm)
  simp [saddr6, ip6Mem, withIbuf, hip, mem, in6At, hw]

theorem withIbuf_daddr6 (hip : p.ip6_ = some .ibuf) (hm : SameBut p.ibuf_ m) : (p.withIbuf m).daddr6 = p.daddr6 := by
  have hw : ∀ a, 4 ≤ a → m.ld32 a = p.ibuf_.ld32 a :=
    fun a ha ↦ Mem.ld32_congr (fun i h _ ↦ (hm i (.inr (by omega))).symm)
  simp [daddr6, ip6Mem, withIbuf, hip, mem, in6At, hw]

theorem updateChecksum_withIbuf (hv : p.ipVersionBefore_ = 6) (hip : p.ip_ = some .obuf) :
    (p.withIbuf m).updateChecksum = p.updateChecksum.withIbuf m := by
  unfold updateChecksum
  cases ht : p.tcp_ <;> cases hu : p.udp_ <;>
    simp [withIbuf, clearCheck, setCheck, checksumAt, ipMem, mem, ht, hu, hv, hip]

theorem rewrite_withIbuf {nat : NAT} {sm : StateManager σ} (hv : p.ipVersionBefore_ = 6) (hip : p.ip_ = some .obuf)
    (hip6 : p.ip6_ = some .ibuf) (ht : p.transport = some 20) (hm : SameBut p.ibuf_ m) :
    nat.rewrite sm (p.withIbuf m) = (nat.rewrite sm p).withIbuf m := by
  have hdoIP : nat.doIP sm (nat.doDPort (nat.doSPort (p.withIbuf m))) =
      (nat.doIP sm (nat.doDPort (nat.doSPort p))).withIbuf m := by
    rw [NAT.doIP_v6 hv hip6 ht, NAT.doIP_v6 (p := p.withIbuf m) hv hip6 ht, withIbuf_daddr6 hip6 hm,
      show (p.withIbuf m).ibuf_ 6 = p.ibuf_ 6 from (hm 6 (.inr (by omega))).symm]
    rfl
  unfold NAT.rewrite NAT.finish
  rw [hdoIP]
  have hi := @NAT.doIP_v6 _ nat sm _ hv hip6 ht
  exact updateChecksum_withIbuf (by rw [hi]; exact hv) (by rw [hi]; exact hip)

end Packet

def NAT.Translated.outcome (t : NAT.Translated σ) : Int × NAT × StateManager σ × List Sent :=
  (t.ret, t.nat, t.sm, t.sent)

theorem translate_withIbuf {nat : NAT} {sm : StateManager σ} {p : Packet} {m : Mem}
    (hmode : sm.analysisMode = false) (hp : p.Read ETHERTYPE_IPV6) (hq : (p.withIbuf m).Read ETHERTYPE_IPV6)
    (hm : Packet.SameBut p.ibuf_ m) :
    (nat.translate sm (p.withIbuf m)).map NAT.Translated.outcome = (nat.translate sm p).map NAT.Translated.outcome := by
  obtain ⟨_, _, _, hr⟩ := id hp
  obtain ⟨hu, -, hv, hip, hip6⟩ := Packet.receive_v6 hr
  have hsrc := Packet.withIbuf_saddr6 hip6 hm
  have hdst := Packet.withIbuf_daddr6 hip6 hm
  have hport : (p.withIbuf m).getSourcePort = p.getSourcePort := rfl
  have hproto : ((p.withIbuf m).isTCP || (p.withIbuf m).isUDP) = (p.isTCP || p.isUDP) := rfl
  have ht := @translate_total _ _ nat _ hmode hp
  have ht' := @translate_total _ _ nat _ hmode hq
  rw [hsrc, hdst, hport, hproto] at ht'
  rcases ht with ⟨hno, ht⟩ | ⟨hok, ⟨f, hf, t, ht⟩ | ⟨hf, ht⟩⟩
  · rcases ht' with ⟨-, ht'⟩ | ⟨hok, -⟩
    · rw [ht, ht']
      rfl
    · exact absurd hok hno
  · rcases ht' with ⟨hno, -⟩ | ⟨-, ⟨-, -, t', ht'⟩ | ⟨hf', -⟩⟩
    · exact absurd hok hno
    · rcases translate_read_v6 hmode hp ht with ⟨hno, -⟩ | ⟨-, g, sm₁, nat₁, sm₂, q, hd, rfl, rfl, rfl, rfl⟩
      · exact absurd hok hno
      rcases translate_read_v6 hmode hq ht' with ⟨hno, -⟩ | ⟨-, g', sm₁', nat₁', sm₂', q', hd', rfl, rfl, rfl, rfl⟩
      · rw [hdst, hproto] at hno
        exact absurd hok hno
      rw [hsrc, hdst, hport, hd] at hd'
      cases hd'
      have htransport := (hu.check_tcp (by rw [Packet.transport_isSome, hok.2])).2.2
      rw [ht, ht', hdst, Packet.rewrite_withIbuf hv hip hip6 htransport hm]
      obtain ⟨n, hn⟩ := rewrite_withObuf { nat with ip4p_ := (sm₁.flowAt g).ip4p, modified_ := false }
        ((sm₁.setTid g nat.tid).setCurIPv6SrvAddr p.daddr6) p
      rw [hn]
      simp [Except.map, NAT.Translated.outcome, Packet.withIbuf, Packet.withObuf, Packet.daddr4, Packet.ipMem,
        Packet.mem, hip]
    · rw [hf] at hf'
      cases hf'
  · rcases ht' with ⟨hno, -⟩ | ⟨-, ⟨f, hf', -⟩ | ⟨-, ht'⟩⟩
    · exact absurd hok hno
    · rw [hf] at hf'
      cases hf'
    · rw [ht, ht']

theorem getFlow_withIbuf (sm : StateManager σ) {p : Packet} {m : Mem}
    (hp : p.Read ETHERTYPE_IPV6) (hm : Packet.SameBut p.ibuf_ m) :
    (p.withIbuf m).getFlow sm = p.getFlow sm := by
  obtain ⟨_, _, _, hr⟩ := hp
  obtain ⟨-, -, hv, -, hip6⟩ := Packet.receive_v6 hr
  unfold Packet.getFlow
  rw [show (p.withIbuf m).transport = p.transport from rfl]
  cases p.transport with
  | none => rfl
  | some a =>
    unfold Packet.getFlowAt
    dsimp only
    rw [if_pos (by exact hv), if_pos hv, Packet.withIbuf_saddr6 hip6 hm, Packet.withIbuf_daddr6 hip6 hm]
    rfl

/-- Two packets from the tun device are both taken for IPv6, put in the queue of the same
worker, and, whatever is translated in between, treated alike by every worker. -/
structure Alike (s : System σ) (junk : Packet) (buf buf' : Mem) (len : Int) : Prop where
  ipv6 : tunProtocol buf = ETHERTYPE_IPV6 ∧ tunProtocol buf' = ETHERTYPE_IPV6
  queued : (tun_handle s.sm junk buf len).map (fun q ↦ (q.tid, q.sm)) =
    (tun_handle s.sm junk buf' len).map (fun q ↦ (q.tid, q.sm))
  translated : ∀ q q', tun_handle s.sm junk buf len = .ok q → tun_handle s.sm junk buf' len = .ok q' →
    ∀ ls s' w, Run (System.Step NAT.noApp) s ls s' →
      ((s'.nats w).translate s'.sm q.pkt).map NAT.Translated.outcome =
        ((s'.nats w).translate s'.sm q'.pkt).map NAT.Translated.outcome

theorem tunProtocol_v6 {buf : Mem} : tunProtocol buf = ETHERTYPE_IPV6 ↔ buf 0 = 0x60 := by
  unfold tunProtocol
  split
  case isTrue h => exact iff_of_true rfl h
  case isFalse h => exact iff_of_false (by decide) h

/-- Two IPv6 packets that differ only in traffic class and flow label are treated alike
exactly when the first byte of both is 0x60: when the upper half of the traffic class is 0. -/
theorem classes_ignored_iff {prefix_ : IPv6Addr} {extra : EXTRAType} {protocols : OrderedMap String Protocol nameLt}
    {ips : List IPv4Addr} {ls : List (Handled σ)} {s : System σ}
    (hrun : Run (System.Step NAT.noApp) (.start (configured prefix_ extra protocols ips)) ls s) (junk : Packet)
    {buf buf' : Mem} {len : Int} (hbuf : (buf 0).toNat / 16 = 6) (hbuf' : (buf' 0).toNat / 16 = 6)
    (hsame : ∀ i, 4 ≤ i → i < len → buf i = buf' i) :
    Alike s junk buf buf' len ↔ (buf 0).toNat % 16 = 0 ∧ (buf' 0).toNat % 16 = 0 := by
  have hidle := (System.Idle.start prefix_ extra protocols ips).run hrun
  have hfirst : ∀ b : UInt8, b.toNat / 16 = 6 → (b = 0x60 ↔ b.toNat % 16 = 0) := by
    intro b hb
    rw [← UInt8.toNat_inj]
    simp only [UInt8.reduceToNat]
    omega
  rw [← hfirst _ hbuf, ← hfirst _ hbuf', ← tunProtocol_v6, ← tunProtocol_v6]
  refine ⟨fun h ↦ h.ipv6, fun ⟨h, h'⟩ ↦ ?_⟩
  rcases Packet.receive_sameBut junk hsame with ⟨p, m, hp, hp', hm⟩ | ⟨hp, hp'⟩
  · have hq : tun_handle s.sm junk buf len = .ok (tunQueue s.sm p) := by rw [tun_handle, h, hp]
    have hq' : tun_handle s.sm junk buf' len = .ok { tunQueue s.sm p with pkt := p.withIbuf m } := by
      rw [tun_handle, h', hp']
      dsimp only
      rw [tunQueue, getFlow_withIbuf s.sm ⟨_, _, _, hp⟩ hm]
      rfl
    refine ⟨⟨h, h'⟩, by rw [hq, hq']; rfl, fun q q' he he' ls s' w hrun' ↦ ?_⟩
    rw [hq] at he
    rw [hq'] at he'
    cases he
    cases he'
    exact (translate_withIbuf ((hidle.run hrun').mode) ⟨_, _, _, hp⟩ ⟨_, _, _, hp'⟩ hm).symm
  · have hq : tun_handle s.sm junk buf len = .error .badCopy := by rw [tun_handle, h, hp]
    have hq' : tun_handle s.sm junk buf' len = .error .badCopy := by rw [tun_handle, h', hp']
    exact ⟨⟨h, h'⟩, by rw [hq, hq'], fun q q' he ↦ by rw [hq] at he; cases he⟩

/-- A segment of a client under a header that begins with the given bytes. -/
def classBytes (first second : UInt8) : List UInt8 :=
  first :: second :: ((make_ip6pkt 37 clientA serverS IPPROTO_TCP).drop 2 ++ Packet.tcphdr 1024 21 1000 5 ++ eprtLine)

theorem classBytes_same (a b c d : UInt8) (i : Int) (h : 4 ≤ i) :
    Mem.ofList (classBytes a b) i = Mem.ofList (classBytes c d) i := by
  obtain ⟨k, rfl⟩ := Int.eq_ofNat_of_zero_le (show 0 ≤ i by omega)
  obtain ⟨n, rfl⟩ := Nat.exists_eq_add_of_le' (show 2 ≤ k by omega)
  unfold Mem.ofList classBytes
  rw [Int.toNat_natCast]
  simp

/-- How many packets are sent for the first packet that the device delivers. -/
def sentFirst (bs : List UInt8) : Option ℕ :=
  (tun_handle (exampleConf : StateManager Unit) .blank (Mem.ofList bs) bs.length).toOption.bind fun q ↦
    ((NAT.new 0).translate q.sm q.pkt).toOption.map fun t ↦ t.sent.length

/-- The same segment is translated in class 0 and dropped in class 0xb0. -/
theorem class_matters : sentFirst (classBytes 0x60 0) = some 1 ∧ sentFirst (classBytes 0x6b 0) = some 0 ∧
    (∀ i : Int, 4 ≤ i → i < 77 →
      Mem.ofList (classBytes 0x60 0) i = Mem.ofList (classBytes 0x6b 0) i) ∧
    ¬Alike (System.start exampleConf : System Unit) .blank (Mem.ofList (classBytes 0x60 0))
      (Mem.ofList (classBytes 0x6b 0)) 77 :=
  ⟨by decide +kernel, by decide +kernel, fun i h _ ↦ classBytes_same _ _ _ _ i h,
    fun h ↦ absurd (tunProtocol_v6.mp h.ipv6.2) (by decide)⟩

/-- In the classes 0 and 8 it is translated alike. -/
theorem classes_ignored_segment :
    sentFirst (classBytes 0x60 0) = some 1 ∧ sentFirst (classBytes 0x60 0x80) = some 1 ∧
    Alike (System.start exampleConf : System Unit) .blank (Mem.ofList (classBytes 0x60 0))
      (Mem.ofList (classBytes 0x60 0x80)) 77 :=
  ⟨by decide +kernel, by decide +kernel,
    (classes_ignored_iff (.nil _) .blank (by decide) (by decide) (fun i h _ ↦ classBytes_same _ _ _ _ i h)).mpr
      ⟨by decide, by decide⟩⟩

end Nat64Alg
