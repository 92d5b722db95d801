import Nat64Alg.Binding
import Nat64Alg.Rewrite
import Nat64Alg.Growth

namespace Nat64Alg

open Lib StateManager

variable {σ : Type} {ips : List IPv4Addr} {sm : StateManager σ} {nat : NAT} {p : Packet}

namespace Packet

theorem exists_in4 (src dst : IPv4Addr) (sport dport : UInt16) : ∃ p : Packet, p.In4 ∧
    p.ibuf_.ld32 12 = src.ip_ ∧ p.ibuf_.ld32 16 = dst.ip_ ∧ p.ibuf_.ld16 20 = sport ∧ p.ibuf_.ld16 22 = dport := by
  have hlen := NAT.length_make_ip4pkt 8 src dst IPPROTO_UDP
  obtain ⟨buf, hbuf⟩ : ∃ buf : Mem, buf =
      (((Mem.store (fun _ ↦ 0) 0 (make_ip4pkt 8 src dst IPPROTO_UDP)).st16 20 sport).st16 22 dport) := ⟨_, rfl⟩
  obtain ⟨p, hr, hl, hcopy⟩ := @receive_ok blank buf ETHERTYPE_IP 20 28 (.inr ⟨rfl, rfl⟩) (by omega) (by decide)
  have hhead : ∀ i, 0 ≤ i → i < 20 → p.ibuf_ i = Mem.store (fun _ ↦ 0) 0 (make_ip4pkt 8 src dst IPPROTO_UDP) i := by
    intro i h₀ h₁
    rw [hcopy i h₀ (by omega), hbuf, Mem.st16, Mem.store_outside _ (by simp; omega), Mem.st16,
      Mem.store_outside _ (by simp; omega)]
  have haddrs := NAT.make_ip4pkt_addrs (fun _ ↦ 0) 8 src dst IPPROTO_UDP
  have h₀ : p.ibuf_ 0 = 0x45 := hhead 0 (by omega) (by omega)
  have h₆ : p.ibuf_.ld16 6 = 0 := Mem.ld16_congr (fun i h h' ↦ hhead i (by omega) (by omega))
  have h₉ : p.ibuf_ 9 = IPPROTO_UDP := hhead 9 (by omega) (by omega)
  refine ⟨p, ⟨⟨⟨blank, buf, by rw [hl]; exact hr⟩, by rw [hl]; decide⟩, h₀, by rw [h₆]; rfl, ?_⟩, ?_, ?_, ?_, ?_⟩
  · exact .inr ⟨h₉, by rw [hl]; decide⟩
  · exact (Mem.ld32_congr (fun i h h' ↦ hhead i (by omega) (by omega))).trans haddrs.1
  · exact (Mem.ld32_congr (fun i h h' ↦ hhead i (by omega) (by omega))).trans haddrs.2
  · rw [Mem.ld16_congr (fun i h h' ↦ hcopy i (by omega) (by omega)), hbuf, Mem.st16,
      Mem.ld16_store_disjoint _ (.inl (by omega)), Mem.ld16_st16]
  · rw [Mem.ld16_congr (fun i h h' ↦ hcopy i (by omega) (by omega)), hbuf, Mem.ld16_st16]

theorem exists_in6 (src dst : IPv6Addr) (sport dport : UInt16) : ∃ p : Packet, p.In6 ∧
    p.saddr6 = src ∧ p.daddr6 = dst ∧ p.getSourcePort = sport ∧ p.getDestPort = dport := by
  have hlen := NAT.length_make_ip6pkt 8 src dst IPPROTO_UDP
  obtain ⟨buf, hbuf⟩ : ∃ buf : Mem, buf =
      (((Mem.store (fun _ ↦ 0) 0 (make_ip6pkt 8 src dst IPPROTO_UDP)).st16 40 sport).st16 42 dport) := ⟨_, rfl⟩
  obtain ⟨p, hr, hl, hcopy⟩ := @receive_ok blank buf ETHERTYPE_IPV6 40 48 (.inl ⟨rfl, rfl⟩) (by omega) (by decide)
  have hhead : ∀ i, 0 ≤ i → i < 40 → p.ibuf_ i = Mem.store (fun _ ↦ 0) 0 (make_ip6pkt 8 src dst IPPROTO_UDP) i := by
    intro i h₀ h₁
    rw [hcopy i h₀ (by omega), hbuf, Mem.st16, Mem.store_outside _ (by simp; omega), Mem.st16,
      Mem.store_outside _ (by simp; omega)]
  have haddrs := NAT.make_ip6pkt_addrs (fun _ ↦ 0) 8 src dst IPPROTO_UDP
  have hin6 : ∀ a, 0 ≤ a → a + 16 ≤ 40 → in6At p.ibuf_ a =
      in6At (Mem.store (fun _ ↦ 0) 0 (make_ip6pkt 8 src dst IPPROTO_UDP)) a := by
    intro a h₀ h₁
    have hw : ∀ b, 0 ≤ b → b + 4 ≤ 40 → p.ibuf_.ld32 b =
        Mem.ld32 (Mem.store (fun _ ↦ 0) 0 (make_ip6pkt 8 src dst IPPROTO_UDP)) b :=
      fun b hb hb' ↦ Mem.ld32_congr (fun i h h' ↦ hhead i (by omega) (by omega))
    simp only [in6At, hw a (by omega) (by omega), hw (a + 4) (by omega) (by omega),
      hw (a + 8) (by omega) (by omega), hw (a + 12) (by omega) (by omega)]
  have h₆ : p.ibuf_ 6 = IPPROTO_UDP := hhead 6 (by omega) (by omega)
  have hp : p.In6 := ⟨⟨⟨blank, buf, by rw [hl]; exact hr⟩, by rw [hl]; decide⟩, .inr ⟨h₆, by rw [hl]; decide⟩⟩
  obtain ⟨hready, -, -, -, hip⟩ := hp.ready
  refine ⟨p, hp, ?_, ?_, ?_, ?_⟩
  · simp only [saddr6, ip6Mem, hip, Option.getD_some, mem, hin6 8 (by omega) (by omega), haddrs.1]
    rfl
  · simp only [daddr6, ip6Mem, hip, Option.getD_some, mem, hin6 24 (by omega) (by omega), haddrs.2]
    rfl
  · rw [hready.source, Mem.ld16_congr (fun i h h' ↦ hcopy i (by omega) (by omega)), hbuf, Mem.st16,
      Mem.ld16_store_disjoint _ (.inl (by omega)), Mem.ld16_st16]
  · rw [hready.dest, Mem.ld16_congr (fun i h h' ↦ hcopy i (by omega) (by omega)), hbuf]
    exact Mem.ld16_st16 _ 42 _

/-- The `n` bytes at `a'` are those at `a`, but for a port and a checksum. -/
def Kept (port check : Int) (m : Mem) (a : Int) (m' : Mem) (a' n : Int) : Prop :=
  ∀ i, 0 ≤ i → i < n → (i < port ∨ port + 2 ≤ i) → (i < check ∨ check + 2 ≤ i) → m' (a' + i) = m (a + i)

end Packet

theorem translate_v6 (hmode : sm.analysisMode = false) (hp : p.In6) (hrange : sm.isAddrInRange6 p.daddr6 = true)
    {f : ℕ} {sm₁ : StateManager σ}
    (hd : sm.doMapping ⟨p.saddr6, p.getSourcePort⟩ p.daddr6 = (some f, sm₁)) :
    ∃ t m, nat.translate sm p = .ok t ∧ t.ret = 1 ∧ t.sent = [.v4 m (p.ibuf_len_ - 20) ⟨m.ld32 16⟩] ∧
      t.sm.map64_ = sm₁.map64_ ∧ t.sm.addrs = sm₁.addrs ∧
      m.ld32 12 = (sm₁.flowAt f).ip4p.ip_.ip_ ∧ m.ld32 16 = p.daddr6.ip_.w₃ ∧
      m.ld16 20 = (sm₁.flowAt f).ip4p.port_ ∧ m.ld16 22 = p.ibuf_.ld16 42 ∧
      Packet.Kept 0 p.checkField p.ibuf_ 40 m 20 (p.ibuf_len_ - 40) := by
  obtain ⟨hready, hw, hv, hip4, hip⟩ := hp.ready
  have hver : p.getIPVersion = 4 := by simp [Packet.getIPVersion, hv]
  have hr : NAT.inRange sm p = .ok (true, sm) := by
    simp [NAT.inRange, hmode, hw, Packet.getDest6, hip, hrange]
  obtain ⟨sm₂, hb, hmode₂, h64, haddrs⟩ : ∃ sm₂, nat.begin sm p =
      .ok (0, { nat with ip4p_ := (sm₁.flowAt f).ip4p }, sm₂) ∧ sm₂.analysisMode = false ∧
      sm₂.map64_ = sm₁.map64_ ∧ sm₂.addrs = sm₁.addrs := by
    have hb := @begin_v6 _ _ _ nat _ hver _ hd
    refine ⟨_, hb, (@begin_grown _ [] _ _ List.nodup_nil _ _ _ _ hb).analysisMode.trans hmode, ?_, ?_⟩
    · unfold setTid
      split <;> rfl
    · unfold setTid
      split
      · exact addrs_setFlow rfl
      · rfl
  obtain ⟨m, hm, hsrc, hdst, hport, hkeep⟩ := @NAT.rewrite_v6 _
    { nat with ip4p_ := (sm₁.flowAt f).ip4p, modified_ := false } sm₂ _ _
    hready.toUnpacked hv hip (by rw [hready.transport]; rfl)
  have hs : NAT.send { nat with ip4p_ := (sm₁.flowAt f).ip4p, modified_ := false } sm₂ (p.withObuf m) =
      .ok (sm₂, p.withObuf m, [.v4 m p.obuf_len_ (p.withObuf m).daddr4]) := if_pos hw
  have hcf := p.checkField_ge
  have hlen := hready.header
  refine ⟨_, m, translateWith_ok hr hready.isTCP_isUDP hmode hb rfl hmode₂ (by rw [hm]; exact hs), rfl, ?_,
    h64, haddrs, hsrc, hdst, hport, ?_, ?_⟩
  · have hd4 : (p.withObuf m).daddr4 = ⟨m.ld32 16⟩ := by
      simp [Packet.daddr4, Packet.ipMem, Packet.withObuf, hip4, Packet.mem]
    rw [hd4, hready.obuf_len_, show p.ibuf_len_ - 40 + 20 = p.ibuf_len_ - 20 by omega]
  · refine Mem.ld16_moved fun k h₀ h₁ ↦ ?_
    rw [hkeep _ (by omega) (by omega), show 22 + k = 20 + (2 + k) by omega,
      hready.copied (2 + k) (by omega) (by omega), show 40 + (2 + k) = 42 + k by omega]
  · intro i h₀ h₁ h₂ h₃
    rw [hkeep _ (by omega) (by omega), hready.copied i h₀ h₁]

theorem translate_v4 (hmode : sm.analysisMode = false) (hidle : nat.exttcpflow_ = none) (hp : p.In4)
    (hrange : (sm.isAddrInRange4 p.daddr4).1 = true) {f : ℕ}
    (hf : sm.getMapping4 ⟨p.daddr4, p.getDestPort⟩ p.saddr4 = some f) :
    ∃ t m keep, nat.translate sm p = .ok t ∧ t.ret = 1 ∧
      t.sent = [.v6 m (p.ibuf_len_ + 20) ⟨Packet.in6At m 24⟩ keep] ∧
      Packet.in6At m 8 = (sm.getServerAddr6 p.saddr4).ip_ ∧ Packet.in6At m 24 = (sm.flowAt f).ip6p.ip_.ip_ ∧
      m.ld16 40 = p.ibuf_.ld16 20 ∧ m.ld16 42 = (sm.flowAt f).ip6p.port_ ∧
      Packet.Kept 2 p.checkField p.ibuf_ 20 m 40 (p.ibuf_len_ - 20) := by
  obtain ⟨hready, hw, hv, hip, hip6⟩ := hp.ready
  have hne : ¬p.hw_protocol = ETHERTYPE_IPV6 := by rw [hw]; decide
  have hr : NAT.inRange sm p = .ok (true, (sm.isAddrInRange4 p.daddr4).2) := by
    have hd : NAT.inRange sm p = .ok (sm.isAddrInRange4 p.daddr4) := by
      simp [NAT.inRange, hmode, hne, Packet.getDest4, hip]
    rw [hd, ← hrange]
  have hb : nat.begin (sm.isAddrInRange4 p.daddr4).2 p =
      .ok (0, { nat with ip6p_ := (sm.flowAt f).ip6p }, (sm.isAddrInRange4 p.daddr4).2) :=
    begin_v4 (by simp [Packet.getIPVersion, hv]) hf
  obtain ⟨m, hm, hsrc, hdst, hport, hkeep⟩ := @NAT.rewrite_v4 _
    { nat with ip6p_ := (sm.flowAt f).ip6p, modified_ := false } (sm.isAddrInRange4 p.daddr4).2 _ _
    hready.toUnpacked hv hip (by rw [hready.transport]; rfl)
  have hcf := p.checkField_ge
  have hlen := hready.header
  have hshort := hp.short
  unfold READ_LEN at hshort
  have hd6 : (p.withObuf m).daddr6 = ⟨Packet.in6At m 24⟩ := by
    simp [Packet.daddr6, Packet.ip6Mem, Packet.withObuf, hip6, Packet.mem]
  have holen : (p.withObuf m).obuf_len_ = p.ibuf_len_ + 20 := by
    have := hready.obuf_len_
    simp only [Packet.withObuf] at this ⊢
    omega
  obtain ⟨keep, hs⟩ : ∃ keep, NAT.send { nat with ip6p_ := (sm.flowAt f).ip6p, modified_ := false }
      (sm.isAddrInRange4 p.daddr4).2 (p.withObuf m) = .ok ((sm.isAddrInRange4 p.daddr4).2, p.withObuf m,
        [.v6 m (p.ibuf_len_ + 20) ⟨Packet.in6At m 24⟩ keep]) := by
    have hextra : NAT.doExtraTCP { nat with ip6p_ := (sm.flowAt f).ip6p, modified_ := false }
        (sm.isAddrInRange4 p.daddr4).2 (p.withObuf m) =
        (false, (sm.isAddrInRange4 p.daddr4).2, p.withObuf m) := by
      simp [NAT.doExtraTCP, hidle]
    refine ⟨(p.withObuf m).transport_len_ - (p.withObuf m).getTransportHeaderLen == 0, ?_⟩
    unfold NAT.send
    rw [if_neg (by exact hne)]
    dsimp only
    rw [hextra, holen, hd6, Bool.false_or]
    split
    · rw [if_neg (by omega)]
      rfl
    · rfl
  refine ⟨_, m, keep, translateWith_ok hr hready.isTCP_isUDP hmode hb rfl hmode (by rw [hm]; exact hs), rfl, rfl,
    hsrc, hdst, ?_, hport, ?_⟩
  · refine Mem.ld16_moved fun k h₀ h₁ ↦ ?_
    rw [hkeep _ (by omega) (by omega) (by omega), hready.copied k h₀ (by omega)]
  · intro i h₀ h₁ h₂ h₃
    rw [hkeep _ (by omega) (by omega) (by omega), hready.copied i h₀ h₁]

theorem translate_v4_refused (hmode : sm.analysisMode = false) (hp : p.In4)
    (hf : sm.getMapping4 ⟨p.daddr4, p.getDestPort⟩ p.saddr4 = none) {t : NAT.Translated σ}
    (ht : nat.translate sm p = .ok t) : t.sent = [] := by
  obtain ⟨hready, hw, hv, hip, -⟩ := hp.ready
  obtain ⟨ok, sm₁, hr, h⟩ := translateWith_cases hmode ht
  rcases h with ⟨-, rfl⟩ | ⟨-, rc, nat₁, sm₂, hb, h⟩
  · rfl
  have hf₁ : sm₁.getMapping4 ⟨p.daddr4, p.getDestPort⟩ p.saddr4 = none := by
    have hne : ¬p.hw_protocol = ETHERTYPE_IPV6 := by rw [hw]; decide
    have hd : NAT.inRange sm p = .ok (sm.isAddrInRange4 p.daddr4) := by
      simp [NAT.inRange, hmode, hne, Packet.getDest4, hip]
    rw [hd] at hr
    cases hr
    exact hf
  have hrc : rc = 1 := by
    rw [begin_v4_none (by simp [Packet.getIPVersion, hv]) hf₁] at hb
    cases hb
    rfl
  rcases h with ⟨-, rfl⟩ | ⟨h, -⟩
  · rfl
  · omega

structure System.Sound (ips : List IPv4Addr) (s : System σ) : Prop where
  coherent : Coherent ips s.sm
  mode : s.sm.analysisMode = false
  range : ∀ ip ∈ ips, (s.sm.isAddrInRange4 ip).1 = true
  idle : ∀ w, (s.nats w).exttcpflow_ = none

theorem begin_exttcpflow {nat nat' : NAT} {sm sm' : StateManager σ} {p : Packet} {rc : Int}
    (h : nat.begin sm p = .ok (rc, nat', sm')) : nat'.exttcpflow_ = nat.exttcpflow_ := by
  rcases begin_cases h with ⟨-, f, sm₁, -, -, rfl, -⟩ | ⟨-, f, -, -, rfl, -⟩ | ⟨-, -, -, rfl, -⟩ <;> rfl

theorem translate_exttcpflow (hmode : sm.analysisMode = false) {t : NAT.Translated σ}
    (h : nat.translate sm p = .ok t) : t.nat.exttcpflow_ = nat.exttcpflow_ := by
  obtain ⟨ok, sm₁, -, h⟩ := translateWith_cases hmode h
  rcases h with ⟨-, rfl⟩ | ⟨-, rc, nat₁, sm₂, hb, h⟩
  · rfl
  have hb' := begin_exttcpflow hb
  rcases h with ⟨-, rfl⟩ | ⟨-, a, ha, h⟩
  · exact hb'
  cases ha
  rcases h with ⟨-, rfl⟩ | ⟨-, sm₃, p₃, sent, -, rfl⟩ <;> exact hb'

namespace System

variable {s s' : System σ}

theorem Sound.step (hips : ips.Nodup) {l : Handled σ} (h : s.Sound ips) (hs : s.Step NAT.noApp l s') :
    s'.Sound ips ∧ Grown ips s.sm s'.sm := by
  obtain ⟨ht, rfl⟩ := hs
  have hg : Grown ips s.sm l.res.sm := translate_grown (nodup_pools hips) h.mode ht
  refine ⟨⟨hg.coherent h.coherent, hg.analysisMode.trans h.mode, fun ip hip ↦ ?_, fun w ↦ ?_⟩, hg⟩
  · exact (hg.range ip).trans (h.range ip hip)
  · rcases eq_or_ne w l.worker with rfl | hne
    · rw [after_nats_self]
      exact (translate_exttcpflow h.mode ht).trans (h.idle l.worker)
    · rw [after_nats_ne s hne]
      exact h.idle w

theorem Sound.run (hips : ips.Nodup) {ls : List (Handled σ)} (h : s.Sound ips)
    (hs : Run (Step NAT.noApp) s ls s') : s'.Sound ips ∧ Grown ips s.sm s'.sm := by
  refine hs.invariant (I := fun t ↦ t.Sound ips ∧ Grown ips s.sm t.sm) ?_ ⟨h, Grown.refl _⟩
  rintro t l t' ⟨ht, hg⟩ hl
  obtain ⟨ht', hg'⟩ := ht.step hips hl
  exact ⟨ht', hg.trans hg'⟩

theorem sound_start (prefix_ : IPv6Addr) (extra : EXTRAType) (protocols : OrderedMap String Protocol nameLt)
    (ips : List IPv4Addr) : (start (configured prefix_ extra protocols ips) : System σ).Sound ips := by
  refine ⟨coherent_configured prefix_ extra protocols ips, configured_mode prefix_ extra protocols ips,
    fun ip hip ↦ ?_, fun _ ↦ rfl⟩
  simp only [isAddrInRange4, OrderedMap.index_fst, start]
  induction ips using List.reverseRecOn with
  | nil => cases hip
  | append_singleton ips ip' ih =>
    have hc : (configured prefix_ extra protocols (ips ++ [ip']) : StateManager σ) =
        (configured prefix_ extra protocols ips).addIPv4Pool ip' := by simp [configured]
    rw [hc, addIPv4Pool, OrderedMap.find?_insert]
    split
    · rfl
    case isFalse hne =>
      refine ih ((List.mem_append.mp hip).resolve_right fun h ↦ hne ?_)
      rw [List.mem_singleton.mp h]
      exact OrderedMap.equiv_refl _

end System

/-- `r` is an answer to the packet that left as `q`: it goes from the destination of
`q` to its source. -/
structure Answers (q : Mem) (r : Packet) : Prop extends r.In4 where
  saddr : r.ibuf_.ld32 12 = q.ld32 16
  sport : r.ibuf_.ld16 20 = q.ld16 22
  daddr : r.ibuf_.ld32 16 = q.ld32 12
  dport : r.ibuf_.ld16 22 = q.ld16 20

/-- `r` is translated to a packet from the destination of the IPv6 packet `p`, address
and port, to the address of `ip6p` and the source port of `p`. -/
def ReturnedTo (p : Packet) (ip6p : IP6Port) (r : Packet) (nat : NAT) (sm : StateManager σ) : Prop :=
  ∃ t m daddr keep, nat.translate sm r = .ok t ∧ t.ret = 1 ∧ t.sent = [.v6 m (r.ibuf_len_ + 20) daddr keep] ∧
    Packet.in6At m 8 = Packet.in6At p.ibuf_ 24 ∧ m.ld16 40 = p.ibuf_.ld16 42 ∧
    Packet.in6At m 24 = ip6p.ip_.ip_ ∧ m.ld16 42 = p.ibuf_.ld16 40 ∧
    Packet.Kept 2 r.checkField r.ibuf_ 20 m 40 (r.ibuf_len_ - 20)

/-- The IPv6 packet `p` is translated, and after any further packets so is every answer to it. -/
def RoundTrip (s : System σ) (w : ℕ) (p : Packet) : Prop :=
  ∃ t q daddr f, (s.nats w).translate s.sm p = .ok t ∧ t.ret = 1 ∧
    t.sent = [.v4 q (p.ibuf_len_ - 20) daddr] ∧
    t.sm.getMapping6 ⟨p.saddr6, p.getSourcePort⟩ p.daddr6 = some f ∧
    Packet.Kept 0 p.checkField p.ibuf_ 40 q 20 (p.ibuf_len_ - 40) ∧
    ∀ ls s', Run (System.Step NAT.noApp) (s.after ⟨w, p, t⟩) ls s' → ∀ w' r, Answers q r →
      ReturnedTo p (t.sm.flowAt f).ip6p r (s'.nats w') s'.sm

theorem System.Sound.ip4p_range {s : System σ} (h : s.Sound ips) {f : ℕ} {a : Key64 × Key46}
    (ha : s.sm.addrs[f]? = some a) : (s.sm.isAddrInRange4 a.2.1.ip_).1 = true := by
  have hmem : a.2.1 ∈ ips.flatMap poolOf := (h.coherent.pool.mem_iff).mp
    (List.mem_append_right _ (List.mem_map.mpr ⟨a, List.mem_of_getElem? ha, rfl⟩))
  obtain ⟨ip, hip, hm⟩ := List.mem_flatMap.mp hmem
  obtain ⟨q, -, -, he⟩ := mem_poolOf.mp hm
  rw [he]
  exact h.range ip hip

theorem isAddrInRange6_iff {a : IPv6Addr} : sm.isAddrInRange6 a = true ↔
    (sm.getServerAddr6 (getServerAddr4 a)) = a := by
  rcases a with ⟨⟨_, _, _, _⟩⟩
  simp [isAddrInRange6, getServerAddr6, getServerAddr4, IPv6Addr.getIn6Addr, IPv4Addr.getInt, and_assoc]

theorem Answers.key {q : Mem} {r : Packet} (h : Answers q r) : r.daddr4 = ⟨q.ld32 12⟩ ∧
    r.getDestPort = q.ld16 20 ∧ r.saddr4 = ⟨q.ld32 16⟩ := by
  obtain ⟨hready, -, -, hip, -⟩ := h.toIn4.ready
  refine ⟨?_, hready.dest.trans h.dport, ?_⟩
  · simp [Packet.daddr4, Packet.ipMem, hip, Packet.mem, h.daddr]
  · simp [Packet.saddr4, Packet.ipMem, hip, Packet.mem, h.saddr]

theorem doMapping_room {k : IP6Port} {d : IPv6Addr} (h : sm.pool_ ≠ [] ∨ (sm.getMapping6 k d).isSome) :
    ∃ f sm', sm.doMapping k d = (some f, sm') := by
  rcases doMapping_cases (Prod.eta (sm.doMapping k d)).symm with
    ⟨f, -, hf, -⟩ | ⟨e, pool, -, -, hf, -⟩ | ⟨hf, hpool, -, -⟩
  · exact ⟨f, _, Prod.ext hf rfl⟩
  · exact ⟨_, _, Prod.ext hf rfl⟩
  · rcases h with h | h
    · exact absurd hpool h
    · rw [getMapping6, hf] at h
      cases h

/-- The flow that a packet gets is for the packet's server exactly if the one it would have found is. -/
theorem served_iff {k : IP6Port} {d : IPv6Addr} {f : ℕ} {sm₁ : StateManager σ} {a : Key64 × Key46}
    (hd : sm.doMapping k d = (some f, sm₁)) (ha : sm₁.addrs[f]? = some a) :
    (∀ g, sm.getMapping6 k d = some g → (sm.flowAt g).ip4srv = getServerAddr4 d) ↔ a.2.2 = getServerAddr4 d := by
  unfold getMapping6
  rcases doMapping_cases hd with ⟨g, hg, he, rfl⟩ | ⟨e, pool, hg, -, he, rfl⟩ | ⟨-, -, he, -⟩
  · cases he
    rw [hg, ← flowAt_addr ha]
    simp [Flow.addr]
  · cases he
    rw [create_addrs, List.getElem?_append_right (by simp)] at ha
    simp only [length_addrs, Nat.sub_self, List.getElem?_cons_zero, Option.some.injEq] at ha
    subst ha
    simp [hg]
  · cases he

/-- The packet `p` has left as `q`, with the addresses `a` of its flow. -/
structure Left (p : Packet) (q : Mem) (f : ℕ) (a : Key64 × Key46) (sm : StateManager σ) : Prop where
  flow : sm.addrs[f]? = some a
  client : a.1.1.port_ = p.getSourcePort
  saddr : q.ld32 12 = a.2.1.ip_.ip_
  sport : q.ld16 20 = a.2.1.port_
  daddr : q.ld32 16 = p.daddr6.ip_.w₃
  dport : q.ld16 22 = p.ibuf_.ld16 42

namespace Left

variable {s : System σ} {q : Mem} {r : Packet} {f : ℕ} {a : Key64 × Key46} {sm' : StateManager σ}

theorem mono (h : Left p q f a sm) (hg : Grown ips sm sm') : Left p q f a sm' :=
  { h with flow := getElem?_of_extends hg.addrs h.flow }

theorem key (h : Left p q f a sm) (hans : Answers q r) :
    r.daddr4 = a.2.1.ip_ ∧ r.getDestPort = a.2.1.port_ ∧ r.saddr4 = getServerAddr4 p.daddr6 := by
  obtain ⟨h₁, h₂, h₃⟩ := hans.key
  rw [h.saddr] at h₁
  rw [h.sport] at h₂
  rw [h.daddr] at h₃
  exact ⟨h₁, h₂, h₃⟩

/-- A flow made for another server is not found by the answer. -/
theorem refused (h : Left p q f a s.sm) (hs : s.Sound ips) (hips : ips.Nodup) (hans : Answers q r)
    (hne : a.2.2 ≠ getServerAddr4 p.daddr6) (ip6p : IP6Port) (w : ℕ) : ¬ReturnedTo p ip6p r (s.nats w) s.sm := by
  rintro ⟨t, m, daddr, keep, ht, -, hsent, -⟩
  obtain ⟨h₁, h₂, h₃⟩ := h.key hans
  have hnone : s.sm.getMapping4 ⟨r.daddr4, r.getDestPort⟩ r.saddr4 = none := by
    by_contra hsome
    obtain ⟨g, hg⟩ := Option.ne_none_iff_exists'.mp hsome
    obtain ⟨b, hb, hkey⟩ := hs.coherent.of_find46 hg
    rw [h₁, h₂, h₃] at hkey
    obtain rfl : f = g := hs.coherent.ip4p_unique hips h.flow hb (by rw [hkey])
    obtain rfl := Option.some.inj (h.flow.symm.trans hb)
    exact hne (by rw [hkey])
  have hno := translate_v4_refused hs.mode hans.toIn4 hnone ht
  rw [hsent] at hno
  cases hno

theorem returned (h : Left p q f a s.sm) (hs : s.Sound ips) (hp : p.In6) (hrange : s.sm.isAddrInRange6 p.daddr6 = true)
    (hans : Answers q r) (hsrv : a.2.2 = getServerAddr4 p.daddr6) (w : ℕ) :
    ReturnedTo p a.1.1 r (s.nats w) s.sm := by
  obtain ⟨hready, -, -, -, hip⟩ := hp.ready
  obtain ⟨h₁, h₂, h₃⟩ := h.key hans
  have hfind : s.sm.getMapping4 ⟨r.daddr4, r.getDestPort⟩ r.saddr4 = some f := by
    have hfound := hs.coherent.find46 h.flow
    rw [h₁, h₂, h₃, getMapping4]
    rwa [show a.2 = (a.2.1, a.2.2) from rfl, hsrv] at hfound
  have hin : (s.sm.isAddrInRange4 r.daddr4).1 = true := by
    rw [h₁]
    exact hs.ip4p_range h.flow
  obtain ⟨t, m, keep, ht, hret, hsent, e₁, e₂, e₃, e₄, hkept⟩ :=
    translate_v4 hs.mode (hs.idle w) hans.toIn4 hin hfind
  have hdst : p.daddr6 = ⟨Packet.in6At p.ibuf_ 24⟩ := by
    simp [Packet.daddr6, Packet.ip6Mem, hip, Packet.mem]
  have hflow : (s.sm.flowAt f).ip6p = a.1.1 := congrArg (fun a ↦ a.1.1) (flowAt_addr h.flow)
  refine ⟨t, m, _, keep, ht, hret, hsent, ?_, e₃.trans (hans.sport.trans h.dport), ?_, ?_, hkept⟩
  · rw [e₁, h₃, isAddrInRange6_iff.mp hrange, hdst]
  · rw [e₂, hflow]
  · rw [e₄, hflow, h.client]
    exact hready.source

end Left

theorem System.Sound.round_trip {s : System σ} (hs : s.Sound ips) (hips : ips.Nodup) (w : ℕ) (hp : p.In6)
    (hrange : s.sm.isAddrInRange6 p.daddr6 = true)
    (hroom : s.sm.pool_ ≠ [] ∨ (s.sm.getMapping6 ⟨p.saddr6, p.getSourcePort⟩ p.daddr6).isSome) :
    RoundTrip s w p ↔ ∀ f, s.sm.getMapping6 ⟨p.saddr6, p.getSourcePort⟩ p.daddr6 = some f →
      (s.sm.flowAt f).ip4srv = getServerAddr4 p.daddr6 := by
  obtain ⟨f, sm₁, hd⟩ := doMapping_room hroom
  obtain ⟨a, ha, hport⟩ := doMapping_some hs.coherent hd
  obtain ⟨t, q, ht, hret, hsent, h64, haddrs, hq₁, hq₂, hq₃, hq₄, hkept⟩ :=
    @translate_v6 _ _ (s.nats w) _ hs.mode hp hrange _ _ hd
  obtain ⟨hst, hgt⟩ := hs.step hips (l := ⟨w, p, t⟩) ⟨ht, rfl⟩
  rw [show (sm₁.flowAt f).ip4p = a.2.1 from congrArg (fun a ↦ a.2.1) (flowAt_addr ha)] at hq₁ hq₃
  have hleft : Left p q f a t.sm := ⟨haddrs ▸ ha, hport, hq₁, hq₃, hq₂, hq₄⟩
  rw [served_iff hd ha]
  constructor
  · rintro ⟨t', q', daddr, f', ht', -, hsent', -, -, hback⟩
    obtain rfl : t = t' := Except.ok.inj (ht.symm.trans ht')
    obtain ⟨rfl, -⟩ : q = q' ∧ _ := by simpa [hsent] using hsent'
    by_contra hne
    obtain ⟨r, hr, h₁, h₂, h₃, h₄⟩ := Packet.exists_in4 ⟨q.ld32 16⟩ ⟨q.ld32 12⟩ (q.ld16 22) (q.ld16 20)
    have hans : Answers q r := ⟨hr, h₁, h₃, h₂, h₄⟩
    exact hleft.refused hst hips hans hne _ w (hback [] _ (.nil _) w r hans)
  · intro hsrv
    refine ⟨t, q, _, f, ht, hret, hsent, ?_, hkept, fun ls' s' hrun' w' r hans ↦ ?_⟩
    · unfold getMapping6
      rw [h64]
      exact doMapping_find hd
    · obtain ⟨hs', hg⟩ := hst.run hips hrun'
      have hrange' : s'.sm.isAddrInRange6 p.daddr6 = true := by
        unfold isAddrInRange6 at hrange ⊢
        rwa [(hgt.trans hg).prefix_]
      rw [show (t.sm.flowAt f).ip6p = a.1.1 from congrArg (fun a ↦ a.1.1) (flowAt_addr hleft.flow)]
      exact (hleft.mono hg).returned hs' hp hrange' hans hsrv w'

/-- A packet with a mapping or room for one is translated and its answers come back to
it, over every further run, exactly when the flow of its source port, if there is one
already, was made for its own destination. -/
theorem round_trip_iff {prefix_ : IPv6Addr} {extra : EXTRAType}
    {protocols : OrderedMap String Protocol nameLt} (hips : ips.Nodup) {ls : List (Handled σ)} {s : System σ}
    (hrun : Run (System.Step NAT.noApp) (.start (configured prefix_ extra protocols ips)) ls s) (w : ℕ)
    (hp : p.In6) (hrange : s.sm.isAddrInRange6 p.daddr6 = true)
    (hroom : s.sm.pool_ ≠ [] ∨ (s.sm.getMapping6 ⟨p.saddr6, p.getSourcePort⟩ p.daddr6).isSome) :
    RoundTrip s w p ↔ ∀ f, s.sm.getMapping6 ⟨p.saddr6, p.getSourcePort⟩ p.daddr6 = some f →
      (s.sm.flowAt f).ip4srv = getServerAddr4 p.daddr6 :=
  ((System.sound_start prefix_ extra protocols ips).run hips hrun).1.round_trip hips w hp hrange hroom

/-- After a packet to one server, one from the same port to another server never sees an answer. -/
theorem round_trip_lost : ∃ (l : Handled Unit) (s : System Unit) (p : Packet),
    Run (System.Step NAT.noApp) (.start exampleConf) [l] s ∧ p.In6 ∧ p.saddr6 = clientA ∧
    p.getSourcePort = ntohs 1024 ∧ p.daddr6 = serverT ∧ s.sm.isAddrInRange6 p.daddr6 = true ∧
    (s.sm.getMapping6 ⟨p.saddr6, p.getSourcePort⟩ p.daddr6).isSome ∧ ¬RoundTrip s 0 p := by
  have hips : [(⟨ntohl 0x0a141e28⟩ : IPv4Addr)].Nodup := List.nodup_singleton _
  have hs₀ : (System.start exampleConf : System Unit).Sound [⟨ntohl 0x0a141e28⟩] := System.sound_start _ _ _ _
  obtain ⟨p₀, hp₀, h₁, h₂, h₃, -⟩ := Packet.exists_in6 clientA serverS (ntohs 1024) (ntohs 80)
  obtain ⟨p, hp, e₁, e₂, e₃, -⟩ := Packet.exists_in6 clientA serverT (ntohs 1024) (ntohs 80)
  have hd : (System.start exampleConf : System Unit).sm.doMapping ⟨p₀.saddr6, p₀.getSourcePort⟩ p₀.daddr6 =
      (some 0, (exampleConf.doMapping ⟨clientA, ntohs 1024⟩ serverS).2) := by
    rw [h₁, h₂, h₃]
    rfl
  have hrange : (exampleConf : StateManager Unit).isAddrInRange6 p₀.daddr6 = true := by
    rw [h₂]
    rfl
  obtain ⟨t, q, ht, -, -, h64, haddrs, -⟩ :=
    @translate_v6 _ _ ((System.start exampleConf : System Unit).nats 0) _ rfl hp₀ hrange _ _ hd
  have hstep : (System.start exampleConf).Step NAT.noApp ⟨0, p₀, t⟩ _ := ⟨ht, rfl⟩
  obtain ⟨hs, hg⟩ := hs₀.step hips hstep
  have hfind : t.sm.getMapping6 ⟨p.saddr6, p.getSourcePort⟩ p.daddr6 = some 0 := by
    unfold getMapping6
    rw [h64, find64_congr _ (q := (⟨p₀.saddr6, p₀.getSourcePort⟩, p₀.daddr6)) (e₃.trans h₃.symm)]
    exact doMapping_find hd
  have hrange : t.sm.isAddrInRange6 p.daddr6 = true := by
    unfold isAddrInRange6
    rw [e₂, show t.sm.prefix_ = _ from hg.prefix_]
    rfl
  refine ⟨_, _, p, .one hstep, hp, e₁, e₃, e₂, hrange, by rw [System.after_sm, hfind]; rfl, fun hback ↦ ?_⟩
  have hsrv := (hs.round_trip hips 0 hp hrange (.inr (by rw [System.after_sm, hfind]; rfl))).mp hback 0 hfind
  have ha : t.sm.addrs[0]? = some ((⟨clientA, ntohs 1024⟩, serverS), (⟨⟨ntohl 0x0a141e28⟩, ntohs 32000⟩,
      getServerAddr4 serverS)) := by
    rw [haddrs]
    rfl
  rw [System.after_sm, show (t.sm.flowAt 0).ip4srv = getServerAddr4 serverS from
    congrArg (fun a ↦ a.2.2) (flowAt_addr ha), e₂] at hsrv
  exact absurd hsrv (by decide)

theorem round_trip_first : ∃ p : Packet, p.In6 ∧ p.saddr6 = clientA ∧ p.daddr6 = serverS ∧
    RoundTrip (System.start exampleConf : System Unit) 0 p := by
  obtain ⟨p, hp, h₁, h₂, -, -⟩ := Packet.exists_in6 clientA serverS (ntohs 1024) (ntohs 80)
  refine ⟨p, hp, h₁, h₂, (round_trip_iff (List.nodup_singleton _) (.nil _) 0 hp (by rw [h₂]; rfl)
    (.inl exampleConf_pool_ne))
    |>.mpr fun f hf ↦ ?_⟩
  cases hf

end Nat64Alg
