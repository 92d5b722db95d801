import Nat64Alg.Outcomes
import Nat64Alg.Sessions

namespace Nat64Alg

open Lib StateManager

variable {σ : Type} {prefix_ : IPv6Addr} {extra : EXTRAType} {protocols : OrderedMap String Protocol nameLt}
  {ips : List IPv4Addr}

/-- The number names the transport that the packet carries. -/
def Packet.Carries (p : Packet) (protocol : UInt8) : Prop :=
  p.isTCP = true ∧ protocol = IPPROTO_TCP ∨ p.isUDP = true ∧ protocol = IPPROTO_UDP

/-- The header of a sent packet has its length and names the transport of `p`, the packet it
was made from, and an IPv4 header has the checksum of its own 20 bytes. -/
def Sent.Describes (x : Sent) (p : Packet) : Prop :=
  match x with
  | .v4 buf len _ => (ntohs (buf.ld16 2)).toNat = len ∧ ip_checksum buf 0 20 = 0 ∧ p.Carries (buf 9)
  | .v6 buf len _ _ => (ntohs (buf.ld16 4)).toNat = len - 40 ∧ p.Carries (buf 6)

theorem Packet.Unpacked.carries {p : Packet} {old ip_len : Int} {protocol : UInt8}
    (hu : p.Unpacked old ip_len protocol) (ht : (p.isTCP || p.isUDP) = true) : p.Carries protocol := by
  have h₁ := hu.tcp_
  have h₂ := hu.udp_
  unfold Carries isTCP isUDP at *
  by_cases htcp : protocol = IPPROTO_TCP
  · exact .inl ⟨by rw [h₁, if_pos htcp]; rfl, htcp⟩
  by_cases hudp : protocol = IPPROTO_UDP
  · exact .inr ⟨by rw [h₂, if_pos hudp]; rfl, hudp⟩
  · rw [h₁, h₂, if_neg htcp, if_neg hudp] at ht
    cases ht

theorem ld16_store {m : Mem} {a k : Int} {pre post : List UInt8} {v : UInt16} (h : (pre.length : Int) = k) :
    (m.store a (pre ++ (Mem.bytes16 v ++ post))).ld16 (a + k) = v := by
  rw [Mem.store_append, Mem.store_append, Mem.ld16_store_disjoint _ (by simp; omega), h]
  exact Mem.ld16_st16 _ _ _

theorem rewrite_v6_fields {nat : NAT} {sm : StateManager σ} {p : Packet} {protocol : UInt8}
    (hu : p.Unpacked 40 20 protocol) (hv : p.ipVersionBefore_ = 6) (hip : p.ip6_ = some .ibuf)
    (ht : p.transport.isSome) :
    (nat.rewrite sm p).obuf_.ld16 2 = ntohs (UInt16.ofInt p.transport_len_) ∧
      (nat.rewrite sm p).obuf_ 9 = p.ibuf_ 6 := by
  obtain ⟨htcp, hudp, ht⟩ := hu.check_tcp ht
  have hcf := p.checkField_ge
  have hi := @NAT.doIP_v6 _ nat sm _ hv hip ht
  obtain ⟨m, hm, hkeep⟩ := Packet.touched_updateChecksum
    (nat.doIP sm (nat.doDPort (nat.doSPort p)))
    (fun a ha i hk ↦ by rw [hi] at ha; have := htcp a ha; omega)
    (fun a ha i hk ↦ by rw [hi] at ha; have := hudp a ha; omega) (fun _ i hk ↦ .inl hk)
  unfold NAT.rewrite NAT.finish
  rw [hm, Packet.withObuf_obuf_, Mem.ld16_congr (fun i h₁ h₂ ↦ hkeep i (by omega)), hkeep 9 (by omega), hi,
    Packet.withObuf_obuf_]
  refine ⟨@ld16_store _ 0 2 [0x45, 0] _ _ rfl, ?_⟩
  exact Mem.store_inside _ (a := 0) (k := 9) (by rw [NAT.length_make_ip4pkt]; decide)

theorem rewrite_v4_fields {nat : NAT} {sm : StateManager σ} {p : Packet} {protocol : UInt8}
    (hu : p.Unpacked 20 40 protocol) (hv : p.ipVersionBefore_ = 4) (hip : p.ip_ = some .ibuf)
    (ht : p.transport.isSome) :
    (nat.rewrite sm p).obuf_.ld16 4 = ntohs (UInt16.ofInt p.transport_len_) ∧
      (nat.rewrite sm p).obuf_ 6 = p.ibuf_ 9 := by
  obtain ⟨htcp, hudp, ht⟩ := hu.check_tcp ht
  have hcf := p.checkField_ge
  have hi := @NAT.doIP_v4 _ nat sm _ hv hip ht
  obtain ⟨p₁, hp₁⟩ : ∃ p₁, p₁ = nat.doIP sm (nat.doDPort (nat.doSPort p)) := ⟨_, rfl⟩
  rw [← hp₁] at hi
  have htcp₁ : ∀ a, p₁.tcp_ = some a → ∀ i : Int, i < 40 → i < a + 16 ∨ a + 16 + 2 ≤ i := by
    intro a ha i hk
    rw [hi] at ha
    have := htcp a ha
    omega
  have hudp₁ : ∀ a, p₁.udp_ = some a → ∀ i : Int, i < 40 → i < a + 6 ∨ a + 6 + 2 ≤ i := by
    intro a ha i hk
    rw [hi] at ha
    have := hudp a ha
    omega
  have hv₁ : p₁.ipVersionBefore_ ≠ 6 := by
    rw [hi, Packet.withObuf_ipVersionBefore_, hv]
    decide
  obtain ⟨m, hm, hkeep⟩ := @Packet.touched_updateChecksum (fun i ↦ i < 40) p₁ htcp₁ hudp₁ (fun h ↦ absurd h hv₁)
  unfold NAT.rewrite NAT.finish
  rw [← hp₁, hm, Packet.withObuf_obuf_, Mem.ld16_congr (fun i h₁ h₂ ↦ hkeep i (by omega)), hkeep 6 (by omega), hi,
    Packet.withObuf_obuf_]
  refine ⟨@ld16_store _ 0 4 [0x60, 0, 0, 0] _ _ rfl, ?_⟩
  exact Mem.store_inside _ (a := 0) (k := 6) (by rw [NAT.length_make_ip6pkt]; decide)

theorem toNat_length (n : Int) : ((ntohs (ntohs (UInt16.ofInt n))).toNat : Int) = n % 2 ^ 16 := by
  rw [ntohs_ntohs, show UInt16.ofInt n = UInt16.ofNat (n % 2 ^ 16).toNat from rfl, UInt16.toNat_ofNat']
  omega

theorem not_describes_v4 {nat : NAT} {sm : StateManager σ} {p : Packet} (hp : p.Read ETHERTYPE_IPV6)
    (ht : (p.isTCP || p.isUDP) = true) (daddr : IPv4Addr) :
    ¬(Sent.v4 (nat.rewrite sm p).obuf_ p.obuf_len_ daddr).Describes p := by
  rintro ⟨hlen, -, -⟩
  obtain ⟨_, _, _, hr⟩ := hp
  obtain ⟨hu, -, hv, -, hip⟩ := Packet.receive_v6 hr
  have htl := hu.transport_len_
  have hol := hu.obuf_len_
  have hfits := hu.fits
  rw [(rewrite_v6_fields hu hv hip (by rw [Packet.transport_isSome, ht])).1, toNat_length] at hlen
  omega

theorem describes_v6 {nat : NAT} {sm : StateManager σ} {p : Packet} (hp : p.Read ETHERTYPE_IP)
    (ht : (p.isTCP || p.isUDP) = true) (daddr : IPv6Addr) (keep : Bool) :
    (Sent.v6 (nat.rewrite sm p).obuf_ p.obuf_len_ daddr keep).Describes p := by
  obtain ⟨junk, buf, len, hr⟩ := hp
  obtain ⟨hu, -, hv, hip, -⟩ := Packet.receive_v4 hr
  obtain ⟨hold, -, hroom⟩ := (Packet.receive_iff junk buf (.inr ⟨rfl, rfl, rfl⟩)).mp ⟨p, hr⟩
  obtain ⟨hlen, -⟩ := Packet.receive_ibuf hr
  obtain ⟨h₁, h₂⟩ := rewrite_v4_fields hu hv hip (by rw [Packet.transport_isSome, ht])
  have htl := hu.transport_len_
  have hol := hu.obuf_len_
  unfold BUF_LEN at hroom
  refine ⟨?_, by rw [h₂]; exact hu.carries ht⟩
  rw [h₁, toNat_length]
  omega

/-- Of the packets sent, those made from IPv4 packets have headers that describe them, and
those made from IPv6 packets never do. -/
theorem headers_describe_iff {ls : List (Handled σ)} {s : System σ} {w : ℕ} {hw : UInt16} {p : Packet}
    {t : NAT.Translated σ} {x : Sent}
    (hrun : Run (System.Step NAT.noApp) (.start (configured prefix_ extra protocols ips)) ls s)
    (hp : p.Read hw) (ht : (s.nats w).translate s.sm p = .ok t) (hx : x ∈ t.sent) :
    x.Describes p ↔ hw = ETHERTYPE_IP := by
  have hidle := (System.Idle.start prefix_ extra protocols ips).run hrun
  by_cases h₆ : hw = ETHERTYPE_IPV6
  · subst h₆
    rcases translate_read_v6 hidle.mode hp ht with ⟨-, rfl⟩ | ⟨⟨-, hproto⟩, _, _, nat₁, sm₂, q, -, -, -, hq, rfl⟩
    · cases hx
    obtain ⟨m, hm⟩ := rewrite_withObuf nat₁ sm₂ p
    rw [List.mem_singleton] at hx
    have hno := @not_describes_v4 _ nat₁ sm₂ _ hp hproto q.daddr4
    rw [hx, hq, show (nat₁.rewrite sm₂ p).obuf_len_ = p.obuf_len_ by rw [hm]; rfl, ← hq]
    exact iff_of_false (hq ▸ hno) (by decide)
  by_cases h₄ : hw = ETHERTYPE_IP
  · subst h₄
    rcases (translate_read_v4 hidle.mode (hidle.exttcpflow_ w) hp ht).2 with
      ⟨-, he⟩ | ⟨hproto, f, nat₁, q, keep, -, -, hq, -, he⟩
    · rw [he] at hx
      cases hx
    obtain ⟨m, hm⟩ := rewrite_withObuf nat₁ (s.sm.isAddrInRange4 p.daddr4).2 p
    rw [he, List.mem_singleton] at hx
    have hyes := @describes_v6 _ nat₁ ((s.sm.isAddrInRange4 p.daddr4).2) _ hp hproto q.daddr6 keep
    rw [hx, hq, show (nat₁.rewrite (s.sm.isAddrInRange4 p.daddr4).2 p).obuf_len_ = p.obuf_len_ by rw [hm]; rfl, ← hq]
    exact iff_of_true (hq ▸ hyes) rfl
  · rw [translate_read_other hidle.mode hp h₆ h₄] at ht
    cases ht

/-- How many bytes are sent, and the length their header gives. -/
def Sent.lengths : Sent → Int × ℕ
  | .v4 buf len _ => (len, (ntohs (buf.ld16 2)).toNat)
  | .v6 buf len _ _ => (len, (ntohs (buf.ld16 4)).toNat)

theorem eprtSegment_sent : ∃ (t : NAT.Translated Unit) (buf : Mem) (daddr : IPv4Addr),
    (eprtSegment 1000).Read ETHERTYPE_IPV6 ∧ (NAT.new 0).translate exampleConf (eprtSegment 1000) = .ok t ∧
      t.sent = [.v4 buf 57 daddr] ∧ (ntohs (buf.ld16 2)).toNat = 37 := by
  have hread : (eprtSegment 1000).Read ETHERTYPE_IPV6 := (Packet.tcp6_in6 _ _ _ _ _ _ (by decide)).1.toReceived.read
  have hlengths : ((NAT.new 0).translate (exampleConf : StateManager Unit) (eprtSegment 1000)).toOption.map
      (fun t ↦ t.sent.map Sent.lengths) = some [(57, 37)] := by decide +kernel
  obtain ⟨t, hsome, hlen⟩ := Option.map_eq_some_iff.mp hlengths
  have ht : (NAT.new 0).translate (exampleConf : StateManager Unit) (eprtSegment 1000) = .ok t := by
    revert hsome
    cases (NAT.new 0).translate (exampleConf : StateManager Unit) (eprtSegment 1000) with
    | ok t' => exact fun h ↦ congrArg _ (Option.some.inj h)
    | error e => exact fun h ↦ nomatch h
  rcases translate_read_v6 rfl hread ht with ⟨-, rfl⟩ | ⟨-, _, _, nat₁, sm₂, q, -, -, -, -, rfl⟩
  · cases hlen
  simp only [List.map_cons, List.map_nil, Sent.lengths, List.cons.injEq, and_true, Prod.mk.injEq] at hlen
  exact ⟨_, q.obuf_, q.daddr4, hread, ht, by rw [hlen.1], hlen.2⟩

/-- A segment of 37 bytes leaves as a packet of 57 bytes whose header says 37. -/
theorem header_misdescribes : ∃ (t : NAT.Translated Unit) (buf : Mem) (daddr : IPv4Addr),
    (eprtSegment 1000).Read ETHERTYPE_IPV6 ∧ (NAT.new 0).translate exampleConf (eprtSegment 1000) = .ok t ∧
      t.sent = [.v4 buf 57 daddr] ∧ (ntohs (buf.ld16 2)).toNat = 37 ∧
      ¬(Sent.v4 buf 57 daddr).Describes (eprtSegment 1000) := by
  obtain ⟨t, buf, daddr, hread, ht, hsent, hlen⟩ := eprtSegment_sent
  refine ⟨t, buf, daddr, hread, ht, hsent, hlen, fun h ↦ ?_⟩
  have := h.1
  rw [hlen] at this
  exact absurd this (by decide)

/-- A command and the answer to it. -/
def commandAnswered : List (ℕ × Packet) :=
  [(0, eprtSegment 1000), (0, .tcp4 ⟨ntohl 0xc0000201⟩ ⟨ntohl 0x0a141e28⟩ 21 32000 5 1017 [0x62])]

theorem commandAnswered_read : ∀ c ∈ commandAnswered, c.2.Read c.2.hw_protocol := by
  have h₆ := (Packet.tcp6_in6 clientA serverS 1024 21 1000 5 (show eprtLine.length ≤ 4036 by decide)).1
  obtain ⟨h₄, -⟩ := @Packet.tcp4_in4 ⟨ntohl 0xc0000201⟩ ⟨ntohl 0x0a141e28⟩ 21 32000 5 1017 [0x62] (by decide)
  simp only [commandAnswered, List.forall_mem_cons, List.not_mem_nil, false_imp_iff, implies_true, and_true]
  exact ⟨h₆.ready.2.1.symm ▸ h₆.toReceived.read, h₄.ready.2.1.symm ▸ h₄.toReceived.read⟩

/-- Of the two packets sent, the header of the answer describes it. -/
theorem headers_describe_answer : ∃ (ls : List (Handled Unit)) (s : System Unit),
    Run (System.Step NAT.noApp) (.start exampleConf) ls s ∧
    ls.map (fun l ↦ (l.pkt.hw_protocol, l.res.sent.map Sent.lengths)) =
      [(ETHERTYPE_IPV6, [(57, 37)]), (ETHERTYPE_IP, [(61, 21)])] ∧
    ∀ l ∈ ls, ∀ x ∈ l.res.sent, x.Describes l.pkt ↔ l.pkt.hw_protocol = ETHERTYPE_IP := by
  have hrun := @System.perform_run _ NAT.noApp (.start (exampleConf : StateManager Unit)) commandAnswered
  refine ⟨_, _, hrun, by decide +kernel, fun l hl x hx ↦ ?_⟩
  have hread := commandAnswered_read _ (System.perform_mem hl)
  obtain ⟨us, vs, hsplit⟩ := List.append_of_mem hl
  rw [hsplit] at hrun
  obtain ⟨t, t', hus, ⟨ht, -⟩, -⟩ := hrun.at_label
  exact headers_describe_iff hus hread ht hx

end Nat64Alg
