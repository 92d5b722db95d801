import Nat64Alg.Outcomes

namespace Nat64Alg

open Lib StateManager

variable {σ : Type} {prefix_ : IPv6Addr} {extra : EXTRAType} {protocols : OrderedMap String Protocol nameLt}
  {ips : List IPv4Addr}

/-- `l` sent a packet of the IPv6 endpoint `ip6p` to the prefix address of the server
`key.2`, and sent it on from the IPv4 endpoint `key.1`. -/
structure Handled.Opens (l : Handled σ) (prefix_ : IPv6Addr) (ip6p : IP6Port) (key : Key46) : Prop where
  read : l.pkt.Read ETHERTYPE_IPV6
  source : ip6p = ⟨l.pkt.saddr6, l.pkt.getSourcePort⟩
  server : l.pkt.daddr6 = ⟨{ prefix_.getIn6Addr with w₃ := key.2.getInt }⟩
  sent : ∃ m len daddr, l.res.sent = [.v4 m len daddr] ∧ m.ld32 12 = key.1.ip_.ip_ ∧ m.ld16 20 = key.1.port_

/-- Every entry of `map46_` leads to a flow that a packet of its own IPv6 endpoint opened. -/
def Opened46 (prefix_ : IPv6Addr) (ls : List (Handled σ)) (sm : StateManager σ) : Prop :=
  ∀ key f, sm.map46_.find? key = some f →
    f < sm.heap.length ∧ ∃ l ∈ ls, l.Opens prefix_ (sm.flowAt f).ip6p key

theorem Opened46.old {ls ls' : List (Handled σ)} {sm sm' : StateManager σ} (h : Opened46 prefix_ ls sm)
    (hg : Grown [] sm sm') (hsub : ls ⊆ ls') {key : Key46} {f : ℕ} (hf : sm.map46_.find? key = some f) :
    f < sm'.heap.length ∧ ∃ l ∈ ls', l.Opens prefix_ (sm'.flowAt f).ip6p key := by
  obtain ⟨hlt, l, hl, hopen⟩ := h key f hf
  refine ⟨hg.lt hlt, l, hsub hl, ?_⟩
  rwa [hg.ip6p hlt]

theorem translate_v4_tables {sm : StateManager σ} {nat : NAT} {p : Packet} {t : NAT.Translated σ}
    (hmode : sm.analysisMode = false) (hidle : nat.exttcpflow_ = none) (hp : p.Read ETHERTYPE_IP)
    (ht : nat.translate sm p = .ok t) :
    t.sm.map64_ = sm.map64_ ∧ t.sm.map46_ = sm.map46_ ∧ t.sm.pool_ = sm.pool_ := by
  rw [(translate_read_v4 hmode hidle hp ht).1]
  exact ⟨rfl, rfl, rfl⟩

theorem translate_v6_opened {ls : List (Handled σ)} {s : System σ} {l : Handled σ}
    (hmode : s.sm.analysisMode = false) (hpfx : s.sm.prefix_ = prefix_) (hp : l.pkt.Read ETHERTYPE_IPV6)
    (ht : (s.nats l.worker).translate s.sm l.pkt = .ok l.res) (h : Opened46 prefix_ ls s.sm) :
    Opened46 prefix_ (ls ++ [l]) l.res.sm := by
  have hg : Grown [] s.sm l.res.sm := @translate_grown _ [] _ List.nodup_nil _ _ _ hmode ht
  have hsub : ls ⊆ ls ++ [l] := List.subset_append_left _ _
  rcases translate_read_v6 hmode hp ht with ⟨-, he⟩ | ⟨⟨hrange, hproto⟩, f, sm₁, nat₁, sm₂, q, hd, hnat, hsm, hq, he⟩
  · intro key f hf
    rw [he] at hf
    exact h.old hg hsub hf
  have h46 : l.res.sm.map46_ = sm₁.map46_ := by
    rw [he, hsm]
    unfold setTid
    split <;> rfl
  rcases doMapping_cases hd with ⟨g, -, -, rfl⟩ | ⟨e, pool, -, -, hf, rfl⟩ | ⟨-, -, hf, -⟩
  · intro key g hg'
    exact h.old hg hsub (h46 ▸ hg')
  · cases hf
    intro key g hfind
    rw [h46, create, OrderedMap.find?_insert] at hfind
    have hget : (s.sm.create (⟨l.pkt.saddr6, l.pkt.getSourcePort⟩, l.pkt.daddr6) e pool).addrs[s.sm.heap.length]? =
        some ((⟨l.pkt.saddr6, l.pkt.getSourcePort⟩, l.pkt.daddr6), (e, getServerAddr4 l.pkt.daddr6)) := by
      simp [create_addrs]
    split at hfind
    case isTrue hkey =>
      cases hfind
      rw [equiv46.mp hkey]
      have hgrown : Grown [] (s.sm.create (⟨l.pkt.saddr6, l.pkt.getSourcePort⟩, l.pkt.daddr6) e pool) l.res.sm := by
        rw [he, hsm]
        exact (Grown.setTid _ _).trans (Grown.setCurIPv6SrvAddr _ _)
      obtain ⟨_, _, _, hr⟩ := id hp
      obtain ⟨hu, -, hv, -, hip⟩ := Packet.receive_v6 hr
      obtain ⟨m, hm, hsrc, -, hport, -⟩ := NAT.rewrite_v6 hu hv hip
        (by rw [Packet.transport_isSome, hproto])
      have hflow := flowAt_addr (hgrown.addr hget)
      have hlt : s.sm.heap.length < l.res.sm.heap.length :=
        hgrown.lt (by simp [create])
      have hip4p : nat₁.ip4p_ = e := by
        rw [hnat]
        exact congrArg (fun a : Key64 × Key46 ↦ a.2.1) (flowAt_addr hget)
      refine ⟨hlt, l, by simp, hp, congrArg (fun a ↦ a.1.1) hflow, ?_,
        m, q.obuf_len_, q.daddr4, ?_, ?_, ?_⟩
      · rw [← hpfx]
        exact (isAddrInRange6_iff.mp hrange).symm
      · rw [he, hq, hm]
        rfl
      · rw [hsrc, hip4p]
        rfl
      · rw [hport, hip4p]
        rfl
    case isFalse => exact h.old hg hsub hfind
  · cases hf

theorem opened46_run {ls : List (Handled σ)} {s : System σ}
    (hrun : Run (System.Step NAT.noApp) (.start (configured prefix_ extra protocols ips)) ls s)
    (hread : ∀ l ∈ ls, ∃ hw, l.pkt.Read hw) : Opened46 prefix_ ls s.sm ∧ s.Idle prefix_ := by
  refine hrun.history (I := fun ls s ↦ (∀ l ∈ ls, ∃ hw, l.pkt.Read hw) → Opened46 prefix_ ls s.sm ∧ s.Idle prefix_)
    ?_ (fun _ ↦ ⟨?_, .start prefix_ extra protocols ips⟩) hread
  · intro ls s l s' ih hstep hread
    obtain ⟨hopen, hidle⟩ := ih (fun l hl ↦ hread l (List.mem_append_left _ hl))
    refine ⟨?_, hidle.step hstep⟩
    obtain ⟨ht, rfl⟩ := hstep
    obtain ⟨hw, hp⟩ := hread l (by simp)
    by_cases h₆ : hw = ETHERTYPE_IPV6
    · exact translate_v6_opened hidle.mode hidle.prefix_eq (h₆ ▸ hp) ht hopen
    by_cases h₄ : hw = ETHERTYPE_IP
    · subst h₄
      intro key f hf
      rw [System.after_sm, (translate_v4_tables hidle.mode (hidle.exttcpflow_ l.worker) hp ht).2.1] at hf
      exact hopen.old (@translate_grown _ [] _ List.nodup_nil _ _ _ hidle.mode ht) (List.subset_append_left _ _) hf
    · have := @translate_read_other _ _ (s.nats l.worker) _ _ hidle.mode hp h₆ h₄
      rw [NAT.translate, ht] at this
      cases this
  · obtain ⟨_, _, he⟩ := configured_eq (σ := σ) prefix_ extra protocols ips
    simp only [System.start, he]
    intro key f hf
    cases hf

/-- The packet `x` is delivered to the endpoint `ip6p`. -/
def Sent.To (x : Sent) (ip6p : IP6Port) : Prop :=
  ∃ m len keep, x = .v6 m len ip6p.ip_ keep ∧ Packet.in6At m 24 = ip6p.ip_.ip_ ∧ m.ld16 42 = ip6p.port_

/-- An IPv4 packet is sent on to an IPv6 endpoint only if that endpoint has before sent a
packet to the prefix address of the packet's source, from the IPv4 endpoint that the packet
is for; and it leaves the tables and the pool as they are. -/
theorem inbound_solicited {ls : List (Handled σ)} {s s' : System σ} {l : Handled σ}
    (hrun : Run (System.Step NAT.noApp) (.start (configured prefix_ extra protocols ips)) ls s)
    (hread : ∀ l ∈ ls, ∃ hw, l.pkt.Read hw)
    (hl : l.pkt.Read ETHERTYPE_IP) (hstep : s.Step NAT.noApp l s') :
    (∀ x ∈ l.res.sent, ∃ ip6p, x.To ip6p ∧
      ∃ l' ∈ ls, l'.Opens prefix_ ip6p (⟨l.pkt.daddr4, l.pkt.getDestPort⟩, l.pkt.saddr4)) ∧
    s'.sm.map64_ = s.sm.map64_ ∧ s'.sm.map46_ = s.sm.map46_ ∧ s'.sm.pool_ = s.sm.pool_ := by
  obtain ⟨hopen, hidle⟩ := opened46_run hrun hread
  obtain ⟨ht, rfl⟩ := hstep
  refine ⟨fun x hx ↦ ?_, translate_v4_tables hidle.mode (hidle.exttcpflow_ l.worker) hl ht⟩
  rcases (translate_read_v4 hidle.mode (hidle.exttcpflow_ l.worker) hl ht).2 with
    ⟨-, he⟩ | ⟨hproto, f, nat₁, q, keep, hf, hnat, hq, -, he⟩
  · rw [he] at hx
    cases hx
  obtain ⟨-, l', hl', hl'open⟩ := hopen _ f hf
  refine ⟨(s.sm.flowAt f).ip6p, ?_, l', hl', hl'open⟩
  obtain ⟨_, _, _, hr⟩ := hl
  obtain ⟨hu, -, hv, hip, hip6⟩ := Packet.receive_v4 hr
  obtain ⟨m, hm, -, hdst, hport, -⟩ := NAT.rewrite_v4
    hu hv hip (by rw [Packet.transport_isSome, hproto])
  have hip6p : nat₁.ip6p_ = (s.sm.flowAt f).ip6p := by rw [hnat]
  rw [he, List.mem_singleton] at hx
  refine ⟨m, l.pkt.obuf_len_, keep, ?_, by rw [hdst, hip6p], by rw [hport, hip6p]; rfl⟩
  have hd : (l.pkt.withObuf m).daddr6 = (s.sm.flowAt f).ip6p.ip_ := by
    simp only [Packet.daddr6, Packet.ip6Mem, Packet.withObuf, hip6, Option.getD_some, Packet.mem]
    rw [hdst, hip6p]
  rw [hx, hq, hm, hd]
  rfl

/-- The first packet of a client and the answer to it. -/
theorem inbound_solicited_answer : ∃ (l l' : Handled Unit) (x : Sent), x ∈ l.res.sent ∧ l.pkt.Read ETHERTYPE_IP ∧
    ∃ ip6p, x.To ip6p ∧ l'.Opens ⟨⟨ntohl 0x20030000, 0, 0, 0⟩⟩ ip6p
      (⟨l.pkt.daddr4, l.pkt.getDestPort⟩, l.pkt.saddr4) := by
  have hips : [(⟨ntohl 0x0a141e28⟩ : IPv4Addr)].Nodup := List.nodup_singleton _
  obtain ⟨p, hp, -, h₂, -, -⟩ := Packet.exists_in6 clientA serverS 1024 80
  obtain ⟨t, q, _, f, ht, -, -, -, -, hback⟩ :=
    ((System.sound_start (σ := Unit) _ _ _ [⟨ntohl 0x0a141e28⟩]).round_trip hips 0 hp (by rw [h₂]; rfl)
      (.inl exampleConf_pool_ne)).mpr (fun f hf ↦ (nomatch hf))
  obtain ⟨r, hr, g₁, g₂, g₃, g₄⟩ := Packet.exists_in4 ⟨q.ld32 16⟩ ⟨q.ld32 12⟩ (q.ld16 22) (q.ld16 20)
  obtain ⟨t', m, daddr, keep, ht', -, hsent, -⟩ := hback [] _ (.nil _) 0 r ⟨hr, g₁, g₃, g₂, g₄⟩
  have hrun : Run (System.Step NAT.noApp) (.start exampleConf) [⟨0, p, t⟩] _ := .one ⟨ht, rfl⟩
  have hread : ∀ l ∈ [(⟨0, p, t⟩ : Handled Unit)], ∃ hw, l.pkt.Read hw := by
    simpa using ⟨_, hp.toReceived.read⟩
  obtain ⟨hall, -⟩ := inbound_solicited (l := ⟨0, r, t'⟩) hrun hread hr.toReceived.read ⟨ht', rfl⟩
  have hmem : .v6 m (r.ibuf_len_ + 20) daddr keep ∈ t'.sent := by simp [hsent]
  obtain ⟨ip6p, hto, l', -, hopen⟩ := hall _ hmem
  exact ⟨⟨0, r, t'⟩, l', _, hmem, hr.toReceived.read, ip6p, hto, hopen⟩

end Nat64Alg
