import Nat64Alg.RoundTrip

namespace Nat64Alg

open Lib StateManager

variable {σ : Type} {sm : StateManager σ} {nat : NAT} {p : Packet} {t : NAT.Translated σ}

/-- A packet as a reader makes it of the bytes it was given, however many. -/
def Packet.Read (hw_protocol : UInt16) (p : Packet) : Prop :=
  ∃ junk buf len, receive junk hw_protocol buf len = .ok p

theorem Packet.transport_isSome (p : Packet) : p.transport.isSome = (p.isTCP || p.isUDP) := by
  unfold Packet.transport Packet.isTCP Packet.isUDP
  cases p.tcp_ <;> rfl

theorem rewrite_withObuf (nat : NAT) (sm : StateManager σ) (p : Packet) : ∃ m, nat.rewrite sm p = p.withObuf m := by
  have htouch : Packet.Touched (fun _ ↦ False) p (nat.rewrite sm p) := by
    have hnone : ∀ (q : Packet) (a : Int) (bs : List UInt8),
        Packet.Touched (fun _ ↦ False) q (q.withObuf (q.obuf_.store a bs)) :=
      fun q a bs ↦ Packet.touched_store q (fun i hi ↦ hi.elim)
    have hs : Packet.Touched (fun _ ↦ False) p (nat.doSPort p) := by
      unfold NAT.doSPort
      split
      · split
        · exact hnone _ _ _
        · exact .refl _ _
      · exact .refl _ _
    have hd : Packet.Touched (fun _ ↦ False) p (nat.doDPort (nat.doSPort p)) := by
      refine hs.trans ?_
      unfold NAT.doDPort
      split
      · split
        · exact hnone _ _ _
        · exact .refl _ _
      · exact .refl _ _
    have hi : Packet.Touched (fun _ ↦ False) p (nat.doIP sm (nat.doDPort (nat.doSPort p))) := by
      refine hd.trans ?_
      unfold NAT.doIP
      dsimp only
      split <;> exact hnone _ _ _
    exact hi.trans (Packet.touched_updateChecksum _ (fun _ _ i hi ↦ hi.elim) (fun _ _ i hi ↦ hi.elim)
      (fun _ i hi ↦ hi.elim))
  obtain ⟨m, hm, -⟩ := htouch
  exact ⟨m, hm⟩

theorem translate_read_v6 (hmode : sm.analysisMode = false) (hp : p.Read ETHERTYPE_IPV6)
    (h : nat.translate sm p = .ok t) :
    (¬(sm.isAddrInRange6 p.daddr6 = true ∧ (p.isTCP || p.isUDP) = true) ∧ t = ⟨0, nat, sm, p, [], [], none⟩) ∨
    (sm.isAddrInRange6 p.daddr6 = true ∧ (p.isTCP || p.isUDP) = true) ∧
      ∃ f sm₁ nat₁ sm₂ q, sm.doMapping ⟨p.saddr6, p.getSourcePort⟩ p.daddr6 = (some f, sm₁) ∧
        nat₁ = { nat with ip4p_ := (sm₁.flowAt f).ip4p, modified_ := false } ∧
        sm₂ = (sm₁.setTid f nat.tid).setCurIPv6SrvAddr p.daddr6 ∧ q = nat₁.rewrite sm₂ p ∧
        t = ⟨1, nat₁, sm₂, q, [.v4 q.obuf_ q.obuf_len_ q.daddr4], [], none⟩ := by
  obtain ⟨_, _, _, hr⟩ := hp
  obtain ⟨-, hw, hv, -, hip⟩ := Packet.receive_v6 hr
  have hver : p.getIPVersion = 4 := by simp [Packet.getIPVersion, hv]
  have hrange : NAT.inRange sm p = .ok (sm.isAddrInRange6 p.daddr6, sm) := by
    simp [NAT.inRange, hmode, hw, Packet.getDest6, hip]
  obtain ⟨ok, sm₀, hr, h⟩ := translateWith_cases hmode h
  rw [hrange] at hr
  cases hr
  rcases h with ⟨hno, rfl⟩ | ⟨hok, rc, nat₁, sm₂, hb, h⟩
  · exact .inl ⟨hno, rfl⟩
  refine .inr ⟨hok, ?_⟩
  rcases begin_cases hb with ⟨-, f, sm₁, hd, rfl, rfl, rfl⟩ | ⟨hne, -⟩ | ⟨hne, -⟩
  · rcases h with ⟨hrc, -⟩ | ⟨-, a, ha, h⟩
    · exact absurd rfl hrc
    cases ha
    have hmode₂ : ((sm₁.setTid f nat.tid).setCurIPv6SrvAddr p.daddr6).analysisMode = false :=
      (@begin_grown _ [] _ _ List.nodup_nil _ _ _ _ hb).analysisMode.trans hmode
    rcases h with ⟨hm, -⟩ | ⟨-, sm₃, p₃, sent, hs, rfl⟩
    · rw [hmode₂] at hm
      cases hm
    obtain ⟨m, hm⟩ := rewrite_withObuf { nat with ip4p_ := (sm₁.flowAt f).ip4p, modified_ := false }
      ((sm₁.setTid f nat.tid).setCurIPv6SrvAddr p.daddr6) p
    have hsend : ∀ n : NAT, n.send ((sm₁.setTid f nat.tid).setCurIPv6SrvAddr p.daddr6) (p.withObuf m) =
        .ok ((sm₁.setTid f nat.tid).setCurIPv6SrvAddr p.daddr6, p.withObuf m,
          [.v4 m p.obuf_len_ (p.withObuf m).daddr4]) := fun n ↦ if_pos hw
    rw [hm, hsend] at hs
    cases hs
    exact ⟨f, sm₁, _, _, _, hd, rfl, rfl, rfl, by rw [hm]; rfl⟩
  · exact absurd hver hne
  · exact absurd hver hne

theorem translate_total (hmode : sm.analysisMode = false) (hp : p.Read ETHERTYPE_IPV6) :
    (¬(sm.isAddrInRange6 p.daddr6 = true ∧ (p.isTCP || p.isUDP) = true) ∧
      nat.translate sm p = .ok ⟨0, nat, sm, p, [], [], none⟩) ∨
    ((sm.isAddrInRange6 p.daddr6 = true ∧ (p.isTCP || p.isUDP) = true) ∧
      ((∃ f, (sm.doMapping ⟨p.saddr6, p.getSourcePort⟩ p.daddr6).1 = some f ∧ ∃ t, nat.translate sm p = .ok t) ∨
      (sm.doMapping ⟨p.saddr6, p.getSourcePort⟩ p.daddr6).1 = none ∧ nat.translate sm p = .error .nullFlow)) := by
  obtain ⟨_, _, _, hr⟩ := hp
  obtain ⟨hu, hw, hv, -, hip⟩ := Packet.receive_v6 hr
  have hver : p.getIPVersion = 4 := by simp [Packet.getIPVersion, hv]
  have hr : NAT.inRange sm p = .ok (sm.isAddrInRange6 p.daddr6, sm) := by
    simp [NAT.inRange, hmode, hw, Packet.getDest6, hip]
  by_cases hin : sm.isAddrInRange6 p.daddr6 = true ∧ (p.isTCP || p.isUDP) = true
  · refine .inr ⟨hin, ?_⟩
    rw [hin.1] at hr
    rcases hd : sm.doMapping ⟨p.saddr6, p.getSourcePort⟩ p.daddr6 with ⟨r, sm₁⟩
    cases r with
    | some f =>
      have hb := @begin_v6 _ _ _ nat _ hver _ hd
      have hmode₂ := (@begin_grown _ [] _ _ List.nodup_nil _ _ _ _ hb).analysisMode.trans hmode
      have ht : p.transport.isSome := by
        have := hin.2
        unfold Packet.transport Packet.isTCP Packet.isUDP at *
        cases hp₁ : p.tcp_ <;> cases hp₂ : p.udp_ <;> simp_all
      obtain ⟨m, hm, -⟩ := NAT.rewrite_v6 hu hv hip ht
      exact .inl ⟨f, rfl, _, translateWith_ok hr hin.2 hmode hb rfl hmode₂ (if_pos (by rw [hm]; exact hw))⟩
    | none =>
      refine .inr ⟨rfl, ?_⟩
      have hn : ¬((!true || !p.isTCP && !p.isUDP) = true) := by
        have := hin.2
        cases hp₁ : p.isTCP <;> cases hp₂ : p.isUDP <;> simp_all
      unfold NAT.translate NAT.translateWith
      rw [hr]
      simp only [bind, Except.bind, if_neg hn, hmode, begin_v6_null hver hd]
      rfl
  · refine .inl ⟨hin, ?_⟩
    have hn : (!sm.isAddrInRange6 p.daddr6 || !p.isTCP && !p.isUDP) = true := by
      revert hin
      cases sm.isAddrInRange6 p.daddr6 <;> cases p.isTCP <;> cases p.isUDP <;> simp
    unfold NAT.translate NAT.translateWith
    rw [hr]
    simp only [bind, Except.bind, if_pos hn]
    rfl

theorem translate_read_v4 (hmode : sm.analysisMode = false) (hidle : nat.exttcpflow_ = none)
    (hp : p.Read ETHERTYPE_IP) (ht : nat.translate sm p = .ok t) :
    t.sm = (sm.isAddrInRange4 p.daddr4).2 ∧ ((t.ret = 0 ∧ t.sent = []) ∨
    (p.isTCP || p.isUDP) = true ∧ ∃ f nat₁ q keep,
      sm.getMapping4 ⟨p.daddr4, p.getDestPort⟩ p.saddr4 = some f ∧
      nat₁ = { nat with ip6p_ := (sm.flowAt f).ip6p, modified_ := false } ∧
      q = nat₁.rewrite (sm.isAddrInRange4 p.daddr4).2 p ∧ t.ret = 1 ∧
      t.sent = [.v6 q.obuf_ q.obuf_len_ q.daddr6 keep]) := by
  obtain ⟨_, _, _, hr⟩ := hp
  obtain ⟨-, hw, hv, hip, -⟩ := Packet.receive_v4 hr
  have hne : ¬p.hw_protocol = ETHERTYPE_IPV6 := by rw [hw]; decide
  have hver : ¬p.getIPVersion = 4 := by simp [Packet.getIPVersion, hv]
  have hrange : NAT.inRange sm p = .ok (sm.isAddrInRange4 p.daddr4) := by
    simp [NAT.inRange, hmode, hne, Packet.getDest4, hip]
  obtain ⟨ok, sm₀, hr, h⟩ := translateWith_cases hmode ht
  obtain ⟨rfl, rfl⟩ : ok = (sm.isAddrInRange4 p.daddr4).1 ∧ sm₀ = (sm.isAddrInRange4 p.daddr4).2 := by
    rw [hrange] at hr
    exact Prod.mk.inj (Except.ok.inj hr.symm)
  have hsame : ∀ k srv, (sm.isAddrInRange4 p.daddr4).2.getMapping4 k srv = sm.getMapping4 k srv := fun _ _ ↦ rfl
  have hflow : ∀ f, (sm.isAddrInRange4 p.daddr4).2.flowAt f = sm.flowAt f := fun _ ↦ rfl
  have hmode₁ : (sm.isAddrInRange4 p.daddr4).2.analysisMode = false := hmode
  clear ht
  generalize (sm.isAddrInRange4 p.daddr4).2 = sm₁ at h hsame hflow hmode₁ ⊢
  rcases h with ⟨-, rfl⟩ | ⟨hok, rc, nat₁, sm₂, hb, h⟩
  · exact ⟨rfl, .inl ⟨rfl, rfl⟩⟩
  rcases begin_cases hb with ⟨he, -⟩ | ⟨-, f, hf, rfl, rfl, rfl⟩ | ⟨-, -, rfl, rfl, rfl⟩
  · exact absurd he hver
  · rcases h with ⟨hrc, -⟩ | ⟨-, a, ha, h⟩
    · exact absurd rfl hrc
    cases ha
    rcases h with ⟨hm, -⟩ | ⟨-, sm₃, p₃, sent, hs, rfl⟩
    · rw [hmode₁] at hm
      cases hm
    rw [hsame] at hf
    rw [hflow] at hs
    obtain ⟨m, hm⟩ := rewrite_withObuf { nat with ip6p_ := (sm.flowAt f).ip6p, modified_ := false } sm₂ p
    rw [hm] at hs
    obtain ⟨keep, rfl, rfl⟩ : ∃ keep, sm₃ = sm₂ ∧
        sent = [.v6 m p.obuf_len_ (p.withObuf m).daddr6 keep] := by
      unfold NAT.send NAT.doExtraTCP at hs
      rw [if_neg (by exact hne)] at hs
      simp only [hidle] at hs
      split at hs
      · split at hs
        · cases hs
        · cases hs
          exact ⟨_, rfl, rfl⟩
      · cases hs
        exact ⟨_, rfl, rfl⟩
    exact ⟨rfl, .inr ⟨hok.2, f, _, _, keep, hf, rfl, rfl, rfl, by rw [hm]; rfl⟩⟩
  · rcases h with ⟨-, rfl⟩ | ⟨hrc, -⟩
    · exact ⟨rfl, .inl ⟨rfl, rfl⟩⟩
    · exact absurd hrc (by decide)

theorem translate_read_other {hw : UInt16} (hmode : sm.analysisMode = false) (hp : p.Read hw)
    (h₆ : hw ≠ ETHERTYPE_IPV6) (h₄ : hw ≠ ETHERTYPE_IP) : nat.translate sm p = .error .wildPointer := by
  obtain ⟨junk, buf, len, hr⟩ := hp
  obtain ⟨hw', hip⟩ : p.hw_protocol = hw ∧ p.ip_ = none := by
    unfold Packet.receive at hr
    split at hr
    · cases hr
    case h_2 q hq =>
      unfold Packet.setIbuf at hq
      split at hq
      · cases hq
      · cases hq
        unfold Packet.unpack at hr
        rw [if_neg (by exact h₆), if_neg (by exact h₄)] at hr
        cases hr
        exact ⟨rfl, rfl⟩
  have hr : NAT.inRange sm p = .error .wildPointer := by
    simp [NAT.inRange, hmode, hw', h₆, Packet.getDest4, hip]
  unfold NAT.translate NAT.translateWith
  rw [hr]
  rfl

theorem Packet.Received.read {hw : UInt16} (h : p.Received hw) : p.Read hw :=
  let ⟨junk, buf, hr⟩ := h.source
  ⟨junk, buf, _, hr⟩

namespace System

/-- What holds in every run in which no packet is handed to the parsers. -/
structure Idle (prefix_ : IPv6Addr) (s : System σ) : Prop where
  mode : s.sm.analysisMode = false
  prefix_eq : s.sm.prefix_ = prefix_
  exttcpflow_ : ∀ w, (s.nats w).exttcpflow_ = none

variable {prefix_ : IPv6Addr} {s s' : System σ}

theorem Idle.start (prefix_ : IPv6Addr) (extra : EXTRAType) (protocols : OrderedMap String Protocol nameLt)
    (ips : List IPv4Addr) : (start (configured prefix_ extra protocols ips) : System σ).Idle prefix_ := by
  obtain ⟨_, _, he⟩ := configured_eq (σ := σ) prefix_ extra protocols ips
  exact ⟨by rw [System.start, he]; rfl, by rw [System.start, he]; rfl, fun _ ↦ rfl⟩

theorem Idle.step {l : Handled σ} (h : s.Idle prefix_) (hs : s.Step NAT.noApp l s') : s'.Idle prefix_ := by
  obtain ⟨ht, rfl⟩ := hs
  have hg : Grown [] s.sm l.res.sm := @translate_grown _ [] _ List.nodup_nil _ _ _ h.mode ht
  refine ⟨hg.analysisMode.trans h.mode, hg.prefix_.trans h.prefix_eq, fun w ↦ ?_⟩
  rcases eq_or_ne w l.worker with rfl | hne
  · rw [after_nats_self]
    exact (translate_exttcpflow h.mode ht).trans (h.exttcpflow_ l.worker)
  · rw [after_nats_ne s hne]
    exact h.exttcpflow_ w

theorem Idle.run {ls : List (Handled σ)} (h : s.Idle prefix_) (hs : Run (Step NAT.noApp) s ls s') :
    s'.Idle prefix_ :=
  hs.invariant (fun _ _ _ h hl ↦ h.step hl) h

end System

end Nat64Alg
