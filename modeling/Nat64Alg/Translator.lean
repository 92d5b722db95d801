import Nat64Alg.Nat64
import Nat64Alg.Sessions

namespace Nat64Alg

open Lib StateManager

variable {σ : Type} {conf : Conf} {sm sm' : StateManager σ} {held : List Key64} {p : Packet} {nat : NAT}

/-- A packet of one of the two protocols, as a reader makes it. -/
def Packet.Arrived (p : Packet) : Prop := p.Read ETHERTYPE_IPV6 ∨ p.Read ETHERTYPE_IP

theorem isAddrInRange6_prefix (h : sm.prefix_ = conf.prefix_) {a : IPv6Addr} :
    sm.isAddrInRange6 a = true ↔ a = ⟨{ conf.prefix_.ip_ with w₃ := a.ip_.w₃ }⟩ := by
  rw [isAddrInRange6_iff, getServerAddr6, h]
  exact eq_comm

theorem arrival_v6 (h : sm.prefix_ = conf.prefix_) (hw : p.hw_protocol = ETHERTYPE_IPV6) :
    conf.arrival p = if sm.isAddrInRange6 p.daddr6 = true ∧ (p.isTCP || p.isUDP) = true then
      .client (⟨p.saddr6, p.getSourcePort⟩, p.daddr6) else .other := by
  unfold Conf.arrival
  simp only [if_pos hw, isAddrInRange6_prefix h]
  cases (p.isTCP || p.isUDP) <;> simp

theorem arrival_v4 (h : ∀ ip, (sm.isAddrInRange4 ip).1 = decide (ip ∈ conf.ips)) (hw : p.hw_protocol = ETHERTYPE_IP) :
    conf.arrival p = if (sm.isAddrInRange4 p.daddr4).1 = true ∧ (p.isTCP || p.isUDP) = true then
      .server (⟨p.daddr4, p.getDestPort⟩, p.saddr4) else .other := by
  have hne : ¬p.hw_protocol = ETHERTYPE_IPV6 := by rw [hw]; decide
  unfold Conf.arrival
  simp only [if_neg hne, h, decide_eq_true_eq]
  cases (p.isTCP || p.isUDP) <;> simp

section Emit

theorem rewrite_v6_congr {τ : Type} {nat' : NAT} {sm₂ : StateManager τ} (hv : p.ipVersionBefore_ = 6)
    (hip : p.ip6_ = some .ibuf) (ht : p.transport = some 20) (h : nat'.ip4p_ = nat.ip4p_) :
    nat'.rewrite sm₂ p = nat.rewrite sm p := by
  unfold NAT.rewrite
  rw [NAT.doIP_v6 hv hip ht, NAT.doIP_v6 hv hip ht, h]

theorem rewrite_v4_congr {τ : Type} {nat' : NAT} {sm₂ : StateManager τ} (hv : p.ipVersionBefore_ = 4)
    (hip : p.ip_ = some .ibuf) (ht : p.transport = some 40) (h : nat'.ip6p_ = nat.ip6p_)
    (hpfx : sm₂.prefix_ = sm.prefix_) : nat'.rewrite sm₂ p = nat.rewrite sm p := by
  unfold NAT.rewrite
  rw [NAT.doIP_v4 hv hip ht, NAT.doIP_v4 hv hip ht, h, getServerAddr6, getServerAddr6, hpfx]

theorem send_toServer (conf : Conf) (hp : p.Read ETHERTYPE_IPV6) (ht : (p.isTCP || p.isUDP) = true)
    {sm₃ : StateManager σ}
    {q : Packet} {sent : List Sent} (h : nat.send sm (nat.rewrite sm p) = .ok (sm₃, q, sent)) :
    sm₃ = sm ∧ sent = conf.emit p (.toServer nat.ip4p_) := by
  obtain ⟨_, _, _, hr⟩ := hp
  obtain ⟨hu, hw, hv, -, hip⟩ := Packet.receive_v6 hr
  have htr := (hu.check_tcp (by rw [Packet.transport_isSome]; exact ht)).2.2
  obtain ⟨m, hm⟩ := rewrite_withObuf nat sm p
  have hemit : conf.emit p (.toServer nat.ip4p_) = [.v4 (nat.rewrite sm p).obuf_ (nat.rewrite sm p).obuf_len_
      (nat.rewrite sm p).daddr4] := by
    have hrw : NAT.rewrite { NAT.new 0 with ip4p_ := nat.ip4p_ }
        (start conf.prefix_ .NONE .empty : StateManager Unit) p = nat.rewrite sm p :=
      rewrite_v6_congr hv hip htr rfl
    simp only [Conf.emit, hrw]
  unfold NAT.send at h
  rw [if_pos (by rw [hm]; exact hw)] at h
  cases h
  exact ⟨rfl, hemit.symm⟩

theorem send_toClient (hp : p.Read ETHERTYPE_IP) (ht : (p.isTCP || p.isUDP) = true) (hpfx : sm.prefix_ = conf.prefix_)
    (hidle : nat.exttcpflow_ = none) (hmod : nat.modified_ = false) {sm₃ : StateManager σ} {q : Packet}
    {sent : List Sent} (h : nat.send sm (nat.rewrite sm p) = .ok (sm₃, q, sent)) :
    sm₃ = sm ∧ sent = conf.emit p (.toClient nat.ip6p_) := by
  obtain ⟨_, _, _, hr⟩ := hp
  obtain ⟨hu, hw, hv, hip, -⟩ := Packet.receive_v4 hr
  have htr := (hu.check_tcp (by rw [Packet.transport_isSome]; exact ht)).2.2
  obtain ⟨m, hm⟩ := rewrite_withObuf nat sm p
  have hemit : conf.emit p (.toClient nat.ip6p_) = [.v6 (nat.rewrite sm p).obuf_ (nat.rewrite sm p).obuf_len_
      (nat.rewrite sm p).daddr6
      ((nat.rewrite sm p).transport_len_ - (nat.rewrite sm p).getTransportHeaderLen == 0)] := by
    have hrw : NAT.rewrite { NAT.new 0 with ip6p_ := nat.ip6p_ }
        (start conf.prefix_ .NONE .empty : StateManager Unit) p = nat.rewrite sm p :=
      rewrite_v4_congr hv hip htr rfl hpfx.symm
    simp only [Conf.emit, hrw]
  unfold NAT.send at h
  rw [if_neg (by rw [hm]; change p.hw_protocol ≠ _; rw [hw]; decide)] at h
  simp only [hmod, Bool.false_or, NAT.doExtraTCP, hidle] at h
  split at h
  · split at h
    · cases h
    · cases h
      exact ⟨rfl, hemit.symm⟩
  · cases h
    exact ⟨rfl, hemit.symm⟩

theorem Packet.Arrived.read_v6 (hp : p.Arrived) (hv : p.getIPVersion = 4) : p.Read ETHERTYPE_IPV6 := by
  refine hp.resolve_right ?_
  rintro ⟨_, _, _, hr⟩
  simp [Packet.getIPVersion, (Packet.receive_v4 hr).2.2.1] at hv

theorem Packet.Arrived.read_v4 (hp : p.Arrived) (hv : ¬p.getIPVersion = 4) : p.Read ETHERTYPE_IP := by
  refine hp.resolve_left ?_
  rintro ⟨_, _, _, hr⟩
  exact hv (by simp [Packet.getIPVersion, (Packet.receive_v6 hr).2.2.1])

theorem send_emit (hp : p.Arrived) (ht : (p.isTCP || p.isUDP) = true) (hpfx : sm.prefix_ = conf.prefix_)
    (hidle : nat.exttcpflow_ = none) (hmod : nat.modified_ = false) {sm₃ : StateManager σ} {q : Packet}
    {sent : List Sent} (h : nat.send sm (nat.rewrite sm p) = .ok (sm₃, q, sent)) : sm₃ = sm ∧
      sent = conf.emit p (if p.getIPVersion = 4 then .toServer nat.ip4p_ else .toClient nat.ip6p_) := by
  split
  case isTrue hv => exact send_toServer conf (hp.read_v6 hv) ht h
  case isFalse hv => exact send_toClient (hp.read_v4 hv) ht hpfx hidle hmod h

theorem send_arrived (hp : p.Arrived) (hshort : p.ibuf_len_ ≤ READ_LEN) :
    ∃ r, nat.send sm (nat.rewrite sm p) = .ok r := by
  obtain ⟨m, hm⟩ := rewrite_withObuf nat sm p
  have hlen : ¬(p.obuf_len_ < 0 ∨ 65535 < p.obuf_len_) := by
    unfold READ_LEN at hshort
    rcases hp with ⟨_, _, _, hr⟩ | ⟨_, _, _, hr⟩
    · obtain ⟨hu, -⟩ := Packet.receive_v6 hr
      have h₂ := hu.obuf_len_
      have h₃ := hu.fits
      omega
    · obtain ⟨hu, -⟩ := Packet.receive_v4 hr
      have h₂ := hu.obuf_len_
      have h₃ := hu.fits
      omega
  unfold NAT.send
  dsimp only
  split
  · exact ⟨_, rfl⟩
  · split
    · rw [hm]
      exact ⟨_, if_neg hlen⟩
    · exact ⟨_, rfl⟩

end Emit

/-- The state manager of a translator whose sessions are `held`. -/
structure Serves (conf : Conf) (sm : StateManager σ) (held : List Key64) : Prop extends Represents conf sm held where
  mode : sm.analysisMode = false
  prefix_eq : sm.prefix_ = conf.prefix_
  range : ∀ ip, (sm.isAddrInRange4 ip).1 = decide (ip ∈ conf.ips)

namespace Serves

theorem of_grown {held' : List Key64} (h : Serves conf sm held) (hg : Grown conf.ips sm sm')
    (hr : Represents conf sm' held') : Serves conf sm' held' :=
  ⟨hr, hg.analysisMode.trans h.mode, hg.prefix_.trans h.prefix_eq, fun ip ↦ (hg.range ip).trans (h.range ip)⟩

theorem configured (conf : Conf) (extra : EXTRAType) (protocols : OrderedMap String Protocol nameLt) :
    Serves conf (configured conf.prefix_ extra protocols conf.ips : StateManager σ) [] := by
  refine ⟨.configured conf extra protocols, configured_mode _ _ _ _, ?_, fun ip ↦ ?_⟩
  · obtain ⟨_, _, he⟩ := configured_eq (σ := σ) conf.prefix_ extra protocols conf.ips
    rw [he]
    rfl
  · simp only [isAddrInRange4, OrderedMap.index_fst]
    generalize conf.ips = ips
    induction ips using List.reverseRecOn with
    | nil => rfl
    | append_singleton ips ip' ih =>
      have hc : (StateManager.configured conf.prefix_ extra protocols (ips ++ [ip']) : StateManager σ) =
          (StateManager.configured conf.prefix_ extra protocols ips).addIPv4Pool ip' := by
        simp [StateManager.configured]
      have hword : equiv wordLt ip.getInt ip'.getInt = true ↔ ip = ip' := by
        refine ((OrderedMap.equiv_of_key UInt32.toNat (fun _ _ ↦ rfl)).trans UInt32.toNat_inj).trans ?_
        exact ⟨fun h ↦ by cases ip; cases ip'; simpa [IPv4Addr.getInt] using h, congrArg _⟩
      rw [hc, addIPv4Pool, OrderedMap.find?_insert]
      split
      case isTrue he => simp [hword.mp he]
      case isFalse hne =>
        have hne' : ¬ip = ip' := fun h ↦ hne (hword.mpr h)
        rw [ih]
        simp [hne']

theorem grown (h : Serves conf sm held) (hg : Grown conf.ips sm sm') (ha : sm'.addrs = sm.addrs)
    (hp : sm'.pool_ = sm.pool_) : Serves conf sm' held :=
  h.of_grown hg (h.toRepresents.of_addrs (hg.coherent h.coherent) ha hp)

theorem setTid (h : Serves conf sm held) (f : ℕ) (tid : Int) : Serves conf (sm.setTid f tid) held := by
  refine h.grown (.setTid f tid) ?_ ?_
  · unfold StateManager.setTid
    split
    · exact addrs_setFlow rfl
    · rfl
  · unfold StateManager.setTid
    split <;> rfl

theorem setCurIPv6SrvAddr (h : Serves conf sm held) (a : IPv6Addr) : Serves conf (sm.setCurIPv6SrvAddr a) held :=
  h.grown (.setCurIPv6SrvAddr sm a) rfl rfl

theorem isAddrInRange4 (h : Serves conf sm held) (ip : IPv4Addr) : Serves conf (sm.isAddrInRange4 ip).2 held :=
  h.grown (.isAddrInRange4 sm ip) rfl rfl

theorem inRange (h : Serves conf sm held) (hp : p.Arrived) : ∃ ok sm', NAT.inRange sm p = .ok (ok, sm') ∧
    Serves conf sm' held ∧ conf.arrival p = if ok = true ∧ (p.isTCP || p.isUDP) = true then
      if p.getIPVersion = 4 then .client (⟨p.saddr6, p.getSourcePort⟩, p.daddr6)
      else .server (⟨p.daddr4, p.getDestPort⟩, p.saddr4)
    else .other := by
  rcases hp with ⟨_, _, _, hr⟩ | ⟨_, _, _, hr⟩
  · obtain ⟨-, hw, hv, -, hip⟩ := Packet.receive_v6 hr
    have hver : p.getIPVersion = 4 := by simp [Packet.getIPVersion, hv]
    refine ⟨sm.isAddrInRange6 p.daddr6, sm, by simp [NAT.inRange, h.mode, hw, Packet.getDest6, hip], h, ?_⟩
    rw [if_pos hver]
    exact arrival_v6 h.prefix_eq hw
  · obtain ⟨-, hw, hv, hip, -⟩ := Packet.receive_v4 hr
    have hne : ¬p.hw_protocol = ETHERTYPE_IPV6 := by rw [hw]; decide
    have hver : ¬p.getIPVersion = 4 := by simp [Packet.getIPVersion, hv]
    refine ⟨(sm.isAddrInRange4 p.daddr4).1, (sm.isAddrInRange4 p.daddr4).2, ?_, h.isAddrInRange4 _, ?_⟩
    · simp [NAT.inRange, h.mode, hne, Packet.getDest4, hip]
    · rw [if_neg hver]
      exact arrival_v4 h.range hw

theorem of_inRange (h : Serves conf sm held) (hp : p.Arrived) {ok : Bool} (hr : NAT.inRange sm p = .ok (ok, sm')) :
    Serves conf sm' held ∧ conf.arrival p = if ok = true ∧ (p.isTCP || p.isUDP) = true then
      if p.getIPVersion = 4 then .client (⟨p.saddr6, p.getSourcePort⟩, p.daddr6)
      else .server (⟨p.daddr4, p.getDestPort⟩, p.saddr4)
    else .other := by
  obtain ⟨ok', sm₁, hr', h'⟩ := h.inRange hp
  rw [hr] at hr'
  cases hr'
  exact h'

theorem translate (h : Serves conf sm held) (hips : conf.ips.Nodup) (hidle : nat.exttcpflow_ = none) (hp : p.Arrived)
    {t : NAT.Translated σ} (ht : nat.translate sm p = .ok t) :
    ∃ held', conf.translator held p = some (t.sent, held') ∧ Serves conf t.sm held' := by
  obtain ⟨ok, sm₁, hr, hcase⟩ := translateWith_cases h.mode ht
  clear ht
  obtain ⟨h₁, harr⟩ := h.of_inRange hp hr
  unfold Conf.translator Machine.through
  rcases hcase with ⟨hn, rfl⟩ | ⟨hok, rc, nat₁, sm₂, hb, hcase⟩
  · rw [harr, if_neg hn]
    exact ⟨held, rfl, h₁⟩
  rw [harr, if_pos hok]
  have hg := begin_grown (nodup_pools hips) hb
  have hmode : sm₂.analysisMode = false := hg.analysisMode.trans h₁.mode
  rcases begin_cases hb with ⟨hv, f, sm₃, hd, rfl, rfl, rfl⟩ | ⟨hv, f, hf, rfl, rfl, rfl⟩ | ⟨hv, hf, rfl, rfl, rfl⟩
  · rcases hcase with ⟨hrc, -⟩ | ⟨-, a, ha, hcase⟩
    · exact absurd rfl hrc
    cases ha
    rcases hcase with ⟨hm, -⟩ | ⟨-, sm₄, q, sent, hs, rfl⟩
    · exact absurd (hm.symm.trans hmode) (by simp)
    obtain ⟨rfl, rfl⟩ := send_toServer conf (hp.read_v6 hv) hok.2 hs
    rw [if_pos hv]
    rcases h₁.toRepresents.doMapping hips hd with ⟨g, held', hg', hrep, hnat, -⟩ | ⟨hnone, -⟩
    · cases hg'
      have hgd := Grown.doMapping (nodup_pools hips) sm₁ ⟨p.saddr6, p.getSourcePort⟩ p.daddr6
      rw [hd] at hgd
      refine ⟨held', ?_, ((h₁.of_grown hgd hrep).setTid f nat.tid).setCurIPv6SrvAddr _⟩
      rw [hnat]
      rfl
    · cases hnone
  · rcases hcase with ⟨hrc, -⟩ | ⟨-, a, ha, hcase⟩
    · exact absurd rfl hrc
    cases ha
    rcases hcase with ⟨hm, -⟩ | ⟨-, sm₄, q, sent, hs, rfl⟩
    · exact absurd (hm.symm.trans hmode) (by simp)
    obtain ⟨rfl, rfl⟩ := send_toClient (hp.read_v4 hv) hok.2 h₁.prefix_eq (by exact hidle) (by rfl) hs
    rw [if_neg hv, h₁.toRepresents.getMapping4, hf]
    exact ⟨held, rfl, h₁⟩
  · rcases hcase with ⟨-, hcase⟩ | ⟨hrc, -⟩
    · rw [hcase, if_neg hv, h₁.toRepresents.getMapping4, hf]
      exact ⟨held, rfl, h₁⟩
    · exact absurd hrc (by decide)

theorem begin_error (h : Serves conf sm held) (hips : conf.ips.Nodup) {e : Fault} (hb : nat.begin sm p = .error e) :
    e = .nullFlow ∧ p.getIPVersion = 4 ∧
      nat64 conf.pool held (.client (⟨p.saddr6, p.getSourcePort⟩, p.daddr6)) = none := by
  by_cases hv : p.getIPVersion = 4
  · rcases hd : sm.doMapping ⟨p.saddr6, p.getSourcePort⟩ p.daddr6 with ⟨r, sm₁⟩
    rcases h.toRepresents.doMapping hips hd with ⟨f, held', rfl, -, -, -⟩ | ⟨rfl, hnat⟩
    · rw [begin_v6 hv hd] at hb
      cases hb
    · rw [begin_v6_null hv hd] at hb
      cases hb
      exact ⟨rfl, hv, hnat⟩
  · cases hf : sm.getMapping4 ⟨p.daddr4, p.getDestPort⟩ p.saddr4 with
    | none =>
      rw [begin_v4_none hv hf] at hb
      cases hb
    | some f =>
      rw [begin_v4 hv hf] at hb
      cases hb

theorem translate_error (h : Serves conf sm held) (hips : conf.ips.Nodup) (hp : p.Arrived)
    (hshort : p.ibuf_len_ ≤ READ_LEN) {e : Fault} (ht : nat.translate sm p = .error e) :
    e = .nullFlow ∧ conf.translator held p = none := by
  obtain ⟨ok, sm₁, hr, h₁, harr⟩ := h.inRange hp
  by_cases hok : ok = true ∧ (p.isTCP || p.isUDP) = true
  · rw [if_pos hok] at harr
    rw [hok.1] at hr
    have hn : ¬(!true || !p.isTCP && !p.isUDP) = true := by
      have htr := hok.2
      cases hp₁ : p.isTCP <;> cases hp₂ : p.isUDP <;> simp_all
    cases hb : nat.begin sm₁ p with
    | error e' =>
      obtain ⟨rfl, hv, hnat⟩ := h₁.begin_error hips hb
      have hstop : nat.translate sm p = .error .nullFlow := by
        unfold NAT.translate NAT.translateWith
        rw [hr]
        simp only [bind, Except.bind, if_neg hn, h₁.mode, hb]
        rfl
      rw [hstop] at ht
      cases ht
      rw [if_pos hv] at harr
      exact ⟨rfl, by rw [Conf.translator, Machine.through, harr, hnat]; rfl⟩
    | ok r =>
      obtain ⟨rc, nat₁, sm₂⟩ := r
      have hmode : sm₂.analysisMode = false := (begin_grown (nodup_pools hips) hb).analysisMode.trans h₁.mode
      obtain ⟨⟨sm₃, q, sent⟩, hs⟩ := @send_arrived _ sm₂ _ { nat₁ with modified_ := false } hp hshort
      by_cases hrc : rc = 0
      · subst hrc
        rw [show nat.translate sm p = _ from translateWith_ok hr hok.2 h₁.mode hb rfl hmode hs] at ht
        cases ht
      · have hend : nat.translate sm p = .ok ⟨0, nat₁, sm₂, p, [], [], none⟩ := by
          unfold NAT.translate NAT.translateWith
          rw [hr]
          simp only [bind, Except.bind, if_neg hn, h₁.mode, hb]
          exact if_pos hrc
        rw [hend] at ht
        cases ht
  · have hn : (!ok || !p.isTCP && !p.isUDP) = true := by
      revert hok
      cases ok <;> cases p.isTCP <;> cases p.isUDP <;> simp
    have hend : nat.translate sm p = .ok ⟨0, nat, sm₁, p, [], [], none⟩ := by
      unfold NAT.translate NAT.translateWith
      rw [hr]
      exact if_pos hn
    rw [hend] at ht
    cases ht

end Serves

section Runs

variable {extra : EXTRAType} {protocols : OrderedMap String Protocol nameLt} {s s' : System σ} {ls : List (Handled σ)}

theorem Serves.step (h : Serves conf s.sm held) (hips : conf.ips.Nodup) (hidle : s.Idle conf.prefix_) {l : Handled σ}
    (hl : l.pkt.Arrived) (hs : s.Step NAT.noApp l s') :
    ∃ held', conf.translator held l.pkt = some (l.res.sent, held') ∧ Serves conf s'.sm held' := by
  obtain ⟨ht, rfl⟩ := hs
  exact h.translate hips (hidle.exttcpflow_ l.worker) hl ht

theorem serves_start (extra : EXTRAType) (protocols : OrderedMap String Protocol nameLt) :
    Serves conf (System.start (configured conf.prefix_ extra protocols conf.ips) : System σ).sm [] ∧
      (System.start (configured conf.prefix_ extra protocols conf.ips) : System σ).Idle conf.prefix_ :=
  ⟨.configured conf extra protocols, .start _ _ _ _⟩

/-- Over every run of the workers, each packet handled whole, what is sent for the packets is what the machine
makes of them; and the program stops, on a null flow, exactly where the machine stops. -/
theorem translator_run (hips : conf.ips.Nodup)
    (h : Run (System.Step NAT.noApp) (.start (configured conf.prefix_ extra protocols conf.ips)) ls s)
    (hread : ∀ l ∈ ls, l.pkt.Arrived) :
    ∃ held, conf.translator.run [] (ls.map Handled.pkt) = some (ls.map (fun l ↦ l.res.sent), held) ∧
      Represents conf s.sm held ∧ ∀ w p e, p.Arrived → p.ibuf_len_ ≤ READ_LEN →
        ((s.nats w).translate s.sm p = .error e ↔ e = .nullFlow ∧ conf.translator held p = none) := by
  obtain ⟨held, hrun, hserves, hend⟩ : ∃ held,
      conf.translator.run [] (ls.map Handled.pkt) = some (ls.map (fun l ↦ l.res.sent), held) ∧
      Serves conf s.sm held ∧ s.Idle conf.prefix_ := by
    refine Machine.refines (R := fun s held ↦ Serves conf s.sm held ∧ s.Idle conf.prefix_) ?_
      (h.restrict hread) (serves_start extra protocols)
    rintro s l s' held ⟨hS, hI⟩ ⟨hs, hl⟩
    obtain ⟨held', hm, hS'⟩ := hS.step hips hI hl hs
    exact ⟨held', hm, hS', hI.step hs⟩
  refine ⟨held, hrun, hserves.toRepresents, fun w p e hp hshort ↦
    ⟨fun ht ↦ hserves.translate_error hips hp hshort ht, ?_⟩⟩
  rintro ⟨rfl, hnone⟩
  cases ht : (s.nats w).translate s.sm p with
  | ok t =>
    obtain ⟨held', hsome, -⟩ := hserves.translate hips (hend.exttcpflow_ w) hp ht
    rw [hnone] at hsome
    cases hsome
  | error e => rw [(hserves.translate_error hips hp hshort ht).1]

/-- The configuration of `example.conf`. -/
def exampleNat64 : Conf := ⟨⟨⟨ntohl 0x20030000, 0, 0, 0⟩⟩, [⟨ntohl 0x0a141e28⟩]⟩

/-- Packets of two clients to two servers, among them the answer of one of the servers. -/
def exchange : List (ℕ × Packet) :=
  [(0, .tcp6 clientA serverS 1024 80 1 1 []), (1, .tcp6 clientB serverT 1025 80 1 1 [0x61]),
    (0, .tcp4 ⟨ntohl 0xc0000202⟩ ⟨ntohl 0x0a141e28⟩ 80 32001 7 2 [0x62]), (2, .tcp6 clientA serverT 1026 80 1 1 [])]

theorem exchange_arrived : ∀ c ∈ exchange, c.2.Arrived ∧ c.2.ibuf_len_ ≤ READ_LEN := by
  have h₆ : ∀ src dst sport data, data.length ≤ 1 → (Packet.tcp6 src dst sport 80 1 1 data).Arrived ∧
      (Packet.tcp6 src dst sport 80 1 1 data).ibuf_len_ ≤ READ_LEN := by
    intro src dst sport data h
    have hin := (Packet.tcp6_in6 src dst sport 80 1 1 (h.trans (by decide))).1.toReceived
    exact ⟨.inl hin.read, hin.short⟩
  have h₄ := (@Packet.tcp4_in4 ⟨ntohl 0xc0000202⟩ ⟨ntohl 0x0a141e28⟩ 80 32001 7 2 [0x62] (by decide)).1.toReceived
  simp only [exchange, List.forall_mem_cons]
  exact ⟨h₆ _ _ _ _ (by decide), h₆ _ _ _ _ (by decide), ⟨.inr h₄.read, h₄.short⟩, h₆ _ _ _ _ (by decide), by simp⟩

/-- What is sent for the exchange, the answer included, is what the machine makes of it. -/
theorem translator_run_exchange : ∃ (ls : List (Handled Unit)) (s : System Unit) (held : List Key64),
    Run (System.Step NAT.noApp) (.start exampleConf) ls s ∧ ls.map (fun l ↦ (l.worker, l.pkt)) = exchange ∧
      ls.map (fun l ↦ l.res.sent.length) = [1, 1, 1, 1] ∧
      exampleNat64.translator.run [] (ls.map Handled.pkt) = some (ls.map (fun l ↦ l.res.sent), held) ∧
      Represents exampleNat64 s.sm held := by
  have hrun := @System.perform_run _ NAT.noApp (.start (exampleConf : StateManager Unit)) exchange
  have hsent : (System.perform NAT.noApp (.start (exampleConf : StateManager Unit)) exchange).1.map
      (fun l ↦ l.res.sent.length) = [1, 1, 1, 1] := by decide +kernel
  have hlen := congrArg List.length hsent
  rw [List.length_map] at hlen
  have hall := System.perform_all (hlen.trans rfl)
  obtain ⟨held, hm, hrep, -⟩ := @translator_run _ exampleNat64 _ _ _ _ (List.nodup_singleton _) hrun
    (fun l hl ↦ (exchange_arrived _ (System.perform_mem hl)).1)
  exact ⟨_, _, held, hrun, hall, hsent, hm, hrep⟩

theorem length_pool (conf : Conf) : conf.pool.length = conf.ips.length * poolSize := by
  simp [Conf.pool, length_poolOf]

def Conf.made (conf : Conf) (ps : List Packet) : List Key64 :=
  Allotment.firsts clientPort [] (clients (ps.map conf.arrival))

theorem Conf.length_made (conf : Conf) (ps : List Packet) :
    (conf.made ps).length = ((clients (ps.map conf.arrival)).map clientPort).toFinset.card :=
  Allotment.length_firsts _

theorem Conf.length_made_map {J : Type*} (conf : Conf) (f : J → Packet) (js : List J) :
    (conf.made (js.map f)).length =
      ((clients (js.map (fun j ↦ conf.arrival (f j)))).map clientPort).toFinset.card := by
  rw [Conf.length_made, List.map_map]
  rfl

theorem Conf.run_translator {ps : List Packet} {outs : List (List Sent)} :
    conf.translator.run [] ps = some (outs, held) ↔ held = conf.made ps ∧ held.length ≤ conf.pool.length ∧
      outs = ps.mapIdx (fun n p ↦ conf.emit p (departs conf.pool (conf.made (ps.take (n + 1))) (conf.arrival p))) :=
  nat64_through

/-- The packets alone decide a run: it goes on as long as the pool has an endpoint for each client port among
them, and each packet is sent by the sessions that those before it and it itself have made. -/
theorem run_iff (hips : conf.ips.Nodup) {calls : List (ℕ × Packet)}
    (hread : ∀ c ∈ calls, c.2.Arrived ∧ c.2.ibuf_len_ ≤ READ_LEN) {outs : List (List Sent)} :
    (∃ (ls : List (Handled σ)) (s : System σ),
      Run (System.Step NAT.noApp) (.start (configured conf.prefix_ extra protocols conf.ips)) ls s ∧
      ls.map (fun l ↦ (l.worker, l.pkt)) = calls ∧ ls.map (fun l ↦ l.res.sent) = outs) ↔
    ((clients (calls.map (fun c ↦ conf.arrival c.2))).map clientPort).toFinset.card ≤ conf.ips.length * poolSize ∧
      outs = (calls.map Prod.snd).mapIdx (fun n p ↦
        conf.emit p (departs conf.pool (conf.made ((calls.map Prod.snd).take (n + 1))) (conf.arrival p))) := by
  have hmap : ∀ ls : List (Handled σ), ls.map Handled.pkt = (ls.map (fun l ↦ (l.worker, l.pkt))).map Prod.snd := by
    intro ls
    rw [List.map_map]
    rfl
  rw [← Conf.length_made_map conf Prod.snd calls, ← length_pool]
  constructor
  · rintro ⟨ls, s, hrun, rfl, rfl⟩
    obtain ⟨held, hm, -, -⟩ := translator_run hips hrun (fun l hl ↦ (hread _ (List.mem_map_of_mem hl)).1)
    rw [hmap] at hm
    obtain ⟨rfl, hlen, houts⟩ := Conf.run_translator.mp hm
    exact ⟨hlen, houts⟩
  · rintro ⟨hlen, rfl⟩
    have hfollow : ∀ (s : System σ) (held : List Key64) (c : ℕ × Packet) (o : List Sent) (held' : List Key64),
        Serves conf s.sm held ∧ s.Idle conf.prefix_ → c.2.Arrived ∧ c.2.ibuf_len_ ≤ READ_LEN →
        conf.translator held c.2 = some (o, held') → ∃ l s', s.Step NAT.noApp l s' ∧ (l.worker, l.pkt) = c ∧
          l.res.sent = o ∧ Serves conf s'.sm held' ∧ s'.Idle conf.prefix_ := by
      rintro s held ⟨w, p⟩ o held' ⟨hS, hI⟩ ⟨hp, hshort⟩ hm
      cases ht : (s.nats w).translate s.sm p with
      | error e =>
        rw [(hS.translate_error hips hp hshort ht).2] at hm
        cases hm
      | ok t =>
        have hstep : s.Step NAT.noApp ⟨w, p, t⟩ (s.after ⟨w, p, t⟩) := ⟨ht, rfl⟩
        obtain ⟨u, hu, hS'⟩ := hS.step hips hI hp hstep
        cases hu.symm.trans hm
        exact ⟨_, _, hstep, rfl, rfl, hS', hI.step hstep⟩
    have hm := Conf.run_translator.mpr ⟨rfl, hlen, rfl⟩
    obtain ⟨ls, s, hrun, hcalls, houts, -⟩ := Machine.realized hfollow hread (serves_start extra protocols) hm
    exact ⟨ls, s, hrun, hcalls, houts⟩

/-- The exchange uses three client ports, which the pool has room for. -/
theorem run_iff_exchange : ∃ (ls : List (Handled Unit)) (s : System Unit),
    Run (System.Step NAT.noApp) (.start exampleConf) ls s ∧ ls.map (fun l ↦ (l.worker, l.pkt)) = exchange ∧
    ls.map (fun l ↦ l.res.sent) = (exchange.map Prod.snd).mapIdx (fun n p ↦ exampleNat64.emit p (departs
      exampleNat64.pool (exampleNat64.made ((exchange.map Prod.snd).take (n + 1))) (exampleNat64.arrival p))) := by
  have hcard : ((clients (exchange.map (fun c ↦ exampleNat64.arrival c.2))).map clientPort).toFinset.card = 3 := by
    decide +kernel
  exact (@run_iff _ exampleNat64 _ _ (List.nodup_singleton _) _ exchange_arrived _).mpr
    ⟨hcard.trans_le (by decide), rfl⟩

end Runs

end Nat64Alg
