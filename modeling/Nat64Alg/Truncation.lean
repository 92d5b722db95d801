import Nat64Alg.Oversize

namespace Nat64Alg

open Lib StateManager

variable {σ : Type} {pc : ParserClass σ} {sm : StateManager σ} {nat : NAT} {p : Packet} {a b : Int} {f : ℕ}

theorem inSequence_one (f : ℕ) (d : DEST) (l : Handled σ) : InSequence f d [l] := by
  unfold InSequence
  rw [shipped_one]
  split
  · exact .singleton _
  · exact .nil

theorem cut_lost {ips : List IPv4Addr} (hips : (ips.flatMap poolOf).Nodup) (hs : Sound ips sm)
    (hextra : sm.extra ≠ .SHIFT) {l : Handled σ} (h : nat.translateWith (doApp pc) sm l.pkt = .ok l.res)
    (hon : l.On f .SERVER ∧ l.Carries) (hp : l.pkt.IsSegment) {e : Edit} (he : l.res.edit = some e)
    (hcut : e.cut = true) (hfits : 0 ≤ e.len_old + ((sortOps e.ops).map Operation.delta).sum) :
    ¬Delivered f .SERVER [l] := by
  rintro ⟨_, _, segs, hperm, -, hflat⟩
  rw [shipped_one, if_pos hon] at hperm hflat
  obtain ⟨w, p, t⟩ := l
  obtain ⟨⟨hret, hflow, hdest⟩, -⟩ := hon
  dsimp only at h hret hflow hp hdest he
  rcases translateApp_cases hips hs h with ⟨hret', -⟩ | ⟨nat₁, sm₂, out, sm₃, p₃, sent, h₂, ha, hsend, rfl⟩
  · rw [hret'] at hret
    cases hret
  dsimp only at hflow he
  have hs₂ := hs.grown h₂.grown
  obtain ⟨-, -, hfound⟩ := doApp_other hips hs₂.mode ha
  obtain ⟨a, b, hseg, -⟩ := hp.segment
  obtain ⟨hpass, -⟩ := doApp_passed hips hs₂.coherent hs₂.mode (hfound.symm.trans hflow) hseg ha
  rw [← h₂.grown.extra] at hextra
  obtain ⟨hsegq, hfrq, -, -, hat⟩ := passed_shipment hextra hseg (hp.framed hseg) hpass
    (fun e' he' ↦ by cases he.symm.trans he'; exact hfits)
  have hT := @Packet.touched_rewrite _ out.sm out.nat _ _ hsegq.tcp_ hsegq.udp_ hfrq
  have hseg' := hT.segment hsegq
  have hat' := @segmentAt_touched _ _ _ out.pkt.obuf_len_ hT hsegq.headed
  obtain ⟨m, hm, -⟩ := hT
  rw [hm] at hsend hseg' hat'
  rw [hat, he] at hat'
  have hclient : (out.pkt.withObuf m).getDEST = .SERVER :=
    (hpass.header.getDEST.trans (adjust_getDEST _ _)).trans hdest
  rcases send_cases hseg'.headed ⟨hfrq.version, hfrq.obuf_len_⟩ hflow hsend with ⟨-, -, hsent, -⟩ | ⟨⟨-, hc, -⟩, -⟩
  · have hsegs : List.flatMap Handled.segments
      [(⟨w, p, ⟨1, out.nat, sm₃, p₃, sent, out.asked, out.edit⟩⟩ : Handled σ)] =
        [segmentAt (out.pkt.withObuf m).obuf_ out.pkt.obuf_len_ a] := by
      simp only [List.flatMap_cons, List.flatMap_nil, List.append_nil, Handled.segments]
      exact hsent
    rw [hsegs, hat'] at hperm
    rw [List.perm_singleton.mp hperm] at hflat
    have hwhole : e.kept = e.built := by simpa [Handled.built, he] using hflat
    have hlen := (Edit.length_kept hcut).1
    simp only [Edit.cut, Bool.and_eq_true, decide_eq_true_eq] at hcut
    rw [hwhole] at hlen
    omega
  · rw [hclient] at hc
    cases hc

/-- The line in a packet to the server: its tail stays in the flow. -/
theorem oversize_lost : ∃ (ls : List (Handled Unit)) (s : System Unit),
    Run (System.Step (doApp (FTPParser.only once noJunk))) (.start (ftpConf .TCP)) ls s ∧
    (∀ l ∈ ls, l.res.ret = 1 → l.res.nat.exttcpflow_ = some 0 → l.pkt.IsSegment) ∧ InSequence 0 .SERVER ls ∧
    ¬Delivered 0 .SERVER ls := by
  obtain ⟨p, hp⟩ := exists_oversize
  have hsegment := hp.segment
  obtain ⟨a, b, hseg, -⟩ := hsegment.segment
  obtain ⟨hready, hw, hv, -, hip6⟩ := hp.in6.ready
  have hs₀ : Sound [⟨ntohl 0x0a141e28⟩] (ftpConf .TCP : StateManager Unit) := Sound.start _ _ _ _
  obtain ⟨nat₁, sm₂, hb, hopen⟩ := opened .TCP hp.in6
  have hr : NAT.inRange (ftpConf .TCP : StateManager Unit) p = .ok (true, ftpConf .TCP) := by
    have : (ftpConf .TCP : StateManager Unit).isAddrInRange6 p.daddr6 = true := by rw [hp.daddr6]; rfl
    simp [NAT.inRange, show (ftpConf .TCP : StateManager Unit).analysisMode = false from rfl, hw, Packet.getDest6,
      hip6, this]
  obtain ⟨out, edit, ep, hout, hedit, hops, hold, hcut, -⟩ :=
    oversize_edit hp hopen
  obtain ⟨hgrown, -, hfound⟩ := doApp_other ftpConf_nodup hopen.sound.mode hout
  obtain ⟨hpass, -⟩ := doApp_passed ftpConf_nodup hopen.sound.coherent hopen.sound.mode hopen.flow hseg hout
  have hhw : (out.nat.rewrite out.sm out.pkt).hw_protocol = ETHERTYPE_IPV6 := by
    obtain ⟨m, hm, -⟩ := hpass.touched (hsegment.framed hseg) hseg
    rw [hm]
    show out.pkt.hw_protocol = _
    rw [hpass.header.hw_protocol, adjust_eq _ _ hseg.tcp_]
    exact hw
  have hsend : out.nat.send out.sm (out.nat.rewrite out.sm out.pkt) = .ok (out.sm, out.nat.rewrite out.sm out.pkt,
      [.v4 (out.nat.rewrite out.sm out.pkt).obuf_ (out.nat.rewrite out.sm out.pkt).obuf_len_
        (out.nat.rewrite out.sm out.pkt).daddr4]) := if_pos hhw
  have ht := translateWith_ok hr hready.isTCP_isUDP rfl hb hout
    (hgrown.analysisMode.trans hopen.sound.mode) hsend
  obtain ⟨t, hteq⟩ : ∃ t, t = (⟨1, out.nat, out.sm, out.nat.rewrite out.sm out.pkt,
      [.v4 (out.nat.rewrite out.sm out.pkt).obuf_ (out.nat.rewrite out.sm out.pkt).obuf_len_
        (out.nat.rewrite out.sm out.pkt).daddr4], out.asked, out.edit⟩ : NAT.Translated Unit) := ⟨_, rfl⟩
  rw [← hteq] at ht
  have hstep : (System.start (ftpConf .TCP)).Step (doApp (FTPParser.only once noJunk)) ⟨0, p, t⟩ _ := ⟨ht, rfl⟩
  have hon : (⟨0, p, t⟩ : Handled Unit).On 0 .SERVER ∧ (⟨0, p, t⟩ : Handled Unit).Carries := by
    refine ⟨⟨by rw [hteq], by rw [hteq]; exact hfound.trans hopen.flow, hp.dest⟩, ?_⟩
    show p.getTransportHeaderLen < p.transport_len_
    rw [hp.headerLen, hp.len, length_oversizeLine]
    decide
  have hsum := sum_oversizeOps ep
  refine ⟨[⟨0, p, t⟩], _, .one hstep, fun l hl _ _ ↦ ?_, inSequence_one _ _ _,
    cut_lost ftpConf_nodup hs₀ (by decide) ht hon hsegment (by rw [hteq]; exact hedit) hcut ?_⟩
  · rw [List.mem_singleton.mp hl]
    exact hsegment
  · rw [hold, hops]
    omega

/-- The tail of the server's lines is cut off and leaves as a packet of its own. -/
theorem rewritten_delivered_tail : ∃ (ls : List (Handled Unit)) (s : System Unit),
    Run (System.Step (doApp (FTPParser.only once noJunk))) (.start (bothConf .TCP)) ls s ∧
    ls.map (fun l ↦ (l.res.edit.map Edit.cut, l.res.sent.map Sent.size)) = [(none, [0]), (some true, [11, 1417])] ∧
    Delivered 0 .CLIENT ls := by
  have hrun := @System.perform_run _ (doApp (FTPParser.only once noJunk)) (.start (bothConf .TCP)) oversizeDown
  obtain ⟨ls, hls⟩ : ∃ ls, ls = (System.perform (doApp (FTPParser.only once noJunk)) (.start (bothConf .TCP))
      oversizeDown).1 := ⟨_, rfl⟩
  obtain ⟨hsizes, hseq, hsafe⟩ : ls.map (fun l ↦ (l.res.edit.map Edit.cut, l.res.sent.map Sent.size)) =
        [(none, [0]), (some true, [11, 1417])] ∧
      InSequence 0 .CLIENT ls ∧ ∀ l ∈ shipped 0 .CLIENT ls, l.Safe .TCP 0 := by
    rw [hls]
    unfold InSequence
    decide +kernel
  have hseg : ∀ l ∈ ls, l.pkt.IsSegment := fun l hl ↦ oversizeDown_isSegment _ (System.perform_mem (hls ▸ hl))
  rw [← hls] at hrun
  exact ⟨ls, _, hrun, hsizes, rewritten_delivered (nodup_pools (List.nodup_singleton _)) (by decide) hrun
    (fun l hl _ _ ↦ hseg l hl) hseq hsafe⟩

end Nat64Alg
