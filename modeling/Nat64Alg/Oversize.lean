import Nat64Alg.Delivery
import Nat64Alg.FTPRewriting
import Nat64Alg.Shifting

namespace Nat64Alg

open Lib StateManager

variable {σ : Type} {pc : ParserClass σ} {sm : StateManager σ} {nat : NAT} {p : Packet} {a b : Int} {f : ℕ}

namespace Packet

structure Tcp6 (p : Packet) (src dst : IPv6Addr) (sport dport : UInt16) (seq ack : UInt32) (data : Text) : Prop where
  in6 : p.In6
  segment : p.IsSegment
  saddr6 : p.saddr6 = src
  daddr6 : p.daddr6 = dst
  dest : p.getDEST = .SERVER
  headerLen : p.getTransportHeaderLen = 20
  len : p.transport_len_ = 20 + data.length
  payload : p.payload = data
  header : ∀ i, 20 ≤ i → i < 40 → p.obuf_ i = Mem.store (fun _ ↦ 0) 20 (tcphdr sport dport seq ack) i

theorem tcp6_spec (src dst : IPv6Addr) (sport dport : UInt16) (seq ack : UInt32) {data : Text}
    (h : data.length ≤ 4036) :
    (tcp6 src dst sport dport seq ack data).Tcp6 src dst sport dport seq ack data := by
  obtain ⟨hin, hlen, htcp, hcopy⟩ := tcp6_in6 src dst sport dport seq ack h
  have hseg := tcp6_isSegment src dst sport dport seq ack h
  obtain ⟨hready, -, hv, -, hip6⟩ := hin.ready
  obtain ⟨p, hp⟩ : ∃ p, p = tcp6 src dst sport dport seq ack data := ⟨_, rfl⟩
  obtain ⟨hd, hhd⟩ : ∃ hd, hd = make_ip6pkt (UInt16.ofNat (20 + data.length)) src dst IPPROTO_TCP := ⟨_, rfl⟩
  have hl : hd.length = 40 := hhd ▸ NAT.length_make_ip6pkt _ _ _ _
  rw [← hp] at hin hlen htcp hcopy hready hv hip6 hseg ⊢
  rw [← hhd] at hcopy
  rw [htcp] at hready
  have htcp_ : p.tcp_ = some 20 := by rw [hready.tcp_, if_pos rfl]
  have htl : p.transport_len_ = 20 + data.length := by
    rw [hready.transport_len_, hlen]
    omega
  have hfront : ∀ i : Int, 0 ≤ i → i < 40 → p.ibuf_ i = Mem.store (fun _ ↦ 0) 0 hd i := by
    intro i h₀ h₁
    rw [hcopy i h₀ (by omega), List.append_assoc, ofList_append _ _ h₀ (by omega)]
    unfold Mem.ofList Mem.store
    rw [if_pos (by omega), Int.sub_zero]
  have hhead : ∀ i, 20 ≤ i → i < 40 → p.obuf_ i = Mem.store (fun _ ↦ 0) 20 (tcphdr sport dport seq ack) i := by
    intro i h₀ h₁
    have h₂ := hready.copied (i - 20) (by omega) (by omega)
    rw [show 20 + (i - 20) = i by omega] at h₂
    rw [h₂, hcopy _ (by omega) (by omega), ofList_append _ _ (by omega) (by simp [hl, length_tcphdr]; omega)]
    unfold Mem.ofList Mem.store
    rw [List.getD_append_right _ _ _ _ (by omega), hl, if_pos (by simp [length_tcphdr]; omega)]
    congr 1
    omega
  have hth : p.getTransportHeaderLen = 20 := by
    have hoff : p.obuf_ 32 = 0x50 := hhead 32 (by omega) (by omega)
    simp only [getTransportHeaderLen, htcp_, th_off, show (20 : Int) + 12 = 32 by rfl, hoff]
    rfl
  have hw : ∀ b, 0 ≤ b → b + 4 ≤ 40 → p.ibuf_.ld32 b = Mem.ld32 (Mem.store (fun _ ↦ 0) 0 hd) b :=
    fun b hb hb' ↦ Mem.ld32_congr (fun i h h' ↦ hfront i (by omega) (by omega))
  obtain ⟨hsrc, hdst⟩ := NAT.make_ip6pkt_addrs (fun _ ↦ 0) (UInt16.ofNat (20 + data.length)) src dst IPPROTO_TCP
  rw [← hhd] at hsrc hdst
  simp only [in6At] at hsrc hdst
  refine ⟨hin, hseg, ?_, ?_, by simp [getDEST, hv], hth, htl, ?_, hhead⟩
  · simp only [Packet.saddr6, ip6Mem, hip6, Option.getD_some, mem, in6At, hw 8 (by omega) (by omega),
      hw (8 + 4) (by omega) (by omega), hw (8 + 8) (by omega) (by omega), hw (8 + 12) (by omega) (by omega), hsrc]
    rfl
  · simp only [Packet.daddr6, ip6Mem, hip6, Option.getD_some, mem, in6At, hw 24 (by omega) (by omega),
      hw (24 + 4) (by omega) (by omega), hw (24 + 8) (by omega) (by omega), hw (24 + 12) (by omega) (by omega), hdst]
    rfl
  · have hs := Piece.slice_ofList (hd ++ tcphdr sport dport seq ack) data []
    rw [List.append_nil] at hs
    simp only [Packet.payload, hready.transport, hth, htl]
    rw [show (20 + (data.length : Int) - 20).toNat = data.length by omega]
    conv_rhs => rw [← hs]
    refine List.map_congr_left fun k hk ↦ ?_
    have := List.mem_range.mp hk
    rw [show (20 : Int) + 20 + k = 20 + (20 + k) by omega, hready.copied _ (by omega) (by omega),
      hcopy _ (by omega) (by omega), List.length_append, hl, length_tcphdr]
    congr 1
    omega

namespace Tcp6

variable {p : Packet} {src dst : IPv6Addr} {sport dport : UInt16} {seq ack : UInt32} {data : Text}

theorem transport (h : p.Tcp6 src dst sport dport seq ack data) : p.transport = some 20 := h.in6.ready.1.transport

theorem source (h : p.Tcp6 src dst sport dport seq ack data) : p.getSourcePort = ntohs sport := by
  unfold getSourcePort
  rw [h.transport, Option.map_some, Option.getD_some,
    Mem.ld16_congr (fun i h₁ h₂ ↦ h.header i h₁ (by omega))]
  unfold tcphdr
  rw [List.append_assoc, List.append_assoc, List.append_assoc, Mem.store_append,
    Mem.ld16_store_disjoint _ (.inl (by simp))]
  exact Mem.ld16_st16 _ _ _

theorem seq_eq (h : p.Tcp6 src dst sport dport seq ack data) : p.seq = seq := by
  obtain ⟨a, b, hseg, -⟩ := h.segment.segment
  obtain rfl : 20 = a := Option.some.inj (h.transport.symm.trans (by simp [Packet.transport, hseg.tcp_]))
  rw [Packet.seq_eq hseg.tcp_, Mem.ld32_congr (fun i h₁ h₂ ↦ h.header i (by omega) (by omega))]
  unfold tcphdr
  have h₄ : ((Mem.bytes16 (ntohs sport) ++ Mem.bytes16 (ntohs dport)).length : Int) = 4 := rfl
  rw [List.append_assoc, List.append_assoc, Mem.ld32_store _ h₄, ntohl_ntohl]

end Tcp6

end Packet

section First

variable {name : String} {pr : Protocol} {q : Parser σ} {Good : List Operation → Prop} {dest : DEST} {content : Text}

theorem chooseOps_first (hproto : (sm.flowAt f).getProtocol = "") (hent : sm.protocols.entries = [(name, pr)])
    (hskip : skips pr p.isTCP p.isUDP = false) (hget : sm.getParser pc f name dest = (some q, sm))
    {ops : List Operation} {q' : Parser σ} {s : StateManager σ × FlowPtr} {log : Asked}
    (hrun : (q.process pc content).run answer (sm, none) = .ok ((ops, q'), s, log)) (hops : 0 < ops.length) :
    ∃ c, chooseOps pc sm f dest p.isTCP p.isUDP content = .ok c ∧ c.ops = ops ∧ c.parser = some q' := by
  unfold chooseOps
  dsimp only
  rw [hproto, if_pos (by simp), hent]
  unfold tryProtocols
  rw [if_neg (by simp [hskip])]
  dsimp only
  rw [hget]
  dsimp only [feed]
  rw [hrun]
  dsimp only
  rw [if_pos hops]
  dsimp only
  split
  · exact ⟨_, rfl, rfl, rfl⟩
  · exact ⟨_, rfl, rfl, rfl⟩

end First

theorem doApp_content {flow : Flow σ} {q : Packet} {c : Choice σ} (hmode : sm.analysisMode = false)
    (hflow : (p.getFlow sm).1 = some f) (hp : p.Segment a b) (hlen : p.getTransportHeaderLen < p.transport_len_)
    (hheard : (sm.flowAt f).ignored = false)
    (hq : (sm.flowAt f).shiftTCP sm.extra (adjust (sm.flowAt f) p.getDEST p) = (flow, q)) (hne : 0 < q.payload.length)
    (hc : chooseOps pc ((sm.setFlow f flow).setFlow f (((sm.setFlow f flow).flowAt f).count q p.getDEST)) f p.getDEST
      q.isTCP q.isUDP q.payload = .ok c) :
    doApp pc nat sm p = .ok (applyOps pc { nat with exttcpflow_ := some f } c q f p.getDEST) := by
  have hlen' : (adjust (sm.flowAt f) p.getDEST p).transport_len_ = p.transport_len_ := by
    rw [adjust_eq _ _ hp.tcp_]
    rfl
  unfold doApp
  dsimp only
  rw [getFlow_snd hmode, hflow]
  dsimp only [doAppFlow]
  rw [hmode, if_neg (by simp), hlen', adjust_headerLen _ _ hp.tcp_, if_neg (by rw [hheard]; simp; omega),
    adjust_getDEST]
  dsimp only [doContent]
  rw [hq]
  dsimp only
  rw [if_neg (by simpa using List.length_pos_iff.mp hne), hc]

section First

variable {name : String} {pr : Protocol} {q : Parser σ} {Good : List Operation → Prop}

theorem doApp_first (hmode : sm.analysisMode = false) (hidle : (sm.flowAt f).pending p.cur_seq_ = [])
    (hflow : (p.getFlow sm).1 = some f) (hlt : f < sm.heap.length) (hp : p.Segment a b)
    (hlen : p.getTransportHeaderLen < p.transport_len_) (hnew : (sm.flowAt f).ignored = false)
    (hproto : (sm.flowAt f).getProtocol = "") (hent : sm.protocols.entries = [(name, pr)])
    (hskip : skips pr true false = false) (hptype : sm.ptype name p.getDEST = .STATELESS)
    (hmake : Parser.make pc name .stateless = some q)
    (hrun : ∀ sm' : StateManager σ, sm'.pool_ = sm.pool_ → ∃ ops q' s log,
      (q.process pc p.payload).run answer (sm', none) = .ok ((ops, q'), s, log) ∧ 0 < ops.length ∧ Good ops) :
    ∃ out e, doApp pc nat sm p = .ok out ∧ out.edit = some e ∧ Good e.ops := by
  obtain ⟨r, hr⟩ : ∃ r, r = adjust (sm.flowAt f) p.getDEST p := ⟨_, rfl⟩
  have hrs : r.Segment a b := hr ▸ adjust_segment _ _ hp
  have hrp : r.payload = p.payload := hr ▸ adjust_payload _ _ hp
  have hne : 0 < r.payload.length := by
    rw [hrp]
    simp only [Packet.payload, Packet.transport, hp.tcp_, Option.some_or, Mem.length_slice]
    omega
  obtain ⟨flow, hshift, hfproto⟩ : ∃ flow, (sm.flowAt f).shiftTCP sm.extra r = (flow, r) ∧ flow.getProtocol = "" := by
    refine ⟨_, Prod.ext rfl (shiftTCP_idle _ _ ?_), (shiftTCP_protocol _ _ _).trans hproto⟩
    rw [hr, adjust_eq _ _ hp.tcp_]
    exact hidle
  obtain ⟨sm', hsm'⟩ : ∃ sm', sm' = (sm.setFlow f flow).setFlow f (((sm.setFlow f flow).flowAt f).count r p.getDEST) :=
    ⟨_, rfl⟩
  have hprotocol : (sm'.flowAt f).getProtocol = "" := by
    rw [hsm', flowAt_setFlow (by simpa [StateManager.setFlow] using hlt), flowAt_setFlow hlt, count_protocol, hfproto]
  obtain ⟨ops, q', s, log, hops, hpos, hgood⟩ := hrun sm' (by rw [hsm']; rfl)
  have hudp : r.isUDP = false := by simp [Packet.isUDP, hrs.udp_]
  have htcp : r.isTCP = true := by simp [Packet.isTCP, hrs.tcp_]
  have hptype' : sm'.ptype name p.getDEST = .STATELESS := by rw [← hptype, hsm']; rfl
  have hget : sm'.getParser pc f name p.getDEST = (some q, sm') := by
    simp only [StateManager.getParser, hptype', hmake]
  obtain ⟨c, hc, hcops, hcp⟩ := chooseOps_first (p := r) hprotocol (by rw [hsm']; exact hent)
    (by rw [htcp, hudp]; exact hskip) hget hops hpos
  have hout := @doApp_content _ pc _ nat _ _ _ _ _ _ _ hmode hflow hp hlen hnew
    (by rw [← hr]; exact hshift) hne (by rw [← hsm', hrp]; exact hc)
  have hedit : ∃ e, (applyOps pc { nat with exttcpflow_ := some f } c r f p.getDEST).edit = some e ∧
      e.ops = c.ops := by
    unfold applyOps
    rw [hcp]
    dsimp only
    rw [if_pos (hcops ▸ hpos)]
    exact ⟨_, rfl, rfl⟩
  obtain ⟨e, he, heops⟩ := hedit
  exact ⟨_, e, hout, he, by rw [heops, hcops]; exact hgood⟩

end First

/-- An `EPRT` line of more than one segment size: 1400 blanks stand before the address. -/
def oversizeAddr : Text := List.replicate 1400 SP ++ text "1::1"

def oversizeLine : Text := eprtCommand oversizeAddr (text "1")

theorem length_oversizeLine : oversizeLine.length = 1417 := by
  have h₁ : (text "EPRT |2|").length = 8 := by decide
  have h₂ : (text "1::1").length = 4 := by decide
  have h₃ : (text "1").length = 1 := by decide
  simp only [oversizeLine, eprtCommand, oversizeAddr, List.length_append, List.length_cons, List.length_nil,
    List.length_replicate, h₁, h₂, h₃]

/-- The operations on that line, for the endpoint it is rewritten to. -/
def oversizeOps (e : IP4Port) : List Operation :=
  [⟨6, 7, .REPLACE, text "1", false⟩, ⟨1408, 1412, .REPLACE, e.getIP.getString, false⟩,
    ⟨1413, 1414, .REPLACE, e.getPortString, false⟩]

theorem sum_oversizeOps (e : IP4Port) : 3 ≤ ((sortOps (oversizeOps e)).map Operation.delta).sum := by
  have hsum : ((sortOps (oversizeOps e)).map Operation.delta).sum = ((oversizeOps e).map Operation.delta).sum :=
    ((List.perm_insertionSort _ _).map _).sum_eq
  have hip := length_getString e.getIP
  have hport : 0 < e.getPortString.length := length_decimal_pos _
  have h₁ : (text "1").length = 1 := by decide
  rw [hsum]
  simp only [oversizeOps, List.map_cons, List.map_nil, List.sum_cons, List.sum_nil, Operation.delta, h₁]
  omega

def oversizePieces (e : IP4Port) : List Piece :=
  [⟨text "EPRT |", text "2", text "1"⟩, ⟨BAR :: List.replicate 1400 SP, text "1::1", e.getIP.getString⟩,
    ⟨[BAR], text "1", e.getPortString⟩]

theorem oversizeOps_patches (e : IP4Port) :
    (sortOps (oversizeOps e)).map (Operation.patch 0) = Piece.patches 0 (oversizePieces e) := by
  have hsorted : sortOps (oversizeOps e) = oversizeOps e := by
    refine List.Pairwise.insertionSort_eq ?_
    simp only [oversizeOps, List.pairwise_cons, List.mem_cons, List.not_mem_nil, or_false, forall_eq_or_imp, forall_eq,
      false_imp_iff, implies_true, List.Pairwise.nil, and_true]
    omega
  have h₁ : (text "EPRT |").length = 6 := by decide
  have h₂ : (text "2").length = 1 := by decide
  have h₃ : (text "1::1").length = 4 := by decide
  have h₄ : (text "1").length = 1 := by decide
  rw [hsorted]
  simp only [oversizeOps, oversizePieces, Piece.patches, List.map_cons, List.map_nil, Operation.patch, h₁, h₂, h₃, h₄,
    List.length_cons, List.length_nil, List.length_replicate, List.cons.injEq, Patch.mk.injEq, and_true]
  omega

theorem oversizePieces_source (e : IP4Port) : Piece.source [BAR, CR, LF] (oversizePieces e) = oversizeLine := by
  have h : text "EPRT |2|" = text "EPRT |" ++ (text "2" ++ [BAR]) := by decide
  simp only [oversizePieces, Piece.source, oversizeLine, eprtCommand, oversizeAddr, h, List.append_assoc,
    List.cons_append, List.nil_append]

theorem oversize_fit (e : IP4Port) : Patch.Fit 1417 0 ((sortOps (oversizeOps e)).map (Operation.patch 0)) := by
  have hfit := @Piece.fit_patches (oversizePieces e) [BAR, CR, LF] 0 (by
    have hne := length_getString e.getIP
    simp only [oversizePieces, List.forall_mem_cons, List.not_mem_nil, false_imp_iff, implies_true, and_true]
    refine ⟨by decide, fun h ↦ ?_, numeral_ne_nil⟩
    rw [h, List.length_nil] at hne
    omega)
  rw [oversizePieces_source, length_oversizeLine, ← oversizeOps_patches, Int.zero_add] at hfit
  exact hfit

theorem oversize_copied (e : IP4Port) : ∃ t, copied (Mem.ofList oversizeLine) (sortOps (oversizeOps e)) 0
    (1417 + ((sortOps (oversizeOps e)).map Operation.delta).sum) = t ++ [LF] := by
  have hsplice := @Piece.splice_patches (oversizePieces e) [] [BAR, CR, LF]
  rw [List.nil_append, List.length_nil, oversizePieces_source, length_oversizeLine] at hsplice
  have hcopied := copied_splice (s := Mem.ofList oversizeLine) (oversize_fit e)
  rw [oversizeOps_patches] at hcopied
  exact ⟨Piece.result [BAR, CR] (oversizePieces e), hcopied.trans (hsplice.trans (Piece.result_append [BAR, CR] [LF]))⟩

theorem oversize_run {sm : StateManager σ} (hpool : sm.pool_ ≠ []) : ∃ ops q s log,
    ((Parser.new .stateless ()).process (FTPParser.only once noJunk) oversizeLine).run answer (sm, none) =
      .ok ((ops, q), s, log) ∧ 0 < ops.length ∧ ∃ e, ops = oversizeOps e := by
  have htext : text "1::1" = [49, COLON, COLON, 49] := by decide
  have hplain : Plain (text "1::1") := by
    rw [htext]
    simp [Plain, CR, LF, BAR, COLON]
  have hsp : SP ∉ text "1::1" := by
    rw [htext]
    decide
  have haddr : Plain oversizeAddr := fun x hx ↦ by
    rcases List.mem_append.mp hx with hx | hx
    · rw [List.eq_of_mem_replicate hx]
      decide
    · exact hplain x hx
  have hone : text "1" = [49] := by decide
  have hdigits : ∀ x ∈ text "1", isDigit x = true := by
    rw [hone]
    simp [isDigit]
  have haddressed : Addressed (text "1::1") := by
    refine .inr ⟨[49], 0, [49], by rw [htext]; rfl, .one ?_, .one ?_⟩
    · exact group_of_digits (by simp) (by simp [isDigit])
    · exact group_of_digits (by simp) (by simp [isDigit])
  obtain ⟨y, hy⟩ := (@FTPScanner.exists_ip_iff _ (8 + (1400 : ℕ)) once hplain).mpr haddressed
  have hval := FTPScanner.ip_token hplain hsp hy
  have htokens : FTPParser.Ip (FTPScanner.addrTokens once oversizeAddr) y := by
    unfold FTPScanner.addrTokens oversizeAddr
    rw [FTPScanner.spans_blank]
    exact hy
  obtain ⟨ops, q, s, f, k, hq, -, -, -, hops⟩ :=
    @firstLine_addressed _ _ once noJunk _ _ hpool haddr (by rw [hone]; simp) hdigits _ htokens
  refine ⟨ops, q, s, _, hq, by rw [hops]; simp, (s.1.flowAt f).ip4p, ?_⟩
  have h₁ : (text "1").length = 1 := by decide
  have h₄ : (text "1::1").length = 4 := by decide
  rw [hops, hval]
  simp only [oversizeOps, oversizeAddr, List.length_append, List.length_replicate, h₁, h₄]
  rfl

/-- The state `begin` leaves behind the first packet of a client. -/
structure Opened (extra : EXTRAType) (sm : StateManager Unit) (p : Packet) : Prop where
  sound : Sound [⟨ntohl 0x0a141e28⟩] sm
  flow : (p.getFlow sm).1 = some 0
  heap : sm.heap.length = 1
  pool : sm.pool_ ≠ []
  heard : (sm.flowAt 0).ignored = false
  protocol : (sm.flowAt 0).getProtocol = ""
  protocols : sm.protocols = (ftpConf extra : StateManager Unit).protocols
  extra : sm.extra = extra
  account : (sm.flowAt 0).account = Account.new
  idle : ∀ s, (sm.flowAt 0).pending s = []

theorem opened (extra : EXTRAType) {p : Packet} (hin : p.In6) : ∃ nat sm,
    (NAT.new 0).begin (ftpConf extra) p = .ok (0, nat, sm) ∧ Opened extra sm p := by
  obtain ⟨hready, -, hv, -, -⟩ := hin.ready
  have hpool₀ : (ftpConf extra : StateManager Unit).pool_ = poolOf ⟨ntohl 0x0a141e28⟩ := List.nil_append _
  obtain ⟨e, pool, hpool⟩ := List.exists_cons_of_ne_nil
    (List.ne_nil_of_length_pos (by rw [length_poolOf]; decide) : poolOf ⟨ntohl 0x0a141e28⟩ ≠ [])
  have hrest : pool ≠ [] := by
    have := congrArg List.length hpool
    rw [length_poolOf, List.length_cons] at this
    exact List.ne_nil_of_length_pos (by simp only [poolSize, MIN_PORT, MAX_PORT] at this; omega)
  have hd : (ftpConf extra : StateManager Unit).doMapping ⟨p.saddr6, p.getSourcePort⟩ p.daddr6 =
      (some 0, (ftpConf extra).create (⟨p.saddr6, p.getSourcePort⟩, p.daddr6) e pool) := by
    unfold doMapping
    rw [hpool₀, hpool]
    rfl
  have hver : p.getIPVersion = 4 := by simp [Packet.getIPVersion, hv]
  have hb := @begin_v6 _ _ _ (NAT.new 0) _ hver _ hd
  refine ⟨_, _, hb, ⟨(Sound.start _ _ _ _).grown (begin_grown (nodup_pools (List.nodup_singleton _)) hb), ?_,
    rfl, hrest, rfl, rfl, rfl, rfl, ?_, fun _ ↦ rfl⟩⟩
  · have hfind := doMapping_find hd
    have hport : p.getSourcePort = p.obuf_.ld16 20 := by simp [Packet.getSourcePort, hready.transport]
    unfold Packet.getFlow Packet.getFlowAt
    rw [hready.transport]
    dsimp only
    rw [if_pos hv, ← hport]
    exact hfind
  · simp only [Account.new, Flow.account, Account.mk.injEq]
    refine ⟨rfl, ?_, rfl, rfl⟩
    funext d
    cases d <;> rfl

theorem ftpConf_nodup : ([(⟨ntohl 0x0a141e28⟩ : IPv4Addr)].flatMap poolOf).Nodup :=
  nodup_pools (List.nodup_singleton _)

abbrev Oversize (p : Packet) : Prop := p.Tcp6 clientA serverS 1024 21 1000 5 oversizeLine

theorem exists_oversize : ∃ p, Oversize p :=
  ⟨_, Packet.tcp6_spec clientA serverS 1024 21 1000 5 (by rw [length_oversizeLine]; omega)⟩

theorem oversize_edit {extra : EXTRAType} {sm : StateManager Unit} {nat : NAT} {p : Packet} (hp : Oversize p)
    (h : Opened extra sm p) :
    ∃ out e ep, doApp (FTPParser.only once noJunk) nat sm p = .ok out ∧ out.edit = some e ∧
      e.ops = oversizeOps ep ∧ e.len_old = 1417 ∧ e.cut = true ∧ ∃ t, e.built = t ++ [LF] ∧
        1419 ≤ t.length := by
  obtain ⟨a, b, hseg, hcopy⟩ := hp.segment.segment
  have hth := hp.headerLen
  have htl := hp.len
  rw [length_oversizeLine] at htl
  obtain ⟨out, e, hout, he, ep, hops⟩ := doApp_first
    (q := .new .stateless ()) h.sound.mode (h.idle _) h.flow (by rw [h.heap]; omega) hseg (by rw [hth, htl]; omega)
    h.heard h.protocol (by rw [h.protocols]; rfl) (by decide)
    (by rw [StateManager.ptype, h.protocols, hp.dest]; rfl) rfl (fun sm' hsm' ↦ by
      rw [hp.payload]
      exact oversize_run (by rw [hsm']; exact h.pool))
  obtain ⟨hpass, -⟩ := doApp_passed ftpConf_nodup h.sound.coherent h.sound.mode h.flow hseg hout
  have hedit := (hpass.edited e he).1
  have hold : e.len_old = 1417 := by
    rw [hedit.len_old, adjust_headerLen _ _ hseg.tcp_, hth, adjust_eq _ _ hseg.tcp_,
      Packet.withObuf_transport_len_, htl]
    rfl
  have hwhole : e.built = e.copied := by
    obtain ⟨parser, maxPos, hbuilt⟩ := hedit.built
    rw [hbuilt]
    simp [Flow.exceed, FTPParser.only]
  have hcopied : e.copied = copied (Mem.ofList oversizeLine) (sortOps (oversizeOps ep)) 0
      (1417 + ((sortOps (oversizeOps ep)).map Operation.delta).sum) := by
    have hoff : e.offset = 0 := by
      rw [hedit.offset, h.account]
      rfl
    have hb := hedit.copied
    rw [adjust_headerLen _ _ hseg.tcp_, hth, adjust_eq _ _ hseg.tcp_, hops, hoff, hold] at hb
    have hfit := oversize_fit ep
    refine hb.trans ((copied_splice hfit).trans ((Patch.splice_congr hfit fun i h₀ h₁ ↦
      ?_).trans (copied_splice hfit).symm))
    have hpay := hp.payload
    have hi := hcopy (20 + i) (by omega) (by omega)
    rw [← Int.add_assoc, ← Int.add_assoc] at hi
    simp only [Packet.payload, Packet.transport, hseg.tcp_, Option.some_or, hth, htl] at hpay
    rw [← hpay, Mem.ofList_slice _ h₀ (by omega)]
    exact hi.symm
  have hlen : 1420 ≤ e.copied.length := by
    have hsum := sum_oversizeOps ep
    rw [hcopied, length_copied]
    omega
  obtain ⟨t, ht⟩ := oversize_copied ep
  rw [← hcopied] at ht
  refine ⟨out, e, ep, hout, he, hops, hold, ?_, t, hwhole.trans ht, ?_⟩
  · simp only [Edit.cut, Bool.and_eq_true, decide_eq_true_eq, hwhole, hold]
    omega
  · rw [ht, List.length_append, List.length_singleton] at hlen
    omega

end Nat64Alg
