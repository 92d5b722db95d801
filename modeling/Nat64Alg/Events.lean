import Nat64Alg.Handling

namespace Nat64Alg

open Lib StateManager

variable {σ : Type} {pc : ParserClass σ} {ips : List IPv4Addr} {sm sm' sm'' : StateManager σ}

structure Still (ips : List IPv4Addr) (sm sm' : StateManager σ) : Prop where
  grown : Grown ips sm sm'
  account : ∀ g, (sm'.flowAt g).account = (sm.flowAt g).account

theorem Quiet.still (h : Quiet ips sm sm') : Still ips sm sm' :=
  ⟨h.grown, fun g ↦ account_of_ledger (h.ledger g)⟩

namespace Still

theorem refl (sm : StateManager σ) : Still ips sm sm := ⟨Grown.refl sm, fun _ ↦ rfl⟩

theorem trans (h : Still ips sm sm') (h' : Still ips sm' sm'') : Still ips sm sm'' :=
  ⟨h.grown.trans h'.grown, fun g ↦ (h'.account g).trans (h.account g)⟩

theorem setFlow {f : ℕ} {flow : Flow σ} (ha : flow.addr = (sm.flowAt f).addr)
    (hacc : flow.account = (sm.flowAt f).account) : Still ips sm (sm.setFlow f flow) :=
  ⟨Grown.setFlow ha, flowAt_setFlow_congr Flow.account hacc⟩

theorem begin (hips : (ips.flatMap poolOf).Nodup) {nat nat' : NAT} {p : Packet} {rc : Int}
    (h : nat.begin sm p = .ok (rc, nat', sm')) : Still ips sm sm' := by
  rcases begin_cases h with ⟨-, f, sm₁, hd, -, -, rfl⟩ | ⟨-, f, -, -, -, rfl⟩ | ⟨-, -, -, -, rfl⟩
  · have hmap := (Quiet.doMapping hips sm ⟨p.saddr6, p.getSourcePort⟩ p.daddr6).still
    rw [hd] at hmap
    have htid : Still ips sm₁ (sm₁.setTid f nat.tid) := by
      unfold StateManager.setTid
      split
      · exact setFlow rfl rfl
      · exact refl _
    exact hmap.trans (htid.trans ⟨Grown.setCurIPv6SrvAddr _ _, fun _ ↦ rfl⟩)
  · exact refl _
  · exact refl _

end Still

theorem getFlow_snd {p : Packet} (hmode : sm.analysisMode = false) : (p.getFlow sm).2 = sm := by
  unfold Packet.getFlow
  split
  · unfold Packet.getFlowAt
    dsimp only
    rw [hmode]
    split <;> rfl
  · rfl

theorem getFlow_six {p : Packet} (hv : p.ipVersionBefore_ = 6) : (p.getFlow sm).1 =
    if p.transport.isSome then sm.getMapping6 ⟨p.saddr6, p.getSourcePort⟩ p.daddr6 else none := by
  unfold Packet.getFlow Packet.getFlowAt Packet.getSourcePort
  cases p.transport with
  | none => rfl
  | some a => simp [hv]

theorem getFlow_four {p : Packet} (hmode : sm.analysisMode = false) (hv : ¬p.ipVersionBefore_ = 6) :
    (p.getFlow sm).1 =
      if p.transport.isSome then sm.getMapping4 ⟨p.daddr4, p.getDestPort⟩ p.saddr4 else none := by
  unfold Packet.getFlow Packet.getFlowAt Packet.getDestPort
  cases p.transport with
  | none => rfl
  | some a => simp [hv, hmode]

theorem getFlow_lt {p : Packet} {f : ℕ} (hc : Coherent ips sm) (hmode : sm.analysisMode = false)
    (h : (p.getFlow sm).1 = some f) : f < sm.heap.length := by
  by_cases hv : p.ipVersionBefore_ = 6
  · rw [getFlow_six hv] at h
    split at h
    case isTrue => exact (hc.getMapping6_iff.mp h).1
    case isFalse => cases h
  · rw [getFlow_four hmode hv] at h
    split at h
    case isTrue => exact (hc.getMapping4_iff.mp h).1
    case isFalse => cases h

/-- How an edit came out of the account of its flow and the segment it was made in. -/
structure Edited (pc : ParserClass σ) (acc : Account) (p q : Packet) (a b : Int) (e : Edit) : Prop where
  ops : 0 < e.ops.length
  len_old : e.len_old = p.transport_len_ - p.getTransportHeaderLen
  offset : e.offset = acc.pktOffset p.getDEST p.seq
  copied : e.copied = Nat64Alg.copied (fun i ↦ p.ibuf_ (b + p.getTransportHeaderLen + i)) (sortOps e.ops) e.offset
    (e.len_old + ((sortOps e.ops).map Operation.delta).sum)
  built : ∃ parser maxPos, e.built = Flow.exceed pc parser maxPos e.copied
  delta : e.delta = q.transport_len_ - p.getTransportHeaderLen - e.len_old
  obuf_len_ : q.obuf_len_ = p.ip_len_ + q.transport_len_
  sent : 0 ≤ e.len_old + ((sortOps e.ops).map Operation.delta).sum →
    q.transport_len_ = p.getTransportHeaderLen + e.kept.length ∧
      q.obuf_.slice (a + p.getTransportHeaderLen) e.kept.length = e.kept

section Modify

variable {p : Packet} {a b : Int} (flow : Flow σ) (extra : EXTRAType) (ops : List Operation) (parser : Parser σ)

def Flow.Modified.edit (m : Flow.Modified σ) (protocol : String) (ops : List Operation) (pos : ℕ) : Edit :=
  ⟨protocol, ops, pos, m.len_old, m.offset, m.copied, m.built, m.delta⟩

theorem modify_account (h : p.Segment a b) (hops : 0 < ops.length) (protocol : String) (pos : ℕ) :
    ((flow.modify pc extra p ops parser).flow.addOffset p.getDEST
      (flow.modify pc extra p ops parser).delta).account =
    flow.account.record extra p.getDEST p.seq
      ((flow.modify pc extra p ops parser).edit protocol ops pos) := by
  rw [modify_segment flow extra pc ops parser h hops]
  have htcp : p.isTCP = true := by simp [Packet.isTCP, h.tcp_]
  unfold Flow.modifyAt
  dsimp only
  rw [addOffset_account, (keepTail_frame _ extra htcp _ _).2.1, (getPktOffset_frame flow h.tcp_).2.2]
  simp only [Account.record, Account.mk.injEq, Flow.Modified.edit, Edit.cut, Edit.tail, and_true]
  funext d
  split
  case isTrue hd => exact ((if_pos hd).trans (if_pos hd.2.1)).symm
  case isFalse hd => exact (if_neg hd).symm

theorem Edit.kept_prefix (e : Edit) : e.kept <+: e.built := by
  unfold Edit.kept
  split
  · exact List.take_prefix _ _
  · exact List.prefix_rfl

theorem modify_edited (h : p.Segment a b) (hops : 0 < ops.length) (protocol : String) (pos : ℕ) :
    Edited pc flow.account p (flow.modify pc extra p ops parser).pkt a b
      ((flow.modify pc extra p ops parser).edit protocol ops pos) := by
  have htcp : p.isTCP = true := by simp [Packet.isTCP, h.tcp_]
  have hm := modify_segment flow extra pc ops parser h hops
  have hkept : ((flow.modify pc extra p ops parser).edit protocol ops pos).kept = (Flow.keepTail extra
      (flow.getPktOffset p).2 p (p.transport_len_ - p.getTransportHeaderLen)
      ((flow.modify pc extra p ops parser).edit protocol ops pos).built).2 := by
    rw [(keepTail_frame _ extra htcp _ _).2.2, hm]
    rfl
  have hpre := Edit.kept_prefix ((flow.modify pc extra p ops parser).edit protocol ops pos)
  refine ⟨hops, ?_, ?_, ?_, ⟨(Flow.limit parser (sortOps ops)).2,
    (Flow.limit parser (sortOps ops)).1 - (flow.getPktOffset p).1, ?_⟩, ?_, ?_, fun hlen ↦ ?_⟩
  · rw [hm]
    rfl
  · rw [hm]
    exact (getPktOffset_frame flow h.tcp_).1
  · rw [hm]
    rfl
  · rw [hm]
    rfl
  · rw [hm]
    unfold Flow.modifyAt
    dsimp only [Flow.Modified.edit]
    rw [setTransportLen_segment (by exact h.udp_)]
    dsimp only
    rw [Int.add_sub_cancel]
  · rw [hm]
    unfold Flow.modifyAt
    dsimp only
    rw [setTransportLen_segment (by exact h.udp_)]
  · rw [hkept] at hpre ⊢
    rw [hm] at hlen hpre ⊢
    unfold Flow.modifyAt at hlen hpre ⊢
    dsimp only [Flow.Modified.edit] at hlen hpre ⊢
    rw [setTransportLen_segment (by exact h.udp_)]
    dsimp only
    rw [if_neg (by omega), Int.add_comm]
    exact ⟨rfl, Mem.slice_store_prefix _ hpre⟩

end Modify

structure Shifted (extra : EXTRAType) (flow flow' : Flow σ) (p q : Packet) : Prop where
  account : flow'.account = flow.account
  addr : flow'.addr = flow.addr
  parsers : flow'.parsers = flow.parsers
  none : extra ≠ .SHIFT → flow' = flow ∧ q = p
  packet : ∀ a b, p.Segment a b → p.SameHeader a q ∧ q.transport_len_ = p.transport_len_ ∧ q.ibuf_ = p.ibuf_
  obuf_len_ : q.obuf_len_ = p.obuf_len_

theorem shiftTCP_shifted (extra : EXTRAType) (flow : Flow σ) (p : Packet) :
    Shifted extra flow (flow.shiftTCP extra p).1 p (flow.shiftTCP extra p).2 := by
  unfold Flow.shiftTCP
  dsimp only
  split
  case h_1 a ha =>
    have hf := shift_flow (p := p) flow extra (a + p.getTransportHeaderLen)
      (p.transport_len_ - p.getTransportHeaderLen)
    refine ⟨hf.1, hf.2.1, hf.2.2, fun he ↦ ?_, fun c d hs ↦ ?_, shift_obuf_len_ flow extra _ _⟩
    · rw [shift_none flow extra he]
      exact ⟨rfl, rfl⟩
    · obtain rfl : a = c := Option.some.inj (ha.symm.trans hs.tcp_)
      exact shift_packet flow extra _
  case h_2 ha =>
    refine ⟨rfl, rfl, rfl, fun _ ↦ ⟨rfl, rfl⟩, fun a b hs ↦ ?_, rfl⟩
    rw [hs.tcp_] at ha
    cases ha

theorem doContent_shift {nat : NAT} {p q : Packet} {f : ℕ} {dest : DEST} {flow : Flow σ} {out : AppOut σ}
    (h : doContent pc nat sm p f dest = .ok out) (hq : (sm.flowAt f).shiftTCP sm.extra p = (flow, q)) :
    q.payload.length = 0 ∧ out = ⟨nat, sm.setFlow f flow, q, [], none⟩ ∨
      0 < q.payload.length ∧ ∃ c, chooseOps pc ((sm.setFlow f flow).setFlow f
        (((sm.setFlow f flow).flowAt f).count q dest)) f dest q.isTCP q.isUDP q.payload = .ok c ∧
        out = applyOps pc nat c q f dest := by
  unfold doContent at h
  rw [hq] at h
  dsimp only at h
  split at h
  case isTrue h₀ =>
    cases h
    exact .inl ⟨by simpa using h₀, rfl⟩
  case isFalse h₀ =>
    split at h
    · cases h
    case h_2 c hc =>
      cases h
      exact .inr ⟨Nat.pos_of_ne_zero (by simpa using h₀), c, hc, rfl⟩

theorem doContent_cases {nat : NAT} {p : Packet} {f : ℕ} {dest : DEST} {out : AppOut σ}
    (h : doContent pc nat sm p f dest = .ok out) : ∃ flow q, Shifted sm.extra (sm.flowAt f) flow p q ∧
      (q.payload.length = 0 ∧ out = ⟨nat, sm.setFlow f flow, q, [], none⟩ ∨
      0 < q.payload.length ∧ ∃ c, chooseOps pc ((sm.setFlow f flow).setFlow f
        (((sm.setFlow f flow).flowAt f).count q dest)) f dest q.isTCP q.isUDP q.payload = .ok c ∧
        out = applyOps pc nat c q f dest) :=
  ⟨_, _, shiftTCP_shifted sm.extra (sm.flowAt f) p, doContent_shift h rfl⟩

theorem applyOps_cases (nat : NAT) (c : Choice σ) (p : Packet) (f : ℕ) (dest : DEST) :
    applyOps pc nat c p f dest = ⟨nat, c.sm, p, c.asked, none⟩ ∨
    ∃ parser, c.parser = some parser ∧ 0 < c.ops.length ∧ applyOps pc nat c p f dest =
      ⟨{ nat with modified_ := true },
        (c.sm.setFlow f (((c.sm.flowAt f).modify pc c.sm.extra p c.ops parser).flow.addOffset dest
          ((c.sm.flowAt f).modify pc c.sm.extra p c.ops parser).delta)).storeParser f c.protocol dest
          ((c.sm.flowAt f).modify pc c.sm.extra p c.ops parser).parser,
        ((c.sm.flowAt f).modify pc c.sm.extra p c.ops parser).pkt, c.asked,
        some (((c.sm.flowAt f).modify pc c.sm.extra p c.ops parser).edit c.protocol c.ops c.pos)⟩ := by
  unfold applyOps
  split
  case h_1 parser hp =>
    split
    case isTrue hops => exact .inr ⟨parser, hp, hops, rfl⟩
    case isFalse => exact .inl rfl
  case h_2 => exact .inl rfl

theorem Course.doContent {R : StateManager σ → Asked → StateManager σ → Prop} {f : ℕ} (hR : Course R f)
    (hset : ∀ {s : StateManager σ} {flow : Flow σ}, flow.addr = (s.flowAt f).addr → R s [] (s.setFlow f flow))
    {nat : NAT} {p : Packet} {dest : DEST} {out : AppOut σ} (h : doContent pc nat sm p f dest = .ok out) :
    R sm out.asked out.sm := by
  obtain ⟨flow, q, hs, ⟨-, rfl⟩ | ⟨-, c, hc, rfl⟩⟩ := doContent_cases h
  · exact hset hs.addr
  have hcount := hset (count_frame (p := q) ((sm.setFlow f flow).flowAt f) dest).2.1
  have hchosen := hR.quietly (hset hs.addr) (hR.quietly hcount (hR.chooseOps hc))
  rcases applyOps_cases nat c q f dest with he | ⟨parser, -, -, he⟩
  · rw [he]
    exact hchosen
  · rw [he]
    have haddr := (addOffset_addr _ dest ((c.sm.flowAt f).modify pc c.sm.extra q c.ops parser).delta).trans
      (modify_addr (p := q) (c.sm.flowAt f) c.sm.extra pc c.ops parser)
    exact hR.before hchosen (hR.quietly (hset haddr) (hR.storeParser _ _ _))

theorem Edited.congr {acc : Account} {p p' q : Packet} {a b : Int} {e : Edit} (h : Edited pc acc p' q a b e)
    (hs : p.Segment a b) (hh : p.SameHeader a p') (hl : p'.transport_len_ = p.transport_len_)
    (hi : p'.ibuf_ = p.ibuf_) : Edited pc acc p q a b e := by
  have hlen := hh.headerLen hs
  have hdest := hh.getDEST
  obtain ⟨h₁, h₂, h₃, h₄, h₅, h₆, h₇, h₈⟩ := h
  rw [hlen, hl] at h₂
  rw [hdest, hh.seq hs] at h₃
  rw [hlen, hi] at h₄
  rw [hlen] at h₆ h₈
  rw [hh.ip_len_] at h₇
  exact ⟨h₁, h₂, h₃, h₄, h₅, h₆, h₇, h₈⟩

theorem Shifted.still (hips : (ips.flatMap poolOf).Nodup) {p q : Packet} {f : ℕ} {flow : Flow σ} {dest : DEST}
    {c : Choice σ} {tcp udp : Bool} {content : Text} (h : Shifted sm.extra (sm.flowAt f) flow p q)
    (hc : chooseOps pc ((sm.setFlow f flow).setFlow f (((sm.setFlow f flow).flowAt f).count q dest)) f dest
      tcp udp content = .ok c) : Still ips sm c.sm := by
  have hset : Still ips sm (sm.setFlow f flow) := .setFlow h.addr h.account
  obtain ⟨h₁, h₂, -⟩ := count_frame (p := q) ((sm.setFlow f flow).flowAt f) dest
  exact (hset.trans (.setFlow h₂ h₁)).trans ((Quiet.frame hips).chooseOps hc).still

theorem doContent_other (hips : (ips.flatMap poolOf).Nodup) {nat : NAT} {p : Packet} {f : ℕ} {dest : DEST}
    {out : AppOut σ} (h : doContent pc nat sm p f dest = .ok out) :
    Grown ips sm out.sm ∧ (∀ g ≠ f, (out.sm.flowAt g).account = (sm.flowAt g).account) ∧
      out.nat.exttcpflow_ = nat.exttcpflow_ := by
  obtain ⟨flow, q, hs, ⟨-, rfl⟩ | ⟨-, c, hc, rfl⟩⟩ := doContent_cases h
  · have hset : Still ips sm (sm.setFlow f flow) := .setFlow hs.addr hs.account
    exact ⟨hset.grown, fun g _ ↦ hset.account g, rfl⟩
  have hstill := hs.still hips hc
  rcases applyOps_cases nat c q f dest with he | ⟨parser, -, -, he⟩
  · rw [he]
    exact ⟨hstill.grown, fun g _ ↦ hstill.account g, rfl⟩
  · rw [he]
    have haddr := (addOffset_addr _ dest ((c.sm.flowAt f).modify pc c.sm.extra q c.ops parser).delta).trans
      (modify_addr (p := q) (c.sm.flowAt f) c.sm.extra pc c.ops parser)
    have hstore := @Frame.storeParser _ (c.sm.setFlow f
      (((c.sm.flowAt f).modify pc c.sm.extra q c.ops parser).flow.addOffset dest
        ((c.sm.flowAt f).modify pc c.sm.extra q c.ops parser).delta)) _ (Quiet.frame hips) f c.protocol dest
      ((c.sm.flowAt f).modify pc c.sm.extra q c.ops parser).parser
    refine ⟨hstill.grown.trans ((Grown.setFlow haddr).trans hstore.grown), fun g hg ↦ ?_, rfl⟩
    rw [hstore.still.account, flowAt_setFlow_ne hg.symm, hstill.account]

/-- What handling a segment of the flow `f` does to that flow and to the segment. -/
structure Passed (pc : ParserClass σ) (sm : StateManager σ) (f : ℕ) (p : Packet) (a b : Int) (nat : NAT)
    (out : AppOut σ) :
    Prop where
  header : p.SameHeader a out.pkt
  plain : out.edit = none → (out.sm.flowAt f).account = (sm.flowAt f).account ∧
    out.pkt.transport_len_ = p.transport_len_ ∧ (sm.extra ≠ .SHIFT → out.pkt = p) ∧ out.nat = nat
  edited : ∀ e, out.edit = some e → Edited pc (sm.flowAt f).account p out.pkt a b e ∧
    (out.sm.flowAt f).account = (sm.flowAt f).account.record sm.extra p.getDEST p.seq e
  obuf_len_ : out.edit = none → out.pkt.obuf_len_ = p.obuf_len_

theorem doContent_passed (hips : (ips.flatMap poolOf).Nodup) {nat : NAT} {p : Packet} {f : ℕ} {a b : Int}
    {out : AppOut σ} (hf : f < sm.heap.length) (hp : p.Segment a b)
    (h : doContent pc nat sm p f p.getDEST = .ok out) : Passed pc sm f p a b nat out := by
  obtain ⟨flow, q, hs, h⟩ := doContent_cases h
  obtain ⟨hh, hl, hi⟩ := hs.packet a b hp
  rcases h with ⟨-, rfl⟩ | ⟨-, c, hc, rfl⟩
  · have hset : Still ips sm (sm.setFlow f flow) := .setFlow hs.addr hs.account
    exact ⟨hh, fun _ ↦ ⟨hset.account f, hl, fun he ↦ (hs.none he).2, rfl⟩, fun e he ↦ (nomatch he),
      fun _ ↦ hs.obuf_len_⟩
  have hstill := hs.still hips hc
  have hq : q.Segment a b := hh.segment hp (hl ▸ hp.complete)
  rcases applyOps_cases nat c q f p.getDEST with he | ⟨parser, -, hops, he⟩
  · rw [he]
    exact ⟨hh, fun _ ↦ ⟨hstill.account f, hl, fun he ↦ (hs.none he).2, rfl⟩, fun e he ↦ (nomatch he),
      fun _ ↦ hs.obuf_len_⟩
  · rw [he]
    refine ⟨hh.trans (modify_packet _ _ _ _ _ hq hops) hp, (fun he ↦ by cases he), fun e he ↦ ?_,
      fun he ↦ (nomatch he)⟩
    cases he
    have hdest := hh.getDEST
    have hacc := @modify_account _ pc _ _ _ (c.sm.flowAt f) c.sm.extra c.ops parser hq hops c.protocol c.pos
    rw [hdest, hh.seq hp, hstill.account, hstill.grown.extra] at hacc
    have hedit := (@modify_edited _ pc _ _ _ (c.sm.flowAt f) c.sm.extra c.ops parser hq hops c.protocol c.pos).congr
      hp hh hl hi
    rw [hstill.account] at hedit
    refine ⟨hedit, ?_⟩
    rw [((Quiet.frame hips).storeParser _ _ _ _).still.account, flowAt_setFlow (hstill.grown.lt hf),
      hstill.grown.extra]
    exact hacc

theorem doApp_cases {nat : NAT} {p : Packet} {out : AppOut σ} (hmode : sm.analysisMode = false)
    (h : doApp pc nat sm p = .ok out) :
    ((p.getFlow sm).1 = none ∧ out = ⟨{ nat with exttcpflow_ := none }, sm, p, [], none⟩) ∨
    ∃ f, (p.getFlow sm).1 = some f ∧
      (((adjust (sm.flowAt f) p.getDEST p).transport_len_ ≤
          (adjust (sm.flowAt f) p.getDEST p).getTransportHeaderLen ∨ (sm.flowAt f).ignored = true) ∧
        out = ⟨{ nat with exttcpflow_ := some f }, sm, adjust (sm.flowAt f) p.getDEST p, [], none⟩ ∨
      ((adjust (sm.flowAt f) p.getDEST p).getTransportHeaderLen <
          (adjust (sm.flowAt f) p.getDEST p).transport_len_ ∧ (sm.flowAt f).ignored = false) ∧
        doContent pc { nat with exttcpflow_ := some f } sm (adjust (sm.flowAt f) p.getDEST p) f
          (adjust (sm.flowAt f) p.getDEST p).getDEST = .ok out) := by
  unfold doApp at h
  dsimp only at h
  rw [getFlow_snd hmode] at h
  cases hf : (p.getFlow sm).1 with
  | none =>
    simp only [hf] at h
    cases h
    exact .inl ⟨rfl, rfl⟩
  | some f =>
    simp only [hf] at h
    unfold doAppFlow at h
    rw [hmode, if_neg (by simp)] at h
    dsimp only at h
    refine .inr ⟨f, rfl, ?_⟩
    split at h
    case isTrue hidle =>
      cases h
      exact .inl ⟨hidle, rfl⟩
    case isFalse hidle =>
      rw [not_or, not_le, Bool.not_eq_true] at hidle
      exact .inr ⟨hidle, h⟩

theorem Course.doApp {R : StateManager σ → Asked → StateManager σ → Prop} {f : ℕ} (hR : Course R f)
    (hset : ∀ {s : StateManager σ} {flow : Flow σ}, flow.addr = (s.flowAt f).addr → R s [] (s.setFlow f flow))
    {nat : NAT} {p : Packet} {out : AppOut σ} (hmode : sm.analysisMode = false) (hf : (p.getFlow sm).1 = some f)
    (h : doApp pc nat sm p = .ok out) : R sm out.asked out.sm := by
  rcases doApp_cases hmode h with ⟨hn, -⟩ | ⟨g, hg, h⟩
  · rw [hf] at hn
    cases hn
  obtain rfl : f = g := Option.some.inj (hf.symm.trans hg)
  rcases h with ⟨-, rfl⟩ | ⟨-, h⟩
  · exact hR.refl _
  · exact hR.doContent hset h

theorem doApp_other (hips : (ips.flatMap poolOf).Nodup) {nat : NAT} {p : Packet} {out : AppOut σ}
    (hmode : sm.analysisMode = false) (h : doApp pc nat sm p = .ok out) :
    Grown ips sm out.sm ∧ (∀ g, (p.getFlow sm).1 ≠ some g → (out.sm.flowAt g).account = (sm.flowAt g).account) ∧
      out.nat.exttcpflow_ = (p.getFlow sm).1 := by
  rcases doApp_cases hmode h with ⟨hf, rfl⟩ | ⟨f, hf, ⟨-, rfl⟩ | ⟨-, h⟩⟩
  · exact ⟨Grown.refl _, fun _ _ ↦ rfl, hf.symm⟩
  · exact ⟨Grown.refl _, fun _ _ ↦ rfl, hf.symm⟩
  · obtain ⟨hg, ho, hx⟩ := doContent_other hips h
    rw [hf]
    exact ⟨hg, fun g hne ↦ ho g (fun e ↦ hne (by rw [e])), hx⟩

theorem doApp_passed (hips : (ips.flatMap poolOf).Nodup) (hc : Coherent ips sm)
    (hmode : sm.analysisMode = false) {nat : NAT} {p : Packet} {f : ℕ} {a b : Int} {out : AppOut σ}
    (hf : (p.getFlow sm).1 = some f) (hp : p.Segment a b) (h : doApp pc nat sm p = .ok out) :
    Passed pc sm f (adjust (sm.flowAt f) p.getDEST p) a b { nat with exttcpflow_ := some f } out ∧
      (out.edit.isSome → p.getTransportHeaderLen < p.transport_len_) := by
  rcases doApp_cases hmode h with ⟨hn, -⟩ | ⟨g, hg, h⟩
  · rw [hf] at hn
    cases hn
  obtain rfl : f = g := Option.some.inj (hf.symm.trans hg)
  rcases h with ⟨-, rfl⟩ | ⟨⟨hlen, -⟩, h⟩
  · exact ⟨⟨.refl _ _, fun _ ↦ ⟨rfl, rfl, fun _ ↦ rfl, rfl⟩, fun e he ↦ (nomatch he), fun _ ↦ rfl⟩,
      fun he ↦ by cases he⟩
  · refine ⟨doContent_passed hips (getFlow_lt hc hmode hf) (adjust_segment _ _ hp) h, fun _ ↦ ?_⟩
    rw [adjust_headerLen _ _ hp.tcp_, adjust_eq _ _ hp.tcp_] at hlen
    exact hlen

end Nat64Alg
