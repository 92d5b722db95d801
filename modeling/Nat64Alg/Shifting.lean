import Nat64Alg.Offsets

namespace Nat64Alg

open Lib StateManager

variable {σ : Type} {pc : ParserClass σ} {ips : List IPv4Addr} {sm sm' : StateManager σ} {p : Packet} {a b : Int}
  {f : ℕ}

theorem equiv_word {x y : UInt32} : equiv wordLt x y = true ↔ x = y :=
  (OrderedMap.equiv_of_key UInt32.toNat (fun _ _ ↦ rfl)).trans UInt32.toNat_inj

/-- The bytes carried over to the segment that starts at `seq`. -/
def Flow.pending (flow : Flow σ) (seq : UInt32) : Text := (flow.trail_shift.find? seq).getD []

theorem pending_of_ledger {flow flow' : Flow σ} (h : flow'.ledger = flow.ledger) : flow'.pending = flow.pending := by
  have := congrArg Ledger.trail_shift h
  unfold Flow.pending
  rw [show flow'.trail_shift = flow.trail_shift from this]

section Shift

variable (flow : Flow σ) (d len : Int)

theorem shift_idle (h : flow.pending p.cur_seq_ = []) : (flow.shift .SHIFT p d len).2 = p ∧
    ∀ s, (flow.shift .SHIFT p d len).1.pending s = flow.pending s := by
  have hnil : (flow.trail_shift.index p.cur_seq_ []).1 = [] := (OrderedMap.index_fst _ _ _).trans h
  unfold Flow.shift
  rw [if_pos rfl]
  dsimp only
  rw [hnil, if_neg (by simp)]
  exact ⟨rfl, fun s ↦ OrderedMap.find?_index _ _ _ _⟩

theorem shift_carry {t : Text} (h : flow.pending p.cur_seq_ = t) (ht : t ≠ []) :
    (flow.shift .SHIFT p d len).2 = p.withObuf ((p.obuf_.store (d + t.length)
      (p.obuf_.slice d (len - t.length).toNat)).store d t) ∧
    ∀ s, (flow.shift .SHIFT p d len).1.pending s =
      if s = p.nxt_seq_ then p.obuf_.slice (d + len - t.length) t.length else flow.pending s := by
  have hfst : (flow.trail_shift.index p.cur_seq_ []).1 = t := (OrderedMap.index_fst _ _ _).trans h
  unfold Flow.shift
  rw [if_pos rfl]
  dsimp only
  rw [hfst, if_pos (List.length_pos_iff.mpr ht)]
  refine ⟨rfl, fun s ↦ ?_⟩
  unfold Flow.pending
  dsimp only
  rw [OrderedMap.find?_insert]
  by_cases hs : s = p.nxt_seq_
  · rw [if_pos (equiv_word.mpr hs), if_pos hs, Int.toNat_natCast]
    rfl
  · rw [if_neg (fun he ↦ hs (equiv_word.mp he)), if_neg hs]
    exact OrderedMap.find?_index _ _ _ _

theorem shiftTCP_idle (extra : EXTRAType) (h : flow.pending p.cur_seq_ = []) : (flow.shiftTCP extra p).2 = p := by
  unfold Flow.shiftTCP
  dsimp only
  split
  · by_cases he : extra = .SHIFT
    · subst he
      exact (shift_idle flow _ _ h).1
    · rw [shift_none flow extra he]
  · rfl

theorem shiftTCP_protocol (extra : EXTRAType) (p : Packet) :
    (flow.shiftTCP extra p).1.getProtocol = flow.getProtocol := by
  unfold Flow.shiftTCP Flow.shift
  dsimp only
  split
  · split
    · split <;> rfl
    · rfl
  · rfl

theorem count_protocol (dest : DEST) : (flow.count p dest).getProtocol = flow.getProtocol := by
  unfold Flow.count
  split
  · rfl
  · exact (apply_ite Flow.getProtocol _ _ _).trans (ite_self _)

end Shift

section Modify

variable (flow : Flow σ) (ops : List Operation) (parser : Parser σ)

theorem getPktOffset_pending : (flow.getPktOffset p).2.pending = flow.pending := by
  unfold Flow.getPktOffset
  split
  · rfl
  · dsimp only
    split <;> rfl

theorem count_pending (dest : DEST) : (flow.count p dest).pending = flow.pending := by
  unfold Flow.count
  split
  · rfl
  · exact (apply_ite Flow.pending _ _ _).trans (ite_self _)

theorem exceed_nil (maxPos : Int) : Flow.exceed pc parser maxPos [] = [] := by
  unfold Flow.exceed
  rw [if_neg (by simp)]

theorem keepTail_pending (h : p.isTCP = true) (len_old : Int) (d : Text) (s : UInt32) :
    (flow.keepTail .SHIFT p len_old d).1.pending s =
      if s = p.nxt_seq_ ∧ (decide (len_old < d.length) && decide (1400 < len_old)) = true then
        d.drop len_old.toNat else flow.pending s := by
  unfold Flow.keepTail
  rw [h, Bool.true_and]
  cases hcut : decide (len_old < d.length) && decide (1400 < len_old)
  · rw [if_neg (by simp), if_neg (by simp)]
  · rw [if_pos rfl]
    dsimp only [Flow.pending]
    rw [if_pos rfl]
    dsimp only
    rw [OrderedMap.find?_insert]
    by_cases hs : s = p.nxt_seq_
    · rw [if_pos (equiv_word.mpr hs), if_pos ⟨hs, rfl⟩]
      rfl
    · rw [if_neg (fun he ↦ hs (equiv_word.mp he)), if_neg (fun he ↦ hs he.1)]

theorem modify_pending (h : p.Segment a b) (hops : 0 < ops.length) (protocol : String) (pos : ℕ) (n : Int)
    (s : UInt32) : ((flow.modify pc .SHIFT p ops parser).flow.addOffset p.getDEST n).pending s =
      if s = p.nxt_seq_ ∧ ((flow.modify pc .SHIFT p ops parser).edit protocol ops pos).cut = true then
        ((flow.modify pc .SHIFT p ops parser).edit protocol ops pos).tail else flow.pending s := by
  have hadd : ∀ g : Flow σ, (g.addOffset p.getDEST n).pending = g.pending := fun g ↦ by
    cases p.getDEST <;> rfl
  have htcp : p.isTCP = true := by simp [Packet.isTCP, h.tcp_]
  rw [hadd, modify_segment flow .SHIFT pc ops parser h hops]
  unfold Flow.modifyAt
  dsimp only
  rw [keepTail_pending _ htcp, getPktOffset_pending]
  refine if_ctx_congr Iff.rfl (fun hcut ↦ ?_) (fun _ ↦ rfl)
  exact (if_pos hcut.2).symm

theorem modify_payload (extra : EXTRAType) (h : p.Segment a b) (hops : 0 < ops.length) (protocol : String) (pos : ℕ) :
    (flow.modify pc extra p ops parser).pkt.payload =
      ((flow.modify pc extra p ops parser).edit protocol ops pos).kept := by
  have hhead := modify_packet flow extra pc ops parser h hops
  have hhl := hhead.headerLen h
  have hedit := @modify_edited _ pc _ _ _ flow extra ops parser h hops protocol pos
  have htcp := hhead.tcp_.trans h.tcp_
  unfold Packet.payload Packet.transport
  rw [htcp, Option.some_or]
  dsimp only
  rw [hhl]
  rcases Int.lt_or_le (((flow.modify pc extra p ops parser).edit protocol ops pos).len_old +
    ((sortOps ops).map Operation.delta).sum) 0 with hneg | hpos
  · have hnil : ((flow.modify pc extra p ops parser).edit protocol ops pos).built = [] := by
      obtain ⟨parser', maxPos, hb⟩ := hedit.built
      have hc : ((flow.modify pc extra p ops parser).edit protocol ops pos).copied = [] := by
        rw [hedit.copied]
        refine List.eq_nil_of_length_eq_zero ((length_copied _ _ _ _).trans ?_)
        have : ((flow.modify pc extra p ops parser).edit protocol ops pos).ops = ops := rfl
        rw [this]
        omega
      rw [hb, hc, exceed_nil]
    have hlen : (flow.modify pc extra p ops parser).pkt.transport_len_ - p.getTransportHeaderLen < 0 := by
      have hold : ((flow.modify pc extra p ops parser).edit protocol ops pos).len_old =
        p.transport_len_ - p.getTransportHeaderLen := hedit.len_old
      rw [hold] at hneg
      rw [modify_segment flow extra pc ops parser h hops]
      unfold Flow.modifyAt
      dsimp only
      rw [setTransportLen_segment (by exact h.udp_), if_pos hneg]
      dsimp only
      omega
    have hkept : ((flow.modify pc extra p ops parser).edit protocol ops pos).kept = [] := by
      unfold Edit.kept
      rw [hnil]
      simp
    rw [hkept, Int.toNat_of_nonpos (by omega)]
    rfl
  · obtain ⟨hlen, hslice⟩ := hedit.sent hpos
    rw [hlen, show ∀ x y : Int, x + y - x = y from fun x y ↦ by omega, Int.toNat_natCast]
    exact hslice

end Modify

theorem add_ofInt_sub (s : UInt32) (x y : Int) :
    s + UInt32.ofInt (x - y) = s + UInt32.ofInt x - UInt32.ofInt y := by
  rw [Int.sub_eq_add_neg, UInt32.ofInt_add, UInt32.ofInt_neg, ← UInt32.add_assoc, ← UInt32.sub_eq_add_neg]

namespace Packet

theorem unpackAs_numbers {p q : Packet} {protocol : UInt8} {old ip_len : Int} (htcp : p.tcp_ = none)
    (h : p.unpackAs protocol old ip_len = .ok q) (hq : q.isTCP = true) :
    q.cur_seq_ = q.seq ∧ q.nxt_seq_ = q.seq + UInt32.ofInt (q.transport_len_ - q.getTransportHeaderLen) := by
  unfold unpackAs at h
  dsimp only at h
  split at h
  · cases h
  · cases h
    unfold handleTransportLayer at hq ⊢
    dsimp only at hq ⊢
    split at hq
    case isTrue hp =>
      rw [if_pos hp]
      exact ⟨rfl, (add_ofInt_sub _ _ _).symm⟩
    case isFalse =>
      split at hq <;> simp [isTCP, htcp] at hq

theorem IsSegment.numbers (h : p.IsSegment) : p.cur_seq_ = p.seq ∧
    p.nxt_seq_ = p.seq + UInt32.ofInt (p.transport_len_ - p.getTransportHeaderLen) := by
  obtain ⟨htcp, h | h⟩ := h
  · obtain ⟨junk, buf, hr⟩ := h.source
    unfold receive at hr
    split at hr
    · cases hr
    case h_2 q hq =>
      obtain ⟨-, hw, hn, -⟩ := setIbuf_ok hq
      rw [unpack_v6 hw] at hr
      exact unpackAs_numbers (by exact hn) hr htcp
  · obtain ⟨junk, buf, hr⟩ := h.source
    unfold receive at hr
    split at hr
    · cases hr
    case h_2 q hq =>
      obtain ⟨-, hw, hn, -⟩ := setIbuf_ok hq
      rw [unpack_v4 hw] at hr
      exact unpackAs_numbers (by exact hn) hr htcp

end Packet

theorem adjust_payload (flow : Flow σ) (dest : DEST) (hp : p.Segment a b) :
    (adjust flow dest p).payload = p.payload := by
  have hq := adjust_segment flow dest hp
  have hhl := adjust_headerLen flow dest hp.tcp_
  have hheader := hp.header
  simp only [Packet.payload, Packet.transport, hq.tcp_, hp.tcp_, Option.some_or, hhl]
  rw [show (adjust flow dest p).transport_len_ = p.transport_len_ by rw [adjust_eq _ _ hp.tcp_]; rfl]
  exact Mem.slice_congr fun i h₁ h₂ ↦ adjust_outside flow dest hp.tcp_ (by omega)

/-- What is left of a segment of the flow `f`, and of the bytes carried over. -/
structure Handed (flow flow' : Flow σ) (p q : Packet) (a : Int) (edit : Option Edit) : Prop where
  plain : flow.pending p.cur_seq_ = [] → edit = none →
    q.payload = p.payload ∧ ∀ s, flow'.pending s = flow.pending s
  edited : flow.pending p.cur_seq_ = [] → ∀ e, edit = some e → q.payload = e.kept ∧
    ∀ s, flow'.pending s = if s = p.nxt_seq_ ∧ e.cut = true then e.tail else flow.pending s
  carried : flow.pending p.cur_seq_ ≠ [] → flow.ignored = false → edit = none →
    q.payload = (flow.pending p.cur_seq_ ++ p.payload).take p.payload.length ∧
    ∀ s, flow'.pending s = if s = p.nxt_seq_ then
      (adjust flow p.getDEST p).obuf_.slice (a + p.transport_len_ - (flow.pending p.cur_seq_).length)
        (flow.pending p.cur_seq_).length else flow.pending s

theorem shift_payload (flow : Flow σ) (hp : p.Segment a b) {t : Text} (h : flow.pending p.cur_seq_ = t) (ht : t ≠ []) :
    (flow.shift .SHIFT p (a + p.getTransportHeaderLen) (p.transport_len_ - p.getTransportHeaderLen)).2.payload =
      (t ++ p.payload).take p.payload.length := by
  obtain ⟨hhead, htl, -⟩ := shift_packet (p := p) (a := a) flow .SHIFT (p.transport_len_ - p.getTransportHeaderLen)
  have hseg := hhead.segment hp (by rw [htl]; exact hp.complete)
  have hpay : p.payload = p.obuf_.slice (a + p.getTransportHeaderLen)
      (p.transport_len_ - p.getTransportHeaderLen).toNat := by
    simp only [Packet.payload, Packet.transport, hp.tcp_, Option.some_or]
  rw [hpay, Mem.length_slice, ← Mem.slice_pushed]
  simp only [Packet.payload, Packet.transport, hseg.tcp_, Option.some_or, hhead.headerLen hp, htl]
  rw [(shift_carry flow _ _ h ht).1, show (p.transport_len_ - p.getTransportHeaderLen).toNat - t.length =
    (p.transport_len_ - p.getTransportHeaderLen - t.length).toNat by omega]
  rfl

theorem setFlow_pending {flow : Flow σ} (hf : f < sm.heap.length) :
    ((sm.setFlow f flow).flowAt f).pending = flow.pending := by
  rw [flowAt_setFlow hf]

theorem applied_pending (hips : (ips.flatMap poolOf).Nodup) (hextra : sm.extra = .SHIFT) (hf : f < sm.heap.length)
    {nat : NAT} {q : Packet} {flow : Flow σ} {c : Choice σ} (hq : q.Segment a b)
    (hc : chooseOps pc ((sm.setFlow f flow).setFlow f (((sm.setFlow f flow).flowAt f).count q q.getDEST)) f
      q.getDEST q.isTCP q.isUDP q.payload = .ok c) :
    ((applyOps pc nat c q f q.getDEST).edit = none → (applyOps pc nat c q f q.getDEST).pkt = q ∧
      ((applyOps pc nat c q f q.getDEST).sm.flowAt f).pending = flow.pending) ∧
    ∀ e, (applyOps pc nat c q f q.getDEST).edit = some e →
      (applyOps pc nat c q f q.getDEST).pkt.payload = e.kept ∧
      ∀ s, ((applyOps pc nat c q f q.getDEST).sm.flowAt f).pending s =
        if s = q.nxt_seq_ ∧ e.cut = true then e.tail else flow.pending s := by
  have hquiet := (Quiet.frame hips).chooseOps hc
  have hf₁ : f < (sm.setFlow f flow).heap.length := by simpa [StateManager.setFlow] using hf
  have hpend : (c.sm.flowAt f).pending = flow.pending := by
    rw [pending_of_ledger (hquiet.ledger f), setFlow_pending hf₁, count_pending, setFlow_pending hf]
  have hextra' : c.sm.extra = .SHIFT := hquiet.grown.extra.trans hextra
  have hf' : f < c.sm.heap.length := hquiet.grown.lt (by simpa [StateManager.setFlow] using hf)
  rcases applyOps_cases nat c q f q.getDEST with he | ⟨parser, -, hops, he⟩
  · rw [he]
    refine ⟨fun _ ↦ ⟨rfl, hpend⟩, fun e h ↦ ?_⟩
    cases h
  · rw [he]
    constructor
    · intro h
      cases h
    intro e h
    cases h
    rw [hextra']
    refine ⟨modify_payload _ _ _ _ hq hops _ _, fun s ↦ ?_⟩
    rw [pending_of_ledger (((Quiet.frame hips).storeParser _ _ _ _).ledger f), setFlow_pending hf',
      modify_pending _ _ _ hq hops c.protocol c.pos, hpend]

theorem doApp_handed (hips : (ips.flatMap poolOf).Nodup) (hs : Sound ips sm) (hextra : sm.extra = .SHIFT) {nat : NAT}
    {out : AppOut σ} (hf : (p.getFlow sm).1 = some f) (hp : p.Segment a b)
    (hlen : p.getTransportHeaderLen < p.transport_len_) (h : doApp pc nat sm p = .ok out) :
    Handed (sm.flowAt f) (out.sm.flowAt f) p out.pkt a out.edit := by
  have hlt := getFlow_lt hs.coherent hs.mode hf
  obtain ⟨r, hr⟩ : ∃ r, r = adjust (sm.flowAt f) p.getDEST p := ⟨_, rfl⟩
  have hseg : r.Segment a b := hr ▸ adjust_segment _ _ hp
  have hpay : r.payload = p.payload := hr ▸ adjust_payload _ _ hp
  have hhl : r.getTransportHeaderLen = p.getTransportHeaderLen := hr ▸ adjust_headerLen _ _ hp.tcp_
  have hsame : r.cur_seq_ = p.cur_seq_ ∧ r.nxt_seq_ = p.nxt_seq_ ∧ r.transport_len_ = p.transport_len_ := by
    rw [hr, adjust_eq _ _ hp.tcp_]
    exact ⟨rfl, rfl, rfl⟩
  obtain ⟨hcur, hnxt, htl⟩ := hsame
  rcases doApp_cases hs.mode h with ⟨hn, -⟩ | ⟨g, hg, h⟩
  · rw [hf] at hn
    cases hn
  obtain rfl : f = g := Option.some.inj (hf.symm.trans hg)
  rw [← hr, htl, hhl] at h
  rcases h with ⟨hidle, rfl⟩ | ⟨-, h⟩
  · exact ⟨fun _ _ ↦ ⟨hpay, fun _ ↦ rfl⟩, fun _ e he ↦ (nomatch he), fun _ hno _ ↦ by
      rcases hidle with hidle | hidle
      · omega
      · rw [hno] at hidle
        cases hidle⟩
  have hshift : (sm.flowAt f).shiftTCP sm.extra r =
      (sm.flowAt f).shift .SHIFT r (a + r.getTransportHeaderLen) (r.transport_len_ - r.getTransportHeaderLen) := by
    simp only [Flow.shiftTCP, hseg.tcp_, hextra]
  obtain ⟨flow, q, hfq⟩ : ∃ flow q, (sm.flowAt f).shift .SHIFT r (a + r.getTransportHeaderLen)
    (r.transport_len_ - r.getTransportHeaderLen) = (flow, q) := ⟨_, _, rfl⟩
  have hdone := doContent_shift h (hshift.trans hfq)
  by_cases hw : (sm.flowAt f).pending p.cur_seq_ = []
  · obtain ⟨hq, hpend⟩ := shift_idle (p := r) (sm.flowAt f) (a + r.getTransportHeaderLen)
      (r.transport_len_ - r.getTransportHeaderLen) (by rw [hcur]; exact hw)
    rw [hfq] at hq hpend
    subst hq
    rcases hdone with ⟨-, rfl⟩ | ⟨-, c, hc, rfl⟩
    · refine ⟨fun _ _ ↦ ⟨hpay, fun s ↦ ?_⟩, fun _ e he ↦ (nomatch he), fun hne ↦ absurd hw hne⟩
      rw [setFlow_pending hlt]
      exact hpend s
    · obtain ⟨hplain, hedited⟩ := applied_pending hips hextra hlt hseg hc
      refine ⟨fun _ he ↦ ?_, fun _ e he ↦ ?_, fun hne ↦ absurd hw hne⟩
      · obtain ⟨hpkt, hpend'⟩ := hplain he
        rw [hpkt, hpend']
        exact ⟨hpay, hpend⟩
      · obtain ⟨hkept, hpend'⟩ := hedited e he
        refine ⟨hkept, fun s ↦ ?_⟩
        rw [hpend', hnxt, hpend]
  · obtain ⟨t, ht⟩ : ∃ t, (sm.flowAt f).pending p.cur_seq_ = t := ⟨_, rfl⟩
    obtain ⟨hq, hpend⟩ := shift_carry (p := r) (sm.flowAt f) (a + r.getTransportHeaderLen)
      (r.transport_len_ - r.getTransportHeaderLen) (by rw [hcur]; exact ht) (ht ▸ hw)
    obtain ⟨hhead, -, -⟩ := shift_packet (p := r) (a := a) (sm.flowAt f) .SHIFT
      (r.transport_len_ - r.getTransportHeaderLen)
    rw [hfq] at hq hpend hhead
    dsimp only at hq hhead
    have htlq : q.transport_len_ = r.transport_len_ := by rw [hq]; rfl
    have hsegq := hhead.segment hseg (htlq ▸ hseg.complete)
    have hpayq := shift_payload (sm.flowAt f) hseg (t := t) (by rw [hcur]; exact ht) (ht ▸ hw)
    rw [hfq, hpay] at hpayq
    refine ⟨fun he ↦ absurd he hw, fun he ↦ absurd he hw, fun _ _ he ↦ ?_⟩
    rw [ht, ← hr]
    rw [hnxt, htl, show a + r.getTransportHeaderLen + (p.transport_len_ - r.getTransportHeaderLen) - (t.length : Int) =
      a + p.transport_len_ - t.length by omega] at hpend
    rcases hdone with ⟨-, rfl⟩ | ⟨-, c, hc, rfl⟩
    · refine ⟨hpayq, fun s ↦ ?_⟩
      rw [setFlow_pending hlt]
      exact hpend s
    · rw [← hhead.getDEST] at hc he ⊢
      obtain ⟨hpkt, hpend'⟩ := (applied_pending hips hextra hlt hsegq hc).1 he
      rw [hpkt, hpend']
      exact ⟨hpayq, hpend⟩

section Frames

variable {g : ℕ}

theorem begin_pending (hips : (ips.flatMap poolOf).Nodup) {nat nat' : NAT} {rc : Int}
    (h : nat.begin sm p = .ok (rc, nat', sm')) : (sm'.flowAt g).pending = (sm.flowAt g).pending := by
  rcases begin_cases h with ⟨-, f, sm₁, hd, -, -, rfl⟩ | ⟨-, f, -, -, -, rfl⟩ | ⟨-, -, -, -, rfl⟩
  · have hmap := Quiet.doMapping hips sm ⟨p.saddr6, p.getSourcePort⟩ p.daddr6
    rw [hd] at hmap
    refine Eq.trans ?_ (pending_of_ledger (hmap.ledger g))
    show ((sm₁.setTid f nat.tid).flowAt g).pending = _
    unfold StateManager.setTid
    split
    · rcases eq_or_ne f g with rfl | hne
      · rcases lt_or_ge f sm₁.heap.length with hlt | hge
        · rw [setFlow_pending hlt]
          rfl
        · rw [StateManager.setFlow, List.set_eq_of_length_le hge]
      · rw [flowAt_setFlow_ne hne]
    · rfl
  · rfl
  · rfl

theorem doApp_pending (hips : (ips.flatMap poolOf).Nodup) (hs : Sound ips sm) {nat : NAT} {out : AppOut σ}
    (h : doApp pc nat sm p = .ok out)
    (hno : (p.getFlow sm).1 ≠ some g ∨ p.isTCP = true ∧ p.transport_len_ ≤ p.getTransportHeaderLen) :
    (out.sm.flowAt g).pending = (sm.flowAt g).pending := by
  rcases doApp_cases hs.mode h with ⟨-, rfl⟩ | ⟨f, hf, ⟨-, rfl⟩ | ⟨hlen, h⟩⟩
  · rfl
  · rfl
  rcases hno with hne | ⟨htcp, hidle⟩
  · have hfg : f ≠ g := fun he ↦ hne (he ▸ hf)
    obtain ⟨flow, q, -, ⟨-, rfl⟩ | ⟨-, c, hc, rfl⟩⟩ := doContent_cases h
    · rw [flowAt_setFlow_ne hfg]
    have hquiet := pending_of_ledger (((Quiet.frame hips).chooseOps hc).ledger g)
    rw [flowAt_setFlow_ne hfg, flowAt_setFlow_ne hfg] at hquiet
    rw [← hquiet]
    rcases applyOps_cases { nat with exttcpflow_ := some f } c q f
      (adjust (sm.flowAt f) p.getDEST p).getDEST with he | ⟨parser, -, -, he⟩
    · rw [he]
    · rw [he, pending_of_ledger (((Quiet.frame hips).storeParser _ _ _ _).ledger g), flowAt_setFlow_ne hfg]
  · obtain ⟨a, ha⟩ := Option.isSome_iff_exists.mp htcp
    rw [adjust_headerLen _ _ ha, adjust_eq _ _ ha] at hlen
    exact absurd hlen.1 (not_lt.mpr hidle)

end Frames

end Nat64Alg
