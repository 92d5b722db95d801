import Nat64Alg.Parsing
import Nat64Alg.Rewrite

namespace Nat64Alg

open Lib StateManager

variable {σ : Type}

def DEST.other : DEST → DEST
  | .CLIENT => .SERVER
  | .SERVER => .CLIENT

namespace Packet

/-- A TCP segment with its header at `a` in `obuf_` and at `b` in `ibuf_`. -/
structure Segment (p : Packet) (a b : Int) : Prop where
  tcp_ : p.tcp_ = some a
  tcp_old_ : p.tcp_old_ = some b
  udp_ : p.udp_ = none
  ip_len_ : p.ip_len_ = a
  header : 20 ≤ p.getTransportHeaderLen
  complete : p.getTransportHeaderLen ≤ p.transport_len_

def Copied (p : Packet) (a b : Int) : Prop :=
  ∀ i, p.getTransportHeaderLen ≤ i → i < p.transport_len_ → p.obuf_ (a + i) = p.ibuf_ (b + i)

/-- A TCP packet of either IP version with a complete header. -/
def IsSegment (p : Packet) : Prop := p.isTCP = true ∧ (p.In6 ∨ p.In4)

/-- A TCP header at `a`, whatever the length of the packet. -/
structure Headed (p : Packet) (a : Int) : Prop where
  tcp_ : p.tcp_ = some a
  udp_ : p.udp_ = none
  ip_len_ : p.ip_len_ = a
  header : 20 ≤ p.getTransportHeaderLen

theorem Segment.headed {p : Packet} {a b : Int} (h : p.Segment a b) : p.Headed a :=
  ⟨h.tcp_, h.udp_, h.ip_len_, h.header⟩

theorem Ready.segment {p : Packet} {old ip_len : Int} {protocol : UInt8} (h : p.Ready old ip_len protocol)
    (hc : CompleteHeader p.ibuf_ old p.ibuf_len_ protocol) (htcp : p.isTCP = true) :
    p.Segment ip_len old ∧ p.Copied ip_len old := by
  have hproto : protocol = IPPROTO_TCP := by
    by_contra hne
    have := h.tcp_
    rw [if_neg hne] at this
    simp [isTCP, this] at htcp
  subst hproto
  have ht := h.tcp_
  rw [if_pos rfl] at ht
  rcases hc with ⟨-, hoff, hlen⟩ | ⟨hu, -⟩
  · have hth : p.getTransportHeaderLen = th_off p.ibuf_ old * 4 := by
      simp only [getTransportHeaderLen, ht, th_off, h.copied 12 (by omega) (by omega)]
    refine ⟨⟨ht, h.tcp_old_ (by rw [ht]; rfl), ?_, h.ip_len_, ?_, ?_⟩, fun i h₀ h₁ ↦ ?_⟩
    · rw [h.udp_, if_neg (by decide)]
    · rw [hth]
      omega
    · rw [hth, h.transport_len_]
      omega
    · exact h.copied i (by omega) (h.transport_len_ ▸ h₁)
  · exact absurd hu (by decide)

theorem IsSegment.segment {p : Packet} (h : p.IsSegment) : ∃ a b, p.Segment a b ∧ p.Copied a b := by
  obtain ⟨htcp, h | h⟩ := h
  · exact ⟨20, 40, h.ready.1.segment h.header htcp⟩
  · exact ⟨40, 20, h.ready.1.segment h.header htcp⟩

/-- The sequence and the acknowledgement number in the header to be sent. -/
def seq (p : Packet) : UInt32 := (p.tcp_.map (fun a ↦ ntohl (p.obuf_.ld32 (a + 4)))).getD 0
def ack (p : Packet) : UInt32 := (p.tcp_.map (fun a ↦ ntohl (p.obuf_.ld32 (a + 8)))).getD 0

theorem seq_eq {p : Packet} {a : Int} (h : p.tcp_ = some a) : p.seq = ntohl (p.obuf_.ld32 (a + 4)) := by
  simp [seq, h]

theorem ack_eq {p : Packet} {a : Int} (h : p.tcp_ = some a) : p.ack = ntohl (p.obuf_.ld32 (a + 8)) := by
  simp [ack, h]

/-- `q` carries the header of `p`: all that is before the payload is the same. -/
structure SameHeader (a : Int) (p q : Packet) : Prop where
  tcp_ : q.tcp_ = p.tcp_
  tcp_old_ : q.tcp_old_ = p.tcp_old_
  udp_ : q.udp_ = p.udp_
  ip_len_ : q.ip_len_ = p.ip_len_
  hw_protocol : q.hw_protocol = p.hw_protocol
  ipVersionBefore_ : q.ipVersionBefore_ = p.ipVersionBefore_
  obuf_ : ∀ i, i < a + p.getTransportHeaderLen → q.obuf_ i = p.obuf_ i

namespace SameHeader

variable {a b : Int} {p q r : Packet}

theorem refl (a : Int) (p : Packet) : SameHeader a p p := ⟨rfl, rfl, rfl, rfl, rfl, rfl, fun _ _ ↦ rfl⟩

theorem getDEST (h : SameHeader a p q) : q.getDEST = p.getDEST := by
  unfold Packet.getDEST
  rw [h.ipVersionBefore_]

theorem headerLen (h : SameHeader a p q) (hs : p.Segment a b) :
    q.getTransportHeaderLen = p.getTransportHeaderLen := by
  have := hs.header
  simp only [getTransportHeaderLen, h.tcp_, hs.tcp_, th_off, h.obuf_ (a + 12) (by omega)]

theorem trans (h : SameHeader a p q) (h' : SameHeader a q r) (hs : p.Segment a b) : SameHeader a p r :=
  ⟨h'.tcp_.trans h.tcp_, h'.tcp_old_.trans h.tcp_old_, h'.udp_.trans h.udp_, h'.ip_len_.trans h.ip_len_,
    h'.hw_protocol.trans h.hw_protocol, h'.ipVersionBefore_.trans h.ipVersionBefore_,
    fun i hi ↦ (h'.obuf_ i (by rw [h.headerLen hs]; exact hi)).trans (h.obuf_ i hi)⟩

theorem seq (h : SameHeader a p q) (hs : p.Segment a b) : q.seq = p.seq := by
  have := hs.header
  rw [seq_eq hs.tcp_, seq_eq (h.tcp_.trans hs.tcp_), Mem.ld32_congr (fun i h₁ h₂ ↦ h.obuf_ i (by omega))]

theorem ack (h : SameHeader a p q) (hs : p.Segment a b) : q.ack = p.ack := by
  have := hs.header
  rw [ack_eq hs.tcp_, ack_eq (h.tcp_.trans hs.tcp_), Mem.ld32_congr (fun i h₁ h₂ ↦ h.obuf_ i (by omega))]

end SameHeader

end Packet

section Adjust

variable {p : Packet} {a b : Int} (flow : Flow σ) (dest : DEST)

theorem adjust_eq (h : p.tcp_ = some a) : adjust flow dest p = p.withObuf
    ((p.obuf_.st32 (a + 4) (ntohl (p.seq + UInt32.ofInt (flow.getOffset dest)))).st32 (a + 8)
      (ntohl (p.ack - UInt32.ofInt (flow.getOffset dest.other)))) := by
  rw [p.seq_eq h, p.ack_eq h]
  cases dest <;> simp [adjust, h, Packet.withObuf, DEST.other]

theorem adjust_getDEST : (adjust flow dest p).getDEST = p.getDEST := by
  unfold adjust
  split
  · rfl
  · split <;> rfl

theorem adjust_outside (h : p.tcp_ = some a) {i : Int} (hi : i < a + 4 ∨ a + 12 ≤ i) :
    (adjust flow dest p).obuf_ i = p.obuf_ i := by
  rw [adjust_eq flow dest h, Packet.withObuf_obuf_, Mem.st32, Mem.store_outside _ (by simp; omega), Mem.st32,
    Mem.store_outside _ (by simp; omega)]

theorem adjust_headerLen (h : p.tcp_ = some a) :
    (adjust flow dest p).getTransportHeaderLen = p.getTransportHeaderLen := by
  have hth := adjust_outside flow dest h (i := a + 12) (by omega)
  have htcp : (adjust flow dest p).tcp_ = some a := by rw [adjust_eq flow dest h]; exact h
  simp only [Packet.getTransportHeaderLen, htcp, h, Packet.th_off, hth]

theorem adjust_segment (h : p.Segment a b) : (adjust flow dest p).Segment a b := by
  have hl := adjust_headerLen flow dest h.tcp_
  have he := adjust_eq flow dest h.tcp_
  exact ⟨by rw [he]; exact h.tcp_, by rw [he]; exact h.tcp_old_, by rw [he]; exact h.udp_,
    by rw [he]; exact h.ip_len_, by rw [hl]; exact h.header, by rw [hl, he]; exact h.complete⟩

theorem adjust_seq (h : p.tcp_ = some a) :
    (adjust flow dest p).seq = p.seq + UInt32.ofInt (flow.getOffset dest) := by
  rw [Packet.seq_eq (a := a) (by rw [adjust_eq flow dest h]; exact h), adjust_eq flow dest h,
    Packet.withObuf_obuf_, Mem.st32, Mem.ld32_store_disjoint _ (by simp; omega), Mem.ld32_st32, ntohl_ntohl]

theorem adjust_ack (h : p.tcp_ = some a) :
    (adjust flow dest p).ack = p.ack - UInt32.ofInt (flow.getOffset dest.other) := by
  rw [Packet.ack_eq (a := a) (by rw [adjust_eq flow dest h]; exact h), adjust_eq flow dest h,
    Packet.withObuf_obuf_, Mem.ld32_st32, ntohl_ntohl]

end Adjust

/-- The part of a flow that decides about numbers and positions. -/
structure Account where
  trail : DEST → Text
  offset : DEST → Int
  init_seq_set : DEST → Bool
  init_seq : DEST → UInt32

def Account.new : Account := ⟨fun _ ↦ [], fun _ ↦ 0, fun _ ↦ false, fun _ ↦ 0⟩

def Flow.account (f : Flow σ) : Account := ⟨f.trail, f.getOffset, f.init_seq_set, f.init_seq⟩

namespace Account

/-- The offset `getPktOffset` answers for a packet whose translated number is `seq`. -/
def pktOffset (acc : Account) (dest : DEST) (seq : UInt32) : Int :=
  if acc.init_seq_set dest then (seq - acc.init_seq dest).toInt32.toInt else 0

def record (acc : Account) (extra : EXTRAType) (dest : DEST) (seq : UInt32) (e : Edit) : Account where
  trail d := if d = dest ∧ e.cut = true ∧ extra ≠ .SHIFT then e.tail else acc.trail d
  offset d := if d = dest then acc.offset d + e.delta else acc.offset d
  init_seq_set d := if d = dest then true else acc.init_seq_set d
  init_seq d := if d = dest ∧ acc.init_seq_set d = false then seq else acc.init_seq d

end Account

theorem account_of_ledger {f g : Flow σ} (h : f.ledger = g.ledger) : f.account = g.account := by
  simp only [Flow.ledger, Ledger.mk.injEq] at h
  obtain ⟨h₁, -, -, h₄, h₅, -, h₇, h₈⟩ := h
  have hoff : f.getOffset = g.getOffset := by
    funext d
    cases d
    · exact h₅
    · exact h₄
  simp only [Flow.account, Account.mk.injEq]
  exact ⟨h₁, hoff, h₇, h₈⟩

theorem account_absent {sm : StateManager σ} {g : ℕ} (h : sm.heap.length ≤ g) :
    (sm.flowAt g).account = Account.new := by
  rw [flowAt, List.getElem?_eq_none h]
  simp only [Option.getD_none, Flow.account, Flow.new44, Flow.new, Account.new, Account.mk.injEq, true_and,
    and_self, and_true]
  funext d
  cases d <;> rfl

section Frames

variable {p : Packet} {a b : Int} (flow : Flow σ) (extra : EXTRAType)

theorem count_frame (dest : DEST) :
    (flow.count p dest).account = flow.account ∧ (flow.count p dest).addr = flow.addr ∧
      (flow.count p dest).parsers = flow.parsers := by
  unfold Flow.count
  split
  · exact ⟨rfl, rfl, rfl⟩
  · exact ⟨(apply_ite Flow.account _ _ _).trans (ite_self _), (apply_ite Flow.addr _ _ _).trans (ite_self _),
      (apply_ite Flow.parsers _ _ _).trans (ite_self _)⟩

theorem shift_flow (d len : Int) :
    (flow.shift extra p d len).1.account = flow.account ∧ (flow.shift extra p d len).1.addr = flow.addr ∧
      (flow.shift extra p d len).1.parsers = flow.parsers := by
  unfold Flow.shift
  split
  · dsimp only
    split <;> exact ⟨rfl, rfl, rfl⟩
  · exact ⟨rfl, rfl, rfl⟩

theorem shift_obuf_len_ (d len : Int) : (flow.shift extra p d len).2.obuf_len_ = p.obuf_len_ := by
  unfold Flow.shift
  split
  · dsimp only
    split <;> rfl
  · rfl

theorem shift_none (h : extra ≠ .SHIFT) (d len : Int) : flow.shift extra p d len = (flow, p) := if_neg h

theorem shift_packet (len : Int) :
    p.SameHeader a (flow.shift extra p (a + p.getTransportHeaderLen) len).2 ∧
      (flow.shift extra p (a + p.getTransportHeaderLen) len).2.transport_len_ = p.transport_len_ ∧
      (flow.shift extra p (a + p.getTransportHeaderLen) len).2.ibuf_ = p.ibuf_ := by
  unfold Flow.shift
  split
  · dsimp only
    split
    · refine ⟨⟨rfl, rfl, rfl, rfl, rfl, rfl, fun i hi ↦ ?_⟩, rfl, rfl⟩
      dsimp only
      rw [Mem.store_outside _ (.inl hi), Mem.store_outside _ (.inl (by omega))]
    · exact ⟨.refl a p, rfl, rfl⟩
  · exact ⟨.refl a p, rfl, rfl⟩

theorem Packet.SameHeader.segment {p q : Packet} (h : p.SameHeader a q) (hs : p.Segment a b)
    (hl : p.getTransportHeaderLen ≤ q.transport_len_) : q.Segment a b :=
  ⟨h.tcp_.trans hs.tcp_, h.tcp_old_.trans hs.tcp_old_, h.udp_.trans hs.udp_, h.ip_len_.trans hs.ip_len_,
    by rw [h.headerLen hs]; exact hs.header, by rw [h.headerLen hs]; exact hl⟩

theorem payloadAt_segment (h : p.Segment a b) : Flow.payloadAt p =
    some (b + p.getTransportHeaderLen, a + p.getTransportHeaderLen) := by
  simp [Flow.payloadAt, h.tcp_, h.tcp_old_]

variable (pc : ParserClass σ) (ops : List Operation) (parser : Parser σ)

theorem modify_segment (h : p.Segment a b) (hops : 0 < ops.length) :
    flow.modify pc extra p ops parser = flow.modifyAt pc extra p (sortOps ops) parser
      (b + p.getTransportHeaderLen) (a + p.getTransportHeaderLen) := by
  unfold Flow.modify
  rw [if_neg (by simp [List.length_pos_iff.mp hops]), payloadAt_segment h]

theorem setTransportLen_segment (h : p.udp_ = none) (len : Int) :
    p.setTransportLen len = { p with transport_len_ := len, obuf_len_ := p.ip_len_ + len } := by
  simp [Packet.setTransportLen, h]

theorem modify_packet (h : p.Segment a b) (hops : 0 < ops.length) :
    p.SameHeader a (flow.modify pc extra p ops parser).pkt := by
  rw [modify_segment flow extra pc ops parser h hops]
  unfold Flow.modifyAt
  dsimp only
  rw [setTransportLen_segment (by exact h.udp_)]
  refine ⟨rfl, rfl, rfl, rfl, rfl, rfl, fun i hi ↦ ?_⟩
  dsimp only
  rw [Mem.store_outside _ (.inl hi), Mem.store_outside _ (.inl hi)]

theorem getPktOffset_frame (h : p.tcp_ = some a) :
    (flow.getPktOffset p).1 = flow.account.pktOffset p.getDEST p.seq ∧
    (flow.getPktOffset p).2.addr = flow.addr ∧
    (flow.getPktOffset p).2.account = { flow.account with
      init_seq_set := fun d ↦ if d = p.getDEST then true else flow.account.init_seq_set d
      init_seq := fun d ↦
        if d = p.getDEST ∧ flow.account.init_seq_set d = false then p.seq else flow.account.init_seq d } := by
  unfold Flow.getPktOffset
  rw [h, p.seq_eq h]
  dsimp only
  split
  case isTrue hset =>
    refine ⟨by simp [Account.pktOffset, Flow.account, hset], rfl, ?_⟩
    simp only [Flow.account, Account.mk.injEq, true_and]
    refine ⟨?_, ?_⟩
    · funext d
      split
      case isTrue hd => rw [hd, hset]
      case isFalse => rfl
    · funext d
      refine (if_neg ?_).symm
      rintro ⟨rfl, hf⟩
      exact Bool.noConfusion (hset.symm.trans hf)
  case isFalse hset =>
    refine ⟨by simp [Account.pktOffset, Flow.account, hset], rfl, ?_⟩
    simp only [Flow.account, Account.mk.injEq, true_and]
    refine ⟨rfl, ?_⟩
    funext d
    by_cases hd : d = p.getDEST
    · subst hd
      simp [hset]
    · simp [hd]

theorem keepTail_frame (h : p.isTCP = true) (len_old : Int) (d : Text) :
    (flow.keepTail extra p len_old d).1.addr = flow.addr ∧
    (flow.keepTail extra p len_old d).1.account = { flow.account with
      trail := fun e ↦ if e = p.getDEST ∧ (decide (len_old < d.length) && decide (1400 < len_old)) = true ∧
        extra ≠ .SHIFT then d.drop len_old.toNat else flow.account.trail e } ∧
    (flow.keepTail extra p len_old d).2 =
      if decide (len_old < d.length) && decide (1400 < len_old) then d.take len_old.toNat else d := by
  unfold Flow.keepTail
  rw [h, Bool.true_and]
  cases hcut : decide (len_old < d.length) && decide (1400 < len_old)
  · exact ⟨rfl, by simp [Flow.account], rfl⟩
  · rw [if_pos rfl]
    dsimp only
    refine ⟨?_, ?_, rfl⟩
    · split <;> rfl
    · split
      case isTrue hs =>
        simp only [Flow.account, hs, ne_eq, not_true_eq_false, and_false, if_false]
        rfl
      case isFalse hs =>
        simp only [Flow.account, hs, ne_eq, not_false_eq_true, and_true]
        rfl

theorem addOffset_account (dest : DEST) (n : Int) : (flow.addOffset dest n).account =
    { flow.account with
      offset := fun d ↦ if d = dest then flow.account.offset d + n else flow.account.offset d } := by
  simp only [Flow.account, Account.mk.injEq]
  refine ⟨by cases dest <;> rfl, ?_, by cases dest <;> rfl, by cases dest <;> rfl⟩
  funext d
  cases d <;> cases dest <;> rfl

theorem modify_addr : (flow.modify pc extra p ops parser).flow.addr = flow.addr := by
  have hoff : (flow.getPktOffset p).2.addr = flow.addr := by
    unfold Flow.getPktOffset
    split
    · rfl
    · dsimp only
      split <;> rfl
  unfold Flow.modify
  split
  · rfl
  · split
    · rfl
    · unfold Flow.modifyAt Flow.keepTail
      dsimp only
      split
      · split <;> exact hoff
      · exact hoff

end Frames

end Nat64Alg
