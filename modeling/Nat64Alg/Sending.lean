import Nat64Alg.History

namespace Nat64Alg

open Lib StateManager

variable {σ : Type} {ips : List IPv4Addr} {sm sm' : StateManager σ} {nat : NAT} {p q : Packet} {a b : Int} {f : ℕ}

namespace Packet

/-- A packet that came over one IP version and is built to go over the other. -/
structure Framed (p : Packet) (a : Int) : Prop where
  version : p.ipVersionBefore_ = 6 ∧ p.hw_protocol = ETHERTYPE_IPV6 ∧ a = 20 ∨
    p.ipVersionBefore_ = 4 ∧ p.hw_protocol = ETHERTYPE_IP ∧ a = 40
  obuf_len_ : p.obuf_len_ = a + p.transport_len_

theorem IsSegment.framed (h : p.IsSegment) (hs : p.Segment a b) : p.Framed a := by
  rcases h.2 with h | h
  · obtain ⟨hr, hw, hv, -⟩ := h.ready
    have ha : a = 20 := hs.ip_len_.symm.trans hr.ip_len_
    refine ⟨.inl ⟨hv, hw, ha⟩, ?_⟩
    rw [hr.obuf_len_, hr.transport_len_, ha]
    omega
  · obtain ⟨hr, hw, hv, -⟩ := h.ready
    have ha : a = 40 := hs.ip_len_.symm.trans hr.ip_len_
    refine ⟨.inr ⟨hv, hw, ha⟩, ?_⟩
    rw [hr.obuf_len_, hr.transport_len_, ha]
    omega

theorem SameHeader.headed (h : p.SameHeader a q) (hs : p.Segment a b) : q.Headed a :=
  ⟨h.tcp_.trans hs.tcp_, h.udp_.trans hs.udp_, h.ip_len_.trans hs.ip_len_, by rw [h.headerLen hs]; exact hs.header⟩

theorem SameHeader.framed (h : p.SameHeader a q) (hf : p.Framed a) (hl : q.obuf_len_ = a + q.transport_len_) :
    q.Framed a :=
  ⟨by rw [h.ipVersionBefore_, h.hw_protocol]; exact hf.version, hl⟩

theorem Touched.getTransportHeaderLen (h : Touched (fun i ↦ a + 4 ≤ i ∧ (i < a + 16 ∨ a + 18 ≤ i)) p q)
    (htcp : p.tcp_ = some a) : q.getTransportHeaderLen = p.getTransportHeaderLen := by
  obtain ⟨m, rfl, hm⟩ := h
  simp only [Packet.getTransportHeaderLen, withObuf_tcp_, htcp, th_off, withObuf_obuf_, hm (a + 12) (by omega)]

theorem Touched.headed (h : Touched (fun i ↦ a + 4 ≤ i ∧ (i < a + 16 ∨ a + 18 ≤ i)) p q) (hs : p.Headed a) :
    q.Headed a ∧ q.getTransportHeaderLen = p.getTransportHeaderLen := by
  have hl := h.getTransportHeaderLen hs.tcp_
  obtain ⟨m, rfl, -⟩ := h
  exact ⟨⟨hs.tcp_, hs.udp_, hs.ip_len_, by rw [hl]; exact hs.header⟩, hl⟩

theorem Touched.framed {P : Int → Prop} (h : Touched P p q) (hf : p.Framed a) : q.Framed a := by
  obtain ⟨m, rfl, -⟩ := h
  exact ⟨hf.version, hf.obuf_len_⟩

theorem touched_rewrite (htcp : p.tcp_ = some a) (hudp : p.udp_ = none) (hf : p.Framed a) :
    Touched (fun i ↦ a + 4 ≤ i ∧ (i < a + 16 ∨ a + 18 ≤ i)) p (nat.rewrite sm p) := by
  have hport : ∀ (q : Packet) (k : Int) (v : UInt16), 0 ≤ k → k ≤ 2 →
      Touched (fun i ↦ a + 4 ≤ i ∧ (i < a + 16 ∨ a + 18 ≤ i)) q (q.withObuf (q.obuf_.st16 (a + k) v)) :=
    fun q k v h₀ h₁ ↦ touched_store q (fun i hi ↦ by simp; omega)
  have htr : p.transport = some a := by simp [transport, htcp]
  have h₁ : Touched (fun i ↦ a + 4 ≤ i ∧ (i < a + 16 ∨ a + 18 ≤ i)) p (nat.doSPort p) := by
    unfold NAT.doSPort
    rw [htr]
    dsimp only
    split
    · have := hport p 0 nat.ip4p_.getPort (by omega) (by omega)
      rwa [Int.add_zero] at this
    · exact .refl _ _
  have h₂ : Touched (fun i ↦ a + 4 ≤ i ∧ (i < a + 16 ∨ a + 18 ≤ i)) p (nat.doDPort (nat.doSPort p)) := by
    refine h₁.trans ?_
    have htr' : (nat.doSPort p).transport = some a := by
      unfold transport
      rw [h₁.tcp_, h₁.udp_]
      exact htr
    unfold NAT.doDPort
    rw [htr']
    dsimp only
    split
    · exact hport _ 2 nat.ip6p_.getPort (by omega) (by omega)
    · exact .refl _ _
  have h₃ : Touched (fun i ↦ a + 4 ≤ i ∧ (i < a + 16 ∨ a + 18 ≤ i)) p
      (nat.doIP sm (nat.doDPort (nat.doSPort p))) := by
    refine h₂.trans ?_
    have hfit : (nat.doDPort (nat.doSPort p)).getIPVersion = 4 ∨ a = 40 := by
      unfold getIPVersion
      rw [h₂.ipVersionBefore_]
      rcases hf.version with ⟨hv, -⟩ | ⟨-, -, ha⟩
      · exact .inl (by rw [hv]; rfl)
      · exact .inr ha
    unfold NAT.doIP
    dsimp only
    split
    · exact touched_store _ (fun i hi ↦ by
        rw [NAT.length_make_ip4pkt]
        rcases hf.version with ⟨-, -, h⟩ | ⟨-, -, h⟩ <;> omega)
    case isFalse hn =>
      have ha := hfit.resolve_left hn
      exact touched_store _ (fun i hi ↦ by rw [NAT.length_make_ip6pkt]; omega)
  refine h₃.trans (touched_updateChecksum _ (fun c hc i hi ↦ ?_) (fun c hc ↦ ?_) (fun _ i hi ↦ ?_))
  · rw [h₃.tcp_, htcp] at hc
    cases hc
    omega
  · rw [h₃.udp_, hudp] at hc
    cases hc
  · rcases hf.version with ⟨-, -, h⟩ | ⟨-, -, h⟩ <;> omega

end Packet

theorem Passed.framed {pc : ParserClass σ} {nat' : NAT} {out : AppOut σ} (hf : p.Framed a) (hp : p.Segment a b)
    (h : Passed pc sm f (adjust (sm.flowAt f) p.getDEST p) a b nat' out) : out.pkt.Framed a := by
  have hq : (adjust (sm.flowAt f) p.getDEST p).Segment a b := adjust_segment _ _ hp
  have hfq : (adjust (sm.flowAt f) p.getDEST p).Framed a := by
    rw [adjust_eq _ _ hp.tcp_]
    exact ⟨hf.version, hf.obuf_len_⟩
  cases he : out.edit with
  | none => exact h.header.framed hfq (by rw [h.obuf_len_ he, (h.plain he).2.1, hfq.obuf_len_])
  | some e => exact h.header.framed hfq (by rw [(h.edited e he).1.obuf_len_, hq.ip_len_])

/-- The sequence number and the payload of a segment with its header at `a`, in a packet of `len` bytes. -/
def segmentAt (buf : Mem) (len a : Int) : UInt32 × Text :=
  (ntohl (buf.ld32 (a + 4)),
    buf.slice (a + Packet.th_off buf a * 4) (len - a - Packet.th_off buf a * 4).toNat)

def Sent.segment : Sent → UInt32 × Text
  | .v4 buf len _ => segmentAt buf len 20
  | .v6 buf len _ _ => segmentAt buf len 40

/-- The payload bytes that leaves room for, by the length of the packet and its TCP header. -/
def sizeAt (buf : Mem) (len a : Int) : Int := len - a - Packet.th_off buf a * 4

def Sent.size : Sent → Int
  | .v4 buf len _ => sizeAt buf len 20
  | .v6 buf len _ _ => sizeAt buf len 40

theorem Sent.length_segment (s : Sent) (h : 0 ≤ s.size) : (s.segment.2.length : Int) = s.size := by
  cases s <;> exact (congrArg _ (Mem.length_slice _ _ _)).trans (Int.toNat_of_nonneg h)

theorem segmentAt_touched {len : Int} (h : Packet.Touched (fun i ↦ a + 4 ≤ i ∧ (i < a + 16 ∨ a + 18 ≤ i)) p q)
    (hs : p.Headed a) : segmentAt q.obuf_ len a = segmentAt p.obuf_ len a := by
  obtain ⟨m, rfl, hm⟩ := h
  have hhl := hs.header
  have hth : Packet.th_off m a = Packet.th_off p.obuf_ a := by
    unfold Packet.th_off
    rw [hm (a + 12) (by omega)]
  simp only [Packet.getTransportHeaderLen, hs.tcp_] at hhl
  simp only [segmentAt, Packet.withObuf_obuf_, hth]
  rw [Mem.ld32_congr (fun i h₁ h₂ ↦ hm i (by omega)), Mem.slice_congr (fun i h₁ h₂ ↦ hm i (by omega))]

def TailSent (sm : StateManager σ) (f : ℕ) (p : Packet) : Prop :=
  sm.extra = .TCP ∧ p.getDEST = .CLIENT ∧ p.getTransportHeaderLen < p.transport_len_ ∧
    (sm.flowAt f).ignored = false ∧ (sm.flowAt f).trail .CLIENT ≠ []

theorem sizeAt_headed (hs : p.Headed a) (hf : p.Framed a) :
    sizeAt p.obuf_ p.obuf_len_ a = p.transport_len_ - p.getTransportHeaderLen := by
  simp only [sizeAt, hf.obuf_len_, Packet.getTransportHeaderLen, hs.tcp_]
  omega

theorem th_off_stored {m : Mem} {hl : Int} (h20 : 20 ≤ hl) (t : Text) (v : UInt32) :
    Packet.th_off ((m.store (a + hl) t).st32 (a + 4) v) a = Packet.th_off m a := by
  unfold Packet.th_off
  rw [Mem.st32, Mem.store_outside _ (by simp; omega), Mem.store_outside _ (.inl (by omega))]

theorem sizeAt_stored {m : Mem} {hl : Int} (hhl : Packet.th_off m a * 4 = hl) (h20 : 20 ≤ hl) (t : Text)
    (v : UInt32) : sizeAt ((m.store (a + hl) t).st32 (a + 4) v) (a + (t.length + hl)) a = t.length := by
  rw [sizeAt, th_off_stored h20, hhl]
  omega

theorem segmentAt_stored {m : Mem} {hl : Int} (hhl : Packet.th_off m a * 4 = hl) (h20 : 20 ≤ hl) (t : Text)
    (v : UInt32) : segmentAt ((m.store (a + hl) t).st32 (a + 4) (ntohl v)) (a + (t.length + hl)) a = (v, t) := by
  simp only [segmentAt, th_off_stored h20, hhl, Mem.ld32_st32, ntohl_ntohl]
  rw [show (a + (t.length + hl) - a - hl).toNat = t.length by omega, Mem.st32,
    Mem.slice_store_disjoint _ (.inr (by simp; omega)), Mem.slice_store_self]

theorem doExtraTCP_none (hs : p.Headed a) (hflow : nat.exttcpflow_ = some f) (hdest : p.getDEST = .CLIENT)
    (h : p.transport_len_ ≤ p.getTransportHeaderLen ∨ (sm.flowAt f).ignored = true ∨
      (sm.flowAt f).trail .CLIENT = []) : nat.doExtraTCP sm p = (false, sm, p) := by
  unfold NAT.doExtraTCP
  simp only [hflow, hs.tcp_, hdest]
  rw [if_pos (by rwa [List.length_eq_zero_iff])]

theorem doExtraTCP_some (hs : p.Headed a) (hflow : nat.exttcpflow_ = some f)
    (hdest : p.getDEST = .CLIENT)
    (h : ¬(p.transport_len_ ≤ p.getTransportHeaderLen ∨ (sm.flowAt f).ignored = true ∨
      (sm.flowAt f).trail .CLIENT = [])) : ∃ q, nat.doExtraTCP sm p =
      (true, sm.setFlow f ((sm.flowAt f).tailSent .CLIENT), q) ∧ segmentAt q.obuf_ q.obuf_len_ a =
        ((segmentAt p.obuf_ p.obuf_len_ a).1 + UInt32.ofInt (p.transport_len_ - p.getTransportHeaderLen),
          (sm.flowAt f).trail .CLIENT) ∧ sizeAt q.obuf_ q.obuf_len_ a = ((sm.flowAt f).trail .CLIENT).length := by
  have hhl := hs.header
  have hlen : p.getTransportHeaderLen = Packet.th_off p.obuf_ a * 4 := by
    simp only [Packet.getTransportHeaderLen, hs.tcp_]
  unfold NAT.doExtraTCP
  simp only [hflow, hs.tcp_, hdest]
  rw [if_neg (by rwa [List.length_eq_zero_iff])]
  refine ⟨_, rfl, ?_, ?_⟩
  · rw [setTransportLen_segment (by exact hs.udp_)]
    dsimp only
    rw [hs.ip_len_, segmentAt_stored hlen.symm hhl, Mem.ld32_store_disjoint _ (.inl (by omega))]
    rfl
  · rw [setTransportLen_segment (by exact hs.udp_)]
    dsimp only
    rw [hs.ip_len_, sizeAt_stored hlen.symm hhl]

theorem send_cases {r : Packet} {sent : List Sent} (hs : p.Headed a) (hf : p.Framed a)
    (hflow : nat.exttcpflow_ = some f) (h : nat.send sm p = .ok (sm', r, sent)) :
    (¬TailSent sm f p ∧ sm' = sm ∧ sent.map Sent.segment = [segmentAt p.obuf_ p.obuf_len_ a] ∧
      sent.map Sent.size = [sizeAt p.obuf_ p.obuf_len_ a]) ∨
    (TailSent sm f p ∧ sm' = sm.setFlow f ((sm.flowAt f).tailSent .CLIENT) ∧ sent.map Sent.segment =
      [((segmentAt p.obuf_ p.obuf_len_ a).1 + UInt32.ofInt (p.transport_len_ - p.getTransportHeaderLen),
        (sm.flowAt f).trail .CLIENT), segmentAt p.obuf_ p.obuf_len_ a] ∧
      sent.map Sent.size = [(((sm.flowAt f).trail .CLIENT).length : Int), sizeAt p.obuf_ p.obuf_len_ a]) := by
  unfold NAT.send at h
  rcases hf.version with ⟨hv, hw, rfl⟩ | ⟨hv, hw, rfl⟩
  · rw [if_pos hw] at h
    cases h
    refine .inl ⟨fun ht ↦ ?_, rfl, rfl, rfl⟩
    have := ht.2.1
    simp [Packet.getDEST, hv] at this
  · have hdest : p.getDEST = .CLIENT := by simp [Packet.getDEST, hv]
    rw [if_neg (by rw [hw]; decide)] at h
    dsimp only at h
    split at h
    case isFalse he =>
      cases h
      exact .inl ⟨fun ht ↦ he ht.1, rfl, rfl, rfl⟩
    case isTrue he =>
      split at h
      · cases h
      by_cases hno : p.transport_len_ ≤ p.getTransportHeaderLen ∨ (sm.flowAt f).ignored = true ∨
          (sm.flowAt f).trail .CLIENT = []
      · rw [doExtraTCP_none hs hflow hdest hno] at h
        cases h
        refine .inl ⟨?_, rfl, rfl, rfl⟩
        rintro ⟨-, -, h₁, h₂, h₃⟩
        rcases hno with h | h | h
        · omega
        · rw [h] at h₂
          cases h₂
        · exact h₃ h
      · obtain ⟨q, hq, hseg, hsize⟩ := doExtraTCP_some hs hflow hdest hno
        rw [hq] at h
        cases h
        rw [not_or, not_or, not_le, Bool.not_eq_true] at hno
        refine .inr ⟨⟨he, hdest, hno⟩, rfl, ?_, ?_⟩
        · simp [Sent.segment, hseg]
        · simp [Sent.size, hsize]

theorem tailSent_account (flow : Flow σ) (dest : DEST) : (flow.tailSent dest).account =
    { flow.account with
      trail := fun d ↦ if d = dest then [] else flow.account.trail d
      offset := fun d ↦
        if d = dest then flow.account.offset d + (flow.account.trail dest).length else flow.account.offset d } := by
  have h := addOffset_account flow dest (flow.trail dest).length
  simp only [Flow.account, Account.mk.injEq] at h ⊢
  refine ⟨?_, h.2⟩
  rw [← h.1]
  rfl

theorem send_other {r : Packet} {sent : List Sent} {g : ℕ} {d : DEST} (h : nat.send sm p = .ok (sm', r, sent))
    (hne : ¬(nat.exttcpflow_ = some g ∧ p.getDEST = d)) :
    (sm'.flowAt g).account.trail d = (sm.flowAt g).account.trail d ∧
      (sm'.flowAt g).account.offset d = (sm.flowAt g).account.offset d := by
  unfold NAT.send at h
  dsimp only at h
  split at h
  · cases h
    exact ⟨rfl, rfl⟩
  split at h
  case isFalse =>
    cases h
    exact ⟨rfl, rfl⟩
  split at h
  · cases h
  cases h
  unfold NAT.doExtraTCP
  split
  case h_1 f a hf ha =>
    dsimp only
    split
    · exact ⟨rfl, rfl⟩
    rcases eq_or_ne f g with rfl | hfg
    · have hd : p.getDEST ≠ d := fun hd ↦ hne ⟨hf, hd⟩
      rcases lt_or_ge f sm.heap.length with hlt | hge
      · rw [flowAt_setFlow hlt, tailSent_account]
        exact ⟨if_neg (Ne.symm hd), if_neg (Ne.symm hd)⟩
      · simp [StateManager.setFlow, List.set_eq_of_length_le hge]
    · rw [flowAt_setFlow_ne hfg]
      exact ⟨rfl, rfl⟩
  case h_2 => exact ⟨rfl, rfl⟩

end Nat64Alg
