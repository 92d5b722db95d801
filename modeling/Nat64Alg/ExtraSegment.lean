import Nat64Alg.Tails
import Nat64Alg.Verifying

namespace Nat64Alg

open Lib OnesComplement StateManager Packet

variable {σ : Type} {pc : ParserClass σ} {p q r : Packet} {nat : NAT} {sm sm' : StateManager σ} {f : ℕ}

/-- An IPv4 packet with a whole TCP header, about to leave over IPv6. -/
structure Packet.Outgoing6 (pc : ParserClass σ) (p : Packet) : Prop where
  prepared : p.Prepared pc
  version : p.ipVersionBefore_ = 4
  of : p.Of IPPROTO_TCP
  header : 20 ≤ p.getTransportHeaderLen

/-- What the end of `translate` leaves in `obuf_`: an IPv6 header with the length of the segment,
and a segment with a checksum that verifies. -/
structure Packet.Final6 (p : Packet) : Prop where
  version : p.ipVersionBefore_ = 4
  tcp_ : p.tcp_ = some 40
  udp_ : p.udp_ = none
  ip_len_ : p.ip_len_ = 40
  header : 20 ≤ p.getTransportHeaderLen
  len : p.transport_len_ ≤ 65535
  plen : p.obuf_.ld16 4 = ntohs (UInt16.ofInt p.transport_len_)
  checks : Checks (p.covered IPPROTO_TCP)

theorem Packet.Outgoing6.pointers (h : p.Outgoing6 pc) : p.Built ∧ p.ip_ = some .ibuf ∧ p.tcp_ = some 40 ∧
    p.udp_ = none ∧ p.ip_len_ = 40 := by
  have hb := h.prepared.built h.of.carries
  obtain ⟨-, hip, -, hl⟩ := hb.headers.resolve_left (fun hn ↦ by
    rw [h.version] at hn
    exact absurd hn.1 (by decide))
  obtain ⟨-, htcp, hudp⟩ := (hb.pointer h.of.carries).resolve_right (fun hn ↦ absurd hn.1 (by decide))
  exact ⟨hb, hip, hl ▸ htcp, hudp, hl⟩

theorem Packet.Outgoing6.final (h : p.Outgoing6 pc) (nat : NAT) (sm : StateManager σ) :
    (nat.rewrite sm p).Final6 := by
  obtain ⟨-, hip, htcp, hudp, hl⟩ := h.pointers
  have hi := @NAT.doIP_v4 _ nat sm p h.version hip (by rw [transport, htcp]; rfl)
  have hsum := h.prepared.tcp_checks h.of nat sm
  obtain ⟨m, hm, hkeep⟩ := @Packet.touched_updateChecksum (fun i ↦ i < 56 ∨ 58 ≤ i)
    (nat.doIP sm (nat.doDPort (nat.doSPort p)))
    (fun a ha i hk ↦ by rw [hi, withObuf_tcp_, htcp] at ha; cases ha; omega)
    (fun a ha ↦ by rw [hi, withObuf_udp_, hudp] at ha; cases ha)
    (fun hv ↦ by rw [hi, withObuf_ipVersionBefore_, h.version] at hv; cases hv)
  have hq : nat.rewrite sm p = p.withObuf m := by
    unfold NAT.rewrite NAT.finish
    rw [hm, hi]
    rfl
  rw [hi, withObuf_obuf_] at hkeep
  have hth : (p.withObuf m).getTransportHeaderLen = p.getTransportHeaderLen := by
    have h52 : m (40 + 12) = p.obuf_ (40 + 12) := by
      rw [hkeep _ (by omega), Mem.store_outside _ (by rw [NAT.length_make_ip6pkt]; decide), Mem.st16,
        Mem.store_outside _ (by rw [Mem.length_bytes16]; decide)]
    simp only [getTransportHeaderLen, withObuf_tcp_, htcp, th_off, withObuf_obuf_, h52]
  rw [hq] at hsum ⊢
  refine ⟨h.version, htcp, hudp, hl, by rw [hth]; exact h.header, h.of.len, ?_, hsum⟩
  rw [withObuf_obuf_, Mem.ld16_congr (fun i h₁ h₂ ↦ hkeep i (by omega))]
  exact @ld16_store _ 0 4 [0x60, 0, 0, 0] _ _ rfl

theorem doExtraTCP_true (htcp : p.tcp_ = some 40) (hudp : p.udp_ = none)
    (hflow : nat.exttcpflow_ = some f) (h : nat.doExtraTCP sm p = (true, sm', q)) :
    p.getTransportHeaderLen < p.transport_len_ ∧ (sm.flowAt f).trail p.getDEST ≠ [] ∧
      q = { p with
        transport_len_ := ((sm.flowAt f).trail p.getDEST).length + p.getTransportHeaderLen
        obuf_len_ := p.ip_len_ + (((sm.flowAt f).trail p.getDEST).length + p.getTransportHeaderLen)
        obuf_ := (p.obuf_.store (40 + p.getTransportHeaderLen) ((sm.flowAt f).trail p.getDEST)).st32 44
          (ntohl (ntohl ((p.obuf_.store (40 + p.getTransportHeaderLen) ((sm.flowAt f).trail p.getDEST)).ld32 44) +
            UInt32.ofInt (p.transport_len_ - p.getTransportHeaderLen))) } := by
  unfold NAT.doExtraTCP at h
  split at h
  case h_2 => cases h
  case h_1 f' a hf ha =>
    obtain rfl : f' = f := Option.some.inj (hf.symm.trans hflow)
    obtain rfl : a = 40 := Option.some.inj (ha.symm.trans htcp)
    dsimp only at h
    split at h
    · cases h
    case isFalse hno =>
      rw [not_or, not_or, not_le] at hno
      rw [setTransportLen_segment (by exact hudp)] at h
      refine ⟨hno.1, fun hnil ↦ hno.2.2 (by rw [hnil]; rfl), ?_⟩
      cases h
      rfl

/-- The packet that `p` was made into is one a receiver can take: its header has its length, its
checksum verifies, and it carries the tail from where the payload of `p` ends. -/
structure Packet.ExtraValid (p q : Packet) (tail : Text) : Prop where
  plen : ((ntohs (q.obuf_.ld16 4)).toNat : Int) = q.transport_len_
  checks : Checks (q.covered IPPROTO_TCP)
  payload : q.payload = tail
  seq : q.seq = p.seq + UInt32.ofNat p.payload.length

/-- The tail is as long as the payload it replaces, and the sum of its words makes up for the
words of that payload and the step of the sequence number. -/
def Packet.Balances (p : Packet) (tail : Text) : Prop :=
  tail.length = p.payload.length ∧
    (total (Mem.bytes32 (ntohl (p.seq + UInt32.ofNat p.payload.length))) + total tail) % 65535 =
      (total (Mem.bytes32 (ntohl p.seq)) + total p.payload) % 65535

theorem Packet.Final6.payload_eq (h : p.Final6) : p.payload =
    p.obuf_.slice (40 + p.getTransportHeaderLen) (p.transport_len_ - p.getTransportHeaderLen).toNat := by
  simp only [payload, Packet.transport, h.tcp_, Option.some_or]

theorem Packet.Final6.not_v6 (h : p.Final6) : ¬p.ipVersionBefore_ = 6 := by
  rw [h.version]
  decide

theorem Packet.Final6.covered_eq (h : p.Final6) : p.covered IPPROTO_TCP =
    pseudoHeader (p.obuf_.slice 8 16) (p.obuf_.slice 24 16) IPPROTO_TCP p.transport_len_.toNat ++
      p.obuf_.slice 40 p.transport_len_.toNat := by
  simp only [covered_tcp, bytesOf, if_neg h.not_v6, h.ip_len_]

theorem total_covered6 (h : p.Final6) : total (p.covered IPPROTO_TCP) =
    total (pseudoHeader (p.obuf_.slice 8 16) (p.obuf_.slice 24 16) IPPROTO_TCP p.transport_len_.toNat) +
      total (p.obuf_.slice 40 p.transport_len_.toNat) := by
  rw [h.covered_eq, total_append (by rw [length_pseudoHeader]; simp only [Mem.length_slice]; split <;> omega)]

theorem extra_fields (h : p.Final6) (hflow : nat.exttcpflow_ = some f)
    (hextra : nat.doExtraTCP sm p = (true, sm', q)) {tail : Text} (htail : tail = (sm.flowAt f).trail .CLIENT) :
    q.payload = tail ∧ q.seq = p.seq + UInt32.ofNat p.payload.length ∧
      q.obuf_.ld16 4 = p.obuf_.ld16 4 ∧ q.transport_len_ = tail.length + p.getTransportHeaderLen ∧
      (p.transport_len_ = p.payload.length + p.getTransportHeaderLen) ∧
      (tail.length = p.payload.length →
        total (q.covered IPPROTO_TCP) + total (Mem.bytes32 (ntohl p.seq)) + total p.payload =
          total (p.covered IPPROTO_TCP) + total (Mem.bytes32 (ntohl (p.seq + UInt32.ofNat p.payload.length))) +
            total tail) := by
  obtain ⟨hlt, hne, hq⟩ := doExtraTCP_true h.tcp_ h.udp_ hflow hextra
  have hdest : p.getDEST = .CLIENT := by
    unfold getDEST
    rw [h.version]
    rfl
  rw [hdest, ← htail] at hq
  have hpay := h.payload_eq
  have hhl : (th_off p.obuf_ 40 : Int) * 4 = p.getTransportHeaderLen := by
    simp only [getTransportHeaderLen, h.tcp_]
  have h20 := h.header
  have hlen : p.transport_len_ = p.payload.length + p.getTransportHeaderLen := by
    rw [hpay, Mem.length_slice]
    omega
  have hstep : UInt32.ofInt (p.transport_len_ - p.getTransportHeaderLen) = UInt32.ofNat p.payload.length := by
    rw [hlen, Int.add_sub_cancel, ofInt_natCast]
  have hseq : ntohl ((p.obuf_.store (40 + p.getTransportHeaderLen) tail).ld32 44) = p.seq := by
    rw [Mem.ld32_store_disjoint _ (.inl (by omega)), seq_eq h.tcp_]
    rfl
  rw [hstep, hseq] at hq
  have hthq : Packet.th_off q.obuf_ 40 = th_off p.obuf_ 40 := by
    rw [hq]
    exact th_off_stored h20 _ _
  have hhlq : q.getTransportHeaderLen = p.getTransportHeaderLen := by
    rw [← hhl, ← hthq, hq]
    simp only [getTransportHeaderLen, h.tcp_]
  have hqtcp : q.tcp_ = some 40 := by rw [hq, ← h.tcp_]
  have hql : q.transport_len_ = tail.length + p.getTransportHeaderLen := by rw [hq]
  have hqo : q.obuf_ = (p.obuf_.store (40 + p.getTransportHeaderLen) tail).st32 (40 + 4)
      (ntohl (p.seq + UInt32.ofNat p.payload.length)) := by rw [hq]; rfl
  refine ⟨?_, ?_, ?_, hql, hlen, fun heq ↦ ?_⟩
  · rw [payload, show q.transport = some 40 by rw [Packet.transport, hqtcp]; rfl]
    dsimp only
    rw [hhlq, hql, hqo, Int.add_sub_cancel, Int.toNat_natCast, Mem.st32,
      Mem.slice_store_disjoint _ (.inr (by simp; omega)), Mem.slice_store_self]
  · rw [seq_eq hqtcp, hqo, Mem.ld32_st32, ntohl_ntohl]
  · rw [hqo, Mem.st32, Mem.ld16_store_disjoint _ (.inl (by omega)), Mem.ld16_store_disjoint _ (.inl (by omega))]
  · have haddr : ∀ b : Int, b + 16 ≤ 40 → q.obuf_.slice b 16 = p.obuf_.slice b 16 := fun b hb ↦ by
      rw [hqo, Mem.st32, Mem.slice_store_disjoint _ (.inl (by omega)), Mem.slice_store_disjoint _ (.inl (by omega))]
    have hcov : q.covered IPPROTO_TCP =
        pseudoHeader (p.obuf_.slice 8 16) (p.obuf_.slice 24 16) IPPROTO_TCP p.transport_len_.toNat ++
          q.obuf_.slice 40 p.transport_len_.toNat := by
      have hne : ¬q.ipVersionBefore_ = 6 := by
        rw [hq]
        exact h.not_v6
      have hqi : q.ip_len_ = 40 := by rw [hq, ← h.ip_len_]
      simp only [covered_tcp, Packet.bytesOf, if_neg hne, hqi, haddr 8 (by omega), haddr 24 (by omega)]
      rw [hql, heq, ← hlen]
    obtain ⟨k, hk⟩ := Int.eq_ofNat_of_zero_le (show 0 ≤ p.getTransportHeaderLen by omega)
    have hrepl := total_replaced p.obuf_ 40 (ntohl (p.seq + UInt32.ofNat p.payload.length)) tail
      (show 8 ≤ k by omega) (by omega)
    rw [← hk, ← hqo, heq, show k + p.payload.length = p.transport_len_.toNat by omega] at hrepl
    have hold : Mem.bytes32 (ntohl p.seq) = p.obuf_.slice (40 + 4) 4 := by
      rw [seq_eq h.tcp_, ntohl_ntohl, Mem.bytes32_ld32]
    have hpay' : p.payload = p.obuf_.slice (40 + p.getTransportHeaderLen) p.payload.length := by
      rw [hpay, Mem.length_slice]
    rw [hcov, total_append (by rw [length_pseudoHeader]; simp only [Mem.length_slice]; split <;> omega),
      total_covered6 h, hold]
    rw [← hpay'] at hrepl
    omega

/-- The packet sent ahead for a cut tail is valid exactly when the tail makes up for the payload it replaces. -/
theorem extra_valid (h : p.Final6) (hflow : nat.exttcpflow_ = some f)
    (hextra : nat.doExtraTCP sm p = (true, sm', q)) :
    p.ExtraValid q ((sm.flowAt f).trail .CLIENT) ↔ p.Balances ((sm.flowAt f).trail .CLIENT) := by
  obtain ⟨hpay, hseq, hld, hlen, hplen, htotal⟩ := extra_fields h hflow hextra rfl
  have hlt := (doExtraTCP_true h.tcp_ h.udp_ hflow hextra).1
  have hmax := h.len
  have h20 := h.header
  have hfield : (((ntohs (q.obuf_.ld16 4)).toNat : Int) = q.transport_len_ ↔
      ((sm.flowAt f).trail .CLIENT).length = p.payload.length) := by
    rw [hld, h.plen, toNat_length, hlen]
    omega
  obtain ⟨hmod, hne⟩ := (checks_iff _).mp h.checks
  have hchecks : ((sm.flowAt f).trail .CLIENT).length = p.payload.length → (Checks (q.covered IPPROTO_TCP) ↔
      (total (Mem.bytes32 (ntohl (p.seq + UInt32.ofNat p.payload.length))) +
          total ((sm.flowAt f).trail .CLIENT)) % 65535 =
        (total (Mem.bytes32 (ntohl p.seq)) + total p.payload) % 65535) := by
    intro heq
    have hsum := htotal heq
    have hneq : total (q.bytesOf IPPROTO_TCP q.transport_len_.toNat) ≠ 0 := q.total_bytesOf_ne (by decide) (by omega)
    rw [checks_iff]
    rw [covered_tcp] at hsum ⊢
    omega
  constructor
  · rintro ⟨h₁, h₂, -, -⟩
    exact ⟨hfield.mp h₁, (hchecks (hfield.mp h₁)).mp h₂⟩
  · rintro ⟨h₁, h₂⟩
    exact ⟨hfield.mpr h₁, (hchecks h₁).mpr h₂, hpay, hseq⟩

/-- When `doExtraTCP` has a tail to send for an IPv4 packet, what it leaves in `obuf_` is valid exactly
when the tail has the length of the payload before it and makes up for its words and for the
step of the sequence number. -/
theorem extra_segment_valid_iff (h : p.Outgoing6 pc) (hflow : nat.exttcpflow_ = some f)
    (hextra : nat.doExtraTCP sm (nat.rewrite sm p) = (true, sm', q)) :
    (nat.rewrite sm p).ExtraValid q ((sm.flowAt f).trail .CLIENT) ↔
      (nat.rewrite sm p).Balances ((sm.flowAt f).trail .CLIENT) :=
  extra_valid (h.final nat sm) hflow hextra

/-- A segment of two bytes from the server, and a flow with one more byte to send behind it. -/
def twoBytes : Packet := .tcp4 ⟨ntohl 0xc0000201⟩ ⟨ntohl 0x0a141e28⟩ 21 1024 1000 5 [0x61, 0x62]

def tailConf : StateManager Unit :=
  let sm := (exampleConf.doMapping ⟨clientA, ntohs 1024⟩ serverS).2
  sm.setFlow 0 { sm.flowAt 0 with trail := fun _ ↦ [0x63] }

def tailNat : NAT := { NAT.new 0 with exttcpflow_ := some 0 }

theorem twoBytes_outgoing : twoBytes.Outgoing6 (FTPParser.only once noJunk) := by
  have hread : twoBytes.Read ETHERTYPE_IP := by
    unfold twoBytes tcp4
    exact (ofBytes_received (.inr ⟨rfl, rfl⟩) (by decide) (by decide)).1.read
  exact ⟨hread.prepared _, by decide +kernel, ⟨.inl ⟨by decide +kernel, rfl⟩, by decide +kernel, by decide +kernel⟩,
    by decide +kernel⟩

theorem twoBytes_extra : tailNat.doExtraTCP tailConf (tailNat.rewrite tailConf twoBytes) =
    (true, (tailNat.doExtraTCP tailConf (tailNat.rewrite tailConf twoBytes)).2.1,
      (tailNat.doExtraTCP tailConf (tailNat.rewrite tailConf twoBytes)).2.2) := by
  have htrue : (tailNat.doExtraTCP tailConf (tailNat.rewrite tailConf twoBytes)).1 = true := by decide +kernel
  rw [Prod.ext_iff]
  exact ⟨htrue, rfl⟩

/-- The byte leaves in a packet of 21 bytes whose header says 22, and its checksum does not verify. -/
theorem extra_segment_invalid : ¬∀ (q : Packet) (sm : StateManager Unit),
    tailNat.doExtraTCP tailConf (tailNat.rewrite tailConf twoBytes) = (true, sm, q) →
      ((ntohs (q.obuf_.ld16 4)).toNat : Int) = q.transport_len_ ∨ Checks (q.covered IPPROTO_TCP) := by
  intro h
  have hq := h _ _ twoBytes_extra
  revert hq
  decide +kernel

theorem extra_segment_valid_two :
    (tailNat.rewrite tailConf twoBytes).ExtraValid
        (tailNat.doExtraTCP tailConf (tailNat.rewrite tailConf twoBytes)).2.2 ((tailConf.flowAt 0).trail .CLIENT) ↔
      (tailNat.rewrite tailConf twoBytes).Balances ((tailConf.flowAt 0).trail .CLIENT) :=
  extra_segment_valid_iff twoBytes_outgoing rfl twoBytes_extra

end Nat64Alg
