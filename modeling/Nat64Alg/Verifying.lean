import Nat64Alg.Checksum

namespace Nat64Alg

open Lib OnesComplement StateManager

variable {σ : Type} {p q : Packet}

namespace Packet

/-- What `unpack` settles for good: the version, the headers and where they stand. -/
def pointers (p : Packet) : Int × Option Side × Option Side × Int × Option Int × Option Int :=
  (p.ipVersionBefore_, p.ip_, p.ip6_, p.ip_len_, p.tcp_, p.udp_)

/-- The new IP header is at the front of `obuf_`, and the transport header right behind it. -/
structure Built (p : Packet) : Prop where
  headers : p.ipVersionBefore_ = 6 ∧ p.ip_ = some .obuf ∧ p.ip6_ = some .ibuf ∧ p.ip_len_ = 20 ∨
    p.ipVersionBefore_ = 4 ∧ p.ip_ = some .ibuf ∧ p.ip6_ = some .obuf ∧ p.ip_len_ = 40
  transport : p.tcp_ = some p.ip_len_ ∧ p.udp_ = none ∨ p.tcp_ = none ∧ p.udp_ = some p.ip_len_

theorem Built.of_pointers (h : p.Built) (hq : q.pointers = p.pointers) : q.Built := by
  simp only [pointers, Prod.mk.injEq] at hq
  obtain ⟨h₁, h₂, h₃, h₄, h₅, h₆⟩ := hq
  exact ⟨by rw [h₁, h₂, h₃, h₄]; exact h.headers, by rw [h₄, h₅, h₆]; exact h.transport⟩

/-- The addresses of the IP header, a protocol and a length, and as many bytes behind the header. -/
def bytesOf (p : Packet) (protocol : UInt8) (len : ℕ) : List UInt8 :=
  (if p.ipVersionBefore_ = 6 then pseudoHeader (p.obuf_.slice 12 4) (p.obuf_.slice 16 4) protocol len
    else pseudoHeader (p.obuf_.slice 8 16) (p.obuf_.slice 24 16) protocol len) ++ p.obuf_.slice p.ip_len_ len

/-- What `updateChecksum` sums up, by the length of the payload of the IP packet. -/
def summed (p : Packet) (protocol : UInt8) : List UInt8 := p.bytesOf protocol p.transport_len_.toNat

def udpLength (p : Packet) : ℕ := (ntohs (p.obuf_.ld16 (p.ip_len_ + 4))).toNat

/-- What a receiver sums up: a TCP segment is all that the IP packet carries, a UDP datagram
ends where its header says. -/
def covered (p : Packet) (protocol : UInt8) : List UInt8 :=
  p.bytesOf protocol (if protocol = IPPROTO_UDP then p.udpLength else p.transport_len_.toNat)

theorem covered_tcp (p : Packet) : p.covered IPPROTO_TCP = p.bytesOf IPPROTO_TCP p.transport_len_.toNat := rfl

theorem covered_udp (p : Packet) : p.covered IPPROTO_UDP = p.bytesOf IPPROTO_UDP p.udpLength := rfl

/-- A receiver takes a UDP datagram that has its header, is there to its end, and adds up. -/
structure Taken (p : Packet) : Prop where
  header : 8 ≤ p.udpLength
  fits : p.udpLength ≤ p.transport_len_
  checks : Checks (p.covered IPPROTO_UDP)

/-- Where the checksum of a protocol stands in its header. -/
def checkAt (protocol : UInt8) : ℕ := if protocol = IPPROTO_TCP then 16 else 6

theorem checkAt_even (protocol : UInt8) : checkAt protocol % 2 = 0 := by
  unfold checkAt
  split <;> rfl

/-- The packet is of the protocol, and its header is all there as far as the checksum. -/
structure Of (p : Packet) (protocol : UInt8) : Prop where
  carries : p.Carries protocol
  header : checkAt protocol + 2 ≤ p.transport_len_
  len : p.transport_len_ ≤ 65535

/-- The packet with the checksum field of its transport header zeroed. -/
def cleared (p : Packet) : Packet := (p.clearCheck p.tcp_ 16).clearCheck p.udp_ 6

theorem clearCheck_some (p : Packet) (a field : Int) :
    p.clearCheck (some a) field = p.withObuf (p.obuf_.st16 (a + field) 0) := rfl

theorem clearCheck_none (p : Packet) (field : Int) : p.clearCheck none field = p := rfl

theorem setCheck_some (p : Packet) (a field : Int) (protocol : UInt8) : p.setCheck (some a) field protocol =
    p.withObuf (p.obuf_.st16 (a + field) (p.checksumAt a protocol)) := rfl

theorem setCheck_none (p : Packet) (field : Int) (protocol : UInt8) : p.setCheck none field protocol = p := rfl

theorem Built.pointer (h : p.Built) {protocol : UInt8} (hp : p.Carries protocol) :
    protocol = IPPROTO_TCP ∧ p.tcp_ = some p.ip_len_ ∧ p.udp_ = none ∨
      protocol = IPPROTO_UDP ∧ p.tcp_ = none ∧ p.udp_ = some p.ip_len_ := by
  rcases hp with ⟨ht, rfl⟩ | ⟨hu, rfl⟩
  · exact .inl ⟨rfl, h.transport.resolve_right (fun hn ↦ by simp [isTCP, hn.1] at ht)⟩
  · exact .inr ⟨rfl, h.transport.resolve_left (fun hn ↦ by simp [isUDP, hn.2] at hu)⟩

theorem Built.cleared_eq {protocol : UInt8} (h : p.Built) (hp : p.Carries protocol) :
    p.cleared = p.withObuf (p.obuf_.st16 (p.ip_len_ + checkAt protocol) 0) := by
  unfold cleared
  rcases h.pointer hp with ⟨rfl, htcp, hudp⟩ | ⟨rfl, htcp, hudp⟩
  · rw [htcp, hudp, clearCheck_some, clearCheck_none]
    rfl
  · rw [htcp, hudp, clearCheck_none, clearCheck_some]
    rfl

theorem Built.setCheck_eq {protocol : UInt8} (h : p.Built) (hp : p.Carries protocol) (m : Mem) :
    ((p.withObuf m).setCheck p.tcp_ 16 IPPROTO_TCP).setCheck p.udp_ 6 IPPROTO_UDP =
      p.withObuf (m.st16 (p.ip_len_ + checkAt protocol) ((p.withObuf m).checksumAt p.ip_len_ protocol)) := by
  rcases h.pointer hp with ⟨rfl, htcp, hudp⟩ | ⟨rfl, htcp, hudp⟩
  · rw [htcp, hudp, setCheck_some, setCheck_none]
    rfl
  · rw [htcp, hudp, setCheck_none, setCheck_some]
    rfl

theorem Built.updateChecksum_eq {protocol : UInt8} (h : p.Built) (hp : p.Carries protocol) :
    ∃ m, p.updateChecksum = p.withObuf m ∧ ∀ i, p.ipVersionBefore_ = 4 ∨ i < 10 ∨ 12 ≤ i →
      m i = (p.cleared.obuf_.st16 (p.ip_len_ + checkAt protocol) (p.cleared.checksumAt p.ip_len_ protocol)) i := by
  have hc := h.cleared_eq hp
  have hs := h.setCheck_eq hp p.cleared.obuf_
  have hw : p.withObuf p.cleared.obuf_ = p.cleared := by rw [hc]; rfl
  rw [hw] at hs
  have hu : p.updateChecksum =
      let q := (p.cleared.setCheck p.tcp_ 16 IPPROTO_TCP).setCheck p.udp_ 6 IPPROTO_UDP
      if q.ipVersionBefore_ = 6 then
        q.withObuf (q.obuf_.st16 10 (ip_checksum q.ipMem 0 (q.transport_len_ + 20).toNat))
      else q := by
    have ht : p.cleared.tcp_ = p.tcp_ := by rw [hc]; rfl
    have hd : (p.cleared.setCheck p.tcp_ 16 IPPROTO_TCP).udp_ = p.udp_ := by
      unfold setCheck
      split <;> rw [hc] <;> rfl
    conv_rhs => rw [← hd]
    conv_rhs => rw [← ht]
    rfl
  rw [hs] at hu
  rw [hu]
  dsimp only
  rcases h.headers with ⟨hv, -⟩ | ⟨hv, -⟩
  · rw [if_pos (by exact hv)]
    refine ⟨_, rfl, fun i hi ↦ ?_⟩
    rw [Mem.st16, Mem.store_outside _ (by simp; omega)]
    rfl
  · rw [if_neg (by rw [withObuf_ipVersionBefore_, hv]; decide)]
    exact ⟨_, rfl, fun _ _ ↦ rfl⟩

theorem ipMem_obuf (h : p.ip_ = some .obuf) : p.ipMem = p.obuf_ := by
  unfold ipMem
  rw [h]
  rfl

theorem ip6Mem_obuf (h : p.ip6_ = some .obuf) : p.ip6Mem = p.obuf_ := by
  unfold ip6Mem
  rw [h]
  rfl

theorem Built.addresses (h : p.Built) : ∃ (s d : Int) (n : ℕ), n ≤ 8 ∧ s + 2 * n ≤ p.ip_len_ ∧ d + 2 * n ≤ p.ip_len_ ∧
    (p.ipVersionBefore_ = 4 ∨ 12 ≤ s ∧ 12 ≤ d) ∧ 20 ≤ p.ip_len_ ∧ ∀ (m : Mem) (protocol : UInt8) (len : ℕ),
      (p.withObuf m).bytesOf protocol len =
        pseudoHeader (m.slice s (2 * n)) (m.slice d (2 * n)) protocol len ++ m.slice p.ip_len_ len ∧
      (p.withObuf m).checksumAt p.ip_len_ protocol =
        tcp_checksum m p.ip_len_ p.transport_len_.toNat m s m d n protocol := by
  rcases h.headers with ⟨hv, hip, -, ha⟩ | ⟨hv, -, hip, ha⟩
  · refine ⟨12, 16, 2, by decide, by omega, by omega, .inr (by omega), by omega, fun m protocol len ↦ ⟨?_, ?_⟩⟩
    · exact congrArg (· ++ _) (if_pos hv)
    · unfold checksumAt
      rw [if_pos (by exact hv), ipMem_obuf (by exact hip)]
      rfl
  · have hne : ¬p.ipVersionBefore_ = 6 := by omega
    refine ⟨8, 24, 8, by decide, by omega, by omega, .inl hv, by omega, fun m protocol len ↦ ⟨?_, ?_⟩⟩
    · exact congrArg (· ++ _) (if_neg hne)
    · unfold checksumAt
      rw [if_neg (by exact hne), ip6Mem_obuf (by exact hip)]
      rfl

/-- What `updateChecksum` leaves of a packet with its field zeroed: the checksum `v` is all that is added
to the bytes behind the IP header, over any length, and it completes what was summed up. -/
structure Completed (p q : Packet) (protocol : UInt8) (v : UInt16) : Prop where
  field : q.obuf_.ld16 (p.ip_len_ + checkAt protocol) = v
  lengths : q.transport_len_ = p.transport_len_ ∧ q.udpLength = p.udpLength
  added : ∀ len, checkAt protocol + 2 ≤ len →
    total (q.bytesOf protocol len) = total (p.bytesOf protocol len) + v.toNat
  whole : (total (p.summed protocol) + v.toNat) % 65535 = 0
  zero : v = 0 ↔ total (p.summed protocol) % 65535 = 0 ∧ total (p.summed protocol) ≠ 0

theorem checkAt_ge (protocol : UInt8) : 6 ≤ checkAt protocol := by
  unfold checkAt
  split <;> decide

theorem Built.completed {protocol : UInt8} (h : p.Built) (hp : p.Of protocol) :
    ∃ v, p.cleared.Completed p.updateChecksum protocol v := by
  obtain ⟨m, hu, hm⟩ := h.updateChecksum_eq hp.carries
  obtain ⟨s, d, n, hn, hs, hd, haway, hlen, hform⟩ := h.addresses
  have hmax := hp.len
  have hlow := checkAt_ge protocol
  have heven := checkAt_even protocol
  have hc := h.cleared_eq hp.carries
  generalize hm₀ : p.obuf_.st16 (p.ip_len_ + checkAt protocol) 0 = m₀ at hc
  have hzero : m₀.ld16 (p.ip_len_ + checkAt protocol) = 0 := by rw [← hm₀, Mem.ld16_st16]
  rw [hc, withObuf_obuf_] at hm
  rw [hc, hu]
  have hfield : m.ld16 (p.ip_len_ + checkAt protocol) = (p.withObuf m₀).checksumAt p.ip_len_ protocol := by
    rw [Mem.ld16_congr (fun i h₁ h₂ ↦ hm i (by omega)), Mem.ld16_st16]
  have hlength : (p.withObuf m).udpLength = (p.withObuf m₀).udpLength := by
    have hld : m.ld16 (p.ip_len_ + 4) = m₀.ld16 (p.ip_len_ + 4) := by
      rw [Mem.ld16_congr (fun i h₁ h₂ ↦ hm i (by omega)), Mem.st16, Mem.ld16_store_disjoint _ (.inl (by omega))]
    exact congrArg (fun w ↦ (ntohs w).toNat) hld
  obtain ⟨hbytes, hsum⟩ := hform m₀ protocol p.transport_len_.toNat
  have hpseudo : (pseudoHeader (m₀.slice s (2 * n)) (m₀.slice d (2 * n)) protocol p.transport_len_.toNat).length % 2 =
      0 := by
    rw [length_pseudoHeader]
    simp only [Mem.length_slice]
    split <;> omega
  obtain ⟨-, hwhole, -, hz⟩ := tcp_checksum_spec (m := m₀) (a := p.ip_len_) (s := s) (d := d)
    (by omega : p.transport_len_.toNat ≤ 65535) hn ((congrArg total hbytes).trans (total_append hpseudo _))
  rw [← hsum] at hwhole hz
  refine ⟨_, hfield, ⟨rfl, hlength⟩, fun len hl ↦ ?_, hwhole, hz⟩
  rw [(hform m protocol len).1, (hform m₀ protocol len).1]
  exact total_stored heven hl hzero hs hd (fun i hi ↦ hm i (by omega))

theorem Read.built {hw : UInt16} (h : p.Read hw) (ht : (p.isTCP || p.isUDP) = true) : p.Built := by
  obtain ⟨junk, buf, len, hr⟩ := h
  have hunpacked : ∀ {old ip_len : Int} {protocol : UInt8}, p.Unpacked old ip_len protocol → p.ip_len_ = ip_len ∧
      (p.tcp_ = some p.ip_len_ ∧ p.udp_ = none ∨ p.tcp_ = none ∧ p.udp_ = some p.ip_len_) := by
    intro old ip_len protocol hu
    refine ⟨hu.ip_len_, ?_⟩
    rw [hu.tcp_, hu.udp_, hu.ip_len_]
    rcases hu.carries ht with ⟨-, rfl⟩ | ⟨-, rfl⟩
    · exact .inl ⟨if_pos rfl, if_neg (by decide)⟩
    · exact .inr ⟨if_neg (by decide), if_pos rfl⟩
  by_cases h₆ : hw = ETHERTYPE_IPV6
  · subst h₆
    obtain ⟨hu, -, hv, hip, hip6⟩ := receive_v6 hr
    exact ⟨.inl ⟨hv, hip, hip6, (hunpacked hu).1⟩, (hunpacked hu).2⟩
  by_cases h₄ : hw = ETHERTYPE_IP
  · subst h₄
    obtain ⟨hu, -, hv, hip, hip6⟩ := receive_v4 hr
    exact ⟨.inr ⟨hv, hip, hip6, (hunpacked hu).1⟩, (hunpacked hu).2⟩
  · unfold receive at hr
    split at hr
    · cases hr
    case h_2 q hq =>
      obtain ⟨-, hw', htcp, hudp⟩ := setIbuf_ok hq
      unfold unpack at hr
      rw [if_neg (by rw [hw']; exact h₆), if_neg (by rw [hw']; exact h₄)] at hr
      cases hr
      rw [isTCP, isUDP, htcp, hudp] at ht
      cases ht

theorem setTransportLen_pointers (p : Packet) (len : Int) : (p.setTransportLen len).pointers = p.pointers := by
  unfold setTransportLen
  dsimp only
  split <;> rfl

end Packet

section Pointers

variable {pc : ParserClass σ} {nat : NAT} {sm : StateManager σ}

theorem Flow.shiftTCP_pointers (extra : EXTRAType) (flow : Flow σ) (p : Packet) :
    (flow.shiftTCP extra p).2.pointers = p.pointers := by
  unfold Flow.shiftTCP Flow.shift
  dsimp only
  split
  · split
    · split <;> rfl
    · rfl
  · rfl

theorem Flow.modify_pointers (extra : EXTRAType) (flow : Flow σ) (p : Packet) (ops : List Operation)
    (parser : Parser σ) : (flow.modify pc extra p ops parser).pkt.pointers = p.pointers := by
  unfold Flow.modify
  split
  · rfl
  · split
    · rfl
    · exact Packet.setTransportLen_pointers _ _

theorem adjust_pointers (flow : Flow σ) (dest : DEST) (p : Packet) : (adjust flow dest p).pointers = p.pointers := by
  unfold adjust
  split
  · rfl
  · cases dest <;> rfl

theorem doContent_pointers {f : ℕ} {dest : DEST} {out : AppOut σ} (h : doContent pc nat sm p f dest = .ok out) :
    out.pkt.pointers = p.pointers := by
  have hshift := Flow.shiftTCP_pointers sm.extra (sm.flowAt f) p
  unfold doContent at h
  dsimp only at h
  split at h
  · cases h
    exact hshift
  split at h
  · cases h
  cases h
  unfold applyOps
  split
  · split
    · exact (Flow.modify_pointers _ _ _ _ _).trans hshift
    · exact hshift
  · exact hshift

theorem doApp_pointers {out : AppOut σ} (h : doApp pc nat sm p = .ok out) : out.pkt.pointers = p.pointers := by
  unfold doApp at h
  dsimp only at h
  split at h
  · cases h
    rfl
  unfold doAppFlow at h
  dsimp only at h
  split at h
  · exact doContent_pointers h
  split at h
  · cases h
    exact adjust_pointers _ _ _
  · exact (doContent_pointers h).trans (adjust_pointers _ _ _)

theorem NAT.headers_withObuf (nat : NAT) (sm : StateManager σ) (p : Packet) :
    ∃ m, nat.doIP sm (nat.doDPort (nat.doSPort p)) = p.withObuf m := by
  obtain ⟨m₁, hs⟩ : ∃ m, nat.doSPort p = p.withObuf m := by
    unfold NAT.doSPort
    split
    · split
      · exact ⟨_, rfl⟩
      · exact ⟨p.obuf_, rfl⟩
    · exact ⟨p.obuf_, rfl⟩
  obtain ⟨m₂, hd⟩ : ∃ m, nat.doDPort (p.withObuf m₁) = p.withObuf m := by
    unfold NAT.doDPort
    split
    · split
      · exact ⟨_, rfl⟩
      · exact ⟨m₁, rfl⟩
    · exact ⟨m₁, rfl⟩
  rw [hs, hd]
  unfold NAT.doIP
  dsimp only
  split <;> exact ⟨_, rfl⟩

end Pointers

/-- A packet that a reader made, after `doApp` or, as at this commit, without it. -/
def Packet.Prepared (pc : ParserClass σ) (p : Packet) : Prop :=
  ∃ hw q nat sm out, q.Read hw ∧ (doApp pc nat sm q = .ok out ∨ NAT.noApp nat sm q = .ok out) ∧ out.pkt = p

section Finish

variable {pc : ParserClass σ} {protocol : UInt8}

theorem Packet.Prepared.built (h : p.Prepared pc) (hp : p.Carries protocol) : p.Built := by
  obtain ⟨hw, q, nat, sm, out, hr, happ, rfl⟩ := h
  have hptr : out.pkt.pointers = q.pointers := by
    rcases happ with ha | ha
    · exact doApp_pointers ha
    · cases ha
      rfl
  refine (hr.built ?_).of_pointers hptr
  simp only [pointers, Prod.mk.injEq] at hptr
  obtain ⟨-, -, -, -, htcp, hudp⟩ := hptr
  rw [isTCP, isUDP, ← htcp, ← hudp]
  rcases hp with ⟨ht, -⟩ | ⟨hu, -⟩
  · rw [isTCP] at ht
    rw [ht]
    rfl
  · rw [isUDP] at hu
    rw [hu, Bool.or_true]

/-- What `translate` is about to finish, with the ports and the IP header in place. -/
def NAT.headers (nat : NAT) (sm : StateManager σ) (p : Packet) : Packet :=
  nat.doIP sm (nat.doDPort (nat.doSPort p))

theorem Packet.total_bytesOf_ne (p : Packet) {len : ℕ} (hp : 0 < protocol.toNat) (hlen : len ≤ 65535) :
    total (p.bytesOf protocol len) ≠ 0 := by
  have hpos : ∀ xs ys bs : List UInt8, xs.length % 2 = 0 → ys.length % 2 = 0 →
      total (pseudoHeader xs ys protocol len ++ bs) ≠ 0 := by
    intro xs ys bs hx hy
    rw [total_append (by rw [length_pseudoHeader]; split <;> omega), total_pseudoHeader hx hy _ hlen]
    omega
  unfold bytesOf
  split <;> exact hpos _ _ _ (by simp) (by simp)

/-- Where the receiver sums up `len` bytes, it takes the packet exactly when these come to the same as
those that the checksum was made of. -/
theorem Packet.Completed.checks_iff {v : UInt16} (h : p.Completed q protocol v) (hp : 0 < protocol.toNat) {len : ℕ}
    (hlow : checkAt protocol + 2 ≤ len) (hlen : len ≤ 65535) : Checks (q.bytesOf protocol len) ↔
      total (p.bytesOf protocol len) % 65535 = total (p.summed protocol) % 65535 := by
  have hwhole := h.whole
  have hadded := h.added len hlow
  have hne := q.total_bytesOf_ne hp hlen
  rw [OnesComplement.checks_iff]
  omega

theorem Packet.Prepared.completed (h : p.Prepared pc) (hp : p.Of protocol) (nat : NAT) (sm : StateManager σ) :
    (∃ m, (nat.headers sm p).cleared = p.withObuf m) ∧
      ∃ v, (nat.headers sm p).cleared.Completed (nat.rewrite sm p) protocol v := by
  obtain ⟨m, hm⟩ := NAT.headers_withObuf nat sm p
  have hb : (p.withObuf m).Built := (h.built hp.carries).of_pointers rfl
  unfold NAT.headers NAT.rewrite NAT.finish
  rw [hm]
  refine ⟨?_, hb.completed ⟨hp.carries, hp.header, hp.len⟩⟩
  rw [hb.cleared_eq hp.carries]
  exact ⟨_, rfl⟩

theorem Packet.Prepared.tcp_checks (h : p.Prepared pc) (hp : p.Of IPPROTO_TCP) (nat : NAT) (sm : StateManager σ) :
    Checks ((nat.rewrite sm p).covered IPPROTO_TCP) := by
  obtain ⟨⟨m, hm⟩, v, hv⟩ := h.completed hp nat sm
  have hhead := hp.header
  have hmax := hp.len
  rw [hm] at hv
  have hlow : Packet.checkAt IPPROTO_TCP + 2 ≤ (p.withObuf m).transport_len_.toNat := by
    rw [withObuf_transport_len_]
    omega
  have hlen : (p.withObuf m).transport_len_.toNat ≤ 65535 := by
    rw [withObuf_transport_len_]
    omega
  rw [covered_tcp, hv.lengths.1]
  exact (hv.checks_iff (by decide) hlow hlen).mpr rfl

/-- The checksum never overflows and its last loop ends, and the receiver's sum over the pseudo-header
and the segment with the checksum in place is all ones; so the receiver takes every TCP packet sent. -/
theorem tcp_checksums_verify (pc : ParserClass σ) :
    (∀ (m src dst : Mem) (a s d : Int) (len n : ℕ) (protocol : UInt8), len ≤ 65535 → n = 2 ∨ n = 8 →
      ∃ rounds, tcp_checksumChecked rounds m a len src s dst d n protocol =
        some (tcp_checksum m a len src s dst d n protocol)) ∧
    (∀ (m src dst : Mem) (a s d : Int) (len n f : ℕ) (protocol : UInt8), len ≤ 65535 → n = 2 ∨ n = 8 →
      f % 2 = 0 → f + 2 ≤ len → m.ld16 (a + f) = 0 →
      Checks (pseudoHeader (src.slice s (2 * n)) (dst.slice d (2 * n)) protocol len ++
        (m.st16 (a + f) (tcp_checksum m a len src s dst d n protocol)).slice a len)) ∧
    ∀ (p : Packet) (nat : NAT) (sm : StateManager σ), p.Prepared pc → p.Of IPPROTO_TCP →
      Checks ((nat.rewrite sm p).covered IPPROTO_TCP) := by
  refine ⟨fun m src dst a s d len n protocol hlen hn ↦ ⟨2, ?_⟩,
    fun m src dst a s d len n f protocol hlen hn hf hfit hzero ↦ ?_,
    fun p nat sm h hp ↦ h.tcp_checks hp nat sm⟩
  · exact (tcp_checksum_spec hlen (by omega) rfl).1
  · exact tcp_checksum_checks hlen (by omega) hf hfit hzero

theorem Packet.Read.prepared {hw : UInt16} (h : p.Read hw) (pc : ParserClass Unit) : p.Prepared pc :=
  ⟨hw, p, NAT.new 0, exampleConf, ⟨NAT.new 0, exampleConf, p, [], none⟩, h, .inr rfl, rfl⟩

theorem eprtSegment_read (seq : UInt32) : (eprtSegment seq).Read ETHERTYPE_IPV6 :=
  (Packet.tcp6_in6 _ _ _ _ _ _ (by decide)).1.toReceived.read

/-- The command line of the sessions is taken by its server. -/
theorem eprtSegment_verifies :
    Checks (((NAT.new 0).rewrite (exampleConf : StateManager Unit) (eprtSegment 1000)).covered IPPROTO_TCP) :=
  (tcp_checksums_verify (FTPParser.only once noJunk)).2.2 _ _ _ ((eprtSegment_read 1000).prepared _)
    ⟨.inl ⟨(eprtSegment_isSegment 1000).1, rfl⟩, by decide +kernel, by decide +kernel⟩

/-- A UDP packet leaves with a checksum that is there and that the receiver accepts exactly when
the words summed up do not come to a multiple of 65535, and the datagram is there as far as its
header says and comes to the same as all that was summed up. -/
theorem udp_checksum_nonzero_iff (pc : ParserClass σ) (nat : NAT) (sm : StateManager σ) (h : p.Prepared pc)
    (hp : p.Of IPPROTO_UDP) :
    (nat.rewrite sm p).obuf_.ld16 (p.ip_len_ + 6) ≠ 0 ∧ (nat.rewrite sm p).Taken ↔
      let q := (nat.headers sm p).cleared
      total (q.summed IPPROTO_UDP) % 65535 ≠ 0 ∧ 8 ≤ q.udpLength ∧ q.udpLength ≤ q.transport_len_ ∧
        total (q.covered IPPROTO_UDP) % 65535 = total (q.summed IPPROTO_UDP) % 65535 := by
  obtain ⟨⟨m, hm⟩, v, hv⟩ := h.completed hp nat sm
  have hhead := hp.header
  have hmax := hp.len
  rw [hm] at hv ⊢
  obtain ⟨hlen, hudp⟩ := hv.lengths
  have hfield : (nat.rewrite sm p).obuf_.ld16 (p.ip_len_ + 6) = v := hv.field
  have hpos : 0 < IPPROTO_UDP.toNat := by decide
  have hne : total ((p.withObuf m).summed IPPROTO_UDP) ≠ 0 :=
    (p.withObuf m).total_bytesOf_ne hpos (by rw [Packet.withObuf_transport_len_]; omega)
  have hchecks : 8 ≤ (p.withObuf m).udpLength → (p.withObuf m).udpLength ≤ (p.withObuf m).transport_len_ →
      (Checks ((nat.rewrite sm p).covered IPPROTO_UDP) ↔ total ((p.withObuf m).covered IPPROTO_UDP) % 65535 =
        total ((p.withObuf m).summed IPPROTO_UDP) % 65535) := by
    intro h₁ h₂
    rw [Packet.covered_udp, hudp]
    exact hv.checks_iff hpos h₁ (by simp at h₂; omega)
  rw [hfield, ne_eq, hv.zero, not_and_or, not_not]
  constructor
  · rintro ⟨hmod, h₁, h₂, hc⟩
    rw [hudp] at h₁ h₂
    rw [hlen] at h₂
    exact ⟨hmod.resolve_right hne, h₁, h₂, (hchecks h₁ h₂).mp hc⟩
  · rintro ⟨hmod, h₁, h₂, hsame⟩
    exact ⟨.inl hmod, by rwa [hudp], by rwa [hudp, hlen], (hchecks h₁ h₂).mpr hsame⟩

end Finish

/-- A question to a server, whose words come to 65535 with those of the addresses and ports. -/
def zeroQuery : Packet := .udp6 clientA serverS 1024 53 [0x98, 0x67]

def nextQuery : Packet := .udp6 clientA serverS 1024 53 [0x98, 0x68]

theorem zeroQuery_read : zeroQuery.Read ETHERTYPE_IPV6 := by
  unfold zeroQuery Packet.udp6
  exact (Packet.ofBytes_received (.inl ⟨rfl, rfl⟩) (by decide) (by decide)).1.read

theorem nextQuery_read : nextQuery.Read ETHERTYPE_IPV6 := by
  unfold nextQuery Packet.udp6
  exact (Packet.ofBytes_received (.inl ⟨rfl, rfl⟩) (by decide) (by decide)).1.read

theorem zeroQuery_of : zeroQuery.Of IPPROTO_UDP :=
  ⟨.inr ⟨by decide +kernel, rfl⟩, by decide +kernel, by decide +kernel⟩

theorem nextQuery_of : nextQuery.Of IPPROTO_UDP :=
  ⟨.inr ⟨by decide +kernel, rfl⟩, by decide +kernel, by decide +kernel⟩

/-- The query is translated and sent with a checksum of zero. -/
theorem udp_checksum_zero : ¬∀ (p : Packet) (t : NAT.Translated Unit), p.Read ETHERTYPE_IPV6 → p.Of IPPROTO_UDP →
    (NAT.new 0).translate exampleConf p = .ok t → t.ret = 1 → t.pkt.obuf_.ld16 26 ≠ 0 := by
  intro h
  obtain ⟨t, ht⟩ := exists_ok (x := (NAT.new 0).translate (exampleConf : StateManager Unit) zeroQuery)
    (by decide +kernel)
  have hval : ((NAT.new 0).translate (exampleConf : StateManager Unit) zeroQuery).toOption.map
      (fun t ↦ (t.ret, t.pkt.obuf_.ld16 26)) = some (1, 0) := by decide +kernel
  rw [ht] at hval
  simp only [Except.toOption, Option.map_some, Option.some.injEq, Prod.mk.injEq] at hval
  exact h zeroQuery t zeroQuery_read zeroQuery_of ht hval.1 hval.2

def queryNat : NAT :=
  (((NAT.new 0).translate (exampleConf : StateManager Unit) zeroQuery).toOption.map (·.nat)).getD (NAT.new 0)

/-- The next query is taken, the one before it is not. -/
theorem udp_checksum_nonzero_query :
    ((queryNat.rewrite (exampleConf : StateManager Unit) nextQuery).obuf_.ld16 (nextQuery.ip_len_ + 6) ≠ 0 ∧
      (queryNat.rewrite (exampleConf : StateManager Unit) nextQuery).Taken) ∧
    ¬((queryNat.rewrite (exampleConf : StateManager Unit) zeroQuery).obuf_.ld16 (zeroQuery.ip_len_ + 6) ≠ 0 ∧
      (queryNat.rewrite (exampleConf : StateManager Unit) zeroQuery).Taken) := by
  have hiff := fun p (hr : Packet.Read ETHERTYPE_IPV6 p) ↦
      udp_checksum_nonzero_iff (p := p) (FTPParser.only once noJunk)
    queryNat (exampleConf : StateManager Unit) (hr.prepared _)
  constructor
  · refine (hiff nextQuery nextQuery_read nextQuery_of).mpr ⟨?_, ?_, ?_, ?_⟩ <;> decide +kernel
  · intro h
    exact ((hiff zeroQuery zeroQuery_read zeroQuery_of).mp h).1 (by decide +kernel)

end Nat64Alg
