import Nat64Alg.Binding
import Nat64Alg.History
import Nat64Alg.FTPScanner
import Mathlib.Data.List.GetD

namespace Nat64Alg

open Lib StateManager

variable {σ : Type}

/-- One translator takes packets to `begin` and to `doApp`, until one stops the program. -/
def play (pc : ParserClass σ) : NAT → StateManager σ → List Packet → List (Event σ) × StateManager σ
  | _, sm, [] => ([], sm)
  | nat, sm, p :: ps =>
    match nat.begin sm p with
    | .error _ => ([], sm)
    | .ok (_, nat', sm') =>
      match doApp pc nat' sm' p with
      | .error _ => ([.begun nat p], sm')
      | .ok out =>
        let r := play pc out.nat out.sm ps
        (.begun nat p :: .passed nat' p out :: r.1, r.2)

theorem play_run (pc : ParserClass σ) (nat : NAT) (sm : StateManager σ) (ps : List Packet) :
    Run (AppStep pc) sm (play pc nat sm ps).1 (play pc nat sm ps).2 := by
  induction ps generalizing nat sm with
  | nil => exact .nil sm
  | cons p ps ih =>
    unfold play
    split
    case h_1 => exact .nil sm
    case h_2 rc nat' sm' hb =>
      have hstep : AppStep pc sm (.begun nat p) sm' := ⟨rc, nat', hb⟩
      split
      case h_1 => exact .one hstep
      case h_2 out ha => exact .cons hstep (.cons ⟨ha, rfl⟩ (ih out.nat out.sm))

theorem play_mem {pc : ParserClass σ} {nat nat' : NAT} {sm : StateManager σ} {ps : List Packet} {p : Packet}
    {out : AppOut σ} (h : Event.passed nat' p out ∈ (play pc nat sm ps).1) : p ∈ ps := by
  induction ps generalizing nat sm with
  | nil => cases h
  | cons q ps ih =>
    unfold play at h
    split at h
    case h_1 => cases h
    case h_2 rc nat₁ sm₁ hb =>
      split at h
      case h_1 => simp at h
      case h_2 out₁ ha =>
        simp only [List.mem_cons, reduceCtorEq, false_or] at h
        rcases h with h | h
        · cases h
          exact List.mem_cons_self
        · exact List.mem_cons_of_mem _ (ih h)

theorem play_segments {pc : ParserClass σ} {nat : NAT} {sm : StateManager σ} {ps : List Packet}
    (h : ∀ p ∈ ps, p.IsSegment) (f : ℕ) : Segments f (play pc nat sm ps).1 :=
  fun _ _ _ hm _ ↦ h _ (play_mem hm)

namespace System

/-- The packets handled whole, one after the other, until one stops the program. -/
def perform (app : NAT → StateManager σ → Packet → Except Fault (AppOut σ)) :
    System σ → List (ℕ × Packet) → List (Handled σ) × System σ
  | s, [] => ([], s)
  | s, (w, p) :: calls =>
    match (s.nats w).translateWith app s.sm p with
    | .error _ => ([], s)
    | .ok t =>
      let r := perform app (s.after ⟨w, p, t⟩) calls
      (⟨w, p, t⟩ :: r.1, r.2)

variable {app : NAT → StateManager σ → Packet → Except Fault (AppOut σ)}

theorem perform_run (s : System σ) (calls : List (ℕ × Packet)) :
    Run (Step app) s (perform app s calls).1 (perform app s calls).2 := by
  induction calls generalizing s with
  | nil => exact .nil s
  | cons c calls ih =>
    obtain ⟨w, p⟩ := c
    unfold perform
    split
    case h_1 => exact .nil s
    case h_2 t ht => exact .cons ⟨ht, rfl⟩ (ih _)

theorem perform_pairs (s : System σ) (calls : List (ℕ × Packet)) :
    (perform app s calls).1.map (fun l ↦ (l.worker, l.pkt)) <+: calls := by
  induction calls generalizing s with
  | nil => exact List.nil_prefix
  | cons c calls ih =>
    obtain ⟨w, p⟩ := c
    unfold perform
    split
    case h_1 => exact List.nil_prefix
    case h_2 t ht => exact (List.prefix_cons_inj _).mpr (ih _)

theorem perform_mem {s : System σ} {calls : List (ℕ × Packet)} {l : Handled σ} (h : l ∈ (perform app s calls).1) :
    (l.worker, l.pkt) ∈ calls :=
  (perform_pairs s calls).subset (List.mem_map_of_mem h)

/-- If as many packets are handled as there are, they are those given. -/
theorem perform_all {s : System σ} {calls : List (ℕ × Packet)}
    (h : (perform app s calls).1.length = calls.length) :
    (perform app s calls).1.map (fun l ↦ (l.worker, l.pkt)) = calls :=
  (perform_pairs s calls).eq_of_length (by rw [List.length_map, h])

end System

/-- A server behind FTP only, read without state towards it. -/
def ftpConf (extra : EXTRAType) : StateManager Unit :=
  configured ⟨⟨ntohl 0x20030000, 0, 0, 0⟩⟩ extra (OrderedMap.empty.insert "ftp" { ptype_s2c := .NONE })
    [⟨ntohl 0x0a141e28⟩]

/-- What the tests leave in memory where an address or a port is not set. -/
def noJunk : Junk := ⟨⟨0, 0, 0, 0⟩, 0⟩

/-- A scanner that counts a character it passes over as one. -/
def once : UInt8 → ℕ := fun _ ↦ 1

def eprtLine : Text := text "EPRT |2|1::1|1|\r\n"

namespace Packet

/-- The packet read from some bytes, into a packet object not used before. -/
def ofBytes (hw_protocol : UInt16) (bs : List UInt8) : Packet :=
  match receive blank hw_protocol (Mem.ofList bs) bs.length with
  | .ok p => p
  | .error _ => blank

instance (m : Mem) (a len : Int) (protocol : UInt8) : Decidable (CompleteHeader m a len protocol) :=
  inferInstanceAs (Decidable (_ ∨ _))

theorem ofBytes_received {hw_protocol : UInt16} {old : Int} {bs : List UInt8}
    (hhw : hw_protocol = ETHERTYPE_IPV6 ∧ old = 40 ∨ hw_protocol = ETHERTYPE_IP ∧ old = 20)
    (hold : old ≤ bs.length) (hlen : bs.length ≤ READ_LEN) :
    (ofBytes hw_protocol bs).Received hw_protocol ∧ (ofBytes hw_protocol bs).ibuf_len_ = bs.length ∧
      ∀ i : Int, 0 ≤ i → i < bs.length → (ofBytes hw_protocol bs).ibuf_ i = Mem.ofList bs i := by
  obtain ⟨p, hp, hl, hcopy⟩ := receive_ok blank (Mem.ofList bs) hhw hold hlen
  unfold ofBytes
  rw [hp]
  exact ⟨⟨⟨blank, _, by rw [hl]; exact hp⟩, by rw [hl]; exact hlen⟩, hl, hcopy⟩

theorem completeHeader_congr {m m' : Mem} {a len : Int} {protocol : UInt8} (h : m (a + 12) = m' (a + 12))
    (hc : CompleteHeader m' a len protocol) : CompleteHeader m a len protocol := by
  unfold CompleteHeader th_off at *
  rw [h]
  exact hc

theorem completeHeader_lt {m : Mem} {a len : Int} {protocol : UInt8} (h : CompleteHeader m a len protocol) :
    a + 8 ≤ len := by
  rcases h with ⟨-, h, h'⟩ | ⟨-, h⟩ <;> omega

theorem ofBytes_in6 {bs : List UInt8} (hlen : bs.length ≤ READ_LEN)
    (hh : CompleteHeader (Mem.ofList bs) 40 bs.length (Mem.ofList bs 6)) : (ofBytes ETHERTYPE_IPV6 bs).In6 := by
  have h₈ := completeHeader_lt hh
  obtain ⟨hr, hl, hcopy⟩ := ofBytes_received (.inl ⟨rfl, rfl⟩) (by omega) hlen
  refine ⟨hr, ?_⟩
  rw [hl, hcopy 6 (by omega) (by omega)]
  rcases hh with ⟨hp, h₁, h₂⟩ | ⟨hp, h₁⟩
  · have h12 : (ofBytes ETHERTYPE_IPV6 bs).ibuf_ (40 + 12) = Mem.ofList bs (40 + 12) :=
      hcopy _ (by omega) (by omega)
    exact completeHeader_congr h12 (.inl ⟨hp, h₁, h₂⟩)
  · exact .inr ⟨hp, h₁⟩

def tcphdr (sport dport : UInt16) (seq ack : UInt32) : List UInt8 :=
  Mem.bytes16 (ntohs sport) ++ Mem.bytes16 (ntohs dport) ++ Mem.bytes32 (ntohl seq) ++ Mem.bytes32 (ntohl ack) ++
    [0x50, 0x10, 0, 0, 0, 0, 0, 0]

def tcp6 (src dst : IPv6Addr) (sport dport : UInt16) (seq ack : UInt32) (data : Text) : Packet :=
  ofBytes ETHERTYPE_IPV6 (make_ip6pkt (UInt16.ofNat (20 + data.length)) src dst IPPROTO_TCP ++
    tcphdr sport dport seq ack ++ data)

def tcp4 (src dst : IPv4Addr) (sport dport : UInt16) (seq ack : UInt32) (data : Text) : Packet :=
  ofBytes ETHERTYPE_IP (make_ip4pkt (UInt16.ofNat (20 + data.length)) src dst IPPROTO_TCP ++
    tcphdr sport dport seq ack ++ data)

def udphdr (sport dport len : UInt16) : List UInt8 :=
  Mem.bytes16 (ntohs sport) ++ Mem.bytes16 (ntohs dport) ++ Mem.bytes16 (ntohs len) ++ [0, 0]

def udp6 (src dst : IPv6Addr) (sport dport : UInt16) (data : Text) : Packet :=
  ofBytes ETHERTYPE_IPV6 (make_ip6pkt (UInt16.ofNat (8 + data.length)) src dst IPPROTO_UDP ++
    udphdr sport dport (UInt16.ofNat (8 + data.length)) ++ data)

theorem length_tcphdr (sport dport : UInt16) (seq ack : UInt32) : (tcphdr sport dport seq ack).length = 20 := rfl

theorem ofList_append (xs ys : List UInt8) {i : Int} (h₀ : 0 ≤ i) (h : i < xs.length) :
    Mem.ofList (xs ++ ys) i = Mem.ofList xs i := by
  unfold Mem.ofList
  rw [List.getD_append _ _ _ _ (by omega)]

theorem tcp6_in6 (src dst : IPv6Addr) (sport dport : UInt16) (seq ack : UInt32) {data : Text}
    (h : data.length ≤ 4036) : (tcp6 src dst sport dport seq ack data).In6 ∧
      (tcp6 src dst sport dport seq ack data).ibuf_len_ = 60 + data.length ∧
      (tcp6 src dst sport dport seq ack data).ibuf_ 6 = IPPROTO_TCP ∧
      ∀ i : Int, 0 ≤ i → i < 60 + data.length → (tcp6 src dst sport dport seq ack data).ibuf_ i =
        Mem.ofList (make_ip6pkt (UInt16.ofNat (20 + data.length)) src dst IPPROTO_TCP ++
          tcphdr sport dport seq ack ++ data) i := by
  obtain ⟨hd, hhd⟩ : ∃ hd, hd = make_ip6pkt (UInt16.ofNat (20 + data.length)) src dst IPPROTO_TCP := ⟨_, rfl⟩
  have hl : hd.length = 40 := hhd ▸ NAT.length_make_ip6pkt _ _ _ _
  have hlen : (hd ++ tcphdr sport dport seq ack ++ data).length = 60 + data.length := by
    simp [hl, length_tcphdr]
    omega
  have h₆ : Mem.ofList (hd ++ tcphdr sport dport seq ack ++ data) 6 = IPPROTO_TCP := by
    rw [List.append_assoc, ofList_append _ _ (by omega) (by omega), hhd]
    rfl
  have h₅₂ : Mem.ofList (hd ++ tcphdr sport dport seq ack ++ data) 52 = 0x50 := by
    rw [ofList_append _ _ (by omega) (by simp [hl, length_tcphdr])]
    unfold Mem.ofList
    rw [List.getD_append_right _ _ _ _ (by omega), hl]
    rfl
  have hin : (tcp6 src dst sport dport seq ack data).In6 := by
    refine ofBytes_in6 (by unfold READ_LEN; rw [← hhd]; omega) (.inl ⟨hhd ▸ h₆, ?_⟩)
    unfold th_off
    rw [show (40 : Int) + 12 = 52 by rfl, ← hhd, h₅₂, hlen]
    refine ⟨by decide, ?_⟩
    rw [show (0x50 : UInt8).toNat / 16 = 5 by rfl]
    push_cast
    omega
  have hread : (hd ++ tcphdr sport dport seq ack ++ data).length ≤ READ_LEN := by
    unfold READ_LEN
    omega
  obtain ⟨-, hlen', hcopy⟩ := @ofBytes_received ETHERTYPE_IPV6 40 (hd ++ tcphdr sport dport seq ack ++ data)
    (.inl ⟨rfl, rfl⟩) (by omega) hread
  rw [hhd] at hlen hlen' hcopy
  rw [hlen] at hlen' hcopy
  refine ⟨hin, by exact_mod_cast hlen', ?_, fun i h₀ h₁ ↦ hcopy i h₀ (by exact_mod_cast h₁)⟩
  exact (hcopy 6 (by omega) (by push_cast; omega)).trans (hhd ▸ h₆)

theorem tcp6_isSegment (src dst : IPv6Addr) (sport dport : UInt16) (seq ack : UInt32) {data : Text}
    (h : data.length ≤ 4036) : (tcp6 src dst sport dport seq ack data).IsSegment := by
  obtain ⟨hin, -, hp, -⟩ := tcp6_in6 src dst sport dport seq ack h
  refine ⟨?_, .inl hin⟩
  rw [isTCP, hin.ready.1.tcp_, hp]
  rfl

theorem ofBytes_in4 {bs : List UInt8} (hlen : bs.length ≤ READ_LEN) (hihl : Mem.ofList bs 0 = 0x45)
    (hfrag : (Mem.ofList bs).ld16 6 = 0)
    (hh : CompleteHeader (Mem.ofList bs) 20 bs.length (Mem.ofList bs 9)) : (ofBytes ETHERTYPE_IP bs).In4 := by
  have h₈ := completeHeader_lt hh
  obtain ⟨hr, hl, hcopy⟩ := ofBytes_received (.inr ⟨rfl, rfl⟩) (by omega) hlen
  refine ⟨hr, (hcopy 0 (by omega) (by omega)).trans hihl, ?_, ?_⟩
  · rw [Mem.ld16_congr (fun i _ _ ↦ hcopy i (by omega) (by omega)), hfrag]
    rfl
  · rw [hl, hcopy 9 (by omega) (by omega)]
    rcases hh with ⟨hp, h₁, h₂⟩ | ⟨hp, h₁⟩
    · have h32 : (ofBytes ETHERTYPE_IP bs).ibuf_ (20 + 12) = Mem.ofList bs (20 + 12) := hcopy _ (by omega) (by omega)
      exact completeHeader_congr h32 (.inl ⟨hp, h₁, h₂⟩)
    · exact .inr ⟨hp, h₁⟩

theorem tcp4_in4 (src dst : IPv4Addr) (sport dport : UInt16) (seq ack : UInt32) {data : Text}
    (h : data.length ≤ 4056) : (tcp4 src dst sport dport seq ack data).In4 ∧
      (tcp4 src dst sport dport seq ack data).ibuf_ 9 = IPPROTO_TCP := by
  obtain ⟨hd, hhd⟩ : ∃ hd, hd = make_ip4pkt (UInt16.ofNat (20 + data.length)) src dst IPPROTO_TCP := ⟨_, rfl⟩
  have hl : hd.length = 20 := hhd ▸ NAT.length_make_ip4pkt _ _ _ _
  have hlen : (hd ++ tcphdr sport dport seq ack ++ data).length = 40 + data.length := by
    simp [hl, length_tcphdr]
    omega
  have hread : ((hd ++ tcphdr sport dport seq ack ++ data).length : Int) ≤ READ_LEN := by
    unfold READ_LEN
    omega
  have hfront : ∀ i : Int, 0 ≤ i → i < 20 →
      Mem.ofList (hd ++ tcphdr sport dport seq ack ++ data) i = Mem.ofList hd i := fun i h₀ h₁ ↦ by
    rw [List.append_assoc, ofList_append _ _ h₀ (by omega)]
  have h₉ : Mem.ofList (hd ++ tcphdr sport dport seq ack ++ data) 9 = IPPROTO_TCP := by
    rw [hfront 9 (by omega) (by omega), hhd]
    rfl
  have h₃₂ : Mem.ofList (hd ++ tcphdr sport dport seq ack ++ data) 32 = 0x50 := by
    rw [ofList_append _ _ (by omega) (by simp [hl, length_tcphdr])]
    unfold Mem.ofList
    rw [List.getD_append_right _ _ _ _ (by omega), hl]
    rfl
  have hin : (tcp4 src dst sport dport seq ack data).In4 := by
    unfold tcp4
    rw [← hhd]
    refine ofBytes_in4 hread ?_ ?_ (.inl ⟨h₉, ?_⟩)
    · rw [hfront 0 (by omega) (by omega), hhd]
      rfl
    · rw [Mem.ld16_congr (fun i h₀ h₁ ↦ hfront i (by omega) (by omega)), hhd]
      rfl
    · unfold th_off
      rw [show (20 : Int) + 12 = 32 by rfl, h₃₂, hlen]
      refine ⟨by decide, ?_⟩
      rw [show (0x50 : UInt8).toNat / 16 = 5 by rfl]
      push_cast
      omega
  obtain ⟨-, -, hcopy⟩ := @ofBytes_received ETHERTYPE_IP 20 (hd ++ tcphdr sport dport seq ack ++ data)
    (.inr ⟨rfl, rfl⟩) (by omega) hread
  rw [hhd] at hlen hcopy h₉
  exact ⟨hin, (hcopy 9 (by omega) (by omega)).trans h₉⟩

theorem tcp4_isSegment (src dst : IPv4Addr) (sport dport : UInt16) (seq ack : UInt32) {data : Text}
    (h : data.length ≤ 4056) : (tcp4 src dst sport dport seq ack data).IsSegment := by
  obtain ⟨hin, hp⟩ := tcp4_in4 src dst sport dport seq ack h
  refine ⟨?_, .inr hin⟩
  rw [isTCP, hin.ready.1.tcp_, hp]
  rfl

end Packet

/-- The same command line, sent from the same place in the stream. -/
def eprtSegment (seq : UInt32) : Packet := .tcp6 clientA serverS 1024 21 seq 5 eprtLine

theorem eprtSegment_isSegment (seq : UInt32) : (eprtSegment seq).IsSegment :=
  Packet.tcp6_isSegment _ _ _ _ _ _ (by decide)

/-- FTP read in both directions. -/
def bothConf (extra : EXTRAType) : StateManager Unit :=
  configured ⟨⟨ntohl 0x20030000, 0, 0, 0⟩⟩ extra (OrderedMap.empty.insert "ftp" {}) [⟨ntohl 0x0a141e28⟩]

/-- A command line with more text behind it than a segment should have. -/
def longLines : Text := eprtLine ++ List.replicate 1400 97

/-- A client's segment, and such lines from the server. -/
def oversizeDown : List (ℕ × Packet) :=
  [(0, .tcp6 clientA serverS 1024 21 4 1 []),
    (0, .tcp4 ⟨ntohl 0xc0000201⟩ ⟨ntohl 0x0a141e28⟩ 21 32000 1000 5 longLines)]

theorem oversizeDown_isSegment : ∀ c ∈ oversizeDown, c.2.IsSegment := by
  simp only [oversizeDown, List.forall_mem_cons, List.not_mem_nil, false_imp_iff, implies_true, and_true]
  exact ⟨Packet.tcp6_isSegment _ _ _ _ _ _ (by decide), Packet.tcp4_isSegment _ _ _ _ _ _ (by decide +kernel)⟩

end Nat64Alg
