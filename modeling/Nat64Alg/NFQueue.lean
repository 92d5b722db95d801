import Nat64Alg.Translator

namespace Nat64Alg

open Lib StateManager

variable {σ : Type} {conf : Conf} {sm sm' : StateManager σ} {held : List Key64} {nat : NAT} {p p' : Packet}

inductive Verdict
  | NF_DROP
  | NF_ACCEPT
deriving DecidableEq, Repr

namespace NFQueue

/-- A call of `cb`: the packet of the queue, its header in network order if it has one, and what lay in memory
where the new `Packet` is put. -/
structure NfqData where
  ph : Option (UInt32 × UInt16)
  payload : Mem
  len : Int
  id : UInt32
  junk : Packet

namespace NfqData

/-- The `id` and the `hw_protocol` of the new packet. -/
def header (c : NfqData) : UInt32 × UInt16 :=
  match c.ph with
  | some h => (ntohl h.1, ntohs h.2)
  | none => (c.id, c.junk.hw_protocol)

/-- The packet that `cb` hands to `translate`. -/
def packet (c : NfqData) : Packet :=
  (Packet.receive c.junk c.header.2 c.payload c.len).toOption.getD c.junk

/-- What the kernel queues: a packet of one of the two protocols, no longer than the buffer it is read into. -/
structure Queued (c : NfqData) : Prop where
  header : c.header.2 = ETHERTYPE_IPV6 ∨ c.header.2 = ETHERTYPE_IP
  short : c.len ≤ READ_LEN

def Whole (c : NfqData) : Prop := (if c.header.2 = ETHERTYPE_IPV6 then 40 else 20) ≤ c.len

instance (c : NfqData) : Decidable c.Whole := inferInstanceAs (Decidable (_ ≤ _))

end NfqData

def print_pkt (c : NfqData) : Except Fault (UInt32 × Packet) :=
  match (Packet.new c.junk c.header.2).setIbuf c.payload c.len with
  | .error e => .error e
  | .ok p => .ok (c.header.1, p)

/-- What a call of `cb` comes to. -/
structure Judged (σ : Type) where
  id : UInt32
  verdict : Verdict
  res : NAT.Translated σ

/-- `cb` with `app` as the body of the `try` block of `translate`. -/
def cbWith (app : NAT → StateManager σ → Packet → Except Fault (AppOut σ)) (nat : NAT) (sm : StateManager σ)
    (c : NfqData) : Except Fault (Judged σ) := do
  let (id, p) ← print_pkt c
  let p ← p.unpack
  let t ← nat.translateWith app sm p
  if t.ret ≠ 0 then
    return ⟨id, .NF_DROP, t⟩
  return ⟨id, .NF_ACCEPT, t⟩

def cb (nat : NAT) (sm : StateManager σ) (c : NfqData) : Except Fault (Judged σ) := cbWith NAT.noApp nat sm c

/-- What the host gets to see of a call: a verdict on the packet of that `id`, and what was sent for it. -/
structure Ruling where
  id : UInt32
  verdict : Verdict
  sent : List Sent

/-- The packets of the queue, one call after the other, until a call comes to no end. -/
def queue : Machine (NAT × StateManager σ) NfqData Ruling := fun s c ↦
  match cb s.1 s.2 c with
  | .error _ => none
  | .ok r => some (⟨r.id, r.verdict, r.res.sent⟩, (r.res.nat, r.res.sm))

section Verdicts

variable {app : NAT → StateManager σ → Packet → Except Fault (AppOut σ)} {c : NfqData}

theorem cbWith_read (h : Packet.receive c.junk c.header.2 c.payload c.len = .ok p) :
    (∀ e, nat.translateWith app sm p = .error e → cbWith app nat sm c = .error e) ∧
    ∀ t, nat.translateWith app sm p = .ok t →
      cbWith app nat sm c = .ok ⟨c.header.1, if t.ret ≠ 0 then .NF_DROP else .NF_ACCEPT, t⟩ := by
  obtain ⟨q, hq, hp⟩ : ∃ q, print_pkt c = .ok (c.header.1, q) ∧ q.unpack = .ok p := by
    unfold Packet.receive at h
    unfold print_pkt
    cases hset : (Packet.new c.junk c.header.2).setIbuf c.payload c.len with
    | error e =>
      rw [hset] at h
      cases h
    | ok q =>
      rw [hset] at h
      exact ⟨q, rfl, h⟩
  unfold cbWith
  simp only [bind, Except.bind, hq, hp]
  constructor
  · intro e he
    rw [he]
  · intro t ht
    rw [ht]
    dsimp only
    split <;> rfl

theorem read_of_cbWith {r : Judged σ} (h : cbWith app nat sm c = .ok r) :
    ∃ p, Packet.receive c.junk c.header.2 c.payload c.len = .ok p := by
  unfold cbWith at h
  obtain ⟨⟨_, q⟩, hq, h⟩ := ok_of_bind h
  obtain ⟨p, hp, -⟩ := ok_of_bind h
  unfold print_pkt at hq
  split at hq
  · cases hq
  case h_2 hset =>
    cases hq
    refine ⟨p, ?_⟩
    unfold Packet.receive
    rw [hset]
    exact hp

theorem send_sent {sent : List Sent} (h : nat.send sm p = .ok (sm', p', sent)) : sent ≠ [] := by
  unfold NAT.send at h
  dsimp only at h
  split at h
  · cases h
    exact List.cons_ne_nil _ _
  · split at h
    · split at h
      · cases h
      · cases h
        simp
    · cases h
      exact List.cons_ne_nil _ _

theorem translateWith_ret {t : NAT.Translated σ} (hmode : sm.analysisMode = false)
    (happ : ∀ nat s a, s.analysisMode = false → app nat s p = .ok a → a.sm.analysisMode = false)
    (h : nat.translateWith app sm p = .ok t) : t.ret ≠ 0 ↔ t.sent ≠ [] := by
  obtain ⟨ok, sm₁, hr, hcase⟩ := translateWith_cases hmode h
  have hmode₁ : sm₁.analysisMode = false := ((@inRange_grown _ [] _ _ _ _ hr).analysisMode).trans hmode
  rcases hcase with ⟨-, rfl⟩ | ⟨-, rc, nat₁, sm₂, hb, hcase⟩
  · simp
  have hmode₂ : sm₂.analysisMode = false :=
    ((@begin_grown _ [] _ _ List.nodup_nil _ _ _ _ hb).analysisMode).trans hmode₁
  rcases hcase with ⟨-, rfl⟩ | ⟨-, a, ha, ⟨hm, -⟩ | ⟨-, sm₃, q, sent, hs, rfl⟩⟩
  · simp
  · exact absurd (hm.symm.trans (happ _ _ _ hmode₂ ha)) (by simp)
  · simpa using send_sent hs

end Verdicts

/-- The ruling on a packet that becomes `d`: it is let through as it is, or what it becomes is sent in its place. -/
def ruling (conf : Conf) (c : NfqData) (d : Departure) : Ruling :=
  ⟨c.header.1, if d = .nothing then .NF_ACCEPT else .NF_DROP, conf.emit c.packet d⟩

def rulings (conf : Conf) : Machine (List Key64) NfqData Ruling :=
  (nat64 conf.pool).through (fun c ↦ conf.arrival c.packet) (ruling conf)

theorem emit_eq_nil {d : Departure} : conf.emit p d = [] ↔ d = .nothing := by
  cases d <;> simp [Conf.emit]

section Rulings

variable {c : NfqData} {calls : List NfqData} {extra : EXTRAType} {protocols : OrderedMap String Protocol nameLt}

theorem NfqData.Queued.read_iff (h : c.Queued) :
    (∃ p, Packet.receive c.junk c.header.2 c.payload c.len = .ok p) ↔ c.Whole := by
  have hshort := h.short
  unfold READ_LEN at hshort
  have hbuf : BUF_LEN = 65536 := rfl
  unfold NfqData.Whole
  rcases h.header with hw | hw
  · rw [Packet.receive_iff c.junk c.payload (.inl ⟨hw, rfl, rfl⟩), if_pos hw]
    omega
  · rw [Packet.receive_iff c.junk c.payload (.inr ⟨hw, rfl, rfl⟩), if_neg (by rw [hw]; decide)]
    omega

theorem NfqData.Queued.read (h : c.Queued) (hw : c.Whole) :
    Packet.receive c.junk c.header.2 c.payload c.len = .ok c.packet ∧ c.packet.Arrived ∧
      c.packet.ibuf_len_ ≤ READ_LEN := by
  obtain ⟨p, hr⟩ := h.read_iff.mpr hw
  have hp : c.packet = p := by
    unfold NfqData.packet
    rw [hr]
    rfl
  rw [hp]
  refine ⟨hr, ?_, (Packet.receive_ibuf hr).1.trans_le h.short⟩
  rcases h.header with hv | hv
  · rw [hv] at hr
    exact .inl ⟨_, _, _, hr⟩
  · rw [hv] at hr
    exact .inr ⟨_, _, _, hr⟩

theorem queue_whole {s s' : NAT × StateManager σ} {as : List Ruling} (hcalls : ∀ c ∈ calls, c.Queued)
    (h : queue.run s calls = some (as, s')) : ∀ c ∈ calls, c.Whole := by
  intro c hc
  obtain ⟨t, r, ht⟩ := Machine.answered_of_run h c hc
  unfold queue at ht
  split at ht
  · cases ht
  case h_2 u hu => exact (hcalls c hc).read_iff.mp (read_of_cbWith hu)

theorem queue_step (hips : conf.ips.Nodup) {s : NAT × StateManager σ}
    (h : s.1.exttcpflow_ = none ∧ Serves conf s.2 held) (hc : c.Queued ∧ c.Whole) :
    Option.Rel (fun r r' ↦ r.1 = r'.1 ∧ r.2.1.exttcpflow_ = none ∧ Serves conf r.2.2 r'.2)
      (queue s c) (rulings conf held c) := by
  obtain ⟨hidle, hS⟩ := h
  obtain ⟨hr, hp, hshort⟩ := hc.1.read hc.2
  obtain ⟨hstop, hgo⟩ := @cbWith_read σ s.2 s.1 _ NAT.noApp _ hr
  cases ht : s.1.translate s.2 c.packet with
  | error e =>
    obtain ⟨-, hnone⟩ := hS.translate_error hips hp hshort ht
    have hq : queue s c = none := by
      unfold queue cb
      rw [hstop e ht]
    have ha : rulings conf held c = none := by
      unfold Conf.translator Machine.through at hnone
      unfold rulings Machine.through
      rw [Option.map_eq_none_iff] at hnone ⊢
      exact hnone
    rw [hq, ha]
    exact .none
  | ok t =>
    obtain ⟨held', hsome, hS'⟩ := hS.translate hips hidle hp ht
    obtain ⟨⟨d, u⟩, hd, he⟩ := Option.map_eq_some_iff.mp hsome
    obtain ⟨hsent, rfl⟩ : conf.emit c.packet d = t.sent ∧ u = held' := by simpa using he
    have hret : t.ret ≠ 0 ↔ ¬d = .nothing := by
      refine (translateWith_ret hS.mode ?_ ht).trans ?_
      · rintro _ _ _ hm ha
        cases ha
        exact hm
      · rw [← hsent]
        exact not_congr emit_eq_nil
    have hq : queue s c = some (ruling conf c d, (t.nat, t.sm)) := by
      have hv : (if t.ret ≠ 0 then Verdict.NF_DROP else .NF_ACCEPT) =
          if d = .nothing then .NF_ACCEPT else .NF_DROP := by
        by_cases hn : d = .nothing
        · rw [if_neg (fun hne ↦ hret.mp hne hn), if_pos hn]
        · rw [if_pos (hret.mpr hn), if_neg hn]
      unfold queue cb
      rw [hgo t ht]
      dsimp only
      rw [hv, ← hsent]
      rfl
    have ha : rulings conf held c = some (ruling conf c d, u) := by
      unfold rulings Machine.through
      rw [hd]
      rfl
    rw [hq, ha]
    exact .some ⟨rfl, (translate_exttcpflow hS.mode ht).trans hidle, hS'⟩

/-- The packets in the queue alone decide what becomes of them: as long as each has its IP header and the pool has an
endpoint for each client port among them, each gets one verdict, in turn, and is dropped if a translated packet is
sent in its place, or else let through with nothing sent. -/
theorem queue_rulings (hips : conf.ips.Nodup) (tid : Int) (hcalls : ∀ c ∈ calls, c.Queued) {as : List Ruling} :
    (∃ s : NAT × StateManager σ,
      queue.run (NAT.new tid, configured conf.prefix_ extra protocols conf.ips) calls = some (as, s)) ↔
    (∀ c ∈ calls, c.Whole) ∧
      ((clients (calls.map (fun c ↦ conf.arrival c.packet))).map clientPort).toFinset.card ≤
        conf.ips.length * poolSize ∧
      as = calls.mapIdx (fun n c ↦ ruling conf c
        (departs conf.pool (conf.made ((calls.take (n + 1)).map NfqData.packet)) (conf.arrival c.packet))) := by
  have halike : (∀ c ∈ calls, c.Whole) → ((∃ s : NAT × StateManager σ,
      queue.run (NAT.new tid, configured conf.prefix_ extra protocols conf.ips) calls = some (as, s)) ↔
      ∃ held, (rulings conf).run [] calls = some (as, held)) := fun hwhole ↦
    Machine.run_alike (R := fun s held ↦ s.1.exttcpflow_ = none ∧ Serves conf s.2 held)
      (fun _ _ _ h hc ↦ queue_step hips h hc) (fun c hc ↦ ⟨hcalls c hc, hwhole c hc⟩)
      ⟨rfl, .configured conf extra protocols⟩
  have hmade : ∀ cs : List NfqData,
      Allotment.firsts clientPort [] (clients (cs.map (fun c ↦ conf.arrival c.packet))) =
        conf.made (cs.map NfqData.packet) := by
    intro cs
    rw [Conf.made, List.map_map]
    rfl
  rw [← Conf.length_made_map conf NfqData.packet calls, ← length_pool]
  simp only [rulings, nat64_through, hmade] at halike
  constructor
  · rintro ⟨s, hs⟩
    have hwhole := queue_whole hcalls hs
    obtain ⟨held, rfl, hlen, has⟩ := (halike hwhole).mp ⟨s, hs⟩
    exact ⟨hwhole, hlen, has⟩
  · rintro ⟨hwhole, hlen, has⟩
    exact (halike hwhole).mpr ⟨_, rfl, hlen, has⟩

/-- What the kernel hands over for a packet of the queue. -/
def NfqData.of (id : UInt32) (hw_protocol : UInt16) (bs : List UInt8) : NfqData :=
  ⟨some (ntohl id, ntohs hw_protocol), Mem.ofList bs, bs.length, 0, .blank⟩

/-- A client's segment, the server's answer, a stranger's segment and a query to no server of the prefix. -/
def exampleQueue : List NfqData :=
  [.of 1 ETHERTYPE_IPV6 (make_ip6pkt 20 clientA serverS IPPROTO_TCP ++ Packet.tcphdr 1024 80 1 1),
    .of 2 ETHERTYPE_IP (make_ip4pkt 20 ⟨ntohl 0xc0000201⟩ ⟨ntohl 0x0a141e28⟩ IPPROTO_TCP ++
      Packet.tcphdr 80 32000 1 2),
    .of 3 ETHERTYPE_IP (make_ip4pkt 20 ⟨ntohl 0xc0000202⟩ ⟨ntohl 0x0a141e28⟩ IPPROTO_TCP ++
      Packet.tcphdr 80 32001 1 2),
    .of 4 ETHERTYPE_IPV6 (make_ip6pkt 8 clientA clientB IPPROTO_UDP ++ Packet.udphdr 1024 53 8)]

/-- The segment and its answer are dropped for what is sent in their place, the others are let through. -/
theorem queue_rulings_mixed : ∃ (as : List Ruling) (s : NAT × StateManager Unit),
    queue.run (NAT.new 0, exampleConf) exampleQueue = some (as, s) ∧
      as.map (fun r ↦ (r.id, r.verdict, r.sent.length)) =
        [(1, .NF_DROP, 1), (2, .NF_DROP, 1), (3, .NF_ACCEPT, 0), (4, .NF_ACCEPT, 0)] := by
  have hq : ∀ c ∈ exampleQueue, c.Queued := by
    have hof : ∀ c ∈ exampleQueue, (c.header.2 = ETHERTYPE_IPV6 ∨ c.header.2 = ETHERTYPE_IP) ∧ c.len ≤ READ_LEN := by
      decide +kernel
    exact fun c hc ↦ ⟨(hof c hc).1, (hof c hc).2⟩
  have hcard : ((clients (exampleQueue.map (fun c ↦ exampleNat64.arrival c.packet))).map clientPort).toFinset.card =
      1 := by
    decide +kernel
  obtain ⟨s, hs⟩ := (@queue_rulings Unit exampleNat64 exampleQueue .NONE
    (OrderedMap.empty.insert "http" { ptype_c2s := .NONE }) (List.nodup_singleton _) 0 hq _).mpr
    ⟨by decide +kernel, hcard.trans_le (by decide), rfl⟩
  exact ⟨_, s, hs, by decide +kernel⟩

end Rulings

end NFQueue

end Nat64Alg
