import Nat64Alg.Grammar
import Nat64Alg.Outcomes

namespace Nat64Alg

open Lib StateManager

variable {σ τ : Type} {sm : StateManager σ} {nat : NAT} {p : Packet}

/-- There is a flow for the key, or a free endpoint for a new one. -/
def StateManager.CanMap (sm : StateManager σ) (k : IP6Port) (srv : IPv6Addr) : Prop :=
  (sm.getMapping6 k srv).isSome ∨ sm.pool_ ≠ []

theorem doMapping_isSome {k : IP6Port} {srv : IPv6Addr} : (sm.doMapping k srv).1.isSome ↔ sm.CanMap k srv := by
  unfold CanMap getMapping6
  rcases doMapping_cases (Prod.eta (sm.doMapping k srv)).symm with
    ⟨f, hf, he, -⟩ | ⟨e, pool, hf, hp, he, -⟩ | ⟨hf, hp, he, -⟩
  · simp [he, hf]
  · simp [he, hf, hp]
  · simp [he, hf, hp]

/-- No null flow is used, and where no flow can be had the packet is refused and nothing changes. -/
def PacketHandled (nat : NAT) (sm : StateManager σ) (p : Packet) : Prop :=
  ∃ t, nat.translate sm p = .ok t ∧
    ((sm.doMapping ⟨p.saddr6, p.getSourcePort⟩ p.daddr6).1 = none → t.ret = 0 ∧ t.sent = [] ∧ t.sm = sm)

/-- No null flow is used, and where no flow can be had the line is left as it is and nothing changes. -/
def LineHandled (script : Script (Parser τ)) (p : Parser τ) (sm : StateManager σ) (k : IP6Port) : Prop :=
  ∃ p' s log, script.run answer (sm, none) = .ok (p', s, log) ∧
    ((sm.doMappingCur k).1 = none → p'.ops = p.ops ∧ s.1 = sm)

theorem mapThen_handled {k : IP6Port} {next : IP4Port → Script (Parser τ)} {q : Parser τ}
    (hnext : ∀ ip4p (s : StateManager σ × FlowPtr), ∃ r, (next ip4p).run answer s = .ok r) :
    LineHandled (mapThen k next) q sm k ↔ sm.CanMap k sm.ip6srv_cur_ := by
  rw [← doMapping_isSome]
  unfold LineHandled mapThen doMappingCur
  simp only [Prog.run, answer, doMappingCur]
  cases hd : (sm.doMapping k sm.ip6srv_cur_).1 with
  | none => simp [Prog.run]
  | some f =>
    obtain ⟨⟨p', s, log⟩, hr⟩ := hnext ((sm.doMapping k sm.ip6srv_cur_).2.flowAt f).ip4p
      ((sm.doMapping k sm.ip6srv_cur_).2, some f)
    simp [hr]

theorem eprt_handled (junk : Junk) (t₂ t₃ t₄ : TokenType) (q : Parser τ) :
    LineHandled (FTPParser.eprt junk t₂ t₃ t₄ q) q sm (junk.ip6Port t₃ t₄) ↔
      sm.CanMap (junk.ip6Port t₃ t₄) sm.ip6srv_cur_ :=
  mapThen_handled fun _ _ ↦ ⟨_, rfl⟩

theorem mapTokens_handled (junk : Junk) (ip port : TokenType) (count : Bool) (q : Parser τ) :
    LineHandled (SIPParser.mapTokens junk ip port count q) q sm (junk.ip6Port ip port) ↔
      sm.CanMap (junk.ip6Port ip port) sm.ip6srv_cur_ :=
  mapThen_handled fun _ _ ↦ ⟨_, rfl⟩

theorem media_handled (junk : Junk) (t₄ : TokenType) (q : Parser SIPFields) :
    LineHandled (SIPParser.media junk t₄ q) q sm (junk.ip6Port q.st.c_ip_ t₄) ↔
      (0 < q.st.c_ip_.s.length → sm.CanMap (junk.ip6Port q.st.c_ip_ t₄) sm.ip6srv_cur_) := by
  unfold SIPParser.media
  split
  case isTrue h => rw [mapTokens_handled, forall_prop_of_true h]
  case isFalse h => exact ⟨fun _ h' ↦ absurd h' h, fun _ ↦ ⟨q, _, _, rfl, fun _ ↦ ⟨rfl, rfl⟩⟩⟩

theorem packet_handled_iff (hmode : sm.analysisMode = false) (hp : p.Received ETHERTYPE_IPV6) :
    PacketHandled nat sm p ↔ (sm.isAddrInRange6 p.daddr6 = true ∧ (p.isTCP || p.isUDP) = true →
      sm.CanMap ⟨p.saddr6, p.getSourcePort⟩ p.daddr6) := by
  rw [← doMapping_isSome]
  unfold PacketHandled
  rcases translate_total hmode hp.read with ⟨hin, ht⟩ | ⟨hin, ⟨f, hf, t, ht⟩ | ⟨hf, ht⟩⟩
  · exact ⟨fun _ h ↦ absurd h hin, fun _ ↦ ⟨_, ht, fun _ ↦ ⟨rfl, rfl, rfl⟩⟩⟩
  · simp [hf, ht]
  · simp [hf, ht, hin]

/-- Only the first `n` ports have flows. -/
def Drained (n : ℕ) (sm : StateManager σ) : Prop :=
  Coherent [⟨ntohl 0x0a141e28⟩] sm ∧ sm.addrs.map (fun a ↦ a.1.1.port_) = (List.range n).map UInt16.ofNat

theorem Drained.unmapped {n : ℕ} (h : Drained n sm) (hn : n ≤ poolSize) {k : Key64}
    (hk : k.1.port_ = UInt16.ofNat n) : sm.map64_.find? k = none := by
  by_contra hsome
  obtain ⟨f, hf⟩ := Option.ne_none_iff_exists'.mp hsome
  obtain ⟨a, ha, he⟩ := h.1.of_find64 hf
  have hmem : a.1.1.port_ ∈ (List.range n).map UInt16.ofNat :=
    h.2 ▸ List.mem_map_of_mem (List.mem_of_getElem? ha)
  obtain ⟨m, hm, hme⟩ := List.mem_map.mp hmem
  have := congrArg UInt16.toNat (hme.trans (he.trans hk))
  have hm := List.mem_range.mp hm
  simp only [UInt16.toNat_ofNat', poolSize, MIN_PORT, MAX_PORT] at this hn
  omega

theorem Drained.length_pool {n : ℕ} (h : Drained n sm) : sm.pool_.length + n = poolSize := by
  have hlen : sm.addrs.length = n := by simpa using congrArg List.length h.2
  simpa [hlen, length_poolOf] using h.1.pool.length_eq

theorem exists_drained (n : ℕ) (hn : n ≤ poolSize) : ∃ (ls : List (Handled σ)) (s : System σ),
    Run (System.Step NAT.noApp) (.start exampleConf) ls s ∧ Drained n s.sm := by
  have hips : [(⟨ntohl 0x0a141e28⟩ : IPv4Addr)].Nodup := List.nodup_singleton _
  induction n with
  | zero => exact ⟨[], _, .nil _, coherent_configured _ _ _ _, rfl⟩
  | succ n ih =>
    obtain ⟨ls, s, hrun, hdrained⟩ := ih (by omega)
    obtain ⟨hs, hg⟩ := (System.sound_start _ _ _ [⟨ntohl 0x0a141e28⟩]).run hips hrun
    obtain ⟨p, hp, h₁, h₂, h₃, -⟩ := Packet.exists_in6 clientA serverS (UInt16.ofNat n) 0
    have hpool : s.sm.pool_ ≠ [] := by
      intro he
      have := hdrained.length_pool
      rw [he, List.length_nil] at this
      omega
    obtain ⟨e, pool, hpool⟩ := List.exists_cons_of_ne_nil hpool
    have hd : s.sm.doMapping ⟨p.saddr6, p.getSourcePort⟩ p.daddr6 =
        (some s.sm.heap.length, s.sm.create (⟨p.saddr6, p.getSourcePort⟩, p.daddr6) e pool) := by
      rw [doMapping, hdrained.unmapped (by omega) h₃, hpool]
    have hrange : s.sm.isAddrInRange6 p.daddr6 = true := by
      unfold isAddrInRange6
      rw [h₂, show s.sm.prefix_ = _ from hg.prefix_]
      rfl
    obtain ⟨t, q, ht, -, -, -, haddrs, -⟩ := @translate_v6 _ _ (s.nats 0) _ hs.mode hp hrange _ _ hd
    have hstep : s.Step NAT.noApp ⟨0, p, t⟩ (s.after ⟨0, p, t⟩) := ⟨ht, rfl⟩
    refine ⟨ls ++ [⟨0, p, t⟩], _, hrun.append (.one hstep), (hs.step hips hstep).1.coherent, ?_⟩
    rw [System.after_sm, haddrs, create_addrs, List.map_append, hdrained.2, List.range_succ, List.map_append]
    simp [h₃]

/-- Once every endpoint of the pool is in use, a packet from one more port stops the program. -/
theorem exhaustion_unhandled : ∃ (ls : List (Handled Unit)) (s : System Unit) (p : Packet),
    Run (System.Step NAT.noApp) (.start exampleConf) ls s ∧ s.sm.pool_ = [] ∧ p.In6 ∧
      p.saddr6 = clientA ∧ p.getSourcePort = UInt16.ofNat poolSize ∧ p.daddr6 = serverS ∧
      ¬PacketHandled (s.nats 0) s.sm p := by
  have hips : [(⟨ntohl 0x0a141e28⟩ : IPv4Addr)].Nodup := List.nodup_singleton _
  obtain ⟨ls, s, hrun, hdrained⟩ := exists_drained (σ := Unit) poolSize le_rfl
  obtain ⟨hs, hg⟩ := (System.sound_start _ _ _ [⟨ntohl 0x0a141e28⟩]).run hips hrun
  obtain ⟨p, hp, h₁, h₂, h₃, -⟩ := Packet.exists_in6 clientA serverS (UInt16.ofNat poolSize) 0
  have hpool : s.sm.pool_ = [] := List.length_eq_zero_iff.mp (by have := hdrained.length_pool; omega)
  refine ⟨ls, s, p, hrun, hpool, hp, h₁, h₃, h₂, fun h ↦ ?_⟩
  have hrange : s.sm.isAddrInRange6 p.daddr6 = true := by
    unfold isAddrInRange6
    rw [h₂, show s.sm.prefix_ = _ from hg.prefix_]
    rfl
  rcases (packet_handled_iff hs.mode hp.toReceived).mp h ⟨hrange, hp.ready.1.isTCP_isUDP⟩ with hm | hm
  · rw [getMapping6, hdrained.unmapped le_rfl h₃] at hm
    cases hm
  · exact hm hpool

/-- Exhaustion is handled by none of the callers of `doMapping`: each of them meets a
null flow exactly when it needs a mapping that is not there and the pool is empty. -/
theorem exhaustion_handled_iff (hmode : sm.analysisMode = false) :
    (∀ nat p, p.Received ETHERTYPE_IPV6 → (PacketHandled nat sm p ↔
      (sm.isAddrInRange6 p.daddr6 = true ∧ (p.isTCP || p.isUDP) = true →
        sm.CanMap ⟨p.saddr6, p.getSourcePort⟩ p.daddr6))) ∧
    (∀ junk t₂ t₃ t₄ (q : Parser τ), LineHandled (FTPParser.eprt junk t₂ t₃ t₄ q) q sm (junk.ip6Port t₃ t₄) ↔
      sm.CanMap (junk.ip6Port t₃ t₄) sm.ip6srv_cur_) ∧
    (∀ junk t₄ t₅ (q : Parser τ), LineHandled (SIPParser.via junk t₄ t₅ q) q sm (junk.ip6Port t₄ t₅) ↔
      sm.CanMap (junk.ip6Port t₄ t₅) sm.ip6srv_cur_) ∧
    (∀ junk t₇ t₉ (q : Parser τ), LineHandled (SIPParser.contact junk t₇ t₉ q) q sm (junk.ip6Port t₇ t₉) ↔
      sm.CanMap (junk.ip6Port t₇ t₉) sm.ip6srv_cur_) ∧
    (∀ junk t₄ q, LineHandled (SIPParser.media junk t₄ q) q sm (junk.ip6Port q.st.c_ip_ t₄) ↔
      (0 < q.st.c_ip_.s.length → sm.CanMap (junk.ip6Port q.st.c_ip_ t₄) sm.ip6srv_cur_)) :=
  ⟨fun _ _ hp ↦ packet_handled_iff hmode hp, eprt_handled,
    fun junk t₄ t₅ q ↦ mapTokens_handled junk t₄ t₅ false q,
    fun junk t₇ t₉ q ↦ mapTokens_handled junk t₇ t₉ false q, media_handled⟩

theorem exhaustion_handled_start : ∃ p : Packet, p.In6 ∧
    PacketHandled (NAT.new 0) (exampleConf : StateManager Unit) p := by
  obtain ⟨p, hp, -⟩ := Packet.exists_in6 clientA serverS 0 0
  refine ⟨p, hp, ((exhaustion_handled_iff (τ := Unit) rfl).1 _ p hp.toReceived).mpr
    fun _ ↦ .inr exampleConf_pool_ne⟩

end Nat64Alg
