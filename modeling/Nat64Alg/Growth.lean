import Nat64Alg.Tables
import Nat64Alg.Translate

namespace Nat64Alg.StateManager

open Lib

variable {σ : Type} {ips : List IPv4Addr} {sm sm' sm'' : StateManager σ}

/-- What no step of the translator undoes: mappings stay, the tables stay coherent
and the configuration is fixed. -/
structure Grown (ips : List IPv4Addr) (sm sm' : StateManager σ) : Prop where
  coherent : Coherent ips sm → Coherent ips sm'
  addrs : sm.addrs <+: sm'.addrs
  analysisMode : sm'.analysisMode = sm.analysisMode
  extra : sm'.extra = sm.extra
  prefix_ : sm'.prefix_ = sm.prefix_
  protocols : sm'.protocols = sm.protocols
  range : ∀ ip, (sm'.isAddrInRange4 ip).1 = (sm.isAddrInRange4 ip).1

namespace Grown

theorem refl (sm : StateManager σ) : Grown ips sm sm :=
  ⟨id, List.prefix_rfl, rfl, rfl, rfl, rfl, fun _ ↦ rfl⟩

theorem trans (h : Grown ips sm sm') (h' : Grown ips sm' sm'') : Grown ips sm sm'' :=
  ⟨h'.coherent ∘ h.coherent, h.addrs.trans h'.addrs, h'.analysisMode.trans h.analysisMode,
    h'.extra.trans h.extra, h'.prefix_.trans h.prefix_, h'.protocols.trans h.protocols,
    fun ip ↦ (h'.range ip).trans (h.range ip)⟩

theorem doMapping (hips : (ips.flatMap poolOf).Nodup) (sm : StateManager σ) (k : IP6Port) (srv : IPv6Addr) :
    Grown ips sm (sm.doMapping k srv).2 := by
  rcases doMapping_cases (Prod.eta (sm.doMapping k srv)).symm with
    ⟨f, -, -, he⟩ | ⟨e, pool, hk, hp, -, he⟩ | ⟨-, -, -, he⟩
  · rw [he]
    exact refl sm
  · rw [he]
    exact ⟨fun h ↦ h.create hk hp hips, create_addrs sm (k, srv) e pool ▸ List.prefix_append _ _,
      rfl, rfl, rfl, rfl, fun _ ↦ rfl⟩
  · rw [he]
    exact refl sm

end Grown

theorem addrs_setFlow {f : ℕ} {flow : Flow σ} (h : flow.addr = (sm.flowAt f).addr) :
    (sm.setFlow f flow).addrs = sm.addrs := by
  unfold addrs setFlow
  refine List.ext_getElem? (fun g ↦ ?_)
  rw [List.map_set]
  rcases eq_or_ne f g with rfl | hne
  · rw [List.getElem?_set_self', h, flowAt]
    cases hg : sm.heap[f]? <;> simp [hg]
  · rw [List.getElem?_set_ne hne]

theorem Grown.setFlow {f : ℕ} {flow : Flow σ} (h : flow.addr = (sm.flowAt f).addr) :
    Grown ips sm (sm.setFlow f flow) := by
  have ha := addrs_setFlow h
  refine ⟨fun hc ↦ ⟨?_, ?_, ?_, ?_⟩, ha ▸ List.prefix_rfl, rfl, rfl, rfl, rfl, fun _ ↦ rfl⟩
  · rw [ha]; exact hc.table64
  · rw [ha]; exact hc.table46
  · rw [ha]; exact hc.server
  · rw [ha]; exact hc.pool

theorem Grown.setTid (f : ℕ) (tid : Int) : Grown ips sm (sm.setTid f tid) := by
  unfold StateManager.setTid
  split
  · exact Grown.setFlow rfl
  · exact Grown.refl sm

theorem flowAt_setFlow_ne {f g : ℕ} {flow : Flow σ} (h : f ≠ g) :
    (sm.setFlow f flow).flowAt g = sm.flowAt g := by
  simp [flowAt, StateManager.setFlow, List.getElem?_set_ne h]

theorem flowAt_setFlow {f : ℕ} {flow : Flow σ} (h : f < sm.heap.length) :
    (sm.setFlow f flow).flowAt f = flow := by
  simp [flowAt, StateManager.setFlow, h]

theorem flowAt_setFlow_congr {α : Type} (part : Flow σ → α) {f : ℕ} {flow : Flow σ}
    (h : part flow = part (sm.flowAt f)) (g : ℕ) : part ((sm.setFlow f flow).flowAt g) = part (sm.flowAt g) := by
  rcases eq_or_ne f g with rfl | hne
  · rcases lt_or_ge f sm.heap.length with hf | hf
    · rw [flowAt_setFlow hf, h]
    · simp [StateManager.setFlow, List.set_eq_of_length_le hf]
  · rw [flowAt_setFlow_ne hne]

theorem Grown.addr (h : Grown ips sm sm') {a : Key64 × Key46} {f : ℕ} (ha : sm.addrs[f]? = some a) :
    sm'.addrs[f]? = some a := by
  obtain ⟨t, ht⟩ := h.addrs
  rw [← ht, List.getElem?_append_left (List.getElem?_eq_some_iff.mp ha).1, ha]

theorem Grown.flow_addr (h : Grown ips sm sm') {g : ℕ} (hg : g < sm.heap.length) :
    (sm'.flowAt g).addr = (sm.flowAt g).addr := flowAt_addr (h.addr (sm.addrs_getElem? hg))

theorem Grown.ip6p (h : Grown ips sm sm') {g : ℕ} (hg : g < sm.heap.length) :
    (sm'.flowAt g).ip6p = (sm.flowAt g).ip6p := by
  have haddr := h.flow_addr hg
  exact congrArg (fun a : Key64 × Key46 ↦ a.1.1) haddr

theorem Grown.ip6srv (h : Grown ips sm sm') {g : ℕ} (hg : g < sm.heap.length) :
    (sm'.flowAt g).ip6srv = (sm.flowAt g).ip6srv := by
  have haddr := h.flow_addr hg
  exact congrArg (fun a : Key64 × Key46 ↦ a.1.2) haddr

theorem Grown.ip4p (h : Grown ips sm sm') {g : ℕ} (hg : g < sm.heap.length) :
    (sm'.flowAt g).ip4p = (sm.flowAt g).ip4p := by
  have haddr := h.flow_addr hg
  exact congrArg (fun a : Key64 × Key46 ↦ a.2.1) haddr

theorem Grown.find64 (h : Grown ips sm sm') (hc : Coherent ips sm) {k : Key64} {f : ℕ}
    (hk : sm.map64_.find? k = some f) : sm'.map64_.find? k = some f := by
  obtain ⟨a, ha, hp⟩ := hc.of_find64 hk
  rw [sm'.map64_.find?_congr (equiv64.mpr hp.symm)]
  exact (h.coherent hc).find64 (h.addr ha)

theorem Grown.find46 (h : Grown ips sm sm') (hc : Coherent ips sm) {k : Key46} {f : ℕ}
    (hk : sm.map46_.find? k = some f) : sm'.map46_.find? k = some f := by
  obtain ⟨a, ha, rfl⟩ := hc.of_find46 hk
  exact (h.coherent hc).find46 (h.addr ha)

theorem Grown.lt (h : Grown ips sm sm') {f : ℕ} (hf : f < sm.heap.length) : f < sm'.heap.length := by
  have := h.addrs.length_le
  simp only [StateManager.addrs, List.length_map] at this
  omega

theorem Grown.setCurIPv6SrvAddr (sm : StateManager σ) (a : IPv6Addr) :
    Grown ips sm (sm.setCurIPv6SrvAddr a) :=
  ⟨fun h ↦ ⟨h.table64, h.table46, h.server, h.pool⟩, List.prefix_rfl, rfl, rfl, rfl, rfl, fun _ ↦ rfl⟩

theorem Grown.isAddrInRange4 (sm : StateManager σ) (ip : IPv4Addr) :
    Grown ips sm (sm.isAddrInRange4 ip).2 :=
  ⟨fun h ↦ ⟨h.table64, h.table46, h.server, h.pool⟩, List.prefix_rfl, rfl, rfl, rfl, rfl, fun ip' ↦ by
    simp only [StateManager.isAddrInRange4, OrderedMap.index_fst, OrderedMap.find?_index]⟩

section Translate

theorem begin_v6 {nat : NAT} {p : Packet} (hver : p.getIPVersion = 4) {f : ℕ}
    (hd : sm.doMapping ⟨p.saddr6, p.getSourcePort⟩ p.daddr6 = (some f, sm')) : nat.begin sm p =
      .ok (0, { nat with ip4p_ := (sm'.flowAt f).ip4p }, (sm'.setTid f nat.tid).setCurIPv6SrvAddr p.daddr6) := by
  unfold NAT.begin
  rw [if_pos hver, hd]

theorem begin_v6_null {nat : NAT} {p : Packet} (hver : p.getIPVersion = 4)
    (hd : sm.doMapping ⟨p.saddr6, p.getSourcePort⟩ p.daddr6 = (none, sm')) :
    nat.begin sm p = .error .nullFlow := by
  unfold NAT.begin
  rw [if_pos hver, hd]

theorem begin_v4 {nat : NAT} {p : Packet} (hver : ¬p.getIPVersion = 4) {f : ℕ}
    (hf : sm.getMapping4 ⟨p.daddr4, p.getDestPort⟩ p.saddr4 = some f) :
    nat.begin sm p = .ok (0, { nat with ip6p_ := (sm.flowAt f).ip6p }, sm) := by
  unfold NAT.begin
  rw [if_neg hver, hf]

theorem begin_v4_none {nat : NAT} {p : Packet} (hver : ¬p.getIPVersion = 4)
    (hf : sm.getMapping4 ⟨p.daddr4, p.getDestPort⟩ p.saddr4 = none) : nat.begin sm p = .ok (1, nat, sm) := by
  unfold NAT.begin
  rw [if_neg hver, hf]

theorem begin_cases {nat nat' : NAT} {p : Packet} {rc : Int} (h : nat.begin sm p = .ok (rc, nat', sm')) :
    (p.getIPVersion = 4 ∧ ∃ f sm₁, sm.doMapping ⟨p.saddr6, p.getSourcePort⟩ p.daddr6 = (some f, sm₁) ∧ rc = 0 ∧
      nat' = { nat with ip4p_ := (sm₁.flowAt f).ip4p } ∧
      sm' = (sm₁.setTid f nat.tid).setCurIPv6SrvAddr p.daddr6) ∨
    (¬p.getIPVersion = 4 ∧ ∃ f, sm.getMapping4 ⟨p.daddr4, p.getDestPort⟩ p.saddr4 = some f ∧ rc = 0 ∧
      nat' = { nat with ip6p_ := (sm.flowAt f).ip6p } ∧ sm' = sm) ∨
    (¬p.getIPVersion = 4 ∧ sm.getMapping4 ⟨p.daddr4, p.getDestPort⟩ p.saddr4 = none ∧ rc = 1 ∧ nat' = nat ∧
      sm' = sm) := by
  by_cases hver : p.getIPVersion = 4
  · rcases hd : sm.doMapping ⟨p.saddr6, p.getSourcePort⟩ p.daddr6 with ⟨r, sm₁⟩
    cases r with
    | some f =>
      rw [begin_v6 hver hd] at h
      cases h
      exact .inl ⟨hver, f, sm₁, rfl, rfl, rfl, rfl⟩
    | none =>
      rw [begin_v6_null hver hd] at h
      cases h
  · cases hf : sm.getMapping4 ⟨p.daddr4, p.getDestPort⟩ p.saddr4 with
    | some f =>
      rw [begin_v4 hver hf] at h
      cases h
      exact .inr (.inl ⟨hver, f, rfl, rfl, rfl, rfl⟩)
    | none =>
      rw [begin_v4_none hver hf] at h
      cases h
      exact .inr (.inr ⟨hver, rfl, rfl, rfl, rfl⟩)

theorem begin_grown (hips : (ips.flatMap poolOf).Nodup) {nat nat' : NAT} {p : Packet} {rc : Int}
    (h : nat.begin sm p = .ok (rc, nat', sm')) : Grown ips sm sm' := by
  rcases begin_cases h with ⟨-, f, sm₁, hd, -, -, rfl⟩ | ⟨-, f, -, -, -, rfl⟩ | ⟨-, -, -, -, rfl⟩
  · have hg := Grown.doMapping hips sm ⟨p.saddr6, p.getSourcePort⟩ p.daddr6
    rw [hd] at hg
    exact (hg.trans (Grown.setTid f nat.tid)).trans (Grown.setCurIPv6SrvAddr _ _)
  · exact Grown.refl _
  · exact Grown.refl _

theorem inRange_grown {p : Packet} {ok : Bool} (h : NAT.inRange sm p = .ok (ok, sm')) :
    Grown ips sm sm' := by
  unfold NAT.inRange at h
  split at h
  · cases h
    exact Grown.refl _
  · split at h
    · split at h <;> cases h
      exact Grown.refl _
    · split at h <;> cases h
      exact Grown.isAddrInRange4 _ _

theorem inRange_flowAt {p : Packet} {ok : Bool} (h : NAT.inRange sm p = .ok (ok, sm')) (g : ℕ) :
    sm'.flowAt g = sm.flowAt g := by
  unfold NAT.inRange at h
  split at h
  · cases h
    rfl
  · split at h
    · split at h <;> cases h
      rfl
    · split at h <;> cases h
      rfl

theorem addOffset_addr (f : Flow σ) (d : DEST) (n : Int) : (f.addOffset d n).addr = f.addr := by
  cases d <;> rfl

theorem doExtraTCP_grown (nat : NAT) (sm : StateManager σ) (p : Packet) :
    Grown ips sm (nat.doExtraTCP sm p).2.1 := by
  unfold NAT.doExtraTCP
  split
  · dsimp only
    split
    · exact Grown.refl _
    · exact Grown.setFlow (addOffset_addr _ _ _)
  · exact Grown.refl _

theorem send_grown {nat : NAT} {p p' : Packet} {sent : List Sent}
    (h : nat.send sm p = .ok (sm', p', sent)) : Grown ips sm sm' := by
  unfold NAT.send at h
  dsimp only at h
  split at h
  · cases h
    exact Grown.refl _
  · split at h
    · split at h
      · cases h
      · cases h
        exact doExtraTCP_grown nat sm p
    · cases h
      exact Grown.refl _

/-- Everything a call of `translate` can do outside analysis mode: refuse the packet
for its address or protocol, refuse it in `begin`, or go on to the sockets. -/
theorem translateWith_cases {app : NAT → StateManager σ → Packet → Except Fault (AppOut σ)} {nat : NAT}
    {p : Packet} {t : NAT.Translated σ} (hmode : sm.analysisMode = false)
    (h : nat.translateWith app sm p = .ok t) :
    ∃ ok sm₁, NAT.inRange sm p = .ok (ok, sm₁) ∧
      (¬(ok = true ∧ (p.isTCP || p.isUDP) = true) ∧ t = ⟨0, nat, sm₁, p, [], [], none⟩ ∨
      (ok = true ∧ (p.isTCP || p.isUDP) = true) ∧ ∃ rc nat₁ sm₂, nat.begin sm₁ p = .ok (rc, nat₁, sm₂) ∧
        (rc ≠ 0 ∧ t = ⟨0, nat₁, sm₂, p, [], [], none⟩ ∨
        rc = 0 ∧ ∃ a, app { nat₁ with modified_ := false } sm₂ p = .ok a ∧
          (a.sm.analysisMode = true ∧ t = ⟨1, a.nat, a.sm, a.pkt, [], a.asked, a.edit⟩ ∨
          a.sm.analysisMode = false ∧ ∃ sm₃ p₃ sent,
            a.nat.send a.sm (a.nat.rewrite a.sm a.pkt) = .ok (sm₃, p₃, sent) ∧
            t = ⟨1, a.nat, sm₃, p₃, sent, a.asked, a.edit⟩))) := by
  unfold NAT.translateWith at h
  obtain ⟨⟨ok, sm₁⟩, hr, h⟩ := ok_of_bind h
  have hmode₁ : sm₁.analysisMode = false := ((@inRange_grown _ [] _ _ _ _ hr).analysisMode).trans hmode
  refine ⟨ok, sm₁, hr, ?_⟩
  dsimp only at h
  split at h
  case isTrue hn =>
    cases h
    refine .inl ⟨?_, rfl⟩
    rintro ⟨rfl, hp⟩
    simp_all
  case isFalse hn =>
    have hok : ok = true ∧ (p.isTCP || p.isUDP) = true := by
      revert hn
      cases ok <;> cases p.isTCP <;> cases p.isUDP <;> simp
    rw [hmode₁] at h
    obtain ⟨⟨rc, nat₁, sm₂⟩, hb, h⟩ := ok_of_bind h
    refine .inr ⟨hok, rc, nat₁, sm₂, hb, ?_⟩
    dsimp only at h
    split at h
    case isTrue hrc =>
      cases h
      exact .inl ⟨hrc, rfl⟩
    case isFalse hrc =>
      obtain ⟨a, ha, h⟩ := ok_of_bind h
      refine .inr ⟨not_not.mp hrc, a, ha, ?_⟩
      split at h
      case isTrue hmode₂ =>
        cases h
        exact .inl ⟨hmode₂, rfl⟩
      case isFalse hmode₂ =>
        obtain ⟨⟨sm₃, p₃, sent⟩, hs, h⟩ := ok_of_bind h
        cases h
        exact .inr ⟨by simpa using hmode₂, sm₃, p₃, sent, hs, rfl⟩

theorem translateWith_ok {app : NAT → StateManager σ → Packet → Except Fault (AppOut σ)} {nat nat₁ : NAT}
    {p p₃ : Packet} {sm₁ sm₂ sm₃ : StateManager σ} {a : AppOut σ} {sent : List Sent}
    (hr : NAT.inRange sm p = .ok (true, sm₁)) (hp : (p.isTCP || p.isUDP) = true)
    (hmode : sm₁.analysisMode = false) (hb : nat.begin sm₁ p = .ok (0, nat₁, sm₂))
    (ha : app { nat₁ with modified_ := false } sm₂ p = .ok a) (hmode₂ : a.sm.analysisMode = false)
    (hs : a.nat.send a.sm (a.nat.rewrite a.sm a.pkt) = .ok (sm₃, p₃, sent)) :
    nat.translateWith app sm p = .ok ⟨1, a.nat, sm₃, p₃, sent, a.asked, a.edit⟩ := by
  have hn : ¬((!true || !p.isTCP && !p.isUDP) = true) := by
    revert hp
    cases p.isTCP <;> cases p.isUDP <;> simp
  unfold NAT.translateWith
  rw [hr]
  simp only [bind, Except.bind, if_neg hn, hmode, hb]
  rw [if_neg (by simp), if_neg (by simp), ha]
  simp only [hmode₂, hs]
  rfl

theorem translateWith_grown (hips : (ips.flatMap poolOf).Nodup)
    {app : NAT → StateManager σ → Packet → Except Fault (AppOut σ)} {nat : NAT} {p : Packet}
    {t : NAT.Translated σ} (hmode : sm.analysisMode = false)
    (happ : ∀ nat s a, s.analysisMode = false → app nat s p = .ok a → Grown ips s a.sm)
    (h : nat.translateWith app sm p = .ok t) : Grown ips sm t.sm := by
  obtain ⟨ok, sm₁, hr, h⟩ := translateWith_cases hmode h
  have h₁ : Grown ips sm sm₁ := inRange_grown hr
  rcases h with ⟨-, rfl⟩ | ⟨-, rc, nat₁, sm₂, hb, h⟩
  · exact h₁
  have h₂ := h₁.trans (begin_grown hips hb)
  rcases h with ⟨-, rfl⟩ | ⟨-, a, ha, h⟩
  · exact h₂
  have h₃ := h₂.trans (happ _ _ _ (h₂.analysisMode.trans hmode) ha)
  rcases h with ⟨-, rfl⟩ | ⟨-, sm₃, p₃, sent, hs, rfl⟩
  · exact h₃
  · exact h₃.trans (send_grown hs)

theorem translate_grown (hips : (ips.flatMap poolOf).Nodup) {nat : NAT} {p : Packet}
    {t : NAT.Translated σ} (hmode : sm.analysisMode = false) (h : nat.translate sm p = .ok t) :
    Grown ips sm t.sm :=
  translateWith_grown hips hmode (fun _ _ a _ ha ↦ by cases ha; exact Grown.refl _) h

end Translate

end Nat64Alg.StateManager
