import Nat64Alg.Events
import Mathlib.Data.Sym.Sym2
import Mathlib.Data.List.ReduceOption

namespace Nat64Alg

open Lib StateManager

variable {σ : Type} {sm sm' sm'' : StateManager σ} {pc : ParserClass σ}

/-- A call of `doMapping44` and the flow it returned. -/
structure Call44 where
  dest : IP4Port
  src : IP4Port
  flow : FlowPtr

def Call44.pair (c : Call44) : Sym2 IP4Port := s(c.dest, c.src)

def IP4Port.web (e : IP4Port) : Bool := ntohs e.getPort == 80

/-- Work of an analysis run that leaves the table of pairs alone, and no flow readdressed. -/
structure Apart (sm sm' : StateManager σ) : Prop where
  analysisMode : sm'.analysisMode = sm.analysisMode
  flow_cnt_ : sm'.flow_cnt_ = sm.flow_cnt_
  map44_ : sm'.map44_ = sm.map44_
  ip4p : sm.heap.map Flow.ip4p <+: sm'.heap.map Flow.ip4p

inductive Step44 : StateManager σ → Option Call44 → StateManager σ → Prop
  | call {sm sm' : StateManager σ} {c : Call44} :
      sm.doMapping44 c.dest c.src = (c.flow, sm') → Step44 sm (some c) sm'
  | apart {sm sm' : StateManager σ} : Apart sm sm' → Step44 sm none sm'

namespace Apart

theorem refl (sm : StateManager σ) : Apart sm sm := ⟨rfl, rfl, rfl, List.prefix_rfl⟩

theorem trans (h : Apart sm sm') (h' : Apart sm' sm'') : Apart sm sm'' :=
  ⟨h'.analysisMode.trans h.analysisMode, h'.flow_cnt_.trans h.flow_cnt_, h'.map44_.trans h.map44_,
    h.ip4p.trans h'.ip4p⟩

theorem setFlow {f : ℕ} {flow : Flow σ} (h : flow.addr = (sm.flowAt f).addr) :
    Apart sm (sm.setFlow f flow) := by
  refine ⟨rfl, rfl, rfl, ?_⟩
  have ha := congrArg (List.map (fun a : Key64 × Key46 ↦ a.2.1)) (addrs_setFlow h)
  simp only [addrs, List.map_map] at ha
  exact ha ▸ List.prefix_rfl

theorem doMapping (sm : StateManager σ) (k : IP6Port) (srv : IPv6Addr) : Apart sm (sm.doMapping k srv).2 := by
  rcases doMapping_cases (Prod.eta (sm.doMapping k srv)).symm with
    ⟨f, -, -, he⟩ | ⟨e, pool, -, -, -, he⟩ | ⟨-, -, -, he⟩
  · rw [he]
    exact refl sm
  · rw [he]
    exact ⟨rfl, rfl, rfl, by simp [create]⟩
  · rw [he]
    exact refl sm

theorem frame : Frame (@Apart σ) := ⟨refl, trans, fun ha _ ↦ setFlow ha, doMapping⟩

theorem doContent {nat : NAT} {p : Packet} {f : ℕ} {dest : DEST} {out : AppOut σ}
    (h : doContent pc nat sm p f dest = .ok out) : Apart sm out.sm := by
  obtain ⟨flow, q, hs, ⟨-, rfl⟩ | ⟨-, c, hc, rfl⟩⟩ := doContent_cases h
  · exact setFlow hs.addr
  have hcount : Apart (sm.setFlow f flow)
      ((sm.setFlow f flow).setFlow f (((sm.setFlow f flow).flowAt f).count q dest)) :=
    setFlow (count_frame _ dest).2.1
  have hchosen := ((setFlow hs.addr).trans hcount).trans (frame.chooseOps hc)
  rcases applyOps_cases nat c q f dest with he | ⟨parser, -, -, he⟩
  · rwa [he]
  · rw [he]
    have haddr := (addOffset_addr _ dest ((c.sm.flowAt f).modify pc c.sm.extra q c.ops parser).delta).trans
      (modify_addr (p := q) (c.sm.flowAt f) c.sm.extra pc c.ops parser)
    exact (hchosen.trans (setFlow haddr)).trans (frame.storeParser f c.protocol dest _)

end Apart

theorem find44 {k : Key44} {f : ℕ} : sm.map44_.find? k = some f ↔ (k, f) ∈ sm.map44_.entries := by
  refine ⟨fun h ↦ ?_, OrderedMap.find?_of_mem⟩
  obtain ⟨k', he, hm⟩ := OrderedMap.mem_of_find? h
  rwa [equiv44.mp he]

def StateManager.enter44 (sm : StateManager σ) (k : Key44) : StateManager σ :=
  { sm with
    flow_cnt_ := sm.flow_cnt_ + 1
    heap := sm.heap ++ [Flow.new44 k.1 k.2]
    map44_ := sm.map44_.insert k sm.heap.length }

/-- Everything a call of `doMapping44` can do: find the pair in one of its orientations, or
enter it in one that does not put the only web endpoint last. -/
theorem doMapping44_cases (sm : StateManager σ) (a b : IP4Port) :
    (∃ e ∈ sm.map44_.entries, s(e.1.1, e.1.2) = s(a, b) ∧ sm.doMapping44 a b = (some e.2, sm)) ∨
    (∀ e ∈ sm.map44_.entries, s(e.1.1, e.1.2) ≠ s(a, b)) ∧ ∃ k : Key44, s(k.1, k.2) = s(a, b) ∧
      (k.2.web = true → k.1.web = true) ∧
      sm.doMapping44 a b = (some sm.heap.length, sm.enter44 k) := by
  unfold doMapping44
  cases h₁ : sm.map44_.find? (a, b) with
  | some f => exact .inl ⟨((a, b), f), find44.mp h₁, rfl, rfl⟩
  | none =>
    cases h₂ : sm.map44_.find? (b, a) with
    | some f => exact .inl ⟨((b, a), f), find44.mp h₂, Sym2.eq_swap, rfl⟩
    | none =>
      refine .inr ⟨fun e he hs ↦ ?_, ?_⟩
      · obtain ⟨⟨k₁, k₂⟩, f⟩ := e
        rcases Sym2.eq_iff.mp hs with ⟨rfl, rfl⟩ | ⟨rfl, rfl⟩
        · exact absurd (find44.mpr he) (by simp [h₁])
        · exact absurd (find44.mpr he) (by simp [h₂])
      · refine ⟨_, ?_, ?_, rfl⟩
        · split
          · exact Sym2.eq_swap
          · rfl
        · split
          case isTrue h => exact fun _ ↦ (Bool.and_eq_true_iff.mp h).1
          case isFalse h =>
            unfold IP4Port.web
            revert h
            cases ntohs b.getPort == 80 <;> cases hb : ntohs a.getPort == 80 <;> simp_all

/-- The entries of the table are the pairs seen, each in one orientation and with a flow of its own. -/
structure Paired (cs : List Call44) (sm : StateManager σ) : Prop where
  analysisMode : sm.analysisMode = true
  flow_cnt_ : sm.flow_cnt_ = sm.map44_.entries.length
  pairs : (sm.map44_.entries.map (fun e ↦ s(e.1.1, e.1.2))).Nodup
  flows : (sm.map44_.entries.map Prod.snd).Nodup
  ip4p : ∀ e ∈ sm.map44_.entries, (sm.heap.map Flow.ip4p)[e.2]? = some e.1.1
  web : ∀ e ∈ sm.map44_.entries, e.1.2.web = true → e.1.1.web = true
  called : ∀ c ∈ cs, ∃ e ∈ sm.map44_.entries, s(e.1.1, e.1.2) = c.pair ∧ c.flow = some e.2
  made : ∀ e ∈ sm.map44_.entries, ∃ c ∈ cs, c.pair = s(e.1.1, e.1.2)

namespace Paired

variable {cs : List Call44}

theorem start (prefix_ : IPv6Addr) (extra : EXTRAType) (protocols : OrderedMap String Protocol nameLt)
    (ips : List IPv4Addr) :
    Paired [] { (configured prefix_ extra protocols ips : StateManager σ) with analysisMode := true } := by
  have hempty : ∀ sm : StateManager σ, sm.flow_cnt_ = 0 ∧ sm.map44_ = .empty →
      (ips.foldl addIPv4Pool sm).flow_cnt_ = 0 ∧ (ips.foldl addIPv4Pool sm).map44_ = .empty := by
    induction ips with
    | nil => exact fun _ h ↦ h
    | cons ip ips ih => exact fun sm h ↦ ih _ h
  obtain ⟨hcnt, hmap⟩ := hempty (StateManager.start prefix_ extra protocols) ⟨rfl, rfl⟩
  have hent : (configured prefix_ extra protocols ips : StateManager σ).map44_.entries = [] :=
    congrArg OrderedMap.entries hmap
  constructor <;> simp [hent]
  exact hcnt

theorem lookup (h : Paired cs sm) {e : Key44 × ℕ} (he : e ∈ sm.map44_.entries) {a b : IP4Port}
    (hs : s(e.1.1, e.1.2) = s(a, b)) : sm.doMapping44 a b = (some e.2, sm) := by
  rcases doMapping44_cases sm a b with ⟨e', he', hs', hd⟩ | ⟨hno, -⟩
  · rw [hd, List.inj_on_of_nodup_map h.pairs he' he (hs'.trans hs.symm)]
  · exact absurd hs (hno e he)

theorem lt (h : Paired cs sm) {e : Key44 × ℕ} (he : e ∈ sm.map44_.entries) : e.2 < sm.heap.length := by
  simpa using (List.getElem?_eq_some_iff.mp (h.ip4p e he)).1

theorem flowAt (h : Paired cs sm) {e : Key44 × ℕ} (he : e ∈ sm.map44_.entries) :
    (sm.flowAt e.2).ip4p = e.1.1 := by
  have hat := h.ip4p e he
  rw [List.getElem?_map, List.getElem?_eq_getElem (h.lt he)] at hat
  simpa [StateManager.flowAt, h.lt he] using hat

theorem server (h : Paired cs sm) {e : Key44 × ℕ} (he : e ∈ sm.map44_.entries) {w o : IP4Port}
    (hs : s(e.1.1, e.1.2) = s(w, o)) (hw : w.web = true) (ho : o.web = false) :
    (sm.flowAt e.2).ip4p = w := by
  rw [h.flowAt he]
  have hweb := h.web e he
  rcases Sym2.eq_iff.mp hs with ⟨h₁, -⟩ | ⟨h₁, h₂⟩
  · exact h₁
  · rw [h₁, h₂] at hweb
    simp [hweb hw] at ho

theorem apart (h : Paired cs sm) (ha : Apart sm sm') : Paired cs sm' := by
  obtain ⟨h₁, h₂, h₃, h₄, h₅, h₆, h₇, h₈⟩ := h
  refine ⟨ha.analysisMode.trans h₁, ?_, ?_, ?_, ?_, ?_, ?_, ?_⟩ <;> rw [ha.map44_]
  · exact ha.flow_cnt_.trans h₂
  · exact h₃
  · exact h₄
  · obtain ⟨t, ht⟩ := ha.ip4p
    intro e he
    rw [← ht, List.getElem?_append_left (List.getElem?_eq_some_iff.mp (h₅ e he)).1, h₅ e he]
  · exact h₆
  · exact h₇
  · exact h₈

theorem enter (h : Paired cs sm) {c : Call44} {k : Key44} (hk : s(k.1, k.2) = c.pair)
    (hno : ∀ e ∈ sm.map44_.entries, s(e.1.1, e.1.2) ≠ c.pair) (hweb : k.2.web = true → k.1.web = true)
    (hc : c.flow = some sm.heap.length) : Paired (cs ++ [c]) (sm.enter44 k) := by
  have habsent : sm.map44_.find? k = none := by
    cases hf : sm.map44_.find? k with
    | none => rfl
    | some f => exact absurd hk (hno _ (find44.mp hf))
  have hperm := OrderedMap.perm_insert sm.heap.length habsent
  have hmem : ∀ e, e ∈ (sm.enter44 k).map44_.entries ↔ e = (k, sm.heap.length) ∨ e ∈ sm.map44_.entries :=
    fun e ↦ hperm.mem_iff.trans List.mem_cons
  refine ⟨h.analysisMode, ?_, ?_, ?_, ?_, ?_, ?_, ?_⟩
  · rw [enter44, hperm.length_eq, List.length_cons, h.flow_cnt_]
  · refine (hperm.map _).nodup_iff.mpr (List.nodup_cons.mpr ⟨?_, h.pairs⟩)
    rintro hin
    obtain ⟨e, he, hs⟩ := List.mem_map.mp hin
    exact hno e he (hs.trans hk)
  · refine (hperm.map _).nodup_iff.mpr (List.nodup_cons.mpr ⟨?_, h.flows⟩)
    intro hin
    obtain ⟨e, he, hs⟩ := List.mem_map.mp hin
    exact absurd (h.lt he) (by simp [hs])
  · intro e he
    rcases (hmem e).mp he with rfl | he
    · simp [enter44, Flow.new44, Flow.new]
    · have hat := h.ip4p e he
      rw [enter44, List.map_append, List.getElem?_append_left (List.getElem?_eq_some_iff.mp hat).1, hat]
  · intro e he
    rcases (hmem e).mp he with rfl | he
    · exact hweb
    · exact h.web e he
  · intro d hd
    rcases List.mem_append.mp hd with hd | hd
    · obtain ⟨e, he, hs⟩ := h.called d hd
      exact ⟨e, (hmem e).mpr (.inr he), hs⟩
    · rw [List.mem_singleton.mp hd]
      exact ⟨_, (hmem _).mpr (.inl rfl), hk, hc⟩
  · intro e he
    rcases (hmem e).mp he with rfl | he
    · exact ⟨c, by simp, hk.symm⟩
    · obtain ⟨d, hd, hs⟩ := h.made e he
      exact ⟨d, List.mem_append_left _ hd, hs⟩

theorem call (h : Paired cs sm) {c : Call44} (hd : sm.doMapping44 c.dest c.src = (c.flow, sm')) :
    Paired (cs ++ [c]) sm' := by
  rcases doMapping44_cases sm c.dest c.src with ⟨e, he, hs, hr⟩ | ⟨hno, k, hk, hweb, hr⟩
  · obtain ⟨hf, rfl⟩ := Prod.mk.inj (hd.symm.trans hr)
    refine ⟨h.analysisMode, h.flow_cnt_, h.pairs, h.flows, h.ip4p, h.web, fun d hd ↦ ?_, fun e' he' ↦ ?_⟩
    · rcases List.mem_append.mp hd with hd | hd
      · exact h.called d hd
      · rw [List.mem_singleton.mp hd]
        exact ⟨e, he, hs, hf⟩
    · obtain ⟨d, hd, hs⟩ := h.made e' he'
      exact ⟨d, List.mem_append_left _ hd, hs⟩
  · obtain ⟨hf, rfl⟩ := Prod.mk.inj (hd.symm.trans hr)
    exact h.enter hk hno hweb hf

theorem count (h : Paired cs sm) : sm.flow_cnt_ = (cs.map Call44.pair).toFinset.card := by
  have hset : (cs.map Call44.pair).toFinset = (sm.map44_.entries.map (fun e ↦ s(e.1.1, e.1.2))).toFinset := by
    ext z
    simp only [List.mem_toFinset, List.mem_map]
    refine ⟨?_, ?_⟩
    · rintro ⟨c, hc, rfl⟩
      obtain ⟨e, he, hs, -⟩ := h.called c hc
      exact ⟨e, he, hs⟩
    · rintro ⟨e, he, rfl⟩
      exact h.made e he
  rw [hset, List.toFinset_card_of_nodup h.pairs, List.length_map, h.flow_cnt_]

end Paired

theorem paired_of_run {prefix_ : IPv6Addr} {extra : EXTRAType} {protocols : OrderedMap String Protocol nameLt}
    {ips : List IPv4Addr} {ls : List (Option Call44)}
    (h : Run Step44 { configured prefix_ extra protocols ips with analysisMode := true } ls sm) :
    Paired ls.reduceOption sm := by
  refine h.history (I := fun ls sm ↦ Paired ls.reduceOption sm) ?_ (Paired.start prefix_ extra protocols ips)
  intro ls s l s' hp hs
  rw [List.reduceOption_append]
  cases hs with
  | call hd => exact hp.call hd
  | apart ha => simpa using hp.apart ha

def Packet.dest4 (p : Packet) : IP4Port := ⟨p.daddr4, p.getDestPort⟩

def Packet.src4 (p : Packet) : IP4Port := ⟨p.saddr4, p.getSourcePort⟩

/-- An IPv4 packet of a transport that flows are kept for. -/
structure Packet.Flowing (p : Packet) : Prop where
  transport : p.transport.isSome = true
  ipVersionBefore_ : p.ipVersionBefore_ ≠ 6

theorem getFlow_analysis {p : Packet} (hp : p.Flowing) (hmode : sm.analysisMode = true) :
    p.getFlow sm = sm.doMapping44 p.dest4 p.src4 := by
  obtain ⟨a, ha⟩ := Option.isSome_iff_exists.mp hp.transport
  unfold Packet.getFlow Packet.getFlowAt
  simp only [ha, if_neg hp.ipVersionBefore_, hmode, if_pos, Packet.dest4, Packet.src4, Packet.getDestPort,
    Packet.getSourcePort, Option.map_some, Option.getD_some]

theorem analysisDest_eq (flow : Flow σ) (p : Packet) :
    analysisDest flow p = if flow.ip4p = p.dest4 then .SERVER else .CLIENT := by
  unfold analysisDest IP4Port.eq Packet.dest4
  rcases flow.ip4p with ⟨⟨a⟩, b⟩
  rcases p.daddr4 with ⟨c⟩
  simp [IPv4Addr.getInt]

theorem doApp_analysis {p : Packet} {nat : NAT} {f : ℕ} (hp : p.Flowing) (hmode : sm.analysisMode = true)
    (hmode' : sm'.analysisMode = true) (hd : sm.doMapping44 p.dest4 p.src4 = (some f, sm')) :
    doApp pc nat sm p = doContent pc { nat with exttcpflow_ := some f } sm' p f (analysisDest (sm'.flowAt f) p) := by
  unfold doApp doAppFlow
  rw [getFlow_analysis hp hmode, hd]
  simp only [hmode', if_true]

theorem doApp_steps {p : Packet} {nat : NAT} {out : AppOut σ} (hp : p.Flowing) (hmode : sm.analysisMode = true)
    (h : doApp pc nat sm p = .ok out) : ∃ f, Run Step44 sm [some ⟨p.dest4, p.src4, some f⟩, none] out.sm := by
  rcases doMapping44_cases sm p.dest4 p.src4 with ⟨e, -, -, hd⟩ | ⟨-, k, -, -, hd⟩
  · rw [doApp_analysis hp hmode hmode hd] at h
    exact ⟨e.2, .cons (.call hd) (.one (.apart (Apart.doContent h)))⟩
  · rw [doApp_analysis hp hmode (by exact hmode) hd] at h
    exact ⟨_, .cons (.call hd) (.one (.apart (Apart.doContent h)))⟩

theorem Paired.direction {cs : List Call44} (h : Paired cs sm) {p : Packet} (hp : p.Flowing) (pc : ParserClass σ)
    (nat : NAT) : ∃ f sm' dest, sm.doMapping44 p.dest4 p.src4 = (some f, sm') ∧
      doApp pc nat sm p = doContent pc { nat with exttcpflow_ := some f } sm' p f dest ∧
      (p.dest4.web = true → p.src4.web = false → dest = .SERVER) ∧
      (p.src4.web = true → p.dest4.web = false → dest = .CLIENT) := by
  rcases hd : sm.doMapping44 p.dest4 p.src4 with ⟨r, sm'⟩
  have h' : Paired (cs ++ [⟨p.dest4, p.src4, r⟩]) sm' := h.call hd
  obtain ⟨e, he, hs, rfl⟩ := h'.called ⟨p.dest4, p.src4, r⟩ (by simp)
  refine ⟨e.2, sm', _, rfl, doApp_analysis hp h.analysisMode h'.analysisMode hd, fun hw ho ↦ ?_, fun hw ho ↦ ?_⟩
  · rw [analysisDest_eq, h'.server he hs hw ho, if_pos rfl]
  · rw [analysisDest_eq, h'.server he (hs.trans Sym2.eq_swap) hw ho, if_neg]
    intro heq
    exact absurd hw (by simp [show p.src4 = p.dest4 from heq, ho])

theorem doMapping44_identity {prefix_ : IPv6Addr} {extra : EXTRAType} {protocols : OrderedMap String Protocol nameLt}
    {ips : List IPv4Addr} {ls : List (Option Call44)}
    (h : Run Step44 { configured prefix_ extra protocols ips with analysisMode := true } ls sm) :
    (∀ c ∈ ls.reduceOption, c.flow ≠ none ∧ sm.doMapping44 c.dest c.src = (c.flow, sm) ∧
      sm.doMapping44 c.src c.dest = (c.flow, sm)) ∧
    (∀ c ∈ ls.reduceOption, ∀ d ∈ ls.reduceOption, c.flow = d.flow ↔ c.pair = d.pair) ∧
    sm.flow_cnt_ = (ls.reduceOption.map Call44.pair).toFinset.card ∧
    (∀ c ∈ ls.reduceOption, ∀ f w o, c.flow = some f → c.pair = s(w, o) → w.web = true → o.web = false →
      (sm.flowAt f).ip4p = w) ∧
    ∀ (pc : ParserClass σ) (nat : NAT) (p : Packet), p.Flowing → ∃ f sm' dest,
      sm.doMapping44 p.dest4 p.src4 = (some f, sm') ∧
      doApp pc nat sm p = doContent pc { nat with exttcpflow_ := some f } sm' p f dest ∧
      (p.dest4.web = true → p.src4.web = false → dest = .SERVER) ∧
      (p.src4.web = true → p.dest4.web = false → dest = .CLIENT) := by
  have hp := paired_of_run h
  refine ⟨fun c hc ↦ ?_, fun c hc d hd ↦ ?_, hp.count, fun c hc f w o hf hs hw ho ↦ ?_,
    fun pc nat p hflow ↦ hp.direction hflow pc nat⟩
  · obtain ⟨e, he, hs, hf⟩ := hp.called c hc
    rw [hf]
    exact ⟨by simp, hp.lookup he hs, hp.lookup he (hs.trans Sym2.eq_swap)⟩
  · obtain ⟨e, he, hs, hf⟩ := hp.called c hc
    obtain ⟨e', he', hs', hf'⟩ := hp.called d hd
    rw [hf, hf', ← hs, ← hs', Option.some.injEq]
    exact ⟨fun hfl ↦ by rw [List.inj_on_of_nodup_map hp.flows he he' hfl],
      fun hpr ↦ by rw [List.inj_on_of_nodup_map hp.pairs he he' hpr]⟩
  · obtain ⟨e, he, hs', hf'⟩ := hp.called c hc
    rw [hf] at hf'
    cases hf'
    exact hp.server he (hs'.trans hs) hw ho

/-- A pair seen first from the server's side. -/
theorem doMapping44_identity_reversed : ∃ sm : StateManager Unit,
    (∀ c ∈ [Call44.mk ⟨⟨1⟩, 5⟩ ⟨⟨2⟩, ntohs 80⟩ (some 0), ⟨⟨⟨2⟩, ntohs 80⟩, ⟨⟨1⟩, 5⟩, some 0⟩],
      sm.doMapping44 c.dest c.src = (c.flow, sm)) ∧ sm.flow_cnt_ = 1 := by
  obtain ⟨sm, h⟩ : ∃ sm : StateManager Unit, Run Step44
    { configured ⟨⟨0, 0, 0, 0⟩⟩ .NONE .empty [] with analysisMode := true }
      [some ⟨⟨⟨1⟩, 5⟩, ⟨⟨2⟩, ntohs 80⟩, some 0⟩, none, some ⟨⟨⟨2⟩, ntohs 80⟩, ⟨⟨1⟩, 5⟩, some 0⟩] sm :=
    ⟨_, .cons (.call rfl) (.cons (.apart (Apart.refl _)) (.one (.call rfl)))⟩
  obtain ⟨h₁, -, h₂, -⟩ := doMapping44_identity h
  exact ⟨sm, fun c hc ↦ (h₁ c hc).2.1, h₂.trans (by decide)⟩

end Nat64Alg
