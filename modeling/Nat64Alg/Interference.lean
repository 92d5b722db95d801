import Nat64Alg.Twins

namespace Nat64Alg

open Lib StateManager

variable {σ : Type} {pc : ParserClass σ} {ips : List IPv4Addr} {sm sm' sm'' s t : StateManager σ} {c : UInt16}
  {allot : UInt16 → IP4Port}

/-- The flow that a client port has, whatever address and server it is asked for with. -/
def StateManager.ofPort (sm : StateManager σ) (c : UInt16) : FlowPtr :=
  sm.getMapping6 ⟨⟨⟨0, 0, 0, 0⟩⟩, c⟩ ⟨⟨0, 0, 0, 0⟩⟩

def StateManager.view (sm : StateManager σ) (c : UInt16) : Option (Flow σ) := (sm.ofPort c).map sm.flowAt

/-- Each flow made so far has the IPv4 endpoint that is its client port's. -/
def Allots (allot : UInt16 → IP4Port) (sm : StateManager σ) : Prop :=
  ∀ f < sm.heap.length, (sm.flowAt f).ip4p = allot (sm.flowAt f).ip6p.port_

instance (allot : UInt16 → IP4Port) (sm : StateManager σ) : Decidable (Allots allot sm) :=
  inferInstanceAs (Decidable (∀ f < sm.heap.length, _))

theorem getMapping6_eq (sm : StateManager σ) (k : IP6Port) (a : IPv6Addr) : sm.getMapping6 k a = sm.ofPort k.port_ := by
  have hport : k.port_ = (⟨⟨⟨0, 0, 0, 0⟩⟩, k.port_⟩ : IP6Port).port_ := rfl
  exact getMapping6_congr sm hport a _

theorem ofPort_iff (hc : Coherent ips sm) {f : ℕ} :
    sm.ofPort c = some f ↔ f < sm.heap.length ∧ (sm.flowAt f).ip6p.port_ = c := hc.getMapping6_iff

theorem view_some {f : ℕ} (h : sm.ofPort c = some f) : sm.view c = some (sm.flowAt f) := by
  rw [StateManager.view, h, Option.map_some]

theorem Allots.before (h : Allots allot sm') (hg : Grown ips sm sm') : Allots allot sm := by
  intro f hf
  have hend := h f (hg.lt hf)
  rwa [hg.ip4p hf, hg.ip6p hf] at hend

section Aside

theorem view_setFlow (hc : Coherent ips sm) {f : ℕ} {flow : Flow σ} (hf : (sm.flowAt f).ip6p.port_ ≠ c) :
    (sm.setFlow f flow).view c = sm.view c := by
  have hptr : (sm.setFlow f flow).ofPort c = sm.ofPort c := rfl
  unfold StateManager.view
  rw [hptr]
  cases hg : sm.ofPort c with
  | none => rfl
  | some g =>
    have hne : f ≠ g := by
      rintro rfl
      exact hf ((ofPort_iff hc).mp hg).2
    rw [Option.map_some, Option.map_some, flowAt_setFlow_ne hne]

theorem view_doMapping (hc : Coherent ips sm) {k : IP6Port} {srv : IPv6Addr} (hk : k.port_ ≠ c) :
    (sm.doMapping k srv).2.view c = sm.view c := by
  rcases doMapping_cases (Prod.eta (sm.doMapping k srv)).symm with ⟨f, -, -, he⟩ | ⟨e, pool, -, -, -, he⟩ |
    ⟨-, -, -, he⟩
  · rw [he]
  · rw [he]
    have hptr : (sm.create (k, srv) e pool).ofPort c = sm.ofPort c :=
      (sm.getMapping6_create (k, srv) e pool _ _).trans (if_neg hk.symm)
    unfold StateManager.view
    rw [hptr]
    cases hg : sm.ofPort c with
    | none => rfl
    | some g =>
      have hlt := ((ofPort_iff hc).mp hg).1
      rw [Option.map_some, Option.map_some, flowAt_create, if_neg hlt.ne]
  · rw [he]

def Call.Avoids (c : UInt16) : Call → Prop
  | .doMapping k => k.port_ ≠ c
  | .setIgnore => True

instance (c : UInt16) (x : Call) : Decidable (x.Avoids c) :=
  match x with
  | .doMapping k => inferInstanceAs (Decidable (k.port_ ≠ c))
  | .setIgnore => isTrue trivial

/-- The flow a grammar was given last is not that of the client port. -/
def Beside (c : UInt16) (x : StateManager σ × FlowPtr) : Prop :=
  ∀ a, x.2 = some a → a < x.1.heap.length ∧ (x.1.flowAt a).ip6p.port_ ≠ c

theorem answer_aside (hips : (ips.flatMap poolOf).Nodup) {x : StateManager σ × FlowPtr} {call : Call}
    (hc : Coherent ips x.1) (hx : Beside c x) (hcall : call.Avoids c) :
    Grown ips x.1 (answer call x).2.1 ∧ (answer call x).2.1.view c = x.1.view c ∧ Beside c (answer call x).2 := by
  cases call with
  | doMapping k =>
    have hg := Grown.doMapping hips x.1 k x.1.ip6srv_cur_
    refine ⟨hg, view_doMapping hc hcall, fun a ha ↦ ?_⟩
    have hmap : x.1.doMapping k x.1.ip6srv_cur_ = (some a, (x.1.doMappingCur k).2) := Prod.ext ha rfl
    obtain ⟨-, hlt, hport, -⟩ := doMapping_flow hips hc hmap
    exact ⟨hlt, hport.trans_ne hcall⟩
  | setIgnore =>
    unfold Nat64Alg.answer
    dsimp only
    split
    case h_1 f hf =>
      obtain ⟨hlt, hport⟩ := hx f hf
      have hg : Grown ips x.1 (x.1.setFlow f (x.1.flowAt f).setIgnore) := .setFlow rfl
      refine ⟨hg, view_setFlow hc hport, fun a ha ↦ ?_⟩
      obtain ⟨hlt', hport'⟩ := hx a ha
      exact ⟨hg.lt hlt', (congrArg IP6Port.port_ (hg.ip6p hlt')).trans_ne hport'⟩
    case h_2 => exact ⟨.refl _, rfl, hx⟩

/-- What a turn of the flow `f` does, seen from another client port. -/
structure Aside (ips : List IPv4Addr) (c : UInt16) (f : ℕ) (sm : StateManager σ) (log : Asked) (sm' : StateManager σ) :
    Prop where
  grown : Grown ips sm sm'
  view : Coherent ips sm → f < sm.heap.length → (sm.flowAt f).ip6p.port_ ≠ c → (∀ x ∈ log, x.1.Avoids c) →
    sm'.view c = sm.view c

namespace Aside

variable {f : ℕ}

theorem setFlow {flow : Flow σ} (ha : flow.addr = (sm.flowAt f).addr) : Aside ips c f sm [] (sm.setFlow f flow) :=
  ⟨.setFlow ha, fun hc _ hport _ ↦ view_setFlow hc hport⟩

theorem trans {log log' : Asked} (h : Aside ips c f sm log sm') (h' : Aside ips c f sm' log' sm'') :
    Aside ips c f sm (log ++ log') sm'' := by
  refine ⟨h.grown.trans h'.grown, fun hc hf hport hlog ↦ ?_⟩
  have hport' : (sm'.flowAt f).ip6p.port_ = (sm.flowAt f).ip6p.port_ := congrArg IP6Port.port_ (h.grown.ip6p hf)
  rw [List.forall_mem_append] at hlog
  rw [h'.view (h.grown.coherent hc) (h.grown.lt hf) (hport'.trans_ne hport) hlog.2, h.view hc hf hport hlog.1]

theorem run (hips : (ips.flatMap poolOf).Nodup) {α : Type} {prog : Script α} {a : α} {r : FlowPtr} {log : Asked}
    (h : prog.run Nat64Alg.answer (sm, none) = .ok (a, (sm', r), log)) : Aside ips c f sm log sm' := by
  have hrun : Grown ips sm sm' ∧ (Coherent ips sm → Beside c (sm, (none : FlowPtr)) → (∀ x ∈ log, x.1.Avoids c) →
      sm'.view c = sm.view c) := by
    refine Prog.run_relation (R := fun x log x' ↦ Grown ips x.1 x'.1 ∧ (Coherent ips x.1 → Beside c x →
      (∀ y ∈ log, y.1.Avoids c) → x'.1.view c = x.1.view c)) (fun x ↦ ⟨.refl x.1, fun _ _ _ ↦ rfl⟩) ?_ h
    intro x call log x' hrest
    have hg : Grown ips x.1 (Nat64Alg.answer call x).2.1 := (Told.answer hips call x).grown
    refine ⟨hg.trans hrest.1, fun hc hx hlog ↦ ?_⟩
    rw [List.forall_mem_cons] at hlog
    obtain ⟨-, hview, hnext⟩ := answer_aside hips hc hx hlog.1
    rw [hrest.2 (hg.coherent hc) hnext hlog.2, hview]
  exact ⟨hrun.1, fun hc _ _ hlog ↦ hrun.2 hc (fun _ ha ↦ nomatch ha) hlog⟩

theorem course (hips : (ips.flatMap poolOf).Nodup) : Course (@Aside σ ips c f) f where
  refl sm := ⟨.refl sm, fun _ _ _ _ ↦ rfl⟩
  trans := trans
  setFlow ha _ := setFlow ha
  run := run hips

end Aside

theorem view_setTid (hc : Coherent ips sm) {f : ℕ} (tid : Int) (hf : (sm.flowAt f).ip6p.port_ ≠ c) :
    (sm.setTid f tid).view c = sm.view c := by
  unfold StateManager.setTid
  split
  · exact view_setFlow hc hf
  · rfl

end Aside

/-- Two states that tell the packets of a client port the same. -/
structure Agree (ips : List IPv4Addr) (c : UInt16) (s t : StateManager σ) : Prop where
  left : Sound ips s
  right : Sound ips t
  extra : s.extra = t.extra
  protocols : s.protocols = t.protocols
  view : s.view c = t.view c

namespace Agree

theorem symm (h : Agree ips c s t) : Agree ips c t s :=
  ⟨h.right, h.left, h.extra.symm, h.protocols.symm, h.view.symm⟩

theorem twins (h : Agree ips c s t) {f : ℕ} (hf : s.ofPort c = some f) :
    ∃ g, t.ofPort c = some g ∧ Twins ips f g s t := by
  have hview := h.view
  rw [view_some hf] at hview
  obtain ⟨g, hg, hflow⟩ := Option.map_eq_some_iff.mp hview.symm
  exact ⟨g, hg, h.left, h.right, h.extra, h.protocols, ((ofPort_iff h.left.coherent).mp hf).1,
    ((ofPort_iff h.right.coherent).mp hg).1, hflow.symm⟩

theorem of_twins {f g : ℕ} (h : Twins ips f g s t) (hport : (s.flowAt f).ip6p.port_ = c) : Agree ips c s t := by
  have hf := (ofPort_iff h.left.coherent).mpr ⟨h.left_lt, hport⟩
  have hg := (ofPort_iff h.right.coherent).mpr ⟨h.right_lt, h.flow ▸ hport⟩
  exact ⟨h.left, h.right, h.extra, h.protocols, by rw [view_some hf, view_some hg, h.flow]⟩

theorem grown {s' t' : StateManager σ} (h : Agree ips c s t) (hs : Grown ips s s') (ht : Grown ips t t')
    (hview : s'.view c = t'.view c) : Agree ips c s' t' :=
  ⟨h.left.grown hs, h.right.grown ht, hs.extra.trans (h.extra.trans ht.extra.symm),
    hs.protocols.trans (h.protocols.trans ht.protocols.symm), hview⟩

end Agree

section Lookup

variable {p : Packet} {f : ℕ}

/-- The packet is looked up among the flows by the client port or, coming back, by its endpoint. -/
def Packet.OfPort (p : Packet) (c : UInt16) (e : IP4Port) : Prop :=
  if p.ipVersionBefore_ = 6 then p.getSourcePort = c else (⟨p.daddr4, p.getDestPort⟩ : IP4Port) = e

instance (p : Packet) (c : UInt16) (e : IP4Port) : Decidable (p.OfPort c e) :=
  inferInstanceAs (Decidable (if p.ipVersionBefore_ = 6 then _ else _))

theorem getFlow_port (hallot : Function.Injective allot) (hs : Sound ips sm) (ha : Allots allot sm)
    (hf : (p.getFlow sm).1 = some f) : p.OfPort c (allot c) ↔ (sm.flowAt f).ip6p.port_ = c := by
  unfold Packet.OfPort
  split
  case isTrue hv =>
    rw [getFlow_six hv] at hf
    split at hf
    case isTrue =>
      rw [getMapping6_eq, ofPort_iff hs.coherent] at hf
      rw [hf.2]
    case isFalse => cases hf
  case isFalse hv =>
    rw [getFlow_four hs.mode hv] at hf
    split at hf
    case isTrue =>
      obtain ⟨hlt, he, -⟩ := hs.coherent.getMapping4_iff.mp hf
      rw [← he, ha f hlt]
      exact hallot.eq_iff
    case isFalse => cases hf

theorem Agree.getFlow (h : Agree ips c s t) (hport : (s.flowAt f).ip6p.port_ = c) (hlt : f < s.heap.length)
    (hf : (p.getFlow s).1 = some f) : ∃ g, (p.getFlow t).1 = some g ∧ Twins ips f g s t := by
  obtain ⟨g, hg, htwins⟩ := h.twins ((ofPort_iff h.left.coherent).mpr ⟨hlt, hport⟩)
  refine ⟨g, ?_, htwins⟩
  by_cases hv : p.ipVersionBefore_ = 6
  · rw [getFlow_six hv] at hf ⊢
    split at hf
    case isTrue htr =>
      rw [getMapping6_eq, ofPort_iff h.left.coherent] at hf
      rw [if_pos htr, getMapping6_eq, ← hf.2, hport, hg]
    case isFalse => cases hf
  · rw [getFlow_four h.left.mode hv] at hf
    rw [getFlow_four h.right.mode hv]
    split at hf
    case isTrue htr =>
      rw [if_pos htr, h.right.coherent.getMapping4_iff, ← htwins.flow]
      exact ⟨htwins.right_lt, (h.left.coherent.getMapping4_iff.mp hf).2⟩
    case isFalse => cases hf

end Lookup

inductive AppCall
  | begin (tid : Int) (p : Packet)
  | doApp (tid : Int) (p : Packet)

/-- The call is for a packet from the client port or, coming back, for one to its endpoint. -/
def AppCall.OfPort (c : UInt16) (e : IP4Port) : AppCall → Prop
  | .begin _ p => if p.getIPVersion = 4 then p.getSourcePort = c else (⟨p.daddr4, p.getDestPort⟩ : IP4Port) = e
  | .doApp _ p => p.OfPort c e

instance (c : UInt16) (e : IP4Port) (x : AppCall) : Decidable (x.OfPort c e) :=
  match x with
  | .begin _ p => inferInstanceAs (Decidable (if p.getIPVersion = 4 then _ else _))
  | .doApp _ p => inferInstanceAs (Decidable (p.OfPort c e))

section Begin

variable {nat nat' n n' : NAT} {p : Packet} {rc rc' : Int} {s' t' : StateManager σ} {f g : ℕ}

theorem begin_aside (hips : (ips.flatMap poolOf).Nodup) (hc : Coherent ips s) {e : IP4Port}
    (hb : nat.begin s p = .ok (rc, n, s')) (hp : ¬(AppCall.begin nat.tid p).OfPort c e) : s'.view c = s.view c := by
  rcases begin_cases hb with ⟨hv, f, s₁, hd, -, -, rfl⟩ | ⟨-, f, -, -, -, rfl⟩ | ⟨-, -, -, -, rfl⟩
  · have hport : (⟨p.saddr6, p.getSourcePort⟩ : IP6Port).port_ ≠ c := by simpa [AppCall.OfPort, hv] using hp
    obtain ⟨hg, -, hf, -⟩ := doMapping_flow hips hc hd
    have hview := @view_doMapping _ _ _ _ hc _ p.daddr6 hport
    rw [hd] at hview
    exact (view_setTid (hg.coherent hc) nat.tid (hf.trans_ne hport)).trans hview
  · rfl
  · rfl

theorem Twins.setTid (h : Twins ips f g s t) (tid : Int) : Twins ips f g (s.setTid f tid) (t.setTid g tid) := by
  unfold StateManager.setTid
  rw [← h.flow]
  split
  · exact h.setFlow rfl
  · exact h

theorem created_ip4p {k : Key64} {e : IP4Port} {pool : List IP4Port} (ha : Allots allot (s.create k e pool)) :
    e = allot k.1.port_ := by
  have hnew := ha s.heap.length (by simp [StateManager.create])
  rwa [flowAt_create, if_pos rfl] at hnew

theorem Agree.doMapping (hips : (ips.flatMap poolOf).Nodup) (h : Agree ips c s t) {k : IP6Port} {srv : IPv6Addr}
    (hk : k.port_ = c) (hd : s.doMapping k srv = (some f, s')) (hd' : t.doMapping k srv = (some g, t'))
    (ha : Allots allot s') (ha' : Allots allot t') : Twins ips f g s' t' := by
  obtain ⟨hgs, hlt, -, -⟩ := doMapping_flow hips h.left.coherent hd
  obtain ⟨hgt, hlt', -, -⟩ := doMapping_flow hips h.right.coherent hd'
  have hs : ∀ {sm : StateManager σ} {r : FlowPtr}, sm.map64_.find? (k, srv) = r → sm.ofPort c = r := by
    rintro sm _ rfl
    rw [← hk]
    exact (getMapping6_eq sm k srv).symm
  refine ⟨h.left.grown hgs, h.right.grown hgt, hgs.extra.trans (h.extra.trans hgt.extra.symm),
    hgs.protocols.trans (h.protocols.trans hgt.protocols.symm), hlt, hlt', ?_⟩
  have hview := h.view
  rcases doMapping_cases hd with ⟨f, hf, hr, rfl⟩ | ⟨e, pool, hf, -, hr, rfl⟩ | ⟨-, -, hr, -⟩
  · obtain rfl := Option.some.inj hr
    rw [view_some (hs hf)] at hview
    rcases doMapping_cases hd' with ⟨g, hg, hr', rfl⟩ | ⟨_, _, hg, -⟩ | ⟨-, -, hr', -⟩
    · obtain rfl := Option.some.inj hr'
      rw [view_some (hs hg)] at hview
      exact Option.some.inj hview
    · rw [StateManager.view, hs hg] at hview
      cases hview
    · cases hr'
  · obtain rfl := Option.some.inj hr
    rw [StateManager.view, hs hf] at hview
    rcases doMapping_cases hd' with ⟨g, hg, -⟩ | ⟨e', pool', hg, -, hr', rfl⟩ | ⟨-, -, hr', -⟩
    · rw [view_some (hs hg)] at hview
      cases hview
    · obtain rfl := Option.some.inj hr'
      rw [flowAt_create, if_pos rfl, flowAt_create, if_pos rfl, created_ip4p ha, created_ip4p ha']
    · cases hr'
  · cases hr

theorem Agree.begin (hips : (ips.flatMap poolOf).Nodup) (h : Agree ips c s t) {e : IP4Port}
    (htid : nat.tid = nat'.tid) (hp : (AppCall.begin nat.tid p).OfPort c e) (hb : nat.begin s p = .ok (rc, n, s'))
    (hb' : nat'.begin t p = .ok (rc', n', t')) (ha : Allots allot s') (ha' : Allots allot t') : Agree ips c s' t' := by
  rcases begin_cases hb with ⟨hv, f, s₁, hd, -, -, rfl⟩ | ⟨hv, f, -, -, -, rfl⟩ | ⟨hv, -, -, -, rfl⟩
  · rcases begin_cases hb' with ⟨-, g, t₁, hd', -, -, rfl⟩ | ⟨hv', -⟩ | ⟨hv', -⟩
    · have hport : (⟨p.saddr6, p.getSourcePort⟩ : IP6Port).port_ = c := by simpa [AppCall.OfPort, hv] using hp
      have hgs : ∀ tid, Grown ips s₁ ((s₁.setTid f tid).setCurIPv6SrvAddr p.daddr6) :=
        fun tid ↦ (Grown.setTid f tid).trans (.setCurIPv6SrvAddr _ _)
      have hgt : ∀ tid, Grown ips t₁ ((t₁.setTid g tid).setCurIPv6SrvAddr p.daddr6) :=
        fun tid ↦ (Grown.setTid g tid).trans (.setCurIPv6SrvAddr _ _)
      have hmade := h.doMapping hips hport hd hd' (ha.before (hgs _)) (ha'.before (hgt _))
      have htwins := hmade.setTid nat.tid
      obtain ⟨-, hlt, hf, -⟩ := doMapping_flow hips h.left.coherent hd
      have hkept := (@Grown.setTid _ ips s₁ f nat.tid).ip6p hlt
      have hagree := Agree.of_twins htwins ((congrArg IP6Port.port_ hkept).trans (hf.trans hport))
      rw [← htid]
      exact hagree.grown (.setCurIPv6SrvAddr _ _) (.setCurIPv6SrvAddr _ _) hagree.view
    · exact absurd hv hv'
    · exact absurd hv hv'
  all_goals
    rcases begin_cases hb' with ⟨hv', -⟩ | ⟨-, g, -, -, -, rfl⟩ | ⟨-, -, -, -, rfl⟩
    · exact absurd hv' hv
    · exact h
    · exact h

end Begin

section Passed

variable {nat nat' : NAT} {p : Packet} {a b : AppOut σ} {f : ℕ}

theorem doApp_flow (hmode : s.analysisMode = false) (hf : (p.getFlow s).1 = some f) :
    doApp pc nat s p = doAppFlow pc { nat with exttcpflow_ := some f } s p f := by
  unfold doApp
  dsimp only
  rw [getFlow_snd hmode]
  simp only [hf]

theorem doApp_aside (hips : (ips.flatMap poolOf).Nodup) (hallot : Function.Injective allot) (hs : Sound ips s)
    (ha : doApp pc nat s p = .ok a) (hend : Allots allot a.sm) (hp : ¬p.OfPort c (allot c))
    (hcalls : ∀ x ∈ a.asked, x.1.Avoids c) : a.sm.view c = s.view c := by
  have hstart := hend.before (doApp_other hips hs.mode ha).1
  cases hf : (p.getFlow s).1 with
  | none =>
    rcases doApp_cases hs.mode ha with ⟨-, rfl⟩ | ⟨f, hg, -⟩
    · rfl
    · rw [hf] at hg
      cases hg
  | some f =>
    have hport := (getFlow_port hallot hs hstart hf).not.mp hp
    have haside : Aside ips c f s a.asked a.sm := (Aside.course hips).doApp Aside.setFlow hs.mode hf ha
    exact haside.view hs.coherent (getFlow_lt hs.coherent hs.mode hf) hport hcalls

theorem assigned_asked (hips : (ips.flatMap poolOf).Nodup) (hs : Sound ips s) (ha : doApp pc nat s p = .ok a)
    (hend : Allots allot a.sm) (hcalls : ∀ x ∈ a.asked, x.2 = none → x.1 = .setIgnore) :
    ∀ x ∈ a.asked, Assigned allot x := by
  rintro ⟨call, r⟩ hx k rfl
  cases hf : (p.getFlow s).1 with
  | none =>
    rcases doApp_cases hs.mode ha with ⟨-, rfl⟩ | ⟨f, hg, -⟩
    · cases hx
    · rw [hf] at hg
      cases hg
  | some f =>
    cases r with
    | none => cases hcalls _ hx rfl
    | some e =>
      have htold := (Told.course hips f).doApp Told.setFlow hs.mode hf ha
      obtain ⟨g, hg, he, -⟩ := htold.answered hs.coherent k e hx
      have hport := hg ⟨⟨0, 0, 0, 0⟩⟩
      rw [getMapping6_eq, ofPort_iff (htold.grown.coherent hs.coherent)] at hport
      rw [← he, hend g hport.1, hport.2]

theorem Agree.doApp (hips : (ips.flatMap poolOf).Nodup) (hallot : Function.Injective allot) (h : Agree ips c s t)
    (hp : p.OfPort c (allot c)) (ha : doApp pc nat s p = .ok a) (hb : Nat64Alg.doApp pc nat' t p = .ok b)
    (hend : Allots allot a.sm) (hend' : Allots allot b.sm)
    (hcalls : ∀ x ∈ a.asked, x.2 = none → x.1 = .setIgnore)
    (hcalls' : ∀ x ∈ b.asked, x.2 = none → x.1 = .setIgnore) :
    Agree ips c a.sm b.sm ∧ a.pkt = b.pkt ∧ a.edit = b.edit := by
  have hgrown := (doApp_other hips h.left.mode ha).1
  have hstart := hend.before hgrown
  have hstart' := hend'.before (doApp_other hips h.right.mode hb).1
  cases hf : (p.getFlow s).1 with
  | none =>
    have hg : (p.getFlow t).1 = none := by
      by_contra hsome
      obtain ⟨g, hg⟩ := Option.ne_none_iff_exists'.mp hsome
      have hport := (getFlow_port hallot h.right hstart' hg).mp hp
      obtain ⟨f, hf', -⟩ := h.symm.getFlow hport (getFlow_lt h.right.coherent h.right.mode hg) hg
      rw [hf] at hf'
      cases hf'
    rcases doApp_cases h.left.mode ha with ⟨-, rfl⟩ | ⟨f, hf', -⟩
    · rcases doApp_cases h.right.mode hb with ⟨-, rfl⟩ | ⟨g, hg', -⟩
      · exact ⟨h, rfl, rfl⟩
      · rw [hg] at hg'
        cases hg'
    · rw [hf] at hf'
      cases hf'
  | some f =>
    have hport := (getFlow_port hallot h.left hstart hf).mp hp
    have hlt := getFlow_lt h.left.coherent h.left.mode hf
    obtain ⟨g, hg, htwins⟩ := h.getFlow hport hlt hf
    have hassigned := assigned_asked hips h.left ha hend hcalls
    have hassigned' := assigned_asked hips h.right hb hend' hcalls'
    rw [doApp_flow h.left.mode hf] at ha
    rw [doApp_flow h.right.mode hg] at hb
    obtain ⟨hout, hpkt, hedit⟩ := htwins.doAppFlow hips ha hb hassigned hassigned'
    exact ⟨.of_twins hout ((congrArg IP6Port.port_ (hgrown.ip6p hlt)).trans hport), hpkt, hedit⟩

end Passed

section Runs

def Event.call : Event σ → AppCall
  | .begun nat p => .begin nat.tid p
  | .passed nat p _ => .doApp nat.tid p

/-- What a packet passed to `doApp` looks like then, what was edited and which protocol is chosen. -/
def Event.seen (c : UInt16) : Event σ → Option (Packet × Option Edit × Option String)
  | .begun _ _ => none
  | .passed _ _ out => some (out.pkt, out.edit, (out.sm.view c).map Flow.getProtocol)

def Event.Answered : Event σ → Prop
  | .begun _ _ => True
  | .passed _ _ out => ∀ x ∈ out.asked, x.2 = none → x.1 = .setIgnore

def Event.Avoids (c : UInt16) : Event σ → Prop
  | .begun _ _ => True
  | .passed _ _ out => ∀ x ∈ out.asked, x.1.Avoids c

instance (ev : Event σ) : Decidable ev.Answered :=
  match ev with
  | .begun _ _ => isTrue trivial
  | .passed _ _ out => inferInstanceAs (Decidable (∀ x ∈ out.asked, _))

instance (c : UInt16) (ev : Event σ) : Decidable (ev.Avoids c) :=
  match ev with
  | .begun _ _ => isTrue trivial
  | .passed _ _ out => inferInstanceAs (Decidable (∀ x ∈ out.asked, _))

/-- A call, and the endpoints of all flows once it is made. -/
def Allotted (pc : ParserClass σ) (allot : UInt16 → IP4Port) (s : StateManager σ) (ev : Event σ)
    (s' : StateManager σ) : Prop := AppStep pc s ev s' ∧ Allots allot s'

theorem Run.allotted (hips : (ips.flatMap poolOf).Nodup) {evs : List (Event σ)} (hs : Sound ips s)
    (h : Run (AppStep pc) s evs sm) (hend : Allots allot sm) : Run (Allotted pc allot) s evs sm := by
  refine (h.backwards (J := Sound ips) (fun s ev s' hs hstep ↦ ?_) hs hend).1
  have hg := hstep.grown hips hs.mode
  exact ⟨hs.grown hg, fun h ↦ h.before hg⟩

variable {evs evs' : List (Event σ)} {s' t' : StateManager σ} {ev ev' : Event σ}

theorem Agree.aside (hips : (ips.flatMap poolOf).Nodup) (hallot : Function.Injective allot) (h : Agree ips c s t)
    (hstep : Allotted pc allot s ev s') (hev : ¬ev.call.OfPort c (allot c)) (hcalls : ev.Avoids c) :
    Agree ips c s' t := by
  refine h.grown (hstep.1.grown hips h.left.mode) (.refl t) ?_
  rw [← h.view]
  obtain ⟨hstep, hend⟩ := hstep
  cases ev with
  | begun nat p =>
    obtain ⟨rc, nat', hb⟩ := hstep
    exact begin_aside hips h.left.coherent hb hev
  | passed nat p out =>
    obtain ⟨ha, rfl⟩ := hstep
    exact doApp_aside hips hallot h.left ha hend hev hcalls

theorem Agree.step (hips : (ips.flatMap poolOf).Nodup) (hallot : Function.Injective allot) (h : Agree ips c s t)
    (hstep : Allotted pc allot s ev s') (hstep' : Allotted pc allot t ev' t') (hsame : ev.call = ev'.call)
    (hev : ev.call.OfPort c (allot c)) (hcalls : ev.Answered) (hcalls' : ev'.Answered) :
    Agree ips c s' t' ∧ ev.seen c = ev'.seen c := by
  obtain ⟨hstep, hend⟩ := hstep
  obtain ⟨hstep', hend'⟩ := hstep'
  cases ev with
  | begun nat p =>
    cases ev' with
    | passed => cases hsame
    | begun nat' p' =>
      obtain ⟨htid, rfl⟩ := AppCall.begin.inj hsame
      obtain ⟨rc, n, hb⟩ := hstep
      obtain ⟨rc', n', hb'⟩ := hstep'
      exact ⟨h.begin hips htid hev hb hb' hend hend', rfl⟩
  | passed nat p a =>
    cases ev' with
    | begun => cases hsame
    | passed nat' p' b =>
      obtain ⟨-, rfl⟩ := AppCall.doApp.inj hsame
      obtain ⟨ha, rfl⟩ := hstep
      obtain ⟨hb, rfl⟩ := hstep'
      obtain ⟨hagree, hpkt, hedit⟩ := h.doApp hips hallot hev ha hb hend hend' hcalls hcalls'
      refine ⟨hagree, ?_⟩
      unfold Event.seen
      dsimp only
      rw [hpkt, hedit, hagree.view]

variable {prefix_ : IPv6Addr} {extra : EXTRAType} {protocols : OrderedMap String Protocol nameLt}

def StateManager.reordered (sm : StateManager σ) (pool : List IP4Port) : StateManager σ := { sm with pool_ := pool }

theorem Agree.start {pool : List IP4Port}
    (hpool : pool.Perm (configured prefix_ extra protocols ips : StateManager σ).pool_) :
    Agree ips c (configured prefix_ extra protocols ips : StateManager σ)
      ((configured prefix_ extra protocols ips : StateManager σ).reordered pool) := by
  have hs : Sound ips (configured prefix_ extra protocols ips : StateManager σ) := .start _ _ _ _
  obtain ⟨h64, h46, hsrv, hp⟩ := hs.coherent
  exact ⟨hs, ⟨⟨h64, h46, hsrv, (hpool.append_right _).trans hp⟩, hs.mode⟩, rfl, rfl, rfl⟩

/-- The packets of one client port look the same, and are edited and understood the same, whatever packets of other
client ports come between them, as long as the parsers of the others name no endpoint of that port. -/
theorem ports_apart (hips : ips.Nodup) (hallot : Function.Injective allot) {pool : List IP4Port}
    (hpool : pool.Perm (configured prefix_ extra protocols ips : StateManager σ).pool_)
    (h : Run (AppStep pc) (configured prefix_ extra protocols ips) evs s)
    (h' : Run (AppStep pc) ((configured prefix_ extra protocols ips).reordered pool) evs' t)
    (hs : Allots allot s) (ht : Allots allot t)
    (hothers : ∀ ev ∈ evs, ¬ev.call.OfPort c (allot c) → ev.Avoids c)
    (hanswered : ∀ ev ∈ evs, ev.call.OfPort c (allot c) → ev.Answered) (hanswered' : ∀ ev ∈ evs', ev.Answered)
    (hsame : (evs.map Event.call).filter (fun x ↦ x.OfPort c (allot c)) = evs'.map Event.call) :
    (evs.filter (fun ev ↦ ev.call.OfPort c (allot c))).map (Event.seen c) = evs'.map (Event.seen c) := by
  have hpools := nodup_pools hips
  have hstart := @Agree.start σ ips c prefix_ extra protocols pool hpool
  have hof : ∀ ev ∈ evs', ev.call.OfPort c (allot c) := by
    intro ev hev
    have hm := List.mem_map_of_mem (f := Event.call) hev
    rw [← hsame] at hm
    exact of_decide_eq_true (List.mem_filter.mp hm).2
  have hrun := (Run.allotted hpools hstart.left h hs).restrict
    (P := fun ev ↦ (¬ev.call.OfPort c (allot c) → ev.Avoids c) ∧ (ev.call.OfPort c (allot c) → ev.Answered))
    (fun ev hev ↦ ⟨hothers ev hev, hanswered ev hev⟩)
  have hrun' := (Run.allotted hpools hstart.right h' ht).restrict
    (P := fun ev ↦ (¬ev.call.OfPort c (allot c) → ev.Avoids c) ∧ (ev.call.OfPort c (allot c) → ev.Answered))
    (fun ev hev ↦ ⟨fun hn ↦ absurd (hof ev hev) hn, fun _ ↦ hanswered' ev hev⟩)
  have hpairs : List.Forall₂ Eq ((evs.filter (fun ev ↦ ev.call.OfPort c (allot c))).map Event.call)
      (evs'.map Event.call) := by
    rw [List.forall₂_eq_eq_eq, ← hsame, List.filter_map]
    rfl
  rw [List.forall₂_map_left_iff, List.forall₂_map_right_iff] at hpairs
  refine (hrun.purge (R := Agree ips c) ?_ ?_ hrun' hstart
    (fun ev _ hn ↦ of_decide_eq_false hn) hpairs).2
  · intro s t ev ev' s' t' hagree hv he hstep hstep'
    have hev := of_decide_eq_true hv
    exact hagree.step hpools hallot hstep.1 hstep'.1 he hev (hstep.2.2 hev) (hstep'.2.2 (he ▸ hev))
  · intro s t ev s' hagree hn hstep
    exact hagree.aside hpools hallot hstep.1 hn (hstep.2.1 hn)

/-- The calls one translator makes in a session that runs to its end. -/
def callsOf (tid : Int) (ps : List Packet) : List AppCall := ps.flatMap (fun p ↦ [.begin tid p, .doApp tid p])

theorem doApp_tid {nat : NAT} {p : Packet} {out : AppOut σ} (h : doApp pc nat sm p = .ok out) :
    out.nat.tid = nat.tid := by
  have hcontent : ∀ {nat : NAT} {sm : StateManager σ} {p : Packet} {f : ℕ} {dest : DEST},
      doContent pc nat sm p f dest = .ok out → out.nat.tid = nat.tid := by
    intro nat sm p f dest h
    obtain ⟨flow, q, -, ⟨-, rfl⟩ | ⟨-, x, -, rfl⟩⟩ := doContent_cases h
    · rfl
    · rcases applyOps_cases nat x q f dest with he | ⟨_, -, -, he⟩ <;> rw [he]
  unfold doApp at h
  dsimp only at h
  split at h
  · cases h
    rfl
  · unfold doAppFlow at h
    split at h
    · have htid := hcontent h
      exact htid
    · dsimp only at h
      split at h
      · cases h
        rfl
      · have htid := hcontent h
        exact htid

theorem play_calls {nat : NAT} {ps : List Packet} (h : (play pc nat sm ps).1.length = 2 * ps.length) :
    (play pc nat sm ps).1.map Event.call = callsOf nat.tid ps := by
  induction ps generalizing nat sm with
  | nil => rfl
  | cons p ps ih =>
    unfold play at h ⊢
    split at h
    case h_1 => simp at h
    case h_2 rc nat' s₁ hb =>
      have htid : nat'.tid = nat.tid := by
        rcases begin_cases hb with ⟨-, f, s₂, -, -, rfl, -⟩ | ⟨-, f, -, -, rfl, -⟩ | ⟨-, -, -, rfl, -⟩ <;> rfl
      split at h
      case h_1 =>
        simp only [List.length_cons, List.length_nil] at h
        omega
      case h_2 out ha =>
        have hout := (doApp_tid ha).trans htid
        have hrest := @ih out.sm out.nat (by simp only [List.length_cons] at h; omega)
        simp only [List.map_cons, hrest, Event.call, htid, hout, callsOf, List.flatMap_cons, List.cons_append,
          List.nil_append]

/-- Another client's packet, and two of the same command. -/
def crossed : List Packet := [.tcp6 clientB serverT 1025 80 1 1 [], eprtSegment 1000, eprtSegment 1018]

/-- The endpoints that the clients' packets, and the mapping asked for, get in that order. -/
def portsInTurn : Equiv.Perm UInt16 := (Equiv.swap (ntohs 1025) (ntohs 32000)).trans
  ((Equiv.swap (ntohs 1024) (ntohs 32001)).trans (Equiv.swap (ntohs 1) (ntohs 32002)))

def inTurn (c : UInt16) : IP4Port := ⟨⟨ntohl 0x0a141e28⟩, portsInTurn c⟩

/-- The pool with the endpoint of the other client behind the rest. -/
def poolBehind : List IP4Port := (ftpConf .NONE).pool_.drop 1 ++ (ftpConf .NONE).pool_.take 1

theorem ports_apart_eprt :
    ((play (FTPParser.only once noJunk) (.new 0) (ftpConf .NONE) crossed).1.filter
      (fun ev ↦ ev.call.OfPort (ntohs 1024) (inTurn (ntohs 1024)))).map (Event.seen (ntohs 1024)) =
    (play (FTPParser.only once noJunk) (.new 0) ((ftpConf .NONE).reordered poolBehind) crossed.tail).1.map
      (Event.seen (ntohs 1024)) := by
  have hinj : Function.Injective inTurn := fun a b h ↦ portsInTurn.injective (congrArg IP4Port.port_ h)
  have hperm : poolBehind.Perm (ftpConf .NONE).pool_ :=
    List.perm_append_comm.trans (.of_eq (List.take_append_drop 1 _))
  refine ports_apart (List.nodup_singleton _) hinj hperm (play_run _ _ _ _) (play_run _ _ _ _) (by decide +kernel)
    (by decide +kernel) (by decide +kernel) (by decide +kernel) (by decide +kernel) ?_
  rw [play_calls (by decide +kernel), play_calls (by decide +kernel)]
  simp only [callsOf, crossed, List.tail_cons, List.flatMap_cons, List.flatMap_nil, List.append_nil, List.cons_append,
    List.nil_append]
  rw [List.filter_cons_of_neg (by decide +kernel), List.filter_cons_of_neg (by decide +kernel),
    List.filter_cons_of_pos (by decide +kernel), List.filter_cons_of_pos (by decide +kernel),
    List.filter_cons_of_pos (by decide +kernel), List.filter_cons_of_pos (by decide +kernel), List.filter_nil]

end Runs

section Connections

structure Connection where
  tcp : Bool
  client : IPv6Addr
  clientPort : UInt16
  server : IPv6Addr
  serverPort : UInt16
deriving DecidableEq

def Packet.connection (p : Packet) : Connection := ⟨p.isTCP, p.saddr6, p.getSourcePort, p.daddr6, p.getDestPort⟩

def numbersOf (x : Connection) (evs : List (Event σ)) : List (UInt32 × UInt32) :=
  ((evs.filterMap Event.turn).filter (fun t ↦ t.1.connection = x)).map (fun t ↦ (t.2.pkt.seq, t.2.pkt.ack))

/-- In sessions of two connections, the numbers sent for `x` are the same when the packets of `y` are left out. -/
def Undisturbed (pc : ParserClass σ) (sm : StateManager σ) (x y : Connection) : Prop :=
  ∀ ps : List Packet, (∀ p ∈ ps, p.ipVersionBefore_ = 6 ∧ (p.connection = x ∨ p.connection = y)) →
    numbersOf x (play pc (.new 0) sm ps).1 =
      numbersOf x (play pc (.new 0) sm (ps.filter (fun p ↦ p.connection = x))).1

def clientN : IPv6Addr := ⟨⟨ntohl 0x20010000, 0, 0, ntohl 1⟩⟩

def eprtOfN (seq : UInt32) : Packet := .tcp6 clientN serverS 1024 21 seq 5 eprtLine

/-- Another client's command that names the endpoint of that one. -/
def eprtOfOther : Packet := .tcp6 clientB serverS 1025 21 1 1 (text "EPRT |2|2001::1|1024|\r\n")

/-- A command sent again, after it came over UDP or went to another port of the server, or after another client
named the endpoint it is sent from. -/
theorem connections_mixed :
    (¬∀ x y : Connection, x.tcp = true → y = { x with tcp := false } →
      Undisturbed (FTPParser.only once noJunk) (ftpConf .NONE) x y) ∧
    (¬∀ x y : Connection, x.tcp = true → x.serverPort ≠ y.serverPort → y = { x with serverPort := y.serverPort } →
      Undisturbed (FTPParser.only once noJunk) (ftpConf .NONE) x y) ∧
    ¬∀ x y : Connection, x.tcp = true → x.clientPort ≠ y.clientPort →
      Undisturbed (FTPParser.only once noJunk) (ftpConf .NONE) x y := by
  refine ⟨fun h ↦ ?_, fun h ↦ ?_, fun h ↦ ?_⟩
  · have hsame := h (eprtSegment 1000).connection (Packet.udp6 clientA serverS 1024 21 eprtLine).connection
      (by decide +kernel) (by decide +kernel)
      [eprtSegment 1000, .udp6 clientA serverS 1024 21 eprtLine, eprtSegment 1018] (by decide +kernel)
    revert hsame
    decide +kernel
  · have hsame := h (eprtSegment 1000).connection (Packet.tcp6 clientA serverS 1024 2121 1000 5 eprtLine).connection
      (by decide +kernel) (by decide +kernel) (by decide +kernel)
      [.tcp6 clientA serverS 1024 2121 1000 5 eprtLine, eprtSegment 1018] (by decide +kernel)
    revert hsame
    decide +kernel
  · have hsame := h (eprtOfN 1000).connection eprtOfOther.connection (by decide +kernel) (by decide +kernel)
      [eprtOfN 1000, eprtOfOther, eprtOfN 1018, eprtOfN 1036] (by decide +kernel)
    revert hsame
    decide +kernel

end Connections

end Nat64Alg
