import Nat64Alg.Workers

namespace Nat64Alg

open Lib StateManager

variable {σ : Type} {pc : ParserClass σ} {ips : List IPv4Addr} {s t : StateManager σ} {f g : ℕ}

/-- The endpoint a call was answered with is the one assigned to the client port asked for. -/
def Assigned (allot : UInt16 → IP4Port) (x : Call × Option IP4Port) : Prop :=
  ∀ k, x.1 = .doMapping k → x.2 = some (allot k.port_)

/-- The flow `f` of one state is what the flow `g` of another is. -/
structure Twins (ips : List IPv4Addr) (f g : ℕ) (s t : StateManager σ) : Prop where
  left : Sound ips s
  right : Sound ips t
  extra : s.extra = t.extra
  protocols : s.protocols = t.protocols
  left_lt : f < s.heap.length
  right_lt : g < t.heap.length
  flow : s.flowAt f = t.flowAt g

namespace Twins

theorem grown {s' t' : StateManager σ} (h : Twins ips f g s t) (hs : Grown ips s s') (ht : Grown ips t t')
    (hflow : s'.flowAt f = t'.flowAt g) : Twins ips f g s' t' :=
  ⟨h.left.grown hs, h.right.grown ht, hs.extra.trans (h.extra.trans ht.extra.symm),
    hs.protocols.trans (h.protocols.trans ht.protocols.symm), hs.lt h.left_lt, ht.lt h.right_lt, hflow⟩

theorem setFlow (h : Twins ips f g s t) {flow : Flow σ} (ha : flow.addr = (s.flowAt f).addr) :
    Twins ips f g (s.setFlow f flow) (t.setFlow g flow) := by
  have ha' : flow.addr = (t.flowAt g).addr := h.flow ▸ ha
  exact h.grown (.setFlow ha) (.setFlow ha')
    (by rw [flowAt_setFlow h.left_lt, flowAt_setFlow h.right_lt])

theorem setParser (h : Twins ips f g s t) (dest : DEST) (name : String) (p : Option (Parser σ)) :
    Twins ips f g (s.setFlow f ((s.flowAt f).setParser dest name p))
      (t.setFlow g ((t.flowAt g).setParser dest name p)) := by
  rw [← h.flow]
  exact h.setFlow (by cases dest <;> rfl)

theorem setProtocol (h : Twins ips f g s t) (name : String) :
    Twins ips f g (s.setFlow f ((s.flowAt f).setProtocol name)) (t.setFlow g ((t.flowAt g).setProtocol name)) := by
  rw [← h.flow]
  exact h.setFlow rfl

theorem ptype (h : Twins ips f g s t) (name : String) (dest : DEST) : s.ptype name dest = t.ptype name dest := by
  unfold StateManager.ptype
  rw [h.protocols]

theorem getParser (h : Twins ips f g s t) (name : String) (dest : DEST) :
    (s.getParser pc f name dest).1 = (t.getParser pc g name dest).1 ∧
      Twins ips f g (s.getParser pc f name dest).2 (t.getParser pc g name dest).2 := by
  unfold StateManager.getParser
  rw [← h.ptype name dest, ← h.flow]
  split
  · exact ⟨rfl, h⟩
  · split
    · exact ⟨rfl, h⟩
    · exact ⟨rfl, h.flow ▸ h.setParser dest name _⟩
  · exact ⟨rfl, h⟩

theorem storeParser (h : Twins ips f g s t) (name : String) (dest : DEST) (p : Parser σ) :
    Twins ips f g (s.storeParser f name dest p) (t.storeParser g name dest p) := by
  unfold StateManager.storeParser
  rw [← h.ptype name dest]
  split
  · exact h.setParser dest name _
  · exact h

end Twins

theorem doMapping_flow (hips : (ips.flatMap poolOf).Nodup) (hc : Coherent ips s) {k : IP6Port} {srv : IPv6Addr} {a : ℕ}
    {s' : StateManager σ} (h : s.doMapping k srv = (some a, s')) : Grown ips s s' ∧ a < s'.heap.length ∧
      (s'.flowAt a).ip6p.port_ = k.port_ ∧ ∀ x < s.heap.length, s'.flowAt x = s.flowAt x := by
  have hg := Grown.doMapping hips s k srv
  rw [h] at hg
  refine ⟨hg, ?_⟩
  rcases doMapping_cases h with ⟨f, hk, he, rfl⟩ | ⟨e, pool, hk, hp, he, rfl⟩ | ⟨-, -, he, -⟩
  · obtain rfl := Option.some.inj he
    obtain ⟨hlt, hport⟩ := hc.getMapping6_iff.mp hk
    exact ⟨hlt, hport, fun _ _ ↦ rfl⟩
  · obtain rfl := Option.some.inj he
    refine ⟨by simp [StateManager.create], ?_, fun x hx ↦ ?_⟩
    · rw [flowAt_create, if_pos rfl]
      rfl
    · rw [flowAt_create, if_neg hx.ne]
  · cases he

theorem StateManager.Coherent.port_iff (hc : Coherent ips s) (hf : f < s.heap.length) {a : ℕ} (ha : a < s.heap.length) :
    (s.flowAt a).ip6p.port_ = (s.flowAt f).ip6p.port_ ↔ a = f :=
  ⟨hc.port_unique (s.addrs_getElem? ha) (s.addrs_getElem? hf), fun h ↦ h ▸ rfl⟩

@[simp] theorem length_setFlow (s : StateManager σ) (f : ℕ) (flow : Flow σ) :
    (s.setFlow f flow).heap.length = s.heap.length := List.length_set

namespace Twins

/-- The flow a grammar was given last is the one of the pair in both states, or in neither. -/
def Given (f g : ℕ) (x y : StateManager σ × FlowPtr) : Prop :=
  x.2 = none ∧ y.2 = none ∨ ∃ a b, x.2 = some a ∧ y.2 = some b ∧ a < x.1.heap.length ∧ b < y.1.heap.length ∧
    (a = f ↔ b = g)

variable {allot : UInt16 → IP4Port}

theorem answer (hips : (ips.flatMap poolOf).Nodup) {x y : StateManager σ × FlowPtr} {c : Call}
    (h : Twins ips f g x.1 y.1 ∧ Given f g x y) (hx : Assigned allot (c, (Nat64Alg.answer c x).1))
    (hy : Assigned allot (c, (Nat64Alg.answer c y).1)) : (Nat64Alg.answer c x).1 = (Nat64Alg.answer c y).1 ∧
      Twins ips f g (Nat64Alg.answer c x).2.1 (Nat64Alg.answer c y).2.1 ∧
      Given f g (Nat64Alg.answer c x).2 (Nat64Alg.answer c y).2 := by
  obtain ⟨h, hgiven⟩ := h
  cases c with
  | doMapping k =>
    have hx := hx k rfl
    have hy := hy k rfl
    refine ⟨hx.trans hy.symm, ?_⟩
    unfold Nat64Alg.answer at hx hy ⊢
    dsimp only at hx hy ⊢
    obtain ⟨a, ha, -⟩ := Option.map_eq_some_iff.mp hx
    obtain ⟨b, hb, -⟩ := Option.map_eq_some_iff.mp hy
    have hmap : x.1.doMapping k x.1.ip6srv_cur_ = (some a, (x.1.doMappingCur k).2) := Prod.ext ha rfl
    have hmap' : y.1.doMapping k y.1.ip6srv_cur_ = (some b, (y.1.doMappingCur k).2) := Prod.ext hb rfl
    obtain ⟨hgx, hax, hpx, hkx⟩ := doMapping_flow hips h.left.coherent hmap
    obtain ⟨hgy, hby, hpy, hky⟩ := doMapping_flow hips h.right.coherent hmap'
    have htwin := h.grown hgx hgy (by rw [hkx f h.left_lt, hky g h.right_lt, h.flow])
    refine ⟨htwin, .inr ⟨a, b, ha, hb, hax, hby, ?_⟩⟩
    have hfa := htwin.left.coherent.port_iff htwin.left_lt hax
    have hgb := htwin.right.coherent.port_iff htwin.right_lt hby
    rw [hpx, htwin.flow] at hfa
    rw [hpy] at hgb
    exact hfa.symm.trans hgb
  | setIgnore =>
    unfold Nat64Alg.answer
    dsimp only
    rcases hgiven with ⟨hx₀, hy₀⟩ | ⟨a, b, ha, hb, hax, hby, hiff⟩
    · rw [hx₀, hy₀]
      exact ⟨rfl, h, .inl ⟨hx₀, hy₀⟩⟩
    · rw [ha, hb]
      refine ⟨rfl, h.grown (.setFlow rfl) (.setFlow rfl) ?_, .inr ⟨a, b, rfl, rfl, ?_, ?_, hiff⟩⟩
      · rcases eq_or_ne a f with rfl | hne
        · obtain rfl := hiff.mp rfl
          rw [flowAt_setFlow hax, flowAt_setFlow hby, h.flow]
        · rw [flowAt_setFlow_ne hne, flowAt_setFlow_ne (fun e ↦ hne (hiff.mpr e)), h.flow]
      · simpa using hax
      · simpa using hby

theorem run (hips : (ips.flatMap poolOf).Nodup) (h : Twins ips f g s t) {α : Type} {prog : Script α} {a b : α}
    {s' t' : StateManager σ} {r r' : FlowPtr} {log log' : Asked}
    (hr : prog.run Nat64Alg.answer (s, none) = .ok (a, (s', r), log))
    (hr' : prog.run Nat64Alg.answer (t, none) = .ok (b, (t', r'), log'))
    (hlog : ∀ x ∈ log, Assigned allot x) (hlog' : ∀ x ∈ log', Assigned allot x) :
    a = b ∧ log = log' ∧ Twins ips f g s' t' := by
  obtain ⟨hab, hl, hend, -⟩ := Prog.run_alike (R := fun x y ↦ Twins ips f g x.1 y.1 ∧ Given f g x y)
    (fun _ _ _ hxy hQ hQ' ↦ answer hips hxy hQ hQ') hr hr' ⟨h, .inl ⟨rfl, rfl⟩⟩ hlog hlog'
  exact ⟨hab, hl, hend⟩

end Twins

/-- Two choices that are alike, over states that are twins. -/
structure SameChoice (ips : List IPv4Addr) (f g : ℕ) (c d : Choice σ) : Prop where
  twins : Twins ips f g c.sm d.sm
  rest : d = { c with sm := d.sm }

namespace SameChoice

variable {allot : UInt16 → IP4Port} {dest : DEST} {tcp udp : Bool} {content : Text} {c c' d d' : Choice σ}

theorem feed (hips : (ips.flatMap poolOf).Nodup) (h : SameChoice ips f g c d) {name : String} {p : Parser σ}
    (hc : feed pc f dest content name p c = .ok c') (hd : Nat64Alg.feed pc g dest content name p d = .ok d')
    (hc' : ∀ x ∈ c'.asked, Assigned allot x) (hd' : ∀ x ∈ d'.asked, Assigned allot x) : SameChoice ips f g c' d' := by
  obtain ⟨htwins, hrest⟩ := h
  obtain ⟨ops, p₁, s₁, r, log, hr, rfl⟩ := feed_cases hc
  obtain ⟨ops', p₁', t₁, r', log', hr', rfl⟩ := feed_cases hd
  obtain ⟨hp, rfl, htwins₁⟩ := htwins.run hips hr hr' (fun x hx ↦ hc' x (List.mem_append_right _ hx))
    (fun x hx ↦ hd' x (List.mem_append_right _ hx))
  cases hp
  rw [hrest]
  exact ⟨htwins₁.storeParser name dest p₁, rfl⟩

theorem asked (h : SameChoice ips f g c d) : d.asked = c.asked := by rw [h.rest]

theorem asked_tryProtocols {l : List (String × Protocol)} (h : tryProtocols pc f dest tcp udp content l c = .ok c') :
    ∃ log, c'.asked = c.asked ++ log := by
  obtain ⟨log, hlog, -⟩ := Course.tryProtocols (R := fun _ _ _ ↦ True)
    ⟨fun _ ↦ trivial, fun _ _ ↦ trivial, fun _ _ ↦ trivial, fun _ ↦ trivial⟩ h
  exact ⟨log, hlog⟩

def goOn (pc : ParserClass σ) (f : ℕ) (dest : DEST) (tcp udp : Bool) (content : Text) (name : String)
    (rest : List (String × Protocol)) (c : Choice σ) : Except Fault (Choice σ) :=
  if 0 < c.ops.length then
    .ok { c with
      sm := c.sm.setFlow f ((c.sm.flowAt f).setProtocol name)
      protocol := name }
  else if (c.parser.map Parser.correct).getD false then
    Nat64Alg.tryProtocols pc f dest tcp udp content rest { c with guess := name, guessCount := c.guessCount + 1 }
  else Nat64Alg.tryProtocols pc f dest tcp udp content rest c

theorem asked_goOn {name : String} {rest : List (String × Protocol)}
    (h : goOn pc f dest tcp udp content name rest c = .ok c') : ∃ log, c'.asked = c.asked ++ log := by
  unfold goOn at h
  split at h
  · cases h
    exact ⟨[], (List.append_nil _).symm⟩
  · split at h
    · have hask := asked_tryProtocols h
      exact hask
    · exact asked_tryProtocols h

theorem tryProtocols (hips : (ips.flatMap poolOf).Nodup) {l : List (String × Protocol)} (h : SameChoice ips f g c d)
    (hc : Nat64Alg.tryProtocols pc f dest tcp udp content l c = .ok c')
    (hd : Nat64Alg.tryProtocols pc g dest tcp udp content l d = .ok d')
    (hc' : ∀ x ∈ c'.asked, Assigned allot x) (hd' : ∀ x ∈ d'.asked, Assigned allot x) : SameChoice ips f g c' d' := by
  induction l generalizing c d with
  | nil =>
    cases hc
    cases hd
    exact h
  | cons e rest ih =>
    simp only [Nat64Alg.tryProtocols] at hc hd
    obtain ⟨hget, htwins⟩ := @Twins.getParser _ pc _ _ _ _ _ h.twins e.1 dest
    split at hc
    case isTrue hskip =>
      rw [if_pos hskip] at hd
      exact ih h hc hd
    case isFalse hskip =>
      rw [if_neg hskip, ← hget] at hd
      split at hc
      case h_1 hnone =>
        rw [hnone] at hd
        exact ih ⟨htwins, by rw [h.rest]⟩ hc hd
      case h_2 p hp =>
        rw [hp] at hd
        dsimp only at hd
        split at hc
        · cases hc
        case h_2 c₁ hf =>
          split at hd
          · cases hd
          case h_2 d₁ hf' =>
            have hgo : goOn pc f dest tcp udp content e.1 rest c₁ = .ok c' := hc
            have hgo' : goOn pc g dest tcp udp content e.1 rest d₁ = .ok d' := hd
            obtain ⟨log, hlog⟩ := asked_goOn hgo
            obtain ⟨log', hlog'⟩ := asked_goOn hgo'
            have hsame : SameChoice ips f g c₁ d₁ := feed hips ⟨htwins, by rw [h.rest]⟩ hf hf'
              (fun x hx ↦ hc' x (hlog ▸ List.mem_append_left _ hx))
              (fun x hx ↦ hd' x (hlog' ▸ List.mem_append_left _ hx))
            obtain ⟨t₁, rfl⟩ : ∃ t₁, d₁ = { c₁ with sm := t₁ } := ⟨d₁.sm, hsame.rest⟩
            unfold goOn at hgo hgo'
            dsimp only at hgo'
            split at hgo
            case isTrue hops =>
              rw [if_pos hops] at hgo'
              cases hgo
              cases hgo'
              exact ⟨hsame.twins.setProtocol e.1, rfl⟩
            case isFalse hops =>
              rw [if_neg hops] at hgo'
              split at hgo
              case isTrue hcorrect =>
                rw [if_pos hcorrect] at hgo'
                have hguess : SameChoice ips f g { c₁ with guess := e.1, guessCount := c₁.guessCount + 1 }
                    { c₁ with sm := t₁, guess := e.1, guessCount := c₁.guessCount + 1 } := ⟨hsame.twins, rfl⟩
                exact ih hguess hgo hgo'
              case isFalse hcorrect =>
                rw [if_neg hcorrect] at hgo'
                exact ih hsame hgo hgo'

theorem chooseOps (hips : (ips.flatMap poolOf).Nodup) (h : Twins ips f g s t)
    (hc : Nat64Alg.chooseOps pc s f dest tcp udp content = .ok c')
    (hd : Nat64Alg.chooseOps pc t g dest tcp udp content = .ok d')
    (hc' : ∀ x ∈ c'.asked, Assigned allot x) (hd' : ∀ x ∈ d'.asked, Assigned allot x) : SameChoice ips f g c' d' := by
  unfold Nat64Alg.chooseOps at hc hd
  dsimp only at hc hd
  rw [← h.flow, ← h.protocols] at hd
  split at hc
  case isTrue hp =>
    rw [if_pos hp] at hd
    split at hc
    · cases hc
    case h_2 c₁ htry =>
      split at hd
      · cases hd
      case h_2 d₁ htry' =>
        have hask : c'.asked = c₁.asked := by
          split at hc <;> cases hc <;> rfl
        have hask' : d'.asked = d₁.asked := by
          split at hd <;> cases hd <;> rfl
        rw [hask] at hc'
        rw [hask'] at hd'
        have hsame : SameChoice ips f g c₁ d₁ := tryProtocols hips ⟨h, rfl⟩ htry htry' hc' hd'
        rw [hsame.rest] at hd
        dsimp only at hd
        split at hc
        case isTrue hguess =>
          rw [if_pos hguess] at hd
          cases hc
          cases hd
          exact ⟨hsame.twins.setProtocol c₁.guess, rfl⟩
        case isFalse hguess =>
          rw [if_neg hguess] at hd
          cases hc
          cases hd
          exact ⟨hsame.twins, rfl⟩
  case isFalse hp =>
    rw [if_neg hp] at hd
    obtain ⟨hget, htwins⟩ := @Twins.getParser _ pc _ _ _ _ _ h (s.flowAt f).getProtocol dest
    rw [← hget] at hd
    split at hc
    case h_1 hnone =>
      rw [hnone] at hd
      cases hc
      cases hd
      exact ⟨htwins, rfl⟩
    case h_2 p hp' =>
      rw [hp'] at hd
      exact feed hips ⟨htwins, rfl⟩ hc hd hc' hd'

end SameChoice

/-- Two calls of `doApp` with the same to show, over states that are twins. -/
structure SameOut (ips : List IPv4Addr) (f g : ℕ) (a b : AppOut σ) : Prop where
  twins : Twins ips f g a.sm b.sm
  pkt : a.pkt = b.pkt
  edit : a.edit = b.edit

section Calls

variable {allot : UInt16 → IP4Port} {nat nat' : NAT} {p : Packet} {dest : DEST} {a b : AppOut σ}

theorem SameChoice.applyOps {c d : Choice σ} (h : SameChoice ips f g c d) (nat nat' : NAT) (p : Packet) (dest : DEST) :
    SameOut ips f g (applyOps pc nat c p f dest) (applyOps pc nat' d p g dest) := by
  obtain ⟨t₁, rfl⟩ : ∃ t₁, d = { c with sm := t₁ } := ⟨d.sm, h.rest⟩
  obtain ⟨htwins, -⟩ := h
  unfold Nat64Alg.applyOps
  dsimp only at htwins ⊢
  rw [← htwins.flow, ← htwins.extra]
  split
  case h_1 parser hp =>
    split
    case isTrue hops =>
      have haddr := (addOffset_addr _ dest ((c.sm.flowAt f).modify pc c.sm.extra p c.ops parser).delta).trans
        (modify_addr (p := p) (c.sm.flowAt f) c.sm.extra pc c.ops parser)
      exact ⟨(htwins.setFlow haddr).storeParser _ _ _, rfl, rfl⟩
    case isFalse => exact ⟨htwins, rfl, rfl⟩
  case h_2 => exact ⟨htwins, rfl, rfl⟩

theorem asked_applyOps (nat : NAT) (c : Choice σ) (p : Packet) (f : ℕ) (dest : DEST) :
    (applyOps pc nat c p f dest).asked = c.asked := by
  rcases applyOps_cases nat c p f dest with he | ⟨_, -, -, he⟩ <;> rw [he]

theorem Twins.doContent (hips : (ips.flatMap poolOf).Nodup) (h : Twins ips f g s t)
    (ha : doContent pc nat s p f dest = .ok a) (hb : Nat64Alg.doContent pc nat' t p g dest = .ok b)
    (ha' : ∀ x ∈ a.asked, Assigned allot x) (hb' : ∀ x ∈ b.asked, Assigned allot x) : SameOut ips f g a b := by
  obtain ⟨⟨flow, q⟩, hq⟩ : ∃ r, (s.flowAt f).shiftTCP s.extra p = r := ⟨_, rfl⟩
  have hq' : (t.flowAt g).shiftTCP t.extra p = (flow, q) := by rw [← h.flow, ← h.extra, hq]
  have haddr := (shiftTCP_shifted s.extra (s.flowAt f) p).addr
  rw [hq] at haddr
  have htwins := h.setFlow haddr
  rcases doContent_shift ha hq with ⟨h₀, rfl⟩ | ⟨h₀, c, hc, rfl⟩
  · rcases doContent_shift hb hq' with ⟨-, rfl⟩ | ⟨h₁, -⟩
    · exact ⟨htwins, rfl, rfl⟩
    · omega
  · rcases doContent_shift hb hq' with ⟨h₁, -⟩ | ⟨-, d, hd, rfl⟩
    · omega
    · rw [asked_applyOps] at ha' hb'
      have hcount := htwins.setFlow (count_frame (p := q) ((s.setFlow f flow).flowAt f) dest).2.1
      rw [htwins.flow] at hcount hc
      exact (SameChoice.chooseOps hips hcount hc hd ha' hb').applyOps _ _ _ _

theorem Twins.doAppFlow (hips : (ips.flatMap poolOf).Nodup) (h : Twins ips f g s t)
    (ha : doAppFlow pc nat s p f = .ok a) (hb : Nat64Alg.doAppFlow pc nat' t p g = .ok b)
    (ha' : ∀ x ∈ a.asked, Assigned allot x) (hb' : ∀ x ∈ b.asked, Assigned allot x) : SameOut ips f g a b := by
  unfold Nat64Alg.doAppFlow at ha hb
  rw [h.left.mode, if_neg (by simp)] at ha
  rw [h.right.mode, if_neg (by simp), ← h.flow] at hb
  dsimp only at ha hb
  split at ha
  case isTrue hidle =>
    rw [if_pos hidle] at hb
    cases ha
    cases hb
    exact ⟨h, rfl, rfl⟩
  case isFalse hidle =>
    rw [if_neg hidle] at hb
    exact h.doContent hips ha hb ha' hb'

end Calls

end Nat64Alg
