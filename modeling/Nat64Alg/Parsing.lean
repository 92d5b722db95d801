import Nat64Alg.Growth

namespace Nat64Alg

open Lib StateManager

variable {σ : Type}

/-- The part of a flow that only the rewriting of packets writes, never a parser. -/
structure Ledger where
  trail : DEST → Text
  trail_shift : OrderedMap UInt32 Text wordLt
  tid : Int
  offset_c2s : Int
  offset_s2c : Int
  segments : DEST → List Segment
  init_seq_set : DEST → Bool
  init_seq : DEST → UInt32

def Flow.ledger (f : Flow σ) : Ledger :=
  ⟨f.trail, f.trail_shift, f.tid, f.offset_c2s, f.offset_s2c, f.segments, f.init_seq_set, f.init_seq⟩

def Ledger.new : Ledger := ⟨fun _ ↦ [], .empty, -1, 0, 0, fun _ ↦ [], fun _ ↦ false, fun _ ↦ 0⟩

variable {ips : List IPv4Addr} {sm sm' sm'' : StateManager σ} {pc : ParserClass σ}

/-- A change that only lets flows be added, ignored, or given parsers and a protocol. -/
structure Quiet (ips : List IPv4Addr) (sm sm' : StateManager σ) : Prop where
  grown : Grown ips sm sm'
  ledger : ∀ g, (sm'.flowAt g).ledger = (sm.flowAt g).ledger

namespace Quiet

theorem refl (sm : StateManager σ) : Quiet ips sm sm := ⟨Grown.refl sm, fun _ ↦ rfl⟩

theorem trans (h : Quiet ips sm sm') (h' : Quiet ips sm' sm'') : Quiet ips sm sm'' :=
  ⟨h.grown.trans h'.grown, fun g ↦ (h'.ledger g).trans (h.ledger g)⟩

theorem setFlow {f : ℕ} {flow : Flow σ} (ha : flow.addr = (sm.flowAt f).addr)
    (hl : flow.ledger = (sm.flowAt f).ledger) : Quiet ips sm (sm.setFlow f flow) :=
  ⟨Grown.setFlow ha, flowAt_setFlow_congr Flow.ledger hl⟩

end Quiet

theorem flowAt_create (k : Key64) (e : IP4Port) (pool : List IP4Port) (g : ℕ) :
    (sm.create k e pool).flowAt g =
      if g = sm.heap.length then Flow.new k.1 e k.2 (getServerAddr4 k.2) else sm.flowAt g := by
  unfold flowAt create
  rcases lt_trichotomy g sm.heap.length with h | rfl | h
  · rw [if_neg h.ne, List.getElem?_append_left h]
  · simp
  · rw [if_neg h.ne', List.getElem?_append_right h.le, List.getElem?_eq_none h.le,
      List.getElem?_eq_none (by simp; omega)]

theorem flowAt_absent {g : ℕ} (h : sm.heap.length ≤ g) : (sm.flowAt g).ledger = Ledger.new := by
  simp only [flowAt, List.getElem?_eq_none h]
  rfl

namespace Quiet

theorem doMapping (hips : (ips.flatMap poolOf).Nodup) (sm : StateManager σ) (k : IP6Port) (srv : IPv6Addr) :
    Quiet ips sm (sm.doMapping k srv).2 := by
  refine ⟨Grown.doMapping hips sm k srv, fun g ↦ ?_⟩
  rcases doMapping_cases (Prod.eta (sm.doMapping k srv)).symm with
    ⟨f, -, -, he⟩ | ⟨e, pool, hk, hp, -, he⟩ | ⟨-, -, -, he⟩
  · rw [he]
  · rw [he, flowAt_create]
    split
    case isTrue hg => exact (flowAt_absent hg.ge).symm
    case isFalse => rfl
  · rw [he]

end Quiet

structure Frame (R : StateManager σ → StateManager σ → Prop) : Prop where
  refl : ∀ sm, R sm sm
  trans : ∀ {s t u}, R s t → R t u → R s u
  setFlow : ∀ {s : StateManager σ} {f : ℕ} {flow : Flow σ}, flow.addr = (s.flowAt f).addr →
    flow.ledger = (s.flowAt f).ledger → R s (s.setFlow f flow)
  doMapping : ∀ (s : StateManager σ) (k : IP6Port) (srv : IPv6Addr), R s (s.doMapping k srv).2

theorem Quiet.frame (hips : (ips.flatMap poolOf).Nodup) : Frame (@Quiet σ ips) :=
  ⟨Quiet.refl, Quiet.trans, Quiet.setFlow, Quiet.doMapping hips⟩

namespace Frame

variable {R : StateManager σ → StateManager σ → Prop}

theorem answer (hR : Frame R) (c : Call) (s : StateManager σ × FlowPtr) : R s.1 (Nat64Alg.answer c s).2.1 := by
  cases c with
  | doMapping k => exact hR.doMapping s.1 k s.1.ip6srv_cur_
  | setIgnore =>
    unfold Nat64Alg.answer
    dsimp only
    split
    · exact hR.setFlow rfl rfl
    · exact hR.refl _

theorem run (hR : Frame R) {α : Type} {prog : Script α} {a : α} {r r' : FlowPtr} {log : Asked}
    (h : prog.run Nat64Alg.answer (sm, r) = .ok (a, (sm', r'), log)) : R sm sm' :=
  Prog.run_invariant (I := fun s ↦ R sm s.1) (fun s c hs _ ↦ hR.trans hs (hR.answer c s)) h (hR.refl sm)

end Frame

/-- A relation, which may speak of the calls made, that a parser's turn on the flow `f` keeps to. -/
structure Course (R : StateManager σ → Asked → StateManager σ → Prop) (f : ℕ) : Prop where
  refl : ∀ s, R s [] s
  trans : ∀ {s t u log log'}, R s log t → R t log' u → R s (log ++ log') u
  setFlow : ∀ {s : StateManager σ} {flow : Flow σ}, flow.addr = (s.flowAt f).addr →
    flow.ledger = (s.flowAt f).ledger → R s [] (s.setFlow f flow)
  run : ∀ {α : Type} {prog : Script α} {a : α} {s s' : StateManager σ} {r : FlowPtr} {log : Asked},
    prog.run Nat64Alg.answer (s, none) = .ok (a, (s', r), log) → R s log s'

theorem Frame.course {R : StateManager σ → StateManager σ → Prop} (hR : Frame R) (f : ℕ) :
    Course (fun s _ s' ↦ R s s') f :=
  ⟨hR.refl, hR.trans, hR.setFlow, hR.run⟩

theorem feed_cases {f : ℕ} {dest : DEST} {content : Text} {name : String} {p : Parser σ} {c c' : Choice σ}
    (h : feed pc f dest content name p c = .ok c') :
    ∃ ops p' s r log, (p.process pc content).run answer (c.sm, none) = .ok ((ops, p'), (s, r), log) ∧
      c' = { c with
        sm := s.storeParser f name dest p', asked := c.asked ++ log, ops := ops, parser := some p',
        pos := p.total_len } := by
  unfold feed at h
  split at h
  · cases h
  case h_2 ops p' s log hr =>
    cases h
    exact ⟨ops, p', s.1, s.2, log, hr, rfl⟩

namespace Course

variable {R : StateManager σ → Asked → StateManager σ → Prop} {f : ℕ}

theorem quietly (hR : Course R f) {log : Asked} (h : R sm [] sm') (h' : R sm' log sm'') : R sm log sm'' :=
  hR.trans h h'

theorem before (hR : Course R f) {log : Asked} (h : R sm log sm') (h' : R sm' [] sm'') : R sm log sm'' := by
  have := hR.trans h h'
  rwa [List.append_nil] at this

theorem setParser (hR : Course R f) (dest : DEST) (name : String) (p : Option (Parser σ)) :
    R sm [] (sm.setFlow f ((sm.flowAt f).setParser dest name p)) := by
  cases dest <;> exact hR.setFlow rfl rfl

theorem setProtocol (hR : Course R f) (name : String) :
    R sm [] (sm.setFlow f ((sm.flowAt f).setProtocol name)) := hR.setFlow rfl rfl

theorem getParser (hR : Course R f) (name : String) (dest : DEST) :
    R sm [] (sm.getParser pc f name dest).2 := by
  unfold StateManager.getParser
  split
  · exact hR.refl _
  · split
    · exact hR.refl _
    · exact hR.setParser dest name _
  · exact hR.refl _

theorem storeParser (hR : Course R f) (name : String) (dest : DEST) (p : Parser σ) :
    R sm [] (sm.storeParser f name dest p) := by
  unfold StateManager.storeParser
  split
  · exact hR.setParser dest name _
  · exact hR.refl _

theorem feed (hR : Course R f) {dest : DEST} {content : Text} {name : String} {p : Parser σ} {c c' : Choice σ}
    (h : feed pc f dest content name p c = .ok c') : ∃ log, c'.asked = c.asked ++ log ∧ R c.sm log c'.sm := by
  obtain ⟨ops, p', s, r, log, hr, rfl⟩ := feed_cases h
  exact ⟨log, rfl, hR.before (hR.run hr) (hR.storeParser name dest p')⟩

theorem tryProtocols (hR : Course R f) {dest : DEST} {tcp udp : Bool} {content : Text}
    {l : List (String × Protocol)} {c c' : Choice σ} (h : tryProtocols pc f dest tcp udp content l c = .ok c') :
    ∃ log, c'.asked = c.asked ++ log ∧ R c.sm log c'.sm := by
  induction l generalizing c with
  | nil =>
    cases h
    exact ⟨[], (List.append_nil _).symm, hR.refl _⟩
  | cons e rest ih =>
    simp only [Nat64Alg.tryProtocols] at h
    split at h
    · exact ih h
    · have hget : R c.sm [] (c.sm.getParser pc f e.1 dest).2 := hR.getParser e.1 dest
      split at h
      · obtain ⟨log, hlog, hrest⟩ := ih h
        exact ⟨log, hlog, hR.quietly hget hrest⟩
      · split at h
        · cases h
        case h_2 p _ c₁ hf =>
          obtain ⟨log, hlog, hfed⟩ := hR.feed hf
          have hfed := hR.quietly hget hfed
          split at h
          · cases h
            exact ⟨log, hlog, hR.before hfed (hR.setProtocol e.1)⟩
          · have hgo : ∀ c₂ : Choice σ, c₂.sm = c₁.sm → c₂.asked = c₁.asked →
                Nat64Alg.tryProtocols pc f dest tcp udp content rest c₂ = .ok c' →
                ∃ log, c'.asked = c.asked ++ log ∧ R c.sm log c'.sm := by
              intro c₂ hsm hask h
              obtain ⟨log', hlog', hrest⟩ := ih h
              rw [hsm] at hrest
              refine ⟨log ++ log', ?_, hR.trans hfed hrest⟩
              rw [hlog', hask, hlog, List.append_assoc]
            split at h
            · exact hgo { c₁ with guess := e.1, guessCount := c₁.guessCount + 1 } rfl rfl h
            · exact hgo c₁ rfl rfl h

theorem chooseOps (hR : Course R f) {dest : DEST} {tcp udp : Bool} {content : Text} {c : Choice σ}
    (h : chooseOps pc sm f dest tcp udp content = .ok c) : R sm c.asked c.sm := by
  unfold Nat64Alg.chooseOps at h
  dsimp only at h
  split at h
  · split at h
    · cases h
    case h_2 c₁ hc =>
      obtain ⟨log, hlog, hq⟩ := hR.tryProtocols hc
      obtain rfl : c₁.asked = log := hlog
      split at h
      · cases h
        exact hR.before hq (hR.setProtocol c₁.guess)
      · cases h
        exact hq
  · have hget : R sm [] (sm.getParser pc f (sm.flowAt f).getProtocol dest).2 := hR.getParser _ dest
    split at h
    · cases h
      exact hget
    · obtain ⟨log, hlog, hfed⟩ := hR.feed h
      obtain rfl : c.asked = log := hlog
      exact hR.quietly hget hfed

end Course

namespace Frame

variable {R : StateManager σ → StateManager σ → Prop}

theorem storeParser (hR : Frame R) (f : ℕ) (name : String) (dest : DEST) (p : Parser σ) :
    R sm (sm.storeParser f name dest p) := (hR.course f).storeParser name dest p

theorem chooseOps (hR : Frame R) {f : ℕ} {dest : DEST} {tcp udp : Bool} {content : Text} {c : Choice σ}
    (h : chooseOps pc sm f dest tcp udp content = .ok c) : R sm c.sm := (hR.course f).chooseOps h

end Frame

end Nat64Alg
