import Nat64Alg.History
import Nat64Alg.Splicing

namespace Nat64Alg

open Lib StateManager

variable {σ : Type} {pc : ParserClass σ} {ips : List IPv4Addr} {sm sm' sm'' : StateManager σ} {f : ℕ} {d : DEST}
  {name : String}

/-- Where the positions of a parser for the next payload start: at 0, or behind all
that was fed to the parser the flow keeps. -/
def StateManager.position (sm : StateManager σ) (f : ℕ) (name : String) (d : DEST) : ℕ :=
  match sm.ptype name d with
  | .STATEFUL => ((((sm.flowAt f).parsers d).find? name).join.filter (fun p ↦ !p.ended)).elim 0 Parser.total_len
  | _ => 0

/-- A change that leaves the parser a flow keeps under one name. -/
structure EntryKept (f : ℕ) (d : DEST) (name : String) (sm sm' : StateManager σ) : Prop where
  length : sm.heap.length ≤ sm'.heap.length
  protocols : sm'.protocols = sm.protocols
  entry : f < sm.heap.length →
    ((sm'.flowAt f).parsers d).find? name = ((sm.flowAt f).parsers d).find? name

namespace EntryKept

theorem refl (sm : StateManager σ) : EntryKept f d name sm sm := ⟨le_refl _, rfl, fun _ ↦ rfl⟩

theorem trans (h : EntryKept f d name sm sm') (h' : EntryKept f d name sm' sm'') : EntryKept f d name sm sm'' :=
  ⟨h.length.trans h'.length, h'.protocols.trans h.protocols,
    fun hf ↦ (h'.entry (hf.trans_le h.length)).trans (h.entry hf)⟩

theorem position (h : EntryKept f d name sm sm') (hf : f < sm.heap.length) :
    sm'.position f name d = sm.position f name d := by
  unfold StateManager.position StateManager.ptype
  rw [h.protocols, h.entry hf]

theorem setFlow {g : ℕ} {flow : Flow σ}
    (h : (flow.parsers d).find? name = ((sm.flowAt g).parsers d).find? name) :
    EntryKept f d name sm (sm.setFlow g flow) := by
  refine ⟨by simp [StateManager.setFlow], rfl, fun hf ↦ ?_⟩
  rcases eq_or_ne g f with rfl | hne
  · rw [flowAt_setFlow hf, h]
  · rw [flowAt_setFlow_ne hne]

theorem answer (c : Call) (s : StateManager σ × FlowPtr) : EntryKept f d name s.1 (Nat64Alg.answer c s).2.1 := by
  cases c with
  | doMapping k =>
    change EntryKept f d name s.1 (s.1.doMapping k s.1.ip6srv_cur_).2
    rcases doMapping_cases (Prod.eta (s.1.doMapping k s.1.ip6srv_cur_)).symm with
      ⟨g, -, -, he⟩ | ⟨e, pool, hk, hp, -, he⟩ | ⟨-, -, -, he⟩
    · rw [he]
      exact refl _
    · rw [he]
      refine ⟨by simp [create], rfl, fun hf ↦ ?_⟩
      rw [flowAt_create, if_neg hf.ne]
    · rw [he]
      exact refl _
  | setIgnore =>
    unfold Nat64Alg.answer
    dsimp only
    split
    · exact setFlow (by cases d <;> rfl)
    · exact refl _

theorem run {α : Type} {prog : Script α} {a : α} {r r' : FlowPtr} {log : Asked}
    (h : prog.run Nat64Alg.answer (sm, r) = .ok (a, (sm', r'), log)) : EntryKept f d name sm sm' :=
  Prog.run_invariant (I := fun s ↦ EntryKept f d name sm s.1) (fun s c hs _ ↦ hs.trans (answer c s)) h (refl sm)

theorem setParser {g : ℕ} {dest : DEST} {name' : String} {p : Option (Parser σ)}
    (h : equiv nameLt name name' = false) :
    EntryKept f d name sm (sm.setFlow g ((sm.flowAt g).setParser dest name' p)) := by
  refine setFlow ?_
  cases d <;> cases dest <;> simp [Flow.setParser, Flow.parsers, OrderedMap.find?_insert, h]

theorem getParser {g : ℕ} {dest : DEST} {name' : String} (h : equiv nameLt name name' = false) :
    EntryKept f d name sm (sm.getParser pc g name' dest).2 := by
  unfold StateManager.getParser
  split
  · exact refl _
  · split
    · exact refl _
    · exact setParser h
  · exact refl _

theorem storeParser {g : ℕ} {dest : DEST} {name' : String} {p : Parser σ} (h : equiv nameLt name name' = false) :
    EntryKept f d name sm (sm.storeParser g name' dest p) := by
  unfold StateManager.storeParser
  split
  · exact setParser h
  · exact refl _

end EntryKept

theorem getParser_position {p : Parser σ} (h : (sm.getParser pc f name d).1 = some p) :
    p.total_len = sm.position f name d := by
  have hmake : ∀ {c : CommunicatorKind}, Parser.make pc name c = some p → p.total_len = 0 := by
    intro c hp
    obtain ⟨st, -, rfl⟩ := Option.map_eq_some_iff.mp hp
    rfl
  unfold StateManager.getParser at h
  unfold StateManager.position
  split at h
  case h_1 hpt =>
    rw [hpt]
    exact hmake h
  case h_2 hpt =>
    rw [hpt]
    dsimp only
    split at h
    case h_1 q hq =>
      cases h
      rw [hq]
      rfl
    case h_2 hq =>
      rw [hq]
      exact hmake h
  case h_3 => cases h

theorem feed_kept {dest : DEST} {content : Text} {name' : String} {p : Parser σ} {c c' : Choice σ}
    (hne : equiv nameLt name name' = false) (h : feed pc f dest content name' p c = .ok c') :
    EntryKept f d name c.sm c'.sm := by
  obtain ⟨ops, p', s, r, log, hr, rfl⟩ := feed_cases h
  exact (EntryKept.run hr).trans (EntryKept.storeParser hne)

theorem tryProtocols_pos {tcp udp : Bool} {content : Text} {l : List (String × Protocol)}
    (hl : l.Pairwise (fun x y ↦ nameLt x.1 y.1 = true)) {c c' : Choice σ} (hf : f < c.sm.heap.length)
    (h : tryProtocols pc f d tcp udp content l c = .ok c') (hc : c.ops = []) (hops : 0 < c'.ops.length) :
    (∃ e ∈ l, e.1 = c'.protocol) ∧ c'.pos = c.sm.position f c'.protocol d := by
  induction l generalizing c with
  | nil =>
    cases h
    rw [hc] at hops
    cases hops
  | cons e rest ih =>
    obtain ⟨hlt, hrest⟩ := List.pairwise_cons.mp hl
    have hpass : ∀ {c₁ : Choice σ}, (∀ e' ∈ rest, EntryKept f d e'.1 c.sm c₁.sm) → c₁.ops = [] →
        tryProtocols pc f d tcp udp content rest c₁ = .ok c' →
        (∃ e' ∈ e :: rest, e'.1 = c'.protocol) ∧ c'.pos = c.sm.position f c'.protocol d := by
      intro c₁ hkept hc₁ h₁
      rcases rest with _ | ⟨e₀, rest₀⟩
      · cases h₁
        rw [hc₁] at hops
        cases hops
      have hlen := (hkept e₀ List.mem_cons_self).length
      obtain ⟨⟨e', he', hn⟩, hpos⟩ := ih hrest (hf.trans_le hlen) h₁ hc₁
      exact ⟨⟨e', List.mem_cons_of_mem _ he', hn⟩, by rw [hpos, ← hn, (hkept e' he').position hf]⟩
    have hne : ∀ e' ∈ rest, equiv nameLt e'.1 e.1 = false := fun e' he' ↦ by
      rw [OrderedMap.equiv_comm, OrderedMap.not_equiv_of_lt (hlt e' he')]
    simp only [tryProtocols] at h
    split at h
    · exact hpass (fun _ _ ↦ EntryKept.refl _) hc h
    have hget : ∀ e' ∈ rest, EntryKept f d e'.1 c.sm (c.sm.getParser pc f e.1 d).2 :=
      fun e' he' ↦ EntryKept.getParser (hne e' he')
    split at h
    · exact @hpass { c with sm := (c.sm.getParser pc f e.1 d).2, parser := none } hget hc h
    case h_2 p hp =>
      have hpos := getParser_position hp
      split at h
      · cases h
      case h_2 c₁ hfeed =>
        have hfed : ∀ e' ∈ rest, EntryKept f d e'.1 c.sm c₁.sm :=
          fun e' he' ↦ (hget e' he').trans (feed_kept (hne e' he') hfeed)
        split at h
        case isTrue =>
          cases h
          obtain ⟨_, _, _, _, _, -, rfl⟩ := feed_cases hfeed
          exact ⟨⟨e, List.mem_cons_self, rfl⟩, hpos⟩
        case isFalse hnone =>
          have hnil : c₁.ops = [] := List.length_eq_zero_iff.mp (by omega)
          split at h
          · exact @hpass { c₁ with guess := e.1, guessCount := c₁.guessCount + 1 } hfed hnil h
          · exact hpass hfed hnil h

theorem chooseOps_pos {tcp udp : Bool} {content : Text} {c : Choice σ} (hf : f < sm.heap.length)
    (h : chooseOps pc sm f d tcp udp content = .ok c) (hops : 0 < c.ops.length) :
    c.pos = sm.position f c.protocol d := by
  unfold chooseOps at h
  dsimp only at h
  split at h
  · split at h
    · cases h
    case h_2 c₁ hc₁ =>
      split at h
      · cases h
        exact (tryProtocols_pos sm.protocols.sorted hf hc₁ rfl hops).2
      · cases h
        exact (tryProtocols_pos sm.protocols.sorted hf hc₁ rfl hops).2
  · split at h
    · cases h
      cases hops
    case h_2 p hp =>
      have hpos := getParser_position hp
      obtain ⟨_, _, _, _, _, -, rfl⟩ := feed_cases h
      exact hpos

end Nat64Alg
