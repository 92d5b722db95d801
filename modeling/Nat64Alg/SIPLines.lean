import Nat64Alg.SIPGrammar
import Mathlib.Data.List.Chain

namespace Nat64Alg

open Lib

namespace SIPScanner

def StartCondition.late : StartCondition → Bool
  | .body | .sdp_value => true
  | _ => false

def StartCondition.inLine : StartCondition → Bool
  | .header_via | .header_contact => true
  | _ => false

def Token.ofHeader : Token → Bool
  | .HEADER_IDENT | .HEADER_IDENT_VIA | .HEADER_IDENT_CONTACT | .HEADER_VALUE | .IP6ADDR => true
  | _ => false

def Token.ofBody : Token → Bool
  | .CHAR | .CHAR_c | .CHAR_m => true
  | _ => false

structure Emits (c : StartCondition) (k : Token) (c' : StartCondition) : Prop where
  late : c.late = true → c'.late = true
  line : c.inLine = true → k ≠ .CRLF → c' = c
  ofHeader : k.ofHeader = true → c.late = false
  addr : k = .IP6ADDR → c.inLine = true
  ofBody : k.ofBody = true → c.late = true

/-- What a rule's action can do: without a token it stays where it is. -/
def Acts (c : StartCondition) (r : State × Option Token) : Prop :=
  match r.2 with
  | some k => Emits c k r.1.cond
  | none => r.1.cond = c

variable {s : State} {m : Text}

theorem acts_ignore : Acts s.cond (ignore s m) := rfl

theorem acts_emit {k : Token} (h : (k.ofHeader = true → s.cond.late = false) ∧ (k = .IP6ADDR → s.cond.inLine = true) ∧
    (k.ofBody = true → s.cond.late = true)) : Acts s.cond (emit k s m) :=
  ⟨id, fun _ _ ↦ rfl, h.1, h.2.1, h.2.2⟩

theorem acts_crlf {c : StartCondition} (h : s.cond.late = true → c.late = true) : Acts s.cond (begin c .CRLF s m) where
  late := h
  line _ hk := absurd rfl hk
  ofHeader := by simp [Token.ofHeader]
  addr := by simp
  ofBody := by simp [Token.ofBody]

theorem acts_char {c : StartCondition} (h : s.cond.late = true → c.late = true)
    (hc : s.cond.inLine = true → c = s.cond) : Acts s.cond (emitChar { s with cond := c } m) where
  late := h
  line hl _ := hc hl
  ofHeader := by simp [Token.ofHeader]
  addr := by simp
  ofBody := by simp [Token.ofBody]

theorem acts_ident (h : s.cond = .header) : Acts s.cond (ident s m) := by
  have key : ∀ k nxt, k ≠ Token.IP6ADDR ∧ k.ofBody = false → Acts s.cond ({ s with nxt := nxt }, some k) := by
    intro k nxt hk
    refine ⟨id, fun _ _ ↦ rfl, fun _ ↦ by rw [h]; rfl, fun he ↦ absurd he hk.1, fun hb ↦ ?_⟩
    rw [hk.2] at hb
    cases hb
  unfold ident
  split
  · exact key _ _ (by decide)
  split
  · exact key _ _ (by decide)
  · exact key _ _ (by decide)

theorem acts_letter (h : s.cond = .body) : Acts s.cond (letter s m) := by
  have key : ∀ k, k ≠ Token.IP6ADDR ∧ k.ofHeader = false → Acts s.cond (s, some k) := by
    intro k hk
    refine ⟨id, fun _ _ ↦ rfl, fun hb ↦ ?_, fun he ↦ absurd he hk.1, fun _ ↦ by rw [h]; rfl⟩
    rw [hk.2] at hb
    cases hb
  unfold letter
  split
  · exact key _ (by decide)
  split
  · exact key _ (by decide)
  · exact key _ (by decide)

theorem rules_act : ∀ r ∈ rules, r.enabled s = true → Acts s.cond (r.action s m) := by
  have key : ∀ (c : StartCondition) (b : Bool) (pattern : Text → ℕ) (action : State → Text → State × Option Token),
      (s.cond = c → Acts s.cond (action s m)) →
      (rule c b pattern action).2.enabled s = true → Acts s.cond ((rule c b pattern action).2.action s m) := by
    intro c b pattern action h he
    simp only [rule, Bool.and_eq_true, beq_iff_eq] at he
    exact h he.1
  simp only [rules, initialRules, headerRules, viaRules, contactRules, bodyRules, List.map_append, List.map_cons,
    List.map_nil, List.forall_mem_append, List.forall_mem_cons, List.not_mem_nil, false_imp_iff, implies_true, and_true]
  and_intros
  all_goals refine key _ _ _ _ fun hc ↦ ?_
  all_goals first
    | exact acts_ignore
    | exact acts_emit (by rw [hc]; decide)
    | exact acts_crlf (by rw [hc]; decide)
    | exact acts_char (by simp [hc, StartCondition.late]) (by simp [hc, StartCondition.inLine])
    | exact acts_ident hc
    | exact acts_letter hc

abbrev Placed := StartCondition × Token × TokenType

def placed (echoed : UInt8 → ℕ) : Int → List (Consumed UInt8 State Token) → List Placed
  | _, [] => []
  | k, m :: ms =>
    match m.token with
    | some t => (m.state.cond, t, ⟨m.text, k, k + m.counts echoed⟩) :: placed echoed (k + m.counts echoed) ms
    | none => placed echoed (k + m.counts echoed) ms

/-- What the scanner matches before it is in the SDP body. -/
def headMatches (ms : List (Consumed UInt8 State Token)) : List (Consumed UInt8 State Token) :=
  ms.takeWhile (fun m ↦ !m.state.cond.late)

variable {t : Text} {ms : List (Consumed UInt8 State Token)} {x : Placed} {echoed : UInt8 → ℕ}

theorem placed_spans (k : Int) (ms : List (Consumed UInt8 State Token)) :
    (placed echoed k ms).map Prod.snd = spans echoed k ms := by
  induction ms generalizing k with
  | nil => rfl
  | cons m ms ih =>
    obtain ⟨⟨s, t, _ | k⟩, b⟩ := m
    · exact ih _
    · exact congrArg₂ List.cons rfl (ih _)

structure Next (x y : Placed) : Prop where
  late : x.1.late = true → y.1.late = true
  line : x.1.inLine = true → x.2.1 ≠ .CRLF → y.1 = x.1

structure From (c : StartCondition) (l : List Placed) : Prop where
  chain : l.IsChain Next
  late : c.late = true → ∀ x ∈ l, x.1.late = true
  line : c.inLine = true → ∀ x ∈ l.head?, x.1 = c
  emits : ∀ x ∈ l, ∃ c', Emits x.1 x.2.1 c'

theorem from_placed {k : Int} (h : Rule.Cut rules pass s t ms) : From s.cond (placed echoed k ms) := by
  induction h generalizing k with
  | nil s => exact ⟨.nil, by simp [placed], by simp [placed], by simp [placed]⟩
  | @rule s t r n ms _ hr hn hpos _ ih =>
    have hact := rules_act (m := t.take n) r hr (Rule.tried_pos (hn ▸ hpos))
    have ih := ih (k := k + (t.take n).length)
    unfold Acts at hact
    unfold placed
    split at hact
    case h_1 tok htok =>
      simp only [htok]
      refine ⟨List.isChain_cons.mpr ⟨fun y hy ↦ ⟨fun hl ↦ ih.late (hact.late hl) y (List.mem_of_mem_head? hy),
        fun hl hk ↦ ?_⟩, ih.chain⟩, fun hl ↦ ?_, fun _ ↦ by simp, ?_⟩
      · have hc := hact.line hl hk
        rw [← hc]
        exact ih.line (hc ▸ hl) y hy
      · rw [List.forall_mem_cons]
        exact ⟨hl, ih.late (hact.late hl)⟩
      · rw [List.forall_mem_cons]
        exact ⟨⟨_, hact⟩, ih.emits⟩
    case h_2 htok =>
      simp only [htok]
      rwa [← hact]
  | @skip s c cs ms _ _ ih => exact ih (k := k + ([c].map echoed).sum)

theorem placed_bounds (h : ∀ m ∈ ms, m.token ≠ none → m.counts echoed = m.text.length) : ∀ k : Int,
    ∀ x ∈ placed echoed k ms, k ≤ x.2.2.pos ∧ x.2.2.pos_end = x.2.2.pos + x.2.2.s.length ∧
      x.2.2.pos_end ≤ k + Consumed.counted echoed ms := by
  induction ms with
  | nil => simp [placed]
  | cons m ms ih =>
    intro k
    rw [List.forall_mem_cons] at h
    have ih := ih h.2 (k + m.counts echoed)
    rw [Consumed.counted_cons]
    have hrest : ∀ x ∈ placed echoed (k + m.counts echoed) ms,
        k ≤ x.2.2.pos ∧ x.2.2.pos_end = x.2.2.pos + x.2.2.s.length ∧
          x.2.2.pos_end ≤ k + (m.counts echoed + Consumed.counted echoed ms : ℕ) := by
      intro x hx
      obtain ⟨h₁, h₂, h₃⟩ := ih x hx
      exact ⟨by omega, h₂, by omega⟩
    unfold placed
    split
    case h_1 k' hk =>
      have hcounts := h.1 (by rw [hk]; exact Option.some_ne_none k')
      rw [List.forall_mem_cons]
      exact ⟨⟨by simp, by simp only [hcounts], by simp only; omega⟩, hrest⟩
    case h_2 => exact hrest

theorem placed_le (k : Int) (ms : List (Consumed UInt8 State Token)) : ∀ x ∈ placed echoed k ms, k ≤ x.2.2.pos := by
  induction ms generalizing k with
  | nil => simp [placed]
  | cons m ms ih =>
    have hrest : ∀ x ∈ placed echoed (k + m.counts echoed) ms, k ≤ x.2.2.pos := by
      intro x hx
      have := ih _ x hx
      omega
    unfold placed
    split
    · rw [List.forall_mem_cons]
      exact ⟨le_rfl, hrest⟩
    · exact hrest

theorem placed_order (k : Int) (ms : List (Consumed UInt8 State Token)) :
    (placed echoed k ms).Pairwise (fun x y ↦ x.2.2.pos_end ≤ y.2.2.pos) := by
  induction ms generalizing k with
  | nil => exact .nil
  | cons m ms ih =>
    unfold placed
    split
    · exact .cons (fun y hy ↦ placed_le _ ms y hy) (ih _)
    · exact ih _

theorem placed_s {k : Int} (h : ∀ m ∈ ms, m.text ≠ []) : ∀ x ∈ placed echoed k ms, x.2.2.s ≠ [] := by
  induction ms generalizing k with
  | nil => simp [placed]
  | cons m ms ih =>
    rw [List.forall_mem_cons] at h
    unfold placed
    split
    · rw [List.forall_mem_cons]
      exact ⟨h.1, ih h.2⟩
    · exact ih h.2

theorem headMatches_cons (m : Consumed UInt8 State Token) (ms : List (Consumed UInt8 State Token)) :
    headMatches (m :: ms) = if m.state.cond.late then [] else m :: headMatches ms := by
  unfold headMatches
  cases hl : m.state.cond.late with
  | true => simp [hl]
  | false => simp [hl]

theorem placed_side {k : Int} (h : Rule.Cut rules pass s t ms) : ∀ x ∈ placed echoed k ms,
    (x.1.late = false → x.2.2.pos_end ≤ k + Consumed.counted echoed (headMatches ms)) ∧
      (x.1.late = true → k + Consumed.counted echoed (headMatches ms) ≤ x.2.2.pos) := by
  have hcons : ∀ (m : Consumed UInt8 State Token) (ms : List (Consumed UInt8 State Token)) (k : Int),
      From m.state.cond (placed echoed k (m :: ms)) → (∀ x ∈ placed echoed (k + m.counts echoed) ms,
        (x.1.late = false → x.2.2.pos_end ≤ k + m.counts echoed + Consumed.counted echoed (headMatches ms)) ∧
        (x.1.late = true → k + m.counts echoed + Consumed.counted echoed (headMatches ms) ≤ x.2.2.pos)) →
      ∀ x ∈ placed echoed k (m :: ms),
        (x.1.late = false → x.2.2.pos_end ≤ k + Consumed.counted echoed (headMatches (m :: ms))) ∧
        (x.1.late = true → k + Consumed.counted echoed (headMatches (m :: ms)) ≤ x.2.2.pos) := by
    intro m ms k hfrom hms x hx
    rw [headMatches_cons]
    cases hl : m.state.cond.late with
    | true =>
      refine ⟨fun hf ↦ ?_, fun _ ↦ by simpa using placed_le k (m :: ms) x hx⟩
      rw [hfrom.late hl x hx] at hf
      cases hf
    | false =>
      rw [if_neg Bool.false_ne_true, Consumed.counted_cons]
      have hrest : x ∈ placed echoed (k + m.counts echoed) ms →
          (x.1.late = false →
            x.2.2.pos_end ≤ k + (m.counts echoed + Consumed.counted echoed (headMatches ms) : ℕ)) ∧
          (x.1.late = true →
            k + (m.counts echoed + Consumed.counted echoed (headMatches ms) : ℕ) ≤ x.2.2.pos) := by
        intro hx
        obtain ⟨h₁, h₂⟩ := hms x hx
        exact ⟨fun hf ↦ by have := h₁ hf; omega, fun hf ↦ by have := h₂ hf; omega⟩
      unfold placed at hx
      split at hx
      · rcases List.mem_cons.mp hx with rfl | hx
        · exact ⟨fun _ ↦ by dsimp only; omega, fun hf ↦ by rw [hl] at hf; cases hf⟩
        · exact hrest hx
      · exact hrest hx
  induction h generalizing k with
  | nil s => simp [placed]
  | rule hne hr hn hpos h ih => exact hcons _ _ k (from_placed (.rule hne hr hn hpos h)) ih
  | skip hnone h ih => exact hcons _ _ k (from_placed (.skip hnone h)) ih

/-- Tokens in a row, on either side of where the SDP body begins. -/
structure Sided (b : Int) (l : List Placed) : Prop where
  chain : l.IsChain Next
  emits : ∀ x ∈ l, ∃ c', Emits x.1 x.2.1 c'
  side : ∀ x ∈ l, (x.1.late = false → x.2.2.pos_end ≤ b) ∧ (x.1.late = true → b ≤ x.2.2.pos)

variable {l l' : List Placed} {p : Int}

theorem sided_placed (h : Rule.Cut rules pass s t ms) :
    Sided (Consumed.counted echoed (headMatches ms)) (placed echoed 0 ms) := by
  have hfrom : From s.cond (placed echoed 0 ms) := from_placed h
  refine ⟨hfrom.chain, hfrom.emits, fun x hx ↦ ?_⟩
  simpa using placed_side (k := 0) h x hx

namespace Sided

theorem within (h : Sided p l) (hl : l' <:+: l) : Sided p l' :=
  ⟨ List.IsChain.infix h.chain hl, fun x hx ↦ h.emits x (hl.subset hx), fun x hx ↦ h.side x (hl.subset hx)⟩

theorem tail (h : Sided p (x :: l)) : Sided p l := h.within ⟨[x], [], by simp⟩

theorem next {y : Placed} (h : Sided p (x :: y :: l)) : Next x y := (List.isChain_cons_cons.mp h.chain).1

theorem early (h : Sided p (x :: l)) (hk : x.2.1.ofHeader = true) : x.1.late = false := by
  obtain ⟨c', hc⟩ := h.emits x List.mem_cons_self
  exact hc.ofHeader hk

theorem inLine (h : Sided p (x :: l)) (hk : x.2.1 = .IP6ADDR) : x.1.inLine = true := by
  obtain ⟨c', hc⟩ := h.emits x List.mem_cons_self
  exact hc.addr hk

theorem late (h : Sided p (x :: l)) (hk : x.2.1.ofBody = true) : x.1.late = true := by
  obtain ⟨c', hc⟩ := h.emits x List.mem_cons_self
  exact hc.ofBody hk

theorem before (h : Sided p (x :: l)) (hx : x.1.late = false) : x.2.2.pos_end ≤ p := (h.side x List.mem_cons_self).1 hx

theorem after (h : Sided p (x :: l)) (hx : x.1.late = true) : p ≤ x.2.2.pos := (h.side x List.mem_cons_self).2 hx

end Sided

end SIPScanner

namespace SIPParser

open SIPScanner

/-- The values of a production that an operation may stand on. -/
def Line.tokens : Line → List TokenType
  | .header _ t₃ => [t₃]
  | .via t₄ t₅ => [t₄, t₅]
  | .contact t₇ t₉ => [t₇, t₉]
  | .other => []
  | .connection t₄ t₅ => [t₄, t₅]
  | .media t₄ => [t₄]

def Line.ofBody : Line → Bool
  | .header _ _ | .via _ _ | .contact _ _ => false
  | .other | .connection _ _ | .media _ => true

variable {ts us : List (Token × TokenType)} {l : Line} {ls : List Line} {ph : Phase} {p : Int} {ps : List Placed}

theorem placed_cons {x : Token × TokenType} (h : ps.map Prod.snd = x :: ts) :
    ∃ c qs, ps = (c, x) :: qs ∧ qs.map Prod.snd = ts := by
  obtain ⟨q, qs, rfl, rfl, hqs⟩ := List.map_eq_cons_iff.mp h
  exact ⟨q.1, qs, rfl, hqs⟩

theorem Header.side (h : Header ts l) (hp : Sided p ps) (hts : ps.map Prod.snd = ts) :
    ∀ t ∈ l.tokens, t.pos_end ≤ p := by
  cases h with
  | ident t₁ t₂ t₃ t₄ =>
    obtain ⟨c₁, ps₁, rfl, hts₁⟩ := placed_cons hts
    obtain ⟨c₂, ps₂, rfl, hts₂⟩ := placed_cons hts₁
    obtain ⟨c₃, ps₃, rfl, hts₃⟩ := placed_cons hts₂
    have h₃ := hp.tail.tail
    simp only [Line.tokens, List.forall_mem_cons, List.not_mem_nil, false_imp_iff, implies_true, and_true]
    exact h₃.before (h₃.early rfl)
  | via t₁ t₂ t₃ t₄ t₅ t₇ _ =>
    obtain ⟨c₁, ps₁, rfl, hts₁⟩ := placed_cons hts
    obtain ⟨c₂, ps₂, rfl, hts₂⟩ := placed_cons hts₁
    obtain ⟨c₃, ps₃, rfl, hts₃⟩ := placed_cons hts₂
    obtain ⟨c₄, ps₄, rfl, hts₄⟩ := placed_cons hts₃
    obtain ⟨c₅, ps₅, rfl, hts₅⟩ := placed_cons hts₄
    have h₄ := hp.tail.tail.tail
    have he := h₄.early rfl
    have h₅ := h₄.next.line (h₄.inLine rfl) (by simp)
    simp only [Line.tokens, List.forall_mem_cons, List.not_mem_nil, false_imp_iff, implies_true, and_true]
    exact ⟨h₄.before he, h₄.tail.before (by rw [h₅]; exact he)⟩
  | contact t₁ t₂ t₃ t₄ t₅ t₆ t₇ t₈ t₉ t₁₀ =>
    obtain ⟨c₁, ps₁, rfl, hts₁⟩ := placed_cons hts
    obtain ⟨c₂, ps₂, rfl, hts₂⟩ := placed_cons hts₁
    obtain ⟨c₃, ps₃, rfl, hts₃⟩ := placed_cons hts₂
    obtain ⟨c₄, ps₄, rfl, hts₄⟩ := placed_cons hts₃
    obtain ⟨c₅, ps₅, rfl, hts₅⟩ := placed_cons hts₄
    obtain ⟨c₆, ps₆, rfl, hts₆⟩ := placed_cons hts₅
    obtain ⟨c₇, ps₇, rfl, hts₇⟩ := placed_cons hts₆
    obtain ⟨c₈, ps₈, rfl, hts₈⟩ := placed_cons hts₇
    obtain ⟨c₉, ps₉, rfl, hts₉⟩ := placed_cons hts₈
    have h₇ := hp.tail.tail.tail.tail.tail.tail
    have he := h₇.early rfl
    have hin := h₇.inLine rfl
    have h₈ := h₇.next.line hin (by simp)
    have h₉ := h₇.tail.next.line (by rw [h₈]; exact hin) (by simp)
    simp only [Line.tokens, List.forall_mem_cons, List.not_mem_nil, false_imp_iff, implies_true, and_true]
    exact ⟨h₇.before he, h₇.tail.tail.before (by rw [h₉, h₈]; exact he)⟩

theorem SdpLine.side (h : SdpLine ts l) (hp : Sided p ps) (hts : ps.map Prod.snd = ts) :
    ∀ t ∈ l.tokens, p ≤ t.pos := by
  cases h with
  | other t₁ t₂ t₄ _ => simp [Line.tokens]
  | connection t₁ t₂ t₃ t₄ t₅ t₆ =>
    obtain ⟨c₁, ps₁, rfl, hts₁⟩ := placed_cons hts
    obtain ⟨c₂, ps₂, rfl, hts₂⟩ := placed_cons hts₁
    obtain ⟨c₃, ps₃, rfl, hts₃⟩ := placed_cons hts₂
    obtain ⟨c₄, ps₄, rfl, hts₄⟩ := placed_cons hts₃
    obtain ⟨c₅, ps₅, rfl, hts₅⟩ := placed_cons hts₄
    have h₄ := hp.tail.tail.next.late (hp.tail.next.late (hp.next.late (hp.late rfl)))
    have h₅ := hp.tail.tail.tail.next.late h₄
    simp only [Line.tokens, List.forall_mem_cons, List.not_mem_nil, false_imp_iff, implies_true, and_true]
    exact ⟨hp.tail.tail.tail.after h₄, hp.tail.tail.tail.tail.after h₅⟩
  | media t₁ t₂ t₃ t₄ t₆ _ =>
    obtain ⟨c₁, ps₁, rfl, hts₁⟩ := placed_cons hts
    obtain ⟨c₂, ps₂, rfl, hts₂⟩ := placed_cons hts₁
    obtain ⟨c₃, ps₃, rfl, hts₃⟩ := placed_cons hts₂
    obtain ⟨c₄, ps₄, rfl, hts₄⟩ := placed_cons hts₃
    have h₄ := hp.tail.tail.next.late (hp.tail.next.late (hp.next.late (hp.late rfl)))
    simp only [Line.tokens, List.forall_mem_cons, List.not_mem_nil, false_imp_iff, implies_true, and_true]
    exact hp.tail.tail.tail.after h₄

theorem Header.ofBody (h : Header ts l) : l.ofBody = false := by cases h <;> rfl

theorem SdpLine.ofBody (h : SdpLine ts l) : l.ofBody = true := by cases h <;> rfl

theorem Header.sublist (h : Header ts l) : l.tokens.Sublist (ts.map Prod.snd) := by
  cases h with
  | ident => simp [Line.tokens]
  | via => exact .cons _ (.cons _ (.cons _ (.cons_cons _ (.cons_cons _ (List.nil_sublist _)))))
  | contact => exact .cons _ (.cons _ (.cons _ (.cons _ (.cons _ (.cons _ (.cons_cons _ (.cons _ (.cons_cons _
      (List.nil_sublist _)))))))))

theorem SdpLine.sublist (h : SdpLine ts l) : l.tokens.Sublist (ts.map Prod.snd) := by
  cases h with
  | other => simp [Line.tokens]
  | connection => exact .cons _ (.cons _ (.cons _ (.cons_cons _ (.cons_cons _ (List.nil_sublist _)))))
  | media => simp [Line.tokens]

theorem Rest.sublist (h : Rest ph ts ls) : (ls.flatMap Line.tokens).Sublist (ts.map Prod.snd) := by
  induction h with
  | header h _ ih =>
    rw [List.flatMap_cons, List.map_append]
    exact h.sublist.append ih
  | error ts _ ih =>
    rw [List.map_append]
    exact ih.trans (List.sublist_append_right _ _)
  | sdp t _ ih => exact ih.cons _
  | sdp_line h _ ih =>
    rw [List.flatMap_cons, List.map_append]
    exact h.sublist.append ih
  | done => exact .slnil

theorem Rest.side (h : Rest ph ts ls) (hp : Sided p ps) (hts : ps.map Prod.snd = ts) :
    ∀ l ∈ ls, (l.ofBody = false → ∀ t ∈ l.tokens, t.pos_end ≤ p) ∧ (l.ofBody = true → ∀ t ∈ l.tokens, p ≤ t.pos) := by
  induction h generalizing ps with
  | header h _ ih =>
    obtain ⟨qs, rs, rfl, hq, hr⟩ := List.map_eq_append_iff.mp hts
    rw [List.forall_mem_cons]
    refine ⟨⟨fun _ ↦ h.side (hp.within (List.prefix_append _ _).isInfix) hq, fun hb ↦ ?_⟩,
      ih (hp.within (List.suffix_append _ _).isInfix) hr⟩
    rw [h.ofBody] at hb
    cases hb
  | error ts _ ih =>
    obtain ⟨qs, rs, rfl, hq, hr⟩ := List.map_eq_append_iff.mp hts
    exact ih (hp.within (List.suffix_append _ _).isInfix) hr
  | sdp t _ ih =>
    obtain ⟨c, qs, rfl, hq⟩ := placed_cons hts
    exact ih hp.tail hq
  | sdp_line h _ ih =>
    obtain ⟨qs, rs, rfl, hq, hr⟩ := List.map_eq_append_iff.mp hts
    rw [List.forall_mem_cons]
    refine ⟨⟨fun hb ↦ ?_, fun _ ↦ h.side (hp.within (List.prefix_append _ _).isInfix) hq⟩,
      ih (hp.within (List.suffix_append _ _).isInfix) hr⟩
    rw [h.ofBody] at hb
    cases hb
  | done => simp

/-- How the values of a message lie in its text, which has `n` bytes and its SDP body at `b`. -/
structure Laid (n b : Int) (ls : List Line) : Prop where
  order : (ls.flatMap Line.tokens).Pairwise (fun x y ↦ x.pos_end ≤ y.pos)
  bounds : ∀ t ∈ ls.flatMap Line.tokens, 0 ≤ t.pos ∧ t.pos < t.pos_end ∧ t.pos_end ≤ n ∧ t.s ≠ []
  side : ∀ l ∈ ls, (l.ofBody = false → ∀ t ∈ l.tokens, t.pos_end ≤ b) ∧ (l.ofBody = true → ∀ t ∈ l.tokens, b ≤ t.pos)

variable {echoed : UInt8 → ℕ} {nxt : StartCondition} {t : Text} {ms : List (Consumed UInt8 State Token)}

theorem Accepted.placed (h : Accepted echoed nxt t ms ls) :
    Laid (Consumed.counted echoed ms) (Consumed.counted echoed (headMatches ms)) ls := by
  obtain ⟨hscan, hder⟩ := h
  have htokens : (SIPScanner.placed echoed 0 ms).map Prod.snd = spans echoed 0 ms := placed_spans 0 ms
  have hbounds := placed_bounds (hscan.counts_token echoed) 0
  have hs : ∀ x ∈ SIPScanner.placed echoed 0 ms, x.2.2.s ≠ [] := placed_s hscan.text_ne_nil
  unfold tokens at hder
  rw [← htokens] at hder
  generalize hts : (SIPScanner.placed echoed 0 ms).map Prod.snd = ts at hder
  obtain ⟨t₁, t₂, t₃, t₄, hrest⟩ := hder
  obtain ⟨qs, ps, hps, -, hp⟩ := List.map_eq_append_iff.mp hts
  have hsuffix : ps <:+ SIPScanner.placed echoed 0 ms := ⟨qs, hps.symm⟩
  have hsub : (ls.flatMap Line.tokens).Sublist (ps.map (fun x ↦ x.2.2)) := by
    rw [show ps.map (fun x ↦ x.2.2) = (ps.map Prod.snd).map Prod.snd by rw [List.map_map]; rfl, hp]
    exact hrest.sublist
  refine ⟨?_, fun x hx ↦ ?_, hrest.side ((sided_placed hscan).within hsuffix.isInfix) hp⟩
  · exact (List.pairwise_map.mpr ((placed_order 0 ms).sublist hsuffix.sublist)).sublist hsub
  · obtain ⟨y, hy, rfl⟩ := List.mem_map.mp (hsub.subset hx)
    obtain ⟨h₁, h₂, h₃⟩ := hbounds y (hsuffix.subset hy)
    have hne := hs y (hsuffix.subset hy)
    have hpos := List.length_pos_iff.mpr hne
    exact ⟨h₁, by omega, by omega, hne⟩

end SIPParser

end Nat64Alg
