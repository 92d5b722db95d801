import Nat64Alg.SIPLines
import Nat64Alg.AddrPrint

namespace Nat64Alg

open Lib

namespace SIPParser

variable {S : Type} {h : Call → S → Option IP4Port × S} {junk : Junk} {p p' : Parser SIPFields} {s s' : S} {log : Asked}

def replace (t : TokenType) (newdata : Text) (cnt : Bool) : Operation := ⟨t.pos, t.pos_end, .REPLACE, newdata, cnt⟩

/-- An address and a port replaced by those of an endpoint. -/
def rewritten (ip port : TokenType) (e : IP4Port) (cnt : Bool) : List Operation :=
  [replace ip e.getIP.getString cnt, replace port e.getPortString cnt]

theorem mapTokens_run {ip port : TokenType} {cnt : Bool}
    (hr : (mapTokens junk ip port cnt p).run h s = .ok (p', s', log)) : ∃ e,
      p' = { p with ops := p.ops ++ rewritten ip port e cnt } ∧
      log = [(.doMapping (junk.ip6Port ip port), some e)] := by
  obtain ⟨log', rfl, hk⟩ := Prog.run_call hr
  cases he : (h (.doMapping (junk.ip6Port ip port)) s).1 with
  | none =>
    rw [he] at hk
    cases hk
  | some e =>
    rw [he] at hk
    cases hk
    refine ⟨e, ?_, rfl⟩
    simp only [Parser.addToken, Parser.addOperation, List.append_assoc]
    rfl

/-- What an action adds, by the address remembered and the endpoint it is given. -/
def Line.edits (c : TokenType) (e : IP4Port) : Line → List Operation
  | .via t₄ t₅ => rewritten t₄ t₅ e false
  | .contact t₇ t₉ => rewritten t₇ t₉ e false
  | .connection t₄ _ => [replace t₄ (text "IP4") true]
  | .media t₄ => if 0 < c.s.length then rewritten c t₄ e true else []
  | .header _ _ | .other => []

def Line.key (junk : Junk) (c : TokenType) : Line → Option IP6Port
  | .via t₄ t₅ => some (junk.ip6Port t₄ t₅)
  | .contact t₇ t₉ => some (junk.ip6Port t₇ t₉)
  | .media t₄ => if 0 < c.s.length then some (junk.ip6Port c t₄) else none
  | .header _ _ | .other | .connection _ _ => none

def Line.address (c : TokenType) : Line → TokenType
  | .connection _ t₅ => t₅
  | .header _ _ | .via _ _ | .contact _ _ | .other | .media _ => c

/-- The `Content-Length` kept after a line. -/
def Line.length (t : TokenType) : Line → TokenType
  | .header t₁ t₃ => if t₁.s = text "Content-Length" then t₃ else t
  | .via _ _ | .contact _ _ | .other | .connection _ _ | .media _ => t

def Line.asked (junk : Junk) (c : TokenType) (e : IP4Port) (l : Line) : Asked :=
  (l.key junk c).toList.map (fun k ↦ (.doMapping k, some e))

theorem action_run {l : Line} (hr : (l.action junk p).run h s = .ok (p', s', log)) : ∃ e,
    p'.ops = p.ops ++ l.edits p.st.c_ip_ e ∧ p'.st = ⟨l.address p.st.c_ip_, l.length p.st.content_len_⟩ ∧
    log = l.asked junk p.st.c_ip_ e := by
  cases l with
  | header t₁ t₃ =>
    cases hr
    by_cases ht : t₁.s = text "Content-Length"
    · simp only [if_pos ht, Line.length]
      exact ⟨.null, (List.append_nil _).symm, rfl, rfl⟩
    · simp only [if_neg ht, Line.length]
      exact ⟨.null, (List.append_nil _).symm, rfl, rfl⟩
  | via t₄ t₅ =>
    obtain ⟨e, rfl, rfl⟩ := mapTokens_run hr
    exact ⟨e, rfl, rfl, rfl⟩
  | contact t₇ t₉ =>
    obtain ⟨e, rfl, rfl⟩ := mapTokens_run hr
    exact ⟨e, rfl, rfl, rfl⟩
  | other =>
    cases hr
    exact ⟨.null, (List.append_nil _).symm, rfl, rfl⟩
  | connection t₄ t₅ =>
    cases hr
    exact ⟨.null, rfl, rfl, rfl⟩
  | media t₄ =>
    simp only [Line.action, media] at hr
    simp only [Line.edits, Line.asked, Line.key]
    split at hr
    case isTrue hc =>
      obtain ⟨e, rfl, rfl⟩ := mapTokens_run hr
      simp only [if_pos hc]
      exact ⟨e, rfl, rfl, rfl⟩
    case isFalse hc =>
      cases hr
      simp only [if_neg hc]
      exact ⟨.null, (List.append_nil _).symm, rfl, rfl⟩

/-- The lines of a message, each with the endpoint its action was given. -/
abbrev Served := List (Line × IP4Port)

def edits : TokenType → Served → List Operation
  | _, [] => []
  | c, (l, e) :: ls => l.edits c e ++ edits (l.address c) ls

def asked (junk : Junk) : TokenType → Served → Asked
  | _, [] => []
  | c, (l, e) :: ls => l.asked junk c e ++ asked junk (l.address c) ls

/-- The `Content-Length` kept in the end. -/
def lengthOf (ls : List Line) (t : TokenType) : TokenType := ls.foldl Line.length t

theorem actions_run {ls : List Line} (hr : (actions junk ls p).run h s = .ok (p', s', log)) : ∃ served : Served,
    served.map Prod.fst = ls ∧ p'.ops = p.ops ++ edits p.st.c_ip_ served ∧
    p'.st.content_len_ = lengthOf ls p.st.content_len_ ∧ log = asked junk p.st.c_ip_ served := by
  induction ls generalizing p s log with
  | nil =>
    cases hr
    exact ⟨[], rfl, (List.append_nil _).symm, rfl, rfl⟩
  | cons l ls ih =>
    obtain ⟨q, t, log₁, log₂, h₁, h₂, rfl⟩ := Prog.of_run_bind hr
    obtain ⟨e, hops, hst, rfl⟩ := action_run h₁
    obtain ⟨served, rfl, hops', hlen, rfl⟩ := ih h₂
    rw [hst] at hops' hlen
    refine ⟨(l, e) :: served, rfl, ?_, hlen, ?_⟩
    · rw [hops', hops, edits, List.append_assoc]
    · rw [hst, asked]

/-- The last operation, on the `Content-Length` kept. -/
def lengthEdit (avalue : Int) (ls : List Line) (delta : Int) : List Operation :=
  if 0 < (lengthOf ls ⟨[], 0, 0⟩).s.length then
    [replace (lengthOf ls ⟨[], 0, 0⟩) ((lengthOf ls ⟨[], 0, 0⟩).addInt avalue delta).s false]
  else []

theorem parse_run {c : CommunicatorKind} {avalue : Int} {ls : List Line}
    (hr : (parse junk avalue ls (fresh c)).run h s = .ok (p, s', log)) : ∃ served : Served,
    served.map Prod.fst = ls ∧ log = asked junk ⟨[], 0, 0⟩ served ∧
    p.ops = edits ⟨[], 0, 0⟩ served ++
      lengthEdit avalue ls (((edits ⟨[], 0, 0⟩ served).filter Operation.cnt).map Operation.delta).sum := by
  obtain ⟨q, rfl, hq⟩ := Prog.of_run_map hr
  obtain ⟨served, hserved, hops, hlen, hlog⟩ := actions_run hq
  simp only [fresh, Parser.new, List.nil_append] at hops hlen hlog
  refine ⟨served, hserved, hlog, ?_⟩
  unfold sipmessage lengthEdit
  rw [hlen]
  split
  · simp only [Parser.addToken, Parser.addOperation, Parser.totalDelta, hops]
    rfl
  · rw [hops, List.append_nil]

/-- The tokens an action puts operations on, and whether they count for the length. -/
def Line.touches (c : TokenType) : Line → List (TokenType × Bool)
  | .via t₄ t₅ => [(t₄, false), (t₅, false)]
  | .contact t₇ t₉ => [(t₇, false), (t₉, false)]
  | .connection t₄ _ => [(t₄, true)]
  | .media t₄ => if 0 < c.s.length then [(c, true), (t₄, true)] else []
  | .header _ _ | .other => []

def touched : TokenType → List Line → List (TokenType × Bool)
  | _, [] => []
  | c, l :: ls => l.touches c ++ touched (l.address c) ls

def place (o : Operation) : Int × Int × Bool := (o.start_pos, o.end_pos, o.cnt)

def placeOf (x : TokenType × Bool) : Int × Int × Bool := (x.1.pos, x.1.pos_end, x.2)

theorem edits_place (c : TokenType) (served : Served) :
    (edits c served).map place = (touched c (served.map Prod.fst)).map placeOf := by
  induction served generalizing c with
  | nil => rfl
  | cons x served ih =>
    obtain ⟨l, e⟩ := x
    rw [List.map_cons, edits, touched, List.map_append, List.map_append, ih]
    congr 1
    cases l with
    | media t₄ =>
      simp only [Line.edits, Line.touches]
      split <;> rfl
    | _ => rfl

inductive Mark
  | c
  | m
deriving DecidableEq

def Line.mark : Line → Option Mark
  | .connection _ _ => some .c
  | .media _ => some .m
  | .header _ _ | .via _ _ | .contact _ _ | .other => none

/-- The `c=` and `m=` lines of a message. -/
def marks (ls : List Line) : List Mark := ls.filterMap Line.mark

theorem marks_none {l : Line} (h : l.mark = none) (ls : List Line) : marks (l :: ls) = marks ls :=
  List.filterMap_cons_none h

theorem marks_some {l : Line} {k : Mark} (h : l.mark = some k) (ls : List Line) : marks (l :: ls) = k :: marks ls :=
  List.filterMap_cons_some h

variable {c : TokenType} {l : Line} {ls : List Line} {x : TokenType × Bool}

structure Apart (c : TokenType) (ls : List Line) : Prop where
  nodup : (ls.flatMap Line.tokens).Nodup
  ne_nil : ∀ t ∈ ls.flatMap Line.tokens, t.s ≠ []
  new : c.s ≠ [] → c ∉ ls.flatMap Line.tokens

theorem Apart.tail (h : Apart c (l :: ls)) : Apart (l.address c) ls := by
  obtain ⟨h₁, h₂, h₃⟩ := h
  rw [List.flatMap_cons] at h₁ h₂ h₃
  have hdis := List.disjoint_of_nodup_append h₁
  refine ⟨h₁.of_append_right, fun t ht ↦ h₂ t (List.mem_append_right _ ht), fun hc hm ↦ ?_⟩
  have hold : l.address c = c → False := fun he ↦ by
    rw [he] at hc hm
    exact h₃ hc (List.mem_append_right _ hm)
  cases l with
  | connection t₄ t₅ => exact hdis (by simp [Line.tokens, Line.address]) hm
  | _ => exact hold rfl

def Line.isHeader : Line → Bool
  | .header _ _ => true
  | .via _ _ | .contact _ _ | .other | .connection _ _ | .media _ => false

theorem touched_line (h : x ∈ touched c ls) :
    (∃ l ∈ ls, x.1 ∈ l.tokens ∧ l.ofBody = x.2 ∧ l.isHeader = false) ∨ (x.1 = c ∧ x.2 = true ∧ c.s ≠ []) := by
  induction ls generalizing c with
  | nil => cases h
  | cons l ls ih =>
    rcases List.mem_append.mp h with h | h
    · have hl : (x.1 ∈ l.tokens ∧ l.ofBody = x.2 ∧ l.isHeader = false) ∨ (x.1 = c ∧ x.2 = true ∧ c.s ≠ []) := by
        cases l with
        | header => cases h
        | via =>
          simp only [Line.touches, List.mem_cons, List.not_mem_nil, or_false] at h
          rcases h with rfl | rfl <;> simp [Line.tokens, Line.ofBody, Line.isHeader]
        | contact =>
          simp only [Line.touches, List.mem_cons, List.not_mem_nil, or_false] at h
          rcases h with rfl | rfl <;> simp [Line.tokens, Line.ofBody, Line.isHeader]
        | other => cases h
        | connection =>
          rw [List.mem_singleton.mp h]
          simp [Line.tokens, Line.ofBody, Line.isHeader]
        | media =>
          simp only [Line.touches] at h
          split at h
          case isTrue hc =>
            simp only [List.mem_cons, List.not_mem_nil, or_false] at h
            rcases h with rfl | rfl
            · exact .inr ⟨rfl, rfl, List.length_pos_iff.mp hc⟩
            · simp [Line.tokens, Line.ofBody, Line.isHeader]
          case isFalse => cases h
      rcases hl with hl | hl
      · exact .inl ⟨l, List.mem_cons_self, hl⟩
      · exact .inr hl
    · rcases ih h with ⟨l', hl', h⟩ | ⟨h, htrue, hne⟩
      · exact .inl ⟨l', List.mem_cons_of_mem _ hl', h⟩
      · cases l with
        | connection t₄ t₅ =>
          refine .inl ⟨.connection t₄ t₅, List.mem_cons_self, ?_, htrue.symm, rfl⟩
          rw [h]
          simp [Line.tokens, Line.address]
        | _ => exact .inr ⟨h, htrue, hne⟩

theorem touched_mem (h : x ∈ touched c ls) : x.1 ∈ ls.flatMap Line.tokens ∨ (x.1 = c ∧ c.s ≠ []) := by
  rcases touched_line h with ⟨l, hl, hx, -⟩ | ⟨hx, -, hc⟩
  · exact .inl (List.mem_flatMap.mpr ⟨l, hl, hx⟩)
  · exact .inr ⟨hx, hc⟩

theorem address_touched (h : Apart c ls) (hc : c.s ≠ []) :
    (∃ x ∈ touched c ls, x.1 = c) ↔ (marks ls).head? = some .m := by
  induction ls with
  | nil => simp [touched, marks]
  | cons l ls ih =>
    have hnew := h.new hc
    rw [List.flatMap_cons, List.mem_append, not_or] at hnew
    have hskip : l.mark = none → l.address c = c → (∀ x ∈ l.touches c, x.1 ≠ c) →
        ((∃ x ∈ touched c (l :: ls), x.1 = c) ↔ (marks (l :: ls)).head? = some .m) := by
      intro hm ha ht
      have htail := h.tail
      rw [ha] at htail
      rw [marks_none hm, touched, ha, ← ih htail]
      constructor
      · rintro ⟨x, hx, he⟩
        rcases List.mem_append.mp hx with hx | hx
        · exact absurd he (ht x hx)
        · exact ⟨x, hx, he⟩
      · rintro ⟨x, hx, he⟩
        exact ⟨x, List.mem_append_right _ hx, he⟩
    cases l with
    | header => exact hskip rfl rfl (by simp [Line.touches])
    | via =>
      refine hskip rfl rfl ?_
      simp only [Line.tokens, List.mem_cons, List.not_mem_nil, or_false, not_or] at hnew
      simp [Line.touches, Ne.symm hnew.1.1, Ne.symm hnew.1.2]
    | contact =>
      refine hskip rfl rfl ?_
      simp only [Line.tokens, List.mem_cons, List.not_mem_nil, or_false, not_or] at hnew
      simp [Line.touches, Ne.symm hnew.1.1, Ne.symm hnew.1.2]
    | other => exact hskip rfl rfl (by simp [Line.touches])
    | connection t₄ t₅ =>
      simp only [Line.tokens, List.mem_cons, List.not_mem_nil, or_false, not_or] at hnew
      constructor
      case mpr =>
        intro hm
        cases hm
      rintro ⟨x, hx, he⟩
      exfalso
      rcases List.mem_append.mp hx with hx | hx
      · rw [List.mem_singleton.mp hx] at he
        exact hnew.1.1 he.symm
      · rcases touched_mem hx with hx | ⟨hx, -⟩
        · exact hnew.2 (he ▸ hx)
        · exact hnew.1.2 (he.symm.trans hx)
    | media t₄ =>
      refine ⟨fun _ ↦ rfl, fun _ ↦ ⟨(c, true), ?_, rfl⟩⟩
      simp [touched, Line.touches, List.length_pos_iff.mpr hc]

end SIPParser

end Nat64Alg
