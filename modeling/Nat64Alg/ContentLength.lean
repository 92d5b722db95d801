import Nat64Alg.SIPEdits
import Nat64Alg.Sessions
import Nat64Alg.Splicing

namespace Nat64Alg

open Lib

namespace Operation

def On (o : Operation) (t : TokenType) : Prop := o.start_pos = t.pos ∧ o.end_pos = t.pos_end

end Operation

variable {ops : List Operation} {n i : Int} {t : Text} {b : ℕ}

namespace SIPParser

open SIPScanner

def Line.contentLength : Line → Option TokenType
  | .header t₁ t₃ => if t₁.s = text "Content-Length" then some t₃ else none
  | .via _ _ | .contact _ _ | .other | .connection _ _ | .media _ => none

/-- The values of the `Content-Length` headers. The grammar knows the name in this spelling only. -/
def contentLengths (ls : List Line) : List TokenType := ls.filterMap Line.contentLength

variable {n b : Int} {ls : List Line} {served : Served} {t : TokenType}

theorem contentLength_line (h : t ∈ contentLengths ls) :
    ∃ l ∈ ls, t ∈ l.tokens ∧ l.ofBody = false ∧ l.isHeader = true := by
  obtain ⟨l, hl, ht⟩ := List.mem_filterMap.mp h
  refine ⟨l, hl, ?_⟩
  cases l with
  | header t₁ t₃ =>
    simp only [Line.contentLength] at ht
    split at ht
    case isTrue => exact ⟨by simp [Line.tokens, Option.some.inj ht], rfl, rfl⟩
    case isFalse => cases ht
  | _ => cases ht

theorem lengthOf_eq (ls : List Line) (t : TokenType) : lengthOf ls t = (contentLengths ls).getLast?.getD t := by
  induction ls generalizing t with
  | nil => rfl
  | cons l ls ih =>
    have hl : l.length t = l.contentLength.getD t := by
      cases l with
      | header t₁ t₃ =>
        simp only [Line.length, Line.contentLength]
        split <;> rfl
      | _ => rfl
    change lengthOf ls (l.length t) = _
    rw [ih, hl]
    cases hv : l.contentLength with
    | none => rw [contentLengths, contentLengths, List.filterMap_cons_none hv, Option.getD_none]
    | some v =>
      rw [contentLengths, contentLengths, List.filterMap_cons_some hv, List.getLast?_cons, Option.getD_some,
        Option.getD_some]

def Separate (x y : TokenType) : Prop := x.pos_end ≤ y.pos ∨ y.pos_end ≤ x.pos

instance : Std.Symm Separate := ⟨fun _ _ h ↦ h.symm⟩

namespace Laid

theorem apart (h : Laid n b ls) : Apart ⟨[], 0, 0⟩ ls := by
  refine ⟨h.order.imp_of_mem (fun {x y} hx hy hxy ↦ ?_), fun t ht ↦ (h.bounds t ht).2.2.2, fun hc ↦ absurd rfl hc⟩
  rintro rfl
  have := (h.bounds x hx).2.1
  omega

theorem separate (h : Laid n b ls) {x y : TokenType} (hx : x ∈ ls.flatMap Line.tokens)
    (hy : y ∈ ls.flatMap Line.tokens) (hne : x ≠ y) : Separate x y :=
  (h.order.imp (S := Separate) .inl).forall hx hy hne

theorem eq_of_pos (h : Laid n b ls) {x y : TokenType} (hx : x ∈ ls.flatMap Line.tokens)
    (hy : y ∈ ls.flatMap Line.tokens) (hpos : x.pos = y.pos) : x = y := by
  by_contra hne
  have h₁ := (h.bounds x hx).2.1
  have h₂ := (h.bounds y hy).2.1
  rcases h.separate hx hy hne with h | h
  · omega
  · omega

theorem line_eq (h : Laid n b ls) {l l' : Line} (hl : l ∈ ls) (hl' : l' ∈ ls) (ht : t ∈ l.tokens)
    (ht' : t ∈ l'.tokens) :
    l = l' := by
  have : Std.Symm (Function.onFun List.Disjoint Line.tokens) := ⟨fun _ _ h _ hb ha ↦ h ha hb⟩
  by_contra hne
  exact (List.nodup_flatMap.mp h.apart.nodup).2.forall hl hl' hne ht ht'

end Laid

theorem edits_mem (h : Laid n b ls) (hs : served.map Prod.fst = ls) {o : Operation} (ho : o ∈ edits ⟨[], 0, 0⟩ served) :
    ∃ x ∈ touched ⟨[], 0, 0⟩ ls, o.On x.1 ∧ x.1 ∈ ls.flatMap Line.tokens ∧ (o.cnt = true ↔ b ≤ o.start_pos) ∧
      x.1 ∉ contentLengths ls := by
  have hplace : place o ∈ (touched ⟨[], 0, 0⟩ ls).map placeOf := by
    rw [← hs, ← edits_place]
    exact List.mem_map_of_mem ho
  obtain ⟨x, hx, he⟩ := List.mem_map.mp hplace
  simp only [placeOf, place, Prod.mk.injEq] at he
  obtain ⟨h₁, h₂, h₃⟩ := he
  rcases touched_line hx with ⟨l, hl, hxl, hbody, hhead⟩ | ⟨-, -, hc⟩
  · have hmem := List.mem_flatMap.mpr ⟨l, hl, hxl⟩
    have hb := h.bounds _ hmem
    refine ⟨x, hx, ⟨h₁.symm, h₂.symm⟩, hmem, ?_, fun hv ↦ ?_⟩
    · rw [← h₃, ← hbody, ← h₁]
      refine ⟨fun hf ↦ (h.side l hl).2 hf _ hxl, fun hle ↦ ?_⟩
      by_contra hf
      have := (h.side l hl).1 (by simpa using hf) _ hxl
      omega
    · obtain ⟨l', hl', hxl', -, hhead'⟩ := contentLength_line hv
      rw [h.line_eq hl hl' hxl hxl', hhead'] at hhead
      cases hhead
  · exact absurd rfl hc

variable {avalue delta : Int} {o : Operation} {v : TokenType}

theorem contentLengths_tokens (h : v ∈ contentLengths ls) : v ∈ ls.flatMap Line.tokens := by
  obtain ⟨l, hl, hv, -⟩ := contentLength_line h
  exact List.mem_flatMap.mpr ⟨l, hl, hv⟩

theorem lengthEdit_mem (ho : o ∈ lengthEdit avalue ls delta) : ∃ v ∈ contentLengths ls,
    o = replace v (v.addInt avalue delta).s false := by
  unfold lengthEdit at ho
  split at ho
  case isFalse => cases ho
  case isTrue hpos =>
    refine ⟨_, ?_, List.mem_singleton.mp ho⟩
    rw [lengthOf_eq] at hpos ⊢
    cases hlast : (contentLengths ls).getLast? with
    | none =>
      rw [hlast] at hpos
      exact absurd hpos (Nat.lt_irrefl 0)
    | some v => exact List.mem_of_getLast? hlast

section Whole

variable {t : Text} {b : ℕ}

end Whole

variable {σ : Type} {sm : StateManager σ} {junk : Junk} {echoed : UInt8 → ℕ} {nxt : StartCondition} {t : Text}
  {ms : List (Consumed UInt8 State Token)} {p : Parser SIPFields} {s : StateManager σ × FlowPtr} {log : Asked}

theorem exists_parse (ls : List Line) (h : ((parse noJunk 0 ls (fresh .stateless)).run answer
      ((StateManager.exampleConf : StateManager Unit), none)).toOption.isSome = true) :
    ∃ p s log, (parse noJunk 0 ls (fresh .stateless)).run answer
      ((StateManager.exampleConf : StateManager Unit), none) = .ok (p, s, log) := by
  obtain ⟨r, hr⟩ := exists_ok h
  exact ⟨r.1, r.2.1, r.2.2, hr⟩

/-- The same streams, each with the address in a line of its own. -/
def twoStreams : Text :=
  text "INVITE a b\r\nContent-Length: 9\r\n\r\nc=IN IP6 ::1\r\nm=audio 9 x\r\nc=IN IP6 ::1\r\nm=video 8 x\r\n"

def twoStreamsLines : List Line :=
  [.header ⟨text "Content-Length", 12, 26⟩ ⟨text "9", 28, 29⟩, .connection ⟨text "IP6", 38, 41⟩ ⟨text "::1", 42, 45⟩,
    .media ⟨text "9", 55, 56⟩, .connection ⟨text "IP6", 65, 68⟩ ⟨text "::1", 69, 72⟩, .media ⟨text "8", 82, 83⟩]

theorem twoStreams_accepted : Accepted once .header twoStreams (lexed .header twoStreams) twoStreamsLines := by
  refine ⟨scans_lexed _ _, ?_⟩
  have htokens : tokens once (lexed .header twoStreams) =
      [(.METHOD, ⟨text "INVITE", 0, 6⟩), (.TEXT, ⟨text "a", 7, 8⟩), (.TEXT, ⟨text "b", 9, 10⟩),
        (.CRLF, ⟨text "\r\n", 10, 12⟩), (.HEADER_IDENT, ⟨text "Content-Length", 12, 26⟩),
        (.char COLON, ⟨text ":", 26, 27⟩), (.HEADER_VALUE, ⟨text "9", 28, 29⟩), (.CRLF, ⟨text "\r\n", 29, 31⟩),
        (.CRLF, ⟨text "\r\n", 31, 33⟩), (.CHAR_c, ⟨text "c", 33, 34⟩), (.char EQUALS, ⟨text "=", 34, 35⟩),
        (.TEXT, ⟨text "IN", 35, 37⟩), (.TEXT, ⟨text "IP6", 38, 41⟩), (.TEXT, ⟨text "::1", 42, 45⟩),
        (.CRLF, ⟨text "\r\n", 45, 47⟩), (.CHAR_m, ⟨text "m", 47, 48⟩), (.char EQUALS, ⟨text "=", 48, 49⟩),
        (.TEXT, ⟨text "audio", 49, 54⟩), (.TEXT, ⟨text "9", 55, 56⟩), (.TEXT, ⟨text "x", 57, 58⟩),
        (.CRLF, ⟨text "\r\n", 58, 60⟩), (.CHAR_c, ⟨text "c", 60, 61⟩), (.char EQUALS, ⟨text "=", 61, 62⟩),
        (.TEXT, ⟨text "IN", 62, 64⟩), (.TEXT, ⟨text "IP6", 65, 68⟩), (.TEXT, ⟨text "::1", 69, 72⟩),
        (.CRLF, ⟨text "\r\n", 72, 74⟩), (.CHAR_m, ⟨text "m", 74, 75⟩), (.char EQUALS, ⟨text "=", 75, 76⟩),
        (.TEXT, ⟨text "video", 76, 81⟩), (.TEXT, ⟨text "8", 82, 83⟩), (.TEXT, ⟨text "x", 84, 85⟩),
        (.CRLF, ⟨text "\r\n", 85, 87⟩)] := by decide +kernel
  rw [htokens]
  exact .mk _ _ _ _ (.header (.ident _ _ _ _) (.sdp _ (.sdp_line (.connection _ _ _ _ _ _)
    (.sdp_line (.media _ _ _ _ _ (.text _)) (.sdp_line (.connection _ _ _ _ _ _)
      (.sdp_line (.media _ _ _ _ _ (.text _)) .done))))))

end SIPParser

end Nat64Alg
