import Nat64Alg.Parser
import Mathlib.Data.List.Infix

namespace Nat64Alg

/-- What the parser of pages keeps beside the members of `Parser`. -/
structure HTTPState where
  curTag : Text
  ignore : Int
  chunked : Bool
  len : Int
deriving DecidableEq, Repr

abbrev HTTPParser := Parser HTTPState

/-- The calls the actions of a page make once its headers are over. -/
inductive TagCall
  | beginTag (tag : Text)
  | endTag (tag : Text)
  | reportIP (ip : Text) (pos pos_end : Int)
deriving DecidableEq, Repr

namespace HTTPParser

def rawText (tag : Text) : Bool := tag == text "textarea" || tag == text "script"

def anchor : Text := text "a"

def beginTag (p : HTTPParser) (tag : Text) : HTTPParser :=
  if p.st.ignore ≠ 0 then p
  else { p with
    st.curTag := tag
    st.ignore := if rawText tag then p.st.ignore + 1 else p.st.ignore }

def endTag (p : HTTPParser) (tag : Text) : HTTPParser :=
  if rawText tag then { p with st.ignore := p.st.ignore - 1 } else p

/-- The operation on an address: bars in place of its dots. -/
def urlOperation (ip : Text) (pos pos_end : Int) : Operation :=
  ⟨pos, pos_end, .REPLACE, ip.map (fun c ↦ if c = 46 then 124 else c), false⟩

def reportIP (p : HTTPParser) (ip : Text) (pos pos_end : Int) : HTTPParser :=
  if p.st.curTag == anchor then p.addOperation (urlOperation ip pos pos_end) else p

/-- The action of `emptyline`, on the token of the line break. -/
def emptyline (p : HTTPParser) (t : TokenType) : HTTPParser :=
  let p : HTTPParser := { p with st.ignore := 0 }
  if p.st.chunked then p
  else if 0 < p.st.len then
    let buf := (Nat.toDigits 16 p.st.len.toNat).map (fun c ↦ UInt8.ofNat c.toNat) ++ text "\r\n"
    { p.addOperation ⟨t.pos_end, t.pos_end, .REPLACE, buf, false⟩ with
      endPos := t.pos_end + p.st.len
      maxPos := t.pos_end
      maxLen := p.st.len }
  else p

def call (p : HTTPParser) : TagCall → HTTPParser
  | .beginTag tag => p.beginTag tag
  | .endTag tag => p.endTag tag
  | .reportIP ip pos pos_end => p.reportIP ip pos pos_end

/-- The parser at the end of its headers: it has read no tag, and its counter was not set. -/
def headersRead (c : CommunicatorKind) (ignore : Int) (chunked : Bool) (t : TokenType) : HTTPParser :=
  emptyline (Parser.new c ⟨[], ignore, chunked, 0⟩) t

def run (p : HTTPParser) (calls : List TagCall) : HTTPParser := calls.foldl call p

end HTTPParser

open HTTPParser

/-- What a reader of the page knows: the element of raw text he is inside, and the last tag
opened. In raw text nothing is opened, and only the closing tag of its element ends it. -/
structure Page where
  inside : Option Text
  last : Option Text
deriving DecidableEq, Repr

namespace Page

def next (pg : Page) : TagCall → Page
  | .beginTag tag =>
    if pg.inside.isSome then pg else ⟨if rawText tag then some tag else none, some tag⟩
  | .endTag tag => if pg.inside = some tag then { pg with inside := none } else pg
  | .reportIP _ _ _ => pg

def after (calls : List TagCall) : Page := calls.foldl next ⟨none, none⟩

end Page

/-- Rewriting is suppressed in raw text and nowhere else. -/
structure Suppressed (pg : Page) (p : HTTPParser) : Prop where
  counter : p.st.ignore = 0 ∨ p.st.ignore = 1
  inside : p.st.ignore = 1 ↔ pg.inside.isSome = true
  report : ∀ ip pos pos_end, (p.reportIP ip pos pos_end).ops =
    if p.st.ignore = 0 ∧ pg.last = some anchor then p.ops ++ [urlOperation ip pos pos_end] else p.ops

/-- Each closing tag of an element of raw text closes the one the page is inside. -/
def Balanced (calls : List TagCall) : Prop :=
  ∀ pre tag post, calls = pre ++ .endTag tag :: post → rawText tag = true → (Page.after pre).inside = some tag

/-- How parser and page go together as long as closing tags match. -/
def Matched (pg : Page) (p : HTTPParser) : Prop :=
  match pg.inside with
  | none => p.st.ignore = 0 ∧ p.st.curTag = pg.last.getD []
  | some tag => rawText tag = true ∧ p.st.ignore = 1 ∧ p.st.curTag = tag ∧ pg.last = some tag

section Tags

variable {pg : Page} {p : HTTPParser}

theorem reportIP_ops (p : HTTPParser) (ip : Text) (pos pos_end : Int) : (p.reportIP ip pos pos_end).ops =
    if p.st.curTag = anchor then p.ops ++ [urlOperation ip pos pos_end] else p.ops := by
  unfold reportIP
  simp only [beq_iff_eq]
  split <;> rfl

theorem reportIP_st (p : HTTPParser) (ip : Text) (pos pos_end : Int) : (p.reportIP ip pos pos_end).st = p.st := by
  unfold reportIP
  split <;> rfl

theorem rawText_anchor : rawText anchor = false := by decide

theorem Matched.suppressed (h : Matched pg p) : Suppressed pg p := by
  unfold Matched at h
  cases hin : pg.inside with
  | none =>
    rw [hin] at h
    obtain ⟨h₀, htag⟩ := h
    refine ⟨.inl h₀, by simp [h₀, hin], fun ip pos pos_end ↦ ?_⟩
    rw [reportIP_ops, htag]
    cases hlast : pg.last with
    | none => simp [anchor, text]
    | some tag => simp [h₀]
  | some tag =>
    rw [hin] at h
    obtain ⟨hraw, h₁, rfl, -⟩ := h
    refine ⟨.inr h₁, by simp [h₁, hin], fun ip pos pos_end ↦ ?_⟩
    rw [reportIP_ops, if_neg, if_neg (by simp [h₁])]
    intro ha
    rw [ha, rawText_anchor] at hraw
    cases hraw

theorem Matched.next (h : Matched pg p) {c : TagCall}
    (hc : ∀ tag, c = .endTag tag → rawText tag = true → pg.inside = some tag) :
    Matched (pg.next c) (p.call c) := by
  rcases pg with ⟨inside, last⟩
  cases c with
  | beginTag tag =>
    cases inside with
    | none =>
      obtain ⟨h₀, -⟩ : p.st.ignore = 0 ∧ _ := h
      cases hraw : rawText tag <;> simp [Matched, Page.next, call, beginTag, h₀, hraw]
    | some t =>
      obtain ⟨hraw, h₁, htag, hlast⟩ : rawText t = true ∧ p.st.ignore = 1 ∧ p.st.curTag = t ∧ last = some t := h
      simp [Matched, Page.next, call, beginTag, h₁, hraw, htag, hlast]
  | endTag tag =>
    cases hraw : rawText tag with
    | false =>
      have hne : inside ≠ some tag := by
        rintro rfl
        have hraw' : rawText tag = true := h.1
        simp [hraw] at hraw'
      simp only [Page.next, if_neg hne, call, endTag, hraw]
      exact h
    | true =>
      obtain rfl : inside = some tag := hc tag rfl hraw
      obtain ⟨-, h₁, htag, hlast⟩ : rawText tag = true ∧ p.st.ignore = 1 ∧ p.st.curTag = tag ∧ last = some tag := h
      simp [Matched, Page.next, call, endTag, h₁, hraw, htag, hlast]
  | reportIP ip pos pos_end =>
    simp only [Page.next, call]
    unfold Matched at h ⊢
    rw [reportIP_st]
    exact h

end Tags

section Runs

variable {calls : List TagCall} {p : HTTPParser}

theorem after_append (calls : List TagCall) (c : TagCall) :
    Page.after (calls ++ [c]) = (Page.after calls).next c := by simp [Page.after]

theorem run_append (p : HTTPParser) (calls : List TagCall) (c : TagCall) :
    p.run (calls ++ [c]) = (p.run calls).call c := by simp [HTTPParser.run]

theorem Balanced.of_append {calls : List TagCall} {c : TagCall} (h : Balanced (calls ++ [c])) : Balanced calls :=
  fun pre tag post hsplit hraw ↦ h pre tag (post ++ [c]) (by simp [hsplit]) hraw

theorem Balanced.matched (h : Balanced calls) (hp : Matched ⟨none, none⟩ p) :
    Matched (Page.after calls) (p.run calls) := by
  induction calls using List.reverseRecOn with
  | nil => exact hp
  | append_singleton calls c ih =>
    rw [after_append, run_append]
    refine (ih h.of_append).next fun tag hc hraw ↦ ?_
    subst hc
    exact h calls tag [] rfl hraw

theorem Suppressed.closes {pg : Page} (h : Suppressed pg p) {tag : Text} (hraw : rawText tag = true)
    (h' : Suppressed (pg.next (.endTag tag)) (p.call (.endTag tag))) : pg.inside = some tag := by
  have hdown : (p.call (.endTag tag)).st.ignore = p.st.ignore - 1 := by simp [call, endTag, hraw]
  have hcounter := h'.counter
  have hinside := h'.inside
  rw [hdown] at hcounter hinside
  by_contra hne
  rw [Page.next, if_neg hne, ← h.inside] at hinside
  omega

end Runs

theorem matched_headersRead (c : CommunicatorKind) (ignore : Int) (chunked : Bool) (t : TokenType) :
    Matched ⟨none, none⟩ (headersRead c ignore chunked t) := by
  cases chunked <;> exact ⟨rfl, rfl⟩

/-- Rewriting is suppressed as it should be at every point of exactly those pages on which
every closing tag of a script or a text area closes the one that is open. -/
theorem suppressed_iff_balanced (c : CommunicatorKind) (ignore : Int) (chunked : Bool) (t : TokenType)
    (calls : List TagCall) : (∀ pre, pre <+: calls →
      Suppressed (Page.after pre) ((headersRead c ignore chunked t).run pre)) ↔ Balanced calls := by
  refine ⟨fun h pre tag post hsplit hraw ↦ ?_, fun h pre hpre ↦ ?_⟩
  · have h₁ := h pre ⟨.endTag tag :: post, hsplit.symm⟩
    have h₂ := h (pre ++ [.endTag tag]) ⟨post, by simp [hsplit]⟩
    rw [after_append, run_append] at h₂
    exact h₁.closes hraw h₂
  · obtain ⟨post, rfl⟩ := hpre
    have hbal : Balanced pre := fun a tag b hsplit hraw ↦ h a tag (b ++ post) (by simp [hsplit]) hraw
    exact (hbal.matched (matched_headersRead c ignore chunked t)).suppressed

/-- Once the counter is below 0 no tag is noticed any more: every address is
rewritten, or none, as the last tag before decided. -/
theorem HTTPParser.run_of_negative {p : HTTPParser} (h : p.st.ignore < 0) (calls : List TagCall) :
    (p.run calls).st.ignore < 0 ∧ (p.run calls).st.curTag = p.st.curTag := by
  induction calls using List.reverseRecOn with
  | nil => exact ⟨h, rfl⟩
  | append_singleton calls c ih =>
    rw [run_append]
    obtain ⟨hneg, htag⟩ := ih
    cases c with
    | beginTag tag =>
      rw [call, beginTag, if_pos (by omega)]
      exact ⟨hneg, htag⟩
    | endTag tag =>
      rw [call, endTag]
      split
      · exact ⟨by dsimp only; omega, htag⟩
      · exact ⟨hneg, htag⟩
    | reportIP ip pos pos_end =>
      rw [call, reportIP_st]
      exact ⟨hneg, htag⟩

/-- A page that starts by closing a script it never opened: no anchor after it is noticed. -/
theorem stray_closing : (¬∀ calls, Suppressed (Page.after calls)
      ((headersRead .stateful 0 false ⟨[10], 0, 1⟩).run calls)) ∧
    ∀ ip pos pos_end, ((headersRead .stateful 0 false ⟨[10], 0, 1⟩).run
      [.endTag (text "script"), .beginTag anchor, .reportIP ip pos pos_end]).ops = [] := by
  refine ⟨fun h ↦ absurd (h [.endTag (text "script")]).counter (by decide), fun ip pos pos_end ↦ ?_⟩
  exact reportIP_ops ((headersRead .stateful 0 false ⟨[10], 0, 1⟩).run [.endTag (text "script"), .beginTag anchor])
    ip pos pos_end

end Nat64Alg
