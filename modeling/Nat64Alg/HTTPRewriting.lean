import Nat64Alg.Editing
import Nat64Alg.HTTPGrammar

namespace Nat64Alg

open Lib HTTPScanner

namespace HTTPParser

/-- What the parser takes of an address: blanks and quotes between its tokens are lost. -/
def tight (t : Text) : Text := t.filter (fun c ↦ !(isBlank c || isQuote c))

def Dotted (t : Text) : Prop := ∃ a b c d : Text, t = a ++ DOT :: (b ++ DOT :: (c ++ DOT :: d)) ∧
  ∀ w ∈ [a, b, c, d], w ≠ [] ∧ ∀ x ∈ w, isDigit x = true

def barred (t : Text) : Text := t.map (fun c ↦ if c = 46 then 124 else c)

def texts (ms : List (Consumed UInt8 State Token)) : Text := (ms.map (fun m ↦ m.text)).flatten

def Generated.counted (g : Generated) (ms : List (Consumed UInt8 State Token)) : ℕ := Consumed.counted g.echoed ms

/-- The operation on an address, after what has been counted before it. -/
def edit (k n : ℕ) (t : Text) : Operation := ⟨k, k + n, .REPLACE, barred (tight t), false⟩

inductive Located (g : Generated) : ℕ → List (Consumed UInt8 State Token) → List Operation → Prop
  | done (k : ℕ) (ms : List (Consumed UInt8 State Token)) : Located g k ms []
  | next {k : ℕ} {rest : List (Consumed UInt8 State Token)} {ops : List Operation}
      (gap mid : List (Consumed UInt8 State Token)) : (∀ m ∈ mid, m.passed = false) → Dotted (tight (texts mid)) →
      Located g (k + g.counted gap + g.counted mid) rest ops →
      Located g k (gap ++ (mid ++ rest)) (edit (k + g.counted gap) (g.counted mid) (texts mid) :: ops)

section Texts

variable {ms ns : List (Consumed UInt8 State Token)} {m : Consumed UInt8 State Token} {g : Generated} {t u : Text}

@[simp] theorem texts_nil : texts [] = [] := rfl

@[simp] theorem texts_append : texts (ms ++ ns) = texts ms ++ texts ns := by simp [texts]

@[simp] theorem texts_singleton : texts [m] = m.text := by simp [texts]

@[simp] theorem counted_append : g.counted (ms ++ ns) = g.counted ms + g.counted ns := by
  simp [Generated.counted, Consumed.counted]

@[simp] theorem counted_singleton : g.counted [m] = g.counts m := by
  simp [Generated.counted, Generated.counts]

@[simp] theorem tight_append : tight (t ++ u) = tight t ++ tight u := List.filter_append t u

theorem tight_blank (h : ∀ c ∈ t, isBlank c = true ∨ isQuote c = true) : tight t = [] :=
  List.filter_eq_nil_iff.mpr fun c hc ↦ by rcases h c hc with h | h <;> simp [h]

theorem tight_digits (h : ∀ c ∈ t, isDigit c = true) : tight t = t := by
  refine List.filter_eq_self.mpr fun c hc ↦ ?_
  have hd := h c hc
  simp only [isDigit, Bool.and_eq_true, decide_eq_true_eq] at hd
  simp only [isBlank, isQuote, APOS, QUOT, Bool.not_or, Bool.and_eq_true, Bool.not_eq_true', beq_eq_false_iff_ne]
  grind

end Texts

section Located

variable {g : Generated} {k : ℕ} {ms gap mid rest more : List (Consumed UInt8 State Token)} {ops : List Operation}

theorem Located.append (h : Located g k ms ops) (more : List (Consumed UInt8 State Token)) :
    Located g k (ms ++ more) ops := by
  induction h with
  | done k ms => exact .done k _
  | next gap mid hmid hdot _ ih =>
    rw [List.append_assoc, List.append_assoc]
    exact .next gap mid hmid hdot ih

theorem Located.snoc (h : Located g k ms ops) (hmid : ∀ m ∈ mid, m.passed = false) (hdot : Dotted (tight (texts mid)))
    (rest : List (Consumed UInt8 State Token)) :
    Located g k (ms ++ (mid ++ rest)) (ops ++ [edit (k + g.counted ms) (g.counted mid) (texts mid)]) := by
  induction h with
  | done k ms => exact .next ms mid hmid hdot (.done _ _)
  | @next k rest' ops gap mid' hmid' hdot' _ ih =>
    rw [List.append_assoc, List.append_assoc]
    refine .next gap mid' hmid' hdot' ?_
    simp only [counted_append, ← Nat.add_assoc] at ih ⊢
    exact ih

end Located

/-- The scanner is at an address of which the parser has some tokens. -/
structure AtAddress (g : Generated) (ms : List (Consumed UInt8 State Token)) (ops : List Operation)
    (read : List TokenType) : Prop where
  split : ∃ before mid tail, ms = before ++ (mid ++ tail) ∧ Located g 0 before ops ∧
    (∀ m ∈ mid ++ tail, m.passed = false) ∧ tight (texts tail) = [] ∧
    (read.map TokenType.s).flatten = tight (texts mid) ∧
    read.head?.map TokenType.pos = some (g.counted before : Int) ∧
    read.getLast?.map TokenType.pos_end = some (g.counted (before ++ mid) : Int)
  numbers : ∀ i t, read[i]? = some t → if i % 2 = 0 then t.s ≠ [] ∧ ∀ c ∈ t.s, isDigit c = true else t.s = [DOT]

/-- What is known of the operations, by what the parser has on its stack. -/
def Placed (g : Generated) (ms : List (Consumed UInt8 State Token)) (s : State) (ops : List Operation) : Stack → Prop
  | .url read => 4 < read.length → s.cond = .tag_att ∨
      (s.cond = .tag_attvalue_href ∧ AtAddress g ms ops (read.drop 4))
  | _ => True

/-- The status line has been read, and nothing was wrong since. -/
def Stack.underway : Stack → Prop
  | .statusline _ => False
  | .quit => False
  | _ => True

/-- A parser that has come from its start to some point of its stream. -/
structure Walk (g : Generated) (ms : List (Consumed UInt8 State Token)) (s : State) (r : Progress) : Prop where
  cnt : r.cnt = g.counted ms
  len : r.stack.underway → r.p.st.len = 0
  located : Located g 0 ms r.p.ops
  placed : Placed g ms s r.p.ops r.stack

section Steps

variable {g : Generated} {ms : List (Consumed UInt8 State Token)} {m : Consumed UInt8 State Token}
  {x y : Head UInt8 State} {r : Progress} {p : HTTPParser} {k : Token} {t : TokenType} {st : Stack}

theorem emptyline_quiet (hlen : p.st.len = 0) (t : TokenType) :
    (p.emptyline t).ops = p.ops ∧ (p.emptyline t).st.len = 0 := by
  simp only [emptyline]
  split
  · exact ⟨rfl, hlen⟩
  · rw [if_neg (by omega)]
    exact ⟨rfl, hlen⟩

theorem httpheader_quiet (p : HTTPParser) (ts : List TokenType) :
    (p.httpheader ts).ops = p.ops ∧ (p.httpheader ts).st.len = p.st.len := by
  unfold httpheader
  repeat' split
  all_goals exact ⟨rfl, rfl⟩

theorem beginTag_quiet (p : HTTPParser) (tag : Text) :
    (p.beginTag tag).ops = p.ops ∧ (p.beginTag tag).st.len = p.st.len := by
  unfold beginTag
  split <;> exact ⟨rfl, rfl⟩

theorem endTag_quiet (p : HTTPParser) (tag : Text) :
    (p.endTag tag).ops = p.ops ∧ (p.endTag tag).st.len = p.st.len := by
  unfold endTag
  split <;> exact ⟨rfl, rfl⟩

theorem url_len (p : HTTPParser) (ts : List TokenType) : (p.url ts).st.len = p.st.len := by
  unfold url
  split
  · simp only [reportIP_st]
  · rfl

/-- What a token that ends no address does: nothing to the operations, and if an address
goes on it is by this token. -/
structure Quiet (st : Stack) (p : HTTPParser) (k : Token) (t : TokenType) (st' : Stack) (p' : HTTPParser) : Prop where
  ops : p'.ops = p.ops
  len : st'.underway → p'.st.len = 0
  url : ∀ read, st' = .url read → read = [] ∨
    ∃ read', st = .url read' ∧ read = read' ++ [t] ∧ urlShape[read'.length]? = some k ∧ read'.length < 11

theorem Quiet.leave {st' : Stack} {p' : HTTPParser} (hops : p'.ops = p.ops) (hlen : st'.underway → p'.st.len = 0)
    (h : ∀ read, st' ≠ .url read) : Quiet st p k t st' p' :=
  ⟨hops, hlen, fun read hread ↦ absurd hread (h read)⟩

theorem attributes_url (k : Token) {st' : Stack} (h : ∀ read, st' ≠ .url read) (read : List TokenType) :
    (attributes k).getD st' ≠ .url read := by
  unfold attributes
  split <;> simp [h]

theorem recover_url (g : Generated) (k : Token) (read : List TokenType) : recover g k ≠ .url read := by
  refine attributes_url k (fun read ↦ ?_) read
  split <;> simp

/-- The token is `Quiet` on that stack. -/
def Calm (g : Generated) (p : HTTPParser) (k : Token) (t : TokenType) (st : Stack) : Prop :=
  Quiet st p k t (shift g p k t st).1 (shift g p k t st).2

theorem statusline_calm (g : Generated) (p : HTTPParser) (k : Token) (t : TokenType) (n : ℕ) :
    Calm g p k t (.statusline n) := by
  simp only [Calm, shift]
  repeat' split
  · exact .leave rfl (fun h ↦ h.elim) (by simp)
  · exact .leave rfl (fun _ ↦ rfl) (by simp)
  · exact .leave rfl (fun h ↦ h.elim) (by simp)

theorem httpheaders_calm (g : Generated) (k : Token) (t : TokenType) (hlen : p.st.len = 0) (any : Bool) :
    Calm g p k t (.httpheaders any) := by
  simp only [Calm, shift]
  repeat' split
  · exact .leave rfl (fun _ ↦ hlen) (by simp)
  · obtain ⟨hops, hlen'⟩ := emptyline_quiet hlen t
    exact .leave hops (fun _ ↦ hlen') (by simp)
  · exact .leave rfl (fun _ ↦ hlen) (by simp)

theorem httpheader_calm (g : Generated) (k : Token) (t : TokenType) (hlen : p.st.len = 0) (read : List TokenType) :
    Calm g p k t (.httpheader read) := by
  simp only [Calm, shift]
  repeat' split
  · obtain ⟨hops, hlen'⟩ := httpheader_quiet p (read ++ [t])
    exact .leave hops (fun _ ↦ hlen'.trans hlen) (by simp)
  · exact .leave rfl (fun _ ↦ hlen) (by simp)
  · exact .leave rfl (fun _ ↦ hlen) (by simp)

theorem tag_calm (g : Generated) (k : Token) (t : TokenType) (hlen : p.st.len = 0) : Calm g p k t .tag := by
  simp only [Calm, shift]
  split
  · obtain ⟨hops, hlen'⟩ := beginTag_quiet p t.s
    exact .leave hops (fun _ ↦ hlen'.trans hlen) (by simp)
  all_goals exact .leave rfl (fun _ ↦ hlen) (by simp)

theorem closing_calm (g : Generated) (k : Token) (t : TokenType) (hlen : p.st.len = 0) : Calm g p k t .closing := by
  simp only [Calm, shift]
  split
  · obtain ⟨hops, hlen'⟩ := endTag_quiet p t.s
    exact .leave hops (fun _ ↦ hlen'.trans hlen) (by simp)
  · exact .leave rfl (fun _ ↦ hlen) (by simp)

theorem href_calm (g : Generated) (k : Token) (t : TokenType) (hlen : p.st.len = 0) : Calm g p k t .href := by
  refine ⟨rfl, fun _ ↦ hlen, fun read hread ↦ .inl ?_⟩
  simp only [shift] at hread
  split at hread <;> cases hread
  rfl

theorem url_trailing_calm (g : Generated) (k : Token) (t : TokenType) (hlen : p.st.len = 0) :
    Calm g p k t .url_trailing := by
  simp only [Calm, shift]
  split
  · exact .leave rfl (fun _ ↦ hlen) (by simp)
  · exact .leave rfl (fun _ ↦ hlen) (attributes_url k (by simp))

/-- Of the tokens of an address only the last one ends it. -/
theorem url_cases (g : Generated) (k : Token) (t : TokenType) (hlen : p.st.len = 0) (read : List TokenType) :
    Calm g p k t (.url read) ∨ read.length = 11 ∧ k = .char SLASH ∧
      shift g p k t (.url read) = (.url_trailing, p.url (read ++ [t])) := by
  by_cases hk : urlShape[read.length]? = some k
  · by_cases h₁₁ : read.length = 11
    · rw [h₁₁] at hk
      obtain rfl : Token.char SLASH = k := Option.some.inj hk
      exact .inr ⟨h₁₁, rfl, by simp [shift, h₁₁, urlShape]⟩
    · have hlt : read.length < urlShape.length := (List.getElem?_eq_some_iff.mp hk).1
      have hlt : read.length < 11 := Nat.lt_of_le_of_ne (Nat.le_of_lt_succ hlt) h₁₁
      have hshift : shift g p k t (.url read) = (.url (read ++ [t]), p) := by
        simp only [shift, if_pos hk, if_neg h₁₁]
      rw [Calm, hshift]
      refine .inl ⟨rfl, fun _ ↦ hlen, fun read' hread ↦ .inr ⟨read, rfl, ?_, hk, hlt⟩⟩
      exact (Stack.url.inj hread).symm
  · have hshift : shift g p k t (.url read) = (recover g k, p) := by simp only [shift, if_neg hk]
    rw [Calm, hshift]
    exact .inl (.leave rfl (fun _ ↦ hlen) (recover_url g k))

theorem shift_cases (g : Generated) (k : Token) (t : TokenType) (hlen : st.underway → p.st.len = 0) :
    Calm g p k t st ∨ ∃ read, st = .url read ∧ read.length = 11 ∧ k = .char SLASH ∧
      shift g p k t st = (.url_trailing, p.url (read ++ [t])) := by
  cases st with
  | statusline n => exact .inl (statusline_calm g p k t n)
  | httpheaders any => exact .inl (httpheaders_calm g k t (hlen trivial) any)
  | httpheader read => exact .inl (httpheader_calm g k t (hlen trivial) read)
  | tag => exact .inl (tag_calm g k t (hlen trivial))
  | closing => exact .inl (closing_calm g k t (hlen trivial))
  | href => exact .inl (href_calm g k t (hlen trivial))
  | url read => exact (url_cases g k t (hlen trivial) read).imp_right fun h ↦ ⟨read, rfl, h⟩
  | url_trailing => exact .inl (url_trailing_calm g k t (hlen trivial))
  | attributes => exact .inl (.leave rfl (fun _ ↦ hlen trivial) (attributes_url k (by simp)))
  | error => exact .inl (.leave rfl (fun _ ↦ hlen trivial) (recover_url g k))
  | quit => exact .inl (.leave rfl (fun h ↦ h.elim) (by simp [shift]))
  | httpbody | closed | ident | value =>
    refine .inl (.leave rfl (fun _ ↦ hlen trivial) (fun read hread ↦ ?_))
    simp only [shift] at hread
    split at hread <;> cases hread

end Steps

section Addresses

variable {g : Generated} {ms : List (Consumed UInt8 State Token)} {m : Consumed UInt8 State Token}
  {ops : List Operation} {read : List TokenType} {t : TokenType}

def tokenAt (g : Generated) (ms : List (Consumed UInt8 State Token)) (m : Consumed UInt8 State Token) : TokenType :=
  ⟨m.text, g.counted ms, g.counted ms + g.counts m⟩

theorem AtAddress.start (h : Located g 0 ms ops) (hm : m.passed = false) (hne : m.text ≠ [])
    (hd : ∀ c ∈ m.text, isDigit c = true) : AtAddress g (ms ++ [m]) ops [tokenAt g ms m] where
  split := ⟨ms, [m], [], rfl, h, by simpa using hm, rfl, by simp [tokenAt, tight_digits hd], rfl, by simp [tokenAt]⟩
  numbers i t hi := by
    obtain ⟨rfl, rfl⟩ : i = 0 ∧ tokenAt g ms m = t := by
      cases i with
      | zero => exact ⟨rfl, by simpa using hi⟩
      | succ i => simp at hi
    exact ⟨hne, hd⟩

theorem AtAddress.silent (h : AtAddress g ms ops read) (hm : m.passed = false)
    (hb : ∀ c ∈ m.text, isBlank c = true ∨ isQuote c = true) : AtAddress g (ms ++ [m]) ops read where
  split := by
    obtain ⟨before, mid, tail, rfl, hloc, hpass, htail, hread, hpos, hend⟩ := h.split
    refine ⟨before, mid, tail ++ [m], by simp, hloc, ?_, ?_, hread, hpos, hend⟩
    · rw [← List.append_assoc]
      exact List.forall_mem_append.mpr ⟨hpass, by simpa using hm⟩
    · rw [texts_append, tight_append, htail, texts_singleton, tight_blank hb, List.append_nil]
  numbers := h.numbers

theorem AtAddress.more (h : AtAddress g ms ops read) (hm : m.passed = false)
    (hnum : if read.length % 2 = 0 then m.text ≠ [] ∧ ∀ c ∈ m.text, isDigit c = true else m.text = [DOT]) :
    AtAddress g (ms ++ [m]) ops (read ++ [tokenAt g ms m]) where
  split := by
    obtain ⟨before, mid, tail, rfl, hloc, hpass, htail, hread, hpos, hend⟩ := h.split
    have htight : tight m.text = m.text := by
      split at hnum
      · exact tight_digits hnum.2
      · rw [hnum]
        rfl
    refine ⟨before, mid ++ tail ++ [m], [], by simp, hloc, ?_, rfl, ?_, ?_, ?_⟩
    · rw [List.append_nil]
      exact List.forall_mem_append.mpr ⟨hpass, by simpa using hm⟩
    · simp [hread, htail, htight, tokenAt]
    · rw [List.head?_append]
      cases hh : read.head? with
      | none => simp [hh] at hpos
      | some a => simpa [hh] using hpos
    · simp [tokenAt]
      omega
  numbers i t hi := by
    rw [List.getElem?_append] at hi
    split at hi
    · exact h.numbers i t hi
    · obtain ⟨rfl, rfl⟩ : i = read.length ∧ tokenAt g ms m = t := by
        cases hj : i - read.length with
        | zero => exact ⟨by omega, by simpa [hj] using hi⟩
        | succ j => simp [hj] at hi
      exact hnum

theorem AtAddress.finish {t₅ t₆ t₇ t₈ t₉ t₁₀ t₁₁ : TokenType} {p : HTTPParser}
    (h : AtAddress g ms p.ops [t₅, t₆, t₇, t₈, t₉, t₁₀, t₁₁]) (a b c d t : TokenType) (hloc : Located g 0 ms p.ops)
    (more : List (Consumed UInt8 State Token)) :
    Located g 0 (ms ++ more) (p.url [a, b, c, d, t₅, t₆, t₇, t₈, t₉, t₁₀, t₁₁, t]).ops := by
  simp only [url, reportIP_ops]
  split
  case isFalse => exact hloc.append more
  case isTrue =>
    obtain ⟨before, mid, tail, rfl, hbefore, hpass, -, hread, hpos, hend⟩ := h.split
    obtain ⟨h₅, h₅'⟩ := h.numbers 0 t₅ rfl
    have h₆ : t₆.s = [DOT] := h.numbers 1 t₆ rfl
    obtain ⟨h₇, h₇'⟩ := h.numbers 2 t₇ rfl
    have h₈ : t₈.s = [DOT] := h.numbers 3 t₈ rfl
    obtain ⟨h₉, h₉'⟩ := h.numbers 4 t₉ rfl
    have h₁₀ : t₁₀.s = [DOT] := h.numbers 5 t₁₀ rfl
    obtain ⟨h₁₁, h₁₁'⟩ := h.numbers 6 t₁₁ rfl
    have hip : tight (texts mid) = t₅.s ++ DOT :: (t₇.s ++ DOT :: (t₉.s ++ DOT :: t₁₁.s)) := by
      rw [← hread]
      simp [h₆, h₈, h₁₀]
    have hdot : Dotted (tight (texts mid)) := by
      refine ⟨t₅.s, t₇.s, t₉.s, t₁₁.s, hip, ?_⟩
      simp only [List.forall_mem_cons]
      exact ⟨⟨h₅, h₅'⟩, ⟨h₇, h₇'⟩, ⟨h₉, h₉'⟩, ⟨h₁₁, h₁₁'⟩, by simp⟩
    have hmid : ∀ m ∈ mid, m.passed = false := fun m hm ↦ hpass m (List.mem_append_left _ hm)
    have hloc := hbefore.snoc hmid hdot (tail ++ more)
    have hpos : t₅.pos = (g.counted before : Int) := by simpa using hpos
    have hend : t₁₁.pos_end = (g.counted before : Int) + g.counted mid := by simpa using hend
    rw [Nat.zero_add] at hloc
    simp only [List.append_assoc] at hloc ⊢
    convert hloc using 3
    simp [urlOperation, edit, barred, hpos, hend, hip, TokenType.add, TokenType.addText]

end Addresses

section Walks

variable {g : Generated} {ms : List (Consumed UInt8 State Token)} {m : Consumed UInt8 State Token}
  {x y : Head UInt8 State} {r : Progress}

theorem urlShape_number {n : ℕ} {k : Token} (h₄ : 4 < n) (h₁₁ : n < 11) (hk : urlShape[n]? = some k) :
    if (n - 4) % 2 = 0 then k = .INTEGER else k = .char DOT := by
  interval_cases n <;> exact (Option.some.inj hk).symm

theorem Placed.silent {ops : List Operation} {st : Stack} (h : Placed g ms x.state ops st)
    (ht : lexer.turn x = some (m, y)) (hk : m.token = none) : Placed g (ms ++ [m]) y.state ops st := by
  cases st with
  | url read =>
    intro hlen
    rcases h hlen with hc | ⟨hc, hat⟩
    · rcases turn_att ht hc with ⟨-, hy⟩ | h | h | h | h
      · exact .inl hy
      all_goals rw [hk] at h; cases h
    · rcases turn_href ht hc with ⟨-, -, hy⟩ | ⟨hm, ⟨-, hb, hy⟩ | ⟨h, -⟩ | h | h | ⟨c, h, -⟩⟩
      · exact .inl hy
      · rcases hy with hy | hy
        · exact .inr ⟨hy, hat.silent hm hb⟩
        · exact .inl hy
      all_goals rw [hk] at h; cases h
  | _ => trivial

theorem Placed.token {ops : List Operation} {read : List TokenType} {k : Token} (hloc : Located g 0 ms ops)
    (h : Placed g ms x.state ops (.url read)) (ht : lexer.turn x = some (m, y)) (hk : m.token = some k)
    (hshape : urlShape[read.length]? = some k) (h₁₁ : read.length < 11) :
    Placed g (ms ++ [m]) y.state ops (.url (read ++ [tokenAt g ms m])) := by
  intro hlen
  rw [List.length_append, List.length_singleton] at hlen
  rcases Nat.eq_or_lt_of_le (Nat.le_of_lt_succ hlen) with h₄ | h₄
  · -- the first number
    rw [← h₄] at hshape
    obtain rfl : Token.INTEGER = k := Option.some.inj hshape
    have hc := turn_integer ht hk
    rcases turn_href ht hc with ⟨-, h, -⟩ | ⟨hm, ⟨h, -⟩ | ⟨-, hd, hy⟩ | h | h | ⟨c, h, -⟩⟩
    case inr.inr.inl =>
      refine .inr ⟨hy, ?_⟩
      rw [List.drop_append_of_le_length (by omega), List.drop_of_length_le (by omega), List.nil_append]
      exact .start hloc hm (Lexer.turn_text ht).2 hd
    all_goals rw [hk] at h; cases h
  · have hkind := urlShape_number h₄ h₁₁ hshape
    rcases h h₄ with hc | ⟨hc, hat⟩
    · -- no such token comes once the scanner has left the address
      exfalso
      rcases turn_att ht hc with ⟨h, -⟩ | h | h | h | h <;> rw [hk] at h
      · cases h
      all_goals
        cases h
        split at hkind <;> simp [DOT, RANGLE] at hkind
    · rw [List.drop_append_of_le_length (by omega)]
      rcases turn_href ht hc with ⟨-, h, -⟩ | ⟨hm, ⟨h, -⟩ | ⟨h, hd, hy⟩ | h | h | ⟨c, h, htext, hy⟩⟩ <;> rw [hk] at h
      · cases h
      · cases h
      · cases h
        refine .inr ⟨hy, hat.more hm ?_⟩
        rw [List.length_drop]
        split at hkind
        case isTrue he => exact (if_pos he).mpr ⟨(Lexer.turn_text ht).2, hd⟩
        case isFalse => cases hkind
      · cases h
        split at hkind <;> cases hkind
      · cases h
        split at hkind <;> cases hkind
      · cases h
        split at hkind
        case isTrue => cases hkind
        case isFalse he =>
          obtain rfl : c = DOT := by simpa using hkind
          refine .inr ⟨hy (by decide), hat.more hm ?_⟩
          rw [List.length_drop, if_neg he]
          exact htext

theorem Walk.next (h : Walk g ms x.state r) (ht : lexer.turn x = some (m, y)) :
    Walk g (ms ++ [m]) y.state (r.next g m) := by
  cases hk : m.token with
  | none =>
    have hr : r.next g m = { r with cnt := r.cnt + g.counts m } := by simp only [Progress.next, hk]
    rw [hr]
    exact ⟨by simp [h.cnt], h.len, h.located.append [m], h.placed.silent ht hk⟩
  | some k =>
    have hr : r.next g m = ⟨(shift g r.p k (tokenAt g ms m) r.stack).2, (shift g r.p k (tokenAt g ms m) r.stack).1,
        g.counted (ms ++ [m])⟩ := by simp only [Progress.next, hk, h.cnt, tokenAt, counted_append, counted_singleton]
    rw [hr]
    rcases shift_cases g k (tokenAt g ms m) h.len with hq | ⟨read, hst, h₁₁, rfl, hshift⟩
    · refine ⟨rfl, hq.len, by rw [hq.ops]; exact h.located.append [m], ?_⟩
      dsimp only
      rw [hq.ops]
      cases hst : (shift g r.p k (tokenAt g ms m) r.stack).1 with
      | url read =>
        rcases hq.url read hst with rfl | ⟨read', hst', rfl, hshape, hlt⟩
        · exact fun h ↦ absurd h (by simp)
        · have hplaced := h.placed
          rw [hst'] at hplaced
          exact hplaced.token h.located ht hk hshape hlt
      | _ => trivial
    · rw [hshift]
      refine ⟨rfl, fun _ ↦ (url_len _ _).trans (h.len (by rw [hst]; trivial)), ?_, trivial⟩
      have hplaced := h.placed
      rw [hst] at hplaced
      rcases hplaced (by omega) with hc | ⟨-, hat⟩
      · exfalso
        rcases turn_att ht hc with ⟨h, -⟩ | h | h | h | h <;> rw [hk] at h <;> cases h
      · match read, h₁₁, hat with
        | [a, b, c, d, _, _, _, _, _, _, _], _, hat => exact hat.finish a b c d (tokenAt g ms m) h.located [m]

theorem Walk.reads {ns : List (Consumed UInt8 State Token)} (hr : Lexer.Reads lexer x ns y) (h : Walk g ms x.state r) :
    Walk g (ms ++ ns) y.state (ns.foldl (Progress.next g) r) := by
  induction hr generalizing ms r with
  | nil => simpa using h
  | cons ht _ ih => simpa using ih (h.next ht)

end Walks

section Pieces

variable {g : Generated} {k : ℕ} {ms : List (Consumed UInt8 State Token)} {ops : List Operation}

end Pieces

end HTTPParser

namespace HTTPStream

open HTTPParser

section Atop

variable {g : Generated} {o : List Operation} {e : Bool} {n : ℕ}

end Atop

section Segments

variable {g : Generated} {members : HTTPState} {inURL urlFirst : Bool}

def progress (q : Parser HTTPStream) : Progress := ⟨{ q with st := q.st.members }, q.st.stack, q.st.cnt⟩

/-- What becomes of a parser of a stream when the grammar has come to `r` and the scanner to `head`. -/
def leave (r : Progress) (head : Head UInt8 State) (total_len : ℕ) : Parser HTTPStream :=
  { r.p with
    ended := decide (r.stack = .quit) || r.p.ended
    ops := []
    total_len := total_len
    st := ⟨r.p.st, r.stack, r.cnt, head⟩ }

end Segments

section Barred

variable {ps : List Piece} {t tail : Text}

end Barred

end HTTPStream

end Nat64Alg
