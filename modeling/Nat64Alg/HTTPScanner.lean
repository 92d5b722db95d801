import Nat64Alg.SIPScanner
import Nat64Alg.Lib.Reader

namespace Nat64Alg

open Lib

namespace HTTPScanner

inductive StartCondition
  | INITIAL
  | header
  | body
  | tag_start
  | tag_att
  | tag_attvalue
  | tag_attvalue_href
deriving DecidableEq, Repr

structure State where
  cond : StartCondition
  inURL : Bool
  urlFirst : Bool
  bol : Bool
deriving DecidableEq, Repr

inductive Token
  | STATUS_IDENT
  | INTEGER
  | HEADER_IDENT
  | HEADER_VALUE
  | TAG_IDENT
  | TAG_IGNORE
  | ATT_VALUE
  | TAG_IDENT_HREF
  | URL_NAME
  | URL_IDENT
  | char (c : UInt8)
deriving DecidableEq, Repr

def SLASH : UInt8 := 47
def DOT : UInt8 := 46
def LANGLE : UInt8 := 60
def RANGLE : UInt8 := 62
def APOS : UInt8 := 39
def QUOT : UInt8 := 34

def isAlnum (c : UInt8) : Bool := isAlpha c || isDigit c
def isBlank (c : UInt8) : Bool := c == 32 || c == 9
def isStatus (c : UInt8) : Bool := isAlnum c || c == SLASH || c == DOT
def isValueStart (c : UInt8) : Bool := !(c == COLON || c == 10 || isBlank c || c == 13)
def isValue (c : UInt8) : Bool := c != 10 && c != 13
def isOther (c : UInt8) : Bool := !(isAlpha c || c == SLASH)

/-- A rule of one start condition. The flag tells whether it is anchored to the begin of a line. -/
def rule (c : StartCondition) (bol : Bool) (automaton : Automaton UInt8)
    (action : State → Text → State × Option Token) : Bool × LexRule UInt8 State Token where
  fst := bol
  snd.enabled s := s.cond == c && (s.bol || !bol)
  snd.automaton := automaton
  snd.action s m := ({ (action s m).1 with bol := m.getLast? == some 10 }, (action s m).2)

def ignore (s : State) (_ : Text) : State × Option Token := (s, none)

def emit (token : Token) (s : State) (_ : Text) : State × Option Token := (s, some token)

/-- `return matched()[n]` -/
def emitChar (n : ℕ) (s : State) (m : Text) : State × Option Token := (s, some (.char (m.getD n 0)))

def State.begin (s : State) (c : StartCondition) : State := { s with cond := c }

def name : Automaton UInt8 := .oneMany isAlpha isAlnum

def tagName (s : State) (m : Text) : State × Option Token :=
  if m = text "href" then (s.begin .tag_attvalue_href, some .TAG_IDENT_HREF) else (s, some .TAG_IDENT)

def blanks (s : State) (_ : Text) : State × Option Token :=
  (if s.inURL then { s with inURL := false, cond := .tag_att } else s, none)

def quote (s : State) (_ : Text) : State × Option Token :=
  (if !s.inURL then { s with inURL := true } else { s with inURL := false, cond := .tag_att }, none)

def urlName (s : State) (_ : Text) : State × Option Token :=
  if s.urlFirst then ({ s with urlFirst := false }, some .URL_NAME) else (s, some .URL_IDENT)

def initialRules : List (Bool × LexRule UInt8 State Token) :=
  [rule .INITIAL false (.many isStatus) (emit .STATUS_IDENT),
    rule .INITIAL false (.one (· == 10)) (fun s m ↦ emitChar 0 (s.begin .header) m),
    rule .INITIAL false (.one (· == 13)) ignore,
    rule .INITIAL false (.one (· != 10)) ignore]

def headerRules : List (Bool × LexRule UInt8 State Token) :=
  [rule .header true (.literal [13, 10]) (fun s m ↦ emitChar 1 (s.begin .body) m),
    rule .header true (.one (· == 10)) (fun s m ↦ emitChar 0 (s.begin .body) m),
    rule .header true (.many SIPScanner.isName) (emit .HEADER_IDENT),
    rule .header false (.one (· == COLON)) (emitChar 0),
    rule .header false (.many isBlank) ignore,
    rule .header false (.oneMany isValueStart isValue) (emit .HEADER_VALUE),
    rule .header false (.one (· == 10)) (emitChar 0),
    rule .header false (.one (· == 13)) ignore]

def bodyRules : List (Bool × LexRule UInt8 State Token) :=
  [rule .body false (.one (· == LANGLE)) (fun s m ↦ emitChar 0 (s.begin .tag_start) m),
    rule .body false (.one (· == 10)) ignore,
    rule .body false (.one (· != 10)) ignore,
    rule .tag_start false (.one (· == SLASH)) (emitChar 0),
    rule .tag_start false name (fun s _ ↦ (s.begin .tag_att, some .TAG_IDENT)),
    rule .tag_start false (.upTo isOther RANGLE) (fun s _ ↦ (s.begin .body, some .TAG_IGNORE))]

def attributeRules : List (Bool × LexRule UInt8 State Token) :=
  [rule .tag_att false name tagName,
    rule .tag_att false (.literal [SLASH, RANGLE]) (fun s m ↦ emitChar 1 (s.begin .body) m),
    rule .tag_att false (.one (· == RANGLE)) (fun s m ↦ emitChar 0 (s.begin .body) m),
    rule .tag_att false (.one (· == 61)) (fun s m ↦ emitChar 0 (s.begin .tag_attvalue) m),
    rule .tag_att false (.many isBlank) ignore,
    rule .tag_attvalue false (.many (fun c ↦ !(isBlank c || c == APOS || c == QUOT || c == RANGLE)))
      (fun s _ ↦ (s.begin .tag_att, some .ATT_VALUE)),
    rule .tag_attvalue false (.quoted APOS) (fun s _ ↦ (s.begin .tag_att, some .ATT_VALUE)),
    rule .tag_attvalue false (.quoted QUOT) (fun s _ ↦ (s.begin .tag_att, some .ATT_VALUE)),
    rule .tag_attvalue false (.one (· == RANGLE)) (fun s m ↦ emitChar 0 (s.begin .body) m),
    rule .tag_attvalue false (.many isBlank) ignore]

def hrefRules : List (Bool × LexRule UInt8 State Token) :=
  [rule .tag_attvalue_href false (.one (· == 61)) (fun s m ↦ emitChar 0 { s with urlFirst := true, inURL := false } m),
    rule .tag_attvalue_href false (.many isBlank) blanks,
    rule .tag_attvalue_href false (.one (· == APOS)) quote,
    rule .tag_attvalue_href false (.one (· == QUOT)) quote,
    rule .tag_attvalue_href false name urlName,
    rule .tag_attvalue_href false (.many isDigit) (fun s _ ↦ ({ s with urlFirst := false }, some .INTEGER)),
    rule .tag_attvalue_href false (.one (· == RANGLE)) (fun s m ↦ emitChar 0 (s.begin .body) m),
    rule .tag_attvalue_href false (.one (· != 10)) (fun s m ↦ emitChar 0 { s with urlFirst := false } m)]

def allRules : List (Bool × LexRule UInt8 State Token) :=
  initialRules ++ headerRules ++ bodyRules ++ attributeRules ++ hrefRules

/-- The rules of `http/lexer`, in order. A line break in an address matches `[ \t]*` with no character: that
leaves an address in quotes, and goes on for ever where none has begun. What has no rule is passed over. -/
def lexer : Lexer UInt8 State Token where
  first := (allRules.filter Prod.fst).map Prod.snd
  rules := allRules.map Prod.snd
  skip s c :=
    if s.cond = .tag_attvalue_href then
      if s.inURL then some { s with inURL := false, cond := .tag_att, bol := c == 10 } else none
    else some { s with bol := c == 10 }
  first_subset := List.map_subset _ (List.filter_subset_self _)

/-- A fresh scanner, whose `inURL` and `urlFirst` are not initialised. -/
def start (inURL urlFirst : Bool) : Head UInt8 State := ⟨⟨.INITIAL, inURL, urlFirst, true⟩, []⟩

example : ((lexer.read (start false false) (text "HTTP/1.1 200 OK\nA-b: c d\n\n<a href='http://1.2.3.4/'>")).1.filterMap
    (fun m ↦ m.token)) =
    [.STATUS_IDENT, .STATUS_IDENT, .STATUS_IDENT, .char 10, .HEADER_IDENT, .char COLON, .HEADER_VALUE, .char 10,
      .char 10, .char LANGLE, .TAG_IDENT, .TAG_IDENT_HREF, .char 61, .URL_NAME, .char COLON, .char SLASH, .char SLASH,
      .INTEGER, .char DOT, .INTEGER, .char DOT, .INTEGER, .char DOT, .INTEGER, .char SLASH] := by decide +kernel

example : ((lexer.read (start false false) (text "A\n\n<a href='http://1.2.3.4/\n'>b")).1.map
    (fun m ↦ (m.token, m.passed))).drop 19 =
    [(some .INTEGER, false), (some (.char SLASH), false), (none, true), (none, true),
    (some (.char RANGLE), false)] := by
  decide +kernel

section Turns

variable {x y : Head UInt8 State} {m : Consumed UInt8 State Token} {s : State} {k : Token}

theorem eq_rule : ∀ z ∈ allRules, ∃ c b a f, z = rule c b a f ∧ (b = true → c = .header) := by
  simp only [allRules, initialRules, headerRules, bodyRules, attributeRules, hrefRules, List.cons_append,
    List.nil_append, List.forall_mem_cons, List.not_mem_nil, false_implies, implies_true, and_true]
  and_intros <;> exact ⟨_, _, _, _, rfl, by decide⟩

def rulesOf (c : StartCondition) : List (LexRule UInt8 State Token) :=
  (match c with
    | .INITIAL => initialRules
    | .header => headerRules
    | .body => bodyRules.take 3
    | .tag_start => bodyRules.drop 3
    | .tag_att => attributeRules.take 5
    | .tag_attvalue => attributeRules.drop 5
    | .tag_attvalue_href => hrefRules).map Prod.snd

theorem rulesOf_eq (c : StartCondition) :
    rulesOf c = (allRules.map Prod.snd).filter (fun r ↦ r.enabled ⟨c, false, false, true⟩) := by cases c <;> rfl

theorem mem_rulesOf {r : LexRule UInt8 State Token} (hr : r ∈ lexer.rules) (he : r.enabled s = true) :
    r ∈ rulesOf s.cond := by
  rw [rulesOf_eq]
  refine List.mem_filter.mpr ⟨hr, ?_⟩
  obtain ⟨z, hz, rfl⟩ := List.mem_map.mp hr
  obtain ⟨c, b, a, f, rfl, -⟩ := eq_rule z hz
  simp only [rule, Bool.and_eq_true, beq_iff_eq] at he
  simp [rule, he.1]

theorem turn_rule (h : lexer.turn x = some (m, y)) (hm : m.passed = false) : ∃ r ∈ rulesOf x.state.cond,
    0 < r.automaton.pattern x.pending ∧ m.text = x.pending.take (r.automaton.pattern x.pending) ∧
    m.token = (r.action x.state m.text).2 ∧ y.state = (r.action x.state m.text).1 := by
  rcases Lexer.turn_cases h with ⟨r, hr, he, hpos, rfl, rfl⟩ | ⟨c, cs, s, -, -, rfl, -⟩
  · exact ⟨r, mem_rulesOf hr he, hpos, rfl, rfl, rfl⟩
  · cases hm

theorem turn_passed (h : lexer.turn x = some (m, y)) (hm : m.passed = true) : m.token = none ∧
    if x.state.cond = .tag_attvalue_href then y.state.cond = .tag_att else y.state.cond = x.state.cond := by
  rcases Lexer.turn_cases h with ⟨r, -, -, -, rfl, -⟩ | ⟨c, cs, s, -, hs, rfl, rfl⟩
  · cases hm
  · refine ⟨rfl, ?_⟩
    simp only [lexer] at hs
    by_cases hc : x.state.cond = .tag_attvalue_href
    · rw [if_pos hc] at hs ⊢
      cases hu : x.state.inURL with
      | true =>
        rw [hu] at hs
        cases hs
        rfl
      | false =>
        rw [hu] at hs
        cases hs
    · rw [if_neg hc] at hs ⊢
      cases hs
      rfl

def isQuote (c : UInt8) : Bool := c == APOS || c == QUOT

theorem take_one {p : UInt8 → Bool} {t : Text} (h : 0 < Pattern.one p t) :
    ∃ c, t.take (Pattern.one p t) = [c] ∧ p c = true := by
  obtain ⟨c, cs, rfl, hc, hone⟩ := Pattern.one_pos h
  exact ⟨c, by rw [hone]; rfl, hc⟩

/-- Where an address stands, the scanner finds blanks and quotes, numbers, names and single characters,
or leaves it. -/
theorem turn_href (h : lexer.turn x = some (m, y)) (hc : x.state.cond = .tag_attvalue_href) :
    (m.passed = true ∧ m.token = none ∧ y.state.cond = .tag_att) ∨ m.passed = false ∧
    ((m.token = none ∧ (∀ c ∈ m.text, isBlank c = true ∨ isQuote c = true) ∧
        (y.state.cond = .tag_attvalue_href ∨ y.state.cond = .tag_att)) ∨
      (m.token = some .INTEGER ∧ (∀ c ∈ m.text, isDigit c = true) ∧ y.state.cond = .tag_attvalue_href) ∨
      m.token = some .URL_NAME ∨ m.token = some .URL_IDENT ∨
      ∃ c, m.token = some (.char c) ∧ m.text = [c] ∧ (c ≠ RANGLE → y.state.cond = .tag_attvalue_href)) := by
  cases hm : m.passed with
  | true =>
    obtain ⟨htoken, hy⟩ := turn_passed h hm
    rw [if_pos hc] at hy
    exact .inl ⟨rfl, htoken, hy⟩
  | false =>
  refine .inr ⟨rfl, ?_⟩
  obtain ⟨r, hr, hpos, htext, htoken, hy⟩ := turn_rule h hm
  rw [hc] at hr
  simp only [rulesOf, hrefRules, List.map_cons, List.map_nil, List.mem_cons, List.not_mem_nil, or_false] at hr
  rcases hr with rfl | rfl | rfl | rfl | rfl | rfl | rfl | rfl <;>
    simp only [rule, Automaton.one_pattern, Automaton.many_pattern, Pattern.take_many] at hpos htext htoken hy
  · obtain ⟨c, ht, hp⟩ := take_one hpos
    rw [ht] at htext
    refine .inr (.inr (.inr (.inr ⟨c, ?_, htext, fun _ ↦ ?_⟩)))
    · simp [htoken, emitChar, htext]
    · simp [hy, emitChar, hc]
  · refine .inl ⟨htoken, fun c hcm ↦ .inl ?_, ?_⟩
    · rw [htext] at hcm
      exact List.mem_takeWhile_imp hcm
    · rw [hy, blanks]
      cases x.state.inURL <;> simp [hc]
  · obtain ⟨c, ht, hp⟩ := take_one hpos
    rw [ht] at htext
    refine .inl ⟨htoken, fun c' hcm ↦ .inr ?_, ?_⟩
    · rw [htext, List.mem_singleton] at hcm
      rw [hcm, isQuote, hp, Bool.true_or]
    · rw [hy, quote]
      cases x.state.inURL <;> simp [hc]
  · obtain ⟨c, ht, hp⟩ := take_one hpos
    rw [ht] at htext
    refine .inl ⟨htoken, fun c' hcm ↦ .inr ?_, ?_⟩
    · rw [htext, List.mem_singleton] at hcm
      rw [hcm, isQuote, hp, Bool.or_true]
    · rw [hy, quote]
      cases x.state.inURL <;> simp [hc]
  · rw [htoken, urlName]
    cases x.state.urlFirst
    · exact .inr (.inr (.inr (.inl rfl)))
    · exact .inr (.inr (.inl rfl))
  · refine .inr (.inl ⟨htoken, fun c hcm ↦ ?_, by simp [hy, hc]⟩)
    rw [htext] at hcm
    exact List.mem_takeWhile_imp hcm
  · obtain ⟨c, ht, hp⟩ := take_one hpos
    rw [ht] at htext
    refine .inr (.inr (.inr (.inr ⟨c, ?_, htext, fun hne ↦ absurd (beq_iff_eq.mp hp) hne⟩)))
    simp [htoken, emitChar, htext]
  · obtain ⟨c, ht, hp⟩ := take_one hpos
    rw [ht] at htext
    refine .inr (.inr (.inr (.inr ⟨c, ?_, htext, fun _ ↦ ?_⟩)))
    · simp [htoken, emitChar, htext]
    · simp [hy, emitChar, hc]

theorem turn_att (h : lexer.turn x = some (m, y)) (hc : x.state.cond = .tag_att) :
    (m.token = none ∧ y.state.cond = .tag_att) ∨ m.token = some .TAG_IDENT ∨ m.token = some .TAG_IDENT_HREF ∨
      m.token = some (.char RANGLE) ∨ m.token = some (.char 61) := by
  cases hm : m.passed with
  | true =>
    obtain ⟨htoken, hy⟩ := turn_passed h hm
    rw [hc, if_neg (by decide)] at hy
    exact .inl ⟨htoken, hy⟩
  | false =>
    obtain ⟨r, hr, hpos, htext, htoken, hy⟩ := turn_rule h hm
    rw [hc] at hr
    simp only [rulesOf, attributeRules, List.take_succ_cons, List.take_zero, List.map_cons, List.map_nil, List.mem_cons,
      List.not_mem_nil, or_false] at hr
    rcases hr with rfl | rfl | rfl | rfl | rfl <;>
      simp only [rule, Automaton.one_pattern, Automaton.literal_pattern] at hpos htext htoken hy
    · rw [htoken, tagName]
      split
      · exact .inr (.inr (.inl rfl))
      · exact .inr (.inl rfl)
    · obtain ⟨hw, hlen⟩ := Pattern.literal_pos hpos
      rw [hlen, ← List.prefix_iff_eq_take.mp hw] at htext
      rw [htoken, htext]
      exact .inr (.inr (.inr (.inl rfl)))
    · obtain ⟨c, ht, hp⟩ := take_one hpos
      rw [htoken, htext, ht, beq_iff_eq.mp hp]
      exact .inr (.inr (.inr (.inl rfl)))
    · obtain ⟨c, ht, hp⟩ := take_one hpos
      rw [htoken, htext, ht, beq_iff_eq.mp hp]
      exact .inr (.inr (.inr (.inr rfl)))
    · exact .inl ⟨htoken, by simp [hy, ignore, hc]⟩

theorem integer_rule {c : StartCondition} {r : LexRule UInt8 State Token} (hr : r ∈ rulesOf c) {t : Text}
    (hk : (r.action s t).2 = some .INTEGER) : c = .tag_attvalue_href := by
  cases c <;> simp only [rulesOf, initialRules, headerRules, bodyRules, attributeRules, List.take_succ_cons,
    List.take_zero, List.drop_succ_cons, List.drop_zero, List.map_cons, List.map_nil, List.mem_cons, List.not_mem_nil,
    or_false] at hr
  case tag_attvalue_href => rfl
  case tag_att =>
    rcases hr with rfl | rfl | rfl | rfl | rfl
    · simp only [rule, tagName] at hk
      split at hk <;> cases hk
    all_goals cases hk
  all_goals
    rcases hr with rfl | rfl | rfl | rfl | rfl | rfl | rfl | rfl <;> cases hk

theorem turn_integer (h : lexer.turn x = some (m, y)) (hk : m.token = some .INTEGER) :
    x.state.cond = .tag_attvalue_href := by
  have hm : m.passed = false := by
    by_contra hm
    rw [(turn_passed h (by simpa using hm)).1] at hk
    cases hk
  obtain ⟨r, hr, -, -, htoken, -⟩ := turn_rule h hm
  exact integer_rule hr (htoken.symm.trans hk)

end Turns

end HTTPScanner

end Nat64Alg
