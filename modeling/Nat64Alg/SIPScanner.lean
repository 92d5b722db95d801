import Nat64Alg.FTPScanner

namespace Nat64Alg

open Lib

namespace SIPScanner

inductive StartCondition
  | INITIAL
  | header
  | header_via
  | header_contact
  | body
  | sdp_value
deriving DecidableEq, Repr

structure State where
  cond : StartCondition
  nxt : StartCondition
  bol : Bool

inductive Token
  | METHOD
  | TEXT
  | CRLF
  | HEADER_IDENT
  | HEADER_VALUE
  | CHAR
  | IP6ADDR
  | HEADER_IDENT_VIA
  | HEADER_IDENT_CONTACT
  | CHAR_c
  | CHAR_m
  | char (c : UInt8)
deriving DecidableEq, Repr

def LBRACKET : UInt8 := 91
def RBRACKET : UInt8 := 93
def TAB : UInt8 := 9
def AT : UInt8 := 64
def EQUALS : UInt8 := 61

def isName (c : UInt8) : Bool := isAlpha c || c == 45
def isLower (c : UInt8) : Bool := 97 ≤ c && c ≤ 122

def bracketed : Text → ℕ
  | 91 :: cs =>
    let n := Pattern.many (· != RBRACKET) cs
    if 0 < n ∧ cs[n]? = some RBRACKET then n + 2 else 0
  | _ => 0

/-- A rule of one start condition. The flag tells whether it is anchored to the begin of a line. -/
def rule (c : StartCondition) (bol : Bool) (pattern : Text → ℕ) (action : State → Text → State × Option Token) :
    Bool × Rule UInt8 State Token where
  fst := bol
  snd.enabled s := s.cond == c && (s.bol || !bol)
  snd.pattern := pattern
  snd.action s m := ({ (action s m).1 with bol := m.getLast? == some LF }, (action s m).2)

def ignore (s : State) (_ : Text) : State × Option Token := (s, none)

def emit (token : Token) (s : State) (_ : Text) : State × Option Token := (s, some token)

/-- `return matched()[0]` -/
def emitChar (s : State) (m : Text) : State × Option Token := (s, some (.char (m.getD 0 0)))

/-- `begin`, and a token. -/
def begin (c : StartCondition) (token : Token) (s : State) (_ : Text) : State × Option Token :=
  ({ s with cond := c }, some token)

def ident (s : State) (m : Text) : State × Option Token :=
  if m = text "Via" then ({ s with nxt := .header_via }, some .HEADER_IDENT_VIA)
  else if m = text "Contact" then ({ s with nxt := .header_contact }, some .HEADER_IDENT_CONTACT)
  else ({ s with nxt := .header }, some .HEADER_IDENT)

def letter (s : State) (m : Text) : State × Option Token :=
  if m.getD 0 0 = 99 then (s, some .CHAR_c)
  else if m.getD 0 0 = 109 then (s, some .CHAR_m)
  else (s, some .CHAR)

def initialRules : List (Bool × Rule UInt8 State Token) :=
  [rule .INITIAL true (Pattern.many (fun c ↦ c != SP && c != CR && c != LF)) (emit .METHOD),
    rule .INITIAL false (Pattern.many (fun c ↦ c != SP && c != CR && c != LF)) (emit .TEXT),
    rule .INITIAL false (Pattern.one (· == SP)) ignore,
    rule .INITIAL false (Pattern.literal [CR, LF]) (begin .header .CRLF)]

def headerRules : List (Bool × Rule UInt8 State Token) :=
  [rule .header true (Pattern.literal [CR, LF]) (begin .body .CRLF),
    rule .header true (Pattern.many isName) ident,
    rule .header false (Pattern.one (· == COLON)) (fun s m ↦ emitChar { s with cond := s.nxt } m),
    rule .header false (Pattern.many (fun c ↦ c == SP || c == TAB)) ignore,
    rule .header false (Pattern.oneMany (fun c ↦ !(c == COLON || c == LF || c == SP || c == TAB || c == CR))
      (fun c ↦ c != LF && c != CR)) (emit .HEADER_VALUE),
    rule .header false (Pattern.literal [CR, LF]) (emit .CRLF)]

def viaRules : List (Bool × Rule UInt8 State Token) :=
  [rule .header_via false (Pattern.many (fun c ↦
  !(c == SP || c == TAB || c == LBRACKET || c == RBRACKET || c == COLON ||
      c == 59 || c == CR || c == LF))) (emit .TEXT),
    rule .header_via false bracketed (emit .IP6ADDR),
    rule .header_via false (Pattern.literal [CR, LF]) (begin .header .CRLF),
    rule .header_via false (Pattern.one (· != LF)) ignore]

def contactRules : List (Bool × Rule UInt8 State Token) :=
  [rule .header_contact false (Pattern.one (fun c ↦ c == 60 || c == 62)) ignore,
    rule .header_contact false (Pattern.many (fun c ↦ !(c == SP || c == TAB || c == LBRACKET || c == RBRACKET ||
      c == COLON || c == CR || c == LF || c == AT))) (emit .TEXT),
    rule .header_contact false bracketed (emit .IP6ADDR),
    rule .header_contact false (Pattern.literal [CR, LF]) (begin .header .CRLF),
    rule .header_contact false (Pattern.one (fun c ↦ c == COLON || c == AT)) emitChar,
    rule .header_contact false (Pattern.one (· != LF)) ignore]

def bodyRules : List (Bool × Rule UInt8 State Token) :=
  [rule .body true (Pattern.one isLower) letter,
    rule .body false (Pattern.one (· == EQUALS)) (fun s m ↦ emitChar { s with cond := .sdp_value } m),
    rule .sdp_value false (Pattern.many (fun c ↦ c != CR && c != LF && c != SP)) (emit .TEXT),
    rule .sdp_value false (Pattern.literal [CR, LF]) (begin .body .CRLF),
    rule .sdp_value false (Pattern.one (· == SP)) ignore]

/-- The rules of `sip/lexer`, in order. -/
def rules : List (Rule UInt8 State Token) :=
  (initialRules ++ headerRules ++ viaRules ++ contactRules ++ bodyRules).map Prod.snd

def anchored : List (Rule UInt8 State Token) :=
  ((initialRules ++ headerRules ++ viaRules ++ contactRules ++ bodyRules).filter Prod.fst).map Prod.snd

def pass (s : State) (c : UInt8) : State := { s with bol := c == LF }

/-- A scanner at work on a text. `nxt` is not initialised. -/
def Scans (nxt : StartCondition) (t : Text) (ms : List (Consumed UInt8 State Token)) : Prop :=
  Rule.Cut rules pass ⟨.INITIAL, nxt, true⟩ t ms

/-- The scanner that lets the anchored rules go first at the begin of a line. -/
def lexed (nxt : StartCondition) (t : Text) : List (Consumed UInt8 State Token) :=
  Rule.cutFor (Rule.longestOf anchored rules) pass t.length ⟨.INITIAL, nxt, true⟩ t

theorem scans_lexed (nxt : StartCondition) (t : Text) : Scans nxt t (lexed nxt t) :=
  Rule.cut_longestOf (List.map_subset _ (List.filter_subset_self _)) (Nat.le_refl _)

/-- The tokens of a fresh scanner, with the stream positions they span. -/
def tokens (echoed : UInt8 → ℕ) (ms : List (Consumed UInt8 State Token)) : List (Token × TokenType) :=
  spans echoed 0 ms

example : (tokens (fun _ ↦ 1) (lexed .header (text "INVITE a b\r\nContent-Length: 9\r\n\r\nc=IN IP6 ::1\r\n"))).map
    (fun t ↦ (t.1, t.2.pos)) =
    [(.METHOD, 0), (.TEXT, 7), (.TEXT, 9), (.CRLF, 10), (.HEADER_IDENT, 12), (.char COLON, 26), (.HEADER_VALUE, 28),
      (.CRLF, 29), (.CRLF, 31), (.CHAR_c, 33), (.char EQUALS, 34), (.TEXT, 35), (.TEXT, 38), (.TEXT, 42),
      (.CRLF, 45)] := by decide +kernel

end SIPScanner

end Nat64Alg
