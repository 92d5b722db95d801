import Nat64Alg.SIPScanner

namespace Nat64Alg

open Lib

/-- An `int` after wrapping around. -/
def wrapInt (n : Int) : Int := n.bmod (2 ^ 32)

/-- `sprintf` of an `int`. -/
def printInt (n : Int) : Text := if n < 0 then 45 :: decimal n.natAbs else decimal n.natAbs

/-- `sscanf` of an `int`, which reads a `long` and keeps what fits. -/
def readInt (s : Text) : Option Int :=
  match (cstr s).dropWhile isSpace with
  | [] => none
  | c :: cs =>
    let ds := (if c == 43 || c == 45 then cs else c :: cs).takeWhile isDigit
    if ds = [] then none
    else if c == 45 then some (wrapInt (-(min (digitsValue ds) (2 ^ 63) : ℕ)))
    else some (wrapInt (min (digitsValue ds) (2 ^ 63 - 1) : ℕ))

/-- The operator `+` of a token and a number. A text that is no number leaves `avalue` as memory had it. -/
def TokenType.addInt (avalue : Int) (a : TokenType) (b : Int) : TokenType :=
  ⟨printInt (wrapInt ((readInt a.s).getD avalue + b)), a.pos, a.pos_end⟩

namespace SIPParser

open SIPScanner

/-- The productions with an action, by the values the action reads, and `sdp_line: CHAR '=' trailing CRLF`. -/
inductive Line
  | header (t₁ t₃ : TokenType)
  | via (t₄ t₅ : TokenType)
  | contact (t₇ t₉ : TokenType)
  | other
  | connection (t₄ t₅ : TokenType)
  | media (t₄ : TokenType)

/-- `trailing: trailing TEXT | TEXT` -/
inductive Trailing : List (Token × TokenType) → Prop
  | text (t : TokenType) : Trailing [(.TEXT, t)]
  | more {ts : List (Token × TokenType)} (t : TokenType) : Trailing ts → Trailing (ts ++ [(.TEXT, t)])

/-- `header`, but for `header: error`. -/
inductive Header : List (Token × TokenType) → Line → Prop
  | ident (t₁ t₂ t₃ t₄ : TokenType) :
      Header [(.HEADER_IDENT, t₁), (.char COLON, t₂), (.HEADER_VALUE, t₃), (.CRLF, t₄)] (.header t₁ t₃)
  | via {ts : List (Token × TokenType)} (t₁ t₂ t₃ t₄ t₅ t₇ : TokenType) : Trailing ts →
      Header ([(.HEADER_IDENT_VIA, t₁), (.char COLON, t₂), (.TEXT, t₃), (.IP6ADDR, t₄), (.TEXT, t₅)] ++ ts ++
        [(.CRLF, t₇)]) (.via t₄ t₅)
  | contact (t₁ t₂ t₃ t₄ t₅ t₆ t₇ t₈ t₉ t₁₀ : TokenType) :
      Header [(.HEADER_IDENT_CONTACT, t₁), (.char COLON, t₂), (.TEXT, t₃), (.char COLON, t₄), (.TEXT, t₅),
        (.char AT, t₆), (.IP6ADDR, t₇), (.char COLON, t₈), (.TEXT, t₉), (.CRLF, t₁₀)] (.contact t₇ t₉)

inductive SdpLine : List (Token × TokenType) → Line → Prop
  | other {ts : List (Token × TokenType)} (t₁ t₂ t₄ : TokenType) : Trailing ts →
      SdpLine ([(.CHAR, t₁), (.char EQUALS, t₂)] ++ ts ++ [(.CRLF, t₄)]) .other
  | connection (t₁ t₂ t₃ t₄ t₅ t₆ : TokenType) :
      SdpLine [(.CHAR_c, t₁), (.char EQUALS, t₂), (.TEXT, t₃), (.TEXT, t₄), (.TEXT, t₅), (.CRLF, t₆)]
        (.connection t₄ t₅)
  | media {ts : List (Token × TokenType)} (t₁ t₂ t₃ t₄ t₆ : TokenType) : Trailing ts →
      SdpLine ([(.CHAR_m, t₁), (.char EQUALS, t₂), (.TEXT, t₃), (.TEXT, t₄)] ++ ts ++ [(.CRLF, t₆)]) (.media t₄)

/-- What the parser has on its stack after the request line. The flag tells whether
the list has an element yet. -/
inductive Phase
  | headers (any : Bool)
  | sdp (any : Bool)

/-- The tokens read to the end of the message, and the productions reduced meanwhile.
A syntax error unwinds the stack to `headers`, where `header: error` takes tokens. -/
inductive Rest : Phase → List (Token × TokenType) → List Line → Prop
  | header {b : Bool} {ts us : List (Token × TokenType)} {l : Line} {ls : List Line} :
      Header ts l → Rest (.headers true) us ls → Rest (.headers b) (ts ++ us) (l :: ls)
  | error {ph : Phase} (ts : List (Token × TokenType)) {us : List (Token × TokenType)} {ls : List Line} :
      Rest (.headers true) us ls → Rest ph (ts ++ us) ls
  | sdp (t : TokenType) {us : List (Token × TokenType)} {ls : List Line} :
      Rest (.sdp false) us ls → Rest (.headers true) ((.CRLF, t) :: us) ls
  | sdp_line {b : Bool} {ts us : List (Token × TokenType)} {l : Line} {ls : List Line} :
      SdpLine ts l → Rest (.sdp true) us ls → Rest (.sdp b) (ts ++ us) (l :: ls)
  | done : Rest (.sdp true) [] []

/-- `sipmessage: requestline headers CRLF sdp` -/
inductive Sipmessage : List (Token × TokenType) → List Line → Prop
  | mk {us : List (Token × TokenType)} {ls : List Line} (t₁ t₂ t₃ t₄ : TokenType) : Rest (.headers false) us ls →
      Sipmessage ([(.METHOD, t₁), (.TEXT, t₂), (.TEXT, t₃), (.CRLF, t₄)] ++ us) ls

structure Accepted (echoed : UInt8 → ℕ) (nxt : StartCondition) (t : Text) (ms : List (Consumed UInt8 State Token))
    (ls : List Line) : Prop where
  scans : Scans nxt t ms
  derived : Sipmessage (tokens echoed ms) ls

/-- `header: HEADER_IDENT ':' HEADER_VALUE CRLF` -/
def header (t₁ t₃ : TokenType) (p : Parser SIPFields) : Script (Parser SIPFields) :=
  .ret (if t₁.s = text "Content-Length" then { p with st := { p.st with content_len_ := t₃ } } else p)

def Line.action (junk : Junk) : Line → Parser SIPFields → Script (Parser SIPFields)
  | .header t₁ t₃, p => SIPParser.header t₁ t₃ p
  | .via t₄ t₅, p => SIPParser.via junk t₄ t₅ p
  | .contact t₇ t₉, p => SIPParser.contact junk t₇ t₉ p
  | .other, p => .ret p
  | .connection t₄ t₅, p => SIPParser.connection t₄ t₅ p
  | .media t₄, p => SIPParser.media junk t₄ p

def actions (junk : Junk) : List Line → Parser SIPFields → Script (Parser SIPFields)
  | [], p => .ret p
  | l :: ls, p => (l.action junk p).bind (actions junk ls)

/-- `sipmessage: requestline headers CRLF sdp` -/
def sipmessage (avalue : Int) (p : Parser SIPFields) : Parser SIPFields :=
  if 0 < p.st.content_len_.s.length then
    p.addToken p.st.content_len_ (p.st.content_len_.addInt avalue p.totalDelta).s false
  else p

def fresh (c : CommunicatorKind) : Parser SIPFields := .new c ⟨⟨[], 0, 0⟩, ⟨[], 0, 0⟩⟩

def parse (junk : Junk) (avalue : Int) (ls : List Line) (p : Parser SIPFields) : Script (Parser SIPFields) :=
  (actions junk ls p).map (sipmessage avalue)

end SIPParser

end Nat64Alg
