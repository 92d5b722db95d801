import Nat64Alg.Grammar
import Nat64Alg.Lib.Scanner

namespace Nat64Alg

open Lib

namespace TokenType

def addText (a : TokenType) (b : Text) : TokenType := ⟨a.s ++ b, a.pos, a.pos_end⟩

def add (a b : TokenType) : TokenType := ⟨a.s ++ b.s, a.pos, b.pos_end⟩

end TokenType

/-- What `postCode` makes of the matches: the tokens with the stream positions they span. How many characters
`matched()` holds where no rule matches is up to the generated scanner. -/
def spans {S K : Type} (echoed : UInt8 → ℕ) : Int → List (Consumed UInt8 S K) → List (K × TokenType)
  | _, [] => []
  | cnt, m :: ms =>
    let next := spans echoed (cnt + m.counts echoed) ms
    match m.token with
    | some k => (k, ⟨m.text, cnt, cnt + m.counts echoed⟩) :: next
    | none => next

section Spans

variable {S K : Type} {echoed : UInt8 → ℕ} {cnt : Int} {s : S} {m : Text} {k : K} {ms : List (Consumed UInt8 S K)}

theorem spans_done : spans echoed cnt ([] : List (Consumed UInt8 S K)) = [] := rfl

theorem spans_token : spans echoed cnt (⟨⟨s, m, some k⟩, false⟩ :: ms) =
    (k, ⟨m, cnt, cnt + m.length⟩) :: spans echoed (cnt + m.length) ms := rfl

theorem spans_ignored : spans echoed cnt (⟨⟨s, m, none⟩, false⟩ :: ms) = spans echoed (cnt + m.length) ms := rfl

end Spans

def CR : UInt8 := 13
def LF : UInt8 := 10
def COLON : UInt8 := 58
def BAR : UInt8 := 124
def SP : UInt8 := 32

def isAlpha (c : UInt8) : Bool := (65 ≤ c && c ≤ 90) || (97 ≤ c && c ≤ 122)

namespace FTPScanner

inductive StartCondition
  | INITIAL
  | request
  | response
  | eprt
deriving DecidableEq, Repr

abbrev State := StartCondition × Bool

inductive Token
  | INT
  | RESPONSE_TEXT
  | REQUEST_TEXT
  | CMD
  | CMD_EPRT
  | char (c : UInt8)
deriving DecidableEq, Repr

/-- A rule of one start condition, anchored to the begin of a line or not. -/
def rule (c : StartCondition) (bol : Bool) (pattern : Text → ℕ)
    (action : Text → StartCondition × Option Token) : Rule UInt8 State Token where
  enabled s := s.1 == c && (s.2 || !bol)
  pattern := pattern
  action _ m := (((action m).1, m.getLast? == some LF), (action m).2)

/-- The rules shared by `request` and `response`. -/
def lineRules (c : StartCondition) (token : Token) : List (Rule UInt8 State Token) :=
  [rule c false (Pattern.oneMany (fun c ↦ c != SP && c != CR && c != LF) (fun c ↦ c != CR && c != LF))
      (fun _ ↦ (c, some token)),
    rule c false (Pattern.one (· == SP)) (fun _ ↦ (c, none)),
    rule c false (Pattern.literal [CR, LF]) (fun m ↦ (.INITIAL, some (.char (m.getD 1 0)))),
    rule c false (Pattern.literal [LF]) (fun m ↦ (.INITIAL, some (.char (m.getD 0 0))))]

/-- The rules of `ftp/lexer`, in order. -/
def rules : List (Rule UInt8 State Token) :=
  [rule .INITIAL true (Pattern.many isDigit) (fun _ ↦ (.response, some .INT)),
    rule .INITIAL true (Pattern.many isAlpha) (fun m ↦
      if m = text "EPRT" then (.eprt, some .CMD_EPRT) else (.request, some .CMD)),
    rule .INITIAL false (Pattern.oneMany (fun c ↦ !(isDigit c || isAlpha c || c == LF)) (· != LF))
      (fun _ ↦ (.INITIAL, none)),
    rule .INITIAL false (Pattern.literal [LF]) (fun m ↦ (.INITIAL, some (.char (m.getD 0 0))))] ++
  lineRules .response .RESPONSE_TEXT ++ lineRules .request .REQUEST_TEXT ++
  [rule .eprt false (Pattern.one (fun c ↦ c == SP || c == BAR)) (fun _ ↦ (.eprt, none)),
    rule .eprt false (Pattern.many isDigit) (fun _ ↦ (.eprt, some .INT)),
    rule .eprt false (Pattern.one (fun c ↦ !(c == SP || c == BAR || c == CR || c == LF)))
      (fun m ↦ (.eprt, some (.char (m.getD 0 0)))),
    rule .eprt false (Pattern.literal [CR, LF]) (fun m ↦ (.INITIAL, some (.char (m.getD 1 0)))),
    rule .eprt false (Pattern.literal [LF]) (fun m ↦ (.INITIAL, some (.char (m.getD 0 0))))]

def lexemes (s : State) (t : Text) : List (Consumed UInt8 State Token) := Rule.scan rules (fun s c ↦ (s.1, c == LF)) s t

def tokens (echoed : UInt8 → ℕ) (t : Text) : List (Token × TokenType) := spans echoed 0 (lexemes (.INITIAL, true) t)

example : (tokens (fun _ ↦ 1) (text "EPRT |2|1::8|21|\r\n")).map (fun t ↦ (t.1, t.2.pos)) =
    [(.CMD_EPRT, 0), (.INT, 6), (.INT, 8), (.char COLON, 9), (.char COLON, 10), (.INT, 11), (.INT, 13),
      (.char LF, 16)] := by decide +kernel

end FTPScanner

namespace FTPParser

open FTPScanner

variable {σ : Type}

/-- The rest of `ipp` after its first number: `ipp: INT | ipp ':' INT`. -/
def ippTail (a : TokenType) : List (Token × TokenType) → TokenType × List (Token × TokenType)
  | (.char 58, _) :: (.INT, t) :: ts => ippTail ((a.addText [COLON]).add t) ts
  | ts => (a, ts)

/-- `ip: ipp ':' ':' ipp | ipp` -/
def ip : List (Token × TokenType) → Option (TokenType × List (Token × TokenType))
  | (.INT, t) :: ts =>
    match ippTail t ts with
    | (a, (.char 58, _) :: (.char 58, _) :: (.INT, t') :: ts') =>
      let b := ippTail t' ts'
      some ((a.addText [COLON, COLON]).add b.1, b.2)
    | r => some r
  | _ => none

/-- `FTPmessage: request | response`. On a syntax error `request: error` takes the line. -/
def message (junk : Junk) (ts : List (Token × TokenType)) (p : Parser σ) : Script (Parser σ) :=
  match ts with
  | (.CMD, t₁) :: (.REQUEST_TEXT, _) :: (.char 10, _) :: _ => command t₁ p
  | (.CMD_EPRT, _) :: (.INT, t₂) :: ts =>
    match ip ts with
    | some (t₃, (.INT, t₄) :: (.char 10, _) :: _) => eprt junk t₂ t₃ t₄ p
    | _ => .ret p
  | _ => .ret p

/-- `run__` for one packet: a scanner switched to its bytes, and one message parsed. -/
def addData (echoed : UInt8 → ℕ) (junk : Junk) (p : Parser σ) (data : Text) : Script (Int × Parser σ) :=
  (message junk (tokens echoed data) p).map (fun p ↦ (0, p))

def only (echoed : UInt8 → ℕ) (junk : Junk) : ParserClass Unit where
  make name := if name = "ftp" then some () else none
  addData := addData echoed junk
  getContentLengthExceed _ data := data

end FTPParser

end Nat64Alg
