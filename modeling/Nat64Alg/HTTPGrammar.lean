import Nat64Alg.HTTPChunks
import Nat64Alg.HTTPScanner

namespace Nat64Alg

open Lib

namespace HTTPParser

open HTTPScanner

/-- What the parser has on its stack: the production it is in, and what it needs of its tokens. -/
inductive Stack
  | statusline (n : ℕ)
  | httpheaders (any : Bool)
  | httpheader (read : List TokenType)
  | httpbody
  | tag
  | closing
  | closed
  | attributes
  | ident
  | value
  | href
  | url (read : List TokenType)
  | url_trailing
  | error
  | quit
deriving DecidableEq, Repr

/-- `httpheader: HEADER_IDENT ':' HEADER_VALUE '\n'` -/
def headerShape : List Token := [.HEADER_IDENT, .char COLON, .HEADER_VALUE, .char 10]

/-- `url: URL_NAME ':' '/' '/' INTEGER '.' INTEGER '.' INTEGER '.' INTEGER '/'` -/
def urlShape : List Token :=
  [.URL_NAME, .char COLON, .char SLASH, .char SLASH, .INTEGER, .char DOT, .INTEGER, .char DOT, .INTEGER, .char DOT,
    .INTEGER, .char SLASH]

/-- The action of `httpheader`. A search for the flag `chunked` is one for the character 0 or 1. -/
def httpheader (p : HTTPParser) : List TokenType → HTTPParser
  | [t₁, _, t₃, _] =>
    if t₁.s = text "Transfer-Encoding" ∧ (if p.st.chunked then 1 else 0) ∈ t₃.s then
      { p with st.chunked := true } else p
  | _ => p

/-- The action inside `url`. -/
def url (p : HTTPParser) : List TokenType → HTTPParser
  | [_, _, _, _, t₅, _, t₇, _, t₉, _, t₁₁, _] =>
    let ip := ((((((t₅.addText [DOT]).add t₇).addText [DOT]).add t₉).addText [DOT]).add t₁₁).s
    p.reportIP ip t₅.pos t₁₁.pos_end
  | _ => p

/-- What the generators of scanner and parser decide: which tokens a parser discards after
a wrong address, and what a character passed over adds to the positions. -/
structure Generated where
  discards : Token → Bool
  echoed : UInt8 → ℕ

/-- What may come where `attributes` may end. -/
def attributes : Token → Option Stack
  | .TAG_IDENT_HREF => some .href
  | .TAG_IDENT => some .ident
  | .char 62 => some .httpbody
  | _ => none

/-- `url: error`. The token may go on with the tag, be discarded, or end the parse. -/
def recover (g : Generated) (k : Token) : Stack :=
  (attributes k).getD (if g.discards k then .error else .quit)

/-- One token of the parser. Nothing but `url: error` takes a wrong one. -/
def shift (g : Generated) (p : HTTPParser) (k : Token) (t : TokenType) : Stack → Stack × HTTPParser
  | .statusline n =>
    if n < 3 ∧ k = .STATUS_IDENT then (.statusline (n + 1), p)
    else if n = 3 ∧ k = .char 10 then (.httpheaders false, { p with st := { p.st with chunked := false, len := 0 } })
    else (.quit, p)
  | .httpheaders any =>
    if k = .HEADER_IDENT then (.httpheader [t], p)
    else if k = .char 10 ∧ any then (.httpbody, p.emptyline t)
    else (.quit, p)
  | .httpheader read =>
    if headerShape[read.length]? = some k then
      if read.length = 3 then (.httpheaders true, p.httpheader (read ++ [t])) else (.httpheader (read ++ [t]), p)
    else (.quit, p)
  | .httpbody => (if k = .char LANGLE then .tag else .quit, p)
  | .tag =>
    match k with
    | .TAG_IDENT => (.attributes, p.beginTag t.s)
    | .char 47 => (.closing, p)
    | .TAG_IGNORE => (.httpbody, p)
    | _ => (.quit, p)
  | .closing => if k = .TAG_IDENT then (.closed, p.endTag t.s) else (.quit, p)
  | .closed => (if k = .char RANGLE then .httpbody else .quit, p)
  | .attributes => ((attributes k).getD .quit, p)
  | .ident => (if k = .char 61 then .value else .quit, p)
  | .value => (if k = .ATT_VALUE then .attributes else .quit, p)
  | .href => (if k = .char 61 then .url [] else .quit, p)
  | .url read =>
    if urlShape[read.length]? = some k then
      if read.length = 11 then (.url_trailing, p.url (read ++ [t])) else (.url (read ++ [t]), p)
    else (recover g k, p)
  | .url_trailing =>
    if k = .URL_IDENT ∨ k = .INTEGER ∨ k = .char SLASH ∨ k = .char DOT then (.url_trailing, p)
    else ((attributes k).getD .quit, p)
  | .error => (recover g k, p)
  | .quit => (.quit, p)

/-- Parser and grammar in the middle of a stream, and the position the scanner has counted to. -/
structure Progress where
  p : HTTPParser
  stack : Stack
  cnt : ℕ

def Generated.counts (g : Generated) (m : Consumed UInt8 State Token) : ℕ := m.counts g.echoed

def Progress.next (g : Generated) (r : Progress) (m : Consumed UInt8 State Token) : Progress :=
  match m.token with
  | none => { r with cnt := r.cnt + g.counts m }
  | some k =>
    let x := shift g r.p k ⟨m.text, r.cnt, r.cnt + g.counts m⟩ r.stack
    ⟨x.2, x.1, r.cnt + g.counts m⟩

end HTTPParser

open HTTPScanner HTTPParser

structure HTTPStream where
  members : HTTPState
  stack : Stack
  cnt : ℕ
  head : Head UInt8 State

namespace HTTPStream

/-- A parser as it is made. `members` and the two flags are not initialised, but for `curTag`. -/
def start (members : HTTPState) (inURL urlFirst : Bool) : HTTPStream :=
  ⟨{ members with curTag := [] }, .statusline 0, 0, HTTPScanner.start inURL urlFirst⟩

/-- `addData` of a communicator that keeps its thread: the thread reads on where it
waited, until it waits again or has quit. -/
def addData (g : Generated) (q : Parser HTTPStream) (data : Text) : Int × Parser HTTPStream :=
  let x := lexer.read q.st.head data
  let p : HTTPParser := { q with st := q.st.members }
  let r := x.1.foldl (Progress.next g) ⟨p, q.st.stack, q.st.cnt⟩
  (if r.stack = .quit then -1 else 0, { r.p with st := ⟨r.p.st, r.stack, r.cnt, x.2⟩ })

def only (g : Generated) (members : HTTPState) (inURL urlFirst : Bool) : ParserClass HTTPStream where
  make name := if name = "http" then some (start members inURL urlFirst) else none
  addData q data := .ret (addData g q data)
  getContentLengthExceed q content := HTTPParser.getContentLengthExceed { q with st := q.st.members } content

end HTTPStream

end Nat64Alg
