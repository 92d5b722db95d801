import Nat64Alg.Ip
import Nat64Alg.Lib.Prog

namespace Nat64Alg

open Lib

inductive DEST
  | CLIENT
  | SERVER
deriving DecidableEq, Repr

/-- What stops the program when the code goes where C++ leaves it undefined. -/
inductive Fault
  | nullFlow
  | badCopy
  | wildPointer
deriving DecidableEq, Repr

structure TokenType where
  s : Text
  pos : Int
  pos_end : Int
deriving DecidableEq, Repr

inductive OP
  | REPLACE
deriving DecidableEq, Repr

/-- Replace the bytes of `[start_pos, end_pos)` by `newdata`. -/
structure Operation where
  start_pos : Int
  end_pos : Int
  op : OP
  newdata : Text
  cnt : Bool
deriving DecidableEq, Repr

namespace Operation

def lt (a b : Operation) : Bool := a.start_pos < b.start_pos

def delta (o : Operation) : Int := o.newdata.length - (o.end_pos - o.start_pos)

end Operation

inductive CommunicatorKind
  | stateless
  | stateful
deriving DecidableEq, Repr

/-- The base class, and the state `st` of the scanner and grammar derived from it.
`total_len` counts the payload bytes fed so far, where the scanner's positions start. -/
structure Parser (σ : Type) where
  c_ : CommunicatorKind
  endPos : Int
  ended : Bool
  maxPos : Int
  maxLen : Int
  ops : List Operation
  correct : Bool
  total_len : ℕ
  st : σ

/-- What a grammar action asks of the state manager. `setIgnore` marks the flow
the last `doMapping` returned. -/
inductive Call
  | doMapping (ip6Port : IP6Port)
  | setIgnore
deriving DecidableEq, Repr

/-- A grammar at work: it sees the IPv4 endpoint of each flow it maps, or a null pointer. -/
abbrev Script (α : Type) := Prog Call (Option IP4Port) Fault α

/-- The generated scanners and parsers. `make` knows the protocols by name, and
`addData` lets a parser read one packet's payload, answering -1 when its thread has quit. -/
structure ParserClass (σ : Type) where
  make : String → Option σ
  addData : Parser σ → Text → Script (Int × Parser σ)
  getContentLengthExceed : Parser σ → Text → Text

namespace Parser

variable {σ : Type}

def new (c : CommunicatorKind) (st : σ) : Parser σ where
  c_ := c
  endPos := -1
  ended := false
  maxPos := -1
  maxLen := 0
  ops := []
  correct := false
  total_len := 0
  st := st

def make (pc : ParserClass σ) (protocol : String) (c : CommunicatorKind) : Option (Parser σ) :=
  (pc.make protocol).map (new c)

def process (pc : ParserClass σ) (p : Parser σ) (data : Text) :
    Script (List Operation × Parser σ) :=
  (pc.addData p data).map (fun r ↦
    let p' := if r.1 < 0 then { r.2 with ended := true } else r.2
    (p'.ops, { p' with ops := [], total_len := p.total_len + data.length }))

def addOperation (p : Parser σ) (op : Operation) : Parser σ :=
  match op.op with
  | .REPLACE => { p with ops := p.ops ++ [op] }

def addToken (p : Parser σ) (t : TokenType) (newdata : Text) (count : Bool) : Parser σ :=
  p.addOperation ⟨t.pos, t.pos_end, .REPLACE, newdata, count⟩

def totalDelta (p : Parser σ) : Int :=
  ((p.ops.filter Operation.cnt).map Operation.delta).sum

end Parser

end Nat64Alg
