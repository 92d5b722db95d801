import Nat64Alg.Modify

namespace Nat64Alg

open Lib

variable {σ : Type}

structure NAT where
  tid : Int
  ip4p_ : IP4Port
  ip6p_ : IP6Port
  exttcpflow_ : FlowPtr
  modified_ : Bool
deriving DecidableEq

/-- The calls a grammar made, each with the endpoint it was given. -/
abbrev Asked := List (Call × Option IP4Port)

/-- The state manager answering a grammar action, with the flow it returned last. -/
def answer (c : Call) (s : StateManager σ × FlowPtr) : Option IP4Port × StateManager σ × FlowPtr :=
  match c with
  | .doMapping k =>
    let r := s.1.doMappingCur k
    (r.1.map (fun f ↦ (r.2.flowAt f).ip4p), r.2, r.1)
  | .setIgnore =>
    match s.2 with
    | some f => (none, s.1.setFlow f (s.1.flowAt f).setIgnore, s.2)
    | none => (none, s)

def Protocol.ptype (pr : Protocol) : DEST → PROCESS_TYPE
  | .CLIENT => pr.ptype_s2c
  | .SERVER => pr.ptype_c2s

namespace Flow

def parsers (flow : Flow σ) : DEST → OrderedMap String (Option (Parser σ)) nameLt
  | .CLIENT => flow.parsers_s2c
  | .SERVER => flow.parsers_c2s

def setParser (flow : Flow σ) (dest : DEST) (protocol : String) (p : Option (Parser σ)) : Flow σ :=
  match dest with
  | .CLIENT => { flow with parsers_s2c := flow.parsers_s2c.insert protocol p }
  | .SERVER => { flow with parsers_c2s := flow.parsers_c2s.insert protocol p }

end Flow

namespace StateManager

/-- How `protocol` is processed towards `dest`. The names asked for come from the table. -/
def ptype (sm : StateManager σ) (protocol : String) (dest : DEST) : PROCESS_TYPE :=
  ((sm.protocols.find? protocol).getD {}).ptype dest

/-- `Flow::getParser`: a parser for one packet, or the one kept for the stream. -/
def getParser (pc : ParserClass σ) (sm : StateManager σ) (f : ℕ) (protocol : String) (dest : DEST) :
    Option (Parser σ) × StateManager σ :=
  match sm.ptype protocol dest with
  | .STATELESS => (Parser.make pc protocol .stateless, sm)
  | .STATEFUL =>
    match (((sm.flowAt f).parsers dest).find? protocol).join.filter (fun p ↦ !p.ended) with
    | some p => (some p, sm)
    | none =>
      let p := Parser.make pc protocol .stateful
      (p, sm.setFlow f ((sm.flowAt f).setParser dest protocol p))
  | .NONE => (none, sm)

/-- What was done through a parser pointer stays with the flow when the flow keeps the parser. -/
def storeParser (sm : StateManager σ) (f : ℕ) (protocol : String) (dest : DEST) (p : Parser σ) :
    StateManager σ :=
  if sm.ptype protocol dest = .STATEFUL then
    sm.setFlow f ((sm.flowAt f).setParser dest protocol (some p))
  else sm

end StateManager

/-- The outcome of handing the payload to parsers. `parser` is the last one
fetched, and `pos` is where its positions stood before this packet. -/
structure Choice (σ : Type) where
  sm : StateManager σ
  asked : Asked
  ops : List Operation
  parser : Option (Parser σ)
  pos : ℕ
  protocol : String
  guess : String
  guessCount : ℕ

def feed (pc : ParserClass σ) (f : ℕ) (dest : DEST) (content : Text) (name : String) (p : Parser σ)
    (c : Choice σ) : Except Fault (Choice σ) :=
  match (p.process pc content).run answer (c.sm, none) with
  | .error e => .error e
  | .ok ((ops, p'), s, log) =>
    .ok { c with
      sm := s.1.storeParser f name dest p'
      asked := c.asked ++ log
      ops := ops
      parser := some p'
      pos := p.total_len }

def skips (pr : Protocol) (tcp udp : Bool) : Bool :=
  (pr.protocol == "tcp" && !tcp) || (pr.protocol == "udp" && !udp)

/-- With no protocol chosen yet, each one is tried in turn until one yields operations. -/
def tryProtocols (pc : ParserClass σ) (f : ℕ) (dest : DEST) (tcp udp : Bool) (content : Text) :
    List (String × Protocol) → Choice σ → Except Fault (Choice σ)
  | [], c => .ok c
  | (name, pr) :: rest, c =>
    if skips pr tcp udp then tryProtocols pc f dest tcp udp content rest c
    else
      let r := c.sm.getParser pc f name dest
      match r.1 with
      | none => tryProtocols pc f dest tcp udp content rest { c with sm := r.2, parser := none }
      | some p =>
        match feed pc f dest content name p { c with sm := r.2 } with
        | .error e => .error e
        | .ok c =>
          if 0 < c.ops.length then
            .ok { c with
              sm := c.sm.setFlow f ((c.sm.flowAt f).setProtocol name)
              protocol := name }
          else if (c.parser.map Parser.correct).getD false then
            tryProtocols pc f dest tcp udp content rest
              { c with guess := name, guessCount := c.guessCount + 1 }
          else tryProtocols pc f dest tcp udp content rest c

def chooseOps (pc : ParserClass σ) (sm : StateManager σ) (f : ℕ) (dest : DEST) (tcp udp : Bool)
    (content : Text) : Except Fault (Choice σ) :=
  let protocol := (sm.flowAt f).getProtocol
  let c : Choice σ := ⟨sm, [], [], none, 0, protocol, "", 0⟩
  if protocol == "" then
    match tryProtocols pc f dest tcp udp content sm.protocols.entries c with
    | .error e => .error e
    | .ok c =>
      if c.protocol == "" && c.guessCount == 1 then
        .ok { c with sm := c.sm.setFlow f ((c.sm.flowAt f).setProtocol c.guess) }
      else .ok c
  else
    let r := sm.getParser pc f protocol dest
    match r.1 with
    | none => .ok { c with sm := r.2 }
    | some p => feed pc f dest content protocol p { c with sm := r.2 }

/-- The sequence number moves with the changes of its own direction, and the
acknowledgement back by those of the other. -/
def adjust (flow : Flow σ) (dest : DEST) (p : Packet) : Packet :=
  match p.tcp_ with
  | none => p
  | some a =>
    let offsetc2s := UInt32.ofInt (flow.getOffset .SERVER)
    let offsets2c := UInt32.ofInt (flow.getOffset .CLIENT)
    let seq := ntohl (p.obuf_.ld32 (a + 4))
    let ack := ntohl (p.obuf_.ld32 (a + 8))
    match dest with
    | .SERVER => { p with
        obuf_ := (p.obuf_.st32 (a + 4) (ntohl (seq + offsetc2s))).st32 (a + 8) (ntohl (ack - offsets2c)) }
    | .CLIENT => { p with
        obuf_ := (p.obuf_.st32 (a + 4) (ntohl (seq + offsets2c))).st32 (a + 8) (ntohl (ack - offsetc2s)) }

/-- A call of `Flow::modify` as an observer sees it. -/
structure Edit where
  protocol : String
  ops : List Operation
  pos : ℕ
  len_old : Int
  offset : Int
  copied : Text
  built : Text
  delta : Int

namespace Edit

/-- The rewritten payload is longer than the one received, and that was over the segment size. -/
def cut (e : Edit) : Bool := decide (e.len_old < e.built.length) && decide (1400 < e.len_old)

def kept (e : Edit) : Text := if e.cut then e.built.take e.len_old.toNat else e.built
def tail (e : Edit) : Text := if e.cut then e.built.drop e.len_old.toNat else []

end Edit

structure AppOut (σ : Type) where
  nat : NAT
  sm : StateManager σ
  pkt : Packet
  asked : Asked
  edit : Option Edit

def applyOps (pc : ParserClass σ) (nat : NAT) (c : Choice σ) (p : Packet) (f : ℕ) (dest : DEST) : AppOut σ :=
  match c.parser with
  | some parser =>
    if 0 < c.ops.length then
      let m := (c.sm.flowAt f).modify pc c.sm.extra p c.ops parser
      let sm := c.sm.setFlow f (m.flow.addOffset dest m.delta)
      { nat := { nat with modified_ := true }
        sm := sm.storeParser f c.protocol dest m.parser
        pkt := m.pkt
        asked := c.asked
        edit := some ⟨c.protocol, c.ops, c.pos, m.len_old, m.offset, m.copied, m.built, m.delta⟩ }
    else ⟨nat, c.sm, p, c.asked, none⟩
  | none => ⟨nat, c.sm, p, c.asked, none⟩

/-- In analysis mode the endpoint recorded for the flow is the server's. -/
def analysisDest (flow : Flow σ) (p : Packet) : DEST :=
  if IP4Port.eq flow.ip4p ⟨p.daddr4, p.getDestPort⟩ then .SERVER else .CLIENT

def Flow.shiftTCP (extra : EXTRAType) (flow : Flow σ) (p : Packet) : Flow σ × Packet :=
  let hl := p.getTransportHeaderLen
  match p.tcp_ with
  | some a => flow.shift extra p (a + hl) (p.transport_len_ - hl)
  | none => (flow, p)

/-- `doApp` from the point where the payload is worth reading. -/
def doContent (pc : ParserClass σ) (nat : NAT) (sm : StateManager σ) (p : Packet) (f : ℕ) (dest : DEST) :
    Except Fault (AppOut σ) :=
  let shifted := (sm.flowAt f).shiftTCP sm.extra p
  let sm := sm.setFlow f shifted.1
  let p := shifted.2
  let content := p.payload
  if content.length == 0 then .ok ⟨nat, sm, p, [], none⟩
  else
    let sm := sm.setFlow f ((sm.flowAt f).count p dest)
    match chooseOps pc sm f dest p.isTCP p.isUDP content with
    | .error e => .error e
    | .ok c => .ok (applyOps pc nat c p f dest)

def doAppFlow (pc : ParserClass σ) (nat : NAT) (sm : StateManager σ) (p : Packet) (f : ℕ) :
    Except Fault (AppOut σ) :=
  if sm.analysisMode then doContent pc nat sm p f (analysisDest (sm.flowAt f) p)
  else
    let p := adjust (sm.flowAt f) p.getDEST p
    if p.transport_len_ ≤ p.getTransportHeaderLen ∨ (sm.flowAt f).ignored = true then
      .ok ⟨nat, sm, p, [], none⟩
    else doContent pc nat sm p f p.getDEST

def doApp (pc : ParserClass σ) (nat : NAT) (sm : StateManager σ) (p : Packet) : Except Fault (AppOut σ) :=
  let r := p.getFlow sm
  let nat := { nat with exttcpflow_ := r.1 }
  match r.1 with
  | none => .ok ⟨nat, r.2, p, [], none⟩
  | some f => doAppFlow pc nat r.2 p f

end Nat64Alg
