import Nat64Alg.Packet
import Mathlib.Data.List.Sort

namespace Nat64Alg

open Lib

/-- Where the copy loop stands: how many operations are done, whether it copies
from the replacement text, and the next byte to copy, of that text or of the source. -/
structure Cursor where
  cnt : ℕ
  inside : Bool
  ps : Int
deriving DecidableEq, Repr

namespace Cursor

/-- The test at the head of the loop body. A read of `ops` past its end never matches. -/
def enter (ops : List Operation) (offset : Int) (c : Cursor) : Cursor :=
  match ops[c.cnt]? with
  | some o =>
    if !c.inside && c.ps == o.start_pos - offset then
      if o.newdata.length == 0 then { c with ps := o.end_pos - offset, cnt := c.cnt + 1 }
      else { c with inside := true, ps := 0 }
    else c
  | none => c

def emit (s : Mem) (ops : List Operation) (offset : Int) (c : Cursor) : UInt8 × Cursor :=
  if c.inside then
    match ops[c.cnt]? with
    | some o =>
      let b := o.newdata.getD c.ps.toNat 0
      if c.ps + 1 == o.newdata.length then (b, ⟨c.cnt + 1, false, o.end_pos - offset⟩)
      else (b, { c with ps := c.ps + 1 })
    | none => (0, c)
  else (s c.ps, { c with ps := c.ps + 1 })

def step (s : Mem) (ops : List Operation) (offset : Int) (c : Cursor) : UInt8 × Cursor :=
  (c.enter ops offset).emit s ops offset

end Cursor

/-- The loop of `Flow::modify`: `n` bytes from the source `s` and the operations. -/
def copyLoop (s : Mem) (ops : List Operation) (offset : Int) : ℕ → Cursor → Text
  | 0, _ => []
  | n + 1, c => (c.step s ops offset).1 :: copyLoop s ops offset n (c.step s ops offset).2

def copied (s : Mem) (ops : List Operation) (offset : Int) (len : Int) : Text :=
  copyLoop s ops offset len.toNat ⟨0, false, 0⟩

def sortOps (ops : List Operation) : List Operation :=
  ops.insertionSort (fun a b ↦ a.start_pos ≤ b.start_pos)

/-- The length limit is moved by every operation found to end before it, in turn. -/
def moveLimit (ops : List Operation) (pos : Int × Int) : Int × Int :=
  ops.foldl (fun pos o ↦
    if o.end_pos ≤ pos.2 then (pos.1 + o.delta, pos.2 + o.delta) else pos) pos

namespace Flow

variable {σ : Type}

def getPktOffset (flow : Flow σ) (p : Packet) : Int × Flow σ :=
  match p.tcp_ with
  | none => (0, flow)
  | some a =>
    let dest := p.getDEST
    let seq := ntohl (p.obuf_.ld32 (a + 4))
    if flow.init_seq_set dest then ((seq - flow.init_seq dest).toInt32.toInt, flow)
    else (0, { flow with
      init_seq_set := fun d ↦ if d = dest then true else flow.init_seq_set d
      init_seq := fun d ↦ if d = dest then seq else flow.init_seq d })

/-- What `modify` does, with the payload length it was given, the offset it used, the
payload its loop copied, and the payload it built before any cut. -/
structure Modified (σ : Type) where
  flow : Flow σ
  pkt : Packet
  parser : Parser σ
  delta : Int
  len_old : Int
  offset : Int
  copied : Text
  built : Text

/-- The payload once the length limit is reached: the surplus goes through the parser. -/
def exceed (pc : ParserClass σ) (parser : Parser σ) (maxPos : Int) (d : Text) : Text :=
  if 0 < maxPos ∧ maxPos ≤ d.length then
    let oldcontent := d.drop maxPos.toNat
    let newcontent := pc.getContentLengthExceed parser oldcontent
    if newcontent != oldcontent then d.take maxPos.toNat ++ newcontent else d
  else d

/-- A rewritten payload over the segment size loses its tail to the flow. -/
def keepTail (extra : EXTRAType) (flow : Flow σ) (p : Packet) (len_old : Int) (d : Text) : Flow σ × Text :=
  if p.isTCP && decide (len_old < d.length) && decide (1400 < len_old) then
    let tail := d.drop len_old.toNat
    let flow :=
      if extra = .SHIFT then { flow with trail_shift := flow.trail_shift.insert p.nxt_seq_ tail }
      else { flow with trail := fun e ↦ if e = p.getDEST then tail else flow.trail e }
    (flow, d.take len_old.toNat)
  else (flow, d)

/-- The source and the destination of the payload: the same place in either buffer. -/
def payloadAt (p : Packet) : Option (Int × Int) :=
  let hl := p.getTransportHeaderLen
  match p.tcp_, p.udp_ with
  | some a, _ => some ((p.tcp_old_.getD a) + hl, a + hl)
  | none, some a => some ((p.udp_old_.getD a) + hl, a + hl)
  | none, none => none

/-- The limit for the length-exceed rewrite, in output coordinates, and the parser with its own moved. -/
def limit (parser : Parser σ) (ops : List Operation) : Int × Parser σ :=
  if 0 < parser.maxPos then
    let pos := moveLimit ops (parser.maxPos, parser.maxPos)
    (pos.1 + parser.maxLen, { parser with maxPos := pos.2 })
  else (parser.maxPos, parser)

def modifyAt (pc : ParserClass σ) (extra : EXTRAType) (flow : Flow σ) (p : Packet)
    (ops : List Operation) (parser : Parser σ) (src dst : Int) : Modified σ :=
  let hl := p.getTransportHeaderLen
  let len_old := p.transport_len_ - hl
  let at_ := flow.getPktOffset p
  let len := len_old + (ops.map Operation.delta).sum
  let d₀ := copied (fun i ↦ p.ibuf_ (src + i)) ops at_.1 len
  let lim := limit parser ops
  let d := exceed pc lim.2 (lim.1 - at_.1) d₀
  let kept := keepTail extra at_.2 p len_old d
  -- overlapping operations can take the length below zero, and then nothing is written
  let newlen : Int := if len < 0 then len else kept.2.length
  let p := { p with obuf_ := (p.obuf_.store dst d₀).store dst d }
  ⟨kept.1, p.setTransportLen (newlen + hl), lim.2, newlen - len_old, len_old, at_.1, d₀, d⟩

def modify (pc : ParserClass σ) (extra : EXTRAType) (flow : Flow σ) (p : Packet)
    (ops : List Operation) (parser : Parser σ) : Modified σ :=
  if ops.length == 0 then ⟨flow, p, parser, 0, p.payload.length, 0, p.payload, p.payload⟩
  else
    match payloadAt p with
    | none => ⟨flow, p, parser, 0, p.payload.length, 0, p.payload, p.payload⟩
    | some (src, dst) => modifyAt pc extra flow p (sortOps ops) parser src dst

/-- Push out the bytes carried over from the segment before, and carry over as many. -/
def shift (extra : EXTRAType) (flow : Flow σ) (p : Packet) (d : Int) (len : Int) : Flow σ × Packet :=
  if extra = .SHIFT then
    let r := flow.trail_shift.index p.cur_seq_ []
    let flow := { flow with trail_shift := r.2 }
    if 0 < r.1.length then
      let slen : Int := r.1.length
      let newt := p.obuf_.slice (d + len - slen) slen.toNat
      -- the loop moves bytes only when the segment is longer than the carried text
      let obuf := p.obuf_.store (d + slen) (p.obuf_.slice d (len - slen).toNat)
      ({ flow with trail_shift := flow.trail_shift.insert p.nxt_seq_ newt },
        { p with obuf_ := obuf.store d r.1 })
    else (flow, p)
  else (flow, p)

def count (flow : Flow σ) (p : Packet) (dest : DEST) : Flow σ :=
  match p.tcp_ with
  | none => flow
  | some a =>
    let s : Segment :=
      ⟨ntohl (p.ibuf_.ld32 (p.tcp_old_.getD a + 4)),
        UInt32.ofInt (p.transport_len_ - p.getTransportHeaderLen)⟩
    let fits := match (flow.segments dest).getLast? with
      | none => true
      | some last => s.seq == last.seq + last.len
    if fits then
      { flow with segments := fun e ↦ if e = dest then flow.segments e ++ [s] else flow.segments e }
    else flow

end Flow

end Nat64Alg
