import Nat64Alg.Analysis
import Nat64Alg.Literal
import Nat64Alg.Translate
import Nat64Alg.Lib.Tally

namespace Nat64Alg

open Lib StateManager

variable {σ : Type}

/-- The counters that `analyze` reports. -/
inductive Counter
  | total_flow
  | sip_flow
  | ftp_flow
  | http_flow
  | literal
deriving DecidableEq

abbrev Counters := Counter → ℕ

def Counter.once (c : Counter) : Counters := Pi.single c 1

/-- What lasts from file to file: the state manager, and `Flow::analyze` of every flow. -/
structure Analyzer (σ : Type) where
  sm : StateManager σ
  analyze : ℕ → ℕ

/-- What `analyze` reports of one file. -/
structure Report where
  cnt : ℕ
  total : ℕ
  total1 : ℕ
  counters : Counters
  flows : ℕ

/-- What lies in memory before it is written: in `buf`, and in each new `Packet`. -/
structure Leftover where
  buf : Mem
  packet : ℕ → Packet

structure Settings where
  prefix_ : IPv6Addr
  ip4 : IPv4Addr
  protocols : List (String × Protocol)

/-- `init` reads the settings again for every file; the tables stay. -/
def StateManager.init (sm : StateManager σ) (s : Settings) : StateManager σ :=
  let sm : StateManager σ := { sm with analysisMode := false, flow_cnt_ := 0, prefix_ := s.prefix_ }
  let sm := sm.addIPv4Pool s.ip4
  { sm with protocols := s.protocols.foldl (fun m p ↦ m.insert p.1 p.2) sm.protocols }

def Packet.onPort (p : Packet) (port : ℕ) : Bool :=
  (ntohs p.getSourcePort).toNat == port || (ntohs p.getDestPort).toNat == port

def assign (p : Packet) (r : ℕ × Counters) : ℕ × Counters :=
  if p.isTCP then
    let r := if p.onPort 80 then (2, r.2 + Counter.http_flow.once) else r
    let r := if p.onPort 8080 then (2, r.2 + Counter.http_flow.once) else r
    if p.onPort 21 then (3, r.2 + Counter.ftp_flow.once) else r
  else if p.isUDP then
    if p.onPort 5060 then (4, r.2 + Counter.sip_flow.once) else r
  else r

/-- What a packet does to `analyze` of its flow before its bytes are searched, and what it counts. -/
def classify (analyze : ℕ) (p : Packet) : ℕ × Counters :=
  let r : ℕ × Counters := if analyze = 0 then (1, Counter.total_flow.once) else (analyze, 0)
  if r.1 ≤ 1 then assign p r else r

/-- The body of the loop for the bytes of an IPv4 packet, which stand 14 bytes into the frame. -/
def Analyzer.packet (s : Analyzer σ) (junk : Packet) (buf : Mem) (incl_len : ℕ) :
    Except Fault (Analyzer σ × Counters) :=
  let ip : Mem := fun i ↦ buf (14 + i)
  let len : Int := incl_len - 14
  match Packet.receive junk ETHERTYPE_IP ip len with
  | .error e => .error e
  | .ok p =>
    match (NAT.new 0).translate s.sm p with
    | .error e => .error e
    | .ok t =>
      match t.pkt.getFlow t.sm with
      | (none, sm) => .ok ({ s with sm := sm }, 0)
      | (some f, sm) =>
        let r := classify (s.analyze f) t.pkt
        if r.1 = 2 ∨ r.1 = 100 then
          match Literal.parse ip len with
          | none => .error .wildPointer
          | some n =>
            if n ≠ 0 then
              .ok (⟨sm, Function.update s.analyze f 100⟩, r.2 + if r.1 = 2 then Counter.literal.once else 0)
            else .ok (⟨sm, Function.update s.analyze f r.1⟩, r.2)
        else .ok (⟨sm, Function.update s.analyze f r.1⟩, r.2)

def Report.read (r : Report) (incl_len : ℕ) : Report :=
  let r := { r with total := r.total + incl_len, cnt := r.cnt + 1 }
  if r.total1 = 0 ∧ 2000000 < r.cnt then { r with total1 := r.total } else r

def Analyzer.records (junk : ℕ → Packet) (s : Analyzer σ) (r : Report) (buf : Mem) (file : Text) :
    Except Fault (Analyzer σ × Report) :=
  if _h : file.length < 16 then .ok (s, r)
  else
    let incl_len := ((Mem.ofList file).ld32 8).toNat
    let data := (file.drop 16).take incl_len
    if 65536 < data.length then .error .badCopy
    else if data.length ≠ incl_len then .ok (s, r)
    else
      let buf := buf.store 0 data
      let r := r.read incl_len
      if buf 12 ≠ 0x08 ∨ buf 13 ≠ 0x00 then Analyzer.records junk s r buf (file.drop (16 + incl_len))
      else
        match s.packet (junk r.cnt) buf incl_len with
        | .error e => .error e
        | .ok (s, n) =>
          let r := { r with counters := r.counters + n }
          if 2200000 < r.cnt then .ok (s, r)
          else Analyzer.records junk s r buf (file.drop (16 + incl_len))
termination_by file.length
decreasing_by all_goals simp only [List.length_drop]; omega

end Nat64Alg
