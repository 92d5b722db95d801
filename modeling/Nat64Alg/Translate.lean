import Nat64Alg.DoApp
import Mathlib.Logic.Function.Basic

namespace Nat64Alg

open Lib

variable {σ : Type}

def addrBytes (a : In6Addr) : List UInt8 :=
  Mem.bytes32 a.w₀ ++ Mem.bytes32 a.w₁ ++ Mem.bytes32 a.w₂ ++ Mem.bytes32 a.w₃

def make_ip4pkt (payload_len : UInt16) (ip4saddr ip4daddr : IPv4Addr) (protocol : UInt8) : List UInt8 :=
  [0x45, 0] ++ Mem.bytes16 (ntohs payload_len) ++ [0, 0, 0, 0, 64, protocol, 0, 0] ++
    Mem.bytes32 ip4saddr.getInt ++ Mem.bytes32 ip4daddr.getInt

def make_ip6pkt (payload_len : UInt16) (ip6saddr ip6daddr : IPv6Addr) (protocol : UInt8) : List UInt8 :=
  [0x60, 0, 0, 0] ++ Mem.bytes16 (ntohs payload_len) ++ [protocol, 64] ++
    addrBytes ip6saddr.getIn6Addr ++ addrBytes ip6daddr.getIn6Addr

/-- A packet handed to a raw socket: `len` bytes of `buf`. -/
inductive Sent
  | v4 (buf : Mem) (len : Int) (daddr : IPv4Addr)
  | v6 (buf : Mem) (len : Int) (daddr : IPv6Addr) (keep : Bool)

/-- A flow belongs to the thread that first handles an IPv6 packet of it. -/
def StateManager.setTid (sm : StateManager σ) (f : ℕ) (tid : Int) : StateManager σ :=
  if (sm.flowAt f).tid < 0 then sm.setFlow f { sm.flowAt f with tid := tid } else sm

def Flow.tailSent (flow : Flow σ) (dest : DEST) : Flow σ :=
  let f := flow.addOffset dest (flow.trail dest).length
  { f with trail := fun d ↦ if d = dest then [] else f.trail d }

namespace NAT

def begin (nat : NAT) (sm : StateManager σ) (p : Packet) : Except Fault (Int × NAT × StateManager σ) :=
  if p.getIPVersion = 4 then
    let r := sm.doMapping ⟨p.saddr6, p.getSourcePort⟩ p.daddr6
    match r.1 with
    | none => .error .nullFlow
    | some f =>
      .ok (0, { nat with ip4p_ := (r.2.flowAt f).ip4p }, (r.2.setTid f nat.tid).setCurIPv6SrvAddr p.daddr6)
  else
    match sm.getMapping4 ⟨p.daddr4, p.getDestPort⟩ p.saddr4 with
    | none => .ok (1, nat, sm)
    | some f => .ok (0, { nat with ip6p_ := (sm.flowAt f).ip6p }, sm)

def doSPort (nat : NAT) (p : Packet) : Packet :=
  match p.transport with
  | some a => if p.getIPVersion = 4 then { p with obuf_ := p.obuf_.st16 a nat.ip4p_.getPort } else p
  | none => p

def doDPort (nat : NAT) (p : Packet) : Packet :=
  match p.transport with
  | some a => if p.getIPVersion = 6 then { p with obuf_ := p.obuf_.st16 (a + 2) nat.ip6p_.getPort } else p
  | none => p

def doIP (nat : NAT) (sm : StateManager σ) (p : Packet) : Packet :=
  let len := UInt16.ofInt p.transport_len_
  if p.getIPVersion = 4 then
    let daddr := StateManager.getServerAddr4 p.daddr6
    { p with obuf_ := p.obuf_.store 0 (make_ip4pkt len nat.ip4p_.getIP daddr (p.ip6Mem 6)) }
  else
    let saddr := sm.getServerAddr6 p.saddr4
    { p with obuf_ := p.obuf_.store 0 (make_ip6pkt len saddr nat.ip6p_.getIP (p.ipMem 9)) }

def finish (p : Packet) : Packet := p.updateChecksum

/-- The cut tail of the last packet as a packet of its own, when there is one. -/
def doExtraTCP (nat : NAT) (sm : StateManager σ) (p : Packet) : Bool × StateManager σ × Packet :=
  match nat.exttcpflow_, p.tcp_ with
  | some f, some a =>
    let flow := sm.flowAt f
    let dest := p.getDEST
    let len := p.transport_len_
    let hl := p.getTransportHeaderLen
    let tail := flow.trail dest
    if len ≤ hl ∨ flow.ignored = true ∨ tail.length = 0 then (false, sm, p)
    else
      let p := { p with obuf_ := p.obuf_.store (a + hl) tail }
      let p := p.setTransportLen (tail.length + hl)
      let seq := ntohl (p.obuf_.ld32 (a + 4)) + UInt32.ofInt (len - hl)
      (true, sm.setFlow f (flow.tailSent dest), { p with obuf_ := p.obuf_.st32 (a + 4) (ntohl seq) })
  | _, _ => (false, sm, p)

/-- The end of `translate`: what is handed to the sockets, in order. -/
def send (nat : NAT) (sm : StateManager σ) (p : Packet) :
    Except Fault (StateManager σ × Packet × List Sent) :=
  if p.hw_protocol = ETHERTYPE_IPV6 then .ok (sm, p, [.v4 p.obuf_ p.obuf_len_ p.daddr4])
  else
    let keep := nat.modified_ || p.transport_len_ - p.getTransportHeaderLen == 0
    if sm.extra = .TCP then
      -- the packet is copied to a buffer of 65535 bytes first
      if p.obuf_len_ < 0 ∨ 65535 < p.obuf_len_ then .error .badCopy
      else
        let r := nat.doExtraTCP sm p
        let extra := if r.1 then [Sent.v6 r.2.2.obuf_ r.2.2.obuf_len_ r.2.2.daddr6 true] else []
        .ok (r.2.1, r.2.2, extra ++ [.v6 p.obuf_ p.obuf_len_ r.2.2.daddr6 keep])
    else .ok (sm, p, [.v6 p.obuf_ p.obuf_len_ p.daddr6 keep])

structure Translated (σ : Type) where
  ret : Int
  nat : NAT
  sm : StateManager σ
  pkt : Packet
  sent : List Sent
  asked : Asked
  edit : Option Edit

/-- The range check `translate` opens with. -/
def inRange (sm : StateManager σ) (p : Packet) : Except Fault (Bool × StateManager σ) :=
  if sm.analysisMode then .ok (true, sm)
  else if p.hw_protocol = ETHERTYPE_IPV6 then
    match p.getDest6 with
    | .error e => .error e
    | .ok a => .ok (sm.isAddrInRange6 a, sm)
  else
    match p.getDest4 with
    | .error e => .error e
    | .ok a => .ok (sm.isAddrInRange4 a)

/-- Port and address rewriting and the checksums, for the new IP header. -/
def rewrite (nat : NAT) (sm : StateManager σ) (p : Packet) : Packet :=
  finish (nat.doIP sm (nat.doDPort (nat.doSPort p)))

/-- `translate` with `app` as the body of its `try` block. -/
def translateWith (app : NAT → StateManager σ → Packet → Except Fault (AppOut σ))
    (nat : NAT) (sm : StateManager σ) (p : Packet) : Except Fault (Translated σ) := do
  let (ok, sm) ← inRange sm p
  if !ok || (!p.isTCP && !p.isUDP) then
    return ⟨0, nat, sm, p, [], [], none⟩
  let (rc, nat, sm) ← if sm.analysisMode then .ok (0, nat, sm) else nat.begin sm p
  if rc ≠ 0 then
    return ⟨0, nat, sm, p, [], [], none⟩
  let a ← app { nat with modified_ := false } sm p
  if a.sm.analysisMode then
    return ⟨1, a.nat, a.sm, a.pkt, [], a.asked, a.edit⟩
  let (sm, p, sent) ← a.nat.send a.sm (a.nat.rewrite a.sm a.pkt)
  return ⟨1, a.nat, sm, p, sent, a.asked, a.edit⟩

/-- At this commit the call of `doApp` is commented out. -/
def noApp (nat : NAT) (sm : StateManager σ) (p : Packet) : Except Fault (AppOut σ) :=
  .ok ⟨nat, sm, p, [], none⟩

def translate (nat : NAT) (sm : StateManager σ) (p : Packet) : Except Fault (Translated σ) :=
  nat.translateWith noApp sm p

def new (tid : Int) : NAT := ⟨tid, .null, ⟨⟨⟨0, 0, 0, 0⟩⟩, 0⟩, none, false⟩

end NAT

/-- Any number of translators, numbered by thread, over one state manager. -/
structure System (σ : Type) where
  nats : ℕ → NAT
  sm : StateManager σ

structure Handled (σ : Type) where
  worker : ℕ
  pkt : Packet
  res : NAT.Translated σ

namespace System

def start (sm : StateManager σ) : System σ := ⟨fun w ↦ NAT.new w, sm⟩

def after (s : System σ) (l : Handled σ) : System σ :=
  ⟨Function.update s.nats l.worker l.res.nat, l.res.sm⟩

@[simp] theorem after_sm (s : System σ) (l : Handled σ) : (s.after l).sm = l.res.sm := rfl

theorem after_nats_self (s : System σ) (l : Handled σ) : (s.after l).nats l.worker = l.res.nat :=
  Function.update_self _ _ _

theorem after_nats_ne (s : System σ) {l : Handled σ} {w : ℕ} (h : w ≠ l.worker) :
    (s.after l).nats w = s.nats w := Function.update_of_ne h _ _

def Step (app : NAT → StateManager σ → Packet → Except Fault (AppOut σ)) (s : System σ) (l : Handled σ)
    (s' : System σ) : Prop :=
  (s.nats l.worker).translateWith app s.sm l.pkt = .ok l.res ∧ s' = s.after l

end System

end Nat64Alg
