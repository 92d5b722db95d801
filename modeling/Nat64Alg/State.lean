import Nat64Alg.Parser
import Mathlib.Data.String.Basic

namespace Nat64Alg

open Lib

def wordLt (a b : UInt32) : Bool := a.toNat < b.toNat

def nameLt (a b : String) : Bool := a < b

instance : Order wordLt := OrderedMap.order_of_key UInt32.toNat (fun _ _ ↦ rfl)

instance : Order nameLt where
  irrefl a := by simp [nameLt]
  trans a b c := by
    simp only [nameLt, decide_eq_true_eq]
    exact fun h h' ↦ h.trans h'
  incomp_trans a b c := by
    simp only [nameLt, decide_eq_true_eq, not_lt]
    exact fun h h' ↦ ⟨h'.1.trans h.1, h.2.trans h'.2⟩

structure Segment where
  seq : UInt32
  len : UInt32
deriving DecidableEq, Repr

structure Flow (σ : Type) where
  ip6p : IP6Port
  ip6srv : IPv6Addr
  ip4p : IP4Port
  ip4srv : IPv4Addr
  trail : DEST → Text
  trail_shift : OrderedMap UInt32 Text wordLt
  tid : Int
  offset_c2s : Int
  offset_s2c : Int
  ignore_ : Bool
  protocol : String
  parsers_c2s : OrderedMap String (Option (Parser σ)) nameLt
  parsers_s2c : OrderedMap String (Option (Parser σ)) nameLt
  segments : DEST → List Segment
  init_seq_set : DEST → Bool
  init_seq : DEST → UInt32

namespace Flow

variable {σ : Type}

/-- The constructor the state manager uses for a new mapping. -/
def new (ip6p : IP6Port) (ip4p : IP4Port) (ip6srv : IPv6Addr) (ip4srv : IPv4Addr) : Flow σ where
  ip6p := ip6p
  ip6srv := ip6srv
  ip4p := ip4p
  ip4srv := ip4srv
  trail _ := []
  trail_shift := .empty
  tid := -1
  offset_c2s := 0
  offset_s2c := 0
  ignore_ := false
  protocol := ""
  parsers_c2s := .empty
  parsers_s2c := .empty
  segments _ := []
  init_seq_set _ := false
  init_seq _ := 0

/-- The constructor for analysis mode keeps only the endpoint seen as server. -/
def new44 (ip4p₁ _ip4p₂ : IP4Port) : Flow σ := new ⟨⟨⟨0, 0, 0, 0⟩⟩, 0⟩ ip4p₁ ⟨⟨0, 0, 0, 0⟩⟩ ⟨0⟩

def getOffset (f : Flow σ) : DEST → Int
  | .SERVER => f.offset_c2s
  | .CLIENT => f.offset_s2c

def addOffset (f : Flow σ) (dest : DEST) (delta : Int) : Flow σ :=
  match dest with
  | .SERVER => { f with offset_c2s := f.offset_c2s + delta }
  | .CLIENT => { f with offset_s2c := f.offset_s2c + delta }

def setIgnore (f : Flow σ) : Flow σ := { f with ignore_ := true }

def ignored (f : Flow σ) : Bool := f.ignore_

def setProtocol (f : Flow σ) (protocol : String) : Flow σ := { f with protocol := protocol }

def getProtocol (f : Flow σ) : String := f.protocol

end Flow

inductive EXTRAType
  | NONE
  | IP
  | TCP
  | SHIFT
deriving DecidableEq, Repr

inductive PROCESS_TYPE
  | STATELESS
  | STATEFUL
  | NONE
deriving DecidableEq, Repr

structure Protocol where
  protocol : String := "tcp"
  ptype_c2s : PROCESS_TYPE := .STATELESS
  ptype_s2c : PROCESS_TYPE := .STATELESS
deriving DecidableEq, Repr

def MIN_PORT : ℕ := 32000
def MAX_PORT : ℕ := 60000

/-- A null pointer, or the place of a flow in the order of allocation. -/
abbrev FlowPtr := Option ℕ

abbrev Key64 := IP6Port × IPv6Addr
abbrev Key46 := IP4Port × IPv4Addr
abbrev Key44 := IP4Port × IP4Port

structure StateManager (σ : Type) where
  analysisMode : Bool
  extra : EXTRAType
  flow_cnt_ : ℕ
  pool_ : List IP4Port
  map_pool_ : OrderedMap UInt32 Bool wordLt
  map64_ : OrderedMap Key64 ℕ (pairLt IP6Port.lt IPv6Addr.lt)
  map46_ : OrderedMap Key46 ℕ (pairLt IP4Port.lt IPv4Addr.lt)
  map44_ : OrderedMap Key44 ℕ (pairLt IP4Port.lt IP4Port.lt)
  prefix_ : IPv6Addr
  ip6srv_cur_ : IPv6Addr
  protocols : OrderedMap String Protocol nameLt
  /-- Every flow ever allocated, in order. -/
  heap : List (Flow σ)

namespace StateManager

variable {σ : Type}

/-- The state manager once the configuration is read and before any pool is added. -/
def start (prefix_ : IPv6Addr) (extra : EXTRAType) (protocols : OrderedMap String Protocol nameLt) :
    StateManager σ where
  analysisMode := false
  extra := extra
  flow_cnt_ := 0
  pool_ := []
  map_pool_ := .empty
  map64_ := .empty
  map46_ := .empty
  map44_ := .empty
  prefix_ := prefix_
  ip6srv_cur_ := ⟨⟨0, 0, 0, 0⟩⟩
  protocols := protocols
  heap := []

def poolOf (ip : IPv4Addr) : List IP4Port :=
  (List.range' MIN_PORT (MAX_PORT + 1 - MIN_PORT)).map (fun p ↦ ⟨ip, ntohs (UInt16.ofNat p)⟩)

def addIPv4Pool (sm : StateManager σ) (ip : IPv4Addr) : StateManager σ :=
  { sm with
    pool_ := sm.pool_ ++ poolOf ip
    map_pool_ := sm.map_pool_.insert ip.getInt true }

def flowAt (sm : StateManager σ) (f : ℕ) : Flow σ :=
  (sm.heap[f]?).getD (Flow.new44 .null .null)

def setFlow (sm : StateManager σ) (f : ℕ) (flow : Flow σ) : StateManager σ :=
  { sm with heap := sm.heap.set f flow }

def getServerAddr6 (sm : StateManager σ) (ip : IPv4Addr) : IPv6Addr :=
  ⟨{ sm.prefix_.getIn6Addr with w₃ := ip.getInt }⟩

def getServerAddr4 (ip : IPv6Addr) : IPv4Addr := ⟨ip.getIn6Addr.w₃⟩

def isAddrInRange6 (sm : StateManager σ) (ip : IPv6Addr) : Bool :=
  let addr₁ := sm.prefix_.getIn6Addr
  let addr₂ := ip.getIn6Addr
  addr₁.w₀ == addr₂.w₀ && addr₁.w₁ == addr₂.w₁ && addr₁.w₂ == addr₂.w₂

def isAddrInRange4 (sm : StateManager σ) (ip : IPv4Addr) : Bool × StateManager σ :=
  let r := sm.map_pool_.index ip.getInt false
  (r.1, { sm with map_pool_ := r.2 })

def setCurIPv6SrvAddr (sm : StateManager σ) (addr : IPv6Addr) : StateManager σ :=
  { sm with ip6srv_cur_ := addr }

/-- A new flow takes the front of the pool and is entered in both tables. -/
def create (sm : StateManager σ) (key : Key64) (ip4Port : IP4Port) (pool : List IP4Port) :
    StateManager σ :=
  { sm with
    pool_ := pool
    heap := sm.heap ++ [Flow.new key.1 ip4Port key.2 (getServerAddr4 key.2)]
    map64_ := sm.map64_.insert key sm.heap.length
    map46_ := sm.map46_.insert (ip4Port, getServerAddr4 key.2) sm.heap.length }

def doMapping (sm : StateManager σ) (ip6Port : IP6Port) (ip6srv : IPv6Addr) :
    FlowPtr × StateManager σ :=
  match sm.map64_.find? (ip6Port, ip6srv) with
  | some f => (some f, sm)
  | none =>
    match sm.pool_ with
    | ip4Port :: pool => (some sm.heap.length, sm.create (ip6Port, ip6srv) ip4Port pool)
    | [] => (none, sm)

/-- The one-argument `doMapping`, for the server last set. -/
def doMappingCur (sm : StateManager σ) (ip6Port : IP6Port) : FlowPtr × StateManager σ :=
  sm.doMapping ip6Port sm.ip6srv_cur_

def getMapping6 (sm : StateManager σ) (ip6Port : IP6Port) (ip6srv : IPv6Addr) : FlowPtr :=
  sm.map64_.find? (ip6Port, ip6srv)

def getMapping4 (sm : StateManager σ) (ip4Port : IP4Port) (ip4srv : IPv4Addr) : FlowPtr :=
  sm.map46_.find? (ip4Port, ip4srv)

def doMapping44 (sm : StateManager σ) (ip4Port₁ ip4Port₂ : IP4Port) : FlowPtr × StateManager σ :=
  match sm.map44_.find? (ip4Port₁, ip4Port₂), sm.map44_.find? (ip4Port₂, ip4Port₁) with
  | some f, _ => (some f, sm)
  | none, some f => (some f, sm)
  | none, none =>
    let key₁ :=
      if ntohs ip4Port₂.getPort == 80 && ntohs ip4Port₁.getPort != 80 then (ip4Port₂, ip4Port₁)
      else (ip4Port₁, ip4Port₂)
    (some sm.heap.length,
      { sm with
        flow_cnt_ := sm.flow_cnt_ + 1
        heap := sm.heap ++ [Flow.new44 key₁.1 key₁.2]
        map44_ := sm.map44_.insert key₁ sm.heap.length })

end StateManager

end Nat64Alg
