import Nat64Alg.Pcap
import Nat64Alg.Sessions

namespace Nat64Alg

open Lib StateManager

variable {σ : Type} {s s' : Analyzer σ} {sm : StateManager σ} {p junk : Packet} {buf : Mem} {len : Int}

def Packet.pair (p : Packet) : Sym2 IP4Port := s(p.dest4, p.src4)

/-- A packet of a flow, and whether a URL with a literal address stands in it. -/
abbrev Seen := Sym2 IP4Port × Packet × Bool

/-- What one packet does to `analyze` of its flow, and what it counts. -/
def mark (analyze : ℕ) (e : Packet × Bool) : ℕ × Counters :=
  let r := classify analyze e.1
  if (r.1 = 2 ∨ r.1 = 100) ∧ e.2 then (100, r.2 + if r.1 = 2 then Counter.literal.once else 0) else r

/-- `analyze` of the flow of each pair of endpoints, once the packets of `es` are seen. -/
def marks (es : List Seen) (z : Sym2 IP4Port) : ℕ := (Tally.cell mark 0 (Tally.own z es)).1

/-- What the packets `new` count, once those of `old` are seen. -/
def counted (old new : List Seen) : Counters := (Tally.run mark (marks old) new).2

theorem marks_append (es es' : List Seen) : marks (es ++ es') = (Tally.run mark (marks es) es').1 := by
  funext z
  rw [Tally.run_cells, marks, Tally.own_append, Tally.cell_append]
  rfl

theorem counted_append (old es es' : List Seen) :
    counted old (es ++ es') = counted old es + counted (old ++ es) es' := by
  unfold counted
  rw [Tally.run_append, marks_append]

section Marks

/-- What the ports of a packet make of its flow, if anything. -/
def kind (p : Packet) : Option ℕ :=
  if p.isTCP then if p.onPort 21 then some 3 else if p.onPort 80 || p.onPort 8080 then some 2 else none
  else if p.isUDP && p.onPort 5060 then some 4 else none

/-- What is counted of a flow with the packet that it gets its kind from: HTTP once for each of its two ports. -/
def kindCounters (p : Packet) : Counters :=
  if p.isTCP then
    (if p.onPort 80 then Counter.http_flow.once else 0) + (if p.onPort 8080 then Counter.http_flow.once else 0) +
      if p.onPort 21 then Counter.ftp_flow.once else 0
  else if p.isUDP && p.onPort 5060 then Counter.sip_flow.once else 0

theorem assign_eq (p : Packet) (r : ℕ × Counters) : assign p r = ((kind p).getD r.1, r.2 + kindCounters p) := by
  unfold assign kind kindCounters
  cases p.isTCP with
  | true => cases p.onPort 80 <;> cases p.onPort 8080 <;> cases p.onPort 21 <;> simp [add_assoc]
  | false => cases p.isUDP <;> cases p.onPort 5060 <;> simp

theorem kind_cases (p : Packet) :
    kind p = none ∧ kindCounters p = 0 ∨ kind p = some 2 ∨ kind p = some 3 ∨ kind p = some 4 := by
  unfold kind kindCounters
  cases p.isTCP <;> cases p.onPort 80 <;> cases p.onPort 8080 <;> cases p.onPort 21 <;> cases p.isUDP <;>
    cases p.onPort 5060 <;> simp

theorem kindCounters_total (p : Packet) : kindCounters p .total_flow = 0 := by
  unfold kindCounters
  cases p.isTCP <;> cases p.onPort 80 <;> cases p.onPort 8080 <;> cases p.onPort 21 <;> cases p.isUDP <;>
    cases p.onPort 5060 <;> simp [Counter.once]

theorem classify_eq (n : ℕ) (p : Packet) : classify n p =
    if n ≤ 1 then ((kind p).getD 1, (if n = 0 then Counter.total_flow.once else 0) + kindCounters p) else (n, 0) := by
  unfold classify
  dsimp only
  rcases Nat.lt_trichotomy n 1 with hn | rfl | hn
  · obtain rfl : n = 0 := by omega
    simp [assign_eq]
  · simp [assign_eq]
  · have hpos : ¬n = 0 := by omega
    have hbig : ¬n ≤ 1 := by omega
    simp only [if_neg hpos, if_neg hbig]

theorem mark_pos (n : ℕ) (e : Packet × Bool) : (mark n e).1 ≠ 0 := by
  have hclass : (classify n e.1).1 ≠ 0 := by
    rw [classify_eq]
    split
    · rcases kind_cases e.1 with ⟨h, -⟩ | h | h | h <;> simp [h]
    · dsimp only
      omega
  unfold mark
  dsimp only
  split
  · exact Nat.succ_ne_zero _
  · exact hclass

theorem mark_total (n : ℕ) (e : Packet × Bool) : (mark n e).2 .total_flow = if n = 0 then 1 else 0 := by
  have hclass : (classify n e.1).2 .total_flow = if n = 0 then 1 else 0 := by
    rw [classify_eq]
    split
    · dsimp only
      rw [Pi.add_apply, kindCounters_total]
      split <;> simp [Counter.once]
    · rw [if_neg (by omega)]
      rfl
  unfold mark
  dsimp only
  split
  · dsimp only
    rw [Pi.add_apply, hclass]
    split <;> split <;> simp [Counter.once]
  · exact hclass

theorem marks_concat (es : List Seen) (z' : Sym2 IP4Port) (x : Packet × Bool) (z : Sym2 IP4Port) :
    marks (es ++ [(z', x)]) z = if z = z' then (mark (marks es z') x).1 else marks es z := by
  rw [marks_append]
  exact Function.update_apply _ _ _ _

theorem marks_pos {es : List Seen} {z : Sym2 IP4Port} (h : z ∈ es.map Prod.fst) : marks es z ≠ 0 := by
  induction es using List.reverseRecOn with
  | nil => cases h
  | append_singleton es e ih =>
    obtain ⟨z', x⟩ := e
    rw [marks_concat]
    split
    case isTrue => exact mark_pos _ _
    case isFalse hz => exact ih (by simpa [hz] using h)

theorem marks_absent {es : List Seen} {z : Sym2 IP4Port} (h : z ∉ es.map Prod.fst) : marks es z = 0 := by
  rw [marks, Tally.own_eq_nil h]
  rfl

end Marks

/-- The flows of the table are those of the pairs seen, each with the `analyze` its packets have given it. -/
structure Labelled (es : List Seen) (s : Analyzer σ) : Prop where
  mode : s.sm.analysisMode = true
  pairs : (s.sm.map44_.entries.map (fun e ↦ s(e.1.1, e.1.2))).Nodup
  flows : (s.sm.map44_.entries.map Prod.snd).Nodup
  lt : ∀ e ∈ s.sm.map44_.entries, e.2 < s.sm.heap.length
  analyze : ∀ e ∈ s.sm.map44_.entries, s.analyze e.2 = marks es s(e.1.1, e.1.2)
  fresh : ∀ f, s.sm.heap.length ≤ f → s.analyze f = 0
  known : ∀ z, z ∈ es.map Prod.fst ↔ ∃ e ∈ s.sm.map44_.entries, s(e.1.1, e.1.2) = z

namespace Labelled

variable {es : List Seen}

theorem again (h : Labelled es s) {e : Key44 × ℕ} (he : e ∈ s.sm.map44_.entries) {z : Sym2 IP4Port}
    (hs : s(e.1.1, e.1.2) = z) (x : Packet × Bool) :
    Labelled (es ++ [(z, x)]) ⟨s.sm, Function.update s.analyze e.2 (mark (marks es z) x).1⟩ := by
  refine ⟨h.mode, h.pairs, h.flows, h.lt, fun e' he' ↦ ?_, fun f hf ↦ ?_, fun z' ↦ ?_⟩
  · change Function.update s.analyze e.2 _ e'.2 = _
    rw [marks_concat]
    by_cases hz : s(e'.1.1, e'.1.2) = z
    · obtain rfl : e' = e := List.inj_on_of_nodup_map h.pairs he' he (hz.trans hs.symm)
      rw [if_pos hz, Function.update_self]
    · have hne : e'.2 ≠ e.2 := by
        intro heq
        obtain rfl := List.inj_on_of_nodup_map h.flows he' he heq
        exact hz hs
      rw [if_neg hz, Function.update_of_ne hne]
      exact h.analyze e' he'
  · have hf : s.sm.heap.length ≤ f := hf
    have hlt := h.lt e he
    exact (Function.update_of_ne (by omega) _ _).trans (h.fresh f hf)
  · rw [List.map_append, List.mem_append, h.known]
    refine ⟨fun hz ↦ hz.elim id (fun hz ↦ ⟨e, he, ?_⟩), .inl⟩
    exact hs.trans (List.mem_singleton.mp hz).symm

theorem entered (h : Labelled es s) {k : Key44} {z : Sym2 IP4Port} (hk : s(k.1, k.2) = z)
    (hno : ∀ e ∈ s.sm.map44_.entries, s(e.1.1, e.1.2) ≠ z) (x : Packet × Bool) :
    Labelled (es ++ [(z, x)])
      ⟨s.sm.enter44 k, Function.update s.analyze s.sm.heap.length (mark (marks es z) x).1⟩ := by
  have habsent : s.sm.map44_.find? k = none := by
    cases hf : s.sm.map44_.find? k with
    | none => rfl
    | some f => exact absurd hk (hno _ (find44.mp hf))
  have hperm := OrderedMap.perm_insert s.sm.heap.length habsent
  have hmem : ∀ e, e ∈ (s.sm.enter44 k).map44_.entries ↔ e = (k, s.sm.heap.length) ∨ e ∈ s.sm.map44_.entries :=
    fun e ↦ hperm.mem_iff.trans List.mem_cons
  have hlen : (s.sm.enter44 k).heap.length = s.sm.heap.length + 1 := by simp [enter44]
  refine ⟨h.mode, ?_, ?_, fun e he ↦ ?_, fun e he ↦ ?_, fun f hf ↦ ?_, fun z' ↦ ?_⟩
  · refine (hperm.map _).nodup_iff.mpr (List.nodup_cons.mpr ⟨fun hin ↦ ?_, h.pairs⟩)
    obtain ⟨e, he, hs⟩ := List.mem_map.mp hin
    exact hno e he (hs.trans hk)
  · refine (hperm.map _).nodup_iff.mpr (List.nodup_cons.mpr ⟨fun hin ↦ ?_, h.flows⟩)
    obtain ⟨e, he, hs⟩ := List.mem_map.mp hin
    exact absurd (h.lt e he) (by simp [hs])
  · rw [hlen]
    rcases (hmem e).mp he with rfl | he
    · exact Nat.lt_succ_self _
    · exact (h.lt e he).trans (Nat.lt_succ_self _)
  · change Function.update s.analyze s.sm.heap.length _ e.2 = _
    rw [marks_concat]
    rcases (hmem e).mp he with rfl | he
    · dsimp only
      rw [if_pos hk, Function.update_self]
    · have hne : e.2 ≠ s.sm.heap.length := (h.lt e he).ne
      rw [if_neg (hno e he), Function.update_of_ne hne]
      exact h.analyze e he
  · have hf : s.sm.heap.length + 1 ≤ f := hlen ▸ hf
    exact (Function.update_of_ne (by omega) _ _).trans (h.fresh f (by omega))
  · rw [List.map_append, List.mem_append, h.known]
    constructor
    · rintro (⟨e, he, hs⟩ | hz)
      · exact ⟨e, (hmem e).mpr (.inr he), hs⟩
      · exact ⟨_, (hmem _).mpr (.inl rfl), hk.trans (List.mem_singleton.mp hz).symm⟩
    · rintro ⟨e, he, hs⟩
      rcases (hmem e).mp he with rfl | he
      · exact .inr (List.mem_singleton.mpr (hs.symm.trans hk))
      · exact .inl ⟨e, he, hs⟩

theorem getFlow (h : Labelled es s) (hp : p.Flowing) : ∃ f sm', p.getFlow s.sm = (some f, sm') ∧
    s.analyze f = marks es p.pair ∧ sm'.flow_cnt_ = s.sm.flow_cnt_ + (if marks es p.pair = 0 then 1 else 0) ∧
    ∀ lit : Bool, Labelled (es ++ [(p.pair, p, lit)])
      ⟨sm', Function.update s.analyze f (mark (marks es p.pair) (p, lit)).1⟩ := by
  rw [getFlow_analysis hp h.mode]
  rcases doMapping44_cases s.sm p.dest4 p.src4 with ⟨e, he, hs, hd⟩ | ⟨hno, k, hk, -, hd⟩
  · have hs : s(e.1.1, e.1.2) = p.pair := hs
    have hseen : marks es p.pair ≠ 0 := marks_pos ((h.known _).mpr ⟨e, he, hs⟩)
    refine ⟨e.2, s.sm, hd, by rw [h.analyze e he, hs], ?_, fun lit ↦ h.again he hs (p, lit)⟩
    rw [if_neg hseen, add_zero]
  · have hnew : marks es p.pair = 0 := by
      refine marks_absent (fun hz ↦ ?_)
      obtain ⟨e, he, hs⟩ := (h.known _).mp hz
      exact hno e he hs
    refine ⟨_, _, hd, by rw [h.fresh _ le_rfl, hnew], ?_, fun lit ↦ h.entered hk hno (p, lit)⟩
    rw [if_pos hnew]
    rfl

end Labelled

theorem translate_analysis {nat : NAT} (hmode : sm.analysisMode = true) :
    ∃ t, nat.translate sm p = .ok t ∧ t.pkt = p ∧ t.sm = sm := by
  unfold NAT.translate NAT.translateWith NAT.inRange
  simp only [hmode, if_true, bind, Except.bind]
  split
  · exact ⟨_, rfl, rfl, rfl⟩
  · exact ⟨_, by simp [NAT.noApp, hmode]; rfl, rfl, rfl⟩

theorem receive_v4_cases (junk : Packet) (buf : Mem) (len : Int) :
    (20 ≤ len ∧ len ≤ 65516 ∧ ∃ p, Packet.receive junk ETHERTYPE_IP buf len = .ok p) ∨
    ¬(20 ≤ len ∧ len ≤ 65516) ∧ Packet.receive junk ETHERTYPE_IP buf len = .error .badCopy := by
  unfold Packet.receive Packet.setIbuf BUF_LEN
  by_cases hlen : len < 0 ∨ 65536 < len
  · rw [if_pos hlen]
    exact .inr ⟨by omega, rfl⟩
  · rw [if_neg hlen]
    dsimp only
    rw [Packet.unpack_v4 rfl]
    unfold Packet.unpackAs BUF_LEN
    dsimp only
    split
    case isTrue h => exact .inr ⟨by omega, rfl⟩
    case isFalse h => exact .inl ⟨by omega, by omega, _, rfl⟩

/-- A record of a capture file: a frame that the buffer has room for, and its times. -/
structure Record where
  ts_sec : UInt32
  ts_usec : UInt32
  orig_len : UInt32
  data : Text
  fits : data.length ≤ 65536

def Record.bytes (r : Record) : Text :=
  (Mem.bytes32 r.ts_sec ++ Mem.bytes32 r.ts_usec) ++
    (Mem.bytes32 (UInt32.ofNat r.data.length) ++ (Mem.bytes32 r.orig_len ++ r.data))

def Incomplete (t : Text) : Prop :=
  16 ≤ t.length → (t.drop 16).length < ((Mem.ofList t).ld32 8).toNat ∧ (t.drop 16).length ≤ 65536

instance (t : Text) : Decidable (Incomplete t) := inferInstanceAs (Decidable (_ → _))

/-- A capture file: a header, records, and perhaps a part of one more. -/
structure Pcap where
  header : Text
  records : List Record
  rest : Text
  header_length : header.length = 24
  incomplete : Incomplete rest

def Pcap.bytes (c : Pcap) : Text := c.header ++ (c.records.flatMap Record.bytes ++ c.rest)

structure Capture where
  buf : Mem
  incl_len : ℕ

namespace Capture

def IPv4 (c : Capture) : Prop := c.buf 12 = 0x08 ∧ c.buf 13 = 0x00

instance (c : Capture) : Decidable c.IPv4 := inferInstanceAs (Decidable (_ ∧ _))

/-- There is room for the packet with the header it is given, and its own header is all there. -/
def Fits (c : Capture) : Prop := c.IPv4 → 34 ≤ c.incl_len ∧ c.incl_len ≤ 65530

instance (c : Capture) : Decidable c.Fits := inferInstanceAs (Decidable (_ → _))

def ip (c : Capture) : Mem := fun i ↦ c.buf (14 + i)

def seen (junk : Packet) (c : Capture) : List Seen :=
  if c.IPv4 then
    match Packet.receive junk ETHERTYPE_IP c.ip (c.incl_len - 14) with
    | .ok p => if p.transport.isSome then [(p.pair, p, Literal.parse c.ip (c.incl_len - 14) == some 1)] else []
    | .error _ => []
  else []

end Capture

/-- The records that the loop reads, the first of them as number `n`, each over what the last one left. -/
def captures (n : ℕ) (buf : Mem) : List Record → List Capture
  | [] => []
  | r :: rs =>
    let c : Capture := ⟨buf.store 0 r.data, r.data.length⟩
    c :: if c.IPv4 ∧ 2200000 < n then [] else captures (n + 1) c.buf rs

def seenFrom (junk : ℕ → Packet) : ℕ → List Capture → List Seen
  | _, [] => []
  | n, c :: cs => c.seen (junk n) ++ seenFrom junk (n + 1) cs

theorem counted_single (es : List Seen) (z : Sym2 IP4Port) (e : Packet × Bool) :
    counted es [(z, e)] = (mark (marks es z) e).2 := by
  simp only [counted, Tally.run, add_zero]

theorem packet_received (hmode : s.sm.analysisMode = true) {c : Capture} {jk : Packet}
    (hp : Packet.receive jk ETHERTYPE_IP c.ip (c.incl_len - 14) = .ok p) : s.packet jk c.buf c.incl_len =
      match p.getFlow s.sm with
      | (none, sm) => .ok ({ s with sm := sm }, 0)
      | (some f, sm) =>
        let r := classify (s.analyze f) p
        if r.1 = 2 ∨ r.1 = 100 then
          match Literal.parse c.ip (c.incl_len - 14) with
          | none => .error .wildPointer
          | some n =>
            if n ≠ 0 then
              .ok (⟨sm, Function.update s.analyze f 100⟩, r.2 + if r.1 = 2 then Counter.literal.once else 0)
            else .ok (⟨sm, Function.update s.analyze f r.1⟩, r.2)
        else .ok (⟨sm, Function.update s.analyze f r.1⟩, r.2) := by
  obtain ⟨t, ht, htp, hts⟩ := @translate_analysis _ s.sm p (NAT.new 0) hmode
  unfold Analyzer.packet
  dsimp only
  rw [show Packet.receive jk ETHERTYPE_IP (fun i ↦ c.buf (14 + i)) (c.incl_len - 14) = .ok p from hp]
  dsimp only
  rw [ht]
  dsimp only
  rw [htp, hts]
  rfl

theorem packet_flow (hmode : s.sm.analysisMode = true) {c : Capture} {jk : Packet} {f : ℕ}
    (hp : Packet.receive jk ETHERTYPE_IP c.ip (c.incl_len - 14) = .ok p) (hf : p.getFlow s.sm = (some f, sm)) :
    let m := mark (s.analyze f) (p, Literal.parse c.ip (c.incl_len - 14) == some 1)
    s.packet jk c.buf c.incl_len = .ok (⟨sm, Function.update s.analyze f m.1⟩, m.2) := by
  obtain ⟨r, hr, hr01, -⟩ := Literal.parse_spec c.ip (c.incl_len - 14)
  have hone : r ≠ 0 ↔ (some r == some 1) = true := by rcases hr01 with rfl | rfl <;> decide
  rw [packet_received hmode hp, hf, hr]
  dsimp only
  by_cases hk : (classify (s.analyze f) p).1 = 2 ∨ (classify (s.analyze f) p).1 = 100
  · by_cases hlit : r ≠ 0
    · have hm : mark (s.analyze f) (p, some r == some 1) = (100, (classify (s.analyze f) p).2 +
          if (classify (s.analyze f) p).1 = 2 then Counter.literal.once else 0) := if_pos ⟨hk, hone.mp hlit⟩
      rw [if_pos hk, if_pos hlit, hm]
    · have hm : mark (s.analyze f) (p, some r == some 1) = classify (s.analyze f) p :=
        if_neg (fun h ↦ hlit (hone.mpr h.2))
      rw [if_pos hk, if_neg hlit, hm]
  · have hm : mark (s.analyze f) (p, some r == some 1) = classify (s.analyze f) p := if_neg (fun h ↦ hk h.1)
    rw [if_neg hk, hm]

theorem Labelled.packet {es : List Seen} (h : Labelled es s) {c : Capture} (hip : c.IPv4) (hfits : c.Fits)
    (jk : Packet) : ∃ s' n, s.packet jk c.buf c.incl_len = .ok (s', n) ∧ Labelled (es ++ c.seen jk) s' ∧
      n = counted es (c.seen jk) ∧ s'.sm.flow_cnt_ = s.sm.flow_cnt_ + n .total_flow := by
  obtain ⟨h₁, h₂⟩ := hfits hip
  rcases receive_v4_cases jk c.ip (c.incl_len - 14) with ⟨-, -, p, hp⟩ | ⟨hno, -⟩
  swap
  · exact absurd hno (by omega)
  have hseen : c.seen jk = if p.transport.isSome
      then [(p.pair, p, Literal.parse c.ip (c.incl_len - 14) == some 1)] else [] := by
    unfold Capture.seen
    rw [if_pos hip, hp]
  by_cases htr : p.transport.isSome
  · rw [hseen, if_pos htr]
    have hflow : p.Flowing := ⟨htr, by rw [(Packet.receive_v4 hp).2.2.1]; decide⟩
    obtain ⟨f, sm', hf, hlabel, hcnt, hnext⟩ := h.getFlow hflow
    refine ⟨_, _, packet_flow h.mode hp hf, ?_, ?_, ?_⟩
    · rw [hlabel]
      exact hnext _
    · rw [hlabel, counted_single]
    · rw [hlabel, mark_total]
      exact hcnt
  · have hnone : p.getFlow s.sm = (none, s.sm) := by
      unfold Packet.getFlow
      rw [Option.not_isSome_iff_eq_none.mp htr]
    rw [hseen, if_neg htr, packet_received h.mode hp, hnone]
    exact ⟨s, 0, rfl, by rwa [List.append_nil], rfl, rfl⟩

section Reading

variable {es : List Seen}

theorem ofList_eq_store (bs : Text) {i : Int} (h : 0 ≤ i) : Mem.ofList bs i = Mem.store (fun _ ↦ 0) 0 bs i := by
  unfold Mem.ofList Mem.store
  split
  case isTrue h' => rw [Int.sub_zero]
  case isFalse h' => rw [List.getD_eq_getElem?_getD, List.getElem?_eq_none (by omega), Option.getD_none]

theorem Record.read (r : Record) (t : Text) : 16 ≤ (r.bytes ++ t).length ∧
    ((Mem.ofList (r.bytes ++ t)).ld32 8).toNat = r.data.length ∧
    ((r.bytes ++ t).drop 16).take r.data.length = r.data ∧ (r.bytes ++ t).drop (16 + r.data.length) = t := by
  have hlt : r.data.length < 2 ^ 32 := r.fits.trans_lt (by decide)
  have hbytes : r.bytes ++ t = ((Mem.bytes32 r.ts_sec ++ Mem.bytes32 r.ts_usec) ++
      (Mem.bytes32 (UInt32.ofNat r.data.length) ++ Mem.bytes32 r.orig_len)) ++ (r.data ++ t) := by
    simp [Record.bytes]
  have hdrop : (r.bytes ++ t).drop 16 = r.data ++ t := by
    rw [hbytes]
    exact List.drop_left' rfl
  refine ⟨by simp [Record.bytes]; omega, ?_, by rw [hdrop, List.take_left], ?_⟩
  · have hword : (Mem.ofList (r.bytes ++ t)).ld32 8 = UInt32.ofNat r.data.length := by
      have hstore := @Mem.ld32_store (fun _ ↦ 0) 0 8 (Mem.bytes32 r.ts_sec ++ Mem.bytes32 r.ts_usec)
        (Mem.bytes32 r.orig_len ++ r.data ++ t) (UInt32.ofNat r.data.length) rfl
      rw [← hstore]
      refine Mem.ld32_congr (fun i h₀ h₁ ↦ ?_)
      rw [ofList_eq_store _ (by omega)]
      simp [Record.bytes]
    rw [hword, UInt32.toNat_ofNat', Nat.mod_eq_of_lt hlt]
  · rw [← List.drop_drop, hdrop, List.drop_left]

/-- The report after one more record, with what its packet counts. -/
def Report.counted (r : Report) (incl_len : ℕ) (n : Counters) : Report :=
  { r.read incl_len with counters := (r.read incl_len).counters + n }

theorem Report.counted_cnt (r : Report) (k : ℕ) (n : Counters) : (r.counted k n).cnt = r.cnt + 1 := by
  unfold counted read
  dsimp only
  split <;> rfl

theorem Report.counted_counters (r : Report) (k : ℕ) (n : Counters) : (r.counted k n).counters = r.counters + n := by
  unfold counted read
  dsimp only
  split <;> rfl

theorem captures_cons (n : ℕ) (buf : Mem) (r : Record) (rs : List Record) {c : Capture}
    (hc : c = ⟨buf.store 0 r.data, r.data.length⟩) : captures n buf (r :: rs) =
      c :: if c.IPv4 ∧ 2200000 < n then [] else captures (n + 1) c.buf rs := by
  subst hc
  rfl

theorem records_cons (jk : ℕ → Packet) (s : Analyzer σ) (rep : Report) (buf : Mem) (r : Record) (t : Text) {c : Capture}
    (hc : c = ⟨buf.store 0 r.data, r.data.length⟩) : Analyzer.records jk s rep buf (r.bytes ++ t) =
      if c.IPv4 then
        match s.packet (jk (rep.cnt + 1)) c.buf c.incl_len with
        | .error e => .error e
        | .ok (s, n) =>
          if 2200000 < rep.cnt + 1 then .ok (s, rep.counted c.incl_len n)
          else Analyzer.records jk s (rep.counted c.incl_len n) c.buf t
      else Analyzer.records jk s (rep.counted c.incl_len 0) c.buf t := by
  obtain ⟨h₁, h₂, h₃, h₄⟩ := r.read t
  have hfits : ¬65536 < r.data.length := r.fits.not_gt
  have hcnt : (rep.read r.data.length).cnt = rep.cnt + 1 := rep.counted_cnt r.data.length 0
  have hzero : rep.counted r.data.length 0 = rep.read r.data.length := by simp [Report.counted]
  rw [Analyzer.records, dif_neg (by omega)]
  simp only [h₂, h₃, h₄, if_neg hfits, ne_eq, not_true, if_false]
  by_cases hip : c.IPv4
  · have hbuf : ¬(¬buf.store 0 r.data 12 = 0x08 ∨ ¬buf.store 0 r.data 13 = 0x00) := by
      subst hc
      rw [not_or, not_not, not_not]
      exact hip
    rw [if_neg hbuf, if_pos hip, ← hcnt]
    subst hc
    rfl
  · have hbuf : ¬buf.store 0 r.data 12 = 0x08 ∨ ¬buf.store 0 r.data 13 = 0x00 := by
      subst hc
      exact not_and_or.mp hip
    rw [if_pos hbuf, if_neg hip]
    subst hc
    rw [hzero]

theorem records_incomplete (jk : ℕ → Packet) (s : Analyzer σ) (rep : Report) (buf : Mem) {t : Text} (h : Incomplete t) :
    Analyzer.records jk s rep buf t = .ok (s, rep) := by
  rw [Analyzer.records]
  split
  case isTrue => rfl
  case isFalse h₁ =>
    obtain ⟨h₂, h₃⟩ := h (by omega)
    have hlen : ((t.drop 16).take ((Mem.ofList t).ld32 8).toNat).length = (t.drop 16).length := by
      rw [List.length_take]
      exact min_eq_right h₂.le
    simp only [hlen, if_neg h₃.not_gt, ne_eq, h₂.ne, not_false_iff, if_true]

/-- What the loop leaves when it has read `cs` and the packets `new` of flows in them. -/
structure Reported (es new : List Seen) (cs : List Capture) (s s' : Analyzer σ) (rep rep' : Report) : Prop where
  labelled : Labelled (es ++ new) s'
  cnt : rep'.cnt = rep.cnt + cs.length
  counters : rep'.counters = rep.counters + counted es new
  flow_cnt_ : s'.sm.flow_cnt_ = s.sm.flow_cnt_ + counted es new .total_flow

theorem Reported.cons {new new' : List Seen} {c : Capture} {cs : List Capture} {s'' : Analyzer σ}
    {rep rep₁ rep' : Report} {n : Counters} (hn : n = counted es new)
    (hcnt : s'.sm.flow_cnt_ = s.sm.flow_cnt_ + n .total_flow)
    (h₁ : rep₁.cnt = rep.cnt + 1) (h₂ : rep₁.counters = rep.counters + n)
    (h : Reported (es ++ new) new' cs s' s'' rep₁ rep') : Reported es (new ++ new') (c :: cs) s s'' rep rep' := by
  subst hn
  refine ⟨?_, ?_, ?_, ?_⟩
  · rw [← List.append_assoc]
    exact h.labelled
  · rw [h.cnt, h₁, List.length_cons]
    omega
  · rw [h.counters, h₂, counted_append, add_assoc]
  · rw [h.flow_cnt_, hcnt, counted_append, Pi.add_apply, add_assoc]

theorem Reported.nil (h : Labelled es s) (rep : Report) : Reported es [] [] s s rep rep :=
  ⟨by rwa [List.append_nil], rfl, (add_zero _).symm, rfl⟩

theorem packet_misfit {c : Capture} (h : ¬c.Fits) {jk : Packet} : s.packet jk c.buf c.incl_len = .error .badCopy := by
  have hno : ¬(34 ≤ c.incl_len ∧ c.incl_len ≤ 65530) := fun hh ↦ h (fun _ ↦ hh)
  rcases receive_v4_cases jk c.ip (c.incl_len - 14) with ⟨h₁, h₂, -⟩ | ⟨-, hr⟩
  · exact absurd ⟨by omega, by omega⟩ hno
  · unfold Analyzer.packet
    dsimp only
    rw [show Packet.receive jk ETHERTYPE_IP (fun i ↦ c.buf (14 + i)) (c.incl_len - 14) = .error .badCopy from hr]

theorem Labelled.records (h : Labelled es s) (jk : ℕ → Packet) (rep : Report) (buf : Mem) (rs : List Record) {t : Text}
    (ht : Incomplete t) :
    (∀ c ∈ captures (rep.cnt + 1) buf rs, c.Fits) ∧ (∃ s' rep',
      Analyzer.records jk s rep buf (rs.flatMap Record.bytes ++ t) = .ok (s', rep') ∧
      Reported es (seenFrom jk (rep.cnt + 1) (captures (rep.cnt + 1) buf rs)) (captures (rep.cnt + 1) buf rs)
        s s' rep rep') ∨
    (¬∀ c ∈ captures (rep.cnt + 1) buf rs, c.Fits) ∧
      Analyzer.records jk s rep buf (rs.flatMap Record.bytes ++ t) = .error .badCopy := by
  induction rs generalizing es s rep buf with
  | nil =>
    refine .inl ⟨fun c hc ↦ (by cases hc), s, rep, ?_, .nil h rep⟩
    exact records_incomplete jk s rep buf ht
  | cons r rs ih =>
    obtain ⟨c, hc⟩ : ∃ c : Capture, c = ⟨buf.store 0 r.data, r.data.length⟩ := ⟨_, rfl⟩
    rw [List.flatMap_cons, List.append_assoc, records_cons jk s rep buf r _ hc, captures_cons _ _ _ _ hc]
    by_cases hip : c.IPv4
    · rw [if_pos hip]
      by_cases hfits : c.Fits
      · obtain ⟨s₁, n, hp, hl, hn, hcnt⟩ := h.packet hip hfits (jk (rep.cnt + 1))
        rw [hp]
        dsimp only
        by_cases hlast : 2200000 < rep.cnt + 1
        · rw [if_pos hlast, if_pos ⟨hip, hlast⟩]
          refine .inl ⟨by simpa using hfits, s₁, _, rfl, ?_⟩
          exact Reported.cons hn hcnt (Report.counted_cnt _ _ _) (Report.counted_counters _ _ _) (.nil hl _)
        · rw [if_neg hlast, if_neg (fun hb ↦ hlast hb.2)]
          rcases ih hl (rep.counted c.incl_len n) c.buf with ⟨hall, s', rep', hr, hrest⟩ | ⟨hno, hr⟩
          · rw [Report.counted_cnt] at hall hrest
            refine .inl ⟨List.forall_mem_cons.mpr ⟨hfits, hall⟩, s', rep', hr, ?_⟩
            exact Reported.cons hn hcnt (Report.counted_cnt _ _ _) (Report.counted_counters _ _ _) hrest
          · rw [Report.counted_cnt] at hno
            exact .inr ⟨fun hall ↦ hno (List.forall_mem_cons.mp hall).2, hr⟩
      · refine .inr ⟨fun hall ↦ hfits (List.forall_mem_cons.mp hall).1, ?_⟩
        rw [packet_misfit hfits]
    · have hseen : c.seen (jk (rep.cnt + 1)) = [] := if_neg hip
      have hfits : c.Fits := fun h ↦ absurd h hip
      rw [if_neg hip, if_neg (fun hb ↦ hip hb.1)]
      rcases ih h (rep.counted c.incl_len 0) c.buf with ⟨hall, s', rep', hr, hrest⟩ | ⟨hno, hr⟩
      · rw [Report.counted_cnt] at hall hrest
        refine .inl ⟨List.forall_mem_cons.mpr ⟨hfits, hall⟩, s', rep', hr, ?_⟩
        rw [seenFrom, hseen]
        have hnone : (0 : Counters) = counted es [] := rfl
        refine Reported.cons hnone rfl (Report.counted_cnt rep c.incl_len 0)
          (Report.counted_counters rep c.incl_len 0) ?_
        rwa [List.append_nil]
      · rw [Report.counted_cnt] at hno
        exact .inr ⟨fun hall ↦ hno (List.forall_mem_cons.mp hall).2, hr⟩

end Reading

section Files

/-- A capture file and what lies in memory when it is opened. -/
abbrev Dump := Leftover × Pcap

def Dump.captures (d : Dump) : List Capture := Nat64Alg.captures 1 d.1.buf d.2.records

def Dump.seen (d : Dump) : List Seen := seenFrom d.1.packet 1 d.captures

def Analyzer.start : Analyzer σ := ⟨StateManager.start ⟨⟨0, 0, 0, 0⟩⟩ .NONE .empty, fun _ ↦ 0⟩

def Analyzer.opened (s : Analyzer σ) (settings : Settings) : Analyzer σ :=
  { s with sm := { s.sm.init settings with analysisMode := true } }

variable {es : List Seen} (settings : Settings)

theorem Labelled.opened (h : Labelled es s) : Labelled es (s.opened settings) :=
  ⟨rfl, h.pairs, h.flows, h.lt, h.analyze, h.fresh, h.known⟩

end Files

end Nat64Alg
