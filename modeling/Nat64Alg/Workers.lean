import Nat64Alg.RoundTrip
import Nat64Alg.Sessions

namespace Nat64Alg

open Lib StateManager

variable {σ : Type} {pc : ParserClass σ} {ips : List IPv4Addr} {sm sm' sm'' : StateManager σ}

/-- Any number of workers over one state manager, each with the packet it has taken through `begin`, if any. -/
structure Workers (σ : Type) where
  nats : ℕ → NAT
  hand : ℕ → Option Packet
  sm : StateManager σ

namespace Workers

def start (sm : StateManager σ) : Workers σ := ⟨fun w ↦ .new w, fun _ ↦ none, sm⟩

/-- The worker `w` once it is back from `begin`, with a packet that goes on to `doApp` or none. -/
def begun (s : Workers σ) (w : ℕ) (p : Packet) (r : Int × NAT × StateManager σ) : Workers σ :=
  ⟨Function.update s.nats w { r.2.1 with modified_ := false },
    Function.update s.hand w (if r.1 = 0 then some p else none), r.2.2⟩

def passed (s : Workers σ) (w : ℕ) (out : AppOut σ) : Workers σ :=
  ⟨Function.update s.nats w out.nat, Function.update s.hand w none, out.sm⟩

/-- One call of one worker: `begin` for a new packet, or `doApp` for the one in hand. -/
inductive Step (pc : ParserClass σ) : Workers σ → ℕ × Event σ → Workers σ → Prop
  | begin (s : Workers σ) (w : ℕ) (p : Packet) (r : Int × NAT × StateManager σ) (h : s.hand w = none)
      (hb : (s.nats w).begin s.sm p = .ok r) : Step pc s (w, .begun (s.nats w) p) (s.begun w p r)
  | doApp (s : Workers σ) (w : ℕ) (p : Packet) (out : AppOut σ) (h : s.hand w = some p)
      (ha : Nat64Alg.doApp pc (s.nats w) s.sm p = .ok out) :
      Step pc s (w, .passed (s.nats w) p out) (s.passed w out)

theorem Step.appStep {s s' : Workers σ} {l : ℕ × Event σ} (h : Step pc s l s') : AppStep pc s.sm l.2 s'.sm := by
  cases h with
  | begin w p r h hb => exact ⟨r.1, r.2.1, hb⟩
  | doApp w p out h ha => exact ⟨ha, rfl⟩

theorem Run.appRun {s s' : Workers σ} {ls : List (ℕ × Event σ)} (h : Run (Step pc) s ls s') :
    Run (AppStep pc) s.sm (ls.map Prod.snd) s'.sm := by
  induction h with
  | nil => exact .nil _
  | cons hs _ ih => exact .cons hs.appStep ih

/-- The calls of some workers in a given order: `begin` for a packet, or `doApp`. -/
def perform (pc : ParserClass σ) : Workers σ → List (ℕ × Option Packet) → List (ℕ × Event σ) × Workers σ
  | s, [] => ([], s)
  | s, (w, some p) :: rest =>
    match s.hand w, (s.nats w).begin s.sm p with
    | none, .ok r =>
      let t := perform pc (s.begun w p r) rest
      ((w, .begun (s.nats w) p) :: t.1, t.2)
    | _, _ => ([], s)
  | s, (w, none) :: rest =>
    match s.hand w with
    | some p =>
      match Nat64Alg.doApp pc (s.nats w) s.sm p with
      | .ok out =>
        let t := perform pc (s.passed w out) rest
        ((w, .passed (s.nats w) p out) :: t.1, t.2)
      | .error _ => ([], s)
    | none => ([], s)

theorem perform_run (pc : ParserClass σ) (s : Workers σ) (calls : List (ℕ × Option Packet)) :
    Run (Step pc) s (perform pc s calls).1 (perform pc s calls).2 := by
  induction calls generalizing s with
  | nil => exact .nil s
  | cons c rest ih =>
    obtain ⟨w, c⟩ := c
    cases c with
    | some p =>
      unfold perform
      split
      case h_1 r h hb => exact .cons (.begin s w p r h hb) (ih _)
      case h_2 => exact .nil s
    | none =>
      unfold perform
      split
      case h_1 p h =>
        split
        case h_1 out ha => exact .cons (.doApp s w p out h ha) (ih _)
        case h_2 => exact .nil s
      case h_2 => exact .nil s

end Workers

section Server

/-- The destination of the last IPv6 packet taken through `begin`, by any worker. -/
def serverAfter (a : IPv6Addr) : Event σ → IPv6Addr
  | .begun _ p => if p.getIPVersion = 4 then p.daddr6 else a
  | .passed _ _ _ => a

def lastServer (evs : List (Event σ)) : IPv6Addr := evs.foldl serverAfter ⟨⟨0, 0, 0, 0⟩⟩

/-- The server of the flow that a parser gets for the endpoint `k`. -/
def StateManager.served (sm : StateManager σ) (k : IP6Port) : IPv6Addr :=
  match sm.getMapping6 k sm.ip6srv_cur_ with
  | some g => (sm.flowAt g).ip6srv
  | none => sm.ip6srv_cur_

theorem getMapping6_congr (sm : StateManager σ) {k k' : IP6Port} (h : k.port_ = k'.port_) (a a' : IPv6Addr) :
    sm.getMapping6 k a = sm.getMapping6 k' a' := sm.find64_congr h

theorem served_found {k : IP6Port} {a : IPv6Addr} {g : ℕ} (h : sm.getMapping6 k a = some g) :
    sm.served k = (sm.flowAt g).ip6srv := by
  rw [served, getMapping6_congr sm rfl _ a, h]

theorem served_none {k : IP6Port} {a : IPv6Addr} (h : sm.getMapping6 k a = none) :
    sm.served k = sm.ip6srv_cur_ := by
  rw [served, getMapping6_congr sm rfl _ a, h]

/-- What a parser's turn does to the mappings: each call is answered from the flow recorded for its endpoint,
and a flow made on the way is for the current server. -/
structure Told (ips : List IPv4Addr) (sm : StateManager σ) (log : Asked) (sm' : StateManager σ) : Prop where
  grown : Grown ips sm sm'
  cur : sm'.ip6srv_cur_ = sm.ip6srv_cur_
  served : Coherent ips sm → ∀ k, sm'.served k = sm.served k
  answered : Coherent ips sm → ∀ k e, (.doMapping k, some e) ∈ log →
    ∃ g, (∀ a, sm'.getMapping6 k a = some g) ∧ (sm'.flowAt g).ip4p = e ∧ (sm'.flowAt g).ip6srv = sm.served k

namespace Told

theorem refl (sm : StateManager σ) : Told ips sm [] sm := ⟨.refl sm, rfl, fun _ _ ↦ rfl, by simp⟩

theorem trans {log log' : Asked} (h : Told ips sm log sm') (h' : Told ips sm' log' sm'') :
    Told ips sm (log ++ log') sm'' := by
  refine ⟨h.grown.trans h'.grown, h'.cur.trans h.cur, fun hc k ↦ ?_, fun hc k e hm ↦ ?_⟩
  · exact (h'.served (h.grown.coherent hc) k).trans (h.served hc k)
  · have hc' := h.grown.coherent hc
    rcases List.mem_append.mp hm with hm | hm
    · obtain ⟨g, hg, he, hsrv⟩ := h.answered hc k e hm
      have hlt := (hc'.getMapping6_iff.mp (hg sm'.ip6srv_cur_)).1
      refine ⟨g, fun a ↦ h'.grown.find64 hc' (hg a), ?_, ?_⟩
      · exact (h'.grown.ip4p hlt).trans he
      · exact (h'.grown.ip6srv hlt).trans hsrv
    · obtain ⟨g, hg, he, hsrv⟩ := h'.answered hc' k e hm
      exact ⟨g, hg, he, hsrv.trans (h.served hc k)⟩

theorem setFlow {f : ℕ} {flow : Flow σ} (ha : flow.addr = (sm.flowAt f).addr) : Told ips sm [] (sm.setFlow f flow) := by
  have hg : Grown ips sm (sm.setFlow f flow) := .setFlow ha
  refine ⟨hg, rfl, fun hc k ↦ ?_, by simp⟩
  cases hk : sm.getMapping6 k sm.ip6srv_cur_ with
  | none =>
    have hk' : (sm.setFlow f flow).getMapping6 k sm.ip6srv_cur_ = none := hk
    exact (served_none hk').trans (served_none hk).symm
  | some g =>
    have hk' : (sm.setFlow f flow).getMapping6 k sm.ip6srv_cur_ = some g := hk
    rw [served_found hk, served_found hk']
    exact hg.ip6srv (hc.getMapping6_iff.mp hk).1

theorem doMapping (hips : (ips.flatMap poolOf).Nodup) {k : IP6Port} {r : FlowPtr}
    (h : sm.doMappingCur k = (r, sm')) : Told ips sm [(.doMapping k, r.map (fun f ↦ (sm'.flowAt f).ip4p))] sm' := by
  have hg := Grown.doMapping hips sm k sm.ip6srv_cur_
  rw [show sm.doMapping k sm.ip6srv_cur_ = (r, sm') from h] at hg
  have hlog : ∀ {k' e'}, (Call.doMapping k', some e') ∈ [(Call.doMapping k, r.map (fun f ↦ (sm'.flowAt f).ip4p))] →
      k' = k ∧ ∃ f, r = some f ∧ (sm'.flowAt f).ip4p = e' := by
    intro k' e' hm
    obtain ⟨hcall, he⟩ := Prod.mk.inj (List.mem_singleton.mp hm)
    exact ⟨Call.doMapping.inj hcall, Option.map_eq_some_iff.mp he.symm⟩
  rcases doMapping_cases h with ⟨f, hk, rfl, rfl⟩ | ⟨e, pool, hk, -, rfl, rfl⟩ | ⟨-, -, rfl, rfl⟩
  · refine ⟨hg, rfl, fun _ _ ↦ rfl, fun _ k' e' hm ↦ ?_⟩
    obtain ⟨rfl, g, hf, he⟩ := hlog hm
    obtain rfl := Option.some.inj hf
    exact ⟨f, fun a ↦ (getMapping6_congr sm' rfl a _).trans hk, he, (served_found hk).symm⟩
  · have hfind := sm.getMapping6_create (k, sm.ip6srv_cur_) e pool
    have hnew : (sm.create (k, sm.ip6srv_cur_) e pool).flowAt sm.heap.length =
        Flow.new k e sm.ip6srv_cur_ (getServerAddr4 sm.ip6srv_cur_) := by
      rw [flowAt_create, if_pos rfl]
    have hcur : sm.served k = sm.ip6srv_cur_ := served_none hk
    refine ⟨hg, rfl, fun hc k' ↦ ?_, fun _ k' e' hm ↦ ?_⟩
    · by_cases hport : k'.port_ = k.port_
      · rw [served_found ((hfind k' sm.ip6srv_cur_).trans (if_pos hport)), hnew,
          served_none ((getMapping6_congr sm hport sm.ip6srv_cur_ _).trans hk)]
        rfl
      · have hold := (hfind k' sm.ip6srv_cur_).trans (if_neg hport)
        cases hk' : sm.getMapping6 k' sm.ip6srv_cur_ with
        | none =>
          rw [served_none (hold.trans hk'), served_none hk']
          rfl
        | some g =>
          rw [served_found (hold.trans hk'), served_found hk']
          exact hg.ip6srv (hc.getMapping6_iff.mp hk').1
    · obtain ⟨rfl, g, hf, he⟩ := hlog hm
      obtain rfl := Option.some.inj hf
      refine ⟨_, fun a ↦ (hfind k' a).trans (if_pos rfl), he, ?_⟩
      rw [hnew, hcur]
      rfl
  · refine ⟨hg, rfl, fun _ _ ↦ rfl, fun _ k' e' hm ↦ ?_⟩
    obtain ⟨-, g, hf, -⟩ := hlog hm
    cases hf

theorem answer (hips : (ips.flatMap poolOf).Nodup) (c : Call) (s : StateManager σ × FlowPtr) :
    Told ips s.1 [(c, (Nat64Alg.answer c s).1)] (Nat64Alg.answer c s).2.1 := by
  cases c with
  | doMapping k => exact doMapping hips (Prod.eta _).symm
  | setIgnore =>
    unfold Nat64Alg.answer
    dsimp only
    split
    case h_1 f _ =>
      have h : Told ips s.1 [] (s.1.setFlow f (s.1.flowAt f).setIgnore) := setFlow rfl
      exact ⟨h.grown, h.cur, h.served, by simp⟩
    case h_2 => exact ⟨.refl _, rfl, fun _ _ ↦ rfl, by simp⟩

theorem course (hips : (ips.flatMap poolOf).Nodup) (f : ℕ) : Course (@Told σ ips) f where
  refl := refl
  trans := trans
  setFlow ha _ := setFlow ha
  run hr := Prog.run_relation (R := fun s log s' ↦ Told ips s.1 log s'.1) (fun s ↦ refl s.1)
    (fun s c _ _ h ↦ (answer hips c s).trans h) hr

end Told

theorem configured_cur (prefix_ : IPv6Addr) (extra : EXTRAType) (protocols : OrderedMap String Protocol nameLt)
    (ips : List IPv4Addr) : (configured prefix_ extra protocols ips : StateManager σ).ip6srv_cur_ =
    lastServer ([] : List (Event σ)) := by
  obtain ⟨_, _, he⟩ := configured_eq (σ := σ) prefix_ extra protocols ips
  rw [he]
  rfl

theorem AppStep.cur (hips : (ips.flatMap poolOf).Nodup) (hmode : sm.analysisMode = false) {ev : Event σ}
    (h : AppStep pc sm ev sm') : sm'.ip6srv_cur_ = serverAfter sm.ip6srv_cur_ ev := by
  cases ev with
  | begun nat p =>
    obtain ⟨rc, nat', hb⟩ := h
    rcases begin_cases hb with ⟨hv, f, sm₁, -, -, -, rfl⟩ | ⟨hv, f, -, -, -, rfl⟩ | ⟨hv, -, -, -, rfl⟩
    · exact (if_pos hv).symm
    · exact (if_neg hv).symm
    · exact (if_neg hv).symm
  | passed nat p out =>
    obtain ⟨ha, rfl⟩ := h
    cases hf : (p.getFlow sm).1 with
    | none =>
      rcases doApp_cases hmode ha with ⟨-, rfl⟩ | ⟨f, hg, -⟩
      · rfl
      · rw [hf] at hg
        cases hg
    | some f => exact ((Told.course hips f).doApp Told.setFlow hmode hf ha).cur

theorem cur_run (hips : (ips.flatMap poolOf).Nodup) {prefix_ : IPv6Addr} {extra : EXTRAType}
    {protocols : OrderedMap String Protocol nameLt} {evs : List (Event σ)}
    (h : Run (AppStep pc) (configured prefix_ extra protocols ips) evs sm) :
    sm.ip6srv_cur_ = lastServer evs ∧ Sound ips sm := by
  refine h.history (I := fun evs sm ↦ sm.ip6srv_cur_ = lastServer evs ∧ Sound ips sm) ?_
    ⟨configured_cur _ _ _ _, Sound.start _ _ _ _⟩
  rintro evs s ev s' ⟨hcur, hs⟩ hstep
  refine ⟨?_, hs.grown (hstep.grown hips hs.mode)⟩
  rw [hstep.cur hips hs.mode, hcur, lastServer, lastServer, List.foldl_append]
  rfl

/-- The mapping a parser got for `k`, told by its IPv4 endpoint `e`, is for the destination of the packet. -/
def RightServer (p : Packet) (out : AppOut σ) (k : IP6Port) (e : IP4Port) : Prop :=
  ∃ g ∈ out.sm.getMapping6 k p.daddr6, (out.sm.flowAt g).ip4p = e ∧ (out.sm.flowAt g).ip6srv = p.daddr6

instance (p : Packet) (out : AppOut σ) (k : IP6Port) (e : IP4Port) : Decidable (RightServer p out k e) :=
  inferInstanceAs (Decidable (∃ g ∈ out.sm.getMapping6 k p.daddr6, _))

/-- Every mapping a parser got while an IPv6 packet was passed to `doApp` is for the packet's destination. -/
def Event.RightServers : Event σ → Prop
  | .begun _ _ => True
  | .passed _ p out => p.getIPVersion = 4 → ∀ k e, (.doMapping k, some e) ∈ out.asked → RightServer p out k e

def granted (asked : Asked) : List (IP6Port × IP4Port) :=
  asked.filterMap (fun x ↦ match x with
    | (.doMapping k, some e) => some (k, e)
    | _ => none)

theorem mem_granted {asked : Asked} {x : IP6Port × IP4Port} :
    x ∈ granted asked ↔ (.doMapping x.1, some x.2) ∈ asked := by
  unfold granted
  rw [List.mem_filterMap]
  constructor
  · rintro ⟨⟨c, e⟩, hm, he⟩
    cases c with
    | doMapping k =>
      cases e with
      | none => cases he
      | some e =>
        cases he
        exact hm
    | setIgnore => cases he
  · exact fun hm ↦ ⟨_, hm, rfl⟩

instance (ev : Event σ) : Decidable ev.RightServers :=
  match ev with
  | .begun _ _ => isTrue trivial
  | .passed _ p out =>
    decidable_of_iff (p.getIPVersion = 4 → ∀ x ∈ granted out.asked, RightServer p out x.1 x.2)
      ⟨fun h hv k e hm ↦ h hv (k, e) (mem_granted.mpr hm), fun h hv x hx ↦ h hv x.1 x.2 (mem_granted.mp hx)⟩

/-- A flow recorded under the port of `k` is for the server `a`, and `a` is the current server if there is none. -/
def OwnServer (sm : StateManager σ) (cur a : IPv6Addr) (k : IP6Port) : Prop :=
  (∀ g, sm.getMapping6 k a = some g → (sm.flowAt g).ip6srv = a) ∧ (sm.getMapping6 k a = none → cur = a)

theorem ownServer_iff {a : IPv6Addr} {k : IP6Port} : OwnServer sm sm.ip6srv_cur_ a k ↔ sm.served k = a := by
  unfold OwnServer
  cases h : sm.getMapping6 k a with
  | some g => simp [served_found h]
  | none => simp [served_none h]

/-- Whatever was called before, a parser's mapping is for the packet's destination exactly when the flow recorded
before the packet, or the last packet begun, is. -/
theorem rightServer_iff (hips : (ips.flatMap poolOf).Nodup) {prefix_ : IPv6Addr} {extra : EXTRAType}
    {protocols : OrderedMap String Protocol nameLt} {evs : List (Event σ)} {nat : NAT} {p : Packet} {out : AppOut σ}
    {k : IP6Port} {e : IP4Port} (hrun : Run (AppStep pc) (configured prefix_ extra protocols ips) evs sm)
    (hstep : AppStep pc sm (.passed nat p out) sm') (hask : (.doMapping k, some e) ∈ out.asked) :
    RightServer p out k e ↔ OwnServer sm (lastServer evs) p.daddr6 k := by
  obtain ⟨hcur, hs⟩ := cur_run hips hrun
  obtain ⟨ha, rfl⟩ := hstep
  cases hf : (p.getFlow sm).1 with
  | none =>
    rcases doApp_cases hs.mode ha with ⟨-, rfl⟩ | ⟨f, hg, -⟩
    · cases hask
    · rw [hf] at hg
      cases hg
  | some f =>
    obtain ⟨g, hg, he, hsrv⟩ := ((Told.course hips f).doApp Told.setFlow hs.mode hf ha).answered hs.coherent k e hask
    rw [← hcur, ownServer_iff, ← hsrv]
    constructor
    · rintro ⟨g', hg', -, h⟩
      obtain rfl := Option.some.inj ((hg p.daddr6).symm.trans hg')
      exact h
    · exact fun h ↦ ⟨g, hg p.daddr6, he, h⟩

variable {prefix_ : IPv6Addr} {extra : EXTRAType} {protocols : OrderedMap String Protocol nameLt}

/-- In every interleaving of the workers, parsers get mappings for the right server exactly when the server they
share is the packet's own each time, and no flow of another server is recorded under the port asked for. -/
theorem right_servers_iff (hips : ips.Nodup) {ls : List (ℕ × Event σ)} {s : Workers σ}
    (hrun : Run (Workers.Step pc) (.start (configured prefix_ extra protocols ips)) ls s) :
    (∀ l ∈ ls, l.2.RightServers) ↔ ∀ pre w nat p out post t u, ls = pre ++ (w, .passed nat p out) :: post →
      Run (Workers.Step pc) (.start (configured prefix_ extra protocols ips)) pre t →
      t.Step pc (w, .passed nat p out) u → p.getIPVersion = 4 →
      ∀ k e, (.doMapping k, some e) ∈ out.asked → OwnServer t.sm (lastServer (pre.map Prod.snd)) p.daddr6 k := by
  have hpools := nodup_pools hips
  constructor
  · rintro h pre w nat p out post t u rfl hpre hstep hv k e hask
    exact (rightServer_iff hpools (Workers.Run.appRun hpre) hstep.appStep hask).mp
      (h (w, .passed nat p out) (by simp) hv k e hask)
  · intro h l hl
    obtain ⟨w, ev⟩ := l
    obtain ⟨pre, post, rfl⟩ := List.append_of_mem hl
    obtain ⟨t, u, hpre, hstep, -⟩ := hrun.at_label
    cases ev with
    | begun nat p => exact trivial
    | passed nat p out =>
      intro hv k e hask
      exact (rightServer_iff hpools (Workers.Run.appRun hpre) hstep.appStep hask).mpr
        (h pre w nat p out post t u rfl hpre hstep hv k e hask)

/-- Two workers have begun packets to two servers before the parser runs for the first. -/
def twoServers : List (ℕ × Option Packet) :=
  [(0, some (eprtSegment 1000)), (1, some (.tcp6 clientB serverT 1025 80 1 1 [])), (0, none)]

theorem servers_mixed : ∃ (ls : List (ℕ × Event Unit)) (s : Workers Unit),
    Run (Workers.Step (FTPParser.only once noJunk)) (.start (ftpConf .NONE)) ls s ∧ ¬∀ l ∈ ls, l.2.RightServers := by
  refine ⟨_, _, Workers.perform_run _ _ twoServers, ?_⟩
  decide +kernel

/-- Two workers take turns with the packets of two clients to one server. -/
def ownServer : List (ℕ × Option Packet) :=
  [(0, some (eprtSegment 1000)), (1, some (.tcp6 clientB serverS 1025 21 1 1 eprtLine)), (0, none), (1, none)]

theorem servers_own : ∃ ls : List (ℕ × Event Unit),
    (ls.filterMap (fun l ↦ l.2.turn.map (fun t ↦ (l.1, (granted t.2.asked).length)))) = [(0, 1), (1, 1)] ∧
    ∀ pre w nat p out post t u, ls = pre ++ (w, .passed nat p out) :: post →
      Run (Workers.Step (FTPParser.only once noJunk)) (.start (ftpConf .NONE)) pre t →
      t.Step (FTPParser.only once noJunk) (w, .passed nat p out) u → p.getIPVersion = 4 →
      ∀ k e, (.doMapping k, some e) ∈ out.asked → OwnServer t.sm (lastServer (pre.map Prod.snd)) p.daddr6 k :=
  ⟨(Workers.perform (FTPParser.only once noJunk) (.start (ftpConf .NONE)) ownServer).1, by decide +kernel,
    (right_servers_iff (List.nodup_singleton _) (Workers.perform_run _ _ ownServer)).mp (by decide +kernel)⟩

end Server

end Nat64Alg
