import Nat64Alg.Threads

namespace Nat64Alg

open Lib StateManager

variable {σ : Type} {ips : List IPv4Addr} {sm sm' : StateManager σ} {s s' : Threads σ} {a : Deed} {ls : List Deed}

/-- A change that leaves every flow with the worker it has. -/
structure Calm (ips : List IPv4Addr) (sm sm' : StateManager σ) : Prop where
  grown : Grown ips sm sm'
  tid : ∀ g, (sm'.flowAt g).tid = (sm.flowAt g).tid

theorem Quiet.calm (h : Quiet ips sm sm') : Calm ips sm sm' :=
  ⟨h.grown, fun g ↦ congrArg Ledger.tid (h.ledger g)⟩

namespace Calm

theorem refl (sm : StateManager σ) : Calm ips sm sm := ⟨.refl sm, fun _ ↦ rfl⟩

theorem inRange {p : Packet} {ok : Bool} (h : NAT.inRange sm p = .ok (ok, sm')) : Calm ips sm sm' :=
  ⟨inRange_grown h, fun g ↦ congrArg Flow.tid (inRange_flowAt h g)⟩

theorem setFlow {f : ℕ} {flow : Flow σ} (ha : flow.addr = (sm.flowAt f).addr) (ht : flow.tid = (sm.flowAt f).tid) :
    Calm ips sm (sm.setFlow f flow) := ⟨.setFlow ha, flowAt_setFlow_congr Flow.tid ht⟩

theorem send {nat : NAT} {p p' : Packet} {sent : List Sent} (h : nat.send sm p = .ok (sm', p', sent)) :
    Calm ips sm sm' := by
  unfold NAT.send at h
  dsimp only at h
  split at h
  · cases h
    exact refl _
  · split at h
    · split at h
      · cases h
      · cases h
        unfold NAT.doExtraTCP
        split
        · dsimp only
          split
          · exact refl _
          · exact setFlow (addOffset_addr _ _ _) (by cases p.getDEST <;> rfl)
        · exact refl _
    · cases h
      exact refl _

end Calm

namespace Threads

theorem Worked.calm (hips : (ips.flatMap poolOf).Nodup) {w : Int} (h : s.Worked w a s') : Calm ips s.sm s'.sm ∨
    ∃ x f, s.place w = .unclaimed x f ∧ a = .claim w f ∧ s' = { s.goes w (.claimed x f) with
      sm := s.sm.setFlow f { s.sm.flowAt f with tid := (s.nats w).tid } } := by
  cases h with
  | pop x xs hp hq => exact .inl (.refl _)
  | refuse x ok sm hp hr hn => exact .inl (.inRange hr)
  | check x sm hp hr ht => exact .inl (.inRange hr)
  | resolve6 x f sm hp hv hm =>
    have h := (Quiet.doMapping hips s.sm ⟨x.pkt.saddr6, x.pkt.getSourcePort⟩ x.pkt.daddr6).calm
    rw [hm] at h
    exact .inl h
  | resolve4 x f hp hv hm => exact .inl (.refl _)
  | unknown x hp hv hm => exact .inl (.refl _)
  | unclaimed x f hp ht => exact .inl (.refl _)
  | claimed x f hp ht => exact .inl (.refl _)
  | claim x f hp => exact .inr ⟨x, f, hp, rfl, rfl⟩
  | begun x f hp => exact .inl ⟨.setCurIPv6SrvAddr _ _, fun _ ↦ rfl⟩
  | finish x f sm p sent hp hs => exact .inl (.send hs)

theorem read_cases {junk : Packet} {buf : Mem} {len : Int} (hmode : s.sm.analysisMode = false)
    (h : s.read junk buf len = some (a, s')) : s.reader = none ∧
    ∃ p, (p.ipVersionBefore_ = 6 ∨ p.ipVersionBefore_ = 4) ∧
      a = .read ⟨s.count, p, (tunQueue s.sm p).tid, hasWorker s.sm p⟩ ∧
      s' = { s with reader := some ⟨s.count, p, (tunQueue s.sm p).tid, hasWorker s.sm p⟩, count := s.count + 1 } := by
  unfold read at h
  split at h
  case h_2 => cases h
  case h_1 r hr hq =>
    cases h
    unfold tun_handle at hq
    split at hq
    · cases hq
    case h_2 p hp =>
      cases hq
      refine ⟨hr, p, ?_, rfl, ?_⟩
      · unfold tunProtocol at hp
        split at hp
        · exact .inl (Packet.receive_v6 hp).2.2.1
        · exact .inr (Packet.receive_v4 hp).2.2.1
      · rw [show (tunQueue s.sm p).sm = s.sm from getFlow_snd hmode]
        rfl

theorem push_cases (h : s.push = some (a, s')) : ∃ x, s.reader = some x ∧ a = .push x ∧
    s' = { s with reader := none, q := Function.update s.q x.tid (s.q x.tid ++ [x]) } := by
  unfold push at h
  split at h
  case h_2 => cases h
  case h_1 x hx =>
    split at h
    · cases h
    · cases h
      exact ⟨x, hx, rfl, rfl⟩

end Threads

/-- The packet a worker has in hand, and the flow it has found for it. -/
def Place.parcel : Place → Option Parcel
  | .idle => none
  | .popped x | .checked x | .mapped x _ | .unclaimed x _ | .claimed x _ | .begun x _ => some x

def Place.flow : Place → Option (Parcel × ℕ)
  | .idle | .popped _ | .checked _ => none
  | .mapped x f | .unclaimed x f | .claimed x f | .begun x f => some (x, f)

/-- The packet a worker was done with, and the flow it was of. -/
def Deed.finishes : Deed → Option (Int × Parcel × ℕ)
  | .finish w x f _ => some (w, x, f)
  | _ => none

/-- The packets translated, in order, each with its worker and its flow. -/
def done (ls : List Deed) : List (Int × Parcel × ℕ) := ls.filterMap Deed.finishes

theorem done_append (ls ms : List Deed) : done (ls ++ ms) = done ls ++ done ms := by simp [done]

namespace Threads

/-- The packets a worker has before it, in order: the one in hand and those in its queue. -/
def line (s : Threads σ) (i : Int) : List Parcel := (s.place i).parcel.toList ++ s.q i

structure Advanced (s : Threads σ) (w : Int) (a : Deed) (s' : Threads σ) : Prop where
  reader : s'.reader = s.reader
  count : s'.count = s.count
  place : ∀ i ≠ w, s'.place i = s.place i
  other : ∀ i ≠ w, s'.line i = s.line i
  nats : ∀ i, (s'.nats i).tid = (s.nats i).tid
  read : ∀ x, a ≠ .read x
  line : s'.line w = s.line w ∧ a.finishes = none ∨ ∃ x, s.line w = x :: s'.line w ∧
    (a.finishes = none ∨ ∃ f, (s.place w).flow = some (x, f) ∧ a.finishes = some (w, x, f))
  flow : ∀ x f, (s'.place w).flow = some (x, f) → (s.place w).flow = some (x, f) ∨ a = .resolve w x f
  resolve : ∀ v x f, a = .resolve v x f → v = w ∧ x ∈ s.line w
  unclaimed : ∀ x f, s'.place w = .unclaimed x f → (s.place w).flow = some (x, f) ∧ (s.sm.flowAt f).tid < 0

theorem Advanced.mem_line {w i : Int} {y : Parcel} (h : s.Advanced w a s') (hy : y ∈ s'.line i) : y ∈ s.line i := by
  rcases eq_or_ne i w with rfl | hi
  · rcases h.line with ⟨hl, -⟩ | ⟨x, hl, -⟩
    · rwa [hl] at hy
    · rw [hl]
      exact List.mem_cons_of_mem _ hy
  · rwa [h.other i hi] at hy

theorem Worked.advanced {w : Int} (h : s.Worked w a s') : s.Advanced w a s' where
  reader := by cases h <;> rfl
  count := by cases h <;> rfl
  place i hi := by cases h <;> exact Function.update_of_ne hi _ _
  other i hi := by cases h <;> simp [line, goes, Function.update_of_ne hi]
  nats i := by
    rcases eq_or_ne i w with rfl | hi
    · cases h <;> simp [goes]
    · cases h <;> simp [goes, Function.update_of_ne hi]
  read x := by cases h <;> simp
  line := by
    cases h with
    | pop x xs hp hq => exact .inl ⟨by simp [line, goes, hp, hq, Place.parcel], rfl⟩
    | refuse x ok sm hp hr hn => exact .inr ⟨x, by simp [line, goes, hp, Place.parcel], .inl rfl⟩
    | check x sm hp hr ht => exact .inl ⟨by simp [line, goes, hp, Place.parcel], rfl⟩
    | resolve6 x f sm hp hv hm => exact .inl ⟨by simp [line, goes, hp, Place.parcel], rfl⟩
    | resolve4 x f hp hv hm => exact .inl ⟨by simp [line, goes, hp, Place.parcel], rfl⟩
    | unknown x hp hv hm => exact .inr ⟨x, by simp [line, goes, hp, Place.parcel], .inl rfl⟩
    | unclaimed x f hp ht => exact .inl ⟨by simp [line, goes, hp, Place.parcel], rfl⟩
    | claimed x f hp ht => exact .inl ⟨by simp [line, goes, hp, Place.parcel], rfl⟩
    | claim x f hp => exact .inl ⟨by simp [line, goes, hp, Place.parcel], rfl⟩
    | begun x f hp => exact .inl ⟨by simp [line, goes, hp, Place.parcel], rfl⟩
    | finish x f sm p sent hp hs =>
      exact .inr ⟨x, by simp [line, goes, hp, Place.parcel], .inr ⟨f, by rw [hp]; rfl, rfl⟩⟩
  flow x f hf := by cases h <;> simp_all [goes, Place.flow]
  resolve v x f hv := by cases h <;> simp_all [line, Place.parcel]
  unclaimed x f hp := by cases h <;> simp_all [goes, Place.flow]

end Threads

/-- The queue of a packet whose flow had no worker is chosen by its ports. -/
def Parcel.Chosen (x : Parcel) : Prop := x.bound = false → x.tid = (x.pkt.port_t.toNat % T : ℕ)

/-- The queue of a packet whose flow had a worker is that worker's. -/
def Parcel.Bound (sm : StateManager σ) (x : Parcel) : Prop :=
  x.bound = true → ∃ f, (x.pkt.getFlow sm).1 = some f ∧ (sm.flowAt f).tid = x.tid ∧ 0 ≤ x.tid

theorem tunQueue_parcel (hmode : sm.analysisMode = false) (n : ℕ) (p : Packet) :
    (⟨n, p, (tunQueue sm p).tid, hasWorker sm p⟩ : Parcel).Chosen ∧
      (⟨n, p, (tunQueue sm p).tid, hasWorker sm p⟩ : Parcel).Bound sm := by
  unfold Parcel.Chosen Parcel.Bound tunQueue hasWorker
  dsimp only
  rw [getFlow_snd hmode]
  cases hf : (p.getFlow sm).1 with
  | none => simp
  | some f =>
    by_cases ht : 0 ≤ (sm.flowAt f).tid
    · simp [ht]
    · simp [ht]

namespace Threads

/-- Where every packet and every flow found for one is, however the steps interleave. -/
structure Placed (ips : List IPv4Addr) (ls : List Deed) (s : Threads σ) : Prop where
  sound : Sound ips s.sm
  nats : ∀ w, (s.nats w).tid = w
  reader : ∀ x, s.reader = some x → x.Chosen
  line : ∀ i, ∀ x ∈ s.line i, x.Chosen ∧ x.tid = i
  resolved : ∀ w x f, .resolve w x f ∈ ls → x.Chosen ∧ x.tid = w ∧ f < s.sm.heap.length
  flow : ∀ w x f, (s.place w).flow = some (x, f) → .resolve w x f ∈ ls
  done : ∀ d ∈ done ls, .resolve d.1 d.2.1 d.2.2 ∈ ls

theorem Placed.start (prefix_ : IPv6Addr) (extra : EXTRAType) (protocols : OrderedMap String Protocol nameLt)
    (ips : List IPv4Addr) : (start (configured prefix_ extra protocols ips : StateManager σ)).Placed ips [] where
  sound := .start prefix_ extra protocols ips
  nats _ := rfl
  reader _ h := by cases h
  line _ _ h := by cases h
  resolved _ _ _ h := by cases h
  flow _ _ _ h := by cases h
  done _ h := by cases h

theorem Worked.resolve_lt (hs : Sound ips s.sm) {w v : Int} {x : Parcel} {f : ℕ}
    (h : s.Worked w (.resolve v x f) s') : f < s'.sm.heap.length := by
  cases h with
  | resolve6 _ _ sm hp hv hm =>
    obtain ⟨b, hb, -⟩ := doMapping_some hs.coherent hm
    simpa using (List.getElem?_eq_some_iff.mp hb).1
  | resolve4 _ _ hp hv hm => exact (hs.coherent.getMapping4_iff.mp hm).1

theorem Worked.grown (hips : (ips.flatMap poolOf).Nodup) {w : Int} (h : s.Worked w a s') : Grown ips s.sm s'.sm := by
  rcases h.calm hips with hcalm | ⟨x, f, -, -, rfl⟩
  · exact hcalm.grown
  · exact .setFlow rfl

theorem line_push {x : Parcel} (i : Int) :
    line { s with reader := none, q := Function.update s.q x.tid (s.q x.tid ++ [x]) } i =
      s.line i ++ if i = x.tid then [x] else [] := by
  rcases eq_or_ne i x.tid with rfl | hi
  · simp [line]
  · simp [line, hi]

theorem mem_line_push {x y : Parcel} {i : Int}
    (hy : y ∈ line { s with reader := none, q := Function.update s.q x.tid (s.q x.tid ++ [x]) } i) :
    y ∈ s.line i ∨ y = x ∧ i = x.tid := by
  rw [line_push] at hy
  rcases List.mem_append.mp hy with hy | hy
  · exact .inl hy
  · split at hy
    case isTrue hi => exact .inr ⟨List.mem_singleton.mp hy, hi⟩
    case isFalse => cases hy

theorem Placed.of_reader (hs : s.Placed ips ls) (ha : a.finishes = none) (hr : ∀ w x f, a ≠ .resolve w x f)
    (hsm : s'.sm = s.sm) (hnats : s'.nats = s.nats) (hplace : s'.place = s.place)
    (hreader : ∀ x, s'.reader = some x → x.Chosen) (hline : ∀ i, ∀ x ∈ s'.line i, x.Chosen ∧ x.tid = i) :
    s'.Placed ips (ls ++ [a]) := by
  refine ⟨hsm ▸ hs.sound, hnats ▸ hs.nats, hreader, hline, fun w x f hm ↦ ?_, fun w x f hf ↦ ?_, fun d hd ↦ ?_⟩
  · rcases List.mem_append.mp hm with hm | hm
    · exact hsm ▸ hs.resolved w x f hm
    · exact absurd (List.mem_singleton.mp hm).symm (hr w x f)
  · exact List.mem_append_left _ (hs.flow w x f (hplace ▸ hf))
  · rw [done_append, show Nat64Alg.done [a] = [] by simp [Nat64Alg.done, ha], List.append_nil] at hd
    exact List.mem_append_left _ (hs.done d hd)

theorem Step.placed (hips : (ips.flatMap poolOf).Nodup) (hs : s.Placed ips ls) (h : s.Step a s') :
    s'.Placed ips (ls ++ [a]) := by
  cases h with
  | read h =>
    obtain ⟨-, p, -, rfl, rfl⟩ := read_cases hs.sound.mode h
    refine hs.of_reader rfl (by simp) rfl rfl rfl (fun x hx ↦ ?_) hs.line
    cases hx
    exact (tunQueue_parcel hs.sound.mode _ p).1
  | push h =>
    obtain ⟨x, hx, rfl, rfl⟩ := push_cases h
    refine hs.of_reader rfl (by simp) rfl rfl rfl (fun x hx ↦ by cases hx) (fun i y hy ↦ ?_)
    rcases mem_line_push hy with hy | ⟨rfl, rfl⟩
    · exact hs.line i y hy
    · exact ⟨hs.reader y hx, rfl⟩
  | @work _ _ w hw h =>
    rw [work_iff] at h
    have hadv := h.advanced
    have hg := h.grown hips
    refine ⟨hs.sound.grown hg, fun v ↦ (hadv.nats v).trans (hs.nats v), fun x hx ↦ hs.reader x (hadv.reader ▸ hx),
      fun i y hy ↦ hs.line i y (hadv.mem_line hy), fun v x f hm ↦ ?_, fun v x f hf ↦ ?_, fun d hd ↦ ?_⟩
    · rcases List.mem_append.mp hm with hm | hm
      · obtain ⟨hc, ht, hf⟩ := hs.resolved v x f hm
        exact ⟨hc, ht, hg.lt hf⟩
      · obtain rfl := List.mem_singleton.mp hm
        obtain ⟨rfl, hx⟩ := hadv.resolve v x f rfl
        obtain ⟨hc, ht⟩ := hs.line v x hx
        exact ⟨hc, ht, h.resolve_lt hs.sound⟩
    · rcases eq_or_ne v w with rfl | hv
      · rcases hadv.flow x f hf with hf | rfl
        · exact List.mem_append_left _ (hs.flow v x f hf)
        · simp
      · rw [hadv.place v hv] at hf
        exact List.mem_append_left _ (hs.flow v x f hf)
    · rw [done_append] at hd
      rcases List.mem_append.mp hd with hd | hd
      · exact List.mem_append_left _ (hs.done d hd)
      · obtain ⟨b, hb, hfin⟩ := List.mem_filterMap.mp hd
        obtain rfl := List.mem_singleton.mp hb
        rcases hadv.line with ⟨-, hn⟩ | ⟨x, -, hn | ⟨f, hf, he⟩⟩
        · rw [hn] at hfin
          cases hfin
        · rw [hn] at hfin
          cases hfin
        · obtain rfl := Option.some.inj (he.symm.trans hfin)
          exact List.mem_append_left _ (hs.flow w x f hf)

variable {prefix_ : IPv6Addr} {extra : EXTRAType} {protocols : OrderedMap String Protocol nameLt}

theorem placed_run (hips : (ips.flatMap poolOf).Nodup)
    (h : Run Step (start (configured prefix_ extra protocols ips : StateManager σ)) ls s) : s.Placed ips ls :=
  h.history (I := fun ls s ↦ s.Placed ips ls) (fun _ _ _ _ hs hstep ↦ hstep.placed hips hs) (.start _ _ _ _)

end Threads

section Lookup

variable {p : Packet} {f : ℕ}

theorem getFlow_grown (hg : Grown ips sm sm') (hs : Sound ips sm) (hv : p.ipVersionBefore_ = 6 ∨ p.ipVersionBefore_ = 4)
    (h : (p.getFlow sm).1 = some f) : (p.getFlow sm').1 = some f := by
  rcases hv with hv | hv
  · rw [getFlow_six hv] at h ⊢
    split at h
    case isTrue ht =>
      rw [if_pos ht]
      exact hg.find64 hs.coherent h
    case isFalse => cases h
  · rw [getFlow_four hs.mode (by omega)] at h
    rw [getFlow_four (hg.analysisMode.trans hs.mode) (by omega)]
    split at h
    case isTrue ht =>
      rw [if_pos ht]
      exact hg.find46 hs.coherent h
    case isFalse => cases h

theorem Threads.Worked.resolve_eq (hs : Sound ips s.sm) {w v : Int} {x : Parcel} {g : ℕ}
    (h : s.Worked w (.resolve v x g) s') (hv : x.pkt.ipVersionBefore_ = 6 ∨ x.pkt.ipVersionBefore_ = 4)
    (hf : (x.pkt.getFlow s.sm).1 = some f) : g = f := by
  cases h with
  | resolve6 _ _ sm hp hver hm =>
    rcases hv with hv | hv
    · rw [getFlow_six hv] at hf
      split at hf
      case isTrue ht =>
        have hf : s.sm.map64_.find? (⟨x.pkt.saddr6, x.pkt.getSourcePort⟩, x.pkt.daddr6) = some f := hf
        unfold StateManager.doMapping at hm
        rw [hf] at hm
        cases hm
        rfl
      case isFalse => cases hf
    · simp [Packet.getIPVersion, hv] at hver
  | resolve4 _ _ hp hver hm =>
    rcases hv with hv | hv
    · simp [Packet.getIPVersion, hv] at hver
    · rw [getFlow_four hs.mode (by omega)] at hf
      split at hf
      case isTrue => exact Option.some.inj (hm.symm.trans hf)
      case isFalse => cases hf

end Lookup

/-- Packets of one flow that arrive before it has a worker have ports that choose the same queue. -/
def SamePorts (ls : List Deed) : Prop :=
  ∀ w x w' x' f, .resolve w x f ∈ ls → .resolve w' x' f ∈ ls → x.bound = false → x'.bound = false →
    x.pkt.port_t.toNat % T = x'.pkt.port_t.toNat % T

theorem SamePorts.left {ms : List Deed} (h : SamePorts (ls ++ ms)) : SamePorts ls :=
  fun w x w' x' f hx hx' ↦ h w x w' x' f (List.mem_append_left _ hx) (List.mem_append_left _ hx')

namespace Threads

/-- Where the ports of a flow's early packets agree, its worker is the queue they choose. -/
structure Settled (ls : List Deed) (s : Threads σ) : Prop where
  reader : ∀ x, s.reader = some x → (x.pkt.ipVersionBefore_ = 6 ∨ x.pkt.ipVersionBefore_ = 4) ∧ x.Bound s.sm
  line : ∀ i, ∀ x ∈ s.line i, (x.pkt.ipVersionBefore_ = 6 ∨ x.pkt.ipVersionBefore_ = 4) ∧ x.Bound s.sm
  resolved : ∀ w x f, .resolve w x f ∈ ls → x.bound = true → (s.sm.flowAt f).tid = x.tid ∧ 0 ≤ x.tid
  home : ∀ f, 0 ≤ (s.sm.flowAt f).tid → ∃ w x, .resolve w x f ∈ ls ∧ x.bound = false ∧ (s.sm.flowAt f).tid = x.tid
  unclaimed : ∀ w x f, s.place w = .unclaimed x f → x.bound = false

theorem Settled.start (prefix_ : IPv6Addr) (extra : EXTRAType) (protocols : OrderedMap String Protocol nameLt)
    (ips : List IPv4Addr) : (start (configured prefix_ extra protocols ips : StateManager σ)).Settled [] where
  reader _ h := by cases h
  line _ _ h := by cases h
  resolved _ _ _ h := by cases h
  home f h := by
    have hnew : ((configured prefix_ extra protocols ips : StateManager σ).flowAt f).tid = -1 :=
      congrArg Ledger.tid (flowAt_absent (by simp [configured_heap]))
    have h : 0 ≤ ((configured prefix_ extra protocols ips : StateManager σ).flowAt f).tid := h
    omega
  unclaimed _ _ _ h := by cases h

theorem Bound.calm {x : Parcel} (hs : Sound ips sm) (hg : Grown ips sm sm')
    (ht : ∀ g, 0 ≤ (sm.flowAt g).tid → (sm'.flowAt g).tid = (sm.flowAt g).tid)
    (hv : x.pkt.ipVersionBefore_ = 6 ∨ x.pkt.ipVersionBefore_ = 4) (h : x.Bound sm) : x.Bound sm' := by
  intro hb
  obtain ⟨f, hf, htid, hpos⟩ := h hb
  exact ⟨f, getFlow_grown hg hs hv hf, (ht f (htid ▸ hpos)).trans htid, hpos⟩

theorem Settled.claims (hs : s.Settled ls) (hp : s.Placed ips ls) (hports : SamePorts ls) {w : Int} {x : Parcel}
    {f : ℕ} (hx : s.place w = .unclaimed x f) (ht : 0 ≤ (s.sm.flowAt f).tid) : (s.sm.flowAt f).tid = w := by
  obtain ⟨v, y, hy, hyb, htid⟩ := hs.home f ht
  have hr := hp.flow w x f (by rw [hx]; rfl)
  have hxb := hs.unclaimed w x f hx
  obtain ⟨hyc, -, -⟩ := hp.resolved v y f hy
  obtain ⟨hxc, hxt, -⟩ := hp.resolved w x f hr
  rw [htid, hyc hyb, ← hxt, hxc hxb, hports v y w x f hy hr hyb hxb]

theorem Settled.fixed (hips : (ips.flatMap poolOf).Nodup) (hs : s.Settled ls) (hp : s.Placed ips ls)
    (hports : SamePorts ls) (h : s.Step a s') : Grown ips s.sm s'.sm ∧
      ∀ g, 0 ≤ (s.sm.flowAt g).tid → (s'.sm.flowAt g).tid = (s.sm.flowAt g).tid := by
  cases h with
  | read h =>
    obtain ⟨-, p, -, -, rfl⟩ := read_cases hp.sound.mode h
    exact ⟨.refl _, fun _ _ ↦ rfl⟩
  | push h =>
    obtain ⟨x, -, -, rfl⟩ := push_cases h
    exact ⟨.refl _, fun _ _ ↦ rfl⟩
  | @work _ _ w hw h =>
    rw [work_iff] at h
    refine ⟨h.grown hips, fun g hg ↦ ?_⟩
    rcases h.calm hips with hcalm | ⟨x, f, hx, -, rfl⟩
    · exact hcalm.tid g
    · rcases eq_or_ne f g with rfl | hne
      · have hlt := (hp.resolved w x f (hp.flow w x f (by rw [hx]; rfl))).2.2
        rw [hs.claims hp hports hx hg]
        exact (congrArg Flow.tid (flowAt_setFlow hlt)).trans (hp.nats w)
      · exact congrArg Flow.tid (flowAt_setFlow_ne hne)

theorem Step.settled (hips : (ips.flatMap poolOf).Nodup) (hs : s.Settled ls) (hp : s.Placed ips ls)
    (hports : SamePorts ls) (h : s.Step a s') : s'.Settled (ls ++ [a]) := by
  obtain ⟨hg, hfixed⟩ := hs.fixed hips hp hports h
  have hbound : ∀ x : Parcel, (x.pkt.ipVersionBefore_ = 6 ∨ x.pkt.ipVersionBefore_ = 4) ∧ x.Bound s.sm →
      (x.pkt.ipVersionBefore_ = 6 ∨ x.pkt.ipVersionBefore_ = 4) ∧ x.Bound s'.sm :=
    fun x hx ↦ ⟨hx.1, Bound.calm hp.sound hg hfixed hx.1 hx.2⟩
  have hresolved : ∀ w x f, .resolve w x f ∈ ls → x.bound = true → (s'.sm.flowAt f).tid = x.tid ∧ 0 ≤ x.tid := by
    intro w x f hm hb
    obtain ⟨ht, hpos⟩ := hs.resolved w x f hm hb
    exact ⟨(hfixed f (ht ▸ hpos)).trans ht, hpos⟩
  cases h with
  | read h =>
    obtain ⟨-, p, hv, rfl, rfl⟩ := read_cases hp.sound.mode h
    refine ⟨fun x hx ↦ ?_, hs.line, fun w x f hm ↦ hs.resolved w x f (by simpa using hm), fun f hf ↦ ?_, hs.unclaimed⟩
    · cases hx
      exact ⟨hv, (tunQueue_parcel hp.sound.mode _ p).2⟩
    · obtain ⟨w, x, hm, hx⟩ := hs.home f hf
      exact ⟨w, x, List.mem_append_left _ hm, hx⟩
  | push h =>
    obtain ⟨x, hx, rfl, rfl⟩ := push_cases h
    refine ⟨fun x hx ↦ (by cases hx), fun i y hy ↦ ?_, fun w x f hm ↦ hs.resolved w x f (by simpa using hm),
      fun f hf ↦ ?_, hs.unclaimed⟩
    · rcases mem_line_push hy with hy | ⟨rfl, rfl⟩
      · exact hs.line i y hy
      · exact hs.reader y hx
    · obtain ⟨w, x, hm, hx⟩ := hs.home f hf
      exact ⟨w, x, List.mem_append_left _ hm, hx⟩
  | @work _ _ w hw h =>
    rw [work_iff] at h
    have hadv := h.advanced
    refine ⟨fun x hx ↦ hbound x (hs.reader x (hadv.reader ▸ hx)),
      fun i y hy ↦ hbound y (hs.line i y (hadv.mem_line hy)), fun v x f hm hb ↦ ?_, fun f hf ↦ ?_,
      fun v x f hx ↦ ?_⟩
    · rcases List.mem_append.mp hm with hm | hm
      · exact hresolved v x f hm hb
      · obtain rfl := List.mem_singleton.mp hm
        obtain ⟨rfl, hx⟩ := hadv.resolve v x f rfl
        obtain ⟨hv, hbd⟩ := hs.line v x hx
        obtain ⟨g, hgf, ht, hpos⟩ := hbd hb
        obtain rfl := h.resolve_eq hp.sound hv hgf
        exact ⟨(hfixed f (ht ▸ hpos)).trans ht, hpos⟩
    · by_cases hold : 0 ≤ (s.sm.flowAt f).tid
      · obtain ⟨v, x, hm, hb, ht⟩ := hs.home f hold
        exact ⟨v, x, List.mem_append_left _ hm, hb, (hfixed f hold).trans ht⟩
      · rcases h.calm hips with hcalm | ⟨x, g, hx, rfl, rfl⟩
        · rw [hcalm.tid f] at hf
          exact absurd hf hold
        · have hr := hp.flow w x g (by rw [hx]; rfl)
          obtain ⟨-, ht, hlt⟩ := hp.resolved w x g hr
          rcases eq_or_ne g f with rfl | hne
          · refine ⟨w, x, List.mem_append_left _ hr, hs.unclaimed w x g hx, ?_⟩
            exact (congrArg Flow.tid (flowAt_setFlow hlt)).trans ((hp.nats w).trans ht.symm)
          · rw [show _ = (s.sm.flowAt f).tid from congrArg Flow.tid (flowAt_setFlow_ne hne)] at hf
            exact absurd hf hold
    · rcases eq_or_ne v w with rfl | hv
      · obtain ⟨hflow, ht⟩ := hadv.unclaimed x f hx
        by_contra hb
        obtain ⟨he, hpos⟩ := hs.resolved v x f (hp.flow v x f hflow) (by simpa using hb)
        omega
      · rw [hadv.place v hv] at hx
        exact hs.unclaimed v x f hx

variable {prefix_ : IPv6Addr} {extra : EXTRAType} {protocols : OrderedMap String Protocol nameLt}

theorem settled_run (hips : (ips.flatMap poolOf).Nodup)
    (h : Run Step (start (configured prefix_ extra protocols ips : StateManager σ)) ls s) (hports : SamePorts ls) :
    s.Settled ls := by
  refine (h.history (I := fun ls s ↦ s.Placed ips ls ∧ (SamePorts ls → s.Settled ls)) ?_
    ⟨.start _ _ _ _, fun _ ↦ .start _ _ _ _⟩).2 hports
  rintro ls s a s' ⟨hp, hs⟩ hstep
  exact ⟨hstep.placed hips hp, fun hports ↦ hstep.settled hips (hs hports.left) hp hports.left⟩

/-- The packets of one queue, in the order they go through it: those translated, those before the worker, and the
one the reader is about to put there. -/
def through (ls : List Deed) (s : Threads σ) (w : Int) : List Parcel :=
  ((done ls).filter (fun d ↦ d.1 = w)).map (fun d ↦ d.2.1) ++ s.line w ++ s.reader.toList.filter (fun x ↦ x.tid = w)

structure Lined (ls : List Deed) (s : Threads σ) : Prop where
  sorted : ∀ w, (through ls s w).Pairwise (fun x y ↦ x.no < y.no)
  count : ∀ w, ∀ x ∈ through ls s w, x.no < s.count

theorem Lined.sublist (hs : s.Lined ls) (hc : s'.count = s.count)
    (h : ∀ w, (through (ls ++ [a]) s' w).Sublist (through ls s w)) : s'.Lined (ls ++ [a]) :=
  ⟨fun w ↦ (hs.sorted w).sublist (h w), fun w x hx ↦ hc ▸ hs.count w x ((h w).mem hx)⟩

theorem Step.lined (hmode : s.sm.analysisMode = false) (hs : s.Lined ls) (h : s.Step a s') : s'.Lined (ls ++ [a]) := by
  cases h with
  | read h =>
    obtain ⟨hnone, p, -, rfl, rfl⟩ := read_cases hmode h
    obtain ⟨x, hx⟩ : ∃ x : Parcel, x = ⟨s.count, p, (tunQueue s.sm p).tid, hasWorker s.sm p⟩ := ⟨_, rfl⟩
    have hno : x.no = s.count := by rw [hx]
    rw [← hx]
    have hthrough : ∀ w, through (ls ++ [.read x]) { s with reader := some x, count := s.count + 1 } w =
        through ls s w ++ [x].filter (fun x ↦ x.tid = w) := by
      intro w
      simp [through, line, done, Deed.finishes, hnone]
    refine ⟨fun w ↦ ?_, fun w y hy ↦ ?_⟩
    · rw [hthrough, List.pairwise_append]
      refine ⟨hs.sorted w, (List.pairwise_singleton _ x).filter _, fun y hy z hz ↦ ?_⟩
      rw [List.mem_singleton.mp (List.mem_of_mem_filter hz), hno]
      exact hs.count w y hy
    · rw [hthrough] at hy
      rcases List.mem_append.mp hy with hy | hy
      · exact (hs.count w y hy).trans (Nat.lt_succ_self _)
      · rw [List.mem_singleton.mp (List.mem_of_mem_filter hy), hno]
        exact Nat.lt_succ_self _
  | push h =>
    obtain ⟨x, hx, rfl, rfl⟩ := push_cases h
    refine hs.sublist rfl fun w ↦ ?_
    unfold through
    rw [line_push]
    rcases eq_or_ne w x.tid with rfl | hw
    · simp [done, Deed.finishes, hx]
    · simp [done, Deed.finishes, hx, hw, hw.symm]
  | @work _ _ v hv h =>
    rw [work_iff] at h
    have hadv := h.advanced
    refine hs.sublist hadv.count fun w ↦ ?_
    unfold through
    rw [hadv.reader, done_append, List.filter_append, List.map_append]
    refine List.Sublist.append_right ?_ _
    rcases eq_or_ne w v with rfl | hne
    · rcases hadv.line with ⟨hl, hn⟩ | ⟨x, hl, hn | ⟨f, -, he⟩⟩
      · rw [hl]
        simp [done, hn]
      · rw [hl]
        simp [done, hn]
      · rw [hl]
        simp [done, he]
    · rw [hadv.other w hne]
      rcases hadv.line with ⟨-, hn⟩ | ⟨x, -, hn | ⟨f, -, he⟩⟩
      · simp [done, hn]
      · simp [done, hn]
      · simp [done, he, hne.symm]

theorem lined_run (hips : (ips.flatMap poolOf).Nodup)
    (h : Run Step (start (configured prefix_ extra protocols ips : StateManager σ)) ls s) : s.Lined ls := by
  refine (h.history (I := fun ls s ↦ s.Placed ips ls ∧ s.Lined ls) ?_ ⟨.start _ _ _ _, ?_⟩).2
  · rintro ls s a s' ⟨hp, hs⟩ hstep
    exact ⟨hstep.placed hips hp, hstep.lined hp.sound.mode hs⟩
  · exact ⟨fun w ↦ .nil, fun w x hx ↦ by cases hx⟩

end Threads

def OneQueue (ls : List Deed) : Prop :=
  ∀ w x w' x' f, .resolve w x f ∈ ls → .resolve w' x' f ∈ ls → x.tid = x'.tid

/-- The packets of one flow are translated in the order of their arrival. -/
def InArrivalOrder (ls : List Deed) : Prop :=
  ∀ f, ((done ls).filter (fun d ↦ d.2.2 = f)).Pairwise (fun d e ↦ d.2.1.no < e.2.1.no)

def KeepsWorkers (start : Threads σ) (ls : List Deed) : Prop :=
  ∀ as bs cs t u, ls = as ++ bs ++ cs → Run Threads.Step start as t → Run Threads.Step t bs u →
    ∀ f, 0 ≤ (t.sm.flowAt f).tid → (u.sm.flowAt f).tid = (t.sm.flowAt f).tid

section Affinity

variable {prefix_ : IPv6Addr} {extra : EXTRAType} {protocols : OrderedMap String Protocol nameLt}

theorem oneQueue_of_samePorts (hips : (ips.flatMap poolOf).Nodup)
    (h : Run Threads.Step (.start (configured prefix_ extra protocols ips : StateManager σ)) ls s)
    (hports : SamePorts ls) : OneQueue ls := by
  have hp := Threads.placed_run hips h
  have hs := Threads.settled_run hips h hports
  -- a packet that found the flow's worker is with one that had not, the first that had none
  have hmeet : ∀ w x w' x' f, .resolve w x f ∈ ls → .resolve w' x' f ∈ ls → x'.bound = true → x.tid = x'.tid := by
    intro w x w' x' f hx hx' hb'
    obtain ⟨ht', hpos⟩ := hs.resolved w' x' f hx' hb'
    cases hb : x.bound with
    | true => exact (hs.resolved w x f hx hb).1.symm.trans ht'
    | false =>
      obtain ⟨v, y, hy, hyb, hty⟩ := hs.home f (ht' ▸ hpos)
      rw [← ht', hty, (hp.resolved w x f hx).1 hb, (hp.resolved v y f hy).1 hyb, hports w x v y f hx hy hb hyb]
  intro w x w' x' f hx hx'
  cases hb' : x'.bound with
  | true => exact hmeet w x w' x' f hx hx' hb'
  | false =>
    cases hb : x.bound with
    | true => exact (hmeet w' x' w x f hx' hx hb).symm
    | false => rw [(hp.resolved w x f hx).1 hb, (hp.resolved w' x' f hx').1 hb', hports w x w' x' f hx hx' hb hb']

theorem samePorts_of_oneQueue (hips : (ips.flatMap poolOf).Nodup)
    (h : Run Threads.Step (.start (configured prefix_ extra protocols ips : StateManager σ)) ls s)
    (hone : OneQueue ls) : SamePorts ls := by
  have hp := Threads.placed_run hips h
  intro w x w' x' f hx hx' hb hb'
  have ht := hone w x w' x' f hx hx'
  rw [(hp.resolved w x f hx).1 hb, (hp.resolved w' x' f hx').1 hb'] at ht
  exact_mod_cast ht

theorem inArrivalOrder_of_oneQueue (hips : (ips.flatMap poolOf).Nodup)
    (h : Run Threads.Step (.start (configured prefix_ extra protocols ips : StateManager σ)) ls s)
    (hone : OneQueue ls) : InArrivalOrder ls := by
  have hp := Threads.placed_run hips h
  have hsorted := (Threads.lined_run hips h).sorted
  intro f
  rcases hd : (done ls).filter (fun d ↦ d.2.2 = f) with _ | ⟨d, ds⟩
  · rw [hd]
    exact .nil
  have hmem : d ∈ (done ls).filter (fun d ↦ d.2.2 = f) := by simp [hd]
  obtain ⟨hdone, hf⟩ := List.mem_filter.mp hmem
  have hsame : ∀ e ∈ done ls, e.2.2 = f → e.1 = d.1 := by
    intro e he hef
    have hre := hp.done e he
    have hrd := hp.done d hdone
    rw [hef] at hre
    rw [of_decide_eq_true hf] at hrd
    rw [← (hp.resolved _ _ _ hre).2.1, ← (hp.resolved _ _ _ hrd).2.1]
    exact hone _ _ _ _ f hre hrd
  have hfilter : (done ls).filter (fun e ↦ e.2.2 = f) =
      ((done ls).filter (fun e ↦ e.1 = d.1)).filter (fun e ↦ e.2.2 = f) := by
    rw [List.filter_filter]
    refine List.filter_congr fun e he ↦ ?_
    by_cases hef : e.2.2 = f
    · simp [hef, hsame e he hef]
    · simp [hef]
  have hqueue := hsorted d.1
  unfold Threads.through at hqueue
  rw [List.append_assoc, List.pairwise_append, List.pairwise_map] at hqueue
  rw [hfilter]
  exact hqueue.1.filter _

theorem keepsWorkers_of_samePorts (hips : (ips.flatMap poolOf).Nodup) (hports : SamePorts ls) :
    KeepsWorkers (.start (configured prefix_ extra protocols ips : StateManager σ)) ls := by
  rintro as bs cs t u rfl hrun hrun' f ht
  have hinv := hrun'.history (I := fun ms v ↦ SamePorts (as ++ ms) → v.Placed ips (as ++ ms) ∧
    v.Settled (as ++ ms) ∧ (v.sm.flowAt f).tid = (t.sm.flowAt f).tid) ?_ ?_ hports.left
  · exact hinv.2.2
  · intro ms v a v' ih hstep hports
    rw [← List.append_assoc] at hports ⊢
    obtain ⟨hp, hs, he⟩ := ih hports.left
    have hkept := (hs.fixed hips hp hports.left hstep).2 f (he ▸ ht)
    exact ⟨hstep.placed hips hp, hstep.settled hips hs hp hports.left, hkept.trans he⟩
  · intro hports
    rw [List.append_nil] at hports ⊢
    exact ⟨Threads.placed_run hips hrun, Threads.settled_run hips hrun hports, rfl⟩

/-- Over every interleaving of the reader and the workers, each flow has one queue, keeps its worker and is
translated in order exactly when the packets of a flow that come before it has a worker choose the same queue. -/
theorem one_worker_iff (hips : ips.Nodup)
    (h : Run Threads.Step (.start (configured prefix_ extra protocols ips : StateManager σ)) ls s) :
    (OneQueue ls ∧ KeepsWorkers (.start (configured prefix_ extra protocols ips : StateManager σ)) ls ∧
      InArrivalOrder ls) ↔ SamePorts ls := by
  have hpools := nodup_pools hips
  constructor
  · exact fun hall ↦ samePorts_of_oneQueue hpools h hall.1
  · intro hports
    have hone := oneQueue_of_samePorts hpools h hports
    exact ⟨hone, keepsWorkers_of_samePorts hpools hports, inArrivalOrder_of_oneQueue hpools h hone⟩

end Affinity

def Deed.resolves : Deed → Option (Int × Parcel × ℕ)
  | .resolve w x f => some (w, x, f)
  | _ => none

theorem mem_resolves {d : Int × Parcel × ℕ} : d ∈ ls.filterMap Deed.resolves ↔ .resolve d.1 d.2.1 d.2.2 ∈ ls := by
  rw [List.mem_filterMap]
  constructor
  · rintro ⟨a, ha, he⟩
    cases a with
    | resolve w x f =>
      cases he
      exact ha
    | _ => cases he
  · exact fun h ↦ ⟨_, h, rfl⟩

instance (ls : List Deed) : Decidable (OneQueue ls) :=
  decidable_of_iff (∀ d ∈ ls.filterMap Deed.resolves, ∀ e ∈ ls.filterMap Deed.resolves,
      d.2.2 = e.2.2 → d.2.1.tid = e.2.1.tid)
    ⟨fun h w x w' x' f hx hx' ↦ h (w, x, f) (mem_resolves.mpr hx) (w', x', f) (mem_resolves.mpr hx') rfl,
      fun h _ hd _ he hf ↦ h _ _ _ _ _ (mem_resolves.mp hd) (hf ▸ mem_resolves.mp he)⟩

instance (ls : List Deed) : Decidable (SamePorts ls) :=
  decidable_of_iff (∀ d ∈ ls.filterMap Deed.resolves, ∀ e ∈ ls.filterMap Deed.resolves,
      d.2.2 = e.2.2 → d.2.1.bound = false → e.2.1.bound = false →
        d.2.1.pkt.port_t.toNat % T = e.2.1.pkt.port_t.toNat % T)
    ⟨fun h w x w' x' f hx hx' ↦ h (w, x, f) (mem_resolves.mpr hx) (w', x', f) (mem_resolves.mpr hx') rfl,
      fun h _ hd _ he hf ↦ h _ _ _ _ _ (mem_resolves.mp hd) (hf ▸ mem_resolves.mp he)⟩

section Ports

open Threads

/-- A segment of a client at port 1000, as the tun device gives it. -/
def segment6 (dport : UInt16) : List UInt8 :=
  make_ip6pkt 20 clientA serverS IPPROTO_TCP ++ Packet.tcphdr 1000 dport 1 1

def readSegment6 (dport : UInt16) : Move := .read (Mem.ofList (segment6 dport)) (segment6 dport).length

/-- One client endpoint with two servers' ports, both read before a worker runs. -/
theorem two_queues : ∃ (ls : List Deed) (s : Threads Unit), Run Step (.start exampleConf) ls s ∧
    ¬(OneQueue ls ∧ KeepsWorkers (.start (exampleConf : StateManager Unit)) ls ∧ InArrivalOrder ls) := by
  refine ⟨_, _, perform_run _ [readSegment6 80, .push, readSegment6 81, .push, .work 0, .work 0, .work 0,
    .work 1, .work 1, .work 1], fun h ↦ ?_⟩
  exact absurd h.1 (by decide +kernel)

/-- The server's answer to the endpoint the pool gives first. -/
def answer4 : List UInt8 :=
  make_ip4pkt 40 (getServerAddr4 serverS) ⟨ntohl 0x0a141e28⟩ IPPROTO_TCP ++ Packet.tcphdr 80 32000 1 1

def answered : List Move :=
  [readSegment6 80, .push, .work 0, .work 0, .work 0, .work 0, .work 0, .work 0, .work 0,
    .read (Mem.ofList answer4) answer4.length, .push, .work 0, .work 0, .work 0, .work 0]

theorem one_queue_answered : ∃ ls : List Deed, (done ls).map (fun d ↦ d.2.1.no) = [0, 1] ∧
    OneQueue ls ∧ KeepsWorkers (.start (exampleConf : StateManager Unit)) ls ∧ InArrivalOrder ls :=
  ⟨(perform (.start (exampleConf : StateManager Unit)) answered).1, by decide +kernel,
    (one_worker_iff (List.nodup_singleton _) (perform_run _ answered)).mpr (by decide +kernel)⟩

end Ports

end Nat64Alg
