import Nat64Alg.Translator
import Nat64Alg.Conserved

namespace Nat64Alg

open Lib StateManager

variable {σ : Type} {conf : Conf} {sm sm' : StateManager σ} {s s' : Threads σ} {a : Deed} {ls : List Deed}

/-- What a step shows of the packets: read, resolved to a flow or dropped, and sent. -/
def Deed.signs : Deed → List (Sign ℕ Packet (List Sent))
  | .read x => [.ask x.no]
  | .drop _ x => [.commit x.no x.pkt, .reply x.no []]
  | .resolve _ x _ => [.commit x.no x.pkt]
  | .finish _ x _ sent => [.reply x.no sent]
  | .push _ | .pop _ _ | .claim _ _ | .tau => []

/-- What a worker still owes for the packet it has in hand. -/
def Place.Owes (conf : Conf) (sm : StateManager σ) (nat : NAT) (phase : ℕ → Phase (List Sent)) : Place → Prop
  | .idle => True
  | .popped x => phase x.no = .asked ∧ x.pkt.Arrived
  | .checked x => phase x.no = .asked ∧ x.pkt.Arrived ∧ (x.pkt.isTCP || x.pkt.isUDP) = true ∧
      conf.arrival x.pkt = if x.pkt.getIPVersion = 4 then .client (⟨x.pkt.saddr6, x.pkt.getSourcePort⟩, x.pkt.daddr6)
        else .server (⟨x.pkt.daddr4, x.pkt.getDestPort⟩, x.pkt.saddr4)
  | .mapped x f | .unclaimed x f | .claimed x f => x.pkt.Arrived ∧ (x.pkt.isTCP || x.pkt.isUDP) = true ∧
      x.pkt.getIPVersion = 4 ∧ f < sm.heap.length ∧
      phase x.no = .owed (conf.emit x.pkt (.toServer (sm.flowAt f).ip4p))
  | .begun x _ => x.pkt.Arrived ∧ (x.pkt.isTCP || x.pkt.isUDP) = true ∧ phase x.no =
      .owed (conf.emit x.pkt (if x.pkt.getIPVersion = 4 then .toServer nat.ip4p_ else .toClient nat.ip6p_))

theorem Place.Owes.mono {nat : NAT} {phase phase' : ℕ → Phase (List Sent)} {pl : Place}
    (h : pl.Owes conf sm nat phase) (hg : Grown conf.ips sm sm')
    (hphase : ∀ x, pl.parcel = some x → phase' x.no = phase x.no) : pl.Owes conf sm' nat phase' := by
  have hlate : ∀ (x : Parcel) (f : ℕ), phase' x.no = phase x.no →
      (Place.mapped x f).Owes conf sm nat phase → (Place.mapped x f).Owes conf sm' nat phase' := by
    rintro x f hx ⟨hp, ht, hv, hf, ho⟩
    exact ⟨hp, ht, hv, hg.lt hf, by rw [hx, ho, hg.ip4p hf]⟩
  cases pl with
  | idle => trivial
  | popped x => exact ⟨(hphase x rfl).trans h.1, h.2⟩
  | checked x => exact ⟨(hphase x rfl).trans h.1, h.2⟩
  | mapped x f => exact hlate x f (hphase x rfl) h
  | unclaimed x f => exact hlate x f (hphase x rfl) h
  | claimed x f => exact hlate x f (hphase x rfl) h
  | begun x f => exact ⟨h.1, h.2.1, (hphase x rfl).trans h.2.2⟩

/-- The threads and the atomic object they come to: the same sessions, and for each packet as much done. -/
structure Simulates (conf : Conf) (s : Threads σ) (c : Atomic (List Key64) ℕ (List Sent)) : Prop where
  serves : Serves conf s.sm c.state
  idle : ∀ w, (s.nats w).exttcpflow_ = none
  fresh : ∀ n, s.count ≤ n → c.phase n = .fresh
  reader : ∀ x, s.reader = some x → c.phase x.no = .asked ∧ x.pkt.Arrived
  queue : ∀ i, ∀ x ∈ s.q i, c.phase x.no = .asked ∧ x.pkt.Arrived
  place : ∀ w, (s.place w).Owes conf s.sm (s.nats w) c.phase

namespace Simulates

variable {c : Atomic (List Key64) ℕ (List Sent)}

theorem start (conf : Conf) (extra : EXTRAType) (protocols : OrderedMap String Protocol nameLt) :
    Simulates conf (Threads.start (configured conf.prefix_ extra protocols conf.ips : StateManager σ)) (.start []) :=
  ⟨.configured conf extra protocols, fun _ ↦ rfl, fun _ _ ↦ rfl, fun _ h ↦ (nomatch h), fun _ _ h ↦ (nomatch h),
    fun _ ↦ trivial⟩

theorem mem_line {w : Int} {x : Parcel} (hx : (s.place w).parcel = some x) : x ∈ s.line w := by
  unfold Threads.line
  rw [hx]
  exact List.mem_append_left _ (List.mem_singleton_self x)

/-- A step of the worker `w` with the packet in its hands, seen from the other threads. -/
structure Moves (conf : Conf) (s : Threads σ) (w : Int) (x : Parcel) (a : Deed) (s' : Threads σ) : Prop where
  parcel : (s.place w).parcel = some x
  advanced : s.Advanced w a s'
  q : s'.q = s.q
  nats : ∀ v ≠ w, s'.nats v = s.nats v
  idle : (s'.nats w).exttcpflow_ = (s.nats w).exttcpflow_
  grown : Grown conf.ips s.sm s'.sm

theorem moves {w : Int} {x : Parcel} (hips : conf.ips.Nodup) (hx : (s.place w).parcel = some x)
    (hw : s.Worked w a s') : Moves conf s w x a s' := by
  have hadv := hw.advanced
  have hg : Grown conf.ips s.sm s'.sm := hw.grown (nodup_pools hips)
  refine ⟨hx, hadv, ?_, fun v hv ↦ ?_, ?_, hg⟩
  · cases hw with
    | pop x xs hp hq =>
      rw [hp] at hx
      cases hx
    | _ => rfl
  · cases hw with
    | resolve4 | begun | finish => exact Function.update_of_ne hv _ _
    | _ => rfl
  · cases hw with
    | resolve4 | begun | finish =>
      dsimp only
      rw [Function.update_self]
    | _ => rfl

theorem moved {c' : Atomic (List Key64) ℕ (List Sent)} {w : Int} {x : Parcel} (h : Simulates conf s c)
    (hap : s.Apart) (hm : Moves conf s w x a s') (hserves : Serves conf s'.sm c'.state)
    (hphase : ∀ n ≠ x.no, c'.phase n = c.phase n)
    (howes : (s'.place w).Owes conf s'.sm (s'.nats w) c'.phase) : Simulates conf s' c' := by
  have hmem := mem_line hm.parcel
  refine ⟨hserves, fun v ↦ ?_, fun n hn ↦ ?_, fun y hy ↦ ?_, fun i y hy ↦ ?_, fun v ↦ ?_⟩
  · rcases eq_or_ne v w with rfl | hv
    · exact hm.idle.trans (h.idle v)
    · rw [hm.nats v hv]
      exact h.idle v
  · rw [hm.advanced.count] at hn
    have hlt := hap.fresh x (.inr ⟨w, hmem⟩)
    rw [hphase n (by omega)]
    exact h.fresh n hn
  · rw [hm.advanced.reader] at hy
    rw [hphase y.no (hap.reader y hy w x hmem)]
    exact h.reader y hy
  · rw [hm.q] at hy
    have hyx : y.no ≠ x.no := by
      intro hno
      have hyi : y ∈ s.line i := List.mem_append_right _ hy
      obtain ⟨rfl, rfl⟩ := hap.lines i w y hyi x hmem hno
      have honce := hap.once i
      unfold Threads.line at honce
      rw [hm.parcel] at honce
      simp only [Option.toList_some, List.singleton_append, List.map_cons, List.nodup_cons] at honce
      exact honce.1 (List.mem_map_of_mem hy)
    rw [hphase y.no hyx]
    exact h.queue i y hy
  · rcases eq_or_ne v w with rfl | hv
    · exact howes
    · rw [hm.advanced.place v hv, hm.nats v hv]
      refine (h.place v).mono hm.grown (fun y hy ↦ hphase y.no (fun hno ↦ ?_))
      exact hv (hap.lines v w y (mem_line hy) x hmem hno).1

end Simulates

theorem Threads.read_arrived {junk : Packet} {buf : Mem} {len : Int} {x : Parcel}
    (h : s.read junk buf len = some (.read x, s')) : x.pkt.Arrived := by
  unfold Threads.read at h
  split at h
  case h_2 => cases h
  case h_1 r hr hq =>
    cases h
    unfold tun_handle at hq
    split at hq
    · cases hq
    case h_2 p hp =>
      cases hq
      unfold tunProtocol at hp
      split at hp
      · exact .inl ⟨junk, buf, len, hp⟩
      · exact .inr ⟨junk, buf, len, hp⟩

namespace Simulates

variable {c : Atomic (List Key64) ℕ (List Sent)}

theorem read (h : Simulates conf s c) {junk : Packet} {buf : Mem} {len : Int}
    (hr : s.read junk buf len = some (a, s')) :
    ∃ c', Run (Atomic.Step conf.translator) c a.signs c' ∧ Simulates conf s' c' := by
  obtain ⟨hnone, p, -, rfl, rfl⟩ := Threads.read_cases h.serves.mode hr
  have harr := Threads.read_arrived hr
  have hne : ∀ n, c.phase n ≠ .fresh → (c.goes s.count .asked).phase n = c.phase n := by
    intro n hn
    refine Atomic.goes_ne (fun he ↦ hn ?_)
    exact he ▸ h.fresh s.count le_rfl
  refine ⟨c.goes s.count .asked, .one (.ask c s.count (h.fresh _ le_rfl)), h.serves, h.idle, fun n hn ↦ ?_,
    fun x hx ↦ ?_, fun i x hx ↦ ?_, fun w ↦ ?_⟩
  · have hlt : s.count + 1 ≤ n := hn
    rw [Atomic.goes_ne (by omega)]
    exact h.fresh n (by omega)
  · cases hx
    exact ⟨Atomic.goes_self _ _ _, harr⟩
  · obtain ⟨hp, ha⟩ := h.queue i x hx
    exact ⟨(hne _ (by simp [hp])).trans hp, ha⟩
  · refine (h.place w).mono (.refl _) (fun x hx ↦ hne _ ?_)
    have ho := h.place w
    cases hpl : s.place w <;> rw [hpl] at ho hx <;> cases hx
    · simp [ho.1]
    · simp [ho.1]
    · simp [ho.2.2.2.2]
    · simp [ho.2.2.2.2]
    · simp [ho.2.2.2.2]
    · simp [ho.2.2]

theorem push (h : Simulates conf s c) (hp : s.push = some (a, s')) :
    ∃ c', Run (Atomic.Step conf.translator) c a.signs c' ∧ Simulates conf s' c' := by
  obtain ⟨x, hx, rfl, rfl⟩ := Threads.push_cases hp
  refine ⟨c, .nil c, h.serves, h.idle, h.fresh, fun y hy ↦ (nomatch hy), fun i y hy ↦ ?_, h.place⟩
  rcases eq_or_ne i x.tid with rfl | hi
  · simp only [Function.update_self, List.mem_append, List.mem_singleton] at hy
    rcases hy with hy | rfl
    · exact h.queue _ y hy
    · exact h.reader y hx
  · simp only [Function.update_of_ne hi] at hy
    exact h.queue i y hy

theorem commit {held : List Key64} {p : Packet} {d : Departure} {held' : List Key64}
    (h : nat64 conf.pool held (conf.arrival p) = some (d, held')) :
    conf.translator held p = some (conf.emit p d, held') := by
  unfold Conf.translator Machine.through
  rw [h]
  rfl

section Worked

variable {w : Int} {x : Parcel}

theorem popped (h : Simulates conf s c) {xs : List Parcel} (hq : s.q w = x :: xs) :
    Simulates conf { s.goes w (.popped x) with q := Function.update s.q w xs } c := by
  have hx := h.queue w x (by rw [hq]; exact List.mem_cons_self)
  refine ⟨h.serves, h.idle, h.fresh, h.reader, fun i y hy ↦ ?_, fun v ↦ ?_⟩
  · rcases eq_or_ne i w with rfl | hi
    · simp only [Function.update_self] at hy
      exact h.queue i y (by rw [hq]; exact List.mem_cons_of_mem _ hy)
    · simp only [Function.update_of_ne hi] at hy
      exact h.queue i y hy
  · rcases eq_or_ne v w with rfl | hv
    · simp only [Threads.goes, Function.update_self]
      exact hx
    · simp only [Threads.goes, Function.update_of_ne hv]
      exact h.place v

theorem stays (h : Simulates conf s c) (hap : s.Apart) (hm : Moves conf s w x a s')
    (hsigns : a.signs = []) (hserves : Serves conf s'.sm c.state)
    (howes : (s'.place w).Owes conf s'.sm (s'.nats w) c.phase) :
    ∃ c', Run (Atomic.Step conf.translator) c a.signs c' ∧ Simulates conf s' c' := by
  rw [hsigns]
  exact ⟨c, .nil c, h.moved hap hm hserves (fun _ _ ↦ rfl) howes⟩

/-- The packet becomes nothing, and is done with. -/
theorem dropped (h : Simulates conf s c) (hap : s.Apart) (hm : Moves conf s w x a s')
    (hsigns : a.signs = [.commit x.no x.pkt, .reply x.no []]) (hasked : c.phase x.no = .asked)
    (harrival : nat64 conf.pool c.state (conf.arrival x.pkt) = some (.nothing, c.state))
    (hserves : Serves conf s'.sm c.state) (hidle : s'.place w = .idle) :
    ∃ c', Run (Atomic.Step conf.translator) c a.signs c' ∧ Simulates conf s' c' := by
  rw [hsigns]
  refine ⟨_, .cons (.commit c x.no x.pkt [] c.state hasked (commit harrival))
    (.one (.reply _ x.no [] (Atomic.goes_self _ _ _))), h.moved hap hm hserves (fun n hn ↦ ?_) ?_⟩
  · rw [Atomic.goes_ne hn, Atomic.goes_ne hn]
  · rw [hidle]
    trivial

/-- What the packet becomes is fixed, and owed from then on. -/
theorem resolved (h : Simulates conf s c) (hap : s.Apart) (hm : Moves conf s w x a s')
    {d : Departure} {held' : List Key64} (hsigns : a.signs = [.commit x.no x.pkt])
    (hasked : c.phase x.no = .asked) (harrival : nat64 conf.pool c.state (conf.arrival x.pkt) = some (d, held'))
    (hserves : Serves conf s'.sm held') (howes : ∀ phase : ℕ → Phase (List Sent),
      phase x.no = .owed (conf.emit x.pkt d) → (s'.place w).Owes conf s'.sm (s'.nats w) phase) :
    ∃ c', Run (Atomic.Step conf.translator) c a.signs c' ∧ Simulates conf s' c' := by
  rw [hsigns]
  exact ⟨_, .one (.commit c x.no x.pkt _ held' hasked (commit harrival)),
    h.moved hap hm hserves (fun n hn ↦ Atomic.goes_ne hn) (howes _ (Atomic.goes_self _ _ _))⟩

theorem replied (h : Simulates conf s c) (hap : s.Apart) (hm : Moves conf s w x a s')
    {sent : List Sent} (hsigns : a.signs = [.reply x.no sent]) (howed : c.phase x.no = .owed sent)
    (hserves : Serves conf s'.sm c.state) (hidle : s'.place w = .idle) :
    ∃ c', Run (Atomic.Step conf.translator) c a.signs c' ∧ Simulates conf s' c' := by
  rw [hsigns]
  refine ⟨_, .one (.reply c x.no sent howed), h.moved hap hm hserves (fun n hn ↦ Atomic.goes_ne hn) ?_⟩
  rw [hidle]
  trivial

theorem resolved6 (h : Simulates conf s c) (hips : conf.ips.Nodup) (hap : s.Apart) {f : ℕ} {sm : StateManager σ}
    (hm : Moves conf s w x (.resolve w x f) { s.goes w (.mapped x f) with sm := sm }) (hp : s.place w = .checked x)
    (hv : x.pkt.getIPVersion = 4)
    (hd : s.sm.doMapping ⟨x.pkt.saddr6, x.pkt.getSourcePort⟩ x.pkt.daddr6 = (some f, sm)) :
    ∃ c', Run (Atomic.Step conf.translator) c (Deed.resolve w x f).signs c' ∧
      Simulates conf { s.goes w (.mapped x f) with sm := sm } c' := by
  have howes := h.place w
  rw [hp] at howes
  obtain ⟨hasked, harr, ht, harrival⟩ := howes
  rw [if_pos hv] at harrival
  rcases h.serves.toRepresents.doMapping hips hd with ⟨g, held', hgf, hrep, hnat, hlt⟩ | ⟨hnone, -⟩
  · cases hgf
    refine h.resolved hap hm rfl hasked (harrival ▸ hnat) (h.serves.of_grown hm.grown hrep) (fun phase ho ↦ ?_)
    simp only [Threads.goes, Function.update_self]
    exact ⟨harr, ht, hv, by rw [hrep.length]; exact hlt, ho⟩
  · cases hnone

theorem claimed (h : Simulates conf s c) (hap : s.Apart) {f : ℕ}
    (hm : Moves conf s w x (.claim w f) { s.goes w (.claimed x f) with
      sm := s.sm.setFlow f { s.sm.flowAt f with tid := (s.nats w).tid } }) (hp : s.place w = .unclaimed x f) :
    ∃ c', Run (Atomic.Step conf.translator) c (Deed.claim w f).signs c' ∧
      Simulates conf { s.goes w (.claimed x f) with
        sm := s.sm.setFlow f { s.sm.flowAt f with tid := (s.nats w).tid } } c' := by
  refine h.stays hap hm rfl (h.serves.grown hm.grown (addrs_setFlow rfl) rfl) ?_
  have howes := h.place w
  rw [hp] at howes
  have hclaimed : (Place.claimed x f).Owes conf s.sm (s.nats w) c.phase := howes
  simp only [Threads.goes, Function.update_self]
  exact hclaimed.mono hm.grown (fun _ _ ↦ rfl)

theorem begun (h : Simulates conf s c) (hap : s.Apart) {f : ℕ} (hm : Moves conf s w x .tau { s.goes w (.begun x f) with
      nats := Function.update s.nats w { s.nats w with ip4p_ := (s.sm.flowAt f).ip4p }
      sm := s.sm.setCurIPv6SrvAddr x.pkt.daddr6 }) (hp : s.place w = .claimed x f) :
    ∃ c', Run (Atomic.Step conf.translator) c Deed.tau.signs c' ∧ Simulates conf { s.goes w (.begun x f) with
      nats := Function.update s.nats w { s.nats w with ip4p_ := (s.sm.flowAt f).ip4p }
      sm := s.sm.setCurIPv6SrvAddr x.pkt.daddr6 } c' := by
  refine h.stays hap hm rfl (h.serves.setCurIPv6SrvAddr _) ?_
  have howes := h.place w
  rw [hp] at howes
  obtain ⟨harr, ht, hv, -, ho⟩ := howes
  simp only [Threads.goes, Function.update_self]
  refine ⟨harr, ht, ?_⟩
  rw [if_pos hv]
  exact ho

theorem finished (h : Simulates conf s c) (hap : s.Apart) {f : ℕ} {sm : StateManager σ} {p : Packet} {sent : List Sent}
    (hm : Moves conf s w x (.finish w x f sent) { s.goes w .idle with
      nats := Function.update s.nats w { s.nats w with modified_ := false }, sm := sm }) (hp : s.place w = .begun x f)
    (hs : NAT.send { s.nats w with modified_ := false } s.sm
      (NAT.rewrite { s.nats w with modified_ := false } s.sm x.pkt) = .ok (sm, p, sent)) :
    ∃ c', Run (Atomic.Step conf.translator) c (Deed.finish w x f sent).signs c' ∧ Simulates conf { s.goes w .idle with
      nats := Function.update s.nats w { s.nats w with modified_ := false }, sm := sm } c' := by
  have howes := h.place w
  rw [hp] at howes
  obtain ⟨harr, ht, ho⟩ := howes
  obtain ⟨nat, hnat⟩ : ∃ nat : NAT, nat = { s.nats w with modified_ := false } := ⟨_, rfl⟩
  rw [← hnat] at hs
  have hidle : nat.exttcpflow_ = none := by
    rw [hnat]
    exact h.idle w
  obtain ⟨rfl, hsent⟩ := send_emit harr ht h.serves.prefix_eq hidle (by rw [hnat]) hs
  rw [hnat] at hsent
  rw [← hsent] at ho
  exact h.replied hap hm rfl ho h.serves (Function.update_self _ _ _)

theorem worked (h : Simulates conf s c) (hips : conf.ips.Nodup) (hap : s.Apart) (hw : s.Worked w a s') :
    ∃ c', Run (Atomic.Step conf.translator) c a.signs c' ∧ Simulates conf s' c' := by
  have howes := h.place w
  have hmoves := fun x hx ↦ moves (x := x) hips hx hw
  cases hw with
  | pop x xs hp hq => exact ⟨c, .nil c, h.popped hq⟩
  | refuse x ok sm hp hr hn =>
    rw [hp] at howes
    obtain ⟨hserves, harrival⟩ := h.serves.of_inRange howes.2 hr
    rw [if_neg hn] at harrival
    refine h.dropped hap (hmoves x (by rw [hp]; rfl)) rfl howes.1 ?_ hserves (Function.update_self _ _ _)
    rw [harrival]
    rfl
  | check x sm hp hr ht =>
    rw [hp] at howes
    obtain ⟨hserves, harrival⟩ := h.serves.of_inRange howes.2 hr
    rw [if_pos ⟨rfl, ht⟩] at harrival
    refine h.stays hap (hmoves x (by rw [hp]; rfl)) rfl hserves ?_
    simp only [Threads.goes, Function.update_self]
    exact ⟨howes.1, howes.2, ht, harrival⟩
  | resolve6 x f sm hp hv hd => exact h.resolved6 hips hap (hmoves x (by rw [hp]; rfl)) hp hv hd
  | resolve4 x f hp hv hd =>
    rw [hp] at howes
    obtain ⟨hasked, harr, ht, harrival⟩ := howes
    have hnat := h.serves.toRepresents.getMapping4 ⟨x.pkt.daddr4, x.pkt.getDestPort⟩ x.pkt.saddr4
    rw [hd] at hnat
    rw [if_neg hv] at harrival
    refine h.resolved hap (hmoves x (by rw [hp]; rfl)) rfl hasked (harrival ▸ hnat) h.serves (fun phase ho ↦ ?_)
    simp only [Threads.goes, Function.update_self]
    refine ⟨harr, ht, ?_⟩
    rw [if_neg hv]
    exact ho
  | unknown x hp hv hd =>
    rw [hp] at howes
    obtain ⟨hasked, harr, ht, harrival⟩ := howes
    have hnat := h.serves.toRepresents.getMapping4 ⟨x.pkt.daddr4, x.pkt.getDestPort⟩ x.pkt.saddr4
    rw [hd] at hnat
    rw [if_neg hv] at harrival
    exact h.dropped hap (hmoves x (by rw [hp]; rfl)) rfl hasked (harrival ▸ hnat) h.serves (Function.update_self _ _ _)
  | unclaimed x f hp ht | claimed x f hp ht =>
    refine h.stays hap (hmoves x (by rw [hp]; rfl)) rfl h.serves ?_
    rw [hp] at howes
    simp only [Threads.goes, Function.update_self]
    exact howes
  | claim x f hp => exact h.claimed hap (hmoves x (by rw [hp]; rfl)) hp
  | begun x f hp => exact h.begun hap (hmoves x (by rw [hp]; rfl)) hp
  | finish x f sm p sent hp hs => exact h.finished hap (hmoves x (by rw [hp]; rfl)) hp hs

end Worked

end Simulates

namespace Threads

variable {extra : EXTRAType} {protocols : OrderedMap String Protocol nameLt}

theorem simulated_run (hips : conf.ips.Nodup)
    (h : Run Step (start (configured conf.prefix_ extra protocols conf.ips : StateManager σ)) ls s) :
    ∃ c, Run (Atomic.Step conf.translator) (.start []) (ls.flatMap Deed.signs) c ∧ Simulates conf s c := by
  have hstep : ∀ (s : Threads σ) (a : Deed) (s' : Threads σ) (c : Atomic (List Key64) ℕ (List Sent)),
      (∃ ls, Run Step (start (configured conf.prefix_ extra protocols conf.ips : StateManager σ)) ls s) ∧
        Simulates conf s c → Step s a s' → ∃ c', Run (Atomic.Step conf.translator) c a.signs c' ∧
      (∃ ls, Run Step (start (configured conf.prefix_ extra protocols conf.ips : StateManager σ)) ls s') ∧
        Simulates conf s' c' := by
    rintro s a s' c ⟨⟨ls, hls⟩, hs⟩ hstep
    have hreach : ∃ ls, Run Step (start (configured conf.prefix_ extra protocols conf.ips : StateManager σ)) ls s' :=
      ⟨_, hls.append (.one hstep)⟩
    obtain ⟨hp, ht, hc, -⟩ := conserved_run (nodup_pools hips) hls
    cases hstep with
    | read hr =>
      obtain ⟨c', hc', hs'⟩ := hs.read hr
      exact ⟨c', hc', hreach, hs'⟩
    | push hr =>
      obtain ⟨c', hc', hs'⟩ := hs.push hr
      exact ⟨c', hc', hreach, hs'⟩
    | work hw hr =>
      obtain ⟨c', hc', hs'⟩ := hs.worked hips (hc.apart hp ht) (work_iff.mp hr)
      exact ⟨c', hc', hreach, hs'⟩
  obtain ⟨c, hrun, -, hsim⟩ := Run.simulates hstep h ⟨⟨[], .nil _⟩, .start conf extra protocols⟩
  exact ⟨c, hrun, hsim⟩

/-- However the reader and the workers interleave, they translate the packets as the machine does one at a time:
each packet takes effect once, after it is read and before it is sent, and what is sent for it is the machine's
answer. The tables are those of the machine. -/
theorem threads_linearized (hips : conf.ips.Nodup)
    (h : Run Step (start (configured conf.prefix_ extra protocols conf.ips : StateManager σ)) ls s) :
    ∃ outs held, Linearized conf.translator [] (ls.flatMap Deed.signs) outs held ∧ Represents conf s.sm held := by
  obtain ⟨c, hrun, hsim⟩ := simulated_run hips h
  obtain ⟨outs, hlin⟩ := Atomic.linearized hrun
  exact ⟨outs, c.state, hlin, hsim.serves.toRepresents⟩

/-- A client's packet and the answer to it. -/
theorem threads_linearized_answered : ∃ (ls : List Deed) (outs : List (List Sent)) (held : List Key64),
    Linearized exampleNat64.translator [] (ls.flatMap Deed.signs) outs held ∧
      (commits (ls.flatMap Deed.signs)).map Prod.fst = [0, 1] := by
  obtain ⟨outs, held, hlin, -⟩ := @threads_linearized Unit exampleNat64 _ _ .NONE
    (OrderedMap.empty.insert "http" { ptype_c2s := .NONE }) (List.nodup_singleton _)
    (perform_run (.start exampleConf) answered)
  exact ⟨_, outs, held, hlin, by decide +kernel⟩

end Threads

end Nat64Alg
