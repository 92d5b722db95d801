import Nat64Alg.Tun

namespace Nat64Alg

open Lib StateManager

variable {σ : Type}

def QMAX : ℕ := 10000

/-- A packet with its number in the order of arrival, the queue chosen for it, and whether that is the queue of
the worker its flow has. -/
structure Parcel where
  no : ℕ
  pkt : Packet
  tid : Int
  bound : Bool

/-- Where a worker stands in `thread_t`: waiting for a packet, or on its way through `translate`, which
begins with the range check, the mapping and the worker of the flow, and ends with the packet sent. -/
inductive Place
  | idle
  | popped (x : Parcel)
  | checked (x : Parcel)
  | mapped (x : Parcel) (f : ℕ)
  | unclaimed (x : Parcel) (f : ℕ)
  | claimed (x : Parcel) (f : ℕ)
  | begun (x : Parcel) (f : ℕ)

inductive Deed
  | read (x : Parcel)
  | push (x : Parcel)
  | pop (w : Int) (x : Parcel)
  | drop (w : Int) (x : Parcel)
  | resolve (w : Int) (x : Parcel) (f : ℕ)
  | claim (w : Int) (f : ℕ)
  | finish (w : Int) (x : Parcel) (f : ℕ) (sent : List Sent)
  | tau

/-- The tun reader and the workers, with their queues and the state manager they share. -/
structure Threads (σ : Type) where
  reader : Option Parcel
  count : ℕ
  q : Int → List Parcel
  nats : Int → NAT
  place : Int → Place
  sm : StateManager σ

def hasWorker (sm : StateManager σ) (p : Packet) : Bool :=
  match (p.getFlow sm).1 with
  | some f => decide (0 ≤ (sm.flowAt f).tid)
  | none => false

namespace Threads

def start (sm : StateManager σ) : Threads σ := ⟨none, 0, fun _ ↦ [], fun w ↦ .new w, fun _ ↦ .idle, sm⟩

def read (s : Threads σ) (junk : Packet) (buf : Mem) (len : Int) : Option (Deed × Threads σ) :=
  match s.reader, tun_handle s.sm junk buf len with
  | none, .ok r =>
    let x : Parcel := ⟨s.count, r.pkt, r.tid, hasWorker s.sm r.pkt⟩
    some (.read x, { s with reader := some x, count := s.count + 1, sm := r.sm })
  | _, _ => none

def push (s : Threads σ) : Option (Deed × Threads σ) :=
  match s.reader with
  | some x =>
    if QMAX < (s.q x.tid).length then none
    else some (.push x, { s with reader := none, q := Function.update s.q x.tid (s.q x.tid ++ [x]) })
  | none => none

/-- The worker `w` goes on to `p`. -/
def goes (s : Threads σ) (w : Int) (p : Place) : Threads σ := { s with place := Function.update s.place w p }

/-- The next step of the worker `w`, up to and with its next use of what is shared. -/
def work (s : Threads σ) (w : Int) : Option (Deed × Threads σ) :=
  match s.place w with
  | .idle =>
    match s.q w with
    | x :: xs => some (.pop w x, { s.goes w (.popped x) with q := Function.update s.q w xs })
    | [] => none
  | .popped x =>
    match NAT.inRange s.sm x.pkt with
    | .error _ => none
    | .ok (ok, sm) =>
      if !ok || (!x.pkt.isTCP && !x.pkt.isUDP) then some (.drop w x, { s.goes w .idle with sm := sm })
      else some (.tau, { s.goes w (.checked x) with sm := sm })
  | .checked x =>
    if x.pkt.getIPVersion = 4 then
      let r := s.sm.doMapping ⟨x.pkt.saddr6, x.pkt.getSourcePort⟩ x.pkt.daddr6
      match r.1 with
      | some f => some (.resolve w x f, { s.goes w (.mapped x f) with sm := r.2 })
      | none => none
    else
      match s.sm.getMapping4 ⟨x.pkt.daddr4, x.pkt.getDestPort⟩ x.pkt.saddr4 with
      | some f =>
        let nat := { s.nats w with ip6p_ := (s.sm.flowAt f).ip6p }
        some (.resolve w x f, { s.goes w (.begun x f) with nats := Function.update s.nats w nat })
      | none => some (.drop w x, s.goes w .idle)
  | .mapped x f =>
    some (.tau, s.goes w (if (s.sm.flowAt f).tid < 0 then .unclaimed x f else .claimed x f))
  | .unclaimed x f =>
    some (.claim w f, { s.goes w (.claimed x f) with
      sm := s.sm.setFlow f { s.sm.flowAt f with tid := (s.nats w).tid } })
  | .claimed x f =>
    let nat := { s.nats w with ip4p_ := (s.sm.flowAt f).ip4p }
    some (.tau, { s.goes w (.begun x f) with
      nats := Function.update s.nats w nat, sm := s.sm.setCurIPv6SrvAddr x.pkt.daddr6 })
  | .begun x f =>
    let nat := { s.nats w with modified_ := false }
    match nat.send s.sm (nat.rewrite s.sm x.pkt) with
    | .error _ => none
    | .ok (sm, _, sent) =>
      some (.finish w x f sent, { s.goes w .idle with nats := Function.update s.nats w nat, sm := sm })

inductive Step : Threads σ → Deed → Threads σ → Prop
  | read {s s' : Threads σ} {a : Deed} {junk : Packet} {buf : Mem} {len : Int}
      (h : s.read junk buf len = some (a, s')) : Step s a s'
  | push {s s' : Threads σ} {a : Deed} (h : s.push = some (a, s')) : Step s a s'
  | work {s s' : Threads σ} {a : Deed} {w : Int} (hw : 0 ≤ w ∧ w < T) (h : s.work w = some (a, s')) : Step s a s'

/-- Everything the next step of the worker `w` can be. -/
inductive Worked (s : Threads σ) (w : Int) : Deed → Threads σ → Prop
  | pop (x : Parcel) (xs : List Parcel) (hp : s.place w = .idle) (hq : s.q w = x :: xs) :
      Worked s w (.pop w x) { s.goes w (.popped x) with q := Function.update s.q w xs }
  | refuse (x : Parcel) (ok : Bool) (sm : StateManager σ) (hp : s.place w = .popped x)
      (hr : NAT.inRange s.sm x.pkt = .ok (ok, sm)) (hn : ¬(ok = true ∧ (x.pkt.isTCP || x.pkt.isUDP) = true)) :
      Worked s w (.drop w x) { s.goes w .idle with sm := sm }
  | check (x : Parcel) (sm : StateManager σ) (hp : s.place w = .popped x)
      (hr : NAT.inRange s.sm x.pkt = .ok (true, sm)) (ht : (x.pkt.isTCP || x.pkt.isUDP) = true) :
      Worked s w .tau { s.goes w (.checked x) with sm := sm }
  | resolve6 (x : Parcel) (f : ℕ) (sm : StateManager σ) (hp : s.place w = .checked x) (hv : x.pkt.getIPVersion = 4)
      (hm : s.sm.doMapping ⟨x.pkt.saddr6, x.pkt.getSourcePort⟩ x.pkt.daddr6 = (some f, sm)) :
      Worked s w (.resolve w x f) { s.goes w (.mapped x f) with sm := sm }
  | resolve4 (x : Parcel) (f : ℕ) (hp : s.place w = .checked x) (hv : ¬x.pkt.getIPVersion = 4)
      (hm : s.sm.getMapping4 ⟨x.pkt.daddr4, x.pkt.getDestPort⟩ x.pkt.saddr4 = some f) :
      Worked s w (.resolve w x f) { s.goes w (.begun x f) with
        nats := Function.update s.nats w { s.nats w with ip6p_ := (s.sm.flowAt f).ip6p } }
  | unknown (x : Parcel) (hp : s.place w = .checked x) (hv : ¬x.pkt.getIPVersion = 4)
      (hm : s.sm.getMapping4 ⟨x.pkt.daddr4, x.pkt.getDestPort⟩ x.pkt.saddr4 = none) :
      Worked s w (.drop w x) (s.goes w .idle)
  | unclaimed (x : Parcel) (f : ℕ) (hp : s.place w = .mapped x f) (ht : (s.sm.flowAt f).tid < 0) :
      Worked s w .tau (s.goes w (.unclaimed x f))
  | claimed (x : Parcel) (f : ℕ) (hp : s.place w = .mapped x f) (ht : 0 ≤ (s.sm.flowAt f).tid) :
      Worked s w .tau (s.goes w (.claimed x f))
  | claim (x : Parcel) (f : ℕ) (hp : s.place w = .unclaimed x f) :
      Worked s w (.claim w f) { s.goes w (.claimed x f) with
        sm := s.sm.setFlow f { s.sm.flowAt f with tid := (s.nats w).tid } }
  | begun (x : Parcel) (f : ℕ) (hp : s.place w = .claimed x f) :
      Worked s w .tau { s.goes w (.begun x f) with
        nats := Function.update s.nats w { s.nats w with ip4p_ := (s.sm.flowAt f).ip4p }
        sm := s.sm.setCurIPv6SrvAddr x.pkt.daddr6 }
  | finish (x : Parcel) (f : ℕ) (sm : StateManager σ) (p : Packet) (sent : List Sent) (hp : s.place w = .begun x f)
      (hs : NAT.send { s.nats w with modified_ := false } s.sm
        (NAT.rewrite { s.nats w with modified_ := false } s.sm x.pkt) = .ok (sm, p, sent)) :
      Worked s w (.finish w x f sent) { s.goes w .idle with
        nats := Function.update s.nats w { s.nats w with modified_ := false }, sm := sm }

theorem work_worked {s s' : Threads σ} {w : Int} {a : Deed} (h : s.work w = some (a, s')) : s.Worked w a s' := by
  unfold work at h
  split at h
  case h_1 hp =>
    split at h
    case h_1 x xs hq =>
      cases h
      exact .pop x xs hp hq
    case h_2 => cases h
  case h_2 x hp =>
    split at h
    case h_1 => cases h
    case h_2 ok sm hr =>
      split at h
      case isTrue hn =>
        cases h
        refine .refuse x ok sm hp hr ?_
        rintro ⟨rfl, ht⟩
        simp_all
      case isFalse hn =>
        cases h
        have hok : ok = true ∧ (x.pkt.isTCP || x.pkt.isUDP) = true := by
          revert hn
          cases ok <;> cases x.pkt.isTCP <;> cases x.pkt.isUDP <;> simp
        obtain ⟨rfl, ht⟩ := hok
        exact .check x sm hp hr ht
  case h_3 x hp =>
    split at h
    case isTrue hv =>
      rcases hd : s.sm.doMapping ⟨x.pkt.saddr6, x.pkt.getSourcePort⟩ x.pkt.daddr6 with ⟨r, sm⟩
      rw [hd] at h
      cases r with
      | none => cases h
      | some f =>
        cases h
        exact .resolve6 x f sm hp hv hd
    case isFalse hv =>
      split at h
      case h_1 f hm =>
        cases h
        exact .resolve4 x f hp hv hm
      case h_2 hm =>
        cases h
        exact .unknown x hp hv hm
  case h_4 x f hp =>
    split at h
    case isTrue ht =>
      cases h
      exact .unclaimed x f hp ht
    case isFalse ht =>
      cases h
      exact .claimed x f hp (not_lt.mp ht)
  case h_5 x f hp =>
    cases h
    exact .claim x f hp
  case h_6 x f hp =>
    cases h
    exact .begun x f hp
  case h_7 x f hp =>
    dsimp only at h
    split at h
    case h_1 => cases h
    case h_2 sm p sent hs =>
      cases h
      exact .finish x f sm p sent hp hs

theorem worked_work {s s' : Threads σ} {w : Int} {a : Deed} (h : s.Worked w a s') : s.work w = some (a, s') := by
  unfold work
  cases h with
  | pop x xs hp hq => simp only [hp, hq]
  | refuse x ok sm hp hr hn =>
    have hn' : (!ok || (!x.pkt.isTCP && !x.pkt.isUDP)) = true := by
      revert hn
      cases ok <;> cases x.pkt.isTCP <;> cases x.pkt.isUDP <;> simp
    simp only [hp, hr, if_pos hn']
  | check x sm hp hr ht =>
    have hn' : ¬(!true || (!x.pkt.isTCP && !x.pkt.isUDP)) = true := by
      revert ht
      cases x.pkt.isTCP <;> cases x.pkt.isUDP <;> simp
    simp only [hp, hr, if_neg hn']
  | resolve6 x f sm hp hv hm => simp only [hp, if_pos hv, hm]
  | resolve4 x f hp hv hm => simp only [hp, if_neg hv, hm]
  | unknown x hp hv hm => simp only [hp, if_neg hv, hm]
  | unclaimed x f hp ht => simp only [hp, if_pos ht]
  | claimed x f hp ht => simp only [hp, if_neg (not_lt.mpr ht)]
  | claim x f hp => simp only [hp]
  | begun x f hp => simp only [hp]
  | finish x f sm p sent hp hs => simp only [hp, hs]

theorem work_iff {s s' : Threads σ} {w : Int} {a : Deed} : s.work w = some (a, s') ↔ s.Worked w a s' :=
  ⟨work_worked, worked_work⟩

def Deed.sent : Deed → List Sent
  | .finish _ _ _ sent => sent
  | _ => []

theorem setTid_ip4p (sm : StateManager σ) (f : ℕ) (tid : Int) :
    ((sm.setFlow f { sm.flowAt f with tid := tid }).flowAt f).ip4p = (sm.flowAt f).ip4p := by
  rcases lt_or_ge f sm.heap.length with hf | hf
  · rw [flowAt_setFlow hf]
  · rw [StateManager.setFlow, List.set_eq_of_length_le hf]

theorem Worked.step {s s' : Threads σ} {a : Deed} {w : Int} (hw : 0 ≤ w ∧ w < T) (h : s.Worked w a s') : s.Step a s' :=
  .work hw (work_iff.mpr h)

theorem translate_worked {s : Threads σ} {w : Int} {x : Parcel} {t : NAT.Translated σ} (hw : 0 ≤ w ∧ w < T)
    (hmode : s.sm.analysisMode = false) (hp : s.place w = .popped x)
    (ht : (s.nats w).translate s.sm x.pkt = .ok t) : ∃ ls s', Run Step s ls s' ∧ s'.place w = .idle ∧
      s'.nats w = t.nat ∧ s'.sm = t.sm ∧ ls.flatMap Deed.sent = t.sent := by
  obtain ⟨ok, sm₁, hr, h⟩ := translateWith_cases hmode ht
  rcases h with ⟨hn, rfl⟩ | ⟨⟨rfl, htr⟩, rc, nat₁, sm₂, hb, h⟩
  · exact ⟨_, _, .one (Worked.refuse x ok sm₁ hp hr hn |>.step hw), by simp [goes], rfl, rfl, rfl⟩
  have hcheck := (Worked.check x sm₁ hp hr htr).step hw
  have hmode₂ : sm₂.analysisMode = false :=
    ((@inRange_grown _ [] _ _ _ _ hr).trans (begin_grown List.nodup_nil hb)).analysisMode.trans hmode
  rcases begin_cases hb with ⟨hv, f, sm', hd, rfl, rfl, rfl⟩ | ⟨hv, f, hf, rfl, rfl, rfl⟩ | ⟨hv, hf, rfl, rfl, rfl⟩
  · rcases h with ⟨hrc, -⟩ | ⟨-, a, ha, h⟩
    · exact absurd rfl hrc
    cases ha
    rcases h with ⟨hm, -⟩ | ⟨-, sm₃, p₃, sent, hs, rfl⟩
    · exact absurd (hm.symm.trans hmode₂) (by simp)
    by_cases hf : (sm'.flowAt f).tid < 0
    · rw [StateManager.setTid, if_pos hf] at hs ⊢
      refine ⟨_, _, .cons hcheck (.cons (Worked.resolve6 x f sm' (by simp [goes]) hv hd |>.step hw)
        (.cons (Worked.unclaimed x f (by simp [goes]) hf |>.step hw)
        (.cons (Worked.claim x f (by simp [goes]) |>.step hw)
        (.cons (Worked.begun x f (by simp [goes]) |>.step hw)
        (.one (Worked.finish x f sm₃ p₃ sent (by simp [goes]) ?_ |>.step hw)))))), by simp [goes], ?_, rfl, ?_⟩
      · simpa [goes, setTid_ip4p] using hs
      · simp [goes, setTid_ip4p]
      · simp [Deed.sent]
    · rw [StateManager.setTid, if_neg hf] at hs ⊢
      refine ⟨_, _, .cons hcheck (.cons (Worked.resolve6 x f sm' (by simp [goes]) hv hd |>.step hw)
        (.cons (Worked.claimed x f (by simp [goes]) (not_lt.mp hf) |>.step hw)
        (.cons (Worked.begun x f (by simp [goes]) |>.step hw)
        (.one (Worked.finish x f sm₃ p₃ sent (by simp [goes]) ?_ |>.step hw))))), by simp [goes], ?_, rfl, ?_⟩
      · simpa [goes] using hs
      · simp [goes]
      · simp [Deed.sent]
  · rcases h with ⟨hrc, -⟩ | ⟨-, a, ha, h⟩
    · exact absurd rfl hrc
    cases ha
    rcases h with ⟨hm, -⟩ | ⟨-, sm₃, p₃, sent, hs, rfl⟩
    · exact absurd (hm.symm.trans hmode₂) (by simp)
    refine ⟨_, _, .cons hcheck (.cons (Worked.resolve4 x f (by simp [goes]) hv hf |>.step hw)
      (.one (Worked.finish x f sm₃ p₃ sent (by simp [goes]) ?_ |>.step hw))), by simp [goes], ?_, rfl, ?_⟩
    · simpa [goes] using hs
    · simp [goes]
    · simp [Deed.sent]
  · rcases h with ⟨-, rfl⟩ | ⟨hrc, -⟩
    · exact ⟨_, _, .cons hcheck (.one (Worked.unknown x (by simp [goes]) hv hf |>.step hw)),
        by simp [goes], rfl, rfl, rfl⟩
    · cases hrc

/-- The next thing to happen: a packet from the tun device, the reader's push, or a worker's step. -/
inductive Move
  | read (buf : Mem) (len : Int)
  | push
  | work (w : Int)

def move (s : Threads σ) : Move → Option (Deed × Threads σ)
  | .read buf len => s.read .blank buf len
  | .push => s.push
  | .work w => if 0 ≤ w ∧ w < T then s.work w else none

/-- The steps taken in a given order, up to the first that cannot be. -/
def perform : Threads σ → List Move → List Deed × Threads σ
  | s, [] => ([], s)
  | s, m :: ms =>
    match s.move m with
    | some (a, s') => (a :: (perform s' ms).1, (perform s' ms).2)
    | none => ([], s)

theorem move_step {s s' : Threads σ} {m : Move} {a : Deed} (h : s.move m = some (a, s')) : s.Step a s' := by
  cases m with
  | read buf len => exact .read h
  | push => exact .push h
  | work w =>
    simp only [move] at h
    split at h
    case isTrue hw => exact .work hw h
    case isFalse => cases h

theorem perform_run (s : Threads σ) (ms : List Move) : Run Step s (perform s ms).1 (perform s ms).2 := by
  induction ms generalizing s with
  | nil => exact .nil s
  | cons m ms ih =>
    unfold perform
    split
    case h_1 a s' h => exact .cons (move_step h) (ih s')
    case h_2 => exact .nil s

end Threads

end Nat64Alg
