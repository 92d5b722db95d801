import Nat64Alg.Lib.Allotment
import Nat64Alg.Outcomes

namespace Nat64Alg

open Lib StateManager

/-- What a translator is told before it starts: the prefix of the servers and the addresses of the pool. -/
structure Conf where
  prefix_ : IPv6Addr
  ips : List IPv4Addr

def Conf.pool (conf : Conf) : List IP4Port := conf.ips.flatMap poolOf

/-- What a packet is to a translator: nothing, or one of a client's or of a server's. -/
inductive Arrival
  | other
  | client (key : Key64)
  | server (key : Key46)
deriving DecidableEq

/-- What becomes of a packet: nothing, or it goes on from or to the endpoint of a session. -/
inductive Departure
  | nothing
  | toServer (ip4p : IP4Port)
  | toClient (ip6p : IP6Port)
deriving DecidableEq

def clientPort (key : Key64) : UInt16 := key.1.port_

/-- Sessions in the order they were made, each with the endpoint of its place in the pool. -/
def sessions (pool : List IP4Port) (held : List Key64) : List (Key64 × Key46) :=
  List.zipWith (fun key e ↦ (key, (e, getServerAddr4 key.2))) held pool

theorem sessions_concat {pool : List IP4Port} {held : List Key64} {e : IP4Port} (key : Key64)
    (h : pool[held.length]? = some e) :
    sessions pool (held ++ [key]) = sessions pool held ++ [(key, (e, getServerAddr4 key.2))] := by
  induction held generalizing pool with
  | nil =>
    cases pool with
    | nil => cases h
    | cons e' pool =>
      cases h
      rfl
  | cons k held ih =>
    cases pool with
    | nil => cases h
    | cons e' pool => exact congrArg (_ :: ·) (ih h)

/-- The purpose of the state manager: a client's packet has the session of its port, made if need be,
and a server's packet the session of its destination if the session is with that server. It stops when a
session is to be made and the pool is used up. -/
def nat64 (pool : List IP4Port) : Machine (List Key64) Arrival Departure
  | held, .other => some (.nothing, held)
  | held, .client key =>
    match Allotment.allot clientPort pool.length held key with
    | some (n, held') => (pool[n]?).map (fun e ↦ (.toServer e, held'))
    | none => none
  | held, .server key =>
    match (sessions pool held).find? (fun a ↦ a.2 = key) with
    | some a => some (.toClient a.1.1, held)
    | none => some (.nothing, held)

section Closed

def Arrival.key : Arrival → Option Key64
  | .client key => some key
  | .other | .server _ => none

def clients (as : List Arrival) : List Key64 := as.filterMap Arrival.key

/-- What becomes of an arrival, given the sessions there are with it. -/
def departs (pool : List IP4Port) (held : List Key64) : Arrival → Departure
  | .other => .nothing
  | .client key =>
    match (Allotment.place clientPort held key).bind (fun n ↦ pool[n]?) with
    | some e => .toServer e
    | none => .nothing
  | .server key =>
    match (sessions pool held).find? (fun a ↦ a.2 = key) with
    | some a => .toClient a.1.1
    | none => .nothing

variable {pool : List IP4Port} {held held' : List Key64}

theorem nat64_iff {a : Arrival} {d : Departure} (hroom : held.length ≤ pool.length) :
    nat64 pool held a = some (d, held') ↔ held' = Allotment.firsts clientPort held (clients [a]) ∧
      held'.length ≤ pool.length ∧ d = departs pool held' a := by
  cases a with
  | other =>
    constructor
    · intro h
      cases h
      exact ⟨rfl, hroom, rfl⟩
    · rintro ⟨rfl, -, rfl⟩
      rfl
  | server key =>
    constructor
    · intro h
      simp only [nat64] at h
      split at h
      case h_1 a ha =>
        cases h
        exact ⟨rfl, hroom, by simp only [departs, ha]⟩
      case h_2 ha =>
        cases h
        exact ⟨rfl, hroom, by simp only [departs, ha]⟩
    · rintro ⟨hheld, -, rfl⟩
      obtain rfl : held' = held := hheld
      simp only [nat64, departs]
      cases (sessions pool held').find? (fun a ↦ a.2 = key) <;> rfl
  | client key =>
    have hfirsts : Allotment.firsts clientPort held (clients [.client key]) =
        Allotment.record clientPort held key := rfl
    rw [hfirsts]
    constructor
    · intro h
      simp only [nat64] at h
      split at h
      case h_2 => cases h
      case h_1 n u hu =>
        obtain ⟨e, he, hpair⟩ := Option.map_eq_some_iff.mp h
        cases hpair
        obtain ⟨rfl, hn, hlen⟩ := Allotment.allot_record.mp hu
        exact ⟨rfl, by omega, by simp only [departs, hn, Option.bind_some, he]⟩
    · rintro ⟨rfl, hlen, rfl⟩
      obtain ⟨n, hn⟩ : ∃ n, Allotment.place clientPort (Allotment.record clientPort held key) key = some n := by
        refine Option.ne_none_iff_exists'.mp (fun hnone ↦ Allotment.place_eq_none.mp hnone ?_)
        exact Allotment.mem_record.mpr (.inr rfl)
      have hlt : n < pool.length := by
        obtain ⟨h, -⟩ := List.findIdx?_eq_some_iff_getElem.mp hn
        omega
      have hallot : Allotment.allot clientPort pool.length held key =
          some (n, Allotment.record clientPort held key) :=
        Allotment.allot_record.mpr ⟨rfl, hn, le_max_of_le_left hlen⟩
      simp only [nat64, departs, hallot, hn, Option.bind_some]
      rw [List.getElem?_eq_getElem hlt]
      rfl

theorem clients_cons (a : Arrival) (as : List Arrival) : clients (a :: as) = clients [a] ++ clients as := by
  unfold clients
  rw [← List.filterMap_append]
  rfl

/-- The whole run of the machine: its sessions are of the client ports seen, in order of first sight, it goes on
as long as the pool has an endpoint for each, and each arrival departs by the sessions made until then. -/
theorem nat64_run {as : List Arrival} {ds : List Departure} (hroom : held.length ≤ pool.length) :
    (nat64 pool).run held as = some (ds, held') ↔ held' = Allotment.firsts clientPort held (clients as) ∧
      held'.length ≤ pool.length ∧ ds = as.mapIdx (fun n a ↦
        departs pool (Allotment.firsts clientPort held (clients (as.take (n + 1)))) a) := by
  induction as generalizing held ds with
  | nil =>
    constructor
    · intro h
      cases h
      exact ⟨rfl, hroom, rfl⟩
    · rintro ⟨rfl, -, rfl⟩
      rfl
  | cons a as ih =>
    have hfirsts : ∀ bs, Allotment.firsts clientPort held (clients (a :: bs)) =
        Allotment.firsts clientPort (Allotment.firsts clientPort held (clients [a])) (clients bs) := by
      intro bs
      rw [clients_cons]
      exact List.foldl_append
    have hmap : (a :: as).mapIdx (fun n b ↦
          departs pool (Allotment.firsts clientPort held (clients ((a :: as).take (n + 1)))) b) =
        departs pool (Allotment.firsts clientPort held (clients [a])) a :: as.mapIdx (fun n b ↦ departs pool
          (Allotment.firsts clientPort (Allotment.firsts clientPort held (clients [a]))
            (clients (as.take (n + 1)))) b) := by
      rw [List.mapIdx_cons]
      refine congrArg (List.cons _) (congrArg (List.mapIdx · as) ?_)
      funext n b
      rw [List.take_succ_cons, hfirsts]
    rw [hfirsts, hmap]
    constructor
    · intro h
      unfold Machine.run at h
      split at h
      case h_1 => cases h
      case h_2 d u hu =>
        obtain ⟨⟨es, _⟩, hr, he⟩ := Option.map_eq_some_iff.mp h
        cases he
        obtain ⟨rfl, hlen, rfl⟩ := (nat64_iff hroom).mp hu
        obtain ⟨rfl, hle, rfl⟩ := (ih hlen).mp hr
        exact ⟨rfl, hle, rfl⟩
    · rintro ⟨rfl, hle, rfl⟩
      have hpre : Allotment.firsts clientPort held (clients [a]) <+: Allotment.firsts clientPort
          (Allotment.firsts clientPort held (clients [a])) (clients as) := Allotment.prefix_firsts _ _
      have hlen := hpre.length_le.trans hle
      rw [Machine.run_cons ((nat64_iff hroom).mpr ⟨rfl, hlen, rfl⟩), (ih hlen).mpr ⟨rfl, hle, rfl⟩]
      rfl

theorem nat64_through {J P : Type*} {f : J → Arrival} {g : J → Departure → P} {js : List J} {os : List P} :
    ((nat64 pool).through f g).run [] js = some (os, held) ↔
      held = Allotment.firsts clientPort [] (clients (js.map f)) ∧ held.length ≤ pool.length ∧
      os = js.mapIdx (fun n j ↦
        g j (departs pool (Allotment.firsts clientPort [] (clients ((js.take (n + 1)).map f))) (f j))) := by
  have hzip : List.zipWith g js ((js.map f).mapIdx (fun n a ↦
      departs pool (Allotment.firsts clientPort [] (clients ((js.map f).take (n + 1)))) a)) =
      js.mapIdx (fun n j ↦
        g j (departs pool (Allotment.firsts clientPort [] (clients ((js.take (n + 1)).map f))) (f j))) := by
    refine List.ext_getElem (by simp) (fun n h₁ h₂ ↦ ?_)
    simp [List.map_take]
  rw [Machine.run_through, Option.map_eq_some_iff, ← hzip]
  constructor
  · rintro ⟨⟨ds, held'⟩, hr, he⟩
    cases he
    obtain ⟨rfl, hlen, rfl⟩ := (nat64_run (Nat.zero_le _)).mp hr
    exact ⟨rfl, hlen, rfl⟩
  · rintro ⟨rfl, hlen, rfl⟩
    exact ⟨_, (nat64_run (Nat.zero_le _)).mpr ⟨rfl, hlen, rfl⟩, rfl⟩

end Closed

def Conf.arrival (conf : Conf) (p : Packet) : Arrival :=
  if (p.isTCP || p.isUDP) = false then .other
  else if p.hw_protocol = ETHERTYPE_IPV6 then
    if p.daddr6 = ⟨{ conf.prefix_.ip_ with w₃ := p.daddr6.ip_.w₃ }⟩ then
      .client (⟨p.saddr6, p.getSourcePort⟩, p.daddr6)
    else .other
  else if p.daddr4 ∈ conf.ips then .server (⟨p.daddr4, p.getDestPort⟩, p.saddr4)
  else .other

/-- The packet on its way: header, ports and checksums rewritten for the endpoint of its session. -/
def Conf.emit (conf : Conf) (p : Packet) : Departure → List Sent
  | .nothing => []
  | .toServer e =>
    let q := NAT.rewrite { NAT.new 0 with ip4p_ := e } (start conf.prefix_ .NONE .empty : StateManager Unit) p
    [.v4 q.obuf_ q.obuf_len_ q.daddr4]
  | .toClient k =>
    let q := NAT.rewrite { NAT.new 0 with ip6p_ := k } (start conf.prefix_ .NONE .empty : StateManager Unit) p
    [.v6 q.obuf_ q.obuf_len_ q.daddr6 (q.transport_len_ - q.getTransportHeaderLen == 0)]

def Conf.translator (conf : Conf) : Machine (List Key64) Packet (List Sent) :=
  (nat64 conf.pool).through conf.arrival conf.emit

variable {σ : Type} {conf : Conf} {sm sm' : StateManager σ} {held : List Key64}

/-- The tables of `sm` are those of the sessions `held`. -/
structure Represents (conf : Conf) (sm : StateManager σ) (held : List Key64) : Prop where
  coherent : Coherent conf.ips sm
  addrs : sm.addrs = sessions conf.pool held
  pool : sm.pool_ = conf.pool.drop held.length
  room : held.length ≤ conf.pool.length

namespace Represents

theorem length (h : Represents conf sm held) : sm.heap.length = held.length := by
  have hl := congrArg List.length h.addrs
  have hr := h.room
  rw [length_addrs, sessions, List.length_zipWith] at hl
  omega

theorem keys (h : Represents conf sm held) : sm.addrs.map Prod.fst = held := by
  refine List.ext_getElem (by simp [h.length]) (fun n h₁ h₂ ↦ ?_)
  simp only [h.addrs, List.getElem_map, sessions, List.getElem_zipWith]

theorem getElem? (h : Represents conf sm held) {n : ℕ} : held[n]? = (sm.addrs[n]?).map Prod.fst := by
  rw [← List.getElem?_map, h.keys]

theorem nodup (h : Represents conf sm held) : (held.map clientPort).Nodup := by
  refine List.nodup_iff_injective_get.mpr (fun i j he ↦ ?_)
  have hkey : ∀ i : Fin (held.map clientPort).length, ∃ a, sm.addrs[i.1]? = some a ∧
      a.1.1.port_ = (held.map clientPort).get i := by
    intro i
    have hi : i.1 < held.length := by simpa using i.2
    have hg := h.getElem? (n := i.1)
    rw [List.getElem?_eq_getElem hi] at hg
    obtain ⟨a, ha, hk⟩ := Option.map_eq_some_iff.mp hg.symm
    exact ⟨a, ha, by simp [clientPort, ← hk]⟩
  obtain ⟨a, ha, hpa⟩ := hkey i
  obtain ⟨b, hb, hpb⟩ := hkey j
  exact Fin.ext (h.coherent.port_unique ha hb (hpa.trans (he.trans hpb.symm)))

theorem find64 (h : Represents conf sm held) (key : Key64) :
    Allotment.place clientPort held key = sm.map64_.find? key := by
  refine Option.ext (fun f ↦ ?_)
  rw [Allotment.place_eq_some h.nodup]
  constructor
  · rintro ⟨k, hk, hport⟩
    rw [h.getElem?] at hk
    obtain ⟨a, ha, rfl⟩ := Option.map_eq_some_iff.mp hk
    rw [sm.map64_.find?_congr (equiv64.mpr hport.symm)]
    exact h.coherent.find64 ha
  · intro hf
    obtain ⟨a, ha, hport⟩ := h.coherent.of_find64 hf
    exact ⟨a.1, by rw [h.getElem?, ha]; rfl, hport⟩

theorem find46 (h : Represents conf sm held) (key : Key46) :
    (sessions conf.pool held).find? (fun a ↦ a.2 = key) = (sm.map46_.find? key).map (fun f ↦ (sm.flowAt f).addr) := by
  rw [← h.addrs]
  cases hf : sm.map46_.find? key with
  | none =>
    rw [Option.map_none, List.find?_eq_none]
    intro a ha hk
    obtain ⟨f, hf'⟩ := List.getElem?_of_mem ha
    have hk : a.2 = key := by simpa using hk
    rw [← hk, h.coherent.find46 hf'] at hf
    cases hf
  | some f =>
    obtain ⟨a, ha, hk⟩ := h.coherent.of_find46 hf
    rw [Option.map_some, flowAt_addr ha]
    cases hb : sm.addrs.find? (fun a ↦ a.2 = key) with
    | none => exact absurd hk (by simpa using List.find?_eq_none.mp hb a (List.mem_of_getElem? ha))
    | some b =>
      obtain ⟨g, hg⟩ := List.getElem?_of_mem (List.mem_of_find?_eq_some hb)
      have hbk : b.2 = key := by simpa using List.find?_some hb
      have hfind := h.coherent.find46 hg
      rw [hbk, hf] at hfind
      obtain rfl := Option.some.inj hfind
      exact hg.symm.trans ha

theorem endpoint (h : Represents conf sm held) {f : ℕ} (hf : f < held.length) :
    conf.pool[f]? = some (sm.flowAt f).ip4p := by
  have hr := h.room
  have ha := sm.addrs_getElem? (f := f) (by rw [h.length]; exact hf)
  have hs : sm.addrs[f]? = some (held[f], (conf.pool[f], getServerAddr4 held[f].2)) := by
    rw [h.addrs, sessions]
    simp [List.getElem?_zipWith, List.getElem?_eq_getElem hf,
      List.getElem?_eq_getElem (show f < conf.pool.length by omega)]
  rw [List.getElem?_eq_getElem (by omega)]
  have he := Option.some.inj (hs.symm.trans ha)
  exact congrArg (fun a : Key64 × Key46 ↦ some a.2.1) he

theorem of_addrs (h : Represents conf sm held) (hc : Coherent conf.ips sm') (ha : sm'.addrs = sm.addrs)
    (hp : sm'.pool_ = sm.pool_) : Represents conf sm' held :=
  ⟨hc, ha.trans h.addrs, hp.trans h.pool, h.room⟩

theorem doMapping (h : Represents conf sm held) (hips : conf.ips.Nodup) {k : IP6Port} {srv : IPv6Addr} {r : FlowPtr}
    (hd : sm.doMapping k srv = (r, sm')) :
    (∃ f held', r = some f ∧ Represents conf sm' held' ∧ nat64 conf.pool held (.client (k, srv)) =
      some (.toServer (sm'.flowAt f).ip4p, held') ∧ f < held'.length) ∨
    r = none ∧ nat64 conf.pool held (.client (k, srv)) = none := by
  have hplace := h.find64 (k, srv)
  have hlen : sm.addrs.length = held.length := (length_addrs sm).trans h.length
  rcases doMapping_cases hd with ⟨f, hf, rfl, rfl⟩ | ⟨e, pool, hf, hp, rfl, rfl⟩ | ⟨hf, hp, rfl, rfl⟩
  · have hlt : f < held.length := by
      obtain ⟨a, ha, -⟩ := h.coherent.of_find64 hf
      exact hlen ▸ (List.getElem?_eq_some_iff.mp ha).1
    refine .inl ⟨f, held, rfl, h, ?_, hlt⟩
    simp only [nat64, Allotment.allot, hplace, hf, h.endpoint hlt, Option.map_some]
  · have hroom : held.length < conf.pool.length := by
      have hp' := congrArg List.length (hp.symm.trans h.pool)
      rw [List.length_cons, List.length_drop] at hp'
      omega
    have hpool : conf.pool[held.length]? = some e := by
      have hp' := congrArg List.head? (hp.symm.trans h.pool)
      rw [List.head?_cons, List.head?_drop] at hp'
      exact hp'.symm
    have hnew : Represents conf (sm.create (k, srv) e pool) (held ++ [(k, srv)]) := by
      refine ⟨h.coherent.create hf hp (nodup_pools hips), ?_, ?_, by simp; omega⟩
      · rw [create_addrs, h.addrs, sessions_concat _ hpool]
      · have hp' := congrArg List.tail (hp.symm.trans h.pool)
        rw [List.tail_cons, List.tail_drop] at hp'
        rw [create_pool, hp', List.length_append, List.length_singleton]
    refine .inl ⟨_, _, rfl, hnew, ?_, by simp [h.length]⟩
    have he := hnew.endpoint (f := held.length) (by simp)
    unfold nat64 Allotment.allot
    dsimp only
    rw [hplace, hf]
    dsimp only
    rw [if_pos hroom, h.length]
    dsimp only
    rw [he, Option.map_some]
  · refine .inr ⟨rfl, ?_⟩
    have hroom : ¬held.length < conf.pool.length := by
      have hp' := congrArg List.length (hp.symm.trans h.pool)
      rw [List.length_nil, List.length_drop] at hp'
      omega
    simp only [nat64, Allotment.allot, hplace, hf, if_neg hroom]

theorem getMapping4 (h : Represents conf sm held) (e : IP4Port) (srv : IPv4Addr) :
    nat64 conf.pool held (.server (e, srv)) = some (match sm.getMapping4 e srv with
      | some f => .toClient (sm.flowAt f).ip6p
      | none => .nothing, held) := by
  have hfind := h.find46 (e, srv)
  simp only [nat64, hfind, StateManager.getMapping4]
  cases sm.map46_.find? (e, srv) with
  | none => rfl
  | some f => rfl

end Represents

theorem Represents.configured (conf : Conf) (extra : EXTRAType) (protocols : OrderedMap String Protocol nameLt) :
    Represents conf (configured conf.prefix_ extra protocols conf.ips : StateManager σ) [] := by
  have hheap := configured_heap (σ := σ) conf.prefix_ extra protocols conf.ips
  refine ⟨coherent_configured _ _ _ _, by simp [StateManager.addrs, hheap, sessions], ?_, Nat.zero_le _⟩
  rw [List.length_nil, List.drop_zero]
  unfold Conf.pool
  generalize conf.ips = ips
  clear hheap
  induction ips using List.reverseRecOn with
  | nil => rfl
  | append_singleton ips ip ih =>
    rw [StateManager.configured, List.foldl_append, ← StateManager.configured, List.flatMap_append]
    simp only [List.foldl_cons, List.foldl_nil, addIPv4Pool, ih]
    simp

end Nat64Alg
