import Nat64Alg.State
import Nat64Alg.Lib.Run
import Mathlib.Data.List.Induction
import Mathlib.Data.List.Nodup

namespace Nat64Alg

open Lib

variable {σ : Type}

def Flow.addr (f : Flow σ) : Key64 × Key46 := ((f.ip6p, f.ip6srv), (f.ip4p, f.ip4srv))

namespace StateManager

theorem equiv64 {p q : Key64} :
    equiv (pairLt IP6Port.lt IPv6Addr.lt) p q = true ↔ p.1.port_ = q.1.port_ := by
  rw [OrderedMap.equiv_pair, Bool.and_eq_true, IP6Port.equiv_iff]
  simp [IPv6Addr.equiv_all]

theorem equiv46 {p q : Key46} : equiv (pairLt IP4Port.lt IPv4Addr.lt) p q = true ↔ p = q := by
  rw [OrderedMap.equiv_pair, Bool.and_eq_true, IP4Port.equiv_iff, IPv4Addr.equiv_iff, Prod.ext_iff]

theorem equiv44 {p q : Key44} : equiv (pairLt IP4Port.lt IP4Port.lt) p q = true ↔ p = q := by
  rw [OrderedMap.equiv_pair, Bool.and_eq_true, IP4Port.equiv_iff, IP4Port.equiv_iff, Prod.ext_iff]

theorem doMapping_cases {sm sm' : StateManager σ} {k : IP6Port} {srv : IPv6Addr} {r : FlowPtr}
    (h : sm.doMapping k srv = (r, sm')) :
    (∃ f, sm.map64_.find? (k, srv) = some f ∧ r = some f ∧ sm' = sm) ∨
    (∃ e pool, sm.map64_.find? (k, srv) = none ∧ sm.pool_ = e :: pool ∧ r = some sm.heap.length ∧
      sm' = sm.create (k, srv) e pool) ∨
    (sm.map64_.find? (k, srv) = none ∧ sm.pool_ = [] ∧ r = none ∧ sm' = sm) := by
  unfold doMapping at h
  split at h
  case h_1 f hf =>
    cases h
    exact .inl ⟨f, hf, rfl, rfl⟩
  case h_2 hf =>
    split at h
    case h_1 e pool hp =>
      cases h
      exact .inr (.inl ⟨e, pool, hf, hp, rfl, rfl⟩)
    case h_2 hp =>
      cases h
      exact .inr (.inr ⟨hf, hp, rfl, rfl⟩)

def addrs (sm : StateManager σ) : List (Key64 × Key46) := sm.heap.map Flow.addr

@[simp] theorem length_addrs (sm : StateManager σ) : sm.addrs.length = sm.heap.length := by
  simp [addrs]

theorem addrs_getElem? (sm : StateManager σ) {f : ℕ} (hf : f < sm.heap.length) :
    sm.addrs[f]? = some (sm.flowAt f).addr := by
  simp [addrs, flowAt, hf]

theorem flowAt_addr {sm : StateManager σ} {f : ℕ} {a : Key64 × Key46} (h : sm.addrs[f]? = some a) :
    (sm.flowAt f).addr = a := by
  have hf : f < sm.heap.length := by simpa using (List.getElem?_eq_some_iff.mp h).1
  exact Option.some.inj ((sm.addrs_getElem? hf).symm.trans h)

@[simp] theorem create_pool (sm : StateManager σ) (k : Key64) (e : IP4Port) (pool : List IP4Port) :
    (sm.create k e pool).pool_ = pool := rfl

theorem create_addrs (sm : StateManager σ) (k : Key64) (e : IP4Port) (pool : List IP4Port) :
    (sm.create k e pool).addrs = sm.addrs ++ [(k, (e, getServerAddr4 k.2))] := by
  simp [addrs, create, Flow.addr, Flow.new]

theorem mem_zipIdx_perm {A K : Type} (key : A → K) {l : List A} {entries : List (K × ℕ)}
    (h : entries.Perm (l.zipIdx.map (fun e ↦ (key e.1, e.2)))) {k : K} {f : ℕ} :
    (k, f) ∈ entries ↔ ∃ a, l[f]? = some a ∧ key a = k := by
  rw [h.mem_iff, List.mem_map]
  constructor
  · rintro ⟨⟨a, g⟩, hm, he⟩
    cases he
    exact ⟨a, List.mem_zipIdx_iff_getElem?.mp hm, rfl⟩
  · rintro ⟨a, ha, rfl⟩
    exact ⟨(a, f), List.mem_zipIdx_iff_getElem?.mpr ha, rfl⟩

/-- Both tables list exactly the flows allocated so far, each once and under its
own key, and no IPv4 endpoint of the configured addresses is lost or held twice. -/
structure Coherent (ips : List IPv4Addr) (sm : StateManager σ) : Prop where
  table64 : sm.map64_.entries.Perm (sm.addrs.zipIdx.map (fun e ↦ (e.1.1, e.2)))
  table46 : sm.map46_.entries.Perm (sm.addrs.zipIdx.map (fun e ↦ (e.1.2, e.2)))
  server : ∀ a ∈ sm.addrs, a.2.2 = getServerAddr4 a.1.2
  pool : (sm.pool_ ++ sm.addrs.map (fun a ↦ a.2.1)).Perm (ips.flatMap poolOf)

namespace Coherent

variable {ips : List IPv4Addr} {sm : StateManager σ}

theorem mem64 (h : Coherent ips sm) {k : Key64} {f : ℕ} :
    (k, f) ∈ sm.map64_.entries ↔ ∃ a, sm.addrs[f]? = some a ∧ a.1 = k := mem_zipIdx_perm Prod.fst h.table64

theorem mem46 (h : Coherent ips sm) {k : Key46} {f : ℕ} :
    (k, f) ∈ sm.map46_.entries ↔ ∃ a, sm.addrs[f]? = some a ∧ a.2 = k := mem_zipIdx_perm Prod.snd h.table46

theorem find64 (h : Coherent ips sm) {a : Key64 × Key46} {f : ℕ} (ha : sm.addrs[f]? = some a) :
    sm.map64_.find? a.1 = some f :=
  OrderedMap.find?_of_mem (h.mem64.mpr ⟨a, ha, rfl⟩)

theorem find46 (h : Coherent ips sm) {a : Key64 × Key46} {f : ℕ} (ha : sm.addrs[f]? = some a) :
    sm.map46_.find? a.2 = some f :=
  OrderedMap.find?_of_mem (h.mem46.mpr ⟨a, ha, rfl⟩)

theorem of_find64 (h : Coherent ips sm) {k : Key64} {f : ℕ} (hk : sm.map64_.find? k = some f) :
    ∃ a, sm.addrs[f]? = some a ∧ a.1.1.port_ = k.1.port_ := by
  obtain ⟨k', he, hm⟩ := OrderedMap.mem_of_find? hk
  obtain ⟨a, ha, rfl⟩ := h.mem64.mp hm
  exact ⟨a, ha, (equiv64.mp he).symm⟩

theorem of_find46 (h : Coherent ips sm) {k : Key46} {f : ℕ} (hk : sm.map46_.find? k = some f) :
    ∃ a, sm.addrs[f]? = some a ∧ a.2 = k := by
  obtain ⟨k', he, hm⟩ := OrderedMap.mem_of_find? hk
  rw [equiv46.mp he]
  exact h.mem46.mp hm

theorem getMapping6_iff (h : Coherent ips sm) {k : IP6Port} {srv : IPv6Addr} {f : ℕ} :
    sm.getMapping6 k srv = some f ↔ f < sm.heap.length ∧ (sm.flowAt f).ip6p.port_ = k.port_ := by
  constructor
  · intro hk
    obtain ⟨a, ha, hport⟩ := h.of_find64 hk
    have hlt := (List.getElem?_eq_some_iff.mp ha).1
    have haddr := flowAt_addr ha
    rw [length_addrs] at hlt
    exact ⟨hlt, (congrArg (fun a : Key64 × Key46 ↦ a.1.1.port_) haddr).trans hport⟩
  · rintro ⟨hf, hport⟩
    have hfind := h.find64 (sm.addrs_getElem? hf)
    exact (sm.map64_.find?_congr (equiv64.mpr hport.symm)).trans hfind

theorem getMapping4_iff (h : Coherent ips sm) {e : IP4Port} {srv : IPv4Addr} {f : ℕ} :
    sm.getMapping4 e srv = some f ↔
      f < sm.heap.length ∧ (sm.flowAt f).ip4p = e ∧ (sm.flowAt f).ip4srv = srv := by
  constructor
  · intro hk
    obtain ⟨a, ha, hkey⟩ := h.of_find46 hk
    have haddr := (congrArg Prod.snd (flowAt_addr ha)).trans hkey
    have hlt := (List.getElem?_eq_some_iff.mp ha).1
    rw [length_addrs] at hlt
    exact ⟨hlt, congrArg Prod.fst haddr, congrArg Prod.snd haddr⟩
  · rintro ⟨hf, rfl, rfl⟩
    have hfind := h.find46 (sm.addrs_getElem? hf)
    exact hfind

theorem port_unique (h : Coherent ips sm) {a b : Key64 × Key46} {f g : ℕ}
    (ha : sm.addrs[f]? = some a) (hb : sm.addrs[g]? = some b) (he : a.1.1.port_ = b.1.1.port_) :
    f = g := by
  have hf := h.find64 ha
  rw [sm.map64_.find?_congr (equiv64.mpr he), h.find64 hb] at hf
  exact (Option.some.inj hf).symm

theorem create (h : Coherent ips sm) {k : Key64} {e : IP4Port} {pool : List IP4Port}
    (hk : sm.map64_.find? k = none) (hp : sm.pool_ = e :: pool) (hips : (ips.flatMap poolOf).Nodup) :
    Coherent ips (sm.create k e pool) := by
  have haddrs := create_addrs sm k e pool
  have hnew : sm.map46_.find? (e, getServerAddr4 k.2) = none := by
    by_contra hsome
    obtain ⟨f, hf⟩ := Option.ne_none_iff_exists'.mp hsome
    obtain ⟨a, ha, he⟩ := h.of_find46 hf
    have hnodup := h.pool.nodup_iff.mpr hips
    rw [hp, List.cons_append, List.nodup_cons] at hnodup
    refine hnodup.1 (List.mem_append_right _ (List.mem_map.mpr ⟨a, List.mem_of_getElem? ha, ?_⟩))
    rw [he]
  have hzip : (sm.addrs ++ [(k, (e, getServerAddr4 k.2))]).zipIdx =
      sm.addrs.zipIdx ++ [((k, (e, getServerAddr4 k.2)), sm.heap.length)] := by
    simp [List.zipIdx_append]
  constructor
  · rw [haddrs, hzip, List.map_append]
    exact (OrderedMap.perm_insert _ hk).trans ((h.table64.cons _).trans (List.perm_append_singleton _ _).symm)
  · rw [haddrs, hzip, List.map_append]
    exact (OrderedMap.perm_insert _ hnew).trans ((h.table46.cons _).trans (List.perm_append_singleton _ _).symm)
  · rw [haddrs]
    intro a ha
    rcases List.mem_append.mp ha with ha | ha
    · exact h.server a ha
    · rw [List.mem_singleton.mp ha]
  · rw [haddrs, List.map_append]
    have hpool := h.pool
    rw [hp] at hpool
    rw [← List.append_assoc]
    exact (List.perm_append_singleton _ _).trans hpool

theorem doMapping {sm' : StateManager σ} {k : IP6Port} {srv : IPv6Addr} {r : FlowPtr}
    (h : Coherent ips sm) (hips : (ips.flatMap poolOf).Nodup) (hd : sm.doMapping k srv = (r, sm')) :
    Coherent ips sm' := by
  rcases doMapping_cases hd with ⟨f, -, -, rfl⟩ | ⟨e, pool, hk, hp, -, rfl⟩ | ⟨-, -, -, rfl⟩
  · exact h
  · exact h.create hk hp hips
  · exact h

theorem addIPv4Pool {ip : IPv4Addr} (h : Coherent ips sm) (hempty : sm.heap = []) :
    Coherent (ips ++ [ip]) (sm.addIPv4Pool ip) := by
  have ha : sm.addrs = [] := by simp [addrs, hempty]
  obtain ⟨h64, h46, hsrv, hpool⟩ := h
  have ha' : (sm.addIPv4Pool ip).addrs = [] := ha
  rw [ha] at h64 h46 hsrv hpool
  refine ⟨by rwa [ha'], by rwa [ha'], by rwa [ha'], ?_⟩
  rw [ha', List.flatMap_append]
  simpa [StateManager.addIPv4Pool] using hpool.append_right (poolOf ip)

end Coherent

/-- The state after one `addIPv4Pool` call for each address. -/
def configured (prefix_ : IPv6Addr) (extra : EXTRAType)
    (protocols : OrderedMap String Protocol nameLt) (ips : List IPv4Addr) : StateManager σ :=
  ips.foldl addIPv4Pool (start prefix_ extra protocols)

/-- The prefix, pool and protocols of `example.conf`. -/
def exampleConf : StateManager σ :=
  configured ⟨⟨ntohl 0x20030000, 0, 0, 0⟩⟩ .NONE
    (OrderedMap.empty.insert "http" { ptype_c2s := .NONE }) [⟨ntohl 0x0a141e28⟩]

theorem configured_eq (prefix_ : IPv6Addr) (extra : EXTRAType)
    (protocols : OrderedMap String Protocol nameLt) (ips : List IPv4Addr) :
    ∃ pool map_pool, (configured prefix_ extra protocols ips : StateManager σ) =
      { start prefix_ extra protocols with pool_ := pool, map_pool_ := map_pool } := by
  induction ips using List.reverseRecOn with
  | nil => exact ⟨_, _, rfl⟩
  | append_singleton ips ip ih =>
    obtain ⟨pool, map_pool, he⟩ := ih
    rw [configured, List.foldl_append, ← configured, he]
    exact ⟨_, _, rfl⟩

theorem configured_heap (prefix_ : IPv6Addr) (extra : EXTRAType)
    (protocols : OrderedMap String Protocol nameLt) (ips : List IPv4Addr) :
    (configured prefix_ extra protocols ips : StateManager σ).heap = [] := by
  obtain ⟨_, _, he⟩ := configured_eq (σ := σ) prefix_ extra protocols ips
  rw [he]
  rfl

theorem configured_mode (prefix_ : IPv6Addr) (extra : EXTRAType)
    (protocols : OrderedMap String Protocol nameLt) (ips : List IPv4Addr) :
    (configured prefix_ extra protocols ips : StateManager σ).analysisMode = false := by
  obtain ⟨_, _, he⟩ := configured_eq (σ := σ) prefix_ extra protocols ips
  rw [he]
  rfl

theorem configured_extra (prefix_ : IPv6Addr) (extra : EXTRAType)
    (protocols : OrderedMap String Protocol nameLt) (ips : List IPv4Addr) :
    (configured prefix_ extra protocols ips : StateManager σ).extra = extra := by
  obtain ⟨_, _, he⟩ := configured_eq (σ := σ) prefix_ extra protocols ips
  rw [he]
  rfl

theorem coherent_configured (prefix_ : IPv6Addr) (extra : EXTRAType)
    (protocols : OrderedMap String Protocol nameLt) (ips : List IPv4Addr) :
    Coherent ips (configured prefix_ extra protocols ips : StateManager σ) := by
  induction ips using List.reverseRecOn with
  | nil => exact ⟨.nil, .nil, by simp [configured, start, addrs], .nil⟩
  | append_singleton ips ip ih =>
    rw [configured, List.foldl_append]
    exact ih.addIPv4Pool (configured_heap prefix_ extra protocols ips)

theorem exampleConf_pool_ne : (exampleConf : StateManager σ).pool_ ≠ [] := by
  simp [exampleConf, configured, addIPv4Pool, start, poolOf, MIN_PORT, MAX_PORT]

theorem mem_poolOf {ip : IPv4Addr} {e : IP4Port} :
    e ∈ poolOf ip ↔ ∃ p, MIN_PORT ≤ p ∧ p ≤ MAX_PORT ∧ e = ⟨ip, ntohs (UInt16.ofNat p)⟩ := by
  simp only [poolOf, List.mem_map, List.mem_range'_1, MIN_PORT, MAX_PORT]
  constructor
  · rintro ⟨p, hp, rfl⟩
    exact ⟨p, by omega, by omega, rfl⟩
  · rintro ⟨p, h, h', rfl⟩
    exact ⟨p, by omega, rfl⟩

theorem nodup_poolOf (ip : IPv4Addr) : (poolOf ip).Nodup := by
  refine List.Nodup.map_on ?_ List.nodup_range'
  intro p hp q hq h
  simp only [List.mem_range'_1, MIN_PORT, MAX_PORT] at hp hq
  simp only [IP4Port.mk.injEq, true_and, ntohs_inj] at h
  have hn := congrArg UInt16.toNat h
  simp only [UInt16.toNat_ofNat'] at hn
  omega

theorem nodup_pools {ips : List IPv4Addr} (h : ips.Nodup) : (ips.flatMap poolOf).Nodup := by
  refine List.nodup_flatMap.mpr ⟨fun ip _ ↦ nodup_poolOf ip, h.imp ?_⟩
  intro ip ip' hne e he he'
  obtain ⟨p, -, -, rfl⟩ := mem_poolOf.mp he
  obtain ⟨p', -, -, heq⟩ := mem_poolOf.mp he'
  exact hne (congrArg IP4Port.ip_ heq)

theorem doMapping_extends {sm sm' : StateManager σ} {k : IP6Port} {srv : IPv6Addr} {r : FlowPtr}
    (h : sm.doMapping k srv = (r, sm')) : sm.addrs <+: sm'.addrs := by
  rcases doMapping_cases h with ⟨f, -, -, rfl⟩ | ⟨e, pool, -, -, -, rfl⟩ | ⟨-, -, -, rfl⟩
  · exact List.prefix_rfl
  · rw [create_addrs]
    exact List.prefix_append _ _
  · exact List.prefix_rfl

theorem getElem?_of_extends {sm sm' : StateManager σ} (h : sm.addrs <+: sm'.addrs)
    {f : ℕ} {a : Key64 × Key46} (ha : sm.addrs[f]? = some a) : sm'.addrs[f]? = some a := by
  obtain ⟨l, hl⟩ := h
  rw [← hl, List.getElem?_append_left (List.getElem?_eq_some_iff.mp ha).1, ha]

theorem doMapping_some {ips : List IPv4Addr} {sm sm' : StateManager σ} {k : IP6Port} {srv : IPv6Addr}
    {f : ℕ} (hc : Coherent ips sm) (h : sm.doMapping k srv = (some f, sm')) :
    ∃ a, sm'.addrs[f]? = some a ∧ a.1.1.port_ = k.port_ := by
  rcases doMapping_cases h with ⟨g, hg, he, rfl⟩ | ⟨e, pool, -, -, he, rfl⟩ | ⟨-, -, he, -⟩
  · cases he
    exact hc.of_find64 hg
  · cases he
    exact ⟨(((k, srv) : Key64), (e, getServerAddr4 srv)), by simp [create_addrs], rfl⟩
  · cases he

theorem find64_create (sm : StateManager σ) (k : Key64) (e : IP4Port) (pool : List IP4Port) (q : Key64) :
    (sm.create k e pool).map64_.find? q =
      if q.1.port_ = k.1.port_ then some sm.heap.length else sm.map64_.find? q := by
  refine (sm.map64_.find?_insert k q sm.heap.length).trans ?_
  simp only [equiv64]

theorem getMapping6_create (sm : StateManager σ) (k : Key64) (e : IP4Port) (pool : List IP4Port) (k' : IP6Port)
    (srv : IPv6Addr) : (sm.create k e pool).getMapping6 k' srv =
      if k'.port_ = k.1.port_ then some sm.heap.length else sm.getMapping6 k' srv :=
  sm.find64_create k e pool (k', srv)

theorem doMapping_find {sm sm' : StateManager σ} {k : IP6Port} {srv : IPv6Addr} {f : ℕ}
    (h : sm.doMapping k srv = (some f, sm')) : sm'.getMapping6 k srv = some f := by
  rcases doMapping_cases h with ⟨g, hg, he, rfl⟩ | ⟨e, pool, -, -, he, rfl⟩ | ⟨-, -, he, -⟩
  · rw [he]
    exact hg
  · rw [getMapping6_create, if_pos rfl, he]
  · cases he

inductive MapOp
  | doMapping (ip6Port : IP6Port) (ip6srv : IPv6Addr)
  | getMapping6 (ip6Port : IP6Port) (ip6srv : IPv6Addr)
  | getMapping4 (ip4Port : IP4Port) (ip4srv : IPv4Addr)
deriving DecidableEq

def exec (sm : StateManager σ) : MapOp → FlowPtr × StateManager σ
  | .doMapping k srv => sm.doMapping k srv
  | .getMapping6 k srv => (sm.getMapping6 k srv, sm)
  | .getMapping4 k srv => (sm.getMapping4 k srv, sm)

def MapStep (sm : StateManager σ) (l : MapOp × FlowPtr) (sm' : StateManager σ) : Prop :=
  sm.exec l.1 = (l.2, sm')

theorem coherent_run {ips : List IPv4Addr} (hips : ips.Nodup) {sm sm' : StateManager σ}
    {ls : List (MapOp × FlowPtr)} (h : Run MapStep sm ls sm') (hc : Coherent ips sm) :
    Coherent ips sm' := by
  refine h.invariant ?_ hc
  rintro s ⟨op, r⟩ s' hs hstep
  cases op with
  | doMapping k srv => exact hs.doMapping (nodup_pools hips) hstep
  | getMapping6 k srv => exact (Prod.mk.inj hstep).2 ▸ hs
  | getMapping4 k srv => exact (Prod.mk.inj hstep).2 ▸ hs

theorem extends_run {sm sm' : StateManager σ} {ls : List (MapOp × FlowPtr)}
    (h : Run MapStep sm ls sm') : sm.addrs <+: sm'.addrs := by
  refine h.invariant (I := fun s ↦ sm.addrs <+: s.addrs) ?_ List.prefix_rfl
  rintro s ⟨op, r⟩ s' hs hstep
  cases op with
  | doMapping k srv => exact hs.trans (doMapping_extends hstep)
  | getMapping6 k srv => exact (Prod.mk.inj hstep).2 ▸ hs
  | getMapping4 k srv => exact (Prod.mk.inj hstep).2 ▸ hs

end StateManager

end Nat64Alg
