import Nat64Alg.Tables

namespace Nat64Alg.StateManager

open Lib

variable {σ : Type} {ips : List IPv4Addr} {sm sm' : StateManager σ}

theorem Coherent.held (h : Coherent ips sm) :
    (sm.map64_.entries.map (fun e ↦ (sm.flowAt e.2).ip4p)).Perm (sm.addrs.map (fun a ↦ a.2.1)) := by
  refine (h.table64.map _).trans (List.Perm.of_eq ?_)
  rw [List.map_map]
  refine List.ext_getElem (by simp) (fun n h₁ h₂ ↦ ?_)
  have hn := List.getElem?_eq_getElem (l := sm.addrs) (i := n) (by simpa using h₂)
  simpa [Flow.addr] using congrArg (fun a : Key64 × Key46 ↦ a.2.1) (flowAt_addr hn)

theorem Coherent.ip4p_unique (h : Coherent ips sm) (hips : ips.Nodup) {a b : Key64 × Key46} {f g : ℕ}
    (ha : sm.addrs[f]? = some a) (hb : sm.addrs[g]? = some b) (he : a.2.1 = b.2.1) : f = g := by
  have hnodup := (List.nodup_append.mp (h.pool.nodup_iff.mpr (nodup_pools hips))).2.1
  obtain ⟨hf, rfl⟩ := List.getElem?_eq_some_iff.mp ha
  obtain ⟨hg, rfl⟩ := List.getElem?_eq_some_iff.mp hb
  exact (@List.Nodup.getElem_inj_iff _ _ hnodup _ (by simpa using hf) _ (by simpa using hg)).mp (by simpa using he)

/-- The tables stay in bijection and the pool is conserved, over every run of calls. -/
theorem tables_conserved {prefix_ : IPv6Addr} {extra : EXTRAType}
    {protocols : OrderedMap String Protocol nameLt} (hips : ips.Nodup) {ls : List (MapOp × FlowPtr)}
    (h : Run MapStep (configured prefix_ extra protocols ips) ls sm) :
    (∀ k f, (k, f) ∈ sm.map64_.entries →
      k = ((sm.flowAt f).ip6p, (sm.flowAt f).ip6srv) ∧
      (((sm.flowAt f).ip4p, (sm.flowAt f).ip4srv), f) ∈ sm.map46_.entries ∧
      (sm.flowAt f).ip4srv.ip_ = (sm.flowAt f).ip6srv.ip_.w₃) ∧
    (∀ k f, (k, f) ∈ sm.map46_.entries →
      k = ((sm.flowAt f).ip4p, (sm.flowAt f).ip4srv) ∧
      (((sm.flowAt f).ip6p, (sm.flowAt f).ip6srv), f) ∈ sm.map64_.entries) ∧
    (sm.map64_.entries.map Prod.snd).Nodup ∧ (sm.map46_.entries.map Prod.snd).Nodup ∧
    (sm.pool_ ++ sm.map64_.entries.map (fun e ↦ (sm.flowAt e.2).ip4p)).Nodup ∧
    (∀ e, e ∈ sm.pool_ ++ sm.map64_.entries.map (fun e ↦ (sm.flowAt e.2).ip4p) ↔
      ∃ ip ∈ ips, ∃ p, MIN_PORT ≤ p ∧ p ≤ MAX_PORT ∧ e = ⟨ip, ntohs (UInt16.ofNat p)⟩) ∧
    (∀ pre k srv f post, ls = pre ++ (.doMapping k srv, some f) :: post →
      sm.getMapping6 (sm.flowAt f).ip6p (sm.flowAt f).ip6srv = some f ∧
      sm.getMapping4 (sm.flowAt f).ip4p (sm.flowAt f).ip4srv = some f) := by
  have h₀ := coherent_configured (σ := σ) prefix_ extra protocols ips
  have hc := coherent_run hips h h₀
  have hpool := ((List.Perm.refl sm.pool_).append hc.held).trans hc.pool
  refine ⟨?_, ?_, ?_, ?_, hpool.nodup_iff.mpr (nodup_pools hips), ?_, ?_⟩
  · intro k f hm
    obtain ⟨a, ha, rfl⟩ := hc.mem64.mp hm
    have hf := flowAt_addr ha
    have hsrv := hc.server a (List.mem_of_getElem? ha)
    rw [← hf] at ha hsrv
    exact ⟨by rw [← hf]; rfl, hc.mem46.mpr ⟨_, ha, rfl⟩, congrArg IPv4Addr.ip_ hsrv⟩
  · intro k f hm
    obtain ⟨a, ha, rfl⟩ := hc.mem46.mp hm
    have hf := flowAt_addr ha
    rw [← hf] at ha
    exact ⟨by rw [← hf]; rfl, hc.mem64.mpr ⟨_, ha, rfl⟩⟩
  · rw [(hc.table64.map Prod.snd).nodup_iff, List.map_map]
    simpa [Function.comp_def] using List.nodup_range' (s := 0) (n := sm.addrs.length)
  · rw [(hc.table46.map Prod.snd).nodup_iff, List.map_map]
    simpa [Function.comp_def] using List.nodup_range' (s := 0) (n := sm.addrs.length)
  · intro e
    rw [hpool.mem_iff, List.mem_flatMap]
    simp only [mem_poolOf]
  · rintro pre k srv f post rfl
    obtain ⟨s, t, hs, hstep, ht⟩ := h.at_label
    obtain ⟨a, ha, -⟩ := doMapping_some (coherent_run hips hs h₀) hstep
    have ha' := getElem?_of_extends (extends_run ht) ha
    have h64 := hc.find64 ha'
    have h46 := hc.find46 ha'
    rw [← flowAt_addr ha'] at h64 h46
    exact ⟨h64, h46⟩

def poolSize : ℕ := MAX_PORT + 1 - MIN_PORT

theorem length_poolOf (ip : IPv4Addr) : (poolOf ip).length = poolSize := by
  simp [poolOf, poolSize]

/-- The client ports a pool of one address has room for, in order of first use. -/
def serve (seen : List UInt16) : MapOp → List UInt16
  | .doMapping k _ => if k.port_ ∈ seen ∨ poolSize ≤ seen.length then seen else seen ++ [k.port_]
  | .getMapping6 _ _ | .getMapping4 _ _ => seen

def servedPorts (ops : List MapOp) : List UInt16 := ops.foldl serve []

/-- No client port with room in the pool is used with two different keys. -/
def OneKeyPerPort (ops : List MapOp) : Prop :=
  ∀ k srv k' srv', .doMapping k srv ∈ ops → .doMapping k' srv' ∈ ops → k.port_ = k'.port_ →
    k.port_ ∈ servedPorts ops → (k, srv) = (k', srv')

/-- Each successful call has the flow of its own key, and no two keys share an IPv4 endpoint. -/
def BindingIsolated (sm : StateManager σ) (ls : List (MapOp × FlowPtr)) : Prop :=
  (∀ k srv f k' srv' f', (.doMapping k srv, some f) ∈ ls → (.doMapping k' srv', some f') ∈ ls →
    (f = f' ↔ (k, srv) = (k', srv')) ∧
    ((sm.flowAt f).ip4p = (sm.flowAt f').ip4p → (k, srv) = (k', srv'))) ∧
  ∀ k srv f, (.doMapping k srv, some f) ∈ ls →
    (sm.flowAt f).ip6p = k ∧ (sm.flowAt f).ip6srv = srv

/-- What a run of calls says about its final tables: every answer still stands,
and every flow was made for some call's key. -/
structure Answered (ls : List (MapOp × FlowPtr)) (sm : StateManager σ) : Prop where
  ports : sm.addrs.map (fun a ↦ a.1.1.port_) = servedPorts (ls.map Prod.fst)
  room : sm.pool_.length + sm.addrs.length = poolSize
  answer : ∀ k srv r, (.doMapping k srv, r) ∈ ls → r = sm.map64_.find? (k, srv)
  refused : ∀ k srv, (.doMapping k srv, none) ∈ ls → sm.pool_ = []
  made : ∀ a ∈ sm.addrs, ∃ r, (.doMapping a.1.1 a.1.2, r) ∈ ls

theorem find64_congr (sm : StateManager σ) {p q : Key64} (h : p.1.port_ = q.1.port_) :
    sm.map64_.find? p = sm.map64_.find? q :=
  sm.map64_.find?_congr (equiv64.mpr h)

theorem Coherent.port_mem (hc : Coherent ips sm) {k : Key64} :
    k.1.port_ ∈ sm.addrs.map (fun a ↦ a.1.1.port_) ↔ (sm.map64_.find? k).isSome := by
  rw [List.mem_map, Option.isSome_iff_exists]
  constructor
  · rintro ⟨a, ha, he⟩
    obtain ⟨f, hf⟩ := List.getElem?_of_mem ha
    exact ⟨f, sm.find64_congr he ▸ hc.find64 hf⟩
  · rintro ⟨f, hf⟩
    obtain ⟨a, ha, he⟩ := hc.of_find64 hf
    exact ⟨a, List.mem_of_getElem? ha, he⟩

theorem servedPorts_append (ops : List MapOp) (op : MapOp) :
    servedPorts (ops ++ [op]) = serve (servedPorts ops) op := by
  simp only [servedPorts, List.foldl_append, List.foldl_cons, List.foldl_nil]

theorem mem_call {ls : List (MapOp × FlowPtr)} {k k' : IP6Port} {srv srv' : IPv6Addr} {r r' : FlowPtr} :
    (MapOp.doMapping k' srv', r') ∈ ls ++ [(.doMapping k srv, r)] ↔
      (.doMapping k' srv', r') ∈ ls ∨ (k' = k ∧ srv' = srv) ∧ r' = r := by
  rw [List.mem_append, List.mem_singleton, Prod.mk.injEq, MapOp.doMapping.injEq]

theorem Answered.unchanged {ls : List (MapOp × FlowPtr)} {k : IP6Port} {srv : IPv6Addr} {r : FlowPtr}
    (h : Answered ls sm) (hk : sm.map64_.find? (k, srv) = r) (hr : r = none → sm.pool_ = [])
    (hserve : serve (servedPorts (ls.map Prod.fst)) (.doMapping k srv) = servedPorts (ls.map Prod.fst)) :
    Answered (ls ++ [(.doMapping k srv, r)]) sm := by
  refine ⟨?_, h.room, fun k' srv' r' hm ↦ ?_, fun k' srv' hm ↦ ?_, fun a ha ↦ ?_⟩
  · rw [h.ports, List.map_append]
    exact hserve.symm.trans (servedPorts_append _ _).symm
  · rcases mem_call.mp hm with hm | ⟨⟨rfl, rfl⟩, rfl⟩
    · exact h.answer _ _ _ hm
    · exact hk.symm
  · rcases mem_call.mp hm with hm | ⟨-, hnone⟩
    · exact h.refused _ _ hm
    · exact hr hnone.symm
  · obtain ⟨q, hq⟩ := h.made a ha
    exact ⟨q, List.mem_append_left _ hq⟩

theorem Answered.created {ls : List (MapOp × FlowPtr)} {k : IP6Port} {srv : IPv6Addr} {e : IP4Port}
    {pool : List IP4Port} (h : Answered ls sm) (hc : Coherent ips sm) (hk : sm.map64_.find? (k, srv) = none)
    (hp : sm.pool_ = e :: pool) :
    Answered (ls ++ [(.doMapping k srv, some sm.heap.length)]) (sm.create (k, srv) e pool) := by
  have hmem : k.port_ ∉ sm.addrs.map (fun a ↦ a.1.1.port_) := by
    rw [hc.port_mem (k := (k, srv)), hk]
    simp
  have hroom := h.room
  rw [hp, List.length_cons] at hroom
  have hnone : ∀ k' srv', (MapOp.doMapping k' srv', none) ∉ ls := by
    intro k' srv' hm
    have hempty := h.refused _ _ hm
    rw [hp] at hempty
    cases hempty
  refine ⟨?_, ?_, fun k' srv' r' hm ↦ ?_, fun k' srv' hm ↦ ?_, fun a ha ↦ ?_⟩
  · have hlen : ¬(k.port_ ∈ sm.addrs.map (fun a ↦ a.1.1.port_) ∨
        poolSize ≤ (sm.addrs.map fun a ↦ a.1.1.port_).length) := by
      simp only [List.length_map, hmem, false_or]
      omega
    have hserved := servedPorts_append (ls.map Prod.fst) (.doMapping k srv)
    rw [← h.ports, serve, if_neg hlen] at hserved
    rw [create_addrs, List.map_append, List.map_append]
    exact hserved.symm
  · simp only [create_addrs, create_pool, List.length_append, List.length_singleton]
    omega
  · rw [find64_create]
    rcases mem_call.mp hm with hm | ⟨⟨rfl, rfl⟩, rfl⟩
    · have ha := h.answer _ _ _ hm
      split
      case isTrue he =>
        rw [sm.find64_congr (p := (k', srv')) (q := (k, srv)) he, hk] at ha
        exact absurd (ha ▸ hm) (hnone _ _)
      case isFalse => exact ha
    · exact (if_pos rfl).symm
  · rcases mem_call.mp hm with hm | ⟨-, hsome⟩
    · exact absurd hm (hnone _ _)
    · cases hsome
  · rw [create_addrs] at ha
    rcases List.mem_append.mp ha with ha | ha
    · obtain ⟨r, hr⟩ := h.made a ha
      exact ⟨r, List.mem_append_left _ hr⟩
    · rw [List.mem_singleton.mp ha]
      exact ⟨_, List.mem_append_right _ (List.mem_singleton_self _)⟩

theorem Answered.of_doMapping {ls : List (MapOp × FlowPtr)} {k : IP6Port} {srv : IPv6Addr}
    {r : FlowPtr} (h : Answered ls sm) (hc : Coherent ips sm) (hd : sm.doMapping k srv = (r, sm')) :
    Answered (ls ++ [(.doMapping k srv, r)]) sm' := by
  have hports := h.ports
  have hroom := h.room
  rcases doMapping_cases hd with ⟨f, hk, rfl, he⟩ | ⟨e, pool, hk, hp, rfl, rfl⟩ | ⟨hk, hp, rfl, he⟩
  · subst sm'
    refine h.unchanged hk (fun he ↦ by cases he) (if_pos (.inl ?_))
    rw [← hports, hc.port_mem (k := (k, srv)), hk]
    rfl
  · exact h.created hc hk hp
  · subst sm'
    refine h.unchanged hk (fun _ ↦ hp) (if_pos (.inr ?_))
    rw [hp, List.length_nil, Nat.zero_add] at hroom
    rw [← hports, List.length_map, hroom]

theorem Answered.of_query {ls : List (MapOp × FlowPtr)} {op : MapOp} {r : FlowPtr}
    (h : Answered ls sm) (hop : ∀ k srv, op ≠ .doMapping k srv) : Answered (ls ++ [(op, r)]) sm := by
  have hkeep : ∀ k srv q, (MapOp.doMapping k srv, q) ∈ ls ++ [(op, r)] → (.doMapping k srv, q) ∈ ls := by
    intro k srv q hm
    rcases List.mem_append.mp hm with hm | hm
    · exact hm
    · exact absurd (Prod.mk.inj (List.mem_singleton.mp hm)).1.symm (hop k srv)
  refine ⟨?_, h.room, fun k srv q hm ↦ h.answer k srv q (hkeep _ _ _ hm),
    fun k srv hm ↦ h.refused k srv (hkeep _ _ _ hm), fun a ha ↦ ?_⟩
  · rw [h.ports]
    cases op with
    | doMapping k srv => exact absurd rfl (hop k srv)
    | getMapping6 k srv => simp [servedPorts, serve]
    | getMapping4 k srv => simp [servedPorts, serve]
  · obtain ⟨q, hq⟩ := h.made a ha
    exact ⟨q, List.mem_append_left _ hq⟩

theorem answered_run {prefix_ : IPv6Addr} {extra : EXTRAType}
    {protocols : OrderedMap String Protocol nameLt} {ip : IPv4Addr} {ls : List (MapOp × FlowPtr)}
    (h : Run MapStep (configured prefix_ extra protocols [ip]) ls sm) :
    Answered ls sm ∧ Coherent [ip] sm := by
  have hips := nodup_pools (List.nodup_singleton ip)
  refine h.history (I := fun ls s ↦ Answered ls s ∧ Coherent [ip] s) ?_
    ⟨?_, coherent_configured prefix_ extra protocols [ip]⟩
  · rintro ls s ⟨op, r⟩ s' ⟨ha, hc⟩ hstep
    cases op with
    | doMapping k srv => exact ⟨ha.of_doMapping hc hstep, hc.doMapping hips hstep⟩
    | getMapping6 k srv =>
      obtain ⟨-, rfl⟩ := Prod.mk.inj hstep
      exact ⟨ha.of_query (by simp), hc⟩
    | getMapping4 k srv =>
      obtain ⟨-, rfl⟩ := Prod.mk.inj hstep
      exact ⟨ha.of_query (by simp), hc⟩
  · have haddrs : (configured prefix_ extra protocols [ip] : StateManager σ).addrs = [] := rfl
    refine ⟨by simp [haddrs, servedPorts], ?_, by simp, by simp, by simp [haddrs]⟩
    rw [haddrs]
    simp [configured, addIPv4Pool, start, length_poolOf]

def clientA : IPv6Addr := ⟨⟨ntohl 0x20010db8, 0, 0, ntohl 1⟩⟩
def clientB : IPv6Addr := ⟨⟨ntohl 0x20010db8, 0, 0, ntohl 2⟩⟩
def serverS : IPv6Addr := ⟨⟨ntohl 0x20030000, 0, 0, ntohl 0xc0000201⟩⟩
def serverT : IPv6Addr := ⟨⟨ntohl 0x20030000, 0, 0, ntohl 0xc0000202⟩⟩

/-- Over every run, bindings are isolated exactly when no client port served is
used with two keys: the tables tell keys apart by their port alone. -/
theorem binding_isolated_iff {prefix_ : IPv6Addr} {extra : EXTRAType}
    {protocols : OrderedMap String Protocol nameLt} {ip : IPv4Addr} {ls : List (MapOp × FlowPtr)}
    (h : Run MapStep (configured prefix_ extra protocols [ip]) ls sm) :
    BindingIsolated sm ls ↔ OneKeyPerPort (ls.map Prod.fst) := by
  obtain ⟨ha, hc⟩ := answered_run h
  have hserved : ∀ k srv, (∃ f, sm.map64_.find? (k, srv) = some f) ↔
      k.port_ ∈ servedPorts (ls.map Prod.fst) := by
    intro k srv
    rw [← ha.ports, hc.port_mem (k := (k, srv)), Option.isSome_iff_exists]
  constructor
  · rintro ⟨hsame, -⟩ k srv k' srv' hk hk' hport hmem
    obtain ⟨⟨_, r⟩, hl, rfl⟩ := List.mem_map.mp hk
    obtain ⟨⟨_, r'⟩, hl', rfl⟩ := List.mem_map.mp hk'
    obtain ⟨f, hf⟩ := (hserved k srv).mpr hmem
    have hr := ha.answer _ _ _ hl
    have hr' := ha.answer _ _ _ hl'
    rw [sm.find64_congr (p := (k', srv')) (q := (k, srv)) hport.symm] at hr'
    rw [hf] at hr hr'
    subst hr hr'
    exact (hsame _ _ _ _ _ _ hl hl').1.mp rfl
  · intro hone
    have hport : ∀ k srv f k' srv' f', (MapOp.doMapping k srv, some f) ∈ ls →
        (MapOp.doMapping k' srv', some f') ∈ ls → f = f' → (k, srv) = (k', srv') := by
      rintro k srv f k' srv' f' hl hl' rfl
      obtain ⟨a, hf, hk⟩ := hc.of_find64 (ha.answer _ _ _ hl).symm
      obtain ⟨a', hf', hk'⟩ := hc.of_find64 (ha.answer _ _ _ hl').symm
      obtain rfl := Option.some.inj (hf.symm.trans hf')
      exact hone _ _ _ _ (List.mem_map_of_mem hl) (List.mem_map_of_mem hl') (hk.symm.trans hk')
        ((hserved k srv).mp ⟨f, (ha.answer _ _ _ hl).symm⟩)
    refine ⟨fun k srv f k' srv' f' hl hl' ↦ ⟨⟨hport _ _ _ _ _ _ hl hl', ?_⟩, fun he ↦ ?_⟩, ?_⟩
    · intro he
      have hf := ha.answer _ _ _ hl
      rw [he, ← ha.answer _ _ _ hl'] at hf
      exact Option.some.inj hf
    · obtain ⟨a, hf, -⟩ := hc.of_find64 (ha.answer _ _ _ hl).symm
      obtain ⟨a', hf', -⟩ := hc.of_find64 (ha.answer _ _ _ hl').symm
      refine hport _ _ _ _ _ _ hl hl' (hc.ip4p_unique (List.nodup_singleton ip) hf hf' ?_)
      rw [← flowAt_addr hf, ← flowAt_addr hf']
      exact he
    · intro k srv f hl
      obtain ⟨a, hf, hk⟩ := hc.of_find64 (ha.answer _ _ _ hl).symm
      obtain ⟨r, hm⟩ := ha.made a (List.mem_of_getElem? hf)
      have hkey := hone _ _ _ _ (List.mem_map_of_mem hm) (List.mem_map_of_mem hl) hk
        (hk ▸ (hserved k srv).mp ⟨f, (ha.answer _ _ _ hl).symm⟩)
      rw [← flowAt_addr hf] at hkey
      exact Prod.mk.inj hkey

/-- Two clients that use the same port get the same flow. -/
theorem binding_shared : ∃ (ls : List (MapOp × FlowPtr)) (sm : StateManager Unit),
    Run MapStep exampleConf ls sm ∧ ¬BindingIsolated sm ls := by
  refine ⟨[(.doMapping ⟨clientA, ntohs 1024⟩ serverS, some 0), (.doMapping ⟨clientB, ntohs 1024⟩ serverS, some 0)],
    _, .cons rfl (.cons rfl (.nil _)), fun h ↦ ?_⟩
  have hkeys := ((h.1 ⟨clientA, ntohs 1024⟩ serverS 0 ⟨clientB, ntohs 1024⟩ serverS 0 (by simp) (by simp)).1).mp rfl
  exact absurd hkeys (by decide)

/-- The calls made one after the other, each with its answer. -/
def calls (sm : StateManager σ) : List MapOp → List (MapOp × FlowPtr) × StateManager σ
  | [] => ([], sm)
  | op :: ops =>
    let r := (sm.exec op).2.calls ops
    ((op, (sm.exec op).1) :: r.1, r.2)

theorem calls_run (sm : StateManager σ) (ops : List MapOp) : Run MapStep sm (sm.calls ops).1 (sm.calls ops).2 := by
  induction ops generalizing sm with
  | nil => exact .nil sm
  | cons op ops ih => exact .cons rfl (ih _)

/-- Two clients at two servers, each from ports of its own, and two lookups. -/
def ownPorts : List MapOp :=
  [.doMapping ⟨clientA, ntohs 1024⟩ serverS, .doMapping ⟨clientB, ntohs 1025⟩ serverS,
    .doMapping ⟨clientA, ntohs 1026⟩ serverT, .doMapping ⟨clientA, ntohs 1024⟩ serverS,
    .getMapping6 ⟨clientB, ntohs 1025⟩ serverS, .getMapping4 ⟨⟨ntohl 0x0a141e28⟩, ntohs 32002⟩ ⟨ntohl 0xc0000202⟩]

/-- The calls are all answered, the repeated one and the lookups with the flow made before. -/
theorem binding_isolated_clients : ((exampleConf : StateManager Unit).calls ownPorts).1.map Prod.snd =
      [some 0, some 1, some 2, some 0, some 1, some 2] ∧
    BindingIsolated ((exampleConf : StateManager Unit).calls ownPorts).2
      ((exampleConf : StateManager Unit).calls ownPorts).1 := by
  have hops : ((exampleConf : StateManager Unit).calls ownPorts).1.map Prod.fst = ownPorts := by decide +kernel
  refine ⟨by decide +kernel, (binding_isolated_iff (calls_run exampleConf ownPorts)).mpr ?_⟩
  rw [hops]
  intro k srv k' srv' hk hk' hport _
  simp only [ownPorts, List.mem_cons, List.not_mem_nil, MapOp.doMapping.injEq, reduceCtorEq, or_false] at hk hk'
  rcases hk with ⟨rfl, rfl⟩ | ⟨rfl, rfl⟩ | ⟨rfl, rfl⟩ | ⟨rfl, rfl⟩ <;>
    rcases hk' with ⟨rfl, rfl⟩ | ⟨rfl, rfl⟩ | ⟨rfl, rfl⟩ | ⟨rfl, rfl⟩ <;>
    first | rfl | exact absurd hport (by decide)

/-- The port of the first client used by the second, the flows looked up, and one more made. -/
def sharedPort : List MapOp :=
  [.doMapping ⟨clientA, ntohs 1024⟩ serverS, .doMapping ⟨clientB, ntohs 1024⟩ serverS,
    .getMapping6 ⟨clientA, ntohs 1024⟩ serverS, .getMapping4 ⟨⟨ntohl 0x0a141e28⟩, ntohs 32000⟩ ⟨ntohl 0xc0000201⟩,
    .getMapping6 ⟨clientB, ntohs 1025⟩ serverT, .doMapping ⟨clientB, ntohs 1025⟩ serverT,
    .getMapping4 ⟨⟨ntohl 0x0a141e28⟩, ntohs 32001⟩ ⟨ntohl 0xc0000202⟩]

theorem tables_conserved_reuse : ∃ (ls : List (MapOp × FlowPtr)) (sm : StateManager Unit),
    Run MapStep exampleConf ls sm ∧ ls.map Prod.fst = sharedPort ∧
    ls.map Prod.snd = [some 0, some 0, some 0, some 0, none, some 1, some 1] ∧
    (∀ k f, (k, f) ∈ sm.map64_.entries →
      k = ((sm.flowAt f).ip6p, (sm.flowAt f).ip6srv) ∧
      (((sm.flowAt f).ip4p, (sm.flowAt f).ip4srv), f) ∈ sm.map46_.entries ∧
      (sm.flowAt f).ip4srv.ip_ = (sm.flowAt f).ip6srv.ip_.w₃) ∧
    (∀ k f, (k, f) ∈ sm.map46_.entries →
      k = ((sm.flowAt f).ip4p, (sm.flowAt f).ip4srv) ∧
      (((sm.flowAt f).ip6p, (sm.flowAt f).ip6srv), f) ∈ sm.map64_.entries) ∧
    (sm.pool_ ++ sm.map64_.entries.map (fun e ↦ (sm.flowAt e.2).ip4p)).Nodup ∧
    (∀ k srv f, (.doMapping k srv, some f) ∈ ls →
      sm.getMapping6 (sm.flowAt f).ip6p (sm.flowAt f).ip6srv = some f ∧
      sm.getMapping4 (sm.flowAt f).ip4p (sm.flowAt f).ip4srv = some f) := by
  obtain ⟨h64, h46, -, -, hpool, -, hfound⟩ :=
    tables_conserved (List.nodup_singleton _) (calls_run (exampleConf : StateManager Unit) sharedPort)
  refine ⟨_, _, calls_run exampleConf sharedPort, by decide +kernel, by decide +kernel, h64, h46, hpool,
    fun k srv f hm ↦ ?_⟩
  obtain ⟨pre, post, hls⟩ := List.append_of_mem hm
  exact hfound pre k srv f post hls

end Nat64Alg.StateManager
