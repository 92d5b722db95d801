import Nat64Alg.Translator
import Nat64Alg.Workers

namespace Nat64Alg

open Lib StateManager

variable {σ : Type} {pc : ParserClass σ} {conf : Conf} {sm sm' sm'' : StateManager σ} {held : List Key64}

/-- The sessions that the calls of a parser's turn ask for, while `cur` is the current server. -/
def wanted (cur : IPv6Addr) (log : Asked) : List Key64 := (granted log).map (fun x ↦ (x.1, cur))

theorem granted_append (log log' : Asked) : granted (log ++ log') = granted log ++ granted log' :=
  List.filterMap_append

theorem wanted_append (cur : IPv6Addr) (log log' : Asked) :
    wanted cur (log ++ log') = wanted cur log ++ wanted cur log' := by
  rw [wanted, granted_append, List.map_append]
  rfl

/-- The session of the endpoint `k` has the endpoint `e` of the pool. -/
def Placed (pool : List IP4Port) (held : List Key64) (k : IP6Port) (e : IP4Port) : Prop :=
  ∃ n, (∀ srv, Allotment.place clientPort held (k, srv) = some n) ∧ pool[n]? = some e

theorem Placed.later {held' : List Key64} {pool : List IP4Port} {k : IP6Port} {e : IP4Port} (h : Placed pool held k e)
    (hpre : held <+: held') : Placed pool held' k e := by
  obtain ⟨n, hn, he⟩ := h
  obtain ⟨t, rfl⟩ := hpre
  exact ⟨n, fun srv ↦ Allotment.place_append (hn srv) t, he⟩

theorem placed_client {pool : List IP4Port} {held' : List Key64} {k : IP6Port} {srv : IPv6Addr} {e : IP4Port}
    (hroom : held.length ≤ pool.length) (h : nat64 pool held (.client (k, srv)) = some (.toServer e, held')) :
    held' = Allotment.firsts clientPort held [(k, srv)] ∧ Placed pool held' k e := by
  obtain ⟨hheld, -, hd⟩ := (nat64_iff hroom).mp h
  refine ⟨hheld, ?_⟩
  unfold departs at hd
  dsimp only at hd
  split at hd
  case h_2 => cases hd
  case h_1 e' he' =>
    cases hd
    obtain ⟨n, hn, he⟩ := Option.bind_eq_some_iff.mp he'
    exact ⟨n, fun _ ↦ hn, he⟩

/-- What a parser's turn does to the sessions: those it asks for are there afterwards, each at the endpoint it got. -/
structure Booked (conf : Conf) (sm : StateManager σ) (log : Asked) (sm' : StateManager σ) : Prop where
  cur : sm'.ip6srv_cur_ = sm.ip6srv_cur_
  serves : ∀ held, Serves conf sm held →
    Serves conf sm' (Allotment.firsts clientPort held (wanted sm.ip6srv_cur_ log))
  placed : ∀ held, Serves conf sm held → ∀ x ∈ granted log,
    Placed conf.pool (Allotment.firsts clientPort held (wanted sm.ip6srv_cur_ log)) x.1 x.2

namespace Booked

theorem refl (sm : StateManager σ) : Booked conf sm [] sm := ⟨rfl, fun _ h ↦ h, fun _ _ _ h ↦ by cases h⟩

theorem trans {log log' : Asked} (h : Booked conf sm log sm') (h' : Booked conf sm' log' sm'') :
    Booked conf sm (log ++ log') sm'' := by
  have hfirsts : ∀ held, Allotment.firsts clientPort held (wanted sm.ip6srv_cur_ (log ++ log')) =
      Allotment.firsts clientPort (Allotment.firsts clientPort held (wanted sm.ip6srv_cur_ log))
        (wanted sm'.ip6srv_cur_ log') := by
    intro held
    rw [wanted_append, h.cur]
    exact List.foldl_append
  refine ⟨h'.cur.trans h.cur, fun held hs ↦ ?_, fun held hs x hx ↦ ?_⟩
  · rw [hfirsts]
    exact h'.serves _ (h.serves held hs)
  · rw [hfirsts]
    rw [granted_append] at hx
    rcases List.mem_append.mp hx with hx | hx
    · exact (h.placed held hs x hx).later (Allotment.prefix_firsts _ _)
    · exact h'.placed _ (h.serves held hs) x hx

theorem setFlow {f : ℕ} {flow : Flow σ} (ha : flow.addr = (sm.flowAt f).addr) :
    Booked conf sm [] (sm.setFlow f flow) :=
  ⟨rfl, fun _ hs ↦ hs.grown (.setFlow ha) (addrs_setFlow ha) rfl, fun _ _ _ h ↦ by cases h⟩

theorem doMapping (hips : conf.ips.Nodup) {k : IP6Port} {r : FlowPtr} (h : sm.doMappingCur k = (r, sm')) :
    Booked conf sm [(.doMapping k, r.map (fun f ↦ (sm'.flowAt f).ip4p))] sm' := by
  have hd : sm.doMapping k sm.ip6srv_cur_ = (r, sm') := h
  have hcur : sm'.ip6srv_cur_ = sm.ip6srv_cur_ := by
    rcases doMapping_cases hd with ⟨f, -, -, rfl⟩ | ⟨e, pool, -, -, -, rfl⟩ | ⟨-, -, -, rfl⟩ <;> rfl
  have hgrown : Grown conf.ips sm sm' := by
    have hg := Grown.doMapping (nodup_pools hips) sm k sm.ip6srv_cur_
    rwa [hd] at hg
  cases r with
  | none =>
    obtain rfl : sm' = sm := by
      rcases doMapping_cases hd with ⟨f, -, hr, -⟩ | ⟨e, pool, -, -, hr, -⟩ | ⟨-, -, -, rfl⟩
      · cases hr
      · cases hr
      · rfl
    exact ⟨rfl, fun _ hs ↦ hs, fun _ _ _ hx ↦ by cases hx⟩
  | some f =>
    have hboth : ∀ held, Serves conf sm held →
        Serves conf sm' (Allotment.firsts clientPort held [(k, sm.ip6srv_cur_)]) ∧
        Placed conf.pool (Allotment.firsts clientPort held [(k, sm.ip6srv_cur_)]) k (sm'.flowAt f).ip4p := by
      intro held hs
      rcases hs.toRepresents.doMapping hips hd with ⟨g, held', hg, hrep, hnat, -⟩ | ⟨hnone, -⟩
      · cases hg
        obtain ⟨rfl, hplaced⟩ := placed_client hs.room hnat
        exact ⟨hs.of_grown hgrown hrep, hplaced⟩
      · cases hnone
    refine ⟨hcur, fun held hs ↦ (hboth held hs).1, fun held hs x hx ↦ ?_⟩
    obtain rfl := List.mem_singleton.mp hx
    exact (hboth held hs).2

theorem answer (hips : conf.ips.Nodup) (c : Call) (s : StateManager σ × FlowPtr) :
    Booked conf s.1 [(c, (Nat64Alg.answer c s).1)] (Nat64Alg.answer c s).2.1 := by
  cases c with
  | doMapping k => exact doMapping hips (Prod.eta _).symm
  | setIgnore =>
    unfold Nat64Alg.answer
    dsimp only
    split
    case h_1 f _ =>
      have h : Booked conf s.1 [] (s.1.setFlow f (s.1.flowAt f).setIgnore) := setFlow rfl
      exact ⟨h.cur, h.serves, fun _ _ _ hx ↦ by cases hx⟩
    case h_2 => exact ⟨rfl, fun _ hs ↦ hs, fun _ _ _ hx ↦ by cases hx⟩

theorem course (hips : conf.ips.Nodup) (f : ℕ) : Course (@Booked σ conf) f where
  refl := refl
  trans := trans
  setFlow ha _ := setFlow ha
  run hr := Prog.run_relation (R := fun s log s' ↦ Booked conf s.1 log s'.1) (fun s ↦ refl s.1)
    (fun s c _ _ h ↦ (answer hips c s).trans h) hr

end Booked

/-- The sessions that a call asks for, while `cur` is the current server. -/
def Event.requests (cur : IPv6Addr) : Event σ → List Key64
  | .begun _ p => if p.getIPVersion = 4 then [(⟨p.saddr6, p.getSourcePort⟩, p.daddr6)] else []
  | .passed _ _ out => wanted cur out.asked

def requestsFrom (cur : IPv6Addr) : List (Event σ) → List Key64
  | [] => []
  | ev :: evs => ev.requests cur ++ requestsFrom (serverAfter cur ev) evs

/-- The sessions asked for in a run, by the packets and by what parsers read in them, in order. -/
def requests (evs : List (Event σ)) : List Key64 := requestsFrom ⟨⟨0, 0, 0, 0⟩⟩ evs

theorem requests_concat (evs : List (Event σ)) (ev : Event σ) :
    requests (evs ++ [ev]) = requests evs ++ ev.requests (lastServer evs) := by
  unfold requests lastServer
  generalize (⟨⟨0, 0, 0, 0⟩⟩ : IPv6Addr) = cur
  induction evs generalizing cur with
  | nil => simp [requestsFrom]
  | cons ev' evs ih =>
    rw [List.cons_append, requestsFrom, ih, requestsFrom, List.append_assoc]
    rfl

/-- The endpoints that parsers got in a run, each for the endpoint that a message named. -/
def announced (evs : List (Event σ)) : List (IP6Port × IP4Port) :=
  (evs.filterMap Event.turn).flatMap (fun t ↦ granted t.2.asked)

theorem announced_concat (evs : List (Event σ)) (ev : Event σ) :
    announced (evs ++ [ev]) = announced evs ++ announced [ev] := by
  simp [announced]

section Runs

variable {extra : EXTRAType} {protocols : OrderedMap String Protocol nameLt} {evs : List (Event σ)}

theorem AppStep.books (hips : conf.ips.Nodup) {ev : Event σ} (hs : Serves conf sm held) (h : AppStep pc sm ev sm') :
    Serves conf sm' (Allotment.firsts clientPort held (ev.requests sm.ip6srv_cur_)) ∧
      ∀ x ∈ announced [ev],
        Placed conf.pool (Allotment.firsts clientPort held (ev.requests sm.ip6srv_cur_)) x.1 x.2 := by
  cases ev with
  | begun nat p =>
    obtain ⟨rc, nat', hb⟩ := h
    refine ⟨?_, fun x hx ↦ by cases hx⟩
    unfold Event.requests
    dsimp only
    rcases begin_cases hb with ⟨hv, f, sm₁, hd, -, -, rfl⟩ | ⟨hv, f, -, -, -, rfl⟩ | ⟨hv, -, -, -, rfl⟩
    · rw [if_pos hv]
      rcases hs.toRepresents.doMapping hips hd with ⟨g, held', hg, hrep, hnat, -⟩ | ⟨hnone, -⟩
      · obtain ⟨rfl, -⟩ := placed_client hs.room hnat
        have hgd := Grown.doMapping (nodup_pools hips) sm ⟨p.saddr6, p.getSourcePort⟩ p.daddr6
        rw [hd] at hgd
        exact ((hs.of_grown hgd hrep).setTid f nat.tid).setCurIPv6SrvAddr _
      · cases hnone
    · rw [if_neg hv]
      exact hs
    · rw [if_neg hv]
      exact hs
  | passed nat p out =>
    obtain ⟨ha, rfl⟩ := h
    have hbooked : Booked conf sm out.asked out.sm := by
      cases hf : (p.getFlow sm).1 with
      | none =>
        rcases doApp_cases hs.mode ha with ⟨-, rfl⟩ | ⟨f, hg, -⟩
        · exact .refl _
        · rw [hf] at hg
          cases hg
      | some f => exact (Booked.course hips f).doApp Booked.setFlow hs.mode hf ha
    refine ⟨hbooked.serves held hs, fun x hx ↦ hbooked.placed held hs x ?_⟩
    simpa [announced, Event.turn] using hx

/-- In every run the sessions are those of the requests, and each endpoint a parser got is that of its session. -/
theorem booked_run (hips : conf.ips.Nodup)
    (h : Run (AppStep pc) (configured conf.prefix_ extra protocols conf.ips) evs sm) :
    Serves conf sm (Allotment.firsts clientPort [] (requests evs)) ∧
      ∀ x ∈ announced evs, Placed conf.pool (Allotment.firsts clientPort [] (requests evs)) x.1 x.2 := by
  suffices hI : sm.ip6srv_cur_ = lastServer evs ∧ Serves conf sm (Allotment.firsts clientPort [] (requests evs)) ∧
      ∀ x ∈ announced evs, Placed conf.pool (Allotment.firsts clientPort [] (requests evs)) x.1 x.2 from hI.2
  refine h.history (I := fun evs sm ↦ sm.ip6srv_cur_ = lastServer evs ∧
    Serves conf sm (Allotment.firsts clientPort [] (requests evs)) ∧
    ∀ x ∈ announced evs, Placed conf.pool (Allotment.firsts clientPort [] (requests evs)) x.1 x.2) ?_
    ⟨configured_cur _ _ _ _, .configured conf extra protocols, fun x hx ↦ by cases hx⟩
  rintro evs s ev s' ⟨hcur, hs, hplaced⟩ hstep
  obtain ⟨hs', hnew⟩ := hstep.books hips hs
  have hfirsts : Allotment.firsts clientPort [] (requests (evs ++ [ev])) =
      Allotment.firsts clientPort (Allotment.firsts clientPort [] (requests evs)) (ev.requests s.ip6srv_cur_) := by
    rw [requests_concat, hcur]
    exact List.foldl_append
  rw [hfirsts]
  refine ⟨?_, hs', fun x hx ↦ ?_⟩
  · rw [hstep.cur (nodup_pools hips) hs.mode, hcur, lastServer, lastServer, List.foldl_append]
    rfl
  · rw [announced_concat] at hx
    rcases List.mem_append.mp hx with hx | hx
    · exact (hplaced x hx).later (Allotment.prefix_firsts _ _)
    · exact hnew x hx

theorem sessions_find {pool : List IP4Port} (hp : pool.Nodup) {n : ℕ} {key : Key64} {e : IP4Port} {srv : IPv4Addr}
    (hk : held[n]? = some key) (he : pool[n]? = some e) : (sessions pool held).find? (fun a ↦ a.2 = (e, srv)) =
      if srv = getServerAddr4 key.2 then some (key, (e, getServerAddr4 key.2)) else none := by
  have hmem : (key, (e, getServerAddr4 key.2)) ∈ sessions pool held := by
    refine List.mem_of_getElem? (i := n) ?_
    simp [sessions, List.getElem?_zipWith, hk, he]
  have huniq : ∀ a ∈ sessions pool held, a.2.1 = e → a = (key, (e, getServerAddr4 key.2)) := by
    intro a ha hae
    obtain ⟨m, hm⟩ := List.getElem?_of_mem ha
    obtain ⟨k', e', hk', he', rfl⟩ := List.getElem?_zipWith_eq_some.mp hm
    obtain rfl : e' = e := hae
    obtain ⟨hlt, rfl⟩ := List.getElem?_eq_some_iff.mp he'
    obtain ⟨hlt', heq⟩ := List.getElem?_eq_some_iff.mp he
    obtain rfl := hp.getElem_inj_iff.mp heq
    rw [hk] at hk'
    cases hk'
    rfl
  split
  case isTrue hsrv =>
    cases hf : (sessions pool held).find? (fun a ↦ a.2 = (e, srv)) with
    | none => exact absurd (List.find?_eq_none.mp hf _ hmem) (by simp [hsrv])
    | some a =>
      have ha : a.2 = (e, srv) := by simpa using List.find?_some hf
      rw [huniq a (List.mem_of_find?_eq_some hf) (congrArg Prod.fst ha)]
  case isFalse hsrv =>
    refine List.find?_eq_none.mpr (fun a ha hc ↦ ?_)
    have hc : a.2 = (e, srv) := by simpa using hc
    obtain rfl := huniq a ha (congrArg Prod.fst hc)
    exact hsrv (congrArg Prod.snd hc).symm

theorem Serves.begin_client (hs : Serves conf sm held) (hips : conf.ips.Nodup) {k : IP6Port} {e : IP4Port}
    (hk : Placed conf.pool held k e) (nat : NAT) {p : Packet} (hv : p.getIPVersion = 4)
    (hport : p.getSourcePort = k.port_) : ∃ sm', nat.begin sm p = .ok (0, { nat with ip4p_ := e }, sm') := by
  obtain ⟨n, hn, he⟩ := hk
  have hplace : Allotment.place clientPort held (⟨p.saddr6, p.getSourcePort⟩, p.daddr6) = some n :=
    (Allotment.place_congr held hport).trans (hn p.daddr6)
  have hnat : nat64 conf.pool held (.client (⟨p.saddr6, p.getSourcePort⟩, p.daddr6)) = some (.toServer e, held) := by
    simp only [nat64, Allotment.allot, hplace, he, Option.map_some]
  rcases hd : sm.doMapping ⟨p.saddr6, p.getSourcePort⟩ p.daddr6 with ⟨r, sm₁⟩
  rcases hs.toRepresents.doMapping hips hd with ⟨f, held', rfl, -, hnat', -⟩ | ⟨-, hnone⟩
  · cases hnat.symm.trans hnat'
    exact ⟨_, begin_v6 hv hd⟩
  · rw [hnat] at hnone
    cases hnone

/-- Packets to the endpoint of a session are let in from its server, for its client, and from nowhere else. -/
theorem Serves.begin_server (hs : Serves conf sm held) (hips : conf.ips.Nodup) {n : ℕ} {key : Key64}
    (hk : held[n]? = some key) {q : Packet} (he : conf.pool[n]? = some ⟨q.daddr4, q.getDestPort⟩) (nat : NAT)
    (hv : ¬q.getIPVersion = 4) : nat.begin sm q = .ok (if q.saddr4 = getServerAddr4 key.2
      then (0, { nat with ip6p_ := key.1 }, sm) else (1, nat, sm)) := by
  have hfind := (hs.toRepresents.find46 (⟨q.daddr4, q.getDestPort⟩, q.saddr4)).symm.trans
    (sessions_find (nodup_pools hips) hk he)
  split
  case isTrue hsrv =>
    rw [if_pos hsrv] at hfind
    obtain ⟨f, hf, haddr⟩ := Option.map_eq_some_iff.mp hfind
    rw [begin_v4 hv hf, ← show (sm.flowAt f).ip6p = key.1 from congrArg (fun a ↦ a.1.1) haddr]
  case isFalse hsrv =>
    rw [if_neg hsrv] at hfind
    exact begin_v4_none hv (Option.map_eq_none_iff.mp hfind)

/-- What a message announces is kept: over every run, whatever the parsers read, the endpoint that a parser got for
the client's endpoint `k` is where packets from the port of `k` leave from, and packets to it are let in exactly
from the server of the first request for that port, for the client of that request. -/
theorem announced_kept (hips : conf.ips.Nodup)
    (h : Run (AppStep pc) (configured conf.prefix_ extra protocols conf.ips) evs sm) {k : IP6Port} {e : IP4Port}
    (hk : (k, e) ∈ announced evs) : ∃ first, (requests evs).find? (fun r ↦ r.1.port_ = k.port_) = some first ∧
      (∀ (nat : NAT) (q : Packet), ¬q.getIPVersion = 4 → (⟨q.daddr4, q.getDestPort⟩ : IP4Port) = e →
        nat.begin sm q = .ok (if q.saddr4 = getServerAddr4 first.2 then (0, { nat with ip6p_ := first.1 }, sm)
          else (1, nat, sm))) ∧
      ∀ (nat : NAT) (p : Packet), p.getIPVersion = 4 → p.getSourcePort = k.port_ →
        ∃ sm', nat.begin sm p = .ok (0, { nat with ip4p_ := e }, sm') := by
  obtain ⟨hs, hplaced⟩ := booked_run hips h
  have hplace := hplaced (k, e) hk
  obtain ⟨n, hn, he⟩ := id hplace
  obtain ⟨first, hfirst⟩ : ∃ first, (Allotment.firsts clientPort [] (requests evs))[n]? = some first := by
    obtain ⟨hlt, -⟩ := List.findIdx?_eq_some_iff_getElem.mp (hn ⟨⟨0, 0, 0, 0⟩⟩)
    exact ⟨_, List.getElem?_eq_getElem hlt⟩
  refine ⟨first, ?_, fun nat q hv hq ↦ ?_, fun nat p hv hport ↦ hs.begin_client hips hplace nat hv hport⟩
  · have hfind := @Allotment.find_firsts _ _ _ clientPort [] (requests evs) k.port_
    have hat := Allotment.find_place (hn ⟨⟨0, 0, 0, 0⟩⟩)
    exact (hfind.symm.trans hat).trans hfirst
  · subst hq
    exact hs.begin_server hips hfirst he nat hv

/-- An endpoint that an FTP client announces to its server. -/
theorem announced_kept_eprt : ∃ (evs : List (Event Unit)) (sm : StateManager Unit) (k : IP6Port) (e : IP4Port)
    (first : Key64), (k, e) ∈ announced evs ∧ (requests evs).find? (fun r ↦ r.1.port_ = k.port_) = some first ∧
      ∀ (nat : NAT) (q : Packet), ¬q.getIPVersion = 4 → (⟨q.daddr4, q.getDestPort⟩ : IP4Port) = e →
        q.saddr4 = getServerAddr4 first.2 → nat.begin sm q = .ok (0, { nat with ip6p_ := first.1 }, sm) := by
  have hrun := Workers.Run.appRun (Workers.perform_run (FTPParser.only once noJunk) (.start (ftpConf .NONE)) ownServer)
  obtain ⟨x, hx⟩ := List.exists_mem_of_length_pos (l := announced ((Workers.perform (FTPParser.only once noJunk)
    (.start (ftpConf .NONE)) ownServer).1.map Prod.snd)) (by decide +kernel)
  obtain ⟨first, hfirst, hin, -⟩ := @announced_kept _ _ exampleNat64 _ _ _ _ (List.nodup_singleton _) hrun _ _ hx
  refine ⟨_, (Workers.perform (FTPParser.only once noJunk) (.start (ftpConf .NONE)) ownServer).2.sm, x.1, x.2, first,
    hx, hfirst, fun nat q hv hq hsrv ↦ ?_⟩
  rw [hin nat q hv hq, if_pos hsrv]

end Runs

end Nat64Alg
