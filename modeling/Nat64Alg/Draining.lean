import Nat64Alg.Linearized

namespace Nat64Alg

open Lib StateManager

variable {σ : Type} {conf : Conf} {s s' : Threads σ} {a : Deed} {ls : List Deed}

def Place.left : Place → ℕ
  | .idle => 0
  | .popped _ => 6
  | .checked _ => 5
  | .mapped _ _ => 4
  | .unclaimed _ _ => 3
  | .claimed _ _ => 2
  | .begun _ _ => 1

namespace Threads

def left (s : Threads σ) : ℕ :=
  8 * s.reader.toList.length + ((List.range T).map (fun i : ℕ ↦ 7 * (s.q i).length + (s.place i).left)).sum

def Stuck (s : Threads σ) : Prop := ∃ w x, s.place w = .checked x ∧ x.pkt.getIPVersion = 4 ∧
  (s.sm.doMapping ⟨x.pkt.saddr6, x.pkt.getSourcePort⟩ x.pkt.daddr6).1 = none

theorem sum_change {l : List ℕ} {w : ℕ} (hw : w ∈ l) (hl : l.Nodup) {f g : ℕ → ℕ} (hfg : ∀ i ≠ w, g i = f i) :
    (l.map g).sum + f w = (l.map f).sum + g w := by
  have hf := ((List.perm_cons_erase hw).map f).sum_nat
  have hg := ((List.perm_cons_erase hw).map g).sum_nat
  have hrest : (l.erase w).map g = (l.erase w).map f := by
    refine List.map_congr_left (fun i hi ↦ hfg i ?_)
    rintro rfl
    exact hl.not_mem_erase hi
  rw [List.map_cons, List.sum_cons] at hf hg
  rw [hrest] at hg
  omega

theorem Step.left_lt (hmode : s.sm.analysisMode = false) (ht : s.Tied) (h : s.Step a s') (hr : a.taken = none) :
    s'.left < s.left := by
  cases h with
  | read h =>
    obtain ⟨-, p, -, rfl, -⟩ := read_cases hmode h
    cases hr
  | push h =>
    obtain ⟨x, hx, rfl, rfl⟩ := push_cases h
    obtain ⟨n, hn, he⟩ := mem_workers (ht.reader x hx)
    have hsum := @sum_change (List.range T) n hn List.nodup_range
      (fun i : ℕ ↦ 7 * (s.q i).length + (s.place i).left)
      (fun i : ℕ ↦ 7 * (Function.update s.q x.tid (s.q x.tid ++ [x]) i).length + (s.place i).left)
      (fun i hi ↦ by simp only [Function.update_of_ne (show (i : Int) ≠ x.tid by omega)])
    simp only [he, Function.update_self, List.length_append, List.length_singleton] at hsum
    simp only [left, hx, Option.toList_none, Option.toList_some, List.length_nil, List.length_singleton]
    omega
  | @work _ _ w hw h =>
    rw [work_iff] at h
    have hadv := h.advanced
    obtain ⟨n, hn, he⟩ := mem_workers hw
    have hworker : 7 * (s'.q w).length + (s'.place w).left < 7 * (s.q w).length + (s.place w).left := by
      cases h with
      | pop x xs hp hq =>
        simp only [goes, Function.update_self, hp, hq, List.length_cons, Place.left]
        omega
      | claimed x f hp ht => simp [goes, hp, Place.left]
      | _ => simp_all [goes, Place.left]
    have hother : ∀ i : Int, i ≠ w → s'.q i = s.q i := by
      intro i hi
      cases h with
      | pop x xs hp hq => exact Function.update_of_ne hi _ _
      | _ => rfl
    have hsum := @sum_change (List.range T) n hn List.nodup_range
      (fun i : ℕ ↦ 7 * (s.q i).length + (s.place i).left) (fun i : ℕ ↦ 7 * (s'.q i).length + (s'.place i).left)
      (fun i hi ↦ by simp only [hother i (by omega), hadv.place i (by omega)])
    simp only [he] at hsum
    simp only [left, hadv.reader]
    omega

theorem work_progress {c : Atomic (List Key64) ℕ (List Sent)} (hs : Simulates conf s c) {w : Int}
    (hline : s.line w ≠ []) (hshort : ∀ x ∈ s.line w, x.pkt.ibuf_len_ ≤ READ_LEN) :
    s.Stuck ∨ ∃ a s', s.Worked w a s' ∧ a.taken = none := by
  have howes := hs.place w
  rcases hp : s.place w with _ | x | x | ⟨x, f⟩ | ⟨x, f⟩ | ⟨x, f⟩ | ⟨x, f⟩ <;> rw [hp] at howes
  · cases hq : s.q w with
    | nil => exact absurd (by simp [line, hp, hq, Place.parcel]) hline
    | cons x xs => exact .inr ⟨_, _, .pop x xs hp hq, rfl⟩
  · obtain ⟨ok, sm, hr, -, -⟩ := hs.serves.inRange howes.2
    by_cases hn : ok = true ∧ (x.pkt.isTCP || x.pkt.isUDP) = true
    · obtain ⟨rfl, ht⟩ := hn
      exact .inr ⟨_, _, .check x sm hp hr ht, rfl⟩
    · exact .inr ⟨_, _, .refuse x ok sm hp hr hn, rfl⟩
  · by_cases hv : x.pkt.getIPVersion = 4
    · rcases hm : s.sm.doMapping ⟨x.pkt.saddr6, x.pkt.getSourcePort⟩ x.pkt.daddr6 with ⟨r, sm⟩
      cases r with
      | none => exact .inl ⟨w, x, hp, hv, by rw [hm]⟩
      | some f => exact .inr ⟨_, _, .resolve6 x f sm hp hv hm, rfl⟩
    · cases hm : s.sm.getMapping4 ⟨x.pkt.daddr4, x.pkt.getDestPort⟩ x.pkt.saddr4 with
      | none => exact .inr ⟨_, _, .unknown x hp hv hm, rfl⟩
      | some f => exact .inr ⟨_, _, .resolve4 x f hp hv hm, rfl⟩
  · rcases lt_or_ge (s.sm.flowAt f).tid 0 with ht | ht
    · exact .inr ⟨_, _, .unclaimed x f hp ht, rfl⟩
    · exact .inr ⟨_, _, .claimed x f hp ht, rfl⟩
  · exact .inr ⟨_, _, .claim x f hp, rfl⟩
  · exact .inr ⟨_, _, .begun x f hp, rfl⟩
  · have hmem : x ∈ s.line w := Simulates.mem_line (by rw [hp]; rfl)
    obtain ⟨⟨sm, q, sent⟩, hsend⟩ := @send_arrived _ s.sm _ { s.nats w with modified_ := false } howes.1 (hshort x hmem)
    exact .inr ⟨_, _, .finish x f sm q sent hp hsend, rfl⟩

theorem progress {c : Atomic (List Key64) ℕ (List Sent)} (hs : Simulates conf s c) (ht : s.Tied)
    (hin : s.inside ≠ []) (hshort : ∀ x ∈ s.inside, x.pkt.ibuf_len_ ≤ READ_LEN) :
    s.Stuck ∨ ∃ a s', s.Step a s' ∧ a.taken = none := by
  have hwork : ∀ w, s.line w ≠ [] → s.Stuck ∨ ∃ a s', s.Step a s' ∧ a.taken = none := by
    intro w hw
    rcases work_progress hs hw (fun x hx ↦ hshort x ((mem_inside ht).mpr (.inr ⟨w, hx⟩)))
      with hstuck | ⟨a, s', hstep, ha⟩
    · exact .inl hstuck
    · exact .inr ⟨a, s', hstep.step (ht.line w hw), ha⟩
  obtain ⟨x, hx⟩ := List.exists_mem_of_ne_nil _ hin
  rcases (mem_inside ht).mp hx with hx | ⟨w, hx⟩
  · by_cases hroom : QMAX < (s.q x.tid).length
    · refine hwork x.tid (fun hnil ↦ ?_)
      have hq : s.q x.tid = [] := (List.append_eq_nil_iff.mp hnil).2
      rw [hq] at hroom
      exact absurd hroom (Nat.not_lt_zero _)
    · refine .inr ⟨.push x, { s with reader := none, q := Function.update s.q x.tid (s.q x.tid ++ [x]) }, .push ?_, rfl⟩
      unfold push
      rw [hx]
      exact if_neg hroom
  · exact hwork w (List.ne_nil_of_mem hx)

variable {extra : EXTRAType} {protocols : OrderedMap String Protocol nameLt}

theorem signs_commit {k : ℕ} {p : Packet} (h : .commit k p ∈ a.signs) :
    ∃ w x, (a = .drop w x ∨ ∃ f, a = .resolve w x f) ∧ x.pkt = p := by
  cases a with
  | drop w x => exact ⟨w, x, .inl rfl, by simp_all [Deed.signs]⟩
  | resolve w x f => exact ⟨w, x, .inr ⟨f, rfl⟩, by simp_all [Deed.signs]⟩
  | _ => simp [Deed.signs] at h

theorem Worked.holds {w v : Int} {x : Parcel} (h : s.Worked w a s') (ha : a = .drop v x ∨ ∃ f, a = .resolve v x f) :
    x ∈ s.line w := by
  rcases ha with rfl | ⟨f, rfl⟩
  · cases h with
    | refuse _ _ _ hp _ _ => exact Simulates.mem_line (by rw [hp]; rfl)
    | unknown _ hp _ _ => exact Simulates.mem_line (by rw [hp]; rfl)
  · exact (h.advanced.resolve v x f rfl).2

theorem committed_taken (hips : conf.ips.Nodup)
    (h : Run Step (start (configured conf.prefix_ extra protocols conf.ips : StateManager σ)) ls s) :
    ∀ p ∈ (commits (ls.flatMap Deed.signs)).map Prod.snd, ∃ x ∈ ls.filterMap Deed.taken, x.pkt = p := by
  intro p hp
  obtain ⟨⟨k, q⟩, hk, hq⟩ := List.mem_map.mp hp
  obtain ⟨sign, hsign, hcommit⟩ := List.mem_filterMap.mp hk
  obtain rfl : sign = .commit k p := by
    cases sign <;> simp_all [Sign.committed]
  obtain ⟨a, ha, hsa⟩ := List.mem_flatMap.mp hsign
  obtain ⟨w, x, hax, hx⟩ := signs_commit hsa
  obtain ⟨pre, post, rfl⟩ := List.append_of_mem ha
  obtain ⟨t, t', hpre, hstep, -⟩ := h.at_label
  obtain ⟨hplaced, ht, hc, -⟩ := conserved_run (nodup_pools hips) hpre
  refine ⟨x, ?_, hx⟩
  rw [List.filterMap_append]
  refine List.mem_append_left _ (hc.perm.mem_iff.mpr (List.mem_append_right _ ((mem_inside ht).mpr ?_)))
  cases hstep with
  | read hr =>
    obtain ⟨-, p, -, rfl, -⟩ := read_cases hplaced.sound.mode hr
    rcases hax with hax | ⟨f, hax⟩ <;> cases hax
  | push hr =>
    obtain ⟨y, -, rfl, -⟩ := push_cases hr
    rcases hax with hax | ⟨f, hax⟩ <;> cases hax
  | @work _ _ v _ hr => exact .inr ⟨v, (work_iff.mp hr).holds hax⟩

theorem stuck_exhausted (hips : conf.ips.Nodup)
    (h : Run Step (start (configured conf.prefix_ extra protocols conf.ips : StateManager σ)) ls s) (hstuck : s.Stuck) :
    conf.ips.length * poolSize <
      ((clients ((ls.filterMap Deed.taken).map (fun x ↦ conf.arrival x.pkt))).map clientPort).toFinset.card := by
  obtain ⟨c, hrun, hsim⟩ := simulated_run hips h
  obtain ⟨-, ht, hc, -⟩ := conserved_run (nodup_pools hips) h
  obtain ⟨outs, hlin⟩ := Atomic.linearized hrun
  obtain ⟨hheld, hroom, -⟩ := Conf.run_translator.mp hlin.legal
  obtain ⟨w, x, hp, hv, hnone⟩ := hstuck
  have howes := hsim.place w
  rw [hp] at howes
  obtain ⟨-, -, -, harr⟩ := howes
  rw [if_pos hv] at harr
  have hstop : nat64 conf.pool c.state (conf.arrival x.pkt) = none := by
    rw [harr]
    rcases hsim.serves.toRepresents.doMapping hips (Prod.eta (s.sm.doMapping _ _)).symm with
      ⟨f, held', hf, -⟩ | ⟨-, hnat⟩
    · exact absurd (hf.symm.trans hnone) (by simp)
    · exact hnat
  have hover : conf.pool.length < (conf.made ((commits (ls.flatMap Deed.signs)).map Prod.snd ++ [x.pkt])).length := by
    by_contra hle
    have hmade : conf.made ((commits (ls.flatMap Deed.signs)).map Prod.snd ++ [x.pkt]) =
        Allotment.firsts clientPort c.state (clients [conf.arrival x.pkt]) := by
      rw [hheld]
      unfold Conf.made clients
      rw [List.map_append, List.filterMap_append]
      exact List.foldl_append
    rw [hmade] at hle
    rw [(nat64_iff hroom).mpr ⟨rfl, not_lt.mp hle, rfl⟩] at hstop
    cases hstop
  rw [← length_pool]
  refine hover.trans_le ?_
  rw [Conf.length_made]
  refine Finset.card_le_card (fun port hport ↦ ?_)
  simp only [clients, List.mem_toFinset, List.mem_map, List.mem_filterMap, List.mem_append,
    List.mem_singleton] at hport ⊢
  obtain ⟨key, ⟨arr, ⟨p, hmem, rfl⟩, hkey⟩, rfl⟩ := hport
  obtain ⟨y, hy, rfl⟩ : ∃ y ∈ ls.filterMap Deed.taken, y.pkt = p := by
    rcases hmem with hmem | rfl
    · exact committed_taken hips h p (List.mem_map.mpr hmem)
    · refine ⟨x, hc.perm.mem_iff.mpr (List.mem_append_right _ ((mem_inside ht).mpr (.inr ⟨w, ?_⟩))), rfl⟩
      exact Simulates.mem_line (by rw [hp]; rfl)
  exact ⟨key, ⟨_, ⟨y, List.mem_filterMap.mp hy, rfl⟩, hkey⟩, rfl⟩

theorem left_run (hips : conf.ips.Nodup)
    (h : Run Step (start (configured conf.prefix_ extra protocols conf.ips : StateManager σ)) ls s) {ms : List Deed}
    (hms : Run Step s ms s') (hquiet : ms.filterMap Deed.taken = []) : ms.length + s'.left ≤ s.left := by
  induction hms generalizing ls with
  | nil => simp
  | @cons s t s' a ms hstep _ ih =>
    obtain ⟨hp, ht, -, -⟩ := conserved_run (nodup_pools hips) h
    rw [List.filterMap_cons] at hquiet
    split at hquiet
    case h_2 => cases hquiet
    case h_1 ha =>
      have hlt := hstep.left_lt hp.sound.mode ht ha
      have hle := ih (h.append (.one hstep)) hquiet
      rw [List.length_cons]
      omega

/-- However the steps interleave, once nothing more is read everything is done with in a bounded number of
steps, as long as the clients read use no more ports than the pool has endpoints. -/
theorem drains (hips : conf.ips.Nodup)
    (h : Run Step (start (configured conf.prefix_ extra protocols conf.ips : StateManager σ)) ls s)
    (hshort : ∀ x ∈ ls.filterMap Deed.taken, x.pkt.ibuf_len_ ≤ READ_LEN)
    (hports : ((clients ((ls.filterMap Deed.taken).map (fun x ↦ conf.arrival x.pkt))).map clientPort).toFinset.card ≤
      conf.ips.length * poolSize)
    {ms : List Deed} (hms : Run Step s ms s') (hquiet : ms.filterMap Deed.taken = []) :
    ms.length + s'.left ≤ s.left ∧ (s'.inside = [] ∨ ∃ a s'', s'.Step a s'' ∧ a.taken = none) := by
  refine ⟨left_run hips h hms hquiet, or_iff_not_imp_left.mpr (fun hin ↦ ?_)⟩
  have hall := h.append hms
  have htaken : (ls ++ ms).filterMap Deed.taken = ls.filterMap Deed.taken := by
    rw [List.filterMap_append, hquiet, List.append_nil]
  obtain ⟨-, ht, hc, -⟩ := conserved_run (nodup_pools hips) hall
  obtain ⟨c, -, hsim⟩ := simulated_run hips hall
  have hinside : ∀ x ∈ s'.inside, x.pkt.ibuf_len_ ≤ READ_LEN := fun x hx ↦
    hshort x (htaken ▸ hc.perm.mem_iff.mpr (List.mem_append_right _ hx))
  refine (progress hsim ht hin hinside).resolve_left (fun hstuck ↦ ?_)
  have hover := stuck_exhausted hips hall hstuck
  rw [htaken] at hover
  omega

/-- The two packets read are done with after a number of steps known beforehand. -/
theorem drains_answered : ∃ (ls ms : List Deed) (s s' : Threads Unit), Run Step (.start exampleConf) ls s ∧
    Run Step s ms s' ∧ s.inside ≠ [] ∧ ms.length + s'.left ≤ s.left ∧ s'.inside = [] := by
  have hrun := perform_run (.start (exampleConf : StateManager Unit)) (answered.take 10)
  have hmore := perform_run (perform (.start (exampleConf : StateManager Unit)) (answered.take 10)).2 (answered.drop 10)
  have hle := @drains _ exampleNat64 _ _ _ _ _ (List.nodup_singleton _) hrun (by decide +kernel) (by decide +kernel) _
    hmore (by decide +kernel)
  exact ⟨_, _, _, _, hrun, hmore, by decide +kernel, hle.1, by decide +kernel⟩

end Threads

end Nat64Alg
