import Nat64Alg.Order

namespace Nat64Alg

open Lib StateManager

variable {σ : Type} {ips : List IPv4Addr} {s s' : Threads σ} {a : Deed} {ls : List Deed}

/-- The packet that came in with a step, and the packet that was done with. -/
def Deed.taken : Deed → Option Parcel
  | .read x => some x
  | _ => none

def Deed.gone : Deed → Option Parcel
  | .finish _ x _ _ | .drop _ x => some x
  | _ => none

namespace Threads

/-- The packets the reader and the workers have, each where it is. -/
def inside (s : Threads σ) : List Parcel := s.reader.toList ++ (List.range T).flatMap (fun i : ℕ ↦ s.line i)

theorem perm_flatMap_change {A B : Type} [DecidableEq A] {l : List A} {w : A} (hw : w ∈ l) (hl : l.Nodup)
    {f g : A → List B} (hfg : ∀ i ≠ w, g i = f i) : ∃ rest, (l.flatMap f).Perm (f w ++ rest) ∧
      (l.flatMap g).Perm (g w ++ rest) := by
  refine ⟨(l.erase w).flatMap f, ?_, ?_⟩
  · exact (List.Perm.flatMap_right f (List.perm_cons_erase hw))
  · have hrest : (l.erase w).flatMap f = (l.erase w).flatMap g := by
      refine List.flatMap_congr (fun i hi ↦ (hfg i ?_).symm)
      rintro rfl
      exact hl.not_mem_erase hi
    rw [hrest]
    exact (List.Perm.flatMap_right g (List.perm_cons_erase hw))

theorem Worked.gone {w : Int} (h : s.Worked w a s') :
    s'.line w = s.line w ∧ a.gone = none ∨ ∃ x, s.line w = x :: s'.line w ∧ a.gone = some x := by
  cases h with
  | pop x xs hp hq => exact .inl ⟨by simp [line, goes, hp, hq, Place.parcel], rfl⟩
  | refuse x ok sm hp hr hn => exact .inr ⟨x, by simp [line, goes, hp, Place.parcel], rfl⟩
  | check x sm hp hr ht => exact .inl ⟨by simp [line, goes, hp, Place.parcel], rfl⟩
  | resolve6 x f sm hp hv hm => exact .inl ⟨by simp [line, goes, hp, Place.parcel], rfl⟩
  | resolve4 x f hp hv hm => exact .inl ⟨by simp [line, goes, hp, Place.parcel], rfl⟩
  | unknown x hp hv hm => exact .inr ⟨x, by simp [line, goes, hp, Place.parcel], rfl⟩
  | unclaimed x f hp ht => exact .inl ⟨by simp [line, goes, hp, Place.parcel], rfl⟩
  | claimed x f hp ht => exact .inl ⟨by simp [line, goes, hp, Place.parcel], rfl⟩
  | claim x f hp => exact .inl ⟨by simp [line, goes, hp, Place.parcel], rfl⟩
  | begun x f hp => exact .inl ⟨by simp [line, goes, hp, Place.parcel], rfl⟩
  | finish x f sm p sent hp hs => exact .inr ⟨x, by simp [line, goes, hp, Place.parcel], rfl⟩

/-- The queues are those of the workers, and no flow has any other worker. -/
structure Tied (s : Threads σ) : Prop where
  nats : ∀ w, (s.nats w).tid = w
  flow : ∀ g, (s.sm.flowAt g).tid < T
  reader : ∀ x, s.reader = some x → 0 ≤ x.tid ∧ x.tid < T
  line : ∀ i, s.line i ≠ [] → 0 ≤ i ∧ i < T

/-- The packets that came in are those done with and those still inside, each once; and they are numbered as
they come in. -/
structure Conserved (ls : List Deed) (s : Threads σ) : Prop where
  perm : (ls.filterMap Deed.taken).Perm (ls.filterMap Deed.gone ++ s.inside)
  count : (ls.filterMap Deed.taken).map Parcel.no = List.range s.count

theorem Tied.start (sm : StateManager σ) (h : ∀ g, (sm.flowAt g).tid < T) : (start sm).Tied :=
  ⟨fun _ ↦ rfl, h, fun _ hx ↦ (nomatch hx), fun _ hl ↦ absurd rfl hl⟩

theorem tunQueue_tid (hmode : s.sm.analysisMode = false) (h : ∀ g, (s.sm.flowAt g).tid < T) (p : Packet) :
    0 ≤ (tunQueue s.sm p).tid ∧ (tunQueue s.sm p).tid < T := by
  have hmod : 0 ≤ ((p.port_t.toNat % T : ℕ) : Int) ∧ ((p.port_t.toNat % T : ℕ) : Int) < T := by
    have := Nat.mod_lt p.port_t.toNat (show 0 < T by decide)
    omega
  unfold tunQueue
  dsimp only
  rw [getFlow_snd hmode]
  split
  · split
    case isTrue hf => exact ⟨hf, h _⟩
    case isFalse => exact hmod
  · exact hmod

theorem Step.tied (hips : (ips.flatMap poolOf).Nodup) (hmode : s.sm.analysisMode = false) (hs : s.Tied)
    (h : s.Step a s') : s'.Tied := by
  cases h with
  | read h =>
    obtain ⟨-, p, -, rfl, rfl⟩ := read_cases hmode h
    refine ⟨hs.nats, hs.flow, fun x hx ↦ ?_, hs.line⟩
    cases hx
    exact tunQueue_tid hmode hs.flow p
  | push h =>
    obtain ⟨x, hx, rfl, rfl⟩ := push_cases h
    refine ⟨hs.nats, hs.flow, fun x hx ↦ (nomatch hx), fun i hi ↦ ?_⟩
    rw [line_push] at hi
    split at hi
    case isTrue he => exact he ▸ hs.reader x hx
    case isFalse => exact hs.line i (by simpa using hi)
  | @work _ _ w hw h =>
    rw [work_iff] at h
    have hadv := h.advanced
    refine ⟨fun i ↦ (hadv.nats i).trans (hs.nats i), fun g ↦ ?_, fun x hx ↦ hs.reader x (hadv.reader ▸ hx),
      fun i hi ↦ ?_⟩
    · rcases h.calm hips with hcalm | ⟨x, f, -, -, rfl⟩
      · rw [hcalm.tid]
        exact hs.flow g
      · rcases eq_or_ne f g with rfl | hne
        · rcases lt_or_ge f s.sm.heap.length with hf | hf
          · rw [flowAt_setFlow hf]
            exact (hs.nats w).symm ▸ hw.2
          · rw [StateManager.setFlow, List.set_eq_of_length_le hf]
            exact hs.flow f
        · rw [flowAt_setFlow_ne hne]
          exact hs.flow g
    · obtain ⟨x, hx⟩ := List.exists_mem_of_ne_nil _ hi
      exact hs.line i (List.ne_nil_of_mem (hadv.mem_line hx))

theorem mem_workers {w : Int} (hw : 0 ≤ w ∧ w < T) : ∃ i ∈ List.range T, (i : Int) = w := by
  obtain ⟨n, rfl⟩ := Int.eq_ofNat_of_zero_le hw.1
  exact ⟨n, List.mem_range.mpr (by omega), rfl⟩

theorem perm_lines {w : Int} (hw : 0 ≤ w ∧ w < T) (hother : ∀ i ≠ w, s'.line i = s.line i) :
    ∃ rest, ((List.range T).flatMap (fun i : ℕ ↦ s.line i)).Perm (s.line w ++ rest) ∧
      ((List.range T).flatMap (fun i : ℕ ↦ s'.line i)).Perm (s'.line w ++ rest) := by
  obtain ⟨n, hn, rfl⟩ := mem_workers hw
  exact perm_flatMap_change (f := fun i : ℕ ↦ s.line i) (g := fun i : ℕ ↦ s'.line i) hn List.nodup_range
    (fun i hi ↦ hother i (by omega))

theorem Step.conserved (hmode : s.sm.analysisMode = false) (ht : s.Tied) (hs : s.Conserved ls) (h : s.Step a s') :
    s'.Conserved (ls ++ [a]) := by
  obtain ⟨hperm, hcount⟩ := hs
  cases h with
  | read h =>
    obtain ⟨hnone, p, -, rfl, rfl⟩ := read_cases hmode h
    refine ⟨?_, by simp [Deed.taken, List.filterMap_append, hcount, List.range_succ]⟩
    have hin : s.inside = (List.range T).flatMap (fun i : ℕ ↦ s.line i) := by simp [inside, hnone]
    rw [List.filterMap_append, List.filterMap_append]
    refine (List.perm_append_singleton _ _).trans ((hperm.cons _).trans ?_)
    rw [hin]
    simpa [Deed.gone, inside, line, List.filterMap_cons] using List.perm_middle.symm
  | push h =>
    obtain ⟨x, hx, rfl, rfl⟩ := push_cases h
    refine ⟨?_, by simpa [Deed.taken, List.filterMap_append, List.filterMap_cons] using hcount⟩
    obtain ⟨rest, h₁, h₂⟩ := @perm_lines _ s
      { s with reader := none, q := Function.update s.q x.tid (s.q x.tid ++ [x]) } x.tid (ht.reader x hx)
      (fun i hi ↦ by rw [line_push, if_neg hi, List.append_nil])
    rw [line_push, if_pos rfl] at h₂
    rw [List.filterMap_append, List.filterMap_append]
    simp only [Deed.taken, Deed.gone, List.filterMap_cons, List.filterMap_nil, List.append_nil]
    refine hperm.trans (List.Perm.append_left _ ?_)
    unfold inside
    rw [hx]
    refine ((h₁.cons x).trans ?_).trans h₂.symm
    rw [List.append_assoc]
    exact List.perm_middle.symm
  | @work _ _ w hw h =>
    rw [work_iff] at h
    have hadv := h.advanced
    obtain ⟨rest, h₁, h₂⟩ := perm_lines hw hadv.other
    have htaken : [a].filterMap Deed.taken = [] := by
      have hr := hadv.read
      cases a with
      | read x => exact absurd rfl (hr x)
      | _ => rfl
    refine ⟨?_, ?_⟩
    · rw [List.filterMap_append, List.filterMap_append, htaken, List.append_nil]
      refine hperm.trans ?_
      rw [List.append_assoc]
      refine List.Perm.append_left _ ?_
      unfold inside
      rw [hadv.reader]
      rcases h.gone with ⟨hl, hg⟩ | ⟨x, hl, hg⟩
      · rw [hl] at h₂
        simpa [hg] using List.Perm.append_left _ (h₁.trans h₂.symm)
      · rw [hl] at h₁
        have hmid := (List.Perm.append_left s.reader.toList (h₁.trans (h₂.symm.cons x))).trans List.perm_middle
        simpa [hg] using hmid
    · rw [List.filterMap_append, htaken, List.append_nil, hadv.count]
      exact hcount

theorem Step.bounded (hmode : s.sm.analysisMode = false) (hs : ∀ i, (s.q i).length ≤ QMAX + 1) (h : s.Step a s') :
    ∀ i, (s'.q i).length ≤ QMAX + 1 := by
  intro i
  cases h with
  | read h =>
    obtain ⟨-, p, -, -, rfl⟩ := read_cases hmode h
    exact hs i
  | push h =>
    unfold Threads.push at h
    split at h
    case h_2 => cases h
    case h_1 x hx =>
      split at h
      case isTrue => cases h
      case isFalse hq =>
        cases h
        rcases eq_or_ne i x.tid with rfl | hi
        · simp only [Function.update_self, List.length_append, List.length_singleton]
          omega
        · simp only [Function.update_of_ne hi]
          exact hs i
  | @work _ _ w _ h =>
    rw [work_iff] at h
    cases h with
    | pop x xs hp hq =>
      rcases eq_or_ne i w with rfl | hi
      · have hlen := hs i
        rw [hq, List.length_cons] at hlen
        simp only [Function.update_self]
        omega
      · simp only [Function.update_of_ne hi]
        exact hs i
    | _ => exact hs i

variable {prefix_ : IPv6Addr} {extra : EXTRAType} {protocols : OrderedMap String Protocol nameLt}

theorem flowAt_configured (g : ℕ) :
    ((configured prefix_ extra protocols ips : StateManager σ).flowAt g) = Flow.new44 .null .null := by
  rw [flowAt, configured_heap]
  rfl

theorem conserved_run (hips : (ips.flatMap poolOf).Nodup)
    (h : Run Step (start (configured prefix_ extra protocols ips : StateManager σ)) ls s) :
    s.Placed ips ls ∧ s.Tied ∧ s.Conserved ls ∧ ∀ i, (s.q i).length ≤ QMAX + 1 := by
  refine h.history (I := fun ls s ↦ s.Placed ips ls ∧ s.Tied ∧ s.Conserved ls ∧ ∀ i, (s.q i).length ≤ QMAX + 1) ?_
    ⟨.start _ _ _ _, .start _ (fun g ↦ ?_), ⟨.nil, rfl⟩, fun _ ↦ Nat.zero_le _⟩
  · rintro ls s a s' ⟨hp, ht, hc, hq⟩ hstep
    exact ⟨hstep.placed hips hp, hstep.tied hips hp.sound.mode ht, hstep.conserved hp.sound.mode ht hc,
      hstep.bounded hp.sound.mode hq⟩
  · rw [flowAt_configured]
    exact (by decide : (-1 : Int) < T)

/-- The numbers of the packets inside tell them apart, and each is in one place. -/
structure Apart (s : Threads σ) : Prop where
  lines : ∀ i j, ∀ x ∈ s.line i, ∀ y ∈ s.line j, x.no = y.no → i = j ∧ x = y
  reader : ∀ x, s.reader = some x → ∀ i, ∀ y ∈ s.line i, x.no ≠ y.no
  once : ∀ i, ((s.line i).map Parcel.no).Nodup
  fresh : ∀ x, (s.reader = some x ∨ ∃ i, x ∈ s.line i) → x.no < s.count

theorem mem_inside {x : Parcel} (ht : s.Tied) : x ∈ s.inside ↔ s.reader = some x ∨ ∃ i, x ∈ s.line i := by
  unfold inside
  rw [List.mem_append, Option.mem_toList, List.mem_flatMap]
  refine or_congr_right ⟨fun ⟨i, _, hx⟩ ↦ ⟨i, hx⟩, fun ⟨i, hx⟩ ↦ ?_⟩
  obtain ⟨n, hn, rfl⟩ := mem_workers (ht.line i (List.ne_nil_of_mem hx))
  exact ⟨n, hn, hx⟩

theorem Conserved.nodup (hs : s.Conserved ls) :
    ((ls.filterMap Deed.gone).map Parcel.no ++ s.inside.map Parcel.no).Nodup := by
  rw [← List.map_append, ← (hs.perm.map Parcel.no).nodup_iff, hs.count]
  exact List.nodup_range

theorem Conserved.apart (hp : s.Placed ips ls) (ht : s.Tied) (hs : s.Conserved ls) : s.Apart := by
  have hnodup := (List.nodup_append.mp hs.nodup).2.1
  have hinj : ∀ x ∈ s.inside, ∀ y ∈ s.inside, x.no = y.no → x = y := fun x hx y hy ↦
    List.inj_on_of_nodup_map hnodup hx hy
  have hline : ∀ {i : Int} {x : Parcel}, x ∈ s.line i → x ∈ s.inside := fun hx ↦ (mem_inside ht).mpr (.inr ⟨_, hx⟩)
  refine ⟨fun i j x hx y hy hno ↦ ?_, fun x hx i y hy hno ↦ ?_, fun i ↦ ?_, fun x hx ↦ ?_⟩
  · obtain rfl := hinj x (hline hx) y (hline hy) hno
    exact ⟨(hp.line i x hx).2.symm.trans (hp.line j x hy).2, rfl⟩
  · obtain rfl := hinj x ((mem_inside ht).mpr (.inl hx)) y (hline hy) hno
    have hdisj := List.nodup_append.mp hnodup.of_map
    obtain ⟨n, hn, rfl⟩ := mem_workers (ht.line i (List.ne_nil_of_mem hy))
    exact hdisj.2.2 x (by simp [hx]) x (List.mem_flatMap.mpr ⟨n, hn, hy⟩) rfl
  · by_cases hnil : s.line i = []
    · rw [hnil]
      exact List.nodup_nil
    · obtain ⟨n, hn, rfl⟩ := mem_workers (ht.line i hnil)
      have hsub : (s.line n).Sublist ((List.range T).flatMap (fun i : ℕ ↦ s.line i)) :=
        List.sublist_flatten_of_mem (List.mem_map.mpr ⟨n, hn, rfl⟩)
      exact hnodup.sublist ((hsub.trans (List.sublist_append_right _ _)).map _)
  · have hmem : x.no ∈ (ls.filterMap Deed.taken).map Parcel.no :=
      List.mem_map_of_mem (hs.perm.mem_iff.mpr (List.mem_append_right _ ((mem_inside ht).mpr hx)))
    rw [hs.count] at hmem
    exact List.mem_range.mp hmem

theorem length_inside (hq : ∀ i, (s.q i).length ≤ QMAX + 1) : s.inside.length ≤ 1 + T * (QMAX + 2) := by
  have hline : ∀ i, (s.line i).length ≤ QMAX + 2 := by
    intro i
    have hi := hq i
    unfold line
    rw [List.length_append]
    cases (s.place i).parcel <;> simp <;> omega
  have hreader : s.reader.toList.length ≤ 1 := by cases s.reader <;> simp
  have hworkers : List.range T = [0, 1, 2, 3] := by decide
  have h₀ := hline (0 : ℕ)
  have h₁ := hline (1 : ℕ)
  have h₂ := hline (2 : ℕ)
  have h₃ := hline (3 : ℕ)
  rw [inside, hworkers, show T = 4 from rfl]
  simp only [List.length_append, List.flatMap_cons, List.flatMap_nil, List.length_nil]
  omega

/-- Over every interleaving, the packets that came in are those sent or dropped and those still inside, each
exactly once, and there is a bound to how many can be inside. -/
theorem packets_conserved (hips : ips.Nodup)
    (h : Run Step (start (configured prefix_ extra protocols ips : StateManager σ)) ls s) :
    (ls.filterMap Deed.taken).Perm (ls.filterMap Deed.gone ++ s.inside) ∧
      (ls.filterMap Deed.taken).map Parcel.no = List.range s.count ∧ s.inside.length ≤ 1 + T * (QMAX + 2) := by
  obtain ⟨-, -, hc, hq⟩ := conserved_run (nodup_pools hips) h
  exact ⟨hc.perm, hc.count, length_inside hq⟩

/-- A client's packet sent by its worker while the answer to it is still in a queue. -/
theorem packets_conserved_midway : ∃ (ls : List Deed) (s : Threads Unit),
    (ls.filterMap Deed.gone).map Parcel.no = [0] ∧ s.inside.map Parcel.no = [1] ∧
      (ls.filterMap Deed.taken).Perm (ls.filterMap Deed.gone ++ s.inside) := by
  have hrun := perform_run (.start (exampleConf : StateManager Unit)) (answered.take 11)
  exact ⟨_, _, by decide +kernel, by decide +kernel, (packets_conserved (List.nodup_singleton _) hrun).1⟩

end Threads

end Nat64Alg
