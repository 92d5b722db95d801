import Nat64Alg.Splicing

namespace Nat64Alg

open Lib

/-- A place the copy loop reads: an operation, a byte of the text of one, or a byte of the source. -/
inductive Access
  | ops (i : ℕ)
  | newdata (i : ℕ) (j : Int)
  | source (j : Int)
deriving DecidableEq, Repr

def Access.InRange (n : Int) (ops : List Operation) : Access → Prop
  | .ops i => i < ops.length
  | .newdata i j => 0 ≤ j ∧ ∃ o, ops[i]? = some o ∧ j < o.newdata.length
  | .source j => 0 ≤ j ∧ j < n

/-- What one turn of the loop reads. The test at its head looks at an operation unless the loop
copies from one already. -/
def Cursor.reads (ops : List Operation) (offset : Int) (c : Cursor) : List Access :=
  let e := c.enter ops offset
  (if c.inside then [] else [.ops c.cnt]) ++
    if e.inside then [.ops e.cnt, .newdata e.cnt e.ps] else [.source e.ps]

/-- What `n` turns of the loop read. -/
def copyReads (s : Mem) (ops : List Operation) (offset : Int) : ℕ → Cursor → List Access
  | 0, _ => []
  | n + 1, c => c.reads ops offset ++ copyReads s ops offset n (c.step s ops offset).2

/-- Operations on a payload of `n` bytes: their ranges lie in it, and no two of them overlap. -/
structure Within (n : Int) (ops : List Operation) : Prop where
  range : ∀ o ∈ ops, 0 ≤ o.start_pos ∧ o.start_pos ≤ o.end_pos ∧ o.end_pos ≤ n
  disjoint : ops.Pairwise Operation.Disjoint

/-- The loop comes out of the operation past the start of the next one, or, out of a deletion, at it. -/
def Operation.Misses (o : Operation) (rest : List Operation) : Prop :=
  ∃ q ∈ rest.head?, q.start_pos < o.end_pos ∨ o.newdata = [] ∧ q.start_pos = o.end_pos

instance (o : Operation) (rest : List Operation) : Decidable (o.Misses rest) := by
  unfold Operation.Misses
  infer_instance

/-- The loop comes to every operation and the payload ends with the last of them, or one byte behind a
deletion; or it misses one, and those it misses do not make the payload longer. -/
def StaysInside (n : Int) : List Operation → Prop
  | [] => False
  | o :: rest =>
    if o.Misses rest then (rest.map Operation.delta).sum ≤ 0
    else if rest = [] then o.end_pos = n ∨ o.newdata = [] ∧ o.end_pos + 1 = n
    else StaysInside n rest

section Reads

variable {s : Mem} {ops : List Operation} {offset n : Int}

/-- All that `k` turns of the loop read is there. -/
def AllInRange (s : Mem) (n : Int) (ops : List Operation) (offset : Int) (k : ℕ) (c : Cursor) : Prop :=
  ∀ a ∈ copyReads s ops offset k c, a.InRange n ops

theorem allInRange_zero (c : Cursor) : AllInRange s n ops offset 0 c := fun _ ha ↦ nomatch ha

theorem allInRange_succ {k : ℕ} {c : Cursor} : AllInRange s n ops offset (k + 1) c ↔
    (∀ a ∈ c.reads ops offset, a.InRange n ops) ∧ AllInRange s n ops offset k (c.step s ops offset).2 :=
  List.forall_mem_append

theorem allInRange_copy {cnt k : ℕ} {ps : Int}
    (henter : (⟨cnt, false, ps⟩ : Cursor).enter ops offset = ⟨cnt, false, ps⟩) :
    AllInRange s n ops offset (k + 1) ⟨cnt, false, ps⟩ ↔
      (cnt < ops.length ∧ 0 ≤ ps ∧ ps < n) ∧ AllInRange s n ops offset k ⟨cnt, false, ps + 1⟩ := by
  rw [allInRange_succ]
  simp [Cursor.reads, Cursor.step, Cursor.emit, henter, Access.InRange]

theorem allInRange_plain {cnt : ℕ} {ps : Int} (hcnt : cnt < ops.length) (m k : ℕ) (h₀ : 0 ≤ ps) (hn : ps + m ≤ n)
    (h : ∀ o, ops[cnt]? = some o → ps + m ≤ o.start_pos - offset) :
    AllInRange s n ops offset (m + k) ⟨cnt, false, ps⟩ ↔ AllInRange s n ops offset k ⟨cnt, false, ps + m⟩ := by
  induction m generalizing ps with
  | zero => simp
  | succ m ih =>
    have henter : (⟨cnt, false, ps⟩ : Cursor).enter ops offset = ⟨cnt, false, ps⟩ :=
      enter_before (fun o ho ↦ by have := h o ho; omega)
    rw [Nat.add_right_comm, allInRange_copy henter, ih (by omega) (by omega) (fun o ho ↦ by have := h o ho; omega),
      show ps + 1 + (m : Int) = ps + (m + 1 : ℕ) by omega]
    exact and_iff_right ⟨hcnt, h₀, by omega⟩

theorem allInRange_past {cnt : ℕ} {ps : Int} (m : ℕ) (h₀ : 0 ≤ ps)
    (h : ∀ o, ops[cnt]? = some o → o.start_pos - offset < ps) :
    AllInRange s n ops offset m ⟨cnt, false, ps⟩ ↔ m = 0 ∨ cnt < ops.length ∧ ps + m ≤ n := by
  induction m generalizing ps with
  | zero => exact iff_of_true (allInRange_zero _) (.inl rfl)
  | succ m ih =>
    rw [allInRange_copy (enter_past h), ih (by omega) (fun o ho ↦ by have := h o ho; omega)]
    omega

theorem lt_length {cnt : ℕ} {o : Operation} (ho : ops[cnt]? = some o) : cnt < ops.length :=
  (List.getElem?_eq_some_iff.mp ho).1

theorem reads_inside {cnt j : ℕ} {o : Operation} (ho : ops[cnt]? = some o) (hj : j < o.newdata.length) :
    ∀ a ∈ (⟨cnt, true, j⟩ : Cursor).reads ops offset, a.InRange n ops := by
  have hreads : (⟨cnt, true, j⟩ : Cursor).reads ops offset = [.ops cnt, .newdata cnt j] := by
    simp [Cursor.reads, Cursor.enter, ho]
  rw [hreads]
  exact List.forall_mem_cons.mpr ⟨lt_length ho, List.forall_mem_singleton.mpr ⟨Int.natCast_nonneg j, o, ho, by omega⟩⟩

theorem allInRange_inside {cnt : ℕ} {o : Operation} (ho : ops[cnt]? = some o) (j k : ℕ)
    (hj : j < o.newdata.length) : AllInRange s n ops offset (o.newdata.length - j + k) ⟨cnt, true, j⟩ ↔
      AllInRange s n ops offset k ⟨cnt + 1, false, o.end_pos - offset⟩ := by
  obtain ⟨m, hm⟩ : ∃ m, o.newdata.length = j + 1 + m := ⟨o.newdata.length - j - 1, by omega⟩
  induction m generalizing j with
  | zero =>
    have hlast : ((j : Int) + 1 == o.newdata.length) = true := by simp; omega
    rw [show o.newdata.length - j + k = k + 1 by omega, allInRange_succ, and_iff_right (reads_inside ho hj)]
    simp [Cursor.step, Cursor.enter, Cursor.emit, ho, hlast]
  | succ m ih =>
    have hnot : ((j : Int) + 1 == o.newdata.length) = false := by simp; omega
    rw [show o.newdata.length - j + k = o.newdata.length - (j + 1) + k + 1 by omega, allInRange_succ,
      and_iff_right (reads_inside ho hj), ← ih (j + 1) (by omega) (by omega)]
    simp [Cursor.step, Cursor.enter, Cursor.emit, ho, hnot]

theorem allInRange_enter {cnt k : ℕ} {o : Operation} (ho : ops[cnt]? = some o) (hne : o.newdata ≠ []) :
    AllInRange s n ops offset (o.newdata.length + k) ⟨cnt, false, o.start_pos - offset⟩ ↔
      AllInRange s n ops offset k ⟨cnt + 1, false, o.end_pos - offset⟩ := by
  have hpos := List.length_pos_iff.mpr hne
  have hinside := @allInRange_inside s ops offset n cnt o ho 0 k hpos
  rw [Nat.sub_zero] at hinside
  rw [← hinside]
  obtain ⟨m, hm⟩ := Nat.exists_eq_succ_of_ne_zero (Nat.ne_of_gt hpos)
  rw [hm, Nat.succ_add, allInRange_succ, allInRange_succ]
  have hreads : (⟨cnt, false, o.start_pos - offset⟩ : Cursor).reads ops offset =
      .ops cnt :: (⟨cnt, true, (0 : ℕ)⟩ : Cursor).reads ops offset := by
    simp [Cursor.reads, Cursor.enter, ho, hne]
  have hstep : (⟨cnt, false, o.start_pos - offset⟩ : Cursor).step s ops offset =
      (⟨cnt, true, (0 : ℕ)⟩ : Cursor).step s ops offset := by
    simp [Cursor.step, Cursor.enter, ho, hne]
  rw [hreads, hstep, List.forall_mem_cons, and_assoc]
  exact and_iff_right (lt_length ho)

theorem allInRange_delete {cnt k : ℕ} {o : Operation} (ho : ops[cnt]? = some o) (hnil : o.newdata = []) :
    AllInRange s n ops offset (k + 1) ⟨cnt, false, o.start_pos - offset⟩ ↔
      (0 ≤ o.end_pos - offset ∧ o.end_pos - offset < n) ∧
        AllInRange s n ops offset k ⟨cnt + 1, false, o.end_pos - offset + 1⟩ := by
  have henter : (⟨cnt, false, o.start_pos - offset⟩ : Cursor).enter ops offset =
      ⟨cnt + 1, false, o.end_pos - offset⟩ := by
    simp [Cursor.enter, ho, hnil]
  have hreads : (⟨cnt, false, o.start_pos - offset⟩ : Cursor).reads ops offset =
      [.ops cnt, .source (o.end_pos - offset)] := by
    simp [Cursor.reads, henter]
  have hstep : ((⟨cnt, false, o.start_pos - offset⟩ : Cursor).step s ops offset).2 =
      ⟨cnt + 1, false, o.end_pos - offset + 1⟩ := by
    simp [Cursor.step, Cursor.emit, henter]
  rw [allInRange_succ, hreads, hstep, List.forall_mem_cons, List.forall_mem_singleton, and_assoc]
  exact and_iff_right (lt_length ho)

end Reads

section Order

variable {s : Mem} {ops rest : List Operation} {n i : Int} {o : Operation}

theorem behind (h : ∀ x ∈ o :: rest, x.start_pos ≤ x.end_pos ∧ x.end_pos ≤ n)
    (hdis : (o :: rest).Pairwise Operation.Disjoint)
    (hsorted : (o :: rest).Pairwise (fun a b ↦ a.start_pos ≤ b.start_pos)) :
    ∀ x ∈ rest, o.end_pos ≤ x.start_pos ∨ x.start_pos = x.end_pos := by
  rw [List.pairwise_cons] at hdis hsorted
  rw [List.forall_mem_cons] at h
  intro x hx
  have := h.2 x hx
  have := hsorted.1 x hx
  rcases hdis.1 x hx with h' | h' <;> omega

theorem sum_delta_ge (h : ∀ x ∈ ops, x.start_pos ≤ x.end_pos ∧ x.end_pos ≤ n)
    (hi : ∀ x ∈ ops, i ≤ x.start_pos ∨ x.start_pos = x.end_pos) (hdis : ops.Pairwise Operation.Disjoint)
    (hsorted : ops.Pairwise (fun a b ↦ a.start_pos ≤ b.start_pos)) (hin : i ≤ n) :
    i - n ≤ (ops.map Operation.delta).sum := by
  induction ops generalizing i with
  | nil => simpa using hin
  | cons o ops ih =>
    have hbehind := behind h hdis hsorted
    rw [List.pairwise_cons] at hdis hsorted
    rw [List.forall_mem_cons] at h hi
    simp only [List.map_cons, List.sum_cons, Operation.delta]
    rcases eq_or_ne o.start_pos o.end_pos with he | hne
    · have := ih h.2 hi.2 hdis.2 hsorted.2 hin
      omega
    · have := ih h.2 hbehind hdis.2 hsorted.2 h.1.2
      have := hi.1
      omega

theorem allInRange_missed {cnt R : ℕ} {q : Operation} {σ : Int} (ho : ops[cnt]? = some o)
    (hq : ops[cnt + 1]? = some q) (hmiss : q.start_pos < o.end_pos ∨ o.newdata = [] ∧ q.start_pos = o.end_pos)
    (h₀ : 0 ≤ o.end_pos) (hn : o.end_pos ≤ n) (hR : (R : Int) = n - o.end_pos + σ) :
    AllInRange s n ops 0 (o.newdata.length + R) ⟨cnt, false, o.start_pos - 0⟩ ↔ σ ≤ 0 := by
  have hcnt : cnt + 1 < ops.length := lt_length hq
  by_cases hnil : o.newdata = []
  · rw [hnil, List.length_nil, Nat.zero_add]
    cases R with
    | zero => exact iff_of_true (allInRange_zero _) (by omega)
    | succ r =>
      rw [allInRange_delete ho hnil, allInRange_past r (by omega) (fun q' hq' ↦ by
        rw [hq] at hq'
        cases hq'
        omega)]
      omega
  · have hlt := hmiss.resolve_right (fun h ↦ hnil h.1)
    rw [allInRange_enter ho hnil, allInRange_past R (by omega) (fun q' hq' ↦ by
      rw [hq] at hq'
      cases hq'
      omega)]
    omega

theorem allInRange_last {cnt R : ℕ} (ho : ops[cnt]? = some o) (hnone : ops[cnt + 1]? = none)
    (h₀ : 0 ≤ o.end_pos) (hR : (R : Int) = n - o.end_pos) :
    AllInRange s n ops 0 (o.newdata.length + R) ⟨cnt, false, o.start_pos - 0⟩ ↔
      o.end_pos = n ∨ o.newdata = [] ∧ o.end_pos + 1 = n := by
  have hcnt : ¬cnt + 1 < ops.length := by simpa using hnone
  have hpast : ∀ ps : Int, ∀ q, ops[cnt + 1]? = some q → q.start_pos - 0 < ps := fun ps q hq ↦ by
    rw [hnone] at hq
    cases hq
  by_cases hnil : o.newdata = []
  · rw [hnil, List.length_nil, Nat.zero_add, and_iff_right rfl]
    cases R with
    | zero => exact iff_of_true (allInRange_zero _) (.inl (by omega))
    | succ r =>
      rw [allInRange_delete ho hnil, allInRange_past r (by omega) (hpast _)]
      omega
  · rw [allInRange_enter ho hnil, allInRange_past R (by omega) (hpast _)]
    simp only [hnil, false_and, or_false]
    omega

theorem allInRange_next {cnt R : ℕ} {q : Operation} (ho : ops[cnt]? = some o) (hq : ops[cnt + 1]? = some q)
    (hlt : o.newdata = [] → o.end_pos < q.start_pos) :
    AllInRange s n ops 0 (o.newdata.length + R) ⟨cnt, false, o.start_pos - 0⟩ ↔
      AllInRange s n ops 0 R ⟨cnt + 1, false, o.end_pos⟩ := by
  by_cases hnil : o.newdata = []
  · rw [hnil, List.length_nil, Nat.zero_add]
    cases R with
    | zero => exact iff_of_true (allInRange_zero _) (allInRange_zero _)
    | succ r =>
      have henter : (⟨cnt + 1, false, o.end_pos⟩ : Cursor).enter ops 0 = ⟨cnt + 1, false, o.end_pos⟩ :=
        enter_before (fun q' hq' ↦ by
          rw [hq] at hq'
          cases hq'
          have := hlt hnil
          omega)
      rw [allInRange_delete ho hnil, allInRange_copy henter, Int.sub_zero, and_iff_right (lt_length hq)]
  · rw [allInRange_enter ho hnil, Int.sub_zero]

/-- From the text before an operation on, the loop reads only what is there exactly when the
operations left keep it inside. -/
theorem allInRange_iff {cnt k : ℕ} {ps : Int} (hrest : ops.drop cnt = rest) (hne : rest ≠ []) (h₀ : 0 ≤ ps)
    (hps : ∀ o ∈ rest.head?, ps ≤ o.start_pos) (h : ∀ x ∈ rest, x.start_pos ≤ x.end_pos ∧ x.end_pos ≤ n)
    (hdis : rest.Pairwise Operation.Disjoint) (hsorted : rest.Pairwise (fun a b ↦ a.start_pos ≤ b.start_pos))
    (hk : (k : Int) = n - ps + (rest.map Operation.delta).sum) :
    AllInRange s n ops 0 k ⟨cnt, false, ps⟩ ↔ StaysInside n rest := by
  induction rest generalizing cnt k ps with
  | nil => exact absurd rfl hne
  | cons o rest ih =>
    have ho : ops[cnt]? = some o := by rw [← List.head?_drop, hrest, List.head?_cons]
    have hnext : ops.drop (cnt + 1) = rest := by rw [← List.tail_drop, hrest, List.tail_cons]
    have hq : ops[cnt + 1]? = rest.head? := by rw [← List.head?_drop, hnext]
    have hbehind := behind h hdis hsorted
    rw [List.pairwise_cons] at hdis hsorted
    rw [List.forall_mem_cons] at h
    have hstart := hps o rfl
    have hleft := sum_delta_ge h.2 hbehind hdis.2 hsorted.2 h.1.2
    obtain ⟨R, hR⟩ := Int.eq_ofNat_of_zero_le (show 0 ≤ n - o.end_pos + (rest.map Operation.delta).sum by omega)
    simp only [List.map_cons, List.sum_cons, Operation.delta] at hk
    have hplain := @allInRange_plain s ops 0 n cnt ps (lt_length ho) (o.start_pos - ps).toNat (o.newdata.length + R) h₀
      (by omega) (fun o' ho' ↦ by
        rw [ho] at ho'
        cases ho'
        omega)
    rw [show ps + ((o.start_pos - ps).toNat : Int) = o.start_pos - 0 by omega] at hplain
    rw [show k = (o.start_pos - ps).toNat + (o.newdata.length + R) by omega, hplain, StaysInside]
    have hend : 0 ≤ o.end_pos := by omega
    split
    case isTrue hmiss =>
      obtain ⟨q, hqm, hqs⟩ := hmiss
      exact allInRange_missed ho (hq.trans hqm) hqs hend h.1.2 hR.symm
    case isFalse hmiss =>
      cases rest with
      | nil =>
        rw [if_pos rfl]
        exact allInRange_last ho hq hend (by simpa using hR.symm)
      | cons q rest =>
        have hle : o.end_pos ≤ q.start_pos := not_lt.mp fun hlt ↦ hmiss ⟨q, rfl, .inl hlt⟩
        have hlt : o.newdata = [] → o.end_pos < q.start_pos := fun hnil ↦
          hle.lt_of_ne fun he ↦ hmiss ⟨q, rfl, .inr ⟨hnil, he.symm⟩⟩
        rw [if_neg (List.cons_ne_nil q rest), allInRange_next ho hq hlt]
        exact ih hnext (List.cons_ne_nil q rest) hend
          (fun q' hq' ↦ by
            cases hq'
            exact hle) h.2 hdis.2 hsorted.2 hR.symm

end Order

/-- The reads of the copy loop of `modify`, for a payload of `n` bytes and the operations in
an order `sort` may leave them in, are all there exactly when the operations keep the loop inside. -/
theorem copyReads_inRange_iff (s : Mem) {n : Int} {ops sorted : List Operation} (hne : ops ≠ []) (h : Within n ops)
    (hperm : sorted.Perm ops) (hsorted : sorted.Pairwise (fun a b ↦ a.start_pos ≤ b.start_pos)) :
    (∀ a ∈ copyReads s sorted 0 (n + (ops.map Operation.delta).sum).toNat ⟨0, false, 0⟩, a.InRange n sorted) ↔
      StaysInside n sorted := by
  have hmem : ∀ x ∈ sorted, 0 ≤ x.start_pos ∧ x.start_pos ≤ x.end_pos ∧ x.end_pos ≤ n := fun x hx ↦
    h.range x (hperm.mem_iff.mp hx)
  have hdis : sorted.Pairwise Operation.Disjoint := hperm.symm.pairwise h.disjoint (fun h ↦ h.symm)
  have hnil : sorted ≠ [] := fun hnil ↦ hne (List.nil_perm.mp (hnil ▸ hperm))
  obtain ⟨o, ho⟩ := List.exists_mem_of_ne_nil _ hnil
  have hn : 0 ≤ n := by
    have := hmem o ho
    omega
  have hleft := sum_delta_ge (i := 0) (fun x hx ↦ (hmem x hx).2) (fun x hx ↦ .inl (hmem x hx).1) hdis hsorted hn
  have hsum : (ops.map Operation.delta).sum = (sorted.map Operation.delta).sum :=
    (hperm.map Operation.delta).sum_eq.symm
  exact allInRange_iff (by rw [List.drop_zero]) hnil le_rfl
    (fun x hx ↦ (hmem x (List.mem_of_mem_head? hx)).1) (fun x hx ↦ (hmem x hx).2) hdis hsorted (by omega)

section Example

/-- Of `ab`, the first byte is replaced. -/
def firstByte : List Operation := [⟨0, 1, .REPLACE, [0x78], false⟩]

theorem firstByte_within : Within 2 firstByte := ⟨by decide, by simp [firstByte]⟩

/-- To copy the second byte the loop looks at an operation behind the only one. -/
theorem reads_past_ops : ¬∀ (s : Mem) (n : Int) (ops : List Operation), ops ≠ [] → Within n ops →
    ∀ a ∈ copyReads s (sortOps ops) 0 (n + (ops.map Operation.delta).sum).toNat ⟨0, false, 0⟩,
      a.InRange n (sortOps ops) := by
  intro h
  have hread := h (fun _ ↦ 0) 2 firstByte (by decide) firstByte_within (.ops 1) (by decide)
  exact absurd (show 1 < (sortOps firstByte).length from hread) (by decide)

/-- Of `abcd`, the second byte is deleted and the last one replaced. -/
def lastByte : List Operation := [⟨3, 4, .REPLACE, [0x78, 0x79], false⟩, ⟨1, 2, .REPLACE, [], false⟩]

theorem lastByte_within : Within 4 lastByte := ⟨by decide, by simp [lastByte, Operation.Disjoint]⟩

theorem copyReads_lastByte : StaysInside 4 (sortOps lastByte) ∧ ∀ a ∈ copyReads (fun _ ↦ 0) (sortOps lastByte) 0
    (4 + (lastByte.map Operation.delta).sum).toNat ⟨0, false, 0⟩, a.InRange 4 (sortOps lastByte) := by
  have hstays : StaysInside 4 (sortOps lastByte) := by
    rw [show sortOps lastByte = lastByte.reverse by decide]
    simp [lastByte, StaysInside, Operation.Misses]
  exact ⟨hstays, (copyReads_inRange_iff _ (by decide) lastByte_within (perm_sortOps _) (sorted_sortOps _)).mpr hstays⟩

end Example

end Nat64Alg
