import Nat64Alg.Modify
import Nat64Alg.Lib.Splice

namespace Nat64Alg

open Lib

variable {s : Mem} {ops : List Operation} {offset : Int}

/-- What an operation asks for, in positions of the packet. -/
def Operation.patch (offset : Int) (o : Operation) : Patch :=
  ⟨o.start_pos - offset, o.end_pos - offset, o.newdata⟩

theorem Operation.growth_patch (o : Operation) : (o.patch offset).growth = o.delta := by
  simp only [Patch.growth, patch, delta]
  omega

theorem length_copyLoop (n : ℕ) (c : Cursor) : (copyLoop s ops offset n c).length = n := by
  induction n generalizing c with
  | zero => rfl
  | succ n ih => rw [copyLoop, List.length_cons, ih]

theorem length_copied (s : Mem) (ops : List Operation) (offset len : Int) :
    (copied s ops offset len).length = len.toNat := length_copyLoop _ _

theorem copyLoop_congr {c c' : Cursor} (h : c.enter ops offset = c'.enter ops offset) {n : ℕ} (hn : 0 < n) :
    copyLoop s ops offset n c = copyLoop s ops offset n c' := by
  obtain ⟨n, rfl⟩ := Nat.exists_eq_succ_of_ne_zero hn.ne'
  simp only [copyLoop, Cursor.step, h]

theorem enter_away {cnt : ℕ} {ps : Int} (h : ∀ o, ops[cnt]? = some o → ps ≠ o.start_pos - offset) :
    (⟨cnt, false, ps⟩ : Cursor).enter ops offset = ⟨cnt, false, ps⟩ := by
  unfold Cursor.enter
  split
  case h_1 o ho =>
    have := h o ho
    rw [if_neg (by simp; omega)]
  case h_2 => rfl

theorem enter_before {cnt : ℕ} {ps : Int} (h : ∀ o, ops[cnt]? = some o → ps < o.start_pos - offset) :
    (⟨cnt, false, ps⟩ : Cursor).enter ops offset = ⟨cnt, false, ps⟩ := enter_away fun o ho ↦ (h o ho).ne

theorem enter_past {cnt : ℕ} {ps : Int} (h : ∀ o, ops[cnt]? = some o → o.start_pos - offset < ps) :
    (⟨cnt, false, ps⟩ : Cursor).enter ops offset = ⟨cnt, false, ps⟩ := enter_away fun o ho ↦ (h o ho).ne'

theorem copyLoop_plain {cnt : ℕ} {ps : Int} (m k : ℕ)
    (h : ∀ o, ops[cnt]? = some o → ps + m ≤ o.start_pos - offset) :
    copyLoop s ops offset (m + k) ⟨cnt, false, ps⟩ =
      s.slice ps m ++ copyLoop s ops offset k ⟨cnt, false, ps + m⟩ := by
  induction m generalizing ps with
  | zero => simp [Mem.slice]
  | succ m ih =>
    have henter : (⟨cnt, false, ps⟩ : Cursor).enter ops offset = ⟨cnt, false, ps⟩ :=
      enter_before (fun o ho ↦ by have := h o ho; omega)
    have hslice : s.slice ps (m + 1) = s ps :: s.slice (ps + 1) m := by
      rw [Nat.add_comm, Mem.slice_append]
      simp [Mem.slice]
    rw [Nat.add_right_comm, copyLoop, Cursor.step, henter, hslice]
    simp only [Cursor.emit, Bool.false_eq_true, if_false, List.cons_append]
    rw [ih (fun o ho ↦ by have := h o ho; omega), show ps + 1 + (m : Int) = ps + (m + 1 : ℕ) by omega]

theorem copyLoop_inside {cnt : ℕ} {o : Operation} (ho : ops[cnt]? = some o) (j k : ℕ)
    (hj : j < o.newdata.length) : copyLoop s ops offset (o.newdata.length - j + k) ⟨cnt, true, j⟩ =
      o.newdata.drop j ++ copyLoop s ops offset k ⟨cnt + 1, false, o.end_pos - offset⟩ := by
  obtain ⟨m, hm⟩ : ∃ m, o.newdata.length = j + 1 + m := ⟨o.newdata.length - j - 1, by omega⟩
  induction m generalizing j with
  | zero =>
    have hlast : ((j : Int) + 1 == o.newdata.length) = true := by simp; omega
    rw [show o.newdata.length - j + k = k + 1 by omega, copyLoop, List.drop_eq_getElem_cons hj,
      List.drop_eq_nil_of_le (by omega)]
    simp [Cursor.step, Cursor.enter, Cursor.emit, ho, hlast, hj]
  | succ m ih =>
    have hnot : ((j : Int) + 1 == o.newdata.length) = false := by simp; omega
    rw [show o.newdata.length - j + k = o.newdata.length - (j + 1) + k + 1 by omega, copyLoop,
      List.drop_eq_getElem_cons hj]
    simp only [Cursor.step, Cursor.enter, Cursor.emit, ho, Bool.not_true, Bool.false_and, Bool.false_eq_true,
      if_false, if_true, hnot, Int.toNat_natCast, List.getD_eq_getElem?_getD, List.getElem?_eq_getElem hj,
      Option.getD_some, List.cons_append]
    have := ih (j + 1) (by omega) (by omega)
    rw [Int.natCast_add, Int.natCast_one] at this
    rw [this]

theorem copyLoop_past {cnt : ℕ} {ps : Int} (m : ℕ) (h : ∀ o, ops[cnt]? = some o → o.start_pos - offset < ps) :
    copyLoop s ops offset m ⟨cnt, false, ps⟩ = s.slice ps m := by
  induction m generalizing ps with
  | zero => rfl
  | succ m ih =>
    rw [copyLoop, Cursor.step, enter_past h, Nat.add_comm m 1, Mem.slice_append]
    simp only [Cursor.emit, Bool.false_eq_true, if_false]
    rw [ih (fun o ho ↦ by have := h o ho; omega)]
    simp [Mem.slice]

/-- The next operation starts where this one, a deletion, leaves the loop, which does not look there. -/
def Operation.Hides (o : Operation) (rest : List Operation) : Prop :=
  o.newdata = [] ∧ ∃ q ∈ rest.head?, q.start_pos = o.end_pos

instance (o : Operation) (rest : List Operation) : Decidable (o.Hides rest) := inferInstanceAs (Decidable (_ ∧ _))

/-- What the loop makes of the bytes from `i` on: once an operation is hidden, the source as it is. -/
def written (s : Mem) (n offset : Int) : Int → List Operation → Text
  | i, [] => s.slice i (n - i).toNat
  | i, o :: rest => s.slice i (o.start_pos - offset - i).toNat ++ o.newdata ++
      if o.Hides rest then
        s.slice (o.end_pos - offset) (n - (o.end_pos - offset) + (rest.map Operation.delta).sum).toNat
      else written s n offset (o.end_pos - offset) rest

theorem sum_growth (ops : List Operation) (offset : Int) :
    ((ops.map (Operation.patch offset)).map Patch.growth).sum = (ops.map Operation.delta).sum := by
  rw [List.map_map, show Patch.growth ∘ Operation.patch offset = Operation.delta from
    funext Operation.growth_patch]

theorem length_splice_ops {n i : Int} (h : Patch.Inside n i (ops.map (Operation.patch offset))) :
    ((Patch.splice s n i (ops.map (Operation.patch offset))).length : Int) =
      n - i + (ops.map Operation.delta).sum := by
  rw [h.length_splice, sum_growth]

theorem copyLoop_written {n ps : Int} {cnt k : ℕ} {rest : List Operation} (hrest : ops.drop cnt = rest)
    (hin : Patch.Inside n ps (rest.map (Operation.patch offset)))
    (hk : (k : Int) = n - ps + (rest.map Operation.delta).sum) :
    copyLoop s ops offset k ⟨cnt, false, ps⟩ = written s n offset ps rest := by
  induction rest generalizing cnt k ps with
  | nil =>
    have hcnt : ops[cnt]? = none := List.getElem?_eq_none (List.drop_eq_nil_iff.mp hrest)
    have hleft : k = (n - ps).toNat := by
      simp at hk
      omega
    rw [copyLoop_past k (fun o ho ↦ by rw [hcnt] at ho; cases ho), written, hleft]
  | cons o rest ih =>
    obtain ⟨h₁, h₂, h₃⟩ := hin
    have ho : ops[cnt]? = some o := by
      rw [← List.head?_drop, hrest, List.head?_cons]
    have hnext : ops.drop (cnt + 1) = rest := by rw [← List.tail_drop, hrest, List.tail_cons]
    have hq : ops[cnt + 1]? = rest.head? := by rw [← List.head?_drop, hnext]
    have hlen := @length_splice_ops s rest offset n _ h₃
    generalize hk' : (Patch.splice s n (o.patch offset).stop (rest.map (Operation.patch offset))).length = k' at hlen
    simp only [List.map_cons, List.sum_cons, Operation.delta] at hk
    simp only [Operation.patch] at h₁ h₂ h₃ hlen
    have hplain := @copyLoop_plain s ops offset cnt ps (o.start_pos - offset - ps).toNat (o.newdata.length + k')
      (fun o' ho' ↦ by
        rw [ho] at ho'
        cases ho'
        omega)
    rw [show ps + ((o.start_pos - offset - ps).toNat : Int) = o.start_pos - offset by omega] at hplain
    rw [show k = (o.start_pos - offset - ps).toNat + (o.newdata.length + k') by omega, hplain]
    simp only [written, List.append_assoc]
    congr 1
    by_cases hnil : o.newdata = []
    · have henter : (⟨cnt, false, o.start_pos - offset⟩ : Cursor).enter ops offset =
          ⟨cnt + 1, false, o.end_pos - offset⟩ := by
        simp [Cursor.enter, ho, hnil]
      rw [hnil, List.length_nil, Nat.zero_add, List.nil_append, show n - (o.end_pos - offset) +
        (rest.map Operation.delta).sum = k' by omega, Int.toNat_natCast]
      by_cases hhides : o.Hides rest
      · rw [if_pos hhides]
        obtain ⟨-, q, hqm, hqs⟩ := hhides
        cases k' with
        | zero => rfl
        | succ k' =>
          -- the byte at the end of the deletion is copied without a look at the next operation
          rw [copyLoop, Cursor.step, henter, Nat.add_comm k' 1, Mem.slice_append]
          simp only [Cursor.emit, Bool.false_eq_true, if_false]
          rw [copyLoop_past k' (fun q' hq' ↦ by
            rw [hq, hqm] at hq'
            cases hq'
            omega)]
          simp [Mem.slice]
      · rw [if_neg hhides]
        rcases Nat.eq_zero_or_pos k' with rfl | hpos
        · have := ih hnext h₃ hlen
          rwa [copyLoop] at this ⊢
        refine (copyLoop_congr ?_ hpos).trans (ih hnext h₃ hlen)
        rw [henter, enter_before]
        intro q hqm
        rw [hq] at hqm
        have hne : q.start_pos ≠ o.end_pos := fun he ↦ hhides ⟨hnil, q, hqm, he⟩
        have hle : o.end_pos - offset ≤ q.start_pos - offset := by
          obtain ⟨rest', rfl⟩ : ∃ rest', rest = q :: rest' := by
            cases rest with
            | nil => cases hqm
            | cons q' rest' =>
              cases hqm
              exact ⟨rest', rfl⟩
          exact h₃.1
        omega
    · have hpos := List.length_pos_iff.mpr hnil
      have henter : copyLoop s ops offset (o.newdata.length + k') ⟨cnt, false, o.start_pos - offset⟩ =
          copyLoop s ops offset (o.newdata.length + k') ⟨cnt, true, (0 : ℕ)⟩ := by
        refine copyLoop_congr ?_ (by omega)
        simp [Cursor.enter, ho, hnil]
      have hin := @copyLoop_inside s _ offset _ _ ho 0 k' hpos
      rw [Nat.sub_zero, List.drop_zero] at hin
      rw [henter, hin, if_neg (fun h ↦ hnil h.1), ih hnext h₃ hlen]

theorem written_splice {n i : Int} (hfit : Patch.Fit n i (ops.map (Operation.patch offset))) :
    written s n offset i ops = Patch.splice s n i (ops.map (Operation.patch offset)) := by
  induction ops generalizing i with
  | nil => rfl
  | cons o rest ih =>
    obtain ⟨-, -, hgap, h₃⟩ := hfit
    have hhides : ¬o.Hides rest := by
      rintro ⟨hnil, q, hq, he⟩
      have := hgap hnil (q.patch offset) (by
        rw [List.head?_map]
        exact Option.mem_map_of_mem _ hq)
      simp only [Operation.patch] at this
      omega
    have hrest := ih h₃
    rw [written, if_neg hhides]
    simp only [Operation.patch] at hrest
    simp only [List.map_cons, Patch.splice, Operation.patch, hrest]

theorem copied_written {n : Int} (hin : Patch.Inside n 0 (ops.map (Operation.patch offset))) :
    copied s ops offset (n + (ops.map Operation.delta).sum) = written s n offset 0 ops := by
  have hlen := @length_splice_ops s ops offset n 0 hin
  exact copyLoop_written (by rw [List.drop_zero]) hin (by omega)

theorem copied_splice {n : Int} (hfit : Patch.Fit n 0 (ops.map (Operation.patch offset))) :
    copied s ops offset (n + (ops.map Operation.delta).sum) =
      Patch.splice s n 0 (ops.map (Operation.patch offset)) :=
  (copied_written hfit.inside).trans (written_splice hfit)

def Operation.Disjoint (a b : Operation) : Prop := a.end_pos ≤ b.start_pos ∨ b.end_pos ≤ a.start_pos

instance : Std.Symm Operation.Disjoint := ⟨fun _ _ h ↦ h.symm⟩

theorem sorted_sortOps (ops : List Operation) : (sortOps ops).Pairwise (fun a b ↦ a.start_pos ≤ b.start_pos) := by
  have : Std.Total (fun a b : Operation ↦ a.start_pos ≤ b.start_pos) := ⟨fun a b ↦ Int.le_total _ _⟩
  have : IsTrans Operation (fun a b : Operation ↦ a.start_pos ≤ b.start_pos) := ⟨fun a b c ↦ Int.le_trans⟩
  exact List.pairwise_insertionSort _ ops

theorem perm_sortOps (ops : List Operation) : (sortOps ops).Perm ops := List.perm_insertionSort _ ops

end Nat64Alg
