import Nat64Alg.Lib.Memory
import Mathlib.Algebra.BigOperators.Group.List.Basic
import Mathlib.Tactic.Convert

namespace Nat64Alg.Lib

/-- `text` in place of the bytes of `[start, stop)`. -/
structure Patch where
  start : Int
  stop : Int
  text : List UInt8
deriving DecidableEq

namespace Patch

def growth (p : Patch) : Int := p.text.length - (p.stop - p.start)

/-- The patches stand in order inside `[i, n)`, and something is kept between a
deletion and the next patch. -/
def Fit (n : Int) : Int → List Patch → Prop
  | i, [] => i ≤ n
  | i, p :: ps => i ≤ p.start ∧ p.start ≤ p.stop ∧ (p.text = [] → ∀ q ∈ ps.head?, p.stop < q.start) ∧
      Fit n p.stop ps

/-- The bytes of `src` from `i` to `n` with the patches put in. -/
def splice (src : Mem) (n : Int) : Int → List Patch → List UInt8
  | i, [] => src.slice i (n - i).toNat
  | i, p :: ps => src.slice i (p.start - i).toNat ++ p.text ++ splice src n p.stop ps

/-- The patches stand in order inside `[i, n)`. -/
def Inside (n : Int) : Int → List Patch → Prop
  | i, [] => i ≤ n
  | i, p :: ps => i ≤ p.start ∧ p.start ≤ p.stop ∧ Inside n p.stop ps

variable {n i : Int} {p : Patch} {ps : List Patch}

theorem Fit.inside (h : Fit n i ps) : Inside n i ps := by
  induction ps generalizing i with
  | nil => exact h
  | cons p ps ih => exact ⟨h.1, h.2.1, ih h.2.2.2⟩

theorem Inside.le (h : Inside n i ps) : i ≤ n := by
  induction ps generalizing i with
  | nil => exact h
  | cons p ps ih =>
    obtain ⟨h₁, h₂, h₃⟩ := h
    have := ih h₃
    omega

theorem Inside.splice_congr {src src' : Mem} (h : Inside n i ps) (hsrc : ∀ j, i ≤ j → j < n → src j = src' j) :
    splice src n i ps = splice src' n i ps := by
  induction ps generalizing i with
  | nil =>
    have := h.le
    exact Mem.slice_congr (fun j h₁ h₂ ↦ hsrc j h₁ (by omega))
  | cons p ps ih =>
    obtain ⟨h₁, h₂, h₃⟩ := h
    have := h₃.le
    have hkept : src.slice i (p.start - i).toNat = src'.slice i (p.start - i).toNat :=
      Mem.slice_congr (fun j h₄ h₅ ↦ hsrc j h₄ (by omega))
    simp only [splice, ih h₃ (fun j h₄ h₅ ↦ hsrc j (by omega) h₅), hkept]

theorem Inside.length_splice (src : Mem) (h : Inside n i ps) :
    ((splice src n i ps).length : Int) = n - i + (ps.map growth).sum := by
  induction ps generalizing i with
  | nil =>
    simp only [splice, Mem.length_slice, List.map_nil, List.sum_nil]
    have := h.le
    omega
  | cons p ps ih =>
    obtain ⟨h₁, h₂, h₃⟩ := h
    have := ih h₃
    simp only [splice, List.length_append, Mem.length_slice, List.map_cons, List.sum_cons, growth,
      Int.natCast_add, this]
    omega

theorem splice_congr {src src' : Mem} (h : Fit n i ps) (hsrc : ∀ j, i ≤ j → j < n → src j = src' j) :
    splice src n i ps = splice src' n i ps := h.inside.splice_congr hsrc

end Patch

/-- A stretch to keep, and a stretch to replace after it. -/
structure Piece where
  kept : List UInt8
  old : List UInt8
  new : List UInt8

namespace Piece

def source (tail : List UInt8) : List Piece → List UInt8
  | [] => tail
  | p :: ps => p.kept ++ (p.old ++ source tail ps)

def result (tail : List UInt8) : List Piece → List UInt8
  | [] => tail
  | p :: ps => p.kept ++ p.new ++ result tail ps

/-- The patches of some pieces, the first of which starts at `i`. -/
def patches (i : Int) : List Piece → List Patch
  | [] => []
  | p :: ps => ⟨i + p.kept.length, i + p.kept.length + p.old.length, p.new⟩ ::
      patches (i + p.kept.length + p.old.length) ps

variable {ps : List Piece} {pre tail : List UInt8} {i : Int}

theorem slice_ofList (xs ys zs : List UInt8) : (Mem.ofList (xs ++ (ys ++ zs))).slice xs.length ys.length = ys := by
  refine List.ext_getElem (by simp) fun i _ h ↦ ?_
  simp only [Mem.slice, List.getElem_map, List.getElem_range, Mem.ofList]
  rw [show ((xs.length : Int) + i).toNat = xs.length + i by omega, List.getD_eq_getElem?_getD,
    List.getElem?_append_right (by omega), Nat.add_sub_cancel_left, List.getElem?_append_left h,
    List.getElem?_eq_getElem h, Option.getD_some]

theorem fit_patches (hnew : ∀ p ∈ ps, p.new ≠ []) : Patch.Fit (i + (source tail ps).length) i (patches i ps) := by
  induction ps generalizing i with
  | nil =>
    simp only [patches, Patch.Fit, source]
    omega
  | cons p ps ih =>
    rw [List.forall_mem_cons] at hnew
    refine ⟨by simp only; omega, by simp only; omega, fun h ↦ absurd h hnew.1, ?_⟩
    have := ih (i := i + p.kept.length + p.old.length) hnew.2
    rw [source, List.length_append, List.length_append]
    convert this using 1
    push_cast
    omega

theorem result_append (t u : List UInt8) : result (t ++ u) ps = result t ps ++ u := by
  induction ps with
  | nil => rfl
  | cons p ps ih => simp only [result, ih, List.append_assoc]

theorem splice_patches : Patch.splice (Mem.ofList (pre ++ source tail ps)) (pre ++ source tail ps).length pre.length
    (patches pre.length ps) = result tail ps := by
  induction ps generalizing pre with
  | nil =>
    have h := slice_ofList pre tail []
    rw [List.append_nil] at h
    rw [patches, Patch.splice, source, List.length_append, show
      (((pre.length + tail.length : ℕ) : Int) - pre.length).toNat = tail.length by omega, h]
    rfl
  | cons p ps ih =>
    have h := slice_ofList pre p.kept (p.old ++ source tail ps)
    have h' := @ih (pre ++ (p.kept ++ p.old))
    rw [show pre ++ (p.kept ++ p.old) ++ source tail ps = pre ++ source tail (p :: ps) by simp [source]] at h'
    have hpre : ((pre ++ (p.kept ++ p.old)).length : Int) = pre.length + p.kept.length + p.old.length := by
      simp only [List.length_append]
      omega
    rw [hpre] at h'
    rw [patches, Patch.splice, h', show ((pre.length : Int) + p.kept.length - pre.length).toNat =
      p.kept.length by omega, result, source, h]

end Piece

namespace Patch

/-- The patches make `new` of `old`, which starts at `i`. -/
def Turns (i : Int) (old new : List UInt8) (qs : List Patch) : Prop :=
  ∃ ps tail, old = Piece.source tail ps ∧ new = Piece.result tail ps ∧ qs = Piece.patches i ps

variable {i : Int} {old new old' new' : List UInt8} {qs qs' : List Patch}

theorem turns_kept (i : Int) (t : List UInt8) : Turns i t t [] := ⟨[], t, rfl, rfl, rfl⟩

theorem turns_put (i : Int) (old new : List UInt8) : Turns i old new [⟨i, i + old.length, new⟩] :=
  ⟨[⟨[], old, new⟩], [], by simp [Piece.source], by simp [Piece.result], by simp [Piece.patches]⟩

theorem Turns.append (h : Turns i old new qs) (h' : Turns (i + old.length) old' new' qs') :
    Turns i (old ++ old') (new ++ new') (qs ++ qs') := by
  obtain ⟨ps, tail, rfl, rfl, rfl⟩ := h
  obtain ⟨ps', tail', rfl, rfl, rfl⟩ := h'
  induction ps generalizing i with
  | nil =>
    cases ps' with
    | nil => exact ⟨[], tail ++ tail', rfl, rfl, rfl⟩
    | cons p ps' =>
      refine ⟨⟨tail ++ p.kept, p.old, p.new⟩ :: ps', tail', ?_, ?_, ?_⟩
      · simp [Piece.source]
      · simp [Piece.result]
      · simp [Piece.patches, Piece.source, Int.add_assoc]
  | cons p ps ih =>
    obtain ⟨ps'', tail'', hold, hnew, hqs⟩ := ih (i := i + p.kept.length + p.old.length)
    refine ⟨p :: ps'', tail'', ?_, ?_, ?_⟩
    · simp [Piece.source, ← hold]
    · simp [Piece.result, ← hnew]
    · rw [Piece.patches, List.cons_append, Piece.patches, ← hqs, Piece.source]
      simp only [List.length_append, Int.natCast_add, Int.add_assoc]

theorem Turns.splice (h : Turns 0 old new qs) : Patch.splice (Mem.ofList old) old.length 0 qs = new := by
  obtain ⟨ps, tail, rfl, rfl, rfl⟩ := h
  exact @Piece.splice_patches ps [] tail

end Patch

end Nat64Alg.Lib
