import Mathlib.Algebra.Order.Ring.Int
import Mathlib.Data.List.Basic

namespace Nat64Alg.Lib

/-- Bytes around a buffer, addressed from its first byte. Reads past either end
return whatever lies there. -/
abbrev Mem := Int → UInt8

namespace Mem

def store (m : Mem) (a : Int) (bs : List UInt8) : Mem :=
  fun i ↦ if a ≤ i ∧ i < a + bs.length then bs.getD (i - a).toNat 0 else m i

def slice (m : Mem) (a : Int) (n : Nat) : List UInt8 := (List.range n).map (fun k : Nat ↦ m (a + k))

/-- A buffer that holds the bytes of a list, and zeros after them. -/
def ofList (bs : List UInt8) : Mem := fun i ↦ bs.getD i.toNat 0

def ld16 (m : Mem) (a : Int) : UInt16 := UInt16.ofNat ((m a).toNat + 256 * (m (a + 1)).toNat)

def ld32 (m : Mem) (a : Int) : UInt32 :=
  UInt32.ofNat ((m a).toNat + 2 ^ 8 * (m (a + 1)).toNat + 2 ^ 16 * (m (a + 2)).toNat +
    2 ^ 24 * (m (a + 3)).toNat)

def bytes16 (v : UInt16) : List UInt8 := [UInt8.ofNat v.toNat, UInt8.ofNat (v.toNat / 256)]

def bytes32 (v : UInt32) : List UInt8 :=
  [UInt8.ofNat v.toNat, UInt8.ofNat (v.toNat / 2 ^ 8), UInt8.ofNat (v.toNat / 2 ^ 16),
    UInt8.ofNat (v.toNat / 2 ^ 24)]

def st16 (m : Mem) (a : Int) (v : UInt16) : Mem := m.store a (bytes16 v)

def st32 (m : Mem) (a : Int) (v : UInt32) : Mem := m.store a (bytes32 v)

variable (m : Mem)

theorem store_outside {a i : Int} {bs : List UInt8} (h : i < a ∨ a + bs.length ≤ i) :
    m.store a bs i = m i := by
  unfold store
  rw [if_neg (by omega)]

theorem store_inside {a : Int} {bs : List UInt8} {k : Nat} (h : k < bs.length) :
    m.store a bs (a + k) = bs[k] := by
  unfold store
  rw [if_pos (by omega), show (a + k - a).toNat = k by omega]
  simp [h]

@[simp] theorem length_slice (a : Int) (n : Nat) : (m.slice a n).length = n := by simp [slice]

theorem slice_store_self (a : Int) (bs : List UInt8) : (m.store a bs).slice a bs.length = bs := by
  refine List.ext_getElem (by simp) (fun k _ hk ↦ ?_)
  simp only [slice, List.getElem_map, List.getElem_range]
  exact m.store_inside hk

theorem slice_store_disjoint {a b : Int} {bs : List UInt8} {n : Nat}
    (h : b + n ≤ a ∨ a + bs.length ≤ b) : (m.store a bs).slice b n = m.slice b n := by
  refine List.map_congr_left (fun k hk ↦ m.store_outside ?_)
  have := List.mem_range.mp hk
  omega

theorem slice_congr {m m' : Mem} {a : Int} {n : Nat} (h : ∀ i, a ≤ i → i < a + n → m i = m' i) :
    m.slice a n = m'.slice a n :=
  List.map_congr_left (fun k hk ↦ h _ (by omega) (by have := List.mem_range.mp hk; omega))

theorem ofList_slice {a i : Int} {n : Nat} (h₀ : 0 ≤ i) (h : i < n) : ofList (m.slice a n) i = m (a + i) := by
  obtain ⟨k, rfl⟩ := Int.eq_ofNat_of_zero_le h₀
  simp [ofList, slice, Int.ofNat_lt.mp h]

theorem slice_append (a : Int) (n k : Nat) : m.slice a (n + k) = m.slice a n ++ m.slice (a + n) k := by
  simp [slice, List.range_add, Function.comp_def, Int.add_assoc]

theorem drop_slice (a : Int) (n k : Nat) (h : k ≤ n) : (m.slice a n).drop k = m.slice (a + k) (n - k) := by
  obtain ⟨j, rfl⟩ := Nat.exists_eq_add_of_le h
  rw [slice_append, List.drop_left' (m.length_slice a k), Nat.add_sub_cancel_left]

theorem slice_store_prefix {a : Int} {xs bs : List UInt8} (h : xs <+: bs) :
    (m.store a bs).slice a xs.length = xs := by
  obtain ⟨ys, rfl⟩ := h
  have := m.slice_store_self a (xs ++ ys)
  rw [List.length_append, slice_append] at this
  exact (List.append_inj this (by simp)).1

theorem slice_pushed (a : Int) (t : List UInt8) (n : Nat) :
    ((m.store (a + t.length) (m.slice a (n - t.length))).store a t).slice a n = (t ++ m.slice a n).take n := by
  refine List.ext_getElem (by simp) (fun k hk _ ↦ ?_)
  rw [length_slice] at hk
  simp only [slice, List.getElem_map, List.getElem_range, List.getElem_take]
  rcases Nat.lt_or_ge k t.length with ht | ht
  · rw [store_inside _ ht, List.getElem_append_left ht]
  · rw [store_outside _ (by omega), show a + (k : Int) = a + t.length + (k - t.length : ℕ) by omega,
      store_inside _ (by simp; omega), List.getElem_append_right ht]
    simp

@[simp] theorem length_bytes16 (v : UInt16) : (bytes16 v).length = 2 := rfl
@[simp] theorem length_bytes32 (v : UInt32) : (bytes32 v).length = 4 := rfl

theorem ld16_congr {m m' : Mem} {a : Int} (h : ∀ i, a ≤ i → i < a + 2 → m i = m' i) :
    m.ld16 a = m'.ld16 a := by
  simp only [ld16, h a (by omega) (by omega), h (a + 1) (by omega) (by omega)]

theorem ld32_congr {m m' : Mem} {a : Int} (h : ∀ i, a ≤ i → i < a + 4 → m i = m' i) :
    m.ld32 a = m'.ld32 a := by
  simp only [ld32, h a (by omega) (by omega), h (a + 1) (by omega) (by omega),
    h (a + 2) (by omega) (by omega), h (a + 3) (by omega) (by omega)]

theorem ld16_moved {m m' : Mem} {a a' : Int} (h : ∀ k : Int, 0 ≤ k → k < 2 → m (a + k) = m' (a' + k)) :
    m.ld16 a = m'.ld16 a' := by
  have h₀ := h 0 (by omega) (by omega)
  simp only [Int.add_zero] at h₀
  simp only [ld16, h₀, h 1 (by omega) (by omega)]

theorem ld16_store_disjoint {a b : Int} {bs : List UInt8} (h : b + 2 ≤ a ∨ a + bs.length ≤ b) :
    (m.store a bs).ld16 b = m.ld16 b :=
  ld16_congr (fun _ _ _ ↦ m.store_outside (by omega))

theorem ld32_store_disjoint {a b : Int} {bs : List UInt8} (h : b + 4 ≤ a ∨ a + bs.length ≤ b) :
    (m.store a bs).ld32 b = m.ld32 b :=
  ld32_congr (fun _ _ _ ↦ m.store_outside (by omega))

theorem st16_apply (a : Int) (v : UInt16) (k : Nat) (hk : k < 2) :
    m.st16 a v (a + k) = UInt8.ofNat (v.toNat / 256 ^ k) := by
  refine (m.store_inside hk).trans ?_
  match k, hk with
  | 0, _ => simp [bytes16]
  | 1, _ => simp [bytes16]

theorem st32_apply (a : Int) (v : UInt32) (k : Nat) (hk : k < 4) :
    m.st32 a v (a + k) = UInt8.ofNat (v.toNat / 256 ^ k) := by
  refine (m.store_inside hk).trans ?_
  match k, hk with
  | 0, _ => simp [bytes32]
  | 1, _ => simp [bytes32]
  | 2, _ => simp [bytes32]
  | 3, _ => simp [bytes32]

@[simp] theorem ld16_st16 (a : Int) (v : UInt16) : (m.st16 a v).ld16 a = v := by
  have h₀ := m.st16_apply a v 0 (by decide)
  have h₁ := m.st16_apply a v 1 (by decide)
  simp only [Int.natCast_zero, Int.natCast_one, Int.add_zero] at h₀ h₁
  have := v.toNat_lt
  rw [ld16, h₀, h₁, ← UInt16.toNat_inj]
  simp only [UInt8.toNat_ofNat', UInt16.toNat_ofNat']
  omega

@[simp] theorem ld32_st32 (a : Int) (v : UInt32) : (m.st32 a v).ld32 a = v := by
  have h₀ := m.st32_apply a v 0 (by decide)
  have h₁ := m.st32_apply a v 1 (by decide)
  have h₂ := m.st32_apply a v 2 (by decide)
  have h₃ := m.st32_apply a v 3 (by decide)
  simp only [Int.cast_ofNat_Int, Int.add_zero] at h₀ h₁ h₂ h₃
  have := v.toNat_lt
  rw [ld32, h₀, h₁, h₂, h₃, ← UInt32.toNat_inj]
  simp only [UInt8.toNat_ofNat', UInt32.toNat_ofNat']
  omega

theorem bytes32_ld32 (a : Int) : bytes32 (m.ld32 a) = m.slice a 4 := by
  have h₀ := (m a).toNat_lt
  have h₁ := (m (a + 1)).toNat_lt
  have h₂ := (m (a + 2)).toNat_lt
  have h₃ := (m (a + 3)).toNat_lt
  simp only [bytes32, ld32, slice, List.range_succ, List.range_zero, List.nil_append, List.cons_append,
    List.map_cons, List.map_nil, List.cons.injEq, ← UInt8.toNat_inj, UInt8.toNat_ofNat', UInt32.toNat_ofNat',
    Int.cast_ofNat_Int, Int.add_zero, and_true]
  refine ⟨?_, ?_, ?_, ?_⟩ <;> omega

theorem store_append (a : Int) (xs ys : List UInt8) :
    m.store a (xs ++ ys) = (m.store a xs).store (a + xs.length) ys := by
  funext i
  rcases Int.lt_or_le i a with ha | ha
  · rw [store_outside _ (.inl ha), store_outside _ (by omega), store_outside _ (.inl ha)]
  obtain ⟨k, rfl⟩ := Int.le.dest ha
  rcases Nat.lt_or_ge k xs.length with hx | hx
  · rw [store_inside _ (by simp; omega), store_outside _ (by omega), store_inside _ hx,
      List.getElem_append_left]
  rcases Nat.lt_or_ge k (xs ++ ys).length with hy | hy
  · have hk : a + k = a + xs.length + (k - xs.length : ℕ) := by omega
    rw [store_inside _ hy, hk, store_inside _ (by simp at hy; omega), List.getElem_append_right hx]
  · rw [List.length_append] at hy
    rw [store_outside _ (by simp; omega), store_outside _ (by omega), store_outside _ (by omega)]

theorem ld32_store {a k : Int} {pre post : List UInt8} {v : UInt32} (h : (pre.length : Int) = k) :
    (m.store a (pre ++ (bytes32 v ++ post))).ld32 (a + k) = v := by
  rw [store_append, store_append, ld32_store_disjoint _ (by simp; omega), h]
  exact ld32_st32 _ _ _

end Mem

/-- Swapping the two bytes of a short, the host being little-endian. -/
def ntohs (x : UInt16) : UInt16 := UInt16.ofNat (x.toNat % 256 * 256 + x.toNat / 256)

def ntohl (x : UInt32) : UInt32 :=
  UInt32.ofNat (x.toNat % 2 ^ 8 * 2 ^ 24 + x.toNat / 2 ^ 8 % 2 ^ 8 * 2 ^ 16 +
    x.toNat / 2 ^ 16 % 2 ^ 8 * 2 ^ 8 + x.toNat / 2 ^ 24)

theorem toNat_ntohs (x : UInt16) : (ntohs x).toNat = x.toNat % 256 * 256 + x.toNat / 256 := by
  have := x.toNat_lt
  simp only [ntohs, UInt16.toNat_ofNat']
  omega

theorem toNat_ntohl (x : UInt32) : (ntohl x).toNat = x.toNat % 2 ^ 8 * 2 ^ 24 +
    x.toNat / 2 ^ 8 % 2 ^ 8 * 2 ^ 16 + x.toNat / 2 ^ 16 % 2 ^ 8 * 2 ^ 8 + x.toNat / 2 ^ 24 := by
  have := x.toNat_lt
  simp only [ntohl, UInt32.toNat_ofNat']
  omega

@[simp] theorem ntohs_ntohs (x : UInt16) : ntohs (ntohs x) = x := by
  have := x.toNat_lt
  rw [← UInt16.toNat_inj, toNat_ntohs, toNat_ntohs]
  omega

theorem digits (a b c d : ℕ) (ha : a < 2 ^ 8) (hb : b < 2 ^ 8) (hc : c < 2 ^ 8) :
    (d * 2 ^ 24 + c * 2 ^ 16 + b * 2 ^ 8 + a) % 2 ^ 8 = a ∧
    (d * 2 ^ 24 + c * 2 ^ 16 + b * 2 ^ 8 + a) / 2 ^ 8 % 2 ^ 8 = b ∧
    (d * 2 ^ 24 + c * 2 ^ 16 + b * 2 ^ 8 + a) / 2 ^ 16 % 2 ^ 8 = c ∧
    (d * 2 ^ 24 + c * 2 ^ 16 + b * 2 ^ 8 + a) / 2 ^ 24 = d := by
  refine ⟨?_, ?_, ?_, ?_⟩ <;> omega

@[simp] theorem ntohl_ntohl (x : UInt32) : ntohl (ntohl x) = x := by
  have hx := x.toNat_lt
  rw [← UInt32.toNat_inj, toNat_ntohl, toNat_ntohl]
  generalize x.toNat = n at hx ⊢
  obtain ⟨e₀, e₁, e₂, e₃⟩ := digits (n / 2 ^ 24) (n / 2 ^ 16 % 2 ^ 8) (n / 2 ^ 8 % 2 ^ 8) (n % 2 ^ 8)
    (by omega) (by omega) (by omega)
  rw [e₀, e₁, e₂, e₃]
  clear e₀ e₁ e₂ e₃
  omega

theorem ntohs_inj {x y : UInt16} : ntohs x = ntohs y ↔ x = y :=
  ⟨fun h ↦ by simpa using congrArg ntohs h, congrArg ntohs⟩

end Nat64Alg.Lib
