import Nat64Alg.Lib.Memory

namespace Nat64Alg.Lib.OnesComplement

/-- Addition of two 16-bit words with the carry brought around. -/
def add (x y : ℕ) : ℕ := if x + y < 65536 then x + y else x + y - 65535

def sum : List ℕ → ℕ
  | [] => 0
  | w :: ws => add w (sum ws)

/-- Bytes as 16-bit words in network order, an odd last byte filled up with a zero. -/
def words : List UInt8 → List ℕ
  | x :: y :: bs => (256 * x.toNat + y.toNat) :: words bs
  | [x] => [256 * x.toNat]
  | [] => []

/-- What a receiver asks of the bytes a checksum covers, the checksum among them. -/
def Checks (bs : List UInt8) : Prop := sum (words bs) = 0xFFFF

instance (bs : List UInt8) : Decidable (Checks bs) := inferInstanceAs (Decidable (_ = _))

/-- The same words as a little-endian host reads them, added up without bound. -/
def total : List UInt8 → ℕ
  | x :: y :: bs => x.toNat + 256 * y.toNat + total bs
  | [x] => x.toNat
  | [] => 0

theorem sum_spec {ws : List ℕ} (h : ∀ w ∈ ws, w < 65536) :
    sum ws < 65536 ∧ sum ws % 65535 = ws.sum % 65535 ∧ (sum ws = 0 ↔ ws.sum = 0) := by
  induction ws with
  | nil => exact ⟨by decide, rfl, iff_of_true rfl rfl⟩
  | cons w ws ih =>
    obtain ⟨hlt, hmod, hzero⟩ := ih (fun v hv ↦ h v (List.mem_cons_of_mem _ hv))
    have hw := h w List.mem_cons_self
    simp only [sum, add, List.sum_cons]
    split <;> refine ⟨?_, ?_, ?_⟩ <;> omega

theorem words_lt (bs : List UInt8) : ∀ w ∈ words bs, w < 65536 := by
  induction bs using words.induct with
  | case1 x y bs ih =>
    have hx := x.toNat_lt
    have hy := y.toNat_lt
    simp only [words, List.forall_mem_cons]
    exact ⟨by omega, ih⟩
  | case2 x =>
    have hx := x.toNat_lt
    simp only [words, List.forall_mem_singleton]
    omega
  | case3 => exact fun _ h ↦ nomatch h

theorem sum_words (bs : List UInt8) :
    (words bs).sum % 65535 = 256 * total bs % 65535 ∧ ((words bs).sum = 0 ↔ total bs = 0) := by
  induction bs using words.induct with
  | case1 x y bs ih =>
    simp only [words, total, List.sum_cons]
    constructor <;> omega
  | case2 x =>
    simp only [words, total, List.sum_singleton, true_and]
    omega
  | case3 => exact ⟨rfl, iff_of_true rfl rfl⟩

theorem checks_iff (bs : List UInt8) : Checks bs ↔ total bs % 65535 = 0 ∧ total bs ≠ 0 := by
  obtain ⟨hlt, hmod, hzero⟩ := sum_spec (words_lt bs)
  obtain ⟨hswap, hnull⟩ := sum_words bs
  unfold Checks
  constructor
  · intro h
    exact ⟨by omega, by omega⟩
  · rintro ⟨h₁, h₂⟩
    omega

theorem total_append {xs : List UInt8} (h : xs.length % 2 = 0) (ys : List UInt8) :
    total (xs ++ ys) = total xs + total ys := by
  induction xs using total.induct with
  | case1 x y xs ih =>
    simp only [List.cons_append, total, ih (by simp only [List.length_cons] at h; omega)]
    omega
  | case2 x => cases h
  | case3 => simp [total]

theorem slice_two (m : Mem) (a : Int) (n : ℕ) :
    m.slice a (n + 2) = m a :: m (a + 1) :: m.slice (a + 2) n := by
  rw [Nat.add_comm, Mem.slice_append]
  simp [Mem.slice, List.range_succ]

theorem total_slice_two (m : Mem) (a : Int) (n : ℕ) :
    total (m.slice a (n + 2)) = (m.ld16 a).toNat + total (m.slice (a + 2) n) := by
  have h₀ := (m a).toNat_lt
  have h₁ := (m (a + 1)).toNat_lt
  rw [slice_two, total, Mem.ld16, UInt16.toNat_ofNat', Nat.mod_eq_of_lt (by omega)]

theorem total_st16 {m : Mem} {a : Int} {f n : ℕ} (hf : f % 2 = 0) (hn : f + 2 ≤ n) (h : m.ld16 (a + f) = 0)
    (v : UInt16) : total ((m.st16 (a + f) v).slice a n) = total (m.slice a n) + v.toNat := by
  obtain ⟨k, rfl⟩ := Nat.exists_eq_add_of_le hn
  have hsplit : ∀ m' : Mem, total (m'.slice a (f + 2 + k)) =
      total (m'.slice a f) + ((m'.ld16 (a + f)).toNat + total (m'.slice (a + f + 2) k)) := fun m' ↦ by
    rw [Nat.add_assoc, Mem.slice_append, total_append (by simpa using hf), Nat.add_comm 2 k, total_slice_two]
  rw [hsplit, hsplit, Mem.ld16_st16, h, Mem.st16, Mem.slice_store_disjoint _ (.inl (by omega)),
    Mem.slice_store_disjoint _ (.inr (by simp))]
  simp only [UInt16.toNat_zero]
  omega

theorem total_slice_append (m : Mem) (a : Int) {n : ℕ} (h : n % 2 = 0) (k : ℕ) :
    total (m.slice a (n + k)) = total (m.slice a n) + total (m.slice (a + n) k) := by
  rw [Mem.slice_append, total_append (by simpa using h)]

/-- A text put over the end of a block, and a word over two words in front of it, change the sum
by what they put there and what they take away. -/
theorem total_replaced (m : Mem) (a : Int) (v : UInt32) (t : List UInt8) {n : ℕ} (h₈ : 8 ≤ n) (h : n % 2 = 0) :
    total (((m.store (a + n) t).st32 (a + 4) v).slice a (n + t.length)) + total (m.slice (a + 4) 4) +
        total (m.slice (a + n) t.length) =
      total (m.slice a (n + t.length)) + total (Mem.bytes32 v) + total t := by
  obtain ⟨k, rfl⟩ := Nat.exists_eq_add_of_le h₈
  have hsplit : ∀ m' : Mem, total (m'.slice a (8 + k + t.length)) = total (m'.slice a 4) +
      total (m'.slice (a + 4) 4) + total (m'.slice (a + 8) k) + total (m'.slice (a + (8 + k : ℕ)) t.length) :=
        fun m' ↦ by
    rw [total_slice_append m' a h, total_slice_append m' a (show 8 % 2 = 0 from rfl),
      show (8 : ℕ) = 4 + 4 from rfl, total_slice_append m' a (show 4 % 2 = 0 from rfl)]
    rfl
  have h₁ : ((m.store (a + (8 + k : ℕ)) t).st32 (a + 4) v).slice a 4 = m.slice a 4 := by
    rw [Mem.st32, Mem.slice_store_disjoint _ (.inl (by omega)), Mem.slice_store_disjoint _ (.inl (by omega))]
  have h₂ : ((m.store (a + (8 + k : ℕ)) t).st32 (a + 4) v).slice (a + 4) 4 = Mem.bytes32 v :=
    Mem.slice_store_self _ _ (Mem.bytes32 v)
  have h₃ : ((m.store (a + (8 + k : ℕ)) t).st32 (a + 4) v).slice (a + 8) k = m.slice (a + 8) k := by
    rw [Mem.st32, Mem.slice_store_disjoint _ (.inr (by simp; omega)), Mem.slice_store_disjoint _ (.inl (by omega))]
  have h₄ : ((m.store (a + (8 + k : ℕ)) t).st32 (a + 4) v).slice (a + (8 + k : ℕ)) t.length = t := by
    rw [Mem.st32, Mem.slice_store_disjoint _ (.inr (by simp; omega)), Mem.slice_store_self]
  rw [hsplit, hsplit, h₁, h₂, h₃, h₄]
  omega

end Nat64Alg.Lib.OnesComplement
