import Nat64Alg.Headers
import Nat64Alg.Lib.OnesComplement
import Mathlib.Data.Nat.Bitwise

namespace Nat64Alg

open Lib OnesComplement

section Checked

/-- A 32-bit addition that fails where it would overflow. -/
def addChecked (x y : UInt32) : Option UInt32 := if x.toNat + y.toNat < 2 ^ 32 then some (x + y) else none

def sumWordsChecked (m : Mem) (a : Int) : ℕ → UInt32 → Option UInt32
  | n + 2, sum => do
    let sum ← addChecked sum (m.ld16 a).toUInt32
    let sum ← if (sum &&& (0x80000000 : UInt32)) != 0 then addChecked (sum &&& (0xFFFF : UInt32)) (sum >>> 16)
      else some sum
    sumWordsChecked m (a + 2) n sum
  | 1, sum => addChecked sum (m a).toUInt32
  | 0, sum => some sum

def sumAddrsChecked (src : Mem) (s : Int) (dst : Mem) (d : Int) : ℕ → UInt32 → Option UInt32
  | n + 1, sum => do
    let sum ← addChecked sum (src.ld16 s).toUInt32
    let sum ← addChecked sum (dst.ld16 d).toUInt32
    sumAddrsChecked src (s + 2) dst (d + 2) n sum
  | 0, sum => some sum

/-- At most `rounds` turns of the folding loop. -/
def foldCarriesChecked : ℕ → UInt32 → Option UInt32
  | 0, sum => if sum >>> 16 = 0 then some sum else none
  | rounds + 1, sum =>
    if sum >>> 16 = 0 then some sum
    else do foldCarriesChecked rounds (← addChecked (sum &&& (0xFFFF : UInt32)) (sum >>> 16))

/-- `tcp_checksum` with every addition checked and its last loop bounded. -/
def tcp_checksumChecked (rounds : ℕ) (m : Mem) (a : Int) (tcplen : ℕ) (src : Mem) (s : Int) (dst : Mem) (d : Int)
    (addrlen : ℕ) (protocol : UInt8) : Option UInt16 := do
  let sum ← sumWordsChecked m a tcplen 0
  let sum ← sumAddrsChecked src s dst d addrlen sum
  let sum ← addChecked sum (ntohs protocol.toUInt16).toUInt32
  let sum ← addChecked sum (ntohs (UInt16.ofNat tcplen)).toUInt32
  let sum ← foldCarriesChecked rounds sum
  return ~~~sum.toUInt16

end Checked

section Sums

theorem addChecked_eq {x y : UInt32} (h : x.toNat + y.toNat < 2 ^ 32) :
    addChecked x y = some (x + y) ∧ (x + y).toNat = x.toNat + y.toNat := by
  refine ⟨if_pos h, ?_⟩
  rw [UInt32.toNat_add, Nat.mod_eq_of_lt h]

theorem toNat_ld16 (m : Mem) (a : Int) : (m.ld16 a).toUInt32.toNat = (m.ld16 a).toNat := rfl

theorem top_bit_iff (sum : UInt32) : ((sum &&& (0x80000000 : UInt32)) != 0) = true ↔ 2 ^ 31 ≤ sum.toNat := by
  have hs := sum.toNat_lt
  rw [bne_iff_ne, ne_eq, ← UInt32.toNat_inj, UInt32.toNat_and, show (0x80000000 : UInt32).toNat = 2 ^ 31 from rfl,
    Nat.and_two_pow, Nat.testBit_eq_decide_div_mod_eq]
  rcases Nat.lt_or_ge sum.toNat (2 ^ 31) with h | h
  · rw [Nat.div_eq_of_lt h]
    simpa using h
  · rw [show sum.toNat / 2 ^ 31 = 1 by omega]
    simpa using h

theorem carry_spec (sum : UInt32) :
    addChecked (sum &&& (0xFFFF : UInt32)) (sum >>> 16) = some ((sum &&& (0xFFFF : UInt32)) + (sum >>> 16)) := by
  have hs := sum.toNat_lt
  have hmod : sum.toNat &&& 65535 = sum.toNat % 2 ^ 16 := Nat.and_two_pow_sub_one_eq_mod _ 16
  have hdiv : sum.toNat >>> 16 = sum.toNat / 2 ^ 16 := Nat.shiftRight_eq_div_pow _ _
  refine (addChecked_eq ?_).1
  simp only [UInt32.toNat_shiftRight, UInt32.toNat_and, UInt32.reduceToNat, Nat.reduceMod, hmod, hdiv]
  omega

/-- The sum after a run of additions and carries: nothing overflowed, and it is the exact
sum of the words up to a multiple of 65535. -/
structure SumsTo (res : UInt32) (n : ℕ) : Prop where
  mod : res.toNat % 65535 = n % 65535
  zero : res.toNat = 0 ↔ n = 0

theorem SumsTo.add {n k : ℕ} {x y : UInt32} (h : SumsTo x n) (hy : y.toNat = k) (hlt : x.toNat + k < 2 ^ 32) :
    addChecked x y = some (x + y) ∧ SumsTo (x + y) (n + k) := by
  subst hy
  obtain ⟨hc, hv⟩ := addChecked_eq hlt
  refine ⟨hc, ?_, ?_⟩
  · rw [hv, Nat.add_mod, h.mod, ← Nat.add_mod]
  · rw [hv, Nat.add_eq_zero_iff, Nat.add_eq_zero_iff, h.zero]

theorem SumsTo.carry {n : ℕ} {x : UInt32} (h : SumsTo x n) :
    SumsTo ((x &&& (0xFFFF : UInt32)) + (x >>> 16)) n := by
  obtain ⟨hmod, hzero⟩ := h
  constructor <;> rw [toNat_carry] <;> omega

theorem sumWords_spec (m : Mem) (n : ℕ) : ∀ (a : Int) {sum : UInt32} {k : ℕ}, SumsTo sum k → sum.toNat < 2 ^ 31 →
    sumWordsChecked m a n sum = some (sumWords m a n sum) ∧ SumsTo (sumWords m a n sum) (k + total (m.slice a n)) ∧
      (sumWords m a n sum).toNat < 2 ^ 31 + 2 ^ 8 := by
  induction n using Nat.twoStepInduction with
  | zero => exact fun a sum k h hlt ↦ ⟨rfl, h, by simpa only [sumWords] using by omega⟩
  | one =>
    intro a sum k h hlt
    have hb := (m a).toNat_lt
    have hv : (m a).toUInt32.toNat = (m a).toNat := rfl
    obtain ⟨hc, hs⟩ := h.add hv (by omega)
    refine ⟨hc, ?_, ?_⟩
    · simpa [sumWords, Mem.slice, total] using hs
    · rw [sumWords, (addChecked_eq (by omega)).2]
      omega
  | more n ih _ =>
    intro a sum k h hlt
    have hw := (m.ld16 a).toNat_lt
    obtain ⟨hc, hs⟩ := h.add (toNat_ld16 m a) (by omega)
    have hv := (addChecked_eq (x := sum) (y := (m.ld16 a).toUInt32) (by rw [toNat_ld16]; omega)).2
    rw [total_slice_two, ← Nat.add_assoc]
    simp only [sumWordsChecked, sumWords, hc, Option.bind_eq_bind, Option.bind_some]
    by_cases htop : ((sum + (m.ld16 a).toUInt32 &&& (0x80000000 : UInt32)) != 0) = true
    · simp only [if_pos htop, carry_spec, Option.bind_some]
      exact ih (a + 2) hs.carry (by rw [toNat_carry, hv, toNat_ld16]; omega)
    · simp only [if_neg htop]
      exact ih (a + 2) hs (by rwa [top_bit_iff, not_le] at htop)

theorem sumAddrs_spec (src dst : Mem) (n : ℕ) : ∀ (s d : Int) {sum : UInt32} {k : ℕ}, SumsTo sum k →
    sum.toNat + n * 2 ^ 17 < 2 ^ 32 →
    sumAddrsChecked src s dst d n sum = some (sumAddrs src s dst d n sum) ∧
      SumsTo (sumAddrs src s dst d n sum) (k + total (src.slice s (2 * n)) + total (dst.slice d (2 * n))) ∧
      (sumAddrs src s dst d n sum).toNat ≤ sum.toNat + n * 2 ^ 17 := by
  induction n with
  | zero => exact fun s d sum k h hlt ↦ ⟨rfl, h, le_rfl⟩
  | succ n ih =>
    intro s d sum k h hlt
    have hw₁ := (src.ld16 s).toNat_lt
    have hw₂ := (dst.ld16 d).toNat_lt
    obtain ⟨hc₁, hs₁⟩ := h.add (toNat_ld16 src s) (by omega)
    have hv₁ := (addChecked_eq (x := sum) (y := (src.ld16 s).toUInt32) (by rw [toNat_ld16]; omega)).2
    rw [toNat_ld16] at hv₁
    obtain ⟨hc₂, hs₂⟩ := hs₁.add (toNat_ld16 dst d) (by omega)
    have hv₂ := (addChecked_eq (x := sum + (src.ld16 s).toUInt32) (y := (dst.ld16 d).toUInt32)
      (by rw [toNat_ld16]; omega)).2
    rw [toNat_ld16] at hv₂
    obtain ⟨hc, hs, hle⟩ := ih (s + 2) (d + 2) hs₂ (by omega)
    simp only [sumAddrsChecked, sumAddrs, hc₁, hc₂, Option.bind_eq_bind, Option.bind_some]
    refine ⟨hc, ?_, by omega⟩
    rw [Nat.mul_succ, total_slice_two, total_slice_two]
    convert hs using 1
    omega

theorem foldCarries_spec {sum : UInt32} {k : ℕ} (h : SumsTo sum k) : foldCarriesChecked 2 sum = some (foldCarries sum) ∧
    SumsTo (foldCarries sum) k ∧ (foldCarries sum).toNat < 65536 := by
  have hlt := sum.toNat_lt
  have hdone : ∀ {rounds : ℕ} {x : UInt32}, SumsTo x k → x.toNat < 65536 →
      foldCarriesChecked rounds x = some (foldCarries x) ∧ SumsTo (foldCarries x) k ∧
        (foldCarries x).toNat < 65536 := by
    intro rounds x hx hsmall
    have hzero := (carry_eq_zero_iff x).mpr hsmall
    rw [foldCarries, if_pos hzero]
    refine ⟨?_, hx, hsmall⟩
    cases rounds <;> exact if_pos hzero
  have hturn : ∀ {rounds : ℕ} {x : UInt32}, ¬x.toNat < 65536 → foldCarriesChecked (rounds + 1) x =
      foldCarriesChecked rounds ((x &&& (0xFFFF : UInt32)) + (x >>> 16)) ∧
      foldCarries x = foldCarries ((x &&& (0xFFFF : UInt32)) + (x >>> 16)) := by
    intro rounds x hbig
    rw [← carry_eq_zero_iff] at hbig
    constructor
    · simp only [foldCarriesChecked, if_neg hbig, carry_spec, Option.bind_eq_bind, Option.bind_some]
    · rw [foldCarries, if_neg hbig]
  by_cases h₀ : sum.toNat < 65536
  · exact hdone h h₀
  obtain ⟨hc₁, hf₁⟩ := hturn h₀
  have hv₁ := toNat_carry sum
  rw [hc₁, hf₁]
  by_cases h₁ : ((sum &&& (0xFFFF : UInt32)) + (sum >>> 16)).toNat < 65536
  · exact hdone h.carry h₁
  obtain ⟨hc₂, hf₂⟩ := hturn h₁
  have hv₂ := toNat_carry ((sum &&& (0xFFFF : UInt32)) + (sum >>> 16))
  rw [hc₂, hf₂]
  exact hdone h.carry.carry (by omega)

end Sums

/-- What a receiver puts before the bytes of a segment, over IPv4 or over IPv6 by the
length of the addresses. -/
def pseudoHeader (src dst : List UInt8) (protocol : UInt8) (len : ℕ) : List UInt8 :=
  src ++ dst ++
    if src.length = 4 then [0, protocol, UInt8.ofNat (len / 2 ^ 8), UInt8.ofNat len]
    else [UInt8.ofNat (len / 2 ^ 24), UInt8.ofNat (len / 2 ^ 16), UInt8.ofNat (len / 2 ^ 8), UInt8.ofNat len,
      0, 0, 0, protocol]

theorem length_pseudoHeader (src dst : List UInt8) (protocol : UInt8) (len : ℕ) :
    (pseudoHeader src dst protocol len).length = src.length + dst.length + if src.length = 4 then 4 else 8 := by
  unfold pseudoHeader
  split <;> simp [Nat.add_assoc]

theorem toNat_ntohs_protocol (protocol : UInt8) :
    (ntohs protocol.toUInt16).toUInt32.toNat = 256 * protocol.toNat := by
  have := protocol.toNat_lt
  have hv : (ntohs protocol.toUInt16).toUInt32.toNat = (ntohs protocol.toUInt16).toNat := rfl
  have hp : protocol.toUInt16.toNat = protocol.toNat := rfl
  rw [hv, toNat_ntohs, hp]
  omega

theorem toNat_ntohs_len {len : ℕ} (h : len ≤ 65535) :
    (ntohs (UInt16.ofNat len)).toUInt32.toNat = len / 256 + 256 * (len % 256) := by
  have hv : (ntohs (UInt16.ofNat len)).toUInt32.toNat = (ntohs (UInt16.ofNat len)).toNat := rfl
  have hmod : len % 2 ^ 16 = len := Nat.mod_eq_of_lt (by omega)
  rw [hv, toNat_ntohs, UInt16.toNat_ofNat', hmod]
  omega

theorem total_pseudoHeader {src dst : List UInt8} (hs : src.length % 2 = 0) (hd : dst.length % 2 = 0)
    (protocol : UInt8) {len : ℕ} (h : len ≤ 65535) : total (pseudoHeader src dst protocol len) =
      total src + total dst + 256 * protocol.toNat + (len / 256 + 256 * (len % 256)) := by
  have h₁ : (len / 2 ^ 8) % 2 ^ 8 = len / 256 := by omega
  unfold pseudoHeader
  rw [List.append_assoc, total_append hs, total_append hd]
  split <;> simp only [total, UInt8.toNat_ofNat', UInt8.toNat_zero] <;> omega

section Segment

variable {m src dst : Mem} {a s d : Int} {len n : ℕ} {protocol : UInt8}

theorem tcp_checksum_spec (hlen : len ≤ 65535) (hn : n ≤ 8) {sum : ℕ}
    (hsum : sum = total (pseudoHeader (src.slice s (2 * n)) (dst.slice d (2 * n)) protocol len) +
      total (m.slice a len)) :
    tcp_checksumChecked 2 m a len src s dst d n protocol = some (tcp_checksum m a len src s dst d n protocol) ∧
      (sum + (tcp_checksum m a len src s dst d n protocol).toNat) % 65535 = 0 ∧
      sum + (tcp_checksum m a len src s dst d n protocol).toNat ≠ 0 ∧
      (tcp_checksum m a len src s dst d n protocol = 0 ↔ sum % 65535 = 0 ∧ sum ≠ 0) := by
  have hp := protocol.toNat_lt
  obtain ⟨hc₁, hs₁, hl₁⟩ := sumWords_spec m len a (show SumsTo 0 0 from ⟨rfl, iff_of_true rfl rfl⟩) (by decide)
  obtain ⟨hc₂, hs₂, hl₂⟩ := sumAddrs_spec src dst n s d hs₁ (by omega)
  have hl₃ := toNat_ntohs_protocol protocol
  obtain ⟨hc₃, hs₃⟩ := hs₂.add hl₃ (by omega)
  have hv₃ := (addChecked_eq (x := sumAddrs src s dst d n (sumWords m a len 0))
    (y := (ntohs protocol.toUInt16).toUInt32) (by omega)).2
  obtain ⟨hc₄, hs₄⟩ := hs₃.add (toNat_ntohs_len hlen) (by omega)
  obtain ⟨hc₅, hs₅, hl₅⟩ := foldCarries_spec hs₄
  rw [total_pseudoHeader (by simp) (by simp) protocol hlen] at hsum
  have hval : (tcp_checksum m a len src s dst d n protocol).toNat = 65535 - (foldCarries
      (sumAddrs src s dst d n (sumWords m a len 0) + (ntohs protocol.toUInt16).toUInt32 +
        (ntohs (UInt16.ofNat len)).toUInt32)).toNat := by
    unfold tcp_checksum
    dsimp only
    rw [UInt16.toNat_not, UInt32.toNat_toUInt16, Nat.mod_eq_of_lt hl₅]
    rfl
  obtain ⟨hmod, hzero⟩ := hs₅
  refine ⟨?_, ?_, ?_, ?_⟩
  · simp only [tcp_checksumChecked, hc₁, hc₂, hc₃, hc₄, hc₅, Option.bind_eq_bind, Option.bind_some,
      Option.pure_def, tcp_checksum]
  · omega
  · omega
  · rw [← UInt16.toNat_inj, hval, UInt16.toNat_zero]
    omega

theorem tcp_checksum_checks {f : ℕ} (hlen : len ≤ 65535) (hn : n ≤ 8) (hf : f % 2 = 0) (hfit : f + 2 ≤ len)
    (hzero : m.ld16 (a + f) = 0) : Checks (pseudoHeader (src.slice s (2 * n)) (dst.slice d (2 * n)) protocol len ++
      (m.st16 (a + f) (tcp_checksum m a len src s dst d n protocol)).slice a len) := by
  obtain ⟨-, hmod, hne, -⟩ := tcp_checksum_spec (m := m) (a := a) (s := s) (d := d) hlen hn rfl
  rw [checks_iff, total_append (by rw [length_pseudoHeader]; simp only [Mem.length_slice]; split <;> omega),
    total_st16 hf hfit hzero, ← Nat.add_assoc]
  exact ⟨hmod, hne⟩

/-- The addresses and the segment in one buffer, with a word written to a zeroed field: over whatever
length the bytes are summed up, the word is what it adds. -/
theorem total_stored {m' : Mem} {f : ℕ} {v : UInt16} (hf : f % 2 = 0) (hfit : f + 2 ≤ len)
    (hzero : m.ld16 (a + f) = 0) (hs : s + 2 * n ≤ a) (hd : d + 2 * n ≤ a)
    (hm : ∀ i, s ≤ i ∧ i < s + 2 * n ∨ d ≤ i ∧ i < d + 2 * n ∨ a ≤ i → m' i = (m.st16 (a + f) v) i) :
    total (pseudoHeader (m'.slice s (2 * n)) (m'.slice d (2 * n)) protocol len ++ m'.slice a len) =
      total (pseudoHeader (m.slice s (2 * n)) (m.slice d (2 * n)) protocol len ++ m.slice a len) + v.toNat := by
  have haddr : ∀ b : Int, (∀ i, b ≤ i → i < b + 2 * n → m' i = (m.st16 (a + f) v) i) → b + 2 * n ≤ a →
      m'.slice b (2 * n) = m.slice b (2 * n) := fun b h hb ↦ Mem.slice_congr fun i h₁ h₂ ↦ by
    rw [h i h₁ (by omega), Mem.st16, Mem.store_outside _ (.inl (by omega))]
  have hseg : m'.slice a len = (m.st16 (a + f) v).slice a len :=
    Mem.slice_congr fun i h₁ h₂ ↦ hm i (.inr (.inr h₁))
  have heven : (pseudoHeader (m.slice s (2 * n)) (m.slice d (2 * n)) protocol len).length % 2 = 0 := by
    rw [length_pseudoHeader]
    simp only [Mem.length_slice]
    split <;> omega
  rw [haddr s (fun i h₁ h₂ ↦ hm i (.inl ⟨h₁, h₂⟩)) hs, haddr d (fun i h₁ h₂ ↦ hm i (.inr (.inl ⟨h₁, h₂⟩))) hd, hseg,
    total_append heven, total_append heven, total_st16 hf hfit hzero, Nat.add_assoc]

end Segment

end Nat64Alg
