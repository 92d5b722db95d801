import Nat64Alg.Binding

namespace Nat64Alg

open Lib StateManager

section Keys

variable (a b c : IPv6Addr) (p q r : IP6Port) (k l m : Key64) (a₄ b₄ c₄ : IPv4Addr) (p₄ q₄ r₄ : IP4Port)
  (k₄ l₄ m₄ : Key46) (k₅ l₅ m₅ : Key44)

/-- The IPv4 keys are ordered totally. An IPv6 address is told apart from none, so that of an
IPv6 endpoint, and of a key with one, only the port counts. -/
theorem key_orders :
    OrderedMap.TotalAt IPv4Addr.lt a₄ b₄ c₄ ∧
    OrderedMap.TotalAt IP4Port.lt p₄ q₄ r₄ ∧
    OrderedMap.TotalAt (pairLt IP4Port.lt IPv4Addr.lt) k₄ l₄ m₄ ∧
    OrderedMap.TotalAt (pairLt IP4Port.lt IP4Port.lt) k₅ l₅ m₅ ∧
    (OrderedMap.TotalAt IPv6Addr.lt a b c ↔ a = b) ∧
    (OrderedMap.TotalAt IP6Port.lt p q r ↔ p = q ∨ p.port_ ≠ q.port_) ∧
    (OrderedMap.TotalAt (pairLt IP6Port.lt IPv6Addr.lt) k l m ↔ k = l ∨ k.1.port_ ≠ l.1.port_) ∧
    ((IPv6Addr.ne a b = true ↔ a ≠ b) ↔ a = b) := by
  refine ⟨OrderedMap.totalAt_iff.mpr IPv4Addr.equiv_iff.mp, OrderedMap.totalAt_iff.mpr IP4Port.equiv_iff.mp,
    OrderedMap.totalAt_iff.mpr equiv46.mp, OrderedMap.totalAt_iff.mpr equiv44.mp, ?_, ?_, ?_, ?_⟩
  · rw [OrderedMap.totalAt_iff, IPv6Addr.equiv_all, imp_iff_right rfl]
  · rw [OrderedMap.totalAt_iff, IP6Port.equiv_iff, imp_iff_not_or, or_comm]
  · rw [OrderedMap.totalAt_iff, equiv64, imp_iff_not_or, or_comm]
  · rw [IPv6Addr.ne_eq_false]
    simp

end Keys

/-- Two clients' addresses, their endpoints at one port, and the keys of their flows to one server. -/
theorem addresses_merged :
    ¬(∀ a b c : IPv6Addr, OrderedMap.TotalAt IPv6Addr.lt a b c) ∧
    ¬(∀ a b c : IP6Port, OrderedMap.TotalAt IP6Port.lt a b c) ∧
    ¬(∀ a b c : Key64, OrderedMap.TotalAt (pairLt IP6Port.lt IPv6Addr.lt) a b c) ∧
    ¬∀ a b : IPv6Addr, IPv6Addr.ne a b = true ↔ a ≠ b := by
  refine ⟨fun h ↦ ?_, fun h ↦ ?_, fun h ↦ ?_, fun h ↦ ?_⟩
  · exact absurd ((h clientA clientB clientA).separates.mp (by decide)) (by decide)
  · exact absurd ((h ⟨clientA, 80⟩ ⟨clientB, 80⟩ ⟨clientA, 80⟩).separates.mp (by decide)) (by decide)
  · exact absurd ((h (⟨clientA, 80⟩, serverS) (⟨clientB, 80⟩, serverS) (⟨clientA, 80⟩, serverS)).separates.mp
      (by decide)) (by decide)
  · exact absurd ((h clientA clientB).mpr (by decide)) (by decide)

end Nat64Alg
