import Mathlib.Data.List.Basic

namespace Nat64Alg.Lib

variable {α : Type*}

/-- Chunks of a numbered stream that follow each other from `a` to `b`, on the circle of numbers. -/
def Joined : UInt32 → List (UInt32 × List α) → UInt32 → Prop
  | a, [], b => a = b
  | a, c :: cs, b => c.1 = a ∧ Joined (a + UInt32.ofNat c.2.length) cs b

namespace Joined

variable {a b c : UInt32} {cs ds : List (UInt32 × List α)}

theorem append (h : Joined a cs b) (h' : Joined b ds c) : Joined a (cs ++ ds) c := by
  induction cs generalizing a with
  | nil => exact h ▸ h'
  | cons x cs ih => exact ⟨h.1, ih h.2⟩

theorem one (a : UInt32) (t : List α) : Joined a [(a, t)] (a + UInt32.ofNat t.length) := ⟨rfl, rfl⟩

end Joined

end Nat64Alg.Lib
