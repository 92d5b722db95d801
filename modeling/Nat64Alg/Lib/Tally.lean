import Mathlib.Algebra.BigOperators.Group.Finset.Basic
import Mathlib.Data.Finset.Image

namespace Nat64Alg.Lib.Tally

variable {K S E C : Type*} [DecidableEq K] [AddCommMonoid C] (step : S → E → S × C)

/-- One cell goes through events, and what it counts is added up. -/
def cell (s : S) : List E → S × C
  | [] => (s, 0)
  | e :: es => ((cell (step s e).1 es).1, (step s e).2 + (cell (step s e).1 es).2)

/-- Cells that events of different keys go to, over one count. -/
def run (cells : K → S) : List (K × E) → (K → S) × C
  | [] => (cells, 0)
  | (k, e) :: es =>
    let r := step (cells k) e
    ((run (Function.update cells k r.1) es).1, r.2 + (run (Function.update cells k r.1) es).2)

def own (k : K) (es : List (K × E)) : List E := (es.filter (fun e ↦ e.1 = k)).map Prod.snd

variable {step}

theorem own_cons_self (k : K) (e : E) (es : List (K × E)) : own k ((k, e) :: es) = e :: own k es := by
  simp [own]

theorem own_cons_ne {k k' : K} (h : k' ≠ k) (e : E) (es : List (K × E)) : own k ((k', e) :: es) = own k es := by
  simp [own, h]

theorem own_append (k : K) (es es' : List (K × E)) : own k (es ++ es') = own k es ++ own k es' := by
  simp [own]

theorem own_eq_nil {k : K} {es : List (K × E)} (h : k ∉ es.map Prod.fst) : own k es = [] := by
  rw [own, List.map_eq_nil_iff, List.filter_eq_nil_iff]
  intro e he hk
  exact h (List.mem_map.mpr ⟨e, he, by simpa using hk⟩)

theorem cell_append (s : S) (es es' : List E) : cell step s (es ++ es') =
    ((cell step (cell step s es).1 es').1, (cell step s es).2 + (cell step (cell step s es).1 es').2) := by
  induction es generalizing s with
  | nil => simp [cell]
  | cons e es ih => simp only [List.cons_append, cell, ih, add_assoc]

theorem run_append (cells : K → S) (es es' : List (K × E)) : run step cells (es ++ es') =
    ((run step (run step cells es).1 es').1, (run step cells es).2 + (run step (run step cells es).1 es').2) := by
  induction es generalizing cells with
  | nil => simp [run]
  | cons e es ih => simp only [List.cons_append, run, ih, add_assoc]

theorem run_cells (cells : K → S) (es : List (K × E)) (k : K) :
    (run step cells es).1 k = (cell step (cells k) (own k es)).1 := by
  induction es generalizing cells with
  | nil => rfl
  | cons e es ih =>
    obtain ⟨k', e⟩ := e
    rw [run, ih]
    by_cases h : k' = k
    · subst h
      rw [own_cons_self, cell, Function.update_self]
    · rw [own_cons_ne h, Function.update_of_ne (Ne.symm h)]

end Nat64Alg.Lib.Tally
