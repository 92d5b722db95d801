import Mathlib.Data.List.Basic

namespace Nat64Alg.Lib

theorem ok_of_bind {E α β : Type} {x : Except E α} {f : α → Except E β} {b : β}
    (h : x >>= f = .ok b) : ∃ a, x = .ok a ∧ f a = .ok b := by
  cases x with
  | error e => cases h
  | ok a => exact ⟨a, rfl, h⟩

theorem exists_ok {E α : Type} {x : Except E α} (h : x.toOption.isSome = true) : ∃ a, x = .ok a := by
  cases x with
  | error e => cases h
  | ok a => exact ⟨a, rfl⟩

/-- A computation that consults its environment: it ends with a value, fails,
or makes a call and goes on with the answer. -/
inductive Prog (C A E α : Type)
  | ret : α → Prog C A E α
  | fail : E → Prog C A E α
  | call : C → (A → Prog C A E α) → Prog C A E α

namespace Prog

variable {C A E α β S T : Type}

def bind : Prog C A E α → (α → Prog C A E β) → Prog C A E β
  | ret a, f => f a
  | fail e, _ => fail e
  | call c k, f => call c (fun a ↦ (k a).bind f)

def map (f : α → β) (p : Prog C A E α) : Prog C A E β := p.bind (fun a ↦ ret (f a))

/-- Running against an environment, keeping the calls made and their answers. -/
def run (h : C → S → A × S) : Prog C A E α → S → Except E (α × S × List (C × A))
  | ret a, s => .ok (a, s, [])
  | fail e, _ => .error e
  | call c k, s =>
    match (k (h c s).1).run h (h c s).2 with
    | .ok (a, s', log) => .ok (a, s', (c, (h c s).1) :: log)
    | .error e => .error e

theorem run_call {h : C → S → A × S} {c : C} {k : A → Prog C A E α} {s s' : S} {a : α}
    {log : List (C × A)} (hr : (call c k).run h s = .ok (a, s', log)) :
    ∃ log', log = (c, (h c s).1) :: log' ∧ (k (h c s).1).run h (h c s).2 = .ok (a, s', log') := by
  simp only [run] at hr
  split at hr
  case h_1 a₁ s₁ log₁ he =>
    simp only [Except.ok.injEq, Prod.mk.injEq] at hr
    obtain ⟨rfl, rfl, rfl⟩ := hr
    exact ⟨log₁, rfl, he⟩
  case h_2 => cases hr

theorem of_run_bind {h : C → S → A × S} {f : α → Prog C A E β} {p : Prog C A E α} {s s' : S} {b : β}
    {log : List (C × A)} (hr : (p.bind f).run h s = .ok (b, s', log)) :
    ∃ a t log₁ log₂, p.run h s = .ok (a, t, log₁) ∧ (f a).run h t = .ok (b, s', log₂) ∧ log = log₁ ++ log₂ := by
  induction p generalizing s log with
  | ret a => exact ⟨a, s, [], log, rfl, hr, rfl⟩
  | fail e => cases hr
  | call c k ih =>
    obtain ⟨log', rfl, hk⟩ := run_call hr
    obtain ⟨a, t, log₁, log₂, h₁, h₂, rfl⟩ := ih _ hk
    refine ⟨a, t, (c, (h c s).1) :: log₁, log₂, ?_, h₂, rfl⟩
    simp only [run, h₁]

theorem of_run_map {h : C → S → A × S} {f : α → β} {p : Prog C A E α} {s s' : S} {b : β}
    {log : List (C × A)} (hr : (p.map f).run h s = .ok (b, s', log)) :
    ∃ a, b = f a ∧ p.run h s = .ok (a, s', log) := by
  induction p generalizing s log with
  | ret a => cases hr; exact ⟨a, rfl, rfl⟩
  | fail e => cases hr
  | call c k ih =>
    obtain ⟨log', rfl, hk⟩ := run_call hr
    obtain ⟨a, rfl, ha⟩ := ih _ hk
    refine ⟨a, rfl, ?_⟩
    simp only [run, ha]

theorem run_map {h : C → S → A × S} (f : α → β) {p : Prog C A E α} {s s' : S} {a : α} {log : List (C × A)}
    (hr : p.run h s = .ok (a, s', log)) : (p.map f).run h s = .ok (f a, s', log) := by
  induction p generalizing s log with
  | ret b => cases hr; rfl
  | fail e => cases hr
  | call c k ih =>
    obtain ⟨log', rfl, hk⟩ := run_call hr
    have := ih _ hk
    simp only [map, bind, run] at this ⊢
    rw [this]

theorem run_invariant {h : C → S → A × S} {I : S → Prop} {p : Prog C A E α} {s s' : S} {a : α}
    {log : List (C × A)} (hI : ∀ s c, I s → (∃ b, (c, b) ∈ log) → I (h c s).2)
    (hr : p.run h s = .ok (a, s', log)) (hs : I s) : I s' := by
  induction p generalizing s log with
  | ret b => cases hr; exact hs
  | fail e => cases hr
  | call c k ih =>
    obtain ⟨log', rfl, hk⟩ := run_call hr
    refine ih (h c s).1 ?_ hk (hI s c hs ⟨_, List.mem_cons_self⟩)
    exact fun t d ht ⟨b, hb⟩ ↦ hI t d ht ⟨b, List.mem_cons_of_mem _ hb⟩

theorem run_relation {h : C → S → A × S} {R : S → List (C × A) → S → Prop} (hnil : ∀ s, R s [] s)
    (hcons : ∀ s c log s', R (h c s).2 log s' → R s ((c, (h c s).1) :: log) s') {p : Prog C A E α} {s s' : S}
    {a : α} {log : List (C × A)} (hr : p.run h s = .ok (a, s', log)) : R s log s' := by
  induction p generalizing s log with
  | ret b =>
    cases hr
    exact hnil _
  | fail e => cases hr
  | call c k ih =>
    obtain ⟨log', rfl, hk⟩ := run_call hr
    exact hcons s c log' s' (ih _ hk)

theorem run_answers {h : C → S → A × S} {I : S → Prop} {Q : C → A → Prop} {p : Prog C A E α} {s s' : S} {a : α}
    {log : List (C × A)} (hI : ∀ s c, I s → I (h c s).2) (hQ : ∀ s c, I s → Q c (h c s).1)
    (hr : p.run h s = .ok (a, s', log)) (hs : I s) : ∀ x ∈ log, Q x.1 x.2 := by
  induction p generalizing s log with
  | ret b =>
    cases hr
    simp
  | fail e => cases hr
  | call c k ih =>
    obtain ⟨log', rfl, hk⟩ := run_call hr
    rw [List.forall_mem_cons]
    exact ⟨hQ s c hs, ih _ hk (hI s c hs)⟩

theorem run_alike {h : C → S → A × S} {g : C → T → A × T} {R : S → T → Prop} {Q : C × A → Prop}
    (hR : ∀ s t c, R s t → Q (c, (h c s).1) → Q (c, (g c t).1) → (h c s).1 = (g c t).1 ∧ R (h c s).2 (g c t).2)
    {p : Prog C A E α} {s s' : S} {t t' : T} {a b : α} {log log' : List (C × A)}
    (hr : p.run h s = .ok (a, s', log)) (hr' : p.run g t = .ok (b, t', log')) (hs : R s t)
    (hQ : ∀ x ∈ log, Q x) (hQ' : ∀ x ∈ log', Q x) : a = b ∧ log = log' ∧ R s' t' := by
  induction p generalizing s t log log' with
  | ret c =>
    cases hr
    cases hr'
    exact ⟨rfl, rfl, hs⟩
  | fail e => cases hr
  | call c k ih =>
    obtain ⟨log₁, rfl, hk⟩ := run_call hr
    obtain ⟨log₂, rfl, hk'⟩ := run_call hr'
    rw [List.forall_mem_cons] at hQ hQ'
    obtain ⟨ha, hnext⟩ := hR s t c hs hQ.1 hQ'.1
    rw [← ha] at hk'
    obtain ⟨hab, rfl, hend⟩ := ih _ hk hk' hnext hQ.2 hQ'.2
    exact ⟨hab, by rw [ha], hend⟩

end Prog

end Nat64Alg.Lib
