import Nat64Alg.Lib.Scanner

namespace Nat64Alg.Lib

/-- An automaton on characters, which starts in state 0 and stops where it has no transition. -/
structure Automaton (α : Type) where
  next : ℕ → α → Option ℕ
  final : ℕ → Bool

namespace Automaton

variable {α : Type} {a : Automaton α} {q : ℕ} {t u : List α}

/-- How much of a text lies before the last final state reached from `q`. -/
def reach (a : Automaton α) (q : ℕ) : List α → Option ℕ
  | [] => if a.final q then some 0 else none
  | c :: cs =>
    match (a.next q c).bind (fun q' ↦ a.reach q' cs) with
    | some n => some (n + 1)
    | none => if a.final q then some 0 else none

def pattern (a : Automaton α) (t : List α) : ℕ := (a.reach 0 t).getD 0

/-- The automaton still has a transition after every character, and waits for the next. -/
def running (a : Automaton α) (q : ℕ) : List α → Bool
  | [] => true
  | c :: cs => ((a.next q c).map (fun q' ↦ a.running q' cs)).getD false

theorem reach_append (h : a.running q t = false) (u : List α) : a.reach q (t ++ u) = a.reach q t := by
  induction t generalizing q with
  | nil => cases h
  | cons c cs ih =>
    rw [List.cons_append, reach, reach]
    cases hq : a.next q c with
    | none => rfl
    | some q' =>
      simp only [running, hq, Option.map_some, Option.getD_some] at h
      simp only [Option.bind_some, ih h]

theorem running_append (h : a.running q t = false) (u : List α) : a.running q (t ++ u) = false := by
  induction t generalizing q with
  | nil => cases h
  | cons c cs ih =>
    rw [List.cons_append, running]
    cases hq : a.next q c with
    | none => rfl
    | some q' =>
      simp only [running, hq, Option.map_some, Option.getD_some] at h ⊢
      exact ih h

theorem reach_le {n : ℕ} (h : a.reach q t = some n) : n ≤ t.length := by
  induction t generalizing q n with
  | nil =>
    unfold reach at h
    split at h <;> cases h
    exact Nat.le_refl 0
  | cons c cs ih =>
    unfold reach at h
    split at h
    case h_1 k hk =>
      cases h
      obtain ⟨q', -, hr⟩ := Option.bind_eq_some_iff.mp hk
      exact Nat.succ_le_succ (ih hr)
    case h_2 =>
      split at h <;> cases h
      exact Nat.zero_le _

theorem pattern_le (a : Automaton α) (t : List α) : a.pattern t ≤ t.length := by
  unfold pattern
  cases h : a.reach 0 t with
  | none => exact Nat.zero_le _
  | some n => exact reach_le h

theorem pattern_append (h : a.running 0 t = false) (u : List α) : a.pattern (t ++ u) = a.pattern t := by
  rw [pattern, reach_append h, pattern]

def one (p : α → Bool) : Automaton α where
  next q c := if q = 0 ∧ p c = true then some 1 else none
  final q := q == 1

def many (p : α → Bool) : Automaton α where
  next _ c := if p c then some 1 else none
  final q := q == 1

/-- A character of one class, then any number of another. -/
def oneMany (p r : α → Bool) : Automaton α where
  next q c := if q = 0 then (if p c then some 1 else none) else if r c then some 1 else none
  final q := q == 1

def literal [DecidableEq α] (w : List α) : Automaton α where
  next q c := if w[q]? = some c then some (q + 1) else none
  final q := q == w.length

def quoted [DecidableEq α] (quote : α) : Automaton α where
  next q c := if q = 0 then (if c = quote then some 1 else none)
    else if q = 1 then (if c = quote then some 2 else some 1) else none
  final q := q == 2

/-- A character of one class, then all before an end, and the end if it is there. -/
def upTo [DecidableEq α] (p : α → Bool) (stop : α) : Automaton α where
  next q c := if q = 0 then (if p c then some 1 else none)
    else if q = 1 then (if c = stop then some 2 else some 1) else none
  final q := q == 1 || q == 2

section Patterns

variable {p r : α → Bool}

theorem reach_stopped (ht : ∀ c, a.next q c = none) (t : List α) :
    a.reach q t = if a.final q then some 0 else none := by
  cases t with
  | nil => rfl
  | cons c cs => simp only [reach, ht, Option.bind_none]

@[simp] theorem one_pattern : (one p).pattern t = Pattern.one p t := by
  cases t with
  | nil => rfl
  | cons c cs =>
    have hstop : (one p).reach 1 cs = some 0 := reach_stopped (fun c ↦ rfl) cs
    cases hp : p c <;> simp [pattern, reach, one, Pattern.one, hp] at hstop ⊢
    simp [hstop]

theorem reach_loop (hq : a.final q = true) (hp : ∀ c, a.next q c = if p c then some q else none) (t : List α) :
    a.reach q t = some (Pattern.many p t) := by
  induction t with
  | nil => simp [reach, hq, Pattern.many]
  | cons c cs ih =>
    unfold Pattern.many at ih ⊢
    cases hc : p c <;> simp [reach, hp, hc, ih, hq]

@[simp] theorem many_pattern : (many p).pattern t = Pattern.many p t := by
  have hloop := reach_loop (a := many p) (q := 1) (p := p) rfl (fun _ ↦ rfl)
  cases t with
  | nil => rfl
  | cons c cs =>
    unfold Pattern.many at hloop ⊢
    cases hp : p c
    · simp [pattern, reach, many, hp]
    · rw [pattern, reach, show (many p).next 0 c = some 1 by simp [many, hp], Option.bind_some, hloop cs]
      simp [hp]

@[simp] theorem oneMany_pattern : (oneMany p r).pattern t = Pattern.oneMany p r t := by
  have hloop := reach_loop (a := oneMany p r) (q := 1) (p := r) rfl (fun _ ↦ rfl)
  cases t with
  | nil => rfl
  | cons c cs =>
    cases hp : p c
    · simp [pattern, reach, oneMany, Pattern.oneMany, hp]
    · rw [pattern, reach, show (oneMany p r).next 0 c = some 1 by simp [oneMany, hp], Option.bind_some, hloop cs,
        Pattern.oneMany, if_pos hp, Nat.add_comm]
      rfl

theorem reach_literal [DecidableEq α] {w : List α} (hq : q ≤ w.length) (t : List α) :
    (literal w).reach q t = if w.drop q <+: t then some (w.length - q) else none := by
  induction t generalizing q with
  | nil =>
    rw [reach, show (literal w).final q = (q == w.length) from rfl]
    rcases Nat.eq_or_lt_of_le hq with rfl | hlt
    · simp
    · rw [if_neg (by simp; omega), if_neg (by simp; omega)]
  | cons c cs ih =>
    rw [reach, show (literal w).next q c = if w[q]? = some c then some (q + 1) else none from rfl,
      show (literal w).final q = (q == w.length) from rfl]
    rcases Nat.eq_or_lt_of_le hq with rfl | hlt
    · simp
    · rw [List.drop_eq_getElem_cons hlt, List.getElem?_eq_getElem hlt]
      by_cases hc : w[q] = c
      · rw [if_pos (by rw [hc]), Option.bind_some, ih hlt, hc]
        simp only [List.cons_prefix_cons, true_and]
        by_cases hp : w.drop (q + 1) <+: cs
        · rw [if_pos hp, if_pos hp]
          simp only [Option.some.injEq]
          omega
        · rw [if_neg hp, if_neg hp]
          simp only [beq_iff_eq]
          rw [if_neg (by omega)]
      · have hp : ¬w[q] :: w.drop (q + 1) <+: c :: cs := fun hp ↦ hc (List.cons_prefix_cons.mp hp).1
        have hlast : ¬(q == w.length) = true := by
          rw [beq_iff_eq]
          omega
        rw [if_neg (by simpa using hc), Option.bind_none, if_neg hp, if_neg hlast]

@[simp] theorem literal_pattern [DecidableEq α] {w : List α} : (literal w).pattern t = Pattern.literal w t := by
  rw [pattern, reach_literal (Nat.zero_le _), Pattern.literal, List.drop_zero]
  simp only [List.isPrefixOf_iff_prefix]
  split <;> simp

@[simp] theorem running_one {c d : α} : (one p).running 0 (c :: d :: t) = false := by
  cases hp : p c <;> simp [running, one, hp]

@[simp] theorem running_one_append {a c : α} {w : List α} : (one p).running 0 (a :: (w ++ c :: t)) = false := by
  cases w <;> exact running_one

end Patterns

end Automaton

namespace Pattern

variable {α : Type} {p r : α → Bool} {t : List α}

theorem one_pos (h : 0 < one p t) : ∃ c cs, t = c :: cs ∧ p c = true ∧ one p t = 1 := by
  cases t with
  | nil => cases h
  | cons c cs =>
    cases hc : p c with
    | false => simp [one, hc] at h
    | true => exact ⟨c, cs, rfl, hc, by simp [one, hc]⟩

@[simp] theorem oneMany_cons {c : α} : oneMany p r (c :: t) = if p c then 1 + many r t else 0 := rfl

theorem take_many (p : α → Bool) (t : List α) : t.take (many p t) = t.takeWhile p :=
  (List.prefix_iff_eq_take.mp (List.takeWhile_prefix p)).symm

theorem literal_pos [BEq α] [LawfulBEq α] {w : List α} (h : 0 < literal w t) : w <+: t ∧ literal w t = w.length := by
  unfold literal at h ⊢
  split at h
  case isTrue hw => exact ⟨List.isPrefixOf_iff_prefix.mp hw, if_pos hw⟩
  case isFalse => cases h

end Pattern

end Nat64Alg.Lib
