import Nat64Alg.Lib.Automaton

namespace Nat64Alg.Lib

structure LexRule (α S K : Type) where
  enabled : S → Bool
  automaton : Automaton α
  action : S → List α → S × Option K

def LexRule.rule {α S K : Type} (r : LexRule α S K) : Rule α S K := ⟨r.enabled, r.automaton.pattern, r.action⟩

/-- The rules of a scanner, some of which go first, and the state after a character
no rule matches, if the scanner passes over it at all. -/
structure Lexer (α S K : Type) where
  first : List (LexRule α S K)
  rules : List (LexRule α S K)
  skip : S → α → Option S
  first_subset : first ⊆ rules

/-- A scanner at work on a stream: its state, and what it has read without a decision. -/
structure Head (α S : Type) where
  state : S
  pending : List α

namespace Lexer

variable {α S K : Type} (L : Lexer α S K)

def running (s : S) (t : List α) : Bool := L.rules.any (fun r ↦ r.enabled s && r.automaton.running 0 t)

def pick (s : S) (t : List α) : Option (Rule α S K × ℕ) :=
  Rule.longestOf (L.first.map LexRule.rule) (L.rules.map LexRule.rule) s t

def turn (x : Head α S) : Option (Consumed α S K × Head α S) :=
  if L.running x.state x.pending then none
  else
    match L.pick x.state x.pending with
    | some (r, k) =>
      let m := x.pending.take k
      some (⟨⟨x.state, m, (r.action x.state m).2⟩, false⟩, ⟨(r.action x.state m).1, x.pending.drop k⟩)
    | none =>
      match x.pending with
      | [] => none
      | c :: cs => (L.skip x.state c).map (fun s ↦ (⟨⟨x.state, [c], none⟩, true⟩, ⟨s, cs⟩))

def readFor : ℕ → Head α S → List (Consumed α S K) × Head α S
  | 0, x => ([], x)
  | n + 1, x =>
    match L.turn x with
    | none => ([], x)
    | some (m, x) => (m :: (readFor n x).1, (readFor n x).2)

/-- What is consumed when more of the stream arrives, and where the scanner waits then. -/
def read (x : Head α S) (data : List α) : List (Consumed α S K) × Head α S :=
  L.readFor (x.pending.length + data.length) ⟨x.state, x.pending ++ data⟩

variable {L} {x y : Head α S} {m : Consumed α S K} {s : S} {t u : List α}

theorem pick_cases (L : Lexer α S K) (s : S) (t : List α) : L.pick s t = none ∨ ∃ r ∈ L.rules,
    r.enabled s = true ∧ 0 < r.automaton.pattern t ∧ L.pick s t = some (r.rule, r.automaton.pattern t) := by
  unfold pick
  rcases Rule.longestOf_cases (List.map_subset LexRule.rule L.first_subset) s t with ⟨hp, -⟩ | ⟨r, hr, hp, hpos⟩
  · exact .inl hp
  · obtain ⟨r, hmem, rfl⟩ := List.mem_map.mp hr
    have he := Rule.tried_pos hpos
    have hk : r.rule.tried s t = r.automaton.pattern t := if_pos he
    rw [hk] at hpos hp
    exact .inr ⟨r, hmem, he, hpos, hp⟩

theorem turn_cases (h : L.turn x = some (m, y)) :
    (∃ r ∈ L.rules, r.enabled x.state = true ∧ 0 < r.automaton.pattern x.pending ∧
      m = ⟨⟨x.state, x.pending.take (r.automaton.pattern x.pending),
        (r.action x.state (x.pending.take (r.automaton.pattern x.pending))).2⟩, false⟩ ∧
      y = ⟨(r.action x.state (x.pending.take (r.automaton.pattern x.pending))).1,
        x.pending.drop (r.automaton.pattern x.pending)⟩) ∨
    ∃ c cs s, x.pending = c :: cs ∧ L.skip x.state c = some s ∧ m = ⟨⟨x.state, [c], none⟩, true⟩ ∧ y = ⟨s, cs⟩ := by
  unfold turn at h
  split at h
  case isTrue => cases h
  case isFalse =>
    rcases L.pick_cases x.state x.pending with hp | ⟨r, hr, he, hpos, hp⟩
    · rw [hp] at h
      cases ht : x.pending with
      | nil => simp [ht] at h
      | cons c cs =>
        simp only [ht, Option.map_eq_some_iff, Prod.mk.injEq] at h
        obtain ⟨s, hs, rfl, rfl⟩ := h
        exact .inr ⟨c, cs, s, rfl, hs, rfl, rfl⟩
    · rw [hp] at h
      simp only [Option.some.injEq, Prod.mk.injEq] at h
      obtain ⟨rfl, rfl⟩ := h
      exact .inl ⟨r, hr, he, hpos, rfl, rfl⟩

theorem turn_text (h : L.turn x = some (m, y)) : m.text ++ y.pending = x.pending ∧ m.text ≠ [] := by
  rcases turn_cases h with ⟨r, -, -, hpos, rfl, rfl⟩ | ⟨c, cs, s, hx, -, rfl, rfl⟩
  · refine ⟨List.take_append_drop _ x.pending, fun he ↦ ?_⟩
    have hlen := congrArg List.length he
    have hle := r.automaton.pattern_le x.pending
    rw [List.length_take, List.length_nil] at hlen
    omega
  · exact ⟨hx.symm, List.cons_ne_nil c []⟩

section Settled

variable (h : L.running s t = false)
include h

theorem stopped {r : LexRule α S K} (hr : r ∈ L.rules) (he : r.enabled s = true) : r.automaton.running 0 t = false := by
  have := List.any_eq_false.mp h r hr
  simpa [he] using this

theorem running_append (u : List α) : L.running s (t ++ u) = false := by
  refine List.any_eq_false.mpr fun r hr ↦ ?_
  cases he : r.enabled s with
  | false => simp
  | true => simp [Automaton.running_append (stopped h hr he) u]

theorem longest_append (u : List α) {rs : List (LexRule α S K)} (hrs : rs ⊆ L.rules) :
    Rule.longest s (t ++ u) (rs.map LexRule.rule) = Rule.longest s t (rs.map LexRule.rule) := by
  induction rs with
  | nil => rfl
  | cons r rs ih =>
    have htried : r.rule.tried s (t ++ u) = r.rule.tried s t := by
      unfold Rule.tried
      split
      case isTrue he => exact Automaton.pattern_append (stopped h (hrs List.mem_cons_self) he) u
      case isFalse => rfl
    rw [List.map_cons, Rule.longest, Rule.longest, ih (fun x hx ↦ hrs (List.mem_cons_of_mem _ hx)), htried]

theorem pick_append (u : List α) : L.pick s (t ++ u) = L.pick s t := by
  rw [pick, pick, Rule.longestOf, Rule.longestOf, longest_append h u L.first_subset,
    longest_append h u (List.Subset.refl _)]

end Settled

theorem turn_append (h : L.turn x = some (m, y)) (u : List α) :
    L.turn ⟨x.state, x.pending ++ u⟩ = some (m, ⟨y.state, y.pending ++ u⟩) := by
  have hrun : L.running x.state x.pending = false := by
    by_contra hr
    rw [turn, if_pos (by simpa using hr)] at h
    cases h
  rw [turn, if_neg (by simp [hrun])] at h
  rw [turn, if_neg (by simp [running_append hrun u])]
  dsimp only
  rw [pick_append hrun u]
  rcases L.pick_cases x.state x.pending with hp | ⟨r, -, -, -, hp⟩
  · rw [hp] at h ⊢
    cases ht : x.pending with
    | nil => simp [ht] at h
    | cons c cs =>
      simp only [ht, Option.map_eq_some_iff, Prod.mk.injEq] at h
      obtain ⟨s, hs, rfl, rfl⟩ := h
      simp [hs]
  · rw [hp] at h ⊢
    simp only [Option.some.injEq, Prod.mk.injEq] at h
    obtain ⟨rfl, rfl⟩ := h
    have hle := r.automaton.pattern_le x.pending
    dsimp only
    rw [List.take_append_of_le_length hle, List.drop_append_of_le_length hle]

section Enabled

end Enabled

/-- What is consumed from one point of a stream to another. -/
inductive Reads (L : Lexer α S K) : Head α S → List (Consumed α S K) → Head α S → Prop
  | nil (x : Head α S) : Reads L x [] x
  | cons {x y z : Head α S} {m : Consumed α S K} {ms : List (Consumed α S K)} :
      L.turn x = some (m, y) → Reads L y ms z → Reads L x (m :: ms) z

variable {z z' : Head α S} {ms ns : List (Consumed α S K)}

theorem Reads.trans (h : Reads L x ms y) (h' : Reads L y ns z) : Reads L x (ms ++ ns) z := by
  induction h with
  | nil => exact h'
  | cons ht _ ih => exact .cons ht (ih h')

theorem Reads.later (h : Reads L x ms y) (u : List α) :
    Reads L ⟨x.state, x.pending ++ u⟩ ms ⟨y.state, y.pending ++ u⟩ := by
  induction h with
  | nil => exact .nil _
  | cons ht _ ih => exact .cons (turn_append ht u) ih

theorem Reads.unique (h : Reads L x ms y) (hy : L.turn y = none) (h' : Reads L x ns z) (hz : L.turn z = none) :
    ms = ns ∧ y = z := by
  induction h generalizing ns with
  | nil =>
    cases h' with
    | nil => exact ⟨rfl, rfl⟩
    | cons ht _ => cases hy.symm.trans ht
  | cons ht _ ih =>
    cases h' with
    | nil => cases hz.symm.trans ht
    | cons ht' h' =>
      cases ht.symm.trans ht'
      obtain ⟨rfl, rfl⟩ := ih hy h'
      exact ⟨rfl, rfl⟩

theorem Reads.text (h : Reads L x ms y) : (ms.map (fun m ↦ m.text)).flatten ++ y.pending = x.pending := by
  induction h with
  | nil => rfl
  | cons ht _ ih => rw [List.map_cons, List.flatten_cons, List.append_assoc, ih, (turn_text ht).1]

end Lexer

end Nat64Alg.Lib
