import Mathlib.Algebra.Order.Ring.Nat
import Mathlib.Data.List.TakeWhile

namespace Nat64Alg.Lib

/-- A rule of a scanner: where it is tried, how much it matches at the front of a
text, and the state and the token its action leaves. -/
structure Rule (α S K : Type) where
  enabled : S → Bool
  pattern : List α → ℕ
  action : S → List α → S × Option K

structure Match (α S K : Type) where
  state : S
  text : List α
  token : Option K

structure Consumed (α S K : Type) extends Match α S K where
  passed : Bool

namespace Consumed

variable {α S K : Type} {echoed : α → ℕ}

/-- What is added to a stream position. For a character that was passed over the scanner decides. -/
def counts (echoed : α → ℕ) (m : Consumed α S K) : ℕ := if m.passed then (m.text.map echoed).sum else m.text.length

def counted (echoed : α → ℕ) (ms : List (Consumed α S K)) : ℕ := (ms.map (counts echoed)).sum

@[simp] theorem counted_nil : counted echoed ([] : List (Consumed α S K)) = 0 := rfl

@[simp] theorem counted_cons (m : Consumed α S K) (ms : List (Consumed α S K)) :
    counted echoed (m :: ms) = m.counts echoed + counted echoed ms := by simp [counted]

end Consumed

namespace Pattern

variable {α : Type}

def one (p : α → Bool) : List α → ℕ
  | c :: _ => if p c then 1 else 0
  | [] => 0

def many (p : α → Bool) (text : List α) : ℕ := (text.takeWhile p).length

/-- A character of one class, and then as many as there are of another. -/
def oneMany (p q : α → Bool) : List α → ℕ
  | c :: cs => if p c then 1 + many q cs else 0
  | [] => 0

def literal [BEq α] (w text : List α) : ℕ := if w.isPrefixOf text then w.length else 0

end Pattern

namespace Rule

variable {α S K : Type}

def tried (r : Rule α S K) (s : S) (text : List α) : ℕ := if r.enabled s then r.pattern text else 0

/-- The rule that matches most, and the first of those that match as much. -/
def longest (s : S) (text : List α) : List (Rule α S K) → Option (Rule α S K × ℕ)
  | [] => none
  | r :: rs =>
    match longest s text rs with
    | none => if 0 < r.tried s text then some (r, r.tried s text) else none
    | some (r', n') => if r.tried s text < n' then some (r', n') else some (r, r.tried s text)

/-- A scanner, given which rule it takes. What no rule matches is passed over, one character
at a time. -/
def cutFor (pick : S → List α → Option (Rule α S K × ℕ)) (skip : S → α → S) :
    ℕ → S → List α → List (Consumed α S K)
  | n + 1, s, c :: cs =>
    match pick s (c :: cs) with
    | some (r, k) =>
      let m := (c :: cs).take k
      ⟨⟨s, m, (r.action s m).2⟩, false⟩ :: cutFor pick skip n (r.action s m).1 ((c :: cs).drop k)
    | none => ⟨⟨s, [c], none⟩, true⟩ :: cutFor pick skip n (skip s c) cs
  | _, _, _ => []

def scan (rules : List (Rule α S K)) (skip : S → α → S) (s : S) (text : List α) : List (Consumed α S K) :=
  cutFor (fun s t ↦ longest s t rules) skip text.length s text

variable {rules : List (Rule α S K)} {skip : S → α → S} {s : S} {text : List α} {r : Rule α S K} {k : ℕ}

theorem longest_pos (h : longest s text rules = some (r, k)) : 0 < k := by
  induction rules generalizing r k with
  | nil => cases h
  | cons r₀ rs ih =>
    unfold longest at h
    split at h
    case h_1 =>
      split at h
      case isTrue hn =>
        obtain ⟨-, rfl⟩ := Prod.mk.inj (Option.some.inj h)
        exact hn
      case isFalse => cases h
    case h_2 r' n' hr =>
      have := ih hr
      split at h
      case isTrue hn =>
        obtain ⟨-, rfl⟩ := Prod.mk.inj (Option.some.inj h)
        exact this
      case isFalse hn =>
        obtain ⟨-, rfl⟩ := Prod.mk.inj (Option.some.inj h)
        omega

theorem longest_eq {pre post : List (Rule α S K)} (hr : r.tried s text = k) (hk : 0 < k)
    (hpre : ∀ x ∈ pre, x.tried s text < k) (hpost : ∀ x ∈ post, x.tried s text ≤ k) :
    longest s text (pre ++ r :: post) = some (r, k) := by
  have hbound : ∀ rs : List (Rule α S K), (∀ x ∈ rs, x.tried s text ≤ k) →
      ∀ y, longest s text rs = some y → y.2 ≤ k := by
    intro rs hrs
    induction rs with
    | nil => intro y hy; cases hy
    | cons x rs ih =>
      have hx := hrs x List.mem_cons_self
      have ih := ih (fun z hz ↦ hrs z (List.mem_cons_of_mem _ hz))
      intro y hy
      unfold longest at hy
      split at hy
      case h_1 =>
        split at hy <;> cases hy
        exact hx
      case h_2 z n hz =>
        have := ih (z, n) hz
        split at hy <;> cases hy
        · exact this
        · exact hx
  induction pre with
  | nil =>
    rw [List.nil_append, longest]
    cases hl : longest s text post with
    | none =>
      dsimp only
      rw [hr, if_pos hk]
    | some y =>
      have := hbound post hpost y hl
      obtain ⟨z, n⟩ := y
      dsimp only at this ⊢
      rw [hr, if_neg (by omega)]
  | cons x pre ih =>
    have hx := hpre x List.mem_cons_self
    rw [List.cons_append, longest, ih (fun z hz ↦ hpre z (List.mem_cons_of_mem _ hz))]
    dsimp only
    rw [if_pos hx]

theorem cutFor_eq_scan {n : ℕ} (h : text.length ≤ n) :
    cutFor (fun s t ↦ longest s t rules) skip n s text = scan rules skip s text := by
  unfold scan
  induction n using Nat.strong_induction_on generalizing s text with
  | _ n ih =>
    match n, text with
    | 0, text =>
      rw [List.length_eq_zero_iff.mp (Nat.le_zero.mp h)]
      rfl
    | n + 1, [] => rfl
    | n + 1, c :: cs =>
      rw [List.length_cons] at h ⊢
      simp only [cutFor]
      split
      case h_1 r k hr =>
        have hk := longest_pos hr
        have hlen : ((c :: cs).drop k).length ≤ cs.length := by
          rw [List.length_drop, List.length_cons]
          omega
        rw [ih n (by omega) (by omega)]
        rcases Nat.lt_or_ge cs.length (n + 1) with hlt | hge
        · rw [ih cs.length hlt hlen]
        · omega
      case h_2 =>
        rw [ih n (by omega) (by omega)]

@[simp] theorem scan_nil : scan rules skip s ([] : List α) = [] := rfl

theorem scan_match (h : longest s text rules = some (r, k)) (hne : text ≠ []) :
    scan rules skip s text = ⟨⟨s, text.take k, (r.action s (text.take k)).2⟩, false⟩ ::
      scan rules skip (r.action s (text.take k)).1 (text.drop k) := by
  obtain ⟨c, cs, rfl⟩ := List.exists_cons_of_ne_nil hne
  have hk := longest_pos h
  rw [scan, List.length_cons]
  simp only [cutFor, h]
  rw [cutFor_eq_scan]
  rw [List.length_drop, List.length_cons]
  omega

/-- A text cut in some way, where every match is what one of the rules matches there. -/
inductive Cut (rules : List (Rule α S K)) (skip : S → α → S) : S → List α → List (Consumed α S K) → Prop
  | nil (s : S) : Cut rules skip s [] []
  | rule {s : S} {text : List α} {r : Rule α S K} {k : ℕ} {ms : List (Consumed α S K)} :
      text ≠ [] → r ∈ rules → r.tried s text = k → 0 < k →
      Cut rules skip (r.action s (text.take k)).1 (text.drop k) ms →
      Cut rules skip s text (⟨⟨s, text.take k, (r.action s (text.take k)).2⟩, false⟩ :: ms)
  | skip {s : S} {c : α} {cs : List α} {ms : List (Consumed α S K)} : (∀ r ∈ rules, r.tried s (c :: cs) = 0) →
      Cut rules skip (skip s c) cs ms → Cut rules skip s (c :: cs) (⟨⟨s, [c], none⟩, true⟩ :: ms)

/-- The rule that matches most of those that go first, else of all. -/
def longestOf (first rules : List (Rule α S K)) (s : S) (text : List α) : Option (Rule α S K × ℕ) :=
  match longest s text first with
  | some x => some x
  | none => longest s text rules

theorem tried_pos {r : Rule α S K} (h : 0 < r.tried s text) : r.enabled s = true := by
  unfold tried at h
  split at h
  case isTrue he => exact he
  case isFalse => omega

theorem longest_cases (s : S) (text : List α) (rules : List (Rule α S K)) :
    (longest s text rules = none ∧ ∀ r ∈ rules, r.tried s text = 0) ∨
      ∃ r ∈ rules, longest s text rules = some (r, r.tried s text) ∧ 0 < r.tried s text := by
  induction rules with
  | nil => exact .inl ⟨rfl, by simp⟩
  | cons r rs ih =>
    unfold longest
    rcases ih with ⟨h, hrs⟩ | ⟨r', hr', h, hpos⟩
    · rw [h]
      by_cases hr : 0 < r.tried s text
      · exact .inr ⟨r, List.mem_cons_self, by simp [hr], hr⟩
      · refine .inl ⟨by simp [hr], ?_⟩
        rw [List.forall_mem_cons]
        exact ⟨by omega, hrs⟩
    · rw [h]
      by_cases hr : r.tried s text < r'.tried s text
      · exact .inr ⟨r', List.mem_cons_of_mem _ hr', by simp [hr], hpos⟩
      · exact .inr ⟨r, List.mem_cons_self, by simp [hr], by omega⟩

theorem longestOf_cases {first : List (Rule α S K)} (hfirst : first ⊆ rules) (s : S) (text : List α) :
    (longestOf first rules s text = none ∧ ∀ r ∈ rules, r.tried s text = 0) ∨
      ∃ r ∈ rules, longestOf first rules s text = some (r, r.tried s text) ∧ 0 < r.tried s text := by
  unfold longestOf
  rcases longest_cases s text first with ⟨h, -⟩ | ⟨r, hr, h, hpos⟩
  · rw [h]
    exact longest_cases s text rules
  · rw [h]
    exact .inr ⟨r, hfirst hr, rfl, hpos⟩

theorem cut_longestOf {first : List (Rule α S K)} (hfirst : first ⊆ rules) {n : ℕ} (hn : text.length ≤ n) :
    Cut rules skip s text (cutFor (longestOf first rules) skip n s text) := by
  induction n generalizing s text with
  | zero =>
    rw [List.length_eq_zero_iff.mp (Nat.le_zero.mp hn)]
    exact .nil s
  | succ n ih =>
    cases text with
    | nil => exact .nil s
    | cons c cs =>
      rw [List.length_cons] at hn
      rcases longestOf_cases hfirst s (c :: cs) with ⟨h, hr⟩ | ⟨r, hr, h, hpos⟩
      · simp only [cutFor, h]
        exact .skip hr (ih (by omega))
      · simp only [cutFor, h]
        refine .rule (by simp) hr rfl hpos (ih ?_)
        rw [List.length_drop, List.length_cons]
        omega

variable {ms : List (Consumed α S K)}

theorem Cut.flatten (h : Cut rules skip s text ms) : (ms.map (·.text)).flatten = text := by
  induction h with
  | nil s => rfl
  | @rule s text r k ms _ _ _ _ _ ih => rw [List.map_cons, List.flatten_cons, ih, List.take_append_drop]
  | skip _ _ ih => rw [List.map_cons, List.flatten_cons, ih, List.singleton_append]

theorem Cut.counts_token (h : Cut rules skip s text ms) (echoed : α → ℕ) :
    ∀ m ∈ ms, m.token ≠ none → m.counts echoed = m.text.length := by
  induction h with
  | nil s => simp
  | rule _ _ _ _ _ ih => exact List.forall_mem_cons.mpr ⟨fun _ ↦ rfl, ih⟩
  | skip _ _ ih => exact List.forall_mem_cons.mpr ⟨fun hk ↦ absurd rfl hk, ih⟩

theorem Cut.text_ne_nil (h : Cut rules skip s text ms) : ∀ m ∈ ms, m.text ≠ [] := by
  induction h with
  | nil s => simp
  | @rule s text r k ms hne _ _ hk _ ih =>
    rw [List.forall_mem_cons]
    refine ⟨fun he ↦ ?_, ih⟩
    rcases List.take_eq_nil_iff.mp he with rfl | he
    · exact absurd hk (Nat.lt_irrefl 0)
    · exact hne he
  | skip _ _ ih =>
    rw [List.forall_mem_cons]
    exact ⟨by simp, ih⟩

end Rule

end Nat64Alg.Lib
