import Nat64Alg.AddrPrint
import Nat64Alg.FTPGrammar
import Nat64Alg.Exhaustion

namespace Nat64Alg

open Lib

namespace FTPScanner

variable {b : Bool} {c : UInt8} {cs t rest : Text} {k : Int} {echoed : UInt8 → ℕ}

theorem tried_same {k : StartCondition} {pattern : Text → ℕ} {action : Text → StartCondition × Option Token} :
    (rule k false pattern action).tried (k, b) t = pattern t := by
  simp [Rule.tried, rule]

theorem tried_others : ∀ x ∈ rules.take 12, x.tried (.eprt, b) t = 0 := by
  simp [rules, lineRules, Rule.tried, rule]

theorem longest_eprt {pre post : List (Rule UInt8 State Token)} {r : Rule UInt8 State Token} {n : ℕ}
    (hr : rules.drop 12 = pre ++ r :: post) (hn : 0 < n) (hmatch : r.tried (.eprt, b) t = n)
    (hpre : ∀ x ∈ pre, x.tried (.eprt, b) t < n) (hpost : ∀ x ∈ post, x.tried (.eprt, b) t ≤ n) :
    Rule.longest (StartCondition.eprt, b) t rules = some (r, n) := by
  rw [← List.take_append_drop 12 rules, hr, ← List.append_assoc]
  refine Rule.longest_eq hmatch hn (fun x hx ↦ ?_) hpost
  rcases List.mem_append.mp hx with hx | hx
  · rw [tried_others x hx]
    exact hn
  · exact hpre x hx

theorem lexemes_sep (h : c = SP ∨ c = BAR) :
    lexemes (.eprt, b) (c :: cs) = ⟨⟨(.eprt, b), [c], none⟩, false⟩ :: lexemes (.eprt, false) cs := by
  have hl := longest_eprt (b := b) (t := c :: cs) rfl Nat.one_pos
    (by rw [tried_same]; rcases h with rfl | rfl <;> rfl) (by simp) (by
      simp only [List.forall_mem_cons, tried_same, List.not_mem_nil, false_imp_iff, implies_true, and_true]
      rcases h with rfl | rfl <;> simp [Pattern.one, Pattern.many, Pattern.literal, SP, BAR, CR, LF, isDigit])
  rw [lexemes, Rule.scan_match hl (by simp)]
  rcases h with rfl | rfl <;> rfl

theorem lexemes_int {ds : Text} (hds : ds ≠ []) (hd : ∀ x ∈ ds, isDigit x = true)
    (hrest : ∀ x ∈ rest.head?, isDigit x = false) :
    lexemes (.eprt, b) (ds ++ rest) = ⟨⟨(.eprt, b), ds, some .INT⟩, false⟩ :: lexemes (.eprt, false) rest := by
  obtain ⟨d, ds', rfl⟩ := List.exists_cons_of_ne_nil hds
  have hmany : Pattern.many isDigit (d :: ds' ++ rest) = (d :: ds').length := by
    have h₀ : rest.takeWhile isDigit = [] := by
      cases rest with
      | nil => rfl
      | cons x xs => exact List.takeWhile_cons_of_neg (by simp [hrest x rfl])
    rw [Pattern.many, List.takeWhile_append_of_pos hd, h₀, List.append_nil]
  have hsep : (d == SP || d == BAR) = false ∧ d ≠ CR ∧ d ≠ LF := by
    have := hd d List.mem_cons_self
    refine ⟨?_, ?_, ?_⟩
    · simp only [Bool.or_eq_false_iff, beq_eq_false_iff_ne]
      constructor <;> rintro rfl <;> exact absurd this (by decide)
    · rintro rfl
      exact absurd this (by decide)
    · rintro rfl
      exact absurd this (by decide)
  have hbefore : ∀ r ∈ (rules.drop 12).take 1, r.tried (.eprt, b) (d :: ds' ++ rest) < (d :: ds').length := by
    simp [rules, lineRules, tried_same, Pattern.one, hsep.1]
  have hbehind : ∀ r ∈ (rules.drop 12).drop 2, r.tried (.eprt, b) (d :: ds' ++ rest) ≤ (d :: ds').length := by
    simp [rules, lineRules, tried_same, Pattern.one, Pattern.literal, hsep.2.1, hsep.2.2, Ne.symm hsep.2.1,
      Ne.symm hsep.2.2]
    split <;> omega
  have hl := @longest_eprt b (d :: ds' ++ rest) ((rules.drop 12).take 1) ((rules.drop 12).drop 2) _ _ rfl
    (by simp) (tried_same.trans hmany) hbefore hbehind
  have hlast : ((d :: ds').getLast? == some LF) = false := by
    rw [List.getLast?_eq_some_getLast (by simp), beq_eq_false_iff_ne]
    intro he
    have := hd _ (List.getLast_mem (l := d :: ds') (by simp))
    rw [Option.some.inj he] at this
    exact absurd this (by decide)
  rw [lexemes, Rule.scan_match hl (by simp), List.take_left, List.drop_left]
  simp only [rule, hlast]
  rfl

theorem lexemes_char (hd : isDigit c = false) (h : c ≠ SP ∧ c ≠ BAR ∧ c ≠ CR ∧ c ≠ LF) :
    lexemes (.eprt, b) (c :: cs) = ⟨⟨(.eprt, b), [c], some (.char c)⟩, false⟩ :: lexemes (.eprt, false) cs := by
  obtain ⟨h₁, h₂, h₃, h₄⟩ := h
  have hbefore : ∀ r ∈ (rules.drop 12).take 2, r.tried (.eprt, b) (c :: cs) < 1 := by
    simp [rules, lineRules, tried_same, Pattern.one, Pattern.many, h₁, h₂, hd]
  have hbehind : ∀ r ∈ (rules.drop 12).drop 3, r.tried (.eprt, b) (c :: cs) ≤ 1 := by
    simp [rules, lineRules, tried_same, Pattern.literal, Ne.symm h₃, Ne.symm h₄]
  have hmatch : Pattern.one (fun c ↦ !(c == SP || c == BAR || c == CR || c == LF)) (c :: cs) = 1 := by
    simp [Pattern.one, h₁, h₂, h₃, h₄]
  have hl := @longest_eprt b (c :: cs) ((rules.drop 12).take 2) ((rules.drop 12).drop 3) _ 1 rfl one_pos
    (tried_same.trans hmatch) hbefore hbehind
  have hlast : (c == LF) = false := by simpa using h₄
  rw [lexemes, Rule.scan_match hl (by simp)]
  simp only [rule, List.take_succ_cons, List.take_zero, List.getLast?_singleton, Option.some_beq_some, hlast,
    List.drop_succ_cons, List.drop_zero, List.getD_cons_zero]
  rfl

theorem lexemes_crlf : lexemes (.eprt, b) (CR :: LF :: cs) =
    ⟨⟨(.eprt, b), [CR, LF], some (.char LF)⟩, false⟩ :: lexemes (.INITIAL, true) cs := by
  have hbefore : ∀ r ∈ (rules.drop 12).take 3, r.tried (.eprt, b) (CR :: LF :: cs) < 2 := by
    simp [rules, lineRules, tried_same, Pattern.one, Pattern.many, CR, LF, SP, BAR, isDigit]
  have hbehind : ∀ r ∈ (rules.drop 12).drop 4, r.tried (.eprt, b) (CR :: LF :: cs) ≤ 2 := by
    simp [rules, lineRules, tried_same, Pattern.literal, CR, LF]
  have hl := @longest_eprt b (CR :: LF :: cs) ((rules.drop 12).take 3) ((rules.drop 12).drop 4) _ 2 rfl two_pos
    (tried_same.trans (by simp [Pattern.literal])) hbefore hbehind
  rw [lexemes, Rule.scan_match hl (by simp)]
  rfl

@[elab_as_elim] theorem eprt_induction {motive : Text → Prop} (nil : motive [])
    (sep : ∀ c cs, c = SP ∨ c = BAR → motive cs → motive (c :: cs))
    (int : ∀ ds rest, ds ≠ [] → (∀ x ∈ ds, isDigit x = true) → (∀ x ∈ rest.head?, isDigit x = false) →
      motive rest → motive (ds ++ rest))
    (char : ∀ c cs, isDigit c = false → c ≠ SP ∧ c ≠ BAR ∧ c ≠ CR ∧ c ≠ LF → motive cs → motive (c :: cs))
    (t : Text) (ht : ∀ x ∈ t, x ≠ CR ∧ x ≠ LF) : motive t := by
  induction hn : t.length using Nat.strong_induction_on generalizing t with
  | _ n ih =>
    cases t with
    | nil => exact nil
    | cons c cs =>
      have htail : ∀ x ∈ cs, x ≠ CR ∧ x ≠ LF := fun x hx ↦ ht x (List.mem_cons_of_mem _ hx)
      rw [List.length_cons] at hn
      rcases em (c = SP ∨ c = BAR) with hsep | hsep
      · exact sep c cs hsep (ih cs.length (by omega) cs htail rfl)
      cases hd : isDigit c with
      | false =>
        obtain ⟨h₃, h₄⟩ := ht c List.mem_cons_self
        rw [not_or] at hsep
        exact char c cs hd ⟨hsep.1, hsep.2, h₃, h₄⟩ (ih cs.length (by omega) cs htail rfl)
      | true =>
        rw [← List.takeWhile_append_dropWhile (p := isDigit) (l := c :: cs)]
        refine int _ _ (by rw [List.takeWhile_cons_of_pos hd]; simp) (fun x hx ↦ List.mem_takeWhile_imp hx)
          (fun x hx ↦ ?_) (ih _ ?_ _ (fun x hx ↦ ht x ((List.dropWhile_suffix _).subset hx)) rfl)
        · have hne : (c :: cs).dropWhile isDigit ≠ [] := by
            rintro he
            rw [he] at hx
            cases hx
          have := List.head_dropWhile_not isDigit hne
          rw [List.head?_eq_some_head hne] at hx
          rw [← Option.some.inj hx]
          exact this
        · rw [List.dropWhile_cons_of_pos hd]
          have := (List.dropWhile_suffix (l := cs) isDigit).length_le
          omega

theorem lexemes_split (hc : isDigit c = false) (ht : ∀ x ∈ t, x ≠ CR ∧ x ≠ LF) :
    lexemes (.eprt, false) (t ++ c :: rest) = lexemes (.eprt, false) t ++ lexemes (.eprt, false) (c :: rest) := by
  refine eprt_induction ?_ ?_ ?_ ?_ t ht
  · rfl
  · intro d ds hd ih
    rw [List.cons_append, lexemes_sep hd, lexemes_sep hd, ih, List.cons_append]
  · intro ds r hne hds hr ih
    have hr' : ∀ x ∈ (r ++ c :: rest).head?, isDigit x = false := by
      cases r with
      | nil =>
        intro x hx
        rw [← Option.some.inj hx]
        exact hc
      | cons y ys => exact hr
    rw [List.append_assoc, lexemes_int hne hds hr', lexemes_int hne hds hr, ih, List.cons_append]
  · intro d ds hd h ih
    rw [List.cons_append, lexemes_char hd h, lexemes_char hd h, ih, List.cons_append]

theorem lexemes_kinds (ht : ∀ x ∈ t, x ≠ CR ∧ x ≠ LF) : ∀ l ∈ lexemes (.eprt, false) t,
    l.token = none ∨ l.token = some .INT ∨ ∃ c, l.token = some (.char c) ∧ c ≠ LF := by
  refine eprt_induction ?_ ?_ ?_ ?_ t ht
  · simp [lexemes]
  · intro d ds hd ih
    rw [lexemes_sep hd, List.forall_mem_cons]
    exact ⟨.inl rfl, ih⟩
  · intro ds r hne hds hr ih
    rw [lexemes_int hne hds hr, List.forall_mem_cons]
    exact ⟨.inr (.inl rfl), ih⟩
  · intro d ds hd h ih
    rw [lexemes_char hd h, List.forall_mem_cons]
    exact ⟨.inr (.inr ⟨d, rfl, h.2.2.2⟩), ih⟩

/-- Every character of an address has its rule, so the positions behind it do not depend on the scanner. -/
theorem spans_append (ht : ∀ x ∈ t, x ≠ CR ∧ x ≠ LF) (m : List (Consumed UInt8 State Token)) : ∀ k : Int,
    spans echoed k (lexemes (.eprt, false) t ++ m) =
      spans echoed k (lexemes (.eprt, false) t) ++ spans echoed (k + t.length) m := by
  refine eprt_induction ?_ ?_ ?_ ?_ t ht
  · intro k
    rw [List.length_nil, Int.natCast_zero, Int.add_zero]
    rfl
  · intro c cs hc ih k
    have hk : k + ([c] : Text).length + cs.length = k + (c :: cs).length := by
      simp only [List.length_cons, List.length_nil]
      omega
    rw [lexemes_sep hc, List.cons_append, spans_ignored, spans_ignored, ih, hk]
  · intro ds rest hne hds hrest ih k
    rw [lexemes_int hne hds hrest, List.cons_append, spans_token, spans_token, ih, List.cons_append, List.length_append,
      Int.natCast_add, Int.add_assoc]
  · intro c cs hd hc ih k
    have hk : k + ([c] : Text).length + cs.length = k + (c :: cs).length := by
      simp only [List.length_cons, List.length_nil]
      omega
    rw [lexemes_char hd hc, List.cons_append, spans_token, spans_token, ih, List.cons_append, hk]

/-- The tokens of the address in an `EPRT` line. -/
def addrTokens (echoed : UInt8 → ℕ) (t : Text) : List (Token × TokenType) := spans echoed 8 (lexemes (.eprt, false) t)

end FTPScanner

/-- `EPRT |2|`, an address, a port and the end of the line. -/
def eprtCommand (addr port : Text) : Text := text "EPRT |2|" ++ (addr ++ BAR :: (port ++ [BAR, CR, LF]))

namespace FTPScanner

theorem tokens_eprtCommand {addr port : Text} (ha : ∀ x ∈ addr, x ≠ CR ∧ x ≠ LF) (hne : port ≠ [])
    (hport : ∀ x ∈ port, isDigit x = true) : tokens echoed (eprtCommand addr port) =
      (.CMD_EPRT, ⟨text "EPRT", 0, 4⟩) :: (.INT, ⟨text "2", 6, 7⟩) :: (addrTokens echoed addr ++
        [(.INT, ⟨port, 9 + addr.length, 9 + addr.length + port.length⟩),
          (.char LF, ⟨[CR, LF], 10 + addr.length + port.length, 12 + addr.length + port.length⟩)]) := by
  have htext : text "EPRT |2|" = [69, 80, 82, 84, SP, BAR, 50, BAR] := by decide
  have hl : Rule.longest (StartCondition.INITIAL, true) (eprtCommand addr port) rules =
      some (rule .INITIAL true (Pattern.many isAlpha) (fun m ↦
        if m = text "EPRT" then (.eprt, some .CMD_EPRT) else (.request, some .CMD)), 4) := by
    unfold eprtCommand
    rw [htext]
    refine @Rule.longest_eq _ _ _ _ _ _ _ (rules.take 1) (rules.drop 2) ?_ (by omega) ?_ ?_
    · rfl
    · simp [rules, Rule.tried, rule, Pattern.many, isDigit]
    · simp [rules, lineRules, Rule.tried, rule, Pattern.oneMany, Pattern.literal, isDigit, isAlpha, LF]
  have hword : (eprtCommand addr port).take 4 = text "EPRT" := by
    unfold eprtCommand
    rw [htext]
    rfl
  have hrest : (eprtCommand addr port).drop 4 =
      SP :: BAR :: ([50] ++ BAR :: (addr ++ BAR :: (port ++ [BAR, CR, LF]))) := by
    unfold eprtCommand
    rw [htext]
    rfl
  have hfirst : lexemes (.INITIAL, true) (eprtCommand addr port) =
      ⟨⟨(.INITIAL, true), text "EPRT", some .CMD_EPRT⟩, false⟩ :: lexemes (.eprt,
      false) ((eprtCommand addr port).drop 4) := by
    rw [lexemes, Rule.scan_match hl (by simp [eprtCommand]), hword]
    rfl
  unfold tokens
  rw [hfirst, hrest, lexemes_sep (.inl rfl), lexemes_sep (.inr rfl),
    lexemes_int (by simp) (by simp [isDigit]) (by simp [isDigit, BAR]), lexemes_sep (.inr rfl),
    lexemes_split (by decide) ha, lexemes_sep (.inr rfl), lexemes_int hne hport (by simp [isDigit, BAR]),
    lexemes_sep (.inr rfl), lexemes_crlf]
  simp only [spans_token, spans_ignored]
  rw [spans_append ha]
  have hend : lexemes (.INITIAL, true) [] = [] := rfl
  have h₄ : (text "EPRT").length = 4 := by decide
  have h₅ : text "2" = [50] := by decide
  simp only [spans_token, spans_ignored, spans_done, hend, addrTokens, List.length_cons, List.length_nil, h₄, h₅]
  refine congrArg₂ List.cons rfl (congrArg₂ List.cons rfl (congrArg₂ List.append rfl ?_))
  simp only [List.cons.injEq, Prod.mk.injEq, TokenType.mk.injEq, true_and, and_true]
  omega

end FTPScanner

end Nat64Alg
