import Nat64Alg.FTPScanner

namespace Nat64Alg.FTPParser

open Lib FTPScanner

/-- `ipp: INT | ipp ':' INT`, with the value of each production. -/
inductive Ipp : List (Token × TokenType) → TokenType → Prop
  | int (t : TokenType) : Ipp [(.INT, t)] t
  | more {ts : List (Token × TokenType)} {a : TokenType} (c t : TokenType) :
      Ipp ts a → Ipp (ts ++ [(.char COLON, c), (.INT, t)]) ((a.addText [COLON]).add t)

/-- `ip: ipp ':' ':' ipp | ipp` -/
inductive Ip : List (Token × TokenType) → TokenType → Prop
  | double {ts us : List (Token × TokenType)} {a b : TokenType} (c d : TokenType) : Ipp ts a → Ipp us b →
      Ip (ts ++ (.char COLON, c) :: (.char COLON, d) :: us) ((a.addText [COLON, COLON]).add b)
  | single {ts : List (Token × TokenType)} {a : TokenType} : Ipp ts a → Ip ts a

variable {ts us rest : List (Token × TokenType)} {a b t : TokenType}

theorem Ipp.front (h : Ipp ts a) : ∃ t ts', ts = (.INT, t) :: ts' ∧
    ∀ rest, ippTail t (ts' ++ rest) = ippTail a rest := by
  induction h with
  | int t => exact ⟨t, [], rfl, fun _ ↦ rfl⟩
  | more c t' _ ih =>
    obtain ⟨t, ts', rfl, h⟩ := ih
    refine ⟨t, ts' ++ [(.char COLON, c), (.INT, t')], rfl, fun rest ↦ ?_⟩
    rw [List.append_assoc, h]
    rfl

theorem ippTail_stop (h : ∀ c d us, rest ≠ (.char COLON, c) :: (.INT, d) :: us) : ippTail a rest = (a, rest) := by
  unfold ippTail
  split
  case h_1 c d us => exact absurd rfl (h c d us)
  case h_2 => rfl

theorem ippTail_sound (ts : List (Token × TokenType)) : ∃ pre, ts = pre ++ (ippTail a ts).2 ∧
    ∀ us, Ipp us a → Ipp (us ++ pre) (ippTail a ts).1 := by
  fun_induction ippTail a ts with
  | case1 a c t ts ih =>
    obtain ⟨pre, hts, hder⟩ := ih
    refine ⟨(.char COLON, c) :: (.INT, t) :: pre, by rw [List.cons_append, List.cons_append, ← hts]; rfl,
      fun us hus ↦ ?_⟩
    have := hder _ (hus.more c t)
    rwa [List.append_assoc] at this
  | case2 a ts => exact ⟨[], rfl, fun us hus ↦ by rwa [List.append_nil]⟩

theorem ip_sound (h : ip ts = some (a, rest)) : ∃ pre, ts = pre ++ rest ∧ Ip pre a := by
  unfold ip at h
  split at h
  case h_2 => cases h
  case h_1 t ts' =>
    obtain ⟨pre, hts, hder⟩ := ippTail_sound (a := t) ts'
    have hipp := hder _ (.int t)
    split at h
    case h_1 a' c d t' ts'' hr =>
      obtain ⟨pre', hts', hder'⟩ := ippTail_sound (a := t') ts''
      have hipp' := hder' _ (.int t')
      obtain ⟨rfl, rfl⟩ := Prod.mk.inj (Option.some.inj h)
      rw [hr] at hts hipp
      refine ⟨([(.INT, t)] ++ pre) ++ (.char COLON, c) :: (.char COLON, d) :: ([(.INT, t')] ++ pre'), ?_,
        .double c d hipp hipp'⟩
      simp only [List.append_assoc, List.cons_append, List.nil_append]
      rw [hts]
      conv_lhs => rw [hts']
      rfl
    case h_2 =>
      obtain hr := Option.some.inj h
      rw [hr] at hts hipp
      exact ⟨[(.INT, t)] ++ pre, by rw [hts]; rfl, .single hipp⟩

theorem ip_complete (h : Ip ts a) (hrest : ∀ c us, rest ≠ (.char COLON, c) :: us) :
    ip (ts ++ rest) = some (a, rest) := by
  cases h with
  | @double ts us a b c d hts hus =>
    obtain ⟨t, ts', rfl, h⟩ := hts.front
    obtain ⟨t', us', rfl, h'⟩ := hus.front
    have h₁ : ippTail t (ts' ++ (.char COLON, c) :: (.char COLON, d) :: (.INT, t') :: (us' ++ rest)) =
        (a, (.char COLON, c) :: (.char COLON, d) :: (.INT, t') :: (us' ++ rest)) := by
      rw [h, ippTail_stop (by simp)]
    have h₂ : ippTail t' (us' ++ rest) = (b, rest) := by
      rw [h', ippTail_stop (fun c d us he ↦ hrest c _ he)]
    simp only [List.append_assoc, List.cons_append, ip]
    rw [h₁]
    simp only [COLON, h₂]
  | single hts =>
    obtain ⟨t, ts', rfl, h⟩ := hts.front
    have h₁ : ippTail t (ts' ++ rest) = (a, rest) := by
      rw [h, ippTail_stop (fun c d us he ↦ hrest c _ he)]
    simp only [List.cons_append, ip]
    rw [h₁]
    split
    case h_1 he => exact absurd (Prod.mk.inj he).2 (hrest _ _)
    case h_2 => rfl

theorem Ipp.kinds (h : Ipp ts a) : ∀ x ∈ ts, x.1 = .INT ∨ x.1 = .char COLON := by
  induction h with
  | int t => simp
  | more c t _ ih =>
    intro x hx
    rcases List.mem_append.mp hx with hx | hx
    · exact ih x hx
    · simp only [List.mem_cons, List.not_mem_nil, or_false] at hx
      rcases hx with rfl | rfl <;> simp

theorem Ipp.ends (h : Ipp ts a) : (∃ t, ts.head? = some (.INT, t)) ∧ ∃ t, ts.getLast? = some (.INT, t) := by
  induction h with
  | int t => exact ⟨⟨t, rfl⟩, ⟨t, rfl⟩⟩
  | more c t _ ih =>
    obtain ⟨⟨t', ht'⟩, -⟩ := ih
    exact ⟨⟨t', by rw [List.head?_append, ht']; rfl⟩, ⟨t, by simp⟩⟩

theorem Ip.kinds (h : Ip ts a) : ∀ x ∈ ts, x.1 = .INT ∨ x.1 = .char COLON := by
  cases h with
  | double c d hts hus =>
    intro x hx
    rcases List.mem_append.mp hx with hx | hx
    · exact hts.kinds x hx
    · simp only [List.mem_cons] at hx
      rcases hx with rfl | rfl | hx
      · exact .inr rfl
      · exact .inr rfl
      · exact hus.kinds x hx
  | single hts => exact hts.kinds

theorem Ip.ends (h : Ip ts a) : (∃ t, ts.head? = some (.INT, t)) ∧ ∃ t, ts.getLast? = some (.INT, t) := by
  cases h with
  | double c d hts hus =>
    obtain ⟨⟨t, ht⟩, -⟩ := hts.ends
    obtain ⟨-, ⟨t', ht'⟩⟩ := hus.ends
    refine ⟨⟨t, by rw [List.head?_append, ht]; rfl⟩, ⟨t', ?_⟩⟩
    rw [List.getLast?_append, List.getLast?_cons_cons, List.getLast?_cons, ht']
    simp
  | single hts => exact hts.ends

structure Covers (ts : List (Token × TokenType)) (a : TokenType) : Prop where
  s : a.s = (ts.map (fun x ↦ x.2.s)).flatten
  pos : ∀ x ∈ ts.head?, a.pos = x.2.pos
  pos_end : ∀ x ∈ ts.getLast?, a.pos_end = x.2.pos_end

theorem Ipp.covers (h : Ipp ts a) (hc : ∀ x ∈ ts, x.1 = .char COLON → x.2.s = [COLON]) : Covers ts a := by
  induction h with
  | int t => exact ⟨by simp, by simp, by simp⟩
  | @more ts a c t h ih =>
    obtain ⟨hs, hpos, -⟩ := ih fun x hx ↦ hc x (List.mem_append_left _ hx)
    obtain ⟨⟨y, hy⟩, -⟩ := h.ends
    refine ⟨?_, ?_, ?_⟩
    · rw [List.map_append, List.flatten_append, ← hs]
      have hcolon : c.s = [COLON] := hc (.char COLON, c) (by simp) rfl
      simp [TokenType.addText, TokenType.add, hcolon]
    · rw [List.head?_append, hy, Option.some_or]
      rwa [hy] at hpos
    · simp [TokenType.add]

theorem Ip.covers (h : Ip ts a) (hc : ∀ x ∈ ts, x.1 = .char COLON → x.2.s = [COLON]) : Covers ts a := by
  cases h with
  | single h => exact h.covers hc
  | @double ts us a b c d h h' =>
    obtain ⟨hs, hpos, -⟩ := h.covers fun x hx ↦ hc x (List.mem_append_left _ hx)
    obtain ⟨hs', -, hend⟩ := h'.covers fun x hx ↦
      hc x (List.mem_append_right _ (List.mem_cons_of_mem _ (List.mem_cons_of_mem _ hx)))
    obtain ⟨⟨y, hy⟩, -⟩ := h.ends
    obtain ⟨-, ⟨z, hz⟩⟩ := h'.ends
    refine ⟨?_, ?_, ?_⟩
    · have h₁ : c.s = [COLON] := hc (.char COLON, c) (by simp) rfl
      have h₂ : d.s = [COLON] := hc (.char COLON, d) (by simp) rfl
      simp only [TokenType.addText, TokenType.add, List.map_append, List.flatten_append, List.map_cons,
        List.flatten_cons, hs, hs', h₁, h₂, List.append_assoc, List.cons_append, List.nil_append]
    · rw [List.head?_append, hy, Option.some_or]
      rwa [hy] at hpos
    · rw [List.getLast?_append, List.getLast?_cons_cons, List.getLast?_cons, hz]
      rw [hz] at hend
      exact hend

/-- The rest of an `EPRT` line with no line feed before its end is taken by the
`CMD_EPRT` production exactly when an `ip` stands before the port. -/
theorem message_eprt {σ : Type} {junk : Junk} {c t₂ t₄ n : TokenType} {p : Parser σ}
    (hlf : ∀ x ∈ ts, x.1 ≠ .char LF) :
    (∀ t₃, Ip ts t₃ → message junk ((.CMD_EPRT, c) :: (.INT, t₂) :: (ts ++ [(.INT, t₄), (.char LF, n)])) p =
      eprt junk t₂ t₃ t₄ p) ∧
    ((¬∃ t₃, Ip ts t₃) → message junk ((.CMD_EPRT, c) :: (.INT, t₂) :: (ts ++ [(.INT, t₄), (.char LF, n)])) p =
      .ret p) := by
  refine ⟨fun t₃ h ↦ ?_, fun h ↦ ?_⟩
  · simp only [message]
    rw [ip_complete h (by simp)]
    rfl
  · simp only [message]
    split
    case h_1 t₃ t₄' n' r hip =>
      obtain ⟨pre, hpre, hder⟩ := ip_sound hip
      exfalso
      have hlen : pre.length = ts.length := by
        have hat : (ts ++ [(.INT, t₄), (.char LF, n)])[pre.length + 1]? = some (.char LF, n') := by
          rw [hpre, List.getElem?_append_right (by omega), Nat.add_sub_cancel_left]
          rfl
        rcases Nat.lt_or_ge (pre.length + 1) ts.length with hlt | hge
        · rw [List.getElem?_append_left hlt] at hat
          exact absurd rfl (hlf _ (List.mem_of_getElem? hat))
        · rw [List.getElem?_append_right hge] at hat
          match hk : pre.length + 1 - ts.length with
          | 0 =>
            rw [hk] at hat
            cases hat
          | 1 => omega
          | k + 2 =>
            rw [hk] at hat
            cases hat
      exact h ⟨t₃, (List.append_inj hpre hlen.symm).1 ▸ hder⟩
    case h_2 => rfl

end Nat64Alg.FTPParser
