import Nat64Alg.FTPAddress
import Nat64Alg.Splicing
import Nat64Alg.Sessions

namespace Nat64Alg

open Lib StateManager FTPScanner

variable {σ : Type} {sm : StateManager σ} {echoed : UInt8 → ℕ} {junk : Junk} {addr port : Text} {t : Text}

/-- What a new parser makes of the first packet of a connection. -/
def firstLine (echoed : UInt8 → ℕ) (junk : Junk) (sm : StateManager σ) (line : Text) :
    Except Fault ((List Operation × Parser Unit) × (StateManager σ × FlowPtr) × Asked) :=
  ((Parser.new .stateless ()).process (FTPParser.only echoed junk) line).run answer (sm, none)

/-- The line is taken, three operations rewrite it to the endpoint mapped for `k`. -/
def Rewritten (echoed : UInt8 → ℕ) (junk : Junk) (sm : StateManager σ) (addr port : Text) (k : IP6Port) : Prop :=
  ∃ ops p s f, firstLine echoed junk sm (eprtCommand addr port) = .ok ((ops, p), s,
      [(.doMapping k, some (s.1.flowAt f).ip4p), (.setIgnore, none)]) ∧
    (sm.doMappingCur k).1 = some f ∧ (s.1.flowAt f).ip4p = ((sm.doMappingCur k).2.flowAt f).ip4p ∧ ops.length = 3 ∧
    Patch.Fit (eprtCommand addr port).length 0 ((sortOps ops).map (Operation.patch 0)) ∧
    copied (Mem.ofList (eprtCommand addr port)) (sortOps ops) 0
        ((eprtCommand addr port).length + ((sortOps ops).map Operation.delta).sum) =
      text "EPRT |1|" ++ ((s.1.flowAt f).ip4p.getIP.getString ++ BAR ::
        ((s.1.flowAt f).ip4p.getPortString ++ [BAR, CR, LF]))

/-- The line is passed over: no operation, nothing asked, nothing changed. -/
def Untouched (echoed : UInt8 → ℕ) (junk : Junk) (sm : StateManager σ) (addr port : Text) : Prop :=
  ∃ p, firstLine echoed junk sm (eprtCommand addr port) = .ok (([], p), (sm, none), [])

theorem decimal_port (port : UInt16) : decimal port.toNat ≠ [] ∧ ∀ x ∈ decimal port.toNat, isDigit x = true :=
  ⟨numeral_ne_nil, fun _ hx ↦ isDigit_decimal hx⟩

theorem mem_spans {S K : Type} {l : List (Consumed UInt8 S K)} {x : K × TokenType} {k : Int}
    (h : x ∈ spans echoed k l) : ∃ m ∈ l, m.token = some x.1 := by
  induction l generalizing k with
  | nil => cases h
  | cons m ms ih =>
    have hrest : ∀ {k : Int}, x ∈ spans echoed k ms → ∃ m' ∈ m :: ms, m'.token = some x.1 := by
      intro k h
      obtain ⟨m', hm, hk⟩ := ih h
      exact ⟨m', List.mem_cons_of_mem _ hm, hk⟩
    rw [spans] at h
    split at h
    case h_1 k' hk =>
      rcases List.mem_cons.mp h with rfl | h
      · exact ⟨m, List.mem_cons_self, hk⟩
      · exact hrest h
    case h_2 => exact hrest h

theorem addrTokens_lines (ht : Plain addr) : ∀ x ∈ addrTokens echoed addr, x.1 ≠ .char LF := by
  intro x hx he
  obtain ⟨m, hm, hk⟩ := mem_spans hx
  rcases lexemes_kinds ht.lines m hm with h | h | ⟨c, h, hc⟩
  · rw [hk] at h
    cases h
  · rw [hk, he] at h
    cases h
  · rw [hk, he] at h
    cases h
    exact hc rfl

def eprtPieces (addr port : Text) (e : IP4Port) : List Piece :=
  [⟨text "EPRT |", text "2", text "1"⟩, ⟨[BAR], addr, e.getIP.getString⟩, ⟨[BAR], port, e.getPortString⟩]

def eprtOps (addr port : Text) (e : IP4Port) : List Operation :=
  [⟨6, 7, .REPLACE, text "1", false⟩, ⟨8, 8 + addr.length, .REPLACE, e.getIP.getString, false⟩,
    ⟨9 + addr.length, 9 + addr.length + port.length, .REPLACE, e.getPortString, false⟩]

theorem eprtOps_patches (addr port : Text) (e : IP4Port) :
    (sortOps (eprtOps addr port e)).map (Operation.patch 0) = Piece.patches 0 (eprtPieces addr port e) := by
  have hsorted : sortOps (eprtOps addr port e) = eprtOps addr port e := by
    refine List.Pairwise.insertionSort_eq ?_
    simp only [eprtOps, List.pairwise_cons, List.mem_cons, List.not_mem_nil, or_false, forall_eq_or_imp, forall_eq,
      false_imp_iff, implies_true, List.Pairwise.nil, and_true]
    omega
  have h₁ : (text "EPRT |").length = 6 := by decide
  have h₂ : (text "2").length = 1 := by decide
  rw [hsorted]
  simp only [eprtOps, eprtPieces, Piece.patches, List.map_cons, List.map_nil, Operation.patch, h₁, h₂,
    List.length_singleton, List.cons.injEq, Patch.mk.injEq, and_true]
  omega

theorem eprtPieces_source (addr port : Text) (e : IP4Port) :
    Piece.source [BAR, CR, LF] (eprtPieces addr port e) = eprtCommand addr port := by
  have h : text "EPRT |2|" = text "EPRT |" ++ (text "2" ++ [BAR]) := by decide
  simp only [eprtPieces, Piece.source, eprtCommand, h, List.append_assoc, List.cons_append, List.nil_append]

theorem eprtPieces_result (addr port : Text) (e : IP4Port) :
    Piece.result [BAR, CR, LF] (eprtPieces addr port e) =
      text "EPRT |1|" ++ (e.getIP.getString ++ BAR :: (e.getPortString ++ [BAR, CR, LF])) := by
  have h : text "EPRT |1|" = text "EPRT |" ++ (text "1" ++ [BAR]) := by decide
  simp only [eprtPieces, Piece.result, h, List.append_assoc, List.cons_append, List.nil_append]

theorem message_line (ht : Plain addr) (hne : port ≠ []) (hport : ∀ x ∈ port, isDigit x = true) (p : Parser Unit) :
    (∀ a, FTPParser.Ip (addrTokens echoed addr) a → FTPParser.message junk (tokens echoed (eprtCommand addr port)) p =
      FTPParser.eprt junk ⟨text "2", 6, 7⟩ a ⟨port, 9 + addr.length, 9 + addr.length + port.length⟩ p) ∧
    ((¬∃ a, FTPParser.Ip (addrTokens echoed addr) a) →
    FTPParser.message junk (tokens echoed (eprtCommand addr port)) p =
      .ret p) := by
  rw [tokens_eprtCommand ht.lines hne hport]
  exact FTPParser.message_eprt (addrTokens_lines ht)

theorem firstLine_run {line : Text} {p : Parser Unit} {s : StateManager σ × FlowPtr} {log : Asked}
    (h : (FTPParser.message junk (tokens echoed line) (.new .stateless ())).run answer (sm, none) = .ok (p, s, log)) :
    ∃ q, firstLine echoed junk sm line = .ok ((p.ops, q), s, log) :=
  ⟨_, Prog.run_map _ (Prog.run_map _ h)⟩

theorem untouched_of_unaddressed (ht : Plain addr) (hne : port ≠ []) (hport : ∀ x ∈ port, isDigit x = true)
    (h : ¬Addressed addr) : Untouched echoed junk sm addr port := by
  refine firstLine_run (p := .new .stateless ()) ?_
  rw [(message_line ht hne hport _).2 (fun h' ↦ h ((exists_ip_iff ht).mp h'))]
  rfl

theorem eprt_run (hpool : sm.pool_ ≠ []) (t₂ t₃ t₄ : TokenType) (p : Parser Unit) : ∃ s f,
    (sm.doMappingCur (junk.ip6Port t₃ t₄)).1 = some f ∧
    (s.1.flowAt f).ip4p = ((sm.doMappingCur (junk.ip6Port t₃ t₄)).2.flowAt f).ip4p ∧
    (FTPParser.eprt junk t₂ t₃ t₄ p).run answer (sm, none) =
      .ok (((p.addToken t₂ (text "1") false).addToken t₃ (s.1.flowAt f).ip4p.getIP.getString false).addToken t₄
        (s.1.flowAt f).ip4p.getPortString false, s,
        [(.doMapping (junk.ip6Port t₃ t₄), some (s.1.flowAt f).ip4p), (.setIgnore, none)]) := by
  have hsome : (sm.doMappingCur (junk.ip6Port t₃ t₄)).1.isSome := doMapping_isSome.mpr (.inr hpool)
  obtain ⟨f, hf⟩ := Option.isSome_iff_exists.mp hsome
  obtain ⟨sm', hsm⟩ : ∃ sm', sm.doMappingCur (junk.ip6Port t₃ t₄) = (some f, sm') := ⟨_, Prod.ext hf rfl⟩
  have hip : ((sm'.setFlow f (sm'.flowAt f).setIgnore).flowAt f).ip4p = (sm'.flowAt f).ip4p := by
    rcases lt_or_ge f sm'.heap.length with h | h
    · rw [flowAt_setFlow h]
      rfl
    · rw [StateManager.setFlow, List.set_eq_of_length_le h]
  refine ⟨(sm'.setFlow f (sm'.flowAt f).setIgnore, some f), f, hf, ?_, ?_⟩
  · rw [hsm]
    exact hip
  · simp only [FTPParser.eprt, mapThen, Prog.run, answer, hsm, Option.map_some, hip]

theorem firstLine_addressed (hpool : sm.pool_ ≠ []) (ht : Plain addr) (hne : port ≠ [])
    (hport : ∀ x ∈ port, isDigit x = true) {a : TokenType} (h : FTPParser.Ip (addrTokens echoed addr) a) :
    ∃ ops p s f k, firstLine echoed junk sm (eprtCommand addr port) = .ok ((ops, p), s,
        [(.doMapping k, some (s.1.flowAt f).ip4p), (.setIgnore, none)]) ∧
      k = junk.ip6Port a ⟨port, 9 + addr.length, 9 + addr.length + port.length⟩ ∧
      (sm.doMappingCur k).1 = some f ∧ (s.1.flowAt f).ip4p = ((sm.doMappingCur k).2.flowAt f).ip4p ∧
      ops = [⟨6, 7, .REPLACE, text "1", false⟩,
        ⟨a.pos, a.pos_end, .REPLACE, (s.1.flowAt f).ip4p.getIP.getString, false⟩,
        ⟨9 + addr.length, 9 + addr.length + port.length, .REPLACE, (s.1.flowAt f).ip4p.getPortString, false⟩] := by
  obtain ⟨s, f, hf, he, hrun⟩ := eprt_run hpool ⟨text "2", 6, 7⟩ a
    ⟨port, 9 + addr.length, 9 + addr.length + port.length⟩ (.new .stateless ())
  rw [← (message_line ht hne hport _).1 a h] at hrun
  obtain ⟨q, hq⟩ := firstLine_run hrun
  exact ⟨_, q, s, f, _, hq, rfl, hf, he, rfl⟩

theorem rewritten_of_addressed (hpool : sm.pool_ ≠ []) (ht : Plain addr) (hs : SP ∉ addr) (hne : port ≠ [])
    (hport : ∀ x ∈ port, isDigit x = true) (h : Addressed addr) {k : IP6Port}
    (hk : junk.ip6Port ⟨addr, 8, 8 + addr.length⟩
      ⟨port, 9 + addr.length, 9 + addr.length + port.length⟩ = k) : Rewritten echoed junk sm addr port k := by
  obtain ⟨y, hy⟩ := (exists_ip_iff ht).mpr h
  obtain rfl := ip_token ht hs hy
  obtain ⟨ops, q, s, f, k', hq, hk', hf, he, hops⟩ := firstLine_addressed hpool ht hne hport hy
  rw [hk] at hk'
  subst hk'
  change ops = eprtOps addr port (s.1.flowAt f).ip4p at hops
  have hpatch := eprtOps_patches addr port (s.1.flowAt f).ip4p
  have hfit := @Piece.fit_patches (eprtPieces addr port (s.1.flowAt f).ip4p) [BAR, CR, LF] 0 (by
      simp [eprtPieces, getString_ne_nil, IP4Port.getPortString, decimal, Nat.toDigits_ne_nil]
      decide)
  have hsplice := @Piece.splice_patches (eprtPieces addr port (s.1.flowAt f).ip4p) [] [BAR, CR, LF]
  rw [List.nil_append, eprtPieces_source, eprtPieces_result] at hsplice
  rw [eprtPieces_source, Int.zero_add, ← hpatch] at hfit
  refine ⟨ops, q, s, f, hq, hf, he, by rw [hops]; rfl, hops ▸ hfit, ?_⟩
  rw [hops]
  refine (copied_splice hfit).trans ?_
  rw [hpatch]
  exact hsplice

section Printed

variable {a : In6Addr}

theorem plain_ntop6 : Plain (inet_ntop6 a) ∧ SP ∉ inet_ntop6 a ∧ (0 : UInt8) ∉ inet_ntop6 a ∧
    (91 : UInt8) ∉ inet_ntop6 a := by
  have h : ∀ c : UInt8, hexDigit c = none ∧ c ≠ 58 ∧ c ≠ 46 → c ∉ inet_ntop6 a := by
    rintro c ⟨h₁, h₂, h₃⟩ hc
    rcases ntop6_chars hc with h | h | h
    · rw [h₁] at h
      cases h
    · exact h₂ h
    · exact h₃ h
  refine ⟨fun x hx ↦ ⟨?_, ?_, ?_⟩, h _ (by decide), h _ (by decide), h _ (by decide)⟩
  · rintro rfl
    exact h _ (by decide) hx
  · rintro rfl
    exact h _ (by decide) hx
  · rintro rfl
    exact h _ (by decide) hx

theorem addressed_ntop6 (h : DecimalText (inet_ntop6 a)) : Addressed (inet_ntop6 a) := by
  have hl : (hextets a).length = 8 := rfl
  rcases ntop6_cases h with hc | ⟨i, n, hi, hn, hin, -, hc⟩
  · rw [hc] at h ⊢
    exact .inl (groups_of_decimal (List.ne_nil_of_length_pos (by omega)) h.chars)
  · rw [hc] at h ⊢
    refine .inr ⟨groups ((hextets a).take i), 0, groups ((hextets a).drop (i + n)), ?_, ?_, ?_⟩
    · rw [List.append_assoc]
      rfl
    · exact groups_of_decimal (List.ne_nil_of_length_pos (by rw [List.length_take]; omega))
        fun c hc ↦ h.chars c (List.mem_append_left _ (List.mem_append_left _ hc))
    · exact groups_of_decimal (List.ne_nil_of_length_pos (by rw [List.length_drop]; omega))
        fun c hc ↦ h.chars c (List.mem_append_right _ hc)

theorem ip6Port_ntop6 (h : DecimalText (inet_ntop6 a)) (port : UInt16) (i j k l : Int) :
    junk.ip6Port ⟨inet_ntop6 a, i, j⟩ ⟨decimal port.toNat, k, l⟩ = ⟨⟨a⟩, ntohs port⟩ := by
  obtain ⟨-, -, h₀, h₉₁⟩ := plain_ntop6 (a := a)
  have hc : cstr (inet_ntop6 a) = inet_ntop6 a :=
    List.takeWhile_eq_self_iff.mpr fun x hx ↦ by
      rw [bne_iff_ne]
      rintro rfl
      exact h₀ hx
  have hb : ¬(2 < (inet_ntop6 a).length ∧ (inet_ntop6 a).head? = some 91 ∧ (inet_ntop6 a).getLast? = some 93) :=
    fun hb ↦ h₉₁ (List.mem_of_mem_head? hb.2.1)
  simp only [Junk.ip6Port, IP6Port.ofText, IPv6Addr.ofText]
  rw [readUShort_decimal, if_neg hb, hc, pton6_ntop6 h, Option.getD_some]

end Printed

theorem untouched_iff (hpool : sm.pool_ ≠ []) (ht : Plain addr) (port : UInt16) :
    Untouched echoed junk sm addr (decimal port.toNat) ↔ ¬Addressed addr := by
  obtain ⟨hne, hport⟩ := decimal_port port
  refine ⟨fun ⟨p, h⟩ ha ↦ ?_, untouched_of_unaddressed ht hne hport⟩
  obtain ⟨a, hip⟩ := (exists_ip_iff ht).mpr ha
  obtain ⟨ops, q, s, f, k, hq, -⟩ := firstLine_addressed hpool ht hne hport hip
  rw [h, Except.ok.injEq, Prod.mk.injEq, Prod.mk.injEq] at hq
  exact List.cons_ne_nil _ _ (Prod.mk.inj hq.2).2.symm

theorem rewritten_iff (hpool : sm.pool_ ≠ []) (a : In6Addr) (port : UInt16) :
    Rewritten echoed junk sm (inet_ntop6 a) (decimal port.toNat) ⟨⟨a⟩, ntohs port⟩ ↔ DecimalText (inet_ntop6 a) := by
  obtain ⟨hne, hport⟩ := decimal_port port
  obtain ⟨ht, hs, -⟩ := plain_ntop6 (a := a)
  constructor
  · rintro ⟨ops, p, s, f, hrun, -⟩
    by_contra hd
    obtain ⟨q, hq⟩ := untouched_of_unaddressed ht hne hport
      (fun h ↦ hd (h.decimalText hs))
    rw [hrun, Except.ok.injEq, Prod.mk.injEq, Prod.mk.injEq] at hq
    exact List.cons_ne_nil _ _ (Prod.mk.inj hq.2).2
  · intro hd
    exact rewritten_of_addressed hpool ht hs hne hport (addressed_ntop6 hd) (ip6Port_ntop6 hd port _ _ _ _)

/-- The line is rewritten exactly for the addresses printed in decimal digits and
colons with a digit at both ends, and a text that is no address is passed over exactly
when it is not numbers with colons between them. -/
theorem eprt_rewriting_iff (hpool : sm.pool_ ≠ []) (echoed : UInt8 → ℕ) (junk : Junk) :
    (∀ (a : In6Addr) (port : UInt16),
      Rewritten echoed junk sm (inet_ntop6 a) (decimal port.toNat) ⟨⟨a⟩, ntohs port⟩ ↔ DecimalText (inet_ntop6 a)) ∧
    (∀ (t : Text) (port : UInt16), Plain t → inet_pton6 t = none →
      (Untouched echoed junk sm t (decimal port.toNat) ↔ ¬Addressed t)) :=
  ⟨rewritten_iff hpool, fun _ port ht _ ↦ untouched_iff hpool ht port⟩

/-- The scanner takes no letter for a number, and the grammar takes a number for an address. -/
theorem eprt_missed :
    (inet_ntop6 ⟨ntohl 0x20010db8, 0, 0, ntohl 1⟩ = text "2001:db8::1" ∧
      ¬Rewritten once noJunk (exampleConf : StateManager Unit) (inet_ntop6 ⟨ntohl 0x20010db8, 0, 0, ntohl 1⟩)
        (decimal (1024 : UInt16).toNat) ⟨⟨⟨ntohl 0x20010db8, 0, 0, ntohl 1⟩⟩, ntohs 1024⟩) ∧
    inet_pton6 (text "1") = none ∧
      ¬Untouched once noJunk (exampleConf : StateManager Unit) (text "1") (decimal (1024 : UInt16).toNat) := by
  have hone : text "1" = [49] := by decide
  have hgroup : Group (text "1") := group_of_digits (by rw [hone]; simp) (by rw [hone]; simp [isDigit])
  have hplain : Plain (text "1") := by
    rw [hone]
    intro x hx
    rw [List.mem_singleton.mp hx]
    decide
  refine ⟨⟨by decide, fun h ↦ ?_⟩, by decide, fun h ↦ ?_⟩
  · have := (rewritten_iff exampleConf_pool_ne _ _).mp h
    revert this
    decide
  · exact (untouched_iff exampleConf_pool_ne hplain _).mp h (.inl (.one hgroup))

theorem eprt_rewritten_one : Rewritten once noJunk (exampleConf : StateManager Unit)
    (inet_ntop6 ⟨ntohl 0x20010000, 0, 0, ntohl 1⟩) (decimal (1024 : UInt16).toNat)
    ⟨⟨⟨ntohl 0x20010000, 0, 0, ntohl 1⟩⟩, ntohs 1024⟩ :=
  ((eprt_rewriting_iff exampleConf_pool_ne once noJunk).1 _ _).mpr (by decide)

end Nat64Alg
