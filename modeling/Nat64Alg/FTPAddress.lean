import Nat64Alg.FTPLine

namespace Nat64Alg

open Lib FTPScanner FTPParser

def Group (t : Text) : Prop :=
  ∃ i ds j, t = List.replicate i SP ++ (ds ++ List.replicate j SP) ∧ ds ≠ [] ∧ ∀ x ∈ ds, isDigit x = true

inductive Groups : Text → Prop
  | one {t : Text} : Group t → Groups t
  | more {t u : Text} : Groups t → Group u → Groups (t ++ COLON :: u)

/-- Numbers with single colons between them, and one double colon at most. -/
def Addressed (t : Text) : Prop :=
  Groups t ∨ ∃ u n v, t = u ++ COLON :: (List.replicate n SP ++ COLON :: v) ∧ Groups u ∧ Groups v

/-- A text with nothing in it that ends a line or one of its fields. -/
def Plain (t : Text) : Prop := ∀ x ∈ t, x ≠ CR ∧ x ≠ LF ∧ x ≠ BAR

variable {t u : Text} {n : ℕ} {k : Int} {echoed : UInt8 → ℕ}

namespace Plain

theorem left (h : Plain (t ++ u)) : Plain t := fun x hx ↦ h x (List.mem_append_left _ hx)

theorem right (h : Plain (t ++ u)) : Plain u := fun x hx ↦ h x (List.mem_append_right _ hx)

theorem head {c : UInt8} (h : Plain (c :: t)) : c ≠ CR ∧ c ≠ LF ∧ c ≠ BAR := h c List.mem_cons_self

theorem tail {c : UInt8} (h : Plain (c :: t)) : Plain t := fun x hx ↦ h x (List.mem_cons_of_mem _ hx)

theorem lines (h : Plain t) : ∀ x ∈ t, x ≠ CR ∧ x ≠ LF := fun x hx ↦ ⟨(h x hx).1, (h x hx).2.1⟩

end Plain

theorem Group.blank (h : Group t) : Group (t ++ List.replicate n SP) := by
  obtain ⟨i, ds, j, rfl, hne, hd⟩ := h
  refine ⟨i, ds, j + n, ?_, hne, hd⟩
  rw [List.replicate_add, List.append_assoc, List.append_assoc]

theorem Group.blank_before (h : Group t) : Group (List.replicate n SP ++ t) := by
  obtain ⟨i, ds, j, rfl, hne, hd⟩ := h
  refine ⟨n + i, ds, j, ?_, hne, hd⟩
  rw [List.replicate_add, List.append_assoc]

namespace Groups

theorem blank (h : Groups t) : Groups (t ++ List.replicate n SP) := by
  cases h with
  | one h => exact .one h.blank
  | more h h' =>
    rw [List.append_assoc, List.cons_append]
    exact .more h h'.blank

theorem blank_before (h : Groups t) : Groups (List.replicate n SP ++ t) := by
  induction h with
  | one h => exact .one h.blank_before
  | more _ h' ih =>
    rw [← List.append_assoc]
    exact .more ih h'

theorem cons (hu : Group u) (h : Groups t) : Groups (u ++ COLON :: t) := by
  induction h with
  | one h => exact .more (.one hu) h
  | more _ h' ih =>
    rw [← List.cons_append, ← List.append_assoc]
    exact .more ih h'

end Groups

theorem Group.chars (h : Group t) : ∀ c ∈ t, isDigit c = true ∨ c = COLON ∨ c = SP := by
  obtain ⟨i, ds, j, rfl, -, hd⟩ := h
  intro c hc
  rcases List.mem_append.mp hc with hc | hc
  · exact .inr (.inr (List.eq_of_mem_replicate hc))
  rcases List.mem_append.mp hc with hc | hc
  · exact .inl (hd c hc)
  · exact .inr (.inr (List.eq_of_mem_replicate hc))

theorem Groups.chars (h : Groups t) : ∀ c ∈ t, isDigit c = true ∨ c = COLON ∨ c = SP := by
  induction h with
  | one h => exact h.chars
  | more _ h' ih =>
    intro c hc
    rcases List.mem_append.mp hc with hc | hc
    · exact ih c hc
    · rcases List.mem_cons.mp hc with rfl | hc
      · exact .inr (.inl rfl)
      · exact h'.chars c hc

theorem Groups.head (h : Groups t) (hs : SP ∉ t) : ∃ c cs, t = c :: cs ∧ isDigit c = true := by
  induction h with
  | one h =>
    obtain ⟨i, ds, j, rfl, hne, hd⟩ := h
    obtain ⟨d, ds, rfl⟩ := List.exists_cons_of_ne_nil hne
    obtain rfl : i = 0 := by
      by_contra hi
      exact hs (List.mem_append_left _ (List.mem_replicate.mpr ⟨hi, rfl⟩))
    exact ⟨d, _, rfl, hd d List.mem_cons_self⟩
  | more _ _ ih =>
    obtain ⟨c, cs, rfl, hc⟩ := ih (fun h ↦ hs (List.mem_append_left _ h))
    exact ⟨c, _, rfl, hc⟩

theorem Groups.last (h : Groups t) (hs : SP ∉ t) : ∃ cs c, t = cs ++ [c] ∧ isDigit c = true := by
  have hgroup : ∀ u, Group u → SP ∉ u → ∃ cs c, u = cs ++ [c] ∧ isDigit c = true := by
    rintro u ⟨i, ds, j, rfl, hne, hd⟩ hs
    obtain rfl : j = 0 := by
      by_contra hj
      exact hs (List.mem_append_right _ (List.mem_append_right _ (List.mem_replicate.mpr ⟨hj, rfl⟩)))
    refine ⟨List.replicate i SP ++ ds.dropLast, ds.getLast hne, ?_, hd _ (List.getLast_mem hne)⟩
    rw [List.replicate_zero, List.append_nil, List.append_assoc, List.dropLast_append_getLast]
  cases h with
  | one h => exact hgroup _ h hs
  | @more t u _ h =>
    obtain ⟨cs, c, rfl, hc⟩ := hgroup u h (fun h ↦ hs (List.mem_append_right _ (List.mem_cons_of_mem _ h)))
    exact ⟨t ++ COLON :: cs, c, by rw [List.append_assoc, List.cons_append], hc⟩

theorem Addressed.decimalText (h : Addressed t) (hs : SP ∉ t) : DecimalText t := by
  have hchars : ∀ c ∈ t, isDigit c = true ∨ c = 58 := by
    intro c hc
    have : isDigit c = true ∨ c = COLON ∨ c = SP := by
      rcases h with h | ⟨u, n, v, rfl, hu, hv⟩
      · exact h.chars c hc
      · simp only [List.mem_append, List.mem_cons] at hc
        rcases hc with hc | hc | hc | hc | hc
        · exact hu.chars c hc
        · exact .inr (.inl hc)
        · exact .inr (.inr (List.eq_of_mem_replicate hc))
        · exact .inr (.inl hc)
        · exact hv.chars c hc
    rcases this with hd | hd | rfl
    · exact .inl hd
    · exact .inr hd
    · exact absurd hc hs
  have hends : (∃ c cs, t = c :: cs ∧ isDigit c = true) ∧ ∃ cs c, t = cs ++ [c] ∧ isDigit c = true := by
    rcases h with h | ⟨u, n, v, rfl, hu, hv⟩
    · exact ⟨h.head hs, h.last hs⟩
    · obtain ⟨c, cs, rfl, hc⟩ := hu.head (fun h ↦ hs (List.mem_append_left _ h))
      obtain ⟨ds, d, rfl, hd⟩ := hv.last (fun h ↦ hs (by simp [h]))
      refine ⟨⟨c, _, rfl, hc⟩, ⟨c :: cs ++ COLON :: (List.replicate n SP ++ COLON :: ds), d, ?_, hd⟩⟩
      simp
  obtain ⟨⟨c, cs, hc, hhead⟩, ⟨ds, d, hd, hlast⟩⟩ := hends
  refine ⟨hchars, fun x hx ↦ ?_, fun x hx ↦ ?_⟩
  · rw [hc] at hx
    rw [← Option.some.inj hx]
    exact hhead
  · rw [hd, List.getLast?_concat] at hx
    rw [← Option.some.inj hx]
    exact hlast

theorem group_of_digits (hne : t ≠ []) (h : ∀ c ∈ t, isDigit c = true) : Group t :=
  ⟨0, t, 0, by simp, hne, h⟩

theorem groups_of_decimal {ws : List ℕ} (hne : ws ≠ []) (h : ∀ c ∈ groups ws, isDigit c = true ∨ c = 58) :
    Groups (groups ws) := by
  have hgroup : ∀ w, (∀ c ∈ numeral 16 w, isDigit c = true ∨ c = 58) → Group (numeral 16 w) := by
    intro w hw
    refine group_of_digits numeral_ne_nil fun c hc ↦ (hw c hc).resolve_right ?_
    rintro rfl
    exact absurd (hexDigit_numeral (by omega) le_rfl hc) (by decide)
  induction ws with
  | nil => exact absurd rfl hne
  | cons w ws ih =>
    cases ws with
    | nil =>
      rw [groups_one] at h ⊢
      exact .one (hgroup w h)
    | cons v ws =>
      rw [groups_cons] at h ⊢
      exact .cons (hgroup w fun c hc ↦ h c (List.mem_append_left _ hc))
        (ih (by simp) fun c hc ↦ h c (List.mem_append_right _ (List.mem_cons_of_mem _ hc)))

namespace FTPScanner

theorem spans_split {B : List (Token × TokenType)} (ht : ∀ x ∈ t, x ≠ CR ∧ x ≠ LF) :
    ∀ k A, spans echoed k (lexemes (.eprt, false) t) = A ++ B → ∃ t₁ t₂, t = t₁ ++ t₂ ∧
      spans echoed k (lexemes (.eprt, false) t₁) = A ∧
      spans echoed (k + t₁.length) (lexemes (.eprt, false) t₂) = B := by
  refine eprt_induction ?_ ?_ ?_ ?_ t ht
  · intro k A h
    obtain ⟨rfl, rfl⟩ := List.append_eq_nil_iff.mp h.symm
    exact ⟨[], [], rfl, rfl, rfl⟩
  · intro c cs hc ih k A h
    rw [lexemes_sep hc, spans_ignored] at h
    obtain ⟨t₁, t₂, rfl, h₁, h₂⟩ := ih _ _ h
    refine ⟨c :: t₁, t₂, rfl, by rw [lexemes_sep hc, spans_ignored]; exact h₁, ?_⟩
    rw [← h₂, List.length_cons, List.length_singleton]
    congr 1
    omega
  · intro ds rest hne hds hrest ih k A h
    cases A with
    | nil => exact ⟨[], ds ++ rest, rfl, rfl, by simpa using h⟩
    | cons x A =>
      rw [lexemes_int hne hds hrest, spans_token] at h
      obtain ⟨hx, h⟩ := List.cons.inj h
      obtain ⟨t₁, t₂, rfl, h₁, h₂⟩ := ih _ _ h
      have hrest' : ∀ x ∈ t₁.head?, isDigit x = false := by
        cases t₁ with
        | nil => simp
        | cons y ys => exact hrest
      refine ⟨ds ++ t₁, t₂, by rw [List.append_assoc], ?_, ?_⟩
      · rw [lexemes_int hne hds hrest', spans_token, h₁, hx]
      · rw [← h₂, List.length_append]
        congr 1
        omega
  · intro c cs hd hc ih k A h
    cases A with
    | nil => exact ⟨[], c :: cs, rfl, rfl, by simpa using h⟩
    | cons x A =>
      rw [lexemes_char hd hc, spans_token] at h
      obtain ⟨hx, h⟩ := List.cons.inj h
      obtain ⟨t₁, t₂, rfl, h₁, h₂⟩ := ih _ _ h
      refine ⟨c :: t₁, t₂, rfl, by rw [lexemes_char hd hc, spans_token, h₁, hx], ?_⟩
      rw [← h₂, List.length_cons, List.length_singleton]
      congr 1
      omega

theorem spans_nil (ht : Plain t) : spans echoed k (lexemes (.eprt, false) t) = [] → ∃ n, t = List.replicate n SP := by
  suffices H : ∀ k, Plain t → spans echoed k (lexemes (.eprt, false) t) = [] → ∃ n, t = List.replicate n SP from H k ht
  refine eprt_induction ?_ ?_ ?_ ?_ t ht.lines
  · exact fun _ _ _ ↦ ⟨0, rfl⟩
  · intro c cs hc ih k hb h
    rw [lexemes_sep hc, spans_ignored] at h
    obtain ⟨n, rfl⟩ := ih _ hb.tail h
    exact ⟨n + 1, by rw [hc.resolve_right hb.head.2.2]; rfl⟩
  · intro ds rest hne hds hrest _ k _ h
    rw [lexemes_int hne hds hrest, spans_token] at h
    cases h
  · intro c cs hd hc _ k _ h
    rw [lexemes_char hd hc, spans_token] at h
    cases h

theorem spans_one {x : Token × TokenType} (ht : Plain t) : spans echoed k (lexemes (.eprt, false) t) = [x] →
    ∃ i w j, t = List.replicate i SP ++ (w ++ List.replicate j SP) ∧
      ((x.1 = .INT ∧ w ≠ [] ∧ ∀ c ∈ w, isDigit c = true) ∨ ∃ c, x.1 = .char c ∧ w = [c]) := by
  suffices H : ∀ k, Plain t → spans echoed k (lexemes (.eprt, false) t) = [x] →
    ∃ i w j, t = List.replicate i SP ++ (w ++ List.replicate j SP) ∧
      ((x.1 = .INT ∧ w ≠ [] ∧ ∀ c ∈ w, isDigit c = true) ∨ ∃ c, x.1 = .char c ∧ w = [c]) from H k ht
  refine eprt_induction ?_ ?_ ?_ ?_ t ht.lines
  · intro k _ h
    cases h
  · intro c cs hc ih k hb h
    rw [lexemes_sep hc, spans_ignored] at h
    obtain ⟨i, w, j, rfl, hw⟩ := ih _ hb.tail h
    exact ⟨i + 1, w, j, by rw [hc.resolve_right hb.head.2.2]; rfl, hw⟩
  · intro ds rest hne hds hrest _ k hb h
    rw [lexemes_int hne hds hrest, spans_token] at h
    obtain ⟨rfl, h'⟩ := List.cons.inj h
    obtain ⟨j, rfl⟩ := spans_nil hb.right h'
    exact ⟨0, ds, j, rfl, .inl ⟨rfl, hne, hds⟩⟩
  · intro c cs hd hc _ k hb h
    rw [lexemes_char hd hc, spans_token] at h
    obtain ⟨rfl, h'⟩ := List.cons.inj h
    obtain ⟨j, rfl⟩ := spans_nil hb.tail h'
    exact ⟨0, [c], j, rfl, .inr ⟨c, rfl, rfl⟩⟩

theorem spans_int {y : TokenType} (ht : Plain t) (h : spans echoed k (lexemes (.eprt, false) t) = [(.INT, y)]) :
    Group t := by
  obtain ⟨i, w, j, rfl, hw | ⟨c, hc, -⟩⟩ := spans_one ht h
  · exact ⟨i, w, j, rfl, hw.2⟩
  · cases hc

theorem spans_char {y : TokenType} {c : UInt8} (ht : Plain t)
    (h : spans echoed k (lexemes (.eprt, false) t) = [(.char c, y)]) :
    ∃ i j, t = List.replicate i SP ++ c :: List.replicate j SP := by
  obtain ⟨i, w, j, rfl, hw | ⟨d, hd, rfl⟩⟩ := spans_one ht h
  · cases hw.1
  · cases hd
    exact ⟨i, j, rfl⟩

theorem groups_of_ipp {ts : List (Token × TokenType)} {a : TokenType} (h : Ipp ts a) (ht : Plain t)
    (hts : spans echoed k (lexemes (.eprt, false) t) = ts) : Groups t := by
  induction h generalizing t k with
  | int y => exact .one (spans_int ht hts)
  | more c y _ ih =>
    obtain ⟨t₁, t₂, rfl, h₁, h₂⟩ := spans_split ht.lines _ _ hts
    obtain ⟨t₃, t₄, rfl, h₃, h₄⟩ := spans_split ht.right.lines _ [_] h₂
    obtain ⟨i, j, rfl⟩ := spans_char ht.right.left h₃
    have hg := spans_int ht.right.right h₄
    have he : t₁ ++ (List.replicate i SP ++ COLON :: List.replicate j SP ++ t₄) =
        t₁ ++ List.replicate i SP ++ COLON :: (List.replicate j SP ++ t₄) := by simp
    rw [he]
    exact .more (ih ht.left h₁).blank hg.blank_before

theorem addressed_of_ip {a : TokenType} (ht : Plain t) (h : Ip (spans echoed k (lexemes (.eprt, false) t)) a) :
    Addressed t := by
  generalize hts : spans echoed k (lexemes (.eprt, false) t) = ts at h
  cases h with
  | single h => exact .inl (groups_of_ipp h ht hts)
  | double c d h h' =>
    obtain ⟨t₁, t₂, rfl, h₁, h₂⟩ := spans_split ht.lines _ _ hts
    obtain ⟨t₃, t₄, rfl, h₃, h₄⟩ := spans_split ht.right.lines _ [_] h₂
    obtain ⟨t₅, t₆, rfl, h₅, h₆⟩ := spans_split ht.right.right.lines _ [_] h₄
    obtain ⟨i, j, rfl⟩ := spans_char ht.right.left h₃
    obtain ⟨m, n, rfl⟩ := spans_char ht.right.right.left h₅
    have hu := groups_of_ipp h ht.left h₁
    have hv := groups_of_ipp h' ht.right.right.right h₆
    refine .inr ⟨t₁ ++ List.replicate i SP, j + m, List.replicate n SP ++ t₆, ?_, hu.blank, hv.blank_before⟩
    rw [List.replicate_add]
    simp only [List.append_assoc, List.cons_append]

theorem spans_blank : spans echoed k (lexemes (.eprt, false) (List.replicate n SP ++ t)) =
    spans echoed (k + n) (lexemes (.eprt, false) t) := by
  induction n generalizing k with
  | zero => simp
  | succ n ih =>
    rw [List.replicate_succ, List.cons_append, lexemes_sep (.inl rfl), spans_ignored, ih, List.length_singleton]
    congr 1
    push_cast
    omega

theorem spans_group (h : Group t) : ∃ y, spans echoed k (lexemes (.eprt, false) t) = [(.INT, y)] := by
  obtain ⟨i, ds, j, rfl, hne, hd⟩ := h
  have hj : ∀ x ∈ (List.replicate j SP).head?, isDigit x = false := by
    intro x hx
    rw [List.eq_of_mem_replicate (List.mem_of_mem_head? hx)]
    decide
  have hend : ∀ k, spans echoed k (lexemes (.eprt, false) (List.replicate j SP)) = [] := by
    intro k
    have := @spans_blank [] j k echoed
    rwa [List.append_nil] at this
  refine ⟨⟨ds, k + i, k + i + ds.length⟩, ?_⟩
  rw [spans_blank, lexemes_int hne hd hj, spans_token, hend]

theorem spans_colon (ht : Plain t) : spans echoed k (lexemes (.eprt, false) (t ++ COLON :: u)) =
    spans echoed k (lexemes (.eprt, false) t) ++ (.char COLON, ⟨[COLON], k + t.length, k + t.length + 1⟩) ::
      spans echoed (k + t.length + 1) (lexemes (.eprt, false) u) := by
  rw [lexemes_split (by decide) ht.lines, spans_append ht.lines, lexemes_char (by decide) (by decide)]
  rfl

theorem ipp_of_groups (h : Groups t) (ht : Plain t) : ∃ a, Ipp (spans echoed k (lexemes (.eprt, false) t)) a := by
  induction h generalizing k with
  | one h =>
    obtain ⟨y, hy⟩ := spans_group (k := k) h
    exact ⟨y, hy ▸ .int y⟩
  | more _ h' ih =>
    obtain ⟨a, ha⟩ := ih (k := k) ht.left
    rw [spans_colon ht.left]
    obtain ⟨y, hy⟩ := spans_group h'
    rw [hy]
    exact ⟨_, .more _ y ha⟩

theorem exists_ip_iff (ht : Plain t) : (∃ a, Ip (spans echoed k (lexemes (.eprt, false) t)) a) ↔ Addressed t := by
  refine ⟨fun ⟨a, h⟩ ↦ addressed_of_ip ht h, fun h ↦ ?_⟩
  rcases h with h | ⟨u, n, v, rfl, hu, hv⟩
  · obtain ⟨a, ha⟩ := ipp_of_groups h ht
    exact ⟨a, .single ha⟩
  · have hp : Plain (List.replicate n SP) := ht.right.tail.left
    have hblank := @spans_blank [] n (k + u.length + 1) echoed
    rw [List.append_nil] at hblank
    obtain ⟨a, ha⟩ := ipp_of_groups (k := k) hu ht.left
    rw [spans_colon ht.left, spans_colon hp, hblank]
    obtain ⟨b, hb⟩ := ipp_of_groups hv ht.right.tail.right.tail
    exact ⟨_, .double _ _ ha hb⟩

theorem char_text (ht : Plain t) {c : UInt8} :
    ∀ x ∈ spans echoed k (lexemes (.eprt, false) t), x.1 = .char c → x.2.s = [c] := by
  suffices H : ∀ k, ∀ x ∈ spans echoed k (lexemes (.eprt, false) t), x.1 = .char c → x.2.s = [c] from H k
  refine eprt_induction ?_ ?_ ?_ ?_ t ht.lines
  · intro k x hx
    cases hx
  · intro d ds hd ih k
    rw [lexemes_sep hd, spans_ignored]
    exact ih _
  · intro ds rest hne hds hrest ih k
    rw [lexemes_int hne hds hrest, spans_token, List.forall_mem_cons]
    refine ⟨fun h ↦ ?_, ih _⟩
    cases h
  · intro d ds hd hc ih k
    rw [lexemes_char hd hc, spans_token, List.forall_mem_cons]
    refine ⟨fun h ↦ ?_, ih _⟩
    obtain rfl := Token.char.inj h
    rfl

theorem spans_whole (ht : Plain t) (hs : SP ∉ t) :
    ((spans echoed k (lexemes (.eprt, false) t)).map (fun x ↦ x.2.s)).flatten = t ∧
      (∀ x ∈ (spans echoed k (lexemes (.eprt, false) t)).head?, x.2.pos = k) ∧
      ∀ x ∈ (spans echoed k (lexemes (.eprt, false) t)).getLast?, x.2.pos_end = k + t.length := by
  suffices H : ∀ k, Plain t → SP ∉ t → ((spans echoed k (lexemes (.eprt, false) t)).map (fun x ↦ x.2.s)).flatten = t ∧
      (∀ x ∈ (spans echoed k (lexemes (.eprt, false) t)).head?, x.2.pos = k) ∧
      ((spans echoed k (lexemes (.eprt, false) t)).map (fun x ↦ x.2.pos_end)).getLastD k = k + t.length by
    obtain ⟨h₁, h₂, h₃⟩ := H k ht hs
    refine ⟨h₁, h₂, fun x hx ↦ ?_⟩
    rw [← h₃, List.getLastD_eq_getLast?, List.getLast?_map, hx]
    rfl
  refine eprt_induction ?_ ?_ ?_ ?_ t ht.lines
  · intro k _ _
    exact ⟨rfl, fun x hx ↦ (nomatch hx), (Int.add_zero k).symm⟩
  · intro c cs hc _ k ht hs
    rcases hc with rfl | rfl
    · exact absurd List.mem_cons_self hs
    · exact absurd rfl ht.head.2.2
  · intro ds rest hne hds hrest ih k ht hs
    obtain ⟨h₁, h₂, h₃⟩ := ih (k + ds.length) ht.right (fun h ↦ hs (List.mem_append_right _ h))
    rw [lexemes_int hne hds hrest, spans_token]
    refine ⟨by rw [List.map_cons, List.flatten_cons, h₁], fun x hx ↦ by rw [← Option.some.inj hx], ?_⟩
    rw [List.map_cons, List.getLastD_cons, h₃, List.length_append]
    omega
  · intro c cs hd hc ih k ht hs
    obtain ⟨h₁, h₂, h₃⟩ := ih (k + 1) ht.tail (fun h ↦ hs (List.mem_cons_of_mem _ h))
    rw [lexemes_char hd hc, spans_token]
    refine ⟨?_, fun x hx ↦ by rw [← Option.some.inj hx], ?_⟩
    · rw [List.map_cons, List.flatten_cons, List.length_singleton]
      exact congrArg _ h₁
    · rw [List.map_cons, List.getLastD_cons]
      exact h₃.trans (by rw [List.length_cons]; omega)

theorem ip_token {a : TokenType} (ht : Plain t) (hs : SP ∉ t)
    (h : Ip (spans echoed k (lexemes (.eprt, false) t)) a) : a = ⟨t, k, k + t.length⟩ := by
  obtain ⟨h₁, h₂, h₃⟩ := h.covers (char_text ht)
  obtain ⟨h₄, h₅, h₆⟩ := spans_whole (k := k) ht hs
  obtain ⟨⟨x, hx⟩, ⟨y, hy⟩⟩ := h.ends
  have hpos : a.pos = k := (h₂ _ hx).trans (h₅ _ hx)
  have hend : a.pos_end = k + t.length := (h₃ _ hy).trans (h₆ _ hy)
  rw [← hend, ← hpos, ← h₄, ← h₁]

end FTPScanner

end Nat64Alg
