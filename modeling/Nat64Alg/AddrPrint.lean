import Nat64Alg.AddrText
import Mathlib.Data.List.TakeWhile
import Mathlib.Tactic.IntervalCases

namespace Nat64Alg

def numeral (b n : ℕ) : Text := (Nat.toDigits b n).map (fun c ↦ UInt8.ofNat c.toNat)

/-- The address in eight words of 16 bits, in network order. -/
def hextets (a : In6Addr) : List ℕ :=
  [a.w₀, a.w₁, a.w₂, a.w₃].flatMap (fun w ↦
    [w.toNat % 2 ^ 8 * 256 + w.toNat / 2 ^ 8 % 2 ^ 8, w.toNat / 2 ^ 16 % 2 ^ 8 * 256 + w.toNat / 2 ^ 24])

/-- The longest run of zeros, the first of those as long: where it starts and its length. -/
def bestRun (i : ℕ) : List ℕ → ℕ × ℕ
  | [] => (i, 0)
  | w :: ws =>
    let n := ((w :: ws).takeWhile (· == 0)).length
    let b := bestRun (i + 1) ws
    if b.2 ≤ n then (i, n) else b

def groups (ws : List ℕ) : Text := List.intercalate [58] (ws.map (numeral 16))

/-- `inet_ntop` for `AF_INET6`. -/
def inet_ntop6 (a : In6Addr) : Text :=
  let ws := hextets a
  let b := bestRun 0 ws
  if b.2 < 2 then groups ws
  else if b.1 = 0 ∧ (b.2 = 6 ∨ b.2 = 5 ∧ ws.getD 5 0 = 0xffff) then
    [58, 58] ++ (if b.2 = 5 then numeral 16 0xffff ++ [58] else []) ++ IPv4Addr.getString ⟨a.w₃⟩
  else groups (ws.take b.1) ++ [58, 58] ++ groups (ws.drop (b.1 + b.2))

example : inet_ntop6 ⟨Lib.ntohl 0x20010db8, 0, 0, Lib.ntohl 0xc0000201⟩ = text "2001:db8::c000:201" := by decide

example : inet_ntop6 ⟨0, 0, Lib.ntohl 0xffff, Lib.ntohl 0xc0000201⟩ = text "::ffff:192.0.2.1" := by decide

theorem bestRun_zeros (i : ℕ) (ws : List ℕ) : i ≤ (bestRun i ws).1 ∧
    (bestRun i ws).1 - i + (bestRun i ws).2 ≤ ws.length ∧
    (ws.drop ((bestRun i ws).1 - i)).take (bestRun i ws).2 = List.replicate (bestRun i ws).2 0 := by
  induction ws generalizing i with
  | nil => simp [bestRun]
  | cons w ws ih =>
    obtain ⟨h₁, h₂, h₃⟩ := ih (i + 1)
    unfold bestRun
    dsimp only
    split
    case isTrue =>
      have hlen := (List.takeWhile_prefix (l := w :: ws) (p := fun x ↦ x == 0)).length_le
      refine ⟨le_rfl, by omega, ?_⟩
      rw [Nat.sub_self, List.drop_zero, ← List.prefix_iff_eq_take.mp (List.takeWhile_prefix _)]
      refine List.eq_replicate_of_mem (fun x hx ↦ ?_)
      simpa using List.mem_takeWhile_imp hx
    case isFalse =>
      refine ⟨by omega, by rw [List.length_cons]; omega, ?_⟩
      rw [show (bestRun (i + 1) ws).1 - i = (bestRun (i + 1) ws).1 - (i + 1) + 1 by omega, List.drop_succ_cons]
      exact h₃

section Numerals

variable {b n : ℕ}

theorem numeral_eq_if (hb : 1 < b) : numeral b n =
    if n < b then [UInt8.ofNat n.digitChar.toNat] else numeral b (n / b) ++ [UInt8.ofNat (n % b).digitChar.toNat] := by
  unfold numeral
  rw [Nat.toDigits_eq_if hb]
  split <;> simp

theorem numeral_ne_nil : numeral b n ≠ [] := by
  simp [numeral, Nat.toDigits_ne_nil]

theorem length_numeral_le {k : ℕ} (hb : 1 < b) (hk : 0 < k) : (numeral b n).length ≤ k ↔ n < b ^ k := by
  rw [numeral, List.length_map, Nat.length_toDigits_le_iff hb hk]

theorem hexDigit_digitChar {d : ℕ} (h : d < 16) : hexDigit (UInt8.ofNat d.digitChar.toNat) = some d := by
  interval_cases d <;> decide

theorem isDigit_digitChar {d : ℕ} (h : d < 10) : isDigit (UInt8.ofNat d.digitChar.toNat) = true ∧
    (UInt8.ofNat d.digitChar.toNat).toNat - 48 = d := by
  interval_cases d <;> decide

theorem hexDigit_numeral {c : UInt8} (hb : 1 < b) (hb' : b ≤ 16) (h : c ∈ numeral b n) : (hexDigit c).isSome := by
  have hdigit : ∀ d, d < b → (hexDigit (UInt8.ofNat d.digitChar.toNat)).isSome := fun d hd ↦ by
    rw [hexDigit_digitChar (by omega)]
    rfl
  induction n using Nat.strong_induction_on with
  | _ n ih =>
    rw [numeral_eq_if hb] at h
    split at h
    case isTrue hn =>
      rw [List.mem_singleton.mp h]
      exact hdigit n hn
    case isFalse hn =>
      rcases List.mem_append.mp h with h | h
      · exact ih (n / b) (Nat.div_lt_self (by omega) hb) h
      · rw [List.mem_singleton.mp h]
        exact hdigit _ (Nat.mod_lt _ (by omega))

theorem isDigit_decimal {c : UInt8} (h : c ∈ numeral 10 n) : isDigit c = true := by
  induction n using Nat.strong_induction_on with
  | _ n ih =>
    rw [numeral_eq_if (by omega)] at h
    split at h
    case isTrue hn =>
      rw [List.mem_singleton.mp h]
      exact (isDigit_digitChar hn).1
    case isFalse hn =>
      rcases List.mem_append.mp h with h | h
      · exact ih (n / 10) (by omega) h
      · rw [List.mem_singleton.mp h]
        exact (isDigit_digitChar (by omega)).1

theorem digitsValue_decimal (n : ℕ) : digitsValue (numeral 10 n) = n := by
  induction n using Nat.strong_induction_on with
  | _ n ih =>
    unfold digitsValue at ih ⊢
    rw [numeral_eq_if (by omega)]
    split
    case isTrue hn =>
      rw [List.foldl_cons, List.foldl_nil, (isDigit_digitChar hn).2]
      omega
    case isFalse hn =>
      rw [List.foldl_append, ih (n / 10) (by omega), List.foldl_cons, List.foldl_nil,
        (isDigit_digitChar (by omega)).2]
      omega

theorem readUShort_decimal (junk : UInt16) (port : UInt16) : readUShort junk (decimal port.toNat) = port := by
  have hne := numeral_ne_nil (b := 10) (n := port.toNat)
  obtain ⟨c, cs, hc⟩ := List.exists_cons_of_ne_nil hne
  have hdigit : ∀ x ∈ decimal port.toNat, isDigit x = true := fun x hx ↦ isDigit_decimal hx
  have hd : decimal port.toNat = c :: cs := hc
  have hc₀ := hdigit c (by rw [hd]; exact List.mem_cons_self)
  have hspace : isSpace c = false := by
    simp only [isDigit, isSpace, Bool.and_eq_true, decide_eq_true_eq, UInt8.le_iff_toNat_le] at hc₀ ⊢
    simp only [Bool.or_eq_false_iff, beq_eq_false_iff_ne, ne_eq, Bool.and_eq_false_iff, decide_eq_false_iff_not,
      ← UInt8.toNat_inj]
    simp at hc₀ ⊢
    omega
  have hsign : (c == 43) = false ∧ (c == 45) = false := by
    simp only [isDigit, Bool.and_eq_true, decide_eq_true_eq, UInt8.le_iff_toNat_le] at hc₀
    simp only [beq_eq_false_iff_ne, ne_eq, ← UInt8.toNat_inj]
    simp at hc₀ ⊢
    omega
  have hall : (c :: cs).takeWhile isDigit = c :: cs := by
    rw [List.takeWhile_eq_self_iff]
    exact fun x hx ↦ hdigit x (by rw [hd]; exact hx)
  have hval : digitsValue (c :: cs) = port.toNat := hd ▸ digitsValue_decimal port.toNat
  have hlt := port.toNat_lt
  unfold readUShort
  rw [hd, List.dropWhile_cons_of_neg (by simp [hspace])]
  simp only [hsign.1, hsign.2, Bool.or_false, Bool.false_eq_true, if_false, hall, hval]
  rw [if_neg (by omega), UInt16.ofNat_toNat]

end Numerals

section Parse

variable {w : ℕ} {rest tok : Text} {colonp : Option ℕ} {tp : List ℕ}

theorem pton6Loop_numeral (hw : w < 65536) :
    pton6Loop (numeral 16 w ++ rest) tok 0 0 colonp tp = pton6Loop rest tok (numeral 16 w).length w colonp tp := by
  induction w using Nat.strong_induction_on generalizing rest with
  | _ w ih =>
    rw [numeral_eq_if (by omega)]
    split
    case isTrue h =>
      simp only [List.singleton_append, pton6Loop, hexDigit_digitChar h, List.length_singleton]
      rw [if_neg (by omega)]
      simp
    case isFalse h =>
      have hlen : (numeral 16 (w / 16)).length ≤ 3 := (length_numeral_le (by omega) (by omega)).mpr (by omega)
      rw [List.append_assoc, ih (w / 16) (by omega) (by omega), List.singleton_append]
      simp only [pton6Loop, hexDigit_digitChar (show w % 16 < 16 by omega), List.length_append,
        List.length_singleton]
      rw [if_neg (by omega), show w / 16 * 16 + w % 16 = w by omega]

theorem groups_cons (w v : ℕ) (ws : List ℕ) : groups (w :: v :: ws) = numeral 16 w ++ 58 :: groups (v :: ws) := by
  simp [groups, List.intercalate]

theorem groups_one (w : ℕ) : groups [w] = numeral 16 w := by
  simp [groups, List.intercalate]

def bytesOf (ws : List ℕ) : List ℕ := ws.flatMap (fun w ↦ [w / 256, w % 256])

theorem pton6Loop_groups {ws : List ℕ} (hw : ∀ v ∈ w :: ws, v < 65536) (hlen : tp.length + 2 * ws.length ≤ 16) :
    ∃ tok', pton6Loop (groups (w :: ws) ++ rest) tok 0 0 colonp tp =
      pton6Loop rest tok' (numeral 16 ((w :: ws).getLast (by simp))).length ((w :: ws).getLast (by simp)) colonp
        (tp ++ bytesOf (w :: ws).dropLast) := by
  induction ws generalizing w tok tp with
  | nil =>
    refine ⟨tok, ?_⟩
    rw [groups_one, pton6Loop_numeral (hw w (by simp))]
    simp [bytesOf]
  | cons v ws ih =>
    rw [List.length_cons] at hlen
    obtain ⟨tok', h⟩ := @ih v (groups (v :: ws) ++ rest) (tp ++ [w / 256, w % 256])
      (fun x hx ↦ hw x (List.mem_cons_of_mem _ hx)) (by rw [List.length_append]; simp; omega)
    refine ⟨tok', ?_⟩
    have hpos := List.length_pos_iff.mpr (numeral_ne_nil (b := 16) (n := w))
    have hne : (groups (v :: ws) ++ rest).isEmpty = false := by
      cases ws with
      | nil => simp [groups_one, numeral_ne_nil]
      | cons u us => simp [groups_cons, numeral_ne_nil]
    rw [groups_cons, List.append_assoc, pton6Loop_numeral (hw w (by simp)), List.cons_append, pton6Loop,
      show hexDigit 58 = none by decide]
    simp only [beq_self_eq_true, if_true, hne, Bool.false_or]
    rw [if_neg (by omega), if_neg (by simp; omega), h]
    simp [bytesOf]

theorem bytesOf_getLast {ws : List ℕ} (h : ws ≠ []) :
    bytesOf ws.dropLast ++ [ws.getLast h / 256, ws.getLast h % 256] = bytesOf ws := by
  conv_rhs => rw [← List.dropLast_append_getLast h]
  simp [bytesOf]

theorem length_bytesOf (ws : List ℕ) : (bytesOf ws).length = 2 * ws.length := by
  induction ws with
  | nil => rfl
  | cons w ws ih =>
    rw [bytesOf, List.flatMap_cons, List.length_append, ← bytesOf, ih]
    simp
    omega

theorem pton6Loop_whole {ws : List ℕ} (hw : ∀ v ∈ ws, v < 65536) (hlen : ws.length = 8) :
    pton6Loop (groups ws) tok 0 0 none [] = some (bytesOf ws) := by
  obtain ⟨w, ws, rfl⟩ := List.exists_cons_of_ne_nil (List.ne_nil_of_length_pos (by omega : 0 < ws.length))
  rw [List.length_cons] at hlen
  obtain ⟨tok', h⟩ := @pton6Loop_groups _ [] tok none [] _ hw (by simp; omega)
  rw [List.append_nil, List.nil_append] at h
  have hb := bytesOf_getLast (List.cons_ne_nil w ws)
  have hl := length_bytesOf (w :: ws)
  rw [List.length_cons] at hl
  simp only [h, pton6Loop, pton6End]
  rw [if_pos (List.length_pos_iff.mpr numeral_ne_nil), hb, if_neg (by omega), if_pos (by omega)]

theorem pton6Loop_split {ws vs : List ℕ} (hw : ∀ v ∈ ws, v < 65536) (hv : ∀ v ∈ vs, v < 65536) (hws : ws ≠ [])
    (hvs : vs ≠ []) (hlen : ws.length + vs.length < 8) :
    pton6Loop (groups ws ++ [58, 58] ++ groups vs) tok 0 0 none [] =
      some (bytesOf ws ++ List.replicate (16 - 2 * (ws.length + vs.length)) 0 ++ bytesOf vs) := by
  obtain ⟨w, ws, rfl⟩ := List.exists_cons_of_ne_nil hws
  obtain ⟨v, vs, rfl⟩ := List.exists_cons_of_ne_nil hvs
  rw [List.length_cons, List.length_cons] at hlen
  obtain ⟨tok', h⟩ := @pton6Loop_groups _ ([58, 58] ++ groups (v :: vs)) tok none [] _ hw (by simp; omega)
  have hb := bytesOf_getLast (List.cons_ne_nil w ws)
  have hb' := bytesOf_getLast (List.cons_ne_nil v vs)
  have hl := length_bytesOf (w :: ws)
  have hl' := length_bytesOf (v :: vs)
  have hroom : (bytesOf (w :: ws)).length + 2 * vs.length ≤ 16 := by
    rw [hl, List.length_cons]
    omega
  obtain ⟨tok'', h'⟩ := @pton6Loop_groups _ [] (groups (v :: vs)) (some (bytesOf (w :: ws)).length)
    (bytesOf (w :: ws)) _ hv hroom
  rw [List.append_nil] at h'
  rw [List.length_cons] at hl hl'
  have hpos := List.length_pos_iff.mpr (numeral_ne_nil (b := 16) (n := (w :: ws).getLast (by simp)))
  rw [List.append_assoc, h, List.nil_append, List.cons_append, pton6Loop, show hexDigit 58 = none by decide]
  simp only [beq_self_eq_true, if_true]
  rw [if_neg (by omega), if_neg (by simp [length_bytesOf]; omega), hb, List.cons_append, List.nil_append, pton6Loop,
    show hexDigit 58 = none by decide]
  simp only [beq_self_eq_true, if_true, Option.isSome_none, Bool.false_eq_true, if_false]
  simp only [h', pton6Loop, pton6End]
  rw [if_pos (List.length_pos_iff.mpr numeral_ne_nil), List.append_assoc, hb',
    if_neg (by rw [List.length_append]; omega), if_neg (by rw [List.length_append]; omega)]
  rw [List.take_left, List.drop_left, List.length_append, hl, hl', List.length_cons, List.length_cons,
    show 16 - (2 * (ws.length + 1) + 2 * (vs.length + 1)) = 16 - 2 * (ws.length + 1 + (vs.length + 1)) by omega]

end Parse

theorem hextets_lt (a : In6Addr) : ∀ v ∈ hextets a, v < 65536 := by
  intro v hv
  obtain ⟨w, -, hv⟩ := List.mem_flatMap.mp hv
  have := w.toNat_lt
  simp only [List.mem_cons, List.not_mem_nil, or_false] at hv
  rcases hv with rfl | rfl <;> omega

theorem words_hextets (a : In6Addr) : (⟨word (bytesOf (hextets a)) 0, word (bytesOf (hextets a)) 4,
    word (bytesOf (hextets a)) 8, word (bytesOf (hextets a)) 12⟩ : In6Addr) = a := by
  have h : ∀ w : UInt32, UInt32.ofNat (((w.toNat % 2 ^ 8 * 256 + w.toNat / 2 ^ 8 % 2 ^ 8) / 256) +
      2 ^ 8 * ((w.toNat % 2 ^ 8 * 256 + w.toNat / 2 ^ 8 % 2 ^ 8) % 256) +
      2 ^ 16 * ((w.toNat / 2 ^ 16 % 2 ^ 8 * 256 + w.toNat / 2 ^ 24) / 256) +
      2 ^ 24 * ((w.toNat / 2 ^ 16 % 2 ^ 8 * 256 + w.toNat / 2 ^ 24) % 256)) = w := by
    intro w
    have hlt := w.toNat_lt
    have hpair : ∀ x y : ℕ, y < 256 → (x * 256 + y) / 256 = x ∧ (x * 256 + y) % 256 = y := by omega
    obtain ⟨h₁, h₂⟩ := hpair (w.toNat % 2 ^ 8) (w.toNat / 2 ^ 8 % 2 ^ 8) (by omega)
    obtain ⟨h₃, h₄⟩ := hpair (w.toNat / 2 ^ 16 % 2 ^ 8) (w.toNat / 2 ^ 24) (by omega)
    rw [← UInt32.toNat_inj, UInt32.toNat_ofNat', h₁, h₂, h₃, h₄]
    omega
  obtain ⟨w₀, w₁, w₂, w₃⟩ := a
  simp only [hextets, bytesOf, word, List.flatMap_cons, List.flatMap_nil, List.cons_append, List.nil_append,
    List.append_nil, List.getD_cons_zero, List.getD_cons_succ, h]

theorem groups_chars {ws : List ℕ} {c : UInt8} (h : c ∈ groups ws) : (hexDigit c).isSome ∨ c = 58 := by
  induction ws with
  | nil => cases h
  | cons w ws ih =>
    cases ws with
    | nil =>
      rw [groups_one] at h
      exact .inl (hexDigit_numeral (by omega) le_rfl h)
    | cons v ws =>
      rw [groups_cons] at h
      rcases List.mem_append.mp h with h | h
      · exact .inl (hexDigit_numeral (by omega) le_rfl h)
      · rcases List.mem_cons.mp h with rfl | h
        · exact .inr rfl
        · exact ih h

theorem getString_chars {a : IPv4Addr} {c : UInt8} (h : c ∈ a.getString) : (hexDigit c).isSome ∨ c = 46 := by
  have hd : ∀ n, c ∈ decimal n → (hexDigit c).isSome := fun n h ↦
    hexDigit_numeral (b := 10) (by omega) (by omega) h
  simp only [IPv4Addr.getString, wordBytes, List.intercalate, List.map_cons, List.map_nil, List.intersperse_cons_cons,
    List.intersperse_singleton, List.flatten_cons, List.flatten_nil, List.append_nil, List.mem_append,
    List.mem_singleton] at h
  rcases h with h | h | h | h | h | h | h
  · exact .inl (hd _ h)
  · exact .inr h
  · exact .inl (hd _ h)
  · exact .inr h
  · exact .inl (hd _ h)
  · exact .inr h
  · exact .inl (hd _ h)

theorem length_decimal_pos (n : ℕ) : 0 < (decimal n).length :=
  List.length_pos_iff.mpr (numeral_ne_nil (b := 10) (n := n))

theorem length_getString (a : IPv4Addr) : 7 ≤ a.getString.length := by
  have h := length_decimal_pos
  simp only [IPv4Addr.getString, wordBytes, List.intercalate, List.map_cons, List.map_nil,
    List.intersperse_cons_cons, List.intersperse_singleton, List.flatten_cons, List.flatten_nil, List.append_nil,
    List.length_append, List.length_singleton]
  have h₀ := h (a.ip_.toNat % 2 ^ 8)
  have h₁ := h (a.ip_.toNat / 2 ^ 8 % 2 ^ 8)
  have h₂ := h (a.ip_.toNat / 2 ^ 16 % 2 ^ 8)
  have h₃ := h (a.ip_.toNat / 2 ^ 24)
  omega

theorem getString_ne_nil {a : IPv4Addr} : a.getString ≠ [] :=
  List.ne_nil_of_length_pos (by have := length_getString a; omega)

theorem ntop6_chars {a : In6Addr} {c : UInt8} (h : c ∈ inet_ntop6 a) :
    (hexDigit c).isSome ∨ c = 58 ∨ c = 46 := by
  have hgroups : ∀ ws, c ∈ groups ws → (hexDigit c).isSome ∨ c = 58 ∨ c = 46 := fun ws h ↦
    (groups_chars h).imp_right .inl
  have hcolons : c ∈ ([58, 58] : Text) → (hexDigit c).isSome ∨ c = 58 ∨ c = 46 := fun h ↦ .inr (.inl (by simpa using h))
  unfold inet_ntop6 at h
  dsimp only at h
  split at h
  case isTrue => exact hgroups _ h
  case isFalse =>
    split at h
    case isTrue =>
      rcases List.mem_append.mp h with h | h
      · rcases List.mem_append.mp h with h | h
        · exact hcolons h
        · split at h
          case isTrue =>
            rcases List.mem_append.mp h with h | h
            · exact .inl (hexDigit_numeral (by omega) le_rfl h)
            · exact .inr (.inl (List.mem_singleton.mp h))
          case isFalse => cases h
      · exact (getString_chars h).imp_right .inr
    case isFalse =>
      rcases List.mem_append.mp h with h | h
      · rcases List.mem_append.mp h with h | h
        · exact hgroups _ h
        · exact hcolons h
      · exact hgroups _ h

/-- Only decimal digits and colons, with a digit at either end. -/
structure DecimalText (t : Text) : Prop where
  chars : ∀ c ∈ t, isDigit c = true ∨ c = 58
  head : ∀ c ∈ t.head?, isDigit c = true
  last : ∀ c ∈ t.getLast?, isDigit c = true

theorem decimalText_iff (t : Text) : (t.all (fun c ↦ isDigit c || c == 58) = true ∧ t.head?.all isDigit = true ∧
    t.getLast?.all isDigit = true) ↔ DecimalText t := by
  simp only [List.all_eq_true, Bool.or_eq_true, beq_iff_eq, Option.all_eq_true]
  exact ⟨fun ⟨h₁, h₂, h₃⟩ ↦ ⟨h₁, h₂, h₃⟩, fun ⟨h₁, h₂, h₃⟩ ↦ ⟨h₁, h₂, h₃⟩⟩

instance (t : Text) : Decidable (DecimalText t) := decidable_of_iff _ (decimalText_iff t)

theorem ntop6_cases {a : In6Addr} (h : DecimalText (inet_ntop6 a)) :
    inet_ntop6 a = groups (hextets a) ∨ ∃ i n, 0 < i ∧ 0 < n ∧ i + n < 8 ∧
      ((hextets a).drop i).take n = List.replicate n 0 ∧
      inet_ntop6 a = groups ((hextets a).take i) ++ [58, 58] ++ groups ((hextets a).drop (i + n)) := by
  obtain ⟨-, hlen, hzero⟩ := bestRun_zeros 0 (hextets a)
  have h58 : isDigit 58 = false := by decide
  unfold inet_ntop6 at h ⊢
  dsimp only at h ⊢
  split
  case isTrue => exact .inl rfl
  case isFalse hn =>
    rw [if_neg hn] at h
    rw [Nat.sub_zero] at hlen hzero
    have hl : (hextets a).length = 8 := rfl
    split
    case isTrue he =>
      rw [if_pos he] at h
      have := h.head 58 (by simp)
      rw [h58] at this
      cases this
    case isFalse he =>
      rw [if_neg he] at h
      refine .inr ⟨_, _, Nat.pos_of_ne_zero fun h₀ ↦ ?_, by omega, ?_, hzero, rfl⟩
      · rw [h₀] at h
        have := h.head 58 (by simp [groups, List.intercalate])
        rw [h58] at this
        cases this
      · by_contra hge
        have hend : (hextets a).drop ((bestRun 0 (hextets a)).1 + (bestRun 0 (hextets a)).2) = [] :=
          List.drop_eq_nil_of_le (by omega)
        rw [hend] at h
        have := h.last 58 (by simp [groups, List.intercalate])
        rw [h58] at this
        cases this

theorem pton6_ntop6 {a : In6Addr} (h : DecimalText (inet_ntop6 a)) : inet_pton6 (inet_ntop6 a) = some a := by
  have hne : inet_ntop6 a ≠ [] := by
    intro he
    rcases ntop6_cases h with hc | ⟨i, n, -, -, -, -, hc⟩
    · rw [he] at hc
      have := congrArg List.length hc
      simp [groups, List.intercalate, hextets, numeral_ne_nil] at hc
    · rw [he] at hc
      simp at hc
  have hbytes : pton6Loop (inet_ntop6 a) (inet_ntop6 a) 0 0 none [] = some (bytesOf (hextets a)) := by
    rcases ntop6_cases h with hc | ⟨i, n, hi, hn, hin, hzero, hc⟩
    · rw [hc]
      exact pton6Loop_whole (hextets_lt a) rfl
    · have hl : (hextets a).length = 8 := rfl
      rw [hc, pton6Loop_split (fun v hv ↦ hextets_lt a v (List.mem_of_mem_take hv))
        (fun v hv ↦ hextets_lt a v (List.mem_of_mem_drop hv))
        (List.ne_nil_of_length_pos (by rw [List.length_take]; omega))
        (List.ne_nil_of_length_pos (by rw [List.length_drop]; omega))
        (by rw [List.length_take, List.length_drop]; omega)]
      have hsplit : hextets a = (hextets a).take i ++ List.replicate n 0 ++ (hextets a).drop (i + n) := by
        rw [← hzero, List.append_assoc, ← List.drop_drop, List.take_append_drop, List.take_append_drop]
      have hrep : bytesOf (List.replicate n 0) = List.replicate (2 * n) 0 := by
        clear hn hin hzero hc hsplit
        induction n with
        | zero => rfl
        | succ n ih =>
          rw [List.replicate_succ, bytesOf, List.flatMap_cons, ← bytesOf, ih, Nat.mul_succ, Nat.add_comm,
            List.replicate_add]
          rfl
      conv_rhs => rw [hsplit]
      rw [bytesOf, bytesOf, bytesOf, List.flatMap_append, List.flatMap_append, ← bytesOf, ← bytesOf, ← bytesOf, hrep,
        List.length_take, List.length_drop,
        show 16 - 2 * (min i (hextets a).length + ((hextets a).length - (i + n))) = 2 * n by omega]
  obtain ⟨c, cs, hc⟩ := List.exists_cons_of_ne_nil hne
  have hhead : c ≠ 58 := by
    rintro rfl
    have := h.head 58 (by simp [hc])
    exact absurd this (by decide)
  have hstart : inet_pton6 (inet_ntop6 a) = (pton6Loop (inet_ntop6 a) (inet_ntop6 a) 0 0 none []).map
      (fun bs ↦ ⟨word bs 0, word bs 4, word bs 8, word bs 12⟩) := by
    unfold inet_pton6
    rw [hc]
    split
    case h_1 he => cases he
    case h_2 he => exact absurd (List.cons.inj he).1 hhead
    case h_3 => rfl
  rw [hstart, hbytes]
  exact congrArg some (words_hextets a)

end Nat64Alg
