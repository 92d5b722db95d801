import Nat64Alg.AddrText
import Mathlib.Data.List.TakeWhile

namespace Nat64Alg.Literal

open Lib

section Parse

variable (buf : Mem) (len : Int)

/-- `buf[i]`, which is only there inside the first `len` bytes. -/
def byte (i : Int) : Option UInt8 := if 0 ≤ i ∧ i < len then some (buf i) else none

/-- The tests of `buf[i]` and what follows it against a text, up to the first that fails. -/
def same (i : Int) : Text → Option Bool
  | [] => some true
  | c :: cs => (byte buf len i).bind (fun b ↦ if b = c then same (i + 1) cs else some false)

/-- `for (t = 0; t < 3; ++t)` over digits, with the rounds that are left. -/
def digits (j : Int) : ℕ → ℕ → Option ℕ
  | 0, t => some t
  | n + 1, t =>
    if len ≤ j + t then some t
    else (byte buf len (j + t)).bind (fun c ↦ if isDigit c then digits j n (t + 1) else some t)

/-- One of the groups before a dot. Where the source goes on with the next position it is `none`. -/
def group (j : Int) : Option (Option Int) :=
  (digits buf len j 3 0).bind (fun t ↦
    if t = 0 then some none
    else if len ≤ j + t then some none
    else (byte buf len (j + t)).bind (fun c ↦
      if c ≠ 46 then some none
      else if len ≤ j + t + 1 then some none
      else some (some (j + t + 1))))

def lastGroup (j : Int) : Option Bool := (digits buf len j 3 0).map (fun t ↦ decide (t ≠ 0))

/-- The groups from a position on, as many before dots as are left and then the last. -/
def groups : ℕ → Int → Option Bool
  | 0, j => lastGroup buf len j
  | n + 1, j => (group buf len j).bind (fun r ↦
    match r with
    | some j => groups n j
    | none => some false)

def found (i : Int) : Option Bool :=
  (same buf len i (text "http://")).bind (fun b ↦ if b then groups buf len 3 (i + 7) else some false)

/-- The loop from `i` on, with the rounds that are left. -/
def parseFrom : ℕ → Int → Option Int
  | 0, _ => some 0
  | n + 1, i => (found buf len i).bind (fun b ↦ if b then some 1 else parseFrom n (i + 1))

/-- `for (int i = 0; i + 13 < len; ++i)` -/
def parse : Option Int := parseFrom buf len (len - 13).toNat 0

end Parse

def Group (g : Text) : Prop := 0 < g.length ∧ g.length ≤ 3 ∧ ∀ c ∈ g, isDigit c = true

def Dotted : ℕ → Text → Prop
  | 0, u => ∃ d post, u = d :: post ∧ isDigit d = true
  | n + 1, u => ∃ g rest, u = g ++ 46 :: rest ∧ Group g ∧ Dotted n rest

/-- A position of the text where a URL with a literal IPv4 address stands. -/
def HasLiteral (u : Text) : Prop := ∃ pre rest, u = pre ++ (text "http://" ++ rest) ∧ Dotted 3 rest

section Spec

variable {buf : Mem} {len : Int}

def left (buf : Mem) (len j : Int) : Text := buf.slice j (len - j).toNat

theorem left_nil {j : Int} (h : len ≤ j) : left buf len j = [] := by
  rw [left, show (len - j).toNat = 0 by omega]
  rfl

theorem left_cons {j : Int} (h : j < len) : left buf len j = buf j :: left buf len (j + 1) := by
  obtain ⟨n, hn⟩ : ∃ n, (len - j).toNat = n + 1 := ⟨(len - j).toNat - 1, by omega⟩
  rw [left, left, hn, show (len - (j + 1)).toNat = n by omega, Nat.add_comm, Mem.slice_append]
  simp [Mem.slice]

theorem byte_some {j : Int} (h₀ : 0 ≤ j) (h : j < len) : byte buf len j = some (buf j) := if_pos ⟨h₀, h⟩

theorem digits_spec {j : Int} (hj : 0 ≤ j) (n t : ℕ) : digits buf len j n t =
    some (t + (((left buf len (j + t)).take n).takeWhile isDigit).length) := by
  induction n generalizing t with
  | zero => rfl
  | succ n ih =>
    rw [digits]
    split
    case isTrue h => simp [left_nil h]
    case isFalse h =>
      rw [byte_some (by omega) (by omega), left_cons (by omega), Option.bind_some, List.take_succ_cons]
      split
      case isTrue hd =>
        have hnext : j + ((t + 1 : ℕ) : Int) = j + t + 1 := by omega
        rw [ih, List.takeWhile_cons_of_pos hd, List.length_cons, hnext, Nat.add_assoc, Nat.add_comm 1]
      case isFalse hd => rw [List.takeWhile_cons_of_neg hd, List.length_nil, Nat.add_zero]

theorem left_drop (j : Int) (k : ℕ) : left buf len (j + k) = (left buf len j).drop k := by
  rcases Nat.lt_or_ge (len - j).toNat k with hk | hk
  · rw [left_nil (by omega), List.drop_eq_nil_of_le (by simp [left]; omega)]
  · rw [left, left, Mem.drop_slice _ _ _ _ hk, show (len - (j + k)).toNat = (len - j).toNat - k by omega]

theorem Group.run {g rest : Text} (h : Group g) : ((g ++ 46 :: rest).take 3).takeWhile isDigit = g := by
  obtain ⟨-, hle, hdigit⟩ := h
  rw [List.take_append, List.take_of_length_le hle, List.takeWhile_append_of_pos hdigit]
  cases 3 - g.length with
  | zero => simp
  | succ n => rw [List.take_succ_cons, List.takeWhile_cons_of_neg (by decide), List.append_nil]

theorem Group.unique {g g' rest rest' : Text} (h : Group g) (h' : Group g') (he : g ++ 46 :: rest = g' ++ 46 :: rest') :
    rest = rest' := by
  have hg : g = g' := by rw [← @Group.run g rest h, he, h'.run]
  subst hg
  simpa using he

theorem group_spec {j : Int} (hj : 0 ≤ j) :
    (∃ j', 0 ≤ j' ∧ group buf len j = some (some j') ∧ ∃ g, Group g ∧ left buf len j = g ++ 46 :: left buf len j') ∨
    group buf len j = some none ∧ ∀ g rest, Group g → left buf len j = g ++ 46 :: rest → rest = [] := by
  have hdig := @digits_spec buf len j hj 3 0
  rw [Nat.zero_add, Int.natCast_zero, Int.add_zero] at hdig
  set u := left buf len j with hu
  set t := ((u.take 3).takeWhile isDigit).length with ht
  have hleft : left buf len (j + t) = u.drop t := left_drop j t
  -- a group before a dot is what the loop ran over
  have hrun : ∀ g rest, Group g → u = g ++ 46 :: rest → t = g.length ∧ u.drop t = 46 :: rest := by
    rintro g rest hg he
    have : t = g.length := by rw [ht, he, hg.run]
    exact ⟨this, by rw [this, he, List.drop_left]⟩
  unfold group
  rw [hdig, Option.bind_some]
  split
  case isTrue h₀ =>
    refine .inr ⟨rfl, fun g rest hg he ↦ ?_⟩
    have := (hrun g rest hg he).1
    have := hg.1
    omega
  case isFalse h₀ =>
    split
    case isTrue hend =>
      refine .inr ⟨rfl, fun g rest hg he ↦ ?_⟩
      rw [left_nil hend, (hrun g rest hg he).2] at hleft
      cases hleft
    case isFalse hend =>
      rw [byte_some (by omega) (by omega), Option.bind_some]
      rw [left_cons (by omega)] at hleft
      split
      case isTrue hdot =>
        refine .inr ⟨rfl, fun g rest hg he ↦ ?_⟩
        rw [(hrun g rest hg he).2] at hleft
        exact absurd (List.cons.inj hleft).1 hdot
      case isFalse hdot =>
        rw [not_not] at hdot
        rw [hdot] at hleft
        split
        case isTrue hlast =>
          refine .inr ⟨rfl, fun g rest hg he ↦ ?_⟩
          rw [(hrun g rest hg he).2, left_nil hlast] at hleft
          exact (List.cons.inj hleft).2.symm
        case isFalse hlast =>
          refine .inl ⟨j + t + 1, by omega, rfl, (u.take 3).takeWhile isDigit, ⟨by omega, ?_, ?_⟩, ?_⟩
          · have := (@List.takeWhile_sublist _ (u.take 3) isDigit).length_le
            have := List.length_take_le 3 u
            omega
          · exact fun c hc ↦ List.mem_takeWhile_imp hc
          · have hpre : (u.take 3).takeWhile isDigit = u.take t := by
              have hpre : (u.take 3).takeWhile isDigit <+: u :=
                (List.takeWhile_prefix _).trans (List.take_prefix 3 u)
              exact List.prefix_iff_eq_take.mp hpre
            rw [hpre, hleft, List.take_append_drop]

theorem groups_spec (n : ℕ) {j : Int} (hj : 0 ≤ j) :
    ∃ b, groups buf len n j = some b ∧ (b = true ↔ Dotted n (left buf len j)) := by
  induction n generalizing j with
  | zero =>
    refine ⟨_, by rw [groups, lastGroup, digits_spec hj]; rfl, ?_⟩
    rw [decide_eq_true_iff, Nat.zero_add, Int.natCast_zero, Int.add_zero, Dotted]
    cases left buf len j with
    | nil => simp
    | cons c u => cases hc : isDigit c <;> simp [hc]
  | succ n ih =>
    rcases @group_spec buf len j hj with ⟨j', hj', hg, g, hgroup, hleft⟩ | ⟨hg, hno⟩
    · obtain ⟨b, hb, hiff⟩ := ih hj'
      refine ⟨b, by rw [groups, hg]; exact hb, hiff.trans ⟨fun h ↦ ⟨g, _, hleft, hgroup, h⟩, ?_⟩⟩
      rintro ⟨g', rest, he, hgroup', h⟩
      rwa [hgroup.unique hgroup' (hleft.symm.trans he)]
    · refine ⟨false, by rw [groups, hg, Option.bind_some], by simp, ?_⟩
      rintro ⟨g, rest, he, hgroup, h⟩
      rw [hno g rest hgroup he] at h
      cases n with
      | zero =>
        obtain ⟨d, post, hd, -⟩ := h
        cases hd
      | succ n =>
        obtain ⟨g', rest', hd, -⟩ := h
        exact absurd hd.symm (by simp)

theorem same_spec (w : Text) {i : Int} (hi : 0 ≤ i) (hlen : i + w.length ≤ len) :
    ∃ b, same buf len i w = some b ∧ (b = true ↔ w <+: left buf len i) := by
  induction w generalizing i with
  | nil => exact ⟨true, rfl, by simp⟩
  | cons c w ih =>
    rw [List.length_cons] at hlen
    rw [same, byte_some hi (by omega), Option.bind_some, left_cons (by omega), List.cons_prefix_cons]
    split
    case isTrue hc =>
      obtain ⟨b, hb, hiff⟩ := ih (i := i + 1) (by omega) (by omega)
      exact ⟨b, hb, hiff.trans (by simp [hc])⟩
    case isFalse hc => exact ⟨false, rfl, by simp [Ne.symm hc]⟩

theorem found_spec {i : Int} (hi : 0 ≤ i) (hlen : i + 13 < len) :
    ∃ b, found buf len i = some b ∧
      (b = true ↔ ∃ rest, left buf len i = text "http://" ++ rest ∧ Dotted 3 rest) := by
  obtain ⟨b, hb, hiff⟩ := @same_spec buf len (text "http://") i hi (by simp [text]; omega)
  have hdrop : left buf len (i + 7) = (left buf len i).drop 7 := left_drop i 7
  rw [found, hb, Option.bind_some]
  split
  case isTrue h =>
    obtain ⟨rest, hrest⟩ := hiff.mp h
    obtain ⟨b', hb', hiff'⟩ := @groups_spec buf len 3 (i + 7) (by omega)
    have hseven : left buf len (i + 7) = rest := by rw [hdrop, ← hrest]; rfl
    refine ⟨b', hb', hiff'.trans ⟨fun hd ↦ ⟨rest, hrest.symm, hseven ▸ hd⟩, ?_⟩⟩
    rintro ⟨rest', he, hd⟩
    rw [hseven, List.append_cancel_left (hrest.trans he)]
    exact hd
  case isFalse h =>
    refine ⟨false, rfl, by simp, ?_⟩
    rintro ⟨rest, he, -⟩
    exact absurd (hiff.mpr ⟨rest, he.symm⟩) h

theorem Dotted.length (n : ℕ) {u : Text} (h : Dotted n u) : 2 * n < u.length := by
  induction n generalizing u with
  | zero =>
    obtain ⟨d, post, rfl, -⟩ := h
    simp
  | succ n ih =>
    obtain ⟨g, rest, rfl, ⟨hpos, -⟩, h⟩ := h
    have := ih h
    rw [List.length_append, List.length_cons]
    omega

theorem parseFrom_spec (n : ℕ) {i : Int} (hi : 0 ≤ i) (hn : i + 13 + n ≤ max len (i + 13)) :
    ∃ r, parseFrom buf len n i = some r ∧ (r = 0 ∨ r = 1) ∧ (r = 1 ↔ ∃ k < n, ∃ rest,
      left buf len (i + k) = text "http://" ++ rest ∧ Dotted 3 rest) := by
  induction n generalizing i with
  | zero => exact ⟨0, rfl, .inl rfl, by simp⟩
  | succ n ih =>
    obtain ⟨b, hb, hiff⟩ := @found_spec buf len i hi (by omega)
    rw [parseFrom, hb, Option.bind_some]
    split
    case isTrue h =>
      obtain ⟨rest, hrest⟩ := hiff.mp h
      refine ⟨1, rfl, .inr rfl, fun _ ↦ ⟨0, by omega, rest, ?_⟩, fun _ ↦ rfl⟩
      simpa using hrest
    case isFalse h =>
      obtain ⟨r, hr, hr01, hriff⟩ := ih (i := i + 1) (by omega) (by omega)
      have hstep : ∀ k : ℕ, i + 1 + k = i + ((k + 1 : ℕ) : Int) := fun k ↦ by omega
      simp only [hstep] at hriff
      refine ⟨r, hr, hr01, hriff.trans ⟨?_, ?_⟩⟩
      · rintro ⟨k, hk, hrest⟩
        exact ⟨k + 1, by omega, hrest⟩
      · rintro ⟨k, hk, rest, hrest⟩
        cases k with
        | zero => exact absurd (hiff.mpr ⟨rest, by simpa using hrest⟩) h
        | succ k => exact ⟨k, by omega, rest, hrest⟩

end Spec

/-- The scan stays inside the buffer and finds a literal URL exactly where there is one. -/
theorem parse_spec (buf : Mem) (len : Int) : ∃ r, parse buf len = some r ∧ (r = 0 ∨ r = 1) ∧
    (r = 1 ↔ HasLiteral (buf.slice 0 len.toNat)) := by
  obtain ⟨r, hr, hr01, hiff⟩ := @parseFrom_spec buf len (len - 13).toNat 0 (by omega) (by omega)
  have hall : buf.slice 0 len.toNat = left buf len 0 := by rw [left, Int.sub_zero]
  refine ⟨r, hr, hr01, hiff.trans ⟨?_, ?_⟩⟩
  · rintro ⟨k, -, rest, hrest, hd⟩
    rw [left_drop, ← hall] at hrest
    exact ⟨_, rest, by rw [← hrest, List.take_append_drop], hd⟩
  · rintro ⟨pre, rest, he, hd⟩
    have hlen := congrArg List.length he
    have := hd.length
    simp only [Mem.length_slice, List.length_append] at hlen
    have hseven : (text "http://").length = 7 := rfl
    refine ⟨pre.length, by omega, rest, ?_, hd⟩
    rw [left_drop, ← hall, he, List.drop_left]

example : parse (Mem.ofList (text "xhttp://10.1.2.3/")) 17 = some 1 := by decide

example : parse (Mem.ofList (text "xhttp://10.1.2.3/")) 15 = some 0 := by decide

end Nat64Alg.Literal
