import Mathlib.Data.List.TakeWhile
import Mathlib.Order.Basic

namespace Nat64Alg.Lib

/-- How a body in chunks is framed: the digits of the sizes, the mark before an extension
of a size, and the two characters that end a line. -/
structure Framing (α : Type*) where
  base : ℕ
  digit : α → Option ℕ
  ext : α
  cr : α
  lf : α
  cr_digit : digit cr = none

namespace Framing

variable {α : Type*} [DecidableEq α]

section Reader

variable (f : Framing α)

def readLine : List α → Option (List α × List α)
  | [] => none
  | c :: cs =>
    if c = f.cr ∧ cs.head? = some f.lf then some ([], cs.tail)
    else (readLine cs).map (fun r ↦ (c :: r.1, r.2))

def value (ds : List α) : ℕ := ds.foldl (fun n c ↦ n * f.base + (f.digit c).getD 0) 0

/-- The size a line gives: digits, and then nothing or an extension. -/
def size (line : List α) : Option ℕ :=
  let ds := line.takeWhile (fun c ↦ (f.digit c).isSome)
  let tail := line.dropWhile (fun c ↦ (f.digit c).isSome)
  if ds = [] then none
  else if tail = [] ∨ tail.head? = some f.ext then some (f.value ds)
  else none

def readTrailer : ℕ → List α → Option (List α)
  | 0, _ => none
  | n + 1, s =>
    match f.readLine s with
    | none => none
    | some (line, rest) => if line = [] then some rest else readTrailer n rest

def readChunks : ℕ → List α → Option (List α × List α)
  | 0, _ => none
  | n + 1, s =>
    match f.readLine s with
    | none => none
    | some (line, rest) =>
      match f.size line with
      | none => none
      | some 0 => (f.readTrailer (rest.length + 1) rest).map (fun r ↦ ([], r))
      | some (k + 1) =>
        -- a chunk that ends early has no line break behind its data
        if (rest.drop (k + 1)).take 2 = [f.cr, f.lf] then
          (readChunks n (rest.drop (k + 3))).map (fun r ↦ (rest.take (k + 1) ++ r.1, r.2))
        else none

/-- A body read to its end, and what is left over behind it. -/
def decode (s : List α) : Option (List α × List α) := f.readChunks (s.length + 1) s

end Reader

section Writer

variable (f : Framing α) (numeral : ℕ → List α)

def lineBreak : List α := [f.cr, f.lf]

def chunk (c : List α) : List α := numeral c.length ++ f.lineBreak ++ c ++ f.lineBreak

def lastChunk : List α := numeral 0 ++ f.lineBreak ++ f.lineBreak

def encode (cs : List (List α)) : List α := cs.flatMap (f.chunk numeral) ++ f.lastChunk numeral

/-- The numerals are made of digits and read back as the numbers they stand for. -/
structure Prints : Prop where
  ne_nil : ∀ n, numeral n ≠ []
  digits : ∀ n, ∀ c ∈ numeral n, (f.digit c).isSome = true
  value : ∀ n, f.value (numeral n) = n

end Writer

variable {f : Framing α} {numeral : ℕ → List α}

theorem readLine_append {line : List α} (h : f.cr ∉ line) (rest : List α) :
    f.readLine (line ++ f.lineBreak ++ rest) = some (line, rest) := by
  induction line with
  | nil => simp [readLine, lineBreak]
  | cons c cs ih =>
    rw [List.mem_cons, not_or] at h
    simp only [List.cons_append, readLine]
    rw [if_neg (fun hc ↦ h.1 hc.1.symm), ih h.2, Option.map_some]

theorem Prints.readLine (h : f.Prints numeral) (n : ℕ) (rest : List α) :
    f.readLine (numeral n ++ f.lineBreak ++ rest) = some (numeral n, rest) := by
  refine readLine_append (fun hcr ↦ ?_) rest
  have := h.digits n _ hcr
  rw [f.cr_digit] at this
  cases this

theorem Prints.size (h : f.Prints numeral) (n : ℕ) : f.size (numeral n) = some n := by
  have htake : (numeral n).takeWhile (fun c ↦ (f.digit c).isSome) = numeral n :=
    List.takeWhile_eq_self_iff.mpr (h.digits n)
  have hdrop : (numeral n).dropWhile (fun c ↦ (f.digit c).isSome) = [] :=
    List.dropWhile_eq_nil_iff.mpr (h.digits n)
  simp only [Framing.size, htake, hdrop, if_neg (h.ne_nil n), true_or, if_true, h.value]

theorem Prints.readChunks_last (h : f.Prints numeral) (n : ℕ) (rest : List α) :
    f.readChunks (n + 1) (f.lastChunk numeral ++ rest) = some ([], rest) := by
  have hline := h.readLine 0 (f.lineBreak ++ rest)
  have htrailer : f.readTrailer ((f.lineBreak ++ rest).length + 1) (f.lineBreak ++ rest) = some rest := by
    have := @readLine_append _ _ f [] List.not_mem_nil rest
    rw [List.nil_append] at this
    simp only [readTrailer, this, if_true]
  rw [lastChunk, List.append_assoc]
  simp only [readChunks, hline, h.size, htrailer, Option.map_some]

theorem Prints.readChunks_chunk (h : f.Prints numeral) {c : List α} (hc : c ≠ []) (n : ℕ) (rest : List α) :
    f.readChunks (n + 1) (f.chunk numeral c ++ rest) = (f.readChunks n rest).map (fun r ↦ (c ++ r.1, r.2)) := by
  have hline := h.readLine c.length (c ++ f.lineBreak ++ rest)
  obtain ⟨k, hk⟩ := Nat.exists_eq_succ_of_ne_zero (Nat.ne_of_gt (List.length_pos_iff.mpr hc))
  have hsize : f.size (numeral c.length) = some (k + 1) := (h.size c.length).trans (congrArg some hk)
  have hdata : (c ++ f.lineBreak ++ rest).drop (k + 1) = f.lineBreak ++ rest := by
    rw [← Nat.succ_eq_add_one, ← hk, List.append_assoc, List.drop_left]
  have htake : (c ++ f.lineBreak ++ rest).take (k + 1) = c := by
    rw [← Nat.succ_eq_add_one, ← hk, List.append_assoc, List.take_left]
  have hrest : (c ++ f.lineBreak ++ rest).drop (k + 3) = rest := by
    rw [show k + 3 = k + 1 + 2 from rfl, ← List.drop_drop, hdata]
    rfl
  have hbreak : (f.lineBreak ++ rest).take 2 = [f.cr, f.lf] := rfl
  rw [chunk, List.append_assoc (numeral c.length ++ f.lineBreak), List.append_assoc (numeral c.length ++ f.lineBreak)]
  simp only [readChunks, hline, hsize, hdata, hbreak, if_true, hrest, htake]

theorem Prints.readChunks_encode (h : f.Prints numeral) {cs : List (List α)} (hcs : ∀ c ∈ cs, c ≠ []) (n : ℕ)
    (hn : cs.length < n) (rest : List α) : f.readChunks n (f.encode numeral cs ++ rest) = some (cs.flatten, rest) := by
  induction cs generalizing n with
  | nil =>
    cases n with
    | zero => cases hn
    | succ n => exact h.readChunks_last n rest
  | cons c cs ih =>
    rw [List.forall_mem_cons] at hcs
    cases n with
    | zero => cases hn
    | succ n =>
      have hcons : f.encode numeral (c :: cs) ++ rest = f.chunk numeral c ++ (f.encode numeral cs ++ rest) := by
        simp only [encode, List.flatMap_cons, List.append_assoc]
      rw [hcons, h.readChunks_chunk hcs.1, ih hcs.2 n (Nat.lt_of_succ_lt_succ hn)]
      rfl

omit [DecidableEq α] in
theorem length_encode (cs : List (List α)) : cs.length ≤ (f.encode numeral cs).length := by
  induction cs with
  | nil => exact Nat.zero_le _
  | cons c cs ih =>
    simp only [encode, List.flatMap_cons, chunk, lineBreak, List.length_append, List.length_cons] at ih ⊢
    omega

theorem Prints.decode_encode (h : f.Prints numeral) {cs : List (List α)} (hcs : ∀ c ∈ cs, c ≠ []) (rest : List α) :
    f.decode (f.encode numeral cs ++ rest) = some (cs.flatten, rest) := by
  have hlen := @length_encode _ f numeral cs
  refine h.readChunks_encode hcs _ ?_ rest
  rw [List.length_append]
  omega

end Framing

end Nat64Alg.Lib
