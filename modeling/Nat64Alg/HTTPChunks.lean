import Nat64Alg.HTTPParser
import Nat64Alg.AddrPrint
import Nat64Alg.Limit
import Nat64Alg.Lib.Chunked

namespace Nat64Alg

open Lib HTTPParser

namespace HTTPParser

/-- What replaces the bytes past the announced length: the end of the first chunk, and a chunk of them. -/
def getContentLengthExceed (_p : HTTPParser) (content : Text) : Text :=
  if 0 < content.length then
    text "\r\n" ++ numeral 16 content.length ++ text "\r\n" ++ content ++ text "\r\n0\r\n\r\n"
  else text "\r\n0\r\n\r\n"

/-- The operation of the empty line at `m`, for a body announced as `len` bytes. -/
def sizeLine (m len : Int) : Operation := ⟨m, m, .REPLACE, numeral 16 len.toNat ++ text "\r\n", false⟩

theorem emptyline_opens {p : HTTPParser} (t : TokenType) (hchunked : p.st.chunked = false) (hlen : 0 < p.st.len) :
    p.emptyline t = { p with
      st.ignore := 0
      ops := p.ops ++ [sizeLine t.pos_end p.st.len]
      endPos := t.pos_end + p.st.len
      maxPos := t.pos_end
      maxLen := p.st.len } := by
  unfold emptyline
  simp only [hchunked, Bool.false_eq_true, if_false, hlen, if_true]
  rfl

end HTTPParser

def chunked : Framing UInt8 where
  base := 16
  digit := hexDigit
  ext := 59
  cr := 13
  lf := 10
  cr_digit := by decide

example : chunked.decode (text "4;q=1\r\nWiki\r\nA\r\npedia\r\n\r\n0\r\n0\r\nX: y\r\n\r\nGET") =
    some (text "Wikipedia\r\n\r\n0", text "GET") := by decide

theorem value_numeral (n : ℕ) : chunked.value (numeral 16 n) = n := by
  induction n using Nat.strong_induction_on with
  | _ n ih =>
    unfold Framing.value at ih ⊢
    rw [numeral_eq_if (by omega)]
    split
    case isTrue hn =>
      simp only [List.foldl_cons, List.foldl_nil, chunked, hexDigit_digitChar hn, Option.getD_some]
      omega
    case isFalse hn =>
      rw [List.foldl_append, ih (n / 16) (by omega)]
      simp only [List.foldl_cons, List.foldl_nil, chunked, hexDigit_digitChar (n.mod_lt (by omega)), Option.getD_some]
      omega

theorem prints_numeral : chunked.Prints (numeral 16) where
  ne_nil _ := numeral_ne_nil
  digits _ _ h := hexDigit_numeral (by omega) le_rfl h
  value := value_numeral

def surplus (b : Text) : List Text := if b = [] then [] else [b]

theorem mem_surplus {b c : Text} (h : c ∈ surplus b) : c ≠ [] := by
  unfold surplus at h
  split at h
  case isTrue => cases h
  case isFalse hb => exact List.mem_singleton.mp h ▸ hb

theorem flatten_surplus (b : Text) : (surplus b).flatten = b := by
  unfold surplus
  split
  case isTrue hb => exact hb.symm
  case isFalse => exact List.flatten_singleton

theorem encode_pieces (p : HTTPParser) (a b : Text) :
    numeral 16 a.length ++ text "\r\n" ++ a ++ p.getContentLengthExceed b =
      chunked.encode (numeral 16) (a :: surplus b) := by
  have hbreak : text "\r\n" = chunked.lineBreak := by decide
  have hlast : text "0\r\n\r\n" = chunked.lastChunk (numeral 16) := by decide
  have hsplit : text "\r\n0\r\n\r\n" = text "\r\n" ++ text "0\r\n\r\n" := by decide
  unfold surplus HTTPParser.getContentLengthExceed
  simp only [hsplit, hbreak, hlast, Framing.encode]
  cases b with
  | nil => simp [Framing.chunk]
  | cons c b => simp [Framing.chunk]

theorem decode_pieces (p : HTTPParser) {a : Text} (ha : a ≠ []) (b : Text) :
    chunked.decode (numeral 16 a.length ++ text "\r\n" ++ a ++ p.getContentLengthExceed b) = some (a ++ b, []) := by
  have hne : ∀ c ∈ a :: surplus b, c ≠ [] := List.forall_mem_cons.mpr ⟨ha, fun _ ↦ mem_surplus⟩
  have hdecode := prints_numeral.decode_encode hne []
  rw [List.append_nil, List.flatten_cons, flatten_surplus] at hdecode
  rw [encode_pieces, hdecode]

/-- The operation of the empty line, the bytes announced and what takes the place of those past
them are one body in chunks, with nothing behind it. -/
theorem chunks_decode (p : HTTPParser) (t : TokenType) (a b : Text) (ha : a ≠ [])
    (hchunked : p.st.chunked = false) (hlen : p.st.len = a.length) :
    ∃ o : Operation, (p.emptyline t).ops = p.ops ++ [o] ∧ o.start_pos = t.pos_end ∧ o.end_pos = t.pos_end ∧
      chunked.decode (o.newdata ++ a ++ (p.emptyline t).getContentLengthExceed b) = some (a ++ b, []) := by
  have hpos : 0 < p.st.len := hlen ▸ Int.natCast_pos.mpr (List.length_pos_iff.mpr ha)
  refine ⟨HTTPParser.sizeLine t.pos_end a.length, ?_, rfl, rfl, decode_pieces _ ha b⟩
  rw [HTTPParser.emptyline_opens t hchunked hpos, hlen]

/-- A body announced as 4 bytes, with the page's own digits and line breaks in both parts. -/
theorem chunks_decode_wiki : ∃ o : Operation,
    (HTTPParser.emptyline (Parser.new .stateful ⟨[], 0, false, 4⟩) ⟨[10], 0, 1⟩).ops =
      (Parser.new .stateful (⟨[], 0, false, 4⟩ : HTTPState)).ops ++ [o] ∧ o.start_pos = 1 ∧ o.end_pos = 1 ∧
    chunked.decode (o.newdata ++ text "a\r\n5" ++
      (HTTPParser.emptyline (Parser.new .stateful ⟨[], 0, false, 4⟩) ⟨[10], 0, 1⟩).getContentLengthExceed
        (text "\r\n0\r\n\r\n")) = some (text "a\r\n5" ++ text "\r\n0\r\n\r\n", []) :=
  chunks_decode (Parser.new .stateful ⟨[], 0, false, 4⟩) ⟨[10], 0, 1⟩ (text "a\r\n5") (text "\r\n0\r\n\r\n")
    (by decide) rfl (by decide)

namespace Flow

variable {pc : ParserClass HTTPState} {extra : EXTRAType} {flow : Flow HTTPState} {p : Packet} {parser : HTTPParser}
  {rest : List Operation} {src dst m len : Int}

theorem usedLimit_page (hm : 0 < m) (hpos : parser.maxPos = m) (hlen : parser.maxLen = len)
    (horder : Consecutive (sizeLine m len :: rest)) (hlevel : ∀ o ∈ rest, o.delta = 0)
    (hoff : (flow.getPktOffset p).1 = 0) :
    usedLimit flow p (sizeLine m len :: rest) parser = m + (sizeLine m len).newdata.length + len := by
  have hdelta : (sizeLine m len).delta = (sizeLine m len).newdata.length := by
    simp [Operation.delta, sizeLine]
  unfold usedLimit limit
  simp only [hoff, horder.sortOps, hpos, if_pos hm, moveLimit_cons, moveLimit_level hlevel, hdelta, hlen]
  rw [if_pos (show (sizeLine m len).end_pos ≤ m from le_rfl)]
  omega

theorem exceed_page (hpc : ∀ (q : HTTPParser) b, pc.getContentLengthExceed q b = q.getContentLengthExceed b)
    (parser : HTTPParser) (a b : Text) (ha : a ≠ []) :
    exceed pc parser a.length (a ++ b) = a ++ parser.getContentLengthExceed b := by
  have hpos : (0 : Int) < a.length := Int.natCast_pos.mpr (List.length_pos_iff.mpr ha)
  have hne : parser.getContentLengthExceed b ≠ b := fun he ↦ by
    have hlen := congrArg List.length he
    unfold HTTPParser.getContentLengthExceed at hlen
    split at hlen
    · simp only [List.length_append] at hlen
      have : (text "\r\n").length = 2 := rfl
      omega
    case isFalse hb =>
      have : (text "\r\n0\r\n\r\n").length = 7 := rfl
      omega
  unfold exceed
  rw [if_pos ⟨hpos, by simp⟩]
  simp only [Int.toNat_natCast, List.drop_left, List.take_left, hpc, bne_iff_ne.mpr hne, if_true]

/-- A page whose announced body lies in the segment that ends its headers leaves in chunks: behind
the headers stands one body in chunks, and it holds the edited content whole. -/
theorem modify_page (hpc : ∀ (q : HTTPParser) b, pc.getContentLengthExceed q b = q.getContentLengthExceed b)
    (hp : payloadAt p = some (src, dst)) (hoff : (flow.getPktOffset p).1 = 0) (hm : 0 < m) (hlen₀ : 0 < len)
    (hpos : parser.maxPos = m) (hlen : parser.maxLen = len) (hbody : m + len ≤ lenOld p)
    (horder : Consecutive (sizeLine m len :: rest)) (hrest : ∀ o ∈ rest, o.delta = 0 ∧ o.newdata ≠ [] ∧
    o.end_pos ≤ lenOld p) :
    ∃ body, (flow.modify pc extra p (sizeLine m len :: rest) parser).built =
        (source p src).slice 0 m.toNat ++ body ∧
      chunked.decode body = some (spliced (source p src) (lenOld p) m rest, []) := by
  have hlevel : ∀ o ∈ rest, o.delta = 0 := fun o ho ↦ (hrest o ho).1
  have hline : (sizeLine m len).newdata ≠ [] := by simp [sizeLine, numeral_ne_nil]
  have hsum : (rest.map Operation.delta).sum = 0 := List.sum_eq_zero (by simpa using hlevel)
  have hsorted := List.pairwise_cons.mp horder.sorted
  have hfit : Patch.Fit (lenOld p) m (rest.map (Operation.patch 0)) :=
    Consecutive.fit ⟨fun o ho ↦ horder.range o (List.mem_cons_of_mem _ ho), hsorted.2⟩ hsorted.1
      (fun o ho ↦ (hrest o ho).2.2) (fun o ho ↦ (hrest o ho).2.1) (by omega)
  have hfit₀ : Patch.Fit (lenOld p) 0 ((sizeLine m len :: rest).map (Operation.patch 0)) := by
    simp only [List.map_cons, Patch.Fit, Operation.patch, Int.sub_zero, sizeLine] at hfit ⊢
    exact ⟨by omega, le_rfl, fun hnil ↦ absurd hnil hline, hfit⟩
  have hcontent := @length_splice_ops (source p src) rest 0 (lenOld p) m hfit.inside
  have hcopied : (flow.modify pc extra p (sizeLine m len :: rest) parser).copied =
      (source p src).slice 0 m.toNat ++ (sizeLine m len).newdata ++ spliced (source p src) (lenOld p) m rest := by
    have hloop := @copied_splice (source p src) _ 0 (lenOld p) hfit₀
    unfold modify
    rw [if_neg (by simp), hp, horder.sortOps]
    refine (congrArg (fun o ↦ copied _ _ o _) hoff).trans (hloop.trans ?_)
    simp only [List.map_cons, Patch.splice, Operation.patch, Int.sub_zero, sizeLine]
    rfl
  have hbuilt := (@modify_limit _ pc extra flow p _ parser (by rw [hp]; rfl)).2 (List.cons_ne_nil (sizeLine m len) rest)
  rw [usedLimit_page hm hpos hlen horder hlevel hoff, hcopied] at hbuilt
  generalize hw : spliced (source p src) (lenOld p) m rest = w at hbuilt
  have hwlen : len.toNat ≤ w.length := by
    rw [← hw]
    unfold spliced
    omega
  have hfirst : (w.take len.toNat).length = len.toNat := List.length_take_of_le hwlen
  have ha : w.take len.toNat ≠ [] := List.length_pos_iff.mp (by omega)
  have hlimit : m + (sizeLine m len).newdata.length + len =
      (((source p src).slice 0 m.toNat ++ (sizeLine m len).newdata ++ w.take len.toNat).length : Int) := by
    simp only [List.length_append, Mem.length_slice, hfirst]
    omega
  have hdecode := decode_pieces (flow.modify pc extra p (sizeLine m len :: rest) parser).parser ha (w.drop len.toNat)
  rw [hfirst, List.take_append_drop] at hdecode
  refine ⟨_, ?_, hdecode⟩
  rw [hbuilt, hlimit, ← List.take_append_drop len.toNat w, ← List.append_assoc _ (w.take _), List.take_append_drop,
    exceed_page hpc _ _ _ (by simp [ha])]
  simp only [sizeLine, List.append_assoc]

end Flow

end Nat64Alg
