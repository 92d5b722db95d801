import Nat64Alg.Sessions
import Nat64Alg.Splicing

namespace Nat64Alg

open Lib StateManager

variable {σ : Type}

/-- Operations on a payload of `n` bytes: their ranges lie in it, no two of them overlap and no
two start at one place. -/
structure Edits (n : Int) (ops : List Operation) : Prop where
  range : ∀ o ∈ ops, 0 ≤ o.start_pos ∧ o.start_pos ≤ o.end_pos ∧ o.end_pos ≤ n
  disjoint : ops.Pairwise Operation.Disjoint
  distinct : ops.Pairwise (fun a b ↦ a.start_pos ≠ b.start_pos)

section Order

variable {ops : List Operation} {n i : Int} {s : Mem}

theorem inside_of_disjoint (hsorted : ops.Pairwise (fun a b ↦ a.start_pos ≤ b.start_pos))
    (hdis : ops.Pairwise Operation.Disjoint) (hne : ops.Pairwise (fun a b ↦ a.start_pos ≠ b.start_pos))
    (hops : ∀ o ∈ ops, i ≤ o.start_pos ∧ o.start_pos ≤ o.end_pos ∧ o.end_pos ≤ n) (hi : i ≤ n) :
    Patch.Inside n i (ops.map (Operation.patch 0)) := by
  induction ops generalizing i with
  | nil => exact hi
  | cons o ops ih =>
    rw [List.pairwise_cons] at hsorted hdis hne
    rw [List.forall_mem_cons] at hops
    obtain ⟨⟨h₁, h₂, h₃⟩, hops⟩ := hops
    have hrest : Patch.Inside n o.end_pos (ops.map (Operation.patch 0)) := by
      refine ih hsorted.2 hdis.2 hne.2 (fun x hx ↦ ?_) h₃
      obtain ⟨h₄, h₅, h₆⟩ := hops x hx
      have h₇ := hsorted.1 x hx
      have h₈ := hne.1 x hx
      refine ⟨?_, h₅, h₆⟩
      rcases hdis.1 x hx with h | h <;> omega
    simpa [Patch.Inside, Operation.patch] using ⟨h₁, h₂, hrest⟩

theorem Edits.inside (h : Edits n ops) (hn : 0 ≤ n) : Patch.Inside n 0 ((sortOps ops).map (Operation.patch 0)) :=
  inside_of_disjoint (sorted_sortOps ops) ((perm_sortOps ops).symm.pairwise h.disjoint (fun h ↦ h.symm))
    ((perm_sortOps ops).symm.pairwise h.distinct Ne.symm)
    (fun o ho ↦ h.range o ((perm_sortOps ops).mem_iff.mp ho)) hn

theorem sum_sortOps (ops : List Operation) : ((sortOps ops).map Operation.delta).sum = (ops.map Operation.delta).sum :=
  ((perm_sortOps ops).map Operation.delta).sum_eq

/-- The payload from `i` on with the operations put in. -/
def spliced (s : Mem) (n i : Int) (ops : List Operation) : Text := Patch.splice s n i (ops.map (Operation.patch 0))

theorem Edits.length_spliced (h : Edits n ops) (hn : 0 ≤ n) :
    ((spliced s n 0 (sortOps ops)).length : Int) = n + (ops.map Operation.delta).sum := by
  unfold spliced
  rw [length_splice_ops (h.inside hn), sum_sortOps]
  omega

/-- No operation is hidden behind a deletion, or the first that is, and those after it, put in
only what is there. -/
def Unhidden (s : Mem) (n : Int) : List Operation → Prop
  | [] => True
  | o :: rest =>
    if o.Hides rest then
      spliced s n o.end_pos rest = s.slice o.end_pos (n - o.end_pos + (rest.map Operation.delta).sum).toNat
    else Unhidden s n rest

theorem written_eq_iff (s : Mem) (n i : Int) (ops : List Operation) :
    written s n 0 i ops = spliced s n i ops ↔ Unhidden s n ops := by
  induction ops generalizing i with
  | nil => exact iff_of_true rfl trivial
  | cons o rest ih =>
    have hcons : spliced s n i (o :: rest) =
        s.slice i (o.start_pos - 0 - i).toNat ++ o.newdata ++ spliced s n (o.end_pos - 0) rest := rfl
    rw [hcons, written, Unhidden, List.append_cancel_left_eq]
    by_cases hhides : o.Hides rest
    · rw [if_pos hhides, if_pos hhides, Int.sub_zero]
      exact eq_comm
    · rw [if_neg hhides, if_neg hhides]
      exact ih _

end Order

namespace Flow

variable {pc : ParserClass σ} {extra : EXTRAType} {flow : Flow σ} {p : Packet} {ops : List Operation}
  {parser : Parser σ} {src dst : Int}

/-- The bytes of payload that `modify` is given. -/
def lenOld (p : Packet) : Int := p.transport_len_ - p.getTransportHeaderLen

/-- A call of `modify` for a packet at offset 0 of its stream, where neither a length limit nor
the segment size comes in. -/
structure Plain (flow : Flow σ) (p : Packet) (parser : Parser σ) (ops : List Operation) (src dst : Int) : Prop where
  payload : payloadAt p = some (src, dst)
  single : p.tcp_ = none ∨ p.udp_ = none
  offset : (flow.getPktOffset p).1 = 0
  unlimited : parser.maxPos ≤ 0
  uncut : ¬(p.isTCP = true ∧ 0 < (ops.map Operation.delta).sum ∧ 1400 < lenOld p)
  len : 0 ≤ lenOld p

/-- The payload `modify` reads. -/
def source (p : Packet) (src : Int) : Mem := fun i ↦ p.ibuf_ (src + i)

/-- The payload of the packet `modify` leaves. -/
def Modified.payload (m : Modified σ) (p : Packet) (dst : Int) : Text :=
  m.pkt.obuf_.slice dst (m.pkt.transport_len_ - p.getTransportHeaderLen).toNat

theorem setTransportLen_slice (h : payloadAt p = some (src, dst)) (hone : p.tcp_ = none ∨ p.udp_ = none) (m : Mem)
    (len : Int) (k : ℕ) : ((p.withObuf m).setTransportLen len).transport_len_ = len ∧
      ((p.withObuf m).setTransportLen len).obuf_.slice dst k = m.slice dst k := by
  unfold Packet.setTransportLen
  dsimp only
  split
  case h_2 => exact ⟨rfl, rfl⟩
  case h_1 a ha =>
    have hudp : p.udp_ = some a := ha
    have htcp := hone.resolve_right (by rw [hudp]; exact Option.some_ne_none a)
    simp only [payloadAt, htcp, hudp, Packet.getTransportHeaderLen, Option.some.injEq, Prod.mk.injEq] at h
    refine ⟨rfl, ?_⟩
    rw [← h.2]
    exact Mem.slice_store_disjoint _ (.inr (by rw [Mem.length_bytes16]; omega))

theorem limit_plain (h : parser.maxPos ≤ 0) (ops : List Operation) : limit parser ops = (parser.maxPos, parser) :=
  if_neg (by omega)

theorem exceed_plain {maxPos : Int} (h : maxPos ≤ 0) (d : Text) : exceed pc parser maxPos d = d := if_neg (by omega)

theorem keepTail_plain {len_old : Int} {d : Text} (h : ¬(p.isTCP = true ∧ len_old < d.length ∧ 1400 < len_old)) :
    keepTail extra flow p len_old d = (flow, d) := by
  refine if_neg fun hn ↦ h ?_
  rw [Bool.and_eq_true, Bool.and_eq_true, decide_eq_true_eq, decide_eq_true_eq] at hn
  exact ⟨hn.1.1, hn.1.2, hn.2⟩

theorem modifyAt_plain (h : Plain flow p parser ops src dst) (he : Edits (lenOld p) ops) {w : Text}
    (hw : w = written (source p src) (lenOld p) 0 0 (sortOps ops)) :
    (w.length : Int) = lenOld p + (ops.map Operation.delta).sum ∧
      modifyAt pc extra flow p (sortOps ops) parser src dst =
        ⟨(flow.getPktOffset p).2,
          (p.withObuf ((p.obuf_.store dst w).store dst w)).setTransportLen (w.length + p.getTransportHeaderLen),
          parser, w.length - lenOld p, lenOld p, 0, w, w⟩ := by
  have hin := he.inside h.len
  have hlen := @length_splice_ops (source p src) (sortOps ops) 0 (lenOld p) 0 hin
  have hcopied := @copied_written (source p src) (sortOps ops) 0 (lenOld p) hin
  have hcl := length_copied (source p src) (sortOps ops) 0 (lenOld p + ((sortOps ops).map Operation.delta).sum)
  rw [← hw] at hcopied
  rw [hcopied] at hcl
  rw [sum_sortOps] at hlen hcl
  have hwl : (w.length : Int) = lenOld p + (ops.map Operation.delta).sum := by omega
  refine ⟨hwl, ?_⟩
  have hexceed : exceed pc parser (parser.maxPos - 0) w = w := exceed_plain (by have := h.unlimited; omega) _
  have hkeep : keepTail extra (flow.getPktOffset p).2 p (lenOld p) w = ((flow.getPktOffset p).2, w) :=
    keepTail_plain fun hn ↦ h.uncut ⟨hn.1, by omega, hn.2.2⟩
  have hneg : ¬lenOld p + (ops.map Operation.delta).sum < 0 := by omega
  have hsum := sum_sortOps ops
  rw [hsum] at hcopied
  unfold source lenOld at hcopied
  unfold lenOld at hkeep hneg
  unfold modifyAt lenOld
  simp only [h.offset, hcopied, limit_plain h.unlimited, hexceed, hkeep, hsum, if_neg hneg]
  rfl

theorem modify_plain (h : Plain flow p parser ops src dst) (hne : ops ≠ []) (he : Edits (lenOld p) ops) :
    (flow.modify pc extra p ops parser).pkt.transport_len_ =
        lenOld p + (ops.map Operation.delta).sum + p.getTransportHeaderLen ∧
      (flow.modify pc extra p ops parser).delta = (ops.map Operation.delta).sum ∧
      (flow.modify pc extra p ops parser).payload p dst = written (source p src) (lenOld p) 0 0 (sortOps ops) := by
  obtain ⟨hlen, hat⟩ := @modifyAt_plain _ pc extra flow p ops parser src dst h he _ rfl
  generalize written (source p src) (lenOld p) 0 0 (sortOps ops) = w at hlen hat
  have hmodify : flow.modify pc extra p ops parser = modifyAt pc extra flow p (sortOps ops) parser src dst := by
    unfold modify
    rw [if_neg (by simpa using hne), h.payload]
  obtain ⟨hl, hs⟩ := setTransportLen_slice h.payload h.single ((p.obuf_.store dst w).store dst w)
    (w.length + p.getTransportHeaderLen) w.length
  rw [hmodify, hat]
  unfold Modified.payload
  refine ⟨by rw [← hlen]; exact hl, by simp only [hlen]; omega, ?_⟩
  simp only [hl, Int.add_sub_cancel, Int.toNat_natCast]
  rw [hs, Mem.slice_store_self]

/-- `modify` puts every operation in its place exactly when none is hidden behind a deletion, or what
is hidden changes nothing. -/
theorem modify_splices_iff (h : Plain flow p parser ops src dst) (hne : ops ≠ []) (he : Edits (lenOld p) ops) :
    ((flow.modify pc extra p ops parser).payload p dst = spliced (source p src) (lenOld p) 0 (sortOps ops) ∧
      (flow.modify pc extra p ops parser).delta = (ops.map Operation.delta).sum) ↔
    Unhidden (source p src) (lenOld p) (sortOps ops) := by
  obtain ⟨-, hdelta, hpay⟩ := @modify_plain _ pc extra flow p ops parser src dst h hne he
  rw [hpay, written_eq_iff]
  exact and_iff_left hdelta

end Flow

section Example

/-- A datagram of three bytes, and two operations on it: the first byte goes, the second is replaced. -/
def threeBytes : Packet := .udp6 clientA serverS 1024 53 [0x61, 0x62, 0x63]

def adjacentOps : List Operation := [⟨0, 1, .REPLACE, [], false⟩, ⟨1, 2, .REPLACE, [0x78], false⟩]

def plainFlow : Flow Unit := Flow.new44 .null .null

def plainParser : Parser Unit := Parser.new .stateless ()

theorem threeBytes_plain (ops : List Operation) : plainFlow.Plain threeBytes plainParser ops 48 28 :=
  ⟨by decide +kernel, by decide +kernel, by decide +kernel, by decide +kernel,
    fun h ↦ absurd h.1 (by decide +kernel), by decide +kernel⟩

theorem lenOld_threeBytes : Flow.lenOld threeBytes = 3 := by decide +kernel

theorem adjacentOps_edits : Edits (Flow.lenOld threeBytes) adjacentOps := by
  rw [lenOld_threeBytes]
  refine ⟨by decide, ?_, ?_⟩ <;> simp [adjacentOps, Operation.Disjoint]

/-- Of `abc` they leave `bc`, where `xc` was asked for. -/
theorem modify_misses : ¬∀ (ops : List Operation), ops ≠ [] → Edits (Flow.lenOld threeBytes) ops →
    (plainFlow.modify (FTPParser.only once noJunk) .NONE threeBytes ops plainParser).payload threeBytes 28 =
      spliced (Flow.source threeBytes 48) (Flow.lenOld threeBytes) 0 (sortOps ops) := by
  intro h
  have hall := h adjacentOps (by decide) adjacentOps_edits
  revert hall
  decide +kernel

theorem modify_splices_three :
    ((plainFlow.modify (FTPParser.only once noJunk) .NONE threeBytes adjacentOps plainParser).payload threeBytes 28 =
        spliced (Flow.source threeBytes 48) (Flow.lenOld threeBytes) 0 (sortOps adjacentOps) ∧
      (plainFlow.modify (FTPParser.only once noJunk) .NONE threeBytes adjacentOps plainParser).delta =
        (adjacentOps.map Operation.delta).sum) ↔
    Unhidden (Flow.source threeBytes 48) (Flow.lenOld threeBytes) (sortOps adjacentOps) :=
  Flow.modify_splices_iff (threeBytes_plain adjacentOps) (by decide) adjacentOps_edits

end Example

end Nat64Alg
