import Nat64Alg.Editing

namespace Nat64Alg

open Lib StateManager

variable {σ : Type}

/-- `memcpy (d + pd, s + ps, sz)`. A size below zero is one beyond any memory. -/
def memcpy (d : Mem) (pd : Int) (s : Mem) (ps sz : Int) : Except Fault Mem :=
  if sz < 0 then .error .badCopy else .ok (d.store pd (s.slice ps sz.toNat))

/-- The loop of the benchmark's `modify`, for at most so many turns: whole gaps of the source
and whole texts are copied to `d`. -/
def blockLoop (s : Mem) (len_old : Int) (ops : List Operation) :
    ℕ → ℕ → Int → Int → Mem → Option (Except Fault Mem)
  | 0, _, _, _, _ => none
  | turns + 1, cnt, ps, pd, d =>
    match ops[cnt]? with
    | none => some (memcpy d pd s ps (len_old - ps))
    | some o =>
      if ps = o.start_pos then
        let sz : Int := o.newdata.length
        blockLoop s len_old ops turns (cnt + 1) o.end_pos (pd + sz) (d.store pd o.newdata)
      else
        let sz := o.start_pos - ps
        match memcpy d pd s ps sz with
        | .error e => some (.error e)
        | .ok d => blockLoop s len_old ops turns cnt (ps + sz) (pd + sz) d

/-- The benchmark's `modify` of the payload `s` into `d`, with the length it ends with. -/
def blockModify (turns : ℕ) (s d : Mem) (len : Int) (ops : List Operation) : Option (Except Fault (Mem × Int)) :=
  if ops.length == 0 then some (.ok (d, len))
  else
    let ops := sortOps ops
    let len_old := len
    let len := len + (ops.map Operation.delta).sum
    (blockLoop s len_old ops turns 0 0 0 d).map (fun r ↦ r.map (fun d ↦ (d, len)))

variable {s d : Mem} {n ps pd : Int} {ops rest : List Operation} {cnt : ℕ}

theorem memcpy_ok {sz : Int} (h : 0 ≤ sz) : memcpy d pd s ps sz = .ok (d.store pd (s.slice ps sz.toNat)) :=
  if_neg (by omega)

theorem blockLoop_spliced (hrest : ops.drop cnt = rest) (hin : Patch.Inside n ps (rest.map (Operation.patch 0))) :
    ∃ turns, blockLoop s n ops turns cnt ps pd d = some (.ok (d.store pd (spliced s n ps rest))) := by
  induction rest generalizing cnt ps pd d with
  | nil =>
    have hcnt : ops[cnt]? = none := List.getElem?_eq_none (List.drop_eq_nil_iff.mp hrest)
    have hle : ps ≤ n := hin
    refine ⟨1, ?_⟩
    rw [blockLoop, hcnt]
    simp only [memcpy_ok (show 0 ≤ n - ps by omega)]
    rfl
  | cons o rest ih =>
    obtain ⟨h₁, h₂, h₃⟩ := hin
    have ho : ops[cnt]? = some o := by rw [← List.head?_drop, hrest, List.head?_cons]
    have hnext : ops.drop (cnt + 1) = rest := by rw [← List.tail_drop, hrest, List.tail_cons]
    simp only [Operation.patch, Int.sub_zero] at h₁ h₂ h₃
    have htext : ∀ pd d, ∃ turns, blockLoop s n ops turns cnt o.start_pos pd d =
        some (.ok (d.store pd (o.newdata ++ spliced s n o.end_pos rest))) := by
      intro pd d
      obtain ⟨turns, h⟩ := @ih (d.store pd o.newdata) o.end_pos (pd + o.newdata.length) (cnt + 1) hnext h₃
      refine ⟨turns + 1, ?_⟩
      rw [blockLoop, ho]
      simp only [if_true]
      rw [h, Mem.store_append]
    have hcons : spliced s n ps (o :: rest) =
        s.slice ps (o.start_pos - 0 - ps).toNat ++ o.newdata ++ spliced s n (o.end_pos - 0) rest := rfl
    rw [hcons, Int.sub_zero, Int.sub_zero, List.append_assoc]
    rcases eq_or_ne ps o.start_pos with rfl | hne
    · obtain ⟨turns, h⟩ := htext pd d
      refine ⟨turns, ?_⟩
      rw [h, Int.sub_self]
      rfl
    · have hgap : 0 ≤ o.start_pos - ps := by omega
      obtain ⟨turns, h⟩ := htext (pd + (o.start_pos - ps)) (d.store pd (s.slice ps (o.start_pos - ps).toNat))
      refine ⟨turns + 1, ?_⟩
      rw [blockLoop, ho]
      simp only [if_neg hne, memcpy_ok hgap]
      rw [show ps + (o.start_pos - ps) = o.start_pos by omega, h, Mem.store_append _ _ (s.slice ps _),
        Mem.length_slice, Int.toNat_of_nonneg hgap]

theorem blockModify_spliced (hne : ops ≠ []) (he : Edits n ops) (hn : 0 ≤ n) : ∃ turns,
    blockModify turns s d n ops =
      some (.ok (d.store 0 (spliced s n 0 (sortOps ops)), n + (ops.map Operation.delta).sum)) := by
  obtain ⟨turns, h⟩ := @blockLoop_spliced s d n 0 0 (sortOps ops) (sortOps ops) 0
    (by rw [List.drop_zero]) (he.inside hn)
  refine ⟨turns, ?_⟩
  unfold blockModify
  rw [if_neg (by simpa using hne)]
  simp only [h, sum_sortOps]
  rfl

theorem unhidden_of_ne (h : ∀ o ∈ ops, o.newdata ≠ []) : Unhidden s n ops := by
  induction ops with
  | nil => trivial
  | cons o rest ih =>
    rw [List.forall_mem_cons] at h
    rw [Unhidden, if_neg (fun hh ↦ h.1 hh.1)]
    exact ih h.2

/-- The loop of `Flow::modify` and the `modify` of the benchmark both end, and make the same of a payload. -/
theorem modify_eq_blockModify (pc : ParserClass σ) (extra : EXTRAType) {flow : Flow σ} {p : Packet} {parser : Parser σ}
    {src dst : Int} (d : Mem) (h : flow.Plain p parser ops src dst) (he : Edits (Flow.lenOld p) ops)
    (hdata : ∀ o ∈ ops, o.newdata ≠ []) :
    ∃ turns d' len, blockModify turns (Flow.source p src) d (Flow.lenOld p) ops = some (.ok (d', len)) ∧
      (flow.modify pc extra p ops parser).pkt.transport_len_ - p.getTransportHeaderLen = len ∧
      (ops ≠ [] → (flow.modify pc extra p ops parser).payload p dst = d'.slice 0 len.toNat) ∧
      (ops = [] → (flow.modify pc extra p ops parser).pkt = p ∧ d' = d) := by
  rcases eq_or_ne ops [] with rfl | hne
  · exact ⟨0, d, Flow.lenOld p, rfl, rfl, fun hn ↦ absurd rfl hn, fun _ ↦ ⟨rfl, rfl⟩⟩
  obtain ⟨turns, hblock⟩ := @blockModify_spliced (Flow.source p src) d (Flow.lenOld p) ops hne he h.len
  obtain ⟨hlen, -, hpay⟩ := @Flow.modify_plain _ pc extra flow p ops parser src dst h hne he
  have hsum := @Edits.length_spliced ops (Flow.lenOld p) (Flow.source p src) he h.len
  refine ⟨turns, _, _, hblock, by rw [hlen]; omega, fun _ ↦ ?_, fun hn ↦ absurd hn hne⟩
  rw [hpay, (written_eq_iff _ _ _ _).mpr (unhidden_of_ne fun o ho ↦ hdata o ((perm_sortOps ops).mem_iff.mp ho)),
    ← hsum, Int.toNat_natCast, Mem.slice_store_self]

def swappedOps : List Operation := [⟨2, 3, .REPLACE, [0x79, 0x79], false⟩, ⟨0, 1, .REPLACE, [0x78], false⟩]

theorem swappedOps_edits : Edits (Flow.lenOld threeBytes) swappedOps := by
  rw [lenOld_threeBytes]
  refine ⟨by decide, ?_, ?_⟩ <;> simp [swappedOps, Operation.Disjoint]

theorem modify_eq_blockModify_three : ∃ turns d' len,
    blockModify turns (Flow.source threeBytes 48) (fun _ ↦ 0) (Flow.lenOld threeBytes) swappedOps =
    some (.ok (d', len)) ∧
      (plainFlow.modify (FTPParser.only once noJunk) .NONE threeBytes swappedOps plainParser).pkt.transport_len_ -
        threeBytes.getTransportHeaderLen = len ∧
      (swappedOps ≠ [] → (plainFlow.modify (FTPParser.only once noJunk) .NONE threeBytes swappedOps plainParser).payload
        threeBytes 28 = d'.slice 0 len.toNat) ∧
      (swappedOps = [] →
        (plainFlow.modify (FTPParser.only once noJunk) .NONE threeBytes swappedOps plainParser).pkt = threeBytes ∧
          d' = fun _ ↦ 0) :=
  modify_eq_blockModify _ _ _ (threeBytes_plain swappedOps) swappedOps_edits (by decide)

end Nat64Alg
