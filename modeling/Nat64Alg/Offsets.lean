import Nat64Alg.HTTPGrammar
import Nat64Alg.Numbers
import Nat64Alg.Positions
import Mathlib.Data.List.Chain
import Mathlib.Data.List.TakeWhile

namespace Nat64Alg

open Lib StateManager

variable {σ : Type} {pc : ParserClass σ} {ips : List IPv4Addr} {sm sm' : StateManager σ} {f : ℕ}

theorem doApp_edit_pos (hs : Sound ips sm) {nat : NAT} {p : Packet}
    {out : AppOut σ} {e : Edit} (hf : (p.getFlow sm).1 = some f) (h : doApp pc nat sm p = .ok out)
    (he : out.edit = some e) : e.pos = sm.position f e.protocol p.getDEST := by
  rcases doApp_cases hs.mode h with ⟨hn, -⟩ | ⟨g, hg, ⟨-, rfl⟩ | ⟨-, h⟩⟩
  · rw [hf] at hn
    cases hn
  · cases he
  obtain rfl : f = g := Option.some.inj (hf.symm.trans hg)
  have hlt := getFlow_lt hs.coherent hs.mode hf
  rw [adjust_getDEST] at h
  obtain ⟨flow, q, hsh, ⟨-, rfl⟩ | ⟨-, c, hc, rfl⟩⟩ := doContent_cases h
  · cases he
  rcases applyOps_cases { nat with exttcpflow_ := some f } c q f p.getDEST with ho | ⟨_, -, hops, ho⟩
  · rw [ho] at he
    cases he
  · rw [ho] at he
    cases he
    have hkept : EntryKept f p.getDEST c.protocol sm ((sm.setFlow f flow).setFlow f
        (((sm.setFlow f flow).flowAt f).count q p.getDEST)) :=
      (EntryKept.setFlow (by rw [hsh.parsers])).trans (EntryKept.setFlow (by rw [(count_frame _ _).2.2]))
    exact (chooseOps_pos (hlt.trans_le hkept.length) hc hops).trans (hkept.position hlt)

namespace Turn

def Carries (t : Turn σ) : Prop := t.1.getTransportHeaderLen < t.1.transport_len_

instance (t : Turn σ) : Decidable t.Carries := inferInstanceAs (Decidable (_ < _))

/-- The length of the payload received, and of the payload left in the packet. -/
def len (t : Turn σ) : Int := t.1.transport_len_ - t.1.getTransportHeaderLen
def sent (t : Turn σ) : Int := t.len + t.delta

end Turn

def carried (f : ℕ) (d : DEST) (evs : List (Event σ)) : List (Turn σ) :=
  (turns f d evs).filter (fun t ↦ decide t.Carries)

def InOrder (f : ℕ) (d : DEST) (evs : List (Event σ)) : Prop :=
  (carried f d evs).IsChain (fun t u ↦ u.1.seq = t.1.seq + UInt32.ofInt t.len)

/-- The payload bytes sent in the first modified packet and all packets after it. -/
def sentSince (ts : List (Turn σ)) : Int :=
  ((ts.dropWhile (fun t ↦ t.2.edit.isNone)).map Turn.sent).sum

theorem toInt_ofInt (n : Int) : (UInt32.ofInt n).toInt32.toInt = n.bmod (2 ^ 32) := by
  have h : (UInt32.ofInt n).toInt32.toInt = (UInt32.ofInt n).toBitVec.toInt := rfl
  have hmod : (((n % 2 ^ 32).toNat % 2 ^ 32 : ℕ) : Int) = n % 2 ^ 32 := by omega
  rw [h, BitVec.toInt_eq_toNat_bmod, UInt32.toNat_toBitVec, UInt32.ofInt, UInt32.toNat_ofNat', hmod]
  exact_mod_cast Int.emod_bmod n (2 ^ 32)

/-- The sequence number remembered for a direction, told from the packets seen: it
is behind the end of the last one by what was sent since the first modified one. -/
structure Anchored (acc : Account) (d : DEST) (ts : List (Turn σ)) : Prop where
  set : acc.init_seq_set d = ts.any (fun t ↦ t.2.edit.isSome)
  last : acc.init_seq_set d = true → ∀ t ∈ ts.getLast?, acc.init_seq d + UInt32.ofInt (sentSince ts) =
    t.1.seq + UInt32.ofInt t.len + UInt32.ofInt (acc.offset d)

theorem carried_append (f : ℕ) (d : DEST) (evs evs' : List (Event σ)) :
    carried f d (evs ++ evs') = carried f d evs ++ carried f d evs' := by
  simp [carried, turns_append]

theorem InOrder.left {d : DEST} {evs evs' : List (Event σ)} (h : InOrder f d (evs ++ evs')) : InOrder f d evs := by
  unfold InOrder at h
  rw [carried_append] at h
  exact h.left_of_append

theorem sentSince_none {ts : List (Turn σ)} (h : ts.any (fun t ↦ t.2.edit.isSome) = false) : sentSince ts = 0 := by
  have hdrop : ts.dropWhile (fun t ↦ t.2.edit.isNone) = [] := by
    rw [List.dropWhile_eq_nil_iff]
    intro t ht
    simpa using List.any_eq_false.mp h t ht
  rw [sentSince, hdrop]
  rfl

theorem sentSince_snoc (ts : List (Turn σ)) (t : Turn σ) : sentSince (ts ++ [t]) =
    if ts.any (fun t ↦ t.2.edit.isSome) then sentSince ts + t.sent else if t.2.edit.isSome then t.sent else 0 := by
  have hdrop : (ts.dropWhile (fun t ↦ t.2.edit.isNone)).isEmpty = !ts.any (fun t ↦ t.2.edit.isSome) := by
    rw [Bool.eq_iff_iff, List.isEmpty_iff, List.dropWhile_eq_nil_iff]
    simp [Option.isNone_iff_eq_none]
  rw [sentSince, List.dropWhile_append, hdrop]
  cases ts.any (fun t ↦ t.2.edit.isSome)
  · cases he : t.2.edit <;> simp [he]
  · simp [sentSince]

theorem Anchored.next {acc : Account} {d : DEST} {ts : List (Turn σ)} {t : Turn σ} (h : Anchored acc d ts)
    (hnext : ∀ u ∈ ts.getLast?, t.1.seq = u.1.seq + UInt32.ofInt u.len) (hset : acc.init_seq_set d = true) :
    acc.init_seq d + UInt32.ofInt (sentSince ts) = t.1.seq + UInt32.ofInt (acc.offset d) := by
  obtain ⟨u, hu⟩ : ∃ u, ts.getLast? = some u := by
    refine Option.isSome_iff_exists.mp (List.getLast?_isSome.mpr ?_)
    rintro rfl
    rw [h.set] at hset
    cases hset
  rw [h.last hset u hu, hnext u hu]

theorem Anchored.pktOffset {acc : Account} {d : DEST} {ts : List (Turn σ)} {t : Turn σ}
    (h : Anchored acc d ts) (hnext : ∀ u ∈ ts.getLast?, t.1.seq = u.1.seq + UInt32.ofInt u.len) :
    acc.pktOffset d (t.1.seq + UInt32.ofInt (acc.offset d)) = (sentSince ts).bmod (2 ^ 32) := by
  unfold Account.pktOffset
  split
  case isTrue hset =>
    rw [← h.next hnext hset, ← toInt_ofInt]
    congr 2
    grind
  case isFalse hset =>
    rw [h.set, Bool.not_eq_true] at hset
    rw [sentSince_none hset]
    rfl

theorem Anchored.snoc {acc acc' : Account} {d : DEST} {ts : List (Turn σ)} {t : Turn σ} {extra : EXTRAType}
    (h : Anchored acc d ts) (hnext : ∀ u ∈ ts.getLast?, t.1.seq = u.1.seq + UInt32.ofInt u.len)
    (hplain : t.2.edit = none → acc' = acc)
    (hedit : ∀ e, t.2.edit = some e → acc' = acc.record extra d (t.1.seq + UInt32.ofInt (acc.offset d)) e) :
    Anchored acc' d (ts ++ [t]) := by
  have hset := h.set
  cases he : t.2.edit with
  | none =>
    rw [hplain he]
    refine ⟨by simp [hset, he], fun hs u hu ↦ ?_⟩
    obtain rfl : t = u := by simpa using hu
    rw [sentSince_snoc, ← hset, if_pos hs, UInt32.ofInt_add, ← UInt32.add_assoc, h.next hnext hs]
    simp only [Turn.sent, Turn.delta, he, Option.map_none, Option.getD_none, Int.add_zero]
    grind
  | some e =>
    rw [hedit e he]
    refine ⟨by simp [Account.record, he], fun _ u hu ↦ ?_⟩
    obtain rfl : t = u := by simpa using hu
    have hsent : t.sent = t.len + e.delta := by simp [Turn.sent, Turn.delta, he]
    rw [sentSince_snoc, ← hset]
    cases hs : acc.init_seq_set d
    · simp only [Account.record, hs, he, hsent, and_self, if_true, Option.isSome_some, Bool.false_eq_true, if_false,
        UInt32.ofInt_add]
      grind
    · have := h.next hnext hs
      simp only [Account.record, hs, hsent, if_true, Bool.true_eq_false, and_false, if_false, UInt32.ofInt_add]
      grind

theorem Anchored.congr {acc acc' : Account} {d : DEST} {ts : List (Turn σ)} (h : Anchored acc d ts)
    (hset : acc'.init_seq_set d = acc.init_seq_set d) (hseq : acc'.init_seq d = acc.init_seq d)
    (hoff : acc'.offset d = acc.offset d) : Anchored acc' d ts :=
  ⟨hset.trans h.set, fun hs u hu ↦ by rw [hseq, hoff]; exact h.last (hset ▸ hs) u hu⟩

theorem carried_passed (f : ℕ) (d : DEST) (evs : List (Event σ)) (nat : NAT) (p : Packet) (out : AppOut σ) :
    carried f d (evs ++ [.passed nat p out]) = if Turn.On (p, out) f d ∧ Turn.Carries (p, out) then
      carried f d evs ++ [(p, out)] else carried f d evs := by
  rw [carried_append]
  by_cases hon : Turn.On (p, out) f d
  · by_cases hc : Turn.Carries (p, out)
    · rw [if_pos ⟨hon, hc⟩]
      simp [carried, turns_passed, hon, hc]
    · rw [if_neg (fun h ↦ hc h.2)]
      simp [carried, turns_passed, hon, hc]
  · rw [if_neg (fun h ↦ hon h.1)]
    simp [carried, turns_passed, hon]

theorem InOrder.next {d : DEST} {evs : List (Event σ)} {nat : NAT} {p : Packet} {out : AppOut σ}
    (h : InOrder f d (evs ++ [.passed nat p out])) (hon : Turn.On (p, out) f d) (hc : Turn.Carries (p, out)) :
    ∀ u ∈ (carried f d evs).getLast?, p.seq = u.1.seq + UInt32.ofInt u.len := by
  unfold InOrder at h
  rw [carried_passed, if_pos ⟨hon, hc⟩, List.isChain_append] at h
  exact fun u hu ↦ h.2.2 u hu (p, out) rfl

variable {prefix_ : IPv6Addr} {extra : EXTRAType} {protocols : OrderedMap String Protocol nameLt}
  {evs : List (Event σ)} {d : DEST}

theorem anchored_run (hips : (ips.flatMap poolOf).Nodup)
    (hrun : Run (AppStep pc) (configured prefix_ extra protocols ips) evs sm) (hseg : Segments f evs)
    (hord : InOrder f d evs) : Anchored (sm.flowAt f).account d (carried f d evs) := by
  refine (hrun.history (I := fun evs sm ↦ Sound ips sm ∧ (Segments f evs → InOrder f d evs →
    Anchored (sm.flowAt f).account d (carried f d evs))) ?_
    ⟨Sound.start prefix_ extra protocols ips, fun _ _ ↦ by
      rw [account_start]
      exact ⟨rfl, fun hs ↦ by cases hs⟩⟩).2 hseg hord
  intro evs s ev s' ⟨hs, hanchor⟩ hstep
  refine ⟨hs.grown (hstep.grown hips hs.mode), fun hseg hord ↦ ?_⟩
  have hanchor := hanchor hseg.left hord.left
  cases ev with
  | begun nat p =>
    rw [carried_append, show carried f d [(.begun nat p : Event σ)] = [] from rfl, List.append_nil,
      hstep.other hips hs (fun t ht ↦ by cases ht)]
    exact hanchor
  | passed nat p out =>
    by_cases hf : out.nat.exttcpflow_ = some f
    · obtain ⟨a, b, hp, -, hpass, hlen⟩ := hstep.passed_cases hips hs hf
        (hseg nat p out (List.mem_append_right _ List.mem_cons_self) hf)
      obtain ⟨-, rfl⟩ := hstep
      by_cases hd : p.getDEST = d
      · subst hd
        have hon : Turn.On (p, out) f p.getDEST := ⟨hf, rfl⟩
        by_cases hc : Turn.Carries (p, out)
        · rw [carried_passed, if_pos ⟨hon, hc⟩]
          refine @Anchored.snoc _ _ _ _ _ _ s.extra hanchor (hord.next hon hc) (fun he ↦ (hpass.plain he).1)
            (fun e he ↦ ?_)
          rw [(hpass.edited e he).2, adjust_getDEST, adjust_seq _ _ hp.tcp_]
          rfl
        · have he : out.edit = none := by
            by_contra hne
            exact hc (hlen (Option.isSome_iff_ne_none.mpr hne))
          rw [carried_passed, if_neg (fun h ↦ hc h.2), (hpass.plain he).1]
          exact hanchor
      · rw [carried_passed, if_neg (fun h ↦ hd h.1.2)]
        cases he : out.edit with
        | none =>
          rw [(hpass.plain he).1]
          exact hanchor
        | some e =>
          rw [(hpass.edited e he).2, adjust_getDEST]
          exact hanchor.congr (if_neg (Ne.symm hd)) (if_neg (fun h ↦ Ne.symm hd h.1)) (if_neg (Ne.symm hd))
    · rw [hstep.other hips hs (fun t ht ↦ by cases ht; exact hf), carried_passed, if_neg (fun h ↦ hf h.1.1)]
      exact hanchor

theorem edit_offset (hips : (ips.flatMap poolOf).Nodup)
    (hrun : Run (AppStep pc) (configured prefix_ extra protocols ips) evs sm) {nat : NAT} {p : Packet}
    {out : AppOut σ} (hstep : AppStep pc sm (.passed nat p out) sm') (hf : out.nat.exttcpflow_ = some f)
    (hseg : Segments f (evs ++ [.passed nat p out])) (hord : InOrder f p.getDEST (evs ++ [.passed nat p out]))
    {e : Edit} (he : out.edit = some e) : e.offset = (sentSince (carried f p.getDEST evs)).bmod (2 ^ 32) ∧
      e.pos = sm.position f e.protocol p.getDEST ∧
      ∃ a b, p.Segment a b ∧ p.Copied a b ∧ e.len_old = p.transport_len_ - p.getTransportHeaderLen ∧
        e.copied = copied (fun i ↦ p.ibuf_ (b + p.getTransportHeaderLen + i)) (sortOps e.ops) e.offset
          (e.len_old + ((sortOps e.ops).map Operation.delta).sum) := by
  have hs := (Sound.start prefix_ extra protocols ips).run hips hrun
  obtain ⟨a, b, hp, hcopy, hpass, hlen⟩ := hstep.passed_cases hips hs hf
    (hseg nat p out (List.mem_append_right _ List.mem_cons_self) hf)
  obtain ⟨hedit, -⟩ := hpass.edited e he
  have hon : Turn.On (p, out) f p.getDEST := ⟨hf, rfl⟩
  have hanchor := anchored_run hips hrun hseg.left hord.left
  have hflow : (p.getFlow sm).1 = some f := (doApp_other hips hs.mode hstep.1).2.2.symm.trans hf
  refine ⟨?_, doApp_edit_pos hs hflow hstep.1 he, a, b, hp, hcopy, ?_, ?_⟩
  · rw [hedit.offset, adjust_getDEST, adjust_seq _ _ hp.tcp_]
    exact hanchor.pktOffset (t := (p, out)) (hord.next hon (hlen (by rw [he]; rfl)))
  · rw [hedit.len_old, adjust_headerLen _ _ hp.tcp_, adjust_eq _ _ hp.tcp_]
    rfl
  · rw [hedit.copied, adjust_headerLen _ _ hp.tcp_, adjust_eq _ _ hp.tcp_]
    rfl

/-- An operation of a packet is applied at its own bytes: under the position of the
parser, whenever that is what was sent since the first modified packet. -/
theorem edits_placed_iff (hips : ips.Nodup)
    (hrun : Run (AppStep pc) (configured prefix_ extra protocols ips) evs sm) {nat : NAT} {p : Packet}
    {out : AppOut σ} (hstep : AppStep pc sm (.passed nat p out) sm') (hf : out.nat.exttcpflow_ = some f)
    (hseg : Segments f (evs ++ [.passed nat p out])) (hord : InOrder f p.getDEST (evs ++ [.passed nat p out]))
    {e : Edit} (he : out.edit = some e) :
    e.pos = sm.position f e.protocol p.getDEST ∧
    (e.offset = e.pos ↔ (sentSince (carried f p.getDEST evs)).bmod (2 ^ 32) = e.pos) ∧
    (e.offset = e.pos →
      Patch.Fit p.payload.length 0 ((sortOps e.ops).map (Operation.patch e.pos)) →
      e.copied = Patch.splice (Mem.ofList p.payload) p.payload.length 0
        ((sortOps e.ops).map (Operation.patch e.pos))) := by
  obtain ⟨hoff, hpos, a, b, hp, hcopy, hlen, hcopied⟩ := edit_offset (nodup_pools hips) hrun hstep hf hseg hord he
  refine ⟨hpos, by rw [hoff], fun hplace hfit ↦ ?_⟩
  have hpay : p.payload = p.obuf_.slice (a + p.getTransportHeaderLen) e.len_old.toNat := by
    rw [hlen]
    simp only [Packet.payload, Packet.transport, hp.tcp_, Option.some_or]
  have hcomplete := hp.complete
  have hsize : (p.payload.length : Int) = e.len_old := by
    rw [hpay, Mem.length_slice]
    omega
  rw [hcopied, hplace, ← hsize, copied_splice hfit]
  refine Patch.splice_congr hfit (fun j h₀ h₁ ↦ ?_)
  rw [hpay, Mem.ofList_slice _ h₀ (by omega), Int.add_assoc, Int.add_assoc]
  exact (hcopy _ (by omega) (by omega)).symm

/-- Without state every packet starts at position 0, but the offset of the second
modified packet is what was sent of the first. -/
theorem edits_misplaced : ∃ (evs : List (Event Unit)) (sm : StateManager Unit),
    Run (AppStep (FTPParser.only once noJunk)) (ftpConf .NONE) evs sm ∧ Segments 0 evs ∧ InOrder 0 .SERVER evs ∧
    (turns 0 .SERVER evs).map (fun t ↦ t.2.edit.map (fun e ↦ (e.pos, e.offset))) = [some (0, 0), some (0, 28)] ∧
    ¬∀ t ∈ turns 0 .SERVER evs, ∀ e, t.2.edit = some e → e.offset = e.pos := by
  have hoff : (turns 0 .SERVER (play (FTPParser.only once noJunk) (.new 0) (ftpConf .NONE)
      [eprtSegment 1000, eprtSegment 1017]).1).map (fun t ↦ t.2.edit.map (fun e ↦ (e.pos, e.offset))) =
        [some (0, 0), some (0, 28)] := by decide +kernel
  have hord : InOrder 0 .SERVER (play (FTPParser.only once noJunk) (.new 0) (ftpConf .NONE)
      [eprtSegment 1000, eprtSegment 1017]).1 := by
    unfold InOrder
    decide +kernel
  refine ⟨_, _, play_run _ (.new 0) _ [eprtSegment 1000, eprtSegment 1017], play_segments ?_ 0, hord, hoff,
    fun h ↦ ?_⟩
  · simp [eprtSegment_isSegment]
  · have hmem : some (0, 28) ∈ (turns 0 .SERVER (play (FTPParser.only once noJunk) (.new 0) (ftpConf .NONE)
        [eprtSegment 1000, eprtSegment 1017]).1).map (fun t ↦ t.2.edit.map (fun e ↦ (e.pos, e.offset))) := by
      rw [hoff]
      simp
    obtain ⟨t, ht, he⟩ := List.mem_map.mp hmem
    obtain ⟨e, he, hpos⟩ := Option.map_eq_some_iff.mp he
    obtain ⟨hpos, hoff⟩ := Prod.mk.inj hpos
    have := h t ht e he
    omega

/-- Pages of a server read as streams. -/
def pageConf : StateManager HTTPStream :=
  configured ⟨⟨ntohl 0x20030000, 0, 0, 0⟩⟩ .NONE
    (OrderedMap.empty.insert "http" { ptype_c2s := .NONE, ptype_s2c := .STATEFUL }) [⟨ntohl 0x0a141e28⟩]

def pageClass : ParserClass HTTPStream := HTTPStream.only ⟨fun _ ↦ true, fun _ ↦ 1⟩ ⟨[], 0, false, 0⟩ false false

def pageSegment (seq : UInt32) (data : Text) : Packet :=
  .tcp4 ⟨ntohl 0xc0000201⟩ ⟨ntohl 0x0a141e28⟩ 80 32000 seq 2 data

/-- A request, and a page with a link in each of its two segments. -/
def pages : List Packet :=
  [.tcp6 clientA serverS 1024 80 1 1 [0x61],
    pageSegment 7 (text "HTTP/1.1 200 OK\r\nA: b\r\n\r\n<a href='http://1.2.3.4/'>x"),
    pageSegment 59 (text "<a href='http://5.6.7.8/'>y")]

theorem pages_isSegment : ∀ p ∈ pages, p.IsSegment := by
  simp only [pages, pageSegment, List.forall_mem_cons, List.not_mem_nil, false_imp_iff, implies_true, and_true]
  exact ⟨Packet.tcp6_isSegment _ _ _ _ _ _ (by decide), Packet.tcp4_isSegment _ _ _ _ _ _ (by decide),
    Packet.tcp4_isSegment _ _ _ _ _ _ (by decide)⟩

/-- A page keeps its length, so the second segment is edited at the position of its parser. -/
theorem edits_placed_pages : ∃ (evs : List (Event HTTPStream)) (sm : StateManager HTTPStream) (nat : NAT) (p : Packet)
    (out : AppOut HTTPStream) (e : Edit), Run (AppStep pageClass) pageConf (evs ++ [.passed nat p out]) sm ∧
    (turns 0 .CLIENT evs).map (fun t ↦ t.2.edit.isSome) = [true] ∧ p.getDEST = .CLIENT ∧ out.edit = some e ∧
    e.pos = 52 ∧ e.offset = e.pos := by
  obtain ⟨evs, hevs⟩ : ∃ evs, evs = (play pageClass (.new 0) pageConf pages).1 := ⟨_, rfl⟩
  have hrun := play_run pageClass (.new 0) pageConf pages
  have hseg := @play_segments _ pageClass (.new 0) pageConf _ pages_isSegment 0
  rw [← hevs] at hrun hseg
  obtain ⟨hlast, hord, hsent, hbefore⟩ : (evs.getLast?.bind Event.turn).map
        (fun t ↦ (t.1.getDEST, t.2.nat.exttcpflow_, t.2.edit.map Edit.pos)) = some (.CLIENT, some 0, some 52) ∧
      InOrder 0 .CLIENT evs ∧ (sentSince (carried 0 .CLIENT evs.dropLast)).bmod (2 ^ 32) = 52 ∧
      (turns 0 .CLIENT evs.dropLast).map (fun t ↦ t.2.edit.isSome) = [true] := by
    rw [hevs]
    unfold InOrder
    decide +kernel
  obtain ⟨t, ht, hfacts⟩ := Option.map_eq_some_iff.mp hlast
  obtain ⟨ev, hev, hturn⟩ := Option.bind_eq_some_iff.mp ht
  cases ev with
  | begun nat p => cases hturn
  | passed nat p out =>
    cases hturn
    have hsplit := List.dropLast_append_getLast? _ hev
    rw [← hsplit] at hrun hseg hord
    obtain ⟨hdest, hrest⟩ := Prod.mk.inj hfacts
    obtain ⟨hflow, hpos⟩ := Prod.mk.inj hrest
    obtain ⟨e, he, hpos⟩ := Option.map_eq_some_iff.mp hpos
    obtain ⟨s, s', hus, hstep, -⟩ := hrun.at_label
    dsimp only at hdest hflow he
    have hiff := edits_placed_iff (List.nodup_singleton _) hus hstep hflow hseg (hdest ▸ hord) he
    rw [hdest] at hiff
    exact ⟨_, _, nat, p, out, e, hrun, hbefore, hdest, he, hpos, hiff.2.1.mpr (by rw [hsent, hpos]; rfl)⟩

end Nat64Alg
