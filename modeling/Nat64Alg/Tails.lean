import Nat64Alg.Sending
import Nat64Alg.Lib.Chunks
import Mathlib.Data.List.Chain

namespace Nat64Alg

open Lib StateManager

variable {σ : Type} {pc : ParserClass σ} {ips : List IPv4Addr} {sm sm' : StateManager σ} {nat : NAT} {f : ℕ}

section Step

variable {p q : Packet} {a b : Int}

theorem Still.inRange {ok : Bool} (h : NAT.inRange sm p = .ok (ok, sm')) : Still ips sm sm' :=
  ⟨inRange_grown h, fun g ↦ congrArg Flow.account (inRange_flowAt h g)⟩

/-- `translate` with `doApp` in its place: the packet is refused, or goes through `doApp` to the sockets. -/
theorem translateApp_cases (hips : (ips.flatMap poolOf).Nodup) (hs : Sound ips sm) {t : NAT.Translated σ}
    (h : nat.translateWith (doApp pc) sm p = .ok t) :
    (t.ret = 0 ∧ Still ips sm t.sm) ∨
    ∃ nat₁ sm₂ out sm₃ p₃ sent, Still ips sm sm₂ ∧ doApp pc nat₁ sm₂ p = .ok out ∧
      out.nat.send out.sm (out.nat.rewrite out.sm out.pkt) = .ok (sm₃, p₃, sent) ∧
      t = ⟨1, out.nat, sm₃, p₃, sent, out.asked, out.edit⟩ := by
  obtain ⟨ok, sm₁, hr, h⟩ := translateWith_cases hs.mode h
  have h₁ : Still ips sm sm₁ := .inRange hr
  rcases h with ⟨-, rfl⟩ | ⟨-, rc, nat₁, sm₂, hb, h⟩
  · exact .inl ⟨rfl, h₁⟩
  have h₂ := h₁.trans (Still.begin hips hb)
  rcases h with ⟨-, rfl⟩ | ⟨-, out, ha, h⟩
  · exact .inl ⟨rfl, h₂⟩
  have hmode := (hs.grown h₂.grown).mode
  rcases h with ⟨hm, -⟩ | ⟨-, sm₃, p₃, sent, hsend, rfl⟩
  · rw [(doApp_other hips hmode ha).1.analysisMode, hmode] at hm
    cases hm
  · exact .inr ⟨_, sm₂, out, sm₃, p₃, sent, h₂, ha, hsend, rfl⟩

theorem Packet.Touched.segment (h : Packet.Touched (fun i ↦ a + 4 ≤ i ∧ (i < a + 16 ∨ a + 18 ≤ i)) p q)
    (hs : p.Segment a b) : q.Segment a b := by
  have hl := h.getTransportHeaderLen hs.tcp_
  obtain ⟨m, rfl, -⟩ := h
  exact ⟨hs.tcp_, hs.tcp_old_, hs.udp_, hs.ip_len_, by rw [hl]; exact hs.header, by rw [hl]; exact hs.complete⟩

theorem segmentAt_eq (hs : p.Segment a b) (hf : p.Framed a) {kept : Text}
    (hl : p.transport_len_ = p.getTransportHeaderLen + kept.length)
    (hkept : p.obuf_.slice (a + p.getTransportHeaderLen) kept.length = kept) :
    segmentAt p.obuf_ p.obuf_len_ a = (p.seq, kept) := by
  have hth : (Packet.th_off p.obuf_ a : Int) * 4 = p.getTransportHeaderLen := by
    simp only [Packet.getTransportHeaderLen, hs.tcp_]
  unfold segmentAt
  rw [hth, hf.obuf_len_, hl, ← Packet.seq_eq hs.tcp_,
    show (a + (p.getTransportHeaderLen + kept.length) - a - p.getTransportHeaderLen).toNat = kept.length by omega,
    hkept]

section Passed

variable {nat' : NAT} {out : AppOut σ}

theorem Passed.touched (hf : p.Framed a) (hp : p.Segment a b)
    (h : Passed pc sm f (adjust (sm.flowAt f) p.getDEST p) a b nat' out) :
    Packet.Touched (fun i ↦ a + 4 ≤ i ∧ (i < a + 16 ∨ a + 18 ≤ i)) out.pkt (out.nat.rewrite out.sm out.pkt) := by
  have hhead := h.header.headed (adjust_segment (sm.flowAt f) p.getDEST hp)
  exact Packet.touched_rewrite hhead.tcp_ hhead.udp_ (h.framed hf hp)

theorem Passed.rewrite_getDEST (hf : p.Framed a) (hp : p.Segment a b)
    (h : Passed pc sm f (adjust (sm.flowAt f) p.getDEST p) a b nat' out) :
    (out.nat.rewrite out.sm out.pkt).getDEST = p.getDEST := by
  unfold Packet.getDEST
  rw [(h.touched hf hp).ipVersionBefore_, h.header.ipVersionBefore_, adjust_eq _ _ hp.tcp_]
  rfl

end Passed

end Step

namespace Handled

/-- The packet was translated for the flow `f` in the direction `d`. -/
def On (l : Handled σ) (f : ℕ) (d : DEST) : Prop :=
  l.res.ret = 1 ∧ l.res.nat.exttcpflow_ = some f ∧ l.pkt.getDEST = d

instance (l : Handled σ) (f : ℕ) (d : DEST) : Decidable (l.On f d) := inferInstanceAs (Decidable (_ ∧ _))

def Carries (l : Handled σ) : Prop := l.pkt.getTransportHeaderLen < l.pkt.transport_len_

instance (l : Handled σ) : Decidable l.Carries := inferInstanceAs (Decidable (_ < _))

def len (l : Handled σ) : Int := l.pkt.transport_len_ - l.pkt.getTransportHeaderLen

/-- The payload `modify` built, or the one received. -/
def built (l : Handled σ) : Text := (l.res.edit.map Edit.built).getD l.pkt.payload

def segments (l : Handled σ) : List (UInt32 × Text) := l.res.sent.map Sent.segment

theorem account_other (hips : (ips.flatMap poolOf).Nodup) (hs : Sound ips sm) {l : Handled σ} {d : DEST}
    (h : nat.translateWith (doApp pc) sm l.pkt = .ok l.res) (hno : ¬l.On f d)
    (hp : l.res.ret = 1 → l.res.nat.exttcpflow_ = some f → l.pkt.IsSegment) :
    (l.res.sm.flowAt f).account.trail d = (sm.flowAt f).account.trail d ∧
      (l.res.sm.flowAt f).account.offset d = (sm.flowAt f).account.offset d := by
  obtain ⟨w, p, t⟩ := l
  dsimp only at h hp ⊢
  rcases translateApp_cases hips hs h with ⟨-, h₀⟩ | ⟨nat₁, sm₂, out, sm₃, p₃, sent, h₂, ha, hsend, rfl⟩
  · rw [h₀.account]
    exact ⟨rfl, rfl⟩
  have hs₂ := hs.grown h₂.grown
  obtain ⟨-, hother, hfound⟩ := doApp_other hips hs₂.mode ha
  have hacc := h₂.account f
  by_cases hflow : out.nat.exttcpflow_ = some f
  · obtain ⟨a, b, hseg, -⟩ := (hp rfl hflow).segment
    obtain ⟨hpass, -⟩ := doApp_passed hips hs₂.coherent hs₂.mode (hfound.symm.trans hflow) hseg ha
    have hne : p.getDEST ≠ d := fun he ↦ hno ⟨rfl, hflow, he⟩
    have hdest := hpass.rewrite_getDEST ((hp rfl hflow).framed hseg) hseg
    obtain ⟨h₃, h₄⟩ := send_other (g := f) (d := d) hsend (fun hc ↦ hne (hdest.symm.trans hc.2))
    rw [h₃, h₄, ← hacc]
    cases he : out.edit with
    | none =>
      rw [(hpass.plain he).1]
      exact ⟨rfl, rfl⟩
    | some e =>
      rw [(hpass.edited e he).2, adjust_getDEST]
      exact ⟨if_neg (fun hc ↦ hne hc.1.symm), if_neg (fun hc ↦ hne hc.symm)⟩
  · obtain ⟨h₃, h₄⟩ := send_other (g := f) (d := d) hsend (fun hc ↦ hflow hc.1)
    rw [h₃, h₄, hother f (fun hc ↦ hflow (hfound.trans hc)), hacc]
    exact ⟨rfl, rfl⟩

/-- What keeps a rewritten payload whole: the operations take away no more than there is,
and a tail is cut off only where it is sent as a packet of its own. Growth is that of what
`modify` built, and whether the flow is ignored is asked once the packet is through. -/
structure Safe (l : Handled σ) (extra : EXTRAType) (f : ℕ) : Prop where
  fits : ∀ e, l.res.edit = some e → 0 ≤ e.len_old + ((sortOps e.ops).map Operation.delta).sum
  cut : ∀ e, l.res.edit = some e → e.cut = true →
    extra = .TCP ∧ l.pkt.getDEST = .CLIENT ∧ (l.res.sm.flowAt f).ignored = false

instance (l : Handled σ) (extra : EXTRAType) (f : ℕ) : Decidable (l.Safe extra f) :=
  decidable_of_iff (∀ e ∈ l.res.edit, 0 ≤ e.len_old + ((sortOps e.ops).map Operation.delta).sum ∧ (e.cut = true →
      extra = .TCP ∧ l.pkt.getDEST = .CLIENT ∧ (l.res.sm.flowAt f).ignored = false))
    ⟨fun h ↦ ⟨fun e he ↦ (h e he).1, fun e he ↦ (h e he).2⟩, fun h e he ↦ ⟨h.fits e he, h.cut e he⟩⟩

end Handled

/-- The packets with payload of one flow and direction that went out. -/
def shipped (f : ℕ) (d : DEST) (ls : List (Handled σ)) : List (Handled σ) :=
  ls.filter (fun l ↦ decide (l.On f d ∧ l.Carries))

def InSequence (f : ℕ) (d : DEST) (ls : List (Handled σ)) : Prop :=
  (shipped f d ls).IsChain (fun l m ↦ m.pkt.seq = l.pkt.seq + UInt32.ofInt l.len)

/-- What was sent, put in the order of its sequence numbers, is one stream without gap
or overlap, and that stream is what was built. -/
def Delivered (f : ℕ) (d : DEST) (ls : List (Handled σ)) : Prop :=
  ∃ a b segs, segs.Perm ((shipped f d ls).flatMap Handled.segments) ∧ Joined a segs b ∧
    (segs.map Prod.snd).flatten = ((shipped f d ls).map Handled.built).flatten

theorem Edit.kept_append_tail (e : Edit) : e.kept ++ e.tail = e.built := by
  unfold Edit.kept Edit.tail
  split
  · exact List.take_append_drop _ _
  · exact List.append_nil _

theorem Edit.length_kept {e : Edit} (h : e.cut = true) : (e.kept.length : Int) = e.len_old ∧ e.tail ≠ [] := by
  have hc := h
  simp only [Edit.cut, Bool.and_eq_true, decide_eq_true_eq] at hc
  unfold Edit.kept Edit.tail
  rw [if_pos h, if_pos h]
  refine ⟨by rw [List.length_take]; omega, fun hnil ↦ ?_⟩
  have := congrArg List.length hnil
  rw [List.length_drop, List.length_nil] at this
  omega

theorem Edit.tail_uncut {e : Edit} (h : e.cut = false) : e.tail = [] := by simp [Edit.tail, h]

def Handled.kept (l : Handled σ) : Text := (l.res.edit.map Edit.kept).getD l.pkt.payload

/-- What one packet adds to the stream, once nothing is waiting in the trail. -/
structure Ships (sm : StateManager σ) (f : ℕ) (l : Handled σ) : Prop where
  trail : (l.res.sm.flowAt f).account.trail l.pkt.getDEST = []
  offset : (l.res.sm.flowAt f).account.offset l.pkt.getDEST =
    (sm.flowAt f).account.offset l.pkt.getDEST + (l.built.length - l.len)
  segments : ∃ segs, segs.Perm l.segments ∧ (segs.map Prod.snd).flatten = l.built ∧
    Joined (l.pkt.seq + UInt32.ofInt ((sm.flowAt f).account.offset l.pkt.getDEST)) segs
      (l.pkt.seq + UInt32.ofInt ((sm.flowAt f).account.offset l.pkt.getDEST) + UInt32.ofNat l.built.length)

theorem passed_shipment {p : Packet} {a b : Int} {out : AppOut σ} {nat' : NAT} (hextra : sm.extra ≠ .SHIFT)
    (hp : p.Segment a b) (hf : p.Framed a)
    (hpass : Passed pc sm f (adjust (sm.flowAt f) p.getDEST p) a b nat' out)
    (hfits : ∀ e, out.edit = some e → 0 ≤ e.len_old + ((sortOps e.ops).map Operation.delta).sum) :
    out.pkt.Segment a b ∧ out.pkt.Framed a ∧
      out.pkt.transport_len_ = p.getTransportHeaderLen + ((out.edit.map Edit.kept).getD p.payload).length ∧
      out.pkt.getTransportHeaderLen = p.getTransportHeaderLen ∧
      segmentAt out.pkt.obuf_ out.pkt.obuf_len_ a =
        (p.seq + UInt32.ofInt ((sm.flowAt f).account.offset p.getDEST), (out.edit.map Edit.kept).getD p.payload) := by
  have hq : (adjust (sm.flowAt f) p.getDEST p).Segment a b := adjust_segment _ _ hp
  have hhl := adjust_headerLen (sm.flowAt f) p.getDEST hp.tcp_
  have heq := adjust_eq (sm.flowAt f) p.getDEST hp.tcp_
  have hseq : (adjust (sm.flowAt f) p.getDEST p).seq =
      p.seq + UInt32.ofInt ((sm.flowAt f).account.offset p.getDEST) := adjust_seq _ _ hp.tcp_
  have hfq : (adjust (sm.flowAt f) p.getDEST p).Framed a := by rw [heq]; exact ⟨hf.version, hf.obuf_len_⟩
  have hlq : (adjust (sm.flowAt f) p.getDEST p).transport_len_ = p.transport_len_ := by rw [heq]; rfl
  have hcomplete := hp.complete
  have hheader := hp.header
  cases he : out.edit with
  | none =>
    obtain ⟨-, -, hpkt, -⟩ := hpass.plain he
    have hpay : p.payload = p.obuf_.slice (a + p.getTransportHeaderLen)
        (p.transport_len_ - p.getTransportHeaderLen).toNat := by
      simp only [Packet.payload, Packet.transport, hp.tcp_, Option.some_or]
    have hlen : p.transport_len_ = p.getTransportHeaderLen + p.payload.length := by
      rw [hpay, Mem.length_slice]
      omega
    rw [hpkt hextra]
    refine ⟨hq, hfq, hlq.trans hlen, hhl, (@segmentAt_eq _ _ _ hq hfq p.payload ?_ ?_).trans (by rw [hseq]; rfl)⟩
    · rw [hlq, hhl, ← hlen]
    · rw [hhl, Mem.slice_congr (fun i h₁ h₂ ↦ adjust_outside _ _ hp.tcp_ (by omega)), hpay, Mem.length_slice]
  | some e =>
    obtain ⟨hedit, -⟩ := hpass.edited e he
    have hhead := hpass.header.headerLen hq
    obtain ⟨hlen, hslice⟩ := hedit.sent (hfits e he)
    have hseg : out.pkt.Segment a b := hpass.header.segment hq (by omega)
    have hframed : out.pkt.Framed a := hpass.header.framed hfq (by rw [hedit.obuf_len_, hq.ip_len_])
    refine ⟨hseg, hframed, by rw [hlen, hhl]; rfl, hhead.trans hhl,
      (@segmentAt_eq _ _ _ hseg hframed e.kept ?_ ?_).trans (by rw [hpass.header.seq hq, hseq]; rfl)⟩
    · rw [hhead, hlen]
    · rw [hhead, hslice]

def Handled.tail (l : Handled σ) : Text := (l.res.edit.map Edit.tail).getD []

theorem Handled.kept_append_tail (l : Handled σ) : l.kept ++ l.tail = l.built := by
  unfold Handled.kept Handled.tail Handled.built
  cases l.res.edit with
  | none => exact List.append_nil _
  | some e => exact e.kept_append_tail

theorem passed_booked {p : Packet} {a b : Int} {out : AppOut σ} {nat' : NAT} (hextra : sm.extra ≠ .SHIFT)
    (hp : p.Segment a b) (hpass : Passed pc sm f (adjust (sm.flowAt f) p.getDEST p) a b nat' out)
    (hlen : out.pkt.transport_len_ = p.getTransportHeaderLen + ((out.edit.map Edit.kept).getD p.payload).length)
    (htrail : (sm.flowAt f).account.trail p.getDEST = []) :
    (out.sm.flowAt f).account.trail p.getDEST = (out.edit.map Edit.tail).getD [] ∧
      (out.sm.flowAt f).account.offset p.getDEST = (sm.flowAt f).account.offset p.getDEST +
        (((out.edit.map Edit.kept).getD p.payload).length - (p.transport_len_ - p.getTransportHeaderLen)) := by
  have hhl := adjust_headerLen (sm.flowAt f) p.getDEST hp.tcp_
  have hlq : (adjust (sm.flowAt f) p.getDEST p).transport_len_ = p.transport_len_ := by
    rw [adjust_eq _ _ hp.tcp_]
    rfl
  cases he : out.edit with
  | none =>
    obtain ⟨hacc, htl, -, -⟩ := hpass.plain he
    rw [he] at hlen
    rw [hacc, htrail]
    refine ⟨rfl, ?_⟩
    rw [hlq] at htl
    simp only [Option.map_none, Option.getD_none] at hlen ⊢
    omega
  | some e =>
    obtain ⟨hedit, hacc⟩ := hpass.edited e he
    rw [he] at hlen
    have hdelta := hedit.delta
    have hold := hedit.len_old
    simp only [Option.map_some, Option.getD_some] at hlen ⊢
    rw [hhl] at hdelta hold
    rw [hlq] at hold
    rw [hacc, adjust_getDEST]
    simp only [Account.record, true_and, htrail, if_true]
    refine ⟨?_, by omega⟩
    cases hcut : e.cut
    · simp [Edit.tail_uncut hcut]
    · simp [hextra]

theorem ofInt_natCast (n : ℕ) : UInt32.ofInt n = UInt32.ofNat n := by
  rw [UInt32.ofInt, ← UInt32.toNat_inj, UInt32.toNat_ofNat', UInt32.toNat_ofNat']
  omega

theorem send_ships {q r : Packet} {a b : Int} {sent : List Sent} {s : UInt32} {kept tail : Text}
    (hs : q.Segment a b) (hf : q.Framed a) (hflow : nat.exttcpflow_ = some f) (hlt : f < sm.heap.length)
    (h : nat.send sm q = .ok (sm', r, sent)) (hat : segmentAt q.obuf_ q.obuf_len_ a = (s, kept))
    (hlen : q.transport_len_ = q.getTransportHeaderLen + kept.length)
    (htail : (sm.flowAt f).account.trail q.getDEST = tail)
    (hsafe : tail ≠ [] → sm.extra = .TCP ∧ q.getDEST = .CLIENT ∧ 0 < kept.length ∧
      (sm'.flowAt f).ignored = false) :
    (sm'.flowAt f).account.trail q.getDEST = [] ∧
    (sm'.flowAt f).account.offset q.getDEST = (sm.flowAt f).account.offset q.getDEST + tail.length ∧
    ∃ segs, segs.Perm (sent.map Sent.segment) ∧ (segs.map Prod.snd).flatten = kept ++ tail ∧
      Joined s segs (s + UInt32.ofNat (kept ++ tail).length) := by
  rcases send_cases hs.headed hf hflow h with ⟨hno, rfl, hsent, -⟩ | ⟨⟨-, hdest, -, -, htr⟩, rfl, hsent, -⟩
  · have hnil : tail = [] := by
      by_contra hne
      obtain ⟨h₁, h₂, h₃, h₄⟩ := hsafe hne
      refine hno ⟨h₁, h₂, by omega, h₄, fun he ↦ hne ?_⟩
      rw [← htail, h₂]
      exact he
    subst hnil
    refine ⟨htail, (Int.add_zero _).symm, [(s, kept)], by rw [hsent, hat], by simp, ?_⟩
    rw [List.append_nil]
    exact .one s kept
  · rw [hdest] at htail ⊢
    have htl : (sm.flowAt f).trail .CLIENT = tail := htail
    rw [flowAt_setFlow hlt, tailSent_account, hsent, hat, htl]
    refine ⟨by simp only [if_true], by simp only [if_true, htail],
      [(s, kept), (s + UInt32.ofNat kept.length, tail)], ?_, by simp, ?_⟩
    · rw [hlen, show q.getTransportHeaderLen + (kept.length : Int) - q.getTransportHeaderLen = kept.length by omega,
        ofInt_natCast]
      exact .swap _ _ _
    · rw [List.length_append, UInt32.ofNat_add, ← UInt32.add_assoc]
      exact (Joined.one s kept).append (.one _ tail)

theorem ship_step (hips : (ips.flatMap poolOf).Nodup) (hs : Sound ips sm) (hextra : sm.extra ≠ .SHIFT)
    {l : Handled σ} (h : nat.translateWith (doApp pc) sm l.pkt = .ok l.res) (hon : l.On f l.pkt.getDEST)
    (hp : l.pkt.IsSegment) (htrail : (sm.flowAt f).account.trail l.pkt.getDEST = []) (hsafe : l.Safe sm.extra f) :
    Ships sm f l := by
  obtain ⟨w, p, t⟩ := l
  obtain ⟨hret, hflow, -⟩ := hon
  dsimp only at h hret hflow hp htrail
  rcases translateApp_cases hips hs h with ⟨hret', -⟩ | ⟨nat₁, sm₂, out, sm₃, p₃, sent, h₂, ha, hsend, rfl⟩
  · rw [hret'] at hret
    cases hret
  have hs₂ := hs.grown h₂.grown
  obtain ⟨hgrown, -, hfound⟩ := doApp_other hips hs₂.mode ha
  obtain ⟨a, b, hseg, -⟩ := hp.segment
  obtain ⟨hpass, -⟩ := doApp_passed hips hs₂.coherent hs₂.mode (hfound.symm.trans hflow) hseg ha
  have hacc := h₂.account f
  rw [← h₂.grown.extra] at hextra
  obtain ⟨hsegq, hfrq, hlq, hhlq, hat⟩ := passed_shipment hextra hseg (hp.framed hseg) hpass hsafe.fits
  obtain ⟨hbook, hoff⟩ := passed_booked hextra hseg hpass hlq (by rw [hacc]; exact htrail)
  have hT := @Packet.touched_rewrite _ out.sm out.nat _ _ hsegq.tcp_ hsegq.udp_ hfrq
  have hseg' := hT.segment hsegq
  have hhl' := hT.getTransportHeaderLen hsegq.tcp_
  have hat' := @segmentAt_touched _ _ _ out.pkt.obuf_len_ hT hsegq.headed
  obtain ⟨m, hm, -⟩ := hT
  rw [hm] at hsend hseg' hhl' hat'
  rw [hat, hacc] at hat'
  have hdest : (out.pkt.withObuf m).getDEST = p.getDEST := hpass.header.getDEST.trans (adjust_getDEST _ _)
  have hlt : f < out.sm.heap.length := hgrown.lt (getFlow_lt hs₂.coherent hs₂.mode (hfound.symm.trans hflow))
  have hsplit := Handled.kept_append_tail ⟨w, p, ⟨1, out.nat, sm₃, p₃, sent, out.asked, out.edit⟩⟩
  have hcutsafe : (out.edit.map Edit.tail).getD [] ≠ [] → out.sm.extra = .TCP ∧ (out.pkt.withObuf m).getDEST = .CLIENT ∧
      0 < ((out.edit.map Edit.kept).getD p.payload).length ∧ (sm₃.flowAt f).ignored = false := by
    intro hne
    cases he : out.edit with
    | none =>
      rw [he] at hne
      exact absurd rfl hne
    | some e =>
      rw [he] at hne
      have hcut : e.cut = true := by
        by_contra hcut
        exact hne (Edit.tail_uncut (by simpa using hcut))
      obtain ⟨h₁, hclient, hheard⟩ := hsafe.cut e he hcut
      refine ⟨?_, hdest.trans hclient, ?_, hheard⟩
      · rw [hgrown.extra, h₂.grown.extra]
        exact h₁
      · have hk := (Edit.length_kept hcut).1
        simp only [Edit.cut, Bool.and_eq_true, decide_eq_true_eq] at hcut
        simp only [Option.map_some, Option.getD_some]
        omega
  obtain ⟨h₃, h₄, segs, hperm, hflat, hjoin⟩ := send_ships hseg' ⟨hfrq.version, hfrq.obuf_len_⟩ hflow hlt hsend hat'
    (by rw [hhl', hhlq]; exact hlq) (by rw [hdest]; exact hbook) hcutsafe
  rw [hdest] at h₃ h₄
  refine ⟨h₃, ?_, segs, hperm, hflat.trans hsplit, ?_⟩
  · rw [← hsplit, List.length_append]
    dsimp only
    rw [h₄, hoff, hacc]
    simp only [Handled.kept, Handled.tail, Handled.len]
    omega
  · rw [← hsplit]
    exact hjoin

end Nat64Alg
