import Nat64Alg.Tails
import Nat64Alg.Sessions

namespace Nat64Alg

open Lib StateManager

variable {σ : Type} {pc : ParserClass σ} {ips : List IPv4Addr} {sm sm' : StateManager σ} {nat : NAT} {f : ℕ} {d : DEST}

/-- What one packet of a flow and direction sends: itself under the number `seq`, and
maybe an extra packet in front that takes up where it ends. -/
def SentFrom (sent : List Sent) (seq : UInt32) : Prop :=
  ∃ m, m.segment.1 = seq ∧
    (sent = [m] ∨ ∃ x, sent = [x, m] ∧ x.segment.1 = m.segment.1 + UInt32.ofInt m.size)

/-- The payload bytes put in the packets of a flow and direction, and those received in them. -/
def bytesOut (f : ℕ) (d : DEST) (ls : List (Handled σ)) : Int :=
  ((ls.filter (fun l ↦ decide (l.On f d))).map (fun l ↦ (l.res.sent.map Sent.size).sum)).sum

def bytesIn (f : ℕ) (d : DEST) (ls : List (Handled σ)) : Int :=
  ((ls.filter (fun l ↦ decide (l.On f d))).map Handled.len).sum

theorem send_accounts {q r : Packet} {a : Int} {sent : List Sent} (hs : q.Headed a) (hf : q.Framed a)
    (hflow : nat.exttcpflow_ = some f) (hlt : f < sm.heap.length) (h : nat.send sm q = .ok (sm', r, sent)) :
    SentFrom sent q.seq ∧ (sm'.flowAt f).account.offset q.getDEST = (sm.flowAt f).account.offset q.getDEST +
      ((sent.map Sent.size).sum - (q.transport_len_ - q.getTransportHeaderLen)) := by
  have hsize := sizeAt_headed hs hf
  have hseq : (segmentAt q.obuf_ q.obuf_len_ a).1 = q.seq := (Packet.seq_eq hs.tcp_).symm
  rcases send_cases hs hf hflow h with ⟨-, rfl, hsegs, hsizes⟩ | ⟨⟨-, hdest, -⟩, rfl, hsegs, hsizes⟩
  · obtain ⟨m, rfl, hm⟩ := List.map_eq_singleton_iff.mp hsegs
    refine ⟨⟨m, by rw [hm, hseq], .inl rfl⟩, ?_⟩
    rw [hsizes, List.sum_singleton, hsize, Int.sub_self, Int.add_zero]
  · obtain ⟨x, m, rfl⟩ := List.length_eq_two.mp (by simpa using congrArg List.length hsegs)
    simp only [List.map_cons, List.map_nil, List.cons.injEq, and_true] at hsegs hsizes
    obtain ⟨hx, hm⟩ := hsegs
    obtain ⟨hxs, hms⟩ := hsizes
    refine ⟨⟨m, by rw [hm, hseq], .inr ⟨x, rfl, by rw [hx, hm, hms, hsize]⟩⟩, ?_⟩
    rw [flowAt_setFlow hlt, tailSent_account, hdest]
    simp only [if_true, List.map_cons, List.map_nil, List.sum_cons, List.sum_nil, hxs, hms, hsize, Flow.account]
    omega

theorem Passed.offset {p : Packet} {a b : Int} {nat' : NAT} {out : AppOut σ} (hp : p.Segment a b)
    (h : Passed pc sm f (adjust (sm.flowAt f) p.getDEST p) a b nat' out) :
    (out.sm.flowAt f).account.offset p.getDEST =
      (sm.flowAt f).account.offset p.getDEST + (out.pkt.transport_len_ - p.transport_len_) := by
  have hl : (adjust (sm.flowAt f) p.getDEST p).transport_len_ = p.transport_len_ := by
    rw [adjust_eq _ _ hp.tcp_]
    rfl
  cases he : out.edit with
  | none =>
    obtain ⟨hacc, hlen, -⟩ := h.plain he
    rw [hacc, hlen, hl, Int.sub_self, Int.add_zero]
  | some e =>
    obtain ⟨hedit, hacc⟩ := h.edited e he
    have hdelta := hedit.delta
    have hold := hedit.len_old
    rw [hl] at hold
    rw [hacc, adjust_getDEST]
    simp only [Account.record, if_true]
    omega

theorem account_step (hips : (ips.flatMap poolOf).Nodup) (hs : Sound ips sm) {l : Handled σ}
    (h : nat.translateWith (doApp pc) sm l.pkt = .ok l.res) (hon : l.On f l.pkt.getDEST) (hp : l.pkt.IsSegment) :
    SentFrom l.res.sent (l.pkt.seq + UInt32.ofInt ((sm.flowAt f).account.offset l.pkt.getDEST)) ∧
      (l.res.sm.flowAt f).account.offset l.pkt.getDEST = (sm.flowAt f).account.offset l.pkt.getDEST +
        ((l.res.sent.map Sent.size).sum - l.len) := by
  obtain ⟨w, p, t⟩ := l
  obtain ⟨hret, hflow, -⟩ := hon
  dsimp only at h hret hflow hp
  rcases translateApp_cases hips hs h with ⟨hret', -⟩ | ⟨nat₁, sm₂, out, sm₃, p₃, sent, h₂, ha, hsend, rfl⟩
  · rw [hret'] at hret
    cases hret
  have hs₂ := hs.grown h₂.grown
  obtain ⟨hgrown, -, hfound⟩ := doApp_other hips hs₂.mode ha
  obtain ⟨a, b, hseg, -⟩ := hp.segment
  obtain ⟨hpass, -⟩ := doApp_passed hips hs₂.coherent hs₂.mode (hfound.symm.trans hflow) hseg ha
  have hq : (adjust (sm₂.flowAt f) p.getDEST p).Segment a b := adjust_segment _ _ hseg
  have hhead := hpass.header.headed hq
  have hframed := hpass.framed (hp.framed hseg) hseg
  have hT := hpass.touched (hp.framed hseg) hseg
  obtain ⟨hhead', hhl⟩ := hT.headed hhead
  have hlt : f < out.sm.heap.length := hgrown.lt (getFlow_lt hs₂.coherent hs₂.mode (hfound.symm.trans hflow))
  have hseq : (out.nat.rewrite out.sm out.pkt).seq = p.seq + UInt32.ofInt ((sm.flowAt f).account.offset p.getDEST) := by
    rw [Packet.seq_eq hhead'.tcp_, ← h₂.account f]
    refine (congrArg Prod.fst (@segmentAt_touched _ _ _ 0 hT hhead)).trans ?_
    exact ((Packet.seq_eq hhead.tcp_).symm.trans (hpass.header.seq hq)).trans (adjust_seq _ _ hseg.tcp_)
  have hdest := hpass.rewrite_getDEST (hp.framed hseg) hseg
  have hlen : (out.nat.rewrite out.sm out.pkt).transport_len_ = out.pkt.transport_len_ := by
    obtain ⟨m, hm, -⟩ := hT
    rw [hm]
    rfl
  have hoff := hpass.offset hseg
  rw [h₂.account f] at hoff
  obtain ⟨hfrom, hbook⟩ := send_accounts hhead' (hT.framed hframed) hflow hlt hsend
  rw [hdest, hhl, hpass.header.headerLen hq, adjust_headerLen _ _ hseg.tcp_, hlen, hoff] at hbook
  refine ⟨hseq ▸ hfrom, hbook.trans ?_⟩
  simp only [Handled.len]
  omega

theorem bytes_snoc (f : ℕ) (d : DEST) (ls : List (Handled σ)) (l : Handled σ) :
    bytesOut f d (ls ++ [l]) - bytesIn f d (ls ++ [l]) = bytesOut f d ls - bytesIn f d ls +
      if l.On f d then (l.res.sent.map Sent.size).sum - l.len else 0 := by
  simp only [bytesOut, bytesIn, List.filter_append, List.map_append, List.sum_append, List.filter_cons,
    List.filter_nil, decide_eq_true_eq]
  split
  · simp only [List.map_cons, List.map_nil, List.sum_cons, List.sum_nil]
    omega
  · simp

theorem account_run (hips : (ips.flatMap poolOf).Nodup) {prefix_ : IPv6Addr} {extra : EXTRAType}
    {protocols : OrderedMap String Protocol nameLt} {ls : List (Handled σ)} {s : System σ}
    (hrun : Run (System.Step (doApp pc)) (.start (configured prefix_ extra protocols ips)) ls s)
    (hseg : ∀ l ∈ ls, l.res.ret = 1 → l.res.nat.exttcpflow_ = some f → l.pkt.IsSegment) (d : DEST) :
    Sound ips s.sm ∧ (s.sm.flowAt f).getOffset d = bytesOut f d ls - bytesIn f d ls := by
  have h := hrun.history (I := fun ls s ↦ Sound ips s.sm ∧
    ((∀ l ∈ ls, l.res.ret = 1 → l.res.nat.exttcpflow_ = some f → l.pkt.IsSegment) →
      (s.sm.flowAt f).account.offset d = bytesOut f d ls - bytesIn f d ls)) ?_
    ⟨Sound.start prefix_ extra protocols ips, fun _ ↦ by rw [System.start, account_start]; rfl⟩
  · exact ⟨h.1, h.2 hseg⟩
  rintro ls s l s' ⟨hs, hacc⟩ ⟨h, rfl⟩
  refine ⟨hs.grown (translateWith_grown hips hs.mode (fun _ _ _ hm ha ↦ (doApp_other hips hm ha).1) h),
    fun hseg ↦ ?_⟩
  have hacc := hacc fun k hk ↦ hseg k (List.mem_append_left _ hk)
  have hp := hseg l (List.mem_append_right _ List.mem_cons_self)
  rw [System.after_sm, bytes_snoc, ← hacc]
  split
  case isTrue hon =>
    obtain ⟨hret, hflow, rfl⟩ := id hon
    exact (account_step hips hs h hon (hp hret hflow)).2
  case isFalse hon => rw [(Handled.account_other hips hs h hon hp).2, Int.add_zero]

/-- In every run the offset of a flow in a direction is the payload sent less the payload
received, and each packet leaves under its number moved by the offset from before it, an
extra packet right behind it. A size is below zero where operations take away more than
the packet carries. -/
theorem offset_accounts (hips : ips.Nodup) {prefix_ : IPv6Addr} {extra : EXTRAType}
    {protocols : OrderedMap String Protocol nameLt} {ls : List (Handled σ)} {s : System σ}
    (hrun : Run (System.Step (doApp pc)) (.start (configured prefix_ extra protocols ips)) ls s)
    (hseg : ∀ l ∈ ls, l.res.ret = 1 → l.res.nat.exttcpflow_ = some f → l.pkt.IsSegment) :
    (s.sm.flowAt f).getOffset d = bytesOut f d ls - bytesIn f d ls ∧
    ∀ us l vs, ls = us ++ l :: vs → l.On f d → ∃ t,
      Run (System.Step (doApp pc)) (.start (configured prefix_ extra protocols ips)) us t ∧
      System.Step (doApp pc) t l (t.after l) ∧
      SentFrom l.res.sent (l.pkt.seq + UInt32.ofInt ((t.sm.flowAt f).getOffset d)) ∧
      ∀ x ∈ l.res.sent, 0 ≤ x.size → (x.segment.2.length : Int) = x.size := by
  refine ⟨(account_run (nodup_pools hips) hrun hseg d).2, ?_⟩
  rintro us l vs rfl hon
  obtain ⟨t, t', hus, ⟨h, rfl⟩, -⟩ := hrun.at_label
  obtain ⟨hs, -⟩ := account_run (nodup_pools hips) hus (fun k hk ↦ hseg k (List.mem_append_left _ hk)) d
  obtain ⟨hret, hflow, rfl⟩ := id hon
  exact ⟨t, hus, ⟨h, rfl⟩, (account_step (nodup_pools hips) hs h hon
    (hseg l (List.mem_append_right _ List.mem_cons_self) hret hflow)).1, fun x _ ↦ x.length_segment⟩

/-- A line from the server grows by 11 bytes, and its tail leaves in an extra packet. -/
theorem offset_accounts_tail : ∃ (ls : List (Handled Unit)) (s : System Unit),
    Run (System.Step (doApp (FTPParser.only once noJunk))) (.start (bothConf .TCP)) ls s ∧
    ls.map (fun l ↦ l.res.sent.map Sent.size) = [[0], [11, 1417]] ∧ bytesOut 0 .CLIENT ls = 1428 ∧
    bytesIn 0 .CLIENT ls = 1417 ∧ (s.sm.flowAt 0).getOffset .CLIENT = 11 ∧
    ∀ us l vs, ls = us ++ l :: vs → l.On 0 .CLIENT → ∃ t,
      Run (System.Step (doApp (FTPParser.only once noJunk))) (.start (bothConf .TCP)) us t ∧
      SentFrom l.res.sent (l.pkt.seq + UInt32.ofInt ((t.sm.flowAt 0).getOffset .CLIENT)) := by
  have hrun := @System.perform_run _ (doApp (FTPParser.only once noJunk)) (.start (bothConf .TCP)) oversizeDown
  obtain ⟨ls, hls⟩ : ∃ ls, ls = (System.perform (doApp (FTPParser.only once noJunk)) (.start (bothConf .TCP))
      oversizeDown).1 := ⟨_, rfl⟩
  obtain ⟨hsizes, hout, hin⟩ : ls.map (fun l ↦ l.res.sent.map Sent.size) = [[0], [11, 1417]] ∧
      bytesOut 0 .CLIENT ls = 1428 ∧ bytesIn 0 .CLIENT ls = 1417 := by
    rw [hls]
    decide +kernel
  have hseg : ∀ l ∈ ls, l.pkt.IsSegment := fun l hl ↦ oversizeDown_isSegment _ (System.perform_mem (hls ▸ hl))
  rw [← hls] at hrun
  obtain ⟨hoff, hsent⟩ := @offset_accounts _ _ _ 0 .CLIENT (List.nodup_singleton _) _ _ _ _ _ hrun
    (fun l hl _ _ ↦ hseg l hl)
  refine ⟨ls, _, hrun, hsizes, hout, hin, by rw [hoff, hout, hin]; rfl, fun us l vs he hon ↦ ?_⟩
  obtain ⟨t, hus, -, hfrom, -⟩ := hsent us l vs he hon
  exact ⟨t, hus, hfrom⟩

end Nat64Alg
