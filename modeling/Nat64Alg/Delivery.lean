import Nat64Alg.Tails

namespace Nat64Alg

open Lib StateManager

variable {σ : Type} {pc : ParserClass σ} {ips : List IPv4Addr} {sm : StateManager σ} {nat : NAT} {f : ℕ} {d : DEST}

theorem shipped_append (f : ℕ) (d : DEST) (ls ls' : List (Handled σ)) :
    shipped f d (ls ++ ls') = shipped f d ls ++ shipped f d ls' := by
  simp [shipped]

theorem shipped_one (f : ℕ) (d : DEST) (l : Handled σ) :
    shipped f d [l] = if l.On f d ∧ l.Carries then [l] else [] := by
  simp only [shipped, List.filter_cons, List.filter_nil, decide_eq_true_eq]

theorem unshipped (hips : (ips.flatMap poolOf).Nodup) (hs : Sound ips sm) (hextra : sm.extra ≠ .SHIFT) {l : Handled σ}
    (h : nat.translateWith (doApp pc) sm l.pkt = .ok l.res) (hno : ¬(l.On f d ∧ l.Carries))
    (hp : l.res.ret = 1 → l.res.nat.exttcpflow_ = some f → l.pkt.IsSegment) :
    (l.res.sm.flowAt f).account.trail d = (sm.flowAt f).account.trail d ∧
      (l.res.sm.flowAt f).account.offset d = (sm.flowAt f).account.offset d := by
  by_cases hon : l.On f d
  case neg => exact Handled.account_other hips hs h hon hp
  -- a packet of the flow without payload: nothing is edited, and there is no tail to send
  have hempty : l.pkt.transport_len_ ≤ l.pkt.getTransportHeaderLen := not_lt.mp fun hc ↦ hno ⟨hon, hc⟩
  obtain ⟨w, p, t⟩ := l
  obtain ⟨hret, hflow, rfl⟩ := hon
  dsimp only at h hp hret hflow hempty ⊢
  rcases translateApp_cases hips hs h with ⟨hret', -⟩ | ⟨nat₁, sm₂, out, sm₃, p₃, sent, h₂, ha, hsend, rfl⟩
  · rw [hret'] at hret
    cases hret
  have hs₂ := hs.grown h₂.grown
  obtain ⟨-, -, hfound⟩ := doApp_other hips hs₂.mode ha
  obtain ⟨a, b, hseg, -⟩ := (hp rfl hflow).segment
  obtain ⟨hpass, hlong⟩ := doApp_passed hips hs₂.coherent hs₂.mode (hfound.symm.trans hflow) hseg ha
  have hedit : out.edit = none := by
    by_contra hsome
    exact absurd hempty (not_le.mpr (hlong (Option.isSome_iff_ne_none.mpr hsome)))
  obtain ⟨hplain, -, hpkt, -⟩ := hpass.plain hedit
  have hpkt := hpkt (by rwa [h₂.grown.extra])
  have hframed := (hp rfl hflow).framed hseg
  have hT := hpass.touched hframed hseg
  have hsegq : out.pkt.Segment a b := by
    rw [hpkt]
    exact adjust_segment _ _ hseg
  have hhl := hT.getTransportHeaderLen hsegq.tcp_
  have hseg' := hT.segment hsegq
  have hframed' := hT.framed (hpass.framed hframed hseg)
  obtain ⟨m, hm, -⟩ := hT
  rw [hm] at hsend hhl hseg' hframed'
  rcases send_cases hseg'.headed hframed' hflow hsend with ⟨-, rfl, -⟩ | ⟨⟨-, -, hlen, -⟩, -⟩
  · rw [hplain, h₂.account f]
    exact ⟨rfl, rfl⟩
  · rw [hhl, hpkt, adjust_headerLen _ _ hseg.tcp_, adjust_eq _ _ hseg.tcp_] at hlen
    exact absurd hempty (not_le.mpr hlen)

/-- What a run has delivered so far, and where the next segment in sequence has to start. -/
structure Streamed (f : ℕ) (d : DEST) (ls : List (Handled σ)) (acc : Account) : Prop where
  trail : acc.trail d = []
  stream : ∃ a b segs, segs.Perm ((shipped f d ls).flatMap Handled.segments) ∧ Joined a segs b ∧
    (segs.map Prod.snd).flatten = ((shipped f d ls).map Handled.built).flatten ∧
    ∀ l ∈ (shipped f d ls).getLast?, b = l.pkt.seq + UInt32.ofInt l.len + UInt32.ofInt (acc.offset d)

theorem Streamed.start (f : ℕ) (d : DEST) {acc : Account} (h : acc.trail d = []) :
    Streamed f d ([] : List (Handled σ)) acc :=
  ⟨h, 0, 0, [], .refl _, rfl, rfl, fun _ h ↦ by cases h⟩

theorem Streamed.delivered {ls : List (Handled σ)} {acc : Account} (h : Streamed f d ls acc) : Delivered f d ls := by
  obtain ⟨-, a, b, segs, hperm, hjoin, hflat, -⟩ := h
  exact ⟨a, b, segs, hperm, hjoin, hflat⟩

theorem Streamed.ship {ls : List (Handled σ)} {l : Handled σ} (h : Streamed f d ls (sm.flowAt f).account)
    (hon : l.On f d ∧ l.Carries) (hl : Ships sm f l)
    (hseq : ∀ k ∈ (shipped f d ls).getLast?, l.pkt.seq = k.pkt.seq + UInt32.ofInt k.len) :
    Streamed f d (ls ++ [l]) (l.res.sm.flowAt f).account := by
  obtain ⟨a, b, segs, hperm, hjoin, hflat, hend⟩ := h.stream
  obtain ⟨htrail, hoff, new, hnew, hnewflat, hnewjoin⟩ := hl
  obtain rfl := hon.1.2.2
  refine ⟨htrail, ?_⟩
  rw [shipped_append, shipped_one, if_pos hon]
  have hlast : l.pkt.seq + UInt32.ofInt ((sm.flowAt f).account.offset l.pkt.getDEST) +
      UInt32.ofNat l.built.length = l.pkt.seq + UInt32.ofInt l.len +
        UInt32.ofInt ((l.res.sm.flowAt f).account.offset l.pkt.getDEST) := by
    rw [hoff, UInt32.ofInt_add, ← ofInt_natCast,
      show (l.built.length : Int) = l.len + (l.built.length - l.len) by omega, UInt32.ofInt_add]
    simp only [show l.len + (l.built.length - l.len) - l.len = l.built.length - l.len by omega]
    grind
  rcases List.eq_nil_or_concat (shipped f l.pkt.getDEST ls) with hnil | ⟨ks, k, hk⟩
  · rw [hnil] at hperm hflat
    obtain rfl := List.perm_nil.mp hperm
    rw [hnil]
    refine ⟨_, _, new, ?_, hnewjoin, ?_, ?_⟩
    · simpa using hnew
    · simpa using hnewflat
    · simpa using hlast
  · have hk' : k ∈ (shipped f l.pkt.getDEST ls).getLast? := by simp [hk]
    have hb : b = l.pkt.seq + UInt32.ofInt ((sm.flowAt f).account.offset l.pkt.getDEST) := by
      rw [hend k hk', hseq k hk']
    subst hb
    refine ⟨a, _, segs ++ new, ?_, hjoin.append hnewjoin, ?_, ?_⟩
    · simpa using hperm.append hnew
    · simp [hflat, hnewflat]
    · simpa using hlast

/-- From the configured state on, the packets of a flow and direction that follow each other
are delivered as one stream of what was built, when no payload grows past the segment size
except where its tail is sent. -/
theorem rewritten_delivered {prefix_ : IPv6Addr} {extra : EXTRAType} {protocols : OrderedMap String Protocol nameLt}
    (hips : (ips.flatMap poolOf).Nodup) (hextra : extra ≠ .SHIFT) {ls : List (Handled σ)} {s : System σ}
    (hrun : Run (System.Step (doApp pc)) (.start (configured prefix_ extra protocols ips)) ls s)
    (hseg : ∀ l ∈ ls, l.res.ret = 1 → l.res.nat.exttcpflow_ = some f → l.pkt.IsSegment)
    (hseq : InSequence f d ls) (hsafe : ∀ l ∈ shipped f d ls, l.Safe extra f) : Delivered f d ls := by
  refine ((hrun.history (I := fun ls s ↦ Sound ips s.sm ∧ s.sm.extra = extra ∧
    ((∀ l ∈ ls, l.res.ret = 1 → l.res.nat.exttcpflow_ = some f → l.pkt.IsSegment) → InSequence f d ls →
      (∀ l ∈ shipped f d ls, l.Safe extra f) → Streamed f d ls (s.sm.flowAt f).account)) ?_
    ⟨Sound.start prefix_ extra protocols ips, configured_extra prefix_ extra protocols ips,
      fun _ _ _ ↦ .start f d (by rw [System.start, account_start]; rfl)⟩).2.2 hseg hseq hsafe).delivered
  rintro ls s l s' ⟨hs, rfl, hstream⟩ ⟨h, rfl⟩
  have hgrown := translateWith_grown hips hs.mode (fun _ _ _ hm ha ↦ (doApp_other hips hm ha).1) h
  refine ⟨hs.grown hgrown, hgrown.extra, fun hseg hseq hsafe ↦ ?_⟩
  rw [System.after_sm]
  have hseq' := hseq
  unfold InSequence at hseq'
  rw [shipped_append, List.isChain_append] at hseq'
  rw [shipped_append] at hsafe
  have hstream := hstream (fun k hk ↦ hseg k (List.mem_append_left _ hk)) hseq'.1
    (fun k hk ↦ hsafe k (List.mem_append_left _ hk))
  have hp := hseg l (List.mem_append_right _ List.mem_cons_self)
  by_cases hon : l.On f d ∧ l.Carries
  · rw [shipped_one, if_pos hon] at hseq' hsafe
    obtain ⟨⟨hret, hflow, rfl⟩, -⟩ := id hon
    refine hstream.ship hon (ship_step hips hs hextra h hon.1 (hp hret hflow) hstream.trail
      (hsafe l (List.mem_append_right _ List.mem_cons_self))) (fun k hk ↦ hseq'.2.2 k hk l rfl)
  · obtain ⟨htrail, hoff⟩ := unshipped hips hs hextra h hon hp
    refine ⟨htrail.trans hstream.trail, ?_⟩
    rw [shipped_append, shipped_one, if_neg hon, List.append_nil, hoff]
    exact hstream.stream

end Nat64Alg
