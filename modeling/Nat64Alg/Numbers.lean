import Nat64Alg.Sessions

namespace Nat64Alg

open Lib StateManager

variable {σ : Type} {pc : ParserClass σ} {ips : List IPv4Addr} {sm sm' : StateManager σ}

/-- `q` stands before `p` in the stream, on the circle of sequence numbers. -/
def Packet.Precedes (q p : Packet) : Prop := 0 < (p.seq - q.seq).toInt32.toInt

instance (q p : Packet) : Decidable (q.Precedes p) := inferInstanceAs (Decidable (_ < _))

/-- The changes made so far to payload that stands before `p`, and to payload that does not. -/
def changesBefore (f : ℕ) (d : DEST) (evs : List (Event σ)) (p : Packet) : Int :=
  (((turns f d evs).filter (fun t ↦ decide (t.1.Precedes p))).map Turn.delta).sum

def changesElsewhere (f : ℕ) (d : DEST) (evs : List (Event σ)) (p : Packet) : Int :=
  (((turns f d evs).filter (fun t ↦ !decide (t.1.Precedes p))).map Turn.delta).sum

theorem changes_split (f : ℕ) (d : DEST) (evs : List (Event σ)) (p : Packet) :
    changes f d evs = changesBefore f d evs p + changesElsewhere f d evs p := by
  unfold changes changesBefore changesElsewhere
  induction turns f d evs with
  | nil => rfl
  | cons t ts ih =>
    by_cases h : t.1.Precedes p
    · simp [h, ih, Int.add_assoc]
    · simp [h, ih, Int.add_left_comm]

/-- The numbers written for `p` after the calls `evs`, and when they agree with the
stream, with an earlier copy of the segment and with the position acknowledged. -/
structure NumbersTranslated (f : ℕ) (evs : List (Event σ)) (p : Packet) (out : AppOut σ) : Prop where
  seq : out.pkt.seq = p.seq + UInt32.ofInt (changes f p.getDEST evs)
  ack : out.pkt.ack = p.ack - UInt32.ofInt (changes f p.getDEST.other evs)
  in_stream : out.pkt.seq = p.seq + UInt32.ofInt (changesBefore f p.getDEST evs p) ↔
    UInt32.ofInt (changesElsewhere f p.getDEST evs p) = 0
  retransmitted : ∀ us nat q qout vs, evs = us ++ .passed nat q qout :: vs →
    Turn.On (q, qout) f p.getDEST → q.seq = p.seq →
    (out.pkt.seq = qout.pkt.seq ↔ UInt32.ofInt (changes f p.getDEST (.passed nat q qout :: vs)) = 0)
  acknowledged : ∀ us nat q qout vs, evs = us ++ .passed nat q qout :: vs →
    Turn.On (q, qout) f p.getDEST.other → ∀ x, p.ack = x + (qout.pkt.seq - q.seq) →
    (out.pkt.ack = x ↔ UInt32.ofInt (changes f p.getDEST.other (.passed nat q qout :: vs)) = 0)

theorem changes_begun (f : ℕ) (d : DEST) (evs : List (Event σ)) (nat : NAT) (p : Packet) :
    changes f d (evs ++ [.begun nat p]) = changes f d evs := by
  rw [changes_append]
  exact Int.add_zero _

theorem changes_passed (f : ℕ) (d : DEST) (evs : List (Event σ)) (nat : NAT) (p : Packet) (out : AppOut σ) :
    changes f d (evs ++ [.passed nat p out]) =
      changes f d evs + if Turn.On (p, out) f d then Turn.delta (p, out) else 0 := by
  rw [changes_append, changes, changes, turns_passed]
  split <;> simp

theorem offset_run (hips : (ips.flatMap poolOf).Nodup) {prefix_ : IPv6Addr} {extra : EXTRAType}
    {protocols : OrderedMap String Protocol nameLt} {evs : List (Event σ)} {f : ℕ}
    (hrun : Run (AppStep pc) (configured prefix_ extra protocols ips) evs sm) (hseg : Segments f evs) :
    ∀ d, (sm.flowAt f).account.offset d = changes f d evs := by
  refine (hrun.history (I := fun evs sm ↦ Sound ips sm ∧ (Segments f evs →
    ∀ d, (sm.flowAt f).account.offset d = changes f d evs)) ?_
    ⟨Sound.start prefix_ extra protocols ips, fun _ d ↦ by rw [account_start]; rfl⟩).2 hseg
  intro evs s ev s' ⟨hs, hoff⟩ hstep
  refine ⟨hs.grown (hstep.grown hips hs.mode), fun hseg d ↦ ?_⟩
  have hoff := hoff hseg.left d
  cases ev with
  | begun nat p => rw [changes_begun, hstep.other hips hs (fun t ht ↦ by cases ht), hoff]
  | passed nat p out =>
    rw [changes_passed]
    by_cases hf : out.nat.exttcpflow_ = some f
    · obtain ⟨a, b, hp, -, hpass, -⟩ := hstep.passed_cases hips hs hf
        (hseg nat p out (List.mem_append_right _ List.mem_cons_self) hf)
      obtain ⟨-, rfl⟩ := hstep
      cases he : out.edit with
      | none =>
        rw [(hpass.plain he).1, hoff]
        simp [Turn.delta, he]
      | some e =>
        rw [(hpass.edited e he).2, adjust_getDEST]
        by_cases hd : p.getDEST = d
        · simp [Account.record, Turn.On, hf, hd, Turn.delta, he, hoff]
        · simp [Account.record, Turn.On, hd, Ne.symm hd, hoff]
    · rw [hstep.other hips hs (fun t ht ↦ by cases ht; exact hf), hoff, if_neg (fun h ↦ hf h.1), Int.add_zero]

theorem seq_passed {f : ℕ} {p : Packet} {nat : NAT} {out : AppOut σ} {a b : Int} (hp : p.Segment a b)
    (h : Passed pc sm f (adjust (sm.flowAt f) p.getDEST p) a b nat out) :
    out.pkt.seq = p.seq + UInt32.ofInt ((sm.flowAt f).account.offset p.getDEST) ∧
      out.pkt.ack = p.ack - UInt32.ofInt ((sm.flowAt f).account.offset p.getDEST.other) := by
  have hseg := adjust_segment (sm.flowAt f) p.getDEST hp
  rw [h.header.seq hseg, h.header.ack hseg, adjust_seq _ _ hp.tcp_, adjust_ack _ _ hp.tcp_]
  exact ⟨rfl, rfl⟩

variable {prefix_ : IPv6Addr} {extra : EXTRAType} {protocols : OrderedMap String Protocol nameLt}
  {evs evs' : List (Event σ)} {nat : NAT} {p : Packet} {out : AppOut σ} {f : ℕ}

theorem numbers_moved (hips : (ips.flatMap poolOf).Nodup)
    (hrun : Run (AppStep pc) (configured prefix_ extra protocols ips) (evs ++ .passed nat p out :: evs') sm)
    (hseg : Segments f (evs ++ .passed nat p out :: evs')) (hf : out.nat.exttcpflow_ = some f) :
    out.pkt.seq = p.seq + UInt32.ofInt (changes f p.getDEST evs) ∧
      out.pkt.ack = p.ack - UInt32.ofInt (changes f p.getDEST.other evs) := by
  obtain ⟨s, s', hbefore, hstep, -⟩ := hrun.at_label
  have hs := (Sound.start prefix_ extra protocols ips).run hips hbefore
  obtain ⟨a, b, hp, -, hpass, -⟩ := hstep.passed_cases hips hs hf
    (hseg nat p out (List.mem_append_right _ List.mem_cons_self) hf)
  have hoff := offset_run hips hbefore hseg.left
  rw [← hoff, ← hoff]
  exact seq_passed hp hpass

theorem add_ofInt_eq_iff {x : UInt32} {m n : Int} :
    x + UInt32.ofInt (m + n) = x + UInt32.ofInt m ↔ UInt32.ofInt n = 0 := by
  rw [UInt32.ofInt_add]
  constructor <;> intro h <;> grind

/-- The numbers of a connection over every run, with retransmitted and reordered
segments and acknowledgements that come late. -/
theorem numbers_translated (hips : ips.Nodup)
    (hrun : Run (AppStep pc) (configured prefix_ extra protocols ips) (evs ++ .passed nat p out :: evs') sm)
    (hseg : Segments f (evs ++ .passed nat p out :: evs')) (hf : out.nat.exttcpflow_ = some f) :
    NumbersTranslated f evs p out := by
  obtain ⟨hseq, hack⟩ := numbers_moved (nodup_pools hips) hrun hseg hf
  have hearlier : ∀ us nat' q qout vs, evs = us ++ .passed nat' q qout :: vs → qout.nat.exttcpflow_ = some f →
      qout.pkt.seq = q.seq + UInt32.ofInt (changes f q.getDEST us) := by
    rintro us nat' q qout vs rfl hq
    rw [List.append_assoc, List.cons_append] at hrun hseg
    exact (numbers_moved (nodup_pools hips) hrun hseg hq).1
  refine ⟨hseq, hack, ?_, ?_, ?_⟩
  · rw [hseq, changes_split f p.getDEST evs p]
    exact add_ofInt_eq_iff
  · intro us nat' q qout vs he hon hsame
    rw [hseq, hearlier us nat' q qout vs he hon.1, he, changes_append, hon.2, hsame]
    exact add_ofInt_eq_iff
  · intro us nat' q qout vs he hon x hx
    have hq := hearlier us nat' q qout vs he hon.1
    rw [hack, hx, hq, he, changes_append, UInt32.ofInt_add, hon.2]
    constructor <;> intro h <;> grind

/-- A segment sent again comes out under another number, once its own change is booked. -/
theorem retransmission_renumbered : ∃ (evs : List (Event Unit)) (sm : StateManager Unit),
    Run (AppStep (FTPParser.only once noJunk)) (ftpConf .NONE) evs sm ∧ Segments 0 evs ∧
    (turns 0 .SERVER evs).map (fun t ↦ (t.1.seq, t.2.pkt.seq)) = [(1000, 1000), (1000, 1011)] ∧
    ¬∀ t ∈ turns 0 .SERVER evs, ∀ u ∈ turns 0 .SERVER evs, t.1.seq = u.1.seq → t.2.pkt.seq = u.2.pkt.seq := by
  have hnum : (turns 0 .SERVER (play (FTPParser.only once noJunk) (.new 0) (ftpConf .NONE)
      [eprtSegment 1000, eprtSegment 1000]).1).map (fun t ↦ (t.1.seq, t.2.pkt.seq)) =
        [(1000, 1000), (1000, 1011)] := by decide +kernel
  refine ⟨_, _, play_run _ (.new 0) _ [eprtSegment 1000, eprtSegment 1000], play_segments ?_ 0, hnum, fun h ↦ ?_⟩
  · simp [eprtSegment_isSegment]
  · have hlist : ∀ a ∈ (turns 0 .SERVER (play (FTPParser.only once noJunk) (.new 0) (ftpConf .NONE)
        [eprtSegment 1000, eprtSegment 1000]).1).map (fun t ↦ (t.1.seq, t.2.pkt.seq)),
        ∀ b ∈ (turns 0 .SERVER (play (FTPParser.only once noJunk) (.new 0) (ftpConf .NONE)
        [eprtSegment 1000, eprtSegment 1000]).1).map (fun t ↦ (t.1.seq, t.2.pkt.seq)), a.1 = b.1 → a.2 = b.2 := by
      simp only [List.mem_map]
      rintro _ ⟨t, ht, rfl⟩ _ ⟨u, hu, rfl⟩
      exact h t ht u hu
    rw [hnum] at hlist
    exact absurd (hlist (1000, 1000) (by simp) (1000, 1011) (by simp) rfl) (by decide)

/-- Two command lines, the first of them sent again, and an acknowledgement of both. -/
def resent : List Packet :=
  [eprtSegment 1000, eprtSegment 1017, eprtSegment 1000,
    .tcp4 ⟨ntohl 0xc0000201⟩ ⟨ntohl 0x0a141e28⟩ 21 32000 5 1056 []]

theorem resent_isSegment : ∀ p ∈ resent, p.IsSegment := by
  simp only [resent, List.forall_mem_cons, eprtSegment_isSegment, List.not_mem_nil, false_imp_iff, implies_true,
    and_true, true_and]
  exact Packet.tcp4_isSegment _ _ _ _ _ _ (by decide)

theorem numbers_translated_resent : ∃ (evs : List (Event Unit)) (sm : StateManager Unit),
    Run (AppStep (FTPParser.only once noJunk)) (ftpConf .NONE) evs sm ∧
    (evs.filterMap Event.turn).map (fun t ↦ (t.1.seq, t.2.pkt.seq, t.1.ack, t.2.pkt.ack)) =
      [(1000, 1000, 5, 5), (1017, 1028, 5, 5), (1000, 1022, 5, 5), (5, 5, 1056, 1023)] ∧
    ∀ us nat p out vs, evs = us ++ .passed nat p out :: vs → NumbersTranslated 0 us p out := by
  have hrun := play_run (FTPParser.only once noJunk) (.new 0) (ftpConf .NONE) resent
  have hseg := @play_segments _ (FTPParser.only once noJunk) (.new 0) (ftpConf .NONE) _ resent_isSegment 0
  have hflow : ∀ t ∈ (play (FTPParser.only once noJunk) (.new 0) (ftpConf .NONE) resent).1.filterMap Event.turn,
      t.2.nat.exttcpflow_ = some 0 := by decide +kernel
  refine ⟨_, _, hrun, by decide +kernel, fun us nat p out vs he ↦ ?_⟩
  rw [he] at hrun hseg hflow
  exact numbers_translated (List.nodup_singleton _) hrun hseg (hflow (p, out) (by simp [Event.turn]))

end Nat64Alg
