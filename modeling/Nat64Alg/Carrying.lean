import Nat64Alg.Truncation

namespace Nat64Alg

open Lib StateManager

variable {σ : Type} {pc : ParserClass σ} {ips : List IPv4Addr} {sm sm' : StateManager σ} {f : ℕ} {d : DEST}

namespace Turn

/-- The payload left in the packet, and the one received with its operations applied. -/
def emitted (t : Turn σ) : Text := t.2.pkt.payload
def applied (t : Turn σ) : Text := (t.2.edit.map Edit.built).getD t.1.payload

def CutOff (t : Turn σ) : Prop := ∃ e, t.2.edit = some e ∧ e.cut = true

end Turn

/-- While bytes are carried over for a segment, it is at least as long as they are, no
operations are yielded for it and the flow is not ignored. -/
def Shiftable (sm : StateManager σ) (f : ℕ) (p : Packet) (edit : Option Edit) : Prop :=
  (sm.flowAt f).pending p.cur_seq_ ≠ [] → ((sm.flowAt f).pending p.cur_seq_).length ≤ p.payload.length ∧
    edit = none ∧ (sm.flowAt f).ignored = false

/-- A call that meets the condition, if it passes payload of the flow. -/
def ShiftStep (pc : ParserClass σ) (f : ℕ) (sm : StateManager σ) (ev : Event σ) (sm' : StateManager σ) : Prop :=
  AppStep pc sm ev sm' ∧ ∀ t, ev.turn = some t → (t.1.getFlow sm).1 = some f → t.Carries →
    Shiftable sm f t.1 t.2.edit

/-- The bytes sent and the bytes carried over, next to the segments they came from. -/
structure Carried (flow : Flow σ) (ts : List (Turn σ)) : Prop where
  stream : ∀ t ∈ ts.getLast?, (ts.map Turn.emitted).flatten ++ flow.pending t.1.nxt_seq_ = (ts.map Turn.applied).flatten
  empty : (∀ t ∈ ts, ¬t.CutOff) → ∀ s, flow.pending s = []
  full : (∃ t ∈ ts, t.CutOff) → ∀ t ∈ ts.getLast?, flow.pending t.1.nxt_seq_ ≠ []
  length : ∀ us t vs, ts = us ++ t :: vs → (∃ u ∈ us, u.CutOff) → t.emitted.length = t.1.payload.length

theorem Carried.congr {flow flow' : Flow σ} {ts : List (Turn σ)} (h : Carried flow ts)
    (hp : flow'.pending = flow.pending) : Carried flow' ts :=
  ⟨by rw [hp]; exact h.stream, by rw [hp]; exact h.empty, by rw [hp]; exact h.full, h.length⟩

theorem Carried.sent {flow : Flow σ} {ts : List (Turn σ)} (h : Carried flow ts) (hno : ∀ t ∈ ts, ¬t.CutOff) :
    (ts.map Turn.emitted).flatten = (ts.map Turn.applied).flatten := by
  rcases ts.eq_nil_or_concat with rfl | ⟨us, t, rfl⟩
  · rfl
  · have := h.stream t (by simp)
    rwa [h.empty hno, List.append_nil] at this

theorem slice_last {p : Packet} {a b : Int} (flow : Flow σ) (hp : p.Segment a b) {n : ℕ} (hn : n ≤ p.payload.length) :
    (adjust flow p.getDEST p).obuf_.slice (a + p.transport_len_ - n) n = p.payload.drop (p.payload.length - n) := by
  have hpay : p.payload = p.obuf_.slice (a + p.getTransportHeaderLen)
      (p.transport_len_ - p.getTransportHeaderLen).toNat := by
    simp only [Packet.payload, Packet.transport, hp.tcp_, Option.some_or]
  have hheader := hp.header
  have hcomplete := hp.complete
  rw [hpay, Mem.length_slice] at hn
  have hleft : (p.transport_len_ - p.getTransportHeaderLen).toNat -
      ((p.transport_len_ - p.getTransportHeaderLen).toNat - n) = n := by omega
  have hfrom : a + p.getTransportHeaderLen + (((p.transport_len_ - p.getTransportHeaderLen).toNat - n : ℕ) : Int) =
      a + p.transport_len_ - n := by omega
  rw [hpay, Mem.length_slice, Mem.drop_slice _ _ _ _ (by omega), hleft, hfrom]
  exact Mem.slice_congr fun i h₁ h₂ ↦ adjust_outside _ _ hp.tcp_ (by omega)

namespace Carried

variable {flow flow' : Flow σ} {ts : List (Turn σ)} {t : Turn σ} {a b : Int}

theorem split_snoc {us vs : List (Turn σ)} {u : Turn σ} (h : ts ++ [t] = us ++ u :: vs) :
    us = ts ∧ u = t ∨ ∃ ws, ts = us ++ u :: ws := by
  rcases vs.eq_nil_or_concat with rfl | ⟨ws, w, rfl⟩
  · obtain ⟨h₁, h₂⟩ := List.append_inj' h rfl
    exact .inl ⟨h₁.symm, (List.singleton_inj.mp h₂).symm⟩
  · rw [List.concat_eq_append, ← List.cons_append, ← List.append_assoc] at h
    exact .inr ⟨ws, (List.append_inj' h rfl).1⟩

theorem next_free (h : Carried flow ts) (hno : ∀ u ∈ ts, ¬u.CutOff) (hh : Handed flow flow' t.1 t.2.pkt a t.2.edit) :
    Carried flow' (ts ++ [t]) := by
  have hempty := h.empty hno
  have hsent := h.sent hno
  have hlength : ∀ us u vs, ts ++ [t] = us ++ u :: vs → (∃ v ∈ us, v.CutOff) →
      u.emitted.length = u.1.payload.length := by
    rintro us u vs he ⟨v, hv, hcut⟩
    rcases split_snoc he with ⟨rfl, -⟩ | ⟨ws, rfl⟩
    · exact absurd hcut (hno v hv)
    · exact absurd hcut (hno v (List.mem_append_left _ hv))
  have hlast : (ts ++ [t]).getLast? = some t := by simp
  cases he : t.2.edit with
  | none =>
    obtain ⟨hpay, hpend⟩ := hh.plain (hempty _) he
    have hcut : ¬t.CutOff := fun ⟨e, h₁, _⟩ ↦ by
      rw [he] at h₁
      cases h₁
    refine ⟨fun u hu ↦ ?_, fun _ s ↦ (hpend s).trans (hempty s), fun ⟨u, hu, hc⟩ ↦ ?_, hlength⟩
    · obtain rfl : t = u := Option.some.inj (hlast.symm.trans hu)
      rw [hpend, hempty, List.append_nil, List.map_append, List.map_append, List.flatten_append, List.flatten_append,
        hsent]
      simp [Turn.emitted, Turn.applied, he, hpay]
    · rcases List.mem_append.mp hu with hu | hu
      · exact absurd hc (hno u hu)
      · rw [List.mem_singleton.mp hu] at hc
        exact absurd hc hcut
  | some e =>
    obtain ⟨hkept, hpend⟩ := hh.edited (hempty _) e he
    refine ⟨fun u hu ↦ ?_, fun hnone s ↦ ?_, fun ⟨u, hu, hc⟩ v hv ↦ ?_, hlength⟩
    · obtain rfl : t = u := Option.some.inj (hlast.symm.trans hu)
      have htail : flow'.pending t.1.nxt_seq_ = e.tail := by
        rw [hpend, hempty]
        cases hcut : e.cut
        · simp [Edit.tail_uncut hcut]
        · simp
      rw [htail, List.map_append, List.map_append, List.flatten_append, List.flatten_append, hsent, List.append_assoc]
      simp [Turn.emitted, Turn.applied, he, hkept, e.kept_append_tail]
    · have hcut : ¬e.cut = true := fun hc ↦ hnone t (List.mem_append_right _ List.mem_cons_self) ⟨e, he, hc⟩
      rw [hpend, if_neg (fun hc ↦ hcut hc.2), hempty]
    · obtain rfl : t = v := Option.some.inj (hlast.symm.trans hv)
      rcases List.mem_append.mp hu with hu | hu
      · exact absurd hc (hno u hu)
      · rw [List.mem_singleton.mp hu] at hc
        obtain ⟨e', he', hcut⟩ := hc
        obtain rfl : e = e' := Option.some.inj (he.symm.trans he')
        rw [hpend, if_pos ⟨rfl, hcut⟩]
        exact (Edit.length_kept hcut).2

theorem next_carried (h : Carried flow ts) (hcut : ∃ u ∈ ts, u.CutOff) (hp : t.1.Segment a b)
    (hh : Handed flow flow' t.1 t.2.pkt a t.2.edit) (hnext : ∀ u ∈ ts.getLast?, u.1.nxt_seq_ = t.1.cur_seq_)
    (hok : (flow.pending t.1.cur_seq_).length ≤ t.1.payload.length ∧ t.2.edit = none ∧ flow.ignored = false) :
    Carried flow' (ts ++ [t]) := by
  obtain ⟨u, hu⟩ : ∃ u, ts.getLast? = some u := by
    obtain ⟨v, hv, -⟩ := hcut
    exact ⟨_, List.getLast?_eq_some_getLast (List.ne_nil_of_mem hv)⟩
  have hstream := h.stream u hu
  have hne := h.full hcut u hu
  rw [hnext u hu] at hstream hne
  obtain ⟨hlen, he, hheard⟩ := hok
  obtain ⟨hpay, hpend⟩ := hh.carried hne hheard he
  obtain ⟨w, hw⟩ : ∃ w, flow.pending t.1.cur_seq_ = w := ⟨_, rfl⟩
  rw [hw] at hstream hne hlen hpay hpend
  have hend : flow'.pending t.1.nxt_seq_ = t.1.payload.drop (t.1.payload.length - w.length) := by
    rw [hpend, if_pos rfl, slice_last flow hp hlen]
  have hlast : (ts ++ [t]).getLast? = some t := by simp
  refine ⟨fun v hv ↦ ?_, fun hno ↦ ?_, fun _ v hv ↦ ?_, fun us v vs hsplit hc ↦ ?_⟩
  · obtain rfl : t = v := Option.some.inj (hlast.symm.trans hv)
    have hsum : (w ++ t.1.payload).take t.1.payload.length ++ t.1.payload.drop (t.1.payload.length - w.length) =
        w ++ t.1.payload := by
      conv_rhs => rw [← List.take_append_drop t.1.payload.length (w ++ t.1.payload)]
      rw [List.drop_append, List.drop_eq_nil_of_le hlen, List.nil_append]
    rw [hend, List.map_append, List.map_append, List.flatten_append, List.flatten_append, ← hstream]
    simp only [List.map_cons, List.map_nil, List.flatten_cons, List.flatten_nil, List.append_nil, Turn.emitted, hpay,
      Turn.applied, he, Option.map_none, Option.getD_none, List.append_assoc, hsum]
  · obtain ⟨v, hv, hc⟩ := hcut
    exact absurd hc (hno v (List.mem_append_left _ hv))
  · obtain rfl : t = v := Option.some.inj (hlast.symm.trans hv)
    have hpos := List.length_pos_iff.mpr hne
    rw [hend]
    refine List.ne_nil_of_length_pos ?_
    rw [List.length_drop]
    omega
  · rcases split_snoc hsplit with ⟨rfl, rfl⟩ | ⟨ws, rfl⟩
    · rw [Turn.emitted, hpay, List.length_take, List.length_append]
      omega
    · exact h.length us v ws rfl hc

end Carried

variable {prefix_ : IPv6Addr} {protocols : OrderedMap String Protocol nameLt} {evs : List (Event σ)}

theorem Segments.turn (h : Segments f evs) {t : Turn σ} (ht : t ∈ turns f d evs) : t.1.IsSegment := by
  obtain ⟨hm, hon⟩ := List.mem_filter.mp ht
  obtain ⟨ev, hev, he⟩ := List.mem_filterMap.mp hm
  cases ev with
  | begun nat p => cases he
  | passed nat p out =>
    cases he
    exact h nat p out hev (of_decide_eq_true hon).1

theorem configured_pending (prefix_ : IPv6Addr) (extra : EXTRAType) (protocols : OrderedMap String Protocol nameLt)
    (ips : List IPv4Addr) (f : ℕ) (s : UInt32) :
    ((configured prefix_ extra protocols ips : StateManager σ).flowAt f).pending s = [] := by
  rw [StateManager.flowAt, List.getElem?_eq_none (by simp [configured_heap])]
  rfl

theorem carried_run (hips : (ips.flatMap poolOf).Nodup)
    (hrun : Run (ShiftStep pc f) (configured prefix_ .SHIFT protocols ips) evs sm) (hseg : Segments f evs)
    (hone : carried f d.other evs = []) (hord : InOrder f d evs) :
    Carried (sm.flowAt f) (carried f d evs) := by
  refine (hrun.history (I := fun evs sm ↦ Sound ips sm ∧ sm.extra = .SHIFT ∧ (Segments f evs →
    carried f d.other evs = [] → InOrder f d evs → Carried (sm.flowAt f) (carried f d evs))) ?_
    ⟨Sound.start prefix_ .SHIFT protocols ips, configured_extra _ _ _ _, fun _ _ _ ↦ ?_⟩).2.2 hseg hone hord
  · rintro evs s ev s' ⟨hs, hextra, hcarried⟩ ⟨hstep, hshift⟩
    have hgrown := hstep.grown hips hs.mode
    refine ⟨hs.grown hgrown, hgrown.extra.trans hextra, fun hseg hone hord ↦ ?_⟩
    rw [carried_append, List.append_eq_nil_iff] at hone
    have hcarried := hcarried hseg.left hone.1 hord.left
    cases ev with
    | begun nat p =>
      obtain ⟨rc, nat', hb⟩ := hstep
      rw [carried_append, show carried f d [(.begun nat p : Event σ)] = [] from rfl, List.append_nil]
      exact hcarried.congr (begin_pending hips hb)
    | passed nat p out =>
      obtain ⟨ha, rfl⟩ := hstep
      have hfound := (doApp_other hips hs.mode ha).2.2
      by_cases hf : out.nat.exttcpflow_ = some f
      · have hp := hseg nat p out (List.mem_append_right _ List.mem_cons_self) hf
        obtain ⟨a, b, hsegm, -⟩ := hp.segment
        by_cases hc : Turn.Carries (p, out)
        · have hd : p.getDEST = d := by
            by_contra hne
            have hother : p.getDEST = d.other := by
              revert hne
              cases p.getDEST <;> cases d <;> simp [DEST.other]
            have := hone.2
            rw [← List.nil_append [Event.passed nat p out], carried_passed, if_pos ⟨⟨hf, hother⟩, hc⟩] at this
            simp at this
          have hon : Turn.On (p, out) f d := ⟨hf, hd⟩
          have hhanded := doApp_handed hips hs hextra (hfound.symm.trans hf) hsegm hc ha
          have hnext : ∀ u ∈ (carried f d evs).getLast?, u.1.nxt_seq_ = p.cur_seq_ := fun u hu ↦ by
            have hu' := List.mem_of_mem_filter (List.mem_of_mem_getLast? hu)
            rw [hp.numbers.1, hord.next hon hc u hu]
            exact (hseg.left.turn hu').numbers.2
          rw [carried_passed, if_pos ⟨hon, hc⟩]
          by_cases hcut : ∃ u ∈ carried f d evs, u.CutOff
          · obtain ⟨u, hu⟩ : ∃ u, (carried f d evs).getLast? = some u := by
              obtain ⟨v, hv, -⟩ := hcut
              exact ⟨_, List.getLast?_eq_some_getLast (List.ne_nil_of_mem hv)⟩
            have hne := hcarried.full hcut u hu
            rw [hnext u hu] at hne
            exact hcarried.next_carried (t := (p, out)) hcut hsegm hhanded hnext
              (hshift _ rfl (hfound.symm.trans hf) hc hne)
          · exact hcarried.next_free (t := (p, out)) (fun u hu hc ↦ hcut ⟨u, hu, hc⟩) hhanded
        · rw [carried_passed, if_neg (fun h ↦ hc h.2)]
          refine hcarried.congr (doApp_pending hips hs ha (.inr ⟨hp.1, ?_⟩))
          exact not_lt.mp hc
      · rw [carried_passed, if_neg (fun h ↦ hf h.1.1)]
        exact hcarried.congr (doApp_pending hips hs ha (.inl fun h ↦ hf (hfound.trans h)))
  · refine ⟨fun t ht ↦ ?_, fun _ s ↦ configured_pending _ _ _ _ _ _, ?_, fun us t vs h ↦ ?_⟩
    · cases ht
    · rintro ⟨t, ht, -⟩
      cases ht
    · cases us <;> cases h

/-- In every run whose payload-carrying segments of the flow go one way, in order, and meet the
condition, what was sent and what is carried over are the payloads with their operations
applied, and a segment after the first that was cut keeps its length. -/
theorem stream_carried (hips : ips.Nodup)
    (hrun : Run (ShiftStep pc f) (configured prefix_ .SHIFT protocols ips) evs sm) (hseg : Segments f evs)
    (hone : carried f d.other evs = []) (hord : InOrder f d evs) :
    (∀ t, (carried f d evs).getLast? = some t →
      ((carried f d evs).map Turn.emitted).flatten ++ (sm.flowAt f).pending t.1.nxt_seq_ =
        ((carried f d evs).map Turn.applied).flatten) ∧
    ∀ us t vs, carried f d evs = us ++ t :: vs → (∃ u ∈ us, u.CutOff) → t.emitted.length = t.1.payload.length :=
  ⟨(carried_run (nodup_pools hips) hrun hseg hone hord).stream,
  (carried_run (nodup_pools hips) hrun hseg hone hord).length⟩

section Broken

variable {sm : StateManager Unit} {extra : EXTRAType}

theorem tokens_byte (c : UInt8) : (FTPScanner.tokens once [c]).length ≤ 1 := by
  have h : ∀ n < 256, (FTPScanner.tokens once [UInt8.ofNat n]).length ≤ 1 := by decide +kernel
  simpa using h c.toNat c.toNat_lt

theorem firstLine_byte (c : UInt8) : ∃ q, firstLine once noJunk sm [c] = .ok (([], q), (sm, none), []) := by
  refine firstLine_run (p := .new .stateless ()) ?_
  have h := tokens_byte c
  have hret : FTPParser.message noJunk (FTPScanner.tokens once [c]) (.new .stateless ()) =
      .ret (.new .stateless ()) := by
    match FTPScanner.tokens once [c], h with
    | [], _ => rfl
    | [(k, t)], _ => cases k <;> rfl
  rw [hret]
  rfl

theorem chooseOps_byte {f : ℕ} (hproto : sm.protocols = (ftpConf extra : StateManager Unit).protocols) (c : UInt8) :
    ∃ r, chooseOps (FTPParser.only once noJunk) sm f .SERVER true false [c] = .ok r ∧ r.ops = [] := by
  have hptype : ∀ name, sm.ptype name .SERVER = .STATELESS := fun name ↦ by
    unfold StateManager.ptype
    rw [hproto]
    show Protocol.ptype (Option.getD (((OrderedMap.empty : OrderedMap String Protocol nameLt).insert "ftp"
      { ptype_s2c := .NONE }).find? name) {}) .SERVER = _
    rw [OrderedMap.find?_insert]
    split <;> rfl
  have hget : ∀ name, sm.getParser (FTPParser.only once noJunk) f name .SERVER =
      (if name = "ftp" then some (.new .stateless ()) else none, sm) := fun name ↦ by
    unfold StateManager.getParser
    rw [hptype]
    simp only [Parser.make, FTPParser.only]
    split <;> rfl
  obtain ⟨q, hq⟩ := firstLine_byte c
  have hfeed : ∀ r : Choice Unit, r.sm = sm →
    feed (FTPParser.only once noJunk) f .SERVER [c] "ftp" (.new .stateless ()) r =
      .ok { r with
        sm := sm.storeParser f "ftp" .SERVER q, asked := r.asked ++ [], ops := [], parser := some q, pos := 0 } :=
    fun r hr ↦ by
      unfold feed
      rw [hr]
      unfold firstLine at hq
      rw [hq]
      rfl
  unfold chooseOps
  dsimp only
  split
  · have hent : sm.protocols.entries = [("ftp", { ptype_s2c := .NONE })] := by
      rw [hproto]
      rfl
    rw [hent]
    unfold tryProtocols
    rw [if_neg (by decide)]
    dsimp only
    rw [hget, if_pos rfl]
    dsimp only
    rw [hfeed _ rfl]
    dsimp only
    rw [if_neg (by simp)]
    split
    case h_1 e he => split at he <;> simp [tryProtocols] at he
    case h_2 r hr =>
      have hops : r.ops = [] := by
        split at hr <;> (simp only [tryProtocols, Except.ok.injEq] at hr; rw [← hr])
      split
      · exact ⟨_, rfl, hops⟩
      · exact ⟨_, rfl, hops⟩
  · rw [hget]
    dsimp only
    split
    case h_1 => exact ⟨_, rfl, rfl⟩
    case h_2 p hp =>
      split at hp
      case isTrue hname =>
        cases hp
        rw [hname, hfeed _ rfl]
        exact ⟨_, rfl, rfl⟩
      case isFalse => cases hp

abbrev NextByte (p : Packet) : Prop := p.Tcp6 clientA serverS 1024 21 2417 5 [LF]

theorem doApp_byte {p : Packet} {nat : NAT} {w : Text} (hp : NextByte p) (hmode : sm.analysisMode = false)
    (hextra : sm.extra = .SHIFT) (hflow : (p.getFlow sm).1 = some 0)
    (hproto : sm.protocols = (ftpConf extra : StateManager Unit).protocols)
    (hw : (sm.flowAt 0).pending p.cur_seq_ = w) (hne : w ≠ []) :
    ∃ out, doApp (FTPParser.only once noJunk) nat sm p = .ok out ∧ out.edit = none := by
  obtain ⟨a, b, hseg, -⟩ := hp.segment.segment
  have hlen : p.getTransportHeaderLen < p.transport_len_ := by
    rw [hp.headerLen, hp.len]
    decide
  cases hheard : (sm.flowAt 0).ignored with
  | true =>
    refine ⟨⟨{ nat with exttcpflow_ := some 0 }, sm, adjust (sm.flowAt 0) p.getDEST p, [], none⟩, ?_, rfl⟩
    unfold doApp
    dsimp only
    rw [getFlow_snd hmode, hflow]
    dsimp only [doAppFlow]
    rw [hmode, if_neg (by simp), if_pos (.inr hheard)]
  | false =>
    obtain ⟨r, hr⟩ : ∃ r, r = adjust (sm.flowAt 0) p.getDEST p := ⟨_, rfl⟩
    have hrs : r.Segment a b := hr ▸ adjust_segment _ _ hseg
    have hrp : r.payload = [LF] := (hr ▸ adjust_payload _ _ hseg).trans hp.payload
    have hcur : r.cur_seq_ = p.cur_seq_ := by
      rw [hr, adjust_eq _ _ hseg.tcp_]
      rfl
    obtain ⟨flow, q, hfq⟩ : ∃ flow q, (sm.flowAt 0).shift .SHIFT r (a + r.getTransportHeaderLen)
      (r.transport_len_ - r.getTransportHeaderLen) = (flow, q) := ⟨_, _, rfl⟩
    have hshift : (sm.flowAt 0).shiftTCP sm.extra r = (flow, q) := by
      simp only [Flow.shiftTCP, hrs.tcp_, hextra, hfq]
    have hpay := shift_payload (sm.flowAt 0) hrs (by rw [hcur]; exact hw) hne
    obtain ⟨hhead, htl, -⟩ := shift_packet (p := r) (a := a) (sm.flowAt 0) .SHIFT
      (r.transport_len_ - r.getTransportHeaderLen)
    rw [hfq] at hpay hhead htl
    have hqs : q.Segment a b := hhead.segment hrs (htl ▸ hrs.complete)
    obtain ⟨c, cs, rfl⟩ := List.exists_cons_of_ne_nil hne
    have hbyte : q.payload = [c] := by
      rw [hpay, hrp]
      rfl
    obtain ⟨r', hc, hops⟩ := @chooseOps_byte ((sm.setFlow 0 flow).setFlow 0
      (((sm.setFlow 0 flow).flowAt 0).count q p.getDEST)) _ 0 hproto c
    refine ⟨_, doApp_content (q := q) (c := r') hmode hflow hseg hlen hheard (hr ▸ hshift) (by rw [hbyte]; simp) ?_, ?_⟩
    · rw [hbyte, hp.dest, show q.isTCP = true by simp [Packet.isTCP, hqs.tcp_],
        show q.isUDP = false by simp [Packet.isUDP, hqs.udp_]]
      rw [hp.dest] at hc
      exact hc
    · unfold applyOps
      rw [hops]
      split
      · rfl
      · rfl

theorem begin_again {p₁ p₂ : Packet} {sm : StateManager Unit} {ips : List IPv4Addr} (h₁ : p₁.saddr6 = p₂.saddr6)
    (hport : p₁.getSourcePort = p₂.getSourcePort) (hd : p₁.daddr6 = p₂.daddr6) (hin₁ : p₁.In6) (hin₂ : p₂.In6)
    (hips : (ips.flatMap poolOf).Nodup) {sm' : StateManager Unit} (hc : Coherent ips sm) (hg : Grown ips sm sm')
    (hf : (p₁.getFlow sm).1 = some 0) (nat : NAT) :
    ∃ nat' sm'', nat.begin sm' p₂ = .ok (0, nat', sm'') ∧ (p₂.getFlow sm'').1 = some 0 := by
  have hfind : ∀ {p : Packet} (hin : p.In6) (s : StateManager Unit),
      (p.getFlow s).1 = s.getMapping6 ⟨p.saddr6, p.getSourcePort⟩ p.daddr6 := fun {p} hin s ↦ by
    obtain ⟨hready, -, hv, -, -⟩ := hin.ready
    have hport : p.getSourcePort = p.obuf_.ld16 20 := by simp [Packet.getSourcePort, hready.transport]
    unfold Packet.getFlow Packet.getFlowAt
    rw [hready.transport, hport]
    dsimp only
    rw [if_pos hv]
  obtain ⟨-, -, hv, -, -⟩ := hin₂.ready
  have hver : p₂.getIPVersion = 4 := by simp [Packet.getIPVersion, hv]
  rw [hfind hin₁, h₁, hport, hd] at hf
  have hmap : sm'.doMapping ⟨p₂.saddr6, p₂.getSourcePort⟩ p₂.daddr6 = (some 0, sm') := by
    unfold doMapping
    rw [hg.find64 hc hf]
  have hb := @begin_v6 _ _ _ nat _ hver _ hmap
  refine ⟨_, _, hb, ?_⟩
  rw [hfind hin₂]
  exact (begin_grown hips hb).find64 (hg.coherent hc) (hg.find64 hc hf)

theorem byte_lost {p : Packet} {b : Int} {out : AppOut Unit} {e : Edit} {t : Text} (hp : NextByte p)
    (hseg : p.Segment 20 b) (hs : ∃ ips : List IPv4Addr, (ips.flatMap poolOf).Nodup ∧ Sound ips sm)
    (hextra : sm.extra = .SHIFT) (hflow : (p.getFlow sm).1 = some 0) {nat : NAT}
    (h : doApp (FTPParser.only once noJunk) nat sm p = .ok out) (hnone : out.edit = none)
    (hpend : ∀ s, (sm.flowAt 0).pending s = if s = 2417 then e.tail else [])
    (hold : e.len_old = 1417) (hcut : e.cut = true) (ht : e.built = t ++ [LF]) (hlen : 1419 ≤ t.length) :
    ¬out.pkt.payload ++ (out.sm.flowAt 0).pending p.nxt_seq_ = e.tail ++ [LF] := by
  obtain ⟨ips, hips, hs⟩ := hs
  have hnum : p.cur_seq_ = 2417 ∧ p.nxt_seq_ = 2418 := by
    rw [hp.segment.numbers.1, hp.segment.numbers.2, hp.seq_eq, hp.headerLen, hp.len]
    exact ⟨rfl, rfl⟩
  have hlt : p.getTransportHeaderLen < p.transport_len_ := by
    rw [hp.headerLen, hp.len]
    decide
  have htail : ∃ c u, e.tail = c :: (u ++ [LF]) := by
    unfold Edit.tail
    rw [if_pos hcut, ht, hold, show (1417 : Int).toNat = 1417 from rfl, List.drop_append_of_le_length (by omega)]
    obtain ⟨c, u, hcu⟩ := List.exists_cons_of_ne_nil (l := t.drop 1417)
      (List.ne_nil_of_length_pos (by rw [List.length_drop]; omega))
    exact ⟨c, u, by rw [hcu]; rfl⟩
  obtain ⟨c, u, htail⟩ := htail
  have hcur : (sm.flowAt 0).pending p.cur_seq_ = c :: (u ++ [LF]) := by
    rw [hpend, if_pos hnum.1, htail]
  intro heq
  rw [htail] at heq
  cases hheard : (sm.flowAt 0).ignored with
  | true =>
    rcases doApp_cases hs.mode h with ⟨hn, -⟩ | ⟨g, hg, ⟨-, rfl⟩ | ⟨⟨-, hno⟩, -⟩⟩
    · rw [hflow] at hn
      cases hn
    · obtain rfl : 0 = g := Option.some.inj (hflow.symm.trans hg)
      dsimp only at heq
      rw [adjust_payload _ _ hseg, hp.payload, hpend, if_neg (by rw [hnum.2]; decide)] at heq
      have := congrArg List.length heq
      simp at this
    · obtain rfl : 0 = g := Option.some.inj (hflow.symm.trans hg)
      rw [hheard] at hno
      cases hno
  | false =>
    obtain ⟨hpay, hnext⟩ := (doApp_handed hips hs hextra hflow hseg hlt h).carried (by rw [hcur]; simp) hheard hnone
    rw [hpay, hnext, if_pos rfl, hcur, hp.payload, hp.len] at heq
    have hcons : (adjust (sm.flowAt 0) p.getDEST p).obuf_.slice (20 + (20 + ([LF] : Text).length) -
        (c :: (u ++ [LF])).length) (c :: (u ++ [LF])).length = u ++ [LF, LF] := by
      simpa using heq
    rw [show (c :: (u ++ [LF])).length = u.length + 2 by simp, Mem.slice_append] at hcons
    have hbytes := (List.append_inj hcons (by simp)).2
    have hbyte := List.head_eq_of_cons_eq hbytes
    dsimp only at hbyte
    rw [show (20 : Int) + (20 + ([LF] : Text).length) - (u.length + 2 : ℕ) + u.length + (0 : ℕ) = 39 by simp; omega,
      adjust_outside _ _ hseg.tcp_ (.inr (by omega)), hp.header 39 (by omega) (by omega)] at hbyte
    exact absurd hbyte (by decide)

/-- A byte behind a carried-over tail: the tail goes on with header bytes in it. -/
theorem stream_broken : ∃ (evs : List (Event Unit)) (sm : StateManager Unit) (t : Turn Unit),
    Run (AppStep (FTPParser.only once noJunk)) (ftpConf .SHIFT) evs sm ∧ Segments 0 evs ∧ carried 0 .CLIENT evs = [] ∧
    InOrder 0 .SERVER evs ∧ (carried 0 .SERVER evs).getLast? = some t ∧ t.1.payload.length = 1 ∧
    ¬((carried 0 .SERVER evs).map Turn.emitted).flatten ++ (sm.flowAt 0).pending t.1.nxt_seq_ =
      ((carried 0 .SERVER evs).map Turn.applied).flatten := by
  obtain ⟨p₁, hp₁⟩ := exists_oversize
  obtain ⟨p₂, hp₂⟩ : ∃ p, NextByte p := ⟨_, Packet.tcp6_spec _ _ _ _ _ _ (by decide)⟩
  obtain ⟨nat₁, sm₁, hb₁, hopen⟩ := opened .SHIFT hp₁.in6
  obtain ⟨out₁, e, ep, hout₁, he, hops, hold, hcut, t, ht, htlen⟩ := oversize_edit hp₁ hopen
  obtain ⟨a₁, b₁, hseg₁, -⟩ := hp₁.segment.segment
  obtain ⟨a₂, b₂, hseg₂, -⟩ := hp₂.segment.segment
  obtain rfl : 20 = a₂ := Option.some.inj (hp₂.transport.symm.trans (by simp [Packet.transport, hseg₂.tcp_]))
  obtain ⟨hg₁, -, hfound₁⟩ := doApp_other ftpConf_nodup hopen.sound.mode hout₁
  have hlen₁ : p₁.getTransportHeaderLen < p₁.transport_len_ := by
    rw [hp₁.headerLen, hp₁.len, length_oversizeLine]
    decide
  have hlen₂ : p₂.getTransportHeaderLen < p₂.transport_len_ := by
    rw [hp₂.headerLen, hp₂.len]
    decide
  have hnum₁ : p₁.nxt_seq_ = 2417 := by
    rw [hp₁.segment.numbers.2, hp₁.seq_eq, hp₁.headerLen, hp₁.len, length_oversizeLine]
    rfl
  have hnum₂ : p₂.cur_seq_ = 2417 ∧ p₂.nxt_seq_ = 2418 := by
    rw [hp₂.segment.numbers.1, hp₂.segment.numbers.2, hp₂.seq_eq, hp₂.headerLen, hp₂.len]
    exact ⟨rfl, rfl⟩
  obtain ⟨hkept, hpend₁⟩ := (doApp_handed ftpConf_nodup hopen.sound hopen.extra hopen.flow hseg₁ hlen₁ hout₁).edited
    (hopen.idle _) e he
  obtain ⟨nat₂, sm₂, hb₂, hflow₂⟩ := begin_again (hp₁.saddr6.trans hp₂.saddr6.symm) (hp₁.source.trans hp₂.source.symm)
    (hp₁.daddr6.trans hp₂.daddr6.symm) hp₁.in6 hp₂.in6 ftpConf_nodup hopen.sound.coherent hg₁ hopen.flow out₁.nat
  have hg₂ := hg₁.trans (begin_grown ftpConf_nodup hb₂)
  have hs₂ := hopen.sound.grown hg₂
  have hextra₂ := hg₂.extra.trans hopen.extra
  have htail : (sm₂.flowAt 0).pending 2417 = e.tail := by
    rw [begin_pending ftpConf_nodup hb₂, hpend₁, if_pos ⟨hnum₁.symm, hcut⟩]
  have hlt : 0 < sm₂.heap.length := hg₂.lt (by rw [hopen.heap]; decide)
  obtain ⟨hkl, htne⟩ := Edit.length_kept hcut
  obtain ⟨out₂, hout₂, hnone⟩ := doApp_byte (w := e.tail) hp₂ hs₂.mode hextra₂ hflow₂
    (hg₂.protocols.trans hopen.protocols) (by rw [hnum₂.1]; exact htail) htne
  have hfound₂ := (doApp_other ftpConf_nodup hs₂.mode hout₂).2.2.trans hflow₂
  have hhanded := doApp_handed ftpConf_nodup hs₂ hextra₂ hflow₂ hseg₂ hlen₂ hout₂
  have hon₁ : Turn.On (p₁, out₁) 0 .SERVER := ⟨hfound₁.trans hopen.flow, hp₁.dest⟩
  have hon₂ : Turn.On (p₂, out₂) 0 .SERVER := ⟨hfound₂, hp₂.dest⟩
  have hcarried : carried 0 .SERVER [.begun (.new 0) p₁, .passed nat₁ p₁ out₁, .begun out₁.nat p₂,
      .passed nat₂ p₂ out₂] = [(p₁, out₁), (p₂, out₂)] := by
    have hc₁ : Turn.Carries (p₁, out₁) := hlen₁
    have hc₂ : Turn.Carries (p₂, out₂) := hlen₂
    show (([(p₁, out₁), (p₂, out₂)] : List (Turn Unit)).filter _).filter _ = _
    rw [List.filter_filter, List.filter_eq_self]
    simp [hon₁, hon₂, hc₁, hc₂]
  refine ⟨[.begun (.new 0) p₁, .passed nat₁ p₁ out₁, .begun out₁.nat p₂, .passed nat₂ p₂ out₂], out₂.sm, (p₂, out₂),
    .cons ⟨_, _, hb₁⟩ (.cons ⟨hout₁, rfl⟩ (.cons ⟨_, _, hb₂⟩ (.one ⟨hout₂, rfl⟩))), ?_, ?_, ?_, ?_, ?_, ?_⟩
  · intro nat p out hm _
    simp only [List.mem_cons, reduceCtorEq, Event.passed.injEq, List.not_mem_nil, or_false, false_or] at hm
    rcases hm with ⟨-, rfl, -⟩ | ⟨-, rfl, -⟩
    · exact hp₁.segment
    · exact hp₂.segment
  · have hoff₁ : ¬Turn.On (p₁, out₁) 0 .CLIENT := fun h ↦ by cases h.2.symm.trans hp₁.dest
    have hoff₂ : ¬Turn.On (p₂, out₂) 0 .CLIENT := fun h ↦ by cases h.2.symm.trans hp₂.dest
    show (([(p₁, out₁), (p₂, out₂)] : List (Turn Unit)).filter _).filter _ = _
    rw [List.filter_filter, List.filter_eq_nil_iff]
    simp [hoff₁, hoff₂]
  · unfold InOrder
    rw [hcarried, List.isChain_pair]
    show p₂.seq = p₁.seq + UInt32.ofInt (p₁.transport_len_ - p₁.getTransportHeaderLen)
    rw [hp₂.seq_eq, hp₁.seq_eq, hp₁.headerLen, hp₁.len, length_oversizeLine]
    rfl
  · rw [hcarried]
    rfl
  · rw [hp₂.payload]
    rfl
  · rw [hcarried]
    have hpend₂ : ∀ s, (sm₂.flowAt 0).pending s = if s = 2417 then e.tail else [] := fun s ↦ by
      rw [begin_pending ftpConf_nodup hb₂, hpend₁, hnum₁, hopen.idle, hcut]
      simp
    have hlost := byte_lost hp₂ hseg₂ ⟨_, ftpConf_nodup, hs₂⟩ hextra₂ hflow₂ hout₂ hnone hpend₂ hold hcut ht htlen
    simp only [List.map_cons, List.map_nil, List.flatten_cons, List.flatten_nil, List.append_nil, Turn.emitted,
      Turn.applied, hkept, he, hnone, Option.map_some, Option.map_none, Option.getD_some, Option.getD_none, hp₂.payload,
      ← e.kept_append_tail, List.append_assoc]
    exact fun h ↦ hlost (List.append_cancel_left h)

end Broken

section Following

instance (sm : StateManager σ) (f : ℕ) (p : Packet) (edit : Option Edit) : Decidable (Shiftable sm f p edit) :=
  inferInstanceAs (Decidable (_ → _))

/-- Each packet that `play` passes on meets the condition. -/
def shiftable (pc : ParserClass σ) (f : ℕ) : NAT → StateManager σ → List Packet → Bool
  | _, _, [] => true
  | nat, sm, p :: ps =>
    match nat.begin sm p with
    | .error _ => true
    | .ok (_, nat', sm') =>
      match doApp pc nat' sm' p with
      | .error _ => true
      | .ok out => decide (Shiftable sm' f p out.edit) && shiftable pc f out.nat out.sm ps

theorem play_shift {pc : ParserClass σ} {f : ℕ} {nat : NAT} {sm : StateManager σ} {ps : List Packet}
    (h : shiftable pc f nat sm ps = true) :
    Run (ShiftStep pc f) sm (play pc nat sm ps).1 (play pc nat sm ps).2 := by
  induction ps generalizing nat sm with
  | nil => exact .nil sm
  | cons p ps ih =>
    unfold shiftable at h
    unfold play
    cases hb : nat.begin sm p with
    | error e => exact .nil sm
    | ok r =>
      obtain ⟨rc, nat', sm'⟩ := r
      have hbegun : ShiftStep pc f sm (.begun nat p) sm' := ⟨⟨rc, nat', hb⟩, fun t ht ↦ by cases ht⟩
      rw [hb] at h
      dsimp only at h ⊢
      cases ha : doApp pc nat' sm' p with
      | error e => exact .one hbegun
      | ok out =>
        rw [ha] at h
        obtain ⟨hp, hps⟩ := Bool.and_eq_true_iff.mp h
        refine .cons hbegun (.cons ⟨⟨ha, rfl⟩, fun t ht _ _ ↦ ?_⟩ (ih hps))
        cases ht
        exact of_decide_eq_true hp

/-- A client's lines that grow over their segment, and the next command. -/
def growing : List Packet :=
  [.tcp6 clientA serverS 1024 21 1000 5 longLines, .tcp6 clientA serverS 1024 21 2417 5 (text "USER anonymous\r\n")]

theorem growing_isSegment : ∀ p ∈ growing, p.IsSegment := by
  simp only [growing, List.forall_mem_cons, List.not_mem_nil, false_imp_iff, implies_true, and_true]
  exact ⟨Packet.tcp6_isSegment _ _ _ _ _ _ (by decide +kernel), Packet.tcp6_isSegment _ _ _ _ _ _ (by decide)⟩

set_option maxRecDepth 2000 in
/-- The command takes the bytes carried over to it and leaves as many of its own to the next segment. -/
theorem stream_carried_following : ∃ (evs : List (Event Unit)) (sm : StateManager Unit),
    Run (ShiftStep (FTPParser.only once noJunk) 0) (ftpConf .SHIFT) evs sm ∧
    (carried 0 .SERVER evs).map (fun t ↦ (t.2.edit.map Edit.cut, t.1.nxt_seq_, t.emitted.length)) =
      [(some true, 2417, 1417), (none, 2433, 16)] ∧
    (sm.flowAt 0).pending 2433 = text "anonymous\r\n" ∧
    (∀ t, (carried 0 .SERVER evs).getLast? = some t →
      ((carried 0 .SERVER evs).map Turn.emitted).flatten ++ (sm.flowAt 0).pending t.1.nxt_seq_ =
        ((carried 0 .SERVER evs).map Turn.applied).flatten) ∧
    ∀ us t vs, carried 0 .SERVER evs = us ++ t :: vs → (∃ u ∈ us, u.CutOff) →
      t.emitted.length = t.1.payload.length := by
  have hshift : shiftable (FTPParser.only once noJunk) 0 (.new 0) (ftpConf .SHIFT) growing = true := by
    decide +kernel
  have hseg := @play_segments _ (FTPParser.only once noJunk) (.new 0) (ftpConf .SHIFT) _ growing_isSegment 0
  obtain ⟨r, hr⟩ : ∃ r, r = play (FTPParser.only once noJunk) (.new 0) (ftpConf .SHIFT) growing := ⟨_, rfl⟩
  obtain ⟨hsizes, hpend, hone, hord⟩ :
      (carried 0 .SERVER r.1).map (fun t ↦ (t.2.edit.map Edit.cut, t.1.nxt_seq_, t.emitted.length)) =
        [(some true, 2417, 1417), (none, 2433, 16)] ∧
      (r.2.flowAt 0).pending 2433 = text "anonymous\r\n" ∧ (carried 0 .CLIENT r.1).length = 0 ∧
      InOrder 0 .SERVER r.1 := by
    rw [hr]
    unfold InOrder
    decide +kernel
  have hrun := play_shift hshift
  rw [← hr] at hrun hseg
  obtain ⟨hstream, hlength⟩ := stream_carried (d := .SERVER) (List.nodup_singleton _) hrun hseg
    (List.eq_nil_of_length_eq_zero hone) hord
  exact ⟨r.1, r.2, hrun, hsizes, hpend, hstream, hlength⟩

end Following

end Nat64Alg
