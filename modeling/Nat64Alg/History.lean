import Nat64Alg.Events
import Nat64Alg.Lib.Run

namespace Nat64Alg

open Lib StateManager

variable {σ : Type} {pc : ParserClass σ} {ips : List IPv4Addr} {sm sm' : StateManager σ}

/-- One call, of `begin` or of `doApp`, by any translator for any packet. -/
inductive Event (σ : Type)
  | begun (nat : NAT) (pkt : Packet)
  | passed (nat : NAT) (pkt : Packet) (out : AppOut σ)

def AppStep (pc : ParserClass σ) (sm : StateManager σ) (ev : Event σ) (sm' : StateManager σ) : Prop :=
  match ev with
  | .begun nat p => ∃ rc nat', nat.begin sm p = .ok (rc, nat', sm')
  | .passed nat p out => doApp pc nat sm p = .ok out ∧ sm' = out.sm

/-- A packet passed to `doApp` with what came of it. -/
abbrev Turn (σ : Type) := Packet × AppOut σ

def Event.turn : Event σ → Option (Turn σ)
  | .begun _ _ => none
  | .passed _ p out => some (p, out)

namespace Turn

/-- The packet was found to belong to the flow `f` and went in the direction `d`. -/
def On (t : Turn σ) (f : ℕ) (d : DEST) : Prop := t.2.nat.exttcpflow_ = some f ∧ t.1.getDEST = d

instance (t : Turn σ) (f : ℕ) (d : DEST) : Decidable (t.On f d) :=
  inferInstanceAs (Decidable (_ ∧ _))

def delta (t : Turn σ) : Int := (t.2.edit.map Edit.delta).getD 0

end Turn

/-- The packets of one flow and direction passed to `doApp`, in order. -/
def turns (f : ℕ) (d : DEST) (evs : List (Event σ)) : List (Turn σ) :=
  (evs.filterMap Event.turn).filter (fun t ↦ decide (t.On f d))

/-- The length changes made so far to the packets of one flow and direction. -/
def changes (f : ℕ) (d : DEST) (evs : List (Event σ)) : Int := ((turns f d evs).map Turn.delta).sum

theorem turns_append (f : ℕ) (d : DEST) (evs evs' : List (Event σ)) :
    turns f d (evs ++ evs') = turns f d evs ++ turns f d evs' := by
  simp [turns]

theorem changes_append (f : ℕ) (d : DEST) (evs evs' : List (Event σ)) :
    changes f d (evs ++ evs') = changes f d evs + changes f d evs' := by
  simp [changes, turns_append]

theorem turns_passed (f : ℕ) (d : DEST) (nat : NAT) (p : Packet) (out : AppOut σ) :
    turns f d [.passed nat p out] = if Turn.On (p, out) f d then [(p, out)] else [] := by
  simp only [turns, List.filterMap_cons, Event.turn, List.filterMap_nil, List.filter_cons, List.filter_nil,
    decide_eq_true_eq]

/-- Every packet passed for the flow is a TCP packet with a complete header. -/
def Segments (f : ℕ) (evs : List (Event σ)) : Prop :=
  ∀ nat p out, Event.passed nat p out ∈ evs → out.nat.exttcpflow_ = some f → p.IsSegment

theorem Segments.left {f : ℕ} {evs evs' : List (Event σ)} (h : Segments f (evs ++ evs')) : Segments f evs :=
  fun nat p out hm ↦ h nat p out (List.mem_append_left _ hm)

theorem AppStep.grown (hips : (ips.flatMap poolOf).Nodup) (hmode : sm.analysisMode = false) {ev : Event σ}
    (h : AppStep pc sm ev sm') : Grown ips sm sm' := by
  cases ev with
  | begun nat p =>
    obtain ⟨rc, nat', hb⟩ := h
    exact (Still.begin hips hb).grown
  | passed nat p out =>
    obtain ⟨ha, rfl⟩ := h
    exact (doApp_other hips hmode ha).1

/-- The state every run from the configured one keeps to. -/
structure Sound (ips : List IPv4Addr) (sm : StateManager σ) : Prop where
  coherent : Coherent ips sm
  mode : sm.analysisMode = false

theorem Sound.start (prefix_ : IPv6Addr) (extra : EXTRAType) (protocols : OrderedMap String Protocol nameLt)
    (ips : List IPv4Addr) : Sound ips (configured prefix_ extra protocols ips : StateManager σ) :=
  ⟨coherent_configured prefix_ extra protocols ips, configured_mode prefix_ extra protocols ips⟩

theorem account_start (prefix_ : IPv6Addr) (extra : EXTRAType) (protocols : OrderedMap String Protocol nameLt)
    (ips : List IPv4Addr) (f : ℕ) :
    ((configured prefix_ extra protocols ips : StateManager σ).flowAt f).account = Account.new :=
  account_absent (by simp [configured_heap])

theorem Sound.grown (h : Sound ips sm) (hg : Grown ips sm sm') : Sound ips sm' :=
  ⟨hg.coherent h.coherent, hg.analysisMode.trans h.mode⟩

theorem Sound.run (hips : (ips.flatMap poolOf).Nodup) {evs : List (Event σ)} (h : Sound ips sm)
    (hrun : Run (AppStep pc) sm evs sm') : Sound ips sm' :=
  hrun.invariant (fun _ _ _ hs hstep ↦ hs.grown (hstep.grown hips hs.mode)) h

theorem AppStep.passed_cases (hips : (ips.flatMap poolOf).Nodup) (hs : Sound ips sm) {nat : NAT} {p : Packet}
    {out : AppOut σ} {f : ℕ} (h : AppStep pc sm (.passed nat p out) sm') (hf : out.nat.exttcpflow_ = some f)
    (hp : p.IsSegment) : ∃ a b, p.Segment a b ∧ p.Copied a b ∧
      Passed pc sm f (adjust (sm.flowAt f) p.getDEST p) a b { nat with exttcpflow_ := some f } out ∧
      (out.edit.isSome → p.getTransportHeaderLen < p.transport_len_) := by
  obtain ⟨ha, rfl⟩ := h
  obtain ⟨a, b, hseg, hcopy⟩ := hp.segment
  rw [(doApp_other hips hs.mode ha).2.2] at hf
  obtain ⟨hpass, hlen⟩ := doApp_passed hips hs.coherent hs.mode hf hseg ha
  exact ⟨a, b, hseg, hcopy, hpass, hlen⟩

theorem AppStep.other (hips : (ips.flatMap poolOf).Nodup) (hs : Sound ips sm) {ev : Event σ} {f : ℕ}
    (h : AppStep pc sm ev sm') (hf : ∀ t, ev.turn = some t → t.2.nat.exttcpflow_ ≠ some f) :
    (sm'.flowAt f).account = (sm.flowAt f).account := by
  cases ev with
  | begun nat p =>
    obtain ⟨rc, nat', hb⟩ := h
    exact (Still.begin hips hb).account f
  | passed nat p out =>
    obtain ⟨ha, rfl⟩ := h
    obtain ⟨-, hother, hflow⟩ := doApp_other hips hs.mode ha
    exact hother f (hflow ▸ hf (p, out) rfl)

end Nat64Alg
