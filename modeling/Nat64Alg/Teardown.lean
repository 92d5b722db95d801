import Nat64Alg.Communicator

namespace Nat64Alg.StatefulCommunicator

open Lib

/-- A step of the parser thread. Those of the packet thread are the ones that take it elsewhere. -/
def ByParser (s : Link) (a : Act) (s' : Link) : Prop := Step s a s' ∧ s'.packet = s.packet

/-- `addData` has returned -1, in the call under way or in an earlier one. -/
def Told (s : Link) : Prop := s.packet = .returning (-1) ∨ s.ended = true

/-- Once `addData` has returned -1 the parser thread takes no step. -/
def Finished (s : Link) : Prop := Told s → ∀ a s', ¬ByParser s a s'

/-- Where the read in `addData` makes it return -1, the parser thread's end of the pipe is closed. -/
def Closed (s s' : Link) : Prop :=
  s.packet = .listening → s'.packet = .returning (-1) → s.ans_open = false

theorem ByParser.not_gone {s s' : Link} {a : Act} (h : ByParser s a s') : s.parser ≠ .gone := by
  obtain ⟨hstep, hsame⟩ := h
  intro hgone
  cases hstep with
  | call data h => exact absurd (hsame.trans h) (by simp)
  | store data h => exact absurd (hsame.trans h) (by simp)
  | running h hr => exact absurd (hsame.trans h) (by simp)
  | init h hr => exact absurd (hsame.trans h) (by simp)
  | greeting c cs h ha => exact absurd (hsame.trans h) (by simp)
  | greetingEof h ha ho => exact absurd (hsame.trans h) (by simp)
  | send h => exact absurd (hsame.trans h) (by simp)
  | answer c cs h ha => exact absurd (hsame.trans h) (by simp)
  | answerEof h ha ho => exact absurd (hsame.trans h) (by simp)
  | ret r h => exact absurd (hsame.trans h) (by simp)
  | endReached h hpos hend => exact absurd (hgone.symm.trans h) (by simp)
  | ask h hend => exact absurd (hgone.symm.trans h) (by simp)
  | command c cs h hd => exact absurd (hgone.symm.trans h) (by simp)
  | count h => exact absurd (hgone.symm.trans h) (by simp)
  | receive h => exact absurd (hgone.symm.trans h) (by simp)
  | add op h => exact absurd (hgone.symm.trans h) (by simp)
  | setLengthEnd pos len h => exact absurd (hgone.symm.trans h) (by simp)
  | usedUp h => exact absurd (hgone.symm.trans h) (by simp)
  | done h => exact absurd (hgone.symm.trans h) (by simp)
  | quit h => exact absurd (hgone.symm.trans h) (by simp)
  | close h => exact absurd (hgone.symm.trans h) (by simp)

theorem byParser_of_over {s : Link} (h : s.parser.Over) (hopen : s.parser ≠ .gone) : ∃ a s', ByParser s a s' := by
  rcases h with h | h | h
  · exact ⟨_, _, .quit s h, rfl⟩
  · exact ⟨_, _, .close s h, rfl⟩
  · exact absurd h hopen

theorem Turns.quit {as : List Act} {s : Link} (h : Turns as s) (hgone : s.parser = .gone ∨ s.ans_open = false) :
    Quit as s := by
  rcases h.phase with ⟨pending, hj, -, -, hopen⟩ | hq
  · rcases hgone with hgone | hgone
    · rcases s with ⟨packet, parser, data_, running_, fd_data, fd_ans, _, _, endPos, _, _⟩
      cases hgone
      cases hj
    · rw [hopen] at hgone
      cases hgone
  · exact hq

theorem open_step {as : List Act} {s s' : Link} {a : Act} (h : Turns as s)
    (hiff : s.ans_open = false ↔ s.parser = .gone)
    (hstep : Step s a s') : s'.ans_open = false ↔ s'.parser = .gone := by
  have hmove : ∀ {p q : ParserAt}, s.parser = p → p ≠ .gone → q ≠ .gone → (s.ans_open = false ↔ q = .gone) :=
    fun hp hne hq ↦ ⟨fun ho ↦ absurd (hp.symm.trans (hiff.mp ho)) hne, fun hg ↦ absurd hg hq⟩
  cases hstep with
  | call data _ => exact hiff
  | store data _ => exact hiff
  | running _ hr => exact hiff
  | init _ hr => exact ⟨fun ho ↦ absurd hr (by simp [(h.quit (.inr ho)).running_]), (nomatch ·)⟩
  | greeting c cs _ ha => exact hiff
  | greetingEof _ ha ho => exact hiff
  | send _ => exact hiff
  | answer c cs _ ha => exact hiff
  | answerEof _ ha ho => exact hiff
  | ret r _ => exact hiff
  | endReached hp _ _ => exact hmove hp (by simp) (by simp)
  | ask hp _ => exact hmove hp (by simp) (by simp)
  | command c cs hp _ => exact hmove hp (by simp) (by split <;> simp)
  | count hp => exact hmove hp (by simp) (by simp)
  | receive hp => exact hmove hp (by simp) (by simp)
  | add op hp => exact hiff
  | setLengthEnd pos len hp => exact hiff
  | usedUp hp => exact hmove hp (by simp) (by simp)
  | done hp => exact hmove hp (by simp) (by simp)
  | quit hp => exact hmove hp (by simp) (by simp)
  | close hp => exact ⟨fun _ ↦ rfl, fun _ ↦ rfl⟩

theorem open_run {as : List Act} {s : Link} (hrun : Run Step start as s) :
    s.ans_open = false ↔ s.parser = .gone := by
  refine (hrun.history (I := fun as s ↦ Run Step start as s ∧ (s.ans_open = false ↔ s.parser = .gone)) ?_
    ⟨.nil _, by simp [start]⟩).2
  rintro as s a s' ⟨hrun, hiff⟩ hstep
  exact ⟨hrun.append (.one hstep), open_step (turns_run hrun) hiff hstep⟩

theorem gone_step {as : List Act} {s s' : Link} {a : Act} (h : Turns as s) (hgone : s.parser = .gone)
    (hstep : Step s a s') : s'.parser = .gone := by
  have hrun := (h.quit (.inl hgone)).running_
  have hmove : ∀ {p q : ParserAt}, s.parser = p → p ≠ .gone → q = .gone := fun hp hne ↦ absurd (hp.symm.trans hgone) hne
  cases hstep with
  | init _ hr => exact absurd hr (by simp [hrun])
  | endReached hp _ _ => exact hmove hp (by simp)
  | ask hp _ => exact hmove hp (by simp)
  | command c cs hp _ => exact hmove hp (by simp)
  | count hp => exact hmove hp (by simp)
  | receive hp => exact hmove hp (by simp)
  | usedUp hp => exact hmove hp (by simp)
  | done hp => exact hmove hp (by simp)
  | quit hp => exact hmove hp (by simp)
  | close hp => rfl
  | _ => exact hgone

/-- How the packet thread comes to be told: it was told before, or it just reads that the parser has quit. -/
theorem told_step {as : List Act} {s s' : Link} {a : Act} (h : Turns as s) (hstep : Step s a s') (ht : Told s') :
    Told s ∨ s.packet = .listening ∧ s'.packet = .returning (-1) := by
  have hother : ∀ {p : PacketAt}, s'.packet = p → p ≠ .returning (-1) → s'.ended = s.ended → Told s :=
    fun hp hne he ↦ ht.elim (fun h ↦ absurd (hp.symm.trans h) hne) (fun h ↦ .inr (he.symm.trans h))
  cases hstep with
  | call data _ => exact .inl (hother rfl (by simp) rfl)
  | store data _ => exact .inl (hother rfl (by simp) rfl)
  | running _ hr => exact .inl (hother rfl (by simp) rfl)
  | init _ hr => exact .inl (hother rfl (by simp) rfl)
  | greeting c cs _ ha => exact .inl (hother rfl (by simp) rfl)
  | greetingEof _ ha ho => exact .inl (hother rfl (by simp) rfl)
  | send _ => exact .inl (hother rfl (by simp) rfl)
  | answer c cs hp ha => exact ht.elim (fun h ↦ .inr ⟨hp, h⟩) (fun h ↦ .inl (.inr h))
  | answerEof hp ha ho => exact .inr ⟨hp, rfl⟩
  | ret r hp =>
    refine .inl ?_
    rcases ht with ht | ht
    · cases ht
    · rcases Bool.or_eq_true_iff.mp ht with he | hr
      · exact .inr he
      · rcases h.phase with ⟨pending, hj, -, -, -⟩ | hq
        · rcases s with ⟨packet, parser, data_, running_, fd_data, fd_ans, _, _, endPos, _, _⟩
          cases hp
          cases hj
          simp at hr
        · exact .inl (hp.trans (by rw [hq.packet.2 r hp]))
  | _ => exact .inl ht

/-- A read that makes `addData` return -1 either comes after the close, or leaves the parser
thread with a step to take. -/
theorem told_open {as : List Act} {s s' : Link} {a : Act} (hrun : Run Step start as s) (hstep : Step s a s')
    (hl : s.packet = .listening) (hr : s'.packet = .returning (-1)) (ho : s.ans_open = true) :
    ∃ b s'', ByParser s' b s'' := by
  have hgone : s.parser ≠ .gone := fun hg ↦ absurd ((open_run hrun).mpr hg) (by simp [ho])
  have hkeep : s'.packet ≠ s.packet := by simp [hl, hr]
  cases hstep with
  | answer c cs _ ha =>
    rcases (turns_run hrun).phase with ⟨pending, hj, -, -, -⟩ | hq
    · rcases s with ⟨packet, parser, data_, running_, fd_data, fd_ans, _, _, endPos, _, _⟩
      cases hl
      cases hj <;> cases ha
      cases hr
    · exact byParser_of_over hq.leaving hgone
  | answerEof _ ha hc => exact absurd ho (by simp [hc])
  | call data h => exact absurd (hl.symm.trans h) (by simp)
  | store data h => exact absurd (hl.symm.trans h) (by simp)
  | running h _ => exact absurd (hl.symm.trans h) (by simp)
  | init h _ => exact absurd (hl.symm.trans h) (by simp)
  | greeting c cs h _ => exact absurd (hl.symm.trans h) (by simp)
  | greetingEof h _ _ => exact absurd (hl.symm.trans h) (by simp)
  | send h => exact absurd (hl.symm.trans h) (by simp)
  | ret r h => exact absurd (hl.symm.trans h) (by simp)
  | _ => exact absurd rfl hkeep

/-- Runs in which each read that makes `addData` return -1 comes after the close. -/
abbrev ClosedStep (s : Link) (a : Act) (s' : Link) : Prop := Step s a s' ∧ Closed s s'

theorem told_gone {as : List Act} {s : Link} (hrun : Run ClosedStep start as s) (ht : Told s) : s.parser = .gone := by
  refine (hrun.history (I := fun as s ↦ Run Step start as s ∧ (Told s → s.parser = .gone)) ?_
    ⟨.nil _, by simp [Told, start]⟩).2 ht
  rintro as s a s' ⟨hrun, hgone⟩ ⟨hstep, hclosed⟩
  refine ⟨hrun.append (.one hstep), fun ht ↦ ?_⟩
  rcases told_step (turns_run hrun) hstep ht with ht | ⟨hl, hr⟩
  · exact gone_step (turns_run hrun) (hgone ht) hstep
  · exact gone_step (turns_run hrun) ((open_run hrun).mp (hclosed hl hr)) hstep

/-- Where each read that makes `addData` return -1 comes after the close, the parser thread is
finished whenever it should be; at the first one that does not, it is not. -/
theorem finished_iff_closed {as : List Act} {s : Link} (hrun : Run ClosedStep start as s) :
    Finished s ∧ ∀ a s', Step s a s' → (Finished s' ↔ Closed s s') := by
  have hfinished : ∀ {as s}, Run ClosedStep start as s → Finished s :=
    fun hrun ht a s' hb ↦ hb.not_gone (told_gone hrun ht)
  refine ⟨hfinished hrun, fun a s' hstep ↦ ⟨fun hf hl hr ↦ ?_, fun hc ↦ hfinished (hrun.append (.one ⟨hstep, hc⟩))⟩⟩
  by_contra ho
  obtain ⟨b, s'', hb⟩ := told_open (hrun.mono And.left) hstep hl hr (by simpa using ho)
  exact hf (.inl hr) b s'' hb

/-- The parser thread closes its end before the packet thread reads that it has quit. -/
theorem finished_in_time : ∃ s : Link, s.packet = .returning (-1) ∧ Finished s := by
  have hfar : ∀ {p : PacketAt} {s s' : Link}, s.packet = p → p ≠ .listening → Closed s s' :=
    fun hp hne hl ↦ absurd (hp.symm.trans hl) hne
  have hstay : ∀ {s s' : Link}, s'.packet = .listening → Closed s s' :=
    fun hp _ hr ↦ absurd (hp.symm.trans hr) (by simp)
  refine ⟨_, rfl, (finished_iff_closed (.cons ⟨.call _ [1] rfl, hfar rfl (by simp [start])⟩ <|
    .cons ⟨.store _ _ rfl, hfar rfl (by simp)⟩ <| .cons ⟨.init _ rfl rfl, hfar rfl (by simp)⟩ <|
    .cons ⟨.ask _ rfl (by decide), hfar rfl (by simp)⟩ <| .cons ⟨.greeting _ _ _ rfl rfl, hfar rfl (by simp)⟩ <|
    .cons ⟨.send _ rfl, hfar rfl (by simp)⟩ <| .cons ⟨.command _ _ _ rfl rfl, hstay rfl⟩ <|
    .cons ⟨.count _ rfl, hstay rfl⟩ <| .cons ⟨.receive _ rfl, hstay rfl⟩ <| .cons ⟨.done _ rfl, hstay rfl⟩ <|
    .cons ⟨.quit _ rfl, hstay rfl⟩ <| .cons ⟨.close _ rfl, hstay rfl⟩ <|
    .one ⟨.answer _ .QUIT _ rfl rfl, fun _ _ ↦ rfl⟩)).1⟩

/-- A parser as its flow owns it, and whether `getParser` has replaced it. -/
structure Owned where
  link : Link
  freed : Bool

/-- The packet thread leaves a parser alone that was replaced, for the flow has another. -/
inductive OwnedStep : Owned → Act → Owned → Prop
  | thread (o : Owned) (a : Act) (s : Link) (h : Step o.link a s) (hf : o.freed = true → s.packet = o.link.packet) :
      OwnedStep o a { o with link := s }
  | getParser (o : Owned) (h : o.link.packet = .outside) (he : o.link.ended = true) :
      OwnedStep o .tau { o with freed := true }

theorem ended_step {s s' : Link} {a : Act} (hstep : Step s a s') (h : s.ended = true) : s'.ended = true := by
  cases hstep with
  | ret r _ => exact Bool.or_eq_true_iff.mpr (.inl h)
  | _ => exact h

theorem freed_untouched {as : List Act} {o : Owned}
    (hrun : Run (fun o a o' ↦ OwnedStep o a o' ∧ Closed o.link o'.link) ⟨start, false⟩ as o) (hf : o.freed = true) :
    ∀ a s', ¬ByParser o.link a s' := by
  have h : (∃ bs, Run ClosedStep start bs o.link) ∧ (o.freed = true → o.link.ended = true) := by
    refine hrun.invariant (I := fun o ↦ (∃ bs, Run ClosedStep start bs o.link) ∧ (o.freed = true → o.link.ended = true))
      ?_ ⟨⟨[], .nil _⟩, fun h ↦ (nomatch h)⟩
    rintro o a o' ⟨⟨bs, hb⟩, hended⟩ ⟨hstep, hclosed⟩
    cases hstep with
    | thread _ s h hp => exact ⟨⟨_, hb.append (.one ⟨h, hclosed⟩)⟩, fun hf ↦ ended_step h (hended hf)⟩
    | getParser h he => exact ⟨⟨bs, hb⟩, fun _ ↦ he⟩
  obtain ⟨⟨bs, hb⟩, hended⟩ := h
  exact fun a s' hby ↦ hby.not_gone (told_gone hb (.inr (hended hf)))

/-- The packet thread reads `QUIT`, returns and has the next packet replace the parser, all
before the parser thread gets to its `close`. -/
theorem close_after_free : (¬∀ as s, Run Step start as s → Finished s) ∧ ∃ as o,
    Run OwnedStep ⟨start, false⟩ as o ∧ o.freed = true ∧ o.link.parser = .closing ∧ ∃ a s', ByParser o.link a s' := by
  have hrun : Run Step start [.call [1], .tau, .tau, .tau, .tau, .tau, .tau, .count, .receive [1], .tau, .tau,
      .tau] _ :=
    .cons (.call _ [1] rfl) <| .cons (.store _ _ rfl) <| .cons (.init _ rfl rfl) <|
      .cons (.ask _ rfl (by decide)) <| .cons (.greeting _ _ _ rfl rfl) <| .cons (.send _ rfl) <|
      .cons (.command _ _ _ rfl rfl) <| .cons (.count _ rfl) <| .cons (.receive _ rfl) <| .cons (.done _ rfl) <|
      .cons (.quit _ rfl) <| .one (.answer _ .QUIT _ rfl rfl)
  have howned : ∀ {as s}, Run Step start as s → Run OwnedStep ⟨start, false⟩ as ⟨s, false⟩ := by
    intro as s h
    refine h.history (I := fun as s ↦ Run OwnedStep ⟨start, false⟩ as ⟨s, false⟩) (fun as s a s' hI hstep ↦ ?_) (.nil _)
    exact hI.append (.one (.thread ⟨s, false⟩ a s' hstep (nomatch ·)))
  refine ⟨fun hall ↦ ?_, _, _, ((howned hrun).append (.cons (.thread _ _ _ (.ret _ _ rfl) (nomatch ·)) <|
    .one (.getParser _ rfl rfl))), rfl, rfl, _, _, .close _ rfl, rfl⟩
  exact hall _ _ hrun (.inl rfl) _ _ ⟨.close _ rfl, rfl⟩

end Nat64Alg.StatefulCommunicator
