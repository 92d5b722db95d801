import Nat64Alg.Parser
import Nat64Alg.Lib.Run

namespace Nat64Alg.StatefulCommunicator

open Lib

inductive COMMAND
  | ADDDATA
  | MOREDATA
  | QUIT
deriving DecidableEq, Repr

/-- Where the packet thread stands: outside `Parser::process`, in `addData` or in `init`, or
back from `addData` with its answer. -/
inductive PacketAt
  | outside
  | storing (data : Text)
  | starting
  | initializing
  | sending
  | listening
  | returning (r : Int)
deriving DecidableEq, Repr

/-- Where the parser thread stands: not created, in `getIStream` up to the answer and from
there on, parsing, or past the end of `Parser::run`. -/
inductive ParserAt
  | unborn
  | asking
  | waiting
  | counting
  | streaming
  | parsing
  | leaving
  | closing
  | gone
deriving DecidableEq, Repr

/-- The two threads, what they share, and the two pipes between them. -/
structure Link where
  packet : PacketAt
  parser : ParserAt
  data_ : Text
  running_ : Bool
  fd_data : List COMMAND
  fd_ans : List COMMAND
  /-- The parser thread has not closed its end of `fd_ans`. -/
  ans_open : Bool
  total_len : ℕ
  endPos : Int
  ended : Bool
  ops : List Operation

/-- What a step shows: a call of `process` and its return, the parser's reading of the size
of `data_` and of `data_` itself, an operation added, or nothing. -/
inductive Act
  | call (data : Text)
  | ret (r : Int) (ops : List Operation)
  | count
  | receive (data : Text)
  | add (op : Operation)
  | tau
deriving DecidableEq, Repr

/-- A communicator whose parser has been made and not used. -/
def start : Link := ⟨.outside, .unborn, [], false, [], [], true, 0, -1, false, []⟩

/-- One step of either thread. What the parser does with its input is left open: it may add
operations and set the end of the message before it uses its input up or is done. -/
inductive Step : Link → Act → Link → Prop
  | call (s : Link) (data : Text) (h : s.packet = .outside) :
      Step s (.call data) { s with packet := .storing data }
  | store (s : Link) (data : Text) (h : s.packet = .storing data) :
      Step s .tau { s with packet := .starting, data_ := data }
  | running (s : Link) (h : s.packet = .starting) (hr : s.running_ = true) :
      Step s .tau { s with packet := .sending }
  | init (s : Link) (h : s.packet = .starting) (hr : s.running_ = false) :
      Step s .tau { s with packet := .initializing, running_ := true, parser := .asking }
  | greeting (s : Link) (c : COMMAND) (cs : List COMMAND) (h : s.packet = .initializing)
      (ha : s.fd_ans = c :: cs) : Step s .tau { s with packet := .sending, fd_ans := cs }
  | greetingEof (s : Link) (h : s.packet = .initializing) (ha : s.fd_ans = []) (ho : s.ans_open = false) :
      Step s .tau { s with packet := .sending }
  | send (s : Link) (h : s.packet = .sending) :
      Step s .tau { s with packet := .listening, fd_data := s.fd_data ++ [.ADDDATA] }
  | answer (s : Link) (c : COMMAND) (cs : List COMMAND) (h : s.packet = .listening) (ha : s.fd_ans = c :: cs) :
      Step s .tau { s with packet := .returning (if c = .QUIT then -1 else 0), fd_ans := cs }
  | answerEof (s : Link) (h : s.packet = .listening) (ha : s.fd_ans = []) (ho : s.ans_open = false) :
      Step s .tau { s with packet := .returning (-1) }
  | ret (s : Link) (r : Int) (h : s.packet = .returning r) :
      Step s (.ret r s.ops) { s with packet := .outside, ended := s.ended || decide (r < 0), ops := [] }
  | endReached (s : Link) (h : s.parser = .asking) (hpos : 0 < s.endPos) (hend : s.endPos ≤ s.total_len) :
      Step s .tau { s with parser := .leaving, fd_ans := s.fd_ans ++ [.QUIT] }
  | ask (s : Link) (h : s.parser = .asking) (hend : ¬(0 < s.endPos ∧ s.endPos ≤ s.total_len)) :
      Step s .tau { s with parser := .waiting, fd_ans := s.fd_ans ++ [.MOREDATA] }
  | command (s : Link) (c : COMMAND) (cs : List COMMAND) (h : s.parser = .waiting) (hd : s.fd_data = c :: cs) :
      Step s .tau { s with parser := if c = .ADDDATA then .counting else .leaving, fd_data := cs }
  | count (s : Link) (h : s.parser = .counting) :
      Step s .count { s with parser := .streaming, total_len := s.total_len + s.data_.length }
  | receive (s : Link) (h : s.parser = .streaming) : Step s (.receive s.data_) { s with parser := .parsing }
  | add (s : Link) (op : Operation) (h : s.parser = .parsing) : Step s (.add op) { s with ops := s.ops ++ [op] }
  | setLengthEnd (s : Link) (pos len : Int) (h : s.parser = .parsing) :
      Step s .tau { s with endPos := pos + len }
  | usedUp (s : Link) (h : s.parser = .parsing) : Step s .tau { s with parser := .asking }
  | done (s : Link) (h : s.parser = .parsing) : Step s .tau { s with parser := .leaving }
  | quit (s : Link) (h : s.parser = .leaving) :
      Step s .tau { s with parser := .closing, fd_ans := s.fd_ans ++ [.QUIT] }
  | close (s : Link) (h : s.parser = .closing) : Step s .tau { s with parser := .gone, ans_open := false }

def Act.given : Act → Option Text
  | .call data => some data
  | _ => none

def Act.received : Act → Option Text
  | .receive data => some data
  | _ => none

/-- The blocks given to `process`, and those the parser received. -/
def given (as : List Act) : List Text := as.filterMap Act.given
def received (as : List Act) : List Text := as.filterMap Act.received

/-- The operations added since a block was last given or received. -/
def parsed (as : List Act) : List Operation :=
  as.foldl (fun ops a ↦ match a with
    | .call _ => []
    | .receive _ => []
    | .add op => ops ++ [op]
    | _ => ops) []

section Snoc

variable (as : List Act)

theorem given_call (d : Text) : given (as ++ [.call d]) = given as ++ [d] := by simp [given, Act.given]

theorem given_other {a : Act} (h : a.given = none) : given (as ++ [a]) = given as := by simp [given, h]

theorem received_receive (d : Text) : received (as ++ [.receive d]) = received as ++ [d] := by
  simp [received, Act.received]

theorem received_other {a : Act} (h : a.received = none) : received (as ++ [a]) = received as := by
  simp [received, h]

theorem parsed_call (d : Text) : parsed (as ++ [.call d]) = [] := by simp [parsed]

theorem parsed_receive (d : Text) : parsed (as ++ [.receive d]) = [] := by simp [parsed]

theorem parsed_add (op : Operation) : parsed (as ++ [.add op]) = parsed as ++ [op] := by simp [parsed]

theorem parsed_tau : parsed (as ++ [.tau]) = parsed as := by simp [parsed]

theorem parsed_count : parsed (as ++ [.count]) = parsed as := by simp [parsed]

end Snoc

def ParserAt.Over (p : ParserAt) : Prop := p = .leaving ∨ p = .closing ∨ p = .gone

/-- Where the two threads can be together while the parser runs, with what is in the pipes,
and the block that is on its way to the parser. -/
inductive Joint : PacketAt → ParserAt → List COMMAND → List COMMAND → Text → Bool → Int → List Text → Prop
  | unused (d : Text) : Joint .outside .unborn [] [] d false (-1) []
  | first (d d' : Text) : Joint (.storing d') .unborn [] [] d false (-1) [d']
  | create (d : Text) : Joint .starting .unborn [] [] d false (-1) [d]
  | born (d : Text) : Joint .initializing .asking [] [] d true (-1) [d]
  | greeted (d : Text) : Joint .initializing .waiting [] [.MOREDATA] d true (-1) [d]
  | idle (d : Text) (e : Int) : Joint .outside .waiting [] [] d true e []
  | next (d d' : Text) (e : Int) : Joint (.storing d') .waiting [] [] d true e [d']
  | stored (d : Text) (e : Int) : Joint .starting .waiting [] [] d true e [d]
  | ready (d : Text) (e : Int) : Joint .sending .waiting [] [] d true e [d]
  | sent (d : Text) (e : Int) : Joint .listening .waiting [.ADDDATA] [] d true e [d]
  | counting (d : Text) (e : Int) : Joint .listening .counting [] [] d true e [d]
  | streaming (d : Text) (e : Int) : Joint .listening .streaming [] [] d true e [d]
  | parsing (d : Text) (e : Int) : Joint .listening .parsing [] [] d true e []
  | asking (d : Text) (e : Int) : Joint .listening .asking [] [] d true e []
  | answered (d : Text) (e : Int) : Joint .listening .waiting [] [.MOREDATA] d true e []
  | returning (d : Text) (e : Int) : Joint (.returning 0) .waiting [] [] d true e []

namespace Joint

variable {pk : PacketAt} {pa : ParserAt} {fd ans cs : List COMMAND} {d data : Text} {run : Bool} {e r : Int}
  {pending : List Text} {c : COMMAND}

theorem call (h : Joint .outside pa fd ans d run e pending) (data : Text) :
    pending = [] ∧ Joint (.storing data) pa fd ans d run e [data] := by
  cases h with
  | unused => exact ⟨rfl, .first _ _⟩
  | idle => exact ⟨rfl, .next _ _ _⟩

theorem store (h : Joint (.storing data) pa fd ans d run e pending) :
    Joint .starting pa fd ans data run e pending := by
  cases h with
  | first => exact .create _
  | next => exact .stored _ _

theorem running (h : Joint .starting pa fd ans d true e pending) : Joint .sending pa fd ans d true e pending := by
  cases h
  exact .ready _ _

theorem init (h : Joint .starting pa fd ans d false e pending) :
    Joint .initializing .asking fd ans d true e pending := by
  cases h
  exact .born _

theorem greeting (h : Joint .initializing pa fd (c :: cs) d run e pending) :
    Joint .sending pa fd cs d run e pending := by
  cases h
  exact .ready _ _

theorem send (h : Joint .sending pa fd ans d run e pending) :
    Joint .listening pa (fd ++ [.ADDDATA]) ans d run e pending := by
  cases h
  exact .sent _ _

theorem answer (h : Joint .listening pa fd (c :: cs) d run e pending) :
    Joint (.returning (if c = .QUIT then -1 else 0)) pa fd cs d run e pending := by
  cases h
  exact .returning _ _

theorem ret (h : Joint (.returning r) pa fd ans d run e pending) :
    pending = [] ∧ Joint .outside pa fd ans d run e pending := by
  cases h
  exact ⟨rfl, .idle _ _⟩

/-- The parser sees an end of the message after a block only. -/
theorem endReached (h : Joint pk .asking fd ans d run e pending) (hpos : 0 < e) :
    pk = .listening ∧ ans = [] ∧ run = true ∧ pending = [] := by
  cases h with
  | born => cases hpos
  | asking => exact ⟨rfl, rfl, rfl, rfl⟩

theorem ask (h : Joint pk .asking fd ans d run e pending) :
    Joint pk .waiting fd (ans ++ [.MOREDATA]) d run e pending := by
  cases h with
  | born => exact .greeted _
  | asking => exact .answered _ _

theorem command (h : Joint pk .waiting (c :: cs) ans d run e pending) :
    Joint pk (if c = .ADDDATA then .counting else .leaving) cs ans d run e pending := by
  cases h
  exact .counting _ _

theorem count (h : Joint pk .counting fd ans d run e pending) : Joint pk .streaming fd ans d run e pending := by
  cases h
  exact .streaming _ _

theorem receive (h : Joint pk .streaming fd ans d run e pending) :
    pending = [d] ∧ Joint pk .parsing fd ans d run e [] := by
  cases h
  exact ⟨rfl, .parsing _ _⟩

theorem parsed (h : Joint pk .parsing fd ans d run e pending) :
    pk = .listening ∧ ans = [] ∧ run = true ∧ pending = [] := by
  cases h
  exact ⟨rfl, rfl, rfl, rfl⟩

theorem setLengthEnd (h : Joint pk .parsing fd ans d run e pending) (e' : Int) :
    Joint pk .parsing fd ans d run e' pending := by
  cases h
  exact .parsing _ _

theorem usedUp (h : Joint pk .parsing fd ans d run e pending) : Joint pk .asking fd ans d run e pending := by
  cases h
  exact .asking _ _

theorem not_over (h : Joint pk pa fd ans d run e pending) : ¬pa.Over := by
  cases h <;> simp [ParserAt.Over]

end Joint

structure Live (as : List Act) (s : Link) (pending : List Text) : Prop where
  joint : Joint s.packet s.parser s.fd_data s.fd_ans s.data_ s.running_ s.endPos pending
  blocks : given as = received as ++ pending
  fresh : pending ≠ [] → s.ops = []
  ans_open : s.ans_open = true

/-- What holds once the parser has quit: the packet thread can only be told so. -/
structure Quit (as : List Act) (s : Link) : Prop where
  leaving : s.parser.Over
  packet : s.packet ≠ .initializing ∧ ∀ r, s.packet = .returning r → r = -1
  answers : ∀ c ∈ s.fd_ans, c = .QUIT
  blocks : received as <+: given as
  running_ : s.running_ = true

/-- The operations collected are those of the block being handled. -/
structure Collected (as : List Act) (s : Link) : Prop where
  outside : s.packet = .outside → s.ops = []
  inside : s.packet ≠ .outside → s.ops = parsed as

section Steps

variable {as : List Act} {s s' : Link} {a : Act} {pending : List Text}

/-- A step that neither gives nor receives a block leaves the one that is on its way. -/
theorem Live.quiet (h : Live as s pending) (hgiven : a.given = none) (hreceived : a.received = none)
    (hj : Joint s'.packet s'.parser s'.fd_data s'.fd_ans s'.data_ s'.running_ s'.endPos pending)
    (hops : s'.ops = s.ops ∨ pending = []) (hopen : s'.ans_open = s.ans_open) : Live (as ++ [a]) s' pending := by
  refine ⟨hj, ?_, fun hp ↦ ?_, hopen.trans h.ans_open⟩
  · rw [given_other _ hgiven, received_other _ hreceived, h.blocks]
  · rw [hops.resolve_right hp]
    exact h.fresh hp

theorem Live.call (h : Live as s pending) (hc : Collected as s) (hp : s.packet = .outside) (data : Text) :
    Live (as ++ [.call data]) { s with packet := .storing data } [data] := by
  have hj := h.joint
  rw [hp] at hj
  obtain ⟨rfl, hnext⟩ := hj.call data
  refine ⟨hnext, ?_, fun _ ↦ hc.outside hp, h.ans_open⟩
  rw [given_call, received_other _ rfl, h.blocks, List.append_nil]

theorem Live.receive (h : Live as s pending) (hp : s.parser = .streaming) :
    Live (as ++ [.receive s.data_]) { s with parser := .parsing } [] := by
  have hj := h.joint
  rw [hp] at hj
  obtain ⟨rfl, hnext⟩ := hj.receive
  refine ⟨hnext, ?_, fun h ↦ absurd rfl h, h.ans_open⟩
  rw [given_other _ rfl, received_receive, h.blocks, List.append_nil]

/-- The parser leaves while the packet thread listens, and has received all that was given. -/
theorem Live.leaves (h : Live as s pending)
    (hj : s.packet = .listening ∧ s.fd_ans = [] ∧ s.running_ = true ∧ pending = [])
    (hpacket : s'.packet = s.packet) (hparser : s'.parser = .leaving) (hrun : s'.running_ = s.running_)
    (hans : ∀ c ∈ s'.fd_ans, c ∈ s.fd_ans ∨ c = .QUIT) : Quit (as ++ [.tau]) s' := by
  obtain ⟨hp, ha, hr, rfl⟩ := hj
  rw [ha] at hans
  refine ⟨.inl hparser, ?_, fun c hc ↦ (hans c hc).resolve_left List.not_mem_nil, ?_, hrun.trans hr⟩
  · rw [hpacket, hp]
    exact ⟨by simp, by simp⟩
  · have hall : given (as ++ [.tau]) = received (as ++ [.tau]) := by
      rw [given_other _ rfl, received_other _ rfl, h.blocks, List.append_nil]
    exact ⟨[], (List.append_nil _).trans hall.symm⟩

theorem Live.step (h : Live as s pending) (hc : Collected as s) (hstep : Step s a s') :
    (∃ pending', Live (as ++ [a]) s' pending') ∨ Quit (as ++ [a]) s' := by
  have hj := h.joint
  cases hstep with
  | call data hp => exact .inl ⟨_, h.call hc hp data⟩
  | store data hp =>
    rw [hp] at hj
    exact .inl ⟨_, h.quiet rfl rfl hj.store (.inl rfl) rfl⟩
  | running hp hr =>
    rw [hp, hr] at hj
    exact .inl ⟨_, h.quiet rfl rfl (hr ▸ hj.running) (.inl rfl) rfl⟩
  | init hp hr =>
    rw [hp, hr] at hj
    exact .inl ⟨_, h.quiet rfl rfl hj.init (.inl rfl) rfl⟩
  | greeting c cs hp ha =>
    rw [hp, ha] at hj
    exact .inl ⟨_, h.quiet rfl rfl hj.greeting (.inl rfl) rfl⟩
  | send hp =>
    rw [hp] at hj
    exact .inl ⟨_, h.quiet rfl rfl hj.send (.inl rfl) rfl⟩
  | answer c cs hp ha =>
    rw [hp, ha] at hj
    exact .inl ⟨_, h.quiet rfl rfl hj.answer (.inl rfl) rfl⟩
  | greetingEof hp ha ho | answerEof hp ha ho => exact absurd h.ans_open (by simp [ho])
  | ret r hp =>
    rw [hp] at hj
    exact .inl ⟨_, h.quiet rfl rfl hj.ret.2 (.inr hj.ret.1) rfl⟩
  | endReached hp hpos hend =>
    rw [hp] at hj
    exact .inr (h.leaves (hj.endReached hpos) rfl rfl rfl (by simp))
  | ask hp hend =>
    rw [hp] at hj
    exact .inl ⟨_, h.quiet rfl rfl hj.ask (.inl rfl) rfl⟩
  | command c cs hp hd =>
    rw [hp, hd] at hj
    exact .inl ⟨_, h.quiet rfl rfl hj.command (.inl rfl) rfl⟩
  | count hp =>
    rw [hp] at hj
    exact .inl ⟨_, h.quiet rfl rfl hj.count (.inl rfl) rfl⟩
  | receive hp => exact .inl ⟨_, h.receive hp⟩
  | add op hp =>
    rw [hp] at hj
    exact .inl ⟨_, h.quiet rfl rfl (hp ▸ hj) (.inr hj.parsed.2.2.2) rfl⟩
  | setLengthEnd pos len hp =>
    rw [hp] at hj
    exact .inl ⟨_, h.quiet rfl rfl (hp ▸ hj.setLengthEnd _) (.inl rfl) rfl⟩
  | usedUp hp =>
    rw [hp] at hj
    exact .inl ⟨_, h.quiet rfl rfl hj.usedUp (.inl rfl) rfl⟩
  | done hp =>
    rw [hp] at hj
    exact .inr (h.leaves hj.parsed rfl rfl rfl (fun c hc ↦ .inl hc))
  | quit hp => exact absurd (.inl hp) hj.not_over
  | close hp => exact absurd (.inr (.inl hp)) hj.not_over

end Steps

theorem Quit.step {as : List Act} {s s' : Link} {a : Act} (h : Quit as s) (hstep : Step s a s') :
    Quit (as ++ [a]) s' := by
  obtain ⟨hover, ⟨hinit, hret⟩, hans, hblocks, hrun⟩ := h
  have hpar : ∀ p : ParserAt, p.Over → p ≠ .unborn ∧ p ≠ .asking ∧ p ≠ .waiting ∧ p ≠ .counting ∧
      p ≠ .streaming ∧ p ≠ .parsing := by
    rintro p (rfl | rfl | rfl) <;> simp
  obtain ⟨h₁, h₂, h₃, h₄, h₅, h₆⟩ := hpar _ hover
  have hsame : ∀ a : Act, a.given = none → a.received = none → received (as ++ [a]) <+: given (as ++ [a]) := by
    intro a hg hr
    rwa [given_other _ hg, received_other _ hr]
  cases hstep with
  | call data h =>
    refine ⟨hover, ⟨by simp, by simp⟩, hans, ?_, hrun⟩
    rw [given_call, received_other _ rfl]
    exact hblocks.trans (List.prefix_append _ _)
  | store data h => exact ⟨hover, ⟨by simp, by simp⟩, hans, hsame _ rfl rfl, hrun⟩
  | running h hr => exact ⟨hover, ⟨by simp, by simp⟩, hans, hsame _ rfl rfl, hrun⟩
  | init h hr => exact absurd hrun (by simp [hr])
  | greeting c cs h ha => exact absurd h hinit
  | greetingEof h ha ho => exact absurd h hinit
  | send h => exact ⟨hover, ⟨by simp, by simp⟩, hans, hsame _ rfl rfl, hrun⟩
  | answer c cs h ha =>
    have hc : c = .QUIT := hans c (by simp [ha])
    refine ⟨hover, ⟨by simp, fun r hr ↦ ?_⟩, fun d hd ↦ hans d (by simp [ha, hd]), hsame _ rfl rfl, hrun⟩
    rw [if_pos hc] at hr
    exact (PacketAt.returning.inj hr).symm
  | answerEof h ha ho =>
    exact ⟨hover, ⟨by simp, fun r hr ↦ (PacketAt.returning.inj hr).symm⟩, hans, hsame _ rfl rfl, hrun⟩
  | ret r h => exact ⟨hover, ⟨by simp, by simp⟩, hans, hsame _ rfl rfl, hrun⟩
  | endReached h hpos hend => exact absurd h h₂
  | ask h hend => exact absurd h h₂
  | command c cs h hd => exact absurd h h₃
  | count h => exact absurd h h₄
  | receive h => exact absurd h h₅
  | add op h => exact absurd h h₆
  | setLengthEnd pos len h => exact absurd h h₆
  | usedUp h => exact absurd h h₆
  | done h => exact absurd h h₆
  | quit h =>
    refine ⟨.inr (.inl rfl), ⟨hinit, hret⟩, fun c hc ↦ ?_, hsame _ rfl rfl, hrun⟩
    exact (List.mem_append.mp hc).elim (hans c) List.mem_singleton.mp
  | close h => exact ⟨.inr (.inr rfl), ⟨hinit, hret⟩, hans, hsame _ rfl rfl, hrun⟩

theorem Collected.step {as : List Act} {s s' : Link} {a : Act} (h : Collected as s) (hstep : Step s a s')
    (hadd : s.parser = .parsing → s.packet = .listening) (hfresh : s.parser = .streaming →
    s.packet = .listening ∧ s.ops = []) :
    Collected (as ++ [a]) s' := by
  obtain ⟨hout, hin⟩ := h
  have htau : ∀ p, s.packet = p → p ≠ .outside → s.ops = parsed (as ++ [.tau]) := by
    rintro p rfl hp
    rw [parsed_tau]
    exact hin hp
  have hkeep : (s.packet ≠ .outside → s.ops = parsed (as ++ [.tau])) := fun hp ↦ htau _ rfl hp
  cases hstep with
  | call data h => exact ⟨(nomatch ·), fun _ ↦ by rw [parsed_call]; exact hout h⟩
  | store data h => exact ⟨(nomatch ·), fun _ ↦ htau _ h (by simp)⟩
  | running h hr => exact ⟨(nomatch ·), fun _ ↦ htau _ h (by simp)⟩
  | init h hr => exact ⟨(nomatch ·), fun _ ↦ htau _ h (by simp)⟩
  | greeting c cs h ha => exact ⟨(nomatch ·), fun _ ↦ htau _ h (by simp)⟩
  | greetingEof h ha ho => exact ⟨(nomatch ·), fun _ ↦ htau _ h (by simp)⟩
  | send h => exact ⟨(nomatch ·), fun _ ↦ htau _ h (by simp)⟩
  | answer c cs h ha => exact ⟨(nomatch ·), fun _ ↦ htau _ h (by simp)⟩
  | answerEof h ha ho => exact ⟨(nomatch ·), fun _ ↦ htau _ h (by simp)⟩
  | ret r h => exact ⟨fun _ ↦ rfl, fun hp ↦ absurd rfl hp⟩
  | endReached h hpos hend => exact ⟨hout, hkeep⟩
  | ask h hend => exact ⟨hout, hkeep⟩
  | command c cs h hd => exact ⟨hout, hkeep⟩
  | count h => exact ⟨hout, fun hp ↦ by rw [parsed_count]; exact hin hp⟩
  | receive h => exact ⟨hout, fun _ ↦ by rw [parsed_receive]; exact (hfresh h).2⟩
  | add op h =>
    have hp := hadd h
    refine ⟨fun ho ↦ absurd (hp.symm.trans ho) (by simp), fun _ ↦ ?_⟩
    rw [parsed_add, ← hin (by simp [hp])]
  | setLengthEnd pos len h => exact ⟨hout, hkeep⟩
  | usedUp h => exact ⟨hout, hkeep⟩
  | done h => exact ⟨hout, hkeep⟩
  | quit h => exact ⟨hout, hkeep⟩
  | close h => exact ⟨hout, hkeep⟩

/-- The threads take turns: one of them has the block and its operations at a time. -/
structure Turns (as : List Act) (s : Link) : Prop where
  phase : (∃ pending, Live as s pending) ∨ Quit as s
  collected : Collected as s

theorem Live.busy {as : List Act} {s : Link} {pending : List Text} (h : Live as s pending)
    (hp : s.parser = .counting ∨ s.parser = .streaming ∨ s.parser = .parsing) : s.packet = .listening := by
  obtain ⟨hj, -, -, -⟩ := h
  rcases s with ⟨packet, parser, data_, running_, fd_data, fd_ans, _, _, endPos, _, _⟩
  cases hj <;> first | rfl | simp at hp

theorem Turns.busy {as : List Act} {s : Link} (h : Turns as s)
    (hp : s.parser = .counting ∨ s.parser = .streaming ∨ s.parser = .parsing) : s.packet = .listening := by
  rcases h.phase with ⟨pending, hl⟩ | hq
  · exact hl.busy hp
  · rcases hq.leaving with ho | ho | ho <;> simp [ho] at hp

theorem Turns.fresh {as : List Act} {s : Link} (h : Turns as s) (hp : s.parser = .streaming) : s.ops = [] := by
  rcases h.phase with ⟨pending, hj, -, hf, -⟩ | hq
  · refine hf ?_
    rcases s with ⟨packet, parser, data_, running_, fd_data, fd_ans, _, _, endPos, _, _⟩
    cases hp
    cases hj
    simp
  · rcases hq.leaving with ho | ho | ho <;> simp [ho] at hp

theorem turns_run {as : List Act} {s : Link} (hrun : Run Step start as s) : Turns as s := by
  refine hrun.history (I := Turns) ?_ ⟨.inl ⟨[], .unused _, rfl, fun h ↦ absurd rfl h, rfl⟩, fun _ ↦ rfl,
    fun h ↦ absurd rfl h⟩
  intro as s a s' h hstep
  refine ⟨?_, h.collected.step hstep (fun hp ↦ h.busy (.inr (.inr hp)))
    (fun hp ↦ ⟨h.busy (.inr (.inl hp)), h.fresh hp⟩)⟩
  rcases h.phase with ⟨pending, hl⟩ | hq
  · exact hl.step h.collected hstep
  · exact .inr (hq.step hstep)

def Link.BothWait (s : Link) : Prop :=
  (s.packet = .initializing ∨ s.packet = .listening) ∧ s.fd_ans = [] ∧ s.parser = .waiting ∧ s.fd_data = []

/-- The hand-shake after the steps `as`. -/
structure Orderly (as : List Act) (s : Link) : Prop where
  /-- What the threads share is in the hands of the parser between `ADDDATA` and the answer only. -/
  exclusive : ∀ a s', Step s a s' → (a = .count ∨ (∃ d, a = .receive d) ∨ ∃ op, a = .add op) → s.packet = .listening
  in_order : received as <+: given as
  none_lost : ¬s.parser.Over → given as = received as ∨
    (s.packet ≠ .outside ∧ ∀ r, s.packet ≠ .returning r) ∧ ∃ d, given as = received as ++ [d]
  returned : ∀ r ops s', Step s (.ret r ops) s' → ops = parsed as ∧
    (r = 0 → given as = received as ∧ s.parser = .waiting ∧ s.fd_data = [] ∧ s.fd_ans = [])
  no_deadlock : ¬s.BothWait

theorem handshake {as : List Act} {s : Link} (hrun : Run Step start as s) : Orderly as s := by
  have h := turns_run hrun
  refine ⟨fun a s' hstep ha ↦ h.busy ?_, ?_, fun hover ↦ ?_, fun r ops s' hstep ↦ ?_, ?_⟩
  · rcases ha with rfl | ⟨d, rfl⟩ | ⟨op, rfl⟩
    · cases hstep with | count h => exact .inl h
    · cases hstep with | receive h => exact .inr (.inl h)
    · cases hstep with | add op h => exact .inr (.inr h)
  · rcases h.phase with ⟨pending, hl⟩ | hq
    · exact ⟨pending, hl.blocks.symm⟩
    · exact hq.blocks
  · rcases h.phase with ⟨pending, hj, hblocks, -, -⟩ | hq
    · rw [hblocks]
      rcases s with ⟨packet, parser, data_, running_, fd_data, fd_ans, _, _, endPos, _, _⟩
      cases hj <;> simp
    · exact absurd hq.leaving hover
  · cases hstep with
    | ret _ hr =>
      refine ⟨h.collected.inside (by simp [hr]), ?_⟩
      rintro rfl
      rcases h.phase with ⟨pending, hj, hblocks, -, -⟩ | hq
      · rcases s with ⟨packet, parser, data_, running_, fd_data, fd_ans, _, _, endPos, _, _⟩
        cases hr
        cases hj
        exact ⟨hblocks.trans (List.append_nil _), rfl, rfl, rfl⟩
      · exact absurd (hq.packet.2 0 hr) (by decide)
  · rintro ⟨hp, hans, hpar, hdata⟩
    rcases h.phase with ⟨pending, hj, -, -, -⟩ | hq
    · rcases s with ⟨packet, parser, data_, running_, fd_data, fd_ans, _, _, endPos, _, _⟩
      cases hpar
      cases hdata
      cases hans
      cases hj <;> simp at hp
    · rcases hq.leaving with ho | ho | ho <;> simp [ho] at hpar

/-- The hand-shake that starts the parser thread, and a block from its call to the return of
the operation added for it. -/
theorem handshake_first : ∃ s : Link, Orderly [.call [1], .tau, .tau, .tau, .tau, .tau, .tau, .count, .receive [1],
    .add ⟨0, 1, .REPLACE, [], false⟩, .tau, .tau, .tau, .ret 0 [⟨0, 1, .REPLACE, [], false⟩]] s :=
  ⟨_, handshake (.cons (.call _ [1] rfl) <| .cons (.store _ _ rfl) <| .cons (.init _ rfl rfl) <|
    .cons (.ask _ rfl (by decide)) <| .cons (.greeting _ _ _ rfl rfl) <| .cons (.send _ rfl) <|
    .cons (.command _ _ _ rfl rfl) <| .cons (.count _ rfl) <| .cons (.receive _ rfl) <| .cons (.add _ _ rfl) <|
    .cons (.usedUp _ rfl) <| .cons (.ask _ rfl (by decide)) <| .cons (.answer _ _ _ rfl rfl) <|
    .one (.ret _ 0 rfl))⟩

end Nat64Alg.StatefulCommunicator
