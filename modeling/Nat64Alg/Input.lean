import Nat64Alg.Ip
import Nat64Alg.Lib.Run
import Mathlib.Data.List.Infix

namespace Nat64Alg

open Lib

/-- An `istream` over characters in memory: those not yet extracted, and its `failbit`. -/
structure IStream where
  rest : Text
  fail : Bool
deriving DecidableEq, Repr

namespace IStream

/-- Where no character is left `istream::get` returns `traits::eof()`, which is -1. -/
def get (s : IStream) : UInt64 × IStream :=
  match s.fail, s.rest with
  | false, c :: rest => (c.toUInt64, { s with rest := rest })
  | _, _ => (-1, { s with fail := true })

def read (s : IStream) (n : ℕ) : IStream :=
  if s.fail = false ∧ n ≤ s.rest.length then { s with rest := s.rest.drop n } else ⟨[], true⟩

end IStream

/-- The address of a communicator, as `getAddrIStream` writes it down. -/
def getAddrIStream (c : UInt64) : IStream :=
  ⟨(List.range 8).map (fun i ↦ UInt8.ofNat (c.toNat / 256 ^ i)), false⟩

/-- What a communicator still has to give, block by block. -/
abbrev Supply := List Text

def getNewIstream : Supply → Option IStream × Supply
  | [] => (none, [])
  | block :: blocks => (some ⟨block, false⟩, blocks)

/-- A `char` is signed, so that a `size_t` made of it is its sign extension. -/
def charToSize (c : UInt8) : UInt64 :=
  UInt64.ofInt (if c.toNat < 128 then (c.toNat : Int) else (c.toNat : Int) - 256)

structure Input where
  d_deque : Text
  d_in : Option IStream
  d_lineNr : UInt64
deriving DecidableEq, Repr

namespace Input

/-- The constructor reads the address of the communicator off its stream. -/
def make (iStream : IStream) (lineNr : UInt64) : Input := ⟨[], some (iStream.read 8), lineNr⟩

section Next

variable (AT_EOF : UInt64)

def next (inp : Input) (blocks : Supply) : UInt64 × Input × Supply :=
  match inp.d_deque, inp.d_in with
  | ch :: rest, _ => (ch.toUInt64, { inp with d_deque := rest }, blocks)
  | [], none => (AT_EOF, inp, blocks)
  | [], some d_in =>
    let r := d_in.get
    if r.2.fail then
      let new := getNewIstream blocks
      match new.1 with
      | some d_in_new =>
        let r := d_in_new.get
        (if r.2.fail then AT_EOF else r.1, { inp with d_in := some r.2 }, new.2)
      | none => (AT_EOF, { inp with d_in := some r.2 }, new.2)
    else (r.1, { inp with d_in := some r.2 }, blocks)

def get (inp : Input) (blocks : Supply) : UInt64 × Input × Supply :=
  let r := inp.next AT_EOF blocks
  (r.1, if r.1 = 10 then { r.2.1 with d_lineNr := r.2.1.d_lineNr + 1 } else r.2.1, r.2.2)

/-- What the next `n` calls of `get` return. -/
def delivered : ℕ → Input → Supply → List UInt64
  | 0, _, _ => []
  | n + 1, inp, blocks =>
    let r := inp.get AT_EOF blocks
    r.1 :: delivered n r.2.1 r.2.2

end Next

def reRead (inp : Input) (ch : UInt64) : Input :=
  if ch < 0x100 then
    { inp with
      d_lineNr := if ch = 10 then inp.d_lineNr - 1 else inp.d_lineNr
      d_deque := ch.toUInt8 :: inp.d_deque }
  else inp

/-- The other `reRead`, which goes through the string from its end. -/
def reReadStr (inp : Input) (str : Text) (fmIdx : ℕ) : Input :=
  (str.drop fmIdx).foldr (fun c inp ↦ inp.reRead (charToSize c)) inp

def lineNr (inp : Input) : UInt64 := inp.d_lineNr

def pending (inp : Input) (blocks : Supply) : Text :=
  inp.d_deque ++ ((inp.d_in.map IStream.rest).getD [] ++ blocks.flatten)

/-- There is a stream, one that failed has nothing left, and no block to come is empty. -/
structure Open (inp : Input) (blocks : Supply) : Prop where
  d_in : ∃ s, inp.d_in = some s ∧ (s.fail = true → s.rest = [])
  blocks : ∀ b ∈ blocks, b ≠ []

theorem make_open (c : UInt64) (lineNr : UInt64) {blocks : Supply} (h : ∀ b ∈ blocks, b ≠ []) :
    (make (getAddrIStream c) lineNr).Open blocks ∧
    (make (getAddrIStream c) lineNr).pending blocks = blocks.flatten := by
  have hread : (getAddrIStream c).read 8 = ⟨[], false⟩ := by simp [IStream.read, getAddrIStream]
  unfold make pending
  rw [hread]
  exact ⟨⟨⟨_, rfl, fun _ ↦ rfl⟩, h⟩, rfl⟩

variable {AT_EOF : UInt64}

theorem next_spec {inp : Input} {blocks : Supply} (h : inp.Open blocks) :
    (inp.next AT_EOF blocks).1 = ((inp.pending blocks).head?.map UInt8.toUInt64).getD AT_EOF ∧
      (inp.next AT_EOF blocks).2.1.Open (inp.next AT_EOF blocks).2.2 ∧
      (inp.next AT_EOF blocks).2.1.pending (inp.next AT_EOF blocks).2.2 = (inp.pending blocks).tail ∧
      (inp.next AT_EOF blocks).2.1.d_lineNr = inp.d_lineNr := by
  obtain ⟨⟨s, hs, hfail⟩, hblocks⟩ := h
  rcases inp with ⟨deque, d_in, n⟩
  cases hs
  cases deque with
  | cons ch rest => exact ⟨rfl, ⟨⟨s, rfl, hfail⟩, hblocks⟩, rfl, rfl⟩
  | nil =>
    rcases s with ⟨rest, fail⟩
    cases rest with
    | cons c rest =>
      cases fail with
      | true => cases hfail rfl
      | false => exact ⟨rfl, ⟨⟨_, rfl, fun h ↦ (by cases h)⟩, hblocks⟩, rfl, rfl⟩
    | nil =>
      have hget : IStream.get ⟨[], fail⟩ = (-1, ⟨[], true⟩) := by cases fail <;> rfl
      cases blocks with
      | nil =>
        simp only [next, hget, getNewIstream, pending, if_true]
        exact ⟨rfl, ⟨⟨_, rfl, fun _ ↦ rfl⟩, hblocks⟩, rfl, trivial⟩
      | cons b blocks =>
        obtain ⟨c, rest, rfl⟩ := List.exists_cons_of_ne_nil (hblocks b List.mem_cons_self)
        simp only [next, hget, getNewIstream, pending, if_true]
        exact ⟨rfl, ⟨⟨_, rfl, fun h ↦ (by cases h)⟩, fun b hb ↦ hblocks b (List.mem_cons_of_mem _ hb)⟩, rfl, trivial⟩

theorem toUInt64_inj {c d : UInt8} : c.toUInt64 = d.toUInt64 ↔ c = d := by
  rw [← UInt64.toNat_inj, UInt8.toNat_toUInt64, UInt8.toNat_toUInt64, UInt8.toNat_inj]

theorem toUInt64_lt (c : UInt8) : c.toUInt64 < 0x100 := by
  rw [UInt64.lt_iff_toNat_lt, UInt8.toNat_toUInt64]
  exact c.toNat_lt

theorem get_spec (hEof : 0x100 ≤ AT_EOF) {inp : Input} {blocks : Supply} (h : inp.Open blocks) :
    (inp.get AT_EOF blocks).1 = ((inp.pending blocks).head?.map UInt8.toUInt64).getD AT_EOF ∧
      (inp.get AT_EOF blocks).2.1.Open (inp.get AT_EOF blocks).2.2 ∧
      (inp.get AT_EOF blocks).2.1.pending (inp.get AT_EOF blocks).2.2 = (inp.pending blocks).tail ∧
      (inp.get AT_EOF blocks).2.1.d_lineNr =
        inp.d_lineNr + if (inp.pending blocks).head? = some 10 then 1 else 0 := by
  obtain ⟨h₁, ⟨h₂, h₃⟩, h₄, h₅⟩ := @next_spec AT_EOF _ _ h
  have hline : (inp.next AT_EOF blocks).1 = 10 ↔ (inp.pending blocks).head? = some 10 := by
    rw [h₁]
    cases (inp.pending blocks).head? with
    | none =>
      simp only [Option.map_none, Option.getD_none, reduceCtorEq, iff_false]
      rintro rfl
      exact absurd hEof (by decide)
    | some c => simpa using @toUInt64_inj c 10
  unfold get
  dsimp only
  split
  case isTrue hc => exact ⟨h₁, ⟨h₂, h₃⟩, h₄, by rw [if_pos (hline.mp hc), h₅]⟩
  case isFalse hc => exact ⟨h₁, ⟨h₂, h₃⟩, h₄, by rw [if_neg (hline.not.mp hc), h₅, UInt64.add_zero]⟩

theorem delivered_spec (hEof : 0x100 ≤ AT_EOF) {inp : Input} {blocks : Supply} (h : inp.Open blocks) (n : ℕ) :
    delivered AT_EOF n inp blocks =
      ((inp.pending blocks).map UInt8.toUInt64 ++ List.replicate n AT_EOF).take n := by
  induction n generalizing inp blocks with
  | zero => rfl
  | succ n ih =>
    obtain ⟨h₁, h₂, h₃, -⟩ := get_spec hEof h
    simp only [delivered, h₁, ih h₂, h₃]
    cases inp.pending blocks with
    | nil => simp [List.replicate_succ]
    | cons c p => simp [List.take_append, List.replicate_succ', List.take_replicate]

theorem reRead_byte (inp : Input) (c : UInt8) : inp.reRead c.toUInt64 =
    { inp with
      d_lineNr := if c = 10 then inp.d_lineNr - 1 else inp.d_lineNr
      d_deque := c :: inp.d_deque } := by
  have hline : c.toUInt64 = 10 ↔ c = 10 := @toUInt64_inj c 10
  unfold reRead
  rw [if_pos (toUInt64_lt c)]
  simp only [hline, UInt8.toUInt8_toUInt64]

theorem charToSize_ascii {c : UInt8} (h : c.toNat < 128) : charToSize c = c.toUInt64 := by
  rw [charToSize, if_pos h, ← UInt64.toNat_inj, UInt8.toNat_toUInt64, UInt64.ofInt, UInt64.toNat_ofNat']
  omega

theorem charToSize_high {c : UInt8} (h : 128 ≤ c.toNat) : ¬charToSize c < 0x100 := by
  have hc := c.toNat_lt
  rw [charToSize, if_neg (by omega), UInt64.lt_iff_toNat_lt]
  have : (UInt64.ofInt ((c.toNat : Int) - 256)).toNat = 2 ^ 64 - 256 + c.toNat := by
    rw [UInt64.ofInt, UInt64.toNat_ofNat']
    omega
  rw [this, not_lt]
  exact Nat.le_add_right_of_le (by decide)

theorem reReadStr_spec (inp : Input) (str : Text) (fmIdx : ℕ) : inp.reReadStr str fmIdx =
    { inp with
      d_lineNr := inp.d_lineNr - UInt64.ofNat ((str.drop fmIdx).count 10)
      d_deque := (str.drop fmIdx).filter (fun c ↦ c.toNat < 128) ++ inp.d_deque } := by
  unfold reReadStr
  generalize str.drop fmIdx = w
  induction w with
  | nil => simp
  | cons c w ih =>
    rw [List.foldr_cons, ih]
    rcases lt_or_ge c.toNat 128 with hc | hc
    · rw [charToSize_ascii hc, reRead_byte, List.filter_cons_of_pos (by simpa using hc), List.count_cons]
      simp only [beq_iff_eq, Input.mk.injEq, List.cons_append, true_and]
      split
      · rw [UInt64.ofNat_add]
        grind
      · rfl
    · have hne : c ≠ 10 := by
        rintro rfl
        exact absurd hc (by decide)
      rw [List.filter_cons_of_neg (by simpa using hc), List.count_cons_of_ne hne]
      exact if_neg (charToSize_high hc)

end Input

/-- A scanner's use of its input: `read` is what was read and not pushed back. -/
structure Session where
  input : Input
  blocks : Supply
  read : Text

inductive CursorAct
  | get (ch : UInt64)
  | reRead (c : UInt8)
  | reReadStr (str : Text) (fmIdx : ℕ)
deriving DecidableEq, Repr

namespace Session

def start (c : UInt64) (blocks : Supply) : Session := ⟨Input.make (getAddrIStream c) 1, blocks, []⟩

/-- The byte in what `get` returned, if it is one. -/
def byteOf (ch : UInt64) : Text := if ch < 0x100 then [ch.toUInt8] else []

theorem byteOf_byte (c : UInt8) : byteOf c.toUInt64 = [c] := by
  rw [byteOf, if_pos (Input.toUInt64_lt c), UInt8.toUInt8_toUInt64]

theorem byteOf_eof {ch : UInt64} (h : 0x100 ≤ ch) : byteOf ch = [] := if_neg (UInt64.not_lt.mpr h)

inductive Step (AT_EOF : UInt64) : Session → CursorAct → Session → Prop
  | get (s : Session) : Step AT_EOF s (.get (s.input.get AT_EOF s.blocks).1)
      ⟨(s.input.get AT_EOF s.blocks).2.1, (s.input.get AT_EOF s.blocks).2.2,
        s.read ++ byteOf (s.input.get AT_EOF s.blocks).1⟩
  | reRead (s : Session) (r : Text) (c : UInt8) (h : s.read = r ++ [c]) :
      Step AT_EOF s (.reRead c) { s with input := s.input.reRead c.toUInt64, read := r }
  | reReadStr (s : Session) (r str : Text) (fmIdx : ℕ) (h : s.read = r ++ str.drop fmIdx) :
      Step AT_EOF s (.reReadStr str fmIdx) { s with input := s.input.reReadStr str fmIdx, read := r }

/-- The input is where a cursor over the concatenated blocks would be: what was read is read,
what comes is the rest, and the lines counted are those of what was read. -/
structure Faithful (AT_EOF : UInt64) (blocks : Supply) (s : Session) : Prop where
  read : s.read <+: blocks.flatten
  deliver : ∀ n, s.input.delivered AT_EOF n s.blocks =
    ((blocks.flatten.drop s.read.length).map UInt8.toUInt64 ++ List.replicate n AT_EOF).take n
  lineNr : s.input.lineNr - 1 = UInt64.ofNat (s.read.count 10)

/-- No byte from 128 on is pushed back as part of a string. -/
def Plain : CursorAct → Prop
  | .reReadStr str fmIdx => ∀ c ∈ str.drop fmIdx, c.toNat < 128
  | _ => True

structure Cursor (blocks : Supply) (s : Session) : Prop where
  ready : s.input.Open s.blocks
  split : s.read ++ s.input.pending s.blocks = blocks.flatten
  lineNr : s.input.d_lineNr = 1 + UInt64.ofNat (s.read.count 10)

variable {AT_EOF : UInt64} {blocks : Supply} {s s' : Session}

theorem Cursor.faithful (hEof : 0x100 ≤ AT_EOF) (h : Cursor blocks s) : Faithful AT_EOF blocks s := by
  refine ⟨⟨_, h.split⟩, fun n ↦ ?_, ?_⟩
  · rw [Input.delivered_spec hEof h.ready, ← h.split, List.drop_left]
  · rw [Input.lineNr, h.lineNr]
    grind

theorem cursor_start (c : UInt64) (h : ∀ b ∈ blocks, b ≠ []) : Cursor blocks (start c blocks) := by
  obtain ⟨ho, hp⟩ := Input.make_open c 1 h
  exact ⟨ho, hp, rfl⟩

theorem Cursor.step (hEof : 0x100 ≤ AT_EOF) (h : Cursor blocks s) {a : CursorAct} (hs : Step AT_EOF s a s')
    (ha : Plain a) : Cursor blocks s' := by
  obtain ⟨hready, hsplit, hline⟩ := h
  cases hs with
  | get =>
    obtain ⟨h₁, h₂, h₃, h₄⟩ := Input.get_spec hEof hready
    refine ⟨h₂, ?_, ?_⟩
    · dsimp only
      rw [h₃, ← hsplit, h₁]
      cases hp : s.input.pending s.blocks with
      | nil => simp [byteOf_eof hEof]
      | cons c p => simp [byteOf_byte]
    · dsimp only
      rw [h₄, h₁, hline]
      cases hp : s.input.pending s.blocks with
      | nil => simp [byteOf_eof hEof]
      | cons c p =>
        simp only [List.head?_cons, Option.map_some, Option.getD_some, byteOf_byte, List.count_append,
          Option.some.injEq, List.count_singleton, beq_iff_eq]
        split <;> simp [UInt64.ofNat_add, UInt64.add_assoc]
  | reRead r c hr =>
    rw [hr, List.append_assoc] at hsplit
    rw [hr] at hline
    refine ⟨⟨?_, hready.blocks⟩, ?_, ?_⟩
    · rw [Input.reRead_byte]
      exact hready.d_in
    · rw [Input.reRead_byte]
      exact hsplit
    · rw [Input.reRead_byte]
      dsimp only
      rw [hline, List.count_append, List.count_singleton]
      simp only [beq_iff_eq]
      split
      · rw [UInt64.ofNat_add]
        grind
      · rfl
  | reReadStr r str fmIdx hr =>
    rw [hr, List.append_assoc] at hsplit
    rw [hr] at hline
    refine ⟨⟨?_, hready.blocks⟩, ?_, ?_⟩
    · rw [Input.reReadStr_spec]
      exact hready.d_in
    · rw [Input.reReadStr_spec, List.filter_eq_self.mpr (by simpa [Plain] using ha)]
      simpa [Input.pending] using hsplit
    · rw [Input.reReadStr_spec]
      dsimp only
      rw [hline, List.count_append, UInt64.ofNat_add]
      grind

theorem length_le_of_delivered (hEof : 0x100 ≤ AT_EOF) {u w : Text}
    (h : (u.map UInt8.toUInt64 ++ List.replicate w.length AT_EOF).take w.length =
      (w.map UInt8.toUInt64 ++ List.replicate w.length AT_EOF).take w.length) : w.length ≤ u.length := by
  by_contra hlt
  have hmem : AT_EOF ∈ (u.map UInt8.toUInt64 ++ List.replicate w.length AT_EOF).take w.length := by
    rw [List.take_append, List.take_replicate, List.length_map]
    exact List.mem_append_right _ (List.mem_replicate.mpr ⟨by omega, rfl⟩)
  rw [h, List.take_append_of_le_length (by simp), List.take_of_length_le (by simp)] at hmem
  obtain ⟨c, -, hc⟩ := List.mem_map.mp hmem
  exact absurd (hc ▸ Input.toUInt64_lt c) (UInt64.not_lt.mpr hEof)

theorem Cursor.lost (hEof : 0x100 ≤ AT_EOF) (h : Cursor blocks s) {str : Text} {fmIdx : ℕ}
    (hs : Step AT_EOF s (.reReadStr str fmIdx) s') (hf : Faithful AT_EOF blocks s') :
    Plain (.reReadStr str fmIdx) := by
  obtain ⟨hready, hsplit, -⟩ := h
  cases hs with
  | reReadStr r _ _ hr =>
    have hopen : (s.input.reReadStr str fmIdx).Open s.blocks := by
      rw [Input.reReadStr_spec]
      exact ⟨hready.d_in, hready.blocks⟩
    have hpend : (s.input.reReadStr str fmIdx).pending s.blocks =
        (str.drop fmIdx).filter (fun c ↦ c.toNat < 128) ++ s.input.pending s.blocks := by
      rw [Input.reReadStr_spec, Input.pending, Input.pending, List.append_assoc]
    have hrest : blocks.flatten.drop r.length = str.drop fmIdx ++ s.input.pending s.blocks := by
      rw [← hsplit, hr, List.append_assoc, List.drop_left]
    have hdel := hf.deliver (str.drop fmIdx ++ s.input.pending s.blocks).length
    dsimp only at hdel
    rw [Input.delivered_spec hEof hopen, hpend, hrest] at hdel
    have hle := length_le_of_delivered hEof hdel
    simp only [List.length_append] at hle
    have hlen := List.length_filter_le (fun c : UInt8 ↦ decide (c.toNat < 128)) (str.drop fmIdx)
    have heq : (str.drop fmIdx).filter (fun c ↦ c.toNat < 128) = str.drop fmIdx :=
      List.filter_sublist.eq_of_length (by omega)
    exact fun c hc ↦ by simpa using List.filter_eq_self.mp heq c hc

/-- As long as no byte from 128 on is pushed back in a string the input is a cursor over the
blocks, and the first such push-back is where it stops being one. -/
theorem cursor_faithful_iff (hEof : 0x100 ≤ AT_EOF) {c : UInt64} {acts : List CursorAct}
    (hblocks : ∀ b ∈ blocks, b ≠ []) (h : Run (Step AT_EOF) (start c blocks) acts s)
    (hplain : ∀ a ∈ acts, Plain a) :
    Faithful AT_EOF blocks s ∧ ∀ a s', Step AT_EOF s a s' → (Faithful AT_EOF blocks s' ↔ Plain a) := by
  have hcur : Cursor blocks s := by
    refine h.history (I := fun as s ↦ (∀ a ∈ as, Plain a) → Cursor blocks s) ?_ (fun _ ↦ cursor_start c hblocks) hplain
    intro as s a s' hI hs has
    exact (hI fun b hb ↦ has b (List.mem_append_left _ hb)).step hEof hs (has a (by simp))
  refine ⟨hcur.faithful hEof, fun a s' hs ↦ ⟨fun hf ↦ ?_, fun ha ↦ (hcur.step hEof hs ha).faithful hEof⟩⟩
  cases a with
  | get => trivial
  | reRead => trivial
  | reReadStr str fmIdx => exact hcur.lost hEof hs hf

/-- Two blocks, a line break between them, and both kinds of push-back. -/
theorem cursor_faithful_blocks : ∃ s, Run (Step (-1)) (start 0 [[60, 10], [97]])
    [.get 60, .get 10, .reReadStr [60, 10] 1, .get 10, .get 97, .reRead 97] s ∧
    Faithful (-1) [[60, 10], [97]] s := by
  have h : Run (Step (-1)) (start 0 [[60, 10], [97]])
      [.get 60, .get 10, .reReadStr [60, 10] 1, .get 10, .get 97, .reRead 97] _ :=
    .cons (.get _) (.cons (.get _) (.cons (.reReadStr _ [60] _ _ rfl) (.cons (.get _) (.cons (.get _)
      (.one (.reRead _ [60, 10] _ rfl))))))
  exact ⟨_, h, (cursor_faithful_iff (by decide) (by decide) h (by simp [Plain])).1⟩

/-- A byte of a two-byte character does not come back through the string. -/
theorem reReadStr_drops : ¬∀ (blocks : Supply) (acts : List CursorAct) (s : Session), (∀ b ∈ blocks, b ≠ []) →
    Run (Step (-1)) (start 0 blocks) acts s → Faithful (-1) blocks s := by
  intro hall
  have h : Run (Step (-1)) (start 0 [[195]]) [.get 195, .reReadStr [195] 0] _ :=
    .cons (.get _) (.one (.reReadStr _ [] _ _ rfl))
  exact absurd ((hall [[195]] _ _ (by decide) h).deliver 1) (by decide)

end Session

end Nat64Alg
