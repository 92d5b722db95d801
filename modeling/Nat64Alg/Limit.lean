import Nat64Alg.Editing

namespace Nat64Alg

open Lib StateManager

variable {σ : Type}

/-- Operations that come one after the other and do not overlap. -/
structure Consecutive (ops : List Operation) : Prop where
  range : ∀ o ∈ ops, o.start_pos ≤ o.end_pos
  sorted : ops.Pairwise (fun a b ↦ a.end_pos ≤ b.start_pos)

/-- The change of length by the operations that end by `m`. -/
def editsBefore (m : Int) (ops : List Operation) : Int :=
  ((ops.filter (fun o ↦ o.end_pos ≤ m)).map Operation.delta).sum

/-- How many operations come before the first that ends after the limit as those before it move it. -/
def passed (limit : Int) : List Operation → ℕ
  | [] => 0
  | o :: rest => if o.end_pos ≤ limit then passed (limit + o.delta) rest + 1 else 0

/-- How many operations end by `m`. -/
def ending (m : Int) (ops : List Operation) : ℕ := ops.countP (fun o ↦ o.end_pos ≤ m)

def between (i j : ℕ) (ops : List Operation) : List Operation := (ops.take (max i j)).drop (min i j)

/-- The operations on which `m` and the limit moved on the way differ change the length by nothing. -/
def LimitKept (m : Int) (ops : List Operation) : Prop :=
  ((between (passed m ops) (ending m ops) ops).map Operation.delta).sum = 0

instance (m : Int) (ops : List Operation) : Decidable (LimitKept m ops) :=
  inferInstanceAs (Decidable (_ = _))

section Loop

variable {ops : List Operation} {m limit a b : Int}

def change (ops : List Operation) (i : ℕ) : Int := ((ops.take i).map Operation.delta).sum

theorem change_cons (o : Operation) (ops : List Operation) (i : ℕ) :
    change (o :: ops) (i + 1) = o.delta + change ops i := by
  simp only [change, List.take_succ_cons, List.map_cons, List.sum_cons]

theorem change_between (ops : List Operation) {i j : ℕ} (h : i ≤ j) :
    change ops j = change ops i + ((between i j ops).map Operation.delta).sum := by
  have hsplit := List.take_append_drop i (ops.take j)
  rw [List.take_take, Nat.min_eq_left h] at hsplit
  unfold change between
  rw [Nat.max_eq_right h, Nat.min_eq_left h, ← List.sum_append, ← List.map_append, hsplit]

theorem change_eq_iff (ops : List Operation) (i j : ℕ) :
    change ops i = change ops j ↔ ((between i j ops).map Operation.delta).sum = 0 := by
  have hcomm : between i j ops = between j i ops := by
    unfold between
    rw [Nat.max_comm, Nat.min_comm]
  rcases Nat.le_total i j with h | h
  · rw [change_between ops h]
    omega
  · rw [hcomm, change_between ops h]
    omega

theorem moveLimit_cons (o : Operation) (ops : List Operation) (a b : Int) : moveLimit (o :: ops) (a, b) =
    if o.end_pos ≤ b then moveLimit ops (a + o.delta, b + o.delta) else moveLimit ops (a, b) := by
  unfold moveLimit
  rw [List.foldl_cons]
  split <;> rfl

theorem moveLimit_sub (ops : List Operation) (a b : Int) :
    (moveLimit ops (a, b)).1 - a = (moveLimit ops (a, b)).2 - b := by
  induction ops generalizing a b with
  | nil => rw [moveLimit, List.foldl_nil, Int.sub_self, Int.sub_self]
  | cons o ops ih =>
    rw [moveLimit_cons]
    split
    · have := ih (a + o.delta) (b + o.delta)
      omega
    · exact ih a b

theorem moveLimit_level (h : ∀ o ∈ ops, o.delta = 0) (a b : Int) :
    moveLimit ops (a, b) = (a, b) := by
  induction ops with
  | nil => rfl
  | cons o ops ih =>
    rw [List.forall_mem_cons] at h
    rw [moveLimit_cons, h.1, Int.add_zero, Int.add_zero, ite_self]
    exact ih h.2

theorem moveLimit_beyond (h : ∀ o ∈ ops, b < o.end_pos) : moveLimit ops (a, b) = (a, b) := by
  induction ops with
  | nil => rfl
  | cons o ops ih =>
    rw [List.forall_mem_cons] at h
    rw [moveLimit_cons, if_neg (by omega), ih h.2]

theorem Consecutive.ends (h : Consecutive ops) : ops.Pairwise (fun a b ↦ a.end_pos ≤ b.end_pos) :=
  h.sorted.imp_of_mem fun _ hb hab ↦ hab.trans (h.range _ hb)

theorem Consecutive.fit {n i : Int} (h : Consecutive ops) (hi : ∀ o ∈ ops, i ≤ o.start_pos)
    (hn : ∀ o ∈ ops, o.end_pos ≤ n) (hne : ∀ o ∈ ops, o.newdata ≠ []) (hin : i ≤ n) :
    Patch.Fit n i (ops.map (Operation.patch 0)) := by
  induction ops generalizing i with
  | nil => exact hin
  | cons o ops ih =>
    obtain ⟨hrange, hsorted⟩ := h
    rw [List.forall_mem_cons] at hrange hi hn hne
    rw [List.pairwise_cons] at hsorted
    have hrest := ih ⟨hrange.2, hsorted.2⟩ hsorted.1 hn.2 hne.2 hn.1
    simp only [List.map_cons, Patch.Fit, Operation.patch, Int.sub_zero] at hrest ⊢
    exact ⟨hi.1, hrange.1, fun hnil ↦ absurd hnil hne.1, hrest⟩

theorem Consecutive.sortOps (h : Consecutive ops) : sortOps ops = ops := by
  have hstarts : ops.Pairwise (fun a b ↦ a.start_pos ≤ b.start_pos) :=
    h.sorted.imp_of_mem fun ha _ hab ↦ (h.range _ ha).trans hab
  exact List.Pairwise.insertionSort_eq hstarts

theorem moveLimit_passed (h : ops.Pairwise (fun a b ↦ a.end_pos ≤ b.end_pos)) (a b : Int) :
    (moveLimit ops (a, b)).2 = b + change ops (passed b ops) := by
  induction ops generalizing a b with
  | nil => simp [moveLimit, change]
  | cons o ops ih =>
    rw [List.pairwise_cons] at h
    rw [moveLimit_cons, passed]
    split
    case isTrue =>
      rw [ih h.2, change_cons]
      omega
    case isFalse hlt =>
      rw [moveLimit_beyond (fun x hx ↦ by have := h.1 x hx; omega)]
      simp [change]

theorem editsBefore_ending (h : ops.Pairwise (fun a b ↦ a.end_pos ≤ b.end_pos)) (m : Int) :
    editsBefore m ops = change ops (ending m ops) := by
  induction ops with
  | nil => rfl
  | cons o ops ih =>
    rw [List.pairwise_cons] at h
    by_cases ho : o.end_pos ≤ m
    · have hcount : ending m (o :: ops) = ending m ops + 1 := List.countP_cons_of_pos (by simpa using ho)
      rw [hcount, change_cons, ← ih h.2, editsBefore, List.filter_cons_of_pos (by simpa using ho)]
      rfl
    · have hnone : ∀ x ∈ o :: ops, ¬x.end_pos ≤ m := List.forall_mem_cons.mpr
        ⟨ho, fun x hx ↦ by have := h.1 x hx; omega⟩
      have hfilter : (o :: ops).filter (fun o ↦ o.end_pos ≤ m) = [] :=
        List.filter_eq_nil_iff.mpr (fun x hx ↦ by simpa using hnone x hx)
      have hcount : ending m (o :: ops) = 0 := List.countP_eq_zero.mpr (fun x hx ↦ by simpa using hnone x hx)
      rw [editsBefore, hfilter, hcount]
      rfl

end Loop

namespace Flow

variable {pc : ParserClass σ} {extra : EXTRAType} {flow : Flow σ} {p : Packet} {ops : List Operation}
  {parser : Parser σ}

/-- The limit `modify` uses for the length-exceed rewrite. -/
def usedLimit (flow : Flow σ) (p : Packet) (ops : List Operation) (parser : Parser σ) : Int :=
  (limit parser (sortOps ops)).1 - (flow.getPktOffset p).1

theorem modify_limit (hp : (payloadAt p).isSome = true) :
    (modify pc extra flow p ops parser).parser = (if ops = [] then parser else (limit parser (sortOps ops)).2) ∧
    (ops ≠ [] → (modify pc extra flow p ops parser).built = exceed pc (modify pc extra flow p ops parser).parser
      (usedLimit flow p ops parser) (modify pc extra flow p ops parser).copied) := by
  obtain ⟨⟨src, dst⟩, hpay⟩ := Option.isSome_iff_exists.mp hp
  unfold modify
  cases ops with
  | nil => exact ⟨rfl, fun h ↦ absurd rfl h⟩
  | cons o ops =>
    rw [if_neg (by simp), hpay, if_neg (List.cons_ne_nil o ops)]
    exact ⟨rfl, fun _ ↦ rfl⟩

theorem limit_fst (hm : 0 < parser.maxPos) (ops : List Operation) :
    (limit parser ops).1 = (limit parser ops).2.maxPos + parser.maxLen := by
  have := moveLimit_sub ops parser.maxPos parser.maxPos
  unfold limit
  rw [if_pos hm]
  dsimp only
  omega

theorem limit_maxPos (hm : 0 < parser.maxPos) (h : Consecutive ops) :
    (limit parser ops).2.maxPos = parser.maxPos + change ops (passed parser.maxPos ops) := by
  unfold limit
  rw [if_pos hm]
  exact moveLimit_passed h.ends _ _

/-- The limit is moved by the edits before it, and by them alone, exactly when those that end on
different sides of it before and after it has moved change the length by nothing in all. -/
theorem limit_moved_iff (hm : 0 < parser.maxPos) (h : Consecutive ops) (hp : (payloadAt p).isSome = true) :
    (ops ≠ [] → (modify pc extra flow p ops parser).built = exceed pc (modify pc extra flow p ops parser).parser
      (usedLimit flow p ops parser) (modify pc extra flow p ops parser).copied) ∧
    (usedLimit flow p ops parser =
        parser.maxPos + parser.maxLen + editsBefore parser.maxPos ops - (flow.getPktOffset p).1 ∧
      (modify pc extra flow p ops parser).parser.maxPos = parser.maxPos + editsBefore parser.maxPos ops ↔
      LimitKept parser.maxPos ops) := by
  obtain ⟨hparser, hbuilt⟩ := @modify_limit σ pc extra flow p ops parser hp
  refine ⟨hbuilt, ?_⟩
  have hmoved : (modify pc extra flow p ops parser).parser.maxPos =
      parser.maxPos + change ops (passed parser.maxPos ops) := by
    rw [hparser]
    split
    case isTrue hnil => simp [hnil, change]
    case isFalse => rw [h.sortOps, limit_maxPos hm h]
  have hused : usedLimit flow p ops parser = parser.maxPos + change ops (passed parser.maxPos ops) +
      parser.maxLen - (flow.getPktOffset p).1 := by
    rw [usedLimit, h.sortOps, limit_fst hm, limit_maxPos hm h]
  rw [hmoved, hused, editsBefore_ending h.ends, LimitKept, ← change_eq_iff]
  omega

end Flow

section Example

def sixteenBytes : Packet := .udp6 clientA serverS 1024 80 (text "headers=1;body=2")

/-- A parser whose limit stands behind the first ten bytes, with four more announced. -/
def limitedParser : Parser Unit := { plainParser with maxPos := 10, maxLen := 4 }

/-- Five bytes put in at the start, and two taken out of the body. -/
def bodyEdit : List Operation := [⟨0, 0, .REPLACE, text "12345", false⟩, ⟨12, 14, .REPLACE, [], false⟩]

theorem bodyEdit_consecutive : Consecutive bodyEdit := ⟨by decide, by simp [bodyEdit]⟩

/-- The limit, moved to 15, takes in the edit at 12: it ends at 13 and not at 15. -/
theorem bodyEdit_moves : ¬∀ (ops : List Operation), Consecutive ops →
    Flow.usedLimit plainFlow sixteenBytes ops limitedParser =
        10 + 4 + editsBefore 10 ops - (plainFlow.getPktOffset sixteenBytes).1 ∧
      (plainFlow.modify (FTPParser.only once noJunk) .NONE sixteenBytes ops limitedParser).parser.maxPos =
        10 + editsBefore 10 ops := by
  intro h
  have hall := (h bodyEdit bodyEdit_consecutive).2
  rw [(Flow.modify_limit (by decide +kernel)).1, if_neg (by decide)] at hall
  revert hall
  decide

theorem limit_moved_bodyEdit :
    (bodyEdit ≠ [] → (plainFlow.modify (FTPParser.only once noJunk) .NONE sixteenBytes bodyEdit limitedParser).built =
      Flow.exceed (FTPParser.only once noJunk)
        (plainFlow.modify (FTPParser.only once noJunk) .NONE sixteenBytes bodyEdit limitedParser).parser
        (Flow.usedLimit plainFlow sixteenBytes bodyEdit limitedParser)
        (plainFlow.modify (FTPParser.only once noJunk) .NONE sixteenBytes bodyEdit limitedParser).copied) ∧
    (Flow.usedLimit plainFlow sixteenBytes bodyEdit limitedParser =
        10 + 4 + editsBefore 10 bodyEdit - (plainFlow.getPktOffset sixteenBytes).1 ∧
      (plainFlow.modify (FTPParser.only once noJunk) .NONE sixteenBytes bodyEdit limitedParser).parser.maxPos =
        10 + editsBefore 10 bodyEdit ↔ LimitKept 10 bodyEdit) :=
  Flow.limit_moved_iff (by decide) bodyEdit_consecutive (by decide +kernel)

end Example

end Nat64Alg
