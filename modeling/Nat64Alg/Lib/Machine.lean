import Nat64Alg.Lib.Run
import Mathlib.Logic.Function.Basic
import Mathlib.Data.List.Nodup

namespace Nat64Alg.Lib

/-- A machine that answers an input and moves on, or stops. -/
abbrev Machine (A I O : Type*) := A → I → Option (O × A)

theorem Run.simulates {S L S' L' : Type*} {step : S → L → S → Prop} {step' : S' → L' → S' → Prop}
    {R : S → S' → Prop} {shows : L → List L'}
    (hstep : ∀ s l s' t, R s t → step s l s' → ∃ t', Run step' t (shows l) t' ∧ R s' t')
    {s s' : S} {t : S'} {ls : List L} (h : Run step s ls s') (hR : R s t) :
    ∃ t', Run step' t (ls.flatMap shows) t' ∧ R s' t' := by
  induction h generalizing t with
  | nil => exact ⟨t, .nil t, hR⟩
  | cons hs _ ih =>
    obtain ⟨u, hu, hR'⟩ := hstep _ _ _ _ hR hs
    obtain ⟨t', ht, hend⟩ := ih hR'
    exact ⟨t', hu.append ht, hend⟩

namespace Machine

variable {A I O : Type*} (m : Machine A I O)

/-- The answers to some inputs in turn, if the machine does not stop at one of them. -/
def run : A → List I → Option (List O × A)
  | a, [] => some ([], a)
  | a, i :: is =>
    match m a i with
    | none => none
    | some (o, a') => (run a' is).map (fun r ↦ (o :: r.1, r.2))

@[simp] theorem run_nil (a : A) : m.run a [] = some ([], a) := rfl

variable {m}

theorem run_cons {a a' : A} {i : I} {o : O} (h : m a i = some (o, a')) (is : List I) :
    m.run a (i :: is) = (m.run a' is).map (fun r ↦ (o :: r.1, r.2)) := by
  simp only [run, h]

theorem run_append {a a' : A} {is : List I} {os : List O} (h : m.run a is = some (os, a')) (js : List I) :
    m.run a (is ++ js) = (m.run a' js).map (fun r ↦ (os ++ r.1, r.2)) := by
  induction is generalizing a os with
  | nil =>
    cases h
    simp
  | cons i is ih =>
    unfold run at h
    split at h
    case h_1 => cases h
    case h_2 o b hi =>
      obtain ⟨⟨ps, c⟩, hr, he⟩ := Option.map_eq_some_iff.mp h
      cases he
      rw [List.cons_append, run_cons hi, ih hr, Option.map_map]
      rfl

theorem run_concat {a a' a'' : A} {is : List I} {os : List O} {i : I} {o : O} (h : m.run a is = some (os, a'))
    (hi : m a' i = some (o, a'')) : m.run a (is ++ [i]) = some (os ++ [o], a'') := by
  rw [run_append h, run_cons hi]
  rfl

theorem run_prefix {a a' a'' : A} {is js : List I} {os ps : List O} (h : m.run a is = some (os, a'))
    (h' : m.run a (is ++ js) = some (ps, a'')) : os <+: ps := by
  rw [run_append h] at h'
  obtain ⟨⟨qs, _⟩, -, he⟩ := Option.map_eq_some_iff.mp h'
  cases he
  exact List.prefix_append _ _

theorem run_length {a a' : A} {is : List I} {os : List O} (h : m.run a is = some (os, a')) :
    os.length = is.length := by
  induction is generalizing a os with
  | nil =>
    cases h
    rfl
  | cons i is ih =>
    unfold run at h
    split at h
    case h_1 => cases h
    case h_2 o b hi =>
      obtain ⟨⟨ps, c⟩, hr, he⟩ := Option.map_eq_some_iff.mp h
      cases he
      simp [ih hr]

/-- The machine with its inputs and answers read through two maps. -/
def through {J P : Type*} (m : Machine A I O) (f : J → I) (g : J → O → P) : Machine A J P :=
  fun a j ↦ (m a (f j)).map (fun r ↦ (g j r.1, r.2))

theorem run_through {J P : Type*} {f : J → I} {g : J → O → P} (a : A) (js : List J) :
    (m.through f g).run a js = (m.run a (js.map f)).map (fun r ↦ (List.zipWith g js r.1, r.2)) := by
  induction js generalizing a with
  | nil => rfl
  | cons j js ih =>
    cases h : m a (f j) with
    | none => simp only [run, through, List.map_cons, h, Option.map_none]
    | some r =>
      have ht : m.through f g a j = some (g j r.1, r.2) := by simp only [through, h, Option.map_some]
      rw [run_cons ht, ih, List.map_cons, run_cons h, Option.map_map, Option.map_map]
      rfl

theorem refines {S L : Type*} {step : S → L → S → Prop} {R : S → A → Prop} {input : L → I} {output : L → O}
    (hstep : ∀ s l s' a, R s a → step s l s' → ∃ a', m a (input l) = some (output l, a') ∧ R s' a')
    {s s' : S} {a : A} {ls : List L} (h : Run step s ls s') (hR : R s a) :
    ∃ a', m.run a (ls.map input) = some (ls.map output, a') ∧ R s' a' := by
  induction h generalizing a with
  | nil => exact ⟨a, rfl, hR⟩
  | cons hs _ ih =>
    obtain ⟨b, hb, hR'⟩ := hstep _ _ _ _ hR hs
    obtain ⟨a', ha, hend⟩ := ih hR'
    refine ⟨a', ?_, hend⟩
    rw [List.map_cons, run_cons hb, ha]
    rfl

theorem realized {S L J : Type*} {step : S → L → S → Prop} {R : S → A → Prop} {read : J → I} {call : L → J}
    {output : L → O} {P : J → Prop}
    (hstep : ∀ s a j o a', R s a → P j → m a (read j) = some (o, a') →
      ∃ l s', step s l s' ∧ call l = j ∧ output l = o ∧ R s' a')
    {js : List J} (hP : ∀ j ∈ js, P j) {s : S} {a a' : A} {os : List O} (hR : R s a)
    (h : m.run a (js.map read) = some (os, a')) :
    ∃ ls s', Run step s ls s' ∧ ls.map call = js ∧ ls.map output = os ∧ R s' a' := by
  induction js generalizing s a os with
  | nil =>
    cases h
    exact ⟨[], s, .nil s, rfl, rfl, hR⟩
  | cons j js ih =>
    rw [List.forall_mem_cons] at hP
    rw [List.map_cons] at h
    unfold run at h
    split at h
    case h_1 => cases h
    case h_2 o b hj =>
      obtain ⟨⟨ps, c⟩, hr, he⟩ := Option.map_eq_some_iff.mp h
      cases he
      obtain ⟨l, t, hl, rfl, rfl, hR'⟩ := hstep s a j o b hR hP.1 hj
      obtain ⟨ls, s', hrun, rfl, rfl, hend⟩ := ih hP.2 hR' hr
      exact ⟨l :: ls, s', .cons hl hrun, rfl, rfl, hend⟩

theorem answered_of_run {a a' : A} {is : List I} {os : List O} (h : m.run a is = some (os, a')) :
    ∀ i ∈ is, ∃ b r, m b i = some r := by
  induction is generalizing a os with
  | nil => exact fun i hi ↦ absurd hi List.not_mem_nil
  | cons i is ih =>
    unfold run at h
    split at h
    case h_1 => cases h
    case h_2 o b hi =>
      obtain ⟨⟨ps, c⟩, hr, he⟩ := Option.map_eq_some_iff.mp h
      cases he
      exact List.forall_mem_cons.mpr ⟨⟨a, _, hi⟩, ih hr⟩

/-- Two machines that answer alike and stop at the same inputs, from states that stay related, run alike. -/
theorem run_alike {B : Type*} {m' : Machine B I O} {R : A → B → Prop} {P : I → Prop}
    (hstep : ∀ a b i, R a b → P i → Option.Rel (fun r r' ↦ r.1 = r'.1 ∧ R r.2 r'.2) (m a i) (m' b i))
    {is : List I} (hP : ∀ i ∈ is, P i) {a : A} {b : B} (hR : R a b) {os : List O} :
    (∃ a', m.run a is = some (os, a')) ↔ ∃ b', m'.run b is = some (os, b') := by
  induction is generalizing a b os with
  | nil =>
    constructor
    · rintro ⟨_, h⟩
      cases h
      exact ⟨b, rfl⟩
    · rintro ⟨_, h⟩
      cases h
      exact ⟨a, rfl⟩
  | cons i is ih =>
    rw [List.forall_mem_cons] at hP
    have h := hstep a b i hR hP.1
    generalize hx : m a i = x at h
    generalize hy : m' b i = y at h
    cases h with
    | none => simp only [run, hx, hy, reduceCtorEq, exists_false]
    | @some r r' h =>
      obtain ⟨o, a'⟩ := r
      obtain ⟨o', b'⟩ := r'
      obtain ⟨rfl, hR'⟩ : o = o' ∧ R a' b' := h
      rw [run_cons hx, run_cons hy]
      constructor
      · rintro ⟨_, hc⟩
        obtain ⟨⟨ps, _⟩, hr, he⟩ := Option.map_eq_some_iff.mp hc
        cases he
        obtain ⟨c, hc⟩ := (ih hP.2 hR').mp ⟨_, hr⟩
        exact ⟨c, by rw [hc]; rfl⟩
      · rintro ⟨_, hc⟩
        obtain ⟨⟨ps, _⟩, hr, he⟩ := Option.map_eq_some_iff.mp hc
        cases he
        obtain ⟨c, hc⟩ := (ih hP.2 hR').mpr ⟨_, hr⟩
        exact ⟨c, by rw [hc]; rfl⟩

end Machine

/-- What a concurrent system shows of an operation: that it was asked for, that it took effect, and what it
came to. -/
inductive Sign (K I O : Type*)
  | ask (k : K)
  | commit (k : K) (i : I)
  | reply (k : K) (o : O)

/-- How far an operation is. Once it has taken effect its answer is fixed. -/
inductive Phase (O : Type*)
  | fresh
  | asked
  | owed (o : O)
  | answered

/-- The machine as an object many use at once: every operation takes effect in one step, somewhere between the
step that asks for it and the one that answers it. -/
structure Atomic (A K O : Type*) where
  state : A
  phase : K → Phase O

namespace Atomic

variable {A K I O : Type*} [DecidableEq K]

def start (a : A) : Atomic A K O := ⟨a, fun _ ↦ .fresh⟩

def goes (c : Atomic A K O) (k : K) (p : Phase O) : Atomic A K O := { c with phase := Function.update c.phase k p }

@[simp] theorem goes_state (c : Atomic A K O) (k : K) (p : Phase O) : (c.goes k p).state = c.state := rfl

@[simp] theorem goes_self (c : Atomic A K O) (k : K) (p : Phase O) : (c.goes k p).phase k = p :=
  Function.update_self _ _ _

theorem goes_ne {c : Atomic A K O} {k k' : K} {p : Phase O} (h : k' ≠ k) : (c.goes k p).phase k' = c.phase k' :=
  Function.update_of_ne h _ _

inductive Step (m : Machine A I O) : Atomic A K O → Sign K I O → Atomic A K O → Prop
  | ask (c : Atomic A K O) (k : K) (h : c.phase k = .fresh) : Step m c (.ask k) (c.goes k .asked)
  | commit (c : Atomic A K O) (k : K) (i : I) (o : O) (a : A) (h : c.phase k = .asked)
      (ha : m c.state i = some (o, a)) : Step m c (.commit k i) ({ c with state := a }.goes k (.owed o))
  | reply (c : Atomic A K O) (k : K) (o : O) (h : c.phase k = .owed o) : Step m c (.reply k o) (c.goes k .answered)

end Atomic

section Linearized

variable {A K I O : Type*}

def Sign.committed : Sign K I O → Option (K × I)
  | .commit k i => some (k, i)
  | .ask _ | .reply _ _ => none

def Sign.replied : Sign K I O → Option (K × O)
  | .reply k o => some (k, o)
  | .ask _ | .commit _ _ => none

def commits (signs : List (Sign K I O)) : List (K × I) := signs.filterMap Sign.committed

def replies (signs : List (Sign K I O)) : List (K × O) := signs.filterMap Sign.replied

theorem commits_append (xs ys : List (Sign K I O)) : commits (xs ++ ys) = commits xs ++ commits ys :=
  List.filterMap_append

theorem replies_append (xs ys : List (Sign K I O)) : replies (xs ++ ys) = replies xs ++ replies ys :=
  List.filterMap_append

/-- The operations of a concurrent history are those of a run of the machine, one at a time: in the order in
which they took effect, each once, after it was asked for and before it was answered, with the machine's answer. -/
structure Linearized (m : Machine A I O) (a : A) (signs : List (Sign K I O)) (os : List O) (a' : A) : Prop where
  legal : m.run a ((commits signs).map Prod.snd) = some (os, a')
  once : ((commits signs).map Prod.fst).Nodup
  answered : ((replies signs).map Prod.fst).Nodup
  after_ask : ∀ pre k post, signs = pre ++ .ask k :: post → k ∉ (commits pre).map Prod.fst
  asked : ∀ pre k i post, signs = pre ++ .commit k i :: post → .ask k ∈ pre
  reply : ∀ pre k o post, signs = pre ++ .reply k o :: post →
    ∃ (n : ℕ) (i : I), (commits pre)[n]? = some (k, i) ∧ os[n]? = some o

end Linearized

namespace Atomic

variable {A K I O : Type*} {m : Machine A I O} {a : A} {c c' : Atomic A K O} {signs : List (Sign K I O)}

/-- What the history holds of an operation in a given phase. -/
def Recorded (signs : List (Sign K I O)) (os : List O) (k : K) : Phase O → Prop
  | .fresh => .ask k ∉ signs ∧ k ∉ (commits signs).map Prod.fst ∧ k ∉ (replies signs).map Prod.fst
  | .asked => .ask k ∈ signs ∧ k ∉ (commits signs).map Prod.fst ∧ k ∉ (replies signs).map Prod.fst
  | .owed o => (∃ (n : ℕ) (i : I), (commits signs)[n]? = some (k, i) ∧ os[n]? = some o) ∧
      k ∉ (replies signs).map Prod.fst
  | .answered => True

/-- The history so far, with the machine's answers so far. -/
structure Kept (m : Machine A I O) (a : A) (signs : List (Sign K I O)) (c : Atomic A K O) (os : List O) : Prop where
  legal : m.run a ((commits signs).map Prod.snd) = some (os, c.state)
  once : ((commits signs).map Prod.fst).Nodup
  answered : ((replies signs).map Prod.fst).Nodup
  recorded : ∀ k, Recorded signs os k (c.phase k)

theorem Kept.length (h : Kept m a signs c os) : os.length = (commits signs).length := by
  simpa using Machine.run_length h.legal

theorem Recorded.snoc {os ps : List O} {k : K} {p : Phase O} {sign : Sign K I O} (h : Recorded signs os k p)
    (ho : os <+: ps) (hask : sign ≠ .ask k) (hcommit : ∀ i, sign.committed ≠ some (k, i))
    (hreply : ∀ o, sign.replied ≠ some (k, o)) : Recorded (signs ++ [sign]) ps k p := by
  have hask' : Sign.ask k ∈ signs ++ [sign] ↔ .ask k ∈ signs := by simp [hask.symm]
  have hc : k ∈ (commits (signs ++ [sign])).map Prod.fst ↔ k ∈ (commits signs).map Prod.fst := by
    rw [commits_append, List.map_append, List.mem_append, or_iff_left]
    simpa [commits] using hcommit
  have hr : k ∈ (replies (signs ++ [sign])).map Prod.fst ↔ k ∈ (replies signs).map Prod.fst := by
    rw [replies_append, List.map_append, List.mem_append, or_iff_left]
    simpa [replies] using hreply
  cases p with
  | fresh => exact ⟨by rw [hask']; exact h.1, by rw [hc]; exact h.2.1, by rw [hr]; exact h.2.2⟩
  | asked => exact ⟨by rw [hask']; exact h.1, by rw [hc]; exact h.2.1, by rw [hr]; exact h.2.2⟩
  | owed o =>
    obtain ⟨⟨n, i, hn, ho'⟩, hnr⟩ := h
    refine ⟨⟨n, i, ?_, ?_⟩, by rw [hr]; exact hnr⟩
    · rw [commits_append]
      exact List.getElem?_append_left (List.getElem?_eq_some_iff.mp hn).1 ▸ hn
    · obtain ⟨t, rfl⟩ := ho
      rw [List.getElem?_append_left (List.getElem?_eq_some_iff.mp ho').1]
      exact ho'
  | answered => trivial

variable [DecidableEq K]

theorem Kept.step {os : List O} {sign : Sign K I O} (h : Kept m a signs c os) (hs : Step m c sign c') :
    ∃ ps, Kept m a (signs ++ [sign]) c' ps ∧ os <+: ps := by
  cases hs with
  | ask k hk =>
    have hrec := h.recorded k
    rw [hk] at hrec
    have hc : commits (signs ++ [.ask k]) = commits signs := by simp [commits, Sign.committed]
    have hr : replies (signs ++ [.ask k]) = replies signs := by simp [replies, Sign.replied]
    refine ⟨os, ⟨by rw [hc]; exact h.legal, by rw [hc]; exact h.once, by rw [hr]; exact h.answered, fun k' ↦ ?_⟩,
      List.prefix_rfl⟩
    by_cases hkk : k' = k
    · subst hkk
      rw [goes_self]
      exact ⟨by simp, by rw [hc]; exact hrec.2.1, by rw [hr]; exact hrec.2.2⟩
    · rw [goes_ne hkk]
      exact (h.recorded k').snoc List.prefix_rfl (by simp [Ne.symm hkk]) (by simp [Sign.committed])
        (by simp [Sign.replied])
  | commit k i o b hk hb =>
    have hrec := h.recorded k
    rw [hk] at hrec
    have hc : commits (signs ++ [.commit k i]) = commits signs ++ [(k, i)] := by simp [commits, Sign.committed]
    have hr : replies (signs ++ [.commit k i]) = replies signs := by simp [replies, Sign.replied]
    refine ⟨os ++ [o], ⟨?_, ?_, by rw [hr]; exact h.answered, fun k' ↦ ?_⟩, List.prefix_append _ _⟩
    · rw [hc, List.map_append]
      exact Machine.run_concat h.legal hb
    · simpa [hc] using h.once.concat hrec.2.1
    · by_cases hkk : k' = k
      · subst hkk
        rw [goes_self]
        refine ⟨⟨os.length, i, ?_, by simp⟩, by rw [hr]; exact hrec.2.2⟩
        rw [hc, h.length]
        simp
      · rw [goes_ne hkk]
        exact (h.recorded k').snoc (List.prefix_append _ _) (by simp)
          (by simp [Sign.committed, Ne.symm hkk]) (by simp [Sign.replied])
  | reply k o hk =>
    have hrec := h.recorded k
    rw [hk] at hrec
    have hc : commits (signs ++ [.reply k o]) = commits signs := by simp [commits, Sign.committed]
    have hr : replies (signs ++ [.reply k o]) = replies signs ++ [(k, o)] := by simp [replies, Sign.replied]
    refine ⟨os, ⟨by rw [hc]; exact h.legal, by rw [hc]; exact h.once, ?_, fun k' ↦ ?_⟩, List.prefix_rfl⟩
    · simpa [hr] using h.answered.concat hrec.2
    · by_cases hkk : k' = k
      · subst hkk
        rw [goes_self]
        trivial
      · rw [goes_ne hkk]
        exact (h.recorded k').snoc List.prefix_rfl (by simp) (by simp [Sign.committed])
          (by simp [Sign.replied, Ne.symm hkk])

theorem kept_run (h : Run (Step m) (start a) signs c) : ∃ os, Kept m a signs c os :=
  h.history (I := fun signs c ↦ ∃ os, Kept m a signs c os)
    (fun _ _ _ _ ⟨_, hk⟩ hs ↦ let ⟨ps, hp, _⟩ := hk.step hs; ⟨ps, hp⟩)
    ⟨[], rfl, .nil, .nil, fun _ ↦ by simp [start, Recorded, commits, replies]⟩

theorem linearized (h : Run (Step m) (start a) signs c) : ∃ os, Linearized m a signs os c.state := by
  obtain ⟨os, hk⟩ := kept_run h
  refine ⟨os, hk.legal, hk.once, hk.answered, ?_, ?_, ?_⟩
  · rintro pre k post rfl
    obtain ⟨b, b', hpre, hs, -⟩ := h.at_label
    obtain ⟨ps, hp⟩ := kept_run hpre
    have hrec := hp.recorded k
    cases hs with
    | ask _ hk =>
      rw [hk] at hrec
      exact hrec.2.1
  · rintro pre k i post rfl
    obtain ⟨b, b', hpre, hs, -⟩ := h.at_label
    obtain ⟨ps, hp⟩ := kept_run hpre
    have hrec := hp.recorded k
    cases hs with
    | commit _ _ o s hk ha =>
      rw [hk] at hrec
      exact hrec.1
  · rintro pre k o post rfl
    obtain ⟨b, b', hpre, hs, -⟩ := h.at_label
    obtain ⟨ps, hp⟩ := kept_run hpre
    have hrec := hp.recorded k
    cases hs with
    | reply _ _ hko =>
      rw [hko] at hrec
      obtain ⟨⟨n, i, hn, ho⟩, -⟩ := hrec
      have hpos : ps <+: os := by
        have hl := hk.legal
        rw [commits_append, List.map_append] at hl
        exact Machine.run_prefix hp.legal hl
      obtain ⟨t, rfl⟩ := hpos
      exact ⟨n, i, hn, by rw [List.getElem?_append_left (List.getElem?_eq_some_iff.mp ho).1, ho]⟩

end Atomic

end Nat64Alg.Lib
