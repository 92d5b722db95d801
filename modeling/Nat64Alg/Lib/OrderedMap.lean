import Mathlib.Order.Defs.Unbundled
import Mathlib.Data.List.Perm.Basic

namespace Nat64Alg.Lib

/-- Two keys an ordered container cannot tell apart: its comparison puts neither first. -/
def equiv {K : Type*} (lt : K → K → Bool) (a b : K) : Bool := !lt a b && !lt b a

/-- The usual comparison of pairs: by first component, then by second. -/
def pairLt {K L : Type*} (lt : K → K → Bool) (lt' : L → L → Bool) (a b : K × L) : Bool :=
  lt a.1 b.1 || (!lt b.1 a.1 && lt' a.2 b.2)

abbrev Order {K : Type*} (lt : K → K → Bool) := IsStrictWeakOrder K (fun a b ↦ lt a b = true)

/-- A search tree seen through its in-order walk. The comparison is the only
notion of equality it has: a key is found at the entry it is equivalent to. -/
structure OrderedMap (K V : Type*) (lt : K → K → Bool) where
  entries : List (K × V)
  sorted : entries.Pairwise (fun x y ↦ lt x.1 y.1 = true)

namespace OrderedMap

section Equiv

variable {K L : Type*} {lt : K → K → Bool} {lt' : L → L → Bool}

theorem equiv_iff {a b : K} : equiv lt a b = true ↔ ¬lt a b = true ∧ ¬lt b a = true := by
  simp [equiv]

theorem equiv_comm (a b : K) : equiv lt a b = equiv lt b a := Bool.and_comm _ _

theorem not_equiv_of_lt {a b : K} (h : lt a b = true) : equiv lt a b = false := by simp [equiv, h]

theorem equiv_pair (a b : K × L) :
    equiv (pairLt lt lt') a b = (equiv lt a.1 b.1 && equiv lt' a.2 b.2) := by
  simp only [equiv, pairLt]
  cases lt a.1 b.1 <;> cases lt b.1 a.1 <;> simp

theorem pairLt_iff {a b : K × L} : pairLt lt lt' a b = true ↔
    lt a.1 b.1 = true ∨ equiv lt a.1 b.1 = true ∧ lt' a.2 b.2 = true := by
  simp only [pairLt, equiv]
  cases lt a.1 b.1 <;> simp

variable [Order lt]

theorem lt_irrefl (a : K) : lt a a = false := by
  simpa using irrefl_of (fun a b ↦ lt a b = true) a

theorem lt_trans {a b c : K} (h : lt a b = true) (h' : lt b c = true) : lt a c = true :=
  trans_of (fun a b ↦ lt a b = true) h h'

theorem equiv_refl (a : K) : equiv lt a a = true := by simp [equiv, lt_irrefl]

theorem equiv_trans {a b c : K} (h : equiv lt a b = true) (h' : equiv lt b c = true) :
    equiv lt a c = true :=
  equiv_iff.mpr (@IsStrictWeakOrder.incomp_trans _ (fun a b ↦ lt a b = true) _ a b c (equiv_iff.mp h) (equiv_iff.mp h'))

theorem lt_of_equiv_lt {a b c : K} (h : equiv lt a b = true) (h' : lt b c = true) : lt a c = true := by
  by_contra hac
  cases hca : lt c a
  · have hb : equiv lt b c = true :=
      equiv_trans (equiv_comm a b ▸ h) (equiv_iff.mpr ⟨hac, by simp [hca]⟩)
    exact absurd hb (by simp [not_equiv_of_lt h'])
  · exact (equiv_iff.mp h).2 (lt_trans h' hca)

theorem lt_of_lt_equiv {a b c : K} (h : lt a b = true) (h' : equiv lt b c = true) : lt a c = true := by
  by_contra hac
  cases hca : lt c a
  · have hb : equiv lt a b = true :=
      equiv_trans (equiv_iff.mpr ⟨hac, by simp [hca]⟩) (equiv_comm b c ▸ h')
    exact absurd hb (by simp [not_equiv_of_lt h])
  · exact (equiv_iff.mp h').2 (lt_trans hca h)

/-- Keys compared through pairs are as well ordered as their components. -/
instance pairLt_order [Order lt'] : Order (pairLt lt lt') where
  irrefl a := by simp [pairLt, lt_irrefl]
  trans a b c h h' := by
    rw [pairLt_iff] at h h' ⊢
    rcases h with h | ⟨h, hs⟩ <;> rcases h' with h' | ⟨h', hs'⟩
    · exact .inl (lt_trans h h')
    · exact .inl (lt_of_lt_equiv h h')
    · exact .inl (lt_of_equiv_lt h h')
    · exact .inr ⟨equiv_trans h h', lt_trans hs hs'⟩
  incomp_trans a b c h h' := by
    rw [← equiv_iff, equiv_pair, Bool.and_eq_true] at h h' ⊢
    exact ⟨equiv_trans h.1 h'.1, equiv_trans h.2 h'.2⟩

omit [Order lt] in
theorem order_of_key (f : K → ℕ) (h : ∀ a b, lt a b = decide (f a < f b)) : Order lt where
  irrefl a := by simp [h]
  trans a b c := by simp only [h, decide_eq_true_eq]; omega
  incomp_trans a b c := by simp only [h, decide_eq_true_eq]; omega

omit [Order lt] in
theorem equiv_of_key (f : K → ℕ) (h : ∀ a b, lt a b = decide (f a < f b)) {a b : K} :
    equiv lt a b = true ↔ f a = f b := by
  simp only [equiv_iff, h, decide_eq_true_eq]
  omega

/-- A comparison orders three keys as a total order would, and tells the first two apart when they differ. -/
structure TotalAt {K : Type*} (lt : K → K → Bool) (a b c : K) : Prop where
  irrefl : lt a a = false
  trans : lt a b = true → lt b c = true → lt a c = true
  separates : equiv lt a b = true ↔ a = b

theorem totalAt_iff {a b c : K} : TotalAt lt a b c ↔ (equiv lt a b = true → a = b) := by
  refine ⟨fun h ↦ h.separates.mp, fun h ↦ ⟨lt_irrefl a, lt_trans, h, ?_⟩⟩
  rintro rfl
  exact equiv_refl a

end Equiv

variable {K V : Type*} {lt : K → K → Bool}

def empty : OrderedMap K V lt := ⟨[], .nil⟩

def find? (m : OrderedMap K V lt) (k : K) : Option V :=
  (m.entries.find? (fun e ↦ equiv lt k e.1)).map Prod.snd

/-- Assignment through a key keeps the key that is already there. -/
def insertEntries (k : K) (v : V) : List (K × V) → List (K × V)
  | [] => [(k, v)]
  | e :: es =>
    if lt k e.1 then (k, v) :: e :: es
    else if lt e.1 k then e :: insertEntries k v es
    else (e.1, v) :: es

theorem lt_insertEntries {k₀ k : K} {v : V} {es : List (K × V)} (h : ∀ e ∈ es, lt k₀ e.1 = true)
    (hk : lt k₀ k = true) : ∀ e ∈ @insertEntries _ _ lt k v es, lt k₀ e.1 = true := by
  induction es with
  | nil => simpa [insertEntries] using hk
  | cons e es ih =>
    simp only [List.mem_cons, forall_eq_or_imp] at h
    simp only [insertEntries]
    split
    · simpa using ⟨hk, h.1, fun a b hab ↦ h.2 (a, b) hab⟩
    · split
      · simpa using ⟨h.1, fun a b hab ↦ ih h.2 (a, b) hab⟩
      · simpa using ⟨h.1, fun a b hab ↦ h.2 (a, b) hab⟩

variable [Order lt]

theorem sorted_insertEntries {k : K} {v : V} {es : List (K × V)}
    (h : es.Pairwise (fun x y ↦ lt x.1 y.1 = true)) :
    (@insertEntries _ _ lt k v es).Pairwise (fun x y ↦ lt x.1 y.1 = true) := by
  induction es with
  | nil => simp [insertEntries]
  | cons e es ih =>
    obtain ⟨he, hes⟩ := List.pairwise_cons.mp h
    simp only [insertEntries]
    split
    case isTrue hk =>
      refine List.pairwise_cons.mpr ⟨?_, h⟩
      intro e' he'
      rcases List.mem_cons.mp he' with rfl | he'
      · exact hk
      · exact lt_trans hk (he e' he')
    case isFalse =>
      split
      case isTrue hk => exact List.pairwise_cons.mpr ⟨lt_insertEntries he hk, ih hes⟩
      case isFalse => exact List.pairwise_cons.mpr ⟨he, hes⟩

def insert (m : OrderedMap K V lt) (k : K) (v : V) : OrderedMap K V lt :=
  ⟨insertEntries k v m.entries, sorted_insertEntries m.sorted⟩

/-- Reading through an absent key stores the default value under it. -/
def index (m : OrderedMap K V lt) (k : K) (d : V) : V × OrderedMap K V lt :=
  match m.find? k with
  | some v => (v, m)
  | none => (d, m.insert k d)

omit [Order lt] in
@[simp] theorem find?_empty (k : K) : (empty : OrderedMap K V lt).find? k = none := rfl

theorem find?_entries_insert {k j : K} {v : V} {es : List (K × V)}
    (h : es.Pairwise (fun x y ↦ lt x.1 y.1 = true)) :
    ((@insertEntries _ _ lt k v es).find? (fun e ↦ equiv lt j e.1)).map Prod.snd =
      if equiv lt j k then some v else (es.find? (fun e ↦ equiv lt j e.1)).map Prod.snd := by
  induction es with
  | nil => cases hj : equiv lt j k <;> simp [insertEntries, hj]
  | cons e es ih =>
    obtain ⟨-, hes⟩ := List.pairwise_cons.mp h
    simp only [insertEntries]
    split
    · cases hj : equiv lt j k <;> simp [List.find?_cons, hj]
    case isFalse hke =>
      split
      case isTrue hek =>
        cases hj : equiv lt j e.1
        · simp only [List.find?_cons, hj, ih hes]
        · have hjk := not_equiv_of_lt (lt_of_equiv_lt hj hek)
          simp [hj, hjk]
      case isFalse hek =>
        have hk : equiv lt k e.1 = true := equiv_iff.mpr ⟨hke, hek⟩
        cases hj : equiv lt j e.1
        · have hjk : equiv lt j k = false := by
            by_contra hjk
            exact absurd (equiv_trans (by simpa using hjk) hk) (by simp [hj])
          simp [hj, hjk]
        · simp [hj, equiv_trans hj (equiv_comm k e.1 ▸ hk)]

/-- The one law of the container: an assignment is seen by exactly the keys
equivalent to the one assigned through. -/
theorem find?_insert (m : OrderedMap K V lt) (k j : K) (v : V) :
    (m.insert k v).find? j = if equiv lt j k then some v else m.find? j :=
  find?_entries_insert m.sorted

theorem find?_congr (m : OrderedMap K V lt) {j k : K} (h : equiv lt j k = true) :
    m.find? j = m.find? k := by
  have he : (fun e : K × V ↦ equiv lt j e.1) = fun e ↦ equiv lt k e.1 := by
    funext e
    refine Bool.eq_iff_iff.mpr ⟨fun hj ↦ ?_, fun hk ↦ equiv_trans h hk⟩
    exact equiv_trans (equiv_comm j k ▸ h) hj
  simp only [find?, he]

omit [Order lt] in
theorem mem_of_find? {m : OrderedMap K V lt} {k : K} {v : V} (h : m.find? k = some v) :
    ∃ k', equiv lt k k' = true ∧ (k', v) ∈ m.entries := by
  obtain ⟨⟨k', v'⟩, he, rfl⟩ := Option.map_eq_some_iff.mp h
  exact ⟨k', by simpa using List.find?_some he, List.mem_of_find?_eq_some he⟩

theorem find?_of_mem {m : OrderedMap K V lt} {k : K} {v : V} (h : (k, v) ∈ m.entries) :
    m.find? k = some v := by
  have hs := m.sorted
  unfold find?
  generalize m.entries = es at h hs ⊢
  induction es with
  | nil => cases h
  | cons e es ih =>
    obtain ⟨he, hes⟩ := List.pairwise_cons.mp hs
    rcases List.mem_cons.mp h with rfl | h
    · simp [equiv_refl]
    · have hk : equiv lt k e.1 = false := by
        rw [equiv_comm]
        exact not_equiv_of_lt (he _ h)
      simpa [List.find?_cons, hk] using ih h hes

omit [Order lt] in
theorem perm_insertEntries {k : K} {v : V} {es : List (K × V)}
    (h : es.find? (fun e ↦ equiv lt k e.1) = none) :
    (@insertEntries _ _ lt k v es).Perm ((k, v) :: es) := by
  induction es with
  | nil => rfl
  | cons e es ih =>
    rw [List.find?_eq_none] at h
    have hk := h e List.mem_cons_self
    simp only [insertEntries]
    split
    · rfl
    case isFalse hke =>
      split
      · have hes := ih (List.find?_eq_none.mpr fun e' he' ↦ h e' (List.mem_cons_of_mem _ he'))
        exact (hes.cons e).trans (List.Perm.swap _ _ _)
      case isFalse hek => exact absurd (equiv_iff.mpr ⟨hke, hek⟩) hk

theorem perm_insert {m : OrderedMap K V lt} {k : K} (v : V) (h : m.find? k = none) :
    (m.insert k v).entries.Perm ((k, v) :: m.entries) :=
  perm_insertEntries (Option.map_eq_none_iff.mp h)

theorem index_fst (m : OrderedMap K V lt) (k : K) (d : V) :
    (m.index k d).1 = (m.find? k).getD d := by
  unfold index
  cases m.find? k <;> rfl

theorem find?_index (m : OrderedMap K V lt) (k j : K) (d : V) :
    ((m.index k d).2.find? j).getD d = (m.find? j).getD d := by
  unfold index
  cases hk : m.find? k with
  | some v => rfl
  | none =>
    rw [find?_insert]
    cases hj : equiv lt j k
    · simp
    · simp [m.find?_congr hj, hk]

end OrderedMap

end Nat64Alg.Lib
