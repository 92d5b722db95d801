import Mathlib.Data.List.Forall2

namespace Nat64Alg.Lib

/-- Runs of a labelled transition relation, with their labels in order. -/
inductive Run {S L : Type*} (step : S → L → S → Prop) : S → List L → S → Prop
  | nil (s : S) : Run step s [] s
  | cons {s s' s'' : S} {l : L} {ls : List L} :
      step s l s' → Run step s' ls s'' → Run step s (l :: ls) s''

namespace Run

variable {S L : Type*} {step : S → L → S → Prop}

theorem one {s s' : S} {l : L} (h : step s l s') : Run step s [l] s' := .cons h (.nil s')

theorem append {s s' s'' : S} {ls ms : List L} (h : Run step s ls s') (h' : Run step s' ms s'') :
    Run step s (ls ++ ms) s'' := by
  induction h with
  | nil => exact h'
  | cons hs _ ih => exact .cons hs (ih h')

theorem mono {step' : S → L → S → Prop} (hstep : ∀ {s l s'}, step s l s' → step' s l s') {s s' : S} {ls : List L}
    (h : Run step s ls s') : Run step' s ls s' := by
  induction h with
  | nil => exact .nil _
  | cons hs _ ih => exact .cons (hstep hs) ih

theorem split {s s'' : S} {ls ms : List L} (h : Run step s (ls ++ ms) s'') :
    ∃ s', Run step s ls s' ∧ Run step s' ms s'' := by
  induction ls generalizing s with
  | nil => exact ⟨s, .nil s, h⟩
  | cons l ls ih =>
    cases h with
    | cons hs h =>
      obtain ⟨s', hl, hm⟩ := ih h
      exact ⟨s', .cons hs hl, hm⟩

theorem at_label {s s'' : S} {ls ms : List L} {l : L} (h : Run step s (ls ++ l :: ms) s'') :
    ∃ t t', Run step s ls t ∧ step t l t' ∧ Run step t' ms s'' := by
  obtain ⟨t, hl, hm⟩ := h.split
  cases hm with
  | cons hs hm => exact ⟨t, _, hl, hs, hm⟩

theorem invariant {I : S → Prop} (hstep : ∀ s l s', I s → step s l s' → I s')
    {s s' : S} {ls : List L} (h : Run step s ls s') (hs : I s) : I s' := by
  induction h with
  | nil => exact hs
  | cons hl _ ih => exact ih (hstep _ _ _ hs hl)

theorem restrict {P : L → Prop} {s s' : S} {ls : List L} (h : Run step s ls s') (hP : ∀ l ∈ ls, P l) :
    Run (fun s l s' ↦ step s l s' ∧ P l) s ls s' := by
  induction h with
  | nil => exact .nil _
  | cons hs _ ih =>
    rw [List.forall_mem_cons] at hP
    exact .cons ⟨hs, hP.1⟩ (ih hP.2)

theorem backwards {I J : S → Prop} (hstep : ∀ s l s', J s → step s l s' → J s' ∧ (I s' → I s))
    {s s' : S} {ls : List L} (h : Run step s ls s') (hs : J s) (hend : I s') :
    Run (fun s l s' ↦ step s l s' ∧ I s') s ls s' ∧ I s := by
  induction h with
  | nil => exact ⟨.nil _, hend⟩
  | cons hl _ ih =>
    obtain ⟨hJ, hI⟩ := hstep _ _ _ hs hl
    obtain ⟨hrun, hmid⟩ := ih hJ hend
    exact ⟨.cons ⟨hl, hmid⟩ hrun, hI hmid⟩

theorem history {I : List L → S → Prop}
    (hstep : ∀ ls s l s', I ls s → step s l s' → I (ls ++ [l]) s')
    {s s' : S} {ls : List L} (h : Run step s ls s') (hs : I [] s) : I ls s' := by
  suffices hgen : ∀ ms, I ms s → I (ms ++ ls) s' by simpa using hgen [] hs
  clear hs
  induction h with
  | nil => intro ms hm; simpa using hm
  | @cons s s' s'' l ls hl _ ih =>
    intro ms hm
    simpa using ih (ms ++ [l]) (hstep _ _ _ _ hm hl)

/-- Hiding part of a run. Visible steps keep the two states related when they
start from the same input, hidden ones leave the relation alone; then the
visible outputs are those of the run in which nothing was hidden. -/
theorem purge {O : Type*} {R : S → S → Prop} {visible : L → Bool} {hidden : L → Prop}
    {same : L → L → Prop} {out : L → O}
    (hvisible : ∀ s t l m s' t', R s t → visible l = true → same l m → step s l s' → step t m t' →
      R s' t' ∧ out l = out m)
    (hhidden : ∀ s t l s', R s t → hidden l → step s l s' → R s' t)
    {s s' t t' : S} {ls ms : List L} (h : Run step s ls s') (h' : Run step t ms t') (hR : R s t)
    (hquiet : ∀ l ∈ ls, visible l = false → hidden l)
    (hsame : List.Forall₂ same (ls.filter visible) ms) :
    R s' t' ∧ (ls.filter visible).map out = ms.map out := by
  induction h generalizing t ms with
  | nil =>
    simp only [List.filter_nil, List.forall₂_nil_left_iff] at hsame
    subst hsame
    cases h'
    exact ⟨hR, rfl⟩
  | @cons s u s' l ls hl _ ih =>
    have hrest : ∀ k ∈ ls, visible k = false → hidden k := fun k hk ↦ hquiet k (List.mem_cons_of_mem _ hk)
    cases hv : visible l
    · rw [List.filter_cons_of_neg (by simp [hv])] at hsame ⊢
      exact ih h' (hhidden _ _ _ _ hR (hquiet l List.mem_cons_self hv) hl) hrest hsame
    · rw [List.filter_cons_of_pos hv] at hsame ⊢
      obtain ⟨m, ms', hlm, hls, rfl⟩ := List.forall₂_cons_left_iff.mp hsame
      cases h' with
      | cons hm h' =>
        obtain ⟨hR', ho⟩ := hvisible _ _ _ _ _ _ hR hv hlm hl hm
        obtain ⟨hend, hos⟩ := ih h' hR' hrest hls
        exact ⟨hend, by simp only [List.map_cons, ho, hos]⟩

end Run

end Nat64Alg.Lib
