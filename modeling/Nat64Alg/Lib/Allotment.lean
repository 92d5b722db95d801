import Nat64Alg.Lib.Machine
import Mathlib.Data.Finset.Card

namespace Nat64Alg.Lib.Allotment

variable {K C : Type*} [DecidableEq C] (cls : K → C)

def place (held : List K) (k : K) : Option ℕ := held.findIdx? (fun h ↦ cls h = cls k)

/-- A key of a class seen before has the place of that class; a new class takes the next place, if there is one. -/
def allot (room : ℕ) : Machine (List K) K ℕ := fun held k ↦
  match place cls held k with
  | some n => some (n, held)
  | none => if held.length < room then some (held.length, held ++ [k]) else none

def record (held : List K) (k : K) : List K :=
  match place cls held k with
  | some _ => held
  | none => held ++ [k]

def firsts (held ks : List K) : List K := ks.foldl (record cls) held

variable {cls}

theorem place_eq_none {held : List K} {k : K} : place cls held k = none ↔ cls k ∉ held.map cls := by
  unfold place
  rw [List.findIdx?_eq_none_iff]
  simp

theorem place_eq_some {held : List K} {k : K} {n : ℕ} (h : (held.map cls).Nodup) :
    place cls held k = some n ↔ ∃ h, held[n]? = some h ∧ cls h = cls k := by
  unfold place
  constructor
  · intro hn
    obtain ⟨hlt, hcls, -⟩ := List.findIdx?_eq_some_iff_getElem.mp hn
    exact ⟨held[n], List.getElem?_eq_getElem hlt, by simpa using hcls⟩
  · rintro ⟨x, hx, hcls⟩
    obtain ⟨hlt, rfl⟩ := List.getElem?_eq_some_iff.mp hx
    refine List.findIdx?_eq_some_iff_getElem.mpr ⟨hlt, by simpa using hcls, fun j hj hc ↦ ?_⟩
    have hc : cls held[j] = cls k := by simpa using hc
    have hj' : j < (held.map cls).length := by simp; omega
    have hn' : n < (held.map cls).length := by simpa using hlt
    have he : (held.map cls)[j] = (held.map cls)[n] := by simpa using hc.trans hcls.symm
    have := h.getElem_inj_iff.mp he
    omega

theorem place_congr (held : List K) {k k' : K} (h : cls k = cls k') : place cls held k = place cls held k' := by
  unfold place
  rw [h]

theorem place_append {held : List K} {k : K} {n : ℕ} (h : place cls held k = some n) (t : List K) :
    place cls (held ++ t) k = some n := by
  unfold place at h ⊢
  rw [List.findIdx?_append, h]
  rfl

theorem place_new {held : List K} {k : K} (h : place cls held k = none) :
    place cls (held ++ [k]) k = some held.length := by
  unfold place at h ⊢
  rw [List.findIdx?_append, h]
  simp

theorem record_old {held : List K} {k : K} {n : ℕ} (h : place cls held k = some n) : record cls held k = held := by
  simp only [record, h]

theorem record_new {held : List K} {k : K} (h : place cls held k = none) : record cls held k = held ++ [k] := by
  simp only [record, h]

theorem nodup_record {held : List K} (k : K) (h : (held.map cls).Nodup) : ((record cls held k).map cls).Nodup := by
  cases hk : place cls held k with
  | some n => rwa [record_old hk]
  | none =>
    rw [record_new hk]
    simpa using h.concat (place_eq_none.mp hk)

theorem mem_record {held : List K} {k : K} {c : C} :
    c ∈ (record cls held k).map cls ↔ c ∈ held.map cls ∨ c = cls k := by
  cases hk : place cls held k with
  | some n =>
    rw [record_old hk]
    refine ⟨.inl, fun h ↦ h.elim id ?_⟩
    rintro rfl
    by_contra hn
    rw [place_eq_none.mpr hn] at hk
    cases hk
  | none =>
    rw [record_new hk]
    simp

theorem prefix_record (held : List K) (k : K) : held <+: record cls held k := by
  unfold record
  split
  · exact List.prefix_rfl
  · exact List.prefix_append _ _

theorem prefix_firsts (held ks : List K) : held <+: firsts cls held ks := by
  induction ks generalizing held with
  | nil => exact List.prefix_rfl
  | cons k ks ih => exact (prefix_record held k).trans (ih (record cls held k))

theorem nodup_firsts {held : List K} (ks : List K) (h : (held.map cls).Nodup) :
    ((firsts cls held ks).map cls).Nodup := by
  induction ks generalizing held with
  | nil => exact h
  | cons k ks ih => exact ih (nodup_record k h)

theorem mem_firsts {held ks : List K} {c : C} :
    c ∈ (firsts cls held ks).map cls ↔ c ∈ held.map cls ∨ c ∈ ks.map cls := by
  induction ks generalizing held with
  | nil => simp [firsts]
  | cons k ks ih =>
    rw [show firsts cls held (k :: ks) = firsts cls (record cls held k) ks from rfl, ih, mem_record, List.map_cons,
      List.mem_cons, or_assoc]

theorem length_firsts (ks : List K) : (firsts cls [] ks).length = (ks.map cls).toFinset.card := by
  have hn : ((firsts cls [] ks).map cls).Nodup := nodup_firsts ks List.nodup_nil
  rw [← List.length_map cls, ← List.toFinset_card_of_nodup hn]
  congr 1
  ext c
  simp [mem_firsts]

theorem find_firsts (held ks : List K) (c : C) :
    (firsts cls held ks).find? (fun k ↦ cls k = c) = (held ++ ks).find? (fun k ↦ cls k = c) := by
  induction ks generalizing held with
  | nil => rw [List.append_nil]; rfl
  | cons k ks ih =>
    refine (ih (record cls held k)).trans ?_
    cases hk : place cls held k with
    | none => rw [record_new hk, List.append_assoc]; rfl
    | some n =>
      rw [record_old hk, List.find?_append, List.find?_append, List.find?_cons]
      by_cases hc : cls k = c
      · -- the class is held already, so neither search goes past `held`
        obtain ⟨hlt, hcls, -⟩ := List.findIdx?_eq_some_iff_getElem.mp hk
        have hsome : (held.find? (fun k ↦ cls k = c)).isSome := by
          rw [List.find?_isSome]
          exact ⟨held[n], List.getElem_mem hlt, by simpa [hc] using hcls⟩
        obtain ⟨x, hx⟩ := Option.isSome_iff_exists.mp hsome
        rw [hx]
        rfl
      · simp [hc]

theorem find_place {held : List K} {k : K} {n : ℕ} (h : place cls held k = some n) :
    held.find? (fun h ↦ cls h = cls k) = held[n]? := by
  obtain ⟨-, hn⟩ := List.findIdx?_eq_some_iff_findIdx_eq.mp h
  rw [List.find?_eq_getElem?_findIdx, hn]

theorem allot_record {room : ℕ} {held held' : List K} {k : K} {n : ℕ} :
    allot cls room held k = some (n, held') ↔
      held' = record cls held k ∧ place cls held' k = some n ∧ held'.length ≤ max room held.length := by
  unfold allot
  cases hk : place cls held k with
  | some m =>
    rw [record_old hk]
    constructor
    · intro h
      cases h
      exact ⟨rfl, hk, le_max_right _ _⟩
    · rintro ⟨rfl, hm, -⟩
      rw [hk] at hm
      cases hm
      rfl
  | none =>
    rw [record_new hk]
    dsimp only
    constructor
    · intro h
      split at h
      case isTrue hroom =>
        cases h
        exact ⟨rfl, place_new hk, by simp; omega⟩
      case isFalse => cases h
    · rintro ⟨rfl, hm, hroom⟩
      rw [place_new hk] at hm
      cases hm
      rw [List.length_append, List.length_singleton] at hroom
      have : held.length < room := by omega
      simp [this]

end Nat64Alg.Lib.Allotment
