import Nat64Alg.ContentLength
import Nat64Alg.History

namespace Nat64Alg

open Lib StateManager

namespace SIPParser

def Line.connectionOf : Line → Option (TokenType × TokenType)
  | .connection t₄ t₅ => some (t₄, t₅)
  | .header _ _ | .via _ _ | .contact _ _ | .other | .media _ => none

def Line.isMedia : Line → Bool
  | .media _ => true
  | .header _ _ | .via _ _ | .contact _ _ | .other | .connection _ _ => false

/-- The address type and the address of each `c=` line. -/
def connections (ls : List Line) : List (TokenType × TokenType) := ls.filterMap Line.connectionOf

/-- The `c=` lines before the first `m=` line. -/
def level (ls : List Line) : List (TokenType × TokenType) := connections (ls.takeWhile (fun l ↦ !l.isMedia))

/-- The `c=` lines of a stream described in `ls`, with `post` after its `m=` line: those up to the next `m=` line,
or those of the session when there are none. -/
def governing (ls post : List Line) : List (TokenType × TokenType) := if level post = [] then level ls else level post

def Replaced (ops : List Operation) (t : TokenType) (newdata : Text) : Prop := ∃ o ∈ ops, o.On t ∧ o.newdata = newdata

def keys (junk : Junk) : TokenType → List Line → List IP6Port
  | _, [] => []
  | c, l :: ls => (l.key junk c).toList ++ keys junk (l.address c) ls

/-- Both fields of a `c=` line are replaced or none. An `m=` line whose port is replaced asks, behind
the lines before it, for the mapping of its port at the address of a `c=` line that governs it, and
the port and that address are replaced by those of the mapping. -/
structure ConnectionsWhole (ips : List IPv4Addr) (junk : Junk) (ls : List Line) (ops : List Operation) (log : Asked) :
    Prop where
  whole : ∀ c ∈ connections ls, Replaced ops c.1 (text "IP4") ↔ ∃ ip ∈ ips, Replaced ops c.2 ip.getString
  governed : ∀ pre t post, ls = pre ++ .media t :: post → (∃ o ∈ ops, o.On t) →
    ∃ c ∈ governing ls post, ∃ e,
      log[(keys junk ⟨[], 0, 0⟩ pre).length]? = some (.doMapping (junk.ip6Port c.2 t), some e) ∧
      Replaced ops t e.getPortString ∧ Replaced ops c.2 e.getIP.getString

def addressIn (junk : Junk) (t : TokenType) : IPv6Addr := .ofText junk.ip t.s

/-- Every `c=` line gives the same address. -/
def OneAddress (junk : Junk) (ls : List Line) : Prop :=
  ∀ x ∈ connections ls, ∀ y ∈ connections ls, addressIn junk x.2 = addressIn junk y.2

theorem ip6Port_inj {junk : Junk} {a b t : TokenType} (h : junk.ip6Port a t = junk.ip6Port b t) :
    addressIn junk a = addressIn junk b := congrArg IP6Port.ip_ h

theorem ip6Port_congr {junk : Junk} {a b : TokenType} (h : addressIn junk a = addressIn junk b) (t : TokenType) :
    junk.ip6Port a t = junk.ip6Port b t := congrArg (fun ip ↦ IP6Port.ofText ip junk.port t.s) h

/-- Every `c=` mark has an `m` mark next to it. -/
def Followed (l : List Mark) : Prop := ¬[Mark.c, .c] <:+: l ∧ l.getLast? ≠ some .c

section Marks

variable {l : List Mark}

theorem followed_media : Followed (.m :: l) ↔ Followed l := by
  unfold Followed
  rw [List.infix_cons_iff, List.getLast?_cons]
  cases l.getLast? <;> simp

theorem followed_connection : Followed (.c :: l) ↔ l.head? = some .m ∧ Followed l := by
  unfold Followed
  rw [List.infix_cons_iff, List.getLast?_cons]
  cases l with
  | nil => simp
  | cons k l =>
    have h : ∃ x, (k :: l).getLast? = some x := ⟨_, List.getLast?_eq_some_getLast (List.cons_ne_nil k l)⟩
    obtain ⟨x, hx⟩ := h
    rw [hx]
    cases k <;> simp

end Marks

variable {c : TokenType} {l : Line} {ls : List Line} {n b : Int}

theorem connections_none (h : l.connectionOf = none) (ls : List Line) : connections (l :: ls) = connections ls :=
  List.filterMap_cons_none h

theorem connections_some {x : TokenType × TokenType} (h : l.connectionOf = some x) (ls : List Line) :
    connections (l :: ls) = x :: connections ls := List.filterMap_cons_some h

theorem connections_append (ls ls' : List Line) : connections (ls ++ ls') = connections ls ++ connections ls' :=
  List.filterMap_append

theorem connections_tokens {x : TokenType × TokenType} (h : x ∈ connections ls) :
    .connection x.1 x.2 ∈ ls ∧ x.2 ∈ ls.flatMap Line.tokens := by
  obtain ⟨l, hl, hx⟩ := List.mem_filterMap.mp h
  cases l with
  | connection t₄ t₅ =>
    obtain rfl := Option.some.inj hx
    exact ⟨hl, List.mem_flatMap.mpr ⟨_, hl, by simp [Line.tokens]⟩⟩
  | _ => cases hx

theorem touches_mem {x : TokenType × Bool} (h : x ∈ l.touches c) : x.1 ∈ l.tokens ∨ (x.1 = c ∧ c.s ≠ []) := by
  have := @touched_mem c [l] x (by simpa [touched] using h)
  simpa using this

theorem all_touched_iff (h : Apart c ls) :
    (∀ x ∈ connections ls, ∃ y ∈ touched c ls, y.1 = x.2) ↔ Followed (marks ls) := by
  induction ls generalizing c with
  | nil => simp [connections, marks, Followed]
  | cons l ls ih =>
    have ih := ih h.tail
    have hnew := h.new
    rw [List.flatMap_cons] at hnew
    have hdis := List.disjoint_of_nodup_append (List.flatMap_cons ▸ h.nodup)
    have hrest : ∀ x ∈ connections ls, ((∃ y ∈ touched c (l :: ls), y.1 = x.2) ↔
        ∃ y ∈ touched (l.address c) ls, y.1 = x.2) := by
      intro x hx
      have hmem := (connections_tokens hx).2
      constructor
      case mpr =>
        rintro ⟨y, hy, he⟩
        exact ⟨y, List.mem_append_right _ hy, he⟩
      rintro ⟨y, hy, he⟩
      rcases List.mem_append.mp hy with hy | hy
      · exfalso
        rcases touches_mem hy with hy | ⟨hy, hc⟩
        · exact hdis hy (he ▸ hmem)
        · exact hnew hc (List.mem_append_right _ (hy.symm.trans he ▸ hmem))
      · exact ⟨y, hy, he⟩
    have hskip : l.connectionOf = none → ((∀ x ∈ connections (l :: ls), ∃ y ∈ touched c (l :: ls), y.1 = x.2) ↔
        Followed (marks ls)) := by
      intro hl
      rw [connections_none hl, ← ih]
      exact forall₂_congr hrest
    cases l with
    | header => exact hskip rfl
    | via => exact hskip rfl
    | contact => exact hskip rfl
    | other => exact hskip rfl
    | media t₄ =>
      rw [marks_some rfl, followed_media]
      exact hskip rfl
    | connection t₄ t₅ =>
      have hs : t₅.s ≠ [] := h.ne_nil t₅ (by simp [Line.tokens])
      have hne : t₄ ≠ t₅ := by
        have := h.nodup
        rintro rfl
        simp [Line.tokens] at this
      rw [marks_some rfl, followed_connection, connections_some rfl, List.forall_mem_cons, ← ih,
        ← address_touched h.tail hs]
      refine and_congr ?_ (forall₂_congr hrest)
      constructor
      case mpr =>
        rintro ⟨y, hy, he⟩
        exact ⟨y, List.mem_append_right _ hy, he⟩
      rintro ⟨y, hy, he⟩
      rcases List.mem_append.mp hy with hy | hy
      · rw [List.mem_singleton.mp hy] at he
        exact absurd he hne
      · exact ⟨y, hy, he⟩

theorem level_ne_nil : level ls ≠ [] ↔ (marks ls).head? = some .c := by
  induction ls with
  | nil => simp [level, connections, marks]
  | cons l ls ih =>
    have hskip : l.connectionOf = none → l.mark = none → l.isMedia = false →
        (level (l :: ls) ≠ [] ↔ (marks (l :: ls)).head? = some .c) := by
      intro h₁ h₂ h₃
      rw [marks_none h₂, ← ih, level, List.takeWhile_cons_of_pos (by simp [h₃]), connections_none h₁, level]
    cases l with
    | header => exact hskip rfl rfl rfl
    | via => exact hskip rfl rfl rfl
    | contact => exact hskip rfl rfl rfl
    | other => exact hskip rfl rfl rfl
    | connection t₄ t₅ =>
      rw [marks_some rfl, level, List.takeWhile_cons_of_pos (by simp [Line.isMedia]), connections_some rfl]
      simp
    | media t₄ =>
      rw [marks_some rfl, level, List.takeWhile_cons_of_neg (by simp [Line.isMedia])]
      simp [connections]

theorem level_sub : level ls ⊆ connections ls := by
  intro x hx
  exact ((List.takeWhile_sublist _).filterMap Line.connectionOf).subset hx

theorem connections_ne_nil : connections ls ≠ [] ↔ Mark.c ∈ marks ls := by
  induction ls with
  | nil => simp [connections, marks]
  | cons l ls ih =>
    cases l with
    | connection t₄ t₅ =>
      rw [marks_some rfl, connections_some rfl]
      simp
    | media t₄ =>
      rw [marks_some rfl, connections_none rfl, ih]
      simp
    | _ => rw [marks_none rfl, connections_none rfl, ih]

theorem marks_append (ls ls' : List Line) : marks (ls ++ ls') = marks ls ++ marks ls' := List.filterMap_append

theorem exists_last_media (h : (marks ls).getLast? = some .m) :
    ∃ pre t post, ls = pre ++ .media t :: post ∧ marks post = [] := by
  induction ls with
  | nil => cases h
  | cons l ls ih =>
    have hrest : (marks ls).getLast? = some .m → ∃ pre t post, l :: ls = pre ++ .media t :: post ∧ marks post = [] := by
      intro h
      obtain ⟨pre, t, post, rfl, hpost⟩ := ih h
      exact ⟨l :: pre, t, post, rfl, hpost⟩
    cases l with
    | connection t₄ t₅ =>
      rw [marks_some rfl, List.getLast?_cons] at h
      cases hl : (marks ls).getLast? with
      | none =>
        rw [hl] at h
        cases h
      | some k =>
        rw [hl] at h
        exact hrest (hl.trans h)
    | media t₄ =>
      cases hl : (marks ls).getLast? with
      | none => exact ⟨[], t₄, ls, rfl, List.getLast?_eq_none_iff.mp hl⟩
      | some k =>
        rw [marks_some rfl, List.getLast?_cons, hl] at h
        exact hrest (hl.trans h)
    | _ => exact hrest h

def addressOf (ls : List Line) (c : TokenType) : TokenType := ls.foldl Line.address c

theorem edits_append (c : TokenType) (s s' : Served) :
    edits c (s ++ s') = edits c s ++ edits (addressOf (s.map Prod.fst) c) s' := by
  induction s generalizing c with
  | nil => rfl
  | cons x s ih => rw [List.cons_append, edits, ih, edits, List.append_assoc]; rfl

theorem asked_append (junk : Junk) (c : TokenType) (s s' : Served) :
    asked junk c (s ++ s') = asked junk c s ++ asked junk (addressOf (s.map Prod.fst) c) s' := by
  induction s generalizing c with
  | nil => rfl
  | cons x s ih => rw [List.cons_append, asked, ih, asked, List.append_assoc]; rfl

theorem length_asked (junk : Junk) (c : TokenType) (s : Served) :
    (asked junk c s).length = (keys junk c (s.map Prod.fst)).length := by
  induction s generalizing c with
  | nil => rfl
  | cons x s ih =>
    rw [asked, List.map_cons, keys, List.length_append, List.length_append, ih, Line.asked, List.length_map]

theorem touched_append (c : TokenType) (ls ls' : List Line) :
    touched c (ls ++ ls') = touched c ls ++ touched (addressOf ls c) ls' := by
  induction ls generalizing c with
  | nil => rfl
  | cons l ls ih => rw [List.cons_append, touched, ih, touched, List.append_assoc]; rfl

theorem addressOf_eq (ls : List Line) (c : TokenType) :
    addressOf ls c = ((connections ls).getLast?.map Prod.snd).getD c := by
  induction ls generalizing c with
  | nil => rfl
  | cons l ls ih =>
    change addressOf ls (l.address c) = _
    rw [ih]
    cases l with
    | connection t₄ t₅ =>
      rw [connections_some rfl, List.getLast?_cons]
      cases (connections ls).getLast? <;> rfl
    | _ => rw [connections_none rfl]; rfl

theorem addressOf_ne_nil (h : ∀ t ∈ ls.flatMap Line.tokens, t.s ≠ []) :
    (addressOf ls ⟨[], 0, 0⟩).s ≠ [] ↔ connections ls ≠ [] := by
  rw [addressOf_eq]
  cases hl : (connections ls).getLast? with
  | none => simp [List.getLast?_eq_none_iff.mp hl]
  | some x =>
    have hx := List.mem_of_getLast? hl
    exact ⟨fun _ ↦ List.ne_nil_of_mem hx, fun _ ↦ h _ (connections_tokens hx).2⟩

section Governing

variable {junk : Junk}

/-- The address that an `m=` line uses is that of a line which governs it. -/
def Governed (junk : Junk) (ls : List Line) : Prop :=
  ∀ pre t post, ls = pre ++ .media t :: post → connections pre ≠ [] →
    ∃ x ∈ governing ls post, addressIn junk x.2 = addressIn junk (addressOf pre ⟨[], 0, 0⟩)

theorem level_append {post : List Line} (h : marks post = []) (ls : List Line) : level (post ++ ls) = level ls := by
  induction post with
  | nil => rfl
  | cons l post ih =>
    have hnone := List.filterMap_eq_nil_iff.mp h
    have hl : l.connectionOf = none ∧ l.isMedia = false := by
      have := hnone l List.mem_cons_self
      cases l <;> simp_all [Line.mark, Line.connectionOf, Line.isMedia]
    rw [List.cons_append, level, List.takeWhile_cons_of_pos (by simp [hl.2]), connections_none hl.1]
    exact ih (List.filterMap_eq_nil_iff.mpr fun x hx ↦ hnone x (List.mem_cons_of_mem _ hx))

theorem addressOf_mem (h : connections ls ≠ []) : ∃ x ∈ connections ls, x.2 = addressOf ls c := by
  refine ⟨_, List.getLast_mem h, ?_⟩
  rw [addressOf_eq, List.getLast?_eq_some_getLast h]
  rfl

theorem last_mark (h : Followed (marks ls)) (hc : Mark.c ∈ marks ls) : (marks ls).getLast? = some .m := by
  have hne : marks ls ≠ [] := List.ne_nil_of_mem hc
  have hl := List.getLast?_eq_some_getLast hne
  cases hk : (marks ls).getLast hne with
  | c =>
    rw [hk] at hl
    exact absurd hl h.2
  | m => rw [hl, hk]

theorem head_of_governed (h : Followed (marks ls)) (hg : Governed junk ls) (hc : Mark.c ∈ marks ls) :
    (marks ls).head? = some .c := by
  obtain ⟨pre, t, post, hls, hpost⟩ := exists_last_media (last_mark h hc)
  have hpre : connections pre ≠ [] := by
    rw [connections_ne_nil]
    rw [hls, marks_append, marks_some (k := .m) rfl, hpost] at hc
    simpa using hc
  obtain ⟨x, hx, -⟩ := hg pre t post hls hpre
  have hlevel : level post = [] := by
    by_contra hne
    have := level_ne_nil.mp hne
    rw [hpost] at this
    cases this
  rw [governing, if_pos hlevel] at hx
  exact level_ne_nil.mp (List.ne_nil_of_mem hx)

theorem next_address {pre post : List Line} {t₄ t₅ : TokenType} (h : Followed (marks ls)) (hg : Governed junk ls)
    (hls : ls = pre ++ .connection t₄ t₅ :: post) (hpre : connections pre ≠ []) :
    ∃ x ∈ connections pre, addressIn junk x.2 = addressIn junk t₅ := by
  have hmarks : marks ls = marks pre ++ .c :: marks post := by rw [hls, marks_append, marks_some (k := .c) rfl]
  have hpost : level post = [] := by
    by_contra hne
    obtain ⟨l, hl⟩ := List.head?_eq_some_iff.mp (level_ne_nil.mp hne)
    exact h.1 ⟨marks pre, l, by rw [hmarks, hl]; simp⟩
  have hlast : (marks pre).getLast? = some .m := by
    have hne : marks pre ≠ [] := List.ne_nil_of_mem (connections_ne_nil.mp hpre)
    obtain ⟨k, hk⟩ : ∃ k, (marks pre).getLast? = some k := ⟨_, List.getLast?_eq_some_getLast hne⟩
    cases k with
    | m => exact hk
    | c =>
      obtain ⟨l, hl⟩ := List.getLast?_eq_some_iff.mp hk
      exact absurd ⟨l, marks post, by rw [hmarks, hl]; simp⟩ h.1
  obtain ⟨pre', t, post', rfl, hnone⟩ := exists_last_media hlast
  have hconn : connections (pre' ++ .media t :: post') = connections pre' := by
    have hc : connections post' = [] := by
      by_contra hne
      rw [← ne_eq, connections_ne_nil, hnone] at hne
      cases hne
    rw [connections_append, connections_none rfl, hc, List.append_nil]
  rw [hconn] at hpre ⊢
  obtain ⟨x, hx, he⟩ := hg pre' t (post' ++ .connection t₄ t₅ :: post) (by rw [hls]; simp) hpre
  have hlevel : level (post' ++ .connection t₄ t₅ :: post) = [(t₄, t₅)] := by
    rw [level_append hnone, level, List.takeWhile_cons_of_pos (by simp [Line.isMedia]), connections_some rfl]
    exact congrArg _ hpost
  rw [governing, hlevel, if_neg (List.cons_ne_nil _ _), List.mem_singleton] at hx
  obtain ⟨y, hy, hy₂⟩ := addressOf_mem (c := ⟨[], 0, 0⟩) hpre
  refine ⟨y, hy, ?_⟩
  rw [hy₂, ← he, hx]

theorem oneAddress_prefix (h : Followed (marks ls)) (hg : Governed junk ls) (pre : List Line) :
    ∀ post, ls = pre ++ post → OneAddress junk pre := by
  induction pre using List.reverseRecOn with
  | nil =>
    intro post _ x hx
    cases hx
  | append_singleton pre l ih =>
    intro post hls
    rw [List.append_assoc, List.singleton_append] at hls
    have ih := ih _ hls
    have hskip : l.connectionOf = none → OneAddress junk (pre ++ [l]) := by
      intro hl
      unfold OneAddress
      rwa [connections_append, connections_none hl, show connections [] = [] from rfl, List.append_nil]
    cases l with
    | header => exact hskip rfl
    | via => exact hskip rfl
    | contact => exact hskip rfl
    | other => exact hskip rfl
    | media => exact hskip rfl
    | connection t₄ t₅ =>
      have hnew : ∀ x ∈ connections pre, addressIn junk x.2 = addressIn junk t₅ := by
        intro x hx
        obtain ⟨y, hy, he⟩ := next_address h hg hls (List.ne_nil_of_mem hx)
        rw [ih x hx y hy, he]
      intro x hx y hy
      rw [connections_append, connections_some rfl] at hx hy
      rcases List.mem_append.mp hx with hx | hx <;> rcases List.mem_append.mp hy with hy | hy
      · exact ih x hx y hy
      · rw [List.mem_singleton.mp hy, hnew x hx]
      · rw [List.mem_singleton.mp hx, hnew y hy]
      · rw [List.mem_singleton.mp hx, List.mem_singleton.mp hy]

theorem governing_sub {pre post : List Line} {t : TokenType} (hls : ls = pre ++ .media t :: post) :
    governing ls post ⊆ connections ls := by
  unfold governing
  split
  · exact level_sub
  · rw [hls, connections_append, connections_none rfl]
    exact fun x hx ↦ List.mem_append_right _ (level_sub hx)

/-- Where every `c=` line has its `m=` line, the `m=` lines use the lines that govern them when the first of
them all is a `c=` line and the addresses are the same. -/
theorem governed_iff (h : Followed (marks ls)) : Governed junk ls ↔
    Mark.c ∉ marks ls ∨ ((marks ls).head? = some .c ∧ OneAddress junk ls) := by
  constructor
  · intro hg
    rw [or_iff_not_imp_left, not_not]
    intro hc
    exact ⟨head_of_governed h hg hc, oneAddress_prefix h hg ls [] (List.append_nil ls).symm⟩
  · intro hc pre t post hls hpre
    rcases hc with hc | ⟨hc, hone⟩
    · refine absurd ?_ hc
      rw [hls, marks_append]
      exact List.mem_append_left _ (connections_ne_nil.mp hpre)
    · have hne : governing ls post ≠ [] := by
        unfold governing
        split
        · exact level_ne_nil.mpr hc
        · assumption
      obtain ⟨x, hx⟩ := List.exists_mem_of_ne_nil _ hne
      obtain ⟨y, hy, hy₂⟩ := addressOf_mem (c := ⟨[], 0, 0⟩) hpre
      refine ⟨x, hx, ?_⟩
      rw [← hy₂]
      exact hone x (governing_sub hls hx) y (by rw [hls, connections_append]; exact List.mem_append_left _ hy)

end Governing

section Ops

variable {served : Served} {avalue delta : Int} {t : TokenType} {pre post : List Line} {o : Operation}

theorem on_media_iff (h : Laid n b ls) (hs : served.map Prod.fst = ls) (hls : ls = pre ++ .media t :: post) :
    (∃ o ∈ edits ⟨[], 0, 0⟩ served ++ lengthEdit avalue ls delta, o.On t) ↔ connections pre ≠ [] := by
  have hmem : Line.media t ∈ ls := by simp [hls]
  have ht : t ∈ ls.flatMap Line.tokens := List.mem_flatMap.mpr ⟨_, hmem, by simp [Line.tokens]⟩
  have hpre : ∀ x ∈ pre.flatMap Line.tokens, x.s ≠ [] := fun x hx ↦
    h.apart.ne_nil x (by rw [hls, List.flatMap_append]; exact List.mem_append_left _ hx)
  have hnodup := h.apart.nodup
  rw [hls, List.flatMap_append, List.flatMap_cons] at hnodup
  have hleft := List.disjoint_of_nodup_append hnodup
  have hright := List.disjoint_of_nodup_append hnodup.of_append_right
  rw [← addressOf_ne_nil hpre]
  constructor
  · rintro ⟨o, ho, hon⟩
    rcases List.mem_append.mp ho with ho | ho
    · obtain ⟨x, hx, hox, hxt, -⟩ := edits_mem h hs ho
      obtain rfl := h.eq_of_pos hxt ht (hox.1.symm.trans hon.1)
      rw [hls, touched_append, touched] at hx
      rcases List.mem_append.mp hx with hx | hx
      · rcases touched_mem hx with hx | ⟨-, hc⟩
        · exact absurd (by simp [Line.tokens]) (hleft hx)
        · exact absurd rfl hc
      rcases List.mem_append.mp hx with hx | hx
      · simp only [Line.touches] at hx
        split at hx
        case isTrue hc => exact List.length_pos_iff.mp hc
        case isFalse => cases hx
      · rcases touched_mem hx with hx | ⟨-, hc⟩
        · exact absurd hx (hright (by simp [Line.tokens]))
        · exact hc
    · exfalso
      obtain ⟨v, hv, rfl⟩ := lengthEdit_mem ho
      obtain rfl := h.eq_of_pos (contentLengths_tokens hv) ht hon.1
      obtain ⟨l, hl, hvl, -, hhead⟩ := contentLength_line hv
      rw [h.line_eq hl hmem hvl (by simp [Line.tokens])] at hhead
      cases hhead
  · intro hc
    obtain ⟨s, s', rfl, hsp, hs'⟩ := List.map_eq_append_iff.mp (hs.trans hls)
    obtain ⟨⟨l, e⟩, s'', rfl, rfl, hs''⟩ := List.map_eq_cons_iff.mp hs'
    refine ⟨replace t e.getPortString true, List.mem_append_left _ ?_, rfl, rfl⟩
    rw [edits_append, hsp, edits]
    simp [Line.edits, List.length_pos_iff.mpr hc, rewritten]

theorem media_served {junk : Junk} (hs : served.map Prod.fst = pre ++ .media t :: post)
    (hc : (addressOf pre ⟨[], 0, 0⟩).s ≠ []) : ∃ e,
    (asked junk ⟨[], 0, 0⟩ served)[(keys junk ⟨[], 0, 0⟩ pre).length]? =
      some (.doMapping (junk.ip6Port (addressOf pre ⟨[], 0, 0⟩) t), some e) ∧
    replace t e.getPortString true ∈ edits ⟨[], 0, 0⟩ served := by
  obtain ⟨s, s', rfl, hsp, hs'⟩ := List.map_eq_append_iff.mp hs
  obtain ⟨⟨l, e⟩, s'', rfl, rfl, hs''⟩ := List.map_eq_cons_iff.mp hs'
  have hpos := List.length_pos_iff.mpr hc
  refine ⟨e, ?_, ?_⟩
  · have hlen := length_asked junk ⟨[], 0, 0⟩ s
    rw [hsp] at hlen
    rw [asked_append, hsp, asked, ← hlen, List.getElem?_append_right le_rfl, Nat.sub_self]
    simp [Line.asked, Line.key, hpos]
  · rw [edits_append, hsp, edits]
    simp [Line.edits, hpos, rewritten]

theorem connection_served {x : TokenType × TokenType} (hs : served.map Prod.fst = ls) (hx : x ∈ connections ls)
    (c : TokenType) : replace x.1 (text "IP4") true ∈ edits c served := by
  obtain ⟨pre, post, hls⟩ := List.append_of_mem (connections_tokens hx).1
  obtain ⟨s, s', rfl, hsp, hs'⟩ := List.map_eq_append_iff.mp (hs.trans hls)
  obtain ⟨⟨l, e⟩, s'', rfl, rfl, hs''⟩ := List.map_eq_cons_iff.mp hs'
  rw [edits_append, edits]
  simp [Line.edits]

/-- The tokens of a line but for the address of a `c=` line. -/
def Line.others : Line → List TokenType
  | .connection t₄ _ => [t₄]
  | .header _ t₃ => [t₃]
  | .via t₄ t₅ => [t₄, t₅]
  | .contact t₇ t₉ => [t₇, t₉]
  | .other => []
  | .media t₄ => [t₄]

theorem edits_cases {junk : Junk} (c : TokenType) (ho : o ∈ edits c served) :
    (∃ l ∈ served.map Prod.fst, ∃ t ∈ l.others, o.On t) ∨
      ∃ k e, (.doMapping k, some e) ∈ asked junk c served ∧ o.newdata = e.getIP.getString := by
  induction served generalizing c with
  | nil => cases ho
  | cons x served ih =>
    obtain ⟨l, e⟩ := x
    rcases List.mem_append.mp ho with ho | ho
    · have hl : (∃ t ∈ l.others, o.On t) ∨
          ∃ k, (Call.doMapping k, some e) ∈ l.asked junk c e ∧ o.newdata = e.getIP.getString := by
        have htwo : ∀ ip port cnt, o ∈ rewritten ip port e cnt → o.On ip ∨ o.On port := by
          intro ip port cnt ho
          simp only [rewritten, List.mem_cons, List.not_mem_nil, or_false] at ho
          rcases ho with rfl | rfl
          · exact .inl ⟨rfl, rfl⟩
          · exact .inr ⟨rfl, rfl⟩
        cases l with
        | header => cases ho
        | via t₄ t₅ =>
          rcases htwo _ _ _ ho with h | h
          · exact .inl ⟨t₄, by simp [Line.others], h⟩
          · exact .inl ⟨t₅, by simp [Line.others], h⟩
        | contact t₇ t₉ =>
          rcases htwo _ _ _ ho with h | h
          · exact .inl ⟨t₇, by simp [Line.others], h⟩
          · exact .inl ⟨t₉, by simp [Line.others], h⟩
        | other => cases ho
        | connection t₄ t₅ =>
          rw [List.mem_singleton.mp ho]
          exact .inl ⟨t₄, by simp [Line.others], rfl, rfl⟩
        | media t₄ =>
          simp only [Line.edits] at ho
          split at ho
          case isTrue hc =>
            simp only [rewritten, List.mem_cons, List.not_mem_nil, or_false] at ho
            rcases ho with rfl | rfl
            · exact .inr ⟨junk.ip6Port c t₄, by simp [Line.asked, Line.key, hc], rfl⟩
            · exact .inl ⟨t₄, by simp [Line.others], rfl, rfl⟩
          case isFalse => cases ho
      rcases hl with ⟨t, ht, hon⟩ | ⟨k, hk, hnew⟩
      · exact .inl ⟨l, by simp, t, ht, hon⟩
      · exact .inr ⟨k, e, List.mem_append_left _ hk, hnew⟩
    · rcases ih _ ho with ⟨l', hl', h⟩ | ⟨k, e', hk, hnew⟩
      · exact .inl ⟨l', List.mem_cons_of_mem _ hl', h⟩
      · exact .inr ⟨k, e', List.mem_append_right _ hk, hnew⟩

theorem others_sub : l.others ⊆ l.tokens := by cases l <;> simp [Line.others, Line.tokens]

theorem replaced_iff {junk : Junk} {ip : IPv4Addr} (h : Laid n b ls) (hs : served.map Prod.fst = ls)
    (hlog : ∀ k e, (.doMapping k, some e) ∈ asked junk ⟨[], 0, 0⟩ served → e.getIP = ip)
    {x : TokenType × TokenType} (hx : x ∈ connections ls) :
    Replaced (edits ⟨[], 0, 0⟩ served ++ lengthEdit avalue ls delta) x.2 ip.getString ↔
      ∃ y ∈ touched ⟨[], 0, 0⟩ ls, y.1 = x.2 := by
  obtain ⟨hline, hmem⟩ := connections_tokens hx
  have hin : x.2 ∈ (Line.connection x.1 x.2).tokens := by simp [Line.tokens]
  constructor
  · rintro ⟨o, ho, hon, -⟩
    rcases List.mem_append.mp ho with ho | ho
    · obtain ⟨y, hy, hoy, hyt, -⟩ := edits_mem h hs ho
      exact ⟨y, hy, h.eq_of_pos hyt hmem (hoy.1.symm.trans hon.1)⟩
    · exfalso
      obtain ⟨v, hv, rfl⟩ := lengthEdit_mem ho
      obtain rfl := h.eq_of_pos (contentLengths_tokens hv) hmem hon.1
      obtain ⟨l, hl, hvl, -, hhead⟩ := contentLength_line hv
      rw [h.line_eq hl hline hvl hin] at hhead
      cases hhead
  · rintro ⟨y, hy, hyx⟩
    have hplace : placeOf y ∈ (edits ⟨[], 0, 0⟩ served).map place := by
      rw [edits_place, hs]
      exact List.mem_map_of_mem hy
    obtain ⟨o, ho, he⟩ := List.mem_map.mp hplace
    simp only [placeOf, place, Prod.mk.injEq] at he
    have hon : o.On x.2 := ⟨he.1.trans (by rw [hyx]), he.2.1.trans (by rw [hyx])⟩
    refine ⟨o, List.mem_append_left _ ho, hon, ?_⟩
    rcases edits_cases _ ho with ⟨l, hl, t, ht, hot⟩ | ⟨k, e, hk, hnew⟩
    · exfalso
      rw [hs] at hl
      obtain rfl := h.eq_of_pos (List.mem_flatMap.mpr ⟨l, hl, others_sub ht⟩) hmem (hot.1.symm.trans hon.1)
      rw [h.line_eq hl hline (others_sub ht) hin] at ht
      have hnodup := (List.nodup_flatMap.mp h.apart.nodup).1 _ hline
      simp only [Line.others, List.mem_singleton] at ht
      simp [Line.tokens, ← ht] at hnodup
    · rw [hnew, hlog k e hk]

theorem connectionsWhole_iff {junk : Junk} {ip : IPv4Addr} (h : Laid n b ls) (hs : served.map Prod.fst = ls)
    (hlog : ∀ k e, (.doMapping k, some e) ∈ asked junk ⟨[], 0, 0⟩ served → e.getIP = ip) :
    ConnectionsWhole [ip] junk ls (edits ⟨[], 0, 0⟩ served ++ lengthEdit avalue ls delta)
      (asked junk ⟨[], 0, 0⟩ served) ↔ Followed (marks ls) ∧ Governed junk ls := by
  have htype : ∀ x ∈ connections ls,
      Replaced (edits ⟨[], 0, 0⟩ served ++ lengthEdit avalue ls delta) x.1 (text "IP4") := fun x hx ↦
    ⟨_, List.mem_append_left _ (connection_served hs hx _), ⟨rfl, rfl⟩, rfl⟩
  have haddr : ∀ x ∈ connections ls, (∃ i ∈ [ip],
      Replaced (edits ⟨[], 0, 0⟩ served ++ lengthEdit avalue ls delta) x.2 i.getString) ↔
      ∃ y ∈ touched ⟨[], 0, 0⟩ ls, y.1 = x.2 := by
    intro x hx
    rw [← @replaced_iff _ _ _ _ avalue delta _ _ h hs hlog _ hx]
    simp
  have hserved : ∀ pre t post, ls = pre ++ .media t :: post → connections pre ≠ [] → ∃ e,
      (asked junk ⟨[], 0, 0⟩ served)[(keys junk ⟨[], 0, 0⟩ pre).length]? =
        some (.doMapping (junk.ip6Port (addressOf pre ⟨[], 0, 0⟩) t), some e) ∧
      replace t e.getPortString true ∈ edits ⟨[], 0, 0⟩ served := by
    intro pre t post hls hpre
    refine media_served (hs.trans hls) ((addressOf_ne_nil fun y hy ↦ h.apart.ne_nil y ?_).mpr hpre)
    rw [hls, List.flatMap_append]
    exact List.mem_append_left _ hy
  rw [← all_touched_iff h.apart]
  constructor
  · rintro ⟨hwhole, hgov⟩
    refine ⟨fun x hx ↦ (haddr x hx).mp ((hwhole x hx).mp (htype x hx)), fun pre t post hls hpre ↦ ?_⟩
    obtain ⟨x, hx, e, hk, -⟩ := hgov pre t post hls ((on_media_iff h hs hls).mpr hpre)
    obtain ⟨e', hk', -⟩ := hserved pre t post hls hpre
    rw [hk'] at hk
    have hkey := Call.doMapping.inj (congrArg Prod.fst (Option.some.inj hk))
    exact ⟨x, hx, (ip6Port_inj hkey).symm⟩
  · rintro ⟨htouch, hgov⟩
    refine ⟨fun x hx ↦ ⟨fun _ ↦ (haddr x hx).mpr (htouch x hx), fun _ ↦ htype x hx⟩, fun pre t post hls hon ↦ ?_⟩
    have hpre := (on_media_iff h hs hls).mp hon
    obtain ⟨x, hx, he⟩ := hgov pre t post hls hpre
    obtain ⟨e, hk, hport⟩ := hserved pre t post hls hpre
    rw [← ip6Port_congr he] at hk
    refine ⟨x, hx, e, hk, ⟨_, List.mem_append_left _ hport, ⟨rfl, rfl⟩, rfl⟩, ?_⟩
    rw [hlog _ e (List.mem_of_getElem? hk)]
    exact (replaced_iff h hs hlog (governing_sub hls hx)).mpr (htouch x (governing_sub hls hx))

end Ops

section Pool

variable {σ : Type} {pc : ParserClass σ} {sm : StateManager σ} {ip : IPv4Addr}

theorem answer_pool (hc : Coherent [ip] sm) {k : IP6Port} {r : FlowPtr} {e : IP4Port}
    (h : (answer (.doMapping k) (sm, r)).1 = some e) : e.getIP = ip := by
  simp only [answer, StateManager.doMappingCur] at h
  obtain ⟨f, sm', hd⟩ : ∃ f sm', sm.doMapping k sm.ip6srv_cur_ = (some f, sm') := by
    cases hf : (sm.doMapping k sm.ip6srv_cur_).1 with
    | none =>
      rw [hf] at h
      cases h
    | some f => exact ⟨f, _, Prod.ext hf rfl⟩
  rw [hd] at h
  have hc' := hc.doMapping (nodup_pools (List.nodup_singleton ip)) hd
  obtain ⟨a, ha, -⟩ := doMapping_some hc hd
  have he : e = a.2.1 := by
    rw [← Option.some.inj h]
    exact congrArg (fun a : Key64 × Key46 ↦ a.2.1) (flowAt_addr ha)
  have hmem : e ∈ [ip].flatMap poolOf := by
    rw [← hc'.pool.mem_iff, he]
    exact List.mem_append_right _ (List.mem_map_of_mem (List.mem_of_getElem? ha))
  rw [List.flatMap_singleton, mem_poolOf] at hmem
  obtain ⟨p, -, -, rfl⟩ := hmem
  rfl

theorem served_pool (hc : Coherent [ip] sm) {α : Type} {prog : Script α} {x : α} {r : FlowPtr}
    {s : StateManager σ × FlowPtr} {log : Asked} (hrun : prog.run answer (sm, r) = .ok (x, s, log)) (k : IP6Port)
    (e : IP4Port) (hk : (.doMapping k, some e) ∈ log) : e.getIP = ip :=
  Prog.run_answers (I := fun s ↦ Coherent [ip] s.1) (Q := fun c a ↦ ∀ k e, c = .doMapping k → a = some e → e.getIP = ip)
    (fun s c hc ↦ ((Quiet.frame (nodup_pools (List.nodup_singleton ip))).answer c s).still.grown.coherent hc)
    (fun s _ hc k e hk ha ↦ answer_pool (r := s.2) hc (by rw [← ha, hk])) hrun hc _ hk k e rfl rfl

/-- Over every message the grammar takes in a state the program reaches with its one address. -/
theorem connections_whole_iff {prefix_ : IPv6Addr} {extra : EXTRAType} {protocols : OrderedMap String Protocol nameLt}
    {evs : List (Event σ)} (hreach : Run (AppStep pc) (configured prefix_ extra protocols [ip]) evs sm)
    {echoed : UInt8 → ℕ} {nxt : SIPScanner.StartCondition} {t : Text}
    {ms : List (Consumed UInt8 SIPScanner.State SIPScanner.Token)} (hacc : Accepted echoed nxt t ms ls)
    {junk : Junk} {avalue : Int} {c : CommunicatorKind} {p : Parser SIPFields}
    {s : StateManager σ × FlowPtr} {log : Asked}
    (hrun : (parse junk avalue ls (fresh c)).run answer (sm, none) = .ok (p, s, log)) :
    ConnectionsWhole [ip] junk ls p.ops log ↔ Mark.c ∉ marks ls ∨
      ((marks ls).head? = some .c ∧ (marks ls).getLast? = some .m ∧ ¬[Mark.c, .c] <:+: marks ls ∧
        OneAddress junk ls) := by
  have hsound := (Sound.start prefix_ extra protocols [ip]).run (nodup_pools (List.nodup_singleton ip)) hreach
  obtain ⟨served, hs, rfl, hops⟩ := parse_run hrun
  rw [hops, connectionsWhole_iff hacc.placed hs (served_pool hsound.coherent hrun)]
  constructor
  · rintro ⟨hf, hg⟩
    refine or_iff_not_imp_left.mpr fun hc ↦ ?_
    rw [not_not] at hc
    obtain ⟨hhead, hone⟩ := ((governed_iff hf).mp hg).resolve_left (not_not.mpr hc)
    exact ⟨hhead, last_mark hf hc, hf.1, hone⟩
  · rintro (hc | ⟨hhead, hlast, hinf, hone⟩)
    · have hf : Followed (marks ls) :=
        ⟨fun h ↦ hc (h.subset (by simp)), fun h ↦ hc (List.mem_of_getLast? h)⟩
      exact ⟨hf, (governed_iff hf).mpr (.inl hc)⟩
    · have hf : Followed (marks ls) := ⟨hinf, by rw [hlast]; simp⟩
      exact ⟨hf, (governed_iff hf).mpr (.inr ⟨hhead, hone⟩)⟩

/-- A call described with an address for the session and one for its only stream. -/
def twoAddresses : Text := text "INVITE a b\r\nTo: x\r\n\r\nc=IN IP6 ::1\r\nm=audio 9 x\r\nc=IN IP6 ::2\r\n"

def twoAddressesLines : List Line :=
  [.header ⟨text "To", 12, 14⟩ ⟨text "x", 16, 17⟩, .connection ⟨text "IP6", 26, 29⟩ ⟨text "::1", 30, 33⟩,
    .media ⟨text "9", 43, 44⟩, .connection ⟨text "IP6", 53, 56⟩ ⟨text "::2", 57, 60⟩]

theorem twoAddresses_accepted :
    Accepted once .header twoAddresses (SIPScanner.lexed .header twoAddresses) twoAddressesLines := by
  refine ⟨SIPScanner.scans_lexed _ _, ?_⟩
  have htokens : SIPScanner.tokens once (SIPScanner.lexed .header twoAddresses) =
      [(.METHOD, ⟨text "INVITE", 0, 6⟩), (.TEXT, ⟨text "a", 7, 8⟩), (.TEXT, ⟨text "b", 9, 10⟩),
        (.CRLF, ⟨text "\r\n", 10, 12⟩), (.HEADER_IDENT, ⟨text "To", 12, 14⟩), (.char COLON, ⟨text ":", 14, 15⟩),
        (.HEADER_VALUE, ⟨text "x", 16, 17⟩), (.CRLF, ⟨text "\r\n", 17, 19⟩), (.CRLF, ⟨text "\r\n", 19, 21⟩),
        (.CHAR_c, ⟨text "c", 21, 22⟩), (.char SIPScanner.EQUALS, ⟨text "=", 22, 23⟩), (.TEXT, ⟨text "IN", 23, 25⟩),
        (.TEXT, ⟨text "IP6", 26, 29⟩), (.TEXT, ⟨text "::1", 30, 33⟩), (.CRLF, ⟨text "\r\n", 33, 35⟩),
        (.CHAR_m, ⟨text "m", 35, 36⟩), (.char SIPScanner.EQUALS, ⟨text "=", 36, 37⟩), (.TEXT, ⟨text "audio", 37, 42⟩),
        (.TEXT, ⟨text "9", 43, 44⟩), (.TEXT, ⟨text "x", 45, 46⟩), (.CRLF, ⟨text "\r\n", 46, 48⟩),
        (.CHAR_c, ⟨text "c", 48, 49⟩), (.char SIPScanner.EQUALS, ⟨text "=", 49, 50⟩), (.TEXT, ⟨text "IN", 50, 52⟩),
        (.TEXT, ⟨text "IP6", 53, 56⟩), (.TEXT, ⟨text "::2", 57, 60⟩), (.CRLF, ⟨text "\r\n", 60, 62⟩)] := by
    decide +kernel
  rw [htokens]
  exact .mk _ _ _ _ (.header (.ident _ _ _ _) (.sdp _ (.sdp_line (.connection _ _ _ _ _ _)
    (.sdp_line (.media _ _ _ _ _ (.text _)) (.sdp_line (.connection _ _ _ _ _ _) .done)))))

/-- A `c=` line after the last `m=` line loses its type and keeps its address. -/
theorem connections_split : ∃ t ms ls p s log, Accepted once .header t ms ls ∧
    (parse noJunk 0 ls (fresh .stateless)).run answer ((exampleConf : StateManager Unit), none) = .ok (p, s, log) ∧
    ¬ConnectionsWhole [⟨ntohl 0x0a141e28⟩] noJunk ls p.ops log := by
  obtain ⟨p, s, log, hrun⟩ := exists_parse twoAddressesLines (by decide +kernel)
  refine ⟨twoAddresses, _, twoAddressesLines, p, s, log, twoAddresses_accepted, hrun, fun h ↦ ?_⟩
  obtain ⟨served, hs, rfl, hops⟩ := parse_run hrun
  rw [hops] at h
  have hc : Coherent [⟨ntohl 0x0a141e28⟩] (exampleConf : StateManager Unit) := coherent_configured _ _ _ _
  exact absurd ((connectionsWhole_iff twoAddresses_accepted.placed hs (served_pool hc hrun)).mp h).1.2 (by decide)

/-- A message that names its one address for each stream is rewritten whole, the one above is not. -/
theorem connections_whole_two :
    (∃ p s log, (parse noJunk 0 twoStreamsLines (fresh .stateless)).run answer
        ((exampleConf : StateManager Unit), none) = .ok (p, s, log) ∧
      ConnectionsWhole [⟨ntohl 0x0a141e28⟩] noJunk twoStreamsLines p.ops log) ∧
    ∃ p s log, (parse noJunk 0 twoAddressesLines (fresh .stateless)).run answer
        ((exampleConf : StateManager Unit), none) = .ok (p, s, log) ∧
      ¬ConnectionsWhole [⟨ntohl 0x0a141e28⟩] noJunk twoAddressesLines p.ops log := by
  constructor
  · obtain ⟨p, s, log, hrun⟩ := exists_parse twoStreamsLines (by decide +kernel)
    refine ⟨p, s, log, hrun, (@connections_whole_iff _ _ (FTPParser.only once noJunk) _ _ _ _ _ _ (.nil _) _ _ _ _
      twoStreams_accepted _ _ _ _ _ _ hrun).mpr (.inr ⟨by decide, by decide, by decide, ?_⟩)⟩
    unfold OneAddress
    decide
  · obtain ⟨p, s, log, hrun⟩ := exists_parse twoAddressesLines (by decide +kernel)
    refine ⟨p, s, log, hrun, fun h ↦ ?_⟩
    rcases (@connections_whole_iff _ _ (FTPParser.only once noJunk) _ _ _ _ _ _ (.nil _) _ _ _ _
      twoAddresses_accepted _ _ _ _ _ _ hrun).mp h with hc | ⟨-, hlast, -⟩
    · exact hc (by decide)
    · exact absurd hlast (by decide)

end Pool

end SIPParser

end Nat64Alg
