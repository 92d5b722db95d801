import Nat64Alg.HTTPPages

namespace Nat64Alg

open Lib HTTPScanner HTTPParser

/-- Scanner and parser come from one point of a stream to another. -/
def Goes (g : Generated) (s : State) (r : Progress) (t : Text) (s' : State) (r' : Progress) (t' : Text) : Prop :=
  ∃ ms, Lexer.Reads lexer ⟨s, t⟩ ms ⟨s', t'⟩ ∧ ms.foldl (Progress.next g) r = r'

namespace Goes

variable {g : Generated} {s s' s'' : State} {r r' r'' : Progress} {t t' t'' w : Text} {k : Token} {st : Stack}
  {p : HTTPParser}

theorem refl (s : State) (r : Progress) (t : Text) : Goes g s r t s r t := ⟨[], .nil _, rfl⟩

theorem trans (h : Goes g s r t s' r' t') (h' : Goes g s' r' t' s'' r'' t'') : Goes g s r t s'' r'' t'' := by
  obtain ⟨ms, hms, rfl⟩ := h
  obtain ⟨ns, hns, rfl⟩ := h'
  exact ⟨ms ++ ns, hms.trans hns, List.foldl_append⟩

theorem congr {u : Text} {n : ℕ} (h : Goes g s r t s' r' t') (ht : t = u) (hn : r'.cnt = n) :
    Goes g s r u s' ⟨r'.p, r'.stack, n⟩ t' := by
  subst ht hn
  exact h

theorem silent (h : Makes s w none s' t) (r : Progress) :
    Goes g s r (w ++ t) s' ⟨r.p, r.stack, r.cnt + w.length⟩ t :=
  ⟨[_], .cons h (.nil _), rfl⟩

theorem token (h : Makes s w (some k) s' t) {r : Progress}
    (hs : shift g r.p k ⟨w, r.cnt, r.cnt + w.length⟩ r.stack = (st, p)) :
    Goes g s r (w ++ t) s' ⟨p, st, r.cnt + w.length⟩ t := by
  refine ⟨[_], .cons h (.nil _), ?_⟩
  simp only [List.foldl_cons, List.foldl_nil, Progress.next, Generated.counts, Consumed.counts]
  rw [if_neg Bool.false_ne_true, hs]

end Goes

section Hrefs

variable {g : Generated} {s : State} {r : Progress} {t w : Text}

def Ready (g : Generated) (st : Stack) : Prop :=
  ∀ p k t st', HTTPParser.attributes k = some st' → shift g p k t st = (st', p)

/-- A scanner inside the quotes of an address whose first name is read. -/
def Inside (s : State) : Prop := s.cond = .tag_attvalue_href ∧ s.inURL = true ∧ s.urlFirst = false

abbrev Parts := List (Text × Token)

def Parts.text (ps : Parts) : Text := (ps.map Prod.fst).flatten

def Parts.tokens (n : ℕ) : Parts → List TokenType
  | [] => []
  | (w, _) :: ps => ⟨w, n, n + w.length⟩ :: Parts.tokens (n + w.length) ps

section Parts

variable {ps : Parts} {c d : UInt8}

end Parts

/-- What the parser makes of operations in the tag it is in. -/
def report (p : HTTPParser) (ops : List Operation) : HTTPParser :=
  if p.st.curTag = anchor then { p with ops := p.ops ++ ops } else p

section Addresses

variable (a b c d : Digits)

end Addresses

end Hrefs

section Nodes

variable {g : Generated} {s : State} {r : Progress} {pg : Page}

end Nodes

section Preamble

variable {g : Generated} {s : State} {p : HTTPParser} {n : ℕ}

structure Bare (p : HTTPParser) : Prop where
  ops : p.ops = []
  tag : p.st.curTag = []
  len : p.st.len = 0

theorem Bare.httpheader (h : Bare p) (ts : List TokenType) : Bare (p.httpheader ts) := by
  obtain ⟨hops, hlen⟩ := httpheader_quiet p ts
  refine ⟨hops.trans h.ops, Eq.trans ?_ h.tag, hlen.trans h.len⟩
  unfold HTTPParser.httpheader
  repeat' split
  all_goals rfl

theorem Bare.emptyline (h : Bare p) (t : TokenType) :
    Matched ⟨none, none⟩ (p.emptyline t) ∧ (p.emptyline t).ops = [] := by
  refine ⟨?_, (emptyline_quiet h.len t).1.trans h.ops⟩
  unfold HTTPParser.emptyline
  dsimp only
  split
  · exact ⟨rfl, h.tag⟩
  · rw [if_neg (by rw [h.len]; decide)]
    exact ⟨rfl, h.tag⟩

end Preamble

section Responses

variable {g : Generated} {s : State} {p : HTTPParser}

end Responses

namespace HTTPStream

end HTTPStream

end Nat64Alg
