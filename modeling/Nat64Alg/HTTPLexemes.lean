import Nat64Alg.HTTPScanner

namespace Nat64Alg

open Lib

namespace HTTPScanner

section Pick

variable {s : State} {t : Text} {n : ℕ} {r : LexRule UInt8 State Token}

end Pick

def State.past (s : State) (w : Text) : State := { s with bol := w.getLast? == some 10 }

@[simp] theorem State.past_cond (s : State) (w : Text) : (s.past w).cond = s.cond := rfl

@[simp] theorem State.begin_cond (s : State) (c : StartCondition) : (s.begin c).cond = c := rfl

/-- From one point of a stream the scanner comes to another by one match. -/
def Makes (s : State) (w : Text) (k : Option Token) (s' : State) (t : Text) : Prop :=
  lexer.turn ⟨s, w ++ t⟩ = some (⟨⟨s, w, k⟩, false⟩, ⟨s', t⟩)

section Words

variable {s : State} {w t : Text} {u v : List (LexRule UInt8 State Token)} {r : LexRule UInt8 State Token}

end Words

section Href

variable {s : State} {c d : UInt8} {t w : Text}

/-- A character of an address that is no blank, quote, letter or digit. -/
def isSign (c : UInt8) : Bool := !(isAlnum c || isBlank c || isQuote c || c == 10 || c == 61 || c == RANGLE)

end Href

section Tags

variable {s : State} {a c d : UInt8} {t w : Text}

end Tags

section Status

variable {s : State} {c d : UInt8} {t w : Text}

end Status

section Header

variable {s : State} {c d : UInt8} {t w : Text}

end Header

end HTTPScanner

end Nat64Alg
