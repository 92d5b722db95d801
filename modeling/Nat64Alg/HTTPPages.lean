import Nat64Alg.HTTPLexemes
import Nat64Alg.HTTPRewriting

namespace Nat64Alg

open Lib HTTPScanner HTTPParser

/-- A text of one character of a class and any number of another. -/
structure Word (first more : UInt8 → Bool) where
  head : UInt8
  tail : Text
  head_first : first head = true
  tail_more : tail.all more = true

namespace Word

def text {first more : UInt8 → Bool} (w : Word first more) : Text := w.head :: w.tail

variable {p : UInt8 → Bool} {first more : UInt8 → Bool}

theorem ne_nil (w : Word first more) : w.text ≠ [] := List.cons_ne_nil _ _

theorem all_more (w : Word first more) (h : ∀ c, first c = true → more c = true) : w.text.all more = true := by
  rw [text, List.all_cons, h w.head w.head_first, w.tail_more, Bool.and_self]

theorem all (w : Word p p) : w.text.all p = true := w.all_more fun _ h ↦ h

end Word

abbrev Name := Word isAlpha isAlnum
abbrev Digits := Word isDigit isDigit

def isPath (c : UInt8) : Bool := isAlnum c || c == SLASH || c == DOT

/-- The characters of a reference that is no address of a server. -/
def isReference (c : UInt8) : Bool := isAlnum c || (isSign c && c != COLON)

inductive Attribute
  | plain (name : Name) (value : Text) (no_href : name.text ≠ Nat64Alg.text "href") (no_quote : QUOT ∉ value)
  | link (scheme : Name) (a b c d : Digits) (path : Text) (path_ok : path.all isPath = true)
  | reference (target : Text) (target_ok : target.all isReference = true)

namespace Attribute

def address (a b c d : Digits) : Text := a.text ++ DOT :: (b.text ++ DOT :: (c.text ++ DOT :: d.text))

def quoted (t : Text) : Text := QUOT :: (t ++ [QUOT])

def print : Attribute → Text
  | plain name value _ _ => SP :: (name.text ++ 61 :: quoted value)
  | link scheme a b c d path _ =>
    SP :: (Nat64Alg.text "href" ++ 61 :: quoted (scheme.text ++ COLON :: SLASH :: SLASH ::
      (address a b c d ++ SLASH :: path)))
  | reference target _ => SP :: (Nat64Alg.text "href" ++ 61 :: quoted target)

/-- Where an attribute that starts at `k` has an address of a server. -/
def operations (k : ℕ) : Attribute → List Operation
  | link scheme a b c d _ _ =>
    let pos := k + 7 + scheme.text.length + 3
    [urlOperation (address a b c d) pos (pos + (address a b c d).length)]
  | _ => []

def operationsAll : ℕ → List Attribute → List Operation
  | _, [] => []
  | k, a :: as => a.operations k ++ operationsAll (k + a.print.length) as

def barred : Attribute → Text
  | link scheme a b c d path _ =>
    SP :: (Nat64Alg.text "href" ++ 61 :: quoted (scheme.text ++ COLON :: SLASH :: SLASH ::
      (HTTPParser.barred (address a b c d) ++ SLASH :: path)))
  | a => a.print

end Attribute

inductive Node
  | content (t : Text) (no_tag : LANGLE ∉ t)
  | element (tag : Name) (attributes : List Attribute)
  | close (tag : Name)

namespace Node

def print : Node → Text
  | content t _ => t
  | element tag attributes => LANGLE :: (tag.text ++ attributes.flatMap Attribute.print ++ [RANGLE])
  | close tag => LANGLE :: SLASH :: (tag.text ++ [RANGLE])

def read (pg : Page) : Node → Page
  | content _ _ => pg
  | element tag _ => pg.next (.beginTag tag.text)
  | close tag => pg.next (.endTag tag.text)

def operations (pg : Page) (k : ℕ) : Node → List Operation
  | element tag attributes =>
    if pg.inside = none ∧ tag.text = anchor then Attribute.operationsAll (k + 1 + tag.text.length) attributes else []
  | _ => []

def operationsAll : Page → ℕ → List Node → List Operation
  | _, _, [] => []
  | pg, k, n :: ns => n.operations pg k ++ operationsAll (n.read pg) (k + n.print.length) ns

def rewritten (pg : Page) : Node → Text
  | element tag attributes =>
    LANGLE :: (tag.text ++
      attributes.flatMap (if pg.inside = none ∧ tag.text = anchor then Attribute.barred else Attribute.print) ++
      [RANGLE])
  | n => n.print

def rewrittenAll : Page → List Node → Text
  | _, [] => []
  | pg, n :: ns => n.rewritten pg ++ rewrittenAll (n.read pg) ns

/-- A closing tag of raw text closes the element that is open. -/
def Closes (pg : Page) : Node → Prop
  | close tag => rawText tag.text = true → pg.inside = some tag.text
  | _ => True

instance (pg : Page) : (n : Node) → Decidable (n.Closes pg)
  | content _ _ => .isTrue trivial
  | element _ _ => .isTrue trivial
  | close tag => inferInstanceAs (Decidable (rawText tag.text = true → pg.inside = some tag.text))

def Nested : Page → List Node → Prop
  | _, [] => True
  | pg, n :: ns => n.Closes pg ∧ Nested (n.read pg) ns

instance decidableNested : ∀ (pg : Page) (ns : List Node), Decidable (Nested pg ns)
  | _, [] => .isTrue trivial
  | pg, n :: ns =>
    have := decidableNested (n.read pg) ns
    inferInstanceAs (Decidable (n.Closes pg ∧ Nested (n.read pg) ns))

end Node

structure HeaderLine where
  name : Word SIPScanner.isName SIPScanner.isName
  value : Word isValueStart isValue

def HeaderLine.print (h : HeaderLine) : Text := h.name.text ++ COLON :: SP :: (h.value.text ++ [13, 10])

structure Response where
  version : Word isStatus isStatus
  code : Word isStatus isStatus
  reason : Word isStatus isStatus
  header : HeaderLine
  headers : List HeaderLine
  body : List Node
  nested : Node.Nested ⟨none, none⟩ body

namespace Response

def statusline (r : Response) : Text :=
  r.version.text ++ SP :: (r.code.text ++ SP :: (r.reason.text ++ [13, 10]))

def preamble (r : Response) : Text :=
  r.statusline ++ ((r.header :: r.headers).flatMap HeaderLine.print ++ [13, 10])

def print (r : Response) : Text := r.preamble ++ r.body.flatMap Node.print

def operations (r : Response) : List Operation := Node.operationsAll ⟨none, none⟩ r.preamble.length r.body

/-- The response with bars in the addresses of its anchors. -/
def rewritten (r : Response) : Text := r.preamble ++ Node.rewrittenAll ⟨none, none⟩ r.body

end Response

section Rewritten

open Patch

def Attribute.front (scheme : Name) : Text :=
  SP :: (Nat64Alg.text "href" ++ 61 :: QUOT :: (scheme.text ++ [COLON, SLASH, SLASH]))

theorem Attribute.length_front (scheme : Name) : (Attribute.front scheme).length = 7 + scheme.text.length + 3 := by
  simp [front, show (Nat64Alg.text "href").length = 4 by decide]
  omega

theorem Attribute.turns (a : Attribute) (k : ℕ) :
    Turns k a.print a.barred ((a.operations k).map (Operation.patch 0)) := by
  cases a with
  | plain name value hne hq => exact turns_kept k _
  | reference target hok => exact turns_kept k _
  | link scheme a b c d path hok =>
    have hput := turns_put (k + (front scheme).length) (address a b c d) (HTTPParser.barred (address a b c d))
    have hall := ((turns_kept k (front scheme)).append hput).append (turns_kept _ (SLASH :: (path ++ [QUOT])))
    rw [length_front] at hall
    convert hall using 1
    · simp [print, quoted, front]
    · simp [Attribute.barred, quoted, front]
    · simp [operations, urlOperation, Operation.patch, HTTPParser.barred, Int.add_assoc]

theorem Attribute.turns_all (as : List Attribute) (k : ℕ) : Turns k (as.flatMap print) (as.flatMap Attribute.barred)
    ((operationsAll k as).map (Operation.patch 0)) := by
  induction as generalizing k with
  | nil => exact turns_kept k []
  | cons a as ih =>
    have h := ih (k + a.print.length)
    rw [Nat.cast_add] at h
    rw [operationsAll, List.map_append, List.flatMap_cons, List.flatMap_cons]
    exact (a.turns k).append h

theorem Node.turns (pg : Page) (n : Node) (k : ℕ) :
    Turns k n.print (n.rewritten pg) ((n.operations pg k).map (Operation.patch 0)) := by
  cases n with
  | content t ht => exact turns_kept k t
  | close tag => exact turns_kept k _
  | element tag as =>
    rw [operations, rewritten, print]
    split
    case isTrue =>
      have has := Attribute.turns_all as (k + 1 + tag.text.length)
      have hlen : ((k + 1 + tag.text.length : ℕ) : Int) = k + (LANGLE :: tag.text).length := by simp; omega
      rw [hlen] at has
      have h := ((turns_kept k (LANGLE :: tag.text)).append has).append (turns_kept _ [RANGLE])
      rwa [List.nil_append, List.append_nil] at h
    case isFalse => exact turns_kept k _

theorem Node.turns_all (pg : Page) (ns : List Node) (k : ℕ) : Turns k (ns.flatMap print) (rewrittenAll pg ns)
    ((operationsAll pg k ns).map (Operation.patch 0)) := by
  induction ns generalizing pg k with
  | nil => exact turns_kept k []
  | cons n ns ih =>
    have h := ih (n.read pg) (k + n.print.length)
    rw [Nat.cast_add] at h
    rw [operationsAll, List.map_append, List.flatMap_cons]
    exact (n.turns pg k).append h

theorem Response.turns (r : Response) (t : Text) :
    Turns 0 (r.print ++ t) (r.rewritten ++ t) (r.operations.map (Operation.patch 0)) := by
  have hbody := Node.turns_all ⟨none, none⟩ r.body r.preamble.length
  rw [← Int.zero_add (r.preamble.length : Int)] at hbody
  have h := ((turns_kept 0 r.preamble).append hbody).append (turns_kept _ t)
  rwa [List.nil_append, List.append_nil] at h

end Rewritten

end Nat64Alg
