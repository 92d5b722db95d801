import Nat64Alg.Ip

namespace Nat64Alg

/-- A `std::string` seen through `c_str`. -/
def cstr (s : Text) : Text := s.takeWhile (· != 0)

def isDigit (c : UInt8) : Bool := 48 ≤ c && c ≤ 57

def hexDigit (c : UInt8) : Option ℕ :=
  if isDigit c then some (c.toNat - 48)
  else if 97 ≤ c && c ≤ 102 then some (c.toNat - 87)
  else if 65 ≤ c && c ≤ 70 then some (c.toNat - 55)
  else none

/-- The dotted form: `octets` counts the numbers begun, `done` holds those finished. -/
def pton4 : Text → ℕ → Bool → ℕ → List ℕ → Option (List ℕ)
  | [], octets, _, cur, done => if octets < 4 then none else some (done ++ [cur])
  | c :: cs, octets, saw, cur, done =>
    if isDigit c then
      let new := cur * 10 + (c.toNat - 48)
      if (saw && cur == 0) || decide (255 < new) then none
      else if saw then pton4 cs octets true new done
      else if 4 < octets + 1 then none
      else pton4 cs (octets + 1) true new done
    else if c == 46 && saw then
      if octets = 4 then none else pton4 cs octets false 0 (done ++ [cur])
    else none

def pton6End (xdigits val : ℕ) (colonp : Option ℕ) (tp : List ℕ) : Option (List ℕ) :=
  let tp := if 0 < xdigits then tp ++ [val / 256, val % 256] else tp
  if 16 < tp.length then none
  else
    match colonp with
    | some k => if tp.length = 16 then none else some (tp.take k ++ List.replicate (16 - tp.length) 0 ++ tp.drop k)
    | none => if tp.length = 16 then some tp else none

/-- The loop of `inet_pton` for `AF_INET6`. `tok` is the text of the number being read,
`colonp` the place of `::`, and `tp` the bytes so far. -/
def pton6Loop : Text → Text → ℕ → ℕ → Option ℕ → List ℕ → Option (List ℕ)
  | [], _, xdigits, val, colonp, tp => pton6End xdigits val colonp tp
  | c :: cs, tok, xdigits, val, colonp, tp =>
    match hexDigit c with
    | some d =>
      if xdigits = 4 ∨ 0xffff < val * 16 + d then none
      else pton6Loop cs tok (xdigits + 1) (val * 16 + d) colonp tp
    | none =>
      if c == 58 then
        if xdigits = 0 then
          if colonp.isSome then none else pton6Loop cs cs 0 val (some tp.length) tp
        else if cs.isEmpty || decide (16 < tp.length + 2) then none
        else pton6Loop cs cs 0 0 colonp (tp ++ [val / 256, val % 256])
      else if c == 46 && decide (tp.length + 4 ≤ 16) then
        match pton4 tok 0 false 0 [] with
        | some octets => pton6End 0 val colonp (tp ++ octets)
        | none => none
      else none

def word (bs : List ℕ) (k : ℕ) : UInt32 :=
  UInt32.ofNat (bs.getD k 0 + 2 ^ 8 * bs.getD (k + 1) 0 + 2 ^ 16 * bs.getD (k + 2) 0 + 2 ^ 24 * bs.getD (k + 3) 0)

/-- `inet_pton` for `AF_INET6`. A text that opens with one colon has to open with two. -/
def inet_pton6 (s : Text) : Option In6Addr :=
  let start : Option Text :=
    match s with
    | [] => none
    | 58 :: cs => if cs.head? = some 58 then some cs else none
    | _ => some s
  (start.bind (fun s ↦ pton6Loop s s 0 0 none [])).map (fun bs ↦ ⟨word bs 0, word bs 4, word bs 8, word bs 12⟩)

/-- The constructor from text leaves the address as memory had it when the text is none. -/
def IPv6Addr.ofText (junk : In6Addr) (ip : Text) : IPv6Addr :=
  let s := if 2 < ip.length ∧ ip.head? = some 91 ∧ ip.getLast? = some 93 then (ip.drop 1).dropLast else ip
  ⟨(inet_pton6 (cstr s)).getD junk⟩

def isSpace (c : UInt8) : Bool := c == 32 || (9 ≤ c && c ≤ 13)

def digitsValue (ds : Text) : ℕ := ds.foldl (fun n c ↦ n * 10 + (c.toNat - 48)) 0

/-- `sin >> port_`: a number too large is stored as the largest, no number as 0,
and at the end of the text nothing is stored. -/
def readUShort (junk : UInt16) (s : Text) : UInt16 :=
  match s.dropWhile isSpace with
  | [] => junk
  | c :: cs =>
    let ds := (if c == 43 || c == 45 then cs else c :: cs).takeWhile isDigit
    if 65535 < digitsValue ds then 65535
    else if c == 45 then 0 - UInt16.ofNat (digitsValue ds)
    else UInt16.ofNat (digitsValue ds)

def IP6Port.ofText (ip : IPv6Addr) (junk : UInt16) (port : Text) : IP6Port :=
  ⟨ip, Lib.ntohs (readUShort junk port)⟩

example : IPv6Addr.ofText ⟨1, 1, 1, 1⟩ (text "[2001:db8::c000:201]") =
    ⟨⟨Lib.ntohl 0x20010db8, 0, 0, Lib.ntohl 0xc0000201⟩⟩ := by decide

example : IPv6Addr.ofText ⟨1, 1, 1, 1⟩ (text "::ffff:192.0.2.1") =
    ⟨⟨0, 0, Lib.ntohl 0xffff, Lib.ntohl 0xc0000201⟩⟩ := by decide

end Nat64Alg
