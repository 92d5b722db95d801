import Nat64Alg.Lib.OrderedMap
import Nat64Alg.Lib.Memory

namespace Nat64Alg

open Lib

/-- The characters of a `std::string`. -/
abbrev Text := List UInt8

def text (s : String) : Text := s.toList.map (fun c ↦ UInt8.ofNat c.toNat)

def decimal (n : ℕ) : Text := (Nat.toDigits 10 n).map (fun c ↦ UInt8.ofNat c.toNat)

/-- An address word holds its four bytes in memory order, read by a little-endian host. -/
def wordBytes (w : UInt32) : List ℕ :=
  [w.toNat % 2 ^ 8, w.toNat / 2 ^ 8 % 2 ^ 8, w.toNat / 2 ^ 16 % 2 ^ 8, w.toNat / 2 ^ 24]

structure IPv4Addr where
  ip_ : UInt32
deriving DecidableEq, Repr

namespace IPv4Addr

def getInt (a : IPv4Addr) : UInt32 := a.ip_

def lt (a b : IPv4Addr) : Bool := a.ip_ < b.ip_

/-- `inet_ntop` for `AF_INET`. -/
def getString (a : IPv4Addr) : Text :=
  List.intercalate [46] ((wordBytes a.ip_).map decimal)

end IPv4Addr

/-- The four words `s6_addr32` of an address. -/
structure In6Addr where
  w₀ : UInt32
  w₁ : UInt32
  w₂ : UInt32
  w₃ : UInt32
deriving DecidableEq, Repr

structure IPv6Addr where
  ip_ : In6Addr
deriving DecidableEq, Repr

namespace IPv6Addr

def getIn6Addr (a : IPv6Addr) : In6Addr := a.ip_

/-- Both sides of every comparison are taken from `a`, as in the source. -/
def lt (a _b : IPv6Addr) : Bool :=
  if a.ip_.w₀ != a.ip_.w₀ then a.ip_.w₀ < a.ip_.w₀
  else if a.ip_.w₁ != a.ip_.w₁ then a.ip_.w₁ < a.ip_.w₁
  else if a.ip_.w₂ != a.ip_.w₂ then a.ip_.w₂ < a.ip_.w₂
  else a.ip_.w₃ < a.ip_.w₃

def ne (a _b : IPv6Addr) : Bool :=
  a.ip_.w₀ != a.ip_.w₀ || a.ip_.w₁ != a.ip_.w₁ || a.ip_.w₂ != a.ip_.w₂ || a.ip_.w₃ != a.ip_.w₃

end IPv6Addr

/-- `port_` is in network byte order. -/
structure IP4Port where
  ip_ : IPv4Addr
  port_ : UInt16
deriving DecidableEq, Repr

namespace IP4Port

def null : IP4Port := ⟨⟨0⟩, 0⟩

def getIP (a : IP4Port) : IPv4Addr := a.ip_

def getPort (a : IP4Port) : UInt16 := a.port_

def getPortString (a : IP4Port) : Text := decimal (ntohs a.port_).toNat

def lt (a b : IP4Port) : Bool :=
  if a.ip_.getInt != b.ip_.getInt then a.ip_.getInt < b.ip_.getInt else a.port_ < b.port_

def eq (a b : IP4Port) : Bool := a.ip_.getInt == b.ip_.getInt && a.port_ == b.port_

end IP4Port

structure IP6Port where
  ip_ : IPv6Addr
  port_ : UInt16
deriving DecidableEq, Repr

namespace IP6Port

def getIP (a : IP6Port) : IPv6Addr := a.ip_

def getPort (a : IP6Port) : UInt16 := a.port_

def lt (a b : IP6Port) : Bool :=
  if IPv6Addr.ne a.ip_ b.ip_ then IPv6Addr.lt a.ip_ b.ip_ else a.port_ < b.port_

end IP6Port

section Keys

theorem IPv6Addr.lt_eq_false (a b : IPv6Addr) : IPv6Addr.lt a b = false := by simp [IPv6Addr.lt]

theorem IPv6Addr.ne_eq_false (a b : IPv6Addr) : IPv6Addr.ne a b = false := by simp [IPv6Addr.ne]

theorem IPv4Addr.lt_key (a b : IPv4Addr) :
    IPv4Addr.lt a b = decide (a.ip_.toNat < b.ip_.toNat) := by
  simp [IPv4Addr.lt, UInt32.lt_iff_toNat_lt]

theorem IP4Port.lt_key (a b : IP4Port) : IP4Port.lt a b =
    decide (2 ^ 16 * a.ip_.ip_.toNat + a.port_.toNat < 2 ^ 16 * b.ip_.ip_.toNat + b.port_.toNat) := by
  have ha := a.port_.toNat_lt
  have hb := b.port_.toNat_lt
  simp only [IP4Port.lt, IPv4Addr.getInt, bne_iff_ne, ne_eq, UInt32.lt_iff_toNat_lt,
    UInt16.lt_iff_toNat_lt, ← UInt32.toNat_inj]
  split <;> simp only [decide_eq_decide] <;> omega

theorem IP6Port.lt_key (a b : IP6Port) :
    IP6Port.lt a b = decide (a.port_.toNat < b.port_.toNat) := by
  simp [IP6Port.lt, IPv6Addr.ne_eq_false, UInt16.lt_iff_toNat_lt]

instance : Order IPv4Addr.lt := OrderedMap.order_of_key _ IPv4Addr.lt_key
instance : Order IPv6Addr.lt := OrderedMap.order_of_key (fun _ ↦ 0) (by simp [IPv6Addr.lt_eq_false])
instance : Order IP4Port.lt := OrderedMap.order_of_key _ IP4Port.lt_key
instance : Order IP6Port.lt := OrderedMap.order_of_key _ IP6Port.lt_key

theorem IPv4Addr.equiv_iff {a b : IPv4Addr} : equiv IPv4Addr.lt a b = true ↔ a = b := by
  rw [OrderedMap.equiv_of_key _ IPv4Addr.lt_key, UInt32.toNat_inj]
  exact ⟨fun h ↦ by cases a; cases b; simpa using h, congrArg _⟩

theorem IP4Port.equiv_iff {a b : IP4Port} : equiv IP4Port.lt a b = true ↔ a = b := by
  rw [OrderedMap.equiv_of_key _ IP4Port.lt_key]
  refine ⟨fun h ↦ ?_, fun h ↦ by rw [h]⟩
  have ha := a.port_.toNat_lt
  have hb := b.port_.toNat_lt
  have hip : a.ip_.ip_ = b.ip_.ip_ := UInt32.toNat_inj.mp (by omega)
  have hport : a.port_ = b.port_ := UInt16.toNat_inj.mp (by omega)
  rcases a with ⟨⟨_⟩, _⟩
  rcases b with ⟨⟨_⟩, _⟩
  simp_all

theorem IPv6Addr.equiv_all (a b : IPv6Addr) : equiv IPv6Addr.lt a b = true := by
  simp [equiv, IPv6Addr.lt_eq_false]

theorem IP6Port.equiv_iff {a b : IP6Port} : equiv IP6Port.lt a b = true ↔ a.port_ = b.port_ := by
  rw [OrderedMap.equiv_of_key _ IP6Port.lt_key, UInt16.toNat_inj]

end Keys

end Nat64Alg
