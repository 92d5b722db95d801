import Nat64Alg.AddrText
import Nat64Alg.DoApp

namespace Nat64Alg

open Lib

variable {σ : Type}

/-- What an `IP6Port` built from text finds in memory where the text says nothing. -/
structure Junk where
  ip : In6Addr
  port : UInt16

def Junk.ip6Port (junk : Junk) (ip port : TokenType) : IP6Port :=
  .ofText (.ofText junk.ip ip.s) junk.port port.s

def mapThen {α : Type} (k : IP6Port) (next : IP4Port → Script α) : Script α :=
  .call (.doMapping k) fun f ↦
    match f with
    | some ip4p => next ip4p
    | none => .fail .nullFlow

namespace FTPParser

/-- `request: CMD REQUEST_TEXT '\n'` -/
def command (t₁ : TokenType) (p : Parser σ) : Script (Parser σ) :=
  .ret (if t₁.s = text "USER" then { p with correct := true } else p)

/-- `request: CMD_EPRT INT ip INT '\n'` -/
def eprt (junk : Junk) (t₂ t₃ t₄ : TokenType) (p : Parser σ) : Script (Parser σ) :=
  mapThen (junk.ip6Port t₃ t₄) fun ip4p ↦
    let p := p.addToken t₂ (text "1") false
    let p := p.addToken t₃ ip4p.getIP.getString false
    let p := p.addToken t₄ ip4p.getPortString false
    .call .setIgnore fun _ ↦ .ret p

end FTPParser

/-- The fields of `SIPParser`. -/
structure SIPFields where
  c_ip_ : TokenType
  content_len_ : TokenType

namespace SIPParser

def mapTokens (junk : Junk) (ip port : TokenType) (count : Bool) (p : Parser σ) : Script (Parser σ) :=
  mapThen (junk.ip6Port ip port) fun ip4p ↦
    let p := p.addToken ip ip4p.getIP.getString count
    .ret (p.addToken port ip4p.getPortString count)

/-- `header: HEADER_IDENT_VIA ':' TEXT IP6ADDR TEXT trailing CRLF` -/
def via (junk : Junk) (t₄ t₅ : TokenType) (p : Parser σ) : Script (Parser σ) :=
  mapTokens junk t₄ t₅ false p

/-- `header: HEADER_IDENT_CONTACT ':' TEXT ':' TEXT '@' IP6ADDR ':' TEXT CRLF` -/
def contact (junk : Junk) (t₇ t₉ : TokenType) (p : Parser σ) : Script (Parser σ) :=
  mapTokens junk t₇ t₉ false p

/-- `sdp_line: CHAR_c '=' TEXT TEXT TEXT CRLF` -/
def connection (t₄ t₅ : TokenType) (p : Parser SIPFields) : Script (Parser SIPFields) :=
  .ret (({ p with st := { p.st with c_ip_ := t₅ } }).addToken t₄ (text "IP4") true)

/-- `sdp_line: CHAR_m '=' TEXT TEXT trailing CRLF` -/
def media (junk : Junk) (t₄ : TokenType) (p : Parser SIPFields) : Script (Parser SIPFields) :=
  if 0 < p.st.c_ip_.s.length then mapTokens junk p.st.c_ip_ t₄ true p else .ret p

end SIPParser

end Nat64Alg
