import E6irc.Base.Bytes

/-!
# Case mapping

`CaseMapping` of `e6irc-proto/src/casemap.rs`: ASCII case folding in which
`[]\~` may also be the uppercase forms of `{}|^`.
-/

namespace E6irc

open Base

inductive CaseMapping
  | rfc1459 | rfc1459Strict | ascii
deriving DecidableEq, Repr

namespace CaseMapping

/-- Lowercase a single byte. -/
def lower (casemap : CaseMapping) (b : UInt8) : UInt8 :=
  if byte 'A' ≤ b ∧ b ≤ byte 'Z' then b + 32
  else if b = byte '[' ∨ b = byte ']' ∨ b = byte '\\' then
    match casemap with
    | .rfc1459 | .rfc1459Strict => b + 32
    | .ascii => b
  else if b = byte '~' then
    match casemap with
    | .rfc1459 => byte '^'
    | .rfc1459Strict | .ascii => b
  else b

/-- Whether two names are the same. -/
def eq (casemap : CaseMapping) (a b : Bytes) : Bool :=
  a.length == b.length && (a.zip b).all fun (x, y) => casemap.lower x == casemap.lower y

/-- The mapping that a 005 names, when it is one of these. -/
def fromIsupportToken (value : Bytes) : Option CaseMapping :=
  if value = Base.ascii "rfc1459" then some .rfc1459
  else if value ∈ [Base.ascii "rfc1459-strict", Base.ascii "strict-rfc1459"] then
    some .rfc1459Strict
  else if value = Base.ascii "ascii" then some .ascii
  else none

def casefold (casemap : CaseMapping) (text : Bytes) : Bytes :=
  text.map casemap.lower

@[simp] theorem length_casefold (casemap : CaseMapping) (text : Bytes) :
    (casemap.casefold text).length = text.length := by
  simp [casefold]

/-- The signs of a mask have no other case. -/
theorem lower_eq_sign {casemap : CaseMapping} {sign b : UInt8} (isSign : sign ∈ Base.ascii "*?@$/:") :
    casemap.lower b = sign ↔ b = sign := by
  have fixed : ∀ sign ∈ Base.ascii "*?@$/:", ∀ b, casemap.lower b = sign ↔ b = sign := by
    cases casemap <;> decide +kernel
  exact fixed sign isSign b

end CaseMapping

end E6irc
