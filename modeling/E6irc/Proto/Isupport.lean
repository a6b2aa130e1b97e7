import E6irc.Base.Bytes

/-!
# What a server supports

One token of a 005 line (`e6irc-proto/src/isupport.rs`): a name, its value if it
has one, and whether the server takes it back.
-/

namespace E6irc

open Base

structure IsupportToken where
  negated : Bool
  name : Bytes
  value : Option Bytes
deriving DecidableEq, Repr

inductive IsupportError
  | badName | negatedWithValue
deriving DecidableEq, Repr

namespace IsupportToken

def validName (name : Bytes) : Bool :=
  name ≠ [] ∧ name.all fun b => (byte 'A' ≤ b && b ≤ byte 'Z') || isAsciiDigit b

def hexDigit (b : UInt8) : Option UInt8 :=
  if isAsciiDigit b then some (b - byte '0')
  else if byte 'a' ≤ b ∧ b ≤ byte 'f' then some (b - byte 'a' + 10)
  else if byte 'A' ≤ b ∧ b ≤ byte 'F' then some (b - byte 'A' + 10)
  else none

/-- The byte that `\\xHH` stands for, if that is what is written and it is ASCII. -/
def escaped (backslash x high low : UInt8) : Option UInt8 := do
  guard (backslash = byte '\\' ∧ x = byte 'x')
  let value := 16 * (← hexDigit high) + (← hexDigit low)
  if value < 128 then some value else none

/-- Every escape that stands for nothing is literal text. -/
def unescapeValue : Bytes → Bytes
  | b :: x :: high :: low :: rest =>
    match escaped b x high low with
    | some value => value :: unescapeValue rest
    | none => b :: unescapeValue (x :: high :: low :: rest)
  | b :: rest => b :: unescapeValue rest
  | [] => []

def parse (raw : Bytes) : Except IsupportError IsupportToken :=
  let (negated, rest) :=
    match stripFirst (byte '-') raw with
    | some rest => (true, rest)
    | none => (false, raw)
  let (name, value) :=
    match splitOnce (byte '=') rest with
    | some (name, value) => (name, some (unescapeValue value))
    | none => (rest, none)
  if !validName name then .error .badName
  else if negated && value.isSome then .error .negatedWithValue
  else .ok ⟨negated, name, value⟩

example : parse (ascii "PREFIX=\\x28ov)@+") = .ok ⟨false, ascii "PREFIX", some (ascii "(ov)@+")⟩ := by
  decide +kernel

end IsupportToken

end E6irc
