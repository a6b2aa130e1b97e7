import E6irc.Proto.Casemap
import E6irc.Proto.Isupport
import E6irc.Proto.Message
import E6irc.Proto.Text

/-!
# What a client reads

A message as a client keeps it (`e6irc-client/src/lib.rs`), where a numeric names
what it is about, and a network's naming rules (`e6irc-client/src/names.rs`).
-/

namespace E6irc.Client

open Base

structure OwnedMessage where
  tags : List (Bytes × Option Bytes)
  source : Option Bytes
  command : Bytes
  params : List Bytes
deriving DecidableEq, Repr

namespace OwnedMessage

/-- The value of the last tag with this key. -/
def tag (message : OwnedMessage) (key : Bytes) : Option Bytes :=
  (message.tags.reverse.find? (·.1 = key)).bind Prod.snd

/-- The numeric a message is, if it is one. -/
def numeric (message : OwnedMessage) : Option ℕ :=
  if message.command.length = 3 then parseUnsigned 16 message.command else none

/-- What a numeric is about: the second parameter, or the third where something
else stands first. -/
def numericSubject (message : OwnedMessage) : Option Bytes :=
  if message.command ∈ ["341", "353", "441", "443"].map ascii then message.params[2]?
  else message.params[1]?

/-- The tokens of a 005, which stand between the nick and a closing text. -/
def isupportTokens (message : OwnedMessage) : List IsupportToken :=
  if message.command = ascii "005" then
    (message.params.drop 1).dropLast.filterMap fun raw => (IsupportToken.parse raw).toOption
  else []

end OwnedMessage

/-- A network's case mapping, channel prefixes and STATUSMSG sigils. -/
structure NetworkNames where
  casemapping : CaseMapping
  chantypes : Bytes
  statusmsg : Bytes
deriving DecidableEq, Repr

namespace NetworkNames

def default : NetworkNames where
  casemapping := .rfc1459
  chantypes := ascii "#&"
  statusmsg := []

/-- Whether `chars` has the first character of `text`. -/
def startsIn (chars text : Bytes) : Bool :=
  text ≠ [] ∧ firstChar text <:+: chars

def isChannel (names : NetworkNames) (target : Bytes) : Bool :=
  startsIn names.chantypes target

/-- Take off sigils until a channel is left; every round takes a character. -/
def takeSigils (names : NetworkNames) (target : Bytes) : ℕ → Bytes → Bytes
  | 0, _ => target
  | fuel + 1, rest =>
    if startsIn names.statusmsg rest then
      let rest := rest.drop (firstChar rest).length
      if names.isChannel rest then rest else takeSigils names target fuel rest
    else target

/-- The conversation a message `target` belongs to. -/
def conversation (names : NetworkNames) (target : Bytes) : Bytes :=
  names.takeSigils target target.length target

def fold (names : NetworkNames) (name : Bytes) : Bytes :=
  names.casemapping.casefold name

def eq (names : NetworkNames) (a b : Bytes) : Bool :=
  names.casemapping.eq a b

/-- A mapping that is not known compares as `ascii`; a token taken back restores
what holds by default. -/
def adoptToken (names : NetworkNames) (token : IsupportToken) : NetworkNames :=
  let value := token.value.getD []
  if token.name = ascii "CASEMAPPING" then
    { names with
      casemapping := if token.negated then .rfc1459
        else (CaseMapping.fromIsupportToken value).getD .ascii }
  else if token.name = ascii "CHANTYPES" then
    { names with chantypes := if token.negated then default.chantypes else value }
  else if token.name = ascii "STATUSMSG" then
    { names with statusmsg := if token.negated then [] else value }
  else names

def adoptIsupport (names : NetworkNames) (message : OwnedMessage) : NetworkNames :=
  message.isupportTokens.foldl adoptToken names

end NetworkNames

end E6irc.Client
