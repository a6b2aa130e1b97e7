import E6irc.Base.Bytes

/-!
# IRC messages

`Message::parse` of `e6irc-proto/src/message.rs`: a line without its CRLF is
split into its tags, its source, its command and its parameters, or refused.
-/

namespace E6irc

open Base

/-! ## Wire budgets -/

def maxLineLen : ℕ := 512

def maxServerTagsLen : ℕ := 8191

def maxClientTagsLen : ℕ := 4096

/-- The tags, with their `@` and their space, and the rest have a budget each. -/
def frameFits (line : Bytes) (tagsBudget : ℕ) : Bool :=
  let bodyBudget := maxLineLen - 2
  if line.head? ≠ some (byte '@') then line.length ≤ bodyBudget
  else
    match splitOnce (byte ' ') line with
    | none => line.length ≤ tagsBudget
    | some (tags, body) => tags.length + 1 ≤ tagsBudget && body.length ≤ bodyBudget

def serverFrameFits (line : Bytes) : Bool :=
  frameFits line maxServerTagsLen

def clientFrameFits (line : Bytes) : Bool :=
  frameFits line maxClientTagsLen

/-- A tag value for the wire. -/
def escapeTagValue (value : Bytes) : Bytes :=
  value.flatMap fun b =>
    if b = byte ';' then ascii "\\:"
    else if b = byte ' ' then ascii "\\s"
    else if b = byte '\\' then ascii "\\\\"
    else if b = 13 then ascii "\\r"
    else if b = 10 then ascii "\\n"
    else if b = 0 then []
    else [b]

/-! ## Parsing -/

structure Tag where
  key : Bytes
  /-- Unescaped; `none` for a tag without a `=`. -/
  value : Option Bytes
deriving DecidableEq, Repr

structure Source where
  name : Bytes
  user : Option Bytes
  host : Option Bytes
deriving DecidableEq, Repr

structure Message where
  tags : List Tag
  source : Option Source
  command : Bytes
  params : List Bytes
  hasTrailing : Bool
deriving DecidableEq, Repr

inductive ParseError
  | empty | illegalByte | truncated | badTag | badSource | badCommand
deriving DecidableEq, Repr

def validCommand (command : Bytes) : Bool :=
  match command with
  | [] => false
  | _ =>
    command.all isAsciiAlphabetic || (command.length == 3 && command.all isAsciiDigit) ||
      (command.any isAsciiAlphabetic &&
        command.all fun b => isAsciiAlphanumeric b || b == byte '_' || b == byte '-')

def containsIllegalByte (text : Bytes) : Bool :=
  text.any fun b => b == 13 || b == 10 || b == 0

/-- `MiddleParam::stands_alone`. -/
def standsAlone (token : Bytes) : Bool :=
  !token.isEmpty && !(token.head? == some (byte ':')) &&
    !token.any fun b => b == byte ' ' || b == 13 || b == 10 || b == 0

/-- An invalid escape drops the backslash, and so does a lone one at the end. -/
def unescapeTagValue : Bytes → Bytes
  | [] => []
  | [b] => if b = byte '\\' then [] else [b]
  | b :: escaped :: rest =>
    if b = byte '\\' then
      (if escaped = byte ':' then byte ';'
        else if escaped = byte 's' then byte ' '
        else if escaped = byte 'r' then 13
        else if escaped = byte 'n' then 10
        else escaped) :: unescapeTagValue rest
    else b :: unescapeTagValue (escaped :: rest)

def parseTag (item : Bytes) : Except ParseError Tag :=
  let (key, value) := match splitOnce (byte '=') item with
    | some (key, value) => (key, some (unescapeTagValue value))
    | none => (item, none)
  if key = [] then .error .badTag else .ok { key, value }

/-- The tags between the leading `@` and the first space. -/
def parseTagSection (rawTags : Bytes) : Except ParseError (List Tag) :=
  (rawTags.splitOn (byte ';')).mapM parseTag

def trimSpaces (text : Bytes) : Bytes :=
  text.dropWhile (· == byte ' ')

/-- The text up to its first space, and what follows that. -/
def splitWord (text : Bytes) : Bytes × Bytes :=
  (splitOnce (byte ' ') text).getD (text, [])

def parseSource (rawSource : Bytes) : Except ParseError Source :=
  let (main, host) := match splitOnce (byte '@') rawSource with
    | some (main, host) => (main, some host)
    | none => (rawSource, none)
  let (name, user) := match splitOnce (byte '!') main with
    | some (name, user) => (name, some user)
    | none => (main, none)
  if name = [] then .error .badSource else .ok { name, user, host }

/-- The parameters, and whether the last one followed a `:`.  Every round takes
a byte at least, so the length of the text is fuel enough. -/
def parseParams : ℕ → Bytes → List Bytes × Bool
  | 0, _ => ([], false)
  | fuel + 1, text =>
    match trimSpaces text with
    | [] => ([], false)
    | first :: rest =>
      if first = byte ':' then ([rest], true)
      else
        let (param, after) := splitWord (first :: rest)
        let (params, hasTrailing) := parseParams fuel after
        (param :: params, hasTrailing)

/-- The tag section, if the line has one, and what follows it. -/
def splitTags (line : Bytes) : Except ParseError (List Tag × Bytes) :=
  match line with
  | [] => .ok ([], [])
  | first :: afterAt =>
    if first = byte '@' then
      match splitOnce (byte ' ') afterAt with
      | none => .error .truncated
      | some (rawTags, after) => do
        let tags ← parseTagSection rawTags
        return (tags, after)
    else .ok ([], line)

/-- The source, if the text has one, and what follows it, from its first word on. -/
def splitSource (text : Bytes) : Except ParseError (Option Source × Bytes) :=
  match trimSpaces text with
  | [] => .ok (none, [])
  | first :: afterColon =>
    if first = byte ':' then
      match splitOnce (byte ' ') afterColon with
      | none => .error .truncated
      | some (rawSource, after) =>
        if rawSource = [] then .error .badSource
        else do
          let source ← parseSource rawSource
          return (some source, trimSpaces after)
    else .ok (none, first :: afterColon)

namespace Message

/-- Parse one line, without its CRLF terminator. -/
def parse (line : Bytes) : Except ParseError Message :=
  if containsIllegalByte line then .error .illegalByte
  else do
    let (tags, text) ← splitTags line
    let (source, text) ← splitSource text
    if text = [] then
      .error (if tags = [] ∧ source = none then .empty else .truncated)
    else
      let (command, text) := splitWord text
      if !validCommand command then .error .badCommand
      else
        let (params, hasTrailing) := parseParams (text.length + 1) text
        return { tags, source, command, params, hasTrailing }

/-- The last tag with this key. -/
def tag (message : Message) (key : Bytes) : Option Tag :=
  message.tags.reverse.find? (·.key = key)

example : parse (ascii "@label=a\\sb :irc.example BATCH +r1 labeled-response") = .ok
    { tags := [⟨ascii "label", some (ascii "a b")⟩]
      source := some ⟨ascii "irc.example", none, none⟩
      command := ascii "BATCH"
      params := [ascii "+r1", ascii "labeled-response"]
      hasTrailing := false } := by
  decide +kernel

end Message

end E6irc
