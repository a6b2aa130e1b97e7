import E6irc.Client.Names
import E6irc.Proto.Time

/-!
# Joining a channel with its history

`join_and_replay` of `e6irc-client/src/lib.rs` and what it calls.  A connection is
what the reader has yet to hand over, and the server is what it adds to that on
each line it is sent, given every line before.

A loop that reads until the server has said what it waits for counts down the lines
that arrive before the deadline; without one left it times out.
-/

namespace E6irc.Client

open Base Time

inductive RejectedLine
  | tooLong | unparseable
deriving DecidableEq, Repr

inductive ClientEvent
  | message (message : OwnedMessage)
  | rejected (reason : RejectedLine)
deriving DecidableEq, Repr

/-! ## What is sent -/

/-- Where a page of history begins. -/
inductive Anchor
  | marker (millis : ℕ)
  | msgid (id : Bytes)
  | time (text : Bytes)
deriving DecidableEq, Repr

def Anchor.text : Anchor → Bytes
  | .marker millis => ascii "timestamp=" ++ serverTime millis
  | .msgid id => ascii "msgid=" ++ id
  | .time text => ascii "timestamp=" ++ text

inductive Request
  | join (target : Bytes)
  | pong (token : Bytes)
  | after (target : Bytes) (anchor : Anchor) (count : ℕ)
  | latest (target : Bytes) (count : ℕ)
deriving DecidableEq, Repr

def Request.line : Request → Bytes
  | .join target => ascii "JOIN " ++ target
  | .pong token => ascii "PONG :" ++ token
  | .after target anchor count =>
    ascii "CHATHISTORY AFTER " ++ target ++ ascii " " ++ anchor.text ++ ascii " " ++ decimal count
  | .latest target count =>
    ascii "CHATHISTORY LATEST " ++ target ++ ascii " * " ++ decimal count

/-! ## Refusals and errors -/

def maxDiagnosticChars : ℕ := 300

def boundedDiagnostic (detail : Bytes) : Bytes :=
  ((chars detail).take maxDiagnosticChars).flatMap fun character =>
    if hasControl character then ascii " " else character

structure JoinRefusal where
  channel : Bytes
  forwardedTo : Option Bytes
  diagnostic : Bytes
deriving DecidableEq, Repr

structure HistoryRefusal where
  detail : Bytes
deriving DecidableEq, Repr

inductive IoError
  | delimiter | overBudget
  | tooManyLines (limit : ℕ)
  | closed (context : Bytes)
  | refused (refusal : JoinRefusal)
  | timedOut
deriving DecidableEq, Repr

def isErrorNumeric (command : Bytes) : Bool :=
  command.length = 3 ∧ command.all isAsciiDigit ∧
    (parseUnsigned 16 command).any fun numeric => 400 ≤ numeric && numeric < 600

def isRefusal (message : OwnedMessage) : Bool :=
  message.command = ascii "FAIL" ∨ isErrorNumeric message.command

/-- A `FAIL JOIN` refuses the join when its context names the channel, or nothing. -/
def isJoinRefusal (names : NetworkNames) (channel : Bytes) (reply : OwnedMessage) : Bool :=
  if ¬ isRefusal reply then false
  else if reply.command = ascii "FAIL" then
    let context := (reply.params.drop 2).dropLast
    (reply.params.head?.any fun command => toAsciiUppercase command = ascii "JOIN") &&
      (context.isEmpty || context.any (names.eq · channel))
  else reply.numericSubject.any (names.eq · channel)

def JoinRefusal.fromReply (names : NetworkNames) (channel : Bytes) (reply : OwnedMessage) :
    Option JoinRefusal :=
  if ¬ isJoinRefusal names channel reply then none
  else
    some
      { channel
        forwardedTo := if reply.command = ascii "470" then (reply.params[2]?).map boundedDiagnostic
          else none
        diagnostic := boundedDiagnostic (reply.params.getLast?.getD (ascii "no detail")) }

/-! ## Reading -/

structure Connection where
  names : NetworkNames
  chathistoryLimit : Option ℕ
  incoming : List ClientEvent
  sent : List Request
deriving DecidableEq, Repr

/-- What a server sends on the last of the lines it was sent. -/
abbrev Answers := List Request → List ClientEvent

namespace Connection

/-- The page limit a 005 declares; 0 and what is no number declare none. -/
def adoptLimit (limit : Option ℕ) (token : IsupportToken) : Option ℕ :=
  if token.name = ascii "CHATHISTORY" then
    if token.negated then none
    else (token.value.bind (parseUnsigned 64)).filter (0 < ·)
  else limit

def adoptIsupport (c : Connection) (message : OwnedMessage) : Connection :=
  { c with
    names := c.names.adoptIsupport message
    chathistoryLimit := message.isupportTokens.foldl adoptLimit c.chathistoryLimit }

def historyRequestSize (c : Connection) (wanted : ℕ) : ℕ :=
  c.chathistoryLimit.elim wanted (min wanted)

/-- Write one line, which the server then answers. -/
def sendLine (answers : Answers) (request : Request) (c : Connection) :
    Except IoError Connection :=
  if request.line.any fun b => b == 13 || b == 10 || b == 0 then .error .delimiter
  else if ¬ clientFrameFits request.line then .error .overBudget
  else
    .ok
      { c with
        sent := c.sent ++ [request]
        incoming := c.incoming ++ answers (c.sent ++ [request]) }

def nextEventLossy (c : Connection) : Option (ClientEvent × Connection) :=
  match c.incoming with
  | [] => none
  | .message message :: rest =>
    some (.message message, { c with incoming := rest }.adoptIsupport message)
  | .rejected reason :: rest => some (.rejected reason, { c with incoming := rest })

/-- Answer a `PING`, and say whether it was one. -/
def answerPing (answers : Answers) (message : OwnedMessage) (c : Connection) :
    Except IoError (Bool × Connection) :=
  if message.command = ascii "PING" then
    (c.sendLine answers (.pong (message.params.head?.getD []))).map (true, ·)
  else .ok (false, c)

/-- The next message, unless it was a `PING` or is reported in place. -/
def nextJoinEvent (answers : Answers) (events : List ClientEvent) (limit : ℕ) (context : Bytes)
    (c : Connection) : Except IoError (Option OwnedMessage × List ClientEvent × Connection) :=
  if limit ≤ events.length then .error (.tooManyLines limit)
  else
    match c.nextEventLossy with
    | none => .error (.closed context)
    | some (.message message, c) =>
      (c.answerPing answers message).map fun (answered, c) =>
        (if answered then none else some message, events, c)
    | some (.rejected reason, c) => .ok (none, events ++ [.rejected reason], c)

end Connection

/-! ## The join burst -/

def maxJoinBurstLines : ℕ := 4096

def maxHistoryPages : ℕ := 10

/-- The time a `MARKREAD` names. -/
def OwnedMessage.readMarker (message : OwnedMessage) : Option ℕ := do
  let marker ← message.params[1]?
  guard (ascii "timestamp=" <+: marker)
  parseServerTimeMillis (marker.drop (ascii "timestamp=").length)

/-- Whether the message is the read marker of `target`. -/
def marksRead (names : NetworkNames) (target : Bytes) (message : OwnedMessage) : Bool :=
  message.command = ascii "MARKREAD" ∧ message.params.head?.any (names.eq · target)

/-- Whether the message ends the join burst of `target`. -/
def endsBurst (names : NetworkNames) (target : Bytes) (message : OwnedMessage) : Bool :=
  message.command = ascii "366" ∧ message.numericSubject.any (names.eq · target)

/-- Read until the end of names. -/
def readBurst (answers : Answers) (target : Bytes) :
    ℕ → Option ℕ → List ClientEvent → Connection →
      Except IoError (Option ℕ × List ClientEvent × Connection)
  | 0, _, _, _ => .error .timedOut
  | patience + 1, marker, events, c => do
    let (message, events, c) ← c.nextJoinEvent answers events maxJoinBurstLines
      (ascii "closed before JOIN was confirmed")
    match message with
    | none => readBurst answers target patience marker events c
    | some message =>
      match JoinRefusal.fromReply c.names target message with
      | some refusal => .error (.refused refusal)
      | none =>
        let marker := if marksRead c.names target message then message.readMarker else marker
        let events := events ++ [.message message]
        if endsBurst c.names target message then .ok (marker, events, c)
        else readBurst answers target patience marker events c

/-- Join, and read what comes with it: the read marker among it. -/
def confirmJoin (answers : Answers) (patience : ℕ) (target : Bytes) (c : Connection) :
    Except IoError (Option ℕ × List ClientEvent × Connection) := do
  let c ← c.sendLine answers (.join target)
  readBurst answers target patience none [] c

/-! ## Pages of history -/

structure HistoryPage where
  lines : ℕ
  lastAnchor : Option Anchor
deriving DecidableEq, Repr

/-- What a message is to a page being read. -/
inductive PageLine
  | refuses (refusal : HistoryRefusal)
  | opens (batch : Bytes)
  | closes
  | adds (page : HistoryPage)
deriving DecidableEq, Repr

/-- The batch of history that a message opens. -/
def OwnedMessage.opensHistory (message : OwnedMessage) : Option Bytes := do
  guard (message.command = ascii "BATCH")
  let opened ← message.params.head?.bind (stripFirst (byte '+'))
  guard (message.params[1]? = some (ascii "chathistory"))
  some opened

/-- The batch that a message closes. -/
def OwnedMessage.closesBatch (message : OwnedMessage) : Option Bytes := do
  guard (message.command = ascii "BATCH")
  message.params.head?.bind (stripFirst (byte '-'))

/-- The selector that names a message. -/
def OwnedMessage.anchor (message : OwnedMessage) : Option Anchor :=
  (message.tag (ascii "msgid")).map Anchor.msgid <|> (message.tag (ascii "time")).map Anchor.time

def HistoryPage.line (batch : Option Bytes) (page : HistoryPage) (message : OwnedMessage) :
    PageLine :=
  if message.command = ascii "FAIL" ∧ message.params.head? = some (ascii "CHATHISTORY") then
    .refuses ⟨boundedDiagnostic ([byte ' '].intercalate (message.params.drop 1))⟩
  else
    match message.opensHistory with
    | some opened => .opens opened
    | none =>
      if batch.isSome ∧ message.closesBatch = batch then .closes
      else if batch.isSome ∧ message.tag (ascii "batch") = batch then
        .adds ⟨page.lines + 1, message.anchor <|> page.lastAnchor⟩
      else .adds page

/-- Read until the batch of history is closed. -/
def readPage (answers : Answers) (limit : ℕ) :
    ℕ → Option Bytes → HistoryPage → List ClientEvent → Connection →
      Except IoError (Except HistoryRefusal HistoryPage × List ClientEvent × Connection)
  | 0, _, _, _, _ => .error .timedOut
  | patience + 1, batch, page, events, c => do
    let (message, events, c) ← c.nextJoinEvent answers events limit
      (ascii "closed during CHATHISTORY playback")
    match message with
    | none => readPage answers limit patience batch page events c
    | some message =>
      match page.line batch message with
      | .refuses refusal => .ok (.error refusal, events, c)
      | .opens opened => readPage answers limit patience (some opened) page events c
      | .closes => .ok (.ok page, events, c)
      | .adds page => readPage answers limit patience batch page (events ++ [.message message]) c

/-- Ask for at most `count` lines and read them.  The inner error is the server's
refusal, which leaves the connection as good as before. -/
def historyPage (answers : Answers) (patience : ℕ) (request : Request) (count : ℕ)
    (events : List ClientEvent) (c : Connection) :
    Except IoError (Except HistoryRefusal HistoryPage × List ClientEvent × Connection) := do
  let c ← c.sendLine answers request
  readPage answers (events.length + count + maxJoinBurstLines) patience none ⟨0, none⟩ events c

inductive HistoryCoverage
  | noHistory | latest | allUnread | unreadBeyondLoaded
deriving DecidableEq, Repr

structure JoinedHistory where
  events : List ClientEvent
  coverage : HistoryCoverage
  refusal : Option HistoryRefusal
deriving DecidableEq, Repr

def latestPage (answers : Answers) (patience : ℕ) (target : Bytes) (count : ℕ)
    (events : List ClientEvent) (c : Connection) : Except IoError (JoinedHistory × Connection) := do
  let count := c.historyRequestSize count
  let (page, events, c) ← historyPage answers patience (.latest target count) count events c
  match page with
  | .error refusal => .ok (⟨events, .noHistory, some refusal⟩, c)
  | .ok _ => .ok (⟨events, .latest, none⟩, c)

/-- Load the lines after `anchor` page by page until one comes back short; the first
argument is how many pages may still be asked for. -/
def loadUnread (answers : Answers) (patience : ℕ) (target : Bytes) (pageLines maxLines : ℕ) :
    ℕ → Anchor → ℕ → List ClientEvent → Connection → Except IoError (JoinedHistory × Connection)
  | 0, _, _, events, c => .ok (⟨events, .unreadBeyondLoaded, none⟩, c)
  | pages + 1, anchor, loaded, events, c =>
    let wanted := c.historyRequestSize (min pageLines (maxLines - loaded))
    if wanted = 0 then .ok (⟨events, .unreadBeyondLoaded, none⟩, c)
    else do
      let (page, events, c) ←
        historyPage answers patience (.after target anchor wanted) wanted events c
      match page with
      | .error refusal => .ok (⟨events, .unreadBeyondLoaded, some refusal⟩, c)
      | .ok page =>
        if page.lines < wanted then .ok (⟨events, .allUnread, none⟩, c)
        else
          match page.lastAnchor with
          | some next =>
            loadUnread answers patience target pageLines maxLines pages next (loaded + page.lines)
              events c
          | none => .ok (⟨events, .unreadBeyondLoaded, none⟩, c)

inductive HistoryRequest
  | latest (count : ℕ)
  | unread (pageLines maxLines : ℕ)
deriving DecidableEq, Repr

/-- Join, and load the history asked for. -/
def joinAndReplay (answers : Answers) (patience : ℕ) (target : Bytes) (request : HistoryRequest)
    (c : Connection) : Except IoError (JoinedHistory × Connection) := do
  let (marker, events, c) ← confirmJoin answers patience target c
  match request with
  | .latest count =>
    if count = 0 then .ok (⟨events, .noHistory, none⟩, c)
    else latestPage answers patience target count events c
  | .unread pageLines maxLines =>
    if pageLines = 0 then .ok (⟨events, .noHistory, none⟩, c)
    else
      match marker with
      | some marker =>
        loadUnread answers patience target pageLines maxLines maxHistoryPages (.marker marker) 0
          events c
      | none => latestPage answers patience target pageLines events c

def joinWithHistory (answers : Answers) (patience : ℕ) (target : Bytes) (pageLines maxLines : ℕ)
    (c : Connection) : Except IoError (JoinedHistory × Connection) :=
  joinAndReplay answers patience target (.unread pageLines maxLines) c

end E6irc.Client
