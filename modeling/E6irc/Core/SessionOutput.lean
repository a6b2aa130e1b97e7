import E6irc.Base.Run
import E6irc.Proto.Message

/-!
# The output of one connection

The output helpers of `core/state.rs` and the framing of labeled responses of
`core/handler/mod.rs`, for one connection.  A command's direct replies are
captured when it is labeled; what it leaves to asynchronous paths is answered
later, in any order.  Ordinary output is held while a deferred reply is
outstanding; the reply being emitted goes past the hold.

A connection whose held output would pass its bound is doomed and does nothing
more here.  The send queue itself is taken to be drained in time.
-/

namespace E6irc.Output

open Base

/-- What does not change while the connection lives. -/
structure Config where
  serverName : Bytes
  sendqBytes : ℕ
  /-- `next_msgid`: the reference of the n-th batch. -/
  msgid : ℕ → Bytes

/-! ## Framing -/

def crlf : Bytes := [13, 10]

/-- `WireLine::sanitized`: unsafe bytes before the trailing CRLF become spaces. -/
def sanitized (line : Bytes) : Bytes :=
  let stop := if crlf <:+ line then line.length - 2 else line.length
  (line.take stop).map (fun b => if b = 13 ∨ b = 10 ∨ b = 0 then byte ' ' else b) ++ line.drop stop

/-- Put a tag in front of a serialized line, merging it with any tags there are. -/
def injectTag (line tag : Bytes) : Bytes :=
  match line.take (line.length - 2) with
  | [] => byte '@' :: tag ++ byte ' ' :: crlf
  | first :: rest =>
    if first = byte '@' then byte '@' :: tag ++ byte ';' :: rest ++ crlf
    else byte '@' :: tag ++ byte ' ' :: first :: rest ++ crlf

/-- What is left of the reversed text once every CRLF at its start is gone. -/
def dropCrlfs : Bytes → Bytes
  | 10 :: 13 :: rest => dropCrlfs rest
  | text => text

/-- The reference of a serialized `BATCH <sign><ref> …` line. -/
def batchCommandRef (line : Bytes) (sign : UInt8) : Option Bytes :=
  match Message.parse (dropCrlfs line.reverse).reverse with
  | .error _ => none
  | .ok message =>
    if toAsciiUppercase message.command = ascii "BATCH" then
      match message.params with
      | (first :: reference) :: _ => if first = sign ∧ reference ≠ [] then some reference else none
      | _ => none
    else none

/-- The lines are already one batch. -/
def isSelfContainedBatch (lines : List Bytes) : Bool :=
  match lines.head?, lines.getLast? with
  | some first, some last =>
    match batchCommandRef first (byte '+'), batchCommandRef last (byte '-') with
    | some opened, some closed => opened == closed
    | _, _ => false
  | _, _ => false

def labeledBatchOpen (server label batchRef : Bytes) : Bytes :=
  ascii "@label=" ++ label ++ ascii " :" ++ server ++ ascii " BATCH +" ++ batchRef ++
    ascii " labeled-response"

/-- The one response to a labeled command: an ACK, one tagged line or one batch. -/
def frameLabeled (server label batchRef : Bytes) (lines : List Bytes) : List Bytes :=
  match lines with
  | [] => [ascii "@label=" ++ label ++ ascii " :" ++ server ++ ascii " ACK" ++ crlf]
  | [line] => [injectTag line (ascii "label=" ++ label)]
  | first :: rest =>
    if isSelfContainedBatch lines then injectTag first (ascii "label=" ++ label) :: rest
    else
      (labeledBatchOpen server label batchRef ++ crlf) ::
        lines.map (injectTag · (ascii "batch=" ++ batchRef)) ++
          [ascii ":" ++ server ++ ascii " BATCH -" ++ batchRef ++ crlf]

/-! ## The session's output -/

/-- The one response to a labeled command that is answered in several pieces. -/
structure LabelGroup where
  outstanding : ℕ
  lines : List Bytes
deriving DecidableEq, Repr

/-- The fields of a session that its output goes through; `written` is all that
was ever queued for the client. -/
structure Session where
  deferredReplies : ℕ
  held : List Bytes
  labelGroups : Bytes → Option LabelGroup
  written : List Bytes
  doomed : Bool
  msgids : ℕ

/-- What a labeled command has left when its handler returns. -/
structure Capture where
  label : Bytes
  lines : List Bytes
  deferrals : ℕ

namespace Session

variable (cfg : Config) (s : Session)

def heldBytes : ℕ :=
  (s.held.map List.length).sum

/-- `send_bytes_uncaptured`; `emitting` when the line is part of the deferred
reply being emitted, which the hold is waiting for. -/
def sendBytesUncaptured (emitting : Bool) (line : Bytes) : Session :=
  if !emitting && 0 < s.deferredReplies then
    if s.heldBytes + line.length > cfg.sendqBytes then { s with doomed := true }
    else { s with held := s.held ++ [line] }
  else { s with written := s.written ++ [sanitized line] }

def sendAll (emitting : Bool) (lines : List Bytes) : Session :=
  lines.foldl (fun s line => s.sendBytesUncaptured cfg emitting line) s

def deferReply : Session :=
  { s with deferredReplies := s.deferredReplies + 1 }

/-- One deferred reply has been emitted; the last one lets the held output out. -/
def releaseDeferred : Session :=
  let s := { s with deferredReplies := s.deferredReplies - 1 }
  if 0 < s.deferredReplies then s
  else { s with held := [] }.sendAll cfg false s.held

def emitDeferred (lines : List Bytes) : Session :=
  (s.sendAll cfg true lines).releaseDeferred cfg

/-- Frame a response under the next batch reference and send it. -/
def sendLabeled (emitting : Bool) (label : Bytes) (lines : List Bytes) : Session :=
  { s with msgids := s.msgids + 1 }.sendAll cfg emitting
    (frameLabeled cfg.serverName label (cfg.msgid s.msgids) lines)

/-- `none` while other pieces are outstanding, then every piece in arrival order.
A label without a group is answered by this piece alone. -/
def gatherLabeledAnswer (label : Bytes) (captured : List Bytes) :
    Session × Option (List Bytes) :=
  match s.labelGroups label with
  | none => (s, some captured)
  | some group =>
    let lines := group.lines ++ captured
    let outstanding := group.outstanding - 1
    if 0 < outstanding then
      ({ s with labelGroups := Function.update s.labelGroups label (some ⟨outstanding, lines⟩) },
        none)
    else ({ s with labelGroups := Function.update s.labelGroups label none }, some lines)

/-- A single answer frames itself; anything more is gathered under the label. -/
def awaitLabeledAnswers (capture : Capture) : Session :=
  if capture.deferrals = 0 ∨ (capture.deferrals = 1 ∧ capture.lines = []) then s
  else
    { s with
      labelGroups := Function.update s.labelGroups capture.label
        (some ⟨capture.deferrals, capture.lines⟩) }

def emitDeferredLabeled (label : Option Bytes) (lines : List Bytes) : Session :=
  match label with
  | none => s.emitDeferred cfg lines
  | some label =>
    match s.gatherLabeledAnswer label lines with
    | (s, none) => s.releaseDeferred cfg
    | (s, some lines) => (s.sendLabeled cfg true label lines).releaseDeferred cfg

/-- As `emit_deferred_labeled`, for an answer that held nothing back. -/
def emitLabeledUnheld (label : Option Bytes) (lines : List Bytes) : Session :=
  match label with
  | none => s.sendAll cfg true lines
  | some label =>
    match s.gatherLabeledAnswer label lines with
    | (s, none) => s
    | (s, some lines) => s.sendLabeled cfg true label lines

end Session

/-! ## Commands and their answers -/

/-- What a handler does with its output. -/
inductive Action
  | reply (line : Bytes)
  /-- `defer_captured_reply`. -/
  | deferReply
  /-- `defer_captured_label`. -/
  | deferLabel
deriving DecidableEq, Repr

def Action.line? : Action → Option Bytes
  | .reply line => some line
  | _ => none

def Action.isHold : Action → Bool
  | .deferReply => true
  | _ => false

def Action.isUnheld : Action → Bool
  | .deferLabel => true
  | _ => false

/-- What a handler leaves in the capture of a labeled command. -/
def Capture.of (label : Bytes) (actions : List Action) : Capture where
  label
  lines := actions.filterMap Action.line?
  deferrals := actions.countP Action.isHold + actions.countP Action.isUnheld

namespace Session

variable (cfg : Config) (s : Session)

/-- One action of a command without a label. -/
def act : Action → Session
  | .reply line => s.sendBytesUncaptured cfg false line
  | .deferReply => s.deferReply
  | .deferLabel => s

/-- `dispatch`: under a label the replies are captured and framed, now or once
the answers are in. -/
def dispatch (label : Option Bytes) (actions : List Action) : Session :=
  match label with
  | none => actions.foldl (fun s action => s.act cfg action) s
  | some label =>
    let s := { s with deferredReplies := s.deferredReplies + actions.countP Action.isHold }
    let capture := Capture.of label actions
    if 0 < capture.deferrals then s.awaitLabeledAnswers capture
    else s.sendLabeled cfg false label capture.lines

end Session

/-- A command and what has come of it: the lines it replied on the spot, those
its answers brought since, and how many answers of each kind are to come. -/
structure Command where
  label : Option Bytes
  captured : List Bytes
  deferrals : ℕ
  gathered : List Bytes
  heldLeft : ℕ
  unheldLeft : ℕ
deriving DecidableEq, Repr

namespace Command

def sent (label : Option Bytes) (actions : List Action) : Command where
  label
  captured := actions.filterMap Action.line?
  deferrals := actions.countP Action.isHold + actions.countP Action.isUnheld
  gathered := []
  heldLeft := actions.countP Action.isHold
  unheldLeft := actions.countP Action.isUnheld

def lines (c : Command) : List Bytes :=
  c.captured ++ c.gathered

def outstanding (c : Command) : ℕ :=
  c.heldLeft + c.unheldLeft

/-- An answer that held output back has come. -/
def heldAnswer (c : Command) (lines : List Bytes) : Command :=
  { c with
    gathered := c.gathered ++ lines
    heldLeft := c.heldLeft - 1 }

/-- An answer that did not has come. -/
def unheldAnswer (c : Command) (lines : List Bytes) : Command :=
  { c with
    gathered := c.gathered ++ lines
    unheldLeft := c.unheldLeft - 1 }

end Command

structure State where
  session : Session
  commands : List Command

inductive Event
  /-- A command is handled; a line the connection receives is one without label or answers. -/
  | command (label : Option Bytes) (actions : List Action)
  /-- An answer that held output back arrives for the n-th command. -/
  | answer (n : ℕ) (lines : List Bytes)
  /-- An answer that did not. -/
  | unheldAnswer (n : ℕ) (lines : List Bytes)
deriving DecidableEq, Repr

def step (cfg : Config) (s : State) : Event → Option State
  | .command label actions => do
      guard (s.session.doomed = false)
      some
        { session := s.session.dispatch cfg label actions
          commands := s.commands ++ [.sent label actions] }
  | .answer n lines => do
      guard (s.session.doomed = false)
      let c ← s.commands[n]?
      guard (0 < c.heldLeft)
      some
        { session := s.session.emitDeferredLabeled cfg c.label lines
          commands := s.commands.set n (c.heldAnswer lines) }
  | .unheldAnswer n lines => do
      guard (s.session.doomed = false)
      let c ← s.commands[n]?
      guard (0 < c.unheldLeft)
      some
        { session := s.session.emitLabeledUnheld cfg c.label lines
          commands := s.commands.set n (c.unheldAnswer lines) }

def connection (cfg : Config) : System State Event where
  init :=
    { session := ⟨0, [], fun _ => none, [], false, 0⟩
      commands := [] }
  step := step cfg

end E6irc.Output
