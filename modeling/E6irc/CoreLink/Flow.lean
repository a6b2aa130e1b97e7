import E6irc.CoreLink.Stream

/-!
# The flow of a stream's input

All three kinds of session share a stream of the core link.  A line of an IRC
session spends one of the stream's credits; a line of a bouncer attach and a
message of a live chat socket spend their own session's credit, in bytes, which
the core grants when it opens the session.  The core counts what it has read and
not yet moved on against the same bounds, and declares the edge broken when a
count goes past one.

As in `Stream`, an `Event` is one atomic piece of one task, and frames arrive in
order.  Output is left out: it neither spends nor returns a credit.
-/

namespace E6irc.CoreLink.Flow

open Base Function

inductive SessionKind
  | irc | attach | ui
deriving DecidableEq, Repr

inductive UiMessage
  | text (text : Bytes)
  | binary
deriving DecidableEq, Repr

/-- What a client sends: a line, or a message of a live chat socket. -/
inductive Item
  | line (event : LineEvent)
  | message (message : UiMessage)
deriving DecidableEq, Repr

def attachLineWeight : LineEvent → ℕ
  | .line text => text.length
  | .tooLong _ => 1

def uiMessageWeight : UiMessage → ℕ
  | .text text => text.length
  | .binary => 1

def Item.weight : Item → ℕ
  | .line event => attachLineWeight event
  | .message text => uiMessageWeight text

/-- What an item of `weight` spends, as the edge and the feeders compute it. -/
def charge32 (weight window : ℕ) : ℕ :=
  min (min weight (2 ^ 32 - 1)) window

/-- What the core counts in flight for it. -/
def charge64 (weight window : ℕ) : ℕ :=
  min (min weight (2 ^ 64 - 1)) window

/-- What a link's two ends go by: the credit its `Welcome` granted, the windows
of the other sessions (`ATTACH_INBOUND_BYTES` and `MAX_UI_MESSAGE_LEN`), what a
semaphore can hold, which sessions belong on the stream, and the kind of the port
that each connection came through. -/
structure Terms where
  lineCredit : ℕ
  attachWindow : ℕ
  uiWindow : ℕ
  maxPermits : ℕ
  placed : SessionId → Bool
  kind : SessionId → SessionKind
  attach_pos : 0 < attachWindow
  ui_pos : 0 < uiWindow
  attach_lt : attachWindow < 2 ^ 32
  ui_lt : uiWindow < 2 ^ 32

/-- The window the core gives a session of a kind; an IRC session has none. -/
def Terms.window (terms : Terms) : SessionKind → ℕ
  | .irc => 0
  | .attach => terms.attachWindow
  | .ui => terms.uiWindow

/-- `Line` and `OverlongLine` are an `input` of a line, `Message` of a message. -/
inductive EdgeFrame
  | openSession (session : SessionId) (kind : SessionKind)
  | input (session : SessionId) (item : Item)
  | closed (session : SessionId) (reason : ClosedReason)
deriving DecidableEq, Repr

/-- `Kill` and `End` are both the end of a session here. -/
inductive CoreFrame
  | endSession (session : SessionId)
  | streamCredit (lines : ℕ)
  | sessionCredit (session : SessionId) (bytes : ℕ)
deriving DecidableEq, Repr

structure SessionCredit where
  bytes : ℕ := 0
  window : ℕ := 0
deriving DecidableEq, Repr

/-- A session the core holds; `input` says that it still has its own queue. -/
structure CoreSession where
  kind : SessionKind
  input : Bool
  window : ℕ
deriving DecidableEq, Repr

inductive SessionInput
  | item (item : Item)
  | closed (reason : ClosedReason)
deriving DecidableEq, Repr

/-- `feed_attach` or `feed_ui`: its window and queue, the item it is handing over, and the
credit it has taken off the count and not yet sent. -/
structure Feeder where
  window : ℕ := 0
  stopped : Bool := false
  queue : List SessionInput := []
  handing : Option Item := none
  owed : Option ℕ := none
deriving DecidableEq, Repr

/-- Why the core declares the edge broken. -/
inductive Fault
  | misplaced | openedTwice | linesPastCredit | inputPastCredit | lineOfUi | messageOfIrc
deriving DecidableEq, Repr

structure State where
  up : Bool := true
  /-- The connections the edge has ever opened a session for, and those it still holds. -/
  registered : List SessionId := []
  live : List SessionId := []
  credit : ℕ
  credits : SessionId → SessionCredit := fun _ => {}
  /-- Pushes waiting for credit, and those that spent it and wait to send. -/
  waiting : List (SessionId × Item) := []
  sending : List (SessionId × Item) := []
  toCore : List EdgeFrame := []
  sessions : SessionId → Option CoreSession := fun _ => none
  linesInFlight : ℕ := 0
  inputInFlight : SessionId → ℕ := fun _ => 0
  feeders : SessionId → Feeder := fun _ => {}
  /-- A session the reader has opened and whose first grant it is sending. -/
  granting : Option (SessionId × ℕ) := none
  inputs : List Input := []
  current : Option Input := none
  returned : ℕ := 0
  toEdge : List CoreFrame := []
  faults : List Fault := []

namespace State

variable (terms : Terms) (s : State)

/-! ## The edge's side -/

/-- `RemoteCorePort::push` and `relay_ui` up to the credit: a line of the stream
spends one of its credits, anything else its session's, once that has a window. -/
def spend (session : SessionId) (item : Item) : Option State :=
  match terms.kind session with
  | .irc => if 0 < s.credit then some { s with credit := s.credit - 1 } else none
  | .attach | .ui =>
    let own := s.credits session
    let charge := charge32 item.weight own.window
    if own.window ≠ 0 ∧ charge ≤ own.bytes then
      some { s with
        credits := update s.credits session { own with bytes := own.bytes - charge } }
    else none

/-- `grant`: what a semaphore cannot hold ends the link. -/
def grant (held amount : ℕ) : Option ℕ :=
  if terms.maxPermits < held + amount then none else some (held + amount)

/-- `read_stream`, one frame.  A session's first grant is its window. -/
def readEdge : CoreFrame → State
  | .endSession session => { s with live := s.live.erase session }
  | .streamCredit lines =>
    match grant terms s.credit lines with
    | none => { s with up := false }
    | some credit => { s with credit }
  | .sessionCredit session amount =>
    if session ∈ s.live then
      let own := s.credits session
      let window := if own.window = 0 then amount else own.window
      match grant terms own.bytes amount with
      | none => { s with up := false }
      | some bytes => { s with credits := update s.credits session { bytes, window } }
    else s

/-! ## The core's side -/

def broken (fault : Fault) : State :=
  { s with faults := s.faults ++ [fault] }

/-- `SessionStream::open`; `refused` says that the core turns the session away.
An attach or live chat session gets its queue, its feeder and its first grant. -/
def openSession (session : SessionId) (kind : SessionKind) (refused : Bool) : State :=
  if !terms.placed session then s.broken .misplaced
  else if (s.sessions session).isSome then s.broken .openedTwice
  else if refused then { s with toEdge := s.toEdge ++ [.endSession session] }
  else
    match kind with
    | .irc =>
      { s with
        inputs := s.inputs ++ [.openInput session]
        sessions := update s.sessions session (some ⟨.irc, false, 0⟩) }
    | .attach | .ui =>
      let window := terms.window kind
      { s with
        sessions := update s.sessions session (some ⟨kind, true, window⟩)
        inputInFlight := update s.inputInFlight session 0
        feeders := update s.feeders session { window }
        granting := some (session, window) }

/-- A feeder takes in an input unless it has stopped. -/
def feed (session : SessionId) (input : SessionInput) : State :=
  let feeder := s.feeders session
  if feeder.stopped then s
  else { s with
    feeders := update s.feeders session { feeder with queue := feeder.queue ++ [input] } }

/-- `SessionStream::session_input`. -/
def sessionInput (session : SessionId) (held : CoreSession) (item : Item) : State :=
  let inFlight := s.inputInFlight session + charge64 item.weight held.window
  let s := { s with inputInFlight := update s.inputInFlight session inFlight }
  if held.window < inFlight then s.broken .inputPastCredit
  else if held.input then s.feed session (.item item)
  else s

/-- `SessionStream::input` and `SessionStream::message`. -/
def input (session : SessionId) (item : Item) : State :=
  match s.sessions session with
  | none => s
  | some held =>
    match item, held.kind with
    | .line event, .irc =>
      let inFlight := s.linesInFlight + 1
      let s := { s with linesInFlight := inFlight }
      if terms.lineCredit < inFlight then s.broken .linesPastCredit
      else { s with inputs := s.inputs ++ [.framed session event] }
    | .line _, .attach => s.sessionInput session held item
    | .line _, .ui => s.broken .lineOfUi
    | .message _, .ui => s.sessionInput session held item
    | .message _, _ => s.broken .messageOfIrc

/-- `SessionStream::closed`: with the writer gone the session is over, otherwise
only its input is.  An IRC session, and one whose own queue is gone, tells the
shard. -/
def closed (session : SessionId) (reason : ClosedReason) : State :=
  match s.sessions session with
  | none => s
  | some held =>
    let toShard := { s with inputs := s.inputs ++ [.closed session reason] }
    if held.kind = .ui ∨ reason.writerGone then
      let told :=
        if held.kind = .irc then toShard
        else if held.input then s.feed session (.closed reason)
        else s
      { told with sessions := update told.sessions session none }
    else if held.input then
      let told := s.feed session (.closed reason)
      { told with
        sessions := update told.sessions session (some { held with input := false }) }
    else toShard

/-- `SessionStream::read`, one frame. -/
def readCore (refused : Bool) : EdgeFrame → State
  | .openSession session kind => s.openSession terms session kind refused
  | .input session item => s.input terms session item
  | .closed session reason => s.closed session reason

/-- The end of one round of `push_lines`. -/
def pushed (input : Input) : State :=
  let s := { s with current := none }
  if input.isLine then
    let returned := s.returned + 1
    let s := { s with linesInFlight := s.linesInFlight - 1, returned }
    if max (terms.lineCredit / 4) 1 ≤ returned ∨ s.inputs = [] then
      { s with toEdge := s.toEdge ++ [.streamCredit returned], returned := 0 }
    else s
  else s

/-- A feeder has handed its item over: it is off the count, and its credit owed. -/
def handed (session : SessionId) (item : Item) : State :=
  let charge := charge32 item.weight (s.feeders session).window
  { s with
    inputInFlight := update s.inputInFlight session (s.inputInFlight session - charge)
    feeders := update s.feeders session
      { s.feeders session with handing := none, owed := some charge } }

end State

/-! ## Steps -/

inductive Event
  /-- `RemoteCorePort::open`: a new connection is registered, and said to be open. -/
  | register (session : SessionId)
  /-- A push starts, takes its credit, enqueues its frame, or is dropped. -/
  | push (session : SessionId) (item : Item)
  | acquire (session : SessionId) (item : Item)
  | send (session : SessionId) (item : Item)
  | dropWaiting (session : SessionId) (item : Item)
  | dropSending (session : SessionId) (item : Item)
  | tellClosed (session : SessionId) (reason : ClosedReason)
  /-- The edge holds the session no longer: its writer is done, or was overrun. -/
  | letGo (session : SessionId)
  | readEdge
  | readCore (refused : Bool)
  /-- The reader's first grant of the session it just opened. -/
  | grant
  /-- A session's pump tells the edge of its end, and removes it. -/
  | endSession (session : SessionId)
  | removeSession (session : SessionId)
  /-- `push_lines` takes an input, and has handed it over. -/
  | take
  | handedOver
  /-- A feeder takes an input, hands its item over, sends the credit, or cannot
  hand it over and stops. -/
  | feedTake (session : SessionId)
  | feedHanded (session : SessionId)
  | feedCredit (session : SessionId)
  | feedStop (session : SessionId)
deriving DecidableEq, Repr

/-- A connection sends lines, or messages if it is a live chat socket. -/
def SessionKind.sends : SessionKind → Item → Bool
  | .ui, .message _ => true
  | .irc, .line _ | .attach, .line _ => true
  | _, _ => false

namespace State

/-- The feeder's next input: an item to hand over, or the end. -/
def feedTake (s : State) (session : SessionId) : Option State :=
  let feeder := s.feeders session
  match feeder.queue with
  | [] => none
  | .item item :: rest => some { s with
      feeders := update s.feeders session
        { feeder with queue := rest, handing := some item } }
  | .closed _ :: rest => some { s with
      feeders := update s.feeders session { feeder with queue := rest, stopped := true } }

def step (terms : Terms) (s : State) (event : Event) : Option State := do
  guard s.up
  match event with
  | .register session =>
    guard (session ∉ s.registered)
    some { s with
      registered := session :: s.registered
      live := session :: s.live
      toCore := s.toCore ++ [.openSession session (terms.kind session)] }
  | .push session item =>
    guard (session ∈ s.live ∧ (terms.kind session).sends item)
    some { s with waiting := s.waiting ++ [(session, item)] }
  | .acquire session item =>
    guard ((session, item) ∈ s.waiting)
    let spent ← s.spend terms session item
    some { spent with
      waiting := s.waiting.erase (session, item)
      sending := s.sending ++ [(session, item)] }
  | .send session item =>
    guard ((session, item) ∈ s.sending)
    some { s with
      sending := s.sending.erase (session, item)
      toCore := s.toCore ++ [.input session item] }
  | .dropWaiting session item =>
    guard ((session, item) ∈ s.waiting)
    some { s with waiting := s.waiting.erase (session, item) }
  | .dropSending session item =>
    guard ((session, item) ∈ s.sending)
    some { s with sending := s.sending.erase (session, item) }
  | .tellClosed session reason => some { s with toCore := s.toCore ++ [.closed session reason] }
  | .letGo session => some { s with live := s.live.erase session }
  | .readEdge =>
    match s.toEdge with
    | [] => none
    | frame :: rest => some ({ s with toEdge := rest }.readEdge terms frame)
  | .readCore refused =>
    guard (s.granting = none)
    match s.toCore with
    | [] => none
    | frame :: rest => some ({ s with toCore := rest }.readCore terms refused frame)
  | .grant =>
    let granting ← s.granting
    some { s with
      granting := none
      toEdge := s.toEdge ++ [.sessionCredit granting.1 granting.2] }
  | .endSession session => some { s with toEdge := s.toEdge ++ [.endSession session] }
  | .removeSession session => some { s with sessions := update s.sessions session none }
  | .take =>
    guard (s.current = none)
    match s.inputs with
    | [] => none
    | input :: rest => some { s with current := some input, inputs := rest }
  | .handedOver =>
    let input ← s.current
    some (s.pushed terms input)
  | .feedTake session =>
    guard ((s.feeders session).stopped = false ∧ (s.feeders session).handing = none ∧
      (s.feeders session).owed = none)
    s.feedTake session
  | .feedHanded session =>
    let item ← (s.feeders session).handing
    some (s.handed session item)
  | .feedCredit session =>
    let owed ← (s.feeders session).owed
    some { s with
      feeders := update s.feeders session { s.feeders session with owed := none }
      toEdge := s.toEdge ++ [.sessionCredit session owed] }
  | .feedStop session =>
    guard (s.feeders session).handing.isSome
    some { s with
      feeders := update s.feeders session
        { s.feeders session with stopped := true, handing := none } }

end State

/-- The stream as a system: the edge starts with all of its credit. -/
def flow (terms : Terms) : System State Event where
  init := { credit := terms.lineCredit }
  step := State.step terms

end E6irc.CoreLink.Flow
