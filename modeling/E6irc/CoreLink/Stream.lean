import E6irc.Base.Bytes
import E6irc.Base.Run

/-!
# One session stream of the core link

An edge process carries its IRC clients to the core over a stream
(`e6irc-edge/src/core_link/remote.rs`, `e6ircd/src/edge_link.rs`).  Each line
spends one of the stream's credits; the core returns credits as it moves lines
into the shard's queue.  The parties run concurrently: an `Event` is one atomic
piece of one of their tasks, and frames of each direction arrive in order.

`total` follows every credit the `Welcome` granted: held by the semaphore, spent
on a line somewhere on its way, or on its way back.  `total_step` says which
events lose one.
-/

namespace E6irc.CoreLink

open Base

abbrev SessionId := ℕ

inductive LineEvent
  | line (text : Bytes)
  | tooLong (label : Option Bytes)
deriving DecidableEq, Repr

inductive WriteFailure
  | transport | stalled
deriving DecidableEq, Repr

/-- Why the client's side of a session ended. -/
inductive ClosedReason
  | byClient
  | readFailed (text : Bytes)
  | messageTooBig
  | writeFailed (failure : WriteFailure)
  | writerPanicked
  | stopped (text : Bytes)
deriving DecidableEq, Repr

/-- The edge's writer is gone with the client's side. -/
def ClosedReason.writerGone : ClosedReason → Bool
  | .writeFailed _ | .writerPanicked => true
  | _ => false

inductive EdgeFrame
  | openSession (session : SessionId)
  | line (session : SessionId) (text : Bytes)
  | overlongLine (session : SessionId) (label : Option Bytes)
  | closed (session : SessionId) (reason : ClosedReason)
  | drained (session : SessionId) (bytes : ℕ)
deriving DecidableEq, Repr

inductive CoreFrame
  | output (session : SessionId) (bytes : Bytes)
  | kill (session : SessionId) (line : Bytes)
  | endSession (session : SessionId)
  | floodExempt (session : SessionId) (exempt : Bool)
  | credit (lines : ℕ)
deriving DecidableEq, Repr

/-- What the stream hands to the shard. -/
inductive Input
  | openInput (conn : SessionId)
  | line (conn : SessionId) (text : Bytes)
  | overlongLine (conn : SessionId) (label : Option Bytes)
  | closed (conn : SessionId) (reason : ClosedReason)
deriving DecidableEq, Repr

def LineEvent.frame (session : SessionId) : LineEvent → EdgeFrame
  | .line text => .line session text
  | .tooLong label => .overlongLine session label

/-- `Input::framed`. -/
def Input.framed (conn : SessionId) : LineEvent → Input
  | .line text => .line conn text
  | .tooLong label => .overlongLine conn label

def Input.isLine : Input → Bool
  | .line _ _ | .overlongLine _ _ => true
  | _ => false

@[simp] theorem Input.isLine_framed (conn : SessionId) (event : LineEvent) :
    (Input.framed conn event).isLine = true := by
  cases event <;> rfl

/-- What the core's `Welcome` fixed: the credit of the stream, which session
identifiers are in the edge's slot and on this stream, and what a semaphore can
hold. -/
structure Terms where
  lineCredit : ℕ
  placed : SessionId → Bool
  maxPermits : ℕ

structure Stream where
  up : Bool
  /-- The edge's sessions. -/
  live : List SessionId
  /-- The edge's stream semaphore. -/
  credit : ℕ
  /-- Pushes waiting for a credit. -/
  waiting : List (SessionId × LineEvent)
  /-- Pushes that spent a credit and wait to enqueue their frame. -/
  sending : List (SessionId × LineEvent)
  toCore : List EdgeFrame
  /-- The sessions the core holds for the edge. -/
  sessions : List SessionId
  linesInFlight : ℕ
  /-- Pumps running, and pumps that sent their last frame. -/
  pumps : List SessionId
  ending : List SessionId
  /-- The queue of `push_lines`, the input it is handing to the shard, and the
  credits it has not yet returned. -/
  inputs : List Input
  current : Option Input
  returned : ℕ
  toEdge : List CoreFrame
deriving DecidableEq, Repr

namespace Stream

def init (terms : Terms) : Stream :=
  ⟨true, [], terms.lineCredit, [], [], [], [], 0, [], [], [], none, 0, []⟩

/-- The link ends: the peer broke the protocol, or a connection was lost. -/
def broken (s : Stream) : Stream := { s with up := false }

/-! ## The core's side -/

/-- `SessionStream::open`.  A session may be refused (over the per-address limit,
or an upgrade not authorized) with a closing line. -/
def openSession (terms : Terms) (s : Stream) (session : SessionId) (refusal : Option Bytes) :
    Stream :=
  if !terms.placed session then s.broken
  else if session ∈ s.sessions then s.broken
  else
    match refusal with
    | some line => { s with toEdge := s.toEdge ++ [.kill session line] }
    | none =>
      { s with
        inputs := s.inputs ++ [.openInput session]
        sessions := session :: s.sessions
        pumps := session :: s.pumps }

/-- `SessionStream::input`: a line of a session's client. -/
def input (terms : Terms) (s : Stream) (session : SessionId) (event : LineEvent) : Stream :=
  if session ∈ s.sessions then
    let inFlight := s.linesInFlight + 1
    if terms.lineCredit < inFlight then { s with linesInFlight := inFlight }.broken
    else { s with linesInFlight := inFlight, inputs := s.inputs ++ [.framed session event] }
  else s

/-- `SessionStream::closed`: when the edge's writer is gone the session is over,
otherwise only its input is. -/
def closed (s : Stream) (session : SessionId) (reason : ClosedReason) : Stream :=
  if session ∈ s.sessions then
    let sessions := if reason.writerGone then s.sessions.erase session else s.sessions
    { s with sessions, inputs := s.inputs ++ [.closed session reason] }
  else s

/-- `SessionStream::read`, one frame.  `Drained` goes to the session's pump,
whose complaint about it is a `linkLost`. -/
def readCore (terms : Terms) (s : Stream) (refusal : Option Bytes) : EdgeFrame → Stream
  | .openSession session => s.openSession terms session refusal
  | .line session text => s.input terms session (.line text)
  | .overlongLine session label => s.input terms session (.tooLong label)
  | .closed session reason => s.closed session reason
  | .drained _ _ => s

/-- The end of one round of `push_lines`, the input handed over: a line's credit
is counted, and the count sent once a batch is full or nothing is waiting. -/
def pushed (terms : Terms) (s : Stream) (input : Input) : Stream :=
  let s := { s with current := none }
  if input.isLine then
    let returned := s.returned + 1
    let s := { s with linesInFlight := s.linesInFlight - 1, returned }
    if max (terms.lineCredit / 4) 1 ≤ returned ∨ s.inputs = [] then
      { s with toEdge := s.toEdge ++ [.credit returned], returned := 0 }
    else s
  else s

/-! ## The edge's side -/

/-- `read_stream`, one frame.  Output past the edge's send-queue bound ends the
session on both sides; a grant past what a semaphore can hold ends the link. -/
def readEdge (terms : Terms) (s : Stream) (overrun : Bool) : CoreFrame → Stream
  | .output session _ =>
    if session ∈ s.live ∧ overrun then
      { s with
        live := s.live.erase session
        toCore := s.toCore ++ [.closed session (.stopped (ascii "edge send queue overrun"))] }
    else s
  | .kill session _ => { s with live := s.live.erase session }
  | .endSession session => { s with live := s.live.erase session }
  | .floodExempt _ _ => s
  | .credit lines =>
    if terms.maxPermits < s.credit + lines then s.broken
    else { s with credit := s.credit + lines }

end Stream

/-! ## Steps -/

inductive Event
  /-- `RemoteCorePort::open`: the edge registers a session and says so. -/
  | register (session : SessionId)
  /-- `RemoteCorePort::push` starts, takes its credit, enqueues its frame. -/
  | push (session : SessionId) (event : LineEvent)
  | acquire (session : SessionId) (event : LineEvent)
  | send (session : SessionId) (event : LineEvent)
  /-- The connection stops reading and drops its push where it waits. -/
  | dropWaiting (session : SessionId) (event : LineEvent)
  | dropSending (session : SessionId) (event : LineEvent)
  /-- `RemoteCorePort::closed`, and what the edge's writer reports. -/
  | tellClosed (session : SessionId) (reason : ClosedReason)
  | tellDrained (session : SessionId) (bytes : ℕ)
  | writerDone (session : SessionId)
  | readEdge (overrun : Bool)
  | readCore (refusal : Option Bytes)
  /-- A session's pump: a line of output, the closing one or not, the end of the
  session, which it then removes, or that the edge's writer is gone. -/
  | pumpOutput (session : SessionId) (bytes : Bytes) (final : Bool)
  | pumpFloodExempt (session : SessionId) (exempt : Bool)
  | pumpEnd (session : SessionId)
  | pumpRemove (session : SessionId)
  | pumpGone (session : SessionId)
  /-- `push_lines` takes an input, and has handed it over. -/
  | take
  | handedOver
  | linkLost
deriving DecidableEq, Repr

namespace Stream

/-- The stream after an event, if the link is up and the event can happen. -/
def step (terms : Terms) (s : Stream) (event : Event) : Option Stream := do
  guard s.up
  match event with
  | .register session =>
    guard (session ∉ s.live)
    some { s with live := session :: s.live, toCore := s.toCore ++ [.openSession session] }
  | .push session event =>
    guard (session ∈ s.live)
    some { s with waiting := s.waiting ++ [(session, event)] }
  | .acquire session event =>
    guard ((session, event) ∈ s.waiting ∧ 0 < s.credit)
    some { s with
      waiting := s.waiting.erase (session, event)
      credit := s.credit - 1
      sending := s.sending ++ [(session, event)] }
  | .send session event =>
    guard ((session, event) ∈ s.sending)
    some { s with
      sending := s.sending.erase (session, event)
      toCore := s.toCore ++ [event.frame session] }
  | .dropWaiting session event =>
    guard ((session, event) ∈ s.waiting)
    some { s with waiting := s.waiting.erase (session, event) }
  | .dropSending session event =>
    guard ((session, event) ∈ s.sending)
    some { s with sending := s.sending.erase (session, event) }
  | .tellClosed session reason => some { s with toCore := s.toCore ++ [.closed session reason] }
  | .tellDrained session bytes => some { s with toCore := s.toCore ++ [.drained session bytes] }
  | .writerDone session => some { s with live := s.live.erase session }
  | .readEdge overrun =>
    match s.toEdge with
    | [] => none
    | frame :: rest => some ({ s with toEdge := rest }.readEdge terms overrun frame)
  | .readCore refusal =>
    match s.toCore with
    | [] => none
    | frame :: rest => some ({ s with toCore := rest }.readCore terms refusal frame)
  | .pumpOutput session bytes final =>
    guard (session ∈ s.pumps)
    some { s with
      toEdge := s.toEdge ++ [if final then .kill session bytes else .output session bytes] }
  | .pumpFloodExempt session exempt =>
    guard (session ∈ s.pumps)
    some { s with toEdge := s.toEdge ++ [.floodExempt session exempt] }
  | .pumpEnd session =>
    guard (session ∈ s.pumps)
    some { s with
      pumps := s.pumps.erase session
      ending := session :: s.ending
      toEdge := s.toEdge ++ [.endSession session] }
  | .pumpRemove session =>
    guard (session ∈ s.ending)
    some { s with ending := s.ending.erase session, sessions := s.sessions.erase session }
  | .pumpGone session =>
    guard (session ∈ s.pumps ∧ session ∉ s.sessions)
    some { s with pumps := s.pumps.erase session }
  | .take =>
    guard (s.current = none)
    match s.inputs with
    | [] => none
    | input :: rest => some { s with current := some input, inputs := rest }
  | .handedOver =>
    match s.current with
    | none => none
    | some input => some (s.pushed terms input)
  | .linkLost => some s.broken

end Stream

/-- The stream as a system: the edge starts with all the credit. -/
def stream (terms : Terms) : System Stream Event where
  init := .init terms
  step := Stream.step terms

end E6irc.CoreLink
