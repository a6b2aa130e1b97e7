import E6irc.Base.Bytes
import E6irc.Base.Run
import E6irc.Queue.Account

/-!
# One session's link, in process

`e6irc-edge/src/link.rs`: the core's end of a session keeps the send-queue bound
where it decides what to send, and the edge's end drains the buffer and reports
what it wrote.  The core counts a line in flight from the moment it sends it
until it is reported written; the buffer is a queue of its own, bounded by the
same capacity and admitting by the same rule.

The byte counts of both ends are `u64`; a session that would exhaust one panics.
-/

namespace E6irc.Edge

open Base Queue

/-- One line as sent, its CRLF included. -/
structure Output where
  bytes : Bytes
  length_le : bytes.length ≤ usizeMax
deriving DecidableEq

/-- The bytes a line holds against its session's bound. -/
def weight (output : Output) : ℕ :=
  output.bytes.length

/-- The bound a session is opened with. -/
structure SendqBytes where
  bytes : ℕ
  pos : 0 < bytes
  le : bytes ≤ usizeMax

/-- The edge's buffer. -/
def SendqBytes.buffer (sendq : SendqBytes) : Queue.Shared Output where
  capacity := sendq.bytes
  policy := .fifo
  weigh := weight
  capacity_pos := sendq.pos
  capacity_le := sendq.le
  watermarks := by simp
  weigh_le line := line.length_le

inductive Sent
  | buffered | edgeGone
deriving DecidableEq, Repr

inductive OutputRefused
  | overBound | edgeOverrun
deriving DecidableEq, Repr

/-- Whether the core's end is in use, has sent its `Kill`, or is dropped. -/
inductive CoreEnd
  | live | killed | dropped
deriving DecidableEq, Repr

structure Session where
  buffer : Queue.State Output := {}
  core : CoreEnd := .live
  /-- Every byte sent that the buffer took. -/
  sent : ℕ := 0
  /-- The bytes reported written, as both ends share them. -/
  written : ℕ := 0
  killedAt : Option ℕ := none
  /-- The edge's own counts of what it took and reported. -/
  edgeTaken : ℕ := 0
  edgeWritten : ℕ := 0
  /-- What `output` answered, and the lines it sent. -/
  answers : List (Except OutputRefused Sent) := []
  admitted : List Output := []
  /-- The lines the edge took out of the buffer. -/
  taken : List Output := []
  /-- What a `Kill` discarded, and its line. -/
  discarded : List Output := []
  final : Option Output := none
deriving DecidableEq

inductive Event
  | output (line : Output)
  | take (waker : Waker)
  | tryTake
  | written (bytes : ℕ)
  | kill (line : Output)
  | dropCore
deriving DecidableEq

namespace Session

variable (sendq : SendqBytes) (s : Session)

/-- Bytes sent and not yet reported written; `none` is an underflow. -/
def inFlight : Option ℕ :=
  if s.written ≤ s.sent then some (s.sent - s.written) else none

def output (line : Output) : Option (Except OutputRefused Sent × Session) := do
  let inFlight ← s.inFlight
  if !fits inFlight (weight line) sendq.bytes then
    some (.error .overBound, s)
  else
    let push := sendq.buffer.tryPush s.buffer line
    match push.1 with
    | .ok _ =>
      guard (s.sent + weight line < 2 ^ 64)
      some (.ok .buffered, { s with
        buffer := push.2.2
        sent := s.sent + weight line
        admitted := s.admitted ++ [line] })
    | .error (.closed _) => some (.ok .edgeGone, { s with buffer := push.2.2 })
    | .error (.full _) => some (.error .edgeOverrun, { s with buffer := push.2.2 })

/-- An emptied buffer that is full would be unreachable: `none`. -/
def kill (line : Output) : Option Session :=
  let queued := sendq.buffer.takeQueued s.buffer
  let push := sendq.buffer.tryPush queued.2.2 line
  let killed := { s with
    buffer := push.2.2
    core := .killed
    discarded := queued.1 }
  match push.1 with
  | .ok sequence => some { killed with
      killedAt := some (s.killedAt.getD sequence)
      final := some line }
  | .error (.closed _) => some killed
  | .error (.full _) => none

/-- The edge counts a line it took. -/
def took (buffer : Queue.State Output) : Option (Envelope Output) → Option Session
  | none => some { s with buffer }
  | some envelope => do
      guard (s.edgeTaken + weight envelope.payload < 2 ^ 64)
      some { s with
        buffer
        edgeTaken := s.edgeTaken + weight envelope.payload
        taken := s.taken ++ [envelope.payload] }

def report (bytes : ℕ) : Option Session := do
  guard (s.edgeWritten + bytes ≤ s.edgeTaken)
  some { s with
    edgeWritten := s.edgeWritten + bytes
    written := s.written + bytes }

def step : Event → Option Session
  | .output line => do
      guard (s.core = .live)
      let sending ← s.output sendq line
      some { sending.2 with answers := s.answers ++ [sending.1] }
  | .take waker =>
    let pop := sendq.buffer.pollPop s.buffer waker
    s.took pop.2.2 pop.1.join
  | .tryTake =>
    let pop := sendq.buffer.tryPop s.buffer
    s.took pop.2.2 pop.1
  | .written bytes => s.report bytes
  | .kill line => do
      guard (s.core = .live)
      s.kill sendq line
  | .dropCore => do
      guard (s.core ≠ .dropped)
      some { s with core := .dropped, buffer := s.buffer.dropSender.2 }

end Session

/-- A session as `session` opens it. -/
def session (sendq : SendqBytes) : System Session Event where
  init := {}
  step s e := s.step sendq e

end E6irc.Edge
