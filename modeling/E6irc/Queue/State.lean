import Mathlib

/-!
# The bounded event queue

One queue of `e6irc-queue`: its state behind the lock, and each operation as
the function of that state it is while it holds the lock.  An operation also
returns the wakers it wakes once the lock is released; for producers it returns
the registrations it took out of the line, each of which holds its waker.

Weights and the load are `usize`: `load += weight` wraps, as a release build's
does, and the admission rule saturates.
-/

namespace E6irc.Queue

/-- The largest `usize`. -/
def usizeMax : ℕ := 2 ^ 64 - 1

def saturatingAdd (a b : ℕ) : ℕ :=
  min (a + b) usizeMax

def wrappingAdd (a b : ℕ) : ℕ :=
  (a + b) % 2 ^ 64

def wrappingSub (a b : ℕ) : ℕ :=
  (a + (2 ^ 64 - b)) % 2 ^ 64

inductive Policy
  | fifo
  | adaptiveLifo (highWatermark lowWatermark : ℕ)
deriving DecidableEq, Repr

inductive Mode
  | fifo | lifo
deriving DecidableEq, Repr

/-- An accepted event with its number in the order of acceptance. -/
structure Envelope (α : Type) where
  seq : ℕ
  payload : α
deriving DecidableEq, Repr

inductive PushError (α : Type)
  | full (payload : α)
  | closed (payload : α)
deriving DecidableEq, Repr

/-- The event a refused push gives back. -/
def PushError.payload {α : Type} : PushError α → α
  | .full payload | .closed payload => payload

/-- A task, as its `Waker` names it. -/
abbrev Waker := ℕ

/-- One parked producer: its place in line, the weight it waits to fit, and how to wake it. -/
structure PushWaiter where
  id : ℕ
  weight : ℕ
  waker : Waker
deriving DecidableEq, Repr

/-- The registrations that are not the one of `waiter`. -/
def PushWaiter.without (waiter : Option ℕ) (line : List PushWaiter) : List PushWaiter :=
  line.filter fun registration => waiter ≠ some registration.id

structure State (α : Type) where
  /-- Each event with the weight it was admitted at. -/
  buf : List (Envelope α × ℕ) := []
  load : ℕ := 0
  nextSeq : ℕ := 0
  mode : Mode := .fifo
  modeSwitches : ℕ := 0
  senderCount : ℕ := 1
  receiverAlive : Bool := true
  waker : Option Waker := none
  /-- Producers parked in a `push`, in arrival order. -/
  pushWakers : List PushWaiter := []
  nextPushWaiter : ℕ := 0
deriving DecidableEq, Repr

/-- What the handles of one queue share beside its state.  The conditions are
those `weighted_queue` asserts, and the ranges of a `usize`. -/
structure Shared (α : Type) where
  capacity : ℕ
  policy : Policy
  weigh : α → ℕ
  capacity_pos : 0 < capacity
  capacity_le : capacity ≤ usizeMax
  watermarks : ∀ high low, policy = .adaptiveLifo high low → low < high ∧ high ≤ capacity
  weigh_le : ∀ payload, weigh payload ≤ usizeMax

/-! ## The state behind the lock -/

/-- The one admission rule. -/
def fits (load weight capacity : ℕ) : Bool :=
  load = 0 || saturatingAdd load weight ≤ capacity

theorem fits_iff {load weight capacity : ℕ} :
    fits load weight capacity ↔ load = 0 ∨ saturatingAdd load weight ≤ capacity := by
  simp [fits]

namespace State

variable {α : Type}

def nextSequence (state : State α) : ℕ × State α :=
  (state.nextSeq, { state with nextSeq := state.nextSeq + 1 })

def admits (state : State α) (weight capacity : ℕ) : Bool :=
  fits state.load weight capacity

/-- How many producers from the front of the line fit, each counted as if the
ones ahead of it had pushed. -/
def countAdmitted (capacity : ℕ) : ℕ → List PushWaiter → ℕ
  | _, [] => 0
  | load, waiter :: rest =>
    if fits load waiter.weight capacity then
      countAdmitted capacity (saturatingAdd load waiter.weight) rest + 1
    else
      0

def takeAdmittedWaiters (state : State α) (capacity : ℕ) : List PushWaiter × State α :=
  let admitted := countAdmitted capacity state.load state.pushWakers
  (state.pushWakers.take admitted, { state with pushWakers := state.pushWakers.drop admitted })

def enqueue (state : State α) (envelope : Envelope α) (weight : ℕ) : State α :=
  { state with
    load := wrappingAdd state.load weight
    buf := state.buf ++ [(envelope, weight)] }

/-- The buffered event the mode serves next, and the others. -/
def next (mode : Mode) (buf : List (Envelope α × ℕ)) :
    Option ((Envelope α × ℕ) × List (Envelope α × ℕ)) :=
  match mode with
  | .fifo => buf.head?.map fun entry => (entry, buf.tail)
  | .lifo => buf.getLast?.map fun entry => (entry, buf.dropLast)

def dequeue (state : State α) : Option (Envelope α × State α) :=
  match next state.mode state.buf with
  | none => none
  | some ((envelope, weight), buf) =>
    some (envelope, { state with buf, load := wrappingSub state.load weight })

def updateMode (state : State α) : Policy → State α
  | .fifo => state
  | .adaptiveLifo highWatermark lowWatermark =>
    match state.mode with
    | .fifo =>
      if highWatermark ≤ state.load then
        { state with mode := .lifo, modeSwitches := state.modeSwitches + 1 }
      else
        state
    | .lifo =>
      if state.load ≤ lowWatermark then
        { state with mode := .fifo, modeSwitches := state.modeSwitches + 1 }
      else
        state

/-- Whether the registration was in the line, and the state without it. -/
def removePushWaiter (state : State α) : Option ℕ → Bool × State α
  | none => (false, state)
  | some waiter =>
    let kept := state.pushWakers.filter fun candidate => candidate.id ≠ waiter
    (kept.length ≠ state.pushWakers.length, { state with pushWakers := kept })

end State

/-! ## The parked producer -/

/-- A producer's place in the line, waiting for room for `weight`. -/
structure ParkedProducer where
  weight : ℕ
  waiter : Option ℕ := none
deriving DecidableEq, Repr

/-- A `push` in progress; the payload is gone once it has resolved. -/
structure Push (α : Type) where
  parked : ParkedProducer
  payload : Option α
deriving DecidableEq, Repr

namespace ParkedProducer

variable {α : Type}

/-- The line with a registration whose waker is refreshed, or that joins at the end. -/
def register (waiter : PushWaiter) (line : List PushWaiter) : List PushWaiter :=
  match line.findIdx? fun candidate => candidate.id = waiter.id with
  | some place => line.modify place fun candidate => { candidate with waker := waiter.waker }
  | none => line ++ [waiter]

/-- Join the line (once), or refresh the waker already in it. -/
def park (parked : ParkedProducer) (state : State α) (waker : Waker) :
    ParkedProducer × State α :=
  match parked.waiter with
  | some waiter =>
    (parked, { state with
      pushWakers := register ⟨waiter, parked.weight, waker⟩ state.pushWakers })
  | none =>
    let waiter := state.nextPushWaiter
    ({ parked with waiter := some waiter }, { state with
      nextPushWaiter := state.nextPushWaiter + 1
      pushWakers := register ⟨waiter, parked.weight, waker⟩ state.pushWakers })

/-- The wait is over: this producer got what it was in line for. -/
def served (parked : ParkedProducer) (state : State α) : ParkedProducer × State α :=
  ({ parked with waiter := none }, (state.removePushWaiter parked.waiter).2)

end ParkedProducer

/-! ## The operations -/

namespace Shared

variable {α : Type} (shared : Shared α)

def weightOf (payload : α) : ℕ :=
  max (shared.weigh payload) 1

/-- The admitted end of `try_push` and of a `Push`: the event is numbered and
buffered, and the receiver's waker taken to be woken. -/
def accept (state : State α) (payload : α) (weight : ℕ) : ℕ × Option Waker × State α :=
  let (seq, state) := state.nextSequence
  let state := (state.enqueue ⟨seq, payload⟩ weight).updateMode shared.policy
  (seq, state.waker, { state with waker := none })

def tryPush (state : State α) (payload : α) :
    Except (PushError α) ℕ × Option Waker × State α :=
  let weight := shared.weightOf payload
  if !state.receiverAlive then
    (.error (.closed payload), none, state)
  else if !state.admits weight shared.capacity then
    (.error (.full payload), none, state)
  else
    let (seq, waker, state) := shared.accept state payload weight
    (.ok seq, waker, state)

/-- What follows a change that frees room: the mode, then the line. -/
def release (state : State α) : List PushWaiter × State α :=
  (state.updateMode shared.policy).takeAdmittedWaiters shared.capacity

def takeQueued (state : State α) : List α × List PushWaiter × State α :=
  let taken := state.buf.map fun entry => entry.1.payload
  (taken, shared.release { state with buf := [], load := 0 })

def push (payload : α) : Push α where
  parked := { weight := shared.weightOf payload }
  payload := some payload

/-- One poll of a `push` that holds `payload` still; `none` is pending. -/
def pollPush (push : Push α) (payload : α) (state : State α) (waker : Waker) :
    Option (Except α ℕ) × Option Waker × Push α × State α :=
  if !state.receiverAlive then
    let (parked, state) := push.parked.served state
    (some (.error payload), none, { parked, payload := none }, state)
  else if state.admits push.parked.weight shared.capacity then
    let (parked, state) := push.parked.served state
    let (seq, receiver, state) := shared.accept state payload parked.weight
    (some (.ok seq), receiver, { parked, payload := none }, state)
  else
    let (parked, state) := push.parked.park state waker
    (none, none, { push with parked }, state)

/-- A producer no longer listed was counted against room it will not use, so
the line is offered that room again. -/
def dropParked (parked : ParkedProducer) (state : State α) : List PushWaiter × State α :=
  match parked.waiter with
  | none => ([], state)
  | some waiter =>
    let (stillParked, state) := state.removePushWaiter (some waiter)
    if stillParked then ([], state) else state.takeAdmittedWaiters shared.capacity

def tryPop (state : State α) : Option (Envelope α) × List PushWaiter × State α :=
  match state.dequeue with
  | none => (none, [], state)
  | some (envelope, state) => (some envelope, shared.release state)

/-- One poll of `pop`; `none` is pending, `some none` the end of the stream. -/
def pollPop (state : State α) (waker : Waker) :
    Option (Option (Envelope α)) × List PushWaiter × State α :=
  match state.dequeue with
  | some (envelope, state) => (some (some envelope), shared.release state)
  | none =>
    if state.senderCount = 0 then
      (some none, [], state)
    else
      (none, [], { state with waker := some waker })

end Shared

namespace State

variable {α : Type}

def cloneSender (state : State α) : State α :=
  { state with senderCount := state.senderCount + 1 }

/-- The last sender to go wakes a receiver that waits. -/
def dropSender (state : State α) : Option Waker × State α :=
  let state := { state with senderCount := state.senderCount - 1 }
  if 0 < state.senderCount then
    (none, state)
  else
    (state.waker, { state with waker := none })

def dropReceiver (state : State α) : List PushWaiter × State α :=
  (state.pushWakers, { state with receiverAlive := false, pushWakers := [] })

end State

end E6irc.Queue
