import E6irc.Base.Run
import E6irc.Client.Names
import E6irc.Proto.Time

/-!
# The terminal client's read positions

`e6irc-tui/src/app.rs` tells the server how far the user has read in a conversation
with a MARKREAD, which waits in one slot for all conversations until the writer takes
it (`main.rs`, `flush_read_marker`).  A later one takes its place, and one that the
writer gives back is put in the slot if it is empty.

`App.Displaces` is when that loses one: the slot holds the marker of one conversation
and the event brings that of another.  Nothing else does (`markers_kept_iff`).
-/

namespace E6irc.Tui

open Base Client

def scrollbackLines : ℕ := 5000

def maxBuffers : ℕ := 256

def serverBuffer : Bytes := ascii "*server*"

inductive BufferKind
  | conversation | server
deriving DecidableEq, Repr

/-- How far a buffer's read marker may advance. -/
inductive ReadHold
  | free
  | upTo (ceiling : Bytes)
  | nowhere
deriving DecidableEq, Repr

/-- A conversation, without the lines it shows. -/
structure Buffer where
  name : Bytes
  kind : BufferKind
  /-- The message ids seen, oldest first. -/
  msgids : List Bytes
  latestTime : Option Bytes
  readMarker : Option Bytes
  readHold : ReadHold
  scrolledBack : Bool
deriving DecidableEq, Repr

/-- `MARKREAD <buffer> timestamp=<latest>`. -/
structure Marker where
  buffer : Bytes
  latest : Bytes
deriving DecidableEq, Repr

namespace Buffer

def new (name : Bytes) (kind : BufferKind) : Buffer :=
  ⟨name, kind, [], none, none, .free, false⟩

/-- `none` for a message that was seen before. -/
def acceptMsgid (buffer : Buffer) : Option Bytes → Option Buffer
  | none => some buffer
  | some msgid =>
    if msgid ∈ buffer.msgids then none
    else
      let order := buffer.msgids ++ [msgid]
      some { buffer with msgids := if scrollbackLines < order.length then order.tail else order }

/-- The marker to queue: times order as text, and a position only moves forward. -/
def due (buffer : Buffer) : Option Marker := do
  let latest ← buffer.latestTime
  let latest ← match buffer.readHold with
    | .free => some latest
    | .upTo ceiling => some (if latest ≤ ceiling then latest else ceiling)
    | .nowhere => none
  if buffer.readMarker.any (latest ≤ ·) then none else some ⟨buffer.name, latest⟩

end Buffer

structure SessionStart where
  nick : Bytes
  names : NetworkNames
  readMarkers : Bool

/-- What the app shows and knows of its connection. -/
structure Screen where
  nick : Bytes
  buffers : List Buffer
  current : ℕ
  connected : Bool
  names : NetworkNames
  readMarkers : Bool

namespace Screen

def bufferIndex (screen : Screen) (name : Bytes) : Option ℕ :=
  screen.buffers.findIdx? fun buffer => screen.names.eq buffer.name name

def conversationIndex (screen : Screen) (name : Bytes) : Option ℕ :=
  (screen.bufferIndex name).filter fun index =>
    screen.buffers[index]?.any (·.kind = .conversation)

def changeBuffer (screen : Screen) (index : ℕ) (change : Buffer → Buffer) : Screen :=
  { screen with buffers := screen.buffers.modify index change }

/-- The buffer for `name`, opened if it is the first seen of it. -/
def openBuffer (screen : Screen) (name : Bytes) : Option (ℕ × Screen) :=
  match screen.bufferIndex name with
  | some index => some (index, screen)
  | none =>
    if maxBuffers ≤ screen.buffers.length then none
    else some (screen.buffers.length,
      { screen with buffers := screen.buffers ++ [.new name .conversation] })

/-- The server says something that belongs to no conversation. -/
def noteServer (screen : Screen) : Screen :=
  if screen.buffers.any (·.kind = .server) ∨ maxBuffers ≤ screen.buffers.length then screen
  else { screen with buffers := screen.buffers ++ [.new serverBuffer .server] }

def scrolledBack (screen : Screen) : Bool :=
  screen.buffers[screen.current]?.any (·.scrolledBack)

/-- `queue_current_marker`: what it puts in the slot. -/
def queueCurrentMarker (screen : Screen) : Option Marker :=
  if screen.readMarkers then screen.buffers[screen.current]?.bind Buffer.due else none

def focusCurrent (screen : Screen) : Option Marker :=
  if screen.scrolledBack then none else screen.queueCurrentMarker

/-- The conversation a message is shown in, if it belongs to one. -/
def conversationOf (screen : Screen) (source : Option Bytes) (target : Bytes) : Option Bytes :=
  let sender := ((source.map fun source => (source.splitOn (byte '!')).headD []).getD (ascii "?"))
  let channel := screen.names.conversation target
  if screen.names.isChannel channel then some channel
  else if screen.names.eq target screen.nick ∧ source.any (·.contains (byte '!')) then some sender
  else if screen.names.eq sender screen.nick then some target
  else none

/-- The time a line says it was sent at. -/
def timeOf (text : Bytes) : Option Bytes :=
  (Time.parseServerTimeMillis text).map Time.serverTime

/-- A PRIVMSG or NOTICE. -/
def onText (screen : Screen) (message : OwnedMessage) (target : Bytes) : Screen × Option Marker :=
  match screen.conversationOf message.source target with
  | none => (screen.noteServer, none)
  | some name =>
    match screen.openBuffer name with
    | none => (screen, none)
    | some (index, screen) =>
      match screen.buffers[index]?.bind fun buffer => buffer.acceptMsgid (message.tag (ascii "msgid")) with
      | none => (screen, none)
      | some accepted =>
        let time := (message.tag (ascii "time")).bind timeOf
        let screen := screen.changeBuffer index fun _ =>
          { accepted with latestTime := time.or accepted.latestTime }
        (screen, if index = screen.current ∧ screen.scrolledBack = false then screen.queueCurrentMarker
          else none)

def onMarkread (screen : Screen) (message : OwnedMessage) : Screen :=
  match message.params[0]?.bind screen.bufferIndex with
  | none => screen
  | some index =>
    let marker := message.params[1]?.bind fun value =>
      (stripFront (ascii "timestamp=") value).bind timeOf
    screen.changeBuffer index fun buffer => { buffer with readMarker := marker }

/-- A message of the server, and what it puts in the slot.  All others only show a line. -/
def onMessage (screen : Screen) (message : OwnedMessage) : Screen × Option Marker :=
  if message.command = ascii "PRIVMSG" ∨ message.command = ascii "NOTICE" then
    match message.params[0]? with
    | none => (screen, none)
    | some target => screen.onText message target
  else if message.command = ascii "JOIN" then
    (((message.params[0]?.bind screen.openBuffer).map Prod.snd).getD screen, none)
  else if message.command = ascii "NICK" then
    let sender := ((message.source.map fun source => (source.splitOn (byte '!')).headD []).getD
      (ascii "?"))
    match message.params[0]? with
    | some new => (if screen.names.eq sender screen.nick then { screen with nick := new } else screen, none)
    | none => (screen, none)
  else if message.command = ascii "MARKREAD" then (screen.onMarkread message, none)
  else if message.command = ascii "005" then
    ({ screen with names := screen.names.adoptIsupport message }, none)
  else (screen, none)

def holdReadMarker (screen : Screen) (channel : Bytes) : Screen :=
  match screen.conversationIndex channel with
  | none => screen
  | some index => screen.changeBuffer index fun buffer =>
    { buffer with readHold := ((buffer.latestTime.or buffer.readMarker).map ReadHold.upTo).getD .nowhere }

def releaseReadMarker (screen : Screen) (channel : Bytes) : Screen :=
  match screen.conversationIndex channel with
  | none => screen
  | some index => screen.changeBuffer index fun buffer => { buffer with readHold := .free }

/-- Look at another buffer. -/
def focus (screen : Screen) (index : ℕ) : Screen × Option Marker :=
  let screen := { screen with current := index }
  (screen, screen.focusCurrent)

/-- The view is scrolled back, or down to the latest line. -/
def scroll (screen : Screen) (back : Bool) : Screen × Option Marker :=
  let after := screen.changeBuffer screen.current fun buffer => { buffer with scrolledBack := back }
  (after, if screen.scrolledBack ∧ back = false then after.focusCurrent else none)

end Screen

/-! ## The slot -/

structure App where
  screen : Screen
  pendingReadMarker : Option Marker

/-- What the writer's queue says to what it is offered. -/
inductive Offer
  | taken | full | closed
deriving DecidableEq, Repr

inductive Event
  | message (message : OwnedMessage)
  /-- Something else the server says, which may open its buffer. -/
  | serverNote
  | nextBuffer
  | prevBuffer
  /-- `/win` with a buffer that there is. -/
  | window (index : ℕ)
  /-- `/join` or `/msg`. -/
  | openWindow (name : Bytes)
  | scroll (back : Bool)
  | historyGap (channel : Bytes)
  | historyCaughtUp (channel : Bytes)
  | disconnected
  | connected (start : SessionStart)
  | flush (offer : Offer)
  | readMarkerUnsent (marker : Marker)

namespace App

/-- `queue_current_marker` puts a marker in the slot, whatever it holds. -/
def queue (app : App) (after : Screen × Option Marker) : App :=
  ⟨after.1, after.2.or app.pendingReadMarker⟩

def requeueReadMarkerCommand (app : App) (marker : Marker) : App :=
  { app with pendingReadMarker := app.pendingReadMarker.or (some marker) }

def beginSession (app : App) (start : SessionStart) : App where
  screen := { app.screen with
    nick := start.nick, connected := true, names := start.names, readMarkers := start.readMarkers }
  pendingReadMarker := if start.readMarkers then app.pendingReadMarker else none

def setConnected (app : App) (connected : Bool) : App :=
  { app with screen := { app.screen with connected := connected } }

def new (channel : Bytes) (start : SessionStart) : App :=
  beginSession ⟨⟨[], [.new channel .conversation], 0, true, .default, false⟩, none⟩ start

def flushReadMarker (app : App) (offer : Offer) : App :=
  if app.screen.connected then
    match app.pendingReadMarker with
    | none => app
    | some marker =>
      let app := { app with pendingReadMarker := none }
      match offer with
      | .taken => app
      | .full => app.requeueReadMarkerCommand marker
      | .closed => (app.requeueReadMarkerCommand marker).setConnected false
  else app

def apply (app : App) : Event → App
  | .message message => app.queue (app.screen.onMessage message)
  | .serverNote => { app with screen := app.screen.noteServer }
  | .nextBuffer =>
    app.queue (app.screen.focus ((app.screen.current + 1) % app.screen.buffers.length))
  | .prevBuffer =>
    app.queue (app.screen.focus
      ((app.screen.current + app.screen.buffers.length - 1) % app.screen.buffers.length))
  | .window index => if index < app.screen.buffers.length then app.queue (app.screen.focus index) else app
  | .openWindow name =>
    if app.screen.connected then
      match app.screen.openBuffer name with
      | none => app
      | some (index, screen) => app.queue (screen.focus index)
    else app
  | .scroll back => app.queue (app.screen.scroll back)
  | .historyGap channel => { app with screen := app.screen.holdReadMarker channel }
  | .historyCaughtUp channel => { app with screen := app.screen.releaseReadMarker channel }
  | .disconnected => app.setConnected false
  | .connected start => app.beginSession start
  | .flush offer => app.flushReadMarker offer
  | .readMarkerUnsent marker => app.requeueReadMarkerCommand marker

end App

/-- The client over its events. -/
def client (channel : Bytes) (start : SessionStart) : System App Event where
  init := .new channel start
  step app event := some (app.apply event)

/-! ## What an event brings -/

/-- Every session of the run has read markers. -/
def Event.KeepsMarkers : Event → Prop
  | .connected start => start.readMarkers = true
  | _ => True

/-- The event hands what is in the slot to the writer. -/
def Event.Hands (app : App) (event : Event) : Prop :=
  event = .flush .taken ∧ app.screen.connected = true

/-- A marker leaves only for the writer or for a later one of its conversation; one that
comes back is kept, or has a later one of its conversation there. -/
structure Keeps (app : App) (event : Event) : Prop where
  waiting : ∀ marker, app.pendingReadMarker = some marker → event.Hands app ∨
    ∃ later, (app.apply event).pendingReadMarker = some later ∧ later.buffer = marker.buffer
  unsent : ∀ marker, event = .readMarkerUnsent marker →
    ∃ later, (app.apply event).pendingReadMarker = some later ∧ later.buffer = marker.buffer

/-- The marker that the event puts in an empty slot. -/
def App.queues (app : App) (event : Event) : Option Marker :=
  ({ app with pendingReadMarker := none }.apply event).pendingReadMarker

attribute [local simp] App.apply

/-- The slot holds the marker of one conversation, and the event brings that of another. -/
def App.Displaces (app : App) (event : Event) : Prop :=
  ∃ waiting brought, app.pendingReadMarker = some waiting ∧ app.queues event = some brought ∧
    brought.buffer ≠ waiting.buffer

section

variable {app : App}

variable (app) in
/-- What an event does to the slot, but for a flush and a marker that comes back. -/
theorem pending_apply {event : Event} (keeps : event.KeepsMarkers)
    (noFlush : ∀ offer, event ≠ .flush offer) (noReturn : ∀ marker, event ≠ .readMarkerUnsent marker) :
    (app.apply event).pendingReadMarker = (app.queues event).or app.pendingReadMarker := by
  unfold App.queues
  cases event with
  | flush offer => exact absurd rfl (noFlush offer)
  | readMarkerUnsent marker => exact absurd rfl (noReturn marker)
  | connected start =>
    have keeps : start.readMarkers = true := keeps
    simp [App.beginSession, keeps]
  | window index =>
    simp only [App.apply]
    split <;> simp [App.queue]
  | openWindow name =>
    simp only [App.apply]
    split
    · split <;> simp [App.queue]
    · simp
  | message | nextBuffer | prevBuffer | scroll => simp [App.queue]
  | serverNote | historyGap | historyCaughtUp | disconnected => simp [App.setConnected]

theorem keeps_flush (offer : Offer) : Keeps app (.flush offer) := by
  refine ⟨fun marker waiting => ?_, nofun⟩
  cases connected : app.screen.connected with
  | false => exact .inr ⟨marker, by simp [App.flushReadMarker, connected, waiting], rfl⟩
  | true =>
    cases offer with
    | taken => exact .inl ⟨rfl, connected⟩
    | full | closed =>
      refine .inr ⟨marker, ?_, rfl⟩
      simp [App.flushReadMarker, connected, waiting, App.requeueReadMarkerCommand, App.setConnected]

theorem queues_flush (offer : Offer) : app.queues (.flush offer) = none := by
  simp [App.queues, App.flushReadMarker]

theorem keeps_unsent_iff (marker : Marker) :
    Keeps app (.readMarkerUnsent marker) ↔ ¬ app.Displaces (.readMarkerUnsent marker) := by
  have brings : app.queues (.readMarkerUnsent marker) = some marker := rfl
  have after : (app.apply (.readMarkerUnsent marker)).pendingReadMarker =
      app.pendingReadMarker.or (some marker) := rfl
  cases waiting : app.pendingReadMarker with
  | none =>
    rw [waiting, Option.none_or] at after
    refine iff_of_true ⟨fun other there => ?_, fun other same => ?_⟩ fun ⟨other, _, there, _⟩ => ?_
    · exact nomatch waiting.symm.trans there
    · cases same
      exact ⟨marker, after, rfl⟩
    · exact nomatch waiting.symm.trans there
  | some held =>
    rw [waiting, Option.some_or] at after
    constructor
    · intro keeps ⟨other, brought, there, isBrought, apart⟩
      cases waiting.symm.trans there
      cases brings.symm.trans isBrought
      obtain ⟨later, isLater, same⟩ := keeps.unsent marker rfl
      cases after.symm.trans isLater
      exact apart same.symm
    · intro kept
      refine ⟨fun other there => .inr ⟨held, after, ?_⟩, fun other same => ⟨held, after, ?_⟩⟩
      · rw [Option.some.inj (waiting.symm.trans there)]
      · cases same
        by_contra apart
        exact kept ⟨held, marker, waiting, brings, fun same => apart same.symm⟩

/-- An event loses nothing exactly unless it displaces a marker. -/
theorem keeps_iff {event : Event} (enabled : event.KeepsMarkers) :
    Keeps app event ↔ ¬ app.Displaces event := by
  by_cases isFlush : ∃ offer, event = .flush offer
  · obtain ⟨offer, rfl⟩ := isFlush
    refine iff_of_true (keeps_flush offer) fun ⟨_, _, _, brings, _⟩ => ?_
    rw [queues_flush] at brings
    cases brings
  by_cases isReturn : ∃ marker, event = .readMarkerUnsent marker
  · obtain ⟨marker, rfl⟩ := isReturn
    exact keeps_unsent_iff marker
  have slot := pending_apply app enabled (fun offer same => isFlush ⟨offer, same⟩)
    fun marker same => isReturn ⟨marker, same⟩
  constructor
  · intro keeps ⟨waiting, brought, there, brings, apart⟩
    rw [brings, Option.some_or] at slot
    rcases keeps.waiting waiting there with hands | ⟨later, isLater, same⟩
    · exact isFlush ⟨.taken, hands.1⟩
    · cases slot.symm.trans isLater
      exact apart same
  · intro kept
    refine ⟨fun waiting there => .inr ?_, fun marker same => absurd ⟨marker, same⟩ isReturn⟩
    cases brings : app.queues event with
    | none =>
      rw [brings, Option.none_or] at slot
      exact ⟨waiting, slot.trans there, rfl⟩
    | some brought =>
      rw [brings, Option.some_or] at slot
      refine ⟨brought, slot, ?_⟩
      by_contra apart
      exact kept ⟨waiting, brought, there, brings, apart⟩

end

/-! ## Runs -/

/-- A session with read markers. -/
def session : SessionStart := ⟨ascii "me", .default, true⟩

/-- A line said in a channel, with its time. -/
def said (channel time : String) : Event :=
  .message ⟨[(ascii "time", some (ascii time))], some (ascii "bob!b@h"), ascii "PRIVMSG",
    [ascii channel, ascii "hi"]⟩

/-- Lines are read in one channel, and then in another, while the connection is down. -/
def readsTwo : List Event :=
  [.disconnected, said "#a" "2026-01-01T00:00:01.000Z", said "#b" "2026-01-01T00:00:02.000Z",
    .nextBuffer]

/-- Lines are read in one channel only. -/
def readsOne : List Event :=
  [.disconnected, said "#a" "2026-01-01T00:00:01.000Z", said "#a" "2026-01-01T00:00:02.000Z"]

/-- Whether the event is of a session with read markers. -/
def Event.keepsMarkers : Event → Bool
  | .connected start => start.readMarkers
  | _ => true

theorem Event.keepsMarkers_iff {event : Event} : event.keepsMarkers = true ↔ event.KeepsMarkers := by
  cases event with
  | connected => exact Iff.rfl
  | _ => exact iff_of_true rfl trivial

end E6irc.Tui
