import E6irc.Base.Assoc
import E6irc.Base.Links
import E6irc.Base.Run
import E6irc.Base.Tally
import E6irc.Proto.Casemap

/-!
# Membership of channels over the shards of the core

A channel lives on the shard that owns its name, with the table of its members;
a session lives on its connection's shard, with the set of the channels it is
in.  JOIN, PART and KICK act on the table and are answered to the session's
shard (`handler/channel.rs`, `handler/chanops.rs`); a session that ends takes
itself out of the tables it may be in (`ServerState::close`).  Where both are on
one shard the two sides change in one step; otherwise what one shard asks or
answers travels to the other over an ordered link.

Three fields are bookkeeping that no step reads: a session counts its `JOIN 0`s
(`zeros`), a JOIN carries the count it was sent at (`era`), which its answer
brings back and a member keeps, and a PART carries the count when a `JOIN 0`
caused it.
-/

namespace E6irc.Membership

open Base

abbrev ConnId := ℕ

/-- A channel's name under the server's casemapping. -/
abbrev ChanKey := Bytes

def maxChannelsPerSession : ℕ := 250

def partTargmax : ℕ := maxChannelsPerSession

/-- What does not change while the core runs. -/
structure Config (Shard : Type) where
  /-- The shard of a connection's session. -/
  home : ConnId → Shard
  /-- The shard that owns a channel. -/
  channelOwner : ChanKey → Shard
  casemap : CaseMapping

/-! ## Sessions -/

structure Session where
  channels : List ChanKey
  nodup : channels.Nodup
  /-- The JOINs sent to other shards and not yet answered. -/
  pendingJoins : Tally ChanKey
  /-- Those of them that a `JOIN 0` sent since has to part. -/
  partOnJoin : Tally ChanKey
  zeros : ℕ

namespace Session

def new : Session := ⟨[], .nil, .empty, .empty, 0⟩

def joinSent (session : Session) (key : ChanKey) : Session :=
  { session with pendingJoins := session.pendingJoins.add key }

def joinInFlight (session : Session) (key : ChanKey) : Bool :=
  session.pendingJoins.keys.contains key

/-- The channels with a JOIN still waiting for its answer. -/
def joinsInFlight (session : Session) : List ChanKey :=
  session.pendingJoins.keys

/-- Those of them that the session is not in. -/
def inFlight (session : Session) : List ChanKey :=
  session.joinsInFlight.filter fun key => !session.channels.contains key

/-- `JOIN 0`: every JOIN still in flight is parted once it is answered. -/
def partJoinsInFlight (session : Session) : Session :=
  { session with partOnJoin := session.pendingJoins, zeros := session.zeros + 1 }

/-- The oldest JOIN to `key` in flight was answered; whether a `JOIN 0` was sent
after it.  `none` is the failed assertion that there is one. -/
def joinAnswered (session : Session) (key : ChanKey) : Option (Bool × Session) :=
  let pending := session.pendingJoins.takeOne key
  let part := session.partOnJoin.takeOne key
  if pending.1 then
    some (part.1, { session with pendingJoins := pending.2, partOnJoin := part.2 })
  else none

/-- The channels a session may be a member of, each once. -/
def sessionChannels (session : Session) : List ChanKey :=
  session.channels ++ session.inFlight

def insertChannel (session : Session) (key : ChanKey) : Session :=
  { session with
    channels := session.channels.insert key
    nodup := session.nodup.insert }

def removeChannel (session : Session) (key : ChanKey) : Session :=
  { session with
    channels := session.channels.erase key
    nodup := session.nodup.erase key }

end Session

/-! ## Channels -/

/-- What decides who is admitted. -/
structure ChanModes where
  isBanned : ConnId → Bool
  key : Option Bytes
  inviteOnly : Bool
  isInviteExcepted : ConnId → Bool
  limit : Option ℕ
  secret : Bool

/-- The modes of a new channel. -/
def ChanModes.new : ChanModes := ⟨fun _ => false, none, false, fun _ => false, none, false⟩

structure Member where
  op : Bool
  era : ℕ
deriving DecidableEq, Repr

structure Channel where
  members : AList fun _ : ConnId => Member
  invited : List ConnId
  modes : ChanModes

inductive ChannelJoinFailure
  | banned | badKey | inviteOnly | full
deriving DecidableEq, Repr

inductive ChannelJoinResult
  | alreadyMember
  | rejected (failure : ChannelJoinFailure)
  | joined
deriving DecidableEq, Repr

inductive ChannelPartResult
  | noSuchChannel | hidden | notOnChannel | parted
deriving DecidableEq, Repr

def channelKeyMatches (casemap : CaseMapping) (key supplied : Bytes) : Bool :=
  casemap.casefold key == casemap.casefold supplied

namespace Channel

def new : Channel := ⟨∅, [], .new⟩

def isMember (chan : Channel) (conn : ConnId) : Bool :=
  (chan.members.lookup conn).isSome

def hasMembers (chan : Channel) : Bool :=
  !chan.members.entries.isEmpty

def isOp (chan : Channel) (conn : ConnId) : Bool :=
  ((chan.members.lookup conn).map Member.op).getD false

/-- The admission checks of `join_on_owner`, in its order. -/
def refusal (casemap : CaseMapping) (chan : Channel) (conn : ConnId) (joinKey : Option Bytes) :
    Option ChannelJoinFailure :=
  let wasInvited := chan.invited.contains conn
  if chan.modes.isBanned conn then some .banned
  else if chan.modes.key.any fun key => !joinKey.any (channelKeyMatches casemap key) then
    some .badKey
  else if chan.modes.inviteOnly && !wasInvited && !chan.modes.isInviteExcepted conn then
    some .inviteOnly
  else if (chan.modes.limit.any fun limit => limit ≤ chan.members.entries.length) && !wasInvited then
    some .full
  else none

/-- The channel with the member; an invitation is consumed by the JOIN it admitted. -/
def addMember (chan : Channel) (conn : ConnId) (member : Member) : Channel :=
  { chan with
    members := chan.members.insert conn member
    invited := chan.invited.erase conn }

def setMode (chan : Channel) (modes : ChanModes) (invited ops : List ConnId) : Channel where
  members := mapValues (fun conn member => { member with op := ops.contains conn }) chan.members
  invited := invited
  modes := modes

end Channel

/-! ## What the shards send each other -/

/-- The inputs of `core::Input` that change a membership. -/
inductive Input (Shard : Type)
  | channelJoin (conn : ConnId) (key : ChanKey) (joinKey : Option Bytes) (era : ℕ)
  | channelJoinResult (conn : ConnId) (requested : ChanKey) (result : ChannelJoinResult) (era : ℕ)
  | channelPart (conn : ConnId) (key : ChanKey) (owed : Option ℕ)
  | channelPartResult (conn : ConnId) (key : ChanKey) (result : ChannelPartResult)
  | channelKick (conn : ConnId) (key : ChanKey) (victim : ConnId)
  | sessionChannelRemoved (conn : ConnId) (key : ChanKey)
  | channelQuit (conn : ConnId) (shard : Shard) (keys : List ChanKey)
  | channelMemberVanished (conn : ConnId) (key : ChanKey)

variable {Shard : Type}

namespace Input

/-- The shard that sends the input. -/
def src (cfg : Config Shard) : Input Shard → Shard
  | channelJoin conn .. | channelPart conn .. | channelKick conn .. | channelQuit conn ..
  | channelMemberVanished conn .. => cfg.home conn
  | channelJoinResult _ key .. | channelPartResult _ key .. | sessionChannelRemoved _ key =>
    cfg.channelOwner key

/-- The shard the input is for. -/
def dst (cfg : Config Shard) : Input Shard → Shard
  | channelJoin _ key .. | channelPart _ key .. | channelKick _ key ..
  | channelMemberVanished _ key => cfg.channelOwner key
  | channelQuit _ shard _ => shard
  | channelJoinResult conn .. | channelPartResult conn .. | sessionChannelRemoved conn .. =>
    cfg.home conn

end Input

structure State (Shard : Type) where
  sessions : ConnId → Option Session
  channels : ChanKey → Option Channel
  links : Links Shard (Input Shard)
  nextConn : ConnId

namespace State

def init : State Shard := ⟨fun _ => none, fun _ => none, .empty, 0⟩

variable [DecidableEq Shard]

def route (cfg : Config Shard) (s : State Shard) (input : Input Shard) : State Shard :=
  { s with links := s.links.send (input.src cfg) (input.dst cfg) input }

def updateSession (s : State Shard) (conn : ConnId) (change : Session → Session) : State Shard :=
  { s with sessions := Function.update s.sessions conn ((s.sessions conn).map change) }

def setChannel (s : State Shard) (key : ChanKey) (chan : Option Channel) : State Shard :=
  { s with channels := Function.update s.channels key chan }

/-! ## The owner of a channel -/

/-- Take a member out, and the channel with its last. -/
def removeMember (s : State Shard) (key : ChanKey) (conn : ConnId) : State Shard :=
  match s.channels key with
  | none => s
  | some chan =>
    if chan.isMember conn then
      let left : Channel := { chan with members := chan.members.erase conn }
      s.setChannel key (if left.hasMembers then some left else none)
    else s

/-- The first to join is made its operator; what a registration or an access list
grants instead is a change of modes. -/
def joinOnOwner (cfg : Config Shard) (s : State Shard) (conn : ConnId) (key : ChanKey)
    (joinKey : Option Bytes) (era : ℕ) : ChannelJoinResult × State Shard :=
  let chan := (s.channels key).getD .new
  match chan.members.lookup conn with
  | some member =>
    (.alreadyMember, s.setChannel key
      (some { chan with members := chan.members.insert conn { member with era := era } }))
  | none =>
    match chan.refusal cfg.casemap conn joinKey with
    | some failure => (.rejected failure, s.setChannel key (some chan))
    | none => (.joined, s.setChannel key (some (chan.addMember conn ⟨!chan.hasMembers, era⟩)))

def partOnOwner (s : State Shard) (conn : ConnId) (key : ChanKey) :
    ChannelPartResult × State Shard :=
  match s.channels key with
  | none => (.noSuchChannel, s)
  | some chan =>
    if chan.isMember conn then (.parted, s.removeMember key conn)
    else if chan.modes.secret then (.hidden, s)
    else (.notOnChannel, s)

def removeSessionChannel (s : State Shard) (conn : ConnId) (key : ChanKey) : State Shard :=
  s.updateSession conn (·.removeChannel key)

/-- An operator's KICK of a member; every other is refused. -/
def kickOnOwner (cfg : Config Shard) (s : State Shard) (conn : ConnId) (key : ChanKey)
    (victim : ConnId) : State Shard :=
  match s.channels key with
  | none => s
  | some chan =>
    if chan.isOp conn && chan.isMember victim then
      let s := s.removeMember key victim
      if cfg.channelOwner key = cfg.home victim then s.removeSessionChannel victim key
      else s.route cfg (.sessionChannelRemoved victim key)
    else s

def quitChannelMember (s : State Shard) (conn : ConnId) (keys : List ChanKey) : State Shard :=
  keys.foldl (fun s key => s.removeMember key conn) s

def removeVanishedMember (s : State Shard) (conn : ConnId) (key : ChanKey) : State Shard :=
  s.removeMember key conn

/-! ## The owner of a session -/

def emitPartResponse (s : State Shard) (conn : ConnId) (key : ChanKey) :
    ChannelPartResult → State Shard
  | .parted => s.removeSessionChannel conn key
  | .noSuchChannel | .hidden | .notOnChannel => s

/-- `cmd_part` of one channel. -/
def cmdPart (cfg : Config Shard) (s : State Shard) (conn : ConnId) (key : ChanKey)
    (owed : Option ℕ) : State Shard :=
  if cfg.channelOwner key = cfg.home conn then
    let answer := s.partOnOwner conn key
    answer.2.emitPartResponse conn key answer.1
  else s.route cfg (.channelPart conn key owed)

def emitJoinResponse (cfg : Config Shard) (s : State Shard) (conn : ConnId) (key : ChanKey) :
    ChannelJoinResult → State Shard
  | .alreadyMember | .rejected _ => s
  | .joined =>
    match s.sessions conn with
    | none =>
      if cfg.channelOwner key = cfg.home conn then s.removeVanishedMember conn key
      else s.route cfg (.channelMemberVanished conn key)
    | some _ => s.updateSession conn (·.insertChannel key)

/-- `none` is the failed assertion of `join_answered`. -/
def emitJoinResult (cfg : Config Shard) (s : State Shard) (conn : ConnId) (requested : ChanKey)
    (result : ChannelJoinResult) : Option (State Shard) :=
  match s.sessions conn with
  | none => some (s.emitJoinResponse cfg conn requested result)
  | some session => do
    let (partNow, answered) ← session.joinAnswered requested
    let s := (s.updateSession conn fun _ => answered).emitJoinResponse cfg conn requested result
    if partNow && result == .joined then
      some (s.cmdPart cfg conn requested (some session.zeros))
    else some s

/-- `cmd_join` of one channel. -/
def cmdJoin (cfg : Config Shard) (s : State Shard) (conn : ConnId) (session : Session)
    (key : ChanKey) (joinKey : Option Bytes) : State Shard :=
  if !session.channels.contains key && !session.joinInFlight key &&
      decide (maxChannelsPerSession ≤ session.channels.length + session.inFlight.length) then s
  else if cfg.channelOwner key = cfg.home conn then
    let answer := s.joinOnOwner cfg conn key joinKey session.zeros
    answer.2.emitJoinResponse cfg conn key answer.1
  else (s.updateSession conn (·.joinSent key)).route cfg (.channelJoin conn key joinKey session.zeros)

/-- `cmd_join` of `0`. -/
def cmdJoinZero (cfg : Config Shard) (s : State Shard) (conn : ConnId) (session : Session) :
    State Shard :=
  let session := session.partJoinsInFlight
  (session.channels.take partTargmax).foldl
    (fun s key => s.cmdPart cfg conn key (some session.zeros)) (s.updateSession conn fun _ => session)

def close (cfg : Config Shard) (s : State Shard) (conn : ConnId) (session : Session) :
    State Shard :=
  let keys := session.sessionChannels
  let quit := (keys.map cfg.channelOwner).dedup.foldl (fun s shard =>
    let here := keys.filter fun key => cfg.channelOwner key = shard
    if shard = cfg.home conn then s.quitChannelMember conn here
    else s.route cfg (.channelQuit conn shard here)) s
  { quit with sessions := Function.update quit.sessions conn none }

/-! ## Steps -/

/-- What a shard does with an input from another. -/
def handle (cfg : Config Shard) (s : State Shard) : Input Shard → Option (State Shard)
  | .channelJoin conn key joinKey era =>
    let answer := s.joinOnOwner cfg conn key joinKey era
    some (answer.2.route cfg (.channelJoinResult conn key answer.1 era))
  | .channelJoinResult conn requested result _ => s.emitJoinResult cfg conn requested result
  | .channelPart conn key _ =>
    let answer := s.partOnOwner conn key
    some (answer.2.route cfg (.channelPartResult conn key answer.1))
  | .channelPartResult conn key result => some (s.emitPartResponse conn key result)
  | .channelKick conn key victim => some (s.kickOnOwner cfg conn key victim)
  | .sessionChannelRemoved conn key => some (s.removeSessionChannel conn key)
  | .channelQuit conn _ keys => some (s.quitChannelMember conn keys)
  | .channelMemberVanished conn key => some (s.removeVanishedMember conn key)

end State

inductive Event (Shard : Type)
  /-- A connection registers, under an id given once. -/
  | connect
  | join (conn : ConnId) (key : ChanKey) (joinKey : Option Bytes)
  | joinZero (conn : ConnId)
  | part (conn : ConnId) (key : ChanKey)
  | kick (conn : ConnId) (key : ChanKey) (victim : ConnId)
  | close (conn : ConnId)
  /-- A channel's modes, invitations and operators change. -/
  | mode (key : ChanKey) (modes : ChanModes) (invited ops : List ConnId)
  /-- The oldest input on a link is handled. -/
  | deliver (src dst : Shard)

namespace State

variable [DecidableEq Shard]

def step (cfg : Config Shard) (s : State Shard) : Event Shard → Option (State Shard)
  | .connect =>
    some { s with
      sessions := Function.update s.sessions s.nextConn (some .new)
      nextConn := s.nextConn + 1 }
  | .join conn key joinKey => do
    let session ← s.sessions conn
    some (s.cmdJoin cfg conn session key joinKey)
  | .joinZero conn => do
    let session ← s.sessions conn
    some (s.cmdJoinZero cfg conn session)
  | .part conn key => do
    let _ ← s.sessions conn
    some (s.cmdPart cfg conn key none)
  | .kick conn key victim => do
    let _ ← s.sessions conn
    if cfg.channelOwner key = cfg.home conn then some (s.kickOnOwner cfg conn key victim)
    else some (s.route cfg (.channelKick conn key victim))
  | .close conn => do
    let session ← s.sessions conn
    some (s.close cfg conn session)
  | .mode key modes invited ops => do
    let chan ← s.channels key
    some (s.setChannel key (some (chan.setMode modes invited ops)))
  | .deliver src dst => do
    let (input, rest) ← s.links.receive src dst
    handle cfg { s with links := rest } input

end State

/-- The shards of the core, their sessions and their channels. -/
def network [DecidableEq Shard] (cfg : Config Shard) : System (State Shard) (Event Shard) where
  init := .init
  step := State.step cfg

end E6irc.Membership
