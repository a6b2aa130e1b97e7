import E6irc.Base.Assoc
import E6irc.Base.Run
import E6irc.Core.ListMask
import E6irc.Proto.Casemap

/-!
# The modes of a channel, its mode lock and its invitations

One channel on the shard that owns it: MODE letter by letter
(`channel_mode_by` of `handler/channel.rs`), the ChanServ mode lock and its
enforcement (`MlockModes`, `enforce_mlock`), INVITE (`handler/chanops.rs`), and the
JOIN that an invitation may admit.  The hash set of invited connections is a list;
the order in which it is walked is part of an INVITE.

Replies and broadcasts are left out, but for the changes that a MODE announces.
-/

namespace E6irc.Modes

open Base

abbrev ConnId := ℕ

def inviteLimit : ℕ := 100

def maxModes : ℕ := 4

def maxList : ℕ := 100

def keyLen : ℕ := 24

structure ChanModes where
  inviteOnly : Bool := false
  moderated : Bool := false
  noExternal : Bool := false
  topicOpsOnly : Bool := false
  secret : Bool := false
  noCtcp : Bool := false
  freeInvite : Bool := false
  key : Option Bytes := none
  limit : Option ℕ := none
deriving DecidableEq, Repr

namespace ChanModes

def flags : List Char := ['g', 'i', 'm', 'n', 's', 't', 'C']

def flag (modes : ChanModes) : Char → Option Bool
  | 'g' => some modes.freeInvite
  | 'i' => some modes.inviteOnly
  | 'm' => some modes.moderated
  | 'n' => some modes.noExternal
  | 's' => some modes.secret
  | 't' => some modes.topicOpsOnly
  | 'C' => some modes.noCtcp
  | _ => none

/-- `flag_mut`, assigned. -/
def setFlag (modes : ChanModes) (value : Bool) : Char → ChanModes
  | 'g' => { modes with freeInvite := value }
  | 'i' => { modes with inviteOnly := value }
  | 'm' => { modes with moderated := value }
  | 'n' => { modes with noExternal := value }
  | 's' => { modes with secret := value }
  | 't' => { modes with topicOpsOnly := value }
  | 'C' => { modes with noCtcp := value }
  | _ => modes

end ChanModes

/-- The flags that must be on and those that must be off. -/
structure MlockModes where
  on : List Char
  off : List Char
deriving DecidableEq, Repr

namespace MlockModes

def parseFrom : List Char → Bool → MlockModes → Except Char MlockModes
  | [], _, m => .ok m
  | c :: spec, adding, m =>
    if c = '+' then parseFrom spec true m
    else if c = '-' then parseFrom spec false m
    else if c ∈ ChanModes.flags then
      let others : MlockModes := ⟨m.on.filter (· ≠ c), m.off.filter (· ≠ c)⟩
      parseFrom spec adding
        (if adding then { others with on := others.on ++ [c] }
        else { others with off := others.off ++ [c] })
    else .error c

/-- A lock as `+nt-i`; a mode named twice keeps its last sign. -/
def parse (spec : List Char) : Except Char MlockModes :=
  (parseFrom spec true ⟨[], []⟩).map fun m =>
    ⟨ChanModes.flags.filter (m.on.contains ·), ChanModes.flags.filter (m.off.contains ·)⟩

/-- A change of `c` that the lock forbids. -/
def conflict (lock : Option MlockModes) (c : Char) (adding : Bool) : Bool :=
  lock.any fun m => (adding && m.off.contains c) || (!adding && m.on.contains c)

end MlockModes

structure Member where
  nick : Bytes
  op : Bool
  voice : Bool
deriving DecidableEq, Repr

structure Channel where
  members : AList fun _ : ConnId => Member
  modes : ChanModes
  bans : List MaskKey
  quiets : List MaskKey
  banExceptions : List MaskKey
  inviteExceptions : List MaskKey
  invited : List ConnId

namespace Channel

/-- A channel as its first JOIN creates it. -/
def new : Channel where
  members := ∅
  modes := { noExternal := true, topicOpsOnly := true }
  bans := []
  quiets := []
  banExceptions := []
  inviteExceptions := []
  invited := []

def isMember (chan : Channel) (conn : ConnId) : Bool :=
  (chan.members.lookup conn).isSome

def isOp (chan : Channel) (conn : ConnId) : Bool :=
  (chan.members.lookup conn).any (·.op)

def hiddenFrom (chan : Channel) (conn : ConnId) : Bool :=
  chan.modes.secret && !chan.isMember conn

def memberNamed (casemap : CaseMapping) (chan : Channel) (nick : Bytes) : Option ConnId :=
  (chan.members.entries.find? fun entry =>
    casemap.casefold entry.2.nick = casemap.casefold nick).map Sigma.fst

/-- One of the mask lists. -/
def list (chan : Channel) : Char → List MaskKey
  | 'b' => chan.bans
  | 'q' => chan.quiets
  | 'e' => chan.banExceptions
  | _ => chan.inviteExceptions

def setList (chan : Channel) (masks : List MaskKey) : Char → Channel
  | 'b' => { chan with bans := masks }
  | 'q' => { chan with quiets := masks }
  | 'e' => { chan with banExceptions := masks }
  | _ => { chan with inviteExceptions := masks }

def combined (chan : Channel) : ℕ :=
  chan.bans.length + chan.quiets.length + chan.banExceptions.length + chan.inviteExceptions.length

end Channel

/-! ## MODE -/

/-- What `channel_mode_by` holds between two letters. -/
structure ModeLoop where
  channel : Channel
  adding : Bool
  args : List Bytes
  parameterModes : ℕ
  changes : List (Bool × Char × Option Bytes)

namespace ModeLoop

def announce (st : ModeLoop) (c : Char) (argument : Option Bytes) (channel : Channel) : ModeLoop :=
  { st with channel, changes := st.changes ++ [(st.adding, c, argument)] }

def flagMode (lock : Option MlockModes) (c : Char) (st : ModeLoop) : ModeLoop :=
  let chan := st.channel
  if MlockModes.conflict lock c st.adding then st
  else if chan.modes.flag c = some !st.adding then
    st.announce c none { chan with
      modes := chan.modes.setFlag st.adding c
      -- opening the channel revokes the invitations it held
      invited := if c = 'i' ∧ st.adding = false then [] else chan.invited }
  else st

def validChannelKey (key : Bytes) : Bool :=
  key ≠ [] && key.head? ≠ some (byte ':') &&
    !key.any fun b => b ≤ byte ' ' || b == byte ',' || b == 0x7F

def keyMode (st : ModeLoop) : ModeLoop :=
  let chan := st.channel
  if st.adding then
    match st.args with
    | [] => st
    | k :: args =>
      let st := { st with args }
      if validChannelKey k then
        let k := truncateOnCharBoundary k keyLen
        if chan.modes.key ≠ some k then
          st.announce 'k' (some k) { chan with modes.key := some k }
        else st
      else st
  else
    let st := { st with args := st.args.tail }
    if chan.modes.key.isSome then
      st.announce 'k' (some (ascii "*")) { chan with modes.key := none }
    else st

def limitMode (st : ModeLoop) : ModeLoop :=
  let chan := st.channel
  if st.adding then
    match st.args with
    | [] => st
    | l :: args =>
      let st := { st with args }
      match (parseUnsigned 32 l).filter (0 < ·) with
      | none => st
      | some n =>
        if chan.modes.limit ≠ some n then
          st.announce 'l' (some (decimal n)) { chan with modes.limit := some n }
        else st
  else if chan.modes.limit.isSome then
    st.announce 'l' none { chan with
      modes.limit := none
      invited := if chan.modes.inviteOnly then chan.invited else [] }
  else st

variable (ipnet : Ipnet) (casemap : CaseMapping)

def listMode (c : Char) (st : ModeLoop) : ModeLoop :=
  let chan := st.channel
  match st.args with
  | [] => st
  | raw :: args =>
    let st := { st with args }
    match channelListMask ipnet raw st.adding with
    | .error _ => st
    | .ok mask =>
      let same (entry : MaskKey) := entry.folded casemap = mask.folded casemap
      let held := (chan.list c).any same
      if st.adding then
        if held ∨ maxList ≤ chan.combined then st
        else st.announce c (some mask.display) (chan.setList (chan.list c ++ [mask]) c)
      else if held then
        st.announce c (some mask.display) (chan.setList ((chan.list c).filter (¬ same ·)) c)
      else st

def statusMode (c : Char) (st : ModeLoop) : ModeLoop :=
  let chan := st.channel
  match st.args with
  | [] => st
  | who :: args =>
    let st := { st with args }
    match chan.memberNamed casemap who with
    | none => st
    | some conn =>
      match chan.members.lookup conn with
      | none => st
      | some member =>
        if (if c = 'o' then member.op else member.voice) ≠ st.adding then
          let changed :=
            if c = 'o' then { member with op := st.adding } else { member with voice := st.adding }
          st.announce c (some member.nick)
            { chan with members := chan.members.insert conn changed }
        else st

def applyMode (lock : Option MlockModes) (c : Char) (st : ModeLoop) : ModeLoop :=
  if c = '+' then { st with adding := true }
  else if c = '-' then { st with adding := false }
  else if c ∈ ChanModes.flags then st.flagMode lock c
  else if c = 'k' then st.keyMode
  else if c = 'l' then st.limitMode
  else if c ∈ ['b', 'q', 'e', 'I'] then st.listMode ipnet casemap c
  else if c ∈ ['o', 'v'] then st.statusMode casemap c
  else st

def takesParameter (adding : Bool) (args : List Bytes) (c : Char) : Bool :=
  c ∈ ['k', 'o', 'v'] || (c = 'l' && adding) || (c ∈ ['b', 'q', 'e', 'I'] && !args.isEmpty)

/-- One letter of the mode string; those with a parameter past the limit are skipped. -/
def letter (lock : Option MlockModes) (st : ModeLoop) (c : Char) : ModeLoop :=
  if takesParameter st.adding st.args c then
    let st := { st with parameterModes := st.parameterModes + 1 }
    if maxModes < st.parameterModes then { st with args := st.args.tail }
    else st.applyMode ipnet casemap lock c
  else st.applyMode ipnet casemap lock c

end ModeLoop

namespace Channel

variable (ipnet : Ipnet) (casemap : CaseMapping)

/-- A lone list letter asks for the list. -/
def isListQuery (letters : List Char) (args : List Bytes) (isOp : Bool) : Bool :=
  args.isEmpty && match (if letters.head? = some '+' then letters.tail else letters) with
    | [c] => c ∈ ['b', 'q'] || (c ∈ ['e', 'I'] && isOp)
    | _ => false

/-- The channel and what is announced after a MODE by `conn`. -/
def channelModeBy (chan : Channel) (lock : Option MlockModes) (conn : ConnId)
    (letters : Option (List Char)) (args : List Bytes) :
    Channel × List (Bool × Char × Option Bytes) :=
  match letters with
  | none => (chan, [])
  | some letters =>
    if chan.hiddenFrom conn ∨ isListQuery letters args (chan.isOp conn) ∨ chan.isOp conn = false then
      (chan, [])
    else
      let st := letters.foldl (ModeLoop.letter ipnet casemap lock) ⟨chan, true, args, 0, []⟩
      (st.channel, st.changes)

/-! ## Locks -/

/-- Change the modes that differ from the lock. -/
def enforceMlock (chan : Channel) (m : MlockModes) : Channel :=
  let onChanges := m.on.filter (chan.modes.flag · = some false)
  let offChanges := m.off.filter (chan.modes.flag · = some true)
  let on := onChanges.foldl (·.setFlag true ·) chan.modes
  { chan with modes := offChanges.foldl (·.setFlag false ·) on }

/-! ## INVITE and JOIN -/

/-- Make room for one more holder, in the order the set is walked. -/
def evict (invitee : ConnId) : List ConnId → List ConnId
  | [] => []
  | victim :: holders =>
    if inviteLimit ≤ (victim :: holders).length ∧ invitee ∉ victim :: holders then
      evict invitee holders
    else victim :: holders

def inviteOnOwner (chan : Channel) (actor invitee : ConnId) (order : List ConnId) : Channel :=
  if chan.hiddenFrom actor ∨ chan.isMember actor = false ∨
      (chan.modes.freeInvite = false ∧ chan.isOp actor = false) ∨ chan.isMember invitee then chan
  else if chan.modes.inviteOnly ∨ chan.modes.limit.isSome then
    { chan with invited := (evict invitee order).insert invitee }
  else chan

inductive JoinFailure
  | banned | badKey | inviteOnly | full
deriving DecidableEq, Repr

/-- Who joins, and what its account gives it. -/
structure Joiner where
  conn : ConnId
  nick : Bytes
  subject : MaskSubject
  isFounder : Bool
  accessOp : Bool
  accessVoice : Bool

def anyMatch (masks : List MaskKey) (subject : MaskSubject) : Bool :=
  masks.any fun mask => mask.matches ipnet casemap subject

/-- The admission checks, in their order. -/
def refusal (chan : Channel) (joiner : Joiner) (joinKey : Option Bytes) : Option JoinFailure :=
  let wasInvited := chan.invited.contains joiner.conn
  if anyMatch ipnet casemap chan.bans joiner.subject &&
      !anyMatch ipnet casemap chan.banExceptions joiner.subject then some .banned
  else if chan.modes.key.any fun key =>
      !joinKey.any fun supplied => casemap.casefold key == casemap.casefold supplied then some .badKey
  else if chan.modes.inviteOnly && !wasInvited &&
      !anyMatch ipnet casemap chan.inviteExceptions joiner.subject then some .inviteOnly
  else if (chan.modes.limit.any (· ≤ chan.members.entries.length)) && !wasInvited then some .full
  else none

/-- The channel with the joiner; an invitation is consumed by the JOIN it admitted. -/
def letIn (chan : Channel) (joiner : Joiner) (registered : Bool) : Channel :=
  { chan with
    members := chan.members.insert joiner.conn
      { nick := joiner.nick
        op := (chan.members.entries.isEmpty && !registered) || joiner.isFounder || joiner.accessOp
        voice := joiner.accessVoice }
    invited := chan.invited.erase joiner.conn }

end Channel

/-- A channel that may not exist, and its lock. -/
structure State where
  channel : Option Channel
  lock : Option MlockModes

namespace State

variable (ipnet : Ipnet) (casemap : CaseMapping)

def init : State := ⟨none, none⟩

def joinOnOwner (s : State) (joiner : Channel.Joiner) (joinKey : Option Bytes) (registered : Bool) :
    State :=
  let chan := s.channel.getD .new
  if chan.isMember joiner.conn then s
  else
    match chan.refusal ipnet casemap joiner joinKey with
    | some _ => s
    | none =>
      let admitted := chan.letIn joiner registered
      -- a lock is enforced the moment the channel is created
      { s with
        channel := some <|
          match s.channel, s.lock with
          | none, some m => admitted.enforceMlock m
          | _, _ => admitted }

/-- Change the channel, when there is one. -/
def change (s : State) (f : Channel → Channel) : State :=
  { s with channel := s.channel.map f }

/-- The channel without a member; one without members is gone. -/
def removeMember (s : State) (conn : ConnId) : State :=
  { s with
    channel := s.channel.bind fun chan =>
      let members := chan.members.erase conn
      if members.entries.isEmpty then none else some { chan with members } }

def partOnOwner (s : State) (conn : ConnId) : State :=
  if s.channel.any (·.isMember conn) then s.removeMember conn else s

def kickOnOwner (s : State) (conn : ConnId) (who : Bytes) : State :=
  match s.channel with
  | none => s
  | some chan =>
    if chan.isOp conn then
      match chan.memberNamed casemap who with
      | none => s
      | some victim => s.removeMember victim
    else s

end State

inductive Event
  | join (joiner : Channel.Joiner) (joinKey : Option Bytes) (registered : Bool)
  | invite (actor invitee : ConnId) (order : List ConnId)
  | mode (conn : ConnId) (letters : Option (List Char)) (args : List Bytes)
  | setLock (spec : Option (List Char))
  | enforce
  | part (conn : ConnId)
  | kick (conn : ConnId) (who : Bytes)
  | quit (conn : ConnId)
  /-- ChanServ OP, DEOP, VOICE and DEVOICE. -/
  | status (conn : ConnId) (op voice : Bool)

def Event.apply (ipnet : Ipnet) (casemap : CaseMapping) (s : State) : Event → Option State
  | .join joiner joinKey registered => some (s.joinOnOwner ipnet casemap joiner joinKey registered)
  | .invite actor invitee order => do
    guard (s.channel.all fun chan => chan.invited.isPerm order)
    some (s.change (·.inviteOnOwner actor invitee order))
  | .mode conn letters args => some (s.change fun chan =>
    (chan.channelModeBy ipnet casemap s.lock conn letters args).1)
  | .setLock none => some { s with lock := none }
  | .setLock (some spec) => (MlockModes.parse spec).toOption.map fun m => { s with lock := some m }
  | .enforce => some (s.change fun chan => s.lock.elim chan chan.enforceMlock)
  | .part conn => some (s.partOnOwner conn)
  | .kick conn who => some (s.kickOnOwner casemap conn who)
  | .quit conn => some (if s.channel.any (·.isMember conn) then s.removeMember conn else s)
  | .status conn op voice => some (s.change fun chan =>
    match chan.members.lookup conn with
    | none => chan
    | some member =>
      { chan with members := chan.members.insert conn { member with op, voice } })

/-- The operations on one channel. -/
def channelRuns (ipnet : Ipnet) (casemap : CaseMapping) : System State Event where
  init := .init
  step := Event.apply ipnet casemap

end E6irc.Modes
