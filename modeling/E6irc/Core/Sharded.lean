import E6irc.Base.Links
import E6irc.Base.Run
import E6irc.Core.Names

/-!
# Direct messages over the shards of the core

Each session lives on one shard, and each party's shard keeps its own copy of a
conversation.  A message is recorded on the sender's shard and travels to the
peer's as `Input::ConversationEntry`; a session that lets go of its `~nick`
frees that identity's rings on its own shard at once and tells every other one
(`Input::UnauthenticatedIdentityReleased`).  Nicks and identities are read from
a directory all shards share, so an event takes what it reads at one moment.

`tenure`, `sent` and `handled` are bookkeeping that no step reads but the
freshness of a `msgid`: how many identities a connection has let go of, which
messages were sent between which parties, and which shard has handled whose
release.
-/

namespace E6irc.Sharded

open Base

abbrev ConnId := ℕ

/-- What does not change while the core runs. -/
structure Config (Shard : Type) where
  /-- The shard that owns a connection's session. -/
  home : ConnId → Shard
  casemap : CaseMapping
  nickLen : ℕ
  saslEnabled : Bool
  bounds : HotHistoryBounds

/-- The parts of a session that decide its identity. -/
structure Session where
  nick : Option Bytes
  account : Option Bytes
  registered : Bool
deriving DecidableEq, Repr

/-- `conn_identity`, and `PublicUser::identity` of the same session. -/
def Session.identity (session : Session) (casemap : CaseMapping) : Bytes :=
  match session.account with
  | some account => casemap.casefold account
  | none => unauthenticatedIdentity casemap (session.nick.getD [])

/-- A session that can exchange messages and is known by its nick alone. -/
def Session.isGuest (session : Session) : Bool :=
  session.registered && session.account.isNone

/-- A session under one of its identities. -/
structure Party where
  conn : ConnId
  tenure : ℕ
  identity : Bytes
deriving DecidableEq, Repr

/-- A message, the key it is recorded under and the sessions it was sent by and to. -/
structure Sent where
  msgid : Bytes
  key : HistoryKey
  parties : List Party
deriving DecidableEq

/-- What one shard routes to another.  The parties are not in the code's inputs;
a release carries the identity alone. -/
inductive ShardInput
  | conversationEntry (key : HistoryKey) (entry : HistoryRow) (parties : List Party)
  | unauthenticatedIdentityReleased (party : Party)

/-- The input is a message by or to the party. -/
def ShardInput.carries (party : Party) : ShardInput → Bool
  | .conversationEntry _ _ parties => decide (party ∈ parties)
  | .unauthenticatedIdentityReleased _ => false

/-- The input frees the rings of the identity. -/
def ShardInput.frees (identity : Bytes) : ShardInput → Bool
  | .conversationEntry _ _ _ => false
  | .unauthenticatedIdentityReleased party => decide (party.identity = identity)

/-! ## The shards' copies of the conversations -/

structure Copies (Shard : Type) where
  history : Shard → HotHistory
  links : Links Shard ShardInput
  tenure : ConnId → ℕ
  sent : List Sent
  handled : List (Shard × Party)

namespace Copies

variable {Shard : Type} [DecidableEq Shard]

def pushHistory (cfg : Config Shard) (c : Copies Shard) (shard : Shard) (key : HistoryKey)
    (entry : HistoryRow) : Copies Shard :=
  let pushed := (c.history shard).push key entry (!cfg.saslEnabled) cfg.bounds
  { c with history := Function.update c.history shard pushed.1 }

def forgetUnauthenticatedIdentity (c : Copies Shard) (shard : Shard) (party : Party) :
    Copies Shard :=
  { c with
    history := Function.update c.history shard ((c.history shard).forgetIdentity party.identity)
    handled := (shard, party) :: c.handled }

section

variable {cfg : Config Shard} {c : Copies Shard} {shard other : Shard} {key : HistoryKey}
  {entry : HistoryRow} {party : Party}

theorem pushHistory_here : (c.pushHistory cfg shard key entry).history shard =
    ((c.history shard).push key entry (!cfg.saslEnabled) cfg.bounds).1 :=
  Function.update_self ..

theorem pushHistory_elsewhere (apart : other ≠ shard) :
    (c.pushHistory cfg shard key entry).history other = c.history other :=
  Function.update_of_ne apart ..

theorem forget_here : (c.forgetUnauthenticatedIdentity shard party).history shard =
    (c.history shard).forgetIdentity party.identity :=
  Function.update_self ..

theorem forget_elsewhere (apart : other ≠ shard) :
    (c.forgetUnauthenticatedIdentity shard party).history other = c.history other :=
  Function.update_of_ne apart ..

end

/-- The tenure of `conn` under `nick` ends: its own shard frees the rings, and
every other shard is told to. -/
def releaseUnauthenticatedIdentity (cfg : Config Shard) (c : Copies Shard) (conn : ConnId)
    (nick : Bytes) : Copies Shard :=
  let party : Party := ⟨conn, c.tenure conn, unauthenticatedIdentity cfg.casemap nick⟩
  { c with
    tenure := Function.update c.tenure conn (c.tenure conn + 1)
    links := c.links.broadcast (cfg.home conn) (.unauthenticatedIdentityReleased party)
      }.forgetUnauthenticatedIdentity (cfg.home conn) party

/-- Note a message as sent. -/
def log (c : Copies Shard) (message : Sent) : Copies Shard :=
  { c with sent := message :: c.sent }

/-- The peer's shard is sent the entry when it is another one. -/
def routeEntry (cfg : Config Shard) (c : Copies Shard) (src dst : Party) (key : HistoryKey)
    (entry : HistoryRow) : Copies Shard :=
  if cfg.home dst.conn = cfg.home src.conn then c
  else
    { c with
      links := c.links.send (cfg.home src.conn) (cfg.home dst.conn)
        (.conversationEntry key entry [src, dst]) }

def recordConversation (cfg : Config Shard) (c : Copies Shard) (src dst : Party)
    (entry : HistoryRow) : Copies Shard :=
  let key := dmConversationKey src.identity dst.identity
  let c := c.log ⟨entry.msgid, key, [src, dst]⟩
  let c := c.routeEntry cfg src dst key entry
  c.pushHistory cfg (cfg.home src.conn) key entry

section

variable {cfg : Config Shard} {c : Copies Shard} {src dst party : Party} {entry : HistoryRow}

theorem recordConversation_sent : (c.recordConversation cfg src dst entry).sent =
    ⟨entry.msgid, dmConversationKey src.identity dst.identity, [src, dst]⟩ :: c.sent := by
  unfold recordConversation routeEntry
  dsimp only
  split <;> rfl

@[simp] theorem recordConversation_tenure :
    (c.recordConversation cfg src dst entry).tenure = c.tenure := by
  unfold recordConversation routeEntry
  dsimp only
  split <;> rfl

theorem recordConversation_handled :
    (c.recordConversation cfg src dst entry).handled = c.handled := by
  unfold recordConversation routeEntry
  dsimp only
  split <;> rfl

/-- Recording a conversation queues no release. -/
theorem released_mem_recordConversation {a b : Shard} :
    .unauthenticatedIdentityReleased party ∈ (c.recordConversation cfg src dst entry).links a b ↔
      .unauthenticatedIdentityReleased party ∈ c.links a b := by
  unfold recordConversation routeEntry
  dsimp only
  split
  · rfl
  · exact Links.mem_send.trans (by simp [log])

end

/-- `Core::handle_input`, for the two inputs that reach conversations. -/
def handleInput (cfg : Config Shard) (c : Copies Shard) (shard : Shard) :
    ShardInput → Copies Shard
  | .conversationEntry key entry _ => c.pushHistory cfg shard key entry
  | .unauthenticatedIdentityReleased party => c.forgetUnauthenticatedIdentity shard party

end Copies

/-! ## Sessions and events -/

structure State (Shard : Type) where
  sessions : AList fun _ : ConnId => Session
  copies : Copies Shard

inductive Event (Shard : Type)
  | connect (conn : ConnId)
  | nick (conn : ConnId) (nick : Bytes)
  | register (conn : ConnId)
  | login (conn : ConnId) (account : Bytes)
  | logout (conn : ConnId)
  | close (conn : ConnId)
  | message (src dst : ConnId) (entry : HistoryRow)
  | channelMessage (shard : Shard) (key : HistoryKey) (entry : HistoryRow)
  | deliver (src dst : Shard)

namespace State

variable {Shard : Type} [DecidableEq Shard]

def init : State Shard :=
  ⟨∅, ⟨fun _ => .empty, .empty, fun _ => 0, [], []⟩⟩

/-- Nobody else holds the nick. -/
def claimNick (cfg : Config Shard) (s : State Shard) (conn : ConnId) (nick : Bytes) : Bool :=
  s.sessions.entries.all fun held => held.1 == conn ||
    held.2.nick.map cfg.casemap.casefold != some (cfg.casemap.casefold nick)

/-- The nick a session lets go of along with the `~nick` identity it gave it. -/
def releases (cfg : Config Shard) (session : Session) (next : Option Bytes) : Option Bytes :=
  match next with
  -- Changing nick: only a registered session has the identity to release.
  | some nick =>
    if session.registered && session.account.isNone &&
        session.nick.map cfg.casemap.casefold != some (cfg.casemap.casefold nick) then session.nick
    else none
  -- Logging in or leaving.
  | none => if session.account.isNone then session.nick else none

/-- Release the identity of a nick let go of, if one was. -/
def letGo (cfg : Config Shard) (s : State Shard) (conn : ConnId) (released : Option Bytes) :
    Copies Shard :=
  released.elim s.copies (s.copies.releaseUnauthenticatedIdentity cfg conn)

def changeClaimedNick (cfg : Config Shard) (s : State Shard) (conn : ConnId) (session : Session)
    (nick : Bytes) : State Shard where
  sessions := s.sessions.insert conn { session with nick := some nick }
  copies := s.letGo cfg conn (releases cfg session (some nick))

def setAccount (cfg : Config Shard) (s : State Shard) (conn : ConnId) (session : Session)
    (account : Bytes) : State Shard where
  sessions := s.sessions.insert conn { session with account := some account }
  copies := s.letGo cfg conn (releases cfg session none)

def clearAccount (s : State Shard) (conn : ConnId) (session : Session) : State Shard :=
  { s with sessions := s.sessions.insert conn { session with account := none } }

def close (cfg : Config Shard) (s : State Shard) (conn : ConnId) (session : Session) :
    State Shard where
  sessions := s.sessions.erase conn
  copies := s.letGo cfg conn (releases cfg session none)

/-- The session as it takes part in a message now. -/
def party (cfg : Config Shard) (s : State Shard) (conn : ConnId) (session : Session) : Party :=
  ⟨conn, s.copies.tenure conn, session.identity cfg.casemap⟩

/-- No message has the id yet. -/
def fresh (s : State Shard) (msgid : Bytes) : Bool :=
  s.copies.sent.all (·.msgid != msgid)

omit [DecidableEq Shard] in
theorem fresh_iff {s : State Shard} {msgid : Bytes} :
    s.fresh msgid = true ↔ ∀ message ∈ s.copies.sent, message.msgid ≠ msgid := by
  simp [fresh]

def step (cfg : Config Shard) (s : State Shard) : Event Shard → Option (State Shard)
  | .connect conn => do
    guard (conn ∉ s.sessions)
    some { s with sessions := s.sessions.insert conn ⟨none, none, false⟩ }
  | .nick conn nick => do
    let session ← s.sessions.lookup conn
    guard (validNick nick cfg.nickLen = true ∧ s.claimNick cfg conn nick = true)
    some (s.changeClaimedNick cfg conn session nick)
  | .register conn => do
    let session ← s.sessions.lookup conn
    guard (session.nick.isSome = true)
    some { s with sessions := s.sessions.insert conn { session with registered := true } }
  | .login conn account => do
    let session ← s.sessions.lookup conn
    guard (validAccount account = true)
    some (s.setAccount cfg conn session account)
  | .logout conn => do
    let session ← s.sessions.lookup conn
    some (s.clearAccount conn session)
  | .close conn => do
    let session ← s.sessions.lookup conn
    some (s.close cfg conn session)
  | .message src dst entry => do
    let sender ← s.sessions.lookup src
    let peer ← s.sessions.lookup dst
    guard ((sender.registered = true ∧ peer.registered = true) ∧ s.fresh entry.msgid = true)
    let copies := s.copies.recordConversation cfg (s.party cfg src sender) (s.party cfg dst peer) entry
    some { s with copies }
  | .channelMessage shard key entry => do
    guard (key.text.head? = some (byte '#') ∧ s.fresh entry.msgid = true)
    some { s with copies := (s.copies.log ⟨entry.msgid, key, []⟩).pushHistory cfg shard key entry }
  | .deliver src dst => do
    let (input, links) ← s.copies.links.receive src dst
    some { s with copies := { s.copies with links }.handleInput cfg dst input }

end State

/-- The sharded core, as far as direct messages and identities go. -/
def core {Shard : Type} [DecidableEq Shard] (cfg : Config Shard) :
    System (State Shard) (Event Shard) where
  init := .init
  step := State.step cfg

end E6irc.Sharded
