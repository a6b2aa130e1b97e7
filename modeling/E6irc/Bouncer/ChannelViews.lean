import E6irc.Base.Assoc
import E6irc.Base.Result
import E6irc.Base.Run
import E6irc.Client.Names
import E6irc.Proto.Time

/-!
# The channels of an upstream session

`bouncer/channel_views.rs`: the topic and the members of each channel, followed
line by line, and `memberships`, the number of members held over all channels,
which every change adjusts by hand.  `Panic` is what the code can stop at: a
subtraction that goes below zero, or a prefix symbol past the modes advertised.

The lines keep `memberships` at or above the true total, and below the bound, for
whatever an upstream sends.  It is the true total as long as no NICK moves a
member onto another one of its channel.
-/

namespace E6irc.Bouncer

open Base

def maxTrackedMemberships : ℕ := 20000

inductive Panic
  | underflow | indexOutOfBounds
deriving DecidableEq, Repr

/-- A character, as its bytes. -/
abbrev Char8 := Bytes

inductive Topic
  | unknown
  | unset
  | set (text : Bytes) (setBy setAt : Option Bytes)
deriving DecidableEq, Repr

structure Member where
  nick : Bytes
  modes : List Char8
deriving DecidableEq, Repr

/-- The members under their folded nicks. -/
abbrev Members := AList fun _ : Bytes => Member

inductive MemberList
  | receiving (members : Members)
  | complete (members : Members)
  | unknown

namespace MemberList

def members : MemberList → Option Members
  | receiving members | complete members => some members
  | unknown => none

def len : MemberList → ℕ
  | receiving members | complete members => members.entries.length
  | unknown => 0

/-- `members_mut`, when there are any. -/
def change (f : Members → Members) : MemberList → MemberList
  | receiving members => receiving (f members)
  | complete members => complete (f members)
  | unknown => unknown

end MemberList

structure ChannelView where
  topic : Topic
  symbol : Char8
  members : MemberList

def ChannelView.joined : ChannelView := ⟨.unknown, ascii "=", .receiving ∅⟩

/-! ## Modes -/

/-- The value of a 005 token. -/
def isupportValue (features : List Bytes) (name : Bytes) : Option Bytes :=
  features.findSome? fun token =>
    if name <+: token then stripFirst (byte '=') (token.drop name.length) else none

structure Prefixes where
  modes : List Char8
  symbols : List Char8
deriving DecidableEq, Repr

namespace Prefixes

def of (features : List Bytes) : Prefixes :=
  let value := (isupportValue features (ascii "PREFIX")).getD (ascii "(ov)@+")
  let (modes, symbols) :=
    ((stripFirst (byte '(') value).bind (splitOnce (byte ')'))).getD (ascii "ov", ascii "@+")
  ⟨chars modes, chars symbols⟩

/-- The mode a symbol shows. -/
def modeOf (p : Prefixes) (symbol : Char8) : Except Panic Char8 :=
  match p.modes[p.symbols.idxOf symbol]? with
  | some mode => .ok mode
  | none => .error .indexOutOfBounds

/-- A `353` entry as its nick and the modes its symbols show. -/
def split (p : Prefixes) (entry : Bytes) : Except Panic (Bytes × List Char8) := do
  let symbols := (chars entry).takeWhile (p.symbols.contains ·)
  let nick := ((chars entry).dropWhile (p.symbols.contains ·)).flatten
  let modes ← symbols.mapM p.modeOf
  let nick := (splitOnce (byte '!') nick).elim nick Prod.fst
  return (nick, modes)

end Prefixes

/-- The kinds of modes that `CHANMODES` lists first. -/
structure ModeKinds where
  always : List Char8
  parameter : List Char8
  whenSet : List Char8
  membership : List Char8

def ModeKinds.of (features : List Bytes) : ModeKinds :=
  let kinds := ((isupportValue features (ascii "CHANMODES")).getD
    (ascii "beI,k,l,imnpst")).splitOn (byte ',')
  ⟨chars (kinds[0]?.getD []), chars (kinds[1]?.getD []), chars (kinds[2]?.getD []),
    (Prefixes.of features).modes⟩

/-- The changes that mode letters make, each with its argument. -/
def modeChanges (kinds : ModeKinds) :
    List Char8 → Bool → List Bytes → List (Bool × Char8 × Option Bytes)
  | [], _, _ => []
  | mode :: modes, adding, arguments =>
    if mode = ascii "+" then modeChanges kinds modes true arguments
    else if mode = ascii "-" then modeChanges kinds modes false arguments
    else if kinds.always.contains mode || kinds.parameter.contains mode ||
        kinds.membership.contains mode || (adding && kinds.whenSet.contains mode) then
      (adding, mode, arguments.head?) :: modeChanges kinds modes adding arguments.tail
    else (adding, mode, none) :: modeChanges kinds modes adding arguments

def channelModeChanges (features : List Bytes) (modes : Bytes) (arguments : List Bytes) :
    List (Bool × Char8 × Option Bytes) :=
  modeChanges (.of features) (chars modes) true arguments

/-! ## Views -/

structure ChannelViews where
  channels : AList fun _ : Bytes => ChannelView
  memberships : ℕ

def checkedSub (a b : ℕ) : Except Panic ℕ :=
  if b ≤ a then .ok (a - b) else .error .underflow

namespace ChannelViews

def default : ChannelViews := ⟨∅, 0⟩

/-- The members held over all channels. -/
def total (views : ChannelViews) : ℕ :=
  weight (fun view => view.members.len) views.channels

/-- Change the view of one channel, when there is one. -/
def changeView (views : ChannelViews) (channel : Bytes) (change : ChannelView → ChannelView) :
    ChannelViews :=
  match views.channels.lookup channel with
  | none => views
  | some view => { views with channels := views.channels.insert channel (change view) }

def clear (_ : ChannelViews) : ChannelViews := .default

/-- Members under the folds that `names` gives. -/
def rekeyMembers (names : Client.NetworkNames) (members : Members) : Members :=
  members.entries.foldl (fun rekeyed entry =>
    rekeyed.insert (names.fold entry.2.nick) entry.2) ∅

def rekey (views : ChannelViews) (names : Client.NetworkNames)
    (channels : AList fun _ : Bytes => Bytes) : ChannelViews :=
  let rekeyed := views.channels.entries.foldl (fun rekeyed entry =>
    match channels.lookup entry.1 with
    | none => rekeyed
    | some display => rekeyed.insert (names.fold display)
        { entry.2 with members := entry.2.members.change (rekeyMembers names) })
    (∅ : AList fun _ : Bytes => ChannelView)
  ⟨rekeyed, weight (fun view => view.members.len) rekeyed⟩

def left (views : ChannelViews) (folded : Bytes) : Except Panic ChannelViews :=
  match views.channels.lookup folded with
  | none => .ok views
  | some view =>
    (checkedSub views.memberships view.members.len).map fun memberships =>
      ⟨views.channels.erase folded, memberships⟩

def joined (views : ChannelViews) (folded : Bytes) : Except Panic ChannelViews :=
  (views.left folded).map fun views =>
    { views with channels := views.channels.insert folded .joined }

def addMember (views : ChannelViews) (names : Client.NetworkNames) (nick : Bytes)
    (modes : List Char8) (channel : Bytes) : Except Panic ChannelViews :=
  match views.channels.lookup channel with
  | none => .ok views
  | some view =>
    match view.members.members with
    | none => .ok views
    | some members =>
      match members.lookup (names.fold nick) with
      | some member =>
        -- the modes not held yet, each once
        let held := modes.foldl (fun held mode => if mode ∈ held then held else held ++ [mode])
          member.modes
        .ok (views.changeView channel fun view => { view with
          members := view.members.change fun members =>
            members.insert (names.fold nick) { member with modes := held } })
      | none =>
        if maxTrackedMemberships ≤ views.memberships then
          (checkedSub views.memberships view.members.len).map fun memberships =>
            { views.changeView channel fun view => { view with members := .unknown } with memberships }
        else
          .ok { views.changeView channel fun view => { view with
              members := view.members.change fun members =>
                members.insert (names.fold nick) ⟨nick, modes⟩ } with
            memberships := views.memberships + 1 }

def removeMember (views : ChannelViews) (names : Client.NetworkNames) (nick channel : Bytes) :
    Except Panic ChannelViews :=
  match (views.channels.lookup channel).bind (·.members.members) with
  | none => .ok views
  | some members =>
    if (members.lookup (names.fold nick)).isSome then
      (checkedSub views.memberships 1).map fun memberships =>
        { views.changeView channel fun view => { view with
            members := view.members.change (·.erase (names.fold nick)) } with memberships }
    else .ok views

/-! ## Lines -/

/-- The channel lists a member under the folded nick. -/
def lists (folded : Bytes) (view : ChannelView) : Bool :=
  view.members.members.any fun members => (members.lookup folded).isSome

/-- The folded channels of a list. -/
def channelsOf (names : Client.NetworkNames) (list : Option Bytes) : List Bytes :=
  ((list.map fun list => (list.splitOn (byte ',')).filter (· ≠ [])).getD []).map names.fold

def observeKick (views : ChannelViews) (names : Client.NetworkNames) (own : Bytes)
    (channels targets : List Bytes) : Except Panic ChannelViews :=
  channels.zipIdx.foldlM (fun views (channel, index) =>
    let target := (targets[index]?.or targets.head?).getD []
    if names.eq target own then .ok views else views.removeMember names target channel) views

def observeQuit (views : ChannelViews) (folded : Bytes) : Except Panic ChannelViews :=
  let removed := weight (fun view => if lists folded view then 1 else 0) views.channels
  (checkedSub views.memberships removed).map fun memberships =>
    ⟨mapValues (fun _ view => { view with members := view.members.change (·.erase folded) })
      views.channels, memberships⟩

/-- Move a member to another nick. -/
def renameMember (old new folded : Bytes) (members : Members) : Members :=
  match members.lookup old with
  | none => members
  | some member => (members.erase old).insert folded { member with nick := new }

def observeNick (views : ChannelViews) (old new folded : Bytes) : ChannelViews :=
  { views with
    channels := mapValues (fun _ view =>
      { view with members := view.members.change (renameMember old new folded) }) views.channels }

def observeNames (views : ChannelViews) (names : Client.NetworkNames) (features : List Bytes)
    (channel : Bytes) (symbol : Option Char8) (entries : List Bytes) : Except Panic ChannelViews :=
  match views.channels.lookup channel with
  | none => .ok views
  | some view => do
    let views := views.changeView channel fun view => { view with symbol := symbol.getD view.symbol }
    -- a list after a complete one is a new list
    let views ← match view.members with
      | .complete members =>
        (checkedSub views.memberships members.entries.length).map fun memberships =>
          { views.changeView channel fun view => { view with members := .receiving ∅ } with
            memberships }
      | .receiving _ | .unknown => .ok views
    entries.foldlM (fun views entry => do
      let (nick, modes) ← (Prefixes.of features).split entry
      if nick = [] then .ok views else views.addMember names nick modes channel) views

def endNames : MemberList → MemberList
  | .receiving members => .complete members
  | .complete members => .complete members
  | .unknown => .unknown

/-- One change of a membership mode. -/
def changeModes (names : Client.NetworkNames) (membership : List Char8) (members : Members)
    (change : Bool × Char8 × Option Bytes) : Members :=
  match change with
  | (adding, mode, some nick) =>
    if membership.contains mode then
      match members.lookup (names.fold nick) with
      | none => members
      | some member =>
        let modes :=
          if adding then if mode ∈ member.modes then member.modes else member.modes ++ [mode]
          else member.modes.filter (· ≠ mode)
        members.insert (names.fold nick) { member with modes }
    else members
  | (_, _, none) => members

def topicOf (message : Message) (source : Option Bytes) : Topic :=
  let text := message.params[1]?.getD []
  if text = [] then .unset
  else .set text source (do
    let tag ← message.tag (ascii "time")
    let millis ← Time.parseServerTimeMillis (← tag.value)
    some (decimal (millis / 1000)))

/-- A numeric about the topic. -/
def topicNumeric (message : Message) (topic : Topic) : Topic :=
  if message.command = ascii "331" then .unset
  else if message.command = ascii "332" then .set (message.params.getLast?.getD []) none none
  else
    match topic with
    | .set text _ _ => .set text message.params[2]? message.params[3]?
    | .unknown => .unknown
    | .unset => .unset

/-- Follow one line of the session. -/
def observe (views : ChannelViews) (message : Message) (names : Client.NetworkNames)
    (features : List Bytes) (own : Bytes) : Except Panic ChannelViews :=
  let source := message.source.map (·.name)
  let fromUs := source.any fun source => names.eq source own
  let command := toAsciiUppercase message.command
  if command = ascii "JOIN" then
    match source with
    | some nick =>
      if fromUs then .ok views
      else (channelsOf names message.params[0]?).foldlM (fun views channel =>
        views.addMember names nick [] channel) views
    | none => .ok views
  else if command = ascii "PART" ∧ fromUs = false then
    match source with
    | some nick => (channelsOf names message.params[0]?).foldlM (fun views channel =>
      views.removeMember names nick channel) views
    | none => .ok views
  else if command = ascii "KICK" then
    views.observeKick names own (channelsOf names message.params[0]?)
      ((message.params[1]?.getD []).splitOn (byte ','))
  else if command = ascii "QUIT" ∧ fromUs = false then
    match source with
    | some nick => views.observeQuit (names.fold nick)
    | none => .ok views
  else if command = ascii "NICK" then
    match source, message.params[0]? with
    | some old, some new => .ok (views.observeNick (names.fold old) new (names.fold new))
    | _, _ => .ok views
  else if command = ascii "353" ∧ 3 ≤ message.params.length then
    let count := message.params.length
    let symbol := if 4 ≤ count then (chars (message.params[count - 3]?.getD [])).head? else none
    views.observeNames names features (names.fold (message.params[count - 2]?.getD [])) symbol
      (((message.params[count - 1]?.getD []).splitOn (byte ' ')).filter (· ≠ []))
  else if command = ascii "366" then
    match message.params[1]? with
    | some channel => .ok (views.changeView (names.fold channel) fun view =>
      { view with members := endNames view.members })
    | none => .ok views
  else if command = ascii "331" ∨ command = ascii "332" ∨ command = ascii "333" then
    match message.params[1]? with
    | some channel => .ok (views.changeView (names.fold channel) fun view =>
      { view with topic := topicNumeric message view.topic })
    | none => .ok views
  else if command = ascii "TOPIC" then
    match message.params[0]? with
    | some channel => .ok (views.changeView (names.fold channel) fun view =>
      { view with topic := topicOf message source })
    | none => .ok views
  else if command = ascii "MODE" then
    match message.params[0]?, message.params[1]? with
    | some channel, some modes => .ok (views.changeView (names.fold channel) fun view =>
      { view with
        members := view.members.change fun members =>
          (channelModeChanges features modes (message.params.drop 2)).foldl
            (changeModes names (Prefixes.of features).modes) members })
    | _, _ => .ok views
  else .ok views

end ChannelViews

end E6irc.Bouncer
