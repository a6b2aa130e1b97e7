import E6irc.Core.MemberRun

/-!
# The two sides of a membership

Between the shards a membership may be known on one side and not yet on the other.
Once nothing is on its way any more the sides agree: a channel's table names exactly
the live sessions that list the channel (`members_are_live_sessions`).  A channel is
kept only as long as it has members (`State.Peopled`): the one JOIN that finds none
makes a channel with the modes of a new one, which refuse nobody.
-/

namespace E6irc.Membership

open Base Option Channel State

/-- A new channel refuses nobody. -/
theorem Channel.refusal_new (casemap : CaseMapping) (conn : ConnId) (joinKey : Option Bytes) :
    new.refusal casemap conn joinKey = none := by
  simp [refusal, new, ChanModes.new]

theorem Channel.hasMembers_of_lookup {chan : Channel} {conn : ConnId} {member : Member}
    (found : chan.members.lookup conn = some member) : chan.hasMembers = true := by
  refine Bool.not_eq_false _ ▸ fun empty => ?_
  rw [lookup_of_not_hasMembers chan empty] at found
  cases found

namespace State

variable {Shard : Type} {cfg : Config Shard} {s s' : State Shard} {c : ConnId} {k : ChanKey}

/-! ## Agreement -/

/-- Whether the session of `conn` is in the table of the channel's owner. -/
def InTable (s : State Shard) (conn : ConnId) (key : ChanKey) : Prop :=
  ∃ chan, s.channels key = some chan ∧ chan.isMember conn = true

variable (cfg) in
theorem inTable_iff : s.InTable c k ↔ (s.cell cfg c k).member.isSome = true := by
  change _ ↔ (s.era c k).isSome = true
  constructor
  · intro ⟨chan, found, member⟩
    rwa [← isMember_iff found]
  intro member
  cases found : s.channels k with
  | none =>
    rw [era_of_missing found] at member
    cases member
  | some chan => exact ⟨chan, found, (isMember_iff found).trans member⟩

variable (cfg) in
theorem lists_iff : (∃ session, s.sessions c = some session ∧ k ∈ session.channels) ↔
    (s.cell cfg c k).listed = true := by
  rw [cell]
  cases s.sessions c with
  | none => simp [Cell.of]
  | some session => simp [Cell.of]

theorem up_of_quiet (quiet : ∀ src dst, s.links src dst = []) : (s.cell cfg c k).up = [] := by
  change s.ups cfg c k = []
  rw [ups, quiet, List.filterMap_nil]

theorem down_of_quiet (quiet : ∀ src dst, s.links src dst = []) : (s.cell cfg c k).down = [] := by
  change s.downs cfg c k = []
  rw [downs, quiet, List.filterMap_nil]

/-- With nothing on its way, the two sides of a cell agree. -/
theorem Inv.agree {ok : Cell → Prop} (inv : Inv ok cfg s) (quiet : ∀ src dst, s.links src dst = []) :
    (s.cell cfg c k).member.isSome = (s.cell cfg c k).listed := by
  have up : (s.cell cfg c k).up = [] := up_of_quiet quiet
  have down : (s.cell cfg c k).down = [] := down_of_quiet quiet
  by_cases here : cfg.home c = cfg.channelOwner k
  · exact (inv.settled c k here).agree.symm
  by_cases born : c < s.nextConn
  · obtain ⟨live, gone⟩ := (inv.reach c k here born).inv
    cases alive : (s.cell cfg c k).alive with
    | true =>
      have told := (live alive).told
      rw [down] at told
      exact told.symm
    | false =>
      have leaving := (gone alive).leaving
      rw [up, down] at leaving
      rw [(gone alive).unlisted, Bool.eq_false_iff]
      intro member
      simpa using leaving member
  · rw [inv.unborn c k (Nat.le_of_not_lt born)]
    rfl

/-! ## Channels without members -/

/-- No channel is without members. -/
def Peopled (s : State Shard) : Prop :=
  ∀ key chan, s.channels key = some chan → chan.hasMembers = true

section

variable (peopled : s.Peopled)
include peopled

theorem Peopled.setChannel {after : Option Channel}
    (members : ∀ chan, after = some chan → chan.hasMembers = true) :
    (s.setChannel k after).Peopled := by
  intro key chan found
  unfold State.setChannel at found
  dsimp only at found
  rcases eq_or_ne key k with rfl | apart
  · rw [Function.update_self] at found
    exact members chan found
  · rw [Function.update_of_ne apart] at found
    exact peopled key chan found

theorem Peopled.removeMember : (s.removeMember k c).Peopled := by
  unfold State.removeMember
  split
  · exact peopled
  split
  · refine peopled.setChannel fun left kept => ?_
    obtain ⟨members, same⟩ := ite_none_right_eq_some.mp kept
    cases same
    exact members
  · exact peopled

theorem Peopled.joinOnOwner (joinKey : Option Bytes) (era : ℕ) :
    (s.joinOnOwner cfg c k joinKey era).2.Peopled := by
  unfold State.joinOnOwner
  dsimp only
  split
  · refine peopled.setChannel fun chan made => ?_
    cases made
    exact hasMembers_of_lookup (AList.lookup_insert _)
  split
  · rename_i failure refused
    refine peopled.setChannel fun chan made => ?_
    cases made
    cases found : s.channels k with
    | none =>
      rw [found, getD_none, refusal_new] at refused
      cases refused
    | some chan => exact peopled k chan found
  · refine peopled.setChannel fun chan made => ?_
    cases made
    exact hasMembers_of_lookup (AList.lookup_insert _)

theorem Peopled.partOnOwner : (s.partOnOwner c k).2.Peopled := by
  unfold State.partOnOwner
  split
  · exact peopled
  split
  · exact peopled.removeMember
  split
  · exact peopled
  · exact peopled

theorem Peopled.quitChannelMember (keys : List ChanKey) : (s.quitChannelMember c keys).Peopled := by
  unfold State.quitChannelMember
  induction keys generalizing s with
  | nil => exact peopled
  | cons key keys ih => exact ih peopled.removeMember

theorem Peopled.setMode {chan : Channel} (found : s.channels k = some chan)
    (modes : ChanModes) (invited ops : List ConnId) :
    (s.setChannel k (some (chan.setMode modes invited ops))).Peopled := by
  refine peopled.setChannel fun after made => ?_
  cases made
  have members := peopled k chan found
  simpa [Channel.hasMembers, Channel.setMode, mapValues] using members

end

variable [DecidableEq Shard]

section

variable (peopled : s.Peopled)
include peopled

theorem Peopled.cmdPart (owed : Option ℕ) : (s.cmdPart cfg c k owed).Peopled := by
  unfold State.cmdPart
  split
  · dsimp only
    cases (s.partOnOwner c k).1 with
    | _ => exact peopled.partOnOwner
  · exact peopled

theorem Peopled.kickOnOwner (victim : ConnId) : (s.kickOnOwner cfg c k victim).Peopled := by
  rcases kickOnOwner_cases cfg s c k victim with same | ⟨-, kicks⟩
  · rw [same]
    exact peopled
  rw [kicks]
  split
  · exact peopled.removeMember
  · exact peopled.removeMember

theorem Peopled.emitJoinResponse (result : ChannelJoinResult) :
    (s.emitJoinResponse cfg c k result).Peopled := by
  cases result with
  | joined =>
    unfold State.emitJoinResponse
    dsimp only
    split
    · split
      · exact peopled.removeMember
      · exact peopled
    · exact peopled
  | _ => exact peopled

theorem Peopled.emitJoinResult {result : ChannelJoinResult}
    (answered : s.emitJoinResult cfg c k result = some s') : s'.Peopled := by
  unfold State.emitJoinResult at answered
  split at answered
  · cases answered
    exact peopled.emitJoinResponse result
  rename_i session found
  obtain ⟨⟨partNow, after⟩, -, rest⟩ := bind_eq_some_iff.mp answered
  have begun : (s.updateSession c fun _ => after).Peopled := peopled
  dsimp only at rest
  split at rest
  · cases rest
    exact (begun.emitJoinResponse result).cmdPart _
  · cases rest
    exact begun.emitJoinResponse result

theorem Peopled.cmdJoin (session : Session) (joinKey : Option Bytes) :
    (s.cmdJoin cfg c session k joinKey).Peopled := by
  unfold State.cmdJoin
  split
  · exact peopled
  split
  · exact (peopled.joinOnOwner joinKey session.zeros).emitJoinResponse _
  · exact peopled

theorem Peopled.cmdJoinZero (session : Session) : (s.cmdJoinZero cfg c session).Peopled := by
  have begun : (s.updateSession c fun _ => session.partJoinsInFlight).Peopled := peopled
  unfold State.cmdJoinZero
  dsimp only
  generalize session.partJoinsInFlight.channels.take partTargmax = keys
  generalize s.updateSession c (fun _ => session.partJoinsInFlight) = t at begun
  induction keys generalizing t with
  | nil => exact begun
  | cons key keys ih => exact ih _ (begun.cmdPart _)

theorem Peopled.close (session : Session) : (s.close cfg c session).Peopled := by
  have quits (shards : List Shard) :
      (shards.foldl (fun s shard => s.quitShard cfg c session.sessionChannels shard) s).Peopled := by
    induction shards generalizing s with
    | nil => exact peopled
    | cons shard shards ih =>
      refine ih ?_
      unfold quitShard
      dsimp only
      split
      · exact peopled.quitChannelMember _
      · exact peopled
  exact quits _

theorem Peopled.handle {input : Input Shard}
    (handled : handle cfg s input = some s') : s'.Peopled := by
  cases input with
  | channelJoin conn key joinKey era =>
    cases handled
    exact peopled.joinOnOwner joinKey era
  | channelJoinResult conn key result era => exact peopled.emitJoinResult handled
  | channelPart conn key owed =>
    cases handled
    exact peopled.partOnOwner
  | channelPartResult conn key result =>
    cases handled
    cases result with
    | _ => exact peopled
  | channelKick conn key victim =>
    cases handled
    exact peopled.kickOnOwner victim
  | sessionChannelRemoved conn key =>
    cases handled
    exact peopled
  | channelQuit conn shard keys =>
    cases handled
    exact peopled.quitChannelMember keys
  | channelMemberVanished conn key =>
    cases handled
    exact peopled.removeMember

theorem Peopled.step {event : Event Shard} (stepped : s.step cfg event = some s') : s'.Peopled := by
  cases event with
  | connect =>
    cases stepped
    exact peopled
  | join c k joinKey =>
    obtain ⟨session, -, done⟩ := bind_eq_some_iff.mp stepped
    cases done
    exact peopled.cmdJoin session joinKey
  | joinZero c =>
    obtain ⟨session, -, done⟩ := bind_eq_some_iff.mp stepped
    cases done
    exact peopled.cmdJoinZero session
  | part c k =>
    obtain ⟨session, -, done⟩ := bind_eq_some_iff.mp stepped
    cases done
    exact peopled.cmdPart none
  | kick c k victim =>
    obtain ⟨session, -, done⟩ := bind_eq_some_iff.mp stepped
    split at done
    · cases done
      exact peopled.kickOnOwner victim
    · cases done
      exact peopled
  | close c =>
    obtain ⟨session, -, done⟩ := bind_eq_some_iff.mp stepped
    cases done
    exact peopled.close session
  | mode k modes invited ops =>
    obtain ⟨chan, found, done⟩ := bind_eq_some_iff.mp stepped
    cases done
    exact peopled.setMode found modes invited ops
  | deliver src dst =>
    obtain ⟨⟨input, rest⟩, -, handled⟩ := bind_eq_some_iff.mp stepped
    have received : { s with links := rest }.Peopled := peopled
    exact received.handle handled

end

end State

/-- Whenever no message is in transit, a connection is in a channel's table exactly if its
live session lists the channel, and no channel is without members. -/
theorem members_are_live_sessions {Shard : Type} [DecidableEq Shard] {cfg : Config Shard}
    {es : List (Event Shard)} {s : State Shard} (run : (network cfg).Run System.anyStep es s)
    (quiet : ∀ src dst, s.links src dst = []) :
    (∀ conn key, s.InTable conn key ↔
      ∃ session, s.sessions conn = some session ∧ key ∈ session.channels) ∧
    ∀ key chan, s.channels key = some chan → chan.hasMembers = true := by
  have inv : s.Inv (fun _ => True) cfg := by
    refine network_inv (run.mono fun _ s event _ => ?_)
    cases event with
    | join => exact fun _ => trivial
    | _ => trivial
  refine ⟨fun conn key => ?_, ?_⟩
  · rw [inTable_iff cfg, lists_iff cfg, inv.agree quiet]
  · exact run.invariant (P := fun _ s => s.Peopled) nofun fun _ _ _ _ peopled _ => peopled.step

/-- Connections on one of two shards, channels on the other. -/
def twoShards : Config Bool := ⟨fun _ => false, fun _ => true, .ascii⟩

/-- A JOIN sent to the other shard, and its answer heard. -/
def joinsAcross : List (Event Bool) :=
  [.connect, .join 0 (ascii "#a") none, .deliver false true, .deliver true false]

theorem members_are_live_sessions_joined :
    ∃ s, (network twoShards).Run System.anyStep joinsAcross s ∧
      (∀ src dst, s.links src dst = []) ∧ s.InTable 0 (ascii "#a") ∧
      ∃ session, s.sessions 0 = some session ∧ ascii "#a" ∈ session.channels := by
  have observed : ((network twoShards).exec joinsAcross).map (fun s =>
      (decide (∀ src dst, (s.links src dst).isEmpty = true),
        (s.channels (ascii "#a")).any (·.isMember 0))) = some (true, true) := by
    decide +kernel
  obtain ⟨s, run, seen⟩ := System.exists_run observed
  obtain ⟨empty, member⟩ := Prod.mk.inj seen
  have quiet : ∀ src dst, s.links src dst = [] := fun src dst =>
    List.isEmpty_iff.mp (of_decide_eq_true empty src dst)
  have inTable : s.InTable 0 (ascii "#a") := by
    cases found : s.channels (ascii "#a") with
    | none =>
      rw [found] at member
      cases member
    | some chan =>
      rw [found] at member
      exact ⟨chan, found, member⟩
  exact ⟨s, run, quiet, inTable, ((members_are_live_sessions run quiet).1 0 (ascii "#a")).mp inTable⟩

end E6irc.Membership
